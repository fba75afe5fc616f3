import LoxTree.Text.Ranges

/-!
# Blanks

The blanks are the white space of Unicode 14: the characters whose bidirectional class is a
separator or white space, together with the space separators. `strip` removes them from both ends
of a text.
-/

namespace LoxTree.Text

/-- The ranges of the blanks. -/
def blankRanges : List (Nat × Nat) :=
  [(0x9, 0xD), (0x1C, 0x20), (0x85, 0x85), (0xA0, 0xA0), (0x1680, 0x1680), (0x2000, 0x200A),
    (0x2028, 0x2029), (0x202F, 0x202F), (0x205F, 0x205F), (0x3000, 0x3000)]

/-- Whether a character is a blank. -/
def isBlank (c : Char) : Bool :=
  inRanges blankRanges c.toNat

/-- The ranges of the blanks ascend. -/
theorem ascending_blankRanges : Ascending 0 blankRanges := by
  decide +kernel

/-- A character is a blank exactly if its code point lies in one of the ranges. -/
theorem isBlank_iff (c : Char) :
    isBlank c = true ↔ ∃ r ∈ blankRanges, r.1 ≤ c.toNat ∧ c.toNat ≤ r.2 :=
  inRanges_iff ascending_blankRanges c.toNat

/-- Drops the last characters that satisfy `p`. -/
def dropEndWhile (p : Char → Bool) (cs : List Char) : List Char :=
  (cs.reverse.dropWhile p).reverse

/-- Drops the characters that satisfy `p` from both ends. -/
def trimBoth (p : Char → Bool) (cs : List Char) : List Char :=
  dropEndWhile p (cs.dropWhile p)

/-- A text without the blanks at its ends. -/
def strip (s : String) : String :=
  String.ofList (trimBoth isBlank s.toList)

end LoxTree.Text
