import LoxTree.Proofs.Number.Shortest
import LoxTree.Proofs.Number.Texts
import LoxTree.Value
import Mathlib.Computability.RegularExpressions

/-!
# Numbers as programs print them

A program prints a finite double as a numeral without a power of ten: the shortest decimal of the
double has no zero at the end of its coefficient, so that a point is followed by digits of which the
last is none either, and no zero comes first but the one before a point. The numeral denotes the
same decimal as the one by which the double is shown inside other data, where it may have a power of
ten.

* `printedForm`: the form of printed numbers, as a regular expression.
* `exists_printed`: what is printed is a numeral by its parts (`Written`).
* `printed_rmatch`: it is of that form.
* `denoted?_write`: it denotes the shortest decimal, as the text in every other layout does.
* `readNumeral?_write`: each of these texts is read as the double.
-/

namespace LoxTree.Number

/-! ### The form of printed numbers -/

/-- The digits but zero. -/
def positiveDigits : List Char :=
  ['1', '2', '3', '4', '5', '6', '7', '8', '9']

open RegularExpression in
/-- One of the given characters. -/
def oneOf (cs : List Char) : RegularExpression Char :=
  (cs.map char).sum

open RegularExpression in
/-- The form `-?(0|[1-9][0-9]*)(.[0-9]*[1-9])?`. -/
def printedForm : RegularExpression Char :=
  (1 + char '-') * (char '0' + oneOf positiveDigits * star (oneOf plainDigits)) *
    (1 + char '.' * star (oneOf plainDigits) * oneOf positiveDigits)

theorem mem_oneOf {cs : List Char} {c : Char} (h : c ∈ cs) : [c] ∈ (oneOf cs).matches' := by
  induction cs with
  | nil => cases h
  | cons d rest ih =>
    show [c] ∈ (RegularExpression.char d).matches' + (oneOf rest).matches'
    rw [Language.mem_add]
    rcases List.mem_cons.1 h with rfl | h
    · exact .inl rfl
    · exact .inr (ih h)

theorem mem_star_oneOf {cs digits : List Char} (h : ∀ c ∈ digits, c ∈ cs) :
    digits ∈ (oneOf cs).star.matches' := by
  rw [RegularExpression.matches'_star, Language.mem_kstar]
  have hjoin : (digits.map fun c => [c]).flatten = digits := by
    rw [← List.flatMap_def, List.flatMap_singleton']
  refine ⟨digits.map fun c => [c], hjoin.symm, ?_⟩
  intro y hy
  obtain ⟨c, hc, rfl⟩ := List.mem_map.1 hy
  exact mem_oneOf (h c hc)

theorem mem_positiveDigits {c : Char} (h : isDigit c = true) (hne : c ≠ '0') :
    c ∈ positiveDigits := by
  have hmem : c ∈ '0' :: positiveDigits := mem_plainDigits h
  exact (List.mem_cons.1 hmem).resolve_left hne

/-- Digits of which the first is not zero, or zero alone. -/
theorem mem_matches_whole {whole : List Char} (hne : whole ≠ [])
    (hall : ∀ c ∈ whole, isDigit c = true)
    (hleading : whole = ['0'] ∨ ∀ c ∈ whole.head?, c ≠ '0') :
    whole ∈ (RegularExpression.char '0' +
      oneOf positiveDigits * (oneOf plainDigits).star).matches' := by
  rw [RegularExpression.matches'_add, Language.mem_add]
  rcases hleading with rfl | hleading
  · exact .inl rfl
  · right
    obtain ⟨c, rest, rfl⟩ := List.exists_cons_of_ne_nil hne
    have hfirst : [c] ∈ (oneOf positiveDigits).matches' :=
      mem_oneOf (mem_positiveDigits (hall c List.mem_cons_self) (hleading c rfl))
    have hrest : rest ∈ (oneOf plainDigits).star.matches' :=
      mem_star_oneOf fun d hd => mem_plainDigits (hall d (List.mem_cons_of_mem c hd))
    rw [RegularExpression.matches'_mul, Language.mem_mul]
    exact ⟨[c], hfirst, rest, hrest, rfl⟩

/-- Nothing, or a point and digits of which the last is not zero. -/
theorem mem_matches_fraction {w : Written} (hall : ∀ c ∈ w.part, isDigit c = true)
    (hlast : ∀ c ∈ w.part.getLast?, c ≠ '0') :
    w.fractionText ∈ (1 + RegularExpression.char '.' * (oneOf plainDigits).star *
      oneOf positiveDigits).matches' := by
  unfold Written.fractionText
  rw [RegularExpression.matches'_add, Language.mem_add]
  rcases List.eq_nil_or_concat w.part with hnil | ⟨digits, c, hpart⟩
  · left
    rw [if_pos hnil]
    rfl
  · right
    rw [List.concat_eq_append] at hpart
    rw [hpart] at hall hlast
    have hdigits : digits ∈ (oneOf plainDigits).star.matches' :=
      mem_star_oneOf fun d hd => mem_plainDigits (hall d (List.mem_append_left _ hd))
    have hdigit : isDigit c = true := hall c (List.mem_append_right _ List.mem_cons_self)
    have hc : [c] ∈ (oneOf positiveDigits).matches' :=
      mem_oneOf (mem_positiveDigits hdigit (hlast c (by simp)))
    rw [if_neg (by simp [hpart]), RegularExpression.matches'_mul, RegularExpression.matches'_mul,
      Language.mem_mul]
    refine ⟨'.' :: digits, ?_, [c], hc, by simp [hpart]⟩
    rw [Language.mem_mul]
    exact ⟨['.'], rfl, digits, hdigits, rfl⟩

/-! ### What is printed -/

/-- A decimal without zeros at its end ends with another digit or is zero. -/
theorem normalize_last (coefficient : Nat) (exponent : Int) :
    (Decimal.normalize coefficient exponent).coefficient % 10 ≠ 0 ∨
      (Decimal.normalize coefficient exponent).exponent = 0 := by
  fun_induction Decimal.normalize coefficient exponent with
  | case1 => exact .inr rfl
  | case2 _ _ _ _ ih => exact ih
  | case3 _ _ _ hlast => exact .inl hlast

/-- What is printed for a finite double is a numeral for its shortest decimal that has no power of
ten and no zero at the end behind a point. -/
theorem exists_printed {x : Float} (hx : magnitude x < infinityBits) :
    ∃ w : Written, (shortest (magnitude x)).IsWritten w.text w ∧ w.power = none ∧
      (∀ c ∈ w.part.getLast?, c ≠ '0') ∧
      Value.printedNumber.write x =
        String.ofList ((if isNegative x then ['-'] else []) ++ w.text) := by
  have hdigit : ∀ n < 10, n ≠ 0 → n.digitChar ≠ '0' := by decide
  have hnormal : (shortest (magnitude x)).coefficient = 0 →
      (shortest (magnitude x)).exponent = 0 := normalize_eq_zero
  have hend : (shortest (magnitude x)).coefficient % 10 ≠ 0 ∨
      (shortest (magnitude x)).exponent = 0 := normalize_last _ _
  have hmark : Value.printedNumber.wholeMark.toList =
      if 0 = 0 then [] else '.' :: List.replicate 0 '0' := rfl
  obtain ⟨w, hw, hpower, -, hlast⟩ := Decimal.exists_isWritten_positional hnormal hmark
  refine ⟨w, hw.self, hpower, ?_, ?_⟩
  · intro c hc
    obtain ⟨hneg, rfl⟩ := hlast rfl c hc
    have hne : (shortest (magnitude x)).coefficient % 10 ≠ 0 := hend.resolve_right (by omega)
    exact hdigit _ (Nat.mod_lt _ (by decide)) hne
  · rw [Layout.write_of_finite _ hx, hw.text]
    rfl

/-- Printed numbers are of the form for them. -/
theorem printed_rmatch {x : Float} (hx : magnitude x < infinityBits) :
    printedForm.rmatch (Value.printedNumber.write x).toList = true := by
  obtain ⟨w, hw, hpower, hlast, hwrite⟩ := exists_printed hx
  have hsign : (if isNegative x then ['-'] else []) ∈
      (1 + RegularExpression.char '-').matches' := by
    rw [RegularExpression.matches'_add, Language.mem_add]
    cases isNegative x with
    | true => exact .inr rfl
    | false => exact .inl rfl
  have hwhole := mem_matches_whole hw.proper.whole_ne hw.proper.whole hw.leading
  have hfraction := mem_matches_fraction hw.proper.part hlast
  have htext : w.text = w.whole ++ w.fractionText := by
    rw [Written.text, Written.powerText, hpower, List.append_nil]
  rw [RegularExpression.rmatch_iff_matches', hwrite, String.toList_ofList, htext,
    ← List.append_assoc, printedForm, RegularExpression.matches'_mul,
    RegularExpression.matches'_mul, Language.mem_mul]
  refine ⟨_, ?_, _, hfraction, rfl⟩
  rw [Language.mem_mul]
  exact ⟨_, hsign, _, hwhole, rfl⟩

/-! ### What texts of numbers denote -/

theorem Decimal.value_padded (d : Decimal) (zeros : Nat) : (d.padded zeros).value = d.value := by
  have hten : (10 : ℚ) ≠ 0 := by decide
  have hpow : ((tenTo zeros : Nat) : ℚ) = (10 : ℚ) ^ (zeros : Int) := by
    rw [zpow_natCast, tenTo]
    exact Nat.cast_pow 10 zeros
  unfold value padded
  rw [Nat.cast_mul, hpow, mul_assoc, ← zpow_add₀ hten]
  have hexponent : (zeros : Int) + (d.exponent - zeros) = d.exponent := by omega
  rw [hexponent]

/-- The sign and the value that a numeral denotes, `none` if the text is no decimal. -/
def denoted? (text : String) : Option (Bool × ℚ) :=
  let (negative, digits) := splitSign text.toList
  (readDecimal? digits).map fun d => (negative, d.value)

/-- What a layout writes for a finite double denotes the double's shortest decimal and keeps its
sign, also that of zero. -/
theorem denoted?_write (layout : Layout) (places : Nat)
    (hmark : layout.wholeMark.toList =
      if places = 0 then [] else '.' :: List.replicate places '0')
    (hzero : layout.positional 0 = true) {x : Float} (hx : magnitude x < infinityBits) :
    denoted? (layout.write x) = some (isNegative x, (shortest (magnitude x)).value) := by
  obtain ⟨w, hw, hwrite, -⟩ := layout.exists_isWritten hmark hzero hx
  obtain ⟨zeros, hdecimal⟩ := hw.padded
  unfold denoted?
  rw [hwrite, String.toList_ofList, hw.proper.splitSign_text]
  dsimp only
  rw [hw.proper.readDecimal?_text, Option.map_some, hdecimal, Decimal.value_padded]

/-- What a layout writes for a finite double is read as that double. -/
theorem readNumeral?_write (layout : Layout) (places : Nat)
    (hmark : layout.wholeMark.toList =
      if places = 0 then [] else '.' :: List.replicate places '0')
    (hzero : layout.positional 0 = true) {x : Float} (hx : magnitude x < infinityBits) :
    readNumeral? (layout.write x) = some x := by
  obtain ⟨w, hw, hwrite, -⟩ := layout.exists_isWritten hmark hzero hx
  rw [hwrite, hw.proper.readNumeral?_text, hw.round, round_shortest hx, ofMagnitude_magnitude]

end LoxTree.Number
