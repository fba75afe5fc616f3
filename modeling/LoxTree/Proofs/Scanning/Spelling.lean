import LoxTree.Proofs.Scanning.Partition

/-!
# Texts written between quotes

Every text is the contents of some string. `spelled` writes it between quotes: a backslash goes
before each backslash and each quote, and a line feed, tab or carriage return is written by its
letter or stands as it is, which may be chosen anew at each occurrence. However it is chosen, the
string ends at the quote behind the text, its contents are the text, and scanning goes on behind it
as at the start of a source text.

* `Segment.spellChar_cases`: what is written for a character is an escape that stands for it, or the
  character itself where that needs none.
* `Segment.isUnquoted_spell` and `Segment.decodeString_spell`: no quote in between ends the string,
  and its contents are the text.
* `Scan.ofSegments_add`: segments further down give the same tokens and complaints further down.
* `ofSource_spelled`: the scan of a string with any text behind it.
-/

namespace LoxTree

namespace Segment

/-! ### Characters -/

/-- The letters by which blanks may be written behind a backslash. -/
def blankLetters : List (Char × Char) :=
  [('\n', 'n'), ('\t', 't'), ('\r', 'r')]

/-- A character between quotes; `byLetter` decides about those that have a letter. -/
def spellChar (byLetter : Bool) (c : Char) : List Char :=
  if c = '\\' ∨ c = '"' then ['\\', c]
  else
    match blankLetters.lookup c with
    | some letter => if byLetter then ['\\', letter] else [c]
    | none => [c]

/-- A text between quotes; `byLetter i` decides about its character number `i`. -/
def spell (byLetter : Nat → Bool) : List Char → List Char
  | [] => []
  | c :: rest => spellChar (byLetter 0) c ++ spell (fun i => byLetter (i + 1)) rest

/-- The letter of a blank behind a backslash stands for the blank. -/
theorem unescape_of_lookup {c letter : Char} (h : blankLetters.lookup c = some letter) :
    unescape letter = [c] := by
  have hall : ∀ p ∈ blankLetters, unescape p.2 = [p.1] := by decide
  obtain ⟨before, after, hletters, -⟩ := List.lookup_eq_some_iff.1 h
  exact hall (c, letter) (by simp [hletters])

/-- A character is written by an escape that stands for it, or as it is where it needs none. -/
theorem spellChar_cases (byLetter : Bool) (c : Char) :
    (∃ letter, spellChar byLetter c = ['\\', letter] ∧ unescape letter = [c]) ∨
      (spellChar byLetter c = [c] ∧ c ≠ '"' ∧ c ≠ '\\') := by
  by_cases hmark : c = '\\' ∨ c = '"'
  · have hself : unescape c = [c] := by
      rcases hmark with rfl | rfl <;> rfl
    exact .inl ⟨c, if_pos hmark, hself⟩
  · unfold spellChar
    rw [if_neg hmark]
    rw [not_or] at hmark
    cases hletter : blankLetters.lookup c with
    | none => exact .inr ⟨rfl, hmark.2, hmark.1⟩
    | some letter =>
      cases byLetter with
      | true => exact .inl ⟨letter, rfl, unescape_of_lookup hletter⟩
      | false => exact .inr ⟨rfl, hmark.2, hmark.1⟩

theorem isUnquoted_spellChar_append (byLetter : Bool) (c : Char) {rest : List Char}
    (h : IsUnquoted rest) : IsUnquoted (spellChar byLetter c ++ rest) := by
  rcases spellChar_cases byLetter c with ⟨letter, hspell, -⟩ | ⟨hspell, hquote, hescape⟩
  · rw [hspell]
    exact .escape letter h
  · rw [hspell]
    exact .plain hquote hescape h

theorem decodeString_spellChar_append (byLetter : Bool) (c : Char) (rest : List Char) :
    decodeString (spellChar byLetter c ++ rest) = c :: decodeString rest := by
  rcases spellChar_cases byLetter c with ⟨letter, hspell, hletter⟩ | ⟨hspell, -, hescape⟩
  · rw [hspell]
    show unescape letter ++ decodeString rest = c :: decodeString rest
    rw [hletter, List.singleton_append]
  · have hnot : ∀ d more, c = '\\' → rest = d :: more → False := fun _ _ hc _ => hescape hc
    rw [hspell, List.singleton_append, decodeString.eq_3 _ _ hnot]

/-! ### Texts -/

/-- Every quote in a text that is written between quotes is escaped. -/
theorem isUnquoted_spell (byLetter : Nat → Bool) (cs : List Char) :
    IsUnquoted (spell byLetter cs) := by
  induction cs generalizing byLetter with
  | nil => exact .nil
  | cons c rest ih => exact isUnquoted_spellChar_append _ _ (ih _)

/-- The contents of a string are the text that was written between the quotes. -/
theorem decodeString_spell (byLetter : Nat → Bool) (cs : List Char) :
    decodeString (spell byLetter cs) = cs := by
  induction cs generalizing byLetter with
  | nil => rfl
  | cons c rest ih => rw [spell, decodeString_spellChar_append, ih]

end Segment

/-- A text as it may be written between quotes. -/
def spelled (byLetter : Nat → Bool) (value : String) : String :=
  String.ofList (Segment.spell byLetter value.toList)

theorem segments_spelled (byLetter : Nat → Bool) (value text : List Char) :
    segments ('"' :: Segment.spell byLetter value ++ '"' :: text) =
      .token .string ('"' :: Segment.spell byLetter value ++ ['"']) (some value) ::
        segments text := by
  have hfits : (Segment.token .string ('"' :: Segment.spell byLetter value ++ ['"'])
      (some (Segment.decodeString (Segment.spell byLetter value)))).Fits text :=
    .string (Segment.isUnquoted_spell byLetter value)
  have hrest : Partition text (segments text) := partition_iff.2 rfl
  have hsegments := partition_iff.1 (.cons hfits hrest)
  rw [Segment.decodeString_spell] at hsegments
  simpa [Segment.text] using hsegments

/-! ### Scanning behind a string -/

/-- A scan of the same text further down. -/
def Scan.lower (k : Nat) (scan : Scan) : Scan :=
  ⟨scan.tokens.map (Token.mapLine (· + (k : Int))),
    scan.errors.map (Diagnostic.mapLine (· + (k : Int))), scan.line + k⟩

/-- Segments further down give the same tokens and complaints further down. -/
theorem Scan.ofSegments_add (line k : Nat) (segs : List Segment) :
    Scan.ofSegments (line + k) segs = (Scan.ofSegments line segs).lower k := by
  have hend : line + k + totalNewlines segs = k + (line + totalNewlines segs) := by omega
  rw [Scan.ofSegments_eq, Scan.ofSegments_eq, Scan.lower, tokensOf_add, complaintsOf_add,
    List.map_append, hend, eof_add, Nat.add_comm k]
  rfl

/-- A text that is written between quotes is scanned as one string, whose lexeme is what was written
and whose contents are the text. Behind it the text that follows is scanned as it is at the start,
further down by the line feeds between the quotes. -/
theorem ofSource_spelled (byLetter : Nat → Bool) (value text : String) :
    Scan.ofSource ("\"" ++ spelled byLetter value ++ "\"" ++ text) =
      let after := (Scan.ofSource text).lower ((spelled byLetter value).toList.count '\n')
      { after with
        tokens := ⟨.string, "\"" ++ spelled byLetter value ++ "\"", some value, 1⟩ ::
          after.tokens } := by
  have hquote : "\"".toList = ['"'] := rfl
  have hlexeme : ("\"" ++ spelled byLetter value ++ "\"").toList =
      '"' :: Segment.spell byLetter value.toList ++ ['"'] := by
    simp [spelled, String.toList_append, hquote]
  have hlines : (Segment.token .string ('"' :: Segment.spell byLetter value.toList ++ ['"'])
      (some value.toList)).newlines = (spelled byLetter value).toList.count '\n' := by
    simp [Segment.newlines, Segment.stringNewlines_eq_count, spelled]
  have hsource : ("\"" ++ spelled byLetter value ++ "\"" ++ text).toList =
      '"' :: Segment.spell byLetter value.toList ++ '"' :: text.toList := by
    rw [String.toList_append, hlexeme]
    simp
  unfold Scan.ofSource
  rw [hsource, segments_spelled, Scan.ofSegments, hlines, Scan.ofSegments_add, ← hlexeme,
    String.ofList_toList]
  dsimp only
  rw [Option.map_some, String.ofList_toList]
  rfl

end LoxTree
