import LoxTree.Program
import LoxTree.Proofs.Parsing.Statements
import LoxTree.Proofs.Scanning.Numeral
import Mathlib.Algebra.Ring.Nat

/-!
# What the scanner makes of segments

Scanning is a walk over the segments that counts lines. `placed` gives each segment its line, and
then every segment is a token, a complaint or neither by itself (`Scan.ofSegments_eq`), so that
facts about tokens come from facts about single segments.

* `Segment.lexical_next`: a segment that is a token is no end marker, a number is a plain numeral,
  and a string has contents.
* `newlines_of_mem_segments`: the lines that end in a segment are as many as the line feeds in it.
* `Scan.ofSource_tokens`: the tokens of a source text are such tokens and one end marker.
-/

namespace LoxTree

/-! ### Segments with their lines -/

theorem segments_eq_cons {c : Char} {rest after : List Char} {s : Segment} {segs : List Segment}
    (h : Segment.next c rest = (s, after)) (h' : segments after = segs) :
    segments (c :: rest) = s :: segs := by
  rw [segments, h, h']

/-- The token that a segment on the given line is. -/
def Segment.token? (line : Nat) : Segment → Option Token
  | .token kind lexeme literal =>
    some ⟨kind, String.ofList lexeme, literal.map String.ofList, line⟩
  | _ => none

/-- The complaint about a segment on the given line. -/
def Segment.complaint? (line : Nat) : Segment → Option Diagnostic
  | .stray c => some (.lexical (.unexpectedCharacter c) line)
  | .openString _ => some (.lexical .unterminatedString line)
  | _ => none

/-- The segments with their lines, the first on the given line. -/
def placed (line : Nat) : List Segment → List (Nat × Segment)
  | [] => []
  | s :: rest => (line, s) :: placed (line + s.newlines) rest

/-- The number of lines that end in segments. -/
def totalNewlines (segs : List Segment) : Nat :=
  (segs.map Segment.newlines).sum

theorem placed_append (line : Nat) (segs others : List Segment) :
    placed line (segs ++ others) =
      placed line segs ++ placed (line + totalNewlines segs) others := by
  induction segs generalizing line with
  | nil => rfl
  | cons s rest ih =>
    rw [List.cons_append, placed, placed, ih, List.cons_append, totalNewlines, totalNewlines,
      List.map_cons, List.sum_cons, Nat.add_assoc]

theorem placed_add (line k : Nat) (segs : List Segment) :
    placed (line + k) segs = (placed line segs).map fun p => (p.1 + k, p.2) := by
  induction segs generalizing line with
  | nil => rfl
  | cons s rest ih =>
    rw [placed, placed, List.map_cons, ← ih, Nat.add_right_comm]

theorem mem_of_mem_placed {line : Nat} {segs : List Segment} {p : Nat × Segment}
    (h : p ∈ placed line segs) : p.2 ∈ segs := by
  induction segs generalizing line with
  | nil => cases h
  | cons s rest ih =>
    rcases List.mem_cons.1 h with rfl | h
    · exact List.mem_cons_self
    · exact List.mem_cons_of_mem s (ih h)

theorem exists_mem_placed {segs : List Segment} {s : Segment} (h : s ∈ segs) (line : Nat) :
    ∃ l, (l, s) ∈ placed line segs := by
  induction segs generalizing line with
  | nil => cases h
  | cons other rest ih =>
    rcases List.mem_cons.1 h with rfl | h
    · exact ⟨line, List.mem_cons_self⟩
    · obtain ⟨l, hl⟩ := ih h (line + other.newlines)
      exact ⟨l, List.mem_cons_of_mem _ hl⟩

/-- The tokens of segments, without the end marker. -/
def tokensOf (line : Nat) (segs : List Segment) : List Token :=
  (placed line segs).filterMap fun p => p.2.token? p.1

/-- The complaints about segments. -/
def complaintsOf (line : Nat) (segs : List Segment) : List Diagnostic :=
  (placed line segs).filterMap fun p => p.2.complaint? p.1

/-- Every segment is a token, a complaint or neither by itself. -/
theorem Scan.ofSegments_eq (line : Nat) (segs : List Segment) :
    Scan.ofSegments line segs =
      ⟨tokensOf line segs ++ [Token.eof ((line + totalNewlines segs : Nat) : Int)],
        complaintsOf line segs, line + totalNewlines segs⟩ := by
  induction segs generalizing line with
  | nil => rfl
  | cons s rest ih =>
    have htotal : line + totalNewlines (s :: rest) = line + s.newlines + totalNewlines rest := by
      rw [totalNewlines, List.map_cons, List.sum_cons, ← Nat.add_assoc]
      rfl
    rw [htotal]
    unfold ofSegments
    rw [ih]
    -- the walk puts what this segment is before what the rest is
    cases s <;> rfl

/-! ### Tokens -/

/-- What is known of a token of the scanner. -/
structure Token.Scanned (t : Token) : Prop where
  notEnding : t.kind ≠ .eof
  number : t.kind = .number → ∃ x, Parse.numberValue t = .ok (.number x)
  string : t.kind = .string → ∃ text, t.literal = some text

/-- What is known of a segment that is a token. -/
structure Segment.Lexical (kind : Kind) (literal : Option (List Char)) : Prop where
  notEnding : kind ≠ .eof
  number : kind = .number → ∃ digits, literal = some digits ∧ Number.IsPlain digits
  string : kind = .string → ∃ text, literal = some text

namespace Segment

/-- Operators and words are no end markers and carry no literal. -/
theorem Lexical.of_notMem {kind : Kind} {literal : Option (List Char)}
    (h : kind ∉ [Kind.eof, .number, .string]) : Lexical kind literal := by
  simp only [List.mem_cons, List.not_mem_nil, or_false, not_or] at h
  exact ⟨h.1, fun hk => absurd hk h.2.1, fun hk => absurd hk h.2.2⟩

theorem ofWord_notMem (word : String) : Kind.ofWord word ∉ [Kind.eof, .number, .string] := by
  have hall : ∀ kind ∈ Kind.keywords, kind ∉ [Kind.eof, .number, .string] := by decide
  unfold Kind.ofWord
  cases h : Kind.keywords.find? fun kind => kind.spelling == word with
  | none => decide
  | some kind => exact hall kind (List.mem_of_find?_eq_some h)

theorem splitOperator?_mem {cs rest : List Char} {kind : Kind}
    (h : splitOperator? cs = some (kind, rest)) : kind ∈ Kind.operators := by
  obtain ⟨k, hmem, hk⟩ := List.exists_of_findSome?_eq_some h
  obtain ⟨r, -, heq⟩ := Option.map_eq_some_iff.1 hk
  cases heq
  exact hmem

theorem lexical_nextOperator {kind k : Kind} {rest lexeme : List Char}
    {literal : Option (List Char)} (hmem : kind ∈ Kind.operators)
    (h : (nextOperator kind rest).1 = token k lexeme literal) : Lexical k literal := by
  have hall : ∀ kind ∈ Kind.operators, kind ∉ [Kind.eof, .number, .string] := by decide
  unfold nextOperator at h
  -- blanks, line feeds and comments are no tokens
  split at h
  · cases h
  · cases h
  · cases h
  · cases h
  · unfold nextString at h
    split at h
    · cases h
      exact ⟨by decide, nofun, fun _ => ⟨_, rfl⟩⟩
    · cases h
  · cases h
  · cases h
    exact .of_notMem (hall kind hmem)

/-- What is known of the segment at the front of a text, if it is a token. -/
theorem lexical_next {c : Char} {rest lexeme : List Char} {kind : Kind}
    {literal : Option (List Char)} (h : (next c rest).1 = token kind lexeme literal) :
    Lexical kind literal := by
  unfold next at h
  -- a word, a number, or what an operator starts; a stray character is no token
  split at h
  · cases h
    exact .of_notMem (ofWord_notMem _)
  · split at h
    · next hc =>
      cases h
      exact ⟨by decide, fun _ => ⟨_, rfl, Number.isPlain_splitNumber hc rest⟩, nofun⟩
    · split at h
      · next heq => exact lexical_nextOperator (splitOperator?_mem heq) h
      · cases h

end Segment

theorem lexical_of_mem_segments {cs lexeme : List Char} {kind : Kind} {literal : Option (List Char)}
    (h : Segment.token kind lexeme literal ∈ segments cs) : Segment.Lexical kind literal := by
  fun_induction segments cs with
  | case1 => cases h
  | case2 c rest ih =>
    rcases List.mem_cons.1 h with heq | h
    · exact Segment.lexical_next heq.symm
    · exact ih h

/-! ### Line feeds -/

namespace Segment

theorem stringNewlines_eq_count (cs : List Char) : stringNewlines cs = cs.count '\n' := by
  fun_induction stringNewlines cs with
  | case1 => rfl
  | case2 c rest ih => simp [List.count_cons, ih, Nat.add_comm]
  | case3 c rest _ ih => simp [List.count_cons, ih, Nat.add_comm]

/-- No line ends in a token that is not a string, if no line feed stands in it. -/
theorem newlines_token {kind : Kind} {lexeme : List Char} (hkind : kind ≠ .string)
    (hnone : '\n' ∉ lexeme) (literal : Option (List Char)) :
    (token kind lexeme literal).newlines = lexeme.count '\n' := by
  rw [List.count_eq_zero.2 hnone]
  cases kind with
  | string => exact absurd rfl hkind
  | _ => rfl

theorem newlines_nextString (rest : List Char) :
    (nextString rest).1.newlines = (nextString rest).1.text.count '\n' := by
  unfold nextString
  split <;> simp [newlines, text, stringNewlines_eq_count]

theorem newlines_nextOperator {kind : Kind} (hmem : kind ∈ Kind.operators) (rest : List Char) :
    (nextOperator kind rest).1.newlines = (nextOperator kind rest).1.text.count '\n' := by
  have hall : ∀ kind ∈ Kind.operators, kind ≠ .newline →
      (token kind kind.spelling.toList none).newlines = kind.spelling.toList.count '\n' := by
    decide
  unfold nextOperator
  split
  · rfl
  · rfl
  · rfl
  · rfl
  · exact newlines_nextString rest
  · next after =>
    have hnone : '\n' ∉ '/' :: '/' :: after.takeWhile (· ≠ '\n') := by
      simp only [List.mem_cons, Char.reduceEq, false_or]
      intro hmem
      simpa using List.all_eq_true.1 List.all_takeWhile _ hmem
    exact (List.count_eq_zero.2 hnone).symm
  · next hnewline _ _ => exact hall kind hmem hnewline

theorem newlines_next (c : Char) (rest : List Char) :
    (next c rest).1.newlines = (next c rest).1.text.count '\n' := by
  unfold next
  split
  · next hc =>
    have hword : ¬ isWordPart '\n' = true := by decide
    refine newlines_token (fun hkind => ?_) (fun hmem => ?_) none
    · have hstring := ofWord_notMem (String.ofList (c :: rest.takeWhile isWordPart))
      rw [hkind] at hstring
      exact hstring (by decide)
    · rcases List.mem_cons.1 hmem with rfl | hmem
      · exact absurd hc (by decide)
      · exact hword (List.all_eq_true.1 List.all_takeWhile _ hmem)
  · split
    · next hc =>
      have hplain := Number.isPlain_splitNumber hc rest
      exact newlines_token (by decide) hplain.newline_notMem _
    · split
      · next heq => exact newlines_nextOperator (splitOperator?_mem heq) _
      · next heq =>
        have hne : c ≠ '\n' := by
          rintro rfl
          cases heq
        simp [newlines, text, hne]

end Segment

/-- The lines that end in a segment of a text are as many as the line feeds in it: scanning counts
the line feeds between tokens and those in strings, and there are no others. -/
theorem newlines_of_mem_segments {cs : List Char} {s : Segment} (h : s ∈ segments cs) :
    s.newlines = s.text.count '\n' := by
  fun_induction segments cs with
  | case1 => cases h
  | case2 c rest ih =>
    rcases List.mem_cons.1 h with rfl | h
    · exact Segment.newlines_next c rest
    · exact ih h

/-- The tokens of a text are as the scanner makes them. -/
theorem scanned_of_mem_tokensOf {line : Nat} {cs : List Char} {t : Token}
    (h : t ∈ tokensOf line (segments cs)) : t.Scanned := by
  obtain ⟨⟨l, s⟩, hmem, ht⟩ := List.mem_filterMap.1 h
  have hseg : s ∈ segments cs := mem_of_mem_placed hmem
  cases s with
  | token kind lexeme literal =>
    cases ht
    obtain ⟨h₁, h₂, h₃⟩ := lexical_of_mem_segments hseg
    refine ⟨h₁, fun hk => ?_, fun hk => ?_⟩
    · obtain ⟨digits, rfl, hplain⟩ := h₂ hk
      obtain ⟨x, hx⟩ := Number.readNumeral?_of_isPlain hplain
      refine ⟨x, ?_⟩
      show Value.ofNumeral (String.ofList digits) = _
      rw [Value.ofNumeral, hx]
    · obtain ⟨text, rfl⟩ := h₃ hk
      exact ⟨_, rfl⟩
  | _ => cases ht

/-- The tokens of a source text, without the end marker. -/
def sourceTokens (text : String) : List Token :=
  tokensOf 1 (segments text.toList)

/-- The end marker of a source text. -/
def sourceEnd (text : String) : Token :=
  Token.eof ((1 + totalNewlines (segments text.toList) : Nat) : Int)

/-- The tokens of a source text are tokens of the scanner and one end marker. -/
theorem Scan.ofSource_tokens (text : String) :
    (Scan.ofSource text).tokens = sourceTokens text ++ [sourceEnd text] := by
  unfold Scan.ofSource
  rw [Scan.ofSegments_eq]
  rfl

theorem scanned_sourceTokens (text : String) : ∀ t ∈ sourceTokens text, t.Scanned :=
  fun _ ht => scanned_of_mem_tokensOf ht

theorem scannerShaped_sourceTokens (text : String) : ScannerShaped (sourceTokens text) := by
  refine ⟨fun t ht => (scanned_sourceTokens text t ht).notEnding, fun t ht hk => ?_⟩
  obtain ⟨x, hx⟩ := (scanned_sourceTokens text t ht).number hk
  exact ⟨_, hx⟩

end LoxTree
