import LoxTree.Proofs.Scanning.Partition
import Mathlib.Logic.Function.Basic

/-!
# Tokens with single spaces between them

The blanks, line feeds and comments of a text do nothing but keep its tokens apart, and a single
space does that too: every token is a longest match before a space, whatever stood behind it before.
`respaced` is the text with its tokens' lexemes and single spaces only.

* `Segment.Fits.before_space`: a token fits before a space or at the end of a text.
* `segments_respaced`: the segments of such a text are the tokens with blanks between them.
* `Scan.ofSource_respaced`: it has the same tokens, on other lines.
-/

namespace LoxTree

/-- The lexemes of a text's tokens without the end marker, with single spaces between them. -/
def respaced (text : String) : String :=
  " ".intercalate ((Scan.ofSource text).tokens.dropLast.map Token.lexeme)

/-! ### A space keeps tokens apart -/

theorem Longest.word_before_space {lexeme after rest : List Char}
    (h : Longest Segment.IsWord lexeme after) (hrest : ∀ c ∈ rest.head?, c = ' ') :
    Longest Segment.IsWord lexeme rest := by
  refine .of_stop (p := isWordPart) h.holds ?_ ?_
  · intro more hword d hd
    cases lexeme with
    | nil => exact h.holds.elim
    | cons c run => exact hword.2 d (List.mem_append_right _ hd)
  · intro c hc
    rw [hrest c hc]
    decide

theorem Longest.number_before_space {digits after rest : List Char}
    (h : Longest Segment.IsNumber digits after) (hrest : ∀ c ∈ rest.head?, c = ' ') :
    Longest Segment.IsNumber digits rest := by
  have hstop : ∀ c ∈ rest.head?, Number.isDigit c = false := by
    intro c hc
    rw [hrest c hc]
    decide
  cases h.holds with
  | whole hne hall =>
    refine Segment.longest_number_of_noPoint hne hall hstop ?_
    rintro d more rfl
    simpa using hrest '.' rfl
  | point hne hall hpart hparts =>
    exact Segment.longest_number_of_point hne hall hpart hparts hstop

theorem Longest.operator_before_space {kind : Kind} {rest : List Char}
    (hmem : kind ∈ Kind.operators) (hrest : ∀ c ∈ rest.head?, c = ' ') :
    Longest Segment.IsOperator kind.spelling.toList rest := by
  refine ⟨⟨kind, hmem, rfl⟩, ?_⟩
  rintro more rest' rfl ⟨k, hk, heq⟩
  by_contra hne
  obtain ⟨c, more, rfl⟩ := List.exists_cons_of_ne_nil hne
  have hc : c = ' ' := hrest c rfl
  -- no operator goes on with a space
  have hall : ∀ k ∈ Kind.operators, ' ' ∉ k.spelling.toList.tail := by decide
  apply hall k hk
  obtain ⟨d, spelling, hspelling⟩ := List.exists_cons_of_ne_nil (Segment.spelling_ne_nil kind)
  rw [← heq, hspelling, hc]
  simp

/-- A token that fits anywhere fits before a space and at the end of a text. -/
theorem Segment.Fits.before_space {s : Segment} {after rest : List Char} (h : s.Fits after)
    (htoken : s.kind?.isSome) (hrest : ∀ c ∈ rest.head?, c = ' ') : s.Fits rest := by
  cases h with
  | word hlongest hkind => exact .word (hlongest.word_before_space hrest) hkind
  | number hlongest => exact .number (hlongest.number_before_space hrest)
  | operator hmem hmarker =>
    refine .operator hmem hmarker (.operator_before_space hmem hrest) ?_
    intro _ hslash
    have hspace : '/' = ' ' := hrest '/' hslash
    simp at hspace
  | string hbody => exact .string hbody
  | _ => cases htoken

/-! ### Segments -/

/-- The segments of a text that are tokens. -/
def tokenSegments (segs : List Segment) : List Segment :=
  segs.filter fun s => s.kind?.isSome

/-- Tokens and the single spaces between them. -/
def spaced (toks : List Segment) : List Segment :=
  toks.intersperse (.blank ' ')

theorem partition_spaced {toks : List Segment}
    (h : ∀ s ∈ toks, s.kind?.isSome ∧ ∃ after, s.Fits after) :
    Partition ([' '].intercalate (toks.map Segment.text)) (spaced toks) := by
  induction toks with
  | nil => exact .nil
  | cons s rest ih =>
    obtain ⟨htoken, after, hfits⟩ := h s List.mem_cons_self
    have hrest := ih fun s hs => h s (List.mem_cons_of_mem _ hs)
    cases rest with
    | nil =>
      have hend : ∀ c ∈ ([] : List Char).head?, c = ' ' := by simp
      have hlast := Partition.cons (hfits.before_space htoken hend) .nil
      simpa [spaced] using hlast
    | cons t rest =>
      have hblank := Partition.cons (.blank (c := ' ') (by simp)) hrest
      have hfirst := Partition.cons (hfits.before_space htoken (by simp [Segment.text])) hblank
      simpa [spaced, Segment.text] using hfirst

theorem tokensOf_cons (line : Nat) (s : Segment) (rest : List Segment) :
    tokensOf line (s :: rest) = (s.token? line).toList ++ tokensOf (line + s.newlines) rest := by
  unfold tokensOf
  rw [placed, List.filterMap_cons]
  cases s.token? line <;> rfl

theorem map_lexeme_tokensOf (line : Nat) (segs : List Segment) :
    (tokensOf line segs).map (fun t => t.lexeme.toList) =
      (tokenSegments segs).map Segment.text := by
  induction segs generalizing line with
  | nil => rfl
  | cons s rest ih =>
    rw [tokensOf_cons, List.map_append, ih]
    cases s with
    | token kind lexeme literal =>
      show (String.ofList lexeme).toList :: _ = lexeme :: _
      rw [String.toList_ofList]
      rfl
    | _ => rfl

theorem toList_respaced (text : String) :
    (respaced text).toList =
      [' '].intercalate ((tokenSegments (segments text.toList)).map Segment.text) := by
  have hspace : " ".toList = [' '] := rfl
  rw [respaced, Scan.ofSource_tokens, List.dropLast_concat, String.toList_intercalate,
    List.map_map, hspace, ← map_lexeme_tokensOf 1]
  rfl

/-- The segments of a respaced text are the tokens of the text with blanks between them. -/
theorem segments_respaced (text : String) :
    segments (respaced text).toList = spaced (tokenSegments (segments text.toList)) := by
  rw [toList_respaced]
  refine partition_iff.1 (partition_spaced fun s hs => ?_)
  obtain ⟨hmem, htoken⟩ := List.mem_filter.1 hs
  have hpartition : Partition text.toList (segments text.toList) := partition_iff.2 rfl
  exact ⟨htoken, hpartition.fits_of_mem hmem⟩

/-! ### Tokens and lines -/

theorem totalNewlines_cons (s : Segment) (rest : List Segment) :
    totalNewlines (s :: rest) = s.newlines + totalNewlines rest := by
  simp [totalNewlines]

/-- Spaces are no tokens and end no lines. -/
theorem tokensOf_spaced (line : Nat) (toks : List Segment) :
    tokensOf line (spaced toks) = tokensOf line toks ∧
      totalNewlines (spaced toks) = totalNewlines toks := by
  have hblank : (Segment.blank ' ').newlines = 0 := by decide
  induction toks generalizing line with
  | nil => exact ⟨rfl, rfl⟩
  | cons s rest ih =>
    obtain ⟨htokens, hlines⟩ := ih (line + s.newlines)
    cases rest with
    | nil => exact ⟨rfl, rfl⟩
    | cons t rest =>
      have hspaced : spaced (s :: t :: rest) = s :: .blank ' ' :: spaced (t :: rest) := rfl
      constructor
      · rw [hspaced, tokensOf_cons, tokensOf_cons, hblank, Nat.add_zero, htokens,
          tokensOf_cons line s]
        rfl
      · rw [hspaced, totalNewlines_cons, totalNewlines_cons, hblank, Nat.zero_add, hlines,
          totalNewlines_cons s]

/-- No token stands above the line at which its text starts. -/
theorem le_line_of_mem_tokensOf {line : Nat} {segs : List Segment} {t : Token}
    (h : t ∈ tokensOf line segs) : (line : Int) ≤ t.line := by
  induction segs generalizing line with
  | nil => cases h
  | cons s rest ih =>
    rw [tokensOf_cons] at h
    rcases List.mem_append.1 h with h | h
    · cases s <;> simp [Segment.token?] at h
      simp [h]
    · have hle := ih h
      push_cast at hle
      omega

/-- The line feeds that are left of a segment when only tokens are kept. -/
def Segment.keptNewlines (s : Segment) : Nat :=
  if s.kind?.isSome then s.newlines else 0

theorem totalNewlines_tokenSegments_cons (s : Segment) (rest : List Segment) :
    totalNewlines (tokenSegments (s :: rest)) =
      s.keptNewlines + totalNewlines (tokenSegments rest) := by
  unfold tokenSegments Segment.keptNewlines
  rw [List.filter_cons]
  split
  · rw [totalNewlines_cons]
  · omega

theorem tokensOf_tokenSegments_cons (line : Nat) (s : Segment) (rest : List Segment) :
    tokensOf line (tokenSegments (s :: rest)) =
      (s.token? line).toList ++ tokensOf (line + s.keptNewlines) (tokenSegments rest) := by
  unfold tokenSegments Segment.keptNewlines
  rw [List.filter_cons]
  cases s <;> simp [Segment.kind?, Segment.token?, tokensOf_cons]

/-- Tokens without what stood between them are the same tokens on other lines: tokens on one line
stay on one line, since there is no line feed between them. -/
theorem exists_lines (line line' : Nat) (segs : List Segment) :
    ∃ g : Int → Int, g line = line' ∧
      tokensOf line' (tokenSegments segs) = (tokensOf line segs).map (Token.mapLine g) ∧
      g (line + totalNewlines segs : Nat) =
        (line' + totalNewlines (tokenSegments segs) : Nat) := by
  induction segs generalizing line line' with
  | nil => exact ⟨fun _ => line', rfl, rfl, rfl⟩
  | cons s rest ih =>
    obtain ⟨g, hstart, htokens, hend⟩ := ih (line + s.newlines) (line' + s.keptNewlines)
    -- a segment without line feeds leaves the lines as they are
    have hkept : s.newlines = 0 → s.keptNewlines = 0 := by
      intro h
      unfold Segment.keptNewlines
      split <;> simp [h]
    have hsame : ∀ l : Int, (line + s.newlines : Nat) ≤ l →
        Function.update g line line' l = g l := by
      intro l hl
      by_cases heq : l = line
      · have hzero : s.newlines = 0 := by omega
        rw [hzero, hkept hzero] at hstart
        rw [heq, Function.update_self]
        exact hstart.symm
      · exact Function.update_of_ne heq _ _
    refine ⟨Function.update g line line', Function.update_self _ _ _, ?_, ?_⟩
    · rw [tokensOf_tokenSegments_cons, tokensOf_cons, List.map_append, htokens]
      congr 1
      · cases s <;> simp [Segment.token?, Token.mapLine]
      · refine List.map_congr_left fun t ht => ?_
        rw [Token.mapLine, Token.mapLine, hsame _ (le_line_of_mem_tokensOf ht)]
    · rw [totalNewlines_cons, totalNewlines_tokenSegments_cons, ← Nat.add_assoc, ← Nat.add_assoc,
        ← hend]
      exact hsame _ (by omega)

theorem complaintsOf_eq_nil {segs : List Segment} (h : ∀ s ∈ segs, s.reason? = none) (line : Nat) :
    complaintsOf line segs = [] := by
  have hnil : (complaintsOf line segs).map Diagnostic.complaint = [] := by
    rw [map_complaintsOf]
    exact List.filterMap_eq_nil_iff.2 h
  exact List.map_eq_nil_iff.1 hnil

theorem reason?_of_mem_spaced {toks : List Segment} (h : ∀ s ∈ toks, s.kind?.isSome) :
    ∀ s ∈ spaced toks, s.reason? = none := by
  intro s hs
  have hmem : s ∈ toks ∨ s = .blank ' ' := by
    unfold spaced at hs
    induction toks with
    | nil => cases hs
    | cons t rest ih =>
      cases rest with
      | nil => exact .inl hs
      | cons u rest =>
        rw [List.intersperse_cons_cons] at hs
        rcases List.mem_cons.1 hs with rfl | hs
        · exact .inl List.mem_cons_self
        · rcases List.mem_cons.1 hs with rfl | hs
          · exact .inr rfl
          · have hrest := ih (fun s hs => h s (List.mem_cons_of_mem _ hs)) hs
            exact hrest.imp_left (List.mem_cons_of_mem _)
  rcases hmem with hmem | rfl
  · have htoken := h s hmem
    cases s <;> first | rfl | cases htoken
  · rfl

/-- A respaced text has the same tokens on other lines, and there are no complaints about it. The
lines start at one, so that zero may stay as it is. -/
theorem Scan.ofSource_respaced (text : String) :
    (Scan.ofSource (respaced text)).errors = [] ∧
    ∃ g : Int → Int, g 0 = 0 ∧ (Scan.ofSource (respaced text)).tokens =
      (Scan.ofSource text).tokens.map (Token.mapLine g) := by
  obtain ⟨g, -, htokens, hend⟩ := exists_lines 1 1 (segments text.toList)
  unfold Scan.ofSource
  rw [segments_respaced, Scan.ofSegments_eq, Scan.ofSegments_eq]
  dsimp only
  obtain ⟨hspaced, hlines⟩ := tokensOf_spaced 1 (tokenSegments (segments text.toList))
  constructor
  · refine complaintsOf_eq_nil (reason?_of_mem_spaced fun s hs => ?_) 1
    exact (List.mem_filter.1 hs).2
  · refine ⟨Function.update g 0 0, Function.update_self _ _ _, ?_⟩
    rw [hspaced, hlines, htokens, ← hend, List.map_append]
    congr 1
    · refine List.map_congr_left fun t ht => ?_
      have hpos : (1 : Int) ≤ t.line := le_line_of_mem_tokensOf ht
      rw [Token.mapLine, Token.mapLine, Function.update_of_ne (by omega)]
    · have hne : ((1 + totalNewlines (segments text.toList) : Nat) : Int) ≠ 0 := by omega
      rw [← Function.update_of_ne hne 0 g]
      rfl

end LoxTree
