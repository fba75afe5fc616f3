import LoxTree.Proofs.Relabel
import LoxTree.Proofs.Scanning.Tokens

/-!
# Texts joined at a line feed

No segment but a string or an open string goes over a line feed, so a text whose strings are all
closed keeps its segments when a line feed and another text follow it, and the other text keeps its
own.

* `Segment.next_append`: the segment at the front of a text does not depend on what follows a line
  feed behind the text, unless it is an open string.
* `segments_append`: the segments of two texts joined at a line feed.
* `Scan.ofSource_append`: their tokens and complaints; those of the second text stand further down.
* `ofSource_join_at_line_end`: the whole scan, for a first text without an unclosed string.
-/

namespace LoxTree

/-! ### The front of a text -/

section

variable {p : Char → Bool} {stop : Char}

theorem takeWhile_append_cons (hp : p stop = false) (cs after : List Char) :
    (cs ++ stop :: after).takeWhile p = cs.takeWhile p := by
  induction cs with
  | nil => rw [List.nil_append, List.takeWhile_cons_of_neg (by simp [hp]), List.takeWhile_nil]
  | cons c cs ih => rw [List.cons_append, List.takeWhile_cons, List.takeWhile_cons, ih]

theorem dropWhile_append_cons (hp : p stop = false) (cs after : List Char) :
    (cs ++ stop :: after).dropWhile p = cs.dropWhile p ++ stop :: after := by
  induction cs with
  | nil => rw [List.nil_append, List.dropWhile_cons_of_neg (by simp [hp]), List.dropWhile_nil,
      List.nil_append]
  | cons c cs ih =>
    rw [List.cons_append, List.dropWhile_cons, List.dropWhile_cons, ih]
    split <;> rfl

end

namespace Segment

variable (after : List Char)

theorem splitNumber_of_point {cs rest : List Char} {d : Char}
    (h : cs.dropWhile Number.isDigit = '.' :: d :: rest) (hd : Number.isDigit d = true) :
    splitNumber cs =
      (cs.takeWhile Number.isDigit ++ '.' :: (d :: rest).takeWhile Number.isDigit,
        (d :: rest).dropWhile Number.isDigit) := by
  unfold splitNumber
  rw [h]
  exact if_pos hd

theorem splitNumber_of_noPoint {cs : List Char}
    (h : ∀ d rest, cs.dropWhile Number.isDigit = '.' :: d :: rest → Number.isDigit d = false) :
    splitNumber cs = (cs.takeWhile Number.isDigit, cs.dropWhile Number.isDigit) := by
  unfold splitNumber
  split
  · next d rest heq =>
    have hd : ¬ Number.isDigit d = true := by simp [h d rest heq]
    rw [if_neg hd, heq]
  · rfl

theorem splitNumber_append_newline (cs : List Char) :
    splitNumber (cs ++ '\n' :: after) =
      ((splitNumber cs).1, (splitNumber cs).2 ++ '\n' :: after) := by
  have hp : Number.isDigit '\n' = false := by decide
  by_cases hpoint : ∃ d rest, cs.dropWhile Number.isDigit = '.' :: d :: rest ∧
      Number.isDigit d = true
  · obtain ⟨d, rest, hdrop, hd⟩ := hpoint
    have hdrop' : (cs ++ '\n' :: after).dropWhile Number.isDigit =
        '.' :: d :: (rest ++ '\n' :: after) := by
      rw [dropWhile_append_cons hp, hdrop]
      rfl
    rw [splitNumber_of_point hdrop hd, splitNumber_of_point hdrop' hd, takeWhile_append_cons hp,
      ← List.cons_append, takeWhile_append_cons hp, dropWhile_append_cons hp]
  · have hnot : ∀ d rest, cs.dropWhile Number.isDigit = '.' :: d :: rest →
        Number.isDigit d = false := by
      intro d rest hdrop
      exact Bool.eq_false_iff.2 fun hd => hpoint ⟨d, rest, hdrop, hd⟩
    -- a point at the very end of the text is followed by the line feed, which is no digit
    have hnot' : ∀ d rest, (cs ++ '\n' :: after).dropWhile Number.isDigit = '.' :: d :: rest →
        Number.isDigit d = false := by
      intro d rest hdrop
      rw [dropWhile_append_cons hp] at hdrop
      match hcs : cs.dropWhile Number.isDigit with
      | [] =>
        rw [hcs] at hdrop
        cases hdrop
      | [c] =>
        rw [hcs] at hdrop
        cases hdrop
        exact hp
      | c :: c' :: rest' =>
        rw [hcs] at hdrop
        cases hdrop
        exact hnot _ _ hcs
    rw [splitNumber_of_noPoint hnot, splitNumber_of_noPoint hnot', takeWhile_append_cons hp,
      dropWhile_append_cons hp]

theorem after?_append {lexeme : List Char} (h : '\n' ∉ lexeme) (cs : List Char) :
    after? lexeme (cs ++ '\n' :: after) = (after? lexeme cs).map (· ++ '\n' :: after) := by
  induction lexeme generalizing cs with
  | nil => rfl
  | cons a lexeme ih =>
    have ha : a ≠ '\n' := fun heq => h (heq ▸ List.mem_cons_self)
    have hrest := ih fun hmem => h (List.mem_cons_of_mem a hmem)
    cases cs with
    | nil =>
      -- a lexeme longer than the text would have to go on with the line feed
      show (if a = '\n' then _ else none) = _
      rw [if_neg ha]
      rfl
    | cons c cs =>
      rw [List.cons_append, after?, after?]
      split
      · exact hrest cs
      · rfl

/-- Only the line feed itself has a line feed in its text. -/
theorem after?_spelling_append (kind : Kind) (c : Char) (cs : List Char) :
    after? kind.spelling.toList (c :: cs ++ '\n' :: after) =
      (after? kind.spelling.toList (c :: cs)).map (· ++ '\n' :: after) := by
  by_cases hk : kind = .newline
  · subst hk
    have hs : Kind.newline.spelling.toList = ['\n'] := by decide
    rw [hs, List.cons_append, after?.eq_3, after?.eq_3]
    split <;> rfl
  · have hall : ∀ kind ∈ Kind.all, kind ≠ .newline → '\n' ∉ kind.spelling.toList := by decide
    exact after?_append after (hall kind (Kind.mem_all kind) hk) (c :: cs)

theorem splitOperator?_append (c : Char) (cs : List Char) :
    splitOperator? (c :: cs ++ '\n' :: after) =
      (splitOperator? (c :: cs)).map fun p => (p.1, p.2 ++ '\n' :: after) := by
  unfold splitOperator?
  induction Kind.operators with
  | nil => rfl
  | cons kind kinds ih =>
    rw [List.findSome?_cons, List.findSome?_cons, after?_spelling_append]
    cases after? kind.spelling.toList (c :: cs) with
    | some rest => rfl
    | none => exact ih

theorem closeString?_append {cs body rest : List Char} (h : closeString? cs = some (body, rest))
    (after : List Char) : closeString? (cs ++ after) = some (body, rest ++ after) := by
  fun_induction closeString? cs generalizing body with
  | case1 => cases h
  | case2 rest' =>
    cases h
    rfl
  | case3 c rest' ih =>
    obtain ⟨⟨b, r⟩, hb, heq⟩ := Option.map_eq_some_iff.1 h
    cases heq
    show (closeString? (rest' ++ after)).map _ = _
    rw [ih hb]
    rfl
  | case4 c rest' hq he ih =>
    obtain ⟨⟨b, r⟩, hb, heq⟩ := Option.map_eq_some_iff.1 h
    cases heq
    -- the text does not end here, so a backslash would have been the start of an escape
    have hne : rest' ≠ [] := by
      rintro rfl
      cases hb
    obtain ⟨d, rest'', rfl⟩ := List.exists_cons_of_ne_nil hne
    have hc : c ≠ '\\' := fun heq => he d rest'' heq rfl
    rw [List.cons_append, closeString?.eq_4 _ _ hq fun _ _ heq _ => hc heq, ih hb]
    rfl

theorem nextOperator_slash {c : Char} (hc : c ≠ '/') (rest : List Char) :
    nextOperator .slash (c :: rest) =
      (token .slash Kind.slash.spelling.toList none, c :: rest) := by
  simp [nextOperator, hc]

/-- A segment that is not a string which the end of the text cuts off. -/
def IsClosed (s : Segment) : Prop :=
  ∀ text, s ≠ openString text

theorem nextString_append {rest : List Char} (h : (nextString rest).1.IsClosed) :
    nextString (rest ++ '\n' :: after) =
      ((nextString rest).1, (nextString rest).2 ++ '\n' :: after) := by
  unfold nextString at h ⊢
  cases hs : closeString? rest with
  | none =>
    rw [hs] at h
    exact absurd rfl (h _)
  | some p =>
    rw [closeString?_append hs]

theorem nextOperator_append {kind : Kind} {rest : List Char}
    (h : (nextOperator kind rest).1.IsClosed) :
    nextOperator kind (rest ++ '\n' :: after) =
      ((nextOperator kind rest).1, (nextOperator kind rest).2 ++ '\n' :: after) := by
  have hp : (fun c : Char => decide (c ≠ '\n')) '\n' = false := by decide
  -- only a quote and a slash look at what follows them
  by_cases hq : kind = .quote
  · subst hq
    exact nextString_append after h
  · by_cases hs : kind = .slash
    · subst hs
      cases rest with
      | nil => rfl
      | cons c rest =>
        by_cases hc : c = '/'
        · subst hc
          show (comment ('/' :: '/' :: (rest ++ '\n' :: after).takeWhile _),
            (rest ++ '\n' :: after).dropWhile _) = _
          rw [takeWhile_append_cons hp, dropWhile_append_cons hp]
          rfl
        · rw [List.cons_append, nextOperator_slash hc, nextOperator_slash hc]
          rfl
    · cases kind with
      | quote => exact absurd rfl hq
      | slash => exact absurd rfl hs
      | _ => rfl

/-- The segment at the front of a text does not depend on what follows a line feed behind the text,
unless it is a string that the end of the text cuts off. -/
theorem next_append {c : Char} {rest : List Char} (h : (next c rest).1.IsClosed) :
    next c (rest ++ '\n' :: after) = ((next c rest).1, (next c rest).2 ++ '\n' :: after) := by
  have hword : isWordPart '\n' = false := by decide
  unfold next at h ⊢
  by_cases hw : isWordStart c = true
  · rw [if_pos hw, if_pos hw, takeWhile_append_cons hword, dropWhile_append_cons hword]
  · rw [if_neg hw] at h
    rw [if_neg hw, if_neg hw]
    by_cases hd : Number.isDigit c = true
    · rw [if_pos hd, if_pos hd, ← List.cons_append, splitNumber_append_newline]
    · rw [if_neg hd] at h
      rw [if_neg hd, if_neg hd, ← List.cons_append, splitOperator?_append]
      cases ho : splitOperator? (c :: rest) with
      | none => rfl
      | some p =>
        rw [ho] at h
        exact nextOperator_append after h

end Segment

/-! ### Segments, tokens and complaints -/

/-- The segments of two texts joined at a line feed. -/
theorem segments_append {cs : List Char} (h : ∀ s ∈ segments cs, s.IsClosed) (after : List Char) :
    segments (cs ++ '\n' :: after) = segments cs ++ .newline :: segments after := by
  fun_induction segments cs with
  | case1 =>
    rw [List.nil_append, segments]
    rfl
  | case2 c rest ih =>
    have hnext := Segment.next_append after (h _ List.mem_cons_self)
    have hrest := ih fun s hs => h s (List.mem_cons_of_mem _ hs)
    rw [List.cons_append, segments, hnext]
    dsimp only
    rw [hrest, List.cons_append]

theorem totalNewlines_segments (cs : List Char) : totalNewlines (segments cs) = cs.count '\n' := by
  unfold totalNewlines
  rw [List.map_congr_left fun s hs => newlines_of_mem_segments hs]
  conv => rhs; rw [← flatMap_text_segments cs, List.count_flatMap]
  rfl

theorem tokensOf_add (line k : Nat) (segs : List Segment) :
    tokensOf (line + k) segs = (tokensOf line segs).map (Token.mapLine (· + (k : Int))) := by
  unfold tokensOf
  rw [placed_add, List.filterMap_map, List.map_filterMap]
  congr 1
  funext p
  obtain ⟨l, s⟩ := p
  cases s <;> rfl

theorem complaintsOf_add (line k : Nat) (segs : List Segment) :
    complaintsOf (line + k) segs =
      (complaintsOf line segs).map (Diagnostic.mapLine (· + (k : Int))) := by
  unfold complaintsOf
  rw [placed_add, List.filterMap_map, List.map_filterMap]
  congr 1
  funext p
  obtain ⟨l, s⟩ := p
  cases s <;> rfl

section

variable (segs others : List Segment)

theorem totalNewlines_join :
    totalNewlines (segs ++ .newline :: others) =
      1 + totalNewlines segs + totalNewlines others := by
  unfold totalNewlines
  rw [List.map_append, List.sum_append, List.map_cons, List.sum_cons]
  have hline : Segment.newline.newlines = 1 := rfl
  omega

/-- The segments of two texts joined at a line feed, with their lines. -/
theorem placed_join :
    placed 1 (segs ++ .newline :: others) = placed 1 segs ++
      (1 + totalNewlines segs, .newline) :: placed (1 + (1 + totalNewlines segs)) others := by
  have hline : 1 + totalNewlines segs + Segment.newline.newlines = 1 + (1 + totalNewlines segs) :=
    Nat.add_comm _ _
  rw [placed_append, placed, hline]

theorem tokensOf_join :
    tokensOf 1 (segs ++ .newline :: others) =
      tokensOf 1 segs ++ tokensOf (1 + (1 + totalNewlines segs)) others := by
  unfold tokensOf
  rw [placed_join, List.filterMap_append]
  rfl

theorem complaintsOf_join :
    complaintsOf 1 (segs ++ .newline :: others) =
      complaintsOf 1 segs ++ complaintsOf (1 + (1 + totalNewlines segs)) others := by
  unfold complaintsOf
  rw [placed_join, List.filterMap_append]
  rfl

end

theorem eof_add (line k : Nat) :
    Token.eof ((k + line : Nat) : Int) = (Token.eof (line : Int)).mapLine (· + (k : Int)) := by
  have hline : ((k + line : Nat) : Int) = (line : Int) + (k : Int) := by omega
  rw [hline]
  rfl

/-- The line on which a line of another text stands when that text is joined to this one. -/
def below (text : String) (line : Int) : Int :=
  line + ((1 + text.toList.count '\n' : Nat) : Int)

/-- Scanning ends on the line behind all line feeds. -/
theorem Scan.line_ofSource (text : String) :
    (Scan.ofSource text).line = 1 + text.toList.count '\n' := by
  unfold Scan.ofSource
  rw [Scan.ofSegments_eq, totalNewlines_segments]

/-- Tokens and complaints of two texts joined at a line feed: those of the second text stand further
down by the lines of the first. -/
theorem Scan.ofSource_append {text₁ : String} (h : ∀ s ∈ segments text₁.toList, s.IsClosed)
    (text₂ : String) :
    (Scan.ofSource (text₁ ++ "\n" ++ text₂)).tokens =
      sourceTokens text₁ ++ (Scan.ofSource text₂).tokens.map (Token.mapLine (below text₁)) ∧
    (Scan.ofSource (text₁ ++ "\n" ++ text₂)).errors = (Scan.ofSource text₁).errors ++
      (Scan.ofSource text₂).errors.map (Diagnostic.mapLine (below text₁)) := by
  have hlist : (text₁ ++ "\n" ++ text₂).toList = text₁.toList ++ '\n' :: text₂.toList := by
    rw [String.toList_append, String.toList_append, List.append_assoc]
    rfl
  unfold Scan.ofSource
  rw [hlist, segments_append h, Scan.ofSegments_eq, Scan.ofSegments_eq, Scan.ofSegments_eq]
  dsimp only
  constructor
  · rw [tokensOf_join, totalNewlines_join, totalNewlines_segments, tokensOf_add, List.map_append,
      List.append_assoc, Nat.add_left_comm, eof_add]
    rfl
  · rw [complaintsOf_join, totalNewlines_segments, complaintsOf_add]
    rfl

/-- A text about whose strings there is no complaint has closed strings only. -/
theorem isClosed_of_complaintsOf {line : Nat} {segs : List Segment}
    (h : ∀ l, .lexical .unterminatedString l ∉ complaintsOf line segs) :
    ∀ s ∈ segs, s.IsClosed := by
  rintro s hs text rfl
  obtain ⟨l, hl⟩ := exists_mem_placed hs line
  exact h l (List.mem_filterMap.2 ⟨_, hl, rfl⟩)

/-- Scanning goes on afresh behind a line feed. If no string of the first text is unclosed, then two
texts joined at a line feed have the tokens of the first without its end marker and those of the
second, and the complaints about the first and those about the second, where everything of the
second stands further down by the lines of the first. -/
theorem ofSource_join_at_line_end {text₁ : String}
    (h : ∀ d ∈ (Scan.ofSource text₁).errors, d.complaint ≠ .unterminatedString)
    (text₂ : String) :
    ∃ tokens ending, (Scan.ofSource text₁).tokens = tokens ++ [ending] ∧ ending.kind = .eof ∧
      Scan.ofSource (text₁ ++ "\n" ++ text₂) =
        ⟨tokens ++ (Scan.ofSource text₂).tokens.map (Token.mapLine (below text₁)),
          (Scan.ofSource text₁).errors ++
            (Scan.ofSource text₂).errors.map (Diagnostic.mapLine (below text₁)),
          (Scan.ofSource text₂).line + (1 + text₁.toList.count '\n')⟩ := by
  have hnone : ∀ l, .lexical .unterminatedString l ∉ complaintsOf 1 (segments text₁.toList) := by
    intro l hl
    have herrors : (Scan.ofSource text₁).errors = complaintsOf 1 (segments text₁.toList) := by
      rw [Scan.ofSource, Scan.ofSegments_eq]
    exact h _ (herrors ▸ hl) rfl
  have hclosed := isClosed_of_complaintsOf hnone
  obtain ⟨htokens, herrors⟩ := Scan.ofSource_append hclosed text₂
  have hline : (Scan.ofSource (text₁ ++ "\n" ++ text₂)).line =
      (Scan.ofSource text₂).line + (1 + text₁.toList.count '\n') := by
    have hone : "\n".toList.count '\n' = 1 := by decide
    simp only [Scan.line_ofSource, String.toList_append, List.count_append, hone]
    omega
  refine ⟨sourceTokens text₁, sourceEnd text₁, Scan.ofSource_tokens text₁, rfl, ?_⟩
  rw [← htokens, ← herrors, ← hline]

/-- A stray character is complained about, and a point at the end of a line is no part of a number
that goes on behind it. -/
theorem ofSource_join_at_line_end_point :
    (∀ d ∈ (Scan.ofSource "@ 6.").errors, d.complaint ≠ .unterminatedString) ∧
      Scan.ofSource ("@ 6." ++ "\n" ++ "5") =
        ⟨[⟨.number, "6", some "6", 1⟩, ⟨.dot, ".", none, 1⟩, ⟨.number, "5", some "5", 2⟩,
          Token.eof 2], [.lexical (.unexpectedCharacter '@') 1], 2⟩ := by
  have hfirst : Scan.ofSource "@ 6." =
      ⟨[⟨.number, "6", some "6", 1⟩, ⟨.dot, ".", none, 1⟩, Token.eof 1],
        [.lexical (.unexpectedCharacter '@') 1], 1⟩ := by
    have hsegments : segments "@ 6.".toList = [.stray '@', .blank ' ',
        .token .number ['6'] (some ['6']), .token .dot ['.'] none] :=
      segments_eq_cons rfl (segments_eq_cons rfl (segments_eq_cons rfl
        (segments_eq_cons rfl segments.eq_1)))
    rw [Scan.ofSource, hsegments]
    rfl
  have hsecond : Scan.ofSource "5" = ⟨[⟨.number, "5", some "5", 1⟩, Token.eof 1], [], 1⟩ := by
    have hsegments : segments "5".toList = [.token .number ['5'] (some ['5'])] :=
      segments_eq_cons rfl segments.eq_1
    rw [Scan.ofSource, hsegments]
    rfl
  have hclosed : ∀ d ∈ (Scan.ofSource "@ 6.").errors, d.complaint ≠ .unterminatedString := by
    rw [hfirst]
    decide
  obtain ⟨tokens, ending, htokens, -, hscan⟩ := ofSource_join_at_line_end hclosed "5"
  rw [hfirst] at htokens hscan
  rw [hsecond] at hscan
  have hdrop := congrArg List.dropLast htokens
  rw [List.dropLast_concat] at hdrop
  rw [← hdrop] at hscan
  exact ⟨hclosed, hscan⟩

end LoxTree
