import LoxTree.Proofs.Scanning.Joining

/-!
# The segments of a text are its longest matches

`Segment.Fits` says what a segment of each kind looks like and where it ends, without saying how it
is found. Words, numbers, operators and comments are longest matches (`Longest`): they are of their
class, and nothing that goes on with what follows them is. A string goes up to the first quote that
no backslash escapes. A text falls into segments that fit in one way only, and the scanner finds it.

* `Segment.fits_next`: the segment that the scanner takes at the front of a text fits there.
* `Segment.next_of_fits`: it is the only one that does.
* `partition_iff`: the segments of a text are its one partition into segments that fit.
* `ofSource_longest_match_partition`: tokens and complaints are read off that partition.
-/

namespace LoxTree

/-! ### Longest matches -/

/-- A text is of a class, and it is not when any part of `after`, which follows it, is added. -/
structure Longest (P : List Char → Prop) (lexeme after : List Char) : Prop where
  holds : P lexeme
  stops : ∀ more rest, after = more ++ rest → P (lexeme ++ more) → more = []

namespace Longest

variable {P : List Char → Prop} {lexeme lexeme' after after' : List Char}

/-- There is at most one longest match at the front of a text. -/
theorem unique (h : Longest P lexeme after) (h' : Longest P lexeme' after')
    (heq : lexeme ++ after = lexeme' ++ after') : lexeme = lexeme' ∧ after = after' := by
  -- one of the two is a part of the other, and then it goes on with nothing
  rcases List.append_eq_append_iff.1 heq with ⟨more, rfl, hafter⟩ | ⟨more, rfl, hafter⟩
  · have hnil := h.stops more after' hafter h'.holds
    simpa [hnil] using hafter
  · have hnil := h'.stops more after hafter h.holds
    simpa [hnil] using hafter.symm

/-- A text that can only go on with characters of a class is a longest match if none follows. -/
theorem of_stop {p : Char → Bool} (h : P lexeme)
    (hmore : ∀ more, P (lexeme ++ more) → ∀ c ∈ more, p c = true)
    (hstop : ∀ c ∈ after.head?, p c = false) : Longest P lexeme after := by
  refine ⟨h, fun more rest hafter hP => ?_⟩
  cases more with
  | nil => rfl
  | cons c more =>
    have hpos := hmore (c :: more) hP c List.mem_cons_self
    have hneg := hstop c (by simp [hafter])
    simp [hpos] at hneg

end Longest

section

variable {p : Char → Bool}

theorem stop_dropWhile (cs : List Char) : ∀ c ∈ (cs.dropWhile p).head?, p c = false := by
  intro c hc
  have h := List.head?_dropWhile_not p cs
  rw [Option.mem_def.1 hc] at h
  exact h

end

namespace Segment

/-! ### Classes of texts -/

/-- A letter or underscore with characters behind it that words go on with. -/
def IsWord : List Char → Prop
  | [] => False
  | c :: rest => isWordStart c = true ∧ ∀ d ∈ rest, isWordPart d = true

/-- Digits, or digits on both sides of a point. -/
inductive IsNumber : List Char → Prop
  | whole {digits : List Char} : digits ≠ [] → (∀ c ∈ digits, Number.isDigit c = true) →
    IsNumber digits
  | point {digits part : List Char} : digits ≠ [] → (∀ c ∈ digits, Number.isDigit c = true) →
    part ≠ [] → (∀ c ∈ part, Number.isDigit c = true) → IsNumber (digits ++ '.' :: part)

/-- The text of an entry of the table of operators. -/
def IsOperator (lexeme : List Char) : Prop :=
  ∃ kind ∈ Kind.operators, lexeme = kind.spelling.toList

/-- Two slashes and a text without line feeds. -/
def IsComment (text : List Char) : Prop :=
  ∃ body, text = '/' :: '/' :: body ∧ '\n' ∉ body

/-- A text without a quote that no backslash escapes: a backslash escapes the character after it,
whichever that is. -/
inductive IsUnquoted : List Char → Prop
  | nil : IsUnquoted []
  | plain {c : Char} {rest : List Char} : c ≠ '"' → c ≠ '\\' → IsUnquoted rest →
    IsUnquoted (c :: rest)
  | escape (c : Char) {rest : List Char} : IsUnquoted rest → IsUnquoted ('\\' :: c :: rest)

/-- The kind of a word: that of the reserved word which it is, or an identifier. -/
def IsKindOf (word : List Char) (kind : Kind) : Prop :=
  (kind ∈ Kind.keywords ∧ kind.spelling.toList = word) ∨
    (kind = .identifier ∧ ∀ keyword ∈ Kind.keywords, keyword.spelling.toList ≠ word)

/-- The kinds in the table of operators that no token has. -/
def markers : List Kind :=
  [.space, .tab, .carriageReturn, .newline, .quote]

/-- A segment fits before what follows it. -/
inductive Fits : Segment → List Char → Prop
  | blank {c : Char} {after : List Char} : c ∈ [' ', '\t', '\r'] → Fits (blank c) after
  | newline {after : List Char} : Fits newline after
  | comment {text after : List Char} : Longest IsComment text after → Fits (comment text) after
  | stray {c : Char} {after : List Char} : isWordStart c = false → Number.isDigit c = false →
    (∀ kind ∈ Kind.operators, ¬ kind.spelling.toList <+: c :: after) → Fits (stray c) after
  -- a backslash at the very end has nothing to escape
  | openString {body cut : List Char} : IsUnquoted body → cut ∈ [[], ['\\']] →
    Fits (openString ('"' :: (body ++ cut))) []
  | word {kind : Kind} {lexeme after : List Char} : Longest IsWord lexeme after →
    IsKindOf lexeme kind → Fits (token kind lexeme none) after
  | number {digits after : List Char} : Longest IsNumber digits after →
    Fits (token .number digits (some digits)) after
  -- a slash before another one starts a comment
  | operator {kind : Kind} {after : List Char} : kind ∈ Kind.operators → kind ∉ markers →
    Longest IsOperator kind.spelling.toList after → (kind = .slash → after.head? ≠ some '/') →
    Fits (token kind kind.spelling.toList none) after
  | string {body after : List Char} : IsUnquoted body →
    Fits (token .string ('"' :: body ++ ['"']) (some (decodeString body))) after

/-! ### Words -/

theorem longest_word {c : Char} (hc : isWordStart c = true) (rest : List Char) :
    Longest IsWord (c :: rest.takeWhile isWordPart) (rest.dropWhile isWordPart) := by
  refine Longest.of_stop ⟨hc, ?_⟩ ?_ (stop_dropWhile rest)
  · intro d hd
    exact List.all_eq_true.1 List.all_takeWhile d hd
  · intro more hword d hd
    exact hword.2 d (List.mem_append_right _ hd)

/-- The kind of a word is found in the table of reserved words. -/
theorem isKindOf_iff {word : List Char} {kind : Kind} :
    IsKindOf word kind ↔ Kind.ofWord (String.ofList word) = kind := by
  have hspell : ∀ k : Kind,
      k.spelling.toList = word ↔ (k.spelling == String.ofList word) = true := by
    intro k
    rw [beq_iff_eq, ← String.toList_inj, String.toList_ofList]
  have hinj : ∀ a ∈ Kind.keywords, ∀ b ∈ Kind.keywords, a.spelling = b.spelling → a = b := by
    decide
  have hid : Kind.identifier ∉ Kind.keywords := by decide
  unfold IsKindOf Kind.ofWord
  simp only [hspell, ne_eq]
  cases hfind : Kind.keywords.find? fun k => k.spelling == String.ofList word with
  | none =>
    have hnone := List.find?_eq_none.1 hfind
    constructor
    · rintro (⟨hmem, heq⟩ | ⟨rfl, -⟩)
      · exact absurd heq (hnone kind hmem)
      · rfl
    · rintro rfl
      exact .inr ⟨rfl, hnone⟩
  | some k =>
    have hk := List.find?_some hfind
    have hmem := List.mem_of_find?_eq_some hfind
    constructor
    · rintro (⟨hkind, heq⟩ | ⟨-, hnone⟩)
      · exact hinj k hmem kind hkind ((beq_iff_eq.1 hk).trans (beq_iff_eq.1 heq).symm)
      · exact absurd hk (hnone k hmem)
    · rintro rfl
      exact .inl ⟨hmem, hk⟩

/-! ### Numbers -/

theorem isDigit_point : Number.isDigit '.' = false := by
  decide

/-- The digits before a point are the digits at the front. -/
theorem split_at_point {digits part whole after : List Char}
    (hdigits : ∀ c ∈ digits, Number.isDigit c = true)
    (hwhole : ∀ c ∈ whole, Number.isDigit c = true)
    (hstop : ∀ c ∈ after.head?, Number.isDigit c = false)
    (heq : digits ++ '.' :: part = whole ++ after) : digits = whole ∧ '.' :: part = after := by
  have hpoint : ∀ c ∈ ('.' :: part).head?, Number.isDigit c = false := by
    rintro c ⟨⟩
    exact isDigit_point
  constructor
  · rw [← takeWhile_append_of_stop hdigits hpoint, heq, takeWhile_append_of_stop hwhole hstop]
  · rw [← dropWhile_append_of_stop hdigits hpoint, heq, dropWhile_append_of_stop hwhole hstop]

/-- A number with a point in it goes on with digits only. -/
theorem longest_number_of_point {digits part after : List Char} (hne : digits ≠ [])
    (hdigits : ∀ c ∈ digits, Number.isDigit c = true) (hpart : part ≠ [])
    (hparts : ∀ c ∈ part, Number.isDigit c = true)
    (hstop : ∀ c ∈ after.head?, Number.isDigit c = false) :
    Longest IsNumber (digits ++ '.' :: part) after := by
  refine Longest.of_stop (.point hne hdigits hpart hparts) (fun more hnumber => ?_) hstop
  have hpoint : ∀ c ∈ ('.' :: (part ++ more)).head?, Number.isDigit c = false := by
    rintro c ⟨⟩
    exact isDigit_point
  rw [List.append_assoc, List.cons_append] at hnumber
  generalize hn : digits ++ '.' :: (part ++ more) = n at hnumber
  cases hnumber with
  | whole _ hall =>
    have hdot : Number.isDigit '.' = true := hall '.' (by simp [← hn])
    simp [isDigit_point] at hdot
  | point _ hdigits' _ hparts' =>
    obtain ⟨-, hrest⟩ := split_at_point hdigits' hdigits hpoint hn.symm
    have hmore := List.cons.inj hrest
    intro c hc
    exact hparts' c (by simp [hmore.2, hc])

/-- A number without a point goes on with digits, or with a point and digits. -/
theorem longest_number_of_noPoint {digits after : List Char} (hne : digits ≠ [])
    (hdigits : ∀ c ∈ digits, Number.isDigit c = true)
    (hstop : ∀ c ∈ after.head?, Number.isDigit c = false)
    (hpoint : ∀ d rest, after = '.' :: d :: rest → Number.isDigit d = false) :
    Longest IsNumber digits after := by
  refine ⟨.whole hne hdigits, fun more rest hafter hnumber => ?_⟩
  by_contra hmore
  obtain ⟨c, more, rfl⟩ := List.exists_cons_of_ne_nil hmore
  have hc : Number.isDigit c = false := hstop c (by simp [hafter])
  generalize hn : digits ++ c :: more = n at hnumber
  cases hnumber with
  | whole _ hall =>
    have hdigit : Number.isDigit c = true := hall c (by simp [← hn])
    simp [hc] at hdigit
  | @point digits' part _ hdigits' hpart hparts =>
    have hfront : ∀ d ∈ (c :: more).head?, Number.isDigit d = false := by
      rintro d ⟨⟩
      exact hc
    obtain ⟨-, hrest⟩ := split_at_point hdigits' hdigits hfront hn.symm
    obtain ⟨d, part, rfl⟩ := List.exists_cons_of_ne_nil hpart
    have hd : Number.isDigit d = true := hparts d List.mem_cons_self
    have hnot : Number.isDigit d = false := hpoint d (part ++ rest) (by simp [hafter, ← hrest])
    simp [hd] at hnot

/-- What the scanner takes as a number is a longest match. -/
theorem longest_number {c : Char} (hc : Number.isDigit c = true) (rest : List Char) :
    Longest IsNumber (splitNumber (c :: rest)).1 (splitNumber (c :: rest)).2 := by
  have hne : (c :: rest).takeWhile Number.isDigit ≠ [] := by simp [hc]
  have hall : ∀ cs : List Char, ∀ d ∈ cs.takeWhile Number.isDigit, Number.isDigit d = true :=
    fun cs d hd => List.all_eq_true.1 List.all_takeWhile d hd
  by_cases hpoint : ∃ d after, (c :: rest).dropWhile Number.isDigit = '.' :: d :: after ∧
      Number.isDigit d = true
  · obtain ⟨d, after, hdrop, hd⟩ := hpoint
    rw [splitNumber_of_point hdrop hd]
    exact longest_number_of_point hne (hall _) (by simp [hd]) (hall _) (stop_dropWhile _)
  · have hnot : ∀ d after, (c :: rest).dropWhile Number.isDigit = '.' :: d :: after →
        Number.isDigit d = false := by
      intro d after hdrop
      exact Bool.eq_false_iff.2 fun hd => hpoint ⟨d, after, hdrop, hd⟩
    rw [splitNumber_of_noPoint hnot]
    exact longest_number_of_noPoint hne (hall _) (stop_dropWhile _) hnot

theorem IsNumber.head {digits : List Char} (h : IsNumber digits) :
    ∃ c rest, digits = c :: rest ∧ Number.isDigit c = true := by
  cases h with
  | whole hne hall =>
    obtain ⟨c, rest, rfl⟩ := List.exists_cons_of_ne_nil hne
    exact ⟨c, rest, rfl, hall c List.mem_cons_self⟩
  | point hne hall =>
    obtain ⟨c, rest, rfl⟩ := List.exists_cons_of_ne_nil hne
    exact ⟨c, _, rfl, hall c List.mem_cons_self⟩

/-! ### Operators and comments -/

/-- Longer operators come first in the table. -/
theorem pairwise_operators :
    Kind.operators.Pairwise fun a b => b.spelling.toList.length ≤ a.spelling.toList.length := by
  decide

/-- Operators differ in their texts. -/
theorem spelling_injOn {a b : Kind} (ha : a ∈ Kind.operators) (hb : b ∈ Kind.operators)
    (h : a.spelling.toList = b.spelling.toList) : a = b := by
  have hall : ∀ a ∈ Kind.operators, ∀ b ∈ Kind.operators,
      a.spelling.toList = b.spelling.toList → a = b := by decide
  exact hall a ha b hb h

/-- The first operator of the table that fits is the longest one. -/
theorem longest_operator {cs after : List Char} {kind : Kind}
    (h : splitOperator? cs = some (kind, after)) :
    Longest IsOperator kind.spelling.toList after := by
  have hcs := splitOperator?_eq h
  refine ⟨⟨kind, splitOperator?_mem h, rfl⟩, ?_⟩
  rintro more rest rfl ⟨k, hk, heq⟩
  obtain ⟨before, kind', behind, htable, hkind, hbefore⟩ := List.findSome?_eq_some_iff.1 h
  obtain ⟨r, hr, hpair⟩ := Option.map_eq_some_iff.1 hkind
  cases hpair
  have hfits : after? k.spelling.toList cs = some rest := by
    rw [after?_eq_some_iff, hcs, ← heq, List.append_assoc]
  have hsorted := pairwise_operators
  rw [htable] at hk hsorted
  have hlength : k.spelling.toList.length ≤ kind.spelling.toList.length := by
    rcases List.mem_append.1 hk with hk | hk
    · -- the operators before it do not fit
      have hnone := hbefore k hk
      simp [hfits] at hnone
    · rcases List.mem_cons.1 hk with rfl | hk
      · exact Nat.le_refl _
      · exact (List.pairwise_cons.1 (List.pairwise_append.1 hsorted).2.1).1 k hk
  rw [← heq, List.length_append] at hlength
  exact List.length_eq_zero_iff.1 (by omega)

theorem splitOperator?_eq_none_iff {cs : List Char} :
    splitOperator? cs = none ↔ ∀ kind ∈ Kind.operators, ¬ kind.spelling.toList <+: cs := by
  unfold splitOperator?
  rw [List.findSome?_eq_none_iff]
  refine forall₂_congr fun kind _ => ?_
  rw [Option.map_eq_none_iff, Option.eq_none_iff_forall_ne_some]
  constructor
  · rintro h ⟨rest, heq⟩
    exact h rest (after?_eq_some_iff.2 heq.symm)
  · intro h rest heq
    exact h ⟨rest, (after?_eq_some_iff.1 heq).symm⟩

/-- An operator that is a longest match is the one that the scanner finds. -/
theorem splitOperator?_of_longest {kind : Kind} {after : List Char} (hmem : kind ∈ Kind.operators)
    (h : Longest IsOperator kind.spelling.toList after) :
    splitOperator? (kind.spelling.toList ++ after) = some (kind, after) := by
  cases hs : splitOperator? (kind.spelling.toList ++ after) with
  | none => exact absurd ⟨after, rfl⟩ (splitOperator?_eq_none_iff.1 hs kind hmem)
  | some found =>
    obtain ⟨k, rest⟩ := found
    obtain ⟨hspelling, hrest⟩ := h.unique (longest_operator hs) (splitOperator?_eq hs)
    rw [spelling_injOn hmem (splitOperator?_mem hs) hspelling, hrest]

/-- An operator that starts no other one is a longest match before everything. -/
theorem longest_operator_of_only {kind : Kind} (hmem : kind ∈ Kind.operators)
    (honly : ∀ k ∈ Kind.operators, kind.spelling.toList <+: k.spelling.toList → k = kind)
    (after : List Char) : Longest IsOperator kind.spelling.toList after := by
  refine ⟨⟨kind, hmem, rfl⟩, ?_⟩
  rintro more rest - ⟨k, hk, heq⟩
  have hsame : k = kind := honly k hk ⟨more, heq⟩
  rw [hsame] at heq
  simpa using heq

/-- The blanks, the quote and the slash start no operator but themselves. -/
theorem longest_operator_single {kind : Kind} (hkind : kind ∈ .slash :: markers)
    (after : List Char) : Longest IsOperator kind.spelling.toList after := by
  have hall : ∀ kind ∈ .slash :: markers, kind ∈ Kind.operators ∧
      ∀ k ∈ Kind.operators, kind.spelling.toList <+: k.spelling.toList → k = kind := by decide
  obtain ⟨hmem, honly⟩ := hall kind hkind
  exact longest_operator_of_only hmem honly after

/-- No word and no number starts with an operator. -/
theorem not_start_of_operator {kind : Kind} (hkind : kind ∈ Kind.operators) {c : Char}
    {rest : List Char} (h : kind.spelling.toList = c :: rest) :
    isWordStart c = false ∧ Number.isDigit c = false := by
  have hall : ∀ kind ∈ Kind.operators, kind.spelling.toList.head?.all
      (fun c => decide (isWordStart c = false ∧ Number.isDigit c = false)) = true := by decide
  have hhead := hall kind hkind
  rw [h] at hhead
  exact of_decide_eq_true hhead

theorem longest_comment (after : List Char) :
    Longest IsComment ('/' :: '/' :: after.takeWhile (· ≠ '\n')) (after.dropWhile (· ≠ '\n')) := by
  refine Longest.of_stop ⟨_, rfl, ?_⟩ ?_ (stop_dropWhile after)
  · intro hmem
    simpa using List.all_eq_true.1 List.all_takeWhile _ hmem
  · rintro more ⟨body, hbody, hnot⟩ c hc
    have hsame : after.takeWhile (· ≠ '\n') ++ more = body := by simpa using hbody
    have hne : c ≠ '\n' := by
      rintro rfl
      exact hnot (hsame ▸ List.mem_append_right _ hc)
    simpa using hne

/-! ### Strings -/

theorem isUnquoted_of_closeString? {cs body after : List Char}
    (h : closeString? cs = some (body, after)) : IsUnquoted body := by
  fun_induction closeString? cs generalizing body with
  | case1 => simp at h
  | case2 rest =>
    cases h
    exact .nil
  | case3 c rest ih =>
    obtain ⟨⟨b, a⟩, hb, heq⟩ := Option.map_eq_some_iff.1 h
    cases heq
    exact .escape c (ih hb)
  | case4 c rest hquote hescape ih =>
    obtain ⟨⟨b, a⟩, hb, heq⟩ := Option.map_eq_some_iff.1 h
    cases heq
    -- the text goes on, so a backslash would have been the start of an escape
    have hc : c ≠ '\\' := by
      intro hc
      cases rest with
      | nil => simp [closeString?] at hb
      | cons d rest => exact hescape d rest hc rfl
    exact .plain hquote hc (ih hb)

theorem closeString?_of_isUnquoted {body : List Char} (h : IsUnquoted body) (after : List Char) :
    closeString? (body ++ '"' :: after) = some (body, after) := by
  induction h with
  | nil => rfl
  | @plain c rest hquote hescape _ ih =>
    have hnot : ∀ d rest', c = '\\' → rest ++ '"' :: after = d :: rest' → False :=
      fun _ _ hc _ => hescape hc
    rw [List.cons_append, closeString?.eq_4 _ _ hquote hnot, ih]
    rfl
  | escape c _ ih =>
    rw [List.cons_append, List.cons_append, closeString?, ih]
    rfl

theorem isUnquoted_of_closeString?_eq_none {cs : List Char} (h : closeString? cs = none) :
    ∃ body cut, cs = body ++ cut ∧ IsUnquoted body ∧ cut ∈ [[], ['\\']] := by
  fun_induction closeString? cs with
  | case1 => exact ⟨[], [], rfl, .nil, by simp⟩
  | case2 rest => cases h
  | case3 c rest ih =>
    obtain ⟨body, cut, rfl, hbody, hcut⟩ := ih (by simpa using h)
    exact ⟨'\\' :: c :: body, cut, rfl, .escape c hbody, hcut⟩
  | case4 c rest hquote hescape ih =>
    obtain ⟨body, cut, rfl, hbody, hcut⟩ := ih (by simpa using h)
    by_cases hc : c = '\\'
    · have hnil : body ++ cut = [] := by
        by_contra hne
        obtain ⟨d, rest, heq⟩ := List.exists_cons_of_ne_nil hne
        exact hescape d rest hc heq
      exact ⟨[], ['\\'], by simp [hnil, hc], .nil, by simp⟩
    · exact ⟨c :: body, cut, rfl, .plain hquote hc hbody, hcut⟩

theorem closeString?_eq_none_of_isUnquoted {body cut : List Char} (h : IsUnquoted body)
    (hcut : cut ∈ [[], ['\\']]) : closeString? (body ++ cut) = none := by
  induction h with
  | nil =>
    simp only [List.mem_cons, List.not_mem_nil, or_false] at hcut
    rcases hcut with rfl | rfl <;> rfl
  | @plain c rest hquote hescape _ ih =>
    have hnot : ∀ d rest', c = '\\' → rest ++ cut = d :: rest' → False :=
      fun _ _ hc _ => hescape hc
    rw [List.cons_append, closeString?.eq_4 _ _ hquote hnot, ih]
    rfl
  | escape c _ ih =>
    rw [List.cons_append, List.cons_append, closeString?, ih]
    rfl

/-! ### The segment at the front of a text -/

theorem fits_nextString (rest : List Char) : (nextString rest).1.Fits (nextString rest).2 := by
  unfold nextString
  split
  · next body after heq => exact .string (isUnquoted_of_closeString? heq)
  · next heq =>
    obtain ⟨body, cut, rfl, hbody, hcut⟩ := isUnquoted_of_closeString?_eq_none heq
    exact .openString hbody hcut

theorem fits_nextOperator {kind : Kind} {after : List Char} (hmem : kind ∈ Kind.operators)
    (hlongest : Longest IsOperator kind.spelling.toList after) :
    (nextOperator kind after).1.Fits (nextOperator kind after).2 := by
  unfold nextOperator
  split
  · exact .blank (by simp)
  · exact .blank (by simp)
  · exact .blank (by simp)
  · exact .newline
  · exact fits_nextString after
  · exact .comment (longest_comment _)
  · next hspace htab hreturn hnewline hquote hslash =>
    refine .operator hmem ?_ hlongest ?_
    · simp only [markers, List.mem_cons, List.not_mem_nil, or_false, not_or]
      exact ⟨hspace, htab, hreturn, hnewline, hquote⟩
    · intro hkind hhead
      obtain ⟨rest, rfl⟩ := List.head?_eq_some_iff.1 hhead
      exact hslash rest hkind rfl

/-- The segment that the scanner takes fits where it stands. -/
theorem fits_next (c : Char) (rest : List Char) : (next c rest).1.Fits (next c rest).2 := by
  unfold next
  split
  · next hc => exact .word (longest_word hc rest) (isKindOf_iff.2 rfl)
  · next hword =>
    split
    · next hc => exact .number (longest_number hc rest)
    · next hdigit =>
      split
      · next heq => exact fits_nextOperator (splitOperator?_mem heq) (longest_operator heq)
      · next heq =>
        exact .stray (Bool.eq_false_iff.2 hword) (Bool.eq_false_iff.2 hdigit)
          (splitOperator?_eq_none_iff.1 heq)

section

variable {c : Char} {rest after : List Char}

theorem next_of_word {lexeme : List Char} {kind : Kind} (h : Longest IsWord lexeme after)
    (hkind : IsKindOf lexeme kind) (heq : c :: rest = lexeme ++ after) :
    next c rest = (token kind lexeme none, after) := by
  obtain ⟨hc, hlexeme⟩ : isWordStart c = true ∧ ∃ run, lexeme = c :: run := by
    cases lexeme with
    | nil => exact h.holds.elim
    | cons d run =>
      cases heq
      exact ⟨h.holds.1, run, rfl⟩
  obtain ⟨run, rfl⟩ := hlexeme
  have hrun := longest_word hc rest
  rw [List.cons_append] at heq
  obtain ⟨hsame, hafter⟩ := hrun.unique h (by simp [← heq])
  unfold next
  rw [if_pos hc, hsame, hafter]
  dsimp only
  rw [isKindOf_iff.1 hkind]

theorem next_of_number {digits : List Char} (h : Longest IsNumber digits after)
    (heq : c :: rest = digits ++ after) :
    next c rest = (token .number digits (some digits), after) := by
  obtain ⟨d, run, rfl, hd⟩ := h.holds.head
  obtain ⟨rfl, -⟩ := List.cons.inj heq
  have hword : isWordStart c = false :=
    Number.holds_of_isDigit (fun d => isWordStart d = false) (by decide) hd
  obtain ⟨hsame, hafter⟩ := (longest_number hd rest).unique h (by rw [splitNumber_append, heq])
  unfold next
  simp only [hword, hd, Bool.false_eq_true, if_false, if_true, hsame, hafter]

/-- An operator that is a longest match decides what the segment is. -/
theorem next_of_operator {kind : Kind} (hmem : kind ∈ Kind.operators)
    (h : Longest IsOperator kind.spelling.toList after)
    (heq : c :: rest = kind.spelling.toList ++ after) :
    next c rest = nextOperator kind after := by
  obtain ⟨d, more, hspelling⟩ := List.exists_cons_of_ne_nil (spelling_ne_nil kind)
  have hcd : c = d := by
    rw [hspelling] at heq
    exact (List.cons.inj heq).1
  obtain ⟨hword, hdigit⟩ := not_start_of_operator hmem hspelling
  have hsplit := splitOperator?_of_longest hmem h
  rw [← heq] at hsplit
  unfold next
  simp only [hcd ▸ hword, hcd ▸ hdigit, hsplit, Bool.false_eq_true, if_false]

theorem next_of_marker {kind : Kind} (hkind : kind ∈ .slash :: markers)
    (heq : c :: rest = kind.spelling.toList ++ after) : next c rest = nextOperator kind after := by
  have hall : ∀ kind ∈ .slash :: markers, kind ∈ Kind.operators := by decide
  exact next_of_operator (hall kind hkind) (longest_operator_single hkind after) heq

/-- No other segment fits at the front of a text than the one that the scanner takes. -/
theorem next_of_fits {s : Segment} (h : s.Fits after) (heq : c :: rest = s.text ++ after) :
    next c rest = (s, after) := by
  cases h with
  | blank hc =>
    simp only [List.mem_cons, List.not_mem_nil, or_false] at hc
    rcases hc with rfl | rfl | rfl
    · exact next_of_marker (show .space ∈ .slash :: markers by decide) heq
    · exact next_of_marker (show .tab ∈ .slash :: markers by decide) heq
    · exact next_of_marker (show .carriageReturn ∈ .slash :: markers by decide) heq
  | newline => exact next_of_marker (show .newline ∈ .slash :: markers by decide) heq
  | comment hlongest =>
    obtain ⟨body, rfl, -⟩ := hlongest.holds
    have hslash : c :: rest = Kind.slash.spelling.toList ++ '/' :: (body ++ after) := heq
    rw [next_of_marker (by decide) hslash]
    obtain ⟨hsame, hafter⟩ := (longest_comment (body ++ after)).unique hlongest (by simp)
    rw [nextOperator.eq_6, hsame, hafter]
  | @stray d _ hword hdigit hnone =>
    obtain ⟨rfl, rfl⟩ := List.cons.inj heq
    have hsplit := splitOperator?_eq_none_iff.2 hnone
    unfold next
    simp only [hword, hdigit, hsplit, Bool.false_eq_true, if_false]
  | @openString body cut hbody hcut =>
    have hquote : c :: rest = Kind.quote.spelling.toList ++ (body ++ cut) :=
      heq.trans (List.append_nil _)
    rw [next_of_marker (by decide) hquote, nextOperator.eq_5, nextString,
      closeString?_eq_none_of_isUnquoted hbody hcut]
  | word hlongest hkind => exact next_of_word hlongest hkind heq
  | number hlongest => exact next_of_number hlongest heq
  | @operator kind _ hmem hmarker hlongest hslash =>
    rw [next_of_operator hmem hlongest heq]
    simp only [markers, List.mem_cons, List.not_mem_nil, or_false, not_or] at hmarker
    obtain ⟨hspace, htab, hreturn, hnewline, hquote⟩ := hmarker
    refine nextOperator.eq_7 kind after hspace htab hreturn hnewline hquote ?_
    rintro more hkind rfl
    exact hslash hkind rfl
  | @string body _ hbody =>
    have hquote : c :: rest = Kind.quote.spelling.toList ++ (body ++ '"' :: after) := by
      rw [heq]
      show '"' :: (body ++ ['"'] ++ after) = '"' :: (body ++ '"' :: after)
      simp
    rw [next_of_marker (by decide) hquote, nextOperator.eq_5, nextString,
      closeString?_of_isUnquoted hbody]

end

theorem Fits.text_ne_nil {s : Segment} {after : List Char} (h : s.Fits after) : s.text ≠ [] := by
  cases h with
  | comment hlongest =>
    obtain ⟨body, rfl, -⟩ := hlongest.holds
    simp [text]
  | word hlongest _ =>
    rintro rfl
    exact hlongest.holds
  | number hlongest =>
    obtain ⟨c, rest, rfl, -⟩ := hlongest.holds.head
    simp [text]
  | operator => exact spelling_ne_nil _
  | _ => simp [text]

end Segment

/-! ### Partitions -/

/-- A text falls into segments, each of which fits before the next ones. -/
inductive Partition : List Char → List Segment → Prop
  | nil : Partition [] []
  | cons {s : Segment} {after : List Char} {segs : List Segment} : s.Fits after →
    Partition after segs → Partition (s.text ++ after) (s :: segs)

/-- The segments of a text are its one partition. -/
theorem partition_iff {cs : List Char} {segs : List Segment} :
    Partition cs segs ↔ segments cs = segs := by
  constructor
  · intro h
    induction h with
    | nil => exact segments.eq_1
    | @cons s after segs hfits _ ih =>
      obtain ⟨c, rest, hcs⟩ : ∃ c rest, s.text ++ after = c :: rest :=
        List.exists_cons_of_ne_nil (by simp [hfits.text_ne_nil])
      rw [hcs, segments, Segment.next_of_fits hfits hcs.symm, ih]
  · rintro rfl
    fun_induction segments cs with
    | case1 => exact .nil
    | case2 c rest ih =>
      have h := Partition.cons (Segment.fits_next c rest) ih
      rwa [Segment.text_next] at h

theorem Partition.fits_of_mem {cs : List Char} {segs : List Segment} (h : Partition cs segs)
    {s : Segment} (hs : s ∈ segs) : ∃ after, s.Fits after := by
  induction h with
  | nil => cases hs
  | cons hfits _ ih =>
    rcases List.mem_cons.1 hs with rfl | hs
    · exact ⟨_, hfits⟩
    · exact ih hs

/-! ### Tokens and complaints -/

/-- The kind of the token that a segment is. -/
def Segment.kind? : Segment → Option Kind
  | .token kind _ _ => some kind
  | _ => none

/-- What there is to complain about in a segment. -/
def Segment.reason? : Segment → Option Complaint
  | .stray c => some (.unexpectedCharacter c)
  | .openString _ => some .unterminatedString
  | _ => none

/-- No token of a text is an end marker or one of the kinds that only the scanner uses. -/
theorem Segment.Fits.kind_notMem {s : Segment} {after : List Char} (h : s.Fits after) {kind : Kind}
    (hkind : s.kind? = some kind) : kind ∉ .eof :: markers := by
  have hwords : ∀ k ∈ .identifier :: Kind.keywords, k ∉ .eof :: markers := by decide
  have hoperators : .eof ∉ Kind.operators := by decide
  cases h with
  | word _ hword =>
    cases hkind
    rcases hword with ⟨hmem, -⟩ | ⟨rfl, -⟩
    · exact hwords kind (List.mem_cons_of_mem _ hmem)
    · exact hwords _ List.mem_cons_self
  | number =>
    cases hkind
    decide
  | operator hmem hmarker =>
    cases hkind
    rintro (_ | ⟨_, hmem'⟩)
    · exact hoperators hmem
    · exact hmarker hmem'
  | string =>
    cases hkind
    decide
  | _ => cases hkind

theorem filterMap_placed {β : Type} (f : Segment → Option β) (line : Nat) (segs : List Segment) :
    (placed line segs).filterMap (fun p => f p.2) = segs.filterMap f := by
  induction segs generalizing line with
  | nil => rfl
  | cons s rest ih => simp only [placed, List.filterMap_cons, ih]

theorem map_tokensOf (line : Nat) (segs : List Segment) :
    (tokensOf line segs).map (fun t => (t.kind, t.lexeme)) =
      segs.filterMap fun s => s.kind?.map fun kind => (kind, String.ofList s.text) := by
  rw [← filterMap_placed _ line, tokensOf, List.map_filterMap]
  congr 1
  funext p
  obtain ⟨l, s⟩ := p
  cases s <;> rfl

theorem map_complaintsOf (line : Nat) (segs : List Segment) :
    (complaintsOf line segs).map Diagnostic.complaint = segs.filterMap Segment.reason? := by
  rw [← filterMap_placed _ line, complaintsOf, List.map_filterMap]
  congr 1
  funext p
  obtain ⟨l, s⟩ := p
  cases s <;> rfl

/-- A source text falls into segments that fit in one way only. None of them is empty, and together
they make up the text. The tokens are the segments that are tokens, in their order and each with its
segment as its lexeme, and one end marker with an empty lexeme behind them. The complaints are about
the stray characters and the unclosed string, in their order. -/
theorem ofSource_longest_match_partition (source : String) :
    ∃ segs, Partition source.toList segs ∧
      (∀ others, Partition source.toList others → others = segs) ∧
      segs.flatMap Segment.text = source.toList ∧ (∀ s ∈ segs, s.text ≠ []) ∧
      (∀ s ∈ segs, ∀ kind ∈ s.kind?, kind ∉ .eof :: Segment.markers) ∧
      (Scan.ofSource source).tokens.map (fun t => (t.kind, t.lexeme)) =
        (segs.filterMap fun s => s.kind?.map fun kind => (kind, String.ofList s.text)) ++
          [(.eof, "")] ∧
      (Scan.ofSource source).errors.map Diagnostic.complaint =
        segs.filterMap Segment.reason? := by
  have hpartition : Partition source.toList (segments source.toList) := partition_iff.2 rfl
  refine ⟨_, hpartition, ?_, flatMap_text_segments _, ?_, ?_, ?_, ?_⟩
  · intro others hothers
    exact (partition_iff.1 hothers).symm
  · intro s hs
    obtain ⟨after, hfits⟩ := hpartition.fits_of_mem hs
    exact hfits.text_ne_nil
  · intro s hs kind hkind
    obtain ⟨after, hfits⟩ := hpartition.fits_of_mem hs
    exact hfits.kind_notMem hkind
  · rw [Scan.ofSource, Scan.ofSegments_eq, List.map_append, map_tokensOf]
    rfl
  · rw [Scan.ofSource, Scan.ofSegments_eq, map_complaintsOf]

end LoxTree
