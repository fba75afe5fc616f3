import LoxTree.Program
import LoxTree.Proofs.Outcome

/-!
# The steps of the parser

What each step of the parser does to its state, and what all of them have in common.

* `accept_of_mem`, `accept_of_notMem` and the lemmas after them give the outcome of the small steps.
* `Rule.parse_induction` is the induction that every statement about `Rule.parse` goes by: the four
  levels of operators are one case of it, and so are all the ways to run out of room.
* `forward_parse`: parsing by a rule only goes forward. It drops tokens from the front of what is
  left, adds complaints behind those recorded, never touches the end marker, and on tokens whose
  numbers can be read it fails only with a complaint or for want of room.
* `leftAssoc_apply`: the bound on the rounds of the loop over operators is never reached.
-/

namespace LoxTree

open Step Parse

/-! ### The small steps -/

namespace Parse

theorem newNode_apply (s : ParseState) :
    newNode s = .ok (s.nodes + 1) { s with nodes := s.nodes + 1 } :=
  rfl

theorem complain_apply {α : Type} (c : Complaint) (s : ParseState) :
    (complain c : Parse α) s =
      .error (.diagnostic (.grammatical (s.rest.headD s.ending) c)) s :=
  rfl

/-- The next token, if there is one, is of none of the given kinds. -/
def NextNotIn (kinds : List Kind) (tokens : List Token) : Prop :=
  ∀ t ∈ tokens.head?, t.kind ∉ kinds

theorem nextNotIn_nil (kinds : List Kind) : NextNotIn kinds [] := by
  intro t ht
  cases ht

theorem NextNotIn.mono {kinds kinds' : List Kind} {tokens : List Token}
    (h : NextNotIn kinds tokens) (hsub : kinds' ⊆ kinds) : NextNotIn kinds' tokens :=
  fun t ht hk => h t ht (hsub hk)

theorem nextNotIn_cons {kinds : List Kind} {t : Token} {rest : List Token}
    (h : t.kind ∉ kinds) : NextNotIn kinds (t :: rest) := by
  intro u hu
  cases hu
  exact h

theorem accept_of_mem {s : ParseState} {t : Token} {rest : List Token} {kinds : List Kind}
    (hs : s.rest = t :: rest) (hk : t.kind ∈ kinds) :
    accept kinds s = .ok (some t) { s with rest } := by
  obtain ⟨r, e, n, ds⟩ := s
  subst hs
  show (if t.kind ∈ kinds then _ else _ : Parse (Option Token)) _ = _
  rw [if_pos hk]
  rfl

theorem accept_of_notMem {s : ParseState} {kinds : List Kind} (h : NextNotIn kinds s.rest) :
    accept kinds s = .ok none s := by
  obtain ⟨r, e, n, ds⟩ := s
  cases r with
  | nil => rfl
  | cons t rest =>
    have hk : t.kind ∉ kinds := h t rfl
    show (if t.kind ∈ kinds then _ else _ : Parse (Option Token)) _ = _
    rw [if_neg hk]
    rfl

/-- Either the next token is of one of the kinds and is taken, or nothing happens. -/
theorem accept_cases (kinds : List Kind) (s : ParseState) :
    (∃ t rest, s.rest = t :: rest ∧ t.kind ∈ kinds ∧
      accept kinds s = .ok (some t) { s with rest }) ∨
    (NextNotIn kinds s.rest ∧ accept kinds s = .ok none s) := by
  by_cases h : NextNotIn kinds s.rest
  · exact .inr ⟨h, accept_of_notMem h⟩
  · simp only [NextNotIn, Classical.not_forall, Classical.not_not] at h
    obtain ⟨t, ht, hk⟩ := h
    obtain ⟨rest, hrest⟩ := List.head?_eq_some_iff.1 ht
    exact .inl ⟨t, rest, hrest, hk, accept_of_mem hrest hk⟩

theorem accept_eq_some {kinds : List Kind} {s s' : ParseState} {t : Token}
    (h : accept kinds s = .ok (some t) s') :
    ∃ rest, s.rest = t :: rest ∧ t.kind ∈ kinds ∧ s' = { s with rest } := by
  rcases accept_cases kinds s with ⟨t', rest, hs, hk, ha⟩ | ⟨-, ha⟩
  · rw [ha] at h
    cases h
    exact ⟨rest, hs, hk, rfl⟩
  · rw [ha] at h
    cases h

theorem expect_of_kind {s : ParseState} {t : Token} {rest : List Token} {kind : Kind}
    (hs : s.rest = t :: rest) (hk : t.kind = kind) (c : Complaint) :
    expect kind c s = .ok t { s with rest } := by
  unfold expect
  rw [bind_of_ok (accept_of_mem hs (List.mem_singleton.2 hk))]
  rfl

theorem expect_of_notMem {s : ParseState} {kind : Kind} (h : NextNotIn [kind] s.rest)
    (c : Complaint) :
    expect kind c s = .error (.diagnostic (.grammatical (s.rest.headD s.ending) c)) s := by
  unfold expect
  rw [bind_of_ok (accept_of_notMem h)]
  rfl

/-- Either the next token is of the kind and is taken, or the step fails at it. -/
theorem expect_cases (kind : Kind) (c : Complaint) (s : ParseState) :
    (∃ t rest, s.rest = t :: rest ∧ t.kind = kind ∧ expect kind c s = .ok t { s with rest }) ∨
    (NextNotIn [kind] s.rest ∧
      expect kind c s = .error (.diagnostic (.grammatical (s.rest.headD s.ending) c)) s) := by
  rcases accept_cases [kind] s with ⟨t, rest, hs, hk, -⟩ | ⟨h, -⟩
  · have hk := List.mem_singleton.1 hk
    exact .inl ⟨t, rest, hs, hk, expect_of_kind hs hk c⟩
  · exact .inr ⟨h, expect_of_notMem h c⟩

theorem expect_eq_ok {kind : Kind} {c : Complaint} {s s' : ParseState} {t : Token}
    (h : expect kind c s = .ok t s') :
    ∃ rest, s.rest = t :: rest ∧ t.kind = kind ∧ s' = { s with rest } := by
  rcases expect_cases kind c s with ⟨t', rest, hs, hk, he⟩ | ⟨-, he⟩
  · rw [he] at h
    cases h
    exact ⟨rest, hs, hk, rfl⟩
  · rw [he] at h
    cases h

end Parse

/-! ### The rules -/

/-- The rules with operators between operands: their operators and the rule of their operands. -/
inductive Rule.Level : Rule → List Kind → Rule → Prop
  | equality : Level .equality [.bangEqual, .equalEqual] .comparison
  | comparison : Level .comparison [.greater, .greaterEqual, .less, .lessEqual] .term
  | term : Level .term [.minus, .plus] .factor
  | factor : Level .factor [.slash, .star] .unary

/-- The kinds of tokens that a primary expression starts with. -/
def primaryStarts : List Kind :=
  [.kwFalse, .kwTrue, .kwNil, .number, .string, .identifier, .leftParen]

/-- The tokens that are literals, each with its value. -/
inductive LiteralToken : Token → Value → Prop
  | isFalse {t : Token} : t.kind = .kwFalse → LiteralToken t (.boolean false)
  | isTrue {t : Token} : t.kind = .kwTrue → LiteralToken t (.boolean true)
  | isNil {t : Token} : t.kind = .kwNil → LiteralToken t .nil
  | number {t : Token} {v : Value} :
    t.kind = .number → numberValue t = .ok v → LiteralToken t v
  | string {t : Token} : t.kind = .string → LiteralToken t (stringValue t)

/-- Induction along the calls of `Rule.parse`. -/
theorem Rule.parse_induction {motive : Nat → Rule → Prop}
    (expression : ∀ room, motive room .assignment → motive (room + 1) .expression)
    (assignment : ∀ room, motive room .equality → motive room .assignment →
      motive (room + 1) .assignment)
    (level : ∀ room r operators q, Rule.Level r operators q →
      Rule.parse (room + 2) r = leftAssoc operators (Rule.parse room q) →
      motive room q → motive (room + 2) r)
    (unary : ∀ room, motive room .unary → motive room .primary → motive (room + 1) .unary)
    (primary : ∀ room, motive room .expression → motive (room + 1) .primary)
    (noRoom : ∀ room r, Rule.parse room r = throw .tooDeep → motive room r) (room : Nat)
    (r : Rule) : motive room r := by
  induction room, r using Rule.parse.induct with
  | case1 room ih => exact expression room ih
  | case2 room ih₁ ih₂ => exact assignment room ih₁ ih₂
  | case3 room ih => exact level room _ _ _ .equality (Rule.parse.eq_3 room) ih
  | case4 room ih => exact level room _ _ _ .comparison (Rule.parse.eq_4 room) ih
  | case5 room ih => exact level room _ _ _ .term (Rule.parse.eq_5 room) ih
  | case6 room ih => exact level room _ _ _ .factor (Rule.parse.eq_6 room) ih
  | case7 room ih₁ ih₂ => exact unary room ih₁ ih₂
  | case8 room ih => exact primary room ih
  | case9 room r h₁ h₂ h₃ h₄ h₅ h₆ h₇ h₈ =>
    exact noRoom room r (Rule.parse.eq_9 room r h₁ h₂ h₃ h₄ h₅ h₆ h₇ h₈)

/-- An assignment whose target and value are read; only a variable is a target. -/
def Parse.assignTo (target : Expr) (equals : Token) (value : Expr) : Parse Expr :=
  match target with
  | .reference _ name => return .assign (← newNode) name value
  | _ => do
    record (.grammatical equals .invalidTarget)
    return value

theorem assignTo_cases (target : Expr) (equals : Token) (value : Expr) (s : ParseState) :
    (∃ id name, target = .reference id name ∧ assignTo target equals value s =
      .ok (.assign (s.nodes + 1) name value) { s with nodes := s.nodes + 1 }) ∨
    ((∀ id name, target ≠ .reference id name) ∧ assignTo target equals value s =
      .ok value { s with errors := s.errors ++ [.grammatical equals .invalidTarget] }) := by
  cases target with
  | reference id name => exact .inl ⟨id, name, rfl, rfl⟩
  | _ => exact .inr ⟨fun _ _ h => Expr.noConfusion h, rfl⟩

theorem parse_assignment_eq (room : Nat) :
    Rule.parse (room + 1) .assignment = (do
      let target ← Rule.parse room .equality
      match ← accept [.equal] with
      | none => return target
      | some equals => do assignTo target equals (← Rule.parse room .assignment)) :=
  Rule.parse.eq_2 room

/-- An expression in parentheses, behind the opening one. -/
def Parse.closeGroup (inner : Parse Expr) : Parse Expr := do
  let e ← inner
  let _ ← expect .rightParen .expectClosingParen
  return .grouping (← newNode) e

/-- What a primary expression is, by its first token. -/
theorem parse_primary_cases (room : Nat) (s : ParseState) :
    (∃ t rest v, s.rest = t :: rest ∧ LiteralToken t v ∧ Rule.parse (room + 1) .primary s =
      .ok (.literal (s.nodes + 1) v) { s with rest, nodes := s.nodes + 1 }) ∨
    (∃ t rest f, s.rest = t :: rest ∧ t.kind = .number ∧ numberValue t = .error f ∧
      Rule.parse (room + 1) .primary s = .error f { s with rest }) ∨
    (∃ t rest, s.rest = t :: rest ∧ t.kind = .identifier ∧ Rule.parse (room + 1) .primary s =
      .ok (.reference (s.nodes + 1) t) { s with rest, nodes := s.nodes + 1 }) ∨
    (∃ t rest, s.rest = t :: rest ∧ t.kind = .leftParen ∧ Rule.parse (room + 1) .primary s =
      closeGroup (Rule.parse room .expression) { s with rest }) ∨
    (NextNotIn primaryStarts s.rest ∧ Rule.parse (room + 1) .primary s =
      .error (.diagnostic (.grammatical (s.rest.headD s.ending) .expectExpression)) s) := by
  rw [Rule.parse.eq_8]
  have hcases := accept_cases primaryStarts s
  unfold primaryStarts at hcases
  rcases hcases with ⟨t, rest, hs, hk, ha⟩ | ⟨h, ha⟩
  · rw [bind_of_ok ha]
    simp only [List.mem_cons, List.not_mem_nil, or_false] at hk
    -- the kinds in the order of `primaryStarts`; only a number can fail once it is taken
    rcases hk with hk | hk | hk | hk | hk | hk | hk
    · exact .inl ⟨t, rest, _, hs, .isFalse hk, by simp only [hk]; rfl⟩
    · exact .inl ⟨t, rest, _, hs, .isTrue hk, by simp only [hk]; rfl⟩
    · exact .inl ⟨t, rest, _, hs, .isNil hk, by simp only [hk]; rfl⟩
    · simp only [hk]
      cases hv : numberValue t with
      | ok v => exact .inl ⟨t, rest, v, hs, .number hk hv, rfl⟩
      | error f => exact .inr (.inl ⟨t, rest, f, hs, hk, hv, rfl⟩)
    · exact .inl ⟨t, rest, _, hs, .string hk, by simp only [hk]; rfl⟩
    · exact .inr (.inr (.inl ⟨t, rest, hs, hk, by simp only [hk]; rfl⟩))
    · exact .inr (.inr (.inr (.inl ⟨t, rest, hs, hk, by simp only [hk]; rfl⟩)))
  · rw [bind_of_ok ha]
    exact .inr (.inr (.inr (.inr ⟨h, rfl⟩)))

/-! ### The parser only goes forward -/

/-- A later state of the parser: tokens are taken from the front, complaints are added behind. -/
structure ParseState.Extends (s s' : ParseState) : Prop where
  ending : s'.ending = s.ending
  rest : s'.rest <:+ s.rest
  errors : s.errors <+: s'.errors

namespace ParseState.Extends

theorem refl (s : ParseState) : s.Extends s :=
  ⟨rfl, List.suffix_refl _, List.prefix_refl _⟩

theorem trans {s t u : ParseState} (h : s.Extends t) (h' : t.Extends u) : s.Extends u :=
  ⟨h'.ending.trans h.ending, h'.rest.trans h.rest, h.errors.trans h'.errors⟩

/-- Taking the next token. -/
theorem take {s : ParseState} {t : Token} {rest : List Token} (h : s.rest = t :: rest)
    (nodes : Nat) : s.Extends { s with rest, nodes } :=
  ⟨rfl, h ▸ List.suffix_cons t rest, List.prefix_refl _⟩

/-- No complaint was added on the way to a state in which none was. -/
theorem errors_eq {s t u : ParseState} (h : s.Extends t) (h' : t.Extends u)
    (he : u.errors = s.errors) : t.errors = s.errors := by
  -- the complaints of `t` lie between those of `s` and those of `u`, which are as many
  have hle : t.errors.length ≤ s.errors.length := by
    rw [← he]
    exact h'.errors.length_le
  exact (h.errors.eq_of_length (Nat.le_antisymm h.errors.length_le hle)).symm

end ParseState.Extends

/-- Every number token among the tokens denotes a number. -/
def Readable (tokens : List Token) : Prop :=
  ∀ t ∈ tokens, t.kind = .number → ∃ v, numberValue t = .ok v

theorem Readable.of_suffix {tokens tokens' : List Token} (h : Readable tokens)
    (hs : tokens' <:+ tokens) : Readable tokens' :=
  fun t ht => h t (hs.subset ht)

/-- A step that only goes forward, and that fails on readable tokens only in ways from which the
parser recovers. -/
def Forward {α : Type} (m : Parse α) : Prop :=
  ∀ s, Ensures m s (fun _ s' => s.Extends s')
    (fun f s' => s.Extends s' ∧ (Readable s.rest → f.Recoverable))

namespace Forward

variable {α β : Type} {m : Parse α}

theorem ok (h : Forward m) {s s' : ParseState} {a : α} (hm : m s = .ok a s') : s.Extends s' :=
  (h s).ok hm

theorem pure (a : α) : Forward (Pure.pure a : Parse α) :=
  fun s => Ensures.pure (.refl s)

theorem throw {f : Fault} (h : f.Recoverable) : Forward (MonadExcept.throw f : Parse α) :=
  fun s => Ensures.throw ⟨.refl s, fun _ => h⟩

theorem bind {k : α → Parse β} (h : Forward m) (hk : ∀ a, Forward (k a)) : Forward (m >>= k) := by
  intro s
  refine Ensures.bind ((h s).mono ?_ fun _ _ => id)
  intro a s' hs
  refine (hk a s').mono (fun _ _ hs' => hs.trans hs') ?_
  rintro f s'' ⟨hs', hf⟩
  exact ⟨hs.trans hs', fun hr => hf (hr.of_suffix hs.rest)⟩

theorem map {g : α → β} (h : Forward m) : Forward (g <$> m) :=
  fun s => Ensures.map (h s)

end Forward

theorem forward_accept (kinds : List Kind) : Forward (accept kinds) := by
  intro s
  refine .of_outcomes (fun o s' ha => ?_) (fun f s' ha => ?_)
  · rcases accept_cases kinds s with ⟨t, rest, hs, -, h⟩ | ⟨-, h⟩
    · rw [h] at ha
      cases ha
      exact .take hs s.nodes
    · rw [h] at ha
      cases ha
      exact .refl s
  · rcases accept_cases kinds s with ⟨t, rest, -, -, h⟩ | ⟨-, h⟩ <;> (rw [h] at ha; cases ha)

theorem forward_complain {α : Type} (c : Complaint) : Forward (complain c : Parse α) :=
  fun s => show s.Extends s ∧ _ from ⟨.refl s, fun _ => .inr ⟨_, rfl⟩⟩

theorem forward_expect (kind : Kind) (c : Complaint) : Forward (expect kind c) := by
  refine Forward.bind (forward_accept _) ?_
  rintro (_ | t)
  · exact forward_complain c
  · exact .pure t

theorem forward_record (d : Diagnostic) : Forward (record d) :=
  fun s => show s.Extends _ from ⟨rfl, List.suffix_refl _, List.prefix_append _ _⟩

theorem forward_newNode : Forward newNode :=
  fun s => show s.Extends _ from ⟨rfl, List.suffix_refl _, List.prefix_refl _⟩

theorem forward_assignTo (target : Expr) (equals : Token) (value : Expr) :
    Forward (assignTo target equals value) := by
  cases target with
  | reference _ name => exact forward_newNode.bind fun _ => .pure _
  | _ => exact (forward_record _).bind fun _ => .pure value

theorem forward_foldOperators {operators : List Kind} {operand : Parse Expr}
    (h : Forward operand) (rounds : Nat) (left : Expr) :
    Forward (foldOperators operators operand rounds left) := by
  induction rounds generalizing left with
  | zero => exact .pure left
  | succ rounds ih =>
    refine Forward.bind (forward_accept operators) ?_
    rintro (_ | operator)
    · exact .pure left
    · exact h.bind fun right => forward_newNode.bind fun _ => ih _

theorem forward_leftAssoc {operators : List Kind} {operand : Parse Expr} (h : Forward operand) :
    Forward (leftAssoc operators operand) := by
  refine h.bind fun left => ?_
  intro s
  exact forward_foldOperators h s.rest.length left s

theorem forward_closeGroup {inner : Parse Expr} (h : Forward inner) : Forward (closeGroup inner) :=
  h.bind fun _ => (forward_expect _ _).bind fun _ => forward_newNode.bind fun _ => .pure _

/-- Parsing by a rule only goes forward. -/
theorem forward_parse (room : Nat) (r : Rule) : Forward (Rule.parse room r) := by
  induction room, r using Rule.parse_induction with
  | expression room ih => exact ih
  | assignment room ih₁ ih₂ =>
    rw [parse_assignment_eq]
    refine ih₁.bind fun target => (forward_accept _).bind ?_
    rintro (_ | equals)
    · exact .pure target
    · exact ih₂.bind fun value => forward_assignTo target equals value
  | level room r operators q _ heq ih =>
    rw [heq]
    exact forward_leftAssoc ih
  | unary room ih₁ ih₂ =>
    refine (forward_accept _).bind ?_
    rintro (_ | operator)
    · exact ih₂
    · exact ih₁.bind fun _ => forward_newNode.bind fun _ => .pure _
  | primary room ih =>
    intro s
    rcases parse_primary_cases room s with ⟨t, rest, v, hs, -, h⟩ | ⟨t, rest, f, hs, hk, hv, h⟩ |
      ⟨t, rest, hs, -, h⟩ | ⟨t, rest, hs, -, h⟩ | ⟨-, h⟩
    · exact .of_ok h (.take hs _)
    · -- this is the one fault that is not recoverable, and readable tokens rule it out
      refine .of_error h ⟨.take hs _, fun hr => ?_⟩
      obtain ⟨v, hv'⟩ := hr t (hs ▸ List.mem_cons_self) hk
      rw [hv] at hv'
      cases hv'
    · exact .of_ok h (.take hs _)
    · refine (Ensures.congr h).2 ((forward_closeGroup ih _).mono ?_ ?_)
      · intro e s' hs'
        exact (ParseState.Extends.take hs _).trans hs'
      · rintro f s' ⟨hs', hf⟩
        exact ⟨(ParseState.Extends.take hs _).trans hs',
          fun hr => hf (hr.of_suffix (hs ▸ List.suffix_cons t rest))⟩
    · exact .of_error h ⟨.refl s, fun _ => .inr ⟨_, rfl⟩⟩
  | noRoom room r heq =>
    rw [heq]
    exact .throw (.inl rfl)

/-! ### The bound of the loop over operators -/

theorem foldOperators_stop {operators : List Kind} {s : ParseState}
    (h : NextNotIn operators s.rest) (operand : Parse Expr) (n : Nat) (left : Expr) :
    foldOperators operators operand n left s = .ok left s := by
  cases n with
  | zero => rfl
  | succ n =>
    rw [foldOperators.eq_2, bind_of_ok (accept_of_notMem h)]
    rfl

theorem foldOperators_go_on {operators : List Kind} {s : ParseState} {t : Token}
    {rest : List Token} (hs : s.rest = t :: rest) (hk : t.kind ∈ operators) (operand : Parse Expr)
    (n : Nat) (left : Expr) :
    foldOperators operators operand (n + 1) left s =
      (do
        let right ← operand
        foldOperators operators operand n (.binary (← newNode) left t right) : Parse Expr)
        { s with rest } := by
  rw [foldOperators.eq_2, bind_of_ok (accept_of_mem hs hk)]

/-- One more round than there are tokens changes nothing. -/
theorem foldOperators_succ {operators : List Kind} {operand : Parse Expr} (h : Forward operand)
    {n : Nat} {left : Expr} {s : ParseState} (hn : s.rest.length ≤ n) :
    foldOperators operators operand (n + 1) left s = foldOperators operators operand n left s := by
  induction n generalizing left s with
  | zero =>
    have hnil : s.rest = [] := List.length_eq_zero_iff.1 (Nat.le_zero.1 hn)
    have hnext : NextNotIn operators s.rest := hnil ▸ nextNotIn_nil operators
    rw [foldOperators_stop hnext, foldOperators_stop hnext]
  | succ n ih =>
    rcases accept_cases operators s with ⟨t, rest, hs, hk, -⟩ | ⟨hnext, -⟩
    · rw [foldOperators_go_on hs hk, foldOperators_go_on hs hk]
      rw [hs, List.length_cons] at hn
      cases hop : operand { s with rest } with
      | ok right u =>
        -- the operator is gone and the operand gives no token back
        have hlen := (h.ok hop).rest.length_le
        rw [bind_of_ok hop, bind_of_ok hop, bind_of_ok (newNode_apply u),
          bind_of_ok (newNode_apply u)]
        exact ih (Nat.le_trans hlen (Nat.le_of_succ_le_succ hn))
      | error f u => rw [bind_of_error hop, bind_of_error hop]
    · rw [foldOperators_stop hnext, foldOperators_stop hnext]

/-- The number of tokens left is as good a bound on the rounds as any larger one. -/
theorem foldOperators_eq {operators : List Kind} {operand : Parse Expr} (h : Forward operand)
    {n : Nat} {left : Expr} {s : ParseState} (hn : s.rest.length ≤ n) :
    foldOperators operators operand n left s =
      foldOperators operators operand s.rest.length left s := by
  induction hn with
  | refl => rfl
  | step hn ih => rw [foldOperators_succ h hn, ih]

/-- Operands and operators, with any bound on the rounds that is large enough. -/
theorem leftAssoc_apply {operators : List Kind} {operand : Parse Expr} (h : Forward operand)
    {n : Nat} {s : ParseState} (hn : s.rest.length ≤ n) :
    leftAssoc operators operand s =
      (do let left ← operand; foldOperators operators operand n left : Parse Expr) s := by
  unfold leftAssoc
  cases hop : operand s with
  | ok left t =>
    have hlen := (h.ok hop).rest.length_le
    rw [bind_of_ok hop, bind_of_ok hop]
    exact (foldOperators_eq h (Nat.le_trans hlen hn)).symm
  | error f t => rw [bind_of_error hop, bind_of_error hop]

end LoxTree
