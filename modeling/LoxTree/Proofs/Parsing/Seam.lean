import LoxTree.Proofs.Parsing.Statements
import LoxTree.Proofs.Relabel
import Mathlib.Data.List.Basic

/-!
# Programs one behind the other

A program that is empty or ends with a semicolon and a program behind it are parsed as if each stood
alone, however broken they are: no rule takes a semicolon in the middle of a statement, so whatever
goes wrong before the last semicolon of the first program is found and recovered from there.

The parser is run twice, on the first program alone and on the first program with other tokens
behind it. `Aligned` relates the two states, and `Guarded` says why the tokens behind make no
difference: a semicolon is still to come, or there are no tokens behind. The same relation covers a
program whose tokens stand on other lines and whose nodes have other numbers, as the second program
does behind the first.

* `agree_parse`, `agree_statement`: rules and statements do the same in aligned states.
* `resume_append`: recovery stops at the seam at the latest.
* `ProgramRun.aligned`: a whole program is parsed up to the seam.
* `Program.ofTokens_append`: the two programs one behind the other, with the second on any lines.
* `Program.ofTokens_mapLine`: tokens on other lines make up the same program on other lines.
* `ofTokens_append_of_semicolon`: the same without a change of lines.
-/

namespace LoxTree

open Step Parse

/-- The second state is the first with its tokens on other lines and `tail` behind them, the numbers
of its nodes raised by `k`, and the complaints `base` before its own. -/
structure Aligned (g : Int → Int) (k : Nat) (base : List Diagnostic) (tail : List Token)
    (s s' : ParseState) : Prop where
  rest : s'.rest = s.rest.map (Token.mapLine g) ++ tail
  errors : s'.errors = base ++ s.errors.map (Diagnostic.mapLine g)
  nodes : s'.nodes = s.nodes + k

/-- A semicolon is still to come, or nothing stands behind the tokens but the same end marker. -/
def Guarded (g : Int → Int) (tail : List Token) (s s' : ParseState) : Prop :=
  (∃ semi ∈ s.rest.getLast?, semi.kind = .semicolon) ∨
    (tail = [] ∧ s'.ending = s.ending.mapLine g)

/-- Aligned states in which the parser cannot reach the tokens behind. -/
def Before (g : Int → Int) (k : Nat) (base : List Diagnostic) (tail : List Token)
    (s s' : ParseState) : Prop :=
  Aligned g k base tail s s' ∧ Guarded g tail s s'

/-- Aligned states between two declarations: the parser is at the seam or before it. -/
def Within (g : Int → Int) (k : Nat) (base : List Diagnostic) (tail : List Token)
    (s s' : ParseState) : Prop :=
  Aligned g k base tail s s' ∧ (s.rest = [] ∨ Guarded g tail s s')

section

variable {g : Int → Int} {k : Nat} {base : List Diagnostic} {tail : List Token}

namespace Aligned

variable {s s' : ParseState}

/-- One more complaint on both sides. -/
theorem errors_concat (h : Aligned g k base tail s s') (d : Diagnostic) :
    s'.errors ++ [d.mapLine g] = base ++ (s.errors ++ [d]).map (Diagnostic.mapLine g) := by
  rw [h.errors, List.map_append, List.append_assoc]
  rfl

/-- One more node on both sides. -/
theorem nodes_succ (h : Aligned g k base tail s s') : s'.nodes + 1 = s.nodes + 1 + k := by
  rw [h.nodes]
  omega

end Aligned

/-! ### Small steps -/

theorem Before.peek_eq {s s' : ParseState} (h : Before g k base tail s s') :
    s'.rest.headD s'.ending = (s.rest.headD s.ending).mapLine g := by
  obtain ⟨ha, hg⟩ := h
  rw [ha.rest]
  cases hs : s.rest with
  | cons t rest => rfl
  | nil =>
    rcases hg with ⟨semi, hsemi, -⟩ | ⟨rfl, hend⟩
    · rw [hs] at hsemi
      cases hsemi
    · exact hend

/-- The next tokens of aligned states are of the same kind, and taking one keeps the states aligned.
Only a semicolon can be the last token before the seam. -/
theorem Before.accept_cases {s s' : ParseState} (h : Before g k base tail s s')
    (kinds : List Kind) :
    (∃ t rest rest', s.rest = t :: rest ∧ s'.rest = t.mapLine g :: rest' ∧ t.kind ∈ kinds ∧
      Aligned g k base tail { s with rest } { s' with rest := rest' } ∧
      (t.kind ≠ .semicolon ∨ rest ≠ [] →
        Guarded g tail { s with rest } { s' with rest := rest' })) ∨
    (NextNotIn kinds s.rest ∧ NextNotIn kinds s'.rest) := by
  obtain ⟨ha, hg⟩ := h
  cases hs : s.rest with
  | nil =>
    have hs' : s'.rest = [] := by
      rcases hg with ⟨semi, hsemi, -⟩ | ⟨rfl, -⟩
      · rw [hs] at hsemi
        cases hsemi
      · rw [ha.rest, hs]
        rfl
    rw [hs']
    exact .inr ⟨nextNotIn_nil kinds, nextNotIn_nil kinds⟩
  | cons t rest =>
    have hs' : s'.rest = t.mapLine g :: (rest.map (Token.mapLine g) ++ tail) := by
      rw [ha.rest, hs]
      rfl
    by_cases hk : t.kind ∈ kinds
    · refine .inl ⟨t, rest, _, rfl, hs', hk, ⟨rfl, ha.errors, ha.nodes⟩, fun hnot => ?_⟩
      -- the semicolon to come is not the token that was taken
      rcases hg with ⟨semi, hlast, hkind⟩ | hend
      · rw [hs] at hlast
        cases rest with
        | nil =>
          cases hlast
          rcases hnot with hsemi | hne
          · exact absurd hkind hsemi
          · exact absurd rfl hne
        | cons u rest =>
          rw [List.getLast?_cons_cons] at hlast
          exact .inl ⟨semi, hlast, hkind⟩
      · exact .inr hend
    · rw [hs']
      exact .inr ⟨nextNotIn_cons hk, nextNotIn_cons hk⟩

/-- Two steps that do the same in aligned states, up to lines and numbers. -/
def AgreeBefore (g : Int → Int) (k : Nat) (base : List Diagnostic) (tail : List Token)
    {α β : Type} (V : α → β → Prop) (m : Parse α) (n : Parse β) : Prop :=
  Agree (Before g k base tail) (fun a b s s' => V a b ∧ Before g k base tail s s')
    (fun f f' s s' => f' = f.mapLine g ∧ Before g k base tail s s') m n

namespace AgreeBefore

variable {α β γ δ : Type} {V : α → β → Prop} {W : γ → δ → Prop} {m : Parse α} {n : Parse β}

theorem pure {a : α} {b : β} (h : V a b) :
    AgreeBefore g k base tail V (Pure.pure a) (Pure.pure b) :=
  fun _ _ hb => ⟨h, hb⟩

theorem throw {f f' : Fault} (h : f' = f.mapLine g) :
    AgreeBefore g k base tail V (MonadExcept.throw f) (MonadExcept.throw f') :=
  fun _ _ hb => ⟨h, hb⟩

/-- Steps that agree, followed by steps that agree in whatever way. -/
theorem andThen {X : γ → δ → ParseState → ParseState → Prop} {l : α → Parse γ} {l' : β → Parse δ}
    (h : AgreeBefore g k base tail V m n)
    (hl : ∀ a b, V a b → Agree (Before g k base tail) X
      (fun f f' s s' => f' = f.mapLine g ∧ Before g k base tail s s') (l a) (l' b)) :
    Agree (Before g k base tail) X
      (fun f f' s s' => f' = f.mapLine g ∧ Before g k base tail s s') (m >>= l) (n >>= l') :=
  Agree.bind h fun a b s s' ⟨hv, hb⟩ => hl a b hv s s' hb

theorem bind {l : α → Parse γ} {l' : β → Parse δ} (h : AgreeBefore g k base tail V m n)
    (hl : ∀ a b, V a b → AgreeBefore g k base tail W (l a) (l' b)) :
    AgreeBefore g k base tail W (m >>= l) (n >>= l') :=
  h.andThen hl

theorem map {f : α → γ} {f' : β → δ} (h : AgreeBefore g k base tail V m n)
    (hf : ∀ a b, V a b → W (f a) (f' b)) : AgreeBefore g k base tail W (f <$> m) (f' <$> n) :=
  Agree.map (Agree.mono h (fun _ _ hb => hb) fun a b _ _ ⟨hv, hb⟩ => ⟨hf a b hv, hb⟩)

end AgreeBefore

theorem agree_accept {kinds : List Kind} (hkinds : .semicolon ∉ kinds) :
    AgreeBefore g k base tail (fun o o' => o' = o.map (Token.mapLine g)) (accept kinds)
      (accept kinds) := by
  refine Agree.of_ok fun s s' h => ?_
  rcases h.accept_cases kinds with ⟨t, rest, rest', hs, hs', hk, ha, hg⟩ | ⟨hs, hs'⟩
  · have hsemi : t.kind ≠ .semicolon := fun heq => hkinds (heq ▸ hk)
    exact ⟨_, _, _, _, accept_of_mem hs hk, accept_of_mem hs' hk, rfl, ha, hg (.inl hsemi)⟩
  · exact ⟨_, _, _, _, accept_of_notMem hs, accept_of_notMem hs', rfl, h⟩

theorem agree_complain {α β : Type} {V : α → β → Prop} (c : Complaint) :
    AgreeBefore g k base tail V (complain c) (complain c) := by
  intro s s' h
  rw [complain_apply, complain_apply]
  refine ⟨?_, h⟩
  rw [h.peek_eq]
  rfl

theorem agree_expect {kind : Kind} (hkind : kind ≠ .semicolon) (c : Complaint) :
    AgreeBefore g k base tail (fun t t' => t' = t.mapLine g) (expect kind c) (expect kind c) := by
  refine (agree_accept (by simpa using hkind.symm)).bind ?_
  rintro (_ | t) _ rfl
  · exact agree_complain c
  · exact .pure rfl

theorem agree_newNode :
    AgreeBefore g k base tail (fun n n' => n' = n + k) newNode newNode := by
  rintro s s' ⟨ha, hg⟩
  exact ⟨ha.nodes_succ, ⟨ha.rest, ha.errors, ha.nodes_succ⟩, hg⟩

theorem agree_record (d : Diagnostic) :
    AgreeBefore g k base tail (fun _ _ => True) (record d) (record (d.mapLine g)) := by
  rintro s s' ⟨ha, hg⟩
  exact ⟨trivial, ⟨ha.rest, ha.errors_concat d, ha.nodes⟩, hg⟩

/-! ### Rules -/

/-- An expression is read as the same one, on other lines and with other numbers. -/
abbrev AgreeExpr (g : Int → Int) (k : Nat) (base : List Diagnostic) (tail : List Token)
    (m : Parse Expr) : Prop :=
  AgreeBefore g k base tail (fun e e' => e' = e.relabel g k) m m

theorem agree_literal (v : Value) : AgreeExpr g k base tail (literal v) := by
  refine agree_newNode.bind ?_
  rintro n _ rfl
  exact .pure rfl

theorem agree_assignTo (target : Expr) (equals : Token) (value : Expr) :
    AgreeBefore g k base tail (fun e e' => e' = e.relabel g k) (assignTo target equals value)
      (assignTo (target.relabel g k) (equals.mapLine g) (value.relabel g k)) := by
  cases target with
  | reference n name =>
    refine agree_newNode.bind ?_
    rintro n _ rfl
    exact .pure rfl
  | _ => exact (agree_record (.grammatical equals .invalidTarget)).bind fun _ _ _ => .pure rfl

theorem agree_foldOperators {operators : List Kind} {operand : Parse Expr}
    (hops : .semicolon ∉ operators) (h : AgreeExpr g k base tail operand) (rounds : Nat)
    (left : Expr) :
    AgreeBefore g k base tail (fun e e' => e' = e.relabel g k)
      (foldOperators operators operand rounds left)
      (foldOperators operators operand rounds (left.relabel g k)) := by
  induction rounds generalizing left with
  | zero => exact .pure rfl
  | succ rounds ih =>
    refine (agree_accept hops).bind ?_
    rintro (_ | operator) _ rfl
    · exact .pure rfl
    · refine h.bind ?_
      rintro right _ rfl
      refine agree_newNode.bind ?_
      rintro n _ rfl
      exact ih _

theorem agree_leftAssoc {operators : List Kind} {operand : Parse Expr}
    (hops : .semicolon ∉ operators) (hfwd : Forward operand) (h : AgreeExpr g k base tail operand) :
    AgreeExpr g k base tail (leftAssoc operators operand) := by
  intro s s' hb
  -- the two loops have bounds of their own; a common one is as good
  have hle : s.rest.length ≤ s.rest.length + s'.rest.length := Nat.le_add_right _ _
  have hle' : s'.rest.length ≤ s.rest.length + s'.rest.length := Nat.le_add_left _ _
  rw [leftAssoc_apply hfwd hle, leftAssoc_apply hfwd hle']
  refine AgreeBefore.bind h ?_ s s' hb
  rintro left _ rfl
  exact agree_foldOperators hops h _ left

theorem agree_closeGroup {inner : Parse Expr} (h : AgreeExpr g k base tail inner) :
    AgreeExpr g k base tail (closeGroup inner) := by
  refine h.bind ?_
  rintro e _ rfl
  refine (agree_expect (by decide) _).bind ?_
  rintro closing _ rfl
  refine agree_newNode.bind ?_
  rintro n _ rfl
  exact .pure rfl

theorem numberValue_mapLine (t : Token) : numberValue (t.mapLine g) = numberValue t :=
  rfl

/-- A fault about a number is not about a line. -/
theorem mapLine_of_numberValue {t : Token} {f : Fault} (h : numberValue t = .error f) :
    f.mapLine g = f := by
  unfold numberValue at h
  split at h
  · unfold Value.ofNumeral at h
    split at h
    · cases h
    · cases h
      rfl
  · cases h
    rfl

/-- Rules read aligned tokens as the same expression. -/
theorem agree_parse (room : Nat) (r : Rule) : AgreeExpr g k base tail (Rule.parse room r) := by
  induction room, r using Rule.parse_induction with
  | expression room ih => exact ih
  | assignment room ih₁ ih₂ =>
    rw [parse_assignment_eq]
    refine ih₁.bind ?_
    rintro target _ rfl
    refine (agree_accept (by decide)).bind ?_
    rintro (_ | equals) _ rfl
    · exact .pure rfl
    · refine ih₂.bind ?_
      rintro value _ rfl
      exact agree_assignTo target equals value
  | level room r operators q hl heq ih =>
    -- no level of operators takes a semicolon
    have hops : Kind.semicolon ∉ operators := by cases hl <;> decide
    rw [heq]
    exact agree_leftAssoc hops (forward_parse room q) ih
  | unary room ih₁ ih₂ =>
    refine (agree_accept (by decide)).bind ?_
    rintro (_ | operator) _ rfl
    · exact ih₂
    · refine ih₁.bind ?_
      rintro operand _ rfl
      refine agree_newNode.bind ?_
      rintro n _ rfl
      exact .pure rfl
  | primary room ih =>
    rw [Rule.parse.eq_8]
    refine (agree_accept (by decide)).bind ?_
    rintro (_ | t) _ rfl
    · exact agree_complain _
    · simp only [Option.map_some, Token.kind_mapLine, numberValue_mapLine]
      split
      · exact agree_literal _
      · exact agree_literal _
      · exact agree_literal _
      · cases hv : numberValue t with
        | ok v => exact agree_literal v
        | error f => exact .throw (mapLine_of_numberValue hv).symm
      · exact agree_literal _
      · refine agree_newNode.bind ?_
        rintro n _ rfl
        exact .pure rfl
      · exact agree_closeGroup ih
  | noRoom room r heq =>
    rw [heq]
    exact .throw rfl

/-! ### Statements -/

/-- Two statements that end well in aligned states, or fail at the same token. -/
abbrev AgreeStmt (g : Int → Int) (k : Nat) (base : List Diagnostic) (tail : List Token)
    (m n : Parse Stmt) : Prop :=
  Agree (Before g k base tail)
    (fun stmt stmt' s s' => stmt' = stmt.relabel g k ∧ Within g k base tail s s')
    (fun f f' s s' => f' = f.mapLine g ∧ Before g k base tail s s') m n

/-- The last steps of a statement: its semicolon may be the last token before the seam. -/
theorem agree_finish {f f' : Nat → Stmt} (c : Complaint)
    (hf : ∀ n, f' (n + k) = (f n).relabel g k) :
    AgreeStmt g k base tail (do let _ ← expect .semicolon c; return f (← newNode))
      (do let _ ← expect .semicolon c; return f' (← newNode)) := by
  intro s s' h
  rcases h.accept_cases [.semicolon] with ⟨t, rest, rest', hs, hs', hk, ha, hg⟩ | ⟨hs, hs'⟩
  · have hk : t.kind = .semicolon := List.mem_singleton.1 hk
    have hexpect : expect .semicolon c s = .ok t { s with rest } := expect_of_kind hs hk c
    have hexpect' : expect .semicolon c s' = .ok (t.mapLine g) { s' with rest := rest' } :=
      expect_of_kind hs' hk c
    rw [bind_of_ok hexpect, bind_of_ok hexpect']
    have hnodes := h.1.nodes_succ
    refine ⟨(congrArg f' hnodes).trans (hf _), ⟨ha.rest, ha.errors, hnodes⟩, ?_⟩
    -- this is the only place where the seam can be reached
    by_cases hnil : rest = []
    · exact .inl hnil
    · exact .inr (hg (.inr hnil))
  · rw [bind_of_error (expect_of_notMem hs c), bind_of_error (expect_of_notMem hs' c), h.peek_eq]
    exact ⟨rfl, h⟩

theorem agree_varDeclaration (room : Nat) :
    AgreeStmt g k base tail (varDeclaration room) (varDeclaration room) := by
  refine (agree_expect (by decide) _).andThen ?_
  rintro name _ rfl
  refine (agree_accept (by decide)).andThen ?_
  rintro (_ | equals) _ rfl
  · exact agree_finish _ fun _ => rfl
  · have hsome : AgreeBefore g k base tail (fun e? e?' => e?' = e?.map (Expr.relabel g k))
        (some <$> Rule.parse room .expression) (some <$> Rule.parse room .expression) :=
      (agree_parse room .expression).map fun e e' he => congrArg some he
    refine hsome.andThen ?_
    rintro e? _ rfl
    exact agree_finish _ fun _ => rfl

theorem agree_printStatement (room : Nat) :
    AgreeStmt g k base tail (printStatement room) (printStatement room) := by
  refine (agree_parse room .expression).andThen ?_
  rintro e _ rfl
  exact agree_finish _ fun _ => rfl

theorem agree_expressionStatement (room : Nat) :
    AgreeStmt g k base tail (expressionStatement room) (expressionStatement room) := by
  refine (agree_parse room .expression).andThen ?_
  rintro e _ rfl
  exact agree_finish _ fun _ => rfl

/-- Aligned tokens are read as the same statement. -/
theorem agree_statement (room : Nat) :
    AgreeStmt g k base tail (statement room) (statement room) := by
  refine (agree_accept (by decide)).andThen ?_
  rintro (_ | var) _ rfl
  · refine (agree_accept (by decide)).andThen ?_
    rintro (_ | print) _ rfl
    · exact agree_expressionStatement room
    · exact agree_printStatement room
  · exact agree_varDeclaration room

/-! ### Recovery -/

theorem resumeAfter_map (kind : Kind) (tokens : List Token) :
    resumeAfter kind (tokens.map (Token.mapLine g)) =
      (resumeAfter kind tokens).map (Token.mapLine g) := by
  induction tokens generalizing kind with
  | nil => rfl
  | cons t rest ih =>
    rw [List.map_cons]
    unfold resumeAfter
    rw [Token.kind_mapLine]
    split
    · rfl
    · exact ih t.kind

/-- Tokens that are skipped up to a semicolon are skipped the same with others behind. -/
theorem resumeAfter_append {kind : Kind} {tokens : List Token}
    (hnil : tokens = [] → kind = .semicolon)
    (hlast : ∀ semi ∈ tokens.getLast?, semi.kind = .semicolon) (tail : List Token) :
    resumeAfter kind (tokens ++ tail) = resumeAfter kind tokens ++ tail := by
  induction tokens generalizing kind with
  | nil =>
    rw [hnil rfl]
    cases tail <;> rfl
  | cons t rest ih =>
    rw [List.cons_append]
    unfold resumeAfter
    split
    · rfl
    · refine ih ?_ fun semi hsemi => hlast semi (List.mem_getLast?_cons hsemi)
      rintro rfl
      exact hlast t rfl

/-- Recovery stops at the seam at the latest. -/
theorem resume_append {tokens : List Token} {semi : Token} (hlast : semi ∈ tokens.getLast?)
    (hsemi : semi.kind = .semicolon) (tail : List Token) :
    resume (tokens.map (Token.mapLine g) ++ tail) =
      (resume tokens).map (Token.mapLine g) ++ tail := by
  have hkind : ∀ u ∈ tokens.getLast?, u.kind = .semicolon := by
    intro u hu
    rw [Option.mem_unique hu hlast]
    exact hsemi
  cases tokens with
  | nil => cases hlast
  | cons t rest =>
    show resumeAfter t.kind (rest.map (Token.mapLine g) ++ tail) =
      (resumeAfter t.kind rest).map (Token.mapLine g) ++ tail
    rw [resumeAfter_append, resumeAfter_map]
    · intro hnil
      rw [List.map_eq_nil_iff.1 hnil] at hkind
      exact hkind t rfl
    · intro u hu
      rw [List.getLast?_map] at hu
      obtain ⟨v, hv, rfl⟩ := Option.map_eq_some_iff.1 hu
      exact hkind v (List.mem_getLast?_cons hv)

/-- What is left after recovery ends as what was left before. -/
theorem getLast?_resume {tokens : List Token} (h : resume tokens ≠ []) :
    (resume tokens).getLast? = tokens.getLast? := by
  obtain ⟨skipped, hskipped⟩ := resume_suffix tokens
  have hlast : (skipped ++ resume tokens).getLast? = (resume tokens).getLast? := by
    rw [List.getLast?_append, List.getLast?_eq_some_getLast h]
    rfl
  rw [hskipped] at hlast
  exact hlast.symm

theorem resume_map (tokens : List Token) :
    resume (tokens.map (Token.mapLine g)) = (resume tokens).map (Token.mapLine g) := by
  cases tokens with
  | nil => rfl
  | cons t rest => exact resumeAfter_map t.kind rest

theorem Before.recover {s s' : ParseState} (h : Before g k base tail s s') (d : Diagnostic) :
    Within g k base tail (s.recover d) (s'.recover (d.mapLine g)) := by
  obtain ⟨ha, hg⟩ := h
  have herrors : (s'.recover (d.mapLine g)).errors =
      base ++ (s.recover d).errors.map (Diagnostic.mapLine g) := ha.errors_concat d
  rcases hg with ⟨semi, hlast, hkind⟩ | ⟨rfl, hend⟩
  · refine ⟨⟨?_, herrors, ha.nodes⟩, ?_⟩
    · show resume s'.rest = (resume s.rest).map (Token.mapLine g) ++ tail
      rw [ha.rest, resume_append hlast hkind]
    · -- what is left still ends with the semicolon, unless nothing is left
      by_cases hnil : resume s.rest = []
      · exact .inl hnil
      · have hlast : semi ∈ (resume s.rest).getLast? := by
          rw [getLast?_resume hnil]
          exact hlast
        exact .inr (.inl ⟨semi, hlast, hkind⟩)
  · refine ⟨⟨?_, herrors, ha.nodes⟩, .inr (.inr ⟨rfl, hend⟩)⟩
    show resume s'.rest = (resume s.rest).map (Token.mapLine g) ++ []
    rw [ha.rest, List.append_nil, List.append_nil, resume_map]

/-- A declaration that fails in aligned states leaves aligned states. -/
theorem agree_declaration (room : Nat) :
    Agree (Before g k base tail)
      (fun o o' s s' => o' = o.map (Stmt.relabel g k) ∧ Within g k base tail s s')
      (fun f f' s s' => f' = f.mapLine g ∧ Before g k base tail s s') (declaration room)
      (declaration room) := by
  intro s s' h
  cases hs : statement room s with
  | ok stmt t =>
    obtain ⟨_, t', hs', rfl, hw⟩ := (agree_statement room).ok h hs
    rw [declaration_of_ok hs, declaration_of_ok hs']
    exact ⟨rfl, hw⟩
  | error f t =>
    obtain ⟨_, t', hs', rfl, hb⟩ := (agree_statement room).error h hs
    rw [declaration_of_error hs, declaration_of_error hs']
    cases f with
    | diagnostic d => exact ⟨rfl, hb.recover d⟩
    | tooDeep =>
      refine ⟨rfl, ?_⟩
      rw [hb.peek_eq]
      exact hb.recover _
    | _ => exact ⟨rfl, hb⟩

/-! ### Whole programs -/

theorem ProgramRun.rest_eq_nil {room : Nat} {s u : ParseState} {stmts : List Stmt}
    (h : ProgramRun room s stmts u) : u.rest = [] := by
  induction h with
  | done hnil => exact hnil
  | next _ _ _ ih => exact ih

/-- A program is parsed up to the seam, and then what stands behind it. -/
theorem ProgramRun.aligned {room : Nat} {s s' u : ParseState} {stmts : List Stmt}
    (h : ProgramRun room s stmts u) (hw : Within g k base tail s s') :
    ∃ u', Aligned g k base tail u u' ∧ u'.ending = s'.ending ∧
      ∀ stmts' v, ProgramRun room u' stmts' v →
        ProgramRun room s' (stmts.map (Stmt.relabel g k) ++ stmts') v := by
  induction h generalizing s' with
  | done hnil => exact ⟨s', hw.1, rfl, fun _ _ hrun => hrun⟩
  | @next s t u stmt? stmts hne hd _ ih =>
    obtain ⟨ha, hg⟩ := hw
    have hb : Before g k base tail s s' := ⟨ha, hg.resolve_left hne⟩
    obtain ⟨_, t', hd', rfl, hw'⟩ := (agree_declaration room).ok hb hd
    obtain ⟨u', hu', hend, hrun⟩ := ih hw'
    have hne' : s'.rest ≠ [] := by
      rw [ha.rest]
      simp [hne]
    refine ⟨u', hu', hend.trans (extends_of_declaration hd' hne').1.ending, fun stmts' v hv => ?_⟩
    have hnext := ProgramRun.next hne' hd' (hrun stmts' v hv)
    rw [List.map_append, List.append_assoc]
    cases stmt? <;> exact hnext

theorem ScannerShaped.map {tokens : List Token} (h : ScannerShaped tokens) (g : Int → Int) :
    ScannerShaped (tokens.map (Token.mapLine g)) := by
  refine ⟨fun t ht => ?_, fun t ht => ?_⟩
  · obtain ⟨u, hu, rfl⟩ := List.mem_map.1 ht
    exact h.noEnding u hu
  · obtain ⟨u, hu, rfl⟩ := List.mem_map.1 ht
    exact h.readable u hu

theorem ScannerShaped.append {tokens tokens' : List Token} (h : ScannerShaped tokens)
    (h' : ScannerShaped tokens') : ScannerShaped (tokens ++ tokens') := by
  refine ⟨fun t ht => ?_, fun t ht => ?_⟩
  · exact (List.mem_append.1 ht).elim (h.noEnding t) (h'.noEnding t)
  · exact (List.mem_append.1 ht).elim (h.readable t) (h'.readable t)

end

/-- A program that is empty or ends with a semicolon, and behind it a second one on any lines. -/
theorem Program.ofTokens_append {ts₁ ts₂ : List Token} {end₁ end₂ : Token} (h₁ : ScannerShaped ts₁)
    (h₂ : ScannerShaped ts₂) (hend₁ : end₁.kind = .eof) (hend₂ : end₂.kind = .eof)
    (hlast : ∀ semi ∈ ts₁.getLast?, semi.kind = .semicolon) (g : Int → Int) :
    ∃ p₁ p₂ p, Program.ofTokens (ts₁ ++ [end₁]) = .ok p₁ ∧
      Program.ofTokens (ts₂ ++ [end₂]) = .ok p₂ ∧
      Program.ofTokens (ts₁ ++ (ts₂ ++ [end₂]).map (Token.mapLine g)) = .ok p ∧
      p.statements = p₁.statements ++ p₂.statements.map (Stmt.relabel g p₁.nodes) ∧
      p.errors = p₁.errors ++ p₂.errors.map (Diagnostic.mapLine g) := by
  obtain ⟨stmts₁, u₁, hrun₁, hp₁⟩ := Program.exists_run h₁ hend₁
  obtain ⟨stmts₂, u₂, hrun₂, hp₂⟩ := Program.exists_run h₂ hend₂
  -- the first program, with the second one behind it
  have hseam₁ : Within (fun l => l) 0 [] (ts₂.map (Token.mapLine g)) ⟨ts₁, end₁, 0, []⟩
      ⟨ts₁ ++ ts₂.map (Token.mapLine g), end₂.mapLine g, 0, []⟩ := by
    refine ⟨⟨?_, rfl, rfl⟩, ?_⟩
    · rw [List.map_id'' Token.mapLine_same]
    · cases hl : ts₁.getLast? with
      | none => exact .inl (List.getLast?_eq_none_iff.1 hl)
      | some semi => exact .inr (.inl ⟨semi, hl, hlast semi hl⟩)
  obtain ⟨v₁, hv₁, hvend₁, hfirst⟩ := hrun₁.aligned hseam₁
  -- the second program, behind the first one
  have hseam₂ : Within g u₁.nodes u₁.errors [] ⟨ts₂, end₂, 0, []⟩ v₁ := by
    refine ⟨⟨?_, ?_, ?_⟩, .inr (.inr ⟨rfl, hvend₁⟩)⟩
    · rw [hv₁.rest, hrun₁.rest_eq_nil]
      simp
    · rw [hv₁.errors, List.map_id'' Diagnostic.mapLine_same]
      simp
    · rw [hv₁.nodes]
      exact (Nat.zero_add _).symm
  obtain ⟨v₂, hv₂, -, hsecond⟩ := hrun₂.aligned hseam₂
  have hnil : v₂.rest = [] := by
    rw [hv₂.rest, hrun₂.rest_eq_nil]
    rfl
  have hrun := hfirst _ _ (hsecond _ _ (.done hnil))
  rw [List.map_id'' Stmt.relabel_same_zero, List.append_nil] at hrun
  have hshape : ScannerShaped (ts₁ ++ ts₂.map (Token.mapLine g)) := h₁.append (h₂.map g)
  have hend : (end₂.mapLine g).kind = .eof := hend₂
  have hp := Program.ofTokens_eq hshape hend hrun
  rw [List.append_assoc] at hp
  rw [List.map_append]
  exact ⟨_, _, _, hp₁, hp₂, hp, rfl, hv₂.errors⟩

/-- Tokens on other lines make up the same program on other lines. -/
theorem Program.ofTokens_mapLine {tokens : List Token} {ending : Token} (h : ScannerShaped tokens)
    (hend : ending.kind = .eof) (g : Int → Int) :
    ∃ p p', Program.ofTokens (tokens ++ [ending]) = .ok p ∧
      Program.ofTokens ((tokens ++ [ending]).map (Token.mapLine g)) = .ok p' ∧
      p'.statements = p.statements.map (Stmt.relabel g 0) ∧
      p'.errors = p.errors.map (Diagnostic.mapLine g) := by
  -- the program stands behind an empty one
  have hnone : ScannerShaped [] := .of_noNumber (by simp)
  obtain ⟨p₀, p, p', hp₀, hp, hp', hstmts, herrors⟩ :=
    Program.ofTokens_append hnone h (rfl : (Token.eof 1).kind = .eof) hend (by simp) g
  have hempty : p₀ = ⟨[], [], 0, 0⟩ := Except.ok.inj hp₀.symm
  subst hempty
  exact ⟨p, p', hp, hp', hstmts, herrors⟩

/-- A program that is empty or ends with a semicolon and a program behind it are parsed as if each
stood alone: to the same statements, and with the same complaints in the same order. -/
theorem ofTokens_append_of_semicolon {ts₁ ts₂ : List Token} {end₁ end₂ : Token}
    (h₁ : ScannerShaped ts₁) (h₂ : ScannerShaped ts₂) (hend₁ : end₁.kind = .eof)
    (hend₂ : end₂.kind = .eof) (hlast : ∀ semi ∈ ts₁.getLast?, semi.kind = .semicolon) :
    ∃ p₁ p₂ p, Program.ofTokens (ts₁ ++ [end₁]) = .ok p₁ ∧
      Program.ofTokens (ts₂ ++ [end₂]) = .ok p₂ ∧
      Program.ofTokens (ts₁ ++ ts₂ ++ [end₂]) = .ok p ∧
      p.statements.map Stmt.toTree =
        p₁.statements.map Stmt.toTree ++ p₂.statements.map Stmt.toTree ∧
      p.errors = p₁.errors ++ p₂.errors := by
  obtain ⟨p₁, p₂, p, hp₁, hp₂, hp, hstmts, herrors⟩ :=
    Program.ofTokens_append h₁ h₂ hend₁ hend₂ hlast (fun l => l)
  rw [List.map_id'' Token.mapLine_same, ← List.append_assoc] at hp
  rw [List.map_id'' Diagnostic.mapLine_same] at herrors
  refine ⟨p₁, p₂, p, hp₁, hp₂, hp, ?_, herrors⟩
  rw [hstmts, List.map_append, List.map_map]
  congr 1
  exact List.map_congr_left fun stmt _ => Stmt.toTree_relabel_same p₁.nodes stmt

/-- The tokens of `(a) = b; (;`, with an invalid target and an expression that breaks off. -/
def brokenTokens : List Token :=
  [⟨.leftParen, "(", none, 1⟩, ⟨.identifier, "a", none, 1⟩, ⟨.rightParen, ")", none, 1⟩,
    ⟨.equal, "=", none, 1⟩, ⟨.identifier, "b", none, 1⟩, ⟨.semicolon, ";", none, 1⟩,
    ⟨.leftParen, "(", none, 1⟩, ⟨.semicolon, ";", none, 1⟩]

/-- The tokens of `) print c`, which neither starts nor ends as it should. -/
def strayTokens : List Token :=
  [⟨.rightParen, ")", none, 2⟩, ⟨.kwPrint, "print", none, 2⟩, ⟨.identifier, "c", none, 2⟩]

theorem ofTokens_append_of_semicolon_brokenTokens :
    ∃ p, Program.ofTokens (brokenTokens ++ strayTokens ++ [Token.eof 2]) = .ok p ∧
      p.statements.map Stmt.toTree =
        [.expressionStmt (.reference (.token ⟨.identifier, "b", none, 1⟩))] ∧
      p.errors.map Diagnostic.complaint =
        [.invalidTarget, .expectExpression, .expectExpression, .expectValueEnd] := by
  have h₁ : ScannerShaped brokenTokens := .of_noNumber (by decide)
  have h₂ : ScannerShaped strayTokens := .of_noNumber (by decide)
  have hend₁ : (Token.eof 1).kind = .eof := rfl
  have hend₂ : (Token.eof 2).kind = .eof := rfl
  obtain ⟨p₁, p₂, p, hp₁, hp₂, hp, hstmts, herrors⟩ :=
    ofTokens_append_of_semicolon h₁ h₂ hend₁ hend₂ (by decide)
  cases hp₁
  cases hp₂
  refine ⟨p, hp, hstmts, ?_⟩
  rw [herrors]
  rfl

end LoxTree
