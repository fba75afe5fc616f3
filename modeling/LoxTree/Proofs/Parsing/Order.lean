import LoxTree.Proofs.Parsing.Seam
import LoxTree.Proofs.Parsing.Trees
import LoxTree.Proofs.Scanning.Places

/-!
# The order of the complaints about a program

A complaint that breaks off a statement is recorded when the parser has reached its token, and the
parser goes on behind that token. An assignment whose target is no variable is recorded only when
its value is read, behind whatever was recorded in that value. So complaints stand in the order of
their tokens, except that the target of an assignment comes behind the targets in its value.

* `Precedes` and `InValueOf` are the two ways in which one complaint comes before another.
* `Orders m`: the step `m` records targets in such an order and fails at the next token.
  `orders_parse` and `orders_statement` say so of every rule and of statements.
* `ProgramRun.inOrder`: the complaints about a whole program.
* `numbered`: tokens whose lines are their places, so that the place of a complaint can be read off.
* `ofSource_complaints_in_order_iff`: complaints are in the order of their tokens exactly if none is
  about a target in the value of an assignment to an invalid target.
* `ofSource_complaints_out_of_order`: there is a program with complaints out of order.
-/

namespace LoxTree

open Step Parse

/-! ### Complaints and their tokens -/

/-- The diagnostic is a complaint of the parser about one of the tokens. -/
def Diagnostic.About (tokens : List Token) (d : Diagnostic) : Prop :=
  ∃ t ∈ tokens, ∃ c, d = .grammatical t c

/-- The diagnostic is about the target of an assignment whose equals sign is one of the tokens. -/
def Diagnostic.AboutTarget (tokens : List Token) (d : Diagnostic) : Prop :=
  ∃ t ∈ tokens, d = .grammatical t .invalidTarget

namespace Diagnostic

variable {tokens tokens' : List Token} {d : Diagnostic}

theorem About.mono (h : d.About tokens) (hsub : tokens ⊆ tokens') : d.About tokens' := by
  obtain ⟨t, ht, c, rfl⟩ := h
  exact ⟨t, hsub ht, c, rfl⟩

theorem AboutTarget.mono (h : d.AboutTarget tokens) (hsub : tokens ⊆ tokens') :
    d.AboutTarget tokens' := by
  obtain ⟨t, ht, rfl⟩ := h
  exact ⟨t, hsub ht, rfl⟩

theorem AboutTarget.about (h : d.AboutTarget tokens) : d.About tokens := by
  obtain ⟨t, ht, rfl⟩ := h
  exact ⟨t, ht, _, rfl⟩

end Diagnostic

/-- The first complaint is about a token before that of the second. -/
def Precedes (tokens : List Token) (d d' : Diagnostic) : Prop :=
  ∃ before after, before ++ after <:+: tokens ∧ d.About before ∧ d'.About after

/-- The second complaint is about the target of an assignment, and the first about a target in the
tokens that are read as the value of that assignment. -/
def InValueOf (tokens : List Token) (d d' : Diagnostic) : Prop :=
  ∃ equals used room value, ∃ s s' : ParseState, equals :: s.rest <:+ tokens ∧
    Rule.parse room .assignment s = .ok value s' ∧ s.rest = used ++ s'.rest ∧
    d.AboutTarget used ∧ d' = .grammatical equals .invalidTarget

/-- The ways in which one complaint about the tokens is recorded before another. -/
def InOrder (tokens : List Token) (ending : Token) (d d' : Diagnostic) : Prop :=
  Precedes (tokens ++ [ending]) d d' ∨ InValueOf tokens d d'

theorem InOrder.mono {tokens tokens' : List Token} {ending : Token} {d d' : Diagnostic}
    (h : InOrder tokens ending d d') (hsuf : tokens <:+ tokens') : InOrder tokens' ending d d' := by
  rcases h with ⟨before, after, hinfix, hd, hd'⟩ | ⟨equals, used, room, value, s, s', hs, h⟩
  · refine .inl ⟨before, after, hinfix.trans ?_, hd, hd'⟩
    obtain ⟨skipped, rfl⟩ := hsuf
    exact ⟨skipped, [], by simp⟩
  · exact .inr ⟨equals, used, room, value, s, s', hs.trans hsuf, h⟩

/-- A complaint about tokens that are taken comes before one about tokens that are left. -/
theorem InOrder.of_split {before after tokens : List Token} {ending : Token} {d d' : Diagnostic}
    (h : before ++ after = tokens ++ [ending]) (hd : d.About before) (hd' : d'.About after) :
    InOrder tokens ending d d' :=
  .inl ⟨before, after, h ▸ List.infix_refl _, hd, hd'⟩

/-! ### Steps that record in order -/

/-- The complaints that were recorded between two states are about targets among the tokens that
were taken, and they are in order. -/
structure ParseState.RecordsInOrder (s s' : ParseState) (used : List Token)
    (new : List Diagnostic) : Prop where
  ending : s'.ending = s.ending
  rest : s.rest = used ++ s'.rest
  errors : s'.errors = s.errors ++ new
  targets : ∀ d ∈ new, d.AboutTarget used
  pairwise : new.Pairwise (InOrder s.rest s.ending)

/-- The second state is a later one, with complaints that were recorded in order. -/
def ParseState.Later (s s' : ParseState) : Prop :=
  ∃ used new, s.RecordsInOrder s' used new

namespace ParseState.Later

variable {s t u : ParseState}

/-- Steps that record nothing. -/
theorem of_take {used : List Token} (hend : t.ending = s.ending) (hrest : s.rest = used ++ t.rest)
    (herrors : t.errors = s.errors) : s.Later t :=
  ⟨used, [], hend, hrest, by rw [herrors, List.append_nil], by simp, .nil⟩

theorem refl (s : ParseState) : s.Later s :=
  of_take rfl (List.nil_append _).symm rfl

theorem take {x : Token} {rest : List Token} (h : s.rest = x :: rest) (nodes : Nat) :
    s.Later { s with rest, nodes } := by
  have htaken : s.rest = [x] ++ rest := h
  exact of_take rfl htaken rfl

theorem trans (h : s.Later t) (h' : t.Later u) : s.Later u := by
  obtain ⟨used, new, h⟩ := h
  obtain ⟨used', new', h'⟩ := h'
  refine ⟨used ++ used', new ++ new', h'.ending.trans h.ending, ?_, ?_, ?_, ?_⟩
  · rw [h.rest, h'.rest, List.append_assoc]
  · rw [h'.errors, h.errors, List.append_assoc]
  · intro d hd
    rcases List.mem_append.1 hd with hd | hd
    · exact (h.targets d hd).mono (List.subset_append_left _ _)
    · exact (h'.targets d hd).mono (List.subset_append_right _ _)
  · refine List.pairwise_append.2 ⟨h.pairwise, ?_, fun d hd d' hd' => ?_⟩
    · refine h'.pairwise.imp fun hdd => ?_
      rw [h.ending] at hdd
      exact hdd.mono ⟨used, h.rest.symm⟩
    · have hsplit : used ++ (t.rest ++ [s.ending]) = s.rest ++ [s.ending] := by
        rw [h.rest, List.append_assoc]
      refine .of_split hsplit (h.targets d hd).about ((h'.targets d' hd').about.mono ?_)
      rw [h'.rest, List.append_assoc]
      exact List.subset_append_left _ _

/-- The target of an assignment is recorded behind those in its value. -/
theorem assign {equals : Token} {rest : List Token} {room : Nat} {value : Expr}
    (hs : s.rest = equals :: rest)
    (hvalue : Rule.parse room .assignment { s with rest } = .ok value t)
    (h : ParseState.Later { s with rest } t) :
    s.Later { t with errors := t.errors ++ [.grammatical equals .invalidTarget] } := by
  obtain ⟨used, new, h⟩ := h
  have hrest : rest = used ++ t.rest := h.rest
  refine ⟨equals :: used, new ++ [.grammatical equals .invalidTarget], h.ending, ?_, ?_, ?_, ?_⟩
  · rw [hs, hrest]
    rfl
  · show t.errors ++ _ = _
    rw [h.errors, List.append_assoc]
  · intro d hd
    rcases List.mem_append.1 hd with hd | hd
    · exact (h.targets d hd).mono (List.subset_cons_self _ _)
    · exact ⟨equals, List.mem_cons_self, List.mem_singleton.1 hd⟩
  · refine List.pairwise_append.2 ⟨?_, List.pairwise_singleton _ _, fun d hd d' hd' => ?_⟩
    · exact h.pairwise.imp fun hdd => hdd.mono (hs ▸ List.suffix_cons equals rest)
    · rw [List.mem_singleton.1 hd']
      exact .inr ⟨equals, used, room, value, _, t, hs ▸ List.suffix_refl _, hvalue, hrest,
        h.targets d hd, rfl⟩

end ParseState.Later

/-- A fault that is a complaint is one of the given complaints about the next token. -/
def Fault.IsAtNext (allowed : List Complaint) (f : Fault) (s : ParseState) : Prop :=
  ∀ d, f = .diagnostic d → ∃ c ∈ allowed, d = .grammatical (s.rest.headD s.ending) c

/-- A step that records complaints in order, and throws only complaints about the next token, of
those allowed. -/
def Orders {α : Type} (allowed : List Complaint) (m : Parse α) : Prop :=
  ∀ s, Ensures m s (fun _ s' => s.Later s') (fun f s' => s.Later s' ∧ f.IsAtNext allowed s')

namespace Orders

variable {α β : Type} {allowed : List Complaint} {m : Parse α}

theorem pure (a : α) : Orders allowed (Pure.pure a : Parse α) :=
  fun s => Ensures.pure (.refl s)

/-- A fault that is no complaint. -/
theorem throw {f : Fault} (h : ∀ d, f ≠ .diagnostic d) :
    Orders allowed (MonadExcept.throw f : Parse α) :=
  fun s => Ensures.throw ⟨.refl s, fun d hd => absurd hd (h d)⟩

/-- A step that goes on where an earlier one has ended. -/
theorem from_later (h : Orders allowed m) {s t : ParseState} (hs : s.Later t) :
    Ensures m t (fun _ s' => s.Later s') (fun f s' => s.Later s' ∧ f.IsAtNext allowed s') :=
  (h t).mono (fun _ _ ht => hs.trans ht) fun _ _ ht => ⟨hs.trans ht.1, ht.2⟩

theorem bind {k : α → Parse β} (h : Orders allowed m) (hk : ∀ a, Orders allowed (k a)) :
    Orders allowed (m >>= k) :=
  fun s => Ensures.bind ((h s).mono (fun a _ hs => (hk a).from_later hs) fun _ _ => id)

theorem map {g : α → β} (h : Orders allowed m) : Orders allowed (g <$> m) :=
  fun s => Ensures.map (h s)

end Orders

section

variable {allowed : List Complaint}

theorem orders_accept (kinds : List Kind) : Orders allowed (accept kinds) := by
  intro s
  rcases accept_cases kinds s with ⟨t, rest, hs, -, h⟩ | ⟨-, h⟩
  · exact .of_ok h (.take hs _)
  · exact .of_ok h (.refl s)

theorem orders_newNode : Orders allowed newNode :=
  fun s => .of_ok (newNode_apply s) (.of_take rfl (List.nil_append _).symm rfl)

theorem orders_expect {c : Complaint} (hc : c ∈ allowed) (kind : Kind) :
    Orders allowed (expect kind c) := by
  intro s
  rcases expect_cases kind c s with ⟨t, rest, hs, -, h⟩ | ⟨-, h⟩
  · exact .of_ok h (.take hs _)
  · refine .of_error h ⟨.refl s, fun d hd => ?_⟩
    cases hd
    exact ⟨c, hc, rfl⟩

theorem orders_foldOperators {operators : List Kind} {operand : Parse Expr}
    (h : Orders allowed operand) (rounds : Nat) (left : Expr) :
    Orders allowed (foldOperators operators operand rounds left) := by
  induction rounds generalizing left with
  | zero => exact .pure left
  | succ rounds ih =>
    refine (orders_accept operators).bind ?_
    rintro (_ | operator)
    · exact .pure left
    · exact h.bind fun right => orders_newNode.bind fun _ => ih _

theorem orders_leftAssoc {operators : List Kind} {operand : Parse Expr}
    (h : Orders allowed operand) : Orders allowed (leftAssoc operators operand) :=
  h.bind fun left s => orders_foldOperators h s.rest.length left s

/-- An equals sign, the value behind it, and then a complaint if the target is no variable. -/
theorem orders_assignTo {room : Nat} (h : Orders allowed (Rule.parse room .assignment))
    (target : Expr) {s : ParseState} {equals : Token} {rest : List Token}
    (hs : s.rest = equals :: rest) :
    Ensures (do assignTo target equals (← Rule.parse room .assignment)) { s with rest }
      (fun _ s' => s.Later s') (fun f s' => s.Later s' ∧ f.IsAtNext allowed s') := by
  have htake : s.Later { s with rest } := .take hs s.nodes
  refine Ensures.bind (.of_outcomes (fun value t hvalue => ?_) fun f t hf => ?_)
  · have ht : ParseState.Later { s with rest } t := (h _).ok hvalue
    rcases assignTo_cases target equals value t with ⟨id, name, -, ha⟩ | ⟨-, ha⟩
    · refine .of_ok ha ((htake.trans ht).trans ?_)
      exact .of_take rfl (List.nil_append _).symm rfl
    · exact .of_ok ha (.assign hs hvalue ht)
  · obtain ⟨ht, hnext⟩ := (h _).error hf
    exact ⟨htake.trans ht, hnext⟩

/-- A fault about a number is no complaint. -/
theorem numberValue_ne_diagnostic {t : Token} {f : Fault} (h : numberValue t = .error f)
    (d : Diagnostic) : f ≠ .diagnostic d := by
  unfold numberValue Value.ofNumeral at h
  rintro rfl
  split at h
  · split at h <;> cases h
  · cases h

/-- The complaints that break off an expression. -/
def expressionComplaints : List Complaint :=
  [.expectExpression, .expectClosingParen]

/-- Every rule records targets in order, and fails at the next token. -/
theorem orders_parse (hsub : expressionComplaints ⊆ allowed) (room : Nat) (r : Rule) :
    Orders allowed (Rule.parse room r) := by
  induction room, r using Rule.parse_induction with
  | expression room ih => exact ih
  | assignment room ih₁ ih₂ =>
    rw [parse_assignment_eq]
    refine ih₁.bind fun target s => Ensures.bind ?_
    rcases accept_cases [.equal] s with ⟨equals, rest, hs, -, ha⟩ | ⟨-, ha⟩
    · exact .of_ok ha (orders_assignTo ih₂ target hs)
    · exact .of_ok ha (Orders.pure target s)
  | level room r operators q _ heq ih =>
    rw [heq]
    exact orders_leftAssoc ih
  | unary room ih₁ ih₂ =>
    refine (orders_accept _).bind ?_
    rintro (_ | operator)
    · exact ih₂
    · exact ih₁.bind fun _ => orders_newNode.bind fun _ => .pure _
  | primary room ih =>
    intro s
    rcases parse_primary_cases room s with ⟨t, rest, v, hs, -, h⟩ | ⟨t, rest, f, hs, -, hv, h⟩ |
      ⟨t, rest, hs, -, h⟩ | ⟨t, rest, hs, -, h⟩ | ⟨-, h⟩
    · exact .of_ok h (.take hs _)
    · refine .of_error h ⟨.take hs s.nodes, fun d hd => ?_⟩
      exact absurd hd (numberValue_ne_diagnostic hv d)
    · exact .of_ok h (.take hs _)
    · have hgroup : Orders allowed (closeGroup (Rule.parse room .expression)) :=
        ih.bind fun _ => (orders_expect (hsub (by decide)) _).bind fun _ =>
          orders_newNode.bind fun _ => .pure _
      exact (Ensures.congr h).2 (hgroup.from_later (.take hs s.nodes))
    · refine .of_error h ⟨.refl s, fun d hd => ?_⟩
      cases hd
      exact ⟨.expectExpression, hsub (by decide), rfl⟩
  | noRoom room r heq =>
    rw [heq]
    exact .throw fun d hd => nomatch hd

end

/-! ### Statements and programs -/

/-- The complaints that break off a statement. -/
def statementComplaints : List Complaint :=
  expressionComplaints ++
    [.expectVariableName, .expectDeclarationEnd, .expectValueEnd, .expectStatementEnd]

theorem orders_expression (room : Nat) :
    Orders statementComplaints (Rule.parse room .expression) :=
  orders_parse (List.subset_append_left _ _) room .expression

/-- The last steps of a statement. -/
theorem orders_finish {c : Complaint} (hc : c ∈ statementComplaints) (g : Nat → Stmt) :
    Orders statementComplaints (do let _ ← expect .semicolon c; return g (← newNode)) :=
  (orders_expect hc _).bind fun _ => orders_newNode.bind fun _ => .pure _

/-- Statements record targets in order, and fail at the next token. -/
theorem orders_statement (room : Nat) : Orders statementComplaints (statement room) := by
  refine (orders_accept _).bind ?_
  rintro (_ | var)
  · refine (orders_accept _).bind ?_
    rintro (_ | print)
    · exact (orders_expression room).bind fun e => orders_finish (by decide) (.expression · e)
    · exact (orders_expression room).bind fun e => orders_finish (by decide) (.print · e)
  · refine (orders_expect (by decide) _).bind fun name => (orders_accept _).bind ?_
    rintro (_ | equals)
    · exact (Orders.pure none).bind fun e? => orders_finish (by decide) (.var · name e?)
    · exact (orders_expression room).map.bind fun e? => orders_finish (by decide) (.var · name e?)

/-- Recovery skips the token at which a statement failed, unless that is the end marker. -/
theorem resume_split (tokens : List Token) (ending : Token) :
    ∃ skipped left, tokens ++ [ending] = tokens.headD ending :: skipped ++ left ∧
      (resume tokens = [] ∨ left = resume tokens ++ [ending]) := by
  cases tokens with
  | nil => exact ⟨[], [], rfl, .inl rfl⟩
  | cons t rest =>
    obtain ⟨skipped, hskipped⟩ := resumeAfter_suffix t.kind rest
    refine ⟨skipped, resumeAfter t.kind rest ++ [ending], ?_, .inr rfl⟩
    rw [List.headD_cons, List.cons_append, List.cons_append, ← List.append_assoc, hskipped]

/-- A statement that fails is recorded with a complaint about the next token. -/
theorem recover_of_error {room : Nat} {s t u : ParseState} {f : Fault} {stmt? : Option Stmt}
    (hs : statement room s = .error f u) (h : declaration room s = .ok stmt? t) :
    stmt? = none ∧ ∃ c, t = u.recover (.grammatical (u.rest.headD u.ending) c) := by
  obtain ⟨-, hnext⟩ := (orders_statement room s).error hs
  rw [declaration_of_error hs] at h
  cases f with
  | diagnostic d =>
    obtain ⟨c, -, rfl⟩ := hnext d rfl
    cases h
    exact ⟨rfl, c, rfl⟩
  | tooDeep =>
    cases h
    exact ⟨rfl, .nestedTooDeeply, rfl⟩
  | _ => cases h

/-- What is recorded about a declaration: complaints about tokens that are taken, in order. If one
of them is about the end marker, then nothing is left. -/
theorem inOrder_of_declaration {room : Nat} {s t : ParseState} {stmt? : Option Stmt}
    (h : declaration room s = .ok stmt? t) :
    ∃ used left new, s.rest ++ [s.ending] = used ++ left ∧ t.errors = s.errors ++ new ∧
      (∀ d ∈ new, d.About used) ∧ new.Pairwise (InOrder s.rest s.ending) ∧
      (t.rest = [] ∨ left = t.rest ++ [s.ending]) := by
  cases hs : statement room s with
  | ok stmt u =>
    rw [declaration_of_ok hs] at h
    cases h
    obtain ⟨used, new, hu⟩ := (orders_statement room s).ok hs
    refine ⟨used, t.rest ++ [s.ending], new, ?_, hu.errors, fun d hd => (hu.targets d hd).about,
      hu.pairwise, .inr rfl⟩
    rw [hu.rest, List.append_assoc]
  | error f u =>
    obtain ⟨⟨used, new, hu⟩, -⟩ := (orders_statement room s).error hs
    obtain ⟨-, c, rfl⟩ := recover_of_error hs h
    obtain ⟨skipped, left, hsplit, hleft⟩ := resume_split u.rest u.ending
    rw [hu.ending] at hsplit hleft ⊢
    have hrest : s.rest ++ [s.ending] = used ++ (u.rest ++ [s.ending]) := by
      rw [hu.rest, List.append_assoc]
    have hlast : Diagnostic.About (u.rest.headD s.ending :: skipped)
        (.grammatical (u.rest.headD s.ending) c) := ⟨_, List.mem_cons_self, c, rfl⟩
    refine ⟨used ++ u.rest.headD s.ending :: skipped, left,
      new ++ [.grammatical (u.rest.headD s.ending) c], ?_, ?_, ?_, ?_, hleft⟩
    · rw [hrest, hsplit, List.append_assoc]
    · show u.errors ++ _ = _
      rw [hu.errors, List.append_assoc]
    · intro d hd
      rcases List.mem_append.1 hd with hd | hd
      · exact (hu.targets d hd).about.mono (List.subset_append_left _ _)
      · rw [List.mem_singleton.1 hd]
        exact hlast.mono (List.subset_append_right _ _)
    · refine List.pairwise_append.2 ⟨hu.pairwise, List.pairwise_singleton _ _, ?_⟩
      intro d hd d' hd'
      rw [List.mem_singleton.1 hd']
      refine .of_split hrest.symm (hu.targets d hd).about (hlast.mono ?_)
      rw [hsplit]
      exact List.subset_append_left _ _

/-- The complaints about a whole program are in order. -/
theorem ProgramRun.inOrder {room : Nat} {s s' : ParseState} {stmts : List Stmt}
    (h : ProgramRun room s stmts s') :
    ∃ new, s'.errors = s.errors ++ new ∧ (∀ d ∈ new, d.About (s.rest ++ [s.ending])) ∧
      new.Pairwise (InOrder s.rest s.ending) := by
  induction h with
  | done => exact ⟨[], (List.append_nil _).symm, by simp, .nil⟩
  | @next s t s' stmt? stmts hne hd hrun ih =>
    obtain ⟨hext, -⟩ := extends_of_declaration hd hne
    obtain ⟨used, left, new, hsplit, herrors, habout, hpairwise, hleft⟩ := inOrder_of_declaration hd
    obtain ⟨new', herrors', habout', hpairwise'⟩ := ih
    have hall : ∀ d ∈ new, d.About (s.rest ++ [s.ending]) := by
      intro d hd
      rw [hsplit]
      exact (habout d hd).mono (List.subset_append_left _ _)
    rcases hleft with hnil | rfl
    · -- nothing is left, so this was the last declaration
      cases hrun with
      | done => exact ⟨new, herrors, hall, hpairwise⟩
      | next hne' => exact absurd hnil hne'
    · rw [hext.ending] at habout' hpairwise'
      refine ⟨new ++ new', by rw [herrors', herrors, List.append_assoc], ?_, ?_⟩
      · intro d hd
        rcases List.mem_append.1 hd with hd | hd
        · exact hall d hd
        · rw [hsplit]
          exact (habout' d hd).mono (List.subset_append_right _ _)
      · refine List.pairwise_append.2 ⟨hpairwise, ?_, ?_⟩
        · exact hpairwise'.imp fun hdd => hdd.mono hext.rest
        · exact fun d hd d' hd' => .of_split hsplit.symm (habout d hd) (habout' d' hd')

/-- The complaints about the program that tokens make up. -/
theorem Program.ofTokens_inOrder {tokens : List Token} {ending : Token} (h : ScannerShaped tokens)
    (hend : ending.kind = .eof) :
    ∃ p, Program.ofTokens (tokens ++ [ending]) = .ok p ∧
      (∀ d ∈ p.errors, d.About (tokens ++ [ending])) ∧
      p.errors.Pairwise (InOrder tokens ending) := by
  obtain ⟨stmts, s', hrun, hp⟩ := Program.exists_run h hend
  obtain ⟨new, herrors, habout, hpairwise⟩ := hrun.inOrder
  have herrors : s'.errors = new := herrors
  exact ⟨_, hp, herrors ▸ habout, herrors ▸ hpairwise⟩

/-! ### Places of tokens -/

/-- The tokens with their places for lines. -/
def numbered (tokens : List Token) : List Token :=
  tokens.mapIdx fun i t => { t with line := i }

/-- The line of the token at the given place. -/
def lineAt (tokens : List Token) (i : Int) : Int :=
  (tokens[i.toNat]?.map Token.line).getD 0

theorem map_lineAt_numbered (tokens : List Token) :
    (numbered tokens).map (Token.mapLine (lineAt tokens)) = tokens := by
  refine List.ext_getElem (by simp [numbered]) fun i hi hi' => ?_
  simp [numbered, Token.mapLine, lineAt, hi']

theorem numbered_concat (tokens : List Token) (t : Token) :
    numbered (tokens ++ [t]) = numbered tokens ++ [{ t with line := tokens.length }] := by
  simp [numbered, List.mapIdx_append]

theorem ScannerShaped.numbered {tokens : List Token} (h : ScannerShaped tokens) :
    ScannerShaped (numbered tokens) := by
  refine ⟨fun t ht => ?_, fun t ht => ?_⟩
  · obtain ⟨i, hi, rfl⟩ := List.mem_mapIdx.1 ht
    exact h.noEnding tokens[i] (List.getElem_mem hi)
  · obtain ⟨i, hi, rfl⟩ := List.mem_mapIdx.1 ht
    exact h.readable tokens[i] (List.getElem_mem hi)

/-- Places ascend, and lines do not descend with them if they do not descend from token to token. -/
theorem pairwise_numbered {tokens : List Token}
    (h : tokens.Pairwise fun t t' => t.line ≤ t'.line) :
    (numbered tokens).Pairwise fun t t' =>
      t.line < t'.line ∧ lineAt tokens t.line ≤ lineAt tokens t'.line := by
  refine List.pairwise_iff_getElem.2 fun i j hi hj hij => ?_
  have hj' : j < tokens.length := by simpa [numbered] using hj
  have hi' : i < tokens.length := Nat.lt_trans hij hj'
  have hle := List.pairwise_iff_getElem.1 h i j hi' hj' hij
  simpa [numbered, lineAt, hi', hj', hij] using hle

section

variable {R : Int → Int → Prop} {tokens : List Token} {d d' : Diagnostic}

/-- What holds from token to token holds of complaints about them. -/
theorem Precedes.line (h : Precedes tokens d d')
    (hlines : tokens.Pairwise fun t t' => R t.line t'.line) : R d.line d'.line := by
  obtain ⟨before, after, hinfix, ⟨t, ht, c, rfl⟩, t', ht', c', rfl⟩ := h
  have hboth : (before ++ after).Pairwise fun t t' => R t.line t'.line :=
    hlines.sublist hinfix.sublist
  exact (List.pairwise_append.1 hboth).2.2 t ht t' ht'

/-- The target of an assignment stands before those in its value. -/
theorem InValueOf.line (h : InValueOf tokens d d')
    (hlines : tokens.Pairwise fun t t' => R t.line t'.line) : R d'.line d.line := by
  obtain ⟨equals, used, room, value, s, s', hs, -, hused, ⟨t, ht, rfl⟩, rfl⟩ := h
  have hboth : (equals :: s.rest).Pairwise fun t t' => R t.line t'.line :=
    hlines.sublist hs.sublist
  refine (List.pairwise_cons.1 hboth).1 t ?_
  rw [hused]
  exact List.mem_append_left _ ht

end

/-- Complaints about a program of any text. They are about tokens, and their places in the list of
tokens are in the order in which they are recorded, except where the earlier complaint is about a
target in the value of an assignment and the later one about the target of that assignment. Then,
and only then, the later one is about an earlier token. Apart from these exceptions their lines do
not descend either. -/
theorem ofSource_complaints_in_order_iff (text : String) :
    ∃ p q, Program.ofSource text = .ok p ∧
      Program.ofTokens (numbered (Scan.ofSource text).tokens) = .ok q ∧
      p.errors = (Scan.ofSource text).errors ++
        q.errors.map (Diagnostic.mapLine (lineAt (Scan.ofSource text).tokens)) ∧
      (∀ d ∈ q.errors, d.About (numbered (Scan.ofSource text).tokens)) ∧
      q.errors.Pairwise (fun d d' =>
        (d.line ≤ d'.line ↔ ¬ InValueOf (numbered (sourceTokens text)) d d') ∧
        (¬ InValueOf (numbered (sourceTokens text)) d d' →
          lineAt (Scan.ofSource text).tokens d.line ≤
            lineAt (Scan.ofSource text).tokens d'.line)) := by
  obtain ⟨ending, hend, hnumbered⟩ : ∃ ending : Token, ending.kind = .eof ∧
      numbered (Scan.ofSource text).tokens = numbered (sourceTokens text) ++ [ending] := by
    rw [Scan.ofSource_tokens, numbered_concat]
    exact ⟨_, rfl, rfl⟩
  have hshape := (scannerShaped_sourceTokens text).numbered
  -- the numbered tokens are parsed like those of the text
  obtain ⟨q, p, hq, hp, -, herrors⟩ :=
    Program.ofTokens_mapLine hshape hend (lineAt (Scan.ofSource text).tokens)
  rw [← hnumbered, map_lineAt_numbered] at hp
  obtain ⟨q', hq', habout, hpairwise⟩ := Program.ofTokens_inOrder hshape hend
  cases hq.symm.trans hq'
  rw [← hnumbered] at hq habout
  refine ⟨_, q, Program.ofSource_eq hp, hq, congrArg _ herrors, habout, ?_⟩
  -- the lines of the numbered tokens ascend, so the two kinds of pairs exclude each other
  have hlines := pairwise_numbered (Scan.pairwise_line_tokens text)
  rw [hnumbered] at hlines
  have hascend : (numbered (sourceTokens text)).Pairwise fun t t' => t.line < t'.line :=
    (List.pairwise_append.1 hlines).1.imp And.left
  refine hpairwise.imp fun {d d'} hdd => ?_
  by_cases hvalue : InValueOf (numbered (sourceTokens text)) d d'
  · have hlt : d'.line < d.line := hvalue.line hascend
    refine ⟨?_, fun hnot => absurd hvalue hnot⟩
    simp [hvalue, hlt]
  · obtain ⟨hlt, hle⟩ := (hdd.resolve_right hvalue).line
      (R := fun i j => i < j ∧ lineAt (Scan.ofSource text).tokens i ≤ lineAt _ j) hlines
    exact ⟨iff_of_true (Int.le_of_lt hlt) hvalue, fun _ => hle⟩

theorem scan_assignments_to_nil :
    Scan.ofSource "nil=\nnil=nil;" =
      ⟨[⟨.kwNil, "nil", none, 1⟩, ⟨.equal, "=", none, 1⟩, ⟨.kwNil, "nil", none, 2⟩,
        ⟨.equal, "=", none, 2⟩, ⟨.kwNil, "nil", none, 2⟩, ⟨.semicolon, ";", none, 2⟩,
        Token.eof 2], [], 2⟩ := by
  have hsegments : segments "nil=\nnil=nil;".toList = [.token .kwNil ['n', 'i', 'l'] none,
      .token .equal ['='] none, .newline, .token .kwNil ['n', 'i', 'l'] none,
      .token .equal ['='] none, .token .kwNil ['n', 'i', 'l'] none,
      .token .semicolon [';'] none] :=
    segments_eq_cons rfl (segments_eq_cons rfl (segments_eq_cons rfl (segments_eq_cons rfl
      (segments_eq_cons rfl (segments_eq_cons rfl (segments_eq_cons rfl segments.eq_1))))))
  unfold Scan.ofSource
  rw [hsegments]
  rfl

/-- The complaint about the second line is recorded before that about the first. -/
theorem ofSource_complaints_out_of_order :
    ∃ p, Program.ofSource "nil=\nnil=nil;" = .ok p ∧
      p.errors = [.grammatical ⟨.equal, "=", none, 2⟩ .invalidTarget,
        .grammatical ⟨.equal, "=", none, 1⟩ .invalidTarget] ∧
      ¬ p.errors.Pairwise fun d d' => d.line ≤ d'.line := by
  unfold Program.ofSource
  rw [scan_assignments_to_nil]
  exact ⟨_, rfl, rfl, by decide⟩

end LoxTree
