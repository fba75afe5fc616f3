import LoxTree.Proofs.Running.Incremental
import LoxTree.Proofs.Running.Safety
import LoxTree.Proofs.Scanning.Places
import LoxTree.Proofs.Scanning.Respacing

/-!
# Where a running program fails

A complaint of a running program is about a name or an operator of the statement that fails, and
stands on its line. The lines of the tokens of a text do not descend, a statement is a run of
consecutive tokens, and statements are executed in order, so that the lines of complaints do not
descend either.

* `Tree.marks`: the names and operators of a tree, which `Grammar.Declaration.marks` finds among the
  tokens of a statement.
* `complainsAt_execute`: a statement complains about one of these.
* `locatedIn_of_executes`: so does each attempt in a sequence of them.
* `source_complaints_located`: the complaints of a program.
-/

namespace LoxTree

open Step Run

/-! ### Lines of tokens -/

/-- The first token does not stand below the second. -/
def Token.NotBelow (t t' : Token) : Prop :=
  t.line ≤ t'.line

/-! ### Names and operators -/

namespace Tree

/-- The token that a tree is, if it is one. -/
def token? : Tree → Option Token
  | token t => some t
  | _ => none

theorem token?_of_asToken {n : Tree} {t : Token} (h : n.asToken = .ok t) : n.token? = some t := by
  cases n <;> cases h
  rfl

/-- The names that an expression or statement reads or assigns to, and its operators. -/
def marks : Tree → List Token
  | grouping e | expressionStmt e | printStmt e | varDecl _ e => e.marks
  | unary op e => op.token?.toList ++ e.marks
  | binary l op r => l.marks ++ (op.token?.toList ++ r.marks)
  | reference n => n.token?.toList
  | assign n e => n.token?.toList ++ e.marks
  | _ => []

end Tree

/-- The kinds of names and operators. -/
def markKinds : List Kind :=
  .identifier :: .bang :: infixKinds

namespace Grammar

theorem marks_foldl_applyTo (operations : List Operation) (left : Tree) :
    (operations.foldl Operation.applyTo left).marks =
      left.marks ++ operations.flatMap fun o => o.operator :: o.tree.marks := by
  induction operations generalizing left with
  | nil => simp
  | cons o rest ih =>
    rw [List.foldl_cons, ih, List.flatMap_cons, ← List.append_assoc]
    rfl

/-- The names and operators of an expression are tokens of it. -/
theorem Derives.marks {r : Rule} {tokens : List Token} {tree : Tree} (h : Derives r tokens tree) :
    ∀ t ∈ tree.marks, t ∈ tokens ∧ t.kind ∈ markKinds := by
  induction h with
  | expression _ ih => exact ih
  | @assign name equals tokens value hid _ _ ih =>
    refine List.forall_mem_cons.2 ⟨⟨List.mem_cons_self, by rw [hid]; decide⟩, fun t ht => ?_⟩
    obtain ⟨hmem, hk⟩ := ih t ht
    exact ⟨List.mem_cons_of_mem _ (List.mem_cons_of_mem _ hmem), hk⟩
  | equality _ ih => exact ih
  | @level _ _ operators first left operations hl _ hops _ ih ihs =>
    have hkinds : operators ⊆ markKinds := by cases hl <;> decide
    intro t ht
    rw [marks_foldl_applyTo] at ht
    rcases List.mem_append.1 ht with ht | ht
    · obtain ⟨hmem, hk⟩ := ih t ht
      exact ⟨List.mem_append_left _ hmem, hk⟩
    · obtain ⟨o, ho, ht⟩ := List.mem_flatMap.1 ht
      have hspan : ∀ t ∈ o.tokens, t ∈ first ++ operations.flatMap Operation.tokens := fun t ht =>
        List.mem_append_right _ (List.mem_flatMap.2 ⟨o, ho, ht⟩)
      rcases List.mem_cons.1 ht with rfl | ht
      · exact ⟨hspan _ List.mem_cons_self, hkinds (hops o ho)⟩
      · obtain ⟨hmem, hk⟩ := ihs o ho t ht
        exact ⟨hspan t (List.mem_cons_of_mem _ hmem), hk⟩
  | @unary operator tokens tree hop _ ih =>
    have hkinds : [Kind.bang, .minus] ⊆ markKinds := by decide
    refine List.forall_mem_cons.2 ⟨⟨List.mem_cons_self, hkinds hop⟩, fun t ht => ?_⟩
    obtain ⟨hmem, hk⟩ := ih t ht
    exact ⟨List.mem_cons_of_mem _ hmem, hk⟩
  | primary _ ih => exact ih
  | literal => exact fun t ht => nomatch ht
  | reference hid => exact List.forall_mem_singleton.2 ⟨List.mem_cons_self, by rw [hid]; decide⟩
  | grouping _ _ _ ih =>
    intro t ht
    obtain ⟨hmem, hk⟩ := ih t ht
    exact ⟨List.mem_append_left _ (List.mem_cons_of_mem _ hmem), hk⟩

/-- The names and operators of a statement are tokens of it. -/
theorem Declaration.marks {tokens : List Token} {tree : Tree} (h : Declaration tokens tree) :
    ∀ t ∈ tree.marks, t ∈ tokens ∧ t.kind ∈ markKinds := by
  intro t ht
  cases h with
  | var => cases ht
  | varInit _ _ _ hd =>
    obtain ⟨hmem, hk⟩ := hd.marks t ht
    exact ⟨by simp [hmem], hk⟩
  | print _ hd =>
    obtain ⟨hmem, hk⟩ := hd.marks t ht
    exact ⟨by simp [hmem], hk⟩
  | expression hd =>
    obtain ⟨hmem, hk⟩ := hd.marks t ht
    exact ⟨List.mem_append_left _ hmem, hk⟩

/-- A program is a sequence of declarations, each with its own tokens. -/
theorem Program.exists_spans {tokens : List Token} {trees : List Tree} (h : Program tokens trees) :
    ∃ spans, tokens = spans.flatten ∧ List.Forall₂ Declaration spans trees := by
  induction h with
  | nil => exact ⟨[], rfl, .nil⟩
  | @cons span _ _ _ hd _ ih =>
    obtain ⟨spans, rfl, hspans⟩ := ih
    exact ⟨span :: spans, rfl, .cons hd hspans⟩

end Grammar

/-! ### Complaints about tokens -/

/-- A complaint about a token, on its line. -/
def Diagnostic.At (d : Diagnostic) (t : Token) : Prop :=
  d.token? = some t ∧ d.line = t.line

/-- A step whose complaints are about tokens of a list. -/
def ComplainsAt (marks : List Token) {α : Type} (m : Run α) : Prop :=
  ∀ s, Ensures m s (fun _ _ => True) fun f _ => ∀ d, f = .diagnostic d → ∃ t ∈ marks, d.At t

namespace ComplainsAt

variable {marks : List Token} {α β : Type} {m : Run α}

theorem pure (a : α) : ComplainsAt marks (Pure.pure a : Run α) :=
  fun _ => Ensures.pure trivial

theorem tooDeep : ComplainsAt marks (MonadExcept.throw .tooDeep : Run α) :=
  fun _ => Ensures.throw fun _ hd => nomatch hd

theorem unsupported (what : Unsupported) :
    ComplainsAt marks (MonadExcept.throw (.unsupported what) : Run α) :=
  fun _ => Ensures.throw fun _ hd => nomatch hd

theorem bind {k : α → Run β} (h : ComplainsAt marks m) (hk : ∀ a, ComplainsAt marks (k a)) :
    ComplainsAt marks (m >>= k) :=
  fun s => Ensures.bind ((h s).mono (fun a s' _ => hk a s') fun _ _ => id)

theorem map {g : α → β} (h : ComplainsAt marks m) : ComplainsAt marks (g <$> m) :=
  fun s => Ensures.map ((h s).mono (fun _ _ _ => trivial) fun _ _ => id)

theorem mono {marks' : List Token} (h : ComplainsAt marks m) (hsub : marks ⊆ marks') :
    ComplainsAt marks' m :=
  fun s => (h s).mono (fun _ _ => id) fun _ _ hf d hd =>
    let ⟨t, ht, hat⟩ := hf d hd
    ⟨t, hsub ht, hat⟩

/-- The tree of a token that is looked for is no token, or the token is at hand. -/
theorem bind_asToken {n : Tree} {k : Token → Run β}
    (h : ∀ t, n.token? = some t → ComplainsAt marks (k t)) :
    ComplainsAt marks (MonadExcept.ofExcept n.asToken >>= k) := by
  refine fun s => Ensures.bind (Ensures.ofExcept (fun t ht => ?_) fun f hf d hd => ?_)
  · exact h t (Tree.token?_of_asToken ht) s
  · rw [Tree.missingPart_of_asToken hf] at hd
    cases hd

/-- An operator complains about itself. -/
theorem operate {operator : Token} (hmem : operator ∈ marks) {x : Except Fault α}
    {what : Unsupported} (h : ∀ f, x = .error f →
      (∃ c, f = .diagnostic (.mistypedAt operator c)) ∨ f = .unsupported what) :
    ComplainsAt marks (MonadExcept.ofExcept x : Run α) := by
  refine fun _ => Ensures.ofExcept (fun _ _ => trivial) fun f hf d hd => ?_
  rcases h f hf with ⟨c, rfl⟩ | rfl
  · cases hd
    exact ⟨operator, hmem, rfl, rfl⟩
  · cases hd

end ComplainsAt

theorem complainsAt_note {marks : List Token} (level : Int) (line : String) :
    ComplainsAt marks (note level line) :=
  fun _ => .of_ok rfl trivial

theorem complainsAt_readName {marks : List Token} {name : Token} (h : name ∈ marks) (scope : Nat) :
    ComplainsAt marks (readName scope name) := by
  intro s
  unfold Ensures
  rw [readName_apply, Forest.get_eq]
  cases s.scopes.value? scope name.lexeme with
  | some v => trivial
  | none =>
    rintro d ⟨⟩
    exact ⟨name, h, rfl, rfl⟩

theorem complainsAt_assignName {marks : List Token} {name : Token} (h : name ∈ marks)
    (scope : Nat) (value : Value) : ComplainsAt marks (assignName scope name value) := by
  intro s
  unfold Ensures
  rw [assignName_apply, Forest.assign_eq]
  cases s.scopes.holder? scope name.lexeme with
  | some holder => trivial
  | none =>
    rintro d ⟨⟩
    exact ⟨name, h, rfl, rfl⟩

/-- The complaints of an expression are about its names and operators. -/
theorem complainsAt_evaluate (scope room : Nat) (t : Tree) :
    ComplainsAt t.marks (evaluate scope room t) := by
  induction room generalizing t with
  | zero => exact .tooDeep
  | succ room ih =>
    cases t with
    | literal v =>
      show ComplainsAt _ (if v.isLox then Pure.pure v else throw (.unsupported (.literal v)))
      split
      · exact .pure v
      · exact .unsupported _
    | grouping e => exact ih e
    | reference n =>
      refine .bind_asToken fun name hname => complainsAt_readName ?_ scope
      simp [Tree.marks, hname]
    | assign n e =>
      refine ((ih e).mono ?_).bind fun value => .bind_asToken fun name hname =>
        (complainsAt_assignName ?_ scope value).bind fun _ =>
          (complainsAt_note _ _).bind fun _ => .pure value
      · simp [Tree.marks]
      · simp [Tree.marks, hname]
    | unary op e =>
      refine ((ih e).mono ?_).bind fun value => .bind_asToken fun operator hop =>
        .operate ?_ fun f => applyUnary_error
      · simp [Tree.marks]
      · simp [Tree.marks, hop]
    | binary l op r =>
      refine ((ih l).mono ?_).bind fun left => ((ih r).mono ?_).bind fun right =>
        .bind_asToken fun operator hop => .operate ?_ fun f => applyBinary_error
      · simp [Tree.marks]
      · simp [Tree.marks]
      · simp [Tree.marks, hop]
    | _ => exact .unsupported _

theorem complainsAt_define {marks : List Token} (scope : Nat) (name : String) (value : Value) :
    ComplainsAt marks (do defineName scope name value; note 2 (bindingNote "define" name value)) :=
  ComplainsAt.bind (fun _ => .of_ok rfl trivial) fun _ => complainsAt_note _ _

/-- The complaints of a statement are about its names and operators. -/
theorem complainsAt_execute {t : Tree} (h : t.IsStatement) (scope : Nat) :
    ComplainsAt t.marks (execute scope t) := by
  refine ComplainsAt.bind (fun s => (noteStatement_safe h.renders s).mono ?_ ?_) fun _ => ?_
  · exact fun _ _ _ => trivial
  · rintro f u ⟨rfl, -⟩ d hd
    cases hd
  · cases h with
    | expression => exact (complainsAt_evaluate scope nestingRoom _).map
    | print =>
      exact (complainsAt_evaluate scope nestingRoom _).bind fun _ _ => .of_ok rfl trivial
    | declare name => exact (ComplainsAt.pure Value.nil).bind fun _ => complainsAt_define scope _ _
    | declareAs name he =>
      dsimp only
      rw [initialValue_of_isExpression he]
      exact (complainsAt_evaluate scope nestingRoom _).bind fun _ => complainsAt_define scope _ _

/-- So is the complaint that an attempt at a statement ends with, unless it is about nesting. -/
theorem at_of_attempt {t : Tree} (ht : t.IsStatement) {scope : Nat} {s u : Session}
    {d : Diagnostic} (h : attempt scope t s = .ok (some d) u)
    (hnest : d.complaint ≠ .nestedTooDeeply) : ∃ tok ∈ t.marks, d.At tok := by
  cases hx : execute scope t s with
  | ok _ v =>
    rw [attempt_of_ok hx] at h
    cases h
  | error f v =>
    obtain ⟨-, hf⟩ := (execute_safe ht scope s).error hx
    rcases hf with rfl | ⟨d', rfl, -⟩
    · obtain ⟨w, -, -, ha⟩ := attempt_of_error hx rfl
      rw [h] at ha
      cases ha
      exact absurd rfl hnest
    · obtain ⟨w, -, -, ha⟩ := attempt_of_error hx rfl
      rw [h] at ha
      cases ha
      exact (complainsAt_execute ht scope s).error hx d rfl

/-! ### Complaints and statements -/

/-- A complaint about a name or operator among the tokens of a statement, on its line, which is none
before the first token or behind the last. -/
structure Diagnostic.LocatedIn (d : Diagnostic) (span : List Token) : Prop where
  token : ∃ t ∈ span, t.kind ∈ markKinds ∧ d.At t
  first : ∀ t ∈ span.head?, t.line ≤ d.line
  last : ∀ t ∈ span.getLast?, d.line ≤ t.line

theorem Diagnostic.At.locatedIn {d : Diagnostic} {t : Token} (h : d.At t) {span : List Token}
    (hmem : t ∈ span) (hk : t.kind ∈ markKinds) (hspan : span.Pairwise Token.NotBelow) :
    d.LocatedIn span := by
  refine ⟨⟨t, hmem, hk, h⟩, fun first hfirst => ?_, fun last hlast => ?_⟩
  · rw [h.2]
    obtain ⟨rest, rfl⟩ := List.head?_eq_some_iff.1 hfirst
    rcases List.mem_cons.1 hmem with rfl | hmem
    · exact Int.le_refl _
    · exact (List.pairwise_cons.1 hspan).1 t hmem
  · rw [h.2]
    obtain ⟨init, rfl⟩ := List.getLast?_eq_some_iff.1 hlast
    rcases List.mem_append.1 hmem with hmem | hmem
    · exact (List.pairwise_append.1 hspan).2.2 t hmem last List.mem_cons_self
    · obtain rfl := List.mem_singleton.1 hmem
      exact Int.le_refl _

/-- Each complaint of attempts at statements is located in its own statement. -/
theorem locatedIn_of_executes {scope : Nat} {s u : Session} {trees : List Tree}
    {outcomes : List (Option Diagnostic)} (h : Executes scope s trees outcomes u)
    {spans : List (List Token)} (hspans : List.Forall₂ Grammar.Declaration spans trees)
    (htrees : ∀ t ∈ trees, t.IsStatement)
    (hlines : ∀ span ∈ spans, span.Pairwise Token.NotBelow)
    (hnest : NotTooDeep outcomes.reduceOption) :
    List.Forall₂ (fun span o => ∀ d ∈ o, Diagnostic.LocatedIn d span) spans outcomes := by
  induction h generalizing spans with
  | nil =>
    cases hspans
    exact .nil
  | @cons s s' u t rest o outcomes ha _ ih =>
    obtain _ | ⟨hdecl, hspans⟩ := hspans
    obtain ⟨ht, hrest⟩ := List.forall_mem_cons.1 htrees
    obtain ⟨hline, hlines⟩ := List.forall_mem_cons.1 hlines
    refine .cons (fun d hd => ?_) (ih hspans hrest hlines fun d hd =>
      hnest d (mem_reduceOption_cons.2 (.inr hd)))
    obtain rfl : o = some d := hd
    obtain ⟨tok, htok, hat⟩ := at_of_attempt ht ha (hnest d List.mem_cons_self)
    obtain ⟨hmem, hk⟩ := hdecl.marks tok htok
    exact hat.locatedIn hmem hk hline

section

variable {spans : List (List Token)} {outcomes : List (Option Diagnostic)}

theorem exists_span_of_located
    (h : List.Forall₂ (fun span o => ∀ d ∈ o, Diagnostic.LocatedIn d span) spans outcomes)
    {d : Diagnostic} (hd : d ∈ outcomes.reduceOption) : ∃ span ∈ spans, d.LocatedIn span := by
  induction h with
  | nil => cases hd
  | @cons span o spans outcomes ho _ ih =>
    rcases mem_reduceOption_cons.1 hd with rfl | hd
    · exact ⟨span, List.mem_cons_self, ho d rfl⟩
    · obtain ⟨other, hmem, hloc⟩ := ih hd
      exact ⟨other, List.mem_cons_of_mem _ hmem, hloc⟩

/-- Complaints that are located in successive statements have lines that do not descend. -/
theorem pairwise_line_of_located
    (h : List.Forall₂ (fun span o => ∀ d ∈ o, Diagnostic.LocatedIn d span) spans outcomes)
    (hlines : spans.flatten.Pairwise Token.NotBelow) :
    outcomes.reduceOption.Pairwise fun d d' => d.line ≤ d'.line := by
  induction h with
  | nil => exact .nil
  | @cons span o spans outcomes ho hrest ih =>
    rw [List.flatten_cons] at hlines
    obtain ⟨-, hafter, hacross⟩ := List.pairwise_append.1 hlines
    cases o with
    | none => exact ih hafter
    | some d =>
      refine List.pairwise_cons.2 ⟨fun d' hd' => ?_, ih hafter⟩
      obtain ⟨t, ht, -, -, hline⟩ := (ho d rfl).token
      obtain ⟨other, hother, hloc⟩ := exists_span_of_located hrest hd'
      obtain ⟨t', ht', -, -, hline'⟩ := hloc.token
      rw [hline, hline']
      exact hacross t ht t' (List.mem_flatten.2 ⟨other, hother, ht'⟩)

end

/-- A program about which there are no complaints runs, and its tokens are those of its statements
and the end marker. Where no complaint is about nesting, each one is located in the statement that
it ends, and the lines of the complaints do not descend, from the first line on to that of the end
marker. -/
theorem source_complaints_located {text : String} {program : Program}
    (hp : Program.ofSource text = .ok program) (hclean : program.errors = []) (s : Session) :
    ∃ t spans ending outcomes, Run.source text s = .ok () t ∧
      (Scan.ofSource text).tokens = spans.flatten ++ [ending] ∧ ending.kind = .eof ∧
      List.Forall₂ Grammar.Declaration spans (program.statements.map Stmt.toTree) ∧
      (∃ u u', Executes globalScope u (program.statements.map Stmt.toTree) outcomes u' ∧
        u.scopes = s.scopes ∧ t.scopes = u'.scopes) ∧
      t.runtimeErrors = s.runtimeErrors ++ outcomes.reduceOption ∧
      (NotTooDeep outcomes.reduceOption →
        List.Forall₂ (fun span o => ∀ d ∈ o, Diagnostic.LocatedIn d span) spans outcomes ∧
        outcomes.reduceOption.Pairwise (fun d d' => d.line ≤ d'.line) ∧
        ∀ d ∈ outcomes.reduceOption, 1 ≤ d.line ∧ d.line ≤ ending.line) := by
  have hspells := spells_of_ofSource hp hclean
  obtain ⟨spans, hspans, hdecls⟩ := hspells.grammar.exists_spans
  obtain ⟨p, t, hp', ht, -, -, -, hrun⟩ := source_safe text s
  rw [hp] at hp'
  cases hp'
  obtain ⟨outcomes, u, u', hexec, hscopes, hscopes', herrors, -⟩ := hrun hclean
  -- the lines of the tokens, and of the end marker behind them
  have hlines := Scan.pairwise_line_tokens text
  rw [Scan.ofSource_tokens, hspans] at hlines
  obtain ⟨hflat, -, hend⟩ := List.pairwise_append.1 hlines
  refine ⟨t, spans, sourceEnd text, outcomes, ht, ?_, rfl, hdecls,
    ⟨u, u', hexec, hscopes, hscopes'⟩, herrors, fun hnest => ?_⟩
  · rw [Scan.ofSource_tokens, hspans]
  · have hlocated := locatedIn_of_executes hexec hdecls hspells.isStatement
      (List.pairwise_flatten.1 hflat).1 hnest
    refine ⟨hlocated, pairwise_line_of_located hlocated hflat, fun d hd => ?_⟩
    obtain ⟨span, hspan, hloc⟩ := exists_span_of_located hlocated hd
    obtain ⟨tok, htok, -, -, hline⟩ := hloc.token
    have hmem : tok ∈ spans.flatten := List.mem_flatten.2 ⟨span, hspan, htok⟩
    have hsource : tok ∈ sourceTokens text := hspans ▸ hmem
    rw [hline]
    exact ⟨le_line_of_mem_tokensOf hsource, hend tok hmem _ List.mem_cons_self⟩

theorem scan_two_lines :
    Scan.ofSource "print a;\nb;" =
      ⟨[⟨.kwPrint, "print", none, 1⟩, ⟨.identifier, "a", none, 1⟩, ⟨.semicolon, ";", none, 1⟩,
        ⟨.identifier, "b", none, 2⟩, ⟨.semicolon, ";", none, 2⟩, Token.eof 2], [], 2⟩ := by
  have hsegments : segments "print a;\nb;".toList =
      [.token .kwPrint ['p', 'r', 'i', 'n', 't'] none, .blank ' ', .token .identifier ['a'] none,
        .token .semicolon [';'] none, .newline, .token .identifier ['b'] none,
        .token .semicolon [';'] none] :=
    segments_eq_cons rfl (segments_eq_cons rfl (segments_eq_cons rfl (segments_eq_cons rfl
      (segments_eq_cons rfl (segments_eq_cons rfl (segments_eq_cons rfl segments.eq_1))))))
  unfold Scan.ofSource
  rw [hsegments]
  rfl

/-- Two statements on two lines, each with a complaint on its own line. -/
theorem source_complaints_located_two_lines :
    ∃ program t, Program.ofSource "print a;\nb;" = .ok program ∧ program.errors = [] ∧
      Run.source "print a;\nb;" (Session.start 0) = .ok () t ∧
      t.runtimeErrors = [.undefinedName ⟨.identifier, "a", none, 1⟩,
        .undefinedName ⟨.identifier, "b", none, 2⟩] ∧
      t.runtimeErrors.Pairwise (fun d d' => d.line ≤ d'.line) ∧
      ∀ d ∈ t.runtimeErrors, 1 ≤ d.line ∧ ∃ ending ∈ (Scan.ofSource "print a;\nb;").tokens,
        ending.kind = .eof ∧ d.line ≤ ending.line := by
  have hprogram : ∃ p, Program.ofSource "print a;\nb;" = .ok p ∧ p.errors = [] := by
    unfold Program.ofSource
    rw [scan_two_lines]
    exact ⟨_, rfl, rfl⟩
  have hrun : ∃ u, Run.source "print a;\nb;" (Session.start 0) = .ok () u ∧
      u.runtimeErrors = [.undefinedName ⟨.identifier, "a", none, 1⟩,
        .undefinedName ⟨.identifier, "b", none, 2⟩] := by
    unfold Run.source
    rw [scan_two_lines]
    exact ⟨_, rfl, rfl⟩
  obtain ⟨program, hp, hclean⟩ := hprogram
  obtain ⟨u, hu, htwo⟩ := hrun
  obtain ⟨t, spans, ending, outcomes, ht, htokens, hend, -, -, herrors, hlocated⟩ :=
    source_complaints_located hp hclean (Session.start 0)
  rw [hu] at ht
  cases ht
  have hall : u.runtimeErrors = outcomes.reduceOption := herrors
  have hnest : NotTooDeep outcomes.reduceOption := by
    rw [← hall, htwo]
    exact List.forall_mem_cons.2 ⟨nofun, List.forall_mem_singleton.2 nofun⟩
  obtain ⟨-, hlines, hbounds⟩ := hlocated hnest
  refine ⟨program, u, hp, hclean, hu, htwo, hall ▸ hlines, fun d hd => ?_⟩
  obtain ⟨hfirst, hlast⟩ := hbounds d (hall ▸ hd)
  refine ⟨hfirst, ending, ?_, hend, hlast⟩
  rw [htokens]
  exact List.mem_append_right _ List.mem_cons_self

end LoxTree
