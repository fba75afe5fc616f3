import LoxTree.Proofs.Running.Incremental

/-!
# What a running program does not look at

A program reads the scopes of its session and writes to the rest of it. What it does is therefore
the same in sessions that differ only in what it writes to, such as the traces: it neither finds
out how much is traced nor where the traces go.

* `Unseen R`: related sessions have the same scopes, and stay related when the same is done to both.
* `Blind R m`: the step `m` does not tell related sessions apart. `blind_evaluate` and the lemmas
  behind it go through all steps of a running program, up to `blind_source`.
* `renders_of_executes`: the one thing that a trace can do to a program is to run out of room, and
  that is a complaint about nesting.
* `source_level_irrelevant`: programs without such complaints do the same at all levels of tracing.
-/

namespace LoxTree

open Step Run

/-- A statement that is rendered is traced like any other line. -/
theorem noteStatement_of_render {t : Tree} {text : String}
    (h : t.render nestingRoom = .ok text) : noteStatement t = note 3 ("execute " ++ text) := by
  funext s
  rw [noteStatement_apply, h]
  show _ = EStateM.Result.ok () (if 3 ≤ s.level then s.note _ else s)
  split
  · next hl => exact congrArg (EStateM.Result.ok ()) (if_pos hl)
  · rfl

/-! ### Steps that do not tell sessions apart -/

/-- A relation between sessions that a running program does not see: the scopes are the same, and
what a program does to its session can be done to both. -/
structure Unseen (R : Session → Session → Prop) : Prop where
  scopes {s s' : Session} : R s s' → s'.scopes = s.scopes
  rescope {s s' : Session} : R s s' → ∀ scopes, R { s with scopes } { s' with scopes }
  say {s s' : Session} : R s s' → ∀ line, R (s.say line) (s'.say line)
  note {s s' : Session} : R s s' → ∀ (level : Int) (line : String),
    R (if level ≤ s.level then s.note line else s) (if level ≤ s'.level then s'.note line else s')
  begin {s s' : Session} : R s s' → ∀ errors, R (s.begin errors) (s'.begin errors)
  record {s s' : Session} : R s s' → ∀ errors,
    R { s with runtimeErrors := s.runtimeErrors ++ errors }
      { s' with runtimeErrors := s'.runtimeErrors ++ errors }

/-- A step that has the same outcome in related sessions, and keeps them related. -/
def Blind (R : Session → Session → Prop) {α : Type} (m : Run α) : Prop :=
  Agree R (fun a b s s' => b = a ∧ R s s') (fun f f' s s' => f' = f ∧ R s s') m m

variable {R : Session → Session → Prop}

namespace Blind

variable {α β : Type} {m : Run α}

theorem pure (a : α) : Blind R (Pure.pure a : Run α) :=
  fun _ _ h => ⟨rfl, h⟩

theorem throw (f : Fault) : Blind R (MonadExcept.throw f : Run α) :=
  fun _ _ h => ⟨rfl, h⟩

theorem modify {g : Session → Session} (h : ∀ s s', R s s' → R (g s) (g s')) :
    Blind R (MonadStateOf.modifyGet fun s => ((), g s) : Run Unit) :=
  fun s s' hs => ⟨rfl, h s s' hs⟩

theorem bind {k : α → Run β} (h : Blind R m) (hk : ∀ a, Blind R (k a)) : Blind R (m >>= k) := by
  refine Agree.bind h ?_
  rintro a b s s' ⟨rfl, hs⟩
  exact hk b s s' hs

theorem map {g : α → β} (h : Blind R m) : Blind R (g <$> m) := by
  refine Agree.map (h.mono (fun _ _ => id) ?_)
  rintro a b s s' ⟨rfl, hs⟩
  exact ⟨rfl, hs⟩

theorem ofExcept (x : Except Fault α) : Blind R (MonadExcept.ofExcept x : Run α) := by
  cases x with
  | ok a => exact .pure a
  | error f => exact .throw f

theorem tryCatch {rescue : Fault → Run α} (h : Blind R m) (hrescue : ∀ f, Blind R (rescue f)) :
    Blind R (MonadExcept.tryCatch m rescue) := by
  intro s s' hs
  cases hm : m s with
  | ok a u =>
    obtain ⟨b, u', hn, rfl, hu⟩ := h.ok hs hm
    rw [tryCatch_of_ok hm, tryCatch_of_ok hn]
    exact ⟨rfl, hu⟩
  | error f u =>
    obtain ⟨g, u', hn, rfl, hu⟩ := h.error hs hm
    rw [tryCatch_of_error hm, tryCatch_of_error hn]
    exact hrescue g u u' hu

end Blind

namespace Unseen

variable (hR : Unseen R)
include hR

/-! ### Names and expressions -/

theorem blind_say (line : String) : Blind R (Run.say line) :=
  .modify fun _ _ h => hR.say h line

theorem blind_note (level : Int) (line : String) : Blind R (Run.note level line) :=
  .modify fun _ _ h => hR.note h level line

theorem blind_readName (scope : Nat) (name : Token) : Blind R (readName scope name) := by
  intro s s' h
  rw [readName_apply, readName_apply, hR.scopes h]
  cases s.scopes.get scope name with
  | ok v => exact ⟨rfl, h⟩
  | error d => exact ⟨rfl, h⟩

theorem blind_assignName (scope : Nat) (name : Token) (value : Value) :
    Blind R (assignName scope name value) := by
  intro s s' h
  rw [assignName_apply, assignName_apply, hR.scopes h]
  cases s.scopes.assign scope name value with
  | ok scopes => exact ⟨rfl, hR.rescope h scopes⟩
  | error d => exact ⟨rfl, h⟩

theorem blind_defineName (scope : Nat) (name : String) (value : Value) :
    Blind R (defineName scope name value) := by
  refine .modify fun s s' h => ?_
  rw [hR.scopes h]
  exact hR.rescope h _

theorem blind_evaluate (scope room : Nat) (t : Tree) : Blind R (evaluate scope room t) := by
  induction room generalizing t with
  | zero => exact .throw _
  | succ room ih =>
    cases t with
    | literal v =>
      show Blind R (if v.isLox then Pure.pure v else throw (.unsupported (.literal v)))
      split
      · exact .pure v
      · exact .throw _
    | grouping e => exact ih e
    | reference n => exact (Blind.ofExcept _).bind fun name => hR.blind_readName scope name
    | assign n e =>
      exact (ih e).bind fun value => (Blind.ofExcept _).bind fun name =>
        (hR.blind_assignName scope name value).bind fun _ =>
          (hR.blind_note _ _).bind fun _ => .pure value
    | unary op e =>
      exact (ih e).bind fun value => (Blind.ofExcept _).bind fun operator => .ofExcept _
    | binary l op r =>
      exact (ih l).bind fun left => (ih r).bind fun right =>
        (Blind.ofExcept _).bind fun operator => .ofExcept _
    | _ => exact .throw _

/-! ### Statements -/

theorem blind_initialValue (scope : Nat) (t : Tree) : Blind R (initialValue scope t) := by
  unfold initialValue
  split
  · exact .pure _
  · exact hR.blind_evaluate scope nestingRoom _

/-- Tracing a statement is not seen if both sessions trace statements or neither does, or if there
is room to render it. -/
theorem blind_noteStatement {t : Tree}
    (h : (∀ s s', R s s' → (3 ≤ s.level ↔ 3 ≤ s'.level)) ∨
      ∃ text, t.render nestingRoom = .ok text) : Blind R (noteStatement t) := by
  rcases h with hlevel | ⟨text, htext⟩
  · intro s s' hs
    rw [noteStatement_apply, noteStatement_apply]
    by_cases hl : 3 ≤ s.level
    · rw [if_pos hl, if_pos ((hlevel s s' hs).1 hl)]
      exact (Blind.ofExcept _).bind (fun text => hR.blind_note 3 _) s s' hs
    · rw [if_neg hl, if_neg (mt (hlevel s s' hs).2 hl)]
      exact ⟨rfl, hs⟩
  · rw [noteStatement_of_render htext]
    exact hR.blind_note 3 _

theorem blind_execute (scope : Nat) {t : Tree} (h : Blind R (noteStatement t)) :
    Blind R (execute scope t) := by
  refine h.bind fun _ => ?_
  cases t with
  | expressionStmt e => exact (hR.blind_evaluate scope nestingRoom e).map
  | printStmt e =>
    exact (hR.blind_evaluate scope nestingRoom e).bind fun value => hR.blind_say value.display
  | varDecl n i =>
    exact (hR.blind_initialValue scope i).bind fun value => (Blind.ofExcept _).bind fun name =>
      (hR.blind_defineName scope name.lexeme value).bind fun _ => hR.blind_note _ _
  | _ => exact .throw _

/-- A complaint about a statement is traced, reported and handed back. -/
theorem blind_attempt (scope : Nat) {t : Tree} (h : Blind R (noteStatement t)) :
    Blind R (attempt scope t) := by
  refine ((hR.blind_execute scope h).bind fun _ => .pure none).tryCatch fun f => ?_
  cases f with
  | diagnostic d => exact (hR.blind_note _ _).bind fun _ => (hR.blind_say _).bind fun _ => .pure _
  | tooDeep => exact (hR.blind_note _ _).bind fun _ => (hR.blind_say _).bind fun _ => .pure _
  | _ => exact .throw _

theorem blind_attemptAll (scope : Nat) {trees : List Tree}
    (h : ∀ t ∈ trees, Blind R (noteStatement t)) : Blind R (attemptAll scope trees) := by
  induction trees with
  | nil => exact .pure []
  | cons t rest ih =>
    exact (hR.blind_attempt scope (h t List.mem_cons_self)).bind fun o =>
      (ih fun t ht => h t (List.mem_cons_of_mem _ ht)).bind fun errors => .pure _

theorem blind_statements (scope : Nat) {trees : List Tree}
    (h : ∀ t ∈ trees, Blind R (noteStatement t)) : Blind R (statements scope trees) :=
  (hR.blind_note _ _).bind fun _ => (hR.blind_attemptAll scope h).bind fun errors =>
    (Blind.modify fun _ _ hs => hR.record hs errors).bind fun _ => .pure errors

/-! ### Programs -/

theorem blind_noteTokens (tokens : List Token) : Blind R (noteTokens tokens) := by
  induction tokens with
  | nil => exact .pure ()
  | cons t rest ih => exact (hR.blind_note _ _).bind fun _ => ih

theorem blind_reportAll (errors : List Diagnostic) : Blind R (reportAll errors) := by
  induction errors with
  | nil => exact .pure ()
  | cons d rest ih => exact (hR.blind_say _).bind fun _ => ih

/-- A program does not tell related sessions apart, if the traces of the statements that it runs do
not. -/
theorem blind_source {text : String}
    (h : ∀ program, Program.ofTokens (Scan.ofSource text).tokens = .ok program →
      (Scan.ofSource text).errors ++ program.errors = [] →
      ∀ t ∈ program.statements.map Stmt.toTree, Blind R (noteStatement t)) :
    Blind R (Run.source text) := by
  refine (hR.blind_noteTokens _).bind fun _ => ?_
  cases hp : Program.ofTokens (Scan.ofSource text).tokens with
  | error f => exact .throw f
  | ok program =>
    show Blind R (do
      modify (·.begin ((Scan.ofSource text).errors ++ program.errors))
      if ((Scan.ofSource text).errors ++ program.errors).isEmpty then
        discard (statements globalScope (program.statements.map Stmt.toTree))
      else do
        reportAll ((Scan.ofSource text).errors ++ program.errors)
        Run.note 1 _)
    refine Blind.bind (.modify fun _ _ hs => hR.begin hs _) fun _ => ?_
    split
    · next hclean =>
      exact (hR.blind_statements globalScope (h program hp (List.isEmpty_iff.1 hclean))).map
    · exact (hR.blind_reportAll _).bind fun _ => hR.blind_note _ _

end Unseen

/-! ### Levels of tracing -/

/-- Sessions that differ in tracing at most: in the level, in where the traces go and in what was
traced. -/
structure Session.SameButTracing (s s' : Session) : Prop where
  scopes : s'.scopes = s.scopes
  output : s'.output = s.output
  staticErrors : s'.staticErrors = s.staticErrors
  runtimeErrors : s'.runtimeErrors = s.runtimeErrors

/-- Sessions at the given levels that differ in tracing at most. -/
def AtLevels (l l' : Int) (s s' : Session) : Prop :=
  s.SameButTracing s' ∧ s.level = l ∧ s'.level = l'

theorem AtLevels.silent {l l' : Int} {s s' u u' : Session} (h : AtLevels l l' s s')
    (hs : s.Silent u) (hs' : s'.Silent u') (hscopes : u'.scopes = u.scopes) :
    AtLevels l l' u u' := by
  obtain ⟨hsame, hl, hl'⟩ := h
  refine ⟨⟨hscopes, ?_, ?_, ?_⟩, hs.level.trans hl, hs'.level.trans hl'⟩
  · rw [hs'.output, hsame.output, hs.output]
  · rw [hs'.staticErrors, hsame.staticErrors, hs.staticErrors]
  · rw [hs'.runtimeErrors, hsame.runtimeErrors, hs.runtimeErrors]

/-- A running program does not see the levels. -/
theorem unseen_atLevels (l l' : Int) : Unseen (AtLevels l l') where
  scopes h := h.1.scopes
  rescope h scopes := h.silent (Session.silent_scopes _ scopes) (Session.silent_scopes _ scopes) rfl
  say {s s'} h line := by
    refine ⟨⟨h.1.scopes, ?_, h.1.staticErrors, h.1.runtimeErrors⟩, h.2⟩
    show s'.output ++ line ++ "\n" = s.output ++ line ++ "\n"
    rw [h.1.output]
  note {s s'} h level line := by
    obtain ⟨hsilent, hscopes⟩ := s.silent_noteAt level line
    obtain ⟨hsilent', hscopes'⟩ := s'.silent_noteAt level line
    exact h.silent hsilent hsilent' (hscopes'.trans (h.1.scopes.trans hscopes.symm))
  begin h errors := ⟨⟨h.1.scopes, h.1.output, rfl, h.1.runtimeErrors⟩, h.2⟩
  record {s s'} h errors := by
    refine ⟨⟨h.1.scopes, h.1.output, h.1.staticErrors, ?_⟩, h.2⟩
    show s'.runtimeErrors ++ errors = s.runtimeErrors ++ errors
    rw [h.1.runtimeErrors]

/-- A statement that cannot be rendered is not executed where statements are traced; its complaint
is about nesting. -/
theorem attempt_of_render {t : Tree} (ht : t.IsStatement) {f : Fault}
    (h : t.render nestingRoom = .error f) {s : Session} (hlevel : 3 ≤ s.level) (scope : Nat) :
    ∃ d u, attempt scope t s = .ok (some d) u ∧ d.complaint = .nestedTooDeeply := by
  obtain rfl := ht.renders nestingRoom f h
  have hnote : noteStatement t s = .error .tooDeep s := by
    rw [noteStatement_apply, if_pos hlevel, h]
    rfl
  obtain ⟨u, -, -, ha⟩ := attempt_of_error (bind_of_error hnote : execute scope t s = _) rfl
  exact ⟨_, _, ha, rfl⟩

/-- Where statements are traced and no complaint is about nesting, all of them were rendered. -/
theorem renders_of_executes {scope : Nat} {s u : Session} {trees : List Tree}
    {outcomes : List (Option Diagnostic)} (h : Executes scope s trees outcomes u)
    (htrees : ∀ t ∈ trees, t.IsStatement) (hlevel : 3 ≤ s.level)
    (hnest : NotTooDeep outcomes.reduceOption) :
    ∀ t ∈ trees, ∃ text, t.render nestingRoom = .ok text := by
  induction h with
  | nil => simp
  | @cons s s' u t rest o outcomes ha _ ih =>
    obtain ⟨ht, hrest⟩ := List.forall_mem_cons.1 htrees
    refine List.forall_mem_cons.2 ⟨?_, ?_⟩
    · cases hr : t.render nestingRoom with
      | ok text => exact ⟨text, rfl⟩
      | error f =>
        obtain ⟨d, v, ha', hd⟩ := attempt_of_render ht hr hlevel scope
        rw [ha] at ha'
        cases ha'
        exact absurd hd (hnest d List.mem_cons_self)
    · obtain ⟨_, _, ha', hsafe, -⟩ := attempt_safe ht scope s
      rw [ha] at ha'
      cases ha'
      exact ih hrest (hsafe.1.level ▸ hlevel) fun d hd =>
        hnest d (mem_reduceOption_cons.2 (.inr hd))

/-- A program ends well, and where statements are traced and its complaints are not about nesting,
all of its statements were rendered. -/
theorem source_renders (text : String) (s : Session) :
    ∃ t added, Run.source text s = .ok () t ∧ t.runtimeErrors = s.runtimeErrors ++ added ∧
      (NotTooDeep added → 3 ≤ s.level → ∀ program,
        Program.ofTokens (Scan.ofSource text).tokens = .ok program →
        (Scan.ofSource text).errors ++ program.errors = [] →
        ∀ tree ∈ program.statements.map Stmt.toTree, ∃ rendering,
          tree.render nestingRoom = .ok rendering) := by
  obtain ⟨program, hp, -⟩ := isStatement_of_ofSource text
  have htrees := isStatement_of_ofTokens hp
  by_cases herr : (Scan.ofSource text).errors ++ program.errors = []
  · obtain ⟨u, hu, -, hrun⟩ := source_of_clean hp herr s
    obtain ⟨outcomes, u', hexec, -⟩ := exists_executes htrees globalScope u
    refine ⟨_, outcomes.reduceOption, hrun outcomes u' hexec, ?_, fun hnest hlevel p hp' _ => ?_⟩
    · show u'.runtimeErrors ++ _ = _
      rw [(hexec.safe htrees).1.runtimeErrors, hu.runtimeErrors]
      rfl
    · rw [hp] at hp'
      cases hp'
      exact renders_of_executes hexec htrees (hu.level ▸ hlevel) hnest
  · obtain ⟨t, ht, hframe, -⟩ := source_of_errors hp rfl herr s
    refine ⟨t, [], ht, ?_, fun _ _ p hp' hnil => ?_⟩
    · rw [hframe.runtimeErrors, List.append_nil]
      rfl
    · rw [hp] at hp'
      cases hp'
      exact absurd hnil herr

/-- In sessions that differ in tracing at most, at whatever levels, a program ends well, and unless
one of the runs complains about nesting, the sessions after it differ in tracing at most: the
output, the complaints and the scopes are the same. -/
theorem source_level_irrelevant (text : String) {s s' : Session} (h : s.SameButTracing s') :
    ∃ t t' added added', Run.source text s = .ok () t ∧ Run.source text s' = .ok () t' ∧
      t.runtimeErrors = s.runtimeErrors ++ added ∧ t'.runtimeErrors = s'.runtimeErrors ++ added' ∧
      (NotTooDeep added → NotTooDeep added' → t.SameButTracing t') := by
  obtain ⟨t, added, ht, hadded, hrendered⟩ := source_renders text s
  obtain ⟨t', added', ht', hadded', hrendered'⟩ := source_renders text s'
  refine ⟨t, t', added, added', ht, ht', hadded, hadded', fun hnest hnest' => ?_⟩
  have hunseen := unseen_atLevels s.level s'.level
  have hblind : Blind (AtLevels s.level s'.level) (Run.source text) := by
    refine hunseen.blind_source fun program hp herr tree htree => ?_
    refine hunseen.blind_noteStatement ?_
    by_cases hl : 3 ≤ s.level
    · exact .inr (hrendered hnest hl program hp herr tree htree)
    · by_cases hl' : 3 ≤ s'.level
      · exact .inr (hrendered' hnest' hl' program hp herr tree htree)
      · refine .inl fun u u' hu => ?_
        rw [hu.2.1, hu.2.2]
        exact iff_of_false hl hl'
  obtain ⟨_, u', hu', -, hsame⟩ := hblind.ok ⟨h, rfl, rfl⟩ ht
  rw [ht'] at hu'
  cases hu'
  exact hsame.1

/-- Without tracing and with all of it, `print b;` complains about the name; only the second session
has a trace. -/
theorem source_level_irrelevant_undefined :
    (Session.start 0).SameButTracing (Session.start 3) ∧
      ∃ t t', Run.source "print b;" (Session.start 0) = .ok () t ∧
        Run.source "print b;" (Session.start 3) = .ok () t' ∧ t.SameButTracing t' ∧
        t'.runtimeErrors = [.undefinedName ⟨.identifier, "b", none, 1⟩] ∧
        t.trace = "" ∧ t'.trace ≠ "" := by
  have hstart : (Session.start 0).SameButTracing (Session.start 3) := ⟨rfl, rfl, rfl, rfl⟩
  have hruns : ∃ u u', Run.source "print b;" (Session.start 0) = .ok () u ∧
      Run.source "print b;" (Session.start 3) = .ok () u' ∧
      u.runtimeErrors = [.undefinedName ⟨.identifier, "b", none, 1⟩] ∧
      u'.runtimeErrors = [.undefinedName ⟨.identifier, "b", none, 1⟩] ∧
      u.trace = "" ∧ u'.trace ≠ "" := by
    unfold Run.source
    rw [scan_printing]
    exact ⟨_, _, rfl, rfl, rfl, rfl, rfl, by decide⟩
  obtain ⟨u, u', hu, hu', hone, hone', hquiet, hloud⟩ := hruns
  obtain ⟨t, t', added, added', ht, ht', hadded, hadded', hsame⟩ :=
    source_level_irrelevant "print b;" hstart
  rw [hu] at ht
  rw [hu'] at ht'
  cases ht
  cases ht'
  have hnest : NotTooDeep [.undefinedName ⟨.identifier, "b", none, 1⟩] := by
    intro d hd
    rw [List.mem_singleton.1 hd]
    nofun
  obtain rfl : [_] = added := hone.symm.trans hadded
  obtain rfl : [_] = added' := hone'.symm.trans hadded'
  exact ⟨hstart, u, u', hu, hu', hsame hnest hnest, hone', hquiet, hloud⟩

end LoxTree
