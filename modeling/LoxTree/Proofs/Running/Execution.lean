import LoxTree.Proofs.Running.Evaluation
import LoxTree.Session.Execute
import Mathlib.Data.List.ReduceOption

/-!
# Statements and programs

What running a statement and a program does to a session. A statement that fails is reported and
the next one runs, so that a run is a sequence of attempts (`Executes`), each with at most one
complaint.

* `execute_safe`, `attempt_safe`: a parsed statement keeps the scopes typed and fails only as a
  running program may, so that an attempt at it always ends well.
* `exists_executes`: attempts at parsed statements go on to the last one.
* `source_of_clean`: a program about which there are no complaints is such a sequence of attempts.
* `source_of_errors`: a program about which there are complaints is not run.
-/

namespace LoxTree

open Step Run

/-! ### Rendering -/

/-- Rendering a tree fails only for want of room. -/
def Tree.Renders (t : Tree) : Prop :=
  ∀ room f, t.render room = .error f → f = .tooDeep

theorem bind_eq_error {α β : Type} {x : Except Fault α} {k : α → Except Fault β} {f : Fault}
    (h : (x >>= k) = .error f) : x = .error f ∨ ∃ a, x = .ok a ∧ k a = .error f := by
  cases x with
  | ok a => exact .inr ⟨a, rfl, h⟩
  | error f' =>
    cases h
    exact .inl rfl

theorem mapM_eq_error {α β : Type} {g : α → Except Fault β} {items : List α} {f : Fault}
    (h : items.mapM g = .error f) : ∃ item ∈ items, g item = .error f := by
  induction items with
  | nil => cases h
  | cons item rest ih =>
    rw [List.mapM_cons] at h
    rcases bind_eq_error h with h | ⟨b, -, h⟩
    · exact ⟨item, List.mem_cons_self, h⟩
    · rcases bind_eq_error h with h | ⟨bs, -, h⟩
      · obtain ⟨other, hmem, hother⟩ := ih h
        exact ⟨other, List.mem_cons_of_mem item hmem, hother⟩
      · cases h

theorem Tree.renders_of_leaf {t : Tree} {s : String} (h : t.outline = .ok (.leaf s)) :
    t.Renders := by
  intro room f hf
  -- three units of room go to a tree before it is looked at
  match room with
  | 0 | 1 | 2 =>
    cases hf
    rfl
  | room + 3 =>
    rw [render.eq_1, h] at hf
    cases hf

/-- A tree whose outline has parts renders if the parts do. -/
theorem Tree.renders_of_parens {t : Tree} {heading : String} {parts : List RenderPart}
    (h : t.outline = .ok (.parens heading parts))
    (hparts : ∀ part, .tree part ∈ parts → part.Renders) : t.Renders := by
  intro room f hf
  match room with
  | 0 | 1 | 2 =>
    cases hf
    rfl
  | room + 3 =>
    rw [render.eq_1] at hf
    rcases bind_eq_error hf with hf | ⟨o, ho, hf⟩
    · rw [h] at hf
      cases hf
    · rw [h] at ho
      cases ho
      rcases bind_eq_error hf with hf | ⟨texts, -, hf⟩
      · obtain ⟨part, hmem, hpart⟩ := mapM_eq_error hf
        cases part with
        | text s => cases hpart
        | tree part => exact hparts part hmem room f hpart
      · cases hf

/-- Parsed expressions render. -/
theorem Tree.IsExpression.renders {t : Tree} (h : t.IsExpression) : t.Renders := by
  induction h with
  | literal => exact renders_of_leaf rfl
  | grouping _ ih => exact renders_of_parens rfl (by simpa using ih)
  | unary _ _ ih => exact renders_of_parens rfl (by simpa using ih)
  | binary _ _ _ ihl ihr => exact renders_of_parens rfl (by simpa using ⟨ihl, ihr⟩)
  | reference => exact renders_of_leaf rfl
  | assign _ _ ih => exact renders_of_parens rfl (by simpa using ih)

/-- Parsed statements render. -/
theorem Tree.IsStatement.renders {t : Tree} (h : t.IsStatement) : t.Renders := by
  cases h with
  | expression he => exact renders_of_parens rfl (by simpa using he.renders)
  | print he => exact renders_of_parens rfl (by simpa using he.renders)
  | declare => exact renders_of_parens rfl (by simp)
  | @declareAs name e he =>
    -- an initial value is rendered unless it is missing, and an expression is not
    have hr := he.renders
    cases he <;> exact renders_of_parens rfl (by simpa using hr)

/-! ### Statements -/

theorem noteStatement_apply (t : Tree) (s : Session) :
    noteStatement t s = (if 3 ≤ s.level then
      (do let text ← ofExcept (t.render nestingRoom); note 3 ("execute " ++ text))
    else pure () : Run Unit) s :=
  rfl

theorem noteStatement_safe {t : Tree} (h : t.Renders) (s : Session) :
    Ensures (noteStatement t) s (fun _ s' => s.Silent s' ∧ s'.scopes = s.scopes)
      (fun f s' => f = .tooDeep ∧ s' = s) := by
  refine (Ensures.congr (noteStatement_apply t s)).2 ?_
  split
  · refine Ensures.bind (Ensures.ofExcept (fun text _ => ?_) fun f hf => ?_)
    · obtain ⟨s', hs', hsilent, hscopes⟩ := note_eq_ok 3 ("execute " ++ text) s
      exact .of_ok hs' ⟨hsilent, hscopes⟩
    · exact ⟨h _ f hf, rfl⟩
  · exact ⟨.refl s, rfl⟩

/-- What a parsed statement may do to a session: print and trace, and change typed scopes to typed
scopes. -/
def Session.Safe (s s' : Session) : Prop :=
  s.Frame s' ∧ s.KeepsTyped s'

theorem Session.Safe.trans {s t u : Session} (h : s.Safe t) (h' : t.Safe u) : s.Safe u :=
  ⟨h.1.trans h'.1, fun ht => h'.2 (h.2 ht)⟩

theorem Session.Silent.safe {s s' : Session} (h : s.Silent s') (hscopes : s'.scopes = s.scopes) :
    s.Safe s' :=
  ⟨h.toFrame, fun ht => hscopes ▸ ht⟩

/-- The value of a parsed expression is one of the language if the scopes are typed. -/
theorem evaluate_safe {e : Tree} (h : e.IsExpression) (scope room : Nat) (s : Session) :
    Ensures (evaluate scope room e) s
      (fun v s' => s.Safe s' ∧ (s.scopes.Typed → v.isLox = true))
      (fun f s' => s.Safe s' ∧ f.OfRun) := by
  refine ((silentRun_evaluate scope room e s).and (safeRun_evaluate h scope room s)).mono ?_ ?_
  · rintro v s' ⟨hsilent, hkeeps, hv⟩
    exact ⟨⟨hsilent.toFrame, hkeeps⟩, hv⟩
  · rintro f s' ⟨hsilent, hkeeps, hf⟩
    exact ⟨⟨hsilent.toFrame, hkeeps⟩, hf⟩

theorem initialValue_of_isExpression {e : Tree} (h : e.IsExpression) (scope : Nat) :
    initialValue scope e = evaluate scope nestingRoom e := by
  cases h <;> rfl

/-- Binding a name to a value and tracing it. -/
theorem define_safe (scope : Nat) (name : Token) {value : Value} {s₀ s : Session} (hs : s₀.Safe s)
    (hv : s₀.scopes.Typed → value.isLox = true) :
    Ensures (do
      defineName scope name.lexeme value
      note 2 (bindingNote "define" name.lexeme value)) s
      (fun _ s' => s₀.Safe s') (fun f s' => s₀.Safe s' ∧ f.OfRun) := by
  refine Ensures.bind (.of_ok rfl ?_)
  obtain ⟨s', hs', hsilent, hscopes⟩ := note_eq_ok 2 (bindingNote "define" name.lexeme value)
    { s with scopes := s.scopes.define scope name.lexeme value }
  refine .of_ok hs' ⟨hs.1.trans ((s.silent_scopes _).toFrame.trans hsilent.toFrame), fun ht => ?_⟩
  rw [hscopes]
  exact (hs.2 ht).define (hv ht) scope name.lexeme

/-- A parsed statement keeps the scopes typed, and fails only as a running program may. -/
theorem execute_safe {t : Tree} (h : t.IsStatement) (scope : Nat) (s : Session) :
    Ensures (execute scope t) s (fun _ s' => s.Safe s') (fun f s' => s.Safe s' ∧ f.OfRun) := by
  unfold execute
  refine Ensures.bind ((noteStatement_safe h.renders s).mono ?_ ?_)
  · rintro _ u ⟨hsilent, hscopes⟩
    have hu : s.Safe u := hsilent.safe hscopes
    cases h with
    | expression he =>
      refine Ensures.map ((evaluate_safe he scope nestingRoom u).mono ?_ ?_)
      · exact fun v s' hs' => hu.trans hs'.1
      · exact fun f s' hs' => ⟨hu.trans hs'.1, hs'.2⟩
    | print he =>
      refine Ensures.bind ((evaluate_safe he scope nestingRoom u).mono ?_ ?_)
      · exact fun v s' hs' => (hu.trans hs'.1).trans ⟨s'.frame_say _, id⟩
      · exact fun f s' hs' => ⟨hu.trans hs'.1, hs'.2⟩
    | declare name =>
      refine Ensures.bind (.of_ok (a := Value.nil) rfl ?_)
      exact define_safe scope name hu fun _ => rfl
    | declareAs name he =>
      dsimp only
      rw [initialValue_of_isExpression he]
      refine Ensures.bind ((evaluate_safe he scope nestingRoom u).mono ?_ ?_)
      · intro v s' hs'
        exact define_safe scope name (hu.trans hs'.1) fun ht => hs'.2 (hu.2 ht)
      · exact fun f s' hs' => ⟨hu.trans hs'.1, hs'.2⟩
  · -- the trace itself ran out of room
    rintro f u ⟨rfl, rfl⟩
    exact ⟨⟨.refl u, id⟩, .inl rfl⟩

/-! ### Attempts -/

section

variable {scope : Nat} {t : Tree} {s u : Session}

theorem attempt_of_ok (h : execute scope t s = .ok () u) : attempt scope t s = .ok none u := by
  have hbind : (do execute scope t; return none : Run (Option Diagnostic)) s = .ok none u := by
    rw [bind_of_ok h]
    rfl
  exact tryCatch_of_ok hbind

/-- A complaint is traced, reported and handed back. -/
theorem report_eq_ok (line : String) (d : Diagnostic) (u : Session) :
    ∃ u', u.Silent u' ∧ u'.scopes = u.scopes ∧
      (do note 1 line; say d.text; return some d : Run (Option Diagnostic)) u =
        .ok (some d) (u'.say d.text) := by
  obtain ⟨u', hu', hsilent, hscopes⟩ := note_eq_ok 1 line u
  refine ⟨u', hsilent, hscopes, ?_⟩
  rw [bind_of_ok hu']
  rfl

/-- The complaint that a statement ends with when it fails, unless it ends the whole run. -/
def complaintOf? (t : Tree) : Fault → Option Diagnostic
  | .diagnostic d => some d
  | .tooDeep => some (.runtime none .nestedTooDeeply t.firstLine)
  | _ => none

theorem attempt_of_error {f : Fault} {d : Diagnostic} (h : execute scope t s = .error f u)
    (hd : complaintOf? t f = some d) :
    ∃ u', u.Silent u' ∧ u'.scopes = u.scopes ∧
      attempt scope t s = .ok (some d) (u'.say d.text) := by
  have hbind : (do execute scope t; return none : Run (Option Diagnostic)) s = .error f u :=
    bind_of_error h
  unfold attempt
  rw [tryCatch_of_error hbind]
  cases f with
  | diagnostic d' =>
    cases hd
    exact report_eq_ok _ d u
  | tooDeep =>
    cases hd
    exact report_eq_ok _ _ u
  | _ => cases hd

end

theorem Fault.OfRun.complaint {f : Fault} (h : f.OfRun) (t : Tree) :
    ∃ d, complaintOf? t f = some d ∧ d.OfRun := by
  rcases h with rfl | ⟨d, rfl, hd⟩
  · exact ⟨_, rfl, .inr (.inr ⟨_, rfl⟩)⟩
  · exact ⟨d, rfl, hd⟩

/-- An attempt at a parsed statement always ends well, with at most one complaint. -/
theorem attempt_safe {t : Tree} (h : t.IsStatement) (scope : Nat) (s : Session) :
    ∃ o s', attempt scope t s = .ok o s' ∧ s.Safe s' ∧ ∀ d ∈ o, d.OfRun := by
  have hexec := execute_safe h scope s
  cases hs : execute scope t s with
  | ok _ u => exact ⟨none, u, attempt_of_ok hs, hexec.ok hs, by simp⟩
  | error f u =>
    obtain ⟨hsafe, hf⟩ := hexec.error hs
    obtain ⟨d, hd, hrun⟩ := hf.complaint t
    obtain ⟨u', hsilent, hscopes, ha⟩ := attempt_of_error hs hd
    have hsay : u'.Safe (u'.say d.text) := ⟨u'.frame_say d.text, id⟩
    refine ⟨_, _, ha, (hsafe.trans (hsilent.safe hscopes)).trans hsay, ?_⟩
    rintro _ ⟨⟩
    exact hrun

/-- Attempts at statements in turn, each with the complaint that it ends with, if any. -/
inductive Executes (scope : Nat) : Session → List Tree → List (Option Diagnostic) → Session → Prop
  | nil (s : Session) : Executes scope s [] [] s
  | cons {s s' s'' : Session} {t : Tree} {rest : List Tree} {o : Option Diagnostic}
    {outcomes : List (Option Diagnostic)} : attempt scope t s = .ok o s' →
    Executes scope s' rest outcomes s'' → Executes scope s (t :: rest) (o :: outcomes) s''

theorem mem_reduceOption_cons {o : Option Diagnostic} {outcomes : List (Option Diagnostic)}
    {d : Diagnostic} :
    d ∈ (o :: outcomes).reduceOption ↔ o = some d ∨ d ∈ outcomes.reduceOption := by
  rw [List.reduceOption_mem_iff, List.reduceOption_mem_iff, List.mem_cons, eq_comm]

theorem Executes.attemptAll_eq {scope : Nat} {s s' : Session} {trees : List Tree}
    {outcomes : List (Option Diagnostic)} (h : Executes scope s trees outcomes s') :
    attemptAll scope trees s = .ok outcomes.reduceOption s' := by
  induction h with
  | nil => rfl
  | @cons s s' s'' t rest o outcomes ha _ ih =>
    unfold attemptAll
    rw [bind_of_ok ha, bind_of_ok ih]
    cases o <;> rfl

theorem Executes.append {scope : Nat} {s u s' : Session} {trees others : List Tree}
    {outcomes outcomes' : List (Option Diagnostic)} (h : Executes scope s trees outcomes u)
    (h' : Executes scope u others outcomes' s') :
    Executes scope s (trees ++ others) (outcomes ++ outcomes') s' := by
  induction h with
  | nil => exact h'
  | cons ha _ ih => exact .cons ha (ih h')

/-- What attempts at parsed statements may do to a session. -/
theorem Executes.safe {scope : Nat} {s s' : Session} {trees : List Tree}
    {outcomes : List (Option Diagnostic)} (h : Executes scope s trees outcomes s')
    (htrees : ∀ t ∈ trees, t.IsStatement) : s.Safe s' := by
  induction h with
  | nil s => exact ⟨.refl s, id⟩
  | @cons s u s' t rest o outcomes ha _ ih =>
    -- an attempt has one outcome, and that is a safe one
    obtain ⟨_, _, ha', hsafe, -⟩ := attempt_safe (htrees t List.mem_cons_self) scope s
    rw [ha] at ha'
    cases ha'
    exact hsafe.trans (ih fun t ht => htrees t (List.mem_cons_of_mem _ ht))

/-- Attempts at parsed statements go on to the last one. -/
theorem exists_executes {trees : List Tree} (h : ∀ t ∈ trees, t.IsStatement) (scope : Nat)
    (s : Session) :
    ∃ outcomes s', Executes scope s trees outcomes s' ∧ ∀ d ∈ outcomes.reduceOption, d.OfRun := by
  induction trees generalizing s with
  | nil => exact ⟨[], s, .nil s, by simp⟩
  | cons t rest ih =>
    obtain ⟨o, u, ha, -, ho⟩ := attempt_safe (h t List.mem_cons_self) scope s
    obtain ⟨outcomes, s', hrun, hall⟩ := ih (fun t ht => h t (List.mem_cons_of_mem _ ht)) u
    refine ⟨o :: outcomes, s', .cons ha hrun, fun d hd => ?_⟩
    exact (mem_reduceOption_cons.1 hd).elim (ho d) (hall d)

/-! ### Programs -/

theorem noteTokens_eq_ok (tokens : List Token) (s : Session) :
    ∃ s', noteTokens tokens s = .ok () s' ∧ s.Silent s' ∧ s'.scopes = s.scopes := by
  induction tokens generalizing s with
  | nil => exact ⟨s, rfl, .refl s, rfl⟩
  | cons t rest ih =>
    obtain ⟨u, hu, hsilent, hscopes⟩ :=
      note_eq_ok 2 ("token [line " ++ toString t.line ++ "] " ++ t.text) s
    obtain ⟨s', hs', hsilent', hscopes'⟩ := ih u
    refine ⟨s', ?_, hsilent.trans hsilent', hscopes'.trans hscopes⟩
    unfold noteTokens
    rw [bind_of_ok hu]
    exact hs'

theorem reportAll_eq_ok (errors : List Diagnostic) (s : Session) :
    ∃ s', reportAll errors s = .ok () s' ∧ s.Frame s' ∧ s'.scopes = s.scopes := by
  induction errors generalizing s with
  | nil => exact ⟨s, rfl, .refl s, rfl⟩
  | cons d rest ih =>
    obtain ⟨s', hs', hframe, hscopes⟩ := ih (s.say d.text)
    exact ⟨s', hs', (s.frame_say d.text).trans hframe, hscopes⟩

/-- Running statements is a sequence of attempts whose complaints are recorded at its end. -/
theorem statements_eq (scope : Nat) (trees : List Tree) (s : Session) :
    ∃ u, s.Silent u ∧ u.scopes = s.scopes ∧ ∀ outcomes u', Executes scope u trees outcomes u' →
      statements scope trees s = .ok outcomes.reduceOption
        { u' with runtimeErrors := u'.runtimeErrors ++ outcomes.reduceOption } := by
  obtain ⟨u, hu, hsilent, hscopes⟩ :=
    note_eq_ok 1 ("run " ++ toString trees.length ++ " statement(s)") s
  refine ⟨u, hsilent, hscopes, fun outcomes u' hrun => ?_⟩
  unfold statements
  rw [bind_of_ok hu, bind_of_ok hrun.attemptAll_eq]
  rfl

/-- The session at the start of a program about which there are the given complaints. -/
def Session.begin (s : Session) (errors : List Diagnostic) : Session :=
  { s with staticErrors := errors }

theorem Session.Silent.begin {s u : Session} (h : s.Silent u) (errors : List Diagnostic) :
    (s.begin errors).Silent (u.begin errors) :=
  ⟨⟨h.level, h.traceOpen, rfl, h.runtimeErrors, h.quiet⟩, h.output⟩

section

variable {text : String} {program : Program}

/-- A program begins with traces of its tokens. -/
theorem source_begin (hp : Program.ofTokens (Scan.ofSource text).tokens = .ok program)
    (s : Session) {errors : List Diagnostic}
    (herr : (Scan.ofSource text).errors ++ program.errors = errors) :
    ∃ u, s.Silent u ∧ u.scopes = s.scopes ∧ Run.source text s =
      (if errors.isEmpty then
        discard (statements globalScope (program.statements.map Stmt.toTree))
      else do
        reportAll errors
        note 1 (toString errors.length ++ " static error(s), nothing executed") : Run Unit)
        (u.begin errors) := by
  obtain ⟨u, hu, hsilent, hscopes⟩ := noteTokens_eq_ok (Scan.ofSource text).tokens s
  refine ⟨u, hsilent, hscopes, ?_⟩
  unfold Run.source
  rw [bind_of_ok hu, hp, ← herr]
  rfl

/-- A program about which there are no complaints runs its statements. -/
theorem source_of_clean (hp : Program.ofTokens (Scan.ofSource text).tokens = .ok program)
    (herr : (Scan.ofSource text).errors ++ program.errors = []) (s : Session) :
    ∃ u, (s.begin []).Silent u ∧ u.scopes = s.scopes ∧ ∀ outcomes u',
      Executes globalScope u (program.statements.map Stmt.toTree) outcomes u' →
        Run.source text s =
          .ok () { u' with runtimeErrors := u'.runtimeErrors ++ outcomes.reduceOption } := by
  obtain ⟨v, hv, hscopes, hsource⟩ := source_begin hp s herr
  obtain ⟨u, hu, hscopes', hrun⟩ :=
    statements_eq globalScope (program.statements.map Stmt.toTree) (v.begin [])
  refine ⟨u, (hv.begin []).trans hu, hscopes'.trans hscopes, fun outcomes u' hexec => ?_⟩
  rw [hsource]
  exact map_of_ok (hrun outcomes u' hexec)

/-- A program about which there are complaints is not run; they are reported. -/
theorem source_of_errors (hp : Program.ofTokens (Scan.ofSource text).tokens = .ok program)
    {errors : List Diagnostic} (herr : (Scan.ofSource text).errors ++ program.errors = errors)
    (hne : errors ≠ []) (s : Session) :
    ∃ s', Run.source text s = .ok () s' ∧ (s.begin errors).Frame s' ∧ s'.scopes = s.scopes := by
  obtain ⟨v, hv, hscopes, hsource⟩ := source_begin hp s herr
  obtain ⟨u, hu, hframe, hscopes'⟩ := reportAll_eq_ok errors (v.begin errors)
  obtain ⟨s', hs', hsilent, hscopes''⟩ :=
    note_eq_ok 1 (toString errors.length ++ " static error(s), nothing executed") u
  refine ⟨s', ?_, ((hv.begin errors).toFrame.trans hframe).trans hsilent.toFrame,
    hscopes''.trans (hscopes'.trans hscopes)⟩
  rw [hsource, if_neg (by simpa using hne), bind_of_ok hu]
  exact hs'

end

end LoxTree
