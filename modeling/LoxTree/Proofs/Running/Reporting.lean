import LoxTree.Proofs.Running.Lines

/-!
# Complaints that are reported and complaints that are recorded

A run reports the complaint about a statement at once, and records the complaints about all of its
statements when it ends. A fault that is no complaint, such as a statement that is not supported,
ends the run before that, and then nothing of what was reported is recorded.

* `printingRun_execute`: a statement of whatever shape writes nothing but what it prints, and
  nothing at all if it fails.
* `Transcript`: the lines that statements write in turn, and the fault that ends the run before the
  last of them, if one does. Every list of statements has one (`exists_transcript`).
* `statements_record_reported_iff`: what is reported is recorded exactly if the run ends well or
  nothing is reported.
* `statements_forget_reported`: there is a run that reports a complaint and records none.
-/

namespace LoxTree

open Step Run

/-! ### What a statement prints -/

/-- The second session is the first with the given lines printed. -/
structure Session.Prints (s s' : Session) (lines : List String) : Prop extends
    Session.Frame s s' where
  output : s'.output = s.output ++ written (lines.map .printed)

namespace Session

theorem Silent.prints {s s' : Session} (h : s.Silent s') : s.Prints s' [] := by
  refine ⟨h.toFrame, ?_⟩
  rw [h.output, List.map_nil, written, String.append_empty]

theorem Silent.transPrints {s t u : Session} {lines : List String} (h : s.Silent t)
    (h' : t.Prints u lines) : s.Prints u lines := by
  refine ⟨h.toFrame.trans h'.toFrame, ?_⟩
  rw [h'.output, h.output]

end Session

/-- A step that prints lines, or prints nothing and fails. -/
def PrintingRun {α : Type} (m : Run α) : Prop :=
  ∀ s, Ensures m s (fun _ s' => ∃ lines, s.Prints s' lines) (fun _ s' => s.Silent s')

namespace PrintingRun

variable {α β : Type} {m : Run α}

theorem of_silent (h : SilentRun m) : PrintingRun m :=
  fun s => (h s).mono (fun _ _ hs => ⟨[], hs.prints⟩) fun _ _ => id

/-- A step that says nothing and then one that prints. -/
theorem after {k : α → Run β} (h : SilentRun m) (hk : ∀ a, PrintingRun (k a)) :
    PrintingRun (m >>= k) := by
  intro s
  refine Ensures.bind ((h s).mono (fun a u hu => ?_) fun _ _ => id)
  refine (hk a u).mono ?_ fun _ _ hs => hu.trans hs
  rintro b s' ⟨lines, hs⟩
  exact ⟨lines, hu.transPrints hs⟩

end PrintingRun

theorem printingRun_say (line : String) : PrintingRun (say line) :=
  fun s => .of_ok rfl ⟨[line], s.frame_say line, output_say s (.printed line)⟩

theorem silentRun_noteStatement (t : Tree) : SilentRun (noteStatement t) := by
  intro s
  refine (Ensures.congr (noteStatement_apply t s)).2 ?_
  split
  · exact (SilentRun.ofExcept _).bind (fun text => silentRun_note 3 _) s
  · exact SilentRun.pure () s

theorem silentRun_defineName (scope : Nat) (name : String) (value : Value) :
    SilentRun (defineName scope name value) :=
  fun s => .of_ok rfl (s.silent_scopes _)

theorem silentRun_initialValue (scope : Nat) (t : Tree) : SilentRun (initialValue scope t) := by
  unfold initialValue
  split
  · exact .pure Value.nil
  · exact silentRun_evaluate scope nestingRoom t

/-- A statement of whatever shape prints lines, or prints nothing and fails. -/
theorem printingRun_execute (scope : Nat) (t : Tree) : PrintingRun (execute scope t) := by
  refine .after (silentRun_noteStatement t) fun _ => ?_
  cases t with
  | expressionStmt e =>
    refine .of_silent fun s => Ensures.map ?_
    exact silentRun_evaluate scope nestingRoom e s
  | printStmt e =>
    exact .after (silentRun_evaluate scope nestingRoom e) fun v => printingRun_say v.display
  | varDecl n i =>
    refine .of_silent ((silentRun_initialValue scope i).bind fun value => ?_)
    exact (SilentRun.ofExcept _).bind fun name =>
      (silentRun_defineName scope name.lexeme value).bind fun _ => silentRun_note 2 _
  | _ => exact .of_silent (.throw _)

/-! ### What statements write in turn -/

theorem attempt_of_fault {scope : Nat} {t : Tree} {s u : Session} {f : Fault}
    (h : execute scope t s = .error f u) (hf : complaintOf? t f = none) :
    attempt scope t s = .error f u := by
  have hbind : (do execute scope t; return none : Run (Option Diagnostic)) s = .error f u :=
    bind_of_error h
  unfold attempt
  rw [tryCatch_of_error hbind]
  cases f with
  | diagnostic => cases hf
  | tooDeep => cases hf
  | _ => rfl

/-- The lines that statements write in turn. One that ends well writes what it prints. One that
fails with a complaint writes that complaint, and the next one follows. Any other fault ends the
run. -/
inductive Transcript (scope : Nat) :
    Session → List Tree → List Said → Option Fault → Session → Prop
  | done (s : Session) : Transcript scope s [] [] none s
  | printed {s u s' : Session} {t : Tree} {rest : List Tree} {lines : List String}
    {log : List Said} {fault? : Option Fault} :
    execute scope t s = .ok () u → s.Prints u lines → Transcript scope u rest log fault? s' →
    Transcript scope s (t :: rest) (lines.map .printed ++ log) fault? s'
  | reported {s u v s' : Session} {t : Tree} {rest : List Tree} {f : Fault} {d : Diagnostic}
    {log : List Said} {fault? : Option Fault} :
    execute scope t s = .error f u → complaintOf? t f = some d → s.Silent v →
    attempt scope t s = .ok (some d) (v.say d.text) →
    Transcript scope (v.say d.text) rest log fault? s' →
    Transcript scope s (t :: rest) (.reported d :: log) fault? s'
  | stopped {s u : Session} {t : Tree} {rest : List Tree} {f : Fault} :
    execute scope t s = .error f u → complaintOf? t f = none → s.Silent u →
    Transcript scope s (t :: rest) [] (some f) u

theorem exists_transcript (scope : Nat) (trees : List Tree) (s : Session) :
    ∃ log fault? s', Transcript scope s trees log fault? s' := by
  induction trees generalizing s with
  | nil => exact ⟨[], none, s, .done s⟩
  | cons t rest ih =>
    have hexec := printingRun_execute scope t s
    cases hs : execute scope t s with
    | ok _ u =>
      obtain ⟨lines, hprints⟩ := hexec.ok hs
      obtain ⟨log, fault?, s', hrest⟩ := ih u
      exact ⟨_, fault?, s', .printed hs hprints hrest⟩
    | error f u =>
      cases hd : complaintOf? t f with
      | some d =>
        obtain ⟨v, hsilent, -, ha⟩ := attempt_of_error hs hd
        obtain ⟨log, fault?, s', hrest⟩ := ih (v.say d.text)
        exact ⟨_, fault?, s', .reported hs hd ((hexec.error hs).trans hsilent) ha hrest⟩
      | none => exact ⟨_, _, u, .stopped hs hd (hexec.error hs)⟩

theorem complaints_printed_append (lines : List String) (log : List Said) :
    complaints (lines.map .printed ++ log) = complaints log := by
  unfold complaints
  rw [List.filterMap_append, List.filterMap_map]
  have hnone : lines.filterMap (Said.complaint? ∘ Said.printed) = [] :=
    List.filterMap_eq_nil_iff.2 fun _ _ => rfl
  rw [hnone, List.nil_append]

namespace Transcript

variable {scope : Nat} {s s' : Session} {trees : List Tree} {log : List Said}
  {fault? : Option Fault}

/-- Attempts at the statements hand back the complaints that are reported, unless a fault ends the
run. -/
theorem attemptAll_eq (h : Transcript scope s trees log fault? s') :
    attemptAll scope trees s = (match fault? with
      | none => .ok (complaints log) s'
      | some f => .error f s') := by
  induction h with
  | done => rfl
  | @printed s u s' t rest lines log fault? hs _ _ ih =>
    rw [complaints_printed_append]
    unfold attemptAll
    rw [bind_of_ok (attempt_of_ok hs)]
    cases fault? with
    | none =>
      rw [bind_of_ok ih]
      rfl
    | some f => exact bind_of_error ih
  | @reported s u v s' t rest f d log fault? _ _ _ ha _ ih =>
    unfold attemptAll
    rw [bind_of_ok ha]
    cases fault? with
    | none =>
      rw [bind_of_ok ih]
      rfl
    | some f => exact bind_of_error ih
  | stopped hs hf _ =>
    unfold attemptAll
    exact bind_of_error (attempt_of_fault hs hf)

/-- The lines are what the output grows by, and nothing is recorded on the way. -/
theorem writes (h : Transcript scope s trees log fault? s') :
    s.Frame s' ∧ s'.output = s.output ++ written log := by
  induction h with
  | done s => exact ⟨.refl s, String.append_empty.symm⟩
  | printed _ hprints _ ih =>
    refine ⟨hprints.toFrame.trans ih.1, ?_⟩
    rw [ih.2, hprints.output, written_append, String.append_assoc]
  | @reported s u v s' t rest f d log fault? _ _ hsilent _ _ ih =>
    refine ⟨(hsilent.toFrame.trans (v.frame_say d.text)).trans ih.1, ?_⟩
    have hsay : (v.say d.text).output = s.output ++ written [.reported d] := by
      rw [← hsilent.output]
      exact output_say v (.reported d)
    rw [ih.2, hsay, String.append_assoc, ← written_append]
    rfl
  | stopped _ _ hsilent =>
    refine ⟨hsilent.toFrame, ?_⟩
    rw [hsilent.output]
    exact String.append_empty.symm

end Transcript

/-! ### Whole runs -/

theorem Session.hadRuntimeError_iff (s : Session) :
    s.hadRuntimeError = true ↔ s.runtimeErrors ≠ [] := by
  unfold hadRuntimeError
  simp

/-- A run of statements of whatever shape, in any scope. The output grows by the lines of a
transcript. The complaints among these lines are recorded, in the order in which they are reported,
if the run ends well, and none of them is if a fault ends it. So what is reported is recorded
exactly if the run ends well or nothing is reported. -/
theorem statements_record_reported_iff (scope : Nat) (trees : List Tree) (s : Session) :
    ∃ u v s' log fault?, s.Silent u ∧ u.scopes = s.scopes ∧
      Transcript scope u trees log fault? v ∧
      statements scope trees s = (match fault? with
        | none => .ok (complaints log) s'
        | some f => .error f s') ∧
      s'.scopes = v.scopes ∧ s'.output = s.output ++ written log ∧
      (fault? = none → s'.runtimeErrors = s.runtimeErrors ++ complaints log) ∧
      (fault? ≠ none → s'.runtimeErrors = s.runtimeErrors) ∧
      (s'.runtimeErrors = s.runtimeErrors ++ complaints log ↔ fault? = none ∨ complaints log = []) ∧
      (s'.hadRuntimeError = true ↔
        s.hadRuntimeError = true ∨ fault? = none ∧ complaints log ≠ []) := by
  obtain ⟨u, hu, hsilent, hscopes⟩ :=
    note_eq_ok 1 ("run " ++ toString trees.length ++ " statement(s)") s
  obtain ⟨log, fault?, v, htranscript⟩ := exists_transcript scope trees u
  obtain ⟨hframe, houtput⟩ := htranscript.writes
  rw [hsilent.output] at houtput
  have hall := htranscript.attemptAll_eq
  have herrors : v.runtimeErrors = s.runtimeErrors :=
    hframe.runtimeErrors.trans hsilent.runtimeErrors
  cases fault? with
  | none =>
    refine ⟨u, v, { v with runtimeErrors := v.runtimeErrors ++ complaints log }, log, none, hsilent,
      hscopes, htranscript, ?_, rfl, houtput, ?_, ?_, ?_, ?_⟩
    · unfold statements
      rw [bind_of_ok hu, bind_of_ok hall]
      rfl
    · exact fun _ => congrArg (· ++ complaints log) herrors
    · exact fun hne => absurd rfl hne
    · exact ⟨fun _ => .inl rfl, fun _ => congrArg (· ++ complaints log) herrors⟩
    · rw [Session.hadRuntimeError_iff, Session.hadRuntimeError_iff, herrors]
      simp [or_iff_not_imp_left]
  | some f =>
    refine ⟨u, v, v, log, some f, hsilent, hscopes, htranscript, ?_, rfl, houtput, nofun,
      fun _ => herrors, ?_, ?_⟩
    · unfold statements
      rw [bind_of_ok hu]
      exact bind_of_error hall
    · rw [herrors]
      simp
    · rw [Session.hadRuntimeError_iff, Session.hadRuntimeError_iff, herrors]
      simp

/-- A name that is not defined, and a block behind it, which is not supported. The complaint about
the name is reported, but the block ends the run before the complaint is recorded. -/
theorem statements_forget_reported :
    ∃ s', statements globalScope
        [.expressionStmt (.reference (.token ⟨.identifier, "a", none, 1⟩)), .block (.list [])]
        (Session.start 0) = .error (.unsupported (.statement "Block")) s' ∧
      s'.output = written [.reported (.undefinedName ⟨.identifier, "a", none, 1⟩)] ∧
      s'.runtimeErrors = [] ∧ s'.hadRuntimeError = false :=
  ⟨_, rfl, rfl, rfl, rfl⟩

end LoxTree
