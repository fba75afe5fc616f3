import LoxTree.Proofs.Outcome
import LoxTree.Proofs.Parsing.Trees
import LoxTree.Session.Evaluate

/-!
# What evaluation can do

Evaluation changes the scopes and adds to the traces; it leaves the rest of the session alone. On
the trees that the parser makes it fails only as a program may fail: with a complaint about an
undefined name or an operand, or for want of room.

* `Session.Silent` says what is left alone, and `silentRun_evaluate` that evaluation of any tree
  leaves it alone.
* `Forest.Typed`: every bound value is one of the language. Reading such scopes gives such a value,
  and binding such a value keeps them so.
* `safeRun_evaluate`: evaluation of a parsed expression keeps the scopes typed, gives a value of the
  language or fails as a program may.
-/

namespace LoxTree

open Step Run

/-! ### What is left alone -/

/-- What running a statement leaves alone: all but the scopes, the output and the traces, and the
traces too if the session does not trace. -/
structure Session.Frame (s s' : Session) : Prop where
  level : s'.level = s.level
  traceOpen : s'.traceOpen = s.traceOpen
  staticErrors : s'.staticErrors = s.staticErrors
  runtimeErrors : s'.runtimeErrors = s.runtimeErrors
  quiet : s.level ≤ 0 → s'.trace = s.trace ∧ s'.stderr = s.stderr

/-- What evaluation leaves alone: nothing is printed either. -/
structure Session.Silent (s s' : Session) : Prop extends Session.Frame s s' where
  output : s'.output = s.output

namespace Session

theorem Frame.refl (s : Session) : s.Frame s :=
  ⟨rfl, rfl, rfl, rfl, fun _ => ⟨rfl, rfl⟩⟩

theorem Frame.trans {s t u : Session} (h : s.Frame t) (h' : t.Frame u) : s.Frame u := by
  refine ⟨h'.level.trans h.level, h'.traceOpen.trans h.traceOpen,
    h'.staticErrors.trans h.staticErrors, h'.runtimeErrors.trans h.runtimeErrors, fun hq => ?_⟩
  obtain ⟨htrace, hstderr⟩ := h.quiet hq
  obtain ⟨htrace', hstderr'⟩ := h'.quiet (h.level ▸ hq)
  exact ⟨htrace'.trans htrace, hstderr'.trans hstderr⟩

theorem Silent.refl (s : Session) : s.Silent s :=
  ⟨.refl s, rfl⟩

theorem Silent.trans {s t u : Session} (h : s.Silent t) (h' : t.Silent u) : s.Silent u :=
  ⟨h.toFrame.trans h'.toFrame, h'.output.trans h.output⟩

/-- Changing the scopes is silent. -/
theorem silent_scopes (s : Session) (scopes : Forest) : s.Silent { s with scopes } :=
  ⟨⟨rfl, rfl, rfl, rfl, fun _ => ⟨rfl, rfl⟩⟩, rfl⟩

/-- Printing a line leaves all but the output alone. -/
theorem frame_say (s : Session) (line : String) : s.Frame (s.say line) :=
  ⟨rfl, rfl, rfl, rfl, fun _ => ⟨rfl, rfl⟩⟩

/-- Tracing a line is silent and leaves the scopes alone. -/
theorem silent_note (s : Session) (line : String) :
    s.Silent (s.note line) ∧ (s.note line).scopes = s.scopes := by
  unfold note
  by_cases hlevel : 0 < s.level
  · -- a session that traces is not quiet
    rw [if_pos hlevel]
    have hloud : ¬ s.level ≤ 0 := Int.not_le.2 hlevel
    split
    · exact ⟨⟨⟨rfl, rfl, rfl, rfl, fun hq => absurd hq hloud⟩, rfl⟩, rfl⟩
    · exact ⟨⟨⟨rfl, rfl, rfl, rfl, fun hq => absurd hq hloud⟩, rfl⟩, rfl⟩
  · rw [if_neg hlevel]
    exact ⟨.refl s, rfl⟩

/-- So is tracing it at a level. -/
theorem silent_noteAt (s : Session) (level : Int) (line : String) :
    s.Silent (if level ≤ s.level then s.note line else s) ∧
      (if level ≤ s.level then s.note line else s).scopes = s.scopes := by
  split
  · exact s.silent_note line
  · exact ⟨.refl s, rfl⟩

end Session

/-- Tracing always ends well. -/
theorem note_eq_ok (level : Int) (line : String) (s : Session) :
    ∃ s', note level line s = .ok () s' ∧ s.Silent s' ∧ s'.scopes = s.scopes :=
  ⟨_, rfl, s.silent_noteAt level line⟩

/-- A step that leaves alone what evaluation leaves alone. -/
def SilentRun {α : Type} (m : Run α) : Prop :=
  ∀ s, Ensures m s (fun _ s' => s.Silent s') (fun _ s' => s.Silent s')

namespace SilentRun

variable {α β : Type} {m : Run α}

theorem pure (a : α) : SilentRun (Pure.pure a : Run α) :=
  fun s => Ensures.pure (.refl s)

theorem throw (f : Fault) : SilentRun (MonadExcept.throw f : Run α) :=
  fun s => Ensures.throw (.refl s)

theorem bind {k : α → Run β} (h : SilentRun m) (hk : ∀ a, SilentRun (k a)) :
    SilentRun (m >>= k) := by
  intro s
  refine Ensures.bind ((h s).mono (fun a s' hs => ?_) fun _ _ => id)
  exact (hk a s').mono (fun _ _ hs' => hs.trans hs') fun _ _ hs' => hs.trans hs'

theorem ofExcept (x : Except Fault α) : SilentRun (MonadExcept.ofExcept x : Run α) :=
  fun s => Ensures.ofExcept (fun _ _ => .refl s) fun _ _ => .refl s

end SilentRun

theorem silentRun_note (level : Int) (line : String) : SilentRun (note level line) := by
  intro s
  obtain ⟨s', h, hs, -⟩ := note_eq_ok level line s
  exact .of_ok h hs

theorem readName_apply (scope : Nat) (name : Token) (s : Session) :
    readName scope name s = (match s.scopes.get scope name with
      | .ok v => .ok v s
      | .error d => .error (.diagnostic d) s) := by
  show (match s.scopes.get scope name with
    | .ok v => Pure.pure v
    | .error d => throw (.diagnostic d) : Run Value) s = _
  cases s.scopes.get scope name <;> rfl

theorem assignName_apply (scope : Nat) (name : Token) (value : Value) (s : Session) :
    assignName scope name value s = (match s.scopes.assign scope name value with
      | .ok scopes => .ok () { s with scopes }
      | .error d => .error (.diagnostic d) s) := by
  show (match s.scopes.assign scope name value with
    | .ok scopes => modify fun s => { s with scopes }
    | .error d => throw (.diagnostic d) : Run Unit) s = _
  cases s.scopes.assign scope name value <;> rfl

theorem silentRun_readName (scope : Nat) (name : Token) : SilentRun (readName scope name) := by
  intro s
  unfold Ensures
  rw [readName_apply]
  cases s.scopes.get scope name <;> exact .refl s

theorem silentRun_assignName (scope : Nat) (name : Token) (value : Value) :
    SilentRun (assignName scope name value) := by
  intro s
  unfold Ensures
  rw [assignName_apply]
  cases s.scopes.assign scope name value with
  | ok scopes => exact s.silent_scopes scopes
  | error d => exact .refl s

theorem Tree.missingPart_of_asToken {n : Tree} {f : Fault} (h : n.asToken = .error f) :
    f = .missingPart := by
  cases n <;> cases h <;> rfl

/-- Evaluation leaves all but the scopes and the traces alone. -/
theorem silentRun_evaluate (scope room : Nat) (t : Tree) : SilentRun (evaluate scope room t) := by
  induction room generalizing t with
  | zero => exact .throw _
  | succ room ih =>
    cases t with
    | literal v =>
      show SilentRun (if v.isLox then Pure.pure v else throw (.unsupported (.literal v)))
      split
      · exact .pure v
      · exact .throw _
    | grouping e => exact ih e
    | reference n => exact (SilentRun.ofExcept _).bind fun name => silentRun_readName scope name
    | assign n e =>
      exact (ih e).bind fun value => (SilentRun.ofExcept _).bind fun name =>
        (silentRun_assignName scope name value).bind fun _ =>
          (silentRun_note _ _).bind fun _ => .pure value
    | unary op e =>
      exact (ih e).bind fun value => (SilentRun.ofExcept _).bind fun operator => .ofExcept _
    | binary l op r =>
      exact (ih l).bind fun left => (ih r).bind fun right =>
        (SilentRun.ofExcept _).bind fun operator => .ofExcept _
    | _ => exact .throw _

/-! ### Typed scopes -/

/-- Every bound value is one of the language. -/
def Forest.Typed (f : Forest) : Prop :=
  ∀ scope ∈ f, ∀ binding ∈ scope.bindings, binding.2.isLox = true

namespace Forest

theorem typed_global : global.Typed := by
  intro scope hscope binding hbinding
  rw [List.mem_singleton.1 hscope] at hbinding
  cases hbinding

theorem mem_of_scope? {f : Forest} {i : Nat} {scope : Scope} (h : f.scope? i = some scope) :
    scope ∈ f := by
  induction f with
  | nil => cases h
  | cons s older ih =>
    unfold scope? at h
    split at h
    · cases h
      exact List.mem_cons_self
    · exact List.mem_cons_of_mem s (ih h)

theorem mem_update {change : Scope → Scope} {f : Forest} {i : Nat} {scope : Scope}
    (h : scope ∈ f.update change i) : scope ∈ f ∨ ∃ old ∈ f, scope = change old := by
  induction f with
  | nil => cases h
  | cons s older ih =>
    unfold update at h
    split at h
    · rcases List.mem_cons.1 h with rfl | h
      · exact .inr ⟨s, List.mem_cons_self, rfl⟩
      · exact .inl (List.mem_cons_of_mem s h)
    · rcases List.mem_cons.1 h with rfl | h
      · exact .inl List.mem_cons_self
      · rcases ih h with h | ⟨old, hold, rfl⟩
        · exact .inl (List.mem_cons_of_mem s h)
        · exact .inr ⟨old, List.mem_cons_of_mem s hold, rfl⟩

theorem mem_bindIn {name : String} {value : Value} {bindings : List (String × Value)}
    {binding : String × Value} (h : binding ∈ Scope.bindIn name value bindings) :
    binding = (name, value) ∨ binding ∈ bindings := by
  induction bindings with
  | nil => exact .inl (List.mem_singleton.1 h)
  | cons entry rest ih =>
    obtain ⟨n, v⟩ := entry
    unfold Scope.bindIn at h
    split at h
    · rcases List.mem_cons.1 h with rfl | h
      · exact .inl rfl
      · exact .inr (List.mem_cons_of_mem _ h)
    · rcases List.mem_cons.1 h with rfl | h
      · exact .inr List.mem_cons_self
      · exact (ih h).imp_right (List.mem_cons_of_mem _)

/-- What is read from typed scopes is a value of the language. -/
theorem Typed.value? {f : Forest} (h : f.Typed) {i : Nat} {name : String} {v : Value}
    (hv : f.value? i name = some v) : v.isLox = true := by
  unfold Forest.value? at hv
  obtain ⟨holder, -, hv⟩ := Option.bind_eq_some_iff.1 hv
  obtain ⟨scope, hscope, hv⟩ := Option.bind_eq_some_iff.1 hv
  obtain ⟨before, after, hbindings, -⟩ := List.lookup_eq_some_iff.1 hv
  refine h scope (mem_of_scope? hscope) (name, v) ?_
  rw [hbindings]
  exact List.mem_append_right _ List.mem_cons_self

/-- Binding a value of the language keeps scopes typed. -/
theorem Typed.define {f : Forest} (h : f.Typed) {value : Value} (hv : value.isLox = true) (i : Nat)
    (name : String) : (f.define i name value).Typed := by
  intro scope hscope binding hbinding
  rcases mem_update hscope with hscope | ⟨old, hold, rfl⟩
  · exact h scope hscope binding hbinding
  · rcases mem_bindIn hbinding with rfl | hbinding
    · exact hv
    · exact h old hold binding hbinding

end Forest

/-! ### Complaints of a running program -/

/-- The complaints of a running program: an undefined name, a wrong operand, or too much nesting. -/
def Diagnostic.OfRun (d : Diagnostic) : Prop :=
  (∃ name, d = .undefinedName name) ∨ (∃ token complaint line, d = .mistyped token complaint line) ∨
    ∃ line, d = .runtime none .nestedTooDeeply line

/-- The faults of a running program: its complaints, or a want of room. -/
def Fault.OfRun (f : Fault) : Prop :=
  f = .tooDeep ∨ ∃ d, f = .diagnostic d ∧ d.OfRun

theorem Fault.ofRun_mistypedAt (operator : Token) (c : Complaint) :
    (Fault.diagnostic (.mistypedAt operator c)).OfRun :=
  .inr ⟨_, rfl, .inr (.inl ⟨_, _, _, rfl⟩)⟩

theorem Fault.ofRun_undefinedName (name : Token) : (Fault.diagnostic (.undefinedName name)).OfRun :=
  .inr ⟨_, rfl, .inl ⟨name, rfl⟩⟩

/-- A prefix operator that fails complains about itself, unless it is none of the language. -/
theorem applyUnary_error {operator : Token} {v : Value} {f : Fault}
    (h : applyUnary operator v = .error f) :
    (∃ c, f = .diagnostic (.mistypedAt operator c)) ∨
      f = .unsupported (.unaryOperator operator.lexeme) := by
  unfold applyUnary at h
  split at h <;> cases h
  · exact .inl ⟨_, rfl⟩
  · exact .inl ⟨_, rfl⟩
  · exact .inr rfl

/-- So does an operator between two values. -/
theorem applyBinary_error {operator : Token} {v w : Value} {f : Fault}
    (h : applyBinary operator v w = .error f) :
    (∃ c, f = .diagnostic (.mistypedAt operator c)) ∨
      f = .unsupported (.binaryOperator operator.lexeme) := by
  unfold applyBinary at h
  split at h
  · split at h <;> cases h
    exact .inl ⟨_, rfl⟩
  · cases h
  · cases h
  · split at h
    · split at h
      · split at h <;> cases h
        exact .inr rfl
      · cases h
        exact .inl ⟨_, rfl⟩
    · cases h
      exact .inr rfl

/-- A prefix operator of the grammar gives a value of the language, or complains. -/
theorem applyUnary_safe {operator : Token} (h : operator.kind ∈ [Kind.bang, .minus]) (v : Value) :
    (∃ w, applyUnary operator v = .ok w ∧ w.isLox = true) ∨
      ∃ f, applyUnary operator v = .error f ∧ f.OfRun := by
  simp only [List.mem_cons, List.not_mem_nil, or_false] at h
  unfold applyUnary
  rcases h with hk | hk
  · rw [hk]
    cases v with
    | boolean b => exact .inl ⟨_, rfl, rfl⟩
    | nil => exact .inl ⟨_, rfl, rfl⟩
    | _ => exact .inr ⟨_, rfl, Fault.ofRun_mistypedAt _ _⟩
  · rw [hk]
    cases v with
    | number x => exact .inl ⟨_, rfl, rfl⟩
    | _ => exact .inr ⟨_, rfl, Fault.ofRun_mistypedAt _ _⟩

theorem numeric?_safe {kind : Kind} (h : kind ∈ numericKinds) (x y : Float) :
    ∃ w, numeric? kind x y = some w ∧ w.isLox = true := by
  unfold numericKinds at h
  simp only [List.mem_cons, List.not_mem_nil, or_false] at h
  rcases h with rfl | rfl | rfl | rfl | rfl | rfl | rfl <;> exact ⟨_, rfl, rfl⟩

theorem applyBinary_of_numeric {operator : Token} (h : operator.kind ∈ numericKinds)
    (v w : Value) :
    applyBinary operator v w = (match v, w with
      | .number x, .number y =>
        match numeric? operator.kind x y with
        | some result => .ok result
        | none => .error (.unsupported (.binaryOperator operator.lexeme))
      | _, _ => .error (.diagnostic (.mistypedAt operator .operandsNotNumbers))) := by
  have hne : operator.kind ≠ .plus ∧ operator.kind ≠ .equalEqual ∧ operator.kind ≠ .bangEqual := by
    revert h
    cases operator.kind <;> decide
  unfold applyBinary
  split
  · next hk => exact absurd hk hne.1
  · next hk => exact absurd hk hne.2.1
  · next hk => exact absurd hk hne.2.2
  · exact if_pos h

/-- An operator of the grammar between two values gives a value of the language, or complains. -/
theorem applyBinary_safe {operator : Token} (h : operator.kind ∈ infixKinds) (v w : Value) :
    (∃ u, applyBinary operator v w = .ok u ∧ u.isLox = true) ∨
      ∃ f, applyBinary operator v w = .error f ∧ f.OfRun := by
  by_cases hn : operator.kind ∈ numericKinds
  · rw [applyBinary_of_numeric hn]
    split
    · next x y =>
      obtain ⟨u, hu, hlox⟩ := numeric?_safe hn x y
      rw [hu]
      exact .inl ⟨u, rfl, hlox⟩
    · exact .inr ⟨_, rfl, Fault.ofRun_mistypedAt _ _⟩
  · -- addition is defined on strings too, and equality on all values
    have hk : operator.kind = .plus ∨ operator.kind = .equalEqual ∨ operator.kind = .bangEqual := by
      revert h hn
      cases operator.kind <;> decide
    unfold applyBinary
    rcases hk with hk | hk | hk
    · rw [hk]
      dsimp only
      split
      · exact .inl ⟨_, rfl, rfl⟩
      · exact .inl ⟨_, rfl, rfl⟩
      · exact .inr ⟨_, rfl, Fault.ofRun_mistypedAt _ _⟩
    · rw [hk]
      exact .inl ⟨_, rfl, rfl⟩
    · rw [hk]
      exact .inl ⟨_, rfl, rfl⟩

/-! ### Parsed expressions -/

/-- Typed scopes stay typed. -/
def Session.KeepsTyped (s s' : Session) : Prop :=
  s.scopes.Typed → s'.scopes.Typed

/-- A step keeps typed scopes typed, gives a value of the language from typed scopes, and fails only
as a running program may. -/
def SafeRun (m : Run Value) : Prop :=
  ∀ s, Ensures m s (fun v s' => s.KeepsTyped s' ∧ (s.scopes.Typed → v.isLox = true))
    (fun f s' => s.KeepsTyped s' ∧ f.OfRun)

namespace SafeRun

variable {m : Run Value}

theorem throw {f : Fault} (h : f.OfRun) : SafeRun (MonadExcept.throw f) :=
  fun _ => Ensures.throw ⟨id, h⟩

theorem bind {k : Value → Run Value} (h : SafeRun m) (hk : ∀ v, SafeRun (k v)) :
    SafeRun (m >>= k) := by
  intro s
  refine Ensures.bind ((h s).mono ?_ fun _ _ => id)
  rintro v s' ⟨hs', -⟩
  refine (hk v s').mono ?_ ?_
  · rintro w s'' ⟨hs'', hw⟩
    exact ⟨fun ht => hs'' (hs' ht), fun ht => hw (hs' ht)⟩
  · rintro f s'' ⟨hs'', hf⟩
    exact ⟨fun ht => hs'' (hs' ht), hf⟩

theorem ofExcept {x : Except Fault Value}
    (h : (∃ v, x = .ok v ∧ v.isLox = true) ∨ ∃ f, x = .error f ∧ f.OfRun) :
    SafeRun (MonadExcept.ofExcept x) := by
  intro s
  rcases h with ⟨v, rfl, hv⟩ | ⟨f, rfl, hf⟩
  · exact Ensures.pure ⟨id, fun _ => hv⟩
  · exact Ensures.throw ⟨id, hf⟩

end SafeRun

theorem safeRun_readName (scope : Nat) (name : Token) : SafeRun (readName scope name) := by
  intro s
  unfold Ensures
  rw [readName_apply, Forest.get_eq]
  cases h : s.scopes.value? scope name.lexeme with
  | some v => exact ⟨id, fun ht => ht.value? h⟩
  | none => exact ⟨id, Fault.ofRun_undefinedName name⟩

/-- Assigning a value of the language keeps scopes typed; the name may be undefined. -/
theorem assignName_safe (scope : Nat) (name : Token) (value : Value) (s : Session) :
    Ensures (assignName scope name value) s
      (fun _ s' => value.isLox = true → s.KeepsTyped s')
      (fun f s' => s.KeepsTyped s' ∧ f.OfRun) := by
  unfold Ensures
  rw [assignName_apply, Forest.assign_eq]
  cases s.scopes.holder? scope name.lexeme with
  | some holder => exact fun hv ht => ht.define hv holder name.lexeme
  | none => exact ⟨id, Fault.ofRun_undefinedName name⟩

/-- Evaluation of a parsed expression keeps the scopes typed, gives a value of the language or fails
as a running program may. -/
theorem safeRun_evaluate {t : Tree} (h : t.IsExpression) (scope room : Nat) :
    SafeRun (evaluate scope room t) := by
  induction room generalizing t with
  | zero => exact .throw (.inl rfl)
  | succ room ih =>
    cases h with
    | @literal v hv =>
      show SafeRun (if v.isLox then Pure.pure v else _)
      rw [if_pos hv]
      exact fun s => Ensures.pure ⟨id, fun _ => hv⟩
    | grouping he => exact ih he
    | unary hk he => exact (ih he).bind fun v => .ofExcept (applyUnary_safe hk v)
    | binary hk hl hr =>
      exact (ih hl).bind fun v => (ih hr).bind fun w => .ofExcept (applyBinary_safe hk v w)
    | reference name => exact safeRun_readName scope name
    | assign name he =>
      intro s
      refine Ensures.bind ((ih he s).mono ?_ fun _ _ => id)
      rintro value s' ⟨hs', hv⟩
      -- the value is one of the language if the scopes were typed when its evaluation began
      refine Ensures.bind (.of_ok (a := name) rfl ?_)
      refine Ensures.bind ((assignName_safe scope name value s').mono ?_ ?_)
      · intro _ s'' hs''
        obtain ⟨u, hu, -, hscopes⟩ :=
          note_eq_ok 2 (bindingNote "assign" name.lexeme value) s''
        refine Ensures.bind (.of_ok hu (Ensures.pure ⟨fun ht => ?_, hv⟩))
        rw [hscopes]
        exact hs'' (hv ht) (hs' ht)
      · rintro f s'' ⟨hs'', hf⟩
        exact ⟨fun ht => hs'' (hs' ht), hf⟩

end LoxTree
