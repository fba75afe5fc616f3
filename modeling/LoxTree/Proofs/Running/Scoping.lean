import LoxTree.Proofs.Running.Evaluation

/-!
# Scopes that enclose each other

Scopes share the scopes around them, so that an assignment in one of them can be seen from others.
This module says from where it is seen, for every forest of scopes that a history of steps can
build.

* `Forest.Nearest f x i k`: going outwards from scope `i`, scope `k` is the first to bind `x`. It is
  a relation of its own, and `holder?_eq_some_iff` says that `Forest.holder?` computes it where
  scopes are enclosed by older ones.
* `Forest.Rebinds f g k x v`: the forest `g` is `f` with `x` bound to `v` in scope `k`, and is
  otherwise the same.
* `Forest.shape` is what of a forest decides where a name is found; `holder?_of_shape_eq` says so,
  and `value?_define_holder` what can be read after an assignment.
* `Forest.Reachable`: the forests that a history of steps builds. `Reachable.ordered` is the one
  invariant of such histories: a scope is enclosed by an older one.
* `scoping_law` puts these together.
-/

namespace LoxTree

open Run

/-! ### The names of a scope -/

namespace Scope

/-- The names that a scope binds. -/
def names (s : Scope) : List String :=
  s.bindings.map Prod.fst

theorem isSome_find?_iff (s : Scope) (x : String) : (s.find? x).isSome = true ↔ x ∈ s.names := by
  unfold find? names
  rw [List.lookup_isSome_iff, List.mem_map]
  constructor
  · rintro ⟨binding, hmem, heq⟩
    exact ⟨binding, hmem, (beq_iff_eq.1 heq).symm⟩
  · rintro ⟨binding, hmem, rfl⟩
    exact ⟨binding, hmem, beq_self_eq_true _⟩

/-- Binding a name that is bound already changes no name. -/
theorem map_fst_bindIn {x : String} {bindings : List (String × Value)}
    (h : x ∈ bindings.map Prod.fst) (v : Value) :
    (bindIn x v bindings).map Prod.fst = bindings.map Prod.fst := by
  induction bindings with
  | nil => cases h
  | cons binding rest ih =>
    obtain ⟨y, w⟩ := binding
    rw [bindIn]
    by_cases hy : y = x
    · rw [if_pos hy, hy]
      rfl
    · rw [if_neg hy, List.map_cons, List.map_cons]
      refine congrArg (y :: ·) (ih ?_)
      exact (List.mem_cons.1 h).resolve_left fun heq => hy heq.symm

/-- What a scope is enclosed by and which names it binds, without their values. -/
def shape (s : Scope) : Option Nat × List String :=
  (s.enclosing, s.names)

end Scope

namespace Forest

/-! ### Scopes by their numbers -/

/-- The value that scope `i` itself binds to a name. -/
def own? (f : Forest) (i : Nat) (x : String) : Option Value :=
  (f.scope? i).bind fun s => s.find? x

/-- The number of the scope around scope `i`. -/
def enclosing? (f : Forest) (i : Nat) : Option Nat :=
  (f.scope? i).bind Scope.enclosing

/-- How the scopes enclose each other and which names they bind. -/
def shape (f : Forest) : List (Option Nat × List String) :=
  f.map Scope.shape

theorem scope?_eq_none {f : Forest} {i : Nat} (h : f.length ≤ i) : f.scope? i = none := by
  induction f with
  | nil => rfl
  | cons s older ih =>
    rw [List.length_cons] at h
    rw [scope?, if_neg (by omega)]
    exact ih (by omega)

theorem exists_scope? {f : Forest} {i : Nat} (h : i < f.length) : ∃ s, f.scope? i = some s := by
  induction f with
  | nil => cases h
  | cons s older ih =>
    rw [scope?]
    by_cases hi : i = older.length
    · exact ⟨s, if_pos hi⟩
    · rw [if_neg hi]
      rw [List.length_cons] at h
      exact ih (by omega)

theorem lt_length_of_scope? {f : Forest} {i : Nat} {s : Scope} (h : f.scope? i = some s) :
    i < f.length := by
  by_contra hle
  rw [scope?_eq_none (Nat.le_of_not_lt hle)] at h
  cases h

/-- A newer scope does not hide the older ones. -/
theorem scope?_cons_of_eq_some {s t : Scope} {older : Forest} {i : Nat}
    (h : older.scope? i = some t) : scope? (s :: older) i = some t := by
  rw [scope?, if_neg (Nat.ne_of_lt (lt_length_of_scope? h))]
  exact h

theorem lt_length_of_own? {f : Forest} {i : Nat} {x : String} {v : Value}
    (h : f.own? i x = some v) : i < f.length := by
  obtain ⟨s, hs, -⟩ := Option.bind_eq_some_iff.1 h
  exact lt_length_of_scope? hs

@[simp]
theorem length_update (change : Scope → Scope) (f : Forest) (i : Nat) :
    (f.update change i).length = f.length := by
  induction f with
  | nil => rfl
  | cons s older ih =>
    rw [update]
    split
    · rfl
    · rw [List.length_cons, List.length_cons, ih]

theorem scope?_update (change : Scope → Scope) (f : Forest) (i j : Nat) :
    (f.update change i).scope? j = if j = i then (f.scope? i).map change else f.scope? j := by
  induction f with
  | nil => split <;> rfl
  | cons s older ih =>
    rw [update]
    by_cases hi : i = older.length
    · rw [if_pos hi, scope?, scope?, scope?, if_pos hi]
      by_cases hj : j = older.length
      · rw [if_pos hj, if_pos (hj.trans hi.symm)]
        rfl
      · have hne : j ≠ i := fun heq => hj (heq.trans hi)
        rw [if_neg hj, if_neg hne, if_neg hj]
    · rw [if_neg hi, scope?, scope?, scope?, length_update, if_neg hi]
      by_cases hj : j = older.length
      · have hne : j ≠ i := fun heq => hi (heq.symm.trans hj)
        rw [if_pos hj, if_neg hne, if_pos hj]
      · rw [if_neg hj, ih, if_neg hj]

/-! ### Binding a name in one scope -/

/-- The second forest is the first with `x` bound to `v` in scope `k`, and otherwise the same. -/
structure Rebinds (f g : Forest) (k : Nat) (x : String) (v : Value) : Prop where
  length : g.length = f.length
  enclosing : ∀ j, g.enclosing? j = f.enclosing? j
  own : ∀ j y, g.own? j y = if j = k ∧ y = x then some v else f.own? j y

theorem enclosing?_define (f : Forest) (i j : Nat) (x : String) (v : Value) :
    (f.define i x v).enclosing? j = f.enclosing? j := by
  unfold enclosing? define
  rw [scope?_update]
  by_cases hj : j = i
  · rw [if_pos hj, hj]
    cases f.scope? i <;> rfl
  · rw [if_neg hj]

/-- Defining a name binds it in the scope itself and changes nothing else. -/
theorem rebinds_define {f : Forest} {i : Nat} (h : i < f.length) (x : String) (v : Value) :
    f.Rebinds (f.define i x v) i x v := by
  refine ⟨length_update _ _ _, fun j => enclosing?_define f i j x v, fun j y => ?_⟩
  unfold own? define
  rw [scope?_update]
  obtain ⟨s, hs⟩ := exists_scope? h
  by_cases hj : j = i
  · rw [if_pos hj, hj, hs]
    show (s.bind x v).find? y = _
    rw [Scope.find?_bind]
    simp
  · rw [if_neg hj, if_neg fun hjy => hj hjy.1]

/-- Defining a name over a binding of the same scope keeps the shape. -/
theorem shape_define {f : Forest} {i : Nat} {x : String} {w : Value} (h : f.own? i x = some w)
    (v : Value) : (f.define i x v).shape = f.shape := by
  unfold define shape
  induction f with
  | nil => rfl
  | cons s older ih =>
    unfold own? at h
    rw [scope?] at h
    rw [update]
    by_cases hi : i = older.length
    · rw [if_pos hi] at h ⊢
      have hx : x ∈ s.names := (s.isSome_find?_iff x).1 (Option.isSome_of_eq_some h)
      rw [List.map_cons, List.map_cons]
      refine congrArg (· :: older.map Scope.shape) ?_
      exact Prod.ext rfl (Scope.map_fst_bindIn hx v)
    · rw [if_neg hi] at h ⊢
      rw [List.map_cons, List.map_cons, ih h]

/-! ### Where a name is found -/

/-- Going outwards from scope `i`, scope `k` is the first to bind the name. -/
inductive Nearest (f : Forest) (x : String) : Nat → Nat → Prop
  | here {i : Nat} {v : Value} : f.own? i x = some v → Nearest f x i i
  | outward {i j k : Nat} : f.own? i x = none → f.enclosing? i = some j → Nearest f x j k →
    Nearest f x i k

/-- Every scope is enclosed by an older one. -/
def Ordered (f : Forest) : Prop :=
  ∀ i j, f.enclosing? i = some j → j < i

theorem Ordered.of_cons {s : Scope} {older : Forest} (h : Ordered (s :: older)) :
    older.Ordered := by
  intro i j hij
  obtain ⟨t, ht, henc⟩ := Option.bind_eq_some_iff.1 hij
  exact h i j (Option.bind_eq_some_iff.2 ⟨t, scope?_cons_of_eq_some ht, henc⟩)

/-- A scope that binds a name holds it, and any other hands on to the scope around it. -/
theorem holder?_eq {f : Forest} (h : f.Ordered) (i : Nat) (x : String) :
    f.holder? i x = if (f.own? i x).isSome then some i
      else (f.enclosing? i).bind fun j => f.holder? j x := by
  induction f with
  | nil => rfl
  | cons s older ih =>
    -- the newest scope encloses none, so the older ones see what they saw without it
    have holder_older : ∀ j, j ≠ older.length → holder? (s :: older) j x = holder? older j x :=
      fun j hj => by rw [holder?, if_neg hj]
    unfold own? enclosing?
    by_cases hi : i = older.length
    · rw [holder?, scope?, if_pos hi, if_pos hi]
      show _ = if (s.find? x).isSome then some i else s.enclosing.bind _
      by_cases hx : (s.find? x).isSome = true
      · rw [if_pos hx, if_pos hx]
      · rw [if_neg hx, if_neg hx]
        cases henc : s.enclosing with
        | none => rfl
        | some j =>
          have hlt : j < i := h i j (by simp [enclosing?, scope?, hi, henc])
          exact (holder_older j (by omega)).symm
    · rw [holder_older i hi, ih h.of_cons, scope?, if_neg hi]
      unfold own? enclosing?
      refine ite_congr rfl (fun _ => rfl) fun _ => Option.bind_congr fun j hj => ?_
      have hlt := h.of_cons i j hj
      obtain ⟨t, ht, -⟩ := Option.bind_eq_some_iff.1 hj
      exact (holder_older j (by have := lt_length_of_scope? ht; omega)).symm

/-- The holder of a name is the nearest scope that binds it. -/
theorem holder?_eq_some_iff {f : Forest} (h : f.Ordered) {i k : Nat} {x : String} :
    f.holder? i x = some k ↔ f.Nearest x i k := by
  constructor
  · intro hk
    induction i using Nat.strongRecOn with
    | _ i ih =>
      rw [holder?_eq h] at hk
      cases hown : f.own? i x with
      | some v =>
        rw [hown] at hk
        cases hk
        exact .here hown
      | none =>
        rw [hown] at hk
        obtain ⟨j, hj, hk⟩ := Option.bind_eq_some_iff.1 hk
        exact .outward hown hj (ih j (h i j hj) hk)
  · intro hnear
    induction hnear with
    | here hown => rw [holder?_eq h, hown]; rfl
    | outward hown hj _ ih => rw [holder?_eq h, hown, hj]; exact ih

/-- The shape of a forest decides where a name is found. -/
theorem holder?_of_shape_eq {f g : Forest} (h : g.shape = f.shape) (i : Nat) (x : String) :
    g.holder? i x = f.holder? i x := by
  induction f generalizing g i with
  | nil =>
    rw [List.map_eq_nil_iff.1 h]
  | cons s older ih =>
    obtain ⟨t, newer, rfl, ht, hnewer⟩ := List.map_eq_cons_iff.1 h
    have hlen : newer.length = older.length := by
      have := congrArg List.length hnewer
      simpa using this
    obtain ⟨henc, hnames⟩ := Prod.mk.inj ht
    have hfind : (t.find? x).isSome = (s.find? x).isSome := by
      rw [Bool.eq_iff_iff, t.isSome_find?_iff, s.isSome_find?_iff, hnames]
    rw [holder?, holder?, hlen, hfind, henc, ih hnewer]
    cases s.enclosing with
    | none => rfl
    | some j => simp only [ih hnewer]

/-- The holder of a name binds it. -/
theorem own?_of_holder? {f : Forest} {i k : Nat} {x : String} (h : f.holder? i x = some k) :
    ∃ v, f.own? k x = some v := by
  induction f generalizing i with
  | nil => cases h
  | cons s older ih =>
    have own_older : (∃ v, own? older k x = some v) → ∃ v, own? (s :: older) k x = some v := by
      rintro ⟨v, hv⟩
      obtain ⟨t, ht, hv⟩ := Option.bind_eq_some_iff.1 hv
      exact ⟨v, Option.bind_eq_some_iff.2 ⟨t, scope?_cons_of_eq_some ht, hv⟩⟩
    rw [holder?] at h
    split at h
    · next hi =>
      split at h
      · next hx =>
        cases h
        unfold own?
        rw [scope?, if_pos hi]
        exact Option.isSome_iff_exists.1 hx
      · split at h
        · exact own_older (ih h)
        · cases h
    · exact own_older (ih h)

theorem value?_eq (f : Forest) (i : Nat) (x : String) :
    f.value? i x = (f.holder? i x).bind fun k => f.own? k x :=
  rfl

/-- A name has a value exactly where it has a holder. -/
theorem isSome_value? (f : Forest) (i : Nat) (x : String) :
    (f.value? i x).isSome = f.contains i x := by
  rw [contains_eq, value?_eq]
  cases h : f.holder? i x with
  | none => rfl
  | some k =>
    obtain ⟨v, hv⟩ := own?_of_holder? h
    show (f.own? k x).isSome = true
    rw [hv]
    rfl

/-! ### Assigning -/

/-- An assignment that goes well binds the name in its holder. -/
theorem assign_eq_ok_iff {f g : Forest} {i : Nat} {name : Token} {v : Value} :
    f.assign i name v = .ok g ↔
      ∃ k, f.holder? i name.lexeme = some k ∧ g = f.define k name.lexeme v := by
  rw [assign_eq]
  cases f.holder? i name.lexeme with
  | none => simp
  | some k => simp [eq_comm]

/-- What can be read after a name was bound anew in its holder: the new value from wherever that
scope is the holder, and what could be read before from anywhere else. -/
theorem value?_define_holder {f : Forest} {i k : Nat} {x : String} (h : f.holder? i x = some k)
    (v : Value) (j : Nat) (y : String) :
    (f.define k x v).value? j y =
      if y = x ∧ f.holder? j x = some k then some v else f.value? j y := by
  obtain ⟨w, hown⟩ := own?_of_holder? h
  have hrebinds := rebinds_define (lt_length_of_own? hown) x v
  rw [value?_eq, value?_eq, holder?_of_shape_eq (shape_define hown v)]
  simp only [hrebinds.own]
  by_cases hy : y = x
  · subst hy
    cases hj : f.holder? j y with
    | none => simp
    | some l =>
      by_cases hl : l = k
      · simp [hl]
      · simp [hl]
  · simp [hy]

theorem exists_get_iff {f : Forest} {i : Nat} {name : Token} :
    (∃ w, f.get i name = .ok w) ↔ f.contains i name.lexeme = true := by
  rw [get_eq, ← isSome_value?]
  cases f.value? i name.lexeme <;> simp

theorem exists_assign_iff {f : Forest} {i : Nat} {name : Token} {v : Value} :
    (∃ g, f.assign i name v = .ok g) ↔ f.contains i name.lexeme = true := by
  simp only [assign_eq, contains_eq]
  cases f.holder? i name.lexeme <;> simp

theorem get_eq_ok_iff {f : Forest} {i : Nat} {name : Token} {w : Value} :
    f.get i name = .ok w ↔ f.value? i name.lexeme = some w := by
  rw [get_eq]
  cases f.value? i name.lexeme <;> simp

/-! ### Histories -/

/-- A step on the scopes of a session; scopes go by their numbers. -/
inductive Action where
  | new (enclosing : Option Nat)
  | define (scope : Nat) (name : String) (value : Value)
  | get (scope : Nat) (name : Token)
  | assign (scope : Nat) (name : Token) (value : Value)
  | contains (scope : Nat) (name : String)

/-- The scope that a step is about; a new scope may be enclosed by none. -/
def Action.scope? : Action → Option Nat
  | .new enclosing => enclosing
  | .define i _ _ | .get i _ | .assign i _ _ | .contains i _ => some i

/-- The forest after a step. -/
def after (f : Forest) : Action → Forest
  | .new enclosing => f.add enclosing
  | .define i x v => f.define i x v
  | .assign i name v =>
    match f.assign i name v with
    | .ok g => g
    | .error _ => f
  | .get _ _ | .contains _ _ => f

/-- The forests that a history of steps builds, each about a scope that is there. -/
inductive Reachable : Forest → Prop
  | empty : Reachable []
  | step {f : Forest} (action : Action) : Reachable f → (∀ i ∈ action.scope?, i < f.length) →
    Reachable (f.after action)

theorem ordered_add {f : Forest} (h : f.Ordered) {enclosing : Option Nat}
    (henc : ∀ j ∈ enclosing, j < f.length) : (f.add enclosing).Ordered := by
  intro i j hij
  unfold enclosing? add at hij
  rw [scope?] at hij
  split at hij
  · next hi =>
    rw [hi]
    exact henc j hij
  · exact h i j hij

theorem ordered_define {f : Forest} (h : f.Ordered) (i : Nat) (x : String) (v : Value) :
    (f.define i x v).Ordered := by
  intro j k hjk
  rw [enclosing?_define] at hjk
  exact h j k hjk

/-- A step keeps scopes enclosed by older ones. -/
theorem ordered_after {f : Forest} (h : f.Ordered) {action : Action}
    (haction : ∀ i ∈ action.scope?, i < f.length) : (f.after action).Ordered := by
  cases action with
  | new enclosing => exact ordered_add h haction
  | define i x v => exact ordered_define h i x v
  | get i name => exact h
  | contains i x => exact h
  | assign i name v =>
    unfold after
    dsimp only
    split
    · next g hg =>
      obtain ⟨k, -, rfl⟩ := assign_eq_ok_iff.1 hg
      exact ordered_define h k name.lexeme v
    · exact h

/-- In every history scopes are enclosed by older ones. -/
theorem Reachable.ordered {f : Forest} (h : f.Reachable) : f.Ordered := by
  induction h with
  | empty =>
    intro i j hij
    cases hij
  | step _ _ haction ih => exact ordered_after ih haction

end Forest

/-! ### The main statement -/

/-- Reading or assigning to a name that fails leaves the session as it was, and complains that the
name is undefined. -/
theorem unchanged_of_undefined {i : Nat} {name : Token} {v : Value} {s t : Session} {fault : Fault}
    (h : readName i name s = .error fault t ∨ assignName i name v s = .error fault t) :
    t = s ∧ fault = .diagnostic (.undefinedName name) := by
  rw [readName_apply, assignName_apply, Forest.get_eq, Forest.assign_eq] at h
  rcases h with h | h
  · cases hv : s.scopes.value? i name.lexeme <;> rw [hv] at h <;> cases h
    exact ⟨rfl, rfl⟩
  · cases hk : s.scopes.holder? i name.lexeme <;> rw [hk] at h <;> cases h
    exact ⟨rfl, rfl⟩

/-- In every forest that a history of steps builds: asking for a name, reading it and assigning to
it succeed together, where some scope going outwards binds it, and reading gives what the nearest
such scope binds. A definition binds the name in the scope itself and changes nothing else. An
assignment binds it anew in the nearest scope that binds it and changes nothing else, so that the
new value is read from where that scope is the nearest, and the old one from anywhere else. A failed
step changes nothing and complains that the name is undefined. -/
theorem scoping_law {f : Forest} (h : f.Reachable) (i : Nat) (name : Token) (v : Value) :
    ((f.contains i name.lexeme = true ↔ ∃ k, f.Nearest name.lexeme i k) ∧
      ((∃ w, f.get i name = .ok w) ↔ f.contains i name.lexeme = true) ∧
      ((∃ g, f.assign i name v = .ok g) ↔ f.contains i name.lexeme = true) ∧
      ∀ w, f.get i name = .ok w ↔
        ∃ k, f.Nearest name.lexeme i k ∧ f.own? k name.lexeme = some w) ∧
    (i < f.length → f.Rebinds (f.define i name.lexeme v) i name.lexeme v) ∧
    (∀ g, f.assign i name v = .ok g → ∃ k, f.Nearest name.lexeme i k ∧
      f.Rebinds g k name.lexeme v ∧ g.shape = f.shape ∧ ∀ (j : Nat) (seen : Token),
        (seen.lexeme = name.lexeme ∧ f.Nearest name.lexeme j k → g.get j seen = .ok v) ∧
        (¬ (seen.lexeme = name.lexeme ∧ f.Nearest name.lexeme j k) →
          g.get j seen = f.get j seen)) ∧
    (∀ (s t : Session) (fault : Fault), s.scopes = f →
      readName i name s = .error fault t ∨ assignName i name v s = .error fault t →
      t = s ∧ ∃ d, fault = .diagnostic d ∧ d = .undefinedName name ∧ d.line = name.line) := by
  have hnear : ∀ {j k x}, f.holder? j x = some k ↔ f.Nearest x j k :=
    Forest.holder?_eq_some_iff h.ordered
  refine ⟨⟨?_, Forest.exists_get_iff, Forest.exists_assign_iff, fun w => ?_⟩,
    fun hi => Forest.rebinds_define hi _ _, fun g hg => ?_, fun s t fault _ hfail => ?_⟩
  · simp only [Forest.contains_eq, Option.isSome_iff_exists, hnear]
  · simp only [Forest.get_eq_ok_iff, Forest.value?_eq, Option.bind_eq_some_iff, hnear]
  · obtain ⟨k, hk, rfl⟩ := Forest.assign_eq_ok_iff.1 hg
    obtain ⟨w, hown⟩ := Forest.own?_of_holder? hk
    refine ⟨k, hnear.1 hk, Forest.rebinds_define (Forest.lt_length_of_own? hown) _ _,
      Forest.shape_define hown v, fun j seen => ⟨fun hseen => ?_, fun hseen => ?_⟩⟩
    · rw [← hnear] at hseen
      rw [Forest.get_eq_ok_iff, Forest.value?_define_holder hk, if_pos hseen]
    · rw [← hnear] at hseen
      rw [Forest.get_eq, Forest.get_eq, Forest.value?_define_holder hk, if_neg hseen]
  · obtain ⟨rfl, rfl⟩ := unchanged_of_undefined hfail
    exact ⟨rfl, _, rfl, rfl, rfl⟩

/-- Two scopes in the scope that binds `a`; the newer of them binds a name `a` of its own. -/
def shadowedForest : Forest :=
  [⟨some 0, [("a", .nil)]⟩, ⟨some 0, []⟩, ⟨none, [("a", .boolean true)]⟩]

theorem reachable_shadowedForest : shadowedForest.Reachable := by
  have h₁ := Forest.Reachable.step (.new none) .empty (by simp [Forest.Action.scope?])
  have h₂ := h₁.step (.define 0 "a" (.boolean true)) (by decide)
  have h₃ := h₂.step (.new (some 0)) (by decide)
  have h₄ := h₃.step (.new (some 0)) (by decide)
  exact h₄.step (.define 2 "a" .nil) (by decide)

/-- An assignment from the older of the two is seen from the scope around and not from the newer. -/
theorem scoping_law_shadowedForest :
    ∃ g, shadowedForest.assign 1 ⟨.identifier, "a", none, 7⟩ (.boolean false) = .ok g ∧
      g.get 0 ⟨.identifier, "a", none, 8⟩ = .ok (.boolean false) ∧
      g.get 1 ⟨.identifier, "a", none, 8⟩ = .ok (.boolean false) ∧
      g.get 2 ⟨.identifier, "a", none, 8⟩ = .ok .nil := by
  obtain ⟨-, -, hassign, -⟩ := scoping_law reachable_shadowedForest 1
    ⟨.identifier, "a", none, 7⟩ (.boolean false)
  have hown₀ : shadowedForest.own? 0 "a" = some (.boolean true) := rfl
  have hown₂ : shadowedForest.own? 2 "a" = some .nil := rfl
  obtain ⟨k, hk, -, -, hget⟩ := hassign _ rfl
  -- scope 0 is the nearest from scope 1
  have hzero : k = 0 := by
    cases hk with
    | here hown => cases hown
    | outward _ henc hk =>
      cases henc
      cases hk with
      | here _ => rfl
      | outward hown _ _ =>
        rw [hown₀] at hown
        cases hown
  subst hzero
  refine ⟨_, rfl, (hget 0 _).1 ⟨rfl, .here hown₀⟩,
    (hget 1 _).1 ⟨rfl, .outward rfl rfl (.here hown₀)⟩, ?_⟩
  refine (hget 2 ⟨.identifier, "a", none, 8⟩).2 ?_
  rintro ⟨-, hnear⟩
  cases hnear with
  | outward hown _ _ =>
    rw [hown₂] at hown
    cases hown

end LoxTree
