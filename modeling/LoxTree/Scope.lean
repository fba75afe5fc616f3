import LoxTree.Diagnostic
import LoxTree.Value

/-!
# Scopes

A scope binds names to values and may be enclosed by an older scope. Scopes share the scopes that
enclose them, so they form a forest; a scope is known by its number, which is the number of scopes
that are older. Asking for a name, reading it and assigning to it each go outwards from a scope,
past the scopes that do not bind the name. `Forest.holder?` is the nearest scope that binds it, and
all three go by it (`contains_eq`, `get_eq`, `assign_eq`): they succeed exactly when there is one.
-/

namespace LoxTree

/-- A scope: the number of the scope that encloses it, if any, and its bindings. -/
structure Scope where
  enclosing : Option Nat
  bindings : List (String × Value)
  deriving Repr, Inhabited

namespace Scope

/-- The value that a scope itself binds to a name. -/
def find? (s : Scope) (name : String) : Option Value :=
  s.bindings.lookup name

/-- Bindings with the name bound to the value, in the place of an older binding if there is one. -/
def bindIn (name : String) (value : Value) : List (String × Value) → List (String × Value)
  | [] => [(name, value)]
  | (n, v) :: rest => if n = name then (name, value) :: rest else (n, v) :: bindIn name value rest

/-- A scope with the name bound to the value. -/
def bind (s : Scope) (name : String) (value : Value) : Scope :=
  { s with bindings := bindIn name value s.bindings }

/-- Looking up a name compares it with the first entry, then goes on. -/
theorem lookup_entry (name other : String) (value : Value) (rest : List (String × Value)) :
    ((name, value) :: rest).lookup other =
      if other = name then some value else rest.lookup other := by
  by_cases h : other = name
  · simp [h]
  · have hne : (other == name) = false := beq_false_of_ne h
    rw [List.lookup_cons, hne, if_neg h]

/-- Binding a name changes what is bound to it and to no other name. -/
theorem lookup_bindIn (name other : String) (value : Value) (bindings : List (String × Value)) :
    (bindIn name value bindings).lookup other =
      if other = name then some value else bindings.lookup other := by
  induction bindings with
  | nil => exact lookup_entry name other value []
  | cons entry rest ih =>
    obtain ⟨n, v⟩ := entry
    rw [bindIn, lookup_entry]
    by_cases hn : n = name
    · rw [if_pos hn, lookup_entry, hn]
      by_cases h : other = name <;> simp [h]
    · rw [if_neg hn, lookup_entry, ih]
      by_cases h : other = n
      · simp [h, hn]
      · simp [h]

/-- A scope with a name bound binds the value to the name and is otherwise unchanged. -/
theorem find?_bind (s : Scope) (name other : String) (value : Value) :
    (s.bind name value).find? other = if other = name then some value else s.find? other :=
  lookup_bindIn name other value s.bindings

/-- The bindings in the order of the names. -/
def sorted (s : Scope) : List (String × Value) :=
  s.bindings.mergeSort fun a b => a.1 ≤ b.1

end Scope

/-- The scopes of a session, the newest first. A scope's number is the number of older scopes. -/
abbrev Forest := List Scope

namespace Forest

/-- A forest of one scope, number zero, that nothing encloses. -/
def global : Forest :=
  [⟨none, []⟩]

/-- The forest with a new scope; its number is the size of the forest before. -/
def add (f : Forest) (enclosing : Option Nat) : Forest :=
  ⟨enclosing, []⟩ :: f

/-- The scope with the given number. -/
def scope? : Forest → Nat → Option Scope
  | [], _ => none
  | s :: older, i => if i = older.length then some s else scope? older i

/-- The forest with the scope of the given number changed. -/
def update (change : Scope → Scope) : Forest → Nat → Forest
  | [], _ => []
  | s :: older, i => if i = older.length then change s :: older else s :: update change older i

/-- The number of the nearest scope that binds a name, going outwards from scope `i`. A scope is
enclosed by an older one only. -/
def holder? : Forest → Nat → String → Option Nat
  | [], _, _ => none
  | s :: older, i, name =>
    if i = older.length then
      if (s.find? name).isSome then some i
      else
        match s.enclosing with
        | some j => holder? older j name
        | none => none
    else holder? older i name

/-- The value of a name as seen from scope `i`. -/
def value? (f : Forest) (i : Nat) (name : String) : Option Value := do
  let holder ← f.holder? i name
  (← f.scope? holder).find? name

/-- Binds a name in scope `i` itself, over an older binding if there is one. -/
def define (f : Forest) (i : Nat) (name : String) (value : Value) : Forest :=
  f.update (·.bind name value) i

/-- Whether a name is bound in scope `i` or a scope around it. -/
def contains : Forest → Nat → String → Bool
  | [], _, _ => false
  | s :: older, i, name =>
    if i = older.length then
      if (s.find? name).isSome then true
      else
        match s.enclosing with
        | some j => contains older j name
        | none => false
    else contains older i name

/-- The value of a name as seen from scope `i`; the name must be bound. -/
def get : Forest → Nat → Token → Except Diagnostic Value
  | [], _, name => .error (.undefinedName name)
  | s :: older, i, name =>
    if i = older.length then
      match s.find? name.lexeme with
      | some v => .ok v
      | none =>
        match s.enclosing with
        | some j => get older j name
        | none => .error (.undefinedName name)
    else get older i name

/-- Changes the nearest binding of a name as seen from scope `i`; the name must be bound. -/
def assign : Forest → Nat → Token → Value → Except Diagnostic Forest
  | [], _, name, _ => .error (.undefinedName name)
  | s :: older, i, name, value =>
    if i = older.length then
      if (s.find? name.lexeme).isSome then .ok (s.bind name.lexeme value :: older)
      else
        match s.enclosing with
        | some j => (assign older j name value).map (s :: ·)
        | none => .error (.undefinedName name)
    else (assign older i name value).map (s :: ·)

/-! ### All walks go by the holder -/

/-- The holder of a name is a scope of the forest. -/
theorem lt_length_of_holder? {f : Forest} {i k : Nat} {name : String}
    (h : f.holder? i name = some k) : k < f.length := by
  fun_induction holder? f i name with
  | case1 => cases h
  | case2 s older name hs =>
    cases h
    exact Nat.lt_succ_self _
  | case3 s older name hs j henc ih => exact Nat.lt_succ_of_lt (ih h)
  | case4 => cases h
  | case5 s older i name hi ih => exact Nat.lt_succ_of_lt (ih h)

theorem contains_eq (f : Forest) (i : Nat) (name : String) :
    f.contains i name = (f.holder? i name).isSome := by
  fun_induction holder? f i name with
  | case1 => rfl
  | case2 s older name hs => rw [contains, if_pos rfl, if_pos hs]; rfl
  | case3 s older name hs j henc ih => rw [contains, if_pos rfl, if_neg hs, henc, ← ih]
  | case4 s older name hs henc => rw [contains, if_pos rfl, if_neg hs, henc]; rfl
  | case5 s older i name hi ih => rw [contains, if_neg hi, ih]

/-- Where the walk goes on in the older scopes, so does the look-up of the value. -/
theorem value?_cons {s : Scope} {older : Forest} {i j : Nat} {name : String}
    (h : holder? (s :: older) i name = older.holder? j name) :
    value? (s :: older) i name = older.value? j name := by
  unfold value?
  rw [h]
  cases hk : older.holder? j name with
  | none => rfl
  | some k =>
    have hne : k ≠ older.length := Nat.ne_of_lt (lt_length_of_holder? hk)
    show (scope? (s :: older) k >>= fun t => t.find? name) = _
    rw [scope?, if_neg hne]
    rfl

theorem get_eq (f : Forest) (i : Nat) (name : Token) :
    f.get i name =
      match f.value? i name.lexeme with
      | some v => .ok v
      | none => .error (.undefinedName name) := by
  generalize hx : name.lexeme = x
  fun_induction holder? f i x with
  | case1 => rfl
  | case2 s older x hs =>
    obtain ⟨v, hv⟩ := Option.isSome_iff_exists.1 hs
    have hvalue : value? (s :: older) older.length x = some v := by
      unfold value?
      rw [holder?, if_pos rfl, if_pos hs]
      show (scope? (s :: older) older.length >>= fun t => t.find? x) = _
      rw [scope?, if_pos rfl]
      exact hv
    rw [get, if_pos rfl, hx, hv, hvalue]
  | case3 s older x hs j henc ih =>
    have hgo : holder? (s :: older) older.length x = holder? older j x := by
      rw [holder?, if_pos rfl, if_neg hs, henc]
    rw [get, if_pos rfl, hx, Option.not_isSome_iff_eq_none.1 hs, henc, value?_cons hgo]
    exact ih hx
  | case4 s older x hs henc =>
    have hnone : value? (s :: older) older.length x = none := by
      unfold value?
      rw [holder?, if_pos rfl, if_neg hs, henc]
      rfl
    rw [get, if_pos rfl, hx, Option.not_isSome_iff_eq_none.1 hs, henc, hnone]
  | case5 s older i x hi ih =>
    have hgo : holder? (s :: older) i x = holder? older i x := by rw [holder?, if_neg hi]
    rw [get, if_neg hi, value?_cons hgo]
    exact ih hx

/-- Where the walk goes on in the older scopes, the newest stays as it is. -/
theorem map_define_holder? (s : Scope) (older : Forest) (j : Nat) (name : String) (value : Value)
    (d : Diagnostic) :
    Except.map (s :: ·) (match holder? older j name with
      | some holder => Except.ok (define older holder name value)
      | none => .error d) =
      match holder? older j name with
      | some holder => .ok (define (s :: older) holder name value)
      | none => .error d := by
  cases hk : holder? older j name with
  | none => rfl
  | some k =>
    have hne : k ≠ older.length := Nat.ne_of_lt (lt_length_of_holder? hk)
    show Except.ok (s :: define older k name value) = .ok (define (s :: older) k name value)
    unfold define
    rw [update, if_neg hne]

theorem assign_eq (f : Forest) (i : Nat) (name : Token) (value : Value) :
    f.assign i name value =
      match f.holder? i name.lexeme with
      | some holder => .ok (f.define holder name.lexeme value)
      | none => .error (.undefinedName name) := by
  generalize hx : name.lexeme = x
  fun_induction holder? f i x with
  | case1 => rfl
  | case2 s older x hs =>
    rw [assign, if_pos rfl, hx, if_pos hs]
    show _ = Except.ok (define (s :: older) older.length x value)
    unfold define
    rw [update, if_pos rfl]
  | case3 s older x hs j henc ih =>
    rw [assign, if_pos rfl, hx, if_neg hs, henc]
    dsimp only
    rw [ih hx, map_define_holder?]
  | case4 s older x hs henc => rw [assign, if_pos rfl, hx, if_neg hs, henc]
  | case5 s older i x hi ih => rw [assign, if_neg hi, ih hx, map_define_holder?]

/-- The bindings of every scope, the oldest scope first and each in the order of the names. -/
def listing (f : Forest) : List (List (String × Value)) :=
  f.reverse.map Scope.sorted

end Forest

end LoxTree
