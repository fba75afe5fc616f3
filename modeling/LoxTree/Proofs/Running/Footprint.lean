import LoxTree.Proofs.Running.Located
import LoxTree.Proofs.Running.Scoping

/-!
# What an expression touches and what it reads

Evaluation changes scopes in the middle of an expression, and a failure leaves the changes that came
before it. Still an expression touches only the names that it assigns to, and it reads only the
names that occur in it.

* `Tree.targets` and `Tree.names` are these names.
* `Forest.DiffersAt xs f g`: the scopes of `g` are those of `f`, bind the same names, and differ at
  most in the values of `xs`. `confined_evaluate` says that an expression leaves such scopes.
* `SeenAlike xs i j s u`: the names `xs` have the same values as seen from scope `i` of one session
  and from scope `j` of another. `coincide_evaluate` says that an expression with no other names has
  the same outcome in both, and leaves them alike.
* `evaluate_footprint` puts the two together.
-/

namespace LoxTree

open Step Run

/-! ### The names of an expression -/

namespace Tree

/-- The name that a tree is, if it is a token. -/
def lexemes (n : Tree) : List String :=
  n.token?.toList.map Token.lexeme

/-- The names that an expression assigns to. -/
def targets : Tree → List String
  | grouping e | unary _ e => e.targets
  | binary l _ r => l.targets ++ r.targets
  | assign n e => n.lexemes ++ e.targets
  | _ => []

/-- The names that occur in an expression. -/
def names : Tree → List String
  | grouping e | unary _ e => e.names
  | binary l _ r => l.names ++ r.names
  | reference n => n.lexemes
  | assign n e => n.lexemes ++ e.names
  | _ => []

theorem mem_lexemes {n : Tree} {name : Token} (h : n.asToken = .ok name) :
    name.lexeme ∈ n.lexemes := by
  unfold lexemes
  rw [token?_of_asToken h]
  exact List.mem_singleton.2 rfl

end Tree

/-! ### What an expression touches -/

/-- The second forest has the scopes of the first, with the same names bound in them, and differs
from it at most in the values of the given names. -/
structure Forest.DiffersAt (xs : List String) (f g : Forest) : Prop where
  shape : g.shape = f.shape
  value : ∀ (i : Nat) (x : String), x ∉ xs → g.value? i x = f.value? i x

namespace Forest.DiffersAt

variable {xs ys : List String} {f g h : Forest}

theorem refl (xs : List String) (f : Forest) : f.DiffersAt xs f :=
  ⟨rfl, fun _ _ _ => rfl⟩

theorem trans (hfg : f.DiffersAt xs g) (hgh : g.DiffersAt xs h) : f.DiffersAt xs h :=
  ⟨hgh.shape.trans hfg.shape, fun i x hx => (hgh.value i x hx).trans (hfg.value i x hx)⟩

/-- An assignment changes the value of its name at most. -/
theorem of_assign {i : Nat} {name : Token} {v : Value} (hname : name.lexeme ∈ xs)
    (hg : f.assign i name v = .ok g) : f.DiffersAt xs g := by
  obtain ⟨k, hk, rfl⟩ := assign_eq_ok_iff.1 hg
  obtain ⟨w, hown⟩ := own?_of_holder? hk
  refine ⟨shape_define hown v, fun j x hx => ?_⟩
  have hne : x ≠ name.lexeme := fun heq => hx (heq ▸ hname)
  rw [value?_define_holder hk, if_neg fun hxk => hne hxk.1]

end Forest.DiffersAt

/-- A step that touches the given names at most, whether it ends well or fails. -/
def Confined (xs : List String) {α : Type} (m : Run α) : Prop :=
  ∀ s, Ensures m s (fun _ s' => s.scopes.DiffersAt xs s'.scopes)
    (fun _ s' => s.scopes.DiffersAt xs s'.scopes)

namespace Confined

variable {xs : List String} {α β : Type} {m : Run α}

theorem pure (a : α) : Confined xs (Pure.pure a : Run α) :=
  fun _ => Ensures.pure (.refl xs _)

theorem throw (f : Fault) : Confined xs (MonadExcept.throw f : Run α) :=
  fun _ => Ensures.throw (.refl xs _)

theorem bind {k : α → Run β} (h : Confined xs m) (hk : ∀ a, Confined xs (k a)) :
    Confined xs (m >>= k) := by
  intro s
  refine Ensures.bind ((h s).mono (fun a s' hs => ?_) fun _ _ => id)
  exact (hk a s').mono (fun _ _ hs' => hs.trans hs') fun _ _ hs' => hs.trans hs'

theorem ofExcept_bind {x : Except Fault α} {k : α → Run β}
    (h : ∀ a, x = .ok a → Confined xs (k a)) :
    Confined xs (MonadExcept.ofExcept x >>= k) := by
  cases x with
  | ok a => exact h a rfl
  | error f => exact throw f

theorem ofExcept (x : Except Fault α) : Confined xs (MonadExcept.ofExcept x : Run α) := by
  cases x with
  | ok a => exact pure a
  | error f => exact throw f

end Confined

section

variable {xs : List String}

theorem confined_note (level : Int) (line : String) : Confined xs (note level line) := by
  intro s
  obtain ⟨s', h, -, hscopes⟩ := note_eq_ok level line s
  refine .of_ok h ?_
  rw [hscopes]
  exact .refl xs s.scopes

theorem confined_readName (scope : Nat) (name : Token) : Confined xs (readName scope name) := by
  intro s
  unfold Ensures
  rw [readName_apply]
  cases s.scopes.get scope name <;> exact .refl xs s.scopes

theorem confined_assignName {name : Token} (hname : name.lexeme ∈ xs) (scope : Nat)
    (value : Value) : Confined xs (assignName scope name value) := by
  intro s
  unfold Ensures
  rw [assignName_apply]
  cases hassign : s.scopes.assign scope name value with
  | ok scopes => exact .of_assign hname hassign
  | error d => exact .refl xs s.scopes

/-- An expression touches the names that it assigns to at most. -/
theorem confined_evaluate (scope room : Nat) {t : Tree} (h : t.targets ⊆ xs) :
    Confined xs (evaluate scope room t) := by
  induction room generalizing t with
  | zero => exact .throw _
  | succ room ih =>
    cases t with
    | literal v =>
      show Confined xs (if v.isLox then Pure.pure v else throw (.unsupported (.literal v)))
      split
      · exact .pure v
      · exact .throw _
    | grouping e => exact ih (t := e) h
    | reference n => exact .ofExcept_bind fun name _ => confined_readName scope name
    | assign n e =>
      obtain ⟨hn, he⟩ := List.append_subset.1 h
      exact (ih he).bind fun value => .ofExcept_bind fun name hname =>
        (confined_assignName (hn (Tree.mem_lexemes hname)) scope value).bind fun _ =>
          (confined_note _ _).bind fun _ => .pure value
    | unary op e =>
      exact (ih (t := e) h).bind fun value => .ofExcept_bind fun operator _ => .ofExcept _
    | binary l op r =>
      obtain ⟨hl, hr⟩ := List.append_subset.1 h
      exact (ih hl).bind fun left => (ih hr).bind fun right =>
        .ofExcept_bind fun operator _ => .ofExcept _
    | _ => exact .throw _

end

/-! ### What an expression reads -/

/-- The given names have the same values, or none, as seen from scope `i` of one session and from
scope `j` of another. -/
def SeenAlike (xs : List String) (i j : Nat) (s u : Session) : Prop :=
  ∀ x ∈ xs, u.scopes.value? j x = s.scopes.value? i x

section

variable {xs : List String} {i j : Nat}

/-- Names that are seen alike are bound alike. -/
theorem SeenAlike.contains {s u : Session} (h : SeenAlike xs i j s u) {x : String} (hx : x ∈ xs) :
    u.scopes.contains j x = s.scopes.contains i x := by
  rw [← Forest.isSome_value?, ← Forest.isSome_value?, h x hx]

/-- A step from scope `i` and one from scope `j` that have the same outcome in sessions in which the
given names are seen alike. -/
abbrev CoincideOn (xs : List String) (i j : Nat) {α : Type} (m n : Run α) : Prop :=
  Coincide (SeenAlike xs i j) Eq m n

/-- Two sessions may trace at different levels; the scopes do not show it. -/
theorem coincide_note (level : Int) (line : String) :
    CoincideOn xs i j (note level line) (note level line) := by
  intro s u h
  obtain ⟨s', hs, -, hs'⟩ := note_eq_ok level line s
  obtain ⟨u', hu, -, hu'⟩ := note_eq_ok level line u
  rw [hs, hu]
  refine ⟨rfl, fun x hx => ?_⟩
  rw [hs', hu']
  exact h x hx

theorem coincide_readName {name : Token} (hname : name.lexeme ∈ xs) :
    CoincideOn xs i j (readName i name) (readName j name) := by
  intro s u h
  rw [readName_apply, readName_apply, Forest.get_eq, Forest.get_eq, h _ hname]
  cases s.scopes.value? i name.lexeme <;> exact ⟨rfl, h⟩

theorem coincide_assignName {name : Token} (hname : name.lexeme ∈ xs) (value : Value) :
    CoincideOn xs i j (assignName i name value) (assignName j name value) := by
  intro s u h
  rw [assignName_apply, assignName_apply, Forest.assign_eq, Forest.assign_eq]
  have hbound := h.contains hname
  rw [Forest.contains_eq, Forest.contains_eq] at hbound
  cases hk : s.scopes.holder? i name.lexeme with
  | none =>
    have hl : u.scopes.holder? j name.lexeme = none := by
      rw [← Option.not_isSome_iff_eq_none, hbound, hk]
      exact Bool.false_ne_true
    rw [hl]
    exact ⟨rfl, h⟩
  | some k =>
    obtain ⟨l, hl⟩ : ∃ l, u.scopes.holder? j name.lexeme = some l := by
      rw [← Option.isSome_iff_exists, hbound, hk]
      rfl
    rw [hl]
    refine ⟨rfl, fun x hx => ?_⟩
    -- the name itself has the new value on both sides, and every other the value it had
    show (u.scopes.define l name.lexeme value).value? j x =
      (s.scopes.define k name.lexeme value).value? i x
    rw [Forest.value?_define_holder hk, Forest.value?_define_holder hl, h x hx, hk, hl]
    simp

/-- An expression has the same outcome wherever its names are seen alike. -/
theorem coincide_evaluate (room : Nat) {t : Tree} (h : t.names ⊆ xs) :
    CoincideOn xs i j (evaluate i room t) (evaluate j room t) := by
  induction room generalizing t with
  | zero => exact .throw rfl
  | succ room ih =>
    cases t with
    | literal v =>
      show CoincideOn xs i j (if v.isLox then Pure.pure v else throw (.unsupported (.literal v)))
        (if v.isLox then Pure.pure v else throw (.unsupported (.literal v)))
      split
      · exact .pure v
      · exact .throw rfl
    | grouping e => exact ih (t := e) h
    | reference n =>
      exact .ofExcept_bind fun name hname => coincide_readName (h (Tree.mem_lexemes hname))
    | assign n e =>
      obtain ⟨hn, he⟩ := List.append_subset.1 h
      exact (ih he).bind fun value => .ofExcept_bind fun name hname =>
        (coincide_assignName (hn (Tree.mem_lexemes hname)) value).bind fun _ =>
          (coincide_note _ _).bind fun _ => .pure value
    | unary op e =>
      exact (ih (t := e) h).bind fun value => .ofExcept_bind fun operator _ => .ofExcept _
    | binary l op r =>
      obtain ⟨hl, hr⟩ := List.append_subset.1 h
      exact (ih hl).bind fun left => (ih hr).bind fun right =>
        .ofExcept_bind fun operator _ => .ofExcept _
    | _ => exact .throw rfl

end

/-! ### The main statement -/

/-- Whether evaluation gives a value or fails, no scope gains or loses a name, and every name that
the expression does not assign to keeps its value as seen from every scope. As seen from two scopes,
of sessions that may be quite different, in which the names of the expression have the same values
or none, it gives the same value or fails the same, and then the names have the same values
again. -/
theorem evaluate_footprint (t : Tree) (room : Nat) :
    (∀ (i : Nat) (s : Session), match evaluate i room t s with
      | .ok _ s' | .error _ s' => s'.scopes.shape = s.scopes.shape ∧
        ∀ (j : Nat) (x : String), x ∉ t.targets → s'.scopes.value? j x = s.scopes.value? j x) ∧
    (∀ (i j : Nat) (s u : Session),
      (∀ x ∈ t.names, u.scopes.value? j x = s.scopes.value? i x) →
      match evaluate i room t s, evaluate j room t u with
      | .ok v s', .ok w u' =>
        w = v ∧ ∀ x ∈ t.names, u'.scopes.value? j x = s'.scopes.value? i x
      | .error f s', .error g u' =>
        g = f ∧ ∀ x ∈ t.names, u'.scopes.value? j x = s'.scopes.value? i x
      | _, _ => False) := by
  refine ⟨fun i s => ?_, fun i j s u h => ?_⟩
  · have hconfined := confined_evaluate i room (List.Subset.refl t.targets) s
    unfold Ensures at hconfined
    split at hconfined
    · next heq =>
      rw [heq]
      exact ⟨hconfined.shape, hconfined.value⟩
    · next heq =>
      rw [heq]
      exact ⟨hconfined.shape, hconfined.value⟩
  · have hcoincide := coincide_evaluate (i := i) (j := j) room (List.Subset.refl t.names) s u h
    cases hs : evaluate i room t s <;> cases hu : evaluate j room t u <;> rw [hs, hu] at hcoincide
    · exact hcoincide
    · exact hcoincide
    · exact hcoincide
    · exact ⟨hcoincide.1.symm, hcoincide.2⟩

/-- The expression `(a = b) + c`. -/
def interruptedSum : Tree :=
  .binary (.grouping (.assign (.token ⟨.identifier, "a", none, 1⟩)
    (.reference (.token ⟨.identifier, "b", none, 1⟩)))) (.token ⟨.plus, "+", none, 1⟩)
    (.reference (.token ⟨.identifier, "c", none, 1⟩))

/-- Where `c` is undefined the expression fails behind its assignment. It does so in one scope that
binds `a` and `b` and in two scopes that bind one of them each, with the same fault and the same
value for `a`, and the value of `z` is what it was. -/
theorem evaluate_footprint_interruptedSum :
    ∃ s' u', evaluate 0 9 interruptedSum
        { scopes := [⟨none, [("a", .nil), ("b", .boolean true)]⟩] } =
        .error (.diagnostic (.undefinedName ⟨.identifier, "c", none, 1⟩)) s' ∧
      evaluate 1 9 interruptedSum
        { scopes := [⟨some 0, [("z", .nil), ("a", .nil)]⟩, ⟨none, [("b", .boolean true)]⟩] } =
        .error (.diagnostic (.undefinedName ⟨.identifier, "c", none, 1⟩)) u' ∧
      s'.scopes.value? 0 "a" = some (.boolean true) ∧
      u'.scopes.value? 1 "a" = some (.boolean true) ∧ u'.scopes.value? 1 "z" = some .nil := by
  obtain ⟨hframe, hboth⟩ := evaluate_footprint interruptedSum 9
  have halike := hboth 0 1 { scopes := [⟨none, [("a", .nil), ("b", .boolean true)]⟩] }
    { scopes := [⟨some 0, [("z", .nil), ("a", .nil)]⟩, ⟨none, [("b", .boolean true)]⟩] } (by
      intro x hx
      have hx : x = "a" ∨ x = "b" ∨ x = "c" := by
        simpa [interruptedSum, Tree.names, Tree.lexemes, Tree.token?] using hx
      rcases hx with rfl | rfl | rfl <;> rfl)
  have hkept := hframe 1
    { scopes := [⟨some 0, [("z", .nil), ("a", .nil)]⟩, ⟨none, [("b", .boolean true)]⟩] }
  refine ⟨_, _, rfl, rfl, rfl, (halike.2 "a" ?_).trans rfl, (hkept.2 1 "z" ?_).trans rfl⟩
  · simp [interruptedSum, Tree.names, Tree.lexemes, Tree.token?]
  · simp [interruptedSum, Tree.targets, Tree.lexemes, Tree.token?]

end LoxTree
