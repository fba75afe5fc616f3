import LoxTree.Fault

/-!
# Reasoning about steps that may fail

The parser and a running session are both sequences of steps that change a state and may fail, and
the state outlives a failure. Three judgements say what such a step does.

* `Ensures m s good bad`: started in `s`, the step `m` ends well as `good` says or fails as `bad`
  says.
* `Agree R V F m n`: started in states that `R` relates, the steps `m` and `n` both end well, with
  results and states as `V` says, or both fail, with faults and states as `F` says.
* `Coincide R E m n`: started in states that `R` relates, the steps have the same outcome
  (`SameOutcome`): they end well with the same result or fail with faults that `E` relates, and the
  states stay related. The faults of the two steps may be of different types.

Each has a rule for every way in which steps are put together, so that a property of a long step is
proved from the properties of its parts. `bind_eq_ok_iff` and its like take apart a step that ended
well.
-/

namespace LoxTree

variable {σ τ α β γ δ : Type}

/-- A step that changes a state of type `σ` and may fail. -/
abbrev Step (σ α : Type) := EStateM Fault σ α

namespace Step

/-! ### Steps that end well -/

theorem bind_eq_ok_iff {m : Step σ α} {k : α → Step σ β} {s s' : σ} {b : β} :
    (m >>= k) s = .ok b s' ↔ ∃ a t, m s = .ok a t ∧ k a t = .ok b s' := by
  show EStateM.bind m k s = .ok b s' ↔ _
  unfold EStateM.bind
  cases m s with
  | ok a t =>
    constructor
    · intro h
      exact ⟨a, t, rfl, h⟩
    · rintro ⟨a, t, heq, h⟩
      cases heq
      exact h
  | error f t => simp

theorem map_eq_ok_iff {m : Step σ α} {g : α → β} {s s' : σ} {b : β} :
    (g <$> m) s = .ok b s' ↔ ∃ a, m s = .ok a s' ∧ g a = b := by
  show EStateM.map g m s = .ok b s' ↔ _
  unfold EStateM.map
  cases m s with
  | ok a t =>
    constructor
    · intro h
      cases h
      exact ⟨a, rfl, rfl⟩
    · rintro ⟨a, heq, rfl⟩
      cases heq
      rfl
  | error f t => simp

/-- A first part that ends well hands over to the second. -/
theorem bind_of_ok {ε : Type} {m : EStateM ε σ α} {k : α → EStateM ε σ β} {s t : σ} {a : α}
    (h : m s = .ok a t) : (m >>= k) s = k a t := by
  show EStateM.bind m k s = k a t
  unfold EStateM.bind
  rw [h]

/-- A first part that fails is all there is. -/
theorem bind_of_error {ε : Type} {m : EStateM ε σ α} {k : α → EStateM ε σ β} {s t : σ} {f : ε}
    (h : m s = .error f t) : (m >>= k) s = .error f t := by
  show EStateM.bind m k s = _
  unfold EStateM.bind
  rw [h]

theorem map_of_ok {ε : Type} {m : EStateM ε σ α} {g : α → β} {s t : σ} {a : α}
    (h : m s = .ok a t) :
    (g <$> m) s = .ok (g a) t := by
  show EStateM.map g m s = _
  unfold EStateM.map
  rw [h]

theorem map_of_error {ε : Type} {m : EStateM ε σ α} {g : α → β} {s t : σ} {f : ε}
    (h : m s = .error f t) :
    (g <$> m) s = .error f t := by
  show EStateM.map g m s = _
  unfold EStateM.map
  rw [h]

/-- A step that ends well needs no rescue. -/
theorem tryCatch_of_ok {ε : Type} {m : EStateM ε σ α} {rescue : ε → EStateM ε σ α} {s t : σ} {a : α}
    (h : m s = .ok a t) : (tryCatch m rescue : EStateM ε σ α) s = .ok a t := by
  show EStateM.tryCatch m rescue s = _
  unfold EStateM.tryCatch
  simp only [h]

/-- A step that fails is rescued in the state in which it failed. -/
theorem tryCatch_of_error {ε : Type} {m : EStateM ε σ α} {rescue : ε → EStateM ε σ α} {s t : σ}
    {f : ε} (h : m s = .error f t) : (tryCatch m rescue : EStateM ε σ α) s = rescue f t := by
  show EStateM.tryCatch m rescue s = _
  unfold EStateM.tryCatch
  simp only [h]
  rfl

end Step

open Step

/-- A fault that is about the program that is read or run: a complaint, or nesting beyond the room
for it. It ends one statement; any other fault ends the whole. -/
def Fault.Recoverable (f : Fault) : Prop :=
  f = .tooDeep ∨ ∃ d, f = .diagnostic d

/-! ### What one step ensures -/

/-- Started in `s`, the step `m` ends well as `good` says or fails as `bad` says. -/
def Ensures (m : Step σ α) (s : σ) (good : α → σ → Prop) (bad : Fault → σ → Prop) : Prop :=
  match m s with
  | .ok a s' => good a s'
  | .error f s' => bad f s'

namespace Ensures

variable {m : Step σ α} {s : σ} {good : α → σ → Prop} {bad : Fault → σ → Prop}

theorem ok (h : Ensures m s good bad) {a : α} {s' : σ} (hm : m s = .ok a s') : good a s' := by
  unfold Ensures at h
  rwa [hm] at h

theorem error (h : Ensures m s good bad) {f : Fault} {s' : σ} (hm : m s = .error f s') :
    bad f s' := by
  unfold Ensures at h
  rwa [hm] at h

theorem of_ok {a : α} {s' : σ} (hm : m s = .ok a s') (h : good a s') : Ensures m s good bad := by
  unfold Ensures
  rwa [hm]

theorem of_error {f : Fault} {s' : σ} (hm : m s = .error f s') (h : bad f s') :
    Ensures m s good bad := by
  unfold Ensures
  rwa [hm]

/-- Only the outcome of a step counts. -/
theorem congr {n : Step σ α} {t : σ} (h : m s = n t) :
    Ensures m s good bad ↔ Ensures n t good bad := by
  unfold Ensures
  rw [h]

/-- A judgement from what the outcomes of a step satisfy. -/
theorem of_outcomes (hok : ∀ a s', m s = .ok a s' → good a s')
    (herr : ∀ f s', m s = .error f s' → bad f s') : Ensures m s good bad := by
  unfold Ensures
  split
  · next a s' hm => exact hok a s' hm
  · next f s' hm => exact herr f s' hm

theorem mono {good' : α → σ → Prop} {bad' : Fault → σ → Prop} (h : Ensures m s good bad)
    (hgood : ∀ a s', good a s' → good' a s') (hbad : ∀ f s', bad f s' → bad' f s') :
    Ensures m s good' bad' :=
  of_outcomes (fun _ _ hm => hgood _ _ (h.ok hm)) (fun _ _ hm => hbad _ _ (h.error hm))

/-- What two judgements say of a step holds together. -/
theorem and {good' : α → σ → Prop} {bad' : Fault → σ → Prop} (h : Ensures m s good bad)
    (h' : Ensures m s good' bad') :
    Ensures m s (fun a s' => good a s' ∧ good' a s') (fun f s' => bad f s' ∧ bad' f s') :=
  of_outcomes (fun _ _ hm => ⟨h.ok hm, h'.ok hm⟩) (fun _ _ hm => ⟨h.error hm, h'.error hm⟩)

theorem pure {a : α} (h : good a s) : Ensures (Pure.pure a) s good bad :=
  h

theorem throw {f : Fault} (h : bad f s) : Ensures (MonadExcept.throw f) s good bad :=
  h

theorem ofExcept {x : Except Fault α} (hok : ∀ a, x = .ok a → good a s)
    (herr : ∀ f, x = .error f → bad f s) : Ensures (MonadExcept.ofExcept x) s good bad := by
  cases x with
  | ok a => exact hok a rfl
  | error f => exact herr f rfl

theorem bind {k : α → Step σ β} {good' : β → σ → Prop}
    (h : Ensures m s (fun a s' => Ensures (k a) s' good' bad) bad) :
    Ensures (m >>= k) s good' bad := by
  unfold Ensures
  cases hm : m s with
  | ok a s' =>
    rw [bind_of_ok hm]
    exact h.ok hm
  | error f s' =>
    rw [bind_of_error hm]
    exact h.error hm

theorem map {g : α → β} {good' : β → σ → Prop}
    (h : Ensures m s (fun a s' => good' (g a) s') bad) : Ensures (g <$> m) s good' bad := by
  unfold Ensures
  cases hm : m s with
  | ok a s' =>
    rw [map_of_ok hm]
    exact h.ok hm
  | error f s' =>
    rw [map_of_error hm]
    exact h.error hm

end Ensures

/-! ### What two steps have in common -/

/-- Started in states that `R` relates, two steps both end well, with results and states as `V`
says, or both fail, with faults and states as `F` says. -/
def Agree (R : σ → τ → Prop) (V : α → β → σ → τ → Prop) (F : Fault → Fault → σ → τ → Prop)
    (m : Step σ α) (n : Step τ β) : Prop :=
  ∀ s t, R s t →
    match m s, n t with
    | .ok a s', .ok b t' => V a b s' t'
    | .error f s', .error g t' => F f g s' t'
    | _, _ => False

namespace Agree

variable {R : σ → τ → Prop} {V : α → β → σ → τ → Prop} {W : γ → δ → σ → τ → Prop}
variable {F : Fault → Fault → σ → τ → Prop} {m : Step σ α} {n : Step τ β}

theorem ok (h : Agree R V F m n) {s s' : σ} {t : τ} (hr : R s t) {a : α} (hm : m s = .ok a s') :
    ∃ b t', n t = .ok b t' ∧ V a b s' t' := by
  have hst := h s t hr
  rw [hm] at hst
  cases hn : n t with
  | ok b t' =>
    rw [hn] at hst
    exact ⟨b, t', rfl, hst⟩
  | error g t' =>
    rw [hn] at hst
    exact hst.elim

theorem error (h : Agree R V F m n) {s s' : σ} {t : τ} (hr : R s t) {f : Fault}
    (hm : m s = .error f s') : ∃ g t', n t = .error g t' ∧ F f g s' t' := by
  have hst := h s t hr
  rw [hm] at hst
  cases hn : n t with
  | ok b t' =>
    rw [hn] at hst
    exact hst.elim
  | error g t' =>
    rw [hn] at hst
    exact ⟨g, t', rfl, hst⟩

/-- Agreement from a pair of outcomes for every pair of related states. -/
theorem of_ok (h : ∀ s t, R s t → ∃ a s' b t', m s = .ok a s' ∧ n t = .ok b t' ∧ V a b s' t') :
    Agree R V F m n := by
  intro s t hr
  obtain ⟨a, s', b, t', hm, hn, hv⟩ := h s t hr
  rw [hm, hn]
  exact hv

theorem mono {R' : σ → τ → Prop} {V' : α → β → σ → τ → Prop} (h : Agree R V F m n)
    (hR : ∀ s t, R' s t → R s t) (hV : ∀ a b s t, V a b s t → V' a b s t) :
    Agree R' V' F m n := by
  intro s t hr
  cases hm : m s with
  | ok a s' =>
    obtain ⟨b, t', hn, hv⟩ := h.ok (hR s t hr) hm
    rw [hn]
    exact hV a b s' t' hv
  | error f s' =>
    obtain ⟨g, t', hn, hf⟩ := h.error (hR s t hr) hm
    rw [hn]
    exact hf

theorem bind {k : α → Step σ γ} {l : β → Step τ δ} (h : Agree R V F m n)
    (hkl : ∀ a b, Agree (V a b) W F (k a) (l b)) : Agree R W F (m >>= k) (n >>= l) := by
  intro s t hr
  cases hm : m s with
  | ok a s' =>
    obtain ⟨b, t', hn, hv⟩ := h.ok hr hm
    rw [bind_of_ok hm, bind_of_ok hn]
    exact hkl a b s' t' hv
  | error f s' =>
    obtain ⟨g, t', hn, hf⟩ := h.error hr hm
    rw [bind_of_error hm, bind_of_error hn]
    exact hf

theorem map {g : α → γ} {g' : β → δ} (h : Agree R (fun a b => W (g a) (g' b)) F m n) :
    Agree R W F (g <$> m) (g' <$> n) := by
  intro s t hr
  cases hm : m s with
  | ok a s' =>
    obtain ⟨b, t', hn, hw⟩ := h.ok hr hm
    rw [map_of_ok hm, map_of_ok hn]
    exact hw
  | error f s' =>
    obtain ⟨f', t', hn, hf⟩ := h.error hr hm
    rw [map_of_error hm, map_of_error hn]
    exact hf

end Agree

/-! ### Steps with the same outcome -/

/-- Two steps both ended well with the same result, or both failed with faults that `E` relates, in
states that `R` relates. -/
def SameOutcome {ε ζ : Type} (R : σ → τ → Prop) (E : ε → ζ → Prop) :
    EStateM.Result ε σ α → EStateM.Result ζ τ α → Prop
  | .ok a s, .ok b t => b = a ∧ R s t
  | .error f s, .error g t => E f g ∧ R s t
  | _, _ => False

/-- Started in states that `R` relates, two steps have the same outcome. -/
def Coincide {ε ζ : Type} (R : σ → τ → Prop) (E : ε → ζ → Prop) (m : EStateM ε σ α)
    (n : EStateM ζ τ α) : Prop :=
  ∀ s t, R s t → SameOutcome R E (m s) (n t)

section

variable {ε ζ : Type} {R : σ → τ → Prop} {E : ε → ζ → Prop} {m : EStateM ε σ α} {n : EStateM ζ τ α}

namespace SameOutcome

theorem ok {s : σ} {a : α} {y : EStateM.Result ζ τ α}
    (h : SameOutcome R E (.ok a s : EStateM.Result ε σ α) y) : ∃ t, y = .ok a t ∧ R s t := by
  cases y with
  | ok b t =>
    obtain ⟨rfl, hr⟩ := h
    exact ⟨t, rfl, hr⟩
  | error g t => exact h.elim

theorem error {s : σ} {f : ε} {y : EStateM.Result ζ τ α}
    (h : SameOutcome R E (.error f s : EStateM.Result ε σ α) y) :
    ∃ g t, y = .error g t ∧ E f g ∧ R s t := by
  cases y with
  | ok b t => exact h.elim
  | error g t => exact ⟨g, t, rfl, h⟩

/-- The second parts need to agree only where the first one ended well. -/
theorem bind {k : α → EStateM ε σ β} {l : α → EStateM ζ τ β} {s : σ} {t : τ}
    (h : SameOutcome R E (m s) (n t))
    (hkl : ∀ a s' t', m s = .ok a s' → R s' t' → SameOutcome R E (k a s') (l a t')) :
    SameOutcome R E ((m >>= k) s) ((n >>= l) t) := by
  cases hm : m s with
  | ok a s' =>
    obtain ⟨t', hn, hr⟩ := (hm ▸ h).ok
    rw [bind_of_ok hm, bind_of_ok hn]
    exact hkl a s' t' hm hr
  | error f s' =>
    obtain ⟨g, t', hn, hfg⟩ := (hm ▸ h).error
    rw [bind_of_error hm, bind_of_error hn]
    exact hfg

end SameOutcome

namespace Coincide

theorem pure (a : α) : Coincide R E (Pure.pure a) (Pure.pure a) :=
  fun _ _ hr => ⟨rfl, hr⟩

theorem throw {f : ε} {g : ζ} (h : E f g) :
    Coincide R E (MonadExcept.throw f : EStateM ε σ α) (MonadExcept.throw g : EStateM ζ τ α) :=
  fun _ _ hr => ⟨h, hr⟩

theorem bind {k : α → EStateM ε σ β} {l : α → EStateM ζ τ β} (h : Coincide R E m n)
    (hkl : ∀ a, Coincide R E (k a) (l a)) : Coincide R E (m >>= k) (n >>= l) :=
  fun s t hr => (h s t hr).bind fun a s' t' _ hr' => hkl a s' t' hr'

theorem map {g : α → β} (h : Coincide R E m n) : Coincide R E (g <$> m) (g <$> n) := by
  intro s t hr
  have hst := h s t hr
  cases hm : m s with
  | ok a s' =>
    obtain ⟨t', hn, hr'⟩ := (hm ▸ hst).ok
    rw [map_of_ok hm, map_of_ok hn]
    exact ⟨rfl, hr'⟩
  | error f s' =>
    obtain ⟨g, t', hn, hfg⟩ := (hm ▸ hst).error
    rw [map_of_error hm, map_of_error hn]
    exact hfg

theorem tryCatch {rescue : ε → EStateM ε σ α} {rescue' : ζ → EStateM ζ τ α} (h : Coincide R E m n)
    (hrescue : ∀ f g, E f g → Coincide R E (rescue f) (rescue' g)) :
    Coincide R E (MonadExcept.tryCatch m rescue) (MonadExcept.tryCatch n rescue') := by
  intro s t hr
  have hst := h s t hr
  cases hm : m s with
  | ok a s' =>
    obtain ⟨t', hn, hr'⟩ := (hm ▸ hst).ok
    rw [tryCatch_of_ok hm, tryCatch_of_ok hn]
    exact ⟨rfl, hr'⟩
  | error f s' =>
    obtain ⟨g, t', hn, hfg, hr'⟩ := (hm ▸ hst).error
    rw [tryCatch_of_error hm, tryCatch_of_error hn]
    exact hrescue f g hfg s' t' hr'

theorem ofExcept (x : Except ε α) :
    Coincide R Eq (MonadExcept.ofExcept x : EStateM ε σ α) (MonadExcept.ofExcept x) := by
  cases x with
  | ok a => exact pure a
  | error f => exact throw rfl

theorem ofExcept_bind {x : Except ε α} {k : α → EStateM ε σ β} {l : α → EStateM ε τ β}
    (h : ∀ a, x = .ok a → Coincide R Eq (k a) (l a)) :
    Coincide R Eq (MonadExcept.ofExcept x >>= k) (MonadExcept.ofExcept x >>= l) := by
  cases x with
  | ok a => exact h a rfl
  | error f => exact throw rfl

end Coincide

end

end LoxTree
