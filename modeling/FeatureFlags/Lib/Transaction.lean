import Mathlib.Tactic.Common

/-!
# Operations that fail with a state

`EStateM ε σ` passes the state on also when it fails.

* `run_bind_eq_ok`, `run_map_eq_ok`: when a composed operation succeeds, and with which state.
* `ReadOnly`: the operation changes nothing.
* `FailsOnly fatal`: it fails with a fatal error only.
* `Atomic fatal`: a failure that is not fatal has changed nothing.  A read-only operation followed
  by an atomic one is atomic, so an operation that checks first and writes last is.
* `Maintains inv allowed`: from a state with the invariant, the operation keeps it or fails with an
  allowed error.
* `Returns post`: what is known of every result.
-/

namespace FeatureFlags.Lib

variable {ε σ α β : Type}

/-! ### Success -/

theorem run_bind_eq_ok {x : EStateM ε σ α} {f : α → EStateM ε σ β} {s u : σ} {b : β} :
    (x >>= f).run s = .ok b u ↔ ∃ a t, x.run s = .ok a t ∧ (f a).run t = .ok b u := by
  rw [EStateM.run_bind]
  cases h : x.run s <;> simp

theorem run_map_eq_ok {x : EStateM ε σ α} {f : α → β} {s t : σ} {b : β} :
    (f <$> x).run s = .ok b t ↔ ∃ a, x.run s = .ok a t ∧ f a = b := by
  rw [← bind_pure_comp, run_bind_eq_ok]
  simp only [EStateM.run_pure, EStateM.Result.ok.injEq]
  constructor
  · rintro ⟨a, u, hx, rfl, rfl⟩
    exact ⟨a, hx, rfl⟩
  · rintro ⟨a, hx, rfl⟩
    exact ⟨a, t, hx, rfl, rfl⟩

theorem run_throw {s : σ} (e : ε) : (throw e : EStateM ε σ α).run s = .error e s := rfl

/-! ### Failure -/

/-- The operation changes nothing. -/
def ReadOnly (x : EStateM ε σ α) : Prop :=
  ∀ s, (∀ a t, x.run s = .ok a t → t = s) ∧ ∀ e t, x.run s = .error e t → t = s

/-- The operation fails with a fatal error only. -/
def FailsOnly (fatal : ε → Prop) (x : EStateM ε σ α) : Prop :=
  ∀ s e t, x.run s = .error e t → fatal e

/-- A failure that is not fatal has changed nothing. -/
def Atomic (fatal : ε → Prop) (x : EStateM ε σ α) : Prop :=
  ∀ s e t, x.run s = .error e t → fatal e ∨ t = s

variable {fatal : ε → Prop} {x : EStateM ε σ α} {f : α → EStateM ε σ β}

theorem ReadOnly.atomic (h : ReadOnly x) : Atomic fatal x :=
  fun s e t hx => .inr ((h s).2 e t hx)

theorem FailsOnly.atomic (h : FailsOnly fatal x) : Atomic fatal x :=
  fun s e t hx => .inl (h s e t hx)

theorem readOnly_pure (a : α) : ReadOnly (pure a : EStateM ε σ α) := by
  intro s
  simp

theorem readOnly_throw (e : ε) : ReadOnly (throw e : EStateM ε σ α) := by
  intro s
  simp [run_throw]

theorem readOnly_get : ReadOnly (get : EStateM ε σ σ) := by
  intro s
  simp

theorem failsOnly_pure (a : α) : FailsOnly fatal (pure a : EStateM ε σ α) := by
  intro s e t h
  simp at h

theorem failsOnly_get : FailsOnly fatal (get : EStateM ε σ σ) := by
  intro s e t h
  simp at h

theorem failsOnly_set (s : σ) : FailsOnly fatal (set s : EStateM ε σ PUnit) := by
  intro s e t h
  simp at h

theorem failsOnly_modify (g : σ → σ) : FailsOnly fatal (modify g : EStateM ε σ PUnit) := by
  intro s e t h
  simp at h

private theorem run_bind_eq_error {s u : σ} {e : ε} :
    (x >>= f).run s = .error e u ↔
      x.run s = .error e u ∨ ∃ a t, x.run s = .ok a t ∧ (f a).run t = .error e u := by
  rw [EStateM.run_bind]
  cases h : x.run s <;> simp

theorem ReadOnly.bind (hx : ReadOnly x) (hf : ∀ a, ReadOnly (f a)) : ReadOnly (x >>= f) := by
  intro s
  constructor
  · intro b u h
    obtain ⟨a, t, hxa, hfa⟩ := run_bind_eq_ok.mp h
    rw [(hf a t).1 b u hfa, (hx s).1 a t hxa]
  · intro e u h
    obtain hxe | ⟨a, t, hxa, hfa⟩ := run_bind_eq_error.mp h
    · exact (hx s).2 e u hxe
    · rw [(hf a t).2 e u hfa, (hx s).1 a t hxa]

theorem FailsOnly.bind (hx : FailsOnly fatal x) (hf : ∀ a, FailsOnly fatal (f a)) :
    FailsOnly fatal (x >>= f) := by
  intro s e u h
  obtain hxe | ⟨a, t, hxa, hfa⟩ := run_bind_eq_error.mp h
  · exact hx s e u hxe
  · exact hf a t e u hfa

/-- Checks come first: a read-only operation before an atomic one. -/
theorem Atomic.bind (hx : ReadOnly x) (hf : ∀ a, Atomic fatal (f a)) : Atomic fatal (x >>= f) := by
  intro s e u h
  obtain hxe | ⟨a, t, hxa, hfa⟩ := run_bind_eq_error.mp h
  · exact .inr ((hx s).2 e u hxe)
  · rw [(hx s).1 a t hxa] at hfa
    exact hf a s e u hfa

/-- Returning a result comes last: an atomic operation before one that does not fail. -/
theorem Atomic.bind_pure (hx : Atomic fatal x) (hf : ∀ a, FailsOnly fatal (f a)) :
    Atomic fatal (x >>= f) := by
  intro s e u h
  obtain hxe | ⟨a, t, hxa, hfa⟩ := run_bind_eq_error.mp h
  · exact hx s e u hxe
  · exact .inl (hf a t e u hfa)

theorem Atomic.map (hx : Atomic fatal x) (g : α → β) : Atomic fatal (g <$> x) := by
  rw [← bind_pure_comp]
  exact hx.bind_pure fun a => failsOnly_pure (g a)

theorem ReadOnly.map (hx : ReadOnly x) (g : α → β) : ReadOnly (g <$> x) := by
  rw [← bind_pure_comp]
  exact hx.bind fun a => readOnly_pure (g a)

/-! ### Invariants -/

/-- From a state with the invariant, the operation keeps it or fails with an allowed error. -/
def Maintains (inv : σ → Prop) (allowed : ε → Prop) (x : EStateM ε σ α) : Prop :=
  ∀ s, inv s → (∀ a t, x.run s = .ok a t → inv t) ∧ ∀ e t, x.run s = .error e t → allowed e

variable {inv : σ → Prop} {allowed : ε → Prop}

theorem maintains_pure (a : α) : Maintains inv allowed (pure a : EStateM ε σ α) := by
  intro s hs
  simp [hs]

theorem maintains_throw {e : ε} (h : allowed e) :
    Maintains inv allowed (throw e : EStateM ε σ α) := by
  intro s hs
  simp [run_throw, h]

theorem Maintains.bind (hx : Maintains inv allowed x) (hf : ∀ a, Maintains inv allowed (f a)) :
    Maintains inv allowed (x >>= f) := by
  intro s hs
  constructor
  · intro b u h
    obtain ⟨a, t, hxa, hfa⟩ := run_bind_eq_ok.mp h
    exact (hf a t ((hx s hs).1 a t hxa)).1 b u hfa
  · intro e u h
    obtain hxe | ⟨a, t, hxa, hfa⟩ := run_bind_eq_error.mp h
    · exact (hx s hs).2 e u hxe
    · exact (hf a t ((hx s hs).1 a t hxa)).2 e u hfa

/-- An operation that reads the state first. -/
theorem maintains_get_bind {g : σ → EStateM ε σ β}
    (h : ∀ s, inv s → (∀ a t, (g s).run s = .ok a t → inv t) ∧
      ∀ e t, (g s).run s = .error e t → allowed e) : Maintains inv allowed (get >>= g) := by
  intro s hs
  rw [EStateM.run_bind, EStateM.run_get]
  exact h s hs

theorem maintains_modify {g : σ → σ} (h : ∀ s, inv s → inv (g s)) :
    Maintains inv allowed (modify g : EStateM ε σ PUnit) := by
  intro s hs
  simp [h s hs]

/-! ### Results -/

/-- What is known of every result. -/
def Returns (post : α → Prop) (x : EStateM ε σ α) : Prop := ∀ s a t, x.run s = .ok a t → post a

variable {post : α → Prop} {post' : β → Prop}

theorem returns_pure {a : α} (h : post a) : Returns post (pure a : EStateM ε σ α) := by
  intro s b t hb
  rw [EStateM.run_pure, EStateM.Result.ok.injEq] at hb
  rw [← hb.1]
  exact h

theorem returns_throw (e : ε) : Returns post (throw e : EStateM ε σ α) := by
  intro s a t ha
  simp [run_throw] at ha

theorem Returns.bind (hx : Returns post x) (hf : ∀ a, post a → Returns post' (f a)) :
    Returns post' (x >>= f) := by
  intro s b u h
  obtain ⟨a, t, ha, hb⟩ := run_bind_eq_ok.mp h
  exact hf a (hx s a t ha) t b u hb

theorem returns_mapM {ι : Type} {g : ι → EStateM ε σ α} {l : List ι}
    (h : ∀ i ∈ l, Returns post (g i)) : Returns (fun as => ∀ a ∈ as, post a) (l.mapM g) := by
  induction l with
  | nil =>
    rw [List.mapM_nil]
    exact returns_pure nofun
  | cons i l ih =>
    obtain ⟨hi, hl⟩ := List.forall_mem_cons.mp h
    rw [List.mapM_cons]
    exact hi.bind fun a ha => (ih hl).bind fun as has =>
      returns_pure (List.forall_mem_cons.mpr ⟨ha, has⟩)

end FeatureFlags.Lib
