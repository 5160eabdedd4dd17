import FeatureFlags.Lib.Transaction

/-!
# Operations that touch one part of the state

A state of type `σ` has a part `view i` for every `i`.

* `ActsAt view i s x y`: started in `s`, the operation `x` on the whole state does what `y` does on
  the part `i`, and the other parts stay as they are.  The rules follow the way operations are
  composed.
* `outcomes`: what the actions of a run return.
* `outcomes_filter`: if every action acts at its own part, the outcomes at the part `i` are those of
  the actions at `i` alone.
-/

namespace FeatureFlags.Lib

universe u

variable {ε σ τ ι α β : Type}

/-! ### One operation -/

/-- Started in `s`, `x` does what `y` does on the part `i`, and nothing to the other parts. -/
def ActsAt (view : ι → σ → τ) (i : ι) (s : σ) (x : EStateM ε σ α) (y : EStateM ε τ α) : Prop :=
  match x.run s with
  | .ok a t => y.run (view i s) = .ok a (view i t) ∧ ∀ j, j ≠ i → view j t = view j s
  | .error e t => y.run (view i s) = .error e (view i t) ∧ ∀ j, j ≠ i → view j t = view j s

namespace ActsAt

variable {view : ι → σ → τ} {i : ι} {s t : σ} {x : EStateM ε σ α} {y : EStateM ε τ α}
  {f : α → EStateM ε σ β} {g : α → EStateM ε τ β}

theorem of_ok {a : α} (h : ActsAt view i s x y) (hx : x.run s = .ok a t) :
    y.run (view i s) = .ok a (view i t) ∧ ∀ j, j ≠ i → view j t = view j s := by
  unfold ActsAt at h
  rwa [hx] at h

theorem of_error {e : ε} (h : ActsAt view i s x y) (hx : x.run s = .error e t) :
    y.run (view i s) = .error e (view i t) ∧ ∀ j, j ≠ i → view j t = view j s := by
  unfold ActsAt at h
  rwa [hx] at h

theorem of_run_ok {a : α} (hx : x.run s = .ok a t) (hy : y.run (view i s) = .ok a (view i t))
    (hother : ∀ j, j ≠ i → view j t = view j s) : ActsAt view i s x y := by
  unfold ActsAt
  rw [hx]
  exact ⟨hy, hother⟩

theorem pure (a : α) : ActsAt view i s (pure a : EStateM ε σ α) (pure a) :=
  ⟨rfl, fun _ _ => rfl⟩

theorem throw (e : ε) : ActsAt view i s (throw e : EStateM ε σ α) (throw e) :=
  ⟨rfl, fun _ _ => rfl⟩

theorem bind (hx : ActsAt view i s x y)
    (hf : ∀ a t, x.run s = .ok a t → ActsAt view i t (f a) (g a)) :
    ActsAt view i s (x >>= f) (y >>= g) := by
  unfold ActsAt
  rw [EStateM.run_bind, EStateM.run_bind]
  cases h : x.run s with
  | error e t =>
    obtain ⟨hy, hother⟩ := hx.of_error h
    simp only [hy]
    exact ⟨trivial, hother⟩
  | ok a t =>
    obtain ⟨hy, hother⟩ := hx.of_ok h
    simp only [hy]
    -- The second operation starts in `t`, whose other parts are those of `s`.
    have hrest := hf a t h
    unfold ActsAt at hrest
    split at hrest <;> exact ⟨hrest.1, fun j hj => (hrest.2 j hj).trans (hother j hj)⟩

theorem map (hx : ActsAt view i s x y) (c : α → β) : ActsAt view i s (c <$> x) (c <$> y) := by
  rw [← bind_pure_comp, ← bind_pure_comp]
  exact hx.bind fun a t _ => .pure (c a)

/-- Both branch on the same condition, one read off the whole state and one off the part. -/
theorem ite {c d : Prop} [Decidable c] [Decidable d] {x' : EStateM ε σ α} {y' : EStateM ε τ α}
    (hcond : c ↔ d) (hpos : c → ActsAt view i s x y) (hneg : ¬ c → ActsAt view i s x' y') :
    ActsAt view i s (if c then x else x') (if d then y else y') := by
  by_cases hc : c
  · rw [if_pos hc, if_pos (hcond.mp hc)]
    exact hpos hc
  · rw [if_neg hc, if_neg (mt hcond.mpr hc)]
    exact hneg hc

/-- Reading the whole state, and reading the part. -/
theorem get_bind {f : σ → EStateM ε σ β} {g : τ → EStateM ε τ β}
    (h : ActsAt view i s (f s) (g (view i s))) : ActsAt view i s (get >>= f) (get >>= g) := by
  unfold ActsAt at h ⊢
  rw [EStateM.run_bind, EStateM.run_bind]
  exact h

/-- A write that no part shows has no counterpart. -/
theorem modify_bind {m : σ → σ} {f : PUnit → EStateM ε σ α} (hm : ∀ j, view j (m s) = view j s)
    (h : ActsAt view i (m s) (f ⟨⟩) y) : ActsAt view i s (modify m >>= f) y := by
  unfold ActsAt at h ⊢
  rw [EStateM.run_bind]
  simp only [hm] at h
  exact h

/-- Writing the whole state, and writing the part. -/
theorem set {p : τ} (hi : view i t = p) (hother : ∀ j, j ≠ i → view j t = view j s) :
    ActsAt view i s (set t : EStateM ε σ PUnit) (set p) := by
  subst hi
  exact ⟨rfl, hother⟩

theorem modify {m : σ → σ} {n : τ → τ} (hi : view i (m s) = n (view i s))
    (hother : ∀ j, j ≠ i → view j (m s) = view j s) :
    ActsAt view i s (modify m : EStateM ε σ PUnit) (modify n) := by
  refine ⟨?_, hother⟩
  rw [hi]
  rfl

end ActsAt

/-! ### Runs -/

/-- What the actions of a run return; an action that fails does not end the run. -/
def outcomes {A : Type u} (exec : A → EStateM ε σ α) : List A → σ → List (A × Except ε α)
  | [], _ => []
  | a :: rest, s =>
    match (exec a).run s with
    | .ok r t => (a, .ok r) :: outcomes exec rest t
    | .error e t => (a, .error e) :: outcomes exec rest t

theorem exists_run_of_mem_outcomes {A : Type u} {exec : A → EStateM ε σ α} {actions : List A}
    {s : σ} {a : A} {r : α} (h : (a, .ok r) ∈ outcomes exec actions s) :
    ∃ t t', (exec a).run t = .ok r t' := by
  induction actions generalizing s with
  | nil => cases h
  | cons b rest ih =>
    rw [outcomes] at h
    cases hb : (exec b).run s with
    | ok r' t =>
      simp only [hb, List.mem_cons, Prod.mk.injEq, Except.ok.injEq] at h
      rcases h with ⟨rfl, rfl⟩ | h
      · exact ⟨s, t, hb⟩
      · exact ih h
    | error e t =>
      simp only [hb, List.mem_cons, Prod.mk.injEq, reduceCtorEq, and_false, false_or] at h
      exact ih h

/-- An action returns the same on the whole state and on its part, and both runs go on. -/
theorem ActsAt.outcomes_cons {A : Type u} {view : ι → σ → τ} {i : ι} {s : σ}
    {exec : A → EStateM ε σ α} {onPart : A → EStateM ε τ α} {a : A}
    (h : ActsAt view i s (exec a) (onPart a)) :
    ∃ r t, (∀ rest, outcomes exec (a :: rest) s = (a, r) :: outcomes exec rest t) ∧
      (∀ rest, outcomes onPart (a :: rest) (view i s) =
        (a, r) :: outcomes onPart rest (view i t)) ∧ ∀ j, j ≠ i → view j t = view j s := by
  cases hx : (exec a).run s with
  | ok r t =>
    obtain ⟨hy, hother⟩ := h.of_ok hx
    exact ⟨.ok r, t, fun rest => by rw [outcomes, hx], fun rest => by rw [outcomes, hy], hother⟩
  | error e t =>
    obtain ⟨hy, hother⟩ := h.of_error hx
    exact ⟨.error e, t, fun rest => by rw [outcomes, hx], fun rest => by rw [outcomes, hy], hother⟩

/-- The outcomes at the part `i` are those of the actions at `i` alone, on that part alone. -/
theorem outcomes_filter {A : Type u} [DecidableEq ι] (view : ι → σ → τ) (part : A → ι)
    {exec : A → EStateM ε σ α} {onPart : A → EStateM ε τ α}
    (hexec : ∀ a s, ActsAt view (part a) s (exec a) (onPart a)) (i : ι) (actions : List A) (s : σ) :
    (outcomes exec actions s).filter (fun o => part o.1 = i) =
      outcomes onPart (actions.filter fun a => part a = i) (view i s) := by
  induction actions generalizing s with
  | nil => rfl
  | cons a rest ih =>
    obtain ⟨r, t, hwhole, hpart, hother⟩ := (hexec a s).outcomes_cons
    by_cases ha : part a = i
    · subst ha
      rw [hwhole, List.filter_cons_of_pos (by simp), ih, List.filter_cons_of_pos (by simp), hpart]
    · -- An action at another part returns nothing here and leaves the part `i` as it is.
      rw [hwhole, List.filter_cons_of_neg (by simpa using ha), ih,
        List.filter_cons_of_neg (by simpa using ha), hother i (Ne.symm ha)]

end FeatureFlags.Lib
