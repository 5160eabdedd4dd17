import Mathlib.Data.List.Basic

/-!
# Lists of writes

A store is read with `look : σ → K → V`.  A step that handles an item `a` changes only the keys
that `a` touches, and relates the old value of such a key to the new one by `R`.

* `Writes.frame`: a key that no item touches keeps its value.
* `Writes.once`: if no two items touch one key, each key keeps its value or changes once, by `R`.
* `Writes.at_key`: if an item's value is computed from the old one, and no two items have one key,
  the last store has at each item's key what is computed from the first.
* `Writes.logged`: if each step also logs the change of its item's key, and no two items have one
  key, the log of all steps is the log of the changes between the first and the last store.
-/

namespace FeatureFlags.Lib

variable {σ α K V : Type}

/-- The items are handled from left to right. -/
inductive Writes (step : σ → α → σ → Prop) : List α → σ → σ → Prop
  | nil (s : σ) : Writes step [] s s
  | cons {a : α} {l : List α} {s t u : σ} (head : step s a t) (tail : Writes step l t u) :
      Writes step (a :: l) s u

namespace Writes

theorem foldl (f : σ → α → σ) (l : List α) (s : σ) :
    Writes (fun s a t => f s a = t) l s (l.foldl f s) := by
  induction l generalizing s with
  | nil => exact .nil s
  | cons a l ih => exact .cons rfl (ih (f s a))

theorem of_foldlM {ε : Type} {f : σ → α → Except ε σ} {l : List α} {s t : σ}
    (h : l.foldlM f s = .ok t) : Writes (fun s a t => f s a = .ok t) l s t := by
  induction l generalizing s with
  | nil =>
    cases h
    exact .nil _
  | cons a l ih =>
    rw [List.foldlM_cons] at h
    cases hf : f s a with
    | error e =>
      rw [hf] at h
      cases h
    | ok u =>
      rw [hf] at h
      exact .cons hf (ih h)

theorem exists_step {step : σ → α → σ → Prop} {l : List α} {s t : σ} (h : Writes step l s t)
    {a : α} (ha : a ∈ l) : ∃ u v, step u a v := by
  induction h with
  | nil => cases ha
  | cons head _ ih =>
    rcases List.mem_cons.mp ha with rfl | ha
    · exact ⟨_, _, head⟩
    · exact ih ha

variable {step : σ → α → σ → Prop} (look : σ → K → V) {touches : α → K → Prop} (R : V → V → Prop)
  {l : List α} {s t : σ}

section

variable (framed : ∀ s a t k, step s a t → ¬ touches a k → look t k = look s k)
include framed

theorem frame
    (h : Writes step l s t) {k : K} (hk : ∀ a ∈ l, ¬ touches a k) : look t k = look s k := by
  induction h with
  | nil => rfl
  | cons head _ ih =>
    rw [List.forall_mem_cons] at hk
    rw [ih hk.2, framed _ _ _ _ head hk.1]

theorem once (change : ∀ s a t k, step s a t → touches a k → R (look s k) (look t k))
    (h : Writes step l s t) (distinct : l.Pairwise fun a b => ∀ k, touches a k → ¬ touches b k)
    (k : K) : look t k = look s k ∨ R (look s k) (look t k) := by
  induction h with
  | nil => exact .inl rfl
  | cons head tail ih =>
    rename_i a l s t u
    rw [List.pairwise_cons] at distinct
    by_cases hk : touches a k
    · -- the later items do not touch `k` again
      rw [tail.frame look framed fun b hb => distinct.1 b hb k hk]
      exact .inr (change _ _ _ _ head hk)
    · rw [← framed _ _ _ _ head hk]
      exact ih distinct.2

end

theorem at_key {key : α → K} (f : α → V → V)
    (framed : ∀ s a t k, step s a t → ¬ key a = k → look t k = look s k)
    (writes : ∀ s a t, step s a t → look t (key a) = f a (look s (key a)))
    (h : Writes step l s t) (distinct : (l.map key).Nodup) {a : α} (ha : a ∈ l) :
    look t (key a) = f a (look s (key a)) := by
  induction h with
  | nil => cases ha
  | cons head tail ih =>
    rename_i b l s t u
    rw [List.map_cons, List.nodup_cons] at distinct
    rcases List.mem_cons.mp ha with rfl | ha
    · -- the later items have other keys
      rw [tail.frame look framed fun c hc hkey => distinct.1 (List.mem_map.mpr ⟨c, hc, hkey⟩)]
      exact writes _ _ _ head
    · have hne : ¬ key b = key a := fun hkey => distinct.1 (List.mem_map.mpr ⟨a, ha, hkey.symm⟩)
      rw [ih distinct.2 ha, framed _ _ _ _ head hne]

theorem logged {E : Type} {key : α → K} (log : σ → List E) (entry : α → V → V → Option E)
    (framed : ∀ s a t k, step s a t → ¬ key a = k → look t k = look s k)
    (logs : ∀ s a t, step s a t →
      log t = log s ++ (entry a (look s (key a)) (look t (key a))).toList)
    (h : Writes step l s t) (distinct : (l.map key).Nodup) :
    log t = log s ++ l.filterMap fun a => entry a (look s (key a)) (look t (key a)) := by
  induction h with
  | nil => simp
  | cons head tail ih =>
    rename_i a l s t u
    rw [List.map_cons, List.nodup_cons] at distinct
    have hne : ∀ b ∈ l, key b ≠ key a := fun b hb hkey =>
      distinct.1 (List.mem_map.mpr ⟨b, hb, hkey⟩)
    -- the key of `a` is as the first step leaves it, the keys of the others are as before it
    have hlast : look u (key a) = look t (key a) := tail.frame look framed hne
    have hfirst : ∀ b ∈ l, look t (key b) = look s (key b) := fun b hb =>
      framed s a t (key b) head (Ne.symm (hne b hb))
    have hrest : l.filterMap (fun b => entry b (look t (key b)) (look u (key b))) =
        l.filterMap fun b => entry b (look s (key b)) (look u (key b)) :=
      List.filterMap_congr fun b hb => by rw [hfirst b hb]
    rw [ih distinct.2, logs s a t head, hrest, List.append_assoc, ← hlast]
    cases hentry : entry a (look s (key a)) (look u (key a)) <;> simp [hentry]

end Writes

end FeatureFlags.Lib
