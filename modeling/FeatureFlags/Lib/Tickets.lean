import Mathlib.Logic.Function.Basic
import Mathlib.Data.List.Nodup
import Mathlib.Data.List.Perm.Subperm

/-!
# Readers of generations

Each key has a current generation or none.  A reader is admitted to the current generation of its
key, or to a new one, and holds it until it leaves; a generation without readers is dropped.
Generations are numbered as they are made, and each counts its readers (`running`) and its
admissions (`next`, up to a maximum).

* `Tickets`: the invariant.  A generation belongs to one key, and `running` is the number of its
  readers.
* `Tickets.join`, `Tickets.create`, `Tickets.leave`, `Tickets.drop`: the operations keep it.
* `Tickets.two_le_running`: a generation that a reader leaves keeps its other readers.
-/

namespace FeatureFlags.Lib

variable {K : Type}

/-- `held` says which generation, of which key, a reader holds. -/
structure Tickets (max : Nat) (current : K → Option Nat) (running next : Nat → Nat)
    (allocated : Nat) (held : Nat → Option (K × Nat)) : Prop where
  current_lt : ∀ k n, current k = some n → n < allocated
  held_lt : ∀ r k n, held r = some (k, n) → n < allocated
  current_inj : ∀ k k' n, current k = some n → current k' = some n → k' = k
  owner : ∀ k k' n r, current k = some n → held r = some (k', n) → k' = k
  counted : ∀ n < allocated, ∃ l : List Nat, l.Nodup ∧ l.length = running n ∧
    ∀ r, r ∈ l ↔ ∃ k, held r = some (k, n)
  bounded : ∀ n < allocated, running n ≤ next n ∧ next n ≤ max

namespace Tickets

variable {max : Nat} {current current' : K → Option Nat} {running next : Nat → Nat}
  {allocated : Nat} {held : Nat → Option (K × Nat)} {k : K} {n r : Nat}

theorem start (max : Nat) (running next : Nat → Nat) :
    Tickets max (fun _ : K => none) running next 0 (fun _ => none) where
  current_lt _ _ h := by cases h
  held_lt _ _ _ h := by cases h
  current_inj _ _ _ h := by cases h
  owner _ _ _ _ h := by cases h
  counted n h := absurd h (Nat.not_lt_zero n)
  bounded n h := absurd h (Nat.not_lt_zero n)

/-- Some keys lose their generation. -/
theorem drop (h : Tickets max current running next allocated held)
    (hsub : ∀ k n, current' k = some n → current k = some n) :
    Tickets max current' running next allocated held where
  current_lt k n hn := h.current_lt k n (hsub k n hn)
  held_lt := h.held_lt
  current_inj k k' n hn hn' := h.current_inj k k' n (hsub k n hn) (hsub k' n hn')
  owner k k' n r hn := h.owner k k' n r (hsub k n hn)
  counted := h.counted
  bounded := h.bounded

/-- A reader joins the generation of its key. -/
theorem join (h : Tickets max current running next allocated held) (free : held r = none)
    (hn : current k = some n) (room : next n ≠ max) :
    Tickets max current (Function.update running n (running n + 1))
      (Function.update next n (next n + 1)) allocated
      (Function.update held r (some (k, n))) := by
  obtain ⟨hcurrent, hheld, hinj, howner, hcounted, hbounded⟩ := h
  refine ⟨hcurrent, ?_, hinj, ?_, fun n' hn' => ?_, ?_⟩ <;> simp only [Function.update_apply]
  · grind
  · grind
  · -- The readers of the generation are the old ones and the new one.
    obtain ⟨l, hnodup, hlen, hmem⟩ := hcounted n' hn'
    by_cases hne : n' = n
    · have hfree : r ∉ l := by simp [hmem, free]
      refine ⟨r :: l, by grind, by grind, fun r' => ?_⟩
      by_cases hr : r' = r <;> simp [hr, hmem, hne]
    · exact ⟨l, by grind⟩
  · grind

/-- A reader gets a new generation for its key. -/
theorem create [DecidableEq K] (h : Tickets max current running next allocated held)
    (free : held r = none) (hmax : 1 ≤ max) :
    Tickets max (Function.update current k (some allocated)) (Function.update running allocated 1)
      (Function.update next allocated 1) (allocated + 1)
      (Function.update held r (some (k, allocated))) := by
  obtain ⟨hcurrent, hheld, hinj, howner, hcounted, hbounded⟩ := h
  refine ⟨?_, ?_, ?_, ?_, fun n' hn' => ?_, ?_⟩ <;> simp only [Function.update_apply]
  · grind
  · grind
  · -- No key has had the number of the new generation before.
    intro k₁ k₂ n' h₁ h₂
    have := hcurrent k₁ n'
    have := hcurrent k₂ n'
    grind
  · grind
  · by_cases hne : n' = allocated
    · refine ⟨[r], by simp, by simp [hne], fun r' => ?_⟩
      by_cases hr : r' = r <;> simp [hr, hne]
      exact fun k' h => absurd (hheld r' k' _ h) (Nat.lt_irrefl _)
    · obtain ⟨l, hnodup, hlen, hmem⟩ := hcounted n' (by omega)
      exact ⟨l, by grind⟩
  · grind

theorem leave (h : Tickets max current running next allocated held) (hr : held r = some (k, n)) :
    Tickets max current (Function.update running n (running n - 1)) next allocated
      (Function.update held r none) := by
  obtain ⟨hcurrent, hheld, hinj, howner, hcounted, hbounded⟩ := h
  refine ⟨hcurrent, ?_, hinj, ?_, fun n' hn' => ?_, ?_⟩ <;> simp only [Function.update_apply]
  · grind
  · grind
  · obtain ⟨l, hnodup, hlen, hmem⟩ := hcounted n' hn'
    by_cases hne : n' = n
    · exact ⟨l.erase r, by grind⟩
    · exact ⟨l, by grind⟩
  · grind

/-- Two readers of one generation are counted. -/
theorem two_le_running (h : Tickets max current running next allocated held) {r' : Nat} {k' : K}
    (hr : held r = some (k, n)) (hr' : held r' = some (k', n)) (hne : r ≠ r') : 2 ≤ running n := by
  obtain ⟨l, hnodup, hlen, hmem⟩ := h.counted n (h.held_lt r k n hr)
  have hpair : [r, r'] ⊆ l := by
    intro x hx
    rcases List.mem_pair.mp hx with rfl | rfl
    · exact (hmem _).mpr ⟨k, hr⟩
    · exact (hmem _).mpr ⟨k', hr'⟩
  have hlen2 := (List.subperm_of_subset (by simpa using hne) hpair).length_le
  rwa [hlen] at hlen2

end Tickets

end FeatureFlags.Lib
