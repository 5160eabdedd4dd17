import Mathlib.Algebra.Order.Ring.Int
import Mathlib.Data.List.Basic
import Mathlib.Tactic.Linarith
import Mathlib.Tactic.Ring

/-!
# Spaced times

A list of times, each at least `m` after the ones before it.  At most `D / m + 1` of them are in a
span of length `D` (`Spaced.countP_le`).
-/

namespace FeatureFlags.Lib

/-- Each time is at least `m` after the ones before it. -/
def Spaced (m : Int) (times : List Int) : Prop := times.Pairwise fun t u => t + m ≤ u

namespace Spaced

variable {m : Int} {times : List Int}

/-- One more time. -/
theorem snoc {t : Int} (h : Spaced m times) (ht : ∀ u ∈ times, u + m ≤ t) :
    Spaced m (times ++ [t]) := by
  refine List.pairwise_append.mpr ⟨h, List.pairwise_singleton _ _, fun u hu v hv => ?_⟩
  rw [List.mem_singleton.mp hv]
  exact ht u hu

/-- The first of `n + 1` times and the last are at least `n * m` apart. -/
theorem exists_mem_le {t : Int} (h : Spaced m (t :: times)) :
    ∃ u ∈ t :: times, t + times.length * m ≤ u := by
  induction times generalizing t with
  | nil => exact ⟨t, List.mem_singleton_self t, by simp⟩
  | cons u times ih =>
    obtain ⟨hfirst, hrest⟩ := List.pairwise_cons.mp h
    obtain ⟨v, hv, hle⟩ := ih hrest
    have hstep : t + m ≤ u := hfirst u List.mem_cons_self
    refine ⟨v, List.mem_cons_of_mem t hv, ?_⟩
    calc t + (u :: times).length * m = t + m + times.length * m := by
          rw [List.length_cons]
          push_cast
          ring
      _ ≤ u + times.length * m := by linarith
      _ ≤ v := hle

/-- In a span of length `D` there are at most `D / m + 1` times. -/
theorem countP_le (hm : 0 < m) (h : Spaced m times) (start : Int) {D : Int} (hD : 0 ≤ D) :
    (times.countP fun t => start ≤ t ∧ t ≤ start + D : Int) ≤ D / m + 1 := by
  have hspaced := h.filter fun t => start ≤ t ∧ t ≤ start + D
  rw [List.countP_eq_length_filter]
  have hmem (t : Int) (ht : t ∈ times.filter fun t => start ≤ t ∧ t ≤ start + D) :
      start ≤ t ∧ t ≤ start + D := by
    simpa using (List.mem_filter.mp ht).2
  generalize times.filter (fun t => start ≤ t ∧ t ≤ start + D) = inside at hspaced hmem
  cases inside with
  | nil =>
    have hdiv : 0 ≤ D / m := Int.ediv_nonneg hD hm.le
    simp only [List.length_nil]
    omega
  | cons t inside =>
    obtain ⟨u, hu, hle⟩ := exists_mem_le hspaced
    have hfirst := (hmem t List.mem_cons_self).1
    have hlast := (hmem u hu).2
    have hspan : (inside.length : Int) * m ≤ D := by omega
    have hdiv : (inside.length : Int) ≤ D / m := (Int.le_ediv_iff_mul_le hm).mpr hspan
    rw [List.length_cons]
    push_cast
    omega

end Spaced

end FeatureFlags.Lib
