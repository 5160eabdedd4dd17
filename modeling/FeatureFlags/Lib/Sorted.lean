import Mathlib.Data.List.Sort
import Mathlib.Data.List.Forall2

/-!
# Sorting by a comparison

The order of a list before it is sorted shows afterwards only in elements that compare as equal.  So
an unstable sort is as good as a stable one where there are none, and where the equal ones are the
same.

* `insertionSort_eq_of_perm`: permutations of one list are sorted into the same list.
* `forall₂_insertionSort`: two lists are sorted in the same way.
-/

namespace FeatureFlags.Lib

variable {α β : Type*}

section Comparison

variable (cmp : α → α → Ordering) [Std.TransCmp cmp]

instance total_isLE : Std.Total fun a b => (cmp a b).isLE = true where
  total a b := by
    have hswap : cmp b a = (cmp a b).swap := Std.OrientedCmp.eq_swap
    rw [hswap]
    cases cmp a b <;> decide

instance isTrans_isLE : IsTrans α fun a b => (cmp a b).isLE = true where
  trans _ _ _ := Std.TransCmp.isLE_trans

/-- **The order before does not count** if no two elements compare as equal. -/
theorem insertionSort_eq_of_perm {l l' : List α}
    (hantisymm : ∀ a ∈ l, ∀ b ∈ l, cmp a b = .eq → a = b) (h : l.Perm l') :
    l'.insertionSort (fun a b => (cmp a b).isLE = true) =
      l.insertionSort (fun a b => (cmp a b).isLE = true) := by
  have hsorted (l : List α) := List.pairwise_insertionSort (fun a b => (cmp a b).isLE = true) l
  have hperm : (l'.insertionSort fun a b => (cmp a b).isLE = true).Perm
      (l.insertionSort fun a b => (cmp a b).isLE = true) :=
    (List.perm_insertionSort _ l').trans (h.symm.trans (List.perm_insertionSort _ l).symm)
  refine List.Perm.eq_of_pairwise (fun a b ha hb hab hba => ?_) (hsorted l') (hsorted l) hperm
  have ha' : a ∈ l := h.mem_iff.mpr ((List.mem_insertionSort _).mp ha)
  have hb' : b ∈ l := (List.mem_insertionSort _).mp hb
  exact hantisymm a ha' b hb' (Std.OrientedCmp.isLE_antisymm hab hba)

end Comparison

section Related

variable {r : α → α → Prop} [DecidableRel r] {s : β → β → Prop} [DecidableRel s] {R : α → β → Prop}

variable (hR : ∀ ⦃a b a' b'⦄, R a b → R a' b' → (r a a' ↔ s b b'))
include hR

theorem forall₂_orderedInsert {a : α} {b : β} (hab : R a b) {l : List α} {l' : List β}
    (h : List.Forall₂ R l l') : List.Forall₂ R (l.orderedInsert r a) (l'.orderedInsert s b) := by
  induction h with
  | nil => exact .cons hab .nil
  | @cons c d l l' hcd hl ih =>
    rw [List.orderedInsert_cons, List.orderedInsert_cons]
    by_cases hle : r a c
    · rw [if_pos hle, if_pos ((hR hab hcd).mp hle)]
      exact .cons hab (.cons hcd hl)
    · rw [if_neg hle, if_neg (fun hle' => hle ((hR hab hcd).mpr hle'))]
      exact .cons hcd ih

/-- Lists with related elements are sorted in the same way, if the relation keeps the order. -/
theorem forall₂_insertionSort {l : List α} {l' : List β} (h : List.Forall₂ R l l') :
    List.Forall₂ R (l.insertionSort r) (l'.insertionSort s) := by
  induction h with
  | nil => exact .nil
  | cons hab _ ih =>
    rw [List.insertionSort_cons, List.insertionSort_cons]
    exact forall₂_orderedInsert hR hab ih

end Related

end FeatureFlags.Lib
