import Mathlib.Tactic.Common

/-!
# Versioned documents

A value whose version grows whenever it is replaced, and a document that is replaced by
compare-and-swap on its revision.

* `Onward`: the value may have been replaced since.  One that still has its version has not been.
* `Versioned.swap`: succeeds exactly when the revision is the expected one, and increments it.
* `Versioned.Before`: `Onward` for documents; a swap finds the document that was read
  (`Before.eq_of_swap`).
-/

namespace FeatureFlags.Lib

universe u

section Onward

variable {α : Type u} {version : α → Nat} {a b c : α}

/-- `b` is what has become of `a`. -/
def Onward (version : α → Nat) (a b : α) : Prop :=
  version a ≤ version b ∧ (version a = version b → a = b)

theorem Onward.refl (a : α) : Onward version a a := ⟨Nat.le_refl _, fun _ => rfl⟩

theorem Onward.of_succ (h : version b = version a + 1) : Onward version a b :=
  ⟨by omega, fun heq => by omega⟩

theorem Onward.trans (hab : Onward version a b) (hbc : Onward version b c) :
    Onward version a c := by
  refine ⟨Nat.le_trans hab.1 hbc.1, fun h => ?_⟩
  have hb : version a = version b := Nat.le_antisymm hab.1 (h ▸ hbc.1)
  rw [hab.2 hb]
  exact hbc.2 (hb ▸ h)

end Onward

/-- A document with its revision; a missing one is `none`. -/
structure Versioned (δ : Type u) where
  document : Option δ
  revision : Nat

namespace Versioned

variable {δ : Type u} {a b c : Versioned δ} {expected : Nat} {document : δ}

/-- A document that was never written. -/
def missing : Versioned δ := ⟨none, 0⟩

/-- Compare and swap. -/
def swap (a : Versioned δ) (expected : Nat) (document : δ) : Option (Versioned δ) :=
  if a.revision = expected then some ⟨some document, a.revision + 1⟩ else none

theorem swap_of_eq (h : a.revision = expected) :
    a.swap expected document = some ⟨some document, a.revision + 1⟩ :=
  if_pos h

theorem swap_of_ne (h : a.revision ≠ expected) : a.swap expected document = none := if_neg h

theorem swap_eq_some_iff : a.swap expected document = some b ↔
    a.revision = expected ∧ b = ⟨some document, a.revision + 1⟩ := by
  unfold swap
  split_ifs with h <;> simp [h, eq_comm]

/-- `b` is what has become of `a`. -/
def Before (a b : Versioned δ) : Prop := Onward revision a b

theorem Before.refl (a : Versioned δ) : a.Before a := Onward.refl a

theorem Before.trans (hab : a.Before b) (hbc : b.Before c) : a.Before c := Onward.trans hab hbc

theorem before_of_swap (h : a.swap expected document = some b) : a.Before b := by
  obtain ⟨-, rfl⟩ := swap_eq_some_iff.mp h
  exact Onward.of_succ rfl

/-- A swap that expects the revision of `a` succeeds on `a` only. -/
theorem Before.eq_of_swap (h : a.Before b) (hswap : b.swap a.revision document = some c) : a = b :=
  h.2 (swap_eq_some_iff.mp hswap).1.symm

theorem ne_of_swap (h : a.swap expected document = some b) : b ≠ a := by
  obtain ⟨-, rfl⟩ := swap_eq_some_iff.mp h
  exact fun heq => absurd (congrArg revision heq) (Nat.succ_ne_self _)

end Versioned

end FeatureFlags.Lib
