import Mathlib.Data.List.Basic

/-!
# Self-delimiting codes

A code is self-delimiting if a word of it can be told from whatever follows it.  Such codes can be
concatenated, and no word of one is a proper prefix of another.

* `SelfDelimiting.append`: the concatenation of two codes.
* `selfDelimiting_lengthPrefixed`: a header of fixed width with the length, and the data.
-/

namespace FeatureFlags.Lib

variable {α β γ : Type*}

/-- The words of the values in `domain` are told from what follows them. -/
def SelfDelimiting (domain : α → Prop) (encode : α → List γ) : Prop :=
  ∀ ⦃a b : α⦄, domain a → domain b →
    ∀ ⦃x y : List γ⦄, encode a ++ x = encode b ++ y → a = b ∧ x = y

namespace SelfDelimiting

variable {domain : α → Prop} {encode : α → List γ} {a b : α}

variable (h : SelfDelimiting domain encode)
include h

theorem injective (ha : domain a) (hb : domain b) : encode a = encode b ↔ a = b := by
  constructor
  · intro heq
    exact (h ha hb (congrArg (· ++ []) heq)).1
  · rintro rfl
    rfl

/-- A word that begins another one is that word. -/
theorem eq_of_prefix (ha : domain a) (hb : domain b) (hp : encode a <+: encode b) : a = b := by
  obtain ⟨rest, hrest⟩ := hp
  have heq : encode a ++ rest = encode b ++ [] := by rw [hrest, List.append_nil]
  exact (h ha hb heq).1

/-- The words of two codes, one behind the other. -/
theorem append {domain' : β → Prop} {encode' : β → List γ} (h' : SelfDelimiting domain' encode') :
    SelfDelimiting (fun v : α × β => domain v.1 ∧ domain' v.2)
      (fun v => encode v.1 ++ encode' v.2) := by
  intro v w hv hw x y heq
  rw [List.append_assoc, List.append_assoc] at heq
  obtain ⟨hfst, hrest⟩ := h hv.1 hw.1 heq
  obtain ⟨hsnd, hxy⟩ := h' hv.2 hw.2 hrest
  exact ⟨Prod.ext hfst hsnd, hxy⟩

/-- A fixed tag in front of every word. -/
theorem tagged (tag : List γ) : SelfDelimiting domain fun v => tag ++ encode v := by
  intro v w hv hw x y heq
  rw [List.append_assoc, List.append_assoc] at heq
  exact h hv hw (List.append_cancel_left heq)

end SelfDelimiting

/-- Data behind a header that has a fixed width and determines the length. -/
theorem selfDelimiting_lengthPrefixed (header : Nat → List γ) (domain : Nat → Prop) {width : Nat}
    (hwidth : ∀ n, (header n).length = width)
    (hinj : ∀ m n, domain m → domain n → header m = header n → m = n) :
    SelfDelimiting (fun data : List γ => domain data.length)
      fun data => header data.length ++ data := by
  intro a b ha hb x y heq
  rw [List.append_assoc, List.append_assoc] at heq
  have hheader : (header a.length).length = (header b.length).length := by rw [hwidth, hwidth]
  obtain ⟨hsame, hrest⟩ := List.append_inj heq hheader
  -- the headers agree, so that the data are equally long
  have hlength : a.length = b.length := hinj _ _ ha hb hsame
  exact List.append_inj hrest hlength

end FeatureFlags.Lib
