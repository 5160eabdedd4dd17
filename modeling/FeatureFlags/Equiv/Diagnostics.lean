import FeatureFlags.Evaluate

/-!
# Bounded diagnostics

`truncateUTF8` and `boundDiagnostics`.

* `truncateUTF8_maximal`: what is kept of a text is a prefix within the limit; of a valid text it is
  the longest valid one, and at most three bytes of the limit are left.
* `boundDiagnostics_bounded`: the diagnostics of a result are as many and as long as allowed.
-/

namespace FeatureFlags

open Go

/-! ### Cutting between runes -/

theorem length_le_of_isRune {r : Bytes} (h : IsRune r) : r.length ≤ 4 := by
  rw [← h.2]
  unfold runeWidth
  split
  · exact Nat.zero_le 4
  · split <;> try split_ifs
    all_goals omega

/-- At most three bytes before any place in a valid string there is a place between two runes. -/
theorem exists_cut {s : Bytes} (h : ValidString s) :
    ∀ e ≤ s.length, ∃ c ≤ e, e ≤ c + 3 ∧ ValidString (s.take c) := by
  induction s using chunks_induction with
  | nil =>
    intro e he
    exact ⟨e, le_rfl, Nat.le_add_right e 3, by rwa [List.take_nil]⟩
  | bad a rest hc ih =>
    obtain ⟨r, hr⟩ := h (.bad a) (by rw [hc]; exact List.mem_cons_self ..)
    cases hr
  | rune r rest hr ih =>
    intro e he
    have hwidth := length_le_of_isRune hr
    by_cases hinside : e < r.length
    · -- the place is inside the first rune
      refine ⟨0, Nat.zero_le e, by omega, ?_⟩
      rw [List.take_zero]
      exact validString_of_ascii (by simp)
    · rw [List.length_append] at he
      obtain ⟨c, hce, hec, hvalid⟩ :=
        ih ((validString_append hr rest).mp h) (e - r.length) (by omega)
      refine ⟨r.length + c, by omega, by omega, ?_⟩
      rw [List.take_length_add_append]
      exact (validString_append hr _).mpr hvalid

/-! ### The loop -/

theorem validEnd_le (value : Bytes) (e : Nat) : validEnd value e ≤ e := by
  induction e with
  | zero => exact le_rfl
  | succ e ih =>
    rw [validEnd]
    split_ifs
    · exact le_rfl
    · exact Nat.le_succ_of_le ih

theorem validString_validEnd (value : Bytes) (e : Nat) :
    ValidString (value.take (validEnd value e)) := by
  induction e with
  | zero => exact validString_of_ascii (by simp [validEnd])
  | succ e ih =>
    rw [validEnd]
    split_ifs with h
    · exact h
    · exact ih

/-- The loop stops at the last place where the text before it is valid. -/
theorem le_validEnd {value : Bytes} {c e : Nat} (hc : c ≤ e) (hvalid : ValidString (value.take c)) :
    c ≤ validEnd value e := by
  induction e with
  | zero => exact hc
  | succ e ih =>
    rw [validEnd]
    split_ifs with h
    · exact hc
    · -- the place itself is not one, so that the last one is before it
      refine ih (Nat.le_of_lt_succ (lt_of_le_of_ne hc ?_))
      rintro rfl
      exact h hvalid

/-- A text is cut only where it is longer than the limit. -/
theorem truncateUTF8_cases (value : Bytes) (limit : Int) :
    (len value ≤ max limit 0 ∧ truncateUTF8 value limit = value) ∨
      (max limit 0 < len value ∧
        truncateUTF8 value limit = value.take (validEnd value (max limit 0).toNat)) := by
  unfold truncateUTF8 len
  split_ifs with hlimit hwhole
  · have hzero : (max limit 0).toNat = 0 := by omega
    cases value with
    | nil => exact .inl ⟨by simp, rfl⟩
    | cons b value =>
      refine .inr ⟨?_, ?_⟩
      · rw [List.length_cons]
        omega
      · rw [hzero, validEnd, List.take_zero]
  · exact .inl ⟨by omega, rfl⟩
  · have hmin : min value.length limit.toNat = (max limit 0).toNat := by omega
    exact .inr ⟨by omega, by rw [hmin]⟩

theorem len_truncateUTF8_le (value : Bytes) (limit : Int) :
    len (truncateUTF8 value limit) ≤ max limit 0 := by
  rcases truncateUTF8_cases value limit with ⟨hle, heq⟩ | ⟨-, heq⟩
  · rwa [heq]
  · have hend := validEnd_le value (max limit 0).toNat
    have htake := List.length_take_le (validEnd value (max limit 0).toNat) value
    rw [heq]
    unfold len
    omega

/-- The result is a prefix within the limit.  If the text is valid, then it is the longest valid
one, and at most three bytes of the limit are left when the text is cut. -/
theorem truncateUTF8_maximal (value : Bytes) (limit : Int) :
    truncateUTF8 value limit <+: value ∧ len (truncateUTF8 value limit) ≤ max limit 0 ∧
      (ValidString value →
        ValidString (truncateUTF8 value limit) ∧
        (∀ p, p <+: value → ValidString p → len p ≤ max limit 0 → p <+: truncateUTF8 value limit) ∧
        (truncateUTF8 value limit ≠ value →
          max limit 0 - len (truncateUTF8 value limit) ≤ 3)) := by
  have hbound := len_truncateUTF8_le value limit
  rcases truncateUTF8_cases value limit with ⟨-, heq⟩ | ⟨hlt, heq⟩
  · rw [heq] at hbound ⊢
    exact ⟨List.prefix_rfl, hbound, fun hvalid =>
      ⟨hvalid, fun p hp _ _ => hp, fun hne => absurd rfl hne⟩⟩
  · rw [heq] at hbound ⊢
    refine ⟨List.take_prefix _ _, hbound, fun hvalid => ⟨validString_validEnd _ _, ?_, ?_⟩⟩
    · intro p hp hpvalid hple
      have htake : p = value.take p.length := List.prefix_iff_eq_take.mp hp
      rw [htake] at hpvalid
      have hcut : p.length ≤ validEnd value (max limit 0).toNat :=
        le_validEnd (by unfold len at hple; omega) hpvalid
      rw [htake]
      exact List.take_prefix_take_left hcut
    · intro _
      unfold len at hlt ⊢
      obtain ⟨c, hce, hec, hcvalid⟩ := exists_cut hvalid (max limit 0).toNat (by omega)
      have hcut := le_validEnd hce hcvalid
      have hend := validEnd_le value (max limit 0).toNat
      rw [List.length_take]
      omega

/-! ### Lists of diagnostics -/

/-- The diagnostics of a result are as many and as long as allowed. -/
theorem boundDiagnostics_bounded (diagnostics : List Diagnostic) (limits : Limits) :
    len (boundDiagnostics diagnostics limits) ≤ max limits.maxDiagnostics 0 ∧
      ∀ d ∈ boundDiagnostics diagnostics limits,
        len d.code ≤ max limits.maxDiagnosticBytes 0 ∧
          len d.message ≤ max limits.maxDiagnosticBytes 0 := by
  constructor
  · unfold boundDiagnostics len
    rw [List.length_map, List.length_take]
    omega
  · intro d hd
    obtain ⟨original, -, rfl⟩ := List.mem_map.mp hd
    exact ⟨len_truncateUTF8_le _ _, len_truncateUTF8_le _ _⟩

end FeatureFlags
