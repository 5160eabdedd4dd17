import Mathlib

/-!
# Go values

A Go string is a sequence of bytes, not necessarily valid UTF-8, and `len` counts bytes; a Go map
is a finite map whose `range` loop visits the entries in an unspecified order.

* `Bytes`, `str`, `len`: strings and slices.
* `GoMap`: `map[string]V`, extensional (`Std.ExtTreeMap`), so two maps with the same entries are
  equal and a nil map is the empty one.
* `MapOrder`, `GoMap.range`: what a `range` loop sees.  Nothing is known about the order beyond its
  being a permutation of the entries; every statement below is for every `MapOrder`.
* `rejectIf`, `forEach`: the two shapes of a validation step, "fail if" and "check each", with the
  lemmas that turn a chain of them into the conjunction it accepts.
-/

namespace FeatureFlags.Go

open Std (ExtTreeMap)

/-! ### Strings and slices -/

/-- A Go `string` or `[]byte`. -/
abbrev Bytes := List UInt8

instance : LawfulBEq Bytes := inferInstance

/-- The bytes of a Lean literal. -/
def str (s : String) : Bytes := s.toUTF8.data.toList

/-- Go's `len`, a signed `int` in every comparison the code makes. -/
def len {α : Type} (l : List α) : Int := l.length

@[simp] theorem len_nil {α : Type} : len ([] : List α) = 0 := rfl

theorem len_cons {α : Type} (a : α) (l : List α) : len (a :: l) = len l + 1 :=
  Int.natCast_succ l.length

theorem len_append {α : Type} (l l' : List α) : len (l ++ l') = len l + len l' := by
  simp [len]

theorem len_nonneg {α : Type} (l : List α) : 0 ≤ len l := Int.natCast_nonneg _

/-! ### Maps -/

/-- `map[string]V`. -/
abbrev GoMap (V : Type) := ExtTreeMap Bytes V compare

variable {k : Bytes}

namespace GoMap

variable {V W : Type}

/-- Go's `len` of a map. -/
def len (m : GoMap V) : Int := m.size

theorem lookup_insert (m : GoMap V) (k a : Bytes) (v : V) :
    (m.insert k v)[a]? = if k = a then some v else m[a]? := by
  rw [ExtTreeMap.getElem?_insert]
  simp only [Std.compare_eq_iff_eq]

@[simp] theorem lookup_insert_self (m : GoMap V) (k : Bytes) (v : V) :
    (m.insert k v)[k]? = some v := by
  rw [lookup_insert, if_pos rfl]

theorem lookup_insert_ne (m : GoMap V) {a : Bytes} (v : V) (h : k ≠ a) :
    (m.insert k v)[a]? = m[a]? := by
  rw [lookup_insert, if_neg h]

theorem lookup_erase (m : GoMap V) (k a : Bytes) :
    (m.erase k)[a]? = if k = a then none else m[a]? := by
  rw [ExtTreeMap.getElem?_erase]
  simp only [Std.compare_eq_iff_eq]

/-- Deleting a key that was just added restores the map. -/
theorem erase_insert (m : GoMap V) (v : V) (h : m[k]? = none) : (m.insert k v).erase k = m := by
  apply ExtTreeMap.ext_getElem?
  intro a
  rw [lookup_erase, lookup_insert]
  by_cases hk : k = a
  · rw [if_pos hk, ← hk, h]
  · rw [if_neg hk, if_neg hk]

variable {m : GoMap V}

theorem mem_toList {v : V} : (k, v) ∈ m.toList ↔ m[k]? = some v :=
  ExtTreeMap.mem_toList_iff_getElem?_eq_some

/-- No key occurs twice among the entries. -/
theorem nodup_keys (m : GoMap V) : (m.toList.map Prod.fst).Nodup := by
  rw [List.Nodup, List.pairwise_map]
  refine (ExtTreeMap.distinct_keys_toList (t := m)).imp ?_
  intro a b hab heq
  exact hab (Std.compare_eq_iff_eq.mpr heq)

theorem mem_iff : k ∈ m ↔ ∃ v, m[k]? = some v := by
  rw [ExtTreeMap.mem_iff_isSome_getElem?, Option.isSome_iff_exists]

theorem mem_of_lookup {v : V} (h : m[k]? = some v) : k ∈ m :=
  mem_iff.mpr ⟨v, h⟩

theorem mem_insert_iff {a : Bytes} {v : V} : a ∈ m.insert k v ↔ k = a ∨ a ∈ m := by
  rw [ExtTreeMap.mem_insert, Std.compare_eq_iff_eq]

theorem len_insert_of_mem (v : V) (h : k ∈ m) : len (m.insert k v) = m.len := by
  unfold len
  rw [ExtTreeMap.size_insert, if_pos (ExtTreeMap.contains_iff_mem.mpr h)]

theorem len_insert_of_not_mem (v : V) (h : k ∉ m) : len (m.insert k v) = m.len + 1 := by
  have hcontains : ¬ m.contains k = true := fun hc => h (ExtTreeMap.contains_iff_mem.mp hc)
  unfold len
  rw [ExtTreeMap.size_insert, if_neg hcontains, Nat.cast_add, Nat.cast_one]

theorem len_erase_of_mem (h : k ∈ m) : len (m.erase k) = m.len - 1 := by
  have hpos : 0 < m.size := Nat.pos_of_ne_zero fun hzero =>
    ExtTreeMap.not_mem_empty (ExtTreeMap.eq_empty_iff_size_eq_zero.mpr hzero ▸ h)
  unfold len
  rw [ExtTreeMap.size_erase, if_pos (ExtTreeMap.contains_iff_mem.mpr h), Nat.cast_sub hpos,
    Nat.cast_one]

theorem len_erase_le (m : GoMap V) (k : Bytes) : len (m.erase k) ≤ m.len :=
  Int.ofNat_le.mpr ExtTreeMap.size_erase_le

/-- A map with `keys` added is longer by their number. -/
theorem len_of_added {W : Type} {m' : GoMap W} {keys : List Bytes} (nodup : keys.Nodup)
    (hmem : ∀ k, k ∈ m' ↔ k ∈ m ∨ k ∈ keys) (hnew : ∀ k ∈ keys, k ∉ m) :
    m'.len = m.len + keys.length := by
  have hperm : m'.keys.Perm (m.keys ++ keys) := by
    refine (List.perm_ext_iff_of_nodup ExtTreeMap.nodup_keys ?_).mpr fun k => ?_
    · refine List.nodup_append.mpr ⟨ExtTreeMap.nodup_keys, nodup, ?_⟩
      rintro a ha b hb rfl
      exact hnew a hb (ExtTreeMap.mem_keys.mp ha)
    · rw [List.mem_append, ExtTreeMap.mem_keys, ExtTreeMap.mem_keys, hmem]
  unfold len
  rw [← ExtTreeMap.length_keys, ← ExtTreeMap.length_keys (t := m), hperm.length_eq,
    List.length_append, Nat.cast_add]

/-- Maps with the same keys have the same length. -/
theorem len_eq_of_keys {W : Type} {m' : GoMap W} (h : ∀ k, k ∈ m' ↔ k ∈ m) : m'.len = m.len := by
  have hlen : m'.len = m.len + ([] : List Bytes).length :=
    len_of_added List.nodup_nil (fun k => by simp [h]) (fun k hk => by simp at hk)
  simpa using hlen

/-! #### Maps built from a list -/

variable {α : Type}

/-- The map that a loop builds by inserting `val x` at `key x` for each element `x` of a list. -/
def index (key : α → Bytes) (val : α → V) (l : List α) : GoMap V :=
  l.foldl (fun m x => m.insert (key x) (val x)) ∅

variable {key : α → Bytes} {val : α → V} {l : List α}

theorem lookup_foldl_insert (hl : (l.map key).Nodup) (m : GoMap V) (k : Bytes) (v : V) :
    (l.foldl (fun m x => m.insert (key x) (val x)) m)[k]? = some v ↔
      (∃ x ∈ l, key x = k ∧ val x = v) ∨ (∀ x ∈ l, key x ≠ k) ∧ m[k]? = some v := by
  induction l generalizing m with
  | nil => simp
  | cons a l ih =>
    rw [List.map_cons, List.nodup_cons] at hl
    have ha : ∀ x ∈ l, key x ≠ key a := fun x hx h => hl.1 (h ▸ List.mem_map_of_mem hx)
    rw [List.foldl_cons, ih hl.2, lookup_insert]
    by_cases hk : key a = k
    · subst hk
      simp only [if_pos, Option.some.injEq, List.mem_cons, exists_eq_or_imp, true_and,
        forall_eq_or_imp, ne_eq, not_true_eq_false, false_and, or_false]
      constructor
      · rintro (⟨x, hx, h, -⟩ | ⟨-, h⟩)
        · exact absurd h (ha x hx)
        · exact .inl h
      · rintro (h | ⟨x, hx, h, -⟩)
        · exact .inr ⟨ha, h⟩
        · exact absurd h (ha x hx)
    · simp [hk]

theorem lookup_index (hl : (l.map key).Nodup) {v : V} :
    (index key val l)[k]? = some v ↔ ∃ x ∈ l, key x = k ∧ val x = v := by
  rw [index, lookup_foldl_insert hl]
  simp

theorem mem_index (hl : (l.map key).Nodup) : k ∈ index key val l ↔ ∃ x ∈ l, key x = k := by
  rw [mem_iff]
  simp only [lookup_index hl]
  constructor
  · rintro ⟨v, x, hx, hk, -⟩; exact ⟨x, hx, hk⟩
  · rintro ⟨x, hx, hk⟩; exact ⟨val x, x, hx, hk, rfl⟩

/-- The order of the insertions does not show in the map. -/
theorem index_perm {l' : List α} (h : l.Perm l') (hl : (l.map key).Nodup) :
    index key val l = index key val l' := by
  have hl' : (l'.map key).Nodup := (h.map key).nodup_iff.mp hl
  apply ExtTreeMap.ext_getElem?
  intro k
  apply Option.ext
  intro v
  rw [lookup_index hl, lookup_index hl']
  simp only [h.mem_iff]

/-- The entries of the map are those of the list. -/
theorem toList_index_perm (hl : (l.map key).Nodup) :
    (index key val l).toList.Perm (l.map fun x => (key x, val x)) := by
  refine (List.perm_ext_iff_of_nodup (List.Nodup.of_map _ (nodup_keys _)) ?_).mpr ?_
  · refine List.Nodup.of_map Prod.fst ?_
    rw [List.map_map]
    exact hl
  · rintro ⟨k, v⟩
    rw [mem_toList, lookup_index hl]
    simp [Prod.ext_iff]

/-- A loop that checks an element against the map built so far and inserts it. -/
theorem foldlM_insert_eq_ok_iff {ε : Type} (key : α → Bytes) (val : α → V) {P : α → Prop}
    {f : GoMap V → α → Except ε (GoMap V)}
    (hf : ∀ m x m', f m x = .ok m' ↔ P x ∧ key x ∉ m ∧ m' = m.insert (key x) (val x))
    (l : List α) (m m' : GoMap V) :
    l.foldlM f m = .ok m' ↔ (∀ x ∈ l, P x) ∧ (l.map key).Nodup ∧ (∀ x ∈ l, key x ∉ m) ∧
      m' = l.foldl (fun m x => m.insert (key x) (val x)) m := by
  induction l generalizing m with
  | nil =>
    simp only [List.foldlM_nil, List.not_mem_nil, false_implies, implies_true, List.map_nil,
      List.nodup_nil, List.foldl_nil, true_and]
    constructor
    · intro h; cases h; rfl
    · rintro rfl; rfl
  | cons a l ih =>
    have hmem : ∀ x, key x ∉ m.insert (key a) (val a) ↔ key a ≠ key x ∧ key x ∉ m := by
      intro x
      simp [ExtTreeMap.mem_insert]
    have hbind : (a :: l).foldlM f m = .ok m' ↔ ∃ m₁, f m a = .ok m₁ ∧ l.foldlM f m₁ = .ok m' := by
      rw [List.foldlM_cons]
      cases f m a with
      | error e | ok m₁ => simp [bind, Except.bind]
    simp only [hbind, hf, ih, List.mem_cons, forall_eq_or_imp, List.map_cons, List.nodup_cons,
      List.foldl_cons, List.mem_map, not_exists, not_and]
    constructor
    · rintro ⟨m₁, ⟨hP, ha, rfl⟩, hPl, hl, hout, rfl⟩
      exact ⟨⟨hP, hPl⟩, ⟨fun x hx h => ((hmem x).mp (hout x hx)).1 h.symm, hl⟩,
        ⟨ha, fun x hx => ((hmem x).mp (hout x hx)).2⟩, rfl⟩
    · rintro ⟨⟨hP, hPl⟩, ⟨hal, hl⟩, ⟨ha, hout⟩, rfl⟩
      exact ⟨_, ⟨hP, ha, rfl⟩, hPl, hl,
        fun x hx => (hmem x).mpr ⟨fun h => hal x hx h.symm, hout x hx⟩, rfl⟩

/-! #### Properties of all entries -/

/-- Every entry of the map has the property. -/
def Each (P : Bytes → V → Prop) (m : GoMap V) : Prop :=
  ∀ (k : Bytes) (v : V), m[k]? = some v → P k v

namespace Each

variable {P Q : Bytes → V → Prop} {m m' : GoMap V}

theorem empty : Each P (∅ : GoMap V) := by
  intro k v h
  simp at h

variable (hm : Each P m)
include hm

theorem insert {v : V} (hv : P k v) : Each P (m.insert k v) := by
  intro a w h
  rw [lookup_insert] at h
  split_ifs at h with hk
  · cases h
    exact hk ▸ hv
  · exact hm a w h

theorem of_lookup (hsub : ∀ (k : Bytes) (v : V), m'[k]? = some v → m[k]? = some v) : Each P m' :=
  fun k v h => hm k v (hsub k v h)

theorem erase (k : Bytes) : Each P (m.erase k) := hm.of_lookup fun a v h => by
  rw [lookup_erase] at h
  split_ifs at h
  exact h

theorem map {f : V → V} (hf : ∀ k v, P k v → Q k (f v)) :
    Each Q (ExtTreeMap.map (fun _ v => f v) m) := by
  intro k v h
  rw [ExtTreeMap.getElem?_map, Option.map_eq_some_iff] at h
  obtain ⟨w, hw, rfl⟩ := h
  exact hf k w (hm k w hw)

end Each

/-- Every value is stored under its own key. -/
def KeyedBy (key : V → Bytes) (m : GoMap V) : Prop := m.Each fun k v => key v = k

/-- Entries of such a map have different keys. -/
theorem KeyedBy.nodup_values {key : V → Bytes} {m : GoMap V} (hm : KeyedBy key m)
    {l : List (Bytes × V)} (nodup : (l.map Prod.fst).Nodup)
    (hl : ∀ x ∈ l, m[x.1]? = some x.2) : (l.map fun x => key x.2).Nodup := by
  have hkeys : l.map (fun x => key x.2) = l.map Prod.fst :=
    List.map_congr_left fun x hx => hm x.1 x.2 (hl x hx)
  rw [hkeys]
  exact nodup

end GoMap

/-- A map whose entries are all in another is not larger. -/
theorem size_le_of_lookup {α β : Type} {cmp : α → α → Ordering} [Std.TransCmp cmp]
    [Std.LawfulEqCmp cmp] {m m' : ExtTreeMap α β cmp}
    (h : ∀ (k : α) (v : β), m[k]? = some v → m'[k]? = some v) : m.size ≤ m'.size := by
  rw [← ExtTreeMap.length_keys, ← ExtTreeMap.length_keys]
  refine (List.Nodup.subperm ExtTreeMap.nodup_keys fun k hk => ?_).length_le
  rw [ExtTreeMap.mem_keys, ExtTreeMap.mem_iff_isSome_getElem?] at hk ⊢
  obtain ⟨v, hv⟩ := Option.isSome_iff_exists.mp hk
  rw [h k v hv]
  rfl

/-- The order in which the `range` loops of one call visit their maps: some permutation of the
entries, possibly a different one for every map. -/
structure MapOrder where
  /-- The entries in the order in which they are visited. -/
  iter : {α : Type} → List α → List α
  /-- Every entry is visited exactly once. -/
  perm : ∀ {α : Type} (l : List α), (iter l).Perm l

/-- The order of the entries by key. -/
def MapOrder.sorted : MapOrder := ⟨fun l => l, fun l => List.Perm.refl l⟩

/-- The entries from the last key to the first. -/
def MapOrder.reversed : MapOrder := ⟨fun l => l.reverse, List.reverse_perm⟩

theorem MapOrder.exists_iter_eq {α : Type} {l l' : List α} (h : l'.Perm l) :
    ∃ ord : MapOrder, ord.iter l = l' := by
  classical
  let iter (β : Type) (x : List β) : List β :=
    if e : ∃ e : α = β, e ▸ l = x then e.choose ▸ l' else x
  have hperm (β : Type) (x : List β) : (iter β x).Perm x := by
    by_cases e : ∃ e : α = β, e ▸ l = x
    · simp only [iter, dif_pos e]
      have hx := e.choose_spec
      generalize e.choose = e' at hx
      subst e' hx
      exact h
    · simp only [iter, dif_neg e]
      exact List.Perm.refl x
  refine ⟨⟨fun {β} => iter β, fun {β} => hperm β⟩, ?_⟩
  have e : ∃ e : α = α, e ▸ l = l := ⟨rfl, rfl⟩
  simp only [iter, dif_pos e]

/-- The entries of `m` as a `range` loop visits them. -/
def GoMap.range {V : Type} (ord : MapOrder) (m : GoMap V) : List (Bytes × V) := ord.iter m.toList

@[simp] theorem GoMap.mem_range {V : Type} {ord : MapOrder} {m : GoMap V} {v : V} :
    (k, v) ∈ m.range ord ↔ m[k]? = some v := by
  rw [GoMap.range, (ord.perm _).mem_iff, GoMap.mem_toList]

theorem GoMap.nodup_range {V : Type} (ord : MapOrder) (m : GoMap V) :
    ((m.range ord).map Prod.fst).Nodup :=
  ((ord.perm _).map _).nodup_iff.mpr (GoMap.nodup_keys m)

/-! ### Validation steps -/

section Checks

variable {ε α β : Type}

/-- `if c { return err }`. -/
def rejectIf (c : Prop) [Decidable c] (err : ε) : Except ε Unit :=
  if c then .error err else .ok ()

/-- `for _, x := range l { if err := check(x); err != nil { return err } }`. -/
def forEach (l : List α) (check : α → Except ε Unit) : Except ε Unit := l.forM check

@[simp] theorem rejectIf_eq_ok {c : Prop} [Decidable c] {err : ε} {u : Unit} :
    rejectIf c err = .ok u ↔ ¬ c := by
  unfold rejectIf
  split_ifs with h <;> simp [h]

variable {x : Except ε α} {l : List α}

@[simp] theorem bind_eq_ok {f : α → Except ε β} {b : β} :
    (x >>= f) = .ok b ↔ ∃ a, x = .ok a ∧ f a = .ok b := by
  cases x with
  | error e =>
    constructor
    · intro h; cases h
    · rintro ⟨a, h, -⟩; cases h
  | ok a =>
    constructor
    · intro h; exact ⟨a, rfl, h⟩
    · rintro ⟨a', h, hf⟩; cases h; exact hf

@[simp] theorem pure_eq_ok {a b : α} : (pure a : Except ε α) = .ok b ↔ a = b := by
  constructor
  · intro h; cases h; rfl
  · rintro rfl; rfl

@[simp] theorem forEach_eq_ok {check : α → Except ε Unit} {u : Unit} :
    forEach l check = .ok u ↔ ∀ x ∈ l, check x = .ok () := by
  unfold forEach
  induction l with
  | nil => simp
  | cons a l ih =>
    simp only [List.forM_eq_forM, List.forM_cons, bind_eq_ok, List.mem_cons, forall_eq_or_imp]
    constructor
    · rintro ⟨_, ha, hl⟩; exact ⟨ha, ih.mp hl⟩
    · rintro ⟨ha, hl⟩; exact ⟨(), ha, ih.mpr hl⟩

@[simp] theorem mapError_eq_ok {ε' : Type} {f : ε → ε'} {a : α} :
    x.mapError f = .ok a ↔ x = .ok a := by
  cases x with
  | error e | ok b => simp [Except.mapError]

theorem exists_of_isSome_toOption (h : x.toOption.isSome = true) : ∃ a, x = .ok a := by
  cases x with
  | ok a => exact ⟨a, rfl⟩
  | error e => cases h

/-- A loop over the elements with their indices, when the index shows in the errors only. -/
theorem forEach_zipIdx_eq_ok {check : α → Nat → Except ε Unit} {P : α → Prop} {u : Unit}
    (hP : ∀ a i, check a i = .ok () ↔ P a) :
    forEach l.zipIdx (fun x => check x.1 x.2) = .ok u ↔ ∀ a ∈ l, P a := by
  rw [forEach_eq_ok]
  constructor
  · intro h a ha
    obtain ⟨i, hi, rfl⟩ := List.getElem_of_mem ha
    exact (hP _ i).mp
      (h (l[i], i) (List.mk_mem_zipIdx_iff_getElem?.mpr (List.getElem?_eq_getElem hi)))
  · intro h x hx
    exact (hP _ _).mpr (h x.1 (List.fst_mem_of_mem_zipIdx hx))

end Checks

end FeatureFlags.Go
