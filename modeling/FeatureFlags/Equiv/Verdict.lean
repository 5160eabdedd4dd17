import FeatureFlags.Equiv.Evaluable
import FeatureFlags.Equiv.Reorder

/-!
# The error of a refused snapshot

`NewSnapshotWithGroups` returns the first error that it meets.  Which one that is depends on the
order in which the maps are visited and on the order of the dependencies of a feature.

* `MapOrder.ByKeys`: maps with the same keys are visited in the same order.
* `DependenciesOk`, `GroupGraphOk`: no error is met, whatever the order is.
* `verdict_eq_of_resembles`: the same error is met for tenants that resemble each other.
-/

namespace FeatureFlags

open Go Lib

/-! ### Loops over maps with the same keys -/

section Orders

variable {V W : Type} {R : V → W → Prop} {m : GoMap V} {m' : GoMap W} {ord : MapOrder}

/-- Maps with the same keys are visited in the same order. -/
def Go.MapOrder.ByKeys (ord : MapOrder) : Prop :=
  ∀ (V W : Type) (m : GoMap V) (m' : GoMap W), (∀ k, k ∈ m ↔ k ∈ m') →
    (m.range ord).map Prod.fst = (m'.range ord).map Prod.fst

/-- A map is a set of keys when its values are forgotten. -/
theorem map_unit_eq (h : ∀ k, k ∈ m ↔ k ∈ m') : (m.map fun _ _ => ()) = m'.map fun _ _ => () := by
  refine Std.ExtTreeMap.ext_getElem? fun k => ?_
  have hk := h k
  rw [Std.ExtTreeMap.mem_iff_isSome_getElem?, Std.ExtTreeMap.mem_iff_isSome_getElem?] at hk
  rw [Std.ExtTreeMap.getElem?_map, Std.ExtTreeMap.getElem?_map]
  cases hv : m[k]? <;> cases hw : m'[k]? <;> simp_all

theorem len_eq_of_rel (h : ∀ k : Bytes, Option.Rel R m[k]? m'[k]?) : m.len = m'.len := by
  have hsize := congrArg Std.ExtTreeMap.size (map_unit_eq fun k => mem_iff_of_rel h)
  rw [Std.ExtTreeMap.size_map, Std.ExtTreeMap.size_map] at hsize
  rw [GoMap.len, GoMap.len, hsize]

theorem byKeys_sorted : MapOrder.sorted.ByKeys := by
  intro V W m m' h
  have hlist := congrArg (fun m : GoMap Unit => m.toList.map Prod.fst) (map_unit_eq h)
  simp only [Std.ExtTreeMap.toList_map, List.map_map, Function.comp_def] at hlist
  exact hlist

/-- The entries that are visited at the same time. -/
theorem forall₂_range (hord : ord.ByKeys) (h : ∀ k : Bytes, Option.Rel R m[k]? m'[k]?) :
    List.Forall₂ (fun x y => x.1 = y.1 ∧ R x.2 y.2) (m.range ord) (m'.range ord) := by
  have hkeys := hord V W m m' fun k => mem_iff_of_rel h
  have hlen : (m.range ord).length = (m'.range ord).length := by
    simpa using congrArg List.length hkeys
  refine List.forall₂_iff_get.mpr ⟨hlen, fun i hi hi' => ?_⟩
  have hkey : ((m.range ord).get ⟨i, hi⟩).1 = ((m'.range ord).get ⟨i, hi'⟩).1 := by
    have hget := congrArg (fun l : List Bytes => l[i]?) hkeys
    simpa [hi, hi'] using hget
  have hv : m[((m.range ord).get ⟨i, hi⟩).1]? = some ((m.range ord).get ⟨i, hi⟩).2 :=
    GoMap.mem_range.mp (List.get_mem _ _)
  have hw : m'[((m'.range ord).get ⟨i, hi'⟩).1]? = some ((m'.range ord).get ⟨i, hi'⟩).2 :=
    GoMap.mem_range.mp (List.get_mem _ _)
  have hrel := h ((m.range ord).get ⟨i, hi⟩).1
  rw [hv, hkey, hw] at hrel
  cases hrel with
  | some hrel => exact ⟨hkey, hrel⟩

/-- Two loops that check the same. -/
theorem forEach_congr {α β : Type} {S : α → β → Prop} {l : List α} {l' : List β}
    {check : α → Except GoError Unit} {check' : β → Except GoError Unit} (h : List.Forall₂ S l l')
    (hcheck : ∀ x y, S x y → check x = check' y) : forEach l check = forEach l' check' := by
  induction h with
  | nil => rfl
  | cons hxy _ ih =>
    simp only [forEach, List.forM_eq_forM, List.forM_cons] at ih ⊢
    rw [hcheck _ _ hxy, ih]

end Orders

/-! ### Loops over what resembles -/

section Loops

variable {κ : Type} {definitions definitions' : GoMap (Definition κ)} {ord : MapOrder}
  {limits : Limits}

/-- No error is met in the dependencies, whatever the order is. -/
def DependenciesOk (limits : Limits) (definitions : GoMap (Definition κ)) : Prop :=
  References definitions ∧ PathsWithin definitions limits

/-- The dependencies of the features are in the same order. -/
def SameDependencies (definitions definitions' : GoMap (Definition κ)) : Prop :=
  ∀ k : Bytes, Option.Rel (fun d e => d.dependencies = e.dependencies) definitions[k]?
    definitions'[k]?

theorem dependencyKeys_eq (h : SameDependencies definitions definitions') :
    dependencyKeys definitions = dependencyKeys definitions' := by
  funext key
  have hk := h key
  unfold dependencyKeys
  generalize definitions[key]? = x at hk ⊢
  generalize definitions'[key]? = y at hk ⊢
  cases hk with
  | none => rfl
  | some hde => exact congrArg _ hde

section

variable (h : ∀ k : Bytes, Option.Rel Definition.Resembles definitions[k]? definitions'[k]?)
include h

theorem validateReference_eq (key : Bytes) (dependency : Dependency) :
    validateReference definitions key dependency =
      validateReference definitions' key dependency := by
  have hk := h dependency.featureKey
  unfold validateReference
  generalize definitions[dependency.featureKey]? = x at hk ⊢
  generalize definitions'[dependency.featureKey]? = y at hk ⊢
  cases hk with
  | none => rfl
  | some htarget => simp only [rejectIf, htarget.variants]

/-- The dependencies of both are in order, or the first error is the same. -/
theorem validateDependencyGraph_eq_of_resembles
    (hdeps : DependenciesOk limits definitions ∨
      ord.ByKeys ∧ SameDependencies definitions definitions') :
    validateDependencyGraph ord definitions limits =
      validateDependencyGraph ord definitions' limits := by
  rcases hdeps with ⟨hrefs, hpaths⟩ | ⟨hord, hdeps⟩
  · have hok := validateDependencyGraph_eq_ok_iff (u := ()).mpr ⟨hrefs, hpaths.searched ord⟩
    have hok' := validateDependencyGraph_eq_ok_iff (u := ()).mpr
      ⟨references_resembles h hrefs, (hpaths.resembles h).searched ord⟩
    rw [hok, hok']
  · have hkeys := hord _ _ definitions definitions' fun k => mem_iff_of_rel h
    have hrefs : (forEach (definitions.range ord) fun x =>
          forEach x.2.dependencies fun dependency => validateReference definitions x.1 dependency) =
        forEach (definitions'.range ord) fun x =>
          forEach x.2.dependencies fun dependency =>
            validateReference definitions' x.1 dependency := by
      refine forEach_congr (forall₂_range hord hdeps) fun x y hxy => ?_
      rw [hxy.1, hxy.2]
      exact congrArg _ (funext fun dependency => validateReference_eq h y.1 dependency)
    unfold validateDependencyGraph
    rw [hrefs, dependencyKeys_eq hdeps, hkeys]

end

variable [CustomStrategy κ] {groups groups' : GoMap (GroupDefinition κ)}

section

variable (h : ∀ k : Bytes, Option.Rel GroupDefinition.Resembles groups[k]? groups'[k]?)
include h

theorem walkParents_eq (root : Bytes) (n : Nat) : ∀ (current : Bytes) (visiting : GoMap Bool),
      walkParents groups limits root n current visiting =
        walkParents groups' limits root n current visiting := by
  induction n with
  | zero => exact fun current visiting => rfl
  | succ n ih => exact fun current visiting => by rw [walkParents, walkParents, parentOf_eq h, ih]

theorem validateAttachedGroup_eq
    {d e : Definition κ} (hde : d.Resembles e) (featureKey groupKey : Bytes) :
    validateAttachedGroup groups limits featureKey d groupKey =
      validateAttachedGroup groups' limits featureKey e groupKey := by
  unfold validateAttachedGroup
  simp only [mem_iff_of_rel h, parentChain_eq h]
  congr 1
  funext _
  refine congrArg _ (funext fun current => ?_)
  refine forEach_congr (groupStrategies_resembles h current) fun strategy strategy' hs => ?_
  simp only [rejectIf, hs.1, hs.2, hde.variants]

end

/-- The loops of `cloneAndValidateGroups` over the copied groups. -/
def validateGroupMap (ord : MapOrder) (definitions : GoMap (Definition κ))
    (groups : GoMap (GroupDefinition κ)) (limits : Limits) : Except GoError Unit := do
  forEach (groups.range ord) fun x =>
    rejectIf (x.2.parent ≠ [] ∧ x.2.parent ∉ groups)
      (.wrapf "group %q parent %q: %w" [.q x.1, .q x.2.parent] (.sentinel .notFound))
  validateGroupGraph ord groups limits
  forEach (definitions.range ord) fun x =>
    forEach x.2.groups fun groupKey => validateAttachedGroup groups limits x.1 x.2 groupKey

/-- Groups that resemble each other are visited with the same error. -/
theorem validateGroupMap_eq (hord : ord.ByKeys)
    (hd : ∀ k : Bytes, Option.Rel Definition.Resembles definitions[k]? definitions'[k]?)
    (hg : ∀ k : Bytes, Option.Rel GroupDefinition.Resembles groups[k]? groups'[k]?) :
    validateGroupMap ord definitions groups limits =
      validateGroupMap ord definitions' groups' limits := by
  have hparents : (forEach (groups.range ord) fun x =>
        rejectIf (x.2.parent ≠ [] ∧ x.2.parent ∉ groups)
          (GoError.wrapf "group %q parent %q: %w" [.q x.1, .q x.2.parent] (.sentinel .notFound))) =
      forEach (groups'.range ord) fun x =>
        rejectIf (x.2.parent ≠ [] ∧ x.2.parent ∉ groups')
          (GoError.wrapf "group %q parent %q: %w" [.q x.1, .q x.2.parent]
            (.sentinel .notFound)) := by
    refine forEach_congr (forall₂_range hord hg) fun x y hxy => ?_
    simp only [rejectIf, hxy.1, hxy.2.parent, mem_iff_of_rel hg]
  have hgraph : validateGroupGraph ord groups limits = validateGroupGraph ord groups' limits := by
    refine forEach_congr (forall₂_range hord hg) fun x y hxy => ?_
    rw [hxy.1, walkParents_eq hg]
  have hattached : (forEach (definitions.range ord) fun x =>
        forEach x.2.groups fun groupKey => validateAttachedGroup groups limits x.1 x.2 groupKey) =
      forEach (definitions'.range ord) fun x =>
        forEach x.2.groups fun groupKey =>
          validateAttachedGroup groups' limits x.1 x.2 groupKey := by
    refine forEach_congr (forall₂_range hord hd) fun x y hxy => ?_
    rw [hxy.1, hxy.2.groups]
    exact congrArg _ (funext fun groupKey => validateAttachedGroup_eq hg hxy.2 y.1 groupKey)
  unfold validateGroupMap
  rw [hparents, hgraph, hattached]

end Loops

/-! ### Verdicts -/

section Verdicts

/-- The error that a check returns, if it does. -/
def errorOf {α : Type} : Except GoError α → Option GoError
  | .error e => some e
  | .ok _ => none

theorem errorOf_eq_none {α : Type} {x : Except GoError α} : errorOf x = none ↔ ∃ a, x = .ok a := by
  cases x with
  | error e | ok a => simp [errorOf]

theorem errorOf_bind {α β γ : Type} (x : Except GoError α) {f : α → Except GoError β}
    {g : α → Except GoError γ} (h : ∀ a, errorOf (f a) = errorOf (g a)) :
    errorOf (x >>= f) = errorOf (x >>= g) := by
  cases x with
  | error e => rfl
  | ok a => exact h a

theorem errorOf_ok_bind {α β : Type} (a : α) (f : α → Except GoError β) :
    errorOf (.ok a >>= f) = errorOf (f a) := rfl

theorem errorOf_bind_pure {α : Type} (x : Except GoError Unit) (a : α) :
    errorOf (x >>= fun _ => pure a) = errorOf x := by
  cases x <;> rfl

variable {κ : Type} [CustomStrategy κ] [Runtime] {ord : MapOrder} {limits : Limits}
  {definitions definitions' : GoMap (Definition κ)}

theorem errorOf_cloneAndValidateGroups {l : List (GroupDefinition κ)}
    (valid : ∀ g ∈ l, g.Valid limits) (nodup : (l.map GroupDefinition.key).Nodup) :
    errorOf (cloneAndValidateGroups ord definitions l limits) = errorOf (do
      rejectIf (len l > limits.maxGroups)
        (GoError.errorf "group definitions exceed limit %d" [.d limits.maxGroups])
      validateGroupMap ord definitions (groupIndex l) limits) := by
  have hclone := cloneGroups_eq_ok_iff.mpr ⟨valid, nodup, rfl⟩
  unfold cloneAndValidateGroups
  refine errorOf_bind _ fun _ => ?_
  rw [hclone, errorOf_ok_bind, validateGroupMap]
  refine errorOf_bind _ fun _ => errorOf_bind _ fun _ => ?_
  exact errorOf_bind_pure _ _

/-- Valid features with distinct keys are copied without an error. -/
theorem errorOf_newSnapshotWithGroups {l : List (Definition κ)} {groups : List (GroupDefinition κ)}
    (valid : ∀ d ∈ l, d.Valid limits) (nodup : (l.map Definition.key).Nodup) :
    errorOf (newSnapshotWithGroups ord l groups limits) = errorOf (do
      rejectIf (len l > limits.maxFeatures)
        (GoError.errorf "features exceed limit %d" [.d limits.maxFeatures])
      validateDependencyGraph ord (definitionIndex l) limits
      cloneAndValidateGroups ord (definitionIndex l) groups limits) := by
  have hclone : cloneDefinitions ord limits l = .ok (definitionIndex l) :=
    cloneDefinitions_eq_ok_iff.mpr ⟨valid, nodup, rfl⟩
  unfold newSnapshotWithGroups
  refine errorOf_bind _ fun _ => ?_
  rw [hclone, errorOf_ok_bind]
  refine errorOf_bind _ fun _ => ?_
  cases cloneAndValidateGroups ord (definitionIndex l) groups limits <;> rfl

/-- The error is about groups that are all in order, or the first one that is met. -/
theorem errorOf_groups_eq (hκ : PlainStrategies κ) {l l' : List (GroupDefinition κ)}
    (valid : ∀ g ∈ l, g.Valid limits) (nodup : (l.map GroupDefinition.key).Nodup)
    (valid' : ∀ g ∈ l', g.Valid limits) (nodup' : (l'.map GroupDefinition.key).Nodup)
    (hd : ∀ k : Bytes, Option.Rel Definition.Resembles definitions[k]? definitions'[k]?)
    (hg : ∀ k : Bytes, Option.Rel GroupDefinition.Resembles (groupIndex l)[k]? (groupIndex l')[k]?)
    (hgroups : GroupGraphOk limits definitions (groupIndex l) ∨ ord.ByKeys) :
    errorOf (cloneAndValidateGroups ord definitions l limits) =
      errorOf (cloneAndValidateGroups ord definitions' l' limits) := by
  have hlen : len l = len l' :=
    (length_of_index nodup).trans ((len_eq_of_rel hg).trans (length_of_index nodup').symm)
  rcases hgroups with hok | hord
  · have hgroupsOk : GroupsOk definitions l limits := (groupsOk_iff hκ).mpr ⟨nodup, hok⟩
    have hgroupsOk' : GroupsOk definitions' l' limits := {
      groups_len := hlen ▸ hgroupsOk.groups_len
      valid := valid'
      nodup := nodup'
      parents := by
        intro key g' hg' hparent
        obtain ⟨g, hlookup, hgg⟩ := exists_lookup_left hg hg'
        rw [← hgg.parent] at hparent ⊢
        exact (mem_iff_of_rel hg).mp (hok.parents key g hlookup hparent)
      bounded := by
        intro key hkey
        rw [parentKeys_eq hg]
        exact hok.bounded key ((mem_iff_of_rel hg).mpr hkey)
      attached := by
        intro key e he group hgroup
        obtain ⟨d, hlookup, hde⟩ := exists_lookup_left hd he
        rw [← hde.groups] at hgroup
        exact (hok.attached key d hlookup group hgroup).resembles hg hde }
    rw [errorOf_eq_none.mpr ⟨_, cloneAndValidateGroups_eq_ok_iff.mpr ⟨hgroupsOk, rfl⟩⟩,
      errorOf_eq_none.mpr ⟨_, cloneAndValidateGroups_eq_ok_iff.mpr ⟨hgroupsOk', rfl⟩⟩]
  · rw [errorOf_cloneAndValidateGroups valid nodup, errorOf_cloneAndValidateGroups valid' nodup',
      hlen, validateGroupMap_eq hord hd hg]

/-- What the definitions and groups of a tenant are, each for itself. -/
structure TenantState.PartsValid (limits : Limits) (t : TenantState κ) : Prop where
  keyed : t.Keyed
  features : ∀ (key : Bytes) (d : Definition κ), (activeDefinitions t.features)[key]? = some d →
    d.Valid limits
  groups : ∀ (key : Bytes) (g : GroupDefinition κ), t.groups[key]? = some g → g.Valid limits

/-- Tenants that resemble each other are refused with the same error, if neither the order of the
maps nor that of the dependencies decides which error is met first. -/
theorem verdict_eq_of_resembles (hκ : PlainStrategies κ) {t t' : TenantState κ}
    (ht : t.PartsValid limits) (ht' : t'.PartsValid limits)
    (hd : ∀ k : Bytes, Option.Rel Definition.Resembles (activeDefinitions t.features)[k]?
      (activeDefinitions t'.features)[k]?)
    (hg : ∀ k : Bytes, Option.Rel GroupDefinition.Resembles t.groups[k]? t'.groups[k]?)
    (hdeps : DependenciesOk limits (activeDefinitions t.features) ∨ ord.ByKeys ∧
      SameDependencies (activeDefinitions t.features) (activeDefinitions t'.features))
    (hgroups : GroupGraphOk limits (activeDefinitions t.features) t.groups ∨ ord.ByKeys) :
    errorOf (newSnapshotWithGroups ord (definitionsFromRecords ord t.features)
        (groupsFromMap ord t.groups) limits) =
      errorOf (newSnapshotWithGroups ord (definitionsFromRecords ord t'.features)
        (groupsFromMap ord t'.groups) limits) := by
  have hvalid : ∀ {t : TenantState κ}, t.PartsValid limits →
      (∀ d ∈ definitionsFromRecords ord t.features, d.Valid limits) ∧
        ∀ g ∈ groupsFromMap ord t.groups, g.Valid limits := by
    refine fun ht => ⟨fun d hd => ?_, fun g hg => ?_⟩
    · obtain ⟨key, hkey⟩ := mem_definitionsFromRecords.mp hd
      exact ht.features key d hkey
    · obtain ⟨key, g, hkey, rfl⟩ := mem_groupsFromMap.mp hg
      rw [hκ.cloneGroup]
      exact ht.groups key g hkey
  have nodup := nodup_definitionsFromRecords ht.keyed.features ord
  have nodup' := nodup_definitionsFromRecords ht'.keyed.features ord
  have hlen : len (definitionsFromRecords ord t.features) =
      len (definitionsFromRecords ord t'.features) := by
    rw [length_of_index nodup, length_of_index nodup']
    refine (congrArg GoMap.len (definitionIndex_eq hκ ht.keyed ord)).trans ?_
    exact (len_eq_of_rel hd).trans (congrArg GoMap.len (definitionIndex_eq hκ ht'.keyed ord)).symm
  rw [errorOf_newSnapshotWithGroups (hvalid ht).1 nodup, errorOf_newSnapshotWithGroups (hvalid
    ht').1 nodup', definitionIndex_eq hκ ht.keyed, definitionIndex_eq hκ ht'.keyed, hlen,
    validateDependencyGraph_eq_of_resembles hd hdeps]
  refine errorOf_bind _ fun _ => errorOf_bind _ fun _ => ?_
  refine errorOf_groups_eq hκ (hvalid ht).2 (nodup_groupsFromMap ht.keyed.groups ord) (hvalid ht').2
    (nodup_groupsFromMap ht'.keyed.groups ord) hd ?_ ?_
  · rw [groupIndex_eq hκ ht.keyed, groupIndex_eq hκ ht'.keyed]
    exact hg
  · rw [groupIndex_eq hκ ht.keyed]
    exact hgroups

end Verdicts

end FeatureFlags
