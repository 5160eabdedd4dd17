import FeatureFlags.Equiv.Definition
import FeatureFlags.Evaluate

/-!
# What `NewSnapshotWithGroups` accepts

`newSnapshotWithGroups_eq_ok_iff` lists what construction accepts.  Everything but the depth-first
search over the dependencies is a property of the sets of definitions and groups (`SnapshotOk`); the
search depends on the order of the map (`Searched`).

* `walkParents_eq_ok_iff`: the walk over the parents of a group succeeds iff the chain of parents
  ends within the limit.
* `Searched.wellFounded`: an accepted graph has no cycle.
-/

namespace FeatureFlags

open Go Relation

variable {κ : Type} {limits : Limits} {u : Unit} {ord : MapOrder}

/-! ### Graphs -/

/-- The parent of a group as a list of successors; the chain ends at the empty key. -/
def parentKeys (groups : GoMap (GroupDefinition κ)) (key : Bytes) : List Bytes :=
  if key = [] then [] else [parentOf groups key]

theorem flag_insert (m : GoMap Bool) (k a : Bytes) :
    flag (m.insert k true) a = true ↔ k = a ∨ flag m a = true := by
  simp only [flag, Std.ExtTreeMap.getD_eq_getD_getElem?, GoMap.lookup_insert]
  by_cases h : k = a
  · simp [h]
  · simp [h]

@[simp] theorem flag_empty (a : Bytes) : flag ∅ a = false := rfl

theorem flag_eq_false_of_lookup {m : GoMap Bool} {a : Bytes} (h : m[a]? = none) :
    flag m a = false := by
  simp [flag, Std.ExtTreeMap.getD_eq_getD_getElem?, h]

variable {groups : GoMap (GroupDefinition κ)} {definitions : GoMap (Definition κ)}

/-- A walk that succeeds has seen the end of the chain. -/
theorem bounded_of_walkParents {root : Bytes} (n : Nat) :
    ∀ {current : Bytes} {visiting : GoMap Bool} {u : Unit},
      walkParents groups limits root n current visiting = .ok u →
        Dfs.Bounded (parentKeys groups) n current := by
  induction n with
  | zero =>
    intro current visiting u h
    by_cases hc : current = []
    · simp [Dfs.Bounded, parentKeys, hc]
    · simp [walkParents, hc] at h
  | succ n ih =>
    intro current visiting u h
    by_cases hc : current = []
    · simp [Dfs.Bounded, parentKeys, hc]
    · rw [walkParents, if_neg hc] at h
      split_ifs at h with hv
      intro w hw
      obtain rfl : w = parentOf groups current := by simpa [parentKeys, hc] using hw
      exact ih h

/-- On a chain that ends, no group is met again, so only the depth can fail. -/
theorem walkParents_of_bounded {root : Bytes} (n : Nat) :
    ∀ {current : Bytes} {visiting : GoMap Bool},
      Dfs.Bounded (parentKeys groups) n current →
      (∀ k, flag visiting k = true → TransGen (Dfs.Edge (parentKeys groups)) k current) →
        walkParents groups limits root n current visiting = .ok () := by
  induction n with
  | zero =>
    intro current visiting h _
    have hc : current = [] := by
      by_contra hc
      simp [Dfs.Bounded, parentKeys, hc] at h
    rw [walkParents, if_pos hc]
  | succ n ih =>
    intro current visiting h hvis
    by_cases hc : current = []
    · rw [walkParents, if_pos hc]
    · have hnot : ¬ flag visiting current = true := fun hf => h.irrefl (hvis current hf)
      have hedge : Dfs.Edge (parentKeys groups) current (parentOf groups current) := by
        simp [Dfs.Edge, parentKeys, hc]
      rw [walkParents, if_neg hc, if_neg hnot]
      refine ih (h _ hedge) fun k hk => ?_
      rcases (flag_insert _ _ _).mp hk with rfl | hk
      · exact .single hedge
      · exact .tail (hvis k hk) hedge

theorem walkParents_eq_ok_iff {root key : Bytes} {n : Nat} :
    walkParents groups limits root n key ∅ = .ok u ↔ Dfs.Bounded (parentKeys groups) n key :=
  ⟨bounded_of_walkParents n, fun h => walkParents_of_bounded n h (by simp)⟩

theorem forall_mem_range {V : Type} {m : GoMap V} {P : Bytes → V → Prop} :
    (∀ x ∈ m.range ord, P x.1 x.2) ↔ ∀ (key : Bytes) (v : V), m[key]? = some v → P key v := by
  simp only [Prod.forall, GoMap.mem_range]

/-- One entry, in any order. -/
theorem range_singleton {V : Type} (ord : MapOrder) (key : Bytes) (value : V) :
    GoMap.range ord ((∅ : GoMap V).insert key value) = [(key, value)] := by
  have hlist : ((∅ : GoMap V).insert key value).toList = [(key, value)] := by
    rfl
  rw [GoMap.range, hlist]
  exact List.perm_singleton.mp (ord.perm _)

theorem forall_key_iff {V : Type} {m : GoMap V} {P : Bytes → Prop} :
    (∀ (key : Bytes) (v : V), m[key]? = some v → P key) ↔ ∀ key ∈ m, P key := by
  simp only [GoMap.mem_iff]
  exact ⟨fun h key ⟨v, hv⟩ => h key v hv, fun h key v hv => h key ⟨v, hv⟩⟩

/-- Every dependency names a feature and one of its variants. -/
def References (definitions : GoMap (Definition κ)) : Prop :=
  ∀ (key : Bytes) (d : Definition κ), definitions[key]? = some d → ∀ dep ∈ d.dependencies,
    ∃ target : Definition κ, definitions[dep.featureKey]? = some target ∧
      dep.requiredVariant ∈ target.variants

/-- The search of `validateDependencyGraph` succeeds in this order of the map. -/
def Searched (ord : MapOrder) (definitions : GoMap (Definition κ)) (limits : Limits) : Prop :=
  ∃ s, Dfs.visitAll (dependencyKeys definitions) (limits.maxEvaluationDepth + 1).toNat
    ((definitions.range ord).map Prod.fst) .empty = .ok s

theorem validateReference_eq_ok_iff {key : Bytes} {dep : Dependency} :
    validateReference definitions key dep = .ok u ↔
      ∃ target : Definition κ, definitions[dep.featureKey]? = some target ∧
        dep.requiredVariant ∈ target.variants := by
  unfold validateReference
  cases h : definitions[dep.featureKey]? with
  | none | some target => simp

theorem validateDependencyGraph_eq_ok_iff :
    validateDependencyGraph ord definitions limits = .ok u ↔
      References definitions ∧ Searched ord definitions limits := by
  have hrefs : (∀ x ∈ definitions.range ord, ∀ dep ∈ x.2.dependencies,
      ∃ target : Definition κ, definitions[dep.featureKey]? = some target ∧
        dep.requiredVariant ∈ target.variants) ↔ References definitions :=
    forall_mem_range (P := fun _ (d : Definition κ) => ∀ dep ∈ d.dependencies,
      ∃ target : Definition κ, definitions[dep.featureKey]? = some target ∧
        dep.requiredVariant ∈ target.variants)
  simp only [validateDependencyGraph, bind_eq_ok, forEach_eq_ok, validateReference_eq_ok_iff,
    mapError_eq_ok, hrefs, exists_const, pure_eq_ok, Searched]
  simp

/-- Only features have dependencies. -/
theorem mem_of_dependencyKeys_ne_nil {key : Bytes} (h : dependencyKeys definitions key ≠ []) :
    key ∈ (definitions.range ord).map Prod.fst := by
  unfold dependencyKeys at h
  cases hd : definitions[key]? with
  | none => simp [hd] at h
  | some d => exact List.mem_map.mpr ⟨(key, d), GoMap.mem_range.mpr hd, rfl⟩

/-- An accepted graph of dependencies has no cycle. -/
theorem Searched.wellFounded (h : Searched ord definitions limits) :
    WellFounded fun w v => w ∈ dependencyKeys definitions v := by
  obtain ⟨s, hs⟩ := h
  exact Dfs.wellFounded_of_visitAll hs fun v hv => mem_of_dependencyKeys_ne_nil hv

variable [CustomStrategy κ]

/-! ### Groups -/

/-- What `cloneAndValidateGroups` asks of a strategy of a group. -/
structure GroupStrategyOk [Runtime] (limits : Limits) (s : Strategy κ) : Prop where
  not_nil : s.isNil = false
  name : KeyOk limits s.strategyName
  target : KeyOk limits s.targetVariant
  valid : s.validateStrategy limits = .ok ()

/-- What `cloneAndValidateGroups` asks of one group. -/
structure GroupDefinition.Valid [Runtime] (limits : Limits) (g : GroupDefinition κ) : Prop where
  key : KeyOk limits g.key
  parent : len g.parent ≤ limits.maxKeyBytes
  owner : len g.owner ≤ limits.maxStringBytes
  metadata_len : g.metadata.len ≤ limits.maxMetadata
  tags_len : len g.tags ≤ limits.maxTags
  strategies_len : len g.strategies ≤ limits.maxStrategies
  metadata : MetadataOk limits g.metadata
  tags : ∀ tag ∈ g.tags, KeyOk limits tag
  strategies : ∀ s ∈ g.strategies, GroupStrategyOk limits s

theorem validateGroupStrategy_eq_ok_iff [Runtime] {group : Bytes} {s : Strategy κ} {index : Nat} :
    validateGroupStrategy limits group s index = .ok u ↔ GroupStrategyOk limits s := by
  simp only [validateGroupStrategy, bind_eq_ok, rejectIf_eq_ok, mapError_eq_ok, exists_const,
    Bool.not_eq_true, ← keyOk_iff]
  constructor
  · rintro ⟨h₁, h₂, h₃, h₄⟩
    exact ⟨h₁, h₂, h₃, h₄⟩
  · intro h
    exact ⟨h.not_nil, h.name, h.target, h.valid⟩

theorem validateGroup_eq_ok_iff [Runtime] {cloned : GoMap (GroupDefinition κ)}
    {g : GroupDefinition κ} :
    validateGroup limits cloned g = .ok u ↔ g.Valid limits ∧ g.key ∉ cloned := by
  have hstrategies (u : Unit) :
      forEach g.strategies.zipIdx (fun x => validateGroupStrategy limits g.key x.1 x.2) = .ok u ↔
        ∀ s ∈ g.strategies, GroupStrategyOk limits s :=
    forEach_zipIdx_eq_ok fun _ _ => validateGroupStrategy_eq_ok_iff
  simp only [validateGroup, bind_eq_ok, rejectIf_eq_ok, exists_const, validateMetadata_eq_ok_iff,
    validateTags_eq_ok_iff, hstrategies, ← keyOk_iff, gt_iff_lt, not_lt]
  constructor
  · rintro ⟨h₁, h₂, h₃, h₄, h₅, h₆, h₇, h₈, h₉, h₁₀⟩
    exact ⟨⟨h₁, h₂, h₃, h₄, h₅, h₇, h₈, h₉, h₁₀⟩, h₆⟩
  · rintro ⟨h, h₆⟩
    exact ⟨h.key, h.parent, h.owner, h.metadata_len, h.tags_len, h₆, h.strategies_len, h.metadata,
      h.tags, h.strategies⟩

/-- The groups of a snapshot, by key. -/
def groupIndex (groups : List (GroupDefinition κ)) : GoMap (GroupDefinition κ) :=
  GoMap.index GroupDefinition.key cloneGroup groups

theorem cloneGroups_eq_ok_iff [Runtime] {groups : List (GroupDefinition κ)}
    {m : GoMap (GroupDefinition κ)} :
    cloneGroups limits groups = .ok m ↔
      (∀ g ∈ groups, g.Valid limits) ∧ (groups.map GroupDefinition.key).Nodup ∧
        m = groupIndex groups := by
  rw [cloneGroups, GoMap.foldlM_insert_eq_ok_iff
    GroupDefinition.key cloneGroup (P := fun g => g.Valid limits)]
  · simp [groupIndex, GoMap.index]
  · intro m g m'
    simp only [bind_eq_ok, validateGroup_eq_ok_iff, exists_const, pure_eq_ok]
    constructor
    · rintro ⟨⟨h₁, h₂⟩, h₃⟩; exact ⟨h₁, h₂, h₃.symm⟩
    · rintro ⟨h₁, h₂, h₃⟩; exact ⟨⟨h₁, h₂⟩, h₃.symm⟩

/-- What `cloneAndValidateGroups` asks of a feature attached to a group. -/
structure AttachmentOk (groups : GoMap (GroupDefinition κ)) (limits : Limits) (d : Definition κ)
    (key : Bytes) : Prop where
  exists_group : key ∈ groups
  targets : ∀ k ∈ parentChain groups (limits.maxGroupDepth + 1).toNat key,
    ∀ s ∈ groupStrategies groups k, s.targetVariant ∈ d.variants

theorem validateAttachedGroup_eq_ok_iff {featureKey : Bytes} {d : Definition κ} {key : Bytes} :
    validateAttachedGroup groups limits featureKey d key = .ok u ↔
      AttachmentOk groups limits d key := by
  simp only [validateAttachedGroup, bind_eq_ok, rejectIf_eq_ok, not_not, forEach_eq_ok,
    exists_const]
  exact ⟨fun h => ⟨h.1, h.2⟩, fun h => ⟨h.1, h.2⟩⟩

/-- What `cloneAndValidateGroups` accepts. -/
structure GroupsOk [Runtime] (definitions : GoMap (Definition κ))
    (groups : List (GroupDefinition κ)) (limits : Limits) : Prop where
  groups_len : len groups ≤ limits.maxGroups
  valid : ∀ g ∈ groups, g.Valid limits
  nodup : (groups.map GroupDefinition.key).Nodup
  parents : ∀ (key : Bytes) (g : GroupDefinition κ), (groupIndex groups)[key]? = some g →
    g.parent ≠ [] → g.parent ∈ groupIndex groups
  bounded : ∀ key ∈ groupIndex groups,
    Dfs.Bounded (parentKeys (groupIndex groups)) (limits.maxGroupDepth + 1).toNat key
  attached : ∀ (key : Bytes) (d : Definition κ), definitions[key]? = some d → ∀ g ∈ d.groups,
    AttachmentOk (groupIndex groups) limits d g

theorem cloneAndValidateGroups_eq_ok_iff [Runtime] {groups : List (GroupDefinition κ)}
    {m : GoMap (GroupDefinition κ)} :
    cloneAndValidateGroups ord definitions groups limits = .ok m ↔
      GroupsOk definitions groups limits ∧ m = groupIndex groups := by
  have hparents (m : GoMap (GroupDefinition κ)) :
      (∀ x ∈ m.range ord, ¬ (x.2.parent ≠ [] ∧ x.2.parent ∉ m)) ↔
        ∀ (key : Bytes) (g : GroupDefinition κ), m[key]? = some g → g.parent ≠ [] →
          g.parent ∈ m := by
    simp only [not_and, not_not]
    exact forall_mem_range (P := fun _ (g : GroupDefinition κ) => g.parent ≠ [] → g.parent ∈ m)
  have hwalk (m : GoMap (GroupDefinition κ)) :
      (∀ x ∈ m.range ord, Dfs.Bounded (parentKeys m) (limits.maxGroupDepth + 1).toNat x.1) ↔
        ∀ key ∈ m, Dfs.Bounded (parentKeys m) (limits.maxGroupDepth + 1).toNat key :=
    forall_mem_range.trans forall_key_iff
  have hattached (m : GoMap (GroupDefinition κ)) :
      (∀ x ∈ definitions.range ord, ∀ g ∈ x.2.groups, AttachmentOk m limits x.2 g) ↔
        ∀ (key : Bytes) (d : Definition κ), definitions[key]? = some d →
          ∀ g ∈ d.groups, AttachmentOk m limits d g :=
    forall_mem_range (P := fun _ (d : Definition κ) => ∀ g ∈ d.groups, AttachmentOk m limits d g)
  simp only [cloneAndValidateGroups, validateGroupGraph, bind_eq_ok, rejectIf_eq_ok, forEach_eq_ok,
    cloneGroups_eq_ok_iff, walkParents_eq_ok_iff, validateAttachedGroup_eq_ok_iff, pure_eq_ok,
    exists_const, hparents, hwalk, hattached, gt_iff_lt, not_lt]
  constructor
  · rintro ⟨h₁, _, ⟨h₂, h₃, rfl⟩, h₄, h₅, h₆, rfl⟩
    exact ⟨⟨h₁, h₂, h₃, h₄, h₅, h₆⟩, rfl⟩
  · rintro ⟨h, rfl⟩
    exact ⟨h.groups_len, _, ⟨h.valid, h.nodup, rfl⟩, h.parents, h.bounded, h.attached, rfl⟩

/-! ### Definitions -/

/-- The definitions of a snapshot, by key. -/
def definitionIndex (definitions : List (Definition κ)) : GoMap (Definition κ) :=
  GoMap.index Definition.key cloneDefinition definitions

theorem cloneDefinitions_eq_ok_iff [Runtime] {definitions : List (Definition κ)}
    {m : GoMap (Definition κ)} :
    cloneDefinitions ord limits definitions = .ok m ↔
      (∀ d ∈ definitions, d.Valid limits) ∧ (definitions.map Definition.key).Nodup ∧
        m = definitionIndex definitions := by
  rw [cloneDefinitions, GoMap.foldlM_insert_eq_ok_iff
    Definition.key cloneDefinition (P := fun d => d.Valid limits)]
  · simp [definitionIndex, GoMap.index]
  · intro m d m'
    simp only [bind_eq_ok, Definition.validate_eq_ok_iff, exists_const, rejectIf_eq_ok, pure_eq_ok,
      eq_comm (a := m.insert d.key (cloneDefinition d))]

/-! ### Snapshots -/

/-- What construction asks of the definitions and groups, apart from the search. -/
structure SnapshotOk [Runtime] (definitions : List (Definition κ))
    (groups : List (GroupDefinition κ)) (limits : Limits) : Prop where
  features_len : len definitions ≤ limits.maxFeatures
  valid : ∀ d ∈ definitions, d.Valid limits
  nodup : (definitions.map Definition.key).Nodup
  references : References (definitionIndex definitions)
  groups_ok : GroupsOk (definitionIndex definitions) groups limits

def snapshotOf (definitions : List (Definition κ)) (groups : List (GroupDefinition κ))
    (limits : Limits) : Snapshot κ :=
  { definitions := definitionIndex definitions, groups := groupIndex groups, tenant := [], limits }

/-- What `NewSnapshotWithGroups` accepts, and what it builds. -/
theorem newSnapshotWithGroups_eq_ok_iff [Runtime] {definitions : List (Definition κ)}
    {groups : List (GroupDefinition κ)} {s : Snapshot κ} :
    newSnapshotWithGroups ord definitions groups limits = .ok s ↔
      SnapshotOk definitions groups limits ∧ Searched ord (definitionIndex definitions) limits ∧
        s = snapshotOf definitions groups limits := by
  simp only [newSnapshotWithGroups, bind_eq_ok, rejectIf_eq_ok, exists_const,
    cloneDefinitions_eq_ok_iff, validateDependencyGraph_eq_ok_iff,
    cloneAndValidateGroups_eq_ok_iff, pure_eq_ok, gt_iff_lt, not_lt]
  constructor
  · rintro ⟨h₁, _, ⟨h₂, h₃, rfl⟩, ⟨h₄, h₅⟩, _, ⟨h₆, rfl⟩, rfl⟩
    exact ⟨⟨h₁, h₂, h₃, h₄, h₆⟩, h₅, rfl⟩
  · rintro ⟨h, h₅, rfl⟩
    exact ⟨h.features_len, _, ⟨h.valid, h.nodup, rfl⟩, ⟨h.references, h₅⟩, _, ⟨h.groups_ok, rfl⟩,
      rfl⟩

/-- An accepted graph of groups has no cycle. -/
theorem GroupsOk.wellFounded [Runtime] {groups} (h : GroupsOk definitions groups limits) :
    WellFounded fun w v => w ∈ parentKeys (groupIndex groups) v := by
  have hacc (n : Nat) : ∀ v, Dfs.Bounded (parentKeys (groupIndex groups)) n v →
      Acc (fun w v => w ∈ parentKeys (groupIndex groups) v) v := by
    induction n with
    | zero => exact fun v hv => .intro v fun w hw => by rw [hv] at hw; cases hw
    | succ n ih => exact fun v hv => .intro v fun w hw => ih w (hv w hw)
  refine ⟨fun v => .intro v fun w hw => ?_⟩
  by_cases hv : v ∈ groupIndex groups
  · exact (hacc _ v (h.bounded v hv)).inv hw
  · -- a missing group has the empty parent, where every chain ends
    have hw' : w = [] := by
      unfold parentKeys at hw
      split_ifs at hw with hnil
      · cases hw
      · have hnone : (groupIndex groups)[v]? = none :=
          Std.ExtTreeMap.getElem?_eq_none hv
        simpa [parentOf, hnone] using hw
    subst hw'
    exact .intro _ fun w hw => by simp [parentKeys] at hw

end FeatureFlags
