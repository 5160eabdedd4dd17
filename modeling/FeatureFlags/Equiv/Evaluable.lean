import FeatureFlags.Equiv.Acceptance
import FeatureFlags.Equiv.Groups

/-!
# Tenants that stay evaluable

`Snapshot` validates the whole graph of a tenant; the operations on groups and lifecycles validate a
part of it, or nothing.

* `GraphOk`: what `NewSnapshotWithGroups` asks of the features and groups of a tenant, as maps.
  `evaluable_iff`: for strategies that are plain values, a tenant is evaluable iff its graph is in
  order.
* One lemma for each kind of change: `GraphOk.replace` for a feature that keeps its dependencies and
  variants, `GraphOk.erase` for a group that nothing names.
* `stays_evaluable_iff`: only `AssignGroup` can break a tenant, by a group too many.
  `assigned_not_evaluable`: it does, if a feature names a group twice.
-/

namespace FeatureFlags

open Go Lib
open Std (ExtTreeMap)

variable {κ : Type} {definitions : GoMap (Definition κ)}

/-! ### The graph of a tenant -/

section Tenants

variable [CustomStrategy κ] [Runtime]

/-- What `cloneAndValidateGroups` asks of the groups, as a map. -/
structure GroupGraphOk (limits : Limits) (definitions : GoMap (Definition κ))
    (groups : GoMap (GroupDefinition κ)) : Prop where
  groups_len : groups.len ≤ limits.maxGroups
  valid : ∀ (key : Bytes) (g : GroupDefinition κ), groups[key]? = some g → g.Valid limits
  parents : ∀ (key : Bytes) (g : GroupDefinition κ), groups[key]? = some g → g.parent ≠ [] →
    g.parent ∈ groups
  bounded : ∀ key ∈ groups,
    Dfs.Bounded (parentKeys groups) (limits.maxGroupDepth + 1).toNat key
  attached : ∀ (key : Bytes) (d : Definition κ), definitions[key]? = some d → ∀ g ∈ d.groups,
    AttachmentOk groups limits d g

/-- What `NewSnapshotWithGroups` asks of the features and groups, as maps, in every order of
them. -/
structure GraphOk (limits : Limits) (definitions : GoMap (Definition κ))
    (groups : GoMap (GroupDefinition κ)) : Prop where
  features_len : definitions.len ≤ limits.maxFeatures
  valid : ∀ (key : Bytes) (d : Definition κ), definitions[key]? = some d → d.Valid limits
  references : References definitions
  search : ∀ key ∈ definitions, FreshSearch definitions limits key
  groups_ok : GroupGraphOk limits definitions groups

/-- `NewSnapshotWithGroups` accepts the features and groups of the tenant, whatever order the maps
are visited in. -/
def TenantState.Evaluable (limits : Limits) (s : TenantState κ) : Prop :=
  ∀ ord ord', Accepted ord' (definitionsFromRecords ord s.features) (groupsFromMap ord s.groups)
    limits

section Graph

variable {limits : Limits} {s t : TenantState κ} (hκ : PlainStrategies κ)

omit [CustomStrategy κ] [Runtime] in
theorem length_of_index {V : Type} {key : V → Bytes} {val : V → V} {l : List V}
    (nodup : (l.map key).Nodup) : len l = (GoMap.index key val l).len := by
  have hperm : (GoMap.index key val l).toList.Perm _ := GoMap.toList_index_perm nodup
  have hlen := hperm.length_eq
  rw [ExtTreeMap.length_toList, List.length_map] at hlen
  rw [len, GoMap.len, hlen]

include hκ

omit [Runtime] in
theorem definitionIndex_eq (hs : s.Keyed) (ord : MapOrder) :
    definitionIndex (definitionsFromRecords ord s.features) = activeDefinitions s.features := by
  apply ExtTreeMap.ext_getElem?
  intro key
  simp [definitionIndex_lookup hs.features, funext hκ.cloneDefinition]

omit [Runtime] in
theorem groupIndex_eq (hs : s.Keyed) (ord : MapOrder) :
    groupIndex (groupsFromMap ord s.groups) = s.groups := by
  apply ExtTreeMap.ext_getElem?
  intro key
  simp [groupIndex_lookup hs.groups, hκ.cloneGroup]

/-- The checks on a list of groups are checks on their map. -/
theorem groupsOk_iff {groups : List (GroupDefinition κ)} :
    GroupsOk definitions groups limits ↔
      (groups.map GroupDefinition.key).Nodup ∧
        GroupGraphOk limits definitions (groupIndex groups) := by
  constructor
  · intro h
    refine ⟨h.nodup, ?_, fun key g hg => ?_, h.parents, h.bounded, h.attached⟩
    · rw [groupIndex, ← length_of_index h.nodup]
      exact h.groups_len
    · obtain ⟨g, hmem, -, rfl⟩ := (GoMap.lookup_index h.nodup).mp hg
      rw [hκ.cloneGroup]
      exact h.valid g hmem
  · rintro ⟨nodup, h⟩
    refine ⟨?_, fun g hg => ?_, nodup, h.parents, h.bounded, h.attached⟩
    · rw [length_of_index nodup]
      exact h.groups_len
    · refine h.valid g.key g ((GoMap.lookup_index nodup).mpr ⟨g, hg, rfl, hκ.cloneGroup g⟩)

theorem evaluable_iff (hs : s.Keyed) :
    s.Evaluable limits ↔ GraphOk limits (activeDefinitions s.features) s.groups := by
  have nodup := nodup_definitionsFromRecords hs.features
  have hlen : ∀ ord, len (definitionsFromRecords ord s.features) =
      (activeDefinitions s.features).len := by
    intro ord
    rw [length_of_index (nodup ord), ← definitionIndex_eq hκ hs ord]
    rfl
  simp only [TenantState.Evaluable, accepted_iff, definitionIndex_eq hκ hs]
  constructor
  · intro h
    have hok := (h .sorted .sorted).1
    have hgroups := ((groupsOk_iff hκ).mp hok.groups_ok).2
    have hrefs := hok.references
    rw [definitionIndex_eq hκ hs] at hgroups hrefs
    rw [groupIndex_eq hκ hs] at hgroups
    refine ⟨hlen .sorted ▸ hok.features_len, fun key d hd => ?_, hrefs,
      fun key => fresh_of_searched fun ord => (h .sorted ord).2, hgroups⟩
    exact hok.valid d (mem_definitionsFromRecords.mpr ⟨key, hd⟩)
  · intro h ord ord'
    refine ⟨⟨(hlen ord).trans_le h.features_len, fun d hd => ?_, nodup ord, ?_, ?_⟩,
      searched_of_fresh h.search ord'⟩
    · obtain ⟨key, hkey⟩ := mem_definitionsFromRecords.mp hd
      exact h.valid key d hkey
    · rw [definitionIndex_eq hκ hs]
      exact h.references
    · refine (groupsOk_iff hκ).mpr ⟨nodup_groupsFromMap hs.groups ord, ?_⟩
      rw [definitionIndex_eq hκ hs, groupIndex_eq hκ hs]
      exact h.groups_ok

/-- One order decides if the search does not depend on it. -/
theorem evaluable_of_accepted (hs : s.Keyed) {ord : MapOrder}
    (hsearch : SearchIndependent (activeDefinitions s.features) limits)
    (hacc : Accepted ord (definitionsFromRecords ord s.features) (groupsFromMap ord s.groups)
      limits) : s.Evaluable limits := by
  intro ord₁ ord₂
  have hperm : ∀ {V : Type} (m : GoMap V), (m.range ord).Perm (m.range ord₁) := fun m =>
    (ord.perm _).trans (ord₁.perm _).symm
  rw [← definitionIndex_eq hκ hs ord] at hsearch
  exact accepted_of_perm hsearch ord₂ (((hperm s.features).filter _).map _)
    ((hperm s.groups).map _) hacc

end Graph

/-! ### Changes of the graph -/

variable {key : Bytes}

section Changes

variable {limits : Limits} {groups : GoMap (GroupDefinition κ)}

variable {d : Definition κ}

omit [CustomStrategy κ] [Runtime] in
/-- A feature that keeps its dependencies keeps the edges of the graph. -/
theorem dependencyKeys_insert {d' : Definition κ} (found : definitions[key]? = some d)
    (hdeps : d'.dependencies = d.dependencies) :
    dependencyKeys (definitions.insert key d') = dependencyKeys definitions := by
  funext v
  unfold dependencyKeys
  rw [GoMap.lookup_insert]
  split_ifs with hkey
  · subst hkey
    rw [found]
    exact congrArg _ hdeps
  · rfl

omit [CustomStrategy κ] [Runtime] in
theorem References.insert (h : References definitions) {key : Bytes} {d d' : Definition κ}
    (found : definitions[key]? = some d) (hdeps : d'.dependencies = d.dependencies)
    (hvariants : d'.variants = d.variants) : References (definitions.insert key d') := by
  have htarget : ∀ (k : Bytes) (variant : Bytes),
      (∃ target : Definition κ, definitions[k]? = some target ∧ variant ∈ target.variants) →
      ∃ target : Definition κ, (definitions.insert key d')[k]? = some target ∧
        variant ∈ target.variants := by
    rintro k variant ⟨target, hk, hvariant⟩
    rw [GoMap.lookup_insert]
    split_ifs with hkey
    · subst hkey
      rw [found, Option.some.injEq] at hk
      exact ⟨d', rfl, hvariants ▸ hk ▸ hvariant⟩
    · exact ⟨target, hk, hvariant⟩
  intro k e he dep hdep
  rw [GoMap.lookup_insert] at he
  split_ifs at he with hkey
  · cases he
    rw [hdeps] at hdep
    exact htarget _ _ (h key d found dep hdep)
  · exact htarget _ _ (h k e he dep hdep)

/-- A feature is replaced by one with the same dependencies and variants. -/
theorem GraphOk.replace (h : GraphOk limits definitions groups) {d' : Definition κ}
    (found : definitions[key]? = some d) (hdeps : d'.dependencies = d.dependencies)
    (hvariants : d'.variants = d.variants) (hvalid : d'.Valid limits)
    (hattached : ∀ g ∈ d'.groups, AttachmentOk groups limits d' g) :
    GraphOk limits (definitions.insert key d') groups where
  features_len := by
    rw [GoMap.len_insert_of_mem d' (GoMap.mem_of_lookup found)]
    exact h.features_len
  valid k e he := by
    rw [GoMap.lookup_insert] at he
    split_ifs at he
    · cases he
      exact hvalid
    · exact h.valid k e he
  references := h.references.insert found hdeps hvariants
  search k hk := by
    rw [GoMap.mem_insert_iff] at hk
    have hmem : k ∈ definitions := hk.elim (fun heq => heq ▸ GoMap.mem_of_lookup found) id
    rw [FreshSearch, dependencyKeys_insert found hdeps]
    exact h.search k hmem
  groups_ok :=
    { h.groups_ok with
      attached := fun k e he => by
        rw [GoMap.lookup_insert] at he
        split_ifs at he
        · cases he
          exact hattached
        · exact h.groups_ok.attached k e he }

/-- The lifecycle, the version and the groups of a valid definition can be changed, within the limit
of groups. -/
theorem Definition.Valid.update (h : d.Valid limits) (lifecycle : Lifecycle) (version : Nat)
    {names : List Bytes} (hlen : len names ≤ limits.maxGroups)
    (hnames : ∀ g ∈ names, KeyOk limits g) :
    Definition.Valid limits { d with lifecycle, version, groups := names } where
  key := h.key
  default := h.default
  default_type := h.default_type
  variants_len := h.variants_len
  metadata_len := h.metadata_len
  owner := h.owner
  tags_len := h.tags_len
  strategies_len := h.strategies_len
  dependencies_len := h.dependencies_len
  groups_len := hlen
  dependencies := h.dependencies
  groups := hnames
  variants := h.variants
  strategies := h.strategies
  metadata := h.metadata
  tags := h.tags

omit [Runtime] in
/-- Only the variants of a feature count for its groups. -/
theorem AttachmentOk.congr {d' : Definition κ} {g : Bytes} (h : AttachmentOk groups limits d g)
    (hvariants : d'.variants = d.variants) : AttachmentOk groups limits d' g :=
  ⟨h.exists_group, fun k hk strategy hstrategy => hvariants ▸ h.targets k hk strategy hstrategy⟩

/-- The lifecycle and the version of a feature are changed, and its groups are replaced by others
that its variants fit. -/
theorem GraphOk.regroup (h : GraphOk limits definitions groups)
    (found : definitions[key]? = some d) (lifecycle : Lifecycle) (version : Nat)
    {names : List Bytes} (hlen : len names ≤ limits.maxGroups)
    (hnames : ∀ g ∈ names, KeyOk limits g)
    (hattached : ∀ g ∈ names, AttachmentOk groups limits d g) :
    GraphOk limits (definitions.insert key { d with lifecycle, version, groups := names }) groups :=
  h.replace found rfl rfl ((h.valid key d found).update lifecycle version hlen hnames)
    fun g hg => (hattached g hg).congr rfl

theorem GraphOk.feature (h : GraphOk limits definitions groups)
    (found : definitions[key]? = some d) :
    len d.groups ≤ limits.maxGroups ∧ (∀ g ∈ d.groups, KeyOk limits g) ∧
      ∀ g ∈ d.groups, AttachmentOk groups limits d g :=
  ⟨(h.valid key d found).groups_len, (h.valid key d found).groups, h.groups_ok.attached key d found⟩

/-! #### Erasing a group -/

section Erase

variable {k : Bytes}

omit [CustomStrategy κ] [Runtime] in
theorem parentOf_erase (hne : key ≠ k) : parentOf (groups.erase k) key = parentOf groups key := by
  unfold parentOf
  rw [GoMap.lookup_erase, if_neg hne.symm]

omit [CustomStrategy κ] [Runtime] in
theorem groupStrategies_erase (hne : key ≠ k) :
    groupStrategies (groups.erase k) key = groupStrategies groups key := by
  unfold groupStrategies
  rw [GoMap.lookup_erase, if_neg hne.symm]

variable (hk : k ≠ []) (childless : ∀ (key : Bytes) (g : GroupDefinition κ),
  groups[key]? = some g → g.parent ≠ k)
include hk childless

omit [CustomStrategy κ] [Runtime] in
theorem parentOf_ne (key : Bytes) : parentOf groups key ≠ k := by
  unfold parentOf
  split
  · rename_i g hg
    exact childless key g hg
  · exact hk.symm

omit [CustomStrategy κ] [Runtime] in
theorem bounded_erase {n : Nat} : ∀ {key : Bytes}, key ≠ k →
    Dfs.Bounded (parentKeys groups) n key → Dfs.Bounded (parentKeys (groups.erase k)) n key := by
  have hkeys : ∀ {key : Bytes}, key ≠ k →
      parentKeys (groups.erase k) key = parentKeys groups key := by
    intro key hne
    rw [parentKeys, parentKeys, parentOf_erase hne]
  induction n with
  | zero =>
    intro key hne h
    rw [Dfs.Bounded, hkeys hne]
    exact h
  | succ n ih =>
    intro key hne h w hw
    rw [hkeys hne] at hw
    have hwk : w ≠ k := by
      unfold parentKeys at hw
      split_ifs at hw
      · cases hw
      · rw [List.mem_singleton.mp hw]
        exact parentOf_ne hk childless key
    exact ih hwk (h w hw)

omit [CustomStrategy κ] [Runtime] in
theorem parentChain_erase (n : Nat) : ∀ {key : Bytes}, key ≠ k →
    parentChain (groups.erase k) n key = parentChain groups n key ∧
      k ∉ parentChain groups n key := by
  induction n with
  | zero =>
    intro key _
    exact ⟨rfl, List.not_mem_nil⟩
  | succ n ih =>
    intro key hne
    rw [parentChain, parentChain]
    split_ifs
    · exact ⟨rfl, List.not_mem_nil⟩
    · obtain ⟨heq, hnot⟩ := ih (parentOf_ne hk childless key)
      rw [parentOf_erase hne, heq]
      exact ⟨rfl, List.not_mem_cons_of_ne_of_not_mem hne.symm hnot⟩

omit [Runtime] in
theorem attachmentOk_erase {g : Bytes} (hg : g ≠ k) (h : AttachmentOk groups limits d g) :
    AttachmentOk (groups.erase k) limits d g := by
  obtain ⟨heq, hnot⟩ := parentChain_erase hk childless (limits.maxGroupDepth + 1).toNat hg
  refine ⟨?_, fun c hc strategy hstrategy => ?_⟩
  · rw [ExtTreeMap.mem_erase]
    exact ⟨fun h => hg (Std.compare_eq_iff_eq.mp h).symm, h.exists_group⟩
  · rw [heq] at hc
    have hne : c ≠ k := fun heq => hnot (heq ▸ hc)
    rw [groupStrategies_erase hne] at hstrategy
    exact h.targets c hc strategy hstrategy

/-- A group that nothing names is erased. -/
theorem GraphOk.erase (h : GraphOk limits definitions groups)
    (unused : ∀ (key : Bytes) (d : Definition κ), definitions[key]? = some d → k ∉ d.groups) :
    GraphOk limits definitions (groups.erase k) := by
  have hsub : ∀ (key : Bytes) (g : GroupDefinition κ), (groups.erase k)[key]? = some g →
      key ≠ k ∧ groups[key]? = some g := by
    intro key g hg
    rw [GoMap.lookup_erase] at hg
    split_ifs at hg with hkey
    exact ⟨fun heq => hkey heq.symm, hg⟩
  refine { h with groups_ok := ⟨?_, fun key g hg => ?_, fun key g hg hne => ?_, fun key hkey => ?_,
    fun key d hd g hg => ?_⟩ }
  · have hle : GoMap.len (groups.erase k) ≤ groups.len :=
      Int.ofNat_le.mpr (size_le_of_lookup fun key g hg => (hsub key g hg).2)
    exact hle.trans h.groups_ok.groups_len
  · exact h.groups_ok.valid key g (hsub key g hg).2
  · have hbefore := (hsub key g hg).2
    rw [ExtTreeMap.mem_erase]
    exact ⟨fun heq => childless key g hbefore (Std.compare_eq_iff_eq.mp heq).symm,
      h.groups_ok.parents key g hbefore hne⟩
  · rw [ExtTreeMap.mem_erase] at hkey
    refine bounded_erase hk childless (fun heq => hkey.1 ?_) (h.groups_ok.bounded key hkey.2)
    exact Std.compare_eq_iff_eq.mpr heq.symm
  · exact attachmentOk_erase hk childless (fun heq => unused key d hd (heq ▸ hg))
      (h.groups_ok.attached key d hd g hg)

end Erase

end Changes

/-! ### Operations -/

/-- The operations that validate the groups only, or nothing. -/
def Call.GraphOp : Call κ → Prop
  | .createGroup _ _ => True
  | .updateGroup _ _ _ => True
  | .deleteGroup _ _ _ => True
  | .assignGroup _ _ _ _ => True
  | .removeGroup _ _ _ _ => True
  | .activate _ _ _ => True
  | .deactivate _ _ _ => True
  | .stageUpdate _ _ _ _ => True
  | .cleanup _ => True
  | _ => False

/-- A feature that the call adds to a group has room for one more. -/
def AssignFits (limits : Limits) (s : TenantState κ) : Call κ → Prop
  | .assignGroup featureKey groupKey _ _ => ∀ record, s.Live featureKey record →
    groupKey ∉ record.definition.groups → len record.definition.groups < limits.maxGroups
  | _ => True

section Operations

variable {ord : MapOrder} {limits : Limits} {ctx : Ctx} {tenant : Bytes} {call : Call κ}
  {s t : TenantState κ} (hκ : PlainStrategies κ)

include hκ

omit [Runtime] in
theorem activeDefinitions_insert (records : GoMap (MemoryRecord κ)) (key : Bytes)
    (d : Definition κ) :
    activeDefinitions (records.insert key ⟨d, false⟩) =
      (activeDefinitions records).insert key d := by
  apply ExtTreeMap.ext_getElem?
  intro k
  rw [GoMap.lookup_insert, activeDefinitions, activeDefinitions,
    ExtTreeMap.getElem?_filterMap', ExtTreeMap.getElem?_filterMap', GoMap.lookup_insert]
  split_ifs
  · simp [hκ.cloneDefinition]
  · rfl

omit [Runtime] in
theorem activeDefinitions_live {record : MemoryRecord κ} (live : s.Live key record) :
    (activeDefinitions s.features)[key]? = some record.definition :=
  activeDefinitions_lookup.mpr ⟨record, live.1, live.2, hκ.cloneDefinition _⟩

/-- A live feature gets another lifecycle, version and groups. -/
theorem graph_write (hgraph : GraphOk limits (activeDefinitions s.features) s.groups)
    {record : MemoryRecord κ} (live : s.Live key record) (lifecycle : Lifecycle) (version : Nat)
    (names : List Bytes) {action : AuditAction} {actor : Bytes}
    (hlen : len names ≤ limits.maxGroups) (hnames : ∀ g ∈ names, KeyOk limits g)
    (hattached : ∀ g ∈ names, AttachmentOk s.groups limits record.definition g) :
    GraphOk limits (activeDefinitions (s.write limits key ⟨{ record.definition with
      lifecycle, version, groups := names }, false⟩ action actor).features) s.groups := by
  have hafter := hgraph.regroup (activeDefinitions_live hκ live) lifecycle version hlen hnames
    hattached
  rwa [← activeDefinitions_insert hκ] at hafter

theorem graph_writeGroup (hgraph : GraphOk limits (activeDefinitions s.features) s.groups)
    {groups} {cloned : GoMap (GroupDefinition κ)} {k : Bytes}
    {group} {f : GroupDefinition κ → GroupDefinition κ}
    (valid : cloneAndValidateGroups ord (activeDefinitions s.features) groups limits = .ok cloned)
    (hindex : ∀ key : Bytes, (groupIndex groups)[key]? =
      if k = key then some group else s.groups[key]?.map f) (hf : ∀ g, f g = g) :
    GraphOk limits (activeDefinitions s.features) (s.groups.insert k group) := by
  have heq : groupIndex groups = s.groups.insert k group := by
    apply ExtTreeMap.ext_getElem?
    intro key
    rw [hindex, GoMap.lookup_insert, funext hf, Option.map_id']
  have hok := ((groupsOk_iff hκ).mp (cloneAndValidateGroups_eq_ok_iff.mp valid).1).2
  exact { hgraph with groups_ok := heq ▸ hok }

/-- The graph stays in order, if an assignment fits. -/
theorem Effect.graph (h : Effect ord limits tenant call s t) (hcall : call.GraphOp) (hs : s.Keyed)
    (hgraph : GraphOk limits (activeDefinitions s.features) s.groups)
    (hfits : AssignFits limits s call) :
    GraphOk limits (activeDefinitions t.features) t.groups := by
  cases h with
  | activate live =>
    rename_i key actor record
    obtain ⟨hlen, hnames, hattached⟩ := hgraph.feature (activeDefinitions_live hκ live)
    exact graph_write hκ hgraph live .active (record.definition.version + 1)
      record.definition.groups hlen hnames hattached
  | deactivate live =>
    rename_i key actor record
    obtain ⟨hlen, hnames, hattached⟩ := hgraph.feature (activeDefinitions_live hκ live)
    exact graph_write hκ hgraph live .inactive (record.definition.version + 1)
      record.definition.groups hlen hnames hattached
  | createGroup absent valid =>
    rename_i group actor cloned
    rw [storedGroup_create hs absent valid]
    exact graph_writeGroup hκ hgraph valid
      (groupIndex_create hs { group with version := 1 } absent ord) hκ.cloneGroup
  | updateGroup found valid =>
    rename_i group current actor cloned
    rw [storedGroup_update hs found valid]
    refine graph_writeGroup hκ hgraph valid
      (groupIndex_update hs { group with version := current.version + 1 } found ord) fun g => ?_
    rw [hκ.cloneGroup, hκ.cloneGroup]
  | deleteGroup found unused childless =>
    have hkey := (hgraph.groups_ok.valid _ _ found).key.1
    rw [hs.groups _ _ found] at hkey
    refine hgraph.erase hkey childless fun key d hd => ?_
    obtain ⟨record, hrecord, hlive, rfl⟩ := activeDefinitions_lookup.mp hd
    exact unused key record ⟨hrecord, hlive⟩
  | alreadyAssigned | stageUpdate => exact hgraph
  | assignGroup found live fresh valid =>
    rename_i featureKey groupKey actor record cloned
    obtain ⟨hlen, hnames, hattached⟩ := hgraph.feature (activeDefinitions_live hκ live)
    obtain ⟨hok, -⟩ := cloneAndValidateGroups_eq_ok_iff.mp valid
    have hassigned := ((groupsOk_iff hκ).mp hok).2.attached featureKey _
      (GoMap.lookup_insert_self _ _ _)
    rw [groupIndex_eq hκ hs] at hassigned
    rw [hκ.cloneDefinition, live.2]
    refine graph_write hκ hgraph live record.definition.lifecycle (record.definition.version + 1)
      (record.definition.groups ++ [groupKey]) ?_ (fun g hg => ?_) fun g hg => ?_
    · have hroom := hfits record live fresh
      rw [len, List.length_append, List.length_singleton]
      rw [len] at hroom
      omega
    · rcases List.mem_append.mp hg with hg | hg
      · exact hnames g hg
      · obtain ⟨group, hgroup⟩ := GoMap.mem_iff.mp found
        rw [List.mem_singleton.mp hg, ← hs.groups _ _ hgroup]
        exact (hgraph.groups_ok.valid _ _ hgroup).key
    · exact (hassigned g hg).congr rfl
  | removeGroup live listed =>
    rename_i featureKey groupKey actor record
    obtain ⟨hlen, hnames, hattached⟩ := hgraph.feature (activeDefinitions_live hκ live)
    rw [hκ.cloneDefinition, live.2]
    refine graph_write hκ hgraph live record.definition.lifecycle (record.definition.version + 1)
      (record.definition.groups.filter (· ≠ groupKey)) ?_
      (fun g hg => hnames g (List.mem_of_mem_filter hg))
      fun g hg => hattached g (List.mem_of_mem_filter hg)
    exact (Int.ofNat_le.mpr (List.length_filter_le _ _)).trans hlen
  | cleanup features groups =>
    have hactive : activeDefinitions t.features = activeDefinitions s.features := by
      rw [features]
      split_ifs
      · apply ExtTreeMap.ext_getElem?
        intro key
        rw [activeDefinitions, activeDefinitions, ExtTreeMap.getElem?_filterMap',
          ExtTreeMap.getElem?_filterMap', ExtTreeMap.getElem?_filter']
        cases s.features[key]? with
        | none => rfl
        | some record => cases hd : record.deleted <;> simp [Option.filter, hd]
      · rfl
    rw [hactive, groups]
    exact hgraph
  | applied due => rcases due with ⟨_, rfl, _⟩ | ⟨_, rfl, _⟩ <;> exact hcall.elim
  | read reads => rcases reads with rfl | ⟨_, rfl⟩ | rfl | rfl <;> exact hcall.elim
  | _ => exact hcall.elim

/-- After an assignment the feature has one group more. -/
theorem Effect.assignFits (h : Effect ord limits tenant call s t)
    (hgraph : GraphOk limits (activeDefinitions t.features) t.groups) :
    AssignFits limits s call := by
  cases h with
  | alreadyAssigned live listed =>
    rename_i record
    intro record' live' fresh
    obtain rfl : record' = record := Option.some.inj (live'.1.symm.trans live.1)
    exact absurd listed fresh
  | assignGroup found live fresh valid =>
    rename_i featureKey groupKey actor record cloned
    intro record' live' _
    obtain rfl : record' = record := Option.some.inj (live'.1.symm.trans live.1)
    rw [hκ.cloneDefinition, live.2, TenantState.write, TenantState.recorded_features,
      activeDefinitions_insert hκ] at hgraph
    have hlen := (hgraph.valid featureKey _ (GoMap.lookup_insert_self _ _ _)).groups_len
    rw [len, List.length_append, List.length_singleton] at hlen
    rw [len]
    omega
  | applied due => rcases due with ⟨_, rfl, _⟩ | ⟨_, rfl, _⟩ <;> trivial
  | read reads => rcases reads with rfl | ⟨_, rfl⟩ | rfl | rfl <;> trivial
  | _ => trivial

omit hκ in
theorem snapshot_of_evaluable (h : t.Evaluable limits)
    (hinput : providerInput ctx tenant limits.maxKeyBytes = .ok ()) :
    ∃ built, (snapshot ord limits ctx tenant).run t = .ok built t := by
  obtain ⟨built, hbuilt⟩ := h ord ord
  refine ⟨built.bindTenant tenant, ?_⟩
  simp only [snapshot, run_bind_eq_ok, run_check_eq_ok, EStateM.run_get, EStateM.run_pure,
    EStateM.Result.ok.injEq]
  exact ⟨(), t, ⟨hinput, rfl⟩, t, t, ⟨rfl, rfl⟩, built, t, ⟨hbuilt, rfl⟩, rfl, rfl⟩

/-- From a tenant that is evaluable in every order of its maps, an operation on groups, lifecycles,
staged changes or retained data leads to another one, and `Snapshot` keeps succeeding, exactly when
the feature of an `AssignGroup` that is not in the group yet has room for one more. -/
theorem stays_evaluable_iff (hs : s.Keyed) (heval : s.Evaluable limits) (hcall : call.GraphOp)
    {response : Response κ} (h : (call.exec ord limits ctx tenant).run s = .ok response t) :
    (t.Evaluable limits ↔ AssignFits limits s call) ∧
      (AssignFits limits s call →
        ∀ ord' ctx', providerInput ctx' tenant limits.maxKeyBytes = .ok () →
        ∃ built, (snapshot ord' limits ctx' tenant).run t = .ok built t) := by
  have heffect := effect_of_exec h
  have hiff : t.Evaluable limits ↔ AssignFits limits s call := by
    rw [evaluable_iff hκ (heffect.keyed hs)]
    exact ⟨heffect.assignFits hκ, heffect.graph hκ hcall hs ((evaluable_iff hκ hs).mp heval)⟩
  exact ⟨hiff, fun hfits ord' ctx' hinput => snapshot_of_evaluable (hiff.mpr hfits) hinput⟩

end Operations

end Tenants

/-- Limits with room for `n` groups. -/
def groupLimits (n : Int) : Limits := { defaultLimits with maxGroups := n }

/-- A feature that names a group twice, and another group. -/
def listedTwice : List (Call Empty) :=
  [.createGroup (ownedGroup (str "a") [] 0) [], .createGroup (ownedGroup (str "b") [] 0) [],
    .create { onFor (str "f") [] with groups := [str "a", str "a"] } []]

/-- The events of `listedTwice`, with room for `n` groups. -/
def listsTwice [Runtime] (n : Int) : List (Event Empty) :=
  performAll (groupLimits n) (str "t") .sorted .background listedTwice .empty

/-- The feature is added to the other group. -/
def assignThird : Call Empty := .assignGroup (str "f") (str "b") 1 []

theorem exec_of_perform [CustomStrategy κ] [Runtime] (limits : Limits) (tenant : Bytes)
    (ord : MapOrder) (ctx : Ctx) (call : Call κ) (s : TenantState κ)
    (h : (Event.perform limits tenant ord ctx call s).Succeeds) :
    ∃ response, (call.exec ord limits ctx tenant).run s =
      .ok response (Event.perform limits tenant ord ctx call s).after := by
  obtain ⟨response, hok⟩ := h
  unfold Event.perform at hok ⊢
  split at hok
  · rename_i hrun
    exact ⟨_, hrun⟩
  · cases hok

/-- A tenant with one feature is evaluable if a search finds the feature and a snapshot can be built
in one order. -/
theorem evaluable_of_single [Runtime] {limits : Limits} {s : TenantState Empty} (hs : s.Keyed)
    (key : Bytes) (hkeys : (activeDefinitions s.features).keys = [key])
    (hsearch : (Dfs.visit (dependencyKeys (activeDefinitions s.features))
      (limits.maxEvaluationDepth + 1).toNat key .empty).toBool = true)
    (hacc : (newSnapshotWithGroups .sorted (definitionsFromRecords .sorted s.features)
      (groupsFromMap .sorted s.groups) limits).toBool = true) : s.Evaluable limits := by
  have hok : ∀ {ε α : Type} {x : Except ε α}, x.toBool = true → ∃ a, x = .ok a := by
    intro ε α x hx
    cases x with
    | ok a => exact ⟨a, rfl⟩
    | error e => cases hx
  refine evaluable_of_accepted plainStrategies_empty hs (.inr (.inr fun k hk => ?_)) (hok hacc)
  rw [← ExtTreeMap.mem_keys, hkeys, List.mem_singleton] at hk
  exact hk ▸ hok hsearch

theorem stays_evaluable_iff_three :
    letI := unaryRuntime
    let s := Run.lastState (listsTwice 3)
    s.Evaluable (groupLimits 3) ∧ ∃ response t,
      (assignThird.exec .sorted (groupLimits 3) .background (str "t")).run s = .ok response t ∧
        (t.Evaluable (groupLimits 3) ↔ AssignFits (groupLimits 3) s assignThird) := by
  let _ := unaryRuntime
  have run := run_of_calls (groupLimits 3) (str "t") .sorted .background listedTwice
    (by decide +kernel)
  have heval : (Run.lastState (listsTwice 3)).Evaluable (groupLimits 3) :=
    evaluable_of_single run.keyed_last (str "f") (by decide +kernel) (by decide +kernel)
      (by decide +kernel)
  obtain ⟨response, hrun⟩ := exec_of_perform (groupLimits 3) (str "t") .sorted .background
    assignThird (Run.lastState (listsTwice 3)) (by decide +kernel)
  have hcall : assignThird.GraphOp := trivial
  exact ⟨heval, response, _, hrun,
    (stays_evaluable_iff plainStrategies_empty run.keyed_last heval hcall hrun).1⟩

/-- With room for two groups the tenant is evaluable, the feature has no dependencies, the
assignment succeeds, and afterwards no snapshot of the tenant can be built. -/
theorem assigned_not_evaluable :
    letI := unaryRuntime
    let s := Run.lastState (listsTwice 2)
    s.Keyed ∧ s.Evaluable (groupLimits 2) ∧
      (activeDefinitions s.features).keys.map
        (dependencyKeys (activeDefinitions s.features)) = [[]] ∧
      ∃ response t,
        (assignThird.exec .sorted (groupLimits 2) .background (str "t")).run s = .ok response t ∧
          newSnapshotWithGroups .sorted (definitionsFromRecords .sorted t.features)
            (groupsFromMap .sorted t.groups) (groupLimits 2) =
              .error (.errorf "feature %q: groups exceed limit %d" [.q (str "f"), .d 2]) := by
  let _ := unaryRuntime
  have run := run_of_calls (groupLimits 2) (str "t") .sorted .background listedTwice
    (by decide +kernel)
  have heval : (Run.lastState (listsTwice 2)).Evaluable (groupLimits 2) :=
    evaluable_of_single run.keyed_last (str "f") (by decide +kernel) (by decide +kernel)
      (by decide +kernel)
  obtain ⟨response, hrun⟩ := exec_of_perform (groupLimits 2) (str "t") .sorted .background
    assignThird (Run.lastState (listsTwice 2)) (by decide +kernel)
  exact ⟨run.keyed_last, heval, by decide +kernel, response, _, hrun, by decide +kernel⟩

end FeatureFlags
