import FeatureFlags.Equiv.Runs

/-!
# The resources of a tenant

Every operation stores records and groups under their own keys (`Run.keyed`), so the maps of a
tenant are what `NewSnapshotWithGroups` builds from the lists of their values.

* `definitionIndex_lookup`, `groupIndex_lookup`: the maps of a snapshot of the tenant.
* `storedGroup_create`, `storedGroup_update`: the group that `CreateGroup` and `UpdateGroup` store.
-/

namespace FeatureFlags

open Go Lib

variable {κ : Type} {ord : MapOrder} {limits : Limits}

/-- The records and groups of a tenant are stored under their own keys. -/
structure TenantState.Keyed (s : TenantState κ) : Prop where
  features : s.features.KeyedBy fun record => record.definition.key
  groups : s.groups.KeyedBy GroupDefinition.key

/-! ### Snapshots of a tenant -/

section Indexes

variable [CustomStrategy κ] {records : GoMap (MemoryRecord κ)} {groups : GoMap (GroupDefinition κ)}

theorem activeDefinitions_lookup {key : Bytes} {d : Definition κ} :
    (activeDefinitions records)[key]? = some d ↔ ∃ record : MemoryRecord κ,
      records[key]? = some record ∧ record.deleted = false ∧
        cloneDefinition record.definition = d := by
  rw [activeDefinitions, Std.ExtTreeMap.getElem?_filterMap', Option.bind_eq_some_iff]
  refine exists_congr fun record => and_congr_right fun _ => ?_
  cases record.deleted <;> simp

theorem mem_definitionsFromRecords {ord : MapOrder} {d : Definition κ} :
    d ∈ definitionsFromRecords ord records ↔
      ∃ key : Bytes, (activeDefinitions records)[key]? = some d := by
  simp only [definitionsFromRecords, List.mem_map, List.mem_filter, Prod.exists, GoMap.mem_range,
    activeDefinitions_lookup, Bool.not_eq_true', and_assoc]

theorem mem_groupsFromMap {ord : MapOrder} {g : GroupDefinition κ} :
    g ∈ groupsFromMap ord groups ↔
      ∃ (key : Bytes) (group : GroupDefinition κ), groups[key]? = some group ∧
        cloneGroup group = g := by
  simp only [groupsFromMap, List.mem_map, Prod.exists, GoMap.mem_range]

theorem nodup_definitionsFromRecords (hm : records.KeyedBy fun record => record.definition.key)
    (ord : MapOrder) : ((definitionsFromRecords ord records).map Definition.key).Nodup := by
  rw [definitionsFromRecords, List.map_map]
  refine hm.nodup_values ?_ fun x hx => GoMap.mem_range.mp (List.mem_of_mem_filter hx)
  exact (GoMap.nodup_range ord records).sublist (List.filter_sublist.map Prod.fst)

theorem nodup_groupsFromMap (hm : groups.KeyedBy GroupDefinition.key) (ord : MapOrder) :
    ((groupsFromMap ord groups).map GroupDefinition.key).Nodup := by
  rw [groupsFromMap, List.map_map]
  exact hm.nodup_values (GoMap.nodup_range ord groups) fun x hx => GoMap.mem_range.mp hx

/-- The features of a snapshot of the tenant are those that are not deleted. -/
theorem definitionIndex_lookup (hm : records.KeyedBy fun record => record.definition.key)
    (ord : MapOrder) (key : Bytes) :
    (definitionIndex (definitionsFromRecords ord records))[key]? =
      (activeDefinitions records)[key]?.map cloneDefinition := by
  apply Option.ext
  intro d
  rw [definitionIndex, GoMap.lookup_index (nodup_definitionsFromRecords hm ord),
    Option.map_eq_some_iff]
  constructor
  · rintro ⟨e, he, rfl, rfl⟩
    obtain ⟨k, hk⟩ := mem_definitionsFromRecords.mp he
    obtain ⟨record, hrecord, -, rfl⟩ := activeDefinitions_lookup.mp hk
    have hkey : record.definition.key = k := hm k record hrecord
    exact ⟨_, by rw [← hkey] at hk; exact hk, rfl⟩
  · rintro ⟨e, he, rfl⟩
    refine ⟨e, mem_definitionsFromRecords.mpr ⟨key, he⟩, ?_, rfl⟩
    obtain ⟨record, hrecord, -, rfl⟩ := activeDefinitions_lookup.mp he
    exact hm key record hrecord

theorem groupIndex_lookup (hm : groups.KeyedBy GroupDefinition.key) (ord : MapOrder) (key : Bytes) :
    (groupIndex (groupsFromMap ord groups))[key]? =
      groups[key]?.map fun g => cloneGroup (cloneGroup g) := by
  apply Option.ext
  intro g
  rw [groupIndex, GoMap.lookup_index (nodup_groupsFromMap hm ord), Option.map_eq_some_iff]
  constructor
  · rintro ⟨h, hh, rfl, rfl⟩
    obtain ⟨k, group, hgroup, rfl⟩ := mem_groupsFromMap.mp hh
    have hkey : group.key = k := hm k group hgroup
    exact ⟨group, by rw [← hkey] at hgroup; exact hgroup, rfl⟩
  · rintro ⟨group, hgroup, rfl⟩
    exact ⟨_, mem_groupsFromMap.mpr ⟨key, group, hgroup, rfl⟩, hm key group hgroup, rfl⟩

end Indexes

/-! ### Stored groups -/

section StoredGroups

variable [CustomStrategy κ] {s : TenantState κ}

theorem groupIndex_create (hs : s.Keyed) (group : GroupDefinition κ) (absent : group.key ∉ s.groups)
    (ord : MapOrder) (key : Bytes) :
    (groupIndex ((s.groups.range ord).map Prod.snd ++ [group]))[key]? =
      if group.key = key then some (cloneGroup group) else s.groups[key]?.map cloneGroup := by
  have hvalues : ∀ g, g ∈ (s.groups.range ord).map Prod.snd ↔ s.groups[g.key]? = some g := by
    intro g
    simp only [List.mem_map, Prod.exists, GoMap.mem_range, exists_eq_right]
    constructor
    · rintro ⟨k, hk⟩
      rwa [hs.groups k g hk]
    · exact fun h => ⟨g.key, h⟩
  have nodup : (((s.groups.range ord).map Prod.snd ++ [group]).map GroupDefinition.key).Nodup := by
    rw [List.map_append, List.map_map]
    refine List.Nodup.append ?_ (List.nodup_singleton _) fun k hk hk' => absent ?_
    · exact hs.groups.nodup_values (GoMap.nodup_range ord s.groups) fun x hx =>
        GoMap.mem_range.mp hx
    · obtain ⟨⟨k', g⟩, hg, rfl⟩ := List.mem_map.mp hk
      rw [List.map_singleton, List.mem_singleton] at hk'
      rw [← hk']
      have hg' := hs.groups k' g (GoMap.mem_range.mp hg)
      exact GoMap.mem_of_lookup (hg' ▸ GoMap.mem_range.mp hg)
  apply Option.ext
  intro g
  rw [groupIndex, GoMap.lookup_index nodup]
  simp only [List.mem_append, List.mem_singleton, hvalues]
  split_ifs with hkey
  · subst hkey
    have hnone : s.groups[group.key]? = none := Std.ExtTreeMap.getElem?_eq_none absent
    constructor
    · rintro ⟨g', hg' | rfl, heq, rfl⟩
      · rw [heq, hnone] at hg'
        cases hg'
      · rfl
    · intro h
      exact ⟨group, .inr rfl, rfl, Option.some.inj h⟩
  · rw [Option.map_eq_some_iff]
    constructor
    · rintro ⟨g', hg' | rfl, rfl, rfl⟩
      · exact ⟨g', hg', rfl⟩
      · exact absurd rfl hkey
    · rintro ⟨g', hg', rfl⟩
      have hkey' := hs.groups key g' hg'
      exact ⟨g', .inl (by rwa [hkey']), hkey', rfl⟩

theorem groupIndex_update (hs : s.Keyed) (group : GroupDefinition κ) {current}
    (found : s.groups[group.key]? = some current) (ord : MapOrder) (key : Bytes) :
    (groupIndex ((groupsFromMap ord s.groups).map fun g =>
        if g.key = group.key then group else g))[key]? =
      if group.key = key then some (cloneGroup group)
      else s.groups[key]?.map fun g => cloneGroup (cloneGroup g) := by
  have hkeys : ((groupsFromMap ord s.groups).map fun g =>
      if g.key = group.key then group else g).map GroupDefinition.key =
        (groupsFromMap ord s.groups).map GroupDefinition.key := by
    rw [List.map_map]
    refine List.map_congr_left fun g _ => ?_
    simp only [Function.comp_apply]
    split_ifs with h
    · exact h.symm
    · rfl
  apply Option.ext
  intro g
  rw [groupIndex, GoMap.lookup_index (hkeys ▸ nodup_groupsFromMap hs.groups ord)]
  simp only [List.mem_map, exists_exists_and_eq_and, mem_groupsFromMap]
  split_ifs with hkey
  · subst hkey
    constructor
    · rintro ⟨_, ⟨k, g', hg', rfl⟩, heq, rfl⟩
      split_ifs at heq ⊢ with hsame
      · rfl
      · exact absurd heq hsame
    · intro h
      refine ⟨cloneGroup current, ⟨_, _, found, rfl⟩, ?_⟩
      have hcurrent : current.key = group.key := hs.groups _ _ found
      rw [if_pos (show (cloneGroup current).key = group.key from hcurrent)]
      exact ⟨rfl, Option.some.inj h⟩
  · rw [Option.map_eq_some_iff]
    constructor
    · rintro ⟨_, ⟨k, g', hg', rfl⟩, heq, rfl⟩
      split_ifs at heq ⊢ with hsame
      · exact absurd heq hkey
      · have hk : g'.key = k := hs.groups k g' hg'
        refine ⟨g', ?_, rfl⟩
        rw [← heq]
        exact hk.symm ▸ hg'
    · rintro ⟨g', hg', rfl⟩
      have hkey' : g'.key = key := hs.groups key g' hg'
      have hne : ¬ (cloneGroup g').key = group.key := fun h => hkey (h.symm.trans hkey')
      refine ⟨cloneGroup g', ⟨_, _, hg', rfl⟩, ?_⟩
      rw [if_neg hne]
      exact ⟨hkey', rfl⟩

variable [Runtime] {definitions : GoMap (Definition κ)} {cloned : GoMap (GroupDefinition κ)}

theorem storedGroup_create (hs : s.Keyed) {group : GroupDefinition κ}
    (absent : group.key ∉ s.groups)
    (valid : cloneAndValidateGroups ord definitions
      ((s.groups.range ord).map Prod.snd ++ [{ group with version := 1 }]) limits = .ok cloned) :
    storedGroup cloned group.key = cloneGroup { group with version := 1 } := by
  obtain ⟨-, rfl⟩ := cloneAndValidateGroups_eq_ok_iff.mp valid
  have hlookup := groupIndex_create hs { group with version := 1 } absent ord group.key
  rw [if_pos rfl] at hlookup
  rw [storedGroup, Std.ExtTreeMap.getD_eq_getD_getElem?, hlookup, Option.getD_some]

theorem storedGroup_update (hs : s.Keyed) {group current : GroupDefinition κ}
    (found : s.groups[group.key]? = some current)
    (valid : cloneAndValidateGroups ord definitions
      ((groupsFromMap ord s.groups).map fun g =>
        if g.key = group.key then { group with version := current.version + 1 } else g)
      limits = .ok cloned) :
    storedGroup cloned group.key = cloneGroup { group with version := current.version + 1 } := by
  obtain ⟨-, rfl⟩ := cloneAndValidateGroups_eq_ok_iff.mp valid
  have hlookup := groupIndex_update hs { group with version := current.version + 1 } found ord
    group.key
  rw [if_pos rfl] at hlookup
  rw [storedGroup, Std.ExtTreeMap.getD_eq_getD_getElem?, hlookup, Option.getD_some]

end StoredGroups

/-! ### Keys -/

section Keys

variable [CustomStrategy κ]

variable {P : Bytes → Definition κ → Prop} {Q : Bytes → GroupDefinition κ → Prop}

/-- The loop of `applyStagesLocked` stores what is staged. -/
theorem each_applyStages {tenant : Bytes} {staged} {ids : List Nat}
    {m m' : GoMap (MemoryRecord κ) × List (Definition κ)}
    (hstaged : ∀ (id : Nat) (change : StagedChange κ), staged[id]? = some change → ∀ version,
      P change.definition.key { cloneDefinition change.definition with version })
    (hm : m.1.Each fun key record => P key record.definition)
    (h : ids.foldlM (applyStageStep tenant staged) m = .ok m') :
    m'.1.Each fun key record => P key record.definition := by
  induction ids generalizing m with
  | nil =>
    cases h
    exact hm
  | cons id ids ih =>
    rw [List.foldlM_cons, bind_eq_ok] at h
    obtain ⟨m₁, hstep, hrest⟩ := h
    obtain ⟨change, record, hchange, -, -, -, hm₁⟩ := applyStageStep_eq_ok hstep
    refine ih ?_ hrest
    rw [hm₁]
    exact hm.insert (hstaged id change hchange _)

/-- What the definitions and the groups of a plan have in common. -/
def ImportPlan.Each (P : Bytes → Definition κ → Prop) (Q : Bytes → GroupDefinition κ → Prop)
    (plan : ImportPlan κ) : Prop :=
  plan.records.Each (fun key record => P key record.definition) ∧ plan.groups.Each Q

theorem ImportPlan.Each.planGroup {plan : ImportPlan κ} (h : plan.Each P Q)
    (policy : ConflictPolicy) {group : GroupDefinition κ}
    (hgroup : ∀ version, Q group.key (cloneGroup { group with version })) :
    (planGroup policy plan group).Each P Q := by
  unfold FeatureFlags.planGroup
  split
  · dsimp only
    split_ifs
    · exact ⟨h.1, h.2.insert (hgroup _)⟩
    · exact h
  · exact ⟨h.1, h.2.insert (hgroup _)⟩

theorem ImportPlan.Each.planFeature {plan : ImportPlan κ} (h : plan.Each P Q)
    (policy : ConflictPolicy) {definition : Definition κ}
    (hdefinition : ∀ version, P definition.key (cloneDefinition { definition with version })) :
    (planFeature policy plan definition).Each P Q := by
  unfold FeatureFlags.planFeature
  split
  · dsimp only
    split_ifs
    · exact ⟨h.1.insert (hdefinition _), h.2⟩
    · exact h
  · exact ⟨h.1.insert (hdefinition _), h.2⟩

variable {tenant : Bytes} {call : Call κ} {s t : TenantState κ}

/-- A plan holds what is stored and what the document brings. -/
theorem each_importPlan {definitions : List (Definition κ)} {groups : List (GroupDefinition κ)}
    (hs : s.features.Each fun key record => P key (cloneDefinition record.definition))
    (hs' : s.groups.Each fun key g => Q key (cloneGroup g)) (policy : ConflictPolicy)
    (dryRun : Bool)
    (hdefinitions : ∀ d ∈ definitions, ∀ version, P d.key (cloneDefinition { d with version }))
    (hgroups : ∀ g ∈ groups, ∀ version, Q g.key (cloneGroup { g with version })) :
    (importPlan policy dryRun definitions groups s).Each P Q := by
  unfold importPlan
  refine List.foldlRecOn definitions _ ?_
    fun plan h d hd => h.planFeature policy (hdefinitions d hd)
  refine List.foldlRecOn groups _ ?_ fun plan h g hg => h.planGroup policy (hgroups g hg)
  exact ⟨hs.map fun _ _ h => h, hs'.map fun _ _ h => h⟩

theorem keyedBy_applyStages (hs : s.Keyed) {staged} {ids : List Nat} {m}
    (h : ids.foldlM (applyStageStep tenant staged) (cloneMemoryRecords s.features, []) = .ok m) :
    m.1.KeyedBy fun record => record.definition.key :=
  each_applyStages (P := fun key d => d.key = key) (fun _ _ _ _ => rfl)
    (hs.features.map fun _ _ h => h) h

theorem keyed_importPlan (hs : s.Keyed) (policy : ConflictPolicy) (dryRun : Bool)
    (definitions : List (Definition κ)) (groups : List (GroupDefinition κ)) :
    (importPlan policy dryRun definitions groups s).Each (fun key d => d.key = key)
      (fun key g => g.key = key) :=
  each_importPlan (P := fun key d => d.key = key) (Q := fun key g => g.key = key) hs.features
    hs.groups policy dryRun (fun _ _ _ => rfl) fun _ _ _ => rfl

variable [Runtime]

omit [CustomStrategy κ] [Runtime] in
theorem TenantState.Keyed.write (hs : s.Keyed) {key actor : Bytes} {record : MemoryRecord κ}
    {action : AuditAction} (hkey : record.definition.key = key) :
    (s.write limits key record action actor).Keyed :=
  ⟨hs.features.insert hkey, hs.groups⟩

omit [CustomStrategy κ] [Runtime] in
theorem TenantState.Keyed.rewrite (hs : s.Keyed) {key actor : Bytes} {old record : MemoryRecord κ}
    {action : AuditAction} (found : s.features[key]? = some old)
    (hkey : record.definition.key = old.definition.key) :
    (s.write limits key record action actor).Keyed :=
  hs.write (hkey.trans (hs.features key old found))

/-- Every operation stores records and groups under their own keys. -/
theorem Effect.keyed (h : Effect ord limits tenant call s t) (hs : s.Keyed) : t.Keyed := by
  cases h with
  | create | update => exact hs.write rfl
  | activate live | deactivate live | delete live | assignGroup found live | removeGroup live =>
      exact hs.rewrite live.1 rfl
  | restore found => exact hs.rewrite found rfl
  | createGroup absent valid =>
    refine ⟨hs.features, hs.groups.insert ?_⟩
    rw [storedGroup_create hs absent valid]
    rfl
  | updateGroup found valid =>
    refine ⟨hs.features, hs.groups.insert ?_⟩
    rw [storedGroup_update hs found valid]
    rfl
  | deleteGroup => exact ⟨hs.features, hs.groups.erase _⟩
  | applied due replaced valid =>
    refine ⟨?_, ?_⟩
    · rw [TenantState.struck_features]
      exact keyedBy_applyStages hs replaced
    · rw [TenantState.struck_groups]
      exact hs.groups
  | imported =>
    refine ⟨?_, ?_⟩
    · rw [TenantState.imported_features]
      exact (keyed_importPlan hs _ _ _ _).1
    · rw [TenantState.imported_groups]
      exact (keyed_importPlan hs _ _ _ _).2
  | cleanup features groups =>
    refine ⟨hs.features.of_lookup fun key record hrecord => ?_, groups ▸ hs.groups⟩
    exact lookup_of_kept (features ▸ hrecord)
  | _ => exact ⟨hs.features, hs.groups⟩

theorem Event.Returns.keyed {e : Event κ} (h : e.Returns limits tenant) (hs : e.before.Keyed) :
    e.after.Keyed := by
  rcases h.effect with ⟨-, heffect⟩ | hsame
  · exact heffect.keyed hs
  · rw [hsame]
    exact hs

/-- In every state of a run the records and groups are stored under their own keys. -/
theorem Run.keyed {events : List (Event κ)} (run : Run limits tenant events s) {k : Nat}
    (hk : k ≤ events.length) : (stateAt events s k).Keyed :=
  run.always TenantState.Keyed ⟨.empty, .empty⟩ (fun _ he => (run.returns_of_mem he).keyed) hk

theorem Run.keyed_last {events : List (Event κ)} (run : Run limits tenant events s) : s.Keyed :=
  stateAt_length events s ▸ run.keyed le_rfl

end Keys

end FeatureFlags
