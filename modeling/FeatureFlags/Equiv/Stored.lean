import FeatureFlags.Equiv.Evaluable
import FeatureFlags.Equiv.Import

/-!
# Stored resources are valid

What is stored for a tenant was checked when it was written.  Only the number of groups of a feature
is not checked by every operation that changes it.

* `Definition.Checked`: valid apart from the number of groups.
* `Run.checked`: what every state of a run keeps.
-/

namespace FeatureFlags

open Go Lib

variable {κ : Type} {limits : Limits}

/-- Every value of the map has the property. -/
def GoMap.All {V : Type} (P : V → Prop) (m : GoMap V) : Prop := m.Each fun _ v => P v

/-! ### Definitions -/

section Definitions

variable [CustomStrategy κ] [Runtime] {d : Definition κ}

/-- The definition is valid, apart from the number of its groups. -/
structure Definition.Checked (limits : Limits) (d : Definition κ) : Prop where
  valid : ({ d with groups := [] } : Definition κ).Valid limits
  groups : ∀ g ∈ d.groups, KeyOk limits g

theorem Definition.Valid.checked (h : d.Valid limits) : d.Checked limits where
  valid := by
    have hlen : len ([] : List Bytes) ≤ limits.maxGroups := by
      refine Int.le_trans ?_ h.groups_len
      exact Int.natCast_nonneg d.groups.length
    exact h.update d.lifecycle d.version hlen nofun
  groups := h.groups

theorem Definition.Checked.valid_of_len (h : d.Checked limits)
    (hlen : len d.groups ≤ limits.maxGroups) : d.Valid limits :=
  h.valid.update d.lifecycle d.version hlen h.groups

/-- The lifecycle, the version and the groups of a checked definition can be changed. -/
theorem Definition.Checked.update (h : d.Checked limits) (lifecycle : Lifecycle) (version : Nat)
    {names : List Bytes} (hnames : ∀ g ∈ names, KeyOk limits g) :
    Definition.Checked limits { d with lifecycle, version, groups := names } where
  valid := h.valid.update lifecycle version h.valid.groups_len h.valid.groups
  groups := hnames

end Definitions

/-! ### Tenants -/

section Tenants

variable [CustomStrategy κ] [Runtime] {ord : MapOrder} {tenant : Bytes}

/-- What is stored for a tenant is valid, apart from the number of groups of a feature. -/
structure TenantState.Checked (limits : Limits) (s : TenantState κ) : Prop where
  features : GoMap.All (fun record : MemoryRecord κ => record.definition.Checked limits) s.features
  groups : GoMap.All (fun g : GroupDefinition κ => g.Valid limits) s.groups
  staged : ∀ (id : Nat) (change : StagedChange κ), s.staged[id]? = some change →
    change.definition.Valid limits

theorem TenantState.checked_empty : TenantState.Checked limits (.empty : TenantState κ) where
  features := .empty
  groups := .empty
  staged id change hchange := by
    rw [TenantState.empty, Std.ExtTreeMap.getElem?_empty] at hchange
    cases hchange

/-! #### What operations write -/

variable {definitions : List (Definition κ)} {groups : List (GroupDefinition κ)}

omit [Runtime] in
/-- A plan holds what is stored and what the document brings. -/
theorem all_importPlan (hκ : PlainStrategies κ) {P : Definition κ → Prop}
    {Q : GroupDefinition κ → Prop} {s : TenantState κ}
    (hs : GoMap.All (fun record => P record.definition) s.features) (hs' : GoMap.All Q s.groups)
    (policy : ConflictPolicy) (dryRun : Bool)
    (hdefinitions : ∀ d ∈ definitions, ∀ version, P { d with version })
    (hgroups : ∀ g ∈ groups, ∀ version, Q { g with version }) :
    (importPlan policy dryRun definitions groups s).Each (fun _ => P) fun _ => Q := by
  refine each_importPlan ?_ ?_ policy dryRun ?_ ?_
  · simpa only [hκ.cloneDefinition, GoMap.All] using hs
  · simpa only [hκ.cloneGroup, GoMap.All] using hs'
  · simpa only [hκ.cloneDefinition] using hdefinitions
  · simpa only [hκ.cloneGroup] using hgroups

theorem GroupDefinition.Valid.withVersion {g : GroupDefinition κ} (h : g.Valid limits)
    (version : Nat) : ({ g with version } : GroupDefinition κ).Valid limits :=
  ⟨h.key, h.parent, h.owner, h.metadata_len, h.tags_len, h.strategies_len, h.metadata, h.tags,
    h.strategies⟩

theorem Definition.Valid.withVersion {d : Definition κ} (h : d.Valid limits) (version : Nat) :
    ({ d with version } : Definition κ).Valid limits :=
  h.update d.lifecycle version h.groups_len h.groups

theorem import_valid {data : Bytes} (read : Import ord data limits = .ok (definitions, groups)) :
    (∀ d ∈ definitions, d.Valid limits) ∧ ∀ g ∈ groups, g.Valid limits := by
  simp only [Import, bind_eq_ok, pure_eq_ok, Prod.mk.injEq] at read
  obtain ⟨-, -, -, -, -, -, _, -, _, -, _, hsnapshot, rfl, rfl⟩ := read
  obtain ⟨hok, -, -⟩ := newSnapshotWithGroups_eq_ok_iff.mp hsnapshot
  exact ⟨hok.valid, hok.groups_ok.valid⟩

theorem checked_importPlan (hκ : PlainStrategies κ) {s : TenantState κ} (hs : s.Checked limits)
    (policy : ConflictPolicy) (dryRun : Bool) {data : Bytes}
    (read : Import ord data limits = .ok (definitions, groups)) :
    (importPlan policy dryRun definitions groups s).Each (fun _ d => d.Checked limits)
      fun _ g => g.Valid limits := by
  obtain ⟨hdefinitions, hgroups⟩ := import_valid read
  refine all_importPlan hκ hs.features hs.groups policy dryRun (fun d hd version => ?_) ?_
  · exact ((hdefinitions d hd).withVersion version).checked
  · exact fun g hg version => (hgroups g hg).withVersion version

variable {call : Call κ} {s t : TenantState κ}

/-- Writing a checked record keeps what is stored valid. -/
theorem TenantState.Checked.write (hs : s.Checked limits) {key actor : Bytes}
    {record : MemoryRecord κ} {action : AuditAction} (h : record.definition.Checked limits) :
    (s.write limits key record action actor).Checked limits :=
  ⟨hs.features.insert h, hs.groups, hs.staged⟩

/-- The lifecycle and the version of a stored record can be changed. -/
theorem TenantState.Checked.touch (hs : s.Checked limits) {key actor : Bytes}
    {record : MemoryRecord κ} {action : AuditAction} (found : s.features[key]? = some record)
    (lifecycle : Lifecycle) (version : Nat) (deleted : Bool) :
    (s.write limits key ⟨{ record.definition with lifecycle, version }, deleted⟩ action
      actor).Checked limits := by
  have hrecord := hs.features key record found
  exact hs.write (hrecord.update lifecycle version hrecord.groups)

variable (hκ : PlainStrategies κ)
include hκ

/-- Every operation keeps what is stored valid. -/
theorem Effect.checked (h : Effect ord limits tenant call s t)
    (hkeyed : s.Keyed) (hs : s.Checked limits) : t.Checked limits := by
  have hwritten {d : Definition κ} (valid : d.validate ord limits = .ok ()) (version : Nat) :
      (cloneDefinition { d with version }).Checked limits := by
    have hd := (Definition.validate_eq_ok_iff.mp valid).checked
    rw [hκ.cloneDefinition]
    exact hd.update d.lifecycle version hd.groups
  cases h with
  | create valid => exact hs.write (hwritten valid 1)
  | update valid live => exact hs.write (hwritten valid _)
  | activate live => exact hs.touch live.1 .active _ _
  | deactivate live => exact hs.touch live.1 .inactive _ _
  | delete live => exact hs.touch live.1 .archived _ _
  | restore found => exact hs.touch found .inactive _ _
  | createGroup absent valid =>
    refine ⟨hs.features, hs.groups.insert ?_, hs.staged⟩
    rw [storedGroup_create hkeyed absent valid, hκ.cloneGroup]
    obtain ⟨hok, -⟩ := cloneAndValidateGroups_eq_ok_iff.mp valid
    exact hok.valid _ (List.mem_append_right _ List.mem_cons_self)
  | @updateGroup group current _ _ _ found valid =>
    refine ⟨hs.features, hs.groups.insert ?_, hs.staged⟩
    rw [storedGroup_update hkeyed found valid, hκ.cloneGroup]
    obtain ⟨hok, -⟩ := cloneAndValidateGroups_eq_ok_iff.mp valid
    -- the replacement takes the place of the group in the list
    have hcurrent : current ∈ groupsFromMap ord s.groups :=
      mem_groupsFromMap.mpr ⟨group.key, current, found, hκ.cloneGroup current⟩
    have hkey : current.key = group.key := hkeyed.groups group.key current found
    refine hok.valid _ (List.mem_map.mpr ⟨current, hcurrent, ?_⟩)
    rw [if_pos hkey]
  | deleteGroup => exact ⟨hs.features, hs.groups.erase _, hs.staged⟩
  | @assignGroup featureKey groupKey _ _ record _ found live =>
    have hrecord := hs.features featureKey record live.1
    have hkey : KeyOk limits groupKey := by
      obtain ⟨g, hg⟩ := GoMap.mem_iff.mp found
      rw [← hkeyed.groups groupKey g hg]
      exact (hs.groups groupKey g hg).key
    refine hs.write ?_
    rw [hκ.cloneDefinition]
    refine hrecord.update _ _ (List.forall_mem_append.mpr ⟨hrecord.groups, ?_⟩)
    exact List.forall_mem_singleton.mpr hkey
  | @removeGroup featureKey _ _ _ record live =>
    have hrecord := hs.features featureKey record live.1
    refine hs.write ?_
    rw [hκ.cloneDefinition]
    exact hrecord.update _ _ fun g hg => hrecord.groups g (List.mem_of_mem_filter hg)
  | stageUpdate valid live =>
    refine ⟨hs.features, hs.groups, fun id change hchange => ?_⟩
    rw [stage_lookup] at hchange
    split_ifs at hchange
    · cases hchange
      rw [hκ.cloneDefinition]
      exact Definition.validate_eq_ok_iff.mp valid
    · exact hs.staged id change hchange
  | applied due replaced valid =>
    refine ⟨?_, ?_, fun id change hchange => ?_⟩
    · rw [TenantState.struck_features]
      refine each_applyStages (P := fun _ d => d.Checked limits) (fun id change hchange _ => ?_)
        (hs.features.map fun _ record h => ?_) replaced
      · have hvalid := (hs.staged id change hchange).checked
        rw [hκ.cloneDefinition]
        exact hvalid.update _ _ hvalid.groups
      · show (cloneDefinition record.definition).Checked limits
        rwa [hκ.cloneDefinition]
    · rw [TenantState.struck_groups]
      exact hs.groups
    · have hbefore := struck_staged hchange
      exact hs.staged id change hbefore
  | @imported _ _ _ policy _ _ _ _ applied resolved read =>
    have hplan := checked_importPlan hκ hs policy false read
    refine ⟨?_, ?_, ?_⟩
    · rw [TenantState.imported_features]
      exact hplan.1
    · rw [TenantState.imported_groups]
      exact hplan.2
    · rw [TenantState.imported_staged]
      exact hs.staged
  | cleanup features groups _ staged =>
    refine ⟨hs.features.of_lookup fun key record hrecord => ?_, groups ▸ hs.groups,
      fun id change hchange => hs.staged id change (staged id change hchange)⟩
    exact lookup_of_kept (features ▸ hrecord)
  | _ => exact hs

/-- In every state of a run what is stored is valid. -/
theorem Run.checked {events : List (Event κ)} (run : Run limits tenant events s) {k : Nat}
    (hk : k ≤ events.length) : (stateAt events s k).Checked limits := by
  suffices h : (stateAt events s k).Keyed ∧ (stateAt events s k).Checked limits from h.2
  refine run.always (fun s => s.Keyed ∧ s.Checked limits)
    ⟨⟨.empty, .empty⟩, TenantState.checked_empty⟩ (fun e he hbefore => ?_) hk
  have hreturns := run.returns_of_mem he
  refine ⟨hreturns.keyed hbefore.1, ?_⟩
  rcases hreturns.effect with ⟨-, heffect⟩ | hsame
  · exact heffect.checked hκ hbefore.1 hbefore.2
  · rw [hsame]
    exact hbefore.2

theorem Run.checked_last {events : List (Event κ)}
    (run : Run limits tenant events s) : s.Checked limits :=
  stateAt_length events s ▸ run.checked hκ le_rfl

end Tenants

end FeatureFlags
