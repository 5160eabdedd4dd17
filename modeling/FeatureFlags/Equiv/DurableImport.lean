import FeatureFlags.Equiv.Durable
import FeatureFlags.Equiv.Persisted
import FeatureFlags.Equiv.Verdict

/-!
# Imports into persisted tenants

`DurableProvider.ImportDocument` imports into what comes back of the persisted tenant.  A dry run
returns what `MemoryProvider.ImportDocument` returns on the tenant itself.  When an import that is
to be applied is refused, the durable provider returns the error without the report.

* `importPlan_resembles`: the plans for a tenant and for what comes back of it.
* `Determinate`: the error of a refused snapshot does not depend on what is lost.
* `durable_import_reports`: when the two providers return the same.  A tenant whose persisted form
  is refused is one that no import gets to.
-/

namespace FeatureFlags

open Go Lib
open Std (ExtTreeMap)

/-! ### What comes back resembles -/

section Resembles

variable {κ : Type}

theorem Definition.Resembles.refl (d : Definition κ) : d.Resembles d :=
  ⟨rfl, rfl, rfl, fun _ => Iff.rfl, .refl _⟩

theorem Definition.resembles_imported (d : Definition κ) : d.Resembles d.imported where
  key := rfl
  version := rfl
  groups := rfl
  variants name := by
    show name ∈ d.variants ↔ name ∈ d.variants.map fun _ => Value.compacted
    exact ExtTreeMap.mem_map.symm
  dependencies := (List.perm_insertionSort _ _).symm

/-- The two definitions resemble each other, down to the order of their dependencies. -/
def Definition.ResemblesInOrder (d e : Definition κ) : Prop :=
  d.Resembles e ∧ d.dependencies = e.dependencies

/-- The dependencies are in the order in which they are persisted. -/
def Definition.DependenciesSorted (d : Definition κ) : Prop :=
  d.dependencies.Pairwise fun a b => a.isLE b = true

theorem Definition.DependenciesSorted.resemblesInOrder {d : Definition κ}
    (h : d.DependenciesSorted) : d.ResemblesInOrder d.imported :=
  ⟨d.resembles_imported, (List.Pairwise.insertionSort_eq h).symm⟩

variable [CustomStrategy κ]

theorem GroupDefinition.Resembles.refl (g : GroupDefinition κ) : g.Resembles g :=
  ⟨rfl, rfl, rfl, List.forall₂_same.mpr fun _ _ => ⟨rfl, rfl⟩⟩

theorem GroupDefinition.resembles_imported (g : GroupDefinition κ) : g.Resembles g.imported where
  key := rfl
  parent := rfl
  version := rfl
  strategies := by
    have hcompacted (s : Strategy κ) : s.compacted.strategyName = s.strategyName ∧
        s.compacted.targetVariant = s.targetVariant := by
      cases s <;> exact ⟨rfl, rfl⟩
    show List.Forall₂ _ g.strategies ((g.strategies.map Strategy.compacted).map Strategy.normal)
    rw [List.map_map, List.forall₂_map_right_iff, List.forall₂_same]
    intro s _
    have hnormal := s.compacted.reordered_normal
    exact ⟨hnormal.strategyName_eq.trans (hcompacted s).1,
      hnormal.targetVariant_eq.trans (hcompacted s).2⟩

end Resembles

/-! ### Plans -/

section Plans

variable {κ : Type} {S : Definition κ → Definition κ → Prop}

structure MemoryRecord.Related (S : Definition κ → Definition κ → Prop)
    (r r' : MemoryRecord κ) : Prop where
  definition : S r.definition r'.definition
  deleted : r.deleted = r'.deleted

theorem rel_insert {V : Type} {R : V → V → Prop} {m m' : GoMap V}
    (h : ∀ k : Bytes, Option.Rel R m[k]? m'[k]?) (key : Bytes) {v : V} (hv : R v v) (k : Bytes) :
    Option.Rel R (m.insert key v)[k]? (m'.insert key v)[k]? := by
  rw [GoMap.lookup_insert, GoMap.lookup_insert]
  split_ifs
  · exact .some hv
  · exact h k

variable [CustomStrategy κ]

theorem activeDefinitions_related (hκ : PlainStrategies κ)
    {records records' : GoMap (MemoryRecord κ)}
    (h : ∀ k : Bytes, Option.Rel (MemoryRecord.Related S) records[k]? records'[k]?) (k : Bytes) :
    Option.Rel S (activeDefinitions records)[k]? (activeDefinitions records')[k]? := by
  have hk := h k
  rw [activeDefinitions, activeDefinitions, ExtTreeMap.getElem?_filterMap',
    ExtTreeMap.getElem?_filterMap']
  generalize records[k]? = x at hk ⊢
  generalize records'[k]? = y at hk ⊢
  cases hk with
  | none => exact .none
  | some hr =>
    simp only [Option.bind_some, hr.deleted, hκ.cloneDefinition]
    split_ifs
    · exact .none
    · exact .some hr.definition

/-- Two plans with the same report and entries, for related resources. -/
structure ImportPlan.Resembles (S : Definition κ → Definition κ → Prop)
    (plan plan' : ImportPlan κ) : Prop where
  report : plan.report = plan'.report
  audits : plan.audits = plan'.audits
  records : ∀ k : Bytes, Option.Rel (MemoryRecord.Related S) plan.records[k]? plan'.records[k]?
  groups : ∀ k : Bytes, Option.Rel GroupDefinition.Resembles plan.groups[k]? plan'.groups[k]?

theorem ImportPlan.Resembles.planGroup {plan plan' : ImportPlan κ} (h : plan.Resembles S plan')
    (policy : ConflictPolicy) (group : GroupDefinition κ) :
    (planGroup policy plan group).Resembles S (planGroup policy plan' group) := by
  have hkey := h.groups group.key
  unfold FeatureFlags.planGroup
  generalize plan.groups[group.key]? = x at hkey ⊢
  generalize plan'.groups[group.key]? = y at hkey ⊢
  cases hkey with
  | none =>
    exact ⟨by simp only [h.report], by simp only [h.audits], h.records,
      rel_insert h.groups _ (.refl _)⟩
  | some hcurrent =>
    simp only [hcurrent.version, h.report, h.audits]
    split_ifs
    · exact ⟨rfl, rfl, h.records, rel_insert h.groups _ (.refl _)⟩
    · exact ⟨rfl, rfl, h.records, h.groups⟩

variable (hrefl : ∀ d, S d d) (hS : ∀ d e, S d e → d.Resembles e)
include hrefl hS

theorem ImportPlan.Resembles.planFeature {plan plan' : ImportPlan κ} (h : plan.Resembles S plan')
    (policy : ConflictPolicy) (definition : Definition κ) :
    (planFeature policy plan definition).Resembles S (planFeature policy plan' definition) := by
  have hkey := h.records definition.key
  unfold FeatureFlags.planFeature
  generalize plan.records[definition.key]? = x at hkey ⊢
  generalize plan'.records[definition.key]? = y at hkey ⊢
  cases hkey with
  | none =>
    exact ⟨by simp only [h.report], by simp only [h.audits],
      rel_insert h.records _ ⟨hrefl _, rfl⟩, h.groups⟩
  | some hcurrent =>
    simp only [(hS _ _ hcurrent.definition).version, h.report, h.audits]
    split_ifs
    · exact ⟨rfl, rfl, rel_insert h.records _ ⟨hrefl _, rfl⟩, h.groups⟩
    · exact ⟨rfl, rfl, h.records, h.groups⟩

/-- The plans for a tenant and for what comes back of it. -/
theorem importPlan_resembles [Runtime] {limits : Limits} {s s₁ : TenantState κ}
    (hκ : PlainStrategies κ) (h : s.Restores limits s₁)
    (hs : GoMap.All (fun record : MemoryRecord κ => S record.definition record.definition.imported)
      s.features) (policy : ConflictPolicy) (dryRun : Bool)
    (definitions : List (Definition κ)) (groups : List (GroupDefinition κ)) :
    (importPlan policy dryRun definitions groups s).Resembles S
      (importPlan policy dryRun definitions groups s₁) := by
  have hstart : (importStart dryRun s).Resembles S (importStart dryRun s₁) := by
    rw [importStart, importStart, (hκ.cloneMaps s).1, (hκ.cloneMaps s).2, (hκ.cloneMaps s₁).1,
      (hκ.cloneMaps s₁).2, h.features, h.groups]
    refine ⟨rfl, rfl, fun k => ?_, fun k => ?_⟩
    · rw [ExtTreeMap.getElem?_map]
      cases hr : s.features[k]? with
      | none => exact .none
      | some r => exact .some ⟨hs k r hr, rfl⟩
    · rw [ExtTreeMap.getElem?_map]
      cases s.groups[k]? with
      | none => exact .none
      | some g => exact .some g.resembles_imported
  refine List.foldl_rel (List.foldl_rel hstart ?_) ?_
  · exact fun g _ plan plan' hplan => hplan.planGroup policy g
  · exact fun d _ plan plan' hplan => hplan.planFeature hrefl hS policy d

end Plans

/-! ### Merged tenants -/

section Merged

variable {κ : Type} [CustomStrategy κ] [Runtime] {limits : Limits} {ord : MapOrder}
  {s s₁ : TenantState κ} {policy : ConflictPolicy} {definitions : List (Definition κ)}
  {groups : List (GroupDefinition κ)}

theorem TenantState.Restores.valid_left (h : s.Restores limits s₁) (hs : s.Checked limits) :
    GoMap.All (fun record : MemoryRecord κ => record.definition.Valid limits) s.features := by
  intro key record hrecord
  have hrestored : s₁.features[key]? = some record.restored := by
    rw [h.features, ExtTreeMap.getElem?_map, hrecord]
    rfl
  have hlen := (h.valid key _ hrestored).groups_len
  exact (hs.features key record hrecord).valid_of_len hlen

theorem TenantState.Restores.keyed (h : s.Restores limits s₁) (hs : s.Keyed) : s₁.Keyed where
  features := by
    rw [h.features]
    exact hs.features.map fun _ _ h => h
  groups := by
    rw [h.groups]
    exact hs.groups.map fun _ _ h => h

theorem partsValid_merged (hκ : PlainStrategies κ) (hkeyed : s.Keyed)
    (hfeatures : GoMap.All (fun record : MemoryRecord κ => record.definition.Valid limits)
      s.features) (hgroups : GoMap.All (fun g : GroupDefinition κ => g.Valid limits) s.groups)
    {data : Bytes} (read : Import ord data limits = .ok (definitions, groups)) :
    (s.merged policy definitions groups).PartsValid limits := by
  obtain ⟨hdefinitions', hgroups'⟩ := import_valid read
  obtain ⟨hplan, hplan'⟩ := all_importPlan hκ hfeatures hgroups policy false
    (fun d hd version => (hdefinitions' d hd).withVersion version)
    fun g hg version => (hgroups' g hg).withVersion version
  have hkeyed' := keyed_importPlan hkeyed policy false definitions groups
  refine ⟨⟨hkeyed'.1, hkeyed'.2⟩, fun key d hd => ?_, hplan'⟩
  obtain ⟨record, hrecord, -, rfl⟩ := activeDefinitions_lookup.mp hd
  rw [hκ.cloneDefinition]
  exact hplan key record hrecord

/-- The first error that is met in the merged tenant does not depend on what is lost when the tenant
is persisted: there is none, or maps with the same keys are visited in the same order, and the
dependencies are in the order in which they are persisted. -/
structure Determinate (ord : MapOrder) (limits : Limits) (s : TenantState κ)
    (policy : ConflictPolicy) (definitions : List (Definition κ))
    (groups : List (GroupDefinition κ)) : Prop where
  dependencies :
    DependenciesOk limits (activeDefinitions (s.merged policy definitions groups).features) ∨
      ord.ByKeys ∧
        GoMap.All (fun record : MemoryRecord κ => record.definition.DependenciesSorted) s.features
  groups : GroupGraphOk limits (activeDefinitions (s.merged policy definitions groups).features)
    (s.merged policy definitions groups).groups ∨ ord.ByKeys

/-- The error of `NewSnapshotWithGroups` on the merged tenant. -/
def mergeError (ord : MapOrder) (limits : Limits) (policy : ConflictPolicy)
    (definitions : List (Definition κ)) (groups : List (GroupDefinition κ)) (s : TenantState κ) :
    Option GoError :=
  errorOf (newSnapshotWithGroups ord (definitionsFromRecords ord (s.merged policy definitions
    groups).features) (groupsFromMap ord (s.merged policy definitions groups).groups) limits)

/-- The tenant and what comes back of it are refused with the same error. -/
theorem mergeError_eq (hκ : PlainStrategies κ) (hkeyed : s.Keyed)
    (hchecked : s.Checked limits) (h : s.Restores limits s₁) {data : Bytes}
    (read : Import ord data limits = .ok (definitions, groups))
    (hdet : Determinate ord limits s policy definitions groups) :
    mergeError ord limits policy definitions groups s =
      mergeError ord limits policy definitions groups s₁ := by
  have hvalid : (s.merged policy definitions groups).PartsValid limits :=
    partsValid_merged hκ hkeyed (h.valid_left hchecked) hchecked.groups read
  have hvalid₁ : (s₁.merged policy definitions groups).PartsValid limits :=
    partsValid_merged hκ (h.keyed hkeyed) h.valid h.groups_valid read
  have hplan := importPlan_resembles Definition.Resembles.refl (fun _ _ hde => hde) hκ h
    (fun _ record _ => record.definition.resembles_imported) policy false definitions groups
  refine verdict_eq_of_resembles hκ hvalid hvalid₁ (activeDefinitions_related hκ hplan.records)
    hplan.groups ?_ hdet.groups
  refine hdet.dependencies.imp_right fun ⟨hord, hsorted⟩ => ⟨hord, ?_⟩
  have hordered := importPlan_resembles (S := Definition.ResemblesInOrder)
    (fun d => ⟨.refl d, rfl⟩) (fun _ _ hde => hde.1) hκ h
    (fun key record hrecord => (hsorted key record hrecord).resemblesInOrder) policy false
    definitions groups
  exact rel_imp (activeDefinitions_related hκ hordered.records) fun _ _ hde => hde.2

end Merged

/-! ### Conflicts -/

section Conflicts

variable {κ : Type} {policy : ConflictPolicy} {definitions : List (Definition κ)}
  {groups : List (GroupDefinition κ)}

/-- A loop that notes a conflict for each key that is taken, over distinct keys. -/
theorem foldl_conflicts_eq_nil {α : Type} (step : ImportPlan κ → α → ImportPlan κ)
    (key : α → Bytes) (taken : ImportPlan κ → Bytes → Prop)
    (hstep : ∀ plan a, (step plan a).report.conflicts = [] ↔
      plan.report.conflicts = [] ∧ ¬ taken plan (key a))
    (hframe : ∀ plan a k, ¬ key a = k → (taken (step plan a) k ↔ taken plan k)) {l : List α}
    (nodup : (l.map key).Nodup) (plan : ImportPlan κ) :
    (l.foldl step plan).report.conflicts = [] ↔
      plan.report.conflicts = [] ∧ ∀ a ∈ l, ¬ taken plan (key a) := by
  induction l generalizing plan with
  | nil => simp
  | cons a l ih =>
    obtain ⟨hfresh, hrest⟩ := List.nodup_cons.mp nodup
    have hframed : (∀ b ∈ l, ¬ taken (step plan a) (key b)) ↔ ∀ b ∈ l, ¬ taken plan (key b) := by
      refine forall₂_congr fun b hb => not_congr (hframe plan a (key b) fun heq => hfresh ?_)
      exact heq ▸ List.mem_map_of_mem hb
    rw [List.foldl_cons, ih hrest, hstep, hframed, List.forall_mem_cons, and_assoc]

variable [CustomStrategy κ]

theorem planFeature_conflicts_eq_nil (plan : ImportPlan κ) (d : Definition κ) :
    (planFeature policy plan d).report.conflicts = [] ↔
      plan.report.conflicts = [] ∧ ¬ d.key ∈ plan.records := by
  rw [ExtTreeMap.mem_iff_isSome_getElem?]
  unfold planFeature
  cases plan.records[d.key]? with
  | none => simp
  | some current =>
    dsimp only
    split_ifs <;> simp [ImportReport.conflict]

theorem planGroup_conflicts_eq_nil (plan : ImportPlan κ) (g : GroupDefinition κ) :
    (planGroup policy plan g).report.conflicts = [] ↔
      plan.report.conflicts = [] ∧ ¬ g.key ∈ plan.groups := by
  rw [ExtTreeMap.mem_iff_isSome_getElem?]
  unfold planGroup
  cases plan.groups[g.key]? with
  | none => simp
  | some current =>
    dsimp only
    split_ifs <;> simp [ImportReport.conflict]

/-- The document names a resource that the tenant has. -/
def Conflicting (definitions : List (Definition κ)) (groups : List (GroupDefinition κ))
    (s : TenantState κ) : Prop :=
  (∃ d ∈ definitions, d.key ∈ s.features) ∨ ∃ g ∈ groups, g.key ∈ s.groups

/-- A plan has a conflict iff the document names a resource that the tenant has. -/
theorem importPlan_conflicts (hκ : PlainStrategies κ) (dryRun : Bool) (s : TenantState κ)
    (nodup : (definitions.map Definition.key).Nodup)
    (nodup' : (groups.map GroupDefinition.key).Nodup) :
    (importPlan policy dryRun definitions groups s).report.conflicts ≠ [] ↔
      Conflicting definitions groups s := by
  have hfeatures : (importPlan policy dryRun definitions groups s).report.conflicts = [] ↔
      (groups.foldl (planGroup policy) (importStart dryRun s)).report.conflicts = [] ∧
        ∀ d ∈ definitions, ¬ d.key ∈ s.features := by
    have hstart : (importStart dryRun s).records = s.features := (hκ.cloneMaps s).1
    have hfold := foldl_conflicts_eq_nil (planFeature policy) Definition.key
      (fun plan k => k ∈ plan.records) planFeature_conflicts_eq_nil ?_ nodup
      (groups.foldl (planGroup policy) (importStart dryRun s))
    · rwa [foldl_planGroup_records, hstart] at hfold
    · intro plan d k hne
      rw [ExtTreeMap.mem_iff_isSome_getElem?, ExtTreeMap.mem_iff_isSome_getElem?,
        planFeature_framed plan d _ k rfl hne]
  have hgroups : (groups.foldl (planGroup policy) (importStart dryRun s)).report.conflicts = [] ↔
      ∀ g ∈ groups, ¬ g.key ∈ s.groups := by
    have hstart : (importStart dryRun s).groups = s.groups := (hκ.cloneMaps s).2
    have hfold := foldl_conflicts_eq_nil (planGroup policy) GroupDefinition.key
      (fun plan k => k ∈ plan.groups) planGroup_conflicts_eq_nil ?_ nodup' (importStart dryRun s)
    · rw [hstart] at hfold
      exact hfold.trans (and_iff_right rfl)
    · intro plan g k hne
      rw [ExtTreeMap.mem_iff_isSome_getElem?, ExtTreeMap.mem_iff_isSome_getElem?,
        planGroup_framed plan g _ k rfl hne]
  rw [Ne, hfeatures, hgroups, Conflicting]
  simp only [not_and_or, not_forall, not_not, exists_prop]
  exact or_comm

end Conflicts

/-! ### What an import returns -/

section Returns

/-- The report of a call that has none, `ImportReport{}`. -/
def ImportReport.zero : ImportReport := ⟨false, 0, 0, 0, 0, 0, []⟩

/-- The two results of `ImportDocument`; `none` if it panics. -/
abbrev Returned := Option (ImportReport × Option GoError)

def Failure.returned : Failure → Returned
  | .error e => some (.zero, some e)
  | .refused report e => some (report, some e)
  | .panic => none

variable {κ : Type}

/-- What `MemoryProvider.ImportDocument` returns. -/
def memoryReturns : EStateM.Result Failure (TenantState κ) ImportReport → Returned
  | .ok report _ => some (report, none)
  | .error failure _ => failure.returned

/-- What `DurableProvider.ImportDocument` returns. -/
def durableReturns : Except Failure (Response κ) → Returned
  | .ok (.imported report) => some (report, none)
  | .ok _ => none
  | .error failure => failure.returned

/-- The same report, and errors of the same class. -/
def SameReturn : Returned → Returned → Prop :=
  Option.Rel fun x y => x.1 = y.1 ∧
    Option.Rel (fun e e' => ∀ target, GoError.is target e = GoError.is target e') x.2 y.2

theorem SameReturn.refl (x : Returned) : SameReturn x x := by
  cases x with
  | none => exact .none
  | some x =>
    refine .some ⟨rfl, ?_⟩
    cases x.2 with
    | none => exact .none
    | some e => exact .some fun _ => rfl

/-- `durableMutate` returns an error without the result. -/
def withoutReport : Returned → Returned :=
  Option.map fun x => if x.2.isSome then (.zero, x.2) else x

variable [CustomStrategy κ] [Runtime] {ord : MapOrder} {limits : Limits} {ctx : Ctx}
  {tenant data actor : Bytes} {options : ImportOptions} {s s₁ : TenantState κ}
  {policy : ConflictPolicy} {definitions : List (Definition κ)} {groups : List (GroupDefinition κ)}

/-- What `ImportDocument` checks before it looks at the tenant. -/
def importAdmission (ord : MapOrder) (limits : Limits) (ctx : Ctx) (tenant data : Bytes)
    (options : ImportOptions) :
    Except GoError (ConflictPolicy × List (Definition κ) × List (GroupDefinition κ)) := do
  providerInput ctx tenant limits.maxKeyBytes
  let policy ← options.policy
  let (definitions, groups) ← Import ord data limits
  match ctx.laterErr with
  | some e => .error e
  | none => return (policy, definitions, groups)

/-- The error of `ImportDocument` after its checks. -/
def importError (ord : MapOrder) (limits : Limits) (options : ImportOptions)
    (policy : ConflictPolicy) (definitions : List (Definition κ))
    (groups : List (GroupDefinition κ)) (s : TenantState κ) : Option GoError :=
  if policy = .fail ∧
      (importPlan policy options.dryRun definitions groups s).report.conflicts ≠ [] ∧
      ¬ options.dryRun then
    some (.sentinel .importConflict)
  else mergeError ord limits policy definitions groups s

theorem importAdmission_eq_ok :
    importAdmission ord limits ctx tenant data options = .ok (policy, definitions, groups) ↔
      providerInput ctx tenant limits.maxKeyBytes = .ok () ∧ options.policy = .ok policy ∧
        Import ord data limits = .ok (definitions, groups) ∧ ctx.laterErr = none := by
  simp only [importAdmission, bind_eq_ok]
  constructor
  · rintro ⟨_, hinput, policy', hpolicy, ⟨definitions', groups'⟩, hread, h⟩
    split at h
    · cases h
    · next hlater =>
      cases h
      exact ⟨hinput, hpolicy, hread, hlater⟩
  · rintro ⟨hinput, hpolicy, hread, hlater⟩
    refine ⟨(), hinput, policy, hpolicy, (definitions, groups), hread, ?_⟩
    rw [hlater]
    rfl

/-- What `ImportDocument` returns after its checks.  It panics where it cannot record what it has
done. -/
theorem memoryReturns_of_admitted (actor : Bytes) (s : TenantState κ)
    (h : importAdmission ord limits ctx tenant data options = .ok (policy, definitions, groups)) :
    let returned := memoryReturns
      ((importDocument ord limits ctx tenant data options actor).run s)
    let error := importError ord limits options policy definitions groups s
    returned = some ((importPlan policy options.dryRun definitions groups s).report, error) ∨
      returned = none ∧ error = none ∧ limits.maxAuditEntries < 0 := by
  obtain ⟨hinput, hpolicy, hread, hlater⟩ := importAdmission_eq_ok.mp h
  have hmerged : s.merged policy definitions groups = { s with
      features := (importPlan policy options.dryRun definitions groups s).records
      groups := (importPlan policy options.dryRun definitions groups s).groups } := by
    rw [importPlan_reported policy false options.dryRun]
    rfl
  dsimp only
  rw [importError, mergeError, hmerged]
  generalize hreturned : memoryReturns
    ((importDocument ord limits ctx tenant data options actor).run s) = returned
  unfold importDocument at hreturned
  rw [hinput, hpolicy, hread, hlater] at hreturned
  change memoryReturns (EStateM.run (if _ then _ else _) s) = returned at hreturned
  split at hreturned
  · rename_i hconflict
    rw [if_pos hconflict]
    exact .inl hreturned.symm
  · rename_i hconflict
    rw [if_neg hconflict]
    split at hreturned <;> rename_i hsnapshot <;> rw [hsnapshot]
    · exact .inl hreturned.symm
    · split at hreturned
      · exact .inl hreturned.symm
      · rw [EStateM.run_bind, EStateM.run_set] at hreturned
        dsimp only at hreturned
        rw [EStateM.run_bind] at hreturned
        split at hreturned <;> rename_i hrecord
        · exact .inl hreturned.symm
        · rename_i failure t
          cases failsOnly_recordImported _ failure t hrecord
          have hmax : ¬ 0 ≤ limits.maxAuditEntries := by
            intro hmax
            obtain ⟨t', hok⟩ := exists_run_recordImported.mpr (.inr hmax)
            cases hok.symm.trans hrecord
          exact .inr ⟨hreturned.symm, rfl, not_le.mp hmax⟩

/-- What `ImportDocument` returns, if the limit on audit entries is not negative. -/
theorem memoryReturns_import (hmax : 0 ≤ limits.maxAuditEntries) :
    memoryReturns ((importDocument ord limits ctx tenant data options actor).run s) =
      match importAdmission ord limits ctx tenant data options with
      | .error e => some (.zero, some e)
      | .ok (policy, definitions, groups) =>
        some ((importPlan policy options.dryRun definitions groups s).report,
          importError ord limits options policy definitions groups s) := by
  cases hadmission : importAdmission (κ := κ) ord limits ctx tenant data options with
  | error e =>
    revert hadmission
    unfold importAdmission importDocument
    cases providerInput ctx tenant limits.maxKeyBytes with
    | error e' => rintro ⟨⟩; rfl
    | ok u =>
    cases options.policy with
    | error e' => rintro ⟨⟩; rfl
    | ok policy =>
    cases Import (κ := κ) ord data limits with
    | error e' => rintro ⟨⟩; rfl
    | ok read =>
    cases ctx.laterErr with
    | some e' => rintro ⟨⟩; rfl
    | none => rintro ⟨⟩
  | ok admitted =>
    exact (memoryReturns_of_admitted actor s hadmission).resolve_right fun h =>
      absurd hmax (not_le.mpr h.2.2)

end Returns

/-! ### Calls without interference -/

section Calls

variable {κ : Type} [CustomStrategy κ] [Runtime]

/-- A call on a backend that no other call uses, after `n` steps. -/
def alone (tenant : Bytes) (o : DurableOutside) : Nat → Versioned Bytes → DurableThread κ →
    DurableThread κ
  | 0, _, thread => thread
  | n + 1, backend, thread =>
    match (durableProgram tenant).step o backend thread with
    | some (backend', thread', _) => alone tenant o n backend' thread'
    | none => thread

/-- `DurableProvider.ImportDocument` on a backend that no other call uses; it takes three steps. -/
def durableImport (tenant : Bytes) (o : DurableOutside) (limits : Limits) (data : Bytes)
    (options : ImportOptions) (actor : Bytes) (backend : Versioned Bytes) :
    Progress (DurableStage κ) (Except Failure (Response κ)) :=
  (alone tenant o 3 backend
    ((durableProgram tenant).start ⟨limits, .importDocument data options actor⟩)).progress

variable {tenant data actor : Bytes} {o : DurableOutside} {limits : Limits}
  {options : ImportOptions} {backend : Versioned Bytes} {s₁ : TenantState κ}

theorem run_exec_importDocument {ord : MapOrder} {ctx : Ctx} {s : TenantState κ} :
    ((Call.importDocument data options actor : Call κ).exec ord limits ctx tenant).run s =
      match (importDocument ord limits ctx tenant data options actor).run s with
      | .ok report t => .ok (.imported report) t
      | .error failure t => .error failure t := by
  show (Response.imported <$> importDocument ord limits ctx tenant data options actor).run s = _
  rw [EStateM.run_map]
  cases (importDocument ord limits ctx tenant data options actor).run s with
  | ok report t | error failure t => rfl

omit [CustomStrategy κ] [Runtime] in
theorem mutates_importDocument : DurableRequest.mutates
    (⟨limits, .importDocument data options actor⟩ : DurableRequest κ) = !options.dryRun := by
  cases hdry : options.dryRun <;> simp [DurableRequest.mutates, hdry]

/-- `load`, when the backend's `Load` succeeds. -/
theorem load_eq {document : Bytes} (stored : backend.document = some document)
    (admitted : providerInput ⟨o.err, none⟩ tenant limits.maxKeyBytes = .ok ())
    (loads : o.loadErr = none) :
    load (κ := κ) tenant o limits backend.document =
      unmarshalTenantState o.loadOrd limits document := by
  simp only [load, admitted, loads, stored, tenantState]
  rfl

/-- A document that is refused ends the call. -/
theorem durableImport_of_refused {e : GoError} (data actor : Bytes) (options : ImportOptions)
    (admitted : providerInput ⟨o.err, none⟩ tenant limits.maxKeyBytes = .ok ())
    (refused : load (κ := κ) tenant o limits backend.document = .error e)
    (retries : 0 ≤ limits.maxStorageRetries) :
    ∃ result : Except Failure (Response κ),
      durableImport tenant o limits data options actor backend = .finished result ∧
      durableReturns result = some (.zero, some e) := by
  cases hdry : options.dryRun with
  | true =>
    simp only [durableImport, durableProgram, mutates_importDocument, hdry, alone, durableStep,
      refused]
    exact ⟨_, rfl, rfl⟩
  | false =>
    simp only [durableImport, durableProgram, mutates_importDocument, hdry, Bool.not_false, alone,
      durableStep, admitted, nextAttempt, DurableRequest.afterLoad, refused, Nat.cast_zero, retries,
      if_true]
    exact ⟨_, rfl, rfl⟩

theorem durableImport_of_dryRun (actor : Bytes) (hdry : options.dryRun = true)
    (loads : load tenant o limits backend.document = .ok s₁) :
    ∃ result : Except Failure (Response κ),
      durableImport tenant o limits data options actor backend = .finished result ∧
      durableReturns result = memoryReturns
        ((importDocument o.ord limits o.ctx tenant data options actor).run s₁) := by
  simp only [durableImport, durableProgram, mutates_importDocument, hdry, alone, durableStep, loads,
    run_exec_importDocument]
  cases (importDocument o.ord limits o.ctx tenant data options actor).run s₁ with
  | ok report t | error failure t => exact ⟨_, rfl, rfl⟩

/-- An import that is applied returns what the import into the loaded tenant returns, but for the
report of a failed one. -/
theorem durableImport_of_apply (happly : options.dryRun = false)
    (loads : load tenant o limits backend.document = .ok s₁) (swaps : o.swapErr = none)
    (retries : 0 ≤ limits.maxStorageRetries)
    (encodable : ∀ report s₂, (importDocument o.ord limits o.ctx tenant data options actor).run s₁ =
      .ok report s₂ → ∃ data', marshalTenantState limits s₂ = .ok data') :
    ∃ result : Except Failure (Response κ),
      durableImport tenant o limits data options actor backend = .finished result ∧
      durableReturns result = withoutReport (memoryReturns
        ((importDocument o.ord limits o.ctx tenant data options actor).run s₁)) := by
  have hinput : providerInput ⟨o.err, none⟩ tenant limits.maxKeyBytes = .ok () := by
    simp only [load, bind_eq_ok] at loads
    obtain ⟨u, hinput, -⟩ := loads
    exact hinput
  simp only [durableImport, durableProgram, mutates_importDocument, happly, Bool.not_false, alone,
    durableStep, hinput, nextAttempt, DurableRequest.afterLoad, loads, run_exec_importDocument,
    Nat.cast_zero, retries, if_true]
  cases hrun : (importDocument o.ord limits o.ctx tenant data options actor).run s₁ with
  | ok report t =>
    obtain ⟨data', hdata'⟩ := encodable report t hrun
    have hswap : backend.swap backend.revision data' = some ⟨some data', backend.revision + 1⟩ :=
      Versioned.swap_of_eq rfl
    simp only [hdata', swaps, hswap]
    exact ⟨_, rfl, rfl⟩
  | error failure t =>
    cases failure with
    | error e | refused report e | panic => exact ⟨_, rfl, rfl⟩

end Calls

/-! ### The two providers -/

section Providers

variable {κ : Type} {ord : MapOrder} {limits : Limits} {ctx : Ctx}
  {tenant data actor : Bytes} {options : ImportOptions} {s s₁ : TenantState κ}
  {policy : ConflictPolicy} {definitions : List (Definition κ)} {groups : List (GroupDefinition κ)}

theorem report_of_withoutReport {x : Returned} {report : ImportReport} {e : GoError}
    (h : SameReturn (withoutReport x) (some (report, some e))) : report = .zero := by
  cases x with
  | none => cases h
  | some x =>
    obtain ⟨report', error⟩ := x
    cases error with
    | none =>
      cases h with
      | some h => cases h.2
    | some e' =>
      cases h with
      | some h => exact h.1.symm

theorem eq_of_sameReturn_zero {x : Returned} {e : GoError}
    (h : SameReturn (some (.zero, some e)) x) : ∃ error, x = some (.zero, error) := by
  cases h with
  | some h =>
    rename_i y
    exact ⟨y.2, congrArg some (Prod.ext h.1.symm rfl)⟩

variable [CustomStrategy κ]

/-- Only an empty document leaves an empty report. -/
theorem importPlan_report_ne_zero (policy : ConflictPolicy) (dryRun : Bool) (s : TenantState κ)
    (h : ¬ (definitions = [] ∧ groups = [])) :
    (importPlan policy dryRun definitions groups s).report ≠ .zero := by
  intro hzero
  have htotal := (counted_importPlan policy dryRun definitions groups s).total
  rw [hzero] at htotal
  have hlen : groups.length + definitions.length = 0 := htotal.symm
  exact h ⟨List.length_eq_zero_iff.mp (by omega), List.length_eq_zero_iff.mp (by omega)⟩

variable [Runtime]

/-- The import passes its checks, and its document is not empty. -/
def ImportReads (ord : MapOrder) (limits : Limits) (ctx : Ctx) (tenant data : Bytes)
    (options : ImportOptions) (policy : ConflictPolicy) (definitions : List (Definition κ))
    (groups : List (GroupDefinition κ)) : Prop :=
  providerInput ctx tenant limits.maxKeyBytes = .ok () ∧
    options.policy = .ok policy ∧
    Import ord data limits = .ok (definitions, groups) ∧
    ctx.laterErr = none ∧
    ¬ (definitions = [] ∧ groups = [])

/-- The import refuses what it has read, and it has something to report: its document is not empty,
and it names a resource that the tenant has, under the policy `fail`, or the merged tenant is not a
snapshot. -/
def RefusedWithReport (ord : MapOrder) (limits : Limits) (ctx : Ctx) (tenant data : Bytes)
    (options : ImportOptions) (s : TenantState κ) : Prop :=
  ∃ (policy : ConflictPolicy) (definitions : List (Definition κ))
      (groups : List (GroupDefinition κ)),
    ImportReads ord limits ctx tenant data options policy definitions groups ∧
      (policy = .fail ∧ Conflicting definitions groups s ∨
        ¬ Accepted ord (definitionsFromRecords ord (s.merged policy definitions groups).features)
          (groupsFromMap ord (s.merged policy definitions groups).groups) limits)

section

variable (hκ : PlainStrategies κ)
include hκ

theorem importError_ne_none (happly : options.dryRun = false)
    (read : Import ord data limits = .ok (definitions, groups)) :
    importError ord limits options policy definitions groups s ≠ none ↔
      policy = .fail ∧ Conflicting definitions groups s ∨
        ¬ Accepted ord (definitionsFromRecords ord (s.merged policy definitions groups).features)
          (groupsFromMap ord (s.merged policy definitions groups).groups) limits := by
  have hconflicts : (importPlan policy options.dryRun definitions groups s).report.conflicts ≠ [] ↔
      Conflicting definitions groups s :=
    importPlan_conflicts hκ options.dryRun s (import_nodup read) (import_groups_nodup read)
  have haccepted : mergeError ord limits policy definitions groups s ≠ none ↔
      ¬ Accepted ord (definitionsFromRecords ord (s.merged policy definitions groups).features)
        (groupsFromMap ord (s.merged policy definitions groups).groups) limits :=
    not_congr errorOf_eq_none
  rw [importError]
  split_ifs with h
  · exact iff_of_true (Option.some_ne_none _) (.inl ⟨h.1, hconflicts.mp h.2.1⟩)
  · rw [haccepted]
    refine ⟨.inr, fun h' => h'.resolve_left fun ⟨hfail, hconflicting⟩ => h ⟨hfail, ?_, ?_⟩⟩
    · exact hconflicts.mpr hconflicting
    · rw [happly]
      exact Bool.false_ne_true

omit hκ in
/-- What an import that has read something returns has a report. -/
theorem ImportReads.report_ne_zero
    (h : ImportReads ord limits ctx tenant data options policy definitions groups)
    {report : ImportReport} {error : Option GoError}
    (hreturns : memoryReturns ((importDocument ord limits ctx tenant data options actor).run s) =
      some (report, error)) : report ≠ .zero := by
  obtain ⟨hinput, hpolicy, hread, hlater, hne⟩ := h
  rcases memoryReturns_of_admitted actor s
    (importAdmission_eq_ok.mpr ⟨hinput, hpolicy, hread, hlater⟩) with hsome | ⟨hnone, -⟩
  · cases hsome.symm.trans hreturns
    exact importPlan_report_ne_zero policy options.dryRun s hne
  · cases hnone.symm.trans hreturns

/-- The import into a tenant and into what comes back of it return the same. -/
theorem memoryReturns_restored (hkeyed : s.Keyed)
    (hchecked : s.Checked limits) (h : s.Restores limits s₁) (hmax : 0 ≤ limits.maxAuditEntries)
    (hdet : ∀ policy definitions groups, options.policy = .ok policy → Import ord data limits = .ok
      (definitions, groups) → Determinate ord limits s policy definitions groups) :
    memoryReturns ((importDocument ord limits ctx tenant data options actor).run s₁) =
      memoryReturns ((importDocument ord limits ctx tenant data options actor).run s) := by
  rw [memoryReturns_import hmax, memoryReturns_import hmax]
  cases hadmission : importAdmission (κ := κ) ord limits ctx tenant data options with
  | error e => rfl
  | ok admitted =>
    obtain ⟨policy, definitions, groups⟩ := admitted
    obtain ⟨-, hpolicy, hread, -⟩ := importAdmission_eq_ok.mp hadmission
    have hplan := importPlan_resembles Definition.Resembles.refl (fun _ _ hde => hde) hκ h
      (fun _ record _ => record.definition.resembles_imported) policy options.dryRun definitions
      groups
    have herror := mergeError_eq hκ hkeyed hchecked h hread
      (hdet policy definitions groups hpolicy hread)
    simp only [importError, hplan.report, herror]

theorem RefusedWithReport.returned (actor : Bytes) (happly : options.dryRun = false)
    (h : RefusedWithReport ord limits ctx tenant data options s) :
    ∃ report e, memoryReturns
      ((importDocument ord limits ctx tenant data options actor).run s) = some (report, some e) ∧
      report ≠ .zero := by
  obtain ⟨policy, definitions, groups, hreads, hrefused⟩ := h
  obtain ⟨hinput, hpolicy, hread, hlater, hne⟩ := hreads
  have herror := (importError_ne_none hκ happly hread).mpr hrefused
  obtain ⟨e, he⟩ := Option.ne_none_iff_exists'.mp herror
  have hreturns := (memoryReturns_of_admitted actor s
    (importAdmission_eq_ok.mpr ⟨hinput, hpolicy, hread, hlater⟩)).resolve_right
      fun h => herror h.2.1
  exact ⟨_, e, he ▸ hreturns, importPlan_report_ne_zero policy options.dryRun s hne⟩

/-- Nothing is lost if the import is not refused, or has nothing to report. -/
theorem withoutReport_eq_self (hmax : 0 ≤ limits.maxAuditEntries)
    (happly : options.dryRun = false)
    (h : ¬ RefusedWithReport ord limits ctx tenant data options s) :
    withoutReport (memoryReturns
      ((importDocument ord limits ctx tenant data options actor).run s)) =
      memoryReturns ((importDocument ord limits ctx tenant data options actor).run s) := by
  rw [memoryReturns_import hmax]
  cases hadmission : importAdmission (κ := κ) ord limits ctx tenant data options with
  | error e => rfl
  | ok admitted =>
    obtain ⟨policy, definitions, groups⟩ := admitted
    obtain ⟨hinput, hpolicy, hread, hlater⟩ := importAdmission_eq_ok.mp hadmission
    dsimp only
    by_cases herror : importError ord limits options policy definitions groups s = none
    · rw [herror]
      rfl
    · -- the document is empty, so the report that is lost is the one that is returned
      have hempty : definitions = [] ∧ groups = [] := by
        by_contra hne
        exact h ⟨policy, definitions, groups, ⟨hinput, hpolicy, hread, hlater, hne⟩,
          (importError_ne_none hκ happly hread).mp herror⟩
      obtain ⟨e, he⟩ := Option.ne_none_iff_exists'.mp herror
      rw [he, happly]
      obtain ⟨rfl, rfl⟩ := hempty
      rfl

end

/-- Without interference, an import into the persisted form of a tenant returns what the import into
the tenant returns only if it is a dry run or has no report to return with an error, and if the
persisted form is accepted or there is nothing to report at all.  A persisted form that is accepted
is enough if moreover the strings of the tenant are valid UTF-8 and the error does not depend on
what is lost. -/
theorem durable_import_reports (hκ : PlainStrategies κ) {events : List (Event κ)}
    (run : Run limits tenant events s) {o : DurableOutside} {backend : Versioned Bytes}
    {document : Bytes} (persisted : marshalTenantState limits s = .ok document)
    (stored : backend.document = some document)
    (admitted : providerInput ⟨o.err, none⟩ tenant limits.maxKeyBytes = .ok ())
    (loads : o.loadErr = none) (swaps : o.swapErr = none)
    (retries : 0 ≤ limits.maxStorageRetries) (data : Bytes) (options : ImportOptions)
    (actor : Bytes)
    (encodable : ∀ (s₁ s₂ : TenantState κ) report,
      unmarshalTenantState o.loadOrd limits document = .ok s₁ →
      (importDocument o.ord limits o.ctx tenant data options actor).run s₁ = .ok report s₂ →
      ∃ data', marshalTenantState limits s₂ = .ok data') :
    let memory := memoryReturns
      ((importDocument o.ord limits o.ctx tenant data options actor).run s)
    let reported := options.dryRun = true ∨
      ¬ RefusedWithReport o.ord limits o.ctx tenant data options s
    let restored := ∃ s₁ : TenantState κ, unmarshalTenantState o.loadOrd limits document = .ok s₁
    let reads := ∃ (policy : ConflictPolicy) (definitions : List (Definition κ))
      (groups : List (GroupDefinition κ)),
      ImportReads o.ord limits o.ctx tenant data options policy definitions groups
    ∃ result : Except Failure (Response κ),
      durableImport tenant o limits data options actor backend = .finished result ∧
      (SameReturn (durableReturns result) memory → reported ∧ (restored ∨ ¬ reads)) ∧
      (restored →
        Utf8 s.strings →
        (∀ policy definitions groups, options.policy = .ok policy →
          Import o.ord data limits = .ok (definitions, groups) →
          Determinate o.ord limits s policy definitions groups) →
        reported → SameReturn (durableReturns result) memory) := by
  intro memory reported restored reads
  have hload := load_eq (κ := κ) stored admitted loads
  cases hunmarshal : unmarshalTenantState (κ := κ) o.loadOrd limits document with
  | error e =>
    obtain ⟨result, hresult, hreturns⟩ := durableImport_of_refused data actor options admitted
      (hload.trans hunmarshal) retries
    have hnot : ¬ restored := by
      rintro ⟨s₁, hs₁⟩
      rw [hunmarshal] at hs₁
      cases hs₁
    refine ⟨result, hresult, fun hsame => ?_, fun hrestored => absurd hrestored hnot⟩
    -- the report that comes with the error is empty
    have hreads : ¬ reads := by
      rintro ⟨policy, definitions, groups, hreads⟩
      rw [hreturns] at hsame
      obtain ⟨error, hmemory⟩ := eq_of_sameReturn_zero hsame
      exact hreads.report_ne_zero hmemory rfl
    refine ⟨.inr fun hrefused => hreads ?_, .inr hreads⟩
    obtain ⟨policy, definitions, groups, hread, -⟩ := hrefused
    exact ⟨policy, definitions, groups, hread⟩
  | ok s₁ =>
    have hmax := maxAuditEntries_of_unmarshal hunmarshal
    have hrestored (hutf8 : Utf8 s.strings)
        (hdet : ∀ policy definitions groups, options.policy = .ok policy →
          Import o.ord data limits = .ok (definitions, groups) →
          Determinate o.ord limits s policy definitions groups) :
        memoryReturns ((importDocument o.ord limits o.ctx tenant data options actor).run s₁) =
          memory :=
      memoryReturns_restored hκ run.keyed_last (run.checked_last hκ)
        (restores_of_unmarshal hκ run.keyed_last (run.checked_last hκ) hutf8 persisted hunmarshal)
        hmax hdet
    have hloads := hload.trans hunmarshal
    cases hdry : options.dryRun with
    | true =>
      obtain ⟨result, hresult, hreturns⟩ := durableImport_of_dryRun actor hdry hloads
      refine ⟨result, hresult, fun _ => ⟨.inl hdry, .inl ⟨s₁, hunmarshal⟩⟩, ?_⟩
      intro _ hutf8 hdet _
      rw [hreturns, hrestored hutf8 hdet]
      exact .refl memory
    | false =>
      obtain ⟨result, hresult, hreturns⟩ := durableImport_of_apply hdry hloads swaps retries
        fun report s₂ => encodable s₁ s₂ report hunmarshal
      refine ⟨result, hresult, fun hsame => ⟨.inr fun hrefused => ?_, .inl ⟨s₁, hunmarshal⟩⟩, ?_⟩
      · obtain ⟨report, e, hmemory, hne⟩ := hrefused.returned hκ actor hdry
        rw [hreturns, show memory = _ from hmemory] at hsame
        exact hne (report_of_withoutReport hsame)
      · intro _ hutf8 hdet hreported
        have hrefused := hreported.resolve_left (by rw [hdry]; exact Bool.false_ne_true)
        rw [hreturns, hrestored hutf8 hdet, withoutReport_eq_self hκ hmax hdry hrefused]
        exact .refl memory

end Providers

def storedOne [Runtime] : TenantState Empty :=
  Run.lastState (performed [.create (onFor (str "a") []) []])

def storedDocument [Runtime] : Bytes :=
  match marshalTenantState defaultLimits storedOne with
  | .ok document => document
  | .error _ => []

/-- What comes back of the tenant. -/
def loadedOne [Runtime] : TenantState Empty :=
  match load (str "t") undisturbed defaultLimits (some storedDocument) with
  | .ok s => s
  | .error _ => .empty

/-- The import of a feature, unless it exists, into the tenant. -/
def importNew [Runtime] (key : Bytes) : Op Empty ImportReport :=
  importDocument .sorted defaultLimits .background (str "t") (exported (onFor key []))
    ⟨false, .fail⟩ []

/-- The import of a feature, unless it exists, into the document of the tenant. -/
def durableImportNew [Runtime] (key : Bytes) :
    Progress (DurableStage Empty) (Except Failure (Response Empty)) :=
  durableImport (str "t") undisturbed defaultLimits (exported (onFor key [])) ⟨false, .fail⟩ []
    ⟨some storedDocument, 1⟩

/-- The tenant is persisted and comes back. -/
theorem stored_and_loaded : letI := unaryRuntime
    marshalTenantState defaultLimits storedOne = .ok storedDocument ∧
      load (str "t") undisturbed defaultLimits (some storedDocument) = .ok loadedOne := by
  let _ := unaryRuntime
  constructor
  · have hsome : (marshalTenantState defaultLimits storedOne).toOption.isSome = true := by
      decide +kernel
    obtain ⟨document, hdocument⟩ := exists_of_isSome_toOption hsome
    unfold storedDocument
    rw [hdocument]
  · have hsome : (load (κ := Empty) (str "t") undisturbed defaultLimits
        (some storedDocument)).toOption.isSome = true := by
      decide +kernel
    obtain ⟨s, hs⟩ := exists_of_isSome_toOption hsome
    unfold loadedOne
    rw [hs]

/-- The feature exists.  The memory provider reports the conflict with the error, the durable one
returns the error alone. -/
theorem durable_conflict_unreported :
    letI := unaryRuntime
    Run defaultLimits (str "t") (performed [.create (onFor (str "a") []) []]) storedOne ∧
      marshalTenantState defaultLimits storedOne = .ok storedDocument ∧
      load (str "t") undisturbed defaultLimits (some storedDocument) = .ok loadedOne ∧
      memoryReturns ((importNew (str "a")).run storedOne) =
        some (⟨false, 0, 0, 0, 0, 1, [⟨str "feature", str "a", 1, 1⟩]⟩,
          some (.sentinel .importConflict)) ∧
      ∃ result, durableImportNew (str "a") = .finished result ∧
        durableReturns result = some (.zero, some (.sentinel .importConflict)) ∧
        ¬ SameReturn (durableReturns result)
          (memoryReturns ((importNew (str "a")).run storedOne)) := by
  let _ := unaryRuntime
  have hmemory : memoryReturns ((importNew (str "a")).run storedOne) =
      some (⟨false, 0, 0, 0, 0, 1, [⟨str "feature", str "a", 1, 1⟩]⟩,
        some (.sentinel .importConflict)) := by
    decide +kernel
  have hloaded : memoryReturns ((importNew (str "a")).run loadedOne) =
      some (⟨false, 0, 0, 0, 0, 1, [⟨str "feature", str "a", 1, 1⟩]⟩,
        some (.sentinel .importConflict)) := by
    decide +kernel
  obtain ⟨persisted, loads⟩ := stored_and_loaded
  obtain ⟨result, hresult, hreturns⟩ : ∃ result, durableImportNew (str "a") = .finished result ∧
      durableReturns result =
        withoutReport (memoryReturns ((importNew (str "a")).run loadedOne)) := by
    refine durableImport_of_apply rfl loads rfl (by decide) fun report s₂ hrun => ?_
    rw [show (importNew (str "a")).run loadedOne = .ok report s₂ from hrun] at hloaded
    cases hloaded
  rw [hloaded] at hreturns
  refine ⟨run_of_calls defaultLimits (str "t") .sorted .background _ (by decide +kernel),
    persisted, loads, hmemory, result, hresult, hreturns, ?_⟩
  rw [hreturns, hmemory]
  intro hsame
  cases hsame with
  | some hsame => exact absurd hsame.1 (by decide)

/-- Another feature is created, and both providers report it. -/
theorem durable_import_reports_new :
    letI := unaryRuntime
    ∃ result, durableImportNew (str "b") = .finished result ∧
      memoryReturns ((importNew (str "b")).run storedOne) =
        some (⟨false, 1, 0, 0, 0, 0, []⟩, none) ∧
      SameReturn (durableReturns result) (memoryReturns ((importNew (str "b")).run storedOne)) := by
  let _ := unaryRuntime
  obtain ⟨persisted, loads⟩ := stored_and_loaded
  have hmemory : memoryReturns ((importNew (str "b")).run storedOne) =
      some (⟨false, 1, 0, 0, 0, 0, []⟩, none) := by
    decide +kernel
  have hfeatures : storedOne.features =
      (∅ : GoMap (MemoryRecord Empty)).insert (str "a") ⟨onFor (str "a") [], false⟩ := by
    decide +kernel
  have hencodable : (match (importNew (str "b")).run loadedOne with
      | .ok _ s₂ => (marshalTenantState defaultLimits s₂).toOption.isSome
      | .error _ _ => true) = true := by
    decide +kernel
  have hsorted : GoMap.All (fun record : MemoryRecord Empty =>
      record.definition.DependenciesSorted) storedOne.features := by
    rw [hfeatures]
    exact GoMap.Each.empty.insert List.Pairwise.nil
  have run : Run defaultLimits (str "t") (performed [.create (onFor (str "a") []) []]) storedOne :=
    run_of_calls defaultLimits (str "t") .sorted .background _ (by decide +kernel)
  have stored : (⟨some storedDocument, 1⟩ : Versioned Bytes).document = some storedDocument := rfl
  have admitted : providerInput ⟨undisturbed.err, none⟩ (str "t") defaultLimits.maxKeyBytes =
      .ok () := by
    decide +kernel
  have restored := (load_eq (o := undisturbed) stored admitted rfl).symm.trans loads
  obtain ⟨result, hresult, -, hsame⟩ := durable_import_reports plainStrategies_empty run persisted
    stored admitted rfl rfl (by decide) (exported (onFor (str "b") [])) ⟨false, .fail⟩ [] (by
      intro s₁ s₂ report hs₁ hrun
      have hloaded : s₁ = loadedOne := Except.ok.inj (hs₁.symm.trans restored)
      rw [hloaded] at hrun
      rw [show (importNew (str "b")).run loadedOne = .ok report s₂ from hrun] at hencodable
      exact exists_of_isSome_toOption hencodable)
  refine ⟨result, hresult, hmemory,
    hsame ⟨loadedOne, restored⟩ (by decide +kernel) ?_ (.inr fun hrefused => ?_)⟩
  · exact fun _ _ _ _ _ => ⟨.inr ⟨byKeys_sorted, hsorted⟩, .inr byKeys_sorted⟩
  · obtain ⟨report, e, hreturned, -⟩ := hrefused.returned plainStrategies_empty [] rfl
    have herror := hmemory.symm.trans hreturned
    cases herror

end FeatureFlags
