import FeatureFlags.Equiv.Audit
import FeatureFlags.Equiv.Retention
import FeatureFlags.Equiv.Wire

/-!
# Imported documents

`ImportDocument` plans the merge of a document into copies of a tenant's maps.  The plan does not
depend on whether it is applied.

* `ImportPlan.Counted`: the counters of a report agree with the conflicts and the audit entries.
* `dry_run_predicts`: a dry run reports what the import does.
* `import_merges`: what an import leaves in the maps, and how it accounts for it.
-/

namespace FeatureFlags

open Go Lib

variable {κ : Type} [CustomStrategy κ]

/-! ### Plans -/

section Plans

variable {policy : ConflictPolicy} {plan : ImportPlan κ}

/-- The number of resources that an import writes. -/
def ImportReport.written (report : ImportReport) : Nat :=
  report.createdFeatures + report.updatedFeatures + report.createdGroups + report.updatedGroups

/-- The counters of a plan for `n` resources. -/
structure ImportPlan.Counted (plan : ImportPlan κ) (n : Nat) : Prop where
  total : plan.report.written + plan.report.skipped = n
  conflicts : plan.report.conflicts.length =
    plan.report.updatedFeatures + plan.report.updatedGroups + plan.report.skipped
  audits : plan.audits.length = plan.report.written

theorem ImportPlan.Counted.planGroup {n : Nat} (h : plan.Counted n) (g : GroupDefinition κ) :
    (planGroup policy plan g).Counted (n + 1) := by
  obtain ⟨total, conflicts, audits⟩ := h
  unfold FeatureFlags.planGroup
  unfold ImportReport.written at total audits
  split
  · dsimp only
    split_ifs
    all_goals
      constructor <;> simp only [ImportReport.written, ImportReport.conflict, List.length_append,
        List.length_singleton] <;> omega
  · constructor <;> simp only [ImportReport.written, List.length_append, List.length_singleton] <;>
      omega

theorem ImportPlan.Counted.planFeature {n : Nat} (h : plan.Counted n) (d : Definition κ) :
    (planFeature policy plan d).Counted (n + 1) := by
  obtain ⟨total, conflicts, audits⟩ := h
  unfold FeatureFlags.planFeature
  unfold ImportReport.written at total audits
  split
  · dsimp only
    split_ifs
    all_goals
      constructor <;> simp only [ImportReport.written, ImportReport.conflict, List.length_append,
        List.length_singleton] <;> omega
  · constructor <;> simp only [ImportReport.written, List.length_append, List.length_singleton] <;>
      omega

omit [CustomStrategy κ] in
/-- A loop that counts one resource at a time counts them all. -/
theorem ImportPlan.Counted.foldl {α : Type} {step : ImportPlan κ → α → ImportPlan κ}
    (hstep : ∀ {plan : ImportPlan κ} {n : Nat}, plan.Counted n → ∀ a, (step plan a).Counted (n + 1))
    {n : Nat} (h : plan.Counted n) (l : List α) : (l.foldl step plan).Counted (n + l.length) := by
  induction l generalizing plan n with
  | nil => exact h
  | cons a l ih =>
    rw [List.length_cons, Nat.add_comm l.length 1, ← Nat.add_assoc]
    exact ih (hstep h a)

theorem counted_importPlan (policy : ConflictPolicy) (dryRun : Bool)
    (definitions : List (Definition κ)) (groups : List (GroupDefinition κ)) (s : TenantState κ) :
    (importPlan policy dryRun definitions groups s).Counted
      (groups.length + definitions.length) := by
  have hstart : ImportPlan.Counted ⟨⟨dryRun, 0, 0, 0, 0, 0, []⟩, cloneMemoryRecords s.features,
      cloneGroupMap s.groups, []⟩ 0 := ⟨rfl, rfl, rfl⟩
  have hgroups : ImportPlan.Counted (groups.foldl (planGroup policy) _) (0 + groups.length) :=
    hstart.foldl (fun h g => h.planGroup g) groups
  rw [Nat.zero_add] at hgroups
  exact hgroups.foldl (fun h d => h.planFeature d) definitions

def ImportPlan.reported (dryRun : Bool) (plan : ImportPlan κ) : ImportPlan κ :=
  { plan with report := { plan.report with dryRun } }

theorem planGroup_reported (dryRun : Bool) (plan : ImportPlan κ) (g : GroupDefinition κ) :
    planGroup policy (plan.reported dryRun) g = (planGroup policy plan g).reported dryRun := by
  unfold planGroup ImportPlan.reported
  dsimp only
  split
  · split_ifs <;> rfl
  · rfl

theorem planFeature_reported (dryRun : Bool) (plan : ImportPlan κ) (d : Definition κ) :
    planFeature policy (plan.reported dryRun) d = (planFeature policy plan d).reported dryRun := by
  unfold planFeature ImportPlan.reported
  dsimp only
  split
  · split_ifs <;> rfl
  · rfl

/-- The loops of `ImportDocument` do not look at the mode. -/
theorem importPlan_reported (policy : ConflictPolicy) (dryRun dryRun' : Bool)
    (definitions : List (Definition κ)) (groups : List (GroupDefinition κ)) (s : TenantState κ) :
    importPlan policy dryRun' definitions groups s =
      (importPlan policy dryRun definitions groups s).reported dryRun' := by
  let start : ImportPlan κ := ⟨⟨dryRun, 0, 0, 0, 0, 0, []⟩, cloneMemoryRecords s.features,
    cloneGroupMap s.groups, []⟩
  have hgroups : groups.foldl (planGroup policy) (start.reported dryRun') =
      (groups.foldl (planGroup policy) start).reported dryRun' :=
    List.foldl_hom (ImportPlan.reported dryRun') fun plan g => planGroup_reported dryRun' plan g
  calc importPlan policy dryRun' definitions groups s
      = definitions.foldl (planFeature policy)
          (groups.foldl (planGroup policy) (start.reported dryRun')) := rfl
    _ = definitions.foldl (planFeature policy)
          ((groups.foldl (planGroup policy) start).reported dryRun') := by rw [hgroups]
    _ = (importPlan policy dryRun definitions groups s).reported dryRun' :=
        List.foldl_hom (ImportPlan.reported dryRun') fun plan d =>
          planFeature_reported dryRun' plan d

end Plans

/-! ### Dry runs -/

section Documents

variable {ord : MapOrder} {limits : Limits} {ctx : Ctx} {tenant data actor : Bytes}
  {options : ImportOptions} {policy : ConflictPolicy} {definitions : List (Definition κ)}
  {groups : List (GroupDefinition κ)} {s t : TenantState κ} {report : ImportReport}

/-- A dry run and an import write the same number of audit entries. -/
theorem importPlan_audits_eq_nil (policy : ConflictPolicy) (dryRun : Bool)
    (definitions : List (Definition κ)) (groups : List (GroupDefinition κ)) (s : TenantState κ) :
    (importPlan policy dryRun definitions groups s).audits = [] ↔
      (importPlan policy dryRun definitions groups s).report.written = 0 := by
  rw [← List.length_eq_zero_iff, (counted_importPlan policy dryRun definitions groups s).audits]

theorem importPlan_report (policy : ConflictPolicy) (dryRun dryRun' : Bool)
    (definitions : List (Definition κ)) (groups : List (GroupDefinition κ)) (s : TenantState κ) :
    (importPlan policy dryRun' definitions groups s).report =
      { (importPlan policy dryRun definitions groups s).report with dryRun := dryRun' } := by
  rw [importPlan_reported policy dryRun dryRun']
  rfl

variable [Runtime]

/-- What a successful `ImportDocument` has checked. -/
structure Imports (ord : MapOrder) (limits : Limits) (ctx : Ctx) (tenant data : Bytes)
    (options : ImportOptions) (policy : ConflictPolicy) (definitions : List (Definition κ))
    (groups : List (GroupDefinition κ)) (s : TenantState κ) : Prop where
  admitted : providerInput ctx tenant limits.maxKeyBytes = .ok ()
  resolved : options.policy = .ok policy
  read : Import ord data limits = .ok (definitions, groups)
  uncancelled : ctx.laterErr = none
  accepted : ¬ (policy = .fail ∧ (importPlan policy options.dryRun definitions groups
    s).report.conflicts ≠ [] ∧ ¬ options.dryRun)
  valid : ∃ snapshot, newSnapshotWithGroups ord
    (definitionsFromRecords ord (importPlan policy options.dryRun definitions groups s).records)
    (groupsFromMap ord (importPlan policy options.dryRun definitions groups s).groups) limits =
      .ok snapshot

/-- The state before the last loop of `ImportDocument`. -/
def TenantState.merged (policy : ConflictPolicy) (definitions : List (Definition κ))
    (groups : List (GroupDefinition κ)) (s : TenantState κ) : TenantState κ :=
  { s with
    features := (importPlan policy false definitions groups s).records
    groups := (importPlan policy false definitions groups s).groups }

theorem run_importDocument_eq_ok :
    (importDocument ord limits ctx tenant data options actor).run s = .ok report t ↔
      ∃ policy definitions groups,
        Imports ord limits ctx tenant data options policy definitions groups s ∧
        report = (importPlan policy options.dryRun definitions groups s).report ∧
        if options.dryRun then t = s else
          (recordImported limits actor (importPlan policy false definitions groups s).audits).run
            (s.merged policy definitions groups) = .ok () t := by
  simp only [importDocument, run_bind_eq_ok, run_check_eq_ok]
  constructor
  · rintro ⟨_, _, ⟨admitted, rfl⟩, policy, _, ⟨resolved, rfl⟩, ⟨definitions, groups⟩, _,
      ⟨read, rfl⟩, h⟩
    split at h
    · simp at h
    · rename_i uncancelled
      simp only [run_bind_eq_ok, EStateM.run_get, EStateM.Result.ok.injEq] at h
      obtain ⟨_, _, ⟨rfl, rfl⟩, h⟩ := h
      split at h
      · simp [run_throw] at h
      · rename_i accepted
        split at h
        · simp [run_throw] at h
        · rename_i snapshot valid
          refine ⟨policy, definitions, groups,
            ⟨admitted, resolved, read, uncancelled, accepted, snapshot, valid⟩, ?_⟩
          split_ifs at h ⊢ with hdry
          · obtain ⟨rfl, rfl⟩ := EStateM.Result.ok.inj h
            exact ⟨rfl, rfl⟩
          · rw [Bool.not_eq_true] at hdry
            simp only [run_bind_eq_ok, EStateM.run_set, EStateM.run_pure,
              EStateM.Result.ok.injEq] at h
            obtain ⟨_, _, ⟨_, rfl⟩, _, _, h, rfl, rfl⟩ := h
            rw [hdry] at h
            exact ⟨rfl, h⟩
  · rintro ⟨policy, definitions, groups, himports, rfl, h⟩
    obtain ⟨snapshot, valid⟩ := himports.valid
    refine ⟨(), s, ⟨himports.admitted, rfl⟩, policy, s, ⟨himports.resolved, rfl⟩,
      (definitions, groups), s, ⟨himports.read, rfl⟩, ?_⟩
    rw [himports.uncancelled]
    simp only [run_bind_eq_ok, EStateM.run_get, EStateM.Result.ok.injEq]
    refine ⟨s, s, ⟨rfl, rfl⟩, ?_⟩
    rw [if_neg himports.accepted, valid]
    dsimp only
    split_ifs at h ⊢ with hdry
    · rw [h]
      rfl
    · rw [Bool.not_eq_true] at hdry
      simp only [run_bind_eq_ok, EStateM.run_set, EStateM.run_pure, EStateM.Result.ok.injEq]
      rw [hdry]
      exact ⟨(), _, ⟨trivial, rfl⟩, (), t, h, trivial, rfl⟩

omit [CustomStrategy κ] [Runtime] in
/-- The last loop of `ImportDocument` panics when there is an entry and the limit is negative. -/
theorem exists_run_recordImported {audits : List PendingAudit} :
    (∃ t, (recordImported limits actor audits).run s = .ok () t) ↔
      audits = [] ∨ 0 ≤ limits.maxAuditEntries := by
  induction audits generalizing s with
  | nil => exact iff_of_true ⟨s, rfl⟩ (.inl rfl)
  | cons audit rest ih =>
    simp only [recordImported, run_bind_eq_ok, run_appendAudit_eq_ok, List.cons_ne_nil, false_or]
    constructor
    · rintro ⟨_, _, _, ⟨hmax, -⟩, -⟩
      exact hmax
    · intro hmax
      obtain ⟨t, ht⟩ := ih.mpr (.inr hmax)
      exact ⟨t, (), _, ⟨hmax, rfl⟩, ht⟩

/-- The other mode checks the same, but for the conflicts. -/
theorem Imports.of_mode {dryRun dryRun' : Bool} {label : ConflictPolicy}
    (h : Imports ord limits ctx tenant data ⟨dryRun, label⟩ policy definitions groups s)
    (accepted : policy = .fail → dryRun' = false →
      (importPlan policy dryRun definitions groups s).report.conflicts = []) :
    Imports ord limits ctx tenant data ⟨dryRun', label⟩ policy definitions groups s where
  admitted := h.admitted
  resolved := h.resolved
  read := h.read
  uncancelled := h.uncancelled
  accepted := by
    rintro ⟨hfail, hconflicts, hmode⟩
    rw [importPlan_report policy dryRun dryRun'] at hconflicts
    exact hconflicts (accepted hfail (Bool.not_eq_true _ ▸ hmode))
  valid := by
    rw [importPlan_reported policy dryRun dryRun']
    exact h.valid

/-- A dry run reports what the import does.  An import that writes an audit entry panics when the
number of retained entries is negative. -/
theorem dry_run_predicts (ord : MapOrder) (limits : Limits) (tenant data actor : Bytes)
    (policy : ConflictPolicy) (s : TenantState κ) :
    let run (dryRun : Bool) :=
      (importDocument ord limits .background tenant data ⟨dryRun, policy⟩ actor).run s
    (∀ report t, run false = .ok report t → run true = .ok { report with dryRun := true } s) ∧
      ∀ report t, run true = .ok report t →
        (ImportOptions.policy ⟨true, policy⟩ ≠ .ok .fail ∨ report.conflicts = []) →
        (0 ≤ limits.maxAuditEntries ∨ report.written = 0) →
        ∃ t', run false = .ok { report with dryRun := false } t' := by
  refine ⟨fun report t h => ?_, fun report t h hconflicts hwritten => ?_⟩
  · obtain ⟨resolved, definitions, groups, himports, rfl, -⟩ := run_importDocument_eq_ok.mp h
    refine run_importDocument_eq_ok.mpr ⟨resolved, definitions, groups,
      himports.of_mode nofun, ?_, rfl⟩
    exact (importPlan_report resolved false true definitions groups s).symm
  · obtain ⟨resolved, definitions, groups, himports, rfl, -⟩ := run_importDocument_eq_ok.mp h
    have happly : ∃ t', (recordImported limits actor
        (importPlan resolved false definitions groups s).audits).run
          (s.merged resolved definitions groups) = .ok () t' := by
      rw [exists_run_recordImported, importPlan_audits_eq_nil,
        importPlan_report resolved true false]
      exact hwritten.symm
    obtain ⟨t', ht'⟩ := happly
    refine ⟨t', run_importDocument_eq_ok.mpr ⟨resolved, definitions, groups,
      himports.of_mode (fun hfail _ => ?_), ?_, ht'⟩⟩
    · exact hconflicts.resolve_left fun hne => hne (hfail ▸ himports.resolved)
    · exact (importPlan_report resolved true false definitions groups s).symm

end Documents

/-- Limits that keep `n` audit entries. -/
def auditLimits (n : Int) : Limits := { defaultLimits with maxAuditEntries := n }

/-- The import of a document with one feature into an empty tenant. -/
def importOne [Runtime] (limits : Limits) (dryRun : Bool) : Op Empty ImportReport :=
  importDocument .sorted limits .background (str "t") (exported (onFor (str "a") []))
    ⟨dryRun, .fail⟩ []

omit [CustomStrategy κ] in
theorem run'_eq_some {α : Type} {x : Op κ α} {s : TenantState κ} {a : α} :
    x.run' s = some a ↔ ∃ t, x.run s = .ok a t := by
  unfold EStateM.run' EStateM.run
  cases x s with
  | ok b t | error e t => simp

/-- The dry run announces the feature, and the import creates it. -/
theorem dry_run_predicts_one :
    letI := unaryRuntime
    (∃ t, (importOne defaultLimits false).run .empty = .ok ⟨false, 1, 0, 0, 0, 0, []⟩ t) ∧
      (importOne defaultLimits true).run .empty = .ok ⟨true, 1, 0, 0, 0, 0, []⟩ .empty := by
  let _ := unaryRuntime
  have hdry : ∃ t, (importOne defaultLimits true).run .empty =
      .ok ⟨true, 1, 0, 0, 0, 0, []⟩ t := run'_eq_some.mp (by decide +kernel)
  obtain ⟨t, ht⟩ := hdry
  obtain ⟨hreports, happlies⟩ := dry_run_predicts .sorted defaultLimits (str "t")
    (exported (onFor (str "a") [])) [] .fail (.empty : TenantState Empty)
  -- the dry run succeeds without conflicts, so the import does; and so the dry run changes nothing
  obtain ⟨t', ht'⟩ := happlies _ t ht (.inr rfl) (.inl (by decide))
  exact ⟨⟨t', ht'⟩, hreports _ t' ht'⟩

/-- With a negative limit the dry run announces the feature, and the import does not return. -/
theorem dry_run_then_panic :
    letI := unaryRuntime
    (∃ t, (importOne (auditLimits (-1)) true).run .empty = .ok ⟨true, 1, 0, 0, 0, 0, []⟩ t) ∧
      ¬ ∃ report t, (importOne (auditLimits (-1)) false).run .empty = .ok report t := by
  let _ := unaryRuntime
  refine ⟨run'_eq_some.mp (by decide +kernel), ?_⟩
  rintro ⟨report, t, h⟩
  have hnone : (importOne (auditLimits (-1)) false).run' .empty = none := by decide +kernel
  have hsome := run'_eq_some.mpr ⟨t, h⟩
  rw [hnone] at hsome
  cases hsome

/-! ### The merge -/

section Merge

variable {policy : ConflictPolicy} {definitions : List (Definition κ)}
  {groups : List (GroupDefinition κ)} {s t : TenantState κ}

/-- The version of a resource that an import writes over `old`. -/
def nextVersion : Option Nat → Nat
  | none => 1
  | some version => version + 1

/-- An import writes a resource that is new, or that replaces one. -/
def ConflictPolicy.writes (policy : ConflictPolicy) (old : Option Nat) : Bool :=
  old.isNone || policy = .replace

/-- The audit entry of a resource of the document. -/
def importEntry (policy : ConflictPolicy) (actor key : Bytes) (old : Option Nat) :
    Option AuditEntry :=
  if policy.writes old then some ⟨key, importAction old, actor, nextVersion old⟩ else none

/-- The audit entries of a document, the groups first. -/
def importEntries (policy : ConflictPolicy) (actor : Bytes) (definitions : List (Definition κ))
    (groups : List (GroupDefinition κ)) (s : TenantState κ) : List AuditEntry :=
  groups.filterMap (fun g => importEntry policy actor g.key (s.groupVersion g.key)) ++
    definitions.filterMap fun d => importEntry policy actor d.key (s.featureVersion d.key)

/-- The record of a feature of the document. -/
def importRecord (policy : ConflictPolicy) (d : Definition κ) (old : Option (MemoryRecord κ)) :
    Option (MemoryRecord κ) :=
  let version := old.map fun record => record.definition.version
  if policy.writes version then some ⟨{ d with version := nextVersion version }, false⟩ else old

def importGroup (policy : ConflictPolicy) (g : GroupDefinition κ)
    (old : Option (GroupDefinition κ)) : Option (GroupDefinition κ) :=
  let version := old.map GroupDefinition.version
  if policy.writes version then some { g with version := nextVersion version } else old

theorem planFeature_lookup (plan : ImportPlan κ) (d : Definition κ) :
    (planFeature policy plan d).records[d.key]? =
      importRecord policy (cloneDefinition d) plan.records[d.key]? := by
  unfold planFeature importRecord ConflictPolicy.writes
  cases hold : plan.records[d.key]? with
  | none => exact GoMap.lookup_insert_self _ _ _
  | some current =>
    dsimp only
    by_cases hreplace : policy = .replace
    · rw [if_pos hreplace]
      simp [hreplace, nextVersion, cloneDefinition]
    · rw [if_neg hreplace]
      simp [hreplace, hold]

theorem planGroup_lookup (plan : ImportPlan κ) (g : GroupDefinition κ) :
    (planGroup policy plan g).groups[g.key]? =
      importGroup policy (cloneGroup g) plan.groups[g.key]? := by
  unfold planGroup importGroup ConflictPolicy.writes
  cases hold : plan.groups[g.key]? with
  | none => exact GoMap.lookup_insert_self _ _ _
  | some current =>
    dsimp only
    by_cases hreplace : policy = .replace
    · rw [if_pos hreplace]
      simp [hreplace, nextVersion, cloneGroup]
    · rw [if_neg hreplace]
      simp [hreplace, hold]

/-- The start of the plan holds copies. -/
def importStart (dryRun : Bool) (s : TenantState κ) : ImportPlan κ :=
  ⟨⟨dryRun, 0, 0, 0, 0, 0, []⟩, cloneMemoryRecords s.features, cloneGroupMap s.groups, []⟩

theorem importPlan_feature (dryRun : Bool) (groups : List (GroupDefinition κ)) (s : TenantState κ)
    (nodup : (definitions.map Definition.key).Nodup) {d : Definition κ} (hd : d ∈ definitions) :
    (importPlan policy dryRun definitions groups s).records[d.key]? =
      importRecord policy (cloneDefinition d) (cloneMemoryRecords s.features)[d.key]? := by
  have h := Writes.at_key (fun plan (key : Bytes) => plan.records[key]?)
    (fun d => importRecord policy (cloneDefinition d)) planFeature_framed
    (fun plan d plan' hstep => hstep ▸ planFeature_lookup plan d)
    (Writes.foldl (planFeature policy) definitions
      (groups.foldl (planGroup policy) (importStart dryRun s))) nodup hd
  rwa [foldl_planGroup_records] at h

theorem importPlan_feature_other (dryRun : Bool) (groups : List (GroupDefinition κ))
    (s : TenantState κ) {key : Bytes} (hkey : key ∉ definitions.map Definition.key) :
    (importPlan policy dryRun definitions groups s).records[key]? =
      (cloneMemoryRecords s.features)[key]? := by
  have h := Writes.frame (fun plan (key : Bytes) => plan.records[key]?) planFeature_framed
    (Writes.foldl (planFeature policy) definitions
      (groups.foldl (planGroup policy) (importStart dryRun s)))
    fun d hd heq => hkey (List.mem_map.mpr ⟨d, hd, heq⟩)
  rwa [foldl_planGroup_records] at h

theorem importPlan_group (dryRun : Bool) (definitions : List (Definition κ)) (s : TenantState κ)
    (nodup : (groups.map GroupDefinition.key).Nodup) {g : GroupDefinition κ} (hg : g ∈ groups) :
    (importPlan policy dryRun definitions groups s).groups[g.key]? =
      importGroup policy (cloneGroup g) (cloneGroupMap s.groups)[g.key]? := by
  rw [importPlan, foldl_planFeature_groups]
  exact Writes.at_key (fun plan (key : Bytes) => plan.groups[key]?)
    (fun g => importGroup policy (cloneGroup g)) planGroup_framed
    (fun plan g plan' hstep => hstep ▸ planGroup_lookup plan g)
    (Writes.foldl (planGroup policy) groups (importStart dryRun s)) nodup hg

theorem importPlan_group_other (dryRun : Bool) (definitions : List (Definition κ))
    (s : TenantState κ) {key : Bytes} (hkey : key ∉ groups.map GroupDefinition.key) :
    (importPlan policy dryRun definitions groups s).groups[key]? =
      (cloneGroupMap s.groups)[key]? := by
  rw [importPlan, foldl_planFeature_groups]
  exact Writes.frame (fun plan (key : Bytes) => plan.groups[key]?) planGroup_framed
    (Writes.foldl (planGroup policy) groups (importStart dryRun s))
    fun g hg heq => hkey (List.mem_map.mpr ⟨g, hg, heq⟩)

omit [CustomStrategy κ] in
theorem importRecord_version (d : Definition κ) (old : Option (MemoryRecord κ)) :
    (importRecord policy d old).map (fun record => record.definition.version) =
      let version := old.map fun record => record.definition.version
      if policy.writes version then some (nextVersion version) else version := by
  unfold importRecord
  dsimp only
  split_ifs <;> rfl

omit [CustomStrategy κ] in
theorem importGroup_version (g : GroupDefinition κ) (old : Option (GroupDefinition κ)) :
    (importGroup policy g old).map GroupDefinition.version =
      let version := old.map GroupDefinition.version
      if policy.writes version then some (nextVersion version) else version := by
  unfold importGroup
  dsimp only
  split_ifs <;> rfl

/-- The entry of a resource is the one that the plan has for the change of its version. -/
theorem plannedAudit_eq_importEntry (policy : ConflictPolicy) (actor key : Bytes)
    (old : Option Nat) :
    (plannedAudit key old (if policy.writes old then some (nextVersion old) else old)).map
      (fun audit => (⟨audit.key, audit.action, actor, audit.version⟩ : AuditEntry)) =
      importEntry policy actor key old := by
  have hne : old ≠ some (nextVersion old) := by
    cases old with
    | none => simp
    | some version => simp [nextVersion]
  unfold plannedAudit importEntry
  split_ifs
  · rw [stepped_some hne]
    rfl
  · rw [stepped_self]
    rfl

theorem importPlan_entries (dryRun : Bool) (actor : Bytes) (s : TenantState κ)
    (nodup : (definitions.map Definition.key).Nodup)
    (nodup' : (groups.map GroupDefinition.key).Nodup) :
    ((importPlan policy dryRun definitions groups s).audits.map
      fun audit => (⟨audit.key, audit.action, actor, audit.version⟩ : AuditEntry)) =
      importEntries policy actor definitions groups s := by
  have hgroup : ∀ key : Bytes, (cloneGroupMap s.groups)[key]?.map GroupDefinition.version =
      s.groupVersion key := by
    intro key
    rw [show (cloneGroupMap s.groups)[key]? = s.groups[key]?.map cloneGroup from
      Std.ExtTreeMap.getElem?_map, Option.map_map]
    rfl
  have hfeature : ∀ key : Bytes, (cloneMemoryRecords s.features)[key]?.map
      (fun record => record.definition.version) = s.featureVersion key := by
    intro key
    rw [cloneMemoryRecords_lookup, Option.map_map]
    rfl
  rw [importPlan_audits policy dryRun s nodup nodup', importEntries, List.map_append,
    List.map_filterMap, List.map_filterMap]
  congr 1
  · refine List.filterMap_congr fun g hg => ?_
    rw [importPlan_group dryRun definitions s nodup' hg, importGroup_version, hgroup]
    exact plannedAudit_eq_importEntry policy actor g.key _
  · refine List.filterMap_congr fun d hd => ?_
    rw [importPlan_feature dryRun groups s nodup hd, importRecord_version, hfeature]
    exact plannedAudit_eq_importEntry policy actor d.key _

omit [CustomStrategy κ] in
/-- What the last loop of `ImportDocument` leaves in the log. -/
theorem imported_audit {limits : Limits} {actor : Bytes} {audits}
    (h : (recordImported limits actor audits).run s = .ok () t) :
    let entries := audits.map fun audit =>
      (⟨audit.key, audit.action, actor, audit.version⟩ : AuditEntry)
    t.audit = if entries = [] then s.audit else retained limits (s.audit ++ entries) := by
  have hmax := exists_run_recordImported.mp ⟨t, h⟩
  rw [run_recordImported_eq_ok h]
  cases audits with
  | nil => rfl
  | cons audit rest =>
    have hlimit := hmax.resolve_left (List.cons_ne_nil _ _)
    have hrest := Audited.imported (s := s.recorded limits _) hlimit actor rest _
      (recorded_audit hlimit ⟨audit.key, audit.action, actor, audit.version⟩)
    rwa [List.append_assoc] at hrest

end Merge

section Documents

omit [CustomStrategy κ] in
theorem exists_of_mem_mapM {ε α β : Type} {f : α → Except ε β} {l : List α} {l' : List β}
    (h : l.mapM f = .ok l') {b : β} (hb : b ∈ l') : ∃ a ∈ l, f a = .ok b := by
  rw [mapM_eq_ok_iff] at h
  induction h with
  | nil => cases hb
  | cons hhead _ ih =>
    rcases List.mem_cons.mp hb with rfl | hb
    · exact ⟨_, List.mem_cons_self, hhead⟩
    · obtain ⟨a, ha, hab⟩ := ih hb
      exact ⟨a, List.mem_cons_of_mem _ ha, hab⟩

theorem snapshotStrategy_of_decode {wire : StrategyWire} {strategy : Strategy κ}
    (h : decodeStrategy wire = .ok strategy) : strategy.snapshotStrategy = strategy := by
  cases strategy with
  | custom x =>
    unfold decodeStrategy at h
    split_ifs at h
    · cases h
    · cases h
    · cases h
    · simp only [bind_eq_ok, pure_eq_ok] at h
      obtain ⟨_, -, _, -, h⟩ := h
      cases h
    · cases h
    · split at h
      · cases h
      · simp only [bind_eq_ok, pure_eq_ok] at h
        obtain ⟨_, -, h⟩ := h
        cases h
  | _ => rfl

theorem snapshotStrategy_of_mapM {wires : List StrategyWire} {strategies : List (Strategy κ)}
    (h : wires.mapM decodeStrategy = .ok strategies) :
    strategies.map Strategy.snapshotStrategy = strategies := by
  refine (List.map_congr_left fun strategy hstrategy => ?_).trans (List.map_id strategies)
  obtain ⟨wire, -, hwire⟩ := exists_of_mem_mapM h hstrategy
  exact snapshotStrategy_of_decode hwire

variable {ord : MapOrder} {limits : Limits} {ctx : Ctx} {tenant data actor : Bytes}
  {options : ImportOptions} {policy : ConflictPolicy} {definitions : List (Definition κ)}
  {groups : List (GroupDefinition κ)} {s t : TenantState κ} {report : ImportReport}

theorem PlainStrategies.cloneMaps (hκ : PlainStrategies κ) (s : TenantState κ) :
    cloneMemoryRecords s.features = s.features ∧ cloneGroupMap s.groups = s.groups := by
  constructor
  · apply Std.ExtTreeMap.ext_getElem?
    intro key
    rw [cloneMemoryRecords_lookup]
    cases s.features[key]? with
    | none => rfl
    | some record => simp [cloneRecord, hκ.cloneDefinition]
  · apply Std.ExtTreeMap.ext_getElem?
    intro key
    rw [cloneGroupMap, Std.ExtTreeMap.getElem?_map]
    cases s.groups[key]? with
    | none => rfl
    | some group => simp [hκ.cloneGroup]

variable [Runtime]

/-- The definitions of a document are their own copies. -/
theorem import_cloned (h : Import ord data limits = .ok (definitions, groups)) :
    (∀ d ∈ definitions, cloneDefinition d = d) ∧ ∀ g ∈ groups, cloneGroup g = g := by
  simp only [Import, bind_eq_ok, rejectIf_eq_ok, pure_eq_ok, Prod.mk.injEq] at h
  obtain ⟨-, -, document, -, -, -, _, hdefinitions, _, hgroups, -, -, rfl, rfl⟩ := h
  constructor
  · intro d hd
    obtain ⟨wire, -, hwire⟩ := exists_of_mem_mapM hdefinitions hd
    simp only [decodeDefinition, bind_eq_ok, mapError_eq_ok, pure_eq_ok] at hwire
    obtain ⟨_, -, _, -, strategies, hstrategies, rfl⟩ := hwire
    rw [cloneDefinition, snapshotStrategy_of_mapM hstrategies]
  · intro g hg
    obtain ⟨wire, -, hwire⟩ := exists_of_mem_mapM hgroups hg
    simp only [decodeGroup, bind_eq_ok, mapError_eq_ok, pure_eq_ok] at hwire
    obtain ⟨strategies, hstrategies, rfl⟩ := hwire
    rw [cloneGroup, snapshotStrategy_of_mapM hstrategies]

/-- What an import does to a tenant: it merges the resources of the document into copies of the
maps, which are equal to the maps unless a strategy of the application is not equal to its
snapshot. -/
structure Merges (limits : Limits) (actor : Bytes) (policy : ConflictPolicy)
    (definitions : List (Definition κ)) (groups : List (GroupDefinition κ))
    (report : ImportReport) (s t : TenantState κ) : Prop where
  named : ∀ d ∈ definitions,
    t.features[d.key]? = importRecord policy d (cloneMemoryRecords s.features)[d.key]?
  unnamed : ∀ key, key ∉ definitions.map Definition.key →
    t.features[key]? = (cloneMemoryRecords s.features)[key]?
  namedGroups : ∀ g ∈ groups,
    t.groups[g.key]? = importGroup policy g (cloneGroupMap s.groups)[g.key]?
  unnamedGroups : ∀ key, key ∉ groups.map GroupDefinition.key →
    t.groups[key]? = (cloneGroupMap s.groups)[key]?
  copies : PlainStrategies κ →
    cloneMemoryRecords s.features = s.features ∧ cloneGroupMap s.groups = s.groups
  staged : t.staged = s.staged
  nextStage : t.nextStage = s.nextStage
  distinct : (definitions.map Definition.key).Nodup ∧ (groups.map GroupDefinition.key).Nodup
  total : report.createdFeatures + report.updatedFeatures + report.createdGroups +
    report.updatedGroups + report.skipped = definitions.length + groups.length
  conflicts : report.conflicts.length =
    report.updatedFeatures + report.updatedGroups + report.skipped
  audit : let entries := importEntries policy actor definitions groups s
    t.audit = if entries = [] then s.audit else retained limits (s.audit ++ entries)

theorem import_merges (applied : options.dryRun = false)
    (h : (importDocument ord limits ctx tenant data options actor).run s = .ok report t)
    (resolved : options.policy = .ok policy)
    (read : Import ord data limits = .ok (definitions, groups)) :
    Merges limits actor policy definitions groups report s t := by
  obtain ⟨policy', definitions', groups', himports, rfl, hrecord⟩ := run_importDocument_eq_ok.mp h
  obtain rfl := Except.ok.inj (himports.resolved.symm.trans resolved)
  obtain ⟨rfl, rfl⟩ := Prod.mk.inj (Except.ok.inj (himports.read.symm.trans read))
  rw [applied, if_neg Bool.false_ne_true] at hrecord
  obtain ⟨hdefinitions, hgroups⟩ := import_cloned read
  have hcounted := counted_importPlan policy' options.dryRun definitions' groups' s
  have haudit := imported_audit hrecord
  rw [importPlan_entries false actor s (import_nodup read) (import_groups_nodup read)] at haudit
  have ht := run_recordImported_eq_ok hrecord
  exact {
    named := fun d hd => by
      rw [ht, TenantState.imported_features, TenantState.merged,
        importPlan_feature false groups' s (import_nodup read) hd, hdefinitions d hd]
    unnamed := fun key hkey => by
      rw [ht, TenantState.imported_features]
      exact importPlan_feature_other false groups' s hkey
    namedGroups := fun g hg => by
      rw [ht, TenantState.imported_groups, TenantState.merged,
        importPlan_group false definitions' s (import_groups_nodup read) hg, hgroups g hg]
    unnamedGroups := fun key hkey => by
      rw [ht, TenantState.imported_groups]
      exact importPlan_group_other false definitions' s hkey
    copies := fun hκ => hκ.cloneMaps s
    staged := by rw [ht, TenantState.imported_staged, TenantState.merged]
    nextStage := by rw [ht, TenantState.imported_nextStage, TenantState.merged]
    distinct := ⟨import_nodup read, import_groups_nodup read⟩
    total := by
      have htotal := hcounted.total
      rw [ImportReport.written] at htotal
      rw [htotal, Nat.add_comm]
    conflicts := hcounted.conflicts
    audit := haudit }

end Documents

def deletedOne : TenantState Empty :=
  { TenantState.empty with
    features := (∅ : GoMap (MemoryRecord Empty)).insert (str "a") ⟨onFor (str "a") [], true⟩ }

/-- The import of a document with the deleted feature and another one. -/
def importTwo [Runtime] : Op Empty ImportReport :=
  importDocument .sorted defaultLimits .background (str "t")
    (match Export .sorted [onFor (str "a") [], onFor (str "b") []] [] defaultLimits with
      | .ok data => data
      | .error _ => [])
    ⟨false, .replace⟩ (str "actor")

/-- The deleted feature is replaced, and the other one is created. -/
theorem import_merges_deleted :
    letI := unaryRuntime
    let report : ImportReport := ⟨false, 1, 1, 0, 0, 0, [⟨str "feature", str "a", 1, 1⟩]⟩
    ∃ t definitions groups, importTwo.run deletedOne = .ok report t ∧
      Merges defaultLimits (str "actor") .replace definitions groups report deletedOne t := by
  let _ := unaryRuntime
  intro report
  have happly : ∃ t, importTwo.run deletedOne = .ok report t :=
    run'_eq_some.mp (by decide +kernel)
  obtain ⟨t, ht⟩ := happly
  obtain ⟨policy, definitions, groups, himports, -⟩ := run_importDocument_eq_ok.mp ht
  exact ⟨t, definitions, groups, ht, import_merges rfl ht rfl himports.read⟩

end FeatureFlags
