import FeatureFlags.Memory
import FeatureFlags.Equiv.Snapshot
import FeatureFlags.Lib.Transaction

/-!
# What the operations of a provider do

* `Effect`: what a call that returns success does to the state, one case for each way.
* `effect_of_exec`: this is all that a call can do.
* `safe_exec`: a call that returns an error does nothing.

The invariants of runs use these and never the operations themselves.
-/

namespace FeatureFlags

open Go Lib
open Std (ExtTreeMap)
open EStateM hiding run_throw

variable {κ : Type}

/-! ### Writes -/

namespace TenantState

/-- The state after `appendAudit`. -/
def recorded (limits : Limits) (entry : AuditEntry) (s : TenantState κ) : TenantState κ :=
  { s with audit := (s.audit ++ [entry]).drop (len s.audit + 1 - limits.maxAuditEntries).toNat }

/-- The state after a record is written. -/
def write (limits : Limits) (key : Bytes) (record : MemoryRecord κ) (action : AuditAction)
    (actor : Bytes) (s : TenantState κ) : TenantState κ :=
  recorded limits ⟨key, action, actor, record.definition.version⟩
    { s with features := s.features.insert key record }

/-- The state after a group is written. -/
def writeGroup (limits : Limits) (key : Bytes) (group : GroupDefinition κ) (action : AuditAction)
    (actor : Bytes) (s : TenantState κ) : TenantState κ :=
  recorded limits ⟨key, action, actor, group.version⟩
    { s with groups := s.groups.insert key group }

/-- The state after a group is deleted. -/
def eraseGroup (limits : Limits) (key : Bytes) (version : Nat) (actor : Bytes)
    (s : TenantState κ) : TenantState κ :=
  recorded limits ⟨key, .groupDelete, actor, version⟩ { s with groups := s.groups.erase key }

def stage (limits : Limits) (change : StagedChange κ) (s : TenantState κ) : TenantState κ :=
  recorded limits ⟨change.definition.key, .stageUpdate, change.actor, change.expectedVersion⟩
    { s with nextStage := change.id, staged := s.staged.insert change.id change }

/-- The state after staged changes are struck off. -/
def struck (limits : Limits) (actor : Bytes) (s : TenantState κ) :
    List (Nat × Definition κ) → TenantState κ
  | [] => s
  | (id, result) :: rest =>
    struck limits actor (recorded limits ⟨result.key, .applyStage, actor, result.version⟩
      { s with staged := s.staged.erase id }) rest

/-- The state after the entries of an import are recorded. -/
def imported (limits : Limits) (actor : Bytes) (s : TenantState κ) :
    List PendingAudit → TenantState κ
  | [] => s
  | audit :: rest =>
    imported limits actor (s.recorded limits ⟨audit.key, audit.action, actor, audit.version⟩) rest

/-- The feature `key` exists and is not deleted. -/
def Live (s : TenantState κ) (key : Bytes) (record : MemoryRecord κ) : Prop :=
  s.features[key]? = some record ∧ record.deleted = false

section Fields

variable (limits : Limits) (entry : AuditEntry) (key actor : Bytes) (record : MemoryRecord κ)
  (group : GroupDefinition κ) (action : AuditAction) (change : StagedChange κ)
  (results : List (Nat × Definition κ)) (audits : List PendingAudit) (s : TenantState κ)

@[simp] theorem recorded_features : (s.recorded limits entry).features = s.features := rfl

@[simp] theorem recorded_groups : (s.recorded limits entry).groups = s.groups := rfl

@[simp] theorem recorded_staged : (s.recorded limits entry).staged = s.staged := rfl

@[simp] theorem recorded_nextStage : (s.recorded limits entry).nextStage = s.nextStage := rfl

@[simp] theorem struck_features : (s.struck limits actor results).features = s.features := by
  induction results generalizing s with
  | nil => rfl
  | cons x rest ih => rw [struck, ih, recorded_features]

@[simp] theorem struck_groups : (s.struck limits actor results).groups = s.groups := by
  induction results generalizing s with
  | nil => rfl
  | cons x rest ih => rw [struck, ih, recorded_groups]

@[simp] theorem struck_nextStage : (s.struck limits actor results).nextStage = s.nextStage := by
  induction results generalizing s with
  | nil => rfl
  | cons x rest ih => rw [struck, ih, recorded_nextStage]

@[simp] theorem imported_features : (s.imported limits actor audits).features = s.features := by
  induction audits generalizing s with
  | nil => rfl
  | cons x rest ih => rw [imported, ih, recorded_features]

@[simp] theorem imported_groups : (s.imported limits actor audits).groups = s.groups := by
  induction audits generalizing s with
  | nil => rfl
  | cons x rest ih => rw [imported, ih, recorded_groups]

@[simp] theorem imported_staged : (s.imported limits actor audits).staged = s.staged := by
  induction audits generalizing s with
  | nil => rfl
  | cons x rest ih => rw [imported, ih, recorded_staged]

@[simp] theorem imported_nextStage : (s.imported limits actor audits).nextStage = s.nextStage := by
  induction audits generalizing s with
  | nil => rfl
  | cons x rest ih => rw [imported, ih, recorded_nextStage]

end Fields

end TenantState

/-! ### The building blocks -/

variable {version : Nat}

section Blocks

variable {s t : TenantState κ} {limits : Limits} {tenant key actor : Bytes}

@[simp] theorem run_fail_eq_ok {α : Type} {e : GoError} {a : α} :
    (fail e : Op κ α).run s = .ok a t ↔ False := by
  simp [fail, run_throw]

theorem run_check_eq_ok {α : Type} {x : Except GoError α} {a : α} :
    (check x : Op κ α).run s = .ok a t ↔ x = .ok a ∧ s = t := by
  cases x <;> simp [check]

theorem run_liveRecord_eq_ok {record : MemoryRecord κ} :
    (liveRecord tenant key : Op κ _).run s = .ok record t ↔ s.Live key record ∧ s = t := by
  unfold liveRecord TenantState.Live
  simp only [run_bind_eq_ok, run_get, Result.ok.injEq]
  constructor
  · rintro ⟨_, _, ⟨rfl, rfl⟩, h⟩
    split at h
    · simp at h
    · rename_i r hr
      cases hd : r.deleted <;> simp [hd] at h
      exact ⟨⟨by rw [hr, h.1], h.1 ▸ hd⟩, h.2⟩
  · rintro ⟨⟨hr, hd⟩, rfl⟩
    refine ⟨s, s, ⟨rfl, rfl⟩, ?_⟩
    simp [hr, hd]

theorem run_expectVersion_eq_ok {current expected : Nat} {u : Unit} :
    (expectVersion tenant key current expected : Op κ Unit).run s = .ok u t ↔
      current = expected ∧ s = t := by
  unfold expectVersion
  by_cases h : current = expected
  · simp [h]
  · simp [h]

theorem run_appendAudit_eq_ok {action : AuditAction} {u : Unit} :
    (appendAudit limits key action actor version : Op κ Unit).run s = .ok u t ↔
      0 ≤ limits.maxAuditEntries ∧ t = s.recorded limits ⟨key, action, actor, version⟩ := by
  have hlen : len (s.audit ++ [⟨key, action, actor, version⟩]) = len s.audit + 1 := by simp [len]
  unfold appendAudit TenantState.recorded
  simp only [run_bind_eq_ok, run_get, Result.ok.injEq]
  constructor
  · rintro ⟨_, _, ⟨rfl, rfl⟩, h⟩
    rw [hlen] at h
    split_ifs at h with hx
    · simp [run_throw] at h
    · simp only [run_set, Result.ok.injEq] at h
      exact ⟨by omega, h.2.symm⟩
  · rintro ⟨h, rfl⟩
    refine ⟨s, s, ⟨rfl, rfl⟩, ?_⟩
    rw [hlen, if_neg (by omega)]
    rfl

theorem run_recordApplied_eq_ok {results} {u : Unit}
    (h : (recordApplied limits actor results).run s = .ok u t) :
    t = s.struck limits actor results := by
  induction results generalizing s with
  | nil => exact (Result.ok.inj h).2.symm
  | cons x rest ih =>
    simp only [recordApplied, run_bind_eq_ok, run_modify, Result.ok.injEq,
      run_appendAudit_eq_ok] at h
    obtain ⟨-, -, ⟨-, rfl⟩, -, -, ⟨-, rfl⟩, h⟩ := h
    exact ih h

theorem run_recordImported_eq_ok {audits} {u : Unit}
    (h : (recordImported limits actor audits).run s = .ok u t) :
    t = s.imported limits actor audits := by
  induction audits generalizing s with
  | nil => exact (Result.ok.inj h).2.symm
  | cons x rest ih =>
    simp only [recordImported, run_bind_eq_ok, run_appendAudit_eq_ok] at h
    obtain ⟨-, -, ⟨-, rfl⟩, h⟩ := h
    exact ih h

end Blocks

/-! ### Failed calls -/

section Failures

variable {limits : Limits} {ctx : Ctx} {tenant key featureKey groupKey actor : Bytes}
  {action : AuditAction} {definition : Definition κ} {group : GroupDefinition κ}

theorem readOnly_fail {α : Type} {e : GoError} : ReadOnly (fail e : Op κ α) :=
  readOnly_throw _

theorem readOnly_check {α : Type} {x : Except GoError α} : ReadOnly (check x : Op κ α) := by
  cases x with
  | ok a => exact readOnly_pure a
  | error e => exact readOnly_fail

theorem readOnly_liveRecord : ReadOnly (liveRecord tenant key : Op κ _) := by
  unfold liveRecord
  refine readOnly_get.bind fun s => ?_
  split
  · exact readOnly_fail
  · split_ifs
    · exact readOnly_fail
    · exact readOnly_pure _

theorem readOnly_expectVersion {current expected : Nat} :
    ReadOnly (expectVersion tenant key current expected : Op κ Unit) := by
  unfold expectVersion
  split_ifs
  · exact readOnly_fail
  · exact readOnly_pure _

/-- A call fails with a panic, or it has changed nothing. -/
def Safe {α : Type} (x : Op κ α) : Prop := Atomic (· = Failure.panic) x

theorem failsOnly_appendAudit :
    FailsOnly (· = Failure.panic) (appendAudit limits key action actor version : Op κ Unit) := by
  unfold appendAudit
  refine failsOnly_get.bind fun s => ?_
  dsimp only
  split_ifs
  · intro s e t h
    exact (Result.error.inj h).1.symm
  · exact failsOnly_set _

theorem failsOnly_recordApplied {results : List (Nat × Definition κ)} :
    FailsOnly (· = Failure.panic) (recordApplied limits actor results) := by
  induction results with
  | nil => exact failsOnly_pure _
  | cons x rest ih =>
    exact (failsOnly_modify _).bind fun _ => failsOnly_appendAudit.bind fun _ => ih

theorem failsOnly_recordImported {audits : List PendingAudit} :
    FailsOnly (· = Failure.panic) (recordImported limits actor audits : Op κ Unit) := by
  induction audits with
  | nil => exact failsOnly_pure _
  | cons x rest ih => exact failsOnly_appendAudit.bind fun _ => ih

/-- The end of an operation: write, record, return. -/
theorem safe_write {α : Type} {g : TenantState κ → TenantState κ} {a : α} :
    Safe (do
      modify g
      appendAudit limits key action actor version
      return a : Op κ α) :=
  ((failsOnly_modify g).bind fun _ =>
    failsOnly_appendAudit.bind fun _ => failsOnly_pure a).atomic

theorem safe_cleanup {options : CleanupOptions} :
    Safe (cleanup limits ctx tenant options : Op κ _) := by
  refine Atomic.bind readOnly_check fun _ => ?_
  split
  · exact readOnly_fail.atomic
  · refine Atomic.bind readOnly_get fun s => ?_
    dsimp only
    split
    · exact ((failsOnly_set _).bind fun _ => failsOnly_pure _).atomic
    · exact ((failsOnly_set _).bind fun _ => failsOnly_pure _).atomic

theorem readOnly_audit : ReadOnly (audit limits ctx tenant key : Op κ _) :=
  readOnly_check.bind fun _ => readOnly_get.bind fun _ => readOnly_pure _

variable [CustomStrategy κ]

theorem safe_setLifecycle {lifecycle : Lifecycle} {deleted : Bool} :
    Safe (setLifecycle limits ctx tenant key version actor lifecycle action deleted : Op κ _) :=
  Atomic.bind readOnly_check fun _ => Atomic.bind readOnly_liveRecord fun _ =>
    Atomic.bind readOnly_expectVersion fun _ => safe_write

theorem safe_restore : Safe (restore limits ctx tenant key version actor : Op κ _) := by
  refine Atomic.bind readOnly_check fun _ => Atomic.bind readOnly_get fun s => ?_
  split
  · exact readOnly_fail.atomic
  · split_ifs
    · exact Atomic.bind readOnly_expectVersion fun _ => safe_write
    · exact readOnly_fail.atomic

theorem safe_deleteGroup :
    Safe (deleteGroup limits ctx tenant groupKey version actor : Op κ _) := by
  refine Atomic.bind readOnly_check fun _ => Atomic.bind readOnly_get fun s => ?_
  split
  · exact readOnly_fail.atomic
  · refine Atomic.bind readOnly_expectVersion fun _ => ?_
    split_ifs
    · exact readOnly_fail.atomic
    · exact readOnly_fail.atomic
    · exact safe_write

theorem safe_removeGroup :
    Safe (removeGroup limits ctx tenant featureKey groupKey version actor : Op κ _) := by
  refine Atomic.bind readOnly_check fun _ => Atomic.bind readOnly_liveRecord fun _ =>
    Atomic.bind readOnly_expectVersion fun _ => ?_
  dsimp only
  split_ifs
  · exact safe_write
  · exact readOnly_fail.atomic

theorem readOnly_stagedChanges : ReadOnly (stagedChanges limits ctx tenant : Op κ _) :=
  readOnly_check.bind fun _ => readOnly_get.bind fun _ => readOnly_pure _

variable [Runtime] {ord : MapOrder}

theorem safe_create : Safe (create ord limits ctx tenant definition actor) := by
  refine Atomic.bind readOnly_check fun _ => Atomic.bind readOnly_check fun _ =>
    Atomic.bind readOnly_get fun s => ?_
  split_ifs
  · exact readOnly_fail.atomic
  · exact readOnly_fail.atomic
  · exact safe_write

theorem safe_update : Safe (update ord limits ctx tenant definition version actor) :=
  Atomic.bind readOnly_check fun _ => Atomic.bind readOnly_check fun _ =>
    Atomic.bind readOnly_liveRecord fun _ =>
      Atomic.bind readOnly_expectVersion fun _ => safe_write

theorem safe_createGroup : Safe (createGroup ord limits ctx tenant group actor) := by
  refine Atomic.bind readOnly_check fun _ => Atomic.bind readOnly_get fun s => ?_
  split_ifs
  · exact readOnly_fail.atomic
  · exact Atomic.bind readOnly_check fun _ => safe_write

theorem safe_updateGroup : Safe (updateGroup ord limits ctx tenant group version actor) := by
  refine Atomic.bind readOnly_check fun _ => Atomic.bind readOnly_get fun s => ?_
  split
  · exact readOnly_fail.atomic
  · exact Atomic.bind readOnly_expectVersion fun _ =>
      Atomic.bind readOnly_check fun _ => safe_write

theorem safe_assignGroup :
    Safe (assignGroup ord limits ctx tenant featureKey groupKey version actor : Op κ _) := by
  refine Atomic.bind readOnly_check fun _ => Atomic.bind readOnly_get fun s => ?_
  split_ifs
  · refine Atomic.bind readOnly_liveRecord fun _ =>
      Atomic.bind readOnly_expectVersion fun _ => ?_
    split_ifs
    · exact (readOnly_pure _).atomic
    · exact Atomic.bind readOnly_check fun _ => safe_write
  · exact readOnly_fail.atomic

theorem safe_stageUpdate {applyAt : ZonedTime} :
    Safe (stageUpdate ord limits ctx tenant definition version applyAt actor) := by
  refine Atomic.bind readOnly_check fun _ => Atomic.bind readOnly_check fun _ =>
    Atomic.bind readOnly_liveRecord fun _ =>
      Atomic.bind readOnly_expectVersion fun _ => Atomic.bind readOnly_get fun s => ?_
  split_ifs
  · exact readOnly_fail.atomic
  · exact readOnly_fail.atomic
  · exact ((failsOnly_set _).bind fun _ =>
      failsOnly_appendAudit.bind fun _ => failsOnly_pure _).atomic

theorem safe_applyStages {ids : List Nat} :
    Safe (applyStages ord limits tenant ids actor : Op κ _) :=
  Atomic.bind readOnly_get fun _ => Atomic.bind readOnly_check fun _ =>
    Atomic.bind readOnly_check fun _ =>
      ((failsOnly_set _).bind fun _ =>
        failsOnly_recordApplied.bind fun _ => failsOnly_pure _).atomic

theorem safe_applyStage {id : Nat} : Safe (applyStage ord limits ctx tenant id actor : Op κ _) := by
  refine Atomic.bind readOnly_check fun _ =>
    safe_applyStages.bind_pure fun results => ?_
  cases results with
  | nil =>
    intro s e t h
    exact (Result.error.inj h).1.symm
  | cons => exact failsOnly_pure _

theorem safe_applyScheduled {now : Time} :
    Safe (applyScheduled ord limits ctx tenant now actor : Op κ _) := by
  refine Atomic.bind readOnly_check fun _ => ?_
  split_ifs
  · exact readOnly_fail.atomic
  · refine Atomic.bind readOnly_get fun s => ?_
    dsimp only
    split_ifs
    · exact (readOnly_pure _).atomic
    · exact safe_applyStages

theorem safe_importDocument {data : Bytes} {options : ImportOptions} :
    Safe (importDocument ord limits ctx tenant data options actor : Op κ _) := by
  refine Atomic.bind readOnly_check fun _ => Atomic.bind readOnly_check fun _ =>
    Atomic.bind readOnly_check fun (definitions, groups) => ?_
  dsimp only
  split
  · exact readOnly_fail.atomic
  · refine Atomic.bind readOnly_get fun s => ?_
    split
    · exact (readOnly_throw _).atomic
    · split
      · exact (readOnly_throw _).atomic
      · split
        · exact (readOnly_pure _).atomic
        · exact ((failsOnly_set _).bind fun _ =>
            failsOnly_recordImported.bind fun _ => failsOnly_pure _).atomic

theorem readOnly_snapshot : ReadOnly (snapshot ord limits ctx tenant : Op κ _) :=
  readOnly_check.bind fun _ => readOnly_get.bind fun _ => readOnly_check.bind fun _ =>
    readOnly_pure _

theorem readOnly_exportDocument : ReadOnly (exportDocument ord limits ctx tenant : Op κ _) :=
  readOnly_check.bind fun _ => readOnly_get.bind fun _ => readOnly_check

theorem readOnly_importDocument {data : Bytes} {options : ImportOptions}
    (dry : options.dryRun = true) :
    ReadOnly (importDocument ord limits ctx tenant data options actor : Op κ _) := by
  refine readOnly_check.bind fun _ => readOnly_check.bind fun _ =>
    readOnly_check.bind fun (definitions, groups) => ?_
  dsimp only
  split
  · exact readOnly_fail
  · refine readOnly_get.bind fun s => ?_
    split
    · exact readOnly_throw _
    · split
      · exact readOnly_throw _
      · exact readOnly_pure _

/-- A failed call changes nothing, unless it panics. -/
theorem safe_exec {call : Call κ} : Safe (call.exec ord limits ctx tenant) := by
  cases call with
  | create => exact safe_create.map _
  | update => exact safe_update.map _
  | activate | deactivate | delete => exact safe_setLifecycle.map _
  | restore => exact safe_restore.map _
  | createGroup => exact safe_createGroup.map _
  | updateGroup => exact safe_updateGroup.map _
  | deleteGroup => exact safe_deleteGroup.map _
  | assignGroup => exact safe_assignGroup.map _
  | removeGroup => exact safe_removeGroup.map _
  | stageUpdate => exact safe_stageUpdate.map _
  | applyStage => exact safe_applyStage.map _
  | applyScheduled => exact safe_applyScheduled.map _
  | importDocument => exact safe_importDocument.map _
  | cleanup => exact safe_cleanup.map _
  | snapshot => exact Atomic.map readOnly_snapshot.atomic _
  | audit => exact Atomic.map readOnly_audit.atomic _
  | stagedChanges => exact Atomic.map readOnly_stagedChanges.atomic _
  | exportDocument => exact Atomic.map readOnly_exportDocument.atomic _

end Failures

/-! ### Successful calls -/

section Effects

theorem filter_purgedKeys (options : CleanupOptions) (records : GoMap (MemoryRecord κ)) :
    records.filter (fun key _ => key ∉ purgedKeys options records) =
      if options.purgeDeleted then records.filter fun _ record => !record.deleted else records := by
  unfold purgedKeys
  split_ifs
  · apply ExtTreeMap.ext_getElem?
    intro key
    cases h : records[key]? with
    | none => simp [h]
    | some record =>
      simp only [ExtTreeMap.getElem?_filter, ExtTreeMap.mem_iff_isSome_getElem?,
        ExtTreeMap.getElem?_filterMap, h]
      cases hd : record.deleted <;> simp [h, hd, Option.filter]
  · ext
    simp

theorem lookup_of_kept {options : CleanupOptions} {records : GoMap (MemoryRecord κ)} {key : Bytes}
    {record : MemoryRecord κ} (h : (if options.purgeDeleted
      then records.filter fun _ record => !record.deleted else records)[key]? = some record) :
    records[key]? = some record := by
  split_ifs at h
  · rw [ExtTreeMap.getElem?_filter', Option.filter_eq_some_iff] at h
    exact h.1
  · exact h

variable [CustomStrategy κ] [Runtime]

variable (ord : MapOrder) (limits : Limits) (tenant : Bytes) in
/-- What a call that returns success does. -/
inductive Effect : Call κ → TenantState κ → TenantState κ → Prop
  | create {definition : Definition κ} {actor : Bytes} {s : TenantState κ}
      (valid : definition.validate ord limits = .ok ()) (absent : definition.key ∉ s.features)
      (room : s.features.len < limits.maxFeatures) :
      Effect (.create definition actor) s
        (s.write limits definition.key ⟨cloneDefinition { definition with version := 1 }, false⟩
          .create actor)
  | update {definition : Definition κ} {actor : Bytes} {s : TenantState κ}
      {record : MemoryRecord κ} (valid : definition.validate ord limits = .ok ())
      (live : s.Live definition.key record) :
      Effect (.update definition record.definition.version actor) s
        (s.write limits definition.key ⟨cloneDefinition { definition with version :=
          record.definition.version + 1 }, false⟩ .update actor)
  | activate {key actor : Bytes} {s : TenantState κ} {record : MemoryRecord κ}
      (live : s.Live key record) :
      Effect (.activate key record.definition.version actor) s
        (s.write limits key ⟨{ record.definition with
          lifecycle := .active, version := record.definition.version + 1 }, false⟩ .activate actor)
  | deactivate {key actor : Bytes} {s : TenantState κ} {record : MemoryRecord κ}
      (live : s.Live key record) :
      Effect (.deactivate key record.definition.version actor) s
        (s.write limits key ⟨{ record.definition with
          lifecycle := .inactive, version := record.definition.version + 1 }, false⟩
          .deactivate actor)
  | delete {key actor : Bytes} {s : TenantState κ} {record : MemoryRecord κ}
      (live : s.Live key record) :
      Effect (.delete key record.definition.version actor) s
        (s.write limits key ⟨{ record.definition with
          lifecycle := .archived, version := record.definition.version + 1 }, true⟩ .delete actor)
  | restore {key actor : Bytes} {s : TenantState κ} {record : MemoryRecord κ}
      (found : s.features[key]? = some record) (deleted : record.deleted = true) :
      Effect (.restore key record.definition.version actor) s
        (s.write limits key ⟨{ record.definition with
          lifecycle := .inactive, version := record.definition.version + 1 }, false⟩
          .restore actor)
  | createGroup {group : GroupDefinition κ} {actor : Bytes} {s : TenantState κ}
      {cloned : GoMap (GroupDefinition κ)} (absent : group.key ∉ s.groups)
      (valid : cloneAndValidateGroups ord (activeDefinitions s.features)
        ((s.groups.range ord).map Prod.snd ++ [{ group with version := 1 }]) limits = .ok cloned) :
      Effect (.createGroup group actor) s
        (s.writeGroup limits group.key (storedGroup cloned group.key) .groupCreate actor)
  | updateGroup {group current : GroupDefinition κ} {actor : Bytes} {s : TenantState κ}
      {cloned : GoMap (GroupDefinition κ)} (found : s.groups[group.key]? = some current)
      (valid : cloneAndValidateGroups ord (activeDefinitions s.features)
        ((groupsFromMap ord s.groups).map fun g =>
          if g.key = group.key then { group with version := current.version + 1 } else g)
        limits = .ok cloned) :
      Effect (.updateGroup group current.version actor) s
        (s.writeGroup limits group.key (storedGroup cloned group.key) .groupUpdate actor)
  | deleteGroup {groupKey actor : Bytes} {s : TenantState κ} {group : GroupDefinition κ}
      (found : s.groups[groupKey]? = some group)
      (unused : ∀ key record, s.Live key record → groupKey ∉ record.definition.groups)
      (childless : ∀ (key : Bytes) (g : GroupDefinition κ), s.groups[key]? = some g →
        g.parent ≠ groupKey) :
      Effect (.deleteGroup groupKey group.version actor) s
        (s.eraseGroup limits groupKey (group.version + 1) actor)
  | alreadyAssigned {featureKey groupKey actor : Bytes} {s : TenantState κ}
      {record : MemoryRecord κ} (live : s.Live featureKey record)
      (listed : groupKey ∈ record.definition.groups) :
      Effect (.assignGroup featureKey groupKey record.definition.version actor) s s
  | assignGroup {featureKey groupKey actor : Bytes} {s : TenantState κ} {record : MemoryRecord κ}
      {cloned : GoMap (GroupDefinition κ)} (found : groupKey ∈ s.groups)
      (live : s.Live featureKey record) (fresh : groupKey ∉ record.definition.groups)
      (valid : cloneAndValidateGroups ord
        ((activeDefinitions s.features).insert featureKey
          { cloneDefinition record.definition with
            groups := record.definition.groups ++ [groupKey] })
        (groupsFromMap ord s.groups) limits = .ok cloned) :
      Effect (.assignGroup featureKey groupKey record.definition.version actor) s
        (s.write limits featureKey ⟨{ cloneDefinition record.definition with
            groups := record.definition.groups ++ [groupKey]
            version := record.definition.version + 1 }, record.deleted⟩ .assignGroup actor)
  | removeGroup {featureKey groupKey actor : Bytes} {s : TenantState κ} {record : MemoryRecord κ}
      (live : s.Live featureKey record) (listed : groupKey ∈ record.definition.groups) :
      Effect (.removeGroup featureKey groupKey record.definition.version actor) s
        (s.write limits featureKey ⟨{ cloneDefinition record.definition with
            groups := record.definition.groups.filter (· ≠ groupKey)
            version := record.definition.version + 1 }, record.deleted⟩ .removeGroup actor)
  | stageUpdate {definition : Definition κ} {actor : Bytes} {applyAt : ZonedTime}
      {s : TenantState κ} {record : MemoryRecord κ}
      (valid : definition.validate ord limits = .ok ()) (live : s.Live definition.key record)
      (room : (s.staged.size : Int) < limits.maxStagedChanges)
      (fresh : ∀ (id : Nat) (change : StagedChange κ), s.staged[id]? = some change →
        change.definition.key ≠ definition.key) :
      Effect (.stageUpdate definition record.definition.version applyAt actor) s
        (s.stage limits ⟨s.nextStage + 1, cloneDefinition definition,
          record.definition.version, applyAt, actor⟩)
  | applied {call : Call κ} {ids : List Nat} {actor : Bytes} {s : TenantState κ}
      {records : GoMap (MemoryRecord κ)} {results : List (Definition κ)} {snapshot : Snapshot κ}
      (due : (∃ id, call = .applyStage id actor ∧ ids = [id]) ∨
        ∃ now, call = .applyScheduled now actor ∧ ids = dueStages now s.staged)
      (replaced : ids.foldlM (applyStageStep tenant s.staged) (cloneMemoryRecords s.features, []) =
        .ok (records, results))
      (valid : newSnapshotWithGroups ord (definitionsFromRecords ord records)
        (groupsFromMap ord s.groups) limits = .ok snapshot) :
      Effect call s
        (TenantState.struck limits actor { s with features := records } (ids.zip results))
  | imported {data actor : Bytes} {options : ImportOptions} {policy : ConflictPolicy}
      {definitions : List (Definition κ)} {groups : List (GroupDefinition κ)}
      {s : TenantState κ} {snapshot : Snapshot κ}
      (applied : options.dryRun = false) (resolved : options.policy = .ok policy)
      (read : Import ord data limits = .ok (definitions, groups))
      (valid : newSnapshotWithGroups ord (definitionsFromRecords ord (importPlan policy false
        definitions groups s).records) (groupsFromMap ord (importPlan policy false definitions
        groups s).groups) limits = .ok snapshot) :
      Effect (.importDocument data options actor) s
        (TenantState.imported limits actor
          { s with
            features := (importPlan policy false definitions groups s).records
            groups := (importPlan policy false definitions groups s).groups }
          (importPlan policy false definitions groups s).audits)
  | cleanup {options : CleanupOptions} {s t : TenantState κ}
      (features : t.features = if options.purgeDeleted
        then s.features.filter fun _ record => !record.deleted else s.features)
      (groups : t.groups = s.groups) (audit : t.audit <:+ s.audit)
      (staged : ∀ (id : Nat) (change : StagedChange κ), t.staged[id]? = some change →
        s.staged[id]? = some change)
      (nextStage : t.nextStage = s.nextStage) :
      Effect (.cleanup options) s t
  | nothingDue {now : Time} {actor : Bytes} {s : TenantState κ}
      (none : dueStages now s.staged = []) :
      Effect (.applyScheduled now actor) s s
  | dryRun {data actor : Bytes} {options : ImportOptions} {s : TenantState κ}
      (dry : options.dryRun = true) :
      Effect (.importDocument data options actor) s s
  | read {call : Call κ} {s : TenantState κ}
      (reads : call = .snapshot ∨ (∃ key, call = .audit key) ∨ call = .stagedChanges ∨
        call = .exportDocument) :
      Effect call s s

variable {ord : MapOrder} {limits : Limits} {ctx : Ctx} {tenant : Bytes} {s t : TenantState κ}

variable {actor : Bytes} {result definition : Definition κ}

theorem effect_of_create
    (h : (create ord limits ctx tenant definition actor).run s = .ok result t) :
    Effect ord limits tenant (.create definition actor) s t := by
  simp only [create, run_bind_eq_ok, run_check_eq_ok, run_get, Result.ok.injEq] at h
  obtain ⟨_, _, ⟨_, rfl⟩, _, _, ⟨valid, rfl⟩, _, _, ⟨rfl, rfl⟩, h⟩ := h
  split_ifs at h with hkey hroom
  · simp at h
  · simp at h
  · simp only [putRecord, run_bind_eq_ok, run_appendAudit_eq_ok, run_modify,
      run_pure, Result.ok.injEq] at h
    obtain ⟨_, _, ⟨_, rfl⟩, _, _, ⟨_, rfl⟩, _, rfl⟩ := h
    exact .create valid hkey (by omega)

theorem effect_of_update
    (h : (update ord limits ctx tenant definition version actor).run s = .ok result t) :
    Effect ord limits tenant (.update definition version actor) s t := by
  simp only [update, putRecord, run_bind_eq_ok, run_check_eq_ok, run_liveRecord_eq_ok,
    run_expectVersion_eq_ok, run_appendAudit_eq_ok, run_modify, run_pure, Result.ok.injEq] at h
  obtain ⟨_, _, ⟨_, rfl⟩, _, _, ⟨valid, rfl⟩, record, _, ⟨live, rfl⟩, _, _, ⟨rfl, rfl⟩, _, _,
    ⟨_, rfl⟩, _, _, ⟨_, rfl⟩, _, rfl⟩ := h
  exact .update valid live

omit [Runtime] in
theorem run_setLifecycle_eq_ok {key : Bytes} {lifecycle : Lifecycle} {action : AuditAction}
    {deleted : Bool}
    (h : (setLifecycle limits ctx tenant key version actor lifecycle action deleted).run s =
      .ok result t) :
    ∃ record : MemoryRecord κ, s.Live key record ∧ record.definition.version = version ∧
      t = s.write limits key ⟨{ record.definition with
        lifecycle, version := record.definition.version + 1 }, deleted⟩ action actor := by
  simp only [setLifecycle, putRecord, run_bind_eq_ok, run_check_eq_ok, run_liveRecord_eq_ok,
    run_expectVersion_eq_ok, run_appendAudit_eq_ok, run_modify, run_pure, Result.ok.injEq] at h
  obtain ⟨_, _, ⟨_, rfl⟩, record, _, ⟨live, rfl⟩, _, _, ⟨rfl, rfl⟩, _, _, ⟨_, rfl⟩, _, _, ⟨_, rfl⟩,
    _, rfl⟩ := h
  exact ⟨record, live, rfl, rfl⟩

theorem effect_of_restore {key : Bytes}
    (h : (restore limits ctx tenant key version actor).run s = .ok result t) :
    Effect ord limits tenant (.restore key version actor) s t := by
  simp only [restore, run_bind_eq_ok, run_check_eq_ok, run_get, Result.ok.injEq] at h
  obtain ⟨_, _, ⟨_, rfl⟩, _, _, ⟨rfl, rfl⟩, h⟩ := h
  split at h
  · simp at h
  · rename_i record found
    split_ifs at h with deleted
    · simp only [putRecord, run_bind_eq_ok, run_expectVersion_eq_ok, run_appendAudit_eq_ok,
        run_modify, run_pure, Result.ok.injEq] at h
      obtain ⟨_, _, ⟨rfl, rfl⟩, _, _, ⟨_, rfl⟩, _, _, ⟨_, rfl⟩, _, rfl⟩ := h
      exact .restore found deleted
    · simp at h

theorem effect_of_createGroup {group result}
    (h : (createGroup ord limits ctx tenant group actor).run s = .ok result t) :
    Effect ord limits tenant (.createGroup group actor) s t := by
  simp only [createGroup, run_bind_eq_ok, run_check_eq_ok, run_get, Result.ok.injEq] at h
  obtain ⟨_, _, ⟨_, rfl⟩, _, _, ⟨rfl, rfl⟩, h⟩ := h
  split_ifs at h with absent
  · simp at h
  · simp only [putGroup, run_bind_eq_ok, run_check_eq_ok, run_appendAudit_eq_ok,
      run_modify, run_pure, Result.ok.injEq] at h
    obtain ⟨cloned, _, ⟨valid, rfl⟩, _, _, ⟨_, rfl⟩, _, _, ⟨_, rfl⟩, _, rfl⟩ := h
    exact .createGroup absent valid

theorem effect_of_updateGroup {group result}
    (h : (updateGroup ord limits ctx tenant group version actor).run s = .ok result t) :
    Effect ord limits tenant (.updateGroup group version actor) s t := by
  simp only [updateGroup, run_bind_eq_ok, run_check_eq_ok, run_get, Result.ok.injEq] at h
  obtain ⟨_, _, ⟨_, rfl⟩, _, _, ⟨rfl, rfl⟩, h⟩ := h
  split at h
  · simp at h
  · rename_i current found
    simp only [putGroup, run_bind_eq_ok, run_check_eq_ok, run_expectVersion_eq_ok,
      run_appendAudit_eq_ok, run_modify, run_pure, Result.ok.injEq] at h
    obtain ⟨_, _, ⟨rfl, rfl⟩, cloned, _, ⟨valid, rfl⟩, _, _, ⟨_, rfl⟩, _, _, ⟨_, rfl⟩, _, rfl⟩ := h
    exact .updateGroup found valid

theorem effect_of_deleteGroup {groupKey : Bytes} {result}
    (h : (deleteGroup limits ctx tenant groupKey version actor).run s = .ok result t) :
    Effect ord limits tenant (.deleteGroup groupKey version actor) s t := by
  simp only [deleteGroup, run_bind_eq_ok, run_check_eq_ok, run_get, Result.ok.injEq] at h
  obtain ⟨_, _, ⟨_, rfl⟩, _, _, ⟨rfl, rfl⟩, h⟩ := h
  split at h
  · simp at h
  · rename_i group found
    simp only [run_bind_eq_ok, run_expectVersion_eq_ok] at h
    obtain ⟨_, _, ⟨rfl, rfl⟩, h⟩ := h
    split_ifs at h with unused childless
    · simp at h
    · simp at h
    · simp only [run_bind_eq_ok, run_appendAudit_eq_ok, run_modify, run_pure, Result.ok.injEq] at h
      obtain ⟨_, _, ⟨_, rfl⟩, _, _, ⟨_, rfl⟩, _, rfl⟩ := h
      refine .deleteGroup found ?_ ?_
      · intro key record ⟨hrecord, hlive⟩ hgroup
        refine unused (List.any_eq_true.mpr ⟨(key, record), ?_, ?_⟩)
        · exact ExtTreeMap.mem_toList_iff_getElem?_eq_some.mpr hrecord
        · simp [hlive, listed, hgroup]
      · intro key g hg hparent
        refine childless (List.any_eq_true.mpr ⟨(key, g), ?_, ?_⟩)
        · exact ExtTreeMap.mem_toList_iff_getElem?_eq_some.mpr hg
        · simp [hparent]

theorem effect_of_assignGroup {featureKey groupKey : Bytes}
    (h : (assignGroup ord limits ctx tenant featureKey groupKey version actor).run s =
      .ok result t) :
    Effect ord limits tenant (.assignGroup featureKey groupKey version actor) s t := by
  simp only [assignGroup, run_bind_eq_ok, run_check_eq_ok, run_get, Result.ok.injEq] at h
  obtain ⟨_, _, ⟨_, rfl⟩, _, _, ⟨rfl, rfl⟩, h⟩ := h
  split_ifs at h with found
  · simp only [run_bind_eq_ok, run_liveRecord_eq_ok, run_expectVersion_eq_ok] at h
    obtain ⟨record, _, ⟨live, rfl⟩, _, _, ⟨rfl, rfl⟩, h⟩ := h
    split_ifs at h with hlisted
    · obtain ⟨-, rfl⟩ := Result.ok.inj h
      exact .alreadyAssigned live (by simpa [listed] using hlisted)
    · simp only [putRecord, run_bind_eq_ok, run_check_eq_ok, run_appendAudit_eq_ok,
        run_modify, run_pure, Result.ok.injEq] at h
      obtain ⟨cloned, _, ⟨valid, rfl⟩, _, _, ⟨_, rfl⟩, _, _, ⟨_, rfl⟩, _, rfl⟩ := h
      exact .assignGroup found live (by simpa [listed] using hlisted) valid
  · simp at h

theorem effect_of_removeGroup {featureKey groupKey : Bytes}
    (h : (removeGroup limits ctx tenant featureKey groupKey version actor).run s = .ok result t) :
    Effect ord limits tenant (.removeGroup featureKey groupKey version actor) s t := by
  simp only [removeGroup, run_bind_eq_ok, run_check_eq_ok, run_liveRecord_eq_ok,
    run_expectVersion_eq_ok] at h
  obtain ⟨_, _, ⟨_, rfl⟩, record, _, ⟨live, rfl⟩, _, _, ⟨rfl, rfl⟩, h⟩ := h
  split_ifs at h with hlisted
  · simp only [putRecord, run_bind_eq_ok, run_appendAudit_eq_ok, run_modify,
      run_pure, Result.ok.injEq] at h
    obtain ⟨_, _, ⟨_, rfl⟩, _, _, ⟨_, rfl⟩, _, rfl⟩ := h
    exact .removeGroup live hlisted
  · simp at h

section

variable {applyAt : ZonedTime} {result : StagedChange κ}
  (h : (stageUpdate ord limits ctx tenant definition version applyAt actor).run s = .ok result t)
include h

theorem run_stageUpdate_eq_ok :
    ∃ record : MemoryRecord κ, definition.validate ord limits = .ok () ∧
      s.Live definition.key record ∧ record.definition.version = version ∧
      (s.staged.size : Int) < limits.maxStagedChanges ∧
      (∀ (id : Nat) (change : StagedChange κ), s.staged[id]? = some change →
        change.definition.key ≠ definition.key) ∧
      result = cloneStagedChange
        ⟨s.nextStage + 1, cloneDefinition definition, version, applyAt, actor⟩ ∧
      t = s.stage limits
        ⟨s.nextStage + 1, cloneDefinition definition, version, applyAt, actor⟩ := by
  simp only [stageUpdate, run_bind_eq_ok, run_check_eq_ok, run_liveRecord_eq_ok,
    run_expectVersion_eq_ok, run_get, Result.ok.injEq] at h
  obtain ⟨_, _, ⟨_, rfl⟩, _, _, ⟨valid, rfl⟩, record, _, ⟨live, rfl⟩, _, _, ⟨rfl, rfl⟩, _, _,
    ⟨rfl, rfl⟩, h⟩ := h
  split_ifs at h with room fresh
  · simp at h
  · simp at h
  · simp only [run_bind_eq_ok, run_appendAudit_eq_ok, run_set, run_pure, Result.ok.injEq] at h
    obtain ⟨_, _, ⟨_, rfl⟩, _, _, ⟨_, rfl⟩, rfl, rfl⟩ := h
    refine ⟨record, valid, live, rfl, by omega, ?_, rfl, rfl⟩
    intro id change hchange hkey
    refine fresh (List.any_eq_true.mpr ⟨(id, change), ?_, ?_⟩)
    · exact ExtTreeMap.mem_toList_iff_getElem?_eq_some.mpr hchange
    · simp [hkey]

theorem effect_of_stageUpdate :
    Effect ord limits tenant (.stageUpdate definition version applyAt actor) s t := by
  obtain ⟨record, valid, live, rfl, room, fresh, -, rfl⟩ := run_stageUpdate_eq_ok h
  exact .stageUpdate valid live room fresh

end

theorem run_applyStages_eq_ok {ids : List Nat} {results}
    (h : (applyStages ord limits tenant ids actor).run s = .ok results t) :
    ∃ records snapshot,
      ids.foldlM (applyStageStep tenant s.staged) (cloneMemoryRecords s.features, []) =
        .ok (records, results) ∧
      newSnapshotWithGroups ord (definitionsFromRecords ord records) (groupsFromMap ord s.groups)
        limits = .ok snapshot ∧
      t = TenantState.struck limits actor { s with features := records } (ids.zip results) := by
  simp only [applyStages, run_bind_eq_ok, run_check_eq_ok, run_get, run_set,
    run_pure, Result.ok.injEq] at h
  obtain ⟨_, _, ⟨rfl, rfl⟩, ⟨records, _⟩, _, ⟨replaced, rfl⟩, snapshot, _, ⟨valid, rfl⟩, _, _,
    ⟨_, rfl⟩, _, _, h, rfl, rfl⟩ := h
  exact ⟨records, snapshot, replaced, valid, run_recordApplied_eq_ok h⟩

omit [Runtime] in
/-- The loop of `applyStagesLocked` has one result for each number. -/
theorem length_applyStages {staged} {ids : List Nat}
    {m m' : GoMap (MemoryRecord κ) × List (Definition κ)}
    (h : ids.foldlM (applyStageStep tenant staged) m = .ok m') :
    m'.2.length = m.2.length + ids.length := by
  induction ids generalizing m with
  | nil =>
    cases h
    rfl
  | cons id ids ih =>
    rw [List.foldlM_cons, bind_eq_ok] at h
    obtain ⟨m₁, hstep, hrest⟩ := h
    have hlen : m₁.2.length = m.2.length + 1 := by
      unfold applyStageStep at hstep
      split at hstep
      · cases hstep
      · split at hstep
        · cases hstep
        · simp only [bind_eq_ok, rejectIf_eq_ok, pure_eq_ok] at hstep
          obtain ⟨-, -, -, -, rfl⟩ := hstep
          simp
    rw [ih hrest, hlen, List.length_cons]
    omega

theorem effect_of_applyStage {id : Nat}
    (h : (applyStage ord limits ctx tenant id actor).run s = .ok result t) :
    Effect ord limits tenant (.applyStage id actor) s t := by
  simp only [applyStage, run_bind_eq_ok, run_check_eq_ok] at h
  obtain ⟨_, _, ⟨_, rfl⟩, results, u, h, hresult⟩ := h
  obtain ⟨records, snapshot, replaced, valid, rfl⟩ := run_applyStages_eq_ok h
  split at hresult
  · obtain ⟨-, rfl⟩ := Result.ok.inj hresult
    exact .applied (.inl ⟨id, rfl, rfl⟩) replaced valid
  · simp [run_throw] at hresult

theorem effect_of_applyScheduled {now : Time} {results}
    (h : (applyScheduled ord limits ctx tenant now actor).run s = .ok results t) :
    Effect ord limits tenant (.applyScheduled now actor) s t := by
  simp only [applyScheduled, run_bind_eq_ok, run_check_eq_ok] at h
  obtain ⟨_, _, ⟨_, rfl⟩, h⟩ := h
  split_ifs at h
  · simp at h
  · simp only [run_bind_eq_ok, run_get, Result.ok.injEq] at h
    obtain ⟨_, _, ⟨rfl, rfl⟩, h⟩ := h
    split_ifs at h with none
    · obtain ⟨-, rfl⟩ := Result.ok.inj h
      exact .nothingDue none
    · obtain ⟨records, snapshot, replaced, valid, rfl⟩ := run_applyStages_eq_ok h
      exact .applied (.inr ⟨now, rfl, rfl⟩) replaced valid

theorem effect_of_importDocument {data : Bytes} {options : ImportOptions} {report : ImportReport}
    (h : (importDocument ord limits ctx tenant data options actor).run s = .ok report t) :
    Effect ord limits tenant (.importDocument data options actor) s t := by
  simp only [importDocument, run_bind_eq_ok, run_check_eq_ok] at h
  obtain ⟨_, _, ⟨_, rfl⟩, policy, _, ⟨resolved, rfl⟩, ⟨definitions, groups⟩, _, ⟨read, rfl⟩, h⟩ := h
  split at h
  · simp at h
  · simp only [run_bind_eq_ok, run_get, Result.ok.injEq] at h
    obtain ⟨_, _, ⟨rfl, rfl⟩, h⟩ := h
    split at h
    · simp [run_throw] at h
    · split at h
      · simp [run_throw] at h
      · rename_i snapshot valid
        split_ifs at h with hdry
        · obtain ⟨-, rfl⟩ := Result.ok.inj h
          exact .dryRun hdry
        · rw [Bool.not_eq_true] at hdry
          simp only [run_bind_eq_ok, run_set, run_pure, Result.ok.injEq] at h
          obtain ⟨_, _, ⟨_, rfl⟩, _, _, h, _, rfl⟩ := h
          rw [hdry] at valid h
          rw [run_recordImported_eq_ok h]
          exact .imported hdry resolved read valid

omit [CustomStrategy κ] [Runtime] in
theorem run_cleanup_eq_ok {options : CleanupOptions} {report : CleanupReport}
    (h : (cleanup limits ctx tenant options).run s = .ok report t) :
    report.deletedFeatures = (purgedKeys options s.features).size ∧
      ∃ audit, audit <:+ s.audit ∧ t = { s with
        features := s.features.filter fun key _ => key ∉ purgedKeys options s.features
        staged := s.staged.filter fun _ change =>
          ¬ discards options (purgedKeys options s.features) change
        audit } := by
  simp only [cleanup, run_bind_eq_ok, run_check_eq_ok] at h
  obtain ⟨_, _, ⟨_, rfl⟩, h⟩ := h
  split at h
  · simp at h
  · simp only [run_bind_eq_ok, run_get, Result.ok.injEq] at h
    obtain ⟨_, _, ⟨rfl, rfl⟩, h⟩ := h
    split at h
    · simp only [run_bind_eq_ok, run_set, run_pure, Result.ok.injEq] at h
      obtain ⟨_, _, ⟨_, rfl⟩, rfl, rfl⟩ := h
      exact ⟨rfl, _, List.drop_suffix _ _, rfl⟩
    · simp only [run_bind_eq_ok, run_set, run_pure, Result.ok.injEq] at h
      obtain ⟨_, _, ⟨_, rfl⟩, rfl, rfl⟩ := h
      exact ⟨rfl, _, List.suffix_rfl, rfl⟩

theorem effect_of_cleanup {options : CleanupOptions} {report : CleanupReport}
    (h : (cleanup limits ctx tenant options).run s = .ok report t) :
    Effect ord limits tenant (.cleanup options) s t := by
  obtain ⟨-, audit, haudit, rfl⟩ := run_cleanup_eq_ok h
  refine .cleanup (filter_purgedKeys options s.features) rfl haudit
    (fun id change hchange => ?_) rfl
  rw [ExtTreeMap.getElem?_filter', Option.filter_eq_some_iff] at hchange
  exact hchange.1

theorem effect_of_exec {call : Call κ} {response : Response κ}
    (h : (call.exec ord limits ctx tenant).run s = .ok response t) :
    Effect ord limits tenant call s t := by
  cases call <;> simp only [Call.exec, run_map_eq_ok] at h <;> obtain ⟨result, h, -⟩ := h
  case create => exact effect_of_create h
  case update => exact effect_of_update h
  case activate =>
    obtain ⟨record, live, rfl, rfl⟩ := run_setLifecycle_eq_ok h
    exact .activate live
  case deactivate =>
    obtain ⟨record, live, rfl, rfl⟩ := run_setLifecycle_eq_ok h
    exact .deactivate live
  case delete =>
    obtain ⟨record, live, rfl, rfl⟩ := run_setLifecycle_eq_ok h
    exact .delete live
  case restore => exact effect_of_restore h
  case createGroup => exact effect_of_createGroup h
  case updateGroup => exact effect_of_updateGroup h
  case deleteGroup => exact effect_of_deleteGroup h
  case assignGroup => exact effect_of_assignGroup h
  case removeGroup => exact effect_of_removeGroup h
  case stageUpdate => exact effect_of_stageUpdate h
  case applyStage => exact effect_of_applyStage h
  case applyScheduled => exact effect_of_applyScheduled h
  case importDocument => exact effect_of_importDocument h
  case cleanup => exact effect_of_cleanup h
  case snapshot =>
    rw [(readOnly_snapshot s).1 result t h]
    exact .read (.inl rfl)
  case audit key =>
    rw [(readOnly_audit s).1 result t h]
    exact .read (.inr (.inl ⟨key, rfl⟩))
  case stagedChanges =>
    rw [(readOnly_stagedChanges s).1 result t h]
    exact .read (.inr (.inr (.inl rfl)))
  case exportDocument =>
    rw [(readOnly_exportDocument s).1 result t h]
    exact .read (.inr (.inr (.inr rfl)))

end Effects

/-! ### All tenants -/

section Tenants

variable {p : MemoryProvider κ} {ord : MapOrder} {limits : Limits}
  {ctx : Ctx} {tenant : Bytes} {call : Call κ}

theorem MemoryProvider.tenant_insert (p : MemoryProvider κ) (tenant tenant' : Bytes)
    (s : TenantState κ) :
    MemoryProvider.tenant (p.insert tenant s) tenant' = if tenant = tenant' then s else
      p.tenant tenant' := by
  unfold MemoryProvider.tenant
  rw [ExtTreeMap.getD_insert]
  simp only [Std.compare_eq_iff_eq]

/-- A tenant that is written back as it was is unchanged, and the others are too. -/
theorem MemoryProvider.tenant_insert_tenant (p : MemoryProvider κ) (tenant tenant' : Bytes) :
    MemoryProvider.tenant (p.insert tenant (p.tenant tenant)) tenant' = p.tenant tenant' := by
  rw [MemoryProvider.tenant_insert]
  split_ifs with h
  · rw [h]
  · rfl

variable [CustomStrategy κ] [Runtime]

/-- A call that passes the tenant's state on as it was leaves every tenant as it was. -/
theorem MemoryProvider.exec_unchanged
    (hok : ∀ response t, (call.exec ord limits ctx tenant).run (p.tenant tenant) = .ok response t →
      t = p.tenant tenant)
    (herror : ∀ failure t, (call.exec ord limits ctx tenant).run (p.tenant tenant) = .error failure
      t → t = p.tenant tenant) (tenant' : Bytes) :
    (p.exec ord limits ctx tenant call).2.tenant tenant' = p.tenant tenant' := by
  unfold MemoryProvider.exec
  split
  · rename_i response t hrun
    rw [hok response t hrun]
    exact p.tenant_insert_tenant tenant tenant'
  · rename_i failure t hrun
    rw [herror failure t hrun]
    exact p.tenant_insert_tenant tenant tenant'

/-- A call that returns an error, and an import that is only planned, leave the features, groups,
audit entries, staged changes and stage numbers of every tenant as they were. -/
theorem failed_exec_unchanged (p : MemoryProvider κ) (ord : MapOrder) (limits : Limits) (ctx : Ctx)
    (tenant : Bytes) (call : Call κ)
    (h : (∃ failure, (p.exec ord limits ctx tenant call).1 = .error failure ∧ failure ≠ .panic) ∨
      ∃ data options actor, call = .importDocument data options actor ∧ options.dryRun = true)
    (tenant' : Bytes) :
    (p.exec ord limits ctx tenant call).2.tenant tenant' = p.tenant tenant' := by
  rcases h with ⟨failure, hfailure, hpanic⟩ | ⟨data, options, actor, rfl, dry⟩
  · refine MemoryProvider.exec_unchanged (fun response t hrun => ?_) (fun failure' t hrun => ?_)
      tenant'
    · rw [MemoryProvider.exec, hrun] at hfailure
      cases hfailure
    · rw [MemoryProvider.exec, hrun] at hfailure
      cases hfailure
      exact (safe_exec _ _ _ hrun).resolve_left hpanic
  · have hread : ReadOnly (Call.exec ord limits ctx tenant
        (.importDocument data options actor) : Op κ _) := (readOnly_importDocument dry).map _
    exact MemoryProvider.exec_unchanged (hread _).1 (hread _).2 tenant'

omit [CustomStrategy κ] [Runtime] in
/-- A second creation of a feature fails and changes nothing. -/
theorem failed_exec_unchanged_create :
    letI := unaryRuntime
    let call : Call Empty := .create (onFor (str "f") []) (str "a")
    let p := (MemoryProvider.exec ∅ .sorted defaultLimits .background (str "t") call).2
    ∀ tenant', (p.exec .sorted defaultLimits .background (str "t") call).2.tenant tenant' =
      p.tenant tenant' := by
  let _ := unaryRuntime
  intro call p
  have herror : (match (p.exec .sorted defaultLimits .background (str "t") call).1 with
      | .error (.error _) => true
      | _ => false) = true := by decide +kernel
  split at herror
  · rename_i e he
    exact failed_exec_unchanged p .sorted defaultLimits .background (str "t") call
      (.inl ⟨.error e, he, fun h => by cases h⟩)
  · cases herror

end Tenants

end FeatureFlags
