import FeatureFlags.Codec

/-!
# The in-process provider

`memory.go`, `staged.go`, `import.go` and `cleanup.go`: the operations of `MemoryProvider` on the
state of one tenant.  Every operation takes the provider's lock for its whole effect, so it is one
step; it returns a result or fails, and passes the state on in both cases.

* `TenantState`: the features, groups, audit entries and staged changes of a tenant.
* `Op`: an operation.  `Failure.panic` is a run-time panic: `appendAudit` slices out of range if the
  audit limit is negative.
* One definition for each method, under its name.
* `Call`, `Call.exec`: all methods as one type, for runs.
* `MemoryProvider`: all tenants.

Versions and stage numbers are `uint64` in the source and wrap after `2 ^ 64 - 1`; they are
unbounded here, so the results are about fewer changes than that.
-/

namespace FeatureFlags

open Go

/-! ### State -/

/-- The labels of the audit actions. -/
def auditLabels : List Bytes :=
  [str "create", str "update", str "activate", str "deactivate", str "delete", str "restore",
    str "group_create", str "group_update", str "group_delete", str "assign_group",
    str "remove_group", str "import_create", str "import_update", str "stage_update",
    str "apply_stage"]

/-- `AuditAction`, a string type: a persisted entry can have any label. -/
inductive AuditAction where
  | create
  | update
  | activate
  | deactivate
  | delete
  | restore
  | groupCreate
  | groupUpdate
  | groupDelete
  | assignGroup
  | removeGroup
  | importCreate
  | importUpdate
  | stageUpdate
  | applyStage
  | other (label : Bytes) (h : label ∉ auditLabels)
deriving DecidableEq

structure AuditEntry where
  featureKey : Bytes
  action : AuditAction
  actor : Bytes
  version : Nat
deriving DecidableEq

/-- `memoryRecord`: a definition, or the tombstone of one. -/
structure MemoryRecord (κ : Type) where
  definition : Definition κ
  deleted : Bool
deriving DecidableEq

/-- A pending replacement. -/
structure StagedChange (κ : Type) where
  id : Nat
  definition : Definition κ
  expectedVersion : Nat
  applyAt : ZonedTime
  actor : Bytes
deriving DecidableEq

/-- `map[uint64]V`. -/
abbrev IdMap (V : Type) := Std.ExtTreeMap Nat V compare

instance {κ : Type} [DecidableEq κ] : LawfulBEq (GroupDefinition κ) := inferInstance

structure TenantState (κ : Type) where
  features : GoMap (MemoryRecord κ)
  groups : GoMap (GroupDefinition κ)
  audit : List AuditEntry
  staged : IdMap (StagedChange κ)
  nextStage : Nat
deriving DecidableEq

/-- The state of a tenant that was never written. -/
def TenantState.empty {κ : Type} : TenantState κ := ⟨∅, ∅, [], ∅, 0⟩

/-! ### Operations -/

structure ImportConflict where
  resource : Bytes
  key : Bytes
  currentVersion : Nat
  incomingVersion : Nat
deriving DecidableEq

structure ImportReport where
  dryRun : Bool
  createdFeatures : Nat
  updatedFeatures : Nat
  createdGroups : Nat
  updatedGroups : Nat
  skipped : Nat
  conflicts : List ImportConflict
deriving DecidableEq

/-- Record a conflict. -/
def ImportReport.conflict (report : ImportReport) (c : ImportConflict) : ImportReport :=
  { report with conflicts := report.conflicts ++ [c] }

/-- The labels of the conflict policies. -/
def policyLabels : List Bytes := [[], str "fail", str "skip", str "replace"]

/-- `ConflictPolicy`, a string type. -/
inductive ConflictPolicy where
  | unset
  | fail
  | skip
  | replace
  | other (label : Bytes) (h : label ∉ policyLabels)
deriving DecidableEq

structure ImportOptions where
  dryRun : Bool
  conflictPolicy : ConflictPolicy
deriving DecidableEq

/-- The policy of an import: an empty one is `fail`, and an unknown one is an error. -/
def ImportOptions.policy (options : ImportOptions) : Except GoError ConflictPolicy :=
  match options.conflictPolicy with
  | .unset => .ok .fail
  | .other label _ => .error (.errorf "unknown conflict policy %q" [.q label])
  | policy => .ok policy

structure CleanupOptions where
  purgeDeleted : Bool
  discardStagesBefore : Time
  keepAudit : Int
deriving DecidableEq

structure CleanupReport where
  deletedFeatures : Nat
  discardedStages : Nat
  discardedAudit : Nat
deriving DecidableEq

/-- How an operation fails. -/
inductive Failure where
  /-- It returns an error. -/
  | error (e : GoError)
  /-- `ImportDocument` returns an error together with its report. -/
  | refused (report : ImportReport) (e : GoError)
  /-- It panics. -/
  | panic
deriving DecidableEq

/-- An operation on the state of a tenant. -/
abbrev Op (κ : Type) (α : Type) := EStateM Failure (TenantState κ) α

/-- What `ctx.Err()` returns: at admission, and at the second check of `ImportDocument`. -/
structure Ctx where
  err : Option GoError
  laterErr : Option GoError

/-- A context that is not cancelled. -/
def Ctx.background : Ctx := ⟨none, none⟩

def providerInput (ctx : Ctx) (tenant : Bytes) (maxTenantBytes : Int) : Except GoError Unit := do
  match ctx.err with
  | some e => .error e
  | none => pure ()
  rejectIf (tenant = []) (.sentinel .tenantRequired)
  rejectIf (len tenant > maxTenantBytes)
    (.wrapf "tenant exceeds %d bytes: %w" [.d maxTenantBytes] (.sentinel .contextLimit))

def versionConflict (tenant key : Bytes) (current expected : Nat) : GoError :=
  .wrapf "tenant %q feature %q: %w: have %d, expected %d"
    [.q tenant, .q key, .d current, .d expected] (.sentinel .conflict)

/-- The error for a feature that is missing or deleted. -/
def featureNotFound (tenant key : Bytes) : GoError :=
  .wrapf "tenant %q feature %q: %w" [.q tenant, .q key] (.sentinel .notFound)

/-- The error for a group that is missing. -/
def groupNotFound (tenant key : Bytes) : GoError :=
  .wrapf "tenant %q group %q: %w" [.q tenant, .q key] (.sentinel .notFound)

section Operations

variable {κ : Type}

/-- Return the error. -/
def fail {α : Type} (e : GoError) : Op κ α := throw (.error e)

/-- Return the error of a check. -/
def check {α : Type} (x : Except GoError α) : Op κ α :=
  match x with
  | .ok a => pure a
  | .error e => fail e

/-- `appendAudit`: the oldest entries beyond the limit are dropped.  `excess` is unbounded here; the
subtraction in the source wraps for a limit within the number of entries of `-2 ^ 63`, and nothing
is dropped then. -/
def appendAudit (limits : Limits) (key : Bytes) (action : AuditAction) (actor : Bytes)
    (version : Nat) : Op κ Unit := do
  let s ← get
  let entries := s.audit ++ [⟨key, action, actor, version⟩]
  let excess := len entries - limits.maxAuditEntries
  if excess > len entries then throw .panic
  else set { s with audit := entries.drop excess.toNat }

/-- Replace the record of a feature. -/
def putRecord (key : Bytes) (record : MemoryRecord κ) : Op κ Unit :=
  modify fun s => { s with features := s.features.insert key record }

/-- The record of a feature that is not deleted. -/
def liveRecord (tenant key : Bytes) : Op κ (MemoryRecord κ) := do
  match (← get).features[key]? with
  | none => fail (featureNotFound tenant key)
  | some record => if record.deleted then fail (featureNotFound tenant key) else return record

/-- The optimistic lock. -/
def expectVersion (tenant key : Bytes) (current expected : Nat) : Op κ Unit :=
  if current ≠ expected then fail (versionConflict tenant key current expected) else return ()

variable [CustomStrategy κ]

/-- `cloneMemoryRecords`, for one record. -/
def cloneRecord (record : MemoryRecord κ) : MemoryRecord κ :=
  { record with definition := cloneDefinition record.definition }

def cloneMemoryRecords (records : GoMap (MemoryRecord κ)) : GoMap (MemoryRecord κ) :=
  records.map fun _ record => cloneRecord record

def cloneGroupMap (groups : GoMap (GroupDefinition κ)) : GoMap (GroupDefinition κ) :=
  groups.map fun _ group => cloneGroup group

def definitionsFromRecords (ord : MapOrder) (records : GoMap (MemoryRecord κ)) :
    List (Definition κ) :=
  ((records.range ord).filter fun x => !x.2.deleted).map fun x => cloneDefinition x.2.definition

/-- `groupsFromMap` and `groupDefinitionsLocked`. -/
def groupsFromMap (ord : MapOrder) (groups : GoMap (GroupDefinition κ)) :
    List (GroupDefinition κ) :=
  (groups.range ord).map fun x => cloneGroup x.2

/-- `activeDefinitionsLocked`. -/
def activeDefinitions (records : GoMap (MemoryRecord κ)) : GoMap (Definition κ) :=
  records.filterMap fun _ record =>
    if record.deleted then none else some (cloneDefinition record.definition)

variable [Runtime] (ord : MapOrder) (limits : Limits) (ctx : Ctx) (tenant : Bytes)

def create (definition : Definition κ) (actor : Bytes) : Op κ (Definition κ) := do
  check (providerInput ctx tenant limits.maxKeyBytes)
  check (definition.validate ord limits)
  let s ← get
  if definition.key ∈ s.features then
    fail (.wrapf "tenant %q feature %q: %w" [.q tenant, .q definition.key]
      (.sentinel .alreadyExists))
  else if s.features.len ≥ limits.maxFeatures then
    fail (.errorf "tenant %q: features exceed limit %d" [.q tenant, .d limits.maxFeatures])
  else
    let stored := cloneDefinition { definition with version := 1 }
    putRecord definition.key ⟨stored, false⟩
    appendAudit limits definition.key .create actor stored.version
    return cloneDefinition stored

def update (definition : Definition κ) (expectedVersion : Nat) (actor : Bytes) :
    Op κ (Definition κ) := do
  check (providerInput ctx tenant limits.maxKeyBytes)
  check (definition.validate ord limits)
  let record ← liveRecord tenant definition.key
  expectVersion tenant definition.key record.definition.version expectedVersion
  let stored := cloneDefinition { definition with version := record.definition.version + 1 }
  putRecord definition.key ⟨stored, false⟩
  appendAudit limits definition.key .update actor stored.version
  return cloneDefinition stored

def setLifecycle (key : Bytes) (expectedVersion : Nat) (actor : Bytes) (lifecycle : Lifecycle)
    (action : AuditAction) (deleted : Bool) : Op κ (Definition κ) := do
  check (providerInput ctx tenant limits.maxKeyBytes)
  let record ← liveRecord tenant key
  expectVersion tenant key record.definition.version expectedVersion
  let stored := { record.definition with lifecycle, version := record.definition.version + 1 }
  putRecord key ⟨stored, deleted⟩
  appendAudit limits key action actor stored.version
  return cloneDefinition stored

def activate (key : Bytes) (expectedVersion : Nat) (actor : Bytes) : Op κ (Definition κ) :=
  setLifecycle limits ctx tenant key expectedVersion actor .active .activate false

def deactivate (key : Bytes) (expectedVersion : Nat) (actor : Bytes) : Op κ (Definition κ) :=
  setLifecycle limits ctx tenant key expectedVersion actor .inactive .deactivate false

def delete (key : Bytes) (expectedVersion : Nat) (actor : Bytes) : Op κ (Definition κ) :=
  setLifecycle limits ctx tenant key expectedVersion actor .archived .delete true

def restore (key : Bytes) (expectedVersion : Nat) (actor : Bytes) : Op κ (Definition κ) := do
  check (providerInput ctx tenant limits.maxKeyBytes)
  match (← get).features[key]? with
  | none => fail (featureNotFound tenant key)
  | some record =>
    if ¬ record.deleted then fail (featureNotFound tenant key)
    else
      expectVersion tenant key record.definition.version expectedVersion
      let stored := { record.definition with
        lifecycle := .inactive, version := record.definition.version + 1 }
      putRecord key ⟨stored, false⟩
      appendAudit limits key .restore actor stored.version
      return cloneDefinition stored

/-! #### Groups -/

/-- Replace a group. -/
def putGroup (key : Bytes) (group : GroupDefinition κ) : Op κ Unit :=
  modify fun s => { s with groups := s.groups.insert key group }

/-- The group `key` of a validated map; it is there, because it was among those validated. -/
def storedGroup (groups : GoMap (GroupDefinition κ)) (key : Bytes) : GroupDefinition κ :=
  groups.getD key ⟨[], [], ∅, [], [], 0, []⟩

def createGroup (group : GroupDefinition κ) (actor : Bytes) : Op κ (GroupDefinition κ) := do
  check (providerInput ctx tenant limits.maxKeyBytes)
  let s ← get
  if group.key ∈ s.groups then
    fail (.wrapf "tenant %q group %q: %w" [.q tenant, .q group.key] (.sentinel .alreadyExists))
  else
    let prospective := (s.groups.range ord).map Prod.snd ++ [{ group with version := 1 }]
    let cloned ← check
      (cloneAndValidateGroups ord (activeDefinitions s.features) prospective limits)
    let stored := storedGroup cloned group.key
    putGroup group.key stored
    appendAudit limits group.key .groupCreate actor stored.version
    return cloneGroup stored

def updateGroup (group : GroupDefinition κ) (expectedVersion : Nat) (actor : Bytes) :
    Op κ (GroupDefinition κ) := do
  check (providerInput ctx tenant limits.maxKeyBytes)
  let s ← get
  match s.groups[group.key]? with
  | none => fail (groupNotFound tenant group.key)
  | some current =>
    expectVersion tenant group.key current.version expectedVersion
    let replacement := { group with version := current.version + 1 }
    let prospective := (groupsFromMap ord s.groups).map fun g =>
      if g.key = group.key then replacement else g
    let cloned ← check
      (cloneAndValidateGroups ord (activeDefinitions s.features) prospective limits)
    let stored := storedGroup cloned group.key
    putGroup group.key stored
    appendAudit limits group.key .groupUpdate actor stored.version
    return cloneGroup stored

def deleteGroup (groupKey : Bytes) (expectedVersion : Nat) (actor : Bytes) :
    Op κ (GroupDefinition κ) := do
  check (providerInput ctx tenant limits.maxKeyBytes)
  let s ← get
  match s.groups[groupKey]? with
  | none => fail (groupNotFound tenant groupKey)
  | some group =>
    expectVersion tenant groupKey group.version expectedVersion
    let inUse : GoError :=
      .wrapf "tenant %q group %q: %w" [.q tenant, .q groupKey] (.sentinel .groupInUse)
    if s.features.toList.any fun x => !x.2.deleted && listed x.2.definition.groups groupKey then
      fail inUse
    else if s.groups.toList.any fun x => x.2.parent == groupKey then fail inUse
    else
      modify fun s => { s with groups := s.groups.erase groupKey }
      let deleted := { group with version := group.version + 1 }
      appendAudit limits groupKey .groupDelete actor deleted.version
      return cloneGroup deleted

def assignGroup (featureKey groupKey : Bytes) (expectedVersion : Nat) (actor : Bytes) :
    Op κ (Definition κ) := do
  check (providerInput ctx tenant limits.maxKeyBytes)
  let s ← get
  if groupKey ∉ s.groups then fail (groupNotFound tenant groupKey)
  else
    let record ← liveRecord tenant featureKey
    expectVersion tenant featureKey record.definition.version expectedVersion
    if listed record.definition.groups groupKey then return cloneDefinition record.definition
    else
      let cloned := cloneDefinition record.definition
      let assigned := { cloned with groups := cloned.groups ++ [groupKey] }
      let _ ← check (cloneAndValidateGroups ord ((activeDefinitions s.features).insert featureKey
        assigned) (groupsFromMap ord s.groups) limits)
      let updated := { assigned with version := assigned.version + 1 }
      putRecord featureKey ⟨updated, record.deleted⟩
      appendAudit limits featureKey .assignGroup actor updated.version
      return cloneDefinition updated

def removeGroup (featureKey groupKey : Bytes) (expectedVersion : Nat) (actor : Bytes) :
    Op κ (Definition κ) := do
  check (providerInput ctx tenant limits.maxKeyBytes)
  let record ← liveRecord tenant featureKey
  expectVersion tenant featureKey record.definition.version expectedVersion
  let cloned := cloneDefinition record.definition
  if groupKey ∉ cloned.groups then
    fail (.wrapf "tenant %q feature %q group %q: %w" [.q tenant, .q featureKey, .q groupKey]
      (.sentinel .notFound))
  else
    let updated := { cloned with
      groups := cloned.groups.filter (· ≠ groupKey), version := cloned.version + 1 }
    putRecord featureKey ⟨updated, record.deleted⟩
    appendAudit limits featureKey .removeGroup actor updated.version
    return cloneDefinition updated

/-! #### Staged changes -/

def cloneStagedChange (change : StagedChange κ) : StagedChange κ :=
  { change with definition := cloneDefinition change.definition }

def stageUpdate (definition : Definition κ) (expectedVersion : Nat) (applyAt : ZonedTime)
    (actor : Bytes) : Op κ (StagedChange κ) := do
  check (providerInput ctx tenant limits.maxKeyBytes)
  check (definition.validate ord limits)
  let record ← liveRecord tenant definition.key
  expectVersion tenant definition.key record.definition.version expectedVersion
  let s ← get
  if (s.staged.size : Int) ≥ limits.maxStagedChanges then
    fail (.errorf "tenant %q staged changes exceed %d" [.q tenant, .d limits.maxStagedChanges])
  else if s.staged.toList.any fun x => x.2.definition.key == definition.key then
    fail (.wrapf "tenant %q feature %q has staged change: %w" [.q tenant, .q definition.key]
      (.sentinel .alreadyExists))
  else
    let change : StagedChange κ :=
      ⟨s.nextStage + 1, cloneDefinition definition, expectedVersion, applyAt, actor⟩
    set { s with nextStage := s.nextStage + 1, staged := s.staged.insert change.id change }
    appendAudit limits definition.key .stageUpdate actor expectedVersion
    return cloneStagedChange change

/-- One turn of the first loop of `applyStagesLocked`. -/
def applyStageStep (tenant : Bytes) (staged : IdMap (StagedChange κ))
    (acc : GoMap (MemoryRecord κ) × List (Definition κ)) (id : Nat) :
    Except GoError (GoMap (MemoryRecord κ) × List (Definition κ)) :=
  match staged[id]? with
  | none =>
    .error (.wrapf "tenant %q staged change %d: %w" [.q tenant, .d id] (.sentinel .notFound))
  | some change => do
    match acc.1[change.definition.key]? with
    | none => .error (featureNotFound tenant change.definition.key)
    | some record =>
      rejectIf record.deleted (featureNotFound tenant change.definition.key)
      rejectIf (record.definition.version ≠ change.expectedVersion)
        (versionConflict tenant change.definition.key record.definition.version
          change.expectedVersion)
      let updated := { cloneDefinition change.definition with
        version := record.definition.version + 1 }
      return (acc.1.insert updated.key ⟨updated, record.deleted⟩,
        acc.2 ++ [cloneDefinition updated])

/-- The last loop of `applyStagesLocked`. -/
def recordApplied (actor : Bytes) : List (Nat × Definition κ) → Op κ Unit
  | [] => return ()
  | (id, result) :: rest => do
    modify fun s => { s with staged := s.staged.erase id }
    appendAudit limits result.key .applyStage actor result.version
    recordApplied actor rest

/-- `applyStagesLocked`. -/
def applyStages (ids : List Nat) (actor : Bytes) : Op κ (List (Definition κ)) := do
  let s ← get
  let (records, results) ← check
    (ids.foldlM (applyStageStep tenant s.staged) (cloneMemoryRecords s.features, []))
  let _ ← check (newSnapshotWithGroups ord (definitionsFromRecords ord records)
    (groupsFromMap ord s.groups) limits)
  set { s with features := records }
  recordApplied limits actor (ids.zip results)
  return results

def applyStage (id : Nat) (actor : Bytes) : Op κ (Definition κ) := do
  check (providerInput ctx tenant limits.maxKeyBytes)
  match ← applyStages ord limits tenant [id] actor with
  | result :: _ => return result
  | [] => throw .panic

def dueStages (now : Time) (staged : IdMap (StagedChange κ)) : List Nat :=
  (staged.toList.filter fun x =>
    ¬ x.2.applyAt.time.isZero ∧ ¬ now.before x.2.applyAt.time).map Prod.fst

/-- `ApplyScheduled`; the due changes are sorted by number. -/
def applyScheduled (now : Time) (actor : Bytes) : Op κ (List (Definition κ)) := do
  check (providerInput ctx tenant limits.maxKeyBytes)
  if now.isZero then fail (.errorf "scheduled application time is required" [])
  else
    let ids := dueStages now (← get).staged
    if ids = [] then return []
    else applyStages ord limits tenant ids actor

def stagedChanges : Op κ (List (StagedChange κ)) := do
  check (providerInput ctx tenant limits.maxKeyBytes)
  return (← get).staged.toList.map fun x => cloneStagedChange x.2

/-! #### Documents -/

/-- The entry that an import writes for one resource. -/
structure PendingAudit where
  key : Bytes
  action : AuditAction
  version : Nat
deriving DecidableEq

/-- What the loops of `ImportDocument` build. -/
structure ImportPlan (κ : Type) where
  report : ImportReport
  records : GoMap (MemoryRecord κ)
  groups : GoMap (GroupDefinition κ)
  audits : List PendingAudit

/-- One turn of the loop over the groups. -/
def planGroup (policy : ConflictPolicy) (plan : ImportPlan κ) (group : GroupDefinition κ) :
    ImportPlan κ :=
  match plan.groups[group.key]? with
  | some current =>
    let report := plan.report.conflict
      ⟨str "group", group.key, current.version, group.version⟩
    if policy = .replace then
      let version := current.version + 1
      { plan with
        report := { report with updatedGroups := report.updatedGroups + 1 }
        groups := plan.groups.insert group.key (cloneGroup { group with version })
        audits := plan.audits ++ [⟨group.key, .importUpdate, version⟩] }
    else { plan with report := { report with skipped := report.skipped + 1 } }
  | none =>
    { plan with
      report := { plan.report with createdGroups := plan.report.createdGroups + 1 }
      groups := plan.groups.insert group.key (cloneGroup { group with version := 1 })
      audits := plan.audits ++ [⟨group.key, .importCreate, 1⟩] }

/-- One turn of the loop over the features. -/
def planFeature (policy : ConflictPolicy) (plan : ImportPlan κ) (definition : Definition κ) :
    ImportPlan κ :=
  match plan.records[definition.key]? with
  | some current =>
    let report := plan.report.conflict
      ⟨str "feature", definition.key, current.definition.version, definition.version⟩
    if policy = .replace then
      let version := current.definition.version + 1
      { plan with
        report := { report with updatedFeatures := report.updatedFeatures + 1 }
        records := plan.records.insert definition.key
          ⟨cloneDefinition { definition with version }, false⟩
        audits := plan.audits ++ [⟨definition.key, .importUpdate, version⟩] }
    else { plan with report := { report with skipped := report.skipped + 1 } }
  | none =>
    { plan with
      report := { plan.report with createdFeatures := plan.report.createdFeatures + 1 }
      records := plan.records.insert definition.key
        ⟨cloneDefinition { definition with version := 1 }, false⟩
      audits := plan.audits ++ [⟨definition.key, .importCreate, 1⟩] }

def importPlan (policy : ConflictPolicy) (dryRun : Bool) (definitions : List (Definition κ))
    (groups : List (GroupDefinition κ)) (s : TenantState κ) : ImportPlan κ :=
  definitions.foldl (planFeature policy) <| groups.foldl (planGroup policy)
    ⟨⟨dryRun, 0, 0, 0, 0, 0, []⟩, cloneMemoryRecords s.features, cloneGroupMap s.groups, []⟩

/-- The last loop of `ImportDocument`. -/
def recordImported (actor : Bytes) : List PendingAudit → Op κ Unit
  | [] => return ()
  | audit :: rest => do
    appendAudit limits audit.key audit.action actor audit.version
    recordImported actor rest

def importDocument (data : Bytes) (options : ImportOptions) (actor : Bytes) :
    Op κ ImportReport := do
  check (providerInput ctx tenant limits.maxKeyBytes)
  let policy ← check options.policy
  let (definitions, groups) ← check (Import ord data limits)
  match ctx.laterErr with
  | some e => fail e
  | none =>
    let s ← get
    let plan := importPlan policy options.dryRun definitions groups s
    if policy = .fail ∧ plan.report.conflicts ≠ [] ∧ ¬ options.dryRun then
      throw (.refused plan.report (.sentinel .importConflict))
    else
      match newSnapshotWithGroups ord (definitionsFromRecords ord plan.records)
          (groupsFromMap ord plan.groups) limits with
      | .error e => throw (.refused plan.report e)
      | .ok _ =>
        if options.dryRun then return plan.report
        else
          set { s with features := plan.records, groups := plan.groups }
          recordImported limits actor plan.audits
          return plan.report

def exportDocument : Op κ Bytes := do
  check (providerInput ctx tenant limits.maxKeyBytes)
  let s ← get
  check (Export ord (definitionsFromRecords ord s.features) (groupsFromMap ord s.groups) limits)

/-! #### Reads and maintenance -/

def snapshot : Op κ (Snapshot κ) := do
  check (providerInput ctx tenant limits.maxKeyBytes)
  let s ← get
  let snapshot ← check (newSnapshotWithGroups ord (definitionsFromRecords ord s.features)
    (groupsFromMap ord s.groups) limits)
  return snapshot.bindTenant tenant

def audit (key : Bytes) : Op κ (List AuditEntry) := do
  check (providerInput ctx tenant limits.maxKeyBytes)
  return (← get).audit.filter fun entry => entry.featureKey = key

/-- The tombstones that `Cleanup` removes. -/
def purgedKeys (options : CleanupOptions) (records : GoMap (MemoryRecord κ)) : GoMap Bool :=
  if options.purgeDeleted then
    records.filterMap fun _ record => if record.deleted then some true else none
  else ∅

/-- Whether `Cleanup` discards a staged change. -/
def discards (options : CleanupOptions) (purged : GoMap Bool) (change : StagedChange κ) : Prop :=
  flag purged change.definition.key = true ∨
    ¬ options.discardStagesBefore.isZero ∧ ¬ change.applyAt.time.isZero ∧
      change.applyAt.time.before options.discardStagesBefore

instance (options : CleanupOptions) (purged : GoMap Bool) (change : StagedChange κ) :
    Decidable (discards options purged change) :=
  inferInstanceAs (Decidable (_ ∨ _))

def cleanup (options : CleanupOptions) : Op κ CleanupReport := do
  check (providerInput ctx tenant limits.maxKeyBytes)
  if options.keepAudit < 0 ∨ options.keepAudit > limits.maxAuditEntries then
    fail (.errorf "audit retention must be between 0 and %d" [.d limits.maxAuditEntries])
  else
    let s ← get
    let purged := purgedKeys options s.features
    let features := s.features.filter fun key _ => key ∉ purged
    let staged := s.staged.filter fun _ change => ¬ discards options purged change
    let report : CleanupReport := ⟨purged.size, s.staged.size - staged.size, 0⟩
    let discarded := len s.audit - options.keepAudit
    if options.keepAudit > 0 ∧ ¬ discarded < 1 then
      set { s with features, staged, audit := s.audit.drop discarded.toNat }
      return { report with discardedAudit := discarded.toNat }
    else
      set { s with features, staged }
      return report

end Operations

/-! ### Calls -/

/-- A call of a method for one tenant. -/
inductive Call (κ : Type) where
  | create (definition : Definition κ) (actor : Bytes)
  | update (definition : Definition κ) (expectedVersion : Nat) (actor : Bytes)
  | activate (key : Bytes) (expectedVersion : Nat) (actor : Bytes)
  | deactivate (key : Bytes) (expectedVersion : Nat) (actor : Bytes)
  | delete (key : Bytes) (expectedVersion : Nat) (actor : Bytes)
  | restore (key : Bytes) (expectedVersion : Nat) (actor : Bytes)
  | createGroup (group : GroupDefinition κ) (actor : Bytes)
  | updateGroup (group : GroupDefinition κ) (expectedVersion : Nat) (actor : Bytes)
  | deleteGroup (groupKey : Bytes) (expectedVersion : Nat) (actor : Bytes)
  | assignGroup (featureKey groupKey : Bytes) (expectedVersion : Nat) (actor : Bytes)
  | removeGroup (featureKey groupKey : Bytes) (expectedVersion : Nat) (actor : Bytes)
  | stageUpdate (definition : Definition κ) (expectedVersion : Nat) (applyAt : ZonedTime)
      (actor : Bytes)
  | applyStage (id : Nat) (actor : Bytes)
  | applyScheduled (now : Time) (actor : Bytes)
  | importDocument (data : Bytes) (options : ImportOptions) (actor : Bytes)
  | cleanup (options : CleanupOptions)
  | snapshot
  | audit (key : Bytes)
  | stagedChanges
  | exportDocument

/-- What a call returns. -/
inductive Response (κ : Type) where
  | definition (definition : Definition κ)
  | definitions (definitions : List (Definition κ))
  | group (group : GroupDefinition κ)
  | staged (change : StagedChange κ)
  | changes (changes : List (StagedChange κ))
  | imported (report : ImportReport)
  | cleaned (report : CleanupReport)
  | snapshot (snapshot : Snapshot κ)
  | entries (entries : List AuditEntry)
  | document (data : Bytes)

/-- The method of a call. -/
def Call.exec {κ : Type} [CustomStrategy κ] [Runtime] (ord : MapOrder) (limits : Limits)
    (ctx : Ctx) (tenant : Bytes) : Call κ → Op κ (Response κ)
  | .create definition actor =>
    .definition <$> FeatureFlags.create ord limits ctx tenant definition actor
  | .update definition version actor =>
    .definition <$> FeatureFlags.update ord limits ctx tenant definition version actor
  | .activate key version actor =>
    .definition <$> FeatureFlags.activate limits ctx tenant key version actor
  | .deactivate key version actor =>
    .definition <$> FeatureFlags.deactivate limits ctx tenant key version actor
  | .delete key version actor =>
    .definition <$> FeatureFlags.delete limits ctx tenant key version actor
  | .restore key version actor =>
    .definition <$> FeatureFlags.restore limits ctx tenant key version actor
  | .createGroup group actor =>
    .group <$> FeatureFlags.createGroup ord limits ctx tenant group actor
  | .updateGroup group version actor =>
    .group <$> FeatureFlags.updateGroup ord limits ctx tenant group version actor
  | .deleteGroup key version actor =>
    .group <$> FeatureFlags.deleteGroup limits ctx tenant key version actor
  | .assignGroup key groupKey version actor =>
    .definition <$> FeatureFlags.assignGroup ord limits ctx tenant key groupKey version actor
  | .removeGroup key groupKey version actor =>
    .definition <$> FeatureFlags.removeGroup limits ctx tenant key groupKey version actor
  | .stageUpdate definition version applyAt actor =>
    .staged <$> FeatureFlags.stageUpdate ord limits ctx tenant definition version applyAt actor
  | .applyStage id actor => .definition <$> FeatureFlags.applyStage ord limits ctx tenant id actor
  | .applyScheduled now actor =>
    .definitions <$> FeatureFlags.applyScheduled ord limits ctx tenant now actor
  | .importDocument data options actor =>
    .imported <$> FeatureFlags.importDocument ord limits ctx tenant data options actor
  | .cleanup options => .cleaned <$> FeatureFlags.cleanup limits ctx tenant options
  | .snapshot => .snapshot <$> FeatureFlags.snapshot ord limits ctx tenant
  | .audit key => .entries <$> FeatureFlags.audit limits ctx tenant key
  | .stagedChanges => .changes <$> FeatureFlags.stagedChanges limits ctx tenant
  | .exportDocument => .document <$> FeatureFlags.exportDocument ord limits ctx tenant

/-- The state of a provider: one state for each tenant. -/
abbrev MemoryProvider (κ : Type) := GoMap (TenantState κ)

def MemoryProvider.tenant {κ : Type} (p : MemoryProvider κ) (tenant : Bytes) : TenantState κ :=
  p.getD tenant .empty

/-- A call for one tenant; the other tenants are not touched. -/
def MemoryProvider.exec {κ : Type} [CustomStrategy κ] [Runtime] (p : MemoryProvider κ)
    (ord : MapOrder) (limits : Limits) (ctx : Ctx) (tenant : Bytes) (call : Call κ) :
    Except Failure (Response κ) × MemoryProvider κ :=
  match (call.exec ord limits ctx tenant).run (p.tenant tenant) with
  | .ok response s => (.ok response, p.insert tenant s)
  | .error failure s => (.error failure, p.insert tenant s)

end FeatureFlags
