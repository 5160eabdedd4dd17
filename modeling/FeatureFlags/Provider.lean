import FeatureFlags.Memory

/-!
# The maps of the in-process provider

`MemoryProvider` holds five maps with the tenant as their key, and every method finds its tenant's
data in them itself.  `Provider` is this state, and the methods here are those of `Memory` with
their own lookups and writes.

* A tenant that is not in a map has a nil map there: reading it finds nothing, deleting from it does
  nothing, and assigning to an entry of it panics.  `Create`, `CreateGroup` and `StageUpdate` make
  the map first, the first two also when they fail later.
* `Provider.tenant`: the data of one tenant.
* `TenantRequest`: an operation of a run, with the order in which it visits the entries of maps.
-/

namespace FeatureFlags

open Go

/-- The state of a `MemoryProvider`. -/
structure Provider (κ : Type) where
  tenants : GoMap (GoMap (MemoryRecord κ))
  groups : GoMap (GoMap (GroupDefinition κ))
  audit : GoMap (List AuditEntry)
  staged : GoMap (IdMap (StagedChange κ))
  nextStage : GoMap Nat

/-- An operation on the state of a provider. -/
abbrev ProviderOp (κ : Type) (α : Type) := EStateM Failure (Provider κ) α

namespace Provider

variable {κ : Type}

def newMemoryProvider : Provider κ := ⟨∅, ∅, ∅, ∅, ∅⟩

/-- The data of a tenant. -/
def tenant (p : Provider κ) (tenant : Bytes) : TenantState κ where
  features := p.tenants.getD tenant ∅
  groups := p.groups.getD tenant ∅
  audit := p.audit.getD tenant []
  staged := p.staged.getD tenant ∅
  nextStage := p.nextStage.getD tenant 0

/-! ### Lookups and writes -/

/-- Return the error. -/
def fail {α : Type} (e : GoError) : ProviderOp κ α := throw (.error e)

/-- Return the error of a check. -/
def check {α : Type} (x : Except GoError α) : ProviderOp κ α :=
  match x with
  | .ok a => pure a
  | .error e => fail e

def appendAudit (limits : Limits) (tenant key : Bytes) (action : AuditAction) (actor : Bytes)
    (version : Nat) : ProviderOp κ Unit := do
  let p ← get
  let entries := p.audit.getD tenant [] ++ [⟨key, action, actor, version⟩]
  let excess := len entries - limits.maxAuditEntries
  if excess > len entries then throw .panic
  else set { p with audit := p.audit.insert tenant (entries.drop excess.toNat) }

/-- `p.tenants[tenant][key] = record`. -/
def putRecord (tenant key : Bytes) (record : MemoryRecord κ) : ProviderOp κ Unit := do
  let p ← get
  match p.tenants[tenant]? with
  | none => throw .panic
  | some features => set { p with tenants := p.tenants.insert tenant (features.insert key record) }

/-- `p.groups[tenant][key] = group`. -/
def putGroup (tenant key : Bytes) (group : GroupDefinition κ) : ProviderOp κ Unit := do
  let p ← get
  match p.groups[tenant]? with
  | none => throw .panic
  | some groups => set { p with groups := p.groups.insert tenant (groups.insert key group) }

/-- `p.staged[tenant][id] = change`. -/
def putStaged (tenant : Bytes) (change : StagedChange κ) : ProviderOp κ Unit := do
  let p ← get
  match p.staged[tenant]? with
  | none => throw .panic
  | some staged =>
    set { p with staged := p.staged.insert tenant (staged.insert change.id change) }

/-- The record of a feature that is not deleted. -/
def liveRecord (tenant key : Bytes) : ProviderOp κ (MemoryRecord κ) := do
  match ((← get).tenants.getD tenant ∅)[key]? with
  | none => fail (featureNotFound tenant key)
  | some record => if record.deleted then fail (featureNotFound tenant key) else return record

/-- The optimistic lock. -/
def expectVersion (tenant key : Bytes) (current expected : Nat) : ProviderOp κ Unit :=
  if current ≠ expected then fail (versionConflict tenant key current expected) else return ()

/-! ### The methods -/

variable [CustomStrategy κ] [Runtime] (ord : MapOrder) (limits : Limits) (ctx : Ctx)
  (tenant : Bytes)

def create (definition : Definition κ) (actor : Bytes) : ProviderOp κ (Definition κ) := do
  check (providerInput ctx tenant limits.maxKeyBytes)
  check (definition.validate ord limits)
  modify fun p => { p with tenants := p.tenants.insertIfNew tenant ∅ }
  let p ← get
  let features := p.tenants.getD tenant ∅
  if definition.key ∈ features then
    fail (.wrapf "tenant %q feature %q: %w" [.q tenant, .q definition.key]
      (.sentinel .alreadyExists))
  else if features.len ≥ limits.maxFeatures then
    fail (.errorf "tenant %q: features exceed limit %d" [.q tenant, .d limits.maxFeatures])
  else
    let stored := cloneDefinition { definition with version := 1 }
    putRecord tenant definition.key ⟨stored, false⟩
    appendAudit limits tenant definition.key .create actor stored.version
    return cloneDefinition stored

def update (definition : Definition κ) (expectedVersion : Nat) (actor : Bytes) :
    ProviderOp κ (Definition κ) := do
  check (providerInput ctx tenant limits.maxKeyBytes)
  check (definition.validate ord limits)
  let record ← liveRecord tenant definition.key
  expectVersion tenant definition.key record.definition.version expectedVersion
  let stored := cloneDefinition { definition with version := record.definition.version + 1 }
  putRecord tenant definition.key ⟨stored, false⟩
  appendAudit limits tenant definition.key .update actor stored.version
  return cloneDefinition stored

def setLifecycle (key : Bytes) (expectedVersion : Nat) (actor : Bytes) (lifecycle : Lifecycle)
    (action : AuditAction) (deleted : Bool) : ProviderOp κ (Definition κ) := do
  check (providerInput ctx tenant limits.maxKeyBytes)
  let record ← liveRecord tenant key
  expectVersion tenant key record.definition.version expectedVersion
  let stored := { record.definition with lifecycle, version := record.definition.version + 1 }
  putRecord tenant key ⟨stored, deleted⟩
  appendAudit limits tenant key action actor stored.version
  return cloneDefinition stored

def activate (key : Bytes) (expectedVersion : Nat) (actor : Bytes) :
    ProviderOp κ (Definition κ) :=
  setLifecycle limits ctx tenant key expectedVersion actor .active .activate false

def deactivate (key : Bytes) (expectedVersion : Nat) (actor : Bytes) :
    ProviderOp κ (Definition κ) :=
  setLifecycle limits ctx tenant key expectedVersion actor .inactive .deactivate false

def delete (key : Bytes) (expectedVersion : Nat) (actor : Bytes) : ProviderOp κ (Definition κ) :=
  setLifecycle limits ctx tenant key expectedVersion actor .archived .delete true

def restore (key : Bytes) (expectedVersion : Nat) (actor : Bytes) :
    ProviderOp κ (Definition κ) := do
  check (providerInput ctx tenant limits.maxKeyBytes)
  let p ← get
  match (p.tenants.getD tenant ∅)[key]? with
  | none => fail (featureNotFound tenant key)
  | some record =>
    if ¬ record.deleted then fail (featureNotFound tenant key)
    else
      expectVersion tenant key record.definition.version expectedVersion
      let stored := { record.definition with
        lifecycle := .inactive, version := record.definition.version + 1 }
      putRecord tenant key ⟨stored, false⟩
      appendAudit limits tenant key .restore actor stored.version
      return cloneDefinition stored

def createGroup (group : GroupDefinition κ) (actor : Bytes) :
    ProviderOp κ (GroupDefinition κ) := do
  check (providerInput ctx tenant limits.maxKeyBytes)
  modify fun p => { p with groups := p.groups.insertIfNew tenant ∅ }
  let p ← get
  let groups := p.groups.getD tenant ∅
  if group.key ∈ groups then
    fail (.wrapf "tenant %q group %q: %w" [.q tenant, .q group.key] (.sentinel .alreadyExists))
  else
    let prospective := (groups.range ord).map Prod.snd ++ [{ group with version := 1 }]
    let cloned ← check (cloneAndValidateGroups ord
      (activeDefinitions (p.tenants.getD tenant ∅)) prospective limits)
    let stored := storedGroup cloned group.key
    putGroup tenant group.key stored
    appendAudit limits tenant group.key .groupCreate actor stored.version
    return cloneGroup stored

def updateGroup (group : GroupDefinition κ) (expectedVersion : Nat) (actor : Bytes) :
    ProviderOp κ (GroupDefinition κ) := do
  check (providerInput ctx tenant limits.maxKeyBytes)
  let p ← get
  match (p.groups.getD tenant ∅)[group.key]? with
  | none => fail (groupNotFound tenant group.key)
  | some current =>
    expectVersion tenant group.key current.version expectedVersion
    let replacement := { group with version := current.version + 1 }
    let prospective := (groupsFromMap ord (p.groups.getD tenant ∅)).map fun g =>
      if g.key = group.key then replacement else g
    let cloned ← check (cloneAndValidateGroups ord
      (activeDefinitions (p.tenants.getD tenant ∅)) prospective limits)
    let stored := storedGroup cloned group.key
    putGroup tenant group.key stored
    appendAudit limits tenant group.key .groupUpdate actor stored.version
    return cloneGroup stored

def deleteGroup (groupKey : Bytes) (expectedVersion : Nat) (actor : Bytes) :
    ProviderOp κ (GroupDefinition κ) := do
  check (providerInput ctx tenant limits.maxKeyBytes)
  let p ← get
  match (p.groups.getD tenant ∅)[groupKey]? with
  | none => fail (groupNotFound tenant groupKey)
  | some group =>
    expectVersion tenant groupKey group.version expectedVersion
    let inUse : GoError :=
      .wrapf "tenant %q group %q: %w" [.q tenant, .q groupKey] (.sentinel .groupInUse)
    if (p.tenants.getD tenant ∅).toList.any fun x =>
        !x.2.deleted && listed x.2.definition.groups groupKey then
      fail inUse
    else if (p.groups.getD tenant ∅).toList.any fun x => x.2.parent == groupKey then fail inUse
    else
      modify fun p => { p with groups := p.groups.modify tenant (·.erase groupKey) }
      let deleted := { group with version := group.version + 1 }
      appendAudit limits tenant groupKey .groupDelete actor deleted.version
      return cloneGroup deleted

def assignGroup (featureKey groupKey : Bytes) (expectedVersion : Nat) (actor : Bytes) :
    ProviderOp κ (Definition κ) := do
  check (providerInput ctx tenant limits.maxKeyBytes)
  let p ← get
  if groupKey ∉ p.groups.getD tenant ∅ then fail (groupNotFound tenant groupKey)
  else
    let record ← liveRecord tenant featureKey
    expectVersion tenant featureKey record.definition.version expectedVersion
    if listed record.definition.groups groupKey then return cloneDefinition record.definition
    else
      let cloned := cloneDefinition record.definition
      let assigned := { cloned with groups := cloned.groups ++ [groupKey] }
      let _ ← check (cloneAndValidateGroups ord ((activeDefinitions (p.tenants.getD tenant
        ∅)).insert featureKey assigned) (groupsFromMap ord (p.groups.getD tenant ∅)) limits)
      let updated := { assigned with version := assigned.version + 1 }
      putRecord tenant featureKey ⟨updated, record.deleted⟩
      appendAudit limits tenant featureKey .assignGroup actor updated.version
      return cloneDefinition updated

def removeGroup (featureKey groupKey : Bytes) (expectedVersion : Nat) (actor : Bytes) :
    ProviderOp κ (Definition κ) := do
  check (providerInput ctx tenant limits.maxKeyBytes)
  let record ← liveRecord tenant featureKey
  expectVersion tenant featureKey record.definition.version expectedVersion
  let cloned := cloneDefinition record.definition
  if groupKey ∉ cloned.groups then
    fail (.wrapf "tenant %q feature %q group %q: %w" [.q tenant, .q featureKey, .q groupKey]
      (.sentinel .notFound))
  else
    let updated := { cloned with
      groups := cloned.groups.filter (· ≠ groupKey), version := cloned.version + 1 }
    putRecord tenant featureKey ⟨updated, record.deleted⟩
    appendAudit limits tenant featureKey .removeGroup actor updated.version
    return cloneDefinition updated

def stageUpdate (definition : Definition κ) (expectedVersion : Nat) (applyAt : ZonedTime)
    (actor : Bytes) : ProviderOp κ (StagedChange κ) := do
  check (providerInput ctx tenant limits.maxKeyBytes)
  check (definition.validate ord limits)
  let record ← liveRecord tenant definition.key
  expectVersion tenant definition.key record.definition.version expectedVersion
  let p ← get
  let staged := p.staged.getD tenant ∅
  if (staged.size : Int) ≥ limits.maxStagedChanges then
    fail (.errorf "tenant %q staged changes exceed %d" [.q tenant, .d limits.maxStagedChanges])
  else if staged.toList.any fun x => x.2.definition.key == definition.key then
    fail (.wrapf "tenant %q feature %q has staged change: %w" [.q tenant, .q definition.key]
      (.sentinel .alreadyExists))
  else
    let id := p.nextStage.getD tenant 0 + 1
    set { p with
      staged := p.staged.insertIfNew tenant ∅
      nextStage := p.nextStage.insert tenant id }
    let change : StagedChange κ :=
      ⟨id, cloneDefinition definition, expectedVersion, applyAt, actor⟩
    putStaged tenant change
    appendAudit limits tenant definition.key .stageUpdate actor expectedVersion
    return cloneStagedChange change

/-- The last loop of `applyStagesLocked`. -/
def recordApplied (actor : Bytes) : List (Nat × Definition κ) → ProviderOp κ Unit
  | [] => return ()
  | (id, result) :: rest => do
    modify fun p => { p with staged := p.staged.modify tenant (·.erase id) }
    appendAudit limits tenant result.key .applyStage actor result.version
    recordApplied actor rest

/-- `applyStagesLocked`. -/
def applyStages (ids : List Nat) (actor : Bytes) : ProviderOp κ (List (Definition κ)) := do
  let p ← get
  let (records, results) ← check (ids.foldlM (applyStageStep tenant (p.staged.getD tenant ∅))
    (cloneMemoryRecords (p.tenants.getD tenant ∅), []))
  let _ ← check (newSnapshotWithGroups ord (definitionsFromRecords ord records)
    (groupsFromMap ord (p.groups.getD tenant ∅)) limits)
  set { p with tenants := p.tenants.insert tenant records }
  recordApplied limits tenant actor (ids.zip results)
  return results

def applyStage (id : Nat) (actor : Bytes) : ProviderOp κ (Definition κ) := do
  check (providerInput ctx tenant limits.maxKeyBytes)
  match ← applyStages ord limits tenant [id] actor with
  | result :: _ => return result
  | [] => throw .panic

def applyScheduled (now : Time) (actor : Bytes) : ProviderOp κ (List (Definition κ)) := do
  check (providerInput ctx tenant limits.maxKeyBytes)
  if now.isZero then fail (.errorf "scheduled application time is required" [])
  else
    let p ← get
    let ids := dueStages now (p.staged.getD tenant ∅)
    if ids = [] then return []
    else applyStages ord limits tenant ids actor

def stagedChanges : ProviderOp κ (List (StagedChange κ)) := do
  check (providerInput ctx tenant limits.maxKeyBytes)
  let p ← get
  return (p.staged.getD tenant ∅).toList.map fun x => cloneStagedChange x.2

/-- The last loop of `ImportDocument`. -/
def recordImported (actor : Bytes) : List PendingAudit → ProviderOp κ Unit
  | [] => return ()
  | audit :: rest => do
    appendAudit limits tenant audit.key audit.action actor audit.version
    recordImported actor rest

/-- `ImportDocument`; its loops read the tenant's features and groups. -/
def importDocument (data : Bytes) (options : ImportOptions) (actor : Bytes) :
    ProviderOp κ ImportReport := do
  check (providerInput ctx tenant limits.maxKeyBytes)
  let policy ← check options.policy
  let (definitions, groups) ← check (Import ord data limits)
  match ctx.laterErr with
  | some e => fail e
  | none =>
    let p ← get
    let plan := definitions.foldl (planFeature policy) <| groups.foldl (planGroup policy)
      ⟨⟨options.dryRun, 0, 0, 0, 0, 0, []⟩, cloneMemoryRecords (p.tenants.getD tenant ∅),
        cloneGroupMap (p.groups.getD tenant ∅), []⟩
    if policy = .fail ∧ plan.report.conflicts ≠ [] ∧ ¬ options.dryRun then
      throw (.refused plan.report (.sentinel .importConflict))
    else
      match newSnapshotWithGroups ord (definitionsFromRecords ord plan.records)
          (groupsFromMap ord plan.groups) limits with
      | .error e => throw (.refused plan.report e)
      | .ok _ =>
        if options.dryRun then return plan.report
        else
          set { p with
            tenants := p.tenants.insert tenant plan.records
            groups := p.groups.insert tenant plan.groups }
          recordImported limits tenant actor plan.audits
          return plan.report

def exportDocument : ProviderOp κ Bytes := do
  check (providerInput ctx tenant limits.maxKeyBytes)
  let p ← get
  check (Export ord (definitionsFromRecords ord (p.tenants.getD tenant ∅))
    (groupsFromMap ord (p.groups.getD tenant ∅)) limits)

def snapshot : ProviderOp κ (Snapshot κ) := do
  check (providerInput ctx tenant limits.maxKeyBytes)
  let p ← get
  let snapshot ← check (newSnapshotWithGroups ord (definitionsFromRecords ord (p.tenants.getD tenant
    ∅)) (groupsFromMap ord (p.groups.getD tenant ∅)) limits)
  return snapshot.bindTenant tenant

def auditEntries (key : Bytes) : ProviderOp κ (List AuditEntry) := do
  check (providerInput ctx tenant limits.maxKeyBytes)
  let p ← get
  return (p.audit.getD tenant []).filter fun entry => entry.featureKey = key

def cleanup (options : CleanupOptions) : ProviderOp κ CleanupReport := do
  check (providerInput ctx tenant limits.maxKeyBytes)
  if options.keepAudit < 0 ∨ options.keepAudit > limits.maxAuditEntries then
    fail (.errorf "audit retention must be between 0 and %d" [.d limits.maxAuditEntries])
  else
    let p ← get
    let features := p.tenants.getD tenant ∅
    let staged := p.staged.getD tenant ∅
    let purged := purgedKeys options features
    let kept := staged.filter fun _ change => ¬ discards options purged change
    set { p with
      tenants := p.tenants.modify tenant fun records => records.filter fun key _ => key ∉ purged
      staged := p.staged.modify tenant fun changes =>
        changes.filter fun _ change => ¬ discards options purged change }
    let report : CleanupReport := ⟨purged.size, staged.size - kept.size, 0⟩
    let discarded := len (p.audit.getD tenant []) - options.keepAudit
    if options.keepAudit > 0 ∧ ¬ discarded < 1 then
      modify fun p => { p with
        audit := p.audit.insert tenant ((p.audit.getD tenant []).drop discarded.toNat) }
      return { report with discardedAudit := discarded.toNat }
    else return report

/-- The method of a call. -/
def exec : Call κ → ProviderOp κ (Response κ)
  | .create definition actor => .definition <$> create ord limits ctx tenant definition actor
  | .update definition version actor =>
    .definition <$> update ord limits ctx tenant definition version actor
  | .activate key version actor => .definition <$> activate limits ctx tenant key version actor
  | .deactivate key version actor => .definition <$> deactivate limits ctx tenant key version actor
  | .delete key version actor => .definition <$> delete limits ctx tenant key version actor
  | .restore key version actor => .definition <$> restore limits ctx tenant key version actor
  | .createGroup group actor => .group <$> createGroup ord limits ctx tenant group actor
  | .updateGroup group version actor =>
    .group <$> updateGroup ord limits ctx tenant group version actor
  | .deleteGroup key version actor => .group <$> deleteGroup limits ctx tenant key version actor
  | .assignGroup key groupKey version actor =>
    .definition <$> assignGroup ord limits ctx tenant key groupKey version actor
  | .removeGroup key groupKey version actor =>
    .definition <$> removeGroup limits ctx tenant key groupKey version actor
  | .stageUpdate definition version applyAt actor =>
    .staged <$> stageUpdate ord limits ctx tenant definition version applyAt actor
  | .applyStage id actor => .definition <$> applyStage ord limits ctx tenant id actor
  | .applyScheduled now actor => .definitions <$> applyScheduled ord limits ctx tenant now actor
  | .importDocument data options actor =>
    .imported <$> importDocument ord limits ctx tenant data options actor
  | .cleanup options => .cleaned <$> cleanup limits ctx tenant options
  | .snapshot => .snapshot <$> snapshot ord limits ctx tenant
  | .audit key => .entries <$> auditEntries limits ctx tenant key
  | .stagedChanges => .changes <$> stagedChanges limits ctx tenant
  | .exportDocument => .document <$> exportDocument ord limits ctx tenant

end Provider

/-! ### Runs -/

/-- An operation of a run. -/
structure TenantRequest (κ : Type) where
  tenant : Bytes
  ord : MapOrder
  ctx : Ctx
  call : Call κ

/-- The method that a request calls. -/
def TenantRequest.exec {κ : Type} [CustomStrategy κ] [Runtime] (limits : Limits)
    (request : TenantRequest κ) : ProviderOp κ (Response κ) :=
  Provider.exec request.ord limits request.ctx request.tenant request.call

end FeatureFlags
