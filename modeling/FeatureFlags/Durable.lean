import FeatureFlags.Lib.Threads
import FeatureFlags.Lib.Versioned
import FeatureFlags.Memory

/-!
# The durable provider

`durable.go`: the state of a tenant is one document of a backend that compares and swaps.

* `TenantStateWire`, `marshalTenantState`, `unmarshalTenantState`: the document.
* `DurableRequest.afterLoad`: what a call does with the document it has loaded, up to its
  `CompareAndSwap`.
* `durableStep`, `durableProgram`: any number of calls on any number of providers over one backend.
  `Load` and `CompareAndSwap` are the steps; what is between them touches nothing that is shared.

Both calls of the backend may fail at any time, and then change nothing.  Revisions are unbounded.
-/

namespace FeatureFlags

open Go Lib

/-! ### Wire structs -/

def AuditAction.label : AuditAction → Bytes
  | .create => str "create"
  | .update => str "update"
  | .activate => str "activate"
  | .deactivate => str "deactivate"
  | .delete => str "delete"
  | .restore => str "restore"
  | .groupCreate => str "group_create"
  | .groupUpdate => str "group_update"
  | .groupDelete => str "group_delete"
  | .assignGroup => str "assign_group"
  | .removeGroup => str "remove_group"
  | .importCreate => str "import_create"
  | .importUpdate => str "import_update"
  | .stageUpdate => str "stage_update"
  | .applyStage => str "apply_stage"
  | .other label _ => label

/-- The audit action that a string is. -/
def AuditAction.ofLabel (label : Bytes) : AuditAction :=
  if h : label ∉ auditLabels then .other label h
  else if label = str "create" then .create
  else if label = str "update" then .update
  else if label = str "activate" then .activate
  else if label = str "deactivate" then .deactivate
  else if label = str "delete" then .delete
  else if label = str "restore" then .restore
  else if label = str "group_create" then .groupCreate
  else if label = str "group_update" then .groupUpdate
  else if label = str "group_delete" then .groupDelete
  else if label = str "assign_group" then .assignGroup
  else if label = str "remove_group" then .removeGroup
  else if label = str "import_create" then .importCreate
  else if label = str "import_update" then .importUpdate
  else if label = str "stage_update" then .stageUpdate
  else .applyStage

structure TenantRecordWire where
  definition : DefinitionWire
  deleted : Bool

structure StagedChangeWire where
  id : Nat
  definition : DefinitionWire
  expectedVersion : Nat
  applyAt : ZonedTime
  actor : Bytes

structure TenantStateWire where
  version : Int
  records : Codec.Slice TenantRecordWire
  groups : Codec.Slice GroupWire
  audit : Codec.Slice AuditEntry
  staged : Codec.Slice StagedChangeWire
  nextStage : Nat

section Fields

open Codec

/-- The fields of `AuditEntry`, which has no tags. -/
def AuditEntry.codec : Codec AuditEntry :=
  (struct (.cons "FeatureKey" false string <|
    .cons "Action" false string <|
    .cons "Actor" false string <|
    .cons "Version" false uint64 <| .nil)).iso
  (fun e => (e.featureKey, e.action.label, e.actor, e.version, ()))
  (fun (featureKey, action, actor, version, _) => ⟨featureKey, .ofLabel action, actor, version⟩)

/-- The fields of `tenantRecordWire`. -/
def TenantRecordWire.codec [Runtime] : Codec TenantRecordWire :=
  (struct (.cons "definition" false DefinitionWire.codec <|
    .cons "deleted" true bool <| .nil)).iso
  (fun w => (w.definition, w.deleted, ()))
  (fun (definition, deleted, _) => ⟨definition, deleted⟩)

/-- The fields of `stagedChangeWire`; `omitempty` does not omit a struct such as `apply_at`. -/
def StagedChangeWire.codec [Runtime] : Codec StagedChangeWire :=
  (struct (.cons "id" false uint64 <|
    .cons "definition" false DefinitionWire.codec <|
    .cons "expected_version" false uint64 <|
    .cons "apply_at" true time <|
    .cons "actor" true string <| .nil)).iso
  (fun w => (w.id, w.definition, w.expectedVersion, w.applyAt, w.actor, ()))
  (fun (id, definition, expectedVersion, applyAt, actor, _) =>
    ⟨id, definition, expectedVersion, applyAt, actor⟩)

/-- The fields of `tenantStateWire`. -/
def TenantStateWire.codec [Runtime] : Codec TenantStateWire :=
  (struct (.cons "version" false int64 <|
    .cons "records" true (slice TenantRecordWire.codec) <|
    .cons "groups" true (slice GroupWire.codec) <|
    .cons "audit" true (slice AuditEntry.codec) <|
    .cons "staged" true (slice StagedChangeWire.codec) <|
    .cons "next_stage" true uint64 <| .nil)).iso
  (fun w => (w.version, w.records, w.groups, w.audit, w.staged, w.nextStage, ()))
  (fun (version, records, groups, audit, staged, nextStage, _) =>
    ⟨version, records, groups, audit, staged, nextStage⟩)

end Fields

/-! ### Documents -/

section Documents

variable {κ : Type} [CustomStrategy κ]

def tenantStateVersion : Int := 1

/-- The `ErrStateLimit` of a document. -/
def stateLimit (limits : Limits) : GoError :=
  .wrapf "tenant state exceeds %d bytes: %w" [.d limits.maxStateBytes] (.sentinel .stateLimit)

/-- One turn of the loop over the records. -/
def encodeRecord (record : MemoryRecord κ) : Except GoError TenantRecordWire := do
  return ⟨← encodeDefinition record.definition, record.deleted⟩

/-- One turn of the loop over the staged changes. -/
def encodeStaged (change : StagedChange κ) : Except GoError StagedChangeWire := do
  return ⟨change.id, ← encodeDefinition change.definition, change.expectedVersion, change.applyAt,
    change.actor⟩

/-- `marshalTenantState`; the keys are sorted. -/
def marshalTenantState [Runtime] (limits : Limits) (s : TenantState κ) : Except GoError Bytes := do
  let records ← s.features.toList.mapM fun x => encodeRecord x.2
  let groups ← s.groups.toList.mapM fun x => encodeGroup x.2
  let staged ← s.staged.toList.mapM fun x => encodeStaged x.2
  match TenantStateWire.codec.marshal ⟨tenantStateVersion, .ofList records, .ofList groups,
      .ofList s.audit, .ofList staged, s.nextStage⟩ with
  | none => .error (.external 0)
  | some data =>
    rejectIf (len data > limits.maxStateBytes) (stateLimit limits)
    return data

variable [Runtime] (ord : MapOrder) (limits : Limits)

/-- One turn of the loop over the persisted records. -/
def restoreRecord (records : GoMap (MemoryRecord κ)) (wire : TenantRecordWire) :
    Except GoError (GoMap (MemoryRecord κ)) := do
  let definition : Definition κ ← decodeDefinition ord wire.definition
  definition.validate ord limits
  rejectIf (definition.key ∈ records) (.errorf "duplicate persisted feature %q" [.q definition.key])
  return records.insert definition.key ⟨cloneDefinition definition, wire.deleted⟩

/-- One turn of the loop over the persisted staged changes. -/
def restoreStaged (nextStage : Nat) (staged : IdMap (StagedChange κ)) (wire : StagedChangeWire) :
    Except GoError (IdMap (StagedChange κ)) := do
  let definition : Definition κ ← decodeDefinition ord wire.definition
  definition.validate ord limits
  rejectIf (wire.id = 0 ∨ wire.id > nextStage)
    (.errorf "persisted staged change has invalid id %d" [.d wire.id])
  rejectIf (wire.id ∈ staged) (.errorf "duplicate persisted staged change %d" [.d wire.id])
  return staged.insert wire.id
    ⟨wire.id, definition, wire.expectedVersion, wire.applyAt, wire.actor⟩

def unmarshalTenantState (data : Bytes) : Except GoError (TenantState κ) := do
  rejectIf (len data > limits.maxStateBytes) (stateLimit limits)
  let state ← decodeAll TenantStateWire.codec "decode tenant state: %w" data
  rejectIf (state.version ≠ tenantStateVersion)
    (.errorf "unsupported tenant state version %d" [.d state.version])
  let features ← state.records.toList.foldlM (restoreRecord ord limits) ∅
  let groups ← state.groups.toList.mapM decodeGroup
  let groups ← cloneAndValidateGroups ord (activeDefinitions features) groups limits
  rejectIf (len state.audit.toList > limits.maxAuditEntries)
    (.errorf "persisted audit exceeds limit %d" [.d limits.maxAuditEntries])
  rejectIf (len state.staged.toList > limits.maxStagedChanges)
    (.errorf "persisted staged changes exceed limit %d" [.d limits.maxStagedChanges])
  let staged ← state.staged.toList.foldlM (restoreStaged ord limits state.nextStage) ∅
  return ⟨features, groups, state.audit.toList, staged, state.nextStage⟩

/-- The state that a document stands for; a missing one is that of a new provider. -/
def tenantState (document : Option Bytes) : Except GoError (TenantState κ) :=
  match document with
  | none => .ok .empty
  | some data => unmarshalTenantState ord limits data

end Documents

/-! ### Calls over a backend -/

/-- A call of a method of a provider with these limits. -/
structure DurableRequest (κ : Type) where
  limits : Limits
  call : Call κ

/-- What a step reads from outside: the context, the order of map iterations, and whether the
backend fails. -/
structure DurableOutside where
  /-- `ctx.Err()` where `durableMutate` or `load` checks its input. -/
  err : Option GoError
  /-- The context as the method on the loaded state sees it. -/
  ctx : Ctx
  /-- The order in `unmarshalTenantState`. -/
  loadOrd : MapOrder
  /-- The order in the method on the loaded state. -/
  ord : MapOrder
  /-- The error of `Load`, if it fails. -/
  loadErr : Option GoError
  /-- The error of `CompareAndSwap`, if it fails whatever the revision is. -/
  swapErr : Option GoError

/-- Where a method is. -/
inductive DurableStage (κ : Type) where
  /-- Before the first check of `durableMutate`. -/
  | entering
  /-- Before `Load`. -/
  | loading (attempt : Nat)
  /-- Before `CompareAndSwap`. -/
  | swapping (attempt revision : Nat) (data : Bytes) (result : Response κ)
  /-- Before `Load` in a method that does not mutate. -/
  | reading

/-- A call and how far it has come. -/
structure DurableThread (κ : Type) where
  request : DurableRequest κ
  progress : Progress (DurableStage κ) (Except Failure (Response κ))

section Calls

variable {κ : Type}

/-- Whether the method is a `durableMutate`. -/
def DurableRequest.mutates (request : DurableRequest κ) : Bool :=
  match request.call with
  | .snapshot | .audit _ | .stagedChanges | .exportDocument => false
  | .importDocument _ options _ => !options.dryRun
  | _ => true

/-- The head of the loop of `durableMutate`. -/
def nextAttempt (limits : Limits) (attempt : Nat) :
    Progress (DurableStage κ) (Except Failure (Response κ)) :=
  if attempt ≤ limits.maxStorageRetries then .running (.loading attempt)
  else .finished (.error (.error (.sentinel .storageConflict)))

variable [CustomStrategy κ] [Runtime] (tenant : Bytes) (o : DurableOutside)

/-- `load`, given the document of the backend. -/
def load (limits : Limits) (document : Option Bytes) : Except GoError (TenantState κ) := do
  providerInput ⟨o.err, none⟩ tenant limits.maxKeyBytes
  match o.loadErr with
  | some e => .error e
  | none => tenantState o.loadOrd limits document

/-- One attempt of `durableMutate`, up to its `CompareAndSwap`. -/
def DurableRequest.afterLoad (request : DurableRequest κ) (document : Option Bytes) :
    Except Failure (Response κ × Bytes) :=
  match load tenant o request.limits document with
  | .error e => .error (.error e)
  | .ok s =>
    match (request.call.exec o.ord request.limits o.ctx tenant).run s with
    -- only the error is returned, without the report
    | .error (.refused _ e) _ => .error (.error e)
    | .error failure _ => .error failure
    | .ok result s' =>
      match marshalTenantState request.limits s' with
      | .error e => .error (.error e)
      | .ok data => .ok (result, data)

/-- A step of a method. -/
def durableStep (request : DurableRequest κ) (backend : Versioned Bytes) : DurableStage κ →
    Versioned Bytes × Progress (DurableStage κ) (Except Failure (Response κ))
  | .entering =>
    match providerInput ⟨o.err, none⟩ tenant request.limits.maxKeyBytes with
    | .error e => (backend, .finished (.error (.error e)))
    | .ok _ => (backend, nextAttempt request.limits 0)
  | .loading attempt =>
    match request.afterLoad tenant o backend.document with
    | .error failure => (backend, .finished (.error failure))
    | .ok (result, data) =>
      (backend, .running (.swapping attempt backend.revision data result))
  | .swapping attempt revision data result =>
    match o.swapErr with
    | some e =>
      if e.is .storageConflict then (backend, nextAttempt request.limits (attempt + 1))
      else (backend, .finished (.error (.error e)))
    | none =>
      match backend.swap revision data with
      | some backend' => (backend', .finished (.ok result))
      | none => (backend, nextAttempt request.limits (attempt + 1))
  | .reading =>
    match load tenant o request.limits backend.document with
    | .error e => (backend, .finished (.error (.error e)))
    | .ok s =>
      match (request.call.exec o.ord request.limits o.ctx tenant).run s with
      | .error failure _ => (backend, .finished (.error failure))
      | .ok result _ => (backend, .finished (.ok result))

/-- The calls for one tenant as a program over its document. -/
def durableProgram :
    Program (Versioned Bytes) (DurableThread κ) (DurableRequest κ) DurableOutside where
  start request := ⟨request, .running (if request.mutates then .entering else .reading)⟩
  step o backend thread :=
    match thread.progress with
    | .finished _ => none
    | .running stage =>
      let (backend', progress) := durableStep tenant o thread.request backend stage
      some (backend', ⟨thread.request, progress⟩, [])

/-- The document of a tenant and the calls on it. -/
abbrev DurablePool (κ : Type) := Pool (Versioned Bytes) (DurableThread κ)

/-- A step of a run over a backend. -/
abbrev DurableMove (κ : Type) := Transition (DurablePool κ) (Act (DurableRequest κ) DurableOutside)

/-- The runs over a backend without a document for the tenant. -/
abbrev DurableRun : List (DurableMove κ) → DurablePool κ → Prop :=
  (durableProgram tenant).Run .missing

end Calls

end FeatureFlags
