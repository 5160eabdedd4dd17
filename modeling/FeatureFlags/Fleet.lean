import FeatureFlags.Cache

/-!
# The fleet

`fleet.go`: one tenant's active snapshot in a process, with its refresh lifecycle.  This module has
the configuration, the state and the sections that run under the fleet's locks; the methods are in
`FeatureFlags.FleetCalls`.

* `newFleet`: the checks of `NewFleet`.
* `validateCandidate`: what a candidate must satisfy to be activated.
* `Fleet`: the fields that the methods share.
* `Fleet.now`: the clock, which never goes back.
* `degraded`: what `evaluate` does without a fresh snapshot.

A `*refreshFlight` is the number of its allocation.  The fields `active` and `hasActive` of the
source are always set together; here they are one option.
-/

namespace FeatureFlags

open Go

/-! ### Configuration -/

def maxFleetIdentityLength : Int := 128

def maxFleetWaiters : Int := 65536

def maxFleetProviderLoads : Int := 1024

def maxFleetConcurrentProviderLoads : Int := 1024

def maxFleetInvalidationStreams : Int := 10000

/-- `DegradedMode`, a `uint8`. -/
inductive DegradedMode where
  | failClosed
  | failOpen
  | default
  | lastKnownGood
  | other (code : UInt8) (h : code < 1 ∨ 4 < code)
deriving DecidableEq

/-- The mode is not one of the four. -/
def DegradedMode.invalid : DegradedMode → Bool
  | other .. => true
  | _ => false

structure FlagPolicy where
  mode : DegradedMode
  default : Value
  maxStaleness : Int
  securitySensitive : Bool
deriving DecidableEq

/-- `FleetConfig`.  Of the callbacks it says whether they are there; what they answer is told to
each step.  Durations are in nanoseconds. -/
structure FleetConfig where
  tenant : Bytes
  replicaID : Bytes
  loader : Bool
  cache : Bool
  watcher : Bool
  executor : Bool
  failureClassifier : Bool
  clock : Bool
  refreshInterval : Int
  minRefreshInterval : Int
  maxRefreshJitter : Int
  loadTimeout : Int
  freshFor : Int
  maxStaleness : Int
  maxFutureSkew : Int
  convergenceWindow : Int
  maxWaiters : Int
  maxProviderLoads : Int
  maxConcurrentProviderLoads : Int
  maxInvalidationStreams : Int
  maxPolicies : Int
  allowEmptyBootstrap : Bool
  allowStaleBootstrap : Bool
  policies : GoMap FlagPolicy
deriving DecidableEq

/-- A last-known-good policy without a bound of its own inherits the fleet's. -/
def FlagPolicy.inherit (maxStaleness : Int) (policy : FlagPolicy) : FlagPolicy :=
  if policy.mode = .lastKnownGood ∧ policy.maxStaleness ≤ 0 then { policy with maxStaleness }
  else policy

/-- One turn of the loop of `NewFleet` over the policies. -/
def addPolicy (maxStaleness : Int) (policies : GoMap FlagPolicy) (entry : Bytes × FlagPolicy) :
    Except GoError (GoMap FlagPolicy) := do
  let (key, policy) := entry
  rejectIf (key = [] ∨ len key > defaultLimits.maxKeyBytes)
    (.errorf "fleet policy feature key is invalid" [])
  rejectIf policy.mode.invalid (.errorf "fleet policy for %q has an invalid degraded mode" [.q key])
  rejectIf (policy.securitySensitive ∧ (policy.mode = .failOpen ∨ policy.mode = .default))
    (.wrapf "%w: %s" [.s key] (.sentinel .unsafeFlagPolicy))
  rejectIf
    (policy.mode = .lastKnownGood ∧ (policy.inherit maxStaleness).maxStaleness > maxStaleness)
    (.errorf "fleet policy for %q exceeds maximum staleness" [.q key])
  return policies.insert key (policy.inherit maxStaleness)

/-- `NewFleet`: the configuration of the fleet. -/
def newFleet (ord : MapOrder) (config : FleetConfig) : Except GoError FleetConfig := do
  rejectIf (config.tenant = [] ∨ len config.tenant > maxFleetIdentityLength)
    (.errorf "fleet tenant must be non-empty and at most %d bytes" [.d maxFleetIdentityLength])
  rejectIf (config.replicaID = [] ∨ len config.replicaID > maxFleetIdentityLength)
    (.errorf "fleet replica id must be non-empty and at most %d bytes" [.d maxFleetIdentityLength])
  rejectIf (config.loader = false ∨ config.clock = false)
    (.errorf "fleet loader and clock are required" [])
  rejectIf
    (config.refreshInterval ≤ 0 ∨ config.minRefreshInterval ≤ 0 ∨ config.minRefreshInterval >
      config.refreshInterval ∨ config.maxRefreshJitter < 0 ∨ config.maxFutureSkew < 0 ∨
      config.loadTimeout ≤ 0 ∨ config.freshFor ≤ 0 ∨ config.maxStaleness < config.freshFor)
    (.errorf "fleet time bounds are invalid" [])
  rejectIf
    (config.maxRefreshJitter > maxDuration - config.refreshInterval ∨
      config.loadTimeout > maxDuration - (config.refreshInterval + config.maxRefreshJitter))
    (.errorf "fleet refresh bound overflows time.Duration" [])
  rejectIf
    (config.convergenceWindow <
      config.refreshInterval + config.maxRefreshJitter + config.loadTimeout)
    (.errorf "fleet convergence window is shorter than the refresh bound" [])
  rejectIf
    (config.maxWaiters ≤ 0 ∨ config.maxProviderLoads ≤ 0 ∨ config.maxConcurrentProviderLoads ≤ 0 ∨
      config.maxInvalidationStreams ≤ 0 ∨ config.maxPolicies ≤ 0)
    (.errorf "fleet resource bounds must be positive" [])
  rejectIf
    (config.maxWaiters > maxFleetWaiters ∨ config.maxProviderLoads > maxFleetProviderLoads ∨
      config.maxConcurrentProviderLoads > maxFleetConcurrentProviderLoads ∨
      config.maxInvalidationStreams > maxFleetInvalidationStreams ∨
      config.maxPolicies > defaultLimits.maxFeatures)
    (.errorf "fleet resource bounds exceed supported maxima" [])
  rejectIf (config.policies.len > config.maxPolicies)
    (.errorf "fleet policy count exceeds %d" [.d config.maxPolicies])
  let policies ← (config.policies.range ord).foldlM (addPolicy config.maxStaleness) ∅
  return { config with policies }

/-! ### Snapshots -/

/-- `SnapshotCandidate`.  A `Snapshot` whose maps are nil is the zero one, `none` here. -/
structure SnapshotCandidate (κ : Type) where
  snapshot : Option (Snapshot κ)
  revision : Bytes
  provenance : Bytes
  sourceTime : Time

structure ActiveSnapshot (κ : Type) where
  snapshot : Snapshot κ
  revision : Bytes
  provenance : Bytes
  sourceTime : Time
  activatedAt : Time

def ActiveSnapshot.age {κ : Type} (active : ActiveSnapshot κ) (now : Time) : Int :=
  boundedAge now active.sourceTime

/-- The revision of the active snapshot; the zero one has the empty revision. -/
def activeRevision {κ : Type} (active : Option (ActiveSnapshot κ)) : Bytes :=
  match active with
  | some active => active.revision
  | none => []

def addDuration (t : Time) (d : Int) : Time := ⟨t.nanos + d⟩

def validateCandidate {κ : Type} [CustomStrategy κ] [Runtime] (ord : MapOrder)
    (config : FleetConfig) (candidate : SnapshotCandidate κ) (now : Time) (allowStale : Bool) :
    Except GoError (Snapshot κ) := do
  rejectIf (candidate.revision = [] ∨ len candidate.revision > maxFleetIdentityLength)
    (.sentinel .malformedSnapshot)
  rejectIf (candidate.provenance = [] ∨ len candidate.provenance > maxFleetIdentityLength)
    (.sentinel .malformedSnapshot)
  rejectIf candidate.sourceTime.isZero (.sentinel .malformedSnapshot)
  match candidate.snapshot with
  | none => .error (.sentinel .malformedSnapshot)
  | some snapshot =>
    rejectIf (snapshot.tenant ≠ config.tenant) (.sentinel .malformedSnapshot)
    rejectIf (config.allowEmptyBootstrap = false ∧ snapshot.definitions.len = 0)
      (.sentinel .noUsableSnapshot)
    rejectIf ((addDuration now config.maxFutureSkew).before candidate.sourceTime)
      (.sentinel .snapshotFuture)
    let age := boundedAge now candidate.sourceTime
    rejectIf (age > config.maxStaleness ∨ allowStale = false ∧ age > config.freshFor)
      (.sentinel .snapshotStale)
    let validated ← (newSnapshotWithGroups ord
      ((snapshot.definitions.range ord).map Prod.snd) ((snapshot.groups.range ord).map Prod.snd)
      snapshot.limits).mapError (.join (.sentinel .malformedSnapshot))
    return validated.bindTenant config.tenant

/-! ### Failures -/

/-- `FleetFailureCode`.  A classifier may answer any string; those that are not listed are
`other`. -/
inductive FleetFailureCode where
  | none
  | provider
  | invalidSnapshot
  | staleSnapshot
  | loadLimit
  | waiterLimit
  | cancelled
  | stopped
  | scheduler
  | cacheLoad
  | cacheStore
  | retryExhausted
  | circuitOpen
  | bulkhead
  | throttled
  | concurrency
  | budgetExhausted
  | watcher
  | invalidation
  | other
deriving DecidableEq

def classifyFleetFailure : Option GoError → FleetFailureCode
  | .none => .none
  | some err =>
    if err.is .malformedSnapshot || err.is .noUsableSnapshot || err.is .snapshotFuture ||
        err.is .snapshotReordered then .invalidSnapshot
    else if err.is .snapshotStale then .staleSnapshot
    else if err.is .refreshLoadLimit then .loadLimit
    else if err.is .refreshWaiterLimit then .waiterLimit
    else if err.is .canceled || err.is .deadlineExceeded then .cancelled
    else if err.is .fleetStopped then .stopped
    else .provider

/-- `classifyRefreshFailure`, given what the classifier answers. -/
def classifyRefreshFailure (config : FleetConfig) (classified : FleetFailureCode)
    (err : Option GoError) : FleetFailureCode :=
  if classifyFleetFailure err ≠ .provider ∨ config.failureClassifier = false then
    classifyFleetFailure err
  else match classified with
    | .provider | .retryExhausted | .circuitOpen | .bulkhead | .throttled | .concurrency
    | .budgetExhausted => classified
    | _ => .provider

def classifyWatcherFailure (config : FleetConfig) (classified : FleetFailureCode) (err : GoError) :
    FleetFailureCode :=
  if err.is .invalidInvalidation || err.is .invalidationStreams then .invalidation
  else classifyRefreshFailure config classified (some err)

/-! ### Results -/

/-- `RefreshDisposition`; `unset` is the zero value. -/
inductive RefreshDisposition where
  | unset
  | activated
  | unchanged
  | deferred
deriving DecidableEq

structure RefreshResult (κ : Type) where
  active : Option (ActiveSnapshot κ)
  disposition : RefreshDisposition
  coalesced : Bool

/-- The zero `RefreshResult`. -/
def RefreshResult.zero {κ : Type} : RefreshResult κ := ⟨none, .unset, false⟩

structure Invalidation where
  tenant : Bytes
  stream : Bytes
  sequence : UInt64
  revision : Bytes
  observedAt : Time
deriving DecidableEq

/-- `InvalidationDisposition`; `unset` is the zero value. -/
inductive InvalidationDisposition where
  | unset
  | current
  | duplicate
  | reordered
  | refreshed
  | pending
deriving DecidableEq

structure InvalidationResult where
  disposition : InvalidationDisposition
  gap : Bool
  previousSequence : UInt64
  activeRevision : Bytes
  delay : Int
  convergenceDeadline : Time
deriving DecidableEq

/-- The zero `InvalidationResult`. -/
def InvalidationResult.zero : InvalidationResult := ⟨.unset, false, 0, [], 0, .zero⟩

/-! ### State -/

inductive FleetState where
  | cold
  | ready
  | degraded
  | stopped
deriving DecidableEq

/-- The fields of a `Fleet` that its methods share.  A channel that is only ever closed is a flag,
and `loadSlots` is the number of slots taken. -/
structure Fleet (κ : Type) where
  lastObservedAt : Time
  active : Option (ActiveSnapshot κ)
  state : FleetState
  lastRefreshFailure : FleetFailureCode
  lastCacheFailure : FleetFailureCode
  lastWatcherFailure : FleetFailureCode
  providerLoads : Nat
  refresh : Option Nat
  flights : List (Option (RefreshResult κ × Option GoError))
  waiters : Int
  lastRefreshAt : Time
  closed : Bool
  refreshWG : Int
  invalidations : GoMap UInt64
  invalidationGaps : Nat
  convergence : Time
  convergenceRevision : Bytes
  runWG : Int
  started : Bool
  starting : Bool
  watcherRunning : Bool
  loadSlots : Int
  loadWG : Int
  bootstrapWG : Int
  shutdownOnce : Bool
  shutdownDone : Bool

structure FleetStatus where
  state : FleetState
  revision : Bytes
  provenance : Bytes
  age : Int
  providerLoads : Nat
  lastRefreshFailure : FleetFailureCode
  lastCacheFailure : FleetFailureCode
  lastWatcherFailure : FleetFailureCode
  invalidationGaps : Nat
  convergenceDeadline : Time
  convergenceBreached : Bool
  refreshing : Bool
  watcherRunning : Bool
  refreshWaiters : Int
deriving DecidableEq

namespace Fleet

variable {κ : Type} (config : FleetConfig)

/-- The fleet that `NewFleet` returns. -/
def new : Fleet κ where
  lastObservedAt := .zero
  active := none
  state := .cold
  lastRefreshFailure := .none
  lastCacheFailure := .none
  lastWatcherFailure := .none
  providerLoads := 0
  refresh := none
  flights := []
  waiters := 0
  lastRefreshAt := .zero
  closed := false
  refreshWG := 0
  invalidations := ∅
  invalidationGaps := 0
  convergence := .zero
  convergenceRevision := []
  runWG := 0
  started := false
  starting := false
  watcherRunning := false
  loadSlots := 0
  loadWG := 0
  bootstrapWG := 0
  shutdownOnce := false
  shutdownDone := false

/-! ### Sections under the locks -/

/-- `Fleet.now`: the time it returns, and the fleet.  The clock is read before the lock is taken, so
that readings can arrive in any order. -/
def now (clock : Time) (f : Fleet κ) : Time × Fleet κ :=
  if clock.before f.lastObservedAt then (f.lastObservedAt, f)
  else (clock, { f with lastObservedAt := clock })

/-- `degradeIfStaleLocked`. -/
def degradeIfStale (now : Time) (f : Fleet κ) : Fleet κ :=
  if f.closed then f
  else match f.active with
    | none => f
    | some active => if active.age now > config.freshFor then { f with state := .degraded } else f

/-- The section of `recordRefreshFailure`. -/
def recordRefreshFailure (failure : FleetFailureCode) (now : Time) (f : Fleet κ) : Fleet κ :=
  degradeIfStale config now { f with lastRefreshFailure := failure }

/-- The section of `recordWatcherFailure`. -/
def recordWatcherFailure (failure : FleetFailureCode) (now : Time) (f : Fleet κ) : Fleet κ :=
  degradeIfStale config now { f with lastWatcherFailure := failure }

def setCacheFailure (failure : FleetFailureCode) (f : Fleet κ) : Fleet κ :=
  { f with lastCacheFailure := failure }

/-- `markStopped`.  Whether a context is cancelled is told to each step that looks at it. -/
def markStopped (f : Fleet κ) : Fleet κ :=
  if f.closed then f else { f with closed := true, state := .stopped }

/-- The candidate is older than the active snapshot. -/
def reorders (candidate : SnapshotCandidate κ) (f : Fleet κ) : Bool :=
  match f.active with
  | some active => candidate.sourceTime.before active.sourceTime
  | none => false

/-- The section of `activate`. -/
def install (candidate : SnapshotCandidate κ) (now : Time) (validated : Snapshot κ) (f : Fleet κ) :
    Except GoError (ActiveSnapshot κ) × Fleet κ :=
  let active : ActiveSnapshot κ :=
    ⟨validated, candidate.revision, candidate.provenance, candidate.sourceTime, now⟩
  if f.closed then (.error (.sentinel .fleetStopped), f)
  else if f.reorders candidate then (.error (.sentinel .snapshotReordered), f)
  else (.ok active, { f with
    active := some active
    lastRefreshFailure := .none
    state := if active.age now > config.freshFor then .degraded else .ready })

/-- What `Refresh` finds under the lock. -/
inductive Admission (κ : Type) where
  | refused (err : GoError)
  | follower (flight : Nat)
  | deferred (result : RefreshResult κ)
  | leader (flight : Nat)

/-- The section of `Refresh` before the flight. -/
def enterRefresh (now : Time) (f : Fleet κ) : Admission κ × Fleet κ :=
  if f.closed then (.refused (.sentinel .fleetStopped), f)
  else match f.refresh with
    | some flight =>
      if f.waiters ≥ config.maxWaiters then (.refused (.sentinel .refreshWaiterLimit), f)
      else (.follower flight, { f with waiters := f.waiters + 1 })
    | none =>
      if ¬ f.lastRefreshAt.isZero ∧ boundedAge now f.lastRefreshAt < config.minRefreshInterval then
        (.deferred ⟨f.active, .deferred, false⟩, f)
      else
        (.leader f.flights.length, { f with
          flights := f.flights ++ [none]
          refresh := some f.flights.length
          lastRefreshAt := now
          refreshWG := f.refreshWG + 1 })

/-- The section of `Refresh` after the flight. -/
def publish (flight : Nat) (result : RefreshResult κ) (err : Option GoError) (completedAt : Time)
    (failure : FleetFailureCode) (f : Fleet κ) : Fleet κ :=
  let f' := match err with
    | none => f
    | some e =>
      let intentionalStop := f.closed && (e.is .canceled || e.is .fleetStopped)
      degradeIfStale config completedAt
        (if intentionalStop then f else { f with lastRefreshFailure := failure })
  { f' with flights := f'.flights.set flight (some (result, err)), refresh := none }

/-- The checks of `Invalidate` on the event. -/
def invalidEvent (event : Invalidation) : Bool :=
  event.tenant ≠ config.tenant ∨ event.stream = [] ∨ len event.stream > maxFleetIdentityLength ∨
    event.sequence = 0 ∨ event.revision = [] ∨ len event.revision > maxFleetIdentityLength ∨
    event.observedAt.isZero

/-- The section of `Invalidate`: its result, and whether it goes on to refresh. -/
def invalidate (now : Time) (event : Invalidation) (f : Fleet κ) :
    Except GoError (InvalidationResult × Bool) × Fleet κ :=
  if event.stream ∉ f.invalidations ∧ f.invalidations.len ≥ config.maxInvalidationStreams then
    (.error (.sentinel .invalidationStreams), f)
  else
    let last := f.invalidations.getD event.stream 0
    let result : InvalidationResult :=
      { disposition := .unset, gap := false, previousSequence := last,
        activeRevision := activeRevision f.active, delay := boundedAge now event.observedAt,
        convergenceDeadline := .zero }
    if event.sequence = last then (.ok ({ result with disposition := .duplicate }, false), f)
    else if event.sequence < last then (.ok ({ result with disposition := .reordered }, false), f)
    else
      let gap : Bool := if last = 0 then event.sequence > 1 else event.sequence > last + 1
      let f := { f with
        invalidations := f.invalidations.insert event.stream event.sequence
        invalidationGaps :=
          if gap ∧ f.invalidationGaps < maxUint64 then f.invalidationGaps + 1
          else f.invalidationGaps }
      if gap = false ∧ f.active.isSome ∧ event.revision = activeRevision f.active then
        (.ok ({ result with gap, disposition := .current }, false), f)
      else
        let convergence := addDuration now config.convergenceWindow
        (.ok ({ result with gap, convergenceDeadline := convergence }, true),
          { f with convergence, convergenceRevision := event.revision })

/-- The end of `Invalidate`, after `Refresh`. -/
def invalidated (event : Invalidation) (result : InvalidationResult) (refresh : RefreshResult κ)
    (err : Option GoError) : InvalidationResult × Option GoError :=
  let result := { result with activeRevision := activeRevision refresh.active }
  if err.isSome ∨ refresh.disposition = .deferred ∨ result.activeRevision ≠ event.revision then
    ({ result with disposition := .pending }, err)
  else ({ result with disposition := .refreshed }, none)

/-- The section of `Status`. -/
def status (now : Time) (f : Fleet κ) : FleetStatus where
  state := match f.active with
    | some active =>
      if f.state ≠ .stopped ∧ active.age now > config.freshFor then .degraded else f.state
    | none => f.state
  revision := activeRevision f.active
  provenance := match f.active with
    | some active => active.provenance
    | none => []
  age := match f.active with
    | some active => active.age now
    | none => 0
  providerLoads := f.providerLoads
  lastRefreshFailure := f.lastRefreshFailure
  lastCacheFailure := f.lastCacheFailure
  lastWatcherFailure := f.lastWatcherFailure
  invalidationGaps := f.invalidationGaps
  convergenceDeadline := f.convergence
  convergenceBreached :=
    ¬ f.convergence.isZero ∧ f.convergence.before now ∧
      (f.active.isNone ∨ activeRevision f.active ≠ f.convergenceRevision)
  refreshing := f.refresh.isSome
  watcherRunning := f.watcherRunning
  refreshWaiters := f.waiters

end Fleet

/-! ### Evaluation -/

/-- The arguments of `Fleet.evaluate`. -/
structure FlagQuery where
  key : Bytes
  expected : ValueType
  context : Context
deriving DecidableEq

/-- What the policy of a flag makes of an evaluation without a fresh snapshot. -/
inductive Degraded where
  | result (outcome : Except GoError EvaluationResult)
  /-- Use the snapshot, if it is no older than this. -/
  | lastKnownGood (maxStaleness : Int)

/-- A result without a snapshot. -/
def synthesized (value : Value) (reason : Reason) : EvaluationResult :=
  ⟨value, [], reason, [], 0, []⟩

/-- `Fleet.evaluate` from the lookup of the policy on, up to the second look at the clock. -/
def degraded (config : FleetConfig) (limits : Limits) (query : FlagQuery) : Degraded :=
  match config.policies[query.key]? with
  | none => .result (.error (.sentinel .snapshotStale))
  | some policy =>
    match policy.mode with
    | .failOpen =>
      if query.expected ≠ .boolean then .result (.error (.sentinel .invalidValue))
      else .result (.ok (synthesized (.boolean true) .degradedFailOpen))
    | .default =>
      if policy.default.type ≠ query.expected then .result (.error (.sentinel .invalidValue))
      else match policy.default.validate limits with
        | .error e => .result (.error e)
        | .ok _ => .result (.ok (synthesized policy.default .degradedDefault))
    | .lastKnownGood => .lastKnownGood policy.maxStaleness
    | .failClosed | .other .. => .result (.error (.sentinel .snapshotStale))

end FeatureFlags
