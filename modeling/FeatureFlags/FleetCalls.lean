import FeatureFlags.Fleet
import FeatureFlags.Lib.Threads

/-!
# The methods of the fleet

`fleet.go`, with any number of calls in progress.  A call is a thread; its stage says where it is in
its method, and a method that calls another one has a stage that holds the stage of that call.  One
step is one section under a lock, one operation on a wait group or a channel, or one reading of the
clock, together with what the thread does afterwards on its own.

* `Outside`: what a step reads from outside: the clock, the context, the callbacks.
* `loadStep`, `activateStep`, `bootstrapStep`, `refreshStep`, `invalidateStep`, `evaluateStep` and
  so on: one function of the source each.
* `FleetThread`, `fleetProgram`: the threads; `FleetRun`: the runs of a fleet.

The executor may call the operation of a load any number of times, also at the same time, with any
contexts; all these calls are over when it returns, as its contract demands.
-/

namespace FeatureFlags

open Go Lib

/-! ### The outside world -/

/-- What the executor of a load does next. -/
inductive ExecutorMove where
  /-- It calls the operation. -/
  | call (nilContext : Bool)
  /-- A call of the operation goes on. -/
  | operate (i : Nat)
  /-- It returns. -/
  | finish

/-- What a step may read from outside.  Each step reads the part that concerns it. -/
structure Outside (κ : Type) where
  /-- `Clock.Now()`. -/
  clock : Time
  /-- The order of map iterations. -/
  ord : MapOrder
  /-- `ctx.Err()`; where there is a choice, the branch of `ctx.Done()` is taken if it is there. -/
  ctx : Option GoError
  /-- What `FailureClassifier.Classify` returns. -/
  classified : FleetFailureCode
  /-- What the executor does. -/
  executor : ExecutorMove
  /-- What `Loader.Load` or `Executor.Execute` returns. -/
  loaded : Except GoError (SnapshotCandidate κ)
  /-- What `Cache.Load` returns. -/
  cached : Except GoError (Option (SnapshotCandidate κ))
  /-- What `Cache.Store` returns. -/
  stored : Option GoError
  /-- What `Watcher.Next` returns. -/
  event : Except GoError Invalidation
  /-- What `Jitter.Delay` returns. -/
  jitter : Except GoError Int
  /-- What `Sleeper.Sleep` returns. -/
  slept : Option GoError

/-! ### Stages -/

/-- A call of the operation of a load. -/
inductive Operation (κ : Type) where
  /-- Before a slot is taken. -/
  | acquiring
  /-- With a slot. -/
  | acquired
  /-- In `incrementSaturating`, after the counter was read. -/
  | swapping (current : Nat)
  /-- In `incrementSaturating`, after another load was counted in between. -/
  | counting
  /-- In `Loader.Load`. -/
  | calling
  /-- Before the slot is given back. -/
  | releasing (answer : Except GoError (SnapshotCandidate κ))
  | returned (answer : Except GoError (SnapshotCandidate κ))

inductive LoadStage (κ : Type) where
  | entering
  /-- After `loadWG.Add`, with the calls of the operation so far. -/
  | executing (operations : List (Operation κ))

inductive ActivateStage (κ : Type) where
  | observing (candidate : SnapshotCandidate κ)
  | installing (candidate : SnapshotCandidate κ) (now : Time) (validated : Snapshot κ)

inductive BootstrapStage (κ : Type) where
  | entering
  /-- In `load`. -/
  | loading (stage : LoadStage κ)
  /-- In `activate`, for the candidate of the loader. -/
  | activating (stage : ActivateStage κ)
  /-- In `Cache.Store`. -/
  | storing (active : ActiveSnapshot κ)
  /-- In `Cache.Load`. -/
  | recovering (primaryErr : GoError) (primaryFailure : FleetFailureCode)
  /-- In `activate`, for the candidate of the cache. -/
  | reviving (primaryErr : GoError) (primaryFailure : FleetFailureCode) (stage : ActivateStage κ)
  /-- Before the cache failure is set. -/
  | rejecting (primaryErr cacheErr : GoError) (primaryFailure : FleetFailureCode)
  /-- Before the refresh failure is set. -/
  | recording (primaryFailure : FleetFailureCode) (result : Except GoError (ActiveSnapshot κ))
  /-- Before `bootstrapWG.Done`. -/
  | leaving (result : Except GoError (ActiveSnapshot κ))

inductive StartStage (κ : Type) where
  | entering
  | bootstrapping (stage : BootstrapStage κ)
  /-- Before the second section. -/
  | resuming (result : Except GoError (ActiveSnapshot κ))

/-- What the leader of a flight does. -/
inductive FlightStage (κ : Type) where
  /-- Before `Current`. -/
  | reading
  /-- In `load`. -/
  | loading (previous : Option (ActiveSnapshot κ)) (stage : LoadStage κ)
  /-- In `activate`. -/
  | activating (previous : Option (ActiveSnapshot κ)) (stage : ActivateStage κ)
  /-- In `Cache.Store`. -/
  | storing (result : RefreshResult κ)
  /-- Before the clock is read. -/
  | completing (result : RefreshResult κ) (err : Option GoError)
  /-- Before the result is published. -/
  | publishing (result : RefreshResult κ) (err : Option GoError) (completedAt : Time)
  /-- Before `refreshWG.Done`. -/
  | leaving (result : RefreshResult κ) (err : Option GoError)

inductive RefreshStage (κ : Type) where
  | observing
  | entering (now : Time)
  | waiting (flight : Nat)
  | leading (flight : Nat) (stage : FlightStage κ)

inductive InvalidateStage (κ : Type) where
  | observing (event : Invalidation)
  | classifying (event : Invalidation) (now : Time)
  | refreshing (event : Invalidation) (result : InvalidationResult) (stage : RefreshStage κ)

inductive StatusStage where
  | observing
  | reading (now : Time)

inductive EvaluateStage (κ : Type) where
  /-- Before `Current`. -/
  | reading
  /-- Before the clock is read, with an active snapshot. -/
  | aging (active : ActiveSnapshot κ)
  /-- Before the clock is read again. -/
  | retaining (active : ActiveSnapshot κ) (maxStaleness : Int)

inductive RefreshLoopStage (κ : Type) where
  | scheduling
  | refreshing (stage : RefreshStage κ)
  /-- In `recordRefreshFailure`; `stops` if `markStopped` comes next. -/
  | observing (failure : FleetFailureCode) (stops : Bool)
  | recording (failure : FleetFailureCode) (now : Time) (stops : Bool)
  /-- Before `markStopped`. -/
  | stopping
  /-- Before `runWG.Done`. -/
  | leaving

inductive WatchLoopStage (κ : Type) where
  | watching
  | invalidating (stage : InvalidateStage κ)
  /-- `Invalidate` has failed. -/
  | failed (err : GoError)
  /-- In `recordWatcherFailure`; `stops` if the loop ends. -/
  | observing (failure : FleetFailureCode) (stops : Bool)
  | recording (failure : FleetFailureCode) (now : Time) (stops : Bool)
  /-- Before `watcherRunning` is reset. -/
  | unwinding
  /-- Before `runWG.Done`. -/
  | leaving

inductive ShutdownStage where
  | stopping
  | spawning
  | waiting

/-- The wait groups of a fleet. -/
inductive WaitGroup where
  | run
  | refresh
  | load
  | bootstrap
deriving DecidableEq

/-- The goroutine of `Shutdown`. -/
inductive JoinStage where
  | awaiting (group : WaitGroup)
  | closing

/-! ### `load` and `activate` -/

-- every step reads the configuration and what the world outside does
variable {κ : Type} (config : FleetConfig) (o : Outside κ)

/-- The counter of a wait group. -/
def Fleet.waitGroup (f : Fleet κ) : WaitGroup → Int
  | .run => f.runWG
  | .refresh => f.refreshWG
  | .load => f.loadWG
  | .bootstrap => f.bootstrapWG

/-- A call of the operation starts, after `calls` others.  The counter of the calls is an
`atomic.Uint64`. -/
def beginOperation (calls : Nat) (nilContext : Bool) : Operation κ :=
  if ((calls + 1) % 2 ^ 64 : Nat) > config.maxProviderLoads then
    .returned (.error (.sentinel .refreshLoadLimit))
  else if nilContext then .returned (.error (.errorf "refresh operation context is required" []))
  else .acquiring

/-- A turn of the loop of `incrementSaturating`, up to the swap. -/
def incrementSaturating (f : Fleet κ) : Operation κ :=
  if f.providerLoads = maxUint64 then .calling else .swapping f.providerLoads

/-- A call of the operation goes on. -/
def operationStep (f : Fleet κ) : Operation κ → Option (Fleet κ × Operation κ)
  | .acquiring =>
    match o.ctx with
    | some e => some (f, .returned (.error e))
    | none =>
      if f.loadSlots < config.maxConcurrentProviderLoads then
        some ({ f with loadSlots := f.loadSlots + 1 }, .acquired)
      else none
  | .acquired =>
    match o.ctx with
    | some e => some (f, .releasing (.error e))
    | none => some (f, incrementSaturating f)
  | .swapping current =>
    if f.providerLoads = current then some ({ f with providerLoads := current + 1 }, .calling)
    else some (f, .counting)
  | .counting => some (f, incrementSaturating f)
  | .calling => some (f, .releasing o.loaded)
  | .releasing answer => some ({ f with loadSlots := f.loadSlots - 1 }, .returned answer)
  | .returned _ => none

/-- The call of the operation is over. -/
def Operation.isReturned : Operation κ → Bool
  | .returned _ => true
  | _ => false

/-- What the executor returns, or the operation itself without an executor. -/
def executed (operations : List (Operation κ)) : Option (Except GoError (SnapshotCandidate κ)) :=
  if config.executor then if operations.all Operation.isReturned then some o.loaded else none
  else match operations with
    | [.returned answer] => some answer
    | _ => none

def loadStep (f : Fleet κ) : LoadStage κ →
    Option (Fleet κ × Progress (LoadStage κ) (Except GoError (SnapshotCandidate κ)))
  | .entering =>
    if f.closed then some (f, .finished (.error (.sentinel .fleetStopped)))
    else some ({ f with loadWG := f.loadWG + 1 }, .running (.executing []))
  | .executing operations =>
    match o.executor with
    | .call nilContext =>
      -- without an executor, the operation is called once, with the context of the load
      if config.executor ∨ operations.isEmpty ∧ nilContext = false then
        some (f, .running (.executing
          (operations ++ [beginOperation config operations.length nilContext])))
      else none
    | .operate i =>
      match operations[i]? with
      | none => none
      | some operation =>
        (operationStep config o f operation).map fun x =>
          (x.1, .running (.executing (operations.set i x.2)))
    | .finish =>
      (executed config o operations).map fun answer =>
        ({ f with loadWG := f.loadWG - 1 }, .finished answer)

def activateStep [CustomStrategy κ] [Runtime] (allowStale : Bool) (f : Fleet κ) : ActivateStage κ →
    Option (Fleet κ × Progress (ActivateStage κ) (Except GoError (ActiveSnapshot κ)))
  | .observing candidate =>
    let (now, f') := f.now o.clock
    match validateCandidate o.ord config candidate now allowStale with
    | .error e => some (f', .finished (.error e))
    | .ok validated => some (f', .running (.installing candidate now validated))
  | .installing candidate now validated =>
    let (result, f') := f.install config candidate now validated
    some (f', .finished result)

/-! ### `Bootstrap` and `Start` -/

/-- `Bootstrap` after the loader or its candidate has failed. -/
def primaryFailed (err : GoError) : BootstrapStage κ :=
  let failure := classifyRefreshFailure config o.classified (some err)
  if config.cache then .recovering err failure
  else .recording failure (.error (.join (.sentinel .noUsableSnapshot) err))

/-- `Bootstrap` after `load`. -/
def afterLoad : Except GoError (SnapshotCandidate κ) → BootstrapStage κ
  | .ok candidate => .activating (.observing candidate)
  | .error err => primaryFailed config o err

/-- `Bootstrap` after the first `activate`. -/
def afterPrimary : Except GoError (ActiveSnapshot κ) → BootstrapStage κ
  | .ok active => if config.cache then .storing active else .leaving (.ok active)
  | .error err => primaryFailed config o err

/-- `Bootstrap` after the second `activate`. -/
def afterCached (primaryErr : GoError) (primaryFailure : FleetFailureCode) :
    Except GoError (ActiveSnapshot κ) → BootstrapStage κ
  | .ok active => .recording primaryFailure (.ok active)
  | .error cacheErr => .rejecting primaryErr cacheErr primaryFailure

def bootstrapStep [CustomStrategy κ] [Runtime] (f : Fleet κ) : BootstrapStage κ →
    Option (Fleet κ × Progress (BootstrapStage κ) (Except GoError (ActiveSnapshot κ)))
  | .entering =>
    if f.closed then some (f, .finished (.error (.sentinel .fleetStopped)))
    else some ({ f with bootstrapWG := f.bootstrapWG + 1 }, .running (.loading .entering))
  | .loading stage =>
    Progress.inside .loading (fun answer => .running (afterLoad config o answer))
      (loadStep config o f stage)
  | .activating stage =>
    Progress.inside .activating (fun result => .running (afterPrimary config o result))
      (activateStep config o config.allowStaleBootstrap f stage)
  | .storing active =>
    let failure := match o.stored with
      | some _ => .cacheStore
      | none => .none
    some (f.setCacheFailure failure, .running (.leaving (.ok active)))
  | .recovering primaryErr primaryFailure =>
    match o.cached with
    | .error cacheErr =>
      some (f.setCacheFailure .cacheLoad, .running (.recording primaryFailure
        (.error (.join (.sentinel .noUsableSnapshot) (.join primaryErr cacheErr)))))
    | .ok none =>
      some (f.setCacheFailure .none, .running (.recording primaryFailure
        (.error (.join (.sentinel .noUsableSnapshot) primaryErr))))
    | .ok (some candidate) =>
      some (f.setCacheFailure .none,
        .running (.reviving primaryErr primaryFailure (.observing candidate)))
  | .reviving primaryErr primaryFailure stage =>
    Progress.inside (.reviving primaryErr primaryFailure)
      (fun result => .running (afterCached primaryErr primaryFailure result))
      (activateStep config o config.allowStaleBootstrap f stage)
  | .rejecting primaryErr cacheErr primaryFailure =>
    some (f.setCacheFailure (classifyFleetFailure (some cacheErr)),
      .running (.recording primaryFailure
        (.error (.join (.sentinel .noUsableSnapshot) (.join primaryErr cacheErr)))))
  | .recording primaryFailure result =>
    some ({ f with lastRefreshFailure := primaryFailure }, .running (.leaving result))
  | .leaving result => some ({ f with bootstrapWG := f.bootstrapWG - 1 }, .finished result)

/-- The first section of `Start`. -/
def Fleet.enterStart (f : Fleet κ) : Option GoError × Fleet κ :=
  if f.closed then (some (.sentinel .fleetStopped), f)
  else if f.started || f.starting then (some (.errorf "feature flag fleet already started" []), f)
  else (none, { f with starting := true })

/-- The second section of `Start`: its result, and the fleet with the loops counted if it
succeeds. -/
def Fleet.resumeStart (result : Except GoError (ActiveSnapshot κ)) (f : Fleet κ) :
    Except GoError (ActiveSnapshot κ) × Fleet κ :=
  match result with
  | .error e => (.error e, { f with starting := false })
  | .ok active =>
    if f.closed then (.error (.sentinel .fleetStopped), { f with starting := false })
    else (.ok active, { f with
      starting := false
      started := true
      runWG := if config.watcher then f.runWG + 1 + 1 else f.runWG + 1
      watcherRunning := config.watcher || f.watcherRunning })

/-- `Start`, up to its second section. -/
def startStep [CustomStrategy κ] [Runtime] (f : Fleet κ) : StartStage κ →
    Option (Fleet κ × Progress (StartStage κ) (Except GoError (ActiveSnapshot κ)))
  | .entering =>
    match f.enterStart with
    | (some e, f') => some (f', .finished (.error e))
    | (none, f') => some (f', .running (.bootstrapping .entering))
  | .bootstrapping stage =>
    Progress.inside .bootstrapping (fun result => .running (.resuming result))
      (bootstrapStep config o f stage)
  | .resuming result =>
    let (result', f') := f.resumeStart config result
    some (f', .finished result')

/-! ### `Refresh` and `Invalidate` -/

/-- `performRefresh` after `load`. -/
def afterFlightLoad (previous : Option (ActiveSnapshot κ)) :
    Except GoError (SnapshotCandidate κ) → FlightStage κ
  | .ok candidate => .activating previous (.observing candidate)
  | .error err => .completing ⟨previous, .unchanged, false⟩ (some err)

/-- The disposition of a refresh that has activated a snapshot. -/
def refreshDisposition (previous : Option (ActiveSnapshot κ)) (active : ActiveSnapshot κ) :
    RefreshDisposition :=
  match previous with
  | some previous => if previous.revision = active.revision then .unchanged else .activated
  | none => .activated

/-- `performRefresh` after `activate`. -/
def afterFlightActivate (previous : Option (ActiveSnapshot κ)) : Except GoError (ActiveSnapshot κ) →
    FlightStage κ
  | .ok active =>
    let result := ⟨some active, refreshDisposition previous active, false⟩
    if config.cache then .storing result else .completing result none
  | .error err => .completing ⟨previous, .unchanged, false⟩ (some err)

/-- `Refresh`, from the flight on. -/
def flightStep [CustomStrategy κ] [Runtime] (flight : Nat) (f : Fleet κ) : FlightStage κ →
    Option (Fleet κ × Progress (FlightStage κ) (RefreshResult κ × Option GoError))
  | .reading => some (f, .running (.loading f.active .entering))
  | .loading previous stage =>
    Progress.inside (.loading previous) (fun answer => .running (afterFlightLoad previous answer))
      (loadStep config o f stage)
  | .activating previous stage =>
    Progress.inside (.activating previous)
      (fun result => .running (afterFlightActivate config previous result))
      (activateStep config o false f stage)
  | .storing result =>
    let failure := match o.stored with
      | some _ => .cacheStore
      | none => .none
    some (f.setCacheFailure failure, .running (.completing result none))
  | .completing result err =>
    let (completedAt, f') := f.now o.clock
    some (f', .running (.publishing result err completedAt))
  | .publishing result err completedAt =>
    some (f.publish config flight result err completedAt
      (classifyRefreshFailure config o.classified err), .running (.leaving result err))
  | .leaving result err => some ({ f with refreshWG := f.refreshWG - 1 }, .finished (result, err))

def refreshStep [CustomStrategy κ] [Runtime] (f : Fleet κ) : RefreshStage κ →
    Option (Fleet κ × Progress (RefreshStage κ) (RefreshResult κ × Option GoError))
  | .observing =>
    let (now, f') := f.now o.clock
    some (f', .running (.entering now))
  | .entering now =>
    match f.enterRefresh config now with
    | (.refused err, f') => some (f', .finished (.zero, some err))
    | (.follower flight, f') => some (f', .running (.waiting flight))
    | (.deferred result, f') => some (f', .finished (result, none))
    | (.leader flight, f') => some (f', .running (.leading flight .reading))
  | .waiting flight =>
    match o.ctx with
    | some e => some ({ f with waiters := f.waiters - 1 }, .finished (.zero, some e))
    | none =>
      match f.flights[flight]? with
      | some (some (result, err)) =>
        some ({ f with waiters := f.waiters - 1 },
          .finished ({ result with coalesced := true }, err))
      | _ => none
  | .leading flight stage =>
    Progress.inside (.leading flight) .finished (flightStep config o flight f stage)

def invalidateStep [CustomStrategy κ] [Runtime] (f : Fleet κ) : InvalidateStage κ →
    Option (Fleet κ × Progress (InvalidateStage κ) (InvalidationResult × Option GoError))
  | .observing event =>
    let (now, f') := f.now o.clock
    if Fleet.invalidEvent config event then
      some (f', .finished (.zero, some (.sentinel .invalidInvalidation)))
    else some (f', .running (.classifying event now))
  | .classifying event now =>
    match f.invalidate config now event with
    | (.error e, f') => some (f', .finished (.zero, some e))
    | (.ok (result, true), f') => some (f', .running (.refreshing event result .observing))
    | (.ok (result, false), f') => some (f', .finished (result, none))
  | .refreshing event result stage =>
    Progress.inside (.refreshing event result)
      (fun x => .finished (Fleet.invalidated event result x.1 x.2)) (refreshStep config o f stage)

/-! ### `Status` and `evaluate` -/

def statusStep (f : Fleet κ) : StatusStage → Option (Fleet κ × Progress StatusStage FleetStatus)
  | .observing =>
    let (now, f') := f.now o.clock
    some (f', .running (.reading now))
  | .reading now => some (f, .finished (f.status config now))

def evaluateStep [CustomStrategy κ] [Runtime] (query : FlagQuery) (o : Outside κ) (f : Fleet κ) :
    EvaluateStage κ →
    Option (Fleet κ × Progress (EvaluateStage κ) (Except GoError EvaluationResult))
  | .reading =>
    match f.active with
    | some active =>
      match query.context.validate o.ord active.snapshot.limits with
      | .error e => some (f, .finished (.error e))
      | .ok _ => some (f, .running (.aging active))
    | none =>
      match query.context.validate o.ord defaultLimits with
      | .error e => some (f, .finished (.error e))
      | .ok _ =>
        match degraded config defaultLimits query with
        | .result outcome => some (f, .finished outcome)
        | .lastKnownGood _ => some (f, .finished (.error (.sentinel .snapshotStale)))
  | .aging active =>
    let (now, f') := f.now o.clock
    if active.age now ≤ config.freshFor then
      some (f', .finished (active.snapshot.evaluate o.ord query.key query.expected query.context))
    else
      match degraded config active.snapshot.limits query with
      | .result outcome => some (f', .finished outcome)
      | .lastKnownGood maxStaleness => some (f', .running (.retaining active maxStaleness))
  | .retaining active maxStaleness =>
    let (now, f') := f.now o.clock
    if active.age now > maxStaleness then
      some (f', .finished (.error (.sentinel .snapshotStale)))
    else
      some (f', .finished ((active.snapshot.evaluate o.ord query.key query.expected
        query.context).map fun result => { result with reason := .degradedLastKnownGood }))

/-! ### The loops -/

/-- The delay that `Jitter.Delay` returned cannot be used. -/
def badJitter : Except GoError Int → Bool
  | .error _ => true
  | .ok jitter => jitter < 0 ∨ jitter > config.maxRefreshJitter

/-- `refreshLoop` after `Refresh`. -/
def afterLoopRefresh : Option GoError → RefreshLoopStage κ
  | some e =>
    if e.is .refreshWaiterLimit then
      .observing (classifyRefreshFailure config o.classified (some e)) false
    else .scheduling
  | none => .scheduling

def refreshLoopStep [CustomStrategy κ] [Runtime] (f : Fleet κ) : RefreshLoopStage κ →
    Option (Fleet κ × Progress (RefreshLoopStage κ) Unit)
  | .scheduling =>
    if badJitter config o.jitter then some (f, .running (.observing .scheduler true))
    else match o.slept, o.ctx with
      | some _, none => some (f, .running (.observing .scheduler true))
      | some _, some _ => some (f, .running .stopping)
      | none, _ => some (f, .running (.refreshing .observing))
  | .refreshing stage =>
    Progress.inside .refreshing (fun x => .running (afterLoopRefresh config o x.2))
      (refreshStep config o f stage)
  | .observing failure stops =>
    let (now, f') := f.now o.clock
    some (f', .running (.recording failure now stops))
  | .recording failure now stops =>
    some (f.recordRefreshFailure config failure now,
      .running (if stops then .stopping else .scheduling))
  | .stopping => some (f.markStopped, .running .leaving)
  | .leaving => some ({ f with runWG := f.runWG - 1 }, .finished ())

/-- `watchLoop` after `Invalidate`. -/
def afterWatchInvalidate : Option GoError → WatchLoopStage κ
  | some e => .failed e
  | none => .observing .none false

def watchLoopStep [CustomStrategy κ] [Runtime] (f : Fleet κ) : WatchLoopStage κ →
    Option (Fleet κ × Progress (WatchLoopStage κ) Unit)
  | .watching =>
    match o.event, o.ctx with
    | .error _, none => some (f, .running (.observing .watcher true))
    | .error _, some _ => some (f, .running .unwinding)
    | .ok event, _ => some (f, .running (.invalidating (.observing event)))
  | .invalidating stage =>
    Progress.inside .invalidating (fun x => .running (afterWatchInvalidate x.2))
      (invalidateStep config o f stage)
  | .failed err =>
    match o.ctx with
    | some _ => some (f, .running .unwinding)
    | none =>
      some (f, .running (.observing (classifyWatcherFailure config o.classified err) false))
  | .observing failure stops =>
    let (now, f') := f.now o.clock
    some (f', .running (.recording failure now stops))
  | .recording failure now stops =>
    some (f.recordWatcherFailure config failure now,
      .running (if stops then .unwinding else .watching))
  | .unwinding => some ({ f with watcherRunning := false }, .running .leaving)
  | .leaving => some ({ f with runWG := f.runWG - 1 }, .finished ())

/-! ### `Shutdown` -/

def shutdownStep (f : Fleet κ) : ShutdownStage →
    Option (Fleet κ × Progress ShutdownStage (Option GoError))
  | .stopping => some (f.markStopped, .running .spawning)
  | .spawning => some ({ f with shutdownOnce := true }, .running .waiting)
  | .waiting =>
    match o.ctx with
    | some e => some (f, .finished (some e))
    | none => if f.shutdownDone then some (f, .finished none) else none

def WaitGroup.next : WaitGroup → Option WaitGroup
  | .run => some .refresh
  | .refresh => some .load
  | .load => some .bootstrap
  | .bootstrap => none

/-- The goroutine of `Shutdown`. -/
def joinStep (f : Fleet κ) : JoinStage → Option (Fleet κ × Progress JoinStage Unit)
  | .awaiting group =>
    if f.waitGroup group = 0 then
      some (f, .running (match group.next with
        | some group' => .awaiting group'
        | none => .closing))
    else none
  | .closing => some ({ f with shutdownDone := true }, .finished ())

/-! ### Threads -/

/-- A goroutine that calls a method of the fleet, or one that the fleet has started. -/
inductive FleetThread (κ : Type) where
  | bootstrap (progress : Progress (BootstrapStage κ) (Except GoError (ActiveSnapshot κ)))
  | start (progress : Progress (StartStage κ) (Except GoError (ActiveSnapshot κ)))
  | refresh (progress : Progress (RefreshStage κ) (RefreshResult κ × Option GoError))
  | invalidate (progress : Progress (InvalidateStage κ) (InvalidationResult × Option GoError))
  | status (progress : Progress StatusStage FleetStatus)
  | evaluate (query : FlagQuery)
      (progress : Progress (EvaluateStage κ) (Except GoError EvaluationResult))
  | shutdown (progress : Progress ShutdownStage (Option GoError))
  | refreshLoop (progress : Progress (RefreshLoopStage κ) Unit)
  | watchLoop (progress : Progress (WatchLoopStage κ) Unit)
  | join (progress : Progress JoinStage Unit)

/-- A call of a method. -/
inductive FleetRequest where
  | bootstrap (nilContext : Bool)
  | start (nilContext : Bool)
  | refresh (nilContext : Bool)
  | invalidate (nilContext : Bool) (event : Invalidation)
  | status
  | evaluate (query : FlagQuery)
  | shutdown (nilContext : Bool)

/-- A call before its first step. -/
def FleetRequest.thread : FleetRequest → FleetThread κ
  | .bootstrap nilContext => .bootstrap
      (if nilContext then .finished (.error (.errorf "bootstrap context is required" []))
      else .running .entering)
  | .start nilContext => .start
      (if nilContext then .finished (.error (.errorf "start context is required" []))
      else .running .entering)
  | .refresh nilContext => .refresh
      (if nilContext then .finished (.zero, some (.errorf "refresh context is required" []))
      else .running .observing)
  | .invalidate nilContext event => .invalidate
      (if nilContext then .finished (.zero, some (.errorf "invalidation context is required" []))
      else .running (.observing event))
  | .status => .status (.running .observing)
  | .evaluate query => .evaluate query
      (if query.context.tenant ≠ config.tenant then
        .finished (.error (.wrapf "fleet tenant %q: %w" [.q config.tenant]
          (.sentinel .tenantMismatch)))
      else .running .reading)
  | .shutdown nilContext => .shutdown
      (if nilContext then .finished (some (.errorf "shutdown context is required" []))
      else .running .stopping)

/-- The loops that `Start` starts when it succeeds. -/
def loops : Progress (StartStage κ) (Except GoError (ActiveSnapshot κ)) → List (FleetThread κ)
  | .finished (.ok _) =>
    .refreshLoop (.running .scheduling) ::
      if config.watcher then [.watchLoop (.running .watching)] else []
  | _ => []

/-- The goroutine that the first `Shutdown` starts. -/
def joiner (f : Fleet κ) : ShutdownStage → List (FleetThread κ)
  | .spawning => if f.shutdownOnce then [] else [.join (.running (.awaiting .run))]
  | _ => []

/-- The steps of a thread. -/
def fleetStep [CustomStrategy κ] [Runtime] (config : FleetConfig) (o : Outside κ) (f : Fleet κ) :
    FleetThread κ → Option (Fleet κ × FleetThread κ × List (FleetThread κ))
  | .bootstrap (.running stage) =>
    (bootstrapStep config o f stage).map fun x => (x.1, .bootstrap x.2, [])
  | .start (.running stage) =>
    (startStep config o f stage).map fun x => (x.1, .start x.2, loops config x.2)
  | .refresh (.running stage) =>
    (refreshStep config o f stage).map fun x => (x.1, .refresh x.2, [])
  | .invalidate (.running stage) =>
    (invalidateStep config o f stage).map fun x => (x.1, .invalidate x.2, [])
  | .status (.running stage) =>
    (statusStep config o f stage).map fun x => (x.1, .status x.2, [])
  | .evaluate query (.running stage) =>
    (evaluateStep config query o f stage).map fun x => (x.1, .evaluate query x.2, [])
  | .shutdown (.running stage) =>
    (shutdownStep o f stage).map fun x => (x.1, .shutdown x.2, joiner f stage)
  | .refreshLoop (.running stage) =>
    (refreshLoopStep config o f stage).map fun x => (x.1, .refreshLoop x.2, [])
  | .watchLoop (.running stage) =>
    (watchLoopStep config o f stage).map fun x => (x.1, .watchLoop x.2, [])
  | .join (.running stage) => (joinStep f stage).map fun x => (x.1, .join x.2, [])
  | _ => none

/-- The threads of a fleet as a program. -/
def fleetProgram [CustomStrategy κ] [Runtime] :
    Program (Fleet κ) (FleetThread κ) FleetRequest (Outside κ) where
  start := FleetRequest.thread config
  step := fleetStep config

abbrev FleetPool (κ : Type) := Pool (Fleet κ) (FleetThread κ)

/-- A step of a run of a fleet. -/
abbrev FleetMove (κ : Type) := Transition (FleetPool κ) (Act FleetRequest (Outside κ))

/-- The runs of a new fleet. -/
abbrev FleetRun [CustomStrategy κ] [Runtime] : List (FleetMove κ) → FleetPool κ → Prop :=
  (fleetProgram config).Run .new

end FeatureFlags
