import FeatureFlags.Memory

/-!
# The caching provider

`cache.go`: `CachedProvider` over a `MemoryProvider`, with any number of calls in progress.  A call
is a thread that moves through the phases of its method.  One step is one section under the cache's
lock or one call of the underlying provider; what a thread does in between touches nothing shared.

* `CacheState`: the cache, the underlying provider and the threads.
* `beginRefresh`, `publish`, `endRefresh`, `invalidateOnSuccess`, `evictOldest`: the sections under
  the lock.
* `CacheState.step`: the steps; `CacheState.stepOver`: those over any other provider.

A `*cacheRefreshState` is the number of its allocation, so that equality is pointer equality.  An
entry carries the step at which it was read from the provider (`readAt`), which no code looks at.
-/

namespace FeatureFlags

open Go

/-! ### Configuration -/

/-- `FailurePolicy`, a `uint8`. -/
inductive FailurePolicy where
  | failClosed
  | failOpen
  | other (code : UInt8) (h : code ≠ 1 ∧ code ≠ 2)
deriving DecidableEq

/-- `CacheConfig`, without the clock: each step is told the time it reads.  Durations are in
nanoseconds. -/
structure CacheConfig where
  maxStaleness : Int
  maxOutageStaleness : Int
  failurePolicy : FailurePolicy
  maxTenants : Int
  maxTenantBytes : Int
  maxFeaturesPerTenant : Int
deriving DecidableEq

/-- `NewCachedProvider`, for a provider and a clock that are there.  `tenantByteLimit` is the limit
of a provider that has one. -/
def newCachedProvider (config : CacheConfig) (tenantByteLimit : Option Int) :
    Except GoError CacheConfig := do
  rejectIf (config.maxStaleness ≤ 0 ∨ config.maxOutageStaleness < config.maxStaleness)
    (.errorf "cache staleness bounds are invalid" [])
  rejectIf (config.failurePolicy ≠ .failOpen ∧ config.failurePolicy ≠ .failClosed)
    (.errorf "cache failure policy is invalid" [])
  rejectIf (config.maxTenants ≤ 0) (.errorf "cache tenant bound must be positive" [])
  rejectIf (config.maxTenantBytes < 0) (.errorf "cache tenant byte bound must be positive" [])
  let maxTenantBytes ← match tenantByteLimit with
    | some limit => do
      rejectIf (limit ≤ 0) (.errorf "provider tenant byte bound must be positive" [])
      pure (min (if config.maxTenantBytes = 0 then limit else config.maxTenantBytes) limit)
    | none => do
      rejectIf (config.maxTenantBytes = 0)
        (.errorf "cache tenant byte bound is required for this provider" [])
      pure config.maxTenantBytes
  return { config with
    maxTenantBytes
    maxFeaturesPerTenant :=
      if config.maxFeaturesPerTenant ≤ 0 then defaultLimits.maxFeatures
      else config.maxFeaturesPerTenant }

/-- The longest `time.Duration`, at which `Sub` saturates. -/
def maxDuration : Int := 2 ^ 63 - 1

def boundedAge (now fetched : Time) : Int :=
  if now.before fetched then 0 else min (now.nanos - fetched.nanos) maxDuration

/-! ### State -/

structure CachedSnapshot (κ : Type) where
  snapshot : Snapshot κ
  fetched : Time
  readAt : Nat

structure CacheRefreshState where
  running : Nat
  next : Nat
  published : Nat
deriving DecidableEq

/-- A call of a method.  `Call.snapshot` is not delegated. -/
inductive Request (κ : Type) where
  | snapshot (tenant : Bytes)
  | refresh (tenant : Bytes)
  | delegate (tenant : Bytes) (call : Call κ)
  | close

/-- What a call returns. -/
inductive Answer (κ : Type) where
  | snapshot (entry : CachedSnapshot κ)
  | response (response : Response κ)
  | closed

/-- Where `Snapshot` called `Refresh`: the time it read, and the entry it found. -/
abbrev Fallback (κ : Type) := Option (Time × Option (CachedSnapshot κ))

/-- Where a call is. -/
inductive Phase (κ : Type) where
  /-- In `Snapshot`, before the entry is read. -/
  | looking
  /-- In `Snapshot`, without an entry that is fresh. -/
  | missed (now : Time) (entry : Option (CachedSnapshot κ))
  /-- In `Refresh`, called from outside. -/
  | admitting
  /-- In `Refresh`, after `beginRefresh`. -/
  | refreshing (tenant : Bytes) (fallback : Fallback κ) (state sequence : Nat)
  /-- In `Refresh`, with the entry to publish. -/
  | fetched (tenant : Bytes) (fallback : Fallback κ) (state sequence : Nat)
      (entry : CachedSnapshot κ)
  /-- In `Refresh`, before `endRefresh`. -/
  | ending (tenant : Bytes) (fallback : Fallback κ) (state : Nat)
      (result : Except Failure (CachedSnapshot κ))
  /-- In another method, before the provider is called. -/
  | delegating
  /-- In another method, after the provider was called. -/
  | delegated (outcome : Except Failure (Response κ))
  /-- In `Close`. -/
  | closing
  | returned (outcome : Except Failure (Answer κ))

/-- A call in progress, or one that has returned. -/
structure Thread (κ : Type) where
  request : Request κ
  phase : Phase κ

/-- A `CachedProvider`, its provider and the calls so far. -/
structure CacheState (κ : Type) where
  provider : MemoryProvider κ
  entries : GoMap (CachedSnapshot κ)
  refreshes : GoMap Nat
  states : Nat → CacheRefreshState
  allocated : Nat
  threads : Nat → Option (Thread κ)
  steps : Nat

def CacheState.new {κ : Type} (provider : MemoryProvider κ) : CacheState κ where
  provider
  entries := ∅
  refreshes := ∅
  states _ := ⟨0, 0, 0⟩
  allocated := 0
  threads _ := none
  steps := 0

/-! ### Sections under the lock -/

section Sections

variable {κ : Type}

/-- The largest `uint64`. -/
def maxUint64 : Nat := 2 ^ 64 - 1

/-- `beginRefresh`: the state and the number that the caller gets, and the cache.  A state that is
missing or out of numbers is replaced. -/
def beginRefresh (tenant : Bytes) (s : CacheState κ) : Nat × Nat × CacheState κ :=
  match s.refreshes[tenant]? with
  | some state =>
    if (s.states state).next = maxUint64 then fresh
    else
      let next := (s.states state).next + 1
      (state, next, { s with
        states := Function.update s.states state
          { s.states state with next, running := (s.states state).running + 1 } })
  | none => fresh
where
  /-- A new state, with its first reader. -/
  fresh : Nat × Nat × CacheState κ :=
    (s.allocated, 1, { s with
      refreshes := s.refreshes.insert tenant s.allocated
      states := Function.update s.states s.allocated ⟨1, 1, 0⟩
      allocated := s.allocated + 1 })

def endRefresh (tenant : Bytes) (state : Nat) (s : CacheState κ) : CacheState κ :=
  let running := (s.states state).running - 1
  { s with
    states := Function.update s.states state { s.states state with running }
    refreshes :=
      if running = 0 ∧ s.refreshes[tenant]? = some state then s.refreshes.erase tenant
      else s.refreshes }

/-- The first loop of `evictOldestLocked`. -/
def oldestTime (entries : List (Bytes × CachedSnapshot κ)) : Option Time :=
  entries.foldl (fun oldest x => match oldest with
    | some time => if x.2.fetched.before time then some x.2.fetched else some time
    | none => some x.2.fetched) none

/-- The second loop of `evictOldestLocked`. -/
def oldestTenant (entries : List (Bytes × CachedSnapshot κ)) : Option Bytes :=
  entries.foldl (fun oldest x =>
    if some x.2.fetched = oldestTime entries then
      match oldest with
      | some tenant => if compare x.1 tenant = .lt then some x.1 else some tenant
      | none => some x.1
    else oldest) none

/-- `evictOldestLocked`.  The loops find a least element, in whatever order they run. -/
def evictOldest (entries : GoMap (CachedSnapshot κ)) : GoMap (CachedSnapshot κ) :=
  entries.erase ((oldestTenant entries.toList).getD [])

/-- A refresh may publish: its state is the tenant's, and no later refresh has published. -/
def mayPublish (tenant : Bytes) (state sequence : Nat) (s : CacheState κ) : Prop :=
  s.refreshes[tenant]? = some state ∧ sequence > (s.states state).published

instance (tenant : Bytes) (state sequence : Nat) (s : CacheState κ) :
    Decidable (mayPublish tenant state sequence s) :=
  inferInstanceAs (Decidable (_ ∧ _))

/-- The section of `Refresh` that publishes. -/
def publish (config : CacheConfig) (tenant : Bytes) (state sequence : Nat)
    (entry : CachedSnapshot κ) (s : CacheState κ) : CacheState κ :=
  if mayPublish tenant state sequence s then
    let entries :=
      if tenant ∉ s.entries ∧ s.entries.len ≥ config.maxTenants then evictOldest s.entries
      else s.entries
    { s with
      entries := entries.insert tenant entry
      states := Function.update s.states state { s.states state with published := sequence } }
  else s

/-- `invalidateOnSuccess`, after a success. -/
def invalidateOnSuccess (tenant : Bytes) (s : CacheState κ) : CacheState κ :=
  { s with entries := s.entries.erase tenant, refreshes := s.refreshes.erase tenant }

/-- Whether the method invalidates the tenant after this result. -/
def invalidates : Call κ → Response κ → Bool
  | .importDocument _ options _, _ => !options.dryRun
  | .applyScheduled _ _, .definitions results => len results > 0
  | .cleanup _, .cleaned report => report.deletedFeatures > 0
  | .create .., _ | .update .., _ | .activate .., _ | .deactivate .., _ | .delete .., _
  | .restore .., _ | .createGroup .., _ | .updateGroup .., _ | .deleteGroup .., _
  | .assignGroup .., _ | .removeGroup .., _ | .applyStage .., _ => true
  | _, _ => false

/-- What `Snapshot` and `Refresh` return after `endRefresh`. -/
def settle (config : CacheConfig) (fallback : Fallback κ)
    (result : Except Failure (CachedSnapshot κ)) : Except Failure (Answer κ) :=
  match result, fallback with
  | .ok entry, _ => .ok (.snapshot entry)
  | .error failure, some (now, some entry) =>
    if config.failurePolicy = .failOpen ∧
        boundedAge now entry.fetched ≤ config.maxOutageStaleness then
      .ok (.snapshot entry)
    else .error failure
  | .error failure, _ => .error failure

end Sections

/-! ### Steps -/

/-- A step, with what it reads from outside: whether the context is cancelled, the clock, and the
order of map iterations. -/
inductive Action (κ : Type) where
  /-- A method is called. -/
  | start (id : Nat) (request : Request κ) (ctx : Ctx)
  /-- `Snapshot` reads the entry. -/
  | lookUp (id : Nat) (now : Time)
  /-- `Refresh` is admitted. -/
  | beginRefresh (id : Nat) (ctx : Ctx)
  /-- `Refresh` calls the provider. -/
  | fetch (id : Nat) (ord : MapOrder) (ctx : Ctx) (now : Time)
  /-- `Refresh` publishes. -/
  | publish (id : Nat)
  /-- `Refresh` ends, and the call returns. -/
  | endRefresh (id : Nat)
  /-- Another method calls the provider. -/
  | delegate (id : Nat) (ord : MapOrder) (ctx : Ctx)
  /-- Another method invalidates the tenant if it has to, and returns. -/
  | invalidate (id : Nat)
  /-- `Close` clears the cache, closes the provider and returns. -/
  | close (id : Nat) (ctx : Ctx)
  /-- The provider is called by someone else. -/
  | external (tenant : Bytes) (ord : MapOrder) (ctx : Ctx) (call : Call κ)

namespace CacheState

variable {κ : Type} (config : CacheConfig)

/-- A thread enters a phase. -/
def enter (id : Nat) (request : Request κ) (phase : Phase κ) (s : CacheState κ) : CacheState κ :=
  { s with threads := Function.update s.threads id (some ⟨request, phase⟩), steps := s.steps + 1 }

/-- The first phase of a call; `providerInput` comes first, in `Refresh` just before
`beginRefresh`. -/
def entry (ctx : Ctx) : Request κ → Phase κ
  | .snapshot tenant =>
    match providerInput ctx tenant config.maxTenantBytes with
    | .ok _ => .looking
    | .error e => .returned (.error (.error e))
  | .refresh _ => .admitting
  | .delegate tenant _ =>
    match providerInput ctx tenant config.maxTenantBytes with
    | .ok _ => .delegating
    | .error e => .returned (.error (.error e))
  | .close => .closing

/-- The phase after the provider's `Snapshot`. -/
def afterFetch (tenant : Bytes) (fallback : Fallback κ) (state sequence : Nat) (now : Time)
    (readAt : Nat) : Except Failure (Response κ) → Phase κ
  | .ok (.snapshot snapshot) =>
    if snapshot.definitions.len > config.maxFeaturesPerTenant then
      .ending tenant fallback state (.error (.error
        (.errorf "cached feature count exceeds %d" [.d config.maxFeaturesPerTenant])))
    else .fetched tenant fallback state sequence ⟨snapshot, now, readAt⟩
  | .ok _ => .ending tenant fallback state (.error .panic)
  | .error failure => .ending tenant fallback state (.error failure)

variable [CustomStrategy κ] [Runtime]

/-- A refresh is admitted, unless `providerInput` fails. -/
def admitted (id : Nat) (request : Request κ) (tenant : Bytes) (ctx : Ctx) (fallback : Fallback κ)
    (s : CacheState κ) : CacheState κ :=
  match providerInput ctx tenant config.maxTenantBytes with
  | .ok _ =>
    let (state, sequence, s') := FeatureFlags.beginRefresh tenant s
    s'.enter id request (.refreshing tenant fallback state sequence)
  | .error e => s.enter id request (.returned (settle config fallback (.error (.error e))))

def step (limits : Limits) (s : CacheState κ) : Action κ → Option (CacheState κ)
  | .start id request ctx =>
    match s.threads id, request with
    | some _, _ => none
    | none, .delegate _ .snapshot => none
    | none, request => some (s.enter id request (entry config ctx request))
  | .lookUp id now =>
    match s.threads id with
    | some ⟨.snapshot tenant, .looking⟩ =>
      match s.entries[tenant]? with
      | some entry =>
        if boundedAge now entry.fetched ≤ config.maxStaleness then
          some (s.enter id (.snapshot tenant) (.returned (.ok (.snapshot entry))))
        else some (s.enter id (.snapshot tenant) (.missed now (some entry)))
      | none => some (s.enter id (.snapshot tenant) (.missed now none))
    | _ => none
  | .beginRefresh id ctx =>
    match s.threads id with
    | some ⟨.snapshot tenant, .missed now entry⟩ =>
      some (s.admitted config id (.snapshot tenant) tenant ctx (some (now, entry)))
    | some ⟨.refresh tenant, .admitting⟩ =>
      some (s.admitted config id (.refresh tenant) tenant ctx none)
    | _ => none
  | .fetch id ord ctx now =>
    match s.threads id with
    | some ⟨request, .refreshing tenant fallback state sequence⟩ =>
      some (s.enter id request (afterFetch config tenant fallback state sequence now s.steps
        (s.provider.exec ord limits ctx tenant .snapshot).1))
    | _ => none
  | .publish id =>
    match s.threads id with
    | some ⟨request, .fetched tenant fallback state sequence entry⟩ =>
      some ((FeatureFlags.publish config tenant state sequence entry s).enter id request
        (.ending tenant fallback state (.ok entry)))
    | _ => none
  | .endRefresh id =>
    match s.threads id with
    | some ⟨request, .ending tenant fallback state result⟩ =>
      some ((FeatureFlags.endRefresh tenant state s).enter id request
        (.returned (settle config fallback result)))
    | _ => none
  | .delegate id ord ctx =>
    match s.threads id with
    | some ⟨.delegate tenant call, .delegating⟩ =>
      let (outcome, provider) := s.provider.exec ord limits ctx tenant call
      some ({ s with provider }.enter id (.delegate tenant call) (.delegated outcome))
    | _ => none
  | .invalidate id =>
    match s.threads id with
    | some ⟨.delegate tenant call, .delegated (.ok response)⟩ =>
      let s' := if invalidates call response then invalidateOnSuccess tenant s else s
      some (s'.enter id (.delegate tenant call) (.returned (.ok (.response response))))
    | some ⟨.delegate tenant call, .delegated (.error failure)⟩ =>
      some (s.enter id (.delegate tenant call) (.returned (.error failure)))
    | _ => none
  | .close id ctx =>
    match s.threads id with
    | some ⟨.close, .closing⟩ =>
      some ({ s with entries := ∅, refreshes := ∅ }.enter id .close
        (.returned (match ctx.err with
          | some e => .error (.error e)
          | none => .ok .closed)))
    | _ => none
  | .external tenant ord ctx call =>
    some { s with
      provider := (s.provider.exec ord limits ctx tenant call).2
      steps := s.steps + 1 }

/-- The steps over any provider at all: what the provider returns comes from outside, and its state
is not looked at.  The sections under the cache's lock are those of `step`. -/
def stepOver (limits : Limits) (s : CacheState κ) : Action κ × Except Failure (Response κ) →
    Option (CacheState κ)
  | (.fetch id _ _ now, answer) =>
    match s.threads id with
    | some ⟨request, .refreshing tenant fallback state sequence⟩ =>
      some (s.enter id request
        (afterFetch config tenant fallback state sequence now s.steps answer))
    | _ => none
  | (.delegate id _ _, answer) =>
    match s.threads id with
    | some ⟨.delegate tenant call, .delegating⟩ =>
      some (s.enter id (.delegate tenant call) (.delegated answer))
    | _ => none
  | (.external .., _) => some { s with steps := s.steps + 1 }
  | (action, _) => s.step config limits action

end CacheState

end FeatureFlags
