import FeatureFlags.Equiv.Typing
import FeatureFlags.FleetCalls

/-!
# Steps of the fleet

What every step of every method respects, one lemma for each step function.

* `newFleet_eq_ok`, `PolicyOk`: the configurations that `NewFleet` accepts.
* `validateCandidate_eq_ok_iff`, `Admissible`: the candidates that may be activated.
* `Fleet.Onward`: the clock and the active snapshot only move forward, and stopping is final.
* `loadStep_frame`, `activateStep_frame` and so on: the fields that a step may change.
* `FleetSteps`: a step of a thread is a step of its method.
-/

namespace FeatureFlags

open Go Lib

variable {κ : Type} {config : FleetConfig}

/-! ### Configurations -/

/-- The policy of a key in a configuration that `NewFleet` accepts. -/
structure PolicyOk (maxStaleness : Int) (policy : FlagPolicy) : Prop where
  mode : policy.mode.invalid = false
  safe : policy.securitySensitive = true → policy.mode ≠ .failOpen ∧ policy.mode ≠ .default
  bound : policy.mode = .lastKnownGood → policy.maxStaleness ≤ maxStaleness

theorem mode_inherit (maxStaleness : Int) (policy : FlagPolicy) :
    (policy.inherit maxStaleness).mode = policy.mode := by
  unfold FlagPolicy.inherit
  split_ifs <;> rfl

theorem securitySensitive_inherit (maxStaleness : Int) (policy : FlagPolicy) :
    (policy.inherit maxStaleness).securitySensitive = policy.securitySensitive := by
  unfold FlagPolicy.inherit
  split_ifs <;> rfl

theorem default_inherit (maxStaleness : Int) (policy : FlagPolicy) :
    (policy.inherit maxStaleness).default = policy.default := by
  unfold FlagPolicy.inherit
  split_ifs <;> rfl

theorem addPolicy_eq_ok {maxStaleness : Int} {policies policies' : GoMap FlagPolicy}
    {entry : Bytes × FlagPolicy} (h : addPolicy maxStaleness policies entry = .ok policies') :
    PolicyOk maxStaleness (entry.2.inherit maxStaleness) ∧
      policies' = policies.insert entry.1 (entry.2.inherit maxStaleness) := by
  obtain ⟨key, policy⟩ := entry
  simp only [addPolicy, bind_eq_ok, rejectIf_eq_ok, exists_const, pure_eq_ok] at h
  obtain ⟨-, hmode, hsafe, hbound, rfl⟩ := h
  refine ⟨⟨?_, ?_, ?_⟩, rfl⟩
  · rw [mode_inherit]
    exact Bool.eq_false_iff.mpr hmode
  · rw [mode_inherit, securitySensitive_inherit]
    intro hsensitive
    exact ⟨fun h => hsafe ⟨hsensitive, .inl h⟩, fun h => hsafe ⟨hsensitive, .inr h⟩⟩
  · rw [mode_inherit]
    intro hmode
    exact Int.not_lt.mp fun h => hbound ⟨hmode, h⟩

/-- The loop over the policies keeps what is true of every policy. -/
theorem policies_of_foldlM {maxStaleness : Int} {l : List (Bytes × FlagPolicy)}
    {policies policies' : GoMap FlagPolicy}
    (h : l.foldlM (addPolicy maxStaleness) policies = .ok policies') :
    (∀ entry ∈ l, PolicyOk maxStaleness (entry.2.inherit maxStaleness)) ∧
      policies' = l.foldl
        (fun m entry => m.insert entry.1 (entry.2.inherit maxStaleness)) policies := by
  induction l generalizing policies with
  | nil =>
    cases h
    exact ⟨fun _ h => by simp at h, rfl⟩
  | cons entry l ih =>
    rw [List.foldlM_cons, bind_eq_ok] at h
    obtain ⟨policies₁, hentry, h⟩ := h
    obtain ⟨hok, rfl⟩ := addPolicy_eq_ok hentry
    obtain ⟨hl, rfl⟩ := ih h
    exact ⟨List.forall_mem_cons.mpr ⟨hok, hl⟩, rfl⟩

/-- What `NewFleet` has checked. -/
structure FleetConfig.Ok (config : FleetConfig) : Prop where
  tenant : config.tenant ≠ []
  freshFor : 0 < config.freshFor
  maxStaleness : config.freshFor ≤ config.maxStaleness
  policies : ∀ (key : Bytes) (policy : FlagPolicy), config.policies[key]? = some policy →
    PolicyOk config.maxStaleness policy

variable {ord : MapOrder}

/-- An accepted configuration, with its policies. -/
theorem newFleet_eq_ok {raw config : FleetConfig} (h : newFleet ord raw = .ok config) :
    config.Ok ∧ { config with policies := raw.policies } = raw ∧
      ∀ (key : Bytes), config.policies[key]? =
        (raw.policies[key]?).map (FlagPolicy.inherit raw.maxStaleness) := by
  simp only [newFleet, bind_eq_ok, rejectIf_eq_ok, exists_const, pure_eq_ok, not_or,
    not_le, not_lt] at h
  obtain ⟨⟨htenant, -⟩, -, -, ⟨-, -, -, -, -, -, hfresh, hstale⟩, -, -, -, -, -, policies,
    hpolicies, rfl⟩ := h
  obtain ⟨hok, rfl⟩ := policies_of_foldlM hpolicies
  have hlookup (key : Bytes) (policy : FlagPolicy) :
      (((raw.policies.range ord).foldl (fun m entry =>
        m.insert entry.1 (entry.2.inherit raw.maxStaleness)) ∅ : GoMap FlagPolicy))[key]? =
        some policy ↔
      ∃ p, raw.policies[key]? = some p ∧ p.inherit raw.maxStaleness = policy := by
    rw [GoMap.lookup_foldl_insert (GoMap.nodup_range ord _)]
    simp
  refine ⟨⟨htenant, hfresh, hstale, fun key policy hkey => ?_⟩, rfl, fun key => ?_⟩
  · obtain ⟨p, hp, rfl⟩ := (hlookup key policy).mp hkey
    exact hok (key, p) (GoMap.mem_range.mpr hp)
  · apply Option.ext
    intro policy
    rw [hlookup, Option.map_eq_some_iff]

theorem newFleet_refreshBounds {raw config : FleetConfig} (h : newFleet ord raw = .ok config) :
    0 < config.minRefreshInterval ∧ 0 < config.maxWaiters := by
  simp only [newFleet, bind_eq_ok, rejectIf_eq_ok, exists_const, pure_eq_ok, not_or,
    not_le, not_lt] at h
  obtain ⟨-, -, -, ⟨-, hinterval, -⟩, -, -, ⟨hwaiters, -⟩, -, -, policies, -, rfl⟩ := h
  exact ⟨hinterval, hwaiters⟩

/-! ### Candidates -/

variable {allowStale : Bool} {candidate : SnapshotCandidate κ}

section Candidates

variable [CustomStrategy κ] [Runtime]

/-- A candidate that may be activated at the time `now`. -/
structure Admissible (ord : MapOrder) (config : FleetConfig) (candidate : SnapshotCandidate κ)
    (now : Time) (allowStale : Bool) (snapshot validated : Snapshot κ) : Prop where
  revision : candidate.revision ≠ [] ∧ len candidate.revision ≤ maxFleetIdentityLength
  provenance : candidate.provenance ≠ [] ∧ len candidate.provenance ≤ maxFleetIdentityLength
  sourceTime : ¬ candidate.sourceTime.isZero
  complete : candidate.snapshot = some snapshot
  tenant : snapshot.tenant = config.tenant
  nonempty : config.allowEmptyBootstrap = true ∨ snapshot.definitions.len ≠ 0
  notFuture : candidate.sourceTime.nanos ≤ now.nanos + config.maxFutureSkew
  notStale : boundedAge now candidate.sourceTime ≤ config.maxStaleness
  fresh : allowStale = true ∨ boundedAge now candidate.sourceTime ≤ config.freshFor
  graph : ∃ s, newSnapshotWithGroups ord ((snapshot.definitions.range ord).map Prod.snd)
    ((snapshot.groups.range ord).map Prod.snd) snapshot.limits = .ok s ∧
      s.bindTenant config.tenant = validated

theorem validateCandidate_eq_ok_iff {config : FleetConfig} {now : Time} {validated : Snapshot κ} :
    validateCandidate ord config candidate now allowStale = .ok validated ↔
      ∃ snapshot, Admissible ord config candidate now allowStale snapshot validated := by
  simp only [validateCandidate, bind_eq_ok, rejectIf_eq_ok, exists_const, not_or, not_lt, gt_iff_lt]
  cases hsnapshot : candidate.snapshot with
  | none =>
    constructor
    · rintro ⟨-, -, -, h⟩
      cases h
    · rintro ⟨snapshot, h⟩
      cases hsnapshot.symm.trans h.complete
  | some snapshot =>
    simp only [bind_eq_ok, rejectIf_eq_ok, exists_const, mapError_eq_ok, pure_eq_ok, not_not,
      not_or, not_and, not_lt]
    constructor
    · rintro ⟨hrevision, hprovenance, htime, htenant, hempty, hfuture, ⟨hstale, hfresh⟩, hgraph⟩
      refine ⟨snapshot, hrevision, hprovenance, htime, hsnapshot, htenant, ?_,
        Int.not_lt.mp hfuture, hstale, ?_, hgraph⟩
      · cases h : config.allowEmptyBootstrap with
        | false => exact .inr (hempty h)
        | true => exact .inl rfl
      · cases h : allowStale with
        | false => exact .inr (hfresh h)
        | true => exact .inl rfl
    · rintro ⟨snapshot', h⟩
      cases hsnapshot.symm.trans h.complete
      refine ⟨h.revision, h.provenance, h.sourceTime, h.tenant, ?_, Int.not_lt.mpr h.notFuture,
        ⟨h.notStale, ?_⟩, h.graph⟩
      · rintro hfalse
        exact h.nonempty.resolve_left (by simp [hfalse])
      · rintro hfalse
        exact h.fresh.resolve_left (by simp [hfalse])

end Candidates

/-! ### What no step undoes -/

namespace Fleet

/-- The fields on which the lifecycle rests. -/
structure Core (κ : Type) where
  lastObservedAt : Time
  active : Option (ActiveSnapshot κ)
  state : FleetState
  closed : Bool
  started : Bool
  starting : Bool
  shutdownDone : Bool
  waitGroup : WaitGroup → Int

/-- The fields on which the lifecycle rests. -/
def core (f : Fleet κ) : Core κ :=
  ⟨f.lastObservedAt, f.active, f.state, f.closed, f.started, f.starting, f.shutdownDone,
    f.waitGroup⟩

/-- From one state of a fleet to a later one. -/
structure Onward (f f' : Fleet κ) : Prop where
  observed : f.lastObservedAt.nanos ≤ f'.lastObservedAt.nanos
  active : ∀ a, f.active = some a →
    ∃ a', f'.active = some a' ∧ a.sourceTime.nanos ≤ a'.sourceTime.nanos
  closed : f.closed = true → f'.closed = true ∧ f'.active = f.active
  stopped : f.closed = true → f.state = .stopped → f'.state = .stopped
  groups : f.closed = true → ∀ group, f'.waitGroup group ≤ f.waitGroup group
  started : f.started = true → f'.started = true
  done : f.shutdownDone = true → f'.shutdownDone = true

namespace Onward

variable {f f' f'' : Fleet κ}

/-- A step that changes nothing but `starting` and the counters. -/
theorem of_groups_le
    (h : { f'.core with starting := f.starting, waitGroup := f.waitGroup } = f.core)
    (groups : f.closed = true → ∀ group, f'.waitGroup group ≤ f.waitGroup group) :
    f.Onward f' := by
  simp only [core, Core.mk.injEq, and_true, true_and] at h
  obtain ⟨hobserved, hactive, hstate, hclosed, hstarted, hdone⟩ := h
  refine ⟨by rw [hobserved], fun a ha => ⟨a, by rw [hactive, ha], le_rfl⟩, fun h => ?_, ?_, groups,
    ?_, ?_⟩
  · exact ⟨by rw [hclosed, h], hactive⟩
  · exact fun _ h => by rw [hstate, h]
  · exact fun h => by rw [hstarted, h]
  · exact fun h => by rw [hdone, h]

theorem of_core (h : f'.core = f.core) : f.Onward f' := by
  have hgroups : f'.waitGroup = f.waitGroup := congrArg Core.waitGroup h
  exact of_groups_le (by rw [h]; rfl) fun _ _ => by rw [hgroups]

/-- A fleet that is not closed may enter wait groups. -/
theorem of_entered (hopen : f.closed = false)
    (h : { f'.core with starting := f.starting, waitGroup := f.waitGroup } = f.core) :
    f.Onward f' :=
  of_groups_le h fun hclosed => by simp [hopen] at hclosed

theorem refl (f : Fleet κ) : f.Onward f := of_core rfl

theorem trans (h₁ : f.Onward f') (h₂ : f'.Onward f'') : f.Onward f'' where
  observed := le_trans h₁.observed h₂.observed
  active a ha := by
    obtain ⟨a', ha', hle⟩ := h₁.active a ha
    obtain ⟨a'', ha'', hle'⟩ := h₂.active a' ha'
    exact ⟨a'', ha'', le_trans hle hle'⟩
  closed h := by
    obtain ⟨hclosed, hactive⟩ := h₁.closed h
    exact ⟨(h₂.closed hclosed).1, (h₂.closed hclosed).2.trans hactive⟩
  stopped h hstate := h₂.stopped (h₁.closed h).1 (h₁.stopped h hstate)
  groups h group := le_trans (h₂.groups (h₁.closed h).1 group) (h₁.groups h group)
  started h := h₂.started (h₁.started h)
  done h := h₂.done (h₁.done h)

/-- A step of a fleet that is not closed. -/
theorem of_open (hopen : f.closed = false)
    (observed : f.lastObservedAt.nanos ≤ f'.lastObservedAt.nanos)
    (active : ∀ a, f.active = some a →
      ∃ a', f'.active = some a' ∧ a.sourceTime.nanos ≤ a'.sourceTime.nanos)
    (started : f.started = true → f'.started = true)
    (done : f.shutdownDone = true → f'.shutdownDone = true) : f.Onward f' where
  observed := observed
  active := active
  closed h := by simp [hopen] at h
  stopped h := by simp [hopen] at h
  groups h := by simp [hopen] at h
  started := started
  done := done

end Onward

variable {f f' : Fleet κ}

/-! #### Sections -/

/-- The clock returns the latest time observed, and nothing else changes. -/
theorem exists_now (f : Fleet κ) (clock : Time) :
    ∃ t, f.lastObservedAt.nanos ≤ t.nanos ∧ f.now clock = (t, { f with lastObservedAt := t }) := by
  unfold now
  split_ifs with h
  · exact ⟨f.lastObservedAt, le_rfl, rfl⟩
  · exact ⟨clock, Int.not_lt.mp h, rfl⟩

theorem onward_now (f : Fleet κ) (clock : Time) : f.Onward (f.now clock).2 := by
  obtain ⟨t, ht, heq⟩ := f.exists_now clock
  rw [heq]
  exact ⟨ht, fun a ha => ⟨a, ha, le_rfl⟩, fun h => ⟨h, rfl⟩, fun _ h => h, fun _ _ => le_rfl,
    id, id⟩

theorem degradeIfStale_cases (config : FleetConfig) (now : Time) (f : Fleet κ) :
    f.degradeIfStale config now = f ∨
      f.closed = false ∧ f.degradeIfStale config now = { f with state := .degraded } := by
  unfold degradeIfStale
  split_ifs with hclosed
  · exact .inl rfl
  · split
    · exact .inl rfl
    · split_ifs
      · exact .inr ⟨Bool.eq_false_iff.mpr hclosed, rfl⟩
      · exact .inl rfl

theorem onward_degradeIfStale (config : FleetConfig) (now : Time) (f : Fleet κ) :
    f.Onward (f.degradeIfStale config now) := by
  rcases degradeIfStale_cases config now f with h | ⟨hopen, h⟩
  · rw [h]
    exact .refl f
  · rw [h]
    exact .of_open hopen le_rfl (fun a ha => ⟨a, ha, le_rfl⟩) id id

/-- The two outcomes of the section of `activate`. -/
theorem install_cases (config : FleetConfig) (candidate : SnapshotCandidate κ) (now : Time)
    (validated : Snapshot κ) (f : Fleet κ) :
    (∃ err, f.install config candidate now validated = (.error err, f)) ∨
      f.closed = false ∧ f.reorders candidate = false ∧
      ∃ state, f.install config candidate now validated =
        (.ok ⟨validated, candidate.revision, candidate.provenance, candidate.sourceTime, now⟩,
          { f with
            active := some
              ⟨validated, candidate.revision, candidate.provenance, candidate.sourceTime, now⟩
            lastRefreshFailure := .none
            state }) := by
  unfold install
  dsimp only
  split_ifs with hclosed hreorders
  · exact .inl ⟨_, rfl⟩
  · exact .inl ⟨_, rfl⟩
  · exact .inr ⟨Bool.eq_false_iff.mpr hclosed, Bool.eq_false_iff.mpr hreorders, _, rfl⟩
  · exact .inr ⟨Bool.eq_false_iff.mpr hclosed, Bool.eq_false_iff.mpr hreorders, _, rfl⟩

/-- A candidate that does not reorder is no older than the active snapshot. -/
theorem le_of_not_reorders (h : f.reorders candidate = false) {a} (ha : f.active = some a) :
    a.sourceTime.nanos ≤ candidate.sourceTime.nanos := by
  simp only [reorders, ha, decide_eq_false_iff_not] at h
  exact Int.not_lt.mp h

section

variable (config)

theorem onward_install (candidate : SnapshotCandidate κ) (now : Time) (validated : Snapshot κ)
    (f : Fleet κ) : f.Onward (f.install config candidate now validated).2 := by
  rcases install_cases config candidate now validated f with
    ⟨err, h⟩ | ⟨hopen, hreorders, state, h⟩
  · rw [h]
    exact .refl f
  · rw [h]
    exact .of_open hopen le_rfl (fun a ha => ⟨_, rfl, le_of_not_reorders hreorders ha⟩) id id

/-- What `Refresh` finds under the lock. -/
theorem enterRefresh_cases (now : Time) (f : Fleet κ) :
    (∃ err, f.enterRefresh config now = (.refused err, f)) ∨
    (∃ flight, f.refresh = some flight ∧ f.waiters < config.maxWaiters ∧
      f.enterRefresh config now = (.follower flight, { f with waiters := f.waiters + 1 })) ∨
    (f.enterRefresh config now = (.deferred ⟨f.active, .deferred, false⟩, f)) ∨
    (f.closed = false ∧ f.refresh = none ∧
      (f.lastRefreshAt.isZero ∨ config.minRefreshInterval ≤ boundedAge now f.lastRefreshAt) ∧
      f.enterRefresh config now = (.leader f.flights.length, { f with
        flights := f.flights ++ [none]
        refresh := some f.flights.length
        lastRefreshAt := now
        refreshWG := f.refreshWG + 1 })) := by
  unfold enterRefresh
  by_cases hclosed : f.closed = true
  · rw [if_pos hclosed]
    exact .inl ⟨_, rfl⟩
  · rw [if_neg hclosed]
    cases hrefresh : f.refresh with
    | some flight =>
      dsimp only
      split_ifs with hfull
      · exact .inl ⟨_, rfl⟩
      · exact .inr (.inl ⟨flight, rfl, Int.not_le.mp hfull, rfl⟩)
    | none =>
      dsimp only
      split_ifs with hearly
      · exact .inr (.inr (.inl rfl))
      · have hspaced :
            f.lastRefreshAt.isZero ∨
              config.minRefreshInterval ≤ boundedAge now f.lastRefreshAt := by
          rwa [not_and_or, not_not, Int.not_lt] at hearly
        exact .inr (.inr (.inr ⟨Bool.eq_false_iff.mpr hclosed, rfl, hspaced, rfl⟩))

/-- A flight is published; the failure and the state may change, but not the state of a fleet that
is closed. -/
theorem exists_publish (flight : Nat) (result : RefreshResult κ)
    (err : Option GoError) (completedAt : Time) (failure : FleetFailureCode) (f : Fleet κ) :
    ∃ failure' state, (f.closed = true → state = f.state) ∧
      f.publish config flight result err completedAt failure = { f with
        lastRefreshFailure := failure'
        state
        flights := f.flights.set flight (some (result, err))
        refresh := none } := by
  unfold publish
  cases err with
  | none => exact ⟨_, _, fun _ => rfl, rfl⟩
  | some e =>
    dsimp only
    split_ifs
    · rcases degradeIfStale_cases config completedAt f with h | ⟨hopen, h⟩
      · exact ⟨_, _, fun _ => rfl, by rw [h]⟩
      · exact ⟨_, _, fun h => by simp [hopen] at h, by rw [h]⟩
    · rcases degradeIfStale_cases config completedAt { f with lastRefreshFailure := failure } with
        h | ⟨hopen, h⟩
      · exact ⟨_, _, fun _ => rfl, by rw [h]⟩
      · exact ⟨_, _, fun h => by simp [show f.closed = false from hopen] at h, by rw [h]⟩

theorem onward_publish (flight : Nat) (result : RefreshResult κ)
    (err : Option GoError) (completedAt : Time) (failure : FleetFailureCode) (f : Fleet κ) :
    f.Onward (f.publish config flight result err completedAt failure) := by
  obtain ⟨failure', state, hstate, h⟩ :=
    exists_publish config flight result err completedAt failure f
  rw [h]
  exact ⟨le_rfl, fun a ha => ⟨a, ha, le_rfl⟩, fun h => ⟨h, rfl⟩,
    fun hclosed h => (hstate hclosed).trans h, fun _ _ => le_rfl, id, id⟩

theorem core_invalidate (now : Time) (event : Invalidation) (f : Fleet κ) :
    (f.invalidate config now event).2.core = f.core := by
  unfold invalidate
  dsimp only
  split_ifs <;> rfl

end

end Fleet

/-! #### Methods -/

section Steps

variable {o : Outside κ} {f f' : Fleet κ}

/-- What an operation of a load changes. -/
theorem operationStep_frame {operation operation' : Operation κ}
    (h : operationStep config o f operation = some (f', operation')) :
    ∃ providerLoads loadSlots, f' = { f with providerLoads, loadSlots } := by
  cases operation <;> simp only [operationStep] at h
  case acquiring =>
    split at h
    · cases h
      exact ⟨_, _, rfl⟩
    · split_ifs at h
      cases h
      exact ⟨_, _, rfl⟩
  case acquired => split at h <;> cases h <;> exact ⟨_, _, rfl⟩
  case swapping => split_ifs at h <;> cases h <;> exact ⟨_, _, rfl⟩
  case counting | calling | releasing => cases h; exact ⟨_, _, rfl⟩
  case returned => cases h

theorem loadStep_frame {stage : LoadStage κ} {p} (h : loadStep config o f stage = some (f', p)) :
    ∃ providerLoads loadSlots loadWG, f' = { f with providerLoads, loadSlots, loadWG } := by
  cases stage with
  | entering =>
    simp only [loadStep] at h
    split_ifs at h <;> cases h <;> exact ⟨_, _, _, rfl⟩
  | executing operations =>
    simp only [loadStep] at h
    split at h
    · split_ifs at h
      cases h
      exact ⟨_, _, _, rfl⟩
    · split at h
      · cases h
      · obtain ⟨⟨f₁, operation'⟩, hop, hx⟩ := Option.map_eq_some_iff.mp h
        cases hx
        obtain ⟨_, _, rfl⟩ := operationStep_frame hop
        exact ⟨_, _, _, rfl⟩
    · obtain ⟨answer, -, hx⟩ := Option.map_eq_some_iff.mp h
      cases hx
      exact ⟨_, _, _, rfl⟩

theorem statusStep_frame {stage : StatusStage} {p}
    (h : statusStep config o f stage = some (f', p)) : f' = f ∨ f' = (f.now o.clock).2 := by
  cases stage <;> simp only [statusStep] at h <;> cases h
  · exact .inr rfl
  · exact .inl rfl

theorem shutdownStep_frame {stage : ShutdownStage} {p} (h : shutdownStep o f stage = some (f', p)) :
    (∃ shutdownOnce, f' = { f with shutdownOnce }) ∨ f' = f.markStopped := by
  cases stage <;> simp only [shutdownStep] at h
  case stopping => cases h; exact .inr rfl
  case spawning => cases h; exact .inl ⟨_, rfl⟩
  case waiting =>
    split at h
    · cases h
      exact .inl ⟨_, rfl⟩
    · split_ifs at h
      cases h
      exact .inl ⟨_, rfl⟩

variable [CustomStrategy κ] [Runtime]

theorem activateStep_frame {stage : ActivateStage κ} {p}
    (h : activateStep config o allowStale f stage = some (f', p)) :
    ∃ lastObservedAt active lastRefreshFailure state,
      f' = { f with lastObservedAt, active, lastRefreshFailure, state } := by
  cases stage with
  | observing candidate =>
    obtain ⟨t, -, heq⟩ := f.exists_now o.clock
    simp only [activateStep, heq] at h
    split at h <;> cases h <;> exact ⟨_, _, _, _, rfl⟩
  | installing candidate now validated =>
    simp only [activateStep] at h
    cases h
    rcases f.install_cases config candidate now validated with ⟨err, h⟩ | ⟨-, -, state, h⟩ <;>
      rw [h] <;> exact ⟨_, _, _, _, rfl⟩

theorem evaluateStep_frame {query : FlagQuery} {stage : EvaluateStage κ} {p}
    (h : evaluateStep config query o f stage = some (f', p)) : f' = f ∨ f' = (f.now o.clock).2 := by
  cases stage <;> simp only [evaluateStep] at h
  case reading =>
    split at h
    · split at h <;> cases h <;> exact .inl rfl
    · split at h
      · cases h
        exact .inl rfl
      · split at h <;> cases h <;> exact .inl rfl
  case aging =>
    split_ifs at h
    · cases h
      exact .inr rfl
    · split at h <;> cases h <;> exact .inr rfl
  case retaining => split_ifs at h <;> cases h <;> exact .inr rfl

theorem onward_activateStep {stage : ActivateStage κ} {p}
    (h : activateStep config o allowStale f stage = some (f', p)) : f.Onward f' := by
  cases stage with
  | observing candidate =>
    simp only [activateStep] at h
    split at h <;> cases h <;> exact f.onward_now o.clock
  | installing candidate now validated =>
    simp only [activateStep] at h
    cases h
    exact f.onward_install config candidate now validated

/-! #### Threads -/

variable (config : FleetConfig) (o : Outside κ) (f f' : Fleet κ) in
/-- A step of a thread is a step of its method. -/
inductive FleetSteps : FleetThread κ → FleetThread κ → List (FleetThread κ) → Prop
  | bootstrap {stage : BootstrapStage κ} {p}
      (step : bootstrapStep config o f stage = some (f', p)) :
      FleetSteps (.bootstrap (.running stage)) (.bootstrap p) []
  | start {stage : StartStage κ} {p}
      (step : startStep config o f stage = some (f', p)) :
      FleetSteps (.start (.running stage)) (.start p) (loops config p)
  | refresh {stage : RefreshStage κ} {p}
      (step : refreshStep config o f stage = some (f', p)) :
      FleetSteps (.refresh (.running stage)) (.refresh p) []
  | invalidate {stage : InvalidateStage κ} {p}
      (step : invalidateStep config o f stage = some (f', p)) :
      FleetSteps (.invalidate (.running stage)) (.invalidate p) []
  | status {stage : StatusStage} {p : Progress StatusStage FleetStatus}
      (step : statusStep config o f stage = some (f', p)) :
      FleetSteps (.status (.running stage)) (.status p) []
  | evaluate {query : FlagQuery} {stage : EvaluateStage κ} {p}
      (step : evaluateStep config query o f stage = some (f', p)) :
      FleetSteps (.evaluate query (.running stage)) (.evaluate query p) []
  | shutdown {stage : ShutdownStage} {p : Progress ShutdownStage (Option GoError)}
      (step : shutdownStep o f stage = some (f', p)) :
      FleetSteps (.shutdown (.running stage)) (.shutdown p) (joiner f stage)
  | refreshLoop {stage : RefreshLoopStage κ} {p}
      (step : refreshLoopStep config o f stage = some (f', p)) :
      FleetSteps (.refreshLoop (.running stage)) (.refreshLoop p) []
  | watchLoop {stage : WatchLoopStage κ} {p}
      (step : watchLoopStep config o f stage = some (f', p)) :
      FleetSteps (.watchLoop (.running stage)) (.watchLoop p) []
  | join {stage : JoinStage} {p : Progress JoinStage Unit}
      (step : joinStep f stage = some (f', p)) :
      FleetSteps (.join (.running stage)) (.join p) []

variable {thread thread' : FleetThread κ} {spawned : List (FleetThread κ)}

theorem steps_of_fleetStep
    (h : (fleetProgram config).step o f thread = some (f', thread', spawned)) :
    FleetSteps config o f f' thread thread' spawned := by
  simp only [fleetProgram] at h
  unfold fleetStep at h
  split at h
  case h_11 => cases h
  all_goals
    obtain ⟨⟨f₁, p⟩, hp, hx⟩ := Option.map_eq_some_iff.mp h
    cases hx
  · exact .bootstrap hp
  · exact .start hp
  · exact .refresh hp
  · exact .invalidate hp
  · exact .status hp
  · exact .evaluate hp
  · exact .shutdown hp
  · exact .refreshLoop hp
  · exact .watchLoop hp
  · exact .join hp

variable {u : FleetThread κ} {p : Progress (StartStage κ) (Except GoError (ActiveSnapshot κ))}

omit [CustomStrategy κ] [Runtime] in
theorem mem_loops (hu : u ∈ loops config p) :
    u = .refreshLoop (.running .scheduling) ∨ u = .watchLoop (.running .watching) := by
  unfold loops at hu
  split at hu
  · split_ifs at hu
    · simpa using hu
    · exact .inl (List.mem_singleton.mp hu)
  · simp at hu

omit [CustomStrategy κ] [Runtime] in
theorem mem_joiner {stage : ShutdownStage} (hu : u ∈ joiner f stage) :
    stage = .spawning ∧ u = .join (.running (.awaiting .run)) := by
  unfold joiner at hu
  split at hu
  · split_ifs at hu
    · simp at hu
    · exact ⟨rfl, List.mem_singleton.mp hu⟩
  · simp at hu

/-- A step starts nothing but the loops and the goroutine of `Shutdown`. -/
theorem FleetSteps.mem_spawned (h : FleetSteps config o f f' thread thread' spawned)
    (hu : u ∈ spawned) :
    u = .refreshLoop (.running .scheduling) ∨ u = .watchLoop (.running .watching) ∨
      u = .join (.running (.awaiting .run)) := by
  cases h with
  | start step =>
    rcases mem_loops hu with rfl | rfl
    · exact .inl rfl
    · exact .inr (.inl rfl)
  | shutdown step => exact .inr (.inr (mem_joiner hu).2)
  | _ => simp at hu

/-- The run of a fleet that takes the actions. -/
theorem exists_fleetRun (config : FleetConfig) (actions : List (Act FleetRequest (Outside κ)))
    (check : List (FleetMove κ) × FleetPool κ → Bool)
    (h : (play (fleetProgram config).next ⟨.new, []⟩ actions).any check = true) :
    ∃ ts s, FleetRun config ts s ∧ ts.map Transition.action = actions ∧ check (ts, s) = true :=
  exists_trace_of_play h

end Steps

end FeatureFlags
