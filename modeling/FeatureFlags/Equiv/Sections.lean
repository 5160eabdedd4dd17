import FeatureFlags.Equiv.WaitGroups

/-!
# What a step of a thread does to the fleet

* `Fleet.Apart`: a section that leaves the active snapshot, the flights and the ledger alone.
* `FleetThread.inner`: the call of `Bootstrap` or `Refresh`, or the section of `Invalidate`, that a
  thread is in, directly or inside another method.
* `FleetMoves`, `FleetSteps.moves`: a step is a step of one of these, or apart.

Whatever is only touched by some of the calls is left alone by all other steps, which need not be
looked at again.
-/

namespace FeatureFlags

open Go Lib

variable {κ : Type} {config : FleetConfig}

/-! ### Sections -/

namespace Fleet

/-- The fields that only `Refresh` writes. -/
structure Flights (κ : Type) where
  refresh : Option Nat
  flights : List (Option (RefreshResult κ × Option GoError))
  waiters : Int
  lastRefreshAt : Time

/-- The fields that only `Refresh` writes. -/
def flightFields (f : Fleet κ) : Flights κ := ⟨f.refresh, f.flights, f.waiters, f.lastRefreshAt⟩

/-- What a fleet counts and remembers about loads and invalidations. -/
structure Ledger where
  providerLoads : Nat
  loadSlots : Int
  invalidations : GoMap UInt64
  invalidationGaps : Nat
  convergence : Time
  convergenceRevision : Bytes

def ledger (f : Fleet κ) : Ledger :=
  ⟨f.providerLoads, f.loadSlots, f.invalidations, f.invalidationGaps, f.convergence,
    f.convergenceRevision⟩

/-- A section that has to do with neither the active snapshot nor the flights nor the ledger. -/
structure Apart (f f' : Fleet κ) : Prop where
  active : f'.active = f.active
  flights : f'.flightFields = f.flightFields
  ledger : f'.ledger = f.ledger

theorem Apart.trans {f f' f'' : Fleet κ} (h : f.Apart f') (h' : f'.Apart f'') : f.Apart f'' :=
  ⟨h'.active.trans h.active, h'.flights.trans h.flights, h'.ledger.trans h.ledger⟩

variable (f : Fleet κ)

theorem Apart.refl : f.Apart f := ⟨rfl, rfl, rfl⟩

theorem apart_now (clock : Time) : f.Apart (f.now clock).2 := by
  obtain ⟨t, -, heq⟩ := f.exists_now clock
  rw [heq]
  exact ⟨rfl, rfl, rfl⟩

theorem apart_degradeIfStale (config : FleetConfig) (now : Time) :
    f.Apart (f.degradeIfStale config now) := by
  rcases degradeIfStale_cases config now f with h | ⟨-, h⟩ <;> rw [h] <;> exact ⟨rfl, rfl, rfl⟩

/-- A failure is recorded, and the fleet is degraded if its snapshot is stale. -/
theorem apart_failed {f₁ : Fleet κ} (h : f.Apart f₁) (config : FleetConfig) (now : Time) :
    f.Apart (f₁.degradeIfStale config now) := h.trans (apart_degradeIfStale f₁ config now)

theorem apart_markStopped : f.Apart f.markStopped := by
  refine ⟨?_, ?_, ?_⟩ <;> unfold markStopped <;> split_ifs <;> rfl

theorem apart_enterStart : f.Apart f.enterStart.2 := by
  refine ⟨?_, ?_, ?_⟩ <;> unfold enterStart <;> split_ifs <;> rfl

theorem apart_resumeStart (config : FleetConfig) (result : Except GoError (ActiveSnapshot κ)) :
    f.Apart (f.resumeStart config result).2 := by
  refine ⟨?_, ?_, ?_⟩ <;> cases result <;> try rfl
  all_goals
    simp only [resumeStart]
    split_ifs <;> rfl

/-- A goroutine that is counted in `runWG` ends. -/
theorem apart_leave : f.Apart { f with runWG := f.runWG - 1 } := ⟨rfl, rfl, rfl⟩

theorem flightFields_invalidate (config : FleetConfig) (now : Time) (event : Invalidation) :
    (f.invalidate config now event).2.flightFields = f.flightFields := by
  unfold invalidate
  dsimp only
  split_ifs <;> rfl

end Fleet

/-! ### Inner calls -/

/-- A call of `Bootstrap` or `Refresh`, or the section of `Invalidate` for an event. -/
inductive FleetInner (κ : Type) where
  | bootstrap (stage : BootstrapStage κ)
  | refresh (stage : RefreshStage κ)
  | classify (event : Invalidation) (now : Time)

/-- What `Invalidate` is in. -/
def InvalidateStage.inner : InvalidateStage κ → Option (FleetInner κ)
  | .observing _ => none
  | .classifying event now => some (.classify event now)
  | .refreshing _ _ stage => some (.refresh stage)

def FleetThread.inner : FleetThread κ → Option (FleetInner κ)
  | .bootstrap (.running stage) => some (.bootstrap stage)
  | .start (.running (.bootstrapping stage)) => some (.bootstrap stage)
  | .refresh (.running stage) => some (.refresh stage)
  | .invalidate (.running stage) => stage.inner
  | .refreshLoop (.running (.refreshing stage)) => some (.refresh stage)
  | .watchLoop (.running (.invalidating stage)) => stage.inner
  | _ => none

/-- What a function is in that may have returned. -/
def innerOf {α β : Type} (inner : α → Option (FleetInner κ)) : Progress α β → Option (FleetInner κ)
  | .running stage => inner stage
  | .finished _ => none

/-- A call that has just begun, or the section for a valid event at a time that the fleet has
observed. -/
def FleetInner.Begins (config : FleetConfig) (f : Fleet κ) : FleetInner κ → Prop
  | .bootstrap stage => stage = .entering
  | .refresh stage => stage = .observing
  | .classify event now =>
    Fleet.invalidEvent config event = false ∧ now.nanos ≤ f.lastObservedAt.nanos

section Steps

variable {o : Outside κ} {f f' : Fleet κ}

theorem apart_joinStep {stage : JoinStage} {p}
    (h : joinStep f stage = some (f', p)) : f.Apart f' := by
  cases stage <;> simp only [joinStep] at h
  case awaiting =>
    split_ifs at h
    cases h
    exact .refl f
  case closing =>
    cases h
    exact ⟨rfl, rfl, rfl⟩

variable [CustomStrategy κ] [Runtime]

variable (config : FleetConfig) (o : Outside κ) (f f' : Fleet κ) in
/-- A step inside a call is a step of it.  Any other step is apart, and at most begins a call. -/
inductive FleetMoves : Option (FleetInner κ) → Option (FleetInner κ) → Prop
  | bootstrap {stage : BootstrapStage κ} {p}
      (step : bootstrapStep config o f stage = some (f', p)) :
      FleetMoves (some (.bootstrap stage)) (innerOf (fun stage => some (.bootstrap stage)) p)
  | refresh {stage : RefreshStage κ} {p}
      (step : refreshStep config o f stage = some (f', p)) :
      FleetMoves (some (.refresh stage)) (innerOf (fun stage => some (.refresh stage)) p)
  | classify {event : Invalidation} {now : Time} {after : Option (FleetInner κ)}
      (classified : f' = (f.invalidate config now event).2)
      (begins : ∀ inner ∈ after, inner = .refresh .observing) :
      FleetMoves (some (.classify event now)) after
  | apart {after : Option (FleetInner κ)} (apart : f.Apart f')
      (begins : ∀ inner ∈ after, inner.Begins config f') : FleetMoves none after

theorem FleetMoves.idle (h : f.Apart f') : FleetMoves config o f f' none none := .apart h (by simp)

theorem moves_startStep {stage : StartStage κ} {p} (h : startStep config o f stage = some (f', p)) :
    FleetMoves config o f f' (FleetThread.start (.running stage)).inner
      (FleetThread.start p).inner := by
  cases stage <;> simp only [startStep] at h
  case entering =>
    have hapart := f.apart_enterStart
    split at h <;> rename_i heq <;> rw [heq] at hapart <;> cases h
    · exact .idle hapart
    · exact .apart hapart (by rintro _ ⟨⟩; rfl)
  case bootstrapping =>
    obtain ⟨q, hq, rfl⟩ := Progress.inside_eq_some.mp h
    have hmoves := FleetMoves.bootstrap hq
    cases q <;> exact hmoves
  case resuming result =>
    cases h
    exact .idle (f.apart_resumeStart config result)

theorem moves_invalidateStep {stage : InvalidateStage κ} {p}
    (h : invalidateStep config o f stage = some (f', p)) :
    FleetMoves config o f f' stage.inner (innerOf InvalidateStage.inner p) := by
  cases stage <;> simp only [invalidateStep] at h
  case observing event =>
    have hapart := f.apart_now o.clock
    split_ifs at h with hinvalid <;> cases h
    · exact .idle hapart
    · refine .apart hapart fun inner hinner => ?_
      cases hinner
      obtain ⟨t, -, heq⟩ := f.exists_now o.clock
      rw [heq]
      exact ⟨Bool.eq_false_iff.mpr hinvalid, le_rfl⟩
  case classifying event now =>
    split at h <;> rename_i heq <;> cases h <;> refine .classify (by rw [heq]) ?_ <;>
      rintro _ ⟨⟩
    rfl
  case refreshing event result stage =>
    obtain ⟨q, hq, rfl⟩ := Progress.inside_eq_some.mp h
    have hmoves := FleetMoves.refresh hq
    cases q <;> exact hmoves

theorem moves_refreshLoopStep {stage : RefreshLoopStage κ} {p}
    (h : refreshLoopStep config o f stage = some (f', p)) :
    FleetMoves config o f f' (FleetThread.refreshLoop (.running stage)).inner
      (FleetThread.refreshLoop p).inner := by
  cases stage <;> simp only [refreshLoopStep] at h
  case scheduling =>
    split_ifs at h
    · cases h
      exact .idle (.refl f)
    · split at h <;> cases h <;> refine .apart (.refl f) ?_ <;> rintro _ ⟨⟩
      rfl
  case refreshing =>
    obtain ⟨q, hq, rfl⟩ := Progress.inside_eq_some.mp h
    have hmoves := FleetMoves.refresh hq
    cases q with
    | running => exact hmoves
    | finished result =>
      have hinner : (FleetThread.refreshLoop (.running
          (afterLoopRefresh config o result.2))).inner = none := by
        unfold afterLoopRefresh
        split
        · split_ifs <;> rfl
        · rfl
      exact hinner ▸ hmoves
  case observing => cases h; exact .idle (f.apart_now o.clock)
  case recording failure now stops =>
    cases h
    cases stops <;> exact .idle (f.apart_failed (by exact ⟨rfl, rfl, rfl⟩) config now)
  case stopping => cases h; exact .idle f.apart_markStopped
  case leaving => cases h; exact .idle f.apart_leave

theorem moves_watchLoopStep {stage : WatchLoopStage κ} {p}
    (h : watchLoopStep config o f stage = some (f', p)) :
    FleetMoves config o f f' (FleetThread.watchLoop (.running stage)).inner
      (FleetThread.watchLoop p).inner := by
  cases stage <;> simp only [watchLoopStep] at h
  case watching => split at h <;> cases h <;> exact .idle (.refl f)
  case invalidating =>
    obtain ⟨q, hq, rfl⟩ := Progress.inside_eq_some.mp h
    have hmoves := moves_invalidateStep hq
    cases q with
    | running => exact hmoves
    | finished result =>
      have hinner : (FleetThread.watchLoop (κ := κ) (.running
          (afterWatchInvalidate result.2))).inner = none := by
        unfold afterWatchInvalidate
        split <;> rfl
      exact hinner ▸ hmoves
  case failed => split at h <;> cases h <;> exact .idle (.refl f)
  case observing => cases h; exact .idle (f.apart_now o.clock)
  case recording failure now stops =>
    cases h
    cases stops <;> exact .idle (f.apart_failed (by exact ⟨rfl, rfl, rfl⟩) config now)
  case unwinding => cases h; exact .idle ⟨rfl, rfl, rfl⟩
  case leaving => cases h; exact .idle f.apart_leave

variable {thread thread' : FleetThread κ} {spawned : List (FleetThread κ)}

variable (h : FleetSteps config o f f' thread thread' spawned)
include h

theorem FleetSteps.moves : FleetMoves config o f f' thread.inner thread'.inner := by
  cases h with
  | bootstrap step =>
    rename_i p
    have hmoves := FleetMoves.bootstrap step
    cases p <;> exact hmoves
  | start step => exact moves_startStep step
  | refresh step =>
    rename_i p
    have hmoves := FleetMoves.refresh step
    cases p <;> exact hmoves
  | invalidate step =>
    rename_i p
    have hmoves := moves_invalidateStep step
    cases p <;> exact hmoves
  | status step =>
    rcases statusStep_frame step with rfl | rfl
    · exact .idle (.refl f')
    · exact .idle (f.apart_now o.clock)
  | evaluate step =>
    rcases evaluateStep_frame step with rfl | rfl
    · exact .idle (.refl f')
    · exact .idle (f.apart_now o.clock)
  | shutdown step =>
    rcases shutdownStep_frame step with ⟨_, rfl⟩ | rfl
    · exact .idle ⟨rfl, rfl, rfl⟩
    · exact .idle f.apart_markStopped
  | refreshLoop step => exact moves_refreshLoopStep step
  | watchLoop step => exact moves_watchLoopStep step
  | join step => exact .idle (apart_joinStep step)

end Steps

end FeatureFlags
