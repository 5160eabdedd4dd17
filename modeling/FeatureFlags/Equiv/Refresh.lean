import FeatureFlags.Equiv.Activation

/-!
# Steps of `Refresh`

`Refresh` coalesces its callers into flights.

* `FleetThread.refreshing`: the call of `Refresh` that a thread is in, directly or inside another
  method.  No other code touches the flights (`FleetSteps.stepsRefresh`).
* `RefreshMoves`: what a step of the call does to them, one case for each kind.
-/

namespace FeatureFlags

open Go Lib

variable {κ : Type} {config : FleetConfig} {o : Outside κ} {f f' : Fleet κ}

/-! ### Calls of `Refresh` -/

/-- The call of `Refresh` that a thread is in. -/
def FleetThread.refreshing (thread : FleetThread κ) : Option (RefreshStage κ) :=
  match thread.call with
  | some (.refresh stage) => some stage
  | _ => none

def refreshOf : Progress (RefreshStage κ) (RefreshResult κ × Option GoError) →
    Option (RefreshStage κ)
  | .running stage => some stage
  | .finished _ => none

def FleetInner.refreshing : FleetInner κ → Option (RefreshStage κ)
  | .refresh stage => some stage
  | _ => none

theorem FleetThread.refreshing_eq (thread : FleetThread κ) :
    thread.refreshing = thread.inner.bind FleetInner.refreshing := by
  unfold FleetThread.refreshing
  rw [thread.call_eq]
  rcases thread.inner with _ | _ | _ | _ <;> rfl

/-! ### Steps that leave the flights alone -/

section Frame

theorem refresh_now (f : Fleet κ) (clock : Time) : (f.now clock).2.refresh = f.refresh :=
  congrArg Fleet.Flights.refresh (f.apart_now clock).flights

theorem flightFields_loadStep {stage : LoadStage κ} {p}
    (h : loadStep config o f stage = some (f', p)) : f'.flightFields = f.flightFields := by
  obtain ⟨_, _, _, rfl⟩ := loadStep_frame h
  rfl

variable [CustomStrategy κ] [Runtime]

theorem flightFields_activateStep {allowStale : Bool} {stage : ActivateStage κ} {p}
    (h : activateStep config o allowStale f stage = some (f', p)) :
    f'.flightFields = f.flightFields := by
  obtain ⟨_, _, _, _, rfl⟩ := activateStep_frame h
  rfl

theorem flightFields_bootstrapStep {stage : BootstrapStage κ} {p}
    (h : bootstrapStep config o f stage = some (f', p)) : f'.flightFields = f.flightFields := by
  cases stage <;> simp only [bootstrapStep] at h
  case entering => split_ifs at h <;> cases h <;> rfl
  case loading =>
    obtain ⟨q, hq, -⟩ := Progress.inside_eq_some.mp h
    exact flightFields_loadStep hq
  case activating | reviving =>
    obtain ⟨q, hq, -⟩ := Progress.inside_eq_some.mp h
    exact flightFields_activateStep hq
  case recovering => split at h <;> cases h <;> rfl
  case storing | rejecting | recording | leaving => cases h; rfl

end Frame

/-! ### Threads -/

section Threads

/-- A new thread is at the start of its call, if it is in one. -/
theorem refreshing_start {request : FleetRequest} {stage : RefreshStage κ}
    (h : (FleetRequest.thread config request : FleetThread κ).refreshing = some stage) :
    stage = .observing := by
  cases request <;> simp only [FleetRequest.thread] at h
  case status => cases h
  all_goals split_ifs at h <;> cases h
  rfl

variable [CustomStrategy κ] [Runtime]

/-- A step inside a call of `Refresh` is a step of it.  Any other step leaves the flights alone, and
at most enters a call. -/
def StepsRefresh (config : FleetConfig) (o : Outside κ) (f f' : Fleet κ)
    (before after : Option (RefreshStage κ)) : Prop :=
  (∃ stage p, before = some stage ∧ refreshStep config o f stage = some (f', p) ∧
    after = refreshOf p) ∨
  before = none ∧ f'.flightFields = f.flightFields ∧ ∀ stage, after = some stage →
    stage = .observing

variable {thread thread' : FleetThread κ} {spawned : List (FleetThread κ)}
  (h : FleetSteps config o f f' thread thread' spawned)
include h

theorem FleetSteps.stepsRefresh :
    StepsRefresh config o f f' thread.refreshing thread'.refreshing := by
  have hmoves := h.moves
  rw [thread.refreshing_eq, thread'.refreshing_eq]
  generalize thread.inner = before at hmoves ⊢
  generalize thread'.inner = after at hmoves ⊢
  cases hmoves with
  | bootstrap step =>
    rename_i p
    refine .inr ⟨rfl, flightFields_bootstrapStep step, ?_⟩
    cases p <;> rintro _ ⟨⟩
  | refresh step =>
    rename_i stage p
    refine .inl ⟨stage, p, rfl, step, ?_⟩
    cases p <;> rfl
  | classify hf begins =>
    refine .inr ⟨rfl, by rw [hf, f.flightFields_invalidate], fun stage hstage => ?_⟩
    obtain ⟨inner, hinner, hstage⟩ := Option.mem_bind_iff.mp hstage
    cases begins inner hinner
    cases hstage
    rfl
  | apart h begins =>
    refine .inr ⟨rfl, h.flights, fun stage hstage => ?_⟩
    obtain ⟨inner, hinner, hstage⟩ := Option.mem_bind_iff.mp hstage
    have hbegins := begins inner hinner
    cases inner with
    | refresh => cases hstage; exact hbegins
    | bootstrap | classify => cases hstage

theorem FleetSteps.refreshing_spawned
    {u : FleetThread κ} (hu : u ∈ spawned) : u.refreshing = none := by
  unfold FleetThread.refreshing
  rw [h.call_spawned hu]

end Threads

/-! ### Steps of `Refresh` -/

namespace FlightStage

/-- The next step of the leader is the call of `load`. -/
def entersLoad : FlightStage κ → Bool
  | .loading _ .entering => true
  | _ => false

/-- The leader has called `load`. -/
def loaded : FlightStage κ → Bool
  | .reading => false
  | .loading _ .entering => false
  | _ => true

/-- The leader has not published the result of the flight. -/
def inFlight : FlightStage κ → Bool
  | .leaving _ _ => false
  | _ => true

/-- The next step of the leader publishes the result. -/
def publishes : FlightStage κ → Bool
  | .publishing _ _ _ => true
  | _ => false

/-- The result of the flight, when there is one. -/
def result? : FlightStage κ → Option (RefreshResult κ)
  | .storing result => some result
  | .completing result _ => some result
  | .publishing result _ _ => some result
  | .leaving result _ => some result
  | _ => none

end FlightStage

section Moves

theorem disposition_afterFlightLoad {previous : Option (ActiveSnapshot κ)} {answer r}
    (h : (afterFlightLoad previous answer).result? = some r) : r.disposition ≠ .deferred := by
  cases answer <;> cases h
  rintro ⟨⟩

theorem disposition_afterFlightActivate {previous : Option (ActiveSnapshot κ)} {result r}
    (h : (afterFlightActivate config previous result).result? = some r) :
    r.disposition ≠ .deferred := by
  cases result with
  | error err =>
    cases h
    rintro ⟨⟩
  | ok active =>
    have hr : r = ⟨some active, refreshDisposition previous active, false⟩ := by
      unfold afterFlightActivate at h
      dsimp only at h
      split_ifs at h <;> cases h <;> rfl
    rw [hr]
    show refreshDisposition previous active ≠ .deferred
    unfold refreshDisposition
    split
    · split_ifs <;> rintro ⟨⟩
    · rintro ⟨⟩

variable [CustomStrategy κ] [Runtime]

variable (config : FleetConfig) (o : Outside κ) (f f' : Fleet κ) in
/-- What a step of `Refresh` does to the flights. -/
inductive RefreshMoves : RefreshStage κ →
    Progress (RefreshStage κ) (RefreshResult κ × Option GoError) → Prop
  | observes (after : f' = (f.now o.clock).2) :
      RefreshMoves .observing (.running (.entering (f.now o.clock).1))
  | refused (now : Time) (err : GoError) (after : f' = f) :
      RefreshMoves (.entering now) (.finished (.zero, some err))
  | attaches (now : Time) {flight : Nat} (flying : f.refresh = some flight)
      (room : f.waiters < config.maxWaiters) (after : f' = { f with waiters := f.waiters + 1 }) :
      RefreshMoves (.entering now) (.running (.waiting flight))
  | defers (now : Time) (after : f' = f) :
      RefreshMoves (.entering now) (.finished (⟨f.active, .deferred, false⟩, none))
  | leads (now : Time) (idle : f.refresh = none)
      (spaced : f.lastRefreshAt.isZero ∨ config.minRefreshInterval ≤ boundedAge now f.lastRefreshAt)
      (after : f'.flightFields = ⟨some f.flights.length, f.flights ++ [none], f.waiters, now⟩) :
      RefreshMoves (.entering now) (.running (.leading f.flights.length .reading))
  | detaches (flight : Nat) {err : GoError} (cancelled : o.ctx = some err)
      (after : f' = { f with waiters := f.waiters - 1 }) :
      RefreshMoves (.waiting flight) (.finished (.zero, some err))
  | wakes {flight : Nat} {result : RefreshResult κ} {err : Option GoError}
      (cancelled : o.ctx = none) (landed : f.flights[flight]? = some (some (result, err)))
      (after : f' = { f with waiters := f.waiters - 1 }) :
      RefreshMoves (.waiting flight) (.finished ({ result with coalesced := true }, err))
  | flies (flight : Nat) {stage stage' : FlightStage κ}
      (inFlight : stage.inFlight = true ∧ stage'.inFlight = true)
      (unpublished : stage.publishes = false)
      (load : stage'.loaded = (stage.loaded || stage.entersLoad))
      (result : ∀ r, stage'.result? = some r → stage.result? = some r ∨ r.disposition ≠ .deferred)
      (after : f'.flightFields = f.flightFields) :
      RefreshMoves (.leading flight stage) (.running (.leading flight stage'))
  | lands (flight : Nat) (result : RefreshResult κ) (err : Option GoError) (completedAt : Time)
      (after : f'.flightFields =
        ⟨none, f.flights.set flight (some (result, err)), f.waiters, f.lastRefreshAt⟩) :
      RefreshMoves (.leading flight (.publishing result err completedAt))
        (.running (.leading flight (.leaving result err)))
  | leaves (flight : Nat) (result : RefreshResult κ) (err : Option GoError)
      (after : f'.flightFields = f.flightFields) :
      RefreshMoves (.leading flight (.leaving result err)) (.finished (result, err))

/-- A step of the leader before the result is published. -/
theorem refreshMoves_flightStep {flight : Nat} {stage : FlightStage κ} {p}
    (h : flightStep config o flight f stage = some (f', p)) :
    RefreshMoves config o f f' (.leading flight stage) (p.lift (.leading flight) .finished) := by
  cases stage <;> simp only [flightStep] at h
  case reading =>
    cases h
    exact .flies flight ⟨rfl, rfl⟩ rfl rfl (by rintro _ ⟨⟩) rfl
  case loading previous stage =>
    obtain ⟨q, hq, rfl⟩ := Progress.inside_eq_some.mp h
    have hfields := flightFields_loadStep hq
    cases q with
    | running stage' =>
      refine .flies flight ⟨rfl, rfl⟩ rfl ?_ (by rintro _ ⟨⟩) hfields
      -- `load` is entered once, and then executes
      cases stage with
      | entering =>
        simp only [loadStep] at hq
        split_ifs at hq <;> cases hq
        rfl
      | executing operations =>
        simp only [loadStep] at hq
        split at hq
        · split_ifs at hq
          cases hq
          rfl
        · split at hq
          · cases hq
          · obtain ⟨x, -, hx⟩ := Option.map_eq_some_iff.mp hq
            cases hx
            rfl
        · obtain ⟨answer, -, hx⟩ := Option.map_eq_some_iff.mp hq
          cases hx
    | finished answer =>
      refine .flies flight ⟨rfl, ?_⟩ rfl ?_ (fun r hr => .inr (disposition_afterFlightLoad hr))
        hfields
      · cases answer <;> rfl
      · cases stage <;> cases answer <;> rfl
  case activating previous stage =>
    obtain ⟨q, hq, rfl⟩ := Progress.inside_eq_some.mp h
    have hfields := flightFields_activateStep hq
    cases q with
    | running stage' => exact .flies flight ⟨rfl, rfl⟩ rfl rfl (by rintro _ ⟨⟩) hfields
    | finished result =>
      have hstage : (afterFlightActivate config previous result).inFlight = true ∧
          (afterFlightActivate config previous result).loaded = true := by
        cases result with
        | error err => exact ⟨rfl, rfl⟩
        | ok active =>
          unfold afterFlightActivate
          dsimp only
          split_ifs <;> exact ⟨rfl, rfl⟩
      exact .flies flight ⟨rfl, hstage.1⟩ rfl hstage.2
        (fun r hr => .inr (disposition_afterFlightActivate hr)) hfields
  case storing result =>
    cases h
    exact .flies flight ⟨rfl, rfl⟩ rfl rfl (fun r hr => .inl hr) rfl
  case completing result err =>
    cases h
    exact .flies flight ⟨rfl, rfl⟩ rfl rfl (fun r hr => .inl hr) (f.apart_now o.clock).flights
  case publishing result err completedAt =>
    cases h
    obtain ⟨failure, state, -, heq⟩ := f.exists_publish config flight result err completedAt
      (classifyRefreshFailure config o.classified err)
    exact .lands flight result err completedAt (by rw [heq]; rfl)
  case leaving result err =>
    cases h
    exact .leaves flight result err rfl

theorem refreshMoves_of_refreshStep {stage : RefreshStage κ} {p}
    (h : refreshStep config o f stage = some (f', p)) : RefreshMoves config o f f' stage p := by
  cases stage <;> simp only [refreshStep] at h
  case observing =>
    cases h
    exact .observes rfl
  case entering now =>
    rcases f.enterRefresh_cases config now with
      ⟨err, heq⟩ | ⟨flight, hflight, hroom, heq⟩ | heq | ⟨-, hidle, hspaced, heq⟩ <;>
      rw [heq] at h <;> cases h
    · exact .refused now err rfl
    · exact .attaches now hflight hroom rfl
    · exact .defers now rfl
    · exact .leads now hidle hspaced rfl
  case waiting flight =>
    split at h
    · rename_i err hctx
      cases h
      exact .detaches flight hctx rfl
    · rename_i hctx
      split at h <;> cases h
      rename_i hlanded
      exact .wakes hctx hlanded rfl
  case leading flight stage =>
    obtain ⟨q, hq, rfl⟩ := Progress.inside_eq_some.mp h
    exact refreshMoves_flightStep hq

end Moves

end FeatureFlags
