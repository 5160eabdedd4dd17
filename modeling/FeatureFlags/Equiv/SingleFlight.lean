import FeatureFlags.Equiv.Refresh

/-!
# One flight at a time

`refresh_is_single_flight`: at most one flight is in progress, each makes one load, and a follower
gets what its own flight has returned.

The calls that lead a flight, and those that follow one, are counted by `refresh` and `waiters`
(`sum_flies_eq`, `waiters_eq`).  So the leader of the flight in progress is the only thread that can
land it, and what the calls know of their flights (`RefreshStage.Aboard`) is not broken by others.
-/

namespace FeatureFlags

open Go Lib

variable {κ : Type} {o : Outside κ} {f f' : Fleet κ}

/-! ### Counting -/

/-- The call leads a flight that has not landed. -/
def RefreshStage.flies : RefreshStage κ → Bool
  | .leading _ stage => stage.inFlight
  | _ => false

def RefreshStage.follows : RefreshStage κ → Bool
  | .waiting _ => true
  | _ => false

/-- The call leads this flight, has called `load`, and has not landed. -/
def RefreshStage.hasLoaded (flight : Nat) : RefreshStage κ → Bool
  | .leading flight' stage => flight' = flight && stage.inFlight && stage.loaded
  | _ => false

/-- The call leads this flight, and is about to call `load`. -/
def RefreshStage.loads (flight : Nat) : RefreshStage κ → Bool
  | .leading flight' stage => flight' = flight && stage.entersLoad
  | _ => false

/-- The thread leads a flight that is in progress. -/
def FleetThread.flies (thread : FleetThread κ) : Bool := thread.refreshing.any RefreshStage.flies

/-- The thread is a follower that is still attached. -/
def FleetThread.follows (thread : FleetThread κ) : Bool :=
  thread.refreshing.any RefreshStage.follows

/-- In this step the leader of the flight calls `load`. -/
def loadsFor (flight : Nat) (e : FleetMove κ) : Bool :=
  match e.action with
  | .call _ => false
  | .step id _ => e.before.threads[id]?.any fun thread =>
    thread.refreshing.any (RefreshStage.loads flight)

/-- What a thread weighs, if the calls of `Refresh` weigh `w`. -/
def FleetThread.refreshWeight {M : Type*} [Zero M] (w : RefreshStage κ → M)
    (thread : FleetThread κ) : M :=
  (thread.refreshing.map w).getD 0

variable {p : Progress (RefreshStage κ) (RefreshResult κ × Option GoError)}

theorem refreshWeight_eq {M : Type*} [Zero M] {w : RefreshStage κ → M} {thread : FleetThread κ}
    (h : thread.refreshing = refreshOf p) : thread.refreshWeight w = p.weight w := by
  rw [FleetThread.refreshWeight, h]
  cases p <;> rfl

theorem refreshWeight_toNat (p : RefreshStage κ → Bool) (thread : FleetThread κ) :
    thread.refreshWeight (fun stage => (p stage).toNat) = (thread.refreshing.any p).toNat := by
  unfold FleetThread.refreshWeight
  cases thread.refreshing <;> rfl

variable {id : Nat}

section Counting

variable {config : FleetConfig} {ts : List (FleetMove κ)} {s : FleetPool κ}
  {thread thread' : FleetThread κ} {spawned : List (FleetThread κ)} {M : Type*}
  [AddCancelCommMonoid M] {w : RefreshStage κ → M}

theorem refreshWeight_start (hw : w .observing = 0) (request : FleetRequest) :
    (FleetRequest.thread config request : FleetThread κ).refreshWeight w = 0 := by
  unfold FleetThread.refreshWeight
  cases h : (FleetRequest.thread config request : FleetThread κ).refreshing with
  | none => rfl
  | some stage =>
    rw [refreshing_start h]
    exact hw

theorem flies_le_sum {threads : List (FleetThread κ)} (h : threads[id]? = some thread) :
    thread.flies.toNat ≤ (threads.map fun thread => thread.flies.toNat).sum :=
  List.single_le_sum (by simp) _ (List.mem_map_of_mem (List.mem_of_getElem? h))

variable [CustomStrategy κ] [Runtime]

/-- The thread that steps weighs as much more as the counters say. -/
theorem FleetSteps.balance (h : FleetSteps config o f f' thread thread' spawned)
    (hw : w .observing = 0) {a b : M}
    (hrefresh : ∀ stage p, thread.refreshing = some stage → RefreshMoves config o f f' stage p →
      a + p.weight w = b + w stage)
    (hother : thread.refreshing = none → f'.flightFields = f.flightFields → a = b) :
    a + thread'.refreshWeight w + (spawned.map (FleetThread.refreshWeight w)).sum =
      b + thread.refreshWeight w := by
  have hspawned : (spawned.map (FleetThread.refreshWeight w)).sum = 0 := by
    refine List.sum_eq_zero fun weight hweight => ?_
    obtain ⟨u, hu, rfl⟩ := List.mem_map.mp hweight
    rw [FleetThread.refreshWeight, h.refreshing_spawned hu]
    rfl
  rw [hspawned, add_zero]
  rcases h.stepsRefresh with ⟨stage, p, hstage, hstep, hafter⟩ | ⟨hnone, hsame, hafter⟩
  · rw [refreshWeight_eq hafter, FleetThread.refreshWeight, hstage]
    exact hrefresh stage p hstage (refreshMoves_of_refreshStep hstep)
  · have hthread : thread.refreshWeight w = 0 := by
      rw [FleetThread.refreshWeight, hnone]
      rfl
    have hthread' : thread'.refreshWeight w = 0 := by
      unfold FleetThread.refreshWeight
      cases hrefreshing : thread'.refreshing with
      | none => rfl
      | some stage =>
        rw [hafter stage hrefreshing]
        exact hw
    rw [hthread, hthread', hother hnone hsame]

variable (run : FleetRun config ts s)
include run

/-- There is a flight in progress iff `refresh` is set. -/
theorem sum_flies_eq :
    (s.threads.map fun thread => thread.flies.toNat).sum = s.shared.refresh.isSome.toNat := by
  refine Program.Run.census (fun thread => thread.flies.toNat) (fun f => f.refresh.isSome.toNat)
    run rfl ?_ ?_
  · intro request
    rw [FleetThread.flies, ← refreshWeight_toNat]
    exact refreshWeight_start (w := fun stage => stage.flies.toNat) rfl request
  · intro k e id o thread thread' spawned _ hsum hthread heq
    have hle : thread.flies.toNat ≤ e.before.shared.refresh.isSome.toNat :=
      hsum ▸ flies_le_sum hthread
    have hsteps := steps_of_fleetStep heq
    generalize e.before.shared = f at *
    generalize e.after.shared = f' at *
    have hbalance := hsteps.balance (w := fun stage => stage.flies.toNat) rfl
      (a := f.refresh.isSome.toNat) (b := f'.refresh.isSome.toNat) ?_ ?_
    · simp only [refreshWeight_toNat, funext (refreshWeight_toNat RefreshStage.flies)] at hbalance
      exact hbalance.symm
    · intro stage p hstage hmoves
      rw [FleetThread.flies, hstage] at hle
      cases hmoves with
      | observes after =>
        rw [congrArg Fleet.refresh after, refresh_now]
        rfl
      | refused _ _ after | defers _ after
      | attaches _ _ _ after | detaches _ _ after | wakes _ _ after =>
        rw [after]
        rfl
      | leads _ idle _ after =>
        rw [idle, show f'.refresh = _ from congrArg Fleet.Flights.refresh after]
        rfl
      | flies flight inFlight _ _ _ after =>
        rw [show f'.refresh = f.refresh from congrArg Fleet.Flights.refresh after]
        simp only [Progress.weight, RefreshStage.flies, inFlight.1, inFlight.2]
      | lands _ _ _ _ after =>
        -- This thread leads the flight, so `refresh` is set.
        have hset : f.refresh.isSome.toNat = 1 := Nat.le_antisymm (Bool.toNat_le _) hle
        rw [hset, show f'.refresh = none from congrArg Fleet.Flights.refresh after]
        rfl
      | leaves _ _ _ after =>
        rw [show f'.refresh = f.refresh from congrArg Fleet.Flights.refresh after]
        rfl
    · intro _ hsame
      rw [show f'.refresh = f.refresh from congrArg Fleet.Flights.refresh hsame]

theorem countP_flies_le : s.threads.countP FleetThread.flies ≤ 1 := by
  rw [Program.Run.countP_eq_sum, sum_flies_eq run]
  exact Bool.toNat_le _

/-- The counter of the waiters is the number of the followers. -/
theorem waiters_eq : s.shared.waiters = s.threads.countP FleetThread.follows := by
  have hweight (thread : FleetThread κ) :
      thread.refreshWeight (fun stage => (stage.follows.toNat : Int)) = thread.follows.toNat := by
    unfold FleetThread.refreshWeight FleetThread.follows
    cases thread.refreshing <;> rfl
  have hsum := Program.Run.census (fun thread => (thread.follows.toNat : Int)) Fleet.waiters run rfl
    ?_ ?_
  · rw [← hsum, Program.Run.countP_eq_sum, Nat.cast_list_sum, List.map_map]
    rfl
  · intro request
    rw [← hweight]
    exact refreshWeight_start (w := fun stage => (stage.follows.toNat : Int)) rfl request
  · intro k e id o thread thread' spawned _ _ hthread heq
    have hsteps := steps_of_fleetStep heq
    generalize e.before.shared = f at *
    generalize e.after.shared = f' at *
    have hbalance := hsteps.balance (w := fun stage => (stage.follows.toNat : Int)) rfl
      (a := f.waiters) (b := f'.waiters) ?_ ?_
    · simp only [hweight, funext hweight] at hbalance
      exact hbalance.symm
    · intro stage p hstage hmoves
      cases hmoves with
      | observes after =>
        rw [after, show (f.now o.clock).2.waiters = f.waiters from
          congrArg Fleet.Flights.waiters (f.apart_now o.clock).flights]
        rfl
      | refused _ _ after | defers _ after =>
        rw [after]
        rfl
      | attaches _ _ _ after =>
        rw [after]
        exact (add_zero _).symm
      | detaches _ _ after | wakes _ _ after =>
        rw [after]
        show f.waiters + 0 = f.waiters - 1 + 1
        omega
      | leads _ _ _ after | flies _ _ _ _ _ after | lands _ _ _ _ after | leaves _ _ _ after =>
        rw [show f'.waiters = f.waiters from congrArg Fleet.Flights.waiters after]
        rfl
    · intro _ hsame
      exact (congrArg Fleet.Flights.waiters hsame).symm

/-- No follower is admitted beyond the limit. -/
theorem waiters_le (hmax : 0 ≤ config.maxWaiters) : s.shared.waiters ≤ config.maxWaiters := by
  refine Program.Run.shared_invariant (fun f => f.waiters ≤ config.maxWaiters) run hmax ?_
  intro o f thread f' thread' spawned hle heq
  rcases (steps_of_fleetStep heq).stepsRefresh with ⟨stage, p, -, hstep, -⟩ | ⟨-, hsame, -⟩
  · cases refreshMoves_of_refreshStep hstep with
    | observes after =>
      rw [after, show (f.now o.clock).2.waiters = f.waiters from
        congrArg Fleet.Flights.waiters (f.apart_now o.clock).flights]
      exact hle
    | refused _ _ after | defers _ after => rwa [after]
    | attaches _ _ room after =>
      rw [after]
      exact room
    | detaches _ _ after | wakes _ _ after =>
      rw [after]
      show f.waiters - 1 ≤ config.maxWaiters
      omega
    | leads _ _ _ after | flies _ _ _ _ _ after | lands _ _ _ _ after | leaves _ _ _ after =>
      rwa [show f'.waiters = f.waiters from congrArg Fleet.Flights.waiters after]
  · rwa [show f'.waiters = f.waiters from congrArg Fleet.Flights.waiters hsame]

end Counting

/-! ### What a call knows of its flight -/

/-- The flight that is in progress has no result. -/
def Fleet.Airborne (f : Fleet κ) : Prop :=
  ∀ flight, f.refresh = some flight → f.flights[flight]? = some none

/-- What a call of `Refresh` knows of its flight. -/
def RefreshStage.Aboard (f : Fleet κ) : RefreshStage κ → Prop
  | .leading flight (.leaving result err) => f.flights[flight]? = some (some (result, err))
  | .leading flight _ => f.refresh = some flight
  | .waiting flight => f.refresh = some flight ∨ ∃ r, f.flights[flight]? = some (some r)
  | _ => True

variable {flight : Nat}

theorem RefreshStage.aboard_leading {f : Fleet κ} {stage : FlightStage κ}
    (hstage : stage.inFlight = true) :
    (RefreshStage.leading flight stage).Aboard f ↔ f.refresh = some flight := by
  cases stage with
  | leaving => cases hstage
  | _ => exact Iff.rfl

variable {stage : RefreshStage κ}

theorem RefreshStage.Aboard.congr {f f' : Fleet κ} (h : stage.Aboard f)
    (hrefresh : f'.refresh = f.refresh) (hflights : f'.flights = f.flights) : stage.Aboard f' := by
  unfold Aboard at h ⊢
  rw [hrefresh, hflights]
  exact h

variable {r : RefreshResult κ × Option GoError}

section Aboard

variable {config : FleetConfig}

section

variable (h : RefreshMoves config o f f' stage p)
include h

theorem RefreshMoves.flights :
    (f'.refresh = f.refresh ∧ f'.flights = f.flights) ∨
    (f.refresh = none ∧ f'.refresh = some f.flights.length ∧ f'.flights = f.flights ++ [none]) ∨
    ∃ flight result err completedAt, stage = .leading flight (.publishing result err completedAt) ∧
      f'.refresh = none ∧ f'.flights = f.flights.set flight (some (result, err)) := by
  have hof {g : Fleet.Flights κ} (h : f'.flightFields = g) :
      f'.refresh = g.refresh ∧ f'.flights = g.flights := ⟨h ▸ rfl, h ▸ rfl⟩
  cases h with
  | observes after => exact .inl (hof (after ▸ (f.apart_now o.clock).flights))
  | refused _ _ after | defers _ after | attaches _ _ _ after | detaches _ _ after
  | wakes _ _ after => exact .inl (after ▸ ⟨rfl, rfl⟩)
  | flies _ _ _ _ _ after | leaves _ _ _ after => exact .inl (hof after)
  | leads _ idle _ after => exact .inr (.inl ⟨idle, hof after⟩)
  | lands flight result err completedAt after =>
    exact .inr (.inr ⟨flight, result, err, completedAt, rfl, hof after⟩)

/-- A result that has been published stays. -/
theorem RefreshMoves.landed (hf : f.Airborne) (hstage : stage.Aboard f)
    (hflight : f.flights[flight]? = some (some r)) : f'.flights[flight]? = some (some r) := by
  rcases h.flights with ⟨-, h⟩ | ⟨-, -, h⟩ | ⟨flight', result, err, completedAt, rfl, -, h⟩ <;>
    rw [h]
  · exact hflight
  · rw [List.getElem?_append_left (List.getElem?_eq_some_iff.mp hflight).1, hflight]
  · -- The flight that lands had no result before.
    have hne : flight' ≠ flight := by
      rintro rfl
      cases (hf flight' hstage).symm.trans hflight
    rw [List.getElem?_set_ne hne, hflight]

theorem RefreshMoves.airborne (hf : f.Airborne) : f'.Airborne := by
  intro flight hflight
  rcases h.flights with ⟨hrefresh, h⟩ | ⟨-, hrefresh, h⟩ | ⟨_, _, _, _, -, hrefresh, h⟩ <;>
    rw [hrefresh] at hflight <;> rw [h]
  · exact hf flight hflight
  · cases hflight
    simp
  · cases hflight

end

/-- What the call itself knows after its step. -/
theorem RefreshMoves.aboard {stage' : RefreshStage κ}
    (h : RefreshMoves config o f f' stage (.running stage')) (hf : f.Airborne)
    (hstage : stage.Aboard f) : stage'.Aboard f' := by
  cases h with
  | observes => trivial
  | attaches _ flying _ after =>
    rw [after]
    exact .inl flying
  | leads _ _ _ after => exact congrArg Fleet.Flights.refresh after
  | flies flight inFlight _ _ _ after =>
    rw [RefreshStage.aboard_leading inFlight.1] at hstage
    rw [RefreshStage.aboard_leading inFlight.2,
      show f'.refresh = f.refresh from congrArg Fleet.Flights.refresh after]
    exact hstage
  | lands flight result err completedAt after =>
    have hlt : flight < f.flights.length := (List.getElem?_eq_some_iff.mp (hf flight hstage)).1
    show f'.flights[flight]? = some (some (result, err))
    rw [show f'.flights = f.flights.set flight (some (result, err)) from
      congrArg Fleet.Flights.flights after, List.getElem?_set_self hlt]

/-- What the other calls know, if no two calls lead a flight at a time. -/
theorem RefreshMoves.aboard_other {other : RefreshStage κ}
    (h : RefreshMoves config o f f' stage p) (hf : f.Airborne) (hstage : stage.Aboard f)
    (hother : other.Aboard f) (hexcl : ¬ (stage.flies = true ∧ other.flies = true)) :
    other.Aboard f' := by
  have hlanded {flight : Nat} {r : RefreshResult κ × Option GoError}
      (hr : f.flights[flight]? = some (some r)) : f'.flights[flight]? = some (some r) :=
    h.landed hf hstage hr
  rcases h.flights with ⟨hrefresh, h⟩ | ⟨idle, -, -⟩ | ⟨flight, result, err, completedAt, rfl, -, h⟩
  · exact hother.congr hrefresh h
  · -- No flight was in progress, so what is known is a result.
    unfold RefreshStage.Aboard at hother ⊢
    split at hother
    · exact hlanded hother
    · simp [idle] at hother
    · rcases hother with hother | ⟨r, hr⟩
      · simp [idle] at hother
      · exact .inr ⟨r, hlanded hr⟩
    · trivial
  · cases other with
    | observing | entering => trivial
    | waiting flight' =>
      rcases hother with hother | ⟨r, hr⟩
      · -- The flight that this call follows lands.
        obtain rfl : flight = flight' := Option.some.inj (hstage.symm.trans hother)
        have hlt := (List.getElem?_eq_some_iff.mp (hf flight hstage)).1
        refine .inr ⟨(result, err), ?_⟩
        rw [h, List.getElem?_set_self hlt]
      · exact .inr ⟨r, hlanded hr⟩
    | leading flight' stage' =>
      cases stage' with
      | leaving => exact hlanded hother
      | _ => exact absurd ⟨rfl, rfl⟩ hexcl

variable [CustomStrategy κ] [Runtime] {ts : List (FleetMove κ)} {s : FleetPool κ}

/-- What the calls know of their flights, in every run. -/
theorem aboard_of_run (run : FleetRun config ts s) :
    s.shared.Airborne ∧ ∀ thread ∈ s.threads, ∀ stage, thread.refreshing = some stage →
      stage.Aboard s.shared := by
  refine Program.Run.exclusive_invariant FleetThread.flies Fleet.Airborne
    (fun f thread => ∀ stage, thread.refreshing = some stage → stage.Aboard f) run
    (fun hk => countP_flies_le (run.upTo hk).1) ?_ ?_ ?_
  · rintro flight ⟨⟩
  · intro f request _ stage hstage
    rw [refreshing_start hstage]
    trivial
  · intro o f thread f' thread' spawned hf hthread heq
    have hsteps := steps_of_fleetStep heq
    have hspawned (u : FleetThread κ) (hu : u ∈ spawned) (stage : RefreshStage κ)
        (hstage : u.refreshing = some stage) : stage.Aboard f' := by
      rw [hsteps.refreshing_spawned hu] at hstage
      cases hstage
    rcases hsteps.stepsRefresh with ⟨stage, p, hstage, hstep, hafter⟩ | ⟨hnone, hsame, hafter⟩
    · have hmoves := refreshMoves_of_refreshStep hstep
      have hknows := hthread stage hstage
      refine ⟨hmoves.airborne hf, fun stage' hstage' => ?_, hspawned, ?_⟩
      · cases p with
        | finished => cases hafter.symm.trans hstage'
        | running =>
          cases hafter.symm.trans hstage'
          exact hmoves.aboard hf hknows
      · intro u hu hexcl other hother
        refine hmoves.aboard_other hf hknows (hu other hother) fun hboth => hexcl ?_
        simp [FleetThread.flies, hstage, hother, hboth.1, hboth.2]
    · have hrefresh : f'.refresh = f.refresh := congrArg Fleet.Flights.refresh hsame
      have hflights : f'.flights = f.flights := congrArg Fleet.Flights.flights hsame
      refine ⟨fun flight hflight => ?_, fun stage hstage => ?_, hspawned, ?_⟩
      · rw [hflights]
        exact hf flight (hrefresh ▸ hflight)
      · rw [hafter stage hstage]
        trivial
      · intro u hu _ other hother
        exact (hu other hother).congr hrefresh hflights

end Aboard

/-! ### Loads -/

/-- The flight has a result. -/
def Fleet.Flights.landed (flights : Fleet.Flights κ) (flight : Nat) : Bool :=
  flights.flights[flight]?.join.isSome

section Loads

variable {config : FleetConfig}

theorem loaded_of_flies {stage stage' : FlightStage κ}
    (load : stage'.loaded = (stage.loaded || stage.entersLoad)) (b : Bool) :
    (b && stage'.loaded).toNat = (b && stage.entersLoad).toNat + (b && stage.loaded).toNat := by
  have hnot : stage.loaded = false ∨ stage.entersLoad = false := by
    unfold FlightStage.loaded FlightStage.entersLoad
    split <;> simp
  rw [load]
  rcases hnot with h | h <;> rw [h] <;> cases b <;> simp

theorem RefreshMoves.loads {stage : RefreshStage κ} {p} (h : RefreshMoves config o f f' stage p)
    (hf : f.Airborne) (hstage : stage.Aboard f) (flight : Nat) :
    (f'.flightFields.landed flight).toNat + p.weight (fun stage => (stage.hasLoaded flight).toNat) =
      (f.flightFields.landed flight).toNat + (stage.loads flight).toNat +
        (stage.hasLoaded flight).toNat := by
  cases h with
  | observes after =>
    rw [after, (f.apart_now o.clock).flights]
    rfl
  | refused _ _ after | defers _ after | attaches _ _ _ after | detaches _ _ after
  | wakes _ _ after =>
    rw [after]
    rfl
  | leads _ _ _ after =>
    have hnew : (f.flights ++ [none])[flight]?.join = f.flights[flight]?.join := by
      rw [List.getElem?_append]
      split_ifs with hlt
      · rfl
      · rw [List.getElem?_eq_none (Nat.not_lt.mp hlt)]
        rcases flight - f.flights.length with _ | n <;> rfl
    have hlanded : f'.flightFields.landed flight = f.flightFields.landed flight := by
      rw [after, Fleet.Flights.landed, hnew]
      rfl
    rw [hlanded]
    simp [Progress.weight, RefreshStage.hasLoaded, RefreshStage.loads, FlightStage.loaded]
  | flies flight' inFlight _ load _ after =>
    rw [after, add_assoc]
    simp only [Progress.weight, RefreshStage.hasLoaded, RefreshStage.loads, inFlight.1, inFlight.2,
      Bool.and_true, loaded_of_flies load]
  | lands flight' result err completedAt after =>
    have hnone := hf flight' hstage
    rw [after]
    by_cases hflight : flight' = flight
    · subst hflight
      have hlt := (List.getElem?_eq_some_iff.mp hnone).1
      simp [Fleet.Flights.landed, Fleet.flightFields, List.getElem?_set_self hlt, hnone,
        Progress.weight, RefreshStage.hasLoaded, RefreshStage.loads, FlightStage.inFlight,
        FlightStage.loaded, FlightStage.entersLoad]
    · simp [Fleet.Flights.landed, Fleet.flightFields, List.getElem?_set_ne hflight, hflight,
        Progress.weight, RefreshStage.hasLoaded, RefreshStage.loads]
  | leaves _ _ _ after =>
    rw [after]
    simp [Progress.weight, RefreshStage.hasLoaded, RefreshStage.loads, FlightStage.inFlight,
      FlightStage.entersLoad]

variable {ts : List (FleetMove κ)} {s : FleetPool κ}

theorem flies_of_hasLoaded (h : stage.hasLoaded flight = true) :
    ∃ stage', stage = .leading flight stage' ∧ stage'.inFlight = true := by
  unfold RefreshStage.hasLoaded at h
  split at h
  · simp only [Bool.and_eq_true, decide_eq_true_eq] at h
    obtain ⟨⟨rfl, hin⟩, -⟩ := h
    exact ⟨_, rfl, hin⟩
  · cases h

variable [CustomStrategy κ] [Runtime]

/-- The loads of a flight: none, or one that has been made by its leader, who may have landed. -/
theorem countP_loadsFor (run : FleetRun config ts s) (flight : Nat) :
    ts.countP (loadsFor flight) =
      s.threads.countP (fun thread => thread.refreshing.any (RefreshStage.hasLoaded flight)) +
        (s.shared.flightFields.landed flight).toNat := by
  rw [Program.Run.countP_eq_sum, Program.Run.countP_eq_sum]
  refine (Program.Run.ledger _ (fun f => (f.flightFields.landed flight).toNat) _ run rfl
    ?_ ?_ ?_).symm
  · intro request
    rw [← refreshWeight_toNat]
    exact refreshWeight_start (w := fun stage => (stage.hasLoaded flight).toNat) rfl request
  · intro e request haction
    rw [loadsFor, haction]
    rfl
  · intro k e id o thread thread' spawned hk haction hthread heq
    obtain ⟨hairborne, haboard⟩ := aboard_of_run (run.upTo hk).1
    have hadded : loadsFor flight e = thread.refreshing.any (RefreshStage.loads flight) := by
      rw [loadsFor, haction]
      simp only [hthread, Option.any_some]
    have hbalance := (steps_of_fleetStep heq).balance
      (w := fun stage => (stage.hasLoaded flight).toNat) rfl
      (a := (e.after.shared.flightFields.landed flight).toNat)
      (b := (e.before.shared.flightFields.landed flight).toNat + (loadsFor flight e).toNat) ?_ ?_
    · simp only [refreshWeight_toNat,
        funext (refreshWeight_toNat (RefreshStage.hasLoaded flight))] at hbalance
      exact hbalance.trans (add_right_comm _ _ _)
    · intro stage p hstage hmoves
      rw [hadded, hstage, Option.any_some]
      exact hmoves.loads hairborne (haboard thread (List.mem_of_getElem? hthread) stage hstage)
        flight
    · intro hnone hsame
      rw [hadded, hnone, hsame]
      rfl

theorem countP_loadsFor_le (run : FleetRun config ts s) (flight : Nat) :
    ts.countP (loadsFor flight) ≤ 1 ∧
      (s.shared.flightFields.landed flight = true → ts.countP (loadsFor flight) = 1) := by
  obtain ⟨hairborne, haboard⟩ := aboard_of_run run
  have hone : s.threads.countP (fun thread =>
      thread.refreshing.any (RefreshStage.hasLoaded flight)) ≤ 1 := by
    refine le_trans (List.countP_mono_left fun thread _ hthread => ?_) (countP_flies_le run)
    obtain ⟨stage, hstage, hloaded⟩ := (Option.any_eq_true _ _).mp hthread
    obtain ⟨stage', rfl, hin⟩ := flies_of_hasLoaded hloaded
    simp [FleetThread.flies, hstage, RefreshStage.flies, hin]
  rw [countP_loadsFor run flight]
  cases hlanded : s.shared.flightFields.landed flight with
  | false => exact ⟨hone, by rintro ⟨⟩⟩
  | true =>
    -- Nobody flies a flight that has landed.
    have hzero : s.threads.countP (fun thread =>
        thread.refreshing.any (RefreshStage.hasLoaded flight)) = 0 := by
      refine List.countP_eq_zero.mpr fun thread hthread hany => ?_
      obtain ⟨stage, hstage, hloaded⟩ := (Option.any_eq_true _ _).mp hany
      obtain ⟨stage', rfl, hin⟩ := flies_of_hasLoaded hloaded
      have hflying := (RefreshStage.aboard_leading hin).mp (haboard thread hthread _ hstage)
      have hnone : s.shared.flightFields.flights[flight]? = some none := hairborne flight hflying
      rw [Fleet.Flights.landed, hnone] at hlanded
      cases hlanded
    rw [hzero]
    exact ⟨le_rfl, fun _ => rfl⟩

end Loads

/-! ### Followers -/

/-- The thread `id` is a follower of this flight. -/
def Waits (s : FleetPool κ) (id flight : Nat) : Prop :=
  ∃ thread, s.threads[id]? = some thread ∧ thread.refreshing = some (.waiting flight)

/-- In this step the call of `Refresh` in the thread `id` attaches to the flight that is in
progress. -/
structure Attaches (e : FleetMove κ) (id flight : Nat) : Prop where
  action : ∃ o, e.action = .step id o
  before : ∃ thread now, e.before.threads[id]? = some thread ∧
    thread.refreshing = some (.entering now)
  flying : e.before.shared.refresh = some flight
  after : Waits e.after id flight

/-- In this step the thread `id`, which leads the flight, publishes its result. -/
structure Lands (e : FleetMove κ) (id flight : Nat) (result : RefreshResult κ)
    (err : Option GoError) : Prop where
  action : ∃ o, e.action = .step id o
  before : ∃ thread completedAt, e.before.threads[id]? = some thread ∧
    thread.refreshing = some (.leading flight (.publishing result err completedAt))

/-- In this step the call of `Refresh` in the thread `id` returns. -/
structure RefreshReturns [CustomStrategy κ] [Runtime] (config : FleetConfig) (e : FleetMove κ)
    (id : Nat) (stage : RefreshStage κ) (o : Outside κ)
    (outcome : RefreshResult κ × Option GoError) : Prop where
  action : e.action = .step id o
  before : ∃ thread, e.before.threads[id]? = some thread ∧ thread.refreshing = some stage
  step : refreshStep config o e.before.shared stage = some (e.after.shared, .finished outcome)

/-- The call of `Refresh` in the thread `id`, which returns in the step `k`, gets the result of the
flight that it has followed since it attached to it.  The result was published once, after the call
had attached. -/
def GetsResult (ts : List (FleetMove κ)) (k id flight : Nat)
    (outcome : RefreshResult κ × Option GoError) : Prop :=
  ∃ (i j : Nat) (e₁ e₂ : FleetMove κ) (leader : Nat) (result : RefreshResult κ),
    i < j ∧ j < k ∧ ts[i]? = some e₁ ∧ Attaches e₁ id flight ∧
    (∀ (m : Nat) (e : FleetMove κ), i < m → m ≤ k → ts[m]? = some e → Waits e.before id flight) ∧
    ts[j]? = some e₂ ∧ Lands e₂ leader flight result outcome.2 ∧
    outcome.1 = { result with coalesced := true } ∧
    ∀ (j' : Nat) (e : FleetMove κ) (leader' : Nat) (result' : RefreshResult κ)
      (err : Option GoError), ts[j']? = some e → Lands e leader' flight result' err → j' = j

/-- What coalescing means for a run. -/
structure SingleFlight [CustomStrategy κ] [Runtime] (config : FleetConfig)
    (ts : List (FleetMove κ)) (s : FleetPool κ) : Prop where
  /-- At most one flight is in progress. -/
  oneFlight : s.threads.countP FleetThread.flies ≤ 1
  /-- A flight has called `load` once when it has landed, and never calls it again. -/
  oneLoad : ∀ flight, ts.countP (loadsFor flight) ≤ 1 ∧
    (s.shared.flightFields.landed flight = true → ts.countP (loadsFor flight) = 1)
  /-- The counter is the number of the followers that are attached. -/
  waiters : s.shared.waiters = s.threads.countP FleetThread.follows
  bounded : 0 ≤ s.shared.waiters ∧ s.shared.waiters ≤ config.maxWaiters
  /-- A follower waits for the flight in progress, or its next step returns the result. -/
  wakes : ∀ (id flight : Nat), Waits s id flight → s.shared.refresh = some flight ∨
    ∃ result err, s.shared.flights[flight]? = some (some (result, err)) ∧
      ∀ o : Outside κ, o.ctx = none → refreshStep config o s.shared (.waiting flight) =
        some ({ s.shared with waiters := s.shared.waiters - 1 },
          .finished ({ result with coalesced := true }, err))
  /-- A follower that is not cancelled gets the result of its flight. -/
  followers : ∀ (k : Nat) (e : FleetMove κ) (id flight : Nat) (o : Outside κ)
    (outcome : RefreshResult κ × Option GoError), ts[k]? = some e →
    RefreshReturns config e id (.waiting flight) o outcome → o.ctx = none →
    GetsResult ts k id flight outcome
  /-- So does the leader. -/
  leaders : ∀ (k : Nat) (e : FleetMove κ) (id flight : Nat) (stage : FlightStage κ)
    (o : Outside κ) (outcome : RefreshResult κ × Option GoError), ts[k]? = some e →
    RefreshReturns config e id (.leading flight stage) o outcome →
    ∃ (j : Nat) (e' : FleetMove κ) (leader : Nat), j < k ∧ ts[j]? = some e' ∧
      Lands e' leader flight outcome.1 outcome.2

variable {outcome : RefreshResult κ × Option GoError}

section Followers

variable [CustomStrategy κ] [Runtime] {config : FleetConfig} {ts : List (FleetMove κ)}
  {s : FleetPool κ} {k : Nat} {e : FleetMove κ}

section

variable (run : FleetRun config ts s)
include run

/-- A step of a call of `Refresh`, in a run. -/
theorem refreshMoves_at (hk : ts[k]? = some e) {o : Outside κ}
    (haction : e.action = .step id o) {thread : FleetThread κ}
    (hthread : e.before.threads[id]? = some thread) (hstage : thread.refreshing = some stage) :
    stage.Aboard e.before.shared ∧ ∃ p thread',
      RefreshMoves config o e.before.shared e.after.shared stage p ∧
      e.after.threads[id]? = some thread' ∧ thread'.refreshing = refreshOf p := by
  obtain ⟨thread₁, thread', spawned, hbefore, hafter, heq⟩ := run.step_at hk haction
  cases hbefore.symm.trans hthread
  have haboard := (aboard_of_run (run.upTo hk).1).2 thread (List.mem_of_getElem? hthread) stage
    hstage
  rcases (steps_of_fleetStep heq).stepsRefresh with ⟨stage₁, p, hstage₁, hstep, hp⟩ | ⟨hnone, -, -⟩
  · cases hstage₁.symm.trans hstage
    exact ⟨haboard, p, thread', refreshMoves_of_refreshStep hstep, hafter, hp⟩
  · cases hnone.symm.trans hstage

/-- A result that has been published stays, in a step of a run. -/
theorem landed_of_move (hk : ts[k]? = some e)
    (h : e.before.shared.flights[flight]? = some (some r)) :
    e.after.shared.flights[flight]? = some (some r) := by
  obtain ⟨hairborne, haboard⟩ := aboard_of_run (run.upTo hk).1
  have hmoves := run.moves hk
  obtain ⟨before, action, after⟩ := e
  dsimp only at *
  cases hmoves with
  | call request => exact h
  | step hthread heq =>
    rcases (steps_of_fleetStep heq).stepsRefresh with ⟨stage, p, hstage, hstep, -⟩ | ⟨-, hsame, -⟩
    · exact (refreshMoves_of_refreshStep hstep).landed hairborne
        (haboard _ (List.mem_of_getElem? hthread) stage hstage) h
    · exact (congrArg (·[flight]?) (congrArg Fleet.Flights.flights hsame)).trans h

/-- A step after which a flight has a result publishes it, if it was not there before. -/
theorem lands_of_move (hk : ts[k]? = some e)
    (hafter : e.after.shared.flights[flight]? = some (some r)) :
    e.before.shared.flights[flight]? = some (some r) ∨ ∃ id, Lands e id flight r.1 r.2 := by
  have hmoves := run.moves hk
  obtain ⟨before, action, after⟩ := e
  dsimp only at *
  cases hmoves with
  | call request => exact .inl hafter
  | step hthread heq =>
    rename_i id o thread thread' f' spawned
    rcases (steps_of_fleetStep heq).stepsRefresh with ⟨stage, p, hstage, hstep, -⟩ | ⟨-, hsame, -⟩
    · rcases (refreshMoves_of_refreshStep hstep).flights with ⟨-, h⟩ | ⟨-, -, h⟩ |
        ⟨flight', result, err, completedAt, rfl, -, h⟩ <;> rw [h] at hafter
      · exact .inl hafter
      · rw [List.getElem?_append] at hafter
        split_ifs at hafter
        · exact .inl hafter
        · have := List.mem_of_getElem? hafter
          simp at this
      · rw [List.getElem?_set] at hafter
        split_ifs at hafter with hflight
        · cases hafter
          exact .inr ⟨id, ⟨o, rfl⟩, thread, completedAt, hthread, hflight ▸ hstage⟩
        · exact .inl hafter
    · rw [show f'.flights = before.shared.flights from
        congrArg Fleet.Flights.flights hsame] at hafter
      exact .inl hafter

/-- The result of a flight has been published by its leader. -/
theorem exists_lands (h : s.shared.flights[flight]? = some (some r)) :
    ∃ (j : Nat) (e : FleetMove κ) (id : Nat), ts[j]? = some e ∧ Lands e id flight r.1 r.2 := by
  refine run.along (fun s => s.shared.flights[flight]? = some (some r) →
    ∃ (j : Nat) (e : FleetMove κ) (id : Nat), ts[j]? = some e ∧ Lands e id flight r.1 r.2) ?_ ?_ h
  · rintro ⟨⟩
  · intro k e hk hbefore hafter
    rcases lands_of_move run hk hafter with h | ⟨id, hlands⟩
    · exact hbefore h
    · exact ⟨k, e, id, hk, hlands⟩

/-- After it has been published the result is there, and before it is not. -/
theorem landed_of_lands (hk : ts[k]? = some e)
    {result} {err : Option GoError} (h : Lands e id flight result err) :
    e.before.shared.flights[flight]? = some none ∧
      e.after.shared.flights[flight]? = some (some (result, err)) := by
  obtain ⟨o, haction⟩ := h.action
  obtain ⟨thread, completedAt, hthread, hstage⟩ := h.before
  obtain ⟨haboard, p, thread', hmoves, hthread', hp⟩ :=
    refreshMoves_at run hk haction hthread hstage
  have hnone := (aboard_of_run (run.upTo hk).1).1 flight haboard
  refine ⟨hnone, ?_⟩
  cases hmoves with
  | flies _ _ unpublished => cases unpublished
  | lands _ _ _ _ after =>
    rw [show e.after.shared.flights = e.before.shared.flights.set flight (some (result, err)) from
      congrArg Fleet.Flights.flights after,
      List.getElem?_set_self (List.getElem?_eq_some_iff.mp hnone).1]

theorem landed_last (hk : ts[k]? = some e) (h : e.after.shared.flights[flight]? = some (some r)) :
    s.shared.flights[flight]? = some (some r) :=
  run.since (fun s => s.shared.flights[flight]? = some (some r)) hk h
    fun _ _ _ hj hbefore => landed_of_move run hj hbefore

/-- Between two steps of a run. -/
theorem landed_between {j : Nat} {e' : FleetMove κ} (hj : ts[j]? = some e) (hk : ts[k]? = some e')
    (hjk : j < k) (h : e.after.shared.flights[flight]? = some (some r)) :
    e'.before.shared.flights[flight]? = some (some r) := by
  refine landed_last (run.upTo hk).1 (k := j) ?_ h
  rw [List.getElem?_take_of_lt hjk, hj]

theorem lands_unique {j : Nat} {e' : FleetMove κ} (hj : ts[j]? = some e) (hk : ts[k]? = some e')
    {id' : Nat} {result result'} {err err' : Option GoError}
    (h : Lands e id flight result err) (h' : Lands e' id' flight result' err') : j = k := by
  rcases Nat.lt_trichotomy j k with hlt | heq | hlt
  · have hlanded := landed_between run hj hk hlt (landed_of_lands run hj h).2
    cases hlanded.symm.trans (landed_of_lands run hk h').1
  · exact heq
  · have hlanded := landed_between run hk hj hlt (landed_of_lands run hk h').2
    cases hlanded.symm.trans (landed_of_lands run hj h).1

/-- A follower has attached to its flight, and waits since then. -/
theorem exists_attaches (h : Waits s id flight) :
    ∃ (i : Nat) (e : FleetMove κ), ts[i]? = some e ∧ Attaches e id flight ∧
      ∀ (m : Nat) (e' : FleetMove κ), i < m → ts[m]? = some e' → Waits e'.before id flight := by
  induction run with
  | start =>
    obtain ⟨thread, hthread, -⟩ := h
    simp at hthread
  | snoc run next ih =>
    rename_i ts s t a
    obtain ⟨thread, hthread, hstage⟩ := h
    rcases (Program.moves_of_next next).origin hthread with hbefore |
      ⟨v, o, spawned, haction, hv, heq⟩ | ⟨request, -, rfl⟩ |
      ⟨j, v, o, v', spawned, -, -, -, heq, hu⟩
    · obtain ⟨i, e, hi, hattaches, hwaits⟩ := ih ⟨thread, hbefore, hstage⟩
      have hlt := (List.getElem?_eq_some_iff.mp hi).1
      refine ⟨i, e, by rw [List.getElem?_append_left hlt, hi], hattaches, fun m e' hm he' => ?_⟩
      rw [List.getElem?_append] at he'
      split_ifs at he'
      · exact hwaits m e' hm he'
      · cases List.mem_singleton.mp (List.mem_of_getElem? he')
        exact ⟨thread, hbefore, hstage⟩
    · rcases (steps_of_fleetStep heq).stepsRefresh with ⟨stage, p, hv', hstep, hp⟩ | ⟨-, -, hnew⟩
      · -- The only step that makes a call wait is the one that attaches it.
        have hmoves := refreshMoves_of_refreshStep hstep
        cases p with
        | finished => cases hp.symm.trans hstage
        | running stage' =>
          cases hp.symm.trans hstage
          cases hmoves with
          | attaches now flying =>
            refine ⟨ts.length, ⟨s, a, t⟩, by simp, ⟨⟨o, haction⟩, ⟨v, now, hv, hv'⟩, flying,
              ⟨thread, hthread, hstage⟩⟩, fun m e' hm he' => ?_⟩
            rw [List.getElem?_eq_none (by simp; omega)] at he'
            cases he'
      · cases hnew _ hstage
    · cases refreshing_start hstage
    · rw [(steps_of_fleetStep heq).refreshing_spawned hu] at hstage
      cases hstage

/-- A follower that wakes gets the result of the flight that it has attached to. -/
theorem getsResult_of_returns (hk : ts[k]? = some e) {o : Outside κ}
    (h : RefreshReturns config e id (.waiting flight) o outcome) (hctx : o.ctx = none) :
    GetsResult ts k id flight outcome := by
  have hwaits : Waits e.before id flight := h.before
  obtain ⟨i, e₁, hi, hattaches, hsince⟩ := exists_attaches (run.upTo hk).1 hwaits
  cases refreshMoves_of_refreshStep h.step with
  | detaches _ cancelled => cases cancelled.symm.trans hctx
  | wakes cancelled landed after =>
    rename_i result err
    obtain ⟨j, e₂, leader, hj, hlands⟩ := exists_lands (run.upTo hk).1 landed
    rw [List.getElem?_take] at hi hj
    split_ifs at hi hj with hik hjk
    have hij : i < j := by
      -- When the call attached, the flight had no result.
      have hnone := (aboard_of_run (run.upTo hi).1).1 flight hattaches.flying
      rcases Nat.lt_trichotomy i j with hlt | rfl | hlt
      · exact hlt
      · cases hi.symm.trans hj
        obtain ⟨o₁, haction₁⟩ := hattaches.action
        obtain ⟨o₂, haction₂⟩ := hlands.action
        cases haction₁.symm.trans haction₂
        obtain ⟨thread₁, now, hthread₁, hstage₁⟩ := hattaches.before
        obtain ⟨thread₂, completedAt, hthread₂, hstage₂⟩ := hlands.before
        cases hthread₁.symm.trans hthread₂
        cases hstage₁.symm.trans hstage₂
      · have hlanded := landed_between run hj hi hlt (landed_of_lands run hj hlands).2
        cases hlanded.symm.trans hnone
    refine ⟨i, j, e₁, e₂, leader, result, hij, hjk, hi, hattaches, ?_, hj, hlands, rfl, ?_⟩
    · intro m e' him hmk hm
      rcases Nat.eq_or_lt_of_le hmk with rfl | hlt
      · cases hk.symm.trans hm
        exact hwaits
      · exact hsince m e' him (by rw [List.getElem?_take_of_lt hlt, hm])
    · intro j' e' leader' result' err' hj' hlands'
      exact lands_unique run hj' hj hlands' hlands

/-- A leader returns the result of its flight. -/
theorem exists_lands_of_returns (hk : ts[k]? = some e) {stage : FlightStage κ} {o : Outside κ}
    (h : RefreshReturns config e id (.leading flight stage) o outcome) :
    ∃ (j : Nat) (e' : FleetMove κ) (leader : Nat), j < k ∧ ts[j]? = some e' ∧
      Lands e' leader flight outcome.1 outcome.2 := by
  obtain ⟨thread, hthread, hstage⟩ := h.before
  have haboard := (aboard_of_run (run.upTo hk).1).2 thread (List.mem_of_getElem? hthread) _ hstage
  cases refreshMoves_of_refreshStep h.step with
  | leaves =>
    obtain ⟨j, e', leader, hj, hlands⟩ := exists_lands (run.upTo hk).1 haboard
    rw [List.getElem?_take] at hj
    split_ifs at hj with hjk
    exact ⟨j, e', leader, hjk, hj, hlands⟩

end

/-- **`Refresh` is single-flight, with faithful followers**, however the callers interleave. -/
theorem refresh_is_single_flight {ord : MapOrder} {raw : FleetConfig}
    (accepted : newFleet ord raw = .ok config) (run : FleetRun config ts s) :
    SingleFlight config ts s where
  oneFlight := countP_flies_le run
  oneLoad := countP_loadsFor_le run
  waiters := waiters_eq run
  bounded := by
    refine ⟨?_, waiters_le run (newFleet_refreshBounds accepted).2.le⟩
    rw [waiters_eq run]
    exact Int.natCast_nonneg _
  wakes id flight hwaits := by
    obtain ⟨thread, hthread, hstage⟩ := hwaits
    rcases (aboard_of_run run).2 thread (List.mem_of_getElem? hthread) _ hstage with
      hflying | ⟨⟨result, err⟩, hlanded⟩
    · exact .inl hflying
    · refine .inr ⟨result, err, hlanded, fun o hctx => ?_⟩
      simp only [refreshStep, hctx, hlanded]
  followers k e id flight o outcome hk h hctx := getsResult_of_returns run hk h hctx
  leaders k e id flight stage o outcome hk h := exists_lands_of_returns run hk h

theorem refreshReturns_of_threads (run : FleetRun config ts s) (hk : ts[k]? = some e)
    {o : Outside κ} (haction : e.action = .step id o)
    (hbefore : e.before.threads[id]? = some (.refresh (.running stage)))
    (hafter : e.after.threads[id]? = some (.refresh (.finished outcome))) :
    RefreshReturns config e id stage o outcome := by
  obtain ⟨thread, thread', spawned, hthread, hthread', heq⟩ := run.step_at hk haction
  cases hthread.symm.trans hbefore
  cases hthread'.symm.trans hafter
  cases steps_of_fleetStep heq with
  | refresh step => exact ⟨haction, ⟨_, hbefore, rfl⟩, step⟩

end Followers

/-- A flight with a follower lands, and the next flight starts before the follower has noticed. -/
def overlap : List (Act FleetRequest (Outside Empty)) :=
  [.call (.refresh false)] ++ stepsAt 0 2 100 ++ [.call (.refresh false)] ++ stepsAt 1 2 100 ++
  stepsAt 0 1 100 ++ loadsAt 0 100 100 ++ stepsAt 0 4 100 ++
  [.call (.refresh false)] ++ stepsAt 2 2 200 ++ stepsAt 1 1 200

/-- The flight that the call follows. -/
def RefreshStage.followed : RefreshStage κ → Option Nat
  | .waiting flight => some flight
  | _ => none

/-- What the call of `Refresh` that is the thread `id` returns in this step, and from where. -/
def refreshReturned (e : FleetMove κ) (id : Nat) :
    Option (RefreshStage κ × RefreshResult κ × Option GoError) :=
  match e.before.threads[id]?, e.after.threads[id]? with
  | some (.refresh (.running stage)), some (.refresh (.finished outcome)) => some (stage, outcome)
  | _, _ => none

theorem threads_of_refreshReturned {e : FleetMove κ}
    (h : refreshReturned e id = some (stage, outcome)) :
    e.before.threads[id]? = some (.refresh (.running stage)) ∧
      e.after.threads[id]? = some (.refresh (.finished outcome)) := by
  unfold refreshReturned at h
  split at h
  · rename_i stage' outcome' hbefore hafter
    cases h
    exact ⟨hbefore, hafter⟩
  · cases h

/-- The follower of the flight 0 returns while the flight 1 is in progress. -/
theorem refresh_is_single_flight_overlap :
    letI := unaryRuntime
    ∃ (ts : List (FleetMove Empty)) (s : FleetPool Empty) (e : FleetMove Empty)
      (outcome : RefreshResult Empty × Option GoError), FleetRun sampleFleet ts s ∧
      ts[22]? = some e ∧ e.before.shared.refresh = some 1 ∧
      outcome.1.disposition = .activated ∧ GetsResult ts 22 1 0 outcome := by
  let _ := unaryRuntime
  obtain ⟨ts, s, run, hactions, hfacts⟩ := exists_fleetRun sampleFleet overlap
    (fun x => x.1[22]?.any fun e => e.before.shared.refresh = some 1 ∧
      (refreshReturned e 1).any fun x => x.1.followed = some 0 ∧ x.2.1.disposition = .activated)
    (by decide +kernel)
  simp only [Option.any_eq_true, decide_eq_true_eq] at hfacts
  obtain ⟨e, hk, hflying, ⟨stage, outcome⟩, hreturned, hfollowed, hdisposition⟩ := hfacts
  obtain ⟨hbefore, hafter⟩ := threads_of_refreshReturned hreturned
  obtain rfl : stage = .waiting 0 := by
    cases stage <;> cases hfollowed
    rfl
  have haction : e.action = .step 1 (outsideAt 200 .finish 0) := action_eq hactions hk rfl
  exact ⟨ts, s, e, outcome, run, hk, hflying, hdisposition,
    (refresh_is_single_flight accepted_sampleFleet run).followers 22 e 1 0 _ outcome hk
      (refreshReturns_of_threads run hk haction hbefore hafter) rfl⟩

end FeatureFlags
