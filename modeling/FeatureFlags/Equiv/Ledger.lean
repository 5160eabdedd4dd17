import FeatureFlags.Equiv.Activation

/-!
# Who writes the ledger of a fleet

The ledger is what a fleet counts and remembers about its loads and its invalidations.

* `FleetThread.task`: the call of `load` that a thread is in, directly or inside another method, or
  the section of `Invalidate` that it is about to enter.
* `StepsTask`, `FleetSteps.stepsTask`: only the steps of these two write the ledger.
-/

namespace FeatureFlags

open Go Lib

variable {κ : Type}

/-! ### Tasks -/

/-- A call of `load`, or the section of `Invalidate` for an event. -/
inductive FleetTask (κ : Type) where
  | load (stage : LoadStage κ)
  | classify (event : Invalidation) (now : Time)

/-- The call of `load` inside `Bootstrap`. -/
def BootstrapStage.task : BootstrapStage κ → Option (FleetTask κ)
  | .loading stage => some (.load stage)
  | _ => none

/-- The call of `load` inside `Refresh`. -/
def RefreshStage.task : RefreshStage κ → Option (FleetTask κ)
  | .leading _ (.loading _ stage) => some (.load stage)
  | _ => none

def InvalidateStage.task : InvalidateStage κ → Option (FleetTask κ)
  | .observing _ => none
  | .classifying event now => some (.classify event now)
  | .refreshing _ _ stage => stage.task

def FleetThread.task : FleetThread κ → Option (FleetTask κ)
  | .bootstrap (.running stage) => stage.task
  | .start (.running (.bootstrapping stage)) => stage.task
  | .refresh (.running stage) => stage.task
  | .invalidate (.running stage) => stage.task
  | .refreshLoop (.running (.refreshing stage)) => stage.task
  | .watchLoop (.running (.invalidating stage)) => stage.task
  | _ => none

def Callee.task : Callee κ → Option (FleetTask κ)
  | .load stage => some (.load stage)
  | .activate _ => none

def FleetInner.task : FleetInner κ → Option (FleetTask κ)
  | .bootstrap stage => stage.task
  | .refresh stage => stage.task
  | .classify event now => some (.classify event now)

theorem FleetInner.task_bootstrap (stage : BootstrapStage κ) :
    (FleetInner.bootstrap stage).task = (FleetCall.bootstrap stage).callee.bind Callee.task := by
  cases stage <;> rfl

theorem FleetInner.task_refresh (stage : RefreshStage κ) :
    (FleetInner.refresh stage).task = (FleetCall.refresh stage).callee.bind Callee.task := by
  cases stage <;> try rfl
  rename_i stage
  cases stage <;> rfl

theorem FleetThread.task_eq (thread : FleetThread κ) :
    thread.task = thread.inner.bind FleetInner.task := by
  rcases thread with (_ | _) | (_ | _) | (_ | _) | (_ | _) | (_ | _) | (_ | _) | (_ | _) |
    (_ | _) | (_ | _) | (_ | _) <;> try rfl
  all_goals rename_i stage; cases stage <;> try rfl
  rename_i stage
  cases stage <;> rfl

/-- The task of a function that may have returned. -/
def taskOf {α β : Type} (task : α → Option (FleetTask κ)) : Progress α β → Option (FleetTask κ)
  | .running stage => task stage
  | .finished _ => none

/-- A task that a thread may begin with: `load` at its start, or a valid event at a time that the
fleet has observed. -/
def FleetTask.Begins (config : FleetConfig) (f : Fleet κ) : FleetTask κ → Prop
  | .load stage => stage = .entering
  | .classify event now =>
    Fleet.invalidEvent config event = false ∧ now.nanos ≤ f.lastObservedAt.nanos

variable (config : FleetConfig) (o : Outside κ) (f f' : Fleet κ) in
/-- A step inside a task is a step of it.  Any other step leaves the ledger alone, and at most
begins a task. -/
inductive StepsTask : Option (FleetTask κ) → Option (FleetTask κ) → Prop
  | load {stage : LoadStage κ} {p}
      (step : loadStep config o f stage = some (f', p)) :
      StepsTask (some (.load stage)) (taskOf (fun stage => some (.load stage)) p)
  | classify {event : Invalidation} {now : Time} (after : f' = (f.invalidate config now event).2) :
      StepsTask (some (.classify event now)) none
  | other {after : Option (FleetTask κ)} (same : f'.ledger = f.ledger)
      (begins : ∀ task ∈ after, task.Begins config f') : StepsTask none after

/-! ### Steps of the methods -/

section Steps

variable {config : FleetConfig} {o : Outside κ} {f f' : Fleet κ}

theorem StepsTask.idle (h : f'.ledger = f.ledger) : StepsTask config o f f' none none :=
  .other h (by simp)

variable [CustomStrategy κ] [Runtime]

theorem ledger_activateStep {allowStale : Bool} {stage : ActivateStage κ} {p}
    (h : activateStep config o allowStale f stage = some (f', p)) : f'.ledger = f.ledger := by
  obtain ⟨_, _, _, _, rfl⟩ := activateStep_frame h
  rfl

theorem StepsTask.of_moves {allowStale : Bool} {ok : Prop} {before after : Option (Callee κ)}
    (h : CalleeMoves config o allowStale f f' ok before after) :
    StepsTask config o f f' (before.bind Callee.task) (after.bind Callee.task) := by
  cases h with
  | loads step => exact .load step
  | loaded step begins =>
    have hnone : after.bind Callee.task = none := by
      refine Option.bind_eq_none_iff.mpr fun callee hcallee => ?_
      obtain ⟨candidate, rfl⟩ := begins callee hcallee
      rfl
    rw [hnone]
    exact .load step
  | activates step => exact .idle (ledger_activateStep step)
  | activated step ended succeeds =>
    rw [ended]
    exact .idle (ledger_activateStep step)
  | other active ledger begins =>
    refine .other ledger fun task htask => ?_
    obtain ⟨callee, hcallee, htask⟩ := Option.mem_bind_iff.mp htask
    rcases begins callee hcallee with rfl | ⟨candidate, rfl⟩ <;> cases htask
    rfl

/-! ### Steps of the threads -/

variable {thread thread' : FleetThread κ} {spawned : List (FleetThread κ)}

theorem FleetSteps.stepsTask (h : FleetSteps config o f f' thread thread' spawned) :
    StepsTask config o f f' thread.task thread'.task := by
  have hmoves := h.moves
  rw [thread.task_eq, thread'.task_eq]
  generalize thread.inner = before at hmoves ⊢
  generalize thread'.inner = after at hmoves ⊢
  cases hmoves with
  | bootstrap step =>
    rename_i p
    have hsteps := StepsTask.of_moves (moves_bootstrapStep step)
    cases p <;> simpa [FleetInner.task_bootstrap, innerOf, bootstrapCall, calleeOf, Progress.lift]
      using hsteps
  | refresh step =>
    rename_i p
    have hsteps := StepsTask.of_moves (moves_refreshStep step)
    cases p <;> simpa [FleetInner.task_refresh, innerOf, refreshCall, calleeOf, Progress.lift]
      using hsteps
  | classify hf begins =>
    have hnone : after.bind FleetInner.task = none :=
      Option.bind_eq_none_iff.mpr fun inner hinner => begins inner hinner ▸ rfl
    rw [hnone]
    exact .classify hf
  | apart h begins =>
    refine .other h.ledger fun task htask => ?_
    obtain ⟨inner, hinner, htask⟩ := Option.mem_bind_iff.mp htask
    have hbegins := begins inner hinner
    cases inner with
    | bootstrap | refresh =>
      obtain rfl := hbegins
      cases htask
    | classify => cases htask; exact hbegins

theorem FleetSteps.task_spawned (h : FleetSteps config o f f' thread thread' spawned)
    {u : FleetThread κ} (hu : u ∈ spawned) : u.task = none := by
  rcases h.mem_spawned hu with rfl | rfl | rfl <;> rfl

omit [CustomStrategy κ] [Runtime] in
theorem task_start (request : FleetRequest) :
    (FleetRequest.thread config request : FleetThread κ).task = none := by
  cases request <;> simp only [FleetRequest.thread]
  case status => rfl
  all_goals split_ifs <;> rfl

end Steps

end FeatureFlags
