import FeatureFlags.Equiv.Fleet
import Mathlib.Algebra.Group.Pi.Basic
import Mathlib.Algebra.Order.BigOperators.Group.List

/-!
# The wait groups of a fleet

Each thread owes `Done` to the wait groups that it has entered (`FleetThread.owes`).

* `Fleet.Keeps`: a step undoes nothing and moves the counters with what its thread owes, one lemma
  for each step function.
* `FleetSteps.kinds`: a step of a thread is such a step, or one of `Start`, or the end of
  `Shutdown`.
* `FleetSteps.groups`, `FleetSteps.onward`: what follows for every step, and `onward_between` for
  the steps of a run.
-/

namespace FeatureFlags

open Go Lib

variable {κ : Type} {f f' : Fleet κ} {o : Outside κ} {spawned : List (FleetThread κ)}

/-! ### What a thread owes -/

/-- One call of `Done` for the wait group. -/
def WaitGroup.one (group : WaitGroup) : WaitGroup → Int := Pi.single group 1

/-- How often `load` will still call `Done`, for each wait group. -/
def LoadStage.owes : LoadStage κ → WaitGroup → Int
  | .entering => 0
  | .executing _ => WaitGroup.one .load

/-- `activate` enters no wait group. -/
def ActivateStage.owes (_ : ActivateStage κ) : WaitGroup → Int := 0

/-- How often `Bootstrap` will still call `Done`. -/
def BootstrapStage.owes : BootstrapStage κ → WaitGroup → Int
  | .entering => 0
  | .loading stage => WaitGroup.one .bootstrap + stage.owes
  | _ => WaitGroup.one .bootstrap

def StartStage.owes : StartStage κ → WaitGroup → Int
  | .bootstrapping stage => stage.owes
  | _ => 0

/-- The same for the leader of a flight. -/
def FlightStage.owes : FlightStage κ → WaitGroup → Int
  | .loading _ stage => WaitGroup.one .refresh + stage.owes
  | _ => WaitGroup.one .refresh

def RefreshStage.owes : RefreshStage κ → WaitGroup → Int
  | .leading _ stage => stage.owes
  | _ => 0

def InvalidateStage.owes : InvalidateStage κ → WaitGroup → Int
  | .refreshing _ _ stage => stage.owes
  | _ => 0

def RefreshLoopStage.owes : RefreshLoopStage κ → WaitGroup → Int
  | .refreshing stage => WaitGroup.one .run + stage.owes
  | _ => WaitGroup.one .run

def WatchLoopStage.owes : WatchLoopStage κ → WaitGroup → Int
  | .invalidating stage => WaitGroup.one .run + stage.owes
  | _ => WaitGroup.one .run

def FleetThread.owes : FleetThread κ → WaitGroup → Int
  | .bootstrap p => p.weight BootstrapStage.owes
  | .start p => p.weight StartStage.owes
  | .refresh p => p.weight RefreshStage.owes
  | .invalidate p => p.weight InvalidateStage.owes
  | .refreshLoop p => p.weight RefreshLoopStage.owes
  | .watchLoop p => p.weight WatchLoopStage.owes
  | .status _ | .evaluate .. | .shutdown _ | .join _ => 0

attribute [simp] Fleet.waitGroup Progress.weight WaitGroup.one LoadStage.owes BootstrapStage.owes
  StartStage.owes FlightStage.owes RefreshStage.owes InvalidateStage.owes RefreshLoopStage.owes
  WatchLoopStage.owes FleetThread.owes

/-! ### Steps -/

/-- A step of a thread that owes `owed` before it and `owed'` after it.  The counters move with what
is owed; a fleet that it closes is stopped; `Start` and the end of `Shutdown` are other steps. -/
structure Fleet.Keeps (f f' : Fleet κ) (owed owed' : WaitGroup → Int) : Prop where
  onward : f.Onward f'
  groups : f'.waitGroup + owed = f.waitGroup + owed'
  starting : f'.starting = f.starting
  started : f'.started = f.started
  done : f'.shutdownDone = f.shutdownDone
  closed : f'.closed = true → f.closed = true ∨ f'.state = .stopped

namespace Fleet.Keeps

variable {owed owed' : WaitGroup → Int}

/-- The fields that `Keeps` is about are the same, except for the counters. -/
theorem of_groups (onward : f.Onward f')
    (h : { f'.core with
      lastObservedAt := f.lastObservedAt, active := f.active, state := f.state,
      waitGroup := f.waitGroup } = f.core)
    (groups : ∀ group, f'.waitGroup group + owed group = f.waitGroup group + owed' group) :
    f.Keeps f' owed owed' := by
  simp only [core, Core.mk.injEq, true_and, and_true] at h
  obtain ⟨hclosed, hstarted, hstarting, hdone⟩ := h
  exact ⟨onward, funext groups, hstarting, hstarted, hdone, fun h => .inl (by rw [← hclosed, h])⟩

/-- The fields that `Keeps` is about are the same. -/
theorem of_onward (onward : f.Onward f')
    (h : { f'.core with
      lastObservedAt := f.lastObservedAt, active := f.active, state := f.state } = f.core) :
    f.Keeps f' owed owed := by
  have hgroups : f'.waitGroup = f.waitGroup := congrArg Core.waitGroup h
  refine of_groups onward ?_ fun _ => by rw [hgroups]
  rw [← h, ← hgroups]
  rfl

theorem of_core (h : f'.core = f.core) : f.Keeps f' owed owed :=
  of_onward (.of_core h) (by rw [h]; rfl)

theorem refl (f : Fleet κ) : f.Keeps f owed owed := of_core rfl

/-- A wait group is left. -/
theorem leave (group : WaitGroup) (h : { f'.core with waitGroup := f.waitGroup } = f.core)
    (groups : ∀ g, f'.waitGroup g + WaitGroup.one group g = f.waitGroup g) :
    f.Keeps f' (WaitGroup.one group) 0 := by
  have hone : 0 ≤ WaitGroup.one group := Pi.single_nonneg.mpr zero_le_one
  have hle (g : WaitGroup) : f'.waitGroup g ≤ f.waitGroup g :=
    (le_add_of_nonneg_right (hone g)).trans_eq (groups g)
  simp only [core, Core.mk.injEq, and_true] at h
  obtain ⟨hobserved, hactive, hstate, hclosed, hstarted, hstarting, hdone⟩ := h
  refine of_groups (.of_groups_le ?_ fun _ => hle) ?_ fun g => (groups g).trans (add_zero _).symm
  · simp only [core, hobserved, hactive, hstate, hclosed, hstarted, hdone]
  · simp only [core, hclosed, hstarted, hstarting, hdone]

/-- The caller owes `c` more than the call. -/
theorem add_left (c : WaitGroup → Int) (h : f.Keeps f' owed owed') :
    f.Keeps f' (c + owed) (c + owed') where
  onward := h.onward
  groups := by rw [add_left_comm, h.groups, add_left_comm]
  starting := h.starting
  started := h.started
  done := h.done
  closed := h.closed

/-- A step of a call, as a step of its caller. -/
theorem inside {α β α' β' : Type} {w : α → WaitGroup → Int} {w' : α' → WaitGroup → Int}
    {c : WaitGroup → Int} {within : α → α'} {after : β → Progress α' β'} {p : Progress α β}
    {stage : α}
    (h : f.Keeps f' (w stage) (p.weight w)) (hwithin : ∀ stage, w' (within stage) = c + w stage)
    (hafter : ∀ result, (after result).weight w' = c) :
    f.Keeps f' (w' (within stage)) ((p.lift within after).weight w') := by
  rw [hwithin, Progress.weight_lift hwithin hafter]
  exact h.add_left c

end Fleet.Keeps

variable {thread : FleetThread κ}

section Steps

variable {config : FleetConfig} {owed : WaitGroup → Int}

theorem keeps_now (f : Fleet κ) (clock : Time) : f.Keeps (f.now clock).2 owed owed := by
  refine .of_onward (f.onward_now clock) ?_
  obtain ⟨t, -, heq⟩ := f.exists_now clock
  rw [heq]
  rfl

theorem keeps_failed {f₁ : Fleet κ} (honward : f.Onward f₁)
    (h : { f₁.core with
      lastObservedAt := f.lastObservedAt, active := f.active, state := f.state } = f.core)
    (config : FleetConfig) (now : Time) : f.Keeps (f₁.degradeIfStale config now) owed owed := by
  refine .of_onward (honward.trans (f₁.onward_degradeIfStale config now)) ?_
  rcases Fleet.degradeIfStale_cases config now f₁ with h' | ⟨-, h'⟩ <;> rw [h'] <;> exact h

theorem keeps_markStopped (f : Fleet κ) : f.Keeps f.markStopped owed owed := by
  unfold Fleet.markStopped
  split_ifs with hclosed
  · exact .refl f
  · exact ⟨.of_open (Bool.eq_false_iff.mpr hclosed) le_rfl (fun a ha => ⟨a, ha, le_rfl⟩) id id, rfl,
      rfl, rfl, rfl, fun _ => .inr rfl⟩

theorem keeps_loadStep {stage : LoadStage κ} {p} (h : loadStep config o f stage = some (f', p)) :
    f.Keeps f' stage.owes (p.weight LoadStage.owes) := by
  cases stage with
  | entering =>
    simp only [loadStep] at h
    split_ifs at h with hclosed <;> cases h
    · exact .refl f
    · refine .of_groups (.of_entered (Bool.eq_false_iff.mpr hclosed) rfl) rfl fun group => ?_
      cases group <;> simp
  | executing operations =>
    simp only [loadStep] at h
    split at h
    · split_ifs at h
      cases h
      exact .refl f
    · split at h
      · cases h
      · obtain ⟨⟨f₁, operation'⟩, hop, hx⟩ := Option.map_eq_some_iff.mp h
        cases hx
        obtain ⟨_, _, rfl⟩ := operationStep_frame hop
        exact .of_core rfl
    · obtain ⟨answer, -, hx⟩ := Option.map_eq_some_iff.mp h
      cases hx
      exact .leave .load rfl fun group => by cases group <;> simp

theorem owes_primaryFailed (err : GoError) :
    (primaryFailed config o err).owes = WaitGroup.one .bootstrap := by
  unfold primaryFailed
  dsimp only
  split_ifs <;> rfl

variable [CustomStrategy κ] [Runtime]

theorem keeps_activateStep {allowStale : Bool} {stage : ActivateStage κ} {p}
    (h : activateStep config o allowStale f stage = some (f', p)) :
    f.Keeps f' stage.owes (p.weight ActivateStage.owes) := by
  have honward := onward_activateStep h
  obtain ⟨_, _, _, _, rfl⟩ := activateStep_frame h
  cases p <;> exact .of_onward honward rfl

theorem keeps_bootstrapStep {stage : BootstrapStage κ} {p}
    (h : bootstrapStep config o f stage = some (f', p)) :
    f.Keeps f' stage.owes (p.weight BootstrapStage.owes) := by
  cases stage <;> simp only [bootstrapStep] at h
  case entering =>
    split_ifs at h with hclosed <;> cases h
    · exact .refl f
    · refine .of_groups (.of_entered (Bool.eq_false_iff.mpr hclosed) rfl) rfl fun group => ?_
      cases group <;> simp
  case loading =>
    obtain ⟨q, hq, rfl⟩ := Progress.inside_eq_some.mp h
    refine (keeps_loadStep hq).inside (fun _ => rfl) fun answer => ?_
    cases answer with
    | ok candidate => rfl
    | error err => exact owes_primaryFailed err
  case activating =>
    obtain ⟨q, hq, rfl⟩ := Progress.inside_eq_some.mp h
    refine (keeps_activateStep hq).inside (fun _ => (add_zero _).symm) fun result => ?_
    cases result with
    | ok active =>
      simp only [afterPrimary]
      split_ifs <;> rfl
    | error err => exact owes_primaryFailed err
  case reviving =>
    obtain ⟨q, hq, rfl⟩ := Progress.inside_eq_some.mp h
    refine (keeps_activateStep hq).inside (fun _ => (add_zero _).symm) fun result => ?_
    cases result <;> rfl
  case recovering => split at h <;> cases h <;> exact .of_core rfl
  case storing | rejecting | recording => cases h; exact .of_core rfl
  case leaving => cases h; exact .leave .bootstrap rfl fun group => by cases group <;> simp

theorem keeps_flightStep {flight : Nat} {stage : FlightStage κ} {p}
    (h : flightStep config o flight f stage = some (f', p)) :
    f.Keeps f' stage.owes (p.weight FlightStage.owes) := by
  cases stage <;> simp only [flightStep] at h
  case reading =>
    cases h
    exact .of_groups (.refl f) rfl fun group => by simp
  case loading =>
    obtain ⟨q, hq, rfl⟩ := Progress.inside_eq_some.mp h
    refine (keeps_loadStep hq).inside (fun _ => rfl) fun answer => ?_
    cases answer <;> rfl
  case activating =>
    obtain ⟨q, hq, rfl⟩ := Progress.inside_eq_some.mp h
    refine (keeps_activateStep hq).inside (fun _ => (add_zero _).symm) fun result => ?_
    cases result with
    | ok active =>
      simp only [afterFlightActivate]
      split_ifs <;> rfl
    | error err => rfl
  case storing => cases h; exact .of_core rfl
  case completing => cases h; exact keeps_now f o.clock
  case publishing result err completedAt =>
    cases h
    refine .of_onward (f.onward_publish ..) ?_
    obtain ⟨failure, state, -, heq⟩ := f.exists_publish config flight result err completedAt
      (classifyRefreshFailure config o.classified err)
    rw [heq]
    rfl
  case leaving => cases h; exact .leave .refresh rfl fun group => by cases group <;> simp

theorem keeps_refreshStep {stage : RefreshStage κ} {p}
    (h : refreshStep config o f stage = some (f', p)) :
    f.Keeps f' stage.owes (p.weight RefreshStage.owes) := by
  cases stage <;> simp only [refreshStep] at h
  case observing => cases h; exact keeps_now f o.clock
  case entering now =>
    rcases f.enterRefresh_cases config now with
      ⟨err, heq⟩ | ⟨flight, -, -, heq⟩ | heq | ⟨hopen, -, -, heq⟩ <;>
      rw [heq] at h <;> cases h
    · exact .refl f
    · exact .of_core rfl
    · exact .refl f
    · refine .of_groups (.of_entered hopen rfl) rfl fun group => ?_
      cases group <;> simp
  case waiting =>
    split at h
    · cases h
      exact .of_core rfl
    · split at h <;> cases h
      exact .of_core rfl
  case leading =>
    obtain ⟨q, hq, rfl⟩ := Progress.inside_eq_some.mp h
    exact (keeps_flightStep hq).inside (fun _ => (zero_add _).symm) fun _ => rfl

theorem keeps_invalidateStep {stage : InvalidateStage κ} {p}
    (h : invalidateStep config o f stage = some (f', p)) :
    f.Keeps f' stage.owes (p.weight InvalidateStage.owes) := by
  cases stage <;> simp only [invalidateStep] at h
  case observing => split_ifs at h <;> cases h <;> exact keeps_now f o.clock
  case classifying event now =>
    have hcore := f.core_invalidate config now event
    split at h <;> rename_i heq <;> rw [heq] at hcore <;> cases h <;> exact .of_core hcore
  case refreshing =>
    obtain ⟨q, hq, rfl⟩ := Progress.inside_eq_some.mp h
    exact (keeps_refreshStep hq).inside (fun _ => (zero_add _).symm) fun _ => rfl

theorem keeps_refreshLoopStep {stage : RefreshLoopStage κ}
    {p} (h : refreshLoopStep config o f stage = some (f', p)) :
    f.Keeps f' stage.owes (p.weight RefreshLoopStage.owes) := by
  cases stage <;> simp only [refreshLoopStep] at h
  case scheduling =>
    split_ifs at h
    · cases h
      exact .refl f
    · split at h <;> cases h
      · exact .refl f
      · exact .refl f
      · exact .of_groups (.refl f) rfl fun group => by simp
  case refreshing =>
    obtain ⟨q, hq, rfl⟩ := Progress.inside_eq_some.mp h
    refine (keeps_refreshStep hq).inside (fun _ => rfl) fun result => ?_
    unfold afterLoopRefresh
    split
    · split_ifs <;> rfl
    · rfl
  case observing => cases h; exact keeps_now f o.clock
  case recording failure now stops =>
    cases h
    cases stops <;> exact keeps_failed (.of_core (by exact rfl)) (by exact rfl) config now
  case stopping => cases h; exact keeps_markStopped f
  case leaving => cases h; exact .leave .run rfl fun group => by cases group <;> simp

theorem keeps_watchLoopStep {stage : WatchLoopStage κ} {p}
    (h : watchLoopStep config o f stage = some (f', p)) :
    f.Keeps f' stage.owes (p.weight WatchLoopStage.owes) := by
  cases stage <;> simp only [watchLoopStep] at h
  case watching =>
    split at h <;> cases h
    · exact .refl f
    · exact .refl f
    · exact .of_groups (.refl f) rfl fun group => by simp
  case invalidating =>
    obtain ⟨q, hq, rfl⟩ := Progress.inside_eq_some.mp h
    refine (keeps_invalidateStep hq).inside (fun _ => rfl) fun result => ?_
    unfold afterWatchInvalidate
    split <;> rfl
  case failed => split at h <;> cases h <;> exact .refl f
  case observing => cases h; exact keeps_now f o.clock
  case recording failure now stops =>
    cases h
    cases stops <;> exact keeps_failed (.of_core (by exact rfl)) (by exact rfl) config now
  case unwinding => cases h; exact .of_core rfl
  case leaving => cases h; exact .leave .run rfl fun group => by cases group <;> simp

variable (config : FleetConfig) (f : Fleet κ) in
inductive StartSteps : Fleet κ → StartStage κ →
    Progress (StartStage κ) (Except GoError (ActiveSnapshot κ)) → Prop
  | refused (err : GoError) : StartSteps f .entering (.finished (.error err))
  | entered (closed : f.closed = false) (started : f.started = false)
      (starting : f.starting = false) : StartSteps { f with starting := true } .entering
        (.running (.bootstrapping .entering))
  | bootstraps {f' : Fleet κ} {stage : BootstrapStage κ} {stage' : StartStage κ}
      (keeps : f.Keeps f' stage.owes stage'.owes) (stage'_ne : stage' ≠ .entering) :
      StartSteps f' (.bootstrapping stage) (.running stage')
  | failed (result : Except GoError (ActiveSnapshot κ)) (err : GoError) :
      StartSteps { f with starting := false } (.resuming result) (.finished (.error err))
  | started {active : ActiveSnapshot κ} (closed : f.closed = false) : StartSteps { f with
        starting := false
        started := true
        runWG := if config.watcher then f.runWG + 1 + 1 else f.runWG + 1
        watcherRunning := config.watcher || f.watcherRunning } (.resuming (.ok active))
        (.finished (.ok active))

theorem startSteps_of_startStep {stage : StartStage κ} {p}
    (h : startStep config o f stage = some (f', p)) : StartSteps config f f' stage p := by
  cases stage <;> simp only [startStep] at h
  case entering =>
    unfold Fleet.enterStart at h
    split_ifs at h with hclosed hstarted
    · cases h
      exact .refused _
    · cases h
      exact .refused _
    · cases h
      rw [Bool.or_eq_true, not_or] at hstarted
      exact .entered (Bool.eq_false_iff.mpr hclosed) (Bool.eq_false_iff.mpr hstarted.1)
        (Bool.eq_false_iff.mpr hstarted.2)
  case bootstrapping =>
    obtain ⟨q, hq, rfl⟩ := Progress.inside_eq_some.mp h
    have hkeeps := keeps_bootstrapStep hq
    cases q with
    | running | finished => exact .bootstraps hkeeps (by rintro ⟨⟩)
  case resuming result =>
    cases h
    unfold Fleet.resumeStart
    split
    · exact .failed _ _
    · by_cases hclosed : f.closed = true
      · rw [if_pos hclosed]
        exact .failed _ _
      · rw [if_neg hclosed]
        exact .started (Bool.eq_false_iff.mpr hclosed)

/-- The thread is between the two sections of `Start`. -/
def FleetThread.starts : FleetThread κ → Bool
  | .start (.running .entering) => false
  | .start (.running _) => true
  | _ => false

/-- The loops that `Start` starts. -/
inductive FleetLoop where
  | refresh
  | watch

/-- The thread is this loop, running or finished. -/
def FleetThread.isLoop : FleetLoop → FleetThread κ → Bool
  | .refresh, .refreshLoop _ => true
  | .watch, .watchLoop _ => true
  | _, _ => false

/-- A step of a thread that is neither in `Start` nor about to close `shutdownDone`. -/
structure PlainStep (f f' : Fleet κ) (thread thread' : FleetThread κ)
    (spawned : List (FleetThread κ)) : Prop where
  keeps : f.Keeps f' thread.owes thread'.owes
  starts : thread.starts = false ∧ thread'.starts = false
  isLoop : ∀ loop, thread'.isLoop loop = thread.isLoop loop
  spawned : ∀ u ∈ spawned, u = .join (.running (.awaiting .run))

variable {thread' : FleetThread κ} (h : FleetSteps config o f f' thread thread' spawned)
include h

theorem FleetSteps.kinds :
    PlainStep f f' thread thread' spawned ∨
    (∃ stage p, thread = .start (.running stage) ∧ thread' = .start p ∧
      spawned = loops config p ∧ StartSteps config f f' stage p) ∨
    (thread = .join (.running .closing) ∧ thread' = .join (.finished ()) ∧ spawned = [] ∧
      f' = { f with shutdownDone := true }) := by
  cases h with
  | bootstrap step =>
    exact .inl ⟨keeps_bootstrapStep step, ⟨rfl, rfl⟩, by rintro ⟨⟩ <;> rfl, by simp⟩
  | start step => exact .inr (.inl ⟨_, _, rfl, rfl, rfl, startSteps_of_startStep step⟩)
  | refresh step =>
    exact .inl ⟨keeps_refreshStep step, ⟨rfl, rfl⟩, by rintro ⟨⟩ <;> rfl, by simp⟩
  | invalidate step =>
    exact .inl ⟨keeps_invalidateStep step, ⟨rfl, rfl⟩, by rintro ⟨⟩ <;> rfl, by simp⟩
  | status step =>
    refine .inl ⟨?_, ⟨rfl, rfl⟩, by rintro ⟨⟩ <;> rfl, by simp⟩
    rcases statusStep_frame step with rfl | rfl
    · exact .refl f'
    · exact keeps_now f o.clock
  | evaluate step =>
    refine .inl ⟨?_, ⟨rfl, rfl⟩, by rintro ⟨⟩ <;> rfl, by simp⟩
    rcases evaluateStep_frame step with rfl | rfl
    · exact .refl f'
    · exact keeps_now f o.clock
  | shutdown step =>
    refine .inl ⟨?_, ⟨rfl, rfl⟩, by rintro ⟨⟩ <;> rfl, fun u hu => (mem_joiner hu).2⟩
    rcases shutdownStep_frame step with ⟨_, rfl⟩ | rfl
    · exact .of_core rfl
    · exact keeps_markStopped f
  | refreshLoop step =>
    exact .inl ⟨keeps_refreshLoopStep step, ⟨rfl, rfl⟩, by rintro ⟨⟩ <;> rfl, by simp⟩
  | watchLoop step =>
    exact .inl ⟨keeps_watchLoopStep step, ⟨rfl, rfl⟩, by rintro ⟨⟩ <;> rfl, by simp⟩
  | join step =>
    rename_i stage p
    cases stage <;> simp only [joinStep] at step
    case awaiting =>
      split_ifs at step
      cases step
      exact .inl ⟨.refl f, ⟨rfl, rfl⟩, by rintro ⟨⟩ <;> rfl, by simp⟩
    case closing =>
      cases step
      exact .inr (.inr ⟨rfl, rfl, rfl, rfl⟩)

/-- The counters move with what the thread owes, and what the threads owe that it starts. -/
theorem FleetSteps.groups :
    f'.waitGroup + thread.owes =
      f.waitGroup + thread'.owes + (spawned.map FleetThread.owes).sum := by
  rcases h.kinds with hplain | ⟨stage, p, rfl, rfl, rfl, hstart⟩ | ⟨rfl, rfl, rfl, rfl⟩
  · have hspawned : (spawned.map FleetThread.owes).sum = 0 := by
      refine List.sum_eq_zero fun owed howed => ?_
      obtain ⟨u, hu, rfl⟩ := List.mem_map.mp howed
      rw [hplain.spawned u hu]
      rfl
    rw [hspawned, add_zero]
    exact hplain.keeps.groups
  · cases hstart with
    | refused | entered | failed => exact (add_zero _).symm
    | bootstraps keeps => exact keeps.groups.trans (add_zero _).symm
    | started =>
      funext group
      cases hwatcher : config.watcher <;> cases group <;>
        simp [loops, hwatcher, add_assoc]
  · exact (add_zero _).symm

/-- No step of a thread undoes anything. -/
theorem FleetSteps.onward : f.Onward f' := by
  rcases h.kinds with hplain | ⟨stage, p, rfl, rfl, rfl, hstart⟩ | ⟨rfl, rfl, rfl, rfl⟩
  · exact hplain.keeps.onward
  · cases hstart with
    | refused | failed => exact .of_groups_le rfl fun _ _ => le_rfl
    | entered closed => exact .of_entered closed rfl
    | bootstraps keeps => exact keeps.onward
    | started closed =>
      exact .of_open closed le_rfl (fun a ha => ⟨a, ha, le_rfl⟩) (fun _ => rfl) id
  · exact ⟨le_rfl, fun a ha => ⟨a, ha, le_rfl⟩, fun h => ⟨h, rfl⟩, fun _ h => h, fun _ _ => le_rfl,
      id, fun _ => rfl⟩

end Steps

/-! ### Runs -/

section Runs

variable [CustomStrategy κ] [Runtime] {config : FleetConfig} {ts : List (FleetMove κ)}
  {s : FleetPool κ} {j k : Nat} {e e' : FleetMove κ}

theorem onward_of_move (run : FleetRun config ts s) (hk : ts[k]? = some e) :
    e.before.shared.Onward e.after.shared := by
  have hmoves := run.moves hk
  generalize e.before = s₁ at hmoves ⊢
  generalize e.action = a at hmoves
  generalize e.after = s₂ at hmoves ⊢
  cases hmoves with
  | call request => exact .refl _
  | step _ heq => exact (steps_of_fleetStep heq).onward

theorem onward_between (run : FleetRun config ts s) (hj : ts[j]? = some e) (hk : ts[k]? = some e')
    (hjk : j < k) : e.after.shared.Onward e'.before.shared :=
  Program.Run.between Fleet.Onward .refl .trans (fun h => (steps_of_fleetStep h).onward)
    run hj hk hjk

end Runs

end FeatureFlags
