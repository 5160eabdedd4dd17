import FeatureFlags.Equiv.Activation
import Mathlib.Algebra.Group.Prod

/-!
# Stopping a fleet

Stopping is final, and `Shutdown` joins everything (`stopping_is_final`).

Every step moves the counters of the wait groups with what its thread owes (`FleetSteps.groups`).
So a wait group is at zero only if no thread owes it anything (`sum_owes_eq`), and a fleet that is
closed, whose counters never grow (`Fleet.Onward`), admits nothing.  `Start` is between its two
sections in one thread at a time (`sum_starts_eq`), so the loops are started at most once
(`sum_isLoop_eq`).
-/

namespace FeatureFlags

open Go Lib

variable {κ : Type} {f f' : Fleet κ} {o : Outside κ} {thread : FleetThread κ}
  {spawned : List (FleetThread κ)}

/-! ### Counting -/

section Counting

variable {config : FleetConfig} {ts : List (FleetMove κ)} {s : FleetPool κ}

theorem starts_le_sum {threads : List (FleetThread κ)} {id : Nat} (h : threads[id]? = some thread) :
    thread.starts.toNat ≤ (threads.map fun thread => thread.starts.toNat).sum :=
  List.single_le_sum (by simp) _ (List.mem_map_of_mem (List.mem_of_getElem? h))

variable [CustomStrategy κ] [Runtime]

theorem owes_start (request : FleetRequest) :
    ((fleetProgram config).start request : FleetThread κ).owes = 0 := by
  cases request <;> simp only [fleetProgram, FleetRequest.thread]
  case status => rfl
  all_goals split_ifs <;> rfl

variable (run : FleetRun config ts s)
include run

/-- The counter of a wait group is what all threads together owe to it. -/
theorem sum_owes_eq : (s.threads.map FleetThread.owes).sum = s.shared.waitGroup := by
  refine Program.Run.census FleetThread.owes Fleet.waitGroup run ?_ owes_start ?_
  · funext group
    cases group <;> rfl
  · intro k e id o thread thread' spawned _ _ _ heq
    exact (steps_of_fleetStep heq).groups

/-- At most one thread is between the sections of `Start`, and then `starting` is set. -/
theorem sum_starts_eq :
    (s.threads.map fun thread => thread.starts.toNat).sum = s.shared.starting.toNat := by
  refine Program.Run.census (fun thread => thread.starts.toNat) (fun f => f.starting.toNat) run rfl
    ?_ ?_
  · intro request
    cases request <;> simp only [fleetProgram, FleetRequest.thread]
    case status => rfl
    all_goals split_ifs <;> rfl
  · intro k e id o thread thread' spawned _ hsum hthread heq
    have hsteps := steps_of_fleetStep heq
    have hspawned : (spawned.map fun thread : FleetThread κ => thread.starts.toNat).sum = 0 := by
      refine List.sum_eq_zero fun owed howed => ?_
      obtain ⟨u, hu, rfl⟩ := List.mem_map.mp howed
      rcases hsteps.mem_spawned hu with rfl | rfl | rfl <;> rfl
    have hle : thread.starts.toNat ≤ e.before.shared.starting.toNat := hsum ▸ starts_le_sum hthread
    rw [hspawned, add_zero]
    generalize e.before.shared = f at *
    generalize e.after.shared = f' at *
    rcases hsteps.kinds with hplain | ⟨stage, p, rfl, rfl, rfl, hstart⟩ | ⟨rfl, rfl, rfl, rfl⟩
    · rw [hplain.keeps.starting, hplain.starts.1, hplain.starts.2]
    · cases hstart with
      | refused err => rfl
      | entered closed started starting => simp [starting, FleetThread.starts]
      | bootstraps keeps hne =>
        rename_i stage stage'
        rw [keeps.starting]
        cases stage' with
        | entering => exact absurd rfl hne
        | _ => rfl
      | failed | started =>
        -- This thread is between its sections, so `starting` is set.
        have hstarting : f.starting.toNat = 1 := Nat.le_antisymm (Bool.toNat_le _) hle
        show 0 + 1 = f.starting.toNat + 0
        omega
    · rfl

/-- `Start` is over, or not yet under way, when `started` is set. -/
theorem not_starting_of_started (h : s.shared.started = true) : s.shared.starting = false := by
  refine Program.Run.shared_invariant (fun f => f.started = true → f.starting = false) run ?_ ?_ h
  · rintro ⟨⟩
  · intro o f thread f' thread' spawned hf heq h
    rcases (steps_of_fleetStep heq).kinds with hplain | ⟨stage, p, rfl, rfl, rfl, hstart⟩ |
      ⟨rfl, rfl, rfl, rfl⟩
    · rw [hplain.keeps.starting]
      exact hf (hplain.keeps.started ▸ h)
    · cases hstart with
      | refused => exact hf h
      | entered closed started => exact absurd h (by simp [started])
      | bootstraps keeps =>
        rw [keeps.starting]
        exact hf (keeps.started ▸ h)
      | failed | started => rfl
    · exact hf h

/-- The loops that have been started. -/
def Fleet.loopsStarted (config : FleetConfig) (f : Fleet κ) : FleetLoop → Bool
  | .refresh => f.started
  | .watch => f.started && config.watcher

/-- Each loop runs, or has run, in as many threads as have been started. -/
theorem sum_isLoop_eq (loop : FleetLoop) :
    (s.threads.map fun thread => (thread.isLoop loop).toNat).sum =
      (s.shared.loopsStarted config loop).toNat := by
  refine Program.Run.census (fun thread => (thread.isLoop loop).toNat)
    (fun f => (f.loopsStarted config loop).toNat) run (by cases loop <;> rfl) ?_ ?_
  · intro request
    cases request <;> cases loop <;> rfl
  · intro k e id o thread thread' spawned hk _ hthread heq
    have hsteps := steps_of_fleetStep heq
    have hrun := (run.upTo hk).1
    have hboth := not_starting_of_started hrun
    have hle : thread.starts.toNat ≤ e.before.shared.starting.toNat :=
      sum_starts_eq hrun ▸ starts_le_sum hthread
    clear hrun
    generalize e.before.shared = f at *
    generalize e.after.shared = f' at *
    rcases hsteps.kinds with hplain | ⟨stage, p, rfl, rfl, rfl, hstart⟩ | ⟨rfl, rfl, rfl, rfl⟩
    · have hspawned : (spawned.map fun thread : FleetThread κ =>
          (thread.isLoop loop).toNat).sum = 0 := by
        refine List.sum_eq_zero fun count hcount => ?_
        obtain ⟨u, hu, rfl⟩ := List.mem_map.mp hcount
        rw [hplain.spawned u hu]
        cases loop <;> rfl
      rw [hspawned, hplain.isLoop, add_zero]
      cases loop <;> simp only [Fleet.loopsStarted, hplain.keeps.started]
    · cases hstart with
      | refused | entered | failed => cases loop <;> rfl
      | bootstraps keeps =>
        cases loop <;> simp [Fleet.loopsStarted, keeps.started, FleetThread.isLoop, loops]
      | started =>
        -- This thread has set `starting`, and no other one has come to its second section.
        have hstarted : f.started = false := by
          refine Bool.eq_false_iff.mpr fun h => ?_
          rw [hboth h] at hle
          cases hle
        cases loop <;> cases hwatcher : config.watcher <;>
          simp [Fleet.loopsStarted, FleetThread.isLoop, loops, hwatcher, hstarted]
    · cases loop <;> rfl

end Counting

/-! ### Work in progress -/

/-- What a fleet has to stop. -/
inductive FleetWork where
  | bootstrap
  | flight
  | load
  | loop (loop : FleetLoop)

def FleetWork.group : FleetWork → WaitGroup
  | .bootstrap => .bootstrap
  | .flight => .refresh
  | .load => .load
  | .loop _ => .run

/-- The call has entered this work and not left it. -/
def FleetCall.does : FleetCall κ → FleetWork → Bool
  | .bootstrap .entering, .bootstrap => false
  | .bootstrap _, .bootstrap => true
  | .refresh (.leading _ _), .flight => true
  | .bootstrap (.loading (.executing _)), .load => true
  | .refresh (.leading _ (.loading _ (.executing _))), .load => true
  | _, _ => false

/-- The thread has entered this work and not left it. -/
def FleetThread.does (thread : FleetThread κ) : FleetWork → Bool
  | .loop .refresh => match thread with
    | .refreshLoop (.running _) => true
    | _ => false
  | .loop .watch => match thread with
    | .watchLoop (.running _) => true
    | _ => false
  | work => thread.call.any fun call => call.does work

/-- What the call owes. -/
def FleetCall.owes : FleetCall κ → WaitGroup → Int
  | .bootstrap stage => stage.owes
  | .refresh stage => stage.owes

theorem FleetCall.owes_group (call : FleetCall κ) (work : FleetWork) :
    call.owes work.group = (call.does work).toNat := by
  cases call with
  | bootstrap stage =>
    cases stage with
    | loading stage =>
      cases stage <;> cases work <;> simp [owes, FleetWork.group, does]
    | _ => cases work <;> simp [owes, FleetWork.group, does]
  | refresh stage =>
    cases stage with
    | leading flight stage =>
      cases stage with
      | loading previous stage =>
        cases stage <;> cases work <;> simp [owes, FleetWork.group, does]
      | _ => cases work <;> simp [owes, FleetWork.group, does]
    | _ => cases work <;> simp [owes, does]

variable {work : FleetWork}

namespace FleetThread

/-- The thread is one of the loops, and running. -/
def loopOwes (thread : FleetThread κ) : WaitGroup → Int :=
  if thread.does (.loop .refresh) || thread.does (.loop .watch) then WaitGroup.one .run else 0

section

variable (thread)

/-- A thread owes what its call owes, and one more if it is a loop. -/
theorem owes_eq : thread.owes = thread.loopOwes + (thread.call.map FleetCall.owes).getD 0 := by
  cases thread with
  | bootstrap p | refresh p => cases p <;> exact (zero_add _).symm
  | start p | invalidate p =>
    cases p with
    | running stage => cases stage <;> exact (zero_add _).symm
    | finished => exact (zero_add _).symm
  | refreshLoop p =>
    cases p with
    | running stage =>
      cases stage with
      | refreshing => rfl
      | _ => exact (add_zero _).symm
    | finished => exact (zero_add _).symm
  | watchLoop p =>
    cases p with
    | running stage =>
      cases stage with
      | invalidating stage => cases stage <;> rfl
      | _ => exact (add_zero _).symm
    | finished => exact (zero_add _).symm
  | status | evaluate | shutdown | join => exact (zero_add _).symm

theorem loopOwes_nonneg : 0 ≤ thread.loopOwes := by
  unfold loopOwes
  split_ifs
  · exact Pi.single_nonneg.mpr zero_le_one
  · exact le_rfl

theorem callOwes_nonneg (work : FleetWork) :
    0 ≤ (thread.call.map FleetCall.owes).getD 0 work.group := by
  cases thread.call with
  | none => exact le_rfl
  | some call =>
    rw [Option.map_some, Option.getD_some, FleetCall.owes_group]
    exact Int.natCast_nonneg _

theorem owes_nonneg : 0 ≤ thread.owes := by
  have hgroup (work : FleetWork) : 0 ≤ thread.owes work.group := by
    rw [owes_eq]
    exact add_nonneg (thread.loopOwes_nonneg work.group) (thread.callOwes_nonneg work)
  intro group
  cases group with
  | run => exact hgroup (.loop .refresh)
  | refresh => exact hgroup .flight
  | load => exact hgroup .load
  | bootstrap => exact hgroup .bootstrap

end

/-- Work in progress is counted. -/
theorem one_le_owes (h : thread.does work = true) : 1 ≤ thread.owes work.group := by
  have hloop := thread.loopOwes_nonneg work.group
  have hcall := thread.callOwes_nonneg work
  rw [owes_eq, Pi.add_apply]
  cases work with
  | loop loop =>
    have hone : thread.loopOwes .run = 1 := by
      cases loop <;> simp [loopOwes, h, WaitGroup.one]
    exact le_add_of_le_of_nonneg hone.ge hcall
  | _ =>
    obtain ⟨call, heq, hdoes⟩ := (Option.any_eq_true _ _).mp h
    rw [heq, Option.map_some, Option.getD_some, FleetCall.owes_group, hdoes]
    exact le_add_of_nonneg_left hloop

/-- What is counted outside the loops is work in progress. -/
theorem does_of_one_le_owes (hwork : work.group ≠ .run) (h : 1 ≤ thread.owes work.group) :
    thread.does work = true := by
  have hloop : thread.loopOwes work.group = 0 := by
    unfold loopOwes
    split_ifs
    · exact Pi.single_eq_of_ne hwork 1
    · rfl
  rw [owes_eq, Pi.add_apply, hloop, zero_add] at h
  cases hcall : thread.call with
  | none => simp [hcall] at h
  | some call =>
    rw [hcall, Option.map_some, Option.getD_some, FleetCall.owes_group] at h
    have hdoes : call.does work = true := by
      by_contra hnot
      simp [Bool.eq_false_iff.mpr hnot] at h
    cases work with
    | loop => exact absurd rfl hwork
    | _ => simp [does, hcall, hdoes]

end FleetThread

/-! ### A closed fleet -/

section Closed

variable [CustomStrategy κ] [Runtime] {config : FleetConfig} {ts : List (FleetMove κ)}
  {s : FleetPool κ} {thread thread' : FleetThread κ}

section

variable (h : FleetSteps config o f f' thread thread' spawned)
include h

theorem FleetSteps.owes_le
    (hclosed : f.closed = true) (group : WaitGroup) : thread'.owes group ≤ thread.owes group := by
  -- The counters of a closed fleet only go down, and what is spawned owes nothing negative.
  have hgroups := congrFun h.groups group
  have hle := h.onward.groups hclosed group
  have hspawned : 0 ≤ (spawned.map FleetThread.owes).sum := by
    refine List.sum_nonneg fun owed howed => ?_
    obtain ⟨u, -, rfl⟩ := List.mem_map.mp howed
    exact u.owes_nonneg
  have hgroup : 0 ≤ (spawned.map FleetThread.owes).sum group := hspawned group
  simp only [Pi.add_apply] at hgroups
  omega

/-- A thread of a closed fleet enters no work. -/
theorem FleetSteps.does_of_does
    (hclosed : f.closed = true) (hdoes : thread'.does work = true) : thread.does work = true := by
  by_cases hwork : work.group = .run
  · -- Both loops count in one group, so the counter cannot tell which of them is running.
    cases work with
    | loop loop => cases h <;> cases loop <;> first | rfl | cases hdoes
    | _ => cases hwork
  · exact FleetThread.does_of_one_le_owes hwork
      ((FleetThread.one_le_owes hdoes).trans (h.owes_le hclosed work.group))

/-- A closed fleet starts no loops. -/
theorem FleetSteps.not_does_spawned (hclosed : f.closed = true) {u : FleetThread κ}
    (hu : u ∈ spawned) (work : FleetWork) : u.does work = false := by
  rcases h.kinds with hplain | ⟨stage, p, rfl, rfl, rfl, hstart⟩ | ⟨rfl, rfl, rfl, rfl⟩
  · rw [hplain.spawned u hu]
    rcases work with _ | _ | _ | ⟨_ | _⟩ <;> rfl
  · cases hstart with
    | started hopen => simp [hclosed] at hopen
    | _ => simp [loops] at hu
  · simp at hu

end

/-- **No work is admitted by a fleet that is closed.** -/
theorem does_before_of_closed (run : FleetRun config ts s) {k id : Nat} {e : FleetMove κ}
    (hk : ts[k]? = some e) (hclosed : e.before.shared.closed = true)
    (hthread : e.after.threads[id]? = some thread) (hdoes : thread.does work = true) :
    ∃ thread₀, e.before.threads[id]? = some thread₀ ∧ thread₀.does work = true := by
  rcases (run.moves hk).origin hthread with h | ⟨v, o, spawned, -, hv, heq⟩ |
    ⟨request, -, rfl⟩ | ⟨j, v, o, v', spawned, -, hv, -, heq, hu⟩
  · exact ⟨thread, h, hdoes⟩
  · exact ⟨v, hv, (steps_of_fleetStep heq).does_of_does hclosed hdoes⟩
  · -- A new call has not entered anything yet.
    have hle := FleetThread.one_le_owes hdoes
    rw [owes_start] at hle
    exact absurd (show (1 : Int) ≤ 0 from hle) (by decide)
  · rw [(steps_of_fleetStep heq).not_does_spawned hclosed hu] at hdoes
    cases hdoes

end Closed

/-! ### Joining -/

/-- The wait groups that the goroutine of `Shutdown` has waited for. -/
def JoinStage.joined : JoinStage → List WaitGroup
  | .awaiting .run => []
  | .awaiting .refresh => [.run]
  | .awaiting .load => [.run, .refresh]
  | .awaiting .bootstrap => [.run, .refresh, .load]
  | .closing => [.run, .refresh, .load, .bootstrap]

/-- The fleet is closed, and nothing is counted in these wait groups. -/
def Fleet.Idle (f : Fleet κ) (groups : List WaitGroup) : Prop :=
  f.closed = true ∧ ∀ group ∈ groups, f.waitGroup group ≤ 0

/-- How far a thread has come with stopping the fleet. -/
def FleetThread.Stops (f : Fleet κ) : FleetThread κ → Prop
  | .shutdown (.running .stopping) => True
  | .shutdown (.running _) => f.closed = true
  | .shutdown (.finished none) => f.shutdownDone = true
  | .join (.running stage) => f.Idle stage.joined
  | _ => True

/-- What the fields of a fleet say about stopping. -/
structure Fleet.StopsInOrder (f : Fleet κ) : Prop where
  stopped : f.closed = true → f.state = .stopped
  done : f.shutdownDone = true → f.Idle [.run, .refresh, .load, .bootstrap]

section Joining

variable {config : FleetConfig} {ts : List (FleetMove κ)} {s : FleetPool κ}
  {thread thread' : FleetThread κ}

theorem Fleet.Idle.onward {groups : List WaitGroup} (h : f.Idle groups) (honward : f.Onward f') :
    f'.Idle groups :=
  ⟨(honward.closed h.1).1, fun group hgroup =>
    (honward.groups h.1 group).trans (h.2 group hgroup)⟩

theorem FleetThread.Stops.onward (h : thread.Stops f) (honward : f.Onward f') :
    thread.Stops f' := by
  unfold FleetThread.Stops at h ⊢
  split at h
  · trivial
  · exact (honward.closed h).1
  · exact honward.done h
  · exact Fleet.Idle.onward h honward
  · trivial

/-- The next wait group is waited for when this one is empty. -/
theorem stops_joinStep {stage : JoinStage} {p} (h : joinStep f stage = some (f', p))
    (hstops : f.Idle stage.joined) : (FleetThread.join p).Stops f' := by
  cases stage <;> simp only [joinStep] at h
  case awaiting group =>
    split_ifs at h with hzero
    cases h
    refine ⟨hstops.1, fun group' hgroup' => ?_⟩
    have hjoined : group' ∈ (JoinStage.awaiting group).joined ∨ group' = group := by
      cases group <;> simpa [WaitGroup.next, JoinStage.joined, or_assoc] using hgroup'
    rcases hjoined with hjoined | rfl
    · exact hstops.2 group' hjoined
    · exact hzero.le
  case closing =>
    cases h
    trivial

variable [CustomStrategy κ] [Runtime]

section

variable (h : FleetSteps config o f f' thread thread' spawned)
include h

theorem FleetSteps.closed (hclosed : f'.closed = true) : f.closed = true ∨ f'.state = .stopped := by
  rcases h.kinds with hplain | ⟨stage, p, rfl, rfl, rfl, hstart⟩ | ⟨rfl, rfl, rfl, rfl⟩
  · exact hplain.keeps.closed hclosed
  · cases hstart with
    | bootstraps keeps => exact keeps.closed hclosed
    | _ => exact .inl hclosed
  · exact .inl hclosed

/-- `shutdownDone` is closed when all wait groups have been waited for. -/
theorem FleetSteps.done (hdone : f'.shutdownDone = true) :
    f.shutdownDone = true ∨ thread = .join (.running .closing) := by
  rcases h.kinds with hplain | ⟨stage, p, rfl, rfl, rfl, hstart⟩ | ⟨rfl, rfl, rfl, rfl⟩
  · exact .inl (hplain.keeps.done ▸ hdone)
  · cases hstart with
    | bootstraps keeps => exact .inl (keeps.done ▸ hdone)
    | _ => exact .inl hdone
  · exact .inr rfl

theorem FleetSteps.stopsInOrder (hf : f.StopsInOrder) (hthread : thread.Stops f) :
    f'.StopsInOrder where
  stopped hclosed := by
    rcases h.closed hclosed with hbefore | hstopped
    · exact h.onward.stopped hbefore (hf.stopped hbefore)
    · exact hstopped
  done hdone := by
    rcases h.done hdone with hbefore | rfl
    · exact (hf.done hbefore).onward h.onward
    · exact Fleet.Idle.onward hthread h.onward

end

omit [CustomStrategy κ] [Runtime] in
theorem stops_shutdownStep {stage : ShutdownStage} {p} (h : shutdownStep o f stage = some (f', p))
    (hstops : (FleetThread.shutdown (.running stage)).Stops f) :
    (FleetThread.shutdown p).Stops f' := by
  cases stage <;> simp only [shutdownStep] at h
  case stopping =>
    cases h
    show f.markStopped.closed = true
    unfold Fleet.markStopped
    split_ifs with hclosed
    · exact hclosed
    · rfl
  case spawning =>
    cases h
    exact hstops
  case waiting =>
    split at h
    · cases h
      trivial
    · split_ifs at h with hdone
      cases h
      exact hdone

theorem FleetSteps.stops (h : FleetSteps config o f f' thread thread' spawned)
    (hthread : thread.Stops f) : thread'.Stops f' ∧ ∀ u ∈ spawned, u.Stops f' := by
  have honward := h.onward
  cases h with
  | shutdown step =>
    rename_i stage p
    refine ⟨stops_shutdownStep step hthread, fun u hu => ?_⟩
    -- The joiner is spawned after the fleet has been closed, and has waited for nothing yet.
    obtain ⟨rfl, rfl⟩ := mem_joiner hu
    exact Fleet.Idle.onward ⟨hthread, by simp [JoinStage.joined]⟩ honward
  | join step => exact ⟨stops_joinStep step hthread, by simp⟩
  | start step =>
    refine ⟨trivial, fun u hu => ?_⟩
    rcases mem_loops hu with rfl | rfl <;> trivial
  | _ => exact ⟨trivial, by simp⟩

theorem stops_of_run (run : FleetRun config ts s) :
    s.shared.StopsInOrder ∧ ∀ thread ∈ s.threads, thread.Stops s.shared := by
  refine Program.Run.invariant Fleet.StopsInOrder (fun f thread => thread.Stops f) run ?_ ?_ ?_
  · exact ⟨by rintro ⟨⟩, by rintro ⟨⟩⟩
  · intro f request _
    cases request <;> simp only [fleetProgram, FleetRequest.thread]
    case shutdown => split_ifs <;> trivial
    all_goals trivial
  · intro o f thread f' thread' spawned hf hthread heq
    have hsteps := steps_of_fleetStep heq
    exact ⟨hsteps.stopsInOrder hf hthread, (hsteps.stops hthread).1, (hsteps.stops hthread).2,
      fun u hu => hu.onward hsteps.onward⟩

/-- **`Shutdown` joins everything**: when it has returned without an error, nothing is running. -/
theorem not_does_of_joined (run : FleetRun config ts s)
    (hreturned : .shutdown (.finished none) ∈ s.threads) (hthread : thread ∈ s.threads)
    (work : FleetWork) : thread.does work = false := by
  obtain ⟨horder, hstops⟩ := stops_of_run run
  have hidle := horder.done (hstops _ hreturned)
  have hgroup : s.shared.waitGroup work.group ≤ 0 := by
    refine hidle.2 work.group ?_
    cases work <;> simp [FleetWork.group]
  refine Bool.eq_false_iff.mpr fun hdoes => ?_
  -- A thread at work would be counted in its group, but the group is empty.
  have hle : thread.owes ≤ (s.threads.map FleetThread.owes).sum := by
    refine List.single_le_sum (fun owed howed => ?_) _ (List.mem_map_of_mem hthread)
    obtain ⟨u, -, rfl⟩ := List.mem_map.mp howed
    exact u.owes_nonneg
  have hone : 1 ≤ thread.owes work.group := FleetThread.one_le_owes hdoes
  have hsum : thread.owes work.group ≤ s.shared.waitGroup work.group := by
    rw [← sum_owes_eq run]
    exact hle work.group
  omega

theorem countP_isLoop_le (run : FleetRun config ts s) (loop : FleetLoop) :
    s.threads.countP (FleetThread.isLoop loop) ≤ 1 := by
  rw [Program.Run.countP_eq_sum, sum_isLoop_eq run loop]
  exact Bool.toNat_le _

/-- **Stopping is final, and `Shutdown` joins everything**, whatever the threads do: a fleet that is
closed is stopped; each step from then on leaves it so, keeps the active snapshot and admits no
work; when `Shutdown` has returned without an error no work is in progress; and no loop is ever
started twice. -/
theorem stopping_is_final (run : FleetRun config ts s) :
    (s.shared.closed = true → s.shared.state = .stopped) ∧
    (∀ (k : Nat) (e : FleetMove κ), ts[k]? = some e → e.before.shared.closed = true →
      e.after.shared.closed = true ∧
      e.after.shared.state = .stopped ∧
      e.after.shared.active = e.before.shared.active ∧
      ∀ (id : Nat) (thread : FleetThread κ) (work : FleetWork),
        e.after.threads[id]? = some thread → thread.does work = true →
        ∃ thread₀ : FleetThread κ,
          e.before.threads[id]? = some thread₀ ∧ thread₀.does work = true) ∧
    (.shutdown (.finished none) ∈ s.threads →
      ∀ thread ∈ s.threads, ∀ work, thread.does work = false) ∧
    ∀ loop, s.threads.countP (FleetThread.isLoop loop) ≤ 1 := by
  refine ⟨(stops_of_run run).1.stopped, fun k e hk hclosed => ?_,
    fun hreturned thread hthread => not_does_of_joined run hreturned hthread, countP_isLoop_le run⟩
  have honward := onward_of_move run hk
  have hstopped := (stops_of_run (run.upTo hk).1).1.stopped hclosed
  exact ⟨(honward.closed hclosed).1, honward.stopped hclosed hstopped, (honward.closed hclosed).2,
    fun id thread work hthread hdoes => does_before_of_closed run hk hclosed hthread hdoes⟩

end Joining

def watchedFleet : FleetConfig := { sampleFleet with watcher := true }

/-- What a loop reads when its context is canceled. -/
def canceledAt (clock : Int) : Outside Empty :=
  { outsideAt clock .finish 0 with
    ctx := some (.sentinel .canceled)
    slept := some (.sentinel .canceled) }

/-- `Start`, then `Shutdown`: both loops leave, the wait groups are waited for, and `Shutdown`
returns. -/
def lifetime : List (Act FleetRequest (Outside Empty)) :=
  [.call (.start false)] ++ stepsAt 0 2 100 ++ loadsAt 0 100 100 ++ stepsAt 0 4 100 ++
  [.call (.shutdown false)] ++ stepsAt 3 2 101 ++
  List.replicate 3 (.step 1 (canceledAt 102)) ++ List.replicate 3 (.step 2 (canceledAt 102)) ++
  stepsAt 4 5 103 ++ stepsAt 3 1 104

/-- `Shutdown` has returned without an error. -/
def hasShutDown (s : FleetPool κ) : Bool :=
  s.threads.any fun thread => match thread with
    | .shutdown (.finished none) => true
    | _ => false

theorem mem_of_hasShutDown {s : FleetPool κ} (h : hasShutDown s = true) :
    .shutdown (.finished none) ∈ s.threads := by
  obtain ⟨thread, hthread, heq⟩ := List.any_eq_true.mp h
  split at heq
  · exact hthread
  · cases heq

/-- Both loops have been started once, and nothing of them is left. -/
theorem stopping_is_final_lifetime :
    letI := unaryRuntime
    ∃ (ts : List (FleetMove Empty)) (s : FleetPool Empty), FleetRun watchedFleet ts s ∧
      .shutdown (.finished none) ∈ s.threads ∧
      (∀ thread ∈ s.threads, ∀ work, thread.does work = false) ∧
      s.threads.countP (FleetThread.isLoop .refresh) = 1 ∧
      s.threads.countP (FleetThread.isLoop .watch) = 1 ∧ s.shared.state = .stopped := by
  let _ := unaryRuntime
  obtain ⟨ts, s, run, -, hfacts⟩ := exists_fleetRun watchedFleet lifetime
    (fun x => hasShutDown x.2 && x.2.shared.closed &&
      x.2.threads.countP (FleetThread.isLoop .refresh) == 1 &&
      x.2.threads.countP (FleetThread.isLoop .watch) == 1) (by decide +kernel)
  simp only [Bool.and_eq_true, beq_iff_eq] at hfacts
  obtain ⟨⟨⟨hreturned, hclosed⟩, hrefresh⟩, hwatch⟩ := hfacts
  have hmem := mem_of_hasShutDown hreturned
  obtain ⟨hstopped, -, hjoined, -⟩ := stopping_is_final run
  exact ⟨ts, s, run, hmem, hjoined hmem, hrefresh, hwatch, hstopped hclosed⟩

end FeatureFlags
