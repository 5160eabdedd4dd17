import FeatureFlags.Equiv.Invalidation

/-!
# Convergence

`Status` reports a breach when the revision that an invalidation asked for is not active by the
deadline.

* `KeepsTarget`: an event that names the active revision does not find an older target.
* `no_false_breach`: then the revision of the last event is never reported as a breach while it is
  active.
* `false_breach_superseded`: otherwise it is, since `Invalidate` returns before it replaces the
  target.
-/

namespace FeatureFlags

open Go Lib

variable {κ : Type}

/-- The events that a run has accepted, oldest first. -/
def acceptedEvents (config : FleetConfig) (ts : List (FleetMove κ)) : List Invalidation :=
  ts.filterMap fun e => (classification config e).bind fun x =>
    if isAccepted x.2 = true then some x.1 else none

/-- In this step an event that names the active revision, next in its stream, finds no target or
its own revision as the target. -/
def KeepsTarget (e : FleetMove κ) : Prop :=
  ∀ (id : Nat) (o : Outside κ) (thread : FleetThread κ) (event : Invalidation) (now : Time),
    e.action = .step id o → e.before.threads[id]? = some thread →
    thread.task = some (.classify event now) →
    event.sequence.toNat = (e.before.shared.lastSequence event).toNat + 1 →
    e.before.shared.active.isSome = true →
    event.revision = activeRevision e.before.shared.active →
    e.before.shared.convergence.isZero ∨ e.before.shared.convergenceRevision = event.revision

/-- No call of `Status` reports a breach while the revision of the last event is active. -/
def NoFalseBreach (config : FleetConfig) (ts : List (FleetMove κ)) : Prop :=
  ∀ (k : Nat) (e : FleetMove κ) (id : Nat) (o : Outside κ) (now : Time) (status : FleetStatus)
    (event : Invalidation), ts[k]? = some e → e.action = .step id o →
    e.before.threads[id]? = some (.status (.running (.reading now))) →
    e.after.threads[id]? = some (.status (.finished status)) →
    (acceptedEvents config (ts.take k)).getLast? = some event →
    e.before.shared.active.isSome = true →
    activeRevision e.before.shared.active = event.revision → status.convergenceBreached = false

variable {outcome : Except GoError (InvalidationResult × Bool)}

variable {event : Invalidation} {e : FleetMove κ}

/-- An event is classified by a thread that is about to enter the section of `Invalidate`. -/
theorem exists_classify {config : FleetConfig}
    (h : classification config e = some (event, outcome)) :
    ∃ id o thread now, e.action = .step id o ∧ e.before.threads[id]? = some thread ∧
      thread.task = some (.classify event now) := by
  unfold classification at h
  split at h
  · rename_i id o haction
    split at h
    · rename_i event' now hbind
      cases h
      obtain ⟨thread, hthread, htask⟩ := Option.bind_eq_some_iff.mp hbind
      exact ⟨id, o, thread, now, haction, hthread, htask⟩
    · cases h
  · cases h

section Runs

variable [CustomStrategy κ] [Runtime] {config : FleetConfig} {ts : List (FleetMove κ)}
  {s : FleetPool κ} {k : Nat} {e : FleetMove κ}

/-- A step that accepts an event leaves its revision as the target, or no target. -/
theorem target_of_accepted (run : FleetRun config ts s) (hk : ts[k]? = some e)
    (keeps : KeepsTarget e) (hclass : classification config e = some (event, outcome))
    (haccepted : isAccepted outcome = true) :
    e.after.shared.convergence.isZero ∨ e.after.shared.convergenceRevision = event.revision := by
  obtain ⟨id, o, thread, now, haction, hthread, htask⟩ := exists_classify hclass
  have htarget := keeps id o thread event now haction hthread htask
  rcases classification_cases run hk with ⟨event', now', outcome', hclass', hmove⟩ | ⟨hnone, -⟩
  · cases hclass.symm.trans hclass'
    generalize e.before.shared = f at hmove htarget
    generalize e.after.shared = f' at hmove ⊢
    cases hmove with
    | full err => cases haccepted
    | late order =>
      rcases order with ⟨-, h⟩ | ⟨-, h⟩ <;> simp [isAccepted, h] at haccepted
    | accepted order gap previous room invalidations gaps target =>
      rcases target with ⟨-, -, -, h⟩ | ⟨-, -, hgap, hactive, hrevision, hconvergence, htarget'⟩
      · exact .inr h
      · rw [hconvergence, htarget']
        refine htarget ?_ hactive hrevision
        have hlt := UInt64.lt_iff_toNat_lt.mp order
        rw [gap, decide_eq_false_iff_not] at hgap
        omega
  · cases hclass.symm.trans hnone

theorem target_of_not_accepted (run : FleetRun config ts s) (hk : ts[k]? = some e)
    (hnone : ∀ event outcome, classification config e = some (event, outcome) →
      isAccepted outcome = false) :
    e.after.shared.convergence = e.before.shared.convergence ∧
      e.after.shared.convergenceRevision = e.before.shared.convergenceRevision := by
  rcases classification_cases run hk with ⟨event, now, outcome, hclass, hmove⟩ |
    ⟨-, -, -, hconvergence, hrevision⟩
  · have haccepted := hnone event outcome hclass
    generalize e.before.shared = f at hmove ⊢
    generalize e.after.shared = f' at hmove ⊢
    cases hmove with
    | full | late => exact ⟨rfl, rfl⟩
    | accepted order gap previous room invalidations gaps target =>
      rcases target with ⟨-, h, -⟩ | ⟨-, h, -⟩ <;> simp [isAccepted, h] at haccepted
  · exact ⟨hconvergence, hrevision⟩

theorem target_of_run (run : FleetRun config ts s) (keeps : ∀ e ∈ ts, KeepsTarget e)
    (hlast : (acceptedEvents config ts).getLast? = some event) :
    s.shared.convergence.isZero ∨ s.shared.convergenceRevision = event.revision := by
  induction run with
  | start => cases hlast
  | snoc run next ih =>
    rename_i ts s t a
    have hk : (ts ++ [⟨s, a, t⟩])[ts.length]? = some ⟨s, a, t⟩ := by simp
    have run' : FleetRun config (ts ++ [⟨s, a, t⟩]) t := .snoc run next
    have hkeeps := keeps ⟨s, a, t⟩ (List.mem_append_right _ (List.mem_singleton_self _))
    have hsnoc : acceptedEvents config (ts ++ [⟨s, a, t⟩]) = acceptedEvents config ts ++
        acceptedEvents config [⟨s, a, t⟩] := List.filterMap_append
    by_cases haccepts : ∃ event' outcome, classification config ⟨s, a, t⟩ = some (event', outcome) ∧
        isAccepted outcome = true
    · obtain ⟨event', outcome, hclass, haccepted⟩ := haccepts
      have hone : acceptedEvents config [⟨s, a, t⟩] = [event'] := by
        simp [acceptedEvents, hclass, haccepted]
      rw [hsnoc, hone, List.getLast?_concat] at hlast
      cases hlast
      exact target_of_accepted run' hk hkeeps hclass haccepted
    · have hnone : ∀ event' outcome, classification config ⟨s, a, t⟩ = some (event', outcome) →
          isAccepted outcome = false := by
        intro event' outcome hclass
        exact Bool.eq_false_iff.mpr fun haccepted => haccepts ⟨event', outcome, hclass, haccepted⟩
      have hempty : acceptedEvents config [⟨s, a, t⟩] = [] := by
        cases hclass : classification config (⟨s, a, t⟩ : FleetMove κ) with
        | none => simp [acceptedEvents, hclass]
        | some x => simp [acceptedEvents, hclass, hnone x.1 x.2 hclass]
      rw [hsnoc, hempty, List.append_nil] at hlast
      obtain ⟨hconvergence, hrevision⟩ := target_of_not_accepted run' hk hnone
      dsimp only at hconvergence hrevision
      rw [hconvergence, hrevision]
      exact ih (fun e he => keeps e (List.mem_append_left _ he)) hlast

/-- **No false convergence breach**: in a run in which every event that names the active revision
finds no other revision as the target, `Status` does not report a breach while the revision of the
last event is active. -/
theorem no_false_breach (run : FleetRun config ts s) (keeps : ∀ e ∈ ts, KeepsTarget e) :
    NoFalseBreach config ts := by
  intro k e id o now status event hk haction hbefore hafter hlast hactive hrevision
  have htarget := target_of_run (run.upTo hk).1
    (fun e he => keeps e (List.mem_of_mem_take he)) hlast
  obtain ⟨thread, thread', spawned, hthread, hthread', heq⟩ := run.step_at hk haction
  cases hbefore.symm.trans hthread
  cases hafter.symm.trans hthread'
  have hstatus : status = e.before.shared.status config now := by
    cases steps_of_fleetStep heq with
    | status step =>
      simp only [statusStep, Option.some.injEq, Prod.mk.injEq] at step
      exact (Progress.finished.inj step.2).symm
  rw [hstatus]
  refine decide_eq_false fun hbreached => ?_
  obtain ⟨hset, -, hnone | hne⟩ := hbreached
  · rw [Option.isSome_iff_ne_none] at hactive
    exact hactive (Option.isNone_iff_eq_none.mp hnone)
  · rcases htarget with hzero | hsame
    · exact hset hzero
    · exact hne (hrevision.trans hsame.symm)

end Runs

/-! ### Two runs -/

/-- The thread is in `Invalidate`. -/
def FleetThread.invalidating : FleetThread κ → Bool
  | .invalidate (.running _) => true
  | .watchLoop (.running (.invalidating _)) => true
  | _ => false

/-- The events of a run are those of one stream, one at a time, in order and without gaps. -/
def DeliveredInOrder (config : FleetConfig) (stream : Bytes) (ts : List (FleetMove κ)) : Prop :=
  ∀ e ∈ ts, e.after.threads.countP FleetThread.invalidating ≤ 1 ∧
    ∀ x ∈ classification config e, x.1.stream = stream ∧
      x.1.sequence.toNat = (e.before.shared.lastSequence x.1).toNat + 1

instance (config : FleetConfig) (stream : Bytes) (ts : List (FleetMove κ)) :
    Decidable (DeliveredInOrder config stream ts) :=
  inferInstanceAs (Decidable (∀ e ∈ ts, _ ∧ _))

/-- An invalidation whose refresh activates the revision `v`, another one that names `v`, and a call
of `Status` after the deadline. -/
def supersede (revision : Bytes) : List (Act FleetRequest (Outside Empty)) :=
  classifiesAt 0 100 (eventOf 1 revision) ++ stepsAt 0 3 100 ++ loadsAt 0 100 100 ++
  stepsAt 0 5 100 ++ classifiesAt 1 101 (eventOf 2 (str "v")) ++ .call .status :: stepsAt 2 2 112

/-- What the call of `Status` that is the thread `id` returns in this step. -/
def statusReturned (e : FleetMove κ) (id : Nat) : Option FleetStatus :=
  match e.before.threads[id]?, e.after.threads[id]? with
  | some (.status (.running (.reading _))), some (.status (.finished status)) => some status
  | _, _ => none

theorem threads_of_statusReturned {id : Nat} {status : FleetStatus}
    (h : statusReturned e id = some status) :
    (∃ now, e.before.threads[id]? = some (.status (.running (.reading now)))) ∧
      e.after.threads[id]? = some (.status (.finished status)) := by
  unfold statusReturned at h
  split at h
  · rename_i now status' hbefore hafter
    cases h
    exact ⟨⟨now, hbefore⟩, hafter⟩
  · cases h

/-- What is evaluated about a run of `supersede`: the last step is that of `Status`, and the last
event names the active revision. -/
def reportsBreach (breached : Bool) (ts : List (FleetMove Empty)) : Bool :=
  ts[24]?.any fun e => (statusReturned e 2).any fun status =>
    status.convergenceBreached = breached ∧ e.before.shared.active.isSome ∧
    ((acceptedEvents sampleFleet (ts.take 24)).getLast?.map Invalidation.revision) =
      some (activeRevision e.before.shared.active)

/-- A step of `supersede` keeps the target. -/
def keepsTarget (e : FleetMove κ) : Bool :=
  match e.action with
  | .step id _ =>
    match e.before.threads[id]?.bind FleetThread.task with
    | some (.classify event _) =>
      e.before.shared.active.isNone || e.before.shared.convergenceRevision = event.revision
    | _ => true
  | .call _ => true

theorem keepsTarget_of_eq_true (h : keepsTarget e = true) : KeepsTarget e := by
  intro id o thread event now haction hthread htask _ hactive _
  simp only [keepsTarget, haction, hthread, Option.bind_some, htask, Bool.or_eq_true,
    decide_eq_true_eq] at h
  refine .inr (h.resolve_left fun hnone => ?_)
  rw [Option.isSome_iff_ne_none] at hactive
  exact hactive (Option.isNone_iff_eq_none.mp hnone)

/-- The call of `Status` of a run of `supersede`. -/
theorem exists_statusReturned {ts : List (FleetMove Empty)} {revision : Bytes} {breached : Bool}
    (hactions : ts.map Transition.action = supersede revision)
    (h : reportsBreach breached ts = true) :
    ∃ (e : FleetMove Empty) (o : Outside Empty) (now : Time) (status : FleetStatus)
      (event : Invalidation), ts[24]? = some e ∧ e.action = .step 2 o ∧
      e.before.threads[2]? = some (.status (.running (.reading now))) ∧
      e.after.threads[2]? = some (.status (.finished status)) ∧
      (acceptedEvents sampleFleet (ts.take 24)).getLast? = some event ∧
      e.before.shared.active.isSome = true ∧
      activeRevision e.before.shared.active = event.revision ∧
      status.convergenceBreached = breached := by
  simp only [reportsBreach, Option.any_eq_true, decide_eq_true_eq] at h
  obtain ⟨e, hk, status, hstatus, hbreached, hactive, hlast⟩ := h
  obtain ⟨⟨now, hbefore⟩, hafter⟩ := threads_of_statusReturned hstatus
  obtain ⟨event, hevent, hrevision⟩ := Option.map_eq_some_iff.mp hlast
  exact ⟨e, _, now, status, event, hk, action_eq hactions hk rfl, hbefore, hafter, hevent, hactive,
    hrevision.symm, hbreached⟩

/-- Both events name the revision that the refresh has found; nothing is reported. -/
theorem no_false_breach_converged :
    letI := unaryRuntime
    ∃ (ts : List (FleetMove Empty)) (s : FleetPool Empty) (e : FleetMove Empty)
      (status : FleetStatus), FleetRun sampleFleet ts s ∧ ts[24]? = some e ∧
      e.after.threads[2]? = some (.status (.finished status)) ∧
      status.convergenceBreached = false := by
  let _ := unaryRuntime
  obtain ⟨ts, s, run, hactions, hfacts⟩ := exists_fleetRun sampleFleet (supersede (str "v"))
    (fun x => x.1.all keepsTarget && reportsBreach false x.1) (by decide +kernel)
  simp only [Bool.and_eq_true, List.all_eq_true] at hfacts
  obtain ⟨e, o, now, status, event, hk, haction, hbefore, hafter, hlast, hactive, hrevision, -⟩ :=
    exists_statusReturned hactions hfacts.2
  exact ⟨ts, s, e, status, run, hk, hafter, no_false_breach run (fun e he => keepsTarget_of_eq_true
    (hfacts.1 e he)) 24 e 2 o now status event hk haction hbefore hafter hlast hactive hrevision⟩

/-- The first event asks for `b`, the refresh finds `v`, and the second event, which names `v`, does
not replace the target: a breach is reported although the revision of the last event is active. -/
theorem false_breach_superseded :
    letI := unaryRuntime
    newFleet .sorted sampleFleet = .ok sampleFleet ∧
    ∃ (ts : List (FleetMove Empty)) (s : FleetPool Empty), FleetRun sampleFleet ts s ∧
      DeliveredInOrder sampleFleet (str "s") ts ∧ ¬ NoFalseBreach sampleFleet ts := by
  let _ := unaryRuntime
  obtain ⟨ts, s, run, hactions, hfacts⟩ := exists_fleetRun sampleFleet (supersede (str "b"))
    (fun x => DeliveredInOrder sampleFleet (str "s") x.1 ∧ reportsBreach true x.1 = true)
    (by decide +kernel)
  simp only [decide_eq_true_eq] at hfacts
  obtain ⟨e, o, now, status, event, hk, haction, hbefore, hafter, hlast, hactive, hrevision,
    hbreached⟩ := exists_statusReturned hactions hfacts.2
  refine ⟨by decide +kernel, ts, s, run, hfacts.1, fun hnone => ?_⟩
  have hfalse := hnone 24 e 2 o now status event hk haction hbefore hafter hlast hactive hrevision
  rw [hbreached] at hfalse
  cases hfalse

end FeatureFlags
