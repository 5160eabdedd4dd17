import FeatureFlags.Equiv.SingleFlight
import FeatureFlags.Lib.Spacing

/-!
# The rate of refreshes

`refresh_rate_limited`: flights start at least `MinRefreshInterval` apart, and a call that is
deferred does nothing but read the clock.

A call reads the clock before it takes the lock, so that the readings can arrive in any order.  A
reading that is older than the last start counts as an age of zero (`boundedAge`), which is below
the interval, and the call is deferred.
-/

namespace FeatureFlags

open Go Lib

variable {κ : Type}

/-! ### Deferred calls -/

/-- From step `j` to step `k` the thread `id` is inside a call of `Refresh`.  Two calls of one
thread are never next to each other, so that it is the same call. -/
def InRefresh (ts : List (FleetMove κ)) (id j k : Nat) : Prop :=
  ∀ l e, j ≤ l → l ≤ k → ts[l]? = some e →
    ∃ thread, e.before.threads[id]? = some thread ∧ thread.refreshing.isSome

/-- The call has been admitted, as a leader or a follower. -/
def RefreshStage.admitted : RefreshStage κ → Bool
  | .waiting _ => true
  | .leading _ _ => true
  | _ => false

/-- The call of `Refresh` that the thread `id` is in, if any, has been admitted. -/
def Admitted (id : Nat) (s : FleetPool κ) : Prop :=
  ∃ thread, s.threads[id]? = some thread ∧
    ∀ stage, thread.refreshing = some stage → stage.admitted = true

section Deferred

variable [CustomStrategy κ] [Runtime] {config : FleetConfig} {ts : List (FleetMove κ)}
  {s : FleetPool κ} {k : Nat} {e : FleetMove κ}

variable (run : FleetRun config ts s)
include run

/-- The disposition of a flight is never `RefreshDeferred`. -/
theorem disposition_of_run {thread : FleetThread κ} (hthread : thread ∈ s.threads) {flight : Nat}
    {stage : FlightStage κ} {r} (hstage : thread.refreshing = some (.leading flight stage))
    (hr : stage.result? = some r) : r.disposition ≠ .deferred := by
  refine (Program.Run.invariant (fun _ => True) (fun _ (thread : FleetThread κ) => ∀ flight stage r,
    thread.refreshing = some (.leading flight stage) → stage.result? = some r → r.disposition ≠
    .deferred) run trivial ?_ ?_).2 thread hthread flight stage r hstage hr
  · intro f request _ flight stage r hstage
    cases refreshing_start hstage
  · intro o f thread f' thread' spawned _ hthread heq
    have hsteps := steps_of_fleetStep heq
    refine ⟨trivial, fun flight stage' r hstage' hr => ?_, fun u hu flight stage r hstage => ?_,
      fun u hu => hu⟩
    · rcases hsteps.stepsRefresh with ⟨stage, p, hstage, hstep, hp⟩ | ⟨-, -, hnew⟩
      · have hmoves := refreshMoves_of_refreshStep hstep
        cases p with
        | finished => cases hp.symm.trans hstage'
        | running =>
          cases hp.symm.trans hstage'
          cases hmoves with
          | leads => cases hr
          | flies _ _ _ _ result =>
            rcases result r hr with h | h
            · exact hthread flight _ r hstage h
            · exact h
          | lands result err completedAt =>
            cases hr
            exact hthread flight _ r hstage rfl
      · cases hnew _ hstage'
    · rw [hsteps.refreshing_spawned hu] at hstage
      cases hstage

/-- A call that is deferred was not admitted, and has changed nothing. -/
theorem returns_deferred (hk : ts[k]? = some e) {id : Nat} {stage : RefreshStage κ}
    {o : Outside κ} {outcome} (h : RefreshReturns config e id stage o outcome)
    (hdeferred : outcome.1.disposition = .deferred) :
    (∃ now, stage = .entering now) ∧ e.after.shared = e.before.shared := by
  obtain ⟨thread, hthread, hstage⟩ := h.before
  cases refreshMoves_of_refreshStep h.step with
  | refused | detaches => cases hdeferred
  | defers now after => exact ⟨⟨now, rfl⟩, after⟩
  | wakes cancelled landed after =>
    rename_i result err
    -- The result of a flight comes from its leader.
    obtain ⟨j, e', leader, hj, hlands⟩ := exists_lands (run.upTo hk).1 landed
    obtain ⟨thread', completedAt, hthread', hstage'⟩ := hlands.before
    have hne : result.disposition ≠ .deferred :=
      disposition_of_run ((run.upTo hk).1.upTo hj).1 (List.mem_of_getElem? hthread') hstage' rfl
    exact absurd hdeferred hne
  | leaves =>
    exact absurd hdeferred (disposition_of_run (run.upTo hk).1 (List.mem_of_getElem? hthread)
      hstage rfl)

/-- As long as the thread stays in its call, a call that has been admitted stays so. -/
theorem admitted_of_move (hk : ts[k]? = some e) {id : Nat}
    (hin : ∃ thread, e.before.threads[id]? = some thread ∧ thread.refreshing.isSome)
    (h : Admitted id e.before) : Admitted id e.after := by
  obtain ⟨thread, hthread, hadmitted⟩ := h
  obtain ⟨thread₁, hthread₁, hsome⟩ := hin
  cases hthread₁.symm.trans hthread
  obtain ⟨thread', hthread', rfl | ⟨o, spawned, haction, -⟩⟩ :=
    (run.moves hk).thread hthread
  · exact ⟨thread', hthread', hadmitted⟩
  · obtain ⟨stage, hstage⟩ := Option.isSome_iff_exists.mp hsome
    obtain ⟨-, p, thread'', hmoves, hthread'', hp⟩ :=
      refreshMoves_at run hk haction hthread hstage
    refine ⟨thread'', hthread'', fun stage' hstage' => ?_⟩
    have hadmitted := hadmitted stage hstage
    cases p with
    | finished => cases hp.symm.trans hstage'
    | running =>
      cases hp.symm.trans hstage'
      cases hmoves with
      | flies | lands => rfl
      | _ => cases hadmitted

/-- A call that is deferred only reads the clock, and never calls `load`. -/
theorem deferred_of_returns (hk : ts[k]? = some e) {id j : Nat} {stage : RefreshStage κ}
    {o o' : Outside κ} {outcome} (h : RefreshReturns config e id stage o outcome)
    (hdeferred : outcome.1.disposition = .deferred) (hin : InRefresh ts id j k) (hjk : j ≤ k)
    {e' : FleetMove κ} (hj : ts[j]? = some e') (haction : e'.action = .step id o') :
    e'.after.shared = { e'.before.shared with
      lastObservedAt := e'.after.shared.lastObservedAt } ∧
    ∀ flight, loadsFor flight e' = false := by
  obtain ⟨⟨now, rfl⟩, hsame⟩ := returns_deferred run hk h hdeferred
  obtain ⟨thread, hthread, hsome⟩ := hin j e' le_rfl hjk hj
  obtain ⟨stage, hstage⟩ := Option.isSome_iff_exists.mp hsome
  have hloads (hnot : stage.admitted = false) (flight : Nat) : loadsFor flight e' = false := by
    rw [loadsFor, haction]
    simp only [hthread, hstage, Option.any_some]
    cases stage with
    | leading => cases hnot
    | _ => rfl
  obtain ⟨thread₂, hthread₂, hstage₂⟩ := h.before
  rcases Nat.eq_or_lt_of_le hjk with rfl | hlt
  · cases hj.symm.trans hk
    cases hthread.symm.trans hthread₂
    cases hstage.symm.trans hstage₂
    exact ⟨by rw [hsame], hloads rfl⟩
  · obtain ⟨-, p, thread', hmoves, hthread', hp⟩ := refreshMoves_at run hj haction hthread hstage
    -- A call that is admitted in the step `j` would still be so in the step `k`.
    have hnot : ¬ Admitted id e'.after := by
      intro hadmitted
      have hj' : (ts.take k)[j]? = some e' := by rw [List.getElem?_take_of_lt hlt, hj]
      have hbefore : Admitted id e.before := by
        refine (run.upTo hk).1.since (Admitted id) hj' hadmitted fun l e₁ hl he₁ => ?_
        rw [List.getElem?_take] at he₁
        split_ifs at he₁ with hlk
        exact admitted_of_move run he₁ (hin l e₁ (by omega) (by omega) he₁)
      obtain ⟨thread₁, hthread₁, hstage₁⟩ := hbefore
      cases hthread₁.symm.trans hthread₂
      cases hstage₁ _ hstage₂
    cases hmoves with
    | observes after =>
      refine ⟨?_, hloads rfl⟩
      obtain ⟨t, -, heq⟩ := e'.before.shared.exists_now o'.clock
      rw [after, heq]
    | attaches | leads | flies | lands =>
      refine absurd ⟨thread', hthread', fun stage' hstage' => ?_⟩ hnot
      cases hp.symm.trans hstage'
      rfl
    | refused | defers | detaches | wakes | leaves =>
      refine absurd ⟨thread', hthread', fun stage' hstage' => ?_⟩ hnot
      cases hp.symm.trans hstage'

end Deferred

/-! ### When flights start -/

/-- The recorded start times of the flights of a run, in nanoseconds. -/
def flightStarts (ts : List (FleetMove κ)) : List Int :=
  ts.filterMap fun e =>
    if e.before.shared.flights.length < e.after.shared.flights.length then
      some e.after.shared.lastRefreshAt.nanos
    else none

/-- Every reading of the clock is after the zero time. -/
def ReadsAfterZero (ts : List (FleetMove κ)) : Prop :=
  ∀ e ∈ ts, ∀ (id : Nat) (o : Outside κ), e.action = .step id o → Time.zero.before o.clock

section Starts

variable {config : FleetConfig}

theorem le_of_le_boundedAge {now last : Time} {interval : Int} (hpos : 0 < interval)
    (h : interval ≤ boundedAge now last) : last.nanos + interval ≤ now.nanos := by
  unfold boundedAge at h
  split_ifs at h
  · omega
  · have hgap := h.trans (min_le_left _ _)
    omega

theorem Fleet.clock_le_now (f : Fleet κ) (clock : Time) : clock.nanos ≤ (f.now clock).1.nanos := by
  unfold Fleet.now
  split_ifs with h
  · exact le_of_lt h
  · exact le_rfl

variable [CustomStrategy κ] [Runtime] {ts : List (FleetMove κ)} {s : FleetPool κ} {k : Nat}
  {e : FleetMove κ}

/-- The time at which a call asks for admission is after the zero time. -/
theorem entering_pos (run : FleetRun config ts s) (readings : ReadsAfterZero ts) {id : Nat}
    {thread : FleetThread κ} (hthread : s.threads[id]? = some thread) {now : Time}
    (hstage : thread.refreshing = some (.entering now)) : 0 < now.nanos := by
  refine Program.Run.thread_along (fun _ thread => ∀ now,
    thread.refreshing = some (.entering now) → 0 < now.nanos) run ?_ ?_ hthread now hstage
  · intro id request now hstage
    cases refreshing_start hstage
  · intro k e id o thread thread' spawned hk haction _ _ _ heq
    have hsteps := steps_of_fleetStep heq
    refine ⟨fun now hstage => ?_, fun _ u hu now hstage => ?_⟩
    · rcases hsteps.stepsRefresh with ⟨stage, p, -, hstep, hp⟩ | ⟨-, -, hnew⟩
      · have hmoves := refreshMoves_of_refreshStep hstep
        cases p with
        | finished => cases hp.symm.trans hstage
        | running =>
          cases hp.symm.trans hstage
          cases hmoves with
          | observes =>
            have hclock : 0 < o.clock.nanos := readings e (List.mem_of_getElem? hk) id o haction
            exact lt_of_lt_of_le hclock (Fleet.clock_le_now _ o.clock)
      · cases hnew _ hstage
    · rw [hsteps.refreshing_spawned hu] at hstage
      cases hstage

/-- A step leaves the start time alone, or starts a flight, which the limit allows. -/
theorem starts_of_move (run : FleetRun config ts s) (readings : ReadsAfterZero ts)
    (hk : ts[k]? = some e) :
    (e.after.shared.flights.length = e.before.shared.flights.length ∧
      e.after.shared.lastRefreshAt = e.before.shared.lastRefreshAt) ∨
    e.after.shared.flights.length = e.before.shared.flights.length + 1 ∧
      0 < e.after.shared.lastRefreshAt.nanos ∧
      (e.before.shared.lastRefreshAt.isZero ∨ config.minRefreshInterval ≤
        boundedAge e.after.shared.lastRefreshAt e.before.shared.lastRefreshAt) := by
  have hfields (h : e.after.shared.flightFields = e.before.shared.flightFields) :
      e.after.shared.flights.length = e.before.shared.flights.length ∧
        e.after.shared.lastRefreshAt = e.before.shared.lastRefreshAt :=
    ⟨congrArg List.length (congrArg Fleet.Flights.flights h),
      congrArg Fleet.Flights.lastRefreshAt h⟩
  by_cases hsame : e.after.shared = e.before.shared
  · exact .inl (hfields (by rw [hsame]))
  obtain ⟨id, o, haction⟩ := run.exists_step_of_ne hk hsame
  obtain ⟨thread, thread', spawned, hthread, -, heq⟩ := run.step_at hk haction
  rcases (steps_of_fleetStep heq).stepsRefresh with ⟨stage, p, hstage, hstep, -⟩ | ⟨-, h, -⟩
  · cases refreshMoves_of_refreshStep hstep with
    | observes after =>
      rw [after] at hfields ⊢
      exact .inl (hfields (Fleet.apart_now _ _).flights)
    | refused _ _ after | defers _ after => exact absurd after hsame
    | attaches _ _ _ after | detaches _ _ after | wakes _ _ after =>
      rw [after]
      exact .inl ⟨rfl, rfl⟩
    | flies _ _ _ _ _ after | leaves _ _ _ after => exact .inl (hfields after)
    | lands flight result err _ after =>
      have hflights : e.after.shared.flights = e.before.shared.flights.set flight _ :=
        congrArg Fleet.Flights.flights after
      exact .inl ⟨by rw [hflights, List.length_set], congrArg Fleet.Flights.lastRefreshAt after⟩
    | leads now _ spaced after =>
      have hflights : e.after.shared.flights = e.before.shared.flights ++ [none] :=
        congrArg Fleet.Flights.flights after
      have hstart : e.after.shared.lastRefreshAt = now :=
        congrArg Fleet.Flights.lastRefreshAt after
      have hpos : 0 < now.nanos := by
        refine entering_pos (run.upTo hk).1 (fun e' he' => ?_) hthread hstage
        exact readings e' (List.mem_of_mem_take he')
      refine .inr ⟨by rw [hflights, List.length_append]; rfl, ?_⟩
      rw [hstart]
      exact ⟨hpos, spaced⟩
  · exact .inl (hfields h)

theorem spaced_flightStarts (run : FleetRun config ts s) (hpos : 0 < config.minRefreshInterval)
    (readings : ReadsAfterZero ts) :
    Spaced config.minRefreshInterval (flightStarts ts) ∧
      ∀ t ∈ flightStarts ts, 0 < t ∧ t ≤ s.shared.lastRefreshAt.nanos := by
  induction run with
  | start => exact ⟨List.Pairwise.nil, by rintro t ⟨⟩⟩
  | snoc run next ih =>
    rename_i ts s t a
    have hmove := starts_of_move (k := ts.length) (e := ⟨s, a, t⟩) (.snoc run next) readings
      (by simp)
    obtain ⟨hspaced, hlast⟩ := ih fun e he => readings e (List.mem_append_left _ he)
    have hstarts : flightStarts (ts ++ [⟨s, a, t⟩]) = flightStarts ts ++
        (if s.shared.flights.length < t.shared.flights.length then
          [t.shared.lastRefreshAt.nanos] else []) := by
      rw [flightStarts, List.filterMap_append, flightStarts]
      congr 1
      split_ifs with h <;> simp [h]
    rw [hstarts]
    rcases hmove with ⟨hlength, hsame⟩ | ⟨hlength, hafter, hgap⟩
    · dsimp only at hlength hsame
      rw [if_neg (by omega), List.append_nil, hsame]
      exact ⟨hspaced, hlast⟩
    · dsimp only at hlength hafter hgap
      rw [if_pos (by omega)]
      -- The last start is not at the zero time, so that the interval has been checked.
      have hle (u : Int) (hu : u ∈ flightStarts ts) :
          u + config.minRefreshInterval ≤ t.shared.lastRefreshAt.nanos := by
        obtain ⟨hu₀, hu₁⟩ := hlast u hu
        rcases hgap with hzero | hgap
        · rw [Time.isZero] at hzero
          omega
        · have := le_of_le_boundedAge hpos hgap
          omega
      refine ⟨hspaced.snoc hle, fun u hu => ?_⟩
      rcases List.mem_append.mp hu with hu | hu
      · have := hle u hu
        exact ⟨(hlast u hu).1, by omega⟩
      · rw [List.mem_singleton.mp hu]
        exact ⟨hafter, le_rfl⟩

/-- **Refreshes are limited in rate**: the start times of flights are at least `MinRefreshInterval`
apart, so a span `D` of the fleet's time has at most `D / MinRefreshInterval + 1` of them.  A call
that is deferred changes nothing but the clock, and makes no load. -/
theorem refresh_rate_limited {ord : MapOrder} {raw : FleetConfig}
    (accepted : newFleet ord raw = .ok config) (run : FleetRun config ts s)
    (readings : ReadsAfterZero ts) :
    Spaced config.minRefreshInterval (flightStarts ts) ∧
    (∀ start D : Int, 0 ≤ D → ((flightStarts ts).countP fun t => start ≤ t ∧ t ≤ start + D : Int) ≤
      D / config.minRefreshInterval + 1) ∧
    ∀ (k : Nat) (e : FleetMove κ) (id : Nat) (stage : RefreshStage κ) (o : Outside κ)
      (outcome : RefreshResult κ × Option GoError), ts[k]? = some e →
      RefreshReturns config e id stage o outcome → outcome.1.disposition = .deferred →
      ∀ (j : Nat) (e' : FleetMove κ) (o' : Outside κ), j ≤ k → InRefresh ts id j k →
        ts[j]? = some e' → e'.action = .step id o' →
        e'.after.shared = { e'.before.shared with
          lastObservedAt := e'.after.shared.lastObservedAt } ∧
        ∀ flight, loadsFor flight e' = false := by
  have hpos := (newFleet_refreshBounds accepted).1
  have hspaced := (spaced_flightStarts run hpos readings).1
  refine ⟨hspaced, fun start D hD => hspaced.countP_le hpos start hD, ?_⟩
  intro k e id stage o outcome hk hreturns hdeferred j e' o' hjk hin hj haction
  exact deferred_of_returns run hk hreturns hdeferred hin hjk hj haction

end Starts

/-- A flight at the time 100, a call at the same time, which is deferred, and a flight at 200. -/
def deferral : List (Act FleetRequest (Outside Empty)) :=
  [.call (.refresh false)] ++ stepsAt 0 3 100 ++ loadsAt 0 100 100 ++ stepsAt 0 5 100 ++
  [.call (.refresh false)] ++ stepsAt 1 2 100 ++ [.call (.refresh false)] ++ stepsAt 2 2 200

/-- The clock of a step is after the zero time. -/
def readsAfterZero : Act FleetRequest (Outside κ) → Bool
  | .call _ => true
  | .step _ o => Time.zero.before o.clock

/-- Two flights start, and the call in between them makes no load. -/
theorem refresh_rate_limited_deferral :
    letI := unaryRuntime
    ∃ (ts : List (FleetMove Empty)) (s : FleetPool Empty) (e : FleetMove Empty),
      FleetRun sampleFleet ts s ∧ flightStarts ts = [100, 200] ∧ Spaced 1 (flightStarts ts) ∧
      ts[19]? = some e ∧ e.after.shared.lastRefreshAt = e.before.shared.lastRefreshAt ∧
      e.after.shared.providerLoads = e.before.shared.providerLoads := by
  let _ := unaryRuntime
  obtain ⟨ts, s, run, hactions, hfacts⟩ := exists_fleetRun sampleFleet deferral
    (fun x => flightStarts x.1 = [100, 200] ∧ x.1[19]?.any fun e =>
      (refreshReturned e 1).any fun x => x.2.1.disposition = .deferred) (by decide +kernel)
  simp only [Option.any_eq_true, decide_eq_true_eq] at hfacts
  obtain ⟨hstarts, e, hk, ⟨stage, outcome⟩, hreturned, hdeferred⟩ := hfacts
  obtain ⟨hbefore, hafter⟩ := threads_of_refreshReturned hreturned
  have haction : e.action = .step 1 (outsideAt 100 .finish 0) := action_eq hactions hk rfl
  have readings : ReadsAfterZero ts := by
    intro e' he' id o ho
    have hmem : Act.step id o ∈ deferral := by
      rw [← hactions, ← ho]
      exact List.mem_map_of_mem he'
    have hall : deferral.all readsAfterZero = true := by decide
    exact of_decide_eq_true (List.all_eq_true.mp hall _ hmem)
  obtain ⟨hspaced, -, hcalls⟩ := refresh_rate_limited accepted_sampleFleet run readings
  have hreturns := refreshReturns_of_threads run hk haction hbefore hafter
  have hin : InRefresh ts 1 19 19 := by
    intro l e' hl hl' he'
    obtain rfl : l = 19 := by omega
    cases hk.symm.trans he'
    exact ⟨_, hbefore, rfl⟩
  obtain ⟨hsame, -⟩ :=
    hcalls 19 e 1 stage _ outcome hk hreturns hdeferred 19 e _ le_rfl hin hk haction
  exact ⟨ts, s, e, run, hstarts, hspaced, hk, by rw [hsame], by rw [hsame]⟩

end FeatureFlags
