import FeatureFlags.Equiv.Activation

/-!
# Degraded evaluation

What a successful evaluation of a fleet can be (`degraded_evaluation_bounded`): either the snapshot
that was active when the evaluation read it decides, and then it is young enough for the key, or the
policy of the key makes up a value, and then there is no fresh snapshot and the key is not security
sensitive.

The proof rests on an invariant of all threads: every active snapshot, and every one that an
evaluation still holds, has been accepted for the fleet's tenant (`accepted_of_run`, `Reads`), and
an evaluation that retains a stale snapshot does so within the bound of its key's policy.
-/

namespace FeatureFlags

open Go Lib

variable {κ : Type}

/-! ### Policies -/

/-- The bound of a key whose policy is last-known-good; the others have none. -/
def FleetConfig.lastKnownGoodBound (config : FleetConfig) (key : Bytes) : Int :=
  match config.policies[key]? with
  | some policy => if policy.mode = .lastKnownGood then policy.maxStaleness else 0
  | none => 0

variable {config : FleetConfig}

theorem FleetConfig.Ok.bound_le (h : config.Ok) (key : Bytes) :
    max config.freshFor (config.lastKnownGoodBound key) ≤ config.maxStaleness := by
  refine max_le h.maxStaleness ?_
  have hpos := h.freshFor
  have hle := h.maxStaleness
  unfold lastKnownGoodBound
  split
  · rename_i policy hpolicy
    split_ifs with hmode
    · exact (h.policies key policy hpolicy).bound hmode
    · omega
  · omega

/-- A value that the policy makes up. -/
def Synthesizes (policy : FlagPolicy) (value : Value) : Prop :=
  policy.mode = .failOpen ∧ value = .boolean true ∨ policy.mode = .default ∧ value = policy.default

variable {result : EvaluationResult} {query : FlagQuery}

theorem degraded_eq_result_ok {limits : Limits}
    (h : degraded config limits query = .result (.ok result)) :
    ∃ policy, config.policies[query.key]? = some policy ∧ Synthesizes policy result.value ∧
      result.value.type = query.expected := by
  unfold degraded at h
  split at h
  · cases h
  · rename_i policy hpolicy
    split at h
    case h_1 hmode =>
      split_ifs at h with hexpected <;> cases h
      exact ⟨policy, hpolicy, .inl ⟨hmode, rfl⟩, (not_not.mp hexpected).symm⟩
    case h_2 hmode =>
      split_ifs at h with hexpected
      · cases h
      · split at h <;> cases h
        exact ⟨policy, hpolicy, .inr ⟨hmode, rfl⟩, not_not.mp hexpected⟩
    all_goals cases h

theorem degraded_eq_lastKnownGood {limits : Limits} {maxStaleness : Int}
    (h : degraded config limits query = .lastKnownGood maxStaleness) :
    maxStaleness = config.lastKnownGoodBound query.key := by
  unfold degraded at h
  unfold FleetConfig.lastKnownGoodBound
  split at h
  · cases h
  · rename_i policy hpolicy
    split at h
    case h_1 => split_ifs at h
    case h_2 =>
      split_ifs at h
      split at h <;> cases h
    case h_3 hmode =>
      cases h
      rw [hpolicy]
      exact (if_pos hmode).symm
    all_goals cases h

/-! ### Snapshots in use -/

variable {active : ActiveSnapshot κ}

section Accepted

variable [CustomStrategy κ] [Runtime]

/-- The snapshot has been accepted, and is bound to the tenant of the fleet. -/
def ActiveSnapshot.Accepted (config : FleetConfig) (active : ActiveSnapshot κ) : Prop :=
  ∃ ord definitions groups limits s,
    newSnapshotWithGroups ord definitions groups limits = .ok s ∧
    active.snapshot = s.bindTenant config.tenant

theorem ActiveSnapshot.Accepted.tenant (h : active.Accepted config) :
    active.snapshot.tenant = config.tenant := by
  obtain ⟨ord, definitions, groups, limits, s, -, heq⟩ := h
  rw [heq]
  rfl

theorem ActiveSnapshot.Accepted.type
    (hκ : ∀ x : κ, (CustomStrategy.snapshotStrategy x).targetVariant =
      CustomStrategy.targetVariant x) (h : active.Accepted config) {ord : MapOrder} {r}
    (hr : active.snapshot.evaluate ord query.key query.expected query.context = .ok r) :
    r.value.type = query.expected := by
  obtain ⟨ord', definitions, groups, limits, s, hs, heq⟩ := h
  rw [heq] at hr
  obtain ⟨d, -, -, htype, -⟩ := evaluate_selected hκ hs hr
  exact htype

variable {config : FleetConfig} {ts : List (FleetMove κ)} {s : FleetPool κ}

/-- The active snapshot has been accepted, since only `activate` changes it. -/
theorem accepted_of_run (run : FleetRun config ts s) (hactive : s.shared.active = some active) :
    active.Accepted config := by
  refine run.along (fun s => ∀ active, s.shared.active = some active → active.Accepted config) ?_ ?_
    active hactive
  · intro active hactive
    cases hactive
  · intro k e hk hbefore active hactive
    by_cases hchange : e.after.shared.active = e.before.shared.active
    · exact hbefore active (hchange ▸ hactive)
    · obtain ⟨id, call, q, candidate, now, ord, snapshot, validated, -, hadmissible, -,
        hinstalled⟩ :=
        installsAdmissible_of_move run hk hchange
      cases hinstalled.symm.trans hactive
      obtain ⟨s, hs, rfl⟩ := hadmissible.graph
      exact ⟨ord, _, _, _, s, hs, rfl⟩

end Accepted

/-! ### Evaluations -/

/-- The thread `id` has read the active snapshot for its evaluation, and this is what it has got. -/
def Reads (ts : List (FleetMove κ)) (id : Nat) (query : FlagQuery)
    (held : Option (ActiveSnapshot κ)) : Prop :=
  ∃ (j : Nat) (e : FleetMove κ), ts[j]? = some e ∧
    e.before.threads[id]? = some (.evaluate query (.running .reading)) ∧
    e.before.shared.active = held

theorem Reads.of_take {ts : List (FleetMove κ)} {id k : Nat} {held}
    (h : Reads (ts.take k) id query held) : Reads (ts.take (k + 1)) id query held := by
  obtain ⟨j, e, hj, hreads⟩ := h
  have hlt : j < k := by
    have := (List.getElem?_eq_some_iff.mp hj).1
    rw [List.length_take] at this
    omega
  rw [List.getElem?_take_of_lt hlt] at hj
  exact ⟨j, e, by rw [List.getElem?_take_of_lt (Nat.lt_succ_of_lt hlt), hj], hreads⟩

/-- What a thread knows when it is past its reading of the active snapshot. -/
def Knows (config : FleetConfig) (ts : List (FleetMove κ)) (id : Nat) : FleetThread κ → Prop
  | .evaluate query (.running (.aging active)) => Reads ts id query (some active)
  | .evaluate query (.running (.retaining active maxStaleness)) =>
    Reads ts id query (some active) ∧ maxStaleness = config.lastKnownGoodBound query.key
  | _ => True

/-- In this step the evaluation of the thread `id` returns a result. -/
structure EvaluationSucceeds (e : FleetMove κ) (id : Nat) (query : FlagQuery) (o : Outside κ)
    (result : EvaluationResult) : Prop where
  action : e.action = .step id o
  before : ∃ stage, e.before.threads[id]? = some (.evaluate query (.running stage))
  after : e.after.threads[id]? = some (.evaluate query (.finished (.ok result)))

section Evaluations

variable [CustomStrategy κ] [Runtime]

/-- The snapshot decides: it is bound to the fleet's tenant, and young enough for the key. -/
structure FromSnapshot (config : FleetConfig) (ord : MapOrder) (query : FlagQuery) (now : Time)
    (active : ActiveSnapshot κ) (result : EvaluationResult) : Prop where
  tenant : active.snapshot.tenant = config.tenant
  age : active.age now ≤ max config.freshFor (config.lastKnownGoodBound query.key)
  evaluate : ∃ r, active.snapshot.evaluate ord query.key query.expected query.context = .ok r ∧
    (result = r ∨ result = { r with reason := .degradedLastKnownGood })

/-- The policy of the key makes up the value: it says so, the key is not security sensitive, and
there is no fresh snapshot. -/
structure FromPolicy (config : FleetConfig) (query : FlagQuery) (now : Time)
    (held : Option (ActiveSnapshot κ)) (result : EvaluationResult) : Prop where
  policy : ∃ policy, config.policies[query.key]? = some policy ∧ Synthesizes policy result.value ∧
    policy.securitySensitive = false
  notFresh : ∀ active, held = some active → config.freshFor < active.age now

variable {config : FleetConfig} {query : FlagQuery} {o : Outside κ} {f f' : Fleet κ}

/-- The ways to a result. -/
theorem evaluateStep_eq_ok {stage : EvaluateStage κ}
    (h : evaluateStep config query o f stage = some (f', .finished (.ok result))) :
    (stage = .reading ∧ f.active = none ∧
      degraded config defaultLimits query = .result (.ok result)) ∨
    (∃ active, stage = .aging active ∧ active.age (f.now o.clock).1 ≤ config.freshFor ∧
      active.snapshot.evaluate o.ord query.key query.expected query.context = .ok result) ∨
    (∃ active, stage = .aging active ∧ config.freshFor < active.age (f.now o.clock).1 ∧
      degraded config active.snapshot.limits query = .result (.ok result)) ∨
    ∃ active maxStaleness r, stage = .retaining active maxStaleness ∧
      active.age (f.now o.clock).1 ≤ maxStaleness ∧
      active.snapshot.evaluate o.ord query.key query.expected query.context = .ok r ∧
      result = { r with reason := .degradedLastKnownGood } := by
  cases stage <;> simp only [evaluateStep] at h
  case reading =>
    split at h
    · split at h <;> cases h
    · rename_i hnone
      split at h
      · cases h
      · split at h <;> cases h
        rename_i hdegraded
        exact .inl ⟨rfl, hnone, hdegraded⟩
  case aging active =>
    split_ifs at h with hfresh
    · simp only [Option.some.injEq, Prod.mk.injEq, Progress.finished.injEq] at h
      exact .inr (.inl ⟨active, rfl, hfresh, h.2⟩)
    · split at h <;> cases h
      rename_i hdegraded
      exact .inr (.inr (.inl ⟨active, rfl, Int.not_le.mp hfresh, hdegraded⟩))
  case retaining active maxStaleness =>
    split_ifs at h with hstale
    · cases h
    · simp only [Option.some.injEq, Prod.mk.injEq, Progress.finished.injEq] at h
      cases hr : active.snapshot.evaluate o.ord query.key query.expected query.context with
      | error err =>
        rw [hr] at h
        cases h.2
      | ok r =>
        rw [hr] at h
        cases h.2
        exact .inr (.inr (.inr ⟨active, maxStaleness, r, rfl, Int.not_lt.mp hstale, hr, rfl⟩))

/-- An evaluation goes on with what it has read, or with what the policy says. -/
theorem evaluateStep_eq_running {stage stage' : EvaluateStage κ}
    (h : evaluateStep config query o f stage = some (f', .running stage')) :
    (∃ active, stage = .reading ∧ f.active = some active ∧ stage' = .aging active) ∨
    ∃ active, stage = .aging active ∧
      stage' = .retaining active (config.lastKnownGoodBound query.key) := by
  cases stage <;> simp only [evaluateStep] at h
  case reading =>
    split at h
    · rename_i active hactive
      split at h <;> cases h
      exact .inl ⟨active, rfl, hactive, rfl⟩
    · split at h
      · cases h
      · split at h <;> cases h
  case aging active =>
    split_ifs at h
    · cases h
    · split at h <;> cases h
      rename_i maxStaleness hdegraded
      exact .inr ⟨active, rfl, by rw [degraded_eq_lastKnownGood hdegraded]⟩
  case retaining => split_ifs at h <;> cases h

variable {ts : List (FleetMove κ)} {s : FleetPool κ} {k id : Nat} {e : FleetMove κ}

theorem knows_of_run (run : FleetRun config ts s) {thread : FleetThread κ}
    (hthread : s.threads[id]? = some thread) : Knows config ts id thread := by
  refine Program.Run.thread_along (Knows config ts) run ?_ ?_ hthread
  · intro id request
    cases request <;> simp only [fleetProgram, FleetRequest.thread]
    case evaluate => split_ifs <;> trivial
    all_goals trivial
  · intro k e id o thread thread' spawned hk _ hthread hafter hknows heq
    have hsteps := steps_of_fleetStep heq
    refine ⟨?_, fun j u hu => ?_⟩
    · cases hsteps with
      | evaluate step =>
        rename_i query stage p
        cases p with
        | finished => trivial
        | running stage' =>
          rcases evaluateStep_eq_running step with ⟨active, rfl, hactive, rfl⟩ | ⟨active, rfl, rfl⟩
          · exact ⟨k, e, hk, hthread, hactive⟩
          · exact ⟨hknows, rfl⟩
      | _ => trivial
    · rcases hsteps.mem_spawned hu with rfl | rfl | rfl <;> trivial

omit [CustomStrategy κ] [Runtime] in
/-- A policy of an accepted configuration that makes up a value is that of a key which is not
security sensitive. -/
theorem fromPolicy_of_degraded {ord : MapOrder} {raw : FleetConfig}
    (accepted : newFleet ord raw = .ok config) {limits : Limits}
    (h : degraded config limits query = .result (.ok result)) (now : Time)
    (held : Option (ActiveSnapshot κ))
    (hheld : ∀ active, held = some active → config.freshFor < active.age now) :
    FromPolicy raw query now held result ∧ result.value.type = query.expected := by
  obtain ⟨hok, hraw, hlookup⟩ := newFleet_eq_ok accepted
  obtain ⟨policy, hpolicy, hsynthesizes, htype⟩ := degraded_eq_result_ok h
  have hfresh : config.freshFor = raw.freshFor := by rw [← hraw]
  obtain ⟨policy, hkey, rfl⟩ := Option.map_eq_some_iff.mp ((hlookup query.key).symm.trans hpolicy)
  have hsafe := (hok.policies query.key _ hpolicy).safe
  rw [securitySensitive_inherit, mode_inherit] at hsafe
  unfold Synthesizes at hsynthesizes
  rw [mode_inherit, default_inherit] at hsynthesizes
  refine ⟨⟨⟨policy, hkey, hsynthesizes, ?_⟩, hfresh ▸ hheld⟩, htype⟩
  refine Bool.eq_false_iff.mpr fun hsensitive => ?_
  rcases hsynthesizes with ⟨hmode, -⟩ | ⟨hmode, -⟩
  · exact (hsafe hsensitive).1 hmode
  · exact (hsafe hsensitive).2 hmode

theorem accepted_of_reads (run : FleetRun config ts s) (h : Reads ts id query (some active)) :
    active.Accepted config := by
  obtain ⟨j, e, hj, -, hactive⟩ := h
  exact accepted_of_run (run.upTo hj).1 hactive

/-- **Degraded evaluation is bounded, and never makes up security-sensitive values**: a successful
evaluation has read the active snapshot.  Either this snapshot decides, and its age at the clock
reading used is within the bound of the key, or its policy makes up the value, which needs an absent
or stale snapshot and a policy that is not security sensitive.  The result has the type that was
asked for, if custom strategies keep their target when a snapshot is taken. -/
theorem degraded_evaluation_bounded {ord : MapOrder} {raw : FleetConfig}
    (accepted : newFleet ord raw = .ok config) (run : FleetRun config ts s) (hk : ts[k]? = some e)
    {result : EvaluationResult} (succeeds : EvaluationSucceeds e id query o result) :
    (∃ held, Reads (ts.take (k + 1)) id query held ∧ ((∃ active,
      held = some active ∧ FromSnapshot config o.ord query (e.before.shared.now o.clock).1 active
      result) ∨ FromPolicy raw query (e.before.shared.now o.clock).1 held result)) ∧
    max config.freshFor (config.lastKnownGoodBound query.key) ≤ config.maxStaleness ∧
    ((∀ x : κ, (CustomStrategy.snapshotStrategy x).targetVariant =
      CustomStrategy.targetVariant x) → result.value.type = query.expected) := by
  obtain ⟨stage, hstage⟩ := succeeds.before
  have hknows := knows_of_run (run.upTo hk).1 hstage
  have hstep : evaluateStep config query o e.before.shared stage =
      some (e.after.shared, .finished (.ok result)) := by
    obtain ⟨thread, thread', spawned, hbefore, hafter, heq⟩ :=
      run.step_at hk succeeds.action
    cases hbefore.symm.trans hstage
    cases hafter.symm.trans succeeds.after
    cases steps_of_fleetStep heq with
    | evaluate step => exact step
  have hbound := (newFleet_eq_ok accepted).1.bound_le query.key
  rcases evaluateStep_eq_ok hstep with ⟨rfl, hnone, hdegraded⟩ | ⟨active, rfl, hfresh, hr⟩ |
    ⟨active, rfl, hstale, hdegraded⟩ | ⟨active, _, r, rfl, hage, hr, rfl⟩
  · -- No snapshot was active when the evaluation looked.
    have hreads : Reads (ts.take (k + 1)) id query none :=
      ⟨k, e, by rw [List.getElem?_take_of_lt (Nat.lt_succ_self k), hk], hstage, hnone⟩
    obtain ⟨hpolicy, htype⟩ := fromPolicy_of_degraded accepted hdegraded
      (e.before.shared.now o.clock).1 none (by rintro _ ⟨⟩)
    exact ⟨⟨none, hreads, .inr hpolicy⟩, hbound, fun _ => htype⟩
  · -- The snapshot is fresh.
    have haccepted := accepted_of_reads (run.upTo hk).1 hknows
    exact ⟨⟨some active, hknows.of_take, .inl ⟨active, rfl, haccepted.tenant,
      le_max_of_le_left hfresh, result, hr, .inl rfl⟩⟩, hbound, fun hκ => haccepted.type hκ hr⟩
  · -- The snapshot is stale, and the policy does not retain it.
    obtain ⟨hpolicy, htype⟩ := fromPolicy_of_degraded accepted hdegraded
      (e.before.shared.now o.clock).1 (some active) (by rintro _ ⟨⟩; exact hstale)
    exact ⟨⟨some active, hknows.of_take, .inr hpolicy⟩, hbound, fun _ => htype⟩
  · -- The snapshot is stale, and the policy retains it within its bound.
    obtain ⟨hreads, rfl⟩ := hknows
    have haccepted := accepted_of_reads (run.upTo hk).1 hreads
    exact ⟨⟨some active, hreads.of_take, .inl ⟨active, rfl, haccepted.tenant,
      le_max_of_le_right hage, r, hr, .inr rfl⟩⟩, hbound,
      fun hκ => show r.value.type = query.expected from haccepted.type hκ hr⟩

end Evaluations

/-- A fleet whose flag `f` fails open. -/
def openFleet : FleetConfig :=
  { sampleFleet with policies := insert (str "f", ⟨.failOpen, .boolean false, 0, false⟩) ∅ }

/-- A bootstrap at the time 100 and an evaluation at 110. -/
def outage : List (Act FleetRequest (Outside Empty)) :=
  [.call (.bootstrap false)] ++ stepsAt 0 1 100 ++ loadsAt 0 100 100 ++ stepsAt 0 3 100 ++
  [.call (.evaluate sampleQuery)] ++ stepsAt 1 2 110

/-- The result that the evaluation `id` of the query returns in this step. -/
def returnedBy (e : FleetMove κ) (id : Nat) (query : FlagQuery) : Option EvaluationResult :=
  match e.before.threads[id]?, e.after.threads[id]? with
  | some (.evaluate query₁ (.running _)), some (.evaluate query₂ (.finished (.ok result))) =>
    if query₁ = query ∧ query₂ = query then some result else none
  | _, _ => none

theorem evaluationSucceeds_of_returnedBy {e : FleetMove κ} {id : Nat} {o : Outside κ}
    (haction : e.action = .step id o) (h : returnedBy e id query = some result) :
    EvaluationSucceeds e id query o result := by
  unfold returnedBy at h
  split at h
  · rename_i stage query₂ result' hbefore hafter
    split_ifs at h with hquery
    obtain ⟨rfl, rfl⟩ := hquery
    cases h
    exact ⟨haction, ⟨stage, hbefore⟩, hafter⟩
  · cases h

/-- Ten nanoseconds after its source, the snapshot is stale, and the flag is on. -/
theorem degraded_evaluation_bounded_outage :
    letI := unaryRuntime
    ∃ (ts : List (FleetMove Empty)) (s : FleetPool Empty) (e : FleetMove Empty)
      (o : Outside Empty) (result : EvaluationResult), FleetRun openFleet ts s ∧
      ts[15]? = some e ∧ EvaluationSucceeds e 1 sampleQuery o result ∧
      result.value = .boolean true ∧ result.value.type = .boolean ∧
      ∃ held, Reads (ts.take 16) 1 sampleQuery held ∧
        ((∃ active, held = some active ∧ FromSnapshot openFleet o.ord sampleQuery
          (e.before.shared.now o.clock).1 active result) ∨
        FromPolicy openFleet sampleQuery (e.before.shared.now o.clock).1 held result) := by
  let _ := unaryRuntime
  obtain ⟨ts, s, run, hactions, hfacts⟩ := exists_fleetRun openFleet outage
    (fun x => x.1[15]?.any fun e => (returnedBy e 1 sampleQuery).any fun result =>
      result.value = .boolean true) (by decide +kernel)
  simp only [Option.any_eq_true, decide_eq_true_eq] at hfacts
  obtain ⟨e, he, result, hresult, hvalue⟩ := hfacts
  have succeeds : EvaluationSucceeds e 1 sampleQuery (outsideAt 110 .finish 0) result :=
    evaluationSucceeds_of_returnedBy (action_eq hactions he rfl) hresult
  have accepted : newFleet .sorted openFleet = .ok openFleet := by decide +kernel
  obtain ⟨houtcome, -, htype⟩ := degraded_evaluation_bounded accepted run he succeeds
  exact ⟨ts, s, e, _, result, run, he, succeeds, hvalue, htype fun x => x.elim, houtcome⟩

end FeatureFlags
