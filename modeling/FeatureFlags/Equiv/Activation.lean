import FeatureFlags.Equiv.Sections

/-!
# The active snapshot only moves forward

* `stale_never_revived`: a snapshot that one evaluation has found too old is never fresh again.  The
  times that `Fleet.now` returns do not decrease, whatever the clock says, and the age of a snapshot
  grows with them.
* `FleetCall`: the call of `Bootstrap` or `Refresh` that a thread is in, directly or inside another
  method.  Nothing else activates a candidate (`FleetSteps.stepsCall`), and a call that has
  activated one does not fail any more (`FleetCall.activated`).
* `CalleeMoves`, `FleetCall.moves`: what a step of such a call does.
* `active_moves_forward`: what the active snapshot can become, and when.
-/

namespace FeatureFlags

open Go Lib

variable {κ : Type} {f f' : Fleet κ}

/-! ### Ages -/

/-- If one snapshot is too old and another is not, at a later time, then the other is newer. -/
theorem before_of_ages {now now' source source' : Time} {bound : Int} (hbound : 0 < bound)
    (hnow : now.nanos ≤ now'.nanos) (hold : bound < boundedAge now source)
    (hfresh : boundedAge now' source' ≤ bound) : source.before source' := by
  simp only [boundedAge, Time.before] at *
  generalize maxDuration = longest at *
  -- the age of the first is not saturated away, since it exceeds the bound
  have hage : bound < now.nanos - source.nanos ∧ bound < longest := by
    split_ifs at hold <;> omega
  split_ifs at hfresh <;> omega

theorem Fleet.now_fst (f : Fleet κ) (clock : Time) :
    (f.now clock).1 = (f.now clock).2.lastObservedAt := by
  obtain ⟨t, -, heq⟩ := f.exists_now clock
  rw [heq]

theorem Fleet.le_now (f : Fleet κ) (clock : Time) :
    f.lastObservedAt.nanos ≤ (f.now clock).1.nanos := by
  obtain ⟨t, ht, heq⟩ := f.exists_now clock
  rw [heq]
  exact ht

/-! ### Evaluations of a run -/

/-- In this step the evaluation `id` looks at the age of `active`. -/
def AgesAt (e : FleetMove κ) (id : Nat) (query : FlagQuery) (o : Outside κ)
    (active : ActiveSnapshot κ) : Prop :=
  e.action = .step id o ∧
    e.before.threads[id]? = some (.evaluate query (.running (.aging active)))

/-- How an evaluation goes on with what the policy of the flag says. -/
def Degraded.progress (active : ActiveSnapshot κ) :
    Degraded → Progress (EvaluateStage κ) (Except GoError EvaluationResult)
  | .result outcome => .finished outcome
  | .lastKnownGood maxStaleness => .running (.retaining active maxStaleness)

section Paths

variable [CustomStrategy κ] [Runtime]

/-- How an evaluation goes on when it has looked at the age of `active`, if the policies are these.
-/
def afterAging (config : FleetConfig) (query : FlagQuery) (o : Outside κ) (f : Fleet κ)
    (active : ActiveSnapshot κ) (policies : GoMap FlagPolicy) :
    Option (Progress (EvaluateStage κ) (Except GoError EvaluationResult)) :=
  (evaluateStep { config with policies } query o f (.aging active)).map Prod.snd

/-- In this step the evaluation `id` takes the fresh path: whatever the policies are, it ends with
what `active` evaluates to. -/
def TakesFresh (config : FleetConfig) (e : FleetMove κ) (id : Nat) (active : ActiveSnapshot κ) :
    Prop :=
  ∃ query o, AgesAt e id query o active ∧ ∀ policies,
    afterAging config query o e.before.shared active policies =
      some (.finished (active.snapshot.evaluate o.ord query.key query.expected query.context))

/-- In this step the evaluation `id` finds `active` older than `FreshFor`: whatever the policies
are, it goes on with what they say. -/
def FindsStale (config : FleetConfig) (e : FleetMove κ) (id : Nat) (active : ActiveSnapshot κ) :
    Prop :=
  ∃ query o, AgesAt e id query o active ∧ ∀ policies,
    afterAging config query o e.before.shared active policies =
      some ((degraded { config with policies } active.snapshot.limits query).progress active)

end Paths

/-- After this step the evaluation `id` has ended. -/
def EvaluationEnded (e : FleetMove κ) (id : Nat) : Prop :=
  ∃ query outcome, e.after.threads[id]? = some (.evaluate query (.finished outcome))

/-- In this step the evaluation `id` starts. -/
def EvaluationStarts (e : FleetMove κ) (id : Nat) : Prop :=
  ∃ query, e.action = .call (.evaluate query) ∧ id = e.before.threads.length

variable {e : FleetMove κ} {active : ActiveSnapshot κ}

/-- No way to go on is what all policies say: without a policy the evaluation fails, and under one
that fails open it ends in another way. -/
theorem exists_policies_ne (config : FleetConfig) (limits : Limits) (query : FlagQuery)
    (active : ActiveSnapshot κ) (p) :
    ∃ policies, (degraded { config with policies } limits query).progress active ≠ p := by
  by_contra h
  push Not at h
  have hopen := h ((∅ : GoMap FlagPolicy).insert query.key ⟨.failOpen, .boolean false, 0, false⟩)
  rw [← h ∅] at hopen
  unfold degraded at hopen
  simp only [GoMap.lookup_insert_self, Std.ExtTreeMap.getElem?_empty] at hopen
  split_ifs at hopen <;> cases hopen

variable {id k : Nat} {e' : FleetMove κ}

section Runs

variable [CustomStrategy κ] [Runtime] {ord : MapOrder} {raw config : FleetConfig}
  {ts : List (FleetMove κ)} {s : FleetPool κ}

variable {query : FlagQuery} {o : Outside κ}

theorem afterAging_eq (policies : GoMap FlagPolicy) :
    afterAging config query o f active policies =
      some (if active.age (f.now o.clock).1 ≤ config.freshFor then
        .finished (active.snapshot.evaluate o.ord query.key query.expected query.context)
        else (degraded { config with policies } active.snapshot.limits query).progress active) := by
  simp only [afterAging, evaluateStep]
  split_ifs
  · rfl
  · cases degraded { config with policies } active.snapshot.limits query <;> rfl

/-- **The fresh path is taken exactly when the snapshot is young enough.** -/
theorem takesFresh_iff : TakesFresh config e id active ↔
    ∃ query o, AgesAt e id query o active ∧
      active.age (e.before.shared.now o.clock).1 ≤ config.freshFor := by
  refine exists_congr fun query => exists_congr fun o => and_congr_right fun _ => ?_
  simp only [afterAging_eq]
  refine ⟨fun h => ?_, fun hfresh policies => by rw [if_pos hfresh]⟩
  by_contra hstale
  simp only [if_neg hstale, Option.some.injEq] at h
  obtain ⟨policies, hne⟩ := exists_policies_ne config active.snapshot.limits query active _
  exact hne (h policies)

/-- A snapshot is found stale exactly when it is older than `FreshFor`. -/
theorem findsStale_iff : FindsStale config e id active ↔
    ∃ query o, AgesAt e id query o active ∧
      config.freshFor < active.age (e.before.shared.now o.clock).1 := by
  refine exists_congr fun query => exists_congr fun o => and_congr_right fun _ => ?_
  simp only [afterAging_eq]
  refine ⟨fun h => ?_, fun hstale policies => by rw [if_neg (Int.not_le.mpr hstale)]⟩
  by_contra hfresh
  simp only [if_pos (Int.not_lt.mp hfresh), Option.some.injEq] at h
  obtain ⟨policies, hne⟩ := exists_policies_ne config active.snapshot.limits query active _
  exact hne (h policies).symm

/-- The time at which an evaluation looks is the latest that the fleet has observed. -/
theorem AgesAt.now_eq (run : FleetRun config ts s) (hk : ts[k]? = some e)
    (h : AgesAt e id query o active) :
    (e.before.shared.now o.clock).1 = e.after.shared.lastObservedAt := by
  obtain ⟨haction, hthread⟩ := h
  have hmoves := run.moves hk
  rw [haction] at hmoves
  obtain ⟨before, action, after⟩ := e
  dsimp only at *
  cases hmoves with
  | step hthread' heq =>
    rw [hthread] at hthread'
    cases hthread'
    cases steps_of_fleetStep heq with
    | evaluate step =>
      simp only [evaluateStep] at step
      rw [Fleet.now_fst]
      split_ifs at step
      · cases step
        rfl
      · split at step <;> cases step <;> rfl

/-- An evaluation that has ended takes no more steps. -/
theorem not_agesAt_of_ended {j : Nat} (run : FleetRun config ts s) (hj : ts[j]? = some e)
    (hk : ts[k]? = some e') (hjk : j < k) (hended : EvaluationEnded e id) :
    ¬ AgesAt e' id query o active := by
  rintro ⟨-, hthread⟩
  obtain ⟨query', outcome, hfinished⟩ := hended
  obtain ⟨thread, hthread', rfl⟩ := Program.Run.thread_between
    (fun thread => thread = .evaluate query' (.finished outcome))
    (fun hK heq => by rw [hK] at heq; cases heq) run hj hk hjk ⟨_, hfinished, rfl⟩
  rw [hthread] at hthread'
  cases hthread'

theorem lt_of_evaluationStarts {m : Nat} (run : FleetRun config ts s) (hk : ts[k]? = some e)
    (hm : ts[m]? = some e') (hstarts : EvaluationStarts e id)
    (hages : AgesAt e' id query o active) : k < m := by
  obtain ⟨-, -, rfl⟩ := hstarts
  obtain ⟨-, hthread⟩ := hages
  -- otherwise the thread would be there when its number is given out
  by_contra hmk
  obtain ⟨thread, hthere⟩ := run.exists_thread hm hk (Nat.not_lt.mp hmk) hthread
  have hlt := (List.getElem?_eq_some_iff.mp hthere).1
  exact Nat.lt_irrefl _ hlt

/-- **Stale state is never revived**: once an evaluation has found the active snapshot older than
`FreshFor`, every evaluation that starts after it ended and takes the fresh path uses a snapshot
with a strictly later source time, whatever the clock reads in between. -/
theorem stale_never_revived (accepted : newFleet ord raw = .ok config)
    (run : FleetRun config ts s) {i j k m a b : Nat} {e₁ e₂ e₃ e₄ : FleetMove κ}
    {old new : ActiveSnapshot κ} (hi : ts[i]? = some e₁) (stale : FindsStale config e₁ a old)
    (hj : ts[j]? = some e₂) (ended : EvaluationEnded e₂ a) (hk : ts[k]? = some e₃)
    (starts : EvaluationStarts e₃ b) (hjk : j < k) (hm : ts[m]? = some e₄)
    (fresh : TakesFresh config e₄ b new) : old.sourceTime.before new.sourceTime := by
  obtain ⟨_, o, hages, hold⟩ := findsStale_iff.mp stale
  obtain ⟨_, o', hages', hfresh⟩ := takesFresh_iff.mp fresh
  -- The observation comes before the end of the first evaluation, and the second one starts later.
  have hij : i ≤ j := Nat.not_lt.mp fun hji => not_agesAt_of_ended run hj hi hji ended hages
  have hkm : k < m := lt_of_evaluationStarts run hk hm starts hages'
  have honward := onward_between run hi hm (by omega)
  have hnow : (e₁.before.shared.now o.clock).1.nanos ≤ (e₄.before.shared.now o'.clock).1.nanos :=
    calc (e₁.before.shared.now o.clock).1.nanos
      _ = e₁.after.shared.lastObservedAt.nanos := by rw [hages.now_eq run hi]
      _ ≤ e₄.before.shared.lastObservedAt.nanos := honward.observed
      _ ≤ (e₄.before.shared.now o'.clock).1.nanos := e₄.before.shared.le_now o'.clock
  exact before_of_ages (newFleet_eq_ok accepted).1.freshFor hnow hold hfresh

end Runs

/-! #### A run with a clock that goes back -/

/-- A fleet with no optional callbacks. -/
def sampleFleet : FleetConfig where
  tenant := str "t"
  replicaID := str "r"
  loader := true
  cache := false
  watcher := false
  executor := false
  failureClassifier := false
  clock := true
  refreshInterval := 10
  minRefreshInterval := 1
  maxRefreshJitter := 0
  loadTimeout := 1
  freshFor := 5
  maxStaleness := 20
  maxFutureSkew := 0
  convergenceWindow := 11
  maxWaiters := 1
  maxProviderLoads := 1
  maxConcurrentProviderLoads := 1
  maxInvalidationStreams := 1
  maxPolicies := 1
  allowEmptyBootstrap := true
  allowStaleBootstrap := false
  policies := ∅

theorem accepted_sampleFleet : newFleet .sorted sampleFleet = .ok sampleFleet := by decide +kernel

/-- What a step reads: the clock, the executor, and a candidate without features. -/
def outsideAt (clock : Int) (move : ExecutorMove) (source : Int) : Outside Empty where
  clock := ⟨clock⟩
  ord := .sorted
  ctx := none
  classified := .provider
  executor := move
  loaded := .ok ⟨some ⟨∅, ∅, str "t", defaultLimits⟩, str "v", str "p", ⟨source⟩⟩
  cached := .ok none
  stored := none
  event := .error (.external 0)
  jitter := .ok 0
  slept := none

/-- The thread takes `n` steps. -/
def stepsAt (id n : Nat) (clock : Int) : List (Act FleetRequest (Outside Empty)) :=
  List.replicate n (.step id (outsideAt clock .finish 0))

/-- The thread loads a candidate. -/
def loadsAt (id : Nat) (clock source : Int) : List (Act FleetRequest (Outside Empty)) :=
  [.finish, .call false, .operate 0, .operate 0, .operate 0, .operate 0, .operate 0, .finish].map
    fun move => .step id (outsideAt clock move source)

/-- The flag `f`, for a context of the fleet's tenant. -/
def sampleQuery : FlagQuery := ⟨str "f", .boolean, { Context.empty with tenant := str "t" }⟩

/-- A bootstrap at the time 100, an evaluation at 110, a refresh with the clock back at 50 and a
candidate from 108, and another evaluation. -/
def rollback : List (Act FleetRequest (Outside Empty)) :=
  [.call (.bootstrap false)] ++ stepsAt 0 1 100 ++ loadsAt 0 100 100 ++ stepsAt 0 3 100 ++
  [.call (.evaluate sampleQuery)] ++ stepsAt 1 2 110 ++
  [.call (.refresh false)] ++ stepsAt 2 3 50 ++ loadsAt 2 50 108 ++ stepsAt 2 5 50 ++
  [.call (.evaluate sampleQuery)] ++ stepsAt 3 2 50

/-- The snapshot whose age the evaluation `id` is about to look at. -/
def agingOf (s : FleetPool κ) (id : Nat) : Option (ActiveSnapshot κ) :=
  match s.threads[id]? with
  | some (.evaluate _ (.running (.aging active))) => some active
  | _ => none

theorem agesAt_of_agingOf {o : Outside κ} (haction : e.action = .step id o)
    (h : agingOf e.before id = some active) : ∃ query, AgesAt e id query o active := by
  unfold agingOf at h
  split at h
  · rename_i query active' hthread
    cases h
    exact ⟨query, haction, hthread⟩
  · cases h

/-- The evaluation `id` has ended. -/
def hasEnded (s : FleetPool κ) (id : Nat) : Bool :=
  match s.threads[id]? with
  | some (.evaluate _ (.finished _)) => true
  | _ => false

theorem evaluationEnded_of_hasEnded (h : hasEnded e.after id = true) : EvaluationEnded e id := by
  unfold hasEnded at h
  split at h
  · rename_i query outcome hthread
    exact ⟨query, outcome, hthread⟩
  · cases h

/-- What is evaluated about the run of `rollback`. -/
def findsStaleThenFresh (ts : List (FleetMove Empty)) : Bool :=
  (ts[15]?.any fun e => hasEnded e.after 1 && (agingOf e.before 1).any fun active =>
    sampleFleet.freshFor < active.age (e.before.shared.now ⟨110⟩).1) &&
  (ts[33]?.any fun e => e.before.threads.length = 3) &&
  (ts[35]?.any fun e => (agingOf e.before 3).any fun active =>
    active.age (e.before.shared.now ⟨50⟩).1 ≤ sampleFleet.freshFor)

/-- The clock goes back from 110 to 50, and the snapshot of the second evaluation is newer. -/
theorem stale_never_revived_rollback :
    letI := unaryRuntime
    ∃ (ts : List (FleetMove Empty)) (s : FleetPool Empty) (e₁ e₄ : FleetMove Empty)
      (old new : ActiveSnapshot Empty), FleetRun sampleFleet ts s ∧
      ts[15]? = some e₁ ∧ FindsStale sampleFleet e₁ 1 old ∧
      ts[35]? = some e₄ ∧ TakesFresh sampleFleet e₄ 3 new ∧
      old.sourceTime.before new.sourceTime := by
  let _ := unaryRuntime
  obtain ⟨ts, s, run, hactions, hfacts⟩ := exists_fleetRun sampleFleet rollback
    (fun x => findsStaleThenFresh x.1) (by decide +kernel)
  simp only [findsStaleThenFresh, Bool.and_eq_true, Option.any_eq_true, decide_eq_true_eq] at hfacts
  obtain ⟨⟨⟨e₁, h₁, hended, old, hold, hstale⟩, e₃, h₃, hlength⟩, e₄, h₄, new, hnew, hfresh⟩ :=
    hfacts
  obtain ⟨_, hages⟩ := agesAt_of_agingOf (action_eq hactions h₁ rfl) hold
  have stale : FindsStale sampleFleet e₁ 1 old := findsStale_iff.mpr ⟨_, _, hages, hstale⟩
  obtain ⟨_, hages'⟩ := agesAt_of_agingOf (action_eq hactions h₄ rfl) hnew
  have fresh : TakesFresh sampleFleet e₄ 3 new := takesFresh_iff.mpr ⟨_, _, hages', hfresh⟩
  have starts : EvaluationStarts e₃ 3 := ⟨sampleQuery, action_eq hactions h₃ rfl, hlength.symm⟩
  exact ⟨ts, s, e₁, e₄, old, new, run, h₁, stale, h₄, fresh,
    stale_never_revived accepted_sampleFleet run h₁ stale h₁ (evaluationEnded_of_hasEnded hended)
      h₃ starts (by decide) h₄ fresh⟩

/-! ### Calls that activate -/

/-- A call of `Bootstrap` or `Refresh` that is in progress. -/
inductive FleetCall (κ : Type) where
  | bootstrap (stage : BootstrapStage κ)
  | refresh (stage : RefreshStage κ)

/-- The call of `Refresh` inside `Invalidate`. -/
def InvalidateStage.call : InvalidateStage κ → Option (FleetCall κ)
  | .refreshing _ _ stage => some (.refresh stage)
  | _ => none

/-- The call of `Bootstrap` or `Refresh` that a thread is in. -/
def FleetThread.call : FleetThread κ → Option (FleetCall κ)
  | .bootstrap (.running stage) => some (.bootstrap stage)
  | .start (.running (.bootstrapping stage)) => some (.bootstrap stage)
  | .refresh (.running stage) => some (.refresh stage)
  | .invalidate (.running stage) => stage.call
  | .refreshLoop (.running (.refreshing stage)) => some (.refresh stage)
  | .watchLoop (.running (.invalidating stage)) => stage.call
  | _ => none

/-- The call of `Bootstrap` or `Refresh`. -/
def FleetInner.call : FleetInner κ → Option (FleetCall κ)
  | .bootstrap stage => some (.bootstrap stage)
  | .refresh stage => some (.refresh stage)
  | .classify _ _ => none

theorem FleetThread.call_eq (thread : FleetThread κ) :
    thread.call = thread.inner.bind FleetInner.call := by
  rcases thread with (_ | _) | (_ | _) | (_ | _) | (_ | _) | (_ | _) | (_ | _) | (_ | _) |
    (_ | _) | (_ | _) | (_ | _) <;> try rfl
  all_goals rename_i stage; cases stage <;> try rfl
  rename_i stage
  cases stage <;> rfl

/-- A call of `load` or `activate` that is in progress. -/
inductive Callee (κ : Type) where
  | load (stage : LoadStage κ)
  | activate (stage : ActivateStage κ)

namespace FleetCall

def error? {α : Type} : Except GoError α → Option GoError
  | .ok _ => none
  | .error e => some e

/-- A step of a call, up to the error that it returns. -/
def step [CustomStrategy κ] [Runtime] (config : FleetConfig) (o : Outside κ) (f : Fleet κ) :
    FleetCall κ → Option (Fleet κ × Progress (FleetCall κ) (Option GoError))
  | .bootstrap stage =>
    Progress.inside .bootstrap (fun result => .finished (error? result))
      (bootstrapStep config o f stage)
  | .refresh stage =>
    Progress.inside .refresh (fun result => .finished result.2) (refreshStep config o f stage)

/-- Whether the call may activate a snapshot that is older than `FreshFor`. -/
def allowStale (config : FleetConfig) : FleetCall κ → Bool
  | .bootstrap _ => config.allowStaleBootstrap
  | .refresh _ => false

/-- The call of `load` or `activate` inside the call. -/
def callee : FleetCall κ → Option (Callee κ)
  | .bootstrap (.loading stage) => some (.load stage)
  | .bootstrap (.activating stage) => some (.activate stage)
  | .bootstrap (.reviving _ _ stage) => some (.activate stage)
  | .refresh (.leading _ (.loading _ stage)) => some (.load stage)
  | .refresh (.leading _ (.activating _ stage)) => some (.activate stage)
  | _ => none

/-- The call has activated a candidate. -/
def activated : FleetCall κ → Bool
  | .bootstrap (.storing _) => true
  | .bootstrap (.recording _ (.ok _)) => true
  | .bootstrap (.leaving (.ok _)) => true
  | .refresh (.leading _ (.storing _)) => true
  | .refresh (.leading _ (.completing _ none)) => true
  | .refresh (.leading _ (.publishing _ none _)) => true
  | .refresh (.leading _ (.leaving _ none)) => true
  | _ => false

end FleetCall

def callOf : Progress (FleetCall κ) (Option GoError) → Option (FleetCall κ)
  | .running call => some call
  | .finished _ => none

/-- What a call is in that may have returned. -/
def calleeOf : Progress (FleetCall κ) (Option GoError) → Option (Callee κ)
  | .running call => call.callee
  | .finished _ => none

/-- A call that is in progress has activated a candidate, and one that has returned has not
failed. -/
def Succeeds : Progress (FleetCall κ) (Option GoError) → Prop
  | .running call => call.activated = true
  | .finished err => err = none

/-- `Bootstrap`, as a call. -/
def bootstrapCall (p : Progress (BootstrapStage κ) (Except GoError (ActiveSnapshot κ))) :
    Progress (FleetCall κ) (Option GoError) :=
  p.lift .bootstrap fun result => .finished (FleetCall.error? result)

/-- `Refresh`, as a call. -/
def refreshCall (p : Progress (RefreshStage κ) (RefreshResult κ × Option GoError)) :
    Progress (FleetCall κ) (Option GoError) :=
  p.lift .refresh fun result => .finished result.2

variable {q : Progress (FleetCall κ) (Option GoError)} {call : FleetCall κ}
  {p : Progress (BootstrapStage κ) (Except GoError (ActiveSnapshot κ))}

section Calls

variable {config : FleetConfig} {o : Outside κ}

theorem active_loadStep {stage : LoadStage κ} {p} (h : loadStep config o f stage = some (f', p)) :
    f'.active = f.active := by
  obtain ⟨_, _, _, rfl⟩ := loadStep_frame h
  rfl

/-- What `activate` does when it changes the active snapshot. -/
structure Installs (f f' : Fleet κ) (stage : ActivateStage κ) (candidate : SnapshotCandidate κ)
    (now : Time) (validated : Snapshot κ) : Prop where
  stage : stage = .installing candidate now validated
  active : f'.active = some
    ⟨validated, candidate.revision, candidate.provenance, candidate.sourceTime, now⟩

variable [CustomStrategy κ] [Runtime]

theorem active_activateStep {allowStale : Bool} {stage : ActivateStage κ} {p}
    (h : activateStep config o allowStale f stage = some (f', p)) :
    f'.active = f.active ∨ ∃ candidate now validated active,
      Installs f f' stage candidate now validated ∧ p = .finished (.ok active) := by
  cases stage with
  | observing candidate =>
    simp only [activateStep] at h
    split at h <;> cases h <;> exact .inl (f.apart_now o.clock).active
  | installing candidate now validated =>
    simp only [activateStep] at h
    cases h
    rcases f.install_cases config candidate now validated with ⟨err, h⟩ | ⟨-, -, state, h⟩
    · exact .inl (by rw [h])
    · exact .inr ⟨candidate, now, validated, _, ⟨rfl, by rw [h]⟩, by rw [h]⟩

variable (config : FleetConfig) (o : Outside κ) (allowStale : Bool) (f f' : Fleet κ) (ok : Prop) in
/-- What a step of `Bootstrap` or `Refresh` does.  It is a step of the `load` or `activate` that it
is in, or leaves the active snapshot and the ledger alone and at most begins such a call; `ok` says
that the method then succeeds. -/
inductive CalleeMoves : Option (Callee κ) → Option (Callee κ) → Prop
  | loads {stage stage' : LoadStage κ}
      (step : loadStep config o f stage = some (f', .running stage')) :
      CalleeMoves (some (.load stage)) (some (.load stage'))
  | loaded {stage : LoadStage κ} {answer after}
      (step : loadStep config o f stage = some (f', .finished answer))
      (begins : ∀ callee ∈ after, ∃ candidate, callee = .activate (.observing candidate)) :
      CalleeMoves (some (.load stage)) after
  | activates {stage stage' : ActivateStage κ}
      (step : activateStep config o allowStale f stage = some (f', .running stage')) :
      CalleeMoves (some (.activate stage)) (some (.activate stage'))
  | activated {stage : ActivateStage κ} {result after}
      (step : activateStep config o allowStale f stage = some (f', .finished result))
      (ended : after = none) (succeeds : ∀ active, result = .ok active → ok) :
      CalleeMoves (some (.activate stage)) after
  | other {after} (active : f'.active = f.active) (ledger : f'.ledger = f.ledger)
      (begins : ∀ callee ∈ after, callee = .load .entering ∨
        ∃ candidate, callee = .activate (.observing candidate)) :
      CalleeMoves none after

theorem CalleeMoves.idle {allowStale : Bool} {ok : Prop} (active : f'.active = f.active)
    (ledger : f'.ledger = f.ledger) : CalleeMoves config o allowStale f f' ok none none :=
  .other active ledger (by simp)

omit [CustomStrategy κ] [Runtime] in
theorem callee_primaryFailed (err : GoError) :
    (FleetCall.bootstrap (primaryFailed config o err)).callee = none := by
  unfold primaryFailed
  dsimp only
  split_ifs <;> rfl

theorem moves_bootstrapStep {stage : BootstrapStage κ}
    (h : bootstrapStep config o f stage = some (f', p)) :
    CalleeMoves config o config.allowStaleBootstrap f f' (Succeeds (bootstrapCall p))
      (FleetCall.bootstrap stage).callee (calleeOf (bootstrapCall p)) := by
  cases stage <;> simp only [bootstrapStep] at h
  case entering =>
    split_ifs at h <;> cases h
    · exact .idle rfl rfl
    · exact .other rfl rfl (by rintro _ ⟨⟩; exact .inl rfl)
  case loading =>
    obtain ⟨q, hq, rfl⟩ := Progress.inside_eq_some.mp h
    cases q with
    | running => exact .loads hq
    | finished answer =>
      refine .loaded hq fun callee hcallee => ?_
      cases answer with
      | ok candidate => cases hcallee; exact ⟨candidate, rfl⟩
      | error err => cases (callee_primaryFailed err).symm.trans hcallee
  case activating =>
    obtain ⟨q, hq, rfl⟩ := Progress.inside_eq_some.mp h
    cases q with
    | running => exact .activates hq
    | finished result =>
      cases result with
      | ok active =>
        simp only [Progress.lift, afterPrimary]
        split_ifs <;> exact .activated hq rfl fun _ _ => rfl
      | error err => exact .activated hq (callee_primaryFailed err) (by rintro _ ⟨⟩)
  case reviving =>
    obtain ⟨q, hq, rfl⟩ := Progress.inside_eq_some.mp h
    cases q with
    | running => exact .activates hq
    | finished result => cases result <;> exact .activated hq rfl (by rintro _ ⟨⟩; try rfl)
  case recovering =>
    split at h <;> cases h
    · exact .idle rfl rfl
    · exact .idle rfl rfl
    · exact .other rfl rfl (by rintro _ ⟨⟩; exact .inr ⟨_, rfl⟩)
  case storing | rejecting | recording | leaving => cases h; exact .idle rfl rfl

theorem moves_flightStep {flight : Nat} {stage : FlightStage κ} {p}
    (h : flightStep config o flight f stage = some (f', p)) :
    CalleeMoves config o false f f' (Succeeds (refreshCall (p.lift (.leading flight) .finished)))
      (FleetCall.refresh (.leading flight stage)).callee
      (calleeOf (refreshCall (p.lift (.leading flight) .finished))) := by
  cases stage <;> simp only [flightStep] at h
  case reading => cases h; exact .other rfl rfl (by rintro _ ⟨⟩; exact .inl rfl)
  case loading =>
    obtain ⟨q, hq, rfl⟩ := Progress.inside_eq_some.mp h
    cases q with
    | running => exact .loads hq
    | finished answer =>
      refine .loaded hq ?_
      cases answer <;> rintro _ ⟨⟩
      exact ⟨_, rfl⟩
  case activating =>
    obtain ⟨q, hq, rfl⟩ := Progress.inside_eq_some.mp h
    cases q with
    | running => exact .activates hq
    | finished result =>
      cases result with
      | ok active =>
        simp only [Progress.lift, afterFlightActivate]
        split_ifs <;> exact .activated hq rfl fun _ _ => rfl
      | error err => exact .activated hq rfl (by rintro _ ⟨⟩)
  case completing =>
    cases h
    exact .idle (f.apart_now o.clock).active (f.apart_now o.clock).ledger
  case publishing result err completedAt =>
    obtain ⟨failure, state, -, heq⟩ := f.exists_publish config flight result err completedAt
      (classifyRefreshFailure config o.classified err)
    cases h
    exact .idle (by rw [heq]) (by rw [heq]; rfl)
  case storing | leaving => cases h; exact .idle rfl rfl

theorem moves_refreshStep {stage : RefreshStage κ} {p}
    (h : refreshStep config o f stage = some (f', p)) :
    CalleeMoves config o false f f' (Succeeds (refreshCall p)) (FleetCall.refresh stage).callee
      (calleeOf (refreshCall p)) := by
  cases stage <;> simp only [refreshStep] at h
  case observing =>
    cases h
    exact .idle (f.apart_now o.clock).active (f.apart_now o.clock).ledger
  case entering now =>
    rcases f.enterRefresh_cases config now with
      ⟨err, heq⟩ | ⟨flight, -, -, heq⟩ | heq | ⟨-, -, -, heq⟩ <;>
      rw [heq] at h <;> cases h <;> exact .idle rfl rfl
  case waiting =>
    split at h
    · cases h
      exact .idle rfl rfl
    · split at h <;> cases h
      exact .idle rfl rfl
  case leading =>
    obtain ⟨q, hq, rfl⟩ := Progress.inside_eq_some.mp h
    exact moves_flightStep hq

theorem FleetCall.moves (h : call.step config o f = some (f', q)) :
    CalleeMoves config o (call.allowStale config) f f' (Succeeds q) call.callee (calleeOf q) := by
  cases call with
  | bootstrap stage =>
    obtain ⟨p, hp, rfl⟩ := Progress.inside_eq_some.mp h
    exact moves_bootstrapStep hp
  | refresh stage =>
    obtain ⟨p, hp, rfl⟩ := Progress.inside_eq_some.mp h
    exact moves_refreshStep hp

/-- A call changes the active snapshot only by activating a candidate, and then succeeds. -/
theorem FleetCall.active_step (h : call.step config o f = some (f', q)) :
    f'.active = f.active ∨ ∃ inner candidate now validated,
      call.callee = some (.activate inner) ∧ Installs f f' inner candidate now validated ∧
      Succeeds q := by
  have hmoves := call.moves h
  generalize call.callee = before at hmoves ⊢
  generalize calleeOf q = after at hmoves
  cases hmoves with
  | loads step => exact .inl (active_loadStep step)
  | loaded step begins => exact .inl (active_loadStep step)
  | activates step =>
    rcases active_activateStep step with h | ⟨_, _, _, _, _, ⟨⟩⟩
    exact .inl h
  | activated step ended succeeds =>
    rcases active_activateStep step with h | ⟨candidate, now, validated, active, hinstalls, heq⟩
    · exact .inl h
    · cases heq
      exact .inr ⟨_, candidate, now, validated, rfl, hinstalls, succeeds active rfl⟩
  | other active ledger begins => exact .inl active

theorem FleetCall.succeeds_of_activated (h : call.step config o f = some (f', q))
    (hactivated : call.activated = true) : Succeeds q := by
  unfold FleetCall.activated at hactivated
  split at hactivated
  case h_8 => cases hactivated
  all_goals cases h; rfl

/-! ### Candidates that are about to be installed -/

/-- If the call is about to install a snapshot, then `validateCandidate` has returned it, at a time
that the fleet has observed. -/
def FleetCall.Prepared (config : FleetConfig) (f : Fleet κ) (call : FleetCall κ) : Prop :=
  ∀ candidate now validated,
    call.callee = some (.activate (.installing candidate now validated)) →
    (∃ ord, validateCandidate ord config candidate now (call.allowStale config) = .ok validated) ∧
      now.nanos ≤ f.lastObservedAt.nanos

theorem FleetCall.prepared_of_callee_eq_none (h : call.callee = none) :
    call.Prepared config f := by
  intro candidate now validated hinstalling
  rw [h] at hinstalling
  cases hinstalling

theorem FleetCall.Prepared.onward (h : call.Prepared config f) (honward : f.Onward f') :
    call.Prepared config f' := by
  intro candidate now validated hinstalling
  obtain ⟨hvalid, hnow⟩ := h candidate now validated hinstalling
  exact ⟨hvalid, le_trans hnow honward.observed⟩

theorem prepared_activateStep {allowStale : Bool} {stage stage' : ActivateStage κ}
    (h : activateStep config o allowStale f stage = some (f', .running stage')) :
    ∃ candidate validated,
      stage' = .installing candidate f'.lastObservedAt validated ∧
      validateCandidate o.ord config candidate f'.lastObservedAt allowStale = .ok validated := by
  cases stage with
  | observing candidate =>
    simp only [activateStep] at h
    split at h
    · cases h
    · rename_i validated hvalid
      cases h
      rw [Fleet.now_fst] at hvalid
      exact ⟨candidate, validated, by rw [Fleet.now_fst], hvalid⟩
  | installing candidate now validated =>
    simp only [activateStep] at h
    cases h

/-- The candidate that a call is about to install is valid, since `activate` has just checked it. -/
theorem FleetCall.prepared_step {call' : FleetCall κ}
    (h : call.step config o f = some (f', .running call')) : call'.Prepared config f' := by
  have hmoves := call.moves h
  have hallow : call'.allowStale config = call.allowStale config := by
    cases call <;> obtain ⟨p, -, hq⟩ := Progress.inside_eq_some.mp h <;> cases p <;> cases hq <;>
      rfl
  intro candidate now validated hinstalling
  rw [calleeOf, hinstalling] at hmoves
  rw [hallow]
  generalize call.callee = before at hmoves
  cases hmoves with
  | loaded step begins => obtain ⟨_, ⟨⟩⟩ := begins _ rfl
  | activates step =>
    obtain ⟨candidate', validated', heq, hvalid⟩ := prepared_activateStep step
    cases heq
    exact ⟨⟨o.ord, hvalid⟩, le_rfl⟩
  | activated step ended succeeds => cases ended
  | other active ledger begins => obtain ⟨⟨⟩⟩ | ⟨_, ⟨⟩⟩ := begins _ rfl

end Calls

/-! ### Threads -/

section Threads

variable [CustomStrategy κ] [Runtime] {config : FleetConfig} {o : Outside κ}

/-- A step inside a call is a step of the call.  Any other step leaves the active snapshot alone,
and at most enters a call. -/
def StepsCall (config : FleetConfig) (o : Outside κ) (f f' : Fleet κ)
    (before after : Option (FleetCall κ)) : Prop :=
  (∃ call q, before = some call ∧ call.step config o f = some (f', q) ∧ after = callOf q) ∨
    before = none ∧ f'.active = f.active ∧ ∀ call, after = some call → call.callee = none

variable {thread thread' : FleetThread κ} {spawned : List (FleetThread κ)}
  (h : FleetSteps config o f f' thread thread' spawned)
include h

theorem FleetSteps.stepsCall : StepsCall config o f f' thread.call thread'.call := by
  have hmoves := h.moves
  rw [thread.call_eq, thread'.call_eq]
  generalize thread.inner = before at hmoves ⊢
  generalize thread'.inner = after at hmoves ⊢
  cases hmoves with
  | bootstrap step =>
    refine .inl ⟨_, _, rfl, Progress.inside_eq_some.mpr ⟨_, step, rfl⟩, ?_⟩
    rename_i p
    cases p <;> rfl
  | refresh step =>
    refine .inl ⟨_, _, rfl, Progress.inside_eq_some.mpr ⟨_, step, rfl⟩, ?_⟩
    rename_i p
    cases p <;> rfl
  | classify hf begins =>
    refine .inr ⟨rfl, ?_, fun call hcall => ?_⟩
    · rw [hf]
      exact congrArg Fleet.Core.active (f.core_invalidate ..)
    · obtain ⟨inner, hinner, hcall⟩ := Option.mem_bind_iff.mp hcall
      cases begins inner hinner
      cases hcall
      rfl
  | apart h begins =>
    refine .inr ⟨rfl, h.active, fun call hcall => ?_⟩
    obtain ⟨inner, hinner, hcall⟩ := Option.mem_bind_iff.mp hcall
    have hbegins := begins inner hinner
    cases inner with
    | bootstrap | refresh =>
      obtain rfl := hbegins
      cases hcall
      rfl
    | classify => cases hcall

theorem FleetSteps.call_spawned {u : FleetThread κ} (hu : u ∈ spawned) : u.call = none := by
  rcases h.mem_spawned hu with rfl | rfl | rfl <;> rfl

end Threads

/-! ### Changes in a run -/

section Events

variable [CustomStrategy κ] [Runtime] (config : FleetConfig) (e : FleetMove κ) (id : Nat)

/-- In this step the thread `id` takes a step of the call of `Bootstrap` or `Refresh` that it is in;
`q` says how far the call has come. -/
structure CallMove (call : FleetCall κ) (q : Progress (FleetCall κ) (Option GoError)) : Prop where
  step : ∃ o, e.action = .step id o ∧
    call.step config o e.before.shared = some (e.after.shared, q)
  before : ∃ thread, e.before.threads[id]? = some thread ∧ thread.call = some call
  after : ∃ thread, e.after.threads[id]? = some thread ∧ thread.call = callOf q

/-- In this step a call of `Bootstrap` or `Refresh` installs a candidate that has passed
`validateCandidate`, at a time that the fleet has observed. -/
def InstallsAdmissible : Prop :=
  ∃ (id : Nat) (call : FleetCall κ) (q : Progress (FleetCall κ) (Option GoError))
    (candidate : SnapshotCandidate κ) (now : Time) (ord : MapOrder)
    (snapshot validated : Snapshot κ),
    CallMove config e id call q ∧
    Admissible ord config candidate now (call.allowStale config) snapshot validated ∧
    now.nanos ≤ e.before.shared.lastObservedAt.nanos ∧
    e.after.shared.active = some
      ⟨validated, candidate.revision, candidate.provenance, candidate.sourceTime, now⟩

/-- In this step the call of `Bootstrap` or `Refresh` that the thread `id` is in returns an
error. -/
def CallFails : Prop :=
  ∃ call err, CallMove config e id call (.finished (some err))

end Events

/-- From step `j` to step `k` the thread `id` is inside a call.  Two calls of one thread are never
next to each other, so that it is the same call. -/
def InCall (ts : List (FleetMove κ)) (id j k : Nat) : Prop :=
  ∀ l e, j ≤ l → l ≤ k → ts[l]? = some e →
    ∃ thread, e.before.threads[id]? = some thread ∧ thread.call.isSome

section Changes

variable [CustomStrategy κ] [Runtime] {config : FleetConfig} {ts : List (FleetMove κ)}
  {s : FleetPool κ}

/-- What a call is about to install has been validated. -/
theorem prepared_of_run (run : FleetRun config ts s) {thread : FleetThread κ}
    (hthread : thread ∈ s.threads) (hcall : thread.call = some call) :
    call.Prepared config s.shared := by
  refine (Program.Run.invariant (fun _ => True) (fun f thread => ∀ call,
    thread.call = some call → call.Prepared config f) run trivial ?_ ?_).2 thread hthread call hcall
  · intro f request _ call hcall
    refine FleetCall.prepared_of_callee_eq_none ?_
    -- a new thread is in a call that has just begun, or in none
    cases request <;> simp only [fleetProgram, FleetRequest.thread] at hcall
    case status => cases hcall
    all_goals split_ifs at hcall <;> cases hcall <;> rfl
  · intro o f thread f' thread' spawned _ hthread heq
    have hsteps := steps_of_fleetStep heq
    refine ⟨trivial, fun call' hcall' => ?_, fun u hu call hcall => ?_, fun u hu call hcall => ?_⟩
    · rcases hsteps.stepsCall with ⟨call, q, -, hstep, hq⟩ | ⟨-, -, hnone⟩
      · rw [hcall'] at hq
        cases q with
        | running => cases hq; exact FleetCall.prepared_step hstep
        | finished => cases hq
      · exact FleetCall.prepared_of_callee_eq_none (hnone call' hcall')
    · rw [hsteps.call_spawned hu] at hcall
      cases hcall
    · exact (hu call hcall).onward hsteps.onward

/-- A step that changes the active snapshot is a step of a call that installs a candidate. -/
theorem installs_of_move (run : FleetRun config ts s) (hk : ts[k]? = some e)
    (hchange : e.after.shared.active ≠ e.before.shared.active) :
    ∃ id call q inner candidate now validated, CallMove config e id call q ∧ Succeeds q ∧
      call.callee = some (.activate inner) ∧
      Installs e.before.shared e.after.shared inner candidate now validated := by
  obtain ⟨id, o, haction⟩ := run.exists_step_of_ne hk
    fun h => hchange (congrArg Fleet.active h)
  obtain ⟨thread, thread', spawned, hbefore, hafter, heq⟩ := run.step_at hk haction
  rcases (steps_of_fleetStep heq).stepsCall with ⟨call, q, hcall, hstep, hq⟩ | ⟨-, hsame, -⟩
  · rcases FleetCall.active_step hstep with hsame | ⟨inner, candidate, now, validated, hinner,
      hinstalls, hsucceeds⟩
    · exact absurd hsame hchange
    · exact ⟨id, call, q, inner, candidate, now, validated, ⟨⟨o, haction, hstep⟩,
        ⟨thread, hbefore, hcall⟩, ⟨thread', hafter, hq⟩⟩, hsucceeds, hinner, hinstalls⟩
  · exact absurd hsame hchange

theorem installsAdmissible_of_move (run : FleetRun config ts s) (hk : ts[k]? = some e)
    (hchange : e.after.shared.active ≠ e.before.shared.active) : InstallsAdmissible config e := by
  obtain ⟨id, call, q, inner, candidate, now, validated, hmove, -, hinner, ⟨rfl, hactive⟩⟩ :=
    installs_of_move run hk hchange
  obtain ⟨thread, hthread, hcall⟩ := hmove.before
  obtain ⟨⟨ord, hvalid⟩, hnow⟩ := prepared_of_run (run.upTo hk).1 (List.mem_of_getElem? hthread)
    hcall candidate now validated hinner
  obtain ⟨snapshot, hadmissible⟩ := validateCandidate_eq_ok_iff.mp hvalid
  exact ⟨id, call, q, candidate, now, ord, snapshot, validated, hmove, hadmissible, hnow, hactive⟩

/-- The call that the thread `id` is in, if any, has activated a candidate. -/
def Activated (id : Nat) (s : FleetPool κ) : Prop :=
  ∃ thread, s.threads[id]? = some thread ∧ ∀ call, thread.call = some call → call.activated = true

omit [CustomStrategy κ] [Runtime] in
theorem activated_of_succeeds
    (hthread : ∃ thread, s.threads[id]? = some thread ∧ thread.call = callOf q) (h : Succeeds q) :
    Activated id s := by
  obtain ⟨thread, hthread, hcall⟩ := hthread
  refine ⟨thread, hthread, fun call hcall' => ?_⟩
  rw [hcall] at hcall'
  cases q with
  | running => cases hcall'; exact h
  | finished => cases hcall'

/-- As long as the thread stays in its call, a candidate that it has activated stays so. -/
theorem activated_of_move (run : FleetRun config ts s) (hk : ts[k]? = some e)
    (hin : ∃ thread, e.before.threads[id]? = some thread ∧ thread.call.isSome)
    (h : Activated id e.before) : Activated id e.after := by
  obtain ⟨thread, hthread, hactivated⟩ := h
  obtain ⟨thread₁, hthread₁, hsome⟩ := hin
  cases hthread₁.symm.trans hthread
  obtain ⟨thread', hthread', rfl | ⟨o, spawned, -, heq⟩⟩ :=
    (run.moves hk).thread hthread
  · exact ⟨thread', hthread', hactivated⟩
  · obtain ⟨call, hcall⟩ := Option.isSome_iff_exists.mp hsome
    rcases (steps_of_fleetStep heq).stepsCall with ⟨call₁, q, hcall₁, hstep, hq⟩ | ⟨hnone, -, -⟩
    · exact activated_of_succeeds ⟨thread', hthread', hq⟩
        (FleetCall.succeeds_of_activated hstep (hactivated call₁ hcall₁))
    · rw [hcall] at hnone
      cases hnone

theorem active_eq_of_callFails (run : FleetRun config ts s) {j : Nat} {o : Outside κ}
    (hk : ts[k]? = some e) (hfails : CallFails config e id) (hjk : j ≤ k) (hj : ts[j]? = some e')
    (hin : InCall ts id j k) (haction : e'.action = .step id o) :
    e'.after.shared.active = e'.before.shared.active := by
  by_contra hchange
  obtain ⟨id₁, call, q, inner, candidate, now, validated, hmove, hsucceeds, -, -⟩ :=
    installs_of_move run hj hchange
  obtain ⟨o₁, haction₁, hstep⟩ := hmove.step
  cases haction.symm.trans haction₁
  obtain ⟨call₂, err, hfails⟩ := hfails
  obtain ⟨o₂, haction₂, hstep₂⟩ := hfails.step
  obtain ⟨thread₂, hthread₂, hcall₂⟩ := hfails.before
  rcases Nat.eq_or_lt_of_le hjk with rfl | hlt
  · -- the step that installs would be the one that fails
    cases hj.symm.trans hk
    obtain ⟨thread, hthread, hcall⟩ := hmove.before
    cases hthread.symm.trans hthread₂
    cases hcall.symm.trans hcall₂
    cases haction₂.symm.trans haction
    cases hstep.symm.trans hstep₂
    cases hsucceeds
  · -- from the step after it on, the call has activated its candidate
    have hactivated : Activated id e.before := by
      have hj' : (ts.take k)[j]? = some e' := by rw [List.getElem?_take_of_lt hlt, hj]
      refine (run.upTo hk).1.since (Activated id) hj' (activated_of_succeeds hmove.after hsucceeds)
        fun l e₁ hl he₁ => ?_
      have hlk : l < k := by
        have := (List.getElem?_eq_some_iff.mp he₁).1
        rw [List.length_take] at this
        omega
      rw [List.getElem?_take_of_lt hlk] at he₁
      exact activated_of_move run he₁ (hin l e₁ (by omega) (by omega) he₁)
    obtain ⟨thread₁, hthread₁, hactivated⟩ := hactivated
    cases hthread₁.symm.trans hthread₂
    cases FleetCall.succeeds_of_activated hstep₂ (hactivated call₂ hcall₂)

/-- **The active snapshot only moves forward, and only to admissible candidates**: in every step of
a run, an active snapshot is not replaced by an older one or by none; a change installs a candidate
that has passed `validateCandidate`, a stale one only in `Bootstrap` with `AllowStaleBootstrap`; and
a call of `Bootstrap` or `Refresh` that returns an error has not changed the active snapshot. -/
theorem active_moves_forward (run : FleetRun config ts s) {k : Nat} {e : FleetMove κ}
    (hk : ts[k]? = some e) :
    (∀ active, e.before.shared.active = some active → ∃ active',
      e.after.shared.active = some active' ∧ active.sourceTime.nanos ≤ active'.sourceTime.nanos) ∧
    (e.after.shared.active ≠ e.before.shared.active → InstallsAdmissible config e) ∧
    ∀ id, CallFails config e id → ∀ j e' o, j ≤ k → ts[j]? = some e' → InCall ts id j k →
      e'.action = .step id o → e'.after.shared.active = e'.before.shared.active :=
  ⟨(onward_of_move run hk).active, installsAdmissible_of_move run hk,
    fun _ hfails _ _ _ hjk hj hin haction =>
      active_eq_of_callFails run hk hfails hjk hj hin haction⟩

end Changes

/-- The bootstrap of the run above installs its candidate. -/
theorem active_moves_forward_bootstrap :
    letI := unaryRuntime
    ∃ (ts : List (FleetMove Empty)) (s : FleetPool Empty) (e : FleetMove Empty),
      FleetRun sampleFleet ts s ∧ ts[11]? = some e ∧
      e.before.shared.active.isNone ∧ InstallsAdmissible sampleFleet e := by
  let _ := unaryRuntime
  obtain ⟨ts, s, run, -, hfacts⟩ := exists_fleetRun sampleFleet rollback
    (fun x => x.1[11]?.any fun e =>
      e.before.shared.active.isNone && e.after.shared.active.isSome) (by decide +kernel)
  simp only [Option.any_eq_true, Bool.and_eq_true] at hfacts
  obtain ⟨e, he, hbefore, hafter⟩ := hfacts
  refine ⟨ts, s, e, run, he, hbefore, (active_moves_forward run he).2.1 fun hsame => ?_⟩
  rw [hsame, Option.isSome_iff_ne_none] at hafter
  exact hafter (Option.isNone_iff_eq_none.mp hbefore)

end FeatureFlags
