import FeatureFlags.Equiv.Publication

/-!
# Reading one's writes through the cache

* `Changes`: an operation changes what the provider's `Snapshot` returns.
* `not_changes_of_quiet`: a method that does not invalidate its tenant has changed nothing there.
* `Fenced`: no snapshot that was read at or before the step `m` is in the cache or can still get
  there.  An invalidation establishes it, and every step keeps it.
* `reads_own_writes`: a call that starts after a mutation has returned gets a snapshot that was read
  after it took effect.
-/

namespace FeatureFlags

open Go Lib

variable {κ : Type} {m : Nat} {action : Action κ}

/-! ### What a quiet method does -/

variable {call : Call κ}

section Quiet

variable [CustomStrategy κ] [Runtime]

/-- Two states of a provider for which `Snapshot` returns different results. -/
def Changes (limits : Limits) (tenant : Bytes) (p q : MemoryProvider κ) : Prop :=
  ∃ ord ctx, (p.exec ord limits ctx tenant .snapshot).1 ≠ (q.exec ord limits ctx tenant .snapshot).1

theorem MemoryProvider.exec_eq_ok {p : MemoryProvider κ} {ord : MapOrder} {limits : Limits}
    {ctx : Ctx} {tenant : Bytes} {response : Response κ}
    (h : (p.exec ord limits ctx tenant call).1 = .ok response) :
    (call.exec ord limits ctx tenant).run (p.tenant tenant) =
      .ok response ((p.exec ord limits ctx tenant call).2.tenant tenant) := by
  unfold MemoryProvider.exec at h ⊢
  split at h
  · rename_i r s hrun
    cases h
    rw [hrun]
    exact congrArg _ ((MemoryProvider.tenant_insert p tenant tenant s).trans (if_pos rfl)).symm
  · cases h

variable {limits : Limits} {tenant : Bytes} {s t : TenantState κ} {ord : MapOrder} {ctx : Ctx}

theorem run_snapshot :
    (snapshot ord limits ctx tenant).run s =
      match providerInput ctx tenant limits.maxKeyBytes with
      | .error e => .error (.error e) s
      | .ok _ =>
        match newSnapshotWithGroups ord (definitionsFromRecords ord s.features)
            (groupsFromMap ord s.groups) limits with
        | .error e => .error (.error e) s
        | .ok built => .ok (built.bindTenant tenant) s := by
  unfold snapshot
  cases hinput : providerInput ctx tenant limits.maxKeyBytes with
  | error e => rfl
  | ok u =>
    cases hbuilt : newSnapshotWithGroups ord (definitionsFromRecords ord s.features)
        (groupsFromMap ord s.groups) limits with
    | error e => simp [check, fail, hbuilt, run_throw]
    | ok built => simp [check, hbuilt]

/-- `Snapshot` reads the features and the groups only. -/
theorem exec_snapshot_congr {p q : MemoryProvider κ}
    (hfeatures : (q.tenant tenant).features = (p.tenant tenant).features)
    (hgroups : (q.tenant tenant).groups = (p.tenant tenant).groups) :
    (q.exec ord limits ctx tenant .snapshot).1 = (p.exec ord limits ctx tenant .snapshot).1 := by
  have hrun : ∀ r : MemoryProvider κ, (r.exec ord limits ctx tenant .snapshot).1 =
      match providerInput ctx tenant limits.maxKeyBytes with
      | .error e => .error (.error e)
      | .ok _ =>
        match newSnapshotWithGroups ord (definitionsFromRecords ord (r.tenant tenant).features)
            (groupsFromMap ord (r.tenant tenant).groups) limits with
        | .error e => .error (.error e)
        | .ok built => .ok (.snapshot (built.bindTenant tenant)) := by
    intro r
    unfold MemoryProvider.exec Call.exec
    rw [← bind_pure_comp, EStateM.run_bind, run_snapshot]
    cases providerInput ctx tenant limits.maxKeyBytes with
    | error e => rfl
    | ok u =>
      dsimp only
      cases newSnapshotWithGroups ord (definitionsFromRecords ord (r.tenant tenant).features)
        (groupsFromMap ord (r.tenant tenant).groups) limits <;> rfl
  rw [hrun q, hrun p, hfeatures, hgroups]

/-- `ApplyScheduled` without results changes nothing. -/
theorem applyScheduled_nil {now : Time} {actor : Bytes}
    (h : (applyScheduled ord limits ctx tenant now actor).run s = .ok [] t) : s = t := by
  simp only [applyScheduled, run_bind_eq_ok, run_check_eq_ok] at h
  obtain ⟨_, _, ⟨_, rfl⟩, h⟩ := h
  split_ifs at h
  · simp at h
  · simp only [run_bind_eq_ok, EStateM.run_get, EStateM.Result.ok.injEq] at h
    obtain ⟨_, _, ⟨rfl, rfl⟩, h⟩ := h
    split_ifs at h with hdue
    · exact (EStateM.Result.ok.inj h).2
    · -- there is a result for each change that is due
      obtain ⟨records, snapshot, replaced, -, -⟩ := run_applyStages_eq_ok h
      have hlen := length_applyStages replaced
      exact absurd (List.length_eq_zero_iff.mp (by simpa using hlen.symm)) hdue

omit [CustomStrategy κ] [Runtime] in
/-- `Cleanup` that purges nothing keeps the features. -/
theorem cleanup_quiet {options : CleanupOptions} {report : CleanupReport}
    (h : (cleanup limits ctx tenant options).run s = .ok report t)
    (hquiet : report.deletedFeatures = 0) : t.features = s.features ∧ t.groups = s.groups := by
  have hfilter : ∀ purged : GoMap Bool, purged.size = 0 →
      s.features.filter (fun key _ => key ∉ purged) = s.features := by
    intro purged hsize
    rw [Std.ExtTreeMap.eq_empty_iff_size_eq_zero.mpr hsize]
    ext
    simp
  obtain ⟨hsize, audit, -, rfl⟩ := run_cleanup_eq_ok h
  exact ⟨hfilter _ (hsize.symm.trans hquiet), rfl⟩

/-- A method that does not invalidate its tenant keeps the features and the groups. -/
theorem quiet_keeps {response : Response κ}
    (h : (call.exec ord limits ctx tenant).run s = .ok response t)
    (quiet : invalidates call response = false) :
    t.features = s.features ∧ t.groups = s.groups := by
  have heffect := effect_of_exec h
  cases call <;> simp only [Call.exec, run_map_eq_ok] at h <;> obtain ⟨result, h, rfl⟩ := h
  case importDocument data options actor =>
    cases heffect with
    | imported applied => simp [invalidates, applied] at quiet
    | dryRun => exact ⟨rfl, rfl⟩
    | read reads => simp at reads
    | applied due => simp at due
  case applyScheduled now actor =>
    have hresult : result = [] := by
      simpa [invalidates, len] using quiet
    subst hresult
    rw [applyScheduled_nil h]
    exact ⟨rfl, rfl⟩
  case cleanup options => exact cleanup_quiet h (by simpa [invalidates] using quiet)
  case stageUpdate =>
    cases heffect with
    | stageUpdate => exact ⟨rfl, rfl⟩
    | read reads => simp at reads
    | applied due => simp at due
  case snapshot =>
    rw [(readOnly_snapshot s).1 result t h]
    exact ⟨rfl, rfl⟩
  case audit key =>
    rw [(readOnly_audit s).1 result t h]
    exact ⟨rfl, rfl⟩
  case stagedChanges =>
    rw [(readOnly_stagedChanges s).1 result t h]
    exact ⟨rfl, rfl⟩
  case exportDocument =>
    rw [(readOnly_exportDocument s).1 result t h]
    exact ⟨rfl, rfl⟩
  all_goals cases quiet

/-- A method that does not invalidate its tenant has changed nothing there. -/
theorem not_changes_of_quiet {p : MemoryProvider κ} {response : Response κ}
    (h : (p.exec ord limits ctx tenant call).1 = .ok response)
    (quiet : invalidates call response = false) :
    ¬ Changes limits tenant p (p.exec ord limits ctx tenant call).2 := by
  rintro ⟨ord', ctx', hne⟩
  obtain ⟨hfeatures, hgroups⟩ := quiet_keeps (MemoryProvider.exec_eq_ok h) quiet
  exact hne (exec_snapshot_congr hfeatures hgroups).symm

end Quiet

variable {request : Request κ} {e : CachedSnapshot κ} {outcome : Except Failure (Answer κ)}
  {id : Nat} {fallback : Fallback κ} {tenant' : Bytes}

namespace CacheState

variable {config : CacheConfig} {limits : Limits} {tenant : Bytes} {s t : CacheState κ}

section Moves

variable {exec : Exec κ} (h : Moves config exec s action t)
include h

/-- What has returned stays so. -/
theorem Moves.returned (hthread : s.threads id = some ⟨request, .returned outcome⟩) :
    t.threads id = some ⟨request, .returned outcome⟩ := by
  rcases h.thread id with hsame | ⟨request', phase, -, hgoes⟩
  · rw [hsame, hthread]
  · rw [hthread] at hgoes
    exact hgoes.elim

end Moves

/-! ### The fence -/

/-- No snapshot of the tenant that was read at the step `m` or before is in the cache or can be
published. -/
structure Fenced (tenant : Bytes) (m : Nat) (s : CacheState κ) : Prop where
  past : m < s.steps
  entry : ∀ e : CachedSnapshot κ, s.entries[tenant]? = some e → m < e.readAt
  fetched : ∀ (id : Nat) (request : Request κ) (fallback : Fallback κ) (state sequence : Nat)
    (e : CachedSnapshot κ),
    s.threads id = some ⟨request, .fetched tenant fallback state sequence e⟩ →
    s.refreshes[tenant]? = some state → m < e.readAt

theorem fenced_of_invalidate (hpast : m < s.steps) :
    ((invalidateOnSuccess tenant s).enter id request (.returned outcome)).Fenced tenant m where
  past := Nat.lt_succ_of_lt hpast
  entry e he := by
    rw [enter_entries, invalidateOnSuccess, GoMap.lookup_erase, if_pos rfl] at he
    cases he
  fetched id' request' fallback state sequence e _ hcurrent := by
    rw [enter_refreshes, invalidateOnSuccess, GoMap.lookup_erase, if_pos rfl] at hcurrent
    cases hcurrent

/-- A mutation that took effect at the step `m` has not returned, has failed, or the fence is
up. -/
def Delivers (tenant : Bytes) (m id : Nat) (call : Call κ) (outcome : Except Failure (Response κ))
    (s : CacheState κ) : Prop :=
  m < s.steps ∧ s.threads id = some ⟨.delegate tenant call, .delegated outcome⟩ ∨
    (∃ failure, s.threads id = some ⟨.delegate tenant call, .returned (.error failure)⟩) ∨
    s.Fenced tenant m

variable {exec : Exec κ}

section

variable (h : Moves config exec s action t)
include h

/-- Every step keeps the fence. -/
theorem Moves.fenced (hs : s.Ticketed) (hfenced : s.Fenced tenant m) :
    t.Fenced tenant m where
  past := by
    rw [h.steps]
    exact Nat.lt_succ_of_lt hfenced.past
  entry e he := by
    rcases h.entry_cases he with
      hbefore | ⟨id, request, fallback, state, sequence, -, hthread, hcurrent⟩
    · exact hfenced.entry e hbefore
    · exact hfenced.fetched _ _ _ _ _ _ hthread hcurrent
  fetched id request fallback state sequence e hthread hcurrent := by
    rcases h.fetched_cases hthread with ⟨hbefore, -⟩ | ⟨ord, ctx, now, snapshot, -, rfl, -⟩
    · -- the thread holds its state, so the state is not a new one
      have hheld := hs.held_lt _ _ _ (held_of_thread hbefore)
      exact hfenced.fetched _ _ _ _ _ _ hbefore (h.later.current _ hheld tenant hcurrent)
    · exact hfenced.past

end

theorem Moves.delivers {outcome : Except Failure (Response κ)}
    (h : Moves config exec s action t) (hs : s.Ticketed)
    (hdue : ∀ response, outcome = .ok response → invalidates call response = true)
    (hdelivers : s.Delivers tenant m id call outcome) : t.Delivers tenant m id call outcome := by
  rcases hdelivers with ⟨hpast, hthread⟩ | ⟨failure, hthread⟩ | hfenced
  · by_cases hid : action.thread = some id
    · -- only `invalidate` moves a call on that has called the provider
      cases h with
      | invalidated thread due =>
        cases hid
        rw [thread] at hthread
        cases hthread
        exact .inr (.inr (fenced_of_invalidate hpast))
      | kept thread due =>
        cases hid
        rw [thread] at hthread
        cases hthread
        rw [hdue _ rfl] at due
        cases due
      | failed thread =>
        cases hid
        rw [thread] at hthread
        cases hthread
        exact .inr (.inl ⟨_, enter_threads_self⟩)
      | external => cases hid
      | refused waits | admitted waits =>
        cases hid
        rcases waits with ⟨_, _, -, -, thread⟩ | ⟨-, -, thread⟩ <;> rw [thread] at hthread <;>
          cases hthread
      | started thread | hit thread | missed thread | fetched thread | published thread
      | ended thread | delegated thread | closed thread =>
        cases hid
        rw [thread] at hthread
        cases hthread
    · refine .inl ⟨?_, ?_⟩
      · rw [h.steps]
        exact Nat.lt_succ_of_lt hpast
      · rw [h.threads_of_ne hid, hthread]
  · exact .inr (.inl ⟨failure, h.returned hthread⟩)
  · exact .inr (.inr (h.fenced hs hfenced))

end CacheState

/-! ### What a reading call holds -/

def Request.Reads (tenant : Bytes) (request : Request κ) : Prop :=
  request = .snapshot tenant ∨ request = .refresh tenant

/-- The entry that `Snapshot` falls back to has the property. -/
def Keeps (Q : CachedSnapshot κ → Prop) (fallback : Fallback κ) : Prop :=
  ∀ now e, fallback = some (now, some e) → Q e

/-- Every snapshot that a call for the tenant holds, or has returned, has the property. -/
def Phase.Keeps (tenant : Bytes) (Q : CachedSnapshot κ → Prop) : Phase κ → Prop
  | .missed _ entry => ∀ e, entry = some e → Q e
  | .refreshing tenant' fallback _ _ => tenant' = tenant ∧ FeatureFlags.Keeps Q fallback
  | .fetched tenant' fallback _ _ entry =>
    tenant' = tenant ∧ FeatureFlags.Keeps Q fallback ∧ Q entry
  | .ending tenant' fallback _ result =>
    tenant' = tenant ∧ FeatureFlags.Keeps Q fallback ∧ ∀ e, result = .ok e → Q e
  | .returned outcome => ∀ e, outcome = .ok (.snapshot e) → Q e
  | _ => True

variable {Q : CachedSnapshot κ → Prop} {config : CacheConfig} {limits : Limits} {tenant : Bytes}

theorem of_settle {result : Except Failure (CachedSnapshot κ)} (hfallback : Keeps Q fallback)
    (hresult : ∀ e, result = .ok e → Q e) (h : settle config fallback result = .ok (.snapshot e)) :
    Q e := by
  unfold settle at h
  split at h
  · cases h
    exact hresult _ rfl
  · split_ifs at h
    cases h
    exact hfallback _ _ rfl
  · cases h

namespace CacheState

variable {s t : CacheState κ}

theorem Waits.reads {thread : Thread κ} (h : s.Waits id request tenant' fallback)
    (hthread : s.threads id = some thread) (hreads : thread.request.Reads tenant)
    (hkeeps : thread.phase.Keeps tenant Q) :
    thread.request = request ∧ tenant' = tenant ∧ Keeps Q fallback := by
  rcases h with ⟨now, e, rfl, rfl, h⟩ | ⟨rfl, rfl, h⟩ <;> rw [h] at hthread <;> cases hthread
  · refine ⟨rfl, ?_, ?_⟩
    · rcases hreads with hreads | hreads <;> cases hreads
      rfl
    · intro now' e' he'
      cases he'
      exact hkeeps _ rfl
  · refine ⟨rfl, ?_, ?_⟩
    · rcases hreads with hreads | hreads <;> cases hreads
      rfl
    · intro now' e' he'
      cases he'

theorem keeps_afterFetch {state sequence readAt : Nat} {now : Time}
    {outcome : Except Failure (Response κ)} (hfallback : Keeps Q fallback)
    (hfetch : ∀ snapshot, outcome = .ok (.snapshot snapshot) → Q ⟨snapshot, now, readAt⟩) :
    (afterFetch config tenant fallback state sequence now readAt outcome).Keeps tenant Q := by
  unfold afterFetch
  split
  · split_ifs
    · exact ⟨rfl, hfallback, fun e h => by cases h⟩
    · exact ⟨rfl, hfallback, hfetch _ rfl⟩
  · exact ⟨rfl, hfallback, fun e h => by cases h⟩
  · exact ⟨rfl, hfallback, fun e h => by cases h⟩

theorem keeps_entry {ctx : Ctx} (hreads : request.Reads tenant) (Q : CachedSnapshot κ → Prop) :
    (entry config ctx request).Keeps tenant Q := by
  rcases hreads with rfl | rfl
  · unfold entry
    dsimp only
    split
    · trivial
    · intro e he
      cases he
  · trivial

/-- A thread is a call for the tenant all of whose snapshots have the property. -/
def Keeping (tenant : Bytes) (Q : CachedSnapshot κ → Prop) (id : Nat) (s : CacheState κ) : Prop :=
  ∃ thread, s.threads id = some thread ∧ thread.request.Reads tenant ∧ thread.phase.Keeps tenant Q

/-- A call only gets hold of entries of the cache and of what it fetches. -/
theorem Moves.keeping {exec : Exec κ} (h : Moves config exec s action t)
    (hentry : ∀ e : CachedSnapshot κ, s.entries[tenant]? = some e → Q e)
    (hfetch : ∀ ord ctx now snapshot, action = .fetch id ord ctx now →
      (exec s.provider ord ctx tenant .snapshot).1 = .ok (.snapshot snapshot) →
      Q ⟨snapshot, now, s.steps⟩) (hkeeping : s.Keeping tenant Q id) : t.Keeping tenant Q id := by
  obtain ⟨thread, hthread, hreads, hkeeps⟩ := hkeeping
  by_cases hid : action.thread = some id
  swap
  · exact ⟨thread, by rw [h.threads_of_ne hid, hthread], hreads, hkeeps⟩
  cases h with
  | external => cases hid
  | started unused =>
    cases hid
    rw [unused] at hthread
    cases hthread
  | hit found hentry' =>
    cases hid
    rw [found] at hthread
    cases hthread
    rcases hreads with hreads | hreads <;> cases hreads
    refine ⟨_, enter_threads_self, .inl rfl, fun e he => ?_⟩
    cases he
    exact hentry _ hentry'
  | missed found =>
    cases hid
    rw [found] at hthread
    cases hthread
    rcases hreads with hreads | hreads <;> cases hreads
    exact ⟨_, enter_threads_self, .inl rfl, hentry⟩
  | refused waits =>
    cases hid
    obtain ⟨hrequest, -, hfallback⟩ := waits.reads hthread hreads hkeeps
    exact ⟨_, enter_threads_self, hrequest ▸ hreads, fun e he =>
      of_settle hfallback (fun e he => by cases he) he⟩
  | admitted waits =>
    cases hid
    obtain ⟨hrequest, htenant, hfallback⟩ := waits.reads hthread hreads hkeeps
    exact ⟨_, enter_threads_self, hrequest ▸ hreads, htenant, hfallback⟩
  | fetched found =>
    cases hid
    rw [found] at hthread
    cases hthread
    obtain ⟨rfl, hfallback⟩ := hkeeps
    exact ⟨_, enter_threads_self, hreads,
      keeps_afterFetch hfallback fun snapshot hsnapshot => hfetch _ _ _ _ rfl hsnapshot⟩
  | published found =>
    cases hid
    rw [found] at hthread
    cases hthread
    obtain ⟨rfl, hfallback, he⟩ := hkeeps
    refine ⟨_, enter_threads_self, hreads, rfl, hfallback, fun e' he' => ?_⟩
    cases he'
    exact he
  | ended found =>
    cases hid
    rw [found] at hthread
    cases hthread
    obtain ⟨rfl, hfallback, hresult⟩ := hkeeps
    exact ⟨_, enter_threads_self, hreads, fun e he => of_settle hfallback hresult he⟩
  | delegated found | invalidated found | kept found | failed found | closed found =>
    cases hid
    rw [found] at hthread
    cases hthread
    rcases hreads with hreads | hreads <;> cases hreads

end CacheState

/-! ### Runs -/

/-- What a call has returned. -/
def CacheState.result (s : CacheState κ) (id : Nat) : Option (Except Failure (Answer κ)) :=
  match s.threads id with
  | some ⟨_, .returned outcome⟩ => some outcome
  | _ => none

/-- The tenant and the call that a method is about to pass on to the provider. -/
def CacheState.delegation (s : CacheState κ) (id : Nat) : Option (Bytes × Call κ) :=
  match s.threads id with
  | some ⟨.delegate tenant call, .delegating⟩ => some (tenant, call)
  | _ => none

theorem CacheState.thread_of_result {s : CacheState κ} (h : s.result id = some outcome) :
    ∃ request, s.threads id = some ⟨request, .returned outcome⟩ := by
  unfold CacheState.result at h
  split at h
  · rename_i request outcome' hthread
    cases h
    exact ⟨request, hthread⟩
  · cases h

theorem CacheState.thread_of_delegation {s : CacheState κ}
    (h : s.delegation id = some (tenant, call)) :
    s.threads id = some ⟨.delegate tenant call, .delegating⟩ := by
  unfold CacheState.delegation at h
  split at h
  · rename_i tenant' call' hthread
    cases h
    exact hthread
  · cases h

/-- The call `id` starts at the step `k`, and the call `writer` has returned success by then. -/
def StartsAfter (ts : List (CacheStep κ)) (k id : Nat) (request : Request κ) (writer : Nat) :
    Prop :=
  ∃ (e : CacheStep κ) (ctx : Ctx) (answer : Answer κ),
    ts[k]? = some e ∧ e.action = .start id request ctx ∧ e.before.result writer = some (.ok answer)

section Runs

open CacheState

variable [CustomStrategy κ] [Runtime] {provider : MemoryProvider κ} {ts : List (CacheStep κ)}
  {s : CacheState κ}

/-- The step `k` reads the snapshot of the tenant from the provider. -/
def ReadAt (limits : Limits) (ts : List (CacheStep κ)) (k : Nat) (tenant : Bytes)
    (snapshot : Snapshot κ) : Prop :=
  ∃ (e : CacheStep κ) (id : Nat) (ord : MapOrder) (ctx : Ctx) (now : Time),
    ts[k]? = some e ∧ e.action = .fetch id ord ctx now ∧
    (e.before.provider.exec ord limits ctx tenant .snapshot).1 = .ok (.snapshot snapshot)

/-- At the step `k` the provider performs the mutation that the call `id` asks for, and this changes
what its `Snapshot` returns for the tenant. -/
def TakesEffectAt (limits : Limits) (ts : List (CacheStep κ)) (k id : Nat) (tenant : Bytes) :
    Prop :=
  ∃ (e : CacheStep κ) (call : Call κ) (ord : MapOrder) (ctx : Ctx),
    ts[k]? = some e ∧ e.action = .delegate id ord ctx ∧
    e.before.delegation id = some (tenant, call) ∧
    Changes limits tenant e.before.provider e.after.provider

section

variable (run : CacheRun config limits provider ts s)
include run

theorem cacheTicketed_of_run : s.Ticketed :=
  run.invariant Ticketed (ticketed_new provider) fun _ _ _ hs h => (moves_of_step h).ticketed hs

variable {e : CacheStep κ} {k : Nat}

theorem cacheMoves_of_run (hk : ts[k]? = some e) :
    Moves config (.memory limits) e.before e.action e.after :=
  moves_of_step (run.upTo hk).2

theorem steps_eq_length : s.steps = ts.length := by
  induction run with
  | start => rfl
  | snoc _ next ih => rw [(moves_of_step next).steps, ih, List.length_append, List.length_singleton]

theorem steps_of_run (hk : ts[k]? = some e) : e.before.steps = k := by
  rw [steps_eq_length (run.upTo hk).1, List.length_take]
  exact Nat.min_eq_left (List.getElem?_eq_some_iff.mp hk).1.le

theorem returned_of_run (hk : ts[k]? = some e)
    (h : e.before.threads id = some ⟨request, .returned outcome⟩) :
    s.threads id = some ⟨request, .returned outcome⟩ :=
  run.since (fun s => s.threads id = some ⟨request, .returned outcome⟩) hk
    ((cacheMoves_of_run run hk).returned h) fun _ _ _ hj h => (cacheMoves_of_run run hj).returned h

/-- Every snapshot in the cache, and every one that is about to be published, was read at the step
it is marked with. -/
structure Sourced (limits : Limits) (ts : List (CacheStep κ)) (s : CacheState κ) : Prop where
  entry : ∀ (tenant : Bytes) (e : CachedSnapshot κ), s.entries[tenant]? = some e →
    ReadAt limits ts e.readAt tenant e.snapshot
  fetched : ∀ id request tenant fallback state sequence e,
    s.threads id = some ⟨request, .fetched tenant fallback state sequence e⟩ →
    ReadAt limits ts e.readAt tenant e.snapshot

theorem readAt_of_fetch (hk : ts[k]? = some e) {ord : MapOrder} {ctx : Ctx} {now : Time}
    {snapshot : Snapshot κ} (haction : e.action = .fetch id ord ctx now)
    (hread : (e.before.provider.exec ord limits ctx tenant .snapshot).1 =
      .ok (.snapshot snapshot)) : ReadAt limits ts e.before.steps tenant snapshot :=
  ⟨e, id, ord, ctx, now, steps_of_run run hk ▸ hk, haction, hread⟩

theorem sourced_of_run : Sourced limits ts s := by
  refine run.along (Sourced limits ts) ⟨?_, ?_⟩ fun k e hk h => ⟨?_, ?_⟩
  · intro tenant e he
    simp [CacheState.new] at he
  · intro id request tenant fallback state sequence e he
    cases he
  · intro tenant e' he'
    rcases (cacheMoves_of_run run hk).entry_cases he' with hbefore | ⟨_, _, _, _, _, -, hthread, -⟩
    · exact h.entry tenant e' hbefore
    · exact h.fetched _ _ _ _ _ _ _ hthread
  · intro id request tenant fallback state sequence e' hthread
    rcases (cacheMoves_of_run run hk).fetched_cases hthread with
      ⟨hbefore, -⟩ | ⟨ord, ctx, now, snapshot, haction, rfl, hread⟩
    · exact h.fetched _ _ _ _ _ _ _ hbefore
    · exact readAt_of_fetch run hk haction hread

theorem sourced_before (hk : ts[k]? = some e) : Sourced limits ts e.before := by
  have hwhole : ∀ {j tenant snapshot}, ReadAt limits (ts.take k) j tenant snapshot →
      ReadAt limits ts j tenant snapshot := by
    rintro j tenant snapshot ⟨f, id, ord, ctx, now, hj, hf⟩
    rw [List.getElem?_take] at hj
    split_ifs at hj
    exact ⟨f, id, ord, ctx, now, hj, hf⟩
  have hsourced := sourced_of_run (run.upTo hk).1
  constructor
  · intro tenant e' he'
    exact hwhole (hsourced.entry tenant e' he')
  · intro id request tenant fallback state sequence e' hthread
    exact hwhole (hsourced.fetched id request tenant fallback state sequence e' hthread)

theorem fenced_of_returned {m : Nat} (heffect : TakesEffectAt limits ts m id tenant)
    {answer : Answer κ} (hresult : s.result id = some (.ok answer)) : s.Fenced tenant m := by
  obtain ⟨request, hreturned⟩ := thread_of_result hresult
  obtain ⟨⟨before, action, after⟩, call, ord, ctx, hm, rfl, hdelegation, hchanges⟩ := heffect
  have hthread := thread_of_delegation hdelegation
  have hmoves := cacheMoves_of_run run hm
  dsimp only at hthread hchanges hmoves
  cases hmoves with
  | delegated found =>
    rw [found] at hthread
    cases hthread
    -- a success that does not invalidate would have changed nothing
    have hdue : ∀ response, (before.provider.exec ord limits ctx tenant call).1 = .ok response →
        invalidates call response = true := by
      intro response hresponse
      by_contra hquiet
      exact not_changes_of_quiet hresponse (Bool.eq_false_iff.mpr hquiet) hchanges
    have hdelivers := run.since (Delivers tenant m id call _) hm
      (.inl ⟨(steps_of_run run hm).ge.trans_lt (Nat.lt_succ_self _), enter_threads_self⟩)
      fun j e' _ hj =>
        (cacheMoves_of_run run hj).delivers (cacheTicketed_of_run (run.upTo hj).1) hdue
    rcases hdelivers with ⟨-, hthread⟩ | ⟨failure, hthread⟩ | hfenced
    · rw [hreturned] at hthread
      cases hthread
    · rw [hreturned] at hthread
      cases hthread
    · exact hfenced

/-- The provider performs a mutation before the call returns. -/
theorem effect_before_start {m writer reader : Nat}
    (heffect : TakesEffectAt limits ts m writer tenant)
    (hstart : StartsAfter ts k reader request writer) : m < k := by
  obtain ⟨e, call, ord, ctx, hm, -, hdelegation, -⟩ := heffect
  obtain ⟨e', ctx', answer, hk, -, hresult⟩ := hstart
  have hthread := thread_of_delegation hdelegation
  obtain ⟨request', hreturned⟩ := thread_of_result hresult
  by_contra hle
  rcases Nat.eq_or_lt_of_le (Nat.le_of_not_lt hle) with rfl | hlt
  · rw [hm] at hk
    cases hk
    rw [hthread] at hreturned
    cases hreturned
  · have hk' := (List.getElem?_take_of_lt hlt).trans hk
    rw [returned_of_run (run.upTo hm).1 hk' hreturned] at hthread
    cases hthread

end

/-- A `Snapshot` or `Refresh` that starts after a mutation has returned success returns a snapshot
that was read from the provider after the mutation took effect. -/
theorem reads_own_writes (run : CacheRun config limits provider ts s) {m k writer reader : Nat}
    {request : Request κ} (heffect : TakesEffectAt limits ts m writer tenant)
    (hstart : StartsAfter ts k reader request writer) (hreads : request.Reads tenant)
    {entry : CachedSnapshot κ}
    (hresult : s.result reader = some (.ok (.snapshot entry))) :
    m < entry.readAt ∧ ReadAt limits ts entry.readAt tenant entry.snapshot := by
  have hmk := effect_before_start run heffect hstart
  obtain ⟨e, ctx, answer, hk, haction, hwriter⟩ := hstart
  obtain ⟨request', hreturned⟩ := thread_of_result hresult
  let Q : CachedSnapshot κ → Prop := fun entry =>
    m < entry.readAt ∧ ReadAt limits ts entry.readAt tenant entry.snapshot
  have hfenced : e.before.Fenced tenant m := by
    refine fenced_of_returned (run.upTo hk).1 ?_ hwriter
    obtain ⟨f, call, ord, ctx', hm, hf⟩ := heffect
    exact ⟨f, call, ord, ctx', (List.getElem?_take_of_lt hmk).trans hm, hf⟩
  have hkeeping : e.after.Keeping tenant Q reader := by
    obtain ⟨before, action, after⟩ := e
    dsimp only at haction
    subst haction
    have hmoves := cacheMoves_of_run run hk
    dsimp only at hmoves
    cases hmoves with
    | started unused => exact ⟨_, enter_threads_self, hreads, keeps_entry hreads Q⟩
  -- from the start of the call on, the fence stays up and the call only holds what is behind it
  have hend := run.since (fun s => s.Fenced tenant m ∧ s.Keeping tenant Q reader) hk
    ⟨(cacheMoves_of_run run hk).fenced (cacheTicketed_of_run (run.upTo hk).1) hfenced, hkeeping⟩ ?_
  · obtain ⟨-, thread, hthread, -, hkeeps⟩ := hend
    rw [hreturned] at hthread
    cases hthread
    exact hkeeps entry rfl
  · rintro j e' - hj ⟨hfenced', hkeeping'⟩
    have hmoves := cacheMoves_of_run run hj
    refine ⟨hmoves.fenced (cacheTicketed_of_run (run.upTo hj).1) hfenced', ?_⟩
    refine hmoves.keeping (fun entry' hentry' => ?_) (fun ord ctx' now snapshot hfetch hread => ?_)
      hkeeping'
    · exact ⟨hfenced'.entry entry' hentry', (sourced_before run hj).entry tenant entry' hentry'⟩
    · exact ⟨hfenced'.past, readAt_of_fetch run hj hfetch hread⟩

end Runs

/-! ### A run -/

/-- The number of features of the tenant. -/
def featureCount [CustomStrategy κ] [Runtime] (limits : Limits) (tenant : Bytes)
    (provider : MemoryProvider κ) : Option Int :=
  match (provider.exec .sorted limits .background tenant .snapshot).1 with
  | .ok (.snapshot snapshot) => some snapshot.definitions.len
  | _ => none

theorem changes_of_featureCount [CustomStrategy κ] [Runtime] {limits : Limits} {tenant : Bytes}
    {p q : MemoryProvider κ} (h : featureCount limits tenant p ≠ featureCount limits tenant q) :
    Changes limits tenant p q := by
  refine ⟨.sorted, .background, fun heq => h ?_⟩
  unfold featureCount
  rw [heq]

/-- A feature is created, and then a snapshot is read. -/
def writeThenRead : List (Action Empty) :=
  [.start 0 (.delegate (str "t") (.create (onFor (str "f") []) (str "a"))) .background,
    .delegate 0 .sorted .background, .invalidate 0,
    .start 1 (.snapshot (str "t")) .background, .lookUp 1 .zero, .beginRefresh 1 .background,
    .fetch 1 .sorted .background .zero, .publish 1, .endRefresh 1]

/-- What is evaluated about the run of `writeThenRead`. -/
def createsAndReads [Runtime] (ts : List (CacheStep Empty)) (s : CacheState Empty) : Bool :=
  (ts[1]?.any fun e => (e.before.delegation 0).any (·.1 = str "t") &&
    featureCount defaultLimits (str "t") e.before.provider ≠
      featureCount defaultLimits (str "t") e.after.provider) &&
  (ts[3]?.any fun e => (e.before.result 0).any Except.isOk) &&
  match s.result 1 with
  | some (.ok (.snapshot _)) => true
  | _ => false

/-- The run of a mutation and a call of `Snapshot` after it. -/
theorem reads_own_writes_created :
    letI := unaryRuntime
    ∃ (ts : List (CacheStep Empty)) (s : CacheState Empty) (entry : CachedSnapshot Empty),
      CacheRun smallCache defaultLimits ∅ ts s ∧ ts.map Transition.action = writeThenRead ∧
      s.result 1 = some (.ok (.snapshot entry)) ∧ 1 < entry.readAt ∧
      ReadAt defaultLimits ts entry.readAt (str "t") entry.snapshot := by
  let _ := unaryRuntime
  obtain ⟨ts, s, run, hactions, hfacts⟩ := exists_trace_of_play (show (play
    (fun s a => CacheState.step smallCache defaultLimits s a) (CacheState.new ∅)
    writeThenRead).any (fun x => createsAndReads x.1 x.2) = true by decide +kernel)
  simp only [createsAndReads, Bool.and_eq_true, Option.any_eq_true, decide_eq_true_eq] at hfacts
  obtain ⟨⟨⟨e, he, ⟨⟨tenant, call⟩, hdelegation, rfl⟩, hcount⟩, f, hf, outcome, hwriter, hok⟩,
    hreader⟩ := hfacts
  have heffect : TakesEffectAt defaultLimits ts 1 0 (str "t") :=
    ⟨e, call, .sorted, .background, he, action_eq hactions he rfl, hdelegation,
      changes_of_featureCount hcount⟩
  have hstart : StartsAfter ts 3 1 (.snapshot (str "t")) 0 := by
    have haction := action_eq hactions hf rfl
    cases outcome with
    | error failure => cases hok
    | ok answer => exact ⟨f, .background, answer, hf, haction, hwriter⟩
  split at hreader
  · rename_i entry hresult
    exact ⟨ts, s, entry, run, hactions, hresult,
      reads_own_writes run heffect hstart (.inl rfl) hresult⟩
  · cases hreader

end FeatureFlags
