import FeatureFlags.Equiv.Freshness

/-!
# What the cache returns is recent

For a cache over any provider: the provider's answers come from outside, and the readings of the
clock are any times.

* `FetchedBy`, `PublishedFor`, `LookedUp`, `RefreshFails`: what has happened in a run.
* `Accounted`: every entry that the cache or a call holds was fetched for its tenant, and a call
  that has returned one has met the bounds.  Every step keeps it.
* `staleness_bounded`: what `Snapshot` returns was fetched in the call itself, or is an entry whose
  age is within the bounds.
-/

namespace FeatureFlags

open Go Lib

variable {κ : Type}

theorem CacheState.beginRefresh_entries (s : CacheState κ) (tenant : Bytes) :
    (FeatureFlags.beginRefresh tenant s).2.2.entries = s.entries := by
  rcases join_or_fresh s tenant with ⟨n, hn, hnext⟩ | hfresh
  · rw [beginRefresh_join hn hnext]
  · rw [beginRefresh_fresh hfresh]

/-! ### What has happened -/

/-- `now.Sub(earlier)`, which saturates. -/
def Go.Time.sub (now earlier : Time) : Int :=
  max (-maxDuration - 1) (min (now.nanos - earlier.nanos) maxDuration)

/-- At `now` the age of what was read at `fetched` is within the bound.  Only a bound at which `Sub`
saturates says nothing about the difference of the two times. -/
def AgeWithin (now fetched : Time) (bound : Int) : Prop :=
  now.sub fetched ≤ bound ∧ (bound < maxDuration → now.nanos - fetched.nanos ≤ bound)

theorem ageWithin_of_boundedAge {now fetched : Time} {bound : Int}
    (h : boundedAge now fetched ≤ bound) : AgeWithin now fetched bound := by
  have hmax : 0 < maxDuration := by decide
  unfold AgeWithin Go.Time.sub
  unfold boundedAge at h
  split_ifs at h with hbefore
  · -- The clock is behind the time of the fetch, and the age counts as zero.
    have hneg : now.nanos < fetched.nanos := by simpa [Time.before] using hbefore
    omega
  · have hpos : ¬ now.nanos < fetched.nanos := by simpa [Time.before] using hbefore
    omega

variable (config : CacheConfig) (ts : List (OverStep κ)) (id : Nat) (tenant : Bytes)

/-- The call `id` has fetched the entry for the tenant: the provider returned its snapshot, which
is within the limit, and then the clock read its time. -/
def FetchedBy (entry : CachedSnapshot κ) : Prop :=
  ∃ e ∈ ts,
    (∃ ord ctx, e.action = (.fetch id ord ctx entry.fetched, .ok (.snapshot entry.snapshot))) ∧
    (∃ request fallback state sequence,
      e.before.threads id = some ⟨request, .refreshing tenant fallback state sequence⟩) ∧
    entry.snapshot.definitions.len ≤ config.maxFeaturesPerTenant

/-- Some call has fetched the entry for the tenant and put it in the cache. -/
def PublishedFor (entry : CachedSnapshot κ) : Prop :=
  ∃ id, FetchedBy config ts id tenant entry ∧
    ∃ e ∈ ts, e.action.1 = .publish id ∧ e.after.entries[tenant]? = some entry

/-- The call `id` of `Snapshot` has read the clock at its start. -/
def LookedUp (now : Time) : Prop :=
  ∃ e ∈ ts, e.action.1 = .lookUp id now

/-- The refresh of the call `id` has failed: it was not admitted, or the provider did not return a
snapshot within the limit. -/
def RefreshFails : Prop :=
  ∃ e ∈ ts,
    (∃ ctx error, e.action.1 = .beginRefresh id ctx ∧
      providerInput ctx tenant config.maxTenantBytes = .error error) ∨
    (∃ ord ctx now, e.action.1 = .fetch id ord ctx now ∧ ∀ snapshot,
      e.action.2 = .ok (.snapshot snapshot) →
        config.maxFeaturesPerTenant < snapshot.definitions.len)

/-- The entry is old enough at most that the call `id` may return it. -/
def MayReturn (entry : CachedSnapshot κ) : Prop :=
  FetchedBy config ts id tenant entry ∨
    ∃ now, LookedUp ts id now ∧ PublishedFor config ts tenant entry ∧
      (AgeWithin now entry.fetched config.maxStaleness ∨ config.failurePolicy = .failOpen ∧
        RefreshFails config ts id tenant ∧ AgeWithin now entry.fetched config.maxOutageStaleness)

/-! ### Every entry is accounted for -/

/-- What a call of `Snapshot` keeps while it refreshes. -/
def Recalls (now : Time) (found : Option (CachedSnapshot κ)) : Prop :=
  LookedUp ts id now ∧ ∀ entry, found = some entry → PublishedFor config ts tenant entry

/-- The same for a refresh, which may be of its own. -/
def RecallsFor (request : Request κ) (tenant : Bytes) (fallback : Fallback κ) : Prop :=
  (∀ tenant', request = .snapshot tenant' → tenant' = tenant) ∧
    ∀ now found, fallback = some (now, found) → Recalls config ts id tenant now found

/-- The result of a refresh: the call has fetched it, or the refresh has failed. -/
def Ends : Except Failure (CachedSnapshot κ) → Prop
  | .ok entry => FetchedBy config ts id tenant entry
  | .error _ => RefreshFails config ts id tenant

/-- What a call holds is accounted for. -/
def Thread.Accounted (thread : Thread κ) : Prop :=
  match thread.phase with
  | .missed now found =>
    ∀ tenant, thread.request = .snapshot tenant → Recalls config ts id tenant now found
  | .refreshing tenant fallback _ _ => RecallsFor config ts id thread.request tenant fallback
  | .fetched tenant fallback _ _ entry =>
    RecallsFor config ts id thread.request tenant fallback ∧ FetchedBy config ts id tenant entry
  | .ending tenant fallback _ result =>
    RecallsFor config ts id thread.request tenant fallback ∧ Ends config ts id tenant result
  | .returned outcome => ∀ tenant entry, thread.request = .snapshot tenant →
    outcome = .ok (.snapshot entry) → MayReturn config ts id tenant entry
  | _ => True

/-- What the cache and its calls hold is accounted for. -/
structure Accounted (s : CacheState κ) : Prop where
  entry : ∀ (tenant : Bytes) (e : CachedSnapshot κ), s.entries[tenant]? = some e →
    PublishedFor config ts tenant e
  thread : ∀ (id : Nat) (thread : Thread κ), s.threads id = some thread →
    thread.Accounted config ts id

variable {config ts id tenant}

variable {s t : CacheState κ} {request : Request κ} {phase : Phase κ} {fallback : Fallback κ}

/-- A step that moves one call on, and does not add an entry. -/
theorem Accounted.enter (h : Accounted config ts s)
    (hentries : ∀ (tenant : Bytes) (e : CachedSnapshot κ), t.entries[tenant]? = some e →
      s.entries[tenant]? = some e ∨ PublishedFor config ts tenant e)
    (hthreads : t.threads = s.threads) (hthread : Thread.Accounted config ts id ⟨request, phase⟩) :
    Accounted config ts (t.enter id request phase) where
  entry tenant e he := by
    rcases hentries tenant e he with hold | hnew
    · exact h.entry tenant e hold
    · exact hnew
  thread id' thread hid' := by
    by_cases hid : id' = id
    · subst hid
      rw [CacheState.enter_threads_self, Option.some.injEq] at hid'
      exact hid' ▸ hthread
    · rw [CacheState.enter_threads_of_ne hid, hthreads] at hid'
      exact h.thread id' thread hid'

theorem accounted_new : Accounted config ts (CacheState.new ∅) where
  entry tenant e he := by simp [CacheState.new] at he
  thread id thread hthread := by cases hthread

/-- What the call returns after its refresh. -/
theorem accounted_settle {result} (hrecalls : RecallsFor config ts id request tenant fallback)
    (hresult : Ends config ts id tenant result) :
    Thread.Accounted config ts id ⟨request, .returned (settle config fallback result)⟩ := by
  intro tenant' entry hrequest houtcome
  obtain rfl := hrecalls.1 tenant' hrequest
  unfold settle at houtcome
  split at houtcome
  · cases houtcome
    exact .inl hresult
  · rename_i failure now found
    split_ifs at houtcome with hopen
    cases houtcome
    obtain ⟨hlooked, hpublished⟩ := hrecalls.2 now _ rfl
    exact .inr ⟨now, hlooked, hpublished _ rfl,
      .inr ⟨hopen.1, hresult, ageWithin_of_boundedAge hopen.2⟩⟩
  · cases houtcome

/-- What the call holds after the provider has answered. -/
theorem accounted_afterFetch {state sequence readAt : Nat} {now : Time} {ord : MapOrder} {ctx : Ctx}
    {answer} {e : OverStep κ} (he : e ∈ ts)
    (haction : e.action = (.fetch id ord ctx now, answer))
    (hbefore : e.before.threads id = some ⟨request, .refreshing tenant fallback state sequence⟩)
    (hrecalls : RecallsFor config ts id request tenant fallback) :
    Thread.Accounted config ts id
      ⟨request, CacheState.afterFetch config tenant fallback state sequence now readAt answer⟩ := by
  -- Whatever is not a snapshot within the limit is a failure of the refresh.
  have hfails (h : ∀ snapshot, answer = .ok (.snapshot snapshot) →
      config.maxFeaturesPerTenant < snapshot.definitions.len) : RefreshFails config ts id tenant :=
    ⟨e, he, .inr ⟨ord, ctx, now, by rw [haction], by rwa [haction]⟩⟩
  unfold CacheState.afterFetch
  split
  · rename_i snapshot
    split_ifs with hlen
    · refine ⟨hrecalls, hfails fun snapshot' h => ?_⟩
      cases h
      exact hlen
    · exact ⟨hrecalls, e, he, ⟨ord, ctx, haction⟩, ⟨request, fallback, state, sequence, hbefore⟩,
        Int.not_lt.mp hlen⟩
  · rename_i hother
    exact ⟨hrecalls, hfails fun snapshot h => absurd (Except.ok.inj h) (hother snapshot)⟩
  · exact ⟨hrecalls, hfails fun snapshot h => by cases h⟩

theorem accounted_entry {ctx : Ctx} :
    Thread.Accounted config ts id ⟨request, CacheState.entry config ctx request⟩ := by
  unfold CacheState.entry
  cases request with
  | snapshot | delegate =>
    dsimp only
    split
    · trivial
    · intro _ _ _ h
      cases h
  | refresh | close => trivial

/-- A call that is about to refresh holds what the refresh has to keep. -/
theorem recallsFor_of_waits (h : Accounted config ts s)
    (waits : s.Waits id request tenant fallback) :
    RecallsFor config ts id request tenant fallback := by
  rcases waits with ⟨now, found, rfl, rfl, thread⟩ | ⟨rfl, rfl, thread⟩
  · refine ⟨fun tenant' h => (Request.snapshot.inj h).symm, fun now' found' hfallback => ?_⟩
    cases hfallback
    exact h.thread id _ thread tenant rfl
  · refine ⟨fun tenant' h => ?_, fun now' found' h => ?_⟩ <;> cases h

theorem accounted_of_moves {e : OverStep κ} (he : e ∈ ts)
    (hmoves : CacheState.Moves config (.answer e.action.2) e.before e.action.1 e.after)
    (h : Accounted config ts e.before) : Accounted config ts e.after := by
  obtain ⟨s, ⟨action, answer⟩, t⟩ := e
  dsimp only at hmoves h ⊢
  have hkept (s' : CacheState κ) (tenant : Bytes) (entry : CachedSnapshot κ) :
      s'.entries[tenant]? = some entry → s'.entries[tenant]? = some entry ∨
        PublishedFor config ts tenant entry := .inl
  cases hmoves with
  | started unused => exact h.enter (hkept s) rfl accounted_entry
  | hit thread found fresh =>
    refine h.enter (hkept s) rfl fun tenant' entry' hrequest houtcome => ?_
    cases hrequest
    cases houtcome
    exact .inr ⟨_, ⟨_, he, rfl⟩, h.entry _ _ found, .inl (ageWithin_of_boundedAge fresh)⟩
  | missed thread =>
    refine h.enter (hkept s) rfl fun tenant' hrequest => ⟨⟨_, he, rfl⟩, fun entry hentry => ?_⟩
    cases hrequest
    exact h.entry _ entry hentry
  | refused waits input =>
    exact h.enter (hkept s) rfl
      (accounted_settle (recallsFor_of_waits h waits) ⟨_, he, .inl ⟨_, _, rfl, input⟩⟩)
  | admitted waits =>
    have hentries := CacheState.beginRefresh_entries s
    exact h.enter (fun _ _ hentry => .inl (hentries _ ▸ hentry))
      (CacheState.beginRefresh_threads _) (recallsFor_of_waits h waits)
  | fetched thread =>
    exact h.enter (hkept s) rfl (accounted_afterFetch he rfl thread (h.thread _ _ thread))
  | published thread =>
    obtain ⟨hrecalls, hfetched⟩ := h.thread _ _ thread
    refine h.enter (fun tenant' entry' hentry' => ?_) CacheState.publish_threads
      ⟨hrecalls, hfetched⟩
    rcases CacheState.of_publish hentry' with hold | ⟨rfl, rfl, _⟩
    · exact .inl hold
    · exact .inr ⟨_, hfetched, _, he, rfl, hentry'⟩
  | ended thread =>
    obtain ⟨hrecalls, hends⟩ := h.thread _ _ thread
    exact h.enter (hkept s) rfl (accounted_settle hrecalls hends)
  | delegated thread => exact h.enter (hkept s) rfl trivial
  | invalidated thread =>
    refine h.enter (fun tenant' entry' hentry' => .inl ?_) rfl fun _ _ hrequest => by cases hrequest
    simp only [invalidateOnSuccess, GoMap.lookup_erase] at hentry'
    split_ifs at hentry'
    exact hentry'
  | kept thread | failed thread =>
    exact h.enter (hkept s) rfl fun _ _ hrequest => by cases hrequest
  | closed thread =>
    exact h.enter (fun tenant' entry' hentry' => by simp at hentry') rfl
      fun _ _ hrequest => by cases hrequest
  | external => exact ⟨h.entry, h.thread⟩

section Steps

variable [CustomStrategy κ] [Runtime] {limits : Limits}

theorem accounted_of_run (run : OverRun config limits ts s) : Accounted config ts s :=
  run.along (Accounted config ts) accounted_new fun _ _ hk h =>
    accounted_of_moves (List.mem_of_getElem? hk) (moves_of_run run hk) h

/-- A snapshot that `Snapshot` returns without an error is one that the provider returned for that
tenant, within the limit on features.  It was fetched in this call, or was published and its age at
the start of the call is within `maxStaleness`, or the policy is to fail open, the refresh of this
call has failed and the age is within `maxOutageStaleness`. -/
theorem staleness_bounded (run : OverRun config limits ts s) {entry : CachedSnapshot κ}
    (returned : s.threads id = some ⟨.snapshot tenant, .returned (.ok (.snapshot entry))⟩) :
    (∃ id', FetchedBy config ts id' tenant entry) ∧
      (FetchedBy config ts id tenant entry ∨
        ∃ now, LookedUp ts id now ∧ PublishedFor config ts tenant entry ∧
          (AgeWithin now entry.fetched config.maxStaleness ∨
            config.failurePolicy = .failOpen ∧ RefreshFails config ts id tenant ∧
              AgeWithin now entry.fetched config.maxOutageStaleness)) := by
  have hmay : MayReturn config ts id tenant entry :=
    (accounted_of_run run).thread id _ returned tenant entry rfl rfl
  refine ⟨?_, hmay⟩
  rcases hmay with hfetched | ⟨_, _, ⟨id', hfetched, _⟩, _⟩
  · exact ⟨id, hfetched⟩
  · exact ⟨id', hfetched⟩

end Steps

/-- Three readings of the clock after an entry was fetched, with the provider down. -/
def servesOutage : List (Action Empty × Except Failure (Response Empty)) :=
  [(.start 0 (.snapshot (str "t")) .background, .error .panic), (.lookUp 0 .zero, .error .panic),
    (.beginRefresh 0 .background, .error .panic),
    (.fetch 0 .sorted .background .zero, .ok (.snapshot ⟨∅, ∅, str "t", defaultLimits⟩)),
    (.publish 0, .error .panic), (.endRefresh 0, .error .panic),
    (.start 1 (.snapshot (str "t")) .background, .error .panic), (.lookUp 1 ⟨3⟩, .error .panic),
    (.beginRefresh 1 .background, .error .panic),
    (.fetch 1 .sorted .background ⟨3⟩, .error (.error (.errorf "down" []))),
    (.endRefresh 1, .error .panic)]

/-- The second call has returned a snapshot. -/
def CacheState.serves (s : CacheState Empty) : Bool :=
  match s.threads 1 with
  | some ⟨.snapshot tenant, .returned (.ok (.snapshot _))⟩ => tenant = str "t"
  | _ => false

/-- The second call returns the old entry. -/
theorem staleness_bounded_outage :
    letI := unaryRuntime
    ∃ (config : CacheConfig) (ts : List (OverStep Empty)) (s : CacheState Empty)
      (entry : CachedSnapshot Empty),
      OverRun config defaultLimits ts s ∧ ts.map Transition.action = servesOutage ∧
      s.threads 1 = some ⟨.snapshot (str "t"), .returned (.ok (.snapshot entry))⟩ ∧
      ∃ id, FetchedBy config ts id (str "t") entry := by
  let _ := unaryRuntime
  obtain ⟨ts, s, run, hactions, hreturned⟩ := exists_overRun ⟨1, 5, .failOpen, 1, 10, 10⟩
    defaultLimits servesOutage (fun x => x.2.serves) (by decide +kernel)
  unfold CacheState.serves at hreturned
  split at hreturned
  · rename_i tenant entry hthread
    obtain rfl := of_decide_eq_true hreturned
    exact ⟨_, ts, s, entry, run, hactions, hthread, (staleness_bounded run hthread).1⟩
  · cases hreturned

end FeatureFlags
