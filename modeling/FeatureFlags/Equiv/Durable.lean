import FeatureFlags.Durable

/-!
# No lost updates

Every document that a call commits is its mutation applied to the document before it
(`no_lost_update`).

A call swaps against the revision that it has loaded.  The document may have been replaced since
then (`Versioned.Before`), but in that case its revision has grown, and the swap fails
(`Before.eq_of_swap`).
-/

namespace FeatureFlags

open Go Lib

variable {κ : Type}

/-! ### Steps -/

variable {thread : DurableThread κ}

section Steps

variable {tenant : Bytes} {o : DurableOutside}
  {request : DurableRequest κ} {backend backend' : Versioned Bytes}
  {progress : Progress (DurableStage κ) (Except Failure (Response κ))}

/-- After a conflict a call goes back to `Load`, or returns the conflict. -/
theorem nextAttempt_cases (limits : Limits) (attempt : Nat) :
    nextAttempt (κ := κ) limits attempt = .running (.loading attempt) ∨
      nextAttempt (κ := κ) limits attempt =
        .finished (.error (.error (.sentinel .storageConflict))) := by
  unfold nextAttempt
  split_ifs
  · exact .inl rfl
  · exact .inr rfl

variable [CustomStrategy κ] [Runtime]

variable (tenant : Bytes) (o : DurableOutside) (request : DurableRequest κ)
  (backend : Versioned Bytes) in
/-- What a step of a method does. -/
inductive DurableSteps : Versioned Bytes → DurableStage κ →
    Progress (DurableStage κ) (Except Failure (Response κ)) → Prop
  | fails (stage : DurableStage κ) (failure : Failure) :
      DurableSteps backend stage (.finished (.error failure))
  | attempts (stage : DurableStage κ) (attempt : Nat) (stage_ne : stage ≠ .reading) :
      DurableSteps backend stage (.running (.loading attempt))
  | loads (attempt : Nat) {data : Bytes} {result : Response κ}
      (afterLoad : request.afterLoad tenant o backend.document = .ok (result, data)) :
      DurableSteps backend (.loading attempt)
        (.running (.swapping attempt backend.revision data result))
  | commits (attempt : Nat) {revision : Nat} {data : Bytes} (result : Response κ)
      {backend' : Versioned Bytes} (swap : backend.swap revision data = some backend') :
      DurableSteps backend' (.swapping attempt revision data result) (.finished (.ok result))
  | reads (result : Response κ) : DurableSteps backend .reading (.finished (.ok result))

variable {stage : DurableStage κ}

theorem steps_of_nextAttempt (limits : Limits) (attempt : Nat) (hstage : stage ≠ .reading) :
    DurableSteps tenant o request backend backend stage (nextAttempt limits attempt) := by
  rcases nextAttempt_cases (κ := κ) limits attempt with h | h <;> rw [h]
  · exact .attempts stage attempt hstage
  · exact .fails stage _

theorem steps_of_durableStep
    (h : durableStep tenant o request backend stage = (backend', progress)) :
    DurableSteps tenant o request backend backend' stage progress := by
  cases stage <;> simp only [durableStep] at h
  case entering =>
    split at h <;> cases h
    · exact .fails _ _
    · exact steps_of_nextAttempt _ _ (by rintro ⟨⟩)
  case loading attempt =>
    split at h <;> cases h
    · exact .fails _ _
    · rename_i hload
      exact .loads attempt hload
  case swapping attempt revision data result =>
    split at h
    · split_ifs at h <;> cases h
      · exact steps_of_nextAttempt _ _ (by rintro ⟨⟩)
      · exact .fails _ _
    · split at h <;> cases h
      · rename_i hswap
        exact .commits attempt result hswap
      · exact steps_of_nextAttempt _ _ (by rintro ⟨⟩)
  case reading =>
    split at h
    · cases h
      exact .fails _ _
    · split at h <;> cases h
      · exact .fails _ _
      · exact .reads _

theorem steps_of_durableProgram {thread' spawned}
    (h : (durableProgram tenant).step o backend thread = some (backend', thread', spawned)) :
    thread'.request = thread.request ∧ spawned = [] ∧ ∃ stage, thread.progress = .running stage ∧
      DurableSteps tenant o thread.request backend backend' stage thread'.progress := by
  simp only [durableProgram] at h
  split at h
  · cases h
  · rename_i stage hstage
    cases h
    exact ⟨rfl, rfl, stage, hstage, steps_of_durableStep rfl⟩

theorem DurableSteps.before (h : DurableSteps tenant o request backend backend' stage progress) :
    backend.Before backend' := by
  cases h with
  | commits attempt result swap => exact Versioned.before_of_swap swap
  | _ => exact .refl backend

end Steps

/-! ### Calls that are about to commit -/

section Runs

variable [CustomStrategy κ] [Runtime] {tenant : Bytes} {ts : List (DurableMove κ)}
  {s : DurablePool κ} {k id : Nat} {e : DurableMove κ}

/-- The document that a call is about to swap comes from its mutation of an earlier document, which
has the revision that the call expects. -/
def Prepared (tenant : Bytes) (backend : Versioned Bytes) (thread : DurableThread κ) : Prop :=
  ∀ attempt revision data result,
    thread.progress = .running (.swapping attempt revision data result) →
    ∃ (o : DurableOutside) (loaded : Versioned Bytes), loaded.Before backend ∧
      loaded.revision = revision ∧
      thread.request.afterLoad tenant o loaded.document = .ok (result, data)

theorem prepared_of_durableRun (run : DurableRun tenant ts s) (hthread : thread ∈ s.threads) :
    Prepared tenant s.shared thread := by
  refine (Program.Run.invariant (fun _ => True) (Prepared tenant) run trivial ?_ ?_).2 thread
    hthread
  · intro backend request _ attempt revision data result hprogress
    simp only [durableProgram, Progress.running.injEq] at hprogress
    split_ifs at hprogress
  · intro o backend thread backend' thread' spawned _ hprepared heq
    obtain ⟨hrequest, rfl, stage, hstage, hsteps⟩ := steps_of_durableProgram heq
    refine ⟨trivial, ?_, by simp, ?_⟩
    · intro attempt revision data result hprogress
      rw [hprogress] at hsteps
      cases hsteps with
      | loads _ hload => exact ⟨o, backend, .refl backend, rfl, hrequest ▸ hload⟩
    · intro u hu attempt revision data result hprogress
      obtain ⟨o', loaded, hbefore, hrevision, hload⟩ := hu attempt revision data result hprogress
      exact ⟨o', loaded, hbefore.trans hsteps.before, hrevision, hload⟩

/-- In this step the call `id` commits the document that its mutation makes of the one before, and
returns the result of the mutation. -/
structure Commits (tenant : Bytes) (e : DurableMove κ) (id : Nat) (request : DurableRequest κ)
    (result : Response κ) : Prop where
  action : ∃ o, e.action = .step id o
  mutation : ∃ (loadOrd ord : MapOrder) (ctx : Ctx) (state state' : TenantState κ) (data : Bytes),
    tenantState loadOrd request.limits e.before.shared.document = .ok state ∧
    (request.call.exec ord request.limits ctx tenant).run state = .ok result state' ∧
    marshalTenantState request.limits state' = .ok data ∧
    e.after.shared = ⟨some data, e.before.shared.revision + 1⟩
  after : e.after.threads[id]? = some ⟨request, .finished (.ok result)⟩

variable {o : DurableOutside}

theorem load_eq_ok {limits : Limits} {document : Option Bytes} {state : TenantState κ}
    (h : load tenant o limits document = .ok state) :
    tenantState o.loadOrd limits document = .ok state := by
  simp only [load, bind_eq_ok] at h
  obtain ⟨-, -, h⟩ := h
  split at h
  · cases h
  · exact h

variable {request : DurableRequest κ}

variable {result : Response κ}

theorem afterLoad_eq_ok {document : Option Bytes} {data : Bytes}
    (h : request.afterLoad tenant o document = .ok (result, data)) :
    ∃ state state', tenantState o.loadOrd request.limits document = .ok state ∧
      (request.call.exec o.ord request.limits o.ctx tenant).run state = .ok result state' ∧
      marshalTenantState request.limits state' = .ok data := by
  unfold DurableRequest.afterLoad at h
  split at h
  · cases h
  · rename_i state hload
    split at h
    · cases h
    · cases h
    · rename_i result' state' hexec
      split at h <;> cases h
      rename_i hmarshal
      exact ⟨state, state', load_eq_ok hload, hexec, hmarshal⟩

section

variable (run : DurableRun tenant ts s)
include run

section

variable (hk : ts[k]? = some e)
include hk

/-- A step that changes the document is the commit of the call whose step it is. -/
theorem commits_of_step (haction : e.action = .step id o)
    (hchange : e.after.shared ≠ e.before.shared) :
    ∃ request result, Commits tenant e id request result := by
  obtain ⟨thread, thread', spawned, hthread, hthread', heq⟩ := run.step_at hk haction
  obtain ⟨hrequest, -, stage, hstage, hsteps⟩ := steps_of_durableProgram heq
  have hprepared := prepared_of_durableRun (run.upTo hk).1 (List.mem_of_getElem? hthread)
  generalize hprogress : thread'.progress = progress at hsteps
  generalize hshared : e.after.shared = shared at hsteps hchange
  cases hsteps with
  | commits attempt result swap =>
    obtain ⟨o', loaded, hbefore, rfl, hload⟩ := hprepared _ _ _ _ hstage
    -- The document has not been replaced since this call loaded it.
    have hloaded : loaded = e.before.shared := hbefore.eq_of_swap swap
    rw [hloaded] at hload swap
    obtain ⟨state, state', hstate, hexec, hmarshal⟩ := afterLoad_eq_ok hload
    have hafter := hshared.trans (Versioned.swap_eq_some_iff.mp swap).2
    refine ⟨thread.request, result, ⟨o, haction⟩,
      ⟨o'.loadOrd, o'.ord, o'.ctx, state, state', _, hstate, hexec, hmarshal, hafter⟩, ?_⟩
    rw [hthread', ← hrequest, ← hprogress]
  | _ => exact absurd rfl hchange

theorem commits_of_move (hchange : e.after.shared ≠ e.before.shared) :
    ∃ id request result, Commits tenant e id request result := by
  obtain ⟨id, o, haction⟩ := run.exists_step_of_ne hk hchange
  obtain ⟨request, result, hcommits⟩ := commits_of_step run hk haction hchange
  exact ⟨id, request, result, hcommits⟩

/-- A call that has returned takes no more steps. -/
theorem finished_last {outcome} (hthread : e.after.threads[id]? = some thread)
    (hfinished : thread.progress = .finished outcome) : s.threads[id]? = some thread := by
  obtain ⟨thread', hthread', rfl⟩ := Program.Run.thread_last (fun u => u = thread) (by
    rintro o backend u backend' u' spawned rfl heq
    obtain ⟨-, -, stage, hstage, -⟩ := steps_of_durableProgram heq
    cases hstage.symm.trans hfinished) run hk ⟨thread, hthread, rfl⟩
  exact hthread'

/-- The call commits in the step `k`, and in no other step. -/
def CommitsOnce (tenant : Bytes) (ts : List (DurableMove κ)) (id : Nat) (request : DurableRequest κ)
    (result : Response κ) : Prop :=
  ∃ k e, ts[k]? = some e ∧ Commits tenant e id request result ∧
    ∀ (j : Nat) (e' : DurableMove κ) (o : DurableOutside), ts[j]? = some e' →
      e'.action = .step id o → e'.after.shared ≠ e'.before.shared → j = k

/-- A call that commits returns, so the later of two commits cannot be its. -/
theorem not_commits_of_lt {j : Nat} {e' : DurableMove κ}
    (hcommits : Commits tenant e id request result) (hj : ts[j]? = some e') (hlt : k < j) :
    e'.action ≠ .step id o := by
  intro haction
  have hk' : (ts.take j)[k]? = some e := by rw [List.getElem?_take_of_lt hlt, hk]
  have hreturned := finished_last (run.upTo hj).1 hk' hcommits.after rfl
  obtain ⟨thread, thread', spawned, hthread, -, heq⟩ := run.step_at hj haction
  cases hreturned.symm.trans hthread
  obtain ⟨-, -, stage, hstage, -⟩ := steps_of_durableProgram heq
  cases hstage

theorem commitsOnce_of_commits (hcommits : Commits tenant e id request result) :
    CommitsOnce tenant ts id request result := by
  refine ⟨k, e, hk, hcommits, fun j e' o hj haction hchange => ?_⟩
  rcases Nat.lt_trichotomy j k with hlt | rfl | hlt
  · -- An earlier commit would have ended the call before the step `k`.
    obtain ⟨request', result', hcommits'⟩ := commits_of_step run hj haction hchange
    obtain ⟨o', haction'⟩ := hcommits.action
    exact absurd haction' (not_commits_of_lt run hj hcommits' hk hlt)
  · rfl
  · exact absurd haction (not_commits_of_lt run hk hcommits hj hlt)

end

/-- What a thread that mutates has done. -/
def Committed (tenant : Bytes) (ts : List (DurableMove κ)) (id : Nat) (thread : DurableThread κ) :
    Prop :=
  thread.request.mutates = true → thread.progress ≠ .running .reading ∧
    ∀ result, thread.progress = .finished (.ok result) →
      ∃ (k : Nat) (e : DurableMove κ), ts[k]? = some e ∧ Commits tenant e id thread.request result

theorem committed_of_run (hthread : s.threads[id]? = some thread) :
    Committed tenant ts id thread := by
  refine Program.Run.thread_along (Committed tenant ts) run ?_ ?_ hthread
  · intro id request hmutates
    simp only [durableProgram] at hmutates ⊢
    rw [if_pos hmutates]
    exact ⟨by rintro ⟨⟩, by rintro _ ⟨⟩⟩
  · intro k e id o thread thread' spawned hk haction hthread hthread' hcommitted heq
    obtain ⟨hrequest, rfl, stage, hstage, hsteps⟩ := steps_of_durableProgram heq
    refine ⟨fun hmutates => ?_, by simp⟩
    have hreading : thread.progress ≠ .running .reading := (hcommitted (hrequest ▸ hmutates)).1
    generalize hp : thread'.progress = progress at hsteps ⊢
    generalize hs : e.after.shared = shared at hsteps
    cases hsteps with
    | fails | attempts | loads => exact ⟨by rintro ⟨⟩, by rintro _ ⟨⟩⟩
    | reads => exact absurd hstage hreading
    | commits attempt result swap =>
      refine ⟨by rintro ⟨⟩, ?_⟩
      rintro _ ⟨⟩
      have hchange : e.after.shared ≠ e.before.shared := hs ▸ Versioned.ne_of_swap swap
      obtain ⟨request', result', hcommits⟩ := commits_of_step run hk haction hchange
      obtain rfl := Option.some.inj (hcommits.after.symm.trans hthread')
      cases hp
      exact ⟨k, e, hk, hcommits⟩

end

/-- **No update is lost.**  Whatever the calls over a backend do, a step that changes the document
commits the mutation of one call, applied to the document before it; a call that mutates and returns
a result commits exactly once, with this result; and a call that returns an error never commits. -/
theorem no_lost_update (run : DurableRun tenant ts s) :
    (∀ (k : Nat) (e : DurableMove κ), ts[k]? = some e → e.after.shared ≠ e.before.shared →
      ∃ id request result, Commits tenant e id request result) ∧
    (∀ (id : Nat) (request : DurableRequest κ) (result : Response κ), request.mutates = true →
      s.threads[id]? = some ⟨request, .finished (.ok result)⟩ →
      CommitsOnce tenant ts id request result) ∧
    ∀ (id : Nat) (request : DurableRequest κ) (failure : Failure),
      s.threads[id]? = some ⟨request, .finished (.error failure)⟩ →
      ∀ (k : Nat) (e : DurableMove κ) (o : DurableOutside), ts[k]? = some e →
        e.action = .step id o → e.after.shared = e.before.shared := by
  refine ⟨fun k e hk hchange => commits_of_move run hk hchange, ?_, ?_⟩
  · intro id request result hmutates hthread
    obtain ⟨k, e, hk, hcommits⟩ := (committed_of_run run hthread hmutates).2 result rfl
    exact commitsOnce_of_commits run hk hcommits
  · intro id request failure hthread k e o hk haction
    by_contra hchange
    obtain ⟨request', result, hcommits⟩ := commits_of_step run hk haction hchange
    cases (finished_last run hk hcommits.after rfl).symm.trans hthread

end Runs

/-- A call of `Create` for a feature without dependencies. -/
def createOf (key : Bytes) : DurableRequest Empty := ⟨defaultLimits, .create (onFor key []) []⟩

/-- Nothing fails, and nothing is cancelled. -/
def undisturbed : DurableOutside := ⟨none, .background, .sorted, .sorted, none, none⟩

/-- Two calls load the missing document; the second one commits first, and the first one has to try
again. -/
def race : List (Act (DurableRequest Empty) DurableOutside) :=
  [.call (createOf (str "a")), .call (createOf (str "b"))] ++
  [0, 0, 1, 1, 1, 0, 0, 0].map fun id => .step id undisturbed

/-- The result of a call that mutates. -/
def mutationOf (s : DurablePool κ) (id : Nat) : Option (DurableRequest κ × Response κ) :=
  match s.threads[id]? with
  | some ⟨request, .finished (.ok result)⟩ =>
    if request.mutates then some (request, result) else none
  | _ => none

theorem thread_of_mutationOf {s : DurablePool κ} {id : Nat} {x} (h : mutationOf s id = some x) :
    x.1.mutates = true ∧ s.threads[id]? = some ⟨x.1, .finished (.ok x.2)⟩ := by
  unfold mutationOf at h
  split at h
  · rename_i request result hthread
    split_ifs at h with hmutates
    cases h
    exact ⟨hmutates, hthread⟩
  · cases h

/-- Both calls of the race commit, one after the other. -/
theorem no_lost_update_race :
    letI := unaryRuntime
    ∃ (ts : List (DurableMove Empty)) (s : DurablePool Empty)
      (x y : DurableRequest Empty × Response Empty),
      DurableRun (str "t") ts s ∧ s.shared.revision = 2 ∧
      CommitsOnce (str "t") ts 0 x.1 x.2 ∧ CommitsOnce (str "t") ts 1 y.1 y.2 := by
  let _ := unaryRuntime
  obtain ⟨ts, s, run, -, hfacts⟩ := exists_trace_of_play (show (play
    (durableProgram (str "t")).next ⟨.missing, []⟩ race).any (fun x => x.2.shared.revision == 2 &&
      (mutationOf x.2 0).isSome && (mutationOf x.2 1).isSome) = true by decide +kernel)
  simp only [Bool.and_eq_true, beq_iff_eq, Option.isSome_iff_exists] at hfacts
  obtain ⟨⟨hrevision, x, hx⟩, y, hy⟩ := hfacts
  obtain ⟨-, hcommits, -⟩ := no_lost_update run
  have hx' := thread_of_mutationOf hx
  have hy' := thread_of_mutationOf hy
  exact ⟨ts, s, x, y, run, hrevision, hcommits 0 x.1 x.2 hx'.1 hx'.2,
    hcommits 1 y.1 y.2 hy'.1 hy'.2⟩

end FeatureFlags
