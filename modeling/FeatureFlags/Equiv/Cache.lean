import FeatureFlags.Cache
import FeatureFlags.Equiv.Memory
import FeatureFlags.Lib.Tickets
import FeatureFlags.Lib.Trace

/-!
# Steps of the caching provider

* `Moves`: what a step does, one case for each kind; `moves_of_step`, `moves_of_stepOver`: this is
  all, over a `MemoryProvider` and over any provider.
* `CacheRun`, `OverRun`: the runs of a cache over the one and over the other.
* `Tickets`: the invariant of the refresh states.  A state belongs to one tenant, is in use as long
  as a refresh holds it, and never comes back once it is dropped (`Moves.later`).
-/

namespace FeatureFlags

open Go Lib

variable {κ : Type} {request : Request κ} {id : Nat} {config : CacheConfig} {limits : Limits}
  {s t : CacheState κ} {action : Action κ}

/-- What the methods of a provider return, and what they leave of the state of the model's
provider. -/
abbrev Exec (κ : Type) := MemoryProvider κ → MapOrder → Ctx → Bytes → Call κ →
  Except Failure (Response κ) × MemoryProvider κ

/-- A `MemoryProvider`. -/
abbrev Exec.memory [CustomStrategy κ] [Runtime] (limits : Limits) : Exec κ :=
  fun p ord ctx tenant call => p.exec ord limits ctx tenant call

/-- A provider that returns `answer`. -/
abbrev Exec.answer (answer : Except Failure (Response κ)) : Exec κ := fun p _ _ _ _ => (answer, p)

def Action.callsProvider : Action κ → Bool
  | .fetch .. | .delegate .. | .external .. => true
  | _ => false

namespace CacheState

/-! ### What a step does -/

/-- A thread is about to be admitted to `Refresh`. -/
def Waits (s : CacheState κ) (id : Nat) (request : Request κ) (tenant : Bytes)
    (fallback : Fallback κ) : Prop :=
  (∃ now entry, request = .snapshot tenant ∧ fallback = some (now, entry) ∧
    s.threads id = some ⟨request, .missed now entry⟩) ∨
  (request = .refresh tenant ∧ fallback = none ∧ s.threads id = some ⟨request, .admitting⟩)

variable (config : CacheConfig) (exec : Exec κ) (s : CacheState κ) in
/-- What a step does. -/
inductive Moves : Action κ → CacheState κ → Prop
  | started {id : Nat} {request : Request κ} {ctx : Ctx} (unused : s.threads id = none) :
      Moves (.start id request ctx) (s.enter id request (entry config ctx request))
  | hit {id : Nat} {now : Time} {tenant : Bytes} {e : CachedSnapshot κ}
      (thread : s.threads id = some ⟨.snapshot tenant, .looking⟩)
      (found : s.entries[tenant]? = some e)
      (fresh : boundedAge now e.fetched ≤ config.maxStaleness) :
      Moves (.lookUp id now) (s.enter id (.snapshot tenant) (.returned (.ok (.snapshot e))))
  | missed {id : Nat} {now : Time} {tenant : Bytes}
      (thread : s.threads id = some ⟨.snapshot tenant, .looking⟩) :
      Moves (.lookUp id now) (s.enter id (.snapshot tenant) (.missed now s.entries[tenant]?))
  | refused {id : Nat} {request : Request κ} {tenant : Bytes} {ctx : Ctx} {fallback : Fallback κ}
      {e : GoError} (waits : s.Waits id request tenant fallback)
      (input : providerInput ctx tenant config.maxTenantBytes = .error e) :
      Moves (.beginRefresh id ctx)
        (s.enter id request (.returned (settle config fallback (.error (.error e)))))
  | admitted {id : Nat} {request : Request κ} {tenant : Bytes} {ctx : Ctx} {fallback : Fallback κ}
      (waits : s.Waits id request tenant fallback) :
      Moves (.beginRefresh id ctx)
        ((FeatureFlags.beginRefresh tenant s).2.2.enter id request (.refreshing tenant fallback
          (FeatureFlags.beginRefresh tenant s).1 (FeatureFlags.beginRefresh tenant s).2.1))
  | fetched {id : Nat} {ord : MapOrder} {ctx : Ctx} {now : Time} {request : Request κ}
      {tenant : Bytes} {fallback : Fallback κ} {state sequence : Nat}
      (thread : s.threads id = some ⟨request, .refreshing tenant fallback state sequence⟩) :
      Moves (.fetch id ord ctx now)
        (s.enter id request (afterFetch config tenant fallback state sequence now s.steps
          (exec s.provider ord ctx tenant .snapshot).1))
  | published {id : Nat} {request : Request κ} {tenant : Bytes} {fallback : Fallback κ}
      {state sequence : Nat} {e : CachedSnapshot κ}
      (thread : s.threads id = some ⟨request, .fetched tenant fallback state sequence e⟩) :
      Moves (.publish id) ((FeatureFlags.publish config tenant state sequence e s).enter id request
          (.ending tenant fallback state (.ok e)))
  | ended {id : Nat} {request : Request κ} {tenant : Bytes} {fallback : Fallback κ} {state : Nat}
      {result : Except Failure (CachedSnapshot κ)}
      (thread : s.threads id = some ⟨request, .ending tenant fallback state result⟩) :
      Moves (.endRefresh id) ((FeatureFlags.endRefresh tenant state s).enter id request
          (.returned (settle config fallback result)))
  | delegated {id : Nat} {ord : MapOrder} {ctx : Ctx} {tenant : Bytes} {call : Call κ}
      (thread : s.threads id = some ⟨.delegate tenant call, .delegating⟩) :
      Moves (.delegate id ord ctx)
        ({ s with provider := (exec s.provider ord ctx tenant call).2 }.enter id
          (.delegate tenant call) (.delegated (exec s.provider ord ctx tenant call).1))
  | invalidated {id : Nat} {tenant : Bytes} {call : Call κ} {response : Response κ}
      (thread : s.threads id = some ⟨.delegate tenant call, .delegated (.ok response)⟩)
      (due : invalidates call response = true) :
      Moves (.invalidate id) ((invalidateOnSuccess tenant s).enter id (.delegate tenant call)
          (.returned (.ok (.response response))))
  | kept {id : Nat} {tenant : Bytes} {call : Call κ} {response : Response κ}
      (thread : s.threads id = some ⟨.delegate tenant call, .delegated (.ok response)⟩)
      (due : invalidates call response = false) :
      Moves (.invalidate id)
        (s.enter id (.delegate tenant call) (.returned (.ok (.response response))))
  | failed {id : Nat} {tenant : Bytes} {call : Call κ} {failure : Failure}
      (thread : s.threads id = some ⟨.delegate tenant call, .delegated (.error failure)⟩) :
      Moves (.invalidate id) (s.enter id (.delegate tenant call) (.returned (.error failure)))
  | closed {id : Nat} {ctx : Ctx} {outcome : Except Failure (Answer κ)}
      (thread : s.threads id = some ⟨.close, .closing⟩) :
      Moves (.close id ctx)
        ({ s with entries := ∅, refreshes := ∅ }.enter id .close (.returned outcome))
  | external {tenant : Bytes} {ord : MapOrder} {ctx : Ctx} {call : Call κ} :
      Moves (.external tenant ord ctx call) { s with
          provider := (exec s.provider ord ctx tenant call).2
          steps := s.steps + 1 }

variable {exec : Exec κ}

theorem moves_of_admit {tenant : Bytes} {ctx : Ctx} {fallback : Fallback κ}
    (waits : s.Waits id request tenant fallback) :
    Moves config exec s (.beginRefresh id ctx)
      (s.admitted config id request tenant ctx fallback) := by
  unfold admitted
  split
  · exact .admitted waits
  · rename_i input
    exact .refused waits input

/-- The steps that do not call the provider are the same over any. -/
theorem Moves.over (exec' : Exec κ) (h : Moves config exec s action t)
    (quiet : action.callsProvider = false) : Moves config exec' s action t := by
  cases h with
  | fetched | delegated | external => cases quiet
  | _ => constructor <;> assumption

variable [CustomStrategy κ] [Runtime]

theorem moves_of_step (h : s.step config limits action = some t) :
    Moves config (.memory limits) s action t := by
  cases action <;> simp only [step] at h
  case start id request ctx =>
    split at h
    · cases h
    · cases h
    · rename_i unused _
      cases h
      exact .started unused
  case lookUp id now =>
    split at h
    · rename_i tenant thread
      split at h
      · rename_i e found
        split_ifs at h with fresh <;> cases h
        · exact .hit thread found fresh
        · exact found ▸ .missed thread
      · rename_i found
        cases h
        exact found ▸ .missed thread
    · cases h
  case beginRefresh id ctx =>
    split at h
    · rename_i tenant now e thread
      cases h
      exact moves_of_admit (.inl ⟨now, e, rfl, rfl, thread⟩)
    · rename_i tenant thread
      cases h
      exact moves_of_admit (.inr ⟨rfl, rfl, thread⟩)
    · cases h
  case fetch id ord ctx now =>
    split at h
    · rename_i thread
      cases h
      exact .fetched thread
    · cases h
  case publish id =>
    split at h
    · rename_i thread
      cases h
      exact .published thread
    · cases h
  case endRefresh id =>
    split at h
    · rename_i thread
      cases h
      exact .ended thread
    · cases h
  case delegate id ord ctx =>
    split at h
    · rename_i thread
      cases h
      exact .delegated thread
    · cases h
  case invalidate id =>
    split at h
    · rename_i call response thread
      cases h
      by_cases due : invalidates call response = true
      · rw [if_pos due]
        exact .invalidated thread due
      · rw [if_neg due]
        exact .kept thread (Bool.eq_false_iff.mpr due)
    · rename_i thread
      cases h
      exact .failed thread
    · cases h
  case close id ctx =>
    split at h
    · rename_i thread
      cases h
      exact .closed thread
    · cases h
  case external tenant ord ctx call =>
    cases h
    exact .external

theorem moves_of_stepOver {answer : Except Failure (Response κ)}
    (h : s.stepOver config limits (action, answer) = some t) :
    Moves config (.answer answer) s action t := by
  cases action
  case fetch id ord ctx now =>
    simp only [stepOver] at h
    split at h <;> cases h
    rename_i thread
    exact .fetched thread
  case delegate id ord ctx =>
    simp only [stepOver] at h
    split at h <;> cases h
    rename_i thread
    exact .delegated thread
  case external =>
    cases h
    exact .external
  all_goals
    refine (moves_of_step (?_ : s.step config limits _ = some t)).over (.answer answer) rfl
    exact h

end CacheState

/-- A step of a cache over a `MemoryProvider`. -/
abbrev CacheStep (κ : Type) := Transition (CacheState κ) (Action κ)

/-- A step of a cache over any provider, with what the provider returns. -/
abbrev OverStep (κ : Type) :=
  Transition (CacheState κ) (Action κ × Except Failure (Response κ))

section

variable [CustomStrategy κ] [Runtime]

/-- The runs of a cache over a `MemoryProvider`. -/
abbrev CacheRun (config : CacheConfig) (limits : Limits) (provider : MemoryProvider κ) :
    List (CacheStep κ) → CacheState κ → Prop :=
  Trace (fun s a t => s.step config limits a = some t) (.new provider)

/-- The runs of a cache over any provider. -/
abbrev OverRun (config : CacheConfig) (limits : Limits) :
    List (OverStep κ) → CacheState κ → Prop :=
  Trace (fun s a t => s.stepOver config limits a = some t) (.new ∅)

/-- The run of a cache that takes the actions. -/
theorem exists_overRun (config : CacheConfig) (limits : Limits)
    (actions : List (Action κ × Except Failure (Response κ)))
    (check : List (OverStep κ) × CacheState κ → Bool)
    (h : (play (fun s a => CacheState.stepOver config limits s a) (.new ∅) actions).any check =
      true) :
    ∃ ts s, OverRun config limits ts s ∧ ts.map Transition.action = actions ∧
      check (ts, s) = true :=
  exists_trace_of_play h

end

/-! ### Refresh states -/

/-- The tenant and the refresh state of a call between `beginRefresh` and `endRefresh`. -/
def Phase.held : Phase κ → Option (Bytes × Nat)
  | .refreshing tenant _ state _ => some (tenant, state)
  | .fetched tenant _ state _ _ => some (tenant, state)
  | .ending tenant _ state _ => some (tenant, state)
  | _ => none

namespace CacheState

/-- The tenant and the refresh state that a thread holds. -/
def held (s : CacheState κ) (id : Nat) : Option (Bytes × Nat) :=
  (s.threads id).bind fun thread => thread.phase.held

theorem held_of_thread {s : CacheState κ} {thread : Thread κ} (h : s.threads id = some thread) :
    s.held id = thread.phase.held := by
  rw [held, h, Option.bind_some]

@[simp] theorem held_enter (s : CacheState κ) (id : Nat) (request : Request κ) (phase : Phase κ) :
    (s.enter id request phase).held = Function.update s.held id phase.held := by
  funext id'
  by_cases h : id' = id
  · subst h
    simp [held, enter]
  · simp [held, enter, h]

/-- The invariant of the refresh states. -/
def Ticketed (s : CacheState κ) : Prop :=
  Tickets maxUint64 (fun tenant : Bytes => s.refreshes[tenant]?) (fun n => (s.states n).running)
    (fun n => (s.states n).next) s.allocated s.held

theorem ticketed_new (provider : MemoryProvider κ) : (CacheState.new provider).Ticketed := by
  have hcurrent : (fun tenant : Bytes => (∅ : GoMap Nat)[tenant]?) = fun _ => none := by
    funext tenant
    simp
  show Tickets maxUint64 (fun tenant : Bytes => (∅ : GoMap Nat)[tenant]?) _ _ 0 fun _ => none
  rw [hcurrent]
  exact Tickets.start _ _ _

variable {tenant : Bytes} {n : Nat}

theorem beginRefresh_join (hn : s.refreshes[tenant]? = some n)
    (hnext : (s.states n).next ≠ maxUint64) :
    FeatureFlags.beginRefresh tenant s = (n, (s.states n).next + 1, { s with
      states := Function.update s.states n
        { s.states n with
          next := (s.states n).next + 1, running := (s.states n).running + 1 } }) := by
  simp only [FeatureFlags.beginRefresh, hn, if_neg hnext]

/-- `beginRefresh` makes a new state. -/
theorem beginRefresh_fresh
    (h : ∀ n : Nat, s.refreshes[tenant]? = some n → (s.states n).next = maxUint64) :
    FeatureFlags.beginRefresh tenant s = (s.allocated, 1, { s with
      refreshes := s.refreshes.insert tenant s.allocated
      states := Function.update s.states s.allocated ⟨1, 1, 0⟩
      allocated := s.allocated + 1 }) := by
  unfold FeatureFlags.beginRefresh
  split
  · rename_i n hn
    rw [if_pos (h n hn)]
    rfl
  · rfl

/-- The two cases of `beginRefresh`. -/
theorem join_or_fresh (s : CacheState κ) (tenant : Bytes) :
    (∃ n : Nat, s.refreshes[tenant]? = some n ∧ (s.states n).next ≠ maxUint64) ∨
      ∀ n : Nat, s.refreshes[tenant]? = some n → (s.states n).next = maxUint64 := by
  by_cases h : ∃ n : Nat, s.refreshes[tenant]? = some n ∧ (s.states n).next ≠ maxUint64
  · exact .inl h
  · push Not at h
    exact .inr h

/-- The invariant, read off pointwise. -/
theorem ticketed_of_eq {current : Bytes → Option Nat} {running next : Nat → Nat} {allocated : Nat}
    {held : Nat → Option (Bytes × Nat)}
    (h : Tickets maxUint64 current running next allocated held)
    (hcurrent : ∀ tenant : Bytes, s.refreshes[tenant]? = current tenant)
    (hrunning : ∀ n, (s.states n).running = running n) (hnext : ∀ n, (s.states n).next = next n)
    (hallocated : s.allocated = allocated) (hheld : s.held = held) : s.Ticketed := by
  unfold Ticketed
  rw [funext hcurrent, funext hrunning, funext hnext, hallocated, hheld]
  exact h

theorem lookup_insert_eq_update (refreshes : GoMap Nat) (tenant : Bytes) (n : Nat)
    (tenant' : Bytes) :
    (refreshes.insert tenant n)[tenant']? =
      Function.update (fun tenant' : Bytes => refreshes[tenant']?) tenant (some n) tenant' := by
  rw [GoMap.lookup_insert]
  by_cases h : tenant' = tenant
  · subst h
    simp
  · simp [h, Ne.symm h]

section Fields

variable {phase : Phase κ} {state : CacheRefreshState} {m : Nat}

theorem running_update : (Function.update s.states n state m).running =
    Function.update (fun m => (s.states m).running) n state.running m :=
  Function.apply_update (fun _ => CacheRefreshState.running) s.states n state m

theorem next_update : (Function.update s.states n state m).next =
    Function.update (fun m => (s.states m).next) n state.next m :=
  Function.apply_update (fun _ => CacheRefreshState.next) s.states n state m

@[simp] theorem enter_refreshes : (s.enter id request phase).refreshes = s.refreshes := rfl

@[simp] theorem enter_states : (s.enter id request phase).states = s.states := rfl

@[simp] theorem enter_allocated : (s.enter id request phase).allocated = s.allocated := rfl

@[simp] theorem enter_entries : (s.enter id request phase).entries = s.entries := rfl

@[simp] theorem enter_steps : (s.enter id request phase).steps = s.steps + 1 := rfl

theorem enter_threads_self : (s.enter id request phase).threads id = some ⟨request, phase⟩ :=
  Function.update_self id _ _

theorem enter_threads_of_ne {id' : Nat} (h : id' ≠ id) :
    (s.enter id request phase).threads id' = s.threads id' :=
  Function.update_of_ne h _ _

end Fields

section

variable (h : s.Ticketed)
include h

theorem Ticketed.beginRefresh {fallback : Fallback κ} (free : s.held id = none) :
    ((FeatureFlags.beginRefresh tenant s).2.2.enter id request (.refreshing tenant fallback
      (FeatureFlags.beginRefresh tenant s).1
      (FeatureFlags.beginRefresh tenant s).2.1)).Ticketed := by
  rcases join_or_fresh s tenant with ⟨n, hn, hnext⟩ | hfresh
  · rw [beginRefresh_join hn hnext]
    exact ticketed_of_eq (Tickets.join h free hn hnext) (fun _ => rfl) (fun _ => running_update)
      (fun _ => next_update) rfl (held_enter _ _ _ _)
  · rw [beginRefresh_fresh hfresh]
    exact ticketed_of_eq (Tickets.create h free (by decide)) (lookup_insert_eq_update _ _ _)
      (fun _ => running_update) (fun _ => next_update) rfl (held_enter _ _ _ _)

theorem Ticketed.endRefresh {id : Nat} {request : Request κ}
    {outcome : Except Failure (Answer κ)} (hheld : s.held id = some (tenant, n)) :
    ((FeatureFlags.endRefresh tenant n s).enter id request (.returned outcome)).Ticketed := by
  refine ticketed_of_eq ((Tickets.leave h hheld).drop ?_) (fun _ => rfl) (fun _ => running_update)
    (fun m => ?_) rfl (held_enter _ _ _ _)
  · intro tenant' m hm
    simp only [enter_refreshes, FeatureFlags.endRefresh] at hm
    split_ifs at hm
    · rw [GoMap.lookup_erase] at hm
      split_ifs at hm
      exact hm
    · exact hm
  · rw [enter_states, FeatureFlags.endRefresh, next_update, Function.update_eq_self]

/-- A step that leaves the states alone, but for what is published and dropped. -/
theorem Ticketed.of_le (hallocated : t.allocated = s.allocated) (hheld : t.held = s.held)
    (hrefreshes : ∀ (tenant : Bytes) (n : Nat), t.refreshes[tenant]? = some n →
      s.refreshes[tenant]? = some n) (hrunning : ∀ n, (t.states n).running = (s.states n).running)
    (hnext : ∀ n, (t.states n).next = (s.states n).next) : t.Ticketed :=
  ticketed_of_eq (Tickets.drop h hrefreshes) (fun _ => rfl) hrunning hnext hallocated hheld

/-- A step that only moves a thread on. -/
theorem Ticketed.enter {phase : Phase κ} (hphase : phase.held = s.held id) :
    (s.enter id request phase).Ticketed := by
  refine h.of_le rfl ?_ (fun _ _ hn => hn) (fun _ => rfl) fun _ => rfl
  rw [held_enter, hphase, Function.update_eq_self]

theorem Ticketed.move {phase : Phase κ} {thread : Thread κ} (hthread : s.threads id = some thread)
    (hphase : phase.held = thread.phase.held) : (s.enter id request phase).Ticketed :=
  h.enter (hphase.trans (held_of_thread hthread).symm)

theorem Ticketed.publish {config : CacheConfig} {sequence : Nat} {e : CachedSnapshot κ} :
    (FeatureFlags.publish config tenant n sequence e s).Ticketed := by
  unfold FeatureFlags.publish
  split
  · refine h.of_le rfl rfl (fun _ _ hn => hn) (fun m => ?_) fun m => ?_
    · rw [running_update, Function.update_eq_self]
    · rw [next_update, Function.update_eq_self]
  · exact h

end

theorem publish_threads {config : CacheConfig} {sequence : Nat} {e : CachedSnapshot κ} :
    (FeatureFlags.publish config tenant n sequence e s).threads = s.threads := by
  unfold FeatureFlags.publish
  split_ifs <;> rfl

theorem Ticketed.invalidate (h : s.Ticketed) : (invalidateOnSuccess tenant s).Ticketed := by
  refine h.of_le rfl rfl (fun tenant' m hm => ?_) (fun _ => rfl) fun _ => rfl
  simp only [invalidateOnSuccess, GoMap.lookup_erase] at hm
  split_ifs at hm
  exact hm

theorem Ticketed.clear (h : s.Ticketed) : Ticketed { s with entries := ∅, refreshes := ∅ } := by
  refine h.of_le rfl rfl (fun tenant' m hm => ?_) (fun _ => rfl) fun _ => rfl
  simp at hm

theorem held_entry (config : CacheConfig) (ctx : Ctx) (request : Request κ) :
    (entry config ctx request).held = none := by
  unfold entry
  cases request with
  | snapshot | delegate => dsimp only; split <;> rfl
  | refresh | close => rfl

theorem held_afterFetch (config : CacheConfig) (tenant : Bytes) (fallback : Fallback κ)
    (state sequence : Nat) (now : Time) (readAt : Nat) (outcome : Except Failure (Response κ)) :
    (afterFetch config tenant fallback state sequence now readAt outcome).held =
      some (tenant, state) := by
  unfold afterFetch
  split
  · split_ifs <;> rfl
  · rfl
  · rfl

theorem Waits.held_eq_none {fallback : Fallback κ} (h : s.Waits id request tenant fallback) :
    s.held id = none := by
  rcases h with ⟨now, e, -, -, h⟩ | ⟨-, -, h⟩ <;> exact held_of_thread h

variable {exec : Exec κ}

theorem Moves.ticketed (h : Moves config exec s action t) (hs : s.Ticketed) : t.Ticketed := by
  cases h with
  | started unused =>
    refine hs.enter ?_
    rw [held_entry, held, unused, Option.bind_none]
  | hit thread | missed thread | kept thread | failed thread => exact hs.move thread rfl
  | refused waits => exact hs.enter waits.held_eq_none.symm
  | admitted waits => exact hs.beginRefresh waits.held_eq_none
  | fetched thread => exact hs.move thread (held_afterFetch _ _ _ _ _ _ _ _)
  | published thread => exact hs.publish.move (publish_threads ▸ thread) rfl
  | ended thread => exact hs.endRefresh (held_of_thread thread)
  | delegated thread => exact Ticketed.move (s := { s with provider := _ }) hs thread rfl
  | invalidated thread => exact hs.invalidate.move thread rfl
  | closed thread => exact hs.clear.move thread rfl
  | external => exact hs

/-- What only grows: the counters of a state; and a state that was dropped stays so. -/
structure Later (s t : CacheState κ) : Prop where
  allocated : s.allocated ≤ t.allocated
  next : ∀ n < s.allocated, (s.states n).next ≤ (t.states n).next
  published : ∀ n < s.allocated, (s.states n).published ≤ (t.states n).published
  current : ∀ n < s.allocated, ∀ tenant : Bytes, t.refreshes[tenant]? = some n →
    s.refreshes[tenant]? = some n

theorem Later.of_eq (hallocated : t.allocated = s.allocated) (hstates : t.states = s.states)
    (hrefreshes : t.refreshes = s.refreshes) : s.Later t where
  allocated := hallocated.ge
  next n _ := by rw [hstates]
  published n _ := by rw [hstates]
  current n _ tenant h := hrefreshes ▸ h

theorem Later.trans {u : CacheState κ} (h₁ : s.Later t) (h₂ : t.Later u) : s.Later u where
  allocated := Nat.le_trans h₁.allocated h₂.allocated
  next n hn := Nat.le_trans (h₁.next n hn) (h₂.next n (Nat.lt_of_lt_of_le hn h₁.allocated))
  published n hn :=
    Nat.le_trans (h₁.published n hn) (h₂.published n (Nat.lt_of_lt_of_le hn h₁.allocated))
  current n hn tenant h :=
    h₁.current n hn tenant (h₂.current n (Nat.lt_of_lt_of_le hn h₁.allocated) tenant h)

theorem later_beginRefresh (s : CacheState κ) (tenant : Bytes) :
    s.Later (FeatureFlags.beginRefresh tenant s).2.2 := by
  rcases join_or_fresh s tenant with ⟨n, hn, hnext⟩ | hfresh
  · rw [beginRefresh_join hn hnext]
    refine ⟨Nat.le_refl _, fun m _ => ?_, fun m _ => ?_, fun _ _ _ h => h⟩ <;>
      by_cases hm : m = n <;> simp [hm]
  · rw [beginRefresh_fresh hfresh]
    refine ⟨Nat.le_succ _, fun m hm => ?_, fun m hm => ?_, fun m hm tenant' h => ?_⟩
    · simp [Nat.ne_of_lt hm]
    · simp [Nat.ne_of_lt hm]
    · rw [GoMap.lookup_insert] at h
      split_ifs at h
      · exact absurd (Option.some.inj h) (Nat.ne_of_gt hm)
      · exact h

theorem later_publish (s : CacheState κ) (config : CacheConfig) (tenant : Bytes)
    (n sequence : Nat) (e : CachedSnapshot κ) :
    s.Later (FeatureFlags.publish config tenant n sequence e s) := by
  unfold FeatureFlags.publish
  split
  · rename_i h
    refine ⟨Nat.le_refl _, fun m _ => ?_, fun m _ => ?_, fun _ _ _ h => h⟩
    · by_cases hm : m = n <;> simp [hm]
    · by_cases hm : m = n
      · subst hm
        simpa using Nat.le_of_lt h.2
      · simp [hm]
  · exact .of_eq rfl rfl rfl

theorem later_endRefresh (s : CacheState κ) (tenant : Bytes) (n : Nat) :
    s.Later (FeatureFlags.endRefresh tenant n s) := by
  unfold FeatureFlags.endRefresh
  refine ⟨Nat.le_refl _, fun m _ => ?_, fun m _ => ?_, fun m _ tenant' h => ?_⟩
  · by_cases hm : m = n <;> simp [hm]
  · by_cases hm : m = n <;> simp [hm]
  · dsimp only at h
    split_ifs at h
    · rw [GoMap.lookup_erase] at h
      split_ifs at h
      exact h
    · exact h

theorem later_invalidate (s : CacheState κ) (tenant : Bytes) :
    s.Later (invalidateOnSuccess tenant s) := by
  refine ⟨Nat.le_refl _, fun _ _ => Nat.le_refl _, fun _ _ => Nat.le_refl _,
    fun m _ tenant' h => ?_⟩
  simp only [invalidateOnSuccess, GoMap.lookup_erase] at h
  split_ifs at h
  exact h

theorem later_clear (s : CacheState κ) : s.Later { s with entries := ∅, refreshes := ∅ } := by
  refine ⟨Nat.le_refl _, fun _ _ => Nat.le_refl _, fun _ _ => Nat.le_refl _,
    fun m _ tenant' h => ?_⟩
  simp at h

theorem Later.enter (h : s.Later t) (id : Nat) (request : Request κ) (phase : Phase κ) :
    s.Later (t.enter id request phase) :=
  ⟨h.allocated, h.next, h.published, h.current⟩

theorem Moves.later (h : Moves config exec s action t) : s.Later t := by
  cases h with
  | admitted waits => exact (later_beginRefresh _ _).enter _ _ _
  | published thread => exact (later_publish _ _ _ _ _ _).enter _ _ _
  | ended thread => exact (later_endRefresh _ _ _).enter _ _ _
  | invalidated thread => exact (later_invalidate _ _).enter _ _ _
  | closed thread => exact (later_clear _).enter _ _ _
  | _ => exact .of_eq rfl rfl rfl

end CacheState

end FeatureFlags
