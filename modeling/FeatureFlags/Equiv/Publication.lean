import FeatureFlags.Equiv.Cache

/-!
# Publication respects admission order

For a cache over any provider: what the provider returns comes from outside.

* `Marked`: what a refresh has fetched is in the cache only after it has published it.
* `Admits`, `Publishes`, `Suppresses`: the steps at which a refresh is admitted, at which its entry
  gets into the cache, and at which it does not.  `Offers.stores_iff`: `mayPublish` decides
  between the two.
* `publishes_in_order`: an earlier refresh never publishes after a later one, across rotations of
  the sequence numbers too.
* `suppressed_only_if`: without rotations, a refresh that fetched a snapshot fails to publish only
  after a later refresh has published, the tenant was changed or the cache closed.
* `publication_order`: both.

A refresh holds its ticket, the state and the number it was given, until it ends
(`holds_of_admits`).  Tickets of one state are numbered in the order of admission
(`sequence_lt_of_admits`), and a state that was dropped is never the tenant's again (`Later`).
-/

namespace FeatureFlags

open Go Lib

variable {κ : Type}

/-! ### Tickets -/

/-- What `beginRefresh` gives to a refresh of a tenant. -/
structure Ticket where
  tenant : Bytes
  state : Nat
  sequence : Nat
deriving DecidableEq

/-- The ticket of a refresh that has not published yet. -/
def Phase.ticket : Phase κ → Option Ticket
  | .refreshing tenant _ state sequence => some ⟨tenant, state, sequence⟩
  | .fetched tenant _ state sequence _ => some ⟨tenant, state, sequence⟩
  | _ => none

/-- The refresh is over. -/
def Phase.Past : Phase κ → Prop
  | .ending .. => True
  | .returned _ => True
  | _ => False

variable {ticket : Ticket}

theorem Phase.not_past_of_ticket (phase : Phase κ) (h : phase.ticket = some ticket) :
    ¬ phase.Past := by
  cases phase <;> first | exact id | cases h

variable {id : Nat} {tenant : Bytes}

variable {ticket' : Ticket}

namespace CacheState

/-- A thread holds the ticket and has not published yet. -/
def Pending (s : CacheState κ) (id : Nat) (ticket : Ticket) : Prop :=
  ∃ thread, s.threads id = some thread ∧ thread.phase.ticket = some ticket

/-- The refresh of a thread is over. -/
def Past (s : CacheState κ) (id : Nat) : Prop :=
  ∃ thread, s.threads id = some thread ∧ thread.phase.Past

variable {s : CacheState κ}

instance : Decidable (s.Pending id ticket) :=
  decidable_of_iff (∃ thread ∈ s.threads id, thread.phase.ticket = some ticket) Iff.rfl

theorem Pending.held (h : s.Pending id ticket) :
    s.held id = some (ticket.tenant, ticket.state) := by
  obtain ⟨⟨request, phase⟩, hthread, hticket⟩ := h
  rw [held_of_thread hthread]
  cases phase <;> cases hticket <;> rfl

theorem Pending.unique (h : s.Pending id ticket) (h' : s.Pending id ticket') :
    ticket = ticket' := by
  obtain ⟨thread, hthread, hticket⟩ := h
  obtain ⟨thread', hthread', hticket'⟩ := h'
  rw [hthread] at hthread'
  cases hthread'
  rw [hticket] at hticket'
  exact Option.some.inj hticket'

theorem Pending.not_past (h : s.Pending id ticket) : ¬ s.Past id := by
  rintro ⟨thread', hthread', hpast⟩
  obtain ⟨thread, hthread, hticket⟩ := h
  rw [hthread] at hthread'
  cases hthread'
  exact Phase.not_past_of_ticket _ hticket hpast

variable {request : Request κ}

theorem Waits.not_pending {fallback : Fallback κ} (h : s.Waits id request tenant fallback)
    (ticket : Ticket) : ¬ s.Pending id ticket ∧ ¬ s.Past id := by
  constructor <;> rintro ⟨thread, hthread, hphase⟩ <;>
    rcases h with ⟨now, e, -, -, h⟩ | ⟨-, -, h⟩ <;> rw [h] at hthread <;> cases hthread <;>
    simp [Phase.ticket, Phase.Past] at hphase

variable {config : CacheConfig} {limits : Limits} {s t : CacheState κ}
  {action : Action κ}

theorem ticket_entry (config : CacheConfig) (ctx : Ctx) (request : Request κ) :
    (entry config ctx request).ticket = none := by
  unfold entry
  cases request with
  | snapshot | delegate => dsimp only; split <;> rfl
  | refresh | close => rfl

theorem ticket_afterFetch (config : CacheConfig) (tenant : Bytes) (fallback : Fallback κ)
    (state sequence : Nat) (now : Time) (readAt : Nat) (outcome : Except Failure (Response κ)) :
    let phase := afterFetch config tenant fallback state sequence now readAt outcome
    phase.ticket = some ⟨tenant, state, sequence⟩ ∨ phase.Past := by
  unfold afterFetch
  split
  · split_ifs
    · exact .inr trivial
    · exact .inl rfl
  · exact .inr trivial
  · exact .inr trivial

theorem publish_refreshes {n sequence : Nat} {e : CachedSnapshot κ} :
    (FeatureFlags.publish config tenant n sequence e s).refreshes = s.refreshes := by
  unfold FeatureFlags.publish
  split <;> rfl

theorem publish_allocated {n sequence : Nat} {e : CachedSnapshot κ} :
    (FeatureFlags.publish config tenant n sequence e s).allocated = s.allocated := by
  unfold FeatureFlags.publish
  split <;> rfl

theorem beginRefresh_threads (tenant : Bytes) :
    (FeatureFlags.beginRefresh tenant s).2.2.threads = s.threads := by
  rcases join_or_fresh s tenant with ⟨n, hn, hnext⟩ | hfresh
  · rw [beginRefresh_join hn hnext]
  · rw [beginRefresh_fresh hfresh]

variable {exec : Exec κ}

/-- Where a thread can go from a phase, in a step `action`. -/
def Goes (action : Action κ) (id : Nat) : Option (Thread κ) → Phase κ → Prop
  | some ⟨_, .refreshing tenant _ state sequence⟩, phase =>
    phase.ticket = some ⟨tenant, state, sequence⟩ ∨ phase.Past
  | some ⟨_, .fetched ..⟩, phase => phase.Past
  | some ⟨_, .ending ..⟩, phase => phase.Past
  | some ⟨_, .returned _⟩, _ => False
  | _, phase => ∀ ticket, phase.ticket = some ticket → ∃ ctx, action = .beginRefresh id ctx

theorem goes_of_enter {u : CacheState κ} {phase : Phase κ} (hthreads : u.threads = s.threads)
    (hgoes : Goes action id (s.threads id) phase) (id' : Nat) :
    (u.enter id request phase).threads id' = s.threads id' ∨
      ∃ request' phase', (u.enter id request phase).threads id' = some ⟨request', phase'⟩ ∧
        Goes action id' (s.threads id') phase' := by
  by_cases h : id' = id
  · subst h
    exact .inr ⟨request, phase, enter_threads_self, hgoes⟩
  · rw [enter_threads_of_ne h, hthreads]
    exact .inl rfl

/-- A phase without a ticket can be entered from those before the refresh. -/
theorem goes_of_waits {fallback : Fallback κ} {phase : Phase κ}
    (h : s.Waits id request tenant fallback)
    (hphase : ∀ ticket, phase.ticket = some ticket → ∃ ctx, action = .beginRefresh id ctx) :
    Goes action id (s.threads id) phase := by
  rcases h with ⟨now, e, -, -, h⟩ | ⟨-, -, h⟩ <;> rw [h] <;> exact hphase

variable (h : Moves config exec s action t)
include h

theorem Moves.thread (id : Nat) :
    t.threads id = s.threads id ∨ ∃ request phase,
      t.threads id = some ⟨request, phase⟩ ∧ Goes action id (s.threads id) phase := by
  cases h with
  | started unused =>
    refine goes_of_enter (s := s) rfl ?_ id
    rw [unused]
    intro ticket h
    rw [ticket_entry] at h
    cases h
  | hit thread | missed thread | delegated thread | invalidated thread | kept thread
  | failed thread | closed thread =>
    refine goes_of_enter (s := s) rfl ?_ id
    rw [thread]
    intro ticket h
    cases h
  | refused waits =>
    refine goes_of_enter (s := s) rfl (goes_of_waits waits ?_) id
    intro ticket h
    cases h
  | admitted waits =>
    exact goes_of_enter (beginRefresh_threads _) (goes_of_waits waits fun _ _ => ⟨_, rfl⟩) id
  | fetched thread =>
    refine goes_of_enter (s := s) rfl ?_ id
    rw [thread]
    exact ticket_afterFetch _ _ _ _ _ _ _ _
  | published thread =>
    refine goes_of_enter publish_threads ?_ id
    rw [thread]
    trivial
  | ended thread =>
    refine goes_of_enter (s := s) rfl ?_ id
    rw [thread]
    trivial
  | external => exact .inl rfl

/-- What is over stays over. -/
theorem Moves.past (hs : s.Past id) : t.Past id := by
  obtain ⟨⟨request, phase⟩, hthread, hpast⟩ := hs
  rcases h.thread id with hsame | ⟨request', phase', hthread', hgoes⟩
  · exact ⟨_, hsame.trans hthread, hpast⟩
  · rw [hthread] at hgoes
    refine ⟨_, hthread', ?_⟩
    cases phase <;> first | exact hgoes | exact hpast.elim | exact hgoes.elim

/-- A ticket is kept until the refresh is over. -/
theorem Moves.pending (hs : s.Pending id ticket) : t.Pending id ticket ∨ t.Past id := by
  obtain ⟨⟨request, phase⟩, hthread, hticket⟩ := hs
  rcases h.thread id with hsame | ⟨request', phase', hthread', hgoes⟩
  · exact .inl ⟨_, hsame.trans hthread, hticket⟩
  · rw [hthread] at hgoes
    cases phase <;> cases hticket
    · exact hgoes.imp (⟨_, hthread', ·⟩) (⟨_, hthread', ·⟩)
    · exact .inr ⟨_, hthread', hgoes⟩

/-- A thread holds its ticket until its refresh is over. -/
theorem Moves.holds (hs : s.Pending id ticket ∨ s.Past id) : t.Pending id ticket ∨ t.Past id :=
  hs.elim h.pending fun hpast => .inr (h.past hpast)

/-- A ticket was held before, unless it is given in this step. -/
theorem Moves.pending_or_begins (ht : t.Pending id ticket) :
    s.Pending id ticket ∨ ∃ ctx, action = .beginRefresh id ctx := by
  obtain ⟨thread, hthread, hticket⟩ := ht
  rcases h.thread id with hsame | ⟨request', phase', hthread', hgoes⟩
  · exact .inl ⟨thread, hsame.symm.trans hthread, hticket⟩
  · rw [hthread'] at hthread
    cases hthread
    have hpast : ¬ phase'.Past := phase'.not_past_of_ticket hticket
    rcases hs : s.threads id with _ | ⟨request, phase⟩
    · rw [hs] at hgoes
      exact .inr (hgoes ticket hticket)
    · rw [hs] at hgoes
      cases phase
      case refreshing tenant fallback state sequence =>
        rcases hgoes with hsame | hgoes
        · exact .inl ⟨_, hs, hsame.symm.trans hticket⟩
        · exact absurd hgoes hpast
      case fetched => exact absurd hgoes hpast
      case ending => exact absurd hgoes hpast
      case returned => exact hgoes.elim
      all_goals exact .inr (hgoes ticket hticket)

end CacheState

/-! ### Entries -/

/-- The call that an action moves on. -/
def Action.thread : Action κ → Option Nat
  | .start id _ _ | .lookUp id _ | .beginRefresh id _ | .fetch id _ _ _ | .publish id
  | .endRefresh id | .delegate id _ _ | .invalidate id | .close id _ => some id
  | .external .. => none

namespace CacheState

variable {config : CacheConfig} {s t : CacheState κ} {action : Action κ} {tenant' : Bytes}
  {request : Request κ} {fallback : Fallback κ} {e : CachedSnapshot κ} {state sequence : Nat}

theorem publish_steps :
    (FeatureFlags.publish config tenant' state sequence e s).steps = s.steps := by
  unfold FeatureFlags.publish
  split <;> rfl

theorem publish_stores (hmay : mayPublish tenant state sequence s) :
    (FeatureFlags.publish config tenant state sequence e s).entries[tenant]? = some e := by
  rw [FeatureFlags.publish, if_pos hmay]
  exact GoMap.lookup_insert_self _ _ _

theorem of_publish {e'}
    (h : (FeatureFlags.publish config tenant' state sequence e s).entries[tenant]? = some e') :
    s.entries[tenant]? = some e' ∨
      tenant' = tenant ∧ e = e' ∧ mayPublish tenant state sequence s := by
  unfold FeatureFlags.publish at h
  split at h
  · rename_i hmay
    by_cases htenant : tenant' = tenant
    · subst htenant
      rw [GoMap.lookup_insert_self] at h
      exact .inr ⟨rfl, Option.some.inj h, hmay⟩
    · left
      dsimp only at h
      rw [GoMap.lookup_insert_ne _ _ htenant] at h
      split_ifs at h
      · rw [evictOldest, GoMap.lookup_erase] at h
        split_ifs at h
        exact h
      · exact h
  · exact .inl h

theorem entry_ne_fetched {ctx : Ctx} :
    entry config ctx request ≠ .fetched tenant' fallback state sequence e := by
  intro h
  have hheld := held_entry config ctx request
  rw [h] at hheld
  cases hheld

theorem eq_of_afterFetch {fallback' : Fallback κ} {state' sequence' readAt : Nat} {now : Time}
    {outcome : Except Failure (Response κ)}
    (h : afterFetch config tenant' fallback' state' sequence' now readAt outcome =
      .fetched tenant fallback state sequence e) :
    tenant' = tenant ∧ ∃ snapshot, outcome = .ok (.snapshot snapshot) ∧
      e = ⟨snapshot, now, readAt⟩ := by
  unfold afterFetch at h
  split at h
  · split_ifs at h
    cases h
    exact ⟨rfl, _, rfl, rfl⟩
  · cases h
  · cases h

section Moves

variable {exec : Exec κ} (h : Moves config exec s action t)
include h

theorem Moves.threads_of_ne (hid : action.thread ≠ some id) : t.threads id = s.threads id := by
  cases h with
  | external => rfl
  | admitted =>
    rw [enter_threads_of_ne fun h => hid (congrArg some h.symm), beginRefresh_threads]
  | published =>
    rw [enter_threads_of_ne fun h => hid (congrArg some h.symm), publish_threads]
  | _ => exact enter_threads_of_ne fun h => hid (congrArg some h.symm)

theorem Moves.steps : t.steps = s.steps + 1 := by
  cases h with
  | admitted waits =>
    rename_i id request tenant' ctx fallback
    rcases join_or_fresh s tenant' with ⟨n, hn, hnext⟩ | hfresh
    · rw [beginRefresh_join hn hnext, enter_steps]
    · rw [beginRefresh_fresh hfresh, enter_steps]
  | published => rw [enter_steps, publish_steps]
  | _ => rfl

/-- An entry was there before, or a refresh that holds the tenant's state publishes it. -/
theorem Moves.entry_cases (he : t.entries[tenant]? = some e) :
    s.entries[tenant]? = some e ∨ ∃ id request fallback state sequence,
      action = .publish id ∧
      s.threads id = some ⟨request, .fetched tenant fallback state sequence e⟩ ∧
      s.refreshes[tenant]? = some state := by
  cases h with
  | admitted waits =>
    rename_i id request tenant' ctx fallback
    left
    rcases join_or_fresh s tenant' with ⟨n, hn, hnext⟩ | hfresh
    · rwa [beginRefresh_join hn hnext] at he
    · rwa [beginRefresh_fresh hfresh] at he
  | published thread =>
    rcases of_publish he with hbefore | ⟨rfl, rfl, hmay⟩
    · exact .inl hbefore
    · exact .inr ⟨_, _, _, _, _, rfl, thread, hmay.1⟩
  | invalidated thread =>
    rw [enter_entries, invalidateOnSuccess, GoMap.lookup_erase] at he
    split_ifs at he
    exact .inl he
  | closed thread => simp at he
  | _ => exact .inl he

/-- A snapshot that is about to be published was so before, or has just been read. -/
theorem Moves.fetched_cases
    (hthread : t.threads id = some ⟨request, .fetched tenant fallback state sequence e⟩) :
    (s.threads id = some ⟨request, .fetched tenant fallback state sequence e⟩ ∧
      action.thread ≠ some id) ∨
      ∃ ord ctx now snapshot, action = .fetch id ord ctx now ∧ e = ⟨snapshot, now, s.steps⟩ ∧
        (exec s.provider ord ctx tenant .snapshot).1 = .ok (.snapshot snapshot) := by
  by_cases hid : action.thread = some id
  swap
  · rw [h.threads_of_ne hid] at hthread
    exact .inl ⟨hthread, hid⟩
  cases h with
  | external => cases hid
  | started unused =>
    cases hid
    rw [enter_threads_self, Option.some.injEq, Thread.mk.injEq] at hthread
    exact absurd hthread.2 entry_ne_fetched
  | fetched thread =>
    cases hid
    rw [enter_threads_self, Option.some.injEq, Thread.mk.injEq] at hthread
    obtain ⟨rfl, snapshot, hread, rfl⟩ := eq_of_afterFetch hthread.2
    exact .inr ⟨_, _, _, snapshot, rfl, rfl, hread⟩
  | _ =>
    cases hid
    rw [enter_threads_self] at hthread
    cases hthread

end Moves

/-- A refresh has fetched the entry and has not come to publish it. -/
def Fetched (s : CacheState κ) (id : Nat) (e : CachedSnapshot κ) : Prop :=
  ∃ request tenant fallback state sequence,
    s.threads id = some ⟨request, .fetched tenant fallback state sequence e⟩

/-- The marks tell the entries apart: what a refresh has fetched is not in the cache yet, and no
other refresh has it. -/
structure Marked (s : CacheState κ) : Prop where
  entry : ∀ (tenant : Bytes) (e : CachedSnapshot κ), s.entries[tenant]? = some e →
    e.readAt < s.steps
  fetched : ∀ id e, s.Fetched id e → e.readAt < s.steps
  unpublished : ∀ id e (tenant : Bytes) (e' : CachedSnapshot κ), s.Fetched id e →
    s.entries[tenant]? = some e' → e'.readAt ≠ e.readAt
  apart : ∀ id e id' e', s.Fetched id e → s.Fetched id' e' → e'.readAt = e.readAt → id' = id

theorem marked_new (provider : MemoryProvider κ) : (CacheState.new provider).Marked := by
  constructor <;> simp [CacheState.new, Fetched]

/-- What a refresh has fetched after a step it had before, or it has just read it. -/
theorem Moves.fetched_or_read {exec : Exec κ} (h : Moves config exec s action t)
    (he : t.Fetched id e) :
    (s.Fetched id e ∧ action.thread ≠ some id) ∨ action.thread = some id ∧ e.readAt = s.steps := by
  obtain ⟨request, tenant, fallback, state, sequence, hthread⟩ := he
  rcases h.fetched_cases hthread with ⟨hbefore, hid⟩ | ⟨ord, ctx, now, snapshot, rfl, rfl, -⟩
  · exact .inl ⟨⟨request, tenant, fallback, state, sequence, hbefore⟩, hid⟩
  · exact .inr ⟨rfl, rfl⟩

theorem Moves.marked {exec : Exec κ} (h : Moves config exec s action t) (hs : s.Marked) :
    t.Marked := by
  have hsteps := h.steps
  -- the entries of the cache are older than the step
  have hentry : ∀ (tenant : Bytes) (e : CachedSnapshot κ), t.entries[tenant]? = some e →
      e.readAt < s.steps := by
    intro tenant e he
    rcases h.entry_cases he with hbefore | ⟨id, _, _, _, _, -, hthread, -⟩
    · exact hs.entry tenant e hbefore
    · exact hs.fetched id e ⟨_, _, _, _, _, hthread⟩
  refine ⟨fun tenant e he => by have := hentry tenant e he; omega, ?_, ?_, ?_⟩
  · intro id e he
    rcases h.fetched_or_read he with ⟨hbefore, -⟩ | ⟨-, hread⟩
    · have := hs.fetched id e hbefore
      omega
    · omega
  · intro id e tenant e' he he'
    rcases h.fetched_or_read he with ⟨hbefore, hid⟩ | ⟨-, hread⟩
    · rcases h.entry_cases he' with hbefore' | ⟨id', _, _, _, _, rfl, hthread, -⟩
      · exact hs.unpublished id e tenant e' hbefore hbefore'
      · -- the entry is that of the refresh that publishes, which is another one
        intro heq
        have hsame := hs.apart id e id' e' hbefore ⟨_, _, _, _, _, hthread⟩ heq
        exact hid (congrArg some hsame)
    · have := hentry tenant e' he'
      omega
  · intro id e id' e' he he' heq
    rcases h.fetched_or_read he with ⟨hbefore, hid⟩ | ⟨hid, hread⟩ <;>
      rcases h.fetched_or_read he' with ⟨hbefore', hid'⟩ | ⟨hid', hread'⟩
    · exact hs.apart id e id' e' hbefore hbefore' heq
    · have := hs.fetched id e hbefore
      omega
    · have := hs.fetched id' e' hbefore'
      omega
    · exact Option.some.inj (hid'.symm.trans hid)

end CacheState

/-! ### Admissions -/

section Events

variable (e : OverStep κ)

/-- A refresh is admitted, with its ticket. -/
def Admits (id : Nat) (ticket : Ticket) : Prop :=
  (∃ ctx, e.action.1 = .beginRefresh id ctx) ∧ e.after.Pending id ticket

/-- A refresh is at the section that publishes, with its ticket and the entry it has fetched. -/
def Offers (id : Nat) (ticket : Ticket) (entry : CachedSnapshot κ) : Prop :=
  e.action.1 = .publish id ∧ ∃ request fallback, e.before.threads id =
    some ⟨request, .fetched ticket.tenant fallback ticket.state ticket.sequence entry⟩

/-- A refresh publishes: its entry is in the cache after the step. -/
def Publishes (id : Nat) (tenant : Bytes) : Prop :=
  ∃ ticket entry, Offers e id ticket entry ∧ ticket.tenant = tenant ∧
    e.after.entries[tenant]? = some entry

/-- A refresh has fetched an entry and does not publish it. -/
def Suppresses (id : Nat) (tenant : Bytes) : Prop :=
  ∃ ticket entry, Offers e id ticket entry ∧ ticket.tenant = tenant ∧
    e.after.entries[tenant]? ≠ some entry

/-- A successful mutation invalidates the tenant. -/
def Invalidates (tenant : Bytes) : Prop :=
  ∃ id call response, e.action.1 = .invalidate id ∧
    e.before.threads id = some ⟨.delegate tenant call, .delegated (.ok response)⟩ ∧
    invalidates call response = true

/-- `Close` clears the cache. -/
def Closes : Prop :=
  ∃ id ctx, e.action.1 = .close id ctx ∧ e.before.threads id = some ⟨.close, .closing⟩

/-- The numbers of a state are used up: a refresh gets a new state while the tenant has one. -/
def Rotates : Prop :=
  ∃ (id : Nat) (ctx : Ctx) (tenant : Bytes) (n m : Nat), e.action.1 = .beginRefresh id ctx ∧
    e.before.refreshes[tenant]? = some n ∧ e.after.refreshes[tenant]? = some m ∧ n ≠ m

end Events

section Steps

open CacheState

variable {config : CacheConfig} {exec : Exec κ} {e : OverStep κ} {entry : CachedSnapshot κ}

/-- What an admission does. -/
structure Admission (e : OverStep κ) (id : Nat) (ticket : Ticket) : Prop where
  /-- The thread was not admitted before. -/
  first : ∀ ticket', ¬ e.before.Pending id ticket' ∧ ¬ e.before.Past id
  current : e.after.refreshes[ticket.tenant]? = some ticket.state
  next : (e.after.states ticket.state).next = ticket.sequence
  /-- The state is the tenant's and goes on counting, or it is new. -/
  state : ticket.state < e.before.allocated ∧
      ticket.sequence = (e.before.states ticket.state).next + 1 ∧
      (e.after.states ticket.state).published = (e.before.states ticket.state).published ∨
    ticket.state = e.before.allocated ∧ ticket.sequence = 1 ∧
      (e.after.states ticket.state).published = 0

theorem Admits.admission (h : Admits e id ticket) (hs : e.before.Ticketed)
    (hmoves : Moves config exec e.before e.action.1 e.after) : Admission e id ticket := by
  obtain ⟨⟨ctx, haction⟩, hpending⟩ := h
  obtain ⟨before, ⟨action, answer⟩, after⟩ := e
  dsimp only at haction hmoves hpending hs ⊢
  subst haction
  cases hmoves with
  | refused waits =>
    obtain ⟨thread, hthread, hticket⟩ := hpending
    rw [enter_threads_self] at hthread
    cases hthread
    cases hticket
  | admitted waits =>
    rename_i request tenant fallback
    obtain ⟨thread, hthread, hticket⟩ := hpending
    rw [enter_threads_self] at hthread
    cases hthread
    cases hticket
    rcases join_or_fresh before tenant with ⟨n, hn, hnext⟩ | hfresh
    · rw [beginRefresh_join hn hnext]
      exact ⟨waits.not_pending, hn, by simp, .inl ⟨hs.current_lt _ _ hn, rfl, by simp⟩⟩
    · rw [beginRefresh_fresh hfresh]
      exact ⟨waits.not_pending, GoMap.lookup_insert_self _ _ _, by simp,
        .inr ⟨rfl, rfl, by simp⟩⟩

theorem Offers.pending (h : Offers e id ticket entry) : e.before.Pending id ticket := by
  obtain ⟨-, request, fallback, hthread⟩ := h
  exact ⟨_, hthread, rfl⟩

/-- Only a refresh that has fetched an entry gets to the section that publishes. -/
theorem exists_offers (hmoves : Moves config exec e.before e.action.1 e.after)
    (haction : e.action.1 = .publish id) (hpending : e.before.Pending id ticket) :
    ∃ entry, Offers e id ticket entry := by
  obtain ⟨before, ⟨action, answer⟩, after⟩ := e
  dsimp only at haction hmoves hpending
  subst haction
  cases hmoves with
  | published thread =>
    cases hpending.unique ⟨_, thread, rfl⟩
    exact ⟨_, rfl, _, _, thread⟩

theorem Offers.after_eq (h : Offers e id ticket entry)
    (hmoves : Moves config exec e.before e.action.1 e.after) :
    ∃ request phase, e.after = (FeatureFlags.publish config ticket.tenant ticket.state
      ticket.sequence entry e.before).enter id request phase := by
  obtain ⟨haction, request, fallback, hthread⟩ := h
  rw [haction] at hmoves
  generalize e.after = after at hmoves ⊢
  cases hmoves with
  | published thread =>
    rw [hthread] at thread
    cases thread
    exact ⟨_, _, rfl⟩

theorem Offers.published (h : Offers e id ticket entry)
    (hmoves : Moves config exec e.before e.action.1 e.after)
    (hmay : mayPublish ticket.tenant ticket.state ticket.sequence e.before) :
    (e.after.states ticket.state).published = ticket.sequence := by
  obtain ⟨request, phase, hafter⟩ := h.after_eq hmoves
  rw [hafter, enter_states, FeatureFlags.publish, if_pos hmay]
  simp

/-- Another refresh of the same state publishes, with a larger number. -/
def Overtaken (e : OverStep κ) (id : Nat) (ticket : Ticket) : Prop :=
  ∃ id' sequence entry, id' ≠ id ∧ ticket.sequence ≤ sequence ∧
    Offers e id' ⟨ticket.tenant, ticket.state, sequence⟩ entry ∧
    mayPublish ticket.tenant ticket.state sequence e.before

/-- The state of a refresh in progress is dropped by a mutation, by `Close` or by a rotation
only. -/
theorem current_step (hmoves : Moves config exec e.before e.action.1 e.after)
    (hs : e.before.Ticketed) (hbefore : e.before.Pending id ticket)
    (hafter : e.after.Pending id ticket) (hrotates : ¬ Rotates e)
    (hcurrent : e.before.refreshes[ticket.tenant]? = some ticket.state) :
    e.after.refreshes[ticket.tenant]? = some ticket.state ∨ Invalidates e ticket.tenant ∨
      Closes e := by
  obtain ⟨before, ⟨action, answer⟩, after⟩ := e
  dsimp only at *
  cases hmoves with
  | admitted waits =>
    rename_i id' request tenant' ctx fallback
    left
    rcases join_or_fresh before tenant' with ⟨n, hn, hnext⟩ | hfresh
    · rw [enter_refreshes, beginRefresh_join hn hnext]
      exact hcurrent
    · rw [enter_refreshes, beginRefresh_fresh hfresh]
      dsimp only
      by_cases htenant : tenant' = ticket.tenant
      · -- the tenant had a state, so this is a rotation
        subst htenant
        refine absurd ⟨id', ctx, ticket.tenant, ticket.state, before.allocated, rfl, hcurrent, ?_,
          ?_⟩ hrotates
        · rw [enter_refreshes, beginRefresh_fresh hfresh]
          exact GoMap.lookup_insert_self _ _ _
        · exact Nat.ne_of_lt (hs.current_lt _ _ hcurrent)
      · rw [GoMap.lookup_insert_ne _ _ htenant]
        exact hcurrent
  | published thread =>
    left
    rw [enter_refreshes, publish_refreshes]
    exact hcurrent
  | ended thread =>
    rename_i id' request tenant' fallback state result
    left
    rw [enter_refreshes, FeatureFlags.endRefresh]
    dsimp only
    split_ifs with hlast
    · rw [GoMap.lookup_erase]
      by_cases htenant : tenant' = ticket.tenant
      · -- two refreshes hold the state, so `running` is not 0 yet
        subst htenant
        obtain ⟨hrunning, hstate⟩ := hlast
        rw [hcurrent, Option.some.injEq] at hstate
        subst hstate
        have hne : id ≠ id' := by
          rintro rfl
          obtain ⟨thread', hthread', hticket⟩ := hafter
          rw [enter_threads_self] at hthread'
          cases hthread'
          cases hticket
        have htwo := Tickets.two_le_running hs hbefore.held (held_of_thread thread) hne
        omega
      · rw [if_neg htenant]
        exact hcurrent
    · exact hcurrent
  | invalidated thread due =>
    rename_i id' tenant' call response
    by_cases htenant : tenant' = ticket.tenant
    · subst htenant
      exact .inr (.inl ⟨id', call, response, rfl, thread, due⟩)
    · left
      rw [enter_refreshes, invalidateOnSuccess, GoMap.lookup_erase, if_neg htenant]
      exact hcurrent
  | closed thread => exact .inr (.inr ⟨_, _, rfl, thread⟩)
  | _ => exact .inl hcurrent

/-- The published number of a state in use passes that of a refresh in progress only when another
refresh of the tenant publishes. -/
theorem published_step (hmoves : Moves config exec e.before e.action.1 e.after)
    (hs : e.before.Ticketed) (hbefore : e.before.Pending id ticket)
    (hafter : e.after.Pending id ticket)
    (hpublished : (e.before.states ticket.state).published < ticket.sequence) :
    (e.after.states ticket.state).published < ticket.sequence ∨ Overtaken e id ticket := by
  obtain ⟨before, ⟨action, answer⟩, after⟩ := e
  dsimp only at *
  have hallocated := hs.held_lt _ _ _ hbefore.held
  cases hmoves with
  | admitted waits =>
    rename_i id' request tenant' ctx fallback
    left
    have hsame : ∀ n < before.allocated,
        ((FeatureFlags.beginRefresh tenant' before).2.2.states n).published =
          (before.states n).published := by
      intro n hn
      rcases join_or_fresh before tenant' with ⟨m, hm, hnext⟩ | hfresh
      · rw [beginRefresh_join hm hnext]
        by_cases h : n = m <;> simp [h]
      · rw [beginRefresh_fresh hfresh]
        simp [Nat.ne_of_lt hn]
    rw [enter_states, hsame _ hallocated]
    exact hpublished
  | published thread =>
    rename_i id' request tenant' fallback state sequence entry
    rw [enter_states, FeatureFlags.publish]
    by_cases hmay : mayPublish tenant' state sequence before
    · rw [if_pos hmay]
      dsimp only
      by_cases hstate : ticket.state = state
      · subst hstate
        rw [Function.update_self]
        by_cases hlt : sequence < ticket.sequence
        · exact .inl hlt
        · have htenant := hs.owner tenant' ticket.tenant ticket.state id hmay.1 hbefore.held
          subst htenant
          have hne : id' ≠ id := by
            rintro rfl
            obtain ⟨thread', hthread', hticket⟩ := hafter
            rw [enter_threads_self] at hthread'
            cases hthread'
            cases hticket
          exact .inr ⟨id', sequence, entry, hne, by omega, ⟨rfl, _, _, thread⟩, hmay⟩
      · rw [Function.update_of_ne hstate]
        exact .inl hpublished
    · rw [if_neg hmay]
      exact .inl hpublished
  | ended thread =>
    left
    rename_i id' request tenant' fallback state result
    rw [enter_states, FeatureFlags.endRefresh]
    by_cases h : ticket.state = state <;> simpa [h] using hpublished
  | _ => exact .inl hpublished

end Steps

section Runs

open CacheState

variable [CustomStrategy κ] [Runtime] {config : CacheConfig} {limits : Limits}
  {ts : List (OverStep κ)} {s : CacheState κ} {e : OverStep κ} {entry : CachedSnapshot κ}

section

variable (run : OverRun config limits ts s)
include run

theorem ticketed_of_run : s.Ticketed :=
  run.invariant Ticketed (ticketed_new ∅) fun _ _ _ hs h => (moves_of_stepOver h).ticketed hs

theorem marked_of_run : s.Marked :=
  run.invariant Marked (marked_new ∅) fun _ _ _ hs h => (moves_of_stepOver h).marked hs

theorem moves_of_run {k : Nat} (hk : ts[k]? = some e) :
    Moves config (.answer e.action.2) e.before e.action.1 e.after :=
  moves_of_stepOver (run.upTo hk).2

theorem later_of_run {k : Nat} (hk : ts[k]? = some e) : e.after.Later s :=
  run.since e.after.Later hk (.of_eq rfl rfl rfl) fun _ _ _ hj h =>
    h.trans (moves_of_run run hj).later

theorem later_between {x y : Nat} {f : OverStep κ} (hx : ts[x]? = some e) (hy : ts[y]? = some f)
    (hlt : x < y) : e.after.Later f.before :=
  later_of_run (run.upTo hy).1 ((List.getElem?_take_of_lt hlt).trans hx)

/-- The section that publishes stores the entry if and only if `mayPublish` says so. -/
theorem Offers.stores_iff {k : Nat} (hk : ts[k]? = some e) (h : Offers e id ticket entry) :
    e.after.entries[ticket.tenant]? = some entry ↔
      mayPublish ticket.tenant ticket.state ticket.sequence e.before := by
  obtain ⟨request, phase, hafter⟩ := h.after_eq (moves_of_run run hk)
  rw [hafter, enter_entries]
  refine ⟨fun hstored => ?_, publish_stores⟩
  rcases of_publish hstored with hold | ⟨-, -, hmay⟩
  · -- it is not in the cache before
    obtain ⟨-, request, fallback, hthread⟩ := h
    have hmarked := marked_of_run (run.upTo hk).1
    exact absurd rfl (hmarked.unpublished id entry _ entry ⟨_, _, _, _, _, hthread⟩ hold)
  · exact hmay

end

variable {e' : OverStep κ}

section

variable {b : Nat} (run : OverRun config limits ts s) (hb : ts[b]? = some e)
  (h : Admits e id ticket)
include run hb h

/-- What the admission at the step `b` does. -/
theorem admission_of_run : Admission e id ticket :=
  h.admission (ticketed_of_run (run.upTo hb).1) (moves_of_run run hb)

/-- A refresh holds its ticket until it is over. -/
theorem holds_of_admits : s.Pending id ticket ∨ s.Past id :=
  run.since (fun s => s.Pending id ticket ∨ s.Past id) hb (.inl h.2) fun _ _ _ hj hholds =>
    (moves_of_run run hj).holds hholds

/-- A thread is admitted once, before it publishes and with the ticket it publishes by. -/
theorem admits_before_publish {p : Nat} (hp : ts[p]? = some e') (h' : Offers e' id ticket' entry) :
    b < p ∧ ticket = ticket' := by
  have hpending := h'.pending
  rcases Nat.lt_trichotomy b p with hbp | rfl | hpb
  · refine ⟨hbp, ?_⟩
    have hb' := (List.getElem?_take_of_lt hbp).trans hb
    rcases holds_of_admits (run.upTo hp).1 hb' h with hholds | hpast
    · exact hholds.unique hpending
    · exact absurd hpast hpending.not_past
  · rw [hb, Option.some.injEq] at hp
    subst hp
    obtain ⟨ctx, haction⟩ := h.1
    rw [h'.1] at haction
    cases haction
  · -- after the section it would be over at `b`
    have hp' := (List.getElem?_take_of_lt hpb).trans hp
    have hnot := (admission_of_run run hb h).first ticket'
    have hholds := (run.upTo hb).1.since (fun s => s.Pending id ticket' ∨ s.Past id) hp'
      ((moves_of_run run hp).pending hpending) fun _ _ _ hj hholds =>
        (moves_of_run (run.upTo hb).1 hj).holds hholds
    rcases hholds with hpending | hpast
    · exact absurd hpending hnot.1
    · exact absurd hpast hnot.2

theorem state_lt_of_admits : ticket.state < e.after.allocated :=
  ((moves_of_run run hb).ticketed (ticketed_of_run (run.upTo hb).1)).held_lt _ _ _ h.2.held

/-- The tickets of one state are numbered in the order of admission. -/
theorem sequence_lt_of_admits {b' id' : Nat} (hb' : ts[b']? = some e')
    (h' : Admits e' id' ticket') (hlt : b < b') (hstate : ticket.state = ticket'.state) :
    ticket.sequence < ticket'.sequence := by
  have hlater := later_between run hb hb' hlt
  have hallocated := state_lt_of_admits run hb h
  have hnext := hlater.next ticket.state hallocated
  rw [(admission_of_run run hb h).next] at hnext
  have hold := Nat.lt_of_lt_of_le hallocated hlater.allocated
  rw [hstate] at hold hnext
  rcases (admission_of_run run hb' h').state with ⟨-, hsequence, -⟩ | ⟨hfresh, -, -⟩
  · omega
  · omega

end

section

variable (run : OverRun config limits ts s)
include run

/-- A refresh does not publish after one that was admitted later. -/
theorem publishes_in_order {i j bi bj pi pj : Nat}
    {ei ej fi fj : OverStep κ} {ti tj : Ticket} (hbi : ts[bi]? = some ei) (hi : Admits ei i ti)
    (htenant : ti.tenant = tenant) (hbj : ts[bj]? = some ej) (hj : Admits ej j tj) (hlt : bi < bj)
    (hpj : ts[pj]? = some fj) (hpublish : Publishes fj j tenant) (hpi : ts[pi]? = some fi)
    (hpublish' : Publishes fi i tenant) : ¬ pj < pi := by
  intro hpp
  obtain ⟨_, entryj, hoffersj, htenantj, hstoredj⟩ := hpublish
  obtain ⟨_, entryi, hoffersi, -, hstoredi⟩ := hpublish'
  obtain ⟨hbpj, rfl⟩ := admits_before_publish run hbj hj hpj hoffersj
  obtain ⟨hbpi, rfl⟩ := admits_before_publish run hbi hi hpi hoffersi
  rw [← htenantj] at hstoredj
  rw [← htenant] at hstoredi
  have hmayj := (Offers.stores_iff run hpj hoffersj).mp hstoredj
  have hmayi := (Offers.stores_iff run hpi hoffersi).mp hstoredi
  by_cases hstate : ti.state = tj.state
  · -- one state: `published` has passed the number of `i`
    have hseq := sequence_lt_of_admits run hbi hi hbj hj hlt hstate
    have hpublished := hoffersj.published (moves_of_run run hpj) hmayj
    have hlater := (later_between run hbj hpj hbpj).trans (moves_of_run run hpj).later
    have hallocated := Nat.lt_of_lt_of_le (state_lt_of_admits run hbj hj) hlater.allocated
    have hle := (later_between run hpj hpi hpp).published _ hallocated
    have hmay := hmayi.2
    rw [hstate] at hmay
    omega
  · -- two states: the one of `i` was dropped before `j` was admitted
    have hlater := (later_between run hbi hbj hlt).trans (moves_of_run run hbj).later
    have hallocated := Nat.lt_of_lt_of_le (state_lt_of_admits run hbi hi) hlater.allocated
    have hcurrent := (later_between run hbj hpi (Nat.lt_trans hbpj hpp)).current _ hallocated _
      hmayi.1
    have hcurrent' := (admission_of_run run hbj hj).current
    rw [htenantj, ← htenant, hcurrent, Option.some.injEq] at hcurrent'
    exact hstate hcurrent'

/-! ### Suppression -/

/-- Every ticket was given at an admission. -/
theorem exists_admits (h : s.Pending id ticket) :
    ∃ (b : Nat) (e : OverStep κ), ts[b]? = some e ∧ Admits e id ticket := by
  induction run with
  | start =>
    obtain ⟨thread, hthread, -⟩ := h
    cases hthread
  | snoc run next ih =>
    rename_i ts s t action
    rcases (moves_of_stepOver next).pending_or_begins h with hpending | hbegins
    · obtain ⟨b, e, hb, hadmits⟩ := ih hpending
      refine ⟨b, e, ?_, hadmits⟩
      rw [List.getElem?_append_left (List.getElem?_eq_some_iff.mp hb).1, hb]
    · exact ⟨ts.length, ⟨s, action, t⟩, by simp, hbegins, h⟩

theorem sequence_le_next (h : s.Pending id ticket) :
    ticket.sequence ≤ (s.states ticket.state).next := by
  obtain ⟨b, e, hb, hadmits⟩ := exists_admits run h
  rw [← (admission_of_run run hb hadmits).next]
  exact (later_of_run run hb).next _ (state_lt_of_admits run hb hadmits)

/-- No number is published before it is given. -/
theorem published_le_next {n : Nat}
    (hn : n < s.allocated) : (s.states n).published ≤ (s.states n).next := by
  induction run with
  | start => cases hn
  | snoc run next ih =>
    rename_i ts s t action
    obtain ⟨action, answer⟩ := action
    cases moves_of_stepOver next with
    | admitted waits =>
      rename_i id request tenant ctx fallback
      rw [enter_states]
      rw [enter_allocated] at hn
      rcases join_or_fresh s tenant with ⟨m, hm, hnext⟩ | hfresh
      · rw [beginRefresh_join hm hnext] at hn ⊢
        have hle := ih hn
        by_cases h : n = m
        · subst h
          simp only [Function.update_self]
          omega
        · simpa [h] using hle
      · rw [beginRefresh_fresh hfresh] at hn ⊢
        by_cases h : n = s.allocated
        · simp [h]
        · simpa [h] using ih (Nat.lt_of_le_of_ne (Nat.le_of_lt_succ hn) h)
    | published thread =>
      rename_i id request tenant fallback state sequence entry
      rw [enter_allocated, publish_allocated] at hn
      rw [enter_states, FeatureFlags.publish]
      split
      · by_cases h : n = state
        · subst h
          simpa using sequence_le_next run ⟨_, thread, rfl⟩
        · simpa [h] using ih hn
      · exact ih hn
    | ended thread =>
      rename_i id request tenant fallback state result
      rw [enter_states, FeatureFlags.endRefresh]
      have hle := ih hn
      by_cases h : n = state
      · subst h
        simpa using hle
      · simpa [h] using hle
    | _ => exact ih hn

/-- No refresh of the state has a larger number at admission. -/
theorem published_lt_of_admits {b : Nat} (hb : ts[b]? = some e) (h : Admits e id ticket) :
    (e.after.states ticket.state).published < ticket.sequence := by
  rcases (admission_of_run run hb h).state with
    ⟨hlt, hsequence, hpublished⟩ | ⟨-, hsequence, hpublished⟩
  · have hle := published_le_next (run.upTo hb).1 hlt
    omega
  · omega

end

section

variable (run : OverRun config limits ts s)
include run

/-- A refresh that was admitted and is still in progress goes back to one admission. -/
theorem pending_before {b x : Nat} (hb : ts[b]? = some e) (h : Admits e id ticket)
    (hx : ts[x]? = some e') (hlt : b < x) (hafter : e'.after.Pending id ticket) :
    e'.before.Pending id ticket := by
  rcases (moves_of_run run hx).pending_or_begins hafter with hbefore | hbegins
  · exact hbefore
  · have hnot := (admission_of_run run hx ⟨hbegins, hafter⟩).first ticket
    have hb' := (List.getElem?_take_of_lt hlt).trans hb
    rcases holds_of_admits (run.upTo hx).1 hb' h with hholds | hpast
    · exact absurd hholds hnot.1
    · exact absurd hpast hnot.2

/-- Later in a run without rotations, a refresh in progress may publish, or something has
intervened. -/
theorem mayPublish_or_intervened (hrotates : ∀ e ∈ ts, ¬ Rotates e) {b : Nat}
    (hb : ts[b]? = some e) (h : Admits e id ticket) (hpending : s.Pending id ticket) :
    mayPublish ticket.tenant ticket.state ticket.sequence s ∨
      ∃ (x : Nat) (f : OverStep κ), b < x ∧ ts[x]? = some f ∧
        (Invalidates f ticket.tenant ∨ Closes f ∨
          ∃ (j c : Nat) (g : OverStep κ) (ticket' : Ticket), b < c ∧ ts[c]? = some g ∧
            Admits g j ticket' ∧ ticket'.tenant = ticket.tenant ∧
            Publishes f j ticket.tenant) := by
  have hs := ticketed_of_run run
  -- the two conditions of `mayPublish`, each with what can break it
  have hboth := run.since (fun s => s.Pending id ticket →
    (s.refreshes[ticket.tenant]? = some ticket.state ∨
      ∃ (x : Nat) (f : OverStep κ), b < x ∧ ts[x]? = some f ∧
        (Invalidates f ticket.tenant ∨ Closes f)) ∧
    ((s.states ticket.state).published < ticket.sequence ∨
      ∃ (x : Nat) (f : OverStep κ), b < x ∧ ts[x]? = some f ∧ Overtaken f id ticket))
    hb ?_ ?_ hpending
  · obtain ⟨hcurrent, hpublished⟩ := hboth
    rcases hcurrent with hcurrent | ⟨x, f, hbx, hx, hf⟩
    · rcases hpublished with hpublished |
        ⟨x, f, hbx, hx, j, sequence, entry, hne, hle, hoffers, hmay⟩
      · exact .inl ⟨hcurrent, hpublished⟩
      · refine .inr ⟨x, f, hbx, hx, .inr (.inr ?_)⟩
        -- the one that published was admitted after `b`, as its number is larger
        obtain ⟨c, g, hc, hg⟩ := exists_admits (run.upTo hx).1 hoffers.pending
        have hcx : c < x := by
          have := (List.getElem?_eq_some_iff.mp hc).1
          rw [List.length_take] at this
          omega
        rw [List.getElem?_take_of_lt hcx] at hc
        have hstored := (Offers.stores_iff run hx hoffers).mpr hmay
        refine ⟨j, c, g, _, ?_, hc, hg, rfl, _, entry, hoffers, rfl, hstored⟩
        rcases Nat.lt_trichotomy b c with hbc | rfl | hcb
        · exact hbc
        · rw [hb, Option.some.injEq] at hc
          subst hc
          obtain ⟨ctx, haction⟩ := h.1
          obtain ⟨ctx', haction'⟩ := hg.1
          rw [haction] at haction'
          cases haction'
          exact absurd rfl hne
        · have := sequence_lt_of_admits run hc hg hb h hcb rfl
          dsimp only at this
          omega
    · exact .inr ⟨x, f, hbx, hx, hf.imp_right .inl⟩
  · intro _
    exact ⟨.inl (admission_of_run run hb h).current, .inl (published_lt_of_admits run hb h)⟩
  · intro x f hbx hx hP hafter
    have hbefore := pending_before run hb h hx hbx hafter
    have hmoves := moves_of_run run hx
    have hticketed := ticketed_of_run (run.upTo hx).1
    obtain ⟨hcurrent, hpublished⟩ := hP hbefore
    constructor
    · rcases hcurrent with hcurrent | hcurrent
      · rcases current_step hmoves hticketed hbefore hafter
          (hrotates f (List.mem_of_getElem? hx)) hcurrent with hsame | hf
        · exact .inl hsame
        · exact .inr ⟨x, f, hbx, hx, hf⟩
      · exact .inr hcurrent
    · rcases hpublished with hpublished | hpublished
      · rcases published_step hmoves hticketed hbefore hafter hpublished with hsame | hf
        · exact .inl hsame
        · exact .inr ⟨x, f, hbx, hx, hf⟩
      · exact .inr hpublished

/-! ### The steps of a run by their numbers -/

/-- The refresh `id` of a tenant is admitted at the step `k`. -/
def AdmittedAt (ts : List (OverStep κ)) (k id : Nat) (tenant : Bytes) : Prop :=
  ∃ (e : OverStep κ) (ticket : Ticket), ts[k]? = some e ∧ Admits e id ticket ∧
    ticket.tenant = tenant

/-- The refresh `id` of a tenant publishes at the step `k`. -/
def PublishedAt (ts : List (OverStep κ)) (k id : Nat) (tenant : Bytes) : Prop :=
  ∃ e : OverStep κ, ts[k]? = some e ∧ Publishes e id tenant

/-- The refresh `id` of a tenant has fetched a snapshot, and does not publish it at the step
`k`. -/
def SuppressedAt (ts : List (OverStep κ)) (k id : Nat) (tenant : Bytes) : Prop :=
  ∃ e : OverStep κ, ts[k]? = some e ∧ Suppresses e id tenant

/-- A successful mutation of a tenant invalidates it at the step `k`. -/
def InvalidatedAt (ts : List (OverStep κ)) (k : Nat) (tenant : Bytes) : Prop :=
  ∃ e : OverStep κ, ts[k]? = some e ∧ Invalidates e tenant

/-- `Close` clears the cache at the step `k`. -/
def ClosedAt (ts : List (OverStep κ)) (k : Nat) : Prop :=
  ∃ e : OverStep κ, ts[k]? = some e ∧ Closes e

/-- A refresh that fetched a snapshot is suppressed only if something has intervened. -/
theorem suppressed_only_if (hrotates : ∀ e ∈ ts, ¬ Rotates e) {i b p : Nat}
    (hadmitted : AdmittedAt ts b i tenant) (hsuppressed : SuppressedAt ts p i tenant) :
    ∃ x, b < x ∧ x < p ∧ (InvalidatedAt ts x tenant ∨ ClosedAt ts x ∨
      ∃ j c, b < c ∧ AdmittedAt ts c j tenant ∧ PublishedAt ts x j tenant) := by
  obtain ⟨e, ticket, hb, hadmits, rfl⟩ := hadmitted
  obtain ⟨f, hp, hsuppresses⟩ := hsuppressed
  obtain ⟨_, entry, hoffers, -, hunstored⟩ := hsuppresses
  obtain ⟨hbp, rfl⟩ := admits_before_publish run hb hadmits hp hoffers
  have hrun := (run.upTo hp).1
  have hrotates' : ∀ e ∈ ts.take p, ¬ Rotates e := fun e he => hrotates e (List.mem_of_mem_take he)
  -- steps of the run before `p` are steps of the whole run
  have hwhole : ∀ {x : Nat} {g : OverStep κ}, (ts.take p)[x]? = some g →
      x < p ∧ ts[x]? = some g := by
    intro x g hg
    rw [List.getElem?_take] at hg
    split_ifs at hg with hxp
    exact ⟨hxp, hg⟩
  rcases mayPublish_or_intervened hrun hrotates' ((List.getElem?_take_of_lt hbp).trans hb) hadmits
    hoffers.pending with hmay | ⟨x, g, hbx, hx, hg⟩
  · exact absurd ((Offers.stores_iff run hp hoffers).mpr hmay) hunstored
  · obtain ⟨hxp, hx'⟩ := hwhole hx
    refine ⟨x, hbx, hxp, ?_⟩
    rcases hg with hg | hg | ⟨j, c, h, ticket', hbc, hc, hadmits', htenant, hpublishes⟩
    · exact .inl ⟨g, hx', hg⟩
    · exact .inr (.inl ⟨g, hx', hg⟩)
    · exact .inr (.inr ⟨j, c, hbc, ⟨h, ticket', (hwhole hc).2, hadmits', htenant⟩, g, hx',
        hpublishes⟩)

end

/-- Publication respects admission order.  If the refresh `i` of a tenant was admitted before `j`,
it does not publish after `j` has.  Without rotations, a refresh that fetched a snapshot fails to
publish it only if between its admission and then a successful mutation of the tenant, `Close` or
the publication of a refresh that was admitted later intervened. -/
theorem publication_order (run : OverRun config limits ts s) :
    (∀ tenant i j bi bj pi pj, AdmittedAt ts bi i tenant → AdmittedAt ts bj j tenant → bi < bj →
      PublishedAt ts pj j tenant → PublishedAt ts pi i tenant → pi ≤ pj) ∧
    ((∀ e ∈ ts, ¬ Rotates e) → ∀ tenant i b p, AdmittedAt ts b i tenant →
      SuppressedAt ts p i tenant → ∃ x, b < x ∧ x < p ∧
        (InvalidatedAt ts x tenant ∨ ClosedAt ts x ∨
          ∃ j c, b < c ∧ AdmittedAt ts c j tenant ∧ PublishedAt ts x j tenant)) := by
  constructor
  · rintro tenant i j bi bj pi pj ⟨ei, ti, hbi, hi, hti⟩ ⟨ej, tj, hbj, hj, -⟩ hlt ⟨fj, hpj, hfj⟩
      ⟨fi, hpi, hfi⟩
    exact Nat.le_of_not_lt (publishes_in_order run hbi hi hti hbj hj hlt hpj hfj hpi hfi)
  · intro hrotates tenant i b p hadmitted hsuppressed
    exact suppressed_only_if run hrotates hadmitted hsuppressed

end Runs

def smallCache : CacheConfig := ⟨1, 1, .failOpen, 1, 10, 10⟩

/-- Two refreshes overlap, and the one that was admitted last publishes first. -/
def overlappingRefreshes : List (Action Empty × Except Failure (Response Empty)) :=
  [(.start 0 (.refresh (str "t")) .background, .error .panic),
    (.start 1 (.refresh (str "t")) .background, .error .panic),
    (.beginRefresh 0 .background, .error .panic),
    (.beginRefresh 1 .background, .error .panic),
    (.fetch 0 .sorted .background .zero, .ok (.snapshot ⟨∅, ∅, str "t", defaultLimits⟩)),
    (.fetch 1 .sorted .background .zero, .ok (.snapshot ⟨∅, ∅, str "t", defaultLimits⟩)),
    (.publish 1, .error .panic), (.publish 0, .error .panic)]

/-- The one that was admitted last publishes, the other is suppressed, and nothing else has
intervened. -/
theorem publication_order_overlapping :
    letI := unaryRuntime
    ∃ (ts : List (OverStep Empty)) (s : CacheState Empty),
      OverRun smallCache defaultLimits ts s ∧
      ts.map Transition.action = overlappingRefreshes ∧
      AdmittedAt ts 2 0 (str "t") ∧
      AdmittedAt ts 3 1 (str "t") ∧
      PublishedAt ts 6 1 (str "t") ∧
      SuppressedAt ts 7 0 (str "t") ∧
      (∀ e ∈ ts, ¬ Rotates e) ∧
      (∀ pi, PublishedAt ts pi 0 (str "t") → pi ≤ 6) ∧
      ∃ x, 2 < x ∧ x < 7 ∧
        (InvalidatedAt ts x (str "t") ∨ ClosedAt ts x ∨
          ∃ j c, 2 < c ∧ AdmittedAt ts c j (str "t") ∧ PublishedAt ts x j (str "t")) := by
  let _ := unaryRuntime
  obtain ⟨ts, s, run, hactions, hcheck⟩ := exists_overRun smallCache defaultLimits
    overlappingRefreshes (fun x =>
      (∃ e ∈ x.1[2]?, e.after.Pending 0 ⟨str "t", 0, 1⟩) ∧
      (∃ e ∈ x.1[3]?, e.after.Pending 1 ⟨str "t", 0, 2⟩) ∧
      (∃ e ∈ x.1[6]?, e.before.Pending 1 ⟨str "t", 0, 2⟩ ∧ mayPublish (str "t") 0 2 e.before) ∧
      (∃ e ∈ x.1[7]?, e.before.Pending 0 ⟨str "t", 0, 1⟩ ∧ ¬ mayPublish (str "t") 0 1 e.before) ∧
      ∀ e ∈ x.1, (∀ y ∈ e.before.refreshes.toList, y.2 = 0) ∧
        ∀ y ∈ e.after.refreshes.toList, y.2 = 0) (by decide +kernel)
  obtain ⟨⟨e₀, h₀, hadmits₀⟩, ⟨e₁, h₁, hadmits₁⟩, ⟨f₁, hf₁, hpending₁, hmay⟩,
    ⟨f₀, hf₀, hpending₀, hmay'⟩, hzero⟩ := of_decide_eq_true hcheck
  have admitted₀ : AdmittedAt ts 2 0 (str "t") :=
    ⟨e₀, _, h₀, ⟨⟨_, congrArg Prod.fst (action_eq hactions h₀ rfl)⟩, hadmits₀⟩, rfl⟩
  have admitted₁ : AdmittedAt ts 3 1 (str "t") :=
    ⟨e₁, _, h₁, ⟨⟨_, congrArg Prod.fst (action_eq hactions h₁ rfl)⟩, hadmits₁⟩, rfl⟩
  obtain ⟨entry₁, hoffers₁⟩ := exists_offers (moves_of_run run hf₁)
    (congrArg Prod.fst (action_eq hactions hf₁ rfl)) hpending₁
  obtain ⟨entry₀, hoffers₀⟩ := exists_offers (moves_of_run run hf₀)
    (congrArg Prod.fst (action_eq hactions hf₀ rfl)) hpending₀
  have published : PublishedAt ts 6 1 (str "t") :=
    ⟨f₁, hf₁, _, _, hoffers₁, rfl, (Offers.stores_iff run hf₁ hoffers₁).mpr hmay⟩
  have suppressed : SuppressedAt ts 7 0 (str "t") :=
    ⟨f₀, hf₀, _, _, hoffers₀, rfl, fun h => hmay' ((Offers.stores_iff run hf₀ hoffers₀).mp h)⟩
  -- the tenant has the state 0 all along
  have hrotates : ∀ e ∈ ts, ¬ Rotates e := by
    rintro e he ⟨id, ctx, tenant, n, m, -, hn, hm, hne⟩
    obtain ⟨hbefore, hafter⟩ := hzero e he
    have hn0 := hbefore _ (GoMap.mem_toList.mpr hn)
    exact hne (hn0.trans (hafter _ (GoMap.mem_toList.mpr hm)).symm)
  obtain ⟨inOrder, onlyIf⟩ := publication_order run
  exact ⟨ts, s, run, hactions, admitted₀, admitted₁, published, suppressed, hrotates,
    fun pi => inOrder _ 0 1 2 3 pi 6 admitted₀ admitted₁ (by decide) published,
    onlyIf hrotates _ 0 2 7 admitted₀ suppressed⟩

end FeatureFlags
