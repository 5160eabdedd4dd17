import FeatureFlags.Lib.Trace
import Mathlib.Algebra.BigOperators.Group.List.Basic
import Mathlib.Tactic.Abel

/-!
# Threads over a shared state

A program says what one thread does in one atomic step: it reads and writes the shared state, moves
on, and may start other threads.  A pool is the shared state and the threads, numbered in the order
in which they start; a thread that has finished stays in the pool.

* `Progress`: a function that is still running, or its result; `Progress.inside` makes the steps of
  a call steps of its caller.
* `Program.next`, `Program.Run`: the steps and the runs of a pool.
* `Run.invariant`: a property of the shared state and one of each thread, which no other thread
  breaks.
* `Run.census`: a counter that moves with the weight of the thread that steps is the sum of the
  weights.
* `Run.between`, `Run.thread_between`: what every step respects relates two states of a run.
-/

namespace FeatureFlags.Lib

universe u v w x

/-! ### Functions that take several steps -/

/-- A function is at a stage of its work, or has returned. -/
inductive Progress (α : Type u) (β : Type v) where
  | running (stage : α)
  | finished (result : β)

namespace Progress

variable {α α' : Type u} {β β' : Type v} {σ : Type w}

/-- The progress of a caller, given that of a call: `within` is the caller's stage during the call,
and `after` says how it goes on. -/
def lift (within : α → α') (after : β → Progress α' β') : Progress α β → Progress α' β'
  | running stage => running (within stage)
  | finished result => after result

/-- A step of a call as a step of its caller. -/
def inside (within : α → α') (after : β → Progress α' β') (step : Option (σ × Progress α β)) :
    Option (σ × Progress α' β') :=
  step.map fun x => (x.1, x.2.lift within after)

theorem inside_eq_some {within : α → α'} {after : β → Progress α' β'}
    {step : Option (σ × Progress α β)} {s : σ} {p : Progress α' β'} :
    inside within after step = some (s, p) ↔ ∃ q, step = some (s, q) ∧ q.lift within after = p := by
  simp only [inside, Option.map_eq_some_iff, Prod.mk.injEq, Prod.exists]
  constructor
  · rintro ⟨s', q, h, rfl, rfl⟩
    exact ⟨q, h, rfl⟩
  · rintro ⟨q, h, rfl⟩
    exact ⟨s, q, h, rfl, rfl⟩

/-- What a function weighs while it is running. -/
def weight {M : Type x} [Zero M] (w : α → M) : Progress α β → M
  | running stage => w stage
  | finished _ => 0

/-- A call weighs the same inside its caller, up to what the caller weighs itself. -/
theorem weight_lift {M : Type x} [AddMonoid M] {w : α → M} {w' : α' → M} {c : M} {within : α → α'}
    {after : β → Progress α' β'} (hwithin : ∀ stage, w' (within stage) = c + w stage)
    (hafter : ∀ result, (after result).weight w' = c) (p : Progress α β) :
    (p.lift within after).weight w' = c + p.weight w := by
  cases p with
  | running stage => exact hwithin stage
  | finished result => exact (hafter result).trans (add_zero c).symm

end Progress

/-! ### Pools -/

/-- What a thread does: where it starts for a request, and its steps, each with what is read from
outside and the threads that it starts. -/
structure Program (σ : Type u) (τ : Type v) (ρ : Type w) (ι : Type x) where
  start : ρ → τ
  step : ι → σ → τ → Option (σ × τ × List τ)

/-- A shared state and the threads over it. -/
structure Pool (σ : Type u) (τ : Type v) where
  shared : σ
  threads : List τ

/-- What happens in a pool: a request starts a thread, or a thread takes a step. -/
inductive Act (ρ : Type w) (ι : Type x) where
  | call (request : ρ)
  | step (id : Nat) (input : ι)

namespace Program

variable {σ : Type u} {τ : Type v} {ρ : Type w} {ι : Type x} (P : Program σ τ ρ ι)

/-- The steps of a pool. -/
def next (s : Pool σ τ) : Act ρ ι → Option (Pool σ τ)
  | .call request => some ⟨s.shared, s.threads ++ [P.start request]⟩
  | .step id input =>
    match s.threads[id]? with
    | none => none
    | some thread =>
      match P.step input s.shared thread with
      | none => none
      | some (shared, thread', spawned) => some ⟨shared, s.threads.set id thread' ++ spawned⟩

/-- The runs of a pool that starts without threads. -/
abbrev Run (init : σ) : List (Transition (Pool σ τ) (Act ρ ι)) → Pool σ τ → Prop :=
  Trace (fun s a t => P.next s a = some t) ⟨init, []⟩

/-- What a step of a pool does. -/
inductive Moves (s : Pool σ τ) : Act ρ ι → Pool σ τ → Prop
  | call (request : ρ) :
      Moves s (.call request) ⟨s.shared, s.threads ++ [P.start request]⟩
  | step {id : Nat} {input : ι} {thread thread' : τ} {shared : σ} {spawned : List τ}
      (thread_eq : s.threads[id]? = some thread)
      (step_eq : P.step input s.shared thread = some (shared, thread', spawned)) :
      Moves s (.step id input) ⟨shared, s.threads.set id thread' ++ spawned⟩

variable {P} {init : σ} {s t : Pool σ τ} {a : Act ρ ι}
  {ts : List (Transition (Pool σ τ) (Act ρ ι))}

theorem moves_of_next (h : P.next s a = some t) : P.Moves s a t := by
  cases a with
  | call request =>
    cases h
    exact .call request
  | step id input =>
    simp only [next] at h
    split at h
    · cases h
    · rename_i thread hthread
      split at h
      · cases h
      · rename_i shared thread' spawned hstep
        cases h
        exact .step hthread hstep

/-- A thread that is there stays there; it changes only by its own steps. -/
theorem Moves.thread {id : Nat} {u : τ} (h : P.Moves s a t) (hu : s.threads[id]? = some u) :
    ∃ u', t.threads[id]? = some u' ∧ (u' = u ∨ ∃ input spawned, a = .step id input ∧
      P.step input s.shared u = some (t.shared, u', spawned)) := by
  have hlt : id < s.threads.length := (List.getElem?_eq_some_iff.mp hu).1
  cases h with
  | call request => exact ⟨u, by rw [List.getElem?_append_left hlt, hu], .inl rfl⟩
  | step hthread heq =>
    rename_i id₁ input thread thread' shared spawned
    rw [List.getElem?_append_left (by rwa [List.length_set]), List.getElem?_set]
    by_cases hid : id₁ = id
    · subst hid
      cases hu.symm.trans hthread
      exact ⟨thread', by simp [hlt], .inr ⟨input, spawned, rfl, heq⟩⟩
    · exact ⟨u, by simp [hid, hu], .inl rfl⟩

/-- Where a thread after a step comes from: it was there, it is the one that steps, a request has
started it, or the thread that steps has. -/
theorem Moves.origin {id : Nat} {u : τ} (h : P.Moves s a t) (hu : t.threads[id]? = some u) :
    s.threads[id]? = some u ∨
      (∃ v input spawned, a = .step id input ∧ s.threads[id]? = some v ∧
        P.step input s.shared v = some (t.shared, u, spawned)) ∨
      (∃ request, a = .call request ∧ u = P.start request) ∨
      ∃ j v input v' spawned, a = .step j input ∧ s.threads[j]? = some v ∧
        t.threads[j]? = some v' ∧
        P.step input s.shared v = some (t.shared, v', spawned) ∧ u ∈ spawned := by
  cases h with
  | call request =>
    rw [List.getElem?_append] at hu
    split_ifs at hu
    · exact .inl hu
    · exact .inr (.inr (.inl ⟨request, rfl, List.mem_singleton.mp (List.mem_of_getElem? hu)⟩))
  | step hthread heq =>
    rename_i j input v v' shared spawned
    rw [List.getElem?_append] at hu
    split_ifs at hu
    · rw [List.getElem?_set] at hu
      split_ifs at hu with hj
      · subst hj
        cases hu
        exact .inr (.inl ⟨v, input, spawned, rfl, hthread, heq⟩)
      · exact .inl hu
    · have hlt : j < s.threads.length := (List.getElem?_eq_some_iff.mp hthread).1
      have hj : (s.threads.set j v' ++ spawned)[j]? = some v' := by
        rw [List.getElem?_append_left (by rwa [List.length_set]), List.getElem?_set_self hlt]
      exact .inr (.inr (.inr
        ⟨j, v, input, v', spawned, rfl, hthread, hj, heq, List.mem_of_getElem? hu⟩))

namespace Run

variable {e : Transition (Pool σ τ) (Act ρ ι)}

theorem moves (run : P.Run init ts s) {k : Nat} (hk : ts[k]? = some e) :
    P.Moves e.before e.action e.after :=
  moves_of_next (run.upTo hk).2

/-- What changes the shared state is a step, since a request only adds a thread. -/
theorem exists_step_of_ne (run : P.Run init ts s) {k : Nat} (hk : ts[k]? = some e)
    (hchange : e.after.shared ≠ e.before.shared) : ∃ id input, e.action = .step id input := by
  have hmoves := moves run hk
  obtain ⟨s, a, t⟩ := e
  dsimp only at hmoves hchange ⊢
  cases hmoves with
  | call request => exact absurd rfl hchange
  | step => exact ⟨_, _, rfl⟩

/-- The thread that takes a step, before and after it. -/
theorem step_at (run : P.Run init ts s) {k id : Nat} {input : ι} (hk : ts[k]? = some e)
    (haction : e.action = .step id input) :
    ∃ thread thread' spawned, e.before.threads[id]? = some thread ∧
      e.after.threads[id]? = some thread' ∧
      P.step input e.before.shared thread = some (e.after.shared, thread', spawned) := by
  have hmoves := moves run hk
  obtain ⟨s, a, t⟩ := e
  dsimp only at haction hmoves ⊢
  subst haction
  cases hmoves with
  | step hthread heq =>
    rename_i thread thread' shared spawned
    have hlt : id < s.threads.length := (List.getElem?_eq_some_iff.mp hthread).1
    refine ⟨thread, thread', spawned, hthread, ?_, heq⟩
    dsimp only
    rw [List.getElem?_append_left (by rwa [List.length_set]), List.getElem?_set_self hlt]

/-- At most one thread has the property `p`. -/
theorem eq_of_countP_le_one {p : τ → Bool} {l : List τ} (h : l.countP p ≤ 1) {i j : Nat} {u v : τ}
    (hi : l[i]? = some u) (hu : p u = true) (hj : l[j]? = some v) (hv : p v = true) : i = j := by
  induction l generalizing i j with
  | nil => simp at hi
  | cons w l ih =>
    have hpos {n : Nat} {x : τ} (hn : l[n]? = some x) (hx : p x = true) : 0 < l.countP p :=
      List.countP_pos_iff.mpr ⟨x, List.mem_of_getElem? hn, hx⟩
    rw [List.countP_cons] at h
    cases i with
    | zero =>
      cases j with
      | zero => rfl
      | succ j =>
        rw [List.getElem?_cons_zero, Option.some.injEq] at hi
        rw [List.getElem?_cons_succ] at hj
        have := hpos hj hv
        rw [hi, if_pos hu] at h
        omega
    | succ i =>
      rw [List.getElem?_cons_succ] at hi
      have := hpos hi hu
      cases j with
      | zero =>
        rw [List.getElem?_cons_zero, Option.some.injEq] at hj
        rw [hj, if_pos hv] at h
        omega
      | succ j =>
        rw [List.getElem?_cons_succ] at hj
        rw [ih (by omega) hi hj]

/-- Every step keeps `I`, establishes `J` for its own thread and the threads it starts, and breaks
`J` for no other thread, unless both have the property `p`, which one thread has at a time. -/
theorem exclusive_invariant (p : τ → Bool) (I : σ → Prop) (J : σ → τ → Prop)
    (run : P.Run init ts s)
    (hp : ∀ {k : Nat} {e : Transition (Pool σ τ) (Act ρ ι)}, ts[k]? = some e →
      e.before.threads.countP p ≤ 1)
    (hinit : I init) (hstart : ∀ shared request, I shared → J shared (P.start request))
    (hstep : ∀ {input shared thread shared' thread' spawned}, I shared → J shared thread →
      P.step input shared thread = some (shared', thread', spawned) →
      I shared' ∧ J shared' thread' ∧ (∀ u ∈ spawned, J shared' u) ∧
        ∀ u, J shared u → ¬ (p thread = true ∧ p u = true) → J shared' u) :
    I s.shared ∧ ∀ u ∈ s.threads, J s.shared u := by
  refine run.along (fun s => I s.shared ∧ ∀ u ∈ s.threads, J s.shared u) ?_ ?_
  · exact ⟨hinit, fun u hu => by simp at hu⟩
  · rintro k e hk ⟨hI, hJ⟩
    have hone := hp hk
    have hmoves := moves run hk
    obtain ⟨s, a, t⟩ := e
    dsimp only at *
    cases hmoves with
    | call request =>
      refine ⟨hI, fun u hu => ?_⟩
      rcases List.mem_append.mp hu with hu | hu
      · exact hJ u hu
      · rw [List.mem_singleton.mp hu]
        exact hstart _ _ hI
    | step hthread heq =>
      rename_i id input thread thread' shared spawned
      obtain ⟨hI', hown, hspawned, hstable⟩ :=
        hstep hI (hJ _ (List.mem_of_getElem? hthread)) heq
      refine ⟨hI', fun u hu => ?_⟩
      rcases List.mem_append.mp hu with hu | hu
      · obtain ⟨j, hj⟩ := List.mem_iff_getElem?.mp hu
        rw [List.getElem?_set] at hj
        split_ifs at hj with hid
        · cases hj
          exact hown
        · refine hstable u (hJ u (List.mem_of_getElem? hj)) fun hboth => hid ?_
          exact eq_of_countP_le_one hone hthread hboth.1 hj hboth.2
      · exact hspawned u hu

/-- The same as `exclusive_invariant`, where a step breaks `J` for no other thread. -/
theorem invariant (I : σ → Prop) (J : σ → τ → Prop) (run : P.Run init ts s) (hinit : I init)
    (hstart : ∀ shared request, I shared → J shared (P.start request))
    (hstep : ∀ {input shared thread shared' thread' spawned}, I shared → J shared thread →
      P.step input shared thread = some (shared', thread', spawned) →
      I shared' ∧ J shared' thread' ∧ (∀ u ∈ spawned, J shared' u) ∧
        ∀ u, J shared u → J shared' u) : I s.shared ∧ ∀ u ∈ s.threads, J s.shared u := by
  refine exclusive_invariant (fun _ => false) I J run (by simp) hinit hstart ?_
  intro input shared thread shared' thread' spawned hI hJ h
  obtain ⟨hI', hown, hspawned, hstable⟩ := hstep hI hJ h
  exact ⟨hI', hown, hspawned, fun u hu _ => hstable u hu⟩

/-- A property of the shared state alone. -/
theorem shared_invariant (I : σ → Prop) (run : P.Run init ts s) (hinit : I init)
    (hstep : ∀ {input shared thread shared' thread' spawned}, I shared →
      P.step input shared thread = some (shared', thread', spawned) → I shared') : I s.shared :=
  (invariant I (fun _ _ => True) run hinit (fun _ _ _ => trivial)
    fun hI _ h => ⟨hstep hI h, trivial, fun _ _ => trivial, fun _ _ => trivial⟩).1

/-- A property of a thread and its number that may mention the run. -/
theorem thread_along (J : Nat → τ → Prop) (run : P.Run init ts s)
    (hstart : ∀ id request, J id (P.start request))
    (hstep : ∀ {k : Nat} {e : Transition (Pool σ τ) (Act ρ ι)} {id input thread thread' spawned},
      ts[k]? = some e → e.action = .step id input →
      e.before.threads[id]? = some thread → e.after.threads[id]? = some thread' → J id thread →
      P.step input e.before.shared thread = some (e.after.shared, thread', spawned) →
      J id thread' ∧ ∀ j, ∀ u ∈ spawned, J j u) {id : Nat} {u : τ}
    (hu : s.threads[id]? = some u) : J id u := by
  refine run.along (fun s => ∀ {id u}, s.threads[id]? = some u → J id u) ?_ ?_ hu
  · intro id u hu
    simp at hu
  · intro k e hk hJ id u hu
    rcases (moves run hk).origin hu with hbefore | ⟨v, input, spawned, ha, hv, heq⟩ |
      ⟨request, -, rfl⟩ | ⟨j, v, input, v', spawned, ha, hv, hv', heq, hspawned⟩
    · exact hJ hbefore
    · exact (hstep hk ha hv hu (hJ hv) heq).1
    · exact hstart id request
    · exact (hstep hk ha hv hv' (hJ hv) heq).2 id u hspawned

/-! ### Counting -/

section Census

variable {M : Type*} [AddCancelCommMonoid M]

theorem sum_set_add {l : List M} {i : Nat} {a b : M} (h : l[i]? = some a) :
    (l.set i b).sum + a = l.sum + b := by
  induction l generalizing i with
  | nil => simp at h
  | cons c l ih =>
    cases i with
    | zero =>
      simp only [List.getElem?_cons_zero, Option.some.injEq] at h
      subst h
      simp only [List.set_cons_zero, List.sum_cons]
      rw [add_comm b, add_assoc, add_comm b, ← add_assoc, add_comm l.sum]
    | succ i =>
      simp only [List.getElem?_cons_succ] at h
      simp only [List.set_cons_succ, List.sum_cons, add_assoc, ih h]

theorem sum_step {weight : τ → M} {l : List τ} {i : Nat} {u v : τ} {spawned : List τ}
    (h : l[i]? = some u) : ((l.set i v ++ spawned).map weight).sum + weight u =
      (l.map weight).sum + weight v + (spawned.map weight).sum := by
  have hset := sum_set_add (b := weight v)
    (show (l.map weight)[i]? = some (weight u) by rw [List.getElem?_map, h, Option.map_some])
  rw [List.map_append, List.map_set, List.sum_append, add_right_comm, hset]

/-- The counter `m` moves with the weight of the thread that steps, so it is the sum of the weights
of all threads. -/
theorem census (weight : τ → M) (m : σ → M) (run : P.Run init ts s) (hinit : m init = 0)
    (hstart : ∀ request, weight (P.start request) = 0)
    (hstep : ∀ {k : Nat} {e : Transition (Pool σ τ) (Act ρ ι)} {id : Nat} {input : ι} {thread
      thread' : τ} {spawned : List τ}, ts[k]? = some e → (e.before.threads.map weight).sum = m
      e.before.shared → e.before.threads[id]? = some thread → P.step input e.before.shared thread =
      some (e.after.shared, thread', spawned) → m e.after.shared + weight thread = m e.before.shared
      + weight thread' + (spawned.map weight).sum) : (s.threads.map weight).sum = m s.shared := by
  refine run.along (fun s => (s.threads.map weight).sum = m s.shared) hinit.symm ?_
  intro k e hk hsum
  have hmoves := moves run hk
  obtain ⟨s, a, t⟩ := e
  dsimp only at *
  cases hmoves with
  | call request => simp [hsum, hstart]
  | step hthread heq =>
    rename_i thread thread' shared spawned
    -- cancel the weight that the thread had before the step
    apply add_right_cancel (b := weight thread)
    rw [hstep hk hsum hthread heq, sum_step hthread, hsum]

/-- What the threads weigh, together with what has been set aside in `m`, is what the steps have
added. -/
theorem ledger (weight : τ → M) (m : σ → M) (added : Transition (Pool σ τ) (Act ρ ι) → M)
    (run : P.Run init ts s) (hinit : m init = 0)
    (hstart : ∀ request, weight (P.start request) = 0)
    (hcall : ∀ {e request}, e.action = .call request → added e = 0)
    (hstep : ∀ {k : Nat} {e : Transition (Pool σ τ) (Act ρ ι)} {id : Nat} {input : ι} {thread
      thread' : τ} {spawned : List τ}, ts[k]? = some e → e.action = .step id input →
      e.before.threads[id]? = some thread → P.step input e.before.shared thread = some
      (e.after.shared, thread', spawned) → m e.after.shared + weight thread' + (spawned.map
      weight).sum = m e.before.shared + weight thread + added e) :
    (s.threads.map weight).sum + m s.shared = (ts.map added).sum := by
  induction run with
  | start => simp [hinit]
  | snoc run next ih =>
    rename_i ts s t a
    have hprevious := ih fun hk => hstep (by
      rw [List.getElem?_append_left (List.getElem?_eq_some_iff.mp hk).1]
      exact hk)
    rw [List.map_append, List.sum_append, ← hprevious, List.map_singleton, List.sum_singleton]
    cases moves_of_next next with
    | call request => simp [hstart, hcall (e := ⟨s, .call request, _⟩) rfl]
    | step hthread heq =>
      rename_i id input thread thread' shared spawned
      have hbalance := hstep List.getElem?_concat_length rfl hthread heq
      dsimp only at hbalance
      apply add_right_cancel (b := weight thread)
      calc _ = (s.threads.map weight).sum + (m shared + weight thread' +
            (spawned.map weight).sum) := by rw [add_right_comm, sum_step hthread]; abel
        _ = _ := by rw [hbalance]; abel

/-- The threads with a property, counted by weights. -/
theorem countP_eq_sum (p : τ → Bool) (l : List τ) :
    l.countP p = (l.map fun thread => (p thread).toNat).sum := by
  induction l with
  | nil => rfl
  | cons thread l ih =>
    rw [List.countP_cons, ih, List.map_cons, List.sum_cons, add_comm]
    cases p thread <;> rfl

theorem countP_set_add {l : List τ} {i : Nat} {a b : τ} (p : τ → Bool) (h : l[i]? = some a) :
    (l.set i b).countP p + (p a).toNat = l.countP p + (p b).toNat := by
  rw [countP_eq_sum, countP_eq_sum, List.map_set]
  refine sum_set_add ?_
  rw [List.getElem?_map, h, Option.map_some]

end Census

/-! ### Two states of a run -/

section Relations

variable {e' : Transition (Pool σ τ) (Act ρ ι)} (R : σ → σ → Prop) (hrefl : ∀ a, R a a)
  (htrans : ∀ {a b c}, R a b → R b c → R a c)
  (hstep : ∀ {input shared thread shared' thread' spawned}, P.step input shared thread =
    some (shared', thread', spawned) → R shared shared')
include hrefl htrans hstep

/-- A reflexive and transitive relation that every step respects. -/
theorem le_last (run : P.Run init ts s) {k : Nat} (hk : ts[k]? = some e) :
    R e.after.shared s.shared := by
  refine run.since (fun s => R e.after.shared s.shared) hk (hrefl _) fun j e' _ hj hR => ?_
  have hmoves := run.moves hj
  generalize e'.before = s₁ at hmoves hR
  generalize e'.action = b at hmoves
  generalize e'.after = s₂ at hmoves
  cases hmoves with
  | call request => exact hR
  | step _ heq => exact htrans hR (hstep heq)

theorem between (run : P.Run init ts s) {j k : Nat} (hj : ts[j]? = some e) (hk : ts[k]? = some e')
    (hjk : j < k) : R e.after.shared e'.before.shared := by
  refine le_last R hrefl htrans hstep (run.upTo hk).1 (k := j) ?_
  rw [List.getElem?_take_of_lt hjk, hj]

end Relations

variable {e' : Transition (Pool σ τ) (Act ρ ι)}

section Threads

variable (K : τ → Prop) (hstep : ∀ {input shared thread shared' thread' spawned}, K thread →
  P.step input shared thread = some (shared', thread', spawned) → K thread')
include hstep

/-- A thread that satisfies `K` after step `k` does so at the end, if its own steps keep `K`. -/
theorem thread_last (run : P.Run init ts s) {k id : Nat} (hk : ts[k]? = some e)
    (h : ∃ thread, e.after.threads[id]? = some thread ∧ K thread) :
    ∃ thread, s.threads[id]? = some thread ∧ K thread := by
  refine run.since (fun s => ∃ thread, s.threads[id]? = some thread ∧ K thread) hk h ?_
  rintro j e' - hj ⟨thread, hthread, hK⟩
  obtain ⟨thread', hthread', rfl | ⟨input, spawned, -, heq⟩⟩ := (run.moves hj).thread hthread
  · exact ⟨thread', hthread', hK⟩
  · exact ⟨thread', hthread', hstep hK heq⟩

theorem thread_between (run : P.Run init ts s) {j k id : Nat} (hj : ts[j]? = some e)
    (hk : ts[k]? = some e') (hjk : j < k)
    (h : ∃ thread, e.after.threads[id]? = some thread ∧ K thread) :
    ∃ thread, e'.before.threads[id]? = some thread ∧ K thread := by
  refine thread_last K hstep (run.upTo hk).1 (k := j) ?_ h
  rw [List.getElem?_take_of_lt hjk, hj]

end Threads

/-- A thread that takes part in step `j` is there in step `k`, if that is no earlier. -/
theorem exists_thread (run : P.Run init ts s) {j k id : Nat} {u : τ} (hj : ts[j]? = some e)
    (hk : ts[k]? = some e') (hjk : j ≤ k) (hu : e.before.threads[id]? = some u) :
    ∃ thread, e'.before.threads[id]? = some thread := by
  rcases Nat.eq_or_lt_of_le hjk with rfl | hlt
  · cases hj.symm.trans hk
    exact ⟨u, hu⟩
  · obtain ⟨u', hu', -⟩ := (run.moves hj).thread hu
    obtain ⟨thread, hthread, -⟩ := thread_between (fun _ => True) (fun _ _ => trivial) run hj hk hlt
      ⟨u', hu', trivial⟩
    exact ⟨thread, hthread⟩

end Run

end Program

end FeatureFlags.Lib
