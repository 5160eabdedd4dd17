import FeatureFlags.Equiv.Versions

/-!
# States of a run

A run of `n` calls passes through `n + 1` states, numbered from 0 on.

* `stateAt`: the state after the first `k` calls.
* `Run.always`: what holds at the start and every call preserves holds in every state.
* `Run.between`: what holds in the state `i`, and the calls after it preserve, holds in the states
  after it.
-/

namespace FeatureFlags

open Go Lib

variable {κ : Type}

/-- The state after the first `k` calls of a run that ends in `s`. -/
def stateAt (events : List (Event κ)) (s : TenantState κ) (k : Nat) : TenantState κ :=
  (events[k]?.map Event.before).getD s

theorem stateAt_length (events : List (Event κ)) (s : TenantState κ) :
    stateAt events s events.length = s := by
  simp [stateAt]

theorem stateAt_of_getElem? {events : List (Event κ)} {k : Nat} {e : Event κ}
    (hk : events[k]? = some e) (s : TenantState κ) : stateAt events s k = e.before := by
  simp [stateAt, hk]

theorem stateAt_concat (events : List (Event κ)) (e : Event κ) {k : Nat}
    (hk : k ≤ events.length) : stateAt (events ++ [e]) e.after k = stateAt events e.before k := by
  rcases Nat.lt_or_eq_of_le hk with hlt | rfl
  · simp [stateAt, List.getElem?_append_left hlt, List.getElem?_eq_getElem hlt]
  · simp [stateAt]

variable [CustomStrategy κ] [Runtime] {limits : Limits} {tenant : Bytes} {events : List (Event κ)}
  {s : TenantState κ}

namespace Run

variable (run : Run limits tenant events s)
include run

theorem stateAt_zero : stateAt events s 0 = .empty := by
  induction run with
  | start => rfl
  | step run returns ih => rw [stateAt_concat _ _ (Nat.zero_le _), ih]

/-- The call `k` leads from the state `k` to the next. -/
theorem stateAt_succ {k : Nat} {e : Event κ}
    (hk : events[k]? = some e) : stateAt events s (k + 1) = e.after := by
  induction run with
  | start => simp at hk
  | step run returns ih =>
    rename_i events last
    have hlt := (List.getElem?_eq_some_iff.mp hk).1
    rw [List.length_append, List.length_singleton] at hlt
    rcases Nat.lt_or_eq_of_le (Nat.le_of_lt_succ hlt) with hlt | rfl
    · rw [List.getElem?_append_left hlt] at hk
      rw [stateAt_concat _ _ hlt]
      exact ih hk
    · rw [List.getElem?_concat_length, Option.some.injEq] at hk
      subst hk
      have hlast := stateAt_length (events ++ [last]) last.after
      rwa [List.length_append, List.length_singleton] at hlast

theorem returns_of_mem {e : Event κ} (he : e ∈ events) : e.Returns limits tenant := by
  induction run with
  | start => simp at he
  | step run returns ih =>
    rcases List.mem_append.mp he with he | he
    · exact ih he
    · rw [List.mem_singleton.mp he]
      exact returns

/-- What holds in the state `i` and the calls after it preserve holds in the states after it. -/
theorem between (P : TenantState κ → Prop) {i j : Nat}
    (hij : i ≤ j) (hj : j ≤ events.length) (hi : P (stateAt events s i))
    (hstep : ∀ (k : Nat) (e : Event κ), i ≤ k → k < j → events[k]? = some e → P e.before →
      P e.after) : P (stateAt events s j) := by
  induction j, hij using Nat.le_induction with
  | base => exact hi
  | succ j hij ih =>
    have hget := List.getElem?_eq_getElem (Nat.lt_of_succ_le hj)
    rw [run.stateAt_succ hget]
    refine hstep j _ hij (Nat.lt_succ_self j) hget ?_
    rw [← stateAt_of_getElem? hget s]
    exact ih (Nat.le_of_succ_le hj) fun k e hik hkj => hstep k e hik (Nat.lt_succ_of_lt hkj)

/-- What holds at the start and every call preserves holds in every state. -/
theorem always (P : TenantState κ → Prop) (hempty : P .empty)
    (hstep : ∀ e ∈ events, P e.before → P e.after) {k : Nat} (hk : k ≤ events.length) :
    P (stateAt events s k) := by
  refine run.between P (Nat.zero_le k) hk (run.stateAt_zero ▸ hempty) ?_
  exact fun j e _ _ hj => hstep e (List.mem_of_getElem? hj)

theorem exists_stateAt {e : Event κ} (he : e ∈ events) :
    ∃ k < events.length, stateAt events s k = e.before ∧ stateAt events s (k + 1) = e.after := by
  obtain ⟨k, hk⟩ := List.mem_iff_getElem?.mp he
  exact ⟨k, (List.getElem?_eq_some_iff.mp hk).1, stateAt_of_getElem? hk s, run.stateAt_succ hk⟩

omit [CustomStrategy κ] [Runtime] in
/-- The state after the calls. -/
def lastState (events : List (Event κ)) : TenantState κ :=
  (events.getLast?.map Event.after).getD .empty

theorem lastState_eq : lastState events = s := by
  cases run with
  | start => rfl
  | step run returns => simp [lastState]

end Run

/-- Calls that do not panic make a run that ends in the state after them. -/
theorem run_of_calls (limits : Limits) (tenant : Bytes) (ord : MapOrder) (ctx : Ctx)
    (calls : List (Call κ))
    (h : ∀ e ∈ performAll limits tenant ord ctx calls .empty, e.panics = false) :
    Run limits tenant (performAll limits tenant ord ctx calls .empty)
      (Run.lastState (performAll limits tenant ord ctx calls .empty)) := by
  obtain ⟨s, hs⟩ := run_performAll ord ctx calls (Run.start : Run limits tenant [] .empty) h
  rw [List.nil_append] at hs
  rwa [hs.lastState_eq]

end FeatureFlags
