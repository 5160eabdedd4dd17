import Mathlib.Tactic.Common

/-!
# Traces of a transition system

A trace lists the transitions of a run, oldest first.  The number of a transition is the time at
which it happens.

* `Trace.upTo`: the run up to a transition, and the transition itself.
* `Trace.invariant`, `Trace.along`: what holds at the start and is preserved holds at the end.
* `Trace.since`: what a transition establishes and the later ones preserve holds at the end.
* `play`: the trace of a list of actions, for a step that is a function.
-/

namespace FeatureFlags.Lib

universe u v

/-- A step of a run, with the states before and after it. -/
structure Transition (σ : Type u) (α : Type v) where
  before : σ
  action : α
  after : σ

/-- The runs from `init`, with their last state. -/
inductive Trace {σ : Type u} {α : Type v} (step : σ → α → σ → Prop) (init : σ) :
    List (Transition σ α) → σ → Prop
  | start : Trace step init [] init
  | snoc {ts : List (Transition σ α)} {s t : σ} {a : α} (run : Trace step init ts s)
      (next : step s a t) : Trace step init (ts ++ [⟨s, a, t⟩]) t

namespace Trace

variable {σ : Type u} {α : Type v} {step : σ → α → σ → Prop} {init s : σ}
  {ts : List (Transition σ α)}
  {k : Nat} {e : Transition σ α}

theorem invariant (P : σ → Prop) (h : Trace step init ts s) (hinit : P init)
    (hstep : ∀ s a t, P s → step s a t → P t) : P s := by
  induction h with
  | start => exact hinit
  | snoc _ next ih => exact hstep _ _ _ ih next

/-- The same for a property that mentions the run: its steps are those of the run. -/
theorem along (P : σ → Prop) (h : Trace step init ts s) (hinit : P init)
    (hstep : ∀ (k : Nat) (e : Transition σ α), ts[k]? = some e → P e.before → P e.after) : P s := by
  induction h with
  | start => exact hinit
  | snoc run next ih =>
    rename_i ts s t a
    have hbefore : P s := by
      refine ih fun k e hk => hstep k e ?_
      rw [List.getElem?_append_left]
      · exact hk
      · exact (List.getElem?_eq_some_iff.mp hk).1
    exact hstep ts.length ⟨s, a, t⟩ (by simp) hbefore

/-- The run before the transition `k`. -/
theorem upTo (h : Trace step init ts s) (hk : ts[k]? = some e) :
    Trace step init (ts.take k) e.before ∧ step e.before e.action e.after := by
  induction h with
  | start => simp at hk
  | snoc run next ih =>
    rename_i ts s t a
    rw [List.getElem?_append] at hk
    split_ifs at hk with hlt
    · rw [List.take_append_of_le_length (Nat.le_of_lt hlt)]
      exact ih hk
    · have hlen : k = ts.length := by
        have := (List.getElem?_eq_some_iff.mp hk).1
        simp only [List.length_cons, List.length_nil] at this
        omega
      subst hlen
      rw [Nat.sub_self, List.getElem?_cons_zero, Option.some.injEq] at hk
      subst hk
      rw [List.take_left']
      · exact ⟨run, next⟩
      · rfl

/-- What the transition `k` establishes, and the later ones preserve, holds at the end. -/
theorem since (P : σ → Prop) (h : Trace step init ts s) (hk : ts[k]? = some e) (hP : P e.after)
    (hstep : ∀ j e', k < j → ts[j]? = some e' → P e'.before → P e'.after) : P s := by
  induction h with
  | start => simp at hk
  | snoc run next ih =>
    rename_i ts s t a
    rw [List.getElem?_append] at hk
    split_ifs at hk with hlt
    · have hbefore : P s := by
        refine ih hk fun j e' hj he' => hstep j e' hj ?_
        rw [List.getElem?_append_left]
        · exact he'
        · exact (List.getElem?_eq_some_iff.mp he').1
      exact hstep ts.length ⟨s, a, t⟩ hlt (by simp) hbefore
    · have hlen := (List.getElem?_eq_some_iff.mp hk).1
      simp only [List.length_cons, List.length_nil] at hlen
      rw [show k - ts.length = 0 by omega, List.getElem?_cons_zero, Option.some.injEq] at hk
      subst hk
      exact hP

end Trace

/-- Play actions from a state on, if each of them can be taken. -/
def play {σ : Type u} {α : Type v} (step : σ → α → Option σ) :
    σ → List α → Option (List (Transition σ α) × σ)
  | s, [] => some ([], s)
  | s, a :: actions =>
    match step s a with
    | none => none
    | some t => (play step t actions).map fun x => (⟨s, a, t⟩ :: x.1, x.2)

theorem map_action_of_play {σ : Type u} {α : Type v} {step : σ → α → Option σ} {s t : σ}
    {actions : List α} {us} (h : play step s actions = some (us, t)) :
    us.map Transition.action = actions := by
  induction actions generalizing us s with
  | nil =>
    cases h
    rfl
  | cons a actions ih =>
    rw [play] at h
    split at h
    · cases h
    · obtain ⟨⟨vs, v⟩, hplay, hvs⟩ := Option.map_eq_some_iff.mp h
      cases hvs
      rw [List.map_cons, ih hplay]

theorem trace_of_play {σ : Type u} {α : Type v} {step : σ → α → Option σ} {init s t : σ}
    {actions : List α} {ts us} (run : Trace (fun s a t => step s a = some t) init ts s)
    (h : play step s actions = some (us, t)) :
    Trace (fun s a t => step s a = some t) init (ts ++ us) t := by
  induction actions generalizing ts us s with
  | nil =>
    cases h
    rwa [List.append_nil]
  | cons a actions ih =>
    rw [play] at h
    split at h
    · cases h
    · rename_i u hstep
      obtain ⟨⟨vs, v⟩, hplay, hvs⟩ := Option.map_eq_some_iff.mp h
      cases hvs
      have := ih (.snoc run hstep) hplay
      rwa [List.append_assoc] at this

/-- The action of a step of a run that was played. -/
theorem action_eq {σ : Type u} {α : Type v} {ts : List (Transition σ α)} {actions : List α}
    {k : Nat} {e : Transition σ α} {a : α} (h : ts.map Transition.action = actions)
    (hk : ts[k]? = some e) (ha : actions[k]? = some a) : e.action = a := by
  rw [← h, List.getElem?_map, hk] at ha
  exact Option.some.inj ha

/-- Actions that can be taken one after the other make a run. -/
theorem exists_trace_of_play {σ : Type u} {α : Type v} {step : σ → α → Option σ} {init : σ}
    {actions : List α} {check : List (Transition σ α) × σ → Bool}
    (h : (play step init actions).any check = true) :
    ∃ ts s, Trace (fun s a t => step s a = some t) init ts s ∧
      ts.map Transition.action = actions ∧ check (ts, s) = true := by
  obtain ⟨⟨ts, s⟩, hplay, hcheck⟩ := (Option.any_eq_true _ _).mp h
  exact ⟨ts, s, trace_of_play .start hplay, map_action_of_play hplay, hcheck⟩

end FeatureFlags.Lib
