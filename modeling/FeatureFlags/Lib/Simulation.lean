import Mathlib.Tactic.Common

/-!
# Machines that answer requests

A machine is a function from a state and a request to an answer and the next state.

* `answers`: what a machine answers to a list of requests.
* `answers_eq_of_simulation`: machines whose states stay related, and that give the same answer in
  related states, answer alike.
-/

namespace FeatureFlags.Lib

variable {σ τ α β : Type}

/-- What a machine answers, request by request. -/
def answers (step : σ → α → β × σ) : σ → List α → List β
  | _, [] => []
  | s, a :: rest => (step s a).1 :: answers step (step s a).2 rest

/-- Machines that stay related answer alike.  Only the requests with the property have to be
followed. -/
theorem answers_eq_of_simulation {step : σ → α → β × σ} {step' : τ → α → β × τ}
    (related : σ → τ → Prop) (Q : α → Prop)
    (follows : ∀ s t a, Q a → related s t →
      (step s a).1 = (step' t a).1 ∧ related (step s a).2 (step' t a).2)
    {s : σ} {t : τ} (hrelated : related s t) {requests : List α} (hQ : ∀ a ∈ requests, Q a) :
    answers step s requests = answers step' t requests := by
  induction requests generalizing s t with
  | nil => rfl
  | cons a rest ih =>
    have ⟨hanswer, hnext⟩ := follows s t a (hQ a List.mem_cons_self) hrelated
    have hrest := ih hnext fun b hb => hQ b (List.mem_cons_of_mem a hb)
    rw [answers, answers, hanswer, hrest]

end FeatureFlags.Lib
