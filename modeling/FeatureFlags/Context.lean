import FeatureFlags.Go.Time
import FeatureFlags.Value

/-!
# Evaluation context

`context.go`: the caller-supplied data of an evaluation and its bounds.
-/

namespace FeatureFlags

open Go

/-- Caller-supplied evaluation data. -/
structure Context where
  subject : Bytes
  tenant : Bytes
  environment : Bytes
  attributes : GoMap Bytes
  facts : GoMap Value
  time : Time
deriving DecidableEq

/-- The zero `Context`. -/
def Context.empty : Context := ⟨[], [], [], ∅, ∅, .zero⟩

def Context.validate (ord : MapOrder) (limits : Limits) (c : Context) : Except GoError Unit := do
  rejectIf
    (len c.subject > limits.maxContextValueBytes ∨ len c.tenant > limits.maxContextValueBytes ∨
      len c.environment > limits.maxContextValueBytes)
    (.wrapf "context identity exceeds %d bytes: %w" [.d limits.maxContextValueBytes]
      (.sentinel .contextLimit))
  rejectIf (c.attributes.len > limits.maxAttributes)
    (.wrapf "attributes count %d exceeds %d: %w" [.d c.attributes.len, .d limits.maxAttributes]
      (.sentinel .contextLimit))
  rejectIf (c.facts.len > limits.maxFacts)
    (.wrapf "facts count %d exceeds %d: %w" [.d c.facts.len, .d limits.maxFacts]
      (.sentinel .contextLimit))
  forEach (c.attributes.range ord) fun (key, value) =>
    rejectIf (len key > limits.maxContextKeyBytes ∨ len value > limits.maxContextValueBytes)
      (.wrapf "attribute size exceeds configured bounds: %w" [] (.sentinel .contextLimit))
  forEach (c.facts.range ord) fun (key, value) => do
    rejectIf (len key > limits.maxContextKeyBytes)
      (.wrapf "fact key exceeds %d bytes: %w" [.d limits.maxContextKeyBytes]
        (.sentinel .contextLimit))
    (value.validate limits).mapError (.wrapf "fact value: %w" [])

end FeatureFlags
