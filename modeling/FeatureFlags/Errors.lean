import FeatureFlags.Go.Basic

/-!
# Errors

An error is a sentinel of `provider.go`, `fleet.go` or `context`, a value from outside the package,
a text built by `fmt.Errorf`, or two errors put together by `errors.Join`.  The format strings are
those of the source, so that two error sites are told apart by their text, and `GoError.is` is
`errors.Is` on the sentinels.
-/

namespace FeatureFlags

open Go

/-- The sentinel errors of the package, and the two of `context`. -/
inductive Sentinel where
  | alreadyExists
  | conflict
  | notFound
  | tenantRequired
  | tenantMismatch
  | contextLimit
  | dependencyCycle
  | batchLimit
  | groupCycle
  | groupInUse
  | invalidValue
  | importLimit
  | stateLimit
  | unsupportedStrategy
  | importConflict
  | storageConflict
  | noUsableSnapshot
  | malformedSnapshot
  | snapshotStale
  | snapshotFuture
  | unsafeFlagPolicy
  | refreshLoadLimit
  | refreshWaiterLimit
  | fleetStopped
  | snapshotReordered
  | invalidInvalidation
  | invalidationStreams
  | canceled
  | deadlineExceeded
deriving DecidableEq

/-- An argument of `fmt.Errorf`, by its verb. -/
inductive Arg where
  | q (s : Bytes)
  | s (s : Bytes)
  | d (n : Int)
deriving DecidableEq

/-- An error value. -/
inductive GoError where
  /-- A sentinel returned as it is. -/
  | sentinel (e : Sentinel)
  /-- An error of the caller's context, of a custom strategy, of the backend or of the standard
  library. -/
  | external (code : Nat)
  /-- `fmt.Errorf` without `%w`. -/
  | errorf (format : String) (args : List Arg)
  /-- `fmt.Errorf` with `%w`, which wraps `cause`. -/
  | wrapf (format : String) (args : List Arg) (cause : GoError)
  /-- `errors.Join` of two errors. -/
  | join (first second : GoError)
deriving DecidableEq

def GoError.is (target : Sentinel) : GoError → Bool
  | .sentinel e => e == target
  | .external _ => false
  | .errorf _ _ => false
  | .wrapf _ _ cause => cause.is target
  | .join first second => first.is target || second.is target

/-- The innermost error of a chain of `%w`. -/
def GoError.root : GoError → GoError
  | .wrapf _ _ cause => cause.root
  | e => e

end FeatureFlags
