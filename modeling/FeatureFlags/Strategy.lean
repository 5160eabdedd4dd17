import FeatureFlags.Context

/-!
# Strategies

The `Strategy` interface and the six built-in policies of `strategy.go`, `strategy_sets.go`,
`strategy_time.go` and `strategy_fact.go`.

`Strategy κ` is an interface value: one of the built-in structs, or a value of an application's own
type, collected in `κ` with the interface's methods (`CustomStrategy`).  `κ := Empty` is a program
with built-in strategies only.  What the package takes from the operating system or from libraries
outside it (the time zone database, SHA-256, the decimal form of a `float64`) is a `Runtime`.
-/

namespace FeatureFlags

open Go

/-! ### The runtime -/

/-- The parts of the standard library that stay abstract, with what is documented of them. -/
class Runtime where
  /-- `time.LoadLocation`. -/
  loadLocation : Bytes → Except GoError Location
  /-- `sha256.Sum256`. -/
  sha256 : Bytes → Bytes
  /-- `strconv.AppendFloat` as `encoding/json` calls it: the shortest text that denotes the value.
  -/
  formatFloat : Float64 → Bytes
  /-- `strconv.ParseFloat` of a JSON number; `none` is a range error. -/
  parseFloat : Bytes → Option Float64
  /-- A finite value is written as a JSON number. -/
  isNumber_formatFloat : ∀ f, f.isNaN = false → f.isInf = false →
    Json.isNumber (formatFloat f) = true
  /-- The written text denotes the value. -/
  parseFloat_formatFloat : ∀ f, f.isNaN = false → f.isInf = false →
    parseFloat (formatFloat f) = some f

/-- A runtime with one time zone, no hashing and floats in unary, to evaluate examples that use none
of them. -/
@[reducible] def unaryRuntime : Runtime where
  loadLocation _ := .ok ⟨fun _ => 0⟩
  sha256 := id
  formatFloat f := List.replicate (f.bits.toNat + 1) 49
  parseFloat text := some ⟨UInt64.ofNat (text.length - 1)⟩
  isNumber_formatFloat f _ _ := by
    have hdrop (n : Nat) : (List.replicate n (49 : UInt8)).dropWhile Json.isDigit = [] := by
      rw [List.dropWhile_eq_nil_iff]
      intro c hc
      rw [List.eq_of_mem_replicate hc]
      decide
    rw [List.replicate_succ]
    simp [Json.isNumber, Json.afterMinus, Json.afterInteger, Json.afterDigits, Json.afterFraction,
      Json.afterExponent, hdrop, show Json.isDigit 49 = true from rfl]
  parseFloat_formatFloat f _ _ := by simp

/-! ### Results -/

/-- `Reason`, a string type; `unset` is the empty string. -/
inductive Reason where
  | unset
  | targetingMatch
  | rollout
  | schedule
  | dependencyFailed
  | groupMatch
  | default
  | inactive
  | degradedFailOpen
  | degradedDefault
  | degradedLastKnownGood
  | other (label : Bytes)
deriving DecidableEq

/-- Selected evaluation information. -/
structure Diagnostic where
  code : Bytes
  message : Bytes
deriving DecidableEq

structure StrategyInput where
  featureKey : Bytes
  context : Context

/-- Whether a strategy selected its target variant. -/
structure StrategyResult where
  matched : Bool
  reason : Reason
  diagnostics : List Diagnostic
deriving DecidableEq

/-! ### Built-in strategies -/

/-- Matches explicitly listed identities and attributes. -/
structure ExactTargetStrategy where
  name : Bytes
  variant : Bytes
  tenants : List Bytes
  subjects : List Bytes
  environments : List Bytes
  attributes : GoMap Bytes
deriving DecidableEq

/-- Selects a stable fraction of tenant-scoped subjects. -/
structure PercentageStrategy where
  name : Bytes
  variant : Bytes
  seed : Bytes
  threshold : UInt32
deriving DecidableEq

/-- Allow and deny sets; deny wins. -/
structure SetStrategy where
  name : Bytes
  variant : Bytes
  allowTenants : List Bytes
  denyTenants : List Bytes
  allowSubjects : List Bytes
  denySubjects : List Bytes
deriving DecidableEq

/-- An explicit half-open interval; a zero bound is unbounded. -/
structure TimeWindowStrategy where
  name : Bytes
  variant : Bytes
  notBefore : Time
  notAfter : Time
deriving DecidableEq

/-- A local-time half-open interval, continued into the next day if it ends before it starts. -/
structure WeeklyWindow where
  weekday : Int
  startMinute : Int
  endMinute : Int
deriving DecidableEq

/-- Recurring weekly windows in a named time zone. -/
structure ScheduleStrategy where
  name : Bytes
  variant : Bytes
  location : Bytes
  windows : List WeeklyWindow
deriving DecidableEq

/-- Strict equality with one typed fact. -/
structure FactStrategy where
  name : Bytes
  variant : Bytes
  fact : Bytes
  equals : Value
deriving DecidableEq

/-- A value of the `Strategy` interface. -/
inductive Strategy (κ : Type) where
  | exactTarget (s : ExactTargetStrategy)
  | percentage (s : PercentageStrategy)
  | set (s : SetStrategy)
  | timeWindow (s : TimeWindowStrategy)
  | schedule (s : ScheduleStrategy)
  | fact (s : FactStrategy)
  | custom (s : κ)
deriving DecidableEq

/-- The methods of an application's own strategies.  A nil interface value is one for which `isNil`
holds. -/
class CustomStrategy (κ : Type) where
  isNil : κ → Bool
  strategyName : κ → Bytes
  targetVariant : κ → Bytes
  validateStrategy : Limits → κ → Except GoError Unit
  evaluateStrategy : StrategyInput → κ → Except GoError StrategyResult
  snapshotStrategy : κ → Strategy κ

/-- No custom strategies. -/
instance : CustomStrategy Empty where
  isNil := Empty.elim
  strategyName := Empty.elim
  targetVariant := Empty.elim
  validateStrategy _ := Empty.elim
  evaluateStrategy _ := Empty.elim
  snapshotStrategy := Empty.elim

/-! ### Validation -/

def validateTargetValues (limits : Limits) (sets : List (List Bytes)) : Except GoError Unit := do
  forEach sets fun values =>
    forEach values fun value =>
      rejectIf (value = [] ∨ len value > limits.maxContextValueBytes)
        (.errorf "target value exceeds configured bounds" [])
  rejectIf ((sets.map len).sum > limits.maxTargetValues)
    (.errorf "target values exceed limit %d" [.d limits.maxTargetValues])

/-- `ExactTargetStrategy.ValidateStrategy`.  Every attribute is refused with the same text, so the
order of the `range` loop does not show. -/
def ExactTargetStrategy.validateStrategy (limits : Limits) (s : ExactTargetStrategy) :
    Except GoError Unit := do
  validateTargetValues limits [s.tenants, s.subjects, s.environments]
  rejectIf (s.attributes.len > limits.maxAttributes)
    (.errorf "attributes exceed limit %d" [.d limits.maxAttributes])
  forEach s.attributes.toList fun (key, value) =>
    rejectIf
      (key = [] ∨ len key > limits.maxContextKeyBytes ∨ len value > limits.maxContextValueBytes)
      (.errorf "attribute target exceeds configured bounds" [])

def bucketPrecision : Nat := 100000

def PercentageStrategy.validateStrategy (s : PercentageStrategy) : Except GoError Unit :=
  rejectIf (s.threshold.toNat > bucketPrecision)
    (.errorf "threshold %d exceeds precision %d" [.d s.threshold.toNat, .d bucketPrecision])

def SetStrategy.validateStrategy (limits : Limits) (s : SetStrategy) : Except GoError Unit :=
  validateTargetValues limits [s.allowTenants, s.denyTenants, s.allowSubjects, s.denySubjects]

def TimeWindowStrategy.validateStrategy (s : TimeWindowStrategy) : Except GoError Unit := do
  rejectIf (s.notBefore.isZero ∧ s.notAfter.isZero)
    (.errorf "at least one time boundary is required" [])
  rejectIf (¬ s.notBefore.isZero ∧ ¬ s.notAfter.isZero ∧ ¬ s.notBefore.before s.notAfter)
    (.errorf "not-before must precede not-after" [])

def ScheduleStrategy.validateStrategy [Runtime] (limits : Limits) (s : ScheduleStrategy) :
    Except GoError Unit := do
  rejectIf (s.location = []) (.errorf "location is required" [])
  let _ ← (Runtime.loadLocation s.location).mapError (.wrapf "load location: %w" [])
  rejectIf (len s.windows = 0) (.errorf "at least one weekly window is required" [])
  rejectIf (len s.windows > limits.maxScheduleWindows)
    (.errorf "weekly windows exceed limit %d" [.d limits.maxScheduleWindows])
  forEach s.windows.zipIdx fun (window, index) => do
    rejectIf (window.weekday < 0 ∨ window.weekday > 6)
      (.errorf "window %d has invalid weekday %d" [.d index, .d window.weekday])
    rejectIf
      (window.startMinute < 0 ∨ window.startMinute ≥ 24 * 60 ∨ window.endMinute < 0 ∨
        window.endMinute > 24 * 60 ∨ window.startMinute = window.endMinute)
      (.errorf "window %d has invalid minute range" [.d index])

def FactStrategy.validateStrategy (limits : Limits) (s : FactStrategy) : Except GoError Unit := do
  rejectIf (s.fact = []) (.errorf "fact name is required" [])
  rejectIf (s.equals.type.name = []) (.errorf "fact comparison value is required" [])
  (s.equals.validate limits).mapError (.wrapf "comparison value: %w" [])

/-! ### Evaluation -/

def listed (values : List Bytes) (candidate : Bytes) : Bool := values.contains candidate

def listedOrUnrestricted (values : List Bytes) (candidate : Bytes) : Bool :=
  values.isEmpty || listed values candidate

def matchesAttributes (required actual : GoMap Bytes) : Bool :=
  required.toList.all fun (key, value) => actual[key]? == some value

def ExactTargetStrategy.evaluateStrategy (s : ExactTargetStrategy) (input : StrategyInput) :
    StrategyResult where
  matched :=
    listedOrUnrestricted s.tenants input.context.tenant &&
      listedOrUnrestricted s.subjects input.context.subject &&
      listedOrUnrestricted s.environments input.context.environment &&
      matchesAttributes s.attributes input.context.attributes
  reason := .targetingMatch
  diagnostics := []

/-- The bytes that `Bucket` hashes for one part: the low 32 bits of its length, big-endian, and the
part itself. -/
def bucketPart (part : Bytes) : Bytes :=
  let n := part.length % 2 ^ 32
  [UInt8.ofNat (n / 2 ^ 24), UInt8.ofNat (n / 2 ^ 16), UInt8.ofNat (n / 2 ^ 8), UInt8.ofNat n] ++
    part

/-- What `Bucket` feeds to SHA-256. -/
def bucketInput (seed featureKey tenant subject : Bytes) : Bytes :=
  str "go-feature-flags/bucket/v1" ++ bucketPart seed ++ bucketPart featureKey ++
    bucketPart tenant ++ bucketPart subject

/-- `binary.BigEndian.Uint64` of the first eight bytes. -/
def bigEndian (digest : Bytes) : Nat := (digest.take 8).foldl (fun n b => n * 256 + b.toNat) 0

def bucket [Runtime] (seed featureKey tenant subject : Bytes) : Nat :=
  bigEndian (Runtime.sha256 (bucketInput seed featureKey tenant subject)) % bucketPrecision

def PercentageStrategy.evaluateStrategy [Runtime] (s : PercentageStrategy) (input : StrategyInput) :
    StrategyResult :=
  if input.context.tenant = [] ∨ input.context.subject = [] then
    { matched := false, reason := .rollout,
      diagnostics := [⟨str "missing_bucketing_identity",
        str "percentage rollout requires tenant and subject"⟩] }
  else
    { matched :=
        bucket s.seed input.featureKey input.context.tenant input.context.subject <
          s.threshold.toNat,
      reason := .rollout, diagnostics := [] }

def SetStrategy.evaluateStrategy (s : SetStrategy) (input : StrategyInput) : StrategyResult :=
  let denied :=
    listed s.denyTenants input.context.tenant || listed s.denySubjects input.context.subject
  let allowed :=
    listedOrUnrestricted s.allowTenants input.context.tenant &&
      listedOrUnrestricted s.allowSubjects input.context.subject
  { matched := allowed && !denied, reason := .targetingMatch, diagnostics := [] }

def TimeWindowStrategy.evaluateStrategy (s : TimeWindowStrategy) (input : StrategyInput) :
    StrategyResult :=
  let now := input.context.time
  if now.isZero then
    { matched := false, reason := .schedule,
      diagnostics := [⟨str "missing_evaluation_time",
        str "time strategy requires explicit context time"⟩] }
  else
    { matched :=
        (s.notBefore.isZero ∨ ¬ now.before s.notBefore) ∧
          (s.notAfter.isZero ∨ now.before s.notAfter),
      reason := .schedule, diagnostics := [] }

def weeklyWindowMatches (window : WeeklyWindow) (weekday minute : Int) : Bool :=
  if window.startMinute < window.endMinute then
    weekday = window.weekday ∧ minute ≥ window.startMinute ∧ minute < window.endMinute
  else if window.startMinute = window.endMinute then false
  else if weekday = window.weekday ∧ minute ≥ window.startMinute then true
  else weekday = (window.weekday + 1).tmod 7 ∧ minute < window.endMinute

def ScheduleStrategy.evaluateStrategy [Runtime] (s : ScheduleStrategy) (input : StrategyInput) :
    Except GoError StrategyResult :=
  let now := input.context.time
  if now.isZero then
    .ok { matched := false, reason := .schedule,
          diagnostics := [⟨str "missing_evaluation_time",
            str "schedule requires explicit context time"⟩] }
  else do
    let location ← (Runtime.loadLocation s.location).mapError (.wrapf "load location: %w" [])
    let matched := s.windows.any fun window =>
      weeklyWindowMatches window (now.weekday location) (now.minuteOfDay location)
    return { matched, reason := .schedule, diagnostics := [] }

def FactStrategy.evaluateStrategy (s : FactStrategy) (input : StrategyInput) : StrategyResult :=
  match input.context.facts[s.fact]? with
  | none =>
    { matched := false, reason := .targetingMatch,
      diagnostics := [⟨str "missing_fact", str "required typed fact is absent"⟩] }
  | some value => { matched := value.equal s.equals, reason := .targetingMatch, diagnostics := [] }

/-! ### The interface -/

namespace Strategy

variable {κ : Type} [CustomStrategy κ]

/-- `strategy == nil`. -/
def isNil : Strategy κ → Bool
  | .custom s => CustomStrategy.isNil s
  | _ => false

def strategyName : Strategy κ → Bytes
  | .exactTarget s => s.name
  | .percentage s => s.name
  | .set s => s.name
  | .timeWindow s => s.name
  | .schedule s => s.name
  | .fact s => s.name
  | .custom s => CustomStrategy.strategyName s

def targetVariant : Strategy κ → Bytes
  | .exactTarget s => s.variant
  | .percentage s => s.variant
  | .set s => s.variant
  | .timeWindow s => s.variant
  | .schedule s => s.variant
  | .fact s => s.variant
  | .custom s => CustomStrategy.targetVariant s

def validateStrategy [Runtime] (limits : Limits) : Strategy κ → Except GoError Unit
  | .exactTarget s => s.validateStrategy limits
  | .percentage s => s.validateStrategy
  | .set s => s.validateStrategy limits
  | .timeWindow s => s.validateStrategy
  | .schedule s => s.validateStrategy limits
  | .fact s => s.validateStrategy limits
  | .custom s => CustomStrategy.validateStrategy limits s

def evaluateStrategy [Runtime] (input : StrategyInput) :
    Strategy κ → Except GoError StrategyResult
  | .exactTarget s => .ok (s.evaluateStrategy input)
  | .percentage s => .ok (s.evaluateStrategy input)
  | .set s => .ok (s.evaluateStrategy input)
  | .timeWindow s => .ok (s.evaluateStrategy input)
  | .schedule s => s.evaluateStrategy input
  | .fact s => .ok (s.evaluateStrategy input)
  | .custom s => CustomStrategy.evaluateStrategy input s

/-- `SnapshotStrategy`: the built-in ones copy their slices and maps. -/
def snapshotStrategy : Strategy κ → Strategy κ
  | .custom s => CustomStrategy.snapshotStrategy s
  | s => s

end Strategy

end FeatureFlags
