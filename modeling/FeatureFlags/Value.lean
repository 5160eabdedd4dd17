import FeatureFlags.Go.Json
import FeatureFlags.Errors
import FeatureFlags.Limits

/-!
# Values

The typed values of `value.go`.  The Go struct has a type tag and one field per representation, and
only the constructors and the zero value set them: here a value is one of the six representations or
`Value.zero`, which has no valid type.
-/

namespace FeatureFlags

open Go

/-! ### Types -/

/-- The names of the six value types. -/
def typeNames : List Bytes :=
  [str "boolean", str "string", str "integer", str "float", str "decimal", str "structured"]

/-- `Type`, a string type: the six constants and every other name. -/
inductive ValueType where
  | boolean
  | string
  | integer
  | float
  | decimal
  | structured
  | other (name : Bytes) (h : name ∉ typeNames)
deriving DecidableEq

/-- The string that a type is. -/
def ValueType.name : ValueType → Bytes
  | .boolean => str "boolean"
  | .string => str "string"
  | .integer => str "integer"
  | .float => str "float"
  | .decimal => str "decimal"
  | .structured => str "structured"
  | .other name _ => name

/-- The type that a string is. -/
def ValueType.ofName (name : Bytes) : ValueType :=
  if h : name ∉ typeNames then .other name h
  else if name = str "boolean" then .boolean
  else if name = str "string" then .string
  else if name = str "integer" then .integer
  else if name = str "float" then .float
  else if name = str "decimal" then .decimal
  else .structured

@[simp] theorem ValueType.ofName_name (t : ValueType) : ofName t.name = t := by
  cases t with
  | other name h => simp [ofName, ValueType.name, h]
  | _ => decide

/-! ### Floating point -/

/-- A `float64`, given by its IEEE 754 bits. -/
structure Float64 where
  /-- Sign, eleven bits of exponent, fifty-two bits of fraction. -/
  bits : UInt64
deriving DecidableEq

namespace Float64

/-- The exponent field is all ones. -/
def special (f : Float64) : Bool := f.bits >>> 52 &&& 0x7FF == 0x7FF

/-- The fraction field. -/
def fraction (f : Float64) : UInt64 := f.bits &&& 0xFFFFFFFFFFFFF

def isNaN (f : Float64) : Bool := f.special && f.fraction != 0

/-- `math.IsInf(f, 0)`. -/
def isInf (f : Float64) : Bool := f.special && f.fraction == 0

/-- Positive or negative zero. -/
def isZero (f : Float64) : Bool := f.bits &&& 0x7FFFFFFFFFFFFFFF == 0

/-- Go's `==` on `float64`: NaN equals nothing and the two zeros are equal. -/
def equal (f g : Float64) : Bool :=
  !f.isNaN && !g.isNaN && (f.bits == g.bits || f.isZero && g.isZero)

end Float64

/-! ### Values -/

/-- Immutable typed data. -/
inductive Value where
  /-- The zero `Value`. -/
  | zero
  | boolean (value : Bool)
  | string (value : Bytes)
  | integer (value : Int64)
  | float (value : Float64)
  | decimal (value : Bytes)
  | structured (value : Bytes)
deriving DecidableEq

namespace Value

/-- The stored type; the zero value has the empty one. -/
def type : Value → ValueType
  | .zero => .other [] (by decide)
  | .boolean _ => .boolean
  | .string _ => .string
  | .integer _ => .integer
  | .float _ => .float
  | .decimal _ => .decimal
  | .structured _ => .structured

/-- `equal`: same type and same payload; structured values are compared byte by byte. -/
def equal : Value → Value → Bool
  | .boolean a, .boolean b => a == b
  | .string a, .string b => a == b
  | .decimal a, .decimal b => a == b
  | .integer a, .integer b => a == b
  | .float a, .float b => a.equal b
  | .structured a, .structured b => a == b
  | _, _ => false

/-- `decimalPattern`: `-?(0|[1-9][0-9]*)(\.[0-9]+)?`. -/
def isDecimal (text : Bytes) : Bool :=
  (do Json.afterFraction (← Json.afterInteger (Json.afterMinus text))) == some []

def validate (limits : Limits) : Value → Except GoError Unit
  | .boolean _ => .ok ()
  | .integer _ => .ok ()
  | .string text =>
    rejectIf (len text > limits.maxStringBytes)
      (.wrapf "string exceeds %d bytes: %w" [.d limits.maxStringBytes] (.sentinel .invalidValue))
  | .float f =>
    rejectIf (f.isNaN ∨ f.isInf) (.wrapf "float must be finite: %w" [] (.sentinel .invalidValue))
  | .decimal text =>
    rejectIf (len text > limits.maxStringBytes ∨ ¬ isDecimal text)
      (.wrapf "decimal is not canonical: %w" [] (.sentinel .invalidValue))
  | .structured raw => do
    rejectIf (len raw > limits.maxStructuredBytes)
      (.wrapf "structured value exceeds %d bytes: %w" [.d limits.maxStructuredBytes]
        (.sentinel .invalidValue))
    rejectIf (¬ Json.valid raw)
      (.wrapf "structured value is not valid JSON: %w" [] (.sentinel .invalidValue))
  | .zero => .error (.wrapf "unknown type %q: %w" [.q []] (.sentinel .invalidValue))

/-- What `validate` accepts. -/
def Valid (limits : Limits) : Value → Prop
  | .boolean _ => True
  | .integer _ => True
  | .string text => len text ≤ limits.maxStringBytes
  | .float f => f.isNaN = false ∧ f.isInf = false
  | .decimal text => len text ≤ limits.maxStringBytes ∧ isDecimal text = true
  | .structured raw => len raw ≤ limits.maxStructuredBytes ∧ Json.valid raw = true
  | .zero => False

theorem validate_eq_ok_iff {limits : Limits} {v : Value} {u : Unit} :
    v.validate limits = .ok u ↔ v.Valid limits := by
  cases v <;> simp [validate, Valid]

end Value

end FeatureFlags
