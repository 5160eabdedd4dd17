import FeatureFlags.Context

/-!
# Values as `reflect` shows them

Go values of any type: scalars of declared types, interfaces, pointers, maps, slices and arrays, and
what they refer to.

* `TypeInfo`: what `reflect.Type` says of a type.  Types are numbers, so that a declared type can
  refer to itself.
* `Datum`: a value, without its type.  A pointer, map or slice is the address that
  `reflect.Value.Pointer` returns, and `Heap` says what is there: a value can contain itself.
* `Reflected`: a `reflect.Value`.
-/

namespace FeatureFlags

open Go

/-- `reflect.Kind`; structs, channels, functions, complex numbers and unsafe pointers are
`unsupported`. -/
inductive Kind where
  | bool
  | int
  | int8
  | int16
  | int32
  | int64
  | uint
  | uint8
  | uint16
  | uint32
  | uint64
  | uintptr
  | float32
  | float64
  | string
  | interface
  | pointer
  | map
  | slice
  | array
  | unsupported
deriving DecidableEq

/-- A signed integer. -/
def Kind.isInt : Kind → Bool
  | .int | .int8 | .int16 | .int32 | .int64 => true
  | _ => false

/-- An unsigned integer. -/
def Kind.isUint : Kind → Bool
  | .uint | .uint8 | .uint16 | .uint32 | .uint64 | .uintptr => true
  | _ => false

/-- A floating-point number. -/
def Kind.isFloat : Kind → Bool
  | .float32 | .float64 => true
  | _ => false

/-- The types that the code tells apart by name. -/
inductive TypeName where
  /-- The predeclared type of a kind, such as `int8` or `string`. -/
  | predeclared
  /-- `json.RawMessage`. -/
  | rawMessage
  /-- `json.Number`, a string type without methods for the encoder. -/
  | number
  /-- `time.Time`. -/
  | time
  | other
deriving DecidableEq

structure TypeInfo where
  kind : Kind
  name : TypeName
  /-- `Elem()` of a pointer, map, slice or array type. -/
  elem : Nat
  /-- `Key()` of a map type. -/
  key : Nat
  /-- The type implements `json.Marshaler`. -/
  json : Bool
  /-- The type implements `encoding.TextMarshaler`. -/
  text : Bool
  /-- The pointer type to it implements `json.Marshaler`. -/
  pointerJson : Bool
  /-- The pointer type to it implements `encoding.TextMarshaler`. -/
  pointerText : Bool
deriving DecidableEq

/-- The types of a program. -/
abbrev Types := Nat → TypeInfo

/-- A value.  Integers are in 64 bits, a `float32` is the `float64` of the same value. -/
inductive Datum where
  | bool (value : Bool)
  | int (value : Int64)
  | uint (value : UInt64)
  | float (value : Float64)
  | string (value : Bytes)
  /-- A `time.Time`. -/
  | time (value : Time)
  /-- A nil interface. -/
  | nilInterface
  /-- An interface with its dynamic type and value. -/
  | interface (type : Nat) (content : Datum)
  | nilPointer
  | pointer (address : Nat)
  | nilMap
  | map (address : Nat)
  | nilSlice
  | slice (address length : Nat)
  | array (items : List Datum)
  /-- A value of another kind. -/
  | other

/-- What is in memory. -/
structure Heap where
  /-- What a pointer of the type points to. -/
  pointee : Nat → Nat → Datum
  /-- The entries of a map with string keys, in the order in which `MapRange` visits them. -/
  entries : Nat → List (Bytes × Datum)
  /-- The element of a slice of the type with the index. -/
  item : Nat → Nat → Nat → Datum

/-- The elements of a slice. -/
def Heap.items (heap : Heap) (type address length : Nat) : List Datum :=
  (List.range length).map (heap.item type address)

/-- A `reflect.Value`: its type and its value; `none` is the zero `Value`, which is what
`reflect.ValueOf(nil)` returns. -/
abbrev Reflected := Option (Nat × Datum)

/-- The loop that takes the dynamic value out of an interface; `none` for a nil interface. -/
def unwrap (types : Types) : Nat → Datum → Option (Nat × Datum)
  | type, .nilInterface =>
    if (types type).kind = .interface then none else some (type, .nilInterface)
  | type, .interface dynamic content =>
    if (types type).kind = .interface then unwrap types dynamic content
    else some (type, .interface dynamic content)
  | type, value => some (type, value)

end FeatureFlags
