import FeatureFlags.Reflect
import FeatureFlags.Go.Decimal
import Mathlib.Data.List.Sort

/-!
# `encoding/json`: encoding any value

`json.Marshal` of a Go value: the dispatch on its type and what it writes for the kinds that the
structured facts of OpenFeature can have.

* `Types.method`: the method of the application that the encoder calls for a value, if any.  A value
  is addressable when it is behind a pointer or in a slice.
* `base64`: `base64.StdEncoding`.
* `encode`: the tree of the text that is written, and the methods that were called.  `levels` bounds
  the nesting, `unfinished` says that it was too small.  `depth` counts the arrays and objects
  around a value: the encoder opens none inside `maxNestingDepth` others, and counts what a method
  returns as well.

What the methods of an application return, and how floats are written, is outside (`Encoder`).
-/

namespace FeatureFlags

open Go Json

/-! ### Methods -/

/-- The two ways to encode a value by a method. -/
inductive Method where
  | marshalJSON
  | marshalText
deriving DecidableEq

/-- Neither a nil pointer nor a nil interface: the encoder calls no methods of these. -/
def Datum.present : Datum → Bool
  | .nilPointer | .nilInterface => false
  | _ => true

namespace Types

variable (types : Types)

/-- The pointer type to the type implements one of the interfaces. -/
def pointerMarshals (type : Nat) : Bool := (types type).pointerJson || (types type).pointerText

/-- The method that `newTypeEncoder` chooses for a value. -/
def method (addressable : Bool) (type : Nat) (value : Datum) : Option Method :=
  let info := types type
  let behind := addressable && info.kind ≠ .pointer
  if behind && info.pointerJson then some .marshalJSON
  else if info.json && value.present then some .marshalJSON
  else if behind && info.pointerText then some .marshalText
  else if info.text && value.present then some .marshalText
  else none

end Types

/-- What the encoder takes from outside. -/
structure Encoder where
  /-- `strconv.AppendFloat` as `encoding/json` calls it for the kind. -/
  formatFloat : Kind → Float64 → Bytes
  /-- `MarshalJSON` or `MarshalText` of a value of a type. -/
  call : Method → Nat → Datum → Except GoError Bytes
  /-- A finite value is written as a JSON number. -/
  isNumber_formatFloat : ∀ kind f, f.isNaN = false → f.isInf = false →
    isNumber (formatFloat kind f) = true

/-! ### Byte slices -/

/-- The alphabet of base64. -/
def base64Alphabet : Bytes := str "ABCDEFGHIJKLMNOPQRSTUVWXYZabcdefghijklmnopqrstuvwxyz0123456789+/"

/-- The character for six bits. -/
def base64Digit (n : Nat) : UInt8 := base64Alphabet.getD n 0x3D

/-- `base64.StdEncoding`: four characters for three bytes, padded with `=`. -/
def base64 : Bytes → Bytes
  | [] => []
  | [a] => [base64Digit (a.toNat / 4), base64Digit (a.toNat % 4 * 16), 0x3D, 0x3D]
  | [a, b] =>
    [base64Digit (a.toNat / 4), base64Digit (a.toNat % 4 * 16 + b.toNat / 16),
      base64Digit (b.toNat % 16 * 4), 0x3D]
  | a :: b :: c :: rest =>
    base64Digit (a.toNat / 4) :: base64Digit (a.toNat % 4 * 16 + b.toNat / 16) ::
      base64Digit (b.toNat % 16 * 4 + c.toNat / 64) :: base64Digit (c.toNat % 64) :: base64 rest

/-- The byte that an element of a byte slice is. -/
def Datum.byte : Datum → UInt8
  | .uint n => n.toUInt8
  | _ => 0

/-! ### Values -/

/-- How a walk over a value ends early. -/
inductive Stop where
  /-- It returns an error. -/
  | error (e : GoError)
  /-- An arithmetic operation leaves the range of `int`. -/
  | overflow
  /-- The bound on the nesting was too small. -/
  | unfinished
deriving DecidableEq

/-- A method that the encoder has called. -/
structure MethodCall where
  method : Method
  type : Nat
  value : Datum

/-- A part of the encoder, with the methods that were called. -/
abbrev Encoding := EStateM Stop (List MethodCall)

/-- The error for a value that the encoder does not support. -/
def unsupported : Encoding Tree := throw (.error (.errorf "json: unsupported value" []))

/-- The error for arrays and objects that are nested too deeply. -/
def tooDeep : Encoding Tree := throw (.error (.errorf "exceeded max depth" []))

/-- Write an array or an object inside so many others. -/
def nested (depth : Nat) (write : Encoding Tree) : Encoding Tree :=
  if depth < maxNestingDepth then write else tooDeep

/-- Call a method.  A JSON text is checked and compacted, another text is written as a string. -/
def callMethod (encoder : Encoder) (depth : Nat) (method : Method) (type : Nat) (value : Datum) :
    Encoding Tree := do
  modify (· ++ [⟨method, type, value⟩])
  match encoder.call method type value, method with
  | .error e, _ => throw (.error e)
  | .ok text, .marshalText => return .string (escapeString text)
  | .ok text, .marshalJSON =>
    match parse text with
    | some tree =>
      if depth + tree.depth ≤ maxNestingDepth then return compactTree tree else tooDeep
    | none => throw (.error (.errorf "json: error calling MarshalJSON" []))

/-- The text of a `json.Number`. -/
def numberText (s : Bytes) : Bytes := if s = [] then str "0" else s

/-- The entries of a map in the order of their keys. -/
def sortedEntries (entries : List (Bytes × Datum)) : List (Bytes × Datum) :=
  entries.insertionSort fun a b => (compare a.1 b.1).isLE = true

/-- The encoders for the kinds; `below` is the encoder for the values inside.  A struct, or a map
with other keys than strings, is not encoded here.  Keys of kind `string` are taken to be written
as they are, without a method of their type. -/
def encodeContent (types : Types) (heap : Heap) (encoder : Encoder)
    (below : Nat → Bool → Nat → Datum → Encoding Tree) (depth : Nat) (addressable : Bool)
    (type : Nat) (content : Datum) : Encoding Tree :=
  let info := types type
  match info.kind, content with
  | .bool, .bool b => return .scalar (if b then str "true" else str "false")
  | .string, .string s =>
    if info.name = .number then
      if isNumber (numberText s) then return .scalar (numberText s)
      else throw (.error (.errorf "json: invalid number literal, trying to marshal %q" [.q s]))
    else return .string (escapeString s)
  | .pointer, .nilPointer => return Tree.null
  | .pointer, .pointer address => below depth true info.elem (heap.pointee type address)
  | .map, .nilMap => return Tree.null
  | .map, .map address =>
    if (types info.key).kind = .string then nested depth do
      let members ← (sortedEntries (heap.entries address)).mapM fun x => do
        let tree ← below (depth + 1) false info.elem x.2
        return (escapeString x.1, tree)
      return mkObject members
    else unsupported
  | .slice, .nilSlice => return Tree.null
  | .slice, .slice address length =>
    if (types info.elem).kind = .uint8 then
      if types.pointerMarshals info.elem then nested depth do
        -- the elements are addressable, so that each is encoded by its method
        let trees ← (heap.items type address length).mapM (callMethod encoder (depth + 1)
          (if (types info.elem).pointerJson then .marshalJSON else .marshalText) info.elem)
        return mkArray trees
      else return .string (base64 ((heap.items type address length).map Datum.byte))
    else nested depth do
      let trees ← (heap.items type address length).mapM (below (depth + 1) true info.elem)
      return mkArray trees
  | .array, .array items => nested depth do
    let trees ← items.mapM (below (depth + 1) addressable info.elem)
    return mkArray trees
  | kind, .int n => if kind.isInt then return .scalar (decimalInt n.toInt) else unsupported
  | kind, .uint n => if kind.isUint then return .scalar (decimal n.toNat) else unsupported
  | kind, .float f =>
    if kind.isFloat ∧ f.isNaN = false ∧ f.isInf = false then
      return .scalar (encoder.formatFloat kind f)
    else unsupported
  | _, _ => unsupported

/-- The tree of the text that `json.Marshal` writes for a value. -/
def encode (types : Types) (heap : Heap) (encoder : Encoder) :
    Nat → Nat → Bool → Reflected → Encoding Tree
  | 0, _, _, _ => throw .unfinished
  | _ + 1, _, _, none => return Tree.null
  | levels + 1, depth, addressable, some (type, value) =>
    match unwrap types type value with
    | none => return Tree.null
    | some (dynamic, content) =>
      -- what is in an interface is not addressable
      let addressable := addressable && (types type).kind ≠ .interface
      match types.method addressable dynamic content with
      | some method => callMethod encoder depth method dynamic content
      | none =>
        encodeContent types heap encoder
          (fun depth addressable type value => encode types heap encoder levels depth addressable
            (some (type, value)))
          depth addressable dynamic content

/-- `json.Marshal`, for values whose nesting is at most `levels`. -/
def marshal (types : Types) (heap : Heap) (encoder : Encoder) (levels : Nat)
    (value : Reflected) : Encoding Bytes := do
  let tree ← encode types heap encoder levels 0 false value
  return tree.text

end FeatureFlags
