import FeatureFlags.Go.Json
import FeatureFlags.Go.Rfc3339

/-!
# `encoding/json` for Go types

A `Codec α` says how `json.Marshal` writes a value of a Go type and how a `json.Decoder` with
`DisallowUnknownFields` reads one.  Reading starts from an existing value, as in Go: a field that
occurs twice is read into what the first occurrence left, and `null` leaves most values alone.

* The codecs of strings, numbers, `json.RawMessage`, `time.Time`, slices, maps and pointers.
* `Record`: the fields of a struct, built with `Record.nil` and `Record.cons`; `Codec.struct` is the
  codec of a struct, as the nested product of its fields, and `Codec.iso` renames it to a structure.
* `marshal` and `decodeDocument`: whole texts.

A decoding error anywhere fails the whole call, so it is `none` and which error it is does not show.
-/

namespace FeatureFlags.Go

open Json

/-- How a Go type is written and read. -/
structure Codec (α : Type) where
  /-- The zero value. -/
  zero : α
  /-- What `omitempty` omits. -/
  isEmpty : α → Bool
  /-- What `Marshal` writes; `none` is an error. -/
  encode : α → Option Tree
  /-- Reads a value into an existing one; `none` is an error. -/
  decode : Tree → α → Option α

namespace Codec

variable {α β : Type}

/-! ### Scalars -/

/-- The scalar `null`. -/
def isNull : Tree → Bool
  | .scalar text => text == str "null"
  | _ => false

/-- `string`, and types whose kind is `string`. -/
def string : Codec Bytes where
  zero := []
  isEmpty s := s.isEmpty
  encode s := some (.string (escapeString s))
  decode t old :=
    match t with
    | .string raw => some (unquote raw)
    | t => if isNull t then some old else none

def bool : Codec Bool where
  zero := false
  isEmpty b := !b
  encode b := some (.scalar (if b then str "true" else str "false"))
  decode t old :=
    match t with
    | .scalar text =>
      if text = str "true" then some true
      else if text = str "false" then some false
      else if text = str "null" then some old
      else none
    | _ => none

/-- A signed integer type with values in `[-bound, bound)`. -/
def int (bound : Nat) : Codec Int where
  zero := 0
  isEmpty n := n == 0
  encode n := some (.scalar (decimalInt n))
  decode t old :=
    match t with
    | .scalar text => if text = str "null" then some old else parseInt bound text
    | _ => none

/-- An unsigned integer type with values below `bound`. -/
def uint (bound : Nat) : Codec Nat where
  zero := 0
  isEmpty n := n == 0
  encode n := some (.scalar (decimal n))
  decode t old :=
    match t with
    | .scalar text => if text = str "null" then some old else parseUint bound text
    | _ => none

/-- A floating-point type, given by how its numbers are written and read. -/
def number (zero : α) (isZero : α → Bool) (format : α → Option Bytes)
    (parse : Bytes → Option α) : Codec α where
  zero := zero
  isEmpty := isZero
  encode x := (format x).map .scalar
  decode t old :=
    match t with
    | .scalar text =>
      if text = str "null" then some old else if isNumber text then parse text else none
    | _ => none

/-- `json.RawMessage`: it is compacted when it is written and receives the text that is read.  The
empty one is nil. -/
def rawMessage : Codec Bytes where
  zero := []
  isEmpty raw := raw.isEmpty
  encode raw := if raw = [] then some .null else (parse raw).map compactTree
  decode t _ := some t.text

/-- `time.Time`: `MarshalJSON` refuses a year that does not have four digits and an offset of a day
or more. -/
def time : Codec ZonedTime where
  zero := .zero
  isEmpty _ := false
  encode t :=
    if t.year < 0 ∨ 9999 < t.year ∨ 24 * 60 ≤ (t.offset.tdiv 60).natAbs then none
    else some (.string (formatRFC3339Nano t))
  decode t old :=
    match t with
    | .string raw => parseRFC3339 raw
    | t => if isNull t then some old else none

/-! ### Slices, maps and pointers -/

/-- A slice while it is read: its length, and the elements that its array holds so far.  Reading
into a slice reuses the elements of the array, also those beyond the length. -/
structure Slice (α : Type) where
  store : List α
  length : Nat
deriving DecidableEq

/-- The elements of a slice. -/
def Slice.toList (s : Slice α) : List α := s.store.take s.length

/-- A slice with these elements. -/
def Slice.ofList (l : List α) : Slice α := ⟨l, l.length⟩

/-- Reads the items into the elements of an array. -/
def decodeItems (c : Codec α) : List Tree → List α → Option (List α)
  | [], store => some store
  | t :: ts, store => do
    let a ← c.decode t (store.headD c.zero)
    let rest ← decodeItems c ts store.tail
    return a :: rest

/-- `[]α`. -/
def slice (c : Codec α) : Codec (Slice α) where
  zero := ⟨[], 0⟩
  isEmpty s := s.toList.isEmpty
  encode s := if s.toList = [] then some .null else (s.toList.mapM c.encode).map mkArray
  decode t old :=
    match t with
    | .array _ [] => some ⟨[], 0⟩
    | .array _ items => (decodeItems c items old.store).map fun store => ⟨store, items.length⟩
    | t => if isNull t then some ⟨[], 0⟩ else none

/-- Reads the members into a map; an element is read into the zero value. -/
def decodeEntries (c : Codec α) : List (Bytes × Tree) → GoMap α → Option (GoMap α)
  | [], m => some m
  | (name, t) :: rest, m => do
    let a ← c.decode t c.zero
    decodeEntries c rest (m.insert (unquote name) a)

/-- `map[string]α`; the keys are written in order. -/
def map (c : Codec α) : Codec (GoMap α) where
  zero := ∅
  isEmpty m := m.isEmpty
  encode m :=
    if m.isEmpty then some .null
    else (m.toList.mapM fun x => (c.encode x.2).map fun t => (escapeString x.1, t)).map mkObject
  decode t old :=
    match t with
    | .object _ members => decodeEntries c members old
    | t => if isNull t then some ∅ else none

/-- `*α`. -/
def pointer (c : Codec α) : Codec (Option α) where
  zero := none
  isEmpty p := p.isNone
  encode p :=
    match p with
    | none => some .null
    | some a => c.encode a
  decode t old :=
    if isNull t then some none else (c.decode t (old.getD c.zero)).map some

/-! ### Structs -/

/-- The case folding of `encoding/json` on the names that can match a name of ASCII letters: small
letters become capitals, U+017F is an `S` and U+212A a `K`. -/
def foldName : Bytes → Bytes
  | [] => []
  | [a] => [if 0x61 ≤ a ∧ a ≤ 0x7A then a - 0x20 else a]
  | [a, b] =>
    if a = 0xC5 ∧ b = 0xBF then [0x53]
    else (if 0x61 ≤ a ∧ a ≤ 0x7A then a - 0x20 else a) :: foldName [b]
  | a :: b :: c :: rest =>
    if a = 0xC5 ∧ b = 0xBF then 0x53 :: foldName (c :: rest)
    else if a = 0xE2 ∧ b = 0x84 ∧ c = 0xAA then 0x4B :: foldName rest
    else (if 0x61 ≤ a ∧ a ≤ 0x7A then a - 0x20 else a) :: foldName (b :: c :: rest)

/-- The fields of a struct, or the last of them. -/
structure Record (σ : Type) where
  /-- The names of the fields. -/
  names : List Bytes
  /-- The zero value of the fields. -/
  zero : σ
  /-- The members that are written. -/
  encode : σ → Option (List (Bytes × Tree))
  /-- Reads the member with this name. -/
  decode : Bytes → Tree → σ → Option σ

/-- No fields: every name is unknown. -/
def Record.nil : Record Unit where
  names := []
  zero := ()
  encode _ := some []
  decode _ _ _ := none

/-- A field in front of others. -/
def Record.cons (name : String) (omitempty : Bool) (c : Codec α) (r : Record β) :
    Record (α × β) where
  names := str name :: r.names
  zero := (c.zero, r.zero)
  encode x := do
    let rest ← r.encode x.2
    if omitempty && c.isEmpty x.1 then return rest
    let t ← c.encode x.1
    return (str name, t) :: rest
  decode key t x :=
    if foldName key = foldName (str name) then (c.decode t x.1).map fun a => (a, x.2)
    else (r.decode key t x.2).map fun b => (x.1, b)

/-- Reads the members into the fields. -/
def Record.decodeMembers (r : Record α) : List (Bytes × Tree) → α → Option α
  | [], x => some x
  | (name, t) :: rest, x => do
    let x ← r.decode (unquote name) t x
    r.decodeMembers rest x

/-- A struct with these fields. -/
def struct (r : Record α) : Codec α where
  zero := r.zero
  isEmpty _ := false
  encode x := (r.encode x).map mkObject
  decode t old :=
    match t with
    | .object _ members => r.decodeMembers members old
    | t => if isNull t then some old else none

/-- The same type under another name. -/
def iso (c : Codec α) (unpack : β → α) (pack : α → β) : Codec β where
  zero := pack c.zero
  isEmpty b := c.isEmpty (unpack b)
  encode b := c.encode (unpack b)
  decode t old := (c.decode t (unpack old)).map pack

/-! ### Documents -/

/-- `json.Marshal`; the encoder refuses a text that is nested too deeply. -/
def marshal (c : Codec α) (a : α) : Option Bytes :=
  (c.encode a).bind fun t => if t.depth ≤ maxNestingDepth then some t.text else none

/-- The outcome of `decoder.Decode(&v)` followed by a second `Decode` that expects the end. -/
inductive Decoded (α : Type) where
  /-- The first call fails. -/
  | invalid
  /-- The second call finds another value. -/
  | trailing
  /-- The second call finds something else. -/
  | garbage
  /-- The text is one value. -/
  | value (a : α)

/-- Reads a text into the zero value. -/
def decodeDocument (c : Codec α) (data : Bytes) : Decoded α :=
  match parseValue (2 * data.length + 1) (skipSpace data) with
  | none => .invalid
  | some (t, rest) =>
    if maxNestingDepth < t.depth then .invalid
    else
      match c.decode t c.zero with
      | none => .invalid
      | some a =>
        if skipSpace rest = [] then .value a
        else
          match parseValue (2 * data.length + 1) (skipSpace rest) with
          | none => .garbage
          | some (t', _) => if maxNestingDepth < t'.depth then .garbage else .trailing

end Codec

end FeatureFlags.Go
