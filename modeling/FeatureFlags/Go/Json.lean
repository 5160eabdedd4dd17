import FeatureFlags.Go.Utf8

/-!
# `encoding/json`: syntax

JSON texts as `encoding/json` reads and writes them.

* `parse` reads a text into a `Tree`.  A tree keeps the source text of every array and object,
  because a `json.RawMessage` field receives the text of its value and not a re-encoding of it.
* `mkArray`, `mkObject` build the trees that `json.Marshal` writes: no white space, members in
  order.  The text of such a tree is what `Marshal` returns.
* `compactTree` is what `Marshal` does to a `json.RawMessage`: white space is dropped and `<`, `>`,
  `&`, U+2028 and U+2029 are escaped.
* `escapeString` and `unquote` translate between a Go string and the text between two quotes.
* `maxNestingDepth` bounds the nesting of the texts that are accepted at all (`valid`).

Bytes are written as numerals: `0x22` is the quote, `0x5C` the backslash, `0x2C` the comma, `0x3A`
the colon, `0x5B`/`0x5D` the brackets and `0x7B`/`0x7D` the braces.
-/

namespace FeatureFlags.Go.Json

/-! ### Literals -/

/-- White space between tokens. -/
def isSpace (c : UInt8) : Bool := c == 0x20 || c == 0x09 || c == 0x0A || c == 0x0D

/-- `0`–`9`. -/
def isDigit (c : UInt8) : Bool := 0x30 ≤ c && c ≤ 0x39

/-- A hexadecimal digit, in either case. -/
def isHex (c : UInt8) : Bool :=
  isDigit c || (0x61 ≤ c && c ≤ 0x66) || (0x41 ≤ c && c ≤ 0x46)

/-- A byte that can occur in a number: digits, signs, the point and the exponent mark. -/
def isNumberByte (c : UInt8) : Bool :=
  isDigit c || c == 0x2B || c == 0x2D || c == 0x2E || c == 0x45 || c == 0x65

/-- The rest after at least one digit. -/
def afterDigits : Bytes → Option Bytes
  | [] => none
  | c :: rest => if isDigit c then some (rest.dropWhile isDigit) else none

/-- The rest after an optional minus sign. -/
def afterMinus : Bytes → Bytes
  | [] => []
  | c :: rest => if c = 0x2D then rest else c :: rest

/-- The rest after an integer part, which has no leading zero. -/
def afterInteger : Bytes → Option Bytes
  | [] => none
  | c :: rest => if c = 0x30 then some rest else afterDigits (c :: rest)

def afterFraction : Bytes → Option Bytes
  | [] => some []
  | c :: rest => if c = 0x2E then afterDigits rest else some (c :: rest)

def afterExponent : Bytes → Option Bytes
  | [] => some []
  | c :: rest =>
    if c = 0x45 ∨ c = 0x65 then
      match rest with
      | [] => none
      | s :: rest' => if s = 0x2B ∨ s = 0x2D then afterDigits rest' else afterDigits (s :: rest')
    else some (c :: rest)

/-- A number of the JSON grammar. -/
def isNumber (text : Bytes) : Bool :=
  (do afterExponent (← afterFraction (← afterInteger (afterMinus text)))) == some []

/-- `null`, `true`, `false` or a number. -/
def isScalar (text : Bytes) : Bool :=
  text == str "null" || text == str "true" || text == str "false" || isNumber text

/-- The letters of the two-byte escapes `\"`, `\\`, `\/`, `\b`, `\f`, `\n`, `\r`, `\t`. -/
def isSimpleEscape (c : UInt8) : Bool :=
  c == 0x22 || c == 0x5C || c == 0x2F || c == 0x62 || c == 0x66 || c == 0x6E || c == 0x72 ||
    c == 0x74

/-- The contents of a string up to its closing quote, unchanged, and what follows the quote. -/
def takeRaw : Bytes → Option (Bytes × Bytes)
  | [] => none
  | c :: rest =>
    if c = 0x22 then some ([], rest)
    else if c = 0x5C then
      match rest with
      | [] => none
      | e :: rest' =>
        if isSimpleEscape e then
          (takeRaw rest').map fun p => (c :: e :: p.1, p.2)
        else if e = 0x75 then
          match rest' with
          | h₁ :: h₂ :: h₃ :: h₄ :: rest'' =>
            if isHex h₁ && isHex h₂ && isHex h₃ && isHex h₄ then
              (takeRaw rest'').map fun p => (c :: e :: h₁ :: h₂ :: h₃ :: h₄ :: p.1, p.2)
            else none
          | _ => none
        else none
    else if c < 0x20 then none
    else (takeRaw rest).map fun p => (c :: p.1, p.2)

/-- A text that can stand between two quotes. -/
def isRaw (raw : Bytes) : Bool := takeRaw (raw ++ [0x22]) == some (raw, [])

/-! ### Trees -/

/-- A JSON value with its source text. -/
inductive Tree where
  /-- `null`, `true`, `false` or a number. -/
  | scalar (text : Bytes)
  /-- A string, given by the text between its quotes. -/
  | string (raw : Bytes)
  /-- An array. -/
  | array (text : Bytes) (items : List Tree)
  /-- An object; a name is given by the text between its quotes. -/
  | object (text : Bytes) (members : List (Bytes × Tree))

/-- The source text of a value. -/
def Tree.text : Tree → Bytes
  | .scalar text => text
  | .string raw => 0x22 :: raw ++ [0x22]
  | .array text _ => text
  | .object text _ => text

def Tree.null : Tree := .scalar (str "null")

/-- The texts with commas between them. -/
def joinComma : List Bytes → Bytes
  | [] => []
  | [a] => a
  | a :: b :: rest => a ++ 0x2C :: joinComma (b :: rest)

/-- The text of one member of an object. -/
def memberText (m : Bytes × Tree) : Bytes := 0x22 :: m.1 ++ 0x22 :: 0x3A :: m.2.text

/-- The array that `json.Marshal` writes. -/
def mkArray (items : List Tree) : Tree :=
  .array (0x5B :: joinComma (items.map Tree.text) ++ [0x5D]) items

/-- The object that `json.Marshal` writes. -/
def mkObject (members : List (Bytes × Tree)) : Tree :=
  .object (0x7B :: joinComma (members.map memberText) ++ [0x7D]) members

mutual

/-- How deeply arrays and objects are nested in a value. -/
def Tree.depth : Tree → Nat
  | .scalar _ => 0
  | .string _ => 0
  | .array _ items => itemsDepth items + 1
  | .object _ members => membersDepth members + 1

/-- The greatest depth among the items. -/
def itemsDepth : List Tree → Nat
  | [] => 0
  | t :: ts => max t.depth (itemsDepth ts)

/-- The greatest depth among the members. -/
def membersDepth : List (Bytes × Tree) → Nat
  | [] => 0
  | m :: ms => max m.2.depth (membersDepth ms)

end

/-- `encoding/json` refuses deeper texts. -/
def maxNestingDepth : Nat := 10000

/-! ### Parsing -/

/-- The rest after leading white space. -/
def skipSpace (s : Bytes) : Bytes := s.dropWhile isSpace

/-- The part of `s` in front of its suffix `rest`. -/
def consumed (s rest : Bytes) : Bytes := s.take (s.length - rest.length)

/-- A literal name or a number at the head of `s`. -/
def takeScalar (s : Bytes) : Option (Bytes × Bytes) :=
  if (str "null").isPrefixOf s then some (str "null", s.drop 4)
  else if (str "true").isPrefixOf s then some (str "true", s.drop 4)
  else if (str "false").isPrefixOf s then some (str "false", s.drop 5)
  else if isNumber (s.takeWhile isNumberByte) then
    some (s.takeWhile isNumberByte, s.dropWhile isNumberByte)
  else none

mutual

/-- The value at the head of `s`, which has no leading white space, and what follows it.  The fuel
bounds the number of nested calls; `parse` gives enough of it for every text. -/
def parseValue : Nat → Bytes → Option (Tree × Bytes)
  | 0, _ => none
  | _ + 1, [] => none
  | n + 1, c :: rest =>
    if c = 0x22 then
      (takeRaw rest).map fun p => (.string p.1, p.2)
    else if c = 0x5B then
      match skipSpace rest with
      | [] => none
      | d :: rest' =>
        if d = 0x5D then some (.array (consumed (c :: rest) rest') [], rest')
        else
          (parseItems n (d :: rest')).map fun p => (.array (consumed (c :: rest) p.2) p.1, p.2)
    else if c = 0x7B then
      match skipSpace rest with
      | [] => none
      | d :: rest' =>
        if d = 0x7D then some (.object (consumed (c :: rest) rest') [], rest')
        else
          (parseMembers n (d :: rest')).map fun p =>
            (.object (consumed (c :: rest) p.2) p.1, p.2)
    else (takeScalar (c :: rest)).map fun p => (.scalar p.1, p.2)

/-- The items of an array up to its closing bracket. -/
def parseItems : Nat → Bytes → Option (List Tree × Bytes)
  | 0, _ => none
  | n + 1, s =>
    match parseValue n s with
    | none => none
    | some (t, rest) =>
      match skipSpace rest with
      | [] => none
      | c :: rest' =>
        if c = 0x2C then
          (parseItems n (skipSpace rest')).map fun p => (t :: p.1, p.2)
        else if c = 0x5D then some ([t], rest')
        else none

/-- The members of an object up to its closing brace. -/
def parseMembers : Nat → Bytes → Option (List (Bytes × Tree) × Bytes)
  | 0, _ => none
  | _ + 1, [] => none
  | n + 1, q :: s =>
    if q ≠ 0x22 then none
    else
      match takeRaw s with
      | none => none
      | some (name, rest) =>
        match skipSpace rest with
        | [] => none
        | colon :: rest' =>
          if colon ≠ 0x3A then none
          else
            match parseValue n (skipSpace rest') with
            | none => none
            | some (t, rest'') =>
              match skipSpace rest'' with
              | [] => none
              | c :: rest₃ =>
                if c = 0x2C then
                  (parseMembers n (skipSpace rest₃)).map fun p => ((name, t) :: p.1, p.2)
                else if c = 0x7D then some ([(name, t)], rest₃)
                else none

end

/-- The single value that makes up the text, up to white space around it. -/
def parse (s : Bytes) : Option Tree :=
  match parseValue (2 * s.length + 1) (skipSpace s) with
  | some (t, rest) =>
    if skipSpace rest = [] ∧ t.depth ≤ maxNestingDepth then some t else none
  | none => none

def valid (s : Bytes) : Bool := (parse s).isSome

/-! ### Strings -/

/-- The lower-case hexadecimal digit of `n < 16`. -/
def hexDigit (n : Nat) : UInt8 := if n < 10 then UInt8.ofNat (0x30 + n) else UInt8.ofNat (0x57 + n)

/-- The escape `\u00xx` of a byte. -/
def escapeByte (c : UInt8) : Bytes :=
  [0x5C, 0x75, 0x30, 0x30, hexDigit (c.toNat / 16), hexDigit (c.toNat % 16)]

/-- How `json.Marshal` writes one chunk of a string: the quote, the backslash, control characters,
the HTML characters, U+2028 and U+2029 are escaped, an invalid byte is written as U+FFFD. -/
def escapeChunk : Chunk → Bytes
  | .bad _ => replacementRune
  | .rune [c] =>
    if c = 0x22 ∨ c = 0x5C then [0x5C, c]
    else if c = 0x08 then str "\\b"
    else if c = 0x0C then str "\\f"
    else if c = 0x0A then str "\\n"
    else if c = 0x0D then str "\\r"
    else if c = 0x09 then str "\\t"
    else if c < 0x20 ∨ c = 0x3C ∨ c = 0x3E ∨ c = 0x26 then escapeByte c
    else [c]
  | .rune r =>
    if r = [0xE2, 0x80, 0xA8] then str "\\u2028"
    else if r = [0xE2, 0x80, 0xA9] then str "\\u2029"
    else r

/-- The text between the quotes that `json.Marshal` writes for a string. -/
def escapeString (s : Bytes) : Bytes := (chunks s).flatMap escapeChunk

/-- The value of a hexadecimal digit. -/
def hexValue (c : UInt8) : Nat :=
  if isDigit c then c.toNat - 0x30
  else if 0x61 ≤ c ∧ c ≤ 0x66 then c.toNat - 0x57
  else c.toNat - 0x37

/-- The value of four hexadecimal digits. -/
def hexValue4 (a b c d : UInt8) : Nat :=
  ((hexValue a * 16 + hexValue b) * 16 + hexValue c) * 16 + hexValue d

/-- The UTF-8 encoding of a code point; U+FFFD for one that is none. -/
def encodeRune (r : Nat) : Bytes :=
  if r < 0x80 then [UInt8.ofNat r]
  else if r < 0x800 then [UInt8.ofNat (0xC0 + r / 64), UInt8.ofNat (0x80 + r % 64)]
  else if 0xD800 ≤ r ∧ r < 0xE000 then replacementRune
  else if r < 0x10000 then
    [UInt8.ofNat (0xE0 + r / 4096), UInt8.ofNat (0x80 + r / 64 % 64), UInt8.ofNat (0x80 + r % 64)]
  else if r < 0x110000 then
    [UInt8.ofNat (0xF0 + r / 262144), UInt8.ofNat (0x80 + r / 4096 % 64),
      UInt8.ofNat (0x80 + r / 64 % 64), UInt8.ofNat (0x80 + r % 64)]
  else replacementRune

/-- The byte of a two-byte escape. -/
def simpleEscape (e : UInt8) : UInt8 :=
  if e = 0x62 then 0x08
  else if e = 0x66 then 0x0C
  else if e = 0x6E then 0x0A
  else if e = 0x72 then 0x0D
  else if e = 0x74 then 0x09
  else e

/-- `unquote`, given at least as much fuel as there are bytes. -/
def unquoteAux : Nat → Bytes → Bytes
  | 0, _ => []
  | _ + 1, [] => []
  | n + 1, c :: rest =>
    if c = 0x5C then
      match rest with
      | [] => []
      | e :: rest' =>
        if e = 0x75 then
          match rest' with
          | h₁ :: h₂ :: h₃ :: h₄ :: r =>
            let u := hexValue4 h₁ h₂ h₃ h₄
            -- A high surrogate is joined with a low one that follows it as a second escape.
            match r with
            | b :: v :: g₁ :: g₂ :: g₃ :: g₄ :: r' =>
              let l := hexValue4 g₁ g₂ g₃ g₄
              if 0xD800 ≤ u ∧ u < 0xDC00 ∧ b = 0x5C ∧ v = 0x75 ∧ 0xDC00 ≤ l ∧ l < 0xE000 then
                encodeRune ((u - 0xD800) * 1024 + (l - 0xDC00) + 0x10000) ++ unquoteAux n r'
              else encodeRune u ++ unquoteAux n r
            | _ => encodeRune u ++ unquoteAux n r
          | _ => []
        else simpleEscape e :: unquoteAux n rest'
    else
      let w := runeWidth (c :: rest)
      if w = 0 then replacementRune ++ unquoteAux n rest
      else (c :: rest).take w ++ unquoteAux n ((c :: rest).drop w)

/-- The Go string denoted by the text between two quotes. -/
def unquote (raw : Bytes) : Bytes := unquoteAux raw.length raw

/-! ### Compaction -/

/-- The text of a string with the HTML characters, U+2028 and U+2029 escaped. -/
def escapeHTML : Bytes → Bytes
  | [] => []
  | c :: rest =>
    if c = 0x3C ∨ c = 0x3E ∨ c = 0x26 then escapeByte c ++ escapeHTML rest
    else if c = 0xE2 then
      match rest with
      | d :: e :: rest' =>
        if d = 0x80 ∧ e = 0xA8 then str "\\u2028" ++ escapeHTML rest'
        else if d = 0x80 ∧ e = 0xA9 then str "\\u2029" ++ escapeHTML rest'
        else c :: escapeHTML (d :: e :: rest')
      | r => c :: escapeHTML r
    else c :: escapeHTML rest

mutual

/-- A value without white space and with escaped strings, as `json.Marshal` writes a
`json.RawMessage`. -/
def compactTree : Tree → Tree
  | .scalar text => .scalar text
  | .string raw => .string (escapeHTML raw)
  | .array _ items => mkArray (compactItems items)
  | .object _ members => mkObject (compactMembers members)

/-- `compactTree` of every item. -/
def compactItems : List Tree → List Tree
  | [] => []
  | t :: ts => compactTree t :: compactItems ts

/-- `compactTree` of every member. -/
def compactMembers : List (Bytes × Tree) → List (Bytes × Tree)
  | [] => []
  | m :: ms => (escapeHTML m.1, compactTree m.2) :: compactMembers ms

end

/-- What `json.Marshal` writes for a `json.RawMessage`; an invalid one is an error. -/
def compact (raw : Bytes) : Option Bytes := (parse raw).map fun t => (compactTree t).text

end FeatureFlags.Go.Json
