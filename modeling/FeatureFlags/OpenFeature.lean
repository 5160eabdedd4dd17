import FeatureFlags.Evaluate
import FeatureFlags.Marshal

/-!
# The OpenFeature adapter

`openfeature/provider.go`: evaluation contexts of the OpenFeature SDK become native ones, and the
results of object flags are decoded.

* `validateStructuredValue`: the walk over a value before `json.Marshal` sees it.
* `mapFactWithLimits`, `mapContext`: the native context.
* `objectEvaluation`: the result of an object flag.

The walk goes down one level at a time and refuses values that are nested too deeply.  Its first
argument bounds the levels that are left, for the recursion; arithmetic on `int` stops with
`overflow` where Go would wrap around.
-/

namespace FeatureFlags

open Go Json

/-! ### The budget -/

/-- The values of `int`. -/
def InInt (n : Int) : Prop := -2 ^ 63 ≤ n ∧ n < 2 ^ 63

instance (n : Int) : Decidable (InInt n) := inferInstanceAs (Decidable (_ ∧ _))

/-- `structuredBudget`; a visit is a type and an address. -/
structure StructuredBudget where
  bytes : Int
  nodes : Int
  seen : List (Nat × Nat)
deriving DecidableEq

def StructuredBudget.new : StructuredBudget := ⟨0, 0, []⟩

/-- A part of the walk. -/
abbrev Walk := EStateM Stop StructuredBudget

/-- The error of a value that the adapter does not take. -/
def contextLimit (format : String) (args : List Arg) : GoError :=
  .wrapf format args (.sentinel .contextLimit)

/-- Return an error. -/
def refuse (format : String) (args : List Arg) : Walk Unit :=
  throw (.error (contextLimit format args))

/-- The result of an operation on `int`. -/
def checkedInt (n : Int) : Walk Int := if InInt n then pure n else throw .overflow

section Walk

variable (limits : Limits)

def addStructuredBytes (count : Int) : Walk Unit := do
  let budget ← get
  if count < 0 ∨ budget.bytes > limits.maxStructuredBytes then
    refuse "structured fact exceeds %d input bytes: %w" [.d limits.maxStructuredBytes]
  else
    let room ← checkedInt (limits.maxStructuredBytes - budget.bytes)
    if count > room then
      refuse "structured fact exceeds %d input bytes: %w" [.d limits.maxStructuredBytes]
    else
      let bytes ← checkedInt (budget.bytes + count)
      set { budget with bytes }

def addStructuredString (value : Bytes) : Walk Unit :=
  if len value > limits.maxStructuredBytes then
    refuse "structured fact exceeds %d input bytes: %w" [.d limits.maxStructuredBytes]
  else addStructuredBytes limits (len (Tree.string (escapeString value)).text)

def enterStructuredValue (visit : Nat × Nat) : Walk Unit := do
  let budget ← get
  if visit ∈ budget.seen then refuse "structured fact contains a cycle: %w" []
  else set { budget with seen := visit :: budget.seen }

/-- The function that `enterStructuredValue` returns. -/
def leave (visit : Nat × Nat) : Walk Unit :=
  modify fun budget => { budget with seen := budget.seen.erase visit }

def implementsCustomEncoding (types : Types) (type : Nat) : Bool :=
  let info := types type
  info.json || info.text || (info.kind ≠ .pointer && (info.pointerJson || info.pointerText))

/-! ### The walk -/

/-- The branch for slices of bytes. -/
def addStructuredByteSlice (length : Nat) : Walk Unit := do
  addStructuredBytes limits 2
  let groups : Int := (length / 3 : Nat)
  if groups > limits.maxStructuredBytes.tdiv 4 then
    refuse "structured byte slice encoding exceeds %d bytes: %w" [.d limits.maxStructuredBytes]
  else
    let count ← checkedInt (groups * 4)
    addStructuredBytes limits count
    if length % 3 = 0 then return () else addStructuredBytes limits 4

/-- The loop over the entries of a map. -/
def validateEntries (check : Datum → Walk Unit) : List (Bytes × Datum) → Walk Unit
  | [] => return ()
  | (key, value) :: rest => do
    addStructuredString limits key
    addStructuredBytes limits 2
    check value
    validateEntries check rest

/-- The loop over the elements of a slice or an array; the first one has no comma in front. -/
def validateItems (check : Datum → Walk Unit) : Bool → List Datum → Walk Unit
  | _, [] => return ()
  | first, item :: rest => do
    if first then pure () else addStructuredBytes limits 1
    check item
    validateItems check false rest

variable (types : Types) (heap : Heap)

/-- `validateStructuredValue`, for a value of a known type after the checks of depth and nodes;
`check` is the call for the values below it. -/
def validateContent (check : Nat → Datum → Walk Unit) (type : Nat) (value : Datum) : Walk Unit :=
  let info := types type
  if info.name = .rawMessage then refuse "nested raw JSON is unsupported: %w" []
  else if implementsCustomEncoding types type then
    refuse "custom structured encoders are unsupported: %w" []
  else
    match info.kind, value with
    | .pointer, .nilPointer => addStructuredBytes limits 4
    | .pointer, .pointer address => do
      enterStructuredValue (type, address)
      check info.elem (heap.pointee type address)
      leave (type, address)
    | .map, value =>
      if (types info.key).kind ≠ .string then
        refuse "structured map keys must be strings: %w" []
      else
        match value with
        | .nilMap => addStructuredBytes limits 4
        | .map address => do
          enterStructuredValue (type, address)
          addStructuredBytes limits 2
          validateEntries limits (check info.elem) (heap.entries address)
          leave (type, address)
        | _ => refuse "structured value type is unsupported: %w" []
    | .slice, .nilSlice => addStructuredBytes limits 4
    | .slice, .slice address length =>
      if (types info.elem).kind = .uint8 then addStructuredByteSlice limits length
      else do
        enterStructuredValue (type, address)
        addStructuredBytes limits 2
        validateItems limits (check info.elem) true (heap.items type address length)
        leave (type, address)
    | .array, .array items => do
      addStructuredBytes limits 2
      validateItems limits (check info.elem) true items
    | .string, .string text => addStructuredString limits text
    | .bool, .bool _ => addStructuredBytes limits 5
    | kind, .int _ =>
      if kind.isInt then addStructuredBytes limits 20
      else refuse "structured value type is unsupported: %w" []
    | kind, .uint _ =>
      if kind.isUint then addStructuredBytes limits 20
      else refuse "structured value type is unsupported: %w" []
    | kind, .float f =>
      if kind.isFloat then
        if f.isNaN ∨ f.isInf then refuse "structured float must be finite: %w" []
        else addStructuredBytes limits 32
      else refuse "structured value type is unsupported: %w" []
    | _, _ => refuse "structured value type is unsupported: %w" []

def validateStructuredValue : Nat → Int → Reflected → Walk Unit
  | 0, _, _ => throw .unfinished
  | levels + 1, depth, value => do
    if depth > limits.maxEvaluationDepth then
      refuse "structured fact depth exceeds %d: %w" [.d limits.maxEvaluationDepth]
    else
      let budget ← get
      if budget.nodes ≥ limits.maxStructuredBytes then
        refuse "structured fact complexity exceeds configured bounds: %w" []
      else
        let nodes ← checkedInt (budget.nodes + 1)
        set { budget with nodes }
        match value.bind fun x => unwrap types x.1 x.2 with
        | none => addStructuredBytes limits 4
        | some (type, content) =>
          let below (type : Nat) (content : Datum) : Walk Unit := do
            let deeper ← checkedInt (depth + 1)
            validateStructuredValue levels deeper (some (type, content))
          validateContent limits types heap below type content

/-- One level more than the values that the walk takes have. -/
def structuredLevels (limits : Limits) : Nat := (limits.maxEvaluationDepth + 1).toNat + 1

/-- `validateStructuredInput`, at the top. -/
def validateStructuredInput (value : Reflected) : Walk Unit :=
  validateStructuredValue limits types heap (structuredLevels limits) 0 value

end Walk

/-! ### Facts -/

section Facts

variable (types : Types) (heap : Heap) (encoder : Encoder) (limits : Limits)

/-- `value.(string)`. -/
def asString : Reflected → Option Bytes
  | some (type, .string text) =>
    if (types type).name = .predeclared ∧ (types type).kind = .string then some text else none
  | _ => none

/-- `value.(time.Time)`. -/
def asTime : Reflected → Option Time
  | some (type, .time value) => if (types type).name = .time then some value else none
  | _ => none

/-- `len` and the bytes of a `json.RawMessage`. -/
def rawBytes (type : Nat) : Datum → Bytes
  | .slice address length => (heap.items type address length).map Datum.byte
  | _ => []

/-- The cases of the switch on the dynamic type; `none` is the default branch. -/
def mapNative : Reflected → Option (Except GoError Value)
  | none => none
  | some (type, content) =>
    match (types type).name, (types type).kind, content with
    | .predeclared, .bool, .bool b => some (.ok (.boolean b))
    | .predeclared, .string, .string text =>
      some (if len text > limits.maxStringBytes ∨ len text > limits.maxContextValueBytes then
        .error (contextLimit "string fact exceeds configured bounds: %w" [])
        else .ok (.string text))
    | .predeclared, kind, .int n => if kind.isInt then some (.ok (.integer n)) else none
    | .predeclared, kind, .uint n =>
      if kind.isUint ∧ kind ≠ .uintptr then
        some (if n.toNat ≥ 2 ^ 63 then .error (.errorf "unsigned integer exceeds int64" [])
          else .ok (.integer n.toInt64))
      else none
    | .predeclared, kind, .float f =>
      if kind.isFloat then
        some (if f.isNaN ∨ f.isInf then .error (contextLimit "float fact must be finite: %w" [])
          else .ok (.float f))
      else none
    | .rawMessage, _, content =>
      let data := rawBytes heap type content
      some (if len data > limits.maxStructuredBytes ∨ ¬ valid data then
        .error (contextLimit "structured fact exceeds configured bounds or is invalid: %w" [])
        else .ok (.structured data))
    | _, _, _ => none

/-- The default branch of `mapFactWithLimitsAndMarshal`. -/
def mapStructured (value : Reflected) : Except Stop Value :=
  match (validateStructuredInput limits types heap value).run .new with
  | .error stop _ => .error stop
  | .ok _ _ =>
    match (marshal types heap encoder (structuredLevels limits) value).run [] with
    | .error (.error e) _ => .error (.error (.wrapf "encode structured fact: %w" [] e))
    | .error stop _ => .error stop
    | .ok encoded _ =>
      if len encoded > limits.maxStructuredBytes then
        .error (.error (contextLimit "structured fact exceeds %d bytes: %w"
          [.d limits.maxStructuredBytes]))
      else .ok (.structured encoded)

def mapFactWithLimits (value : Reflected) : Except Stop Value :=
  match mapNative types heap limits value with
  | some result => result.mapError Stop.error
  | none => mapStructured types heap encoder limits value

end Facts

/-! ### Contexts -/

abbrev FlattenedContext := GoMap Reflected

def targetingKey : Bytes := str "targetingKey"

/-- The keys of a flattened context that are not facts. -/
def reservedKeys : List Bytes := [targetingKey, str "tenant", str "environment", str "time"]

/-- What the adapter reads of a `Provider`; its native provider is asked from outside. -/
structure OpenFeatureProvider where
  tenant : Bytes
  limits : Limits

/-- The checks of `New`, for a native provider that is there. -/
def newWithLimits (limits : Limits) (tenant : Bytes) : Except GoError OpenFeatureProvider := do
  rejectIf (tenant = []) (.errorf "native provider and tenant are required" [])
  rejectIf (len tenant > limits.maxKeyBytes)
    (contextLimit "tenant exceeds %d bytes: %w" [.d limits.maxKeyBytes])
  return ⟨tenant, limits⟩

def newOpenFeatureProvider (tenant : Bytes) : Except GoError OpenFeatureProvider :=
  newWithLimits defaultLimits tenant

namespace OpenFeatureProvider

variable (types : Types) (heap : Heap) (encoder : Encoder) (provider : OpenFeatureProvider)

def configuredLimits : Limits :=
  if provider.limits.maxContextKeyBytes ≤ 0 then defaultLimits else provider.limits

/-- The counters of `validateContextShape`. -/
structure ContextShape where
  facts : Int
  attributes : Int

/-- One turn of the loop of `validateContextShape`. -/
def shapeStep (limits : Limits) (shape : ContextShape) (x : Bytes × Reflected) :
    Except GoError ContextShape := do
  rejectIf (len x.1 > limits.maxContextKeyBytes)
    (contextLimit "context key exceeds %d bytes: %w" [.d limits.maxContextKeyBytes])
  if x.1 = targetingKey ∨ x.1 = str "environment" then
    match asString types x.2 with
    | some text =>
      rejectIf (len text > limits.maxContextValueBytes)
        (contextLimit "context identity exceeds %d bytes: %w" [.d limits.maxContextValueBytes])
    | none => pure ()
    return shape
  else if x.1 = str "tenant" ∨ x.1 = str "time" then return shape
  else
    let shape : ContextShape := ⟨shape.facts + 1,
      if (asString types x.2).isSome then shape.attributes + 1 else shape.attributes⟩
    rejectIf (shape.facts > limits.maxFacts ∨ shape.attributes > limits.maxAttributes)
      (contextLimit "context entries exceed configured bounds: %w" [])
    return shape

def validateContextShape (ord : MapOrder) (flat : FlattenedContext) (limits : Limits) :
    Except GoError Unit := do
  rejectIf (flat.len > (limits.maxFacts + 4).bmod (2 ^ 64))
    (contextLimit "context entries exceed configured bounds: %w" [])
  let _ ← (flat.range ord).foldlM (shapeStep types limits) ⟨0, 0⟩
  return ()

/-- One turn of the loop of `mapContext`. -/
def contextStep (context : Context) (x : Bytes × Reflected) : Except Stop Context :=
  if x.1 = targetingKey then .ok context
  else if x.1 = str "tenant" then
    if asString types x.2 = some provider.tenant then .ok context
    else .error (.error (.sentinel .tenantMismatch))
  else if x.1 = str "environment" then
    match asString types x.2 with
    | some environment => .ok { context with environment }
    | none => .error (.error (contextLimit "environment must be a string: %w" []))
  else if x.1 = str "time" then
    match asTime types x.2 with
    | some time => .ok { context with time }
    | none => .error (.error (contextLimit "time must be time.Time: %w" []))
  else
    match mapFactWithLimits types heap encoder provider.configuredLimits x.2 with
    | .error (.error e) => .error (.error (.wrapf "attribute %q: %w" [.q x.1] e))
    | .error stop => .error stop
    | .ok fact =>
      .ok { context with
        facts := context.facts.insert x.1 fact
        attributes := match asString types x.2 with
          | some text => context.attributes.insert x.1 text
          | none => context.attributes }

/-- `mapContext`.  The two `range` loops can visit the entries in different orders. -/
def mapContext (first second : MapOrder) (flat : FlattenedContext) : Except Stop Context := do
  (validateContextShape types first flat provider.configuredLimits).mapError Stop.error
  let subject ← match flat[targetingKey]? with
    | some value =>
      match asString types value with
      | some subject => .ok subject
      | none => .error (.error (contextLimit "targeting key must be a string: %w" []))
    | none => .ok []
  (flat.range second).foldlM (contextStep types heap encoder provider)
    { Context.empty with tenant := provider.tenant, subject }

end OpenFeatureProvider

/-! ### Evaluations -/

/-- What `json.Unmarshal` stores in an `any`: `null` is nil, an object is a map. -/
inductive Decoded where
  | null
  | bool (value : Bool)
  | number (value : Float64)
  | string (value : Bytes)
  | array (items : List Decoded)
  | object (members : List (Bytes × Decoded))

/-- `m[name] = value`. -/
def setMember (members : List (Bytes × Decoded)) (name : Bytes) (value : Decoded) :
    List (Bytes × Decoded) :=
  if name ∈ members.map Prod.fst then
    members.map fun x => if x.1 = name then (name, value) else x
  else members ++ [(name, value)]

/-- `null`, `true`, `false` or a number; `none` is a number outside the range of `float64`. -/
def decodeScalar [Runtime] (text : Bytes) : Option Decoded :=
  if text = str "null" then some .null
  else if text = str "true" then some (.bool true)
  else if text = str "false" then some (.bool false)
  else (Runtime.parseFloat text).map .number

mutual

/-- `json.Unmarshal` of a value into an `any`; `none` is an error. -/
def decodeTree [Runtime] : Tree → Option Decoded
  | .scalar text => decodeScalar text
  | .string raw => some (.string (unquote raw))
  | .array _ items => (decodeItems items).map .array
  | .object _ members => (decodeMembers [] members).map .object

/-- The elements of an array. -/
def decodeItems [Runtime] : List Tree → Option (List Decoded)
  | [] => some []
  | t :: ts => do
    let value ← decodeTree t
    let values ← decodeItems ts
    return value :: values

/-- The members of an object. -/
def decodeMembers [Runtime] (members : List (Bytes × Decoded)) :
    List (Bytes × Tree) → Option (List (Bytes × Decoded))
  | [] => some members
  | m :: ms => do
    let value ← decodeTree m.2
    decodeMembers (setMember members (unquote m.1) value) ms

end

/-- `decodeObject`; `none` is an error. -/
def decodeObject [Runtime] (data : Bytes) : Option Decoded := (parse data).bind decodeTree

/-- `of.Reason`, as far as the adapter uses it. -/
inductive ResolutionReason where
  | default
  | disabled
  | split
  | targetingMatch
  | unknown
  | error
deriving DecidableEq

def mapReason : Reason → ResolutionReason
  | .default | .dependencyFailed => .default
  | .inactive => .disabled
  | .rollout => .split
  | .targetingMatch | .schedule | .groupMatch => .targetingMatch
  | _ => .unknown

inductive ResolutionError where
  | flagNotFound (message : String)
  | invalidContext (message : String)
  | general (message : String)
deriving DecidableEq

/-- The entry `version` of the metadata. -/
inductive VersionMetadata where
  | int (version : Int64)
  | text (version : Bytes)
deriving DecidableEq

/-- `of.ProviderResolutionDetail`. -/
structure ResolutionDetail where
  reason : ResolutionReason
  variant : Bytes
  version : Option VersionMetadata
  matchedStrategy : Option Bytes
  error : Option ResolutionError
deriving DecidableEq

def mapDetail (variant : Bytes) (reason : Reason) (strategy : Bytes) (version : Nat) :
    ResolutionDetail where
  reason := mapReason reason
  variant
  version := some (if version ≥ 2 ^ 63 then .text (decimal version) else .int (Int64.ofNat version))
  matchedStrategy := if strategy ≠ [] then some strategy else none
  error := none

def errorDetail (e : GoError) : ResolutionDetail where
  reason := .error
  variant := []
  version := none
  matchedStrategy := none
  error := some (if e.is .notFound then .flagNotFound "flag not found"
    else if e.is .tenantMismatch ∨ e.is .contextLimit then
      .invalidContext "invalid evaluation context"
    else .general "native evaluation failed")

/-- The value of an object flag: what the caller gave, or what was decoded. -/
inductive ObjectValue where
  | default (value : Reflected)
  | decoded (value : Decoded)

/-- `of.InterfaceResolutionDetail`. -/
structure ObjectDetail where
  value : ObjectValue
  detail : ResolutionDetail

/-- `structuredValue`. -/
def Value.structuredBytes : Value → Bytes
  | .structured data => data
  | _ => []

section Object

variable {κ : Type} [CustomStrategy κ] [Runtime] (types : Types) (heap : Heap) (encoder : Encoder)

/-- `ObjectEvaluation`.  `loaded` is what the native provider returns for the tenant; the orders are
those of the loops of `mapContext` and of `Context.validate`. -/
def OpenFeatureProvider.objectEvaluation (provider : OpenFeatureProvider)
    (first second third : MapOrder) (loaded : Except GoError (Snapshot κ)) (flag : Bytes)
    (defaultValue : Reflected) (flat : FlattenedContext) : Except Stop ObjectDetail :=
  let failed (e : GoError) : ObjectDetail := ⟨.default defaultValue, errorDetail e⟩
  match provider.mapContext types heap encoder first second flat with
  | .error (.error e) => .ok (failed e)
  | .error stop => .error stop
  | .ok context =>
    match loaded with
    | .error e => .ok (failed e)
    | .ok snapshot =>
      match snapshot.evaluate third flag .structured context with
      | .error e => .ok (failed e)
      | .ok result =>
        .ok ⟨.decoded ((decodeObject result.value.structuredBytes).getD .null),
          mapDetail result.variant result.reason result.matchedStrategy result.version⟩

end Object

end FeatureFlags
