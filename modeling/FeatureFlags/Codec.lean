import FeatureFlags.Evaluate
import FeatureFlags.Go.Codec

/-!
# Portable documents

`codec.go`: the wire structs with their field names, the translations between them and the native
values, and `Export` and `Import`.

A slice of a wire struct that is read from a text is a `Codec.Slice`.  The native values take its
elements.
-/

namespace FeatureFlags

open Go

/-! ### Wire structs -/

/-- `valueWire`; the empty `structured` is nil. -/
structure ValueWire where
  type : Bytes
  boolean : Option Bool
  string : Option Bytes
  integer : Option Int
  float : Option Float64
  structured : Bytes

structure WeeklyWire where
  weekday : Int
  startMinute : Int
  endMinute : Int

structure StrategyWire where
  kind : Bytes
  name : Bytes
  variant : Bytes
  tenants : Codec.Slice Bytes
  subjects : Codec.Slice Bytes
  environments : Codec.Slice Bytes
  attributes : GoMap Bytes
  allowTenants : Codec.Slice Bytes
  denyTenants : Codec.Slice Bytes
  allowSubjects : Codec.Slice Bytes
  denySubjects : Codec.Slice Bytes
  seed : Bytes
  threshold : Nat
  notBefore : Bytes
  notAfter : Bytes
  location : Bytes
  windows : Codec.Slice WeeklyWire
  fact : Bytes
  equals : Option ValueWire

structure DependencyWire where
  featureKey : Bytes
  requiredVariant : Bytes

structure DefinitionWire where
  key : Bytes
  type : Bytes
  default : ValueWire
  variants : GoMap ValueWire
  metadata : GoMap Bytes
  owner : Bytes
  lifecycle : Bytes
  dependencies : Codec.Slice DependencyWire
  groups : Codec.Slice Bytes
  tags : Codec.Slice Bytes
  version : Nat
  strategies : Codec.Slice StrategyWire

structure GroupWire where
  key : Bytes
  parent : Bytes
  metadata : GoMap Bytes
  owner : Bytes
  tags : Codec.Slice Bytes
  version : Nat
  strategies : Codec.Slice StrategyWire

structure DocumentWire where
  format : Bytes
  version : Int
  features : Codec.Slice DefinitionWire
  groups : Codec.Slice GroupWire

/-! ### Their fields -/

section Fields

open Codec

def float64 [Runtime] : Codec Float64 :=
  .number ⟨0⟩ Float64.isZero
    (fun f => if f.isNaN ∨ f.isInf then none else some (Runtime.formatFloat f)) Runtime.parseFloat

def uint64 : Codec Nat := .uint (2 ^ 64)

/-- `int`, and `int64`. -/
def int64 : Codec Int := .int (2 ^ 63)

/-- The fields of `valueWire`. -/
def ValueWire.codec [Runtime] : Codec ValueWire :=
  (struct (.cons "type" false .string <|
    .cons "boolean" true (pointer bool) <|
    .cons "string" true (pointer .string) <|
    .cons "integer" true (pointer int64) <|
    .cons "float" true (pointer float64) <|
    .cons "structured" true rawMessage <| .nil)).iso
  (fun w => (w.type, w.boolean, w.string, w.integer, w.float, w.structured, ()))
  (fun (a, b, c, d, e, f, _) => ⟨a, b, c, d, e, f⟩)

/-- The fields of `weeklyWire`. -/
def WeeklyWire.codec : Codec WeeklyWire :=
  (struct (.cons "weekday" false int64 <|
    .cons "start_minute" false int64 <|
    .cons "end_minute" false int64 <| .nil)).iso
  (fun w => (w.weekday, w.startMinute, w.endMinute, ()))
  (fun (a, b, c, _) => ⟨a, b, c⟩)

/-- The fields of `strategyWire`. -/
def StrategyWire.codec [Runtime] : Codec StrategyWire :=
  (struct (.cons "kind" false string <|
    .cons "name" false string <|
    .cons "variant" false string <|
    .cons "tenants" true (slice string) <|
    .cons "subjects" true (slice string) <|
    .cons "environments" true (slice string) <|
    .cons "attributes" true (map string) <|
    .cons "allow_tenants" true (slice string) <|
    .cons "deny_tenants" true (slice string) <|
    .cons "allow_subjects" true (slice string) <|
    .cons "deny_subjects" true (slice string) <|
    .cons "seed" true string <|
    .cons "threshold" true (uint (2 ^ 32)) <|
    .cons "not_before" true string <|
    .cons "not_after" true string <|
    .cons "location" true string <|
    .cons "windows" true (slice WeeklyWire.codec) <|
    .cons "fact" true string <|
    .cons "equals" true (pointer ValueWire.codec) <| .nil)).iso
  (fun w => (w.kind, w.name, w.variant, w.tenants, w.subjects, w.environments, w.attributes,
    w.allowTenants, w.denyTenants, w.allowSubjects, w.denySubjects, w.seed, w.threshold,
    w.notBefore, w.notAfter, w.location, w.windows, w.fact, w.equals, ()))
  (fun (kind, name, variant, tenants, subjects, environments, attributes, allowTenants,
      denyTenants, allowSubjects, denySubjects, seed, threshold, notBefore, notAfter, location,
      windows, fact, equals, _) =>
    ⟨kind, name, variant, tenants, subjects, environments, attributes, allowTenants, denyTenants,
      allowSubjects, denySubjects, seed, threshold, notBefore, notAfter, location, windows, fact,
      equals⟩)

/-- The fields of `dependencyWire`. -/
def DependencyWire.codec : Codec DependencyWire :=
  (struct (.cons "feature_key" false string <|
    .cons "required_variant" false string <| .nil)).iso
  (fun w => (w.featureKey, w.requiredVariant, ()))
  (fun (a, b, _) => ⟨a, b⟩)

/-- The fields of `definitionWire`. -/
def DefinitionWire.codec [Runtime] : Codec DefinitionWire :=
  (struct (.cons "key" false string <|
    .cons "type" false string <|
    .cons "default" false ValueWire.codec <|
    .cons "variants" true (map ValueWire.codec) <|
    .cons "metadata" true (map string) <|
    .cons "owner" true string <|
    .cons "lifecycle" true string <|
    .cons "dependencies" true (slice DependencyWire.codec) <|
    .cons "groups" true (slice string) <|
    .cons "tags" true (slice string) <|
    .cons "version" true uint64 <|
    .cons "strategies" true (slice StrategyWire.codec) <| .nil)).iso
  (fun w => (w.key, w.type, w.default, w.variants, w.metadata, w.owner, w.lifecycle,
    w.dependencies, w.groups, w.tags, w.version, w.strategies, ()))
  (fun (key, type, default, variants, metadata, owner, lifecycle, dependencies, groups, tags,
      version, strategies, _) =>
    ⟨key, type, default, variants, metadata, owner, lifecycle, dependencies, groups, tags, version,
      strategies⟩)

/-- The fields of `groupWire`. -/
def GroupWire.codec [Runtime] : Codec GroupWire :=
  (struct (.cons "key" false string <|
    .cons "parent" true string <|
    .cons "metadata" true (map string) <|
    .cons "owner" true string <|
    .cons "tags" true (slice string) <|
    .cons "version" true uint64 <|
    .cons "strategies" true (slice StrategyWire.codec) <| .nil)).iso
  (fun w => (w.key, w.parent, w.metadata, w.owner, w.tags, w.version, w.strategies, ()))
  (fun (key, parent, metadata, owner, tags, version, strategies, _) =>
    ⟨key, parent, metadata, owner, tags, version, strategies⟩)

/-- The fields of `documentWire`. -/
def DocumentWire.codec [Runtime] : Codec DocumentWire :=
  (struct (.cons "format" false string <|
    .cons "version" false int64 <|
    .cons "features" false (slice DefinitionWire.codec) <|
    .cons "groups" true (slice GroupWire.codec) <| .nil)).iso
  (fun w => (w.format, w.version, w.features, w.groups, ()))
  (fun (a, b, c, d, _) => ⟨a, b, c, d⟩)

end Fields

/-! ### Values -/

def encodeValue (value : Value) : ValueWire :=
  let wire : ValueWire := ⟨value.type.name, none, none, none, none, []⟩
  match value with
  | .zero => wire
  | .boolean b => { wire with boolean := some b }
  | .string text => { wire with string := some text }
  | .decimal text => { wire with string := some text }
  | .integer n => { wire with integer := some n.toInt }
  | .float f => { wire with float := some f }
  | .structured raw => { wire with structured := raw }

def decodeValue (wire : ValueWire) : Except GoError Value :=
  let value : Option Value :=
    match ValueType.ofName wire.type with
    | .boolean => wire.boolean.map .boolean
    | .string => wire.string.map .string
    | .integer => wire.integer.map fun n => .integer (Int64.ofInt n)
    | .float => wire.float.map .float
    | .decimal => wire.string.map .decimal
    | .structured => if wire.structured = [] then none else some (.structured wire.structured)
    | .other _ _ => none
  match value with
  | some value => .ok value
  | none =>
    .error (.wrapf "value payload does not match type %q: %w" [.q wire.type]
      (.sentinel .invalidValue))

/-! ### Strategies -/

def sortedStrings (values : List Bytes) : List Bytes :=
  values.insertionSort fun a b => (compare a b).isLE = true

def formatOptionalTime (value : Time) : Bytes :=
  if value.isZero then [] else formatRFC3339Nano ⟨value, 0⟩

/-- `parseOptionalTime`; strategies compare instants, so the offset is dropped. -/
def parseOptionalTime (value : Bytes) : Except GoError Time :=
  if value = [] then .ok .zero
  else
    match parseRFC3339 value with
    | some t => .ok t.time
    | none => .error (.wrapf "parse strategy time: %w" [] (.external 0))

/-- The zero `strategyWire`. -/
def StrategyWire.zero : StrategyWire :=
  ⟨[], [], [], .ofList [], .ofList [], .ofList [], ∅, .ofList [], .ofList [], .ofList [],
    .ofList [], [], 0, [], [], [], .ofList [], [], none⟩

section Strategies

variable {κ : Type}

def decodeStrategy (wire : StrategyWire) : Except GoError (Strategy κ) :=
  if wire.kind = str "exact" then
    .ok (.exactTarget ⟨wire.name, wire.variant, wire.tenants.toList, wire.subjects.toList,
      wire.environments.toList, wire.attributes⟩)
  else if wire.kind = str "percentage" then
    .ok (.percentage ⟨wire.name, wire.variant, wire.seed, UInt32.ofNat wire.threshold⟩)
  else if wire.kind = str "set" then
    .ok (.set ⟨wire.name, wire.variant, wire.allowTenants.toList, wire.denyTenants.toList,
      wire.allowSubjects.toList, wire.denySubjects.toList⟩)
  else if wire.kind = str "time_window" then do
    let notBefore ← parseOptionalTime wire.notBefore
    let notAfter ← parseOptionalTime wire.notAfter
    return .timeWindow ⟨wire.name, wire.variant, notBefore, notAfter⟩
  else if wire.kind = str "schedule" then
    .ok (.schedule ⟨wire.name, wire.variant, wire.location,
      wire.windows.toList.map fun w => ⟨w.weekday, w.startMinute, w.endMinute⟩⟩)
  else if wire.kind = str "fact" then
    match wire.equals with
    | none => .error (.errorf "fact strategy %q has no value" [.q wire.name])
    | some equals => do
      let value ← decodeValue equals
      return .fact ⟨wire.name, wire.variant, wire.fact, value⟩
  else .error (.wrapf "strategy kind %q: %w" [.q wire.kind] (.sentinel .unsupportedStrategy))

variable [CustomStrategy κ]

def encodeStrategy (strategy : Strategy κ) : Except GoError StrategyWire :=
  let wire : StrategyWire :=
    { StrategyWire.zero with name := strategy.strategyName, variant := strategy.targetVariant }
  match strategy with
  | .exactTarget s =>
    .ok { wire with
      kind := str "exact"
      tenants := .ofList (sortedStrings s.tenants)
      subjects := .ofList (sortedStrings s.subjects)
      environments := .ofList (sortedStrings s.environments)
      attributes := s.attributes }
  | .percentage s =>
    .ok { wire with kind := str "percentage", seed := s.seed, threshold := s.threshold.toNat }
  | .set s =>
    .ok { wire with
      kind := str "set"
      allowTenants := .ofList (sortedStrings s.allowTenants)
      denyTenants := .ofList (sortedStrings s.denyTenants)
      allowSubjects := .ofList (sortedStrings s.allowSubjects)
      denySubjects := .ofList (sortedStrings s.denySubjects) }
  | .timeWindow s =>
    .ok { wire with
      kind := str "time_window"
      notBefore := formatOptionalTime s.notBefore
      notAfter := formatOptionalTime s.notAfter }
  | .schedule s =>
    .ok { wire with
      kind := str "schedule"
      location := s.location
      windows := .ofList (s.windows.map fun w => ⟨w.weekday, w.startMinute, w.endMinute⟩) }
  | .fact s =>
    .ok { wire with kind := str "fact", fact := s.fact, equals := some (encodeValue s.equals) }
  | .custom _ =>
    .error (.wrapf "strategy %q: %w" [.q strategy.strategyName] (.sentinel .unsupportedStrategy))

/-! ### Definitions and groups -/

/-- The order of dependencies in a document. -/
def Dependency.isLE (a b : Dependency) : Bool :=
  ((compare a.featureKey b.featureKey).then (compare a.requiredVariant b.requiredVariant)).isLE

def encodeDefinition (d : Definition κ) : Except GoError DefinitionWire := do
  let strategies ← (d.strategies.mapM encodeStrategy).mapError (.wrapf "feature %q: %w" [.q d.key])
  return {
    key := d.key
    type := d.type.name
    default := encodeValue d.default
    variants := d.variants.map fun _ value => encodeValue value
    metadata := d.metadata
    owner := d.owner
    lifecycle := d.lifecycle.label
    dependencies := .ofList ((d.dependencies.insertionSort fun a b => a.isLE b = true).map
      fun dependency => ⟨dependency.featureKey, dependency.requiredVariant⟩)
    groups := .ofList d.groups
    tags := .ofList (sortedStrings d.tags)
    version := d.version
    strategies := .ofList strategies }

omit [CustomStrategy κ] in
/-- The loop over the variants in `decodeDefinition`. -/
def decodeVariants (ord : MapOrder) (key : Bytes) (variants : GoMap ValueWire) :
    Except GoError (GoMap Value) :=
  (variants.range ord).foldlM
    (fun m x => do
      let value ← (decodeValue x.2).mapError (.wrapf "feature %q variant %q: %w" [.q key, .q x.1])
      return m.insert x.1 value) ∅

omit [CustomStrategy κ] in
def decodeDefinition (ord : MapOrder) (wire : DefinitionWire) : Except GoError (Definition κ) := do
  let default ← (decodeValue wire.default).mapError (.wrapf "feature %q default: %w" [.q wire.key])
  let variants ← decodeVariants ord wire.key wire.variants
  let strategies ← (wire.strategies.toList.mapM decodeStrategy).mapError
    (.wrapf "feature %q: %w" [.q wire.key])
  return {
    key := wire.key
    type := .ofName wire.type
    default
    variants
    metadata := wire.metadata
    owner := wire.owner
    lifecycle := .ofLabel wire.lifecycle
    dependencies := wire.dependencies.toList.map fun w => ⟨w.featureKey, w.requiredVariant⟩
    groups := wire.groups.toList
    tags := wire.tags.toList
    version := wire.version
    strategies }

def encodeGroup (g : GroupDefinition κ) : Except GoError GroupWire := do
  let strategies ← (g.strategies.mapM encodeStrategy).mapError (.wrapf "group %q: %w" [.q g.key])
  return {
    key := g.key
    parent := g.parent
    metadata := g.metadata
    owner := g.owner
    tags := .ofList (sortedStrings g.tags)
    version := g.version
    strategies := .ofList strategies }

omit [CustomStrategy κ] in
def decodeGroup (wire : GroupWire) : Except GoError (GroupDefinition κ) := do
  let strategies ← (wire.strategies.toList.mapM decodeStrategy).mapError
    (.wrapf "group %q: %w" [.q wire.key])
  return {
    key := wire.key
    parent := wire.parent
    metadata := wire.metadata
    owner := wire.owner
    tags := wire.tags.toList
    version := wire.version
    strategies }

/-! ### Documents -/

def documentFormat : Bytes := str "go-feature-flags"

def documentVersion : Int := 1

def Export [Runtime] (ord : MapOrder) (definitions : List (Definition κ))
    (groups : List (GroupDefinition κ)) (limits : Limits) : Except GoError Bytes := do
  let _ ← newSnapshotWithGroups ord definitions groups limits
  let features ← (definitions.insertionSort fun a b => (compare a.key b.key).isLE = true).mapM
    encodeDefinition
  let groups ← (groups.insertionSort fun a b => (compare a.key b.key).isLE = true).mapM encodeGroup
  match DocumentWire.codec.marshal
      ⟨documentFormat, documentVersion, .ofList features, .ofList groups⟩ with
  | some data => return data
  | none => .error (.external 0)

/-- `decoder.Decode` and `ensureJSONEOF`; the first error is wrapped with `format`. -/
def decodeAll {α : Type} (codec : Codec α) (format : String) (data : Bytes) : Except GoError α :=
  match codec.decodeDocument data with
  | .value a => .ok a
  | .invalid => .error (.wrapf format [] (.external 0))
  | .garbage => .error (.wrapf "decode trailing data: %w" [] (.external 0))
  | .trailing => .error (.errorf "feature document contains trailing data" [])

def Import [Runtime] (ord : MapOrder) (data : Bytes) (limits : Limits) :
    Except GoError (List (Definition κ) × List (GroupDefinition κ)) := do
  rejectIf (len data > limits.maxImportBytes)
    (.wrapf "import exceeds %d bytes: %w" [.d limits.maxImportBytes] (.sentinel .importLimit))
  let document ← decodeAll DocumentWire.codec "decode feature document: %w" data
  rejectIf (document.format ≠ documentFormat ∨ document.version ≠ documentVersion)
    (.errorf "unsupported document %q version %d" [.q document.format, .d document.version])
  let definitions ← document.features.toList.mapM (decodeDefinition ord)
  let groups ← document.groups.toList.mapM decodeGroup
  let _ ← newSnapshotWithGroups ord definitions groups limits
  return (definitions, groups)

end Strategies

end FeatureFlags
