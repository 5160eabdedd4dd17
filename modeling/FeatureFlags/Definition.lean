import FeatureFlags.Strategy

/-!
# Definitions

The feature and group definitions of `definition.go` and `Definition.Validate`.  `Definition.Valid`
lists what `Validate` accepts; which error a refused definition gets depends on the order in which
its variants are visited, acceptance does not (`validate_eq_ok_iff`).
-/

namespace FeatureFlags

open Go

/-! ### Data -/

/-- The labels of the five lifecycles. -/
def lifecycleLabels : List Bytes :=
  [str "draft", str "active", str "inactive", str "deprecated", str "archived"]

/-- `Lifecycle`, a string type: `Validate` accepts every label. -/
inductive Lifecycle where
  | draft
  | active
  | inactive
  | deprecated
  | archived
  | other (label : Bytes) (h : label ∉ lifecycleLabels)
deriving DecidableEq

/-- The string that a lifecycle is. -/
def Lifecycle.label : Lifecycle → Bytes
  | .draft => str "draft"
  | .active => str "active"
  | .inactive => str "inactive"
  | .deprecated => str "deprecated"
  | .archived => str "archived"
  | .other label _ => label

/-- The lifecycle that a string is. -/
def Lifecycle.ofLabel (label : Bytes) : Lifecycle :=
  if h : label ∉ lifecycleLabels then .other label h
  else if label = str "draft" then .draft
  else if label = str "active" then .active
  else if label = str "inactive" then .inactive
  else if label = str "deprecated" then .deprecated
  else .archived

@[simp] theorem Lifecycle.ofLabel_label (l : Lifecycle) : ofLabel l.label = l := by
  cases l with
  | other label h => simp [ofLabel, Lifecycle.label, h]
  | _ => decide

/-- Requires another feature to select a named variant. -/
structure Dependency where
  featureKey : Bytes
  requiredVariant : Bytes
deriving DecidableEq

/-- The native representation of a feature. -/
structure Definition (κ : Type) where
  key : Bytes
  type : ValueType
  default : Value
  variants : GoMap Value
  metadata : GoMap Bytes
  owner : Bytes
  lifecycle : Lifecycle
  dependencies : List Dependency
  groups : List Bytes
  tags : List Bytes
  version : Nat
  strategies : List (Strategy κ)
deriving DecidableEq

/-- Reusable strategies, inherited through a parent chain. -/
structure GroupDefinition (κ : Type) where
  key : Bytes
  parent : Bytes
  metadata : GoMap Bytes
  owner : Bytes
  tags : List Bytes
  version : Nat
  strategies : List (Strategy κ)
deriving DecidableEq

variable {κ : Type} [CustomStrategy κ]

/-- `cloneDefinition`: the copies of slices and maps are the same values, and the strategies are
replaced by their snapshots. -/
def cloneDefinition (d : Definition κ) : Definition κ :=
  { d with strategies := d.strategies.map Strategy.snapshotStrategy }

def cloneGroup (g : GroupDefinition κ) : GroupDefinition κ :=
  { g with strategies := g.strategies.map Strategy.snapshotStrategy }

/-- The strategies are plain values: a snapshot of one is equal to it. -/
def PlainStrategies (κ : Type) [CustomStrategy κ] : Prop :=
  ∀ x : κ, CustomStrategy.snapshotStrategy x = .custom x

theorem plainStrategies_empty : PlainStrategies Empty := fun x => x.elim

namespace PlainStrategies

variable (h : PlainStrategies κ)
include h

theorem snapshotStrategy (strategy : Strategy κ) : strategy.snapshotStrategy = strategy := by
  cases strategy with
  | custom x => exact h x
  | _ => rfl

theorem cloneDefinition (d : Definition κ) : cloneDefinition d = d := by
  simp [FeatureFlags.cloneDefinition, funext h.snapshotStrategy]

theorem cloneGroup (g : GroupDefinition κ) : cloneGroup g = g := by
  simp [FeatureFlags.cloneGroup, funext h.snapshotStrategy]

end PlainStrategies

/-! ### Validation -/

/-- The bounds of a metadata entry.  Every entry is refused with the same text, so the order of the
`range` loop does not show. -/
def validateMetadata (limits : Limits) (metadata : GoMap Bytes) (err : GoError) :
    Except GoError Unit :=
  forEach metadata.toList fun (key, value) =>
    rejectIf (key = [] ∨ len key > limits.maxKeyBytes ∨ len value > limits.maxStringBytes) err

/-- The bounds of a list of tags. -/
def validateTags (limits : Limits) (tags : List Bytes) (err : GoError) : Except GoError Unit :=
  forEach tags fun tag => rejectIf (tag = [] ∨ len tag > limits.maxKeyBytes) err

/-- The checks of `Validate` on one dependency. -/
def validateDependency (limits : Limits) (feature : Bytes) (dependency : Dependency)
    (index : Nat) : Except GoError Unit :=
  rejectIf
    (dependency.featureKey = [] ∨ dependency.requiredVariant = [] ∨ len dependency.featureKey >
      limits.maxKeyBytes ∨ len dependency.requiredVariant > limits.maxKeyBytes)
    (.errorf "feature %q: dependency %d requires feature key and variant" [.q feature, .d index])

/-- The checks of `Validate` on one group attachment. -/
def validateAttachment (limits : Limits) (feature group : Bytes) (index : Nat) :
    Except GoError Unit :=
  rejectIf (group = [] ∨ len group > limits.maxKeyBytes)
    (.errorf "feature %q: group %d exceeds configured bounds" [.q feature, .d index])

/-- The checks of `Validate` on one variant. -/
def validateVariant (limits : Limits) (feature : Bytes) (type : ValueType) (name : Bytes)
    (variant : Value) : Except GoError Unit := do
  rejectIf (name = [] ∨ len name > limits.maxKeyBytes)
    (.errorf "feature %q: variant name is invalid" [.q feature])
  (variant.validate limits).mapError (.wrapf "feature %q variant %q: %w" [.q feature, .q name])
  rejectIf (variant.type ≠ type)
    (.errorf "feature %q: variant %q has type %s, want %s"
      [.q feature, .q name, .s variant.type.name, .s type.name])

/-- The checks of `Validate` on one strategy. -/
def validateFeatureStrategy [Runtime] (limits : Limits) (feature : Bytes) (variants : GoMap Value)
    (strategy : Strategy κ) (index : Nat) : Except GoError Unit := do
  rejectIf strategy.isNil (.errorf "feature %q: strategy %d is nil" [.q feature, .d index])
  rejectIf (strategy.strategyName = [] ∨ len strategy.strategyName > limits.maxKeyBytes)
    (.errorf "feature %q: strategy %d name is invalid" [.q feature, .d index])
  rejectIf (strategy.targetVariant ∉ variants)
    (.errorf "feature %q: strategy %q targets unknown variant %q"
      [.q feature, .q strategy.strategyName, .q strategy.targetVariant])
  (strategy.validateStrategy limits).mapError
    (.wrapf "feature %q: strategy %q: %w" [.q feature, .q strategy.strategyName])

def Definition.validate [Runtime] (ord : MapOrder) (limits : Limits) (d : Definition κ) :
    Except GoError Unit := do
  rejectIf (d.key = [] ∨ len d.key > limits.maxKeyBytes)
    (.errorf "feature key is required and must not exceed %d bytes" [.d limits.maxKeyBytes])
  (d.default.validate limits).mapError (.wrapf "feature %q default: %w" [.q d.key])
  rejectIf (d.default.type ≠ d.type)
    (.errorf "feature %q: default has type %s, want %s"
      [.q d.key, .s d.default.type.name, .s d.type.name])
  rejectIf (d.variants.len > limits.maxVariants)
    (.errorf "feature %q: variants exceed limit %d" [.q d.key, .d limits.maxVariants])
  rejectIf (d.metadata.len > limits.maxMetadata)
    (.errorf "feature %q: metadata entries exceed limit %d" [.q d.key, .d limits.maxMetadata])
  rejectIf (len d.owner > limits.maxStringBytes)
    (.errorf "feature %q: owner exceeds limit %d" [.q d.key, .d limits.maxStringBytes])
  rejectIf (len d.tags > limits.maxTags)
    (.errorf "feature %q: tags exceed limit %d" [.q d.key, .d limits.maxTags])
  rejectIf (len d.strategies > limits.maxStrategies)
    (.errorf "feature %q: strategies exceed limit %d" [.q d.key, .d limits.maxStrategies])
  rejectIf (len d.dependencies > limits.maxDependencies)
    (.errorf "feature %q: dependencies exceed limit %d" [.q d.key, .d limits.maxDependencies])
  rejectIf (len d.groups > limits.maxGroups)
    (.errorf "feature %q: groups exceed limit %d" [.q d.key, .d limits.maxGroups])
  forEach d.dependencies.zipIdx fun x => validateDependency limits d.key x.1 x.2
  forEach d.groups.zipIdx fun x => validateAttachment limits d.key x.1 x.2
  forEach (d.variants.range ord) fun x => validateVariant limits d.key d.type x.1 x.2
  forEach d.strategies.zipIdx fun x => validateFeatureStrategy limits d.key d.variants x.1 x.2
  validateMetadata limits d.metadata
    (.errorf "feature %q: metadata entry exceeds configured bounds" [.q d.key])
  validateTags limits d.tags (.errorf "feature %q: tag exceeds configured bounds" [.q d.key])

/-! ### What validation accepts -/

/-- The bounds of an identifier. -/
def KeyOk (limits : Limits) (key : Bytes) : Prop := key ≠ [] ∧ len key ≤ limits.maxKeyBytes

/-- The bounds of the metadata. -/
def MetadataOk (limits : Limits) (metadata : GoMap Bytes) : Prop :=
  ∀ key value, metadata[key]? = some value → KeyOk limits key ∧ len value ≤ limits.maxStringBytes

/-- What `Validate` asks of a strategy of a feature with these variants. -/
structure StrategyOk [Runtime] (limits : Limits) (variants : GoMap Value) (s : Strategy κ) :
    Prop where
  not_nil : s.isNil = false
  name : KeyOk limits s.strategyName
  target : s.targetVariant ∈ variants
  valid : s.validateStrategy limits = .ok ()

/-- What `Validate` accepts. -/
structure Definition.Valid [Runtime] (limits : Limits) (d : Definition κ) : Prop where
  key : KeyOk limits d.key
  default : d.default.Valid limits
  default_type : d.default.type = d.type
  variants_len : d.variants.len ≤ limits.maxVariants
  metadata_len : d.metadata.len ≤ limits.maxMetadata
  owner : len d.owner ≤ limits.maxStringBytes
  tags_len : len d.tags ≤ limits.maxTags
  strategies_len : len d.strategies ≤ limits.maxStrategies
  dependencies_len : len d.dependencies ≤ limits.maxDependencies
  groups_len : len d.groups ≤ limits.maxGroups
  dependencies : ∀ dep ∈ d.dependencies,
    KeyOk limits dep.featureKey ∧ KeyOk limits dep.requiredVariant
  groups : ∀ g ∈ d.groups, KeyOk limits g
  variants : ∀ name v, d.variants[name]? = some v →
    KeyOk limits name ∧ v.Valid limits ∧ v.type = d.type
  strategies : ∀ s ∈ d.strategies, StrategyOk limits d.variants s
  metadata : MetadataOk limits d.metadata
  tags : ∀ tag ∈ d.tags, KeyOk limits tag

/-- An active boolean feature that selects `on` for everyone, and requires it of others. -/
def onFor (key : Bytes) (requires : List Bytes) : Definition Empty where
  key := key
  type := .boolean
  default := .boolean false
  variants := (∅ : GoMap Value).insert (str "on") (.boolean true)
  metadata := ∅
  owner := []
  lifecycle := .active
  dependencies := requires.map (⟨·, str "on"⟩)
  groups := []
  tags := []
  version := 1
  strategies := [.exactTarget ⟨str "all", str "on", [], [], [], ∅⟩]

/-- A feature, and one that requires it. -/
def featurePair : List (Definition Empty) := [onFor (str "a") [], onFor (str "b") [str "a"]]

/-- A chain of three features. -/
def featureChain : List (Definition Empty) := featurePair ++ [onFor (str "c") [str "b"]]

end FeatureFlags
