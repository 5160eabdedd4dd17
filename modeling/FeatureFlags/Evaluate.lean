import FeatureFlags.Definition
import FeatureFlags.Lib.Dfs

/-!
# Snapshots and evaluation

`evaluate.go`: the validation of a whole graph of features and groups (`newSnapshotWithGroups`) and
the evaluation of one key against it (`Snapshot.evaluate`).

The recursive functions of the source carry a depth that is compared with a limit before anything
else is done.  Here they recurse on the number of levels left, `limit + 1 - depth`: running out of
levels is the source's error for a depth beyond the limit, and nothing else.
-/

namespace FeatureFlags

open Go

/-! ### Results -/

/-- The result of evaluating one feature. -/
structure EvaluationResult where
  value : Value
  variant : Bytes
  reason : Reason
  matchedStrategy : Bytes
  version : Nat
  diagnostics : List Diagnostic
deriving DecidableEq

/-- An immutable collection of definitions and groups; `tenant` is empty if it is not bound. -/
structure Snapshot (κ : Type) where
  definitions : GoMap (Definition κ)
  groups : GoMap (GroupDefinition κ)
  tenant : Bytes
  limits : Limits
deriving DecidableEq

/-- `m[key]` for a `map[string]bool`. -/
def flag (m : GoMap Bool) (key : Bytes) : Bool := m.getD key false

/-- The length of the longest valid prefix of `value` with at most `end` bytes. -/
def validEnd (value : Bytes) : Nat → Nat
  | 0 => 0
  | e + 1 => if ValidString (value.take (e + 1)) then e + 1 else validEnd value e

def truncateUTF8 (value : Bytes) (limit : Int) : Bytes :=
  if limit < 1 then []
  else if min value.length limit.toNat = value.length then value
  else value.take (validEnd value (min value.length limit.toNat))

def boundDiagnostics (diagnostics : List Diagnostic) (limits : Limits) : List Diagnostic :=
  (diagnostics.take limits.maxDiagnostics.toNat).map fun d =>
    ⟨truncateUTF8 d.code limits.maxDiagnosticBytes,
      truncateUTF8 d.message limits.maxDiagnosticBytes⟩

variable {κ : Type} [CustomStrategy κ]

/-! ### The dependency graph -/

/-- The keys that a feature depends on, in order; a missing feature has none. -/
def dependencyKeys (definitions : GoMap (Definition κ)) (key : Bytes) : List Bytes :=
  match definitions[key]? with
  | some d => d.dependencies.map Dependency.featureKey
  | none => []

/-- The error of the closure `visit`. -/
def visitError (limits : Limits) : Dfs.Failure Bytes → GoError
  | .tooDeep key =>
    .errorf "feature %q: dependency depth exceeds %d" [.q key, .d limits.maxEvaluationDepth]
  | .cycle key => .wrapf "feature %q: %w" [.q key] (.sentinel .dependencyCycle)

/-- The check of one dependency of the feature `key`. -/
def validateReference (definitions : GoMap (Definition κ)) (key : Bytes) (dependency : Dependency) :
    Except GoError Unit :=
  match definitions[dependency.featureKey]? with
  | none =>
    .error (.wrapf "feature %q dependency %q: %w" [.q key, .q dependency.featureKey]
      (.sentinel .notFound))
  | some target =>
    rejectIf (dependency.requiredVariant ∉ target.variants)
      (.errorf "feature %q dependency %q requires unknown variant %q"
        [.q key, .q dependency.featureKey, .q dependency.requiredVariant])

/-- `validateDependencyGraph`.  The closure `visit` is `Dfs.visit`, started at every key in the
order of the `range` loop. -/
def validateDependencyGraph (ord : MapOrder) (definitions : GoMap (Definition κ))
    (limits : Limits) : Except GoError Unit := do
  forEach (definitions.range ord) fun x =>
    forEach x.2.dependencies fun dependency => validateReference definitions x.1 dependency
  let _ ← (Dfs.visitAll (dependencyKeys definitions) (limits.maxEvaluationDepth + 1).toNat
    ((definitions.range ord).map Prod.fst) .empty).mapError (visitError limits)

/-! ### Groups -/

/-- `groups[key].Parent`; a missing group has none. -/
def parentOf (groups : GoMap (GroupDefinition κ)) (key : Bytes) : Bytes :=
  match groups[key]? with
  | some g => g.parent
  | none => []

/-- The inner loop of `validateGroupGraph`, with the number of groups it may still pass. -/
def walkParents (groups : GoMap (GroupDefinition κ)) (limits : Limits) (root : Bytes) :
    Nat → Bytes → GoMap Bool → Except GoError Unit
  | 0, current, _ =>
    if current = [] then .ok ()
    else
      .error (.errorf "group %q: inheritance depth exceeds %d" [.q root, .d limits.maxGroupDepth])
  | n + 1, current, visiting =>
    if current = [] then .ok ()
    else if flag visiting current then
      .error (.wrapf "group %q: %w" [.q current] (.sentinel .groupCycle))
    else walkParents groups limits root n (parentOf groups current) (visiting.insert current true)

def validateGroupGraph (ord : MapOrder) (groups : GoMap (GroupDefinition κ)) (limits : Limits) :
    Except GoError Unit :=
  forEach (groups.range ord) fun x =>
    walkParents groups limits x.1 (limits.maxGroupDepth + 1).toNat x.1 ∅

/-- The checks of `cloneAndValidateGroups` on one strategy. -/
def validateGroupStrategy [Runtime] (limits : Limits) (group : Bytes) (strategy : Strategy κ)
    (index : Nat) : Except GoError Unit := do
  rejectIf strategy.isNil (.errorf "group %q: strategy %d is nil" [.q group, .d index])
  rejectIf (strategy.strategyName = [] ∨ len strategy.strategyName > limits.maxKeyBytes)
    (.errorf "group %q: strategy %d name is invalid" [.q group, .d index])
  rejectIf (strategy.targetVariant = [] ∨ len strategy.targetVariant > limits.maxKeyBytes)
    (.errorf "group %q: strategy %q target is invalid" [.q group, .q strategy.strategyName])
  (strategy.validateStrategy limits).mapError
    (.wrapf "group %q strategy %q: %w" [.q group, .q strategy.strategyName])

/-- The checks of `cloneAndValidateGroups` on one group, given the groups before it. -/
def validateGroup [Runtime] (limits : Limits) (cloned : GoMap (GroupDefinition κ))
    (group : GroupDefinition κ) : Except GoError Unit := do
  rejectIf (group.key = [] ∨ len group.key > limits.maxKeyBytes)
    (.errorf "group key is required and must not exceed %d bytes" [.d limits.maxKeyBytes])
  rejectIf (len group.parent > limits.maxKeyBytes)
    (.errorf "group %q: parent exceeds configured bounds" [.q group.key])
  rejectIf (len group.owner > limits.maxStringBytes)
    (.errorf "group %q: owner exceeds configured bounds" [.q group.key])
  rejectIf (group.metadata.len > limits.maxMetadata)
    (.errorf "group %q: metadata entries exceed limit %d" [.q group.key, .d limits.maxMetadata])
  rejectIf (len group.tags > limits.maxTags)
    (.errorf "group %q: tags exceed limit %d" [.q group.key, .d limits.maxTags])
  rejectIf (group.key ∈ cloned) (.errorf "duplicate group %q" [.q group.key])
  rejectIf (len group.strategies > limits.maxStrategies)
    (.errorf "group %q: strategies exceed limit %d" [.q group.key, .d limits.maxStrategies])
  validateMetadata limits group.metadata
    (.errorf "group %q: metadata entry exceeds configured bounds" [.q group.key])
  validateTags limits group.tags
    (.errorf "group %q: tag exceeds configured bounds" [.q group.key])
  forEach group.strategies.zipIdx fun x => validateGroupStrategy limits group.key x.1 x.2

/-- The first loop of `cloneAndValidateGroups`. -/
def cloneGroups [Runtime] (limits : Limits) (groups : List (GroupDefinition κ)) :
    Except GoError (GoMap (GroupDefinition κ)) :=
  groups.foldlM
    (fun cloned group => do
      validateGroup limits cloned group
      return cloned.insert group.key (cloneGroup group)) ∅

/-- The groups from `current` to the root of its chain.  The loop in the source has no counter; `n`
bounds the groups it passes, and `validateGroupGraph` has checked that there are no more. -/
def parentChain (groups : GoMap (GroupDefinition κ)) : Nat → Bytes → List Bytes
  | 0, _ => []
  | n + 1, current =>
    if current = [] then [] else current :: parentChain groups n (parentOf groups current)

/-- The strategies of a group; a missing group has none. -/
def groupStrategies (groups : GoMap (GroupDefinition κ)) (key : Bytes) : List (Strategy κ) :=
  match groups[key]? with
  | some g => g.strategies
  | none => []

/-- The last loop of `cloneAndValidateGroups`, for one attachment of one feature. -/
def validateAttachedGroup (groups : GoMap (GroupDefinition κ)) (limits : Limits)
    (featureKey : Bytes) (definition : Definition κ) (groupKey : Bytes) : Except GoError Unit := do
  rejectIf (groupKey ∉ groups)
    (.wrapf "feature %q group %q: %w" [.q featureKey, .q groupKey] (.sentinel .notFound))
  forEach (parentChain groups (limits.maxGroupDepth + 1).toNat groupKey) fun current =>
    forEach (groupStrategies groups current) fun strategy =>
      rejectIf (strategy.targetVariant ∉ definition.variants)
        (.errorf "feature %q group %q strategy %q targets unknown variant %q"
          [.q featureKey, .q current, .q strategy.strategyName, .q strategy.targetVariant])

def cloneAndValidateGroups [Runtime] (ord : MapOrder) (definitions : GoMap (Definition κ))
    (groups : List (GroupDefinition κ)) (limits : Limits) :
    Except GoError (GoMap (GroupDefinition κ)) := do
  rejectIf (len groups > limits.maxGroups)
    (.errorf "group definitions exceed limit %d" [.d limits.maxGroups])
  let cloned ← cloneGroups limits groups
  forEach (cloned.range ord) fun x =>
    rejectIf (x.2.parent ≠ [] ∧ x.2.parent ∉ cloned)
      (.wrapf "group %q parent %q: %w" [.q x.1, .q x.2.parent] (.sentinel .notFound))
  validateGroupGraph ord cloned limits
  forEach (definitions.range ord) fun x =>
    forEach x.2.groups fun groupKey => validateAttachedGroup cloned limits x.1 x.2 groupKey
  return cloned

/-! ### Construction -/

/-- The first loop of `NewSnapshotWithGroups`. -/
def cloneDefinitions [Runtime] (ord : MapOrder) (limits : Limits)
    (definitions : List (Definition κ)) : Except GoError (GoMap (Definition κ)) :=
  definitions.foldlM
    (fun cloned definition => do
      definition.validate ord limits
      rejectIf (definition.key ∈ cloned) (.errorf "duplicate feature %q" [.q definition.key])
      return cloned.insert definition.key (cloneDefinition definition)) ∅

def newSnapshotWithGroups [Runtime] (ord : MapOrder) (definitions : List (Definition κ))
    (groups : List (GroupDefinition κ)) (limits : Limits) : Except GoError (Snapshot κ) := do
  rejectIf (len definitions > limits.maxFeatures)
    (.errorf "features exceed limit %d" [.d limits.maxFeatures])
  let cloned ← cloneDefinitions ord limits definitions
  validateDependencyGraph ord cloned limits
  let clonedGroups ← cloneAndValidateGroups ord cloned groups limits
  return { definitions := cloned, groups := clonedGroups, tenant := [], limits }

def Snapshot.bindTenant (s : Snapshot κ) (tenant : Bytes) : Snapshot κ := { s with tenant }

/-! ### Evaluation -/

def defaultResult (d : Definition κ) (reason : Reason) (diagnostics : List Diagnostic) :
    EvaluationResult where
  value := d.default
  variant := []
  reason := reason
  matchedStrategy := []
  version := d.version
  diagnostics := diagnostics

/-- `evaluateOneStrategy`; `none` is a strategy that does not match. -/
def evaluateOneStrategy [Runtime] (definition : Definition κ) (strategy : Strategy κ)
    (context : Context) (label : Bytes) (reasonOverride : Reason) (limits : Limits) :
    Except GoError (Option EvaluationResult) := do
  let result ← (strategy.evaluateStrategy ⟨definition.key, context⟩).mapError
    (.wrapf "feature %q strategy %q: %w" [.q definition.key, .q strategy.strategyName])
  if ¬ result.matched then return none
  let reason :=
    if reasonOverride ≠ .unset then reasonOverride
    else if result.reason = .unset then .targetingMatch
    else result.reason
  return some {
    value := definition.variants.getD strategy.targetVariant .zero
    variant := strategy.targetVariant
    reason
    matchedStrategy := label ++ strategy.strategyName
    version := definition.version
    diagnostics := boundDiagnostics result.diagnostics limits }

/-- The first match, or the first error, of a list of strategies. -/
def firstMatch [Runtime] (definition : Definition κ) (context : Context) (label : Bytes)
    (reasonOverride : Reason) (limits : Limits) :
    List (Strategy κ) → Except GoError (Option EvaluationResult)
  | [] => .ok none
  | strategy :: rest => do
    match ← evaluateOneStrategy definition strategy context label reasonOverride limits with
    | some result => return some result
    | none => firstMatch definition context label reasonOverride limits rest

/-- The label of a match inside a group. -/
def groupLabel (key : Bytes) : Bytes := str "group:" ++ key ++ str "/"

namespace Snapshot

variable [Runtime] (s : Snapshot κ)

/-- `evaluateGroup`; the map of visited groups is passed on. -/
def evaluateGroup (definition : Definition κ) (context : Context) :
    Nat → Bytes → GoMap Bool → Except GoError (Option EvaluationResult × GoMap Bool)
  | 0, key, _ =>
    .error (.errorf "group %q: inheritance depth exceeds %d" [.q key, .d s.limits.maxGroupDepth])
  | n + 1, key, visited =>
    if flag visited key then .ok (none, visited)
    else do
      let visited := visited.insert key true
      match ← firstMatch definition context (groupLabel key) .groupMatch s.limits
          (groupStrategies s.groups key) with
      | some result => return (some result, visited)
      | none =>
        if parentOf s.groups key ≠ [] then
          evaluateGroup definition context n (parentOf s.groups key) visited
        else return (none, visited)

/-- The loop over the groups of a feature. -/
def evaluateGroups (definition : Definition κ) (context : Context) :
    List Bytes → GoMap Bool → Except GoError (Option EvaluationResult)
  | [], _ => .ok none
  | key :: rest, visited => do
    match ← s.evaluateGroup definition context (s.limits.maxGroupDepth + 1).toNat key visited with
    | (some result, _) => return some result
    | (none, visited) => evaluateGroups definition context rest visited

/-- What an active feature whose dependencies hold evaluates to. -/
def evaluateStrategies (definition : Definition κ) (context : Context) :
    Except GoError EvaluationResult := do
  match ← s.evaluateGroups definition context definition.groups ∅ with
  | some result => return result
  | none =>
    match ← firstMatch definition context [] .unset s.limits definition.strategies with
    | some result => return result
    | none => return defaultResult definition .default []

def dependencyFailed : List Diagnostic :=
  [⟨str "dependency_failed", str "required feature variant was not selected"⟩]

/-- The loop over the dependencies of the feature `key`: whether all of them hold.  `eval` is the
recursive call. -/
def checkDependencies
    (eval : Bytes → GoMap Bool → Except GoError (EvaluationResult × GoMap Bool)) (key : Bytes) :
    List Dependency → GoMap Bool → Except GoError (Bool × GoMap Bool)
  | [], visiting => .ok (true, visiting)
  | dependency :: rest, visiting => do
    let (result, visiting) ← (eval dependency.featureKey visiting).mapError
      (.wrapf "feature %q dependency %q: %w" [.q key, .q dependency.featureKey])
    if result.variant ≠ dependency.requiredVariant then return (false, visiting)
    else checkDependencies eval key rest visiting

/-- `evaluateKey`.  The map of features being evaluated is passed on; the key is deleted from it on
return. -/
def evaluateKey (context : Context) :
    Nat → Bytes → GoMap Bool → Except GoError (EvaluationResult × GoMap Bool)
  | 0, key, _ =>
    .error (.errorf "feature %q: evaluation depth exceeds %d"
      [.q key, .d s.limits.maxEvaluationDepth])
  | n + 1, key, visiting =>
    if flag visiting key then
      .error (.wrapf "feature %q: %w" [.q key] (.sentinel .dependencyCycle))
    else
      match s.definitions[key]? with
      | none => .error (.wrapf "feature %q: %w" [.q key] (.sentinel .notFound))
      | some definition =>
        let visiting := visiting.insert key true
        if definition.lifecycle ≠ .active then
          .ok (defaultResult definition .inactive [], visiting.erase key)
        else do
          let (hold, visiting) ←
            checkDependencies (evaluateKey context n) key definition.dependencies visiting
          if ¬ hold then
            return (defaultResult definition .dependencyFailed dependencyFailed, visiting.erase key)
          let result ← s.evaluateStrategies definition context
          return (result, visiting.erase key)

def evaluate (ord : MapOrder) (key : Bytes) (expected : ValueType) (context : Context) :
    Except GoError EvaluationResult := do
  rejectIf (s.tenant ≠ [] ∧ context.tenant ≠ s.tenant)
    (.wrapf "snapshot tenant %q: context tenant does not match: %w" [.q s.tenant]
      (.sentinel .tenantMismatch))
  context.validate ord s.limits
  match s.definitions[key]? with
  | none => .error (.wrapf "feature %q: %w" [.q key] (.sentinel .notFound))
  | some definition =>
    rejectIf (definition.type ≠ expected)
      (.errorf "feature %q has type %s, want %s"
        [.q key, .s definition.type.name, .s expected.name])
    let (result, _) ← s.evaluateKey context (s.limits.maxEvaluationDepth + 1).toNat key ∅
    return result

end Snapshot

end FeatureFlags
