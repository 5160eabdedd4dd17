import FeatureFlags.Equiv.Snapshot

/-!
# The evaluation policy

What an evaluation means, by recursion on the acyclic graphs of a snapshot: no depth, no set of
features being evaluated and no set of visited groups.

* `AcyclicSnapshot`: a snapshot whose two graphs have no cycle, which every accepted one is
  (`Snapshot.acyclic`).
* `AcyclicSnapshot.attempts`: the strategies of a feature in the order in which they are tried.
* `AcyclicSnapshot.policy`: what a feature evaluates to.
* `AcyclicSnapshot.consultedKeys`: the dependencies that the policy looks at in a given context.
-/

namespace FeatureFlags

open Go Relation

variable {κ : Type} [CustomStrategy κ] [Runtime]

/-! ### Attempts -/

/-- A strategy as it is tried for a feature: `label` is put before its name if it matches, and
`override` replaces its reason. -/
structure Attempt (κ : Type) where
  label : Bytes
  override : Reason
  strategy : Strategy κ

/-- The first match, or the first error, decides. -/
def decideBy (definition : Definition κ) (context : Context) (limits : Limits) :
    List (Attempt κ) → Except GoError (Option EvaluationResult)
  | [] => .ok none
  | a :: rest => do
    match ← evaluateOneStrategy definition a.strategy context a.label a.override limits with
    | some result => return some result
    | none => decideBy definition context limits rest

/-- Whether all dependencies hold, given the result of each. -/
def allHold (key : Bytes) : List (Dependency × Except GoError EvaluationResult) →
    Except GoError Bool
  | [] => .ok true
  | (dependency, outcome) :: rest => do
    let result ← outcome.mapError
      (.wrapf "feature %q dependency %q: %w" [.q key, .q dependency.featureKey])
    if result.variant ≠ dependency.requiredVariant then return false else allHold key rest

/-- What a feature evaluates to when no strategy decides: its default, without a variant. -/
def undecided (definition : Definition κ) (reason : Reason) (diagnostics : List Diagnostic) :
    EvaluationResult :=
  ⟨definition.default, [], reason, [], definition.version, diagnostics⟩

/-! ### Acyclic snapshots -/

/-- A snapshot whose graphs of dependencies and of parents have no cycle. -/
structure AcyclicSnapshot (κ : Type) extends Snapshot κ where
  dependencies_wf : WellFounded fun w v => w ∈ dependencyKeys definitions v
  parents_wf : WellFounded fun w v => w ∈ parentKeys groups v

/-- An accepted snapshot is acyclic, whatever tenant it is bound to. -/
def Snapshot.acyclic {ord : MapOrder} {definitions : List (Definition κ)}
    {groups : List (GroupDefinition κ)} {limits : Limits} {s : Snapshot κ}
    (h : newSnapshotWithGroups ord definitions groups limits = .ok s) (tenant : Bytes) :
    AcyclicSnapshot κ where
  toSnapshot := s.bindTenant tenant
  dependencies_wf := by
    obtain ⟨-, hs, rfl⟩ := newSnapshotWithGroups_eq_ok_iff.mp h
    exact hs.wellFounded
  parents_wf := by
    obtain ⟨hok, -, rfl⟩ := newSnapshotWithGroups_eq_ok_iff.mp h
    exact hok.groups_ok.wellFounded

namespace AcyclicSnapshot

variable (s : AcyclicSnapshot κ)

/-- A group and its ancestors. -/
def chain (key : Bytes) : List Bytes :=
  if key = [] then [] else key :: chain (parentOf s.groups key)
termination_by s.parents_wf.wrap key
decreasing_by
  rename_i hkey
  simp [WellFounded.wrap, parentKeys, hkey]

/-- The strategies of a group, as they are tried. -/
def groupAttempts (key : Bytes) : List (Attempt κ) :=
  (groupStrategies s.groups key).map fun strategy => ⟨groupLabel key, .groupMatch, strategy⟩

/-- The strategies that a feature tries: for each of its groups the strategies of the group and of
its ancestors, then its own. -/
def attempts (definition : Definition κ) : List (Attempt κ) :=
  (definition.groups.flatMap fun key => (s.chain key).flatMap s.groupAttempts) ++
    definition.strategies.map fun strategy => ⟨[], .unset, strategy⟩

/-- What the feature `key` evaluates to. -/
def policy (context : Context) (key : Bytes) : Except GoError EvaluationResult :=
  match _hd : s.definitions[key]? with
  | none => .error (.wrapf "feature %q: %w" [.q key] (.sentinel .notFound))
  | some definition =>
    if definition.lifecycle ≠ .active then .ok (undecided definition .inactive [])
    else do
      let hold ← allHold key (definition.dependencies.map fun dependency =>
        (dependency, policy context dependency.featureKey))
      if ¬ hold then
        return undecided definition .dependencyFailed
          [⟨str "dependency_failed", str "required feature variant was not selected"⟩]
      match ← decideBy definition context s.limits (s.attempts definition) with
      | some result => return result
      | none => return undecided definition .default []
termination_by s.dependencies_wf.wrap key
decreasing_by
  simp only [WellFounded.wrap, dependencyKeys, _hd]
  exact List.mem_map_of_mem ‹_›

/-- Whether the dependency selects the variant that is asked for. -/
def holds (context : Context) (dependency : Dependency) : Bool :=
  match s.policy context dependency.featureKey with
  | .ok result => result.variant = dependency.requiredVariant
  | .error _ => false

/-- The dependencies up to the first that does not hold. -/
def consulted (context : Context) : List Dependency → List Dependency
  | [] => []
  | dependency :: rest =>
    dependency :: if s.holds context dependency then consulted context rest else []

/-- The features whose result the policy of `key` depends on directly. -/
def consultedKeys (context : Context) (key : Bytes) : List Bytes :=
  match s.definitions[key]? with
  | some definition =>
    if definition.lifecycle = .active then
      (s.consulted context definition.dependencies).map Dependency.featureKey
    else []
  | none => []

end AcyclicSnapshot

end FeatureFlags
