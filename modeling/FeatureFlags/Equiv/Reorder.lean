import FeatureFlags.Equiv.Acceptance

/-!
# The order of lists that does not count

The target lists of a strategy, and the dependencies and tags of a definition, are sets as far as
validation and evaluation go.

* `Strategy.Reordered`, `Definition.Reordered`, `GroupDefinition.Reordered`: equal up to the order
  of these lists.
* `SnapshotOk.reordered`, `accepted_of_reordered`: the checks of construction do not see the order;
  the search for cycles does, unless every path of dependencies is within the limit
  (`PathsWithin`).
* `evaluate_of_reordered`: with such paths evaluation does not see it either.
* `Snapshot.evaluate_of_reordered_targets`: the order of tags and target lists never counts.
-/

namespace FeatureFlags

open Go

variable {κ : Type} [CustomStrategy κ] {limits : Limits}

/-! ### Lists and maps with related entries -/

section Related

variable {α β V W : Type} {R : V → W → Prop}

theorem map_eq_of_forall₂ {key : V → Bytes} {key' : W → Bytes} {l : List V} {l' : List W}
    (h : List.Forall₂ R l l') (hkey : ∀ a b, R a b → key a = key' b) : l'.map key' = l.map key := by
  induction h with
  | nil => rfl
  | cons hab _ ih => rw [List.map_cons, List.map_cons, ih, hkey _ _ hab]

theorem forall_mem_of_forall₂ {P : V → Prop} {Q : W → Prop} {l : List V} {l' : List W}
    (h : List.Forall₂ R l l') (hPQ : ∀ a b, R a b → P a → Q b) (hl : ∀ a ∈ l, P a) :
    ∀ b ∈ l', Q b := by
  induction h with
  | nil => exact nofun
  | cons hab _ ih =>
    rw [List.forall_mem_cons] at hl ⊢
    exact ⟨hPQ _ _ hab hl.1, ih hl.2⟩

/-- Loops that insert related entries at the same keys build maps with related entries. -/
theorem GoMap.rel_index {key : α → Bytes} {key' : β → Bytes} {val : α → V} {val' : β → W}
    {l : List α} {l' : List β}
    (h : List.Forall₂ (fun a b => key a = key' b ∧ R (val a) (val' b)) l l') (k : Bytes) :
    Option.Rel R (GoMap.index key val l)[k]? (GoMap.index key' val' l')[k]? := by
  have hfold (m : GoMap V) (m' : GoMap W) (hm : ∀ k : Bytes, Option.Rel R m[k]? m'[k]?) :
      Option.Rel R (l.foldl (fun m x => m.insert (key x) (val x)) m)[k]?
        (l'.foldl (fun m x => m.insert (key' x) (val' x)) m')[k]? := by
    induction h generalizing m m' with
    | nil => exact hm k
    | cons hab _ ih =>
      refine ih _ _ fun k => ?_
      rw [GoMap.lookup_insert, GoMap.lookup_insert, ← hab.1]
      split_ifs
      · exact .some hab.2
      · exact hm k
  exact hfold ∅ ∅ fun k => by rw [Std.ExtTreeMap.getElem?_empty]; exact .none

variable {m : GoMap V} {m' : GoMap W} (h : ∀ k : Bytes, Option.Rel R m[k]? m'[k]?)
include h

variable {k : Bytes}

/-- Related entries stand at the same keys. -/
theorem mem_iff_of_rel : k ∈ m ↔ k ∈ m' := by
  rw [Std.ExtTreeMap.mem_iff_isSome_getElem?, Std.ExtTreeMap.mem_iff_isSome_getElem?]
  have hk := h k
  generalize m[k]? = x at hk ⊢
  generalize m'[k]? = y at hk ⊢
  cases hk <;> rfl

theorem exists_lookup_left {w : W} (hw : m'[k]? = some w) : ∃ v, m[k]? = some v ∧ R v w := by
  have hk := h k
  rw [hw] at hk
  generalize m[k]? = x at hk ⊢
  cases hk with
  | some hvw => exact ⟨_, rfl, hvw⟩

theorem exists_lookup_right {v : V} (hv : m[k]? = some v) : ∃ w, m'[k]? = some w ∧ R v w := by
  have hk := h k
  rw [hv] at hk
  generalize m'[k]? = y at hk ⊢
  cases hk with
  | some hvw => exact ⟨_, rfl, hvw⟩

theorem lookup_none_right (hm : m[k]? = none) : m'[k]? = none := by
  have hk := h k
  rw [hm] at hk
  generalize m'[k]? = y at hk ⊢
  cases hk with
  | none => rfl

end Related

/-! ### Strategies -/

/-- Two strategies that are equal up to the order of their target lists. -/
inductive Strategy.Reordered : Strategy κ → Strategy κ → Prop
  | exactTarget (name variant : Bytes) (attributes : GoMap Bytes)
      {tenants tenants' subjects subjects' environments environments' : List Bytes}
      (htenants : tenants.Perm tenants') (hsubjects : subjects.Perm subjects')
      (henvironments : environments.Perm environments') :
      Reordered (.exactTarget ⟨name, variant, tenants, subjects, environments, attributes⟩)
        (.exactTarget ⟨name, variant, tenants', subjects', environments', attributes⟩)
  | set (name variant : Bytes)
      {allowTenants allowTenants' denyTenants denyTenants' : List Bytes}
      {allowSubjects allowSubjects' denySubjects denySubjects' : List Bytes}
      (hallowTenants : allowTenants.Perm allowTenants')
      (hdenyTenants : denyTenants.Perm denyTenants')
      (hallowSubjects : allowSubjects.Perm allowSubjects')
      (hdenySubjects : denySubjects.Perm denySubjects') :
      Reordered (.set ⟨name, variant, allowTenants, denyTenants, allowSubjects, denySubjects⟩)
        (.set ⟨name, variant, allowTenants', denyTenants', allowSubjects', denySubjects'⟩)
  | refl (s : Strategy κ) : Reordered s s

section Targets

theorem listed_perm {values values' : List Bytes} (h : values.Perm values') (candidate : Bytes) :
    listed values' candidate = listed values candidate := by
  rw [listed, listed, Bool.eq_iff_iff, List.contains_iff_mem, List.contains_iff_mem, h.mem_iff]

theorem listedOrUnrestricted_perm {values values' : List Bytes} (h : values.Perm values')
    (candidate : Bytes) :
    listedOrUnrestricted values' candidate = listedOrUnrestricted values candidate := by
  rw [listedOrUnrestricted, listedOrUnrestricted, listed_perm h, h.isEmpty_eq]

theorem validateTargetValues_perm {limits : Limits} {sets sets'}
    (h : List.Forall₂ List.Perm sets sets') (hok : validateTargetValues limits sets = .ok ()) :
    validateTargetValues limits sets' = .ok () := by
  simp only [validateTargetValues, bind_eq_ok, forEach_eq_ok, rejectIf_eq_ok, exists_const] at hok ⊢
  obtain ⟨hvalues, hsum⟩ := hok
  have hlens : sets'.map len = sets.map len := by
    clear hvalues hsum
    induction h with
    | nil => rfl
    | cons hp _ ih => rw [List.map_cons, List.map_cons, ih, len, len, hp.length_eq]
  refine ⟨?_, hlens ▸ hsum⟩
  clear hsum hlens
  induction h with
  | nil => exact fun _ h => by cases h
  | cons hp _ ih =>
    intro values hmem
    rcases List.mem_cons.mp hmem with rfl | hmem
    · exact fun value hvalue => hvalues _ List.mem_cons_self value (hp.mem_iff.mpr hvalue)
    · exact ih (fun values hmem => hvalues values (List.mem_cons_of_mem _ hmem)) values hmem

end Targets

namespace Strategy.Reordered

variable {s t : Strategy κ}

omit [CustomStrategy κ] in
theorem symm (h : s.Reordered t) : t.Reordered s := by
  cases h with
  | exactTarget name variant attributes h₁ h₂ h₃ =>
    exact .exactTarget name variant attributes h₁.symm h₂.symm h₃.symm
  | set name variant h₁ h₂ h₃ h₄ => exact .set name variant h₁.symm h₂.symm h₃.symm h₄.symm
  | refl => exact .refl s

omit [CustomStrategy κ] in
theorem trans {u : Strategy κ} (h : s.Reordered t) (h' : t.Reordered u) : s.Reordered u := by
  cases h with
  | exactTarget name variant attributes h₁ h₂ h₃ =>
    cases h' with
    | exactTarget _ _ _ h₁' h₂' h₃' =>
      exact .exactTarget name variant attributes (h₁.trans h₁') (h₂.trans h₂') (h₃.trans h₃')
    | refl => exact .exactTarget name variant attributes h₁ h₂ h₃
  | set name variant h₁ h₂ h₃ h₄ =>
    cases h' with
    | set _ _ h₁' h₂' h₃' h₄' =>
      exact .set name variant (h₁.trans h₁') (h₂.trans h₂') (h₃.trans h₃') (h₄.trans h₄')
    | refl => exact .set name variant h₁ h₂ h₃ h₄
  | refl => exact h'

variable (h : s.Reordered t)
include h

theorem isNil_eq : t.isNil = s.isNil := by cases h <;> rfl

theorem strategyName_eq : t.strategyName = s.strategyName := by cases h <;> rfl

theorem targetVariant_eq : t.targetVariant = s.targetVariant := by
  cases h <;> rfl

theorem snapshotStrategy : s.snapshotStrategy.Reordered t.snapshotStrategy := by
  cases h with
  | exactTarget name variant attributes h₁ h₂ h₃ =>
    exact .exactTarget name variant attributes h₁ h₂ h₃
  | set name variant h₁ h₂ h₃ h₄ => exact .set name variant h₁ h₂ h₃ h₄
  | refl => exact .refl _

theorem validateStrategy [Runtime] {limits : Limits}
    (hok : s.validateStrategy limits = .ok ()) : t.validateStrategy limits = .ok () := by
  cases h with
  | exactTarget name variant attributes h₁ h₂ h₃ =>
    simp only [Strategy.validateStrategy, ExactTargetStrategy.validateStrategy, bind_eq_ok] at hok ⊢
    obtain ⟨_, htargets, hattributes⟩ := hok
    exact ⟨(), validateTargetValues_perm (.cons h₁ (.cons h₂ (.cons h₃ .nil))) htargets,
      hattributes⟩
  | set name variant h₁ h₂ h₃ h₄ =>
    exact validateTargetValues_perm (.cons h₁ (.cons h₂ (.cons h₃ (.cons h₄ .nil)))) hok
  | refl => exact hok

theorem evaluateStrategy_eq [Runtime] (input : StrategyInput) :
    t.evaluateStrategy input = s.evaluateStrategy input := by
  cases h with
  | exactTarget name variant attributes h₁ h₂ h₃ =>
    simp only [Strategy.evaluateStrategy, ExactTargetStrategy.evaluateStrategy,
      listedOrUnrestricted_perm h₁, listedOrUnrestricted_perm h₂, listedOrUnrestricted_perm h₃]
  | set name variant h₁ h₂ h₃ h₄ =>
    simp only [Strategy.evaluateStrategy, SetStrategy.evaluateStrategy,
      listedOrUnrestricted_perm h₁, listed_perm h₂, listedOrUnrestricted_perm h₃, listed_perm h₄]
  | refl => rfl

end Strategy.Reordered

/-! ### Definitions and groups -/

/-- Two definitions that are equal up to the order of dependencies, tags and target lists. -/
structure Definition.Reordered (d e : Definition κ) : Prop where
  key : d.key = e.key
  type : d.type = e.type
  default : d.default = e.default
  variants : d.variants = e.variants
  metadata : d.metadata = e.metadata
  owner : d.owner = e.owner
  lifecycle : d.lifecycle = e.lifecycle
  dependencies : d.dependencies.Perm e.dependencies
  groups : d.groups = e.groups
  tags : d.tags.Perm e.tags
  version : d.version = e.version
  strategies : List.Forall₂ Strategy.Reordered d.strategies e.strategies

/-- Two groups that are equal up to the order of tags and target lists. -/
structure GroupDefinition.Reordered (g g' : GroupDefinition κ) : Prop where
  key : g.key = g'.key
  parent : g.parent = g'.parent
  metadata : g.metadata = g'.metadata
  owner : g.owner = g'.owner
  tags : g.tags.Perm g'.tags
  version : g.version = g'.version
  strategies : List.Forall₂ Strategy.Reordered g.strategies g'.strategies

theorem forall₂_snapshotStrategy {l l' : List (Strategy κ)}
    (h : List.Forall₂ Strategy.Reordered l l') :
    List.Forall₂ Strategy.Reordered (l.map Strategy.snapshotStrategy)
      (l'.map Strategy.snapshotStrategy) := by
  rw [List.forall₂_map_left_iff, List.forall₂_map_right_iff]
  exact h.imp fun _ _ h => h.snapshotStrategy

namespace Definition.Reordered

variable {d e : Definition κ}

theorem cloneDefinition (h : d.Reordered e) :
    (cloneDefinition d).Reordered (FeatureFlags.cloneDefinition e) :=
  { h with strategies := forall₂_snapshotStrategy h.strategies }

theorem valid [Runtime] {limits : Limits} (h : d.Reordered e) (hd : d.Valid limits) :
    e.Valid limits where
  key := h.key ▸ hd.key
  default := h.default ▸ hd.default
  default_type := h.default ▸ h.type ▸ hd.default_type
  variants_len := h.variants ▸ hd.variants_len
  metadata_len := h.metadata ▸ hd.metadata_len
  owner := h.owner ▸ hd.owner
  tags_len := by rw [len, ← h.tags.length_eq]; exact hd.tags_len
  strategies_len := by rw [len, ← h.strategies.length_eq]; exact hd.strategies_len
  dependencies_len := by rw [len, ← h.dependencies.length_eq]; exact hd.dependencies_len
  groups_len := h.groups ▸ hd.groups_len
  dependencies dep hdep := hd.dependencies dep (h.dependencies.mem_iff.mpr hdep)
  groups := h.groups ▸ hd.groups
  variants := h.variants ▸ h.type ▸ hd.variants
  strategies := forall_mem_of_forall₂ h.strategies
    (fun _ _ hst hs => ⟨hst.isNil_eq ▸ hs.not_nil, hst.strategyName_eq ▸ hs.name,
      h.variants ▸ hst.targetVariant_eq ▸ hs.target, hst.validateStrategy hs.valid⟩)
    hd.strategies
  metadata := h.metadata ▸ hd.metadata
  tags tag htag := hd.tags tag (h.tags.mem_iff.mpr htag)

omit [CustomStrategy κ] in
theorem defaultResult_eq (h : d.Reordered e) (reason : Reason) (diagnostics : List Diagnostic) :
    defaultResult e reason diagnostics = defaultResult d reason diagnostics := by
  simp only [defaultResult, h.default, h.version]

end Definition.Reordered

namespace GroupDefinition.Reordered

variable {g g' : GroupDefinition κ}

theorem cloneGroup (h : g.Reordered g') : (cloneGroup g).Reordered (FeatureFlags.cloneGroup g') :=
  { h with strategies := forall₂_snapshotStrategy h.strategies }

theorem valid [Runtime] {limits : Limits} (h : g.Reordered g') (hg : g.Valid limits) :
    g'.Valid limits where
  key := h.key ▸ hg.key
  parent := h.parent ▸ hg.parent
  owner := h.owner ▸ hg.owner
  metadata_len := h.metadata ▸ hg.metadata_len
  tags_len := by rw [len, ← h.tags.length_eq]; exact hg.tags_len
  strategies_len := by rw [len, ← h.strategies.length_eq]; exact hg.strategies_len
  metadata := h.metadata ▸ hg.metadata
  tags tag htag := hg.tags tag (h.tags.mem_iff.mpr htag)
  strategies := forall_mem_of_forall₂ h.strategies
    (fun _ _ hst hs => ⟨hst.isNil_eq ▸ hs.not_nil, hst.strategyName_eq ▸ hs.name,
      hst.targetVariant_eq ▸ hs.target, hst.validateStrategy hs.valid⟩)
    hg.strategies

end GroupDefinition.Reordered

/-! ### What the checks of a snapshot read -/

/-- Two definitions with the same key, version and groups, the same names of variants and the same
dependencies, up to their order. -/
structure Definition.Resembles (d e : Definition κ) : Prop where
  key : d.key = e.key
  version : d.version = e.version
  groups : d.groups = e.groups
  variants : ∀ name, name ∈ d.variants ↔ name ∈ e.variants
  dependencies : d.dependencies.Perm e.dependencies

/-- Two groups with the same key, parent and version, whose strategies have the same names and
target variants. -/
structure GroupDefinition.Resembles (g g' : GroupDefinition κ) : Prop where
  key : g.key = g'.key
  parent : g.parent = g'.parent
  version : g.version = g'.version
  strategies : List.Forall₂ (fun s t : Strategy κ =>
    t.strategyName = s.strategyName ∧ t.targetVariant = s.targetVariant) g.strategies g'.strategies

omit [CustomStrategy κ] in
theorem Definition.Reordered.resembles {d e : Definition κ} (h : d.Reordered e) : d.Resembles e :=
  ⟨h.key, h.version, h.groups, fun _ => h.variants ▸ Iff.rfl, h.dependencies⟩

theorem GroupDefinition.Reordered.resembles {g g' : GroupDefinition κ} (h : g.Reordered g') :
    g.Resembles g' :=
  ⟨h.key, h.parent, h.version,
    h.strategies.imp fun _ _ hst => ⟨hst.strategyName_eq, hst.targetVariant_eq⟩⟩

omit [CustomStrategy κ] in
theorem rel_imp {V : Type} {R R' : V → V → Prop} {m m' : GoMap V}
    (h : ∀ k : Bytes, Option.Rel R m[k]? m'[k]?) (himp : ∀ v v', R v v' → R' v v') (k : Bytes) :
    Option.Rel R' m[k]? m'[k]? := by
  have hk := h k
  generalize m[k]? = x at hk ⊢
  generalize m'[k]? = y at hk ⊢
  cases hk with
  | none => exact .none
  | some hv => exact .some (himp _ _ hv)

omit [CustomStrategy κ] in
theorem rel_resembles {m m' : GoMap (Definition κ)}
    (h : ∀ k : Bytes, Option.Rel Definition.Reordered m[k]? m'[k]?) (k : Bytes) :
    Option.Rel Definition.Resembles m[k]? m'[k]? :=
  rel_imp h (fun _ _ => Definition.Reordered.resembles) k

theorem rel_resembles_groups {m m' : GoMap (GroupDefinition κ)}
    (h : ∀ k : Bytes, Option.Rel GroupDefinition.Reordered m[k]? m'[k]?) (k : Bytes) :
    Option.Rel GroupDefinition.Resembles m[k]? m'[k]? :=
  rel_imp h (fun _ _ => GroupDefinition.Reordered.resembles) k

/-! ### Graphs -/

variable {key : Bytes}

section Graphs

variable {definitions definitions' : GoMap (Definition κ)}
  {groups groups' : GoMap (GroupDefinition κ)}

omit [CustomStrategy κ] in
theorem dependencyKeys_perm
    (h : ∀ k : Bytes, Option.Rel Definition.Resembles definitions[k]? definitions'[k]?)
    (key : Bytes) : (dependencyKeys definitions key).Perm (dependencyKeys definitions' key) := by
  have hk := h key
  unfold dependencyKeys
  generalize definitions[key]? = x at hk ⊢
  generalize definitions'[key]? = y at hk ⊢
  cases hk with
  | none => exact .refl []
  | some hde => exact hde.dependencies.map _

omit [CustomStrategy κ] in
theorem references_resembles
    (h : ∀ k : Bytes, Option.Rel Definition.Resembles definitions[k]? definitions'[k]?)
    (hrefs : References definitions) : References definitions' := by
  intro key e he dep hdep
  obtain ⟨d, hd, hde⟩ := exists_lookup_left h he
  obtain ⟨target, htarget, hvariant⟩ := hrefs key d hd dep (hde.dependencies.mem_iff.mpr hdep)
  have hk := h dep.featureKey
  rw [htarget] at hk
  generalize definitions'[dep.featureKey]? = y at hk ⊢
  cases hk with
  | some htt => exact ⟨_, rfl, (htt.variants _).mp hvariant⟩

section

variable (h : ∀ k : Bytes, Option.Rel GroupDefinition.Resembles groups[k]? groups'[k]?)
include h

theorem parentOf_eq (key : Bytes) : parentOf groups' key = parentOf groups key := by
  have hk := h key
  unfold parentOf
  generalize groups[key]? = x at hk ⊢
  generalize groups'[key]? = y at hk ⊢
  cases hk with
  | none => rfl
  | some hgg => exact hgg.parent.symm

theorem parentKeys_eq : parentKeys groups' = parentKeys groups := by
  funext key
  rw [parentKeys, parentKeys, parentOf_eq h]

theorem parentChain_eq (n : Nat) :
    ∀ key : Bytes, parentChain groups' n key = parentChain groups n key := by
  induction n with
  | zero => exact fun key => rfl
  | succ n ih => exact fun key => by rw [parentChain, parentChain, parentOf_eq h, ih]

end

omit [CustomStrategy κ] in
theorem groupStrategies_reordered
    (h : ∀ k : Bytes, Option.Rel GroupDefinition.Reordered groups[k]? groups'[k]?) (key : Bytes) :
    List.Forall₂ Strategy.Reordered (groupStrategies groups key) (groupStrategies groups' key) := by
  have hk := h key
  unfold groupStrategies
  generalize groups[key]? = x at hk ⊢
  generalize groups'[key]? = y at hk ⊢
  cases hk with
  | none => exact .nil
  | some hgg => exact hgg.strategies

theorem groupStrategies_resembles
    (h : ∀ k : Bytes, Option.Rel GroupDefinition.Resembles groups[k]? groups'[k]?) (key : Bytes) :
    List.Forall₂ (fun s t : Strategy κ =>
      t.strategyName = s.strategyName ∧ t.targetVariant = s.targetVariant)
      (groupStrategies groups key) (groupStrategies groups' key) := by
  have hk := h key
  unfold groupStrategies
  generalize groups[key]? = x at hk ⊢
  generalize groups'[key]? = y at hk ⊢
  cases hk with
  | none => exact .nil
  | some hgg => exact hgg.strategies

theorem AttachmentOk.resembles {limits : Limits} {d e : Definition κ}
    (hgroups : ∀ k : Bytes, Option.Rel GroupDefinition.Resembles groups[k]? groups'[k]?)
    (hde : d.Resembles e) (h : AttachmentOk groups limits d key) :
    AttachmentOk groups' limits e key where
  exists_group := (mem_iff_of_rel hgroups).mp h.exists_group
  targets k hk := by
    rw [parentChain_eq hgroups] at hk
    refine forall_mem_of_forall₂ (groupStrategies_resembles hgroups k) ?_ (h.targets k hk)
    intro s t hst hs
    rw [hst.2, ← hde.variants]
    exact hs

end Graphs

/-! ### Acceptance -/

section Acceptance

variable {definitions definitions' : List (Definition κ)}
  {groups groups' : List (GroupDefinition κ)}

theorem definitionIndex_reordered
    (h : List.Forall₂ Definition.Reordered definitions definitions') (key : Bytes) :
    Option.Rel Definition.Reordered (definitionIndex definitions)[key]?
      (definitionIndex definitions')[key]? :=
  GoMap.rel_index (h.imp fun _ _ hde => ⟨hde.key, hde.cloneDefinition⟩) key

theorem groupIndex_reordered
    (h : List.Forall₂ GroupDefinition.Reordered groups groups') (key : Bytes) :
    Option.Rel GroupDefinition.Reordered (groupIndex groups)[key]? (groupIndex groups')[key]? :=
  GoMap.rel_index (h.imp fun _ _ hgg => ⟨hgg.key, hgg.cloneGroup⟩) key

variable [Runtime]

/-- Apart from the search, acceptance does not depend on the order. -/
theorem SnapshotOk.reordered (h : SnapshotOk definitions groups limits)
    (hd : List.Forall₂ Definition.Reordered definitions definitions')
    (hg : List.Forall₂ GroupDefinition.Reordered groups groups') :
    SnapshotOk definitions' groups' limits where
  features_len := by rw [len, ← hd.length_eq]; exact h.features_len
  valid := forall_mem_of_forall₂ hd (fun _ _ hde => hde.valid) h.valid
  nodup := by rw [map_eq_of_forall₂ hd fun _ _ hde => hde.key]; exact h.nodup
  references := references_resembles (rel_resembles (definitionIndex_reordered hd)) h.references
  groups_ok := {
    groups_len := by rw [len, ← hg.length_eq]; exact h.groups_ok.groups_len
    valid := forall_mem_of_forall₂ hg (fun _ _ hgg => hgg.valid) h.groups_ok.valid
    nodup := by rw [map_eq_of_forall₂ hg fun _ _ hgg => hgg.key]; exact h.groups_ok.nodup
    parents := by
      intro key g' hg' hparent
      obtain ⟨g, hlookup, hgg⟩ := exists_lookup_left (groupIndex_reordered hg) hg'
      rw [← hgg.parent] at hparent ⊢
      exact (mem_iff_of_rel (groupIndex_reordered hg)).mp
        (h.groups_ok.parents key g hlookup hparent)
    bounded := by
      intro key hkey
      rw [parentKeys_eq (rel_resembles_groups (groupIndex_reordered hg))]
      exact h.groups_ok.bounded key ((mem_iff_of_rel (groupIndex_reordered hg)).mpr hkey)
    attached := by
      intro key e he group hgroup
      obtain ⟨d, hlookup, hde⟩ := exists_lookup_left (definitionIndex_reordered hd) he
      rw [← hde.groups] at hgroup
      exact (h.groups_ok.attached key d hlookup group hgroup).resembles
        (rel_resembles_groups (groupIndex_reordered hg)) hde.resembles }

/-- Every path of dependencies has at most `maxEvaluationDepth` edges. -/
def PathsWithin (definitions : GoMap (Definition κ)) (limits : Limits) : Prop :=
  ∀ key ∈ definitions, ∀ path : List Bytes,
    (key :: path).IsChain (Dfs.Edge (dependencyKeys definitions)) →
      len path ≤ limits.maxEvaluationDepth

omit [CustomStrategy κ] [Runtime] in
theorem PathsWithin.bounded {definitions : GoMap (Definition κ)}
    (h : PathsWithin definitions limits) (hkey : key ∈ definitions) :
    0 ≤ limits.maxEvaluationDepth ∧
      Dfs.Bounded (dependencyKeys definitions) limits.maxEvaluationDepth.toNat key := by
  have hpos : 0 ≤ limits.maxEvaluationDepth := h key hkey [] (List.isChain_singleton key)
  refine ⟨hpos, Dfs.bounded_iff.mpr fun path hpath => ?_⟩
  have hlen := h key hkey path hpath
  rw [len] at hlen
  omega

omit [CustomStrategy κ] [Runtime] in
theorem PathsWithin.resembles {definitions definitions' : GoMap (Definition κ)}
    (hd : ∀ k : Bytes, Option.Rel Definition.Resembles definitions[k]? definitions'[k]?)
    (h : PathsWithin definitions limits) : PathsWithin definitions' limits := by
  intro key hkey path hpath
  refine h key ((mem_iff_of_rel hd).mpr hkey) path (hpath.imp fun v w hvw => ?_)
  exact (dependencyKeys_perm hd v).mem_iff.mpr hvw

omit [CustomStrategy κ] [Runtime] in
theorem PathsWithin.searched {definitions : GoMap (Definition κ)}
    (h : PathsWithin definitions limits) (ord : MapOrder) : Searched ord definitions limits := by
  cases hkeys : (definitions.range ord).map Prod.fst with
  | nil => exact ⟨.empty, by rw [hkeys]; rfl⟩
  | cons key keys =>
    have hkey : key ∈ definitions := mem_keys_iff.mp (hkeys ▸ List.mem_cons_self)
    have hlevels : (limits.maxEvaluationDepth + 1).toNat =
        limits.maxEvaluationDepth.toNat + 1 := by
      have := (h.bounded hkey).1
      omega
    unfold Searched
    rw [hlevels]
    exact Dfs.visitAll_of_bounded _ (fun v hv => (h.bounded (mem_keys_iff.mp hv)).2) .empty rfl

/-- Reordered definitions with paths within the limit are accepted in every order of the maps. -/
theorem accepted_of_reordered {ord : MapOrder} (ord' : MapOrder)
    (hacc : Accepted ord definitions groups limits)
    (hpaths : PathsWithin (definitionIndex definitions) limits)
    (hd : List.Forall₂ Definition.Reordered definitions definitions')
    (hg : List.Forall₂ GroupDefinition.Reordered groups groups') :
    Accepted ord' definitions' groups' limits :=
  accepted_iff.mpr ⟨(accepted_iff.mp hacc).1.reordered hd hg,
    (hpaths.resembles (rel_resembles (definitionIndex_reordered hd))).searched ord'⟩

end Acceptance

/-! ### Evaluation -/

section Attempts

variable [Runtime]

/-- Two attempts that are equal up to the order of target lists. -/
structure Attempt.Reordered (a b : Attempt κ) : Prop where
  label : a.label = b.label
  override : a.override = b.override
  strategy : a.strategy.Reordered b.strategy

theorem evaluateOneStrategy_of_reordered {d e : Definition κ} {s t : Strategy κ}
    (hde : d.Reordered e) (hst : s.Reordered t) (context : Context) (label : Bytes)
    (reasonOverride : Reason) (limits : Limits) :
    evaluateOneStrategy e t context label reasonOverride limits =
      evaluateOneStrategy d s context label reasonOverride limits := by
  simp only [evaluateOneStrategy, ← hde.key, ← hde.variants, ← hde.version,
    hst.evaluateStrategy_eq, hst.strategyName_eq, hst.targetVariant_eq]

theorem decideBy_of_reordered {d e : Definition κ} (hde : d.Reordered e) (context : Context)
    (limits : Limits) {l l'} (h : List.Forall₂ Attempt.Reordered l l') :
    decideBy e context limits l' = decideBy d context limits l := by
  induction h with
  | nil => rfl
  | cons hab _ ih =>
    rw [decideBy, decideBy, evaluateOneStrategy_of_reordered hde hab.strategy, ← hab.label,
      ← hab.override, ih]

end Attempts

namespace AcyclicSnapshot

variable [Runtime] {s s' : AcyclicSnapshot κ}
  (hdefs : ∀ k : Bytes, Option.Rel Definition.Reordered s.definitions[k]? s'.definitions[k]?)
  (hgroups : ∀ k : Bytes, Option.Rel GroupDefinition.Reordered s.groups[k]? s'.groups[k]?)
  (hlimits : s'.limits = s.limits)

section Chains

include hgroups

omit [Runtime] in
theorem chain_of_reordered (key : Bytes) : s'.chain key = s.chain key := by
  induction key using s.parents_wf.induction with
  | _ key ih =>
    by_cases hkey : key = []
    · rw [hkey, chain_nil, chain_nil]
    · rw [chain_of_ne hkey, chain_of_ne hkey, parentOf_eq (rel_resembles_groups hgroups),
        ih _ (by simp [parentKeys, hkey])]

omit [Runtime] in
theorem attempts_of_reordered {d e : Definition κ} (hde : d.Reordered e) :
    List.Forall₂ Attempt.Reordered (s.attempts d) (s'.attempts e) := by
  refine List.rel_append ?_ ?_
  · rw [← hde.groups]
    refine List.rel_flatMap (R := Eq) (List.forall₂_refl d.groups) fun group _ hgroup => ?_
    obtain rfl := hgroup
    rw [chain_of_reordered hgroups]
    refine List.rel_flatMap (R := Eq) (List.forall₂_refl (s.chain group)) fun key _ hkey => ?_
    obtain rfl := hkey
    rw [groupAttempts, groupAttempts, List.forall₂_map_left_iff, List.forall₂_map_right_iff]
    exact (groupStrategies_reordered hgroups key).imp fun _ _ hst => ⟨rfl, rfl, hst⟩
  · rw [List.forall₂_map_left_iff, List.forall₂_map_right_iff]
    exact hde.strategies.imp fun _ _ hst => ⟨rfl, rfl, hst⟩

end Chains

/-- If every dependency evaluates, the verdict on the dependencies is that all of them hold. -/
theorem allHold_eq_ok {context : Context} {l : List Dependency}
    (hl : ∀ dep ∈ l, ∃ r, s.policy context dep.featureKey = .ok r) :
    allHold key (l.map fun dep => (dep, s.policy context dep.featureKey)) =
      .ok (l.all (s.holds context)) := by
  induction l with
  | nil => rfl
  | cons dep l ih =>
    obtain ⟨⟨r, hr⟩, hrest⟩ := List.forall_mem_cons.mp hl
    rw [List.map_cons, allHold, ih hrest, hr, List.all_cons]
    simp only [holds, hr, Except.mapError, bind, Except.bind]
    by_cases hv : r.variant = dep.requiredVariant
    · simp [hv]
    · simp [hv, pure, Except.pure]

include hdefs hgroups hlimits

/-- If every feature has a result, reordered snapshots have the same policy. -/
theorem policy_of_reordered (hrefs : References s.definitions) {context : Context}
    (hok : ∀ key ∈ s.definitions, ∃ r, s.policy context key = .ok r) (key : Bytes) :
    s'.policy context key = s.policy context key := by
  induction key using s.dependencies_wf.induction with
  | _ key ih =>
    cases hd : s.definitions[key]? with
    | none => rw [policy_of_lookup_none hd, policy_of_lookup_none (lookup_none_right hdefs hd)]
    | some d =>
      obtain ⟨e, he, hde⟩ := exists_lookup_right hdefs hd
      have hfound : ∀ dep ∈ d.dependencies,
          ∃ r, s.policy context dep.featureKey = .ok r := by
        intro dep hdep
        obtain ⟨target, htarget, -⟩ := hrefs key d hd dep hdep
        exact hok dep.featureKey (GoMap.mem_of_lookup htarget)
      have hrec : ∀ dep ∈ d.dependencies,
          s'.policy context dep.featureKey = s.policy context dep.featureKey := by
        intro dep hdep
        refine ih dep.featureKey ?_
        rw [dependencyKeys, hd]
        exact List.mem_map_of_mem hdep
      -- the verdict on the dependencies is a conjunction, so their order does not count
      have hhold : allHold key (e.dependencies.map fun dep =>
            (dep, s'.policy context dep.featureKey)) =
          allHold key (d.dependencies.map fun dep => (dep, s.policy context dep.featureKey)) := by
        have hmem {dep : Dependency} : dep ∈ e.dependencies → dep ∈ d.dependencies :=
          hde.dependencies.mem_iff.mpr
        rw [allHold_eq_ok hfound, allHold_eq_ok fun dep hdep => by
          rw [hrec dep (hmem hdep)]; exact hfound dep (hmem hdep)]
        rw [hde.dependencies.all_eq, Except.ok.injEq, Bool.eq_iff_iff, List.all_eq_true,
          List.all_eq_true]
        refine forall₂_congr fun dep hdep => ?_
        rw [holds, holds, hrec dep (hmem hdep)]
      rw [policy_of_lookup hd, policy_of_lookup he, hhold, hlimits,
        decideBy_of_reordered hde context s.limits (attempts_of_reordered hgroups hde),
        hde.defaultResult_eq, hde.defaultResult_eq, hde.defaultResult_eq, hde.lifecycle]

end AcyclicSnapshot

/-! ### Accepted snapshots -/

omit [CustomStrategy κ] in
@[simp] theorem Snapshot.bindTenant_definitions (s : Snapshot κ) (tenant : Bytes) :
    (s.bindTenant tenant).definitions = s.definitions := rfl

omit [CustomStrategy κ] in
@[simp] theorem Snapshot.bindTenant_tenant (s : Snapshot κ) (tenant : Bytes) :
    (s.bindTenant tenant).tenant = tenant := rfl

section Accepted

variable [Runtime] {ord ord' : MapOrder} {definitions definitions' : List (Definition Empty)}
  {groups groups' : List (GroupDefinition Empty)} {s s' : Snapshot Empty}

variable (h : newSnapshotWithGroups ord definitions groups limits = .ok s)
include h

theorem evaluateKey_of_pathsWithin (hpaths : PathsWithin s.definitions limits) (tenant : Bytes)
    (hkey : key ∈ s.definitions) (context : Context) :
    (s.bindTenant tenant).evaluateKey context (limits.maxEvaluationDepth + 1).toNat key ∅ =
      ((Snapshot.acyclic h tenant).policy context key).map (·, ∅) := by
  obtain ⟨hpos, hbounded⟩ := hpaths.bounded hkey
  have hlevels : (limits.maxEvaluationDepth + 1).toNat = limits.maxEvaluationDepth.toNat + 1 := by
    omega
  have hconsulted : Dfs.Bounded ((Snapshot.acyclic h tenant).consultedKeys context)
      limits.maxEvaluationDepth.toNat key :=
    hbounded.of_subset fun v w hw => AcyclicSnapshot.mem_dependencyKeys_of_mem_consultedKeys hw
  rw [hlevels]
  exact AcyclicSnapshot.evaluateKey_eq_policy_of_bounded (groupsBounded_acyclic h tenant) _
    hconsulted (by simp)

/-- **The order does not count**: accepted snapshots that are equal up to the order of dependencies,
tags and target lists evaluate alike, if every path of dependencies is within the limit. -/
theorem evaluate_of_reordered
    (h' : newSnapshotWithGroups ord' definitions' groups' limits = .ok s')
    (hpaths : PathsWithin s.definitions limits)
    (hdefs : ∀ k : Bytes, Option.Rel Definition.Reordered s.definitions[k]? s'.definitions[k]?)
    (hgroups : ∀ k : Bytes, Option.Rel GroupDefinition.Reordered s.groups[k]? s'.groups[k]?)
    (tenant : Bytes) (ord₁ : MapOrder) (key : Bytes) (expected : ValueType) (context : Context) :
    (s'.bindTenant tenant).evaluate ord₁ key expected context =
      (s.bindTenant tenant).evaluate ord₁ key expected context := by
  have hlimits : (s.bindTenant tenant).limits = limits := (limits_eq h :)
  have hlimits' : (s'.bindTenant tenant).limits = limits := (limits_eq h' :)
  have hrefs : References s.definitions := by
    obtain ⟨hok, -, rfl⟩ := newSnapshotWithGroups_eq_ok_iff.mp h
    exact hok.references
  rw [Snapshot.evaluate, Snapshot.evaluate, hlimits, hlimits']
  simp only [Snapshot.bindTenant_definitions, Snapshot.bindTenant_tenant]
  cases hd : s.definitions[key]? with
  | none => rw [lookup_none_right hdefs hd]; rfl
  | some d =>
    obtain ⟨e, he, hde⟩ := exists_lookup_right hdefs hd
    have hkey : key ∈ s.definitions := GoMap.mem_of_lookup hd
    have hpolicy : (Snapshot.acyclic h' tenant).policy context key =
        (Snapshot.acyclic h tenant).policy context key :=
      AcyclicSnapshot.policy_of_reordered hdefs hgroups (hlimits'.trans hlimits.symm) hrefs
        (exists_policy_eq_ok h tenant context) key
    rw [he]
    dsimp only
    rw [evaluateKey_of_pathsWithin h hpaths tenant hkey,
      evaluateKey_of_pathsWithin h' (hpaths.resembles (rel_resembles hdefs)) tenant
        ((mem_iff_of_rel hdefs).mp hkey), hpolicy, hde.type]
    rfl

end Accepted

/-! ### Dependencies in the same order -/

namespace Snapshot

variable [Runtime] {s s' : Snapshot κ}

theorem firstMatch_of_reordered {d e : Definition κ} (hde : d.Reordered e) (context : Context)
    (label : Bytes) (reasonOverride : Reason) (limits : Limits) {l l'}
    (h : List.Forall₂ Strategy.Reordered l l') :
    firstMatch e context label reasonOverride limits l' =
      firstMatch d context label reasonOverride limits l := by
  induction h with
  | nil => rfl
  | cons hst _ ih => rw [firstMatch, firstMatch, evaluateOneStrategy_of_reordered hde hst, ih]

variable (hgroups : ∀ k : Bytes, Option.Rel GroupDefinition.Reordered s.groups[k]? s'.groups[k]?)
  (hlimits : s'.limits = s.limits)

section Groups

include hgroups hlimits

theorem evaluateGroup_of_reordered {d e : Definition κ} (hde : d.Reordered e) (context : Context)
    (n : Nat) (key : Bytes) (visited : GoMap Bool) :
    s'.evaluateGroup e context n key visited = s.evaluateGroup d context n key visited := by
  induction n generalizing key visited with
  | zero => rw [evaluateGroup, evaluateGroup, hlimits]
  | succ n ih =>
    rw [evaluateGroup, evaluateGroup, hlimits, parentOf_eq (rel_resembles_groups hgroups),
      firstMatch_of_reordered hde context _ _ _ (groupStrategies_reordered hgroups key)]
    simp only [ih]

theorem evaluateStrategies_of_reordered {d e : Definition κ} (hde : d.Reordered e)
    (context : Context) : s'.evaluateStrategies e context = s.evaluateStrategies d context := by
  have hloop (l : List Bytes) (visited : GoMap Bool) :
      s'.evaluateGroups e context l visited = s.evaluateGroups d context l visited := by
    induction l generalizing visited with
    | nil => rfl
    | cons key l ih =>
      rw [evaluateGroups, evaluateGroups, hlimits, evaluateGroup_of_reordered hgroups hlimits hde]
      simp only [ih]
  rw [evaluateStrategies, evaluateStrategies, hloop, hlimits, ← hde.groups,
    firstMatch_of_reordered hde context _ _ _ hde.strategies]
  simp only [hde.defaultResult_eq]

end Groups

variable (hdefs : ∀ k : Bytes, Option.Rel (fun d e : Definition κ => d.Reordered e ∧
  e.dependencies = d.dependencies) s.definitions[k]? s'.definitions[k]?)
include hgroups hlimits hdefs

/-- If the dependencies are in the same order too, every step of an evaluation is the same. -/
theorem evaluateKey_of_reordered (context : Context) (n : Nat) (key : Bytes)
    (visiting : GoMap Bool) :
    s'.evaluateKey context n key visiting = s.evaluateKey context n key visiting := by
  induction n generalizing key visiting with
  | zero => rw [evaluateKey, evaluateKey, hlimits]
  | succ n ih =>
    rw [evaluateKey, evaluateKey, funext fun key => funext fun visiting => ih key visiting]
    cases hd : s.definitions[key]? with
    | none => rw [lookup_none_right hdefs hd]
    | some d =>
      obtain ⟨e, he, hde, hdeps⟩ := exists_lookup_right hdefs hd
      rw [he]
      simp only [hdeps, hde.defaultResult_eq, ← hde.lifecycle,
        evaluateStrategies_of_reordered hgroups hlimits hde]

/-- Snapshots that are equal up to the order of tags and target lists evaluate alike. -/
theorem evaluate_of_reordered_targets (htenant : s'.tenant = s.tenant) (ord : MapOrder)
    (key : Bytes) (expected : ValueType) (context : Context) :
    s'.evaluate ord key expected context = s.evaluate ord key expected context := by
  rw [evaluate, evaluate, hlimits, htenant, evaluateKey_of_reordered hgroups hlimits hdefs]
  cases hd : s.definitions[key]? with
  | none => rw [lookup_none_right hdefs hd]
  | some d =>
    obtain ⟨e, he, hde, -⟩ := exists_lookup_right hdefs hd
    rw [he]
    simp only [hde.type]

end Snapshot

end FeatureFlags
