import FeatureFlags.Definition

/-!
# What `Definition.Validate` accepts

`Definition.validate_eq_ok_iff`: the checks of `Validate` together are `Definition.Valid`, whatever
the order in which the variants are visited.
-/

namespace FeatureFlags

open Go

variable {κ : Type} [CustomStrategy κ]

variable {limits : Limits}

theorem keyOk_iff {key : Bytes} :
    KeyOk limits key ↔ ¬ (key = [] ∨ len key > limits.maxKeyBytes) := by
  unfold KeyOk
  simp

variable {u : Unit}

theorem validateMetadata_eq_ok_iff {metadata : GoMap Bytes} {err : GoError} :
    validateMetadata limits metadata err = .ok u ↔ MetadataOk limits metadata := by
  simp [validateMetadata, MetadataOk, KeyOk, and_assoc]

theorem validateTags_eq_ok_iff {tags : List Bytes} {err : GoError} :
    validateTags limits tags err = .ok u ↔ ∀ tag ∈ tags, KeyOk limits tag := by
  simp [validateTags, KeyOk]

theorem validateDependency_eq_ok_iff {feature : Bytes} {dep : Dependency} {index : Nat} :
    validateDependency limits feature dep index = .ok u ↔
      KeyOk limits dep.featureKey ∧ KeyOk limits dep.requiredVariant := by
  simp only [validateDependency, rejectIf_eq_ok, KeyOk, not_or, gt_iff_lt, not_lt, ne_eq]
  constructor
  · rintro ⟨h₁, h₂, h₃, h₄⟩
    exact ⟨⟨h₁, h₃⟩, h₂, h₄⟩
  · rintro ⟨⟨h₁, h₃⟩, h₂, h₄⟩
    exact ⟨h₁, h₂, h₃, h₄⟩

theorem validateAttachment_eq_ok_iff {feature group : Bytes} {index : Nat} :
    validateAttachment limits feature group index = .ok u ↔ KeyOk limits group := by
  rw [validateAttachment, rejectIf_eq_ok, keyOk_iff]

theorem validateVariant_eq_ok_iff {feature name : Bytes} {type : ValueType} {v : Value} :
    validateVariant limits feature type name v = .ok u ↔
      KeyOk limits name ∧ v.Valid limits ∧ v.type = type := by
  simp only [validateVariant, bind_eq_ok, rejectIf_eq_ok, mapError_eq_ok, exists_const,
    Value.validate_eq_ok_iff, keyOk_iff, ne_eq, not_not]

theorem validateFeatureStrategy_eq_ok_iff [Runtime] {feature : Bytes} {variants : GoMap Value}
    {s : Strategy κ} {index : Nat} :
    validateFeatureStrategy limits feature variants s index = .ok u ↔
      StrategyOk limits variants s := by
  simp only [validateFeatureStrategy, bind_eq_ok, rejectIf_eq_ok, mapError_eq_ok, exists_const,
    Bool.not_eq_true, not_not]
  constructor
  · rintro ⟨h₁, h₂, h₃, h₄⟩
    exact ⟨h₁, keyOk_iff.mpr h₂, h₃, h₄⟩
  · intro h
    exact ⟨h.not_nil, keyOk_iff.mp h.name, h.target, h.valid⟩

theorem Definition.validate_eq_ok_iff [Runtime] {ord : MapOrder} {limits : Limits}
    {d : Definition κ} {u : Unit} : d.validate ord limits = .ok u ↔ d.Valid limits := by
  have hdeps (u : Unit) :
      forEach d.dependencies.zipIdx (fun x => validateDependency limits d.key x.1 x.2) = .ok u ↔
        ∀ dep ∈ d.dependencies, KeyOk limits dep.featureKey ∧ KeyOk limits dep.requiredVariant :=
    forEach_zipIdx_eq_ok fun _ _ => validateDependency_eq_ok_iff
  have hgroups (u : Unit) :
      forEach d.groups.zipIdx (fun x => validateAttachment limits d.key x.1 x.2) = .ok u ↔
        ∀ g ∈ d.groups, KeyOk limits g :=
    forEach_zipIdx_eq_ok fun _ _ => validateAttachment_eq_ok_iff
  have hstrategies (u : Unit) :
      forEach d.strategies.zipIdx
          (fun x => validateFeatureStrategy limits d.key d.variants x.1 x.2) = .ok u ↔
        ∀ s ∈ d.strategies, StrategyOk limits d.variants s :=
    forEach_zipIdx_eq_ok fun _ _ => validateFeatureStrategy_eq_ok_iff
  have hvariants : (∀ x ∈ d.variants.range ord,
      KeyOk limits x.1 ∧ x.2.Valid limits ∧ x.2.type = d.type) ↔
      ∀ name v, d.variants[name]? = some v →
        KeyOk limits name ∧ v.Valid limits ∧ v.type = d.type := by
    simp only [Prod.forall, GoMap.mem_range]
  simp only [validate, bind_eq_ok, rejectIf_eq_ok, mapError_eq_ok, exists_const,
    Value.validate_eq_ok_iff, validateMetadata_eq_ok_iff, validateTags_eq_ok_iff, ← keyOk_iff,
    hdeps, hgroups, hstrategies, forEach_eq_ok, validateVariant_eq_ok_iff, hvariants, ne_eq,
    not_not, gt_iff_lt, not_lt]
  constructor
  · rintro ⟨h₁, h₂, h₃, h₄, h₅, h₆, h₇, h₈, h₉, h₁₀, h₁₁, h₁₂, h₁₃, h₁₄, h₁₅, h₁₆⟩
    exact ⟨h₁, h₂, h₃, h₄, h₅, h₆, h₇, h₈, h₉, h₁₀, h₁₁, h₁₂, h₁₃, h₁₄, h₁₅, h₁₆⟩
  · intro h
    exact ⟨h.key, h.default, h.default_type, h.variants_len, h.metadata_len, h.owner, h.tags_len,
      h.strategies_len, h.dependencies_len, h.groups_len, h.dependencies, h.groups, h.variants,
      h.strategies, h.metadata, h.tags⟩

end FeatureFlags
