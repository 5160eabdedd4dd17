import FeatureFlags.Equiv.Runs

/-!
# How many features a tenant retains

`Create` counts tombstones against `MaxFeatures`, `ImportDocument` does not: it only builds a
snapshot of the features that are not deleted.

* `Effect.retained`: what each operation does to the number of records.
* `retained_within_limit_iff`: the records of a tenant stay within the limit exactly when
  each import finds room for the features it adds.
* `retained_beyond_limit`: a run that leaves more.
-/

namespace FeatureFlags

open Go Lib

variable {κ : Type}

/-! ### Counting records -/

section Counting

variable [CustomStrategy κ]

/-- The changes that are applied are to features that have a record. -/
theorem mem_of_foldlM_applyStageStep {tenant : Bytes} {staged}
    {ids : List Nat} {m m' : GoMap (MemoryRecord κ) × List (Definition κ)}
    (h : ids.foldlM (applyStageStep tenant staged) m = .ok m') (key : Bytes) :
    key ∈ m'.1 ↔ key ∈ m.1 := by
  induction ids generalizing m with
  | nil =>
    cases h
    rfl
  | cons id ids ih =>
    rw [List.foldlM_cons, bind_eq_ok] at h
    obtain ⟨m₁, hstep, hrest⟩ := h
    obtain ⟨change, record, -, hrecord, -, -, hm₁⟩ := applyStageStep_eq_ok hstep
    rw [ih hrest, hm₁, GoMap.mem_insert_iff]
    constructor
    · rintro (rfl | hmem)
      · exact GoMap.mem_of_lookup hrecord
      · exact hmem
    · exact .inr

variable {policy : ConflictPolicy}

theorem mem_planFeature {plan : ImportPlan κ} {d : Definition κ} {key : Bytes} :
    key ∈ (planFeature policy plan d).records ↔ key ∈ plan.records ∨ d.key = key := by
  unfold planFeature
  split
  · rename_i current hcurrent
    have hmem : d.key = key → key ∈ plan.records := fun h => h ▸ GoMap.mem_of_lookup hcurrent
    dsimp only
    split_ifs
    · rw [GoMap.mem_insert_iff, or_comm]
    · exact (or_iff_left_of_imp hmem).symm
  · rw [GoMap.mem_insert_iff, or_comm]

variable {definitions : List (Definition κ)}

theorem mem_foldl_planFeature {plan : ImportPlan κ} {key : Bytes} :
    key ∈ (definitions.foldl (planFeature policy) plan).records ↔
      key ∈ plan.records ∨ key ∈ definitions.map Definition.key := by
  induction definitions generalizing plan with
  | nil => simp
  | cons d definitions ih =>
    rw [List.foldl_cons, ih, mem_planFeature, List.map_cons, List.mem_cons, or_assoc,
      eq_comm (a := key)]

theorem mem_importPlan {dryRun : Bool} {groups : List (GroupDefinition κ)} {s : TenantState κ}
    {key : Bytes} :
    key ∈ (importPlan policy dryRun definitions groups s).records ↔
      key ∈ s.features ∨ key ∈ definitions.map Definition.key := by
  rw [importPlan, mem_foldl_planFeature, foldl_planGroup_records]
  simp only [cloneMemoryRecords, Std.ExtTreeMap.mem_map]

/-- The features of a document that the tenant has no record of. -/
def newFeatures (definitions : List (Definition κ)) (s : TenantState κ) : List (Definition κ) :=
  definitions.filter fun d => d.key ∉ s.features

theorem importPlan_len {dryRun : Bool} (groups : List (GroupDefinition κ)) (s : TenantState κ)
    (nodup : (definitions.map Definition.key).Nodup) :
    (importPlan policy dryRun definitions groups s).records.len =
      s.features.len + len (newFeatures definitions s) := by
  have hlen : len (newFeatures definitions s) =
      ((newFeatures definitions s).map Definition.key).length := by
    rw [List.length_map]
    rfl
  rw [hlen]
  refine GoMap.len_of_added (nodup.sublist (List.filter_sublist.map Definition.key)) (fun key => ?_)
    fun key hkey => ?_
  · rw [mem_importPlan]
    by_cases hmem : key ∈ s.features
    · simp [hmem]
    · simp only [hmem, false_or, newFeatures, List.mem_map, List.mem_filter, decide_eq_true_eq]
      constructor
      · rintro ⟨d, hd, rfl⟩
        exact ⟨d, ⟨hd, hmem⟩, rfl⟩
      · rintro ⟨d, ⟨hd, -⟩, rfl⟩
        exact ⟨d, hd, rfl⟩
  · simp only [newFeatures, List.mem_map, List.mem_filter, decide_eq_true_eq] at hkey
    obtain ⟨d, ⟨-, hd⟩, rfl⟩ := hkey
    exact hd

end Counting

/-! ### One operation -/

section Operations

variable {ord : MapOrder} {limits : Limits} {tenant : Bytes}
  {call : Call κ} {s t : TenantState κ}

theorem write_len {key actor : Bytes} {old record : MemoryRecord κ} {action : AuditAction}
    (found : s.features[key]? = some old) :
    (s.write limits key record action actor).features.len = s.features.len :=
  GoMap.len_insert_of_mem record (GoMap.mem_of_lookup found)

variable [CustomStrategy κ] [Runtime]

/-- `Create` checks the limit, an import adds the features that have no record, and the other
operations add none. -/
theorem Effect.retained (h : Effect ord limits tenant call s t) :
    t.features.len ≤ s.features.len ∨ t.features.len ≤ limits.maxFeatures ∨
      ∃ data options actor definitions groups, call = .importDocument data options actor ∧
        options.dryRun = false ∧ Import ord data limits = .ok (definitions, groups) ∧
        t.features.len = s.features.len + len (newFeatures definitions s) := by
  cases h with
  | create valid absent room =>
    exact .inr (.inl ((GoMap.len_insert_of_not_mem _ absent).trans_le room))
  | update valid live | activate live | deactivate live | delete live | assignGroup found live
  | removeGroup live => exact .inl (write_len live.1).le
  | restore found deleted => exact .inl (write_len found).le
  | applied due replaced valid =>
    left
    rw [TenantState.struck_features]
    refine (GoMap.len_eq_of_keys fun key => ?_).le
    rw [mem_of_foldlM_applyStageStep replaced]
    simp only [cloneMemoryRecords, Std.ExtTreeMap.mem_map]
  | imported applied resolved read valid =>
    refine .inr (.inr ⟨_, _, _, _, _, rfl, applied, read, ?_⟩)
    rw [TenantState.imported_features]
    exact importPlan_len _ s (import_nodup read)
  | cleanup features =>
    left
    rw [features]
    split_ifs
    · exact Int.ofNat_le.mpr Std.ExtTreeMap.size_filter_le_size
    · exact le_rfl
  | _ => exact .inl le_rfl

end Operations

/-! ### Runs -/

section Runs

variable [CustomStrategy κ] [Runtime] {limits : Limits} {tenant : Bytes} {s : TenantState κ}

/-- The call applies a document that the tenant's records, tombstones included, leave room for. -/
def Event.ImportFits (limits : Limits) (e : Event κ) : Prop :=
  ∀ data options actor definitions groups, e.call = .importDocument data options actor →
    options.dryRun = false → e.Succeeds → Import e.ord data limits = .ok (definitions, groups) →
    e.before.features.len + len (newFeatures definitions e.before) ≤ limits.maxFeatures

/-- A call keeps to the limit if the document it imports fits. -/
theorem Event.Returns.retained {e : Event κ} (h : e.Returns limits tenant)
    (hfits : e.ImportFits limits) (hbefore : e.before.features.len ≤ limits.maxFeatures) :
    e.after.features.len ≤ limits.maxFeatures := by
  rcases h.effect with ⟨hok, heffect⟩ | hsame
  · rcases heffect.retained with hle | hle |
      ⟨data, options, actor, definitions, groups, hcall, hdry, himport, hlen⟩
    · exact hle.trans hbefore
    · exact hle
    · rw [hlen]
      exact hfits data options actor definitions groups hcall hdry hok himport
  · rw [hsame]
    exact hbefore

/-- If the limit is kept, the document of a call that imports one fitted. -/
theorem Event.Returns.importFits {e : Event κ} (h : e.Returns limits tenant)
    (hafter : e.after.features.len ≤ limits.maxFeatures) : e.ImportFits limits := by
  rintro data options actor definitions groups hcall hdry ⟨response, hok⟩ himport
  unfold Event.Returns at h
  rw [hok, hcall] at h
  have heffect := effect_of_exec h
  generalize e.after = after at heffect hafter
  generalize e.before = before at heffect ⊢
  cases heffect with
  | imported applied resolved read valid =>
    rw [himport] at read
    cases read
    rwa [TenantState.imported_features, importPlan_len _ _ (import_nodup himport)] at hafter
  | dryRun dry =>
    rw [hdry] at dry
    cases dry
  | read reads => rcases reads with h | ⟨_, h⟩ | h | h <;> cases h
  | applied due => rcases due with ⟨_, h, _⟩ | ⟨_, h, _⟩ <;> cases h

/-- The records of a tenant stay within `MaxFeatures`, tombstones included, in every state of a run
exactly when every document that it applies leaves room for the tombstones. -/
theorem retained_within_limit_iff {events : List (Event κ)} (run : Run limits tenant events s)
    (hmax : 0 ≤ limits.maxFeatures) :
    (∀ k ≤ events.length, (stateAt events s k).features.len ≤ limits.maxFeatures) ↔
      ∀ e ∈ events, e.ImportFits limits := by
  constructor
  · intro h e he
    obtain ⟨k, hk, -, hafter⟩ := run.exists_stateAt he
    refine (run.returns_of_mem he).importFits ?_
    rw [← hafter]
    exact h (k + 1) hk
  · intro h k hk
    refine run.always (fun s => s.features.len ≤ limits.maxFeatures) hmax ?_ hk
    exact fun e he => (run.returns_of_mem he).retained (h e he)

end Runs

/-- The document of a feature, as `Export` writes it. -/
def exported [Runtime] (definition : Definition Empty) : Bytes :=
  match Export .sorted [definition] [] defaultLimits with
  | .ok data => data
  | .error _ => []

/-- A feature is deleted, and a document with another one is imported. -/
def deleteThenImport [Runtime] : List (Call Empty) :=
  [.create (onFor (str "a") []) [], .delete (str "a") 1 [],
    .importDocument (exported (onFor (str "b") [])) ⟨false, .fail⟩ []]

/-- Limits with room for `n` features. -/
def featureLimits (n : Int) : Limits := { defaultLimits with maxFeatures := n }

/-- The events of `deleteThenImport`, with room for `n` features. -/
def deletesThenImports [Runtime] (n : Int) : List (Event Empty) :=
  performAll (featureLimits n) (str "t") .sorted .background deleteThenImport .empty

/-- With room for two features the run keeps to the limit. -/
theorem retained_within_limit_iff_two :
    letI := unaryRuntime
    let events := deletesThenImports 2
    let s := Run.lastState events
    Run (featureLimits 2) (str "t") events s ∧ s.features.len = 2 ∧
      ((∀ k ≤ events.length, (stateAt events s k).features.len ≤ (featureLimits 2).maxFeatures) ↔
        ∀ e ∈ events, e.ImportFits (featureLimits 2)) := by
  let _ := unaryRuntime
  have run := run_of_calls (featureLimits 2) (str "t") .sorted .background deleteThenImport
    (by decide +kernel)
  exact ⟨run, by decide +kernel, retained_within_limit_iff run (by decide)⟩

/-- With room for one feature the run ends with two records. -/
theorem retained_beyond_limit :
    letI := unaryRuntime
    let events := deletesThenImports 1
    let s := Run.lastState events
    Run (featureLimits 1) (str "t") events s ∧ s.features.len = 2 := by
  let _ := unaryRuntime
  have run := run_of_calls (featureLimits 1) (str "t") .sorted .background deleteThenImport
    (by decide +kernel)
  exact ⟨run, by decide +kernel⟩

end FeatureFlags
