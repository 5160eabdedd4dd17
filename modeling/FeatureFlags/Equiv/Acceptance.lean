import FeatureFlags.Equiv.Evaluate

/-!
# Acceptance and evaluation

The search of `validateDependencyGraph` does not enter a feature twice, so the depth of a feature is
checked along the first path that meets it only, and which path that is depends on the order of the
map.  Two consequences.

* `evaluate_eq_ok_iff`: an accepted snapshot evaluates a feature iff the chains of dependencies that
  the policy consults from it have at most `maxEvaluationDepth` edges; acceptance does not imply
  that (`accepted_evaluate_too_deep`).
* `accepted_order_independent_iff`: when acceptance does not depend on the order; in general it does
  (`accepted_depends_on_order`).
-/

namespace FeatureFlags

open Go Relation

/-! ### Built-in strategies do not fail -/

variable {limits : Limits} {key : Bytes}

section Builtin

theorem exists_allHold_eq_ok (key : Bytes) (l : List (Dependency × Except GoError EvaluationResult))
    (hl : ∀ x ∈ l, ∃ r, x.2 = .ok r) : ∃ hold, allHold key l = .ok hold := by
  induction l with
  | nil => exact ⟨true, rfl⟩
  | cons x l ih =>
    obtain ⟨dep, outcome⟩ := x
    obtain ⟨r, hr⟩ := hl _ List.mem_cons_self
    obtain ⟨hold, hhold⟩ := ih fun y hy => hl y (List.mem_cons_of_mem _ hy)
    simp only at hr
    rw [allHold, hr]
    simp only [Except.mapError, bind, Except.bind]
    split_ifs
    · exact ⟨false, rfl⟩
    · exact ⟨hold, hhold⟩

variable [Runtime]

/-- A strategy that passed validation evaluates: the time zone is loaded as it was then. -/
theorem exists_evaluateStrategy_eq_ok {strategy : Strategy Empty}
    (h : strategy.validateStrategy limits = .ok ()) (input : StrategyInput) :
    ∃ result, strategy.evaluateStrategy input = .ok result := by
  cases strategy with
  | exactTarget s | percentage s | set s | timeWindow s | fact s => exact ⟨_, rfl⟩
  | custom s => exact s.elim
  | schedule s =>
    simp only [Strategy.validateStrategy, ScheduleStrategy.validateStrategy, bind_eq_ok,
      mapError_eq_ok] at h
    obtain ⟨-, -, location, hlocation, -⟩ := h
    simp only [Strategy.evaluateStrategy, ScheduleStrategy.evaluateStrategy, hlocation]
    split_ifs
    · exact ⟨_, rfl⟩
    · exact ⟨_, rfl⟩

theorem exists_decideBy_eq_ok (definition : Definition Empty) (context : Context)
    (l : List (Attempt Empty)) (hl : ∀ a ∈ l, a.strategy.validateStrategy limits = .ok ()) :
    ∃ r, decideBy definition context limits l = .ok r := by
  induction l with
  | nil => exact ⟨none, rfl⟩
  | cons a l ih =>
    obtain ⟨result, hresult⟩ := exists_evaluateStrategy_eq_ok (hl a List.mem_cons_self)
      ⟨definition.key, context⟩
    obtain ⟨r, hr⟩ := ih fun b hb => hl b (List.mem_cons_of_mem a hb)
    rw [decideBy, evaluateOneStrategy, hresult]
    simp only [Except.mapError, bind, Except.bind]
    by_cases hm : result.matched = true
    · rw [if_neg (not_not.mpr hm)]
      exact ⟨_, rfl⟩
    · rw [if_pos hm]
      exact ⟨r, hr⟩

variable {ord : MapOrder} {definitions : List (Definition Empty)}
  {groups : List (GroupDefinition Empty)} {limits : Limits} {s : Snapshot Empty}

variable (h : newSnapshotWithGroups ord definitions groups limits = .ok s)
include h

/-- Every strategy that a feature of an accepted snapshot tries has passed validation. -/
theorem validateStrategy_attempts (tenant : Bytes) {d} (hd : s.definitions[key]? = some d) :
    ∀ a ∈ (Snapshot.acyclic h tenant).attempts d,
      a.strategy.validateStrategy s.limits = .ok () := by
  intro a ha
  rcases List.mem_append.mp ha with ha | ha
  · obtain ⟨g, -, ha⟩ := List.mem_flatMap.mp ha
    obtain ⟨k, -, ha⟩ := List.mem_flatMap.mp ha
    obtain ⟨strategy, hstrategy, rfl⟩ := List.mem_map.mp ha
    obtain ⟨hok, -, rfl⟩ := newSnapshotWithGroups_eq_ok_iff.mp h
    change strategy ∈ groupStrategies (groupIndex groups) k at hstrategy
    unfold groupStrategies at hstrategy
    cases hg : (groupIndex groups)[k]? with
    | none => simp [hg] at hstrategy
    | some g =>
      rw [hg] at hstrategy
      obtain ⟨g₀, hmem, -, hclone⟩ := (GoMap.lookup_index hok.groups_ok.nodup).mp hg
      rw [plainStrategies_empty.cloneGroup] at hclone
      subst hclone
      exact ((hok.groups_ok.valid g₀ hmem).strategies strategy hstrategy).valid
  · obtain ⟨strategy, hstrategy, rfl⟩ := List.mem_map.mp ha
    obtain ⟨d₀, -, -, hclone, hvalid⟩ := lookup_definitions h hd
    rw [plainStrategies_empty.cloneDefinition] at hclone
    subst hclone
    rw [limits_eq h]
    exact (hvalid.strategies strategy hstrategy).valid

/-- With built-in strategies the policy gives every feature of an accepted snapshot a result. -/
theorem exists_policy_eq_ok (tenant : Bytes) (context : Context) (key : Bytes) :
    key ∈ s.definitions → ∃ r, (Snapshot.acyclic h tenant).policy context key = .ok r := by
  induction key using (Snapshot.acyclic h tenant).dependencies_wf.induction with
  | _ key ih =>
    intro hkey
    obtain ⟨d, hd⟩ : ∃ d, s.definitions[key]? = some d := GoMap.mem_iff.mp hkey
    have hrefs : References s.definitions := by
      obtain ⟨hok, -, rfl⟩ := newSnapshotWithGroups_eq_ok_iff.mp h
      exact hok.references
    rw [AcyclicSnapshot.policy_of_lookup hd]
    by_cases hactive : d.lifecycle = .active
    · obtain ⟨hold, hhold⟩ := exists_allHold_eq_ok key
        (d.dependencies.map fun dep =>
          (dep, (Snapshot.acyclic h tenant).policy context dep.featureKey)) (by
        intro x hx
        obtain ⟨dep, hdep, rfl⟩ := List.mem_map.mp hx
        obtain ⟨target, htarget, -⟩ := hrefs key d hd dep hdep
        refine ih dep.featureKey ?_ ?_
        · change dep.featureKey ∈ dependencyKeys s.definitions key
          rw [dependencyKeys, hd]
          exact List.mem_map_of_mem hdep
        · exact GoMap.mem_of_lookup htarget)
      obtain ⟨r, hr⟩ := exists_decideBy_eq_ok d context _ (validateStrategy_attempts h tenant hd)
      rw [if_neg (not_not.mpr hactive), hhold]
      change ∃ r, (if ¬ hold = true then _ else
        (decideBy d context s.limits ((Snapshot.acyclic h tenant).attempts d)).bind _) = .ok r
      rw [hr]
      cases hold with
      | false => exact ⟨_, rfl⟩
      | true =>
        cases r with
        | some result => exact ⟨result, rfl⟩
        | none => exact ⟨_, rfl⟩
    · rw [if_pos hactive]
      exact ⟨_, rfl⟩

end Builtin

/-! ### Accepted snapshots that evaluate -/

section Evaluation

variable [Runtime] {ord ord' : MapOrder} {definitions : List (Definition Empty)}
  {groups : List (GroupDefinition Empty)} {limits : Limits} {s : Snapshot Empty}

theorem exists_evaluate_eq_ok_iff {s : Snapshot Empty} {context : Context} {d}
    (htenant : s.tenant = [] ∨ context.tenant = s.tenant)
    (hcontext : context.validate ord' s.limits = .ok ()) (hd : s.definitions[key]? = some d) :
    (∃ r, s.evaluate ord' key d.type context = .ok r) ↔
      ∃ x, s.evaluateKey context (s.limits.maxEvaluationDepth + 1).toNat key ∅ = .ok x := by
  have hpass : ¬ (s.tenant ≠ [] ∧ context.tenant ≠ s.tenant) := by
    rcases htenant with h | h <;> simp [h]
  simp only [Snapshot.evaluate, bind_eq_ok, rejectIf_eq_ok, hd, hpass, hcontext, pure_eq_ok]
  constructor
  · rintro ⟨r, -, -, -, -, -, -, x, hx, -⟩
    exact ⟨x, hx⟩
  · rintro ⟨x, hx⟩
    exact ⟨x.1, (), fun h => h, (), trivial, (), by simp, x, hx, rfl⟩

/-- A search with a root and no level fails, so the limit of a snapshot with features is not
negative. -/
theorem depth_nonneg_of_mem (h : newSnapshotWithGroups ord definitions groups limits = .ok s)
    (hkey : key ∈ s.definitions) : 0 ≤ limits.maxEvaluationDepth := by
  obtain ⟨-, hs, rfl⟩ := newSnapshotWithGroups_eq_ok_iff.mp h
  by_contra hneg
  obtain ⟨s', hs'⟩ := hs
  have hzero : (limits.maxEvaluationDepth + 1).toNat = 0 := by omega
  rw [hzero] at hs'
  have hnil := Dfs.visitAll_zero_iff.mp ⟨s', hs'⟩
  obtain ⟨d, hd⟩ := GoMap.mem_iff.mp hkey
  have hmem : key ∈ ((definitionIndex definitions).range ord).map Prod.fst :=
    List.mem_map.mpr ⟨(key, d), GoMap.mem_range.mpr hd, rfl⟩
  rw [hnil] at hmem
  cases hmem

/-- **When validation and evaluation agree**: with built-in strategies, a feature of an accepted
snapshot evaluates in a valid context of its tenant iff no chain of consulted dependencies from it
has more than `maxEvaluationDepth` edges. -/
theorem evaluate_eq_ok_iff (h : newSnapshotWithGroups ord definitions groups limits = .ok s)
    {tenant key : Bytes} {context : Context} {d : Definition Empty}
    (htenant : tenant = [] ∨ context.tenant = tenant)
    (hcontext : context.validate ord' limits = .ok ()) (hd : s.definitions[key]? = some d) :
    (∃ r, (s.bindTenant tenant).evaluate ord' key d.type context = .ok r) ↔
      ∀ path : List Bytes, (key :: path).IsChain
          (fun v w => w ∈ (Snapshot.acyclic h tenant).consultedKeys context v) →
        len path ≤ limits.maxEvaluationDepth := by
  have hkey : key ∈ s.definitions := GoMap.mem_of_lookup hd
  have hpos := depth_nonneg_of_mem h hkey
  have hlimits := limits_eq h
  have hlevels : (limits.maxEvaluationDepth + 1).toNat = limits.maxEvaluationDepth.toNat + 1 := by
    omega
  have hbounded : (∀ path : List Bytes, (key :: path).IsChain (fun v w => w ∈ (Snapshot.acyclic h
        tenant).consultedKeys context v) → len path ≤ limits.maxEvaluationDepth) ↔
      Dfs.Bounded ((Snapshot.acyclic h tenant).consultedKeys context)
        limits.maxEvaluationDepth.toNat key := by
    rw [Dfs.bounded_iff]
    refine forall₂_congr fun path _ => ?_
    rw [len]
    omega
  rw [exists_evaluate_eq_ok_iff (s := s.bindTenant tenant) htenant (hlimits ▸ hcontext) hd,
    hbounded]
  change (∃ x, (Snapshot.acyclic h tenant).evaluateKey context
    (s.limits.maxEvaluationDepth + 1).toNat key ∅ = .ok x) ↔ _
  rw [hlimits, hlevels]
  constructor
  · rintro ⟨x, hx⟩
    by_contra hb
    have hdeep : AcyclicSnapshot.TooDeep _ ((Snapshot.acyclic h tenant).evaluateKey context
        (limits.maxEvaluationDepth.toNat + 1) key ∅) :=
      AcyclicSnapshot.tooDeep_evaluateKey_of_not_bounded (groupsBounded_acyclic h tenant) _ hb
        (by simp)
    obtain ⟨e, -, he, -⟩ := hdeep
    rw [hx] at he
    cases he
  · intro hb
    obtain ⟨r, hr⟩ := exists_policy_eq_ok h tenant context key hkey
    rw [AcyclicSnapshot.evaluateKey_eq_policy_of_bounded (groupsBounded_acyclic h tenant) _ hb
      (by simp), hr]
    exact ⟨_, rfl⟩

end Evaluation

/-- A feature that requires another one, under the default limits. -/
theorem evaluate_eq_ok_iff_pair :
    letI := unaryRuntime
    ∃ h : newSnapshotWithGroups .sorted featurePair [] defaultLimits =
        .ok (snapshotOf featurePair [] defaultLimits),
      (∃ r, ((snapshotOf featurePair [] defaultLimits).bindTenant []).evaluate .sorted (str "b")
          .boolean Context.empty = .ok r) ↔
        ∀ path : List Bytes, (str "b" :: path).IsChain
            (fun v w => w ∈ (Snapshot.acyclic h []).consultedKeys Context.empty v) →
          len path ≤ defaultLimits.maxEvaluationDepth := by
  let _ := unaryRuntime
  have h : newSnapshotWithGroups .sorted featurePair [] defaultLimits =
      .ok (snapshotOf featurePair [] defaultLimits) := by
    decide +kernel
  have hd : (snapshotOf featurePair [] defaultLimits).definitions[str "b"]? =
      some (onFor (str "b") [str "a"]) := by
    decide +kernel
  exact ⟨h, evaluate_eq_ok_iff (d := onFor (str "b") [str "a"]) h (.inl rfl) (by decide +kernel) hd⟩

def shallowLimits : Limits := { defaultLimits with maxEvaluationDepth := 1 }

/-- A chain of three features is accepted with a depth of one if they are visited from its end, and
the first of them does not evaluate. -/
theorem accepted_evaluate_too_deep :
    letI := unaryRuntime
    newSnapshotWithGroups .sorted featureChain [] shallowLimits =
      .ok (snapshotOf featureChain [] shallowLimits) ∧
    Context.empty.validate .sorted shallowLimits = .ok () ∧
    (snapshotOf featureChain [] shallowLimits).evaluate .sorted (str "c") .boolean Context.empty =
      .error (.wrapf "feature %q dependency %q: %w" [.q (str "c"), .q (str "b")]
        (.wrapf "feature %q dependency %q: %w" [.q (str "b"), .q (str "a")]
          (.errorf "feature %q: evaluation depth exceeds %d" [.q (str "a"), .d 1]))) := by
  decide +kernel

/-! ### The order of acceptance -/

section Order

variable {κ : Type}

theorem keys_perm (ord ord' : MapOrder) (definitions : GoMap (Definition κ)) :
    ((definitions.range ord).map Prod.fst).Perm ((definitions.range ord').map Prod.fst) :=
  ((ord.perm _).trans (ord'.perm _).symm).map _

variable {ord : MapOrder} {definitions : GoMap (Definition κ)}

/-- Every order of the keys is the order of some `range` loop. -/
theorem exists_order {keys : List Bytes} (h : keys.Perm ((definitions.range ord).map Prod.fst)) :
    ∃ ord' : MapOrder, (definitions.range ord').map Prod.fst = keys := by
  have hkeys : keys.Perm (definitions.toList.map Prod.fst) := h.trans ((ord.perm _).map _)
  rw [← congrFun (congrFun (List.eq_map_comp_perm _) _) _] at hkeys
  obtain ⟨entries, rfl, hperm⟩ := hkeys
  obtain ⟨ord', hord'⟩ := MapOrder.exists_iter_eq hperm
  exact ⟨ord', by rw [GoMap.range, hord']⟩

theorem mem_keys_iff : key ∈ (definitions.range ord).map Prod.fst ↔ key ∈ definitions := by
  rw [GoMap.mem_iff]
  simp

/-- The search that starts at `key` with nothing explored succeeds. -/
def FreshSearch (definitions : GoMap (Definition κ)) (limits : Limits) (key : Bytes) : Prop :=
  ∃ s, Dfs.visit (dependencyKeys definitions) (limits.maxEvaluationDepth + 1).toNat key .empty =
    .ok s

/-- With at most one level the search does not depend on the order. -/
theorem searched_of_depth_le_zero (hdepth : limits.maxEvaluationDepth ≤ 0) (ord' : MapOrder)
    (h : Searched ord definitions limits) : Searched ord' definitions limits := by
  have hperm := keys_perm ord ord' definitions
  unfold Searched at h ⊢
  rcases Int.lt_or_eq_of_le hdepth with hneg | hzero
  · have hlevels : (limits.maxEvaluationDepth + 1).toNat = 0 := by omega
    rw [hlevels, Dfs.visitAll_zero_iff] at h ⊢
    rw [h] at hperm
    exact hperm.nil_eq.symm
  · have hlevels : (limits.maxEvaluationDepth + 1).toNat = 1 := by omega
    rw [hlevels, Dfs.visitAll_one_iff] at h ⊢
    exact fun v hv => h v (hperm.mem_iff.mpr hv)

/-- If the search from each key alone succeeds, every order succeeds. -/
theorem searched_of_fresh (h : ∀ key ∈ definitions, FreshSearch definitions limits key)
    (ord : MapOrder) : Searched ord definitions limits :=
  Dfs.visitAll_of_fresh _ (fun v hv => h v (mem_keys_iff.mp hv)) .empty rfl trivial

/-- If every order succeeds, so does the search from each key alone. -/
theorem fresh_of_searched (h : ∀ ord, Searched ord definitions limits) (hkey : key ∈ definitions) :
    FreshSearch definitions limits key := by
  have hmem : key ∈ (definitions.range .sorted).map Prod.fst := mem_keys_iff.mpr hkey
  obtain ⟨ord, hord⟩ := exists_order (List.perm_cons_erase hmem).symm
  obtain ⟨s, hs⟩ := h ord
  rw [hord, Dfs.visitAll_cons_eq_ok_iff] at hs
  obtain ⟨s₁, hs₁, -⟩ := hs
  exact ⟨s₁, hs₁⟩

/-- Without cycles and with a depth of at least one, some order succeeds. -/
theorem exists_searched (hrefs : References definitions)
    (hwf : WellFounded fun w v => w ∈ dependencyKeys definitions v)
    (hdepth : 1 ≤ limits.maxEvaluationDepth) : ∃ ord, Searched ord definitions limits := by
  have hlevels : (limits.maxEvaluationDepth + 1).toNat =
      (limits.maxEvaluationDepth.toNat - 1) + 2 := by omega
  have hnodup : ((definitions.range .sorted).map Prod.fst).Nodup := GoMap.nodup_keys definitions
  obtain ⟨keys, s, hperm, hs⟩ := Dfs.exists_perm_visitAll
    (n := limits.maxEvaluationDepth.toNat - 1) hwf hnodup (by
      intro v hv w hw
      unfold dependencyKeys at hw
      cases hd : definitions[v]? with
      | none => simp [hd] at hw
      | some d =>
        rw [hd] at hw
        obtain ⟨dep, hdep, rfl⟩ := List.mem_map.mp hw
        obtain ⟨target, htarget, -⟩ := hrefs v d hd dep hdep
        exact List.mem_map.mpr ⟨(dep.featureKey, target), GoMap.mem_range.mpr htarget, rfl⟩)
  obtain ⟨ord, hord⟩ := exists_order hperm
  exact ⟨ord, s, by rw [hord, hlevels, hs]⟩

/-- When the search has the same outcome in every order. -/
def SearchIndependent (definitions : GoMap (Definition κ)) (limits : Limits) : Prop :=
  limits.maxEvaluationDepth ≤ 0 ∨
    ¬ (WellFounded fun w v => w ∈ dependencyKeys definitions v) ∨
    ∀ key ∈ definitions, FreshSearch definitions limits key

theorem SearchIndependent.searched (h : SearchIndependent definitions limits) (ord' : MapOrder)
    (hs : Searched ord definitions limits) : Searched ord' definitions limits := by
  rcases h with hdepth | hcycle | hfresh
  · exact searched_of_depth_le_zero hdepth ord' hs
  · exact absurd hs.wellFounded hcycle
  · exact searched_of_fresh hfresh ord'

theorem searchIndependent_of_searched (hrefs : References definitions)
    (h : ∀ ord ord', Searched ord definitions limits → Searched ord' definitions limits) :
    SearchIndependent definitions limits := by
  by_cases hdepth : limits.maxEvaluationDepth ≤ 0
  · exact .inl hdepth
  by_cases hwf : WellFounded fun w v => w ∈ dependencyKeys definitions v
  · -- some order succeeds, hence all do, and each key comes first in one of them
    have hone : 1 ≤ limits.maxEvaluationDepth := by omega
    obtain ⟨ord, hord⟩ := exists_searched hrefs hwf hone
    exact .inr (.inr fun key hkey => fresh_of_searched (fun ord' => h ord ord' hord) hkey)
  · exact .inr (.inl hwf)

variable [CustomStrategy κ] [Runtime]

/-- `NewSnapshotWithGroups` accepts. -/
def Accepted (ord : MapOrder) (definitions : List (Definition κ))
    (groups : List (GroupDefinition κ)) (limits : Limits) : Prop :=
  ∃ s, newSnapshotWithGroups ord definitions groups limits = .ok s

theorem accepted_iff {definitions : List (Definition κ)} {groups : List (GroupDefinition κ)} :
    Accepted ord definitions groups limits ↔
      SnapshotOk definitions groups limits ∧ Searched ord (definitionIndex definitions) limits := by
  simp only [Accepted, newSnapshotWithGroups_eq_ok_iff]
  constructor
  · rintro ⟨s, h₁, h₂, -⟩; exact ⟨h₁, h₂⟩
  · rintro ⟨h₁, h₂⟩; exact ⟨_, h₁, h₂, rfl⟩

/-- Apart from the search, acceptance is a property of the sets of definitions and groups. -/
theorem SnapshotOk.perm {definitions definitions' : List (Definition κ)}
    {groups groups' : List (GroupDefinition κ)} (h : SnapshotOk definitions groups limits)
    (hd : definitions.Perm definitions') (hg : groups.Perm groups') :
    SnapshotOk definitions' groups' limits := by
  have hdefs : definitionIndex definitions' = definitionIndex definitions :=
    (GoMap.index_perm hd h.nodup).symm
  have hgroups : groupIndex groups' = groupIndex groups :=
    (GoMap.index_perm hg h.groups_ok.nodup).symm
  refine ⟨?_, fun d hmem => h.valid d (hd.mem_iff.mpr hmem), (hd.map _).nodup_iff.mp h.nodup, ?_,
    ?_, fun g hmem => h.groups_ok.valid g (hg.mem_iff.mpr hmem),
    (hg.map _).nodup_iff.mp h.groups_ok.nodup, ?_, ?_, ?_⟩
  · rw [len, ← hd.length_eq]; exact h.features_len
  · rw [hdefs]; exact h.references
  · rw [len, ← hg.length_eq]; exact h.groups_ok.groups_len
  · rw [hgroups]; exact h.groups_ok.parents
  · rw [hgroups]; exact h.groups_ok.bounded
  · rw [hdefs, hgroups]; exact h.groups_ok.attached

/-- Permutations of the lists and other orders of the maps do not change an independent verdict. -/
theorem accepted_of_perm {definitions definitions' : List (Definition κ)}
    {groups groups' : List (GroupDefinition κ)}
    (h : SearchIndependent (definitionIndex definitions) limits) (ord' : MapOrder)
    (hd : definitions.Perm definitions') (hg : groups.Perm groups')
    (hacc : Accepted ord definitions groups limits) :
    Accepted ord' definitions' groups' limits := by
  obtain ⟨hok, hs⟩ := accepted_iff.mp hacc
  refine accepted_iff.mpr ⟨hok.perm hd hg, ?_⟩
  have hindex : definitionIndex definitions' = definitionIndex definitions :=
    (GoMap.index_perm hd hok.nodup).symm
  rw [hindex]
  exact h.searched ord' hs

/-- The definitions and groups of a snapshot are those that it was built from. -/
theorem values_perm (hκ : PlainStrategies κ) {definitions groups} {s : Snapshot κ}
    (h : newSnapshotWithGroups ord definitions groups limits = .ok s) :
    (s.definitions.toList.map Prod.snd).Perm definitions ∧
      (s.groups.toList.map Prod.snd).Perm groups := by
  obtain ⟨hok, -, rfl⟩ := newSnapshotWithGroups_eq_ok_iff.mp h
  have hd : ((definitionIndex definitions).toList.map Prod.snd).Perm _ :=
    (GoMap.toList_index_perm hok.nodup).map Prod.snd
  have hg : ((groupIndex groups).toList.map Prod.snd).Perm _ :=
    (GoMap.toList_index_perm hok.groups_ok.nodup).map Prod.snd
  simp only [List.map_map, Function.comp_def, hκ.cloneDefinition, hκ.cloneGroup,
    List.map_id'] at hd hg
  exact ⟨hd, hg⟩

/-- **When acceptance is independent of order**: for all permutations of the lists and all orders of
the maps, and for the definitions and groups of an accepted snapshot, the verdict is the same iff
the definitions and groups are refused for another reason than the search, or the depth is at most
zero, or there is a cycle, or the search succeeds from each feature alone. -/
theorem accepted_order_independent_iff (definitions : List (Definition κ))
    (groups : List (GroupDefinition κ)) (limits : Limits) :
    ((∀ ord ord' definitions' groups', definitions.Perm definitions' → groups.Perm groups' →
        (Accepted ord definitions groups limits ↔ Accepted ord' definitions' groups' limits)) ∧
        (PlainStrategies κ → ∀ ord s, newSnapshotWithGroups ord definitions groups limits = .ok s →
        ∀ ord' definitions' groups', (s.definitions.toList.map Prod.snd).Perm definitions' →
        (s.groups.toList.map Prod.snd).Perm groups' → Accepted ord' definitions' groups' limits)) ↔
      (¬ SnapshotOk definitions groups limits ∨
        SearchIndependent (definitionIndex definitions) limits) := by
  constructor
  · rintro ⟨h, -⟩
    by_cases hok : SnapshotOk definitions groups limits
    · refine .inr (searchIndependent_of_searched hok.references fun ord ord' hs => ?_)
      have hacc := accepted_iff.mpr ⟨hok, hs⟩
      exact (accepted_iff.mp ((h ord ord' _ _ (List.Perm.refl _) (List.Perm.refl _)).mp hacc)).2
    · exact .inl hok
  · rintro (hnot | h)
    · refine ⟨fun ord ord' definitions' groups' hd hg => ⟨fun hacc => ?_, fun hacc => ?_⟩,
        fun _ ord s hs => ?_⟩
      · exact absurd (accepted_iff.mp hacc).1 hnot
      · exact absurd ((accepted_iff.mp hacc).1.perm hd.symm hg.symm) hnot
      · exact absurd (accepted_iff.mp ⟨s, hs⟩).1 hnot
    · refine ⟨fun ord ord' definitions' groups' hd hg =>
        ⟨accepted_of_perm h ord' hd hg, fun hacc => ?_⟩,
        fun hκ ord s hs ord' definitions' groups' hd hg => ?_⟩
      · have hok := (accepted_iff.mp hacc).1
        have hindex : definitionIndex definitions' = definitionIndex definitions :=
          GoMap.index_perm hd.symm hok.nodup
        exact accepted_of_perm (hindex ▸ h) ord hd.symm hg.symm hacc
      · obtain ⟨hdefs, hgroups⟩ := values_perm hκ hs
        exact accepted_of_perm h ord' (hdefs.symm.trans hd) (hgroups.symm.trans hg) ⟨s, hs⟩

end Order

/-- The same three features under the same limits are accepted in one order of the map and refused
in another. -/
theorem accepted_depends_on_order :
    letI := unaryRuntime
    newSnapshotWithGroups .sorted featureChain [] shallowLimits =
      .ok (snapshotOf featureChain [] shallowLimits) ∧
    newSnapshotWithGroups .reversed featureChain [] shallowLimits =
      .error (.errorf "feature %q: dependency depth exceeds %d" [.q (str "a"), .d 1]) := by
  decide +kernel

end FeatureFlags
