import FeatureFlags.Equiv.Evaluate

/-!
# Results are never fabricated

`evaluate_selected`: what an accepted snapshot returns is the default of the feature or one of its
variants, and of the type that was asked for.  Group strategies name variants of features that they
do not know; the walk of `cloneAndValidateGroups` over the chain of each attached group covers the
groups that `evaluateGroup` reaches from it (`selected_of_evaluateGroup`).
-/

namespace FeatureFlags

open Go

variable {κ : Type} [CustomStrategy κ] [Runtime]

/-- The result is a variant of the feature, or its default with the empty variant. -/
def Selected (d : Definition κ) (r : EvaluationResult) : Prop :=
  r.variant ≠ [] ∧ d.variants[r.variant]? = some r.value ∨ r.variant = [] ∧ r.value = d.default

/-- Every strategy that a feature can try names one of its variants. -/
structure TargetsOk (s : Snapshot κ) (d : Definition κ) : Prop where
  names : ∀ name ∈ d.variants, name ≠ []
  own : ∀ strategy ∈ d.strategies, strategy.targetVariant ∈ d.variants
  groups : ∀ g ∈ d.groups, g ≠ []
  inherited : ∀ g ∈ d.groups, ∀ k ∈ parentChain s.groups (s.limits.maxGroupDepth + 1).toNat g,
    ∀ strategy ∈ groupStrategies s.groups k, strategy.targetVariant ∈ d.variants

variable {r : EvaluationResult}

section Selected

variable {d : Definition κ} {context : Context}

omit [CustomStrategy κ] [Runtime] in
theorem selected_defaultResult (reason : Reason) (diagnostics : List Diagnostic) :
    Selected d (defaultResult d reason diagnostics) :=
  .inr ⟨rfl, rfl⟩

variable {s : Snapshot κ}

section

variable (hnames : ∀ name ∈ d.variants, name ≠ [])
include hnames

theorem selected_of_evaluateOneStrategy {strategy : Strategy κ} {label : Bytes}
    {override : Reason} {limits : Limits} (htarget : strategy.targetVariant ∈ d.variants)
    (h : evaluateOneStrategy d strategy context label override limits = .ok (some r)) :
    Selected d r := by
  obtain ⟨result, -, h⟩ := bind_eq_ok.mp h
  obtain ⟨v, hv⟩ := GoMap.mem_iff.mp htarget
  by_cases hm : result.matched = true
  · rw [if_neg (not_not.mpr hm)] at h
    cases h
    refine .inl ⟨hnames _ htarget, ?_⟩
    simp [Std.ExtTreeMap.getD_eq_getD_getElem?, hv]
  · rw [if_pos hm] at h
    cases h

theorem selected_of_firstMatch {label : Bytes} {override : Reason} {limits : Limits}
    (l : List (Strategy κ)) (htargets : ∀ strategy ∈ l, strategy.targetVariant ∈ d.variants)
    (h : firstMatch d context label override limits l = .ok (some r)) : Selected d r := by
  induction l with
  | nil => cases h
  | cons strategy l ih =>
    obtain ⟨outcome, hone, h⟩ := bind_eq_ok.mp h
    cases outcome with
    | some result =>
      cases h
      exact selected_of_evaluateOneStrategy hnames (htargets strategy List.mem_cons_self) hone
    | none => exact ih (fun st hst => htargets st (List.mem_cons_of_mem strategy hst)) h

/-- The groups that the walk meets are those of the chain that was validated. -/
theorem selected_of_evaluateGroup {visited' : GoMap Bool} (n : Nat) :
    ∀ {key : Bytes} {visited : GoMap Bool}, key ≠ [] →
      (∀ k ∈ parentChain s.groups n key, ∀ strategy ∈ groupStrategies s.groups k,
        strategy.targetVariant ∈ d.variants) →
      s.evaluateGroup d context n key visited = .ok (some r, visited') → Selected d r := by
  induction n with
  | zero => intro key visited _ _ h; cases h
  | succ n ih =>
    intro key visited hnil htargets h
    rw [parentChain, if_neg hnil] at htargets
    rw [Snapshot.evaluateGroup] at h
    by_cases hkey : flag visited key = true
    · rw [if_pos hkey] at h
      cases h
    · rw [if_neg hkey] at h
      obtain ⟨outcome, hfirst, h⟩ := bind_eq_ok.mp h
      cases outcome with
      | some result =>
        cases h
        exact selected_of_firstMatch hnames _ (htargets key List.mem_cons_self) hfirst
      | none =>
        by_cases hp : parentOf s.groups key = []
        · simp only [hp, ne_eq, not_true_eq_false, if_false] at h
          cases h
        · simp only [ne_eq, hp, not_false_eq_true, if_true] at h
          exact ih hp (fun k hk => htargets k (List.mem_cons_of_mem key hk)) h

theorem selected_of_evaluateGroups (l : List Bytes) (hnil : ∀ g ∈ l, g ≠ [])
    (htargets : ∀ g ∈ l, ∀ k ∈ parentChain s.groups (s.limits.maxGroupDepth + 1).toNat g,
      ∀ strategy ∈ groupStrategies s.groups k, strategy.targetVariant ∈ d.variants) :
    ∀ {visited : GoMap Bool}, s.evaluateGroups d context l visited = .ok (some r) →
      Selected d r := by
  induction l with
  | nil => intro visited h; cases h
  | cons g l ih =>
    intro visited h
    obtain ⟨⟨outcome, visited'⟩, hgroup, h⟩ := bind_eq_ok.mp h
    cases outcome with
    | some result =>
      cases h
      exact selected_of_evaluateGroup hnames _ (hnil g List.mem_cons_self)
        (htargets g List.mem_cons_self) hgroup
    | none =>
      exact ih (fun k hk => hnil k (List.mem_cons_of_mem g hk))
        (fun k hk => htargets k (List.mem_cons_of_mem g hk)) h

end

theorem TargetsOk.selected_evaluateStrategies (hd : TargetsOk s d)
    (h : s.evaluateStrategies d context = .ok r) : Selected d r := by
  obtain ⟨outcome, hgroups, h⟩ := bind_eq_ok.mp h
  cases outcome with
  | some result =>
    cases h
    exact selected_of_evaluateGroups hd.names _ hd.groups hd.inherited hgroups
  | none =>
    obtain ⟨outcome, hown, h⟩ := bind_eq_ok.mp h
    cases outcome with
    | some result => cases h; exact selected_of_firstMatch hd.names _ hd.own hown
    | none => cases h; exact selected_defaultResult _ _

theorem selected_of_evaluateKey
    (hs : ∀ (key : Bytes) (d : Definition κ), s.definitions[key]? = some d → TargetsOk s d)
    {n : Nat} {key : Bytes} {visiting visiting' : GoMap Bool} (hd : s.definitions[key]? = some d)
    (h : s.evaluateKey context n key visiting = .ok (r, visiting')) : Selected d r := by
  cases n with
  | zero => cases h
  | succ n =>
    rw [Snapshot.evaluateKey] at h
    by_cases hvis : flag visiting key = true
    · rw [if_pos hvis] at h
      cases h
    · rw [if_neg hvis, hd] at h
      dsimp only at h
      by_cases hactive : d.lifecycle = .active
      · rw [if_neg (not_not.mpr hactive)] at h
        obtain ⟨⟨hold, visiting₁⟩, -, h⟩ := bind_eq_ok.mp h
        cases hold with
        | false => cases h; exact selected_defaultResult _ _
        | true =>
          obtain ⟨result, hresult, h⟩ := bind_eq_ok.mp h
          cases h
          exact (hs key d hd).selected_evaluateStrategies hresult
      · rw [if_pos hactive] at h
        cases h
        exact selected_defaultResult _ _

end Selected

section Accepted

variable {ord ord' : MapOrder} {definitions : List (Definition κ)}
  {groups : List (GroupDefinition κ)} {limits : Limits} {s : Snapshot κ}

section

variable (hκ : ∀ x : κ, (CustomStrategy.snapshotStrategy x).targetVariant =
    CustomStrategy.targetVariant x)
  (h : newSnapshotWithGroups ord definitions groups limits = .ok s)
include hκ h

/-- In an accepted snapshot all targets are variants, if the snapshot of a strategy has the target
of the strategy. -/
theorem targetsOk_of_accepted {key : Bytes} {d : Definition κ}
    (hd : s.definitions[key]? = some d) : TargetsOk s d := by
  have htarget (strategy : Strategy κ) :
      strategy.snapshotStrategy.targetVariant = strategy.targetVariant := by
    cases strategy with
    | custom x => exact hκ x
    | _ => rfl
  obtain ⟨d₀, -, -, rfl, hvalid⟩ := lookup_definitions h hd
  obtain ⟨hok, -, rfl⟩ := newSnapshotWithGroups_eq_ok_iff.mp h
  refine ⟨fun name hname => ?_, fun strategy hstrategy => ?_, fun g hg => (hvalid.groups g hg).1,
    fun g hg => (hok.groups_ok.attached key _ hd g hg).targets⟩
  · obtain ⟨v, hv⟩ := GoMap.mem_iff.mp hname
    exact (hvalid.variants name v hv).1.1
  · obtain ⟨strategy₀, hmem, rfl⟩ := List.mem_map.mp hstrategy
    rw [htarget]
    exact (hvalid.strategies strategy₀ hmem).target

/-- What an accepted snapshot returns was checked when it was built. -/
theorem selected_of_evaluate {tenant key : Bytes} {expected : ValueType} {context : Context}
    (hr : (s.bindTenant tenant).evaluate ord' key expected context = .ok r) :
    ∃ d ∈ definitions, d.key = key ∧ Selected d r ∧ r.value.Valid limits ∧
      r.value.type = expected := by
  simp only [Snapshot.evaluate, bind_eq_ok, rejectIf_eq_ok, exists_const] at hr
  obtain ⟨-, u, -, hr⟩ := hr
  cases hd : (s.bindTenant tenant).definitions[key]? with
  | none => rw [hd] at hr; cases hr
  | some d =>
    rw [hd] at hr
    simp only [bind_eq_ok, rejectIf_eq_ok, not_not, exists_const, pure_eq_ok] at hr
    obtain ⟨htype, ⟨r', visiting⟩, hkey, rfl⟩ := hr
    obtain ⟨d₀, hmem, hkey₀, rfl, hvalid⟩ := lookup_definitions h hd
    have htargets (k : Bytes) (d : Definition κ) (hd : s.definitions[k]? = some d) :
        TargetsOk (s.bindTenant tenant) d := by
      have hok := targetsOk_of_accepted hκ h hd
      exact ⟨hok.names, hok.own, hok.groups, hok.inherited⟩
    have hsel : Selected (cloneDefinition d₀) r' := selected_of_evaluateKey htargets hd hkey
    have hvalue : r'.value.Valid limits ∧ r'.value.type = d₀.type := by
      rcases hsel with ⟨-, hv⟩ | ⟨-, hv⟩
      · exact (hvalid.variants _ _ hv).2
      · rw [hv]; exact ⟨hvalid.default, hvalid.default_type⟩
    exact ⟨d₀, hmem, hkey₀, hsel, hvalue.1, hvalue.2.trans htype⟩

end

/-- **Typed results are never fabricated**: a result has the type that was asked for, and is one of
the variants of the feature or, with the empty variant, its default; it is never the zero value. -/
theorem evaluate_selected
    (hκ : ∀ x : κ, (CustomStrategy.snapshotStrategy x).targetVariant =
      CustomStrategy.targetVariant x)
    (h : newSnapshotWithGroups ord definitions groups limits = .ok s) {tenant key : Bytes}
    {expected : ValueType} {context : Context} {r : EvaluationResult}
    (hr : (s.bindTenant tenant).evaluate ord' key expected context = .ok r) :
    ∃ d ∈ definitions, d.key = key ∧ r.value.type = expected ∧ r.value ≠ .zero ∧
      (r.variant ≠ [] ∧ d.variants[r.variant]? = some r.value ∨
        r.variant = [] ∧ r.value = d.default) := by
  obtain ⟨d, hmem, hkey, hsel, hvalid, htype⟩ := selected_of_evaluate hκ h hr
  refine ⟨d, hmem, hkey, htype, fun hzero => ?_, hsel⟩
  rwa [hzero] at hvalid

end Accepted

def groupOf (key parent : Bytes) (strategies : List (Strategy Empty)) : GroupDefinition Empty where
  key := key
  parent := parent
  metadata := ∅
  owner := []
  tags := []
  version := 1
  strategies := strategies

/-- A feature without strategies of its own, attached to a group. -/
def attachedTo (key group : Bytes) : Definition Empty :=
  { onFor key [] with groups := [group], strategies := [] }

omit [Runtime] in
/-- A match inherited from the parent of the feature's group. -/
theorem evaluate_selected_inherited :
    letI := unaryRuntime
    ∃ d ∈ [attachedTo (str "f") (str "child")], d.key = str "f" ∧
      (Value.boolean true).type = .boolean ∧ Value.boolean true ≠ .zero ∧
      (str "on" ≠ [] ∧ d.variants[str "on"]? = some (.boolean true) ∨
        str "on" = [] ∧ Value.boolean true = d.default) := by
  let _ := unaryRuntime
  have h : newSnapshotWithGroups .sorted [attachedTo (str "f") (str "child")]
      [groupOf (str "child") (str "parent") [],
        groupOf (str "parent") [] [.exactTarget ⟨str "all", str "on", [], [], [], ∅⟩]]
      defaultLimits =
      .ok (snapshotOf [attachedTo (str "f") (str "child")]
        [groupOf (str "child") (str "parent") [],
          groupOf (str "parent") [] [.exactTarget ⟨str "all", str "on", [], [], [], ∅⟩]]
        defaultLimits) := by
    decide +kernel
  have hr : ((snapshotOf [attachedTo (str "f") (str "child")]
      [groupOf (str "child") (str "parent") [],
        groupOf (str "parent") [] [.exactTarget ⟨str "all", str "on", [], [], [], ∅⟩]]
      defaultLimits).bindTenant []).evaluate .sorted (str "f") .boolean Context.empty =
      .ok ⟨.boolean true, str "on", .groupMatch, str "group:parent/all", 1, []⟩ := by
    decide +kernel
  exact evaluate_selected (fun x => x.elim) h hr

end FeatureFlags
