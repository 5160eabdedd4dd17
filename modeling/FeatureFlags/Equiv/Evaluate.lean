import FeatureFlags.Policy

/-!
# Evaluation computes the policy

* `decideBy_append`, `firstMatch_eq_decideBy`: the loops over strategies.
* `evaluateGroups_eq`: the set of visited groups does not show, because a group that was visited
  before has no match in its whole chain.
* `evaluateKey_eq_policy`: with levels for all consulted dependencies `evaluateKey` is the policy;
  the set of features being evaluated does not show, because the graph is acyclic.
* `tooDeep_evaluateKey_of_not_bounded`: with fewer levels it fails.
-/

namespace FeatureFlags

open Go Relation

variable {κ : Type} [CustomStrategy κ] [Runtime]
  {eval : Bytes → GoMap Bool → Except GoError (EvaluationResult × GoMap Bool)}

/-! ### Strategies -/

section Decide

variable {definition : Definition κ} {context : Context} {limits : Limits}

@[simp] theorem decideBy_nil : decideBy definition context limits [] = .ok none := rfl

/-- The attempts of `l₂` count if none of `l₁` matches. -/
theorem decideBy_append (l₁ l₂ : List (Attempt κ)) :
    decideBy definition context limits (l₁ ++ l₂) =
      (do match ← decideBy definition context limits l₁ with
          | some result => return some result
          | none => decideBy definition context limits l₂) := by
  induction l₁ with
  | nil => rfl
  | cons a l₁ ih =>
    rw [List.cons_append, decideBy, decideBy]
    cases evaluateOneStrategy definition a.strategy context a.label a.override limits with
    | error e => rfl
    | ok r =>
      cases r with
      | some result => rfl
      | none => exact ih

theorem decideBy_append_of_none {l₁ l₂ : List (Attempt κ)}
    (h : decideBy definition context limits l₁ = .ok none) :
    decideBy definition context limits (l₁ ++ l₂) = decideBy definition context limits l₂ := by
  rw [decideBy_append, h]
  rfl

theorem firstMatch_eq_decideBy {label : Bytes} {override : Reason} (l : List (Strategy κ)) :
    firstMatch definition context label override limits l =
      decideBy definition context limits (l.map fun strategy => ⟨label, override, strategy⟩) := by
  induction l with
  | nil => rfl
  | cons strategy l ih =>
    rw [firstMatch, ih, List.map_cons]
    rfl

end Decide

/-! ### Groups -/

variable {key : Bytes}

namespace AcyclicSnapshot

variable (s : AcyclicSnapshot κ) (definition : Definition κ) (context : Context)

/-- No strategy of the group itself matches. -/
def Silent (key : Bytes) : Prop :=
  decideBy definition context s.limits (s.groupAttempts key) = .ok none

/-- The visited groups are silent, and so is everything above them once `current` is known to be. -/
def SilentBelow (current : Bytes) (visited : GoMap Bool) : Prop :=
  ∀ k, flag visited k = true → s.Silent definition context k ∧
    (parentOf s.groups k = [] ∨ parentOf s.groups k = current ∨
      flag visited (parentOf s.groups k) = true)

variable {s definition context}

omit [CustomStrategy κ] [Runtime] in
theorem chain_nil : s.chain [] = [] := by rw [chain, if_pos rfl]

omit [CustomStrategy κ] [Runtime] in
theorem chain_of_ne (h : key ≠ []) : s.chain key = key :: s.chain (parentOf s.groups key) := by
  rw [chain, if_neg h]

/-- All groups above a visited one are silent. -/
theorem SilentBelow.decideBy_chain {visited : GoMap Bool}
    (h : s.SilentBelow definition context [] visited) (key : Bytes) :
    flag visited key = true →
      decideBy definition context s.limits ((s.chain key).flatMap s.groupAttempts) = .ok none := by
  induction key using s.parents_wf.induction with
  | _ key ih =>
    intro hkey
    by_cases hnil : key = []
    · rw [hnil, chain_nil]; rfl
    · obtain ⟨hsilent, hparent⟩ := h key hkey
      rw [chain_of_ne hnil, List.flatMap_cons, decideBy_append_of_none hsilent]
      rcases hparent with hparent | hparent | hparent
      · rw [hparent, chain_nil]; rfl
      · rw [hparent, chain_nil]; rfl
      · exact ih _ (by simp [parentKeys, hnil]) hparent

/-- The walk over a chain decides as the chain does; if nothing matches, all visited groups are
silent up to the ends of their chains. -/
theorem evaluateGroup_eq (n : Nat) : ∀ {key : Bytes} {visited : GoMap Bool}, key ≠ [] →
    Dfs.Bounded (parentKeys s.groups) n key → s.SilentBelow definition context key visited →
    ∃ visited', s.evaluateGroup definition context n key visited =
        (decideBy definition context s.limits ((s.chain key).flatMap s.groupAttempts)).map
          (·, visited') ∧
      (decideBy definition context s.limits ((s.chain key).flatMap s.groupAttempts) = .ok none →
        s.SilentBelow definition context [] visited') := by
  induction n with
  | zero =>
    intro key visited hnil hb
    simp [Dfs.Bounded, parentKeys, hnil] at hb
  | succ n ih =>
    intro key visited hnil hb hvis
    rw [Snapshot.evaluateGroup]
    by_cases hkey : flag visited key = true
    · -- visited before: the whole chain is silent
      have hclosed : s.SilentBelow definition context [] visited := by
        intro k hk
        refine ⟨(hvis k hk).1, ?_⟩
        rcases (hvis k hk).2 with hp | hp | hp
        · exact .inl hp
        · exact .inr (.inr (hp ▸ hkey))
        · exact .inr (.inr hp)
      refine ⟨visited, ?_, fun _ => hclosed⟩
      rw [if_pos hkey, hclosed.decideBy_chain key hkey]
      rfl
    · rw [if_neg hkey, firstMatch_eq_decideBy, chain_of_ne hnil, List.flatMap_cons, decideBy_append]
      change ∃ visited', ((do
        match ← decideBy definition context s.limits (s.groupAttempts key) with
        | some result => return (some result, visited.insert key true)
        | none => _) : Except GoError _) = _ ∧ _
      cases hself : decideBy definition context s.limits (s.groupAttempts key) with
      | error e => exact ⟨visited, rfl, fun h => by cases h⟩
      | ok r =>
        cases r with
        | some result => exact ⟨visited.insert key true, rfl, fun h => by cases h⟩
        | none =>
          have hvis' : s.SilentBelow definition context (parentOf s.groups key)
              (visited.insert key true) := by
            intro k hk
            rcases (flag_insert _ _ _).mp hk with rfl | hk
            · exact ⟨hself, .inr (.inl rfl)⟩
            · refine ⟨(hvis k hk).1, ?_⟩
              rcases (hvis k hk).2 with hp | hp | hp
              · exact .inl hp
              · exact .inr (.inr ((flag_insert _ _ _).mpr (.inl hp.symm)))
              · exact .inr (.inr ((flag_insert _ _ _).mpr (.inr hp)))
          by_cases hp : parentOf s.groups key = []
          · refine ⟨visited.insert key true, ?_, fun _ => hp ▸ hvis'⟩
            rw [hp, chain_nil]
            simp [bind, Except.bind, pure, Except.pure, Except.map]
          · obtain ⟨visited', heq, hclosed⟩ :=
              ih hp (hb _ (by simp [parentKeys, hnil])) hvis'
            refine ⟨visited', ?_, hclosed⟩
            simp only [bind, Except.bind, ne_eq, hp, not_false_eq_true, if_true]
            exact heq

/-- The groups of a feature decide as the concatenation of their chains does. -/
theorem evaluateGroups_eq (l : List Bytes)
    (hl : ∀ key ∈ l, key ≠ [] ∧
      Dfs.Bounded (parentKeys s.groups) (s.limits.maxGroupDepth + 1).toNat key) :
    ∀ {visited : GoMap Bool}, s.SilentBelow definition context [] visited →
      s.evaluateGroups definition context l visited =
        decideBy definition context s.limits
          (l.flatMap fun key => (s.chain key).flatMap s.groupAttempts) := by
  induction l with
  | nil => intro visited _; rfl
  | cons key l ih =>
    intro visited hvis
    obtain ⟨hnil, hb⟩ := hl key List.mem_cons_self
    have hbelow : s.SilentBelow definition context key visited := by
      intro k hk
      refine ⟨(hvis k hk).1, ?_⟩
      rcases (hvis k hk).2 with hp | hp | hp
      · exact .inl hp
      · exact .inl hp
      · exact .inr (.inr hp)
    obtain ⟨visited', heq, hclosed⟩ := evaluateGroup_eq _ hnil hb hbelow
    rw [Snapshot.evaluateGroups, heq, List.flatMap_cons, decideBy_append]
    cases hdec : decideBy definition context s.limits ((s.chain key).flatMap s.groupAttempts) with
    | error e => rfl
    | ok r =>
      cases r with
      | some result => rfl
      | none => exact ih (fun k hk => hl k (List.mem_cons_of_mem _ hk)) (hclosed hdec)

variable (s) in
/-- The chains of the groups of every feature end within the limit, as construction checks. -/
def GroupsBounded : Prop :=
  ∀ (key : Bytes) (d : Definition κ), s.definitions[key]? = some d → ∀ g ∈ d.groups, g ≠ [] ∧
    Dfs.Bounded (parentKeys s.groups) (s.limits.maxGroupDepth + 1).toNat g

/-- An active feature whose dependencies hold is decided by its attempts. -/
theorem evaluateStrategies_eq (hs : s.GroupsBounded) (hd : s.definitions[key]? = some definition) :
    s.evaluateStrategies definition context =
      (do match ← decideBy definition context s.limits (s.attempts definition) with
          | some result => return result
          | none => return defaultResult definition .default []) := by
  have hempty : s.SilentBelow definition context [] ∅ := fun k hk => by simp at hk
  rw [Snapshot.evaluateStrategies, evaluateGroups_eq definition.groups (hs key definition hd)
    hempty, firstMatch_eq_decideBy, attempts, decideBy_append]
  cases decideBy definition context s.limits
      (definition.groups.flatMap fun key => (s.chain key).flatMap s.groupAttempts) with
  | error e => rfl
  | ok r =>
    cases r with
    | some result | none => rfl

/-! ### Dependencies -/

variable {visiting : GoMap Bool} {dep : Dependency}

section Dependencies

theorem consulted_cons_of_holds {rest : List Dependency} (h : s.holds context dep = true) :
    s.consulted context (dep :: rest) = dep :: s.consulted context rest := by
  rw [consulted, if_pos h]

theorem holds_of_policy {result} (h : s.policy context dep.featureKey = .ok result)
    (hv : result.variant = dep.requiredVariant) : s.holds context dep = true := by
  simp [holds, h, hv]

theorem mem_of_mem_consulted {l} (h : dep ∈ s.consulted context l) : dep ∈ l := by
  induction l with
  | nil => cases h
  | cons a l ih =>
    rw [consulted, List.mem_cons] at h
    rcases h with rfl | h
    · exact List.mem_cons_self
    · split_ifs at h
      · exact List.mem_cons_of_mem a (ih h)
      · cases h

/-- If the recursive calls on the consulted dependencies give their policy, the loop gives the
policy's verdict. -/
theorem checkDependencies_eq (l : List Dependency)
    (hl : ∀ dep ∈ s.consulted context l, eval dep.featureKey visiting =
      (s.policy context dep.featureKey).map (·, visiting)) :
    Snapshot.checkDependencies eval key l visiting =
      (allHold key (l.map fun dep => (dep, s.policy context dep.featureKey))).map
        (·, visiting) := by
  induction l with
  | nil => rfl
  | cons dep l ih =>
    have hdep := hl dep (by rw [consulted]; exact List.mem_cons_self)
    rw [Snapshot.checkDependencies, hdep, List.map_cons, allHold]
    cases hp : s.policy context dep.featureKey with
    | error e => rfl
    | ok result =>
      simp only [Except.map, Except.mapError, bind, Except.bind]
      by_cases hv : result.variant = dep.requiredVariant
      · rw [if_neg (not_not.mpr hv), if_neg (not_not.mpr hv)]
        apply ih
        intro d hd
        exact hl d (by
          rw [consulted_cons_of_holds (holds_of_policy hp hv)]; exact List.mem_cons_of_mem dep hd)
      · rw [if_pos hv, if_pos hv]
        rfl

end Dependencies

/-- The policy of a feature, from the verdict on its dependencies. -/
theorem policy_of_lookup (hd : s.definitions[key]? = some definition) :
    s.policy context key =
      if definition.lifecycle ≠ .active then .ok (defaultResult definition .inactive [])
      else do
        let hold ← allHold key (definition.dependencies.map fun dep =>
          (dep, s.policy context dep.featureKey))
        if ¬ hold then
          return defaultResult definition .dependencyFailed Snapshot.dependencyFailed
        match ← decideBy definition context s.limits (s.attempts definition) with
        | some result => return result
        | none => return defaultResult definition .default [] := by
  rw [policy]
  split
  · rename_i h; rw [hd] at h; cases h
  · rename_i d h
    rw [hd] at h
    cases h
    rfl

theorem policy_of_lookup_none (hd : s.definitions[key]? = none) :
    s.policy context key = .error (.wrapf "feature %q: %w" [.q key] (.sentinel .notFound)) := by
  rw [policy]
  split
  · rfl
  · rename_i d h; rw [hd] at h; cases h

theorem consultedKeys_of_active (hd : s.definitions[key]? = some definition)
    (hactive : definition.lifecycle = .active) :
    s.consultedKeys context key =
      (s.consulted context definition.dependencies).map Dependency.featureKey := by
  rw [consultedKeys, hd]
  exact if_pos hactive

theorem mem_dependencyKeys_of_mem_consultedKeys {w : Bytes} (h : w ∈ s.consultedKeys context key) :
    w ∈ dependencyKeys s.definitions key := by
  unfold consultedKeys at h
  unfold dependencyKeys
  cases hd : s.definitions[key]? with
  | none => simp [hd] at h
  | some d =>
    rw [hd] at h
    dsimp only at h ⊢
    split_ifs at h
    · obtain ⟨dep, hdep, rfl⟩ := List.mem_map.mp h
      exact List.mem_map_of_mem (mem_of_mem_consulted hdep)
    · cases h

omit [CustomStrategy κ] [Runtime] in
/-- A feature is not met again among its own dependencies. -/
theorem lookup_visiting_eq_none
    (hvis : ∀ k ∈ visiting, TransGen (Dfs.Edge (dependencyKeys s.definitions)) k key) :
    visiting[key]? = none := by
  apply Std.ExtTreeMap.getElem?_eq_none
  intro hmem
  obtain ⟨n, hn⟩ := Dfs.exists_bounded (s.dependencies_wf.apply key)
  exact hn.irrefl (hvis key hmem)

omit [CustomStrategy κ] [Runtime] in
/-- The keys being evaluated stay above the next one. -/
theorem visiting_insert {w : Bytes}
    (hvis : ∀ k ∈ visiting, TransGen (Dfs.Edge (dependencyKeys s.definitions)) k key)
    (hw : w ∈ dependencyKeys s.definitions key) :
    ∀ k ∈ visiting.insert key true, TransGen (Dfs.Edge (dependencyKeys s.definitions)) k w := by
  intro k hk
  rcases Std.ExtTreeMap.mem_insert.mp hk with heq | hk
  · obtain rfl := Std.compare_eq_iff_eq.mp heq
    exact .single hw
  · exact .tail (hvis k hk) hw

/-- One level of `evaluateKey`: if the recursive calls on the consulted dependencies give their
policy, so does the call itself. -/
theorem evaluateKey_succ_eq (hs : s.GroupsBounded) {n : Nat}
    (hvis : ∀ k ∈ visiting, TransGen (Dfs.Edge (dependencyKeys s.definitions)) k key)
    (hrec : ∀ w ∈ s.consultedKeys context key, s.evaluateKey context n w (visiting.insert key true)
      = (s.policy context w).map (·, visiting.insert key true)) :
    s.evaluateKey context (n + 1) key visiting = (s.policy context key).map (·, visiting) := by
  have hnone := lookup_visiting_eq_none hvis
  have herase := GoMap.erase_insert visiting true hnone
  rw [Snapshot.evaluateKey, if_neg (by simp [flag_eq_false_of_lookup hnone])]
  cases hd : s.definitions[key]? with
  | none => rw [policy_of_lookup_none hd]; rfl
  | some definition =>
    rw [policy_of_lookup hd]
    dsimp only
    by_cases hactive : definition.lifecycle = .active
    · rw [consultedKeys_of_active hd hactive] at hrec
      rw [if_neg (not_not.mpr hactive), if_neg (not_not.mpr hactive),
        checkDependencies_eq definition.dependencies fun dep hdep => hrec dep.featureKey
        (List.mem_map_of_mem hdep), evaluateStrategies_eq hs hd]
      cases allHold key (definition.dependencies.map fun dep =>
          (dep, s.policy context dep.featureKey)) with
      | error e => rfl
      | ok hold =>
        simp only [Except.map, bind, Except.bind, herase]
        cases hold with
        | false => rfl
        | true =>
          cases decideBy definition context s.limits (s.attempts definition) with
          | error e => rfl
          | ok r => cases r <;> rfl
    · rw [if_pos hactive, if_pos hactive, herase]
      rfl

/-- With levels for all consulted dependencies, `evaluateKey` computes the policy and restores the
set of features being evaluated. -/
theorem evaluateKey_eq_policy_of_bounded (hs : s.GroupsBounded) (n : Nat) :
    ∀ {key : Bytes} {visiting : GoMap Bool}, Dfs.Bounded (s.consultedKeys context) n key →
      (∀ k ∈ visiting, TransGen (Dfs.Edge (dependencyKeys s.definitions)) k key) →
      s.evaluateKey context (n + 1) key visiting =
        (s.policy context key).map (·, visiting) := by
  induction n with
  | zero =>
    intro key visiting hb hvis
    refine evaluateKey_succ_eq hs hvis fun w hw => ?_
    rw [hb] at hw
    cases hw
  | succ n ih =>
    intro key visiting hb hvis
    refine evaluateKey_succ_eq hs hvis fun w hw => ?_
    exact ih (hb w hw) (visiting_insert hvis (mem_dependencyKeys_of_mem_consultedKeys hw))

/-! ### Too few levels -/

/-- The call fails because the depth of the evaluation exceeds the limit. -/
def TooDeep {α : Type} (limits : Limits) (outcome : Except GoError α) : Prop :=
  ∃ e key, outcome = .error e ∧
    e.root = .errorf "feature %q: evaluation depth exceeds %d"
      [.q key, .d limits.maxEvaluationDepth]

omit [CustomStrategy κ] [Runtime] in
theorem tooDeep_checkDependencies_cons {limits : Limits} {l : List Dependency}
    (h : TooDeep limits (eval dep.featureKey visiting)) :
    TooDeep limits (Snapshot.checkDependencies eval key (dep :: l) visiting) := by
  obtain ⟨e, k, he, hroot⟩ := h
  refine ⟨.wrapf "feature %q dependency %q: %w" [.q key, .q dep.featureKey] e, k, ?_, hroot⟩
  rw [Snapshot.checkDependencies, he]
  rfl

/-- The loop over the dependencies fails if the call on a consulted one does. -/
theorem tooDeep_checkDependencies {limits : Limits} (key : Bytes) (l : List Dependency)
    (hl : ∀ dep ∈ s.consulted context l, eval dep.featureKey visiting = (s.policy context
      dep.featureKey).map (·, visiting) ∨ TooDeep limits (eval dep.featureKey visiting))
    (hex : ∃ dep ∈ s.consulted context l, TooDeep limits (eval dep.featureKey visiting)) :
    TooDeep limits (Snapshot.checkDependencies eval key l visiting) := by
  induction l with
  | nil => obtain ⟨dep, hdep, -⟩ := hex; cases hdep
  | cons a l ih =>
    have ha : a ∈ s.consulted context (a :: l) := by rw [consulted]; exact List.mem_cons_self
    rcases hl a ha with heq | hdeep
    · obtain ⟨dep, hdep, hdeep⟩ := hex
      rw [consulted, List.mem_cons] at hdep
      rcases hdep with rfl | hdep
      · exact tooDeep_checkDependencies_cons hdeep
      · -- the first dependency holds, or no other would be consulted
        by_cases hh : s.holds context a = true
        · rw [if_pos hh] at hdep
          cases hp : s.policy context a.featureKey with
          | error e => simp [holds, hp] at hh
          | ok result =>
            have hv : result.variant = a.requiredVariant := by simpa [holds, hp] using hh
            have hrest := ih
              (fun d hd => hl d (by
                rw [consulted_cons_of_holds hh]; exact List.mem_cons_of_mem a hd))
              ⟨dep, hdep, hdeep⟩
            rw [Snapshot.checkDependencies, heq, hp]
            simp only [Except.map, Except.mapError, bind, Except.bind]
            rw [if_neg (not_not.mpr hv)]
            exact hrest
        · rw [if_neg hh] at hdep
          cases hdep
    · exact tooDeep_checkDependencies_cons hdeep

/-- One level of `evaluateKey`: it fails if the call on a consulted dependency does. -/
theorem tooDeep_evaluateKey_succ {n : Nat}
    (hvis : ∀ k ∈ visiting, TransGen (Dfs.Edge (dependencyKeys s.definitions)) k key)
    (hrec : ∀ w ∈ s.consultedKeys context key, s.evaluateKey context n w (visiting.insert key true)
      = (s.policy context w).map (·, visiting.insert key true) ∨ TooDeep s.limits (s.evaluateKey
      context n w (visiting.insert key true)))
    (hex : ∃ w ∈ s.consultedKeys context key,
      TooDeep s.limits (s.evaluateKey context n w (visiting.insert key true))) :
    TooDeep s.limits (s.evaluateKey context (n + 1) key visiting) := by
  have hnone := lookup_visiting_eq_none hvis
  rw [Snapshot.evaluateKey, if_neg (by simp [flag_eq_false_of_lookup hnone])]
  obtain ⟨w, hw, hdeep⟩ := hex
  cases hd : s.definitions[key]? with
  | none => simp [consultedKeys, hd] at hw
  | some definition =>
    dsimp only
    by_cases hactive : definition.lifecycle = .active
    · rw [consultedKeys_of_active hd hactive] at hrec hw
      obtain ⟨dep, hdep, rfl⟩ := List.mem_map.mp hw
      obtain ⟨e, k, he, hroot⟩ := tooDeep_checkDependencies key definition.dependencies
        (fun dep hdep => hrec dep.featureKey (List.mem_map_of_mem hdep)) ⟨dep, hdep, hdeep⟩
      rw [if_neg (not_not.mpr hactive), he]
      exact ⟨e, k, rfl, hroot⟩
    · simp [consultedKeys, hd, hactive] at hw

/-- With too few levels for the consulted dependencies, `evaluateKey` fails. -/
theorem tooDeep_evaluateKey_of_not_bounded (hs : s.GroupsBounded) (n : Nat) :
    ∀ {key : Bytes} {visiting : GoMap Bool}, ¬ Dfs.Bounded (s.consultedKeys context) n key →
      (∀ k ∈ visiting, TransGen (Dfs.Edge (dependencyKeys s.definitions)) k key) →
      TooDeep s.limits (s.evaluateKey context (n + 1) key visiting) := by
  induction n with
  | zero =>
    intro key visiting hb hvis
    obtain ⟨w, hw⟩ := List.exists_mem_of_ne_nil _ hb
    have hdeep (w : Bytes) :
        TooDeep s.limits (s.evaluateKey context 0 w (visiting.insert key true)) :=
      ⟨_, w, rfl, rfl⟩
    exact tooDeep_evaluateKey_succ hvis (fun w _ => .inr (hdeep w)) ⟨w, hw, hdeep w⟩
  | succ n ih =>
    intro key visiting hb hvis
    have hvis' {w : Bytes} (hw : w ∈ s.consultedKeys context key) :=
      visiting_insert hvis (mem_dependencyKeys_of_mem_consultedKeys hw)
    obtain ⟨w, hw, hwb⟩ : ∃ w ∈ s.consultedKeys context key,
        ¬ Dfs.Bounded (s.consultedKeys context) n w := by
      by_contra hall
      push Not at hall
      exact hb hall
    refine tooDeep_evaluateKey_succ hvis (fun v hv => ?_) ⟨w, hw, ih hwb (hvis' hw)⟩
    by_cases hvb : Dfs.Bounded (s.consultedKeys context) n v
    · exact .inl (evaluateKey_eq_policy_of_bounded hs n hvb (hvis' hv))
    · exact .inr (ih hvb (hvis' hv))

end AcyclicSnapshot

/-! ### Accepted snapshots -/

section Accepted

variable {ord : MapOrder} {definitions : List (Definition κ)} {groups : List (GroupDefinition κ)}
  {limits : Limits} {s : Snapshot κ}

section

variable (h : newSnapshotWithGroups ord definitions groups limits = .ok s)
include h

/-- A feature of an accepted snapshot is the clone of a valid definition. -/
theorem lookup_definitions {d : Definition κ} (hd : s.definitions[key]? = some d) :
    ∃ d₀ ∈ definitions, d₀.key = key ∧ cloneDefinition d₀ = d ∧ d₀.Valid limits := by
  obtain ⟨hok, -, rfl⟩ := newSnapshotWithGroups_eq_ok_iff.mp h
  obtain ⟨d₀, hmem, hkey, hclone⟩ := (GoMap.lookup_index hok.nodup).mp hd
  exact ⟨d₀, hmem, hkey, hclone, hok.valid d₀ hmem⟩

theorem limits_eq : s.limits = limits := by
  obtain ⟨-, -, rfl⟩ := newSnapshotWithGroups_eq_ok_iff.mp h
  rfl

theorem groupsBounded_acyclic (tenant : Bytes) : (Snapshot.acyclic h tenant).GroupsBounded := by
  intro key d hd g hg
  obtain ⟨d₀, -, -, hclone, hvalid⟩ := lookup_definitions h hd
  obtain ⟨hok, -, rfl⟩ := newSnapshotWithGroups_eq_ok_iff.mp h
  have hg₀ : g ∈ d₀.groups := by rw [← hclone] at hg; exact hg
  exact ⟨(hvalid.groups g hg₀).1,
    hok.groups_ok.bounded g (hok.groups_ok.attached key d hd g hg).exists_group⟩

end

/-- **Evaluation implements the policy**: in an accepted snapshot whose dependency paths have at
most `maxEvaluationDepth` edges, `evaluateKey` is the policy, for every feature and context. -/
theorem evaluateKey_eq_policy (h : newSnapshotWithGroups ord definitions groups limits = .ok s)
    (hpath : ∀ path : List Bytes, path.IsChain (Dfs.Edge (dependencyKeys s.definitions)) →
      len path ≤ limits.maxEvaluationDepth + 1)
    (tenant key : Bytes) (context : Context) :
    ((s.bindTenant tenant).evaluateKey context (limits.maxEvaluationDepth + 1).toNat key ∅).map
        Prod.fst =
      (Snapshot.acyclic h tenant).policy context key := by
  have hpos : 0 ≤ limits.maxEvaluationDepth := by
    have := hpath [key] (List.isChain_singleton key)
    simp only [len, List.length_singleton] at this
    omega
  have hlevels : (limits.maxEvaluationDepth + 1).toNat = limits.maxEvaluationDepth.toNat + 1 := by
    omega
  have hb : Dfs.Bounded (dependencyKeys s.definitions) limits.maxEvaluationDepth.toNat key := by
    refine Dfs.bounded_iff.mpr fun path hchain => ?_
    have := hpath (key :: path) hchain
    simp only [len, List.length_cons] at this
    omega
  have hb' : Dfs.Bounded ((Snapshot.acyclic h tenant).consultedKeys context)
      limits.maxEvaluationDepth.toNat key :=
    hb.of_subset fun v w hw => AcyclicSnapshot.mem_dependencyKeys_of_mem_consultedKeys hw
  have heq : (s.bindTenant tenant).evaluateKey context (limits.maxEvaluationDepth.toNat + 1) key ∅ =
      ((Snapshot.acyclic h tenant).policy context key).map (·, ∅) :=
    AcyclicSnapshot.evaluateKey_eq_policy_of_bounded (groupsBounded_acyclic h tenant) _ hb'
      (by simp)
  rw [hlevels, heq]
  cases (Snapshot.acyclic h tenant).policy context key with
  | error e => rfl
  | ok r => rfl

end Accepted

omit [Runtime] in
/-- Two features, one of which requires the other. -/
theorem evaluateKey_eq_policy_pair :
    letI := unaryRuntime
    ∃ h : newSnapshotWithGroups .sorted featurePair [] defaultLimits =
        .ok (snapshotOf featurePair [] defaultLimits),
      (((snapshotOf featurePair [] defaultLimits).bindTenant []).evaluateKey Context.empty
          (defaultLimits.maxEvaluationDepth + 1).toNat (str "b") ∅).map Prod.fst =
        (Snapshot.acyclic h []).policy Context.empty (str "b") := by
  let _ := unaryRuntime
  have h : newSnapshotWithGroups .sorted featurePair [] defaultLimits =
      .ok (snapshotOf featurePair [] defaultLimits) := by
    decide +kernel
  have hedges : ∀ v ∈ ((definitionIndex featurePair).range .sorted).map Prod.fst,
      ∀ w ∈ dependencyKeys (definitionIndex featurePair) v,
        dependencyKeys (definitionIndex featurePair) w = [] := by
    decide +kernel
  refine ⟨h, evaluateKey_eq_policy h (fun path hchain => ?_) [] (str "b") Context.empty⟩
  have hlen := Dfs.length_le_of_bounded (n := 1) (fun v w hw =>
    hedges v (mem_of_dependencyKeys_ne_nil (List.ne_nil_of_mem hw)) w hw) hchain
  simp only [len, defaultLimits]
  omega

end FeatureFlags
