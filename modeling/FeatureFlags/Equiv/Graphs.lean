import FeatureFlags.Equiv.Snapshot

/-!
# The checks of the graphs

`validateDependencyGraph` and `validateGroupGraph`, and what later walks rely on.

* `dependency_graph_checked`: the search for cycles returns; it refuses every cycle, and it accepts
  every closed graph without cycles whose paths fit the limit.
* `group_graph_exact`: the groups are accepted iff every chain of parents ends within the limit.
  Then the loop over a chain that has no counter ends, and `evaluateGroup` is never too deep.
-/

namespace FeatureFlags

open Go Relation

variable {κ : Type}

/-! ### Dependencies -/

/-- The first loop of `validateDependencyGraph`. -/
def validateReferences (ord : MapOrder) (definitions : GoMap (Definition κ)) :
    Except GoError Unit :=
  forEach (definitions.range ord) fun x =>
    forEach x.2.dependencies fun dependency => validateReference definitions x.1 dependency

/-- A finite run of `validateDependencyGraph` with the closure `visit` as in the source: it calls
itself at the next depth and stops only at the limit, at a cycle or at a visited feature. -/
inductive DependencyRun (ord : MapOrder) (definitions : GoMap (Definition κ)) (limits : Limits) :
    Except GoError Unit → Prop
  | reference {e : GoError} : validateReferences ord definitions = .error e →
    DependencyRun ord definitions limits (.error e)
  | search {r : Except (Dfs.Failure Bytes) (Dfs.State Bytes)} :
    validateReferences ord definitions = .ok () →
    Dfs.RunAll (dependencyKeys definitions) limits.maxEvaluationDepth 0
      ((definitions.range ord).map Prod.fst) .empty r →
    DependencyRun ord definitions limits ((r.mapError (visitError limits)).map fun _ => ())

variable {definitions : GoMap (Definition κ)} {ord : MapOrder} {limits : Limits}

theorem validateDependencyGraph_eq :
    validateDependencyGraph ord definitions limits =
      (validateReferences ord definitions).bind fun _ =>
        ((Dfs.visitAll (dependencyKeys definitions) (Dfs.levels limits.maxEvaluationDepth 0)
          ((definitions.range ord).map Prod.fst) .empty).mapError (visitError limits)).map
            fun _ => () := by
  have hlevels : Dfs.levels limits.maxEvaluationDepth 0 =
      (limits.maxEvaluationDepth + 1).toNat := by
    rw [Dfs.levels, Int.sub_zero]
  rw [hlevels]
  rfl

/-- The check returns, and it returns one result. -/
theorem dependencyRun_iff {r : Except GoError Unit} :
    DependencyRun ord definitions limits r ↔
      r = validateDependencyGraph ord definitions limits := by
  rw [validateDependencyGraph_eq]
  constructor
  · rintro (hfail | ⟨hok, hrun⟩)
    · rw [hfail]
      rfl
    · rw [hok, ← Dfs.runAll_iff.mp hrun]
      rfl
  · rintro rfl
    cases h : validateReferences ord definitions with
    | error e => exact .reference h
    | ok u => exact .search h (Dfs.runAll_iff.mpr rfl)

/-- Paths within the limit are bounded, and the limit is reached from every key. -/
theorem searched_of_paths (hlimit : 0 ≤ limits.maxEvaluationDepth)
    (hpaths : ∀ (key : Bytes) (path : List Bytes),
      (key :: path).IsChain (Dfs.Edge (dependencyKeys definitions)) →
      len path ≤ limits.maxEvaluationDepth) : Searched ord definitions limits := by
  have hlevels : (limits.maxEvaluationDepth + 1).toNat = limits.maxEvaluationDepth.toNat + 1 := by
    omega
  unfold Searched
  rw [hlevels]
  refine Dfs.visitAll_of_bounded _ (fun key _ => Dfs.bounded_iff.mpr fun path hchain => ?_) .empty
    rfl
  have hlength := hpaths key path hchain
  unfold len at hlength
  omega

/-- The check of the dependencies returns for every graph and every order of the map.  What it
accepts is closed and has no cycle; a closed graph without cycles is accepted if no path has more
edges than the limit. -/
theorem dependency_graph_checked (ord : MapOrder) (definitions : GoMap (Definition κ))
    (limits : Limits) :
    (∀ r, DependencyRun ord definitions limits r ↔
      r = validateDependencyGraph ord definitions limits) ∧
    (validateDependencyGraph ord definitions limits = .ok () → References definitions ∧ ∀ key,
      ¬ TransGen (Dfs.Edge (dependencyKeys definitions)) key key) ∧
    (0 ≤ limits.maxEvaluationDepth → References definitions →
      (∀ key, ¬ TransGen (Dfs.Edge (dependencyKeys definitions)) key key) →
      (∀ (key : Bytes) (path : List Bytes), (key :: path).IsChain (Dfs.Edge (dependencyKeys
        definitions)) → len path ≤ limits.maxEvaluationDepth) →
      validateDependencyGraph ord definitions limits = .ok ()) := by
  refine ⟨fun r => dependencyRun_iff, fun haccepted => ?_, fun hlimit hclosed _ hpaths => ?_⟩
  · obtain ⟨hclosed, hsearched⟩ := validateDependencyGraph_eq_ok_iff.mp haccepted
    refine ⟨hclosed, fun key hcycle => ?_⟩
    obtain ⟨n, hbounded⟩ := Dfs.exists_bounded (hsearched.wellFounded.apply key)
    exact hbounded.irrefl hcycle
  · exact validateDependencyGraph_eq_ok_iff.mpr ⟨hclosed, searched_of_paths hlimit hpaths⟩

/-! ### Groups -/

/-- `b` is the parent of the group `a`; the empty key stands for no group. -/
def ParentLink (groups : GoMap (GroupDefinition κ)) (a b : Bytes) : Prop :=
  b ≠ [] ∧ b = parentOf groups a

/-- The chain of parents of a group has no cycle and at most `maxGroupDepth` links. -/
structure ChainWithin (groups : GoMap (GroupDefinition κ)) (limits : Limits) (key : Bytes) :
    Prop where
  acyclic : ∀ v, ReflTransGen (ParentLink groups) key v → ¬ TransGen (ParentLink groups) v v
  links : ∀ path : List Bytes, (key :: path).IsChain (ParentLink groups) →
    len path ≤ limits.maxGroupDepth

/-- A finite run of the loop over a chain of parents, which has no counter, and the groups it
passes. -/
inductive ParentLoop (groups : GoMap (GroupDefinition κ)) : Bytes → List Bytes → Prop
  | done : ParentLoop groups [] []
  | step {current : Bytes} {rest : List Bytes} : current ≠ [] →
    ParentLoop groups (parentOf groups current) rest →
    ParentLoop groups current (current :: rest)

section Chains

variable {groups : GoMap (GroupDefinition κ)} {limits : Limits} {key : Bytes}

theorem edge_parentOf (hkey : key ≠ []) :
    Dfs.Edge (parentKeys groups) key (parentOf groups key) := by
  simp [Dfs.Edge, parentKeys, hkey]

variable {v : Bytes}

theorem ne_nil_of_edge (h : Dfs.Edge (parentKeys groups) key v) : key ≠ [] := by
  rintro rfl
  simp [Dfs.Edge, parentKeys] at h

theorem ParentLink.edge (hkey : key ≠ []) (h : ParentLink groups key v) :
    Dfs.Edge (parentKeys groups) key v := by
  rw [h.2]
  exact edge_parentOf hkey

theorem parentLink_of_edge (h : Dfs.Edge (parentKeys groups) key v) (hv : v ≠ []) :
    ParentLink groups key v := by
  have hkey := ne_nil_of_edge h
  exact ⟨hv, by simpa [Dfs.Edge, parentKeys, hkey] using h⟩

theorem transGen_edge_of_links (hkey : key ≠ []) (h : TransGen (ParentLink groups) key v) :
    TransGen (Dfs.Edge (parentKeys groups)) key v ∧ v ≠ [] := by
  induction h with
  | single hlink => exact ⟨.single (hlink.edge hkey), hlink.1⟩
  | tail _ hlink ih => exact ⟨ih.1.tail (hlink.edge ih.2), hlink.1⟩

/-- A path of links goes on for one step, at least to the empty key. -/
theorem isChain_snoc_of_links {path : List Bytes} (hkey : key ≠ [])
    (h : (key :: path).IsChain (ParentLink groups)) :
    ∃ last, (key :: (path ++ [last])).IsChain (Dfs.Edge (parentKeys groups)) := by
  induction path generalizing key with
  | nil =>
    exact ⟨parentOf groups key,
      List.isChain_cons_cons.mpr ⟨edge_parentOf hkey, List.isChain_singleton _⟩⟩
  | cons v path ih =>
    obtain ⟨hlink, hpath⟩ := List.isChain_cons_cons.mp h
    obtain ⟨last, hlast⟩ := ih hlink.1 hpath
    exact ⟨last, List.isChain_cons_cons.mpr ⟨hlink.edge hkey, hlast⟩⟩

/-- All but the last step of a walk are links. -/
theorem links_of_isChain_snoc {path : List Bytes} {last : Bytes}
    (h : (key :: (path ++ [last])).IsChain (Dfs.Edge (parentKeys groups))) :
    (key :: path).IsChain (ParentLink groups) := by
  induction path generalizing key with
  | nil => exact List.isChain_singleton key
  | cons v path ih =>
    obtain ⟨hedge, hpath⟩ := List.isChain_cons_cons.mp h
    have hv : v ≠ [] := by
      cases path with
      | nil | cons w path => exact ne_nil_of_edge (List.isChain_cons_cons.mp hpath).1
    exact List.isChain_cons_cons.mpr ⟨parentLink_of_edge hedge hv, ih hpath⟩

theorem bounded_nil (n : Nat) : Dfs.Bounded (parentKeys groups) n [] := by
  cases n with
  | zero => rfl
  | succ n => exact fun v hv => absurd rfl (ne_nil_of_edge hv)

/-- The walk over the parents fits the levels iff the chain is within the limit. -/
theorem bounded_iff_chainWithin (hkey : key ≠ []) :
    Dfs.Bounded (parentKeys groups) (limits.maxGroupDepth + 1).toNat key ↔
      ChainWithin groups limits key := by
  constructor
  · intro h
    refine ⟨fun v hv hcycle => ?_, fun path hpath => ?_⟩
    · -- the bound is inherited along the chain, and a bounded node is on no cycle
      rcases reflTransGen_iff_eq_or_transGen.mp hv with rfl | hv
      · exact h.irrefl (transGen_edge_of_links hkey hcycle).1
      · obtain ⟨hreach, hne⟩ := transGen_edge_of_links hkey hv
        obtain ⟨n, -, hbounded⟩ := h.transGen hreach
        exact hbounded.irrefl (transGen_edge_of_links hne hcycle).1
    · obtain ⟨last, hwalk⟩ := isChain_snoc_of_links hkey hpath
      have hlength := Dfs.bounded_iff.mp h _ hwalk
      rw [List.length_append, List.length_singleton] at hlength
      unfold len
      omega
  · intro h
    refine Dfs.bounded_iff.mpr fun path hwalk => ?_
    rcases List.eq_nil_or_concat path with rfl | ⟨path, last, rfl⟩
    · exact Nat.zero_le _
    · rw [List.concat_eq_append] at hwalk ⊢
      have hlinks := h.links path (links_of_isChain_snoc hwalk)
      unfold len at hlinks
      rw [List.length_append, List.length_singleton]
      omega

/-- On a bounded chain the loop without a counter ends, after the groups of `parentChain`. -/
theorem parentLoop_of_bounded (n : Nat) : ∀ {key : Bytes},
    Dfs.Bounded (parentKeys groups) n key → ParentLoop groups key (parentChain groups n key) := by
  induction n with
  | zero =>
    intro key h
    have hkey : key = [] := by
      by_contra hkey
      simp [Dfs.Bounded, parentKeys, hkey] at h
    rw [hkey, parentChain]
    exact .done
  | succ n ih =>
    intro key h
    rw [parentChain]
    split_ifs with hkey
    · rw [hkey]
      exact .done
    · exact .step hkey (ih (h _ (edge_parentOf hkey)))

theorem validateGroupGraph_eq_ok_iff {u : Unit} :
    validateGroupGraph ord groups limits = .ok u ↔
      ∀ key ∈ groups, Dfs.Bounded (parentKeys groups) (limits.maxGroupDepth + 1).toNat key := by
  rw [validateGroupGraph, forEach_eq_ok]
  simp only [walkParents_eq_ok_iff]
  exact (forall_mem_range (P := fun key (_ : GroupDefinition κ) =>
    Dfs.Bounded (parentKeys groups) (limits.maxGroupDepth + 1).toNat key)).trans forall_key_iff

end Chains

/-! ### Evaluating groups -/

section Evaluate

variable [CustomStrategy κ] [Runtime] {definition : Definition κ} {context : Context}
  {limits : Limits}

/-- The error of `evaluateGroup` for a chain that is too long. -/
def inheritanceDepthError (limits : Limits) (key : Bytes) : GoError :=
  .errorf "group %q: inheritance depth exceeds %d" [.q key, .d limits.maxGroupDepth]

theorem firstMatch_ne_errorf {label : Bytes} {override : Reason} {text : String}
    {args : List Arg} (strategies : List (Strategy κ)) :
    firstMatch definition context label override limits strategies ≠
      .error (.errorf text args) := by
  induction strategies with
  | nil => exact fun h => nomatch h
  | cons strategy strategies ih =>
    intro h
    rw [firstMatch, evaluateOneStrategy] at h
    cases hresult : strategy.evaluateStrategy ⟨definition.key, context⟩ with
    | error e =>
      rw [hresult] at h
      cases h
    | ok result =>
      rw [hresult] at h
      by_cases hmatched : result.matched = true
      · simp [hmatched, bind, Except.bind, Except.mapError, pure, Except.pure] at h
      · simp [hmatched, bind, Except.bind, Except.mapError, pure, Except.pure] at h
        exact ih h

/-- Within the limit the depth is never the reason to fail. -/
theorem evaluateGroup_ne_depth {s : Snapshot κ} (n : Nat) : ∀ {key : Bytes} {visited : GoMap Bool},
    key ≠ [] → Dfs.Bounded (parentKeys s.groups) n key →
      ∀ k, s.evaluateGroup definition context n key visited ≠
        .error (inheritanceDepthError s.limits k) := by
  induction n with
  | zero =>
    intro key visited hkey h
    simp [Dfs.Bounded, parentKeys, hkey] at h
  | succ n ih =>
    intro key visited hkey h k hfail
    rw [Snapshot.evaluateGroup] at hfail
    by_cases hvisited : flag visited key = true
    · rw [if_pos hvisited] at hfail
      cases hfail
    · rw [if_neg hvisited] at hfail
      cases hmatch : firstMatch definition context (groupLabel key) .groupMatch s.limits
          (groupStrategies s.groups key) with
      | error e =>
        rw [hmatch] at hfail
        obtain rfl : e = inheritanceDepthError s.limits k := Except.error.inj hfail
        exact firstMatch_ne_errorf _ hmatch
      | ok result =>
        rw [hmatch] at hfail
        cases result with
        | some result => cases hfail
        | none =>
          change (if parentOf s.groups key ≠ [] then s.evaluateGroup definition context n
            (parentOf s.groups key) (visited.insert key true)
              else .ok (none, visited.insert key true)) = _ at hfail
          split_ifs at hfail with hparent
          exact ih hparent (h _ (edge_parentOf hkey)) k hfail

/-- In an accepted snapshot the groups of every feature exist, and all chains are bounded. -/
theorem groups_of_newSnapshotWithGroups {definitions groups} {s : Snapshot κ}
    (h : newSnapshotWithGroups ord definitions groups limits = .ok s) :
    s.limits = limits ∧
      (∀ (feature : Bytes) (d : Definition κ), s.definitions[feature]? = some d →
        ∀ key ∈ d.groups, key ∈ s.groups) ∧
      ∀ key ∈ s.groups, key ≠ [] ∧
        Dfs.Bounded (parentKeys s.groups) (limits.maxGroupDepth + 1).toNat key := by
  obtain ⟨hok, -, rfl⟩ := newSnapshotWithGroups_eq_ok_iff.mp h
  have hgroups := hok.groups_ok
  refine ⟨rfl, fun feature d hd key hkey => (hgroups.attached feature d hd key hkey).exists_group,
    fun key hkey => ⟨?_, hgroups.bounded key hkey⟩⟩
  -- groups are stored under their own keys, which are not empty
  obtain ⟨g, hg, hname⟩ := (GoMap.mem_index hgroups.nodup).mp hkey
  rw [← hname]
  exact (hgroups.valid g hg).key.1

/-- The groups are accepted, in any order of the map, iff every chain of parents has no cycle and no
more links than the limit.  Then the loop over a chain ends although it has no counter, and in an
accepted snapshot a chain is never too deep to be evaluated. -/
theorem group_graph_exact :
    (∀ (ord : MapOrder) (groups : GoMap (GroupDefinition κ)) (limits : Limits),
      validateGroupGraph ord groups limits = .ok () ↔
        ∀ key ∈ groups, key ≠ [] → ChainWithin groups limits key) ∧
    (∀ (ord : MapOrder) (groups : GoMap (GroupDefinition κ)) (limits : Limits),
      validateGroupGraph ord groups limits = .ok () → ∀ key ∈ groups,
        ParentLoop groups key (parentChain groups (limits.maxGroupDepth + 1).toNat key)) ∧
    (∀ (ord : MapOrder) (definitions : List (Definition κ)) (groups : List (GroupDefinition κ))
      (limits : Limits) (s : Snapshot κ) (tenant : Bytes),
      newSnapshotWithGroups ord definitions groups limits = .ok s →
        (∀ (feature : Bytes) (d : Definition κ), s.definitions[feature]? = some d →
          ∀ key ∈ d.groups, key ∈ s.groups) ∧
        ∀ key ∈ s.groups, ∀ (definition : Definition κ) (context : Context)
          (visited : GoMap Bool) (k : Bytes),
          (s.bindTenant tenant).evaluateGroup definition context (limits.maxGroupDepth + 1).toNat
            key visited ≠ .error (inheritanceDepthError limits k)) := by
  refine ⟨fun ord groups limits => ?_, fun ord groups limits haccepted key hkey => ?_,
    fun ord definitions groups limits s tenant hs => ?_⟩
  · rw [validateGroupGraph_eq_ok_iff]
    refine forall₂_congr fun key _ => ?_
    by_cases hnil : key = []
    · subst hnil
      exact ⟨fun _ hne => absurd rfl hne, fun _ => bounded_nil _⟩
    · rw [bounded_iff_chainWithin hnil]
      exact ⟨fun hchain _ => hchain, fun hchain => hchain hnil⟩
  · exact parentLoop_of_bounded _ (validateGroupGraph_eq_ok_iff.mp haccepted key hkey)
  · obtain ⟨rfl, hattached, hbounded⟩ := groups_of_newSnapshotWithGroups hs
    refine ⟨hattached, fun key hkey definition context visited k => ?_⟩
    obtain ⟨hnil, hchain⟩ := hbounded key hkey
    exact evaluateGroup_ne_depth (s := s.bindTenant tenant) _ hnil hchain k

end Evaluate

end FeatureFlags
