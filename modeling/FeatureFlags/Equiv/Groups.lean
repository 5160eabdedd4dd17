import FeatureFlags.Equiv.Tenant

/-!
# Groups

A group leaves no tombstone.  Its versions start again when it is created after a deletion, and a
feature that was deleted before it can be restored without it.

* `GroupMove`, `Effect.groups`: what an operation may do to a group.
* `group_versions_unique`: if no group is created again after its deletion, a version stands for one
  group, and an expected version that was read earlier is that of an unchanged group.
  `group_version_reused`: otherwise it need not be.
* `no_dangling_iff`: the groups of live features and the parents of groups exist exactly when each
  feature that is restored finds its groups.  `restored_dangling`: `Restore` does not check it.
-/

namespace FeatureFlags

open Go Lib

variable {κ : Type} {ord : MapOrder} {call : Call κ}

/-! ### What a call is given -/

section Arguments

variable [CustomStrategy κ] [Runtime]

/-- The keys of the groups that a call may add. -/
def Call.groupKeys (ord : MapOrder) (limits : Limits) : Call κ → List Bytes
  | .createGroup group _ => [group.key]
  | .importDocument data options _ =>
    if options.dryRun then [] else
      match (Import ord data limits : Except GoError (List (Definition κ) × _)) with
      | .ok (_, groups) => groups.map GroupDefinition.key
      | .error _ => []
  | _ => []

/-- The definitions that are passed to a call. -/
def Call.definitions (ord : MapOrder) (limits : Limits) : Call κ → List (Definition κ)
  | .create definition _ => [definition]
  | .update definition _ _ => [definition]
  | .stageUpdate definition _ _ _ => [definition]
  | .importDocument data options _ =>
    if options.dryRun then [] else
      match Import ord data limits with
      | .ok (definitions, _) => definitions
      | .error _ => []
  | _ => []

theorem groupKeys_import {ord : MapOrder} {limits : Limits} {data actor : Bytes}
    {options : ImportOptions} {definitions : List (Definition κ)}
    {groups : List (GroupDefinition κ)}
    (applied : options.dryRun = false) (read : Import ord data limits = .ok (definitions, groups)) :
    (Call.importDocument data options actor : Call κ).groupKeys ord limits =
      groups.map GroupDefinition.key := by
  simp [Call.groupKeys, applied, read]

end Arguments

/-! ### One operation -/

/-- What an operation may do to a group: create it at version 1, remove it, keep it (or its copy),
or raise its version by one. -/
def GroupMove [CustomStrategy κ] (adds deletes : Prop) :
    Option (GroupDefinition κ) → Option (GroupDefinition κ) → Prop
  | none, none => True
  | none, some new => adds ∧ new.version = 1
  | some _, none => deletes
  | some old, some new => new = old ∨ new = cloneGroup old ∨ new.version = old.version + 1

section Operations

variable [CustomStrategy κ] {adds deletes : Prop}

theorem GroupMove.refl (old : Option (GroupDefinition κ)) : GroupMove adds deletes old old := by
  cases old with
  | none => trivial
  | some old => exact .inl rfl

/-- Created at version 1, or raised by one version, or kept. -/
def PlannedGroup (old new : Option (GroupDefinition κ)) : Prop :=
  ∃ g, new = some g ∧
    (old = none ∧ g.version = 1 ∨ ∃ g', old = some g' ∧ (g = g' ∨ g.version = g'.version + 1))

theorem GroupMove.of_cloned {old new : Option (GroupDefinition κ)}
    (h : new = old.map cloneGroup ∨ adds ∧ PlannedGroup (old.map cloneGroup) new) :
    GroupMove adds deletes old new := by
  cases old with
  | none =>
    rcases h with rfl | ⟨hadds, g, rfl, ⟨-, hversion⟩ | ⟨g', h, -⟩⟩
    · trivial
    · exact ⟨hadds, hversion⟩
    · cases h
  | some old =>
    rcases h with rfl | ⟨hadds, g, rfl, ⟨h, -⟩ | ⟨g', h, hg⟩⟩
    · exact .inr (.inl rfl)
    · cases h
    · cases h
      exact .inr hg

variable {policy : ConflictPolicy}

theorem planGroup_framed (plan : ImportPlan κ) (g : GroupDefinition κ) (plan' : ImportPlan κ)
    (key : Bytes) (h : planGroup policy plan g = plan') (hg : ¬ g.key = key) :
    plan'.groups[key]? = plan.groups[key]? := by
  subst h
  unfold planGroup
  split
  · dsimp only
    split_ifs
    · exact GoMap.lookup_insert_ne _ _ hg
    · rfl
  · exact GoMap.lookup_insert_ne _ _ hg

theorem planGroup_planned (plan : ImportPlan κ) (g : GroupDefinition κ) (plan' : ImportPlan κ)
    (key : Bytes) (h : planGroup policy plan g = plan') (hg : g.key = key) :
    PlannedGroup plan.groups[key]? plan'.groups[key]? := by
  subst h hg
  unfold planGroup
  split
  · rename_i current hcurrent
    dsimp only
    split_ifs
    · exact ⟨_, GoMap.lookup_insert_self _ _ _, .inr ⟨current, hcurrent, .inr rfl⟩⟩
    · exact ⟨current, hcurrent, .inr ⟨current, hcurrent, .inl rfl⟩⟩
  · rename_i habsent
    exact ⟨_, GoMap.lookup_insert_self _ _ _, .inl ⟨habsent, rfl⟩⟩

theorem planFeature_groups (plan : ImportPlan κ) (d : Definition κ) :
    (planFeature policy plan d).groups = plan.groups := by
  unfold planFeature
  split
  · dsimp only
    split_ifs <;> rfl
  · rfl

theorem foldl_planFeature_groups (definitions : List (Definition κ)) (plan : ImportPlan κ) :
    (definitions.foldl (planFeature policy) plan).groups = plan.groups := by
  induction definitions generalizing plan with
  | nil => rfl
  | cons d definitions ih => rw [List.foldl_cons, ih, planFeature_groups]

theorem importPlan_groups (dryRun : Bool) (definitions : List (Definition κ))
    {groups : List (GroupDefinition κ)} (s : TenantState κ)
    (nodup : (groups.map GroupDefinition.key).Nodup) (key : Bytes) :
    (importPlan policy dryRun definitions groups s).groups[key]? = s.groups[key]?.map cloneGroup ∨
      key ∈ groups.map GroupDefinition.key ∧
        PlannedGroup (s.groups[key]?.map cloneGroup)
          (importPlan policy dryRun definitions groups s).groups[key]? := by
  have hclone : (cloneGroupMap s.groups)[key]? = s.groups[key]?.map cloneGroup :=
    Std.ExtTreeMap.getElem?_map
  have hwrites := Writes.foldl (planGroup policy) groups ⟨⟨dryRun, 0, 0, 0, 0, 0, []⟩,
    cloneMemoryRecords s.features, cloneGroupMap s.groups, []⟩
  rw [importPlan, foldl_planFeature_groups, ← hclone]
  by_cases hkey : key ∈ groups.map GroupDefinition.key
  · have h := Writes.once (fun plan (key : Bytes) => plan.groups[key]?) PlannedGroup
      planGroup_framed planGroup_planned hwrites ?_ key
    · exact h.imp_right (And.intro hkey)
    · rw [List.Nodup, List.pairwise_map] at nodup
      exact nodup.imp fun hne key hi hj => hne (hi.trans hj.symm)
  · refine .inl (Writes.frame (fun plan (key : Bytes) => plan.groups[key]?) planGroup_framed
      hwrites fun g hg heq => hkey ?_)
    exact List.mem_map.mpr ⟨g, hg, heq⟩

variable [Runtime] {limits : Limits} {tenant : Bytes} {s t : TenantState κ}

theorem import_groups_nodup {data : Bytes} {definitions} {groups : List (GroupDefinition κ)}
    (h : Import ord data limits = .ok (definitions, groups)) :
    (groups.map GroupDefinition.key).Nodup := by
  simp only [Import, bind_eq_ok, rejectIf_eq_ok, pure_eq_ok, Prod.mk.injEq] at h
  obtain ⟨-, -, document, -, -, -, _, -, _, -, snapshot, hsnapshot, rfl, rfl⟩ := h
  exact (newSnapshotWithGroups_eq_ok_iff.mp hsnapshot).1.groups_ok.nodup

omit [CustomStrategy κ] [Runtime] in
theorem writeGroup_lookup (limits : Limits) (k actor : Bytes) (group : GroupDefinition κ)
    (action : AuditAction) (s : TenantState κ) (key : Bytes) :
    (s.writeGroup limits k group action actor).groups[key]? =
      if k = key then some group else s.groups[key]? :=
  GoMap.lookup_insert s.groups k key group

omit [CustomStrategy κ] [Runtime] in
theorem eraseGroup_lookup (limits : Limits) (k actor : Bytes) (version : Nat) (s : TenantState κ)
    (key : Bytes) :
    (s.eraseGroup limits k version actor).groups[key]? =
      if k = key then none else s.groups[key]? :=
  GoMap.lookup_erase s.groups k key

/-- What a call does to the groups. -/
theorem Effect.groups (h : Effect ord limits tenant call s t) (hs : s.Keyed) (key : Bytes) :
    GroupMove (key ∈ call.groupKeys ord limits)
      (∃ version actor, call = .deleteGroup key version actor) s.groups[key]? t.groups[key]? := by
  cases h with
  | createGroup absent valid =>
    rw [writeGroup_lookup]
    split_ifs with hkey
    · subst hkey
      rw [Std.ExtTreeMap.getElem?_eq_none absent, storedGroup_create hs absent valid]
      exact ⟨List.mem_singleton_self _, rfl⟩
    · exact .refl _
  | updateGroup found valid =>
    rw [writeGroup_lookup]
    split_ifs with hkey
    · subst hkey
      rw [found, storedGroup_update hs found valid]
      exact .inr (.inr rfl)
    · exact .refl _
  | deleteGroup found =>
    rw [eraseGroup_lookup]
    split_ifs with hkey
    · subst hkey
      rw [found]
      exact ⟨_, _, rfl⟩
    · exact .refl _
  | applied =>
    rw [TenantState.struck_groups]
    exact .refl _
  | imported applied resolved read valid =>
    rw [TenantState.imported_groups, groupKeys_import applied read]
    exact .of_cloned (importPlan_groups false _ s (import_groups_nodup read) key)
  | cleanup _ groups =>
    rw [groups]
    exact .refl _
  | _ => exact .refl _

end Operations

/-! ### Versions of groups -/

variable {key : Bytes}

section Versions

variable [CustomStrategy κ] [Runtime] {limits : Limits} {tenant : Bytes} {events : List (Event κ)}
  {s : TenantState κ}

omit [CustomStrategy κ] [Runtime] in
instance (e : Event κ) : Decidable e.Succeeds :=
  match h : e.outcome with
  | .ok response => .isTrue ⟨response, h⟩
  | .error _ => .isFalse fun ⟨_, hok⟩ => by rw [h] at hok; cases hok

/-- The call is given a group of this key to add, and succeeds. -/
def Event.AddsGroup (limits : Limits) (e : Event κ) (key : Bytes) : Prop :=
  e.Succeeds ∧ key ∈ e.call.groupKeys e.ord limits

def Event.DeletesGroup (e : Event κ) (key : Bytes) : Prop :=
  e.Succeeds ∧ ∃ version actor, e.call = .deleteGroup key version actor

/-- The call expects version `v` of the group, and succeeds. -/
def Event.ExpectsGroup (e : Event κ) (key : Bytes) (v : Nat) : Prop :=
  e.Succeeds ∧ match e.call with
    | .updateGroup group version _ => group.key = key ∧ version = v
    | .deleteGroup k version _ => k = key ∧ version = v
    | _ => False

theorem Event.Returns.groups {e : Event κ} (h : e.Returns limits tenant) (hs : e.before.Keyed)
    (key : Bytes) :
    GroupMove (e.AddsGroup limits key) (e.DeletesGroup key) e.before.groups[key]?
      e.after.groups[key]? := by
  rcases h.effect with ⟨hok, heffect⟩ | hsame
  · have hmove := heffect.groups hs key
    cases hbefore : e.before.groups[key]? with
    | none =>
      cases hafter : e.after.groups[key]? with
      | none => trivial
      | some new =>
        rw [hbefore, hafter] at hmove
        exact ⟨⟨hok, hmove.1⟩, hmove.2⟩
    | some old =>
      cases hafter : e.after.groups[key]? with
      | none =>
        rw [hbefore, hafter] at hmove
        exact ⟨hok, hmove⟩
      | some new =>
        rwa [hbefore, hafter] at hmove
  · rw [hsame]
    exact .refl _

/-- A call that expects a version finds it. -/
theorem Event.Returns.expectsGroup {e : Event κ} {v : Nat} (h : e.Returns limits tenant)
    (hexpects : e.ExpectsGroup key v) :
    ∃ group : GroupDefinition κ, e.before.groups[key]? = some group ∧ group.version = v := by
  obtain ⟨⟨response, hok⟩, hcall⟩ := hexpects
  unfold Event.Returns at h
  rw [hok] at h
  have heffect := effect_of_exec h
  clear h
  obtain ⟨ord, ctx, call, before, outcome, after⟩ := e
  dsimp only at heffect hcall hok ⊢
  cases heffect with
  | updateGroup found valid | deleteGroup found =>
    obtain ⟨rfl, rfl⟩ := hcall
    exact ⟨_, found, rfl⟩
  | applied due => rcases due with ⟨_, rfl, _⟩ | ⟨_, rfl, _⟩ <;> exact hcall.elim
  | read reads => rcases reads with rfl | ⟨_, rfl⟩ | rfl | rfl <;> exact hcall.elim
  | _ => exact hcall.elim

instance (e : Event κ) (key : Bytes) : Decidable (e.AddsGroup limits key) :=
  inferInstanceAs (Decidable (_ ∧ _))

/-- The first call deletes a group, and the second adds it again. -/
def Event.Reuses (limits : Limits) (a b : Event κ) : Prop :=
  match a.call with
  | .deleteGroup key _ _ => a.Succeeds ∧ b.AddsGroup limits key
  | _ => False

instance (a b : Event κ) : Decidable (a.Reuses limits b) := by
  unfold Event.Reuses
  split <;> infer_instance

/-- No group is created again after its deletion. -/
def NotReused (limits : Limits) (events : List (Event κ)) : Prop :=
  events.Pairwise fun a b => ¬ a.Reuses limits b

instance : Decidable (NotReused limits events) :=
  inferInstanceAs (Decidable (List.Pairwise _ _))

theorem NotReused.not_adds (h : NotReused limits events) {i j : Nat} {a b : Event κ} (hij : i < j)
    (ha : events[i]? = some a) (hb : events[j]? = some b) (hdeletes : a.DeletesGroup key) :
    ¬ b.AddsGroup limits key := by
  intro hadds
  obtain ⟨hi, rfl⟩ := List.getElem?_eq_some_iff.mp ha
  obtain ⟨hj, rfl⟩ := List.getElem?_eq_some_iff.mp hb
  refine List.pairwise_iff_getElem.mp h i j hi hj hij ?_
  obtain ⟨hok, version, actor, hcall⟩ := hdeletes
  rw [Event.Reuses, hcall]
  exact ⟨hok, hadds⟩

/-- The group was deleted by one of the first `k` calls. -/
def DeletedBy (events : List (Event κ)) (k : Nat) (key : Bytes) : Prop :=
  ∃ (i : Nat) (e : Event κ), i < k ∧ events[i]? = some e ∧ e.DeletesGroup key

omit [CustomStrategy κ] [Runtime] in
theorem DeletedBy.mono {i j : Nat} (h : DeletedBy events i key) (hij : i ≤ j) :
    DeletedBy events j key := by
  obtain ⟨k, e, hk, he⟩ := h
  exact ⟨k, e, hk.trans_le hij, he⟩

theorem Run.deleted_group (run : Run limits tenant events s) (hreuse : NotReused limits events)
    {i j : Nat} (hij : i ≤ j) (hj : j ≤ events.length) (hdeleted : DeletedBy events i key)
    (hi : (stateAt events s i).groups[key]? = none) : (stateAt events s j).groups[key]? = none := by
  refine run.between (fun t => t.groups[key]? = none) hij hj hi fun k e hik hkj hk hbefore => ?_
  have hkeyed := stateAt_of_getElem? hk s ▸ run.keyed (List.getElem?_eq_some_iff.mp hk).1.le
  have hmove := (run.returns_of_mem (List.mem_of_getElem? hk)).groups hkeyed key
  rw [hbefore] at hmove
  cases hafter : e.after.groups[key]? with
  | none => rfl
  | some new =>
    rw [hafter] at hmove
    obtain ⟨d, deletion, hd, hget, hdeletes⟩ := hdeleted
    exact absurd hmove.1 (hreuse.not_adds (hd.trans_le hik) hget hk hdeletes)

/-- What becomes of a group: it is replaced by later versions, or deleted. -/
theorem Run.group_onward (run : Run limits tenant events s) (hκ : PlainStrategies κ)
    (hreuse : NotReused limits events) {i j : Nat} {g} (hij : i ≤ j) (hj : j ≤ events.length)
    (hi : (stateAt events s i).groups[key]? = some g) :
    (∃ g', (stateAt events s j).groups[key]? = some g' ∧ Onward GroupDefinition.version g g') ∨
      (stateAt events s j).groups[key]? = none ∧ DeletedBy events j key := by
  induction j, hij using Nat.le_induction with
  | base => exact .inl ⟨g, hi, .refl g⟩
  | succ j hij ih =>
    have hget := List.getElem?_eq_getElem (Nat.lt_of_succ_le hj)
    rcases ih (Nat.le_of_succ_le hj) with ⟨g', hg', honward⟩ | ⟨hnone, hdeleted⟩
    · have hkeyed := stateAt_of_getElem? hget s ▸ run.keyed (Nat.le_of_succ_le hj)
      have hmove := (run.returns_of_mem (List.getElem_mem _)).groups hkeyed key
      rw [← stateAt_of_getElem? hget s, hg', ← run.stateAt_succ hget] at hmove
      cases hafter : (stateAt events s (j + 1)).groups[key]? with
      | none =>
        rw [hafter] at hmove
        exact .inr ⟨rfl, j, _, Nat.lt_succ_self j, hget, hmove⟩
      | some g'' =>
        rw [hafter] at hmove
        refine .inl ⟨g'', rfl, honward.trans ?_⟩
        rcases hmove with rfl | rfl | hversion
        · exact .refl _
        · rw [hκ.cloneGroup]
          exact .refl _
        · exact .of_succ hversion
    · exact .inr ⟨run.deleted_group hreuse (Nat.le_succ j) hj hdeleted hnone,
        hdeleted.mono (Nat.le_succ j)⟩

/-- In a run that creates no group again after its deletion, a key and a version stand for one
group, and a call that expects the version of a group that was read earlier succeeds only if the
group has not been changed since. -/
theorem group_versions_unique (hκ : PlainStrategies κ) (run : Run limits tenant events s)
    (hreuse : NotReused limits events) :
    (∀ (i j : Nat) (key : Bytes) (g g' : GroupDefinition κ), i ≤ j → j ≤ events.length →
      (stateAt events s i).groups[key]? = some g → (stateAt events s j).groups[key]? = some g' →
      g'.version = g.version → g' = g) ∧
    ∀ (i j : Nat) (e : Event κ) (key : Bytes) (g : GroupDefinition κ), i ≤ j →
      events[j]? = some e → (stateAt events s i).groups[key]? = some g →
      e.ExpectsGroup key g.version →
      ∀ k, i ≤ k → k ≤ j → (stateAt events s k).groups[key]? = some g := by
  have hunique : ∀ (i j : Nat) (key : Bytes) (g g' : GroupDefinition κ), i ≤ j →
      j ≤ events.length → (stateAt events s i).groups[key]? = some g →
      (stateAt events s j).groups[key]? = some g' → Onward GroupDefinition.version g g' := by
    intro i j key g g' hij hj hi hg'
    rcases run.group_onward hκ hreuse hij hj hi with ⟨g'', hg'', honward⟩ | ⟨hnone, -⟩
    · rw [hg'', Option.some.injEq] at hg'
      exact hg' ▸ honward
    · rw [hnone] at hg'
      cases hg'
  refine ⟨fun i j key g g' hij hj hi hg' hversion => ?_,
    fun i j e key g hij he hi hexpects k hik hkj => ?_⟩
  · exact ((hunique i j key g g' hij hj hi hg').2 hversion.symm).symm
  · have hj := (List.getElem?_eq_some_iff.mp he).1.le
    obtain ⟨current, hcurrent, hversion⟩ :=
      (run.returns_of_mem (List.mem_of_getElem? he)).expectsGroup hexpects
    rw [← stateAt_of_getElem? he s] at hcurrent
    rcases run.group_onward hκ hreuse hik (hkj.trans hj) hi with ⟨g', hg', honward⟩ |
      ⟨hnone, hdeleted⟩
    · -- the version of `g'` lies between those of `g` and of what the call finds
      have hle := (hunique k j key g' current hkj hj hg' hcurrent).1
      have heq : g.version = g'.version := le_antisymm honward.1 (hversion ▸ hle)
      rw [hg', honward.2 heq]
    · rw [run.deleted_group hreuse hkj hj hdeleted hnone] at hcurrent
      cases hcurrent

end Versions

/-- A group without strategies. -/
def ownedGroup (key owner : Bytes) (version : Nat) : GroupDefinition Empty :=
  ⟨key, [], ∅, owner, [], version, []⟩

/-- A group is created and updated, and the update is tried again. -/
def updateTwice : List (Call Empty) :=
  [.createGroup (ownedGroup (str "g") (str "a") 0) [],
    .updateGroup (ownedGroup (str "g") (str "b") 0) 1 [],
    .updateGroup (ownedGroup (str "g") (str "c") 0) 1 []]

/-- A group is deleted and created anew, and then updated by a caller who has seen the first one. -/
def recreateGroup : List (Call Empty) :=
  [.createGroup (ownedGroup (str "g") (str "a") 0) [], .deleteGroup (str "g") 1 [],
    .createGroup (ownedGroup (str "g") (str "b") 0) [],
    .updateGroup (ownedGroup (str "g") (str "c") 0) 1 []]

/-- The events of calls for one tenant under the default limits. -/
def performed [Runtime] (calls : List (Call Empty)) : List (Event Empty) :=
  performAll defaultLimits (str "t") .sorted .background calls .empty

/-- The second update fails, and each version stands for one group. -/
theorem group_versions_unique_updated :
    letI := unaryRuntime
    let events := performed updateTwice
    let s := Run.lastState events
    Run defaultLimits (str "t") events s ∧
      s.groups[str "g"]? = some (ownedGroup (str "g") (str "b") 2) ∧
      ∀ (i j : Nat) (key : Bytes) (g g' : GroupDefinition Empty), i ≤ j → j ≤ events.length →
        (stateAt events s i).groups[key]? = some g → (stateAt events s j).groups[key]? = some g' →
        g'.version = g.version → g' = g := by
  let _ := unaryRuntime
  have run := run_of_calls defaultLimits (str "t") .sorted .background updateTwice
    (by decide +kernel)
  exact ⟨run, by decide +kernel,
    (group_versions_unique plainStrategies_empty run (by decide +kernel)).1⟩

/-- Version 1 of the group stands for two groups, and the last call changes the second one although
its caller expects the first. -/
theorem group_version_reused :
    letI := unaryRuntime
    let events := performed recreateGroup
    let s := Run.lastState events
    Run defaultLimits (str "t") events s ∧
      (stateAt events s 1).groups[str "g"]? = some (ownedGroup (str "g") (str "a") 1) ∧
      (stateAt events s 3).groups[str "g"]? = some (ownedGroup (str "g") (str "b") 1) ∧
      (stateAt events s 4).groups[str "g"]? = some (ownedGroup (str "g") (str "c") 2) ∧
      ∃ e, events[3]? = some e ∧ e.ExpectsGroup (str "g") 1 := by
  let _ := unaryRuntime
  have run := run_of_calls defaultLimits (str "t") .sorted .background recreateGroup
    (by decide +kernel)
  refine ⟨run, by decide +kernel, by decide +kernel, by decide +kernel, _, rfl, ?_, rfl, rfl⟩
  decide +kernel

/-! ### References to groups -/

/-- The groups that live features and other groups name exist. -/
structure TenantState.NoDangling (s : TenantState κ) : Prop where
  features : ∀ key record, s.Live key record → ∀ g ∈ record.definition.groups, g ∈ s.groups
  parents : ∀ (key : Bytes) (g : GroupDefinition κ), s.groups[key]? = some g → g.parent ≠ [] →
    g.parent ∈ s.groups

/-- The definitions that are passed to a call name only groups that exist after it. -/
def NamesExist [CustomStrategy κ] [Runtime] (limits : Limits) (events : List (Event κ)) : Prop :=
  ∀ e ∈ events, e.Succeeds → ∀ d ∈ e.call.definitions e.ord limits, ∀ g ∈ d.groups,
    g ∈ e.after.groups

instance [CustomStrategy κ] [Runtime] (limits : Limits) (events : List (Event κ)) :
    Decidable (NamesExist limits events) :=
  inferInstanceAs (Decidable (∀ e ∈ events, _))

/-- The feature that the call restores names only groups that exist. -/
def Event.RestoresGroups (e : Event κ) : Prop :=
  ∀ key version actor record, e.Succeeds → e.call = .restore key version actor →
    e.before.features[key]? = some record → ∀ g ∈ record.definition.groups, g ∈ e.before.groups

section References

variable {limits : Limits} {tenant : Bytes} {s t : TenantState κ}

/-- A record is written whose groups exist. -/
theorem TenantState.NoDangling.write (hs : s.NoDangling) {k actor : Bytes}
    {record : MemoryRecord κ} {action : AuditAction}
    (hgroups : record.deleted = false → ∀ g ∈ record.definition.groups, g ∈ s.groups) :
    (s.write limits k record action actor).NoDangling := by
  refine ⟨fun key r ⟨hr, hlive⟩ => ?_, hs.parents⟩
  rw [write_lookup] at hr
  split_ifs at hr
  · cases hr
    exact hgroups hlive
  · exact hs.features key r ⟨hr, hlive⟩

theorem TenantState.NoDangling.writeGroup (hs : s.NoDangling) {k actor : Bytes}
    {group : GroupDefinition κ} {action : AuditAction}
    (hparent : group.parent ≠ [] → group.parent = k ∨ group.parent ∈ s.groups) :
    (s.writeGroup limits k group action actor).NoDangling := by
  have hmem : ∀ key, key ∈ (s.writeGroup limits k group action actor).groups ↔
      k = key ∨ key ∈ s.groups := fun key => GoMap.mem_insert_iff
  refine ⟨fun key r hlive g hg => ?_, fun key g hg hne => ?_⟩
  · exact (hmem g).mpr (.inr (hs.features key r hlive g hg))
  · rw [writeGroup_lookup] at hg
    rw [hmem]
    split_ifs at hg
    · cases hg
      exact (hparent hne).imp_left Eq.symm
    · exact .inr (hs.parents key g hg hne)

/-- The keys of a map that differs from the groups by one entry. -/
theorem mem_of_index {m : GoMap (GroupDefinition κ)} {k : Bytes} {group}
    {f : GroupDefinition κ → GroupDefinition κ}
    (h : ∀ key : Bytes, m[key]? = if k = key then some group else s.groups[key]?.map f)
    (hkey : key ∈ m) : key = k ∨ key ∈ s.groups := by
  rw [Std.ExtTreeMap.mem_iff_isSome_getElem?, h] at hkey
  split_ifs at hkey with heq
  · exact .inl heq.symm
  · rw [Option.isSome_map] at hkey
    exact .inr (Std.ExtTreeMap.mem_iff_isSome_getElem?.mpr hkey)

variable [CustomStrategy κ] [Runtime]

/-- What `NewSnapshotWithGroups` accepts names only groups that exist. -/
theorem noDangling_of_snapshot {records : GoMap (MemoryRecord κ)}
    {groups : GoMap (GroupDefinition κ)} {snapshot : Snapshot κ}
    (hrecords : records.KeyedBy fun record => record.definition.key)
    (hgroups : groups.KeyedBy GroupDefinition.key)
    (valid : newSnapshotWithGroups ord (definitionsFromRecords ord records)
      (groupsFromMap ord groups) limits = .ok snapshot)
    (hfeatures : t.features = records) (hkept : t.groups = groups) : t.NoDangling := by
  have hok := (newSnapshotWithGroups_eq_ok_iff.mp valid).1.groups_ok
  have hmem : ∀ key, key ∈ groupIndex (groupsFromMap ord groups) ↔ key ∈ groups := by
    intro key
    simp only [Std.ExtTreeMap.mem_iff_isSome_getElem?, groupIndex_lookup hgroups, Option.isSome_map]
  subst hfeatures hkept
  refine ⟨fun key record hlive g hg => (hmem g).mp ?_, fun key g hg hne => (hmem g.parent).mp ?_⟩
  · have hactive :
        (activeDefinitions t.features)[key]? = some (cloneDefinition record.definition) :=
      activeDefinitions_lookup.mpr ⟨record, hlive.1, hlive.2, rfl⟩
    refine (hok.attached key (cloneDefinition (cloneDefinition record.definition)) ?_ g hg).1
    rw [definitionIndex_lookup hrecords, hactive]
    rfl
  · refine hok.parents key (cloneGroup (cloneGroup g)) ?_ hne
    rw [groupIndex_lookup hgroups, hg]
    rfl

/-- An operation leaves no name without its group if the definitions it is given and the feature it
restores do not. -/
theorem Effect.noDangling (h : Effect ord limits tenant call s t) (hkeyed : s.Keyed)
    (hs : s.NoDangling) (hnames : ∀ d ∈ call.definitions ord limits, ∀ g ∈ d.groups, g ∈ t.groups)
    (hrestores : ∀ key version actor record, call = .restore key version actor →
      s.features[key]? = some record → ∀ g ∈ record.definition.groups, g ∈ s.groups) :
    t.NoDangling := by
  cases h with
  | create =>
    rename_i definition actor _ _ _
    exact hs.write fun _ g hg => hnames definition (List.mem_singleton_self _) g hg
  | update =>
    rename_i definition actor record _ _
    exact hs.write fun _ g hg => hnames definition (List.mem_singleton_self _) g hg
  | activate live | deactivate live => exact hs.write fun _ g hg => hs.features _ _ live g hg
  | delete live => exact hs.write fun hlive => by cases hlive
  | restore found deleted => exact hs.write fun _ g hg => hrestores _ _ _ _ rfl found g hg
  | createGroup absent valid =>
    rename_i group actor cloned
    have hok := (cloneAndValidateGroups_eq_ok_iff.mp valid).1
    have hindex := groupIndex_create hkeyed { group with version := 1 } absent ord
    rw [storedGroup_create hkeyed absent valid]
    refine hs.writeGroup fun hne => ?_
    have hparent := hok.parents group.key _ ((hindex group.key).trans (if_pos rfl)) hne
    exact mem_of_index hindex hparent
  | updateGroup found valid =>
    rename_i group current actor cloned
    have hok := (cloneAndValidateGroups_eq_ok_iff.mp valid).1
    have hindex := groupIndex_update hkeyed { group with version := current.version + 1 } found ord
    rw [storedGroup_update hkeyed found valid]
    refine hs.writeGroup fun hne => ?_
    have hparent := hok.parents group.key _ ((hindex group.key).trans (if_pos rfl)) hne
    exact mem_of_index hindex hparent
  | deleteGroup found unused childless =>
    rename_i groupKey actor group
    have hmem : ∀ key, key ≠ groupKey → key ∈ s.groups →
        key ∈ (s.eraseGroup limits groupKey (group.version + 1) actor).groups := by
      intro key hne hkey
      rw [TenantState.eraseGroup, TenantState.recorded_groups, Std.ExtTreeMap.mem_erase]
      exact ⟨fun h => hne (Std.compare_eq_iff_eq.mp h).symm, hkey⟩
    refine ⟨fun key record hlive g hg => ?_, fun key g hg hne => ?_⟩
    · refine hmem g (fun heq => ?_) (hs.features key record hlive g hg)
      exact unused key record hlive (heq ▸ hg)
    · rw [eraseGroup_lookup] at hg
      split_ifs at hg
      exact hmem g.parent (childless key g hg) (hs.parents key g hg hne)
  | assignGroup found live =>
    refine hs.write fun _ g hg => ?_
    rcases List.mem_append.mp hg with hg | hg
    · exact hs.features _ _ live g hg
    · rw [List.mem_singleton.mp hg]
      exact found
  | removeGroup live =>
    exact hs.write fun _ g hg => hs.features _ _ live g (List.mem_of_mem_filter hg)
  | applied due replaced valid =>
    exact noDangling_of_snapshot (keyedBy_applyStages hkeyed replaced) hkeyed.groups valid
      (TenantState.struck_features _ _ _ _) (TenantState.struck_groups _ _ _ _)
  | imported applied resolved read valid =>
    rename_i policy definitions groups snapshot
    have hplan := keyed_importPlan hkeyed policy false definitions groups
    exact noDangling_of_snapshot hplan.1 hplan.2 valid (TenantState.imported_features _ _ _ _)
      (TenantState.imported_groups _ _ _ _)
  | cleanup features groups =>
    refine ⟨fun key record hkept => ?_, groups ▸ hs.parents⟩
    obtain ⟨hrecord, hlive⟩ := hkept
    rw [groups]
    exact hs.features key record ⟨lookup_of_kept (features ▸ hrecord), hlive⟩
  | _ => exact ⟨hs.features, hs.parents⟩

/-- A call leaves no name without its group. -/
theorem Event.Returns.noDangling {e : Event κ} (h : e.Returns limits tenant)
    (hkeyed : e.before.Keyed) (hs : e.before.NoDangling)
    (hnames : e.Succeeds → ∀ d ∈ e.call.definitions e.ord limits, ∀ g ∈ d.groups,
      g ∈ e.after.groups) (hrestores : e.RestoresGroups) : e.after.NoDangling := by
  rcases h.effect with ⟨hok, heffect⟩ | hsame
  · refine heffect.noDangling hkeyed hs (hnames hok) ?_
    exact fun key version actor record => hrestores key version actor record hok
  · rw [hsame]
    exact hs

/-- The feature that was restored had its groups if it has them afterwards. -/
theorem Event.Returns.restoresGroups {e : Event κ} (h : e.Returns limits tenant)
    (hafter : e.after.NoDangling) : e.RestoresGroups := by
  rintro key version actor record ⟨response, hok⟩ hcall hrecord
  unfold Event.Returns at h
  rw [hok, hcall] at h
  have heffect := effect_of_exec h
  generalize e.after = after at heffect hafter
  generalize e.before = before at heffect hrecord ⊢
  cases heffect with
  | restore found deleted =>
    rename_i old
    obtain rfl : record = old := Option.some.inj (hrecord.symm.trans found)
    intro g hg
    refine hafter.features key ⟨{ record.definition with
      lifecycle := .inactive, version := record.definition.version + 1 }, false⟩ ⟨?_, rfl⟩ g hg
    rw [write_lookup, if_pos rfl]
  | applied due => rcases due with ⟨_, h, _⟩ | ⟨_, h, _⟩ <;> cases h
  | read reads => rcases reads with h | ⟨_, h⟩ | h | h <;> cases h

/-- If the definitions that are passed to the calls of a run name only groups that exist, then in
every state of the run the groups of live features and the parents of groups exist, exactly when
each feature that is restored finds its groups. -/
theorem no_dangling_iff {events : List (Event κ)} (run : Run limits tenant events s)
    (hnames : NamesExist limits events) :
    (∀ k ≤ events.length, (stateAt events s k).NoDangling) ↔
      ∀ e ∈ events, e.RestoresGroups := by
  constructor
  · intro h e he
    obtain ⟨k, hk, -, hafter⟩ := run.exists_stateAt he
    exact (run.returns_of_mem he).restoresGroups (hafter ▸ h (k + 1) hk)
  · intro h k hk
    have hempty : (TenantState.empty : TenantState κ).NoDangling := by
      refine ⟨fun key record hlive => ?_, fun key g hg => ?_⟩
      · simp [TenantState.Live, TenantState.empty] at hlive
      · simp [TenantState.empty] at hg
    have hboth := run.always (fun t => t.Keyed ∧ t.NoDangling) ⟨⟨.empty, .empty⟩, hempty⟩
      (fun e he ht => ?_) hk
    · exact hboth.2
    · have hreturns := run.returns_of_mem he
      exact ⟨hreturns.keyed ht.1, hreturns.noDangling ht.1 ht.2 (hnames e he) (h e he)⟩

end References

def groupedFeature (key group : Bytes) : Definition Empty :=
  { onFor key [] with groups := [group] }

/-- A feature is deleted, then its group, and the feature is restored. -/
def restoreWithout : List (Call Empty) :=
  [.createGroup (ownedGroup (str "g") [] 0) [], .create (groupedFeature (str "f") (str "g")) [],
    .delete (str "f") 1 [], .deleteGroup (str "g") 1 [], .restore (str "f") 2 []]

/-- A feature is deleted and restored. -/
def restoreWithin : List (Call Empty) :=
  [.createGroup (ownedGroup (str "g") [] 0) [], .create (groupedFeature (str "f") (str "g")) [],
    .delete (str "f") 1 [], .restore (str "f") 2 []]

/-- The feature finds its group. -/
theorem no_dangling_iff_within :
    letI := unaryRuntime
    let events := performed restoreWithin
    let s := Run.lastState events
    Run defaultLimits (str "t") events s ∧ str "g" ∈ s.groups ∧
      ((∀ k ≤ events.length, (stateAt events s k).NoDangling) ↔
        ∀ e ∈ events, e.RestoresGroups) := by
  let _ := unaryRuntime
  have run := run_of_calls defaultLimits (str "t") .sorted .background restoreWithin
    (by decide +kernel)
  exact ⟨run, by decide +kernel, no_dangling_iff run (by decide +kernel)⟩

/-- The restored feature names a group that is gone. -/
theorem restored_dangling :
    letI := unaryRuntime
    let events := performed restoreWithout
    let s := Run.lastState events
    Run defaultLimits (str "t") events s ∧ NamesExist defaultLimits events ∧
      str "g" ∉ s.groups ∧
      ∃ record, s.Live (str "f") record ∧ str "g" ∈ record.definition.groups := by
  let _ := unaryRuntime
  have run := run_of_calls defaultLimits (str "t") .sorted .background restoreWithout
    (by decide +kernel)
  have hlive : (Run.lastState (performed restoreWithout)).features[str "f"]? =
      some ⟨{ groupedFeature (str "f") (str "g") with lifecycle := .inactive, version := 3 },
        false⟩ := by
    decide +kernel
  exact ⟨run, by decide +kernel, by decide +kernel, _, ⟨hlive, rfl⟩, by decide +kernel⟩

end FeatureFlags
