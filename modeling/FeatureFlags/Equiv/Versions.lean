import FeatureFlags.Equiv.Memory
import FeatureFlags.Lib.Versioned
import FeatureFlags.Lib.Writes

/-!
# Versions are an optimistic lock

A feature starts at version 1, and each operation leaves its record as it is or raises its version
by one, unless tombstones are purged.  So a version is spent at most once: of all calls that expect
version `v` of a feature, one at most succeeds in a run.

* `Advance`: what one operation may do to a record.
* `Effect.advance`: every operation but a purge does only that.
* `Run`: the runs of a provider for one tenant.
* `run_versions`: the two facts for whole runs.
-/

namespace FeatureFlags

open Go Lib

variable {κ : Type} [CustomStrategy κ]

/-! ### One operation -/

/-- What one operation may do to the record of a feature: create it at version 1, keep it (or its
copy), or raise its version by one. -/
def Advance : Option (MemoryRecord κ) → Option (MemoryRecord κ) → Prop
  | none, none => True
  | none, some new => new.definition.version = 1
  | some old, some new =>
    new = old ∨ new = cloneRecord old ∨ new.definition.version = old.definition.version + 1
  | some _, none => False

theorem Advance.refl (old : Option (MemoryRecord κ)) : Advance old old := by
  cases old with
  | none => trivial
  | some old => exact .inl rfl

/-- A record is never removed, and its version does not fall. -/
theorem Advance.exists_le {old : MemoryRecord κ} {new} (h : Advance (some old) new) :
    ∃ record, new = some record ∧ old.definition.version ≤ record.definition.version := by
  cases new with
  | none => exact h.elim
  | some record =>
    rcases h with rfl | rfl | h
    · exact ⟨record, rfl, le_rfl⟩
    · exact ⟨_, rfl, le_rfl⟩
    · exact ⟨record, rfl, by omega⟩

/-- A record of the same version is the same. -/
theorem Advance.onward (hκ : PlainStrategies κ) {old record : MemoryRecord κ}
    (h : Advance (some old) (some record)) :
    Onward (fun r : MemoryRecord κ => r.definition.version) old record := by
  rcases h with rfl | rfl | h
  · exact .refl _
  · rw [cloneRecord, hκ.cloneDefinition]
    exact .refl _
  · exact .of_succ h

/-- The record that a write raises from version `v`. -/
theorem advance_raise {old new : MemoryRecord κ}
    (h : new.definition.version = old.definition.version + 1) : Advance (some old) (some new) :=
  .inr (.inr h)

omit [CustomStrategy κ] in
theorem write_lookup (limits : Limits) (k actor : Bytes) (record : MemoryRecord κ)
    (action : AuditAction) (s : TenantState κ) (key : Bytes) :
    (s.write limits k record action actor).features[key]? =
      if k = key then some record else s.features[key]? :=
  GoMap.lookup_insert s.features k key record

variable {s : TenantState κ}

/-- A write over a record of the version before. -/
theorem advance_write {limits : Limits} {k actor : Bytes} {old record : MemoryRecord κ}
    {action : AuditAction} (found : s.features[k]? = some old)
    (raised : record.definition.version = old.definition.version + 1) (key : Bytes) :
    Advance s.features[key]? (s.write limits k record action actor).features[key]? := by
  rw [write_lookup]
  by_cases hk : k = key
  · subst hk
    rw [if_pos rfl, found]
    exact advance_raise raised
  · rw [if_neg hk]
    exact .refl _

/-! #### Staged changes -/

/-- A feature has one staged change at most. -/
def TenantState.StagesDistinct (s : TenantState κ) : Prop :=
  ∀ (i j : Nat) (c d : StagedChange κ), s.staged[i]? = some c → s.staged[j]? = some d →
    c.definition.key = d.definition.key → i = j

theorem applyStageStep_eq_ok {tenant : Bytes} {staged} {id : Nat}
    {m m' : GoMap (MemoryRecord κ) × List (Definition κ)}
    (h : applyStageStep tenant staged m id = .ok m') :
    ∃ (change : StagedChange κ) (record : MemoryRecord κ),
      staged[id]? = some change ∧ m.1[change.definition.key]? = some record ∧
      record.deleted = false ∧ record.definition.version = change.expectedVersion ∧
      m'.1 = m.1.insert change.definition.key
        ⟨{ cloneDefinition change.definition with version := record.definition.version + 1 },
          false⟩ := by
  unfold applyStageStep at h
  split at h
  · cases h
  · rename_i change hchange
    split at h
    · cases h
    · rename_i record hrecord
      simp only [bind_eq_ok, rejectIf_eq_ok, pure_eq_ok] at h
      obtain ⟨-, hlive, -, hversion, rfl⟩ := h
      rw [Bool.not_eq_true] at hlive
      refine ⟨change, record, hchange, hrecord, hlive, not_not.mp hversion, ?_⟩
      rw [hlive]
      rfl

/-- The staged change `id` is for the feature `key`. -/
def StagedFor (staged : IdMap (StagedChange κ)) (id : Nat) (key : Bytes) : Prop :=
  ∃ change : StagedChange κ, staged[id]? = some change ∧ change.definition.key = key

omit [CustomStrategy κ] in
theorem TenantState.StagesDistinct.stagedFor (h : s.StagesDistinct) (i j : Nat) (key : Bytes)
    (hi : StagedFor s.staged i key) (hj : StagedFor s.staged j key) : i = j := by
  obtain ⟨c, hc, rfl⟩ := hi
  obtain ⟨d, hd, hkey⟩ := hj
  exact h i j c d hc hd hkey.symm

/-- A record is raised by one version. -/
def Raised (old new : Option (MemoryRecord κ)) : Prop :=
  ∃ r r' : MemoryRecord κ, old = some r ∧ new = some r' ∧
    r'.definition.version = r.definition.version + 1

theorem cloneMemoryRecords_lookup (records : GoMap (MemoryRecord κ)) (key : Bytes) :
    (cloneMemoryRecords records)[key]? = records[key]?.map cloneRecord :=
  Std.ExtTreeMap.getElem?_map

/-- From copies of the records on. -/
theorem Advance.of_cloned {old : Option (MemoryRecord κ)} {new : Option (MemoryRecord κ)}
    (h : new = old.map cloneRecord ∨ Raised (old.map cloneRecord) new) : Advance old new := by
  cases old with
  | none =>
    rcases h with rfl | ⟨_, _, h, _⟩
    · trivial
    · simp at h
  | some old =>
    rcases h with rfl | ⟨r, r', hr, rfl, hversion⟩
    · exact .inr (.inl rfl)
    · cases hr
      exact .inr (.inr hversion)

section Applied

variable {tenant : Bytes} {staged : IdMap (StagedChange κ)} {ids : List Nat}
  {m m' : GoMap (MemoryRecord κ) × List (Definition κ)}

theorem applyStageStep_framed (m : GoMap (MemoryRecord κ) × List (Definition κ)) (id : Nat)
    (m' : GoMap (MemoryRecord κ) × List (Definition κ)) (key : Bytes)
    (h : applyStageStep tenant staged m id = .ok m') (hid : ¬ StagedFor staged id key) :
    m'.1[key]? = m.1[key]? := by
  obtain ⟨change, record, hchange, -, -, -, hm'⟩ := applyStageStep_eq_ok h
  rw [hm', GoMap.lookup_insert_ne]
  exact fun hkey => hid ⟨change, hchange, hkey⟩

theorem applyStageStep_raised (m : GoMap (MemoryRecord κ) × List (Definition κ)) (id : Nat)
    (m' : GoMap (MemoryRecord κ) × List (Definition κ)) (key : Bytes)
    (h : applyStageStep tenant staged m id = .ok m') (hid : StagedFor staged id key) :
    Raised m.1[key]? m'.1[key]? := by
  obtain ⟨change, record, hchange, hrecord, -, -, hm'⟩ := applyStageStep_eq_ok h
  obtain ⟨change', hchange', rfl⟩ := hid
  rw [hchange, Option.some.injEq] at hchange'
  subst hchange'
  rw [hm', GoMap.lookup_insert_self]
  exact ⟨record, _, hrecord, rfl, rfl⟩

/-- The loop of `applyStagesLocked`: no feature is replaced twice. -/
theorem foldlM_applyStageStep
    (distinct : ∀ i j key, StagedFor staged i key → StagedFor staged j key → i = j)
    (nodup : ids.Nodup) (h : ids.foldlM (applyStageStep tenant staged) m = .ok m') (key : Bytes) :
    m'.1[key]? = m.1[key]? ∨ Raised m.1[key]? m'.1[key]? := by
  refine Writes.once (fun m (key : Bytes) => m.1[key]?) Raised applyStageStep_framed
    applyStageStep_raised (Writes.of_foldlM h) ?_ key
  exact nodup.imp fun hne key hi hj => hne (distinct _ _ _ hi hj)

end Applied

omit [CustomStrategy κ] in
/-- The due changes are in the order of their numbers, each once. -/
theorem nodup_dueStages (now : Time) (staged : IdMap (StagedChange κ)) :
    (dueStages now staged).Nodup := by
  unfold dueStages
  have hkeys : (staged.toList.map Prod.fst).Nodup := by
    rw [Std.ExtTreeMap.map_fst_toList_eq_keys]
    exact Std.ExtTreeMap.nodup_keys
  exact hkeys.sublist (List.filter_sublist.map Prod.fst)

omit [CustomStrategy κ] in
theorem struck_staged {limits : Limits} {actor : Bytes} {results} {id : Nat}
    {change : StagedChange κ} (h : (s.struck limits actor results).staged[id]? = some change) :
    s.staged[id]? = some change := by
  induction results generalizing s with
  | nil => exact h
  | cons x rest ih =>
    have h' := ih h
    rw [TenantState.recorded_staged, Std.ExtTreeMap.getElem?_erase] at h'
    split_ifs at h'
    exact h'

/-! #### Imports -/

section Imported

variable {policy : ConflictPolicy} {plan : ImportPlan κ} {definitions : List (Definition κ)}

/-- Created at version 1, or raised by one version. -/
def Planned (old new : Option (MemoryRecord κ)) : Prop :=
  (old = none ∧ ∃ r : MemoryRecord κ, new = some r ∧ r.definition.version = 1) ∨ Raised old new ∨
    new = old

theorem planFeature_framed (plan : ImportPlan κ) (d : Definition κ) (plan' : ImportPlan κ)
    (key : Bytes) (h : planFeature policy plan d = plan') (hd : ¬ d.key = key) :
    plan'.records[key]? = plan.records[key]? := by
  subst h
  unfold planFeature
  split
  · dsimp only
    split_ifs
    · exact GoMap.lookup_insert_ne _ _ hd
    · rfl
  · exact GoMap.lookup_insert_ne _ _ hd

theorem planFeature_planned (plan : ImportPlan κ) (d : Definition κ) (plan' : ImportPlan κ)
    (key : Bytes) (h : planFeature policy plan d = plan') (hd : d.key = key) :
    Planned plan.records[key]? plan'.records[key]? := by
  subst h hd
  unfold planFeature
  split
  · rename_i current hcurrent
    dsimp only
    split_ifs
    · exact .inr (.inl ⟨current, _, hcurrent, GoMap.lookup_insert_self _ _ _, rfl⟩)
    · exact .inr (.inr rfl)
  · rename_i habsent
    exact .inl ⟨habsent, _, GoMap.lookup_insert_self _ _ _, rfl⟩

theorem planGroup_records (plan : ImportPlan κ) (group : GroupDefinition κ) :
    (planGroup policy plan group).records = plan.records := by
  unfold planGroup
  split
  · dsimp only
    split_ifs <;> rfl
  · rfl

theorem foldl_planGroup_records (groups : List (GroupDefinition κ)) (plan : ImportPlan κ) :
    (groups.foldl (planGroup policy) plan).records = plan.records := by
  induction groups generalizing plan with
  | nil => rfl
  | cons g groups ih => rw [List.foldl_cons, ih, planGroup_records]

/-- The loops of `ImportDocument`: a document has no key twice. -/
theorem importPlan_planned (policy : ConflictPolicy) (dryRun : Bool)
    (groups : List (GroupDefinition κ)) (s : TenantState κ)
    (nodup : (definitions.map Definition.key).Nodup) (key : Bytes) :
    Planned (s.features[key]?.map cloneRecord)
      (importPlan policy dryRun definitions groups s).records[key]? := by
  have h := Writes.once (fun plan (key : Bytes) => plan.records[key]?) Planned planFeature_framed
    planFeature_planned (Writes.foldl (planFeature policy) definitions
      (groups.foldl (planGroup policy) ⟨⟨dryRun, 0, 0, 0, 0, 0, []⟩,
        cloneMemoryRecords s.features, cloneGroupMap s.groups, []⟩)) ?_ key
  · rw [foldl_planGroup_records, cloneMemoryRecords_lookup] at h
    rcases h with h | h
    · exact .inr (.inr h)
    · exact h
  · rw [List.Nodup, List.pairwise_map] at nodup
    exact nodup.imp fun hne key hi hj => hne (hi.trans hj.symm)

end Imported

/-! #### Every operation -/

def Call.purges : Call κ → Bool
  | .cleanup options => options.purgeDeleted
  | _ => false

variable [Runtime]

theorem import_nodup {ord : MapOrder} {limits : Limits} {data : Bytes}
    {definitions : List (Definition κ)} {groups : List (GroupDefinition κ)}
    (h : Import ord data limits = .ok (definitions, groups)) :
    (definitions.map Definition.key).Nodup := by
  simp only [Import, bind_eq_ok, rejectIf_eq_ok, pure_eq_ok, Prod.mk.injEq] at h
  obtain ⟨-, -, document, -, -, -, _, -, _, -, snapshot, hsnapshot, rfl, rfl⟩ := h
  exact (newSnapshotWithGroups_eq_ok_iff.mp hsnapshot).1.nodup

variable {ord : MapOrder} {limits : Limits} {tenant : Bytes} {call : Call κ} {s t : TenantState κ}

/-- An operation other than a purge advances every record. -/
theorem Effect.advance (h : Effect ord limits tenant call s t) (distinct : s.StagesDistinct)
    (keep : call.purges = false) (key : Bytes) : Advance s.features[key]? t.features[key]? := by
  cases h with
  | create valid absent room =>
    rw [write_lookup]
    split_ifs with hkey
    · subst hkey
      rw [Std.ExtTreeMap.getElem?_eq_none absent]
      exact rfl
    · exact .refl _
  | update valid live | activate live | deactivate live | delete live | assignGroup found live
  | removeGroup live => exact advance_write live.1 rfl key
  | restore found deleted => exact advance_write found rfl key
  | createGroup | updateGroup | deleteGroup | alreadyAssigned | stageUpdate | nothingDue
  | dryRun | read => exact .refl _
  | applied due replaced valid =>
    rename_i ids actor records results snapshot
    have nodup : ids.Nodup := by
      rcases due with ⟨id, -, rfl⟩ | ⟨now, -, rfl⟩
      · exact List.nodup_singleton id
      · exact nodup_dueStages now s.staged
    have h := foldlM_applyStageStep distinct.stagedFor nodup replaced key
    rw [cloneMemoryRecords_lookup] at h
    rw [TenantState.struck_features]
    exact .of_cloned h
  | imported applied resolved read valid =>
    rename_i policy definitions groups snapshot
    rw [TenantState.imported_features]
    have h := importPlan_planned policy false groups s (import_nodup read) key
    rcases h with ⟨hold, r, hnew, hversion⟩ | h | h
    · rw [Option.map_eq_none_iff.mp hold, hnew]
      exact hversion
    · exact .of_cloned (.inr h)
    · exact .of_cloned (.inl h)
  | cleanup features =>
    rw [Call.purges] at keep
    rw [features, keep, if_neg Bool.false_ne_true]
    exact .refl _

omit [CustomStrategy κ] [Runtime] in
theorem TenantState.StagesDistinct.mono (h : s.StagesDistinct)
    (hsub : ∀ (id : Nat) (c : StagedChange κ), t.staged[id]? = some c → s.staged[id]? = some c) :
    t.StagesDistinct :=
  fun i j c d hc hd => h i j c d (hsub i c hc) (hsub j d hd)

omit [CustomStrategy κ] [Runtime] in
theorem TenantState.StagesDistinct.stage {change : StagedChange κ} (h : s.StagesDistinct)
    (fresh : ∀ (id : Nat) (c : StagedChange κ), s.staged[id]? = some c →
      c.definition.key ≠ change.definition.key) : (s.stage limits change).StagesDistinct := by
  have hlookup : ∀ id : Nat, (s.stage limits change).staged[id]? =
      if change.id = id then some change else s.staged[id]? := by
    intro id
    show (s.staged.insert change.id change)[id]? = _
    rw [Std.ExtTreeMap.getElem?_insert]
    simp only [Std.compare_eq_iff_eq]
  intro i j c d hc hd hkey
  rw [hlookup] at hc hd
  split_ifs at hc hd with hi hj
  · omega
  · cases hc
    exact absurd hkey.symm (fresh j d hd)
  · cases hd
    exact absurd hkey (fresh i c hc)
  · exact h i j c d hc hd hkey

/-- Every operation keeps the staged changes of different features. -/
theorem Effect.stagesDistinct (h : Effect ord limits tenant call s t)
    (distinct : s.StagesDistinct) : t.StagesDistinct := by
  cases h with
  | stageUpdate valid live room fresh => exact distinct.stage fresh
  | applied due replaced valid =>
    refine distinct.mono fun id c hc => ?_
    have hbefore := struck_staged hc
    exact hbefore
  | imported => exact distinct.mono fun id c hc => by rwa [TenantState.imported_staged] at hc
  | cleanup _ _ _ staged => exact distinct.mono staged
  | _ => exact distinct

/-! ### Runs -/

/-- A call of a run, with the state before and after it. -/
structure Event (κ : Type) where
  ord : MapOrder
  ctx : Ctx
  call : Call κ
  before : TenantState κ
  outcome : Except Failure (Response κ)
  after : TenantState κ

namespace Event

variable (limits : Limits) (tenant : Bytes) (e : Event κ) (key : Bytes) (v : Nat)

/-- The call returns a result or an error, as the event says. -/
def Returns : Prop :=
  match e.outcome with
  | .ok response => (e.call.exec e.ord limits e.ctx tenant).run e.before = .ok response e.after
  | .error failure =>
    failure ≠ .panic ∧
      (e.call.exec e.ord limits e.ctx tenant).run e.before = .error failure e.after

/-- The call returns a result. -/
def Succeeds : Prop := ∃ response, e.outcome = .ok response

/-- A feature starts at version 1, is never removed, and a call leaves its record as it is, or
succeeds and raises its version by one. -/
def KeepsLock : Prop :=
  match e.before.features[key]? with
  | none => e.after.features[key]? = none ∨
    e.Succeeds ∧ ∃ new : MemoryRecord κ,
      e.after.features[key]? = some new ∧ new.definition.version = 1
  | some old => ∃ new : MemoryRecord κ, e.after.features[key]? = some new ∧
    (new = old ∨ new = cloneRecord old ∨
      e.Succeeds ∧ new.definition.version = old.definition.version + 1)

/-- The call expects version `v` of the feature `key`, and succeeds.  An assignment that is there
already does not count. -/
def Spends : Prop :=
  e.Succeeds ∧ match e.call with
    | .update definition version _ => definition.key = key ∧ version = v
    | .activate k version _ => k = key ∧ version = v
    | .deactivate k version _ => k = key ∧ version = v
    | .delete k version _ => k = key ∧ version = v
    | .restore k version _ => k = key ∧ version = v
    | .removeGroup k _ version _ => k = key ∧ version = v
    | .assignGroup k _ version _ =>
      k = key ∧ version = v ∧ e.after.features[key]? ≠ e.before.features[key]?
    | .applyStage id _ => ∃ change : StagedChange κ, e.before.staged[id]? = some change ∧
      change.definition.key = key ∧ change.expectedVersion = v
    | _ => False

end Event

/-- The runs of a provider for one tenant, with their last state. -/
inductive Run (limits : Limits) (tenant : Bytes) : List (Event κ) → TenantState κ → Prop
  | start : Run limits tenant [] .empty
  | step {events : List (Event κ)} {e : Event κ} (run : Run limits tenant events e.before)
      (returns : e.Returns limits tenant) : Run limits tenant (events ++ [e]) e.after

def Event.perform (limits : Limits) (tenant : Bytes) (ord : MapOrder) (ctx : Ctx) (call : Call κ)
    (before : TenantState κ) : Event κ :=
  match (call.exec ord limits ctx tenant).run before with
  | .ok response after => ⟨ord, ctx, call, before, .ok response, after⟩
  | .error failure after => ⟨ord, ctx, call, before, .error failure, after⟩

/-- Perform calls from a state on. -/
def performAll (limits : Limits) (tenant : Bytes) (ord : MapOrder) (ctx : Ctx) :
    List (Call κ) → TenantState κ → List (Event κ)
  | [], _ => []
  | call :: calls, before =>
    let e := Event.perform limits tenant ord ctx call before
    e :: performAll limits tenant ord ctx calls e.after

section Events

variable {events : List (Event κ)} {e : Event κ} {key : Bytes} {v : Nat}

/-- A call succeeds with an effect, or changes nothing. -/
theorem Event.Returns.effect (h : e.Returns limits tenant) :
    e.Succeeds ∧ Effect e.ord limits tenant e.call e.before e.after ∨ e.after = e.before := by
  unfold Event.Returns at h
  cases houtcome : e.outcome with
  | ok response =>
    rw [houtcome] at h
    exact .inl ⟨⟨response, houtcome⟩, effect_of_exec h⟩
  | error failure =>
    rw [houtcome] at h
    obtain ⟨hpanic, hrun⟩ := h
    rcases safe_exec _ _ _ hrun with hp | hsame
    · exact absurd hp hpanic
    · exact .inr hsame

theorem Run.stagesDistinct (run : Run limits tenant events s) : s.StagesDistinct := by
  induction run with
  | start =>
    intro i j c d hc
    simp [TenantState.empty] at hc
  | step _ returns ih =>
    rcases returns.effect with ⟨-, h⟩ | h
    · exact h.stagesDistinct ih
    · rw [h]
      exact ih

theorem Event.Returns.keepsLock (h : e.Returns limits tenant) (distinct : e.before.StagesDistinct)
    (keep : e.call.purges = false) (key : Bytes) : e.KeepsLock key := by
  unfold Event.KeepsLock
  rcases h.effect with ⟨hok, heffect⟩ | hsame
  · have hadvance := heffect.advance distinct keep key
    cases hbefore : e.before.features[key]? with
    | none =>
      cases hafter : e.after.features[key]? with
      | none => exact .inl rfl
      | some new =>
        rw [hbefore, hafter] at hadvance
        exact .inr ⟨hok, new, rfl, hadvance⟩
    | some old =>
      cases hafter : e.after.features[key]? with
      | none =>
        rw [hbefore, hafter] at hadvance
        exact hadvance.elim
      | some new =>
        rw [hbefore, hafter] at hadvance
        exact ⟨new, rfl, hadvance.imp_right (Or.imp_right (And.intro hok))⟩
  · rw [hsame]
    cases hbefore : e.before.features[key]? with
    | none => exact .inl rfl
    | some old => exact ⟨old, rfl, .inl rfl⟩

/-- The record of a feature is at a version. -/
def TenantState.At (s : TenantState κ) (key : Bytes) (v : Nat) : Prop :=
  ∃ record : MemoryRecord κ, s.features[key]? = some record ∧ record.definition.version = v

omit [CustomStrategy κ] [Runtime] in
theorem at_write {k actor : Bytes} {old record : MemoryRecord κ} {action : AuditAction}
    (found : s.features[k]? = some old)
    (raised : record.definition.version = old.definition.version + 1) :
    s.At k old.definition.version ∧
      (s.write limits k record action actor).At k (old.definition.version + 1) :=
  ⟨⟨old, found, rfl⟩, record, by rw [write_lookup, if_pos rfl], raised⟩

/-- A call that spends version `v` finds it and leaves the next one. -/
theorem Event.Returns.spends (h : e.Returns limits tenant) (hspends : e.Spends key v) :
    e.before.At key v ∧ e.after.At key (v + 1) := by
  obtain ⟨⟨response, hok⟩, hcall⟩ := hspends
  unfold Event.Returns at h
  rw [hok] at h
  have heffect := effect_of_exec h
  clear h
  obtain ⟨ord, ctx, call, before, outcome, after⟩ := e
  dsimp only at heffect hcall hok ⊢
  cases heffect with
  | update valid live | activate live | deactivate live | delete live | removeGroup live =>
    obtain ⟨rfl, rfl⟩ := hcall
    exact at_write live.1 rfl
  | restore found deleted =>
    obtain ⟨rfl, rfl⟩ := hcall
    exact at_write found rfl
  | alreadyAssigned => exact absurd rfl hcall.2.2
  | assignGroup found live =>
    obtain ⟨rfl, rfl, -⟩ := hcall
    exact at_write live.1 rfl
  | applied due replaced valid =>
    rcases due with ⟨id, rfl, rfl⟩ | ⟨now, rfl, -⟩
    · obtain ⟨change, hchange, rfl, rfl⟩ := hcall
      simp only [List.foldlM_cons, List.foldlM_nil, bind_pure] at replaced
      obtain ⟨change', record, hchange', hrecord, -, hversion, hrecords⟩ :=
        applyStageStep_eq_ok replaced
      rw [hchange, Option.some.injEq] at hchange'
      subst hchange'
      rw [cloneMemoryRecords_lookup, Option.map_eq_some_iff] at hrecord
      obtain ⟨old, hold, rfl⟩ := hrecord
      refine ⟨⟨old, hold, hversion⟩, ⟨{ cloneDefinition change.definition with
        version := old.definition.version + 1 }, false⟩, ?_, congrArg (· + 1) hversion⟩
      rw [TenantState.struck_features]
      dsimp only at hrecords ⊢
      rw [hrecords]
      exact GoMap.lookup_insert_self _ _ _
    · exact hcall.elim
  | read reads =>
    rcases reads with rfl | ⟨k, rfl⟩ | rfl | rfl <;> exact hcall.elim
  | _ => exact hcall.elim

omit [Runtime] in
theorem Event.KeepsLock.at_le (h : e.KeepsLock key) {w : Nat} (hw : e.before.At key w) :
    ∃ w', w ≤ w' ∧ e.after.At key w' := by
  obtain ⟨old, hbefore, rfl⟩ := hw
  unfold Event.KeepsLock at h
  rw [hbefore] at h
  obtain ⟨new, hafter, rfl | rfl | ⟨-, hversion⟩⟩ := h
  · exact ⟨_, le_rfl, new, hafter, rfl⟩
  · exact ⟨_, le_rfl, _, hafter, rfl⟩
  · exact ⟨_, Nat.le_succ _, new, hafter, hversion⟩

theorem Run.spent_lt (run : Run limits tenant events s) (keep : ∀ e ∈ events, e.call.purges = false)
    (he : e ∈ events) (hspends : e.Spends key v) : ∃ w, v < w ∧ s.At key w := by
  induction run with
  | start => simp at he
  | step run returns ih =>
    rename_i events last
    have hkeep := keep last (by simp)
    rcases List.mem_append.mp he with he | he
    · obtain ⟨w, hvw, hw⟩ := ih (fun e he => keep e (by simp [he])) he
      obtain ⟨w', hww', hw'⟩ := (returns.keepsLock run.stagesDistinct hkeep key).at_le hw
      exact ⟨w', by omega, hw'⟩
    · rw [List.mem_singleton] at he
      subst he
      exact ⟨v + 1, by omega, (returns.spends hspends).2⟩

end Events

/-- In a run that purges nothing every call keeps the version lock of every feature, and no version
of a feature is spent twice. -/
theorem run_versions {limits : Limits} {tenant : Bytes} {events : List (Event κ)}
    {s : TenantState κ} (run : Run limits tenant events s)
    (keep : ∀ e ∈ events, e.call.purges = false) :
    (∀ e ∈ events, ∀ key, e.KeepsLock key) ∧
      ∀ key v, events.Pairwise fun a b => ¬ (a.Spends key v ∧ b.Spends key v) := by
  induction run with
  | start => simp
  | step run returns ih =>
    rename_i events last
    obtain ⟨hlock, honce⟩ := ih fun e he => keep e (by simp [he])
    constructor
    · intro e he key
      rcases List.mem_append.mp he with he | he
      · exact hlock e he key
      · rw [List.mem_singleton] at he
        subst he
        exact returns.keepsLock run.stagesDistinct (keep e (by simp)) key
    · intro key v
      rw [List.pairwise_append]
      refine ⟨honce key v, List.pairwise_singleton _ _, ?_⟩
      rintro a ha b hb ⟨hspent, hspends⟩
      rw [List.mem_singleton] at hb
      subst hb
      -- `v` is behind the version that `b` expects
      obtain ⟨w, hvw, r, hr, hw⟩ := run.spent_lt (fun e he => keep e (by simp [he])) ha hspent
      obtain ⟨⟨r', hr', hv⟩, -⟩ := returns.spends hspends
      rw [hr, Option.some.injEq] at hr'
      subst hr'
      omega

def Event.panics (e : Event κ) : Bool :=
  match e.outcome with
  | .error .panic => true
  | _ => false

theorem Event.perform_returns (limits : Limits) (tenant : Bytes) (ord : MapOrder) (ctx : Ctx)
    (call : Call κ) (before : TenantState κ)
    (h : (Event.perform limits tenant ord ctx call before).panics = false) :
    (Event.perform limits tenant ord ctx call before).Returns limits tenant := by
  unfold Event.perform at h ⊢
  split at h
  · rename_i hrun
    exact hrun
  · rename_i failure after hrun
    refine ⟨?_, hrun⟩
    rintro rfl
    cases h

theorem Event.perform_before (limits : Limits) (tenant : Bytes) (ord : MapOrder) (ctx : Ctx)
    (call : Call κ) (before : TenantState κ) :
    (Event.perform limits tenant ord ctx call before).before = before := by
  unfold Event.perform
  split <;> rfl

/-- Calls that do not panic make a run. -/
theorem run_performAll {limits : Limits} {tenant : Bytes} (ord : MapOrder) (ctx : Ctx)
    (calls : List (Call κ)) {events : List (Event κ)} (run : Run limits tenant events s)
    (h : ∀ e ∈ performAll limits tenant ord ctx calls s, e.panics = false) :
    ∃ t, Run limits tenant (events ++ performAll limits tenant ord ctx calls s) t := by
  induction calls generalizing events s with
  | nil => exact ⟨s, by rwa [performAll, List.append_nil]⟩
  | cons call calls ih =>
    rw [performAll] at h ⊢
    rw [List.forall_mem_cons] at h
    have hreturns := Event.perform_returns limits tenant ord ctx call s h.1
    have hrun := Run.step (by rwa [Event.perform_before]) hreturns
    obtain ⟨t, ht⟩ := ih hrun h.2
    exact ⟨t, by rwa [List.append_assoc] at ht⟩

/-- Two writers expect version 1. -/
def twoWriters : List (Call Empty) :=
  [.create (onFor (str "a") []) [], .update (onFor (str "a") []) 1 (str "x"),
    .update (onFor (str "a") []) 1 (str "y")]

omit [CustomStrategy κ] [Runtime] in
theorem run_versions_two_writers :
    letI := unaryRuntime
    let events := performAll defaultLimits (str "t") .sorted .background twoWriters .empty
    (∀ e ∈ events, ∀ key, e.KeepsLock key) ∧
      ∀ key v, events.Pairwise fun a b => ¬ (a.Spends key v ∧ b.Spends key v) := by
  let _ := unaryRuntime
  obtain ⟨t, ht⟩ := run_performAll .sorted .background twoWriters
    (Run.start : Run defaultLimits (str "t") [] .empty) (by decide +kernel)
  exact run_versions ht (by decide +kernel)

end FeatureFlags
