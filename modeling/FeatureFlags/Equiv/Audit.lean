import FeatureFlags.Equiv.Groups
import FeatureFlags.Equiv.Staging
import Mathlib.Data.List.DropRight

/-!
# The audit log is a bounded history

The history of a run says what changed, read off the states before and after each call: one entry
for every feature and every group whose version is another one afterwards, and one for every change
that is staged.

* `Call.targets`: the resources that a call names, in the order in which it changes them.
* `resulting`: the version that a resource has after a call which changed it.
* `Event.history`: the entries of a call.
* `Effect.audited`: what a method appends to the audit log is its history.
* `audit_is_bounded_history`: the log of a run is the end of its history.
-/

namespace FeatureFlags

open Go Lib

variable {κ : Type}

/-! ### History -/

/-- What an entry is about. -/
inductive Subject where
  | feature
  | group
  | stage
deriving DecidableEq

/-- A resource that a call names, with the action that an entry for it has. -/
structure Target where
  subject : Subject
  key : Bytes
  action : AuditAction

/-- The version of a feature, which a tombstone has too. -/
def TenantState.featureVersion (s : TenantState κ) (key : Bytes) : Option Nat :=
  s.features[key]?.map fun record => record.definition.version

def TenantState.groupVersion (s : TenantState κ) (key : Bytes) : Option Nat :=
  s.groups[key]?.map GroupDefinition.version

def Call.actor : Call κ → Bytes
  | .create _ actor => actor
  | .update _ _ actor => actor
  | .activate _ _ actor => actor
  | .deactivate _ _ actor => actor
  | .delete _ _ actor => actor
  | .restore _ _ actor => actor
  | .createGroup _ actor => actor
  | .updateGroup _ _ actor => actor
  | .deleteGroup _ _ actor => actor
  | .assignGroup _ _ _ actor => actor
  | .removeGroup _ _ _ actor => actor
  | .stageUpdate _ _ _ actor => actor
  | .applyStage _ actor => actor
  | .applyScheduled _ actor => actor
  | .importDocument _ _ actor => actor
  | .cleanup _ => []
  | .snapshot => []
  | .audit _ => []
  | .stagedChanges => []
  | .exportDocument => []

/-- The features of staged changes. -/
def stageTargets (s : TenantState κ) (ids : List Nat) : List Target :=
  ids.filterMap fun id => s.staged[id]?.map fun change =>
    ⟨.feature, change.definition.key, .applyStage⟩

/-- An import creates what is not there. -/
def importAction (old : Option Nat) : AuditAction :=
  if old = none then .importCreate else .importUpdate

/-- The groups and the features of a document. -/
def importTargets (s : TenantState κ) (definitions : List (Definition κ))
    (groups : List (GroupDefinition κ)) : List Target :=
  groups.map (fun g => ⟨.group, g.key, importAction (s.groupVersion g.key)⟩) ++
    definitions.map fun d => ⟨.feature, d.key, importAction (s.featureVersion d.key)⟩

/-- The resources that a call names, in the order in which it changes them. -/
def Call.targets [CustomStrategy κ] [Runtime] (ord : MapOrder) (limits : Limits)
    (s : TenantState κ) : Call κ → List Target
  | .create definition _ => [⟨.feature, definition.key, .create⟩]
  | .update definition _ _ => [⟨.feature, definition.key, .update⟩]
  | .activate key _ _ => [⟨.feature, key, .activate⟩]
  | .deactivate key _ _ => [⟨.feature, key, .deactivate⟩]
  | .delete key _ _ => [⟨.feature, key, .delete⟩]
  | .restore key _ _ => [⟨.feature, key, .restore⟩]
  | .createGroup group _ => [⟨.group, group.key, .groupCreate⟩]
  | .updateGroup group _ _ => [⟨.group, group.key, .groupUpdate⟩]
  | .deleteGroup key _ _ => [⟨.group, key, .groupDelete⟩]
  | .assignGroup key _ _ _ => [⟨.feature, key, .assignGroup⟩]
  | .removeGroup key _ _ _ => [⟨.feature, key, .removeGroup⟩]
  | .stageUpdate definition _ _ _ => [⟨.stage, definition.key, .stageUpdate⟩]
  | .applyStage id _ => stageTargets s [id]
  | .applyScheduled now _ => stageTargets s (dueStages now s.staged)
  | .importDocument data _ _ =>
    match Import (κ := κ) ord data limits with
    | .error _ => []
    | .ok (definitions, groups) => importTargets s definitions groups
  | .cleanup _ => []
  | .snapshot => []
  | .audit _ => []
  | .stagedChanges => []
  | .exportDocument => []

/-- The version after a change; what is removed gets one version more. -/
def stepped (old new : Option Nat) : Option Nat :=
  if new = old then none else some (new.getD (old.getD 0 + 1))

/-- The version of a resource after a call that changed it.  A staged change has the version that it
is for. -/
def resulting (s t : TenantState κ) : Subject → Bytes → Option Nat
  | .feature, key => stepped (s.featureVersion key) (t.featureVersion key)
  | .group, key => stepped (s.groupVersion key) (t.groupVersion key)
  | .stage, key => t.featureVersion key

def Target.entry (x : Target) (actor : Bytes) (s t : TenantState κ) :
    Option (Subject × AuditEntry) :=
  (resulting s t x.subject x.key).map fun version => (x.subject, ⟨x.key, x.action, actor, version⟩)

/-- The entries of a call that succeeds. -/
def changes [CustomStrategy κ] [Runtime] (ord : MapOrder) (limits : Limits) (call : Call κ)
    (s t : TenantState κ) : List (Subject × AuditEntry) :=
  (call.targets ord limits s).filterMap fun x => x.entry call.actor s t

/-- The entries of a call. -/
def Event.history [CustomStrategy κ] [Runtime] (limits : Limits) (e : Event κ) :
    List (Subject × AuditEntry) :=
  match e.outcome with
  | .ok _ => changes e.ord limits e.call e.before e.after
  | .error _ => []

/-! ### The log -/

/-- The newest entries, as many as the limit allows. -/
def retained (limits : Limits) (entries : List AuditEntry) : List AuditEntry :=
  entries.rtake limits.maxAuditEntries.toNat

/-- Entries that were dropped before are dropped anyway. -/
theorem retained_append (limits : Limits) (l m : List AuditEntry) :
    retained limits (retained limits l ++ m) = retained limits (l ++ m) := by
  unfold retained List.rtake
  generalize limits.maxAuditEntries.toNat = n
  have hdrop : l.drop (l.length - n) ++ m = (l ++ m).drop (l.length - n) :=
    (List.drop_append_of_le_length (Nat.sub_le ..)).symm
  rw [hdrop, List.drop_drop, List.length_drop, List.length_append]
  congr 1
  omega

/-- `appendAudit` keeps the newest entries. -/
theorem recorded_audit {limits : Limits} {s : TenantState κ} (hmax : 0 ≤ limits.maxAuditEntries)
    (entry : AuditEntry) :
    (s.recorded limits entry).audit = retained limits (s.audit ++ [entry]) := by
  have hdrop : (len s.audit + 1 - limits.maxAuditEntries).toNat =
      (s.audit ++ [entry]).length - limits.maxAuditEntries.toNat := by
    rw [List.length_append, List.length_singleton, len]
    omega
  rw [TenantState.recorded, hdrop]
  rfl

/-- The log goes on from a history by these entries. -/
def Audited (limits : Limits) (s t : TenantState κ) (entries : List AuditEntry) : Prop :=
  ∀ history, s.audit = retained limits history → t.audit = retained limits (history ++ entries)

namespace Audited

variable {limits : Limits} {s t u : TenantState κ} {entries entries' : List AuditEntry}

theorem of_audit_eq (h : t.audit = s.audit) : Audited limits s t [] := by
  intro history hs
  rw [List.append_nil, h, hs]

theorem trans (h : Audited limits s t entries) (h' : Audited limits t u entries') :
    Audited limits s u (entries ++ entries') := by
  intro history hs
  rw [← List.append_assoc]
  exact h' _ (h history hs)

variable (hmax : 0 ≤ limits.maxAuditEntries)
include hmax

theorem recorded (entry : AuditEntry) : Audited limits s (s.recorded limits entry) [entry] := by
  intro history hs
  rw [recorded_audit hmax, hs, retained_append]

theorem struck (actor : Bytes) (results : List (Nat × Definition κ)) :
    Audited limits s (s.struck limits actor results)
      ((results.map Prod.snd).map fun d => ⟨d.key, .applyStage, actor, d.version⟩) := by
  induction results generalizing s with
  | nil => exact of_audit_eq rfl
  | cons x rest ih =>
    have hfirst : Audited limits s (TenantState.recorded limits
        ⟨x.2.key, .applyStage, actor, x.2.version⟩ { s with staged := s.staged.erase x.1 }) _ :=
      recorded (s := { s with staged := s.staged.erase x.1 }) hmax _
    exact hfirst.trans ih

theorem imported (actor : Bytes) (audits : List PendingAudit) :
    Audited limits s (s.imported limits actor audits)
      (audits.map fun audit => ⟨audit.key, audit.action, actor, audit.version⟩) := by
  induction audits generalizing s with
  | nil => exact of_audit_eq rfl
  | cons audit rest ih => exact (recorded hmax _).trans ih

end Audited

/-! ### One call -/

@[simp] theorem stepped_self (old : Option Nat) : stepped old old = none := if_pos rfl

theorem stepped_some {old : Option Nat} {v : Nat} (h : old ≠ some v) :
    stepped old (some v) = some v :=
  if_neg (Ne.symm h)

variable {actor : Bytes}

theorem entries_singleton {s t : TenantState κ} {x : Target} {v : Nat}
    (h : resulting s t x.subject x.key = some v) :
    ([x].filterMap fun x => x.entry actor s t).map Prod.snd = [⟨x.key, x.action, actor, v⟩] := by
  simp [Target.entry, h]

section Writes

variable {limits : Limits} {s : TenantState κ} {key actor : Bytes} {action : AuditAction}

theorem featureVersion_write (limits : Limits) (s : TenantState κ) (key actor : Bytes)
    (record : MemoryRecord κ) (action : AuditAction) (k : Bytes) :
    (s.write limits key record action actor).featureVersion k =
      if key = k then some record.definition.version else s.featureVersion k := by
  rw [TenantState.featureVersion, write_lookup]
  split_ifs <;> rfl

theorem groupVersion_writeGroup (limits : Limits) (s : TenantState κ) (key actor : Bytes)
    (group : GroupDefinition κ) (action : AuditAction) (k : Bytes) :
    (s.writeGroup limits key group action actor).groupVersion k =
      if key = k then some group.version else s.groupVersion k := by
  rw [TenantState.groupVersion, writeGroup_lookup]
  split_ifs <;> rfl

theorem groupVersion_eraseGroup (limits : Limits) (s : TenantState κ) (key actor : Bytes)
    (version : Nat) (k : Bytes) :
    (s.eraseGroup limits key version actor).groupVersion k =
      if key = k then none else s.groupVersion k := by
  rw [TenantState.groupVersion, eraseGroup_lookup]
  split_ifs <;> rfl

/-- A feature that is written at another version. -/
theorem audited_write (hmax : 0 ≤ limits.maxAuditEntries) {record : MemoryRecord κ}
    (h : s.featureVersion key ≠ some record.definition.version) :
    Audited limits s (s.write limits key record action actor)
      (([⟨.feature, key, action⟩].filterMap fun x : Target =>
        x.entry actor s (s.write limits key record action actor)).map Prod.snd) := by
  have hresult : resulting s (s.write limits key record action actor) .feature key =
      some record.definition.version := by
    rw [resulting, featureVersion_write, if_pos rfl, stepped_some h]
  have haudited := Audited.recorded (s := { s with features := s.features.insert key record }) hmax
    ⟨key, action, actor, record.definition.version⟩
  rw [entries_singleton hresult]
  exact haudited

theorem audited_writeGroup (hmax : 0 ≤ limits.maxAuditEntries) {group : GroupDefinition κ}
    (h : s.groupVersion key ≠ some group.version) :
    Audited limits s (s.writeGroup limits key group action actor)
      (([⟨.group, key, action⟩].filterMap fun x : Target =>
        x.entry actor s (s.writeGroup limits key group action actor)).map Prod.snd) := by
  have hresult : resulting s (s.writeGroup limits key group action actor) .group key =
      some group.version := by
    rw [resulting, groupVersion_writeGroup, if_pos rfl, stepped_some h]
  have haudited := Audited.recorded (s := { s with groups := s.groups.insert key group }) hmax
    ⟨key, action, actor, group.version⟩
  rw [entries_singleton hresult]
  exact haudited

end Writes

section Applied

variable [CustomStrategy κ] {tenant : Bytes} {staged : IdMap (StagedChange κ)} {ids : List Nat}
  {m m' : GoMap (MemoryRecord κ) × List (Definition κ)}

def stagedKey (staged : IdMap (StagedChange κ)) (id : Nat) : Bytes :=
  (staged[id]?.map fun change => change.definition.key).getD []

omit [CustomStrategy κ] in
theorem stagedKey_eq {id : Nat} {change : StagedChange κ} (h : staged[id]? = some change) :
    stagedKey staged id = change.definition.key := by
  rw [stagedKey, h]
  rfl

theorem stagedFor_of_step {id : Nat} (h : applyStageStep tenant staged m id = .ok m') :
    StagedFor staged id (stagedKey staged id) := by
  obtain ⟨change, _, hchange, -⟩ := applyStageStep_eq_ok h
  exact ⟨change, hchange, (stagedKey_eq hchange).symm⟩

/-- A turn of the loop returns the definition that it stores. -/
theorem applyStageStep_results {id : Nat} (h : applyStageStep tenant staged m id = .ok m') :
    ∃ record : MemoryRecord κ, m'.1[stagedKey staged id]? = some record ∧
      m'.2.map (fun d => (d.key, d.version)) = m.2.map (fun d => (d.key, d.version)) ++
        [(stagedKey staged id, record.definition.version)] := by
  unfold applyStageStep at h
  split at h
  · cases h
  · rename_i change hchange
    split at h
    · cases h
    · rename_i record hrecord
      simp only [bind_eq_ok, rejectIf_eq_ok, pure_eq_ok] at h
      obtain ⟨-, -, -, -, rfl⟩ := h
      rw [stagedKey_eq hchange]
      refine ⟨_, GoMap.lookup_insert_self _ _ _, ?_⟩
      rw [List.map_append]
      rfl

/-- The loop of `applyStagesLocked` returns the features that it replaces, at their versions. -/
theorem results_of_foldlM (nodup : (ids.map (stagedKey staged)).Nodup)
    (h : ids.foldlM (applyStageStep tenant staged) m = .ok m') :
    m'.2.map (fun d => (d.key, d.version)) = m.2.map (fun d => (d.key, d.version)) ++
      ids.filterMap fun id =>
        (stepped (m.1[stagedKey staged id]?.map fun r => r.definition.version)
          (m'.1[stagedKey staged id]?.map fun r => r.definition.version)).map
            fun v => (stagedKey staged id, v) := by
  refine Writes.logged
    (fun m (key : Bytes) => m.1[key]?.map fun r : MemoryRecord κ => r.definition.version)
    (fun m => m.2.map fun d => (d.key, d.version))
    (fun id old new => (stepped old new).map fun v => (stagedKey staged id, v))
    (fun m id m' key hstep hkey => ?_) (fun m id m' hstep => ?_) (Writes.of_foldlM h) nodup
  · obtain ⟨change, record, hchange, -, -, -, hm'⟩ := applyStageStep_eq_ok hstep
    rw [stagedKey_eq hchange] at hkey
    rw [hm', GoMap.lookup_insert_ne _ _ hkey]
  · obtain ⟨old, new, hold, hnew, hraised⟩ := applyStageStep_raised m id m' (stagedKey staged id)
      hstep (stagedFor_of_step hstep)
    obtain ⟨record, hrecord, hresults⟩ := applyStageStep_results hstep
    rw [hnew, Option.some.injEq] at hrecord
    subst hrecord
    -- the version is one more than before
    have hstepped : stepped (some old.definition.version) (some new.definition.version) =
        some new.definition.version := stepped_some (by simp [hraised])
    rw [hresults, hold, hnew, Option.map_some, Option.map_some, hstepped]
    rfl

end Applied

variable {definitions : List (Definition κ)} {groups : List (GroupDefinition κ)}

section Imported

variable [CustomStrategy κ] {policy : ConflictPolicy}

/-- The entry that an import plans for a resource. -/
def plannedAudit (key : Bytes) (old new : Option Nat) : Option PendingAudit :=
  (stepped old new).map fun version => ⟨key, importAction old, version⟩

theorem planGroup_audits (plan : ImportPlan κ) (g : GroupDefinition κ) :
    (planGroup policy plan g).audits = plan.audits ++
      (plannedAudit g.key (plan.groups[g.key]?.map GroupDefinition.version)
        ((planGroup policy plan g).groups[g.key]?.map GroupDefinition.version)).toList := by
  unfold planGroup
  cases hold : plan.groups[g.key]? with
  | none => simp [plannedAudit, stepped, importAction, cloneGroup]
  | some current =>
    dsimp only
    split_ifs with hreplace
    · simp [plannedAudit, stepped, importAction, cloneGroup]
    · simp [plannedAudit, hold]

theorem planFeature_audits (plan : ImportPlan κ) (d : Definition κ) :
    (planFeature policy plan d).audits = plan.audits ++
      (plannedAudit d.key (plan.records[d.key]?.map fun r => r.definition.version)
        ((planFeature policy plan d).records[d.key]?.map
          fun r => r.definition.version)).toList := by
  unfold planFeature
  cases hold : plan.records[d.key]? with
  | none => simp [plannedAudit, stepped, importAction, cloneDefinition]
  | some current =>
    dsimp only
    split_ifs with hreplace
    · simp [plannedAudit, stepped, importAction, cloneDefinition]
    · simp [plannedAudit, hold]

/-- An import plans an entry for each group and then for each feature that it changes. -/
theorem importPlan_audits (policy : ConflictPolicy) (dryRun : Bool) (s : TenantState κ)
    (nodup : (definitions.map Definition.key).Nodup)
    (nodup' : (groups.map GroupDefinition.key).Nodup) :
    let plan := importPlan policy dryRun definitions groups s
    plan.audits = groups.filterMap (fun g => plannedAudit g.key (s.groupVersion g.key)
        (plan.groups[g.key]?.map GroupDefinition.version)) ++
      definitions.filterMap fun d => plannedAudit d.key (s.featureVersion d.key)
        (plan.records[d.key]?.map fun r => r.definition.version) := by
  intro plan
  let start : ImportPlan κ := ⟨⟨dryRun, 0, 0, 0, 0, 0, []⟩, cloneMemoryRecords s.features,
    cloneGroupMap s.groups, []⟩
  let middle := groups.foldl (planGroup policy) start
  have hgroups : middle.audits = start.audits ++ groups.filterMap fun g =>
      plannedAudit g.key (start.groups[g.key]?.map GroupDefinition.version)
        (middle.groups[g.key]?.map GroupDefinition.version) := by
    refine Writes.logged (fun plan (key : Bytes) => plan.groups[key]?.map GroupDefinition.version)
      ImportPlan.audits (fun g => plannedAudit g.key)
      (fun p g p' key hstep hkey => ?_) (fun p g p' hstep => ?_)
      (Writes.foldl (planGroup policy) groups start) nodup'
    · rw [planGroup_framed p g p' key hstep hkey]
    · subst hstep
      exact planGroup_audits p g
  have hfeatures : plan.audits = middle.audits ++ definitions.filterMap fun d =>
      plannedAudit d.key (middle.records[d.key]?.map fun r => r.definition.version)
        (plan.records[d.key]?.map fun r => r.definition.version) := by
    refine Writes.logged
      (fun plan (key : Bytes) => plan.records[key]?.map fun r => r.definition.version)
      ImportPlan.audits (fun d => plannedAudit d.key)
      (fun p d p' key hstep hkey => ?_) (fun p d p' hstep => ?_)
      (Writes.foldl (planFeature policy) definitions middle) nodup
    · rw [planFeature_framed p d p' key hstep hkey]
    · subst hstep
      exact planFeature_audits p d
  -- the loop over the features leaves the groups alone, and the other way round
  have hlast : plan.groups = middle.groups := foldl_planFeature_groups definitions middle
  have hfirst : middle.records = start.records := foldl_planGroup_records groups start
  have hold : ∀ key : Bytes, start.groups[key]?.map GroupDefinition.version =
      s.groupVersion key := by
    intro key
    have hclone : start.groups[key]? = s.groups[key]?.map cloneGroup :=
      Std.ExtTreeMap.getElem?_map
    rw [hclone, Option.map_map]
    rfl
  have hold' : ∀ key : Bytes, start.records[key]?.map (fun r => r.definition.version) =
      s.featureVersion key := by
    intro key
    rw [show start.records[key]? = _ from cloneMemoryRecords_lookup s.features key, Option.map_map]
    rfl
  rw [hfeatures, hgroups, hlast, hfirst]
  simp only [hold, hold', start, List.nil_append]

end Imported

section Calls

variable {ord : MapOrder} {limits : Limits} {tenant key : Bytes} {call : Call κ}
  {s t : TenantState κ} {targets : List Target} {ids : List Nat}

/-- A call that leaves the state as it was has no entries, unless it stages a change. -/
theorem entries_self (h : ∀ x ∈ targets, x.subject ≠ .stage) :
    (targets.filterMap fun x => x.entry actor s s) = [] := by
  rw [List.filterMap_eq_nil_iff]
  intro x hx
  have hsubject := h x hx
  unfold Target.entry resulting
  cases x with
  | mk subject key action => cases subject <;> simp_all

theorem entries_applied (h : ∀ id ∈ ids, ∃ change, s.staged[id]? = some change) :
    ((stageTargets s ids).filterMap fun x => x.entry actor s t).map Prod.snd =
      (ids.filterMap fun id =>
        (stepped (s.featureVersion (stagedKey s.staged id))
          (t.featureVersion (stagedKey s.staged id))).map fun v => (stagedKey s.staged id, v)).map
        fun x => ⟨x.1, .applyStage, actor, x.2⟩ := by
  rw [stageTargets, List.filterMap_filterMap, List.map_filterMap, List.map_filterMap]
  refine List.filterMap_congr fun id hid => ?_
  obtain ⟨change, hchange⟩ := h id hid
  rw [hchange, stagedKey_eq hchange]
  simp [Target.entry, resulting, Function.comp_def]

theorem featureVersion_of_lookup {record : MemoryRecord κ} (h : s.features[key]? = some record) :
    s.featureVersion key = some record.definition.version := by
  rw [TenantState.featureVersion, h]
  rfl

theorem featureVersion_ne {old new : MemoryRecord κ} (h : s.features[key]? = some old)
    (raised : new.definition.version = old.definition.version + 1) :
    s.featureVersion key ≠ some new.definition.version := by
  rw [featureVersion_of_lookup h, raised]
  simp

/-- The versions of the entries about a resource. -/
def versionsOf (subject : Subject) (key : Bytes) (history : List (Subject × AuditEntry)) :
    List Nat :=
  (history.filter fun x => x.1 = subject ∧ x.2.featureKey = key).map fun x => x.2.version

theorem entry_eq_some {x : Target} {y} (h : x.entry actor s t = some y) :
    y.1 = x.subject ∧ y.2.featureKey = x.key ∧ y.2.action = x.action := by
  obtain ⟨version, -, rfl⟩ := Option.map_eq_some_iff.mp h
  exact ⟨rfl, rfl, rfl⟩

theorem versionsOf_eq_nil {subject : Subject}
    (h : ∀ x ∈ targets, x.subject = subject → x.key ≠ key) :
    versionsOf subject key (targets.filterMap fun x => x.entry actor s t) = [] := by
  rw [versionsOf, List.map_eq_nil_iff, List.filter_eq_nil_iff]
  intro y hy hmatch
  obtain ⟨x, hx, hentry⟩ := List.mem_filterMap.mp hy
  obtain ⟨hsubject, hkey, -⟩ := entry_eq_some hentry
  rw [decide_eq_true_eq, hsubject, hkey] at hmatch
  exact h x hx hmatch.1 hmatch.2

/-- A resource that was changed has one entry, and one that was not has none. -/
theorem versionsOf_entries {subject : Subject}
    (nodup : (targets.map fun x => (x.subject, x.key)).Nodup)
    (hframe : (∀ x ∈ targets, x.subject = subject → x.key ≠ key) →
      resulting s t subject key = none) :
    versionsOf subject key (targets.filterMap fun x => x.entry actor s t) =
      (resulting s t subject key).toList := by
  induction targets with
  | nil => simp [versionsOf, hframe]
  | cons x rest ih =>
    rw [List.map_cons, List.nodup_cons] at nodup
    have hcons : versionsOf subject key ((x :: rest).filterMap fun x => x.entry actor s t) =
        versionsOf subject key (x.entry actor s t).toList ++
          versionsOf subject key (rest.filterMap fun x => x.entry actor s t) := by
      rw [versionsOf, versionsOf, versionsOf, ← List.map_append, ← List.filter_append]
      cases hentry : x.entry actor s t <;> simp [hentry]
    rw [hcons]
    by_cases hx : x.subject = subject ∧ x.key = key
    · obtain ⟨rfl, rfl⟩ := hx
      -- no later target is the same resource
      have hrest : ∀ y ∈ rest, y.subject = x.subject → y.key ≠ x.key := fun y hy hsubject hkey =>
        nodup.1 (List.mem_map.mpr ⟨y, hy, by rw [hsubject, hkey]⟩)
      rw [versionsOf_eq_nil hrest, List.append_nil]
      cases hresult : resulting s t x.subject x.key <;> simp [versionsOf, Target.entry, hresult]
    · have hhead : versionsOf subject key (x.entry actor s t).toList = [] := by
        have hnil : versionsOf subject key ([x].filterMap fun x => x.entry actor s t) = [] :=
          versionsOf_eq_nil fun y hy hsubject hkey =>
            hx (List.mem_singleton.mp hy ▸ ⟨hsubject, hkey⟩)
        rw [List.filterMap_cons] at hnil
        cases hentry : x.entry actor s t with
        | none => rfl
        | some y =>
          rwa [hentry] at hnil
      rw [hhead, List.nil_append]
      refine ih nodup.2 fun hrest => hframe fun y hy hsubject hkey => ?_
      rcases List.mem_cons.mp hy with rfl | hy
      · exact hx ⟨hsubject, hkey⟩
      · exact hrest y hy hsubject hkey

variable [CustomStrategy κ]

/-- The changes that are applied are staged, for different features. -/
theorem nodup_stagedKey {m m' : GoMap (MemoryRecord κ) × List (Definition κ)}
    (distinct : s.StagesDistinct) (nodup : ids.Nodup)
    (h : ids.foldlM (applyStageStep tenant s.staged) m = .ok m') :
    (∀ id ∈ ids, ∃ change, s.staged[id]? = some change) ∧ (ids.map (stagedKey s.staged)).Nodup := by
  have hstaged : ∀ id ∈ ids, ∃ change, s.staged[id]? = some change := by
    intro id hid
    obtain ⟨change, _, hchange, -⟩ := applied_of_foldlM distinct.stagedFor nodup h hid
    exact ⟨change, hchange⟩
  refine ⟨hstaged, nodup.map_on fun i hi j hj hkey => ?_⟩
  obtain ⟨c, hc⟩ := hstaged i hi
  obtain ⟨d, hd⟩ := hstaged j hj
  rw [stagedKey_eq hc, stagedKey_eq hd] at hkey
  exact distinct i j c d hc hd hkey

theorem audited_applied (hmax : 0 ≤ limits.maxAuditEntries) (distinct : s.StagesDistinct)
    (nodup : ids.Nodup) (actor : Bytes) {records : GoMap (MemoryRecord κ)} {results}
    (replaced : ids.foldlM (applyStageStep tenant s.staged) (cloneMemoryRecords s.features, []) =
      .ok (records, results)) :
    let t := TenantState.struck limits actor { s with features := records } (ids.zip results)
    Audited limits s t
      (((stageTargets s ids).filterMap fun x => x.entry actor s t).map Prod.snd) := by
  intro t
  obtain ⟨hstaged, hkeys⟩ := nodup_stagedKey distinct nodup replaced
  have hold : ∀ key : Bytes, (cloneMemoryRecords s.features)[key]?.map
      (fun r => r.definition.version) = s.featureVersion key := by
    intro key
    rw [cloneMemoryRecords_lookup, Option.map_map]
    rfl
  have hnew : ∀ key : Bytes, records[key]?.map (fun r => r.definition.version) =
      t.featureVersion key := by
    intro key
    rw [TenantState.featureVersion, TenantState.struck_features]
  have hresults := results_of_foldlM hkeys replaced
  simp only [hold, hnew, List.map_nil, List.nil_append] at hresults
  have hzip : (ids.zip results).map Prod.snd = results :=
    List.map_snd_zip (by simpa using (length_applyStages replaced).le)
  have hlog := Audited.struck (s := { s with features := records }) hmax actor (ids.zip results)
  rw [hzip] at hlog
  rw [entries_applied hstaged, ← hresults, List.map_map]
  exact hlog

theorem audited_imported (hmax : 0 ≤ limits.maxAuditEntries)
    (nodup : (definitions.map Definition.key).Nodup)
    (nodup' : (groups.map GroupDefinition.key).Nodup) (policy : ConflictPolicy) (actor : Bytes) :
    let plan := importPlan policy false definitions groups s
    let t := TenantState.imported limits actor
      { s with features := plan.records, groups := plan.groups } plan.audits
    Audited limits s t
      (((importTargets s definitions groups).filterMap fun x => x.entry actor s t).map
        Prod.snd) := by
  intro plan t
  have hgroups : ∀ key : Bytes, plan.groups[key]?.map GroupDefinition.version =
      t.groupVersion key := by
    intro key
    rw [TenantState.groupVersion, TenantState.imported_groups]
  have hfeatures : ∀ key : Bytes, plan.records[key]?.map (fun r => r.definition.version) =
      t.featureVersion key := by
    intro key
    rw [TenantState.featureVersion, TenantState.imported_features]
  have hplan : plan.audits =
      groups.filterMap (fun g =>
        plannedAudit g.key (s.groupVersion g.key) (t.groupVersion g.key)) ++
      definitions.filterMap fun d =>
        plannedAudit d.key (s.featureVersion d.key) (t.featureVersion d.key) := by
    simp only [← hgroups, ← hfeatures]
    exact importPlan_audits policy false s nodup nodup'
  have hlog := Audited.imported
    (s := { s with features := plan.records, groups := plan.groups }) hmax actor plan.audits
  have hentries : ((importTargets s definitions groups).filterMap fun x => x.entry actor s t).map
      Prod.snd = plan.audits.map fun audit =>
        ⟨audit.key, audit.action, actor, audit.version⟩ := by
    rw [hplan, importTargets]
    simp only [List.filterMap_append, List.map_append, List.filterMap_map, List.map_filterMap,
      Function.comp_def, Target.entry, resulting, plannedAudit, Option.map_map]
  rw [hentries]
  exact hlog

theorem Advance.eq_of_version (hκ : PlainStrategies κ) {old new : Option (MemoryRecord κ)}
    (h : Advance old new)
    (hversion : new.map (fun r => r.definition.version) = old.map fun r => r.definition.version) :
    new = old := by
  cases old with
  | none => exact Option.map_eq_none_iff.mp hversion
  | some old =>
    obtain ⟨record, rfl, -⟩ := h.exists_le
    rw [Option.map_some, Option.map_some, Option.some.injEq] at hversion
    rw [(h.onward hκ).2 hversion.symm]

theorem GroupMove.eq_of_version (hκ : PlainStrategies κ) {adds deletes : Prop}
    {old new : Option (GroupDefinition κ)} (h : GroupMove adds deletes old new)
    (hversion : new.map GroupDefinition.version = old.map GroupDefinition.version) : new = old := by
  cases old with
  | none => exact Option.map_eq_none_iff.mp hversion
  | some old =>
    cases new with
    | none => cases hversion
    | some new =>
      rw [Option.map_some, Option.map_some, Option.some.injEq] at hversion
      rcases h with rfl | rfl | hraised
      · rfl
      · rw [hκ.cloneGroup]
      · omega

/-- The versions of a feature are counted up from 1. -/
theorem Advance.range'_append {old new} (h : Advance old new) :
    let version := fun r : MemoryRecord κ => r.definition.version
    List.range' 1 ((old.map version).getD 0) ++
        (stepped (old.map version) (new.map version)).toList =
      List.range' 1 ((new.map version).getD 0) := by
  intro version
  have hkept : ∀ v : Nat, List.range' 1 v ++ (stepped (some v) (some v)).toList =
      List.range' 1 v := by simp
  cases old with
  | none =>
    cases new with
    | none => simp
    | some new =>
      have hone : version new = 1 := h
      simp [hone, stepped]
  | some old =>
    cases new with
    | none => exact h.elim
    | some new =>
      rcases h with rfl | rfl | hraised
      · exact hkept _
      · exact hkept _
      · have hraised : version new = version old + 1 := hraised
        rw [Option.map_some, Option.map_some, hraised, stepped_some (by simp), Option.getD_some,
          Option.getD_some, List.range'_1_concat, Nat.add_comm 1]
        rfl

variable [Runtime]

theorem targets_import {data : Bytes} {options : ImportOptions} :
    ∀ x ∈ (Call.importDocument data options actor : Call κ).targets ord limits s,
      x.subject ≠ .stage := by
  intro x hx
  rw [Call.targets] at hx
  split at hx
  · cases hx
  · rw [importTargets] at hx
    rcases List.mem_append.mp hx with hx | hx
    all_goals
      obtain ⟨y, -, rfl⟩ := List.mem_map.mp hx
      exact fun h => by cases h

/-- What a method appends to the log is its history. -/
theorem Effect.audited (h : Effect ord limits tenant call s t) (hmax : 0 ≤ limits.maxAuditEntries)
    (hs : s.Keyed) (distinct : s.StagesDistinct) (keep : ∀ options, call ≠ .cleanup options) :
    Audited limits s t ((changes ord limits call s t).map Prod.snd) := by
  cases h with
  | create valid absent room =>
    refine audited_write hmax ?_
    rw [TenantState.featureVersion, Std.ExtTreeMap.getElem?_eq_none absent]
    exact fun h => by cases h
  | update valid live | activate live | deactivate live | delete live
  | assignGroup found live fresh valid | removeGroup live listed =>
      exact audited_write hmax (featureVersion_ne live.1 rfl)
  | restore found deleted => exact audited_write hmax (featureVersion_ne found rfl)
  | createGroup absent valid =>
    refine audited_writeGroup hmax ?_
    rw [TenantState.groupVersion, Std.ExtTreeMap.getElem?_eq_none absent]
    exact fun h => by cases h
  | updateGroup found valid =>
    refine audited_writeGroup hmax ?_
    rw [storedGroup_update hs found valid, TenantState.groupVersion, found]
    simp [cloneGroup]
  | deleteGroup found unused childless =>
    rename_i groupKey actor group
    have hresult : resulting s (s.eraseGroup limits groupKey (group.version + 1) actor) .group
        groupKey = some (group.version + 1) := by
      rw [resulting, groupVersion_eraseGroup, if_pos rfl, TenantState.groupVersion, found]
      rfl
    refine (entries_singleton (x := ⟨.group, groupKey, .groupDelete⟩) hresult).symm ▸ ?_
    exact Audited.recorded (s := { s with groups := s.groups.erase groupKey }) hmax _
  | alreadyAssigned live listed =>
    rw [changes, entries_self (by simp [Call.targets])]
    exact .of_audit_eq rfl
  | stageUpdate valid live room fresh =>
    rename_i definition actor applyAt record
    have hresult : resulting s (s.stage limits ⟨s.nextStage + 1, cloneDefinition definition,
        record.definition.version, applyAt, actor⟩) .stage definition.key =
          some record.definition.version := featureVersion_of_lookup live.1
    refine (entries_singleton (x := ⟨.stage, definition.key, .stageUpdate⟩) hresult).symm ▸ ?_
    exact fun history => Audited.recorded (s := { s with
      nextStage := s.nextStage + 1
      staged := s.staged.insert (s.nextStage + 1) ⟨s.nextStage + 1, cloneDefinition definition,
        record.definition.version, applyAt, actor⟩ }) hmax _ history
  | applied due replaced valid =>
    rename_i ids actor records results snapshot
    have nodup : ids.Nodup := by
      rcases due with ⟨id, -, rfl⟩ | ⟨now, -, rfl⟩
      · exact List.nodup_singleton id
      · exact nodup_dueStages now s.staged
    have hchanges : ∀ t, changes ord limits call s t =
        (stageTargets s ids).filterMap fun x => x.entry actor s t := by
      rcases due with ⟨id, rfl, rfl⟩ | ⟨now, rfl, rfl⟩ <;> exact fun t => rfl
    rw [hchanges]
    exact audited_applied hmax distinct nodup actor replaced
  | imported applied resolved read valid =>
    rw [changes, Call.targets, read]
    exact audited_imported hmax (import_nodup read) (import_groups_nodup read) _ _
  | cleanup => exact absurd rfl (keep _)
  | nothingDue none =>
    rw [changes, Call.targets, none]
    exact .of_audit_eq rfl
  | dryRun dry =>
    rw [changes, entries_self targets_import]
    exact .of_audit_eq rfl
  | read reads =>
    rcases reads with rfl | ⟨key, rfl⟩ | rfl | rfl <;> exact .of_audit_eq rfl

/-- A call names a resource once. -/
theorem nodup_targets (call : Call κ) (ord : MapOrder) (limits : Limits)
    (distinct : s.StagesDistinct) :
    ((call.targets ord limits s).map fun x => (x.subject, x.key)).Nodup := by
  have hstages : ∀ ids : List Nat, ids.Nodup →
      ((stageTargets s ids).map fun x => (x.subject, x.key)).Nodup := by
    intro ids hids
    rw [stageTargets, List.map_filterMap]
    refine List.Nodup.filterMap (fun i j x hi hj => ?_) hids
    simp only [Option.map_map, Option.mem_def, Option.map_eq_some_iff] at hi hj
    obtain ⟨c, hc, rfl⟩ := hi
    obtain ⟨d, hd, hkey⟩ := hj
    exact distinct i j c d hc hd (Prod.mk.inj hkey).2.symm
  cases call with
  | applyStage id actor => exact hstages [id] (List.nodup_singleton id)
  | applyScheduled now actor => exact hstages _ (nodup_dueStages now s.staged)
  | importDocument data options actor =>
    rw [Call.targets]
    cases hread : Import (κ := κ) ord data limits with
    | error e => exact List.nodup_nil
    | ok read =>
      obtain ⟨definitions, groups⟩ := read
      have hgroups := (import_groups_nodup hread).map (Prod.mk_right_injective Subject.group)
      have hfeatures := (import_nodup hread).map (Prod.mk_right_injective Subject.feature)
      rw [List.map_map] at hgroups hfeatures
      dsimp only
      rw [importTargets, List.map_append, List.map_map, List.map_map]
      refine hgroups.append hfeatures fun x hx hx' => ?_
      obtain ⟨g, -, rfl⟩ := List.mem_map.mp hx
      obtain ⟨d, -, hd⟩ := List.mem_map.mp hx'
      cases hd
  | cleanup options | snapshot | audit key | stagedChanges | exportDocument => exact List.nodup_nil
  | _ => exact List.nodup_singleton _

theorem Effect.featureVersion_eq (h : Effect ord limits tenant call s t)
    (keep : ∀ options, call ≠ .cleanup options)
    (hkey : ∀ x ∈ call.targets ord limits s, x.subject = .feature → x.key ≠ key) :
    t.featureVersion key = s.featureVersion key := by
  cases h with
  | create valid absent room | update valid live | activate live | deactivate live | delete live
  | restore found deleted | assignGroup found live fresh valid | removeGroup live listed =>
    rw [featureVersion_write, if_neg (hkey _ (List.mem_singleton_self _) rfl)]
  | applied due replaced valid =>
    rename_i ids actor records results snapshot
    have hids : ∀ id ∈ ids, ¬ StagedFor s.staged id key := by
      rintro id hid ⟨change, hchange, rfl⟩
      have hmem : (⟨.feature, change.definition.key, .applyStage⟩ : Target) ∈
          stageTargets s ids :=
        List.mem_filterMap.mpr ⟨id, hid, by rw [hchange]; rfl⟩
      rcases due with ⟨id, rfl, rfl⟩ | ⟨now, rfl, rfl⟩ <;> exact hkey _ hmem rfl rfl
    have hframe : records[key]? = (cloneMemoryRecords s.features)[key]? :=
      (Writes.of_foldlM replaced).frame (fun m (key : Bytes) => m.1[key]?) applyStageStep_framed
        hids
    rw [TenantState.featureVersion, TenantState.struck_features, hframe,
      cloneMemoryRecords_lookup, Option.map_map]
    rfl
  | imported applied resolved read valid =>
    rename_i data actor options policy definitions groups snapshot
    have hdefinitions : ∀ d ∈ definitions, ¬ d.key = key := by
      intro d hd
      refine hkey ⟨.feature, d.key, importAction (s.featureVersion d.key)⟩ ?_ rfl
      rw [Call.targets, read]
      exact List.mem_append_right _ (List.mem_map.mpr ⟨d, hd, rfl⟩)
    have hframe := (Writes.foldl (planFeature policy) definitions (groups.foldl (planGroup policy)
      ⟨⟨false, 0, 0, 0, 0, 0, []⟩, cloneMemoryRecords s.features, cloneGroupMap s.groups,
        []⟩)).frame (fun plan (key : Bytes) => plan.records[key]?) planFeature_framed hdefinitions
    rw [foldl_planGroup_records] at hframe
    rw [TenantState.featureVersion, TenantState.imported_features, importPlan]
    dsimp only
    rw [hframe, cloneMemoryRecords_lookup, Option.map_map]
    rfl
  | cleanup => exact absurd rfl (keep _)
  | _ => rfl

theorem Effect.groupVersion_eq (h : Effect ord limits tenant call s t)
    (hkey : ∀ x ∈ call.targets ord limits s, x.subject = .group → x.key ≠ key) :
    t.groupVersion key = s.groupVersion key := by
  cases h with
  | createGroup absent valid | updateGroup found valid =>
    rw [groupVersion_writeGroup, if_neg (hkey _ (List.mem_singleton_self _) rfl)]
  | deleteGroup found unused childless =>
    rw [groupVersion_eraseGroup, if_neg (hkey _ (List.mem_singleton_self _) rfl)]
  | applied => rw [TenantState.groupVersion, TenantState.struck_groups]; rfl
  | imported applied resolved read valid =>
    rename_i data actor options policy definitions groups snapshot
    have hgroups : key ∉ groups.map GroupDefinition.key := by
      intro hmem
      obtain ⟨g, hg, rfl⟩ := List.mem_map.mp hmem
      refine hkey ⟨.group, g.key, importAction (s.groupVersion g.key)⟩ ?_ rfl rfl
      rw [Call.targets, read]
      exact List.mem_append_left _ (List.mem_map.mpr ⟨g, hg, rfl⟩)
    have hframe : (importPlan policy false definitions groups s).groups[key]? =
        s.groups[key]?.map cloneGroup :=
      (importPlan_groups false definitions s (import_groups_nodup read) key).resolve_right
        fun h => hgroups h.1
    rw [TenantState.groupVersion, TenantState.imported_groups]
    dsimp only
    rw [hframe, Option.map_map]
    rfl
  | cleanup _ groups => rw [TenantState.groupVersion, groups]; rfl
  | _ => rfl

/-- Only `StageUpdate` names a staged change, and only for it is the action `stage_update`. -/
theorem targets_stage {x : Target} (hx : x ∈ call.targets ord limits s) :
    (x.action = .stageUpdate ↔ x.subject = .stage) ∧
      (x.subject = .stage → ∃ definition version applyAt actor,
        call = .stageUpdate definition version applyAt actor) := by
  cases call with
  | stageUpdate definition version applyAt actor =>
    rw [List.mem_singleton.mp hx]
    exact ⟨by simp, fun _ => ⟨_, _, _, _, rfl⟩⟩
  | applyStage id actor | applyScheduled now actor =>
    obtain ⟨_, -, hmem⟩ := List.mem_filterMap.mp hx
    obtain ⟨change, -, rfl⟩ := Option.map_eq_some_iff.mp hmem
    simp
  | importDocument data options actor =>
    have hsubject := targets_import x hx
    refine ⟨⟨fun haction => ?_, fun h => absurd h hsubject⟩, fun h => absurd h hsubject⟩
    rw [Call.targets] at hx
    split at hx
    · cases hx
    · rcases List.mem_append.mp hx with hx | hx
      all_goals
        obtain ⟨y, -, rfl⟩ := List.mem_map.mp hx
        simp only [importAction] at haction
        split_ifs at haction
  | cleanup options | snapshot | audit key | stagedChanges | exportDocument => cases hx
  | _ =>
    rw [List.mem_singleton.mp hx]
    simp

/-! ### Events -/

/-- The entry about the change that a call stages. -/
def Call.stageEntry : Call κ → List (Subject × AuditEntry)
  | .stageUpdate definition version _ actor =>
    [(.stage, ⟨definition.key, .stageUpdate, actor, version⟩)]
  | _ => []

/-- The history of a call says what the call changed. -/
structure Event.Recorded (limits : Limits) (e : Event κ) : Prop where
  /-- A feature whose version is another one has one entry, with that version; others have none. -/
  features : ∀ key, versionsOf .feature key (e.history limits) =
    (stepped (e.before.featureVersion key) (e.after.featureVersion key)).toList
  /-- So for groups; a group that is deleted has an entry with the version after its last one. -/
  groups : ∀ key, versionsOf .group key (e.history limits) =
    (stepped (e.before.groupVersion key) (e.after.groupVersion key)).toList
  /-- A change that is staged has one entry. -/
  stages : (e.history limits).filter (fun x => x.1 = .stage) =
    match e.outcome with
    | .ok _ => e.call.stageEntry
    | .error _ => []
  /-- A call that fails, an import that is only planned and a call that changes nothing have no
  entry. -/
  quiet : (¬ e.Succeeds ∨ e.after = e.before ∨
      ∃ data options actor, e.call = .importDocument data options actor ∧ options.dryRun = true) →
    e.history limits = []
  /-- What keeps its version is the same. -/
  same : PlainStrategies κ → ∀ key,
    (e.after.featureVersion key = e.before.featureVersion key →
      e.after.features[key]? = e.before.features[key]?) ∧
    (e.after.groupVersion key = e.before.groupVersion key →
      e.after.groups[key]? = e.before.groups[key]?)

theorem changes_stage {definition : Definition κ} {version : Nat} {applyAt : ZonedTime}
    (h : Effect ord limits tenant (.stageUpdate definition version applyAt actor) s t) :
    changes ord limits (.stageUpdate definition version applyAt actor) s t =
      [(.stage, ⟨definition.key, .stageUpdate, actor, version⟩)] ∧ t ≠ s := by
  cases h with
  | stageUpdate valid live room fresh =>
    rename_i record
    have hresult : resulting s (s.stage limits ⟨s.nextStage + 1, cloneDefinition definition,
        record.definition.version, applyAt, actor⟩) .stage definition.key =
          some record.definition.version := featureVersion_of_lookup live.1
    refine ⟨?_, fun hsame => ?_⟩
    · simp [changes, Call.targets, Call.actor, Target.entry, hresult]
    · have hnext : s.nextStage + 1 = s.nextStage := congrArg TenantState.nextStage hsame
      omega
  | applied due => rcases due with ⟨_, h, _⟩ | ⟨_, h, _⟩ <;> cases h
  | read reads => rcases reads with h | ⟨_, h⟩ | h | h <;> cases h

theorem Effect.filter_stage (h : Effect ord limits tenant call s t) :
    (changes ord limits call s t).filter (fun x => x.1 = .stage) = call.stageEntry := by
  by_cases hcall : ∃ definition version applyAt actor,
      call = .stageUpdate definition version applyAt actor
  · obtain ⟨definition, version, applyAt, actor, rfl⟩ := hcall
    rw [(changes_stage h).1]
    rfl
  · have hentry : call.stageEntry = [] := by
      cases call with
      | stageUpdate => exact absurd ⟨_, _, _, _, rfl⟩ hcall
      | _ => rfl
    rw [hentry, List.filter_eq_nil_iff]
    intro y hy hstage
    obtain ⟨x, hx, heq⟩ := List.mem_filterMap.mp hy
    rw [decide_eq_true_eq, (entry_eq_some heq).1] at hstage
    exact hcall ((targets_stage hx).2 hstage)

theorem Effect.eq_of_dryRun {data : Bytes} {options : ImportOptions}
    (h : Effect ord limits tenant (.importDocument data options actor) s t)
    (dry : options.dryRun = true) : t = s := by
  cases h with
  | imported applied =>
    rw [dry] at applied
    cases applied
  | dryRun | read reads => rfl
  | applied due => rcases due with ⟨_, h, _⟩ | ⟨_, h, _⟩ <;> cases h

variable {e : Event κ}

theorem Event.Returns.recorded (h : e.Returns limits tenant) (hs : e.before.Keyed)
    (distinct : e.before.StagesDistinct) (keep : ∀ options, e.call ≠ .cleanup options) :
    e.Recorded limits := by
  have hpurges : e.call.purges = false := by
    cases hcall : e.call with
    | cleanup options => exact absurd hcall (keep options)
    | _ => rfl
  have hsame : PlainStrategies κ → ∀ key,
      (e.after.featureVersion key = e.before.featureVersion key →
        e.after.features[key]? = e.before.features[key]?) ∧
      (e.after.groupVersion key = e.before.groupVersion key →
        e.after.groups[key]? = e.before.groups[key]?) := by
    intro hκ key
    refine ⟨fun hversion => ?_, fun hversion => ?_⟩
    · rcases h.effect with ⟨-, heffect⟩ | hunchanged
      · exact (heffect.advance distinct hpurges key).eq_of_version hκ hversion
      · rw [hunchanged]
    · exact (h.groups hs key).eq_of_version hκ hversion
  cases houtcome : e.outcome with
  | error failure =>
    have hhistory : e.history limits = [] := by rw [Event.history, houtcome]
    have hunchanged : e.after = e.before := by
      rcases h.effect with ⟨⟨response, hok⟩, -⟩ | hunchanged
      · rw [houtcome] at hok
        cases hok
      · exact hunchanged
    refine ⟨fun key => ?_, fun key => ?_, ?_, fun _ => hhistory, hsame⟩
    · rw [hhistory, hunchanged, stepped_self]
      rfl
    · rw [hhistory, hunchanged, stepped_self]
      rfl
    · rw [hhistory, houtcome]
      rfl
  | ok response =>
    have heffect : Effect e.ord limits tenant e.call e.before e.after := by
      unfold Event.Returns at h
      rw [houtcome] at h
      exact effect_of_exec h
    have hhistory : e.history limits = changes e.ord limits e.call e.before e.after := by
      rw [Event.history, houtcome]
    have hnodup := nodup_targets e.call e.ord limits distinct
    refine ⟨fun key => ?_, fun key => ?_, ?_, ?_, hsame⟩
    · rw [hhistory]
      exact versionsOf_entries hnodup fun hkey => by
        rw [resulting, heffect.featureVersion_eq keep hkey, stepped_self]
    · rw [hhistory]
      exact versionsOf_entries hnodup fun hkey => by
        rw [resulting, heffect.groupVersion_eq hkey, stepped_self]
    · rw [hhistory, houtcome]
      exact heffect.filter_stage
    · intro hquiet
      have hunchanged : e.after = e.before := by
        rcases hquiet with hfails | hunchanged | ⟨data, options, actor, hcall, hdry⟩
        · exact absurd ⟨response, houtcome⟩ hfails
        · exact hunchanged
        · rw [hcall] at heffect
          exact heffect.eq_of_dryRun hdry
      rw [hunchanged] at heffect
      rw [hhistory, hunchanged]
      refine entries_self fun x hx hstage => ?_
      obtain ⟨definition, version, applyAt, actor, hcall⟩ := (targets_stage hx).2 hstage
      rw [hcall] at heffect
      exact (changes_stage heffect).2 rfl

/-- A call appends its history to the log. -/
theorem Event.Returns.audited {e : Event κ} (h : e.Returns limits tenant)
    (hmax : 0 ≤ limits.maxAuditEntries) (hs : e.before.Keyed)
    (distinct : e.before.StagesDistinct) (keep : ∀ options, e.call ≠ .cleanup options) :
    Audited limits e.before e.after ((e.history limits).map Prod.snd) := by
  rcases h.effect with ⟨⟨response, hok⟩, heffect⟩ | hunchanged
  · have hhistory : e.history limits = changes e.ord limits e.call e.before e.after := by
      rw [Event.history, hok]
    rw [hhistory]
    exact heffect.audited hmax hs distinct keep
  · rw [(h.recorded hs distinct keep).quiet (.inr (.inl hunchanged))]
    exact .of_audit_eq (congrArg TenantState.audit hunchanged)

/-- The versions of the entries for a key, those about staged changes apart. -/
def featureEntries (key : Bytes) (entries : List AuditEntry) : List Nat :=
  (entries.filter fun entry => entry.featureKey = key ∧ entry.action ≠ .stageUpdate).map
    AuditEntry.version

theorem Event.action_of_mem_history {x : Subject × AuditEntry} (h : x ∈ e.history limits) :
    x.2.action = .stageUpdate ↔ x.1 = .stage := by
  unfold Event.history at h
  split at h
  · obtain ⟨target, htarget, hentry⟩ := List.mem_filterMap.mp h
    obtain ⟨hsubject, -, haction⟩ := entry_eq_some hentry
    rw [hsubject, haction]
    exact (targets_stage htarget).1
  · cases h

/-- Where no group has the key, these are the entries about the feature. -/
theorem Event.Recorded.featureEntries_eq (h : e.Recorded limits) (hbefore : key ∉ e.before.groups)
    (hafter : key ∉ e.after.groups) :
    featureEntries key ((e.history limits).map Prod.snd) =
      (stepped (e.before.featureVersion key) (e.after.featureVersion key)).toList := by
  have hgroups : versionsOf .group key (e.history limits) = [] := by
    rw [h.groups, TenantState.groupVersion, TenantState.groupVersion,
      Std.ExtTreeMap.getElem?_eq_none hbefore, Std.ExtTreeMap.getElem?_eq_none hafter]
    rfl
  rw [versionsOf, List.map_eq_nil_iff, List.filter_eq_nil_iff] at hgroups
  rw [← h.features, featureEntries, versionsOf, List.filter_map, List.map_map]
  have hfilter : (e.history limits).filter ((fun entry : AuditEntry =>
      decide (entry.featureKey = key ∧ entry.action ≠ .stageUpdate)) ∘ Prod.snd) =
        (e.history limits).filter fun x => x.1 = .feature ∧ x.2.featureKey = key := by
    refine List.filter_congr fun x hx => ?_
    have haction := Event.action_of_mem_history hx
    have hgroup := hgroups x hx
    rw [Function.comp_apply, decide_eq_decide, ne_eq, haction]
    -- of the three subjects, a group is ruled out by its key
    cases hsubject : x.1 <;> simp_all
  rw [hfilter]
  rfl

section Runs

variable {events : List (Event κ)}

section

variable (run : Run limits tenant events s)
include run

theorem Run.audit_eq (hmax : 0 ≤ limits.maxAuditEntries)
    (keep : ∀ e ∈ events, ∀ options, e.call ≠ .cleanup options) :
    s.audit = retained limits ((events.flatMap (Event.history limits)).map Prod.snd) := by
  induction run with
  | start => exact (List.rtake_nil _).symm
  | step run returns ih =>
    rename_i events e
    have hkeep : ∀ e ∈ events, ∀ options, e.call ≠ .cleanup options :=
      fun e he => keep e (List.mem_append_left _ he)
    rw [List.flatMap_append, List.map_append, List.flatMap_singleton]
    exact returns.audited hmax run.keyed_last run.stagesDistinct (keep e (by simp)) _ (ih hkeep)

variable (keep : ∀ e ∈ events, ∀ options, e.call ≠ .cleanup options)
include keep

theorem Run.recorded {e : Event κ} (he : e ∈ events) : e.Recorded limits := by
  induction run with
  | start => cases he
  | step run returns ih =>
    rcases List.mem_append.mp he with hmem | hlast
    · exact ih (fun e he => keep e (List.mem_append_left _ he)) hmem
    · rw [List.mem_singleton.mp hlast]
      exact returns.recorded run.keyed_last run.stagesDistinct (keep _ (by simp))

theorem Run.featureEntries_eq {key : Bytes} (hgroups : ∀ e ∈ events, key ∉ e.after.groups) :
    key ∉ s.groups ∧
    featureEntries key ((events.flatMap (Event.history limits)).map Prod.snd) =
      List.range' 1 ((s.featureVersion key).getD 0) := by
  induction run with
  | start => exact ⟨Std.ExtTreeMap.not_mem_empty, rfl⟩
  | step run returns ih =>
    rename_i events e
    obtain ⟨hbefore, hversions⟩ := ih (fun e he => keep e (List.mem_append_left _ he))
      (fun e he => hgroups e (List.mem_append_left _ he))
    have hafter : key ∉ e.after.groups := hgroups e (by simp)
    have hrecorded := returns.recorded run.keyed_last run.stagesDistinct (keep e (by simp))
    have hadvance : Advance e.before.features[key]? e.after.features[key]? := by
      rcases returns.effect with ⟨-, heffect⟩ | hunchanged
      · refine heffect.advance run.stagesDistinct ?_ key
        cases hcall : e.call with
        | cleanup options => exact absurd hcall (keep e (by simp) options)
        | _ => rfl
      · rw [hunchanged]
        exact .refl _
    refine ⟨hafter, ?_⟩
    rw [List.flatMap_append, List.flatMap_singleton, List.map_append, featureEntries,
      List.filter_append, List.map_append]
    exact (congrArg₂ (· ++ ·) hversions (hrecorded.featureEntries_eq hbefore hafter)).trans
      hadvance.range'_append

end

/-- The audit log of a tenant is the end of the history of its run, as long as the limit allows; the
history has one entry for each change and for nothing else; and the versions recorded for a feature
whose key no group has are counted up from 1 to the current one. -/
theorem audit_is_bounded_history (run : Run limits tenant events s)
    (hmax : 0 ≤ limits.maxAuditEntries)
    (keep : ∀ e ∈ events, ∀ options, e.call ≠ .cleanup options) :
    let history := (events.flatMap (Event.history limits)).map Prod.snd
    (s.audit <:+ history ∧ s.audit.length = min history.length limits.maxAuditEntries.toNat) ∧
    (∀ e ∈ events, e.Recorded limits) ∧
    ∀ key, (∀ e ∈ events, key ∉ e.after.groups) →
      featureEntries key history = List.range' 1 ((s.featureVersion key).getD 0) ∧
      featureEntries key s.audit <:+ List.range' 1 ((s.featureVersion key).getD 0) := by
  intro history
  have haudit : s.audit = retained limits history := run.audit_eq hmax keep
  have hsuffix : s.audit <:+ history := haudit ▸ List.drop_suffix _ _
  refine ⟨⟨hsuffix, ?_⟩, fun e he => ?_, fun key hgroups => ?_⟩
  · rw [haudit, retained, List.rtake, List.length_drop]
    omega
  · exact run.recorded keep he
  · obtain ⟨-, hversions⟩ := run.featureEntries_eq keep hgroups
    refine ⟨hversions, ?_⟩
    rw [← hversions]
    exact (hsuffix.filter _).map _

theorem call_mem_of_mem_performAll {ord : MapOrder} {ctx : Ctx} {calls : List (Call κ)}
    (h : e ∈ performAll limits tenant ord ctx calls s) : e.call ∈ calls := by
  induction calls generalizing s with
  | nil => cases h
  | cons call calls ih =>
    rcases List.mem_cons.mp h with rfl | h
    · unfold Event.perform
      split <;> exact List.mem_cons_self
    · exact List.mem_cons_of_mem _ (ih h)

end Runs

end Calls

/-- A feature is created, put into a group twice and replaced by a staged change. -/
def assignAndStage : List (Call Empty) :=
  [.create (onFor (str "a") []) [], .create (onFor (str "a") []) [],
    .createGroup (ownedGroup (str "g") (str "o") 0) [], .assignGroup (str "a") (str "g") 1 [],
    .assignGroup (str "a") (str "g") 2 [], .stageUpdate (onFor (str "a") []) 2 .zero [],
    .applyStage 1 []]

/-- Two entries are kept. -/
def twoEntries : Limits := { defaultLimits with maxAuditEntries := 2 }

/-- The second creation fails and the second assignment changes nothing, so the history has five
entries, of which the last two are kept; the versions of the feature are 1, 2, 3. -/
theorem audit_is_bounded_history_two :
    letI := unaryRuntime
    let events := performAll twoEntries (str "t") .sorted .background assignAndStage .empty
    let s := Run.lastState events
    let history := (events.flatMap (Event.history twoEntries)).map Prod.snd
    history.length = 5 ∧ s.audit <:+ history ∧ s.audit.length = 2 ∧
      featureEntries (str "a") history = [1, 2, 3] ∧ ∀ e ∈ events, e.Recorded twoEntries := by
  let _ := unaryRuntime
  intro events s history
  have run := run_of_calls twoEntries (str "t") .sorted .background assignAndStage
    (by decide +kernel)
  have keep : ∀ e ∈ events, ∀ options, e.call ≠ .cleanup options := by
    intro e he options hcall
    have hmem := call_mem_of_mem_performAll he
    rw [hcall] at hmem
    simp [assignAndStage] at hmem
  have hlength : history.length = 5 := by decide +kernel
  have hgroups : ∀ e ∈ events, str "a" ∉ e.after.groups := by decide +kernel
  have hversion : s.featureVersion (str "a") = some 3 := by decide +kernel
  obtain ⟨⟨hsuffix, hmin⟩, hrecorded, hversions⟩ :=
    audit_is_bounded_history run (by decide) keep
  refine ⟨hlength, hsuffix, ?_, ?_, hrecorded⟩
  · rw [hmin, show (events.flatMap (Event.history twoEntries)).map Prod.snd = history from rfl,
      hlength]
    rfl
  · rw [(hversions (str "a") hgroups).1, hversion]
    rfl

end FeatureFlags
