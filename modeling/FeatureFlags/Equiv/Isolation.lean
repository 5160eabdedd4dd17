import FeatureFlags.Provider
import FeatureFlags.Lib.Locality
import FeatureFlags.Equiv.Memory

/-!
# Tenants do not interfere

* `Provider.acts_exec`: a method of the provider, on its five maps, does what the method does on
  the data of its tenant, and leaves the data of every other tenant as they are.
* `tenants_do_not_interfere`: what the operations for a tenant return does not depend on the
  operations for other tenants, and a tenant's snapshot refuses the contexts of all others.
-/

namespace FeatureFlags

open Go Lib
open Std (ExtTreeMap)

namespace Provider

variable {κ : Type}

/-- The operation does what `y` does on the data of the tenant `t`, and nothing to other tenants. -/
abbrev Acts {α : Type} (t : Bytes) (p : Provider κ) (x : ProviderOp κ α) (y : Op κ α) : Prop :=
  ActsAt (fun t p => Provider.tenant p t) t p x y

section Fields

variable (p : Provider κ) (t : Bytes)

@[simp] theorem tenant_features : (p.tenant t).features = p.tenants.getD t ∅ := rfl

@[simp] theorem tenant_groups : (p.tenant t).groups = p.groups.getD t ∅ := rfl

@[simp] theorem tenant_audit : (p.tenant t).audit = p.audit.getD t [] := rfl

@[simp] theorem tenant_staged : (p.tenant t).staged = p.staged.getD t ∅ := rfl

@[simp] theorem tenant_nextStage : (p.tenant t).nextStage = p.nextStage.getD t 0 := rfl

end Fields

variable {α : Type} {t : Bytes} {p : Provider κ}

/-! ### Lookups and writes -/

section Writes

variable {V : Type} {m : GoMap V} {t' : Bytes}

theorem getD_insert_of_ne (ht : t' ≠ t) (v d : V) : (m.insert t v).getD t' d = m.getD t' d := by
  rw [ExtTreeMap.getD_insert, if_neg (by simpa using Ne.symm ht)]

theorem getD_modify_of_ne (ht : t' ≠ t) (f : V → V) (d : V) :
    (m.modify t f).getD t' d = m.getD t' d := by
  rw [ExtTreeMap.getD_eq_getD_getElem?, ExtTreeMap.getElem?_modify,
    if_neg (by simpa using Ne.symm ht), ← ExtTreeMap.getD_eq_getD_getElem?]

/-- A change to the map of a tenant that leaves an empty map empty also holds of a nil map. -/
theorem getD_modify_self {f : V → V} {d : V} (hd : f d = d) :
    (m.modify t f).getD t d = f (m.getD t d) := by
  rw [ExtTreeMap.getD_eq_getD_getElem?, ExtTreeMap.getElem?_modify_self,
    ExtTreeMap.getD_eq_getD_getElem?]
  cases m[t]? with
  | none => exact hd.symm
  | some v => rfl

theorem filter_empty {K W : Type} {cmp : K → K → Ordering} [Std.TransCmp cmp]
    [Std.LawfulEqCmp cmp] (f : K → W → Bool) : (∅ : ExtTreeMap K W cmp).filter f = ∅ := by
  refine ExtTreeMap.ext_getElem? fun k => ?_
  rw [ExtTreeMap.getElem?_filter']
  simp

/-- A map that is made where there was none is empty. -/
theorem getD_insertIfNew (d : V) : (m.insertIfNew t d).getD t' d = m.getD t' d := by
  rw [ExtTreeMap.getD_insertIfNew]
  split_ifs with h
  · rw [← Std.compare_eq_iff_eq.mp h.1, ExtTreeMap.getD_eq_fallback h.2]
  · rfl

theorem mem_of_getElem? {W : Type} {m : GoMap (GoMap W)} {key : Bytes} {w : W}
    (h : (m.getD t ∅)[key]? = some w) : t ∈ m := by
  by_contra hmem
  rw [ExtTreeMap.getD_eq_fallback hmem] at h
  simp at h

end Writes

variable {limits : Limits} {ctx : Ctx} {key featureKey groupKey actor : Bytes} {version : Nat}
  {action : AuditAction} {definition : Definition κ} {group : GroupDefinition κ}

theorem acts_fail {e : GoError} : Acts t p (fail e : ProviderOp κ α) (FeatureFlags.fail e) :=
  .throw _

theorem acts_check {x : Except GoError α} : Acts t p (check x) (FeatureFlags.check x) := by
  cases x with
  | ok a => exact .pure a
  | error e => exact acts_fail

theorem run_check_eq_ok {x} {a : α} {q : Provider κ} (h : (check x).run p = .ok a q) : q = p := by
  cases x with
  | ok b => exact (EStateM.Result.ok.inj h).2.symm
  | error e => cases h

theorem acts_check_bind {β : Type} {x : Except GoError α} {f : α → ProviderOp κ β}
    {g : α → Op κ β} (h : ∀ a, Acts t p (f a) (g a)) :
    Acts t p (check x >>= f) (FeatureFlags.check x >>= g) :=
  acts_check.bind fun a q hq => by
    rw [run_check_eq_ok hq]
    exact h a

theorem acts_appendAudit :
    Acts t p (appendAudit limits t key action actor version)
      (FeatureFlags.appendAudit limits key action actor version) := by
  refine .get_bind (.ite .rfl (fun _ => .throw _) fun _ => .set ?_ fun t' ht' => ?_)
  · simp [Provider.tenant, ExtTreeMap.getD_insert_self]
  · simp [Provider.tenant, getD_insert_of_ne ht']

theorem acts_putRecord (ht : t ∈ p.tenants) {record : MemoryRecord κ} :
    Acts t p (putRecord t key record) (FeatureFlags.putRecord key record) := by
  obtain ⟨features, hfeatures⟩ := GoMap.mem_iff.mp ht
  have hrun : (putRecord t key record).run p =
      .ok () { p with tenants := p.tenants.insert t (features.insert key record) } := by
    simp [putRecord, hfeatures]
  refine .of_run_ok hrun ?_ fun t' ht' => ?_
  · simp [FeatureFlags.putRecord, Provider.tenant, ExtTreeMap.getD_eq_getD_getElem?, hfeatures]
  · simp [Provider.tenant, getD_insert_of_ne ht']

theorem acts_putGroup (ht : t ∈ p.groups) :
    Acts t p (putGroup t key group) (FeatureFlags.putGroup key group) := by
  obtain ⟨groups, hgroups⟩ := GoMap.mem_iff.mp ht
  have hrun : (putGroup t key group).run p =
      .ok () { p with groups := p.groups.insert t (groups.insert key group) } := by
    simp [putGroup, hgroups]
  refine .of_run_ok hrun ?_ fun t' ht' => ?_
  · simp [FeatureFlags.putGroup, Provider.tenant, ExtTreeMap.getD_eq_getD_getElem?, hgroups]
  · simp [Provider.tenant, getD_insert_of_ne ht']

/-- `StageUpdate` makes the map, counts and stores the change. -/
theorem acts_stage {change : StagedChange κ} :
    Acts t p
      (do
        set { p with
          staged := p.staged.insertIfNew t ∅
          nextStage := p.nextStage.insert t change.id }
        putStaged t change)
      (set { p.tenant t with
        nextStage := change.id
        staged := (p.tenant t).staged.insert change.id change }) := by
  obtain ⟨staged, hstaged⟩ := GoMap.mem_iff.mp
    (ExtTreeMap.mem_insertIfNew_self : t ∈ p.staged.insertIfNew t ∅)
  have hold : p.staged.getD t ∅ = staged := by
    rw [← getD_insertIfNew, ExtTreeMap.getD_eq_getD_getElem?, hstaged, Option.getD_some]
  have hrun : (do
      set { p with
        staged := p.staged.insertIfNew t ∅
        nextStage := p.nextStage.insert t change.id }
      putStaged t change : ProviderOp κ Unit).run p = .ok () { p with
        staged := (p.staged.insertIfNew t ∅).insert t (staged.insert change.id change)
        nextStage := p.nextStage.insert t change.id } := by
    simp only [putStaged, EStateM.run_bind, EStateM.run_set, EStateM.run_get, hstaged]
  refine .of_run_ok hrun ?_ fun t' ht' => ?_
  · simp [Provider.tenant, hold]
  · simp [Provider.tenant, getD_insert_of_ne ht', getD_insertIfNew]

/-- A method stores something where the tenant has a map, and returns. -/
theorem acts_audited {m : ProviderOp κ Unit} {m' : Op κ Unit} (h : Acts t p m m') {a : α} :
    Acts t p (do m; appendAudit limits t key action actor version; return a)
      (do m'; FeatureFlags.appendAudit limits key action actor version; return a) :=
  h.bind fun _ _ _ => acts_appendAudit.bind fun _ _ _ => .pure a

theorem acts_liveRecord_bind {β : Type} {f : MemoryRecord κ → ProviderOp κ β}
    {g : MemoryRecord κ → Op κ β} (h : t ∈ p.tenants → ∀ record, Acts t p (f record) (g record)) :
    Acts t p (liveRecord t key >>= f) (FeatureFlags.liveRecord t key >>= g) := by
  unfold liveRecord FeatureFlags.liveRecord
  rw [bind_assoc, bind_assoc]
  refine .get_bind ?_
  dsimp only [tenant_features]
  cases hrecord : (p.tenants.getD t ∅)[key]? with
  | none => exact .throw _
  | some record =>
    by_cases hdeleted : record.deleted = true
    · simp only [hdeleted, if_true]
      exact .throw _
    · simp only [hdeleted]
      exact h (mem_of_getElem? hrecord) record

theorem acts_expectVersion_bind {β : Type} {current expected : Nat} {f : Unit → ProviderOp κ β}
    {g : Unit → Op κ β} (h : Acts t p (f ()) (g ())) :
    Acts t p (expectVersion t key current expected >>= f)
      (FeatureFlags.expectVersion t key current expected >>= g) := by
  unfold expectVersion FeatureFlags.expectVersion
  split_ifs with hversion
  · exact .throw _
  · exact h

theorem acts_recordApplied {applied : List (Nat × Definition κ)} :
    Acts t p (recordApplied limits t actor applied)
      (FeatureFlags.recordApplied limits actor applied) := by
  induction applied generalizing p with
  | nil => exact .pure ()
  | cons x rest ih =>
    obtain ⟨id, result⟩ := x
    refine .bind (.modify ?_ fun t' ht' => ?_) fun _ _ _ => acts_appendAudit.bind
      fun _ _ _ => ih
    · simp only [Provider.tenant]
      rw [getD_modify_self (by simp)]
    · simp [Provider.tenant, getD_modify_of_ne ht']

theorem acts_recordImported {audits : List PendingAudit} :
    Acts t p (recordImported limits t actor audits)
      (FeatureFlags.recordImported limits actor audits) := by
  induction audits generalizing p with
  | nil => exact .pure ()
  | cons audit rest ih => exact acts_appendAudit.bind fun _ _ _ => ih

/-! ### The methods -/

theorem acts_auditEntries :
    Acts t p (auditEntries limits ctx t key) (FeatureFlags.audit limits ctx t key) :=
  acts_check_bind fun _ => .get_bind (.pure _)

theorem acts_cleanup {options : CleanupOptions} :
    Acts t p (cleanup limits ctx t options) (FeatureFlags.cleanup limits ctx t options) := by
  refine acts_check_bind fun _ => .ite .rfl (fun _ => acts_fail) fun _ => .get_bind ?_
  -- The source discards features and stages before it decides about the audit entries.
  dsimp only
  rw [apply_ite (fun x => _ >>= fun _ => x)]
  refine .ite .rfl (fun _ => .of_run_ok rfl ?_ fun t' ht' => ?_)
    fun _ => .of_run_ok rfl ?_ fun t' ht' => ?_
  · refine congrArg (EStateM.Result.ok _) ?_
    simp only [Provider.tenant, getD_modify_self (filter_empty _), ExtTreeMap.getD_insert_self]
    rfl
  · simp [Provider.tenant, getD_insert_of_ne ht', getD_modify_of_ne ht']
  · refine congrArg (EStateM.Result.ok _) ?_
    simp only [Provider.tenant, getD_modify_self (filter_empty _)]
    rfl
  · simp [Provider.tenant, getD_modify_of_ne ht']

section Methods

variable [CustomStrategy κ]

theorem acts_setLifecycle {lifecycle : Lifecycle} {deleted : Bool} :
    Acts t p (setLifecycle limits ctx t key version actor lifecycle action deleted)
      (FeatureFlags.setLifecycle limits ctx t key version actor lifecycle action deleted) :=
  acts_check_bind fun _ => acts_liveRecord_bind fun ht _ =>
    acts_expectVersion_bind (acts_audited (acts_putRecord ht))

theorem acts_restore :
    Acts t p (restore limits ctx t key version actor)
      (FeatureFlags.restore limits ctx t key version actor) := by
  refine acts_check_bind fun _ => .get_bind ?_
  dsimp only [tenant_features]
  cases hrecord : (p.tenants.getD t ∅)[key]? with
  | none => exact acts_fail
  | some record =>
    exact .ite .rfl (fun _ => acts_fail) fun _ =>
      acts_expectVersion_bind (acts_audited (acts_putRecord (mem_of_getElem? hrecord)))

theorem acts_deleteGroup :
    Acts t p (deleteGroup limits ctx t groupKey version actor)
      (FeatureFlags.deleteGroup limits ctx t groupKey version actor) := by
  refine acts_check_bind fun _ => .get_bind ?_
  dsimp only [tenant_features, tenant_groups]
  cases (p.groups.getD t ∅)[groupKey]? with
  | none => exact acts_fail
  | some group =>
    refine acts_expectVersion_bind (.ite .rfl (fun _ => acts_fail) fun _ =>
      .ite .rfl (fun _ => acts_fail) fun _ => .bind (.modify ?_ fun t' ht' => ?_) fun _ _ _ =>
        acts_appendAudit.bind fun _ _ _ => .pure _)
    · simp only [Provider.tenant]
      rw [getD_modify_self (by simp)]
    · simp [Provider.tenant, getD_modify_of_ne ht']

theorem acts_removeGroup :
    Acts t p (removeGroup limits ctx t featureKey groupKey version actor)
      (FeatureFlags.removeGroup limits ctx t featureKey groupKey version actor) :=
  acts_check_bind fun _ => acts_liveRecord_bind fun ht _ => acts_expectVersion_bind <|
    .ite .rfl (fun _ => acts_fail) fun _ => acts_audited (acts_putRecord ht)

theorem acts_stagedChanges :
    Acts t p (stagedChanges limits ctx t) (FeatureFlags.stagedChanges limits ctx t) :=
  acts_check_bind fun _ => .get_bind (.pure _)

end Methods

section Methods

variable [CustomStrategy κ] [Runtime] {ord : MapOrder}

theorem acts_create :
    Acts t p (create ord limits ctx t definition actor)
      (FeatureFlags.create ord limits ctx t definition actor) := by
  refine acts_check_bind fun _ => acts_check_bind fun _ => ?_
  -- Making the map shows nowhere, and afterwards the tenant has one.
  refine .modify_bind (fun t' => ?_) (.get_bind (.ite .rfl (fun _ => acts_fail) fun _ =>
    .ite .rfl (fun _ => acts_fail) fun _ =>
      acts_audited (acts_putRecord ExtTreeMap.mem_insertIfNew_self)))
  simp [Provider.tenant, getD_insertIfNew]

theorem acts_update :
    Acts t p (update ord limits ctx t definition version actor)
      (FeatureFlags.update ord limits ctx t definition version actor) :=
  acts_check_bind fun _ => acts_check_bind fun _ => acts_liveRecord_bind fun ht _ =>
    acts_expectVersion_bind (acts_audited (acts_putRecord ht))

theorem acts_createGroup :
    Acts t p (createGroup ord limits ctx t group actor)
      (FeatureFlags.createGroup ord limits ctx t group actor) := by
  refine acts_check_bind fun _ => .modify_bind (fun t' => ?_) (.get_bind
    (.ite .rfl (fun _ => acts_fail) fun _ => acts_check_bind fun _ =>
      acts_audited (acts_putGroup ExtTreeMap.mem_insertIfNew_self)))
  simp [Provider.tenant, getD_insertIfNew]

theorem acts_updateGroup :
    Acts t p (updateGroup ord limits ctx t group version actor)
      (FeatureFlags.updateGroup ord limits ctx t group version actor) := by
  refine acts_check_bind fun _ => .get_bind ?_
  dsimp only [tenant_features, tenant_groups]
  cases hcurrent : (p.groups.getD t ∅)[group.key]? with
  | none => exact acts_fail
  | some current =>
    exact acts_expectVersion_bind <| acts_check_bind fun _ =>
      acts_audited (acts_putGroup (mem_of_getElem? hcurrent))

theorem acts_assignGroup :
    Acts t p (assignGroup ord limits ctx t featureKey groupKey version actor)
      (FeatureFlags.assignGroup ord limits ctx t featureKey groupKey version actor) :=
  acts_check_bind fun _ => .get_bind <| .ite .rfl (fun _ => acts_fail) fun _ =>
    acts_liveRecord_bind fun ht _ => acts_expectVersion_bind <|
      .ite .rfl (fun _ => .pure _) fun _ => acts_check_bind fun _ =>
        acts_audited (acts_putRecord ht)

theorem acts_stageUpdate {applyAt : ZonedTime} :
    Acts t p (stageUpdate ord limits ctx t definition version applyAt actor)
      (FeatureFlags.stageUpdate ord limits ctx t definition version applyAt actor) := by
  refine acts_check_bind fun _ => acts_check_bind fun _ => acts_liveRecord_bind fun _ _ =>
    acts_expectVersion_bind <| .get_bind <| .ite .rfl (fun _ => acts_fail) fun _ =>
      .ite .rfl (fun _ => acts_fail) fun _ => ?_
  rw [← bind_assoc]
  exact acts_stage.bind fun _ _ _ => acts_appendAudit.bind fun _ _ _ => .pure _

theorem acts_applyStages {ids : List Nat} :
    Acts t p (applyStages ord limits t ids actor)
      (FeatureFlags.applyStages (κ := κ) ord limits t ids actor) := by
  refine .get_bind <| acts_check_bind fun x => acts_check_bind fun _ =>
    .bind (.set ?_ fun t' ht' => ?_) fun _ _ _ => acts_recordApplied.bind fun _ _ _ => .pure _
  · simp [Provider.tenant, ExtTreeMap.getD_insert_self]
  · simp [Provider.tenant, getD_insert_of_ne ht']

theorem acts_applyStage {id : Nat} :
    Acts t p (applyStage ord limits ctx t id actor)
      (FeatureFlags.applyStage (κ := κ) ord limits ctx t id actor) := by
  refine acts_check_bind fun _ => acts_applyStages.bind fun results _ _ => ?_
  cases results with
  | nil => exact .throw _
  | cons result rest => exact .pure result

theorem acts_applyScheduled {now : Time} :
    Acts t p (applyScheduled ord limits ctx t now actor)
      (FeatureFlags.applyScheduled (κ := κ) ord limits ctx t now actor) :=
  acts_check_bind fun _ => .ite .rfl (fun _ => acts_fail) fun _ => .get_bind <|
    .ite .rfl (fun _ => .pure _) fun _ => acts_applyStages

theorem acts_importDocument {data : Bytes} {options : ImportOptions} :
    Acts t p (importDocument ord limits ctx t data options actor)
      (FeatureFlags.importDocument (κ := κ) ord limits ctx t data options actor) := by
  refine acts_check_bind fun policy => acts_check_bind fun _ => acts_check_bind fun x => ?_
  obtain ⟨definitions, groups⟩ := x
  dsimp only
  cases ctx.laterErr with
  | some e => exact acts_fail
  | none =>
    refine .get_bind <| .ite .rfl (fun _ => .throw _) fun _ => ?_
    dsimp only [tenant_features, tenant_groups, importPlan]
    generalize newSnapshotWithGroups (κ := κ) ord _ _ limits = accepted
    cases accepted with
    | error e => exact .throw _
    | ok _ =>
      refine .ite .rfl (fun _ => .pure _) fun _ => .bind (.set ?_ fun t' ht' => ?_) fun _ _ _ =>
        acts_recordImported.bind fun _ _ _ => .pure _
      · simp [Provider.tenant, ExtTreeMap.getD_insert_self]
      · simp [Provider.tenant, getD_insert_of_ne ht']

theorem acts_exportDocument :
    Acts t p (exportDocument ord limits ctx t)
      (FeatureFlags.exportDocument (κ := κ) ord limits ctx t) :=
  acts_check_bind fun _ => .get_bind (acts_check)

theorem acts_snapshot :
    Acts t p (snapshot ord limits ctx t) (FeatureFlags.snapshot (κ := κ) ord limits ctx t) :=
  acts_check_bind fun _ => .get_bind <| acts_check_bind fun _ => .pure _

/-- A method does what it does on the data of its tenant, and nothing to other tenants. -/
theorem acts_exec {call : Call κ} :
    Acts t p (exec ord limits ctx t call) (call.exec ord limits ctx t) := by
  cases call with
  | create definition actor => exact acts_create.map _
  | update definition version actor => exact acts_update.map _
  | activate key version actor | deactivate key version actor | delete key version actor =>
      exact acts_setLifecycle.map _
  | restore key version actor => exact acts_restore.map _
  | createGroup group actor => exact acts_createGroup.map _
  | updateGroup group version actor => exact acts_updateGroup.map _
  | deleteGroup key version actor => exact acts_deleteGroup.map _
  | assignGroup key groupKey version actor => exact acts_assignGroup.map _
  | removeGroup key groupKey version actor => exact acts_removeGroup.map _
  | stageUpdate definition version applyAt actor => exact acts_stageUpdate.map _
  | applyStage id actor => exact acts_applyStage.map _
  | applyScheduled now actor => exact acts_applyScheduled.map _
  | importDocument data options actor => exact acts_importDocument.map _
  | cleanup options => exact acts_cleanup.map _
  | snapshot => exact acts_snapshot.map _
  | audit key => exact acts_auditEntries.map _
  | stagedChanges => exact acts_stagedChanges.map _
  | exportDocument => exact acts_exportDocument.map _

/-- The provider on its maps returns what the provider with one state for each tenant returns, and
the states of the tenants stay the same. -/
theorem exec_refines {m : MemoryProvider κ} (hm : ∀ t, p.tenant t = m.tenant t) (t : Bytes)
    (call : Call κ) :
    ∃ q, (exec ord limits ctx t call).run p =
        (match (m.exec ord limits ctx t call).1 with
        | .ok response => .ok response q
        | .error failure => .error failure q) ∧
      ∀ t', q.tenant t' = (m.exec ord limits ctx t call).2.tenant t' := by
  have hacts : Acts t p (exec ord limits ctx t call) (call.exec ord limits ctx t) :=
    acts_exec
  have hstates : ∀ q : Provider κ, (∀ t', t' ≠ t → q.tenant t' = p.tenant t') → ∀ t',
      q.tenant t' = MemoryProvider.tenant (m.insert t (q.tenant t)) t' := by
    intro q hother t'
    rw [MemoryProvider.tenant_insert]
    split_ifs with ht
    · rw [ht]
    · rw [hother t' (Ne.symm ht), hm]
  unfold MemoryProvider.exec
  rw [← hm]
  cases hrun : (exec ord limits ctx t call).run p with
  | ok response q =>
    obtain ⟨hpart, hother⟩ := hacts.of_ok hrun
    rw [hpart]
    exact ⟨q, rfl, hstates q hother⟩
  | error failure q =>
    obtain ⟨hpart, hother⟩ := hacts.of_error hrun
    rw [hpart]
    exact ⟨q, rfl, hstates q hother⟩

end Methods

/-! ### Runs -/

section Runs

variable {limits : Limits}

theorem tenant_ne_nil {ctx : Ctx} {max : Int} (h : providerInput ctx t max = .ok ()) : t ≠ [] := by
  rintro rfl
  unfold providerInput at h
  cases hctx : ctx.err <;> simp [hctx, rejectIf] at h

variable [CustomStrategy κ] [Runtime]

/-- What the operations of a run on a new provider return. -/
def results (limits : Limits) (requests : List (TenantRequest κ)) :
    List (TenantRequest κ × Except Failure (Response κ)) :=
  outcomes (TenantRequest.exec limits) requests newMemoryProvider

/-- What the operations for a tenant return is what they return on the tenant's data alone. -/
theorem results_filter (requests : List (TenantRequest κ)) (t : Bytes) :
    (results limits requests).filter (fun r => r.1.tenant = t) =
      outcomes (fun r : TenantRequest κ => r.call.exec r.ord limits r.ctx r.tenant)
        (requests.filter fun r => r.tenant = t) (newMemoryProvider.tenant t) :=
  outcomes_filter (fun t p => Provider.tenant p t) TenantRequest.tenant
    (fun _ _ => acts_exec) t requests newMemoryProvider

theorem run_exec_eq_snapshot {ord : MapOrder} {ctx : Ctx} {call : Call κ} {snap : Snapshot κ}
    {q : Provider κ} (h : (exec ord limits ctx t call).run p = .ok (.snapshot snap) q) :
    snap.tenant = t ∧ t ≠ [] := by
  have hcall := (acts_exec.of_ok h).1
  cases call with
  | snapshot =>
    obtain ⟨snap', hsnap, heq⟩ := run_map_eq_ok.mp hcall
    cases heq
    simp only [FeatureFlags.snapshot, run_bind_eq_ok, FeatureFlags.run_check_eq_ok,
      EStateM.run_get, EStateM.run_pure, EStateM.Result.ok.injEq] at hsnap
    obtain ⟨_, _, ⟨hinput, rfl⟩, _, _, ⟨rfl, rfl⟩, built, _, -, rfl, -⟩ := hsnap
    exact ⟨rfl, tenant_ne_nil hinput⟩
  | _ =>
    obtain ⟨_, _, heq⟩ := run_map_eq_ok.mp hcall
    cases heq

end Runs

end Provider

section NonInterference

variable {κ : Type} [CustomStrategy κ] [Runtime]

/-- A bound snapshot refuses the contexts of other tenants before it looks at anything else. -/
theorem evaluate_tenantMismatch {snap : Snapshot κ} (hbound : snap.tenant ≠ []) {context : Context}
    (hother : context.tenant ≠ snap.tenant) (ord : MapOrder) (key : Bytes) (expected : ValueType) :
    ∃ e, snap.evaluate ord key expected context = .error e ∧ e.is .tenantMismatch = true := by
  unfold Snapshot.evaluate
  rw [rejectIf, if_pos ⟨hbound, hother⟩]
  exact ⟨_, rfl, rfl⟩

/-- Two runs of a provider with the same operations for a tenant return the same for each of them,
whatever they do for other tenants, and the snapshots of a tenant refuse the contexts of others. -/
theorem tenants_do_not_interfere (limits : Limits) (t : Bytes) :
    (∀ run run' : List (TenantRequest κ),
      run.filter (fun r => r.tenant = t) = run'.filter (fun r => r.tenant = t) →
      (Provider.results limits run).filter (fun r => r.1.tenant = t) =
        (Provider.results limits run').filter (fun r => r.1.tenant = t)) ∧
    ∀ (run : List (TenantRequest κ)) (r : TenantRequest κ) (snap : Snapshot κ),
      r.tenant = t →
      (r, .ok (.snapshot snap)) ∈ Provider.results limits run →
      ∀ (ord : MapOrder) (key : Bytes) (expected : ValueType) (context : Context),
        context.tenant ≠ t →
        ∃ e, snap.evaluate ord key expected context = .error e ∧ e.is .tenantMismatch = true := by
  refine ⟨fun run run' hsame => ?_, fun run r snap ht hr ord key expected context hother => ?_⟩
  · rw [Provider.results_filter, Provider.results_filter, hsame]
  · obtain ⟨p, q, hrun⟩ := exists_run_of_mem_outcomes hr
    obtain ⟨hbound, hne⟩ := Provider.run_exec_eq_snapshot hrun
    rw [← ht, ← hbound] at hother
    exact evaluate_tenantMismatch (hbound ▸ hne) hother ord key expected

end NonInterference

/-- Operations for the tenant `t`, with or without operations for the tenant `u` in between: `u` has
a feature of the same name, and one of its operations fails. -/
def withNeighbour (neighbour : Bool) : List (TenantRequest Empty) :=
  let request (tenant : Bytes) (call : Call Empty) : TenantRequest Empty :=
    ⟨tenant, .sorted, .background, call⟩
  let besides (call : Call Empty) := if neighbour then [request (str "u") call] else []
  besides (.create (onFor (str "a") [str "x"]) []) ++
    [request (str "t") (.create (onFor (str "a") []) [])] ++
    besides (.delete (str "a") 2 []) ++ besides (.delete (str "a") 1 []) ++
    [request (str "t") .snapshot]

/-- The snapshot that a method returned. -/
def returnedSnapshot {κ : Type} : Except Failure (Response κ) → Option (Snapshot κ)
  | .ok (.snapshot snap) => some snap
  | _ => none

/-- The tenant `t` sees nothing of `u`, and its snapshot refuses the contexts of `u`. -/
theorem tenants_do_not_interfere_neighbour :
    letI := unaryRuntime
    let results := Provider.results defaultLimits (withNeighbour true)
    (results.filter fun r => r.1.tenant = str "t") =
      (Provider.results defaultLimits (withNeighbour false)).filter
        (fun r => r.1.tenant = str "t") ∧
    ∃ r snap, r.1.tenant = str "t" ∧ r ∈ results ∧ returnedSnapshot r.2 = some snap ∧
      ∀ (key : Bytes) (context : Context), context.tenant = str "u" →
        ∃ e, snap.evaluate .sorted key .boolean context = .error e ∧
          e.is .tenantMismatch = true := by
  let _ := unaryRuntime
  intro results
  obtain ⟨hsame, hbound⟩ := tenants_do_not_interfere (κ := Empty) defaultLimits (str "t")
  refine ⟨hsame _ _ rfl, ?_⟩
  have hany : (results.any fun r => r.1.tenant = str "t" && (returnedSnapshot r.2).isSome) =
      true := by
    decide +kernel
  obtain ⟨r, hr, hsome⟩ := List.any_eq_true.mp hany
  rw [Bool.and_eq_true, decide_eq_true_eq, Option.isSome_iff_exists] at hsome
  obtain ⟨ht, snap, hsnap⟩ := hsome
  refine ⟨r, snap, ht, hr, hsnap, fun key context hu => ?_⟩
  have hok : r.2 = .ok (.snapshot snap) := by
    unfold returnedSnapshot at hsnap
    split at hsnap
    · rename_i heq
      rw [heq, Option.some.inj hsnap]
    · cases hsnap
  refine hbound (withNeighbour true) r.1 snap ht (hok ▸ hr) .sorted key .boolean context ?_
  rw [hu]
  decide

end FeatureFlags
