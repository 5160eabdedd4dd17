import FeatureFlags.Equiv.Runs

/-!
# Staged changes

`StageUpdate` numbers the changes it stores.  `ApplyStage` and `ApplyScheduled` take them out and
apply them, `Cleanup` discards them.

* `TenantState.Staging`: the invariant of the store.
* `Event.Returns.staging`: every operation keeps it.  `Cleanup` drops the changes to the features it
  purges (`cleanup_retains`), so no change outlives the record it was staged against.
* `staging_invariant`: whole runs.  No number is given twice, and a change is applied once at most,
  to the version it was staged against.
-/

namespace FeatureFlags

open Go Lib

variable {κ : Type}

/-- What holds of the staged changes of a tenant. -/
structure TenantState.Staging (limits : Limits) (s : TenantState κ) : Prop where
  room : (s.staged.size : Int) ≤ limits.maxStagedChanges
  numbered : ∀ (id : Nat) (change : StagedChange κ), s.staged[id]? = some change →
    change.id = id ∧ 1 ≤ id ∧ id ≤ s.nextStage
  distinct : s.StagesDistinct
  retained : ∀ (id : Nat) (change : StagedChange κ), s.staged[id]? = some change →
    ∃ record : MemoryRecord κ, s.features[change.definition.key]? = some record ∧
      change.expectedVersion ≤ record.definition.version

/-! ### One operation -/

variable {id : Nat}

section Operations

variable {ord : MapOrder} {limits : Limits} {ctx : Ctx}
  {tenant : Bytes} {call : Call κ} {s t : TenantState κ}

theorem flag_purgedKeys (options : CleanupOptions) (records : GoMap (MemoryRecord κ))
    (key : Bytes) :
    flag (purgedKeys options records) key = true ↔ key ∈ purgedKeys options records := by
  unfold flag purgedKeys
  split_ifs
  · rw [Std.ExtTreeMap.getD_eq_getD_getElem?, Std.ExtTreeMap.mem_iff_isSome_getElem?,
      Std.ExtTreeMap.getElem?_filterMap']
    cases records[key]? with
    | none => simp
    | some record => cases hd : record.deleted <;> simp [hd]
  · simp

variable [CustomStrategy κ] [Runtime]

/-- Only `StageUpdate` adds a change. -/
theorem Effect.staged (h : Effect ord limits tenant call s t) :
    (t.nextStage = s.nextStage ∧ ∀ (id : Nat) (change : StagedChange κ),
      t.staged[id]? = some change → s.staged[id]? = some change) ∨
    ∃ (definition : Definition κ) (record : MemoryRecord κ) (applyAt : ZonedTime) (actor : Bytes),
      s.Live definition.key record ∧ (s.staged.size : Int) < limits.maxStagedChanges ∧
      (∀ (id : Nat) (change : StagedChange κ), s.staged[id]? = some change →
        change.definition.key ≠ definition.key) ∧
      t = s.stage limits ⟨s.nextStage + 1, cloneDefinition definition,
        record.definition.version, applyAt, actor⟩ := by
  cases h with
  | stageUpdate valid live room fresh => exact .inr ⟨_, _, _, _, live, room, fresh, rfl⟩
  | applied =>
    refine .inl ⟨TenantState.struck_nextStage _ _ _ _, fun id change hchange => ?_⟩
    have hbefore := struck_staged hchange
    exact hbefore
  | imported =>
    refine .inl ⟨TenantState.imported_nextStage _ _ _ _, fun id change hchange => ?_⟩
    rwa [TenantState.imported_staged] at hchange
  | cleanup _ _ _ staged nextStage => exact .inl ⟨nextStage, staged⟩
  | _ => exact .inl ⟨rfl, fun _ _ hchange => hchange⟩

omit [CustomStrategy κ] [Runtime] in
theorem stage_lookup (change : StagedChange κ) (s : TenantState κ) (id : Nat) :
    (s.stage limits change).staged[id]? =
      if change.id = id then some change else s.staged[id]? := by
  show (s.staged.insert change.id change)[id]? = _
  rw [Std.ExtTreeMap.getElem?_insert]
  simp only [Std.compare_eq_iff_eq]

variable {change : StagedChange κ}

omit [CustomStrategy κ] [Runtime] in
/-- `Cleanup` keeps the record of every change that it keeps. -/
theorem cleanup_retains {options : CleanupOptions} {report : CleanupReport}
    (h : (cleanup limits ctx tenant options).run s = .ok report t)
    (hchange : t.staged[id]? = some change) :
    t.features[change.definition.key]? = s.features[change.definition.key]? := by
  obtain ⟨-, audit, -, rfl⟩ := run_cleanup_eq_ok h
  rw [Std.ExtTreeMap.getElem?_filter', Option.filter_eq_some_iff, decide_eq_true_eq] at hchange
  have hkept : change.definition.key ∉ purgedKeys options s.features := fun hmem =>
    hchange.2 (.inl ((flag_purgedKeys options s.features _).mpr hmem))
  rw [Std.ExtTreeMap.getElem?_filter']
  cases s.features[change.definition.key]? with
  | none => rfl
  | some record => exact Option.filter_some_pos (decide_eq_true hkept)

variable {e : Event κ}

/-- The record of a change that is still staged after a call was advanced by it. -/
theorem Event.Returns.advance_staged (h : e.Returns limits tenant)
    (distinct : e.before.StagesDistinct) (hchange : e.after.staged[id]? = some change) :
    Advance e.before.features[change.definition.key]? e.after.features[change.definition.key]? := by
  rcases h.effect with ⟨⟨response, hok⟩, heffect⟩ | hsame
  · cases hpurge : e.call.purges with
    | false => exact heffect.advance distinct hpurge _
    | true =>
      obtain ⟨options, hcall⟩ : ∃ options, e.call = .cleanup options := by
        cases hcall : e.call with
        | cleanup options => exact ⟨options, rfl⟩
        | _ =>
          rw [hcall] at hpurge
          cases hpurge
      unfold Event.Returns at h
      rw [hok, hcall] at h
      simp only [Call.exec, run_map_eq_ok] at h
      obtain ⟨report, hrun, -⟩ := h
      rw [cleanup_retains hrun hchange]
      exact .refl _
  · rw [hsame]
    exact .refl _

omit [CustomStrategy κ] [Runtime] in
theorem TenantState.Staging.stage (hs : s.Staging limits) {record : MemoryRecord κ}
    {change : StagedChange κ} (live : s.Live change.definition.key record)
    (hid : change.id = s.nextStage + 1)
    (hversion : change.expectedVersion = record.definition.version)
    (room : (s.staged.size : Int) < limits.maxStagedChanges)
    (fresh : ∀ (id : Nat) (c : StagedChange κ), s.staged[id]? = some c →
      c.definition.key ≠ change.definition.key) : (s.stage limits change).Staging limits where
  room := by
    have hsize : (s.stage limits change).staged.size ≤ s.staged.size + 1 :=
      Std.ExtTreeMap.size_insert_le
    omega
  numbered id c hc := by
    have hnext : (s.stage limits change).nextStage = s.nextStage + 1 := hid
    rw [stage_lookup] at hc
    split_ifs at hc with hkey
    · cases hc
      omega
    · have hbefore := hs.numbered id c hc
      omega
  distinct := hs.distinct.stage fresh
  retained id c hc := by
    rw [stage_lookup] at hc
    split_ifs at hc with hkey
    · cases hc
      exact ⟨record, live.1, hversion.le⟩
    · exact hs.retained id c hc

/-- Every call keeps the invariant. -/
theorem Event.Returns.staging (h : e.Returns limits tenant) (hs : e.before.Staging limits) :
    e.after.Staging limits := by
  rcases h.effect with ⟨-, heffect⟩ | hsame
  · rcases heffect.staged with ⟨hnext, hsub⟩ | ⟨definition, record, applyAt, actor, live, room,
      fresh, hafter⟩
    · refine ⟨?_, fun id change hchange => ?_, hs.distinct.mono hsub, fun id change hchange => ?_⟩
      · exact (Int.ofNat_le.mpr (size_le_of_lookup hsub)).trans hs.room
      · rw [hnext]
        exact hs.numbered id change (hsub id change hchange)
      · obtain ⟨record, hrecord, hversion⟩ := hs.retained id change (hsub id change hchange)
        have hadvance := h.advance_staged hs.distinct hchange
        rw [hrecord] at hadvance
        obtain ⟨new, hnew, hle⟩ := hadvance.exists_le
        exact ⟨new, hnew, hversion.trans hle⟩
    · rw [hafter]
      exact hs.stage live rfl rfl room fresh
  · rw [hsame]
    exact hs

/-! ### What is issued and what is applied -/

/-- The call returns a change that it has staged. -/
def Event.Issues (e : Event κ) (change : StagedChange κ) : Prop :=
  e.outcome = .ok (.staged change)

/-- The call applies the staged change `id`. -/
def Event.Applies (e : Event κ) (id : Nat) : Prop :=
  e.Succeeds ∧ match e.call with
    | .applyStage id' _ => id' = id
    | .applyScheduled now _ => id ∈ dueStages now e.before.staged
    | _ => False

/-- A change is issued under the next number, against the version of a live feature. -/
theorem Event.Returns.issues (h : e.Returns limits tenant) (hissues : e.Issues change) :
    ∃ (stored : StagedChange κ) (record : MemoryRecord κ), change = cloneStagedChange stored ∧
      e.before.Live stored.definition.key record ∧
      stored.expectedVersion = record.definition.version ∧
      stored.id = e.before.nextStage + 1 ∧ e.after = e.before.stage limits stored := by
  unfold Event.Returns at h
  rw [hissues] at h
  cases hcall : e.call with
  | stageUpdate definition version applyAt actor =>
    simp only [hcall, Call.exec, run_map_eq_ok] at h
    obtain ⟨result, hrun, hresult⟩ := h
    obtain ⟨record, -, live, hversion, -, -, rfl, hafter⟩ := run_stageUpdate_eq_ok hrun
    cases hresult
    exact ⟨_, record, rfl, live, hversion.symm, rfl, hafter⟩
  | _ =>
    simp only [hcall, Call.exec, run_map_eq_ok] at h
    obtain ⟨result, -, hresult⟩ := h
    cases hresult

omit [Runtime] in
/-- The loop of `applyStagesLocked` finds the record of each change at the version that it was
staged against, and replaces it. -/
theorem applied_of_foldlM {staged} {ids : List Nat}
    {m m' : GoMap (MemoryRecord κ) × List (Definition κ)}
    (distinct : ∀ i j key, StagedFor staged i key → StagedFor staged j key → i = j)
    (nodup : ids.Nodup) (h : ids.foldlM (applyStageStep tenant staged) m = .ok m')
    (hid : id ∈ ids) :
    ∃ (change : StagedChange κ) (record : MemoryRecord κ), staged[id]? = some change ∧
      m.1[change.definition.key]? = some record ∧ record.deleted = false ∧
      record.definition.version = change.expectedVersion ∧
      m'.1[change.definition.key]? = some ⟨{ cloneDefinition change.definition with
        version := change.expectedVersion + 1 }, false⟩ := by
  induction ids generalizing m with
  | nil => simp at hid
  | cons i ids ih =>
    rw [List.nodup_cons] at nodup
    rw [List.foldlM_cons, bind_eq_ok] at h
    obtain ⟨m₁, hstep, hrest⟩ := h
    obtain ⟨change, record, hchange, hrecord, hlive, hversion, hm₁⟩ := applyStageStep_eq_ok hstep
    -- only `i` is staged for the feature that it replaces
    have hother : ∀ j ∈ ids, ¬ StagedFor staged j change.definition.key := fun j hj hfor =>
      nodup.1 (distinct i j _ ⟨change, hchange, rfl⟩ hfor ▸ hj)
    rcases List.mem_cons.mp hid with rfl | hid
    · refine ⟨change, record, hchange, hrecord, hlive, hversion, ?_⟩
      rw [(Writes.of_foldlM hrest).frame (fun m (key : Bytes) => m.1[key]?) applyStageStep_framed
        hother, hm₁, GoMap.lookup_insert_self, hversion]
    · obtain ⟨change', record', hchange', hrecord', hrest'⟩ := ih nodup.2 hrest hid
      refine ⟨change', record', hchange', ?_, hrest'⟩
      rwa [hm₁, GoMap.lookup_insert_ne] at hrecord'
      exact fun hkey => hother id hid ⟨change', hchange', hkey.symm⟩

omit [CustomStrategy κ] [Runtime] in
theorem struck_of_mem {actor : Bytes} {results : List (Nat × Definition κ)}
    (hid : id ∈ results.map Prod.fst) : (s.struck limits actor results).staged[id]? = none := by
  induction results generalizing s with
  | nil => simp at hid
  | cons x rest ih =>
    rcases List.mem_cons.mp hid with rfl | hid
    · rw [TenantState.struck, Option.eq_none_iff_forall_ne_some]
      intro change hchange
      have hbefore := struck_staged hchange
      simp at hbefore
    · exact ih hid

variable (h : e.Returns limits tenant)
include h

/-- A change is applied to a live feature of the version it was staged against, and struck off. -/
theorem Event.Returns.applies (distinct : e.before.StagesDistinct) (happlies : e.Applies id) :
    ∃ (change : StagedChange κ) (record : MemoryRecord κ), e.before.staged[id]? = some change ∧
      e.before.Live change.definition.key record ∧
      record.definition.version = change.expectedVersion ∧
      e.after.features[change.definition.key]? = some ⟨{ cloneDefinition change.definition with
        version := change.expectedVersion + 1 }, false⟩ ∧ e.after.staged[id]? = none := by
  obtain ⟨⟨response, hok⟩, hcall⟩ := happlies
  unfold Event.Returns at h
  rw [hok] at h
  have heffect := effect_of_exec h
  clear h
  obtain ⟨ord, ctx, call, before, outcome, after⟩ := e
  dsimp only at heffect hcall hok distinct ⊢
  cases heffect with
  | applied due replaced valid =>
    rename_i ids actor records results snapshot
    have hid : id ∈ ids := by
      rcases due with ⟨id', rfl, rfl⟩ | ⟨now, rfl, rfl⟩
      · exact List.mem_singleton.mpr hcall.symm
      · exact hcall
    have nodup : ids.Nodup := by
      rcases due with ⟨id', -, rfl⟩ | ⟨now, -, rfl⟩
      · exact List.nodup_singleton id'
      · exact nodup_dueStages now before.staged
    obtain ⟨change, record, hchange, hrecord, hlive, hversion, hafter⟩ :=
      applied_of_foldlM distinct.stagedFor nodup replaced hid
    rw [cloneMemoryRecords_lookup, Option.map_eq_some_iff] at hrecord
    obtain ⟨old, hold, rfl⟩ := hrecord
    refine ⟨change, old, hchange, ⟨hold, hlive⟩, hversion, ?_, struck_of_mem ?_⟩
    · rw [TenantState.struck_features]
      exact hafter
    · have hlen := length_applyStages replaced
      rw [List.map_fst_zip (by simpa using hlen.ge)]
      exact hid
  | nothingDue none =>
    dsimp only at hcall
    rw [none] at hcall
    simp at hcall
  | read reads =>
    rcases reads with rfl | ⟨k, rfl⟩ | rfl | rfl <;> exact hcall.elim
  | _ => exact hcall.elim

/-- Stage numbers do not fall. -/
theorem Event.Returns.nextStage_le : e.before.nextStage ≤ e.after.nextStage := by
  rcases h.effect with ⟨-, heffect⟩ | hsame
  · rcases heffect.staged with ⟨hnext, -⟩ | ⟨_, _, _, _, -, -, -, hafter⟩
    · exact hnext.ge
    · rw [hafter]
      exact Nat.le_succ _
  · rw [hsame]

/-- A number that was issued before is not used again. -/
theorem Event.Returns.staged_of_le (hid : id ≤ e.before.nextStage)
    (hchange : e.after.staged[id]? = some change) : e.before.staged[id]? = some change := by
  rcases h.effect with ⟨-, heffect⟩ | hsame
  · rcases heffect.staged with ⟨-, hsub⟩ | ⟨_, _, _, _, -, -, -, hafter⟩
    · exact hsub id change hchange
    · rwa [hafter, stage_lookup, if_neg (Nat.ne_of_gt (Nat.lt_succ_of_le hid))] at hchange
  · rwa [hsame] at hchange

end Operations

/-! ### Runs -/

section Runs

variable [CustomStrategy κ] [Runtime] {limits : Limits} {tenant : Bytes} {events : List (Event κ)}
  {s : TenantState κ}

variable {i j : Nat} {a b : Event κ} {change : StagedChange κ}

section

variable (run : Run limits tenant events s)
include run

theorem Run.staging (hmax : 0 ≤ limits.maxStagedChanges)
    {k : Nat} (hk : k ≤ events.length) : (stateAt events s k).Staging limits := by
  refine run.always (TenantState.Staging limits) ?_
    (fun e he => (run.returns_of_mem he).staging) hk
  have hnone : ∀ (id : Nat) (change : StagedChange κ),
      (TenantState.empty : TenantState κ).staged[id]? ≠ some change := by
    simp [TenantState.empty]
  exact ⟨hmax, fun id change h => absurd h (hnone id change),
    fun i j c d h => absurd h (hnone i c), fun id change h => absurd h (hnone id change)⟩

theorem Run.issues_lt (hij : i < j) (ha : events[i]? = some a)
    (hb : events[j]? = some b) {change' : StagedChange κ} (hissues : a.Issues change)
    (hissues' : b.Issues change') : change.id < change'.id := by
  obtain ⟨stored, _, rfl, -, -, hid, hafter⟩ :=
    (run.returns_of_mem (List.mem_of_getElem? ha)).issues hissues
  obtain ⟨stored', _, rfl, -, -, hid', -⟩ :=
    (run.returns_of_mem (List.mem_of_getElem? hb)).issues hissues'
  have hle : stored.id ≤ (stateAt events s j).nextStage := by
    refine run.between (fun t => stored.id ≤ t.nextStage) hij
      (List.getElem?_eq_some_iff.mp hb).1.le ?_ fun k e _ _ hk hle => ?_
    · rw [run.stateAt_succ ha, hafter]
      exact le_rfl
    · exact hle.trans (run.returns_of_mem (List.mem_of_getElem? hk)).nextStage_le
  rw [stateAt_of_getElem? hb] at hle
  show stored.id < stored'.id
  omega

theorem Run.applies_once (hmax : 0 ≤ limits.maxStagedChanges)
    (hij : i < j) (ha : events[i]? = some a) (hb : events[j]? = some b) (happlies : a.Applies id) :
    ¬ b.Applies id := by
  intro happlies'
  have hstaging := fun (e : Event κ) (k : Nat) (hk : events[k]? = some e) =>
    stateAt_of_getElem? hk s ▸ run.staging hmax (List.getElem?_eq_some_iff.mp hk).1.le
  have hreturns := fun (e : Event κ) (k : Nat) (hk : events[k]? = some e) =>
    run.returns_of_mem (List.mem_of_getElem? hk)
  obtain ⟨change, _, hchange, -, -, -, hstruck⟩ :=
    (hreturns a i ha).applies (hstaging a i ha).distinct happlies
  obtain ⟨change', _, hchange', -⟩ :=
    (hreturns b j hb).applies (hstaging b j hb).distinct happlies'
  -- the number stays free: it is not above the last one issued
  have hfree : id ≤ (stateAt events s j).nextStage ∧ (stateAt events s j).staged[id]? = none := by
    refine run.between (fun t => id ≤ t.nextStage ∧ t.staged[id]? = none) hij
      (List.getElem?_eq_some_iff.mp hb).1.le ?_ fun k e _ _ hk hfree => ?_
    · rw [run.stateAt_succ ha]
      have hle := ((hstaging a i ha).numbered id change hchange).2.2
      exact ⟨hle.trans (hreturns a i ha).nextStage_le, hstruck⟩
    · refine ⟨hfree.1.trans (hreturns e k hk).nextStage_le, ?_⟩
      rw [Option.eq_none_iff_forall_ne_some]
      intro c hc
      have hbefore := (hreturns e k hk).staged_of_le hfree.1 hc
      rw [hfree.2] at hbefore
      cases hbefore
  rw [stateAt_of_getElem? hb, hchange'] at hfree
  cases hfree.2

/-- A change is applied to the record that it was staged against. -/
theorem Run.applies_issued (hmax : 0 ≤ limits.maxStagedChanges)
    (hij : i < j) (ha : events[i]? = some a) (hb : events[j]? = some b) (hissues : a.Issues change)
    (happlies : b.Applies change.id) :
    ∃ (stored : StagedChange κ) (old new : MemoryRecord κ), change = cloneStagedChange stored ∧
      b.before.staged[change.id]? = some stored ∧
      a.before.Live stored.definition.key old ∧ b.before.Live stored.definition.key new ∧
      new.definition.version = old.definition.version ∧ (PlainStrategies κ → new = old) := by
  have hstaging := fun (e : Event κ) (k : Nat) (hk : events[k]? = some e) =>
    stateAt_of_getElem? hk s ▸ run.staging hmax (List.getElem?_eq_some_iff.mp hk).1.le
  have hreturns := fun (e : Event κ) (k : Nat) (hk : events[k]? = some e) =>
    run.returns_of_mem (List.mem_of_getElem? hk)
  obtain ⟨stored, old, rfl, live, hversion, hid, hafter⟩ := (hreturns a i ha).issues hissues
  obtain ⟨change', new, hchange', live', hversion', -⟩ :=
    (hreturns b j hb).applies (hstaging b j hb).distinct happlies
  have hkept : stored.id ≤ (stateAt events s j).nextStage ∧
      ∀ c : StagedChange κ, (stateAt events s j).staged[stored.id]? = some c → c = stored ∧
        ∃ record, (stateAt events s j).features[stored.definition.key]? = some record ∧
          (PlainStrategies κ → Onward (fun r => r.definition.version) old record) := by
    refine run.between (fun t => stored.id ≤ t.nextStage ∧
      ∀ c : StagedChange κ, t.staged[stored.id]? = some c → c = stored ∧
        ∃ record, t.features[stored.definition.key]? = some record ∧
          (PlainStrategies κ → Onward (fun r => r.definition.version) old record)) hij
      (List.getElem?_eq_some_iff.mp hb).1.le ?_ fun k e _ _ hk hkept => ?_
    · rw [run.stateAt_succ ha, hafter]
      refine ⟨le_rfl, fun c hc => ?_⟩
      rw [stage_lookup, if_pos rfl, Option.some.injEq] at hc
      exact ⟨hc.symm, old, live.1, fun _ => .refl old⟩
    · refine ⟨hkept.1.trans (hreturns e k hk).nextStage_le, fun c hc => ?_⟩
      obtain ⟨rfl, record, hrecord, honward⟩ :=
        hkept.2 c ((hreturns e k hk).staged_of_le hkept.1 hc)
      have hadvance := (hreturns e k hk).advance_staged (hstaging e k hk).distinct hc
      rw [hrecord] at hadvance
      obtain ⟨record', hrecord', -⟩ := hadvance.exists_le
      rw [hrecord'] at hadvance
      exact ⟨rfl, record', hrecord', fun hκ => (honward hκ).trans (hadvance.onward hκ)⟩
  rw [stateAt_of_getElem? hb] at hkept
  obtain ⟨rfl, record, hrecord, honward⟩ := hkept.2 change' hchange'
  obtain rfl : record = new := Option.some.inj (hrecord.symm.trans live'.1)
  have heq := hversion'.trans hversion
  exact ⟨change', old, record, rfl, hchange', live, live', heq,
    fun hκ => ((honward hκ).2 heq.symm).symm⟩

end

/-- In every state of a run the staged changes are within the limit, stored under their own numbers,
for different features, each of which has a record of the expected version or a later one.  The
numbers that are issued grow, a change is applied once at most, and only to the version of the
feature that it was staged against. -/
theorem staging_invariant (run : Run limits tenant events s) (hmax : 0 ≤ limits.maxStagedChanges) :
    (∀ k ≤ events.length, (stateAt events s k).Staging limits) ∧
    (∀ (i j : Nat) (a b : Event κ), i < j → events[i]? = some a → events[j]? = some b →
      (∀ change change', a.Issues change → b.Issues change' → change.id < change'.id) ∧
      (∀ id, a.Applies id → ¬ b.Applies id) ∧
      ∀ change, a.Issues change → b.Applies change.id →
        ∃ (stored : StagedChange κ) (old new : MemoryRecord κ),
          change = cloneStagedChange stored ∧
          b.before.staged[change.id]? = some stored ∧
          a.before.Live stored.definition.key old ∧
          b.before.Live stored.definition.key new ∧
          new.definition.version = old.definition.version ∧
          (PlainStrategies κ → new = old)) ∧
    ∀ e ∈ events, ∀ id, e.Applies id →
      ∃ (change : StagedChange κ) (record : MemoryRecord κ),
        e.before.staged[id]? = some change ∧
        e.before.Live change.definition.key record ∧
        record.definition.version = change.expectedVersion ∧
        e.after.features[change.definition.key]? = some ⟨{ cloneDefinition change.definition with
          version := change.expectedVersion + 1 }, false⟩ ∧
        e.after.staged[id]? = none := by
  refine ⟨fun k hk => run.staging hmax hk, fun i j a b hij ha hb => ⟨?_, ?_, ?_⟩,
    fun e he id happlies => ?_⟩
  · exact fun change change' => run.issues_lt hij ha hb
  · exact fun id => run.applies_once hmax hij ha hb
  · exact fun change => run.applies_issued hmax hij ha hb
  · obtain ⟨k, hk, hbefore, -⟩ := run.exists_stateAt he
    have hstaging := run.staging hmax hk.le
    rw [hbefore] at hstaging
    exact (run.returns_of_mem he).applies hstaging.distinct happlies

end Runs

/-- A change is staged and applied, and another one is staged for the new version. -/
def stageTwice : List (Call Empty) :=
  [.create (onFor (str "a") []) [], .stageUpdate (onFor (str "a") []) 1 .zero [],
    .applyStage 1 [], .stageUpdate (onFor (str "a") []) 2 .zero [], .applyStage 1 []]

def stagesTwice [Runtime] : List (Event Empty) :=
  performAll defaultLimits (str "t") .sorted .background stageTwice .empty

/-- The second change has the number 2, and the first is not applied again. -/
theorem staging_invariant_twice :
    letI := unaryRuntime
    let events := stagesTwice
    let s := Run.lastState events
    Run defaultLimits (str "t") events s ∧ s.staged.keys = [2] ∧
      (∀ k ≤ events.length, (stateAt events s k).Staging defaultLimits) ∧
      ∀ (i j : Nat) (a b : Event Empty), i < j → events[i]? = some a → events[j]? = some b →
        ∀ id, a.Applies id → ¬ b.Applies id := by
  let _ := unaryRuntime
  have run := run_of_calls defaultLimits (str "t") .sorted .background stageTwice
    (by decide +kernel)
  have h := staging_invariant run (by decide)
  exact ⟨run, by decide +kernel, h.1, fun i j a b hij ha hb => (h.2.1 i j a b hij ha hb).2.1⟩

end FeatureFlags
