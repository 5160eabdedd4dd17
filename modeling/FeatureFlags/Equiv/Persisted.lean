import FeatureFlags.Durable
import FeatureFlags.Equiv.Document
import FeatureFlags.Equiv.Stored

/-!
# Persisted tenants

What `unmarshalTenantState` makes of the document that `marshalTenantState` has written: the
features and groups with sorted lists and compacted values, if their strings are valid UTF-8.

* `TenantStateWire.norm`: what comes back of the structs.
* `restores_of_unmarshal`: what comes back of a tenant.
-/

namespace FeatureFlags

open Go Codec

/-! ### The structs of a document -/

section Structs

theorem AuditAction.label_ofLabel (label : Bytes) : (AuditAction.ofLabel label).label = label := by
  by_cases h : label ∈ auditLabels
  · have hlabels : ∀ l ∈ auditLabels, (AuditAction.ofLabel l).label = l := by decide
    exact hlabels label h
  · rw [AuditAction.ofLabel, dif_pos h, AuditAction.label]

variable [Runtime]

/-- A `tenantRecordWire` as it comes back. -/
def TenantRecordWire.norm (w : TenantRecordWire) : TenantRecordWire :=
  ⟨w.definition.norm, w.deleted⟩

/-- An `AuditEntry` as it comes back. -/
def AuditEntry.norm (e : AuditEntry) : AuditEntry :=
  ⟨sanitize e.featureKey, .ofLabel (sanitize e.action.label), sanitize e.actor, e.version⟩

/-- A `stagedChangeWire` as it comes back. -/
def StagedChangeWire.norm (w : StagedChangeWire) : StagedChangeWire :=
  ⟨w.id, w.definition.norm, w.expectedVersion, normTime w.applyAt, sanitize w.actor⟩

/-- A `tenantStateWire` as it comes back. -/
def TenantStateWire.norm (w : TenantStateWire) : TenantStateWire where
  version := w.version
  records := normSlice TenantRecordWire.norm w.records
  groups := normSlice GroupWire.norm w.groups
  audit := normSlice AuditEntry.norm w.audit
  staged := normSlice StagedChangeWire.norm w.staged
  nextStage := w.nextStage

theorem TenantRecordWire.readsBack :
    TenantRecordWire.codec.ReadsBack false TenantRecordWire.norm := by
  have hdeleted : Codec.bool.ReadsBack true id := by
    refine ⟨_, lawful_bool.omitted fun b hb => ⟨trivial, ?_⟩⟩
    cases b with
    | false => rfl
    | true => cases hb
  have hfields := Record.ReadsBack.cons "definition" DefinitionWire.readsBack <|
    .cons "deleted" hdeleted .nil
  exact (hfields.struct (by decide +kernel) fun _ => rfl).congr fun w => rfl

omit [Runtime] in
theorem AuditEntry.readsBack : AuditEntry.codec.ReadsBack false AuditEntry.norm := by
  have hversion : uint64.ReadsBack false id := ⟨_, lawful_uint _⟩
  have hfields := Record.ReadsBack.cons "FeatureKey" .string <| .cons "Action" .string <|
    .cons "Actor" .string <| .cons "Version" hversion .nil
  refine (hfields.struct (by decide +kernel) fun a => ?_).congr fun w => rfl
  obtain ⟨featureKey, action, actor, version, -⟩ := a
  simp only [AuditAction.label_ofLabel]

theorem StagedChangeWire.readsBack :
    StagedChangeWire.codec.ReadsBack false StagedChangeWire.norm := by
  have hnumber : uint64.ReadsBack false fun n => n := ⟨_, lawful_uint _⟩
  have htime : Codec.time.ReadsBack true normTime :=
    ⟨_, lawful_time.omitted nofun⟩
  have hfields := Record.ReadsBack.cons "id" hnumber <|
    .cons "definition" DefinitionWire.readsBack <| .cons "expected_version" hnumber <|
    .cons "apply_at" htime <| .cons "actor" .string_omitted .nil
  exact (hfields.struct (by decide +kernel) fun _ => rfl).congr fun w => rfl

theorem TenantStateWire.readsBack : TenantStateWire.codec.ReadsBack false TenantStateWire.norm := by
  have hfields := Record.ReadsBack.cons "version" (.int (2 ^ 63)) <|
    .cons "records" TenantRecordWire.readsBack.slice_omitted <|
    .cons "groups" GroupWire.readsBack.slice_omitted <|
    .cons "audit" AuditEntry.readsBack.slice_omitted <|
    .cons "staged" StagedChangeWire.readsBack.slice_omitted <|
    .cons "next_stage" (ReadsBack.uint_omitted (by decide : 0 < 2 ^ 64)) .nil
  exact (hfields.struct (by decide +kernel) fun _ => rfl).congr fun w => rfl

end Structs

/-! ### Maps of stored values -/

/-- A map is built again of its values, each of which is changed. -/
theorem index_toList_eq_map {V : Type} {key : V → Bytes} {m : GoMap V} (hm : m.KeyedBy key)
    (f : V → V) :
    GoMap.index (fun x : Bytes × V => key x.2) (fun x => f x.2) m.toList = m.map fun _ => f := by
  have hnodup : (m.toList.map fun x => key x.2).Nodup :=
    hm.nodup_values (GoMap.nodup_keys m) fun x hx => GoMap.mem_toList.mp hx
  refine Std.ExtTreeMap.ext_getElem? fun k => Option.ext fun v => ?_
  rw [GoMap.lookup_index hnodup, Std.ExtTreeMap.getElem?_map, Option.map_eq_some_iff]
  constructor
  · rintro ⟨⟨k', u⟩, hx, rfl, rfl⟩
    have hu := GoMap.mem_toList.mp hx
    rw [hm k' u hu]
    exact ⟨u, hu, rfl⟩
  · rintro ⟨u, hu, rfl⟩
    exact ⟨(k, u), GoMap.mem_toList.mpr hu, hm k u hu, rfl⟩

/-! ### What comes back of a tenant -/

section Restored

variable {κ : Type}

/-- The strings of the features and groups of a tenant. -/
def TenantState.strings (s : TenantState κ) : List Bytes :=
  (s.features.toList.flatMap fun x => x.2.definition.strings) ++
    s.groups.toList.flatMap fun x => x.2.strings

/-- The record that is read from a persisted one. -/
def MemoryRecord.restored (r : MemoryRecord κ) : MemoryRecord κ :=
  ⟨r.definition.imported, r.deleted⟩

variable [CustomStrategy κ] [Runtime] {limits : Limits}

theorem Definition.Checked.payload_compacted {d : Definition κ} (h : d.Checked limits) :
    d.compacted.Payload :=
  have hpayload := h.valid.payload_compacted
  ⟨hpayload.default, hpayload.variants, hpayload.strategies⟩

variable {ord : MapOrder}

theorem restoreRecord_eq_ok_iff {records records' : GoMap (MemoryRecord κ)} {w : TenantRecordWire} :
    restoreRecord ord limits records w = .ok records' ↔
      ∃ d : Definition κ, decodeDefinition ord w.definition = .ok d ∧ d.Valid limits ∧
        d.key ∉ records ∧ records' = records.insert d.key ⟨cloneDefinition d, w.deleted⟩ := by
  simp only [restoreRecord, bind_eq_ok, rejectIf_eq_ok, pure_eq_ok, exists_const,
    Definition.validate_eq_ok_iff]
  simp only [eq_comm]

/-- The loop over the persisted records restores them one after the other. -/
theorem restored_of_foldlM (hκ : PlainStrategies κ) {l : List (Bytes × MemoryRecord κ)} {wires}
    (hwires : l.mapM (fun x => encodeRecord x.2) = .ok wires)
    (hchecked : ∀ x ∈ l, x.2.definition.Checked limits)
    (hutf8 : ∀ x ∈ l, Utf8 x.2.definition.strings) {limits' : Limits}
    {records records' : GoMap (MemoryRecord κ)}
    (h : (wires.map TenantRecordWire.norm).foldlM (restoreRecord ord limits') records =
      .ok records') :
    (∀ x ∈ l, x.2.restored.definition.Valid limits') ∧
      records' = l.foldl (fun (acc : GoMap (MemoryRecord κ)) x =>
        acc.insert x.2.definition.key x.2.restored) records := by
  rw [mapM_eq_ok_iff] at hwires
  induction hwires generalizing records with
  | nil =>
    cases h
    exact ⟨nofun, rfl⟩
  | @cons x w l wires hw _ ih =>
    obtain ⟨hx, hl⟩ := List.forall_mem_cons.mp hchecked
    obtain ⟨hx', hl'⟩ := List.forall_mem_cons.mp hutf8
    simp only [encodeRecord, bind_eq_ok, pure_eq_ok] at hw
    obtain ⟨definition, hdefinition, rfl⟩ := hw
    rw [List.map_cons, List.foldlM_cons, bind_eq_ok] at h
    obtain ⟨records₁, hrestore, hrest⟩ := h
    obtain ⟨d, hdec, hvalid, -, rfl⟩ := restoreRecord_eq_ok_iff.mp hrestore
    obtain rfl := eq_normal_of_decodeDefinition (encodeDefinition_compacted hx' hdefinition)
      hx.payload_compacted hdec
    obtain ⟨hvalid', rfl⟩ := ih hl hl' hrest
    rw [hκ.cloneDefinition]
    exact ⟨List.forall_mem_cons.mpr ⟨hvalid, hvalid'⟩, rfl⟩

/-- What a tenant is when it has been persisted and loaded again. -/
structure TenantState.Restores (limits : Limits) (s s₁ : TenantState κ) : Prop where
  features : s₁.features = s.features.map fun _ => MemoryRecord.restored
  groups : s₁.groups = s.groups.map fun _ => GroupDefinition.imported
  valid : GoMap.All (fun record : MemoryRecord κ => record.definition.Valid limits) s₁.features
  groups_valid : GoMap.All (fun g : GroupDefinition κ => g.Valid limits) s₁.groups

/-- What `unmarshalTenantState` makes of the document of a tenant, if it does not fail. -/
theorem restores_of_unmarshal (hκ : PlainStrategies κ) {s s₁ : TenantState κ} (hkeyed : s.Keyed)
    (hchecked : s.Checked limits) (hutf8 : Utf8 s.strings) {limits' limits'' : Limits}
    {data : Bytes} (hmarshal : marshalTenantState limits' s = .ok data)
    (h : unmarshalTenantState ord limits'' data = .ok s₁) : s.Restores limits'' s₁ := by
  simp only [TenantState.strings, Utf8.append_iff, Utf8.flatMap_iff] at hutf8
  simp only [marshalTenantState, bind_eq_ok] at hmarshal
  obtain ⟨records, hrecords, groups, hgroups, staged, -, hmarshal⟩ := hmarshal
  split at hmarshal
  · cases hmarshal
  next text htext =>
  simp only [bind_eq_ok, rejectIf_eq_ok, pure_eq_ok, exists_const] at hmarshal
  obtain ⟨-, rfl⟩ := hmarshal
  simp only [unmarshalTenantState, bind_eq_ok, rejectIf_eq_ok, pure_eq_ok, exists_const] at h
  obtain ⟨-, state, hstate, -, features₁, hfeatures₁, groups', hgroups', groups₁, hgroups₁, -, -,
    staged₁, -, rfl⟩ := h
  -- the text is read as `norm` of the struct that was written
  obtain ⟨Fits, hlawful⟩ := TenantStateWire.readsBack
  have hvalue : TenantStateWire.codec.decodeDocument text = .value state := by
    unfold decodeAll at hstate
    split at hstate
    · next a hdecode =>
      cases hstate
      exact hdecode
    all_goals cases hstate
  obtain ⟨-, rfl⟩ := hlawful.eq_norm_of_decodeDocument htext hvalue
  simp only [TenantStateWire.norm, normSlice, Slice.toList_ofList, List.mapM_map]
    at hfeatures₁ hgroups'
  have hmem (x : Bytes × MemoryRecord κ) (hx : x ∈ s.features.toList) :
      s.features[x.1]? = some x.2 := GoMap.mem_toList.mp hx
  obtain ⟨hvalid, rfl⟩ := restored_of_foldlM hκ hrecords
    (fun x hx => hchecked.features x.1 x.2 (hmem x hx)) hutf8.1 hfeatures₁
  have hfeatures : s.features.toList.foldl (fun (acc : GoMap (MemoryRecord κ)) x =>
      acc.insert x.2.definition.key x.2.restored) ∅ =
        s.features.map fun _ => MemoryRecord.restored :=
    index_toList_eq_map hkeyed.features MemoryRecord.restored
  obtain rfl : groups' = s.groups.toList.map fun x => x.2.imported := by
    refine eq_map_of_there_and_back hgroups hgroups' fun x hx w g hw hg => ?_
    exact eq_normal_of_decodeGroup (encodeGroup_compacted (hutf8.2 x hx) hw)
      (hchecked.groups x.1 x.2 (GoMap.mem_toList.mp hx)).payload_compacted hg
  obtain ⟨hok, rfl⟩ := cloneAndValidateGroups_eq_ok_iff.mp hgroups₁
  have hgroups : groupIndex (s.groups.toList.map fun x => x.2.imported) =
      s.groups.map fun _ => GroupDefinition.imported := by
    rw [groupIndex, GoMap.index, List.foldl_map, funext hκ.cloneGroup]
    exact index_toList_eq_map hkeyed.groups GroupDefinition.imported
  refine ⟨hfeatures, hgroups, fun key record hrecord => ?_, fun key g hg => ?_⟩
  · rw [hfeatures, Std.ExtTreeMap.getElem?_map, Option.map_eq_some_iff] at hrecord
    obtain ⟨old, hold, rfl⟩ := hrecord
    exact hvalid (key, old) (GoMap.mem_toList.mpr hold)
  · rw [hgroups, Std.ExtTreeMap.getElem?_map, Option.map_eq_some_iff] at hg
    obtain ⟨old, hold, rfl⟩ := hg
    exact hok.valid _ (List.mem_map.mpr ⟨(key, old), GoMap.mem_toList.mpr hold, rfl⟩)

/-- A negative number of audit entries lets no document in. -/
theorem maxAuditEntries_of_unmarshal {s₁ : TenantState κ} {data : Bytes}
    (h : unmarshalTenantState ord limits data = .ok s₁) : 0 ≤ limits.maxAuditEntries := by
  simp only [unmarshalTenantState, bind_eq_ok, rejectIf_eq_ok, exists_const] at h
  obtain ⟨-, state, -, -, _, -, _, -, _, -, hlen, -⟩ := h
  rw [gt_iff_lt, not_lt] at hlen
  exact Int.le_trans (Int.natCast_nonneg state.audit.toList.length) hlen

end Restored

end FeatureFlags
