import FeatureFlags.Equiv.Backends
import FeatureFlags.Equiv.Document
import FeatureFlags.Equiv.Separation
import FeatureFlags.Loader

/-!
# What a revision identifies

The revision of a `ProviderSnapshotLoader` is the digest of the exported snapshot.  Snapshots with
the same document are equal up to the order of lists (`reordered_of_encodeDefinition`), as far as
different texts are written differently: invalid UTF-8 is replaced and JSON texts are compacted.

* `Snapshot.strings`, `Snapshot.raws`: the texts of a snapshot.
* `evaluate_of_revision`: snapshots whose texts are written differently, with the same revision,
  evaluate alike.
* `revision_collides`: two different values that are written alike make two snapshots with the same
  revision that evaluate differently.
-/

namespace FeatureFlags

open Go Codec

/-! ### Structs determine what they were made of -/

variable {w : StrategyWire}

section Injective

theorem eq_of_encodeValue {v u : Value} (hv : v.Payload) (hu : u.Payload)
    (h : encodeValue v = encodeValue u) : v = u := by
  have hdec := decodeValue_encodeValue hv
  rw [h, decodeValue_encodeValue hu] at hdec
  exact (Except.ok.inj hdec).symm

theorem formatOptionalTime_injective {t u : Time}
    (h : formatOptionalTime t = formatOptionalTime u) : t = u := by
  have hne (t : Time) : formatRFC3339Nano ⟨t, 0⟩ ≠ [] := by simp [formatRFC3339Nano]
  have hzero {t : Time} (ht : t.isZero) : t = .zero := by
    obtain ⟨nanos⟩ := t
    obtain rfl : nanos = 0 := ht
    rfl
  unfold formatOptionalTime at h
  split_ifs at h with ht hu hu
  · rw [hzero ht, hzero hu]
  · exact absurd h.symm (hne u)
  · exact absurd h (hne t)
  · exact formatRFC3339Nano_injective h

theorem perm_of_insertionSort_eq {α : Type} {r : α → α → Prop} [DecidableRel r] {l l' : List α}
    (h : l.insertionSort r = l'.insertionSort r) : l.Perm l' :=
  (List.perm_insertionSort r l).symm.trans (h ▸ List.perm_insertionSort r l')

theorem ofList_injective {α : Type} {l l' : List α} (h : Slice.ofList l = Slice.ofList l') :
    l = l' := by
  rw [← Slice.toList_ofList l, h, Slice.toList_ofList]

/-- Lists with the same structs have related elements. -/
theorem forall₂_of_mapM_eq {ε α β : Type} {R : α → α → Prop} {f : α → Except ε β} {l l' : List α}
    {wires : List β} (h : l.mapM f = .ok wires) (h' : l'.mapM f = .ok wires)
    (hf : ∀ a ∈ l, ∀ b ∈ l', ∀ w, f a = .ok w → f b = .ok w → R a b) : List.Forall₂ R l l' := by
  rw [mapM_eq_ok_iff] at h h'
  induction h generalizing l' with
  | nil =>
    cases h'
    exact .nil
  | @cons a w l wires ha _ ih =>
    cases h' with
    | @cons b _ l' _ hb h' =>
      refine .cons (hf a List.mem_cons_self b List.mem_cons_self w ha hb) (ih h' ?_)
      exact fun a ha b hb => hf a (List.mem_cons_of_mem _ ha) b (List.mem_cons_of_mem _ hb)

variable {κ : Type} [CustomStrategy κ]

/-- The field that says which strategy it is. -/
def Strategy.kind : Strategy κ → Bytes
  | .exactTarget _ => str "exact"
  | .percentage _ => str "percentage"
  | .set _ => str "set"
  | .timeWindow _ => str "time_window"
  | .schedule _ => str "schedule"
  | .fact _ => str "fact"
  | .custom _ => []

theorem kind_of_encodeStrategy {s : Strategy κ} (h : encodeStrategy s = .ok w) :
    w.kind = s.kind := by
  cases s with
  | custom s => cases h
  | _ =>
    cases h
    rfl

/-- Strategies with the same struct are equal up to the order of their target lists. -/
theorem reordered_of_encodeStrategy {s t : Strategy κ} (hs : s.Payload) (ht : t.Payload)
    (h : encodeStrategy s = .ok w) (h' : encodeStrategy t = .ok w) : s.Reordered t := by
  have hkind : s.kind = t.kind := by rw [← kind_of_encodeStrategy h, kind_of_encodeStrategy h']
  by_cases htime : s.kind = str "time_window"
  · -- a time window may be in years that are not read back
    have hother : ∀ kind ∈ [str "exact", str "percentage", str "set", str "schedule", str "fact",
        []], kind ≠ str "time_window" := by
      decide
    have hwindow {s : Strategy κ} (h : s.kind = str "time_window") :
        ∃ u : TimeWindowStrategy, s = .timeWindow u := by
      cases s with
      | timeWindow u => exact ⟨u, rfl⟩
      | _ => exact absurd h (hother _ (by simp [Strategy.kind]))
    obtain ⟨u, rfl⟩ := hwindow htime
    obtain ⟨v, rfl⟩ := hwindow (hkind ▸ htime)
    simp only [encodeStrategy, Except.ok.injEq] at h h'
    rw [← h'] at h
    simp only [StrategyWire.mk.injEq, true_and, and_true] at h
    obtain ⟨hname, hvariant, hbefore, hafter⟩ := h
    obtain ⟨name, variant, notBefore, notAfter⟩ := u
    obtain rfl : name = v.name := hname
    obtain rfl : variant = v.variant := hvariant
    obtain rfl := formatOptionalTime_injective hbefore
    obtain rfl := formatOptionalTime_injective hafter
    exact .refl _
  · have hyears {s : Strategy κ} (h : s.kind ≠ str "time_window") : s.InYears := by
      cases s with
      | timeWindow u => exact absurd rfl h
      | _ => exact trivial
    have hdec := decodeStrategy_encodeStrategy h hs (hyears htime)
    rw [decodeStrategy_encodeStrategy h' ht (hyears (hkind ▸ htime)), Except.ok.injEq] at hdec
    have hnormal := s.reordered_normal
    rw [← hdec] at hnormal
    exact hnormal.trans t.reordered_normal.symm

theorem forall₂_of_encodeStrategies {l l' : List (Strategy κ)} {wires}
    (hl : ∀ s ∈ l, s.Payload) (hl' : ∀ s ∈ l', s.Payload) (h : l.mapM encodeStrategy = .ok wires)
    (h' : l'.mapM encodeStrategy = .ok wires) : List.Forall₂ Strategy.Reordered l l' :=
  forall₂_of_mapM_eq h h' fun s hs t ht _ => reordered_of_encodeStrategy (hl s hs) (hl' t ht)

/-- Definitions with the same struct are equal up to the order of lists. -/
theorem reordered_of_encodeDefinition {d e : Definition κ} {w : DefinitionWire} (hd : d.Payload)
    (he : e.Payload) (h : encodeDefinition d = .ok w) (h' : encodeDefinition e = .ok w) :
    d.Reordered e := by
  simp only [encodeDefinition, bind_eq_ok, mapError_eq_ok, pure_eq_ok] at h h'
  obtain ⟨wires, hwires, rfl⟩ := h
  obtain ⟨wires', hwires', heq⟩ := h'
  simp only [DefinitionWire.mk.injEq] at heq
  obtain ⟨hkey, htype, hdefault, hvariants, hmetadata, howner, hlifecycle, hdependencies, hgroups,
    htags, hversion, hstrategies⟩ := heq
  obtain rfl := ofList_injective hstrategies
  refine ⟨hkey.symm, ?_, eq_of_encodeValue hd.default he.default hdefault.symm, ?_,
    hmetadata.symm, howner.symm, ?_, ?_, (ofList_injective hgroups).symm,
    perm_of_insertionSort_eq (ofList_injective htags).symm, hversion.symm,
    forall₂_of_encodeStrategies hd.strategies he.strategies hwires hwires'⟩
  · rw [← ValueType.ofName_name d.type, ← htype, ValueType.ofName_name]
  · -- the variants are told apart one by one
    refine Std.ExtTreeMap.ext_getElem? fun name => ?_
    have hname := congrArg (·[name]?) hvariants
    simp only [Std.ExtTreeMap.getElem?_map] at hname
    cases hv : d.variants[name]? with
    | none =>
      rw [hv, Option.map_none, Option.map_eq_none_iff] at hname
      exact hname.symm
    | some v =>
      rw [hv, Option.map_some, Option.map_eq_some_iff] at hname
      obtain ⟨u, hu, heq⟩ := hname
      rw [hu, eq_of_encodeValue (he.variants name u hu) (hd.variants name v hv) heq]
  · rw [← Lifecycle.ofLabel_label d.lifecycle, ← hlifecycle, Lifecycle.ofLabel_label]
  · have hsorted := ofList_injective hdependencies
    have hinj : Function.Injective fun dep : Dependency =>
        (⟨dep.featureKey, dep.requiredVariant⟩ : DependencyWire) := by
      rintro ⟨a, b⟩ ⟨a', b'⟩ heq
      cases heq
      rfl
    exact perm_of_insertionSort_eq (List.map_injective_iff.mpr hinj hsorted).symm

/-- Groups with the same struct are equal up to the order of lists. -/
theorem reordered_of_encodeGroup {g g' : GroupDefinition κ} {w : GroupWire} (hg : g.Payload)
    (hg' : g'.Payload) (h : encodeGroup g = .ok w) (h' : encodeGroup g' = .ok w) :
    g.Reordered g' := by
  simp only [encodeGroup, bind_eq_ok, mapError_eq_ok, pure_eq_ok] at h h'
  obtain ⟨wires, hwires, rfl⟩ := h
  obtain ⟨wires', hwires', heq⟩ := h'
  simp only [GroupWire.mk.injEq] at heq
  obtain ⟨hkey, hparent, hmetadata, howner, htags, hversion, hstrategies⟩ := heq
  obtain rfl := ofList_injective hstrategies
  exact ⟨hkey.symm, hparent.symm, hmetadata.symm, howner.symm,
    perm_of_insertionSort_eq (ofList_injective htags).symm, hversion.symm,
    forall₂_of_encodeStrategies hg hg' hwires hwires'⟩

end Injective

/-! ### The texts of a snapshot -/

/-- The JSON texts of a value. -/
def Value.raws : Value → List Bytes
  | .structured raw => [raw]
  | _ => []

section Raws

variable {κ : Type}

/-- The JSON texts of a strategy. -/
def Strategy.raws : Strategy κ → List Bytes
  | .fact s => s.equals.raws
  | _ => []

/-- The JSON texts of a definition. -/
def Definition.raws (d : Definition κ) : List Bytes :=
  d.default.raws ++ (d.variants.toList.flatMap fun x => x.2.raws) ++
    d.strategies.flatMap Strategy.raws

/-- The JSON texts of a group. -/
def GroupDefinition.raws (g : GroupDefinition κ) : List Bytes := g.strategies.flatMap Strategy.raws

def Snapshot.strings (s : Snapshot κ) : List Bytes :=
  (s.definitions.toList.flatMap fun x => x.2.strings) ++
    s.groups.toList.flatMap fun x => x.2.strings

/-- The JSON texts of a snapshot. -/
def Snapshot.raws (s : Snapshot κ) : List Bytes :=
  (s.definitions.toList.flatMap fun x => x.2.raws) ++ s.groups.toList.flatMap fun x => x.2.raws

end Raws

/-- The strings and the JSON texts are in the sets. -/
structure Texts.Contains (X : Texts) (strings raws : List Bytes) : Prop where
  strings : ∀ s ∈ strings, X.string s
  raws : ∀ r ∈ raws, X.raw r

def Snapshot.texts {κ : Type} (s : Snapshot κ) : Texts := ⟨(· ∈ s.strings), (· ∈ s.raws)⟩

section Over

variable {X : Texts}

theorem sliceOf_ofList {α : Type} {P : α → Prop} {l : List α} (h : ∀ a ∈ l, P a) :
    Slice.Of P (.ofList l) := ⟨l, rfl, h⟩

theorem sliceOf_sorted {P : Bytes → Prop} {l : List Bytes} (h : ∀ s ∈ l, P s) :
    Slice.Of P (.ofList (sortedStrings l)) :=
  sliceOf_ofList fun s hs => h s ((List.mem_insertionSort _).mp hs)

theorem mapOf_strings {P : Bytes → Prop} {m : GoMap Bytes} (h : ∀ s ∈ mapStrings m, P s) :
    MapOf P P m := by
  intro x hx
  refine ⟨h x.1 (List.mem_flatMap.mpr ⟨x, hx, ?_⟩), h x.2 (List.mem_flatMap.mpr ⟨x, hx, ?_⟩)⟩
  · exact List.mem_cons_self
  · exact List.mem_cons_of_mem _ List.mem_cons_self

theorem over_encodeValue {v : Value} (h : X.Contains v.strings v.raws) :
    (encodeValue v).Over X := by
  have htype : ValidString (encodeValue v).type := by
    rw [← sanitize_eq_self_iff]
    cases v <;> rfl
  cases v with
  | string text | decimal text =>
    exact ⟨htype, fun s hs => h.strings s (by cases hs; exact List.mem_cons_self), .inl rfl⟩
  | structured raw =>
    exact ⟨htype, nofun, .inr (h.raws raw List.mem_cons_self)⟩
  | _ => exact ⟨htype, nofun, .inl rfl⟩

/-- The fields that every strategy has; the others are empty. -/
theorem over_zero {name variant : Bytes} (hname : X.string name) (hvariant : X.string variant) :
    StrategyWire.Over X { StrategyWire.zero with name, variant } := by
  have hnone : Slice.Of X.string (.ofList []) := sliceOf_ofList nofun
  have hvalid : ValidString [] := by decide
  exact ⟨hvalid, hname, hvariant, hnone, hnone, hnone, nofun, hnone, hnone, hnone, hnone, .inl rfl,
    hvalid, hvalid, .inl rfl, sliceOf_ofList fun _ _ => trivial, .inl rfl, nofun⟩

variable {κ : Type} [CustomStrategy κ]

theorem over_encodeStrategy {s : Strategy κ} (h : X.Contains s.strings s.raws)
    (hw : encodeStrategy s = .ok w) : w.Over X := by
  have hkind : ∀ kind ∈ [str "exact", str "percentage", str "set", str "time_window",
      str "schedule", str "fact"], ValidString kind := by
    decide
  have hstrings := h.strings
  cases s with
  | exactTarget s =>
    cases hw
    simp only [Strategy.strings, List.forall_mem_append, List.forall_mem_cons] at hstrings
    obtain ⟨⟨⟨⟨⟨hname, hvariant, -⟩, htenants⟩, hsubjects⟩, henvironments⟩, hattributes⟩ :=
      hstrings
    exact { over_zero hname hvariant with
      kind := hkind _ (by simp)
      tenants := sliceOf_sorted htenants
      subjects := sliceOf_sorted hsubjects
      environments := sliceOf_sorted henvironments
      attributes := mapOf_strings hattributes }
  | percentage s =>
    cases hw
    simp only [Strategy.strings, List.forall_mem_cons] at hstrings
    obtain ⟨hname, hvariant, hseed, -⟩ := hstrings
    exact { over_zero hname hvariant with kind := hkind _ (by simp), seed := .inr hseed }
  | set s =>
    cases hw
    simp only [Strategy.strings, List.forall_mem_append, List.forall_mem_cons] at hstrings
    obtain ⟨⟨⟨⟨⟨hname, hvariant, -⟩, hallowTenants⟩, hdenyTenants⟩, hallowSubjects⟩,
      hdenySubjects⟩ := hstrings
    exact { over_zero hname hvariant with
      kind := hkind _ (by simp)
      allowTenants := sliceOf_sorted hallowTenants
      denyTenants := sliceOf_sorted hdenyTenants
      allowSubjects := sliceOf_sorted hallowSubjects
      denySubjects := sliceOf_sorted hdenySubjects }
  | timeWindow s =>
    cases hw
    simp only [Strategy.strings, List.forall_mem_cons] at hstrings
    exact { over_zero hstrings.1 hstrings.2.1 with
      kind := hkind _ (by simp)
      notBefore := validString_formatOptionalTime _
      notAfter := validString_formatOptionalTime _ }
  | schedule s =>
    cases hw
    simp only [Strategy.strings, List.forall_mem_cons] at hstrings
    obtain ⟨hname, hvariant, hlocation, -⟩ := hstrings
    exact { over_zero hname hvariant with
      kind := hkind _ (by simp)
      location := .inr hlocation
      windows := sliceOf_ofList fun _ _ => trivial }
  | fact s =>
    cases hw
    simp only [Strategy.strings, List.forall_mem_append, List.forall_mem_cons] at hstrings
    obtain ⟨⟨hname, hvariant, hfact, -⟩, hequals⟩ := hstrings
    exact { over_zero hname hvariant with
      kind := hkind _ (by simp)
      fact := .inr hfact
      equals := fun v hv => by cases hv; exact over_encodeValue ⟨hequals, h.raws⟩ }
  | custom s => cases hw

theorem over_encodeStrategies {strategies : List (Strategy κ)} {wires}
    (hstrings : ∀ s ∈ strategies.flatMap Strategy.strings, X.string s)
    (hraws : ∀ r ∈ strategies.flatMap Strategy.raws, X.raw r)
    (hw : strategies.mapM encodeStrategy = .ok wires) :
    Slice.Of (StrategyWire.Over X) (.ofList wires) := by
  refine sliceOf_ofList ?_
  rw [mapM_eq_ok_iff] at hw
  induction hw with
  | nil => exact nofun
  | cons hs _ ih =>
    rw [List.flatMap_cons, List.forall_mem_append] at hstrings hraws
    exact List.forall_mem_cons.mpr ⟨over_encodeStrategy ⟨hstrings.1, hraws.1⟩ hs,
      ih hstrings.2 hraws.2⟩

theorem over_encodeDefinition {d : Definition κ} {w : DefinitionWire}
    (h : X.Contains d.strings d.raws) (hw : encodeDefinition d = .ok w) : w.Over X := by
  obtain ⟨hstrings, hraws⟩ := h
  simp only [Definition.strings, List.forall_mem_append, List.forall_mem_cons] at hstrings
  obtain ⟨⟨⟨⟨⟨⟨⟨⟨hkey, htype, howner, hlifecycle, -⟩, hdefault⟩, hvariants⟩, hmetadata⟩,
    hdependencies⟩, hgroups⟩, htags⟩, hstrategies⟩ := hstrings
  simp only [Definition.raws, List.forall_mem_append] at hraws
  obtain ⟨⟨hdefault', hvariants'⟩, hstrategies'⟩ := hraws
  simp only [encodeDefinition, bind_eq_ok, mapError_eq_ok, pure_eq_ok] at hw
  obtain ⟨wires, hwires, rfl⟩ := hw
  refine ⟨hkey, htype, over_encodeValue ⟨hdefault, hdefault'⟩, ?_, mapOf_strings hmetadata, howner,
    hlifecycle, ?_, sliceOf_ofList hgroups, sliceOf_sorted htags,
    over_encodeStrategies hstrategies hstrategies' hwires⟩
  · intro x hx
    rw [Std.ExtTreeMap.toList_map] at hx
    obtain ⟨y, hy, rfl⟩ := List.mem_map.mp hx
    refine ⟨hvariants y.1 (List.mem_flatMap.mpr ⟨y, hy, List.mem_cons_self⟩),
      over_encodeValue ⟨fun s hs => ?_, fun r hr => ?_⟩⟩
    · exact hvariants s (List.mem_flatMap.mpr ⟨y, hy, List.mem_cons_of_mem _ hs⟩)
    · exact hvariants' r (List.mem_flatMap.mpr ⟨y, hy, hr⟩)
  · refine sliceOf_ofList (List.forall_mem_map.mpr fun dep hdep => ?_)
    have hmem : dep ∈ d.dependencies := (List.mem_insertionSort _).mp hdep
    exact ⟨hdependencies _ (List.mem_flatMap.mpr ⟨dep, hmem, List.mem_cons_self⟩),
      hdependencies _ (List.mem_flatMap.mpr ⟨dep, hmem, List.mem_cons_of_mem _ List.mem_cons_self⟩)⟩

theorem over_encodeGroup {g : GroupDefinition κ} {w : GroupWire}
    (h : X.Contains g.strings g.raws) (hw : encodeGroup g = .ok w) : w.Over X := by
  obtain ⟨hstrings, hraws⟩ := h
  simp only [GroupDefinition.strings, List.forall_mem_append, List.forall_mem_cons] at hstrings
  obtain ⟨⟨⟨⟨hkey, hparent, howner, -⟩, hmetadata⟩, htags⟩, hstrategies⟩ := hstrings
  simp only [encodeGroup, bind_eq_ok, mapError_eq_ok, pure_eq_ok] at hw
  obtain ⟨wires, hwires, rfl⟩ := hw
  exact ⟨hkey, hparent, mapOf_strings hmetadata, howner, sliceOf_sorted htags,
    over_encodeStrategies hstrategies hraws hwires⟩

end Over

/-! ### Maps and their sorted values -/

variable {ord : MapOrder}

section Values

variable {V : Type} {key : V → Bytes} {m m' : GoMap V}

/-- A map is built again of its values. -/
theorem index_values (hm : m.KeyedBy key) {l : List V} (hl : l.Perm ((m.range ord).map Prod.snd)) :
    GoMap.index key id l = m := by
  have hvalues : (((m.range ord).map Prod.snd).map key).Nodup := by
    rw [List.map_map]
    exact hm.nodup_values (GoMap.nodup_range ord m) fun x hx => GoMap.mem_range.mp hx
  have hnodup : (l.map key).Nodup := (hl.map key).nodup_iff.mpr hvalues
  refine Std.ExtTreeMap.ext_getElem? fun k => Option.ext fun v => ?_
  rw [GoMap.lookup_index hnodup]
  constructor
  · rintro ⟨v, hv, rfl, rfl⟩
    obtain ⟨⟨k, u⟩, hu, rfl⟩ := List.mem_map.mp (hl.mem_iff.mp hv)
    have hlookup := GoMap.mem_range.mp hu
    rw [id_eq, hm k u hlookup]
    exact hlookup
  · intro hv
    exact ⟨v, hl.mem_iff.mpr (List.mem_map.mpr ⟨(k, v), GoMap.mem_range.mpr hv, rfl⟩), hm k v hv,
      rfl⟩

/-- Maps whose sorted values are related have related entries. -/
theorem rel_of_values {R : V → V → Prop} (hm : m.KeyedBy key) (hm' : m'.KeyedBy key)
    {l l' : List V} {ord' : MapOrder} (hl : l.Perm ((m.range ord).map Prod.snd))
    (hl' : l'.Perm ((m'.range ord').map Prod.snd)) (h : List.Forall₂ R l l')
    (hkey : ∀ a b, R a b → key a = key b) (k : Bytes) : Option.Rel R m[k]? m'[k]? := by
  rw [← index_values hm hl, ← index_values hm' hl']
  exact GoMap.rel_index (h.imp fun a b hab => ⟨hkey a b hab, hab⟩) k

end Values

/-! ### Revisions -/

variable {loader : ProviderSnapshotLoader} {document : Bytes}

section Revision

variable {κ : Type} [CustomStrategy κ] [Runtime]

def Snapshot.documents (s : Snapshot κ) : Set Bytes :=
  {document | ∃ ord : MapOrder, Export ord ((s.definitions.range ord).map Prod.snd)
    ((s.groups.range ord).map Prod.snd) s.limits = .ok document}

/-- What a load that succeeds has done. -/
theorem load_eq_ok_iff {s : Snapshot κ} {now : Time} {candidate : SnapshotCandidate κ} :
    loader.load ord (.ok s) now = .ok candidate ↔
      ∃ document, Export ord ((s.definitions.range ord).map Prod.snd)
          ((s.groups.range ord).map Prod.snd) s.limits = .ok document ∧
        candidate =
          ⟨some s, Valkey.hexEncode (Runtime.sha256 document), loader.provenance, now⟩ := by
  simp only [ProviderSnapshotLoader.load, bind_eq_ok, pure_eq_ok, Except.ok.injEq, exists_eq_left']
  simp only [eq_comm]

variable {limits : Limits} {ord ord' : MapOrder} {definitions definitions' : List (Definition κ)}
  {groups groups' : List (GroupDefinition κ)} {s s' : Snapshot κ}

theorem keyedBy_of_accepted (h : newSnapshotWithGroups ord definitions groups limits = .ok s) :
    s.definitions.KeyedBy Definition.key ∧ s.groups.KeyedBy GroupDefinition.key := by
  obtain ⟨hok, -, rfl⟩ := newSnapshotWithGroups_eq_ok_iff.mp h
  refine ⟨fun k d hd => ?_, fun k g hg => ?_⟩
  · obtain ⟨x, -, rfl, rfl⟩ := (GoMap.lookup_index hok.nodup).mp hd
    rfl
  · obtain ⟨x, -, rfl, rfl⟩ := (GoMap.lookup_index hok.groups_ok.nodup).mp hg
    rfl

/-- Exported lists with separate texts and the same document are equal up to the order of lists. -/
theorem forall₂_of_export {X Y : Texts} (hXY : X.Separate Y)
    (hX : ∀ d ∈ definitions, X.Contains d.strings d.raws)
    (hX' : ∀ g ∈ groups, X.Contains g.strings g.raws)
    (hY : ∀ d ∈ definitions', Y.Contains d.strings d.raws)
    (hY' : ∀ g ∈ groups', Y.Contains g.strings g.raws)
    (h : Export ord definitions groups limits = .ok document)
    (h' : Export ord' definitions' groups' limits = .ok document) :
    List.Forall₂ Definition.Reordered
        (definitions.insertionSort fun a b => (compare a.key b.key).isLE = true)
        (definitions'.insertionSort fun a b => (compare a.key b.key).isLE = true) ∧
      List.Forall₂ GroupDefinition.Reordered
        (groups.insertionSort fun a b => (compare a.key b.key).isLE = true)
        (groups'.insertionSort fun a b => (compare a.key b.key).isLE = true) := by
  obtain ⟨⟨hok, -⟩, features, wires, hfeatures, hwires, hmarshal⟩ := export_eq_ok_iff.mp h
  obtain ⟨⟨hok', -⟩, features', wires', hfeatures', hwires', hmarshal'⟩ := export_eq_ok_iff.mp h'
  have hover {X : Texts} {definitions : List (Definition κ)} {groups : List (GroupDefinition κ)}
      {features : List DefinitionWire} {wires : List GroupWire}
      (hX : ∀ d ∈ definitions, X.Contains d.strings d.raws)
      (hX' : ∀ g ∈ groups, X.Contains g.strings g.raws)
      (hfeatures : (definitions.insertionSort fun a b => (compare a.key b.key).isLE = true).mapM
        encodeDefinition = .ok features)
      (hwires : (groups.insertionSort fun a b => (compare a.key b.key).isLE = true).mapM
        encodeGroup = .ok wires) :
      DocumentWire.Over X
        ⟨documentFormat, documentVersion, .ofList features, .ofList wires⟩ := by
    rw [mapM_eq_ok_iff] at hfeatures hwires
    have hformat : ValidString documentFormat := by decide
    refine ⟨hformat, sliceOf_ofList ?_, sliceOf_ofList ?_⟩
    · exact forall_mem_of_forall₂ hfeatures (fun d w hw hd => over_encodeDefinition (hX d hd) hw)
        fun d hd => (List.mem_insertionSort _).mp hd
    · exact forall_mem_of_forall₂ hwires (fun g w hw hg => over_encodeGroup (hX' g hg) hw)
        fun g hg => (List.mem_insertionSort _).mp hg
  have heq := DocumentWire.eq_of_marshal hXY (hover hX hX' hfeatures hwires)
    (hover hY hY' hfeatures' hwires') hmarshal hmarshal'
  rw [DocumentWire.mk.injEq] at heq
  obtain ⟨-, -, hslice, hslice'⟩ := heq
  obtain rfl := ofList_injective hslice
  obtain rfl := ofList_injective hslice'
  refine ⟨forall₂_of_mapM_eq hfeatures hfeatures' fun d hd e he w hdw hew => ?_,
    forall₂_of_mapM_eq hwires hwires' fun g hg g' hg' w hgw hgw' => ?_⟩
  · exact reordered_of_encodeDefinition
      (hok.valid d ((List.mem_insertionSort _).mp hd)).payload
      (hok'.valid e ((List.mem_insertionSort _).mp he)).payload hdw hew
  · exact reordered_of_encodeGroup
      (hok.groups_ok.valid g ((List.mem_insertionSort _).mp hg)).payload
      (hok'.groups_ok.valid g' ((List.mem_insertionSort _).mp hg')).payload hgw hgw'

omit [CustomStrategy κ] [Runtime] in
theorem texts_contains (s : Snapshot κ) (ord : MapOrder) :
    (∀ d ∈ (s.definitions.range ord).map Prod.snd, s.texts.Contains d.strings d.raws) ∧
      ∀ g ∈ (s.groups.range ord).map Prod.snd, s.texts.Contains g.strings g.raws := by
  constructor <;> refine List.forall_mem_map.mpr fun x hx => ?_ <;>
    have hmem := GoMap.mem_toList.mpr (GoMap.mem_range.mp hx)
  · exact ⟨fun t ht => List.mem_append_left _ (List.mem_flatMap.mpr ⟨x, hmem, ht⟩),
      fun r hr => List.mem_append_left _ (List.mem_flatMap.mpr ⟨x, hmem, hr⟩)⟩
  · exact ⟨fun t ht => List.mem_append_right _ (List.mem_flatMap.mpr ⟨x, hmem, ht⟩),
      fun r hr => List.mem_append_right _ (List.mem_flatMap.mpr ⟨x, hmem, hr⟩)⟩

/-- Snapshots with separate texts and the same document are equal up to the order of lists. -/
theorem rel_of_document (h : newSnapshotWithGroups ord definitions groups limits = .ok s)
    (h' : newSnapshotWithGroups ord' definitions' groups' limits = .ok s')
    (htexts : s.texts.Separate s'.texts) {ord₁ ord₂ : MapOrder}
    (hdocument : Export ord₁ ((s.definitions.range ord₁).map Prod.snd)
      ((s.groups.range ord₁).map Prod.snd) limits = .ok document)
    (hdocument' : Export ord₂ ((s'.definitions.range ord₂).map Prod.snd)
      ((s'.groups.range ord₂).map Prod.snd) limits = .ok document) :
    (∀ k : Bytes, Option.Rel Definition.Reordered s.definitions[k]? s'.definitions[k]?) ∧
      ∀ k : Bytes, Option.Rel GroupDefinition.Reordered s.groups[k]? s'.groups[k]? := by
  obtain ⟨hdefs, hgroups⟩ := forall₂_of_export htexts (texts_contains s ord₁).1
    (texts_contains s ord₁).2 (texts_contains s' ord₂).1 (texts_contains s' ord₂).2 hdocument
    hdocument'
  obtain ⟨hkeyed, hkeyed'⟩ := keyedBy_of_accepted h
  obtain ⟨hkeyed₁, hkeyed₁'⟩ := keyedBy_of_accepted h'
  exact ⟨rel_of_values hkeyed hkeyed₁ (List.perm_insertionSort _ _) (List.perm_insertionSort _ _)
      hdefs fun _ _ hde => hde.key, rel_of_values hkeyed' hkeyed₁' (List.perm_insertionSort _ _)
      (List.perm_insertionSort _ _) hgroups fun _ _ hgg => hgg.key⟩

end Revision

section Builtin

variable [Runtime] {limits : Limits} {ord ord' : MapOrder}
  {definitions definitions' : List (Definition Empty)}
  {groups groups' : List (GroupDefinition Empty)} {s s' : Snapshot Empty}

/-- Every path of dependencies is within the limit, or the dependencies of each feature are listed
in the same order. -/
def SameOrder (limits : Limits) (s s' : Snapshot Empty) : Prop :=
  PathsWithin s.definitions limits ∨
    ∀ (key : Bytes) (d e : Definition Empty), s.definitions[key]? = some d →
      s'.definitions[key]? = some e → e.dependencies = d.dependencies

/-- Snapshots with separate texts and the same revision evaluate alike. -/
theorem evaluate_of_revision (h : newSnapshotWithGroups ord definitions groups limits = .ok s)
    (h' : newSnapshotWithGroups ord' definitions' groups' limits = .ok s')
    (hsha : Set.InjOn Runtime.sha256 (s.documents ∪ s'.documents))
    (htexts : s.texts.Separate s'.texts) (horder : SameOrder limits s s') {tenant : Bytes}
    {loader' : ProviderSnapshotLoader} {ord₁ ord₂ : MapOrder} {now now' : Time}
    {candidate candidate'}
    (hload : loader.load ord₁ (.ok (s.bindTenant tenant)) now = .ok candidate)
    (hload' : loader'.load ord₂ (.ok (s'.bindTenant tenant)) now' = .ok candidate')
    (hrevision : candidate.revision = candidate'.revision) (ord₃ : MapOrder) (key : Bytes)
    (expected : ValueType) (context : Context) :
    (s'.bindTenant tenant).evaluate ord₃ key expected context =
      (s.bindTenant tenant).evaluate ord₃ key expected context := by
  have hlimits : s.limits = limits := limits_eq h
  have hlimits' : s'.limits = limits := limits_eq h'
  obtain ⟨document, hdocument, rfl⟩ := load_eq_ok_iff.mp hload
  obtain ⟨document', hdocument', rfl⟩ := load_eq_ok_iff.mp hload'
  obtain rfl : document = document' :=
    hsha (.inl ⟨ord₁, hdocument⟩) (.inr ⟨ord₂, hdocument'⟩)
      (Valkey.hexEncode_injective hrevision)
  obtain ⟨hdefs, hgroups⟩ := rel_of_document h h' htexts (hlimits ▸ hdocument)
    (hlimits' ▸ hdocument')
  rcases horder with hpaths | hsame
  · exact evaluate_of_reordered h h' hpaths hdefs hgroups tenant ord₃ key expected context
  · have hgroups' : ∀ k : Bytes, Option.Rel GroupDefinition.Reordered
        (s.bindTenant tenant).groups[k]? (s'.bindTenant tenant).groups[k]? := hgroups
    refine Snapshot.evaluate_of_reordered_targets hgroups' (hlimits'.trans hlimits.symm)
      (fun k => ?_) rfl ord₃ key expected context
    cases hd : s.definitions[k]? with
    | none =>
      rw [Snapshot.bindTenant_definitions, Snapshot.bindTenant_definitions, hd,
        lookup_none_right hdefs hd]
      exact .none
    | some d =>
      obtain ⟨e, he, hde⟩ := exists_lookup_right hdefs hd
      rw [Snapshot.bindTenant_definitions, Snapshot.bindTenant_definitions, hd, he]
      exact .some ⟨hde, hsame k d e hd he⟩

end Builtin

/-! ### Texts that are written alike -/

section Collisions

theorem validate_ofTenant (ord : MapOrder) :
    ({ Context.empty with tenant := str "t" } : Context).validate ord defaultLimits = .ok () := by
  have hnone {V : Type} : GoMap.range ord (∅ : GoMap V) = [] := List.perm_nil.mp (ord.perm _)
  unfold Context.validate
  simp only [Context.empty, hnone]
  rfl

variable [Runtime]

/-- An active feature without variants and strategies. -/
def constantly (v : Value) : Definition Empty where
  key := str "a"
  type := v.type
  default := v
  variants := ∅
  metadata := ∅
  owner := []
  lifecycle := .active
  dependencies := []
  groups := []
  tags := []
  version := 1
  strategies := []

omit [Runtime] in
theorem lookup_constantly (v : Value) (key : Bytes) :
    (definitionIndex [constantly v])[key]? =
      if str "a" = key then some (constantly v) else none := by
  refine (GoMap.lookup_insert ..).trans ?_
  rw [Std.ExtTreeMap.getElem?_empty]
  rfl

theorem accepted_constantly {v : Value} (hv : v.Valid defaultLimits) (ord : MapOrder) :
    newSnapshotWithGroups ord [constantly v] [] defaultLimits =
      .ok (snapshotOf [constantly v] [] defaultLimits) := by
  have hlookup {key : Bytes} {d : Definition Empty}
      (h : (definitionIndex [constantly v])[key]? = some d) : d = constantly v := by
    rw [lookup_constantly] at h
    split_ifs at h
    exact (Option.some.inj h).symm
  have hempty {V : Type} {P : Bytes → V → Prop} (key : Bytes) (x : V)
      (h : (∅ : GoMap V)[key]? = some x) : P key x := by
    rw [Std.ExtTreeMap.getElem?_empty] at h
    cases h
  have hvalid : (constantly v).Valid defaultLimits := by
    exact
      { key := ⟨(by decide : str "a" ≠ []), (by decide : len (str "a") ≤ defaultLimits.maxKeyBytes)⟩
        default := hv
        default_type := rfl
        variants_len := (by decide : (∅ : GoMap Value).len ≤ defaultLimits.maxVariants)
        metadata_len := (by decide : (∅ : GoMap Bytes).len ≤ defaultLimits.maxMetadata)
        owner := (by decide : (0 : Int) ≤ defaultLimits.maxStringBytes)
        tags_len := (by decide : (0 : Int) ≤ defaultLimits.maxTags)
        strategies_len := (by decide : (0 : Int) ≤ defaultLimits.maxStrategies)
        dependencies_len := (by decide : (0 : Int) ≤ defaultLimits.maxDependencies)
        groups_len := (by decide : (0 : Int) ≤ defaultLimits.maxGroups)
        dependencies := fun _ h => by cases h
        groups := fun _ h => by cases h
        variants := hempty
        strategies := fun _ h => by cases h
        metadata := hempty
        tags := fun _ h => by cases h }
  have hpaths : PathsWithin (definitionIndex [constantly v]) defaultLimits := by
    intro key _ path hpath
    cases path with
    | nil => decide
    | cons next path =>
      -- there is no edge
      have hedge := (List.isChain_cons_cons.mp hpath).1
      unfold Dfs.Edge dependencyKeys at hedge
      cases hd : (definitionIndex [constantly v])[key]? with
      | none => rw [hd] at hedge; cases hedge
      | some d =>
        rw [hd, hlookup hd] at hedge
        cases hedge
  have hno {P : Prop} {key : Bytes} {g : GroupDefinition Empty}
      (h : (groupIndex ([] : List (GroupDefinition Empty)))[key]? = some g) : P := by
    rw [groupIndex, GoMap.index, List.foldl_nil, Std.ExtTreeMap.getElem?_empty] at h
    cases h
  have hgroups : GroupsOk (definitionIndex [constantly v]) [] defaultLimits := by
    refine ⟨by decide, by simp, List.nodup_nil, fun key g hg => hno hg, ?_, ?_⟩
    · intro key hkey
      exact absurd hkey (Std.ExtTreeMap.not_mem_empty)
    · intro key d hd g hg
      rw [hlookup hd] at hg
      cases hg
  have hone : (1 : Int) ≤ defaultLimits.maxFeatures := by decide
  refine newSnapshotWithGroups_eq_ok_iff.mpr ⟨⟨hone, ?_, List.nodup_singleton _, ?_, hgroups⟩,
    hpaths.searched ord, rfl⟩
  · exact List.forall_mem_singleton.mpr hvalid
  · intro key d hd dep hdep
    rw [hlookup hd] at hdep
    cases hdep

theorem evaluate_constantly (v : Value) (ord : MapOrder) :
    ((snapshotOf [constantly v] [] defaultLimits).bindTenant (str "t")).evaluate ord (str "a")
        v.type { Context.empty with tenant := str "t" } =
      .ok (defaultResult (constantly v) .default []) := by
  have hlookup : (definitionIndex [constantly v])[str "a"]? = some (constantly v) := by
    rw [lookup_constantly, if_pos rfl]
  have hlevels : (defaultLimits.maxEvaluationDepth + 1).toNat =
      defaultLimits.maxEvaluationDepth.toNat + 1 := by decide
  have hflag : flag ∅ (str "a") = false := by decide
  simp only [Snapshot.evaluate, Snapshot.bindTenant, snapshotOf, validate_ofTenant, hlookup,
    hlevels, Snapshot.evaluateKey, hflag]
  simp only [constantly, ne_eq, not_true_eq_false, and_false]
  rfl

theorem alike_constantly {v v' : Value} (htype : v'.type = v.type)
    (halike : ValueWire.codec.Alike (encodeValue v) (encodeValue v')) {w w' : DefinitionWire}
    (hw : encodeDefinition (constantly v) = .ok w)
    (hw' : encodeDefinition (constantly v') = .ok w') : DefinitionWire.codec.Alike w w' := by
  cases hw
  cases hw'
  have hname : Codec.string.Alike v.type.name v'.type.name := by
    rw [htype]
    exact .refl _
  exact .struct (.rest (.cons hname (.cons halike (.refl _))))

theorem export_constantly {v v' : Value} (hv' : v'.Valid defaultLimits) (htype : v'.type = v.type)
    (halike : ValueWire.codec.Alike (encodeValue v) (encodeValue v'))
    (h : Export ord [constantly v] [] defaultLimits = .ok document) :
    Export ord [constantly v'] [] defaultLimits = .ok document := by
  obtain ⟨-, features, wires, hfeatures, hwires, hmarshal⟩ := export_eq_ok_iff.mp h
  obtain ⟨hok, hsearched, -⟩ := newSnapshotWithGroups_eq_ok_iff.mp (accepted_constantly hv' ord)
  cases hfeatures
  cases hwires
  refine export_eq_ok_iff.mpr ⟨⟨hok, hsearched⟩, _, _, rfl, rfl, ?_⟩
  rw [← hmarshal]
  exact marshalDocument_alike (.cons (alike_constantly htype halike rfl rfl) .nil) .nil

theorem load_singleton_iff {d : Definition Empty} {limits : Limits} {tenant : Bytes} {now : Time}
    {candidate : SnapshotCandidate Empty} :
    loader.load ord (.ok ((snapshotOf [d] [] limits).bindTenant tenant)) now = .ok candidate ↔
      ∃ document, Export ord [d] [] limits = .ok document ∧
        candidate = ⟨some ((snapshotOf [d] [] limits).bindTenant tenant),
          Valkey.hexEncode (Runtime.sha256 document), loader.provenance, now⟩ := by
  have hrange : GoMap.range ord (definitionIndex [d]) = [(d.key, cloneDefinition d)] :=
    range_singleton ord d.key (cloneDefinition d)
  rw [plainStrategies_empty.cloneDefinition] at hrange
  have hdefinitions : (((snapshotOf [d] [] limits).bindTenant tenant).definitions.range ord).map
      Prod.snd = [d] := congrArg (List.map Prod.snd) hrange
  have hgroups : (((snapshotOf [d] [] limits).bindTenant tenant).groups.range ord).map Prod.snd =
      [] := congrArg (List.map Prod.snd) (List.perm_nil.mp (ord.perm _))
  rw [load_eq_ok_iff, hdefinitions, hgroups]
  rfl

/-- Two different values that are written alike are behind one revision. -/
theorem revision_collides {v v' : Value} (hv : v.Valid defaultLimits) (hv' : v'.Valid defaultLimits)
    (hne : v ≠ v') (htype : v'.type = v.type)
    (halike : ValueWire.codec.Alike (encodeValue v) (encodeValue v'))
    (loader : ProviderSnapshotLoader) (ord : MapOrder) (now : Time) :
    ∃ s s' : Snapshot Empty,
      newSnapshotWithGroups ord [constantly v] [] defaultLimits = .ok s ∧
      newSnapshotWithGroups ord [constantly v'] [] defaultLimits = .ok s' ∧
      (∀ candidate, loader.load ord (.ok (s.bindTenant (str "t"))) now = .ok candidate →
        ∃ candidate', loader.load ord (.ok (s'.bindTenant (str "t"))) now = .ok candidate' ∧
          candidate'.revision = candidate.revision) ∧
      ∃ r r' : EvaluationResult,
        (s.bindTenant (str "t")).evaluate ord (str "a") v.type
          { Context.empty with tenant := str "t" } = .ok r ∧
        (s'.bindTenant (str "t")).evaluate ord (str "a") v.type
          { Context.empty with tenant := str "t" } = .ok r' ∧ r.value ≠ r'.value := by
  refine ⟨_, _, accepted_constantly hv ord, accepted_constantly hv' ord, ?_,
    defaultResult (constantly v) .default [], defaultResult (constantly v') .default [],
    evaluate_constantly v ord, htype ▸ evaluate_constantly v' ord, hne⟩
  intro candidate hload
  obtain ⟨document, hdocument, rfl⟩ := load_singleton_iff.mp hload
  have hdocument' := export_constantly hv' htype halike hdocument
  exact ⟨_, load_singleton_iff.mpr ⟨document, hdocument', rfl⟩, rfl⟩

end Collisions

/-! ### Revisions and evaluation -/

section Identity

variable [Runtime]

/-- Snapshots with the same revision evaluate alike if their texts are written differently and the
order of dependencies does not matter; two different values that are written alike are always
behind one revision. -/
theorem revision_identifies :
    (∀ (limits : Limits) (ord ord' : MapOrder) (definitions definitions' : List (Definition Empty))
      (groups groups' : List (GroupDefinition Empty)) (s s' : Snapshot Empty),
      newSnapshotWithGroups ord definitions groups limits = .ok s →
      newSnapshotWithGroups ord' definitions' groups' limits = .ok s' →
      Set.InjOn Runtime.sha256 (s.documents ∪ s'.documents) →
      s.texts.Separate s'.texts →
      SameOrder limits s s' →
      ∀ (tenant : Bytes) (loader loader' : ProviderSnapshotLoader) (ord₁ ord₂ : MapOrder)
        (now now' : Time) (candidate candidate' : SnapshotCandidate Empty),
        loader.load ord₁ (.ok (s.bindTenant tenant)) now = .ok candidate →
        loader'.load ord₂ (.ok (s'.bindTenant tenant)) now' = .ok candidate' →
        candidate.revision = candidate'.revision →
        ∀ (ord₃ : MapOrder) (key : Bytes) (expected : ValueType) (context : Context),
          (s'.bindTenant tenant).evaluate ord₃ key expected context =
            (s.bindTenant tenant).evaluate ord₃ key expected context) ∧
    ∀ v v' : Value,
      v.Valid defaultLimits →
      v'.Valid defaultLimits →
      v ≠ v' →
      v'.type = v.type →
      ValueWire.codec.Alike (encodeValue v) (encodeValue v') →
      ∀ (loader : ProviderSnapshotLoader) (ord : MapOrder) (now : Time),
        ∃ s s' : Snapshot Empty,
          newSnapshotWithGroups ord [constantly v] [] defaultLimits = .ok s ∧
          newSnapshotWithGroups ord [constantly v'] [] defaultLimits = .ok s' ∧
          (∀ candidate, loader.load ord (.ok (s.bindTenant (str "t"))) now = .ok candidate →
            ∃ candidate',
              loader.load ord (.ok (s'.bindTenant (str "t"))) now = .ok candidate' ∧
              candidate'.revision = candidate.revision) ∧
          ∃ r r' : EvaluationResult,
            (s.bindTenant (str "t")).evaluate ord (str "a") v.type
              { Context.empty with tenant := str "t" } = .ok r ∧
            (s'.bindTenant (str "t")).evaluate ord (str "a") v.type
              { Context.empty with tenant := str "t" } = .ok r' ∧
            r.value ≠ r'.value := by
  refine ⟨?_, ?_⟩
  · intro limits ord ord' definitions definitions' groups groups' s s' h h' hsha htexts horder
      tenant loader loader' ord₁ ord₂ now now' candidate candidate' hload hload' hrevision
    exact evaluate_of_revision h h' hsha htexts horder hload hload' hrevision
  · intro v v' hv hv' hne htype halike loader ord now
    exact revision_collides hv hv' hne htype halike loader ord now

end Identity

/-- A feature that is on where the fact is the text. -/
def onFact (raw : Bytes) : Definition Empty :=
  { constantly (.boolean false) with
    variants := (∅ : GoMap Value).insert (str "on") (.boolean true)
    strategies := [.fact ⟨str "s", str "on", str "x", .structured raw⟩] }

/-- Behind one revision there are two features, written alike and evaluated differently, though
the hash is injective. -/
theorem onFact_revision_shared :
    letI := unaryRuntime
    Function.Injective Runtime.sha256 ∧
      ∃ (s s' : Snapshot Empty) (candidate candidate' : SnapshotCandidate Empty),
        newSnapshotWithGroups .sorted [onFact (str "\x7b\x7d")] [] defaultLimits = .ok s ∧
        newSnapshotWithGroups .sorted [onFact (str "\x7b \x7d")] [] defaultLimits = .ok s' ∧
        (⟨str "p"⟩ : ProviderSnapshotLoader).load .sorted (.ok (s.bindTenant (str "t"))) .zero =
          .ok candidate ∧
        (⟨str "p"⟩ : ProviderSnapshotLoader).load .sorted (.ok (s'.bindTenant (str "t"))) .zero =
          .ok candidate' ∧
        candidate.revision = candidate'.revision ∧
        ((s.bindTenant (str "t")).evaluate .sorted (str "a") .boolean
          { Context.empty with
            tenant := str "t"
            facts := (∅ : GoMap Value).insert (str "x") (.structured (str "\x7b\x7d")) }).map
              EvaluationResult.value = .ok (.boolean true) ∧
        ((s'.bindTenant (str "t")).evaluate .sorted (str "a") .boolean
          { Context.empty with
            tenant := str "t"
            facts := (∅ : GoMap Value).insert (str "x") (.structured (str "\x7b\x7d")) }).map
              EvaluationResult.value = .ok (.boolean false) := by
  let _ := unaryRuntime
  have hexport : Export .sorted [onFact (str "\x7b\x7d")] [] defaultLimits =
      Export .sorted [onFact (str "\x7b \x7d")] [] defaultLimits := by
    decide +kernel
  have hsome : (Export .sorted [onFact (str "\x7b\x7d")] []
      defaultLimits).toOption.isSome = true := by
    decide +kernel
  obtain ⟨document, hdocument⟩ := exists_of_isSome_toOption hsome
  refine ⟨fun _ _ h => h, snapshotOf [onFact (str "\x7b\x7d")] [] defaultLimits,
    snapshotOf [onFact (str "\x7b \x7d")] [] defaultLimits, _, _, rfl, rfl,
    load_singleton_iff.mpr ⟨document, hdocument, rfl⟩,
    load_singleton_iff.mpr ⟨document, hexport.symm.trans hdocument, rfl⟩, rfl, rfl, rfl⟩

/-- The feature with tags. -/
def taggedFact (tags : List Bytes) : Definition Empty := { onFact (str "\x7b\x7d") with tags }

/-- Two orders of the tags give one revision and evaluate alike; two strings that are not valid
UTF-8 evaluate differently. -/
theorem revision_identifies_tagged :
    letI := unaryRuntime
    ∃ (s s' : Snapshot Empty) (candidate candidate' : SnapshotCandidate Empty),
      newSnapshotWithGroups .sorted [taggedFact [str "x", str "y"]] [] defaultLimits = .ok s ∧
      newSnapshotWithGroups .sorted [taggedFact [str "y", str "x"]] [] defaultLimits = .ok s' ∧
      (⟨str "p"⟩ : ProviderSnapshotLoader).load .sorted (.ok (s.bindTenant (str "t"))) .zero =
        .ok candidate ∧
      (⟨str "p"⟩ : ProviderSnapshotLoader).load .sorted (.ok (s'.bindTenant (str "t"))) .zero =
        .ok candidate' ∧
      candidate.revision = candidate'.revision ∧
      (∀ context : Context, (s'.bindTenant (str "t")).evaluate .sorted (str "a") .boolean context =
        (s.bindTenant (str "t")).evaluate .sorted (str "a") .boolean context) ∧
      ∃ u u' : Snapshot Empty,
        newSnapshotWithGroups .sorted [constantly (.string [0xFE])] [] defaultLimits = .ok u ∧
        newSnapshotWithGroups .sorted [constantly (.string [0xFF])] [] defaultLimits = .ok u' ∧
        ∃ r r' : EvaluationResult,
          (u.bindTenant (str "t")).evaluate .sorted (str "a") .string
            { Context.empty with tenant := str "t" } = .ok r ∧
          (u'.bindTenant (str "t")).evaluate .sorted (str "a") .string
            { Context.empty with tenant := str "t" } = .ok r' ∧ r.value ≠ r'.value := by
  let _ := unaryRuntime
  have hexport : Export .sorted [taggedFact [str "x", str "y"]] [] defaultLimits =
      Export .sorted [taggedFact [str "y", str "x"]] [] defaultLimits := by
    decide +kernel
  have hsome : (Export .sorted [taggedFact [str "x", str "y"]] []
      defaultLimits).toOption.isSome = true := by
    decide +kernel
  obtain ⟨document, hdocument⟩ := exists_of_isSome_toOption hsome
  have hload : (⟨str "p"⟩ : ProviderSnapshotLoader).load .sorted (.ok ((snapshotOf
      [taggedFact [str "x", str "y"]] [] defaultLimits).bindTenant (str "t"))) .zero = .ok _ :=
    load_singleton_iff.mpr ⟨document, hdocument, rfl⟩
  have hload' : (⟨str "p"⟩ : ProviderSnapshotLoader).load .sorted (.ok ((snapshotOf
      [taggedFact [str "y", str "x"]] [] defaultLimits).bindTenant (str "t"))) .zero = .ok _ :=
    load_singleton_iff.mpr ⟨document, hexport.symm.trans hdocument, rfl⟩
  obtain ⟨hidentifies, hcollides⟩ := revision_identifies
  obtain ⟨u, u', hu, hu', -, hresults⟩ := hcollides (.string [0xFE]) (.string [0xFF])
    (Value.validate_eq_ok_iff.mp rfl) (Value.validate_eq_ok_iff.mp rfl) (by decide) rfl ⟨rfl, rfl⟩
    ⟨str "p"⟩ .sorted .zero
  refine ⟨_, _, _, _, rfl, rfl, hload, hload', rfl, fun context => ?_, u, u', hu, hu', hresults⟩
  have hstrings : ∀ t ∈ (snapshotOf [taggedFact [str "x", str "y"]] [] defaultLimits).strings,
      ∀ t' ∈ (snapshotOf [taggedFact [str "y", str "x"]] [] defaultLimits).strings,
        Json.escapeString t = Json.escapeString t' → t = t' := by
    decide +kernel
  have hraws : ∀ r ∈ (snapshotOf [taggedFact [str "x", str "y"]] [] defaultLimits).raws,
      ∀ r' ∈ (snapshotOf [taggedFact [str "y", str "x"]] [] defaultLimits).raws,
        Json.compact r = Json.compact r' → r = r' := by
    decide +kernel
  have horder : SameOrder defaultLimits
      (snapshotOf [taggedFact [str "x", str "y"]] [] defaultLimits)
      (snapshotOf [taggedFact [str "y", str "x"]] [] defaultLimits) := by
    have hone {tags : List Bytes} {key : Bytes} {d : Definition Empty}
        (hd : (definitionIndex [taggedFact tags])[key]? = some d) : d.dependencies = [] := by
      obtain ⟨x, hx, -, rfl⟩ := (GoMap.lookup_index (by simp)).mp hd
      rw [List.mem_singleton.mp hx]
      rfl
    exact .inr fun key d e hd he => (hone he).trans (hone hd).symm
  exact hidentifies defaultLimits .sorted .sorted [taggedFact [str "x", str "y"]]
    [taggedFact [str "y", str "x"]] [] [] _ _ rfl rfl (fun _ _ _ _ h => h)
    ⟨fun t t' ht ht' => hstrings t ht t' ht', fun r r' hr hr' => hraws r hr r' hr'⟩ horder (str "t")
    ⟨str "p"⟩ ⟨str "p"⟩ .sorted .sorted .zero .zero _ _ hload hload' rfl .sorted (str "a") .boolean
    context

end FeatureFlags
