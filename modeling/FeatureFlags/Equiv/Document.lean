import FeatureFlags.Equiv.Wire
import FeatureFlags.Equiv.WireCodec
import FeatureFlags.Lib.Sorted

/-!
# Exported documents are canonical

What `Export` writes does not depend on the order of definitions and groups, nor on that of their
dependencies, tags and target lists.  What `Import` reads from it is the input again, sorted and
with compacted structured values, and is exported as the same text.

* `Rearranged`: two lists that are equal up to their order and to a relation between the elements.
* `Definition.compacted`, `Utf8`: what the text keeps of a definition whose strings are valid.
* `import_export`: what `Import` reads from an exported document.
-/

namespace FeatureFlags

open Go
open Std (ExtTreeMap)

/-! ### The order of lists -/

section Order

variable {α : Type}

/-- The lists have related elements, if one of them is brought into the order of the other. -/
def Rearranged (R : α → α → Prop) (l l' : List α) : Prop := ∃ m, l.Perm m ∧ List.Forall₂ R m l'

instance transCmp_key (key : α → Bytes) : Std.TransCmp fun a b => compare (key a) (key b) :=
  inferInstanceAs (Std.TransCmp (compareOn key))

/-- Lists with distinct keys that are sorted by their keys have related elements. -/
theorem Rearranged.insertionSort {R : α → α → Prop} {key : α → Bytes} {l l' : List α}
    (h : Rearranged R l l') (hkey : ∀ a b, R a b → key a = key b) (hnodup : (l.map key).Nodup) :
    List.Forall₂ R (l.insertionSort fun a b => (compare (key a) (key b)).isLE = true)
      (l'.insertionSort fun a b => (compare (key a) (key b)).isLE = true) := by
  obtain ⟨m, hperm, hrel⟩ := h
  have hantisymm : ∀ a ∈ l, ∀ b ∈ l, compare (key a) (key b) = .eq → a = b := by
    intro a ha b hb hab
    exact List.inj_on_of_nodup_map hnodup ha hb (Std.LawfulEqOrd.eq_of_compare hab)
  have hsort := Lib.insertionSort_eq_of_perm (fun a b => compare (key a) (key b)) hantisymm hperm
  rw [← hsort]
  refine Lib.forall₂_insertionSort (fun a b a' b' hab hab' => ?_) hrel
  rw [hkey a b hab, hkey a' b' hab']

theorem sortedStrings_perm {values values' : List Bytes} (h : values.Perm values') :
    sortedStrings values' = sortedStrings values :=
  Lib.insertionSort_eq_of_perm compare (fun _ _ _ _ hab => Std.LawfulEqOrd.eq_of_compare hab) h

/-- The order of dependencies compares both of their fields. -/
theorem sortedDependencies_perm {dependencies dependencies' : List Dependency}
    (h : dependencies.Perm dependencies') :
    (dependencies'.insertionSort fun a b => a.isLE b = true) =
      dependencies.insertionSort fun a b => a.isLE b = true := by
  have htrans : Std.TransCmp fun a b : Dependency =>
      (compare a.featureKey b.featureKey).then (compare a.requiredVariant b.requiredVariant) :=
    inferInstanceAs (Std.TransCmp
      (compareLex (compareOn Dependency.featureKey) (compareOn Dependency.requiredVariant)))
  refine Lib.insertionSort_eq_of_perm _ (fun a _ b _ hab => ?_) h
  obtain ⟨hkey, hvariant⟩ := Ordering.then_eq_eq.mp hab
  obtain ⟨featureKey, requiredVariant⟩ := a
  obtain rfl := Std.LawfulEqOrd.eq_of_compare hkey
  obtain rfl := Std.LawfulEqOrd.eq_of_compare hvariant
  rfl

theorem mapM_eq_of_forall₂ {ε β : Type} {R : α → α → Prop} {f : α → Except ε β} {l l' : List α}
    (h : List.Forall₂ R l l') (hf : ∀ a b, R a b → f b = f a) : l'.mapM f = l.mapM f := by
  induction h with
  | nil => rfl
  | cons hab _ ih => rw [List.mapM_cons, List.mapM_cons, ih, hf _ _ hab]

end Order

section Reordered

variable {κ : Type} [CustomStrategy κ]

theorem encodeStrategy_reordered {s t : Strategy κ} (h : s.Reordered t) :
    encodeStrategy t = encodeStrategy s := by
  cases h with
  | exactTarget name variant attributes htenants hsubjects henvironments =>
    simp only [encodeStrategy, sortedStrings_perm htenants, sortedStrings_perm hsubjects,
      sortedStrings_perm henvironments]
    rfl
  | set name variant hallowTenants hdenyTenants hallowSubjects hdenySubjects =>
    simp only [encodeStrategy, sortedStrings_perm hallowTenants, sortedStrings_perm hdenyTenants,
      sortedStrings_perm hallowSubjects, sortedStrings_perm hdenySubjects]
    rfl
  | refl => rfl

theorem encodeDefinition_reordered {d e : Definition κ} (h : d.Reordered e) :
    encodeDefinition e = encodeDefinition d := by
  simp only [encodeDefinition, h.key, h.type, h.default, h.variants, h.metadata, h.owner,
    h.lifecycle, sortedDependencies_perm h.dependencies, h.groups, sortedStrings_perm h.tags,
    h.version, mapM_eq_of_forall₂ h.strategies fun _ _ => encodeStrategy_reordered]

theorem encodeGroup_reordered {g g' : GroupDefinition κ} (h : g.Reordered g') :
    encodeGroup g' = encodeGroup g := by
  simp only [encodeGroup, h.key, h.parent, h.metadata, h.owner, sortedStrings_perm h.tags,
    h.version, mapM_eq_of_forall₂ h.strategies fun _ _ => encodeStrategy_reordered]

/-- What `Export` writes for these structs. -/
def marshalDocument [Runtime] (features : List DefinitionWire) (groups : List GroupWire) :
    Option Bytes :=
  DocumentWire.codec.marshal ⟨documentFormat, documentVersion, .ofList features, .ofList groups⟩

/-- What a call of `Export` that succeeds has done. -/
theorem export_eq_ok_iff [Runtime] {ord : MapOrder} {definitions : List (Definition κ)}
    {groups : List (GroupDefinition κ)} {limits : Limits} {data : Bytes} :
    Export ord definitions groups limits = .ok data ↔
      (SnapshotOk definitions groups limits ∧ Searched ord (definitionIndex definitions) limits) ∧
        ∃ features wires,
          (definitions.insertionSort fun a b => (compare a.key b.key).isLE = true).mapM
              encodeDefinition = .ok features ∧
            (groups.insertionSort fun a b => (compare a.key b.key).isLE = true).mapM encodeGroup =
              .ok wires ∧ marshalDocument features wires = some data := by
  simp only [Export, bind_eq_ok, newSnapshotWithGroups_eq_ok_iff, marshalDocument]
  constructor
  · rintro ⟨s, ⟨hok, hsearched, -⟩, features, hfeatures, wires, hwires, h⟩
    refine ⟨⟨hok, hsearched⟩, features, wires, hfeatures, hwires, ?_⟩
    split at h
    · next hmarshal =>
      rw [pure_eq_ok] at h
      rw [hmarshal, h]
    · cases h
  · rintro ⟨⟨hok, hsearched⟩, features, wires, hfeatures, hwires, hmarshal⟩
    refine ⟨_, ⟨hok, hsearched, rfl⟩, features, hfeatures, wires, hwires, ?_⟩
    rw [hmarshal]
    rfl

/-- Inputs that are equal up to the order of their lists are exported alike. -/
theorem export_rearranged [Runtime] {ord ord' : MapOrder}
    {definitions definitions' : List (Definition κ)} {groups groups'} {limits limits' : Limits}
    {data data' : Bytes} (hdefinitions : Rearranged Definition.Reordered definitions definitions')
    (hgroups : Rearranged GroupDefinition.Reordered groups groups')
    (h : Export ord definitions groups limits = .ok data)
    (h' : Export ord' definitions' groups' limits' = .ok data') : data' = data := by
  obtain ⟨⟨hok, -⟩, features, wires, hfeatures, hwires, hmarshal⟩ := export_eq_ok_iff.mp h
  obtain ⟨-, features', wires', hfeatures', hwires', hmarshal'⟩ := export_eq_ok_iff.mp h'
  have hsorted := hdefinitions.insertionSort (fun _ _ hab => hab.key) hok.nodup
  have hsorted' := hgroups.insertionSort (fun _ _ hab => hab.key) hok.groups_ok.nodup
  rw [mapM_eq_of_forall₂ hsorted fun _ _ => encodeDefinition_reordered, hfeatures] at hfeatures'
  rw [mapM_eq_of_forall₂ hsorted' fun _ _ => encodeGroup_reordered, hwires] at hwires'
  cases hfeatures'
  cases hwires'
  rw [hmarshal] at hmarshal'
  exact (Option.some.inj hmarshal').symm

end Reordered

/-! ### Valid strings -/

def Value.strings : Value → List Bytes
  | .string text | .decimal text => [text]
  | _ => []

/-- The keys and values of a map of strings. -/
def mapStrings (m : GoMap Bytes) : List Bytes := m.toList.flatMap fun x => [x.1, x.2]

section Strings

variable {κ : Type}

/-- The strings of a built-in strategy. -/
def Strategy.strings : Strategy κ → List Bytes
  | .exactTarget s =>
    [s.name, s.variant] ++ s.tenants ++ s.subjects ++ s.environments ++ mapStrings s.attributes
  | .percentage s => [s.name, s.variant, s.seed]
  | .set s =>
    [s.name, s.variant] ++ s.allowTenants ++ s.denyTenants ++ s.allowSubjects ++ s.denySubjects
  | .timeWindow s => [s.name, s.variant]
  | .schedule s => [s.name, s.variant, s.location]
  | .fact s => [s.name, s.variant, s.fact] ++ s.equals.strings
  | .custom _ => []

def Definition.strings (d : Definition κ) : List Bytes :=
  [d.key, d.type.name, d.owner, d.lifecycle.label] ++ d.default.strings ++
    (d.variants.toList.flatMap fun x => x.1 :: x.2.strings) ++ mapStrings d.metadata ++
    (d.dependencies.flatMap fun dep => [dep.featureKey, dep.requiredVariant]) ++ d.groups ++
    d.tags ++ d.strategies.flatMap Strategy.strings

def GroupDefinition.strings (g : GroupDefinition κ) : List Bytes :=
  [g.key, g.parent, g.owner] ++ mapStrings g.metadata ++ g.tags ++
    g.strategies.flatMap Strategy.strings

end Strings

/-- The strings are valid UTF-8. -/
def Utf8 (strings : List Bytes) : Prop := ∀ s ∈ strings, ValidString s

instance (strings : List Bytes) : Decidable (Utf8 strings) :=
  inferInstanceAs (Decidable (∀ s ∈ strings, _))

namespace Utf8

variable {s : Bytes} {l l' : List Bytes}

@[simp] theorem cons_iff : Utf8 (s :: l) ↔ ValidString s ∧ Utf8 l := List.forall_mem_cons

@[simp] theorem append_iff : Utf8 (l ++ l') ↔ Utf8 l ∧ Utf8 l' := List.forall_mem_append

@[simp] theorem flatMap_iff {α : Type} {l : List α} {f : α → List Bytes} :
    Utf8 (l.flatMap f) ↔ ∀ a ∈ l, Utf8 (f a) := by
  simp only [Utf8, List.mem_flatMap]
  exact ⟨fun h a ha s hs => h s ⟨a, ha, hs⟩, fun h s ⟨a, ha, hs⟩ => h a ha s hs⟩

theorem perm (h : Utf8 l) (hperm : l.Perm l') : Utf8 l' := fun s hs => h s (hperm.mem_iff.mpr hs)

theorem map_sanitize (h : Utf8 l) : l.map sanitize = l := by
  conv_rhs => rw [← List.map_id l]
  exact List.map_congr_left fun s hs => sanitize_of_valid (h s hs)

theorem normSlice_ofList (h : Utf8 l) : Codec.normSlice sanitize (.ofList l) = .ofList l := by
  rw [Codec.normSlice, Codec.Slice.toList_ofList, h.map_sanitize]

theorem normSlice_sorted (h : Utf8 l) :
    Codec.normSlice sanitize (.ofList (sortedStrings l)) = .ofList (sortedStrings l) :=
  (h.perm (perm_sortedStrings l)).normSlice_ofList

end Utf8

/-- A map with valid keys comes back with the same keys. -/
theorem normMap_of_valid {V : Type} {norm : V → V} {m : GoMap V}
    (h : ∀ x ∈ m.toList, ValidString x.1) : Codec.normMap norm m = m.map fun _ => norm := by
  have hkeys : Codec.normMap norm m =
      GoMap.index Prod.fst Prod.snd (m.map fun _ => norm).toList := by
    rw [Codec.normMap_eq, ExtTreeMap.toList_map]
    refine congrArg (List.foldl _ ∅) (List.map_congr_left fun x hx => ?_)
    rw [sanitize_of_valid (h x hx)]
  rw [hkeys]
  refine ExtTreeMap.ext_getElem? fun k => Option.ext fun v => ?_
  refine (GoMap.lookup_index (GoMap.nodup_keys _)).trans ?_
  constructor
  · rintro ⟨⟨k', v'⟩, hx, rfl, rfl⟩
    exact GoMap.mem_toList.mp hx
  · intro hv
    exact ⟨(k, v), GoMap.mem_toList.mpr hv, rfl, rfl⟩

theorem normMap_strings {m : GoMap Bytes} (h : Utf8 (mapStrings m)) :
    Codec.normMap sanitize m = m := by
  have hentries : ∀ x ∈ m.toList, ValidString x.1 ∧ ValidString x.2 := by
    intro x hx
    have hvalid := Utf8.flatMap_iff.mp h x hx
    exact ⟨hvalid x.1 (by simp), hvalid x.2 (by simp)⟩
  rw [normMap_of_valid fun x hx => (hentries x hx).1]
  refine ExtTreeMap.ext_getElem? fun k => ?_
  rw [ExtTreeMap.getElem?_map]
  cases hk : m[k]? with
  | none => rfl
  | some v =>
    exact congrArg some (sanitize_of_valid (hentries (k, v) (GoMap.mem_toList.mpr hk)).2)

/-- A time is written with ASCII characters. -/
theorem validString_formatOptionalTime (t : Time) : ValidString (formatOptionalTime t) := by
  have hdigit {c : UInt8} (h : Json.isDigit c = true) : c < 0x80 := by
    rw [UInt8.lt_iff_toNat_lt]
    exact Nat.lt_of_le_of_lt ((isDigit_iff c).mp h).2 (by decide)
  have hpadded (width n : Nat) : ∀ c ∈ padded width n, c < 0x80 := fun c hc =>
    hdigit (isDigit_of_mem_padded hc)
  have hyear (year : Int) : ∀ c ∈ formatYear year, c < 0x80 := by
    unfold formatYear
    split_ifs
    · exact List.forall_mem_cons.mpr ⟨by decide, hpadded 4 _⟩
    · exact hpadded 4 _
  have hfraction (nanosecond : Nat) : ∀ c ∈ formatFraction nanosecond, c < 0x80 := by
    unfold formatFraction
    split_ifs
    · exact nofun
    · refine List.forall_mem_cons.mpr ⟨by decide, fun c hc => ?_⟩
      rw [List.mem_reverse] at hc
      exact hpadded 9 _ c (List.mem_reverse.mp ((List.dropWhile_sublist _).mem hc))
  refine validString_of_ascii ?_
  unfold formatOptionalTime
  split_ifs
  · exact nofun
  · have hoffset : ∀ c ∈ formatOffset 0, c < 0x80 := by
      rw [formatOffset, if_pos rfl, List.forall_mem_singleton]
      decide
    simp only [formatRFC3339Nano, List.forall_mem_append, List.forall_mem_cons]
    exact ⟨⟨⟨⟨⟨⟨⟨hyear _, by decide, hpadded 2 _⟩, by decide, hpadded 2 _⟩, by decide, hpadded 2 _⟩,
      by decide, hpadded 2 _⟩, by decide, hpadded 2 _⟩, hfraction _⟩, hoffset⟩

/-! ### Compacted values -/

/-- The value with a compacted JSON text. -/
def Value.compacted : Value → Value
  | .structured raw => .structured (Codec.normRaw raw)
  | v => v

theorem norm_encodeValue {v : Value} (h : Utf8 v.strings) :
    (encodeValue v).norm = encodeValue v.compacted := by
  have hname : sanitize v.type.name = v.type.name := by
    cases v <;> rfl
  cases v with
  | string text | decimal text =>
    have htext : sanitize text = text := sanitize_of_valid (h text (by simp [Value.strings]))
    simp only [encodeValue, ValueWire.norm, Value.compacted, hname, Option.map_some, htext]
    rfl
  | _ =>
    simp only [encodeValue, ValueWire.norm, Value.compacted, hname, Option.map_none]
    rfl

theorem normMap_empty : Codec.normMap sanitize ∅ = ∅ := normMap_strings (by decide)

section Compacted

variable {κ : Type}

/-- The strategy with a compacted value. -/
def Strategy.compacted : Strategy κ → Strategy κ
  | .fact s => .fact { s with equals := s.equals.compacted }
  | s => s

/-- The definition with compacted values. -/
def Definition.compacted (d : Definition κ) : Definition κ :=
  { d with
    default := d.default.compacted
    variants := d.variants.map fun _ => Value.compacted
    strategies := d.strategies.map Strategy.compacted }

/-- The group with compacted values. -/
def GroupDefinition.compacted (g : GroupDefinition κ) : GroupDefinition κ :=
  { g with strategies := g.strategies.map Strategy.compacted }

variable [CustomStrategy κ]

theorem encodeStrategy_compacted {s : Strategy κ} {w : StrategyWire} (h : Utf8 s.strings)
    (hw : encodeStrategy s = .ok w) : encodeStrategy s.compacted = .ok w.norm := by
  have hkind : ∀ kind ∈ [str "exact", str "percentage", str "set", str "time_window",
      str "schedule", str "fact"], sanitize kind = kind := by
    decide
  simp only [List.forall_mem_cons, List.not_mem_nil, false_imp_iff, implies_true, and_true]
    at hkind
  -- the fields of other kinds are empty and stay so
  have hnone : Codec.normSlice sanitize (.ofList []) = .ofList [] := rfl
  have hwindows (windows : List WeeklyWire) :
      Codec.normSlice id (.ofList windows) = .ofList windows := by
    rw [Codec.normSlice, Codec.Slice.toList_ofList, List.map_id]
  cases s with
  | exactTarget s | percentage s | set s | timeWindow s | schedule s | fact s =>
    cases hw
    simp only [Strategy.strings, Utf8.append_iff, Utf8.cons_iff] at h
    simp only [Strategy.compacted, encodeStrategy, StrategyWire.norm, StrategyWire.zero,
      Strategy.strategyName, Strategy.targetVariant, sanitize_nil, hnone, hwindows, hkind, h,
      sanitize_of_valid, validString_formatOptionalTime, Utf8.normSlice_sorted, normMap_strings,
      normMap_empty, norm_encodeValue, Option.map_none, Option.map_some]
  | custom s => cases hw

/-- What comes back of the strategies of a definition or a group. -/
theorem mapM_encodeStrategy_compacted {strategies : List (Strategy κ)} {wires}
    (h : ∀ s ∈ strategies, Utf8 s.strings) (hwires : strategies.mapM encodeStrategy = .ok wires) :
    (strategies.map Strategy.compacted).mapM encodeStrategy =
      .ok (wires.map StrategyWire.norm) := by
  rw [mapM_eq_ok_iff] at hwires ⊢
  induction hwires with
  | nil => exact .nil
  | cons hw _ ih =>
    obtain ⟨hs, hstrategies⟩ := List.forall_mem_cons.mp h
    exact .cons (encodeStrategy_compacted hs hw) (ih hstrategies)

theorem encodeDefinition_compacted {d : Definition κ} {w : DefinitionWire} (h : Utf8 d.strings)
    (hw : encodeDefinition d = .ok w) : encodeDefinition d.compacted = .ok w.norm := by
  simp only [Definition.strings, Utf8.append_iff, Utf8.cons_iff, Utf8.flatMap_iff] at h
  obtain ⟨⟨⟨⟨⟨⟨⟨⟨hkey, htype, howner, hlifecycle, -⟩, hdefault⟩, hvariants⟩, hmetadata⟩,
    hdependencies⟩, hgroups⟩, htags⟩, hstrategies⟩ := h
  simp only [encodeDefinition, bind_eq_ok, mapError_eq_ok, pure_eq_ok] at hw
  obtain ⟨wires, hwires, rfl⟩ := hw
  have hwires' := mapM_encodeStrategy_compacted hstrategies hwires
  -- variants are translated one by one, and so are dependencies
  have hvariants' : Codec.normMap ValueWire.norm (d.variants.map fun _ v => encodeValue v) =
      (d.variants.map fun _ => Value.compacted).map fun _ v => encodeValue v := by
    rw [normMap_of_valid fun x hx => ?_]
    · refine ExtTreeMap.ext_getElem? fun k => ?_
      simp only [ExtTreeMap.getElem?_map]
      cases hk : d.variants[k]? with
      | none => rfl
      | some v =>
        exact congrArg some (norm_encodeValue (hvariants (k, v) (GoMap.mem_toList.mpr hk)).2)
    · rw [ExtTreeMap.toList_map] at hx
      obtain ⟨y, hy, rfl⟩ := List.mem_map.mp hx
      exact (hvariants y hy).1
  have hdependencies' (l : List Dependency) (hl : ∀ dep ∈ l, dep ∈ d.dependencies) :
      Codec.normSlice DependencyWire.norm
          (.ofList (l.map fun dep => ⟨dep.featureKey, dep.requiredVariant⟩)) =
        .ofList (l.map fun dep => ⟨dep.featureKey, dep.requiredVariant⟩) := by
    rw [Codec.normSlice, Codec.Slice.toList_ofList, List.map_map]
    refine congrArg Codec.Slice.ofList (List.map_congr_left fun dep hdep => ?_)
    obtain ⟨hfeatureKey, hrequired, -⟩ := hdependencies dep (hl dep hdep)
    simp only [Function.comp, DependencyWire.norm, sanitize_of_valid hfeatureKey,
      sanitize_of_valid hrequired]
  have hsorted := hdependencies' (d.dependencies.insertionSort fun a b => a.isLE b = true)
    fun dep hdep => (List.mem_insertionSort _).mp hdep
  have hslice : Codec.normSlice StrategyWire.norm (.ofList wires) =
      .ofList (wires.map StrategyWire.norm) := by
    rw [Codec.normSlice, Codec.Slice.toList_ofList]
  simp only [encodeDefinition, Definition.compacted, hwires', Except.mapError, bind, Except.bind,
    pure, Except.pure, DefinitionWire.norm, sanitize_of_valid hkey, sanitize_of_valid htype,
    sanitize_of_valid howner, sanitize_of_valid hlifecycle, norm_encodeValue hdefault, hvariants',
    normMap_strings hmetadata, hsorted, hgroups.normSlice_ofList, htags.normSlice_sorted, hslice]

theorem encodeGroup_compacted {g : GroupDefinition κ} {w : GroupWire} (h : Utf8 g.strings)
    (hw : encodeGroup g = .ok w) : encodeGroup g.compacted = .ok w.norm := by
  simp only [GroupDefinition.strings, Utf8.append_iff, Utf8.cons_iff, Utf8.flatMap_iff] at h
  obtain ⟨⟨⟨⟨hkey, hparent, howner, -⟩, hmetadata⟩, htags⟩, hstrategies⟩ := h
  simp only [encodeGroup, bind_eq_ok, mapError_eq_ok, pure_eq_ok] at hw
  obtain ⟨wires, hwires, rfl⟩ := hw
  have hwires' := mapM_encodeStrategy_compacted hstrategies hwires
  have hslice : Codec.normSlice StrategyWire.norm (.ofList wires) =
      .ofList (wires.map StrategyWire.norm) := by
    rw [Codec.normSlice, Codec.Slice.toList_ofList]
  simp only [encodeGroup, GroupDefinition.compacted, hwires', Except.mapError, bind, Except.bind,
    pure, Except.pure, GroupWire.norm, sanitize_of_valid hkey, sanitize_of_valid hparent,
    sanitize_of_valid howner, normMap_strings hmetadata, htags.normSlice_sorted, hslice]

end Compacted

/-! ### Compacted structs are written alike -/

section Alike

open Codec

variable {κ : Type} {limits : Limits}

variable [CustomStrategy κ]

theorem Value.Valid.exists_parse {raw : Bytes} (h : (Value.structured raw).Valid limits) :
    ∃ t, Json.parse raw = some t :=
  Option.isSome_iff_exists.mp h.2

theorem Value.Valid.payload_compacted {v : Value} (h : v.Valid limits) : v.compacted.Payload := by
  cases v with
  | structured raw =>
    obtain ⟨t, ht⟩ := h.exists_parse
    exact normRaw_ne_nil ht
  | _ => exact h.payload

variable [Runtime]

theorem alike_encodeValue {v : Value} (h : v.Valid limits) :
    ValueWire.codec.Alike (encodeValue v) (encodeValue v.compacted) := by
  cases v with
  | structured raw =>
    obtain ⟨t, ht⟩ := h.exists_parse
    have hraw := alike_normRaw ht
    exact .struct (.rest (.rest (.rest (.rest (.rest (.cons hraw (.refl _)))))))
  | _ => exact .refl _

theorem alike_encodeStrategy {s : Strategy κ} (h : s.validateStrategy limits = .ok ())
    {w w' : StrategyWire} (hw : encodeStrategy s = .ok w)
    (hw' : encodeStrategy s.compacted = .ok w') : StrategyWire.codec.Alike w w' := by
  cases s with
  | fact s =>
    simp only [Strategy.validateStrategy, FactStrategy.validateStrategy, bind_eq_ok,
      mapError_eq_ok, Value.validate_eq_ok_iff] at h
    obtain ⟨-, -, -, -, hequals⟩ := h
    have hpointer := (alike_encodeValue hequals).pointer
    simp only [Strategy.compacted, encodeStrategy, Except.ok.injEq] at hw hw'
    subst hw hw'
    -- `equals` is the last of the fields
    refine .struct ?_
    iterate 18 refine .rest ?_
    exact .cons hpointer (.refl _)
  | _ =>
    cases hw.symm.trans hw'
    exact .refl _

theorem alike_mapM_encodeStrategy {strategies : List (Strategy κ)}
    (h : ∀ s ∈ strategies, s.validateStrategy limits = .ok ()) {wires wires'}
    (hw : strategies.mapM encodeStrategy = .ok wires)
    (hw' : (strategies.map Strategy.compacted).mapM encodeStrategy = .ok wires') :
    StrategyWire.codec.slice.Alike (.ofList wires) (.ofList wires') := by
  refine Alike.slice ?_
  rw [Slice.toList_ofList, Slice.toList_ofList]
  rw [mapM_eq_ok_iff] at hw hw'
  induction hw generalizing wires' with
  | nil =>
    cases hw'
    exact .nil
  | cons hs _ ih =>
    obtain ⟨hvalid, hrest⟩ := List.forall_mem_cons.mp h
    cases hw' with
    | cons hs' hw' => exact .cons (alike_encodeStrategy hvalid hs hs') (ih hrest hw')

theorem alike_encodeDefinition {d : Definition κ} (h : d.Valid limits) {w w' : DefinitionWire}
    (hw : encodeDefinition d = .ok w) (hw' : encodeDefinition d.compacted = .ok w') :
    DefinitionWire.codec.Alike w w' := by
  simp only [Definition.compacted, encodeDefinition, bind_eq_ok, mapError_eq_ok, pure_eq_ok]
    at hw hw'
  obtain ⟨wires, hwires, rfl⟩ := hw
  obtain ⟨wires', hwires', rfl⟩ := hw'
  have hdefault := alike_encodeValue h.default
  have hstrategies := alike_mapM_encodeStrategy (fun s hs => (h.strategies s hs).valid) hwires
    hwires'
  have hcomp : ((d.variants.map fun _ => Value.compacted).map fun _ v => encodeValue v) =
      d.variants.map fun _ v => encodeValue v.compacted := by
    refine ExtTreeMap.ext_getElem? fun k => ?_
    simp only [ExtTreeMap.getElem?_map, Option.map_map, Function.comp_def]
  have hvariants : ValueWire.codec.map.Alike (d.variants.map fun _ v => encodeValue v)
      (d.variants.map fun _ v => encodeValue v.compacted) :=
    Alike.map fun name v hv => alike_encodeValue (h.variants name v hv).2.1
  rw [hcomp]
  refine .struct (.rest (.rest (.cons hdefault (.cons hvariants ?_))))
  iterate 7 refine .rest ?_
  exact .cons hstrategies (.refl _)

theorem alike_encodeGroup {g : GroupDefinition κ} (h : g.Valid limits) {w w' : GroupWire}
    (hw : encodeGroup g = .ok w) (hw' : encodeGroup g.compacted = .ok w') :
    GroupWire.codec.Alike w w' := by
  simp only [GroupDefinition.compacted, encodeGroup, bind_eq_ok, mapError_eq_ok, pure_eq_ok]
    at hw hw'
  obtain ⟨wires, hwires, rfl⟩ := hw
  obtain ⟨wires', hwires', rfl⟩ := hw'
  have hstrategies := alike_mapM_encodeStrategy (fun s hs => (h.strategies s hs).valid) hwires
    hwires'
  refine .struct ?_
  iterate 6 refine .rest ?_
  exact .cons hstrategies (.refl _)

/-- Lists of structs that are written alike make the same document. -/
theorem marshalDocument_alike {features features'} {groups groups' : List GroupWire}
    (hfeatures : List.Forall₂ DefinitionWire.codec.Alike features features')
    (hgroups : List.Forall₂ GroupWire.codec.Alike groups groups') :
    marshalDocument features' groups' = marshalDocument features groups := by
  have hslice : DefinitionWire.codec.slice.Alike (.ofList features) (.ofList features') :=
    Alike.slice (by rwa [Slice.toList_ofList, Slice.toList_ofList])
  have hslice' : GroupWire.codec.slice.Alike (.ofList groups) (.ofList groups') :=
    Alike.slice (by rwa [Slice.toList_ofList, Slice.toList_ofList])
  have hdocument : DocumentWire.codec.Alike
      ⟨documentFormat, documentVersion, .ofList features, .ofList groups⟩
      ⟨documentFormat, documentVersion, .ofList features', .ofList groups'⟩ :=
    .struct (.rest (.rest (.cons hslice (.cons hslice' (.refl _)))))
  rw [marshalDocument, Codec.marshal, hdocument.encode]
  rfl

end Alike

/-! ### Reading an exported document -/

section Import

variable {κ : Type} {limits : Limits}

/-- A sorted list whose elements keep their keys is still sorted. -/
theorem insertionSort_map_eq {α : Type} (key : α → Bytes) (f : α → α)
    (hkey : ∀ a, key (f a) = key a) (l : List α) :
    ((l.insertionSort fun a b => (compare (key a) (key b)).isLE = true).map f).insertionSort
        (fun a b => (compare (key a) (key b)).isLE = true) =
      (l.insertionSort fun a b => (compare (key a) (key b)).isLE = true).map f := by
  refine List.Pairwise.insertionSort_eq (List.pairwise_map.mpr ?_)
  refine (List.pairwise_insertionSort _ l).imp fun {a b} hab => ?_
  rw [hkey, hkey]
  exact hab

variable [CustomStrategy κ]

theorem Strategy.payload_compacted [Runtime] {s : Strategy κ}
    (h : s.validateStrategy limits = .ok ()) : s.compacted.Payload := by
  cases s with
  | fact s =>
    simp only [Strategy.validateStrategy, FactStrategy.validateStrategy, bind_eq_ok,
      mapError_eq_ok, Value.validate_eq_ok_iff] at h
    obtain ⟨-, -, -, -, hequals⟩ := h
    exact hequals.payload_compacted
  | _ => exact trivial

theorem eq_map_of_there_and_back {ε α β γ : Type} {f : α → Except ε β} {g : β → Except ε γ}
    {F : α → γ} {l : List α} {l' : List β} {l'' : List γ} (hl : l.mapM f = .ok l')
    (hl' : l'.mapM g = .ok l'') (h : ∀ a ∈ l, ∀ b c, f a = .ok b → g b = .ok c → c = F a) :
    l'' = l.map F := by
  rw [mapM_eq_ok_iff] at hl hl'
  induction hl generalizing l'' with
  | nil =>
    cases hl'
    rfl
  | cons ha _ ih =>
    obtain ⟨hhead, htail⟩ := List.forall_mem_cons.mp h
    cases hl' with
    | cons hb hl' => rw [List.map_cons, hhead _ _ ha hb, ih hl' htail]

/-- The structs of changed elements, next to those of the elements. -/
theorem forall₂_of_mapM_map {ε α β : Type} {R : β → β → Prop} {f : α → Except ε β} {g : α → α}
    {l : List α} {l' l'' : List β} (hl : l.mapM f = .ok l') (hl' : (l.map g).mapM f = .ok l'')
    (h : ∀ a ∈ l, ∀ b c, f a = .ok b → f (g a) = .ok c → R b c) : List.Forall₂ R l' l'' := by
  rw [mapM_eq_ok_iff] at hl hl'
  induction hl generalizing l'' with
  | nil =>
    cases hl'
    exact .nil
  | cons ha _ ih =>
    obtain ⟨hhead, htail⟩ := List.forall_mem_cons.mp h
    cases hl' with
    | cons hb hl' => exact .cons (hhead _ _ ha hb) (ih hl' htail)

variable [Runtime]

theorem Definition.Valid.payload_compacted {d : Definition κ} (h : d.Valid limits) :
    d.compacted.Payload where
  default := h.default.payload_compacted
  variants name v hv := by
    rw [show d.compacted.variants = d.variants.map fun _ => Value.compacted from rfl,
      ExtTreeMap.getElem?_map, Option.map_eq_some_iff] at hv
    obtain ⟨u, hu, rfl⟩ := hv
    exact (h.variants name u hu).2.1.payload_compacted
  strategies := List.forall_mem_map.mpr fun s hs =>
    Strategy.payload_compacted (h.strategies s hs).valid

theorem GroupDefinition.Valid.payload_compacted {g : GroupDefinition κ} (h : g.Valid limits) :
    g.compacted.Payload :=
  List.forall_mem_map.mpr fun s hs => Strategy.payload_compacted (h.strategies s hs).valid

/-- The definition that is read from an exported one. -/
def Definition.imported (d : Definition κ) : Definition κ := d.compacted.normal

/-- The group that is read from an exported one. -/
def GroupDefinition.imported (g : GroupDefinition κ) : GroupDefinition κ := g.compacted.normal

/-- What `Import` reads from an exported document. -/
theorem import_export {ord ord' : MapOrder} {definitions definitions' : List (Definition κ)}
    {groups groups' : List (GroupDefinition κ)} {limits' : Limits} {data : Bytes}
    (hutf8 : ∀ d ∈ definitions, Utf8 d.strings) (hutf8' : ∀ g ∈ groups, Utf8 g.strings)
    (h : Export ord definitions groups limits = .ok data)
    (himport : Import ord' data limits' = .ok (definitions', groups')) :
    definitions' = (definitions.insertionSort fun a b => (compare a.key b.key).isLE = true).map
        Definition.imported ∧
      groups' = (groups.insertionSort fun a b => (compare a.key b.key).isLE = true).map
        GroupDefinition.imported := by
  obtain ⟨⟨hok, -⟩, features, wires, hfeatures, hwires, hmarshal⟩ := export_eq_ok_iff.mp h
  simp only [Import, bind_eq_ok, rejectIf_eq_ok, exists_const, pure_eq_ok, Prod.mk.injEq]
    at himport
  obtain ⟨-, document, hdocument, -, definitions'', hdefinitions, groups'', hgroups, _, -, rfl,
    rfl⟩ := himport
  -- the text is read as `norm` of the structs that were written
  obtain ⟨Fits, hlawful⟩ := DocumentWire.readsBack
  have hvalue : DocumentWire.codec.decodeDocument data = .value document := by
    unfold decodeAll at hdocument
    split at hdocument
    · next a hdecode =>
      cases hdocument
      exact hdecode
    all_goals cases hdocument
  obtain ⟨-, rfl⟩ := hlawful.eq_norm_of_decodeDocument hmarshal hvalue
  simp only [DocumentWire.norm, Codec.normSlice, Codec.Slice.toList_ofList, List.mapM_map]
    at hdefinitions hgroups
  refine ⟨eq_map_of_there_and_back hfeatures hdefinitions fun d hd w d' hw hd' => ?_,
    eq_map_of_there_and_back hwires hgroups fun g hg w g' hw hg' => ?_⟩
  · have hmem : d ∈ definitions := (List.mem_insertionSort _).mp hd
    exact eq_normal_of_decodeDefinition (encodeDefinition_compacted (hutf8 d hmem) hw)
      (hok.valid d hmem).payload_compacted hd'
  · have hmem : g ∈ groups := (List.mem_insertionSort _).mp hg
    exact eq_normal_of_decodeGroup (encodeGroup_compacted (hutf8' g hmem) hw)
      (hok.groups_ok.valid g hmem).payload_compacted hg'

/-- What is read from an exported document is exported as the same text. -/
theorem export_imported {ord ord' : MapOrder} {definitions : List (Definition κ)}
    {groups : List (GroupDefinition κ)} {limits' : Limits} {data data' : Bytes}
    (h : Export ord definitions groups limits = .ok data)
    (h' : Export ord'
      ((definitions.insertionSort fun a b => (compare a.key b.key).isLE = true).map
        Definition.imported)
      ((groups.insertionSort fun a b => (compare a.key b.key).isLE = true).map
        GroupDefinition.imported) limits' = .ok data') : data' = data := by
  obtain ⟨⟨hok, -⟩, features, wires, hfeatures, hwires, hmarshal⟩ := export_eq_ok_iff.mp h
  obtain ⟨-, features', wires', hfeatures', hwires', hmarshal'⟩ := export_eq_ok_iff.mp h'
  rw [insertionSort_map_eq Definition.key Definition.imported fun _ => rfl] at hfeatures'
  rw [insertionSort_map_eq GroupDefinition.key GroupDefinition.imported fun _ => rfl] at hwires'
  have halike : List.Forall₂ DefinitionWire.codec.Alike features features' := by
    refine forall₂_of_mapM_map hfeatures hfeatures' fun d hd w w' hw hw' => ?_
    rw [Definition.imported, encodeDefinition_reordered (Definition.reordered_normal _)] at hw'
    exact alike_encodeDefinition (hok.valid d ((List.mem_insertionSort _).mp hd)) hw hw'
  have halike' : List.Forall₂ GroupWire.codec.Alike wires wires' := by
    refine forall₂_of_mapM_map hwires hwires' fun g hg w w' hw hw' => ?_
    rw [GroupDefinition.imported, encodeGroup_reordered (GroupDefinition.reordered_normal _)]
      at hw'
    exact alike_encodeGroup (hok.groups_ok.valid g ((List.mem_insertionSort _).mp hg)) hw hw'
  rw [marshalDocument_alike halike halike', hmarshal] at hmarshal'
  exact (Option.some.inj hmarshal').symm

/-- **`Export` is canonical**: the order of definitions and groups, of their dependencies and tags
and of the target lists of strategies does not show in an exported document, nor does the order of
maps; and what is imported from it, if its strings are valid UTF-8, is exported as the same
document. -/
theorem export_canonical {ord : MapOrder} {definitions : List (Definition κ)}
    {groups : List (GroupDefinition κ)} {data : Bytes}
    (h : Export ord definitions groups limits = .ok data) :
    (∀ (ord' : MapOrder) (definitions' : List (Definition κ)) (groups' : List (GroupDefinition κ))
      (limits' : Limits) (data' : Bytes),
      Rearranged Definition.Reordered definitions definitions' →
      Rearranged GroupDefinition.Reordered groups groups' →
      Export ord' definitions' groups' limits' = .ok data' →
      data' = data) ∧
    ((∀ d ∈ definitions, Utf8 d.strings) →
      (∀ g ∈ groups, Utf8 g.strings) →
      ∀ (ord' ord'' : MapOrder) (definitions' : List (Definition κ))
        (groups' : List (GroupDefinition κ)) (limits' limits'' : Limits) (data' : Bytes),
        Import ord' data limits' = .ok (definitions', groups') →
        Export ord'' definitions' groups' limits'' = .ok data' →
        data' = data) := by
  refine ⟨fun ord' definitions' groups' limits' data' hdefinitions hgroups h' =>
    export_rearranged hdefinitions hgroups h h', ?_⟩
  intro hutf8 hutf8' ord' ord'' definitions' groups' limits' limits'' data' himport h'
  obtain ⟨rfl, rfl⟩ := import_export hutf8 hutf8' h himport
  exact export_imported h h'

end Import

/-- Features with unsorted lists are imported with sorted ones, which are exported as before. -/
theorem export_canonical_unsorted :
    letI := unaryRuntime
    ∃ data, Export .sorted unsortedFeatures unsortedGroups defaultLimits = .ok data ∧
      (∀ data', Export .reversed (unsortedFeatures.reverse.map Definition.normal)
        (unsortedGroups.map GroupDefinition.normal) defaultLimits = .ok data' → data' = data) ∧
      ∃ definitions groups,
        Import .sorted data defaultLimits = .ok (definitions, groups) ∧
          definitions ≠ unsortedFeatures ∧
          ∀ data', Export .reversed definitions groups defaultLimits = .ok data' →
            data' = data := by
  let _ := unaryRuntime
  have hrun : ∃ data, Export .sorted unsortedFeatures unsortedGroups defaultLimits = .ok data ∧
      ∃ definitions groups, Import .sorted data defaultLimits = .ok (definitions, groups) ∧
        definitions ≠ unsortedFeatures := by
    have hok : ((Export .sorted unsortedFeatures unsortedGroups defaultLimits).toOption.any
        fun data => (Import .sorted data defaultLimits).toOption.any
          fun x => decide (x.1 ≠ unsortedFeatures)) = true := by
      decide +kernel
    obtain ⟨data, hdata, hok⟩ := (Option.any_eq_true _ _).mp hok
    obtain ⟨x, himport, hne⟩ := (Option.any_eq_true _ _).mp hok
    have hof {α : Type} {x : Except GoError α} {a : α} (h : x.toOption = some a) : x = .ok a := by
      cases x <;> cases h
      rfl
    exact ⟨data, hof hdata, x.1, x.2, hof himport, of_decide_eq_true hne⟩
  obtain ⟨data, hdata, definitions, groups, himport, hne⟩ := hrun
  obtain ⟨horder, hround⟩ := export_canonical hdata
  have hreverse : Rearranged Definition.Reordered unsortedFeatures
      (unsortedFeatures.reverse.map Definition.normal) :=
    ⟨unsortedFeatures.reverse, (List.reverse_perm _).symm, List.forall₂_map_right_iff.mpr
      (List.forall₂_same.mpr fun d _ => d.reordered_normal)⟩
  have hsame : Rearranged GroupDefinition.Reordered unsortedGroups
      (unsortedGroups.map GroupDefinition.normal) :=
    ⟨unsortedGroups, .refl _, List.forall₂_map_right_iff.mpr
      (List.forall₂_same.mpr fun g _ => g.reordered_normal)⟩
  refine ⟨data, hdata, ?_, definitions, groups, himport, hne, ?_⟩
  · exact fun data' h' => horder .reversed _ _ defaultLimits data' hreverse hsame h'
  · intro data' h'
    exact hround (by decide +kernel) (by decide +kernel) .sorted .reversed definitions groups
      defaultLimits defaultLimits data' himport h'

end FeatureFlags
