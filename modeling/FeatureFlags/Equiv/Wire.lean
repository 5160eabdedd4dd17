import FeatureFlags.Codec
import FeatureFlags.Equiv.Reorder
import FeatureFlags.Equiv.Rfc3339

/-!
# The way through the wire structs

What `decodeDefinition` makes of the struct that `encodeDefinition` has written, without a JSON text
in between: the same definition, with its dependencies, tags and target lists sorted
(`Definition.normal`).  Values and strategies come back as they were, if the bounds of time windows
fall in years that are written with four digits (`Go.Time.InYears`).

`decode_encode_evaluates_alike` is the consequence for evaluation.
-/

namespace FeatureFlags

open Go

/-! ### Loops over lists and maps -/

section Loops

variable {ε α β : Type}

/-- A loop that translates a list translates it element by element. -/
theorem mapM_eq_ok_iff {f : α → Except ε β} {l : List α} {l' : List β} :
    l.mapM f = .ok l' ↔ List.Forall₂ (fun a b => f a = .ok b) l l' := by
  induction l generalizing l' with
  | nil => rw [List.mapM_nil, pure_eq_ok, List.forall₂_nil_left_iff, eq_comm]
  | cons a l ih =>
    rw [List.mapM_cons, bind_eq_ok, List.forall₂_cons_left_iff]
    simp only [bind_eq_ok, ih, pure_eq_ok]
    constructor
    · rintro ⟨b, hb, l', hl', rfl⟩
      exact ⟨b, l', hb, hl', rfl⟩
    · rintro ⟨b, l', hb, hl', rfl⟩
      exact ⟨b, hb, l', hl', rfl⟩

theorem mapM_eq_ok_map {f : α → Except ε β} {g : α → β} {l : List α}
    (h : ∀ a ∈ l, f a = .ok (g a)) : l.mapM f = .ok (l.map g) := by
  rw [mapM_eq_ok_iff, List.forall₂_map_right_iff, List.forall₂_same]
  exact h

@[simp] theorem Go.Codec.Slice.toList_ofList (l : List α) : (Codec.Slice.ofList l).toList = l :=
  List.take_length

/-- A loop that translates the entries of a map and inserts them into another one. -/
theorem foldlM_insert_eq_ok {V W : Type} {f : Bytes × W → Except ε V} {g : Bytes × W → V}
    {l : List (Bytes × W)} (h : ∀ x ∈ l, f x = .ok (g x)) (m : GoMap V) :
    l.foldlM (fun m x => do
        let v ← f x
        return m.insert x.1 v) m = .ok (l.foldl (fun m x => m.insert x.1 (g x)) m) := by
  induction l generalizing m with
  | nil => rfl
  | cons x l ih =>
    obtain ⟨hx, hl⟩ := List.forall_mem_cons.mp h
    rw [List.foldlM_cons, hx]
    exact ih hl _

end Loops

/-! ### Values -/

/-- The value has something to write: it is not the zero value, and a structured one is not
empty. -/
def Value.Payload : Value → Prop
  | .zero => False
  | .structured raw => raw ≠ []
  | _ => True

theorem Value.Valid.payload {limits : Limits} {v : Value} (h : v.Valid limits) : v.Payload := by
  cases v with
  | zero => exact h
  | structured raw =>
    -- the empty text is no JSON value
    rintro rfl
    exact absurd h.2 (by decide)
  | _ => exact trivial

theorem decodeValue_encodeValue {v : Value} (h : v.Payload) :
    decodeValue (encodeValue v) = .ok v := by
  cases v with
  | zero => exact h.elim
  | boolean b | string text | decimal text | float f => rfl
  | integer n =>
    have hn : Int64.ofInt n.toInt = n := Int64.ofInt_toInt n
    simp [decodeValue, encodeValue, ValueType.ofName_name, Value.type, Option.map_some, hn]
  | structured raw =>
    have hname : ValueType.ofName (encodeValue (.structured raw)).type = .structured :=
      ValueType.ofName_name .structured
    simp only [decodeValue, hname]
    rw [show (encodeValue (.structured raw)).structured = raw from rfl, if_neg h]

/-- The loop over the variants translates them one by one. -/
theorem decodeVariants_eq_ok {w : GoMap ValueWire} {m : GoMap Value}
    (h : ∀ k : Bytes, Option.Rel (fun x v => decodeValue x = .ok v) w[k]? m[k]?) (ord : MapOrder)
    (key : Bytes) : decodeVariants ord key w = .ok m := by
  have hentry (k : Bytes) (x : ValueWire) (hx : w[k]? = some x) :
      m[k]? = some (m.getD k .zero) ∧ decodeValue x = .ok (m.getD k .zero) := by
    obtain ⟨v, hv, hdec⟩ := exists_lookup_right h hx
    rw [Std.ExtTreeMap.getD_eq_getD_getElem?, hv]
    exact ⟨rfl, hdec⟩
  rw [decodeVariants, foldlM_insert_eq_ok (g := fun x => m.getD x.1 .zero) (fun x hx => by
    rw [(hentry x.1 x.2 (GoMap.mem_range.mp hx)).2]; rfl) ∅, Except.ok.injEq]
  refine Std.ExtTreeMap.ext_getElem? fun k => Option.ext fun v => ?_
  refine (GoMap.lookup_index (GoMap.nodup_range ord w)).trans ?_
  constructor
  · rintro ⟨⟨k', x⟩, hx, rfl, rfl⟩
    exact (hentry k' x (GoMap.mem_range.mp hx)).1
  · intro hv
    obtain ⟨x, hx, -⟩ := exists_lookup_left h hv
    refine ⟨(k, x), GoMap.mem_range.mpr hx, rfl, ?_⟩
    simp [Std.ExtTreeMap.getD_eq_getD_getElem?, hv, Option.getD_some]

theorem decodeVariants_encode {m : GoMap Value}
    (h : ∀ (name : Bytes) (v : Value), m[name]? = some v → v.Payload) (ord : MapOrder)
    (key : Bytes) : decodeVariants ord key (m.map fun _ v => encodeValue v) = .ok m := by
  refine decodeVariants_eq_ok (fun k => ?_) ord key
  rw [Std.ExtTreeMap.getElem?_map]
  cases hm : m[k]? with
  | none => exact .none
  | some v => exact .some (decodeValue_encodeValue (h k v hm))

/-! ### Times -/

/-- The UTC year is written with four digits. -/
def Go.Time.InYears (t : Time) : Prop :=
  0 ≤ (ZonedTime.mk t 0).year ∧ (ZonedTime.mk t 0).year ≤ 9999

instance (t : Time) : Decidable t.InYears := inferInstanceAs (Decidable (_ ∧ _))

theorem parseOptionalTime_format {t : Time} (h : t.InYears) :
    parseOptionalTime (formatOptionalTime t) = .ok t := by
  unfold formatOptionalTime
  split_ifs with hzero
  · obtain ⟨nanos⟩ := t
    obtain rfl : nanos = 0 := hzero
    rfl
  · have hround := parseRFC3339_format ⟨t, 0⟩ h.1 h.2 (by change 0 < 24 * 60; decide)
    have hne : formatRFC3339Nano ⟨t, 0⟩ ≠ [] := by simp [formatRFC3339Nano]
    rw [parseOptionalTime, if_neg hne, hround]
    simp

theorem inYears_of_parseOptionalTime {t u : Time}
    (h : parseOptionalTime (formatOptionalTime t) = .ok u) : t.InYears := by
  unfold formatOptionalTime at h
  split_ifs at h with hzero
  · obtain ⟨nanos⟩ := t
    obtain rfl : nanos = 0 := hzero
    decide
  · have hne : formatRFC3339Nano ⟨t, 0⟩ ≠ [] := by simp [formatRFC3339Nano]
    rw [parseOptionalTime, if_neg hne] at h
    cases hparse : parseRFC3339 (formatRFC3339Nano ⟨t, 0⟩) with
    | none =>
      rw [hparse] at h
      cases h
    | some z => exact year_of_parseRFC3339_format hparse

/-! ### Strategies -/

section Strategies

variable {κ : Type}

/-- The strategy with sorted target lists. -/
def Strategy.normal : Strategy κ → Strategy κ
  | .exactTarget s => .exactTarget { s with
      tenants := sortedStrings s.tenants
      subjects := sortedStrings s.subjects
      environments := sortedStrings s.environments }
  | .set s => .set { s with
      allowTenants := sortedStrings s.allowTenants
      denyTenants := sortedStrings s.denyTenants
      allowSubjects := sortedStrings s.allowSubjects
      denySubjects := sortedStrings s.denySubjects }
  | s => s

variable [CustomStrategy κ]

/-- The bounds of a time window are written with four digits for the year. -/
def Strategy.InYears : Strategy κ → Prop
  | .timeWindow s => s.notBefore.InYears ∧ s.notAfter.InYears
  | _ => True

instance (s : Strategy κ) : Decidable s.InYears :=
  match s with
  | .timeWindow _ => inferInstanceAs (Decidable (_ ∧ _))
  | .exactTarget _ | .percentage _ | .set _ | .schedule _ | .fact _ | .custom _ => isTrue trivial

theorem perm_sortedStrings (values : List Bytes) : values.Perm (sortedStrings values) :=
  (List.perm_insertionSort _ values).symm

omit [CustomStrategy κ] in
theorem Strategy.reordered_normal (s : Strategy κ) : s.Reordered s.normal := by
  cases s with
  | exactTarget s =>
    exact .exactTarget _ _ _ (perm_sortedStrings _) (perm_sortedStrings _) (perm_sortedStrings _)
  | set s =>
    exact .set _ _ (perm_sortedStrings _) (perm_sortedStrings _) (perm_sortedStrings _)
      (perm_sortedStrings _)
  | _ => exact .refl _

/-- The value of a fact strategy has something to write. -/
def Strategy.Payload : Strategy κ → Prop
  | .fact s => s.equals.Payload
  | _ => True

theorem Strategy.payload_of_validateStrategy [Runtime] {limits : Limits} {s : Strategy κ}
    (h : s.validateStrategy limits = .ok ()) : s.Payload := by
  cases s with
  | fact s =>
    simp only [Strategy.validateStrategy, FactStrategy.validateStrategy, bind_eq_ok,
      mapError_eq_ok, Value.validate_eq_ok_iff] at h
    obtain ⟨-, -, -, -, hequals⟩ := h
    exact hequals.payload
  | _ => exact trivial

theorem decodeStrategy_encodeStrategy {s : Strategy κ} {w : StrategyWire}
    (h : encodeStrategy s = .ok w) (hpayload : s.Payload) (hyears : s.InYears) :
    decodeStrategy w = .ok s.normal := by
  cases s with
  | custom s => cases h
  | exactTarget s | percentage s | set s | schedule s =>
    cases h
    simp +decide only [decodeStrategy, Codec.Slice.toList_ofList, UInt32.ofNat_toNat, List.map_map,
      Function.comp_def, List.map_id_fun', if_true, if_false]
    rfl
  | timeWindow s =>
    cases h
    simp +decide only [decodeStrategy, parseOptionalTime_format hyears.1,
      parseOptionalTime_format hyears.2, if_true, if_false]
    rfl
  | fact s =>
    have hequals : s.equals.Payload := hpayload
    cases h
    simp +decide only [decodeStrategy, decodeValue_encodeValue hequals, if_true, if_false]
    rfl

/-- A strategy that is read back has its bounds in years with four digits. -/
theorem inYears_of_decodeStrategy {s s' : Strategy κ} {w : StrategyWire}
    (h : encodeStrategy s = .ok w) (hdec : decodeStrategy w = .ok s') : s.InYears := by
  cases s with
  | timeWindow s =>
    simp only [encodeStrategy, Except.ok.injEq] at h
    subst h
    simp only [decodeStrategy] at hdec
    rw [if_neg (by decide), if_neg (by decide), if_neg (by decide), if_pos trivial] at hdec
    simp only [bind_eq_ok] at hdec
    obtain ⟨notBefore, hnotBefore, notAfter, hnotAfter, -⟩ := hdec
    exact ⟨inYears_of_parseOptionalTime hnotBefore, inYears_of_parseOptionalTime hnotAfter⟩
  | _ => exact trivial

end Strategies

/-! ### Definitions and groups -/

section Definitions

variable {κ : Type}

/-- The definition with sorted dependencies, tags and target lists. -/
def Definition.normal (d : Definition κ) : Definition κ :=
  { d with
    dependencies := d.dependencies.insertionSort fun a b => a.isLE b = true
    tags := sortedStrings d.tags
    strategies := d.strategies.map Strategy.normal }

/-- The group with sorted tags and target lists. -/
def GroupDefinition.normal (g : GroupDefinition κ) : GroupDefinition κ :=
  { g with tags := sortedStrings g.tags, strategies := g.strategies.map Strategy.normal }

/-- The time windows of a definition are in years with four digits. -/
def Definition.InYears (d : Definition κ) : Prop := ∀ s ∈ d.strategies, s.InYears

instance (d : Definition κ) : Decidable d.InYears :=
  inferInstanceAs (Decidable (∀ s ∈ d.strategies, _))

/-- The time windows of a group are in years with four digits. -/
def GroupDefinition.InYears (g : GroupDefinition κ) : Prop := ∀ s ∈ g.strategies, s.InYears

instance (g : GroupDefinition κ) : Decidable g.InYears :=
  inferInstanceAs (Decidable (∀ s ∈ g.strategies, _))

theorem reordered_map_normal (strategies : List (Strategy κ)) :
    List.Forall₂ Strategy.Reordered strategies (strategies.map Strategy.normal) := by
  rw [List.forall₂_map_right_iff, List.forall₂_same]
  exact fun s _ => s.reordered_normal

theorem Definition.reordered_normal (d : Definition κ) : d.Reordered d.normal where
  key := rfl
  type := rfl
  default := rfl
  variants := rfl
  metadata := rfl
  owner := rfl
  lifecycle := rfl
  dependencies := (List.perm_insertionSort _ d.dependencies).symm
  groups := rfl
  tags := perm_sortedStrings d.tags
  version := rfl
  strategies := reordered_map_normal d.strategies

theorem GroupDefinition.reordered_normal (g : GroupDefinition κ) : g.Reordered g.normal where
  key := rfl
  parent := rfl
  metadata := rfl
  owner := rfl
  tags := perm_sortedStrings g.tags
  version := rfl
  strategies := reordered_map_normal g.strategies

/-- The values of a definition have something to write. -/
structure Definition.Payload (d : Definition κ) : Prop where
  default : d.default.Payload
  variants : ∀ (name : Bytes) (v : Value), d.variants[name]? = some v → v.Payload
  strategies : ∀ s ∈ d.strategies, s.Payload

/-- The values of a group have something to write. -/
def GroupDefinition.Payload (g : GroupDefinition κ) : Prop := ∀ s ∈ g.strategies, s.Payload

variable [CustomStrategy κ]

theorem Definition.Valid.payload [Runtime] {limits : Limits} {d : Definition κ}
    (h : d.Valid limits) : d.Payload where
  default := h.default.payload
  variants name v hv := (h.variants name v hv).2.1.payload
  strategies s hs := Strategy.payload_of_validateStrategy (h.strategies s hs).valid

theorem GroupDefinition.Valid.payload [Runtime] {limits : Limits} {g : GroupDefinition κ}
    (h : g.Valid limits) : g.Payload :=
  fun s hs => Strategy.payload_of_validateStrategy (h.strategies s hs).valid

/-- The strategies of a definition or a group, one after the other. -/
theorem mapM_decodeStrategy {strategies : List (Strategy κ)} {wires}
    (h : strategies.mapM encodeStrategy = .ok wires)
    (hpayload : ∀ s ∈ strategies, s.Payload) (hyears : ∀ s ∈ strategies, s.InYears) :
    wires.mapM decodeStrategy = .ok (strategies.map Strategy.normal) := by
  rw [mapM_eq_ok_iff] at h ⊢
  induction h with
  | nil => exact .nil
  | cons hs _ ih =>
    rw [List.forall_mem_cons] at hpayload hyears
    exact .cons (decodeStrategy_encodeStrategy hs hpayload.1 hyears.1) (ih hpayload.2 hyears.2)

/-- Strategies that are read back have their bounds in years with four digits. -/
theorem inYears_of_mapM_decodeStrategy {strategies strategies' : List (Strategy κ)}
    {wires} (h : strategies.mapM encodeStrategy = .ok wires)
    (hdec : wires.mapM decodeStrategy = .ok strategies') : ∀ s ∈ strategies, s.InYears := by
  rw [mapM_eq_ok_iff] at h hdec
  induction h generalizing strategies' with
  | nil => exact nofun
  | cons hs _ ih =>
    cases hdec with
    | cons hs' hdec => exact List.forall_mem_cons.mpr ⟨inYears_of_decodeStrategy hs hs', ih hdec⟩

theorem decodeDefinition_encodeDefinition {d : Definition κ} {w : DefinitionWire}
    (h : encodeDefinition d = .ok w) (hpayload : d.Payload) (hyears : d.InYears)
    (ord : MapOrder) : decodeDefinition ord w = .ok d.normal := by
  simp only [encodeDefinition, bind_eq_ok, mapError_eq_ok, pure_eq_ok] at h
  obtain ⟨wires, hwires, rfl⟩ := h
  have hstrategies := mapM_decodeStrategy hwires hpayload.strategies hyears
  have hvariants := decodeVariants_encode hpayload.variants ord d.key
  simp [decodeDefinition, decodeValue_encodeValue hpayload.default, hvariants,
    Codec.Slice.toList_ofList, hstrategies, Except.mapError, bind, Except.bind, pure, Except.pure,
    ValueType.ofName_name, Lifecycle.ofLabel_label, List.map_map, Function.comp_def,
    List.map_id_fun', id_eq, Definition.normal]

/-- What `decodeDefinition` makes of an encoded definition, if it does not fail. -/
theorem eq_normal_of_decodeDefinition {d d' : Definition κ} {w : DefinitionWire}
    (h : encodeDefinition d = .ok w) (hpayload : d.Payload) {ord : MapOrder}
    (hdec : decodeDefinition ord w = .ok d') : d' = d.normal := by
  have hyears : d.InYears := by
    simp only [encodeDefinition, bind_eq_ok, mapError_eq_ok, pure_eq_ok] at h
    obtain ⟨wires, hwires, rfl⟩ := h
    simp only [decodeDefinition, bind_eq_ok, mapError_eq_ok, Codec.Slice.toList_ofList] at hdec
    obtain ⟨-, -, -, -, strategies', hstrategies', -⟩ := hdec
    exact inYears_of_mapM_decodeStrategy hwires hstrategies'
  rw [decodeDefinition_encodeDefinition h hpayload hyears ord] at hdec
  exact (Except.ok.inj hdec).symm

theorem decodeGroup_encodeGroup {g : GroupDefinition κ} {w : GroupWire}
    (h : encodeGroup g = .ok w) (hpayload : g.Payload) (hyears : g.InYears) :
    decodeGroup w = .ok g.normal := by
  simp only [encodeGroup, bind_eq_ok, mapError_eq_ok, pure_eq_ok] at h
  obtain ⟨wires, hwires, rfl⟩ := h
  have hstrategies := mapM_decodeStrategy hwires hpayload hyears
  simp [decodeGroup, Codec.Slice.toList_ofList, hstrategies, Except.mapError, bind,
    Except.bind, pure, Except.pure, GroupDefinition.normal]

/-- What `decodeGroup` makes of an encoded group, if it does not fail. -/
theorem eq_normal_of_decodeGroup {g g' : GroupDefinition κ} {w : GroupWire}
    (h : encodeGroup g = .ok w) (hpayload : g.Payload) (hdec : decodeGroup w = .ok g') :
    g' = g.normal := by
  have hyears : g.InYears := by
    simp only [encodeGroup, bind_eq_ok, mapError_eq_ok, pure_eq_ok] at h
    obtain ⟨wires, hwires, rfl⟩ := h
    simp only [decodeGroup, bind_eq_ok, mapError_eq_ok, Codec.Slice.toList_ofList] at hdec
    obtain ⟨strategies', hstrategies', -⟩ := hdec
    exact inYears_of_mapM_decodeStrategy hwires hstrategies'
  rw [decodeGroup_encodeGroup h hpayload hyears] at hdec
  exact (Except.ok.inj hdec).symm

end Definitions

/-! ### Built-in strategies -/

section Builtin

/-- Built-in strategies have a wire form. -/
theorem exists_encodeStrategy (s : Strategy Empty) : ∃ w, encodeStrategy s = .ok w := by
  cases s with
  | custom s => exact s.elim
  | _ => exact ⟨_, rfl⟩

theorem exists_mapM_encodeStrategy (strategies : List (Strategy Empty)) :
    ∃ wires, strategies.mapM encodeStrategy = .ok wires := by
  choose f hf using exists_encodeStrategy
  exact ⟨strategies.map f, mapM_eq_ok_map fun s _ => hf s⟩

theorem exists_encodeDefinition (d : Definition Empty) : ∃ w, encodeDefinition d = .ok w := by
  obtain ⟨wires, hwires⟩ := exists_mapM_encodeStrategy d.strategies
  rw [encodeDefinition, hwires]
  exact ⟨_, rfl⟩

theorem exists_encodeGroup (g : GroupDefinition Empty) : ∃ w, encodeGroup g = .ok w := by
  obtain ⟨wires, hwires⟩ := exists_mapM_encodeStrategy g.strategies
  rw [encodeGroup, hwires]
  exact ⟨_, rfl⟩

variable [Runtime] {ord : MapOrder} {definitions : List (Definition Empty)}
  {groups : List (GroupDefinition Empty)} {limits : Limits} {s : Snapshot Empty}

/-- **The wire structs keep every decision**: for an accepted snapshot whose dependency paths are
within the limit and whose time windows are in years with four digits, the way through the wire
structs succeeds, changes nothing but the order of dependencies, tags and target lists, and its
result is accepted again and evaluates every key as before. -/
theorem decode_encode_evaluates_alike
    (h : newSnapshotWithGroups ord definitions groups limits = .ok s)
    (hpaths : PathsWithin s.definitions limits)
    (hyears : ∀ d ∈ definitions, d.InYears) (hyears' : ∀ g ∈ groups, g.InYears)
    (ord₁ ord₂ : MapOrder) :
    ∃ (definitions' : List (Definition Empty)) (groups' : List (GroupDefinition Empty))
      (s' : Snapshot Empty),
      definitions.mapM (fun d => do decodeDefinition ord₁ (← encodeDefinition d)) =
          .ok definitions' ∧
        groups.mapM (fun g => do decodeGroup (← encodeGroup g)) = .ok groups' ∧
        List.Forall₂ Definition.Reordered definitions definitions' ∧
        List.Forall₂ GroupDefinition.Reordered groups groups' ∧
        newSnapshotWithGroups ord₂ definitions' groups' limits = .ok s' ∧
        ∀ (tenant : Bytes) (ord₃ : MapOrder) (key : Bytes) (expected : ValueType)
          (context : Context),
          (s'.bindTenant tenant).evaluate ord₃ key expected context =
            (s.bindTenant tenant).evaluate ord₃ key expected context := by
  obtain ⟨hok, -, hs⟩ := newSnapshotWithGroups_eq_ok_iff.mp h
  have hdefs : definitions.mapM (fun d => do decodeDefinition ord₁ (← encodeDefinition d)) =
      .ok (definitions.map Definition.normal) := by
    refine mapM_eq_ok_map fun d hd => ?_
    obtain ⟨w, hw⟩ := exists_encodeDefinition d
    rw [hw]
    exact decodeDefinition_encodeDefinition hw (hok.valid d hd).payload (hyears d hd) ord₁
  have hgroups : groups.mapM (fun g => do decodeGroup (← encodeGroup g)) =
      .ok (groups.map GroupDefinition.normal) := by
    refine mapM_eq_ok_map fun g hg => ?_
    obtain ⟨w, hw⟩ := exists_encodeGroup g
    rw [hw]
    exact decodeGroup_encodeGroup hw (hok.groups_ok.valid g hg).payload (hyears' g hg)
  have hreordered : List.Forall₂ Definition.Reordered definitions
      (definitions.map Definition.normal) := by
    rw [List.forall₂_map_right_iff, List.forall₂_same]
    exact fun d _ => d.reordered_normal
  have hreordered' : List.Forall₂ GroupDefinition.Reordered groups
      (groups.map GroupDefinition.normal) := by
    rw [List.forall₂_map_right_iff, List.forall₂_same]
    exact fun g _ => g.reordered_normal
  have hindex : s.definitions = definitionIndex definitions := by rw [hs]; rfl
  have hindex' : s.groups = groupIndex groups := by rw [hs]; rfl
  obtain ⟨s', hs'⟩ := accepted_of_reordered ord₂ ⟨s, h⟩ (hindex ▸ hpaths) hreordered hreordered'
  obtain ⟨-, -, rfl⟩ := newSnapshotWithGroups_eq_ok_iff.mp hs'
  refine ⟨_, _, _, hdefs, hgroups, hreordered, hreordered', hs', ?_⟩
  intro tenant ord₃ key expected context
  refine evaluate_of_reordered h hs' hpaths (fun k => ?_) (fun k => ?_) tenant ord₃ key expected
    context
  · rw [hindex]
    exact definitionIndex_reordered hreordered k
  · rw [hindex']
    exact groupIndex_reordered hreordered' k

end Builtin

/-- A feature that requires two others, in a group, with unsorted lists and a time window. -/
def unsortedFeatures : List (Definition Empty) :=
  [onFor (str "a") [], onFor (str "b") [],
    { onFor (str "c") [str "b", str "a"] with
      groups := [str "g"]
      tags := [str "y", str "x"]
      strategies :=
        [.timeWindow ⟨str "later", str "on", .zero, ⟨63000000000000000000⟩⟩,
          .exactTarget ⟨str "some", str "on", [str "t2", str "t1"], [], [], ∅⟩] }]

def unsortedGroups : List (GroupDefinition Empty) :=
  [⟨str "g", [], ∅, [], [str "y", str "x"], 1,
    [.set ⟨str "deny", str "on", [str "t3"], [str "t2", str "t1"], [], []⟩]⟩]

/-- Features and groups whose lists are not sorted. -/
theorem decode_encode_evaluates_alike_unsorted :
    letI := unaryRuntime
    newSnapshotWithGroups .sorted unsortedFeatures unsortedGroups defaultLimits =
        .ok (snapshotOf unsortedFeatures unsortedGroups defaultLimits) ∧
      ∃ (definitions' : List (Definition Empty)) (groups' : List (GroupDefinition Empty))
        (s' : Snapshot Empty),
        unsortedFeatures.mapM (fun d => do decodeDefinition .sorted (← encodeDefinition d)) =
            .ok definitions' ∧
          unsortedGroups.mapM (fun g => do decodeGroup (← encodeGroup g)) = .ok groups' ∧
          newSnapshotWithGroups .reversed definitions' groups' defaultLimits = .ok s' ∧
          ∀ (key : Bytes) (expected : ValueType) (context : Context),
            (s'.bindTenant []).evaluate .sorted key expected context =
              ((snapshotOf unsortedFeatures unsortedGroups defaultLimits).bindTenant []).evaluate
                .sorted key expected context := by
  let _ := unaryRuntime
  have h : newSnapshotWithGroups .sorted unsortedFeatures unsortedGroups defaultLimits =
      .ok (snapshotOf unsortedFeatures unsortedGroups defaultLimits) := by
    decide +kernel
  have hedges : ∀ v ∈ ((definitionIndex unsortedFeatures).range .sorted).map Prod.fst,
      ∀ w ∈ dependencyKeys (definitionIndex unsortedFeatures) v,
        dependencyKeys (definitionIndex unsortedFeatures) w = [] := by
    decide +kernel
  have hpaths : PathsWithin (snapshotOf unsortedFeatures unsortedGroups defaultLimits).definitions
      defaultLimits := by
    intro key _ path hpath
    have hlen := Dfs.length_le_of_bounded (n := 1) (fun v w hw =>
      hedges v (mem_of_dependencyKeys_ne_nil (List.ne_nil_of_mem hw)) w hw) hpath
    rw [List.length_cons] at hlen
    simp only [len, defaultLimits]
    omega
  have hyears : ∀ d ∈ unsortedFeatures, d.InYears := by decide +kernel
  have hyears' : ∀ g ∈ unsortedGroups, g.InYears := by decide +kernel
  obtain ⟨definitions', groups', s', hdefs, hgroups, -, -, hs', heval⟩ :=
    decode_encode_evaluates_alike h hpaths hyears hyears' .sorted .reversed
  exact ⟨h, definitions', groups', s', hdefs, hgroups, hs', heval [] .sorted⟩

end FeatureFlags
