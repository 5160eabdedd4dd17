import FeatureFlags.Equiv.WireCodec

/-!
# Values that are written differently

`encoding/json` writes different strings alike if it replaces invalid bytes, and different
`json.RawMessage`s if it compacts them.  `Codec.Separates` says that this does not happen among
certain values; it carries over from the fields of a struct to the struct.

* `Separates.slice`, `Separates.map`, `Separates.pointer`, `Record.Separates.cons`.
* `DocumentWire.separates`: documents whose texts are written differently are written differently.
-/

namespace FeatureFlags

open Go Codec

namespace Go.Codec

variable {α β : Type}

/-- A value of `P` and a value of `Q` that are written alike are equal, and so are two that are
omitted. -/
structure Separates (c : Codec α) (omitempty : Bool) (P Q : α → Prop) : Prop where
  written : ∀ {a b t}, P a → Q b → (omitempty && c.isEmpty a) = false →
    (omitempty && c.isEmpty b) = false → c.encode a = some t → c.encode b = some t → a = b
  omitted : ∀ {a b}, P a → Q b → (omitempty && c.isEmpty a) = true →
    (omitempty && c.isEmpty b) = true → a = b

section Scalars

variable {c : Codec α} {omitempty : Bool} {norm : α → α} {P Q : α → Prop}

theorem Separates.of_readsBack (h : c.ReadsBack omitempty norm)
    (hnorm : ∀ a b, P a → Q b → norm a = norm b → a = b) : c.Separates omitempty P Q := by
  obtain ⟨Fits, hlawful⟩ := h
  refine ⟨?_, ?_⟩
  · intro a b t ha hb hempty hempty' ht ht'
    exact hnorm a b ha hb (hlawful.agree hempty hempty' ht ht')
  · intro a b ha hb hempty hempty'
    refine hnorm a b ha hb ?_
    rw [(hlawful.empty hempty).2, (hlawful.empty hempty').2]

theorem separates_string (omitempty : Bool) {P Q : Bytes → Prop}
    (h : ∀ s s', P s → Q s' → Json.escapeString s = Json.escapeString s' → s = s') :
    Codec.string.Separates omitempty P Q := by
  refine ⟨?_, ?_⟩
  · intro s s' t hs hs' _ _ ht ht'
    cases ht
    refine h s s' hs hs' ?_
    simpa [Codec.string] using ht'.symm
  · intro s s' hs hs' hempty hempty'
    obtain rfl : s = [] := List.isEmpty_iff.mp (Bool.and_eq_true_iff.mp hempty).2
    obtain rfl : s' = [] := List.isEmpty_iff.mp (Bool.and_eq_true_iff.mp hempty').2
    rfl

/-- Valid strings are written differently. -/
theorem separates_valid (omitempty : Bool) :
    Codec.string.Separates omitempty ValidString ValidString := by
  refine separates_string omitempty fun s s' hs hs' h => ?_
  have hunquote := congrArg Json.unquote h
  rwa [Json.unquote_escapeString, Json.unquote_escapeString, sanitize_of_valid hs,
    sanitize_of_valid hs'] at hunquote

end Scalars

section Collections

variable {c : Codec α} {P Q : α → Prop}

theorem Separates.pointer (h : c.Separates false P Q)
    (hnull : ∀ a t, c.encode a = some t → isNull t = false) (omitempty : Bool) :
    c.pointer.Separates omitempty (fun p => ∀ a, p = some a → P a)
      fun p => ∀ a, p = some a → Q a := by
  refine ⟨?_, ?_⟩
  · intro p p' t hp hp' _ _ ht ht'
    cases p with
    | none =>
      cases p' with
      | none => rfl
      | some b =>
        cases ht
        exact absurd (hnull b _ ht') (by decide)
    | some a =>
      cases p' with
      | none =>
        cases ht'
        exact absurd (hnull a _ ht) (by decide)
      | some b =>
        exact congrArg some (h.written (hp a rfl) (hp' b rfl) (Bool.false_and _)
          (Bool.false_and _) ht ht')
  · intro p p' _ _ hempty hempty'
    obtain rfl : p = none := Option.isNone_iff_eq_none.mp (Bool.and_eq_true_iff.mp hempty).2
    obtain rfl : p' = none := Option.isNone_iff_eq_none.mp (Bool.and_eq_true_iff.mp hempty').2
    rfl

/-- Lists whose elements are written alike are equal. -/
theorem Separates.eq_of_encoded (h : c.Separates false P Q) {l l' : List α} {items : List Json.Tree}
    (hl : List.Forall₂ (fun a t => c.encode a = some t) l items)
    (hl' : List.Forall₂ (fun a t => c.encode a = some t) l' items) (hP : ∀ a ∈ l, P a)
    (hQ : ∀ a ∈ l', Q a) : l = l' := by
  induction hl generalizing l' with
  | nil =>
    cases hl'
    rfl
  | cons ht _ ih =>
    cases hl' with
    | cons ht' hl' =>
      obtain ⟨hP, hPs⟩ := List.forall_mem_cons.mp hP
      obtain ⟨hQ, hQs⟩ := List.forall_mem_cons.mp hQ
      rw [h.written hP hQ (Bool.false_and _) (Bool.false_and _) ht ht', ih hl' hPs hQs]

/-- A slice with these elements and nothing behind them. -/
def Slice.Of (P : α → Prop) (s : Slice α) : Prop := ∃ l, s = .ofList l ∧ ∀ a ∈ l, P a

theorem Separates.slice (h : c.Separates false P Q) (omitempty : Bool) :
    c.slice.Separates omitempty (Slice.Of P) (Slice.Of Q) := by
  refine ⟨?_, ?_⟩
  · rintro _ _ t ⟨l, rfl, hP⟩ ⟨l', rfl, hQ⟩ _ _ ht ht'
    have hlist (l : List α) : (Slice.ofList l).toList = l := List.take_length
    rcases encode_slice_eq_some_iff.mp ht with ⟨hl, rfl⟩ | ⟨-, items, hitems, rfl⟩
    · rcases encode_slice_eq_some_iff.mp ht' with ⟨hl', -⟩ | ⟨-, items', -, heq⟩
      · rw [hlist] at hl hl'
        rw [hl, hl']
      · cases heq
    · rcases encode_slice_eq_some_iff.mp ht' with ⟨-, heq⟩ | ⟨-, items', hitems', heq⟩
      · cases heq
      · obtain rfl := mkArray_injective heq
        rw [hlist] at hitems hitems'
        rw [h.eq_of_encoded hitems hitems' hP hQ]
  · rintro _ _ ⟨l, rfl, -⟩ ⟨l', rfl, -⟩ hempty hempty'
    have hnil {l : List α} (h : (omitempty && c.slice.isEmpty (.ofList l)) = true) : l = [] := by
      have hlist := List.isEmpty_iff.mp (Bool.and_eq_true_iff.mp h).2
      rwa [show (Slice.ofList l).toList = l from List.take_length] at hlist
    rw [hnil hempty, hnil hempty']

/-- The keys and the elements of a map. -/
def MapOf (S : Bytes → Prop) (P : α → Prop) (m : GoMap α) : Prop :=
  ∀ x ∈ m.toList, S x.1 ∧ P x.2

/-- Lists of entries whose members are equal are equal. -/
theorem Separates.eq_of_written {S S' : Bytes → Prop} (h : c.Separates false P Q)
    (hkeys : ∀ s s', S s → S' s' → Json.escapeString s = Json.escapeString s' → s = s')
    {l l' members}
    (hl : List.Forall₂ (Written c) l members) (hl' : List.Forall₂ (Written c) l' members)
    (hP : ∀ x ∈ l, S x.1 ∧ P x.2) (hQ : ∀ x ∈ l', S' x.1 ∧ Q x.2) : l = l' := by
  induction hl generalizing l' with
  | nil =>
    cases hl'
    rfl
  | @cons x member l members hx _ ih =>
    cases hl' with
    | @cons y _ l' _ hy hl' =>
      obtain ⟨⟨hS, hP⟩, hrest⟩ := List.forall_mem_cons.mp hP
      obtain ⟨⟨hS', hQ⟩, hrest'⟩ := List.forall_mem_cons.mp hQ
      have hkey : x.1 = y.1 := hkeys _ _ hS hS' (hx.1.symm.trans hy.1)
      have hvalue : x.2 = y.2 := h.written hP hQ (Bool.false_and _) (Bool.false_and _) hx.2 hy.2
      rw [Prod.ext hkey hvalue, ih hl' hrest hrest']

theorem Separates.map {S S' : Bytes → Prop} (h : c.Separates false P Q)
    (hkeys : ∀ s s', S s → S' s' → Json.escapeString s = Json.escapeString s' → s = s')
    (omitempty : Bool) : c.map.Separates omitempty (MapOf S P) (MapOf S' Q) := by
  refine ⟨?_, ?_⟩
  · intro m m' t hm hm' _ _ ht ht'
    rcases encode_map_eq_some_iff.mp ht with ⟨hempty, rfl⟩ | ⟨-, members, hmembers, rfl⟩
    · rcases encode_map_eq_some_iff.mp ht' with ⟨hempty', -⟩ | ⟨-, members', -, heq⟩
      · rw [Std.ExtTreeMap.isEmpty_iff.mp hempty, Std.ExtTreeMap.isEmpty_iff.mp hempty']
      · cases heq
    · rcases encode_map_eq_some_iff.mp ht' with ⟨-, heq⟩ | ⟨-, members', hmembers', heq⟩
      · cases heq
      · obtain rfl := mkObject_injective heq
        -- the entries stand in the order of their keys, one member for each
        exact Std.ExtTreeMap.toList_inj.mp (h.eq_of_written hkeys hmembers hmembers' hm hm')
  · intro m m' _ _ hempty hempty'
    rw [Std.ExtTreeMap.isEmpty_iff.mp (Bool.and_eq_true_iff.mp hempty).2,
      Std.ExtTreeMap.isEmpty_iff.mp (Bool.and_eq_true_iff.mp hempty').2]

end Collections

/-! ### Structs -/

/-- The fields of a struct, with these names, are written differently if they are different. -/
structure Record.Separates (r : Record α) (names : List String) (P Q : α → Prop) : Prop where
  mem_names : ∀ {x members}, r.encode x = some members → ∀ m ∈ members, m.1 ∈ names.map str
  written : (names.map str).Nodup → ∀ {x y members}, P x → Q y → r.encode x = some members →
    r.encode y = some members → x = y

theorem Record.Separates.nil :
    Record.nil.Separates [] (fun _ => True) fun _ => True where
  mem_names h := by
    cases h
    exact nofun
  written _ _ _ _ _ _ _ _ := rfl

theorem Record.Separates.cons {c : Codec α} {r : Record β} (name : String) {names : List String}
    {omitempty : Bool} {P Q : α → Prop} {P' Q' : β → Prop} (hc : c.Separates omitempty P Q)
    (hr : r.Separates names P' Q') :
    (Record.cons name omitempty c r).Separates (name :: names) (fun x => P x.1 ∧ P' x.2)
      fun x => Q x.1 ∧ Q' x.2 := by
  refine ⟨?_, ?_⟩
  · intro x members h
    obtain ⟨rest, hencode, ⟨-, rfl⟩ | ⟨-, t, -, rfl⟩⟩ := Record.encode_cons_eq_some_iff.mp h
    · exact fun m hm => List.mem_cons_of_mem _ (hr.mem_names hencode m hm)
    · exact List.forall_mem_cons.mpr ⟨List.mem_cons_self,
        fun m hm => List.mem_cons_of_mem _ (hr.mem_names hencode m hm)⟩
  · intro hnodup x y members hx hy h h'
    rw [List.map_cons, List.nodup_cons] at hnodup
    -- a field that is written is told apart from the fields after it by its name
    have hne {z : β} {rest rest' : List (Bytes × Json.Tree)} {t : Json.Tree}
        (h : r.encode z = some rest) (heq : rest = (str name, t) :: rest') : False :=
      hnodup.1 (hr.mem_names h (str name, t) (heq ▸ List.mem_cons_self))
    obtain ⟨rest, hencode, ⟨hempty, rfl⟩ | ⟨hempty, t, ht, rfl⟩⟩ :=
      Record.encode_cons_eq_some_iff.mp h
    · obtain ⟨rest', hencode', ⟨hempty', heq⟩ | ⟨-, t', -, heq⟩⟩ :=
        Record.encode_cons_eq_some_iff.mp h'
      · subst heq
        exact Prod.ext (hc.omitted hx.1 hy.1 hempty hempty')
          (hr.written hnodup.2 hx.2 hy.2 hencode hencode')
      · exact (hne hencode heq).elim
    · obtain ⟨rest', hencode', ⟨-, heq⟩ | ⟨hempty', t', ht', heq⟩⟩ :=
        Record.encode_cons_eq_some_iff.mp h'
      · exact (hne hencode' heq.symm).elim
      · cases heq
        exact Prod.ext (hc.written hx.1 hy.1 hempty hempty' ht ht')
          (hr.written hnodup.2 hx.2 hy.2 hencode hencode')

/-- A struct under its own name. -/
theorem Record.Separates.struct {r : Record α} {names : List String} {P Q : α → Prop}
    (h : r.Separates names P Q) (hnames : (names.map str).Nodup) {unpack : β → α} {pack : α → β}
    (hpack : Function.LeftInverse pack unpack) :
    ((Codec.struct r).iso unpack pack).Separates false (fun b => P (unpack b))
      fun b => Q (unpack b) := by
  refine ⟨?_, fun _ _ hempty => by simp at hempty⟩
  intro a b t ha hb _ _ ht ht'
  obtain ⟨members, hmembers, rfl⟩ := Option.map_eq_some_iff.mp ht
  obtain ⟨members', hmembers', heq⟩ := Option.map_eq_some_iff.mp ht'
  obtain rfl := mkObject_injective heq
  exact hpack.injective (h.written hnames ha hb hmembers hmembers')

/-- Fewer values are separated too. -/
theorem Separates.mono {c : Codec α} {omitempty : Bool} {P Q P' Q' : α → Prop}
    (h : c.Separates omitempty P Q) (hP : ∀ a, P' a → P a) (hQ : ∀ a, Q' a → Q a) :
    c.Separates omitempty P' Q' where
  written ha hb := h.written (hP _ ha) (hQ _ hb)
  omitted ha hb := h.omitted (hP _ ha) (hQ _ hb)

end Go.Codec

/-! ### The structs of a document -/

/-- A set of strings and a set of JSON texts. -/
structure Texts where
  string : Bytes → Prop
  raw : Bytes → Prop

/-- Different texts of the two sets are written differently. -/
structure Texts.Separate (X Y : Texts) : Prop where
  string : ∀ s s', X.string s → Y.string s' → Json.escapeString s = Json.escapeString s' → s = s'
  raw : ∀ r r', X.raw r → Y.raw r' → Json.compact r = Json.compact r' → r = r'

/-- The empty string or one of the set. -/
def Texts.OrEmpty (S : Bytes → Prop) (s : Bytes) : Prop := s = [] ∨ S s

section Structs

variable {X Y : Texts}

namespace Texts.Separate

variable (h : X.Separate Y)
include h

theorem separates_string (omitempty : Bool) : Codec.string.Separates omitempty X.string Y.string :=
  Codec.separates_string omitempty h.string

theorem separates_orEmpty : Codec.string.Separates true (OrEmpty X.string) (OrEmpty Y.string) := by
  -- only the empty string is written as the empty string
  have hnil {s : Bytes} (hs : Json.escapeString s = Json.escapeString []) : s = [] := by
    have hunquote := congrArg Json.unquote hs
    rw [Json.unquote_escapeString, Json.unquote_escapeString, sanitize_nil] at hunquote
    exact sanitize_eq_nil_iff.mp hunquote
  refine Codec.separates_string true fun s s' hs hs' heq => ?_
  rcases hs with rfl | hs
  · exact (hnil heq.symm).symm
  · rcases hs' with rfl | hs'
    · exact hnil heq
    · exact h.string s s' hs hs' heq

theorem separates_raw : rawMessage.Separates true (OrEmpty X.raw) (OrEmpty Y.raw) := by
  have hencode {raw : Bytes} {t : Json.Tree} (hne : (true && rawMessage.isEmpty raw) = false)
      (ht : rawMessage.encode raw = some t) : raw ≠ [] ∧ Json.compact raw = some t.text := by
    have hraw : raw ≠ [] := by
      rintro rfl
      simp [rawMessage] at hne
    simp only [rawMessage, if_neg hraw] at ht
    obtain ⟨u, hu, rfl⟩ := Option.map_eq_some_iff.mp ht
    exact ⟨hraw, by simp [Json.compact, hu]⟩
  refine ⟨?_, ?_⟩
  · intro r r' t hr hr' hne hne' ht ht'
    obtain ⟨hraw, hcompact⟩ := hencode hne ht
    obtain ⟨hraw', hcompact'⟩ := hencode hne' ht'
    exact h.raw r r' (hr.resolve_left hraw) (hr'.resolve_left hraw')
      (hcompact.trans hcompact'.symm)
  · intro r r' _ _ hempty hempty'
    obtain rfl : r = [] := by simpa [rawMessage] using hempty
    obtain rfl : r' = [] := by simpa [rawMessage] using hempty'
    rfl

end Texts.Separate

/-- The texts of a `valueWire` are in the sets. -/
structure ValueWire.Over (X : Texts) (w : ValueWire) : Prop where
  type : ValidString w.type
  string : ∀ s, w.string = some s → X.string s
  structured : Texts.OrEmpty X.raw w.structured

/-- The texts of a `strategyWire` are in the sets. -/
structure StrategyWire.Over (X : Texts) (w : StrategyWire) : Prop where
  kind : ValidString w.kind
  name : X.string w.name
  variant : X.string w.variant
  tenants : Slice.Of X.string w.tenants
  subjects : Slice.Of X.string w.subjects
  environments : Slice.Of X.string w.environments
  attributes : MapOf X.string X.string w.attributes
  allowTenants : Slice.Of X.string w.allowTenants
  denyTenants : Slice.Of X.string w.denyTenants
  allowSubjects : Slice.Of X.string w.allowSubjects
  denySubjects : Slice.Of X.string w.denySubjects
  seed : Texts.OrEmpty X.string w.seed
  notBefore : ValidString w.notBefore
  notAfter : ValidString w.notAfter
  location : Texts.OrEmpty X.string w.location
  windows : Slice.Of (fun _ => True) w.windows
  fact : Texts.OrEmpty X.string w.fact
  equals : ∀ v, w.equals = some v → v.Over X

/-- The texts of a `dependencyWire` are in the sets. -/
def DependencyWire.Over (X : Texts) (w : DependencyWire) : Prop :=
  X.string w.featureKey ∧ X.string w.requiredVariant

/-- The texts of a `definitionWire` are in the sets. -/
structure DefinitionWire.Over (X : Texts) (w : DefinitionWire) : Prop where
  key : X.string w.key
  type : X.string w.type
  default : w.default.Over X
  variants : MapOf X.string (ValueWire.Over X) w.variants
  metadata : MapOf X.string X.string w.metadata
  owner : X.string w.owner
  lifecycle : X.string w.lifecycle
  dependencies : Slice.Of (DependencyWire.Over X) w.dependencies
  groups : Slice.Of X.string w.groups
  tags : Slice.Of X.string w.tags
  strategies : Slice.Of (StrategyWire.Over X) w.strategies

/-- The texts of a `groupWire` are in the sets. -/
structure GroupWire.Over (X : Texts) (w : GroupWire) : Prop where
  key : X.string w.key
  parent : X.string w.parent
  metadata : MapOf X.string X.string w.metadata
  owner : X.string w.owner
  tags : Slice.Of X.string w.tags
  strategies : Slice.Of (StrategyWire.Over X) w.strategies

/-- The texts of a `documentWire` are in the sets. -/
structure DocumentWire.Over (X : Texts) (w : DocumentWire) : Prop where
  format : ValidString w.format
  features : Slice.Of (DefinitionWire.Over X) w.features
  groups : Slice.Of (GroupWire.Over X) w.groups

/-- Numbers are written differently. -/
theorem separates_id {α : Type} {c : Codec α} {omitempty : Bool} (h : c.ReadsBack omitempty id) :
    c.Separates omitempty (fun _ => True) fun _ => True :=
  .of_readsBack h fun _ _ _ _ heq => heq

variable [Runtime] (h : X.Separate Y)
include h in
theorem ValueWire.separates :
    ValueWire.codec.Separates false (ValueWire.Over X) (ValueWire.Over Y) := by
  have hboolean := (separates_id ⟨_, lawful_bool⟩).pointer
    (fun b t ht => by cases ht; cases b <;> rfl) true
  have hstring := (h.separates_string false).pointer (fun s t ht => by cases ht; rfl) true
  have hinteger : int64.pointer.Separates true _ _ := (separates_id (.int _)).pointer
    (fun n t ht => by
      cases ht
      exact isNull_scalar_of_isNumber (isNumber_decimalInt n)) true
  have hfloat := (separates_id readsBack_float64).pointer isNull_float64 true
  have hfields := Record.Separates.cons "type" (separates_valid false) <|
    .cons "boolean" hboolean <| .cons "string" hstring <| .cons "integer" hinteger <|
    .cons "float" hfloat <| .cons "structured" h.separates_raw .nil
  refine (hfields.struct (by decide +kernel) fun _ => rfl).mono ?_ ?_
  all_goals
    intro w hw
    exact ⟨hw.type, fun _ _ => trivial, hw.string, fun _ _ => trivial, fun _ _ => trivial,
      hw.structured, trivial⟩

omit [Runtime] in
theorem WeeklyWire.separates : WeeklyWire.codec.Separates false (fun _ => True) fun _ => True :=
  separates_id WeeklyWire.readsBack

include h in
theorem StrategyWire.separates :
    StrategyWire.codec.Separates false (StrategyWire.Over X) (StrategyWire.Over Y) := by
  have hname := h.separates_string false
  have hslice := (h.separates_string false).slice true
  have hmap := (h.separates_string false).map h.string true
  have hthreshold : (Codec.uint (2 ^ 32)).Separates true _ _ :=
    separates_id (.uint_omitted (by decide))
  have htime := separates_valid true
  have hequals := (ValueWire.separates h).pointer isNull_valueWire true
  have hfields := Record.Separates.cons "kind" (separates_valid false) <| .cons "name" hname <|
    .cons "variant" hname <| .cons "tenants" hslice <| .cons "subjects" hslice <|
    .cons "environments" hslice <| .cons "attributes" hmap <| .cons "allow_tenants" hslice <|
    .cons "deny_tenants" hslice <| .cons "allow_subjects" hslice <|
    .cons "deny_subjects" hslice <| .cons "seed" h.separates_orEmpty <|
    .cons "threshold" hthreshold <| .cons "not_before" htime <| .cons "not_after" htime <|
    .cons "location" h.separates_orEmpty <| .cons "windows" (WeeklyWire.separates.slice true) <|
    .cons "fact" h.separates_orEmpty <| .cons "equals" hequals .nil
  refine (hfields.struct (by decide +kernel) fun _ => rfl).mono ?_ ?_
  all_goals
    intro w hw
    exact ⟨hw.kind, hw.name, hw.variant, hw.tenants, hw.subjects, hw.environments, hw.attributes,
      hw.allowTenants, hw.denyTenants, hw.allowSubjects, hw.denySubjects, hw.seed, trivial,
      hw.notBefore, hw.notAfter, hw.location, hw.windows, hw.fact, hw.equals, trivial⟩

omit [Runtime] in
include h in
theorem DependencyWire.separates :
    DependencyWire.codec.Separates false (DependencyWire.Over X) (DependencyWire.Over Y) := by
  have hkey := h.separates_string false
  have hfields := Record.Separates.cons "feature_key" hkey <| .cons "required_variant" hkey .nil
  refine (hfields.struct (by decide +kernel) fun _ => rfl).mono ?_ ?_
  all_goals
    intro w hw
    exact ⟨hw.1, hw.2, trivial⟩

include h in
theorem DefinitionWire.separates :
    DefinitionWire.codec.Separates false (DefinitionWire.Over X) (DefinitionWire.Over Y) := by
  have hname := h.separates_string false
  have hlabel := h.separates_string true
  have hslice := (h.separates_string false).slice true
  have hmap := (h.separates_string false).map h.string true
  have hvariants := (ValueWire.separates h).map h.string true
  have hversion : uint64.Separates true _ _ := separates_id (.uint_omitted (by decide))
  have hfields := Record.Separates.cons "key" hname <| .cons "type" hname <|
    .cons "default" (ValueWire.separates h) <| .cons "variants" hvariants <|
    .cons "metadata" hmap <| .cons "owner" hlabel <| .cons "lifecycle" hlabel <|
    .cons "dependencies" ((DependencyWire.separates h).slice true) <| .cons "groups" hslice <|
    .cons "tags" hslice <| .cons "version" hversion <|
    .cons "strategies" ((StrategyWire.separates h).slice true) .nil
  refine (hfields.struct (by decide +kernel) fun _ => rfl).mono ?_ ?_
  all_goals
    intro w hw
    exact ⟨hw.key, hw.type, hw.default, hw.variants, hw.metadata, hw.owner, hw.lifecycle,
      hw.dependencies, hw.groups, hw.tags, trivial, hw.strategies, trivial⟩

include h in
theorem GroupWire.separates :
    GroupWire.codec.Separates false (GroupWire.Over X) (GroupWire.Over Y) := by
  have hlabel := h.separates_string true
  have hslice := (h.separates_string false).slice true
  have hmap := (h.separates_string false).map h.string true
  have hversion : uint64.Separates true _ _ := separates_id (.uint_omitted (by decide))
  have hfields := Record.Separates.cons "key" (h.separates_string false) <|
    .cons "parent" hlabel <| .cons "metadata" hmap <| .cons "owner" hlabel <|
    .cons "tags" hslice <| .cons "version" hversion <|
    .cons "strategies" ((StrategyWire.separates h).slice true) .nil
  refine (hfields.struct (by decide +kernel) fun _ => rfl).mono ?_ ?_
  all_goals
    intro w hw
    exact ⟨hw.key, hw.parent, hw.metadata, hw.owner, hw.tags, trivial, hw.strategies, trivial⟩

include h in
theorem DocumentWire.separates :
    DocumentWire.codec.Separates false (DocumentWire.Over X) (DocumentWire.Over Y) := by
  have hversion : int64.Separates false _ _ := separates_id (.int _)
  have hfields := Record.Separates.cons "format" (separates_valid false) <|
    .cons "version" hversion <| .cons "features" ((DefinitionWire.separates h).slice false) <|
    .cons "groups" ((GroupWire.separates h).slice true) .nil
  refine (hfields.struct (by decide +kernel) fun _ => rfl).mono ?_ ?_
  all_goals
    intro w hw
    exact ⟨hw.format, trivial, hw.features, hw.groups, trivial⟩

include h in
/-- Documents that are written alike are equal, if their texts are written differently. -/
theorem DocumentWire.eq_of_marshal {w w' : DocumentWire} {data : Bytes} (hw : w.Over X)
    (hw' : w'.Over Y) (hdata : DocumentWire.codec.marshal w = some data)
    (hdata' : DocumentWire.codec.marshal w' = some data) : w = w' := by
  obtain ⟨Fits, hlawful⟩ := DocumentWire.readsBack
  obtain ⟨t, ht, rfl⟩ := Codec.encode_of_marshal hdata
  obtain ⟨t', ht', htext⟩ := Codec.encode_of_marshal hdata'
  obtain rfl := (hlawful.canonical ht').eq_of_text_eq (hlawful.canonical ht) htext
  exact (DocumentWire.separates h).written hw hw' (Bool.false_and _) (Bool.false_and _) ht ht'

end Structs

end FeatureFlags
