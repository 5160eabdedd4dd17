import FeatureFlags.Codec
import FeatureFlags.Equiv.JsonCodec

/-!
# What comes back of a wire struct

The laws of `Equiv.JsonCodec` for the structs of a document: `norm` of a struct is what is read when
it is written and read again.
-/

namespace FeatureFlags

open Go Codec

/-! ### Laws that are used for fields -/

namespace Go.Codec

variable {α : Type} {c : Codec α}

/-- What is written for a value is read back as `norm` of it, if it is read at all. -/
def ReadsBack (c : Codec α) (omitempty : Bool) (norm : α → α) : Prop :=
  ∃ Fits, c.Lawful omitempty norm Fits

namespace ReadsBack

variable {omitempty : Bool} {norm norm' : α → α}

theorem congr (h : c.ReadsBack omitempty norm) (heq : ∀ a, norm a = norm' a) :
    c.ReadsBack omitempty norm' := by
  obtain rfl : norm = norm' := funext heq
  exact h

theorem string : Codec.string.ReadsBack false sanitize := ⟨_, lawful_string⟩

theorem string_omitted : Codec.string.ReadsBack true sanitize := by
  refine ⟨_, lawful_string.omitted fun s hs => ⟨trivial, ?_⟩⟩
  obtain rfl : s = [] := List.isEmpty_iff.mp hs
  rfl

theorem int (bound : Nat) : (Codec.int bound).ReadsBack false id := ⟨_, lawful_int bound⟩

theorem uint_omitted {bound : Nat} (hbound : 0 < bound) : (Codec.uint bound).ReadsBack true id := by
  refine ⟨_, (lawful_uint bound).omitted fun n hn => ?_⟩
  obtain rfl : n = 0 := by simpa [Codec.uint] using hn
  exact ⟨hbound, rfl⟩

theorem slice (h : c.ReadsBack false norm) : c.slice.ReadsBack false (normSlice norm) :=
  ⟨_, h.choose_spec.slice⟩

theorem slice_omitted (h : c.ReadsBack false norm) : c.slice.ReadsBack true (normSlice norm) :=
  ⟨_, h.choose_spec.slice_omitted⟩

theorem map_omitted (h : c.ReadsBack false norm) : c.map.ReadsBack true (normMap norm) :=
  ⟨_, h.choose_spec.map_omitted⟩

theorem pointer_omitted (h : c.ReadsBack false norm)
    (hnull : ∀ a t, c.encode a = some t → isNull t = false) :
    c.pointer.ReadsBack true (Option.map norm) :=
  ⟨_, h.choose_spec.pointer_omitted hnull⟩

end ReadsBack

/-- The names of the fields of a struct: none is taken for one after it. -/
def Record.DistinctNames : List String → Prop
  | [] => True
  | name :: names => Record.Distinct name (names.map str) ∧ DistinctNames names

instance Record.decidableDistinctNames : (names : List String) → Decidable (DistinctNames names)
  | [] => isTrue trivial
  | _ :: names => @instDecidableAnd _ _ inferInstance (decidableDistinctNames names)

/-- The fields with these names are read back as `norm` of them. -/
structure Record.ReadsBack {σ : Type} (r : Record σ) (names : List String) (norm : σ → σ) :
    Prop where
  names_eq : r.names = names.map str
  lawful : Record.DistinctNames names → ∃ Fits, r.Lawful norm Fits

theorem Record.ReadsBack.nil : Record.nil.ReadsBack [] id := ⟨rfl, fun _ => ⟨_, Record.lawful_nil⟩⟩

theorem Record.ReadsBack.cons {β : Type} {r : Record β} (name : String) {names : List String}
    {omitempty : Bool} {norm : α → α} {norm' : β → β} (hc : c.ReadsBack omitempty norm)
    (hr : r.ReadsBack names norm') :
    (Record.cons name omitempty c r).ReadsBack (name :: names)
      fun x => (norm x.1, norm' x.2) := by
  refine ⟨?_, fun hnames => ?_⟩
  · show str name :: r.names = _
    rw [hr.names_eq, List.map_cons]
  · obtain ⟨Fits, hfits⟩ := hc
    obtain ⟨Fits', hfits'⟩ := hr.lawful hnames.2
    exact ⟨_, Record.Lawful.cons hfits hfits' (hr.names_eq ▸ hnames.1)⟩

/-- A struct under its own name. -/
theorem Record.ReadsBack.struct {β : Type} {r : Record α} {names : List String} {norm : α → α}
    (hr : r.ReadsBack names norm) (hnames : Record.DistinctNames names) {unpack : β → α}
    {pack : α → β} (hpack : ∀ a, unpack (pack a) = a) :
    ((Codec.struct r).iso unpack pack).ReadsBack false fun b => pack (norm (unpack b)) := by
  obtain ⟨Fits, hfits⟩ := hr.lawful hnames
  exact ⟨_, hfits.struct.iso hpack⟩

end Go.Codec

/-! ### The structs of a document -/

section Structs

theorem isNull_scalar_of_isNumber {text : Bytes} (h : Json.isNumber text = true) :
    isNull (.scalar text) = false := by
  have hne := ne_null_of_isNumber h
  simpa [isNull] using hne

variable [Runtime]

/-- A `valueWire` as it comes back. -/
def ValueWire.norm (w : ValueWire) : ValueWire :=
  ⟨sanitize w.type, w.boolean, w.string.map sanitize, w.integer, w.float, normRaw w.structured⟩

theorem readsBack_float64 : float64.ReadsBack false id := by
  refine ⟨_, lawful_number fun f text h => ?_⟩
  split_ifs at h with hfinite
  obtain ⟨hnan, hinf⟩ := not_or.mp hfinite
  cases h
  exact ⟨Runtime.isNumber_formatFloat f (by simpa using hnan) (by simpa using hinf),
    Runtime.parseFloat_formatFloat f (by simpa using hnan) (by simpa using hinf)⟩

theorem isNull_float64 (f : Float64) (t : Json.Tree) (h : float64.encode f = some t) :
    isNull t = false := by
  obtain ⟨text, htext, rfl⟩ := Option.map_eq_some_iff.mp h
  dsimp only at htext
  split_ifs at htext with hfinite
  obtain ⟨hnan, hinf⟩ := not_or.mp hfinite
  cases htext
  exact isNull_scalar_of_isNumber
    (Runtime.isNumber_formatFloat f (by simpa using hnan) (by simpa using hinf))

theorem ValueWire.readsBack : ValueWire.codec.ReadsBack false ValueWire.norm := by
  have hboolean : Codec.bool.pointer.ReadsBack true (Option.map id) :=
    ReadsBack.pointer_omitted ⟨_, lawful_bool⟩ fun b t h => by
      cases h
      cases b <;> rfl
  have hstring : Codec.string.pointer.ReadsBack true (Option.map sanitize) :=
    ReadsBack.string.pointer_omitted fun s t h => by
      cases h
      rfl
  have hinteger : int64.pointer.ReadsBack true (Option.map id) :=
    (ReadsBack.int _).pointer_omitted fun n t h => by
      cases h
      exact isNull_scalar_of_isNumber (isNumber_decimalInt n)
  have hfloat : float64.pointer.ReadsBack true (Option.map id) :=
    readsBack_float64.pointer_omitted isNull_float64
  have hraw : rawMessage.ReadsBack true normRaw := ⟨_, lawful_rawMessage⟩
  have hfields := Record.ReadsBack.cons "type" .string <| .cons "boolean" hboolean <|
    .cons "string" hstring <| .cons "integer" hinteger <| .cons "float" hfloat <|
    .cons "structured" hraw .nil
  refine (hfields.struct (by decide +kernel) fun _ => rfl).congr fun w => ?_
  simp only [ValueWire.norm, Option.map_id, id_eq]

theorem isNull_valueWire (w : ValueWire) (t : Json.Tree) (h : ValueWire.codec.encode w = some t) :
    isNull t = false :=
  isNull_struct h

omit [Runtime] in
theorem WeeklyWire.readsBack : WeeklyWire.codec.ReadsBack false id := by
  have hfields := Record.ReadsBack.cons "weekday" (.int (2 ^ 63)) <|
    .cons "start_minute" (.int (2 ^ 63)) <| .cons "end_minute" (.int (2 ^ 63)) .nil
  exact (hfields.struct (by decide +kernel) fun _ => rfl).congr fun w => rfl

/-- A `strategyWire` as it comes back. -/
def StrategyWire.norm (w : StrategyWire) : StrategyWire where
  kind := sanitize w.kind
  name := sanitize w.name
  variant := sanitize w.variant
  tenants := normSlice sanitize w.tenants
  subjects := normSlice sanitize w.subjects
  environments := normSlice sanitize w.environments
  attributes := normMap sanitize w.attributes
  allowTenants := normSlice sanitize w.allowTenants
  denyTenants := normSlice sanitize w.denyTenants
  allowSubjects := normSlice sanitize w.allowSubjects
  denySubjects := normSlice sanitize w.denySubjects
  seed := sanitize w.seed
  threshold := w.threshold
  notBefore := sanitize w.notBefore
  notAfter := sanitize w.notAfter
  location := sanitize w.location
  windows := normSlice id w.windows
  fact := sanitize w.fact
  equals := w.equals.map ValueWire.norm

theorem StrategyWire.readsBack : StrategyWire.codec.ReadsBack false StrategyWire.norm := by
  have hstrings : Codec.string.slice.ReadsBack true (normSlice sanitize) :=
    ReadsBack.string.slice_omitted
  have hthreshold : (Codec.uint (2 ^ 32)).ReadsBack true id := .uint_omitted (by decide)
  have hequals : ValueWire.codec.pointer.ReadsBack true (Option.map ValueWire.norm) :=
    ValueWire.readsBack.pointer_omitted isNull_valueWire
  have hfields := Record.ReadsBack.cons "kind" .string <| .cons "name" .string <|
    .cons "variant" .string <| .cons "tenants" hstrings <| .cons "subjects" hstrings <|
    .cons "environments" hstrings <| .cons "attributes" ReadsBack.string.map_omitted <|
    .cons "allow_tenants" hstrings <| .cons "deny_tenants" hstrings <|
    .cons "allow_subjects" hstrings <| .cons "deny_subjects" hstrings <|
    .cons "seed" .string_omitted <| .cons "threshold" hthreshold <|
    .cons "not_before" .string_omitted <| .cons "not_after" .string_omitted <|
    .cons "location" .string_omitted <| .cons "windows" WeeklyWire.readsBack.slice_omitted <|
    .cons "fact" .string_omitted <| .cons "equals" hequals .nil
  exact (hfields.struct (by decide +kernel) fun _ => rfl).congr fun w => rfl

omit [Runtime] in
/-- A `dependencyWire` as it comes back. -/
def DependencyWire.norm (w : DependencyWire) : DependencyWire :=
  ⟨sanitize w.featureKey, sanitize w.requiredVariant⟩

omit [Runtime] in
theorem DependencyWire.readsBack : DependencyWire.codec.ReadsBack false DependencyWire.norm := by
  have hfields := Record.ReadsBack.cons "feature_key" .string <|
    .cons "required_variant" .string .nil
  exact (hfields.struct (by decide +kernel) fun _ => rfl).congr fun w => rfl

/-- A `definitionWire` as it comes back. -/
def DefinitionWire.norm (w : DefinitionWire) : DefinitionWire where
  key := sanitize w.key
  type := sanitize w.type
  default := w.default.norm
  variants := normMap ValueWire.norm w.variants
  metadata := normMap sanitize w.metadata
  owner := sanitize w.owner
  lifecycle := sanitize w.lifecycle
  dependencies := normSlice DependencyWire.norm w.dependencies
  groups := normSlice sanitize w.groups
  tags := normSlice sanitize w.tags
  version := w.version
  strategies := normSlice StrategyWire.norm w.strategies

theorem DefinitionWire.readsBack : DefinitionWire.codec.ReadsBack false DefinitionWire.norm := by
  have hfields := Record.ReadsBack.cons "key" .string <| .cons "type" .string <|
    .cons "default" ValueWire.readsBack <|
    .cons "variants" ValueWire.readsBack.map_omitted <|
    .cons "metadata" ReadsBack.string.map_omitted <| .cons "owner" .string_omitted <|
    .cons "lifecycle" .string_omitted <|
    .cons "dependencies" DependencyWire.readsBack.slice_omitted <|
    .cons "groups" ReadsBack.string.slice_omitted <|
    .cons "tags" ReadsBack.string.slice_omitted <|
    .cons "version" (ReadsBack.uint_omitted (by decide : 0 < 2 ^ 64)) <|
    .cons "strategies" StrategyWire.readsBack.slice_omitted .nil
  exact (hfields.struct (by decide +kernel) fun _ => rfl).congr fun w => rfl

/-- A `groupWire` as it comes back. -/
def GroupWire.norm (w : GroupWire) : GroupWire where
  key := sanitize w.key
  parent := sanitize w.parent
  metadata := normMap sanitize w.metadata
  owner := sanitize w.owner
  tags := normSlice sanitize w.tags
  version := w.version
  strategies := normSlice StrategyWire.norm w.strategies

theorem GroupWire.readsBack : GroupWire.codec.ReadsBack false GroupWire.norm := by
  have hfields := Record.ReadsBack.cons "key" .string <| .cons "parent" .string_omitted <|
    .cons "metadata" ReadsBack.string.map_omitted <| .cons "owner" .string_omitted <|
    .cons "tags" ReadsBack.string.slice_omitted <|
    .cons "version" (ReadsBack.uint_omitted (by decide : 0 < 2 ^ 64)) <|
    .cons "strategies" StrategyWire.readsBack.slice_omitted .nil
  exact (hfields.struct (by decide +kernel) fun _ => rfl).congr fun w => rfl

/-- A `documentWire` as it comes back. -/
def DocumentWire.norm (w : DocumentWire) : DocumentWire where
  format := sanitize w.format
  version := w.version
  features := normSlice DefinitionWire.norm w.features
  groups := normSlice GroupWire.norm w.groups

theorem DocumentWire.readsBack : DocumentWire.codec.ReadsBack false DocumentWire.norm := by
  have hfields := Record.ReadsBack.cons "format" .string <| .cons "version" (.int (2 ^ 63)) <|
    .cons "features" DefinitionWire.readsBack.slice <|
    .cons "groups" GroupWire.readsBack.slice_omitted .nil
  exact (hfields.struct (by decide +kernel) fun _ => rfl).congr fun w => rfl

end Structs

end FeatureFlags
