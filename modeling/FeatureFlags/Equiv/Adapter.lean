import FeatureFlags.Equiv.Marshal
import FeatureFlags.Equiv.Typing
import FeatureFlags.Lib.Writes

/-!
# The OpenFeature adapter and the native engine

* `Context.validate_eq_ok_iff`: what the native engine asks of a context.
* `ShapeChecked`: what the first loop of the adapter has checked.
* `Mapped`: what the second loop has stored.
* `adapter_acceptance_iff`: exactly when a context that the adapter accepts is one that the native
  engine accepts.
* `object_evaluation_iff`: exactly when the evaluation of an object flag returns the document that
  was selected, or an error.
-/

namespace FeatureFlags

open Go Json Lib

/-! ### Native contexts -/

/-- What `Context.validate` accepts. -/
structure Context.Valid (limits : Limits) (c : Context) : Prop where
  subject : len c.subject ≤ limits.maxContextValueBytes
  tenant : len c.tenant ≤ limits.maxContextValueBytes
  environment : len c.environment ≤ limits.maxContextValueBytes
  attributesLen : c.attributes.len ≤ limits.maxAttributes
  factsLen : c.facts.len ≤ limits.maxFacts
  attributes : ∀ (key text : Bytes), c.attributes[key]? = some text →
    len key ≤ limits.maxContextKeyBytes ∧ len text ≤ limits.maxContextValueBytes
  facts : ∀ (key : Bytes) (value : Value), c.facts[key]? = some value →
    len key ≤ limits.maxContextKeyBytes ∧ value.Valid limits

theorem Context.validate_eq_ok_iff {ord : MapOrder} {limits : Limits} {c : Context} {u : Unit} :
    c.validate ord limits = .ok u ↔ c.Valid limits := by
  simp only [Context.validate, bind_eq_ok, rejectIf_eq_ok, forEach_eq_ok, exists_const,
    mapError_eq_ok, Value.validate_eq_ok_iff, not_or, not_lt, Prod.forall, GoMap.mem_range]
  constructor
  · rintro ⟨⟨hsubject, htenant, henvironment⟩, hattributesLen, hfactsLen, hattributes, hfacts⟩
    exact ⟨hsubject, htenant, henvironment, hattributesLen, hfactsLen, hattributes, hfacts⟩
  · intro h
    exact ⟨⟨h.subject, h.tenant, h.environment⟩, h.attributesLen, h.factsLen, h.attributes, h.facts⟩

/-! ### Facts -/

section Facts

variable {types : Types} {heap : Heap} {encoder : Encoder} {limits : Limits} {value : Reflected}
  {fact : Value}

/-- The cases of the switch check what the native engine checks. -/
theorem valid_of_mapNative (h : mapNative types heap limits value = some (.ok fact)) :
    fact.Valid limits := by
  unfold mapNative at h
  split at h
  · cases h
  split at h
  · cases h
    trivial
  · rw [Option.some.injEq] at h
    split_ifs at h with hlen
    cases h
    simp only [Value.Valid]
    omega
  · split_ifs at h
    cases h
    trivial
  · split_ifs at h with hkind hlarge
    · cases h
    · cases h
      trivial
  · split_ifs at h with hkind hfinite
    · cases h
    · cases h
      simpa [Value.Valid] using hfinite
  · dsimp only at h
    split_ifs at h with hbad
    · cases h
    · cases h
      simp only [Value.Valid]
      simpa [not_or] using hbad
  · cases h

/-- The default branch does not check that what was written can be read, the encoder does. -/
theorem valid_of_mapStructured (h : mapStructured types heap encoder limits value = .ok fact) :
    fact.Valid limits := by
  unfold mapStructured at h
  split at h
  · exact nomatch h
  split at h
  · exact nomatch h
  · exact nomatch h
  · rename_i encoded log hmarshal
    obtain ⟨tree, log', hencode, htext⟩ := run_bind_eq_ok.mp hmarshal
    rw [EStateM.run_pure, EStateM.Result.ok.injEq] at htext
    split_ifs at h with hlen
    cases h
    obtain ⟨hcanonical, hdepth⟩ := readable_encode _ (Nat.zero_le _) _ _ _ _ _ hencode
    rw [Nat.zero_add] at hdepth
    rw [← htext.1] at hlen ⊢
    exact ⟨not_lt.mp hlen, (valid_canonical_iff hcanonical).mpr hdepth⟩

/-- Every fact of the adapter is one that the native engine accepts. -/
theorem valid_of_mapFact (h : mapFactWithLimits types heap encoder limits value = .ok fact) :
    fact.Valid limits := by
  unfold mapFactWithLimits at h
  cases hnative : mapNative types heap limits value with
  | none =>
    rw [hnative] at h
    exact valid_of_mapStructured h
  | some result =>
    rw [hnative] at h
    rw [mapError_eq_ok] at h
    rw [h] at hnative
    exact valid_of_mapNative hnative

theorem mapFact_string {text : Bytes} (hstring : asString types value = some text)
    (h : mapFactWithLimits types heap encoder limits value = .ok fact) :
    fact = .string text ∧ len text ≤ limits.maxContextValueBytes := by
  unfold asString at hstring
  split at hstring
  · rename_i type content
    split_ifs at hstring with htype
    cases hstring
    simp only [mapFactWithLimits, mapNative, htype.1, htype.2] at h
    split_ifs at h with hlen
    · exact nomatch h
    · cases h
      exact ⟨rfl, by omega⟩
  · exact nomatch hstring

end Facts

/-! ### The first loop -/

/-- An entry that becomes a fact. -/
def isFact (x : Bytes × Reflected) : Bool := x.1 ∉ reservedKeys

/-- An entry that becomes an attribute too. -/
def isAttribute (types : Types) (x : Bytes × Reflected) : Bool :=
  isFact x && (asString types x.2).isSome

theorem isFact_eq_false_iff {x : Bytes × Reflected} :
    isFact x = false ↔
      (x.1 = targetingKey ∨ x.1 = str "environment") ∨ x.1 = str "tenant" ∨ x.1 = str "time" := by
  simp only [isFact, reservedKeys, List.mem_cons, List.not_mem_nil, or_false, decide_not,
    Bool.not_eq_false', decide_eq_true_eq]
  tauto

/-- What is checked of one entry. -/
structure EntryChecked (types : Types) (limits : Limits) (x : Bytes × Reflected) : Prop where
  key : len x.1 ≤ limits.maxContextKeyBytes
  identity : x.1 = targetingKey ∨ x.1 = str "environment" → ∀ text,
    asString types x.2 = some text → len text ≤ limits.maxContextValueBytes

/-- What the loop has checked and counted. -/
structure ShapeChecked (types : Types) (limits : Limits) (l : List (Bytes × Reflected))
    (shape shape' : OpenFeatureProvider.ContextShape) : Prop where
  entries : ∀ x ∈ l, EntryChecked types limits x
  facts : shape'.facts = shape.facts + len (l.filter isFact)
  attributes : shape'.attributes = shape.attributes + len (l.filter (isAttribute types))
  bounded : (∃ x ∈ l, isFact x = true) →
    shape'.facts ≤ limits.maxFacts ∧ shape'.attributes ≤ limits.maxAttributes

section Shape

variable {types : Types} {limits : Limits} {shape shape' shape'' : OpenFeatureProvider.ContextShape}

theorem shapeChecked_step {x : Bytes × Reflected}
    (h : OpenFeatureProvider.shapeStep types limits shape x = .ok shape') :
    ShapeChecked types limits [x] shape shape' := by
  simp only [OpenFeatureProvider.shapeStep, bind_eq_ok, rejectIf_eq_ok, exists_const, not_lt] at h
  obtain ⟨hkey, h⟩ := h
  cases hfact : isFact x with
  | true =>
    have hkeys := mt isFact_eq_false_iff.mpr (ne_false_of_eq_true hfact)
    rw [not_or] at hkeys
    rw [if_neg hkeys.1, if_neg hkeys.2] at h
    simp only [bind_eq_ok, rejectIf_eq_ok, exists_const, not_or, not_lt, pure_eq_ok] at h
    obtain ⟨hbounds, rfl⟩ := h
    refine ⟨?_, ?_, ?_, fun _ => hbounds⟩
    · rw [List.forall_mem_singleton]
      exact ⟨hkey, fun hidentity => absurd hidentity hkeys.1⟩
    · simp [hfact, len]
    · cases hstring : (asString types x.2).isSome <;>
        simp [isAttribute, hfact, hstring, len]
  | false =>
    have hcounts : [x].filter isFact = [] ∧ [x].filter (isAttribute types) = [] := by
      simp [isAttribute, hfact]
    have hshape : shape' = shape ∧ EntryChecked types limits x := by
      by_cases hidentity : x.1 = targetingKey ∨ x.1 = str "environment"
      · rw [if_pos hidentity] at h
        cases hstring : asString types x.2 with
        | none =>
          rw [hstring] at h
          cases h
          exact ⟨rfl, hkey, fun _ text htext => by rw [hstring] at htext; cases htext⟩
        | some text =>
          simp only [hstring, bind_eq_ok, rejectIf_eq_ok, exists_const, not_lt, pure_eq_ok] at h
          refine ⟨h.2.symm, hkey, fun _ text' htext => ?_⟩
          rw [hstring, Option.some.injEq] at htext
          rw [← htext]
          exact h.1
      · have hother := (isFact_eq_false_iff.mp hfact).resolve_left hidentity
        rw [if_neg hidentity, if_pos hother] at h
        cases h
        exact ⟨rfl, hkey, fun hidentity' => absurd hidentity' hidentity⟩
    obtain ⟨rfl, hentry⟩ := hshape
    refine ⟨by rwa [List.forall_mem_singleton], ?_, ?_, ?_⟩
    · rw [hcounts.1, len_nil, Int.add_zero]
    · rw [hcounts.2, len_nil, Int.add_zero]
    · rintro ⟨y, hy, hyfact⟩
      rw [List.mem_singleton.mp hy, hfact] at hyfact
      cases hyfact

theorem shapeChecked_append {l l'}
    (h : ShapeChecked types limits l shape shape')
    (h' : ShapeChecked types limits l' shape' shape'') :
    ShapeChecked types limits (l ++ l') shape shape'' where
  entries x hx := (List.mem_append.mp hx).elim (h.entries x) (h'.entries x)
  facts := by
    rw [h'.facts, h.facts, List.filter_append, len_append, Int.add_assoc]
  attributes := by
    rw [h'.attributes, h.attributes, List.filter_append, len_append, Int.add_assoc]
  bounded := by
    rintro ⟨x, hx, hfact⟩
    by_cases hlater : ∃ y ∈ l', isFact y = true
    · exact h'.bounded hlater
    · -- nothing is counted after the last fact
      have hfacts : l'.filter isFact = [] :=
        List.filter_eq_nil_iff.mpr fun y hy hy' => hlater ⟨y, hy, hy'⟩
      have hattributes : l'.filter (isAttribute types) = [] :=
        List.filter_eq_nil_iff.mpr fun y hy hy' =>
          hlater ⟨y, hy, (Bool.and_eq_true_iff.mp hy').1⟩
      rw [h'.facts, h'.attributes, hfacts, hattributes, len_nil, Int.add_zero, Int.add_zero]
      have hx : x ∈ l := (List.mem_append.mp hx).resolve_right fun hx' => hlater ⟨x, hx', hfact⟩
      exact h.bounded ⟨x, hx, hfact⟩

theorem shapeChecked_of_fold {l : List (Bytes × Reflected)}
    (h : l.foldlM (OpenFeatureProvider.shapeStep types limits) shape = .ok shape') :
    ShapeChecked types limits l shape shape' := by
  induction l generalizing shape with
  | nil =>
    cases h
    exact ⟨nofun, (Int.add_zero _).symm, (Int.add_zero _).symm, fun ⟨_, hx, _⟩ => (nomatch hx)⟩
  | cons x l ih =>
    rw [List.foldlM_cons, bind_eq_ok] at h
    obtain ⟨next, hstep, hrest⟩ := h
    exact shapeChecked_append (shapeChecked_step hstep) (ih hrest)

end Shape

/-! ### The second loop -/

section Mapped

variable {types : Types} {heap : Heap} {encoder : Encoder} {provider : OpenFeatureProvider}

/-- What is stored at a key. -/
def Context.stored (c : Context) (key : Bytes) : Option Value × Option Bytes × Bytes :=
  (c.facts[key]?, c.attributes[key]?, if key = str "environment" then c.environment else [])

/-- What an entry stores at its key. -/
def storedBy (types : Types) (heap : Heap) (encoder : Encoder) (limits : Limits)
    (x : Bytes × Reflected) (old : Option Value × Option Bytes × Bytes) :
    Option Value × Option Bytes × Bytes :=
  if isFact x then
    ((mapFactWithLimits types heap encoder limits x.2).toOption,
      (asString types x.2).or old.2.1, old.2.2)
  else (old.1, old.2.1, if x.1 = str "environment" then (asString types x.2).getD [] else old.2.2)

variable (types : Types) (heap : Heap) (encoder : Encoder) (provider : OpenFeatureProvider)
  (c : Context) (x : Bytes × Reflected) in
/-- What one turn of the loop can do. -/
inductive ContextTurn : Context → Prop
  | kept (key : x.1 = targetingKey ∨ x.1 = str "tenant") : ContextTurn c
  | environment {text : Bytes} (key : x.1 = str "environment")
      (string : asString types x.2 = some text) :
      ContextTurn { c with environment := text }
  | time {time : Time} (key : x.1 = str "time") : ContextTurn { c with time }
  | fact {fact : Value} (key : isFact x = true)
      (mapped : mapFactWithLimits types heap encoder provider.configuredLimits x.2 = .ok fact) :
      ContextTurn { c with
        facts := c.facts.insert x.1 fact
        attributes := match asString types x.2 with
          | some text => c.attributes.insert x.1 text
          | none => c.attributes }

variable {c c' : Context} {x : Bytes × Reflected}

theorem contextTurn_of_step (h : provider.contextStep types heap encoder c x = .ok c') :
    ContextTurn types heap encoder provider c x c' := by
  unfold OpenFeatureProvider.contextStep at h
  split at h
  · rename_i hkey
    cases h
    exact .kept (.inl hkey)
  split at h
  · rename_i hkey
    split at h
    · cases h
      exact .kept (.inr hkey)
    · exact nomatch h
  split at h
  · rename_i hkey
    split at h
    · rename_i text htext
      cases h
      exact .environment hkey htext
    · exact nomatch h
  split at h
  · rename_i hkey
    split at h
    · cases h
      exact .time hkey
    · exact nomatch h
  · rename_i htargeting htenant henvironment htime
    have hfact : isFact x = true := by
      rw [← Bool.not_eq_false, isFact_eq_false_iff]
      tauto
    split at h
    · exact nomatch h
    · exact nomatch h
    · rename_i fact hmapped
      cases h
      exact .fact hfact hmapped

section

variable (h : ContextTurn types heap encoder provider c x c')
include h

theorem ContextTurn.framed {key : Bytes} (hkey : ¬ x.1 = key) : c'.stored key = c.stored key := by
  cases h with
  | kept | time => rfl
  | environment henvironment =>
    rw [henvironment] at hkey
    simp [Context.stored, Ne.symm hkey]
  | fact _ _ =>
    simp only [Context.stored, GoMap.lookup_insert_ne _ _ hkey]
    cases asString types x.2 with
    | none => rfl
    | some text => simp only [GoMap.lookup_insert_ne _ _ hkey]

theorem ContextTurn.identity : (c'.tenant, c'.subject) = (c.tenant, c.subject) := by
  cases h <;> rfl

theorem ContextTurn.writes :
    c'.stored x.1 = storedBy types heap encoder provider.configuredLimits x (c.stored x.1) := by
  cases h with
  | kept hkey =>
    have hfact : isFact x = false := isFact_eq_false_iff.mpr (by tauto)
    have hne : x.1 ≠ str "environment" := by
      rcases hkey with hkey | hkey <;> rw [hkey] <;> decide
    simp [storedBy, hfact, hne]
  | environment hkey hstring =>
    have hfact : isFact x = false := isFact_eq_false_iff.mpr (by tauto)
    simp [storedBy, hfact, hkey, hstring, Context.stored]
  | time hkey =>
    have hfact : isFact x = false := isFact_eq_false_iff.mpr (by tauto)
    have hne : x.1 ≠ str "environment" := by rw [hkey]; decide
    simp [storedBy, hfact, hne, Context.stored]
  | fact hfact hmapped =>
    have hne : x.1 ≠ str "environment" := by
      rintro hkey
      rw [isFact_eq_false_iff.mpr (.inl (.inr hkey))] at hfact
      exact nomatch hfact
    cases hstring : asString types x.2 <;>
      simp [storedBy, hfact, hmapped, hstring, Context.stored, Except.toOption]

theorem ContextTurn.mapped (hfact : isFact x = true) :
    ∃ fact, mapFactWithLimits types heap encoder provider.configuredLimits x.2 = .ok fact := by
  have hkeys := mt isFact_eq_false_iff.mpr (ne_false_of_eq_true hfact)
  cases h with
  | kept hkey | environment hkey _ | time hkey => exact absurd (by tauto) hkeys
  | fact _ hmapped => exact ⟨_, hmapped⟩

end

/-- What the adapter has stored for a flattened context. -/
structure Mapped (types : Types) (heap : Heap) (encoder : Encoder) (provider : OpenFeatureProvider)
    (flat : FlattenedContext) (c : Context) : Prop where
  tenant : c.tenant = provider.tenant
  subject : c.subject = [] ∨ ∃ value, flat[targetingKey]? = some value ∧
    asString types value = some c.subject
  environment : c.environment = [] ∨ ∃ value, flat[str "environment"]? = some value ∧
    asString types value = some c.environment
  /-- Every other entry is one fact, and one attribute if it is a `string`. -/
  entries : ∀ (key : Bytes) (value : Reflected), flat[key]? = some value → key ∉ reservedKeys →
    ∃ fact, mapFactWithLimits types heap encoder provider.configuredLimits value = .ok fact ∧
      c.facts[key]? = some fact ∧ c.attributes[key]? = asString types value
  /-- There is nothing else. -/
  others : ∀ key, (key ∈ reservedKeys ∨ flat[key]? = none) →
    c.facts[key]? = none ∧ c.attributes[key]? = none

/-- The context before the second loop. -/
def startContext (provider : OpenFeatureProvider) (subject : Bytes) : Context :=
  { Context.empty with tenant := provider.tenant, subject }

theorem startContext_stored (provider : OpenFeatureProvider) (subject key : Bytes) :
    (startContext provider subject).stored key = (none, none, []) := by
  simp [Context.stored, startContext, Context.empty]

variable {first second : MapOrder} {flat : FlattenedContext} {c : Context}
  (h : provider.mapContext types heap encoder first second flat = .ok c)
include h

theorem mapContext_eq_ok :
    OpenFeatureProvider.validateContextShape types first flat provider.configuredLimits = .ok () ∧
      ∃ subject, (subject = [] ∨ ∃ value, flat[targetingKey]? = some value ∧
          asString types value = some subject) ∧
        Writes (fun c x c' => provider.contextStep types heap encoder c x = .ok c')
          (flat.range second) (startContext provider subject) c := by
  simp only [OpenFeatureProvider.mapContext, bind_eq_ok, mapError_eq_ok] at h
  obtain ⟨_, hshape, h⟩ := h
  refine ⟨hshape, ?_⟩
  cases htargeting : flat[targetingKey]? with
  | none =>
    rw [htargeting] at h
    exact ⟨[], .inl rfl, Writes.of_foldlM h⟩
  | some value =>
    rw [htargeting] at h
    dsimp only at h
    cases hstring : asString types value with
    | none =>
      rw [hstring] at h
      cases h
    | some subject =>
      rw [hstring] at h
      exact ⟨subject, .inr ⟨value, rfl, hstring⟩, Writes.of_foldlM h⟩

theorem mapped_of_mapContext : Mapped types heap encoder provider flat c := by
  obtain ⟨-, subject, hsubject, hwrites⟩ := mapContext_eq_ok h
  have hframed (c : Context) (x : Bytes × Reflected) (c' : Context) (key : Bytes)
      (hstep : provider.contextStep types heap encoder c x = .ok c') (hne : ¬ x.1 = key) :
      c'.stored key = c.stored key := (contextTurn_of_step hstep).framed hne
  have hwritten (c : Context) (x : Bytes × Reflected) (c' : Context)
      (hstep : provider.contextStep types heap encoder c x = .ok c') :
      c'.stored x.1 = storedBy types heap encoder provider.configuredLimits x (c.stored x.1) :=
    (contextTurn_of_step hstep).writes
  have hidentity (c : Context) (x : Bytes × Reflected) (c' : Context) (_ : Unit)
      (hstep : provider.contextStep types heap encoder c x = .ok c') (_ : ¬ False) :
      (c'.tenant, c'.subject) = (c.tenant, c.subject) := (contextTurn_of_step hstep).identity
  have hstored (key : Bytes) (value : Reflected) (hkey : flat[key]? = some value) :
      c.stored key =
        storedBy types heap encoder provider.configuredLimits (key, value) (none, none, []) := by
    rw [← startContext_stored provider subject key]
    exact hwrites.at_key Context.stored _ hframed hwritten (GoMap.nodup_range second flat)
      (GoMap.mem_range.mpr hkey)
  have habsent (key : Bytes) (hkey : flat[key]? = none) : c.stored key = (none, none, []) := by
    rw [← startContext_stored provider subject key]
    refine hwrites.frame Context.stored hframed fun x hx hxkey => ?_
    rw [← hxkey, GoMap.mem_range.mp hx] at hkey
    exact nomatch hkey
  have hkept : (c.tenant, c.subject) = (provider.tenant, subject) :=
    hwrites.frame (fun c _ => (c.tenant, c.subject)) hidentity (k := ()) fun _ _ hfalse => hfalse
  rw [Prod.mk.injEq] at hkept
  refine ⟨hkept.1, hkept.2 ▸ hsubject, ?_, fun key value hkey hfact => ?_, fun key hkey => ?_⟩
  · cases henvironment : flat[str "environment"]? with
    | none =>
      have hnone := habsent _ henvironment
      simp only [Context.stored, if_true, Prod.mk.injEq] at hnone
      exact .inl hnone.2.2
    | some value =>
      have hsome := hstored _ value henvironment
      have hreserved : isFact (str "environment", value) = false :=
        isFact_eq_false_iff.mpr (by tauto)
      have hlast : c.environment = (asString types value).getD [] := by
        simpa [Context.stored, storedBy, hreserved] using congrArg (fun x => x.2.2) hsome
      cases hstring : asString types value with
      | none =>
        rw [hstring] at hlast
        exact .inl hlast
      | some text =>
        rw [hstring] at hlast
        exact .inr ⟨value, rfl, hlast ▸ hstring⟩
  · have hfact : isFact (key, value) = true := by simpa [isFact] using hfact
    obtain ⟨_, _, hstep⟩ := hwrites.exists_step (GoMap.mem_range.mpr hkey)
    obtain ⟨fact, hmapped⟩ := (contextTurn_of_step hstep).mapped hfact
    have hsome := hstored key value hkey
    simp only [Context.stored, storedBy, hfact, if_true, hmapped, Prod.mk.injEq] at hsome
    refine ⟨fact, hmapped, hsome.1, hsome.2.1.trans ?_⟩
    exact Option.or_none
  · cases hvalue : flat[key]? with
    | none =>
      have hnone := habsent key hvalue
      simp only [Context.stored, Prod.mk.injEq] at hnone
      exact ⟨hnone.1, hnone.2.1⟩
    | some value =>
      have hreserved := hkey.resolve_right (by rw [hvalue]; exact Option.some_ne_none value)
      have hfact : isFact (key, value) = false := by simpa [isFact] using hreserved
      have hsome := hstored key value hvalue
      simp only [Context.stored, storedBy, hfact, Bool.false_eq_true, if_false,
        Prod.mk.injEq] at hsome
      exact ⟨hsome.1, hsome.2.1⟩

end Mapped

/-! ### Acceptance -/

section Acceptance

variable {types : Types} {heap : Heap} {encoder : Encoder} {provider : OpenFeatureProvider}
  {first second : MapOrder} {flat : FlattenedContext} {c : Context}

/-- The context is one that the native engine accepts, with the fixed tenant and exactly the facts
and attributes of the entries. -/
structure NativeAccepts (types : Types) (provider : OpenFeatureProvider) (flat : FlattenedContext)
    (c : Context) : Prop where
  valid : ∀ ord, c.validate ord provider.configuredLimits = .ok ()
  tenant : c.tenant = provider.tenant
  reserved : ∀ key ∈ reservedKeys, key ∉ c.facts ∧ key ∉ c.attributes
  facts : ∀ key, key ∈ c.facts ↔ key ∈ flat ∧ key ∉ reservedKeys
  attributes : ∀ (key text : Bytes), c.attributes[key]? = some text ↔
    key ∉ reservedKeys ∧ ∃ value, flat[key]? = some value ∧ asString types value = some text
  texts : ∀ (key text : Bytes), c.attributes[key]? = some text →
    c.facts[key]? = some (.string text)

/-- A map with the keys of some entries of another is as large as there are such entries. -/
theorem len_eq_len_filter {V W : Type} {m : GoMap V} {m' : GoMap W} (ord : MapOrder)
    {p : Bytes × V → Bool}
    (h : ∀ key, key ∈ m' ↔ ∃ value, m[key]? = some value ∧ p (key, value) = true) :
    m'.len = len ((m.range ord).filter p) := by
  have hnodup : (((m.range ord).filter p).map Prod.fst).Nodup :=
    (List.filter_sublist.map Prod.fst).nodup (GoMap.nodup_range ord m)
  have hmem (key : Bytes) :
      key ∈ m' ↔ key ∈ (∅ : GoMap Unit) ∨ key ∈ ((m.range ord).filter p).map Prod.fst := by
    rw [h key]
    simp
  rw [GoMap.len_of_added hnodup hmem fun key _ => Std.ExtTreeMap.not_mem_empty, List.length_map]
  exact Int.zero_add _

section

variable (h : Mapped types heap encoder provider flat c)
include h

theorem Mapped.attributes_iff (key text : Bytes) :
    c.attributes[key]? = some text ↔
      key ∉ reservedKeys ∧ ∃ value, flat[key]? = some value ∧ asString types value = some text := by
  constructor
  · intro htext
    have hother := mt (h.others key) fun hnone => by
      rw [hnone.2] at htext
      exact nomatch htext
    rw [not_or] at hother
    obtain ⟨value, hvalue⟩ := Option.ne_none_iff_exists'.mp hother.2
    obtain ⟨-, -, -, hattribute⟩ := h.entries key value hvalue hother.1
    exact ⟨hother.1, value, hvalue, hattribute ▸ htext⟩
  · rintro ⟨hfact, value, hvalue, hstring⟩
    obtain ⟨fact, -, -, hattribute⟩ := h.entries key value hvalue hfact
    rw [hattribute, hstring]

theorem Mapped.fact_of_attribute {key text : Bytes} (htext : c.attributes[key]? = some text) :
    c.facts[key]? = some (.string text) ∧
      len text ≤ provider.configuredLimits.maxContextValueBytes := by
  obtain ⟨hfact, value, hvalue, hstring⟩ := (h.attributes_iff key text).mp htext
  obtain ⟨fact, hfactOf, hlookup, -⟩ := h.entries key value hvalue hfact
  obtain ⟨rfl, hlen⟩ := mapFact_string hstring hfactOf
  exact ⟨hlookup, hlen⟩

theorem Mapped.facts_iff (key : Bytes) :
    key ∈ c.facts ↔ ∃ value, flat[key]? = some value ∧ key ∉ reservedKeys := by
  rw [GoMap.mem_iff]
  constructor
  · rintro ⟨fact, hfact⟩
    have hother := mt (h.others key) fun hnone => by
      rw [hnone.1] at hfact
      exact nomatch hfact
    rw [not_or] at hother
    obtain ⟨value, hvalue⟩ := Option.ne_none_iff_exists'.mp hother.2
    exact ⟨value, hvalue, hother.1⟩
  · rintro ⟨value, hvalue, hreserved⟩
    obtain ⟨fact, -, hfact, -⟩ := h.entries key value hvalue hreserved
    exact ⟨fact, hfact⟩

/-- The facts of the context are counted by the first loop. -/
theorem Mapped.factsLen (ord : MapOrder) : c.facts.len = len ((flat.range ord).filter isFact) :=
  len_eq_len_filter ord fun key => by simp [h.facts_iff key, isFact]

theorem Mapped.attributesLen (ord : MapOrder) :
    c.attributes.len = len ((flat.range ord).filter (isAttribute types)) := by
  refine len_eq_len_filter ord fun key => ?_
  rw [GoMap.mem_iff]
  simp only [h.attributes_iff key, isAttribute, isFact, Bool.and_eq_true, decide_eq_true_eq,
    Option.isSome_iff_exists]
  constructor
  · rintro ⟨text, hfact, value, hvalue, hstring⟩
    exact ⟨value, hvalue, hfact, text, hstring⟩
  · rintro ⟨value, hvalue, hfact, text, hstring⟩
    exact ⟨text, hfact, value, hvalue, hstring⟩

end

theorem shapeChecked_of_mapContext
    (h : provider.mapContext types heap encoder first second flat = .ok c) :
    ∃ shape, ShapeChecked types provider.configuredLimits (flat.range first) ⟨0, 0⟩ shape := by
  have hshape := (mapContext_eq_ok h).1
  simp only [OpenFeatureProvider.validateContextShape, bind_eq_ok, rejectIf_eq_ok] at hshape
  obtain ⟨_, -, shape, hfold, -⟩ := hshape
  exact ⟨shape, shapeChecked_of_fold hfold⟩

/-- The counts that the first loop has compared, and a context without facts. -/
theorem Mapped.counted (h : Mapped types heap encoder provider flat c) {limits : Limits} {shape}
    (hshape : ShapeChecked types limits (flat.range first) ⟨0, 0⟩ shape)
    (hfacts : 0 ≤ limits.maxFacts) (hattributes : 0 ≤ limits.maxAttributes) :
    c.facts.len ≤ limits.maxFacts ∧ c.attributes.len ≤ limits.maxAttributes := by
  rw [h.factsLen first, h.attributesLen first]
  by_cases hany : ∃ x ∈ flat.range first, isFact x = true
  · have hbounded := hshape.bounded hany
    rwa [hshape.facts, hshape.attributes, Int.zero_add, Int.zero_add] at hbounded
  · have hnone : (flat.range first).filter isFact = [] :=
      List.filter_eq_nil_iff.mpr fun x hx hfact => hany ⟨x, hx, hfact⟩
    have hnone' : (flat.range first).filter (isAttribute types) = [] :=
      List.filter_eq_nil_iff.mpr fun x hx hfact => hany ⟨x, hx, (Bool.and_eq_true_iff.mp hfact).1⟩
    rw [hnone, hnone', len_nil]
    exact ⟨hfacts, hattributes⟩

/-- **What the adapter accepts, the native engine accepts**, with the same limits, if and only if
these allow a context without facts and attributes: the adapter compares the counts only at an
entry that is a fact. -/
theorem adapter_acceptance_iff
    (h : provider.mapContext types heap encoder first second flat = .ok c)
    (htenant : newWithLimits provider.configuredLimits provider.tenant =
      .ok ⟨provider.tenant, provider.configuredLimits⟩)
    (hkeys : provider.configuredLimits.maxKeyBytes ≤
      provider.configuredLimits.maxContextValueBytes) :
    NativeAccepts types provider flat c ↔
      0 ≤ provider.configuredLimits.maxFacts ∧ 0 ≤ provider.configuredLimits.maxAttributes := by
  have hmapped := mapped_of_mapContext h
  obtain ⟨shape, hshape⟩ := shapeChecked_of_mapContext h
  have hentry (key : Bytes) (value : Reflected) (hvalue : flat[key]? = some value) :=
    hshape.entries (key, value) (GoMap.mem_range.mpr hvalue)
  have htenantLen : len provider.tenant ≤ provider.configuredLimits.maxContextValueBytes := by
    simp only [newWithLimits, bind_eq_ok, rejectIf_eq_ok, not_lt] at htenant
    obtain ⟨_, -, _, hlen, -⟩ := htenant
    exact le_trans hlen hkeys
  constructor
  · intro haccepts
    have hvalid := Context.validate_eq_ok_iff.mp (haccepts.valid .sorted)
    exact ⟨le_trans (Int.natCast_nonneg _) hvalid.factsLen,
      le_trans (Int.natCast_nonneg _) hvalid.attributesLen⟩
  · rintro ⟨hfacts, hattributes⟩
    have hcounted := hmapped.counted hshape hfacts hattributes
    have hidentity (key text : Bytes) (hkey : key = targetingKey ∨ key = str "environment")
        (htext : text = [] ∨ ∃ value, flat[key]? = some value ∧ asString types value = some text) :
        len text ≤ provider.configuredLimits.maxContextValueBytes := by
      rcases htext with rfl | ⟨value, hvalue, hstring⟩
      · exact le_trans (len_nonneg provider.tenant) htenantLen
      · exact (hentry key value hvalue).identity hkey text hstring
    have hvalid : c.Valid provider.configuredLimits := by
      refine ⟨hidentity _ _ (.inl rfl) hmapped.subject, hmapped.tenant ▸ htenantLen,
        hidentity _ _ (.inr rfl) hmapped.environment, hcounted.2, hcounted.1,
        fun key text htext => ?_, fun key fact hlookup => ?_⟩
      · obtain ⟨-, value, hvalue, -⟩ := (hmapped.attributes_iff key text).mp htext
        exact ⟨(hentry key value hvalue).key, (hmapped.fact_of_attribute htext).2⟩
      · obtain ⟨value, hvalue, hfact⟩ :=
          (hmapped.facts_iff key).mp (GoMap.mem_of_lookup hlookup)
        obtain ⟨fact', hfactOf, hlookup', -⟩ := hmapped.entries key value hvalue hfact
        rw [hlookup, Option.some.injEq] at hlookup'
        rw [hlookup']
        exact ⟨(hentry key value hvalue).key, valid_of_mapFact hfactOf⟩
    refine ⟨fun ord => Context.validate_eq_ok_iff.mpr hvalid, hmapped.tenant, fun key hkey => ?_,
      fun key => ?_, hmapped.attributes_iff,
      fun key text htext => (hmapped.fact_of_attribute htext).1⟩
    · obtain ⟨hnone, hnone'⟩ := hmapped.others key (.inl hkey)
      rw [Std.ExtTreeMap.mem_iff_isSome_getElem?, Std.ExtTreeMap.mem_iff_isSome_getElem?, hnone,
        hnone']
      exact ⟨Bool.false_ne_true, Bool.false_ne_true⟩
    · rw [hmapped.facts_iff, GoMap.mem_iff, exists_and_right]

/-- The adapter for a tenant, as `New` makes it. -/
def tenantProvider : OpenFeatureProvider := ⟨str "t", defaultLimits⟩

def singleEntry (value : Reflected) : FlattenedContext :=
  (∅ : GoMap Reflected).insert (str "k") value

/-- Limits that allow no context at all. -/
def noFactsProvider : OpenFeatureProvider := ⟨str "t", { defaultLimits with maxFacts := -1 }⟩

/-- The adapter accepts the context without entries under limits with a negative number of facts,
and the native engine does not. -/
theorem adapter_accepts_no_facts :
    newWithLimits noFactsProvider.configuredLimits (str "t") = .ok noFactsProvider ∧
      noFactsProvider.configuredLimits.maxKeyBytes ≤
        noFactsProvider.configuredLimits.maxContextValueBytes ∧
      noFactsProvider.mapContext applicationTypes applicationHeap applicationEncoder .sorted .sorted
        (∅ : GoMap Reflected) = .ok (startContext noFactsProvider []) ∧
      ¬ NativeAccepts applicationTypes noFactsProvider (∅ : GoMap Reflected)
        (startContext noFactsProvider []) := by
  refine ⟨rfl, by decide, rfl, fun haccepts => ?_⟩
  have hvalid := Context.validate_eq_ok_iff.mp (haccepts.valid .sorted)
  exact absurd hvalid.factsLen (by decide)

/-- A map with a text and a slice of bytes is a fact that the native engine accepts. -/
theorem adapter_acceptance_map :
    ∃ c, tenantProvider.mapContext applicationTypes applicationHeap applicationEncoder .sorted
        .reversed (singleEntry (some (2, .map 1))) = .ok c ∧
      NativeAccepts applicationTypes tenantProvider (singleEntry (some (2, .map 1))) c := by
  obtain ⟨c, hmap⟩ : ∃ c, tenantProvider.mapContext applicationTypes applicationHeap
      applicationEncoder .sorted .reversed (singleEntry (some (2, .map 1))) = .ok c := ⟨_, rfl⟩
  exact ⟨c, hmap, (adapter_acceptance_iff hmap rfl (by decide)).mpr ⟨by decide, by decide⟩⟩

end Acceptance

/-! ### Decoding -/

mutual

/-- The number literals of a document. -/
def numbers : Tree → List Bytes
  | .scalar text =>
    if text = str "null" ∨ text = str "true" ∨ text = str "false" then [] else [text]
  | .string _ => []
  | .array _ items => itemNumbers items
  | .object _ members => memberNumbers members

/-- The number literals of the items. -/
def itemNumbers : List Tree → List Bytes
  | [] => []
  | t :: ts => numbers t ++ itemNumbers ts

/-- The number literals of the members. -/
def memberNumbers : List (Bytes × Tree) → List Bytes
  | [] => []
  | m :: ms => numbers m.2 ++ memberNumbers ms

end

section Decode

variable [Runtime]

/-- The literals are in the range of `float64`. -/
def InRange (texts : List Bytes) : Prop := ∀ text ∈ texts, (Runtime.parseFloat text).isSome = true

theorem inRange_append {texts texts' : List Bytes} :
    InRange (texts ++ texts') ↔ InRange texts ∧ InRange texts' := List.forall_mem_append

theorem decodeScalar_isSome_iff (text : Bytes) :
    (decodeScalar text).isSome = true ↔ InRange (numbers (.scalar text)) := by
  unfold decodeScalar
  rw [numbers]
  split_ifs with h₁ h₂ h₃ h₄ h₄ h₄ h₄ <;> simp_all [InRange]

mutual

/-- A document is decoded exactly when its numbers are in range. -/
theorem decodeTree_isSome_iff (t : Tree) : (decodeTree t).isSome = true ↔ InRange (numbers t) := by
  match t with
  | .scalar text => exact decodeScalar_isSome_iff text
  | .string raw => simp [decodeTree, numbers, InRange]
  | .array text items =>
    rw [decodeTree, Option.isSome_map, numbers]
    exact decodeItems_isSome_iff items
  | .object text members =>
    rw [decodeTree, Option.isSome_map, numbers]
    exact decodeMembers_isSome_iff [] members

theorem decodeItems_isSome_iff (ts : List Tree) :
    (decodeItems ts).isSome = true ↔ InRange (itemNumbers ts) := by
  match ts with
  | [] => simp [decodeItems, itemNumbers, InRange]
  | t :: ts =>
    rw [itemNumbers, inRange_append, ← decodeTree_isSome_iff t, ← decodeItems_isSome_iff ts,
      decodeItems]
    cases decodeTree t <;> cases decodeItems ts <;> simp

theorem decodeMembers_isSome_iff (stored : List (Bytes × Decoded)) (ms : List (Bytes × Tree)) :
    (decodeMembers stored ms).isSome = true ↔ InRange (memberNumbers ms) := by
  match ms with
  | [] => simp [decodeMembers, memberNumbers, InRange]
  | m :: ms =>
    rw [memberNumbers, inRange_append, ← decodeTree_isSome_iff m.2, decodeMembers]
    cases decodeTree m.2 with
    | none => simp
    | some value => simpa using decodeMembers_isSome_iff _ ms

end

theorem decodeTree_eq_null_iff {t : Tree} : decodeTree t = some .null ↔ t = Tree.null := by
  constructor
  · intro h
    match t with
    | .scalar text =>
      rw [decodeTree, decodeScalar] at h
      split_ifs at h with hnull
      · rw [hnull, Tree.null]
      · exact nomatch h
      · exact nomatch h
      · simp at h
    | .string raw => exact nomatch h
    | .array text items =>
      rw [decodeTree] at h
      simp at h
    | .object text members =>
      rw [decodeTree] at h
      simp at h
  · rintro rfl
    rfl

end Decode

/-! ### Every evaluation returns -/

section Returned

variable {types : Types} {heap : Heap} {encoder : Encoder} {limits : Limits} {value : Reflected}
  {provider : OpenFeatureProvider} {stop : Stop}

theorem mapStructured_returned (hmax : InInt limits.maxStructuredBytes)
    (h : mapStructured types heap encoder limits value = .error stop) : stop.Returned := by
  have hlevels : (limits.maxEvaluationDepth + 1 - 0).toNat < structuredLevels limits := by
    rw [Int.sub_zero]
    exact Nat.lt_succ_self _
  unfold mapStructured at h
  split at h
  · rename_i stop' b hwalk
    cases h
    exact (maintains_validate hmax (Int.le_refl 0) hlevels value .new
      ⟨Int.le_refl 0, Int.le_refl 0, by decide⟩).2 _ _ hwalk
  rename_i b haccepted
  split at h
  · cases h
    exact ⟨_, rfl⟩
  · rename_i stop' log hnot hmarshal
    cases h
    exact (outcome_marshal haccepted (Nat.le_succ _)).returned hmarshal
  · split_ifs at h
    cases h
    exact ⟨_, rfl⟩

theorem contextStep_returned (hmax : InInt provider.configuredLimits.maxStructuredBytes)
    {c : Context} {x : Bytes × Reflected}
    (h : provider.contextStep types heap encoder c x = .error stop) : stop.Returned := by
  unfold OpenFeatureProvider.contextStep at h
  split_ifs at h
  · cases h
    exact ⟨_, rfl⟩
  · split at h
    · exact nomatch h
    · cases h
      exact ⟨_, rfl⟩
  · split at h
    · exact nomatch h
    · cases h
      exact ⟨_, rfl⟩
  · split at h
    · cases h
      exact ⟨_, rfl⟩
    · rename_i stop' hnot hfact
      cases h
      unfold mapFactWithLimits at hfact
      split at hfact
      · rename_i result _
        cases result with
        | error e =>
          cases hfact
          exact ⟨e, rfl⟩
        | ok fact => exact nomatch hfact
      · exact mapStructured_returned hmax hfact
    · exact nomatch h

theorem exists_of_foldlM_error {σ α ε : Type} {f : σ → α → Except ε σ} {l : List α} {s : σ} {e : ε}
    (h : l.foldlM f s = .error e) : ∃ t a, f t a = .error e := by
  induction l generalizing s with
  | nil => exact nomatch h
  | cons a l ih =>
    rw [List.foldlM_cons] at h
    cases hf : f s a with
    | error e' =>
      rw [hf] at h
      cases h
      exact ⟨s, a, hf⟩
    | ok t =>
      rw [hf] at h
      exact ih h

/-- The adapter maps a context or returns an error, without an overflow. -/
theorem mapContext_returned (hmax : InInt provider.configuredLimits.maxStructuredBytes)
    {first second : MapOrder} {flat : FlattenedContext}
    (h : provider.mapContext types heap encoder first second flat = .error stop) :
    stop.Returned := by
  have hfold {c : Context} (h : (flat.range second).foldlM
      (provider.contextStep types heap encoder) c = .error stop) : stop.Returned := by
    obtain ⟨_, _, hstep⟩ := exists_of_foldlM_error h
    exact contextStep_returned hmax hstep
  unfold OpenFeatureProvider.mapContext at h
  cases hshape : OpenFeatureProvider.validateContextShape types first flat
      provider.configuredLimits with
  | error e =>
    rw [hshape] at h
    cases h
    exact ⟨e, rfl⟩
  | ok _ =>
    rw [hshape] at h
    cases htargeting : flat[targetingKey]? with
    | none =>
      rw [htargeting] at h
      exact hfold h
    | some value =>
      rw [htargeting] at h
      cases hstring : asString types value with
      | none =>
        simp only [hstring] at h
        cases h
        exact ⟨_, rfl⟩
      | some subject =>
        simp only [hstring] at h
        exact hfold h

end Returned

/-! ### Object flags -/

section Object

variable {κ : Type} [CustomStrategy κ] [Runtime]

/-- The document that `Snapshot.Structured` selects, if it comes to that and succeeds. -/
def selectedDocument (types : Types) (heap : Heap) (encoder : Encoder)
    (provider : OpenFeatureProvider) (first second third : MapOrder)
    (loaded : Except GoError (Snapshot κ)) (flag : Bytes) (flat : FlattenedContext) :
    Option Bytes :=
  match provider.mapContext types heap encoder first second flat, loaded with
  | .ok context, .ok snapshot =>
    match snapshot.evaluate third flag .structured context with
    | .ok result => some result.value.structuredBytes
    | .error _ => none
  | _, _ => none

/-- The detail has the decoded document and no error, or the default and an error, and it is not nil
without an error for another document than `null`. -/
structure NothingLost (document : Option Bytes) (defaultValue : Reflected) (d : ObjectDetail) :
    Prop where
  value : (∃ doc decoded, document = some doc ∧ decodeObject doc = some decoded ∧
      d.value = .decoded decoded ∧ d.detail.error = none) ∨
    d.value = .default defaultValue ∧ d.detail.error.isSome = true
  null : d.value = .decoded .null → d.detail.error = none →
    ∃ doc, document = some doc ∧ parse doc = some Tree.null

/-- The snapshot was built from definitions and groups, and bound to a tenant. -/
def Snapshot.Built (snapshot : Snapshot κ) : Prop :=
  ∃ ord definitions groups limits s tenant,
    newSnapshotWithGroups ord definitions groups limits = .ok s ∧ snapshot = s.bindTenant tenant

variable {types : Types} {heap : Heap} {encoder : Encoder} {provider : OpenFeatureProvider}
  {first second third : MapOrder} {loaded : Except GoError (Snapshot κ)} {flag : Bytes}
  {flat : FlattenedContext} {defaultValue : Reflected}

theorem nothingLost_error (e : GoError) :
    NothingLost none defaultValue ⟨.default defaultValue, errorDetail e⟩ :=
  ⟨.inr ⟨rfl, rfl⟩, fun h _ => nomatch h⟩

/-- An error, or the document with its decoding if there is one. -/
theorem objectEvaluation_cases
    (hκ : ∀ x : κ, (CustomStrategy.snapshotStrategy x).targetVariant =
      CustomStrategy.targetVariant x) (hmax : InInt provider.configuredLimits.maxStructuredBytes)
    (hloaded : ∀ snapshot, loaded = .ok snapshot → snapshot.Built) :
    (selectedDocument types heap encoder provider first second third loaded flag flat = none ∧
      ∃ e, provider.objectEvaluation types heap encoder first second third loaded flag defaultValue
        flat = .ok ⟨.default defaultValue, errorDetail e⟩) ∨
    ∃ doc tree detail,
      selectedDocument types heap encoder provider first second third loaded flag flat = some doc ∧
      parse doc = some tree ∧ detail.error = none ∧
      provider.objectEvaluation types heap encoder first second third loaded flag defaultValue
        flat = .ok ⟨.decoded ((decodeTree tree).getD .null), detail⟩ := by
  unfold selectedDocument OpenFeatureProvider.objectEvaluation
  cases hcontext : provider.mapContext types heap encoder first second flat with
  | error stop =>
    obtain ⟨e, rfl⟩ := mapContext_returned hmax hcontext
    exact .inl ⟨rfl, e, rfl⟩
  | ok context =>
    cases loaded with
    | error e => exact .inl ⟨rfl, e, rfl⟩
    | ok snapshot =>
      dsimp only
      cases hresult : snapshot.evaluate third flag .structured context with
      | error e => exact .inl ⟨rfl, e, rfl⟩
      | ok result =>
        obtain ⟨ord, definitions, groups, limits, s, tenant, haccepted, rfl⟩ := hloaded snapshot rfl
        obtain ⟨d, -, -, -, hvalid, htype⟩ := selected_of_evaluate hκ haccepted hresult
        cases hvalue : result.value with
        | structured doc =>
          rw [hvalue] at hvalid
          obtain ⟨tree, htree⟩ := Option.isSome_iff_exists.mp hvalid.2
          refine .inr ⟨doc, tree, mapDetail result.variant result.reason result.matchedStrategy
            result.version, by simp only [hvalue, Value.structuredBytes], htree, rfl, ?_⟩
          simp only [hvalue, Value.structuredBytes, decodeObject, htree, Option.bind_some]
        | _ =>
          rw [hvalue] at htype
          exact nomatch htype

/-- **Object evaluation loses no value silently**, if and only if every number of the document that
is selected is in the range of `float64`.  The error of `decodeObject` is dropped. -/
theorem object_evaluation_iff
    (hκ : ∀ x : κ, (CustomStrategy.snapshotStrategy x).targetVariant =
      CustomStrategy.targetVariant x)
    (hmax : InInt provider.configuredLimits.maxStructuredBytes)
    (hloaded : ∀ snapshot, loaded = .ok snapshot → snapshot.Built) :
    (∃ d, provider.objectEvaluation types heap encoder first second third loaded flag defaultValue
        flat = .ok d ∧ NothingLost (selectedDocument types heap encoder provider first second third
        loaded flag flat) defaultValue d) ↔
      ∀ doc tree,
        selectedDocument types heap encoder provider first second third loaded flag flat =
          some doc →
        parse doc = some tree → InRange (numbers tree) := by
  obtain ⟨hnone, e, hresult⟩ | ⟨doc, tree, detail, hdoc, htree, herror, hresult⟩ :=
    objectEvaluation_cases hκ hmax hloaded
  · rw [hnone]
    refine iff_of_true ⟨_, hresult, nothingLost_error e⟩ ?_
    intro doc tree hdoc
    exact nomatch hdoc
  · rw [hdoc]
    have hrange : (∀ doc' tree', some doc = some doc' → parse doc' = some tree' →
        InRange (numbers tree')) ↔ (decodeTree tree).isSome = true := by
      rw [decodeTree_isSome_iff]
      constructor
      · exact fun h => h doc tree rfl htree
      · rintro h _ tree' ⟨⟩ htree'
        rw [htree, Option.some.injEq] at htree'
        rw [← htree']
        exact h
    have hdecode : decodeObject doc = decodeTree tree := by
      rw [decodeObject, htree, Option.bind_some]
    rw [hrange]
    constructor
    · rintro ⟨d, hd, hkept⟩
      rw [hresult, Except.ok.injEq] at hd
      obtain ⟨doc', decoded, hdoc', hdecoded, -, -⟩ | ⟨hdefault, -⟩ := hkept.value
      · rw [← Option.some.inj hdoc', hdecode] at hdecoded
        rw [hdecoded]
        rfl
      · rw [← hd] at hdefault
        exact nomatch hdefault
    · intro hsome
      obtain ⟨decoded, hdecoded⟩ := Option.isSome_iff_exists.mp hsome
      rw [hdecoded, Option.getD_some] at hresult
      refine ⟨_, hresult, .inl ⟨doc, decoded, rfl, hdecode.trans hdecoded, rfl, herror⟩, ?_⟩
      intro hnull _
      rw [ObjectValue.decoded.injEq] at hnull
      rw [hnull, decodeTree_eq_null_iff] at hdecoded
      exact ⟨doc, rfl, hdecoded ▸ htree⟩

end Object

/-- A runtime that refuses one number, as `strconv.ParseFloat` does because it is out of range. -/
@[reducible] def rangedRuntime : Runtime :=
  { unaryRuntime with
    parseFloat := fun text =>
      if text = str "1e999" then none else unaryRuntime.parseFloat text
    parseFloat_formatFloat := fun f hnan hinf => by
      have hne : unaryRuntime.formatFloat f ≠ str "1e999" := by
        intro heq
        have hmem : (0x65 : UInt8) ∈ unaryRuntime.formatFloat f := by
          rw [heq]
          decide
        exact absurd (List.eq_of_mem_replicate hmem) (by decide)
      rw [if_neg hne]
      exact unaryRuntime.parseFloat_formatFloat f hnan hinf }

/-- A feature whose default is a document. -/
def documentFeature (doc : Bytes) : Definition Empty :=
  { onFor (str "f") [] with
    type := .structured
    default := .structured doc
    variants := ∅
    strategies := [] }

/-- A number outside the range of `float64` is a valid document and is decoded as nil without an
error. -/
theorem object_evaluation_loses_number :
    letI := rangedRuntime
    (Value.structured (str "1e999")).validate defaultLimits = .ok () ∧
      newSnapshotWithGroups .sorted [documentFeature (str "1e999")] [] defaultLimits =
        .ok (snapshotOf [documentFeature (str "1e999")] [] defaultLimits) ∧
      ∃ d, tenantProvider.objectEvaluation applicationTypes applicationHeap applicationEncoder
          .sorted .sorted .sorted
          (.ok ((snapshotOf [documentFeature (str "1e999")] [] defaultLimits).bindTenant (str "t")))
          (str "f") none ∅ = .ok d ∧
        d.value = .decoded .null ∧ d.detail.error = none ∧
        ¬ NothingLost (some (str "1e999")) none d := by
  let _ := rangedRuntime
  refine ⟨by decide +kernel, by decide +kernel, _, rfl, rfl, rfl, fun hkept => ?_⟩
  obtain ⟨doc, hdoc, hnull⟩ := hkept.null rfl rfl
  have hparse : parse (str "1e999") = some (.scalar (str "1e999")) := by rfl
  rw [← Option.some.inj hdoc, hparse, Tree.null, Option.some.injEq, Tree.scalar.injEq] at hnull
  exact absurd hnull (by decide)

/-- A document with a number in the range is returned. -/
theorem object_evaluation_document :
    letI := rangedRuntime
    (parse (str "[true,0]")).map numbers = some [str "0"] ∧
      InRange [str "0"] ∧
      ∃ d, tenantProvider.objectEvaluation applicationTypes applicationHeap applicationEncoder
          .sorted .sorted .sorted
          (.ok ((snapshotOf [documentFeature (str "[true,0]")] [] defaultLimits).bindTenant
            (str "t"))) (str "f") none ∅ = .ok d ∧
        NothingLost (some (str "[true,0]")) none d := by
  let _ := rangedRuntime
  have hbuilt : newSnapshotWithGroups .sorted [documentFeature (str "[true,0]")] []
      defaultLimits = .ok (snapshotOf [documentFeature (str "[true,0]")] [] defaultLimits) := by
    decide +kernel
  have hselected : selectedDocument applicationTypes applicationHeap applicationEncoder
      tenantProvider .sorted .sorted .sorted
      (.ok ((snapshotOf [documentFeature (str "[true,0]")] [] defaultLimits).bindTenant
        (str "t"))) (str "f") ∅ = some (str "[true,0]") := by
    rfl
  have hnumbers : (parse (str "[true,0]")).map numbers = some [str "0"] := by decide +kernel
  have hrange : InRange [str "0"] := by
    intro text htext
    rw [List.mem_singleton.mp htext]
    rfl
  refine ⟨hnumbers, hrange, ?_⟩
  rw [← hselected]
  refine (object_evaluation_iff (fun x => x.elim) (by decide) ?_).mpr ?_
  · rintro _ ⟨⟩
    exact ⟨.sorted, _, _, _, _, _, hbuilt, rfl⟩
  · intro doc tree hdoc htree
    rw [← Option.some.inj (hselected.symm.trans hdoc)] at htree
    rw [htree, Option.map_some, Option.some.injEq] at hnumbers
    rw [hnumbers]
    exact hrange

end FeatureFlags
