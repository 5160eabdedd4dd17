import FeatureFlags.Go.Codec
import FeatureFlags.Equiv.Json
import FeatureFlags.Equiv.Rfc3339

/-!
# What `encoding/json` reads back

`Codec.Lawful` says what becomes of a value that is written and read again.  `norm` is the value
that comes back: strings have their invalid bytes replaced, a `json.RawMessage` is compacted, nil
and empty collections are the same.  `Fits` is what the reader accepts: numbers in the range of
their type.  What is written is canonical, and it determines `norm`.

The laws of the single codecs come first, then those of slices, maps, pointers and structs, and
`Lawful.eq_norm_of_decodeDocument` for whole texts.
-/

namespace FeatureFlags.Go

open Json

/-- A loop over a list that succeeds, element by element. -/
theorem mapM_eq_some_iff {α β : Type} {f : α → Option β} {l : List α} {l' : List β} :
    l.mapM f = some l' ↔ List.Forall₂ (fun a b => f a = some b) l l' := by
  induction l generalizing l' with
  | nil =>
    rw [List.mapM_nil, Option.pure_def, Option.some.injEq, List.forall₂_nil_left_iff, eq_comm]
  | cons a l ih =>
    rw [List.mapM_cons, List.forall₂_cons_left_iff]
    simp only [Option.bind_eq_bind, Option.bind_eq_some_iff, ih, Option.pure_def, Option.some.injEq]
    constructor
    · rintro ⟨b, hb, l', hl', rfl⟩
      exact ⟨b, l', hb, hl', rfl⟩
    · rintro ⟨b, l', hb, hl', rfl⟩
      exact ⟨b, hb, l', hl', rfl⟩

namespace Codec

variable {α β : Type}

/-- What is written for a value, unless it is omitted, is canonical, is read back as `norm` of the
value exactly if the value fits, and determines `norm`.  What is omitted is the zero value. -/
structure Lawful (c : Codec α) (omitempty : Bool) (norm : α → α) (Fits : α → Prop) : Prop where
  canonical : ∀ {a t}, c.encode a = some t → Canonical t
  decode : ∀ {a t}, (omitempty && c.isEmpty a) = false → c.encode a = some t → Fits a →
    c.decode t c.zero = some (norm a)
  fits : ∀ {a t b}, (omitempty && c.isEmpty a) = false → c.encode a = some t →
    c.decode t c.zero = some b → Fits a
  agree : ∀ {a a' t}, (omitempty && c.isEmpty a) = false → (omitempty && c.isEmpty a') = false →
    c.encode a = some t → c.encode a' = some t → norm a = norm a'
  empty : ∀ {a}, (omitempty && c.isEmpty a) = true → Fits a ∧ norm a = c.zero

/-- A codec that is lawful in general is so for a field that is omitted if it is empty. -/
theorem Lawful.omitted {c : Codec α} {norm : α → α} {Fits : α → Prop}
    (h : c.Lawful false norm Fits) (hempty : ∀ a, c.isEmpty a = true → Fits a ∧ norm a = c.zero) :
    c.Lawful true norm Fits where
  canonical := h.canonical
  decode _ := h.decode (Bool.false_and _)
  fits _ := h.fits (Bool.false_and _)
  agree _ _ := h.agree (Bool.false_and _) (Bool.false_and _)
  empty ha := hempty _ (by simpa using ha)

/-- The law of a codec that reads back what it writes. -/
theorem lawful_of_decode {c : Codec α} {norm : α → α}
    (canonical : ∀ {a t}, c.encode a = some t → Canonical t)
    (decode : ∀ {a t}, c.encode a = some t → c.decode t c.zero = some (norm a)) :
    c.Lawful false norm fun _ => True where
  canonical := canonical
  decode _ ht _ := decode ht
  fits _ _ _ := trivial
  agree _ _ ht ht' := Option.some.inj ((decode ht).symm.trans (decode ht'))
  empty ha := by simp at ha

/-! ### Scalars -/

theorem lawful_string : Codec.string.Lawful false sanitize fun _ => True := by
  refine lawful_of_decode ?_ ?_
  · intro s t ht
    cases ht
    exact .string (rawText_escapeString s)
  · intro s t ht
    cases ht
    exact congrArg some (unquote_escapeString s)

theorem lawful_bool : Codec.bool.Lawful false id fun _ => True := by
  refine lawful_of_decode ?_ ?_
  · intro b t ht
    cases ht
    refine .scalar ?_
    cases b <;> rfl
  · intro b t ht
    cases ht
    cases b <;> rfl

theorem ne_null_of_isNumber {text : Bytes} (h : isNumber text = true) : text ≠ str "null" := by
  rintro rfl
  exact absurd h (by decide)

theorem lawful_number {zero : α} {isZero : α → Bool} {format : α → Option Bytes}
    {parse : Bytes → Option α}
    (hformat : ∀ x text, format x = some text → isNumber text = true ∧ parse text = some x) :
    (Codec.number zero isZero format parse).Lawful false id fun _ => True := by
  refine lawful_of_decode ?_ ?_
  · intro x t ht
    obtain ⟨text, htext, rfl⟩ := Option.map_eq_some_iff.mp ht
    refine .scalar ?_
    simp [isScalar, (hformat x text htext).1]
  · intro x t ht
    obtain ⟨text, htext, rfl⟩ := Option.map_eq_some_iff.mp ht
    obtain ⟨hnumber, hparse⟩ := hformat x text htext
    simp [Codec.number, if_neg (ne_null_of_isNumber hnumber), if_pos hnumber, hparse, id_eq]

theorem lawful_int (bound : Nat) :
    (Codec.int bound).Lawful false id fun n => -(bound : Int) ≤ n ∧ n < bound where
  canonical := by
    intro n t ht
    cases ht
    refine .scalar ?_
    simp [isScalar, isNumber_decimalInt n]
  decode := by
    intro n t _ ht hn
    cases ht
    simp [Codec.int, if_neg (ne_null_of_isNumber (isNumber_decimalInt n)),
      parseInt_decimalInt hn, id_eq]
  fits := by
    intro n t m _ ht hm
    cases ht
    simp only [Codec.int, if_neg (ne_null_of_isNumber (isNumber_decimalInt n)), parseInt,
      signedValue_decimalInt, Option.bind_some] at hm
    split_ifs at hm with hn
    exact hn
  agree := by
    intro n n' t _ _ ht ht'
    cases ht
    have heq : decimalInt n' = decimalInt n := by
      simpa [Codec.int] using ht'
    have hvalue := signedValue_decimalInt n'
    rw [heq, signedValue_decimalInt] at hvalue
    exact Option.some.inj hvalue
  empty ha := by simp at ha

theorem lawful_uint (bound : Nat) : (Codec.uint bound).Lawful false id fun n => n < bound where
  canonical := by
    intro n t ht
    cases ht
    refine .scalar ?_
    simp [isScalar, isNumber_decimal n]
  decode := by
    intro n t _ ht hn
    cases ht
    simp [Codec.uint, if_neg (ne_null_of_isNumber (isNumber_decimal n)),
      parseUint_decimal hn, id_eq]
  fits := by
    intro n t m _ ht hm
    cases ht
    simp only [Codec.uint, if_neg (ne_null_of_isNumber (isNumber_decimal n)), parseUint,
      digitsValue_decimal, Option.bind_some] at hm
    split_ifs at hm with hn
    exact hn
  agree := by
    intro n n' t _ _ ht ht'
    cases ht
    have heq : decimal n' = decimal n := by
      simpa [Codec.uint] using ht'
    have hvalue := digitsValue_decimal n'
    rw [heq, digitsValue_decimal] at hvalue
    exact Option.some.inj hvalue
  empty ha := by simp at ha

/-- A `json.RawMessage` as it comes back: compacted, and nil if it is empty. -/
def normRaw (raw : Bytes) : Bytes := (compact raw).getD []

variable {t : Tree}

theorem normRaw_of_parse {raw : Bytes} (h : parse raw = some t) :
    normRaw raw = (compactTree t).text := by
  simp [normRaw, compact, h]

theorem lawful_rawMessage : Codec.rawMessage.Lawful true normRaw fun _ => True := by
  have hencode {raw : Bytes} {t : Tree} (hne : (true && Codec.rawMessage.isEmpty raw) = false)
      (ht : Codec.rawMessage.encode raw = some t) :
      ∃ u, parse raw = some u ∧ compactTree u = t := by
    have hraw : raw ≠ [] := by
      rintro rfl
      simp [Codec.rawMessage] at hne
    simp only [Codec.rawMessage, if_neg hraw] at ht
    exact Option.map_eq_some_iff.mp ht
  have hdecode {raw : Bytes} {t : Tree} (hne : (true && Codec.rawMessage.isEmpty raw) = false)
      (ht : Codec.rawMessage.encode raw = some t) : t.text = normRaw raw := by
    obtain ⟨u, hu, rfl⟩ := hencode hne ht
    exact (normRaw_of_parse hu).symm
  refine ⟨?_, ?_, ?_, ?_, ?_⟩
  · intro raw t ht
    by_cases hraw : raw = []
    · subst hraw
      cases ht
      exact .scalar rfl
    · obtain ⟨u, hu, rfl⟩ := hencode (by simp [Codec.rawMessage, hraw]) ht
      exact canonical_compactTree (wellFormed_of_parse hu).1
  · intro raw t hne ht _
    exact congrArg some (hdecode hne ht)
  · intro raw t b _ _ _
    trivial
  · intro raw raw' t hne hne' ht ht'
    rw [← hdecode hne ht, hdecode hne' ht']
  · intro raw hempty
    obtain rfl : raw = [] := by simpa [Codec.rawMessage] using hempty
    exact ⟨trivial, rfl⟩

/-- A time as it comes back: the seconds of its offset are dropped. -/
def normTime (t : ZonedTime) : ZonedTime :=
  ⟨⟨t.time.nanos + (t.offset - t.offset.tdiv 60 * 60) * 1000000000⟩, t.offset.tdiv 60 * 60⟩

theorem rawText_padded (width n : Nat) : RawText (padded width n) :=
  .of_digits fun _ hc => isDigit_of_mem_padded hc

/-- A time is written with plain bytes. -/
theorem rawText_formatRFC3339Nano (t : ZonedTime) : RawText (formatRFC3339Nano t) := by
  have hcons {c : UInt8} {u : Bytes} (hu : RawText u)
      (hc : c ≠ 0x22 ∧ c ≠ 0x5C ∧ ¬ c < 0x20) : RawText (c :: u) :=
    .plain hc.1 hc.2.1 hc.2.2 hu
  have hyear : RawText (formatYear t.year) := by
    unfold formatYear
    split_ifs
    · exact hcons (rawText_padded _ _) (by decide)
    · exact rawText_padded _ _
  have hfraction : RawText (formatFraction t.nanosecond) := by
    unfold formatFraction
    split_ifs
    · exact .nil
    · refine hcons (.of_digits fun c hc => ?_) (by decide)
      rw [List.mem_reverse] at hc
      exact isDigit_of_mem_padded (List.mem_reverse.mp ((List.dropWhile_sublist _).mem hc))
  have hoffset : RawText (formatOffset t.offset) := by
    unfold formatOffset
    split_ifs
    · exact hcons .nil (by decide)
    · exact .append (hcons (rawText_padded _ _) (by decide))
        (hcons (rawText_padded _ _) (by decide))
    · exact .append (hcons (rawText_padded _ _) (by decide))
        (hcons (rawText_padded _ _) (by decide))
  have hpart (c : UInt8) (n : Nat) (hc : c ≠ 0x22 ∧ c ≠ 0x5C ∧ ¬ c < 0x20) :
      RawText (c :: padded 2 n) := hcons (rawText_padded 2 n) hc
  exact ((((((hyear.append (hpart _ _ (by decide))).append (hpart _ _ (by decide))).append
    (hpart _ _ (by decide))).append (hpart _ _ (by decide))).append (hpart _ _ (by decide))).append
      hfraction).append hoffset

theorem lawful_time : Codec.time.Lawful false normTime fun _ => True := by
  refine lawful_of_decode ?_ ?_
  · intro z t ht
    simp only [Codec.time] at ht
    split_ifs at ht
    cases ht
    exact .string (rawText_formatRFC3339Nano z)
  · intro z t ht
    simp only [Codec.time] at ht
    split_ifs at ht with hrange
    cases ht
    push Not at hrange
    exact parseRFC3339_format z hrange.1 hrange.2.1 hrange.2.2

/-! ### Pointers, slices and maps -/

variable {members : List (Bytes × Tree)}

section Collections

variable {c : Codec α} {norm : α → α} {Fits : α → Prop}

/-- A pointer to a value that is never written as `null`. -/
theorem Lawful.pointer (h : c.Lawful false norm Fits)
    (hnull : ∀ a t, c.encode a = some t → isNull t = false) :
    c.pointer.Lawful false (Option.map norm) fun p => ∀ a, p = some a → Fits a where
  canonical := by
    intro p t ht
    cases p with
    | none => cases ht; exact .scalar rfl
    | some a => exact h.canonical ht
  decode := by
    intro p t _ ht hp
    cases p with
    | none => cases ht; rfl
    | some a =>
      have hdecode := h.decode (Bool.false_and _) ht (hp a rfl)
      simp [Codec.pointer, hnull a t ht, Bool.false_eq_true, Option.getD_none,
        hdecode, Option.map_some]
  fits := by
    intro p t b _ ht hb a ha
    subst ha
    simp only [Codec.pointer, hnull a t ht, Bool.false_eq_true, if_false, Option.getD_none,
      Option.map_eq_some_iff] at hb
    obtain ⟨b', hb', -⟩ := hb
    exact h.fits (Bool.false_and _) ht hb'
  agree := by
    intro p p' t _ _ ht ht'
    cases p with
    | none =>
      cases p' with
      | none => rfl
      | some a' => cases ht; exact absurd (hnull a' _ ht') (by decide)
    | some a =>
      cases p' with
      | none => cases ht'; exact absurd (hnull a _ ht) (by decide)
      | some a' => exact congrArg some (h.agree (Bool.false_and _) (Bool.false_and _) ht ht')
  empty ha := by simp at ha

theorem Lawful.pointer_omitted (h : c.Lawful false norm Fits)
    (hnull : ∀ a t, c.encode a = some t → isNull t = false) :
    c.pointer.Lawful true (Option.map norm) fun p => ∀ a, p = some a → Fits a :=
  (h.pointer hnull).omitted fun p hp => by
    cases p with
    | none => exact ⟨nofun, rfl⟩
    | some a => cases hp

variable {items : List Tree}

theorem mkArray_injective {items' : List Tree} (h : mkArray items = mkArray items') :
    items = items' := by
  unfold mkArray at h
  injection h

theorem mkObject_injective {members'}
    (h : mkObject members = mkObject members') : members = members' := by
  unfold mkObject at h
  injection h

/-- A slice as it comes back. -/
def normSlice (norm : α → α) (s : Slice α) : Slice α := .ofList (s.toList.map norm)

section

variable {l : List α} (h : c.Lawful false norm Fits)
  (hl : List.Forall₂ (fun a t => c.encode a = some t) l items)
include h hl

theorem canonical_of_encoded : ∀ t ∈ items, Canonical t := by
  induction hl with
  | nil => exact nofun
  | cons ht _ ih => exact List.forall_mem_cons.mpr ⟨h.canonical ht, ih⟩

theorem decodeItems_encoded (hfits : ∀ a ∈ l, Fits a) :
    decodeItems c items [] = some (l.map norm) := by
  induction hl with
  | nil => rfl
  | cons ht _ ih =>
    obtain ⟨ha, hl⟩ := List.forall_mem_cons.mp hfits
    have hdecode := h.decode (Bool.false_and _) ht ha
    simp [decodeItems, hdecode, List.tail_nil, ih hl, Option.bind_eq_bind,
      Option.bind_some, Option.pure_def, List.map_cons]

theorem fits_of_decodeItems {l' : List α}
    (hdec : decodeItems c items [] = some l') : ∀ a ∈ l, Fits a := by
  induction hl generalizing l' with
  | nil => exact nofun
  | cons ht _ ih =>
    simp only [decodeItems, List.headD_nil, List.tail_nil, Option.bind_eq_bind,
      Option.bind_eq_some_iff] at hdec
    obtain ⟨b, hb, l'', hl'', -⟩ := hdec
    exact List.forall_mem_cons.mpr ⟨h.fits (Bool.false_and _) ht hb, ih hl''⟩

theorem map_norm_eq_of_encoded {l' : List α}
    (hl' : List.Forall₂ (fun a t => c.encode a = some t) l' items) : l.map norm = l'.map norm := by
  induction hl generalizing l' with
  | nil => cases hl'; rfl
  | cons ht _ ih =>
    cases hl' with
    | cons ht' hl' =>
      rw [List.map_cons, List.map_cons, h.agree (Bool.false_and _) (Bool.false_and _) ht ht',
        ih hl']

end

theorem encode_slice_eq_some_iff {s : Slice α} :
    c.slice.encode s = some t ↔
      (s.toList = [] ∧ t = .null) ∨ s.toList ≠ [] ∧ ∃ items,
        List.Forall₂ (fun a t => c.encode a = some t) s.toList items ∧ t = mkArray items := by
  simp only [Codec.slice]
  split_ifs with hs
  · simp [hs, eq_comm]
  · simp [hs, false_and, ne_eq, not_false_eq_true, true_and, false_or,
      Option.map_eq_some_iff, mapM_eq_some_iff, eq_comm (a := t)]

theorem decode_slice_array (h : items ≠ []) :
    c.slice.decode (mkArray items) c.slice.zero =
      (decodeItems c items []).map fun store => ⟨store, items.length⟩ := by
  cases items with
  | nil => exact absurd rfl h
  | cons t items => rfl

theorem Lawful.slice (h : c.Lawful false norm Fits) :
    c.slice.Lawful false (normSlice norm) fun s => ∀ a ∈ s.toList, Fits a where
  canonical := by
    intro s t ht
    rcases encode_slice_eq_some_iff.mp ht with ⟨-, rfl⟩ | ⟨-, items, hitems, rfl⟩
    · exact .scalar rfl
    · exact .array (canonical_of_encoded h hitems)
  decode := by
    intro s t _ ht hfits
    rcases encode_slice_eq_some_iff.mp ht with ⟨hs, rfl⟩ | ⟨hs, items, hitems, rfl⟩
    · simp only [normSlice, hs]
      rfl
    · rw [decode_slice_array (fun hnil => hs (by simpa [hnil] using hitems)),
        decodeItems_encoded h hitems hfits]
      simp [normSlice, Slice.ofList, hitems.length_eq]
  fits := by
    intro s t b _ ht hb
    rcases encode_slice_eq_some_iff.mp ht with ⟨hs, rfl⟩ | ⟨hs, items, hitems, rfl⟩
    · rw [hs]
      exact nofun
    · rw [decode_slice_array (fun hnil => hs (by simpa [hnil] using hitems)),
        Option.map_eq_some_iff] at hb
      obtain ⟨l', hl', -⟩ := hb
      exact fits_of_decodeItems h hitems hl'
  agree := by
    intro s s' t _ _ ht ht'
    rcases encode_slice_eq_some_iff.mp ht with ⟨hs, rfl⟩ | ⟨hs, items, hitems, rfl⟩
    · rcases encode_slice_eq_some_iff.mp ht' with ⟨hs', -⟩ | ⟨-, items', -, heq⟩
      · rw [normSlice, normSlice, hs, hs']
      · cases heq
    · rcases encode_slice_eq_some_iff.mp ht' with ⟨-, heq⟩ | ⟨-, items', hitems', heq⟩
      · cases heq
      · obtain rfl := mkArray_injective heq
        rw [normSlice, normSlice, map_norm_eq_of_encoded h hitems hitems']
  empty ha := by simp at ha

theorem Lawful.slice_omitted (h : c.Lawful false norm Fits) :
    c.slice.Lawful true (normSlice norm) fun s => ∀ a ∈ s.toList, Fits a :=
  h.slice.omitted fun s hs => by
    have hnil : s.toList = [] := List.isEmpty_iff.mp hs
    rw [normSlice, hnil]
    exact ⟨nofun, rfl⟩

/-- A map as it comes back: two keys with the same replacement become one. -/
def normMap (norm : α → α) (m : GoMap α) : GoMap α :=
  GoMap.index (fun x => sanitize x.1) (fun x => norm x.2) m.toList

theorem normMap_eq (norm : α → α) (m : GoMap α) :
    normMap norm m = (m.toList.map fun x => (sanitize x.1, norm x.2)).foldl
      (fun m x => m.insert x.1 x.2) ∅ := by
  rw [List.foldl_map]
  rfl

/-- The member that is written for an entry. -/
def Written (c : Codec α) (x : Bytes × α) (m : Bytes × Tree) : Prop :=
  m.1 = escapeString x.1 ∧ c.encode x.2 = some m.2

section

variable {l : List (Bytes × α)} (h : c.Lawful false norm Fits)
  (hl : List.Forall₂ (Written c) l members)
include h hl

theorem canonical_of_written : (∀ m ∈ members, RawText m.1) ∧ ∀ m ∈ members, Canonical m.2 := by
  induction hl with
  | nil => exact ⟨nofun, nofun⟩
  | cons hwritten _ ih =>
    rw [List.forall_mem_cons, List.forall_mem_cons, hwritten.1]
    exact ⟨⟨rawText_escapeString _, ih.1⟩, h.canonical hwritten.2, ih.2⟩

theorem decodeEntries_written (hfits : ∀ x ∈ l, Fits x.2) (m : GoMap α) :
    decodeEntries c members m =
      some (l.foldl (fun m x => m.insert (sanitize x.1) (norm x.2)) m) := by
  induction hl generalizing m with
  | nil => rfl
  | @cons x member l members hwritten _ ih =>
    obtain ⟨hx, hl⟩ := List.forall_mem_cons.mp hfits
    obtain ⟨name, t⟩ := member
    obtain ⟨hname, ht⟩ := hwritten
    dsimp only at hname ht
    rw [decodeEntries, h.decode (Bool.false_and _) ht hx, hname, unquote_escapeString]
    exact ih hl _

theorem fits_of_decodeEntries
    {m m' : GoMap α} (hdec : decodeEntries c members m = some m') : ∀ x ∈ l, Fits x.2 := by
  induction hl generalizing m with
  | nil => exact nofun
  | @cons x member l members hwritten _ ih =>
    obtain ⟨name, t⟩ := member
    simp only [decodeEntries, Option.bind_eq_bind, Option.bind_eq_some_iff] at hdec
    obtain ⟨b, hb, hrest⟩ := hdec
    exact List.forall_mem_cons.mpr ⟨h.fits (Bool.false_and _) hwritten.2 hb, ih hrest⟩

theorem map_norm_eq_of_written {l'} (hl' : List.Forall₂ (Written c) l' members) :
    l.map (fun x => (sanitize x.1, norm x.2)) = l'.map fun x => (sanitize x.1, norm x.2) := by
  induction hl generalizing l' with
  | nil => cases hl'; rfl
  | @cons x member l members hwritten _ ih =>
    cases hl' with
    | @cons x' _ l' _ hwritten' hl' =>
      have hkey : sanitize x.1 = sanitize x'.1 := by
        rw [← unquote_escapeString, ← hwritten.1, hwritten'.1, unquote_escapeString]
      rw [List.map_cons, List.map_cons, ih hl', hkey,
        h.agree (Bool.false_and _) (Bool.false_and _) hwritten.2 hwritten'.2]

end

theorem encode_map_eq_some_iff {m : GoMap α} :
    c.map.encode m = some t ↔
      (m.isEmpty = true ∧ t = .null) ∨ m.isEmpty = false ∧ ∃ members,
        List.Forall₂ (Written c) m.toList members ∧ t = mkObject members := by
  have hwritten (x : Bytes × α) (member : Bytes × Tree) :
      ((c.encode x.2).map fun t => (escapeString x.1, t)) = some member ↔ Written c x member := by
    obtain ⟨name, t⟩ := member
    simp only [Written, Option.map_eq_some_iff, Prod.mk.injEq]
    constructor
    · rintro ⟨t, ht, rfl, rfl⟩; exact ⟨rfl, ht⟩
    · rintro ⟨rfl, ht⟩; exact ⟨t, ht, rfl, rfl⟩
  simp only [Codec.map]
  split_ifs with hm
  · simp [hm, eq_comm]
  · simp [hm, Option.map_eq_some_iff, mapM_eq_some_iff, hwritten, eq_comm (a := t),
      Bool.false_eq_true, false_and, false_or, true_and]

theorem Lawful.map (h : c.Lawful false norm Fits) :
    c.map.Lawful false (normMap norm) fun m => ∀ x ∈ m.toList, Fits x.2 where
  canonical := by
    intro m t ht
    rcases encode_map_eq_some_iff.mp ht with ⟨-, rfl⟩ | ⟨-, members, hmembers, rfl⟩
    · exact .scalar rfl
    · obtain ⟨hnames, htrees⟩ := canonical_of_written h hmembers
      exact .object hnames htrees
  decode := by
    intro m t _ ht hfits
    rcases encode_map_eq_some_iff.mp ht with ⟨hm, rfl⟩ | ⟨hm, members, hmembers, rfl⟩
    · obtain rfl := Std.ExtTreeMap.isEmpty_iff.mp hm
      rfl
    · exact decodeEntries_written h hmembers hfits ∅
  fits := by
    intro m t b _ ht hb
    rcases encode_map_eq_some_iff.mp ht with ⟨hm, rfl⟩ | ⟨hm, members, hmembers, rfl⟩
    · obtain rfl := Std.ExtTreeMap.isEmpty_iff.mp hm
      exact nofun
    · exact fits_of_decodeEntries h hmembers hb
  agree := by
    intro m m' t _ _ ht ht'
    rcases encode_map_eq_some_iff.mp ht with ⟨hm, rfl⟩ | ⟨hm, members, hmembers, rfl⟩
    · rcases encode_map_eq_some_iff.mp ht' with ⟨hm', -⟩ | ⟨-, members', -, heq⟩
      · rw [Std.ExtTreeMap.isEmpty_iff.mp hm, Std.ExtTreeMap.isEmpty_iff.mp hm']
      · cases heq
    · rcases encode_map_eq_some_iff.mp ht' with ⟨-, heq⟩ | ⟨-, members', hmembers', heq⟩
      · cases heq
      · obtain rfl := mkObject_injective heq
        rw [normMap_eq, normMap_eq, map_norm_eq_of_written h hmembers hmembers']
  empty ha := by simp at ha

theorem Lawful.map_omitted (h : c.Lawful false norm Fits) :
    c.map.Lawful true (normMap norm) fun m => ∀ x ∈ m.toList, Fits x.2 :=
  h.map.omitted fun m hm => by
    obtain rfl := Std.ExtTreeMap.isEmpty_iff.mp hm
    exact ⟨nofun, rfl⟩

end Collections

/-! ### Structs -/

/-- The law of the fields of a struct. -/
structure Record.Lawful (r : Record α) (norm : α → α) (Fits : α → Prop) : Prop where
  raw : ∀ n ∈ r.names, RawText n
  names : ∀ {x members}, r.encode x = some members → ∀ m ∈ members, m.1 ∈ r.names
  canonical : ∀ {x members}, r.encode x = some members → ∀ m ∈ members, Canonical m.2
  decode : ∀ {x members}, r.encode x = some members → Fits x →
    r.decodeMembers members r.zero = some (norm x)
  fits : ∀ {x members y}, r.encode x = some members →
    r.decodeMembers members r.zero = some y → Fits x
  agree : ∀ {x x' members}, r.encode x = some members → r.encode x' = some members →
    norm x = norm x'

theorem Record.lawful_nil : Record.nil.Lawful id fun _ => True where
  raw n hn := nomatch hn
  names h := by cases h; exact nofun
  canonical h := by cases h; exact nofun
  decode h _ := by cases h; rfl
  fits _ _ := trivial
  agree _ _ := rfl

/-- The names of fields: they need no escapes, and no two of them are taken for each other. -/
def Record.Distinct (name : String) (names : List Bytes) : Prop :=
  isRaw (str name) = true ∧ unquote (str name) = str name ∧
    ∀ n ∈ names, foldName (unquote n) ≠ foldName (str name)

instance (name : String) (names : List Bytes) : Decidable (Record.Distinct name names) :=
  inferInstanceAs (Decidable (_ ∧ _ ∧ _))

section Cons

variable {name : String} {omitempty : Bool} {c : Codec α} {r : Record β}

/-- Members of other fields leave the first field alone. -/
theorem Record.decodeMembers_cons_of_ne
    (h : ∀ m ∈ members, foldName (unquote m.1) ≠ foldName (str name)) (a : α) (b : β) :
    (Record.cons name omitempty c r).decodeMembers members (a, b) =
      (r.decodeMembers members b).map fun b => (a, b) := by
  induction members generalizing b with
  | nil => rfl
  | cons m members ih =>
    obtain ⟨hm, hmembers⟩ := List.forall_mem_cons.mp h
    obtain ⟨n, t⟩ := m
    simp only [Record.decodeMembers, Record.cons, if_neg hm]
    cases r.decode (unquote n) t b with
    | none => rfl
    | some b' => exact ih hmembers b'

/-- What is written for a struct with one more field. -/
theorem Record.encode_cons_eq_some_iff {x : α × β} :
    (Record.cons name omitempty c r).encode x = some members ↔
      ∃ rest, r.encode x.2 = some rest ∧
        ((omitempty && c.isEmpty x.1) = true ∧ members = rest ∨
          (omitempty && c.isEmpty x.1) = false ∧ ∃ t, c.encode x.1 = some t ∧
            members = (str name, t) :: rest) := by
  simp only [Record.cons, Option.bind_eq_bind, Option.bind_eq_some_iff]
  refine exists_congr fun rest => and_congr_right fun _ => ?_
  split_ifs with hempty
  · simp [hempty, eq_comm]
  · simp [hempty, Option.bind_eq_some_iff, Option.pure_def, Option.some.injEq,
      eq_comm (a := members), Bool.false_eq_true, false_and, false_or, true_and]

variable {norm : α → α} {Fits : α → Prop} {norm' : β → β} {Fits' : β → Prop}

theorem Record.Lawful.cons (hc : c.Lawful omitempty norm Fits) (hr : r.Lawful norm' Fits')
    (hname : Record.Distinct name r.names) :
    (Record.cons name omitempty c r).Lawful (fun x => (norm x.1, norm' x.2))
      fun x => Fits x.1 ∧ Fits' x.2 := by
  obtain ⟨hraw, hunquote, hdistinct⟩ := hname
  have hrest {x : β} {rest : List (Bytes × Tree)} (h : r.encode x = some rest) (a : α) :
      (Record.cons name omitempty c r).decodeMembers rest (a, r.zero) =
        (r.decodeMembers rest r.zero).map fun b => (a, b) :=
    Record.decodeMembers_cons_of_ne (fun m hm => hdistinct m.1 (hr.names h m hm)) a r.zero
  -- the first field is read first, into the zero value
  have hfirst {t : Tree} {rest : List (Bytes × Tree)} :
      (Record.cons name omitempty c r).decodeMembers ((str name, t) :: rest)
          (Record.cons name omitempty c r).zero =
        (c.decode t c.zero).bind fun a =>
          (Record.cons name omitempty c r).decodeMembers rest (a, r.zero) := by
    simp only [Record.decodeMembers, Record.cons, hunquote, if_true, Option.bind_eq_bind,
      Option.bind_map]
    rfl
  refine ⟨?_, ?_, ?_, ?_, ?_, ?_⟩
  · exact List.forall_mem_cons.mpr ⟨rawText_of_isRaw hraw, hr.raw⟩
  · intro x members h
    obtain ⟨rest, hencode, ⟨-, rfl⟩ | ⟨-, t, -, rfl⟩⟩ := Record.encode_cons_eq_some_iff.mp h
    · exact fun m hm => List.mem_cons_of_mem _ (hr.names hencode m hm)
    · exact List.forall_mem_cons.mpr ⟨List.mem_cons_self,
        fun m hm => List.mem_cons_of_mem _ (hr.names hencode m hm)⟩
  · intro x members h
    obtain ⟨rest, hencode, ⟨-, rfl⟩ | ⟨-, t, ht, rfl⟩⟩ := Record.encode_cons_eq_some_iff.mp h
    · exact hr.canonical hencode
    · exact List.forall_mem_cons.mpr ⟨hc.canonical ht, hr.canonical hencode⟩
  · intro x members h hfits
    obtain ⟨rest, hencode, ⟨hempty, rfl⟩ | ⟨hempty, t, ht, rfl⟩⟩ :=
      Record.encode_cons_eq_some_iff.mp h
    · refine (hrest hencode c.zero).trans ?_
      rw [hr.decode hencode hfits.2, (hc.empty hempty).2]
      rfl
    · rw [hfirst, hc.decode hempty ht hfits.1, Option.bind_some, hrest hencode,
        hr.decode hencode hfits.2]
      rfl
  · intro x members y h hy
    obtain ⟨rest, hencode, ⟨hempty, rfl⟩ | ⟨hempty, t, ht, rfl⟩⟩ :=
      Record.encode_cons_eq_some_iff.mp h
    · obtain ⟨b, hb, -⟩ := Option.map_eq_some_iff.mp ((hrest hencode c.zero).symm.trans hy)
      exact ⟨(hc.empty hempty).1, hr.fits hencode hb⟩
    · rw [hfirst, Option.bind_eq_some_iff] at hy
      obtain ⟨a, ha, hy⟩ := hy
      rw [hrest hencode, Option.map_eq_some_iff] at hy
      obtain ⟨b, hb, -⟩ := hy
      exact ⟨hc.fits hempty ht ha, hr.fits hencode hb⟩
  · intro x x' members h h'
    -- a field that is written is told apart from the fields after it by its name
    have hne {x : β} {rest rest' : List (Bytes × Tree)} {t : Tree} (h : r.encode x = some rest)
        (heq : rest = (str name, t) :: rest') : False := by
      have hmem := hr.names h (str name, t) (heq ▸ List.mem_cons_self)
      refine hdistinct _ hmem ?_
      rw [hunquote]
    obtain ⟨rest, hencode, ⟨hempty, rfl⟩ | ⟨hempty, t, ht, rfl⟩⟩ :=
      Record.encode_cons_eq_some_iff.mp h
    · obtain ⟨rest', hencode', ⟨hempty', heq⟩ | ⟨-, t', -, heq⟩⟩ :=
        Record.encode_cons_eq_some_iff.mp h'
      · subst heq
        rw [(hc.empty hempty).2, (hc.empty hempty').2, hr.agree hencode hencode']
      · exact (hne hencode heq).elim
    · obtain ⟨rest', hencode', ⟨-, heq⟩ | ⟨hempty', t', ht', heq⟩⟩ :=
        Record.encode_cons_eq_some_iff.mp h'
      · exact (hne hencode' heq.symm).elim
      · cases heq
        rw [hc.agree hempty hempty' ht ht', hr.agree hencode hencode']

theorem Record.Lawful.struct (h : r.Lawful norm' Fits') :
    (Codec.struct r).Lawful false norm' Fits' where
  canonical := by
    intro x t ht
    obtain ⟨members, hmembers, rfl⟩ := Option.map_eq_some_iff.mp ht
    exact .object (fun m hm => h.raw m.1 (h.names hmembers m hm)) (h.canonical hmembers)
  decode := by
    intro x t _ ht hfits
    obtain ⟨members, hmembers, rfl⟩ := Option.map_eq_some_iff.mp ht
    exact h.decode hmembers hfits
  fits := by
    intro x t y _ ht hy
    obtain ⟨members, hmembers, rfl⟩ := Option.map_eq_some_iff.mp ht
    exact h.fits hmembers hy
  agree := by
    intro x x' t _ _ ht ht'
    obtain ⟨members, hmembers, rfl⟩ := Option.map_eq_some_iff.mp ht
    obtain ⟨members', hmembers', heq⟩ := Option.map_eq_some_iff.mp ht'
    obtain rfl := mkObject_injective heq
    exact h.agree hmembers hmembers'
  empty ha := by simp at ha

theorem isNull_struct {x : β} (h : (Codec.struct r).encode x = some t) : isNull t = false := by
  obtain ⟨members, -, rfl⟩ := Option.map_eq_some_iff.mp h
  rfl

/-- The same law for a type under another name. -/
theorem Lawful.iso (hc : c.Lawful false norm Fits) {unpack : β → α} {pack : α → β}
    (hpack : ∀ a, unpack (pack a) = a) :
    (c.iso unpack pack).Lawful false (fun b => pack (norm (unpack b)))
      fun b => Fits (unpack b) where
  canonical ht := hc.canonical ht
  decode := by
    intro b t _ ht hfits
    simp [Codec.iso, hpack, hc.decode (Bool.false_and _) ht hfits, Option.map_some]
  fits := by
    intro b t b' _ ht hb'
    simp only [Codec.iso, hpack, Option.map_eq_some_iff] at hb'
    obtain ⟨a, ha, -⟩ := hb'
    exact hc.fits (Bool.false_and _) ht ha
  agree _ _ ht ht' := congrArg pack (hc.agree (Bool.false_and _) (Bool.false_and _) ht ht')
  empty ha := by simp at ha

end Cons

/-! ### Documents -/

section Documents

variable {c : Codec α} {norm : α → α} {Fits : α → Prop}

theorem encode_of_marshal {a : α} {data : Bytes} (h : c.marshal a = some data) :
    ∃ t, c.encode a = some t ∧ t.text = data := by
  obtain ⟨t, ht, htext⟩ := Option.bind_eq_some_iff.mp h
  split_ifs at htext
  exact ⟨t, ht, Option.some.inj htext⟩

theorem decodeDocument_text (h : Canonical t) :
    c.decodeDocument t.text =
      if maxNestingDepth < t.depth then .invalid
      else
        match c.decode t c.zero with
        | none => .invalid
        | some a => .value a := by
  obtain ⟨⟨b, s, htext, hb⟩, hparse⟩ := parses_of_canonical h
  have hskip : skipSpace t.text = t.text := by rw [htext, skipSpace_of_leads hb]
  have hvalue := hparse (2 * t.text.length + 1) [] stops_nil (by omega)
  rw [List.append_nil] at hvalue
  rw [decodeDocument, hskip, hvalue]
  rfl

/-- **A written document is read back**: if it is read at all, as `norm` of what was written. -/
theorem Lawful.eq_norm_of_decodeDocument (h : c.Lawful false norm Fits) {a b : α} {data : Bytes}
    (hmarshal : c.marshal a = some data) (hdecode : c.decodeDocument data = .value b) :
    Fits a ∧ b = norm a := by
  obtain ⟨t, ht, rfl⟩ := encode_of_marshal hmarshal
  rw [decodeDocument_text (h.canonical ht)] at hdecode
  split_ifs at hdecode
  cases hdec : c.decode t c.zero with
  | none => rw [hdec] at hdecode; cases hdecode
  | some b' =>
    rw [hdec] at hdecode
    cases hdecode
    have hfits := h.fits (Bool.false_and _) ht hdec
    rw [h.decode (Bool.false_and _) ht hfits] at hdec
    exact ⟨hfits, (Option.some.inj hdec).symm⟩

end Documents

/-! ### Values that are written alike -/

/-- Two values that are written alike, also as a field that is omitted if it is empty. -/
structure Alike (c : Codec α) (a a' : α) : Prop where
  encode : c.encode a' = c.encode a
  isEmpty : c.isEmpty a' = c.isEmpty a

section Alike

variable {c : Codec α}

theorem Alike.refl (a : α) : c.Alike a a := ⟨rfl, rfl⟩

/-- The empty text is no JSON value. -/
theorem ne_nil_of_parse {raw : Bytes} (h : parse raw = some t) : raw ≠ [] := by
  rintro rfl
  have hnone : parse [] = none := by decide
  rw [hnone] at h
  cases h

theorem normRaw_ne_nil {raw : Bytes} (h : parse raw = some t) : normRaw raw ≠ [] := by
  rw [normRaw_of_parse h]
  exact ne_nil_of_parse (parse_compactTree h).1

/-- A compacted `json.RawMessage` is written as it is. -/
theorem alike_normRaw {raw : Bytes} (h : parse raw = some t) :
    rawMessage.Alike raw (normRaw raw) := by
  obtain ⟨hparse, hcompact⟩ := parse_compactTree h
  rw [← normRaw_of_parse h] at hparse
  refine ⟨?_, ?_⟩
  · simp [rawMessage, if_neg (ne_nil_of_parse h), if_neg (normRaw_ne_nil h), h, hparse,
      Option.map_some, hcompact]
  · simp [rawMessage, List.isEmpty_eq_false_iff.mpr (ne_nil_of_parse h),
      List.isEmpty_eq_false_iff.mpr (normRaw_ne_nil h)]

theorem mapM_alike {l l' : List α} (h : List.Forall₂ c.Alike l l') :
    l'.mapM c.encode = l.mapM c.encode := by
  induction h with
  | nil => rfl
  | cons ha _ ih => rw [List.mapM_cons, List.mapM_cons, ha.encode, ih]

theorem Alike.slice {s s' : Slice α} (h : List.Forall₂ c.Alike s.toList s'.toList) :
    c.slice.Alike s s' := by
  have hnil : s'.toList = [] ↔ s.toList = [] := by
    rw [← List.length_eq_zero_iff, ← List.length_eq_zero_iff, h.length_eq]
  refine ⟨?_, ?_⟩
  · simp [Codec.slice, hnil, mapM_alike h]
  · rw [Bool.eq_iff_iff]
    simp [Codec.slice, List.isEmpty_iff, hnil]

theorem Alike.map {γ : Type} {m : GoMap γ} {f g : γ → α}
    (h : ∀ (k : Bytes) (x : γ), m[k]? = some x → c.Alike (f x) (g x)) :
    c.map.Alike (m.map fun _ => f) (m.map fun _ => g) := by
  have hempty (f : γ → α) : (m.map fun _ => f).isEmpty = m.isEmpty := by
    rw [← Std.ExtTreeMap.isEmpty_toList, Std.ExtTreeMap.toList_map, List.isEmpty_map,
      Std.ExtTreeMap.isEmpty_toList]
  have hmembers : (m.map fun _ => g).toList.mapM
        (fun x => (c.encode x.2).map fun t => (escapeString x.1, t)) =
      (m.map fun _ => f).toList.mapM
        fun x => (c.encode x.2).map fun t => (escapeString x.1, t) := by
    have hentry (x : Bytes × γ) (hx : x ∈ m.toList) : c.encode (g x.2) = c.encode (f x.2) :=
      (h x.1 x.2 (GoMap.mem_toList.mp hx)).encode
    rw [Std.ExtTreeMap.toList_map, Std.ExtTreeMap.toList_map]
    generalize m.toList = l at hentry
    induction l with
    | nil => rfl
    | cons x l ih =>
      obtain ⟨hx, hl⟩ := List.forall_mem_cons.mp hentry
      rw [List.map_cons, List.map_cons, List.mapM_cons, List.mapM_cons, ih hl, hx]
  refine ⟨?_, ?_⟩
  · simp only [Codec.map, hempty, hmembers]
  · simp [Codec.map, hempty]

theorem Alike.pointer {a a' : α} (h : c.Alike a a') : c.pointer.Alike (some a) (some a') :=
  ⟨h.encode, rfl⟩

/-- Two values of the fields of a struct that are written alike. -/
def Record.Alike (r : Record β) (x x' : β) : Prop := r.encode x' = r.encode x

theorem Record.Alike.cons {r : Record β} {name : String} {omitempty : Bool} {x x' : α × β}
    (h : c.Alike x.1 x'.1) (hr : r.Alike x.2 x'.2) :
    (Record.cons name omitempty c r).Alike x x' := by
  have hrest : r.encode x'.2 = r.encode x.2 := hr
  simp [Record.Alike, Record.cons, h.encode, h.isEmpty, hrest]

theorem Record.Alike.rest {r : Record β} {name : String} {omitempty : Bool} {a : α} {x x' : β}
    (hr : r.Alike x x') : (Record.cons name omitempty c r).Alike (a, x) (a, x') :=
  .cons (.refl a) hr

theorem Record.Alike.refl {r : Record β} (x : β) : r.Alike x x := rfl

theorem Alike.struct {γ : Type} {r : Record β} {unpack : γ → β} {pack : β → γ} {a a' : γ}
    (h : r.Alike (unpack a) (unpack a')) : ((Codec.struct r).iso unpack pack).Alike a a' :=
  ⟨congrArg (Option.map mkObject) h, rfl⟩

end Alike

end Codec

end FeatureFlags.Go
