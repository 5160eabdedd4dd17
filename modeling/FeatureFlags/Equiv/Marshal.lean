import FeatureFlags.Equiv.Preflight
import FeatureFlags.Equiv.Json

/-!
# The encoder after the walk

`json.Marshal` encodes a value that `validateStructuredValue` has accepted.

* `len_base64`, `len_decimal_le`, `len_numberText_le`: what the encoder writes for one value is not
  longer than what the walk charged.
* `readable_encode`: the encoder writes a canonical text that is not nested too deeply.
* `places`: the values inside a value, each with the number of arrays and objects around it.
* `scan`: the first thing that matters to the encoder, in the order in which it visits the values:
  a `json.Number` that is no number or an array or object that is nested too deeply, where it stops,
  or a slice of bytes whose elements have a method.
* `outcome_encode`: what the encoder does with an accepted value depends on `scan` only.
* `custom_encoders_not_run_iff`: exactly when no method of the application is called.
* `preflight_bounds_encoding`: the encoding is not longer than what the walk has charged.
-/

namespace FeatureFlags

open Go Json Lib

/-! ### Lengths -/

theorem len_string (raw : Bytes) : len (Tree.string raw).text = len raw + 2 := by
  rw [Tree.text, List.cons_append, len_cons, len_append, len_cons, len_nil]
  omega

theorem len_joinComma (texts : List Bytes) :
    len (joinComma texts) = (texts.map len).sum + commas texts.length := by
  induction texts with
  | nil => rfl
  | cons a rest ih =>
    cases rest with
    | nil => simp [joinComma, commas]
    | cons b rest =>
      rw [joinComma, len_append, len_cons, ih]
      simp only [List.map_cons, List.sum_cons, commas, List.length_cons]
      omega

theorem len_mkArray (items : List Tree) :
    len (mkArray items).text =
      2 + (items.map fun t => len t.text).sum + commas items.length := by
  rw [mkArray, Tree.text, List.cons_append, len_cons, len_append, len_joinComma, List.map_map,
    List.length_map, len_cons, len_nil]
  simp only [Function.comp_def]
  omega

theorem len_memberText (m : Bytes × Tree) : len (memberText m) = len m.1 + 3 + len m.2.text := by
  rw [memberText, List.cons_append, len_cons, len_append, len_cons, len_cons]
  omega

theorem len_mkObject (members : List (Bytes × Tree)) :
    len (mkObject members).text =
      2 + (members.map fun m => len m.1 + 3 + len m.2.text).sum + commas members.length := by
  rw [mkObject, Tree.text, List.cons_append, len_cons, len_append, len_joinComma, List.map_map,
    List.length_map, len_cons, len_nil]
  simp only [Function.comp_def, len_memberText]
  omega

theorem len_base64 (s : Bytes) :
    len (base64 s) = (s.length / 3 : Nat) * 4 + if s.length % 3 = 0 then 0 else 4 := by
  fun_induction base64 s with
  | case1 => rfl
  | case2 => simp [len]
  | case3 => simp [len]
  | case4 a b c rest ih =>
    have hdiv : (a :: b :: c :: rest).length / 3 = rest.length / 3 + 1 := by
      simp only [List.length_cons]
      omega
    have hmod : (a :: b :: c :: rest).length % 3 = rest.length % 3 := by
      simp only [List.length_cons]
      omega
    rw [hdiv, hmod, len_cons, len_cons, len_cons, len_cons, ih]
    omega

theorem length_decimalAux_le (f : Nat) :
    ∀ {n k : Nat}, n < 10 ^ (k + 1) → (decimalAux f n).length ≤ k + 1 := by
  induction f with
  | zero => intro n k h; exact Nat.zero_le _
  | succ f ih =>
    intro n k h
    rw [decimalAux]
    split_ifs with hn
    · simp
    · cases k with
      | zero => omega
      | succ k =>
        rw [List.length_append, List.length_singleton]
        have hlt : n / 10 < 10 ^ (k + 1) := by
          rw [pow_succ] at h
          omega
        exact Nat.succ_le_succ (ih hlt)

theorem len_decimal_le {n k : Nat} (h : n < 10 ^ (k + 1)) : len (decimal n) ≤ (k + 1 : Nat) :=
  Int.ofNat_le.mpr (length_decimalAux_le (n + 1) h)

theorem len_decimalInt_le (n : Int64) : len (decimalInt n.toInt) ≤ 20 := by
  have hle := n.le_toInt
  have hlt := n.toInt_lt
  have habs : n.toInt.natAbs < 10 ^ (18 + 1) := by omega
  have hdigits := len_decimal_le habs
  unfold decimalInt
  split_ifs
  · rw [len_cons]
    omega
  · omega

theorem length_le_escapeChunk {r : Bytes} (h : IsRune r) :
    r.length ≤ (escapeChunk (.rune r)).length := by
  match r with
  | [c] => exact List.length_pos_of_ne_nil (escapeChunk_ne_nil h)
  | [] => exact Nat.zero_le _
  | a :: b :: rest =>
    rw [escapeChunk]
    · split_ifs with h₁ h₂
      · rw [h₁]; decide
      · rw [h₂]; decide
      · exact Nat.le_refl _
    · rintro c ⟨⟩

theorem length_le_escapeString (s : Bytes) : s.length ≤ (escapeString s).length := by
  induction s using chunks_induction with
  | nil => exact Nat.le_refl 0
  | bad a rest hc ih =>
    rw [escapeString, hc, List.flatMap_cons, List.length_append, List.length_cons, ← escapeString]
    have hpos : 0 < (escapeChunk (.bad a)).length := Nat.zero_lt_succ 2
    omega
  | rune r rest hr ih =>
    rw [escapeString, chunks_append hr, List.flatMap_cons, List.length_append, List.length_append,
      ← escapeString]
    exact Nat.add_le_add (length_le_escapeChunk hr) ih

theorem len_numberText_le (s : Bytes) : len (numberText s) ≤ quotedLength s := by
  rw [quotedLength, len_string]
  have hle := length_le_escapeString s
  unfold numberText len
  split_ifs with hs
  · rw [show (str "0").length = 1 from rfl]
    omega
  · omega

/-! ### Texts -/

theorem isScalar_of_isNumber {text : Bytes} (h : isNumber text = true) : isScalar text = true := by
  simp [isScalar, h]

theorem base64Digit_mem (n : Nat) : base64Digit n ∈ base64Alphabet ++ [0x3D] := by
  rw [base64Digit, List.getD_eq_getElem?_getD]
  cases h : base64Alphabet[n]? with
  | none => exact List.mem_append_right _ List.mem_cons_self
  | some c => exact List.mem_append_left _ (List.mem_of_getElem? h)

theorem mem_base64 {s : Bytes} {c : UInt8} (h : c ∈ base64 s) : c ∈ base64Alphabet ++ [0x3D] := by
  have hpad : (0x3D : UInt8) ∈ base64Alphabet ++ [0x3D] := by decide
  fun_induction base64 s with
  | case1 => exact nomatch h
  | case2 a =>
    simp only [List.mem_cons, List.not_mem_nil, or_false] at h
    rcases h with rfl | rfl | rfl | rfl
    all_goals first | exact base64Digit_mem _ | exact hpad
  | case3 a b =>
    simp only [List.mem_cons, List.not_mem_nil, or_false] at h
    rcases h with rfl | rfl | rfl | rfl
    all_goals first | exact base64Digit_mem _ | exact hpad
  | case4 a b c rest ih =>
    simp only [List.mem_cons] at h
    rcases h with rfl | rfl | rfl | rfl | h
    all_goals first | exact base64Digit_mem _ | exact ih h

theorem rawText_base64 (s : Bytes) : RawText (base64 s) := by
  have hplain : (base64Alphabet ++ [0x3D]).all
      (fun c => c != 0x22 && c != 0x5C && !(c < 0x20)) = true := by
    decide +kernel
  refine RawText.of_forall fun c hc => ?_
  have hc := List.all_eq_true.mp hplain c (mem_base64 hc)
  simpa [and_assoc] using hc

variable {f : Datum → Encoding Tree}

variable {below : Nat → Bool → Nat → Datum → Encoding Tree} {entries : List (Bytes × Datum)}

section Texts

variable {types : Types} {heap : Heap} {encoder : Encoder}

/-- The text of the tree is canonical and can be read inside so many arrays and objects. -/
def Readable (depth : Nat) (t : Tree) : Prop := Canonical t ∧ depth + t.depth ≤ maxNestingDepth

variable {depth : Nat}

theorem itemsDepth_le {items : List Tree} {n : Nat} (h : ∀ t ∈ items, t.depth ≤ n) :
    itemsDepth items ≤ n := by
  induction items with
  | nil => exact Nat.zero_le n
  | cons t items ih =>
    rw [List.forall_mem_cons] at h
    exact max_le h.1 (ih h.2)

theorem membersDepth_le {members : List (Bytes × Tree)} {n : Nat}
    (h : ∀ m ∈ members, m.2.depth ≤ n) : membersDepth members ≤ n := by
  induction members with
  | nil => exact Nat.zero_le n
  | cons m members ih =>
    rw [List.forall_mem_cons] at h
    exact max_le h.1 (ih h.2)

theorem returns_nested {P : Tree → Prop} {write : Encoding Tree}
    (h : depth < maxNestingDepth → Returns P write) : Returns P (nested depth write) := by
  unfold nested
  split_ifs with hdepth
  · exact h hdepth
  · exact returns_throw _

section

variable (hdepth : depth ≤ maxNestingDepth)
include hdepth

theorem readable_scalar {text : Bytes} (h : isScalar text = true) :
    Returns (Readable depth) (pure (.scalar text) : Encoding Tree) :=
  returns_pure ⟨.scalar h, hdepth⟩

theorem readable_string {raw : Bytes} (h : RawText raw) :
    Returns (Readable depth) (pure (.string raw) : Encoding Tree) :=
  returns_pure ⟨.string h, hdepth⟩

theorem readable_callMethod (method : Method) (type : Nat) (value : Datum) :
    Returns (Readable depth) (callMethod encoder depth method type value) := by
  intro log tree log' h
  unfold callMethod at h
  rw [EStateM.run_bind, EStateM.run_modify] at h
  cases hcall : encoder.call method type value with
  | error e =>
    rw [hcall] at h
    exact nomatch h
  | ok text =>
    rw [hcall] at h
    cases method with
    | marshalText => exact readable_string hdepth (rawText_escapeString text) _ _ _ h
    | marshalJSON =>
      dsimp only at h
      cases hparse : parse text with
      | none =>
        rw [hparse] at h
        exact nomatch h
      | some parsed =>
        rw [hparse] at h
        obtain ⟨hwf, -⟩ := wellFormed_of_parse hparse
        dsimp only at h
        split_ifs at h with hnesting
        · rw [← depth_compactTree hwf] at hnesting
          exact returns_pure ⟨canonical_compactTree hwf, hnesting⟩ _ _ _ h
        · exact returns_throw _ _ _ _ h

end

theorem readable_items {items : List Datum}
    (h : depth < maxNestingDepth → ∀ item, Returns (Readable (depth + 1)) (f item)) :
    Returns (Readable depth) (nested depth do let trees ← items.mapM f; return mkArray trees) := by
  refine returns_nested fun hdepth => ?_
  refine (returns_mapM fun item _ => h hdepth item).bind fun trees htrees => returns_pure ?_
  have hitems : itemsDepth trees ≤ maxNestingDepth - (depth + 1) :=
    itemsDepth_le fun t ht => Nat.le_sub_of_add_le' (htrees t ht).2
  refine ⟨.array fun t ht => (htrees t ht).1, ?_⟩
  rw [mkArray, Tree.depth]
  omega

theorem readable_entries
    (h : depth < maxNestingDepth → ∀ item, Returns (Readable (depth + 1)) (f item)) :
    Returns (Readable depth) (nested depth do
      let members ← entries.mapM fun x => do
        let tree ← f x.2
        return (escapeString x.1, tree)
      return mkObject members) := by
  refine returns_nested fun hdepth => ?_
  have hentry (x : Bytes × Datum) : Returns (fun m => RawText m.1 ∧ Readable (depth + 1) m.2)
      (do let tree ← f x.2; return (escapeString x.1, tree)) :=
    (h hdepth x.2).bind fun tree htree => returns_pure ⟨rawText_escapeString x.1, htree⟩
  refine (returns_mapM fun x _ => hentry x).bind fun members hmembers => returns_pure ?_
  have hinside : membersDepth members ≤ maxNestingDepth - (depth + 1) :=
    membersDepth_le fun m hm => Nat.le_sub_of_add_le' (hmembers m hm).2.2
  refine ⟨.object (fun m hm => (hmembers m hm).1) fun m hm => (hmembers m hm).2.1, ?_⟩
  rw [mkObject, Tree.depth]
  omega

theorem readable_content (addressable : Bool) (type : Nat) (content : Datum)
    (hdepth : depth ≤ maxNestingDepth)
    (hbelow : ∀ depth addressable type item, depth ≤ maxNestingDepth →
      Returns (Readable depth) (below depth addressable type item)) :
    Returns (Readable depth)
      (encodeContent types heap encoder below depth addressable type content) := by
  have hnull : Returns (Readable depth) (pure Tree.null : Encoding Tree) :=
    readable_scalar hdepth (by decide)
  have hunsupported : Returns (Readable depth) unsupported := returns_throw _
  have hnumber {text : Bytes} (h : isNumber text = true) :
      Returns (Readable depth) (pure (.scalar text) : Encoding Tree) :=
    readable_scalar hdepth (isScalar_of_isNumber h)
  unfold encodeContent
  dsimp only
  split
  · rename_i value _
    refine readable_scalar hdepth ?_
    cases value <;> decide
  · rename_i text _
    split_ifs with hname hvalid
    · exact hnumber hvalid
    · exact returns_throw _
    · exact readable_string hdepth (rawText_escapeString text)
  · exact hnull
  · exact hbelow _ _ _ _ hdepth
  · exact hnull
  · split
    · exact readable_entries fun hroom item => hbelow _ _ _ item hroom
    · exact hunsupported
  · exact hnull
  · split
    · split
      · exact readable_items fun hroom => readable_callMethod hroom _ _
      · exact readable_string hdepth (rawText_base64 _)
    · exact readable_items fun hroom item => hbelow _ _ _ item hroom
  · exact readable_items fun hroom item => hbelow _ _ _ item hroom
  · split
    · exact hnumber (isNumber_decimalInt _)
    · exact hunsupported
  · split
    · exact hnumber (isNumber_decimal _)
    · exact hunsupported
  · split
    · rename_i hfinite
      exact hnumber (encoder.isNumber_formatFloat _ _ hfinite.2.1 hfinite.2.2)
    · exact hunsupported
  · exact hunsupported

theorem readable_encode (levels : Nat) (hdepth : depth ≤ maxNestingDepth) (addressable : Bool)
    (value : Reflected) :
    Returns (Readable depth) (encode types heap encoder levels depth addressable value) := by
  induction levels generalizing depth addressable value with
  | zero => exact returns_throw _
  | succ levels ih =>
    have hnull : Returns (Readable depth) (pure Tree.null : Encoding Tree) :=
      readable_scalar hdepth (by decide)
    cases value with
    | none => exact hnull
    | some x =>
      obtain ⟨type, content⟩ := x
      rw [encode]
      split
      · exact hnull
      · dsimp only
        split
        · exact readable_callMethod hdepth _ _ _
        · exact readable_content _ _ _ hdepth fun depth addressable type item hdepth =>
            ih hdepth addressable _

end Texts

/-! ### Outcomes -/

/-- What the encoder meets first. -/
inductive Scan where
  /-- Nothing. -/
  | clean
  /-- Something at which it stops. -/
  | stops
  /-- A method of the application. -/
  | calls
deriving DecidableEq

/-- What is met first in two parts. -/
def Scan.andThen : Scan → Scan → Scan
  | .clean, later => later
  | first, _ => first

/-- How the encoder ends when it meets this, from a log, and what is then known of its result. -/
inductive Ended {α : Type} (good : α → Prop) (log : List MethodCall) :
    Scan → EStateM.Result Stop (List MethodCall) α → Prop
  | ok {a : α} (h : good a) : Ended good log .clean (.ok a log)
  | stopped {e : GoError} : Ended good log .stops (.error (.error e) log)
  | called {a : α} {extra : List MethodCall} (h : extra ≠ []) :
      Ended good log .calls (.ok a (log ++ extra))
  | failed {e : GoError} {extra : List MethodCall} (h : extra ≠ []) :
      Ended good log .calls (.error (.error e) (log ++ extra))

/-- What the encoder does when it meets this. -/
def Outcome {α : Type} (found : Scan) (good : α → Prop) (x : Encoding α) : Prop :=
  ∀ log, Ended good log found (x.run log)

section Outcome

variable {α β ι : Type} {found found' : Scan} {good : α → Prop} {x : Encoding α}

theorem outcome_pure {a : α} (h : good a) : Outcome .clean good (pure a) := fun _ => .ok h

theorem Outcome.returned (h : Outcome found good x) {log log' : List MethodCall} {stop : Stop}
    (hrun : x.run log = .error stop log') : stop.Returned := by
  have hended := h log
  rw [hrun] at hended
  cases hended <;> exact ⟨_, rfl⟩

theorem Ended.after_call {log extra : List MethodCall} {good' : α → Prop} {r}
    (h : Ended good (log ++ extra) found r) (hne : extra ≠ []) : Ended good' log .calls r := by
  have hmore (more : List MethodCall) : extra ++ more ≠ [] := by simp [hne]
  cases h with
  | ok h => exact .called hne
  | stopped => exact .failed hne
  | called h =>
    rw [List.append_assoc]
    exact .called (hmore _)
  | failed h =>
    rw [List.append_assoc]
    exact .failed (hmore _)

theorem Outcome.bind {good' : α → β → Prop} {good'' : β → Prop} {f : α → Encoding β}
    (hx : Outcome found good x) (hf : ∀ a, Outcome found' (good' a) (f a))
    (h : ∀ a b, good a → good' a b → good'' b) :
    Outcome (found.andThen found') good'' (x >>= f) := by
  intro log
  have hx := hx log
  rw [EStateM.run_bind]
  generalize x.run log = r at hx
  cases hx with
  | @ok a hgood =>
    have hfa := hf a log
    dsimp only [Scan.andThen]
    generalize (f a).run log = r at hfa
    cases hfa with
    | ok hgood' => exact .ok (h _ _ hgood hgood')
    | stopped => exact .stopped
    | called hne => exact .called hne
    | failed hne => exact .failed hne
  | stopped => exact .stopped
  | @called a _ hne => exact (hf a _).after_call hne
  | failed hne => exact .failed hne

theorem Scan.andThen_clean (found : Scan) : found.andThen .clean = found := by
  cases found <;> rfl

theorem Outcome.map {good' : β → Prop} {g : α → β} (hx : Outcome found good x)
    (h : ∀ a, good a → good' (g a)) : Outcome found good' (do let a ← x; return g a) := by
  rw [← found.andThen_clean]
  exact hx.bind (fun a => outcome_pure (rfl : g a = g a)) fun a b hgood hb => hb ▸ h a hgood

/-- A list of values, one after the other. -/
theorem outcome_mapM {f : ι → Encoding α} {found : ι → Scan} {good : ι → α → Prop}
    {items : List ι} (h : ∀ i ∈ items, Outcome (found i) (good i) (f i)) :
    Outcome (items.foldr (fun i later => (found i).andThen later) .clean)
      (List.Forall₂ good items) (items.mapM f) := by
  induction items with
  | nil =>
    rw [List.mapM_nil]
    exact outcome_pure .nil
  | cons i items ih =>
    obtain ⟨hi, hitems⟩ := List.forall_mem_cons.mp h
    rw [List.mapM_cons]
    have hrest (a : α) : Outcome (items.foldr (fun i later => (found i).andThen later) .clean)
        (fun all => good i a → List.Forall₂ good (i :: items) all)
        (do let rest ← items.mapM f; return a :: rest) :=
      (ih hitems).map fun rest hrest ha => .cons ha hrest
    exact hi.bind hrest fun a all ha hall => hall ha

end Outcome

/-! ### Values -/

section Values

variable (types : Types) (heap : Heap)

/-- The value is a `json.Number` that is no number. -/
def invalidNumber : Reflected → Bool
  | some (type, .string text) => (types type).name = .number && !isNumber (numberText text)
  | _ => false

/-- The value is a slice of bytes with elements that are encoded by a method. -/
def marshalsBytes : Reflected → Bool
  | some (type, .slice _ length) =>
    (types (types type).elem).kind = .uint8 && types.pointerMarshals (types type).elem &&
      length ≠ 0
  | _ => false

/-- An array or an object is written for the value. -/
def opens : Reflected → Bool
  | some (_, .map _) | some (_, .array _) => true
  | some (type, .slice _ _) =>
    (types (types type).elem).kind ≠ .uint8 || types.pointerMarshals (types type).elem
  | _ => false

/-- The number of arrays and objects around the values inside a value. -/
def depthInside (depth : Nat) (value : Reflected) : Nat :=
  if opens types value then depth + 1 else depth

/-- The value and the values inside it, each with the number of arrays and objects around it. -/
def places : Nat → Nat → Reflected → List (Nat × Reflected)
  | 0, _, _ => []
  | levels + 1, depth, value =>
    (depth, unwrapped types value) :: (contents types heap (unwrapped types value)).flatMap
      (places levels (depthInside types depth (unwrapped types value)))

/-- The encoder stops at the value: a `json.Number` that is no number, or an array or object that is
nested too deeply. -/
def stopsAt (x : Nat × Reflected) : Bool :=
  invalidNumber types x.2 || opens types x.2 && maxNestingDepth ≤ x.1

/-- What the encoder meets first among the values. -/
def scan : List (Nat × Reflected) → Scan
  | [] => .clean
  | x :: rest =>
    if stopsAt types x then .stops
    else if marshalsBytes types x.2 then .calls
    else scan rest

variable {types heap} {levels levels' depth : Nat} {value : Reflected}

/-- The places are those of the values that the walk visits. -/
theorem map_places (depth : Nat) :
    (places types heap levels depth value).map Prod.snd = positions types heap levels value := by
  induction levels generalizing depth value with
  | zero => rfl
  | succ levels ih =>
    rw [places, positions, List.map_cons, List.map_flatMap]
    exact congrArg _ (List.flatMap_congr fun y _ => ih _)

/-- More levels show nothing more. -/
theorem Fits.places_eq (h : Fits types heap levels value) (hle : levels ≤ levels') :
    places types heap levels' depth value = places types heap levels depth value := by
  induction levels generalizing levels' depth value with
  | zero => exact h.elim
  | succ levels ih =>
    obtain ⟨k, rfl⟩ := Nat.exists_eq_add_of_le' hle
    rw [← Nat.add_assoc, places, places]
    congr 1
    exact List.flatMap_congr fun y hy => ih (h y hy) (Nat.le_add_left levels k)

theorem scan_append (l l' : List (Nat × Reflected)) :
    scan types (l ++ l') = (scan types l).andThen (scan types l') := by
  induction l with
  | nil => rfl
  | cons x rest ih =>
    rw [List.cons_append, scan, scan, ih]
    split_ifs <;> rfl

theorem scan_flatMap {ι : Type} (items : List ι) (f : ι → List (Nat × Reflected)) :
    scan types (items.flatMap f) =
      items.foldr (fun i later => (scan types (f i)).andThen later) .clean := by
  induction items with
  | nil => rfl
  | cons i items ih => rw [List.flatMap_cons, scan_append, ih, List.foldr_cons]

/-- The encoder calls a method when it meets one before it stops. -/
theorem scan_eq_calls_iff {l : List (Nat × Reflected)} :
    scan types l = .calls ↔
      ∃ x ∈ l.takeWhile (fun x => !stopsAt types x), marshalsBytes types x.2 = true := by
  induction l with
  | nil => simp [scan]
  | cons x rest ih =>
    rw [scan]
    split_ifs with hstops hbytes
    · simp [hstops]
    · simp [hstops, hbytes]
    · simp [hstops, hbytes, ih]

/-- A type without custom encoders has no method for the encoder. -/
theorem method_eq_none {addressable : Bool} {type : Nat} {content : Datum}
    (h : implementsCustomEncoding types type = false) :
    types.method addressable type content = none := by
  simp only [implementsCustomEncoding, Bool.or_eq_false_iff, Bool.and_eq_false_imp,
    decide_eq_true_eq] at h
  obtain ⟨⟨hjson, htext⟩, hpointer⟩ := h
  unfold Types.method
  by_cases hkind : (types type).kind = .pointer
  · simp [hjson, htext, hkind]
  · obtain ⟨hpointerJson, hpointerText⟩ := hpointer hkind
    simp [hjson, htext, hpointerJson, hpointerText]

end Values

/-! ### What the encoder does -/

/-- Finite floats are written in at most 32 bytes. -/
def Encoder.ShortFloats (encoder : Encoder) : Prop :=
  ∀ kind f, f.isNaN = false → f.isInf = false → len (encoder.formatFloat kind f) ≤ 32

/-- What the walk charges for the values at the places. -/
def placesCharge (types : Types) (heap : Heap) (l : List (Nat × Reflected)) : Int :=
  totalCharge types heap (l.map Prod.snd)

/-- The text is not longer than what was charged. -/
def Within (encoder : Encoder) (charge : Int) (tree : Tree) : Prop :=
  encoder.ShortFloats → len tree.text ≤ charge

section Encode

variable {types : Types} {heap : Heap} {encoder : Encoder} {depth : Nat}

theorem placesCharge_append (l l' : List (Nat × Reflected)) :
    placesCharge types heap (l ++ l') = placesCharge types heap l + placesCharge types heap l' := by
  rw [placesCharge, List.map_append, totalCharge_append]
  rfl

/-- The elements of an array or a slice. -/
theorem outcome_items {items : List Datum} (inside : Datum → List (Nat × Reflected))
    (h : ∀ item ∈ items, Outcome (scan types (inside item))
      (Within encoder (placesCharge types heap (inside item))) (f item)) :
    Outcome (scan types (items.flatMap inside))
      (Within encoder (2 + commas items.length + placesCharge types heap (items.flatMap inside)))
      (do let trees ← items.mapM f; return mkArray trees) := by
  rw [scan_flatMap]
  refine (outcome_mapM h).map fun trees htrees hshort => ?_
  have hsum : (trees.map fun t => len t.text).sum ≤
      placesCharge types heap (items.flatMap inside) := by
    clear h
    induction htrees with
    | nil => exact Int.le_refl 0
    | cons hhead _ ih =>
      rw [List.map_cons, List.sum_cons, List.flatMap_cons, placesCharge_append]
      exact Int.add_le_add (hhead hshort) ih
  rw [len_mkArray, htrees.length_eq]
  omega

theorem outcome_entries (inside : Datum → List (Nat × Reflected))
    (h : ∀ x ∈ entries, Outcome (scan types (inside x.2))
      (Within encoder (placesCharge types heap (inside x.2))) (f x.2)) :
    Outcome (scan types (entries.flatMap fun x => inside x.2))
      (Within encoder (2 + (entries.map fun x => quotedLength x.1 + 2).sum +
        placesCharge types heap (entries.flatMap fun x => inside x.2)))
      (do
        let members ← entries.mapM fun x => do
          let tree ← f x.2
          return (escapeString x.1, tree)
        return mkObject members) := by
  rw [scan_flatMap]
  have hentry (x : Bytes × Datum) (hx : x ∈ entries) : Outcome (scan types (inside x.2))
      (fun m => m.1 = escapeString x.1 ∧ Within encoder (placesCharge types heap (inside x.2)) m.2)
      (do let tree ← f x.2; return (escapeString x.1, tree)) :=
    (h x hx).map fun tree htree => ⟨rfl, htree⟩
  refine (outcome_mapM hentry).map fun members hmembers hshort => ?_
  have hsum : (members.map fun m => len m.1 + 3 + len m.2.text).sum + members.length ≤
      (entries.map fun x => quotedLength x.1 + 2).sum +
        placesCharge types heap (entries.flatMap fun x => inside x.2) := by
    clear h hentry
    induction hmembers with
    | nil => exact Int.le_refl 0
    | cons hhead _ ih =>
      obtain ⟨hname, htree⟩ := hhead
      have htree := htree hshort
      simp only [List.map_cons, List.sum_cons, List.flatMap_cons, placesCharge_append,
        List.length_cons, quotedLength, len_string, hname] at ih ⊢
      omega
  rw [len_mkObject, commas]
  omega

variable {value : Reflected}

theorem scan_cons_of_clean {rest : List (Nat × Reflected)} (hopens : opens types value = false)
    (hnumber : invalidNumber types value = false) (hbytes : marshalsBytes types value = false) :
    scan types ((depth, value) :: rest) = scan types rest := by
  simp [scan, stopsAt, hopens, hnumber, hbytes]

/-- An array or an object that is not nested too deeply is written. -/
theorem outcome_nested {rest : List (Nat × Reflected)} {good : Tree → Prop}
    {write : Encoding Tree} (hopens : opens types value = true)
    (hnumber : invalidNumber types value = false)
    (h : Outcome (if marshalsBytes types value then .calls else scan types rest) good write) :
    Outcome (scan types ((depth, value) :: rest)) good (nested depth write) := by
  rw [scan, nested]
  by_cases hdepth : depth < maxNestingDepth
  · rw [if_pos hdepth, if_neg (by simp [stopsAt, hnumber, hdepth])]
    exact h
  · rw [if_neg hdepth, if_pos (by simp [stopsAt, hopens, not_lt.mp hdepth])]
    exact fun log => .stopped

variable {inside : Reflected → List (Nat × Reflected)}

variable (types heap encoder inside depth value) in
/-- A value is encoded: the encoder ends as the scan of its places says, and writes no more than
they are charged for. -/
abbrev Encodes (write : Encoding Tree) : Prop :=
  Outcome (scan types ((depth, value) :: (contents types heap value).flatMap inside))
    (Within encoder (ownCharge types heap value +
      placesCharge types heap ((contents types heap value).flatMap inside))) write

/-- A value with nothing inside. -/
theorem outcome_leaf {tree : Tree} (hcontents : contents types heap value = [])
    (hopens : opens types value = false) (hnumber : invalidNumber types value = false)
    (hbytes : marshalsBytes types value = false)
    (h : Within encoder (ownCharge types heap value) tree) :
    Encodes types heap encoder depth value inside (pure tree) := by
  rw [Encodes, hcontents, scan_cons_of_clean hopens hnumber hbytes]
  refine outcome_pure fun hshort => ?_
  have htotal : placesCharge types heap ([].flatMap inside) = 0 := rfl
  rw [htotal, Int.add_zero]
  exact h hshort

theorem outcome_callMethod {good : Tree → Prop} (method : Method) (type : Nat) (value : Datum) :
    Outcome .calls good (callMethod encoder depth method type value) := by
  intro log
  have hne : [(⟨method, type, value⟩ : MethodCall)] ≠ [] := List.cons_ne_nil _ _
  unfold callMethod
  rw [EStateM.run_bind, EStateM.run_modify]
  cases encoder.call method type value with
  | error e => exact .failed hne
  | ok text =>
    cases method with
    | marshalText => exact .called hne
    | marshalJSON =>
      dsimp only
      cases parse text with
      | none => exact .failed hne
      | some tree =>
        dsimp only
        split_ifs
        · exact .called hne
        · exact .failed hne

section Content

variable {below : Nat → Bool → Nat → Datum → Encoding Tree} {addressable : Bool} {type : Nat}

theorem encodeContent_int {value : Int64} (kind : (types type).kind.isInt = true) :
    encodeContent types heap encoder below depth addressable type (.int value) =
      pure (.scalar (decimalInt value.toInt)) := by
  unfold encodeContent
  dsimp only
  split <;> simp_all

theorem encodeContent_uint {value : UInt64} (kind : (types type).kind.isUint = true) :
    encodeContent types heap encoder below depth addressable type (.uint value) =
      pure (.scalar (decimal value.toNat)) := by
  unfold encodeContent
  dsimp only
  split <;> simp_all

theorem encodeContent_float {value : Float64} (kind : (types type).kind.isFloat = true)
    (finite : value.isNaN = false ∧ value.isInf = false) :
    encodeContent types heap encoder below depth addressable type (.float value) =
      pure (.scalar (encoder.formatFloat (types type).kind value)) := by
  unfold encodeContent
  dsimp only
  split <;> simp_all

/-- A slice of bytes is written as a text, or each byte by its method. -/
theorem outcome_bytes {address length : Nat} (kind : (types type).kind = .slice)
    (elem : (types (types type).elem).kind = .uint8) :
    Encodes types heap encoder depth (some (type, .slice address length)) inside
      (encodeContent types heap encoder below depth addressable type (.slice address length)) := by
  unfold encodeContent
  dsimp only
  rw [kind]
  dsimp only
  have hcontents : contents types heap (some (type, .slice address length)) = [] := if_pos elem
  rw [if_pos elem]
  by_cases hmethod : types.pointerMarshals (types type).elem = true
  · rw [if_pos hmethod]
    refine outcome_nested (by simp [opens, hmethod]) rfl ?_
    cases length with
    | zero =>
      have hitems : heap.items type address 0 = [] := rfl
      rw [hitems, hcontents, if_neg (by simp [marshalsBytes]), List.mapM_nil]
      refine outcome_pure fun _ => ?_
      rw [ownCharge, if_pos elem]
      exact Int.le_refl 2
    | succ length =>
      have hbytes : marshalsBytes types (some (type, .slice address (length + 1))) = true := by
        simp [marshalsBytes, elem, hmethod]
      rw [if_pos hbytes, Heap.items, List.range_succ_eq_map, List.map_cons]
      have hcalls (method : Method) (elem : Nat) (item : Datum) (rest : List Datum) :
          Outcome .calls (List.Forall₂ (fun _ _ => False) (item :: rest))
            ((item :: rest).mapM (callMethod encoder (depth + 1) method elem)) :=
        outcome_mapM fun item _ => outcome_callMethod method elem item
      refine (hcalls _ _ _ _).map fun trees htrees => ?_
      cases htrees with
      | cons hfalse _ => exact hfalse.elim
  · rw [if_neg hmethod]
    refine outcome_leaf hcontents (by simp [opens, elem, hmethod]) rfl
      (by simp [marshalsBytes, hmethod]) fun _ => ?_
    rw [len_string, len_base64, ownCharge, if_pos elem, List.length_map, Heap.items,
      List.length_map, List.length_range]
    omega

/-- The branches of the encoder, for the values inside a value. -/
theorem outcome_content {content : Datum} (hshape : Shape types type content)
    (hbelow : ∀ addressable item,
      some ((types type).elem, item) ∈ contents types heap (some (type, content)) →
      Outcome (scan types (inside (some ((types type).elem, item))))
        (Within encoder (placesCharge types heap (inside (some ((types type).elem, item)))))
        (below (depthInside types depth (some (type, content))) addressable (types type).elem
          item)) :
    Encodes types heap encoder depth (some (type, content)) inside
      (encodeContent types heap encoder below depth addressable type content) := by
  unfold Encodes encodeContent
  dsimp only
  cases hshape with
  | nilPointer kind | nilMap kind | nilSlice kind =>
    rw [kind]
    exact outcome_leaf rfl rfl rfl rfl fun _ => Int.le_refl 4
  | pointer kind =>
    rw [kind, scan_cons_of_clean rfl rfl rfl]
    have hinside := hbelow true _ (List.mem_singleton.mpr rfl)
    simpa [contents, ownCharge, depthInside, opens] using hinside
  | @map address kind key =>
    rw [kind]
    dsimp only
    have hcharge : ownCharge types heap (some (type, .map address)) =
        2 + ((sortedEntries (heap.entries address)).map fun x => quotedLength x.1 + 2).sum := by
      rw [ownCharge, sortedEntries, ((List.perm_insertionSort _ _).map _).sum_eq]
    rw [if_pos key, hcharge, contents, List.flatMap_map]
    refine outcome_nested rfl rfl ?_
    exact outcome_entries (fun item => inside (some ((types type).elem, item))) fun x hx =>
      hbelow false x.2 (List.mem_map.mpr ⟨x, hx, rfl⟩)
  | bytes kind elem => exact outcome_bytes kind elem
  | @slice address length kind elem =>
    rw [kind]
    dsimp only
    have hbytes : marshalsBytes types (some (type, .slice address length)) = false := by
      simp [marshalsBytes, elem]
    have hcontents : contents types heap (some (type, .slice address length)) =
        (heap.items type address length).map fun item => some ((types type).elem, item) :=
      if_neg elem
    have hopens : opens types (some (type, .slice address length)) = true := by
      simp [opens, elem]
    rw [hcontents, depthInside, if_pos hopens] at hbelow
    have hcharge : ownCharge types heap (some (type, .slice address length)) =
        2 + commas (heap.items type address length).length := by
      rw [ownCharge, if_neg elem, Heap.items, List.length_map, List.length_range]
    rw [if_neg elem, hcontents, hcharge, List.flatMap_map]
    refine outcome_nested hopens rfl ?_
    rw [if_neg (by simp [hbytes])]
    exact outcome_items (fun item => inside (some ((types type).elem, item))) fun item hitem =>
      hbelow true item (List.mem_map.mpr ⟨item, hitem, rfl⟩)
  | @array items kind =>
    rw [kind]
    dsimp only
    rw [contents, List.flatMap_map]
    refine outcome_nested rfl rfl ?_
    exact outcome_items (fun item => inside (some ((types type).elem, item))) fun item hitem =>
      hbelow addressable item (List.mem_map.mpr ⟨item, hitem, rfl⟩)
  | @string text kind =>
    rw [kind]
    dsimp only
    split_ifs with hname hnumber
    · exact outcome_leaf rfl rfl (by simp [invalidNumber, hname, hnumber]) rfl fun _ =>
        len_numberText_le text
    · have hinvalid : invalidNumber types (some (type, .string text)) = true := by
        simp [invalidNumber, hname, hnumber]
      rw [scan, if_pos (by simp [stopsAt, hinvalid])]
      exact fun log => .stopped
    · exact outcome_leaf rfl rfl (by simp [invalidNumber, hname]) rfl fun _ => Int.le_refl _
  | @bool value kind =>
    rw [kind]
    refine outcome_leaf rfl rfl rfl rfl fun _ => ?_
    rw [ownCharge]
    cases value <;> decide
  | @int value kind =>
    change Outcome _ _ (encodeContent types heap encoder below depth addressable type (.int value))
    rw [encodeContent_int kind]
    exact outcome_leaf rfl rfl rfl rfl fun _ => len_decimalInt_le value
  | @uint value kind =>
    change Outcome _ _ (encodeContent types heap encoder below depth addressable type (.uint value))
    rw [encodeContent_uint kind]
    have hlt : value.toNat < 10 ^ (19 + 1) := lt_trans value.toNat_lt (by decide)
    exact outcome_leaf rfl rfl rfl rfl fun _ => len_decimal_le hlt
  | @float value kind finite =>
    change Outcome _ _
      (encodeContent types heap encoder below depth addressable type (.float value))
    rw [encodeContent_float kind finite]
    exact outcome_leaf rfl rfl rfl rfl fun hshort => hshort _ _ finite.1 finite.2

end Content

/-- What the encoder does with a value of which everything inside is supported. -/
theorem outcome_encode {levels : Nat} (hfits : Fits types heap levels value)
    (hsupported : ∀ x ∈ positions types heap levels value, Supported types x) (addressable : Bool) :
    Outcome (scan types (places types heap levels depth value))
      (Within encoder (placesCharge types heap (places types heap levels depth value)))
      (encode types heap encoder levels depth addressable value) := by
  induction levels generalizing depth addressable value with
  | zero => exact hfits.elim
  | succ levels ih =>
    rw [positions] at hsupported
    obtain ⟨hvalue, hinside⟩ := List.forall_mem_cons.mp hsupported
    have hbelow (y : Reflected) (hy : y ∈ contents types heap (unwrapped types value))
        (depth : Nat) (addressable : Bool) :
        Outcome (scan types (places types heap levels depth y))
          (Within encoder (placesCharge types heap (places types heap levels depth y)))
          (encode types heap encoder levels depth addressable y) :=
      ih (hfits y hy) (fun x hx => hinside x (List.mem_flatMap.mpr ⟨y, hy, hx⟩)) addressable
    have hcharge (x : Nat × Reflected) (rest : List (Nat × Reflected)) :
        placesCharge types heap (x :: rest) =
          ownCharge types heap x.2 + placesCharge types heap rest := List.sum_cons
    rw [places, hcharge]
    cases value with
    | none => exact outcome_leaf rfl rfl rfl rfl fun _ => Int.le_refl 4
    | some x =>
      obtain ⟨type, content⟩ := x
      rw [encode]
      have hdynamic : unwrap types type content = unwrapped types (some (type, content)) := rfl
      rw [hdynamic]
      cases hunwrap : unwrapped types (some (type, content)) with
      | none => exact outcome_leaf rfl rfl rfl rfl fun _ => Int.le_refl 4
      | some x =>
        obtain ⟨dynamic, content⟩ := x
        obtain ⟨hcustom, hshape⟩ := hvalue dynamic content hunwrap
        rw [hunwrap] at hbelow
        dsimp only
        rw [method_eq_none hcustom]
        exact outcome_content hshape fun addressable item hitem => hbelow _ hitem _ addressable

end Encode

/-! ### Results -/

section Results

variable (types : Types) (heap : Heap) (encoder : Encoder) (limits : Limits)

/-- The methods of the application that were called. -/
def methodsCalled {α : Type} (x : Encoding α) : List MethodCall :=
  match x.run [] with
  | .ok _ log => log
  | .error _ log => log

/-- The values in a value that the walk takes. -/
def acceptedPositions (value : Reflected) : List Reflected :=
  positions types heap (limits.maxEvaluationDepth + 1).toNat value

/-- These values, each with the number of arrays and objects around it. -/
def acceptedPlaces (value : Reflected) : List (Nat × Reflected) :=
  places types heap (limits.maxEvaluationDepth + 1).toNat 0 value

variable {types heap encoder limits} {value : Reflected} {b : StructuredBudget} {levels : Nat}

section

variable (h : (validateStructuredInput limits types heap value).run .new = .ok () b)
include h

theorem took_of_accepted :
    Took types heap limits (limits.maxEvaluationDepth + 1).toNat [value] 0 .new b := by
  have htook := took_of_validate h
  rwa [Int.sub_zero] at htook

theorem outcome_marshal (hlevels : (limits.maxEvaluationDepth + 1).toNat ≤ levels) :
    Outcome (scan types (acceptedPlaces types heap limits value))
      (fun text => encoder.ShortFloats → len text ≤ b.bytes)
      (marshal types heap encoder levels value) := by
  have htook := took_of_accepted h
  have hfits := htook.fits value List.mem_cons_self
  have hsupported := htook.supported
  have hbytes := htook.bytes
  rw [List.flatMap_singleton] at hsupported hbytes
  have hplaces : places types heap levels 0 value = acceptedPlaces types heap limits value :=
    hfits.places_eq hlevels
  have hpositions : positions types heap levels value =
      positions types heap (limits.maxEvaluationDepth + 1).toNat value := by
    rw [← map_places 0, hplaces]
    exact map_places 0
  rw [← hpositions] at hsupported hbytes
  rw [← hplaces]
  refine (outcome_encode (hfits.mono hlevels) hsupported false).map fun tree htree hshort => ?_
  have hle := htree hshort
  rw [placesCharge, map_places] at hle
  rw [hbytes]
  simp only [StructuredBudget.new]
  omega

end

theorem methodsCalled_eq_nil_iff {α : Type} {found : Scan} {good : α → Prop} {x : Encoding α}
    (h : Outcome found good x) : methodsCalled x = [] ↔ found ≠ .calls := by
  have hx := h []
  unfold methodsCalled
  generalize x.run [] = r at hx
  cases hx with
  | ok _ | stopped => simp
  | called hne | failed hne => simp [hne]

/-- **The encoder calls no method of the application** for an accepted value, if and only if it
meets no non-empty slice whose elements are of kind `uint8` and have a method on their pointer type
before it stops (at a `json.Number` that is no number, or where the nesting gets too deep).  The
walk does not look at the elements of a slice of bytes. -/
theorem custom_encoders_not_run_iff
    (h : (validateStructuredInput limits types heap value).run .new = .ok () b)
    (hlevels : structuredLevels limits ≤ levels) :
    methodsCalled (marshal types heap encoder levels value) = [] ↔
      ∀ x ∈ (acceptedPlaces types heap limits value).takeWhile (fun x => !stopsAt types x),
        marshalsBytes types x.2 = false := by
  rw [methodsCalled_eq_nil_iff (outcome_marshal h (Nat.le_of_succ_le hlevels)), Ne,
    scan_eq_calls_iff]
  simp only [not_exists, not_and, Bool.not_eq_true]

/-- The types of an application: `any`, `string`, `map[string]any`, `byte`, `[]byte`, a byte type
with a method `MarshalJSON` on its pointer, a slice of these, and `bool`. -/
def applicationTypes : Types
  | 0 => ⟨.interface, .other, 0, 0, false, false, false, false⟩
  | 1 => ⟨.string, .predeclared, 0, 0, false, false, false, false⟩
  | 2 => ⟨.map, .other, 0, 1, false, false, false, false⟩
  | 3 => ⟨.uint8, .predeclared, 0, 0, false, false, false, false⟩
  | 4 => ⟨.slice, .other, 3, 0, false, false, false, false⟩
  | 5 => ⟨.uint8, .other, 0, 0, false, false, true, false⟩
  | 6 => ⟨.slice, .other, 5, 0, false, false, false, false⟩
  | _ => ⟨.bool, .predeclared, 0, 0, false, false, false, false⟩

/-- Its memory: a map with a text and a slice of bytes, and bytes. -/
def applicationHeap : Heap where
  pointee _ _ := .nilInterface
  entries _ := [(str "b", .interface 4 (.slice 1 2)), (str "a", .interface 1 (.string (str "<")))]
  item _ _ index := .uint (UInt64.ofNat index)

/-- An encoder for it; floats do not occur. -/
def applicationEncoder : Encoder where
  formatFloat _ _ := str "0"
  call _ _ _ := .ok (str "[ ]")
  isNumber_formatFloat _ _ _ _ := by decide

theorem accepted_map :
    (validateStructuredInput defaultLimits applicationTypes applicationHeap
      (some (2, .map 1))).run .new = .ok () ⟨26, 3, []⟩ := by
  rfl

/-- A map of a text and a slice of bytes is encoded without methods. -/
theorem custom_encoders_not_run_map :
    (validateStructuredInput defaultLimits applicationTypes applicationHeap
        (some (2, .map 1))).run .new = .ok () ⟨26, 3, []⟩ ∧
      methodsCalled (marshal applicationTypes applicationHeap applicationEncoder
        (structuredLevels defaultLimits) (some (2, .map 1))) = [] :=
  ⟨accepted_map, (custom_encoders_not_run_iff accepted_map (Nat.le_refl _)).mpr (by decide +kernel)⟩

/-- A slice of bytes with a method is accepted, and the method is called. -/
theorem custom_encoder_run :
    (validateStructuredInput defaultLimits applicationTypes applicationHeap
        (some (6, .slice 1 1))).run .new = .ok () ⟨6, 1, []⟩ ∧
      methodsCalled (marshal applicationTypes applicationHeap applicationEncoder
        (structuredLevels defaultLimits) (some (6, .slice 1 1))) =
        [⟨.marshalJSON, 5, .uint 0⟩] :=
  ⟨rfl, rfl⟩

/-- The value is no slice of bytes with elements of a type that has methods. -/
def PlainBytes (types : Types) (value : Reflected) : Prop :=
  ∀ type address length, value = some (type, .slice address length) →
    (types (types type).elem).kind = .uint8 → types.pointerMarshals (types type).elem = false

theorem marshalsBytes_of_plain (h : PlainBytes types value) :
    marshalsBytes types value = false := by
  unfold marshalsBytes
  split
  · rename_i type address length
    by_cases hkind : (types (types type).elem).kind = .uint8
    · simp [h type address length rfl hkind]
    · simp [hkind]
  · rfl

/-- What an accepted value of these kinds is known to satisfy. -/
structure EncodingBounded (types : Types) (heap : Heap) (encoder : Encoder) (limits : Limits)
    (value : Reflected) (b : StructuredBudget) : Prop where
  bytes : b.bytes ≤ limits.maxStructuredBytes
  visited : b.nodes = len (acceptedPositions types heap limits value)
  nodes : b.nodes ≤ limits.maxStructuredBytes
  nesting : Fits types heap (limits.maxEvaluationDepth + 1).toNat value
  /-- The encoding is not longer than what was charged. -/
  encoding : ∀ levels, structuredLevels limits ≤ levels → ∀ text log,
    (marshal types heap encoder levels value).run [] = .ok text log → len text ≤ b.bytes
  /-- There is an encoding, unless there is a `json.Number` that is no number, or an array or object
  that is nested too deeply. -/
  encoded : ∀ levels, structuredLevels limits ≤ levels →
    (∃ text, (marshal types heap encoder levels value).run [] = .ok text []) ∨
      (∃ x ∈ acceptedPlaces types heap limits value, stopsAt types x = true) ∧
        ∃ e, (marshal types heap encoder levels value).run [] = .error (.error e) []
  /-- The check of the size of the encoding does not fail. -/
  checked : ∀ text log,
    (marshal types heap encoder (structuredLevels limits) value).run [] = .ok text log →
      mapStructured types heap encoder limits value = .ok (.structured text)

theorem maxStructuredBytes_pos
    (h : (validateStructuredInput limits types heap value).run .new = .ok () b) :
    0 < limits.maxStructuredBytes := by
  rw [validateStructuredInput, structuredLevels, validateStructuredValue] at h
  split at h
  · simp at h
  rw [EStateM.run_bind, EStateM.run_get] at h
  dsimp only at h
  split at h
  · simp at h
  · rename_i hnodes
    exact not_le.mp hnodes

theorem exists_of_scan_eq_stops {l : List (Nat × Reflected)} (h : scan types l = .stops) :
    ∃ x ∈ l, stopsAt types x = true := by
  induction l with
  | nil => simp [scan] at h
  | cons x rest ih =>
    rw [scan] at h
    split_ifs at h with hstops hbytes
    · exact ⟨x, List.mem_cons_self, hstops⟩
    · obtain ⟨y, hy, hstops⟩ := ih h
      exact ⟨y, List.mem_cons_of_mem x hy, hstops⟩

theorem bounded_of_accepted (hshort : encoder.ShortFloats)
    (h : (validateStructuredInput limits types heap value).run .new = .ok () b)
    (hplain : ∀ x ∈ acceptedPositions types heap limits value, PlainBytes types x) :
    EncodingBounded types heap encoder limits value b := by
  have htook := took_of_accepted h
  have hpos := maxStructuredBytes_pos h
  have hbytes : b.bytes ≤ limits.maxStructuredBytes := htook.bytes_le (Int.le_of_lt hpos)
  have hscan : scan types (acceptedPlaces types heap limits value) ≠ .calls := by
    rw [Ne, scan_eq_calls_iff]
    rintro ⟨x, hx, hmarshals⟩
    have hposition : x.2 ∈ acceptedPositions types heap limits value := by
      rw [acceptedPositions, ← map_places 0]
      exact List.mem_map_of_mem (List.takeWhile_subset _ hx)
    have hfalse := marshalsBytes_of_plain (hplain x.2 hposition)
    rw [hfalse] at hmarshals
    exact nomatch hmarshals
  have hmarshal (levels : Nat) (hlevels : structuredLevels limits ≤ levels) :
      (∃ text, (marshal types heap encoder levels value).run [] = .ok text [] ∧
        len text ≤ b.bytes) ∨
      (∃ x ∈ acceptedPlaces types heap limits value, stopsAt types x = true) ∧
        ∃ e, (marshal types heap encoder levels value).run [] = .error (.error e) [] := by
    have hended : Ended (fun text => encoder.ShortFloats → len text ≤ b.bytes) [] _
        ((marshal types heap encoder levels value).run []) :=
      outcome_marshal h (Nat.le_of_succ_le hlevels) []
    generalize hfound : scan types (acceptedPlaces types heap limits value) = found at hended
    generalize (marshal types heap encoder levels value).run [] = r at hended
    cases hended with
    | ok hle => exact .inl ⟨_, rfl, hle hshort⟩
    | stopped => exact .inr ⟨exists_of_scan_eq_stops hfound, _, rfl⟩
    | called | failed => exact absurd hfound hscan
  have hencoding (levels : Nat) (hlevels : structuredLevels limits ≤ levels) (text : Bytes)
      (log : List MethodCall)
      (hrun : (marshal types heap encoder levels value).run [] = .ok text log) :
      len text ≤ b.bytes := by
    obtain ⟨text', htext, hle⟩ | ⟨-, e, herror⟩ := hmarshal levels hlevels
    · rw [htext, EStateM.Result.ok.injEq] at hrun
      rw [← hrun.1]
      exact hle
    · rw [herror] at hrun
      exact nomatch hrun
  refine ⟨hbytes, ?_, htook.nodes_le (Int.le_of_lt hpos), htook.fits value List.mem_cons_self,
    hencoding, ?_, ?_⟩
  · rw [htook.nodes, List.flatMap_singleton]
    exact Int.zero_add _
  · intro levels hlevels
    obtain ⟨text, htext, -⟩ | herror := hmarshal levels hlevels
    · exact .inl ⟨text, htext⟩
    · exact .inr herror
  · intro text log hrun
    have hle := hencoding _ (Nat.le_refl _) text log hrun
    rw [mapStructured, h]
    dsimp only
    rw [hrun]
    exact if_neg (by omega)

/-- **The walk bounds the encoding.**  On every value, also one that contains itself, the walk
accepts or returns an error, without an overflow.  When it accepts, the charge and the number of
values are at most `MaxStructuredBytes`, the nesting at most `MaxEvaluationDepth`, and the encoding
is not longer than the charge. -/
theorem preflight_bounds_encoding (hmax : InInt limits.maxStructuredBytes)
    (hshort : encoder.ShortFloats) (value : Reflected) :
    (∀ levels, structuredLevels limits ≤ levels →
      (∃ b, (validateStructuredValue limits types heap levels 0 value).run .new = .ok () b) ∨
      ∃ e b, (validateStructuredValue limits types heap levels 0 value).run .new =
        .error (.error e) b) ∧
    ∀ b, (validateStructuredInput limits types heap value).run .new = .ok () b →
      (∀ x ∈ acceptedPositions types heap limits value, PlainBytes types x) →
      EncodingBounded types heap encoder limits value b := by
  refine ⟨fun levels hlevels => ?_, fun b h hplain => bounded_of_accepted hshort h hplain⟩
  have hnew : Counted 0 .new := ⟨Int.le_refl 0, Int.le_refl 0, by decide⟩
  have hlevels' : (limits.maxEvaluationDepth + 1 - 0).toNat < levels := by
    rw [Int.sub_zero]
    exact hlevels
  cases hrun : (validateStructuredValue limits types heap levels 0 value).run .new with
  | ok _ b => exact .inl ⟨b, rfl⟩
  | error stop b =>
    obtain ⟨e, rfl⟩ :=
      (maintains_validate hmax (Int.le_refl 0) hlevels' value .new hnew).2 stop b hrun
    exact .inr ⟨e, b, rfl⟩

/-- The map of a text and a slice of bytes is encoded within the charge. -/
theorem preflight_bounds_map :
    (validateStructuredInput defaultLimits applicationTypes applicationHeap
        (some (2, .map 1))).run .new = .ok () ⟨26, 3, []⟩ ∧
      EncodingBounded applicationTypes applicationHeap applicationEncoder defaultLimits
        (some (2, .map 1)) ⟨26, 3, []⟩ := by
  refine ⟨accepted_map, (preflight_bounds_encoding (by decide) ?_ _).2 _ accepted_map ?_⟩
  · exact fun kind f _ _ => show len (str "0") ≤ 32 by decide
  · have hpositions : acceptedPositions applicationTypes applicationHeap defaultLimits
        (some (2, .map 1)) =
        [some (2, .map 1), some (1, .string (str "<")), some (4, .slice 1 2)] := by rfl
    rw [hpositions]
    rintro x hx type address length rfl _
    simp only [List.mem_cons, Option.some.injEq, Prod.mk.injEq, reduceCtorEq, and_false, false_or,
      List.not_mem_nil, or_false] at hx
    rw [hx.1]
    rfl

end Results

end FeatureFlags
