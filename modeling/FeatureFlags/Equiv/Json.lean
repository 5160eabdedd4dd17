import FeatureFlags.Equiv.JsonString

/-!
# JSON texts are read back

* `Canonical`: the trees that `json.Marshal` writes, without white space.
* `parses_of_canonical`, `parse_canonical`: the text of such a tree is read as the tree, so two of
  them with one text are equal (`Canonical.eq_of_text_eq`).
* `canonical_compactTree`, `compactTree_compactTree`: a `json.RawMessage` is written as such a tree,
  and reading and writing it again changes nothing.
-/

namespace FeatureFlags.Go.Json

/-! ### Scalars -/

/-- The text in front of `rest` is made of bytes of numbers. -/
def NumberBytes (s rest : Bytes) : Prop := ∃ u, s = u ++ rest ∧ ∀ c ∈ u, isNumberByte c = true

variable {s rest : Bytes} {c : UInt8}

namespace NumberBytes

theorem refl (s : Bytes) : NumberBytes s s := ⟨[], rfl, nofun⟩

theorem cons (hc : isNumberByte c = true) (h : NumberBytes s rest) : NumberBytes (c :: s) rest := by
  obtain ⟨u, rfl, hu⟩ := h
  exact ⟨c :: u, rfl, List.forall_mem_cons.mpr ⟨hc, hu⟩⟩

theorem trans {t r : Bytes} (h : NumberBytes s t) (h' : NumberBytes t r) : NumberBytes s r := by
  obtain ⟨u, rfl, hu⟩ := h
  obtain ⟨v, rfl, hv⟩ := h'
  refine ⟨u ++ v, (List.append_assoc u v r).symm, fun c hc => ?_⟩
  rcases List.mem_append.mp hc with hc | hc
  · exact hu c hc
  · exact hv c hc

end NumberBytes

theorem isNumberByte_of_isDigit (h : isDigit c = true) : isNumberByte c = true := by
  simp [isNumberByte, h]

theorem numberBytes_afterDigits (h : afterDigits s = some rest) : NumberBytes s rest := by
  cases s with
  | nil => cases h
  | cons c s =>
    rw [afterDigits] at h
    split_ifs at h with hc
    cases h
    refine .cons (isNumberByte_of_isDigit hc) ⟨s.takeWhile isDigit, ?_, fun c hc => ?_⟩
    · exact List.takeWhile_append_dropWhile.symm
    · exact isNumberByte_of_isDigit (List.mem_takeWhile_imp hc)

theorem numberBytes_afterMinus (s : Bytes) : NumberBytes s (afterMinus s) := by
  cases s with
  | nil => exact .refl []
  | cons c s =>
    rw [afterMinus]
    split_ifs with hc
    · subst hc; exact .cons (by decide) (.refl s)
    · exact .refl _

theorem numberBytes_afterInteger (h : afterInteger s = some rest) : NumberBytes s rest := by
  cases s with
  | nil => cases h
  | cons c s =>
    rw [afterInteger] at h
    split_ifs at h with hc
    · cases h; subst hc; exact .cons (by decide) (.refl _)
    · exact numberBytes_afterDigits h

theorem numberBytes_afterFraction (h : afterFraction s = some rest) : NumberBytes s rest := by
  cases s with
  | nil => cases h; exact .refl []
  | cons c s =>
    rw [afterFraction] at h
    split_ifs at h with hc
    · subst hc; exact .cons (by decide) (numberBytes_afterDigits h)
    · cases h; exact .refl _

theorem numberBytes_afterExponent (h : afterExponent s = some rest) : NumberBytes s rest := by
  cases s with
  | nil => cases h; exact .refl []
  | cons c s =>
    rw [afterExponent.eq_def] at h
    dsimp only at h
    split_ifs at h with hc
    · have hc' : isNumberByte c = true := by rcases hc with rfl | rfl <;> decide
      cases s with
      | nil => cases h
      | cons d s =>
        dsimp only at h
        split_ifs at h with hd
        · have hd' : isNumberByte d = true := by rcases hd with rfl | rfl <;> decide
          exact .cons hc' (.cons hd' (numberBytes_afterDigits h))
        · exact .cons hc' (numberBytes_afterDigits h)
    · cases h; exact .refl _

variable {text : Bytes}

/-- A number consists of bytes of numbers and starts with a minus sign or a digit. -/
theorem isNumber_spec (h : isNumber text = true) :
    (∀ c ∈ text, isNumberByte c = true) ∧
      ∃ c rest, text = c :: rest ∧ (c = 0x2D ∨ isDigit c = true) := by
  simp only [isNumber, beq_iff_eq, Option.bind_eq_bind, Option.bind_eq_some_iff] at h
  obtain ⟨s₁, h₁, s₂, h₂, h₃⟩ := h
  have hbytes : NumberBytes text [] :=
    (numberBytes_afterMinus text).trans <| (numberBytes_afterInteger h₁).trans <|
      (numberBytes_afterFraction h₂).trans (numberBytes_afterExponent h₃)
  constructor
  · obtain ⟨u, rfl, hu⟩ := hbytes
    rwa [List.append_nil]
  · cases text with
    | nil => cases h₁
    | cons c rest =>
      refine ⟨c, rest, rfl, ?_⟩
      by_cases hc : c = 0x2D
      · exact .inl hc
      · rw [afterMinus, if_neg hc, afterInteger] at h₁
        split_ifs at h₁ with hzero
        · subst hzero; exact .inr (by decide)
        · rw [afterDigits] at h₁
          split_ifs at h₁ with hdigit
          exact .inr hdigit

/-- What may follow a number. -/
def Stops (rest : Bytes) : Prop := ∀ c s, rest = c :: s → isNumberByte c = false

theorem stops_nil : Stops [] := fun _ _ h => nomatch h

theorem stops_cons (h : isNumberByte c = false) : Stops (c :: s) := by
  intro c' s' heq
  cases heq
  exact h

/-- A byte that can start a value: no white space, no closing bracket or brace. -/
def Leads (c : UInt8) : Prop := isSpace c = false ∧ c ≠ 0x5D ∧ c ≠ 0x7D

instance (c : UInt8) : Decidable (Leads c) := inferInstanceAs (Decidable (_ ∧ _))

/-- A literal or a number is read up to what follows it. -/
theorem takeScalar_append (h : isScalar text = true) (hrest : Stops rest) :
    takeScalar (text ++ rest) = some (text, rest) := by
  simp only [isScalar, Bool.or_eq_true, beq_iff_eq] at h
  rcases h with ((rfl | rfl) | rfl) | h
  · rfl
  · rfl
  · rfl
  · obtain ⟨hbytes, c, s, rfl, hc⟩ := isNumber_spec h
    have hstop : rest.takeWhile isNumberByte = [] ∧ rest.dropWhile isNumberByte = rest := by
      cases rest with
      | nil => exact ⟨rfl, rfl⟩
      | cons d r => simp [hrest d r rfl]
    have htake : (c :: s ++ rest).takeWhile isNumberByte = c :: s := by
      rw [List.takeWhile_append_of_pos hbytes, hstop.1, List.append_nil]
    have hdrop : (c :: s ++ rest).dropWhile isNumberByte = rest := by
      rw [List.dropWhile_append_of_pos hbytes, hstop.2]
    have hliteral (name : Bytes) (d : UInt8) (hd : isNumberByte d = false) :
        (d :: name).isPrefixOf (c :: s ++ rest) = false := by
      have hne : (d == c) = false := by
        rw [beq_eq_false_iff_ne]
        rintro rfl
        rw [hbytes d List.mem_cons_self] at hd
        cases hd
      rw [List.cons_append, List.isPrefixOf, hne, Bool.false_and]
    have hnull : (str "null").isPrefixOf (c :: s ++ rest) = false := hliteral _ _ (by decide)
    have htrue : (str "true").isPrefixOf (c :: s ++ rest) = false := hliteral _ _ (by decide)
    have hfalse : (str "false").isPrefixOf (c :: s ++ rest) = false := hliteral _ _ (by decide)
    rw [takeScalar, hnull, htrue, hfalse, htake, hdrop, h]
    rfl

/-- A scalar starts with a byte that starts no other value. -/
theorem isScalar_cons (h : isScalar text = true) :
    ∃ c s, text = c :: s ∧ Leads c ∧ c ≠ 0x22 ∧ c ≠ 0x5B ∧ c ≠ 0x7B := by
  simp only [isScalar, Bool.or_eq_true, beq_iff_eq] at h
  rcases h with ((rfl | rfl) | rfl) | h
  · exact ⟨0x6E, str "ull", rfl, by decide⟩
  · exact ⟨0x74, str "rue", rfl, by decide⟩
  · exact ⟨0x66, str "alse", rfl, by decide⟩
  · obtain ⟨hbytes, c, s, rfl, -⟩ := isNumber_spec h
    have hc := hbytes c List.mem_cons_self
    refine ⟨c, s, rfl, ⟨?_, ?_, ?_⟩, ?_, ?_, ?_⟩
    · by_contra hspace
      simp only [isSpace, Bool.not_eq_false, Bool.or_eq_true, beq_iff_eq] at hspace
      rcases hspace with ((rfl | rfl) | rfl) | rfl <;> exact absurd hc (by decide)
    all_goals rintro rfl; exact absurd hc (by decide)

/-! ### Trees -/

/-- A tree as `json.Marshal` writes it. -/
inductive Canonical : Tree → Prop
  | scalar {text : Bytes} (h : isScalar text = true) : Canonical (.scalar text)
  | string {raw : Bytes} (h : RawText raw) : Canonical (.string raw)
  | array {items : List Tree} (h : ∀ t ∈ items, Canonical t) : Canonical (mkArray items)
  | object {members : List (Bytes × Tree)} (hnames : ∀ m ∈ members, RawText m.1)
      (h : ∀ m ∈ members, Canonical m.2) : Canonical (mkObject members)

/-- The text of the tree is read as the tree, with fuel for twice its length. -/
structure Parses (t : Tree) : Prop where
  leads : ∃ c s, t.text = c :: s ∧ Leads c
  parse : ∀ (n : Nat) (rest : Bytes), Stops rest → 2 * t.text.length ≤ n + 1 →
    parseValue n (t.text ++ rest) = some (t, rest)

theorem skipSpace_of_leads (h : Leads c) (s : Bytes) : skipSpace (c :: s) = c :: s := by
  simp [skipSpace, h.1]

theorem consumed_append (s rest : Bytes) : consumed (s ++ rest) rest = s := by
  simp [consumed]

theorem joinComma_cons (a : Bytes) (l : List Bytes) : ∃ s, joinComma (a :: l) = a ++ s := by
  cases l with
  | nil => exact ⟨[], (List.append_nil a).symm⟩
  | cons b l => exact ⟨_, rfl⟩

theorem exists_joinComma {a : Bytes} (ha : a = c :: s) (l : List Bytes) :
    ∃ r, joinComma (a :: l) = c :: r := by
  obtain ⟨r, hr⟩ := joinComma_cons a l
  exact ⟨s ++ r, by rw [hr, ha, List.cons_append]⟩

variable {items : List Tree}

/-- The items of an array, with what closes it. -/
theorem parseItems_of_parses (h : ∀ t ∈ items, Parses t) (hne : items ≠ []) :
    ∀ (n : Nat) (rest : Bytes), 2 * (joinComma (items.map Tree.text)).length ≤ n →
      parseItems n (joinComma (items.map Tree.text) ++ 0x5D :: rest) = some (items, rest) := by
  induction items with
  | nil => exact absurd rfl hne
  | cons t items ih =>
    intro n rest hn
    obtain ⟨ht, hitems⟩ := List.forall_mem_cons.mp h
    obtain ⟨c, s, htext, -⟩ := ht.leads
    cases items with
    | nil =>
      simp only [List.map_cons, List.map_nil, joinComma] at hn ⊢
      obtain ⟨n, rfl⟩ : ∃ n', n = n' + 1 := ⟨n - 1, by rw [htext, List.length_cons] at hn; omega⟩
      rw [parseItems, ht.parse n _ (stops_cons (by decide)) (by omega)]
      rfl
    | cons u items =>
      have ih' := ih hitems (List.cons_ne_nil u items)
      simp only [List.map_cons, joinComma, List.length_append, List.length_cons] at hn ih' ⊢
      obtain ⟨n, rfl⟩ : ∃ n', n = n' + 1 := ⟨n - 1, by omega⟩
      obtain ⟨d, r, hu, hd⟩ := (hitems u List.mem_cons_self).leads
      obtain ⟨r', hjoin⟩ := exists_joinComma hu (items.map Tree.text)
      have hskip : skipSpace (joinComma (u.text :: items.map Tree.text) ++ 0x5D :: rest) =
          joinComma (u.text :: items.map Tree.text) ++ 0x5D :: rest := by
        rw [hjoin, List.cons_append, skipSpace_of_leads hd]
      rw [List.append_assoc, List.cons_append, parseItems,
        ht.parse n _ (stops_cons (by decide)) (by omega)]
      dsimp only
      rw [skipSpace_of_leads (by decide)]
      dsimp only
      rw [if_pos rfl, hskip, ih' n rest (by omega)]
      rfl

variable {members : List (Bytes × Tree)}

/-- The members of an object, with what closes it. -/
theorem parseMembers_of_parses (hnames : ∀ m ∈ members, RawText m.1)
    (h : ∀ m ∈ members, Parses m.2) (hne : members ≠ []) :
    ∀ (n : Nat) (rest : Bytes), 2 * (joinComma (members.map memberText)).length ≤ n →
      parseMembers n (joinComma (members.map memberText) ++ 0x7D :: rest) =
        some (members, rest) := by
  induction members with
  | nil => exact absurd rfl hne
  | cons m members ih =>
    intro n rest hn
    obtain ⟨name, t⟩ := m
    obtain ⟨hname, hnames⟩ := List.forall_mem_cons.mp hnames
    obtain ⟨ht, hmembers⟩ := List.forall_mem_cons.mp h
    dsimp only at hname ht
    obtain ⟨c, s, htext, hc⟩ := ht.leads
    -- one member, whatever follows it
    have hmember (n : Nat) (d : UInt8) (rest : Bytes) (hd : skipSpace (d :: rest) = d :: rest)
        (hrest : Stops (d :: rest)) (hn : 2 * t.text.length ≤ n + 1) :
        parseMembers (n + 1) (memberText (name, t) ++ d :: rest) =
          if d = 0x2C then
            (parseMembers n (skipSpace rest)).map fun p => ((name, t) :: p.1, p.2)
          else if d = 0x7D then some ([(name, t)], rest) else none := by
      have hskip : skipSpace (t.text ++ d :: rest) = t.text ++ d :: rest := by
        rw [htext, List.cons_append, skipSpace_of_leads hc]
      simp only [memberText, List.cons_append, List.append_assoc]
      rw [parseMembers, if_neg (by decide), takeRaw_rawText hname]
      dsimp only
      rw [skipSpace_of_leads (by decide)]
      dsimp only
      rw [if_neg (by decide), hskip, ht.parse n _ hrest hn]
      dsimp only
      rw [hd]
    have hlen : 2 * t.text.length + 6 ≤ 2 * (memberText (name, t)).length := by
      simp only [memberText, List.cons_append, List.length_cons, List.length_append]
      omega
    cases members with
    | nil =>
      simp only [List.map_cons, List.map_nil, joinComma] at hn ⊢
      obtain ⟨n, rfl⟩ : ∃ n', n = n' + 1 := ⟨n - 1, by omega⟩
      rw [hmember n _ _ rfl (stops_cons (by decide)) (by omega)]
      rfl
    | cons u members =>
      have ih' := ih hnames hmembers (List.cons_ne_nil u members)
      simp only [List.map_cons, joinComma, List.length_append, List.length_cons] at hn ih' ⊢
      obtain ⟨n, rfl⟩ : ∃ n', n = n' + 1 := ⟨n - 1, by omega⟩
      obtain ⟨r', hjoin⟩ := exists_joinComma (a := memberText u) rfl (members.map memberText)
      have hskip : skipSpace (joinComma (memberText u :: members.map memberText) ++ 0x7D :: rest) =
          joinComma (memberText u :: members.map memberText) ++ 0x7D :: rest := by
        rw [hjoin, List.cons_append, skipSpace_of_leads (by decide)]
      rw [List.append_assoc, List.cons_append, hmember n _ _ rfl (stops_cons
        (by decide)) (by omega), if_pos rfl, hskip, ih' n rest (by omega)]
      rfl

theorem parseValue_array {n : Nat} {d : UInt8} {inner : Bytes} (hd : Leads d)
    (h : parseItems n (d :: inner ++ 0x5D :: rest) = some (items, rest)) :
    parseValue (n + 1) (0x5B :: (d :: inner ++ 0x5D :: rest)) =
      some (.array (0x5B :: (d :: inner ++ [0x5D])) items, rest) := by
  have hconsumed := consumed_append (0x5B :: (d :: inner ++ [0x5D])) rest
  rw [List.cons_append, List.append_assoc, List.singleton_append] at hconsumed
  rw [List.cons_append] at h hconsumed ⊢
  rw [parseValue, if_neg (by decide), if_pos rfl, skipSpace_of_leads hd]
  dsimp only
  rw [if_neg hd.2.1, h, Option.map_some, hconsumed]

theorem parseValue_object {n : Nat} {d : UInt8} {inner : Bytes} (hd : Leads d)
    (h : parseMembers n (d :: inner ++ 0x7D :: rest) = some (members, rest)) :
    parseValue (n + 1) (0x7B :: (d :: inner ++ 0x7D :: rest)) =
      some (.object (0x7B :: (d :: inner ++ [0x7D])) members, rest) := by
  have hconsumed := consumed_append (0x7B :: (d :: inner ++ [0x7D])) rest
  rw [List.cons_append, List.append_assoc, List.singleton_append] at hconsumed
  rw [List.cons_append] at h hconsumed ⊢
  rw [parseValue, if_neg (by decide), if_neg (by decide), if_pos rfl, skipSpace_of_leads hd]
  dsimp only
  rw [if_neg hd.2.2, h, Option.map_some, hconsumed]

variable {t : Tree}

/-- **Canonical texts are read back**, whatever follows them. -/
theorem parses_of_canonical (h : Canonical t) : Parses t := by
  induction h with
  | @scalar text h =>
    obtain ⟨c, s, rfl, hc, h₁, h₂, h₃⟩ := isScalar_cons h
    refine ⟨⟨c, s, rfl, hc⟩, fun n rest hrest hn => ?_⟩
    simp only [Tree.text, List.length_cons] at hn ⊢
    obtain ⟨n, rfl⟩ : ∃ n', n = n' + 1 := ⟨n - 1, by omega⟩
    have htake := takeScalar_append h hrest
    rw [List.cons_append] at htake ⊢
    rw [parseValue, if_neg h₁, if_neg h₂, if_neg h₃, htake]
    rfl
  | @string raw h =>
    refine ⟨⟨0x22, raw ++ [0x22], rfl, by decide⟩, fun n rest _ hn => ?_⟩
    simp only [Tree.text, List.length_cons, List.length_append, List.length_nil] at hn ⊢
    obtain ⟨n, rfl⟩ : ∃ n', n = n' + 1 := ⟨n - 1, by omega⟩
    rw [List.cons_append, List.cons_append, List.append_assoc, parseValue, if_pos rfl]
    simp only [List.singleton_append]
    rw [takeRaw_rawText h]
    rfl
  | @array items _ ih =>
    refine ⟨⟨0x5B, _, rfl, by decide⟩, fun n rest _ hn => ?_⟩
    simp only [mkArray, Tree.text, List.length_cons, List.length_append, List.cons_append,
      List.append_assoc] at hn ⊢
    obtain ⟨n, rfl⟩ : ∃ n', n = n' + 1 := ⟨n - 1, by omega⟩
    cases items with
    | nil =>
      have hconsumed := consumed_append [0x5B, 0x5D] rest
      simpa [joinComma, parseValue, skipSpace, isSpace] using hconsumed
    | cons t items =>
      obtain ⟨c, s, htext, hc⟩ := (ih t List.mem_cons_self).leads
      obtain ⟨r, hjoin⟩ := exists_joinComma htext (items.map Tree.text)
      have hitems := parseItems_of_parses ih (List.cons_ne_nil t items) n rest (by omega)
      rw [List.map_cons, hjoin] at hitems ⊢
      exact parseValue_array hc hitems
  | @object members hnames _ ih =>
    refine ⟨⟨0x7B, _, rfl, by decide⟩, fun n rest _ hn => ?_⟩
    simp only [mkObject, Tree.text, List.length_cons, List.length_append, List.cons_append,
      List.append_assoc] at hn ⊢
    obtain ⟨n, rfl⟩ : ∃ n', n = n' + 1 := ⟨n - 1, by omega⟩
    cases members with
    | nil =>
      have hconsumed := consumed_append [0x7B, 0x7D] rest
      simpa [joinComma, parseValue, skipSpace, isSpace] using hconsumed
    | cons m members =>
      obtain ⟨r, hjoin⟩ := exists_joinComma (a := memberText m) rfl (members.map memberText)
      have hmembers :=
        parseMembers_of_parses hnames ih (List.cons_ne_nil m members) n rest (by omega)
      rw [List.map_cons, hjoin] at hmembers ⊢
      exact parseValue_object (by decide) hmembers

/-- The text alone is read as the tree, if it is not nested too deeply. -/
theorem parse_canonical (h : Canonical t) (hdepth : t.depth ≤ maxNestingDepth) :
    parse t.text = some t := by
  obtain ⟨⟨c, s, htext, hc⟩, hparse⟩ := parses_of_canonical h
  have hskip : skipSpace t.text = t.text := by rw [htext, skipSpace_of_leads hc]
  have hvalue := hparse (2 * t.text.length + 1) [] stops_nil (by omega)
  rw [List.append_nil] at hvalue
  rw [parse, hskip, hvalue]
  exact if_pos ⟨rfl, hdepth⟩

/-- A canonical text is valid exactly when it is not nested too deeply. -/
theorem valid_canonical_iff (h : Canonical t) :
    valid t.text = true ↔ t.depth ≤ maxNestingDepth := by
  refine ⟨fun hvalid => ?_, fun hdepth => by rw [valid, parse_canonical h hdepth]; rfl⟩
  obtain ⟨⟨c, s, htext, hc⟩, hparse⟩ := parses_of_canonical h
  have hskip : skipSpace t.text = t.text := by rw [htext, skipSpace_of_leads hc]
  have hvalue := hparse (2 * t.text.length + 1) [] stops_nil (by omega)
  rw [List.append_nil] at hvalue
  rw [valid, parse, hskip, hvalue] at hvalid
  dsimp only at hvalid
  split_ifs at hvalid with hok
  · exact hok.2
  · exact nomatch hvalid

theorem Canonical.eq_of_text_eq {u : Tree} (ht : Canonical t) (hu : Canonical u)
    (h : t.text = u.text) : t = u := by
  have hparse := (parses_of_canonical ht).parse (2 * t.text.length) [] stops_nil (by omega)
  rw [h, (parses_of_canonical hu).parse _ [] stops_nil (by omega)] at hparse
  cases hparse
  rfl

/-! ### Parsed trees -/

/-- A tree whose scalars and strings are those of JSON, as every parsed one is. -/
inductive WellFormed : Tree → Prop
  | scalar {text : Bytes} (h : isScalar text = true) : WellFormed (.scalar text)
  | string {raw : Bytes} (h : RawText raw) : WellFormed (.string raw)
  | array (text : Bytes) {items : List Tree} (h : ∀ t ∈ items, WellFormed t) :
      WellFormed (.array text items)
  | object (text : Bytes) {members : List (Bytes × Tree)} (hnames : ∀ m ∈ members, RawText m.1)
      (h : ∀ m ∈ members, WellFormed m.2) : WellFormed (.object text members)

theorem isScalar_of_takeScalar (h : takeScalar s = some (text, rest)) : isScalar text = true := by
  unfold takeScalar at h
  split_ifs at h with h₁ h₂ h₃ h₄
  · cases h; rfl
  · cases h; rfl
  · cases h; rfl
  · cases h
    simp [isScalar, h₄]

/-- One value, from what the parsers of items and members return. -/
theorem wellFormed_of_parseValue_succ {n : Nat}
    (hitems : ∀ s items rest, parseItems n s = some (items, rest) → ∀ t ∈ items, WellFormed t)
    (hmembers : ∀ s members rest, parseMembers n s = some (members, rest) →
      (∀ m ∈ members, RawText m.1) ∧ ∀ m ∈ members, WellFormed m.2)
    (h : parseValue (n + 1) s = some (t, rest)) : WellFormed t := by
  cases s with
  | nil => rw [parseValue] at h; cases h
  | cons c s =>
    rw [parseValue] at h
    split_ifs at h with hstring harray hobject
    · obtain ⟨⟨raw, r⟩, hraw, heq⟩ := Option.map_eq_some_iff.mp h
      cases heq
      exact .string (rawText_of_takeRaw hraw)
    · split at h
      · cases h
      · split_ifs at h
        · cases h
          exact .array _ nofun
        · obtain ⟨⟨items, r⟩, hp, heq⟩ := Option.map_eq_some_iff.mp h
          cases heq
          exact .array _ (hitems _ items r hp)
    · split at h
      · cases h
      · split_ifs at h
        · cases h
          exact .object _ nofun nofun
        · obtain ⟨⟨members, r⟩, hp, heq⟩ := Option.map_eq_some_iff.mp h
          cases heq
          exact .object _ (hmembers _ members r hp).1 (hmembers _ members r hp).2
    · obtain ⟨⟨text, r⟩, htext, heq⟩ := Option.map_eq_some_iff.mp h
      cases heq
      exact .scalar (isScalar_of_takeScalar htext)

theorem wellFormed_of_parsers (n : Nat) :
    (∀ s t rest, parseValue n s = some (t, rest) → WellFormed t) ∧
      (∀ s items rest, parseItems n s = some (items, rest) → ∀ t ∈ items, WellFormed t) ∧
      (∀ s members rest, parseMembers n s = some (members, rest) →
        (∀ m ∈ members, RawText m.1) ∧ ∀ m ∈ members, WellFormed m.2) := by
  induction n with
  | zero =>
    refine ⟨fun s t rest h => ?_, fun s items rest h => ?_, fun s members rest h => ?_⟩
    · rw [parseValue] at h; cases h
    · rw [parseItems] at h; cases h
    · rw [parseMembers] at h; cases h
  | succ n ih =>
    obtain ⟨hvalue, hitems, hmembers⟩ := ih
    refine ⟨fun s t rest h => wellFormed_of_parseValue_succ hitems hmembers h,
      fun s items rest h => ?_, fun s members rest h => ?_⟩
    · rw [parseItems] at h
      split at h
      · cases h
      · rename_i t r ht
        split at h
        · cases h
        · split_ifs at h
          · obtain ⟨⟨items', r'⟩, hp, heq⟩ := Option.map_eq_some_iff.mp h
            cases heq
            exact List.forall_mem_cons.mpr ⟨hvalue _ _ _ ht, hitems _ _ _ hp⟩
          · cases h
            exact List.forall_mem_cons.mpr ⟨hvalue _ _ _ ht, nofun⟩
    · cases s with
      | nil => rw [parseMembers] at h; cases h
      | cons q s =>
        rw [parseMembers] at h
        split_ifs at h
        split at h
        · cases h
        · rename_i name r hname
          split at h
          · cases h
          · split_ifs at h
            split at h
            · cases h
            · rename_i t r' ht
              split at h
              · cases h
              · split_ifs at h
                · obtain ⟨⟨members', r'⟩, hp, heq⟩ := Option.map_eq_some_iff.mp h
                  cases heq
                  exact ⟨List.forall_mem_cons.mpr ⟨rawText_of_takeRaw hname, (hmembers _ _ _ hp).1⟩,
                    List.forall_mem_cons.mpr ⟨hvalue _ _ _ ht, (hmembers _ _ _ hp).2⟩⟩
                · cases h
                  exact ⟨List.forall_mem_cons.mpr ⟨rawText_of_takeRaw hname, nofun⟩,
                      List.forall_mem_cons.mpr ⟨hvalue _ _ _ ht, nofun⟩⟩

theorem wellFormed_of_parse (h : parse s = some t) : WellFormed t ∧ t.depth ≤ maxNestingDepth := by
  unfold parse at h
  split at h
  · rename_i t' rest ht
    split_ifs at h with hcond
    cases h
    exact ⟨(wellFormed_of_parsers _).1 _ _ _ ht, hcond.2⟩
  · cases h

/-! ### Compaction -/

theorem compactItems_eq (items : List Tree) : compactItems items = items.map compactTree := by
  induction items with
  | nil => rw [compactItems, List.map_nil]
  | cons t items ih => rw [compactItems, ih, List.map_cons]

theorem compactMembers_eq (members : List (Bytes × Tree)) :
    compactMembers members = members.map fun m => (escapeHTML m.1, compactTree m.2) := by
  induction members with
  | nil => rw [compactMembers, List.map_nil]
  | cons m members ih => rw [compactMembers, ih, List.map_cons]

/-- A well-formed tree without white space is one that `json.Marshal` writes. -/
theorem canonical_compactTree (h : WellFormed t) : Canonical (compactTree t) := by
  induction h with
  | scalar h => rw [compactTree]; exact .scalar h
  | string h => rw [compactTree]; exact .string (rawText_escapeHTML h)
  | array text _ ih =>
    rw [compactTree, compactItems_eq]
    exact .array (List.forall_mem_map.mpr ih)
  | object text hnames _ ih =>
    rw [compactTree, compactMembers_eq]
    exact .object (List.forall_mem_map.mpr fun m hm => rawText_escapeHTML (hnames m hm))
      (List.forall_mem_map.mpr ih)

theorem itemsDepth_map {f : Tree → Tree} (h : ∀ t ∈ items, (f t).depth = t.depth) :
    itemsDepth (items.map f) = itemsDepth items := by
  induction items with
  | nil => rfl
  | cons t items ih =>
    obtain ⟨ht, hitems⟩ := List.forall_mem_cons.mp h
    rw [List.map_cons, itemsDepth, itemsDepth, ht, ih hitems]

theorem membersDepth_map {f : Bytes × Tree → Bytes × Tree}
    (h : ∀ m ∈ members, (f m).2.depth = m.2.depth) :
    membersDepth (members.map f) = membersDepth members := by
  induction members with
  | nil => rfl
  | cons m members ih =>
    obtain ⟨hm, hmembers⟩ := List.forall_mem_cons.mp h
    rw [List.map_cons, membersDepth, membersDepth, hm, ih hmembers]

theorem depth_compactTree (h : WellFormed t) : (compactTree t).depth = t.depth := by
  induction h with
  | scalar _ => rw [compactTree]
  | string _ => rw [compactTree, Tree.depth, Tree.depth]
  | array text _ ih =>
    rw [compactTree, compactItems_eq, mkArray, Tree.depth, Tree.depth, itemsDepth_map ih]
  | object text _ _ ih =>
    rw [compactTree, compactMembers_eq, mkObject, Tree.depth, Tree.depth, membersDepth_map ih]

theorem compactTree_compactTree (h : WellFormed t) :
    compactTree (compactTree t) = compactTree t := by
  induction h with
  | scalar _ => rw [compactTree, compactTree]
  | string _ => rw [compactTree, compactTree, escapeHTML_escapeHTML]
  | array text _ ih =>
    rw [compactTree, compactItems_eq, mkArray, compactTree, compactItems_eq, List.map_map]
    exact congrArg mkArray (List.map_congr_left ih)
  | object text _ _ ih =>
    rw [compactTree, compactMembers_eq, mkObject, compactTree, compactMembers_eq, List.map_map]
    refine congrArg mkObject (List.map_congr_left fun m hm => ?_)
    rw [Function.comp_apply, escapeHTML_escapeHTML, ih m hm]

/-- **Compaction is idempotent**: a compacted text is read as the compacted tree, which is written
as the same text. -/
theorem parse_compactTree {raw : Bytes} (h : parse raw = some t) :
    parse (compactTree t).text = some (compactTree t) ∧
      compactTree (compactTree t) = compactTree t := by
  obtain ⟨hwf, hdepth⟩ := wellFormed_of_parse h
  refine ⟨parse_canonical (canonical_compactTree hwf) ?_, compactTree_compactTree hwf⟩
  rw [depth_compactTree hwf]
  exact hdepth

end FeatureFlags.Go.Json
