import FeatureFlags.Go.Json

/-!
# Strings in JSON texts

* `RawText`: a text that can stand between two quotes; `takeRaw` reads exactly these
  (`takeRaw_rawText`, `rawText_of_takeRaw`).
* `rawText_escapeString`, `unquote_escapeString`: what `json.Marshal` writes for a string is such a
  text, and it is read back with invalid bytes replaced.
* `rawText_escapeHTML`, `escapeHTML_escapeHTML`: the escaping of a `json.RawMessage` keeps such
  texts, and once is enough.
-/

namespace FeatureFlags.Go.Json

/-! ### Texts between quotes -/

/-- A text that can stand between two quotes: plain bytes and escapes. -/
inductive RawText : Bytes → Prop
  | nil : RawText []
  | plain {c : UInt8} {rest : Bytes} (hquote : c ≠ 0x22) (hescape : c ≠ 0x5C)
      (hcontrol : ¬ c < 0x20) (h : RawText rest) : RawText (c :: rest)
  | simple {e : UInt8} {rest : Bytes} (he : isSimpleEscape e = true) (h : RawText rest) :
      RawText (0x5C :: e :: rest)
  | unicode {h₁ h₂ h₃ h₄ : UInt8} {rest : Bytes}
      (hex : (isHex h₁ && isHex h₂ && isHex h₃ && isHex h₄) = true) (h : RawText rest) :
      RawText (0x5C :: 0x75 :: h₁ :: h₂ :: h₃ :: h₄ :: rest)

variable {u : Bytes}

namespace RawText

theorem append {v : Bytes} (hu : RawText u) (hv : RawText v) : RawText (u ++ v) := by
  induction hu with
  | nil => exact hv
  | plain h₁ h₂ h₃ _ ih => exact .plain h₁ h₂ h₃ ih
  | simple he _ ih => exact .simple he ih
  | unicode hex _ ih => exact .unicode hex ih

theorem of_forall (h : ∀ c ∈ u, c ≠ 0x22 ∧ c ≠ 0x5C ∧ ¬ c < 0x20) : RawText u := by
  induction u with
  | nil => exact .nil
  | cons c u ih =>
    obtain ⟨⟨h₁, h₂, h₃⟩, hu⟩ := List.forall_mem_cons.mp h
    exact .plain h₁ h₂ h₃ (ih hu)

/-- Bytes beyond ASCII are plain. -/
theorem of_high (h : ∀ c ∈ u, 0x80 ≤ c) : RawText u := by
  refine of_forall fun c hc => ⟨?_, ?_, fun hlt => ?_⟩
  · rintro rfl; exact absurd (h _ hc) (by decide)
  · rintro rfl; exact absurd (h _ hc) (by decide)
  · exact absurd (UInt8.lt_of_le_of_lt (h c hc) hlt) (by decide)

theorem of_digits (h : ∀ c ∈ u, isDigit c = true) : RawText u := by
  refine of_forall fun c hc => ⟨?_, ?_, fun hlt => ?_⟩
  · rintro rfl; exact absurd (h _ hc) (by decide)
  · rintro rfl; exact absurd (h _ hc) (by decide)
  · have hc' := h c hc
    rw [isDigit, Bool.and_eq_true] at hc'
    exact absurd (UInt8.lt_of_le_of_lt (of_decide_eq_true hc'.1) hlt) (by decide)

end RawText

/-- The text up to the closing quote is read, whatever follows. -/
theorem takeRaw_rawText {raw : Bytes} (h : RawText raw) (rest : Bytes) :
    takeRaw (raw ++ 0x22 :: rest) = some (raw, rest) := by
  induction h with
  | nil => rw [List.nil_append, takeRaw.eq_def]; rfl
  | plain h₁ h₂ h₃ _ ih =>
    rw [List.cons_append, takeRaw.eq_def]
    simp [h₁, h₂, h₃, ih]
  | simple he _ ih =>
    simp only [List.cons_append]
    rw [takeRaw.eq_def]
    simp [he, ih]
  | unicode hex _ ih =>
    have hu : isSimpleEscape 0x75 = false := by decide
    simp only [List.cons_append]
    rw [takeRaw.eq_def]
    simp only [hu, hex, ih]
    rfl

/-- Only such texts are read. -/
theorem rawText_of_takeRaw {s raw rest : Bytes} (h : takeRaw s = some (raw, rest)) :
    RawText raw := by
  fun_induction takeRaw s generalizing raw rest with
  | case1 => cases h
  | case2 => cases h; exact .nil
  | case3 => cases h
  | case4 e rest' he _ ih =>
    obtain ⟨⟨raw', r⟩, hraw', heq⟩ := Option.map_eq_some_iff.mp h
    cases heq
    exact .simple he (ih hraw')
  | case5 h₁ h₂ h₃ h₄ rest'' hex _ _ ih =>
    obtain ⟨⟨raw', r⟩, hraw', heq⟩ := Option.map_eq_some_iff.mp h
    cases heq
    exact .unicode hex (ih hraw')
  | case6 => cases h
  | case7 => cases h
  | case8 => cases h
  | case9 => cases h
  | case10 c rest hquote hescape hcontrol ih =>
    obtain ⟨⟨raw', r⟩, hraw', heq⟩ := Option.map_eq_some_iff.mp h
    cases heq
    exact .plain hquote hescape hcontrol (ih hraw')

theorem rawText_of_isRaw {raw : Bytes} (h : isRaw raw = true) : RawText raw :=
  rawText_of_takeRaw (beq_iff_eq.mp h)

/-! ### Go strings -/

theorem high_of_isTail {b : UInt8} (h : isTail b = true) : 0x80 ≤ b := by
  rw [isTail, Bool.and_eq_true] at h
  exact of_decide_eq_true h.1

theorem high_of_isSecond {a b : UInt8} (h : isSecond a b = true) : 0x80 ≤ b := by
  have hmono (lo : UInt8) (hlo : 0x80 ≤ lo) (hb : decide (lo ≤ b) = true) : 0x80 ≤ b :=
    UInt8.le_trans hlo (of_decide_eq_true hb)
  unfold isSecond at h
  split_ifs at h
  · rw [Bool.and_eq_true] at h; exact hmono 0xA0 (by decide) h.1
  · rw [Bool.and_eq_true] at h; exact hmono 0x80 (by decide) h.1
  · rw [Bool.and_eq_true] at h; exact hmono 0x90 (by decide) h.1
  · rw [Bool.and_eq_true] at h; exact hmono 0x80 (by decide) h.1
  · exact high_of_isTail h

variable {r : Bytes}

/-- The bytes of a rune of more than one byte are beyond ASCII. -/
theorem high_of_isRune {a b : UInt8} (h : IsRune (a :: b :: r)) : ∀ c ∈ a :: b :: r, 0x80 ≤ c := by
  have hw := h.2
  have hfirst (hsize : runeSize a ≠ 1) : 0x80 ≤ a := by
    by_contra hlt
    exact hsize (if_pos (UInt8.not_le.mp hlt))
  simp only [runeWidth, List.length_cons] at hw
  generalize hn : runeSize a = n at hw
  rcases n with _ | _ | _ | _ | _ | n
  · simp at hw
  · simp at hw
  · rcases r with _ | ⟨c, r⟩
    · have hb : isSecond a b = true := by by_contra hb; simp [hb] at hw
      simp [hfirst (by omega), high_of_isSecond hb]
    · simp only [List.length_cons] at hw
      split_ifs at hw
      omega
  · rcases r with _ | ⟨c, _ | ⟨d, r⟩⟩
    · simp at hw
    · have hbc : (isSecond a b && isTail c) = true := by by_contra hbc; simp [hbc] at hw
      rw [Bool.and_eq_true] at hbc
      simp [hfirst (by omega), high_of_isSecond hbc.1, high_of_isTail hbc.2]
    · simp only [List.length_cons] at hw
      split_ifs at hw
      omega
  · rcases r with _ | ⟨c, _ | ⟨d, _ | ⟨e, r⟩⟩⟩
    · simp at hw
    · simp at hw
    · have hbcd : (isSecond a b && isTail c && isTail d) = true := by
        by_contra hbcd; simp [hbcd] at hw
      rw [Bool.and_eq_true, Bool.and_eq_true] at hbcd
      simp [hfirst (by omega), high_of_isSecond hbcd.1.1, high_of_isTail hbcd.1.2,
        high_of_isTail hbcd.2]
    · simp only [List.length_cons] at hw
      split_ifs at hw
      omega
  · simp at hw

variable {c : UInt8}

theorem ascii_of_isRune (h : IsRune [c]) : c < 0x80 := by
  have hw := h.2
  by_contra hge
  have hsize : runeSize c ≠ 1 := by
    rw [runeSize, if_neg hge]
    split_ifs <;> decide
  simp only [runeWidth] at hw
  generalize runeSize c = n at hw hsize
  rcases n with _ | _ | n
  · simp at hw
  · exact hsize rfl
  · simp at hw

theorem isHex_hexDigit {n : Nat} (h : n < 16) : isHex (hexDigit n) = true := by
  revert n
  decide

theorem rawText_escapeByte (c : UInt8) : RawText (escapeByte c) := by
  have hc : c.toNat < 256 := c.toNat_lt
  refine .unicode ?_ .nil
  rw [isHex_hexDigit (n := c.toNat / 16) (by omega), isHex_hexDigit (n := c.toNat % 16) (by omega)]
  decide

/-- What is written for one chunk can stand between quotes. -/
theorem rawText_escapeChunk (h : IsRune r) : RawText (escapeChunk (.rune r)) := by
  match r, h with
  | [], h => exact absurd rfl h.1
  | [c], h =>
    simp only [escapeChunk]
    split_ifs with h₁ h₂ h₃ h₄ h₅ h₆ h₇
    · rcases h₁ with rfl | rfl
      · exact rawText_of_isRaw (by decide)
      · exact rawText_of_isRaw (by decide)
    · exact rawText_of_isRaw (by decide)
    · exact rawText_of_isRaw (by decide)
    · exact rawText_of_isRaw (by decide)
    · exact rawText_of_isRaw (by decide)
    · exact rawText_of_isRaw (by decide)
    · exact rawText_escapeByte c
    · push Not at h₁ h₇
      exact .plain h₁.1 h₁.2 (by simpa using h₇.1) .nil
  | a :: b :: r, h =>
    simp only [escapeChunk]
    split_ifs
    · exact rawText_of_isRaw (by decide)
    · exact rawText_of_isRaw (by decide)
    · exact .of_high (high_of_isRune h)

/-- What is written for a string can stand between quotes. -/
theorem rawText_escapeString (s : Bytes) : RawText (escapeString s) := by
  induction s using chunks_induction with
  | nil => exact .nil
  | bad a rest hc ih =>
    rw [escapeString, hc, List.flatMap_cons]
    exact .append (.of_high (high_of_isRune isRune_replacementRune)) ih
  | rune r rest hr ih =>
    rw [escapeString, chunks_append hr, List.flatMap_cons]
    exact .append (rawText_escapeChunk hr) ih

/-! ### Reading strings back -/

theorem unquoteAux_simple {e : UInt8} (he : e ≠ 0x75) (n : Nat) (x : Bytes) :
    unquoteAux (n + 1) (0x5C :: e :: x) = simpleEscape e :: unquoteAux n x := by
  rw [unquoteAux.eq_def]
  simp [he]

/-- An escape that is no high surrogate stands for itself. -/
theorem unquoteAux_unicode {h₁ h₂ h₃ h₄ : UInt8}
    (hu : ¬ (0xD800 ≤ hexValue4 h₁ h₂ h₃ h₄ ∧ hexValue4 h₁ h₂ h₃ h₄ < 0xDC00)) (n : Nat)
    (x : Bytes) :
    unquoteAux (n + 1) (0x5C :: 0x75 :: h₁ :: h₂ :: h₃ :: h₄ :: x) =
      encodeRune (hexValue4 h₁ h₂ h₃ h₄) ++ unquoteAux n x := by
  rw [unquoteAux, if_pos rfl]
  dsimp only
  rw [if_pos rfl]
  split
  · rw [if_neg fun h => hu ⟨h.1, h.2.1⟩]
  · rfl

/-- A rune that does not start with a backslash stands for itself. -/
theorem unquoteAux_rune {a : UInt8} (ha : a ≠ 0x5C) (hr : IsRune (a :: r)) (n : Nat) (x : Bytes) :
    unquoteAux (n + 1) (a :: r ++ x) = a :: r ++ unquoteAux n x := by
  have hw := runeWidth_append hr x
  rw [List.cons_append] at hw ⊢
  rw [unquoteAux.eq_def]
  dsimp only
  rw [if_neg ha, hw, if_neg (by simp), ← List.cons_append, List.take_left' rfl, List.drop_left' rfl]

theorem hexValue_hexDigit {n : Nat} (h : n < 16) : hexValue (hexDigit n) = n := by
  revert n
  decide

theorem encodeRune_ascii (h : c < 0x80) : encodeRune c.toNat = [c] := by
  have hc : c.toNat < 0x80 := UInt8.lt_iff_toNat_lt.mp h
  rw [encodeRune, if_pos hc, UInt8.ofNat_toNat]

theorem unquoteAux_escapeByte (h : c < 0x80) (n : Nat) (x : Bytes) :
    unquoteAux (n + 1) (escapeByte c ++ x) = c :: unquoteAux n x := by
  have hc : c.toNat < 0x80 := UInt8.lt_iff_toNat_lt.mp h
  have hvalue : hexValue4 0x30 0x30 (hexDigit (c.toNat / 16)) (hexDigit (c.toNat % 16)) =
      c.toNat := by
    rw [hexValue4, hexValue_hexDigit (by omega), hexValue_hexDigit (by omega),
      show hexValue 0x30 = 0 from rfl]
    omega
  simp only [escapeByte, List.cons_append, List.nil_append]
  rw [unquoteAux_unicode (by omega), hvalue, encodeRune_ascii h]
  rfl

/-- What is written for a rune is read as the rune. -/
theorem unquoteAux_escapeChunk (h : IsRune r) (n : Nat) (x : Bytes) :
    unquoteAux (n + 1) (escapeChunk (.rune r) ++ x) = r ++ unquoteAux n x := by
  match r, h with
  | [], h => exact absurd rfl h.1
  | [c], h =>
    have hc : c < 0x80 := ascii_of_isRune h
    simp only [escapeChunk]
    split_ifs with h₁ h₂ h₃ h₄ h₅ h₆ h₇
    · rcases h₁ with rfl | rfl
      · exact unquoteAux_simple (by decide) n x
      · exact unquoteAux_simple (by decide) n x
    · subst h₂; exact unquoteAux_simple (by decide) n x
    · subst h₃; exact unquoteAux_simple (by decide) n x
    · subst h₄; exact unquoteAux_simple (by decide) n x
    · subst h₅; exact unquoteAux_simple (by decide) n x
    · subst h₆; exact unquoteAux_simple (by decide) n x
    · exact unquoteAux_escapeByte hc n x
    · exact unquoteAux_rune (fun h => h₁ (.inr h)) h n x
  | a :: b :: r, h =>
    simp only [escapeChunk]
    split_ifs with h₁ h₂
    · rw [h₁]; exact unquoteAux_unicode (by decide) n x
    · rw [h₂]; exact unquoteAux_unicode (by decide) n x
    · refine unquoteAux_rune ?_ h n x
      rintro rfl
      exact absurd (high_of_isRune h _ List.mem_cons_self) (by decide)

theorem unquoteAux_escapeString (s : Bytes) :
    ∀ n, (chunks s).length ≤ n → unquoteAux n (escapeString s) = sanitize s := by
  induction s using chunks_induction with
  | nil => intro n _; cases n <;> rfl
  | bad a rest hc ih =>
    intro n hn
    rw [hc, List.length_cons] at hn
    obtain ⟨n, rfl⟩ : ∃ n', n = n' + 1 := ⟨n - 1, by omega⟩
    rw [escapeString, sanitize, hc, List.flatMap_cons, List.flatMap_cons, ← sanitize,
      ← ih n (by omega)]
    exact unquoteAux_rune (by decide) isRune_replacementRune n _
  | rune r rest hr ih =>
    intro n hn
    rw [chunks_append hr, List.length_cons] at hn
    obtain ⟨n, rfl⟩ : ∃ n', n = n' + 1 := ⟨n - 1, by omega⟩
    rw [escapeString, chunks_append hr, List.flatMap_cons, sanitize_append hr, ← ih n (by omega)]
    exact unquoteAux_escapeChunk hr n _

theorem escapeChunk_ne_nil (h : IsRune r) : escapeChunk (.rune r) ≠ [] := by
  intro hnil
  have hread := unquoteAux_escapeChunk h 0 []
  rw [hnil] at hread
  exact h.1 (List.append_eq_nil_iff.mp hread.symm).1

theorem length_chunks_le (s : Bytes) : (chunks s).length ≤ (escapeString s).length := by
  induction s using chunks_induction with
  | nil => exact Nat.le_refl 0
  | bad a rest hc ih =>
    rw [escapeString, hc, List.flatMap_cons, List.length_append, List.length_cons, ← escapeString]
    have hpos : 0 < (escapeChunk (.bad a)).length := Nat.zero_lt_succ 2
    omega
  | rune r rest hr ih =>
    rw [escapeString, chunks_append hr, List.flatMap_cons, List.length_append, List.length_cons,
      ← escapeString]
    have hpos : 0 < (escapeChunk (.rune r)).length :=
      List.length_pos_of_ne_nil (escapeChunk_ne_nil hr)
    omega

/-- **Strings are read back** with invalid bytes replaced by U+FFFD. -/
theorem unquote_escapeString (s : Bytes) : unquote (escapeString s) = sanitize s :=
  unquoteAux_escapeString s _ (length_chunks_le s)

/-! ### Escaping texts -/

/-- A byte that `escapeHTML` escapes by itself. -/
def isHTML (c : UInt8) : Prop := c = 0x3C ∨ c = 0x3E ∨ c = 0x26

instance (c : UInt8) : Decidable (isHTML c) := inferInstanceAs (Decidable (_ ∨ _))

/-- The escape of U+2028 or U+2029, given the last byte. -/
def separatorText (e : UInt8) : Bytes := if e = 0xA8 then str "\\u2028" else str "\\u2029"

/-- The text does not complete a leading `0xE2` to U+2028 or U+2029. -/
def NoSeparator (s : Bytes) : Prop := ∀ e rest, s = 0x80 :: e :: rest → e ≠ 0xA8 ∧ e ≠ 0xA9

/-- What `escapeHTML` does to the first byte: it is escaped, it starts a separator, or it is
copied. -/
theorem escapeHTML_cases (c : UInt8) (rest : Bytes) :
    (isHTML c ∧ escapeHTML (c :: rest) = escapeByte c ++ escapeHTML rest) ∨
      (∃ e rest', c = 0xE2 ∧ rest = 0x80 :: e :: rest' ∧ (e = 0xA8 ∨ e = 0xA9) ∧
        escapeHTML (c :: rest) = separatorText e ++ escapeHTML rest') ∨
      (¬ isHTML c ∧ (c = 0xE2 → NoSeparator rest) ∧
        escapeHTML (c :: rest) = c :: escapeHTML rest) := by
  rw [escapeHTML.eq_def]
  dsimp only
  by_cases hc : isHTML c
  · exact .inl ⟨hc, if_pos hc⟩
  rw [if_neg (show ¬ (c = 0x3C ∨ c = 0x3E ∨ c = 0x26) from hc)]
  by_cases hc' : c = 0xE2
  · subst hc'
    rw [if_pos rfl]
    match rest with
    | [] => exact .inr (.inr ⟨hc, fun _ e rest h => (nomatch h), rfl⟩)
    | [_] => exact .inr (.inr ⟨hc, fun _ e rest h => (nomatch h), rfl⟩)
    | d :: e :: rest' =>
      dsimp only
      split_ifs with h₁ h₂
      · obtain ⟨rfl, rfl⟩ := h₁
        exact .inr (.inl ⟨_, rest', rfl, rfl, .inl rfl, rfl⟩)
      · obtain ⟨rfl, rfl⟩ := h₂
        exact .inr (.inl ⟨_, rest', rfl, rfl, .inr rfl, rfl⟩)
      · refine .inr (.inr ⟨hc, fun _ e' rest h => ?_, rfl⟩)
        cases h
        exact ⟨fun h => h₁ ⟨rfl, h⟩, fun h => h₂ ⟨rfl, h⟩⟩
  · rw [if_neg hc']
    exact .inr (.inr ⟨hc, fun h => absurd h hc', rfl⟩)

theorem escapeHTML_copied {rest : Bytes} (h : ¬ isHTML c) (h' : c = 0xE2 → NoSeparator rest) :
    escapeHTML (c :: rest) = c :: escapeHTML rest := by
  rcases escapeHTML_cases c rest with ⟨hc, -⟩ | ⟨e, rest', rfl, rfl, he, -⟩ | ⟨-, -, heq⟩
  · exact absurd hc h
  · rcases he with rfl | rfl
    · exact absurd rfl (h' rfl _ rest' rfl).1
    · exact absurd rfl (h' rfl _ rest' rfl).2
  · exact heq

/-- Bytes that need no escape are copied. -/
theorem escapeHTML_append (h : ∀ c ∈ u, ¬ isHTML c ∧ c ≠ 0xE2) (x : Bytes) :
    escapeHTML (u ++ x) = u ++ escapeHTML x := by
  induction u with
  | nil => rfl
  | cons c u ih =>
    obtain ⟨hc, hu⟩ := List.forall_mem_cons.mp h
    rw [List.cons_append, escapeHTML_copied hc.1 fun h => absurd h hc.2, ih hu, List.cons_append]

theorem escapeByte_plain (h : isHTML c) : ∀ b ∈ escapeByte c, ¬ isHTML b ∧ b ≠ 0xE2 := by
  rcases h with rfl | rfl | rfl <;> decide +kernel

theorem separatorText_plain {e : UInt8} (h : e = 0xA8 ∨ e = 0xA9) :
    ∀ b ∈ separatorText e, ¬ isHTML b ∧ b ≠ 0xE2 := by
  rcases h with rfl | rfl <;> decide +kernel

/-- A byte in front of an escaped text that is no escape stands in front of the text. -/
theorem escapeHTML_eq_cons {s t : Bytes} (h : escapeHTML s = c :: t) (hc : c ≠ 0x5C) :
    ∃ rest, s = c :: rest ∧ escapeHTML rest = t := by
  cases s with
  | nil => cases h
  | cons a rest =>
    rcases escapeHTML_cases a rest with ⟨-, heq⟩ | ⟨e, rest', -, -, he, heq⟩ | ⟨-, -, heq⟩
    · rw [heq] at h
      cases h
      exact absurd rfl hc
    · rw [heq] at h
      rcases he with rfl | rfl
      · cases h; exact absurd rfl hc
      · cases h; exact absurd rfl hc
    · rw [heq] at h
      cases h
      exact ⟨rest, rfl, rfl⟩

theorem NoSeparator.escapeHTML {s : Bytes} (h : NoSeparator s) : NoSeparator (escapeHTML s) := by
  intro e rest heq
  obtain ⟨s₁, rfl, h₁⟩ := escapeHTML_eq_cons heq (by decide)
  have hne (he : e ≠ 0x5C) : e ≠ 0xA8 ∧ e ≠ 0xA9 := by
    obtain ⟨s₂, rfl, -⟩ := escapeHTML_eq_cons h₁ he
    exact h e s₂ rfl
  by_cases he : e = 0x5C
  · subst he; decide
  · exact hne he

/-- **Once is enough**: escaping does nothing to an escaped text. -/
theorem escapeHTML_escapeHTML (s : Bytes) : escapeHTML (escapeHTML s) = escapeHTML s := by
  induction hs : s.length using Nat.strong_induction_on generalizing s with
  | _ n ih =>
    cases s with
    | nil => rfl
    | cons c rest =>
      rw [List.length_cons] at hs
      rcases escapeHTML_cases c rest with
        ⟨hc, heq⟩ | ⟨e, rest', -, rfl, he, heq⟩ | ⟨hc, hsep, heq⟩
      · rw [heq, escapeHTML_append (escapeByte_plain hc), ih _ (by omega) rest rfl]
      · rw [List.length_cons, List.length_cons] at hs
        rw [heq, escapeHTML_append (separatorText_plain he), ih _ (by omega) rest' rfl]
      · rw [heq, escapeHTML_copied hc fun h => (hsep h).escapeHTML, ih _ (by omega) rest rfl]

theorem plain_of_isSimpleEscape {e : UInt8} (h : isSimpleEscape e = true) :
    ¬ isHTML e ∧ e ≠ 0xE2 := by
  constructor
  · rintro (rfl | rfl | rfl) <;> exact absurd h (by decide)
  · rintro rfl; exact absurd h (by decide)

theorem plain_of_isHex (h : isHex c = true) : ¬ isHTML c ∧ c ≠ 0xE2 := by
  constructor
  · rintro (rfl | rfl | rfl) <;> exact absurd h (by decide)
  · rintro rfl; exact absurd h (by decide)

theorem rawText_escapeHTML {raw : Bytes} (h : RawText raw) : RawText (escapeHTML raw) := by
  induction hn : raw.length using Nat.strong_induction_on generalizing raw with
  | _ n ih =>
    cases h with
    | nil => exact .nil
    | @plain c rest hquote hescape hcontrol hrest =>
      rw [List.length_cons] at hn
      rcases escapeHTML_cases c rest with
        ⟨-, heq⟩ | ⟨e, rest', rfl, rfl, he, heq⟩ | ⟨-, -, heq⟩
      · rw [heq]
        exact .append (rawText_escapeByte c) (ih _ (by omega) hrest rfl)
      · have hrest' : RawText rest' := by
          cases hrest with
          | plain _ _ _ hrest => cases hrest with
            | plain _ _ _ hrest => exact hrest
            | simple he' _ | unicode _ _ => simp at he
        rw [List.length_cons, List.length_cons] at hn
        rw [heq]
        refine .append ?_ (ih _ (by omega) hrest' rfl)
        rcases he with rfl | rfl <;> exact rawText_of_isRaw (by decide)
      · rw [heq]
        exact .plain hquote hescape hcontrol (ih _ (by omega) hrest rfl)
    | @simple e rest he hrest =>
      have hu : ∀ c ∈ [0x5C, e], ¬ isHTML c ∧ c ≠ 0xE2 := by
        rw [List.forall_mem_cons, List.forall_mem_singleton]
        exact ⟨by decide, plain_of_isSimpleEscape he⟩
      rw [show 0x5C :: e :: rest = [0x5C, e] ++ rest from rfl, escapeHTML_append hu]
      simp only [List.length_cons] at hn
      exact .simple he (ih _ (by omega) hrest rfl)
    | @unicode h₁ h₂ h₃ h₄ rest hex hrest =>
      have hu : ∀ c ∈ [0x5C, 0x75, h₁, h₂, h₃, h₄], ¬ isHTML c ∧ c ≠ 0xE2 := by
        simp only [Bool.and_eq_true] at hex
        obtain ⟨⟨⟨hx₁, hx₂⟩, hx₃⟩, hx₄⟩ := hex
        simp only [List.forall_mem_cons]
        exact ⟨by decide, by decide, plain_of_isHex hx₁, plain_of_isHex hx₂, plain_of_isHex hx₃,
          plain_of_isHex hx₄, nofun⟩
      rw [show 0x5C :: 0x75 :: h₁ :: h₂ :: h₃ :: h₄ :: rest = [0x5C, 0x75, h₁, h₂, h₃, h₄] ++ rest
        from rfl, escapeHTML_append hu]
      simp only [List.length_cons] at hn
      exact .unicode hex (ih _ (by omega) hrest rfl)

end FeatureFlags.Go.Json
