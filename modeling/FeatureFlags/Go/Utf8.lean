import FeatureFlags.Go.Basic

/-!
# UTF-8

`chunks` splits a byte string the way `unicode/utf8` decodes it: the longest valid encodings of one
rune, and single bytes that start none.  Validity (`ValidString`) and the replacement of invalid
bytes by U+FFFD (`sanitize`, what `encoding/json` does to every string it writes) are both read off
the chunks, and `chunks_append` is the one induction the rest of the development needs.
-/

namespace FeatureFlags.Go

/-! ### One rune -/

/-- The width announced by a leading byte; `0` for a byte that starts no encoding. -/
def runeSize (a : UInt8) : Nat :=
  if a < 0x80 then 1
  else if 0xC2 ≤ a ∧ a ≤ 0xDF then 2
  else if 0xE0 ≤ a ∧ a ≤ 0xEF then 3
  else if 0xF0 ≤ a ∧ a ≤ 0xF4 then 4
  else 0

/-- A continuation byte. -/
def isTail (b : UInt8) : Bool := 0x80 ≤ b && b ≤ 0xBF

/-- The second byte allowed after `a`: this is where overlong forms, surrogates and runes above
U+10FFFF are refused. -/
def isSecond (a b : UInt8) : Bool :=
  if a = 0xE0 then 0xA0 ≤ b && b ≤ 0xBF
  else if a = 0xED then 0x80 ≤ b && b ≤ 0x9F
  else if a = 0xF0 then 0x90 ≤ b && b ≤ 0xBF
  else if a = 0xF4 then 0x80 ≤ b && b ≤ 0x8F
  else isTail b

/-- The width of the valid encoding at the head of `s`, `0` if there is none. -/
def runeWidth (s : Bytes) : Nat :=
  match s with
  | [] => 0
  | a :: rest =>
    match runeSize a, rest with
    | 1, _ => 1
    | 2, b :: _ => if isSecond a b then 2 else 0
    | 3, b :: c :: _ => if isSecond a b && isTail c then 3 else 0
    | 4, b :: c :: d :: _ => if isSecond a b && isTail c && isTail d then 4 else 0
    | _, _ => 0

/-- The valid encoding of exactly one rune. -/
def IsRune (r : Bytes) : Prop := r ≠ [] ∧ runeWidth r = r.length

instance (r : Bytes) : Decidable (IsRune r) := inferInstanceAs (Decidable (_ ∧ _))

theorem runeWidth_le (s : Bytes) : runeWidth s ≤ s.length := by
  unfold runeWidth
  split
  · exact Nat.zero_le _
  · split <;> try split_ifs
    all_goals simp only [List.length_cons]; omega

/-- What follows a rune does not change how it is read. -/
theorem runeWidth_append {r : Bytes} (h : IsRune r) (s : Bytes) :
    runeWidth (r ++ s) = r.length := by
  obtain ⟨hne, hw⟩ := h
  rw [← hw]
  cases r with
  | nil => exact absurd rfl hne
  | cons a rest =>
    have hpos : runeWidth (a :: rest) ≠ 0 := by
      rw [hw]
      exact Nat.succ_ne_zero _
    simp only [runeWidth, List.cons_append] at hpos ⊢
    generalize runeSize a = n at hpos ⊢
    match n, rest with
    | 0, _ => simp at hpos
    | 1, _ => rfl
    | 2, [] => simp at hpos
    | 2, _ :: _ => rfl
    | 3, [] => simp at hpos
    | 3, [_] => simp at hpos
    | 3, _ :: _ :: _ => rfl
    | 4, [] => simp at hpos
    | 4, [_] => simp at hpos
    | 4, [_, _] => simp at hpos
    | 4, _ :: _ :: _ :: _ => rfl
    | _ + 5, _ => simp at hpos

variable {s : Bytes}

theorem isRune_take (h : runeWidth s ≠ 0) : IsRune (s.take (runeWidth s)) := by
  have hlen : (s.take (runeWidth s)).length = runeWidth s := by
    rw [List.length_take, Nat.min_eq_left (runeWidth_le s)]
  refine ⟨fun hnil => h ?_, ?_⟩
  · rw [← hlen, hnil, List.length_nil]
  · rw [hlen]
    cases s with
    | nil => exact absurd rfl h
    | cons a rest =>
      simp only [runeWidth] at h ⊢
      generalize hn : runeSize a = n at h ⊢
      match n, rest with
      | 0, _ => simp at h
      | 1, _ => simp [hn]
      | 2, [] => simp at h
      | 2, b :: _ =>
        simp only [ne_eq, ite_eq_right_iff, Classical.not_imp] at h
        simp [h.1, hn]
      | 3, [] => simp at h
      | 3, [_] => simp at h
      | 3, b :: c :: _ =>
        simp only [ne_eq, ite_eq_right_iff, Classical.not_imp] at h
        simp [h.1, hn]
      | 4, [] => simp at h
      | 4, [_] => simp at h
      | 4, [_, _] => simp at h
      | 4, b :: c :: d :: _ =>
        simp only [ne_eq, ite_eq_right_iff, Classical.not_imp] at h
        simp [h.1, hn]
      | _ + 5, _ => simp at h

/-- A byte below `0x80` is a rune by itself. -/
theorem isRune_ascii {b : UInt8} (h : b < 0x80) : IsRune [b] := by
  refine ⟨List.cons_ne_nil _ _, ?_⟩
  simp [runeWidth, runeSize, h]

/-! ### Chunks -/

/-- A piece of a byte string as `utf8.DecodeRune` reads it. -/
inductive Chunk where
  /-- A valid encoding. -/
  | rune (bytes : Bytes)
  /-- A byte that starts no valid encoding. -/
  | bad (b : UInt8)
deriving DecidableEq

/-- U+FFFD, the replacement character. -/
def replacementRune : Bytes := [0xEF, 0xBF, 0xBD]

/-- The chunk with an invalid byte replaced by U+FFFD. -/
def Chunk.repaired : Chunk → Bytes
  | .rune bytes => bytes
  | .bad _ => replacementRune

/-- `chunks`, given at least as much fuel as there are bytes. -/
def chunksAux : Nat → Bytes → List Chunk
  | 0, _ => []
  | _ + 1, [] => []
  | n + 1, a :: rest =>
    let w := runeWidth (a :: rest)
    if w = 0 then .bad a :: chunksAux n rest
    else .rune ((a :: rest).take w) :: chunksAux n ((a :: rest).drop w)

/-- The chunks of a byte string. -/
def chunks (s : Bytes) : List Chunk := chunksAux s.length s

theorem chunksAux_eq (s : Bytes) : ∀ n, s.length ≤ n → chunksAux n s = chunks s := by
  induction hs : s.length using Nat.strong_induction_on generalizing s with
  | _ k ih =>
    intro n hn
    cases s with
    | nil => cases n <;> rfl
    | cons a rest =>
      obtain ⟨n', rfl⟩ : ∃ n', n = n' + 1 := ⟨n - 1, by simp at hs; omega⟩
      rw [List.length_cons] at hs
      rw [chunks, List.length_cons, chunksAux, chunksAux]
      split_ifs with hw
      · rw [ih rest.length (by omega) rest rfl n' (by omega), chunks]
      · have hdrop : ((a :: rest).drop (runeWidth (a :: rest))).length ≤ rest.length := by
          rw [List.length_drop, List.length_cons]
          omega
        rw [ih _ (by omega) _ rfl n' (by omega), ih _ (by omega) _ rfl rest.length hdrop]

@[simp] theorem chunks_nil : chunks [] = [] := rfl

theorem chunks_bad {a : UInt8} {rest : Bytes} (h : runeWidth (a :: rest) = 0) :
    chunks (a :: rest) = .bad a :: chunks rest := by
  rw [chunks, List.length_cons, chunksAux]
  simp [h, chunks]

/-- A rune in front is the first chunk. -/
theorem chunks_append {r : Bytes} (h : IsRune r) (s : Bytes) :
    chunks (r ++ s) = .rune r :: chunks s := by
  cases r with
  | nil => exact absurd rfl h.1
  | cons a rest =>
    have hw := runeWidth_append h s
    rw [List.cons_append] at hw ⊢
    rw [chunks, List.length_cons, chunksAux]
    rw [hw, if_neg (by simp), ← List.cons_append, List.take_left' rfl, List.drop_left' rfl,
      chunksAux_eq _ _ (by simp)]

/-- The two ways a nonempty byte string starts. -/
theorem chunks_cases (hs : s ≠ []) :
    (∃ a rest, s = a :: rest ∧ chunks s = .bad a :: chunks rest) ∨
      ∃ r rest, s = r ++ rest ∧ IsRune r ∧ chunks s = .rune r :: chunks rest := by
  cases s with
  | nil => exact absurd rfl hs
  | cons a rest =>
    by_cases hw : runeWidth (a :: rest) = 0
    · exact .inl ⟨a, rest, rfl, chunks_bad hw⟩
    · have hsplit := List.take_append_drop (runeWidth (a :: rest)) (a :: rest)
      have hr := isRune_take hw
      refine .inr ⟨_, _, hsplit.symm, hr, ?_⟩
      conv_lhs => rw [← hsplit]
      exact chunks_append hr _

theorem chunks_induction {P : Bytes → Prop} (nil : P [])
    (bad : ∀ a rest, chunks (a :: rest) = .bad a :: chunks rest → P rest → P (a :: rest))
    (rune : ∀ r rest, IsRune r → P rest → P (r ++ rest)) (s : Bytes) : P s := by
  induction hs : s.length using Nat.strong_induction_on generalizing s with
  | _ k ih =>
    by_cases hnil : s = []
    · exact hnil ▸ nil
    · obtain ⟨a, rest, rfl, hc⟩ | ⟨r, rest, rfl, hr, -⟩ := chunks_cases hnil
      · exact bad a rest hc (ih rest.length (by rw [← hs]; simp) rest rfl)
      · refine rune r rest hr (ih rest.length ?_ rest rfl)
        have := List.length_pos_of_ne_nil hr.1
        rw [← hs, List.length_append]
        omega

/-! ### Validity and replacement -/

def ValidString (s : Bytes) : Prop := ∀ c ∈ chunks s, ∃ r, c = .rune r

instance (c : Chunk) : Decidable (∃ r, c = .rune r) :=
  match c with
  | .rune r => isTrue ⟨r, rfl⟩
  | .bad b => isFalse (by rintro ⟨r, h⟩; cases h)

instance (s : Bytes) : Decidable (ValidString s) :=
  inferInstanceAs (Decidable (∀ c ∈ chunks s, _))

/-- Every invalid byte replaced by U+FFFD. -/
def sanitize (s : Bytes) : Bytes := (chunks s).flatMap Chunk.repaired

@[simp] theorem sanitize_nil : sanitize [] = [] := rfl

theorem sanitize_append {r : Bytes} (h : IsRune r) (s : Bytes) :
    sanitize (r ++ s) = r ++ sanitize s := by
  rw [sanitize, chunks_append h, List.flatMap_cons, Chunk.repaired, sanitize]

theorem isRune_replacementRune : IsRune replacementRune := by decide

theorem chunks_sanitize (s : Bytes) :
    chunks (sanitize s) = (chunks s).map fun c => .rune c.repaired := by
  induction s using chunks_induction with
  | nil => rfl
  | bad a rest hc ih =>
    rw [sanitize, hc, List.flatMap_cons, List.map_cons, ← ih]
    exact chunks_append isRune_replacementRune _
  | rune r rest hr ih =>
    rw [sanitize_append hr, chunks_append hr, chunks_append hr, List.map_cons, ih]
    rfl

theorem validString_sanitize (s : Bytes) : ValidString (sanitize s) := by
  intro c hc
  rw [chunks_sanitize, List.mem_map] at hc
  obtain ⟨c', -, rfl⟩ := hc
  exact ⟨_, rfl⟩

theorem validString_append {r : Bytes} (h : IsRune r) (s : Bytes) :
    ValidString (r ++ s) ↔ ValidString s := by
  unfold ValidString
  rw [chunks_append h]
  simp

theorem sanitize_of_valid (h : ValidString s) : sanitize s = s := by
  induction s using chunks_induction with
  | nil => rfl
  | bad a rest hc ih =>
    obtain ⟨r, hr⟩ := h (.bad a) (by rw [hc]; exact List.mem_cons_self ..)
    cases hr
  | rune r rest hr ih => rw [sanitize_append hr, ih ((validString_append hr rest).mp h)]

/-- A string survives the replacement exactly when it is valid. -/
theorem sanitize_eq_self_iff : sanitize s = s ↔ ValidString s :=
  ⟨fun h => h ▸ validString_sanitize s, sanitize_of_valid⟩

/-- Only the empty string is replaced by the empty string. -/
theorem sanitize_eq_nil_iff : sanitize s = [] ↔ s = [] := by
  constructor
  · intro h
    by_contra hs
    obtain ⟨a, rest, rfl, hc⟩ | ⟨r, rest, rfl, hr, -⟩ := chunks_cases hs
    · rw [sanitize, hc] at h
      simp [Chunk.repaired, replacementRune] at h
    · rw [sanitize_append hr, List.append_eq_nil_iff] at h
      exact hr.1 h.1
  · rintro rfl
    rfl

theorem validString_of_ascii (h : ∀ b ∈ s, b < 0x80) : ValidString s := by
  induction s with
  | nil => intro c hc; cases hc
  | cons b s ih =>
    have hb : IsRune [b] := isRune_ascii (h b (List.mem_cons_self ..))
    exact (validString_append hb s).mpr (ih fun c hc => h c (List.mem_cons_of_mem _ hc))

end FeatureFlags.Go
