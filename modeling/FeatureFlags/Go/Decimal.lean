import FeatureFlags.Go.Json

/-!
# Decimal text

Numbers as `strconv` and `time` write and read them.

* `decimal`, `decimalInt`: without leading zeros; `padded`: at least so many digits.
* `digitsValue`: the number that a text of digits denotes, `none` for another text.
* `parseUint`, `parseInt`: `strconv.ParseUint` and `strconv.ParseInt` in base ten.

The results are that reading undoes writing (`digitsValue_decimal`, `digitsValue_padded`,
`parseUint_decimal`, `parseInt_decimalInt`) and that a decimal text is a number of the JSON grammar
(`isNumber_decimal`, `isNumber_decimalInt`).
-/

namespace FeatureFlags.Go

/-! ### Writing -/

/-- The digit `n < 10`. -/
def digitByte (n : Nat) : UInt8 := UInt8.ofNat (0x30 + n)

/-- `decimal` with fuel for the number of digits. -/
def decimalAux : Nat → Nat → Bytes
  | 0, _ => []
  | f + 1, n => if n < 10 then [digitByte n] else decimalAux f (n / 10) ++ [digitByte (n % 10)]

/-- A number without leading zeros. -/
def decimal (n : Nat) : Bytes := decimalAux (n + 1) n

/-- An integer: a minus sign in front of a negative one. -/
def decimalInt (n : Int) : Bytes := if n < 0 then 0x2D :: decimal n.natAbs else decimal n.natAbs

/-- A number with leading zeros up to `width` digits. -/
def padded (width n : Nat) : Bytes :=
  List.replicate (width - (decimal n).length) 0x30 ++ decimal n

/-! ### Reading -/

/-- The number that a text of digits denotes; `none` for the empty text and for any other. -/
def digitsValue (s : Bytes) : Option Nat :=
  if s ≠ [] ∧ s.all Json.isDigit then some (s.foldl (fun n c => n * 10 + (c.toNat - 0x30)) 0)
  else none

/-- `strconv.ParseUint` of a type with values below `bound`. -/
def parseUint (bound : Nat) (s : Bytes) : Option Nat :=
  (digitsValue s).bind fun n => if n < bound then some n else none

/-- The integer that a text of digits with an optional minus sign denotes. -/
def signedValue : Bytes → Option Int
  | [] => none
  | c :: rest =>
    if c = 0x2D then (digitsValue rest).map fun (n : Nat) => -(n : Int)
    else (digitsValue (c :: rest)).map fun (n : Nat) => (n : Int)

/-- `strconv.ParseInt` of a type with values in `[-bound, bound)`, on a text without a plus sign. -/
def parseInt (bound : Nat) (s : Bytes) : Option Int :=
  (signedValue s).bind fun n => if -(bound : Int) ≤ n ∧ n < bound then some n else none

/-! ### Digits -/

theorem toNat_digitByte {n : Nat} (h : n < 10) : (digitByte n).toNat = 0x30 + n := by
  rw [digitByte, UInt8.toNat_ofNat']
  omega

theorem isDigit_iff (c : UInt8) : Json.isDigit c = true ↔ 0x30 ≤ c.toNat ∧ c.toNat ≤ 0x39 := by
  simp [Json.isDigit, UInt8.le_iff_toNat_le]

theorem isDigit_digitByte {n : Nat} (h : n < 10) : Json.isDigit (digitByte n) = true := by
  rw [isDigit_iff, toNat_digitByte h]
  omega

theorem decimalAux_ne_nil (f n : Nat) : decimalAux (f + 1) n ≠ [] := by
  rw [decimalAux]
  split_ifs <;> simp

theorem decimal_ne_nil (n : Nat) : decimal n ≠ [] := decimalAux_ne_nil n n

theorem isDigit_of_mem_decimalAux (f : Nat) :
    ∀ {n : Nat} {c : UInt8}, c ∈ decimalAux f n → Json.isDigit c = true := by
  induction f with
  | zero => intro n c h; cases h
  | succ f ih =>
    intro n c h
    rw [decimalAux] at h
    split_ifs at h with hn
    · rw [List.mem_singleton] at h
      rw [h]
      exact isDigit_digitByte hn
    · rcases List.mem_append.mp h with h | h
      · exact ih h
      · rw [List.mem_singleton] at h
        rw [h]
        exact isDigit_digitByte (Nat.mod_lt n (by decide))

theorem isDigit_of_mem_decimal {n : Nat} {c : UInt8} (h : c ∈ decimal n) : Json.isDigit c = true :=
  isDigit_of_mem_decimalAux (n + 1) h

theorem isDigit_of_mem_padded {width n : Nat} {c : UInt8} (h : c ∈ padded width n) :
    Json.isDigit c = true := by
  rcases List.mem_append.mp h with h | h
  · rw [List.eq_of_mem_replicate h]; decide
  · exact isDigit_of_mem_decimal h

theorem padded_ne_nil (width n : Nat) : padded width n ≠ [] := by
  intro h
  exact decimal_ne_nil n (List.append_eq_nil_iff.mp h).2

/-! ### Reading undoes writing -/

theorem digitsValue_of_digits {s : Bytes} (hne : s ≠ []) (h : ∀ c ∈ s, Json.isDigit c = true) :
    digitsValue s = some (s.foldl (fun n c => n * 10 + (c.toNat - 0x30)) 0) := by
  rw [digitsValue, if_pos ⟨hne, List.all_eq_true.mpr h⟩]

theorem foldl_decimalAux (f : Nat) : ∀ {n : Nat}, n < f →
    (decimalAux f n).foldl (fun n c => n * 10 + (c.toNat - 0x30)) 0 = n := by
  induction f with
  | zero => intro n h; omega
  | succ f ih =>
    intro n h
    rw [decimalAux]
    split_ifs with hn
    · simp [toNat_digitByte hn]
    · have hmod : n % 10 < 10 := Nat.mod_lt n (by decide)
      rw [List.foldl_append, ih (by omega)]
      simp only [List.foldl_cons, List.foldl_nil, toNat_digitByte hmod]
      omega

theorem digitsValue_decimal (n : Nat) : digitsValue (decimal n) = some n := by
  rw [digitsValue_of_digits (decimal_ne_nil n) fun c hc => isDigit_of_mem_decimal hc, decimal,
    foldl_decimalAux (n + 1) (Nat.lt_succ_self n)]

theorem foldl_replicate_zero (k : Nat) :
    (List.replicate k (0x30 : UInt8)).foldl (fun n c => n * 10 + (c.toNat - 0x30)) 0 = 0 := by
  induction k with
  | zero => rfl
  | succ k ih =>
    rw [List.replicate_succ, List.foldl_cons]
    exact ih

theorem digitsValue_padded (width n : Nat) : digitsValue (padded width n) = some n := by
  rw [digitsValue_of_digits (padded_ne_nil width n) fun c hc => isDigit_of_mem_padded hc, padded,
    List.foldl_append, foldl_replicate_zero, decimal, foldl_decimalAux (n + 1) (by omega)]

theorem parseUint_decimal {bound n : Nat} (h : n < bound) :
    parseUint bound (decimal n) = some n := by
  rw [parseUint, digitsValue_decimal]
  exact if_pos h

theorem head_ne_of_isDigit {c : UInt8} (h : Json.isDigit c = true) : c ≠ 0x2D := by
  rintro rfl
  exact absurd h (by decide)

theorem signedValue_decimalInt (n : Int) : signedValue (decimalInt n) = some n := by
  unfold decimalInt
  by_cases hn : n < 0
  · have hneg : -((n.natAbs : Nat) : Int) = n := by omega
    rw [if_pos hn, signedValue, if_pos rfl, digitsValue_decimal, Option.map_some, hneg]
  · obtain ⟨c, rest, hcons⟩ := List.exists_cons_of_ne_nil (decimal_ne_nil n.natAbs)
    have hc : c ≠ 0x2D :=
      head_ne_of_isDigit (isDigit_of_mem_decimal (hcons ▸ List.mem_cons_self))
    have hpos : ((n.natAbs : Nat) : Int) = n := by omega
    rw [if_neg hn, hcons, signedValue, if_neg hc, ← hcons, digitsValue_decimal, Option.map_some,
      hpos]

theorem parseInt_decimalInt {bound : Nat} {n : Int} (h : -(bound : Int) ≤ n ∧ n < bound) :
    parseInt bound (decimalInt n) = some n := by
  rw [parseInt, signedValue_decimalInt]
  exact if_pos h

/-! ### JSON numbers -/

/-- A decimal text is a single zero or starts with another digit. -/
theorem decimalAux_head (f : Nat) : ∀ {n : Nat} {c : UInt8} {rest : Bytes}, n < f →
    decimalAux f n = c :: rest → c = 0x30 → rest = [] := by
  induction f with
  | zero => intro n c rest h; omega
  | succ f ih =>
    intro n c rest hlt h hc
    rw [decimalAux] at h
    split_ifs at h with hn
    · exact (List.cons.inj h).2.symm
    · -- the leading digits are those of `n / 10`, which is not zero
      obtain ⟨c', rest', hcons⟩ := List.exists_cons_of_ne_nil
        (show decimalAux f (n / 10) ≠ [] by
          obtain ⟨f', rfl⟩ : ∃ f', f = f' + 1 := ⟨f - 1, by omega⟩
          exact decimalAux_ne_nil f' _)
      rw [hcons, List.cons_append] at h
      obtain ⟨rfl, -⟩ := List.cons.inj h
      have hrest' := ih (by omega) hcons hc
      have hval := foldl_decimalAux f (n := n / 10) (by omega)
      rw [hcons, hrest', hc] at hval
      have : n / 10 = 0 := hval.symm
      omega

theorem afterInteger_decimal (n : Nat) : Json.afterInteger (decimal n) = some [] := by
  obtain ⟨c, rest, hcons⟩ := List.exists_cons_of_ne_nil (decimal_ne_nil n)
  have hdigit : Json.isDigit c = true := isDigit_of_mem_decimal (hcons ▸ List.mem_cons_self)
  have hrest : rest.dropWhile Json.isDigit = [] := by
    rw [List.dropWhile_eq_nil_iff]
    exact fun d hd => isDigit_of_mem_decimal (hcons ▸ List.mem_cons_of_mem c hd)
  rw [hcons, Json.afterInteger]
  split_ifs with hc
  · rw [decimalAux_head (n + 1) (Nat.lt_succ_self n) hcons hc]
  · rw [Json.afterDigits, if_pos hdigit, hrest]

theorem isNumber_decimal (n : Nat) : Json.isNumber (decimal n) = true := by
  obtain ⟨c, rest, hcons⟩ := List.exists_cons_of_ne_nil (decimal_ne_nil n)
  have hc : c ≠ 0x2D :=
    head_ne_of_isDigit (isDigit_of_mem_decimal (hcons ▸ List.mem_cons_self))
  have hminus : Json.afterMinus (decimal n) = decimal n := by
    rw [hcons, Json.afterMinus, if_neg hc]
  rw [Json.isNumber, hminus, afterInteger_decimal]
  rfl

theorem isNumber_decimalInt (n : Int) : Json.isNumber (decimalInt n) = true := by
  unfold decimalInt
  split_ifs
  · rw [Json.isNumber, Json.afterMinus, if_pos rfl, afterInteger_decimal]
    rfl
  · exact isNumber_decimal _

end FeatureFlags.Go
