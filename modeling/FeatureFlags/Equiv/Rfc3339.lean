import FeatureFlags.Go.Rfc3339
import Mathlib.Algebra.Order.Ring.Nat
import Mathlib.Data.List.DropRight

/-!
# Reading back a formatted time

`time.Parse` with `time.RFC3339Nano` undoes `Format` on times in UTC whose year has four digits
(`parseRFC3339_format`).  The steps are those of the text: the calendar (`yearOfDay_spec`,
`monthOfDay_spec`), numbers of a fixed width and the fraction of a second.
-/

namespace FeatureFlags.Go

/-! ### The calendar -/

/-- The estimate of `yearOfDay` is off by one at most. -/
theorem yearOfDay_spec (day : Int) :
    daysBeforeYear (yearOfDay day) ≤ day ∧ day < daysBeforeYear (yearOfDay day + 1) := by
  unfold yearOfDay
  simp only
  split_ifs with hlate hearly
  · unfold daysBeforeYear at *
    omega
  · unfold daysBeforeYear at *
    omega
  · omega

theorem daysBeforeYear_succ (year : Int) :
    daysBeforeYear (year + 1) = daysBeforeYear year + 365 + if isLeap year then 1 else 0 := by
  unfold daysBeforeYear isLeap
  simp only [decide_eq_true_eq]
  split_ifs with hleap
  · omega
  · omega

theorem monthOfDay_spec : ∀ (leap : Bool) (day : Fin (365 + if leap then 1 else 0)),
    monthOfDay leap day < 12 ∧ daysBeforeMonth leap (monthOfDay leap day) ≤ day ∧
      day.val < daysBeforeMonth leap (monthOfDay leap day + 1) := by
  decide +kernel

theorem daysInMonth_le : ∀ (leap : Bool) (month : Fin 12),
    daysBeforeMonth leap (month + 1) ≤ daysBeforeMonth leap month + 31 := by
  decide

namespace ZonedTime

variable (t : ZonedTime)

theorem day_eq : t.day = daysBeforeYear t.year + t.yearDay := by
  have hspec := (yearOfDay_spec t.day).1
  unfold yearDay year
  omega

theorem yearDay_lt : t.yearDay < 365 + if isLeap t.year then 1 else 0 := by
  have hspec := (yearOfDay_spec t.day).2
  have hday := t.day_eq
  have hsucc := daysBeforeYear_succ t.year
  change t.day < daysBeforeYear (t.year + 1) at hspec
  split_ifs at hsucc ⊢ <;> omega

theorem month_spec : t.month ≤ 12 ∧
    daysBeforeMonth (isLeap t.year) (t.month - 1) ≤ t.yearDay ∧
    t.yearDay < daysBeforeMonth (isLeap t.year) t.month := by
  have hspec := monthOfDay_spec (isLeap t.year) ⟨t.yearDay, t.yearDay_lt⟩
  unfold month
  exact ⟨hspec.1, hspec.2.1, hspec.2.2⟩

theorem daySecond_lt : t.daySecond < 86400 := by
  unfold daySecond
  omega

theorem nanosecond_lt : t.nanosecond < 1000000000 := by
  unfold nanosecond
  omega

end ZonedTime

/-! ### Numbers of a fixed width -/

theorem length_decimalAux_le (f : Nat) : ∀ {width n : Nat}, 0 < width → n < 10 ^ width →
    (decimalAux f n).length ≤ width := by
  induction f with
  | zero => intro width n _ _; exact Nat.zero_le _
  | succ f ih =>
    intro width n hpos hn
    rw [decimalAux]
    split_ifs with hsmall
    · exact hpos
    · obtain ⟨w, rfl⟩ : ∃ w, width = w + 1 := ⟨width - 1, by omega⟩
      have hdiv : n / 10 < 10 ^ w := by
        rw [Nat.div_lt_iff_lt_mul (by decide)]
        rwa [Nat.pow_succ] at hn
      -- a number of two digits or more has room for the first of them
      have hw : 0 < w := by
        rcases Nat.eq_zero_or_pos w with rfl | h
        · simp at hn
          omega
        · exact h
      have hrest := ih hw hdiv
      simp only [List.length_append, List.length_singleton]
      omega

variable {n : Nat}

theorem length_padded {width : Nat} (hpos : 0 < width) (hn : n < 10 ^ width) :
    (padded width n).length = width := by
  have hle : (decimal n).length ≤ width := length_decimalAux_le (n + 1) hpos hn
  rw [padded, List.length_append, List.length_replicate]
  omega

/-- A number with so many digits is so large at most. -/
theorem foldl_digits_lt {s : Bytes} (h : ∀ c ∈ s, Json.isDigit c = true) (n : Nat) :
    s.foldl (fun n c => n * 10 + (c.toNat - 0x30)) n < (n + 1) * 10 ^ s.length := by
  induction s generalizing n with
  | nil => simp
  | cons c s ih =>
    obtain ⟨hc, hs⟩ := List.forall_mem_cons.mp h
    have hdigit := (isDigit_iff c).mp hc
    rw [List.foldl_cons, List.length_cons]
    calc s.foldl (fun n c => n * 10 + (c.toNat - 0x30)) (n * 10 + (c.toNat - 0x30))
        < (n * 10 + (c.toNat - 0x30) + 1) * 10 ^ s.length := ih hs _
      _ ≤ (n + 1) * 10 * 10 ^ s.length := Nat.mul_le_mul_right _ (by omega)
      _ = (n + 1) * 10 ^ (s.length + 1) := by rw [Nat.pow_succ, Nat.mul_assoc, Nat.mul_comm 10]

theorem lt_length_padded {width : Nat} (hn : 10 ^ width ≤ n) : width < (padded width n).length := by
  have hdigits : ∀ c ∈ padded width n, Json.isDigit c = true := fun c hc =>
    isDigit_of_mem_padded hc
  have hvalue := digitsValue_padded width n
  rw [digitsValue_of_digits (padded_ne_nil width n) hdigits, Option.some.injEq] at hvalue
  have hlt := foldl_digits_lt hdigits 0
  rw [hvalue, Nat.zero_add, Nat.one_mul] at hlt
  exact (Nat.pow_lt_pow_iff_right (by decide)).mp (Nat.lt_of_le_of_lt hn hlt)

theorem padded_two : ∀ n : Fin 100, padded 2 n = [digitByte (n / 10), digitByte (n % 10)] := by
  decide +kernel

theorem getnum_padded (h : n < 100) (fixed : Bool) (rest : Bytes) :
    getnum fixed (padded 2 n ++ rest) = some (n, rest) := by
  have hhigh : n / 10 < 10 := by omega
  have hlow : n % 10 < 10 := by omega
  rw [padded_two ⟨n, h⟩, List.cons_append, List.cons_append, List.nil_append, getnum,
    if_neg (by rw [isDigit_digitByte hhigh]; simp), if_pos (isDigit_digitByte hlow),
    toNat_digitByte hhigh, toNat_digitByte hlow]
  congr 2
  omega

theorem getYear_padded (h : n < 10000) (rest : Bytes) :
    getYear (padded 4 n ++ rest) = some (n, rest) := by
  have hlength : (padded 4 n).length = 4 := length_padded (by decide) h
  have htake : (padded 4 n ++ rest).take 4 = padded 4 n := List.take_left' hlength
  have hdrop : (padded 4 n ++ rest).drop 4 = rest := List.drop_left' hlength
  rw [getYear, htake, hdrop, digitsValue_padded, if_neg]
  · rfl
  · rw [List.length_append, hlength]
    omega

theorem expect_cons (c : UInt8) (rest : Bytes) : expect c (c :: rest) = some rest := if_pos rfl

/-! ### Fractions -/

/-- Zeros at the end of a text of digits multiply its value. -/
theorem foldl_append_zeros (digits : Bytes) (k : Nat) :
    (digits ++ List.replicate k (0x30 : UInt8)).foldl (fun n c => n * 10 + (c.toNat - 0x30)) 0 =
      digits.foldl (fun n c => n * 10 + (c.toNat - 0x30)) 0 * 10 ^ k := by
  induction k with
  | zero => simp
  | succ k ih =>
    rw [List.replicate_succ', ← List.append_assoc, List.foldl_append, ih]
    simp [Nat.pow_succ, Nat.mul_assoc]

/-- The digits of a fraction, without the zeros at the end. -/
def fractionDigits (n : Nat) : Bytes := (padded 9 n).rdropWhile (· == 0x30)

theorem fractionDigits_append (n : Nat) : ∃ k,
    padded 9 n = fractionDigits n ++ List.replicate k 0x30 := by
  let zeros := (padded 9 n).rtakeWhile (· == 0x30)
  have hzeros : zeros = List.replicate zeros.length 0x30 := by
    refine List.eq_replicate_iff.mpr ⟨rfl, fun c hc => ?_⟩
    simpa using List.mem_rtakeWhile_imp hc
  refine ⟨zeros.length, ?_⟩
  rw [← hzeros]
  exact (List.rdropWhile_append_rtakeWhile ..).symm

theorem formatFraction_eq (h : n ≠ 0) : formatFraction n = 0x2E :: fractionDigits n :=
  if_neg h

theorem isDigit_of_mem_fractionDigits {c : UInt8} (h : c ∈ fractionDigits n) :
    Json.isDigit c = true := by
  obtain ⟨k, hk⟩ := fractionDigits_append n
  exact isDigit_of_mem_padded (hk ▸ List.mem_append_left _ h)

/-- The digits with the zeros that were dropped. -/
theorem fractionDigits_spec (h : n < 10 ^ 9) :
    (fractionDigits n).length ≤ 9 ∧
      (fractionDigits n).foldl (fun n c => n * 10 + (c.toNat - 0x30)) 0 *
        10 ^ (9 - (fractionDigits n).length) = n := by
  obtain ⟨k, hk⟩ := fractionDigits_append n
  have hlength : (padded 9 n).length = 9 := length_padded (by decide) h
  have hvalue := digitsValue_padded 9 n
  rw [digitsValue_of_digits (padded_ne_nil 9 n) fun c hc => isDigit_of_mem_padded hc, hk,
    foldl_append_zeros, Option.some.injEq] at hvalue
  rw [hk, List.length_append, List.length_replicate] at hlength
  refine ⟨by omega, ?_⟩
  rw [show 9 - (fractionDigits n).length = k by omega]
  exact hvalue

theorem fractionDigits_ne_nil (h : n ≠ 0) (hn : n < 10 ^ 9) : fractionDigits n ≠ [] := by
  intro hnil
  have hvalue := (fractionDigits_spec hn).2
  rw [hnil] at hvalue
  simp at hvalue
  exact h hvalue.symm

/-- A fraction is read up to the first byte that is not a digit. -/
theorem getFraction_format (hn : n < 10 ^ 9) {c : UInt8} {rest : Bytes}
    (hc : Json.isDigit c = false) (hpoint : c ≠ 0x2E ∧ c ≠ 0x2C) :
    getFraction (formatFraction n ++ c :: rest) = (n, c :: rest) := by
  by_cases h : n = 0
  · subst h
    rw [formatFraction, if_pos rfl, List.nil_append]
    cases rest with
    | nil => rfl
    | cons d rest => rw [getFraction, if_neg (by simp [hpoint])]
  · obtain ⟨d, digits, hcons⟩ := List.exists_cons_of_ne_nil (fractionDigits_ne_nil h hn)
    have hall : ∀ b ∈ d :: digits, Json.isDigit b = true := fun b hb =>
      isDigit_of_mem_fractionDigits (hcons ▸ hb)
    obtain ⟨hlength, hvalue⟩ := fractionDigits_spec hn
    rw [hcons] at hlength hvalue
    have htake : ((d :: digits) ++ c :: rest).takeWhile Json.isDigit = d :: digits := by
      rw [List.takeWhile_append_of_pos hall, List.takeWhile_cons_of_neg (by simp [hc]),
        List.append_nil]
    have hdrop : ((d :: digits) ++ c :: rest).dropWhile Json.isDigit = c :: rest := by
      rw [List.dropWhile_append_of_pos hall, List.dropWhile_cons_of_neg (by simp [hc])]
    rw [formatFraction_eq h, hcons, List.cons_append, List.cons_append, getFraction,
      if_pos ⟨.inl rfl, hall d List.mem_cons_self⟩, ← List.cons_append]
    simp only [htake, hdrop, List.take_of_length_le hlength,
      digitsValue_of_digits (List.cons_ne_nil d digits) hall, Option.getD_some, hvalue]

/-! ### Offsets -/

/-- An offset starts with a byte that ends a fraction. -/
theorem formatOffset_cons (offset : Int) : ∃ c rest, formatOffset offset = c :: rest ∧
    Json.isDigit c = false ∧ c ≠ 0x2E ∧ c ≠ 0x2C := by
  unfold formatOffset
  split_ifs with h₁ h₂
  · exact ⟨_, _, rfl, by decide⟩
  · exact ⟨_, _, rfl, by decide⟩
  · exact ⟨_, _, rfl, by decide⟩

theorem getOffset_format {offset : Int} (h : (offset.tdiv 60).natAbs < 24 * 60) :
    getOffset (formatOffset offset) = some (offset.tdiv 60 * 60) := by
  unfold formatOffset
  by_cases hzero : offset = 0
  · subst hzero
    rfl
  · rw [if_neg hzero]
    generalize offset.tdiv 60 = minutes at h ⊢
    have hhour : minutes.natAbs / 60 < 100 := by omega
    have hminute : minutes.natAbs % 60 < 100 := by omega
    have hget (n : Nat) (hn : n < 100) :
        getnum true [digitByte (n / 10), digitByte (n % 10)] = some (n, []) := by
      rw [← padded_two ⟨n, hn⟩]
      simpa using getnum_padded hn true []
    have hrange : ¬ (minutes.natAbs / 60 > 24 ∨ minutes.natAbs % 60 > 60) := by omega
    rw [padded_two ⟨_, hhour⟩, padded_two ⟨_, hminute⟩]
    simp only [List.cons_append, List.nil_append, getOffset, hget _ hhour, hget _ hminute,
      Option.bind_eq_bind, Option.bind_some, if_neg hrange]
    by_cases hneg : minutes < 0
    · simp [hneg, -Nat.cast_natAbs]
      omega
    · simp [hneg, -Nat.cast_natAbs]
      omega

/-! ### Times -/

theorem parseRFC3339_of_parts {text rest : Bytes} {year month monthDay hour minute second : Nat}
    {nanosecond : Nat} {offset : Int} {s₁ s₂ s₃ s₄ s₅ s₆ : Bytes}
    (hyear : getYear text = some (year, 0x2D :: s₁))
    (hmonth : getnum true s₁ = some (month, 0x2D :: s₂))
    (hmonthDay : getnum true s₂ = some (monthDay, 0x54 :: s₃))
    (hhour : getnum false s₃ = some (hour, 0x3A :: s₄))
    (hminute : getnum true s₄ = some (minute, 0x3A :: s₅))
    (hsecond : getnum true s₅ = some (second, s₆))
    (hfraction : getFraction s₆ = (nanosecond, rest)) (hoffset : getOffset rest = some offset)
    (hmonth_le : 1 ≤ month ∧ month ≤ 12) (hclock : hour < 24 ∧ minute < 60 ∧ second < 60)
    (hday : 1 ≤ monthDay ∧ daysBeforeMonth (isLeap year) (month - 1) + monthDay ≤
      daysBeforeMonth (isLeap year) month) :
    parseRFC3339 text =
      some ⟨ofCivil year month monthDay hour minute second nanosecond offset, offset⟩ := by
  have hmonth_ok : ¬ (month < 1 ∨ 12 < month) := by omega
  have hhour_ok : ¬ 24 ≤ hour := by omega
  have hminute_ok : ¬ 60 ≤ minute := by omega
  have hsecond_ok : ¬ 60 ≤ second := by omega
  have hday_ok : ¬ (monthDay < 1 ∨ daysBeforeMonth (isLeap year) month <
      daysBeforeMonth (isLeap year) (month - 1) + monthDay) := by
    omega
  unfold parseRFC3339
  refine Option.bind_eq_some_iff.mpr ⟨_, hyear, ?_⟩
  refine Option.bind_eq_some_iff.mpr ⟨_, expect_cons 0x2D s₁, ?_⟩
  refine Option.bind_eq_some_iff.mpr ⟨_, hmonth, ?_⟩
  refine (if_neg hmonth_ok).trans (Option.bind_eq_some_iff.mpr ⟨_, expect_cons 0x2D s₂, ?_⟩)
  refine Option.bind_eq_some_iff.mpr ⟨_, hmonthDay, ?_⟩
  refine Option.bind_eq_some_iff.mpr ⟨_, expect_cons 0x54 s₃, ?_⟩
  refine Option.bind_eq_some_iff.mpr ⟨_, hhour, ?_⟩
  refine (if_neg hhour_ok).trans (Option.bind_eq_some_iff.mpr ⟨_, expect_cons 0x3A s₄, ?_⟩)
  refine Option.bind_eq_some_iff.mpr ⟨_, hminute, ?_⟩
  refine (if_neg hminute_ok).trans (Option.bind_eq_some_iff.mpr ⟨_, expect_cons 0x3A s₅, ?_⟩)
  refine Option.bind_eq_some_iff.mpr ⟨_, hsecond, ?_⟩
  refine (if_neg hsecond_ok).trans ?_
  rw [hfraction]
  refine Option.bind_eq_some_iff.mpr ⟨_, hoffset, ?_⟩
  exact if_neg hday_ok

/-- The local date and time of an instant, read with another offset. -/
theorem ZonedTime.ofCivil_eq (t : ZonedTime) (offset : Int) :
    ofCivil t.year t.month t.monthDay (t.daySecond / 3600) (t.daySecond / 60 % 60)
        (t.daySecond % 60) t.nanosecond offset =
      ⟨t.time.nanos + (t.offset - offset) * 1000000000⟩ := by
  obtain ⟨-, hfirst, -⟩ := t.month_spec
  have hmonthDay : t.monthDay =
      t.yearDay - daysBeforeMonth (isLeap t.year) (t.month - 1) + 1 := rfl
  have hday := t.day_eq
  have hnanos : t.time.nanos = (t.day * 86400 + t.daySecond - t.offset) * 1000000000 +
      t.nanosecond := by
    unfold ZonedTime.day ZonedTime.daySecond ZonedTime.nanosecond ZonedTime.localSeconds
    omega
  rw [ofCivil]
  congr 1
  omega

/-- The text of a time, with its parts in the order in which they are read. -/
theorem formatRFC3339Nano_eq (t : ZonedTime) :
    formatRFC3339Nano t = formatYear t.year ++ 0x2D :: (padded 2 t.month ++
      0x2D :: (padded 2 t.monthDay ++ 0x54 :: (padded 2 (t.daySecond / 3600) ++
      0x3A :: (padded 2 (t.daySecond / 60 % 60) ++ 0x3A :: (padded 2 (t.daySecond % 60) ++
      (formatFraction t.nanosecond ++ formatOffset t.offset)))))) := by
  simp only [formatRFC3339Nano, List.append_assoc, List.cons_append]

theorem ZonedTime.monthDay_lt (t : ZonedTime) : t.monthDay < 100 := by
  obtain ⟨hmonth, hfirst, hlast⟩ := t.month_spec
  have hmonth_pos : 1 ≤ t.month := Nat.succ_pos _
  have hdays := daysInMonth_le (isLeap t.year) ⟨t.month - 1, by omega⟩
  simp only [show t.month - 1 + 1 = t.month by omega] at hdays
  unfold ZonedTime.monthDay
  omega

/-- What `Parse` reads from a formatted time: the offset without its seconds, and the same local
time. -/
theorem parseRFC3339_format (t : ZonedTime) (hyear : 0 ≤ t.year) (hyear' : t.year ≤ 9999)
    (hoffset : (t.offset.tdiv 60).natAbs < 24 * 60) :
    parseRFC3339 (formatRFC3339Nano t) =
      some ⟨⟨t.time.nanos + (t.offset - t.offset.tdiv 60 * 60) * 1000000000⟩,
        t.offset.tdiv 60 * 60⟩ := by
  obtain ⟨hmonth, hfirst, hlast⟩ := t.month_spec
  have hmonth_pos : 1 ≤ t.month := Nat.succ_pos _
  have hsecond := t.daySecond_lt
  have hyear_lt : t.year.natAbs < 10000 := by omega
  have hyear_eq : ((t.year.natAbs : Nat) : Int) = t.year := by omega
  have hmonthDay : t.monthDay =
      t.yearDay - daysBeforeMonth (isLeap t.year) (t.month - 1) + 1 := rfl
  have hdays := daysInMonth_le (isLeap t.year) ⟨t.month - 1, by omega⟩
  simp only [show t.month - 1 + 1 = t.month by omega] at hdays
  obtain ⟨c, rest, hcons, hdigit, hpoint⟩ := formatOffset_cons t.offset
  have hformat : formatYear t.year = padded 4 t.year.natAbs := by
    rw [formatYear, if_neg (by omega)]
  rw [formatRFC3339Nano_eq, hformat, hcons, parseRFC3339_of_parts (getYear_padded hyear_lt _)
    (getnum_padded (by omega) true _) (getnum_padded t.monthDay_lt true _)
    (getnum_padded (by omega) false _) (getnum_padded (by omega) true _)
    (getnum_padded (by omega) true _) (getFraction_format t.nanosecond_lt hdigit hpoint)
    (hcons ▸ getOffset_format hoffset) ⟨hmonth_pos, hmonth⟩ (by omega)
    (by rw [hyear_eq]; omega), hyear_eq, t.ofCivil_eq]

theorem year_of_parseRFC3339_format {t u : ZonedTime}
    (h : parseRFC3339 (formatRFC3339Nano t) = some u) : 0 ≤ t.year ∧ t.year ≤ 9999 := by
  obtain ⟨⟨year, s⟩, hyear, h⟩ := Option.bind_eq_some_iff.mp h
  obtain ⟨s', hexpect, -⟩ := Option.bind_eq_some_iff.mp h
  obtain ⟨rest, htext⟩ : ∃ rest, formatRFC3339Nano t = formatYear t.year ++ rest := by
    simp only [formatRFC3339Nano, List.append_assoc]
    exact ⟨_, rfl⟩
  rw [htext, getYear] at hyear
  split_ifs at hyear with hlength
  obtain ⟨n, hvalue, heq⟩ := Option.map_eq_some_iff.mp hyear
  obtain ⟨rfl, rfl⟩ := Prod.mk.inj heq
  by_contra hrange
  rcases lt_or_ge t.year 0 with hneg | hpos
  · -- the minus sign is no digit
    rw [formatYear, if_pos hneg] at hvalue
    simp [digitsValue, Json.isDigit] at hvalue
  · -- the fifth digit stands where the first hyphen should be
    have hlong : 4 < (padded 4 t.year.natAbs).length := lt_length_padded (by omega)
    rw [formatYear, if_neg (by omega), List.drop_append_of_le_length (by omega)] at hexpect
    obtain ⟨c, digits, hdrop⟩ := List.exists_cons_of_ne_nil
      (List.ne_nil_of_length_pos (by rw [List.length_drop]; omega) :
        (padded 4 t.year.natAbs).drop 4 ≠ [])
    have hmem : c ∈ (padded 4 t.year.natAbs).drop 4 := by
      rw [hdrop]
      exact List.mem_cons_self
    have hc : Json.isDigit c = true := isDigit_of_mem_padded (List.mem_of_mem_drop hmem)
    rw [hdrop, List.cons_append, expect] at hexpect
    split_ifs at hexpect with hhyphen
    rw [hhyphen] at hc
    exact absurd hc (by decide)

/-! ### Different times have different texts -/

theorem digits_append_inj {c : UInt8} (hc : Json.isDigit c = false) {l l' r r' : Bytes}
    (hl : ∀ d ∈ l, Json.isDigit d = true) (hl' : ∀ d ∈ l', Json.isDigit d = true)
    (h : l ++ c :: r = l' ++ c :: r') : l = l' ∧ r = r' := by
  have htake {l : Bytes} (hl : ∀ d ∈ l, Json.isDigit d = true) (r : Bytes) :
      (l ++ c :: r).takeWhile Json.isDigit = l := by
    rw [List.takeWhile_append_of_pos hl, List.takeWhile_cons_of_neg (by simp [hc]), List.append_nil]
  have heq : l = l' := by rw [← htake hl r, h, htake hl' r']
  subst heq
  exact ⟨rfl, (List.cons.inj (List.append_cancel_left h)).2⟩

/-- The year ends before the first hyphen after its digits. -/
theorem formatYear_append_inj {year year' : Int} {r r' : Bytes}
    (h : formatYear year ++ 0x2D :: r = formatYear year' ++ 0x2D :: r') :
    year = year' ∧ r = r' := by
  have hdigits (n : Nat) : ∀ d ∈ padded 4 n, Json.isDigit d = true := fun d hd =>
    isDigit_of_mem_padded hd
  have hinj {m n : Nat} {r r' : Bytes} (h : padded 4 m ++ 0x2D :: r = padded 4 n ++ 0x2D :: r') :
      m = n ∧ r = r' := by
    obtain ⟨hpadded, hr⟩ := digits_append_inj (by decide) (hdigits m) (hdigits n) h
    have hvalue := congrArg digitsValue hpadded
    rw [digitsValue_padded, digitsValue_padded] at hvalue
    exact ⟨Option.some.inj hvalue, hr⟩
  -- a minus sign is not the first digit of a year
  have hsign {n : Nat} {r r' : Bytes} (h : 0x2D :: r = padded 4 n ++ r') : False := by
    obtain ⟨d, l, hl⟩ := List.exists_cons_of_ne_nil (padded_ne_nil 4 n)
    have hd : Json.isDigit d = true := hdigits n d (by rw [hl]; exact List.mem_cons_self)
    rw [hl, List.cons_append, List.cons.injEq] at h
    rw [← h.1] at hd
    exact absurd hd (by decide)
  unfold formatYear at h
  split_ifs at h with hneg hneg' hneg'
  · obtain ⟨hyear, hr⟩ := hinj (List.cons.inj h).2
    exact ⟨by omega, hr⟩
  · exact (hsign h).elim
  · exact (hsign h.symm).elim
  · obtain ⟨hyear, hr⟩ := hinj h
    exact ⟨by omega, hr⟩

theorem padded_two_append_inj {m : Nat} {r r' : Bytes} (hm : m < 100) (hn : n < 100)
    (h : padded 2 m ++ r = padded 2 n ++ r') : m = n ∧ r = r' := by
  have hread := getnum_padded hm true r
  rw [h, getnum_padded hn true r', Option.some.injEq, Prod.mk.injEq] at hread
  exact ⟨hread.1.symm, hread.2.symm⟩

/-- **A text in UTC determines the time**, whatever the year. -/
theorem formatRFC3339Nano_injective {t u : Time}
    (h : formatRFC3339Nano ⟨t, 0⟩ = formatRFC3339Nano ⟨u, 0⟩) : t = u := by
  have hmonth (t : ZonedTime) : t.month < 100 := Nat.lt_of_le_of_lt t.month_spec.1 (by decide)
  have hclock (t : ZonedTime) : t.daySecond / 3600 < 100 ∧ t.daySecond / 60 % 60 < 100 ∧
      t.daySecond % 60 < 100 := by
    have hsecond := t.daySecond_lt
    omega
  have htime (t : Time) : t = ofCivil (ZonedTime.year ⟨t, 0⟩) (ZonedTime.month ⟨t, 0⟩)
      (ZonedTime.monthDay ⟨t, 0⟩) (ZonedTime.daySecond ⟨t, 0⟩ / 3600)
      (ZonedTime.daySecond ⟨t, 0⟩ / 60 % 60) (ZonedTime.daySecond ⟨t, 0⟩ % 60)
      (ZonedTime.nanosecond ⟨t, 0⟩) 0 := by
    rw [ZonedTime.ofCivil_eq]
    simp
  rw [formatRFC3339Nano_eq, formatRFC3339Nano_eq] at h
  obtain ⟨hyear, h⟩ := formatYear_append_inj h
  obtain ⟨hmonth, h⟩ := padded_two_append_inj (hmonth _) (hmonth _) h
  obtain ⟨hday, h⟩ := padded_two_append_inj (ZonedTime.monthDay_lt _) (ZonedTime.monthDay_lt _)
    (List.cons.inj h).2
  obtain ⟨hhour, h⟩ := padded_two_append_inj (hclock _).1 (hclock _).1 (List.cons.inj h).2
  obtain ⟨hminute, h⟩ := padded_two_append_inj (hclock _).2.1 (hclock _).2.1 (List.cons.inj h).2
  obtain ⟨hsecond, h⟩ := padded_two_append_inj (hclock _).2.2 (hclock _).2.2 (List.cons.inj h).2
  obtain ⟨c, rest, hcons, hdigit, hpoint⟩ := formatOffset_cons 0
  have hread (t : ZonedTime) : getFraction (formatFraction t.nanosecond ++ formatOffset 0) =
      (t.nanosecond, formatOffset 0) := by
    rw [hcons]
    exact getFraction_format t.nanosecond_lt hdigit hpoint
  have hnano : ZonedTime.nanosecond ⟨t, 0⟩ = ZonedTime.nanosecond ⟨u, 0⟩ := by
    have hfraction := hread ⟨t, 0⟩
    rw [h, hread] at hfraction
    exact (Prod.mk.inj hfraction).1.symm
  rw [htime t, htime u, hyear, hmonth, hday, hhour, hminute, hsecond, hnano]

end FeatureFlags.Go
