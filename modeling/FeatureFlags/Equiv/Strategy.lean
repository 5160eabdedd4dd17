import FeatureFlags.Lib.Framing
import FeatureFlags.Strategy
import Mathlib.Algebra.BigOperators.Fin

/-!
# Rollouts and schedules

* `bucketing_unambiguous`: the bytes that `Bucket` hashes determine the seed, the feature, the
  tenant and the subject, and rollouts only grow with the threshold.
* `schedule_matches_iff`: a weekly window is a half-open interval on the circle of the minutes of a
  week.
-/

namespace FeatureFlags

open Go Lib

/-! ### Bucketing -/

/-- The header of a part: the low 32 bits of its length, big-endian. -/
def bucketHeader (n : Nat) : Bytes :=
  [UInt8.ofNat (n % 2 ^ 32 / 2 ^ 24), UInt8.ofNat (n % 2 ^ 32 / 2 ^ 16),
    UInt8.ofNat (n % 2 ^ 32 / 2 ^ 8), UInt8.ofNat (n % 2 ^ 32)]

theorem length_bucketHeader (n : Nat) : (bucketHeader n).length = 4 := rfl

/-- Below 2 ^ 32 the header determines the length. -/
theorem bucketHeader_inj {m n : Nat} (hm : m < 2 ^ 32) (hn : n < 2 ^ 32)
    (h : bucketHeader m = bucketHeader n) : m = n := by
  have hbyte (a b : Nat) (hab : UInt8.ofNat a = UInt8.ofNat b) : a % 256 = b % 256 := by
    have htoNat := congrArg UInt8.toNat hab
    rwa [UInt8.toNat_ofNat', UInt8.toNat_ofNat'] at htoNat
  rw [bucketHeader, bucketHeader, Nat.mod_eq_of_lt hm, Nat.mod_eq_of_lt hn] at h
  obtain ⟨h₁, htail⟩ := List.cons.inj h
  obtain ⟨h₂, htail⟩ := List.cons.inj htail
  obtain ⟨h₃, htail⟩ := List.cons.inj htail
  obtain ⟨h₄, -⟩ := List.cons.inj htail
  have d₁ := hbyte _ _ h₁
  have d₂ := hbyte _ _ h₂
  have d₃ := hbyte _ _ h₃
  have d₄ := hbyte _ _ h₄
  omega

theorem selfDelimiting_bucketPart :
    SelfDelimiting (fun part : Bytes => part.length < 2 ^ 32) bucketPart :=
  selfDelimiting_lengthPrefixed bucketHeader (· < 2 ^ 32) length_bucketHeader fun _ _ =>
    bucketHeader_inj

/-- What a bucket is computed from. -/
@[ext] structure Assignment where
  seed : Bytes
  featureKey : Bytes
  tenant : Bytes
  subject : Bytes
deriving DecidableEq

namespace Assignment

/-- The bytes that are hashed. -/
def input (a : Assignment) : Bytes := bucketInput a.seed a.featureKey a.tenant a.subject

/-- Every part is shorter than 2 ^ 32 bytes. -/
structure Framed (a : Assignment) : Prop where
  seed : a.seed.length < 2 ^ 32
  featureKey : a.featureKey.length < 2 ^ 32
  tenant : a.tenant.length < 2 ^ 32
  subject : a.subject.length < 2 ^ 32

theorem selfDelimiting_input : SelfDelimiting Framed input := by
  have hparts := ((selfDelimiting_bucketPart.append selfDelimiting_bucketPart).append
    selfDelimiting_bucketPart).append selfDelimiting_bucketPart
  have htagged := hparts.tagged (str "go-feature-flags/bucket/v1")
  intro a b ha hb x y heq
  have hinput (c : Assignment) : c.input = str "go-feature-flags/bucket/v1" ++
      (bucketPart c.seed ++ bucketPart c.featureKey ++ bucketPart c.tenant ++
        bucketPart c.subject) := by
    simp only [input, bucketInput, List.append_assoc]
  rw [hinput a, hinput b] at heq
  have hsame := htagged (a := (((a.seed, a.featureKey), a.tenant), a.subject))
    (b := (((b.seed, b.featureKey), b.tenant), b.subject))
    ⟨⟨⟨ha.seed, ha.featureKey⟩, ha.tenant⟩, ha.subject⟩
    ⟨⟨⟨hb.seed, hb.featureKey⟩, hb.tenant⟩, hb.subject⟩ heq
  obtain ⟨hvalues, hxy⟩ := hsame
  simp only [Prod.mk.injEq] at hvalues
  obtain ⟨⟨⟨hseed, hkey⟩, htenant⟩, hsubject⟩ := hvalues
  exact ⟨Assignment.ext hseed hkey htenant hsubject, hxy⟩

end Assignment

/-- The digits of a byte string in base 256, the first one the most significant. -/
theorem foldl_bigEndian (digits : Bytes) (n : Nat) :
    digits.foldl (fun n b => n * 256 + b.toNat) n =
      n * 256 ^ digits.length +
        ∑ i ∈ Finset.range digits.length, (digits.getD i 0).toNat * 256 ^ (digits.length - 1 - i) :=
    by
  induction digits generalizing n with
  | nil => simp
  | cons d digits ih =>
    rw [List.foldl_cons, ih, List.length_cons, Finset.sum_range_succ']
    have hshift (i : Nat) : digits.length + 1 - 1 - (i + 1) = digits.length - 1 - i := by omega
    simp only [List.getD_cons_succ, List.getD_cons_zero, hshift]
    rw [show digits.length + 1 - 1 - 0 = digits.length from by omega]
    ring

/-- The first eight bytes of a digest as a number. -/
theorem bigEndian_eq {digest : Bytes} (h : 8 ≤ digest.length) :
    bigEndian digest = ∑ i ∈ Finset.range 8, (digest.getD i 0).toNat * 256 ^ (7 - i) := by
  have hlength : (digest.take 8).length = 8 := by
    rw [List.length_take]
    omega
  rw [bigEndian, foldl_bigEndian, hlength, Nat.zero_mul, Nat.zero_add]
  refine Finset.sum_congr rfl fun i hi => ?_
  have hlt : i < 8 := Finset.mem_range.mp hi
  rw [List.getD_eq_getElem?_getD, List.getD_eq_getElem?_getD, List.getElem?_take_of_lt hlt]

section Rollout

variable [Runtime]

theorem bucket_lt (seed featureKey tenant subject : Bytes) :
    bucket seed featureKey tenant subject < bucketPrecision :=
  Nat.mod_lt _ (by decide)

/-- Who is in a rollout. -/
theorem PercentageStrategy.matched_iff (s : PercentageStrategy) (input : StrategyInput) :
    (s.evaluateStrategy input).matched = true ↔
      input.context.tenant ≠ [] ∧ input.context.subject ≠ [] ∧
        bucket s.seed input.featureKey input.context.tenant input.context.subject <
          s.threshold.toNat := by
  unfold evaluateStrategy
  split_ifs with h
  · constructor
    · intro hfalse
      cases hfalse
    · rintro ⟨htenant, hsubject, -⟩
      exact absurd h (not_or.mpr ⟨htenant, hsubject⟩)
  · obtain ⟨htenant, hsubject⟩ := not_or.mp h
    simp [htenant, hsubject]

/-- The bytes that are hashed determine what they were made from, a bucket is the first eight bytes
of the digest modulo 100000, and a rollout grows with its threshold until it has everyone. -/
theorem bucketing_unambiguous (digest_length : ∀ data, (Runtime.sha256 data).length = 32) :
    (∀ a b : Assignment, a.Framed → b.Framed →
      (a.input = b.input ↔ a = b) ∧ (a.input <+: b.input → a.input = b.input)) ∧
    (∀ a : Assignment, bucket a.seed a.featureKey a.tenant a.subject =
      (∑ i ∈ Finset.range 8, ((Runtime.sha256 a.input).getD i 0).toNat * 256 ^ (7 - i)) % 100000) ∧
    (∀ (s₁ s₂ : PercentageStrategy) (input : StrategyInput),
      s₁.seed = s₂.seed → s₁.threshold ≤ s₂.threshold → (s₁.evaluateStrategy input).matched = true →
      (s₂.evaluateStrategy input).matched = true) ∧
    (∀ (s : PercentageStrategy) (input : StrategyInput),
      s.threshold = 100000 → input.context.tenant ≠ [] → input.context.subject ≠ [] →
        (s.evaluateStrategy input).matched = true) := by
  refine ⟨fun a b ha hb => ⟨?_, fun hp => ?_⟩, fun a => ?_, fun s₁ s₂ input hseed hle h₁ => ?_,
    fun s input hs htenant hsubject => ?_⟩
  · exact Assignment.selfDelimiting_input.injective ha hb
  · rw [Assignment.selfDelimiting_input.eq_of_prefix ha hb hp]
  · have hlong : 8 ≤ (Runtime.sha256 a.input).length := by
      rw [digest_length]
      decide
    show bigEndian (Runtime.sha256 a.input) % 100000 = _
    rw [bigEndian_eq hlong]
  · rw [PercentageStrategy.matched_iff] at h₁ ⊢
    obtain ⟨htenant, hsubject, hlt⟩ := h₁
    refine ⟨htenant, hsubject, ?_⟩
    rw [← hseed]
    exact lt_of_lt_of_le hlt (UInt32.le_iff_toNat_le.mp hle)
  · rw [PercentageStrategy.matched_iff]
    refine ⟨htenant, hsubject, ?_⟩
    rw [hs]
    exact bucket_lt _ _ _ _

end Rollout

/-- A runtime whose digests have 32 bytes: the data themselves, cut or padded with zeros. -/
@[reducible] def paddingRuntime : Runtime :=
  { unaryRuntime with sha256 := fun data => (data ++ List.replicate 32 0).take 32 }

/-- Moving a byte from one part to the next changes what is hashed. -/
theorem bucketing_unambiguous_split :
    letI := paddingRuntime
    (∀ data, (Runtime.sha256 data).length = 32) ∧
      ¬ (⟨str "a", str "bc", [], []⟩ : Assignment).input <+:
        (⟨str "ab", str "c", [], []⟩ : Assignment).input := by
  let _ := paddingRuntime
  have hlength (data : Bytes) : (Runtime.sha256 data).length = 32 := by
    show ((data ++ List.replicate 32 0).take 32).length = 32
    rw [List.length_take, List.length_append, List.length_replicate]
    omega
  refine ⟨hlength, fun hp => ?_⟩
  have h := (bucketing_unambiguous hlength).1 ⟨str "a", str "bc", [], []⟩
    ⟨str "ab", str "c", [], []⟩ (by constructor <;> decide) (by constructor <;> decide)
  exact absurd (h.1.mp (h.2 hp)) (by decide)

/-! ### Weekly windows -/

/-- What `ScheduleStrategy.ValidateStrategy` asks of a window. -/
structure WeeklyWindow.Valid (w : WeeklyWindow) : Prop where
  weekday_nonneg : 0 ≤ w.weekday
  weekday_le : w.weekday ≤ 6
  start_nonneg : 0 ≤ w.startMinute
  start_lt : w.startMinute < 1440
  end_nonneg : 0 ≤ w.endMinute
  end_le : w.endMinute ≤ 1440
  start_ne_end : w.startMinute ≠ w.endMinute

def WeeklyWindow.length (w : WeeklyWindow) : Int :=
  if w.endMinute > w.startMinute then w.endMinute - w.startMinute
  else w.endMinute - w.startMinute + 1440

/-- The minute of the week that a minute of a day is. -/
def minuteOfWeek (weekday minute : Int) : Int := 1440 * weekday + minute

/-- The case distinction on where a window ends is membership in an interval modulo a week. -/
theorem weeklyWindowMatches_iff {window : WeeklyWindow} (h : window.Valid) {weekday minute : Int}
    (hweekday : 0 ≤ weekday ∧ weekday ≤ 6) (hminute : 0 ≤ minute ∧ minute < 1440) :
    weeklyWindowMatches window weekday minute = true ↔
      (minuteOfWeek weekday minute - minuteOfWeek window.weekday window.startMinute) % 10080 <
        window.length := by
  obtain ⟨h₁, h₂, h₃, h₄, h₅, h₆, h₇⟩ := h
  have hnext : (window.weekday + 1).tmod 7 = (window.weekday + 1) % 7 :=
    Int.tmod_eq_emod_of_nonneg (by omega)
  rcases lt_or_gt_of_ne h₇ with hlt | hgt
  · -- the window ends on its own day
    simp only [weeklyWindowMatches, if_pos hlt, WeeklyWindow.length, minuteOfWeek,
      decide_eq_true_eq]
    omega
  · -- it goes on after midnight, on Saturday into the next week
    simp only [weeklyWindowMatches, if_neg (not_lt_of_gt hgt), if_neg h₇, WeeklyWindow.length,
      minuteOfWeek, hnext]
    split_ifs with hfirst
    · simp only [true_iff]
      omega
    · simp only [decide_eq_true_eq]
      omega

namespace ScheduleStrategy

variable [Runtime] {s : ScheduleStrategy}

/-- An accepted schedule has a known location and valid windows. -/
theorem valid_of_validateStrategy {limits : Limits} (h : s.validateStrategy limits = .ok ()) :
    (∃ location, Runtime.loadLocation s.location = .ok location) ∧
      ∀ window ∈ s.windows, window.Valid := by
  simp only [validateStrategy, bind_eq_ok, rejectIf_eq_ok, mapError_eq_ok, forEach_eq_ok,
    exists_const, not_or] at h
  obtain ⟨-, location, hlocation, -, -, hwindows⟩ := h
  refine ⟨⟨location, hlocation⟩, fun window hmem => ?_⟩
  obtain ⟨index, hindex⟩ := List.mem_iff_getElem?.mp hmem
  have hpair : (window, index) ∈ s.windows.zipIdx := List.mk_mem_zipIdx_iff_getElem?.mpr hindex
  have hchecks := hwindows (window, index) hpair
  dsimp only at hchecks
  obtain ⟨⟨h₁, h₂⟩, h₃, h₄, h₅, h₆, h₇⟩ := hchecks
  constructor <;> omega

end ScheduleStrategy

/-- An accepted schedule matches exactly at the minutes of its windows, each of them a half-open
interval on the circle of the 10080 minutes of a week. -/
theorem schedule_matches_iff [Runtime] {s : ScheduleStrategy} {limits : Limits}
    {input : StrategyInput} (accepted : s.validateStrategy limits = .ok ())
    (timed : ¬ input.context.time.isZero) :
    ∃ location result, Runtime.loadLocation s.location = .ok location ∧
      s.evaluateStrategy input = .ok result ∧
      (result.matched = true ↔ ∃ window ∈ s.windows,
        (minuteOfWeek (input.context.time.weekday location)
            (input.context.time.minuteOfDay location) -
          minuteOfWeek window.weekday window.startMinute) % 10080 < window.length) := by
  obtain ⟨⟨location, hlocation⟩, hvalid⟩ := ScheduleStrategy.valid_of_validateStrategy accepted
  refine ⟨location, ⟨s.windows.any fun window => weeklyWindowMatches window
    (input.context.time.weekday location) (input.context.time.minuteOfDay location),
    .schedule, []⟩, hlocation, ?_, ?_⟩
  · unfold ScheduleStrategy.evaluateStrategy
    rw [if_neg timed, hlocation]
    rfl
  · have hweekday := input.context.time.weekday_mem location
    have hminute := input.context.time.minuteOfDay_mem location
    rw [List.any_eq_true]
    refine exists_congr fun window => and_congr_right fun hmem => ?_
    exact weeklyWindowMatches_iff (hvalid window hmem) hweekday hminute

/-- On Saturdays from 23:00 to 01:00. -/
def saturdayNight : ScheduleStrategy where
  name := str "night"
  variant := str "on"
  location := str "UTC"
  windows := [⟨6, 1380, 60⟩]

/-- Sunday, January 7 of year 1, at 00:30. -/
def sundayMorning : StrategyInput where
  featureKey := str "f"
  context := { Context.empty with time := ⟨520200 * 1000000000⟩ }

/-- The window of Saturday night goes on into the first hour of the next week. -/
theorem schedule_matches_iff_saturdayNight :
    letI := unaryRuntime
    saturdayNight.validateStrategy defaultLimits = .ok () ∧
      ¬ sundayMorning.context.time.isZero ∧
      ∃ result, saturdayNight.evaluateStrategy sundayMorning = .ok result ∧
        result.matched = true := by
  let _ := unaryRuntime
  have haccepted : saturdayNight.validateStrategy defaultLimits = .ok () := by rfl
  have htimed : ¬ sundayMorning.context.time.isZero := by decide
  refine ⟨haccepted, htimed, ?_⟩
  obtain ⟨location, result, hlocation, hresult, hmatched⟩ :=
    schedule_matches_iff haccepted htimed
  obtain rfl : (⟨fun _ => 0⟩ : Location) = location := Except.ok.inj hlocation
  exact ⟨result, hresult, hmatched.mpr ⟨_, List.mem_singleton_self _, by decide⟩⟩

end FeatureFlags
