import FeatureFlags.Go.Basic

/-!
# `time.Time`

An instant, in nanoseconds since January 1 of year 1 UTC, which is Go's zero time.  `Before`,
`After` and `Equal` compare instants; a `Location` gives the offset of local time at each instant.
-/

namespace FeatureFlags.Go

/-- An instant. -/
structure Time where
  /-- Nanoseconds since the zero time. -/
  nanos : Int
deriving DecidableEq

namespace Time

def isZero (t : Time) : Prop := t.nanos = 0

instance (t : Time) : Decidable t.isZero := inferInstanceAs (Decidable (_ = _))

def before (t u : Time) : Prop := t.nanos < u.nanos

instance (t u : Time) : Decidable (t.before u) := inferInstanceAs (Decidable (_ < _))

def zero : Time := ⟨0⟩

end Time

/-- A time zone. -/
structure Location where
  /-- The offset of local time from UTC at an instant, in seconds. -/
  offset : Time → Int

/-- Seconds of local time since January 1 of year 1. -/
def Time.localSeconds (t : Time) (loc : Location) : Int := t.nanos / 1000000000 + loc.offset t

/-- `t.In(loc).Weekday()`, with Sunday as 0.  January 1 of year 1 is a Monday. -/
def Time.weekday (t : Time) (loc : Location) : Int := (t.localSeconds loc / 86400 + 1) % 7

/-- `t.In(loc).Hour()*60 + t.In(loc).Minute()`. -/
def Time.minuteOfDay (t : Time) (loc : Location) : Int := t.localSeconds loc % 86400 / 60

theorem Time.weekday_mem (t : Time) (loc : Location) : 0 ≤ t.weekday loc ∧ t.weekday loc ≤ 6 := by
  unfold Time.weekday
  omega

theorem Time.minuteOfDay_mem (t : Time) (loc : Location) :
    0 ≤ t.minuteOfDay loc ∧ t.minuteOfDay loc < 1440 := by
  unfold Time.minuteOfDay
  omega

end FeatureFlags.Go
