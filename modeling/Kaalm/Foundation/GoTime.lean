import Mathlib.Algebra.Order.Group.Unbundled.Int

/-!
# Instants and durations of Go

An instant is a 64-bit number of seconds since the year 1 and the nanoseconds in the second. A
duration is a 64-bit number of nanoseconds, so that two instants can be further apart than any
duration: `sub` then gives the largest or the smallest one. Other arithmetic on 64-bit numbers wraps
around, the conversion of a Unix time into an instant and the negation of a duration included.
-/

namespace GoTime

/-- The numbers of 64 bits with a sign. -/
def InInt64 (x : ℤ) : Prop := -9223372036854775808 ≤ x ∧ x ≤ 9223372036854775807

/-- What a result is in 64 bits. -/
def wrap (x : ℤ) : ℤ := (x + 9223372036854775808) % 18446744073709551616 - 9223372036854775808

theorem inInt64_wrap (x : ℤ) : InInt64 (wrap x) := by
  rw [InInt64, wrap]
  omega

theorem wrap_of_inInt64 {x : ℤ} (h : InInt64 x) : wrap x = x := by
  rw [InInt64] at h
  rw [wrap]
  omega

structure Instant where
  /-- Since the year 1. -/
  sec : ℤ
  nsec : ℤ
  inInt64_sec : InInt64 sec
  nsec_range : 0 ≤ nsec ∧ nsec < 1000000000

/-- The Unix epoch in seconds since the year 1. -/
def unixToInternal : ℤ := 62135596800

/-- The nanoseconds since the Unix epoch, before which they are negative. -/
def Instant.nanos (t : Instant) : ℤ := (t.sec - unixToInternal) * 1000000000 + t.nsec

/-- `time.Unix` of a number of seconds. -/
def unix (sec : ℤ) : Instant := ⟨wrap (sec + unixToInternal), 0, inInt64_wrap _, by decide⟩

def minDuration : ℤ := -9223372036854775808

def maxDuration : ℤ := 9223372036854775807

def Instant.sub (t u : Instant) : ℤ := max minDuration (min maxDuration (t.nanos - u.nanos))

/-- The sign of a duration is dropped as code does it that negates the negative ones. -/
def absDuration (d : ℤ) : ℤ := if d < 0 then wrap (-d) else d

theorem absDuration_of_lt {d : ℤ} (hmin : minDuration < d) (hmax : d ≤ maxDuration) :
    absDuration d = |d| := by
  rw [minDuration] at hmin
  rw [maxDuration] at hmax
  rw [absDuration]
  split_ifs with hneg
  · have hwrap : wrap (-d) = -d := wrap_of_inInt64 ⟨by omega, by omega⟩
    rw [hwrap, abs_of_neg hneg]
  · exact (abs_of_nonneg (not_lt.mp hneg)).symm

/-- Without an underflow, a difference that is not too long is the exact one. -/
theorem abs_nanos_le_of_sub {t u : Instant} {limit : ℤ} (hlimit : limit < maxDuration)
    (hmin : minDuration < t.nanos - u.nanos) (h : absDuration (t.sub u) ≤ limit) :
    |t.nanos - u.nanos| ≤ limit := by
  rcases le_or_gt (t.nanos - u.nanos) maxDuration with hle | hgt
  · have hsub : t.sub u = t.nanos - u.nanos := by
      rw [Instant.sub, min_eq_right hle, max_eq_right hmin.le]
    rwa [hsub, absDuration_of_lt hmin hle] at h
  · have hsub : t.sub u = maxDuration := by
      rw [Instant.sub, min_eq_left hgt.le]
      decide
    have habs : absDuration maxDuration = maxDuration := by decide
    rw [hsub, habs] at h
    exact absurd hlimit (not_lt.mpr h)

end GoTime
