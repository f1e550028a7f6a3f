import Mathlib.Algebra.Group.Nat.Defs
import Mathlib.Algebra.Order.Group.Int
import Mathlib.Order.Lattice

/-!
# Instants and durations

Go's `time.Time` and `time.Duration`, as far as a program compares and shifts them. Both are
integers here: an instant is a number of nanoseconds since the Unix epoch, a duration a number
of nanoseconds.

`time.Duration` is an `int64` in Go. The places where machine integers show are kept:
multiplying an integer by a unit wraps (`Duration.seconds`), the difference of two instants
saturates (`Time.sub`), and the seconds of a Unix timestamp wrap (`Time.unix`). Adding a duration
to an instant is exact, because the range of `time.Time` is far larger.
-/

namespace GoStd

namespace Duration

/-- `time.Second`. -/
def second : ℤ := 1000000000

/-- `time.Minute`. -/
def minute : ℤ := 60 * second

/-- `time.Hour`. -/
def hour : ℤ := 60 * minute

/-- The smallest `time.Duration`. -/
def minValue : ℤ := -2 ^ 63

/-- The largest `time.Duration`. -/
def maxValue : ℤ := 2 ^ 63 - 1

/-- `time.Duration(n) * time.Second`: the product wraps like every `int64`. -/
def seconds (n : ℤ) : ℤ := (n * second).bmod (2 ^ 64)

end Duration

namespace Time

/-- The zero `time.Time`: January 1, year 1. -/
def zero : ℤ := -62135596800 * Duration.second

/-- The first instant of year 0. -/
def year0 : ℤ := -62167219200 * Duration.second

/-- The first instant of year 10000. -/
def year10000 : ℤ := 253402300800 * Duration.second

/-- `t.Sub(u)`: the difference, saturated at the ends of the range of `time.Duration`. -/
def sub (t u : ℤ) : ℤ := max Duration.minValue (min Duration.maxValue (t - u))

@[simp]
theorem sub_self (t : ℤ) : sub t t = 0 := by
  simp [sub, Duration.minValue, Duration.maxValue]

/-- `time.Unix(sec, 0)`: the seconds are counted from year 1 in an `int64`, so they wrap at its
far end. -/
def unix (sec : Int64) : ℤ :=
  ((sec.toInt + 62135596800).bmod (2 ^ 64) - 62135596800) * Duration.second

/-- Wrapping can only move an instant into the past. -/
theorem unix_le (sec : Int64) : unix sec ≤ sec.toInt * Duration.second := by
  have hlo : -2 ^ 63 ≤ sec.toInt := Int64.le_toInt sec
  have hwrap : (sec.toInt + 62135596800).bmod (2 ^ 64) ≤ sec.toInt + 62135596800 := by
    rw [Int.bmod_def]
    split <;> omega
  unfold unix Duration.second
  omega

/-- A difference below the largest duration is not saturated from above. -/
theorem le_of_sub_le {t u d : ℤ} (hd : d < Duration.maxValue) (h : sub t u ≤ d) : t - u ≤ d := by
  unfold sub at h
  omega

/-- A difference below a duration is the exact one, as far as the upper end goes. -/
theorem lt_of_sub_lt {t u d : ℤ} (hd : d ≤ Duration.maxValue) (h : sub t u < d) : t - u < d := by
  unfold sub at h
  omega

/-- A positive duration that is exceeded is exceeded by the exact difference. -/
theorem lt_of_lt_sub {t u d : ℤ} (hd : 0 < d) (h : d < sub t u) : d < t - u := by
  unfold sub Duration.minValue at h
  omega

/-- A positive duration that is reached is reached by the exact difference. -/
theorem le_of_le_sub {t u d : ℤ} (hd : 0 < d) (h : d ≤ sub t u) : d ≤ t - u := by
  unfold sub Duration.minValue at h
  omega

/-- A later instant is at least as far from a fixed one. -/
theorem sub_le_sub_left {t t' : ℤ} (h : t ≤ t') (u : ℤ) : sub t u ≤ sub t' u := by
  unfold sub
  omega

end Time

end GoStd
