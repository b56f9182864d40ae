import Mathlib.Data.Int.Init
import Mathlib.Tactic.Common

/-!
# Instants and durations

An aware UTC `datetime` and a `timestamptz` column both resolve microseconds,
so an instant is the integer number of microseconds since the epoch.  The
calendar limits of the two types are not represented.
-/

namespace Legba

abbrev Datetime := ℤ

/-- `timedelta(seconds=n)` and `make_interval(secs => n)`. -/
def seconds (n : ℤ) : ℤ := 1000000 * n

theorem seconds_nonneg {n : ℤ} (hn : 0 ≤ n) : 0 ≤ seconds n := by
  unfold seconds
  omega

theorem seconds_pos {n : ℤ} (hn : 0 < n) : 0 < seconds n := by
  unfold seconds
  omega

theorem seconds_nonpos {n : ℤ} (hn : n ≤ 0) : seconds n ≤ 0 := by
  unfold seconds
  omega

end Legba
