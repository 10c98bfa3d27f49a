import Mathlib.Tactic
import Mathlib.Data.List.DropRight

/-!
# Durations and wall-clock times

`std::time::Duration` is a `u64` of seconds and less than `10^9` nanoseconds; it is kept here as
one number of nanoseconds with its bound as a field.  `std::time::SystemTime` is, on the platforms
the tunnel runs on, an `i64` of seconds and a nanosecond part, counted from the Unix epoch; the
difference of two of them always fits a `Duration`.
-/

namespace QuicTunnel

/-- The number of nanoseconds of `Duration::MAX`. -/
def durationMax : ℕ := (2 ^ 64 - 1) * 10 ^ 9 + 999999999

/-- A `std::time::Duration`. -/
@[ext] structure Duration where
  nanos : ℕ
  le_max : nanos ≤ durationMax
  deriving DecidableEq

namespace Duration

instance : LinearOrder Duration :=
  LinearOrder.lift' Duration.nanos (fun _ _ h => Duration.ext h)

theorem le_iff (a b : Duration) : a ≤ b ↔ a.nanos ≤ b.nanos := Iff.rfl

@[simp] theorem min_nanos (a b : Duration) : (min a b).nanos = min a.nanos b.nanos := by
  rcases le_total a b with h | h
  · rw [min_eq_left h, min_eq_left ((le_iff a b).1 h)]
  · rw [min_eq_right h, min_eq_right ((le_iff b a).1 h)]

@[simp] theorem max_nanos (a b : Duration) : (max a b).nanos = max a.nanos b.nanos := by
  rcases le_total a b with h | h
  · rw [max_eq_right h, max_eq_right ((le_iff a b).1 h)]
  · rw [max_eq_left h, max_eq_left ((le_iff b a).1 h)]

/-- `Duration::ZERO`, also `Duration::default()`. -/
def zero : Duration := ⟨0, Nat.zero_le _⟩

/-- `Duration::is_zero`. -/
def isZero (d : Duration) : Bool := d.nanos == 0

/-- `Duration::from_secs`. -/
def fromSecs (s : UInt64) : Duration :=
  ⟨s.toNat * 10 ^ 9, by have := s.toNat_lt; unfold durationMax; omega⟩

/-- `Duration::from_millis`. -/
def fromMillis (m : UInt64) : Duration :=
  ⟨m.toNat * 10 ^ 6, by have := m.toNat_lt; unfold durationMax; omega⟩

/-- `Duration::as_millis`, a `u128`. -/
def asMillis (d : Duration) : ℕ := d.nanos / 10 ^ 6

/-- `Duration::saturating_mul`. -/
def saturatingMul (d : Duration) (k : ℕ) : Duration :=
  ⟨min (d.nanos * k) durationMax, Nat.min_le_right _ _⟩

/-- A value and its remaining decimals, as `fmt_decimal` prints them: no trailing zeros, and no
point when there are none. -/
def fmtDecimal (int frac width : ℕ) : String :=
  let decimals := ((Nat.toDigits 10 frac).leftpad width '0').rdropWhile (· == '0')
  if decimals.isEmpty then toString int else toString int ++ "." ++ String.ofList decimals

/-- The `Debug` text of a duration, in the largest unit that leaves a whole part. -/
def debug (d : Duration) : String :=
  let secs := d.nanos / 10 ^ 9
  let nanos := d.nanos % 10 ^ 9
  if 0 < secs then fmtDecimal secs nanos 9 ++ "s"
  else if 10 ^ 6 ≤ nanos then fmtDecimal (nanos / 10 ^ 6) (nanos % 10 ^ 6) 6 ++ "ms"
  else if 10 ^ 3 ≤ nanos then fmtDecimal (nanos / 10 ^ 3) (nanos % 10 ^ 3) 3 ++ "µs"
  else fmtDecimal nanos 0 0 ++ "ns"

end Duration

/-- A `std::time::SystemTime`, in nanoseconds since the Unix epoch. -/
structure SystemTime where
  nanos : ℤ
  ge_min : -(2 ^ 63 * 10 ^ 9) ≤ nanos
  lt_max : nanos < 2 ^ 63 * 10 ^ 9
  deriving DecidableEq

/-- `SystemTime::UNIX_EPOCH`. -/
def SystemTime.unixEpoch : SystemTime := ⟨0, by decide, by decide⟩

/-- `SystemTime::duration_since`: an error, here `none`, when `earlier` is in fact later. -/
def SystemTime.durationSince (later earlier : SystemTime) : Option Duration :=
  if earlier.nanos ≤ later.nanos then
    some ⟨(later.nanos - earlier.nanos).toNat, by
      have := later.lt_max
      have := earlier.ge_min
      unfold durationMax
      omega⟩
  else none

/-- The time left from `now` until `t`; nothing once `t` has passed. -/
theorem SystemTime.durationSince_getD_nanos (t now : SystemTime) :
    ((t.durationSince now).getD Duration.zero).nanos = (t.nanos - now.nanos).toNat := by
  unfold durationSince
  split_ifs with h
  · rfl
  · show 0 = _
    omega

/-- The whole seconds from the epoch to a wall-clock time in nanoseconds, as the code takes them
from `duration_since(UNIX_EPOCH)`; 0 before the epoch. -/
def unixSecs (wall : ℤ) : ℤ := if 0 ≤ wall then wall / 10 ^ 9 else 0

theorem unixSecs_mono {wall wall' : ℤ} (h : wall ≤ wall') : unixSecs wall ≤ unixSecs wall' := by
  unfold unixSecs
  split_ifs <;> omega

/-- The time is less than a second past its whole seconds. -/
theorem lt_unixSecs_add_one (wall : ℤ) : wall < (unixSecs wall + 1) * 10 ^ 9 := by
  unfold unixSecs
  split_ifs <;> omega

theorem unixSecs_nonneg (wall : ℤ) : 0 ≤ unixSecs wall := by
  unfold unixSecs
  split_ifs <;> omega

end QuicTunnel
