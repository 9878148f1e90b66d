import HpkeDemo.Replay.Guard
import Mathlib.Data.UInt

/-! The unix seconds of `bwc_full.rs`, and the freshness and retention windows of
the wallet's replay cache as inequalities between naturals. -/
namespace HpkeDemo.Bwc

def MAX_CLOCK_SKEW_SECS : UInt64 := 5 * 60

/-- `u64::saturating_sub`. -/
def saturatingSub (a b : UInt64) : UInt64 := if b ≤ a then a - b else 0

/-- `u64::abs_diff`. -/
def absDiff (a b : UInt64) : UInt64 := if a < b then b - a else a - b

/-- Two readings at most 300 s apart. -/
def Near (a b : UInt64) : Prop := a.toNat ≤ b.toNat + 300 ∧ b.toNat ≤ a.toNat + 300

theorem toNat_saturatingSub (a b : UInt64) :
    (saturatingSub a b).toNat = a.toNat - b.toNat := by
  unfold saturatingSub
  split
  · next h => exact UInt64.toNat_sub_of_le _ _ h
  · next h =>
    rw [UInt64.le_iff_toNat_le] at h
    simp only [UInt64.toNat_zero]
    omega

theorem toNat_absDiff (a b : UInt64) :
    (absDiff a b).toNat = (a.toNat - b.toNat) + (b.toNat - a.toNat) := by
  unfold absDiff
  split
  · next h =>
    rw [UInt64.lt_iff_toNat_lt] at h
    rw [UInt64.toNat_sub_of_le _ _ (UInt64.le_iff_toNat_le.mpr h.le)]
    omega
  · next h =>
    rw [UInt64.lt_iff_toNat_lt] at h
    rw [UInt64.toNat_sub_of_le _ _ (UInt64.le_iff_toNat_le.mpr (Nat.not_lt.mp h))]
    omega

theorem absDiff_le_iff {a b : UInt64} : absDiff a b ≤ MAX_CLOCK_SKEW_SECS ↔ Near a b := by
  have skew : MAX_CLOCK_SKEW_SECS.toNat = 300 := by decide
  rw [UInt64.le_iff_toNat_le, toNat_absDiff, skew, Near]
  omega

/-- Retention ends 600 s after an entry was made. -/
theorem saturatingSub_le_iff {now seenAt : UInt64} :
    saturatingSub now seenAt ≤ 2 * MAX_CLOCK_SKEW_SECS ↔ now.toNat ≤ seenAt.toNat + 600 := by
  have retention : (2 * MAX_CLOCK_SKEW_SECS).toNat = 600 := by decide
  rw [UInt64.le_iff_toNat_le, toNat_saturatingSub, retention]
  omega

end HpkeDemo.Bwc
