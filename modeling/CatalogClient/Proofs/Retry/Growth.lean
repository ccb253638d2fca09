import CatalogClient.Backoff
import Mathlib.Algebra.Group.Nat.Defs
/-!
How the delays between attempts grow: twofold with every retry, up to the greatest delay. The factor is one of 32
bits, so a base that has not reached the greatest delay with the last of them never does.
-/

namespace CatalogClient

namespace Backoff

theorem factor_eq (n : Nat) : factor n = min (2 ^ n) (2 ^ 32 - 1) := by
  unfold factor
  split
  · rename_i h
    have hlast : 2 ^ n ≤ 2 ^ 31 := Nat.pow_le_pow_right (by decide) (Nat.le_of_lt_succ h)
    rw [Nat.one_shiftLeft, Nat.min_eq_left (by omega)]
  · rename_i h
    have hpow : 2 ^ 32 ≤ 2 ^ n := Nat.pow_le_pow_right (by decide) (Nat.le_of_not_lt h)
    have hbeyond : 2 ^ 32 - 1 ≤ 2 ^ n := Nat.le_trans (Nat.sub_le ..) hpow
    exact (Nat.min_eq_right hbeyond).symm

theorem factor_pos (n : Nat) : 0 < factor n := by
  rw [factor_eq]
  exact Nat.lt_min.mpr ⟨Nat.two_pow_pos n, by decide⟩

theorem factor_mono {m n : Nat} (h : m ≤ n) : factor m ≤ factor n := by
  have hpow : 2 ^ m ≤ 2 ^ n := Nat.pow_le_pow_right (by decide) h
  rw [factor_eq, factor_eq]
  omega

variable (b : Backoff)

/-- A product that leaves the range of spans is above every greatest delay, so it does not count as one. -/
theorem nanos_rawDelay (n : Nat) : (b.rawDelay n).nanos = min (b.base.nanos * factor n) b.max.nanos := by
  unfold rawDelay Span.mul? Span.ofNanos?
  by_cases hrange : b.base.nanos * factor n < Width.beyond64 * nanosPerSecond
  · rw [dif_pos hrange]
    exact Span.nanos_min _ _
  · have hmax := b.max.inRange
    rw [dif_neg hrange, Nat.min_eq_right (by omega)]

theorem base_le_rawDelay (n : Nat) : b.base ≤ b.rawDelay n := by
  change b.base.nanos ≤ (b.rawDelay n).nanos
  rw [nanos_rawDelay]
  exact Nat.le_min.mpr ⟨Nat.le_mul_of_pos_right _ (factor_pos n), b.base_le_max⟩

theorem rawDelay_le_max (n : Nat) : b.rawDelay n ≤ b.max := by
  change (b.rawDelay n).nanos ≤ b.max.nanos
  rw [nanos_rawDelay]
  exact Nat.min_le_right _ _

theorem rawDelay_mono {m n : Nat} (h : m ≤ n) : b.rawDelay m ≤ b.rawDelay n := by
  change (b.rawDelay m).nanos ≤ (b.rawDelay n).nanos
  have hmul : b.base.nanos * factor m ≤ b.base.nanos * factor n := Nat.mul_le_mul_left _ (factor_mono h)
  rw [nanos_rawDelay, nanos_rawDelay]
  omega

/-- The delay is the base, doubled for every retry and bounded by the greatest delay, for 32 retries, and behind
them exactly where the greatest delay was reached. It never falls, and stays between the two. -/
theorem rawDelay_doubles (n : Nat) :
    (b.rawDelay n).nanos = min (b.base.nanos * min (2 ^ n) (2 ^ 32 - 1)) b.max.nanos ∧
      ((b.rawDelay n).nanos = min (b.base.nanos * 2 ^ n) b.max.nanos ↔
        n < 32 ∨ b.max.nanos ≤ b.base.nanos * (2 ^ 32 - 1)) ∧
      b.base ≤ b.rawDelay n ∧ b.rawDelay n ≤ b.max ∧ ∀ m, n ≤ m → b.rawDelay n ≤ b.rawDelay m := by
  have hclosed := b.nanos_rawDelay n
  rw [factor_eq] at hclosed
  refine ⟨hclosed, ?_, b.base_le_rawDelay n, b.rawDelay_le_max n, fun m => b.rawDelay_mono⟩
  rw [hclosed]
  by_cases hn : n < 32
  · have hpow : 2 ^ n ≤ 2 ^ 31 := Nat.pow_le_pow_right (by decide) (Nat.le_of_lt_succ hn)
    rw [Nat.min_eq_left (a := 2 ^ n) (by omega)]
    exact iff_of_true rfl (.inl hn)
  · -- The doubled base is beyond what the factor can come to, so that only the greatest delay can make them equal.
    have hpow : 2 ^ 32 ≤ 2 ^ n := Nat.pow_le_pow_right (by decide) (Nat.le_of_not_lt hn)
    have hless : b.base.nanos * (2 ^ 32 - 1) < b.base.nanos * 2 ^ n :=
      Nat.mul_lt_mul_of_pos_left (by omega) b.base_pos
    rw [Nat.min_eq_right (b := 2 ^ 32 - 1) (by omega), or_iff_right hn]
    omega

/-- From one nanosecond the delay stops at 4.294967295 seconds, and never comes to the thirty that it may last. -/
theorem doubling_stops : ∃ b, make (.ofNanos 1) (.ofSeconds 30) = .ok b ∧
    (b.rawDelay 40).nanos = 4294967295 ∧ min (b.base.nanos * 2 ^ 40) b.max.nanos = 30000000000 :=
  ⟨_, rfl, by decide, by decide⟩

end Backoff

end CatalogClient
