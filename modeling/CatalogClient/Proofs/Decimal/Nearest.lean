import CatalogClient.Decimal.Binary64
import Mathlib.Algebra.Group.Nat.Defs
import Mathlib.Data.Nat.Log
/-!
Whole numbers as floating-point numbers. They are exact below `2 ^ 53`, stay above it when they are rounded, and are
infinite from halfway between the greatest finite number and the next power of two on.
-/

namespace CatalogClient.Decimal.Binary64

variable {x : Binary64} {m k n d w : Nat}

section Rounding

theorem roundDiv_mul (hd : 0 < d) (n : Nat) : roundDiv (n * d) d = n := by
  simp [roundDiv, hd]

theorem roundDiv_bounds (hd : 0 < d) (h : m * d ≤ n) (h' : n < k * d) :
    m ≤ roundDiv n d ∧ roundDiv n d ≤ k := by
  have hlow : m ≤ n / d := (Nat.le_div_iff_mul_le hd).mpr h
  have hhigh : n / d < k := (Nat.div_lt_iff_lt_mul hd).mpr h'
  simp only [roundDiv]
  split
  · omega
  · split <;> omega

/-- Below an even number rounds what is nearer to its predecessor. -/
theorem roundDiv_lt_iff (hd : 0 < d) (hm : m % 2 = 0) (hpos : 0 < m) (h : n < m * d) :
    roundDiv n d < m ↔ 2 * n < (2 * m - 1) * d := by
  have hquotient : n / d < m := (Nat.div_lt_iff_lt_mul hd).mpr h
  have hsplit : d * (n / d) + n % d = n := Nat.div_add_mod n d
  have hrest : n % d < d := Nat.mod_lt n hd
  by_cases hlast : n / d = m - 1
  · have hbound : (2 * m - 1) * d = 2 * (d * (m - 1)) + d := by
      obtain ⟨p, rfl⟩ : ∃ p, m = p + 1 := ⟨m - 1, by omega⟩
      simp only [Nat.add_sub_cancel]
      have hodd : 2 * (p + 1) - 1 = 2 * p + 1 := by omega
      rw [hodd, Nat.add_mul, Nat.one_mul, Nat.mul_assoc, Nat.mul_comm p d]
    rw [hlast] at hsplit
    rw [hbound]
    simp only [roundDiv, hlast]
    split
    · omega
    · split <;> omega
  · have hfar : roundDiv n d < m := by
      simp only [roundDiv]
      split
      · omega
      · split <;> omega
    have hless : d * (n / d) + d ≤ d * (m - 1) := by
      rw [← Nat.mul_succ]
      exact Nat.mul_le_mul_left d (by omega)
    have hbelow : 2 * (d * (m - 1)) ≤ (2 * m - 1) * d := by
      rw [← Nat.mul_assoc, Nat.mul_comm 2 d, Nat.mul_assoc, Nat.mul_comm d]
      exact Nat.mul_le_mul_right d (by omega)
    exact iff_of_true hfar (by omega)

end Rounding

section Parts

theorem toNat_ofMagnitude (h : m < signBit) : (ofMagnitude false m).bits.toNat = m :=
  UInt64.toNat_ofNat_of_lt' (h.trans (by decide))

theorem isNegative_ofMagnitude (h : m < signBit) : (ofMagnitude false m).isNegative = false := by
  rw [isNegative, toNat_ofMagnitude h]
  exact decide_eq_false (Nat.not_le.mpr h)

theorem magnitude_ofMagnitude (h : m < signBit) : (ofMagnitude false m).magnitude = m := by
  rw [magnitude, toNat_ofMagnitude h, Nat.mod_eq_of_lt h]

/-- The number is finite and `w`. -/
structure Denotes (x : Binary64) (w : Nat) : Prop where
  isNegative : x.isNegative = false
  isFinite : x.isFinite = true
  ratio : x.ratio.1 = w * x.ratio.2

theorem ratio_pos (x : Binary64) : 0 < x.ratio.2 := by
  unfold ratio
  split
  · exact Nat.one_pos
  · rw [Nat.shiftLeft_eq, Nat.one_mul]
    exact Nat.two_pow_pos _

theorem ratio_of_exponent {a b : Nat} (h : x.exponent = (a : Int) - b) :
    x.ratio.1 * 2 ^ b = x.significand * 2 ^ a * x.ratio.2 := by
  unfold ratio
  split
  · have hshift : x.exponent.toNat + b = a := by omega
    rw [Nat.shiftLeft_eq, Nat.mul_assoc, ← Nat.pow_add, hshift, Nat.mul_one]
  · have hshift : a + (-x.exponent).toNat = b := by omega
    rw [Nat.shiftLeft_eq, Nat.one_mul, Nat.mul_assoc, ← Nat.pow_add, hshift]

variable {a b : Nat}

theorem denotes_normal (hlow : 2 ^ 52 ≤ m) (hhigh : m < 2 ^ 53) (hk : k ≤ 2045) (hgrid : k + b = a + 1074)
    (hw : m * 2 ^ a = w * 2 ^ b) : Denotes (ofMagnitude false (m + k * exponentStep)) w := by
  have hstep : exponentStep = 2 ^ 52 := rfl
  have hsign : signBit = 2 ^ 63 := rfl
  have hinfinite : infiniteMagnitude = 2047 * 2 ^ 52 := rfl
  have hword : m + k * exponentStep < signBit := by
    rw [hstep]
    omega
  have hmagnitude := magnitude_ofMagnitude hword
  rw [hstep] at hword hmagnitude ⊢
  refine ⟨isNegative_ofMagnitude hword, ?_, ?_⟩
  · simp only [isFinite, hmagnitude, decide_eq_true_eq]
    omega
  · have hsignificand : (ofMagnitude false (m + k * 2 ^ 52)).significand = m := by
      rw [significand, hmagnitude, if_neg (by omega), hstep]
      omega
    have hexponent : (ofMagnitude false (m + k * 2 ^ 52)).exponent = (a : Int) - b := by
      rw [exponent, hmagnitude, if_neg (by omega), hstep]
      omega
    have hratio := ratio_of_exponent hexponent
    rw [hsignificand, hw, Nat.mul_right_comm] at hratio
    exact Nat.eq_of_mul_eq_mul_right (Nat.two_pow_pos b) hratio

/-- A significand that is rounded up to the next power of two carries into the exponent. -/
theorem denotes_grid (hlow : 2 ^ 52 ≤ m) (hhigh : m ≤ 2 ^ 53) (hk : k ≤ 2044 ∨ (k = 2045 ∧ m < 2 ^ 53))
    (hgrid : k + b = a + 1074) (hw : m * 2 ^ a = w * 2 ^ b) :
    Denotes (ofMagnitude false (min (m + k * exponentStep) infiniteMagnitude)) w := by
  have hstep : exponentStep = 2 ^ 52 := rfl
  have hfits : m + k * exponentStep ≤ infiniteMagnitude := by
    rw [infiniteMagnitude, hstep]
    omega
  rw [Nat.min_eq_left hfits]
  by_cases hcarry : m = 2 ^ 53
  · have hnext : m + k * exponentStep = 2 ^ 52 + (k + 1) * exponentStep := by
      rw [hstep]
      omega
    have hshift : 2 ^ 52 * 2 ^ (a + 1) = m * 2 ^ a := by
      rw [hcarry, ← Nat.pow_add, ← Nat.pow_add, Nat.add_left_comm 52 a 1, Nat.add_comm a]
    rw [hnext]
    exact denotes_normal (Nat.le_refl _) (by omega) (by omega) (by omega) (hshift.trans hw)
  · exact denotes_normal hlow (by omega) (by omega) hgrid hw

end Parts

section Whole

theorem denotes_zero : Denotes (zero false) 0 := ⟨by decide, by decide, by decide⟩

theorem gridExponent_one (hn : n ≠ 0) : gridExponent n 1 = (Nat.log2 n : Int) - 52 := by
  have hself : 2 ^ Nat.log2 n ≤ n := Nat.log2_self_le hn
  have hone : Nat.log2 1 = 0 := by decide
  have hshift : ¬n < 1 <<< (Nat.log2 n : Int).toNat := by
    rw [Nat.shiftLeft_eq, Int.toNat_natCast]
    omega
  simp only [gridExponent, hone, Int.natCast_zero, Int.sub_zero, Int.natCast_nonneg, if_true, hshift, decide_false,
    Bool.false_eq_true, if_false]
  omega

/-- The places of the significand reach down to the halves, quarters and so on. -/
theorem nearest_fine (hn : n ≠ 0) (hlog : Nat.log2 n ≤ 52) :
    nearest false n 1 = ofMagnitude false
      (min (n * 2 ^ (52 - Nat.log2 n) + (Nat.log2 n + 1022) * exponentStep) infiniteMagnitude) := by
  have hgrid : (if 0 ≤ (Nat.log2 n : Int) - 52 then roundDiv n (1 <<< ((Nat.log2 n : Int) - 52).toNat)
      else roundDiv (n <<< (-((Nat.log2 n : Int) - 52)).toNat) 1) = n * 2 ^ (52 - Nat.log2 n) := by
    have hwhole : ∀ k, roundDiv k 1 = k := fun k => by simpa using roundDiv_mul Nat.one_pos k
    split
    · have htop : Nat.log2 n = 52 := by omega
      simp [htop, hwhole]
    · have hshift : (-((Nat.log2 n : Int) - 52)).toNat = 52 - Nat.log2 n := by omega
      rw [hwhole, hshift, Nat.shiftLeft_eq]
  have hexponent : ((Nat.log2 n : Int) - 52 + 1074).toNat = Nat.log2 n + 1022 := by omega
  rw [nearest, if_neg hn, gridExponent_one hn]
  simp only [hgrid, hexponent]

theorem nearest_coarse (hn : n ≠ 0) (hlog : 52 ≤ Nat.log2 n) :
    nearest false n 1 = ofMagnitude false
      (min (roundDiv n (2 ^ (Nat.log2 n - 52)) + (Nat.log2 n + 1022) * exponentStep) infiniteMagnitude) := by
  have hshift : ((Nat.log2 n : Int) - 52).toNat = Nat.log2 n - 52 := by omega
  have hexponent : ((Nat.log2 n : Int) - 52 + 1074).toNat = Nat.log2 n + 1022 := by omega
  rw [nearest, if_neg hn, gridExponent_one hn]
  simp only [hexponent, hshift]
  rw [if_pos (by omega), Nat.shiftLeft_eq, Nat.one_mul]

/-- Whole numbers of at most 53 bits are represented. -/
theorem nearest_small (hn : n < 2 ^ 53) : Denotes (nearest false n 1) n := by
  by_cases hzero : n = 0
  · subst hzero
    exact denotes_zero
  have hself : 2 ^ Nat.log2 n ≤ n := Nat.log2_self_le hzero
  have hnext : n < 2 ^ (Nat.log2 n + 1) := Nat.lt_log2_self
  have hlog : Nat.log2 n < 53 := (Nat.log2_lt hzero).mpr hn
  rw [nearest_fine hzero (by omega)]
  refine denotes_grid (a := 0) (b := 52 - Nat.log2 n) ?_ ?_ (by omega) (by omega) (by simp)
  · calc 2 ^ 52 = 2 ^ Nat.log2 n * 2 ^ (52 - Nat.log2 n) := by rw [← Nat.pow_add]; congr 1; omega
      _ ≤ n * 2 ^ (52 - Nat.log2 n) := Nat.mul_le_mul_right _ hself
  · calc n * 2 ^ (52 - Nat.log2 n) ≤ 2 ^ (Nat.log2 n + 1) * 2 ^ (52 - Nat.log2 n) := Nat.mul_le_mul_right _ hnext.le
      _ = 2 ^ 53 := by rw [← Nat.pow_add]; congr 1; omega

/-- The significand of a number of more than 52 bits, before it carries. -/
theorem roundDiv_log_bounds (hn : n ≠ 0) (hlog : 52 ≤ Nat.log2 n) :
    2 ^ 52 ≤ roundDiv n (2 ^ (Nat.log2 n - 52)) ∧ roundDiv n (2 ^ (Nat.log2 n - 52)) ≤ 2 ^ 53 := by
  refine roundDiv_bounds (Nat.two_pow_pos _) ?_ ?_
  · calc 2 ^ 52 * 2 ^ (Nat.log2 n - 52) = 2 ^ Nat.log2 n := by rw [← Nat.pow_add]; congr 1; omega
      _ ≤ n := Nat.log2_self_le hn
  · calc n < 2 ^ (Nat.log2 n + 1) := Nat.lt_log2_self
      _ = 2 ^ 53 * 2 ^ (Nat.log2 n - 52) := by rw [← Nat.pow_add]; congr 1; omega

/-- The least number of `k + 54` bits that is no nearer to another of them on its grid than to the next power of two. -/
def firstCarry (k : Nat) : Nat := (2 ^ 54 - 1) * 2 ^ k

theorem roundDiv_log_lt (hlog : Nat.log2 n = 53 + k) :
    roundDiv n (2 ^ (Nat.log2 n - 52)) < 2 ^ 53 ↔ n < firstCarry k := by
  have hshift : Nat.log2 n - 52 = k + 1 := by omega
  have hnext : n < 2 ^ 53 * 2 ^ (k + 1) := by
    rw [← Nat.pow_add, ← Nat.add_assoc, ← hlog]
    exact Nat.lt_log2_self
  have hdouble : (2 * 2 ^ 53 - 1) * 2 ^ (k + 1) = 2 * firstCarry k := by
    rw [firstCarry, Nat.pow_add]
    omega
  rw [hshift, roundDiv_lt_iff (Nat.two_pow_pos _) (by decide) (by decide) hnext, hdouble]
  omega

theorem log2_le_of_lt (hn : n ≠ 0) (h : n < firstCarry k) : Nat.log2 n ≤ 53 + k := by
  have hbelow : n < 2 ^ (54 + k) := by
    rw [Nat.pow_add]
    exact h.trans_le (Nat.mul_le_mul_right _ (by decide))
  have hlog := (Nat.log2_lt hn).mpr hbelow
  omega

theorem le_log2_of_le (hn : n ≠ 0) (h : firstCarry k ≤ n) : 53 + k ≤ Nat.log2 n := by
  rw [Nat.le_log2 hn, Nat.pow_add]
  exact (Nat.mul_le_mul_right _ (by decide)).trans h

theorem firstCarry_pos (k : Nat) : 0 < firstCarry k := Nat.mul_pos (by decide) (Nat.two_pow_pos k)

/-- The least number that is rounded to no finite one. -/
def leastInfinite : Nat := firstCarry 970

/-- A greater number may be rounded, but not to one of 53 bits. -/
theorem nearest_large (h : 2 ^ 53 ≤ n) (hfinite : n < leastInfinite) :
    ∃ w, 2 ^ 53 ≤ w ∧ Denotes (nearest false n 1) w := by
  have hn : n ≠ 0 := by omega
  have hlow : 53 ≤ Nat.log2 n := (Nat.le_log2 hn).mpr h
  have hhigh := log2_le_of_lt hn hfinite
  obtain ⟨hleast, hgreatest⟩ := roundDiv_log_bounds hn (by omega)
  refine ⟨roundDiv n (2 ^ (Nat.log2 n - 52)) * 2 ^ (Nat.log2 n - 52), ?_, ?_⟩
  · calc 2 ^ 53 = 2 ^ 52 * 2 ^ 1 := rfl
      _ ≤ _ := Nat.mul_le_mul hleast (Nat.pow_le_pow_right (by decide) (by omega))
  · rw [nearest_coarse hn (by omega)]
    refine denotes_grid (a := Nat.log2 n - 52) (b := 0) hleast hgreatest ?_ (by omega) (Nat.mul_one _).symm
    -- Only at the greatest exponent would a carry lead out of the finite numbers.
    by_cases hlog : Nat.log2 n = 1023
    · exact .inr ⟨by omega, (roundDiv_log_lt hlog).mpr hfinite⟩
    · exact .inl (by omega)

theorem nearest_infinite (h : leastInfinite ≤ n) : nearest false n 1 = ofMagnitude false infiniteMagnitude := by
  have hn : n ≠ 0 := Nat.ne_of_gt ((firstCarry_pos 970).trans_le h)
  have hlow := le_log2_of_le hn h
  have hleast := (roundDiv_log_bounds hn (by omega)).1
  have htop : Nat.log2 n = 1023 → 2 ^ 53 ≤ roundDiv n (2 ^ (Nat.log2 n - 52)) := fun hlog =>
    Nat.not_lt.mp fun hless => Nat.not_lt.mpr h ((roundDiv_log_lt hlog).mp hless)
  rw [nearest_coarse hn (by omega), Nat.min_eq_right]
  have hstep : exponentStep = 2 ^ 52 := rfl
  rw [infiniteMagnitude, hstep]
  omega

end Whole

end CatalogClient.Decimal.Binary64
