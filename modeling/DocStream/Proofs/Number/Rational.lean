import DocStream.Proofs.Number.Digits
import Mathlib.Algebra.Order.Field.Basic
import Mathlib.Algebra.Order.Field.Power
import Mathlib.Algebra.Order.Field.Rat
import Mathlib.Data.Rat.Cast.Order
import Mathlib.Data.Rat.Floor
import Mathlib.Tactic.FieldSimp
import Mathlib.Tactic.Positivity

/-!
# The rational a decimal denotes

Decimals of different scales can denote the same number. Whatever depends on the number alone, as
rounding does, is best said of the rational.

* `Decimal.toRat` — **the denoted rational**;
* `Decimal.toRat_normal` — normal forms denote the same, and `Decimal.sameValue_iff`, **what denotes
  the same has the same normal form**;
* `truncate` — the integer part, towards zero, and `Decimal.unscaled_rescale`, **what another scale
  leaves**; `Decimal.toInt_eq_toRat`, of an integer everything;
* `Decimal.abs_toRat_lt`, `Decimal.le_abs_toRat` — the bounds that the magnitude gives.

The comparison of decimals goes by normal forms, which are digits with no zero at the end and the
scale that belongs to them. That two of them are equal exactly if the rationals are is what makes
the rational a specification: the theorems after this module are stated by it, and the digits are
not mentioned any more.
-/

namespace DocStream

/-! ### Integer parts -/

/-- **What is left of a rational** when its places are cut off, towards zero: the next integer below
if it is not negative, else the next one above. -/
def truncate (q : ℚ) : ℤ := if 0 ≤ q then ⌊q⌋ else ⌈q⌉

theorem truncate_intCast (z : ℤ) : truncate z = z := by
  rw [truncate, Int.floor_intCast, Int.ceil_intCast, ite_self]

/-- A number is its integer part exactly if it is an integer. -/
theorem truncate_eq_iff {q : ℚ} : (truncate q : ℚ) = q ↔ ∃ z : ℤ, (z : ℚ) = q := by
  constructor
  · exact fun h => ⟨_, h⟩
  · rintro ⟨z, rfl⟩
    rw [truncate_intCast]

/-- Nothing is cut off exactly if there are no more places than the scale has. -/
theorem truncate_mul_eq_iff {q : ℚ} {k : ℤ} :
    (truncate (q * 10 ^ k) : ℚ) * 10 ^ (-k) = q ↔ ∃ z : ℤ, (z : ℚ) = q * 10 ^ k := by
  rw [← truncate_eq_iff, zpow_neg, ← div_eq_mul_inv, div_eq_iff (by positivity)]

/-- Cutting off the places of a quotient is integer division towards zero, which is how places are
cut off in computing. -/
theorem truncate_div (n : ℤ) {d : ℕ} (hd : 0 < d) : truncate (n / d) = n.tdiv d := by
  have hd' : (0 : ℚ) < d := by exact_mod_cast hd
  rw [truncate]
  -- towards zero is down for what is not negative, and up for the rest
  split_ifs with h
  · have hn : 0 ≤ n := by
      by_contra hn
      exact absurd h (not_le.mpr (div_neg_of_neg_of_pos (by exact_mod_cast not_le.mp hn) hd'))
    rw [Rat.floor_intCast_div_natCast, Int.tdiv_eq_ediv_of_nonneg hn]
  · have hn : 0 ≤ -n := by
      by_contra hn
      exact h (div_nonneg (by exact_mod_cast show (0 : ℤ) ≤ n by omega) hd'.le)
    rw [Rat.ceil_intCast_div_natCast, ← Int.tdiv_eq_ediv_of_nonneg hn, Int.neg_tdiv, neg_neg]

namespace Decimal

/-- **The denoted rational**, digits times a power of ten. A decimal of any scale has one, also
where the scale is negative. -/
def toRat (d : Decimal) : ℚ := d.unscaled * 10 ^ (-d.scale)

theorem toRat_eq_zero {d : Decimal} : d.toRat = 0 ↔ d.unscaled = 0 := by
  rw [toRat, mul_eq_zero, Int.cast_eq_zero]
  exact or_iff_left (zpow_ne_zero _ (by norm_num))

/-- A decimal denotes a negative number exactly if its digits are negative. -/
theorem toRat_neg_iff {d : Decimal} : d.toRat < 0 ↔ d.unscaled < 0 := by
  rw [toRat, Rat.mul_neg_iff_of_pos_right (zpow_pos (by norm_num) _), Int.cast_lt_zero]

/-- A power of ten with an integer exponent, as a quotient of powers with natural exponents. -/
theorem zpow_neg_eq_div (s : ℤ) : (10 : ℚ) ^ (-s) = 10 ^ (-s).toNat / 10 ^ s.toNat := by
  rcases Int.le_total 0 s with h | h
  · obtain ⟨n, rfl⟩ := Int.eq_ofNat_of_zero_le h
    rw [zpow_neg, zpow_natCast, Int.toNat_neg_natCast, Int.toNat_natCast, pow_zero, one_div]
  · obtain ⟨n, hn⟩ := Int.eq_ofNat_of_zero_le (Int.neg_nonneg_of_nonpos h)
    obtain rfl : s = -n := by omega
    rw [neg_neg, zpow_natCast, Int.toNat_natCast, Int.toNat_neg_natCast, pow_zero, div_one]

/-- The denoted rational as a quotient of integers, one of whose powers of ten is one. This is the
form in which decimals are compared and rounded. -/
theorem toRat_eq_div (d : Decimal) : d.toRat = d.numerator / d.denominator := by
  rw [toRat, numerator, denominator, zpow_neg_eq_div]
  push_cast
  ring

theorem abs_toRat_eq_div (d : Decimal) : |d.toRat| = d.numerator.natAbs / d.denominator := by
  rw [toRat_eq_div, abs_div, Nat.abs_cast, Nat.cast_natAbs, Int.cast_abs]

theorem denominator_pos (d : Decimal) : 0 < d.denominator := Nat.pow_pos (by decide)

/-! ### Normal forms and integers -/

theorem toRat_ofInt (z : ℤ) : (ofInt z).toRat = z := by
  rw [ofInt, toRat, neg_zero, zpow_zero, mul_one]

/-- Dropping a trailing zero changes nothing, as long as the scale goes down with it. -/
theorem toRat_strip (fuel : Nat) (n scale : Int) :
    (strip fuel n scale).toRat = toRat ⟨n, scale⟩ := by
  -- by induction on the fuel, with a zero less and a place less at each step
  induction fuel generalizing n scale with
  | zero => rfl
  | succ fuel ih =>
    rw [strip]
    split
    · next h =>
      rw [ih, toRat, toRat]
      have hn : n = 10 * (n / 10) := (Int.mul_ediv_cancel' (Int.dvd_of_emod_eq_zero h)).symm
      have hcast : (n : ℚ) = 10 * ((n / 10 : ℤ) : ℚ) := by exact_mod_cast hn
      have hpow : (10 : ℚ) ^ (-(scale - 1)) = 10 * 10 ^ (-scale) := by
        rw [neg_sub, sub_eq_add_neg, zpow_add₀ (by norm_num), zpow_one]
      show ((n / 10 : ℤ) : ℚ) * 10 ^ (-(scale - 1)) = n * 10 ^ (-scale)
      rw [hpow, hcast]
      ring
    · rfl

/-- **Normal forms denote the same** as what they are normal forms of. -/
theorem toRat_normal (d : Decimal) : d.normal.toRat = d.toRat := by
  rw [normal]
  split
  · next h => rw [toRat_eq_zero.mpr h, toRat_eq_zero]
  · exact toRat_strip _ _ _

/-- Of a normal form no digit can be dropped: there is fuel enough to drop all of them but one. -/
theorem strip_emod_ne_zero {fuel : Nat} {n : Int} (scale : Int) (hn : n ≠ 0)
    (hfuel : Digits.count n.natAbs ≤ fuel) : (strip fuel n scale).unscaled % 10 ≠ 0 := by
  induction fuel generalizing n scale with
  | zero => exact absurd (Digits.count_pos n.natAbs) (Nat.not_lt.mpr hfuel)
  | succ fuel ih =>
    unfold strip
    split
    · next hdrop =>
      -- a multiple of ten that is not zero has a digit to spare
      have hten : 10 ≤ n.natAbs := by omega
      have hdiv : (n / 10).natAbs = n.natAbs / 10 := by omega
      apply ih
      · omega
      · rw [Digits.count_of_ge hten] at hfuel
        rw [hdiv]
        exact Nat.le_of_succ_le_succ hfuel
    · next hkeep => exact hkeep

/-- Two decimals of one value that both end in a digit other than zero have one scale: were the
second scale larger, its digits would be those of the first with zeros appended. -/
theorem scale_le_of_toRat {a b : Decimal} (hb : b.unscaled % 10 ≠ 0) (h : a.toRat = b.toRat) :
    b.scale ≤ a.scale := by
  by_contra hlt
  obtain ⟨k, hk⟩ : ∃ k : Nat, b.scale = a.scale + (k + 1) :=
    ⟨(b.scale - a.scale - 1).toNat, by omega⟩
  have happended : (b.unscaled : ℚ) = a.unscaled * 10 ^ (k + 1) := by
    unfold toRat at h
    have hpow : (10 : ℚ) ^ (-a.scale) = 10 ^ (k + 1) * 10 ^ (-b.scale) := by
      rw [hk, ← zpow_natCast, ← zpow_add₀ (by norm_num)]
      congr 1
      omega
    rw [hpow, ← mul_assoc] at h
    exact (mul_right_cancel₀ (zpow_ne_zero _ (by norm_num)) h).symm
  have hint : b.unscaled = a.unscaled * 10 ^ k * 10 := by
    rw [mul_assoc, ← pow_succ]
    exact_mod_cast happended
  omega

/-- **Decimals are the same by their normal forms exactly if they denote the same.** No power of ten
is computed for the comparison, and yet it is one of numbers. -/
theorem sameValue_iff {a b : Decimal} : a.sameValue b = true ↔ a.toRat = b.toRat := by
  unfold sameValue
  rw [beq_iff_eq]
  constructor
  · intro h
    rw [← toRat_normal a, ← toRat_normal b, h]
  · intro h
    -- all decimals that denote zero have the one normal form
    by_cases h0 : a.unscaled = 0
    · have h0' : b.unscaled = 0 := toRat_eq_zero.mp (h ▸ toRat_eq_zero.mpr h0)
      rw [normal, normal, if_pos h0, if_pos h0']
    · have h0' : b.unscaled ≠ 0 := fun hb => h0 (toRat_eq_zero.mp (h ▸ toRat_eq_zero.mpr hb))
      have ha : a.normal.unscaled % 10 ≠ 0 := by
        rw [normal, if_neg h0]
        exact strip_emod_ne_zero _ h0 le_rfl
      have hb : b.normal.unscaled % 10 ≠ 0 := by
        rw [normal, if_neg h0']
        exact strip_emod_ne_zero _ h0' le_rfl
      have hsame : a.normal.toRat = b.normal.toRat := by rw [toRat_normal, toRat_normal, h]
      -- neither has a zero at its end that could be in the scale of the other
      have hscale : a.normal.scale = b.normal.scale :=
        le_antisymm (scale_le_of_toRat ha hsame.symm) (scale_le_of_toRat hb hsame)
      -- at one scale the digits are the value
      have hunscaled : a.normal.unscaled = b.normal.unscaled := by
        rw [toRat, toRat, hscale] at hsame
        exact_mod_cast mul_right_cancel₀ (zpow_ne_zero _ (by norm_num)) hsame
      generalize a.normal = a' at *
      generalize b.normal = b' at *
      cases a'
      cases b'
      exact congr (congrArg mk hunscaled) hscale

theorem scale_rescale (d : Decimal) (scale : ℤ) : (d.rescale scale).scale = scale := by
  unfold rescale
  split_ifs <;> rfl

/-- **A decimal is an integer** if it denotes one, with whatever digits and scale it is written. -/
theorem isIntegral_iff {d : Decimal} : d.isIntegral = true ↔ ∃ z : ℤ, d.toRat = z := by
  by_cases hscale : d.scale ≤ 0
  · refine iff_of_true (by simp [isIntegral, hscale]) ⟨d.numerator, ?_⟩
    rw [toRat_eq_div, denominator, show d.scale.toNat = 0 by omega, pow_zero, Nat.cast_one, div_one]
  · -- the digits after the point are zeros if their power of ten divides
    have hpow : (10 : ℚ) ^ d.scale.toNat ≠ 0 := by positivity
    have hdiv : d.isIntegral = true ↔ (10 : ℤ) ^ d.scale.toNat ∣ d.unscaled := by
      rw [Int.dvd_iff_emod_eq_zero]
      simp only [isIntegral, hscale, Bool.or_eq_true, beq_iff_eq, decide_false, Bool.false_eq_true,
        or_false]
      exact or_iff_right_of_imp fun h0 => by rw [h0, Int.zero_emod]
    rw [hdiv, toRat, zpow_neg_eq_div, show (-d.scale).toNat = 0 by omega, pow_zero, mul_one_div]
    refine exists_congr fun z => ?_
    rw [div_eq_iff hpow, mul_comm]
    norm_cast

/-! ### Other scales -/

/-- **Another scale** has the integer part at that scale. Where places are added this is exact, and
where they are taken off the digits go towards zero. -/
theorem unscaled_rescale (d : Decimal) (k : ℤ) :
    (d.rescale k).unscaled = truncate (d.toRat * 10 ^ k) := by
  have hshift : d.toRat * 10 ^ k = d.unscaled * 10 ^ (k - d.scale) := by
    rw [toRat, mul_assoc, ← zpow_add₀ (by norm_num), neg_add_eq_sub]
  rw [rescale]
  -- zero, digits appended, digits cut off
  split_ifs with h0 hle
  · rw [toRat_eq_zero.mpr h0, zero_mul]
    exact (truncate_intCast 0).symm
  · have hpow : (10 : ℚ) ^ (k - d.scale) = 10 ^ (k - d.scale).toNat := by
      rw [← zpow_natCast, Int.toNat_of_nonneg (by omega)]
    rw [hshift, hpow]
    exact_mod_cast (truncate_intCast _).symm
  · -- what is cut off is divided by a power of ten
    have hpow : (10 : ℚ) ^ (k - d.scale) = 1 / ((10 ^ (d.scale - k).toNat : ℕ) : ℚ) := by
      rw [← neg_sub, zpow_neg, one_div]
      push_cast
      rw [← zpow_natCast, Int.toNat_of_nonneg (by omega)]
    rw [hshift, hpow, mul_one_div, truncate_div _ (Nat.pow_pos (by decide))]
    push_cast
    rfl

/-- **The integer part of an integer** is the integer. -/
theorem toInt_eq_toRat {d : Decimal} (h : d.isIntegral = true) : (d.toInt : ℚ) = d.toRat := by
  obtain ⟨z, hz⟩ := isIntegral_iff.mp h
  rw [toInt, unscaled_rescale, zpow_zero, mul_one, hz, truncate_intCast]

/-! ### Magnitudes -/

theorem abs_toRat (d : Decimal) : |d.toRat| = d.unscaled.natAbs * 10 ^ (-d.scale) := by
  rw [toRat, abs_mul, abs_of_pos (zpow_pos (by norm_num : (0 : ℚ) < 10) _), Nat.cast_natAbs,
    Int.cast_abs]

/-- **A decimal is below the power of its magnitude.** The magnitude is read off digit count and
scale, so this is a bound without any computing. -/
theorem abs_toRat_lt (d : Decimal) : |d.toRat| < 10 ^ d.magnitude := by
  have hpos : (0 : ℚ) < 10 ^ (-d.scale) := zpow_pos (by norm_num) _
  have hlt : (d.unscaled.natAbs : ℚ) < 10 ^ d.digitCount := by
    exact_mod_cast Digits.lt_pow_count d.unscaled.natAbs
  rw [abs_toRat, magnitude, sub_eq_add_neg, zpow_add₀ (by norm_num), zpow_natCast]
  exact mul_lt_mul_of_pos_right hlt hpos

/-- **A decimal that is not zero is not below the power before its magnitude.** So a magnitude
belongs to the number and not to the way it is written. -/
theorem le_abs_toRat {d : Decimal} (h : d.unscaled ≠ 0) : 10 ^ (d.magnitude - 1) ≤ |d.toRat| := by
  have hpos : (0 : ℚ) < 10 ^ (-d.scale) := zpow_pos (by norm_num) _
  have hcount := Digits.count_pos d.unscaled.natAbs
  -- the digits are not below the power of one digit less
  have hle : (10 : ℚ) ^ (d.digitCount - 1) ≤ d.unscaled.natAbs := by
    exact_mod_cast Digits.pow_le_of_lt_count (Int.natAbs_ne_zero.mpr h)
      (Nat.sub_lt hcount Nat.one_pos)
  have hmag : d.magnitude - 1 = ((d.digitCount - 1 : ℕ) : ℤ) + -d.scale := by
    rw [magnitude, digitCount] at *
    omega
  rw [abs_toRat, hmag, zpow_add₀ (by norm_num), zpow_natCast]
  exact mul_le_mul_of_nonneg_right hle hpos.le

/-- Decimals that denote the same have the same magnitude, unless they are zero. -/
theorem magnitude_le {a b : Decimal} (h : a.toRat = b.toRat) (ha : a.unscaled ≠ 0) :
    a.magnitude ≤ b.magnitude := by
  have hlt := (le_abs_toRat ha).trans_lt (h ▸ b.abs_toRat_lt)
  exact Int.le_of_sub_one_lt ((zpow_lt_zpow_iff_right₀ (by norm_num)).mp hlt)

end Decimal
end DocStream
