import DocStream.Number.Binary
import Mathlib.Data.Int.Basic
import Mathlib.Data.Nat.GCD.Basic
import Mathlib.Tactic.GCongr
import Mathlib.Tactic.Ring

/-!
# Near misses

Can a multiple of one number come close to a multiple of another without being equal to it? One good
fraction settles the question: multipliers of a near miss that are not too large have to be in its
ratio.

The numbers are steps of decimal grids and distances of floats to the midpoints around them. A
decimal on a grid and a midpoint can then be so close that they are the same in double precision,
and there is exactly one exponent at which that happens.

* `NearMiss` — two multiples that differ by a tiny part of themselves;
* `NearMiss.exists_multiple` — **a near miss is in the ratio of a good fraction**;
* `goodFraction_fractionAt` — a good fraction for every exponent, checked by computation;
* `eq_of_nearMiss` — **the only near miss** of a decimal grid and a midpoint.

The fractions come from continued fractions, but nothing is proved of these. For each of the 254
exponents there is a fraction, and that it is good is a matter of computation; what follows from its
being good is proved for all numbers at once.
-/

namespace DocStream

-- Powers of numbers are the core library's, so that they evaluate.
attribute [local instance (high)] instPowNat

/-- **A near miss**: two multiples that are not equal and differ by at most one part in `parts`.
Both numbers and both multipliers are given. -/
structure NearMiss (parts a b m n : Nat) : Prop where
  near : ((a * m : ℤ) - b * n).natAbs * parts ≤ b * n
  ne : a * m ≠ b * n

instance (parts a b m n : Nat) : Decidable (NearMiss parts a b m n) :=
  decidable_of_iff (_ ∧ _) ⟨fun h => ⟨h.1, h.2⟩, fun h => ⟨h.near, h.ne⟩⟩

/-- **A good fraction**: a fraction `p / q` in lowest terms, so close to `b / a` that it leaves no
room for another ratio of numbers below `limit`. -/
structure GoodFraction (parts limit a b p q : Nat) : Prop where
  pos : 0 < q
  coprime : Nat.Coprime p q
  close : limit * (((a * p : ℤ) - b * q).natAbs * parts + b * q) ≤ a * parts

instance (parts limit a b p q : Nat) : Decidable (GoodFraction parts limit a b p q) :=
  decidable_of_iff (_ ∧ _ ∧ _)
    ⟨fun h => ⟨h.1, h.2.1, h.2.2⟩, fun h => ⟨h.pos, h.coprime, h.close⟩⟩

namespace NearMiss

variable {parts a b m n : Nat}

/-- A common factor of the first number and the grid is a factor of the multiplier. -/
theorem of_mul {c : Nat} (h : NearMiss parts (a * c) b m n) : NearMiss parts a b (c * m) n where
  near := by
    have hnear := h.near
    push_cast at hnear ⊢
    rwa [← mul_assoc]
  ne := by
    rw [← Nat.mul_assoc]
    exact h.ne

variable (h : NearMiss parts a b m n)
include h

/-- **A near miss is in the ratio of a good fraction.** -/
theorem cross_mul_eq {limit p q : Nat} (hn : n < limit) (hb : 0 < b)
    (hgood : GoodFraction parts limit a b p q) : n * p = m * q := by
  -- if the ratios were different, they would differ by one unit of the product of their
  -- denominators
  by_contra hne
  have hdiff : 1 ≤ ((n * p : ℤ) - m * q).natAbs := by
    rw [Nat.one_le_iff_ne_zero, Int.natAbs_ne_zero, sub_ne_zero]
    exact_mod_cast hne
  have hnear := h.near
  have hclose := hgood.close
  generalize hd : ((a * p : ℤ) - b * q) = d at *
  generalize he : ((a * m : ℤ) - b * n) = e at *
  -- the two ratios differ by one unit at least, of which each of the two errors has its part
  have hunit : a ≤ n * d.natAbs + q * e.natAbs := by
    have hsplit : (a : ℤ) * (n * p - m * q) = n * d - q * e := by
      rw [← hd, ← he]
      ring
    calc a ≤ a * ((n * p : ℤ) - m * q).natAbs := Nat.le_mul_of_pos_right a hdiff
      _ = (n * d - q * e).natAbs := by rw [← hsplit, Int.natAbs_mul, Int.natAbs_natCast]
      _ ≤ (n * d).natAbs + (q * e).natAbs := Int.natAbs_sub_le _ _
      _ = n * d.natAbs + q * e.natAbs := by
        rw [Int.natAbs_mul, Int.natAbs_mul, Int.natAbs_natCast, Int.natAbs_natCast]
  have hroom : a * parts < limit * (d.natAbs * parts + b * q) := by
    have hpos : 0 < b * q := Nat.mul_pos hb hgood.pos
    calc a * parts ≤ (n * d.natAbs + q * e.natAbs) * parts := Nat.mul_le_mul_right parts hunit
      _ = n * (d.natAbs * parts) + q * (e.natAbs * parts) := by ring
      _ ≤ n * (d.natAbs * parts) + q * (b * n) := by gcongr
      _ = n * (d.natAbs * parts + b * q) := by ring
      _ < limit * (d.natAbs * parts + b * q) := Nat.mul_lt_mul_of_pos_right hn (by omega)
  exact absurd hclose (Nat.not_le.mpr hroom)

/-- **The good fraction is a near miss itself**, and its parts divide the multipliers. -/
theorem exists_multiple {limit p q : Nat} (hn : n < limit) (hb : 0 < b)
    (hgood : GoodFraction parts limit a b p q) :
    NearMiss parts a b p q ∧ ∃ c, 0 < c ∧ n = q * c := by
  have hcross := h.cross_mul_eq hn hb hgood
  -- in lowest terms, so both multipliers are multiples of the parts
  obtain ⟨c, rfl⟩ : q ∣ n :=
    hgood.coprime.symm.dvd_of_dvd_mul_right (hcross ▸ Nat.dvd_mul_left q m)
  obtain rfl : m = p * c := by
    refine Nat.eq_of_mul_eq_mul_right hgood.pos ?_
    rw [← hcross]
    ring
  have hc : 0 < c := Nat.pos_of_ne_zero fun h0 => h.ne (by rw [h0]; ring)
  have hfactor : (a * (p * c : ℕ) : ℤ) - b * (q * c : ℕ) = (a * p - b * q) * c := by
    push_cast
    ring
  refine ⟨⟨Nat.le_of_mul_le_mul_right ?_ hc, fun heq => h.ne ?_⟩, c, hc, rfl⟩
  · have hnear := h.near
    rw [hfactor, Int.natAbs_mul, Int.natAbs_natCast] at hnear
    calc ((a * p : ℤ) - b * q).natAbs * parts * c
        = ((a * p : ℤ) - b * q).natAbs * c * parts := by ring
      _ ≤ b * (q * c) := hnear
      _ = b * q * c := by ring
  · rw [← Nat.mul_assoc, heq, Nat.mul_assoc]

end NearMiss

/-! ### Decimal grids and midpoints -/

/-- The distance of a single-precision float to the midpoints around it, by the exponent of its
spacing, in half units of `10 ^ (-149)`. -/
def reach (exponent : Nat) : Nat := 2 ^ exponent * 5 ^ Format.binary32.shift

/-- The fewest places of a grid that is as coarse as the floats of an exponent: the digits of their
reach, as the logarithms of two and five tell. -/
def coarsePlaces (exponent : Nat) : Nat :=
  (30103 * exponent + 69897 * Format.binary32.shift - 1) / 100000 + 1

/-- The step of that grid, in half units. -/
def coarseStep (exponent : Nat) : Nat := 2 * 10 ^ coarsePlaces exponent

/-- The quotient `b / a` to as many terms of its continued fraction as leave at most the given
remainder. -/
def fractionNear (remainder : Nat) : (terms b a : Nat) → Nat × Nat
  | 0, b, a => (b / a, 1)
  | terms + 1, b, a =>
    if b % a ≤ remainder then (b / a, 1)
    else
      let (p, q) := fractionNear remainder terms a (b % a)
      (b / a * p + q, p)

/-- A fraction near the quotient of reach and step. It is only checked, not proved, to be good. -/
def fractionAt (exponent : Nat) : Nat × Nat :=
  fractionNear (coarseStep exponent / 2 ^ 26) 40 (reach exponent) (coarseStep exponent)

/-- The reach is not zero, so ratios with it make sense. -/
theorem reach_pos (exponent : Nat) : 0 < reach exponent :=
  Nat.mul_pos (Nat.pow_pos (by decide)) (Nat.pow_pos (by decide))

/-- A grid with fewer places is finer than the reach. So a grid that is as coarse as the floats has
as many places at least. -/
theorem pow_pred_coarsePlaces_le : ∀ exponent < 254,
    10 ^ (coarsePlaces exponent - 1) * 2 ^ 28 ≤ reach exponent * (2 ^ 28 - 1) := by
  decide +kernel

/-- **The fractions are good**, for every exponent of single precision. This and the two checks
beside it are computed by the kernel. -/
theorem goodFraction_fractionAt : ∀ exponent < 254,
    GoodFraction (2 ^ 53) (2 ^ 25) (coarseStep exponent) (reach exponent)
      (fractionAt exponent).1 (fractionAt exponent).2 := by
  decide +kernel

/-- The good fractions are no near misses with small multipliers, but for one. -/
theorem fractionAt_cases : ∀ exponent < 254,
    NearMiss (2 ^ 53) (coarseStep exponent) (reach exponent)
      (fractionAt exponent).1 (fractionAt exponent).2 →
    2 ^ 25 ≤ (fractionAt exponent).2 ∨ exponent = 42 ∧ (fractionAt exponent).2 = 22841339 := by
  decide +kernel

/-- **The only near miss** of a point of a decimal grid and a midpoint, where the grid is about as
coarse as the floats are dense. -/
theorem eq_of_nearMiss {exponent places m n : Nat} (hexp : exponent < 254) (hn : n < 2 ^ 25)
    (hplaces : reach exponent * (2 ^ 28 - 1) < 10 ^ places * 2 ^ 28)
    (h : NearMiss (2 ^ 53) (2 * 10 ^ places) (reach exponent) m n) :
    exponent = 42 ∧ n = 22841339 := by
  -- a finer grid is excluded by the premise
  have hle : coarsePlaces exponent ≤ places := by
    by_contra hlt
    have hpow : 10 ^ places ≤ 10 ^ (coarsePlaces exponent - 1) :=
      Nat.pow_le_pow_right (by decide) (by omega)
    have hfine := pow_pred_coarsePlaces_le exponent hexp
    have := Nat.mul_le_mul_right (2 ^ 28) hpow
    omega
  -- the points of a coarser grid are points of this one
  obtain ⟨more, rfl⟩ := Nat.exists_eq_add_of_le hle
  rw [Nat.pow_add, ← Nat.mul_assoc] at h
  obtain ⟨hmiss, c, hc, rfl⟩ := (NearMiss.of_mul h).exists_multiple hn (reach_pos exponent)
    (goodFraction_fractionAt exponent hexp)
  rcases fractionAt_cases exponent hexp hmiss with hlarge | ⟨rfl, hq⟩
  · have := Nat.le_mul_of_pos_right (fractionAt exponent).2 hc
    omega
  · -- twice the fraction is too large
    rw [hq] at hn ⊢
    obtain rfl : c = 1 := by omega
    exact ⟨rfl, rfl⟩

end DocStream
