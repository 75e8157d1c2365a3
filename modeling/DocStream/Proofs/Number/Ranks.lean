import DocStream.Number.Binary
import Mathlib.Algebra.Order.Ring.Nat
import Mathlib.Order.Monotone.Basic
import Mathlib.Tactic.Ring

/-!
# Ranks and their magnitudes

Ranks are ordered as the magnitudes they stand for. From one rank to the next the magnitude grows by
a power of two that depends on the exponent field alone, across the boundaries between exponents as
well, so no proof about neighbouring floats has to tell normal floats from subnormal ones.

* `Format.spacing` and `Format.unitsOfRank_succ` — **the distance to the next rank**;
* `Format.unitsOfRank_strictMono` — ranks are ordered as magnitudes;
* `Format.unitsOfRank_significand` — the magnitude of a rank given by exponent and significand;
* `Format.significand` and `Format.unitsOfRank_eq` — **the significand of a rank**;
* `Format.exists_unitsOfRank` — which numbers are magnitudes.

A rank is the bit pattern of a float without its sign, read as a number: the exponent field above
the fraction. That subnormal floats have no hidden bit makes up for the exponent zero standing for
the same power as the exponent one, and so the ranks go on without a jump.
-/

namespace DocStream.Format

variable {fmt : Format}

/-- The distance from a rank to the next, in units of the smallest positive float. It is one for the
subnormal ranks and for the first normal exponent, and doubles with each exponent after that. -/
def spacing (fmt : Format) (r : Nat) : Nat := 2 ^ (r / 2 ^ fmt.fractionBits - 1)

theorem spacing_pos (fmt : Format) (r : Nat) : 0 < fmt.spacing r := Nat.pow_pos (by decide)

/-- Ranks past an exponent are at least its spacing apart, as spacings never get smaller. -/
theorem le_spacing {k r : Nat} (h : (k + 1) * 2 ^ fmt.fractionBits ≤ r) :
    2 ^ k ≤ fmt.spacing r := by
  refine Nat.pow_le_pow_right (by decide) ?_
  have := (Nat.le_div_iff_mul_le (Nat.pow_pos (by decide))).mpr h
  omega

theorem fractions_pos (fmt : Format) : 0 < 2 ^ fmt.fractionBits := Nat.pow_pos (by decide)

theorem unitsOfRank_zero : fmt.unitsOfRank 0 = 0 := by
  rw [unitsOfRank, Nat.zero_div, Nat.zero_mod, if_pos rfl]

/-- **The magnitude of a significand**: a rank `k · 2 ^ fractionBits + m`, whose significand `m` has
its leading bit set or is the next power of two, stands for `m · 2 ^ k`. -/
theorem unitsOfRank_significand {k m : Nat} (hlow : 2 ^ fmt.fractionBits ≤ m)
    (hhigh : m ≤ 2 * 2 ^ fmt.fractionBits) :
    fmt.unitsOfRank (k * 2 ^ fmt.fractionBits + m) = m * 2 ^ k := by
  have hpos := fmt.fractions_pos
  rw [unitsOfRank]
  generalize 2 ^ fmt.fractionBits = b at *
  rcases Nat.lt_or_eq_of_le hhigh with hlt | rfl
  · -- the leading bit is one more in the exponent, the rest is the fraction
    have hrank : k * b + m = (m - b) + (k + 1) * b := by
      rw [Nat.add_mul, Nat.one_mul]
      omega
    rw [hrank, Nat.add_mul_div_right _ _ hpos, Nat.add_mul_mod_self_right,
      Nat.div_eq_of_lt (by omega), Nat.mod_eq_of_lt (by omega), if_neg (by omega)]
    congr 1
    · omega
    · congr 1
      omega
  · -- the next power of two: the exponent is one greater and the fraction zero
    have hrank : k * b + 2 * b = 0 + (k + 2) * b := by rw [Nat.add_mul, Nat.zero_add]
    rw [hrank, Nat.add_mul_div_right _ _ hpos, Nat.add_mul_mod_self_right, Nat.zero_div,
      Nat.zero_mod, if_neg (by omega), Nat.add_zero, show 0 + (k + 2) - 1 = k + 1 by omega,
      Nat.pow_succ]
    ring

/-- Small ranks stand for themselves: up to the end of the first normal exponent the spacing is one
unit. -/
theorem unitsOfRank_of_le {m : Nat} (h : m ≤ 2 * 2 ^ fmt.fractionBits) : fmt.unitsOfRank m = m := by
  rcases Nat.lt_or_ge m (2 ^ fmt.fractionBits) with hlt | hge
  · -- subnormal
    rw [unitsOfRank, Nat.div_eq_of_lt hlt, Nat.mod_eq_of_lt hlt, if_pos rfl]
  · -- the first exponent, whose spacing is still one
    have hunits := unitsOfRank_significand (k := 0) hge h
    rwa [Nat.zero_mul, Nat.zero_add, Nat.pow_zero, Nat.mul_one] at hunits

/-- **The next rank** is one spacing further, also where it starts another exponent. -/
theorem unitsOfRank_succ (r : Nat) :
    fmt.unitsOfRank (r + 1) = fmt.unitsOfRank r + fmt.spacing r := by
  have hpos := fmt.fractions_pos
  rcases Nat.lt_or_ge r (2 ^ fmt.fractionBits) with hlt | hge
  · -- both ranks stand for themselves
    rw [unitsOfRank_of_le (by omega), unitsOfRank_of_le (by omega), spacing, Nat.div_eq_of_lt hlt]
    rfl
  · -- the rank is a significand with a leading bit, and the next one has the same exponent
    obtain ⟨k, m, rfl, hm, hm'⟩ : ∃ k m, r = k * 2 ^ fmt.fractionBits + m ∧
        2 ^ fmt.fractionBits ≤ m ∧ m < 2 * 2 ^ fmt.fractionBits := by
      generalize 2 ^ fmt.fractionBits = b at *
      have hdiv := Nat.div_add_mod r b
      have hmod := Nat.mod_lt r hpos
      have hone : 1 ≤ r / b := (Nat.one_le_div_iff hpos).mpr hge
      obtain ⟨k, hk⟩ := Nat.exists_eq_add_of_le hone
      refine ⟨k, b + r % b, ?_, by omega, by omega⟩
      rw [hk, Nat.mul_add, Nat.mul_one, Nat.mul_comm b k] at hdiv
      omega
    have hexp : (k * 2 ^ fmt.fractionBits + m) / 2 ^ fmt.fractionBits - 1 = k := by
      rw [Nat.add_comm, Nat.add_mul_div_right _ _ hpos,
        Nat.div_eq_of_lt_le (k := 1) (by omega) (by omega)]
      omega
    rw [Nat.add_assoc, unitsOfRank_significand (by omega) (by omega),
      unitsOfRank_significand hm (by omega), spacing, hexp]
    ring

/-- **Ranks are ordered as the magnitudes they stand for.** So to find the nearest float is to find
the nearest rank. -/
theorem unitsOfRank_strictMono (fmt : Format) : StrictMono fmt.unitsOfRank :=
  strictMono_nat_of_lt_succ fun r => by
    have := fmt.spacing_pos r
    rw [unitsOfRank_succ]
    omega

/-! ### Significands -/

/-- The exponent of the spacing after a rank. -/
def spacingExponent (fmt : Format) (r : Nat) : Nat := r / 2 ^ fmt.fractionBits - 1

/-- The significand of a rank: its magnitude in units of the spacing. -/
def significand (fmt : Format) (r : Nat) : Nat :=
  r - fmt.spacingExponent r * 2 ^ fmt.fractionBits

/-- The distance to the next float is a power of two. -/
theorem spacing_eq (fmt : Format) (r : Nat) : fmt.spacing r = 2 ^ fmt.spacingExponent r := rfl

/-- A rank is put together from the exponent and the significand. -/
theorem rank_eq (fmt : Format) (r : Nat) :
    fmt.spacingExponent r * 2 ^ fmt.fractionBits + fmt.significand r = r := by
  have hle : fmt.spacingExponent r * 2 ^ fmt.fractionBits ≤ r :=
    (Nat.mul_le_mul_right _ (Nat.sub_le _ 1)).trans (Nat.div_mul_le_self r _)
  rw [significand]
  omega

/-- The significand of a subnormal rank is the rank; that of a normal one has the leading bit set in
front of the fraction. -/
theorem significand_cases (fmt : Format) (r : Nat) :
    (r < 2 ^ fmt.fractionBits ∧ fmt.significand r = r) ∨
      2 ^ fmt.fractionBits ≤ fmt.significand r ∧
        fmt.significand r = 2 ^ fmt.fractionBits + r % 2 ^ fmt.fractionBits := by
  have hpos := fmt.fractions_pos
  rw [significand, spacingExponent]
  generalize 2 ^ fmt.fractionBits = b at *
  -- below the first exponent there is no leading bit to set
  rcases Nat.lt_or_ge r b with hlt | hge
  · left
    rw [Nat.div_eq_of_lt hlt, Nat.zero_sub, Nat.zero_mul]
    exact ⟨hlt, rfl⟩
  · right
    have hdiv := Nat.div_add_mod r b
    obtain ⟨e, he⟩ := Nat.exists_eq_add_of_le ((Nat.one_le_div_iff hpos).mpr hge)
    rw [he, Nat.mul_add, Nat.mul_one, Nat.mul_comm] at hdiv
    rw [he, Nat.add_sub_cancel_left]
    omega

/-- A significand has one bit more than the fraction at most. -/
theorem significand_lt (fmt : Format) (r : Nat) :
    fmt.significand r < 2 * 2 ^ fmt.fractionBits := by
  have hmod := Nat.mod_lt r fmt.fractions_pos
  rcases fmt.significand_cases r with ⟨hlt, heq⟩ | ⟨-, heq⟩ <;> omega

/-- **The magnitude of a rank** is its significand times its spacing. -/
theorem unitsOfRank_eq (fmt : Format) (r : Nat) :
    fmt.unitsOfRank r = fmt.significand r * fmt.spacing r := by
  -- a subnormal rank has no exponent to take off
  rcases fmt.significand_cases r with ⟨hlt, heq⟩ | ⟨hge, -⟩
  · have hzero : fmt.spacingExponent r = 0 := by rw [spacingExponent, Nat.div_eq_of_lt hlt]
    rw [spacing_eq, heq, hzero, Nat.pow_zero, Nat.mul_one, unitsOfRank_of_le (by omega)]
  · conv_lhs => rw [← fmt.rank_eq r]
    exact unitsOfRank_significand hge (fmt.significand_lt r).le

/-- **Normal ranks are spaced finely**, by one part of their magnitude in `2 ^ fractionBits`. -/
theorem spacing_mul_le {r : Nat} (h : 2 ^ fmt.fractionBits ≤ r) :
    fmt.spacing r * 2 ^ fmt.fractionBits ≤ fmt.unitsOfRank r := by
  rw [unitsOfRank_eq, Nat.mul_comm]
  rcases fmt.significand_cases r with ⟨hlt, -⟩ | ⟨hge, -⟩
  · omega
  · exact Nat.mul_le_mul_right _ hge

/-- Fractions fill the bits below the exponent, so the significand decides the parity. Ties go by
the parity of the rank. -/
theorem rank_mod_two (hfmt : 0 < fmt.fractionBits) (k m : Nat) :
    (k * 2 ^ fmt.fractionBits + m) % 2 = m % 2 := by
  have heven : 2 ^ fmt.fractionBits % 2 = 0 := by
    rw [show fmt.fractionBits = fmt.fractionBits - 1 + 1 by omega, Nat.pow_succ]
    exact Nat.mul_mod_left _ _
  rw [Nat.add_mod, Nat.mul_mod, heven, Nat.mul_zero, Nat.zero_mod, Nat.zero_add, Nat.mod_mod]

theorem significand_mod_two (hfmt : 0 < fmt.fractionBits) (r : Nat) :
    fmt.significand r % 2 = r % 2 := by
  conv_rhs => rw [← fmt.rank_eq r]
  exact (rank_mod_two hfmt _ _).symm

/-- **An odd rank is as far from the rank before as from the next**: it starts no exponent. -/
theorem unitsOfRank_pred_of_odd (hfmt : 0 < fmt.fractionBits) {r : Nat} (h : r % 2 = 1) :
    fmt.unitsOfRank (r - 1) + fmt.spacing r = fmt.unitsOfRank r := by
  -- the rank before differs in the last bit only, so it has the same exponent
  have hdiv : (r - 1) / 2 ^ fmt.fractionBits = r / 2 ^ fmt.fractionBits := by
    rw [show fmt.fractionBits = 1 + (fmt.fractionBits - 1) by omega, Nat.pow_add, Nat.pow_one,
      ← Nat.div_div_eq_div_mul, ← Nat.div_div_eq_div_mul, show (r - 1) / 2 = r / 2 by omega]
  have hspacing : fmt.spacing (r - 1) = fmt.spacing r := by rw [spacing, spacing, hdiv]
  rw [← hspacing, ← unitsOfRank_succ, Nat.sub_add_cancel (by omega)]

/-- **A number of few bits is a magnitude**, at a scale at which the format has all its bits. -/
theorem exists_unitsOfRank {c j : Nat} (hc : c < 2 * 2 ^ fmt.fractionBits)
    (hj : fmt.fractionBits ≤ j) : ∃ s, fmt.unitsOfRank s = c * 2 ^ j := by
  rcases Nat.eq_zero_or_pos c with rfl | hpos
  · exact ⟨0, by rw [unitsOfRank_zero, Nat.zero_mul]⟩
  · -- shifted so that the leading bit is set
    have hlog : c.log2 ≤ fmt.fractionBits := by
      rw [← Nat.pow_succ'] at hc
      exact Nat.lt_succ_iff.mp ((Nat.log2_lt hpos.ne').mpr hc)
    obtain ⟨i, hi⟩ := Nat.exists_eq_add_of_le hlog
    refine ⟨(j - i) * 2 ^ fmt.fractionBits + c * 2 ^ i, ?_⟩
    -- the shifted number fills the significand, and the shift is taken off the power
    have hlow : 2 ^ fmt.fractionBits ≤ c * 2 ^ i := by
      rw [hi, Nat.pow_add]
      exact Nat.mul_le_mul_right _ (Nat.log2_self_le hpos.ne')
    have hhigh : c * 2 ^ i ≤ 2 * 2 ^ fmt.fractionBits := by
      rw [hi, Nat.pow_add, ← Nat.mul_assoc, ← Nat.pow_succ']
      exact Nat.mul_le_mul_right _ Nat.lt_log2_self.le
    rw [unitsOfRank_significand hlow hhigh, Nat.mul_assoc, ← Nat.pow_add,
      show i + (j - i) = j by omega]

end DocStream.Format
