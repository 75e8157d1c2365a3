import DocStream.Proofs.Number.Ranks
import Mathlib.Algebra.Order.Field.Rat
import Mathlib.Data.Rat.Cast.Order
import Mathlib.Tactic.Linarith
import Mathlib.Tactic.FieldSimp

/-!
# Rounding to the nearest float

A rational rounds to a rank if it lies between the midpoints to the neighbouring ranks, which belong
to the interval of an even rank. The intervals of two ranks have no point in common, so that the
rounding interval determines what `Format.nearestRank` computes.

* `Format.Rounds` — **the rounding interval of a rank**;
* `Format.IsSignificand` — what is left of a quotient when its excess bits are rounded away;
* `Format.nearestRank_rounds` — the computed rank is one that the quotient rounds to;
* `Format.Rounds.unique` — a rational rounds to one rank only;
* `Format.nearestRank_eq_iff` — both together.

The fraction field must not be empty: without it two neighbouring ranks could both be even.

The computation scales the quotient to an integer, counts the bits that the format has no room for,
and rounds these away. Rounding may carry into a further bit, and then the significand is a power of
two; as ranks go on across exponents, the sum of exponent and significand is right in that case as
well, and no case is made of it.
-/

namespace DocStream.Format

variable {fmt : Format}

/-! ### Rounding to integers -/

/-- The rounded quotient is the floor or the one after it. So no rounding is off by more than one.
-/
theorem roundHalfEven_bounds (num den : Nat) :
    num / den ≤ roundHalfEven num den ∧ roundHalfEven num den ≤ num / den + 1 := by
  rw [roundHalfEven]
  split
  · omega
  · split <;> omega

/-- **Rounding to integers**: off by at most one half, and by less if the result is odd. -/
theorem roundHalfEven_spec (num : Nat) {den : Nat} (hden : 0 < den) :
    2 * (roundHalfEven num den * den) ≤ 2 * num + den ∧
      2 * num ≤ 2 * (roundHalfEven num den * den) + den ∧
      (roundHalfEven num den % 2 = 1 →
        2 * (roundHalfEven num den * den) < 2 * num + den ∧
          2 * num < 2 * (roundHalfEven num den * den) + den) := by
  have hdiv : num / den * den + num % den = num := Nat.div_add_mod' num den
  have hmod := Nat.mod_lt num hden
  have hsucc : (num / den + 1) * den = num / den * den + den := Nat.succ_mul _ _
  rw [roundHalfEven]
  -- below the half, above it, or on it
  split
  · omega
  · split
    · rw [hsucc]
      omega
    · -- a tie: the even one of the two neighbours is taken
      rcases Nat.mod_two_eq_zero_or_one (num / den) with heven | hodd
      · rw [heven, Nat.add_zero]
        omega
      · rw [hodd, hsucc]
        omega

/-! ### Rounding intervals -/

/-- **The rounding interval of a rank**: a magnitude rounds to the rank if it lies between the
midpoints to the neighbouring ranks, both excluded if the rank is odd. -/
structure Rounds (fmt : Format) (r : Nat) (q : ℚ) : Prop where
  /-- Not below the midpoint to the rank before. -/
  low : (fmt.unitsOfRank (r - 1) + fmt.unitsOfRank r : ℚ) ≤ 2 * (q * 2 ^ fmt.shift)
  /-- Not above the midpoint to the rank after. -/
  high : 2 * (q * 2 ^ fmt.shift) ≤ fmt.unitsOfRank r + fmt.unitsOfRank (r + 1)
  /-- Above the midpoint to the rank before, if the rank is odd. -/
  low_odd : r % 2 = 1 →
    (fmt.unitsOfRank (r - 1) + fmt.unitsOfRank r : ℚ) < 2 * (q * 2 ^ fmt.shift)
  /-- Below the midpoint to the rank after, if the rank is odd. -/
  high_odd : r % 2 = 1 →
    2 * (q * 2 ^ fmt.shift) < fmt.unitsOfRank r + fmt.unitsOfRank (r + 1)

theorem cast_units_le (fmt : Format) {r s : Nat} (h : r ≤ s) :
    (fmt.unitsOfRank r : ℚ) ≤ fmt.unitsOfRank s := by
  exact_mod_cast fmt.unitsOfRank_strictMono.monotone h

theorem cast_units_lt (fmt : Format) {r s : Nat} (h : r < s) :
    (fmt.unitsOfRank r : ℚ) < fmt.unitsOfRank s := by
  exact_mod_cast fmt.unitsOfRank_strictMono h

/-- **A rational rounds to one rank only.** Between two ranks the intervals meet in a midpoint at
most, and that belongs to the even one. -/
theorem Rounds.unique {r s : Nat} {q : ℚ} (hr : fmt.Rounds r q) (hs : fmt.Rounds s q) : r = s := by
  -- it is enough to exclude one of the two orders
  have key : ∀ {r s : Nat}, r < s → fmt.Rounds r q → fmt.Rounds s q → False := by
    intro r s hlt hr hs
    have h₁ : (fmt.unitsOfRank r : ℚ) ≤ fmt.unitsOfRank (s - 1) := fmt.cast_units_le (by omega)
    have h₂ : (fmt.unitsOfRank (r + 1) : ℚ) ≤ fmt.unitsOfRank s := fmt.cast_units_le hlt
    rcases Nat.lt_or_eq_of_le (Nat.succ_le_of_lt hlt) with hfar | rfl
    · -- there is a rank between the two
      have hfar : (fmt.unitsOfRank (r + 1) : ℚ) < fmt.unitsOfRank s := fmt.cast_units_lt hfar
      linarith [hr.high, hs.low]
    · -- neighbours: one of the two is odd
      rcases Nat.mod_two_eq_zero_or_one r with heven | hodd
      · linarith [hr.high, hs.low_odd (by omega)]
      · linarith [hr.high_odd hodd, hs.low]
  rcases Nat.lt_trichotomy r s with hlt | heq | hgt
  · exact (key hlt hr hs).elim
  · exact heq
  · exact (key hgt hs hr).elim

/-- The rounding interval of a quotient, without division. -/
theorem rounds_div {r num den : Nat} (hden : 0 < den)
    (hlow : (fmt.unitsOfRank (r - 1) + fmt.unitsOfRank r) * den ≤ 2 * (num * 2 ^ fmt.shift))
    (hhigh : 2 * (num * 2 ^ fmt.shift) ≤ (fmt.unitsOfRank r + fmt.unitsOfRank (r + 1)) * den)
    (hodd : r % 2 = 1 →
      (fmt.unitsOfRank (r - 1) + fmt.unitsOfRank r) * den < 2 * (num * 2 ^ fmt.shift) ∧
      2 * (num * 2 ^ fmt.shift) < (fmt.unitsOfRank r + fmt.unitsOfRank (r + 1)) * den) :
    fmt.Rounds r (num / den) := by
  have hden' : (0 : ℚ) < den := by exact_mod_cast hden
  have hq : 2 * ((num / den : ℚ) * 2 ^ fmt.shift) = 2 * (num * 2 ^ fmt.shift) / den := by ring
  -- the four bounds are the four given, divided by the denominator
  constructor
  · rw [hq, le_div_iff₀ hden']
    exact_mod_cast hlow
  · rw [hq, div_le_iff₀ hden']
    exact_mod_cast hhigh
  · intro h
    rw [hq, lt_div_iff₀ hden']
    exact_mod_cast (hodd h).1
  · intro h
    rw [hq, div_lt_iff₀ hden']
    exact_mod_cast (hodd h).2

/-! ### The computed rank -/

/-- **What is left of a quotient** `scaled / den` after `k` excess bits are rounded away: a
significand `m` that has its leading bit set, unless no bit had to go, and that is at most the next
power of two. -/
structure IsSignificand (fmt : Format) (scaled den k m : Nat) : Prop where
  /-- The quotient had the bit as well. -/
  lead : 0 < k → 2 ^ fmt.fractionBits * (den * 2 ^ k) ≤ scaled
  low : 0 < k → 2 ^ fmt.fractionBits ≤ m
  high : m ≤ 2 * 2 ^ fmt.fractionBits
  rounded : roundHalfEven scaled (den * 2 ^ k) = m

/-- **What is computed is a significand**: rounding away the excess bits leaves the leading one. -/
theorem isSignificand {scaled den k : Nat} (hden : 0 < den)
    (hk : Nat.log2 (scaled / den) - fmt.fractionBits = k) :
    fmt.IsSignificand scaled den k (roundHalfEven scaled (den * 2 ^ k)) := by
  have hpos : 0 < den * 2 ^ k := Nat.mul_pos hden (Nat.pow_pos (by decide))
  obtain ⟨hfloor, hceil⟩ := roundHalfEven_bounds scaled (den * 2 ^ k)
  -- if bits have to go, the leading one is `k` places above the fraction
  have hlead : 0 < k → 2 ^ fmt.fractionBits * (den * 2 ^ k) ≤ scaled := by
    intro hkpos
    have hq : scaled / den ≠ 0 := by
      intro h0
      rw [h0, Nat.log2_zero] at hk
      omega
    have hself := Nat.log2_self_le hq
    rw [show Nat.log2 (scaled / den) = fmt.fractionBits + k by omega, Nat.pow_add] at hself
    calc 2 ^ fmt.fractionBits * (den * 2 ^ k)
        = 2 ^ fmt.fractionBits * 2 ^ k * den := by ring
      _ ≤ scaled / den * den := Nat.mul_le_mul_right den hself
      _ ≤ scaled := Nat.div_mul_le_self scaled den
  -- rounded down, what is left has one bit more than the fraction at most
  have hfew : scaled / (den * 2 ^ k) < 2 * 2 ^ fmt.fractionBits := by
    rw [← Nat.div_div_eq_div_mul, Nat.div_lt_iff_lt_mul (Nat.pow_pos (by decide))]
    calc scaled / den < 2 ^ (Nat.log2 (scaled / den) + 1) := Nat.lt_log2_self
      _ ≤ 2 ^ (fmt.fractionBits + k + 1) := Nat.pow_le_pow_right (by decide) (by omega)
      _ = 2 * 2 ^ fmt.fractionBits * 2 ^ k := by ring
  exact
    { lead := hlead
      low := fun hkpos => ((Nat.le_div_iff_mul_le hpos).mpr (hlead hkpos)).trans hfloor
      high := by omega
      rounded := rfl }

namespace IsSignificand

variable {scaled den k m : Nat}

/-- The magnitude of the rank with this significand. -/
theorem units (h : fmt.IsSignificand scaled den k m) :
    fmt.unitsOfRank (k * 2 ^ fmt.fractionBits + m) = m * 2 ^ k := by
  rcases Nat.eq_zero_or_pos k with rfl | hk
  · rw [Nat.zero_mul, Nat.zero_add, unitsOfRank_of_le h.high, Nat.pow_zero, Nat.mul_one]
  · exact unitsOfRank_significand (h.low hk) h.high

/-- The next rank is as far away as one more in the significand, or farther. -/
theorem le_spacing (h : fmt.IsSignificand scaled den k m) :
    2 ^ k ≤ fmt.spacing (k * 2 ^ fmt.fractionBits + m) := by
  rcases Nat.eq_zero_or_pos k with rfl | hk
  · exact fmt.spacing_pos _
  · apply Format.le_spacing
    rw [Nat.succ_mul]
    exact Nat.add_le_add_left (h.low hk) _

/-- **The midpoint after the rank** is half a unit of the significand above it, or more. -/
theorem le_midpoint_after (h : fmt.IsSignificand scaled den k m) {r : Nat}
    (hr : k * 2 ^ fmt.fractionBits + m = r) :
    2 * (m * (den * 2 ^ k)) + den * 2 ^ k ≤
      (fmt.unitsOfRank r + fmt.unitsOfRank (r + 1)) * den := by
  subst hr
  have hgap := h.le_spacing
  rw [unitsOfRank_succ, h.units]
  calc 2 * (m * (den * 2 ^ k)) + den * 2 ^ k
      = (m * 2 ^ k + (m * 2 ^ k + 2 ^ k)) * den := by ring
    _ ≤ (m * 2 ^ k + (m * 2 ^ k + fmt.spacing (k * 2 ^ fmt.fractionBits + m))) * den :=
      Nat.mul_le_mul_right den (by omega)

/-- **The midpoint before the rank** is half a unit of the significand below it, or more; where the
spacing is half as wide, at a leading power of two, the quotient is not below the rank. -/
theorem midpoint_before_le (h : fmt.IsSignificand scaled den k m) (hden : 0 < den) {r : Nat}
    (hr : k * 2 ^ fmt.fractionBits + m = r) (hpos : 0 < r) :
    (fmt.unitsOfRank (r - 1) + fmt.unitsOfRank r) * den + den * 2 ^ k ≤ 2 * (m * (den * 2 ^ k)) ∨
      (fmt.unitsOfRank (r - 1) + fmt.unitsOfRank r) * den < 2 * scaled := by
  have hunits : fmt.unitsOfRank r = m * 2 ^ k := hr ▸ h.units
  have hprev : fmt.unitsOfRank r = fmt.unitsOfRank (r - 1) + fmt.spacing (r - 1) := by
    rw [← unitsOfRank_succ, Nat.sub_add_cancel hpos]
  have hexpand : 2 * (m * 2 ^ k) * den = 2 * (m * (den * 2 ^ k)) := by ring
  by_cases hgap : 2 ^ k ≤ fmt.spacing (r - 1)
  · -- the rank before is a whole unit of the significand away
    left
    calc (fmt.unitsOfRank (r - 1) + fmt.unitsOfRank r) * den + den * 2 ^ k
        = (fmt.unitsOfRank (r - 1) + fmt.unitsOfRank r + 2 ^ k) * den := by ring
      _ ≤ 2 * (m * 2 ^ k) * den := Nat.mul_le_mul_right den (by omega)
      _ = 2 * (m * (den * 2 ^ k)) := hexpand
  · right
    have hk : 0 < k := by
      rcases Nat.eq_zero_or_pos k with rfl | hk
      · exact absurd (fmt.spacing_pos _) hgap
      · exact hk
    -- the narrower gap belongs to the exponent before, so `m` is the least with its leading bit
    have hm : m = 2 ^ fmt.fractionBits := by
      have hnot : ¬(k + 1) * 2 ^ fmt.fractionBits ≤ r - 1 := fun hle =>
        hgap (Format.le_spacing hle)
      rw [Nat.succ_mul] at hnot
      have := h.low hk
      omega
    have hspacing := fmt.spacing_pos (r - 1)
    have hlead := h.lead hk
    calc (fmt.unitsOfRank (r - 1) + fmt.unitsOfRank r) * den
        < 2 * (m * 2 ^ k) * den := Nat.mul_lt_mul_of_pos_right (by omega) hden
      _ = 2 * (2 ^ fmt.fractionBits * (den * 2 ^ k)) := by rw [hexpand, hm]
      _ ≤ 2 * scaled := Nat.mul_le_mul_left 2 hlead

/-- **The rank with the significand is one that the quotient rounds to.** -/
theorem rounds (h : fmt.IsSignificand scaled den k m) (hfmt : 0 < fmt.fractionBits)
    (hden : 0 < den) {num : Nat} (hnum : num * 2 ^ fmt.shift = scaled) :
    fmt.Rounds (k * 2 ^ fmt.fractionBits + m) (num / den) := by
  obtain ⟨hbelow, habove, hodd⟩ :=
    roundHalfEven_spec scaled (Nat.mul_pos hden (Nat.pow_pos (n := k) (by decide : 0 < 2)))
  rw [h.rounded] at hbelow habove hodd
  -- an odd rank has an odd significand, which was not made by a tie
  have hparity := rank_mod_two hfmt k m
  -- from here on the rank is a number, and only its midpoints matter
  generalize hr : k * 2 ^ fmt.fractionBits + m = r at *
  have hafter := h.le_midpoint_after hr
  have hbefore : (fmt.unitsOfRank (r - 1) + fmt.unitsOfRank r) * den ≤ 2 * scaled ∧
      (r % 2 = 1 → (fmt.unitsOfRank (r - 1) + fmt.unitsOfRank r) * den < 2 * scaled) := by
    rcases Nat.eq_zero_or_pos r with rfl | hpos
    · -- there is no rank before zero
      rw [Nat.zero_sub, unitsOfRank_zero, Nat.zero_mul]
      exact ⟨Nat.zero_le _, fun h => absurd h (by decide)⟩
    · -- a whole unit away rounding cannot have gone farther; with the narrower gap, it went up from
      -- there
      rcases h.midpoint_before_le hden hr hpos with hle | hlt
      · exact ⟨by omega, fun h => by have := hodd (hparity ▸ h); omega⟩
      · exact ⟨hlt.le, fun _ => hlt⟩
  rw [← hnum] at *
  refine rounds_div hden hbefore.1 (by omega) fun h => ⟨hbefore.2 h, ?_⟩
  have := hodd (hparity ▸ h)
  omega

end IsSignificand

/-- **The computed rank is one that the quotient rounds to.** -/
theorem nearestRank_rounds (hfmt : 0 < fmt.fractionBits) {num den : Nat} (hden : 0 < den) :
    fmt.Rounds (fmt.nearestRank num den) (num / den) := by
  unfold nearestRank
  exact (isSignificand hden rfl).rounds hfmt hden rfl

/-- **The computed rank is the only one that the quotient rounds to.** -/
theorem nearestRank_eq_iff (hfmt : 0 < fmt.fractionBits) {num den r : Nat} (hden : 0 < den) :
    fmt.nearestRank num den = r ↔ fmt.Rounds r (num / den) := by
  constructor
  · rintro rfl
    exact nearestRank_rounds hfmt hden
  · exact fun h => (nearestRank_rounds hfmt hden).unique h

end DocStream.Format
