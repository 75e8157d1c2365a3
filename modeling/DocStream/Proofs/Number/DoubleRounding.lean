import DocStream.Proofs.Number.Nearest

/-!
# Rounding by way of a wider format

A number may be rounded to a wide format first and then to a narrow one. The midpoints between
floats of the narrow format are floats of the wide one, so the first step does not lead across a
midpoint; it can only lead onto one. Then the second step goes to the even side, which is the wrong
one if the rank is odd.

* `Format.Inside` — a format with its midpoints inside another;
* `Format.Rounds.by_way_of` — **rounding twice is rounding once**, but for midpoints around odd
  ranks;
* `Format.Rounds.near` — how close a normal float is to what rounds to it.

What the wide format has to offer is one more bit, at every scale of the narrow one. With that bit a
midpoint can be written down, so comparing with it is comparing with a float of the wide format, and
such comparisons survive rounding to the wide format. That a number was strictly on one side is what
does not survive.
-/

namespace DocStream.Format

variable {fmt wide : Format}

/-- **A format inside another**: the wide one has a bit more, and room for it at all scales. -/
structure Inside (fmt wide : Format) : Prop where
  fraction : fmt.fractionBits < wide.fractionBits
  shift : fmt.shift + 1 + wide.fractionBits ≤ wide.shift

/-- Single precision lies inside double precision, with many bits to spare. -/
theorem inside_binary64 : Inside binary32 binary64 := ⟨by decide, by decide⟩

/-- **Midpoints are floats of the wide format**: to compare with a midpoint is to compare with a
float of the wide format. -/
theorem Inside.exists_midpoint (h : Inside fmt wide) (r : Nat) :
    ∃ s, ∀ q : ℚ,
      (2 * (q * 2 ^ fmt.shift) ≤ fmt.unitsOfRank r + fmt.unitsOfRank (r + 1) ↔
        q * 2 ^ wide.shift ≤ wide.unitsOfRank s) ∧
      (fmt.unitsOfRank r + fmt.unitsOfRank (r + 1) ≤ 2 * (q * 2 ^ fmt.shift) ↔
        wide.unitsOfRank s ≤ q * 2 ^ wide.shift) := by
  -- the midpoint has one bit more than the rank
  have hbits : 2 * fmt.significand r + 1 < 2 * 2 ^ wide.fractionBits := by
    have hlt := fmt.significand_lt r
    have hle := Nat.pow_le_pow_right (n := 2) (by decide) (Nat.succ_le_of_lt h.fraction)
    rw [Nat.pow_succ] at hle
    omega
  obtain ⟨more, hmore⟩ := Nat.exists_eq_add_of_le h.shift
  obtain ⟨s, hs⟩ :=
    exists_unitsOfRank (j := fmt.spacingExponent r + (wide.fractionBits + more)) hbits (by omega)
  -- both sides in the units of the wide format
  have hmid : (wide.unitsOfRank s : ℚ) * (2 * 2 ^ fmt.shift) =
      (fmt.unitsOfRank r + fmt.unitsOfRank (r + 1)) * 2 ^ wide.shift := by
    rw [hs, unitsOfRank_succ, unitsOfRank_eq, spacing_eq, hmore]
    push_cast
    ring
  have hpos : (0 : ℚ) < 2 ^ wide.shift := by positivity
  have hpos' : (0 : ℚ) < 2 * 2 ^ fmt.shift := by positivity
  refine ⟨s, fun q => ?_⟩
  have hscale : 2 * (q * 2 ^ fmt.shift) * 2 ^ wide.shift =
      q * 2 ^ wide.shift * (2 * 2 ^ fmt.shift) := by ring
  constructor
  · rw [← mul_le_mul_iff_left₀ hpos, hscale, ← hmid, mul_le_mul_iff_left₀ hpos']
  · rw [← mul_le_mul_iff_left₀ hpos, hscale, ← hmid, mul_le_mul_iff_left₀ hpos']

/-- **A normal float is close to what rounds to it**: half a spacing away at most, and that is a
tiny part of its magnitude. -/
theorem Rounds.near {r : Nat} {q : ℚ} (h : fmt.Rounds r q) (hnormal : 2 ^ fmt.fractionBits ≤ r) :
    |q * 2 ^ fmt.shift - fmt.unitsOfRank r| * 2 ^ (fmt.fractionBits + 1) ≤ fmt.unitsOfRank r := by
  have hr : 0 < r := fmt.fractions_pos.trans_le hnormal
  -- the rank before is not farther away than the next
  have hprev : fmt.unitsOfRank r ≤ fmt.unitsOfRank (r - 1) + fmt.spacing r := by
    have hspacing : fmt.spacing (r - 1) ≤ fmt.spacing r :=
      Nat.pow_le_pow_right (by decide) (Nat.sub_le_sub_right (Nat.div_le_div_right (by omega)) 1)
    have hsucc := fmt.unitsOfRank_succ (r - 1)
    rw [Nat.sub_add_cancel hr] at hsucc
    omega
  -- rounding is off by half a spacing at most, on either side
  have hhalf : |q * 2 ^ fmt.shift - fmt.unitsOfRank r| * 2 ≤ fmt.spacing r := by
    have hlow := h.low
    have hhigh := h.high
    have hprev : (fmt.unitsOfRank r : ℚ) ≤ fmt.unitsOfRank (r - 1) + fmt.spacing r := by
      exact_mod_cast hprev
    rw [unitsOfRank_succ] at hhigh
    push_cast at hhigh
    rw [← le_div_iff₀ two_pos, abs_le]
    constructor <;> linarith
  calc |q * 2 ^ fmt.shift - fmt.unitsOfRank r| * 2 ^ (fmt.fractionBits + 1)
      = |q * 2 ^ fmt.shift - fmt.unitsOfRank r| * 2 * 2 ^ fmt.fractionBits := by ring
    _ ≤ fmt.spacing r * 2 ^ fmt.fractionBits := mul_le_mul_of_nonneg_right hhalf (by positivity)
    _ ≤ fmt.unitsOfRank r := by exact_mod_cast spacing_mul_le hnormal

section ByWayOf

variable {s : Nat} {q v : ℚ} (hin : Inside fmt wide) (hs : wide.Rounds s q)
  (hv : v * 2 ^ wide.shift = wide.unitsOfRank s)
include hin hs hv

/-- Rounding to the wide format does not lead up across a midpoint. -/
theorem Inside.le_midpoint {r : Nat}
    (hq : 2 * (q * 2 ^ fmt.shift) ≤ fmt.unitsOfRank r + fmt.unitsOfRank (r + 1)) :
    2 * (v * 2 ^ fmt.shift) ≤ fmt.unitsOfRank r + fmt.unitsOfRank (r + 1) := by
  obtain ⟨mid, hmid⟩ := hin.exists_midpoint r
  have hle : s ≤ mid := hs.le_of_le_units ((hmid q).1.mp hq)
  rw [(hmid v).1, hv]
  exact wide.cast_units_le hle

/-- Nor does it lead down across one. -/
theorem Inside.midpoint_le {r : Nat}
    (hq : (fmt.unitsOfRank r + fmt.unitsOfRank (r + 1) : ℚ) ≤ 2 * (q * 2 ^ fmt.shift)) :
    (fmt.unitsOfRank r + fmt.unitsOfRank (r + 1) : ℚ) ≤ 2 * (v * 2 ^ fmt.shift) := by
  obtain ⟨mid, hmid⟩ := hin.exists_midpoint r
  have hle : mid ≤ s := hs.le_of_units_le ((hmid q).2.mp hq)
  rw [(hmid v).2, hv]
  exact wide.cast_units_le hle

omit hs in
/-- Numbers that are not far below the narrow format's are normal in the wide format. -/
theorem Inside.normal (hone : 1 ≤ 2 * (v * 2 ^ fmt.shift)) : 2 ^ wide.fractionBits ≤ s := by
  by_contra hlt
  have hlt := Nat.lt_of_not_le hlt
  rw [unitsOfRank_of_le (by omega)] at hv
  obtain ⟨more, hmore⟩ := Nat.exists_eq_add_of_le hin.shift
  have hlarge : (2 ^ wide.fractionBits : ℚ) ≤ s := by
    calc (2 ^ wide.fractionBits : ℚ) ≤ 2 ^ (wide.fractionBits + more) :=
          pow_le_pow_right₀ one_le_two (Nat.le_add_right _ more)
      _ ≤ 2 * (v * 2 ^ fmt.shift) * 2 ^ (wide.fractionBits + more) :=
        le_mul_of_one_le_left (by positivity) hone
      _ = v * 2 ^ wide.shift := by
        rw [hmore]
        ring
      _ = s := hv
  exact absurd (show 2 ^ wide.fractionBits ≤ s by exact_mod_cast hlarge) (Nat.not_le.mpr hlt)

/-- **What is rounded to the wide format stays close**, as far as it is not far below the narrow
format's numbers. The error is the one of the wide format's last place. -/
theorem Inside.near (hone : 1 ≤ 2 * (v * 2 ^ fmt.shift)) :
    |q - v| * 2 ^ (wide.fractionBits + 1) ≤ v := by
  have hpos : (0 : ℚ) < 2 ^ wide.shift := by positivity
  have hnear := hs.near (hin.normal hv hone)
  rw [← hv, ← sub_mul, abs_mul, abs_of_pos hpos, mul_right_comm] at hnear
  exact le_of_mul_le_mul_right hnear hpos

/-- **Rounding by way of a wider format** is rounding once, unless the rank is odd and the wider
format rounds to a midpoint next to it. -/
theorem Rounds.by_way_of {r : Nat} (h : fmt.Rounds r q) :
    fmt.Rounds r v ∨ r % 2 = 1 ∧
      (2 * (v * 2 ^ fmt.shift) = fmt.unitsOfRank (r - 1) + fmt.unitsOfRank r ∨
        2 * (v * 2 ^ fmt.shift) = fmt.unitsOfRank r + fmt.unitsOfRank (r + 1)) := by
  have hhigh := hin.le_midpoint hs hv h.high
  have hlow : (fmt.unitsOfRank (r - 1) + fmt.unitsOfRank r : ℚ) ≤ 2 * (v * 2 ^ fmt.shift) := by
    rcases Nat.eq_zero_or_pos r with rfl | hr
    · -- there is no rank before zero
      have hnonneg : 0 ≤ v := by
        refine nonneg_of_mul_nonneg_left ?_ (show (0 : ℚ) < 2 ^ wide.shift by positivity)
        rw [hv]
        exact Nat.cast_nonneg _
      rw [Nat.zero_sub, unitsOfRank_zero, Nat.cast_zero, add_zero]
      positivity
    · have hle := hin.midpoint_le hs hv (r := r - 1)
      rw [Nat.sub_add_cancel hr] at hle
      exact hle h.low
  -- apart from the ties next to an odd rank, the weak bounds are enough
  by_cases hmid : r % 2 = 1 ∧
      (2 * (v * 2 ^ fmt.shift) = fmt.unitsOfRank (r - 1) + fmt.unitsOfRank r ∨
        2 * (v * 2 ^ fmt.shift) = fmt.unitsOfRank r + fmt.unitsOfRank (r + 1))
  · exact .inr hmid
  · refine .inl ⟨hlow, hhigh, fun hodd => ?_, fun hodd => ?_⟩
    · exact lt_of_le_of_ne hlow fun heq => hmid ⟨hodd, .inl heq.symm⟩
    · exact lt_of_le_of_ne hhigh fun heq => hmid ⟨hodd, .inr heq⟩

end ByWayOf

end DocStream.Format
