import DocStream.Proofs.Number.Spelling

/-!
# Floats spelled and read as decimals

Where no schema asks for a float, the spelling of a float is read as a decimal. That works for every
finite float: its magnitude is one that is read, and its scale is far from what 64 bits hold.

* `Format.Readable` — formats whose finite floats are all within the magnitudes that are read;
* `Shortest.scale_decimal` — shortest digits have no more places than the format has binary places;
* `Binary.exists_read?_toNumeral` — **the spelling of a finite float can be read**.

Reading a decimal has bounds of its own, on the magnitude and on the scale. The first are those of
double precision, and a scale has 64 bits. A spelling keeps to both since its digits round to the
float: the value is close to that of the float, and of the places there are no more than the format
has.
-/

namespace DocStream

/-! ### Magnitudes -/

/-- **A format within the magnitudes that are read**: half its smallest positive float is, and what
would be the magnitude of its infinity. -/
structure Format.Readable (fmt : Format) : Prop where
  least : 2 ^ (fmt.shift + 1) ≤ 10 ^ 324
  greatest : fmt.unitsOfRank fmt.infinityRank < 10 ^ 309 * 2 ^ fmt.shift
  scale : fmt.shift < 2 ^ 63

theorem Format.readable_binary32 : Format.binary32.Readable :=
  ⟨by decide +kernel, by decide +kernel, by decide +kernel⟩

/-- Double precision is as well: the bounds are those of its floats. -/
theorem Format.readable_binary64 : Format.binary64.Readable :=
  ⟨by decide +kernel, by decide +kernel, by decide +kernel⟩

variable {fmt : Format}

/-- What rounds to a positive finite rank is within the magnitudes that are read. -/
theorem Format.Readable.magnitude (hfmt : fmt.Readable) {d : Decimal} {r : Nat} (hpos : 0 < r)
    (hr : r < fmt.infinityRank) (h : fmt.Rounds r |d.toRat|) :
    Decimal.leastMagnitude ≤ d.magnitude ∧ d.magnitude ≤ Decimal.greatestMagnitude := by
  have hshift : (0 : ℚ) < 2 ^ fmt.shift := by positivity
  have hunit : fmt.unitsOfRank 1 = 1 := unitsOfRank_of_le (by have := fmt.fractions_pos; omega)
  -- the number is half way to the first rank at least
  have hhalf : 1 ≤ 2 * (|d.toRat| * 2 ^ fmt.shift) := by
    have hle := h.units_le hpos
    rwa [hunit, Nat.cast_one] at hle
  have h0 : d.unscaled ≠ 0 := by
    intro h0
    rw [Decimal.toRat_eq_zero.mpr h0, abs_zero, zero_mul, mul_zero] at hhalf
    exact absurd hhalf (by norm_num)
  constructor
  · -- half the smallest positive float is not below the least power of ten
    have hpow : (2 : ℚ) ^ (fmt.shift + 1) ≤ 10 ^ 324 := by exact_mod_cast hfmt.least
    have hlow : (10 : ℚ) ^ (-324 : ℤ) ≤ |d.toRat| := by
      rw [zpow_neg, inv_le_iff_one_le_mul₀ (by positivity)]
      calc 1 ≤ 2 * (|d.toRat| * 2 ^ fmt.shift) := hhalf
        _ = |d.toRat| * 2 ^ (fmt.shift + 1) := by ring
        _ ≤ |d.toRat| * 10 ^ (324 : ℤ) := mul_le_mul_of_nonneg_left hpow (abs_nonneg _)
    have hlt := hlow.trans_lt d.abs_toRat_lt
    exact Int.add_one_le_iff.mpr ((zpow_lt_zpow_iff_right₀ (by norm_num)).mp hlt)
  · -- and infinity would be below the greatest
    have hhigh : |d.toRat| < 10 ^ (309 : ℤ) := by
      refine lt_of_mul_lt_mul_right ?_ hshift.le
      calc |d.toRat| * 2 ^ fmt.shift ≤ fmt.unitsOfRank fmt.infinityRank := h.le_units hr
        _ < 10 ^ (309 : ℤ) * 2 ^ fmt.shift := by exact_mod_cast hfmt.greatest
    have hlt := (Decimal.le_abs_toRat h0).trans_lt hhigh
    exact Int.sub_one_lt_iff.mp ((zpow_lt_zpow_iff_right₀ (by norm_num)).mp hlt)

/-! ### Scales -/

/-- Dropping zeros from the end leaves fewer places, and never more. -/
theorem Decimal.scale_strip_le (fuel : Nat) (n scale : ℤ) : (strip fuel n scale).scale ≤ scale := by
  induction fuel generalizing n scale with
  | zero => exact le_rfl
  | succ fuel ih =>
    rw [strip]
    split
    · exact (ih (n / 10) (scale - 1)).trans (Int.sub_le_self _ (by decide))
    · exact le_rfl

/-- **Shortest digits** have no more places than the format has binary places. -/
theorem Shortest.scale_decimal (fmt : Format) (r : Nat) : (decimal fmt r).scale ≤ fmt.shift := by
  have hdecimal : decimal fmt r =
      Decimal.normal ⟨(found fmt r).1, fmt.shift - (found fmt r).2⟩ := rfl
  rw [hdecimal, Decimal.normal]
  split
  · exact Int.natCast_nonneg _
  · exact (Decimal.scale_strip_le _ _ _).trans (Int.sub_le_self _ (Int.natCast_nonneg _))

namespace Binary

/-- The layout of digits keeps their scale, or has one place for a zero after the point. -/
theorem scale_layout (negative : Bool) (d : Decimal) :
    (layout negative d).scale = d.scale ∨ (layout negative d).scale = 1 := by
  have hcount := Digits.count_pos d.unscaled.natAbs
  rw [Digits.count] at hcount
  rw [layout]
  dsimp only
  -- the four layouts: with an exponent, whole, with the point among the digits, and with zeros in
  -- front
  split_ifs with hexp hwhole hamong
  · left
    rw [Numeral.scale, Numeral.exponentValue, Option.map_some, Option.getD_some,
      Exponent.toInt_ofInt, List.length_drop]
    omega
  · exact .inr rfl
  · left
    rw [Numeral.scale, Numeral.exponentValue, Option.map_none, Option.getD_none, List.length_drop]
    omega
  · left
    rw [Numeral.scale, Numeral.exponentValue, Option.map_none, Option.getD_none,
      List.length_append, List.length_replicate]
    omega

/-- **The spelling of a finite float can be read** as a decimal, whatever the format of the float.
So a float is written as a number that every reader of decimals takes. -/
theorem exists_read?_toNumeral (hfmt : fmt.Readable) {x : Binary fmt} (hx : x.isFinite = true) :
    ∃ b, x.toNumeral.read? = some b := by
  have hrank : x.rank.val < fmt.infinityRank := of_decide_eq_true hx
  rw [Numeral.exists_read?_iff]
  rcases Nat.eq_zero_or_pos x.rank.val with hzero | hpos
  · -- zero is spelled with one place
    have hspelled : x.toNumeral = ⟨x.negative, 0, [.zero], none⟩ :=
      if_pos (show x.isZero = true from decide_eq_true hzero)
    rw [hspelled]
    refine ⟨(by decide : Decimal.scaleInRange 1 = true), .inl ?_⟩
    cases x.negative <;> rfl
  · refine ⟨?_, .inr (hfmt.magnitude hpos hrank x.toNumeral_rounds)⟩
    have hnonzero : ¬x.isZero = true := fun hzero => absurd (of_decide_eq_true hzero) hpos.ne'
    rw [toNumeral, if_neg hnonzero]
    rcases scale_layout x.negative (Shortest.decimal fmt x.rank.val) with hscale | hscale
    · -- a number of few digits and a bounded magnitude has a bounded scale
      have hrounds : fmt.Rounds x.rank.val |(Shortest.decimal fmt x.rank.val).toRat| := by
        rw [abs_of_nonneg (Shortest.decimal_nonneg hpos)]
        exact Shortest.decimal_rounds fmt hpos
      have hmagnitude : (Shortest.decimal fmt x.rank.val).magnitude ≤ 309 :=
        (hfmt.magnitude hpos hrank hrounds).2
      have hhigh := Shortest.scale_decimal fmt x.rank.val
      have hshift := hfmt.scale
      rw [Decimal.magnitude] at hmagnitude
      rw [hscale]
      exact (Bool.and_eq_true _ _).mpr ⟨decide_eq_true (by omega), decide_eq_true (by omega)⟩
    · rw [hscale]
      decide

end Binary
end DocStream
