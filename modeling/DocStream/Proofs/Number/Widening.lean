import DocStream.Proofs.Number.RoundedTwice

/-!
# Floats in a wider format

A format inside another has every one of its floats there as well: the significand has fewer bits,
and the wide format is fine enough at every scale. So rounding to the wide format, which is what a
change of format does, loses nothing. The way back is rounding as well, and it finds the float again.

* `Binary.Widens` — a float in another format, with nothing of it lost;
* `Binary.widens_convert` — **a wider format has every float exactly**;
* `Binary.widens_binary64` — double precision has those of single precision;
* `Binary.Widens.convert_eq` — **what was widened is rounded back to itself**;
* `Binary.exists_widens` — a float whose value a narrow format has is one of that format, widened;
* `Binary.sameNumber_convert_iff` — nothing is lost if the way down and up again leads to the same
  number.

A conversion to a wider format is rounding like any other, and it is exact because the magnitude is
that of a wide rank. The relation `Binary.Widens` says so without the conversion, and it can be read
from either side: up, it is a function; down, it says which floats nothing is lost of.
-/

namespace DocStream

variable {fmt wide : Format}

/-- **The magnitudes of a format are magnitudes of one that it is inside of.** -/
theorem Format.Inside.exists_unitsOfRank (h : Inside fmt wide) (r : Nat) :
    ∃ s, wide.unitsOfRank s = fmt.unitsOfRank r * 2 ^ (wide.shift - fmt.shift) := by
  -- a significand of the narrow format is one of the wide format, with bits to spare
  have hbits : fmt.significand r < 2 * 2 ^ wide.fractionBits := by
    have hlt := fmt.significand_lt r
    have hle := Nat.pow_le_pow_right (n := 2) (by decide) h.fraction.le
    omega
  have hshift := h.shift
  obtain ⟨s, hs⟩ := Format.exists_unitsOfRank
    (j := fmt.spacingExponent r + (wide.shift - fmt.shift)) hbits (by omega)
  exact ⟨s, by rw [hs, unitsOfRank_eq, spacing_eq, Nat.mul_assoc, ← Nat.pow_add]⟩

/-- Infinity is followed by floats that are no numbers. -/
theorem Format.Proper.infinityRank_lt_pred (h : fmt.Proper) :
    fmt.infinityRank < 2 ^ fmt.rankBits - 1 := by
  have hexp : 0 < 2 ^ fmt.exponentBits := Nat.pow_pos (by decide)
  have hfrac := Nat.pow_le_pow_right (n := 2) (by decide) h.fraction
  have hmul : (2 ^ fmt.exponentBits - 1) * 2 ^ fmt.fractionBits + 2 ^ fmt.fractionBits =
      2 ^ fmt.exponentBits * 2 ^ fmt.fractionBits := by
    rw [← Nat.succ_mul, Nat.succ_eq_add_one, Nat.sub_add_cancel hexp]
  rw [infinityRank, rankBits, Nat.pow_add]
  omega

namespace Binary

/-- **A float in another format**, with nothing of it lost: the sign, the value, and whether it is
finite or a number at all. -/
structure Widens (x : Binary fmt) (y : Binary wide) : Prop where
  negative : y.negative = x.negative
  isFinite : y.isFinite = x.isFinite
  isNaN : y.isNaN = x.isNaN
  toRat : x.isFinite = true → y.toRat = x.toRat

theorem isNaN_of_isFinite {x : Binary fmt} (h : x.isFinite = true) : x.isNaN = false :=
  decide_eq_false (Nat.lt_asymm (of_decide_eq_true h))

/-- **A wider format has every float exactly**, if its infinity is far enough away. -/
theorem widens_convert (hfmt : fmt.Proper) (hwide : wide.Proper) (hin : Format.Inside fmt wide)
    (hroom : fmt.fractionBits + (2 ^ fmt.exponentBits - 2) + wide.shift + 1 <
      wide.fractionBits + (2 ^ wide.exponentBits - 2) + fmt.shift)
    (x : Binary fmt) : x.Widens (x.convert wide) := by
  rw [convert]
  split_ifs with hfinite hnan
  · -- the magnitude has a rank in the wide format, and that one is rounded to
    have hrank : x.rank.val < fmt.infinityRank := of_decide_eq_true hfinite
    obtain ⟨s, hs⟩ := hin.exists_unitsOfRank x.rank.val
    have hscale : (2 : ℚ) ^ wide.shift = 2 ^ (wide.shift - fmt.shift) * 2 ^ fmt.shift := by
      have := hin.shift
      rw [← pow_add, Nat.sub_add_cancel (by omega)]
    have hvalue : (x.units : ℚ) / (2 ^ fmt.shift : ℕ) * 2 ^ fmt.shift = x.units := by
      push_cast
      exact div_mul_cancel₀ _ (by positivity)
    have hvalue' : (x.units : ℚ) / (2 ^ fmt.shift : ℕ) * 2 ^ wide.shift = wide.unitsOfRank s := by
      rw [hscale, mul_left_comm, hvalue, hs, mul_comm]
      push_cast
      rfl
    have hrounds := Format.rounds_units hvalue'
    have hlt := (Format.rounds_units hvalue).lt_infinityRank hfmt hwide hroom hrank hrounds
    rw [ofQuotient, (Format.nearestRank_eq_iff hwide.fraction (Nat.pow_pos (by decide))).mpr hrounds,
      ofRank, dif_pos hlt]
    have hfinite' : isFinite (⟨x.negative, ⟨s, hlt.trans wide.infinityRank_lt⟩⟩ : Binary wide) =
        true := decide_eq_true hlt
    refine ⟨rfl, hfinite'.trans hfinite.symm,
      (isNaN_of_isFinite hfinite').trans (isNaN_of_isFinite hfinite).symm, fun _ => ?_⟩
    rw [toRat, toRat, units, ← hvalue', mul_div_assoc, div_self (by positivity), mul_one]
    push_cast
    rfl
  · -- not a number
    have hlt := hwide.infinityRank_lt_pred
    refine ⟨rfl, ?_, ?_, fun h => absurd h hfinite⟩
    · rw [Bool.eq_false_iff.mpr hfinite]
      exact decide_eq_false (by dsimp only [nan]; omega)
    · rw [hnan]
      exact decide_eq_true (by dsimp only [nan]; omega)
  · -- an infinity
    refine ⟨rfl, ?_, ?_, fun h => absurd h hfinite⟩
    · rw [Bool.eq_false_iff.mpr hfinite]
      exact decide_eq_false (Nat.lt_irrefl _)
    · rw [Bool.eq_false_iff.mpr hnan]
      exact decide_eq_false (Nat.lt_irrefl _)

/-- **Double precision has every single-precision float exactly.** -/
theorem widens_binary64 (x : Float32Bits) : x.Widens (x.convert .binary64) :=
  x.widens_convert Format.proper_binary32 Format.proper_binary64 Format.inside_binary64 (by decide)

/-! ### The way back -/

/-- A change of format keeps the sign. -/
theorem negative_convert (x : Binary wide) : (x.convert fmt).negative = x.negative := by
  unfold convert
  split_ifs
  · exact negative_ofRank _ _
  · rfl
  · rfl

/-- Sign and value are all there is to a float. The sign is needed for the two zeros, and finiteness
is not, as the value is computed from the rank. -/
theorem eq_of_toRat {x y : Binary fmt} (hsign : x.negative = y.negative)
    (hvalue : x.toRat = y.toRat) : x = y := by
  have habs : (x.units : ℚ) / 2 ^ fmt.shift = y.units / 2 ^ fmt.shift := by
    rw [← abs_toRat, ← abs_toRat, hvalue]
  have hunits : x.units = y.units := by
    rw [div_left_inj' (by positivity)] at habs
    exact_mod_cast habs
  -- ranks are ordered as magnitudes, so none is shared
  have hrank : x.rank = y.rank := Fin.ext (fmt.unitsOfRank_strictMono.injective hunits)
  obtain ⟨_, _⟩ := x
  obtain ⟨_, _⟩ := y
  exact congr (congrArg mk hsign) hrank

/-- A float is in a wide format in one way only. -/
theorem Widens.unique {x : Binary fmt} {y y' : Binary wide} (h : x.Widens y) (h' : x.Widens y')
    (hx : x.isFinite = true) : y = y' :=
  eq_of_toRat (h.negative.trans h'.negative.symm) ((h.toRat hx).trans (h'.toRat hx).symm)

/-- **What was widened is rounded back to itself.** -/
theorem Widens.convert_eq (hfmt : fmt.Proper) {x : Binary fmt} {y : Binary wide}
    (h : x.Widens y) (hx : x.isFinite = true) : y.convert fmt = x := by
  have hrounds : fmt.Rounds x.rank.val |y.toRat| := by
    apply Format.rounds_units
    rw [h.toRat hx, abs_toRat, div_mul_cancel₀ _ (by positivity), units]
  rw [convert_eq_ofRank hfmt (h.isFinite.trans hx) hrounds, h.negative, ofRank_rank hx]

/-- If a narrow float has the value of a wide one, the wide one is a narrow one widened. They need
not be the same narrow float, since the two zeros have one value. -/
theorem exists_widens {x : Binary wide} {y : Binary fmt} (hx : x.isFinite = true)
    (hy : y.isFinite = true) (hvalue : y.toRat = x.toRat) :
    ∃ y' : Binary fmt, y'.isFinite = true ∧ y'.Widens x := by
  -- the sign is taken from the wide float and the magnitude from the narrow one
  let y' : Binary fmt := ⟨x.negative, y.rank⟩
  have hy' : y'.isFinite = true := hy
  have hmagnitude : (x.units : ℚ) / 2 ^ wide.shift = y'.units / 2 ^ fmt.shift := by
    calc (x.units : ℚ) / 2 ^ wide.shift = |x.toRat| := x.abs_toRat.symm
      _ = |y.toRat| := by rw [hvalue]
      _ = y'.units / 2 ^ fmt.shift := y.abs_toRat
  refine ⟨y', hy', rfl, hx.trans hy'.symm, ?_, fun _ => ?_⟩
  · rw [isNaN_of_isFinite hx, isNaN_of_isFinite hy']
  · rw [toRat, toRat, hmagnitude]

/-- **The test of narrowing.** The nearest single-precision float, widened again, is the same number
exactly if nothing was lost on the way. -/
theorem sameNumber_convert_iff {x : Float64Bits} (hx : x.isFinite = true) :
    ((x.convert .binary32).convert .binary64).sameNumber x = true ↔
      (x.convert .binary32).Widens x := by
  have hwidens := widens_binary64 (x.convert .binary32)
  have hsign : ((x.convert .binary32).convert .binary64).negative = x.negative := by
    rw [negative_convert, negative_convert]
  constructor
  · intro h
    generalize (x.convert .binary32).convert .binary64 = z at h hsign hwidens
    simp only [sameNumber, Bool.and_eq_true, Bool.or_eq_true, beq_iff_eq] at h
    -- the same float, or two zeros
    rcases h.2 with rfl | ⟨hz, hzero⟩
    · exact hwidens
    · -- two zeros are the same number, and here they have the same sign
      have hrank : z.rank.val = x.rank.val :=
        (of_decide_eq_true hz).trans (of_decide_eq_true hzero).symm
      have heq : z = x := eq_of_toRat hsign (by rw [toRat, toRat, units, units, hsign, hrank])
      exact heq ▸ hwidens
  · intro h
    rw [hwidens.unique h (h.isFinite.symm.trans hx)]
    simp [sameNumber, isNaN_of_isFinite hx]

end Binary
end DocStream
