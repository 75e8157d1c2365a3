import DocStream.Envelope.Payload
import DocStream.Proofs.Number.Rational
import DocStream.Proofs.Number.Rounding

/-!
# The float nearest to a decimal

Rounding a decimal depends on the number it denotes, not on the scale it is written with; decimals
of extreme magnitude, which are settled without being computed, are no exception.

* `Format.Proper` — formats whose two fields are not empty;
* `Binary.ofDecimal_eq` — **the nearest float** is the one of the rank that the rational rounds to;
* `Binary.toRat` — **the exact value of a float**, by which `Binary.equalsDecimal_iff` compares, and
  `Binary.equalsDecimal_eq_sameValue`, the same with the float's own digits;
* `Binary.ofDecimal_of_equalsDecimal` — a float that has exactly the value is the nearest one;
* `Numeral.toFloat64?_eq` — the double-precision float that a number is read as.

Beyond the bounds on magnitudes nothing is computed: a decimal with a large exponent would need a
power of ten of that size. There the answer is zero or infinity, and the bounds are wide enough for
that to be what rounding gives. So all three ways of getting a float are one, and the other modules
speak of `Format.Rounds` only.
-/

namespace DocStream

namespace Format

/-- A format whose two fields are not empty. -/
structure Proper (fmt : Format) : Prop where
  fraction : 0 < fmt.fractionBits
  exponent : 0 < fmt.exponentBits

theorem proper_binary32 : binary32.Proper := ⟨by decide, by decide⟩

theorem proper_binary64 : binary64.Proper := ⟨by decide, by decide⟩

variable {fmt : Format}

theorem Proper.infinityRank_pos (h : fmt.Proper) : 0 < fmt.infinityRank := by
  rw [infinityRank]
  refine Nat.mul_pos ?_ (Nat.pow_pos (by decide))
  have := Nat.pow_le_pow_right (n := 2) (by decide) h.exponent
  omega

/-- The magnitude of infinity, as if it were a number. -/
theorem Proper.unitsOfRank_infinityRank (h : fmt.Proper) :
    fmt.unitsOfRank fmt.infinityRank = 2 ^ fmt.fractionBits * 2 ^ (2 ^ fmt.exponentBits - 2) := by
  have htwo := Nat.pow_le_pow_right (n := 2) (by decide) h.exponent
  have hrank : fmt.infinityRank =
      (2 ^ fmt.exponentBits - 2) * 2 ^ fmt.fractionBits + 2 ^ fmt.fractionBits := by
    rw [infinityRank, ← Nat.succ_mul]
    congr 1
    omega
  rw [hrank, unitsOfRank_significand (Nat.le_refl _) (by omega)]

/-- Infinity is within the bound on magnitudes. -/
theorem Proper.unitsOfRank_infinityRank_le (h : fmt.Proper) :
    fmt.unitsOfRank fmt.infinityRank ≤ 10 ^ (fmt.shift + 2) * 2 ^ fmt.shift := by
  -- the shift has half of the exponents in it
  have hexp : 2 ^ fmt.exponentBits ≤ 2 * (fmt.shift + 2) := by
    obtain ⟨e, he⟩ := Nat.exists_eq_add_of_le h.exponent
    rw [shift, he, show 0 + 1 + e - 1 = e by omega, show 0 + 1 + e = e + 1 by omega, Nat.pow_succ]
    omega
  have hfrac : fmt.fractionBits ≤ fmt.shift := Nat.le_add_left _ _
  rw [h.unitsOfRank_infinityRank, ← Nat.pow_add]
  -- ten has more than three bits, and three times the shift is enough
  calc 2 ^ (fmt.fractionBits + (2 ^ fmt.exponentBits - 2))
      ≤ 2 ^ (3 * (fmt.shift + 2) + fmt.shift) := Nat.pow_le_pow_right (by decide) (by omega)
    _ = 8 ^ (fmt.shift + 2) * 2 ^ fmt.shift := by rw [Nat.pow_add, Nat.pow_mul]
    _ ≤ 10 ^ (fmt.shift + 2) * 2 ^ fmt.shift :=
      Nat.mul_le_mul_right _ (Nat.pow_le_pow_left (by decide) _)

/-- What is not below a rank's magnitude rounds to no smaller rank. -/
theorem Rounds.le_of_units_le {r s : Nat} {q : ℚ} (h : fmt.Rounds r q)
    (hq : (fmt.unitsOfRank s : ℚ) ≤ q * 2 ^ fmt.shift) : s ≤ r := by
  -- a smaller rank has its midpoint to the next below the number
  by_contra hlt
  have hlt := Nat.lt_of_not_le hlt
  linarith [h.high, fmt.cast_units_lt hlt, fmt.cast_units_le (Nat.succ_le_of_lt hlt)]

/-- What is not above a rank's magnitude rounds to no greater rank. -/
theorem Rounds.le_of_le_units {r s : Nat} {q : ℚ} (h : fmt.Rounds r q)
    (hq : q * 2 ^ fmt.shift ≤ fmt.unitsOfRank s) : r ≤ s := by
  -- a greater rank has its midpoint to the one before above the number
  by_contra hlt
  have hlt := Nat.lt_of_not_le hlt
  linarith [h.low, fmt.cast_units_le (show s ≤ r - 1 by omega),
    fmt.cast_units_lt (show r - 1 < r by omega)]

/-- What rounds to a rank is at least half the magnitude of any rank up to it. -/
theorem Rounds.units_le {r s : Nat} {q : ℚ} (h : fmt.Rounds r q) (hs : s ≤ r) :
    (fmt.unitsOfRank s : ℚ) ≤ 2 * (q * 2 ^ fmt.shift) := by
  have hprev : (0 : ℚ) ≤ fmt.unitsOfRank (r - 1) := Nat.cast_nonneg _
  linarith [h.low, fmt.cast_units_le hs]

/-- What rounds to a rank is at most the magnitude of any rank after it. -/
theorem Rounds.le_units {r s : Nat} {q : ℚ} (h : fmt.Rounds r q) (hs : r < s) :
    q * 2 ^ fmt.shift ≤ fmt.unitsOfRank s := by
  linarith [h.high, fmt.cast_units_le hs.le, fmt.cast_units_le (Nat.succ_le_of_lt hs)]

/-- What lies at most half way to the first rank rounds to zero. -/
theorem rounds_zero {q : ℚ} (hq : 0 ≤ q) (h : 2 * (q * 2 ^ fmt.shift) ≤ 1) : fmt.Rounds 0 q := by
  have hone : fmt.unitsOfRank (0 + 1) = 1 := unitsOfRank_of_le (by have := fmt.fractions_pos; omega)
  refine ⟨?_, ?_, fun hodd => absurd hodd (by decide), fun hodd => absurd hodd (by decide)⟩
  · rw [unitsOfRank_zero, Nat.cast_zero, zero_add]
    positivity
  · rw [hone, unitsOfRank_zero]
    push_cast
    linarith

/-- What is too small for the format's magnitudes rounds to zero. -/
theorem rounds_zero_of_lt {q : ℚ} (hq : 0 ≤ q) (h : q < 10 ^ (-(fmt.magnitudeBound : ℤ))) :
    fmt.Rounds 0 q := by
  refine rounds_zero hq ?_
  -- a power of two is at most the same power of ten
  have hpow : (2 : ℚ) * 2 ^ fmt.shift ≤ 10 ^ fmt.magnitudeBound := by
    calc (2 : ℚ) * 2 ^ fmt.shift = 2 ^ (fmt.shift + 1) := (pow_succ' 2 fmt.shift).symm
      _ ≤ 10 ^ (fmt.shift + 1) := pow_le_pow_left₀ (by norm_num) (by norm_num) _
      _ ≤ 10 ^ fmt.magnitudeBound := pow_le_pow_right₀ (by norm_num) (Nat.le_succ _)
  rw [zpow_neg, zpow_natCast, ← one_div, lt_div_iff₀ (by positivity)] at h
  calc 2 * (q * 2 ^ fmt.shift) = q * (2 * 2 ^ fmt.shift) := by ring
    _ ≤ q * 10 ^ fmt.magnitudeBound := mul_le_mul_of_nonneg_left hpow hq
    _ ≤ 1 := h.le

/-- What is too large for the format's magnitudes rounds to no finite rank. -/
theorem Proper.infinityRank_le_of_le (h : fmt.Proper) {r : Nat} {q : ℚ} (hr : fmt.Rounds r q)
    (hq : 10 ^ fmt.magnitudeBound ≤ q) : fmt.infinityRank ≤ r := by
  refine hr.le_of_units_le ?_
  calc (fmt.unitsOfRank fmt.infinityRank : ℚ) ≤ 10 ^ (fmt.shift + 2) * 2 ^ fmt.shift := by
        exact_mod_cast h.unitsOfRank_infinityRank_le
    _ ≤ q * 2 ^ fmt.shift := mul_le_mul_of_nonneg_right hq (by positivity)

/-- **What is finite in one format is finite in a wider one**: the powers of two at which the
formats become infinite are far enough apart. -/
theorem Rounds.lt_infinityRank {wide : Format} {r s : Nat} {q : ℚ} (h : fmt.Rounds r q)
    (hfmt : fmt.Proper) (hwide : wide.Proper)
    (hroom : fmt.fractionBits + (2 ^ fmt.exponentBits - 2) + wide.shift + 1 <
      wide.fractionBits + (2 ^ wide.exponentBits - 2) + fmt.shift)
    (hr : r < fmt.infinityRank) (hs : wide.Rounds s q) : s < wide.infinityRank := by
  -- otherwise the rational were below the one power of two and not below the other
  by_contra hle
  have hsmall := h.le_units hr
  have hlarge := hs.units_le (Nat.not_lt.mp hle)
  rw [hfmt.unitsOfRank_infinityRank, ← Nat.pow_add, Nat.cast_pow, Nat.cast_ofNat] at hsmall
  rw [hwide.unitsOfRank_infinityRank, ← Nat.pow_add, Nat.cast_pow, Nat.cast_ofNat] at hlarge
  generalize fmt.fractionBits + (2 ^ fmt.exponentBits - 2) = a at *
  generalize wide.fractionBits + (2 ^ wide.exponentBits - 2) = b at *
  have hgap : (2 : ℚ) ^ (a + wide.shift + 1) < 2 ^ (b + fmt.shift) :=
    pow_lt_pow_right₀ (by norm_num) hroom
  have hbound : (2 : ℚ) ^ (b + fmt.shift) ≤ 2 ^ (a + wide.shift + 1) := by
    calc (2 : ℚ) ^ (b + fmt.shift) = 2 ^ b * 2 ^ fmt.shift := pow_add _ _ _
      _ ≤ 2 * (q * 2 ^ wide.shift) * 2 ^ fmt.shift := by gcongr
      _ = 2 * (q * 2 ^ fmt.shift) * 2 ^ wide.shift := by ring
      _ ≤ 2 * 2 ^ a * 2 ^ wide.shift := by gcongr
      _ = 2 ^ (a + wide.shift + 1) := by ring
  linarith

/-- A rank's own magnitude rounds to the rank. -/
theorem rounds_units {r : Nat} {q : ℚ} (h : q * 2 ^ fmt.shift = fmt.unitsOfRank r) :
    fmt.Rounds r q := by
  have hprev := fmt.cast_units_le (Nat.sub_le r 1)
  have hnext := fmt.cast_units_lt (Nat.lt_succ_self r)
  refine ⟨by linarith, by linarith, fun hodd => ?_, fun _ => by linarith⟩
  -- zero, the only rank that has none before it, is even
  have hlt := fmt.cast_units_lt (Nat.sub_lt (n := r) (by omega) Nat.one_pos)
  linarith

end Format

namespace Binary

variable {fmt : Format}

theorem ofRank_of_le {negative : Bool} {r : Nat} (h : fmt.infinityRank ≤ r) :
    ofRank fmt negative r = infinity fmt negative := dif_neg (Nat.not_lt.mpr h)

/-- **The nearest float.** It has the given sign and the rank that the rational rounds to. -/
theorem ofDecimal_eq (hfmt : fmt.Proper) (negative : Bool) {d : Decimal} {r : Nat}
    (h : fmt.Rounds r |d.toRat|) : ofDecimal fmt negative d = ofRank fmt negative r := by
  have hzero : ofRank fmt negative 0 = zero fmt negative := dif_pos hfmt.infinityRank_pos
  rw [ofDecimal]
  split
  · next h0 =>
    -- zero
    rw [Decimal.toRat_eq_zero.mpr h0, abs_zero] at h
    rw [h.unique (Format.rounds_zero le_rfl (by rw [zero_mul, mul_zero]; exact zero_le_one)), hzero]
  · next h0 =>
    split
    · next hsmall =>
      -- a magnitude that is too small
      have hlt := d.abs_toRat_lt.trans_le (zpow_le_zpow_right₀ (by norm_num) hsmall.le)
      rw [h.unique (Format.rounds_zero_of_lt (abs_nonneg _) hlt), hzero]
    · split
      · next hlarge =>
        -- a magnitude that is too large
        have hle : (10 : ℚ) ^ fmt.magnitudeBound ≤ |d.toRat| := by
          rw [← zpow_natCast]
          exact (zpow_le_zpow_right₀ (by norm_num) (Int.le_sub_one_of_lt hlarge)).trans
            (Decimal.le_abs_toRat h0)
        rw [ofRank_of_le (hfmt.infinityRank_le_of_le h hle)]
      · -- between the bounds the rank is computed
        rw [ofQuotient, (Format.nearestRank_eq_iff hfmt.fraction d.denominator_pos).mpr
          (d.abs_toRat_eq_div ▸ h)]

/-- Every decimal rounds to some rank, if that of infinity and those after it are counted. -/
theorem exists_rounds (hfmt : fmt.Proper) (d : Decimal) : ∃ r, fmt.Rounds r |d.toRat| :=
  ⟨_, d.abs_toRat_eq_div ▸ Format.nearestRank_rounds hfmt.fraction d.denominator_pos⟩

/-- A float that has exactly the value of a decimal, sign aside. -/
theorem units_of_equalsDecimal {x : Binary fmt} {d : Decimal} (h : x.equalsDecimal d = true) :
    |d.toRat| * 2 ^ fmt.shift = x.units := by
  have hden : (0 : ℚ) < d.denominator := by exact_mod_cast d.denominator_pos
  have heq : x.units * d.denominator = d.numerator.natAbs * 2 ^ fmt.shift :=
    beq_iff_eq.mp ((Bool.and_eq_true _ _).mp h).1
  rw [Decimal.abs_toRat_eq_div, div_mul_eq_mul_div, div_eq_iff hden.ne']
  exact_mod_cast heq.symm

/-- **The exact value** of a float that is finite: its sign, and its magnitude in units of the
smallest positive float. Both zeros have the same. -/
def toRat (x : Binary fmt) : ℚ := (if x.negative then -1 else 1) * (x.units / 2 ^ fmt.shift)

theorem abs_toRat (x : Binary fmt) : |x.toRat| = x.units / 2 ^ fmt.shift := by
  rw [toRat, abs_mul, abs_of_nonneg (by positivity : (0 : ℚ) ≤ x.units / 2 ^ fmt.shift)]
  split_ifs <;> norm_num

/-- **A float is compared with a decimal by their values.** -/
theorem equalsDecimal_iff {x : Binary fmt} {d : Decimal} :
    x.equalsDecimal d = true ↔ x.toRat = d.toRat := by
  constructor
  · intro h
    -- the magnitudes are equal, and then the signs are, unless both are zero
    have habs : |d.toRat| = x.units / 2 ^ fmt.shift :=
      eq_div_of_mul_eq (by positivity) (units_of_equalsDecimal h)
    rcases (Bool.or_eq_true _ _).mp ((Bool.and_eq_true _ _).mp h).2 with hzero | hsign
    · -- both are zero
      rw [beq_iff_eq.mp hzero, Nat.cast_zero, zero_div] at habs
      rw [toRat, beq_iff_eq.mp hzero, Nat.cast_zero, zero_div, mul_zero, abs_eq_zero.mp habs]
    · rw [toRat, beq_iff_eq.mp hsign, ← habs]
      by_cases hneg : d.unscaled < 0
      · rw [if_pos (decide_eq_true hneg), abs_of_neg (Decimal.toRat_neg_iff.mpr hneg), neg_one_mul,
          neg_neg]
      · rw [if_neg fun h => hneg (of_decide_eq_true h),
          abs_of_nonneg (not_lt.mp (mt Decimal.toRat_neg_iff.mp hneg)), one_mul]
  · intro h
    have hden : (0 : ℚ) < d.denominator := by exact_mod_cast d.denominator_pos
    have hunits : x.units * d.denominator = d.numerator.natAbs * 2 ^ fmt.shift := by
      have habs := x.abs_toRat
      rw [h, Decimal.abs_toRat_eq_div, div_eq_div_iff hden.ne' (by positivity)] at habs
      exact_mod_cast habs.symm
    refine (Bool.and_eq_true _ _).mpr ⟨beq_iff_eq.mpr hunits, (Bool.or_eq_true _ _).mpr ?_⟩
    by_cases hzero : x.units = 0
    · exact .inl (beq_iff_eq.mpr hzero)
    · -- a value that is not zero shows the sign
      have hpos : (0 : ℚ) < x.units / 2 ^ fmt.shift := by
        have : 0 < x.units := Nat.pos_of_ne_zero hzero
        positivity
      refine .inr (beq_iff_eq.mpr ?_)
      rw [toRat] at h
      cases hneg : x.negative with
      | true =>
        rw [hneg, if_pos rfl, neg_one_mul] at h
        exact (decide_eq_true (Decimal.toRat_neg_iff.mp (by linarith))).symm
      | false =>
        rw [hneg, if_neg Bool.false_ne_true, one_mul] at h
        exact (decide_eq_false (mt Decimal.toRat_neg_iff.mpr (by linarith))).symm

/-- An integer times a power of two, as a decimal: a negative power of two is a power of five at a
scale of as many places. -/
theorem toRat_scaled (int exponent : ℤ) :
    Decimal.toRat (if 0 ≤ exponent then ⟨int * 2 ^ exponent.toNat, 0⟩
      else ⟨int * 5 ^ (-exponent).toNat, -exponent⟩) = int * 2 ^ exponent := by
  split_ifs with hexp
  · obtain ⟨k, rfl⟩ := Int.eq_ofNat_of_zero_le hexp
    rw [Decimal.toRat, neg_zero, zpow_zero, mul_one, Int.toNat_natCast, zpow_natCast]
    push_cast
    rfl
  · obtain ⟨k, rfl⟩ : ∃ k : ℕ, exponent = -k := ⟨(-exponent).toNat, by omega⟩
    have hpow : (5 : ℚ) ^ k * 10 ^ (-(k : ℤ)) = 2 ^ (-(k : ℤ)) := by
      rw [zpow_neg, zpow_neg, zpow_natCast, zpow_natCast, show (10 : ℚ) = 5 * 2 by norm_num,
        mul_pow]
      field_simp
    rw [Decimal.toRat, neg_neg, Int.toNat_natCast, Int.cast_mul, mul_assoc, ← hpow]
    push_cast
    rfl

/-- **The digits of a float are its value.** With and without the hidden bit, the significand counts
steps of the size of a power of two. So every finite float is a decimal, with as many places as the
power needs. -/
theorem toRat_exactDecimal (x : Binary fmt) : x.exactDecimal.toRat = x.toRat := by
  -- what is left to show for either layout of the fields
  have hvalue : ∀ (mantissa : Nat) (exponent : ℤ),
      (x.units : ℚ) / 2 ^ fmt.shift = mantissa * 2 ^ exponent →
      ((if x.negative then -(mantissa : ℤ) else mantissa : ℤ) : ℚ) * 2 ^ exponent = x.toRat := by
    intro mantissa exponent hunits
    rw [toRat, hunits]
    split_ifs
    · push_cast
      ring
    · push_cast
      ring
  unfold exactDecimal
  dsimp only
  by_cases hexp : x.rank.val / 2 ^ fmt.fractionBits = 0
  · rw [if_pos hexp]
    refine (toRat_scaled _ _).trans (hvalue _ _ ?_)
    rw [units, Format.unitsOfRank, if_pos hexp, zpow_neg, zpow_natCast, div_eq_mul_inv]
  · rw [if_neg hexp]
    refine (toRat_scaled _ _).trans (hvalue _ _ ?_)
    -- a normal float: its exponent field is one more than the power
    obtain ⟨e, he⟩ := Nat.exists_eq_succ_of_ne_zero hexp
    have hshift : ((x.rank.val / 2 ^ fmt.fractionBits : ℕ) : ℤ) - 1 - fmt.shift = e - fmt.shift := by
      omega
    rw [units, Format.unitsOfRank, if_neg hexp, hshift, he, zpow_sub₀ (by norm_num), zpow_natCast,
      zpow_natCast]
    push_cast
    exact mul_div_assoc _ _ _

/-- **The test of the ladder is a comparison of decimals**: a float equals a decimal crosswise
exactly if its own digits are the same decimal. -/
theorem equalsDecimal_eq_sameValue (x : Binary fmt) (d : Decimal) :
    x.equalsDecimal d = x.exactDecimal.sameValue d := by
  rw [Bool.eq_iff_iff, equalsDecimal_iff, Decimal.sameValue_iff, toRat_exactDecimal]

/-- A finite float is the one of its sign and its rank. -/
theorem ofRank_rank {x : Binary fmt} (h : x.isFinite = true) :
    ofRank fmt x.negative x.rank.val = x := dif_pos (of_decide_eq_true h)

/-- **A finite float that has exactly the value of a decimal is the nearest one.** -/
theorem ofDecimal_of_equalsDecimal (hfmt : fmt.Proper) {x : Binary fmt} {d : Decimal}
    (hd : d.unscaled ≠ 0) (hx : x.isFinite = true) (h : x.equalsDecimal d = true) :
    ofDecimal fmt (d.unscaled < 0) d = x := by
  have hunits := units_of_equalsDecimal h
  have hsign : x.negative = decide (d.unscaled < 0) := by
    have hor := ((Bool.and_eq_true _ _).mp h).2
    -- the signs are compared unless the float is zero, which the decimal is not
    rcases (Bool.or_eq_true _ _).mp hor with hzero | hsign
    · have hpos : 0 < |d.toRat| := abs_pos.mpr (mt Decimal.toRat_eq_zero.mp hd)
      rw [beq_iff_eq.mp hzero, Nat.cast_zero] at hunits
      have : 0 < |d.toRat| * 2 ^ fmt.shift := by positivity
      exact absurd hunits this.ne'
    · exact beq_iff_eq.mp hsign
  rw [ofDecimal_eq hfmt _ (Format.rounds_units hunits), ← hsign, ofRank_rank hx]

/-- The float of a rank is finite exactly if the rank is below that of infinity. -/
theorem isFinite_ofRank {negative : Bool} {r : Nat} :
    (ofRank fmt negative r).isFinite = true ↔ r < fmt.infinityRank := by
  rw [isFinite, decide_eq_true_iff, ofRank]
  split
  · next h => exact iff_of_true h h
  · next h => exact iff_of_false (Nat.lt_irrefl _) h

end Binary

namespace Numeral

/-- The decimal that a number spells, whether its scale can be stored or not. -/
def decimal (n : Numeral) : Decimal := ⟨n.unscaled, n.scale⟩

/-- The digits of a number make up its magnitude, whatever the sign. -/
theorem natAbs_unscaled (n : Numeral) :
    n.unscaled.natAbs = Digits.valueFrom n.whole n.fraction := by
  rw [unscaled]
  split
  · rw [Int.natAbs_neg, Int.natAbs_natCast]
  · rw [Int.natAbs_natCast]

/-- The decimal of a number made from an integer is the integer, without places. -/
theorem decimal_ofInt (z : ℤ) : (ofInt z).decimal = ⟨z, 0⟩ := by
  have hunscaled : (ofInt z).unscaled = z := by
    rw [ofInt, unscaled]
    dsimp only
    rw [Digits.valueFrom_nil]
    split
    · next h =>
      have := of_decide_eq_true h
      omega
    · next h =>
      have : ¬z < 0 := fun hz => h (decide_eq_true hz)
      omega
  rw [decimal, hunscaled]
  rfl

/-- A number that is not zero is negative if it starts with a minus. -/
theorem negative_eq {n : Numeral} (h : n.unscaled ≠ 0) : n.negative = decide (n.unscaled < 0) := by
  rw [unscaled] at *
  cases hn : n.negative with
  | true =>
    rw [hn, if_pos rfl] at h
    rw [if_pos rfl]
    exact (decide_eq_true (by omega)).symm
  | false =>
    rw [if_neg Bool.false_ne_true]
    exact (decide_eq_false (by omega)).symm

/-- **The double-precision float that a number is read as**: the one of its sign and of the rank
that it rounds to, unless that is infinity. -/
theorem toFloat64?_eq {n : Numeral} {r : Nat} (h : Format.binary64.Rounds r |n.decimal.toRat|) :
    n.toFloat64? = if r < Format.binary64.infinityRank then some (.ofRank _ n.negative r)
      else none := by
  have hx := Binary.ofDecimal_eq Format.proper_binary64 n.negative h
  rw [decimal] at hx
  rw [toFloat64?, hx]
  exact if_congr Binary.isFinite_ofRank rfl rfl

theorem isFinite_of_toFloat64? {n : Numeral} {x : Float64Bits} (h : n.toFloat64? = some x) :
    x.isFinite = true := by
  rw [toFloat64?] at h
  split at h
  · next hfinite => exact Option.some.inj h ▸ hfinite
  · cases h

/-- Numbers of one sign and one value are read as the same float. -/
theorem toFloat64?_congr {m n : Numeral} (hsign : m.negative = n.negative)
    (hvalue : |m.decimal.toRat| = |n.decimal.toRat|) : m.toFloat64? = n.toFloat64? := by
  obtain ⟨r, hr⟩ := Binary.exists_rounds Format.proper_binary64 n.decimal
  rw [toFloat64?_eq hr, toFloat64?_eq (hvalue ▸ hr), hsign]

end Numeral
end DocStream
