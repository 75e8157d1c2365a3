import DocStream.Proofs.Number.Nearest

/-!
# The closest float

What rounding finds is said here by distances: no other float is closer to the number. It ends at
both sides. A number too close to zero has zero for its closest float, and one that lies half way to
where the float after the largest would be, or farther, is infinite.

* `Format.Rounds.abs_sub_le` — **no rank is closer** than the one a number rounds to;
* `Format.Rounds.eq_zero_iff` and `Format.Rounds.lt_infinityRank_iff` — where rounding ends;
* `Binary.Closest` — **the float closest to a rational**, and `Binary.closest_ofRank`, which float
  that is.

Distances are compared between magnitudes, in units of the smallest float, where a rank and the
number stand on one line. The step from there to the floats themselves is the sign: a float on the
other side of zero is no closer than the one of its magnitude on the same side.
-/

namespace DocStream

namespace Format

variable {fmt : Format} {r s : Nat} {q : ℚ}

/-! ### Distances -/

/-- **No rank is closer** to a number than the one it rounds to. -/
theorem Rounds.abs_sub_le (h : fmt.Rounds r q) (s : Nat) :
    |(fmt.unitsOfRank r : ℚ) - q * 2 ^ fmt.shift| ≤ |fmt.unitsOfRank s - q * 2 ^ fmt.shift| := by
  have hlow := h.low
  have hhigh := h.high
  -- the midpoints on both sides are all that is known of the number
  generalize q * 2 ^ fmt.shift = u at hlow hhigh ⊢
  rcases Nat.lt_trichotomy s r with hlt | rfl | hlt
  · -- a smaller rank is not closer than the one before
    have hs := fmt.cast_units_le (show s ≤ r - 1 by omega)
    have hr := fmt.cast_units_lt hlt
    rw [abs_of_nonpos (by linarith : (fmt.unitsOfRank s : ℚ) - u ≤ 0), abs_le]
    constructor <;> linarith
  · exact le_rfl
  · -- nor is a greater one closer than the one after
    have hs := fmt.cast_units_le (Nat.succ_le_of_lt hlt)
    have hr := fmt.cast_units_lt hlt
    rw [abs_of_nonneg (by linarith : (0 : ℚ) ≤ fmt.unitsOfRank s - u), abs_le]
    constructor <;> linarith

/-- **A tie goes to the even rank.** -/
theorem Rounds.even_of_tie (h : fmt.Rounds r q) (hne : s ≠ r)
    (htie : |(fmt.unitsOfRank s : ℚ) - q * 2 ^ fmt.shift| =
      |fmt.unitsOfRank r - q * 2 ^ fmt.shift|) : r % 2 = 0 := by
  by_contra hodd
  have hlow := h.low_odd (by omega)
  have hhigh := h.high_odd (by omega)
  -- the number would be the midpoint of the two, which an odd rank leaves to its neighbours
  rcases abs_eq_abs.mp htie with hsame | hmid
  · have hunits : (fmt.unitsOfRank s : ℚ) = fmt.unitsOfRank r := by linarith
    exact hne (fmt.unitsOfRank_strictMono.injective (by exact_mod_cast hunits))
  · rcases Nat.lt_or_gt_of_ne hne with hlt | hlt
    · linarith [fmt.cast_units_le (show s ≤ r - 1 by omega)]
    · linarith [fmt.cast_units_le (Nat.succ_le_of_lt hlt)]

/-! ### Where rounding ends -/

/-- **What rounds to zero** lies at most half way to the first rank. -/
theorem Rounds.eq_zero_iff (h : fmt.Rounds r q) (hq : 0 ≤ q) :
    r = 0 ↔ 2 * (q * 2 ^ fmt.shift) ≤ 1 := by
  constructor
  · rintro rfl
    have hone : fmt.unitsOfRank (0 + 1) = 1 :=
      unitsOfRank_of_le (by have := fmt.fractions_pos; omega)
    have hhigh := h.high
    rw [hone, unitsOfRank_zero] at hhigh
    push_cast at hhigh
    linarith
  · exact fun hsmall => h.unique (rounds_zero hq hsmall)

/-- **Infinity has an even rank**, as its fraction is zero. So the tie of the largest float and
infinity goes to infinity. -/
theorem Proper.even_infinityRank (h : fmt.Proper) : fmt.infinityRank % 2 = 0 := by
  obtain ⟨k, hk⟩ := Nat.exists_eq_succ_of_ne_zero h.fraction.ne'
  rw [infinityRank, hk, Nat.pow_succ, ← Nat.mul_assoc]
  exact Nat.mul_mod_left _ _

/-- The number from which on rounding gives infinity: half way from the largest float to where the
one after it would be. The last finite rank is odd, so the half way itself belongs to infinity. -/
def overflow (fmt : Format) : ℚ :=
  (fmt.unitsOfRank (fmt.infinityRank - 1) + fmt.unitsOfRank fmt.infinityRank) / 2 / 2 ^ fmt.shift

/-- **What rounds to a finite rank** lies below the half way to infinity. -/
theorem Rounds.lt_infinityRank_iff (h : fmt.Rounds r q) (hfmt : fmt.Proper) :
    r < fmt.infinityRank ↔ q < fmt.overflow := by
  have hpos := hfmt.infinityRank_pos
  rw [overflow, lt_div_iff₀ (by positivity)]
  constructor
  · intro hlt
    rcases Nat.lt_or_eq_of_le (Nat.le_sub_one_of_lt hlt) with hbelow | rfl
    · -- a rank before the last finite one
      have hr := fmt.cast_units_lt hbelow
      have hnext := fmt.cast_units_le
        (show r + 1 ≤ fmt.infinityRank by omega)
      linarith [h.high]
    · -- the last finite rank, which is odd, does not have the half way itself
      have heven := hfmt.even_infinityRank
      have hhigh := h.high_odd (by omega)
      rw [Nat.sub_add_cancel hpos] at hhigh
      linarith
  · intro hlt
    -- from the rank of infinity on, the midpoint below it is reached
    by_contra hle
    have hr := fmt.cast_units_le (Nat.not_lt.mp hle)
    have hprev := fmt.cast_units_le (Nat.sub_le_sub_right (Nat.not_lt.mp hle) 1)
    linarith [h.low]

/-- The half way to infinity, in the last place of the largest float. -/
theorem overflow_eq {k : Nat}
    (h : fmt.infinityRank = (k + 1 + fmt.shift) * 2 ^ fmt.fractionBits + 2 * 2 ^ fmt.fractionBits) :
    fmt.overflow = (2 ^ (fmt.fractionBits + 2) - 1) * 2 ^ k := by
  have hpos := fmt.fractions_pos
  -- the largest float has all the bits of its significand set
  have hlast : fmt.unitsOfRank (fmt.infinityRank - 1) =
      (2 * 2 ^ fmt.fractionBits - 1) * 2 ^ (k + 1 + fmt.shift) := by
    rw [h, Nat.add_sub_assoc (by omega)]
    exact unitsOfRank_significand (by omega) (by omega)
  have hinf : fmt.unitsOfRank fmt.infinityRank =
      2 * 2 ^ fmt.fractionBits * 2 ^ (k + 1 + fmt.shift) := by
    rw [h]
    exact unitsOfRank_significand (by omega) le_rfl
  rw [overflow, hlast, hinf, div_div, div_eq_iff (by positivity)]
  push_cast [Nat.cast_sub (show 1 ≤ 2 * 2 ^ fmt.fractionBits by omega)]
  ring

/-- Double precision ends half a unit of its last place after its largest float. -/
theorem overflow_binary64 : binary64.overflow = (2 ^ 54 - 1) * 2 ^ 970 :=
  overflow_eq (by decide)

/-- So does single precision. -/
theorem overflow_binary32 : binary32.overflow = (2 ^ 25 - 1) * 2 ^ 103 :=
  overflow_eq (by decide)

end Format

namespace Binary

variable {fmt : Format} {q : ℚ}

/-- **The float closest to a rational.** It has the sign of the rational, no finite float is closer,
and if another one is as close its rank is even. Only what is too large has an infinity instead. -/
structure Closest (x : Binary fmt) (q : ℚ) : Prop where
  negative : x.negative = decide (q < 0)
  closest : x.isFinite = true → ∀ y : Binary fmt, y.isFinite = true →
    |x.toRat - q| ≤ |y.toRat - q|
  even : x.isFinite = true → ∀ y : Binary fmt, y.isFinite = true → y.toRat ≠ x.toRat →
    |y.toRat - q| = |x.toRat - q| → x.rank.val % 2 = 0
  infinite : x.isFinite = false → fmt.overflow ≤ |q| ∧ x = infinity fmt x.negative

/-- The distance to a float is not less than the distance of the magnitudes. Where the signs are
different it is greater. -/
theorem abs_units_sub_le (y : Binary fmt) (q : ℚ) :
    |(y.units : ℚ) - |q| * 2 ^ fmt.shift| ≤ |y.toRat - q| * 2 ^ fmt.shift := by
  have hscaled : (y.units : ℚ) - |q| * 2 ^ fmt.shift = (|y.toRat| - |q|) * 2 ^ fmt.shift := by
    rw [sub_mul, abs_toRat, div_mul_cancel₀ _ (by positivity)]
  rw [hscaled, abs_mul, abs_of_pos (by positivity : (0 : ℚ) < 2 ^ fmt.shift)]
  exact mul_le_mul_of_nonneg_right (abs_abs_sub_abs_le _ _) (by positivity)

/-- The distance to a float of the same sign is the distance of the magnitudes. -/
theorem abs_units_sub {x : Binary fmt} (h : x.negative = decide (q < 0)) :
    |(x.units : ℚ) - |q| * 2 ^ fmt.shift| = |x.toRat - q| * 2 ^ fmt.shift := by
  have hpos : (0 : ℚ) < 2 ^ fmt.shift := by positivity
  have hscaled : x.toRat * 2 ^ fmt.shift = (if x.negative then -1 else 1) * x.units := by
    rw [toRat, mul_assoc, div_mul_cancel₀ _ hpos.ne']
  rw [show |x.toRat - q| * 2 ^ fmt.shift = |(x.toRat - q) * 2 ^ fmt.shift| by
    rw [abs_mul, abs_of_pos hpos], sub_mul, hscaled, h]
  -- the sign is taken out of both, and changing it does not change the distance
  by_cases hq : q < 0
  · rw [if_pos (decide_eq_true hq), abs_of_neg hq, ← abs_neg]
    ring_nf
  · rw [if_neg (by simpa using hq), abs_of_nonneg (not_lt.mp hq), one_mul]

/-- Two floats at the same distance from a number have different magnitudes, unless the number is
zero. -/
theorem abs_toRat_ne_of_tie {x y : Binary fmt} (hq : q ≠ 0) (hne : y.toRat ≠ x.toRat)
    (htie : |y.toRat - q| = |x.toRat - q|) : |y.toRat| ≠ |x.toRat| := by
  intro habs
  -- of the same magnitude they are the same or opposite, and opposite ones tie around zero only
  rcases abs_eq_abs.mp habs with heq | hneg
  · exact hne heq
  · rcases abs_eq_abs.mp htie with heq | hneg'
    · exact hne (by linarith)
    · exact hq (by linarith)

section

variable {r : Nat} (h : fmt.Rounds r |q|)

include h

/-- The float of the rank is finite exactly if the number is below the half way to infinity. -/
theorem isFinite_ofRank_iff {negative : Bool} (hfmt : fmt.Proper) :
    (ofRank fmt negative r).isFinite = true ↔ |q| < fmt.overflow :=
  isFinite_ofRank.trans (h.lt_infinityRank_iff hfmt)

/-- The float of the rank is zero exactly if the number is at most half the smallest float. -/
theorem isZero_ofRank_iff {negative : Bool} (hfmt : fmt.Proper) :
    (ofRank fmt negative r).isZero = true ↔ |q| ≤ 1 / 2 ^ (fmt.shift + 1) := by
  have hinf := hfmt.infinityRank_pos
  rw [isZero, decide_eq_true_iff, le_div_iff₀ (by positivity), pow_succ, ← mul_assoc,
    mul_comm _ (2 : ℚ), ← h.eq_zero_iff (abs_nonneg q), ofRank]
  split
  · exact Iff.rfl
  · next hle => exact iff_of_false hinf.ne' (by omega)

/-- **The float of the rank that a rational rounds to is the closest.** -/
theorem closest_ofRank (hfmt : fmt.Proper) : (ofRank fmt (q < 0) r).Closest q := by
  have hfinite_iff : (ofRank fmt (q < 0) r).isFinite = true ↔ |q| < fmt.overflow :=
    isFinite_ofRank_iff h hfmt
  have hrank : (ofRank fmt (q < 0) r).isFinite = true → (ofRank fmt (q < 0) r).rank.val = r :=
    fun hfinite => by rw [ofRank, dif_pos (isFinite_ofRank.mp hfinite)]
  have hsign : (ofRank fmt (q < 0) r).negative = decide (q < 0) := by
    rw [ofRank]
    split <;> rfl
  have hinfinite : (ofRank fmt (q < 0) r).isFinite = false →
      ofRank fmt (q < 0) r = infinity fmt (ofRank fmt (q < 0) r).negative := fun hinfinite => by
    have hle := mt isFinite_ofRank.mpr (Bool.eq_false_iff.mp hinfinite)
    rw [hsign, ofRank_of_le (Nat.not_lt.mp hle)]
  -- sign, rank and finiteness are all that is used of the float
  generalize ofRank fmt (q < 0) r = x at *
  have hx := abs_units_sub hsign
  refine ⟨hsign, fun hfinite y _ => ?_, fun hfinite y _ hne htie => ?_,
    fun hinf => ⟨?_, hinfinite hinf⟩⟩
  · -- distances are those of the magnitudes, and no rank is closer
    have hle := h.abs_sub_le y.rank.val
    rw [← hrank hfinite] at hle
    exact le_of_mul_le_mul_right (hx ▸ hle.trans (y.abs_units_sub_le q)) (by positivity)
  · have hle := h.abs_sub_le y.rank.val
    have hy := y.abs_units_sub_le q
    rw [htie, ← hx, units, units, hrank hfinite] at hy
    rw [hrank hfinite]
    -- at zero the rank is zero, and that is even
    by_cases hq : q = 0
    · rw [hq, abs_zero] at h
      rw [(h.eq_zero_iff le_rfl).mpr (by rw [zero_mul, mul_zero]; exact zero_le_one)]
    · refine h.even_of_tie (fun heq => abs_toRat_ne_of_tie hq hne htie ?_) (hy.antisymm hle)
      rw [abs_toRat, abs_toRat, units, units, heq, hrank hfinite]
  · exact not_lt.mp fun hlt => Bool.eq_false_iff.mp hinf (hfinite_iff.mpr hlt)

end

end Binary
end DocStream
