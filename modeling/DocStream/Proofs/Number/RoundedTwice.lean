import DocStream.Proofs.Number.Closest
import DocStream.Proofs.Number.DoubleRounding

/-!
# Floats that were rounded twice

A number that is rounded to a wide format first and then to a narrow one becomes the float nearest
to the wide one, which need not be the one nearest to the number. If the wide float lies half way
between two of the narrow format, the tie goes to the even one of them, wherever the number lies. In
all other cases rounding twice gives what rounding once does.

* `Binary.Nearest` — **a finite float nearest to a rational**, whatever the sign of zero;
* `Binary.nearest_convert` — a change of format gives the nearest float, if that is finite;
* `Binary.nearest_convert_iff` — **when the float that was rounded twice is nearest** to the number.

The statement speaks of distances alone and not of ranks: a finite float of the narrow format that
is as far from the wide float, and closer to the number, is what would have been right. If there is
none, the tie did no harm. That such a float would be a neighbour is part of the proof.
-/

namespace DocStream

namespace Binary

variable {fmt wide : Format} {q : ℚ}

/-! ### Nearest floats -/

/-- **A finite float nearest to a rational**: no finite float is closer, and if one of another value
is as close, the rank is even. -/
structure Nearest (x : Binary fmt) (q : ℚ) : Prop where
  finite : x.isFinite = true
  closest : ∀ y : Binary fmt, y.isFinite = true → |x.toRat - q| ≤ |y.toRat - q|
  even : ∀ y : Binary fmt, y.isFinite = true → y.toRat ≠ x.toRat →
    |y.toRat - q| = |x.toRat - q| → x.rank.val % 2 = 0

/-- The float closest to a rational is nearest to it, if it is finite. -/
theorem Closest.nearest {x : Binary fmt} (h : x.Closest q) (hx : x.isFinite = true) :
    x.Nearest q :=
  ⟨hx, h.closest hx, h.even hx⟩

/-- A float is nearest to its own value. -/
theorem nearest_of_toRat_eq {x : Binary fmt} (hx : x.isFinite = true) (h : x.toRat = q) :
    x.Nearest q where
  finite := hx
  closest y _ := by
    rw [h, sub_self, abs_zero]
    exact abs_nonneg _
  even y _ hne htie := by
    rw [h, sub_self, abs_zero, abs_eq_zero, sub_eq_zero] at htie
    exact absurd (htie.trans h.symm) hne

/-- The exact value of the float of a finite rank. -/
theorem toRat_ofRank {negative : Bool} {r : Nat} (hr : r < fmt.infinityRank) :
    (ofRank fmt negative r).toRat =
      (if negative then -1 else 1) * (fmt.unitsOfRank r / 2 ^ fmt.shift) := by
  rw [ofRank, dif_pos hr]
  rfl

theorem units_ofRank {negative : Bool} {r : Nat} (hr : r < fmt.infinityRank) :
    (ofRank fmt negative r).units = fmt.unitsOfRank r := by
  rw [ofRank, dif_pos hr]
  rfl

/-- The float of a rank has the sign it was given, infinity as well. -/
theorem negative_ofRank (negative : Bool) (r : Nat) :
    (ofRank fmt negative r).negative = negative := by
  rw [ofRank]
  split <;> rfl

/-- **The float of the rank that a rational rounds to is nearest.** Zero may have either sign. -/
theorem nearest_ofRank (hfmt : fmt.Proper) {negative : Bool} {r : Nat} (h : fmt.Rounds r |q|)
    (hsign : q ≠ 0 → negative = decide (q < 0)) (hr : r < fmt.infinityRank) :
    (ofRank fmt negative r).Nearest q := by
  have hfinite : (ofRank fmt negative r).isFinite = true := isFinite_ofRank.mpr hr
  -- zero is met exactly, by either zero
  by_cases hq : q = 0
  · subst hq
    rw [abs_zero] at h
    obtain rfl := (h.eq_zero_iff le_rfl).mpr (by rw [zero_mul, mul_zero]; exact zero_le_one)
    apply nearest_of_toRat_eq hfinite
    rw [toRat_ofRank hr, Format.unitsOfRank_zero, Nat.cast_zero, zero_div, mul_zero]
  · rw [hsign hq] at hfinite ⊢
    exact (closest_ofRank h hfmt).nearest hfinite

/-- A finite float of the sign of a rational and the rank that it rounds to is nearest. -/
theorem nearest_of_rounds (hfmt : fmt.Proper) {x : Binary fmt} (hx : x.isFinite = true)
    (h : fmt.Rounds x.rank.val |q|) (hsign : q ≠ 0 → x.negative = decide (q < 0)) :
    x.Nearest q :=
  ofRank_rank hx ▸ nearest_ofRank hfmt h hsign (of_decide_eq_true hx)

/-- A float that is not zero shows the sign of its value. -/
theorem negative_eq_of_toRat_ne {x : Binary fmt} (h : x.toRat ≠ 0) :
    x.negative = decide (x.toRat < 0) := by
  have hunits : (0 : ℚ) < x.units / 2 ^ fmt.shift := by
    rw [← abs_toRat]
    exact abs_pos.mpr h
  cases hx : x.negative with
  | true =>
    rw [toRat, hx, if_pos rfl, neg_one_mul]
    exact (decide_eq_true (by linarith)).symm
  | false =>
    rw [toRat, hx, if_neg Bool.false_ne_true, one_mul]
    exact (decide_eq_false (by linarith)).symm

/-! ### A change of format -/

/-- The magnitude of a float as a quotient of natural numbers. -/
theorem abs_toRat_eq_div (x : Binary wide) : |x.toRat| = (x.units : ℚ) / (2 ^ wide.shift : ℕ) := by
  rw [abs_toRat]
  push_cast
  rfl

/-- A finite float in another format has the rank that its value rounds to. -/
theorem convert_eq_ofRank (hfmt : fmt.Proper) {x : Binary wide} (hx : x.isFinite = true) {r : Nat}
    (h : fmt.Rounds r |x.toRat|) : x.convert fmt = ofRank fmt x.negative r := by
  rw [abs_toRat_eq_div] at h
  rw [convert, if_pos hx, ofQuotient,
    (Format.nearestRank_eq_iff hfmt.fraction (Nat.pow_pos (by decide))).mpr h]

/-- The value of a float rounds to some rank of every format. -/
theorem exists_rounds_toRat (hfmt : fmt.Proper) (x : Binary wide) :
    ∃ r, fmt.Rounds r |x.toRat| := by
  rw [abs_toRat_eq_div]
  exact ⟨_, Format.nearestRank_rounds hfmt.fraction (Nat.pow_pos (by decide))⟩

/-- **A change of format** gives the nearest float, unless the value is too large. -/
theorem nearest_convert (hfmt : fmt.Proper) {x : Binary wide} (hx : x.isFinite = true) :
    ((x.convert fmt).isFinite = true ↔ |x.toRat| < fmt.overflow) ∧
      ((x.convert fmt).isFinite = true → (x.convert fmt).Nearest x.toRat) := by
  obtain ⟨r, hr⟩ := exists_rounds_toRat hfmt x
  rw [convert_eq_ofRank hfmt hx hr]
  exact ⟨isFinite_ofRank_iff hr hfmt, fun h =>
    nearest_ofRank hfmt hr negative_eq_of_toRat_ne (isFinite_ofRank.mp h)⟩

/-! ### Rounding twice -/

section Midpoint

variable {x : Binary wide} (hsign : x.negative = decide (q < 0)) (hx : x.toRat ≠ 0)
include hsign hx

/-- **The wrong side of a midpoint.** Where a wide float lies half way between two of a narrow
format, both are as far from it, but the number may be closer to one of them. -/
theorem closer_of_midpoint {a b : Nat} (ha : a < fmt.infinityRank) (hb : b < fmt.infinityRank)
    (hmid : 2 * (|x.toRat| * 2 ^ fmt.shift) = fmt.unitsOfRank a + fmt.unitsOfRank b)
    (hcloser : |(fmt.unitsOfRank a : ℚ) - |q| * 2 ^ fmt.shift| <
      |fmt.unitsOfRank b - |q| * 2 ^ fmt.shift|) :
    |(ofRank fmt x.negative a).toRat - x.toRat| = |(ofRank fmt x.negative b).toRat - x.toRat| ∧
      |(ofRank fmt x.negative a).toRat - q| < |(ofRank fmt x.negative b).toRat - q| := by
  have hpos : (0 : ℚ) < 2 ^ fmt.shift := by positivity
  have hown : x.negative = decide (x.toRat < 0) := negative_eq_of_toRat_ne hx
  -- all have one sign, so distances are those of the magnitudes
  have hdist : ∀ {r : Nat} {p : ℚ}, r < fmt.infinityRank → x.negative = decide (p < 0) →
      |(fmt.unitsOfRank r : ℚ) - |p| * 2 ^ fmt.shift| =
        |(ofRank fmt x.negative r).toRat - p| * 2 ^ fmt.shift := by
    intro r p hr hp
    rw [← abs_units_sub ((negative_ofRank _ _).trans hp), units_ofRank hr]
  rw [hdist ha hsign, hdist hb hsign] at hcloser
  refine ⟨?_, lt_of_mul_lt_mul_right hcloser hpos.le⟩
  apply mul_right_cancel₀ hpos.ne'
  rw [← hdist ha hown, ← hdist hb hown]
  -- a midpoint lies as far above the one as below the other
  have hopposite : (fmt.unitsOfRank a : ℚ) - |x.toRat| * 2 ^ fmt.shift =
      -(fmt.unitsOfRank b - |x.toRat| * 2 ^ fmt.shift) := by linarith
  rw [hopposite, abs_neg]

end Midpoint

end Binary

namespace Format.Rounds

variable {fmt : Format} {r : Nat}

/-- A midpoint rounds to the even one of its two ranks. -/
theorem of_midpoint {v : ℚ}
    (h : 2 * (v * 2 ^ fmt.shift) = fmt.unitsOfRank r + fmt.unitsOfRank (r + 1)) :
    (r % 2 = 0 → fmt.Rounds r v) ∧ ((r + 1) % 2 = 0 → fmt.Rounds (r + 1) v) := by
  have hprev := fmt.cast_units_le (Nat.sub_le r 1)
  have hmid := fmt.cast_units_le (Nat.le_succ r)
  have hnext := fmt.cast_units_le (Nat.le_succ (r + 1))
  constructor
  · intro heven
    exact ⟨by linarith, h.le, fun hodd => by omega, fun hodd => by omega⟩
  · intro heven
    exact ⟨by rw [Nat.add_sub_cancel, h], by linarith, fun hodd => by omega, fun hodd => by omega⟩

/-- What rounds to an odd rank is closer to it than to the ranks before and after. -/
theorem closer_of_odd {q : ℚ} (h : fmt.Rounds r q) (hodd : r % 2 = 1) :
    |(fmt.unitsOfRank r : ℚ) - q * 2 ^ fmt.shift| <
        |fmt.unitsOfRank (r - 1) - q * 2 ^ fmt.shift| ∧
      |(fmt.unitsOfRank r : ℚ) - q * 2 ^ fmt.shift| <
        |fmt.unitsOfRank (r + 1) - q * 2 ^ fmt.shift| := by
  have hlow := h.low_odd hodd
  have hhigh := h.high_odd hodd
  have hprev := fmt.cast_units_lt (show r - 1 < r by omega)
  have hnext := fmt.cast_units_lt (Nat.lt_succ_self r)
  -- the number lies strictly between the midpoints, so both distances have a known sign
  generalize q * 2 ^ fmt.shift = u at *
  rw [abs_of_neg (by linarith : (fmt.unitsOfRank (r - 1) : ℚ) - u < 0),
    abs_of_pos (by linarith : (0 : ℚ) < fmt.unitsOfRank (r + 1) - u), abs_lt, abs_lt]
  refine ⟨⟨?_, ?_⟩, ?_, ?_⟩ <;> linarith

end Format.Rounds

namespace Binary

variable {fmt wide : Format} {q : ℚ}

/-- **When a float that was rounded twice is nearest** to the number: if it is finite, and no float
that is as far from the wide one is closer to the number. -/
theorem nearest_convert_iff (hin : Format.Inside fmt wide) (hfmt : fmt.Proper) {x : Binary wide}
    (hfinite : x.isFinite = true) (hs : wide.Rounds x.rank.val |q|)
    (hsign : q ≠ 0 → x.negative = decide (q < 0)) {r : Nat} (hr : fmt.Rounds r |q|) :
    (x.convert fmt).Nearest q ↔ (x.convert fmt).isFinite = true ∧
      ∀ z : Binary fmt, z.isFinite = true →
        |z.toRat - x.toRat| = |(x.convert fmt).toRat - x.toRat| →
          |(x.convert fmt).toRat - q| ≤ |z.toRat - q| := by
  refine ⟨fun h => ⟨h.finite, fun z hz _ => h.closest z hz⟩, ?_⟩
  rintro ⟨hconvert, hties⟩
  have hv : |x.toRat| * 2 ^ wide.shift = wide.unitsOfRank x.rank.val := by
    rw [abs_toRat, div_mul_cancel₀ _ (by positivity)]
    rfl
  rcases Format.Rounds.by_way_of hin hs hv hr with hsame | ⟨hodd, hmid⟩
  · -- the wide float rounds as the number does
    rw [convert_eq_ofRank hfmt hfinite hsame] at hconvert ⊢
    exact nearest_ofRank hfmt hr hsign (isFinite_ofRank.mp hconvert)
  · -- the wide float is a midpoint, and its tie goes to the other side than the number is on
    exfalso
    have hpos := fmt.cast_units_lt (show 0 < r by omega)
    have hbelow : (0 : ℚ) ≤ fmt.unitsOfRank (r - 1) := Nat.cast_nonneg _
    have habove : (0 : ℚ) ≤ fmt.unitsOfRank (r + 1) := Nat.cast_nonneg _
    rw [Format.unitsOfRank_zero, Nat.cast_zero] at hpos
    have hq : q ≠ 0 := by
      rintro rfl
      have hlow := hr.low
      rw [abs_zero, zero_mul, mul_zero] at hlow
      linarith
    -- a midpoint next to an odd rank is not zero
    have hx : x.toRat ≠ 0 := by
      intro hzero
      rw [hzero, abs_zero, zero_mul, mul_zero] at hmid
      rcases hmid with hmid | hmid <;> linarith
    -- the even neighbour is what the midpoint rounds to, and the odd rank is as far from it and
    -- closer to the number
    have hclash : ∀ b, fmt.Rounds b |x.toRat| → b ≤ r + 1 → r ≤ b + 1 →
        2 * (|x.toRat| * 2 ^ fmt.shift) = fmt.unitsOfRank r + fmt.unitsOfRank b →
        |(fmt.unitsOfRank r : ℚ) - |q| * 2 ^ fmt.shift| <
          |fmt.unitsOfRank b - |q| * 2 ^ fmt.shift| → False := by
      intro b hb hle hge hmid hcloser
      rw [convert_eq_ofRank hfmt hfinite hb] at hconvert hties
      have hlt := isFinite_ofRank.mp hconvert
      -- infinity has an even rank
      have hrank : r < fmt.infinityRank := by
        have := hfmt.even_infinityRank
        omega
      obtain ⟨heq, hless⟩ := closer_of_midpoint (hsign hq) hx hrank hlt hmid hcloser
      exact absurd (hties _ (isFinite_ofRank.mpr hrank) heq) (not_le.mpr hless)
    obtain ⟨hcloser, hcloser'⟩ := hr.closer_of_odd hodd
    rcases hmid with hmid | hmid
    · have hsucc : r - 1 + 1 = r := by omega
      refine hclash (r - 1) ?_ (by omega) (by omega) (by rw [hmid, add_comm]) hcloser
      exact (Format.Rounds.of_midpoint (by rwa [hsucc])).1 (by omega)
    · refine hclash (r + 1) ?_ le_rfl (by omega) hmid hcloser'
      exact (Format.Rounds.of_midpoint hmid).2 (by omega)

end Binary
end DocStream
