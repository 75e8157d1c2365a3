import DocStream.Narrow
import DocStream.Proofs.Number.Shortest

/-!
# Decimals spelled and read

The spelling of a decimal keeps its digits and, with few exceptions, its scale: up to fifteen zeros
are appended instead of being said by an exponent, and then the scale is zero.

* `Decimal.decimal_toNumeral` — **what the spelling of a decimal spells**;
* `Decimal.toRat_toNumeral` — it denotes the same;
* `Decimal.rescale_eq_of_toRat` — a decimal given the scale of another one that denotes the same;
* `Decimal.exists_read_iff` — **which decimals can be read** from their spelling.

The two exceptions are zero, which is spelled as the one digit, and decimals of a small negative
scale, whose zeros are appended. So a decimal read from its own spelling need not be the same
decimal, but it denotes the same, and rescaling gives it back.
-/

namespace DocStream

/-- A numeral spells a decimal if it has its sign, its digits and its scale. -/
theorem Numeral.decimal_of_parts {n : Numeral} {d : Decimal}
    (hsign : n.negative = decide (d.unscaled < 0))
    (hdigits : Digits.valueFrom n.whole n.fraction = d.unscaled.natAbs)
    (hscale : n.scale = d.scale) : n.decimal = d := by
  have hunscaled : n.unscaled = d.unscaled := by
    rw [unscaled, hdigits, hsign]
    -- with a minus the digits are negative, and the decimal is
    split
    · next h =>
      have := of_decide_eq_true h
      omega
    · next h =>
      have : ¬d.unscaled < 0 := fun hd => h (decide_eq_true hd)
      omega
  rw [decimal, hunscaled, hscale]

namespace Decimal

/-- Do appended zeros take the place of the scale? They do up to fifteen of them, and for a scale of
zero. -/
def IsPadded (d : Decimal) : Prop := -(maxAppendedZeros : ℤ) ≤ d.scale ∧ d.scale ≤ 0

instance (d : Decimal) : Decidable d.IsPadded := by
  unfold IsPadded
  infer_instance

/-- The decimal with zeros appended and no places. -/
def padded (d : Decimal) : Decimal := ⟨d.unscaled * 10 ^ (-d.scale).toNat, 0⟩

/-- Appended zeros take the place of the scale and change nothing of the number. -/
theorem toRat_padded {d : Decimal} (h : d.IsPadded) : d.padded.toRat = d.toRat := by
  rw [padded, toRat, toRat, zpow_neg_eq_div d.scale, Int.toNat_of_nonpos h.2]
  push_cast
  ring

theorem toNumeral_zero {d : Decimal} (h : d.unscaled = 0) :
    d.toNumeral = ⟨false, 0, [], none⟩ := by
  rw [toNumeral, if_pos (Int.natAbs_eq_zero.mpr h)]

/-- **What the spelling of a decimal spells**: the decimal itself, digit for digit, but for the
zeros that are appended in place of a small negative scale. -/
theorem decimal_toNumeral {d : Decimal} (h : d.unscaled ≠ 0) :
    d.toNumeral.decimal = if d.IsPadded then d.padded else d := by
  have hn : d.unscaled.natAbs ≠ 0 := Int.natAbs_ne_zero.mpr h
  have hcount := Digits.count_pos d.unscaled.natAbs
  rw [Digits.count] at hcount
  rw [toNumeral]
  dsimp only
  rw [if_neg hn]
  by_cases hbig : d.scale < -(maxAppendedZeros : ℤ)
  · -- all digits before the point, and an exponent
    rw [if_pos hbig, if_neg fun hpadded => absurd hpadded.1 (Int.not_le.mpr hbig)]
    refine Numeral.decimal_of_parts rfl rfl ?_
    rw [Numeral.scale, Numeral.exponentValue, Option.map_some, Option.getD_some,
      Exponent.toInt_ofInt, List.length_nil]
    omega
  by_cases hwhole : d.scale ≤ 0
  · -- zeros are appended
    rw [if_neg hbig, if_pos hwhole, if_pos ⟨Int.not_lt.mp hbig, hwhole⟩]
    refine Numeral.decimal_of_parts ?_ ?_ rfl
    · have hpow : (0 : ℤ) < 10 ^ (-d.scale).toNat := by positivity
      refine decide_eq_decide.mpr ⟨fun hneg => Int.mul_neg_of_neg_of_pos hneg hpow, fun hneg => ?_⟩
      exact lt_of_mul_lt_mul_right (hneg.trans_eq (zero_mul _).symm) hpow.le
    · rw [Digits.valueFrom_nil, padded, Int.natAbs_mul, Int.natAbs_pow]
      rfl
  have hnot : ¬d.IsPadded := fun hpadded => hwhole hpadded.2
  rw [if_neg hbig, if_neg hwhole, if_neg hnot]
  by_cases hamong : d.scale < (Digits.ofNat d.unscaled.natAbs).length
  · -- the point among the digits
    rw [if_pos hamong]
    refine Numeral.decimal_of_parts rfl
      (Digits.valueFrom_drop (by rw [Digits.count]; omega)) ?_
    rw [Numeral.scale, Numeral.exponentValue, Option.map_none, Option.getD_none, List.length_drop]
    omega
  rw [if_neg hamong]
  split
  · -- all digits after the point, and zeros in front of them
    refine Numeral.decimal_of_parts rfl ?_ ?_
    · rw [Digits.valueFrom_append, Digits.valueFrom_replicate_zero]
      exact Digits.value_ofNat _
    · rw [Numeral.scale, Numeral.exponentValue, Option.map_none, Option.getD_none,
        List.length_append, List.length_replicate]
      omega
  · -- one digit before the point, and an exponent
    have hdrop := Digits.valueFrom_drop (n := d.unscaled.natAbs)
      (k := (Digits.ofNat d.unscaled.natAbs).length - 1) (by rw [Digits.count]; omega)
    rw [Nat.sub_sub_self hcount] at hdrop
    refine Numeral.decimal_of_parts rfl hdrop ?_
    rw [Numeral.scale, Numeral.exponentValue, Option.map_some, Option.getD_some,
      Exponent.toInt_ofInt, List.length_drop]
    omega

/-- **The spelling of a decimal denotes what the decimal denotes**, in whichever of the layouts it
is written. -/
theorem toRat_toNumeral (d : Decimal) : d.toNumeral.decimal.toRat = d.toRat := by
  by_cases h : d.unscaled = 0
  · rw [toNumeral_zero h, toRat_eq_zero.mpr h, toRat_eq_zero]
    rfl
  · rw [decimal_toNumeral h]
    split
    · next hpadded => exact toRat_padded hpadded
    · rfl

/-- **A decimal given the scale of another one** that denotes the same becomes that one. So a
decimal is told by its number and its scale. -/
theorem rescale_eq_of_toRat {a b : Decimal} (h : a.toRat = b.toRat) : a.rescale b.scale = b := by
  have hdigits : b.toRat * 10 ^ b.scale = b.unscaled := by
    rw [toRat, mul_assoc, ← zpow_add₀ (by norm_num), neg_add_cancel, zpow_zero, mul_one]
  have hunscaled : (a.rescale b.scale).unscaled = b.unscaled := by
    rw [unscaled_rescale, h, hdigits, truncate_intCast]
  have hscale : (a.rescale b.scale).scale = b.scale := by
    rw [rescale]
    split_ifs <;> rfl
  calc a.rescale b.scale = ⟨(a.rescale b.scale).unscaled, (a.rescale b.scale).scale⟩ := rfl
    _ = ⟨b.unscaled, b.scale⟩ := by rw [hunscaled, hscale]

/-! ### Reading -/

/-- Decimals that denote the same number, not zero, have the same magnitude. -/
theorem magnitude_eq {a b : Decimal} (h : a.toRat = b.toRat) (ha : a.unscaled ≠ 0) :
    a.magnitude = b.magnitude := by
  have hb : b.unscaled ≠ 0 := fun hb => ha (toRat_eq_zero.mp (h.trans (toRat_eq_zero.mpr hb)))
  exact le_antisymm (magnitude_le h ha) (magnitude_le h.symm hb)

/-- Bounds keep what a decimal denotes: they let it through as it is, or as a plain zero. -/
theorem toRat_of_bounded? {d b : Decimal} (h : d.bounded? = some b) : b.toRat = d.toRat := by
  rw [bounded?] at h
  split at h
  · next h0 =>
    rw [← Option.some.inj h, toRat_eq_zero.mpr h0, toRat_eq_zero]
  · split at h
    · rw [Option.some.inj h]
    · exact nomatch h

/-- **A decimal of a magnitude that is read**: zero, or within the magnitudes of double precision.
-/
def InBounds (d : Decimal) : Prop :=
  d.unscaled = 0 ∨ (leastMagnitude ≤ d.magnitude ∧ d.magnitude ≤ greatestMagnitude)

/-- A decimal is let through by the bounds exactly if it is within them. -/
theorem exists_bounded?_iff {d : Decimal} : (∃ b, d.bounded? = some b) ↔ d.InBounds := by
  rw [bounded?, InBounds]
  by_cases h0 : d.unscaled = 0
  · rw [if_pos h0]
    exact ⟨fun _ => .inl h0, fun _ => ⟨_, rfl⟩⟩
  · rw [if_neg h0]
    by_cases hbounds : leastMagnitude ≤ d.magnitude ∧ d.magnitude ≤ greatestMagnitude
    · rw [if_pos hbounds]
      exact ⟨fun _ => .inr hbounds, fun _ => ⟨_, rfl⟩⟩
    · rw [if_neg hbounds]
      exact ⟨fun ⟨_, h⟩ => (nomatch h), fun h => absurd (h.resolve_left h0) hbounds⟩

theorem inBounds_of_bounded? {d b : Decimal} (h : d.bounded? = some b) : b.InBounds := by
  rw [bounded?] at h
  split at h
  · obtain rfl := Option.some.inj h
    exact .inl rfl
  · split at h
    · next hbounds =>
      obtain rfl := Option.some.inj h
      exact .inr hbounds
    · cases h

/-- **Another scale keeps the magnitude** as long as digits are left. -/
theorem magnitude_rescale {d : Decimal} {scale : ℤ} (h : (d.rescale scale).unscaled ≠ 0) :
    (d.rescale scale).magnitude = d.magnitude := by
  rw [rescale] at h ⊢
  -- nothing is left, digits are appended, or digits are cut off
  split at h
  · exact absurd rfl h
  · next h0 =>
    rw [if_neg h0]
    split at h
    · next hle =>
      -- as many digits more as there are places more
      rw [if_pos hle, magnitude, magnitude, digitCount, digitCount]
      dsimp only
      have hcut : (d.unscaled * 10 ^ (scale - d.scale).toNat).natAbs /
          10 ^ (scale - d.scale).toNat = d.unscaled.natAbs := by
        rw [Int.natAbs_mul, Int.natAbs_pow]
        exact Nat.mul_div_cancel _ (Nat.pow_pos (by decide))
      have hcount := Digits.count_div_pow (hcut ▸ Int.natAbs_ne_zero.mpr h0)
      rw [hcut] at hcount
      omega
    · next hgt =>
      -- as many digits less as there are places less
      rw [if_neg hgt, magnitude, magnitude, digitCount, digitCount]
      dsimp only at h ⊢
      have hcut : (d.unscaled.tdiv (10 ^ (d.scale - scale).toNat)).natAbs =
          d.unscaled.natAbs / 10 ^ (d.scale - scale).toNat := by
        rw [Int.natAbs_tdiv, Int.natAbs_pow]
        rfl
      rw [hcut]
      have hcount := Digits.count_div_pow (hcut ▸ Int.natAbs_ne_zero.mpr h)
      omega

/-- **Another scale stays within bounds**: cutting off leaves the magnitude or nothing. -/
theorem inBounds_rescale {d : Decimal} (h : d.InBounds) (scale : ℤ) :
    (d.rescale scale).InBounds := by
  by_cases h0 : (d.rescale scale).unscaled = 0
  · exact .inl h0
  · have hd : d.unscaled ≠ 0 := by
      intro hd
      rw [rescale, if_pos hd] at h0
      exact h0 rfl
    rw [InBounds, magnitude_rescale h0]
    exact .inr (h.resolve_left hd)

/-- Decimals that denote the same are within bounds together. -/
theorem inBounds_congr {a b : Decimal} (h : a.toRat = b.toRat) : a.InBounds ↔ b.InBounds := by
  by_cases ha : a.unscaled = 0
  · have hb : b.unscaled = 0 := toRat_eq_zero.mp (h.symm.trans (toRat_eq_zero.mpr ha))
    exact iff_of_true (.inl ha) (.inl hb)
  · have hb : b.unscaled ≠ 0 := fun hb => ha (toRat_eq_zero.mp (h.trans (toRat_eq_zero.mpr hb)))
    rw [InBounds, InBounds, magnitude_eq h ha]
    exact ⟨fun hbounds => .inr (hbounds.resolve_left ha),
      fun hbounds => .inr (hbounds.resolve_left hb)⟩

end Decimal

namespace Numeral

/-- **The decimal read off a numeral**, within bounds. It is what every reader of JSON numbers
starts from. -/
def read? (n : Numeral) : Option Decimal := n.toDecimal? >>= Decimal.bounded?

/-- What is read off a numeral denotes what the numeral spells. -/
theorem toRat_of_read? {n : Numeral} {b : Decimal} (h : n.read? = some b) :
    b.toRat = n.decimal.toRat := by
  obtain ⟨d, hd, hb⟩ := Option.bind_eq_some_iff.mp h
  rw [toDecimal?] at hd
  split at hd
  · rw [Decimal.toRat_of_bounded? hb, ← Option.some.inj hd]
    rfl
  · exact nomatch hd

/-- **Which numerals can be read**: those whose scale fits 64 bits and whose decimal is within
bounds. -/
theorem exists_read?_iff {n : Numeral} :
    (∃ b, n.read? = some b) ↔ Decimal.scaleInRange n.scale = true ∧ n.decimal.InBounds := by
  rw [read?, toDecimal?]
  by_cases hscale : Decimal.scaleInRange n.scale = true
  · rw [if_pos hscale]
    exact Decimal.exists_bounded?_iff.trans (and_iff_right hscale).symm
  · rw [if_neg hscale]
    exact ⟨fun ⟨_, h⟩ => (nomatch h), fun h => absurd h.1 hscale⟩

end Numeral

namespace Decimal

/-- **Which decimals can be read** from their spelling. For zero no scale is too large, as it is
spelled without one. -/
theorem exists_read_iff {d : Decimal} :
    (∃ b, d.toNumeral.read? = some b) ↔
      d.unscaled = 0 ∨ (scaleInRange d.scale = true ∧ d.InBounds) := by
  rw [Numeral.exists_read?_iff, inBounds_congr d.toRat_toNumeral]
  by_cases h0 : d.unscaled = 0
  · rw [toNumeral_zero h0]
    exact iff_of_true ⟨by decide, .inl h0⟩ (.inl h0)
  · rw [or_iff_right h0]
    refine and_congr_left fun _ => ?_
    have hscale : d.toNumeral.scale = (if d.IsPadded then d.padded else d).scale :=
      congrArg Decimal.scale (decimal_toNumeral h0)
    rw [hscale]
    split
    · next hpadded =>
      -- a few zeros appended, or none
      have hfits : scaleInRange d.scale = true := by
        obtain ⟨hlow, hhigh⟩ := hpadded
        rw [maxAppendedZeros] at hlow
        exact (Bool.and_eq_true _ _).mpr
          ⟨decide_eq_true (le_trans (by decide) hlow), decide_eq_true (hhigh.trans_lt (by decide))⟩
      exact iff_of_true (by decide : scaleInRange 0 = true) hfits
    · exact Iff.rfl

end Decimal
end DocStream
