import DocStream.Number.Shortest
import DocStream.Proofs.Number.Nearest

/-!
# Shortest texts read back

The spelling of a finite float lies in the float's rounding interval, so that reading it gives the
float again. How short it is plays no part in that: every point that the search can stop at lies in
the interval, and the layout keeps the value of the digits.

* `Shortest.search_contains` — the search stops in the interval;
* `Shortest.search_near` — and it stops at a point nearest to the float on its grid;
* `Shortest.decimal_rounds` — **shortest digits round to the float** they were made for;
* `Binary.decimal_layout` — the layout of digits denotes what the digits denote;
* `Binary.toFloat64?_toNumeral` — **a double-precision float is read back as itself**.

The interval is scaled so that decimal grids have natural numbers for their points: all is counted
in half units of a power of ten, and the ends are the midpoints to the neighbouring floats. The
search goes from the coarsest grid to the finest, and in the last step there is always the value
itself.
-/

namespace DocStream

/-! ### Rounding intervals on the grid -/

namespace RoundingInterval

/-- A point of the interval lies between the ends, strictly if they do not belong to it. -/
theorem contains_iff {i : RoundingInterval} {x : Nat} :
    i.contains x = true ↔ i.low ≤ x ∧ x ≤ i.high ∧ (i.closed = false → i.low < x ∧ x < i.high) := by
  rw [contains]
  cases i.closed with
  | true => simp
  | false =>
    simp only [Bool.false_eq_true, if_false, Bool.and_eq_true, decide_eq_true_eq, true_implies]
    omega

variable {fmt : Format}

/-- **A point of a rank's interval rounds to the rank.** The ends count where they do because ties
go to the even rank. -/
theorem rounds_of_contains {r x : Nat} (h : (ofRank fmt r).contains x = true) {q : ℚ}
    (hq : 2 * (q * 10 ^ fmt.shift) = x) : fmt.Rounds r q := by
  obtain ⟨hlow, hhigh, hopen⟩ := contains_iff.mp h
  have hfive : (0 : ℚ) < 5 ^ fmt.shift := by positivity
  -- the grid is finer than that of the ranks by a power of five
  have hx : 2 * (q * 2 ^ fmt.shift) * 5 ^ fmt.shift = x := by
    rw [← hq, show (10 : ℚ) = 2 * 5 by norm_num, mul_pow]
    ring
  have hodd : r % 2 = 1 → (ofRank fmt r).low < x ∧ x < (ofRank fmt r).high := by
    intro h
    exact hopen (decide_eq_false (by omega))
  constructor
  · refine le_of_mul_le_mul_right ?_ hfive
    rw [hx]
    exact_mod_cast hlow
  · refine le_of_mul_le_mul_right ?_ hfive
    rw [hx]
    exact_mod_cast hhigh
  · intro h
    refine lt_of_mul_lt_mul_right ?_ hfive.le
    rw [hx]
    exact_mod_cast (hodd h).1
  · intro h
    refine lt_of_mul_lt_mul_right ?_ hfive.le
    rw [hx]
    exact_mod_cast (hodd h).2

/-- The value of a positive float is a point of its interval, so the search has an answer at its
end. -/
theorem contains_value (fmt : Format) {r : Nat} (hr : 0 < r) :
    (ofRank fmt r).contains (2 * ((ofRank fmt r).value / 2)) = true := by
  -- the ranks on both sides have other magnitudes, so the value is inside and not at an end
  have hprev := fmt.unitsOfRank_strictMono (Nat.sub_lt hr Nat.one_pos)
  have hnext := fmt.unitsOfRank_strictMono (Nat.lt_add_one r)
  have hfive : 0 < 5 ^ fmt.shift := Nat.pow_pos (by decide)
  -- the value is a whole number of units, and only the ends need the halves
  have hhalf : 2 * ((ofRank fmt r).value / 2) =
      (fmt.unitsOfRank r + fmt.unitsOfRank r) * 5 ^ fmt.shift := by
    rw [ofRank]
    dsimp only
    rw [Nat.mul_assoc, Nat.mul_div_cancel_left _ (by decide)]
    ring
  have hlow : (ofRank fmt r).low < 2 * ((ofRank fmt r).value / 2) := by
    rw [hhalf]
    exact Nat.mul_lt_mul_of_pos_right (by omega) hfive
  have hhigh : 2 * ((ofRank fmt r).value / 2) < (ofRank fmt r).high := by
    rw [hhalf]
    exact Nat.mul_lt_mul_of_pos_right (by omega) hfive
  exact contains_iff.mpr ⟨hlow.le, hhigh.le, fun _ => ⟨hlow, hhigh⟩⟩

/-! ### Points nearest to the value -/

/-- A point above the low end that is not in the interval is not below the high end. -/
theorem high_le_of_not_contains {i : RoundingInterval} {x : Nat} (h : i.contains x = false)
    (hx : i.low < x) : i.high ≤ x := by
  by_contra hlt
  have hlt := Nat.lt_of_not_le hlt
  rw [contains_iff.mpr ⟨hx.le, hlt.le, fun _ => ⟨hx, hlt⟩⟩] at h
  exact nomatch h

/-- A point below the high end that is not in the interval is not above the low end. -/
theorem le_low_of_not_contains {i : RoundingInterval} {x : Nat} (h : i.contains x = false)
    (hx : x < i.high) : x ≤ i.low := by
  by_contra hlt
  have hlt := Nat.lt_of_not_le hlt
  rw [contains_iff.mpr ⟨hlt.le, hx.le, fun _ => ⟨hlt, hx⟩⟩] at h
  exact nomatch h

/-- **An interval that reaches equally far to both sides** of its value. -/
structure Symmetric (i : RoundingInterval) : Prop where
  low_lt : i.low < i.value
  sum : i.low + i.high = 2 * i.value

/-- The interval of an odd rank does: the rank does not start an exponent. -/
theorem symmetric_ofRank (hfmt : 0 < fmt.fractionBits) {r : Nat} (hodd : r % 2 = 1) :
    (ofRank fmt r).Symmetric := by
  have hprev := Format.unitsOfRank_pred_of_odd hfmt hodd
  have hspacing := fmt.spacing_pos r
  have hfive : 0 < 5 ^ fmt.shift := Nat.pow_pos (by decide)
  rw [ofRank]
  constructor
  · exact Nat.mul_lt_mul_of_pos_right (by omega) hfive
  · dsimp only
    rw [Format.unitsOfRank_succ, ← hprev]
    ring

end RoundingInterval

namespace Shortest

theorem candidate?_contains {i : RoundingInterval} {step n : Nat}
    (h : candidate? i step = some n) : i.contains (2 * step * n) = true := by
  rw [candidate?] at h
  -- both neighbours, the lower one alone, the upper one alone
  split at h
  · next hbelow habove =>
    split at h <;> injection h with h <;> rw [← h] <;> assumption
  · next hbelow _ =>
    injection h with h
    exact h ▸ hbelow
  · next _ habove =>
    injection h with h
    exact h ▸ habove
  · exact nomatch h

/-- **The search stops in the interval**, if the value itself is a point of it. How short its answer
is plays no part in this. -/
theorem search_contains {i : RoundingInterval} (hvalue : i.contains (2 * (i.value / 2)) = true)
    (places : Nat) : i.contains (2 * 10 ^ (search i places).2 * (search i places).1) = true := by
  -- from the coarsest grid on, and every candidate is a point
  induction places with
  | zero =>
    -- no coarser grid has a point, so the value itself is taken
    rw [search]
    dsimp only
    rw [Nat.pow_zero, Nat.mul_one]
    exact hvalue
  | succ places ih =>
    rw [search]
    split
    · next n hn => exact candidate?_contains hn
    · exact ih

/-- **A candidate is a point of the grid nearest to the value**, within half a step: the other
neighbour is farther away, or else out of an interval that is as wide on that side. -/
theorem candidate?_near {i : RoundingInterval} (hi : i.Symmetric) {step n : Nat} (hstep : 0 < step)
    (h : candidate? i step = some n) : ((2 * step * n : ℕ) - i.value : ℤ).natAbs ≤ step := by
  have hdiv := Nat.div_add_mod i.value (2 * step)
  have hmod := Nat.mod_lt i.value (show 0 < 2 * step by omega)
  have habove : 2 * step * (i.value / (2 * step) + 1) =
      2 * step * (i.value / (2 * step)) + 2 * step := Nat.mul_succ _ _
  have hlow := hi.low_lt
  have hsum := hi.sum
  rw [candidate?] at h
  rw [habove] at h
  split at h
  · -- both neighbours: the nearer one is taken
    split at h <;> obtain rfl := Option.some.inj h <;> omega
  · next hin hout =>
    obtain rfl := Option.some.inj h
    have hle := RoundingInterval.high_le_of_not_contains hout (by omega)
    have := (RoundingInterval.contains_iff.mp hin).1
    omega
  · next hout hin =>
    obtain rfl := Option.some.inj h
    have hle := RoundingInterval.le_low_of_not_contains hout (by omega)
    have := (RoundingInterval.contains_iff.mp hin).2.1
    omega
  · exact nomatch h

/-- **The search stops at a point nearest to the value** on its grid, as long as the interval
reaches equally far to both sides. -/
theorem search_near {i : RoundingInterval} (hi : i.Symmetric) (heven : 2 * (i.value / 2) = i.value)
    (places : Nat) :
    ((2 * 10 ^ (search i places).2 * (search i places).1 : ℕ) - i.value : ℤ).natAbs ≤
      10 ^ (search i places).2 := by
  -- the last grid has the value itself, and on the others the candidates are near
  induction places with
  | zero =>
    rw [search]
    dsimp only
    omega
  | succ places ih =>
    rw [search]
    split
    · next n hn => exact candidate?_near hi (Nat.pow_pos (by decide)) hn
    · exact ih

/-- What the search finds for the positive float of a rank: a point of a grid and its places. The
coarsest grid it tries has as many places as the value has digits. -/
def found (fmt : Format) (r : Nat) : Nat × Nat :=
  search (.ofRank fmt r) (Digits.count ((RoundingInterval.ofRank fmt r).value / 2))

/-- **Shortest digits are the point that the search finds**, in half units. -/
theorem toRat_decimal (fmt : Format) (r : Nat) :
    2 * ((decimal fmt r).toRat * 10 ^ fmt.shift) =
      (2 * 10 ^ (found fmt r).2 * (found fmt r).1 : ℕ) := by
  have hdecimal : decimal fmt r =
      Decimal.normal ⟨(found fmt r).1, fmt.shift - (found fmt r).2⟩ := rfl
  -- `places` digits were dropped from a number with `shift` of them after the point
  have hpow : ∀ places : Nat,
      (10 : ℚ) ^ (-((fmt.shift : ℤ) - places)) * 10 ^ fmt.shift = 10 ^ places := by
    intro places
    rw [← zpow_natCast, ← zpow_natCast, ← zpow_add₀ (by norm_num)]
    congr 1
    omega
  rw [hdecimal, Decimal.toRat_normal, Decimal.toRat]
  push_cast
  rw [mul_assoc, hpow]
  ring

variable {fmt : Format}

/-- **Shortest digits round to the float** they were made for. -/
theorem decimal_rounds (fmt : Format) {r : Nat} (hr : 0 < r) :
    fmt.Rounds r (decimal fmt r).toRat :=
  RoundingInterval.rounds_of_contains
    (search_contains (RoundingInterval.contains_value fmt hr) _) (toRat_decimal fmt r)

/-- Shortest digits are not negative, as the sign is put in front of them. -/
theorem decimal_nonneg {r : Nat} (hr : 0 < r) : 0 ≤ (decimal fmt r).toRat := by
  have hlow := (decimal_rounds fmt hr).low
  have hunits : (0 : ℚ) ≤ fmt.unitsOfRank (r - 1) + fmt.unitsOfRank r := by positivity
  have hpos : (0 : ℚ) < 2 ^ fmt.shift := by positivity
  exact nonneg_of_mul_nonneg_left (by linarith) hpos

end Shortest

/-! ### Layout -/

/-- An exponent that was made from an integer has its value. -/
theorem Exponent.toInt_ofInt (e : ℤ) : (ofInt e).toInt = e := by
  have hvalue := Digits.value_ofNat e.natAbs
  rw [ofInt]
  split
  · next h =>
    have hpos := Digits.count_pos e.natAbs
    rw [Digits.count, h] at hpos
    exact absurd hpos (Nat.lt_irrefl 0)
  · next d ds h =>
    rw [h] at hvalue
    rw [toInt]
    dsimp only
    rw [hvalue]
    split
    · next hneg =>
      have := of_decide_eq_true hneg
      omega
    · next hneg =>
      have : ¬e < 0 := fun h => hneg (decide_eq_true h)
      omega

namespace Binary

theorem negative_layout (negative : Bool) (d : Decimal) :
    (layout negative d).negative = negative := by
  rw [layout]
  dsimp only
  split_ifs <;> rfl

/-- **The layout of digits denotes what the digits denote**, the sign aside. The layouts differ in
where the zeros and the point go, and each is a case of its own. -/
theorem decimal_layout (negative : Bool) (d : Decimal) :
    |(layout negative d).decimal.toRat| = |d.toRat| := by
  have hcount := Digits.count_pos d.unscaled.natAbs
  rw [Decimal.abs_toRat, Decimal.abs_toRat, Numeral.decimal, Numeral.natAbs_unscaled, layout]
  rw [Digits.count] at hcount
  dsimp only
  split_ifs with hexp hwhole hamong
  · -- one digit, the others after the point, and an exponent
    have hdrop := Digits.valueFrom_drop (n := d.unscaled.natAbs)
      (k := (Digits.ofNat d.unscaled.natAbs).length - 1) (by rw [Digits.count]; omega)
    rw [Nat.sub_sub_self hcount] at hdrop
    rw [hdrop, Numeral.scale, Numeral.exponentValue]
    dsimp only [Option.map_some, Option.getD_some]
    rw [Exponent.toInt_ofInt, List.length_drop]
    congr 2
    omega
  · -- all digits before the point, and a zero after it
    have hpow : (10 : ℚ) ^ (-d.scale) = 10 ^ (-d.scale).toNat := by
      rw [← zpow_natCast]
      congr 1
      omega
    have hvalue : Digits.valueFrom (d.unscaled.natAbs * 10 ^ (-d.scale).toNat) [.zero] =
        10 * (d.unscaled.natAbs * 10 ^ (-d.scale).toNat) := rfl
    rw [hpow, hvalue, Numeral.scale, Numeral.exponentValue]
    dsimp only [Option.map_none, Option.getD_none, List.length_singleton]
    rw [Nat.cast_one, Int.sub_zero, zpow_neg_one]
    push_cast
    ring
  · -- the point among the digits
    have hdrop := Digits.valueFrom_drop (n := d.unscaled.natAbs) (k := d.scale.toNat)
      (by rw [Digits.count]; omega)
    rw [hdrop, Numeral.scale, Numeral.exponentValue]
    dsimp only [Option.map_none, Option.getD_none]
    rw [List.length_drop]
    congr 2
    omega
  · -- all digits after the point, and zeros in front of them
    have hvalue : Digits.valueFrom 0 (Digits.ofNat d.unscaled.natAbs) = d.unscaled.natAbs :=
      Digits.value_ofNat _
    rw [Digits.valueFrom_append, Digits.valueFrom_replicate_zero, hvalue, Numeral.scale,
      Numeral.exponentValue]
    dsimp only [Option.map_none, Option.getD_none]
    rw [List.length_append, List.length_replicate]
    congr 2
    omega

/-! ### Reading back -/

/-- The spelling of a float has its sign, that of zero as well. -/
theorem negative_toNumeral {fmt : Format} (x : Binary fmt) : x.toNumeral.negative = x.negative := by
  rw [toNumeral]
  split
  · rfl
  · exact negative_layout _ _

/-- The spelling of a float that is not zero denotes its shortest digits. -/
theorem abs_toRat_toNumeral {fmt : Format} {x : Binary fmt} (h : 0 < x.rank.val) :
    |x.toNumeral.decimal.toRat| = (Shortest.decimal fmt x.rank.val).toRat := by
  have hzero : ¬x.isZero = true := fun hzero => absurd (of_decide_eq_true hzero) h.ne'
  rw [toNumeral, if_neg hzero, decimal_layout, abs_of_nonneg (Shortest.decimal_nonneg h)]

/-- **The spelling of a float rounds to the float's rank.** This is all that reading needs to know
of it. -/
theorem toNumeral_rounds {fmt : Format} (x : Binary fmt) :
    fmt.Rounds x.rank.val |x.toNumeral.decimal.toRat| := by
  rcases Nat.eq_zero_or_pos x.rank.val with hrank | hrank
  · -- zero is spelled by itself, not by way of shortest digits
    have hzero : x.isZero = true := decide_eq_true hrank
    rw [toNumeral, if_pos hzero, hrank]
    refine Format.rounds_zero (abs_nonneg _) ?_
    have hrat : (Numeral.decimal ⟨x.negative, 0, [.zero], none⟩).toRat = 0 := by
      rw [Decimal.toRat_eq_zero, Numeral.decimal, ← Int.natAbs_eq_zero, Numeral.natAbs_unscaled]
      rfl
    rw [hrat, abs_zero, zero_mul, mul_zero]
    exact zero_le_one
  · rw [abs_toRat_toNumeral hrank]
    exact Shortest.decimal_rounds fmt hrank

/-- **A finite double-precision float is read back as itself**, the sign of a zero included. -/
theorem toFloat64?_toNumeral {x : Float64Bits} (h : x.isFinite = true) :
    x.toNumeral.toFloat64? = some x := by
  have hrank : x.rank.val < Format.binary64.infinityRank := of_decide_eq_true h
  rw [Numeral.toFloat64?_eq x.toNumeral_rounds, if_pos hrank, ofRank, dif_pos hrank,
    negative_toNumeral]

/-- A finite single-precision float is read as a finite double-precision one. Which one that is
depends on its digits, and need not be the float widened. -/
theorem exists_toFloat64?_toNumeral {x : Float32Bits} (h : x.isFinite = true) :
    ∃ y, x.toNumeral.toFloat64? = some y := by
  have hrank : x.rank.val < Format.binary32.infinityRank := of_decide_eq_true h
  obtain ⟨r, hr⟩ := exists_rounds Format.proper_binary64 x.toNumeral.decimal
  -- what is finite in single precision is far from infinity in double precision
  have hlt : r < Format.binary64.infinityRank := x.toNumeral_rounds.lt_infinityRank
    Format.proper_binary32 Format.proper_binary64 (by decide) hrank hr
  exact ⟨_, by rw [Numeral.toFloat64?_eq hr, if_pos hlt]⟩

end Binary
end DocStream
