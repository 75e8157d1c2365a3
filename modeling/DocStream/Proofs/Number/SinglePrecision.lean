import DocStream.Proofs.Number.DoubleRounding
import DocStream.Proofs.Number.NearMisses
import DocStream.Proofs.Number.Shortest

/-!
# Single precision read in double precision

The shortest text of a single-precision float is read in double precision and then narrowed, so it
is rounded twice. That goes wrong only where the text is so close to a midpoint that it reads as the
midpoint. Shortest digits are nearest to the float on a grid that is as coarse as the floats are
dense there, and only one point of such a grid is that close to a midpoint.

* `Shortest.strayRank` — the rank for which it goes wrong;
* `Shortest.nearMiss_of_midpoint` — a text that reads as a midpoint is **a near miss**;
* `Shortest.eq_strayRank_of_midpoint` — and there is only one;
* `Binary.convert_toFloat64?_toNumeral` — **every other float is read back as itself**.

The three parts of the argument come from elsewhere. Rounding twice fails at midpoints next to odd
ranks only; a text that reads as one differs from it by a tiny part; and such near misses of a
decimal grid and a multiple of the reach are excluded by computation, all but one. What is done here
is to put a float and its text into these terms.
-/

namespace DocStream

open Format

namespace Shortest

/-- **The stray rank**, of the float 7.038531e-26: its text reads as the midpoint to the next. It is
the only finite rank whose floats are not read back. -/
def strayRank : Nat := 0x15AE43FD

section Midpoint

variable {r s c : Nat} {v : ℚ}
  (hmid : 2 * (v * 2 ^ binary32.shift) = c * binary32.spacing r)
include hmid

/-- A midpoint, in half units of `10 ^ (-149)`, is a multiple of the reach. -/
theorem midpoint_eq_reach_mul :
    2 * (v * 10 ^ binary32.shift) = (reach (binary32.spacingExponent r) * c : ℕ) := by
  have hten : (10 : ℚ) ^ binary32.shift = 2 ^ binary32.shift * 5 ^ binary32.shift := by
    rw [← mul_pow]
    norm_num
  calc 2 * (v * 10 ^ binary32.shift)
      = 2 * (v * 2 ^ binary32.shift) * 5 ^ binary32.shift := by
        rw [hten]
        ring
    _ = c * binary32.spacing r * 5 ^ binary32.shift := by rw [hmid]
    _ = (reach (binary32.spacingExponent r) * c : ℕ) := by
      rw [spacing_eq, reach]
      push_cast
      ring

/-- **A text that reads as a midpoint is close to it**, as double precision is. -/
theorem near_midpoint (hc : 0 < c) (hs : binary64.Rounds s (decimal binary32 r).toRat)
    (hv : v * 2 ^ binary64.shift = binary64.unitsOfRank s) :
    ((2 * 10 ^ (found binary32 r).2 * (found binary32 r).1 : ℕ) -
      (reach (binary32.spacingExponent r) * c : ℕ) : ℤ).natAbs * 2 ^ 53 ≤
      reach (binary32.spacingExponent r) * c := by
  have hone : (1 : ℚ) ≤ 2 * (v * 2 ^ binary32.shift) := by
    rw [hmid]
    exact_mod_cast Nat.mul_pos hc (binary32.spacing_pos r)
  have hnear : |(decimal binary32 r).toRat - v| * 2 ^ 53 ≤ v := inside_binary64.near hs hv hone
  have htext := toRat_decimal binary32 r
  have hpoint := midpoint_eq_reach_mul hmid
  generalize (decimal binary32 r).toRat = t at *
  generalize 2 * 10 ^ (found binary32 r).2 * (found binary32 r).1 = x at *
  generalize reach (binary32.spacingExponent r) * c = y at *
  -- the same in half units of powers of ten
  have hfactor : (0 : ℚ) < 2 * 10 ^ binary32.shift := by positivity
  have hdiff : (x : ℚ) - y = (t - v) * (2 * 10 ^ binary32.shift) := by
    rw [← htext, ← hpoint]
    ring
  have hrat : |(x : ℚ) - y| * 2 ^ 53 ≤ y := by
    rw [hdiff, abs_mul, abs_of_pos hfactor, ← hpoint]
    calc |t - v| * (2 * 10 ^ binary32.shift) * 2 ^ 53
        = |t - v| * 2 ^ 53 * (2 * 10 ^ binary32.shift) := by ring
      _ ≤ v * (2 * 10 ^ binary32.shift) := mul_le_mul_of_nonneg_right hnear hfactor.le
      _ = 2 * (v * 10 ^ binary32.shift) := by ring
  -- distances are taken between integers in the end
  have hcast : (((x : ℤ) - y).natAbs : ℚ) = |(x : ℚ) - y| := by
    rw [Nat.cast_natAbs]
    push_cast
    rfl
  rw [← hcast] at hrat
  exact_mod_cast hrat

end Midpoint

/-- The rounding interval of an odd rank, in terms of the reach. -/
theorem interval_eq {r : Nat} (hodd : r % 2 = 1) :
    (RoundingInterval.ofRank binary32 r).value =
        reach (binary32.spacingExponent r) * (2 * binary32.significand r) ∧
      (RoundingInterval.ofRank binary32 r).low + reach (binary32.spacingExponent r) =
        (RoundingInterval.ofRank binary32 r).value ∧
      (RoundingInterval.ofRank binary32 r).high =
        (RoundingInterval.ofRank binary32 r).value + reach (binary32.spacingExponent r) := by
  -- the rank is odd, so the rank before is one spacing away as well
  have hprev : binary32.unitsOfRank (r - 1) + binary32.spacing r = binary32.unitsOfRank r :=
    unitsOfRank_pred_of_odd (by decide) hodd
  have hunits := binary32.unitsOfRank_eq r
  rw [spacing_eq] at hprev hunits
  rw [RoundingInterval.ofRank, unitsOfRank_succ, spacing_eq, reach]
  dsimp only
  refine ⟨?_, ?_, ?_⟩
  · rw [hunits]
    ring
  · calc _ = (binary32.unitsOfRank (r - 1) + 2 ^ binary32.spacingExponent r +
          binary32.unitsOfRank r) * 5 ^ binary32.shift := by ring
      _ = _ := by
        rw [hprev]
        ring
  · ring

/-- A grid is coarse if its point nearest to a value is close to a midpoint and so almost as far
from the value as the midpoint is. -/
theorem coarse_of_near {distance step value x y : Nat}
    (hnear : ((x : ℤ) - y).natAbs * 2 ^ 53 ≤ y) (hsmall : y < distance * 2 ^ 25)
    (hend : y + distance = value ∨ y = value + distance)
    (hgrid : ((x : ℤ) - value).natAbs ≤ step) : distance * (2 ^ 28 - 1) < step * 2 ^ 28 := by
  omega

/-- **A text that reads as a midpoint next to its float is a near miss**, on a grid that is as
coarse as the floats are dense. -/
theorem nearMiss_of_midpoint {r s c : Nat} {v : ℚ} (hodd : r % 2 = 1)
    (hc : c + 1 = 2 * binary32.significand r ∨ c = 2 * binary32.significand r + 1)
    (hmid : 2 * (v * 2 ^ binary32.shift) = c * binary32.spacing r)
    (hs : binary64.Rounds s (decimal binary32 r).toRat)
    (hv : v * 2 ^ binary64.shift = binary64.unitsOfRank s) :
    NearMiss (2 ^ 53) (2 * 10 ^ (found binary32 r).2) (reach (binary32.spacingExponent r))
      (found binary32 r).1 c ∧
    reach (binary32.spacingExponent r) * (2 ^ 28 - 1) < 10 ^ (found binary32 r).2 * 2 ^ 28 := by
  have hpos : 0 < r := by omega
  have hopen : (RoundingInterval.ofRank binary32 r).closed = false := decide_eq_false (by omega)
  obtain ⟨hvalue, hlow, hhigh⟩ := interval_eq hodd
  have hnear := near_midpoint hmid (by omega) hs hv
  -- the text lies inside the interval, and the midpoint at one of its ends
  have hinside : (RoundingInterval.ofRank binary32 r).low <
        2 * 10 ^ (found binary32 r).2 * (found binary32 r).1 ∧
      2 * 10 ^ (found binary32 r).2 * (found binary32 r).1 <
        (RoundingInterval.ofRank binary32 r).high :=
    (RoundingInterval.contains_iff.mp (search_contains
      (RoundingInterval.contains_value binary32 hpos) _)).2.2 hopen
  have hgrid : ((2 * 10 ^ (found binary32 r).2 * (found binary32 r).1 : ℕ) -
      (RoundingInterval.ofRank binary32 r).value : ℤ).natAbs ≤ 10 ^ (found binary32 r).2 :=
    search_near (RoundingInterval.symmetric_ofRank (by decide) hodd)
      (Nat.mul_div_cancel' (hvalue ▸ (Nat.dvd_mul_right 2 _).mul_left _)) _
  have hbits : binary32.significand r < 2 * 2 ^ 23 := binary32.significand_lt r
  -- the midpoint is one reach away from the value
  have hend : reach (binary32.spacingExponent r) * c + reach (binary32.spacingExponent r) =
        (RoundingInterval.ofRank binary32 r).value ∨
      reach (binary32.spacingExponent r) * c =
        (RoundingInterval.ofRank binary32 r).value + reach (binary32.spacingExponent r) := by
    rw [hvalue, ← Nat.mul_succ, ← Nat.mul_succ]
    exact hc.imp (congrArg _) (congrArg _)
  have hsmall : reach (binary32.spacingExponent r) * c <
      reach (binary32.spacingExponent r) * 2 ^ 25 :=
    Nat.mul_lt_mul_of_pos_left (by omega) (reach_pos _)
  refine ⟨⟨?_, ?_⟩, coarse_of_near hnear hsmall hend hgrid⟩
  · exact_mod_cast hnear
  · omega

/-- **Only one text reads as a midpoint** next to its float. -/
theorem eq_strayRank_of_midpoint {r s c : Nat} {v : ℚ} (hr : r < binary32.infinityRank)
    (hodd : r % 2 = 1)
    (hc : c + 1 = 2 * binary32.significand r ∨ c = 2 * binary32.significand r + 1)
    (hmid : 2 * (v * 2 ^ binary32.shift) = c * binary32.spacing r)
    (hs : binary64.Rounds s (decimal binary32 r).toRat)
    (hv : v * 2 ^ binary64.shift = binary64.unitsOfRank s) : r = strayRank := by
  obtain ⟨hmiss, hplaces⟩ := nearMiss_of_midpoint hodd hc hmid hs hv
  have hparity : binary32.significand r % 2 = r % 2 := significand_mod_two (by decide) r
  have hbits : binary32.significand r < 2 * 2 ^ 23 := binary32.significand_lt r
  -- the exponents of finite floats are those that were checked
  have hexp : binary32.spacingExponent r < 254 := by
    have hdiv : r / 2 ^ 23 < 255 := (Nat.div_lt_iff_lt_mul (by decide)).mpr hr
    rw [spacingExponent]
    exact Nat.lt_of_le_of_lt (Nat.sub_le_sub_right (Nat.le_of_lt_succ hdiv) 1) (by decide)
  obtain ⟨hexponent, hsignificand⟩ := eq_of_nearMiss hexp (by omega) hplaces hmiss
  -- of the two ranks around that midpoint one is odd
  have hrank := binary32.rank_eq r
  rw [hexponent, show binary32.fractionBits = 23 from rfl] at hrank
  rw [strayRank]
  omega

/-- The two midpoints next to an odd rank, in units of its spacing. -/
theorem exists_mul_spacing {r : Nat} (hodd : r % 2 = 1) {u : ℚ}
    (h : u = binary32.unitsOfRank (r - 1) + binary32.unitsOfRank r ∨
      u = binary32.unitsOfRank r + binary32.unitsOfRank (r + 1)) :
    ∃ c : Nat, (c + 1 = 2 * binary32.significand r ∨ c = 2 * binary32.significand r + 1) ∧
      u = c * binary32.spacing r := by
  have hunits := binary32.unitsOfRank_eq r
  -- the midpoint before the rank, and the one after it
  rcases h with h | h
  · have hparity : binary32.significand r % 2 = r % 2 := significand_mod_two (by decide) r
    have hprev : binary32.unitsOfRank (r - 1) + binary32.spacing r = binary32.unitsOfRank r :=
      unitsOfRank_pred_of_odd (by decide) hodd
    obtain ⟨c, hc⟩ : ∃ c, c + 1 = 2 * binary32.significand r :=
      ⟨2 * binary32.significand r - 1, by omega⟩
    refine ⟨c, .inl hc, ?_⟩
    have hsum : binary32.unitsOfRank (r - 1) + binary32.unitsOfRank r = c * binary32.spacing r := by
      have hdouble : (c + 1) * binary32.spacing r = 2 * binary32.unitsOfRank r := by
        rw [hc, hunits]
        ring
      rw [Nat.succ_mul] at hdouble
      omega
    rw [h]
    exact_mod_cast hsum
  · refine ⟨_, .inr rfl, ?_⟩
    rw [h, unitsOfRank_succ, hunits]
    push_cast
    ring

end Shortest

/-! ### Reading back -/

namespace Binary

/-- **A finite single-precision float is read back as itself**, except for the stray one: the detour
by double precision stops short of the next midpoint. No bound on the exponent is asked for,
subnormal floats included. -/
theorem convert_toFloat64?_toNumeral {x : Float32Bits} {y : Float64Bits} (h : x.isFinite = true)
    (hstray : x.rank.val ≠ Shortest.strayRank) (hy : x.toNumeral.toFloat64? = some y) :
    y.convert .binary32 = x := by
  have hrank : x.rank.val < binary32.infinityRank := of_decide_eq_true h
  obtain ⟨s, hs⟩ := exists_rounds proper_binary64 x.toNumeral.decimal
  rw [Numeral.toFloat64?_eq hs] at hy
  split at hy
  case isFalse => exact nomatch hy
  case isTrue hlt =>
    obtain rfl := Option.some.inj hy
    have hy : (ofRank binary64 x.toNumeral.negative s) =
        ⟨x.toNumeral.negative, ⟨s, hlt.trans binary64.infinityRank_lt⟩⟩ := dif_pos hlt
    -- the double-precision float rounds to the rank that the text rounds to
    have hrounds : binary32.Rounds x.rank.val
        ((binary64.unitsOfRank s : ℚ) / (2 ^ binary64.shift : ℕ)) := by
      have hv : (binary64.unitsOfRank s : ℚ) / (2 ^ binary64.shift : ℕ) * 2 ^ binary64.shift =
          binary64.unitsOfRank s := by
        push_cast
        exact div_mul_cancel₀ _ (by positivity)
      rcases Rounds.by_way_of inside_binary64 hs hv x.toNumeral_rounds with hx | ⟨hodd, hmid⟩
      · exact hx
      · obtain ⟨c, hc, hmid⟩ := Shortest.exists_mul_spacing hodd hmid
        rw [abs_toRat_toNumeral (by omega)] at hs
        exact absurd (Shortest.eq_strayRank_of_midpoint hrank hodd hc hmid hs hv) hstray
    rw [convert, if_pos (isFinite_ofRank.mpr hlt), hy, units, ofQuotient,
      (nearestRank_eq_iff (by decide) (Nat.pow_pos (by decide))).mpr hrounds, ofRank, dif_pos hrank,
      negative_toNumeral]

end Binary
end DocStream
