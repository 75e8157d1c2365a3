import DocStream.Proofs.Number.Closest
import DocStream.Proofs.Value.Narrowest

/-!
# Where double precision ends

A fraction on the last rung of the ladder is given the closest float of double precision, and what
double precision cannot reach is refused. But the bounds for refusing are powers of ten, and those
of double precision are not: between them lie numbers that are accepted and become zero or an
infinity.

* `Decimal.inBounds_iff` — the bounds for refusing, said of the number;
* `Value.closest_of_text` — **the float that a number text becomes**, and when it is refused;
* `Value.lost_of_text` — a text at either end that is accepted and lost.

The bounds ask for the magnitude of a decimal, which is the place of its first digit. A number whose
first digit stands at a place is between two powers of ten, and so the bounds can be said of the
number without looking at its digits.
-/

namespace DocStream

/-- **The numbers that are read**: zero, and those from `10 ^ (-324)` on and below `10 ^ 309`. -/
theorem Decimal.inBounds_iff {d : Decimal} :
    d.InBounds ↔ d.toRat = 0 ∨ (10 ^ (-324 : ℤ) ≤ |d.toRat| ∧ |d.toRat| < 10 ^ (309 : ℤ)) := by
  rw [InBounds, toRat_eq_zero]
  by_cases h0 : d.unscaled = 0
  · exact iff_of_true (.inl h0) (.inl h0)
  · rw [or_iff_right h0, or_iff_right h0]
    -- the number lies between the powers of ten at its first digit and above
    have hlow := le_abs_toRat h0
    have hhigh := d.abs_toRat_lt
    refine and_congr ⟨fun h => ?_, fun h => ?_⟩ ⟨fun h => ?_, fun h => ?_⟩
    · exact (zpow_le_zpow_right₀ (by norm_num) (Int.sub_le_sub_right h 1)).trans hlow
    · have := (zpow_lt_zpow_iff_right₀ (by norm_num)).mp (h.trans_lt hhigh)
      rw [leastMagnitude]
      omega
    · exact hhigh.trans_le (zpow_le_zpow_right₀ (by norm_num) h)
    · have := (zpow_lt_zpow_iff_right₀ (by norm_num)).mp (hlow.trans_lt h)
      rw [greatestMagnitude]
      omega

namespace Value

/-- A text that is read is narrowed by the ladder. -/
theorem ofText?_of_read {text : String} {n : Numeral} {d : Decimal}
    (hscan : Numeral.scan text.toList = some (n, [])) (hread : Decimal.ofNumberText? text = some d) :
    ofText? text = .ok (ofDecimal true d) ∧ d.toRat = n.decimal.toRat := by
  constructor
  · rw [ofText?, hread, Decimal.isFloatText_of_scan hscan]
  · rw [Decimal.ofNumberText?_of_scan hscan] at hread
    exact Numeral.toRat_of_read? hread

/-- A text that is not read is no number. -/
theorem ofText?_of_not_read {text : String} (h : ¬∃ d, Decimal.ofNumberText? text = some d) :
    ofText? text = .error (.invalidNumber text) := by
  rw [ofText?, Option.eq_none_iff_forall_ne_some.mpr fun d hd => h ⟨d, hd⟩]

/-- The nearest float of double precision, by distances, and where double precision ends. -/
theorem closest_nearest (d : Decimal) :
    (d.nearest .binary64).Closest d.toRat ∧
      ((d.nearest .binary64).isFinite = true ↔ |d.toRat| < (2 ^ 54 - 1) * 2 ^ 970) ∧
      ((d.nearest .binary64).isZero = true ↔ |d.toRat| ≤ 1 / 2 ^ 1075) := by
  -- the nearest float is at the rank that the number is rounded to
  obtain ⟨r, hr⟩ := Binary.exists_rounds Format.proper_binary64 d
  have hnearest : d.nearest .binary64 = .ofRank .binary64 (d.toRat < 0) r := by
    rw [Decimal.nearest, Binary.ofDecimal_eq Format.proper_binary64 _ hr,
      decide_eq_decide.mpr Decimal.toRat_neg_iff.symm]
  rw [hnearest, ← Format.overflow_binary64]
  exact ⟨Binary.closest_ofRank hr Format.proper_binary64,
    Binary.isFinite_ofRank_iff hr Format.proper_binary64,
    Binary.isZero_ofRank_iff hr Format.proper_binary64⟩

/-- **What becomes of a fraction.** On the last rung stands the float that is closest to the number.
It is finite below the half way from the largest float to the next power of two, and zero up to half
the smallest float. A fraction is refused, as no number, exactly if it is not within the powers of
ten around these, or is spelled with a scale that cannot be stored. -/
theorem closest_of_text {text : String} {n : Numeral}
    (hscan : Numeral.scan text.toList = some (n, [])) :
    (∀ x, ofText? text = .ok (.float64 x) → (∀ z : ℤ, (z : ℚ) ≠ n.decimal.toRat) ∧
      x.Closest n.decimal.toRat ∧
      (x.isFinite = true ↔ |n.decimal.toRat| < (2 ^ 54 - 1) * 2 ^ 970) ∧
      (x.isZero = true ↔ |n.decimal.toRat| ≤ 1 / 2 ^ 1075)) ∧
    ((∀ z : ℤ, (z : ℚ) ≠ n.decimal.toRat) → (ofText? text = .error (.invalidNumber text) ↔
      |n.decimal.toRat| < 10 ^ (-324 : ℤ) ∨ 10 ^ (309 : ℤ) ≤ |n.decimal.toRat| ∨
        Decimal.scaleInRange n.scale = false)) := by
  have hread : Decimal.ofNumberText? text = n.read? := Decimal.ofNumberText?_of_scan hscan
  have hfloat := Decimal.isFloatText_of_scan hscan
  constructor
  · intro x hx
    rw [ofText?, hread, hfloat] at hx
    split at hx
    · next d hd =>
      -- a float of double precision is the nearest one of a fraction
      have hvalue := Numeral.toRat_of_read? hd
      have hrung := rung_ofDecimal d
      rw [Except.ok.inj hx] at hrung
      cases hrung with
      | float64 integral =>
        rw [← hvalue]
        refine ⟨fun z hz => ?_, closest_nearest d⟩
        rw [Decimal.isIntegral_iff.mpr ⟨z, hz.symm⟩] at integral
        cases integral
    · cases hx
  · intro hfraction
    have hzero : n.decimal.toRat ≠ 0 := fun h0 => hfraction 0 (by rw [h0, Int.cast_zero])
    -- a text is refused exactly if it is not read, since the ladder has a value for every decimal
    have herror : ofText? text = .error (.invalidNumber text) ↔ ¬∃ d, n.read? = some d := by
      rw [ofText?, hread, hfloat]
      cases n.read? <;> simp
    rw [herror, Numeral.exists_read?_iff, Decimal.inBounds_iff, or_iff_right hzero, not_and_or,
      not_and_or, not_le, not_lt, Bool.not_eq_true, or_comm, or_assoc]

/-! ### Texts at the ends -/

/-- A fraction on the last rung, step by step. -/
theorem ofText?_eq_float64 {text : String} {n : Numeral} {d : Decimal} {x : Float64Bits}
    (hscan : Numeral.scan text.toList = some (n, [])) (hread : n.read? = some d)
    (hfraction : d.isIntegral = false)
    (hinexact : ((d.nearest .binary32).isFinite && (d.nearest .binary32).equalsDecimal d) = false)
    (hx : d.nearest .binary64 = x) : ofText? text = .ok (.float64 x) := by
  have hd : Decimal.ofNumberText? text = some d := (Decimal.ofNumberText?_of_scan hscan).trans hread
  rw [(ofText?_of_read hscan hd).1, ofDecimal_of_fraction hfraction, hinexact,
    if_neg Bool.false_ne_true, hx]

/-- A text that is just large enough for its closest float not to be zero. -/
theorem closest_of_text_least :
    let n : Numeral := ⟨true, 0, [2, 5], some ⟨true, 3, [2, 3]⟩⟩
    let x : Float64Bits := ⟨true, ⟨1, by decide⟩⟩
    Numeral.scan "-0.25E-323".toList = some (n, []) ∧ n.decimal = ⟨-25, 325⟩ ∧
      ofText? "-0.25E-323" = .ok (.float64 x) ∧ x.Closest n.decimal.toRat := by
  intro n x
  have hscan : Numeral.scan "-0.25E-323".toList = some (n, []) := by decide +kernel
  have hx : ofText? "-0.25E-323" = .ok (.float64 x) :=
    ofText?_eq_float64 (d := ⟨-25, 325⟩) hscan (by decide +kernel) (by decide +kernel)
      (by decide +kernel) (by decide +kernel)
  exact ⟨hscan, by decide +kernel, hx, ((closest_of_text hscan).1 x hx).2.1⟩

/-- **At both ends numbers are accepted and lost.** One that is not zero becomes zero, and one that
is finite, with 309 digits before its point, becomes an infinity. -/
theorem lost_of_text :
    (let n : Numeral := ⟨false, 1, [], some ⟨true, 3, [2, 4]⟩⟩
     Numeral.scan "1e-324".toList = some (n, []) ∧ n.decimal = ⟨1, 324⟩ ∧
       ofText? "1e-324" = .ok (.float64 (.zero _ false))) ∧
    (let n : Numeral := ⟨false, 10 ^ 309 - 1, [5], none⟩
     Numeral.scan n.text.toList = some (n, []) ∧ n.decimal = ⟨10 ^ 310 - 5, 1⟩ ∧
       ofText? n.text = .ok (.float64 (.infinity _ false))) := by
  constructor
  · intro n
    have hscan : Numeral.scan "1e-324".toList = some (n, []) := by decide +kernel
    exact ⟨hscan, by decide +kernel, ofText?_eq_float64 (d := ⟨1, 324⟩) hscan (by decide +kernel)
      (by decide +kernel) (by decide +kernel) (by decide +kernel)⟩
  · intro n
    have hscan : Numeral.scan n.text.toList = some (n, []) := by
      rw [Numeral.text, String.toList_ofList, n.scan_toChars]
    exact ⟨hscan, by decide +kernel, ofText?_eq_float64 (d := ⟨10 ^ 310 - 5, 1⟩) hscan
      (by decide +kernel) (by decide +kernel) (by decide +kernel) (by decide +kernel)⟩

end Value
end DocStream
