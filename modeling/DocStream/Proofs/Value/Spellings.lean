import DocStream.Proofs.Value.Range

/-!
# Spellings of one number

A number can be spelled in many ways, with zeros at either end, the point anywhere and an exponent
to make up for it. The reader sees the digits and the scale as they were written, and the bounds are
checked on these. But a magnitude belongs to the number, and so does what it is narrowed to.

* `Value.ofDecimal_congr` — the ladder gives decimals that denote the same **the same value**;
* `Numeral.IsStorable` — the texts whose scale does not stand in the way, which are all but the zeros
  with an extreme exponent;
* `Value.ofText?_of_spellings` — **spellings of one number are narrowed alike**;
* `Value.zero_refused_of_exponent` — a zero that is refused for its exponent.

Two things could tell spellings apart: the scale that a text is stored with, and the digits that the
bounds are checked on. The second one does not, because a magnitude is the same for all decimals of
one number. The first one does only for zero. A number within bounds has a scale not far from the
number of its digits, and there are never more digits than characters.
-/

namespace DocStream

/-! ### The ladder -/

/-- Decimals that denote the same have the same nearest float, since both are rounded to the same
rank and have the same sign. -/
theorem Decimal.nearest_congr {fmt : Format} (hfmt : fmt.Proper) {a b : Decimal}
    (h : a.toRat = b.toRat) : a.nearest fmt = b.nearest fmt := by
  obtain ⟨r, hr⟩ := Binary.exists_rounds hfmt a
  have hsign : decide (a.unscaled < 0) = decide (b.unscaled < 0) := by
    rw [decide_eq_decide, ← toRat_neg_iff, ← toRat_neg_iff, h]
  unfold nearest
  rw [Binary.ofDecimal_eq hfmt _ hr, Binary.ofDecimal_eq hfmt _ (h ▸ hr), hsign]

/-- **The ladder looks at the number alone**, not at the scale that it is written with. -/
theorem Value.ofDecimal_congr {a b : Decimal} (h : a.toRat = b.toRat) :
    ofDecimal true a = ofDecimal true b := by
  -- whether it is an integer can be asked of the number
  have hintegral : a.isIntegral = b.isIntegral := by
    rw [Bool.eq_iff_iff, Decimal.isIntegral_iff, Decimal.isIntegral_iff, h]
  by_cases hint : b.isIntegral = true
  · -- both are the same integer
    have hinteger : a.toInt = b.toInt := by
      have hcast : (a.toInt : ℚ) = b.toInt := by
        rw [Decimal.toInt_eq_toRat (hintegral.trans hint), Decimal.toInt_eq_toRat hint, h]
      exact_mod_cast hcast
    rw [ofDecimal, ofDecimal, if_pos (hintegral.trans hint), if_pos hint, hinteger]
  · -- the two floats that the ladder tries are the same, and so is what it asks of the narrow one
    have hint : b.isIntegral = false := Bool.eq_false_iff.mpr hint
    have hsingle := Decimal.nearest_congr Format.proper_binary32 h
    have hdouble := Decimal.nearest_congr Format.proper_binary64 h
    have hexact : (a.nearest .binary32).equalsDecimal a =
        (b.nearest .binary32).equalsDecimal b := by
      rw [Bool.eq_iff_iff, Binary.equalsDecimal_iff, Binary.equalsDecimal_iff, hsingle, h]
    rw [ofDecimal_of_fraction (hintegral.trans hint), ofDecimal_of_fraction hint, hexact, hsingle,
      hdouble]

/-! ### Scales -/

namespace Numeral

variable {n : Numeral}

/-- A text has at least as many characters as its number has digits. -/
theorem SpelledBy.digitCount_le {cs : List Char} (h : n.SpelledBy cs) (hne : n.unscaled ≠ 0) :
    n.decimal.digitCount ≤ cs.length := by
  obtain ⟨d, ds, tail, hwhole, -⟩ := h
  have hvalue : n.unscaled.natAbs = Digits.value (d :: ds ++ n.fraction) := by
    rw [natAbs_unscaled, ← hwhole, Digits.value, Digits.value, Digits.valueFrom_append]
  have hcount : n.decimal.digitCount ≤ (d :: ds ++ n.fraction).length := by
    rw [Decimal.digitCount, decimal, hvalue]
    apply Digits.count_value_le
    rw [← hvalue]
    exact Int.natAbs_ne_zero.mpr hne
  -- the digits stand in the text, after a sign perhaps and with a point among them
  have hfraction : n.fraction.length ≤ n.fractionChars.length := by
    unfold fractionChars
    split
    · next hempty => simp [List.isEmpty_iff.mp hempty]
    · simp [Digits.toChars]
  simp only [mantissaChars, Digits.toChars, List.length_append, List.length_map] at hcount ⊢
  omega

/-- **The texts whose scale does not stand in the way.** It can be stored, or the number is not zero
and the text not longer than a memory with addresses of 64 bits. So all that is left out are the
zeros with an extreme exponent. -/
def IsStorable (n : Numeral) (text : String) : Prop :=
  Decimal.scaleInRange n.scale = true ∨ (n.decimal.toRat ≠ 0 ∧ text.length < 2 ^ 63 - 323)

/-- **The scale of a number within bounds can be stored**, since it makes up for the digits and for
nothing else. -/
theorem scaleInRange_of_inBounds {text : String} (h : n.SpelledBy text.toList)
    (hstorable : n.IsStorable text) (hbounds : n.decimal.InBounds) :
    Decimal.scaleInRange n.scale = true := by
  rcases hstorable with hscale | ⟨hne, hlength⟩
  · exact hscale
  · have hunscaled : n.decimal.unscaled ≠ 0 := fun h0 => hne (Decimal.toRat_eq_zero.mpr h0)
    -- the scale is the number of digits less the magnitude, and both are bounded
    have hcount : n.decimal.digitCount ≤ text.length := h.digitCount_le hunscaled
    have hpos : 0 < n.decimal.digitCount := Digits.count_pos _
    obtain ⟨hlow, hhigh⟩ := hbounds.resolve_left hunscaled
    have hmagnitude : n.decimal.magnitude = n.decimal.digitCount - n.scale := rfl
    rw [Decimal.leastMagnitude, hmagnitude] at hlow
    rw [Decimal.greatestMagnitude, hmagnitude] at hhigh
    refine (Bool.and_eq_true _ _).mpr ⟨decide_eq_true ?_, decide_eq_true ?_⟩
    · norm_num
      omega
    · norm_num
      omega

/-- **Which texts are read**: those of a number within bounds whose scale does not stand in the way.
-/
theorem exists_ofNumberText?_iff {text : String} (hscan : scan text.toList = some (n, [])) :
    (∃ d, Decimal.ofNumberText? text = some d) ↔
      n.IsStorable text ∧ n.decimal.InBounds := by
  rw [Decimal.ofNumberText?_of_scan hscan]
  change (∃ d, n.read? = some d) ↔ _
  rw [exists_read?_iff]
  -- a scale that can be stored is one way not to stand in the way
  constructor
  · exact fun h => ⟨.inl h.1, h.2⟩
  · exact fun h => ⟨scaleInRange_of_inBounds (spelledBy_of_scan hscan) h.1 h.2, h.2⟩

end Numeral

namespace Value

/-- **Spellings of one number are narrowed alike.** A text is read exactly if its number is zero or
between the powers of ten around double precision, and its scale does not stand in the way. What it
is narrowed to is what every other such text of the number is narrowed to. -/
theorem ofText?_of_spellings {text : String} {n : Numeral}
    (hscan : Numeral.scan text.toList = some (n, [])) :
    ((∃ d, Decimal.ofNumberText? text = some d) ↔ n.IsStorable text ∧
      (n.decimal.toRat = 0 ∨
        (10 ^ (-324 : ℤ) ≤ |n.decimal.toRat| ∧ |n.decimal.toRat| < 10 ^ (309 : ℤ)))) ∧
    ∀ {text' : String} {n' : Numeral}, Numeral.scan text'.toList = some (n', []) →
      n.decimal.toRat = n'.decimal.toRat → n.IsStorable text → n'.IsStorable text' →
      (∃ v, ofText? text = .ok v ∧ ofText? text' = .ok v) ∨
        (ofText? text = .error (.invalidNumber text) ∧
          ofText? text' = .error (.invalidNumber text')) := by
  have hread_iff := Numeral.exists_ofNumberText?_iff hscan
  refine ⟨by rw [hread_iff, Decimal.inBounds_iff], ?_⟩
  intro text' n' hscan' hvalue hstorable hstorable'
  have hread_iff' := Numeral.exists_ofNumberText?_iff hscan'
  have hbounds_iff : n.decimal.InBounds ↔ n'.decimal.InBounds := Decimal.inBounds_congr hvalue
  by_cases hbounds : n.decimal.InBounds
  · -- both are read, as decimals that denote the same
    obtain ⟨d, hd⟩ := hread_iff.mpr ⟨hstorable, hbounds⟩
    obtain ⟨d', hd'⟩ := hread_iff'.mpr ⟨hstorable', hbounds_iff.mp hbounds⟩
    obtain ⟨hv, hdvalue⟩ := ofText?_of_read hscan hd
    obtain ⟨hv', hdvalue'⟩ := ofText?_of_read hscan' hd'
    have hsame : ofDecimal true d = ofDecimal true d' := by
      apply ofDecimal_congr
      rw [hdvalue, hdvalue', hvalue]
    exact .inl ⟨_, hv, hsame ▸ hv'⟩
  · -- neither is read
    refine .inr ⟨ofText?_of_not_read fun h => hbounds (hread_iff.mp h).2, ?_⟩
    exact ofText?_of_not_read fun h => hbounds (hbounds_iff.mpr (hread_iff'.mp h).2)

/-- Two spellings of the least number that is read. -/
theorem ofText?_of_spellings_least :
    let n : Numeral := ⟨false, 10, [], some ⟨true, 3, [2, 5]⟩⟩
    let n' : Numeral := ⟨false, 0, [1], some ⟨true, 3, [2, 3]⟩⟩
    Numeral.scan "10e-325".toList = some (n, []) ∧ Numeral.scan "0.1E-323".toList = some (n', []) ∧
      n.decimal.toRat = 10 ^ (-324 : ℤ) ∧ n'.decimal.toRat = 10 ^ (-324 : ℤ) ∧
      n.IsStorable "10e-325" ∧ n'.IsStorable "0.1E-323" ∧
      (∃ d, Decimal.ofNumberText? "10e-325" = some d) ∧
      ∃ v, ofText? "10e-325" = .ok v ∧ ofText? "0.1E-323" = .ok v := by
  intro n n'
  have hscan : Numeral.scan "10e-325".toList = some (n, []) := by decide +kernel
  have hscan' : Numeral.scan "0.1E-323".toList = some (n', []) := by decide +kernel
  have hvalue : n.decimal.toRat = 10 ^ (-324 : ℤ) := by
    rw [show n.decimal = ⟨10, 325⟩ by decide +kernel, Decimal.toRat]
    show (10 : ℚ) * 10 ^ (-325 : ℤ) = 10 ^ (-324 : ℤ)
    rw [← zpow_one_add₀ (by norm_num)]
    norm_num
  have hvalue' : n'.decimal.toRat = 10 ^ (-324 : ℤ) := by
    rw [show n'.decimal = ⟨1, 324⟩ by decide +kernel, Decimal.toRat, Int.cast_one, one_mul]
  have hstorable : n.IsStorable "10e-325" := .inl (by decide)
  have hstorable' : n'.IsStorable "0.1E-323" := .inl (by decide)
  have hread : ∃ d, Decimal.ofNumberText? "10e-325" = some d := by
    refine (ofText?_of_spellings hscan).1.mpr ⟨hstorable, .inr ?_⟩
    rw [hvalue, abs_of_pos (zpow_pos (by norm_num) _)]
    exact ⟨le_rfl, zpow_lt_zpow_right₀ (by norm_num) (by norm_num)⟩
  refine ⟨hscan, hscan', hvalue, hvalue', hstorable, hstorable', hread, ?_⟩
  rcases (ofText?_of_spellings hscan).2 hscan' (hvalue.trans hvalue'.symm) hstorable hstorable'
    with hsame | ⟨hrefused, -⟩
  · exact hsame
  · obtain ⟨d, hd⟩ := hread
    have hread := (ofText?_of_read hscan hd).1
    rw [hrefused] at hread
    cases hread

/-- **A zero that is refused for its exponent**, although zero is read when it is spelled in another
way: its scale cannot be stored. -/
theorem zero_refused_of_exponent :
    let n : Numeral := ⟨false, 0, [], some ⟨false, 1, List.replicate 19 0⟩⟩
    let n' : Numeral := ⟨false, 0, [], none⟩
    Numeral.scan "0e10000000000000000000".toList = some (n, []) ∧
      Numeral.scan "0".toList = some (n', []) ∧
      n.decimal.toRat = 0 ∧ n'.decimal.toRat = 0 ∧
      Decimal.ofNumberText? "0e10000000000000000000" = none ∧
      ofText? "0e10000000000000000000" = .error (.invalidNumber "0e10000000000000000000") ∧
      ofText? "0" = .ok (.int ⟨.w8, 0, by decide⟩) := by
  intro n n'
  have hread : Decimal.ofNumberText? "0e10000000000000000000" = none := by decide +kernel
  refine ⟨by decide +kernel, by decide +kernel, ?_, ?_, hread, ?_, ?_⟩
  · exact Decimal.toRat_eq_zero.mpr rfl
  · exact Decimal.toRat_eq_zero.mpr rfl
  · exact ofText?_of_not_read (by rw [hread]; simp)
  · rw [ofText?, show Decimal.ofNumberText? "0" = some ⟨0, 0⟩ by decide +kernel]
    rfl

end Value
end DocStream
