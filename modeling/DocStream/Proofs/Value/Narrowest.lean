import DocStream.Proofs.Envelope.Payload
import DocStream.Proofs.Number.Spelling
import DocStream.Proofs.Number.Texts
import DocStream.Proofs.Value.Narrowing

/-!
# The narrowest value

What a number text becomes depends on the number alone, however it is spelled. The ladder is said
here of the rational: an integer stands on the first rung wide enough, a fraction on the one of
single precision if that has it exactly, and all other fractions on the last.

* `Value.Narrowest` — **the value a rational is given**;
* `Value.narrowest_ofInt`, `Value.narrowest_ofDecimal` — the two parts of the ladder;
* `Value.narrowest_of_text` — **a text is given the narrowest value** of its number.

The ladder itself works on a decimal, with a scale and a nearest float. What is said here of the
rational needs the passage from one to the other: a decimal is integral exactly if its rational is
an integer, and the nearest float equals a decimal exactly if it has the value of the rational.
-/

namespace DocStream

namespace Value

/-- **The value a rational is given.** -/
inductive Narrowest (q : ℚ) : Value → Prop where
  /-- An integer, at the first width that holds it. -/
  | int (i : SizedInt) (exact : (i.val : ℚ) = q)
      (first : ∀ w : IntWidth, w.Holds i.val → i.width.bits ≤ w.bits) : Narrowest q (.int i)
  /-- An integer that no width holds. -/
  | bigint (z : ℤ) (exact : (z : ℚ) = q) (wide : ∀ w : IntWidth, ¬w.Holds z) :
      Narrowest q (.bigint z)
  /-- A fraction that is a single-precision float. -/
  | float32 (x : Float32Bits) (fraction : ∀ z : ℤ, (z : ℚ) ≠ q) (finite : x.isFinite = true)
      (exact : x.toRat = q) : Narrowest q (.float32 x)
  /-- A fraction that is no single-precision float. -/
  | float64 (x : Float64Bits) (fraction : ∀ z : ℤ, (z : ℚ) ≠ q)
      (inexact : ∀ y : Float32Bits, y.isFinite = true → y.toRat ≠ q) : Narrowest q (.float64 x)

/-- An integer is given the first width that holds it, or a kind of any size if none does. -/
theorem narrowest_ofInt (z : ℤ) : Narrowest z (ofInt z) := by
  rcases ofInt_cases z with ⟨i, hi, rfl, hfirst⟩ | ⟨hbig, hwide⟩
  · rw [hi]
    exact .int i rfl hfirst
  · rw [hbig]
    exact .bigint z rfl fun w hw => hwide hw.widen

/-- A decimal is given the narrowest value of the number it denotes: the integer's one, or of a
fraction the float of single precision if that is exact, and the one of double precision if it is
not. -/
theorem narrowest_ofDecimal (d : Decimal) : Narrowest d.toRat (ofDecimal true d) := by
  by_cases hint : d.isIntegral = true
  · rw [ofDecimal, if_pos hint, ← Decimal.toInt_eq_toRat hint]
    exact narrowest_ofInt d.toInt
  · -- a number that is not integral is no integer, and so it is not zero either
    have hfraction : ∀ z : ℤ, (z : ℚ) ≠ d.toRat :=
      fun z hz => hint (Decimal.isIntegral_iff.mpr ⟨z, hz.symm⟩)
    have hne : d.unscaled ≠ 0 :=
      fun h0 => hfraction 0 (by rw [Decimal.toRat_eq_zero.mpr h0, Int.cast_zero])
    have hrung := rung_ofDecimal d
    generalize ofDecimal true d = v at hrung
    cases hrung with
    | int _ integral => exact absurd integral hint
    | bigint integral => exact absurd integral hint
    | float32 _ finite exact => exact .float32 _ hfraction finite (Binary.equalsDecimal_iff.mp exact)
    | float64 _ inexact =>
      -- a float of the number's value would be the nearest one
      refine .float64 _ hfraction fun y hy heq => inexact ?_
      have hexact := Binary.equalsDecimal_iff.mpr heq
      rw [Decimal.nearest, Binary.ofDecimal_of_equalsDecimal Format.proper_binary32 hne hy hexact]
      exact ⟨hy, hexact⟩

/-- **A number text is given the narrowest value** of the number that it spells. -/
theorem narrowest_of_text {text : String} {n : Numeral} {v : Value}
    (hscan : Numeral.scan text.toList = some (n, [])) (h : ofText? text = .ok v) :
    Narrowest n.decimal.toRat v := by
  rw [ofText?, Decimal.ofNumberText?_of_scan hscan, Decimal.isFloatText_of_scan hscan] at h
  split at h
  · next d hd =>
    injection h with h
    -- reading gives a zero another scale perhaps, but it keeps the number
    have hvalue : d.toRat = n.decimal.toRat := Numeral.toRat_of_read? hd
    rw [← hvalue, ← h]
    exact narrowest_ofDecimal d
  · cases h

/-- One eighth is a single-precision float. -/
theorem narrowest_of_text_eighth :
    let n : Numeral := ⟨true, 1, [2, 5, 0], some ⟨true, 0, [1]⟩⟩
    Numeral.scan "-1.250E-01".toList = some (n, []) ∧ n.decimal.toRat = -(1 / 8) ∧
      ∃ v, ofText? "-1.250E-01" = .ok v ∧ Schema.ofLeaf v = .ok (.leaf .float32 true) ∧
        Narrowest n.decimal.toRat v := by
  intro n
  have hscan : Numeral.scan "-1.250E-01".toList = some (n, []) := by decide +kernel
  have hvalue : n.decimal.toRat = -(1 / 8) := by
    rw [show n.decimal = ⟨-1250, 4⟩ by decide +kernel, Decimal.toRat]
    norm_num
  have hleaf : (ofText? "-1.250E-01" >>= Schema.ofLeaf) = .ok (.leaf .float32 true) := by
    decide +kernel
  obtain ⟨v, hv, hschema⟩ := Outcome.bind_eq_ok.mp hleaf
  exact ⟨hscan, hvalue, v, hv, hschema, narrowest_of_text hscan hv⟩

end Value
end DocStream
