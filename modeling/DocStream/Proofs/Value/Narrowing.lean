import DocStream.Narrow
import DocStream.Proofs.Outcome
import DocStream.Proofs.Value.Conformance

/-!
# The ladder, rung by rung

What a number becomes when it is narrowed, said once for all proofs about narrowed numbers.

* `Value.Rung` — **the rungs**: an integer of the first width that holds it, an integer of any size
  if none does, a single-precision float if one has exactly the number's value, and else a
  double-precision float;
* `Value.rung_of_ofNumeral?` — a narrowed number stands on a rung;
* `LeafType.infers_of_rung` — the leaf schema of a rung declares exactly its kind.

A rung is named by what was tested on the way to it, so that a later proof has these tests as
hypotheses and does not go through the ladder again. The last rung says only that the one before it
did not hold: how near the double-precision float is to the number is a matter of
`DocStream.Proofs.Value.Range`.
-/

namespace DocStream

/-- The float nearest to a decimal, with the decimal's sign. Every rung for fractions is one of
these, at one of the two precisions. -/
def Decimal.nearest (d : Decimal) (fmt : Format) : Binary fmt := .ofDecimal fmt (d.unscaled < 0) d

/-- What is left of a decimal within bounds: itself, and of a zero plain zero. -/
theorem Decimal.bounded?_eq_some {d b : Decimal} (h : d.bounded? = some b) :
    (d.unscaled = 0 ∧ b = ⟨0, 0⟩) ∨ (d.unscaled ≠ 0 ∧ b = d ∧ d.magnitude ≤ greatestMagnitude) := by
  rw [bounded?] at h
  split at h
  · next h0 =>
    injection h with h
    exact .inl ⟨h0, h.symm⟩
  · next h0 =>
    split at h
    · next hbounds =>
      injection h with h
      exact .inr ⟨h0, h.symm, hbounds.2⟩
    · exact nomatch h

/-- The integer at a width, if it fits. -/
theorem SizedInt.of?_eq_some {w : IntWidth} {n : Int} {i : SizedInt} (h : of? w n = some i) :
    i.width = w ∧ i.val = n := by
  rw [of?] at h
  split at h
  · injection h with h
    rw [← h]
    exact ⟨rfl, rfl⟩
  · exact nomatch h

namespace Value

/-- **The rungs of the ladder**: what a decimal becomes. -/
inductive Rung (d : Decimal) : Value → Prop where
  /-- An integer that some width holds. -/
  | int (i : SizedInt) (integral : d.isIntegral = true) (val : i.val = d.toInt) : Rung d (.int i)
  /-- An integer that no width holds. -/
  | bigint (integral : d.isIntegral = true) (wide : ¬IntWidth.w64.Holds d.toInt) :
      Rung d (.bigint d.toInt)
  /-- A single-precision float that has exactly the number's value. -/
  | float32 (integral : d.isIntegral = false) (finite : (d.nearest .binary32).isFinite = true)
      (exact : (d.nearest .binary32).equalsDecimal d = true) : Rung d (.float32 (d.nearest _))
  /-- The nearest double-precision float, if the single-precision one is not exact. -/
  | float64 (integral : d.isIntegral = false)
      (inexact : ¬((d.nearest .binary32).isFinite = true ∧
        (d.nearest .binary32).equalsDecimal d = true)) : Rung d (.float64 (d.nearest _))

/-- **The first part of the ladder**: an integer becomes a machine integer of the first width that
holds it, or an integer of any size if not even 64 bits do. -/
theorem ofInt_cases (n : Int) :
    (∃ i : SizedInt, ofInt n = .int i ∧ i.val = n ∧
      ∀ w : IntWidth, w.Holds n → i.width.bits ≤ w.bits) ∨
      (ofInt n = .bigint n ∧ ¬IntWidth.w64.Holds n) := by
  have hnone : ∀ {w : IntWidth}, SizedInt.of? w n = none → ¬w.Holds n := by
    intro w h hw
    rw [SizedInt.of?, dif_pos hw] at h
    exact nomatch h
  rw [ofInt]
  split
  · next i h =>
    -- some width held it, and no width before it did
    refine .inl ⟨i, rfl, ?_⟩
    simp only [Option.orElse_eq_orElse, Option.orElse_eq_or, Option.or_eq_some_iff] at h
    rcases h with h | ⟨h8, h | ⟨h16, h | ⟨h32, h⟩⟩⟩ <;>
      obtain ⟨hwidth, hval⟩ := SizedInt.of?_eq_some h <;>
      refine ⟨hval, fun w hw => ?_⟩ <;> rw [hwidth] <;> cases w <;>
      first | decide | exact absurd hw (hnone ‹_›)
  · next h =>
    -- none did, the widest included
    simp only [Option.orElse_eq_orElse, Option.orElse_eq_or, Option.or_eq_none_iff] at h
    exact .inr ⟨rfl, hnone h.2.2.2⟩

/-- What a fraction becomes depends on its nearest floats alone, and on whether the narrow one is it. -/
theorem ofDecimal_of_fraction {d : Decimal} (h : d.isIntegral = false) :
    ofDecimal true d =
      if (d.nearest .binary32).isFinite && (d.nearest .binary32).equalsDecimal d
        then float32 (d.nearest _) else float64 (d.nearest _) := by
  unfold ofDecimal
  rw [if_neg (Bool.not_eq_true _ ▸ h), if_pos rfl]
  rfl

/-- **Every decimal stands on a rung**, and what was tested before it got there is known of it. -/
theorem rung_ofDecimal (d : Decimal) : Rung d (ofDecimal true d) := by
  -- the ladder first asks whether the number is an integer
  by_cases hint : d.isIntegral = true
  · rw [ofDecimal, if_pos hint]
    rcases ofInt_cases d.toInt with ⟨i, hi, hval, -⟩ | ⟨hbig, hwide⟩
    · rw [hi]
      exact .int i hint hval
    · rw [hbig]
      exact .bigint hint hwide
  · have hint : d.isIntegral = false := Bool.eq_false_iff.mpr hint
    rw [ofDecimal_of_fraction hint]
    split
    · next hexact =>
      obtain ⟨hfin, heq⟩ := (Bool.and_eq_true _ _).mp hexact
      exact .float32 hint hfin heq
    · next hexact => exact .float64 hint fun hboth => hexact ((Bool.and_eq_true _ _).mpr hboth)

/-- **A narrowed number stands on a rung** of the decimal it spells. -/
theorem rung_of_ofNumeral? {n : Numeral} {v : Value} (h : ofNumeral? n = .ok v) :
    ∃ d, (n.toDecimal? >>= Decimal.bounded?) = some d ∧ Rung d v := by
  rw [ofNumeral?] at h
  -- the numeral was read, since otherwise there is no value
  split at h
  · next d hd =>
    injection h with h
    exact ⟨d, hd, h ▸ rung_ofDecimal d⟩
  · exact nomatch h

end Value

/-- **The schema of a rung** declares exactly its kind. -/
theorem LeafType.infers_of_rung {d : Decimal} {v : Value} {t : LeafType} (h : Value.Rung d v)
    (hs : Schema.ofLeaf v = .ok (.leaf t true)) : t.Infers v := by
  cases h with
  | int | bigint | float32 | float64 =>
    injection hs with hs
    injection hs with hs
    rw [← hs]
    simp only [Infers]

end DocStream
