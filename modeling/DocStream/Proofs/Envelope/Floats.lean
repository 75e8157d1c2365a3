import DocStream.Proofs.Envelope.Payload
import DocStream.Proofs.Number.SinglePrecision

/-!
# Floats over the wire and back

A finite float is written with its shortest digits, whatever schema it is written under, and those
are read back in double precision. For a double-precision float that is all, and it comes back bit
for bit. A single-precision float is narrowed afterwards. Its digits were chosen to be unambiguous
in single precision, and the detour by double precision spoils that for one float of each sign.

* `Value.CrossesAs` — **written and read back** as a value;
* `Binary.convert_toFloat64?_toNumeral_stray` — the float for which the detour goes wrong;
* `Value.float_crosses` — **which floats come back** bit for bit.

That the stray is the only float of its kind is a fact about all floats of single precision, which
is shown for the shortest digits; here it is only used. What is left is to follow a float over the
wire and to see what becomes of the stray, a computation with one number and its negative.
-/

namespace DocStream

/-- **What a leaf crosses the wire as.** It is written as the same plain JSON under no schema and
under leaf schemas of the type, and from that JSON the other value is read. So it does not matter
whether null is allowed. -/
def Value.CrossesAs (t : LeafType) (v w : Value) : Prop :=
  ∃ j, v.toPlain? none = .ok j ∧
    ∀ o, v.toPlain? (some (.leaf t o)) = .ok j ∧ ofPlain? (.leaf t o) j = .ok w

/-- A leaf crosses the wire as one value at most. -/
theorem Value.CrossesAs.unique {t : LeafType} {v w w' : Value} (h : v.CrossesAs t w)
    (h' : v.CrossesAs t w') : w = w' := by
  obtain ⟨j, hj, hread⟩ := h
  obtain ⟨j', hj', hread'⟩ := h'
  obtain rfl : j = j' := Except.ok.inj (hj.symm.trans hj')
  exact Except.ok.inj ((hread true).2.symm.trans (hread' true).2)

/-! ### The stray float -/

namespace Binary

/-- The finite float of the stray rank, about 7.04e-26 with either sign. Its shortest digits lie
within its own interval, but half way between it and the next float when they are read in double
precision. -/
def stray (negative : Bool) : Float32Bits := ⟨negative, ⟨Shortest.strayRank, by decide⟩⟩

theorem isFinite_stray (negative : Bool) : (stray negative).isFinite = true :=
  decide_eq_true (show Shortest.strayRank < Format.binary32.infinityRank by decide)

/-- The float next to it, which has an even rank. -/
def afterStray (negative : Bool) : Float32Bits := ⟨negative, ⟨Shortest.strayRank + 1, by decide⟩⟩

/-- **The stray float is read back as the next**: its text reads as the midpoint, and the tie goes
to the even rank. -/
theorem convert_toFloat64?_toNumeral_stray : ∀ negative,
    (stray negative).toNumeral.toFloat64?.map (convert .binary32) = some (afterStray negative) := by
  decide +kernel

/-- **A finite single-precision float is read back as itself** exactly if it is not the stray. -/
theorem convert_toFloat64?_toNumeral_iff {x : Float32Bits} {y : Float64Bits}
    (h : x.isFinite = true) (hy : x.toNumeral.toFloat64? = some y) :
    y.convert .binary32 = x ↔ x.rank.val ≠ Shortest.strayRank := by
  refine ⟨fun heq hstray => ?_, fun hstray => convert_toFloat64?_toNumeral h hstray hy⟩
  -- a float of the stray rank is the stray or its negative, and both are read as the next
  have hx : x = stray x.negative := by
    rw [stray, Binary.mk.injEq]
    exact ⟨rfl, Fin.ext hstray⟩
  have hnext := convert_toFloat64?_toNumeral_stray x.negative
  rw [← hx, hy, Option.map_some, heq, hx, Option.some.injEq, stray, afterStray,
    Binary.mk.injEq, Fin.mk.injEq] at hnext
  exact absurd hnext.2 (Nat.succ_ne_self _).symm

end Binary

/-! ### Crossing the wire -/

namespace Value

/-- A finite float crosses the wire as what its spelling is read as. -/
theorem crossesAs_of_floatPlain {fmt : Format} {x : Binary fmt} {t : LeafType} {v w : Value}
    (hx : x.isFinite = true) (hv : t.Infers v) (hplain : v.leafPlain? = .ok (floatPlain x))
    (hread : ∀ o, ofPlain? (.leaf t o) (.num x.toNumeral) = .ok w) : v.CrossesAs t w := by
  have hleaf := LeafType.isLeaf_of_infers hv
  rw [floatPlain, if_pos hx] at hplain
  exact ⟨_, (toPlain?_none hleaf).trans hplain, fun o =>
    ⟨(toPlain?_leaf hleaf (LeafType.accepts_of_infers hv)).trans hplain, hread o⟩⟩

/-- **Which floats come back.** A finite single-precision float crosses the wire as a
single-precision float, which is the same one exactly if it is not the stray float; a finite
double-precision float crosses the wire as itself. -/
theorem float_crosses {x : Float32Bits} (hx : x.isFinite = true) {z : Float64Bits}
    (hz : z.isFinite = true) :
    (∃ y : Float32Bits, (float32 x).CrossesAs .float32 (float32 y) ∧
      (y = x ↔ x.rank.val ≠ Shortest.strayRank)) ∧
    (float64 z).CrossesAs .float64 (float64 z) := by
  constructor
  · obtain ⟨y, hy⟩ := Binary.exists_toFloat64?_toNumeral hx
    exact ⟨y.convert _, crossesAs_of_floatPlain hx trivial rfl fun o => ofPlain?_float32 o hy,
      Binary.convert_toFloat64?_toNumeral_iff hx hy⟩
  · exact crossesAs_of_floatPlain hz trivial rfl fun o =>
      ofPlain?_float64 o (Binary.toFloat64?_toNumeral hz)

/-- The neighbour of the stray float comes back, with a negative sign, and so does negative zero. -/
theorem float_crosses_afterStray :
    let x : Float32Bits := .afterStray true
    let z : Float64Bits := .zero _ true
    x.isFinite = true ∧ z.isFinite = true ∧ x.rank.val ≠ Shortest.strayRank ∧
      (float32 x).CrossesAs .float32 (float32 x) ∧ (float64 z).CrossesAs .float64 (float64 z) := by
  intro x z
  have hx : x.isFinite = true := by decide
  have hz : z.isFinite = true := by decide
  have hnext : x.rank.val ≠ Shortest.strayRank := by decide
  obtain ⟨⟨y, hy, heq⟩, hz'⟩ := float_crosses hx hz
  obtain rfl := heq.mpr hnext
  exact ⟨hx, hz, hnext, hy, hz'⟩

/-- The stray float crosses the wire as the float next to it. -/
theorem stray_crosses (negative : Bool) :
    (float32 (.stray negative)).CrossesAs .float32 (float32 (.afterStray negative)) := by
  obtain ⟨y, hy, hnext⟩ := Option.map_eq_some_iff.mp
    (Binary.convert_toFloat64?_toNumeral_stray negative)
  refine crossesAs_of_floatPlain (Binary.isFinite_stray negative) trivial rfl fun o => ?_
  rw [ofPlain?_float32 o hy, hnext]

/-- **The float 7.038531e-26 does not come back**: it is finite, and what comes back is another. A
leaf crosses as one value at most, so it does not come back as itself. -/
theorem not_float_crosses_stray :
    (Binary.stray false).isFinite = true ∧
      ¬(float32 (.stray false)).CrossesAs .float32 (float32 (.stray false)) := by
  refine ⟨Binary.isFinite_stray false, fun h => ?_⟩
  have hsame : Binary.afterStray false = Binary.stray false :=
    float32.inj ((stray_crosses false).unique h)
  exact absurd hsame (by decide)

end Value
end DocStream
