import DocStream.Proofs.Envelope.Acceptance
import DocStream.Proofs.Envelope.Floats
import DocStream.Proofs.Number.RoundedTwice
import DocStream.Proofs.Number.Texts
import DocStream.Proofs.Value.Range

/-!
# Numbers in a payload

A number under a numeric type is read as a value that stands for it, or refused: this is what a
payload is declared for, and integers and double-precision floats keep to it. The other two types
lose numbers without a failure. A decimal is cut to the places of its type. A single-precision float
is made from a double-precision one, so that it can be infinite, or a neighbour of the nearest one
where the double-precision float lies half way between the two.

* `Json.Spells` — **the number of a JSON number or a text**;
* `LeafType.Takes` — **which numbers are read** under a type, from how they are given;
* `LeafType.Denotes` — **the values that stand for a number** under a type;
* `LeafType.Reads` — what is read, and when it stands for the number;
* `Value.ofPlain?_number` — **numbers are read as this or refused**;
* `Value.lost_of_number` — numbers that are read as others.
-/

namespace DocStream

/-! ### Numbers that are given -/

/-- **The number of a JSON number or of a text.** Around a text blanks do not count. It spells the
number as JSON does, with an exponent of any size, or in one of the ways of the reader of decimals.
-/
inductive Json.Spells : Json → Decimal → Prop where
  | number (n : Numeral) : Spells (.num n) n.decimal
  | numeral {s : String} {n : Numeral}
      (scanned : Numeral.scan (Blank.trim s.toList) = some (n, [])) : Spells (.str s) n.decimal
  | decimal {s : String} {d : Decimal}
      (read : Decimal.ofText? (Blank.trim s.toList) = some d) : Spells (.str s) d

/-- A decimal that is read from a text has a scale that can be stored. It would not have been read
otherwise. -/
theorem Decimal.scaleInRange_of_ofText? {cs : List Char} {d : Decimal} (h : ofText? cs = some d) :
    scaleInRange d.scale = true := by
  have hscaled : ∀ {scale : ℤ} {unscaled? : Option ℤ},
      (if scaleInRange scale = true then unscaled?.bind fun unscaled => some ⟨unscaled, scale⟩
        else none) = some d → scaleInRange d.scale = true := by
    intro scale unscaled? h
    split at h
    · next hscale =>
      obtain ⟨unscaled, -, h⟩ := Option.bind_eq_some_iff.mp h
      rw [← Option.some.inj h]
      exact hscale
    · cases h
  rw [ofText?] at h
  dsimp only at h
  -- without an exponent or with one, the scale is checked in the same way
  split at h
  all_goals
    obtain ⟨exponent, -, h⟩ := Option.bind_eq_some_iff.mp h
    exact hscaled h

namespace Json.Spells

variable {j : Json} {d : Decimal}

/-- **The exact decimal of the JSON** is the number that it spells, within the bounds of reading. A
text that JSON could spell is read alike by the reader of decimals, so it does not matter which of
the two reads it. -/
theorem decimalText? (h : j.Spells d) :
    LeafType.decimalText? j =
      some (if Decimal.scaleInRange d.scale = true then d.bounded? else none) := by
  have hnumeral : ∀ n : Numeral, n.toDecimal? >>= Decimal.bounded? =
      if Decimal.scaleInRange n.decimal.scale = true then n.decimal.bounded? else none := by
    intro n
    rw [Numeral.toDecimal?, Numeral.decimal]
    dsimp only
    split <;> rfl
  cases h with
  | number n => exact congrArg some (hnumeral n)
  | @numeral s n scanned =>
    have htext := (Numeral.spelledBy_of_scan scanned).ofText?
    rw [← hnumeral, LeafType.decimalText?, Decimal.ofNumberText?, htext]
  | @decimal s d read =>
    rw [if_pos (Decimal.scaleInRange_of_ofText? read), LeafType.decimalText?,
      Decimal.ofNumberText?, read]
    rfl

theorem isNull (h : j.Spells d) : j.isNull = false := by
  cases h <;> rfl

end Json.Spells

/-! ### What is to be read -/

namespace LeafType

/-- **The numeric types**, decimals with a scale that is read. -/
def IsNumeric : LeafType → Prop
  | int _ | float32 | float64 => True
  | decimal k => k.natAbs ≤ Decimal.maxReadScale
  | _ => False

/-- **Which numbers are read** under a numeric type, from how they are given. An integer has to be a
JSON number without point and exponent that the width holds. A float has to be a JSON number, and
double precision has to reach it, for both float types. A decimal may be a text as well, and only
has to keep to the bounds of reading. -/
def Takes (j : Json) (d : Decimal) : LeafType → Prop
  | int w => ∃ n z, j = .num n ∧ n.toInteger? = some z ∧ w.Holds z
  | float32 | float64 => (∃ n, j = .num n) ∧ |d.toRat| < (2 ^ 54 - 1) * 2 ^ 970
  | decimal _ => Decimal.scaleInRange d.scale = true ∧
      (d.toRat = 0 ∨ (10 ^ (-324 : ℤ) ≤ |d.toRat| ∧ |d.toRat| < 10 ^ (309 : ℤ)))
  | _ => False

/-- **The values that stand for a number** under a numeric type: an integer of the width, or a
decimal of the scale, that is exactly the number, and the nearest float of the format. -/
def Denotes (q : ℚ) : LeafType → Value → Prop
  | int w, .int i => i.width = w ∧ (i.val : ℚ) = q
  | float32, .float32 x => x.Nearest q
  | float64, .float64 x => x.Nearest q
  | decimal k, .bigint z => k = 0 ∧ (z : ℚ) = q
  | decimal k, .decimal d => d.scale = k ∧ d.toRat = q
  | _, _ => False

end LeafType

/-- **A single-precision float that is read by way of double precision**: the one nearest to the
double-precision float that is nearest to the number. That it is not too large is asked of the
double-precision float. It stands for the number if it is finite and, where the double-precision
float is as far from another one, that one is no closer to the number. -/
structure Binary.ReadByWayOf (q : ℚ) (x : Float64Bits) (y : Float32Bits) : Prop where
  wide : x.Nearest q
  finite_iff : y.isFinite = true ↔ |x.toRat| < (2 ^ 25 - 1) * 2 ^ 103
  narrow : y.isFinite = true → y.Nearest x.toRat
  nearest_iff : y.Nearest q ↔ y.isFinite = true ∧ ∀ z : Float32Bits, z.isFinite = true →
    |z.toRat - x.toRat| = |y.toRat - x.toRat| → |y.toRat - q| ≤ |z.toRat - q|

/-- **What is read for a number** under a numeric type, and when it stands for the number: always,
but for single-precision floats, which are read by way of double precision, and for decimals, of
which the places that the type does not have are cut off. -/
def LeafType.Reads (q : ℚ) : LeafType → Value → Prop
  | .float32, .float32 y => ∃ x : Float64Bits, x.ReadByWayOf q y
  | .decimal k, .decimal d => d.scale = k ∧ d.unscaled = truncate (q * 10 ^ k) ∧
      (d.toRat = q ↔ ∃ z : ℤ, (z : ℚ) = q * 10 ^ k)
  | t, v => t.Denotes q v

/-- **A number is read or refused** under a type: what the type takes is read, and everything else
is a mismatch of the type and the kind of the JSON. -/
structure LeafType.ReadsOrRefuses (t : LeafType) (j : Json) (d : Decimal) : Prop where
  reads : t.Takes j d → ∃ v, t.ofPlain? j = .ok v ∧ t.Reads d.toRat v
  refuses : ¬t.Takes j d → t.ofPlain? j = .error (.unhandled t.describe j.kind)

/-! ### Integers -/

/-- A plain spelling denotes its integer. -/
theorem Numeral.toRat_of_toInteger? {n : Numeral} {z : ℤ} (h : n.toInteger? = some z) :
    (z : ℚ) = n.decimal.toRat := by
  rw [toInteger?] at h
  split at h
  · next hplain =>
    obtain ⟨hfraction, hexponent⟩ := (Bool.and_eq_true _ _).mp hplain
    have hscale : n.scale = 0 := by
      rw [scale, exponentValue, List.isEmpty_iff.mp hfraction,
        Option.isNone_iff_eq_none.mp hexponent]
      rfl
    rw [← Option.some.inj h, decimal, hscale, Decimal.toRat, neg_zero, zpow_zero, mul_one]
  · cases h

/-- What a width holds, 64 bits hold. -/
theorem Numeral.toInt64?_of_toInteger? {n : Numeral} {z : ℤ} {w : IntWidth}
    (h : n.toInteger? = some z) (hw : w.Holds z) : n.toInt64? = some z := by
  rw [toInt64?, h, Option.filter_some, if_pos]
  exact (Bool.and_eq_true _ _).mpr ⟨decide_eq_true hw.widen.1, decide_eq_true hw.widen.2⟩

namespace LeafType

variable {j : Json} {d : Decimal}

/-- **An integer is read** if it is spelled plainly and the width holds it. -/
theorem readsOrRefuses_int (w : IntWidth) (hj : j.Spells d) : (int w).ReadsOrRefuses j d := by
  constructor
  · rintro ⟨n, z, rfl, hz, hw⟩
    have hread : (Json.num n).int64? = some z := Numeral.toInt64?_of_toInteger? hz hw
    refine ⟨.int ⟨w, z, hw⟩, ?_, rfl, ?_⟩
    · rw [ofPlain?, hread, Option.bind_some, SizedInt.of?, dif_pos hw]
      rfl
    · cases hj
      exact Numeral.toRat_of_toInteger? hz
  · intro hnot
    -- a text has no integer, and a number that is none of the width is refused
    have hnone : j.int64?.bind (SizedInt.of? w) = none := by
      refine Option.bind_eq_none_iff.mpr fun z hz => ?_
      cases hj with
      | number n =>
        have hinteger := (Option.filter_eq_some_iff.mp hz).1
        exact dif_neg fun hw => hnot ⟨n, z, rfl, hinteger, hw⟩
      | numeral | decimal => cases hz
    rw [ofPlain?, hnone]
    rfl

end LeafType

/-! ### Floats -/

namespace Numeral

variable {n : Numeral} {x : Float64Bits}

/-- **Double precision reaches** the numbers below the half way to infinity. -/
theorem exists_toFloat64?_iff :
    (∃ x, n.toFloat64? = some x) ↔ |n.decimal.toRat| < (2 ^ 54 - 1) * 2 ^ 970 := by
  obtain ⟨r, hr⟩ := Binary.exists_rounds Format.proper_binary64 n.decimal
  rw [toFloat64?_eq hr, ← Format.overflow_binary64,
    ← hr.lt_infinityRank_iff Format.proper_binary64]
  split
  · next hlt => exact iff_of_true ⟨_, rfl⟩ hlt
  · next hge =>
    refine iff_of_false ?_ hge
    rintro ⟨x, hx⟩
    cases hx

/-- The float that a number is read as has its sign and the rank that it rounds to. -/
theorem rounds_of_toFloat64? (h : n.toFloat64? = some x) :
    Format.binary64.Rounds x.rank.val |n.decimal.toRat| ∧
      (n.decimal.toRat ≠ 0 → x.negative = decide (n.decimal.toRat < 0)) := by
  obtain ⟨r, hr⟩ := Binary.exists_rounds Format.proper_binary64 n.decimal
  rw [toFloat64?_eq hr] at h
  split at h
  · next hlt =>
    obtain rfl := Option.some.inj h
    constructor
    · rwa [Binary.ofRank, dif_pos hlt]
    · intro hne
      -- away from zero the sign of the spelling is that of the value
      have hdigits : n.unscaled ≠ 0 := fun h0 => hne (Decimal.toRat_eq_zero.mpr h0)
      have hneg : n.decimal.toRat < 0 ↔ n.unscaled < 0 := Decimal.toRat_neg_iff
      rw [Binary.negative_ofRank, negative_eq hdigits]
      exact decide_eq_decide.mpr hneg.symm
  · cases h

/-- **A number is read in double precision** as the nearest float. -/
theorem nearest_of_toFloat64? (h : n.toFloat64? = some x) : x.Nearest n.decimal.toRat :=
  have ⟨hrounds, hsign⟩ := rounds_of_toFloat64? h
  Binary.nearest_of_rounds Format.proper_binary64 (isFinite_of_toFloat64? h) hrounds hsign

/-- **A number is read in single precision** by way of double precision. -/
theorem readByWayOf_of_toFloat64? (h : n.toFloat64? = some x) :
    x.ReadByWayOf n.decimal.toRat (x.convert _) := by
  have hfinite := isFinite_of_toFloat64? h
  obtain ⟨hrounds, hsign⟩ := rounds_of_toFloat64? h
  -- the number has a rank of its own in single precision, which the detour may miss
  obtain ⟨r, hr⟩ := Binary.exists_rounds Format.proper_binary32 n.decimal
  obtain ⟨hconvert, hnearest⟩ := Binary.nearest_convert Format.proper_binary32 hfinite
  rw [Format.overflow_binary32] at hconvert
  exact ⟨nearest_of_toFloat64? h, hconvert, hnearest, Binary.nearest_convert_iff
    Format.inside_binary64 Format.proper_binary32 hfinite hrounds hsign hr⟩

end Numeral

namespace LeafType

variable {j : Json} {d : Decimal}

/-- **A float is read** if it is a JSON number that double precision reaches, whatever is then made
of the float of double precision. -/
theorem readsOrRefuses_float {t : LeafType} (make : Float64Bits → Value) (hj : j.Spells d)
    (htakes : t.Takes j d ↔ (∃ n, j = .num n) ∧ |d.toRat| < (2 ^ 54 - 1) * 2 ^ 970)
    (hread : ∀ n x, Numeral.toFloat64? n = some x →
      t.ofPlain? (.num n) = .ok (make x) ∧ t.Reads n.decimal.toRat (make x))
    (hnone : ∀ n, Numeral.toFloat64? n = none →
      t.ofPlain? (.num n) = .error (.unhandled t.describe "number"))
    (htext : ∀ s, t.ofPlain? (.str s) = .error (.unhandled t.describe "string")) :
    t.ReadsOrRefuses j d := by
  -- texts are refused even where they spell a number
  cases hj with
  | number n =>
    have hn : ∃ m, Json.num n = .num m := ⟨n, rfl⟩
    rw [and_iff_right hn, ← Numeral.exists_toFloat64?_iff] at htakes
    constructor
    · intro h
      obtain ⟨x, hx⟩ := htakes.mp h
      exact ⟨make x, hread n x hx⟩
    · intro hnot
      exact hnone n (Option.eq_none_iff_forall_ne_some.mpr fun x hx => hnot (htakes.mpr ⟨x, hx⟩))
  | numeral | decimal =>
    refine ⟨fun h => ?_, fun _ => htext _⟩
    obtain ⟨⟨n, hn⟩, -⟩ := htakes.mp h
    cases hn

/-- A float of single precision is made from that of double precision. -/
theorem readsOrRefuses_float32 (hj : j.Spells d) : float32.ReadsOrRefuses j d := by
  refine readsOrRefuses_float (fun x => .float32 (x.convert _)) hj Iff.rfl
    (fun n x hx => ⟨?_, x, Numeral.readByWayOf_of_toFloat64? hx⟩) (fun n hx => ?_) fun s => rfl
  · rw [ofPlain?, hx]
    rfl
  · rw [ofPlain?, hx]
    rfl

/-- A float of double precision is the one that was read. -/
theorem readsOrRefuses_float64 (hj : j.Spells d) : float64.ReadsOrRefuses j d := by
  refine readsOrRefuses_float .float64 hj Iff.rfl
    (fun n x hx => ⟨?_, Numeral.nearest_of_toFloat64? hx⟩) (fun n hx => ?_) fun s => rfl
  · rw [ofPlain?, hx]
    rfl
  · rw [ofPlain?, hx]
    rfl

/-! ### Decimals -/

/-- **A decimal is cut** to the places of its type, and stands for the number if nothing is cut off.
-/
theorem reads_fitDecimal (k : ℤ) (b : Decimal) :
    (decimal k).Reads b.toRat (fitDecimal k b) := by
  rw [fitDecimal]
  split
  · -- an integer, under a type without places
    next h => exact ⟨h.1, Decimal.toInt_eq_toRat h.2⟩
  · have hunscaled := b.unscaled_rescale k
    have hscale : (b.rescale k).scale = k := b.scale_rescale k
    refine ⟨hscale, hunscaled, ?_⟩
    rw [Decimal.toRat, hunscaled, hscale]
    exact truncate_mul_eq_iff

/-- **A decimal is read** if it keeps to the bounds of reading. What does not fit its places is cut,
not refused. -/
theorem readsOrRefuses_decimal {k : ℤ} (hk : (decimal k).IsNumeric) (hj : j.Spells d) :
    (decimal k).ReadsOrRefuses j d := by
  -- the scale of the type is one that is read, so only the number can be refused
  have hscale : ¬Decimal.maxReadScale < k.natAbs := Nat.not_lt.mpr hk
  have htakes : (decimal k).Takes j d ↔ Decimal.scaleInRange d.scale = true ∧ d.InBounds :=
    and_congr_right fun _ => Decimal.inBounds_iff.symm
  constructor
  · intro h
    obtain ⟨hstored, hbounds⟩ := htakes.mp h
    obtain ⟨b, hb⟩ := Decimal.exists_bounded?_iff.mpr hbounds
    refine ⟨fitDecimal k b, ?_, Decimal.toRat_of_bounded? hb ▸ reads_fitDecimal k b⟩
    rw [ofPlain?, hj.decimalText?, if_pos hstored, hb]
    exact if_neg hscale
  · intro hnot
    have hnone : (if Decimal.scaleInRange d.scale = true then d.bounded? else none) = none := by
      split
      · next hstored =>
        refine Option.eq_none_iff_forall_ne_some.mpr fun b hb => hnot (htakes.mpr ⟨hstored, ?_⟩)
        exact Decimal.exists_bounded?_iff.mp ⟨b, hb⟩
      · rfl
    rw [ofPlain?, hj.decimalText?, hnone]
    exact if_neg hscale

end LeafType

/-! ### All numeric types -/

namespace Value

/-- **Numbers are read or refused.** A number that its numeric type takes is read, as the integer,
the decimal or the float that `LeafType.Reads` says; every other one is refused, with the type and
the kind of the JSON. -/
theorem ofPlain?_number {t : LeafType} (ht : t.IsNumeric) (o : Bool) {j : Json} {d : Decimal}
    (hj : j.Spells d) :
    (t.Takes j d → ∃ v, ofPlain? (.leaf t o) j = .ok v ∧ t.Reads d.toRat v) ∧
      (¬t.Takes j d → ofPlain? (.leaf t o) j = .error (.unhandled t.describe j.kind)) := by
  -- one lemma for each numeric type
  have hanswer : t.ReadsOrRefuses j d := by
    cases t with
    | int w => exact LeafType.readsOrRefuses_int w hj
    | float32 => exact LeafType.readsOrRefuses_float32 hj
    | float64 => exact LeafType.readsOrRefuses_float64 hj
    | decimal k => exact LeafType.readsOrRefuses_decimal ht hj
    | _ => exact ht.elim
  rw [ofPlain?_leaf hj.isNull]
  exact ⟨hanswer.reads, hanswer.refuses⟩

/-- A decimal from a text with blanks around it, and with an exponent that JSON knows as well. -/
theorem ofPlain?_number_text :
    let t := LeafType.decimal 2
    let j := Json.str " 1.5e1 "
    let d : Decimal := ⟨15, 0⟩
    t.IsNumeric ∧ j.Spells d ∧ t.Takes j d ∧
      ∃ v, ofPlain? (.leaf t false) j = .ok v ∧ t.Reads d.toRat v := by
  intro t j d
  have ht : t.IsNumeric := show 2 ≤ Decimal.maxReadScale by decide
  have hj : j.Spells d := .decimal (by decide +kernel)
  have htakes : t.Takes j d := ⟨by decide, Decimal.inBounds_iff.mp (.inr (by decide +kernel))⟩
  exact ⟨ht, hj, htakes, (ofPlain?_number ht false hj).1 htakes⟩

/-- **Numbers are lost without a failure.** A decimal with more places than its type is cut, a number
that only double precision reaches becomes an infinite float of single precision, and 7.038531e-26
becomes the neighbour of the nearest one. -/
theorem lost_of_number :
    (let t := LeafType.decimal 1
     let j := Json.str "1.25"
     let d : Decimal := ⟨125, 2⟩
     let v := Value.decimal ⟨12, 1⟩
     t.IsNumeric ∧ j.Spells d ∧ ofPlain? (.leaf t false) j = .ok v ∧ ¬t.Denotes d.toRat v) ∧
    (let n : Numeral := ⟨false, 1, [], some (.ofInt 39)⟩
     let v := Value.float32 (.infinity _ false)
     (Json.num n).Spells n.decimal ∧ ofPlain? (.leaf .float32 false) (.num n) = .ok v ∧
       ¬LeafType.float32.Denotes n.decimal.toRat v) ∧
    (let n : Numeral := ⟨false, 7, [0, 3, 8, 5, 3, 1], some (.ofInt (-26))⟩
     let v := Value.float32 (.afterStray false)
     (Json.num n).Spells n.decimal ∧ ofPlain? (.leaf .float32 false) (.num n) = .ok v ∧
       ¬LeafType.float32.Denotes n.decimal.toRat v) := by
  have hread : ∀ {n : Numeral} {y : Float32Bits},
      n.toFloat64?.map (Binary.convert .binary32) = some y →
        ofPlain? (.leaf .float32 false) (.num n) = .ok (.float32 y) := by
    intro n y h
    obtain ⟨x, hx, rfl⟩ := Option.map_eq_some_iff.mp h
    exact ofPlain?_float32 false hx
  refine ⟨⟨show 1 ≤ Decimal.maxReadScale by decide, .decimal (by decide +kernel), ?_, ?_⟩,
    ⟨.number _, hread (by decide +kernel), ?_⟩, .number _, hread (by decide +kernel), ?_⟩
  · have htext : LeafType.decimalText? (.str "1.25") = some (some ⟨125, 2⟩) := by decide +kernel
    rw [ofPlain?_leaf rfl, LeafType.ofPlain?, htext]
    rfl
  · rintro ⟨-, hvalue⟩
    rw [Decimal.toRat, Decimal.toRat] at hvalue
    norm_num at hvalue
  · intro hnearest
    exact absurd hnearest.finite (by decide)
  · -- the float before is closer
    intro hnearest
    exact absurd (hnearest.closest (.stray false) (Binary.isFinite_stray false)) (by decide +kernel)

end Value
end DocStream
