import DocStream.Proofs.Convert.Padding
import DocStream.Proofs.Number.Shortest

/-!
# Which numbers come back

A document that is nested and written back has a number wherever it had one, except where a number
overflowed. Whether it is the same number, read in double precision, depends on the rung that the
number was narrowed to. Integers come back except for the sign of zero, and so does what is kept in
double precision. What is exact in single precision is written with the digits that suffice in
single precision, and these need not suffice in double precision.

* `Json.at?` — the part of a document at a place;
* `Json.WrittenAs.exists_at?` — **what stands at the place of a number** in the document as written;
* `Numeral.Survives` — the condition under which a number comes back;
* `ConversionSettings.number_survives_iff` — **a number comes back exactly if it survives**.

The question is asked of one number at a time. The relation between a document and what is written
for it leads from the place of a number to the plain form of its narrowed value; from there on only
the number and its rung matter. Reading is told by exact decimals: two numerals that spell one
rational read alike, unless it is zero and their signs differ.
-/

namespace DocStream

/-! ### Places -/

/-- A step into a container: to the member of a name, or to the item at an index. -/
inductive Step where
  | member (name : String)
  | item (index : Nat)
deriving DecidableEq

namespace Json

/-- The part of a value that is reached by a list of steps, if there is one. -/
def at? : List Step → Json → Option Json
  | [], j => some j
  | .member name :: rest, .obj members => (Members.get? members name).bind (at? rest)
  | .item index :: rest, .arr items => items[index]?.bind (at? rest)
  | _ :: _, _ => none

/-- **What stands at the place of a number**: the plain form of its narrowed value. -/
theorem WrittenAs.exists_at? {inside : Bool} {s : Schema} {d j : Json} {place : List Step}
    {n : Numeral} (h : WrittenAs inside s d j) (hd : d.Canonical) (hj : j.Canonical)
    (hn : d.at? place = some (.num n)) :
    ∃ v w, Value.ofNumeral? n = .ok v ∧ v.toPlain? none = .ok w ∧ j.at? place = some w := by
  induction place generalizing inside s d j with
  | nil =>
    -- at a number the relation says what is written
    injection hn with hn
    subst hn
    cases h with
    | num narrowed written => exact ⟨_, _, narrowed, written, rfl⟩
  | cons step rest ih =>
    cases step with
    | member name =>
      cases h with
      | null | bool | num | str | arr => exact nomatch hn
      | @obj _ members members' fields o names kept written padded =>
        -- the member of the name has been kept, and there is only one
        obtain ⟨hasc, hparts⟩ := canonical_obj.mp hd
        obtain ⟨hasc', hparts'⟩ := canonical_obj.mp hj
        obtain ⟨d', hget, hn⟩ := Option.bind_eq_some_iff.mp hn
        have hm := (Members.get?_eq_some_iff_mem hasc).mp hget
        have hname := kept name (List.mem_map_of_mem (f := Prod.fst) hm)
        obtain ⟨m', hm', hmn'⟩ := List.mem_map.mp hname
        obtain ⟨f, hf, hfn⟩ := List.mem_map.mp (names ▸ hname)
        obtain ⟨v, w, hv, hw, hat⟩ := ih (written _ hm m' hm' hmn' f hf hfn)
          (hparts _ hm) (hparts' m' hm') hn
        refine ⟨v, w, hv, hw, Option.bind_eq_some_iff.mpr ⟨m'.2, ?_, hat⟩⟩
        exact (Members.get?_eq_some_iff_mem hasc').mpr (hmn' ▸ hm')
    | item index =>
      cases h with
      | null | bool | num | str | obj => exact nomatch hn
      | @arr _ items items' e o length written =>
        -- the item at the index has stayed there
        obtain ⟨d', hget, hn⟩ := Option.bind_eq_some_iff.mp hn
        -- the items are as many as before
        obtain ⟨hlt, hitem⟩ := List.getElem?_eq_some_iff.mp hget
        have hlt' : index < items'.length := length ▸ hlt
        have hzip : (d', items'[index]) ∈ items.zip items' := hitem ▸ getElem_mem_zip hlt hlt'
        obtain ⟨v, w, hv, hw, hat⟩ := ih (written _ hzip)
          (canonical_arr.mp hd _ (List.of_mem_zip hzip).1)
          (canonical_arr.mp hj _ (List.of_mem_zip hzip).2) hn
        refine ⟨v, w, hv, hw, Option.bind_eq_some_iff.mpr ⟨items'[index], ?_, hat⟩⟩
        exact List.getElem?_eq_getElem hlt'

end Json

/-! ### Single numbers -/

theorem Decimal.isIntegral_of_unscaled {d : Decimal} (h : d.unscaled = 0) :
    d.isIntegral = true := by
  rw [isIntegral, h]
  rfl

namespace Numeral

/-- **A number survives** being narrowed and written if it is no negative zero and, unless it is an
integer, reads as a finite double-precision float that the text of a single-precision float of
exactly its value, if there is one, reads as too. -/
def Survives (n : Numeral) : Prop :=
  (n.unscaled = 0 → n.negative = false) ∧
  (n.decimal.isIntegral = false → n.toFloat64? ≠ none ∧
    ∀ x : Float32Bits, x.isFinite = true → x.equalsDecimal n.decimal = true →
      x.toNumeral.toFloat64? = n.toFloat64?)

/-- A narrowed number stands on the ladder with the decimal it spells, or with plain zero. So
whether it is an integer can be asked of the spelling, and a fraction is never zero. -/
theorem rung_of_narrowed {n : Numeral} {v : Value} (h : Value.ofNumeral? n = .ok v) :
    ∃ d, Value.Rung d v ∧ d.toRat = n.decimal.toRat ∧
      (d.isIntegral = n.decimal.isIntegral) ∧
      (d.isIntegral = false → d = n.decimal ∧ n.unscaled ≠ 0) := by
  obtain ⟨d, hd, hrung⟩ := Value.rung_of_ofNumeral? h
  obtain ⟨d', hd', hbounded⟩ := Option.bind_eq_some_iff.mp hd
  have heq : d' = n.decimal := by
    rw [toDecimal?] at hd'
    split at hd'
    · injection hd' with hd'
      exact hd'.symm
    · exact nomatch hd'
  subst heq
  refine ⟨d, hrung, ?_⟩
  -- all zeros become plain zero; any other decimal stays as it is
  rcases Decimal.bounded?_eq_some hbounded with ⟨hzero, rfl⟩ | ⟨hne, rfl, -⟩
  · refine ⟨?_, ?_, fun h => nomatch h⟩
    · rw [Decimal.toRat_eq_zero.mpr hzero, Decimal.toRat_eq_zero]
    · rw [Decimal.isIntegral_of_unscaled hzero]
      rfl
  · exact ⟨rfl, rfl, fun _ => ⟨rfl, hne⟩⟩

/-- Zero is read as the zero of its sign, however many digits and places it is spelled with. -/
theorem toFloat64?_of_eq_zero {n : Numeral} (h : n.decimal.toRat = 0) :
    n.toFloat64? = some (.ofRank _ n.negative 0) := by
  -- the rank of zero is zero, as zero is within the first half step
  have hrounds : Format.binary64.Rounds 0 |n.decimal.toRat| := by
    refine Format.rounds_zero (abs_nonneg _) ?_
    rw [h, abs_zero, zero_mul, mul_zero]
    exact zero_le_one
  rw [toFloat64?_eq hrounds, if_pos Format.proper_binary64.infinityRank_pos]

/-- An integer that a number is equal to is read as the number is, the sign of zero aside. Integers
are written without a sign for zero. -/
theorem toFloat64?_ofInt {n : Numeral} {z : ℤ} (h : (z : ℚ) = n.decimal.toRat) :
    (ofInt z).toFloat64? = n.toFloat64? ↔ (n.unscaled = 0 → n.negative = false) := by
  have hz : (ofInt z).decimal.toRat = n.decimal.toRat := by
    rw [decimal_ofInt, ← h, Decimal.toRat]
    simp
  by_cases hzero : n.unscaled = 0
  · -- both are zeros, and the integer has no sign
    have hrat : n.decimal.toRat = 0 := Decimal.toRat_eq_zero.mpr hzero
    have hfinite := Format.proper_binary64.infinityRank_pos
    obtain rfl : z = 0 := by
      rw [hrat] at h
      exact_mod_cast h
    rw [toFloat64?_of_eq_zero hrat, toFloat64?_of_eq_zero (hz.trans hrat), Option.some_inj,
      Binary.ofRank, Binary.ofRank, dif_pos hfinite, dif_pos hfinite, Binary.mk.injEq]
    exact ⟨fun heq _ => heq.1.symm, fun hneg => ⟨(hneg hzero).symm, rfl⟩⟩
  · -- otherwise the sign is that of the value
    refine iff_of_true (toFloat64?_congr ?_ (by rw [hz])) fun h0 => absurd h0 hzero
    have hpos : (0 : ℚ) < 10 ^ (-n.decimal.scale) := zpow_pos (by norm_num) _
    have hlt : z < 0 ↔ n.unscaled < 0 := by
      rw [← Int.cast_lt_zero (R := ℚ), h, Decimal.toRat, ← not_le, mul_nonneg_iff_of_pos_right hpos,
        not_le, Int.cast_lt_zero]
      rfl
    rw [negative_eq hzero]
    exact decide_eq_decide.mpr hlt

/-- What is read of a number that is not zero is the float nearest to its decimal, if finite. -/
theorem toFloat64?_of_ne_zero {n : Numeral} (h : n.unscaled ≠ 0) :
    n.toFloat64? = if (n.decimal.nearest .binary64).isFinite then some (n.decimal.nearest _)
      else none := by
  rw [toFloat64?, negative_eq h]
  rfl

section Rungs

variable {n : Numeral}

/-- An integer survives unless it is a negative zero. Its digits are written in full, so nothing but
the sign can be lost. -/
theorem survives_iff_of_integral {z : ℤ} (hz : (z : ℚ) = n.decimal.toRat)
    (integral : n.decimal.isIntegral = true) :
    (∃ m, Json.ofInt z = .num m ∧ m.toFloat64? = n.toFloat64?) ↔ n.Survives := by
  constructor
  · rintro ⟨m, hm, hread⟩
    injection hm with hm
    subst hm
    exact ⟨(toFloat64?_ofInt hz).mp hread, fun h => absurd (integral.symm.trans h) (by decide)⟩
  · exact fun h => ⟨_, rfl, (toFloat64?_ofInt hz).mpr h.1⟩

/-- What is exact in single precision survives if the digits for single precision suffice. They are
the shortest that read back in single precision, and in double precision they may read as a
neighbour. -/
theorem survives_iff_of_exact (hzero : n.unscaled ≠ 0) (integral : n.decimal.isIntegral = false)
    (finite : (n.decimal.nearest .binary32).isFinite = true)
    (exact : (n.decimal.nearest .binary32).equalsDecimal n.decimal = true) :
    (∃ m, Value.floatPlain (n.decimal.nearest .binary32) = .num m ∧
      m.toFloat64? = n.toFloat64?) ↔ n.Survives := by
  rw [Value.floatPlain, if_pos finite]
  constructor
  · rintro ⟨m, hm, hread⟩
    injection hm with hm
    subst hm
    obtain ⟨y, hy⟩ := Binary.exists_toFloat64?_toNumeral finite
    -- it is not zero, and it was read, as its text is that of a finite float
    refine ⟨fun h => absurd h hzero, fun _ => ⟨fun hnone => ?_, fun x hfin hx => ?_⟩⟩
    · rw [hy, hnone] at hread
      cases hread
    · -- there is one such float at most: the nearest one
      rw [← Binary.ofDecimal_of_equalsDecimal Format.proper_binary32 hzero hfin hx]
      exact hread
  · exact fun h => ⟨_, rfl, (h.2 integral).2 _ finite exact⟩

/-- What is kept in double precision survives unless it overflows, since the digits written for it
suffice there. -/
theorem survives_iff_of_inexact (hzero : n.unscaled ≠ 0) (integral : n.decimal.isIntegral = false)
    (inexact : ¬((n.decimal.nearest .binary32).isFinite = true ∧
      (n.decimal.nearest .binary32).equalsDecimal n.decimal = true)) :
    (∃ m, Value.floatPlain (n.decimal.nearest .binary64) = .num m ∧
      m.toFloat64? = n.toFloat64?) ↔ n.Survives := by
  have hread := toFloat64?_of_ne_zero hzero
  -- the nearest single-precision float is not exact, hence none is
  have hnone : ∀ x : Float32Bits, x.isFinite = true → x.equalsDecimal n.decimal = true → False := by
    intro x hfin hx
    refine inexact ?_
    rw [Decimal.nearest, Binary.ofDecimal_of_equalsDecimal Format.proper_binary32 hzero hfin hx]
    exact ⟨hfin, hx⟩
  rw [Value.floatPlain]
  split
  · next hfinite =>
    rw [if_pos hfinite] at hread
    refine iff_of_true ⟨_, rfl, ?_⟩ ⟨fun h => absurd h hzero, fun _ => ⟨?_, fun x hfin hx => ?_⟩⟩
    · rw [hread, Binary.toFloat64?_toNumeral hfinite]
    · rw [hread]
      exact Option.some_ne_none _
    · exact (hnone x hfin hx).elim
  · next hfinite =>
    -- an overflow is written as null, and the number itself cannot be read
    rw [if_neg hfinite] at hread
    refine iff_of_false ?_ fun h => (h.2 integral).1 hread
    rintro ⟨m, hm, -⟩
    cases hm

/-- **What is written for a number reads as the same double-precision float exactly if the number
survives.** The four rungs of the ladder, each by its own lemma. -/
theorem survives_iff {v : Value} {j : Json} (hv : Value.ofNumeral? n = .ok v)
    (hj : v.toPlain? none = .ok j) :
    (∃ m, j = .num m ∧ m.toFloat64? = n.toFloat64?) ↔ n.Survives := by
  obtain ⟨d, hrung, hrat, hintegral, hne⟩ := rung_of_narrowed hv
  rw [Value.toPlain?_none (Json.isLeaf_of_rung hrung)] at hj
  cases hrung with
  | int i integral val =>
    injection hj with hj
    exact hj ▸ survives_iff_of_integral (hrat ▸ val ▸ Decimal.toInt_eq_toRat integral)
      (hintegral ▸ integral)
  | bigint integral wide =>
    injection hj with hj
    exact hj ▸ survives_iff_of_integral (hrat ▸ Decimal.toInt_eq_toRat integral)
      (hintegral ▸ integral)
  | float32 integral finite exact =>
    obtain ⟨rfl, hzero⟩ := hne integral
    injection hj with hj
    exact hj ▸ survives_iff_of_exact hzero integral finite exact
  | float64 integral inexact =>
    obtain ⟨rfl, hzero⟩ := hne integral
    injection hj with hj
    exact hj ▸ survives_iff_of_inexact hzero integral inexact

end Rungs

end Numeral

/-! ### Numbers of a document -/

namespace ConversionSettings

/-- **A number comes back exactly if it survives.** An object that was converted, nested and with a
schema, is written back so that at the place of each of its numbers there is a number read as the
same double-precision float if, and only if, the number survives. -/
theorem number_survives_iff {settings : ConversionSettings} {members : Members} {s : Schema}
    {v : Value} (hd : (Json.obj members).Canonical)
    (h : settings.convert (.obj members) = .ok (.structured s v)) :
    ∃ written, v.toDocument? (some s) = .ok written ∧
      ∀ place n, (Json.obj members).at? place = some (.num n) →
        ((∃ m, (Json.obj written).at? place = some (.num m) ∧ m.toFloat64? = n.toFloat64?) ↔
          n.Survives) := by
  obtain ⟨written, hw, hcanonical, hwritten⟩ := writtenAs_of_convert hd h
  refine ⟨written, hw, fun place n hn => ?_⟩
  obtain ⟨w, j, hnarrow, hplain, hat⟩ := hwritten.exists_at? hd hcanonical hn
  rw [← Numeral.survives_iff hnarrow hplain, hat]
  simp only [Option.some.injEq]

/-- A fraction inside an array and a number that needs double precision. -/
theorem number_survives_iff_fractions :
    let members : Members := [("a", .num ⟨false, 0, [1], none⟩),
      ("b", .arr [.num ⟨true, 2, [5], none⟩])]
    ∃ s v, (Json.obj members).Canonical ∧
      ({} : ConversionSettings).convert (.obj members) = .ok (.structured s v) ∧
      ∃ written, v.toDocument? (some s) = .ok written ∧
        ∀ place n, (Json.obj members).at? place = some (.num n) →
          ((∃ m, (Json.obj written).at? place = some (.num m) ∧ m.toFloat64? = n.toFloat64?) ↔
            n.Survives) := by
  intro members
  have hd : (Json.obj members).Canonical := by decide +kernel
  have hok : (match ({} : ConversionSettings).convert (.obj members) with
      | .ok (.structured _ _) => true
      | _ => false) = true := by decide +kernel
  split at hok
  · next s v h => exact ⟨s, v, hd, h, number_survives_iff hd h⟩
  · exact nomatch hok

/-- **Not every number survives.** The decimal of the single-precision float next to one tenth is
written as one tenth, which reads as another double-precision float. -/
theorem not_survives_tenth :
    let n : Numeral := ⟨false, 0, [1, 0, 0, 0, 0, 0, 0, 0, 1, 4, 9, 0, 1, 1, 6, 1, 1, 9, 3, 8, 4, 7,
      6, 5, 6, 2, 5], none⟩
    let members : Members := [("a", .num n)]
    ∃ s v written, ({} : ConversionSettings).convert (.obj members) = .ok (.structured s v) ∧
      v.toDocument? (some s) = .ok written ∧
      (Json.obj members).at? [.member "a"] = some (.num n) ∧
      (Json.obj written).at? [.member "a"] = some (.num ⟨false, 0, [1], none⟩) ∧
      ¬∃ m, (Json.obj written).at? [.member "a"] = some (.num m) ∧
        m.toFloat64? = n.toFloat64? := by
  intro n members
  have hok : (match ({} : ConversionSettings).convert (.obj members) with
      | .ok (.structured s v) => (match v.toDocument? (some s) with
        | .ok w => decide (w = [("a", .num ⟨false, 0, [1], none⟩)])
        | _ => false)
      | _ => false) = true := by decide +kernel
  have hbefore : (Json.obj members).at? [.member "a"] = some (.num n) := by decide +kernel
  have hafter : (Json.obj [("a", .num ⟨false, 0, [1], none⟩)]).at? [.member "a"] =
      some (.num ⟨false, 0, [1], none⟩) := by decide +kernel
  have hne : (⟨false, 0, [1], none⟩ : Numeral).toFloat64? ≠ n.toFloat64? := by decide +kernel
  split at hok
  · next s v h =>
    split at hok
    · next w hw =>
      obtain rfl := of_decide_eq_true hok
      refine ⟨s, v, _, h, hw, hbefore, hafter, fun ⟨m, hm, hread⟩ => hne ?_⟩
      rw [hafter] at hm
      obtain rfl := Json.num.inj (Option.some.inj hm)
      exact hread
    · exact nomatch hok
  · exact nomatch hok

end ConversionSettings
end DocStream
