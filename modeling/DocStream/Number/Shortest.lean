import DocStream.Number.Binary
import DocStream.Number.Numeral

/-!
# Shortest float texts

The spelling of a finite float: the fewest digits that read back as the same float, and of all
digit strings of that length the one nearest to the exact value.

A float of rank `r` stands for an interval of reals, the ones that round to it. Its ends lie half
way to the neighbouring floats and belong to the interval exactly when the rank is even. Everything
is computed on integers: in units of `10 ^ (-shift) / 2` the value and both ends are integers,
because `2 ^ (-shift) = 5 ^ shift · 10 ^ (-shift)`.

* `Shortest.candidate?` — the best point of the grid of `k`-digit numbers in the interval, if any;
* `Shortest.search` — the first grid with such a point, coarse grids first;
* `Shortest.decimal` — **the shortest digits**, as a decimal;
* `Binary.toNumeral` — their layout as a numeral.
-/

namespace DocStream

-- Powers of numbers are the core library's, so that they evaluate.
attribute [local instance (high)] instPowNat

/-- The interval of reals that round to a float, in half units of `10 ^ (-shift)`. Every decimal in
it can stand for the float. -/
structure RoundingInterval where
  /-- Twice the value. -/
  value : Nat
  /-- Twice the lower end. -/
  low : Nat
  /-- Twice the upper end. -/
  high : Nat
  /-- Do the ends belong to it? -/
  closed : Bool

namespace RoundingInterval

/-- The interval of the positive float of rank `r`. -/
def ofRank (fmt : Format) (r : Nat) : RoundingInterval :=
  let unit := 5 ^ fmt.shift
  let here := fmt.unitsOfRank r
  ⟨2 * here * unit, (fmt.unitsOfRank (r - 1) + here) * unit,
    (here + fmt.unitsOfRank (r + 1)) * unit, r % 2 = 0⟩

/-- Is a number of half units in the interval? -/
def contains (i : RoundingInterval) (x : Nat) : Bool :=
  if i.closed then i.low ≤ x && x ≤ i.high else i.low < x && x < i.high

end RoundingInterval

namespace Shortest

/-- The point of the grid with the given step that lies in the interval and is nearest to the value,
as a multiple of the step. Only the two neighbours of the value need a look; a tie goes up. -/
def candidate? (i : RoundingInterval) (step : Nat) : Option Nat :=
  let below := i.value / (2 * step)
  let above := below + 1
  match i.contains (2 * step * below), i.contains (2 * step * above) with
  | true, true =>
    if i.value - 2 * step * below < 2 * step * above - i.value then some below else some above
  | true, false => some below
  | false, true => some above
  | false, false => none

/-- The first grid with a point in the interval, coarse grids first: the point and the number of
places by which its step exceeds the unit. -/
def search (i : RoundingInterval) : Nat → Nat × Nat
  | 0 => (i.value / 2, 0)
  | places + 1 =>
    match candidate? i (10 ^ places) with
    | some n => (n, places)
    | none => search i places

/-- **Shortest digits** of the positive finite float of rank `r`: a decimal that rounds to the float
and has as few digits as any that does. -/
def decimal (fmt : Format) (r : Nat) : Decimal :=
  let i := RoundingInterval.ofRank fmt r
  let (n, places) := search i (Digits.count (i.value / 2))
  Decimal.normal ⟨n, fmt.shift - places⟩

end Shortest

/-! ### Layout -/

namespace Binary

/-- Floats below `10 ^ (-leastPositional)` are written with an exponent: one ten-thousandth is the
last power of ten that is written out with its zeros. -/
def leastPositional : Nat := 4

/-- Floats from `10 ^ mostPositional` up are written with an exponent as well, and those below with
all the digits before their point. -/
def mostPositional : Nat := 16

/-- **Layout of shortest digits.** Between the two bounds positional, always with a point and at
least one digit after it; beyond them one digit, the others after a point if there are any, and an
exponent. -/
def layout (negative : Bool) (d : Decimal) : Numeral :=
  let n := d.unscaled.natAbs
  let digits := Digits.ofNat n
  -- The value is `d.ddd · 10 ^ exponent` with a non-zero first digit.
  let exponent : Int := digits.length - 1 - d.scale
  if exponent < -(leastPositional : Int) ∨ (mostPositional : Int) ≤ exponent then
    ⟨negative, n / 10 ^ (digits.length - 1), digits.drop 1, some (.ofInt exponent)⟩
  else if d.scale ≤ 0 then ⟨negative, n * 10 ^ (-d.scale).toNat, [.zero], none⟩
  else if d.scale < digits.length then
    let places := d.scale.toNat
    ⟨negative, n / 10 ^ places, digits.drop (digits.length - places), none⟩
  else ⟨negative, 0, List.replicate (d.scale.toNat - digits.length) .zero ++ digits, none⟩

/-- **The spelling of a finite float**: its shortest digits, laid out. -/
def toNumeral {fmt : Format} (x : Binary fmt) : Numeral :=
  if x.isZero then ⟨x.negative, 0, [.zero], none⟩
  else layout x.negative (Shortest.decimal fmt x.rank.val)

end Binary
end DocStream
