import DocStream.Number.Binary

/-!
# Decimals widened to floats

Asked for as a double-precision float, a decimal is widened by a few cheap steps. Each rounds well,
but together they need not give the nearest float.

* `Decimal.trimmed` — digits far beyond the precision of a float are cut off, nineteen at a time;
* `Binary.power` — a power by repeated squaring, every product rounded;
* `Decimal.toFloat64` — with places left after the point the float nearest to the trimmed decimal;
  with none, the trimmed integer as a float times the power of ten as a float.

For the float nearest to a decimal see `Binary.ofDecimal`.
-/

namespace DocStream

-- Powers of numbers are the core library's, so that they evaluate.
attribute [local instance (high)] instPowNat

namespace Binary

variable {fmt : Format}

/-- **A power by repeated squaring**, times a product made so far: for each bit of the exponent,
from the lowest on, the base is squared. The base is not squared once more after the last bit, so
that no overflow comes from a square that is not needed. -/
def powerFrom (product base : Binary fmt) (exponent : Nat) : Binary fmt :=
  let product := if exponent % 2 = 1 then product.mul base else product
  if exponent / 2 = 0 then product else powerFrom product (base.mul base) (exponent / 2)
termination_by exponent

/-- A power by repeated squaring. -/
def power (base : Binary fmt) (exponent : Nat) : Binary fmt := powerFrom (ofInt fmt 1) base exponent

end Binary

namespace Decimal

/-- About how many digits the unscaled integer has, told from its bits alone: `k` is the greatest
with `10 ^ k ≤ 2 ^ (bits + 1)`. It is the count of digits or one less. -/
def digitEstimate (d : Decimal) : Nat :=
  let bits := Nat.log2 d.unscaled.natAbs + 1
  Digits.count (2 ^ (bits + 1)) - 1

/-- How many digits are surely enough for any float. -/
def enoughDigits : Nat := 25

/-- How many digits are cut off at a time. -/
def digitGroup : Nat := 19

/-- **Trimming**: of the digits beyond those that are enough, all whole groups are cut off. -/
def trimmed (d : Decimal) : Decimal :=
  d.rescale (d.scale - (digitGroup * ((d.digitEstimate - enoughDigits) / digitGroup) : Nat))

/-- **A decimal as a float.** An integer of scale zero is rounded to nearest. A trimmed scale beyond
32 bits, on either side, counts as out of range: the float is an infinity. -/
def toFloat64 (d : Decimal) : Float64Bits :=
  if d.unscaled = 0 then .zero _ false
  else if d.scale = 0 then .ofInt _ d.unscaled
  else
    let t := d.trimmed
    let negative : Bool := d.unscaled < 0
    if !fitsSigned 32 t.scale then .infinity _ negative
    else if 0 < t.scale then .ofDecimal _ negative t
    else (Binary.ofInt _ t.unscaled).mul ((Binary.ofInt _ 10).power (-t.scale).toNat)

end Decimal
end DocStream
