import DocStream.Number.Decimal

/-!
# Binary floating-point numbers

The interchange formats of IEEE 754, as data over natural numbers. A float is a sign and a *rank*:
the bits of exponent and fraction read as one integer. Within a sign, ranks are ordered as the
magnitudes they stand for, the rank after the largest finite one is infinity, and all ranks beyond
it are NaNs.

* `Format` — the two field widths, with `Format.binary32` and `Format.binary64`;
* `Binary.units` — the magnitude of a finite float in units of the smallest positive one, so that
  its exact value is `± units / 2 ^ shift`;
* `Format.nearestRank` — rounding a quotient to the nearest float, ties to the even rank;
* `Binary.ofDecimal` — the float nearest to a decimal;
* `Binary.exactDecimal` — the decimal that a float is, and `Binary.equalsDecimal`, the comparison
  with another one;
* `Binary.mul` — the product of two floats, rounded once.

No statement needs a limit or a real number: a value is a quotient of natural numbers.
-/

namespace DocStream

-- Powers of numbers are the core library's, so that they evaluate.
attribute [local instance (high)] instPowNat

/-- A binary interchange format, by the widths of its two fields. Everything about a format follows
from these. -/
structure Format where
  fractionBits : Nat
  exponentBits : Nat
deriving DecidableEq, Repr

namespace Format

def binary32 : Format := ⟨23, 8⟩

def binary64 : Format := ⟨52, 11⟩

/-- Width of exponent and fraction together. -/
def rankBits (fmt : Format) : Nat := fmt.exponentBits + fmt.fractionBits

/-- The rank of infinity: all exponent bits set, no fraction bit. -/
def infinityRank (fmt : Format) : Nat := (2 ^ fmt.exponentBits - 1) * 2 ^ fmt.fractionBits

/-- The smallest positive float is `2 ^ (-shift)`. -/
def shift (fmt : Format) : Nat := 2 ^ (fmt.exponentBits - 1) - 2 + fmt.fractionBits

/-- Magnitude of the float of rank `r`, in units of the smallest positive float. The formula goes on
beyond the finite ranks as if the exponent had room. -/
def unitsOfRank (fmt : Format) (r : Nat) : Nat :=
  let exponent := r / 2 ^ fmt.fractionBits
  let fraction := r % 2 ^ fmt.fractionBits
  if exponent = 0 then fraction else (2 ^ fmt.fractionBits + fraction) * 2 ^ (exponent - 1)

/-- The integer nearest to `num / den`; a tie goes to the even neighbour. -/
def roundHalfEven (num den : Nat) : Nat :=
  let q := num / den
  let r := num % den
  if 2 * r < den then q else if den < 2 * r then q + 1 else q + q % 2

/-- **Rounding to nearest.** The rank of the float nearest to `num / den`, ties to the even rank.
The quotient is taken in units of the smallest positive float; `excess` low bits of it do not fit
the significand and are rounded away. A result of at least `infinityRank` is an overflow. -/
def nearestRank (fmt : Format) (num den : Nat) : Nat :=
  let scaled := num * 2 ^ fmt.shift
  let excess := Nat.log2 (scaled / den) - fmt.fractionBits
  excess * 2 ^ fmt.fractionBits + roundHalfEven scaled (den * 2 ^ excess)

theorem infinityRank_lt (fmt : Format) : fmt.infinityRank < 2 ^ fmt.rankBits := by
  have h : 0 < 2 ^ fmt.exponentBits := Nat.pow_pos (by decide)
  have h' : 0 < 2 ^ fmt.fractionBits := Nat.pow_pos (by decide)
  rw [infinityRank, rankBits, Nat.pow_add]
  exact Nat.mul_lt_mul_of_pos_right (by omega) h'

/-- Orders of magnitude above this bound overflow, those below its opposite vanish. -/
def magnitudeBound (fmt : Format) : Nat := fmt.shift + 2

end Format

/-- **A float** of a format: a sign, and the bits of exponent and fraction as one number. -/
structure Binary (fmt : Format) where
  negative : Bool
  /-- Exponent and fraction bits. -/
  rank : Fin (2 ^ fmt.rankBits)
deriving DecidableEq

namespace Binary

variable {fmt : Format}

/-- All bits as one number: sign, exponent, fraction. -/
def toBits (x : Binary fmt) : Nat := (if x.negative then 2 ^ fmt.rankBits else 0) + x.rank.val

/-- The float with the given bits; bits beyond the sign are dropped. -/
def ofBits (fmt : Format) (bits : Nat) : Binary fmt :=
  ⟨bits.testBit fmt.rankBits, ⟨bits % 2 ^ fmt.rankBits, Nat.mod_lt _ (Nat.pow_pos (by decide))⟩⟩

/-- Is it a number? -/
def isFinite (x : Binary fmt) : Bool := x.rank.val < fmt.infinityRank

/-- Is it not even an infinity? -/
def isNaN (x : Binary fmt) : Bool := fmt.infinityRank < x.rank.val

/-- Is it a zero, of either sign? -/
def isZero (x : Binary fmt) : Bool := x.rank.val = 0

def infinity (fmt : Format) (negative : Bool) : Binary fmt :=
  ⟨negative, ⟨fmt.infinityRank, fmt.infinityRank_lt⟩⟩

def zero (fmt : Format) (negative : Bool) : Binary fmt :=
  ⟨negative, ⟨0, Nat.pow_pos (by decide)⟩⟩

/-- Magnitude in units of the smallest positive float. For an infinity or what is no number it has
no meaning. -/
def units (x : Binary fmt) : Nat := fmt.unitsOfRank x.rank.val

/-- Not a number: all bits of exponent and fraction set. -/
def nan (fmt : Format) (negative : Bool) : Binary fmt :=
  ⟨negative, ⟨2 ^ fmt.rankBits - 1, Nat.sub_lt (Nat.pow_pos (by decide)) (by decide)⟩⟩

/-- The float of a rank; ranks past infinity become infinity. -/
def ofRank (fmt : Format) (negative : Bool) (r : Nat) : Binary fmt :=
  if h : r < fmt.infinityRank then ⟨negative, ⟨r, Nat.lt_trans h fmt.infinityRank_lt⟩⟩
  else infinity fmt negative

/-- The float nearest to `num / den`, with a sign of its own, so that a value that rounds to zero
keeps its sign. -/
def ofQuotient (fmt : Format) (negative : Bool) (num den : Nat) : Binary fmt :=
  ofRank fmt negative (fmt.nearestRank num den)

/-- **The float nearest to a decimal.** The sign is given apart, for texts such as `-0.0`. Decimals
of extreme magnitude are settled without computing their power of ten. -/
def ofDecimal (fmt : Format) (negative : Bool) (d : Decimal) : Binary fmt :=
  if d.unscaled = 0 then zero fmt negative
  else if d.magnitude < -(fmt.magnitudeBound : Int) then zero fmt negative
  else if (fmt.magnitudeBound : Int) < d.magnitude then infinity fmt negative
  else ofQuotient fmt negative d.numerator.natAbs d.denominator

/-- The float nearest to an integer. A large integer overflows to an infinity. -/
def ofInt (fmt : Format) (n : Int) : Binary fmt := ofQuotient fmt (n < 0) n.natAbs 1

/-- Does the finite float have exactly the value of the decimal? The fractions `units / 2 ^ shift`
and `numerator / denominator` are compared crosswise. The digits of `Binary.exactDecimal`, of which
there may be hundreds, are not computed for it. -/
def equalsDecimal (x : Binary fmt) (d : Decimal) : Bool :=
  x.units * d.denominator == d.numerator.natAbs * 2 ^ fmt.shift
    && (x.units == 0 || x.negative == decide (d.unscaled < 0))

/-- **The exact value of a finite float as a decimal**, digit for digit. Significand and exponent of
two are read off the two fields of bits. Where the exponent is negative, `m · 2 ^ (-k)` is written
as `m · 5 ^ k` at scale `k`. -/
def exactDecimal (x : Binary fmt) : Decimal :=
  let exponentBits := x.rank.val / 2 ^ fmt.fractionBits
  let fraction := x.rank.val % 2 ^ fmt.fractionBits
  -- A float without exponent bits has no hidden bit, but the exponent of those with the least bits.
  let (mantissa, exponent) : Nat × Int :=
    if exponentBits = 0 then (fraction, -fmt.shift)
    else (2 ^ fmt.fractionBits + fraction, exponentBits - 1 - fmt.shift)
  let int : Int := if x.negative then -mantissa else mantissa
  if 0 ≤ exponent then ⟨int * 2 ^ exponent.toNat, 0⟩
  else ⟨int * 5 ^ (-exponent).toNat, -exponent⟩

/-- **Change of format**: the nearest float of the other format; infinities and NaNs stay such. To a
wider format every number goes exactly, and to a narrower one it may become a zero or an infinity.
-/
def convert (target : Format) (x : Binary fmt) : Binary target :=
  if x.isFinite then ofQuotient target x.negative x.units (2 ^ fmt.shift)
  else if x.isNaN then nan target x.negative
  else infinity target x.negative

/-- **The product**, rounded to nearest. An infinity times a zero is not a number. -/
def mul (x y : Binary fmt) : Binary fmt :=
  let negative := x.negative != y.negative
  if x.isFinite && y.isFinite then
    ofQuotient fmt negative (x.units * y.units) (2 ^ (2 * fmt.shift))
  else if x.isNaN || y.isNaN || x.isZero || y.isZero then nan fmt negative
  else infinity fmt negative

/-- **Numeric equality**: a NaN equals nothing, the two zeros equal each other. -/
def sameNumber (x y : Binary fmt) : Bool :=
  !x.isNaN && !y.isNaN && (x == y || (x.isZero && y.isZero))

end Binary

abbrev Float32Bits := Binary .binary32

abbrev Float64Bits := Binary .binary64

end DocStream
