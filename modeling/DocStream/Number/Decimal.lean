import DocStream.Number.Digits

/-!
# Decimals

An exact decimal number: an integer and a scale, denoting `unscaled · 10 ^ (-scale)`. The scale is
part of the datum, so `1.50` and `1.5` are different decimals with the same value.

* `Decimal.normal` — the decimal of the same value with the least scale, by which
  `Decimal.sameValue` compares;
* `Decimal.rescale` — another scale, cutting digits off towards zero;
* `Decimal.magnitude` — the decimal order of magnitude, read off digit count and scale alone, so
  that a huge exponent is recognised before any power of ten is computed;
* `Decimal.ofText?` — the decimal a text spells.

Scales are bounded to 64-bit integers where text is read: `Decimal.scaleInRange`.
-/

namespace DocStream

-- Powers of numbers are the core library's, so that they evaluate.
attribute [local instance (high)] instPowNat

/-- An exact decimal: `unscaled · 10 ^ (-scale)`. -/
structure Decimal where
  /-- The digits with their sign, as one integer. -/
  unscaled : Int
  /-- How many of the digits stand after the point; negative for appended zeros. -/
  scale : Int
deriving DecidableEq, Repr, Inhabited

namespace Decimal

/-- The integer `n` as a decimal of scale zero. -/
def ofInt (n : Int) : Decimal := ⟨n, 0⟩

/-- How many digits the unscaled integer has; zero has one. -/
def digitCount (d : Decimal) : Nat := Digits.count d.unscaled.natAbs

/-- **Order of magnitude**: a non-zero decimal of magnitude `m` lies in `[10 ^ (m - 1), 10 ^ m)`
up to sign. -/
def magnitude (d : Decimal) : Int := d.digitCount - d.scale

/-- Numerator of the value in terms of powers of ten. -/
def numerator (d : Decimal) : Int := d.unscaled * 10 ^ (-d.scale).toNat

/-- Denominator of the value in terms of powers of ten. -/
def denominator (d : Decimal) : Nat := 10 ^ d.scale.toNat

/-- Is the value an integer? Zeros after the point do not count against it. -/
def isIntegral (d : Decimal) : Bool :=
  d.unscaled == 0 || d.scale ≤ 0 || d.unscaled % 10 ^ d.scale.toNat == 0

/-- **Another scale.** More places append zeros, fewer places cut digits off, towards zero. -/
def rescale (d : Decimal) (scale : Int) : Decimal :=
  if d.unscaled = 0 then ⟨0, scale⟩
  else if d.scale ≤ scale then ⟨d.unscaled * 10 ^ (scale - d.scale).toNat, scale⟩
  else ⟨d.unscaled.tdiv (10 ^ (d.scale - scale).toNat), scale⟩

/-- The integer part, for a decimal whose value is an integer. Of other decimals it is what is left
when the digits after the point are cut off. -/
def toInt (d : Decimal) : Int := (d.rescale 0).unscaled

/-- Trailing zeros of `digits` dropped from the end of `n`, one place of the scale each. -/
def strip : Nat → Int → Int → Decimal
  | 0, n, scale => ⟨n, scale⟩
  | fuel + 1, n, scale =>
    if n % 10 = 0 then strip fuel (n / 10) (scale - 1) else ⟨n, scale⟩

/-- **Normal form**: no trailing zero in the unscaled integer, and scale zero for zero. -/
def normal (d : Decimal) : Decimal :=
  if d.unscaled = 0 then ⟨0, 0⟩ else strip d.digitCount d.unscaled d.scale

/-- Two decimals of the same value, whatever their scales. Normal forms are compared, so that no
power of ten has to be computed. -/
def sameValue (a b : Decimal) : Bool := a.normal == b.normal

/-- The range of scales that can be stored: the integers of 64 bits. -/
def scaleInRange (scale : Int) : Bool := fitsSigned 64 scale

/-! ### Reading -/

/-- Digits with underscores among them; the first character must be a digit. Underscores may stand
together and at the end. -/
def groupedDigits? : List Char → Option (List Digit)
  | [] => none
  | c :: cs => do
    let first ← Digit.ofChar? c
    let more ← (cs.filter (· ≠ '_')).mapM Digit.ofChar?
    return first :: more

/-- An optional sign and grouped digits, as one integer. -/
def integerOfText? (cs : List Char) : Option Int := do
  let (negative, cs) := Digits.splitSign cs
  let ds ← groupedDigits? cs
  return if negative then -(Digits.value ds : Int) else Digits.value ds

/-- The mantissa without its point, and how many digits stood after the point. A point at the very
end is dropped. -/
def splitPoint (cs : List Char) : List Char × Nat :=
  match cs.span (· ≠ '.') with
  | (whole, '.' :: fraction) => (whole ++ fraction, (fraction.filter (· ≠ '_')).length)
  | (whole, _) => (whole, 0)

/-- **The decimal a text spells**: a mantissa with an optional point, and an optional exponent after
`e` or `E`. The scale is the count of digits after the point less the exponent, and has to be one
that can be stored. -/
def ofText? (cs : List Char) : Option Decimal := do
  let (base, tail) := cs.span fun c => c ≠ 'e' && c ≠ 'E'
  -- The exponent has digits only: underscores may group those of the mantissa alone.
  let exponent ← match tail with
    | [] => some 0
    | _ :: digits => Digits.signed? digits
  let (digits, places) := splitPoint base
  let scale := (places : Int) - exponent
  -- The scale is checked before the digits are read, so that no power of ten is ever computed here.
  if scaleInRange scale then
    let unscaled ← integerOfText? digits
    return ⟨unscaled, scale⟩
  else none

end Decimal
end DocStream
