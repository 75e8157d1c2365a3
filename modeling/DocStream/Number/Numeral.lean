import DocStream.Number.Decimal

/-!
# Numerals

The numbers of JSON texts, kept as they are spelled. A numeral is valid by construction: its whole
part has no leading zero because it is a natural number, a point is followed by at least one digit
because an empty fraction stands for no point, and an exponent has a first digit. Spelling is kept
apart from value, so `1.50`, `15e-1` and `1.5` are three numerals with one value.

An exponent is always spelled with `e` and a sign; its digits are kept, leading zeros included.

* `Numeral.toChars` and `Numeral.scan` — the spelling, and reading one off a text;
* `Numeral.toDecimal?` — the exact decimal with the digits and the scale of the spelling;
* `Numeral.toInteger?` — the integer, if the spelling is a plain one.

Nothing of a spelling is lost between a text and its numeral, the minus of `-0` included; only the
mark and the sign of an exponent are brought to one form. What a number is worth is asked of the
numeral in three ways: exactly, as an integer, and as an integer of 64 bits.
-/

namespace DocStream

-- Powers of numbers are the core library's, so that they evaluate.
attribute [local instance (high)] instPowNat

/-- **The exponent of a numeral**: a sign and at least one digit. Its digits are kept with their
leading zeros, since the text of a number is written back as it came. -/
structure Exponent where
  negative : Bool
  first : Digit
  more : List Digit
deriving DecidableEq, Repr

namespace Exponent

/-- What an exponent is worth, leading zeros and the sign of a zero forgotten. -/
def toInt (e : Exponent) : Int :=
  if e.negative then -(Digits.value (e.first :: e.more) : Int) else Digits.value (e.first :: e.more)

/-- The exponent of value `n`, without leading zeros. -/
def ofInt (n : Int) : Exponent :=
  match Digits.ofNat n.natAbs with
  | [] => ⟨n < 0, 0, []⟩
  | d :: ds => ⟨n < 0, d, ds⟩

/-- Its spelling: `e`, a sign, the digits. -/
def toChars (e : Exponent) : List Char :=
  'e' :: (if e.negative then '-' else '+') :: Digits.toChars (e.first :: e.more)

end Exponent

/-- **A number as a JSON text spells it.** Two numerals are equal if they are spelled alike, which
is finer than being worth the same. -/
structure Numeral where
  negative : Bool
  /-- The digits before the point. -/
  whole : Nat
  /-- The digits after the point; none if there is no point. -/
  fraction : List Digit
  exponent : Option Exponent
deriving DecidableEq, Repr

namespace Numeral

/-- The plain spelling of an integer: its digits, with a minus in front of a negative one. -/
def ofInt (n : Int) : Numeral := ⟨n < 0, n.natAbs, [], none⟩

/-- Spelling: sign, whole part, point and fraction if there is one, exponent if there is one. -/
def toChars (n : Numeral) : List Char :=
  (if n.negative then ['-'] else []) ++ Digits.toChars (Digits.ofNat n.whole)
    ++ (if n.fraction.isEmpty then [] else '.' :: Digits.toChars n.fraction)
    ++ (match n.exponent with | none => [] | some e => e.toChars)

def text (n : Numeral) : String := String.ofList n.toChars

/-! ### Reading -/

/-- A whole part: a lone zero, or digits that do not start with one. So `007` is no number, and a
`0` ends the whole part it begins. -/
def scanWhole (cs : List Char) : Option (Nat × List Char) :=
  match Digits.span cs with
  | ([], _) => none
  | ([d], rest) => some (d.val, rest)
  | (d :: ds, rest) => if d = 0 then none else some (Digits.value (d :: ds), rest)

/-- A point with the digits after it, or nothing. A point without a digit after it is refused, it is
not left to what follows. -/
def scanFraction : List Char → Option (List Digit × List Char)
  | '.' :: cs =>
    match Digits.span cs with
    | ([], _) => none
    | (ds, rest) => some (ds, rest)
  | cs => some ([], cs)

/-- The digits of an exponent, after its sign. -/
def scanExponentDigits (negative : Bool) (cs : List Char) : Option (Option Exponent × List Char) :=
  match Digits.span cs with
  | ([], _) => none
  | (d :: ds, rest) => some (some ⟨negative, d, ds⟩, rest)

/-- An exponent after `e` or `E`, or nothing. A missing sign stands for a plus. -/
def scanExponent : List Char → Option (Option Exponent × List Char)
  | c :: cs =>
    if c = 'e' ∨ c = 'E' then
      match cs with
      | '+' :: ds => scanExponentDigits false ds
      | '-' :: ds => scanExponentDigits true ds
      | ds => scanExponentDigits false ds
    else some (none, c :: cs)
  | [] => some (none, [])

/-- **Reading a numeral** off the front of a text, as far as it goes. A minus is kept in front of a
zero too, so `-0` is read and spelled as itself. -/
def scan (cs : List Char) : Option (Numeral × List Char) := do
  let (negative, cs) := match cs with
    | '-' :: rest => (true, rest)
    | cs => (false, cs)
  let (whole, cs) ← scanWhole cs
  let (fraction, cs) ← scanFraction cs
  let (exponent, cs) ← scanExponent cs
  return (⟨negative, whole, fraction, exponent⟩, cs)

/-! ### Value -/

/-- All digits with their sign, as one integer. -/
def unscaled (n : Numeral) : Int :=
  let digits := Digits.valueFrom n.whole n.fraction
  if n.negative then -(digits : Int) else digits

/-- The value of the exponent, zero if there is none. -/
def exponentValue (n : Numeral) : Int := (n.exponent.map Exponent.toInt).getD 0

/-- How many places the digits are to be shifted: the digits after the point less the exponent. -/
def scale (n : Numeral) : Int := n.fraction.length - n.exponentValue

/-- **The exact decimal** of the digits as written, if its scale can be stored. The scale is bounded
because decimals keep it in 64 bits, and an exponent can spell more. -/
def toDecimal? (n : Numeral) : Option Decimal :=
  if Decimal.scaleInRange n.scale then some ⟨n.unscaled, n.scale⟩ else none

/-- The integer that a plain spelling denotes: no point and no exponent. `1e2` and `1.0` are
integers in value but not in spelling, and have none. -/
def toInteger? (n : Numeral) : Option Int :=
  if n.fraction.isEmpty && n.exponent.isNone then some n.unscaled else none

/-- The integer of a plain spelling, if 64 signed bits hold it. -/
def toInt64? (n : Numeral) : Option Int :=
  n.toInteger?.filter (fitsSigned 64)

end Numeral

/-! ### The spelling of a decimal -/

namespace Decimal

/-- Up to this many zeros may follow the point before the first digit that counts. -/
def maxLeadingZeros : Nat := 5

/-- Up to this many zeros may be appended to the digits. -/
def maxAppendedZeros : Nat := 15

/-- **The spelling of a decimal.** Zero is `0`. A decimal is written positionally with exactly its
digits, unless the zeros needed after the point or at the end are too many: then a small one is
written as one digit, the others after the point, and an exponent; a large one as its digits and
the exponent. -/
def toNumeral (d : Decimal) : Numeral :=
  let negative : Bool := d.unscaled < 0
  let n := d.unscaled.natAbs
  let digits := Digits.ofNat n
  if n = 0 then ⟨false, 0, [], none⟩
  -- Too many zeros to append: the digits and an exponent.
  else if d.scale < -maxAppendedZeros then ⟨negative, n, [], some (.ofInt (-d.scale))⟩
  else if d.scale ≤ 0 then ⟨negative, n * 10 ^ (-d.scale).toNat, [], none⟩
  -- The point falls among the digits.
  else if d.scale < digits.length then
    let places := d.scale.toNat
    ⟨negative, n / 10 ^ places, digits.drop (digits.length - places), none⟩
  -- The point falls in front of the digits.
  else if d.scale ≤ digits.length + maxLeadingZeros then
    ⟨negative, 0, List.replicate (d.scale.toNat - digits.length) .zero ++ digits, none⟩
  -- Too many zeros after the point: one digit in front of it, and an exponent.
  else
    ⟨negative, n / 10 ^ (digits.length - 1), digits.drop 1,
      some (.ofInt (digits.length - 1 - d.scale))⟩

end Decimal
end DocStream
