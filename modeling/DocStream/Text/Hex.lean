/-!
# Hexadecimal numbers of a fixed width

The lower-case hexadecimal digits of a number, filled up with zeros at the front. Numbers below
`16 ^ width` have different texts.

* `Hex.padded` — at least `width` digits, more if the number needs them.
-/

namespace DocStream.Hex

/-- The digit of the low four bits. -/
def digit (n : Nat) : Char := Char.ofNat (if n % 16 < 10 then 48 + n % 16 else 87 + n % 16)

/-- The digits of a number in front of `tail`. -/
def prepend (n : Nat) (tail : List Char) : List Char :=
  if n < 16 then digit n :: tail else prepend (n / 16) (digit n :: tail)
termination_by n

/-- **The digits of a number, filled up to a width.** A number that needs more digits has them all.
-/
def padded (width n : Nat) : String :=
  let digits := prepend n []
  String.ofList (List.replicate (width - digits.length) '0' ++ digits)

end DocStream.Hex
