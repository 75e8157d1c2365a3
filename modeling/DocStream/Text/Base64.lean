/-!
# Base 64

Byte strings as text in the standard alphabet, with padding. Reading is strict: the padding has to
be there, nothing else may stand in the text, and the bits that padding leaves over have to be zero.
So a byte string has one text.

* `Base64.encode` — three bytes at a time, four characters each;
* `Base64.decode?` — the inverse, none for any other text.
-/

namespace DocStream.Base64

/-- The character of six bits. -/
def charOf (n : Nat) : Char :=
  if n < 26 then Char.ofNat (65 + n)
  else if n < 52 then Char.ofNat (71 + n)
  else if n < 62 then Char.ofNat (n - 4)
  else if n = 62 then '+' else '/'

/-- The six bits of a character of the alphabet. -/
def bitsOf? (c : Char) : Option Nat :=
  let n := c.toNat
  if 65 ≤ n ∧ n < 91 then some (n - 65)
  else if 97 ≤ n ∧ n < 123 then some (n - 71)
  else if 48 ≤ n ∧ n < 58 then some (n + 4)
  else if c = '+' then some 62
  else if c = '/' then some 63
  else none

/-- **The text of a byte string.** What is left of the bytes at the end gets padding, so that the
length is a multiple of four. -/
def encode : List UInt8 → List Char
  | [] => []
  | [a] =>
    let a := a.toNat
    [charOf (a / 4), charOf (a % 4 * 16), '=', '=']
  | [a, b] =>
    let a := a.toNat
    let b := b.toNat
    [charOf (a / 4), charOf (a % 4 * 16 + b / 16), charOf (b % 16 * 4), '=']
  | a :: b :: c :: rest =>
    let a := a.toNat
    let b := b.toNat
    let c := c.toNat
    charOf (a / 4) :: charOf (a % 4 * 16 + b / 16) :: charOf (b % 16 * 4 + c / 64)
      :: charOf (c % 64) :: encode rest

/-- **The byte string of a text**, none if the text is no encoding. The bits that padding leaves
over are checked, so that no two texts stand for one byte string. -/
def decode? : List Char → Option (List UInt8)
  | [] => some []
  | [w, x, '=', '='] => do
    let w ← bitsOf? w
    let x ← bitsOf? x
    if x % 16 = 0 then some [UInt8.ofNat (w * 4 + x / 16)] else none
  | [w, x, y, '='] => do
    let w ← bitsOf? w
    let x ← bitsOf? x
    let y ← bitsOf? y
    if y % 4 = 0 then
      some [UInt8.ofNat (w * 4 + x / 16), UInt8.ofNat (x % 16 * 16 + y / 4)]
    else none
  | w :: x :: y :: z :: rest => do
    let w ← bitsOf? w
    let x ← bitsOf? x
    let y ← bitsOf? y
    let z ← bitsOf? z
    let more ← decode? rest
    return UInt8.ofNat (w * 4 + x / 16) :: UInt8.ofNat (x % 16 * 16 + y / 4)
      :: UInt8.ofNat (y % 4 * 64 + z) :: more
  | _ => none

end DocStream.Base64
