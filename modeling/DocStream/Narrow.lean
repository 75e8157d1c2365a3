import DocStream.Json.Basic
import DocStream.Text.Blank
import DocStream.Value

/-!
# Narrowing numbers

A number given as decimal text becomes a value of the narrowest type that holds it exactly. The
ladder is `int8`, `int16`, `int32`, `int64`, an integer of any size, `float32` if some such float
has exactly the number's value, and `float64`, rounded to nearest, for all that is left.

* `Decimal.ofNumberText?` — the decimal a text spells, within the magnitudes of double precision;
* `Value.ofText?`, `Value.ofNumeral?` — narrowing a text or a JSON number;
* `Value.ofInt` — the integer rungs of the ladder;
* `Value.narrow` — narrowing every number of a value;
* `Schema.ofLeaf` — the schema of a narrowed leaf. Every leaf is optional.

A text with underscores or with a sign after its point is a decimal but no spelling of a float; it
skips the `float32` rung, and on the last rung it is widened by `Decimal.toFloat64` instead of
rounded.
-/

namespace DocStream

namespace Decimal

/-- Least order of magnitude of a number that is read; below it double precision has nothing. -/
def leastMagnitude : Int := -323

/-- Greatest order of magnitude of a number that is read; above it double precision has nothing. -/
def greatestMagnitude : Int := 309

/-- The decimal itself if double precision reaches its magnitude; any zero is plain zero. Only digit
count and scale are looked at, so near both ends there are numbers that pass and that double
precision does not reach. -/
def bounded? (d : Decimal) : Option Decimal :=
  if d.unscaled = 0 then some ⟨0, 0⟩
  else if leastMagnitude ≤ d.magnitude ∧ d.magnitude ≤ greatestMagnitude then some d
  else none

/-- **The number a text spells**, blanks at its ends aside, if it is one and not out of bounds. -/
def ofNumberText? (text : String) : Option Decimal :=
  ofText? (Blank.trim text.toList) >>= bounded?

/-- Is the text of a decimal also a spelling of a float: digits and a point only, after the sign and
before the exponent? -/
def isFloatText (text : String) : Bool :=
  let (_, digits) := Digits.splitSign (Blank.trim text.toList)
  (digits.takeWhile fun c => c ≠ 'e' && c ≠ 'E').all fun c => c = '.' || (Digit.ofChar? c).isSome

end Decimal

namespace Value

/-- **The integer rungs**: the first width that holds the integer, else an integer of any size. This
needs no rounding and never fails. -/
def ofInt (n : Int) : Value :=
  match SizedInt.of? .w8 n <|> SizedInt.of? .w16 n <|> SizedInt.of? .w32 n
    <|> SizedInt.of? .w64 n with
  | some i => int i
  | none => bigint n

/-- **The ladder** for a decimal; `isFloat` tells whether its text spells a float as well. Whether a
number is an integer depends on its value, not on how it is spelled, so `1.0` and `1e2` are
integers. -/
def ofDecimal (isFloat : Bool) (d : Decimal) : Value :=
  if d.isIntegral then ofInt d.toInt
  else if isFloat then
    let negative : Bool := d.unscaled < 0
    let x : Float32Bits := .ofDecimal _ negative d
    if x.isFinite && x.equalsDecimal d then float32 x else float64 (.ofDecimal _ negative d)
  else float64 d.toFloat64

/-- **Narrowing a text.** What is no number, or out of bounds, is refused with the text itself. -/
def ofText? (text : String) : Outcome Value :=
  match Decimal.ofNumberText? text with
  | some d => .ok (ofDecimal (Decimal.isFloatText text) d)
  | none => .error (.invalidNumber text)

/-- **Narrowing a JSON number**, from its spelling: the digits count and not a float made of them,
so no precision is lost before the ladder. -/
def ofNumeral? (n : Numeral) : Outcome Value :=
  match n.toDecimal? >>= Decimal.bounded? with
  | some d => .ok (ofDecimal true d)
  | none => .error (.invalidNumber n.text)

/-- A double-precision float as a single-precision one, if that changes nothing. A float that is an
integer stays a float, and so do infinities and what is no number. -/
def narrowFloat (x : Float64Bits) : Value :=
  let y : Float32Bits := x.convert _
  if x.isFinite && (y.convert .binary64).sameNumber x then float32 y else float64 x

mutual

/-- **Narrowing every number of a value**, inside arrays and schemaless objects. Records keep their
leaves, which are bound to a schema; numbers of any size and decimals are exact already. -/
def narrow : Value → Value
  | int n => ofInt n.val
  | float64 x => narrowFloat x
  | array items => array (narrowItems items)
  | map entries => map (narrowEntries entries)
  | v => v

def narrowItems : List Value → List Value
  | [] => []
  | v :: rest => v.narrow :: narrowItems rest

def narrowEntries : List (String × Value) → List (String × Value)
  | [] => []
  | (k, v) :: rest => (k, v.narrow) :: narrowEntries rest

end
end Value

/-- **The schema of a leaf**, always optional. An integer of any size is a decimal without places.
What is no leaf is refused, as its schema depends on its parts. -/
def Schema.ofLeaf : Value → Outcome Schema
  | .null => .ok Schema.ofNull
  | .boolean _ => .ok (.leaf .boolean true)
  | .int n => .ok (.leaf (.int n.width) true)
  | .float32 _ => .ok (.leaf .float32 true)
  | .float64 _ => .ok (.leaf .float64 true)
  | .string _ => .ok (.leaf .string true)
  | .bytes _ => .ok (.leaf .bytes true)
  | .bigint _ => .ok (.leaf (.decimal 0) true)
  | .decimal d => .ok (.leaf (.decimal d.scale) true)
  | .timestamp _ => .ok (.leaf .timestamp true)
  | v => .error (.unhandled "leaf" v.kind)

end DocStream
