import DocStream.Narrow
import DocStream.Text.Base64

/-!
# Payloads

Reading plain JSON back under a schema. Every leaf has to be what its type says; null is allowed
where the schema is optional, and a missing member of an object counts as null. Members that the
schema does not name are not looked at.

* `LeafType.ofPlain?` — a leaf of a leaf type;
* `Value.ofPlain?` — any value, by recursion on the schema.

Integers have to be spelled plainly and fit their width. Floats are rounded to double precision
first and then, for `float32`, to single precision. Decimals may be given as numbers or as texts and
are cut to the places of their schema; one without places that is an integer is kept as an integer.
-/

namespace DocStream

namespace Numeral

/-- The double-precision float nearest to a numeral, unless it overflows. A numeral that is too
small becomes zero. -/
def toFloat64? (n : Numeral) : Option Float64Bits :=
  let x : Float64Bits := .ofDecimal _ n.negative ⟨n.unscaled, n.scale⟩
  if x.isFinite then some x else none

end Numeral

/-- Largest scale of a decimal that is read, of either sign. It keeps the digits of a decimal within
bounds, whatever scale a schema declares. -/
def Decimal.maxReadScale : Nat := 1024

namespace LeafType

/-- The exact decimal that a number or a text spells. The outer option tells whether it is one of
these at all, the inner one whether it can be read. -/
def decimalText? : Json → Option (Option Decimal)
  | .num n => some (n.toDecimal? >>= Decimal.bounded?)
  | .str s => some (Decimal.ofNumberText? s)
  | _ => none

/-- A decimal under a decimal type. At scale zero an integer stays one, of any size; in all other
cases the decimal gets the scale of the type, and the digits beyond are cut off towards zero. -/
def fitDecimal (scale : Int) (d : Decimal) : Value :=
  if scale = 0 ∧ d.isIntegral then .bigint d.toInt else .decimal (d.rescale scale)

/-- **A leaf of a type**, read from JSON that is not null. Whatever the type does not take is
refused with the type and the kind of what was there. -/
def ofPlain? (t : LeafType) (j : Json) : Outcome Value :=
  let mismatch : Outcome Value := .error (.unhandled t.describe j.kind)
  let orMismatch : Option Value → Outcome Value
    | some v => .ok v
    | none => mismatch
  match t with
  | boolean => orMismatch (j.bool?.map .boolean)
  | int w => orMismatch ((j.int64?.bind (SizedInt.of? w)).map .int)
  | float32 => match j with
    | .num n => orMismatch (n.toFloat64?.map fun x => .float32 (x.convert _))
    | _ => mismatch
  | float64 => match j with
    | .num n => orMismatch (n.toFloat64?.map .float64)
    | _ => mismatch
  | string => orMismatch (j.str?.map .string)
  | bytes => orMismatch ((j.str?.bind fun s => Base64.decode? s.toList).map .bytes)
  | decimal scale =>
    match decimalText? j with
    | none => mismatch
    | some d =>
      -- The schema's scale is refused even where the number itself could not be read either.
      if Decimal.maxReadScale < scale.natAbs then
        .error (.unhandled t.describe "decimal scale")
      else orMismatch (d.map (fitDecimal scale))
  | timestamp => orMismatch ((j.int64?.bind Instant.of?).map .timestamp)

end LeafType

namespace Value

mutual

/-- **The value of plain JSON under a schema**, by recursion on the schema. Records get exactly the
fields of the schema. -/
def ofPlain? : Schema → Json → Outcome Value
  | .leaf t o, j =>
    if j.isNull then (if o then .ok .null else .error (.unhandled t.describe "null"))
    else t.ofPlain? j
  | .array e o, j =>
    match j with
    | .null => if o then .ok .null else .error (.unhandled (Schema.array e o).describe "null")
    | .arr items => .array <$> items.mapM (ofPlain? e)
    | j => .error (.unhandled (Schema.array e o).describe j.kind)
  | .struct fields o, j =>
    match j with
    | .null => if o then .ok .null else .error (.unhandled (Schema.struct fields o).describe "null")
    | .obj members => do
      let filled ← fieldsOfPlain? fields members (Record.ofFields fields o)
      return filled.toValue
    | j => .error (.unhandled (Schema.struct fields o).describe j.kind)

/-- The fields of an object, put into a record one after the other. A member is looked up by name,
and one that is missing counts as null. -/
def fieldsOfPlain? : List (String × Schema) → Members → Record → Outcome Record
  | [], _, into => .ok into
  | (name, s) :: rest, members, into => do
    let v ← ofPlain? s ((members.get? name).getD .null)
    let into ← into.put? name v
    fieldsOfPlain? rest members into

end
end Value
end DocStream
