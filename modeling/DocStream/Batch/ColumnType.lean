import DocStream.Error
import DocStream.Schema

/-!
# Column types

The types of the columns that hold a batch of records, and the type that each schema gets. Names of
list items and the time zone are the same everywhere, so types do not carry them.

* `ColumnType.ofSchema?` — the type of a schema; a decimal's scale has to fit eight bits;
* `Schema.columnFields?` — the columns of a root struct.
-/

namespace DocStream

/-- **The type of a column**: what its rows hold, with the names and types of all parts. -/
inductive ColumnType where
  | boolean
  | int (width : IntWidth)
  | float32
  | float64
  | utf8
  | binary
  /-- Decimals of 38 digits with a scale. -/
  | decimal128 (scale : Int)
  /-- Milliseconds since 1970. -/
  | timestamp
  /-- Lists; the flag tells whether items may be null. -/
  | list (item : ColumnType) (nullable : Bool)
  /-- Structs: each field with its name, its type and whether it may be null. -/
  | struct (fields : List (String × ColumnType × Bool))
deriving Inhabited

/-- A named column: its name, its type and whether it may be null. -/
abbrev ColumnField := String × ColumnType × Bool

namespace ColumnType

/-- Digits of a decimal column: as many as 128 bits always hold. -/
def decimalPrecision : Nat := 38

def itemName : String := "item"

def timeZone : String := "UTC"

/-- The column type of a leaf type. Only decimals can fail: a schema may declare any scale, and a
column keeps it in eight bits. -/
def ofLeaf? : LeafType → Outcome ColumnType
  | .boolean => .ok boolean
  | .int w => .ok (int w)
  | .float32 => .ok float32
  | .float64 => .ok float64
  | .string => .ok utf8
  | .bytes => .ok binary
  | .decimal scale =>
    if -128 ≤ scale ∧ scale ≤ 127 then .ok (decimal128 scale)
    else .error (.output s!"Decimal scale {scale} does not fit decimal128")
  | .timestamp => .ok timestamp

mutual

/-- **The column type of a schema.** Items and fields may be null where their schemas are optional;
whether the schema itself is optional is for whoever holds it. -/
def ofSchema? : Schema → Outcome ColumnType
  | .leaf t _ => ofLeaf? t
  | .array e _ => do return list (← ofSchema? e) e.isOptional
  | .struct fields _ => struct <$> ofFields? fields

/-- The column types of the fields of a struct, in order. -/
def ofFields? : List (String × Schema) → Outcome (List (String × ColumnType × Bool))
  | [] => .ok []
  | (name, s) :: rest => do
    let t ← ofSchema? s
    let more ← ofFields? rest
    return (name, t, s.isOptional) :: more

end
end ColumnType

/-- **The columns of a batch** of records of a schema, which has to be a struct. Any other schema is
refused as the root of a document. -/
def Schema.columnFields? : Schema → Outcome (List ColumnField)
  | .struct fields _ => ColumnType.ofFields? fields
  | s => .error (.unsupportedRoot s.describe)

end DocStream
