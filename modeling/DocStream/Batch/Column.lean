import DocStream.Batch.ColumnType
import DocStream.Value

/-!
# Columns

A column holds the values of one field for all rows of a batch, laid out flat: a list column is one
column with all items of all rows and the extent of each row in it, a struct column is one column
per field and a mark for each row that has a struct at all.

* `Column.build?` — the column of some values under a schema. Each value has to be what the schema
  says or, in numbers, narrower; a null needs an optional schema, while a slot without any value, as
  below a null struct, is a null in any case;
* `Column.cells` — the column read back row by row.

A decimal column holds integers, in units of the last place; a value with more places is cut off
towards zero, and one that does not fit 128 bits is refused.
-/

namespace DocStream

/-- A scalar as a column stores it. What a number means is left to the type of the column. -/
inductive Scalar where
  | boolean (b : Bool)
  /-- An integer, the units of a decimal, or the milliseconds of an instant. -/
  | integer (n : Int)
  | float32 (x : Float32Bits)
  | float64 (x : Float64Bits)
  | text (s : String)
  | bytes (bs : List UInt8)

/-- **A column**, laid out flat. A list column keeps the items of all its rows in one column and
cuts them apart by their numbers; a struct column keeps the rows of a field together, including
those where there is no struct. -/
inductive Column where
  /-- Scalars; a row without one is null. -/
  | scalars (rows : List (Option Scalar))
  /-- Lists: for each row how many items are its own, in the column of all items. -/
  | lists (extents : List (Option Nat)) (items : Column)
  /-- Structs: for each row whether it has one, and a column for every field. -/
  | structs (present : List Bool) (children : List (String × Column))

/-- What a row of a column shows, with lists and structs put together again. -/
inductive Cell where
  | null
  | scalar (s : Scalar)
  | list (items : List Cell)
  | struct (fields : List (String × Cell))
deriving Inhabited

namespace Column

/-- The rows of a column: has each a value of its own? A struct that is there counts as a value even
if all its fields are null. -/
def validity : Column → List Bool
  | scalars rows => rows.map Option.isSome
  | lists extents _ => extents.map Option.isSome
  | structs present _ => present

/-- How many rows of its own are null. -/
def nullCount (c : Column) : Nat := c.validity.countP (!·)

/-! ### Building -/

/-- The units of a number at a scale, if 128 bits hold them. Places beyond the scale are cut off
towards zero, so units may stand for another number; how many digits they have is not asked. -/
def decimalUnits? (scale : Int) (v : Value) : Option Int :=
  let decimal? := match v with
    | .decimal d => some d
    | .bigint n => some (Decimal.ofInt n)
    | .int n => some (Decimal.ofInt n.val)
    | _ => none
  (decimal?.map fun d => (d.rescale scale).unscaled).filter (fitsSigned 128)

/-- **The scalar of a value** under a leaf type, if it fits. Narrower integers fit wider types,
single precision fits double, and any number that is not a float fits a decimal; nothing else
changes its kind. -/
def scalar? : LeafType → Value → Option Scalar
  | .boolean, .boolean b => some (.boolean b)
  | .int w, .int n => if n.width.bits ≤ w.bits then some (.integer n.val) else none
  | .float32, .float32 x => some (.float32 x)
  | .float64, .float32 x => some (.float64 (x.convert _))
  | .float64, .float64 x => some (.float64 x)
  | .string, .string s => some (.text s)
  | .bytes, .bytes bs => some (.bytes bs)
  | .decimal scale, v => (decimalUnits? scale v).map .integer
  | .timestamp, .timestamp t => some (.integer t.millis)
  | _, _ => none

/-- A slot of a column under a schema, where `take?` tells what a value becomes. No value is no
value; a null needs an optional schema; any other value has to be taken, and is refused by its kind
if it is not. -/
def slot? {α : Type} (s : Schema) (take? : Value → Option α) : Option Value → Outcome (Option α)
  | none => .ok none
  | some .null => if s.isOptional then .ok none else .error (.unhandled s.describe "null")
  | some v =>
    match take? v with
    | some a => .ok (some a)
    | none => .error (.unhandled s.describe v.kind)

/-- Largest number of items in a list column: offsets into the items have 32 bits and a sign. -/
def maxItems : Nat := greatestSigned 32

/-- The lists of the rows, given how many items stand before them. The items of all rows together
have to be counted by an offset, so a row can fail for the rows before it. -/
def takeLists? (s : Schema) : (before : Nat) → List (Option Value) →
    Outcome (List (Option (List Value)))
  | _, [] => .ok []
  | before, v :: rest => do
    let row ← slot? s Value.items? v
    let before := before + (row.getD []).length
    if maxItems < before then .error (.output "Array too large for i32 offset")
    else do
      let rows ← takeLists? s before rest
      return row :: rows

/-- The record of a value, if it is one. Its fields need not be those of the schema: they are taken
by name. -/
def record? : Value → Option Record
  | .record slots optional => some ⟨slots, optional⟩
  | _ => none

def maxScale : Int := 38

/-- Does every null of a child lie under a null of its parent? This is what a required field of a
struct asks for: where there is a struct, the field has a value. -/
def maskedBy (present : List Bool) (child : Column) : Bool :=
  (present.zip child.validity).all fun (parent, own) => !parent || own

/-- A struct column, whose required fields must have values wherever it has a struct. A null below a
null struct does no harm. -/
def ofChildren? (present : List Bool) (children : List (Field × Column)) : Outcome Column :=
  if children.all fun ((_, s), c) => s.isOptional || maskedBy present c then
    .ok (structs present (children.map fun ((name, _), c) => (name, c)))
  else .error (.columnLayout "null in a required field")

mutual

/-- **The column of some values under a schema**, by recursion on the schema. The rows are looked at
first, then the parts are built for all rows together, and only then is it checked that required
parts have values. -/
def build? : Schema → List (Option Value) → Outcome Column
  | .leaf t o, values => do
    let rows ← values.mapM (slot? (.leaf t o) (scalar? t))
    match t with
    | .decimal scale =>
      if maxScale < scale then .error (.columnLayout "scale greater than precision")
      else .ok (scalars rows)
    | _ => .ok (scalars rows)
  | .array e o, values => do
    let rows ← takeLists? (.array e o) 0 values
    -- A null row takes no items; every item has a value, if only a null.
    let items ← build? e ((rows.flatMap (·.getD [])).map some)
    if !e.isOptional && items.nullCount ≠ 0 then .error (.columnLayout "null among required items")
    else .ok (lists (rows.map (·.map List.length)) items)
  | .struct fields o, values => do
    let rows ← values.mapM (slot? (.struct fields o) record?)
    let children ← buildFields? fields rows
    ofChildren? (rows.map Option.isSome) children

/-- The columns of the fields of some records, in the order of the schema. A record is asked for
each field by name, so further fields of it are passed over. -/
def buildFields? : List (String × Schema) → List (Option Record) → Outcome (List (Field × Column))
  | [], _ => .ok []
  | (name, s) :: rest, rows => do
    -- Below a null struct, and where a record lacks the field, there is no value at all.
    let column ← build? s (rows.map fun row => row.bind fun r => r.get? name)
    let more ← buildFields? rest rows
    return ((name, s), column) :: more

end

/-! ### Reading -/

/-- The cells of list rows, cut from the cells of all items: each row takes as many as its extent
says. -/
def listCells : List (Option Nat) → List Cell → List Cell
  | [], _ => []
  | none :: rest, items => .null :: listCells rest items
  | some n :: rest, items => .list (items.take n) :: listCells rest (items.drop n)

/-- The cells of struct rows, put together from the cells of every field. A row without a struct
still uses up one cell of each field. -/
def structCells : List Bool → List (String × List Cell) → List Cell
  | [], _ => []
  | present :: rest, fields =>
    let row : Cell :=
      if present then .struct (fields.map fun (name, cells) => (name, cells.headD .null)) else .null
    row :: structCells rest (fields.map fun (name, cells) => (name, cells.tail))

mutual

/-- **The rows of a column**, which is what a reader of the batch sees. -/
def cells : Column → List Cell
  | scalars rows => rows.map fun
    | some s => .scalar s
    | none => .null
  | lists extents items => listCells extents items.cells
  | structs present children => structCells present (childCells children)

def childCells : List (String × Column) → List (String × List Cell)
  | [] => []
  | (name, c) :: rest => (name, c.cells) :: childCells rest

end
end Column
end DocStream
