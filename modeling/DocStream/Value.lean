import DocStream.Error
import DocStream.Number.Widening
import DocStream.Schema

/-!
# Values

The values that records carry. Integers, instants and records are valid by construction: an integer
comes with its width and fits it, an instant lies in the range of the calendar, and a record has one
slot for every field of its schema because the slots *are* the fields, each with its value.

* `Value.kind` — the word for a value's kind, as failures use it;
* `Record.blank?`, `Record.put?`, `Record.get?` — records by field name;
* `Value.toFloat64?` — a number widened to double precision;
* `Value.same` — equality as values compare: floats by number, decimals by value.

Schemaless objects are `Value.map`s, which keep the order of insertion.
-/

namespace DocStream

/-- **A machine integer**: a width and an integer it holds. Equal integers of different widths are
different values. -/
structure SizedInt where
  width : IntWidth
  val : Int
  inRange : width.Holds val
deriving DecidableEq

namespace SizedInt

/-- The integer `n` at a width, if it fits. -/
def of? (width : IntWidth) (n : Int) : Option SizedInt :=
  if h : width.Holds n then some ⟨width, n, h⟩ else none

end SizedInt

/-- The first instant of the calendar, in milliseconds since 1970. -/
def Instant.first : Int := -8334601228800000

/-- The last instant of the calendar, in milliseconds since 1970. -/
def Instant.last : Int := 8210266876799999

/-- **An instant**: milliseconds since 1970, within the range of the calendar. -/
structure Instant where
  /-- Milliseconds since 1970. -/
  millis : Int
  inRange : Instant.first ≤ millis ∧ millis ≤ Instant.last
deriving DecidableEq

/-- The instant so many milliseconds after 1970, if the calendar has it. -/
def Instant.of? (millis : Int) : Option Instant :=
  if h : Instant.first ≤ millis ∧ millis ≤ Instant.last then some ⟨millis, h⟩ else none

/-- **A value.** Containers come in three kinds: arrays, objects without a schema, and records,
which carry the schema of each of their fields with them. -/
inductive Value where
  | null
  | boolean (b : Bool)
  | int (n : SizedInt)
  | float32 (x : Float32Bits)
  | float64 (x : Float64Bits)
  | string (s : String)
  | bytes (bs : List UInt8)
  /-- An integer of any size. -/
  | bigint (n : Int)
  | decimal (d : Decimal)
  | timestamp (t : Instant)
  | array (items : List Value)
  /-- A schemaless object, in order of insertion. -/
  | map (entries : List (String × Value))
  /-- A record: the fields of its schema, each with its value, and whether the schema is optional.
  -/
  | record (slots : List ((String × Schema) × Value)) (optional : Bool)
deriving Inhabited

/-- A field of a record with its value. -/
abbrev Slot := (String × Schema) × Value

namespace Value

/-- The word for a value's kind. A schemaless object and a record have different words, although
both become objects. -/
def kind : Value → String
  | null => "null"
  | boolean _ => "boolean"
  | int n => n.width.name
  | float32 _ => "float32"
  | float64 _ => "float64"
  | string _ => "string"
  | bytes _ => "bytes"
  | bigint _ => "bigint"
  | decimal _ => "decimal"
  | timestamp _ => "timestamp"
  | array _ => "array"
  | map _ => "map"
  | record .. => "struct"

def isNull : Value → Bool
  | null => true
  | _ => false

/-- **Widening** of a number to double precision: integers round to nearest, decimals go by
`Decimal.toFloat64`. -/
def toFloat64? : Value → Option Float64Bits
  | int n => some (.ofInt _ n.val)
  | float32 x => some (x.convert _)
  | float64 x => some x
  | bigint n => some (.ofInt _ n)
  | decimal d => some d.toFloat64
  | _ => none

def string? : Value → Option String
  | string s => some s
  | _ => none

def items? : Value → Option (List Value)
  | array items => some items
  | _ => none

/-- A schemaless object from pairs: a repeated name keeps its place and takes the later value. Names
are in the order in which they came first. -/
def mapOfPairs (pairs : List (String × Value)) : Value :=
  .map (pairs.foldl (fun entries (k, v) => set entries k v) [])
where
  /-- A name set among entries. -/
  set : List (String × Value) → String → Value → List (String × Value)
    | [], k, v => [(k, v)]
    | (l, w) :: rest, k, v => if l = k then (l, v) :: rest else (l, w) :: set rest k v

end Value

/-! ### Records -/

/-- A record by itself: its slots, and whether its schema is optional. There is nothing to check
between a record and its schema, since the schema is read off the slots. -/
structure Record where
  slots : List Slot
  optional : Bool

namespace Record

def schema (r : Record) : Schema := .struct (r.slots.map Prod.fst) r.optional

def toValue (r : Record) : Value := .record r.slots r.optional

/-- The record with every field null. -/
def ofFields (fields : List Field) (optional : Bool) : Record :=
  ⟨fields.map fun f => (f, .null), optional⟩

/-- **The record of some slots**, sorted by name as the fields of a schema are. Slots of one name
are kept in their order. -/
def ofSlots (slots : List Slot) (optional : Bool) : Record :=
  ⟨NameOrder.sort (·.1.1) slots, optional⟩

/-- **The blank record** of a struct schema: every field null, also where null is not allowed. What
is not set later stays null. -/
def blank? : Schema → Outcome Record
  | .struct fields optional => .ok (ofFields fields optional)
  | s => .error (.unhandled "struct" s.describe)

/-- The slot of a name set to a value; of several the first. None if there is no such slot. -/
def setSlot? (name : String) (v : Value) : List Slot → Option (List Slot)
  | [] => none
  | (f, w) :: rest =>
    if f.1 = name then some ((f, v) :: rest) else (setSlot? name v rest).map ((f, w) :: ·)

/-- **Setting a field.** It has to be one of the schema's; whether the value fits the field's schema
is not asked. -/
def put? (r : Record) (name : String) (v : Value) : Outcome Record :=
  match setSlot? name v r.slots with
  | some slots => .ok { r with slots }
  | none => .error (.unhandled r.schema.describe s!"field '{name}'")

/-- The value of a field, by name; of several the first. None if the record has no such field, which
is not the same as one that is null. -/
def get? (r : Record) (name : String) : Option Value :=
  (r.slots.find? fun slot => slot.1.1 == name).map Prod.snd

/-- The values in the order of the fields. -/
def values (r : Record) : List Value := r.slots.map Prod.snd

/-- The record of nulls has the schema that it was made from. -/
@[simp] theorem schema_ofFields (fields : List Field) (optional : Bool) :
    (ofFields fields optional).schema = .struct fields optional := by
  simp [ofFields, schema, Function.comp_def]

/-- The schema of sorted slots has the sorted fields. -/
theorem schema_ofSlots (slots : List Slot) (optional : Bool) :
    (ofSlots slots optional).schema = Schema.ofFields (slots.map Prod.fst) optional := by
  simp [ofSlots, schema, Schema.ofFields,
    NameOrder.map_sort (fun s : Slot => s.1.1) Prod.fst Prod.fst fun _ => rfl]

theorem fields_setSlot? {name : String} {v : Value} {slots slots' : List Slot}
    (h : setSlot? name v slots = some slots') : slots'.map Prod.fst = slots.map Prod.fst := by
  induction slots generalizing slots' with
  | nil => simp [setSlot?] at h
  | cons slot rest ih =>
    obtain ⟨f, w⟩ := slot
    by_cases hf : f.1 = name
    · simp only [setSlot?, hf, if_true, Option.some.injEq] at h
      simp [← h]
    · simp only [setSlot?, hf, if_false, Option.map_eq_some_iff] at h
      obtain ⟨more, hm, rfl⟩ := h
      simp [ih hm]

end Record

/-! ### Equality of values -/

namespace Value

mutual

/-- **Equality as values compare.** Floats compare as numbers, so a NaN differs from itself and the
two zeros are equal; decimals compare by value; entries of a map compare in any order of names; all
else compares as data. -/
def same : Value → Value → Bool
  | null, null => true
  | boolean a, boolean b => a == b
  | int a, int b => a == b
  | float32 a, float32 b => a.sameNumber b
  | float64 a, float64 b => a.sameNumber b
  | string a, string b => a == b
  | bytes a, bytes b => a == b
  | bigint a, bigint b => a == b
  | decimal a, decimal b => a.sameValue b
  | timestamp a, timestamp b => a == b
  | array as, array bs => sameItems as bs
  | map as, map bs => as.length == bs.length && sameEntries as bs
  | record as o, record bs p => o == p && sameSlots as bs
  | _, _ => false

/-- Items compare in order, and there have to be as many. -/
def sameItems : List Value → List Value → Bool
  | [], [] => true
  | a :: as, b :: bs => a.same b && sameItems as bs
  | _, _ => false

/-- Every entry has an equal one of its name. -/
def sameEntries : List (String × Value) → List (String × Value) → Bool
  | [], _ => true
  | (k, a) :: as, bs => (match bs.lookup k with | some b => a.same b | none => false)
      && sameEntries as bs

def sameSlots : List ((String × Schema) × Value) → List ((String × Schema) × Value) → Bool
  | [], [] => true
  | (f, a) :: as, (g, b) :: bs => f == g && a.same b && sameSlots as bs
  | _, _ => false

end
end Value
end DocStream
