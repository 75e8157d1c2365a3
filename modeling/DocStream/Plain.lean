import DocStream.Json.Basic
import DocStream.Number.Shortest
import DocStream.Text.Base64
import DocStream.Value

/-!
# Plain JSON

Values written as plain JSON, as documents hold it. A value may be checked against a schema on the
way: then every leaf has to fit its leaf type, arrays and records have to meet array and struct
schemas, and a record is written with exactly the fields of the schema it meets, null for those it
lacks. Null fits everywhere.

* `LeafType.accepts` — the leaves that fit a leaf type: narrow numbers fit wider ones;
* `Value.toPlain?` — any value;
* `Value.toDocument?` — a value that is to become a document, hence an object.

Numbers keep all their digits: floats are written shortest, decimals and integers exactly. A float
that is no number is written as null.
-/

namespace DocStream

/-- **Does a leaf fit a leaf type?** Integers fit wider ones and decimals, single precision fits
double. -/
def LeafType.accepts : LeafType → Value → Bool
  | .boolean, .boolean _ => true
  | .int w, .int n => n.width.bits ≤ w.bits
  | .float32, .float32 _ => true
  | .float64, .float32 _ | .float64, .float64 _ => true
  | .string, .string _ => true
  | .bytes, .bytes _ => true
  | .decimal _, .decimal _ | .decimal _, .bigint _ | .decimal _, .int _ => true
  | .timestamp, .timestamp _ => true
  | _, _ => false

/-- Does a leaf fit a schema? Only a leaf schema has leaves. -/
def Schema.acceptsLeaf : Schema → Value → Bool
  | .leaf t _, v => t.accepts v
  | _, _ => false

namespace Value

/-- A float as JSON: its shortest spelling, or null if it is no number. The spelling is the shortest
at its own precision, which as a double may be another number. -/
def floatPlain {fmt : Format} (x : Binary fmt) : Json :=
  if x.isFinite then .num x.toNumeral else .null

/-- **A leaf as JSON.** Bytes are written in base 64, instants as milliseconds, and numbers of any
size with all their digits. -/
def leafPlain? : Value → Outcome Json
  | null => .ok .null
  | boolean b => .ok (.bool b)
  | int n => .ok (.ofInt n.val)
  | float32 x => .ok (floatPlain x)
  | float64 x => .ok (floatPlain x)
  | string s => .ok (.str s)
  | bytes bs => .ok (.str (String.ofList (Base64.encode bs)))
  | bigint n => .ok (.ofInt n)
  | decimal d => .ok (.num d.toNumeral)
  | timestamp t => .ok (.ofInt t.millis)
  | v => .error (.unhandled "leaf" v.kind)

mutual

/-- **A value as plain JSON**, checked against a schema if one is given. A record brings a schema of
its own; a schemaless object does not meet any. -/
def toPlain? (schema : Option Schema) : Value → Outcome Json
  | null => .ok .null
  | record slots optional =>
    match schema.getD (.struct (slots.map Prod.fst) optional) with
    | .struct fields _ => do
      let members ← fields.mapM fun f => do
        let j ← slotPlain? f.1 f.2 slots
        return (f.1, j)
      return .obj (Members.ofList members)
    | s => .error (.unhandled s.describe "struct")
  | array items =>
    match schema with
    | none => .arr <$> itemsPlain? none items
    | some (.array element _) => .arr <$> itemsPlain? (some element) items
    | some s => .error (.unhandled s.describe "array")
  | map entries =>
    match schema with
    | none => do return .obj (Members.ofList (← entriesPlain? entries))
    | some s => .error (.unhandled s.describe "map")
  | leaf =>
    match schema with
    | none => leaf.leafPlain?
    | some s =>
      if s.acceptsLeaf leaf then leaf.leafPlain? else .error (.unhandled s.describe leaf.kind)

def itemsPlain? (element : Option Schema) : List Value → Outcome (List Json)
  | [] => .ok []
  | v :: rest => do
    let j ← toPlain? element v
    let js ← itemsPlain? element rest
    return j :: js

def entriesPlain? : List (String × Value) → Outcome (List (String × Json))
  | [] => .ok []
  | (k, v) :: rest => do
    let j ← toPlain? none v
    let js ← entriesPlain? rest
    return (k, j) :: js

/-- The field of a name as plain JSON, checked against its schema; null if there is no such field.
-/
def slotPlain? (name : String) (schema : Schema) : List ((String × Schema) × Value) → Outcome Json
  | [] => .ok .null
  | ((k, _), v) :: rest =>
    if k = name then toPlain? (some schema) v else slotPlain? name schema rest

end

/-- The fields of a struct schema, filled from slots, as the members of an object. Slots without a
field are passed over. -/
def recordPlain? (fields : List Field) (slots : List Slot) : Outcome Members := do
  let members ← fields.mapM fun f => do
    let j ← slotPlain? f.1 f.2 slots
    return (f.1, j)
  return .ofList members

/-- **The document that a value becomes.** Records become the object of their schema, schemaless
objects become objects; nothing else is a document, null included. -/
def toDocument? (v : Value) (schema : Option Schema) : Outcome Members :=
  match v, schema with
  | map entries, none => Members.ofList <$> entriesPlain? entries
  | record slots optional, schema =>
    match schema.getD (.struct (slots.map Prod.fst) optional) with
    | .struct fields _ => recordPlain? fields slots
    | s => .error (.unsupportedRoot s.describe)
  | map _, some s => .error (.unhandled s.describe "map")
  | v, _ => .error (.unsupportedRoot v.kind)

end Value
end DocStream
