import DocStream.Convert.Flat
import DocStream.Convert.Settings
import DocStream.Merge
import DocStream.Narrow

/-!
# Converting documents

A JSON document becomes a value in one of three ways.

* `Json.nest` — objects become structs, arrays become arrays whose items share one schema. Items
  whose schemas differ are brought together by merging, if all are structs (`reconcile`).
* `Json.flattenInto` — every leaf becomes a field named by its path.
* `Json.schemaless` — objects stay objects, without a schema.

In all three numbers are narrowed and every leaf schema is optional; a container is entered only
while fewer than `maxDepth` are open. Below the root every schema is optional; a container at the
root is not.

`ConversionSettings.convert` picks the way that the settings ask for.
-/

namespace DocStream

/-- A place in a document: object keys and array indices, from the root. Indices are written as
decimal numbers. -/
abbrev Path := List String

namespace Path

/-- The path with points between its parts. A key may hold a point itself, so two places can have
one dotted path. -/
def dotted (p : Path) : String := ".".intercalate p

/-- The path for a failure. The root has no parts, so it is given a word of its own. -/
def location (p : Path) : String := if p.isEmpty then "<root>" else p.dotted

end Path

namespace Json

/-- A value together with the schema of a leaf, which is optional and of the narrowest type that the
value has. -/
def typedLeaf (v : Value) : Outcome (Schema × Value) := do
  let schema ← Schema.ofLeaf v
  return (schema, v)

/-- **One element schema for an array.** An empty array gets the schema of null, and equal schemas
are shared. Different struct schemas are merged, and the items rebuilt under the merge; anything
else is a failure at the array's path, which lists the schemas in the order in which they were met.
-/
def reconcile (path : Path) (items : List (Schema × Value)) : Outcome (Schema × List Value) :=
  let values := items.map Prod.snd
  match Schema.distinct (items.map Prod.fst) with
  | [] => .ok (Schema.ofNull, values)
  | [only] => .ok (only, values)
  | schemas =>
    if schemas.all Schema.isStruct then do
      let merged ← Schema.merge schemas path.dotted
      let values ← values.mapM (Value.conformTo merged)
      return (merged, values)
    else .error (.mixedArray path.location (Schema.describeAll schemas))

/-! ### Nested -/

mutual

/-- **The schema and the value of a document**, nested like it. `depth` containers are open around
it, and the path leads to it. Containers at the root are required, all else is optional. -/
def nest (maxDepth depth : Nat) (path : Path) : Json → Outcome (Schema × Value)
  | null => .ok (Schema.ofNull, .null)
  | bool b => typedLeaf (.boolean b)
  | num n => Value.ofNumeral? n >>= typedLeaf
  | str s => typedLeaf (.string s)
  | arr items =>
    if maxDepth ≤ depth then .error (.depthExceeded maxDepth)
    else do
      let items ← nestItems maxDepth (depth + 1) path 0 items
      let (element, values) ← reconcile path items
      return (.array element (depth ≠ 0), .array values)
  | obj members =>
    if maxDepth ≤ depth then .error (.depthExceeded maxDepth)
    else do
      let slots ← nestMembers maxDepth (depth + 1) path members
      let record := Record.ofSlots slots (depth ≠ 0)
      return (record.schema, record.toValue)

/-- The items of an array from the given index on, each under its index. -/
def nestItems (maxDepth depth : Nat) (path : Path) (index : Nat) :
    List Json → Outcome (List (Schema × Value))
  | [] => .ok []
  | item :: rest => do
    let head ← nest maxDepth depth (path ++ [toString index]) item
    let tail ← nestItems maxDepth depth path (index + 1) rest
    return head :: tail

def nestMembers (maxDepth depth : Nat) (path : Path) :
    List (String × Json) → Outcome (List ((String × Schema) × Value))
  | [] => .ok []
  | (name, item) :: rest => do
    let (schema, value) ← nest maxDepth depth (path ++ [name]) item
    let tail ← nestMembers maxDepth depth path rest
    return ((name, schema), value) :: tail

end

/-! ### Flattened -/

/-- A leaf emitted under its path. It fails if a leaf was emitted under that path before. -/
def emit (path : Path) (into : FlatRecord) (leaf : Schema × Value) : Outcome FlatRecord :=
  into.insert? ⟨path.dotted, leaf.1, leaf.2⟩

mutual

/-- **The leaves of a document**, in depth-first order, added to those met before. Empty containers
have no leaves and leave no trace; a leaf at the root has the empty path. -/
def flattenInto (maxDepth depth : Nat) (path : Path) (into : FlatRecord) : Json → Outcome FlatRecord
  | null => emit path into (Schema.ofNull, .null)
  | bool b => typedLeaf (.boolean b) >>= emit path into
  | num n => Value.ofNumeral? n >>= typedLeaf >>= emit path into
  | str s => typedLeaf (.string s) >>= emit path into
  | arr items =>
    if maxDepth ≤ depth then .error (.depthExceeded maxDepth)
    else flattenItems maxDepth (depth + 1) path 0 into items
  | obj members =>
    if maxDepth ≤ depth then .error (.depthExceeded maxDepth)
    else flattenMembers maxDepth (depth + 1) path into members

/-- The leaves of the items from the given index on, which counts as a part of the path. -/
def flattenItems (maxDepth depth : Nat) (path : Path) (index : Nat) (into : FlatRecord) :
    List Json → Outcome FlatRecord
  | [] => .ok into
  | item :: rest => do
    let into ← flattenInto maxDepth depth (path ++ [toString index]) into item
    flattenItems maxDepth depth path (index + 1) into rest

/-- The leaves of the members, in the order of their names. -/
def flattenMembers (maxDepth depth : Nat) (path : Path) (into : FlatRecord) :
    List (String × Json) → Outcome FlatRecord
  | [] => .ok into
  | (name, item) :: rest => do
    let into ← flattenInto maxDepth depth (path ++ [name]) into item
    flattenMembers maxDepth depth path into rest

end

/-! ### Without a schema -/

mutual

/-- **The value of a document without a schema.** Objects stay objects and arrays may mix kinds, so
nothing is merged and no path is needed. -/
def schemaless (maxDepth depth : Nat) : Json → Outcome Value
  | null => .ok .null
  | bool b => .ok (.boolean b)
  | num n => Value.ofNumeral? n
  | str s => .ok (.string s)
  | arr items =>
    if maxDepth ≤ depth then .error (.depthExceeded maxDepth)
    else .array <$> schemalessItems maxDepth (depth + 1) items
  | obj members =>
    if maxDepth ≤ depth then .error (.depthExceeded maxDepth)
    else .map <$> schemalessMembers maxDepth (depth + 1) members

def schemalessItems (maxDepth depth : Nat) : List Json → Outcome (List Value)
  | [] => .ok []
  | item :: rest => do
    let head ← schemaless maxDepth depth item
    let tail ← schemalessItems maxDepth depth rest
    return head :: tail

/-- The members of an object, under their names and in their order. -/
def schemalessMembers (maxDepth depth : Nat) : List (String × Json) →
    Outcome (List (String × Value))
  | [] => .ok []
  | (name, item) :: rest => do
    let head ← schemaless maxDepth depth item
    let tail ← schemalessMembers maxDepth depth rest
    return (name, head) :: tail

end
end Json

/-! ### All three -/

/-- **A converted document**, in one of the three ways. Only the last one has no schema. -/
inductive Converted where
  /-- Nested, with its schema. -/
  | structured (schema : Schema) (value : Value)
  | flattened (flat : FlatRecord)
  | schemaless (value : Value)

/-- **Schema and value of the record** that a converted document becomes. A flattened document is a
struct with one field per path. -/
def Converted.toRecord : Converted → Option Schema × Value
  | structured schema value => (some schema, value)
  | flattened flat => (some flat.toRecord.schema, flat.toRecord.toValue)
  | schemaless value => (none, value)

/-- **Conversion of one document**, in the way that the settings ask for. Flattening is a way of
inferring a schema, so it has no effect where no schema is wanted. -/
def ConversionSettings.convert (s : ConversionSettings) (doc : Json) : Outcome Converted :=
  if s.structured then
    match s.strategy with
    | .nest => do
      let (schema, value) ← doc.nest s.maxDepth 0 []
      return .structured schema value
    | .flatten => .flattened <$> doc.flattenInto s.maxDepth 0 [] .empty
  else .schemaless <$> doc.schemaless s.maxDepth 0

end DocStream
