import DocStream.Value

/-!
# Merging struct schemas

Records of one array may have different fields. Merging their schemas gives one schema that
describes them all: fields are gathered by name, a name seen with one schema keeps it, a name seen
with several struct schemas gets their merge, and any other disagreement is a failure that names the
field. The merge is optional if one of the schemas is.

* `Schema.merge` — the merge of a list of schemas, with the dotted location for failures;
* `Value.conformTo` — a record rebuilt under a merged schema, with null in the fields it lacked.

The recursion goes down one struct level at a time, so the greatest height among the schemas bounds
it.
-/

namespace DocStream

namespace Schema

/-- A list without its later duplicates: each schema stands where it was met first. Being optional
counts as a difference. -/
def distinct (schemas : List Schema) : List Schema :=
  schemas.foldl (fun seen s => if s ∈ seen then seen else seen ++ [s]) []

/-- The distinct schemas of one name, with that name. -/
structure Gathered where
  name : String
  /-- The schemas it was seen with, in order of appearance and without duplicates. -/
  seen : List Schema

/-- A field added to what has been gathered; names are kept in order. A schema that the name was
seen with is not added again. -/
def gatherField (f : Field) : List Gathered → List Gathered
  | [] => [⟨f.1, [f.2]⟩]
  | g :: rest =>
    if f.1 = g.name then ⟨g.name, if f.2 ∈ g.seen then g.seen else g.seen ++ [f.2]⟩ :: rest
    else if f.1 < g.name then ⟨f.1, [f.2]⟩ :: g :: rest
    else g :: gatherField f rest

/-- **The fields of all schemas, gathered by name**, names ascending. The order of the schemas shows
only in the order of what a name was seen with. -/
def gather (schemas : List Schema) : List Gathered :=
  (schemas.flatMap fields).foldl (fun gathered f => gatherField f gathered) []

/-- The greatest height among schemas, and zero if there are none. -/
def heightOf (schemas : List Schema) : Nat := (schemas.map height).foldl max 0

/-- A field's location, below a location that may be empty. -/
def locate (location name : String) : String :=
  if location.isEmpty then name else s!"{location}.{name}"

/-- Descriptions in a row, for failures. -/
def describeAll (schemas : List Schema) : String := ", ".intercalate (schemas.map describe)

/-- The merge of schemas of at most the given height. All have to be structs; a name seen with
several structs is merged one level further down, and a name seen with anything else besides fails.
At height zero there are no fields to be merged. -/
def mergeUpTo : (height : Nat) → List Schema → (location : String) → Outcome Schema
  | 0, schemas, _ =>
    match schemas.find? fun s => !s.isStruct with
    | some s => .error (.unhandled "struct" s.describe)
    | none => .ok (ofFields [] (schemas.any isOptional))
  | height + 1, schemas, location =>
    match schemas.find? fun s => !s.isStruct with
    | some s => .error (.unhandled "struct" s.describe)
    | none => do
      -- One schema for every name: the only one, or the merge of several structs.
      let fields ← (gather schemas).mapM fun g => do
        let schema ← match g.seen with
          | [only] => pure only
          | seen =>
            if seen.all isStruct then mergeUpTo height seen (locate location g.name)
            else .error (.conflictingField (locate location g.name) (describeAll seen))
        return (g.name, schema)
      return ofFields fields (schemas.any isOptional)

/-- **The merge of struct schemas.** Every one has to be a struct; the location is the dotted path
that failures start from. A field stays required if all schemas that have it require it, also where
others lack it. -/
def merge (schemas : List Schema) (location : String) : Outcome Schema :=
  mergeUpTo (heightOf schemas) schemas location

end Schema

namespace Value

mutual

/-- **A record rebuilt under a merged schema.** Its fields are carried over, those whose own struct
schema was merged being rebuilt as well; fields it lacks are null. Null stays null, and a record
that has the schema already stays as it is. Any other value is refused. -/
def conformTo (target : Schema) : Value → Outcome Value
  | null => .ok null
  | record slots optional =>
    if Schema.struct (slots.map Prod.fst) optional = target then .ok (record slots optional)
    else do
      let blank ← Record.blank? target
      let rebuilt ← carryOver target blank slots
      return rebuilt.toValue
  | v => .error (.unhandled target.describe v.kind)

/-- The slots of a record carried over into another, by name and one after the other. -/
def carryOver (target : Schema) (into : Record) : List ((String × Schema) × Value) → Outcome Record
  | [] => .ok into
  | ((name, schema), v) :: rest =>
    match target.field? name with
    | none => .error (.unhandled target.describe s!"field '{name}'")
    | some s => do
      -- Only a struct field that was merged has another schema now.
      let v ← if s.isStruct && s ≠ schema then conformTo s v else pure v
      let into ← into.put? name v
      carryOver target into rest

end
end Value
end DocStream
