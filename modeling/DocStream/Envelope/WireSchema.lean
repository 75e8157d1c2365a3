import DocStream.Json.Basic
import DocStream.Value

/-!
# Schemas on the wire

A schema travels as a tree of JSON objects with the same seven members at every node: the type name,
whether it is optional, the field name if the node describes a field, the logical name and its
parameters, the fields of a struct, and the items of an array.

* `WireSchema` — such a tree;
* `WireSchema.ofSchema` and `WireSchema.toSchema?` — from and to schemas;
* `WireSchema.toJson` and `WireSchema.ofJson?` — to and from JSON.

A node is read from an object, by name, or from an array, by position. Members that a node does not
have are skipped.
-/

namespace DocStream

/-- **A schema as it travels.** Each node has all members, whichever type it names, so a node may
say things that have no meaning for its type. -/
inductive WireSchema where
  | node (typeName : String) (optional : Bool) (field name : Option String)
      (parameters : Option (List (String × Json))) (fields : Option (List WireSchema))
      (items : Option WireSchema)

namespace WireSchema

/-- The node of a type without further members. -/
def plain (typeName : String) (optional : Bool) : WireSchema :=
  node typeName optional none none none none none

/-- The name of the type of a node: a leaf's carrier, or that of an array or of a struct. -/
def typeName : WireSchema → String
  | node t _ _ _ _ _ _ => t

/-- The name of the field that the node describes. -/
def field? : WireSchema → Option String
  | node _ _ f _ _ _ _ => f

/-- The node as the description of a field. -/
def withField (field : String) : WireSchema → WireSchema
  | node t o _ n p fs i => node t o (some field) n p fs i

/-- Prefix of the logical names with a meaning here. -/
def logicalPrefix : String := "org.apache.kafka.connect.data."

def decimalName : String := "org.apache.kafka.connect.data.Decimal"

/-- The logical name of instants, which are carried as integers of 64 bits. -/
def timestampName : String := "org.apache.kafka.connect.data.Timestamp"

/-- The logical name of a leaf type, if it has one. -/
def logicalName? : LeafType → Option String
  | .decimal _ => some decimalName
  | .timestamp => some timestampName
  | _ => none

/-- The parameters of a leaf type, if it has any: the scale of a decimal, as a text. -/
def parametersOf? : LeafType → Option Members
  | .decimal scale => some [("scale", .str (toString scale))]
  | _ => none

/-! ### Schemas -/

mutual

/-- **The wire form of a schema.** Each node is described by itself; a field is named by its own
node. -/
def ofSchema : Schema → WireSchema
  | .leaf t o => node t.carrierName o none (logicalName? t) (parametersOf? t) none none
  | .array e o => node "array" o none none none none (some (ofSchema e))
  | .struct fields o => node "struct" o none none none (some (ofFields fields)) none

/-- The wire forms of the fields of a struct, in order, each with the name of its field. -/
def ofFields : List (String × Schema) → List WireSchema
  | [] => []
  | (name, s) :: rest => (ofSchema s).withField name :: ofFields rest

end

/-- The scale among the parameters of a decimal: an integer of 64 bits, as a text or as a number. It
may be any of these; what is done with the decimal later may be less patient. -/
def scale? (parameters : Option Members) : Outcome Int :=
  match parameters.bind (Members.get? · "scale") with
  | none => .error (.missingField "parameters.scale")
  | some j =>
    let scale := match j with
      | .str s => Digits.signed64? s
      | j => j.int64?
    match scale with
    | some k => .ok k
    | none => .error (.unhandled "decimal scale" j.kind)

/-- **The leaf type** of a carrier type under a logical name. Two logical names have a meaning, each
on its own carrier; others of their family are unknown, also on a carrier that is not theirs, and
foreign ones are ignored. -/
def leafType? (carrier : LeafType) (name : Option String) (parameters : Option Members) :
    Outcome LeafType :=
  match name with
  | none => .ok carrier
  | some name =>
    if name = decimalName ∧ carrier = .bytes then .decimal <$> scale? parameters
    else if name = timestampName ∧ carrier = .int .w64 then .ok .timestamp
    else if logicalPrefix.toList.isPrefixOf name.toList then
      .error (.unknownType s!"{name} ({carrier.carrierName})")
    else .ok carrier

/-- A logical name on an array has no meaning; one of the known family is unknown there. -/
def checkArrayName (name : Option String) : Outcome Unit :=
  match name with
  | some name =>
    if logicalPrefix.toList.isPrefixOf name.toList then .error (.unknownType s!"{name} (array)")
    else .ok ()
  | none => .ok ()

mutual

/-- **The schema of a wire form.** An array looks at its name only after its items, and a struct
does not look at its name at all; fields are sorted by name, repeated ones included. -/
def toSchema? : WireSchema → Outcome Schema
  | node typeName o _ name parameters fields items =>
    if typeName = "array" then do
      let element ← itemsSchema? items
      checkArrayName name
      return .array element o
    else if typeName = "struct" then do
      let fields ← fieldsOf? fields
      return .ofFields fields o
    else
      match LeafType.ofName? typeName with
      | none => .error (.unknownType typeName)
      | some carrier => do
        let t ← leafType? carrier name parameters
        return .leaf t o

/-- The schema of an array's items, which have to be described. -/
def itemsSchema? : Option WireSchema → Outcome Schema
  | none => .error (.missingField "items")
  | some w => toSchema? w

/-- The fields of a struct; none if they are not given. -/
def fieldsOf? : Option (List WireSchema) → Outcome (List Field)
  | none => .ok []
  | some ws => fieldList? ws

/-- The fields of a list of nodes, each of which has to name its field. Names are not compared, so a
name may come twice. -/
def fieldList? : List WireSchema → Outcome (List Field)
  | [] => .ok []
  | w :: rest =>
    match w.field? with
    | none => .error (.missingField "field")
    | some name => do
      let s ← toSchema? w
      let fields ← fieldList? rest
      return (name, s) :: fields

end

/-! ### JSON -/

mutual

/-- **The JSON object of a node**; members without a value are left out. -/
def toJson : WireSchema → Json
  | node t o field name parameters fields items =>
    .obj (Members.ofList ([("type", .str t), ("optional", .bool o)]
      ++ (field.map fun f => ("field", Json.str f)).toList
      ++ (name.map fun n => ("name", Json.str n)).toList
      ++ (parameters.map fun p => ("parameters", Json.obj p)).toList
      ++ fieldsMember fields ++ itemsMember items))

/-- The member that holds the fields, if they are given. -/
def fieldsMember : Option (List WireSchema) → List (String × Json)
  | none => []
  | some ws => [("fields", .arr (toJsons ws))]

/-- The member that holds the items, if they are given. -/
def itemsMember : Option WireSchema → List (String × Json)
  | none => []
  | some w => [("items", w.toJson)]

/-- The JSON objects of a list of nodes. -/
def toJsons : List WireSchema → List Json
  | [] => []
  | w :: rest => w.toJson :: toJsons rest

end

/-- The members of a node, as far as they have been read. All but the type may be missing; the type
and the flag must not be null. -/
structure Parts where
  typeName : Option String := none
  optional : Bool := false
  field : Option String := none
  name : Option String := none
  parameters : Option Members := none
  fields : Option (List WireSchema) := none
  items : Option WireSchema := none

/-- The node, once all members have been read. The type has to be given. -/
def Parts.complete? (p : Parts) : Option WireSchema :=
  p.typeName.map fun t => node t p.optional p.field p.name p.parameters p.fields p.items

/-- The members by position. -/
def memberNames : List String :=
  ["type", "optional", "field", "name", "parameters", "fields", "items"]

/-- A text that may be null. -/
def textOrNull? : Json → Option (Option String)
  | .null => some none
  | .str s => some (some s)
  | _ => none

/-- **A member taken over.** The two readings of it as nodes are given as functions, so that only
the one that is needed is computed. A member of no known name is passed over. -/
def Parts.set? (p : Parts) (member : String) (j : Json)
    (asNode : Unit → Option WireSchema) (asNodes : Unit → Option (List WireSchema)) :
    Option Parts :=
  match member with
  | "type" => j.str?.map fun t => { p with typeName := some t }
  | "optional" => j.bool?.map fun o => { p with optional := o }
  | "field" => (textOrNull? j).map fun f => { p with field := f }
  | "name" => (textOrNull? j).map fun n => { p with name := n }
  | "parameters" =>
    match j with
    | .null => some { p with parameters := none }
    | j => j.obj?.map fun ms => { p with parameters := some ms }
  | "fields" =>
    match j with
    | .null => some { p with fields := none }
    | _ => (asNodes ()).map fun ws => { p with fields := some ws }
  | "items" =>
    match j with
    | .null => some { p with items := none }
    | _ => (asNode ()).map fun w => { p with items := some w }
  | _ => some p

mutual

/-- **Reading a node**, from an object or from an array with the same members by position. -/
def ofJson? : Json → Option WireSchema
  | .obj members => readMembers? members {} >>= Parts.complete?
  | .arr items => readPositions? memberNames items {} >>= Parts.complete?
  | _ => none

/-- Reading a list of nodes, all of which have to be readable. -/
def ofJsons? : List Json → Option (List WireSchema)
  | [] => some []
  | j :: rest => do
    let w ← ofJson? j
    let ws ← ofJsons? rest
    return w :: ws

/-- Reading the members of an object, one after the other. -/
def readMembers? : List (String × Json) → Parts → Option Parts
  | [], p => some p
  | (name, j) :: rest, p => do
    let p ← p.set? name j (fun _ => ofJson? j) fun _ =>
      match j with
      | .arr js => ofJsons? js
      | _ => none
    readMembers? rest p

/-- Reading members by position; there must not be more than names. -/
def readPositions? : List String → List Json → Parts → Option Parts
  | _, [], p => some p
  | [], _ :: _, _ => none
  | name :: names, j :: rest, p => do
    let p ← p.set? name j (fun _ => ofJson? j) fun _ =>
      match j with
      | .arr js => ofJsons? js
      | _ => none
    readPositions? names rest p

end
end WireSchema
end DocStream
