import DocStream.Text.NameOrder

/-!
# Schemas

The type of a record's value: a leaf type, an array of one element schema, or a struct of named
fields; each may be optional, that is, may be null.

Field lists are sorted by name wherever a schema is built (`Schema.ofFields`). Sorting keeps
repeated names, in the order given; a look-up by name reaches the first of them.

* `Schema.describe` — the short description used in failures;
* `Schema.display` — the same with a question mark if the schema is optional;
* `Schema.WellFormed` — field names ascend strictly in every struct.
-/

namespace DocStream

-- Powers of numbers are the core library's, so that they evaluate.
attribute [local instance (high)] instPowNat

inductive IntWidth where
  | w8
  | w16
  | w32
  | w64
deriving DecidableEq, Repr

namespace IntWidth

/-- How many bits an integer of the width has, its sign among them. -/
def bits : IntWidth → Nat
  | w8 => 8
  | w16 => 16
  | w32 => 32
  | w64 => 64

/-- The integers of a width, in two's complement: one more below zero than above. -/
def Holds (w : IntWidth) (n : Int) : Prop := -(2 ^ (w.bits - 1)) ≤ n ∧ n < 2 ^ (w.bits - 1)

instance (w : IntWidth) (n : Int) : Decidable (w.Holds n) := by unfold Holds; infer_instance

def name : IntWidth → String
  | w8 => "int8"
  | w16 => "int16"
  | w32 => "int32"
  | w64 => "int64"

end IntWidth

/-- The type of a leaf. Two of them, decimals and instants, have a meaning on top of the type that
carries them. -/
inductive LeafType where
  | boolean
  | int (width : IntWidth)
  | float32
  | float64
  | string
  | bytes
  /-- Decimals with a fixed number of places, carried as bytes. -/
  | decimal (scale : Int)
  /-- Milliseconds since 1970, carried as 64-bit integers. -/
  | timestamp
deriving DecidableEq, Repr

namespace LeafType

/-- The name of the type that carries the leaf. -/
def carrierName : LeafType → String
  | boolean => "boolean"
  | int w => w.name
  | float32 => "float32"
  | float64 => "float64"
  | string => "string"
  | bytes | decimal _ => "bytes"
  | timestamp => "int64"

/-- The carrier types by name: every leaf type that has no logical meaning on top. Names are the
ones that schemas have on the wire. -/
def ofName? : String → Option LeafType
  | "boolean" => some boolean
  | "int8" => some (int .w8)
  | "int16" => some (int .w16)
  | "int32" => some (int .w32)
  | "int64" => some (int .w64)
  | "float32" => some float32
  | "float64" => some float64
  | "string" => some string
  | "bytes" => some bytes
  | _ => none

/-- The short description of the type, which names its meaning rather than its carrier. -/
def describe : LeafType → String
  | decimal scale => s!"decimal({scale})"
  | timestamp => "timestamp"
  | t => t.carrierName

end LeafType

/-- **A schema**: what a value may be, and whether it may be null. Each of the three kinds carries
that flag, so an optional schema is no schema of another kind. -/
inductive Schema where
  | leaf (type : LeafType) (optional : Bool)
  /-- An array whose items share one schema. -/
  | array (element : Schema) (optional : Bool)
  | struct (fields : List (String × Schema)) (optional : Bool)
deriving Inhabited, Repr

/-- A named field of a struct schema. -/
abbrev Field := String × Schema

namespace Schema

def isOptional : Schema → Bool
  | leaf _ o | array _ o | struct _ o => o

/-- The schema inferred for `null`, where nothing tells what else it could be. A place that is null
in one document and a number in another has two schemas. -/
def ofNull : Schema := leaf .string true

/-- **A struct schema** with its fields sorted by name. Schemas that are built from the same fields
in another order are equal, as long as no name is repeated. -/
def ofFields (fields : List Field) (optional : Bool) : Schema :=
  struct (NameOrder.sort Prod.fst fields) optional

def fields? : Schema → Option (List Field)
  | struct fields _ => some fields
  | _ => none

/-- The fields of a struct; none for other schemas. -/
def fields (s : Schema) : List Field := s.fields?.getD []

/-- The schema of the items, if it is an array. -/
def element? : Schema → Option Schema
  | array e _ => some e
  | _ => none

def isStruct (s : Schema) : Bool := s.fields?.isSome

/-- The schema of a field, by name; of several the first. -/
def field? (s : Schema) (name : String) : Option Schema := s.fields.lookup name

/-- The place of a field, by name; of several the first. -/
def fieldIndex? (s : Schema) (name : String) : Option Nat :=
  s.fields.findIdx? fun f => f.1 == name

/-- The name of the physical type. -/
def typeName : Schema → String
  | leaf t _ => t.carrierName
  | array .. => "array"
  | struct .. => "struct"

/-- **The short description**, for failures. Of a struct it shows the names of the fields and no
more. -/
def describe : Schema → String
  | leaf t _ => t.describe
  | array e _ => "array<" ++ e.describe ++ ">"
  | struct fields _ => "struct\x7b" ++ ",".intercalate (fields.map Prod.fst) ++ "\x7d"

/-- The description, with a question mark if the schema is optional. Only the schema itself is asked
for that, not its parts. -/
def display (s : Schema) : String := s.describe ++ if s.isOptional then "?" else ""

/-! ### Equality -/

mutual

/-- Equality of schemas is decided field by field. -/
def decEq : (a b : Schema) → Decidable (a = b)
  | leaf t o, leaf u p => decidable_of_iff (t = u ∧ o = p) (by simp)
  | array e o, array f p => match decEq e f, instDecidableEqBool o p with
    | isTrue h, isTrue h' => isTrue (by rw [h, h'])
    | isFalse h, _ => isFalse fun q => h (by injection q)
    | _, isFalse h => isFalse fun q => h (by injection q)
  | struct fs o, struct gs p => match decEqFields fs gs, instDecidableEqBool o p with
    | isTrue h, isTrue h' => isTrue (by rw [h, h'])
    | isFalse h, _ => isFalse fun q => h (by injection q)
    | _, isFalse h => isFalse fun q => h (by injection q)
  | leaf _ _, array _ _ | leaf _ _, struct _ _ | array _ _, leaf _ _ | array _ _, struct _ _
  | struct _ _, leaf _ _ | struct _ _, array _ _ => isFalse (by simp)

/-- Equality of fields is decided in order, by name and then by schema. -/
def decEqFields : (a b : List (String × Schema)) → Decidable (a = b)
  | [], [] => isTrue rfl
  | [], _ :: _ | _ :: _, [] => isFalse (by simp)
  | (k, s) :: fs, (l, t) :: gs =>
    if hk : k = l then
      match decEq s t, decEqFields fs gs with
      | isTrue h, isTrue h' => isTrue (by rw [hk, h, h'])
      | isFalse h, _ => isFalse fun e => h (by injection e with e _; injection e)
      | _, isFalse h => isFalse fun e => h (by injection e)
    else isFalse fun e => hk (by injection e with e _; injection e)

end

instance : DecidableEq Schema := decEq

/-! ### Size and shape -/

mutual

/-- How deep arrays and structs nest; zero for a leaf. This is what recursions over merged schemas
go down by. -/
def height : Schema → Nat
  | leaf .. => 0
  | array e _ => e.height + 1
  | struct fields _ => heightOfFields fields + 1

def heightOfFields : List (String × Schema) → Nat
  | [] => 0
  | (_, s) :: rest => max s.height (heightOfFields rest)

end

mutual

/-- **Well-formed**: field names ascend strictly in every struct. So no name is repeated, and every
name leads to its field. -/
def WellFormed : Schema → Prop
  | leaf .. => True
  | array e _ => e.WellFormed
  | struct fields _ => (fields.map Prod.fst).Pairwise (· < ·) ∧ WellFormedFields fields

def WellFormedFields : List (String × Schema) → Prop
  | [] => True
  | (_, s) :: rest => s.WellFormed ∧ WellFormedFields rest

end

@[simp] theorem isStruct_struct (fields : List Field) (o : Bool) :
    (struct fields o).isStruct = true := rfl

@[simp] theorem isOptional_ofFields (fields : List Field) (o : Bool) :
    (Schema.ofFields fields o).isOptional = o := rfl

end Schema
end DocStream
