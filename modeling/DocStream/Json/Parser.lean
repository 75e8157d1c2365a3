import DocStream.Json.Token

/-!
# Reading JSON

A text is read in three steps: its tokens, the tree they spell, and the value of the tree.

The tree is built by a machine that takes one token at a time (`Reader.step`) and keeps the open
containers on a stack; whatever stands between two tokens is one of its six states. The tree is kept
as written: members in the order of the text, with repeated names (`Written`). Readers that refuse a
repeated name look at this tree; all others look at the value, where the last member of a name
counts.

* `Written.parse?` — the tree of a text;
* `Written.value?` — its value, if its containers nest within the limit and its strings have texts;
* `Json.parse?` — both, with the limit of `Json.maxNesting`.
-/

namespace DocStream

/-- A JSON text as written: members keep their order and may repeat a name, and a string whose
escapes form no text is `none`. This is what a text says before anything is made of it. -/
inductive Written where
  | null
  | bool (b : Bool)
  | num (n : Numeral)
  | str (s : Option String)
  | arr (items : List Written)
  | obj (members : List (Option String × Written))
deriving Inhabited

namespace Reader

/-- An open container: what has been read of it, latest first. -/
inductive Frame where
  /-- An array with the items before the current one. -/
  | array (items : List Written)
  /-- An object with the members before the current one, whose name has been read. -/
  | object (members : List (Option String × Written)) (name : Option String)

/-- Where the machine stands between two tokens; containers around that place are on the stack. -/
inductive State where
  /-- A value has to follow. -/
  | value (stack : List Frame)
  /-- Just inside an array: a value or the end. -/
  | arrayStart (stack : List Frame)
  /-- Just inside an object: a name or the end. -/
  | objectStart (stack : List Frame)
  /-- After a comma in an object: a name. -/
  | name (members : List (Option String × Written)) (stack : List Frame)
  /-- After a name: a colon. -/
  | colon (members : List (Option String × Written)) (name : Option String) (stack : List Frame)
  /-- A value has been read. -/
  | after (v : Written) (stack : List Frame)

/-- A token where a value has to start: a scalar is read at once, an opening bracket starts a
container, and no other token can stand there. -/
def start (stack : List Frame) : Token → Option State
  | .null => some (.after .null stack)
  | .bool b => some (.after (.bool b) stack)
  | .num n => some (.after (.num n) stack)
  | .str s => some (.after (.str s) stack)
  | .openArray => some (.arrayStart stack)
  | .openObject => some (.objectStart stack)
  | _ => none

/-- **One token.** None if it cannot stand where it does. -/
def step : State → Token → Option State
  | .value stack, t => start stack t
  -- An array or an object that has just been opened may end at once.
  | .arrayStart stack, .closeArray => some (.after (.arr []) stack)
  | .arrayStart stack, t => start (.array [] :: stack) t
  | .objectStart stack, .closeObject => some (.after (.obj []) stack)
  -- A name and its colon.
  | .objectStart stack, .str s => some (.colon [] s stack)
  | .name members stack, .str s => some (.colon members s stack)
  | .colon members name stack, .colon => some (.value (.object members name :: stack))
  -- After a value: the next one, or the end of the container.
  | .after v (.array items :: stack), .comma => some (.value (.array (v :: items) :: stack))
  | .after v (.array items :: stack), .closeArray => some (.after (.arr (v :: items).reverse) stack)
  | .after v (.object members name :: stack), .comma => some (.name ((name, v) :: members) stack)
  | .after v (.object members name :: stack), .closeObject =>
    some (.after (.obj ((name, v) :: members).reverse) stack)
  | _, _ => none

end Reader

namespace Written

/-- The tree that a list of tokens spells. There has to be exactly one value, and nothing around it.
-/
def ofTokens? (ts : List Token) : Option Written := do
  match ← ts.foldlM Reader.step (.value []) with
  | .after v [] => some v
  | _ => none

/-- **The tree of a text.** -/
def parse? (text : String) : Option Written := Token.scanAll? text.toList >>= ofTokens?

mutual

/-- **The value of a tree** whose containers nest at most `room` deep. Of several members of one
name the last one counts. -/
def value? : (room : Nat) → Written → Option Json
  | _, .null => some .null
  | _, .bool b => some (.bool b)
  | _, .num n => some (.num n)
  | _, .str s => s.map .str
  | 0, .arr _ | 0, .obj _ => none
  | room + 1, .arr items => (itemValues? room items).map .arr
  | room + 1, .obj members => (memberValues? room members).map fun ms => .obj (Members.ofList ms)

/-- The values of items. An item without a value leaves the array without one. -/
def itemValues? : (room : Nat) → List Written → Option (List Json)
  | _, [] => some []
  | room, item :: rest => do
    let v ← value? room item
    let vs ← itemValues? room rest
    return v :: vs

/-- The values of members, in the order of the text. A name whose escapes form no text leaves the
object without a value. -/
def memberValues? : (room : Nat) → List (Option String × Written) → Option (List (String × Json))
  | _, [] => some []
  | room, (name, item) :: rest => do
    let k ← name
    let v ← value? room item
    let vs ← memberValues? room rest
    return (k, v) :: vs

end
end Written

namespace Json

/-- Containers nest at most this deep in a text that is read as a value. Where a text is read as
something else, nothing is said about nesting. -/
def maxNesting : Nat := 127

/-- **The value of a text**, or none if the text is no JSON or nests too deep. What is read is
canonical. -/
def parse? (text : String) : Option Json := Written.parse? text >>= Written.value? maxNesting

end Json
end DocStream
