import DocStream.Number.Numeral

/-!
# JSON values

A JSON value with its numbers as spelled. An object is a list of named members; the values this
library works with are *canonical*: at every object the names ascend strictly, so that a name occurs
once and two equal objects are equal lists. Reading a text produces canonical values
(`Json.Parser`), and the operations here keep them so.

* `Json.Canonical` — names ascend strictly at every level;
* `Members.get?` and `Members.insert` — looking a name up, and setting it;
* `Json.kind` — the word for a value's kind, as error messages use it.

Names are ordered as strings, by code points.
-/

namespace DocStream

/-- A JSON value. Numbers are kept as they are spelled, so two values are equal if they are written
alike, the order of members and the escapes of strings aside. -/
inductive Json where
  | null
  | bool (b : Bool)
  /-- A number, as spelled. -/
  | num (n : Numeral)
  | str (s : String)
  | arr (items : List Json)
  /-- An object: its members, by name. -/
  | obj (members : List (String × Json))
deriving Inhabited

/-- The members of an object. -/
abbrev Members := List (String × Json)

namespace Json

/-- The word for a value's kind. -/
def kind : Json → String
  | null => "null"
  | bool _ => "boolean"
  | num _ => "number"
  | str _ => "string"
  | arr _ => "array"
  | obj _ => "object"

def isNull : Json → Bool
  | null => true
  | _ => false

def bool? : Json → Option Bool
  | bool b => some b
  | _ => none

def str? : Json → Option String
  | str s => some s
  | _ => none

def arr? : Json → Option (List Json)
  | arr items => some items
  | _ => none

def obj? : Json → Option Members
  | obj members => some members
  | _ => none

/-- The integer, if it is a number spelled as a plain integer that 64 signed bits hold. -/
def int64? : Json → Option Int
  | num n => n.toInt64?
  | _ => none

/-- The number that spells an integer. -/
def ofInt (n : Int) : Json := num (.ofInt n)

def ofString? : Option String → Json
  | some s => str s
  | none => null

mutual

/-- Equality of JSON values is decided member by member. -/
def decEq : (a b : Json) → Decidable (a = b)
  | null, null => isTrue rfl
  | bool a, bool b => decidable_of_iff (a = b) (by simp)
  | num a, num b => decidable_of_iff (a = b) (by simp)
  | str a, str b => decidable_of_iff (a = b) (by simp)
  | arr a, arr b => match decEqItems a b with
    | isTrue h => isTrue (h ▸ rfl)
    | isFalse h => isFalse fun e => h (by injection e)
  | obj a, obj b => match decEqMembers a b with
    | isTrue h => isTrue (h ▸ rfl)
    | isFalse h => isFalse fun e => h (by injection e)
  | null, bool _ | null, num _ | null, str _ | null, arr _ | null, obj _
  | bool _, null | bool _, num _ | bool _, str _ | bool _, arr _ | bool _, obj _
  | num _, null | num _, bool _ | num _, str _ | num _, arr _ | num _, obj _
  | str _, null | str _, bool _ | str _, num _ | str _, arr _ | str _, obj _
  | arr _, null | arr _, bool _ | arr _, num _ | arr _, str _ | arr _, obj _
  | obj _, null | obj _, bool _ | obj _, num _ | obj _, str _ | obj _, arr _ =>
    isFalse (by simp)

def decEqItems : (a b : List Json) → Decidable (a = b)
  | [], [] => isTrue rfl
  | [], _ :: _ | _ :: _, [] => isFalse (by simp)
  | x :: xs, y :: ys => match decEq x y, decEqItems xs ys with
    | isTrue h, isTrue h' => isTrue (by rw [h, h'])
    | isFalse h, _ => isFalse fun e => h (by injection e)
    | _, isFalse h => isFalse fun e => h (by injection e)

/-- Equality of members is decided in order, by name and then by value. -/
def decEqMembers : (a b : List (String × Json)) → Decidable (a = b)
  | [], [] => isTrue rfl
  | [], _ :: _ | _ :: _, [] => isFalse (by simp)
  | (k, x) :: xs, (l, y) :: ys =>
    if hk : k = l then
      match decEq x y, decEqMembers xs ys with
      | isTrue h, isTrue h' => isTrue (by rw [hk, h, h'])
      | isFalse h, _ => isFalse fun e => h (by injection e with e _; injection e)
      | _, isFalse h => isFalse fun e => h (by injection e)
    else isFalse fun e => hk (by injection e with e _; injection e)

end

instance : DecidableEq Json := decEq

end Json

/-! ### Members -/

namespace Members

def names (ms : Members) : List String := ms.map Prod.fst

/-- The member of a name. A name occurs once in what is canonical; of several the first is found. -/
def get? (ms : Members) (name : String) : Option Json := List.lookup name ms

/-- **Setting a name.** The value replaces the one that the name had; a new name goes to its place
in the order. -/
def insert (name : String) (value : Json) : Members → Members
  | [] => [(name, value)]
  | (k, v) :: rest =>
    if name = k then (name, value) :: rest
    else if name < k then (name, value) :: (k, v) :: rest
    else (k, v) :: insert name value rest

/-- The members of a list of pairs; of two pairs with one name the later counts. Whatever the order
of the pairs, the members are in the order of their names. -/
def ofList (pairs : List (String × Json)) : Members :=
  pairs.foldl (fun ms (k, v) => insert k v ms) []

@[simp] theorem insert_nil (name : String) (value : Json) :
    insert name value [] = [(name, value)] := rfl

/-- After setting a name it has the new value. -/
@[simp] theorem get?_insert_self (name : String) (value : Json) (ms : Members) :
    (insert name value ms).get? name = some value := by
  simp only [get?]
  induction ms with
  | nil => rw [insert_nil, List.lookup_cons_self]
  | cons m ms ih =>
    obtain ⟨k, v⟩ := m
    rw [insert]
    split
    · rw [List.lookup_cons_self]
    · next hk =>
      split
      · rw [List.lookup_cons_self]
      · rw [List.lookup_cons, beq_false_of_ne hk, ih]

/-- Setting a name leaves the other names alone. -/
theorem get?_insert_of_ne {name other : String} (value : Json) (ms : Members)
    (h : other ≠ name) : (insert name value ms).get? other = ms.get? other := by
  have hn : (other == name) = false := beq_false_of_ne h
  simp only [get?]
  induction ms with
  | nil => rw [insert_nil, List.lookup_cons, hn]
  | cons m ms ih =>
    obtain ⟨k, v⟩ := m
    rw [insert]
    split
    · next hk =>
      subst hk
      rw [List.lookup_cons, List.lookup_cons, hn]
    · split
      · rw [List.lookup_cons, hn]
      · rw [List.lookup_cons, List.lookup_cons, ih]

end Members

/-! ### Canonical values -/

/-- **Names in ascending order**, none of them twice. Lists of members in this order are equal if
they have the same members. -/
def StrictlyAscending (names : List String) : Prop := names.Pairwise (· < ·)

mutual

/-- **Canonical**: at every object the names ascend strictly. -/
def Json.Canonical : Json → Prop
  | .null | .bool _ | .num _ | .str _ => True
  | .arr items => Json.CanonicalItems items
  | .obj members => StrictlyAscending (members.map Prod.fst) ∧ Json.CanonicalMembers members

def Json.CanonicalItems : List Json → Prop
  | [] => True
  | item :: rest => item.Canonical ∧ Json.CanonicalItems rest

def Json.CanonicalMembers : List (String × Json) → Prop
  | [] => True
  | (_, value) :: rest => value.Canonical ∧ Json.CanonicalMembers rest

end
end DocStream
