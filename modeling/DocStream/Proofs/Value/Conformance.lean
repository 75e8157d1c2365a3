import DocStream.Value

/-!
# Conformance

When a value is one that its schema describes. Null stands only where the schema is optional, the
items of an array all conform to the one element schema, and a record carries exactly the fields of
the struct schema at its place, one slot for each. For leaves the relation is a parameter, since
some places ask for the exact kind and others for less.

* `Value.Conforms` — conformance up to a relation between leaf types and leaves;
* `LeafType.Infers` — the leaves that a document's scalars become, each of exactly its type;
* `Schema.LeafInferred` — the leaf schemas that a document's scalars have.

Conformance is by recursion on the value, with the schema going along. So a proof about it is an
induction on values whose cases are read off by `conforms_null`, `conforms_array`, `conforms_record`
and, for leaves, `Conforms.eq_leaf`; the recursion over items and slots is needed for closed values
only.
-/

namespace DocStream

/-- **The leaf that is inferred for a type**: exactly of the kind that the type declares. Under a
decimal type that is an integer of any size, so the type has no places. -/
def LeafType.Infers : LeafType → Value → Prop
  | .boolean, .boolean _ => True
  | .int w, .int n => n.width = w
  | .float32, .float32 _ => True
  | .float64, .float64 _ => True
  | .string, .string _ => True
  | .decimal scale, .bigint _ => scale = 0
  | _, _ => False

/-- **A leaf schema of a document**: optional, and of a type that is inferred for some leaf. Of
arrays and structs nothing is asked. -/
def Schema.LeafInferred : Schema → Prop
  | .leaf t o => o = true ∧ ∃ v, t.Infers v
  | _ => True

namespace Value

/-- Is it neither null nor made of other values? -/
def isLeaf : Value → Bool
  | null | array _ | map _ | record .. => false
  | _ => true

theorem isLeaf_of_ne {v : Value} (hnull : v ≠ null) (harray : ∀ items, v ≠ array items)
    (hmap : ∀ entries, v ≠ map entries) (hrecord : ∀ slots o, v ≠ record slots o) :
    v.isLeaf = true := by
  cases v with
  | null => exact absurd rfl hnull
  | array items => exact absurd rfl (harray items)
  | map entries => exact absurd rfl (hmap entries)
  | record slots o => exact absurd rfl (hrecord slots o)
  | _ => rfl

mutual

/-- **A value conforms to a schema**, with a relation that tells which leaves fit a leaf type. -/
def Conforms (Fits : LeafType → Value → Prop) : Value → Schema → Prop
  | null, s => s.isOptional = true
  | array items, .array e _ => ConformItems Fits items e
  | record slots p, .struct fields o =>
    slots.map Prod.fst = fields ∧ p = o ∧ ConformSlots Fits slots
  | v, .leaf t _ => Fits t v
  | _, _ => False

def ConformItems (Fits : LeafType → Value → Prop) : List Value → Schema → Prop
  | [], _ => True
  | v :: rest, e => Conforms Fits v e ∧ ConformItems Fits rest e

/-- Every slot's value conforms to the schema of its field. -/
def ConformSlots (Fits : LeafType → Value → Prop) : List ((String × Schema) × Value) → Prop
  | [] => True
  | ((_, s), v) :: rest => Conforms Fits v s ∧ ConformSlots Fits rest

end

variable {Fits : LeafType → Value → Prop}

/-- Null conforms where the schema is optional, of whatever kind that is. -/
theorem conforms_null {s : Schema} : null.Conforms Fits s ↔ s.isOptional = true := by
  rw [Conforms]

/-- An array conforms if all items do, to the one schema of the elements. -/
theorem conforms_array {items : List Value} {e : Schema} {o : Bool} :
    (array items).Conforms Fits (.array e o) ↔ ∀ v ∈ items, v.Conforms Fits e := by
  rw [Conforms]
  -- the recursion over items says what is said of all members here
  induction items with
  | nil => simp [ConformItems]
  | cons v rest ih => rw [ConformItems, ih, List.forall_mem_cons]

/-- A record conforms slot by slot, and its fields are those of the schema. -/
theorem conforms_record {slots : List Slot} {fields : List Field} {p o : Bool} :
    (record slots p).Conforms Fits (.struct fields o) ↔
      slots.map Prod.fst = fields ∧ p = o ∧ ∀ slot ∈ slots, slot.2.Conforms Fits slot.1.2 := by
  -- the recursion over slots says what is said of all members here
  have hslots : ConformSlots Fits slots ↔ ∀ slot ∈ slots, slot.2.Conforms Fits slot.1.2 := by
    induction slots with
    | nil => simp [ConformSlots]
    | cons slot rest ih =>
      obtain ⟨⟨name, s⟩, v⟩ := slot
      rw [ConformSlots, ih, List.forall_mem_cons]
  rw [Conforms, hslots]

/-- A value that is not null conforms to a leaf schema if it fits the leaf type. -/
theorem conforms_leaf {v : Value} {t : LeafType} {o : Bool} (h : Fits t v) (hv : v ≠ null) :
    v.Conforms Fits (.leaf t o) := by
  cases v <;> first | exact absurd rfl hv | exact h

/-- A leaf conforms to leaf schemas only. -/
theorem Conforms.eq_leaf {v : Value} {s : Schema} (hv : v.isLeaf = true) (h : v.Conforms Fits s) :
    ∃ t o, s = .leaf t o ∧ Fits t v := by
  cases v with
  | null | array | map | record => exact nomatch hv
  | _ =>
    cases s with
    | leaf t o => exact ⟨t, o, rfl, h⟩
    | array e o => exact h.elim
    | struct fields o => exact h.elim

end Value
end DocStream
