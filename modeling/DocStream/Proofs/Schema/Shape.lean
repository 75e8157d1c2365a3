import DocStream.Schema
import DocStream.Proofs.Names

/-!
# Properties of every part of a schema

A property of schemas may hold of a schema and of every schema inside it, or of the schemas inside
it alone. Schemas that come from documents are optional everywhere below their root.

* `Schema.Everywhere` — a property holds of a schema and of all schemas inside it;
* `Schema.Below` — a property holds of all schemas inside a schema, itself not counted;
* `Schema.wellFormed_struct`, `Schema.wellFormed_ofFields` — well-formedness, field by field.

The definitions are by recursion through the lists of fields. The equivalences beside them say the
same by membership, and no later proof goes along such a list for a property alone.
-/

namespace DocStream.Schema

mutual

/-- **A property holds everywhere**: of a schema and of all schemas inside it, items and fields at
any depth. -/
def Everywhere (P : Schema → Prop) : Schema → Prop
  | leaf t o => P (leaf t o)
  | array e o => P (array e o) ∧ e.Everywhere P
  | struct fields o => P (struct fields o) ∧ EverywhereFields P fields

/-- A property holds everywhere in the schemas of fields. -/
def EverywhereFields (P : Schema → Prop) : List (String × Schema) → Prop
  | [] => True
  | (_, s) :: rest => s.Everywhere P ∧ EverywhereFields P rest

end

/-- **A property holds below**: of all schemas inside a schema, whatever the schema itself is. -/
def Below (P : Schema → Prop) : Schema → Prop
  | leaf .. => True
  | array e _ => e.Everywhere P
  | struct fields _ => ∀ f ∈ fields, f.2.Everywhere P

variable {P : Schema → Prop}

/-- A property holds everywhere in fields if it does in the schema of each. -/
theorem everywhereFields_iff {fields : List Field} :
    EverywhereFields P fields ↔ ∀ f ∈ fields, f.2.Everywhere P := by
  induction fields with
  | nil => simp [EverywhereFields]
  | cons f rest ih =>
    obtain ⟨name, s⟩ := f
    rw [EverywhereFields, ih, List.forall_mem_cons]

/-- A property holds everywhere if it holds of the schema itself and below. This is how such a
property is taken apart, whatever kind of schema it is. -/
theorem everywhere_iff {s : Schema} : s.Everywhere P ↔ P s ∧ s.Below P := by
  cases s with
  | leaf t o => rw [Everywhere, Below, and_true]
  | array e o => rw [Everywhere, Below]
  | struct fields o => rw [Everywhere, Below, everywhereFields_iff]

/-- A property holds everywhere in a struct if it holds of the struct and everywhere in the schemas
of its fields. -/
theorem everywhere_struct {fields : List Field} {o : Bool} :
    (struct fields o).Everywhere P ↔ P (struct fields o) ∧ ∀ f ∈ fields, f.2.Everywhere P :=
  everywhere_iff

theorem wellFormedFields_iff {fields : List Field} :
    WellFormedFields fields ↔ ∀ f ∈ fields, f.2.WellFormed := by
  induction fields with
  | nil => simp [WellFormedFields]
  | cons f rest ih =>
    obtain ⟨name, s⟩ := f
    rw [WellFormedFields, ih, List.forall_mem_cons]

/-- **A struct schema is well-formed** if its names ascend and the schemas of its fields are
well-formed. -/
theorem wellFormed_struct {fields : List Field} {o : Bool} :
    (struct fields o).WellFormed ↔
      StrictlyAscending (fields.map Prod.fst) ∧ ∀ f ∈ fields, f.2.WellFormed := by
  rw [WellFormed, wellFormedFields_iff, StrictlyAscending]

/-- **Sorting the fields** makes a struct schema well-formed if their names are distinct. -/
theorem wellFormed_ofFields {fields : List Field} {o : Bool} :
    (ofFields fields o).WellFormed ↔
      (fields.map Prod.fst).Nodup ∧ ∀ f ∈ fields, f.2.WellFormed := by
  have hnodup : StrictlyAscending ((NameOrder.sort Prod.fst fields).map Prod.fst) ↔
      (fields.map Prod.fst).Nodup :=
    ⟨fun h => ((NameOrder.sort_perm _ _).map Prod.fst).nodup_iff.mp h.nodup,
      NameOrder.ascending_sort⟩
  rw [ofFields, wellFormed_struct, hnodup]
  simp only [(NameOrder.sort_perm _ _).mem_iff]

/-- **The order in which fields are given is lost** if their names are distinct. With a name given
twice it is not, as both fields stay in their order. -/
theorem ofFields_eq_of_perm {fields fields' : List Field} {o : Bool} (h : fields.Perm fields')
    (hnodup : (fields.map Prod.fst).Nodup) : ofFields fields o = ofFields fields' o := by
  have hnodup' : (fields'.map Prod.fst).Nodup := (h.map Prod.fst).nodup_iff.mp hnodup
  -- sorted, both lists are in order of distinct names and have the same elements
  rw [ofFields, ofFields, eq_of_ascending (NameOrder.ascending_sort hnodup)
    (NameOrder.ascending_sort hnodup') fun f => ?_]
  rw [(NameOrder.sort_perm _ _).mem_iff, (NameOrder.sort_perm _ _).mem_iff, h.mem_iff]

theorem eq_struct_of_isStruct {s : Schema} (h : s.isStruct = true) :
    s = struct s.fields s.isOptional := by
  cases s with
  | leaf t o => exact absurd h (by simp [isStruct, fields?])
  | array e o => exact absurd h (by simp [isStruct, fields?])
  | struct fields o => rfl

/-! Only structs have fields, so in what is said of fields the other schemas drop out. -/

theorem WellFormed.of_mem_fields {s : Schema} (h : s.WellFormed) {f : Field}
    (hf : f ∈ s.fields) : f.2.WellFormed := by
  cases s with
  | leaf t o => exact absurd hf List.not_mem_nil
  | array e o => exact absurd hf List.not_mem_nil
  | struct fields o => exact (wellFormed_struct.mp h).2 f hf

/-- What holds everywhere in a schema holds everywhere in its fields. -/
theorem Everywhere.of_mem_fields {s : Schema} (h : s.Everywhere P) {f : Field}
    (hf : f ∈ s.fields) : f.2.Everywhere P := by
  cases s with
  | leaf t o => exact absurd hf List.not_mem_nil
  | array e o => exact absurd hf List.not_mem_nil
  | struct fields o => exact (everywhere_struct.mp h).2 f hf

/-- A field's schema is not as high as the struct, so a recursion on heights can go down to it. -/
theorem height_lt_of_mem_fields {s : Schema} {f : Field} (hf : f ∈ s.fields) :
    f.2.height < s.height := by
  cases s with
  | leaf t o => exact absurd hf List.not_mem_nil
  | array e o => exact absurd hf List.not_mem_nil
  | struct fields o =>
    -- the height of a struct is one more than the greatest among its fields
    rw [height, Nat.lt_succ_iff]
    change f ∈ fields at hf
    induction fields with
    | nil => exact absurd hf List.not_mem_nil
    | cons g rest ih =>
      obtain ⟨name, s⟩ := g
      rw [heightOfFields]
      rcases List.mem_cons.mp hf with rfl | hf
      · exact Nat.le_max_left _ _
      · exact (ih hf).trans (Nat.le_max_right _ _)

/-- A struct is one higher than the schemas of its fields. -/
theorem height_struct_le {fields : List Field} {o : Bool} {n : Nat} :
    (struct fields o).height ≤ n + 1 ↔ ∀ f ∈ fields, f.2.height ≤ n := by
  have hfields : heightOfFields fields ≤ n ↔ ∀ f ∈ fields, f.2.height ≤ n := by
    induction fields with
    | nil => simp [heightOfFields]
    | cons f rest ih =>
      obtain ⟨name, s⟩ := f
      rw [heightOfFields, Nat.max_le, ih, List.forall_mem_cons]
  rw [height, Nat.add_le_add_iff_right, hfields]

end DocStream.Schema
