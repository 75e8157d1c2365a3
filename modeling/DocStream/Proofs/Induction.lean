import DocStream.Json.Basic
import DocStream.Value

/-!
# Induction on trees

JSON values, schemas and values are trees whose nodes hold lists of subtrees. These are their
induction principles in the form that proofs use: at a node the statement may be assumed for every
subtree in the list.

* `Json.byParts`, `Schema.byParts`, `Value.byParts`.

The principles that Lean derives for nested types assume the statement of the lists as well, by
further motives. These here have one motive, and what is known of a list is known of its elements,
which is all that proofs ask for. They are derived once, by recursion on sizes.
-/

namespace DocStream

/-- The second part of a pair in a list is smaller than the list. Members, fields, entries and slots
are all such pairs, with the subtree in the second part. -/
theorem sizeOf_snd_lt {α β : Type} [SizeOf α] [SizeOf β] {p : α × β} {ps : List (α × β)}
    (h : p ∈ ps) : sizeOf p.2 < sizeOf ps := by
  have hlt := List.sizeOf_lt_of_mem h
  have hp : sizeOf p = 1 + sizeOf p.1 + sizeOf p.2 := rfl
  omega

/-- **Induction on JSON values.** At an array the statement may be assumed for its items, at an
object for the values of its members. -/
@[elab_as_elim]
theorem Json.byParts {P : Json → Prop} (null : P .null) (bool : ∀ b, P (.bool b))
    (num : ∀ n, P (.num n)) (str : ∀ s, P (.str s))
    (arr : ∀ items, (∀ j ∈ items, P j) → P (.arr items))
    (obj : ∀ members, (∀ m ∈ members, P m.2) → P (.obj members)) : ∀ j, P j
  | .null => null
  | .bool b => bool b
  | .num n => num n
  | .str s => str s
  | .arr items => arr items fun j _ => byParts null bool num str arr obj j
  | .obj members => obj members fun m _ => byParts null bool num str arr obj m.2
termination_by j => sizeOf j
decreasing_by
  · have := List.sizeOf_lt_of_mem ‹_ ∈ items›
    simp only [Json.arr.sizeOf_spec]
    omega
  · have := sizeOf_snd_lt ‹_ ∈ members›
    simp only [Json.obj.sizeOf_spec]
    omega

/-- **Induction on schemas.** At an array the statement may be assumed for the schema of its items,
at a struct for those of its fields. -/
@[elab_as_elim]
theorem Schema.byParts {P : Schema → Prop} (leaf : ∀ t o, P (.leaf t o))
    (array : ∀ e o, P e → P (.array e o))
    (struct : ∀ fields o, (∀ f ∈ fields, P f.2) → P (.struct fields o)) : ∀ s, P s
  | .leaf t o => leaf t o
  | .array e o => array e o (byParts leaf array struct e)
  | .struct fields o => struct fields o fun f _ => byParts leaf array struct f.2
termination_by s => sizeOf s
decreasing_by
  · simp only [Schema.array.sizeOf_spec]
    omega
  · have := sizeOf_snd_lt ‹_ ∈ fields›
    simp only [Schema.struct.sizeOf_spec]
    omega

/-- **Induction on values.** All leaves are taken together, as what is told of containers tends to
hold of every leaf for one reason. -/
@[elab_as_elim]
theorem Value.byParts {P : Value → Prop}
    (leaf : ∀ v, (∀ items, v ≠ .array items) → (∀ entries, v ≠ .map entries) →
      (∀ slots o, v ≠ .record slots o) → P v)
    (array : ∀ items, (∀ v ∈ items, P v) → P (.array items))
    (map : ∀ entries, (∀ e ∈ entries, P e.2) → P (.map entries))
    (record : ∀ slots o, (∀ slot ∈ slots, P slot.2) → P (.record slots o)) : ∀ v, P v
  | .array items => array items fun v _ => byParts leaf array map record v
  | .map entries => map entries fun e _ => byParts leaf array map record e.2
  | .record slots o => record slots o fun slot _ => byParts leaf array map record slot.2
  | .null | .boolean _ | .int _ | .float32 _ | .float64 _ | .string _ | .bytes _ | .bigint _
  | .decimal _ | .timestamp _ => leaf _ (fun _ => nofun) (fun _ => nofun) (fun _ _ => nofun)
termination_by v => sizeOf v
decreasing_by
  · have := List.sizeOf_lt_of_mem ‹_ ∈ items›
    simp only [Value.array.sizeOf_spec]
    omega
  · have := sizeOf_snd_lt ‹_ ∈ entries›
    simp only [Value.map.sizeOf_spec]
    omega
  · have := sizeOf_snd_lt ‹_ ∈ slots›
    simp only [Value.record.sizeOf_spec]
    omega

end DocStream
