import DocStream.Proofs.Induction
import DocStream.Proofs.Json.Canonical

/-!
# How deep a value nests

Several parts of this library stop at values whose containers nest too deep, each with a limit of
its own. All of them measure the same thing, which is defined here by itself.

* `Json.nesting` — the number of containers that can be open at once;
* `Json.nesting_arr_le`, `Json.nesting_obj_le` — a container within a limit, part by part;
* `Json.tower` — objects nested in one another, as deep as asked for.

The limits are met in different ways: a counter goes down as a text is read, and one goes up as a
document is converted. Both are stated by `Json.nesting`, the second as what is left of the limit.
-/

namespace DocStream.Json

mutual

/-- **How deep the containers of a value nest**; zero for a scalar. -/
def nesting : Json → Nat
  | null | bool _ | num _ | str _ => 0
  | arr items => nestingOfItems items + 1
  | obj members => nestingOfMembers members + 1

def nestingOfItems : List Json → Nat
  | [] => 0
  | item :: rest => max item.nesting (nestingOfItems rest)

def nestingOfMembers : List (String × Json) → Nat
  | [] => 0
  | (_, item) :: rest => max item.nesting (nestingOfMembers rest)

end

/-- A list nests no deeper than `n` if no item does. -/
theorem nestingOfItems_le {items : List Json} {n : Nat} :
    nestingOfItems items ≤ n ↔ ∀ j ∈ items, j.nesting ≤ n := by
  induction items with
  | nil => simp [nestingOfItems]
  | cons item rest ih => rw [nestingOfItems, Nat.max_le, ih, List.forall_mem_cons]

/-- A list of members nests no deeper than `n` if no value in it does. -/
theorem nestingOfMembers_le {members : Members} {n : Nat} :
    nestingOfMembers members ≤ n ↔ ∀ m ∈ members, m.2.nesting ≤ n := by
  induction members with
  | nil => simp [nestingOfMembers]
  | cons m rest ih =>
    obtain ⟨name, item⟩ := m
    rw [nestingOfMembers, Nat.max_le, ih, List.forall_mem_cons]

variable {maxDepth depth : Nat}

/-- An array is within a limit, some containers being open, if there is room for one more and its
items are within the limit with one more open. -/
theorem nesting_arr_le {items : List Json} : (arr items).nesting ≤ maxDepth - depth ↔
    depth < maxDepth ∧ ∀ j ∈ items, j.nesting ≤ maxDepth - (depth + 1) := by
  rw [← nestingOfItems_le, nesting]
  omega

/-- The same for an object and the values of its members. -/
theorem nesting_obj_le {members : Members} : (obj members).nesting ≤ maxDepth - depth ↔
    depth < maxDepth ∧ ∀ m ∈ members, m.2.nesting ≤ maxDepth - (depth + 1) := by
  rw [← nestingOfMembers_le, nesting]
  omega

/-- Without any room there is no array, not even an empty one. -/
theorem not_nesting_arr_le_zero {items : List Json} : ¬(arr items).nesting ≤ 0 :=
  Nat.not_succ_le_zero _

/-- Without any room there is no object, not even an empty one. -/
theorem not_nesting_obj_le_zero {members : Members} : ¬(obj members).nesting ≤ 0 :=
  Nat.not_succ_le_zero _

/-! ### Towers -/

/-- **Objects nested in one another**, each but the last with the next one as its only member. -/
def tower : Nat → Json
  | 0 => null
  | n + 1 => obj [("a", tower n)]

/-- A tower is canonical, having a single member at each level. -/
theorem canonical_tower (n : Nat) : (tower n).Canonical := by
  induction n with
  | zero => trivial
  | succ n ih =>
    refine canonical_obj.mpr ⟨List.pairwise_singleton _ _, fun m hm => ?_⟩
    obtain rfl := List.mem_singleton.mp hm
    exact ih

end DocStream.Json
