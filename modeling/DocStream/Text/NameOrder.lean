/-!
# Order by name

Sorting a list by names that its elements carry. The sort is stable: elements of one name stay in
the order given. Names are ordered as strings, by code points.

* `NameOrder.insert` — an element put into its place, after those of its own name;
* `NameOrder.sort` — all elements put into their places, one after the other.
-/

namespace DocStream.NameOrder

variable {α : Type}

/-- **An element put into its place** in a list in order, behind all elements that do not come after
it. -/
def insert (name : α → String) (a : α) : List α → List α
  | [] => [a]
  | b :: rest => if name a < name b then a :: b :: rest else b :: insert name a rest

/-- **The elements sorted by name**, stably: one after the other is put into its place, so of
elements of one name the later goes behind. -/
def sort (name : α → String) (as : List α) : List α :=
  as.foldl (fun sorted a => insert name a sorted) []

@[simp] theorem insert_nil (name : α → String) (a : α) : insert name a [] = [a] := rfl

@[simp] theorem sort_nil (name : α → String) : sort name [] = [] := rfl

/-- Putting an element into its place adds it and nothing else. -/
theorem insert_perm (name : α → String) (a : α) (as : List α) :
    (insert name a as).Perm (a :: as) := by
  induction as with
  | nil => simp
  | cons b rest ih =>
    by_cases h : name a < name b
    · simp [insert, h]
    · simp only [insert, h, if_false]
      exact (ih.cons b).trans (List.Perm.swap a b rest)

/-- **Sorting rearranges.** -/
theorem sort_perm (name : α → String) (as : List α) : (sort name as).Perm as := by
  suffices h : ∀ sorted, (as.foldl (fun s a => insert name a s) sorted).Perm (sorted ++ as) by
    simpa [sort] using h []
  induction as with
  | nil => simp
  | cons a rest ih =>
    intro sorted
    refine (ih _).trans ?_
    refine ((insert_perm name a sorted).append_right rest).trans ?_
    exact List.perm_middle.symm

/-- Renaming the elements along a map that keeps their names does not change where they go. -/
theorem map_insert {β : Type} (name : α → String) (other : β → String) (f : α → β)
    (h : ∀ a, other (f a) = name a) (a : α) (as : List α) :
    (insert name a as).map f = insert other (f a) (as.map f) := by
  induction as with
  | nil => rfl
  | cons b rest ih =>
    by_cases hab : name a < name b
    · simp [insert, hab, h]
    · simp [insert, hab, h, ih]

/-- Sorting and then mapping is mapping and then sorting, if the map keeps names. -/
theorem map_sort {β : Type} (name : α → String) (other : β → String) (f : α → β)
    (h : ∀ a, other (f a) = name a) (as : List α) :
    (sort name as).map f = sort other (as.map f) := by
  suffices key : ∀ sorted, (as.foldl (fun s a => insert name a s) sorted).map f
      = (as.map f).foldl (fun s b => insert other b s) (sorted.map f) from key []
  induction as with
  | nil => simp
  | cons a rest ih =>
    intro sorted
    simp only [List.foldl_cons, List.map_cons]
    rw [ih, map_insert name other f h]

end DocStream.NameOrder
