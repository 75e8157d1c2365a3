import Mathlib.Data.List.Forall2

/-!
# Related lists

Lists of one length whose elements are related place by place. Whatever turns a list into another
one element by element is stated in this way, and these lemmas put such statements together.

* `exists_of_forall₂` — the element that an element on the right comes from;
* `forall₂_trans` and `forall₂_between` — two relations in a row, put together and taken apart;
* `forall₂_zip` — two lists related to one, taken together;
* `map_eq_map_of_forall₂` — what related elements have in common.

These lemmas are about lists alone. Nearly every walk through a document, a schema or a value has a
list at each node, and the induction there gives related elements: the lemmas turn them into related
lists, and back.
-/

namespace DocStream

/-- An element on the right of two related lists has a partner on the left. Where the partner on the
right is asked for, the relation is turned around. -/
theorem exists_of_forall₂ {α β : Type} {R : α → β → Prop} {as : List α} {bs : List β}
    (h : List.Forall₂ R as bs) {b : β} (hb : b ∈ bs) : ∃ a ∈ as, R a b := by
  obtain ⟨i, hi, rfl⟩ := List.mem_iff_getElem.mp hb
  have hlen := h.length_eq
  exact ⟨as[i], List.getElem_mem _, h.get (by omega) hi⟩

/-- The elements at one place of two lists make up a pair of the zipped list. -/
theorem getElem_mem_zip {α β : Type} {as : List α} {bs : List β} {i : Nat} (h : i < as.length)
    (h' : i < bs.length) : (as[i], bs[i]) ∈ as.zip bs := by
  rw [← List.getElem_zip (h := by rw [List.length_zip]; omega)]
  exact List.getElem_mem _

/-- Partners for the elements of a list make up a related list, one for each element and in the same
order. -/
theorem forall₂_of_forall_exists {α β : Type} {R : α → β → Prop} {as : List α}
    (h : ∀ a ∈ as, ∃ b, R a b) : ∃ bs, List.Forall₂ R as bs := by
  induction as with
  | nil => exact ⟨[], .nil⟩
  | cons a rest ih =>
    obtain ⟨b, hb⟩ := h a List.mem_cons_self
    obtain ⟨bs, hbs⟩ := ih fun a ha => h a (List.mem_cons_of_mem _ ha)
    exact ⟨b :: bs, .cons hb hbs⟩

/-- Related lists are related in every way in which their related elements are. Only elements of the
two lists have to be looked at. -/
theorem forall₂_imp_of_mem {α β : Type} {R S : α → β → Prop} {as : List α} {bs : List β}
    (h : List.Forall₂ R as bs) (hS : ∀ a ∈ as, ∀ b ∈ bs, R a b → S a b) :
    List.Forall₂ S as bs := by
  induction h with
  | nil => exact .nil
  | cons hab _ ih =>
    refine .cons (hS _ List.mem_cons_self _ List.mem_cons_self hab) (ih fun a ha b hb => ?_)
    exact hS a (List.mem_cons_of_mem _ ha) b (List.mem_cons_of_mem _ hb)

/-- Elements between related elements make up a list between the lists. -/
theorem forall₂_between {α β γ : Type} {S : β → γ → Prop} {T : α → γ → Prop} {as : List α}
    {bs : List β} (h : List.Forall₂ (fun a b => ∃ c, S b c ∧ T a c) as bs) :
    ∃ cs, List.Forall₂ S bs cs ∧ List.Forall₂ T as cs := by
  induction h with
  | nil => exact ⟨[], .nil, .nil⟩
  | cons hab _ ih =>
    obtain ⟨c, hS, hT⟩ := hab
    obtain ⟨cs, hSs, hTs⟩ := ih
    exact ⟨c :: cs, .cons hS hSs, .cons hT hTs⟩

/-- Relations between lists compose, if those between their elements do. -/
theorem forall₂_trans {α β γ : Type} {R : α → β → Prop} {S : β → γ → Prop} {T : α → γ → Prop}
    {as : List α} {bs : List β} {cs : List γ} (h : List.Forall₂ R as bs)
    (h' : List.Forall₂ S bs cs) (hT : ∀ a, ∀ b ∈ bs, ∀ c, R a b → S b c → T a c) :
    List.Forall₂ T as cs := by
  induction h generalizing cs with
  | nil =>
    cases h'
    exact .nil
  | cons hab _ ih =>
    cases h' with
    | cons hbc htail =>
      refine .cons (hT _ _ List.mem_cons_self _ hab hbc) (ih htail fun a b hb => ?_)
      exact hT a b (List.mem_cons_of_mem _ hb)

/-- A list that is related to two others is related to the list of their pairs. -/
theorem forall₂_zip {α β γ : Type} {R : α → β → Prop} {S : α → γ → Prop} {as : List α}
    {bs : List β} {cs : List γ} (h : List.Forall₂ R as bs) (h' : List.Forall₂ S as cs) :
    List.Forall₂ (fun a p => R a p.1 ∧ S a p.2) as (bs.zip cs) := by
  induction h generalizing cs with
  | nil => exact .nil
  | cons hab _ ih =>
    cases h' with
    | cons hac htail => exact .cons ⟨hab, hac⟩ (ih htail)

/-- Two lists whose related elements agree on something have it in common, in the same order. -/
theorem map_eq_map_of_forall₂ {α β γ : Type} {f : α → γ} {g : β → γ} {as : List α} {bs : List β}
    (h : List.Forall₂ (fun a b => f a = g b) as bs) : as.map f = bs.map g := by
  rw [← List.forall₂_eq_eq_eq, List.forall₂_map_left_iff, List.forall₂_map_right_iff]
  exact h

end DocStream
