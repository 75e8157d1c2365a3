import DocStream.Json.Basic
import DocStream.Text.NameOrder
import Mathlib.Data.List.Nodup
import Mathlib.Data.String.Basic

/-!
# Lists in order of their names

Members, fields and slots are lists whose elements carry a name. Where the names are distinct, a
look-up by name finds exactly the elements of the list, and where they ascend, putting the list in
order changes nothing.

* `foldl_of_pairwise` — inserted element by element, a list in order stays as it is;
* `NameOrder.ascending_sort` — sorting puts distinct names in ascending order;
* `NameOrder.sorted_sort`, `NameOrder.sort_of_sorted` — sorting once is enough;
* `lookup_eq_some_iff_mem` — looking up is membership;
* `Replaces.lookup` — what is found after a pair was put in place of another.

There are three lists of this kind in the library, and all of them are looked up and put in order in
the same ways. What depends on the names alone is proved here, for pairs or for any list with a
function that gives the names.
-/

namespace DocStream

theorem StrictlyAscending.nodup {names : List String} (h : StrictlyAscending names) :
    names.Nodup :=
  h.imp fun hlt => ne_of_lt hlt

/-- **A list in order stays as it is** when it is inserted element by element, whatever the order
and the insertion, if that puts an element which comes after all others at the end. -/
theorem foldl_of_pairwise {α : Type} {R : α → α → Prop} {put : List α → α → List α}
    (hput : ∀ a as, (∀ b ∈ as, R b a) → put as a = as ++ [a]) {as : List α}
    (h : as.Pairwise R) : as.foldl put [] = as := by
  -- what has been inserted so far stays in front of what is still to come
  suffices key : ∀ done, (done ++ as).Pairwise R → as.foldl put done = done ++ as from key [] h
  clear h
  induction as with
  | nil =>
    intro done _
    rw [List.foldl_nil, List.append_nil]
  | cons a rest ih =>
    intro done h
    have hlast : put done a = done ++ [a] := by
      apply hput
      intro b hb
      rw [List.pairwise_append] at h
      exact h.2.2 b hb a List.mem_cons_self
    rw [List.foldl_cons, hlast, ih _ (by rwa [List.append_assoc]), List.append_assoc]
    rfl

/-- Lists in order of their names are equal if they have the same elements. So an object is told by
its members, and a struct by its fields. -/
theorem eq_of_ascending {α : Type} {name : α → String} {as bs : List α}
    (ha : StrictlyAscending (as.map name)) (hb : StrictlyAscending (bs.map name))
    (h : ∀ a, a ∈ as ↔ a ∈ bs) : as = bs := by
  -- the elements are the same ones, and their order is fixed by the names
  have hperm : as.Perm bs :=
    (List.perm_ext_iff_of_nodup (.of_map name ha.nodup) (.of_map name hb.nodup)).mpr h
  exact hperm.eq_of_pairwise (fun a b _ _ hab hba => absurd hab (lt_asymm hba))
    (List.pairwise_map.mp ha) (List.pairwise_map.mp hb)

/-! ### Sorting -/

namespace NameOrder

variable {α : Type} {name : α → String}

/-- An element whose name comes before no other goes to the end, behind those of its own name. -/
theorem insert_of_forall_le {a : α} {as : List α} (h : ∀ b ∈ as, name b ≤ name a) :
    insert name a as = as ++ [a] := by
  induction as with
  | nil => rfl
  | cons b rest ih =>
    have hb : ¬ name a < name b := not_lt.mpr (h b List.mem_cons_self)
    rw [insert, if_neg hb, ih fun c hc => h c (List.mem_cons_of_mem b hc), List.cons_append]

/-- **Sorting changes nothing** where the names are in order, repeated ones included. -/
theorem sort_of_sorted {as : List α} (h : (as.map name).Pairwise (· ≤ ·)) : sort name as = as :=
  foldl_of_pairwise (R := fun b a => name b ≤ name a) (fun _ _ => insert_of_forall_le)
    (List.pairwise_map.mp h)

theorem sort_of_ascending {as : List α} (h : StrictlyAscending (as.map name)) :
    sort name as = as :=
  sort_of_sorted (h.imp le_of_lt)

/-- Putting an element in at its place keeps the order of the names. -/
theorem sorted_insert {a : α} {as : List α} (h : (as.map name).Pairwise (· ≤ ·)) :
    ((insert name a as).map name).Pairwise (· ≤ ·) := by
  induction as with
  | nil => exact List.pairwise_singleton _ _
  | cons b rest ih =>
    rw [List.map_cons, List.pairwise_cons] at h
    by_cases hab : name a < name b
    · -- `a` goes in front, and its name is below that of `b` and hence below all others
      rw [insert, if_pos hab, List.map_cons, List.map_cons, List.pairwise_cons, List.pairwise_cons]
      refine ⟨fun n hn => ?_, h⟩
      rcases List.mem_cons.mp hn with rfl | hn
      · exact hab.le
      · exact hab.le.trans (h.1 n hn)
    · -- `b` stays in front
      rw [insert, if_neg hab, List.map_cons, List.pairwise_cons]
      refine ⟨fun n hn => ?_, ih h.2⟩
      rcases List.mem_cons.mp (((insert_perm name a rest).map name).mem_iff.mp hn) with rfl | hn
      · exact not_lt.mp hab
      · exact h.1 n hn

/-- **Sorting puts names in order**, repeated ones included. -/
theorem sorted_sort (as : List α) : ((sort name as).map name).Pairwise (· ≤ ·) := by
  suffices key : ∀ sorted, (sorted.map name).Pairwise (· ≤ ·) →
      ((as.foldl (fun s a => insert name a s) sorted).map name).Pairwise (· ≤ ·) from
    key [] List.Pairwise.nil
  -- from left to right, what has been sorted so far is in order
  induction as with
  | nil => exact fun sorted h => h
  | cons a rest ih => exact fun sorted h => ih _ (sorted_insert h)

/-- **Sorting puts distinct names in ascending order.** -/
theorem ascending_sort {as : List α} (h : (as.map name).Nodup) :
    StrictlyAscending ((sort name as).map name) := by
  have hdistinct : ((sort name as).map name).Nodup :=
    ((sort_perm name as).map name).nodup_iff.mpr h
  exact ((sorted_sort as).and hdistinct).imp fun hn => lt_of_le_of_ne hn.1 hn.2

end NameOrder

/-! ### Looking up -/

/-- **Looking up is membership**, if the names are distinct. Otherwise a look-up finds the first
pair of a name and membership any of them. -/
theorem lookup_eq_some_iff_mem {β : Type} {ps : List (String × β)}
    (h : (ps.map Prod.fst).Nodup) {name : String} {v : β} :
    ps.lookup name = some v ↔ (name, v) ∈ ps := by
  induction ps with
  | nil => simp
  | cons p rest ih =>
    obtain ⟨k, w⟩ := p
    rw [List.map_cons, List.nodup_cons] at h
    rw [List.lookup_cons, List.mem_cons]
    by_cases hk : name = k
    · -- the first pair has the name, and no later one does
      subst hk
      have hout : (name, v) ∉ rest := fun hm => h.1 (List.mem_map.mpr ⟨_, hm, rfl⟩)
      rw [beq_self_eq_true, Option.some_inj, Prod.mk.injEq]
      exact ⟨fun hv => .inl ⟨rfl, hv.symm⟩, fun hm => (hm.resolve_right hout).2.symm⟩
    · rw [beq_false_of_ne hk, Prod.mk.injEq, ih h.2]
      exact ⟨.inr, fun hm => hm.resolve_left fun heq => hk heq.1⟩

/-- A name that no pair has is not found. -/
theorem lookup_eq_none_of_notMem {β : Type} {ps : List (String × β)} {name : String}
    (h : name ∉ ps.map Prod.fst) : ps.lookup name = none := by
  refine List.lookup_eq_none_iff.mpr fun p hp => bne_iff_ne.mpr ?_
  rintro rfl
  exact h (List.mem_map_of_mem hp)

/-! ### Replacing -/

/-- **A replacement**: an operation that puts a pair in place of the one of its name, or at the end
if there is none. Slots are set in this way in several places, and what is found afterwards is the
same in all of them. -/
structure Replaces {β : Type} (put : List (String × β) → List (String × β)) (name : String)
    (v : β) : Prop where
  nil : put [] = [(name, v)]
  cons : ∀ p rest, put (p :: rest) = if p.1 = name then (name, v) :: rest else p :: put rest

namespace Replaces

variable {β : Type} {put : List (String × β) → List (String × β)} {name : String} {v : β}

/-- **A replacement is found under its name**, and all other names are as before. It does not matter
how the operation gets there. -/
theorem lookup (h : Replaces put name v) (ps : List (String × β)) (other : String) :
    (put ps).lookup other = if other = name then some v else ps.lookup other := by
  induction ps with
  | nil =>
    rw [h.nil, List.lookup_cons]
    split <;> simp_all
  | cons p rest ih =>
    rw [h.cons]
    split
    · next hp =>
      rw [List.lookup_cons, List.lookup_cons, hp]
      split <;> simp_all
    · next hp =>
      rw [List.lookup_cons, List.lookup_cons, ih]
      split
      · next heq => rw [if_neg fun ho => hp ((beq_iff_eq.mp heq).symm.trans ho)]
      · rfl

/-- A replacement adds no name but its own, and leaves the names in their places. -/
theorem map_fst (h : Replaces put name v) (ps : List (String × β)) :
    (put ps).map Prod.fst =
      if name ∈ ps.map Prod.fst then ps.map Prod.fst else ps.map Prod.fst ++ [name] := by
  induction ps with
  | nil =>
    rw [h.nil]
    rfl
  | cons p rest ih =>
    rw [h.cons]
    split
    · next hp => simp [hp]
    · next hp =>
      simp only [List.map_cons, ih, List.mem_cons, Ne.symm hp, false_or]
      split <;> rfl

theorem nodup (h : Replaces put name v) {ps : List (String × β)} (hps : (ps.map Prod.fst).Nodup) :
    ((put ps).map Prod.fst).Nodup := by
  rw [h.map_fst]
  -- the name is there already, or it is new and goes to the end
  split
  · exact hps
  · next hnew =>
    refine List.nodup_append.mpr ⟨hps, List.pairwise_singleton _ _, fun n hn m hm heq => hnew ?_⟩
    rwa [← List.mem_singleton.mp hm, ← heq]

end Replaces

namespace Members

/-- A name that comes after all others is set at the end. -/
theorem insert_of_forall_lt {name : String} {value : Json} {ms : Members}
    (h : ∀ m ∈ ms, m.1 < name) : insert name value ms = ms ++ [(name, value)] := by
  induction ms with
  | nil => rfl
  | cons m rest ih =>
    have hm : m.1 < name := h m List.mem_cons_self
    rw [insert, if_neg (ne_of_gt hm), if_neg (lt_asymm hm),
      ih fun c hc => h c (List.mem_cons_of_mem m hc), List.cons_append]

/-- Members in order stay as they are when an object is put together from them. For what has been
read or written in order this says that nothing moves. -/
theorem ofList_of_ascending {ms : List (String × Json)}
    (h : StrictlyAscending (ms.map Prod.fst)) : ofList ms = ms :=
  foldl_of_pairwise (R := fun m' m => m'.1 < m.1)
    (fun m done hm => (insert_of_forall_lt hm : insert m.1 m.2 done = _)) (List.pairwise_map.mp h)

/-- Looking a name up is membership, if the names ascend. -/
theorem get?_eq_some_iff_mem {ms : Members} (h : StrictlyAscending (ms.map Prod.fst))
    {name : String} {j : Json} : ms.get? name = some j ↔ (name, j) ∈ ms :=
  lookup_eq_some_iff_mem h.nodup

end Members

end DocStream
