import DocStream.Proofs.Convert.Reconciling
import DocStream.Proofs.Convert.Typing

/-!
# Documents whose arrays are reordered

The items of arrays may be put in another order, at any depth and in each array in its own way. Such
a reordering is given as a tree that follows the document, and it can be applied to the document and
to the value that the document is nested to. The schema of a nested document does not depend on the
order of items, and the value is reordered as the document is.

* `Reordering` — **orders for the arrays of a document**, with `Json.reorder` and `Value.reorder`;
* `Reordering.Fits` — the orders have each item once, and `Reordering.FitsValue`;
* `Value.conformTo_reorder` — rebuilding a record takes no notice of the order of items;
* `Json.nest_reorder_iff` — **nesting a reordered document**;
* `ConversionSettings.convert_reorder_iff` — the same for conversions.

The plan is one commutation after the other: setting a field, carrying slots over and rebuilding a
record commute with reordering, and so does bringing items together, as neither the merge nor the
test for one schema knows an order. Nesting then follows the tree of the reordering, with the
equivalences for containers at each step. That a reordering fits is needed at arrays only, where an
item that is left out or taken twice would change the schemas.
-/

namespace DocStream

/-! ### Lists -/

section Lists

variable {α β : Type}

/-- The elements of a list at the given places, one after the other. -/
def pick (order : List Nat) (as : List α) : List α := order.filterMap fun i => as[i]?

theorem pick_nil (order : List Nat) : pick order ([] : List α) = [] :=
  List.filterMap_eq_nil_iff.mpr fun _ _ => rfl

theorem pick_map (f : α → β) (order : List Nat) (as : List α) :
    pick order (as.map f) = (pick order as).map f := by
  rw [pick, pick, List.map_filterMap]
  exact List.filterMap_congr fun i _ => List.getElem?_map

/-- Picking all places in order gives the list back. -/
theorem pick_range (as : List α) : pick (List.range as.length) as = as := by
  induction as with
  | nil => rfl
  | cons a as ih =>
    rw [pick, List.length_cons, List.range_succ_eq_map, List.filterMap_cons, List.filterMap_map]
    exact congrArg (a :: ·) ih

/-- **Picking each place once rearranges.** -/
theorem pick_perm {order : List Nat} {as : List α} (h : order.Perm (List.range as.length)) :
    (pick order as).Perm as :=
  (h.filterMap _).trans (.of_eq (pick_range as))

variable {R : α → β → Prop} {as : List α} {bs : List β}

/-- Related lists stay related when the same places are picked from both. -/
theorem forall₂_pick (h : List.Forall₂ R as bs) (order : List Nat) :
    List.Forall₂ R (pick order as) (pick order bs) := by
  have hlen := h.length_eq
  induction order with
  | nil => exact .nil
  | cons i order ih =>
    rw [pick, pick, List.filterMap_cons, List.filterMap_cons]
    -- a place beyond the end gives nothing, on both sides
    by_cases hi : i < as.length
    · rw [List.getElem?_eq_getElem hi, List.getElem?_eq_getElem (hlen ▸ hi)]
      exact .cons (h.get hi (hlen ▸ hi)) ih
    · rw [List.getElem?_eq_none (Nat.le_of_not_lt hi),
        List.getElem?_eq_none (hlen ▸ Nat.le_of_not_lt hi)]
      exact ih

/-- **Related lists, changed place by place and reordered.** If a change on the left goes along with
one on the right, then what the changed and reordered list is related to is what the list itself is
related to, changed and reordered. -/
theorem forall₂_pick_mapIdx_iff {α' β' : Type} {S : α' → β' → Prop} {f : Nat → α → α'}
    {g : Nat → β → β'} {order : List Nat} (horder : order.Perm (List.range as.length))
    (hunique : Relator.RightUnique S)
    (h : ∀ i a, as[i]? = some a → ∀ b', S (f i a) b' ↔ ∃ b, R a b ∧ b' = g i b) {bs' : List β'} :
    List.Forall₂ S (pick order (as.mapIdx f)) bs' ↔
      ∃ bs, List.Forall₂ R as bs ∧ bs' = pick order (bs.mapIdx g) := by
  have hchanged : ∀ {bs}, List.Forall₂ R as bs →
      List.Forall₂ S (pick order (as.mapIdx f)) (pick order (bs.mapIdx g)) := by
    intro bs hbs
    have hlen := hbs.length_eq
    refine forall₂_pick (List.forall₂_iff_get.mpr ⟨by simp [hlen], fun i hi hi' => ?_⟩) order
    have hlt : i < as.length := by simpa using hi
    rw [List.get_eq_getElem, List.get_eq_getElem, List.getElem_mapIdx, List.getElem_mapIdx]
    exact (h i _ (List.getElem?_eq_getElem hlt) _).mpr ⟨_, hbs.get hlt (hlen ▸ hlt), rfl⟩
  constructor
  · intro hpicked
    -- every place was picked, so everything on the left has a partner
    have hpartner : ∀ a ∈ as, ∃ b, R a b := by
      intro a ha
      obtain ⟨i, hi, rfl⟩ := List.mem_iff_getElem.mp ha
      have hmem : f i as[i] ∈ pick order (as.mapIdx f) := by
        have hperm : (pick order (as.mapIdx f)).Perm (as.mapIdx f) :=
          pick_perm (by rwa [List.length_mapIdx])
        exact hperm.mem_iff.mpr (List.mem_mapIdx.mpr ⟨i, hi, rfl⟩)
      obtain ⟨b', -, hb'⟩ := exists_of_forall₂ hpicked.flip hmem
      obtain ⟨b, hb, -⟩ := (h i _ (List.getElem?_eq_getElem hi) b').mp hb'
      exact ⟨b, hb⟩
    obtain ⟨bs, hbs⟩ := forall₂_of_forall_exists hpartner
    exact ⟨bs, hbs, hunique.forall₂ hpicked (hchanged hbs)⟩
  · rintro ⟨bs, hbs, rfl⟩
    exact hchanged hbs

end Lists

/-! ### Reorderings -/

/-- **Orders for the arrays of a document**, as a tree that follows the document. At an array it
gives the places of the items in their new order, and for each place a reordering of the item that
was there; at an object, a reordering for the member of each name. -/
inductive Reordering where
  /-- All arrays stay as they are. -/
  | keep
  | array (order : List Nat) (part : Nat → Reordering)
  | object (part : String → Reordering)

/-- **A document with its arrays reordered.** Where the document is of another kind than the
reordering says, it stays as it is. -/
def Json.reorder : Reordering → Json → Json
  | .array order part, .arr items =>
    .arr (pick order (items.mapIdx fun i j => reorder (part i) j))
  | .object part, .obj members => .obj (members.map fun m => (m.1, reorder (part m.1) m.2))
  | _, d => d

/-- **A value with its arrays reordered**: records stand where the document has objects. -/
def Value.reorder : Reordering → Value → Value
  | .array order part, .array items =>
    .array (pick order (items.mapIdx fun i v => reorder (part i) v))
  | .object part, .record slots o =>
    .record (slots.map fun slot => (slot.1, reorder (part slot.1.1) slot.2)) o
  | _, v => v

namespace Reordering

/-- **A reordering fits a document** if at every array that it reorders each place occurs once. -/
def Fits : Reordering → Json → Prop
  | array order part, .arr items =>
    order.Perm (List.range items.length) ∧ ∀ i j, items[i]? = some j → (part i).Fits j
  | object part, .obj members => ∀ m ∈ members, (part m.1).Fits m.2
  | _, _ => True

/-- Two items may change places, if what is done within them fits. -/
theorem fits_swap {part : Nat → Reordering} {x y : Json} (hx : (part 0).Fits x)
    (hy : (part 1).Fits y) : (array [1, 0] part).Fits (.arr [x, y]) := by
  refine ⟨.swap 0 1 [], fun i j hj => ?_⟩
  match i with
  | 0 => exact Option.some.inj hj ▸ hx
  | 1 => exact Option.some.inj hj ▸ hy
  | i + 2 => exact nomatch hj

/-- A reordering fits a value under the same condition. -/
def FitsValue : Reordering → Value → Prop
  | array order part, .array items =>
    order.Perm (List.range items.length) ∧ ∀ i v, items[i]? = some v → (part i).FitsValue v
  | object part, .record slots _ => ∀ slot ∈ slots, (part slot.1.1).FitsValue slot.2
  | _, _ => True

end Reordering

/-! ### Records -/

theorem Value.reorder_keep (v : Value) : v.reorder .keep = v := by
  cases v <;> rfl

/-- In a leaf there is nothing to reorder. -/
theorem Value.reorder_of_ofLeaf {v : Value} {s : Schema} (h : Schema.ofLeaf v = .ok s)
    (ρ : Reordering) : v.reorder ρ = v := by
  cases v with
  | array | map | record => cases h
  | _ => cases ρ <;> rfl

theorem Value.reorder_null (ρ : Reordering) : Value.null.reorder ρ = .null :=
  reorder_of_ofLeaf (s := Schema.ofNull) rfl ρ

/-- Every reordering fits a leaf. -/
theorem Reordering.fitsValue_of_ofLeaf {v : Value} {s : Schema} (h : Schema.ofLeaf v = .ok s)
    (ρ : Reordering) : ρ.FitsValue v := by
  cases v with
  | array | map | record => cases h
  | _ => cases ρ <;> exact trivial

namespace Record

/-- A record with the arrays of its values reordered, field by field. The fields themselves stay in
their order. -/
def reorder (part : String → Reordering) (r : Record) : Record :=
  ⟨r.slots.map fun slot => (slot.1, slot.2.reorder (part slot.1.1)), r.optional⟩

variable (part : String → Reordering)

/-- The schema of a record does not speak of its values. -/
theorem schema_reorder (r : Record) : (r.reorder part).schema = r.schema := by
  simp only [schema, reorder, List.map_map, Function.comp_def]

/-- A value that is set is reordered as the field of its name. -/
theorem setSlot?_reorder (name : String) (v : Value) (slots : List Slot) :
    setSlot? name (v.reorder (part name))
        (slots.map fun slot => (slot.1, slot.2.reorder (part slot.1.1))) =
      (setSlot? name v slots).map
        (List.map fun slot => (slot.1, slot.2.reorder (part slot.1.1))) := by
  induction slots with
  | nil => rfl
  | cons slot rest ih =>
    obtain ⟨f, w⟩ := slot
    rw [List.map_cons, setSlot?, setSlot?]
    split
    · next hf =>
      subst hf
      rfl
    · rw [ih, Option.map_map, Option.map_map]
      rfl

/-- Setting a field and reordering can be done in either order. -/
theorem put?_reorder (r : Record) (name : String) (v : Value) :
    (r.reorder part).put? name (v.reorder (part name)) = reorder part <$> r.put? name v := by
  rw [put?, put?, schema_reorder]
  have hset := setSlot?_reorder part name v r.slots
  rw [show (r.reorder part).slots = r.slots.map fun slot =>
    (slot.1, slot.2.reorder (part slot.1.1)) from rfl, hset]
  cases setSlot? name v r.slots <;> rfl

/-- In a blank record there is nothing to reorder. -/
theorem blank?_reorder (s : Schema) : reorder part <$> blank? s = blank? s := by
  cases s with
  | leaf | array => rfl
  | struct fields o =>
    show Except.ok (reorder part (ofFields fields o)) = _
    simp only [reorder, ofFields, List.map_map, Function.comp_def, Value.reorder_null]
    rfl

end Record

namespace Value

/-- Slots are carried over as they would be without a reordering, and their values are reordered. By
induction on the slots, with the record that has been filled so far kept general. -/
theorem carryOver_reorder (part : String → Reordering) (t : Schema) {slots : List Slot}
    (h : ∀ slot ∈ slots, ∀ t ρ, conformTo t (slot.2.reorder ρ) = reorder ρ <$> conformTo t slot.2)
    (into : Record) :
    carryOver t (into.reorder part)
        (slots.map fun slot => (slot.1, slot.2.reorder (part slot.1.1))) =
      Record.reorder part <$> carryOver t into slots := by
  induction slots generalizing into with
  | nil => rfl
  | cons slot rest ih =>
    obtain ⟨⟨name, schema⟩, v⟩ := slot
    have hrest := ih fun slot hslot => h slot (List.mem_cons_of_mem _ hslot)
    have hslot := h _ List.mem_cons_self
    -- once the value of this slot is known, it is set and the rest is carried over
    have hput : ∀ w : Value, ((into.reorder part).put? name (w.reorder (part name)) >>= fun into =>
        carryOver t into (rest.map fun slot => (slot.1, slot.2.reorder (part slot.1.1)))) =
        Record.reorder part <$> (into.put? name w >>= fun into => carryOver t into rest) := by
      intro w
      rw [Record.put?_reorder]
      cases into.put? name w with
      | error e => rfl
      | ok next => exact hrest next
    rw [List.map_cons, carryOver, carryOver]
    split
    · rfl
    · next s _ =>
      split
      · rw [hslot]
        cases conformTo s v with
        | error e => rfl
        | ok w => exact hput w
      · exact hput v

/-- **Rebuilding takes no notice of the order of items**: a reordered value is rebuilt to what the
value is rebuilt to, reordered. By induction on the value; an array is not rebuilt at all, so its
new order stays. -/
theorem conformTo_reorder (t : Schema) (ρ : Reordering) (v : Value) :
    conformTo t (v.reorder ρ) = reorder ρ <$> conformTo t v := by
  induction v using Value.byParts generalizing t ρ with
  | leaf v harray _ hrecord =>
    cases v with
    | array items => exact absurd rfl (harray items)
    | record slots o => exact absurd rfl (hrecord slots o)
    | _ => cases ρ <;> rfl
  | array items | map entries => cases ρ <;> rfl
  | record slots o ih =>
    cases ρ with
    | keep =>
      rw [reorder_keep, funext reorder_keep]
      exact (id_map _).symm
    | array order part =>
      -- a record is rebuilt as a record
      show conformTo t (.record slots o) = _
      rw [conformTo]
      split
      · rfl
      · cases Record.blank? t with
        | error e => rfl
        | ok blank =>
          show (carryOver t blank slots >>= fun r => pure r.toValue) =
            reorder _ <$> (carryOver t blank slots >>= fun r => pure r.toValue)
          cases carryOver t blank slots <;> rfl
    -- the record is rebuilt from its reordered slots, into a blank that has nothing to reorder
    | object part =>
      have hslots := carryOver_reorder part t ih
      have hfields : (slots.map fun slot => (slot.1, slot.2.reorder (part slot.1.1))).map Prod.fst =
          slots.map Prod.fst := by
        rw [List.map_map]
        rfl
      show conformTo t (.record _ o) = _
      rw [conformTo, conformTo, hfields]
      split
      · rfl
      · have hblank := Record.blank?_reorder part t
        cases hb : Record.blank? t with
        | error e => rfl
        | ok blank =>
          rw [hb] at hblank
          have hcarried := hslots blank
          rw [Except.ok.inj hblank] at hcarried
          show (carryOver t blank _ >>= fun r => pure r.toValue) =
            reorder _ <$> (carryOver t blank slots >>= fun r => pure r.toValue)
          rw [hcarried]
          cases carryOver t blank slots <;> rfl

end Value

/-! ### Nesting -/

namespace Json

theorem reorder_keep (d : Json) : d.reorder .keep = d := by
  cases d <;> rfl

variable {order : List Nat}

/-- An array is reordered within its items first, and then itself. -/
theorem reorder_arr {part : Nat → Reordering} (items : List Json) :
    (arr items).reorder (.array order part) =
      .arr (pick order (items.mapIdx fun i j => j.reorder (part i))) := rfl

theorem reorder_obj {part : String → Reordering} (members : Members) :
    (obj members).reorder (.object part) =
      .obj (members.map fun m => (m.1, m.2.reorder (part m.1))) := rfl

/-- A reordered document has the same names in the same order. -/
theorem canonical_reorder {d : Json} (hd : d.Canonical) (ρ : Reordering) :
    (d.reorder ρ).Canonical := by
  -- along the reordering; one that is made for another kind of document changes nothing
  induction ρ generalizing d with
  | keep => rwa [reorder_keep]
  | array order part ih =>
    cases d with
    | null | bool | num | str | obj => exact hd
    | arr items =>
      refine canonical_arr.mpr fun j hj => ?_
      obtain ⟨i, -, hj⟩ := List.mem_filterMap.mp hj
      rw [List.getElem?_mapIdx] at hj
      obtain ⟨item, hitem, rfl⟩ := Option.map_eq_some_iff.mp hj
      exact ih i (canonical_arr.mp hd item (List.mem_of_getElem? hitem))
  | object part ih =>
    cases d with
    | null | bool | num | str | arr => exact hd
    | obj members =>
      obtain ⟨hasc, hparts⟩ := canonical_obj.mp hd
      refine canonical_obj.mpr ⟨?_, fun m hm => ?_⟩
      · rw [Members.names, List.map_map]
        exact hasc
      · obtain ⟨m', hm', rfl⟩ := List.mem_map.mp hm
        exact ih m'.1 (hparts m' hm')

/-- **Items in another order are brought together to the same schema**, and their values are in the
other order. The three ways of bringing together correspond one by one. -/
theorem reconciled_reorder_iff {part : Nat → Reordering}
    {typed : List (Schema × Value)} (horder : order.Perm (List.range typed.length)) {e : Schema}
    {values' : List Value} :
    Reconciled (pick order (typed.mapIdx fun i sv => (sv.1, sv.2.reorder (part i)))) e values' ↔
      ∃ values, Reconciled typed e values ∧
        values' = pick order (values.mapIdx fun i v => v.reorder (part i)) := by
  -- the schemas are the same in another order, and the values change as the items do
  have hfst : ((pick order (typed.mapIdx fun i sv => (sv.1, sv.2.reorder (part i)))).map
      Prod.fst).Perm (typed.map Prod.fst) := by
    have hmap : (typed.mapIdx fun i sv => (sv.1, sv.2.reorder (part i))).map Prod.fst =
        typed.map Prod.fst := List.ext_getElem? fun i => by simp [Function.comp_def]
    rw [← pick_map, hmap]
    exact pick_perm (by rwa [List.length_map])
  have hsnd : (pick order (typed.mapIdx fun i sv => (sv.1, sv.2.reorder (part i)))).map Prod.snd =
      pick order ((typed.map Prod.snd).mapIdx fun i v => v.reorder (part i)) := by
    rw [← pick_map]
    congr 1
    exact List.ext_getElem? fun i => by simp [Function.comp_def]
  have hall : ∀ s, (∀ item ∈ pick order (typed.mapIdx fun i sv => (sv.1, sv.2.reorder (part i))),
      item.1 = s) ↔ ∀ item ∈ typed, item.1 = s := by
    intro s
    rw [← List.forall_mem_map (f := Prod.fst) (P := (· = s)),
      ← List.forall_mem_map (f := Prod.fst) (l := typed) (P := (· = s))]
    exact forall_congr' fun t => by rw [hfst.mem_iff]
  have hnil : pick order (typed.mapIdx fun i sv => (sv.1, sv.2.reorder (part i))) = [] ↔
      typed = [] := by
    have hlen := hfst.length_eq
    rw [List.length_map, List.length_map] at hlen
    rw [← List.length_eq_zero_iff, hlen, List.length_eq_zero_iff]
  -- rebuilding commutes with reordering, item by item
  have hrebuilt : List.Forall₂ (fun item w => Value.conformTo e item.2 = .ok w)
      (pick order (typed.mapIdx fun i sv => (sv.1, sv.2.reorder (part i)))) values' ↔
      ∃ values, List.Forall₂ (fun item w => Value.conformTo e item.2 = .ok w) typed values ∧
        values' = pick order (values.mapIdx fun i v => v.reorder (part i)) := by
    refine forall₂_pick_mapIdx_iff horder (fun _ _ _ h h' => Except.ok.inj (h.symm.trans h'))
      fun i sv _ w => ?_
    rw [Value.conformTo_reorder, Outcome.map_eq_ok]
    exact exists_congr fun v => and_congr_right fun _ => eq_comm
  constructor
  · rintro (⟨nil⟩ | ⟨hne, hone⟩ | ⟨hdiffer, hmerged, hvalues⟩)
    · exact ⟨[], .none (hnil.mp nil), (pick_nil order).symm⟩
    · exact ⟨_, .one (mt hnil.mpr hne) ((hall e).mp hone), hsnd⟩
    · obtain ⟨values, hown, rfl⟩ := hrebuilt.mp hvalues
      refine ⟨values, .several (fun ⟨s, hs⟩ => hdiffer ⟨s, (hall s).mpr hs⟩) ?_ hown, rfl⟩
      exact hmerged.congr fun s => hfst.mem_iff.symm
  · rintro ⟨values, ⟨nil⟩ | ⟨hne, hone⟩ | ⟨hdiffer, hmerged, hvalues⟩, rfl⟩
    · subst nil
      rw [List.mapIdx_nil, List.mapIdx_nil, pick_nil, pick_nil]
      exact .none rfl
    · rw [← hsnd]
      exact .one (mt hnil.mp hne) ((hall e).mpr hone)
    · refine .several (fun ⟨s, hs⟩ => hdiffer ⟨s, (hall s).mp hs⟩) ?_
        (hrebuilt.mpr ⟨values, hvalues, rfl⟩)
      exact hmerged.congr fun s => hfst.mem_iff

/-- A scalar has no arrays, and neither has its value. -/
theorem nest_reorder_scalar_iff {maxDepth depth : Nat} {path : Path} {d : Json}
    (hscalar : d.isContainer = false) (ρ : Reordering) {s : Schema} {w : Value} :
    nest maxDepth depth path (d.reorder ρ) = .ok (s, w) ↔
      ∃ v, nest maxDepth depth path d = .ok (s, v) ∧ w = v.reorder ρ := by
  have hd : d.reorder ρ = d := by
    cases d with
    | arr | obj => cases hscalar
    | _ => cases ρ <;> rfl
  have hv : ∀ v, nest maxDepth depth path d = .ok (s, v) → v.reorder ρ = v :=
    fun v h => Value.reorder_of_ofLeaf (ofLeaf_of_nest hscalar h) ρ
  rw [hd]
  constructor
  · exact fun h => ⟨w, h, (hv w h).symm⟩
  · rintro ⟨v, h, rfl⟩
    rwa [hv v h]

/-- Nesting reordered items gives the schemas of the items and their values reordered, all in the
other order. -/
theorem nestItems_reorder_iff {maxDepth depth : Nat} {part : Nat → Reordering}
    {items : List Json} (horder : order.Perm (List.range items.length))
    (hparts : ∀ i j, items[i]? = some j → ∀ s w,
      nest maxDepth depth [] (j.reorder (part i)) = .ok (s, w) ↔
        ∃ v, nest maxDepth depth [] j = .ok (s, v) ∧ w = v.reorder (part i))
    {typed' : List (Schema × Value)} :
    List.Forall₂ (fun j sv => nest maxDepth depth [] j = .ok sv)
        (pick order (items.mapIdx fun i j => j.reorder (part i))) typed' ↔
      ∃ typed, List.Forall₂ (fun j sv => nest maxDepth depth [] j = .ok sv) items typed ∧
        typed' = pick order (typed.mapIdx fun i sv => (sv.1, sv.2.reorder (part i))) := by
  refine forall₂_pick_mapIdx_iff horder
    (fun _ _ _ h h' => Except.ok.inj (h.symm.trans h')) fun i j hj sv' => ?_
  obtain ⟨s, w⟩ := sv'
  rw [hparts i j hj]
  constructor
  · rintro ⟨v, hv, rfl⟩
    exact ⟨(s, v), hv, rfl⟩
  · rintro ⟨⟨s', v⟩, hv, heq⟩
    injection heq with hs hw
    exact ⟨v, hs ▸ hv, hw⟩

/-- Nesting members whose arrays are reordered gives their slots, with the arrays reordered. -/
theorem nestMembers_reorder_iff {maxDepth depth : Nat} {part : String → Reordering}
    {members : Members}
    (hparts : ∀ m ∈ members, ∀ s w, nest maxDepth depth [] (m.2.reorder (part m.1)) = .ok (s, w) ↔
      ∃ v, nest maxDepth depth [] m.2 = .ok (s, v) ∧ w = v.reorder (part m.1))
    {slots' : List Slot} :
    List.Forall₂ (fun m slot => slot.1.1 = m.1 ∧
        nest maxDepth depth [] m.2 = .ok (slot.1.2, slot.2))
        (members.map fun m => (m.1, m.2.reorder (part m.1))) slots' ↔
      ∃ slots : List Slot, List.Forall₂ (fun m slot => slot.1.1 = m.1 ∧
        nest maxDepth depth [] m.2 = .ok (slot.1.2, slot.2)) members slots ∧
        slots' = slots.map fun slot => (slot.1, slot.2.reorder (part slot.1.1)) := by
  rw [List.forall₂_map_left_iff]
  constructor
  · intro h
    -- each slot comes from one of the member as it was
    have hbetween : List.Forall₂ (fun m slot' => ∃ slot : Slot,
        slot' = (slot.1, slot.2.reorder (part slot.1.1)) ∧
          slot.1.1 = m.1 ∧ nest maxDepth depth [] m.2 = .ok (slot.1.2, slot.2)) members slots' := by
      refine forall₂_imp_of_mem h fun m hm slot' _ hslot' => ?_
      obtain ⟨f, w⟩ := slot'
      obtain ⟨hname, hnest⟩ := hslot'
      obtain ⟨v, hv, hw⟩ := (hparts m hm f.2 w).mp hnest
      exact ⟨(f, v), by rw [hw, hname], hname, hv⟩
    obtain ⟨slots, hslots', hslots⟩ := forall₂_between hbetween
    refine ⟨slots, hslots, ?_⟩
    rw [← List.map_id slots']
    exact map_eq_map_of_forall₂ hslots'
  · rintro ⟨slots, hslots, rfl⟩
    refine List.forall₂_map_right_iff.mpr (forall₂_imp_of_mem hslots fun m hm slot _ hslot => ?_)
    obtain ⟨hname, hnest⟩ := hslot
    refine ⟨hname, (hparts m hm slot.1.2 _).mpr ⟨slot.2, hnest, ?_⟩⟩
    rw [hname]

/-- **Nesting a reordered document** gives the same schema, and the value reordered in the same way.
By induction on the reordering, which follows the document as far as both are of one kind. -/
theorem nest_reorder_iff {maxDepth depth : Nat} {path : Path} {ρ : Reordering} {d : Json}
    (hd : d.Canonical) (hρ : ρ.Fits d) {s : Schema} {w : Value} :
    nest maxDepth depth path (d.reorder ρ) = .ok (s, w) ↔
      ∃ v, nest maxDepth depth path d = .ok (s, v) ∧ w = v.reorder ρ := by
  -- along the reordering; the path changes on the way and does not matter, so it is left open
  induction ρ generalizing d depth path s w with
  | keep =>
    rw [reorder_keep]
    simp only [Value.reorder_keep, exists_eq_right']
  | array order part ih =>
    cases d with
    | null | bool | num | str => exact nest_reorder_scalar_iff rfl _
    | obj members =>
      -- an object has no items to reorder
      constructor
      · intro h
        obtain ⟨slots, -, -, -, rfl⟩ := nest_obj (canonical_obj.mp hd).1 h
        exact ⟨_, h, rfl⟩
      · rintro ⟨v, h, rfl⟩
        obtain ⟨slots, -, -, -, rfl⟩ := nest_obj (canonical_obj.mp hd).1 h
        exact h
    | arr items =>
      obtain ⟨horder, hparts⟩ := hρ
      have hitems := @nestItems_reorder_iff order maxDepth (depth + 1) part items horder
        fun i j hj _ _ =>
          ih i (canonical_arr.mp hd j (List.mem_of_getElem? hj)) (hparts i j hj)
      have hd' := canonical_reorder hd (.array order part)
      rw [reorder_arr] at hd' ⊢
      rw [nest_arr_iff hd']
      constructor
      · rintro ⟨hroom, typed', e, values', htyped', hrec', rfl, rfl⟩
        obtain ⟨typed, htyped, rfl⟩ := hitems.mp htyped'
        obtain ⟨values, hrec, rfl⟩ := (reconciled_reorder_iff (htyped.length_eq ▸ horder)).mp hrec'
        exact ⟨_, (nest_arr_iff hd).mpr ⟨hroom, typed, e, values, htyped, hrec, rfl, rfl⟩, rfl⟩
      · rintro ⟨v, h, rfl⟩
        obtain ⟨hroom, typed, e, values, htyped, hrec, rfl, rfl⟩ := (nest_arr_iff hd).mp h
        refine ⟨hroom, _, e, _, hitems.mpr ⟨typed, htyped, rfl⟩, ?_, rfl, rfl⟩
        exact (reconciled_reorder_iff (htyped.length_eq ▸ horder)).mpr ⟨values, hrec, rfl⟩
  | object part ih =>
    cases d with
    | null | bool | num | str => exact nest_reorder_scalar_iff rfl _
    | arr items =>
      -- an array is no object: it stays as it is, and so does its value
      constructor
      · intro h
        obtain ⟨typed, e, values, -, -, -, rfl⟩ := nest_arr h
        exact ⟨_, h, rfl⟩
      · rintro ⟨v, h, rfl⟩
        obtain ⟨typed, e, values, -, -, -, rfl⟩ := nest_arr h
        exact h
    | obj members =>
      have hmembers := @nestMembers_reorder_iff maxDepth (depth + 1) part members
        fun m hm _ _ => ih m.1 ((canonical_obj.mp hd).2 m hm) (hρ m hm)
      have hd' := canonical_reorder hd (.object part)
      have hfields : ∀ slots : List Slot,
          (slots.map fun slot => (slot.1, slot.2.reorder (part slot.1.1))).map Prod.fst =
            slots.map Prod.fst := by
        intro slots
        rw [List.map_map]
        rfl
      rw [reorder_obj] at hd' ⊢
      rw [nest_obj_iff hd']
      constructor
      · rintro ⟨hroom, slots', hslots', rfl, rfl⟩
        obtain ⟨slots, hslots, rfl⟩ := hmembers.mp hslots'
        exact ⟨_, (nest_obj_iff hd).mpr ⟨hroom, slots, hslots, by rw [hfields], rfl⟩, rfl⟩
      · rintro ⟨v, h, rfl⟩
        obtain ⟨hroom, slots, hslots, rfl, rfl⟩ := (nest_obj_iff hd).mp h
        exact ⟨hroom, _, hmembers.mpr ⟨slots, hslots, rfl⟩, by rw [hfields], rfl⟩

/-- **What fits a document fits its value.** Only the fields that an object lacks are new in the
value, and these are null. -/
theorem TypedAs.fitsValue {inside : Bool} {d : Json} {s : Schema} {v : Value}
    (h : TypedAs inside d s v) {ρ : Reordering} (hρ : ρ.Fits d) : ρ.FitsValue v := by
  -- a value has as many items as the document, and the members among its fields
  induction h generalizing ρ with
  | null => exact Reordering.fitsValue_of_ofLeaf (v := .null) rfl ρ
  | bool b => exact Reordering.fitsValue_of_ofLeaf (v := .boolean b) rfl ρ
  | str t => exact Reordering.fitsValue_of_ofLeaf (v := .string t) rfl ρ
  | num hv hs => exact Reordering.fitsValue_of_ofLeaf hs ρ
  | @arr inside items values e o length typed ih =>
    cases ρ with
    | keep | object => exact trivial
    | array order part =>
      obtain ⟨horder, hparts⟩ := hρ
      refine ⟨length ▸ horder, fun i v hv => ?_⟩
      obtain ⟨hlt, rfl⟩ := List.getElem?_eq_some_iff.mp hv
      have hlt' : i < items.length := length ▸ hlt
      exact ih _ (getElem_mem_zip hlt' hlt) (hparts i _ (List.getElem?_eq_getElem hlt'))
  | @obj inside members slots o kept typed padded ih =>
    cases ρ with
    | keep | array => exact trivial
    | object part =>
      intro slot hslot
      by_cases hname : slot.1.1 ∈ members.names
      · obtain ⟨m, hm, hmn⟩ := List.mem_map.mp hname
        exact ih m hm slot hslot hmn.symm (hmn ▸ hρ m hm)
      · rw [(padded slot hslot hname).2]
        exact Reordering.fitsValue_of_ofLeaf (v := .null) rfl _

end Json

/-! ### Converting -/

namespace ConversionSettings

variable {settings : ConversionSettings} {d : Json}

/-- A conversion that nests gives what nesting gives, with its schema. -/
theorem convert_eq_ok_iff (structured : settings.structured = true)
    (nested : settings.strategy = .nest) {c : Converted} :
    settings.convert d = .ok c ↔
      ∃ s v, d.nest settings.maxDepth 0 [] = .ok (s, v) ∧ c = .structured s v := by
  rw [convert, if_pos structured, nested]
  constructor
  · intro h
    obtain ⟨⟨s, v⟩, hnest, h⟩ := Outcome.bind_eq_ok.mp h
    exact ⟨s, v, hnest, (Except.ok.inj h).symm⟩
  · rintro ⟨s, v, hnest, rfl⟩
    exact Outcome.bind_eq_ok.mpr ⟨(s, v), hnest, rfl⟩

/-- **The order of items does not matter to a conversion.** A document whose arrays are reordered,
at any depth and each in its own way, can be converted, nested and with a schema, exactly if the
document itself can. The schema is the same, and the value is the document's with its arrays
reordered in the same way. -/
theorem convert_reorder_iff (structured : settings.structured = true)
    (nested : settings.strategy = .nest) {ρ : Reordering} (hd : d.Canonical) (hρ : ρ.Fits d) :
    ((∃ c, settings.convert (d.reorder ρ) = .ok c) ↔ ∃ c, settings.convert d = .ok c) ∧
      ∀ s w, settings.convert (d.reorder ρ) = .ok (.structured s w) ↔
        ∃ v, settings.convert d = .ok (.structured s v) ∧ ρ.FitsValue v ∧ w = v.reorder ρ := by
  simp only [convert_eq_ok_iff structured nested, Json.nest_reorder_iff hd hρ]
  constructor
  · -- a success of either kind is a nesting of the document
    constructor
    · rintro ⟨-, s, -, ⟨v, hnest, -⟩, -⟩
      exact ⟨_, s, v, hnest, rfl⟩
    · rintro ⟨-, s, v, hnest, -⟩
      exact ⟨_, s, _, ⟨v, hnest, rfl⟩, rfl⟩
  · intro s w
    constructor
    · rintro ⟨s', w', ⟨v, hnest, rfl⟩, heq⟩
      injection heq with hs hw
      subst hs hw
      exact ⟨v, ⟨s, v, hnest, rfl⟩, (Json.typedAs_of_nest false hd hnest).fitsValue hρ, rfl⟩
    · rintro ⟨v, ⟨s', v', hnest, heq⟩, -, rfl⟩
      injection heq with hs hv
      subst hs hv
      exact ⟨s, _, ⟨v, hnest, rfl⟩, rfl⟩

/-- Two objects without a common member, one of them holding two more such objects, all put the
other way round. -/
theorem convert_reorder_iff_swapped :
    let one := Json.obj [("u", .num (.ofInt 1))]
    let other := Json.obj [("w", .bool true)]
    let d := Json.obj [("m", .arr [.obj [("p", .arr [one, other])], .obj [("q", .str "x")]])]
    let d' := Json.obj [("m", .arr [.obj [("q", .str "x")], .obj [("p", .arr [other, one])]])]
    let ρ := Reordering.object fun _ => .array [1, 0] fun _ => .object fun _ =>
      .array [1, 0] fun _ => .keep
    d.Canonical ∧ ρ.Fits d ∧ d.reorder ρ = d' ∧ ∃ s v,
      ({} : ConversionSettings).convert d = .ok (.structured s v) ∧ ρ.FitsValue v ∧
      ({} : ConversionSettings).convert d' = .ok (.structured s (v.reorder ρ)) := by
  intro one other d d' ρ
  have hd : d.Canonical := by decide +kernel
  have hρ : ρ.Fits d := by
    refine List.forall_mem_singleton.mpr (Reordering.fits_swap ?_ ?_)
    · exact List.forall_mem_singleton.mpr (Reordering.fits_swap trivial trivial)
    · exact List.forall_mem_singleton.mpr trivial
  have hok : (match ({} : ConversionSettings).convert d' with
      | .ok (.structured _ _) => true
      | _ => false) = true := by decide +kernel
  split at hok
  · next s w h =>
    obtain ⟨v, hv, hfits, rfl⟩ :=
      ((convert_reorder_iff rfl rfl hd hρ).2 s w).mp h
    exact ⟨hd, hρ, rfl, s, v, hv, hfits, h⟩
  · exact nomatch hok

end ConversionSettings
end DocStream
