import DocStream.Proofs.Convert.Nesting
import DocStream.Proofs.Schema.LeastMerge

/-!
# When a document can be nested

Nesting a container, said as an equivalence: it succeeds exactly if its parts do, each on its own,
and the schemas of an array's items can be brought together. In this form neither the path nor the
order in which schemas are collected is left, since both matter to failures only.

* `Json.Reconciled` — **what the items of an array are brought together to**, and
  `Json.reconcile_iff`;
* `Json.nest_path` — a document that can be nested at one path is nested to the same at any other;
* `Json.nest_arr_iff` and `Json.nest_obj_iff` — **a container can be nested** exactly if its parts
  can.

What stands in the way of an equivalence is that a document is nested at a path and its items at
longer ones, and that schemas are collected in the order of the items before they are merged. The
path is disposed of by showing that a nested document is nested to the same at every path, the order
by the merge being the least bound of the schemas, which does not depend on it.
-/

namespace DocStream

/-- Names that ascend are distinct, at every place of a schema. -/
theorem Schema.WellFormed.distinctNames {s : Schema} (h : s.WellFormed) : s.DistinctNames := by
  induction s using Schema.byParts with
  | leaf t o => exact List.nodup_nil
  | array e o ih => exact everywhere_iff.mpr ⟨List.nodup_nil, ih h⟩
  | struct fields o ih =>
    obtain ⟨hasc, hparts⟩ := wellFormed_struct.mp h
    exact everywhere_struct.mpr ⟨hasc.nodup, fun f hf => ih f hf (hparts f hf)⟩

/-- A schema that is given once or more often is gathered once. -/
theorem Schema.distinct_of_all_eq {schemas : List Schema} {s : Schema} (hne : schemas ≠ [])
    (hall : ∀ t ∈ schemas, t = s) : distinct schemas = [s] := by
  obtain ⟨t, rest, rfl⟩ := List.exists_cons_of_ne_nil hne
  obtain ⟨rfl, hrest⟩ := List.forall_mem_cons.mp hall
  show rest.foldl _ [t] = [t]
  clear hne hall
  -- once it has been seen, the same schema adds nothing
  induction rest with
  | nil => rfl
  | cons u rest ih =>
    obtain ⟨rfl, hrest⟩ := List.forall_mem_cons.mp hrest
    rw [List.foldl_cons, if_pos (List.mem_singleton_self u)]
    exact ih hrest

namespace Json

/-! ### Items brought together -/

/-- **What the items of an array are brought together to.** Without items the element schema is the
one for null; items of one schema keep it and their values; and for items of several schemas there
is a merge of these, under which every value is rebuilt. -/
inductive Reconciled (items : List (Schema × Value)) : Schema → List Value → Prop where
  | none (nil : items = []) : Reconciled items Schema.ofNull []
  | one {e : Schema} (some : items ≠ []) (all : ∀ item ∈ items, item.1 = e) :
      Reconciled items e (items.map Prod.snd)
  | several {e : Schema} {values : List Value} (differ : ¬∃ s, ∀ item ∈ items, item.1 = s)
      (merged : Schema.IsMerge (items.map Prod.fst) e)
      (rebuilt : List.Forall₂ (fun item w => Value.conformTo e item.2 = .ok w) items values) :
      Reconciled items e values

/-- Items of one schema keep it, and their values stay as they are. -/
theorem reconcile_of_all_eq {path : Path} {items : List (Schema × Value)} {s : Schema}
    (hne : items ≠ []) (hall : ∀ item ∈ items, item.1 = s) :
    reconcile path items = .ok (s, items.map Prod.snd) := by
  have hdistinct : Schema.distinct (items.map Prod.fst) = [s] := by
    refine Schema.distinct_of_all_eq (fun hnil => hne (List.map_eq_nil_iff.mp hnil)) fun t ht => ?_
    obtain ⟨item, hitem, rfl⟩ := List.mem_map.mp ht
    exact hall item hitem
  rw [reconcile, hdistinct]

/-- Items of several schemas are merged, if all of these are structs. -/
theorem reconcile_of_differ {path : Path} {items : List (Schema × Value)}
    (hdiffer : ¬∃ s, ∀ item ∈ items, item.1 = s) :
    reconcile path items =
      if (Schema.distinct (items.map Prod.fst)).all Schema.isStruct then do
        let merged ← Schema.merge (Schema.distinct (items.map Prod.fst)) path.dotted
        let values ← (items.map Prod.snd).mapM (Value.conformTo merged)
        return (merged, values)
      else .error (.mixedArray path.location
        (Schema.describeAll (Schema.distinct (items.map Prod.fst)))) := by
  have hmem : ∀ item ∈ items, item.1 ∈ Schema.distinct (items.map Prod.fst) :=
    fun item hitem => Schema.mem_distinct.mpr (List.mem_map_of_mem hitem)
  rw [reconcile]
  generalize Schema.distinct (items.map Prod.fst) = schemas at *
  -- no schema and one schema are ruled out, as items with different schemas have at least two
  split
  · exact absurd ⟨default, fun item hitem => absurd (hmem item hitem) List.not_mem_nil⟩ hdiffer
  · next only =>
    exact absurd ⟨only, fun item hitem => List.mem_singleton.mp (hmem item hitem)⟩ hdiffer
  · rfl

/-- **Bringing items together, without the path and the order of their schemas.** Names have to be
distinct, as merging is a least bound only then. -/
theorem reconcile_iff {path : Path} {items : List (Schema × Value)} {e : Schema}
    {values : List Value} (hd : ∀ item ∈ items, item.1.DistinctNames) :
    reconcile path items = .ok (e, values) ↔ Reconciled items e values := by
  have hmem : ∀ s, s ∈ Schema.distinct (items.map Prod.fst) ↔ s ∈ items.map Prod.fst :=
    fun s => Schema.mem_distinct
  constructor
  · intro h
    by_cases hone : ∃ s, ∀ item ∈ items, item.1 = s
    · obtain ⟨s, hall⟩ := hone
      -- without items there is nothing to bring together, and no schema to do it with
      by_cases hnil : items = []
      · subst hnil
        injection h with h
        injection h with h₁ h₂
        subst h₁ h₂
        exact .none rfl
      · rw [reconcile_of_all_eq hnil hall] at h
        injection h with h
        injection h with h₁ h₂
        subst h₁ h₂
        exact .one hnil hall
    · rcases reconcile_eq_ok h with ⟨rfl, -, -⟩ | ⟨-, hall, -⟩ | ⟨-, hmerged, hrebuilt⟩
      · exact absurd ⟨e, fun item hitem => absurd hitem List.not_mem_nil⟩ hone
      · exact absurd ⟨e, hall⟩ hone
      · exact .several hone hmerged hrebuilt
  · rintro (⟨rfl⟩ | ⟨hne, hall⟩ | ⟨hdiffer, hmerged, hrebuilt⟩)
    · rfl
    · exact reconcile_of_all_eq hne hall
    · -- the schemas have a bound, their merge, so that they can be merged in any order
      have hschemas : ∀ s ∈ items.map Prod.fst, s.isStruct = true ∧ s.DistinctNames := by
        intro s hs
        obtain ⟨item, hitem, rfl⟩ := List.mem_map.mp hs
        obtain ⟨structs, -⟩ := hmerged
        exact ⟨structs _ hs, hd item hitem⟩
      have hstructs : (Schema.distinct (items.map Prod.fst)).all Schema.isStruct = true :=
        List.all_eq_true.mpr fun s hs => (hschemas s ((hmem s).mp hs)).1
      obtain ⟨m, hm, hmerge⟩ := ((hmerged.bounds fun s hs => (hschemas s hs).2).subset
        fun s hs => (hmem s).mp hs).exists_merge (fun s hs => (hschemas s ((hmem s).mp hs)).1)
        path.dotted
      obtain rfl := hmerged.regroup (fun s hs => (hschemas s hs).2)
        (Schema.regroups_of_mem_iff hmem) hmerge
      have hvalues := Outcome.mapM_eq_ok.mpr (List.forall₂_map_left_iff.mpr hrebuilt)
      rw [reconcile_of_differ hdiffer, if_pos hstructs, hm]
      show ((items.map Prod.snd).mapM (Value.conformTo m) >>= fun values => pure (m, values)) = _
      rw [hvalues]
      rfl

/-! ### Paths -/

variable {maxDepth depth : Nat}

/-- Items that can be nested, whatever their paths are. -/
theorem nestItems_of_forall₂ {items : List Json} {typed : List (Schema × Value)} {path : Path}
    (h : List.Forall₂ (fun j sv => ∀ p, nest maxDepth depth p j = .ok sv) items typed)
    (index : Nat) : nestItems maxDepth depth path index items = .ok typed := by
  induction h generalizing index with
  | nil => rfl
  | cons hhead _ ih =>
    rw [nestItems, hhead, ih]
    rfl

theorem nestMembers_of_forall₂ {members : Members} {slots : List Slot} {path : Path}
    (h : List.Forall₂ (fun m slot => slot.1.1 = m.1 ∧
      ∀ p, nest maxDepth depth p m.2 = .ok (slot.1.2, slot.2)) members slots) :
    nestMembers maxDepth depth path members = .ok slots := by
  induction h with
  | nil => rfl
  | @cons m slot _ _ hhead _ ih =>
    obtain ⟨name, item⟩ := m
    obtain ⟨⟨name', s⟩, v⟩ := slot
    obtain ⟨rfl, hitem⟩ := hhead
    rw [nestMembers, hitem, ih]
    rfl

/-- The items of an array that were nested have schemas with distinct names, since documents are
nested to such. -/
theorem distinctNames_of_items {items : List Json} {typed : List (Schema × Value)}
    (hd : ∀ j ∈ items, j.Canonical)
    (h : List.Forall₂ (fun j sv => ∃ p, nest maxDepth depth p j = .ok sv) items typed) :
    ∀ item ∈ typed, item.1.DistinctNames := by
  intro item hitem
  obtain ⟨j, hj, p, hp⟩ := exists_of_forall₂ h hitem
  exact (wellFormed_of_nest (hd j hj) hp).distinctNames

/-- An array is nested from its items: there is room for it, its items are nested at every path, and
their schemas can be brought together. -/
theorem nest_arr_of_items {path : Path} {items : List Json} {typed : List (Schema × Value)}
    {e : Schema} {values : List Value} (hroom : depth < maxDepth)
    (hitems : List.Forall₂ (fun j sv => ∀ p, nest maxDepth (depth + 1) p j = .ok sv) items typed)
    (hd : ∀ item ∈ typed, item.1.DistinctNames) (hrec : Reconciled typed e values) :
    nest maxDepth depth path (arr items) = .ok (.array e (depth ≠ 0), .array values) := by
  rw [nest, if_neg (Nat.not_le.mpr hroom), nestItems_of_forall₂ hitems]
  show (reconcile path typed >>= fun r => pure (Schema.array r.1 _, Value.array r.2)) = _
  rw [(reconcile_iff hd).mpr hrec]
  rfl

/-- An object is nested from its members: there is room for it, and they are nested at every path.
-/
theorem nest_obj_of_members {path : Path} {members : Members} {slots : List Slot}
    (hroom : depth < maxDepth)
    (hmembers : List.Forall₂ (fun m slot => slot.1.1 = m.1 ∧
      ∀ p, nest maxDepth (depth + 1) p m.2 = .ok (slot.1.2, slot.2)) members slots) :
    nest maxDepth depth path (obj members) =
      .ok ((Record.ofSlots slots (depth ≠ 0)).schema,
        (Record.ofSlots slots (depth ≠ 0)).toValue) := by
  rw [nest, if_neg (Nat.not_le.mpr hroom), nestMembers_of_forall₂ hmembers]
  rfl

/-- **A document is nested to the same at every path.** By induction on the document; paths are only
looked at in failures, and it did not fail. -/
theorem nest_path {path : Path} {d : Json} {sv : Schema × Value} (hd : d.Canonical)
    (h : nest maxDepth depth path d = .ok sv) (path' : Path) :
    nest maxDepth depth path' d = .ok sv := by
  induction d using Json.byParts generalizing depth path path' sv with
  | null | bool | num | str => exact h
  | arr items ih =>
    -- the items were nested at paths of their own, which the new path does not change
    have hroom := lt_of_nest rfl h
    obtain ⟨s, v⟩ := sv
    obtain ⟨typed, e, values, htyped, hrec, rfl, rfl⟩ := nest_arr h
    have hparts := canonical_arr.mp hd
    have hdistinct := distinctNames_of_items hparts htyped
    refine nest_arr_of_items hroom (forall₂_imp_of_mem htyped fun j hj sv _ hsv => ?_) hdistinct
      ((reconcile_iff hdistinct).mp hrec)
    obtain ⟨p, hp⟩ := hsv
    exact ih j hj (hparts j hj) hp
  | obj members ih =>
    have hroom := lt_of_nest rfl h
    obtain ⟨hasc, hparts⟩ := canonical_obj.mp hd
    rw [nest, if_neg (Nat.not_le.mpr hroom)] at h
    obtain ⟨slots, hslots, h⟩ := Outcome.bind_eq_ok.mp h
    rw [← Except.ok.inj h]
    refine nest_obj_of_members hroom
      (forall₂_imp_of_mem (nestMembers_eq_ok hslots) fun m hm slot _ hslot => ?_)
    obtain ⟨hname, p, hp⟩ := hslot
    exact ⟨hname, ih m hm (hparts m hm) hp⟩

/-! ### Containers -/

/-- **An array can be nested exactly if its items can**, one container deeper, and their schemas can
be brought together. The path of the items is immaterial, so it is left out. -/
theorem nest_arr_iff {path : Path} {items : List Json} (hd : (arr items).Canonical) {s : Schema}
    {v : Value} :
    nest maxDepth depth path (arr items) = .ok (s, v) ↔ depth < maxDepth ∧ ∃ typed e values,
      List.Forall₂ (fun j sv => nest maxDepth (depth + 1) [] j = .ok sv) items typed ∧
      Reconciled typed e values ∧ s = .array e (depth ≠ 0) ∧ v = .array values := by
  have hparts := canonical_arr.mp hd
  constructor
  · intro h
    obtain ⟨typed, e, values, htyped, hrec, hs, hv⟩ := nest_arr h
    refine ⟨lt_of_nest rfl h, typed, e, values,
      forall₂_imp_of_mem htyped fun j hj sv _ hsv => ?_,
      (reconcile_iff (distinctNames_of_items hparts htyped)).mp hrec, hs, hv⟩
    obtain ⟨p, hp⟩ := hsv
    exact nest_path (hparts j hj) hp []
  · rintro ⟨hroom, typed, e, values, htyped, hrec, rfl, rfl⟩
    refine nest_arr_of_items hroom
      (forall₂_imp_of_mem htyped fun j hj sv _ hsv => nest_path (hparts j hj) hsv) ?_ hrec
    exact distinctNames_of_items hparts (htyped.imp fun j sv hsv => ⟨[], hsv⟩)

/-- **An object can be nested exactly if its members can**, one container deeper. Its schema and its
value have a slot for each member. -/
theorem nest_obj_iff {path : Path} {members : Members} (hd : (obj members).Canonical) {s : Schema}
    {v : Value} :
    nest maxDepth depth path (obj members) = .ok (s, v) ↔ depth < maxDepth ∧ ∃ slots : List Slot,
      List.Forall₂ (fun m slot => slot.1.1 = m.1 ∧
        nest maxDepth (depth + 1) [] m.2 = .ok (slot.1.2, slot.2)) members slots ∧
      s = .struct (slots.map Prod.fst) (depth ≠ 0) ∧ v = .record slots (depth ≠ 0) := by
  obtain ⟨hasc, hparts⟩ := canonical_obj.mp hd
  constructor
  · intro h
    obtain ⟨slots, hslots, -, hs, hv⟩ := nest_obj hasc h
    refine ⟨lt_of_nest rfl h, slots, forall₂_imp_of_mem hslots fun m hm slot _ hslot => ?_, hs, hv⟩
    obtain ⟨hname, p, hp⟩ := hslot
    exact ⟨hname, nest_path (hparts m hm) hp []⟩
  · rintro ⟨hroom, slots, hslots, rfl, rfl⟩
    rw [nest_obj_of_members hroom (forall₂_imp_of_mem hslots fun m hm slot _ hslot =>
      ⟨hslot.1, nest_path (hparts m hm) hslot.2⟩)]
    -- the slots have the names of the members, which are in order
    have hnames : slots.map (·.1.1) = members.names :=
      (map_eq_map_of_forall₂ (hslots.imp fun m slot hslot => hslot.1.symm)).symm
    rw [Record.ofSlots, NameOrder.sort_of_ascending (hnames ▸ hasc)]
    rfl

end Json
end DocStream
