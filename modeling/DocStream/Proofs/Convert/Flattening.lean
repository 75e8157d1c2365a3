import DocStream.Proofs.Convert.Nesting

/-!
# What flattening a document gives

A flattened document is a list of leaves, and each of them is what nesting would have made of the
scalar at its place, named by that place.

* `Json.flattenInto_scalar` — a scalar is nested and emitted;
* `Json.mem_flattenInto` — **every leaf of a flattened document** is a nested scalar below the
  document's path;
* `FlatRecord.ascending_toRecord`, `FlatRecord.mem_slots_toRecord` — the record of the leaves;
* `FlatRecord.mem_names_of_flattenInto` — a leaf at the root of an object is a member of it.

Flattening passes a record on from one scalar to the next, so everything here is said of what was in
the record before and what has been added to it. The paths of items are lost in this view, as a leaf
is only said to be somewhere below the path of its document; where exactly it stands is the matter
of the leaves.
-/

namespace DocStream

namespace Json

/-- An entry that nesting gives for some scalar at a path or below it, and that is named by the
scalar's own path. -/
def IsNestedScalar (maxDepth : Nat) (path : Path) (e : FlatEntry) : Prop :=
  ∃ depth more d, isContainer d = false ∧ e.path = (path ++ more).dotted ∧
    nest maxDepth depth (path ++ more) d = .ok (e.schema, e.value)

/-- What is below a part of a path is below the path. -/
theorem IsNestedScalar.of_part {maxDepth : Nat} {path : Path} {part : String} {e : FlatEntry}
    (h : IsNestedScalar maxDepth (path ++ [part]) e) : IsNestedScalar maxDepth path e := by
  obtain ⟨depth, more, d, hd, hpath, hnest⟩ := h
  rw [List.append_assoc] at hpath hnest
  exact ⟨depth, [part] ++ more, d, hd, hpath, hnest⟩

/-- A scalar is nested and emitted, at whatever depth it stands. -/
theorem flattenInto_scalar {maxDepth depth : Nat} {path : Path} {r : FlatRecord} {d : Json}
    (hd : d.isContainer = false) :
    flattenInto maxDepth depth path r d = nest maxDepth depth path d >>= emit path r := by
  cases d with
  | null | bool | str => rfl
  | num n => rw [flattenInto, nest]
  | arr | obj => cases hd

/-- Emitting adds the leaf and nothing else. -/
theorem mem_emit {path : Path} {r r' : FlatRecord} {leaf : Schema × Value}
    (h : emit path r leaf = .ok r') {e : FlatEntry} (he : e ∈ r'.entries) :
    e ∈ r.entries ∨ e = ⟨path.dotted, leaf.1, leaf.2⟩ := by
  rwa [FlatRecord.entries_insert? h, List.mem_append, List.mem_singleton] at he

/-- The leaf of a scalar was there before or is the nested scalar, named by the path of the scalar
itself. -/
theorem mem_of_scalar {maxDepth depth : Nat} {path : Path} {r r' : FlatRecord} {d : Json}
    (hd : d.isContainer = false) (h : flattenInto maxDepth depth path r d = .ok r') {e : FlatEntry}
    (he : e ∈ r'.entries) : e ∈ r.entries ∨ IsNestedScalar maxDepth path e := by
  rw [flattenInto_scalar hd] at h
  obtain ⟨leaf, hleaf, hemit⟩ := Outcome.bind_eq_ok.mp h
  refine (mem_emit hemit he).imp_right ?_
  rintro rfl
  refine ⟨depth, [], d, hd, ?_, ?_⟩ <;> rw [List.append_nil]
  exact hleaf

variable {maxDepth depth : Nat} {path : Path}

/-- The leaves of members are leaves of one of them. By induction on the members, with the leaves
that were emitted before kept general. -/
theorem mem_flattenMembers {members : Members} {e : FlatEntry}
    (hmembers : ∀ m ∈ members, ∀ {r r' : FlatRecord},
      flattenInto maxDepth depth (path ++ [m.1]) r m.2 = .ok r' → e ∈ r'.entries →
        e ∈ r.entries ∨ IsNestedScalar maxDepth (path ++ [m.1]) e)
    {r r' : FlatRecord} (h : flattenMembers maxDepth depth path r members = .ok r')
    (he : e ∈ r'.entries) :
    e ∈ r.entries ∨ ∃ m ∈ members, IsNestedScalar maxDepth (path ++ [m.1]) e := by
  induction members generalizing r with
  | nil =>
    injection h with h
    exact .inl (h ▸ he)
  | cons m rest ih =>
    obtain ⟨name, item⟩ := m
    rw [flattenMembers] at h
    obtain ⟨r₁, hitem, hrest⟩ := Outcome.bind_eq_ok.mp h
    -- an entry is one of a later member, or it was there when the first member had been flattened
    rcases ih (fun m hm => hmembers m (List.mem_cons_of_mem _ hm)) hrest with
      he₁ | ⟨m, hm, hnested⟩
    · refine (hmembers _ List.mem_cons_self hitem he₁).imp_right fun hnested => ?_
      exact ⟨_, List.mem_cons_self, hnested⟩
    · exact .inr ⟨m, List.mem_cons_of_mem _ hm, hnested⟩

/-- **Every leaf of a flattened document** was there before or is a nested scalar. By induction on
the document, the leaves of a container being those of its parts. -/
theorem mem_flattenInto {r r' : FlatRecord} {d : Json}
    (h : flattenInto maxDepth depth path r d = .ok r') {e : FlatEntry} (he : e ∈ r'.entries) :
    e ∈ r.entries ∨ IsNestedScalar maxDepth path e := by
  induction d using Json.byParts generalizing depth path r r' with
  | null => exact mem_of_scalar rfl h he
  | bool b => exact mem_of_scalar rfl h he
  | num n => exact mem_of_scalar rfl h he
  | str t => exact mem_of_scalar rfl h he
  | arr items ih =>
    rw [flattenInto] at h
    split at h
    · exact nomatch h
    · -- item by item; the place of an item is only part of its path
      generalize 0 = index at h
      induction items generalizing index r with
      | nil =>
        injection h with h
        exact .inl (h ▸ he)
      | cons item rest ih' =>
        rw [flattenItems] at h
        obtain ⟨r₁, hitem, hrest⟩ := Outcome.bind_eq_ok.mp h
        rcases ih' (fun j hj => ih j (List.mem_cons_of_mem _ hj)) _ hrest with he₁ | hnested
        · exact (ih item List.mem_cons_self hitem he₁).imp_right .of_part
        · exact .inr hnested
  | obj members ih =>
    rw [flattenInto] at h
    split at h
    · exact nomatch h
    · refine (mem_flattenMembers (fun m hm _ _ hm' he => ih m hm hm' he) h he).imp_right ?_
      rintro ⟨m, -, hnested⟩
      exact hnested.of_part

end Json

/-! ### The record of the leaves -/

namespace FlatRecord

/-- The fields of the record ascend, since no two leaves have one path, and sorting distinct names
puts them into strict order. -/
theorem ascending_toRecord (r : FlatRecord) :
    StrictlyAscending (r.toRecord.slots.map (·.1.1)) := by
  apply NameOrder.ascending_sort
  rw [List.map_map]
  exact r.nodup

/-- The record has a slot for each leaf, and no others. -/
theorem mem_slots_toRecord {r : FlatRecord} {slot : Slot} :
    slot ∈ r.toRecord.slots ↔ ∃ e ∈ r.entries, ((e.path, e.schema), e.value) = slot :=
  (NameOrder.sort_perm _ _).mem_iff.trans List.mem_map

end FlatRecord

/-! ### Leaves at the root -/

/-- A path without a point has one part, since the parts are joined by points. -/
theorem Path.eq_of_dotted {part name : String} {more : Path}
    (h : Path.dotted (part :: more) = name) (hname : '.' ∉ name.toList) : part = name := by
  cases more with
  | nil => rwa [dotted, String.intercalate_singleton] at h
  | cons next more =>
    refine absurd ?_ hname
    rw [← h, dotted, String.intercalate_cons_cons]
    simp

/-- **A leaf at the root of an object**, which has no point in its name, is named like a member. -/
theorem FlatRecord.mem_names_of_flattenInto {maxDepth depth : Nat} {members : Members}
    {r : FlatRecord} (h : (Json.obj members).flattenInto maxDepth depth [] .empty = .ok r)
    {name : String} (hname : '.' ∉ name.toList) (hmem : name ∈ r.paths) :
    name ∈ members.names := by
  obtain ⟨e, he, hpath⟩ := List.mem_map.mp hmem
  rw [Json.flattenInto] at h
  split at h
  · cases h
  · -- nothing was there before, so the leaf is one of a member, and its name begins with the
    -- member's
    rcases Json.mem_flattenMembers (fun m _ _ _ h he => Json.mem_flattenInto h he) h he with
      hempty | ⟨m, hm, depth, more, d, -, hdotted, -⟩
    · cases hempty
    · rw [← Path.eq_of_dotted (hdotted.symm.trans hpath) hname]
      exact List.mem_map_of_mem hm

/-- A structured, flattened conversion is a flattening of the document. -/
theorem ConversionSettings.convert_eq_flattened {settings : ConversionSettings} {d : Json}
    {r : FlatRecord} (h : settings.convert d = .ok (.flattened r)) :
    d.flattenInto settings.maxDepth 0 [] .empty = .ok r := by
  rw [convert] at h
  split at h
  · split at h
    · obtain ⟨_, -, h⟩ := Outcome.bind_eq_ok.mp h
      exact nomatch h
    · obtain ⟨r', hflat, h⟩ := Outcome.map_eq_ok.mp h
      injection h with h
      rw [hflat, h]
  · obtain ⟨_, -, h⟩ := Outcome.map_eq_ok.mp h
    exact nomatch h

end DocStream
