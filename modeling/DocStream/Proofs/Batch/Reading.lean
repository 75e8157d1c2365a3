import DocStream.Proofs.Batch.Rendering
import DocStream.Proofs.Induction
import DocStream.Proofs.Outcome

/-!
# A batch read row by row

A batch is built column by column: the items of all lists stand in one column, and so do the values
of one field of all records, with nothing where there is no record. Read row by row, each cell shows
the value it was built from.

* `Column.Takes` — what a slot of a column takes of a value;
* `Column.showsList_listCells` — **lists are cut off** from the cells of all items, one after the
  other;
* `Column.showsRecord_structCells` — **records are gathered** from the cells of every field;
* `Column.renders_of_build?` — **a column shows its values**, by induction on the schema;
* `Batch.shows_of_ofRows` — **a batch shows its records**, field by field and row by row.

A cell is shown by way of what its slot took: a slot takes nothing or a part of its value, the part
is put into a column with those of all other rows, and the cells of that column are handed back to
the rows in the same order. The two lemmas on cutting off and gathering say that nothing is moved on
the way.
-/

namespace DocStream

/-- Whether a cell is null, as the nulls of columns are counted. -/
def Cell.isNull : Cell → Bool
  | null => true
  | _ => false

namespace Column

/-! ### Nulls -/

/-- **A column knows its nulls**, however it is put together. -/
theorem validity_eq (c : Column) : c.validity = c.cells.map fun cell => !cell.isNull := by
  cases c with
  | scalars rows =>
    rw [validity, cells, List.map_map]
    refine List.map_congr_left fun row _ => ?_
    cases row <;> rfl
  -- a list column hands out its cells one extent after the other, so what is left of them is kept
  -- general
  | lists extents items =>
    rw [validity, cells]
    generalize items.cells = cells
    induction extents generalizing cells with
    | nil => rfl
    | cons extent rest ih =>
      cases extent with
      | none => exact congrArg (false :: ·) (ih cells)
      | some n => exact congrArg (true :: ·) (ih (cells.drop n))
  -- and a struct column has a cell in every row, whatever its children hold there
  | structs present children =>
    rw [validity, cells]
    generalize childCells children = fields
    induction present generalizing fields with
    | nil => rfl
    | cons own rest ih =>
      rw [structCells, List.map_cons, ← ih]
      cases own <;> rfl

/-- A cell is null or it is not, and columns ask by a test. -/
theorem ne_null_iff {cell : Cell} : cell ≠ .null ↔ cell.isNull = false := by
  cases cell <;> simp [Cell.isNull]

/-- A column without nulls shows none. -/
theorem ne_null_of_nullCount {c : Column} (h : c.nullCount = 0) : ∀ cell ∈ c.cells, cell ≠ .null := by
  rw [nullCount, validity_eq, List.countP_map, List.countP_eq_zero] at h
  intro cell hcell
  rw [ne_null_iff]
  simpa using h cell hcell

/-- A child whose nulls lie below its parent's shows none where there is a parent. -/
theorem ne_null_of_maskedBy {α : Type} {rows : List (Option α)} {c : Column}
    (h : maskedBy (rows.map Option.isSome) c = true) {row : Option α} {cell : Cell}
    (hmem : (row, cell) ∈ rows.zip c.cells) (hrow : row.isSome = true) : cell ≠ .null := by
  rw [maskedBy, validity_eq, List.zip_map, List.all_eq_true] at h
  have := h _ (List.mem_map_of_mem hmem)
  rw [ne_null_iff]
  simpa [hrow] using this

/-! ### Slots -/

/-- **What a slot takes of a value**: nothing of a missing one and of a null, which has to be allowed,
and a part of any other. -/
inductive Takes {α : Type} (s : Schema) (take? : Value → Option α) :
    Option Value → Option α → Prop where
  | missing : Takes s take? none none
  | null (optional : s.isOptional = true) : Takes s take? (some .null) none
  | value {v : Value} {a : α} (taken : take? v = some a) : Takes s take? (some v) (some a)

/-- **A slot that succeeds takes something**: its three branches are the three ways of taking. -/
theorem takes_of_slot? {α : Type} {s : Schema} {take? : Value → Option α} {v? : Option Value}
    {a? : Option α} (h : slot? s take? v? = .ok a?) : Takes s take? v? a? := by
  unfold slot? at h
  split at h
  · cases h
    exact .missing
  · split at h
    · next hoptional =>
      cases h
      exact .null hoptional
    · exact nomatch h
  · split at h
    · next htaken =>
      cases h
      exact .value htaken
    · exact nomatch h

/-- A slot is shown if its null is and any value that was taken of it is. -/
theorem Takes.renders {α : Type} {s : Schema} {take? : Value → Option α} {v? : Option Value}
    {a? : Option α} {cell : Cell} (h : Takes s take? v? a?) (null : a? = none → cell = .null)
    (value : ∀ v a, take? v = some a → a? = some a → Renders s (some v) cell) :
    Renders s v? cell := by
  cases h with
  | missing =>
    rw [null rfl]
    exact .missing
  | null optional =>
    rw [null rfl]
    exact .null optional
  | value taken => exact value _ _ taken rfl

/-- The lists of the rows are taken slot by slot. How many items came before does not matter to what
is taken, only to whether it is. -/
theorem takes_of_takeLists? {s : Schema} {before : Nat} {values : List (Option Value)}
    {rows : List (Option (List Value))} (h : takeLists? s before values = .ok rows) :
    List.Forall₂ (Takes s Value.items?) values rows := by
  induction values generalizing before rows with
  | nil =>
    cases h
    exact .nil
  | cons v rest ih =>
    rw [takeLists?] at h
    obtain ⟨row, hrow, h⟩ := Outcome.bind_eq_ok.mp h
    dsimp only at h
    split at h
    · exact nomatch h
    · obtain ⟨more, hmore, h⟩ := Outcome.bind_eq_ok.mp h
      cases h
      exact .cons (takes_of_slot? hrow) (ih hmore)

/-! ### Lists -/

/-- **The cell of a list**: its items, each as they are shown. -/
inductive ShowsList (R : Value → Cell → Prop) : Option (List Value) → Cell → Prop where
  | none : ShowsList R none .null
  | some {items : List Value} {cells : List Cell} (each : List.Forall₂ R items cells) :
      ShowsList R (some items) (.list cells)

/-- **Lists are cut off** one after the other from the cells of all items. By induction on the rows,
with the cells that are left kept general. -/
theorem showsList_listCells {R : Value → Cell → Prop} {rows : List (Option (List Value))}
    {cells : List Cell} (h : List.Forall₂ R (rows.flatMap (·.getD [])) cells) :
    List.Forall₂ (ShowsList R) rows (listCells (rows.map (·.map List.length)) cells) := by
  induction rows generalizing cells with
  | nil => exact .nil
  | cons row rest ih =>
    cases row with
    | none => exact .cons .none (ih h)
    -- this list takes as many cells as it has items, and the rest are those of the other rows
    | some items =>
      have htake := List.forall₂_take items.length h
      have hdrop := List.forall₂_drop items.length h
      rw [List.flatMap_cons, Option.getD_some, List.take_left] at htake
      rw [List.flatMap_cons, Option.getD_some, List.drop_left] at hdrop
      exact .cons (.some htake) (ih hdrop)

/-! ### Records -/

/-- **The cell of a record**: its fields, each as it is shown. -/
inductive ShowsRecord (P : Field → Option Record → Cell → Prop) (fields : List Field) :
    Option Record → Cell → Prop where
  | none : ShowsRecord P fields none .null
  | some {r : Record} {cells : List (String × Cell)}
      (each : List.Forall₂ (fun f cell => cell.1 = f.1 ∧ P f (some r) cell.2) fields cells) :
      ShowsRecord P fields (some r) (.struct cells)

/-- **Records are gathered** from the cells of every field: from each the first, then from each the
next. By induction on the rows, every column losing its first cell in a step. -/
theorem showsRecord_structCells {P : Field → Option Record → Cell → Prop} {fields : List Field}
    {rows : List (Option Record)} {columns : List (String × List Cell)}
    (h : List.Forall₂ (fun f column => column.1 = f.1 ∧ List.Forall₂ (P f) rows column.2)
      fields columns) :
    List.Forall₂ (ShowsRecord P fields) rows (structCells (rows.map Option.isSome) columns) := by
  induction rows generalizing columns with
  | nil => exact .nil
  | cons row rest ih =>
    rw [List.map_cons, structCells]
    refine .cons ?_ (ih ?_)
    · -- this row takes the first cell of every column
      cases row with
      | none => exact .none
      | some r =>
        refine .some (List.forall₂_map_right_iff.mpr (h.imp ?_))
        rintro f ⟨name, cells⟩ ⟨hname, hcells⟩
        cases hcells with
        | cons hcell _ => exact ⟨hname, hcell⟩
    · -- what is left of every column shows the other rows
      refine List.forall₂_map_right_iff.mpr (h.imp ?_)
      rintro f ⟨name, cells⟩ ⟨hname, hcells⟩
      cases hcells with
      | cons _ hrest => exact ⟨hname, hrest⟩

/-- The cells of the children, each with the name of its field. -/
theorem childCells_eq (children : List (String × Column)) :
    childCells children = children.map fun child => (child.1, child.2.cells) := by
  induction children with
  | nil => rfl
  | cons child rest ih =>
    obtain ⟨name, c⟩ := child
    rw [childCells, ih]
    rfl

/-- The columns of fields are built one by one. -/
theorem build_of_buildFields? {fields : List Field} {rows : List (Option Record)}
    {children : List (Field × Column)} (h : buildFields? fields rows = .ok children) :
    List.Forall₂ (fun f child => child.1 = f ∧
      build? f.2 (rows.map fun row => row.bind fun r => r.get? f.1) = .ok child.2)
      fields children := by
  induction fields generalizing children with
  | nil =>
    cases h
    exact .nil
  | cons f rest ih =>
    obtain ⟨name, s⟩ := f
    rw [buildFields?] at h
    obtain ⟨column, hcolumn, h⟩ := Outcome.bind_eq_ok.mp h
    obtain ⟨more, hmore, h⟩ := Outcome.bind_eq_ok.mp h
    cases h
    exact .cons ⟨rfl, hcolumn⟩ (ih hmore)

/-! ### Columns -/

/-- The cells of a child, with what its parent asks of them: where there is a record, the cell of a
required field is not null. -/
theorem required_of_ofChildren? {rows : List (Option Record)} {children : List (Field × Column)}
    {c : Column} (h : ofChildren? (rows.map Option.isSome) children = .ok c) :
    c = structs (rows.map Option.isSome) (children.map fun child => (child.1.1, child.2)) ∧
      ∀ child ∈ children, ∀ row cell, (row, cell) ∈ rows.zip child.2.cells → row.isSome = true →
        child.1.2.isOptional = false → cell ≠ .null := by
  rw [ofChildren?] at h
  split at h
  · next hall =>
    refine ⟨(Except.ok.inj h).symm, fun child hchild row cell hmem hrow hrequired => ?_⟩
    have hmask := List.all_eq_true.mp hall child hchild
    dsimp only at hmask
    rw [hrequired, Bool.false_or] at hmask
    exact ne_null_of_maskedBy hmask hmem hrow
  · exact nomatch h

/-- What a cell shows of a field, and that it is not null against the schema. -/
def ShowsField (f : Field) (row : Option Record) (cell : Cell) : Prop :=
  Renders f.2 (row.bind fun r => r.get? f.1) cell ∧
    (row.isSome = true → f.2.isOptional = false → cell ≠ .null)

/-- A list is shown if each of its items is. What the slot took says whether there is a list at all.
-/
theorem renders_of_showsList {e : Schema} {o : Bool} {v? : Option Value}
    {row : Option (List Value)} {cell : Cell} (htakes : Takes (.array e o) Value.items? v? row)
    (h : ShowsList (fun v cell => Renders e (some v) cell ∧ (e.isOptional = false → cell ≠ .null))
      row cell) : Renders (.array e o) v? cell := by
  refine htakes.renders (fun hrow => ?_) fun v items taken hrow => ?_
  · subst hrow
    cases h
    rfl
  · subst hrow
    cases v with
    | array items' =>
      obtain rfl := Option.some.inj taken
      cases h with
      | some each =>
        obtain ⟨hlength, hzip⟩ := List.forall₂_iff_zip.mp each
        refine .list hlength (fun p hp => (hzip hp).1) fun he cell hcell => ?_
        obtain ⟨v, -, hshows⟩ := exists_of_forall₂ each hcell
        exact hshows.2 he
    | _ => exact nomatch taken

/-- A record is shown if each of its fields is, under the name of the field. What the slot took says
whether there is a record at all. -/
theorem renders_of_showsRecord {fields : List Field} {o : Bool} {v? : Option Value}
    {row : Option Record} {cell : Cell} (htakes : Takes (.struct fields o) record? v? row)
    (h : ShowsRecord ShowsField fields row cell) : Renders (.struct fields o) v? cell := by
  refine htakes.renders (fun hrow => ?_) fun v r taken hrow => ?_
  · subst hrow
    cases h
    rfl
  · subst hrow
    cases v with
    | record slots ro =>
      obtain rfl := Option.some.inj taken
      cases h with
      | some each =>
        obtain ⟨-, hzip⟩ := List.forall₂_iff_zip.mp each
        exact .struct (map_eq_map_of_forall₂ (each.imp fun _ _ h => h.1.symm)).symm
          (fun p hp => (hzip hp).2.1) fun p hp => (hzip hp).2.2 rfl
    | _ => exact nomatch taken

/-- **A column shows its values**, one cell for each. By induction on the schema, each part of a
column being built of the parts of its values. -/
theorem renders_of_build? {s : Schema} {values : List (Option Value)} {c : Column}
    (h : build? s values = .ok c) : List.Forall₂ (Renders s) values c.cells := by
  induction s using Schema.byParts generalizing values c with
  | leaf t o =>
    rw [build?] at h
    obtain ⟨rows, hrows, h⟩ := Outcome.bind_eq_ok.mp h
    -- a decimal column may be refused for its scale, and is stored like any other if it is not
    have hc : c = scalars rows := by
      cases t with
      | decimal scale =>
        dsimp only at h
        split at h
        · exact nomatch h
        · exact (Except.ok.inj h).symm
      | _ => exact (Except.ok.inj h).symm
    rw [hc, cells, List.forall₂_map_right_iff]
    refine (Outcome.mapM_eq_ok.mp hrows).imp fun v? x? hslot => ?_
    refine (takes_of_slot? hslot).renders (fun hx => ?_) fun v x taken hx => ?_
    · rw [hx]
    · rw [hx]
      exact .leaf (LeafType.shows_of_scalar? taken)
  | array e o ih =>
    rw [build?] at h
    obtain ⟨rows, hrows, h⟩ := Outcome.bind_eq_ok.mp h
    obtain ⟨items, hitems, h⟩ := Outcome.bind_eq_ok.mp h
    split at h
    · exact nomatch h
    · next hnulls =>
      obtain rfl := Except.ok.inj h
      have hrequired : e.isOptional = false → ∀ cell ∈ items.cells, cell ≠ .null :=
        fun he => ne_null_of_nullCount (by simpa [he] using hnulls)
      -- the items of all rows are shown, and none of them is null against the schema
      have hcells : List.Forall₂ (fun v cell => Renders e (some v) cell ∧
          (e.isOptional = false → cell ≠ .null)) (rows.flatMap (·.getD [])) items.cells :=
        forall₂_imp_of_mem (List.forall₂_map_left_iff.mp (ih hitems))
          fun _ _ cell hcell hshows => ⟨hshows, fun he => hrequired he cell hcell⟩
      rw [cells]
      exact forall₂_trans (takes_of_takeLists? hrows) (showsList_listCells hcells)
        fun _ _ _ _ => renders_of_showsList
  | struct fields o ih =>
    rw [build?] at h
    obtain ⟨rows, hrows, h⟩ := Outcome.bind_eq_ok.mp h
    obtain ⟨children, hchildren, h⟩ := Outcome.bind_eq_ok.mp h
    obtain ⟨rfl, hrequired⟩ := required_of_ofChildren? h
    have htakes : List.Forall₂ (Takes (.struct fields o) record?) values rows :=
      (Outcome.mapM_eq_ok.mp hrows).imp fun _ _ => takes_of_slot?
    -- every field of all records is shown, in a column of its own
    have hcolumns : List.Forall₂ (fun f column => column.1 = f.1 ∧
        List.Forall₂ (ShowsField f) rows column.2) fields
        (childCells (children.map fun child => (child.1.1, child.2))) := by
      rw [childCells_eq, List.map_map, List.forall₂_map_right_iff]
      refine forall₂_imp_of_mem (build_of_buildFields? hchildren) ?_
      rintro f hf ⟨f', column⟩ hchild ⟨rfl, hbuild⟩
      have hshows := List.forall₂_map_left_iff.mp (ih f' hf hbuild)
      refine ⟨rfl, List.forall₂_iff_zip.mpr ⟨hshows.length_eq, fun hmem => ⟨?_, ?_⟩⟩⟩
      · exact (List.forall₂_iff_zip.mp hshows).2 hmem
      · exact hrequired _ hchild _ _ hmem
    rw [cells]
    exact forall₂_trans htakes (showsRecord_structCells hcolumns)
      fun _ _ _ _ => renders_of_showsRecord

end Column

namespace Batch

/-- **A column of a batch and a field of its records**: the name, the type and the nullability are the
field's, and there is a cell for every record that shows the record's value. -/
structure Shows (records : List Record) (f : Field) (column : ColumnField × Column) : Prop where
  name : column.1.1 = f.1
  type : ColumnType.ofSchema? f.2 = .ok column.1.2.1
  nullable : column.1.2.2 = f.2.isOptional
  rows : List.Forall₂ (fun r cell => Renders f.2 (r.get? f.1) cell) records column.2.cells
  required : f.2.isOptional = false → ∀ cell ∈ column.2.cells, cell ≠ .null

/-- The types of the columns are made field by field, each with the name and the nullability of its
field. -/
theorem types_of_ofFields? {fields : List Field} {types : List ColumnField}
    (h : ColumnType.ofFields? fields = .ok types) :
    List.Forall₂ (fun f type => type.1 = f.1 ∧ ColumnType.ofSchema? f.2 = .ok type.2.1 ∧
      type.2.2 = f.2.isOptional) fields types := by
  induction fields generalizing types with
  | nil =>
    cases h
    exact .nil
  | cons f rest ih =>
    obtain ⟨name, s⟩ := f
    rw [ColumnType.ofFields?] at h
    obtain ⟨type, htype, h⟩ := Outcome.bind_eq_ok.mp h
    obtain ⟨more, hmore, h⟩ := Outcome.bind_eq_ok.mp h
    cases h
    exact .cons ⟨rfl, htype, rfl⟩ (ih hmore)

/-- The rows of a batch are records. Anything else among them fails before a column is built. -/
theorem eq_map_of_records? {schema : Schema} {rows : List Value} {records : List Record}
    (h : records? schema rows = .ok records) : rows = records.map Record.toValue := by
  rw [← List.forall₂_eq_eq_eq, List.forall₂_map_right_iff]
  refine (Outcome.mapM_eq_ok.mp h).imp fun row r hrow => ?_
  cases row with
  | record slots o =>
    obtain rfl := Except.ok.inj hrow
    rfl
  | _ => exact nomatch hrow

/-- **A batch shows its records**: it has a column for every field of the schema, and in it a cell for
every row. -/
theorem shows_of_ofRows {schema : Schema} {rows : List Value} {batch : Batch}
    (h : ofRows? schema rows = .ok batch) :
    batch.rowCount = rows.length ∧ ∃ records : List Record, rows = records.map Record.toValue ∧
      List.Forall₂ (Shows records) schema.fields batch.columns := by
  rw [ofRows?] at h
  obtain ⟨types, htypes, h⟩ := Outcome.bind_eq_ok.mp h
  obtain ⟨records, hrecords, h⟩ := Outcome.bind_eq_ok.mp h
  obtain ⟨columns, hcolumns, h⟩ := Outcome.bind_eq_ok.mp h
  have hfields : ColumnType.ofFields? schema.fields = .ok types := by
    cases schema with
    | struct fields o => exact htypes
    | _ => exact nomatch htypes
  split at h
  · next hall =>
    obtain rfl := Except.ok.inj h
    refine ⟨rfl, records, eq_map_of_records? hrecords, ?_⟩
    -- each column shows the values of its field, and a column of a required field was found without
    -- nulls
    have hbuilt : List.Forall₂ (fun f c => List.Forall₂ (fun r cell =>
        Renders f.2 (r.get? f.1) cell) records c.cells ∧
        (f.2.isOptional = false → ∀ cell ∈ c.cells, cell ≠ .null))
        schema.fields (columns.map Prod.snd) := by
      rw [List.forall₂_map_right_iff]
      refine forall₂_imp_of_mem (Column.build_of_buildFields? hcolumns) ?_
      rintro f - ⟨f', c⟩ hc ⟨rfl, hbuild⟩
      rw [List.map_map] at hbuild
      refine ⟨List.forall₂_map_left_iff.mp (Column.renders_of_build? hbuild), fun hrequired => ?_⟩
      have hnulls := List.all_eq_true.mp hall _ hc
      dsimp only at hnulls
      rw [hrequired, Bool.false_or] at hnulls
      exact Column.ne_null_of_nullCount (of_decide_eq_true hnulls)
    exact (forall₂_zip (types_of_ofFields? hfields) hbuilt).imp fun f column h =>
      ⟨h.1.1, h.1.2.1, h.1.2.2, h.2.1, h.2.2⟩
  · exact nomatch h

/-- Records inside a list, a null list, and numbers under a decimal type. -/
theorem shows_of_ofRows_nested :
    let item : Schema := .struct [("x", .leaf (.int .w32) true)] false
    let total : Field := ("total", .leaf (.decimal 1) false)
    let parts : Field := ("parts", .array item true)
    let part : Value → Value := fun x => .record [(("x", .leaf (.int .w32) true), x)] false
    let rows : List Value := [
      .record [(parts, .array [part (.int ⟨.w8, 7, by decide⟩), part .null]),
        (total, .decimal ⟨-125, 2⟩)] false,
      .record [(parts, .null), (total, .int ⟨.w16, 300, by decide⟩)] false]
    ∃ batch, ofRows? (.struct [parts, total] false) rows = .ok batch ∧
      batch.rowCount = rows.length ∧ ∃ records : List Record, rows = records.map Record.toValue ∧
        List.Forall₂ (Shows records) [parts, total] batch.columns := by
  intro item total parts part rows
  have hok : (match ofRows? (.struct [parts, total] false) rows with
      | .ok _ => true
      | .error _ => false) = true := by decide +kernel
  split at hok
  · next batch h => exact ⟨batch, h, shows_of_ofRows h⟩
  · exact nomatch hok

end Batch
end DocStream
