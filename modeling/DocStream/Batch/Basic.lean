import DocStream.Batch.Column

/-!
# Record batches

Records of one struct schema, laid out in one column per field. `Batch.ofRows?` settles the columns'
types first, then looks at the rows, then builds column after column; a required column must have a
value in every row.
-/

namespace DocStream

/-- **A batch of records**: how many there are, and the columns of their fields in the order of the
schema. -/
structure Batch where
  rowCount : Nat
  columns : List (ColumnField × Column)

namespace Batch

/-- The records of some rows, in order. Each row has to be one; the first that is none makes the
batch fail, null included. -/
def records? (schema : Schema) (rows : List Value) : Outcome (List Record) :=
  rows.mapM fun row =>
    match Column.record? row with
    | some r => .ok r
    | none => .error (.unhandled schema.describe row.kind)

/-- **The batch of some rows** that share a schema. The columns are built for the whole batch at
once, so a single row that does not fit makes the whole batch fail, and there is no account of which
row it was. -/
def ofRows? (schema : Schema) (rows : List Value) : Outcome Batch := do
  let types ← schema.columnFields?
  let records ← records? schema rows
  let columns ← Column.buildFields? schema.fields (records.map some)
  if columns.all fun ((_, s), c) => s.isOptional || c.nullCount = 0 then
    return ⟨rows.length, types.zip (columns.map Prod.snd)⟩
  else .error (.output "Failed to create RecordBatch: null in a required column")

end Batch
end DocStream
