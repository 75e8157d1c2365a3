import DocStream.Batch.Basic
import DocStream.Proofs.Number.Widening

/-!
# What a cell shows

A record has a value in every field, and a batch has a cell in its place. What a cell shows is said
here value by value, as if every record had a row of its own and there were no columns.

* `LeafType.Shows` — what is stored for a leaf; `LeafType.shows_of_scalar?`, **a column stores that**;
* `Renders` — **the cell of a value under a schema**.

The relation `Renders` follows the schema and not the columns, so it can be read without knowing how
columns are laid out. It says what is shown, for every value that a column takes; whether a value is
taken at all is a question of its own.
-/

namespace DocStream

/-! ### Leaves -/

/-- The number of a value that has places, or is without any. These are the values that may stand
under a decimal type; a float may not. -/
def Value.toRat? : Value → Option ℚ
  | .decimal d => some d.toRat
  | .bigint n => some n
  | .int n => some n.val
  | _ => none

/-- **What is stored for a leaf.** Integers and floats are widened without loss, and of a number
under a decimal type its places beyond the scale are cut off. -/
inductive LeafType.Shows : LeafType → Value → Scalar → Prop where
  | boolean (b : Bool) : Shows .boolean (.boolean b) (.boolean b)
  | int {w : IntWidth} {n : SizedInt} (narrow : n.width.bits ≤ w.bits) :
      Shows (.int w) (.int n) (.integer n.val)
  | float32 (x : Float32Bits) : Shows .float32 (.float32 x) (.float32 x)
  | float64 (x : Float64Bits) : Shows .float64 (.float64 x) (.float64 x)
  | widened {x : Float32Bits} {y : Float64Bits} (widens : x.Widens y) :
      Shows .float64 (.float32 x) (.float64 y)
  | string (s : String) : Shows .string (.string s) (.text s)
  | bytes (bs : List UInt8) : Shows .bytes (.bytes bs) (.bytes bs)
  /-- The units of the last place. -/
  | decimal {scale : ℤ} {v : Value} {q : ℚ} (exact : v.toRat? = some q) :
      Shows (.decimal scale) v (.integer (truncate (q * 10 ^ scale)))
  | timestamp (t : Instant) : Shows .timestamp (.timestamp t) (.integer t.millis)

/-- The units of a number are its integer part at the scale. -/
theorem Column.toRat?_of_decimalUnits? {scale : ℤ} {v : Value} {units : ℤ}
    (h : decimalUnits? scale v = some units) :
    ∃ q, v.toRat? = some q ∧ units = truncate (q * 10 ^ scale) := by
  obtain ⟨d, hd, rfl⟩ := Option.map_eq_some_iff.mp (Option.filter_eq_some_iff.mp h).1
  refine ⟨d.toRat, ?_, d.unscaled_rescale scale⟩
  cases v with
  | decimal | bigint | int =>
    obtain rfl := Option.some.inj hd
    simp only [Value.toRat?, Decimal.toRat_ofInt]
  | _ => exact nomatch hd

/-- **A column stores what shows the leaf.** The cases are those of the table of types and values
that columns go by. -/
theorem LeafType.shows_of_scalar? {t : LeafType} {v : Value} {x : Scalar}
    (h : Column.scalar? t v = some x) : t.Shows v x := by
  unfold Column.scalar? at h
  split at h
  · obtain rfl := Option.some.inj h
    exact .boolean _
  · split at h
    · next hle =>
      obtain rfl := Option.some.inj h
      exact .int hle
    · exact nomatch h
  · obtain rfl := Option.some.inj h
    exact .float32 _
  · obtain rfl := Option.some.inj h
    exact .widened (Binary.widens_binary64 _)
  · obtain rfl := Option.some.inj h
    exact .float64 _
  · obtain rfl := Option.some.inj h
    exact .string _
  · obtain rfl := Option.some.inj h
    exact .bytes _
  · obtain ⟨units, hunits, rfl⟩ := Option.map_eq_some_iff.mp h
    obtain ⟨q, hq, rfl⟩ := Column.toRat?_of_decimalUnits? hunits
    exact .decimal hq
  · obtain rfl := Option.some.inj h
    exact .timestamp _
  · exact nomatch h

/-! ### Cells -/

/-- **The cell of a value under a schema.** A missing value and a null are null; lists are shown item
by item, and records field by field, by name. What is required is not null. -/
inductive Renders : Schema → Option Value → Cell → Prop where
  | missing {s : Schema} : Renders s none .null
  | null {s : Schema} (optional : s.isOptional = true) : Renders s (some .null) .null
  | leaf {t : LeafType} {o : Bool} {v : Value} {x : Scalar} (shows : t.Shows v x) :
      Renders (.leaf t o) (some v) (.scalar x)
  | list {e : Schema} {o : Bool} {items : List Value} {cells : List Cell}
      (length : items.length = cells.length)
      (each : ∀ p ∈ items.zip cells, Renders e (some p.1) p.2)
      (required : e.isOptional = false → ∀ cell ∈ cells, cell ≠ .null) :
      Renders (.array e o) (some (.array items)) (.list cells)
  | struct {fields : List Field} {o ro : Bool} {slots : List Slot} {cells : List (String × Cell)}
      (names : cells.map Prod.fst = fields.map Prod.fst)
      (each : ∀ p ∈ fields.zip cells, Renders p.1.2 (Record.get? ⟨slots, ro⟩ p.1.1) p.2.2)
      (required : ∀ p ∈ fields.zip cells, p.1.2.isOptional = false → p.2.2 ≠ .null) :
      Renders (.struct fields o) (some (.record slots ro)) (.struct cells)

end DocStream
