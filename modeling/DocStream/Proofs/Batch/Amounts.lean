import DocStream.Proofs.Batch.Acceptance

/-!
# Amounts in a batch

A number under a decimal type is stored as an integer, its units at the scale of the type. The only
thing that storing asks of them is that 128 bits hold them. That is less than what the type says:
its 38 digits leave out the largest integers of 128 bits, and a number with more places than the
scale is cut off. Both are found at every place of a batch, however deep, by comparing its rows with
the records they were built from.

* `Schema.part?`, `Value.part?`, `Cell.part?` — what stands at a place, given by positions;
* `Renders.exists_part?` and `Renders.exists_cell?` — **a cell and its value have the same places**;
* `IsAmount` — **the units of a number**, and when they are exact and within 38 digits;
* `Batch.amounts_of_ofRows` — **the amounts of a batch** are those of its records;
* `Batch.lost_of_ofRows` — amounts that are not exact, and not within 38 digits.

Places are given by positions, not by names, since a cell has positions only; the value has fields
in an order of its own, and is asked by the name that the schema has at the position. That is why
`Value.part?` is given the schema and `Cell.part?` is not.
-/

namespace DocStream

/-! ### Places -/

/-- **What stands at a place of a schema**, given by the positions of the fields on the way there.
All items of an array have one schema. -/
def Schema.part? : List Nat → Schema → Option Schema
  | [], s => some s
  | _ :: rest, .array e _ => e.part? rest
  | i :: rest, .struct fields _ => fields[i]?.bind fun f => f.2.part? rest
  | _ :: _, .leaf .. => none

/-- **What stands at a place of a value** that is read under a schema: the item at a position, and
the field that the schema has at a position, by its name. -/
def Value.part? : List Nat → Schema → Value → Option Value
  | [], _, v => some v
  | i :: rest, .array e _, .array items => items[i]?.bind (part? rest e)
  | i :: rest, .struct fields _, .record slots ro =>
    fields[i]?.bind fun f => (Record.get? ⟨slots, ro⟩ f.1).bind (part? rest f.2)
  | _ :: _, _, _ => none

/-- **What stands at a place of a cell.** -/
def Cell.part? : List Nat → Cell → Option Cell
  | [], cell => some cell
  | i :: rest, .list items => items[i]?.bind (part? rest)
  | i :: rest, .struct fields => fields[i]?.bind fun f => part? rest f.2
  | _ :: _, _ => none

/-- What stands at a place of a value is read under what stands there in the schema. -/
theorem reads_of_part? {path : List Nat} {s t : Schema} {v w : Value}
    (ht : s.part? path = some t) (hw : v.part? path s = some w) : Reads s (some v) t (some w) := by
  induction path generalizing s v with
  | nil =>
    obtain rfl := Option.some.inj ht
    obtain rfl := Option.some.inj hw
    exact .self
  | cons i rest ih =>
    cases s with
    | leaf t' o => exact nomatch ht
    | array e o =>
      cases v with
      | array items =>
        obtain ⟨u, hu, hw⟩ := Option.bind_eq_some_iff.mp hw
        exact .item (List.mem_of_getElem? hu) (ih ht hw)
      | _ => exact nomatch hw
    | struct fields o =>
      cases v with
      | record slots ro =>
        obtain ⟨f, hf, ht⟩ := Option.bind_eq_some_iff.mp ht
        obtain ⟨f', hf', hw⟩ := Option.bind_eq_some_iff.mp hw
        -- the schema and the value are asked for the field at the same position
        obtain rfl := Option.some.inj (hf.symm.trans hf')
        obtain ⟨u, hu, hw⟩ := Option.bind_eq_some_iff.mp hw
        exact .field (List.mem_of_getElem? hf) (hu ▸ ih ht hw)
      | _ => exact nomatch hw

namespace Renders

/-- **What a cell shows at a place** is the value's there, unless it is null. By induction on the
way there: a cell that has something at the place is a list or a struct, and so is the value it
shows. -/
theorem exists_part? {path : List Nat} {s t : Schema} {v? : Option Value} {cell part : Cell}
    (h : Renders s v? cell) (ht : s.part? path = some t) (hpart : cell.part? path = some part)
    (hne : part ≠ .null) :
    ∃ v w, v? = some v ∧ v.part? path s = some w ∧ Renders t (some w) part := by
  induction path generalizing s v? cell with
  | nil =>
    obtain rfl := Option.some.inj ht
    obtain rfl := Option.some.inj hpart
    cases v? with
    | some v => exact ⟨v, v, rfl, rfl, h⟩
    | none =>
      cases h with
      | missing => exact absurd rfl hne
  | cons i rest ih =>
    cases h with
    | missing | null | leaf => exact nomatch hpart
    | @list e o items cells length each required =>
      -- the cell at a position shows the item at that position
      obtain ⟨c, hc, hpart⟩ := Option.bind_eq_some_iff.mp hpart
      obtain ⟨hi, rfl⟩ := List.getElem?_eq_some_iff.mp hc
      have hi' : i < items.length := length ▸ hi
      obtain ⟨v, w, hv, hw, hshows⟩ := ih (each _ (getElem_mem_zip hi' hi)) ht hpart
      obtain rfl := Option.some.inj hv
      exact ⟨_, w, rfl, Option.bind_eq_some_iff.mpr ⟨_, List.getElem?_eq_getElem hi', hw⟩, hshows⟩
    | @struct fields o ro slots cells names each required =>
      -- the cell at a position shows the field that the schema has there
      obtain ⟨f, hf, ht⟩ := Option.bind_eq_some_iff.mp ht
      obtain ⟨c, hc, hpart⟩ := Option.bind_eq_some_iff.mp hpart
      obtain ⟨hi, rfl⟩ := List.getElem?_eq_some_iff.mp hc
      obtain ⟨hi', rfl⟩ := List.getElem?_eq_some_iff.mp hf
      obtain ⟨v, w, hv, hw, hshows⟩ := ih (each _ (getElem_mem_zip hi' hi)) ht hpart
      exact ⟨_, w, rfl, Option.bind_eq_some_iff.mpr ⟨_, hf,
        Option.bind_eq_some_iff.mpr ⟨v, hv, hw⟩⟩, hshows⟩

/-- **What a value has at a place** is shown there. The way is the same, and now it is the value
that has something at the place. -/
theorem exists_cell? {path : List Nat} {s t : Schema} {v w : Value} {cell : Cell}
    (h : Renders s (some v) cell) (ht : s.part? path = some t) (hw : v.part? path s = some w) :
    ∃ part, cell.part? path = some part ∧ Renders t (some w) part := by
  induction path generalizing s v cell with
  | nil =>
    obtain rfl := Option.some.inj ht
    obtain rfl := Option.some.inj hw
    exact ⟨cell, rfl, h⟩
  | cons i rest ih =>
    cases h with
    | null => cases s <;> exact nomatch hw
    | leaf => exact nomatch ht
    | @list e o items cells length each required =>
      obtain ⟨u, hu, hw⟩ := Option.bind_eq_some_iff.mp hw
      obtain ⟨hi, rfl⟩ := List.getElem?_eq_some_iff.mp hu
      have hi' : i < cells.length := length ▸ hi
      obtain ⟨part, hpart, hshows⟩ := ih (each _ (getElem_mem_zip hi hi')) ht hw
      exact ⟨part, Option.bind_eq_some_iff.mpr ⟨_, List.getElem?_eq_getElem hi', hpart⟩, hshows⟩
    | @struct fields o ro slots cells names each required =>
      obtain ⟨f, hf, ht⟩ := Option.bind_eq_some_iff.mp ht
      obtain ⟨f', hf', hw⟩ := Option.bind_eq_some_iff.mp hw
      obtain rfl := Option.some.inj (hf.symm.trans hf')
      obtain ⟨u, hu, hw⟩ := Option.bind_eq_some_iff.mp hw
      obtain ⟨hi, rfl⟩ := List.getElem?_eq_some_iff.mp hf
      -- there is a cell for every field, by the names
      have hi' : i < cells.length := by
        have := congrArg List.length names
        rw [List.length_map, List.length_map] at this
        omega
      have hshows := each _ (getElem_mem_zip hi hi')
      rw [hu] at hshows
      obtain ⟨part, hpart, hshows⟩ := ih hshows ht hw
      exact ⟨part, Option.bind_eq_some_iff.mpr ⟨_, List.getElem?_eq_getElem hi', hpart⟩, hshows⟩

/-- Under a decimal type a number is shown by its units. -/
theorem eq_units {k : ℤ} {o : Bool} {w : Value} {x : Scalar}
    (h : Renders (.leaf (.decimal k) o) (some w) (.scalar x)) :
    ∃ q, w.toRat? = some q ∧ x = .integer (truncate (q * 10 ^ k)) := by
  cases h with
  | leaf shows =>
    cases shows with
    | decimal exact => exact ⟨_, exact, rfl⟩

end Renders

/-! ### Amounts -/

/-- A number and its integer part are less than the same integers. -/
theorem abs_truncate_lt_iff {q : ℚ} {n : ℤ} : |truncate q| < n ↔ |q| < n := by
  rw [truncate]
  split
  · next hq =>
    rw [abs_of_nonneg (Int.floor_nonneg.mpr hq), abs_of_nonneg hq]
    exact Int.floor_lt
  · next hq =>
    have hneg := (not_le.mp hq).le
    have hceil : ⌈q⌉ ≤ 0 := Int.ceil_le.mpr (by exact_mod_cast hneg)
    rw [abs_of_nonpos hceil, abs_of_nonpos hneg, neg_lt, Int.lt_ceil, Int.cast_neg, neg_lt]

/-- **The units of a number at a scale**: its integer part in units of the last place, which 128
bits hold. They make up the number exactly if it has no more places than the scale, and have at most
38 digits exactly if it is that small itself. -/
structure IsAmount (k : ℤ) (q : ℚ) (units : ℤ) : Prop where
  eq : units = truncate (q * 10 ^ k)
  fits : -2 ^ 127 ≤ units ∧ units < 2 ^ 127
  exact : (units : ℚ) * 10 ^ (-k) = q ↔ ∃ z : ℤ, (z : ℚ) = q * 10 ^ k
  digits : |units| < 10 ^ 38 ↔ |q * 10 ^ k| < 10 ^ 38

/-- The units that 128 bits hold are an amount of the number that was cut off. -/
theorem isAmount_truncate {k : ℤ} {q : ℚ} (h : fitsSigned 128 (truncate (q * 10 ^ k)) = true) :
    IsAmount k q (truncate (q * 10 ^ k)) where
  eq := rfl
  fits := by simpa [fitsSigned] using h
  exact := truncate_mul_eq_iff
  digits := by
    rw [abs_truncate_lt_iff]
    norm_num

namespace Batch

/-- The rows of a batch, each a struct of its columns' cells. -/
def cells (batch : Batch) : List Cell := batch.toColumn.cells

/-- **The amounts of a batch are those of its records.** Wherever the schema has a decimal type, a
row of the batch shows an amount exactly if the record of that row has a number there, and the
amount is the number's. -/
theorem amounts_of_ofRows {schema : Schema} {rows : List Value} {batch : Batch}
    (h : ofRows? schema rows = .ok batch) :
    List.Forall₂ (fun row cell => ∀ path k o, schema.part? path = some (.leaf (.decimal k) o) →
      (∀ x, cell.part? path = some (.scalar x) → ∃ w q units, row.part? path schema = some w ∧
        w.toRat? = some q ∧ x = .integer units ∧ IsAmount k q units) ∧
      (∀ w q, row.part? path schema = some w → w.toRat? = some q →
        ∃ units, cell.part? path = some (.scalar (.integer units)) ∧ IsAmount k q units))
      rows batch.cells := by
  obtain ⟨fields, so, rfl⟩ : ∃ fields so, schema = .struct fields so := by
    cases schema with
    | struct fields so => exact ⟨fields, so, rfl⟩
    | _ => exact nomatch h
  obtain ⟨-, hbuild⟩ := build?_of_ofRows? h
  obtain ⟨hstores, -⟩ := Column.stores_of_build? hbuild
  have hrenders := List.forall₂_map_left_iff.mp (Column.renders_of_build? hbuild)
  refine forall₂_imp_of_mem hrenders fun row hrow cell _ hcell path k o ht => ?_
  -- a number at the place has been stored, so its units fit
  have hfits : ∀ w q, row.part? path (.struct fields so) = some w → w.toRat? = some q →
      IsAmount k q (truncate (q * 10 ^ k)) := by
    intro w q hw hq
    have hread := (stores_iff.mp (hstores row (List.mem_map_of_mem hrow))).2
    exact isAmount_truncate ((hread _ _ (reads_of_part? ht hw)).2 q hq)
  constructor
  · -- what is shown at the place is the number's units, and not null
    intro x hx
    obtain ⟨v, w, hv, hw, hshows⟩ := hcell.exists_part? ht hx nofun
    obtain rfl := Option.some.inj hv
    obtain ⟨q, hq, rfl⟩ := hshows.eq_units
    exact ⟨w, q, _, hw, hq, rfl, hfits w q hw hq⟩
  · -- a number at the place is shown, since only null is shown as null
    intro w q hw hq
    obtain ⟨part, hpart, hshows⟩ := hcell.exists_cell? ht hw
    cases hshows with
    | null => exact nomatch hq
    | leaf shows =>
      obtain ⟨q', hq', rfl⟩ := (Renders.leaf (o := o) shows).eq_units
      obtain rfl := Option.some.inj (hq.symm.trans hq')
      exact ⟨_, hpart, hfits w q hw hq⟩

/-- An amount with fewer places than the scale, in a record inside a list. -/
theorem amounts_of_ofRows_nested :
    let amount : Field := ("amount", .leaf (.decimal 2) true)
    let lines : Field := ("lines", .array (.struct [amount] false) false)
    let line : Value → Value := fun v => .record [(amount, v)] false
    let d : Decimal := ⟨125, 1⟩
    let row : Value := .record [(lines, .array [line .null, line (.decimal d)])] false
    ∃ batch cell, ofRows? (.struct [lines] false) [row] = .ok batch ∧ batch.cells = [cell] ∧
      ∃ units, cell.part? [0, 1, 0] = some (.scalar (.integer units)) ∧
        IsAmount 2 d.toRat units := by
  intro amount lines line d row
  have hok : (match ofRows? (.struct [lines] false) [row] with
      | .ok _ => true
      | .error _ => false) = true := by decide +kernel
  split at hok
  · next batch h =>
    have hamounts := amounts_of_ofRows h
    generalize hcells : batch.cells = cells at hamounts
    cases hamounts with
    | cons hrow hrest =>
      cases hrest
      exact ⟨batch, _, h, hcells, (hrow [0, 1, 0] 2 true rfl).2 (.decimal d) d.toRat rfl rfl⟩
  · exact nomatch hok

/-- **Amounts are lost without a failure.** One with more places than the scale is cut off, and one
of 39 digits is stored though the type has 38. -/
theorem lost_of_ofRows :
    (let amount : Field := ("a", .leaf (.decimal 1) true)
     let d : Decimal := ⟨125, 2⟩
     let row : Value := .record [(amount, .decimal d)] false
     ∃ batch, ofRows? (.struct [amount] false) [row] = .ok batch ∧
       batch.cells = [.struct [("a", .scalar (.integer 12))]] ∧
       ((12 : ℤ) : ℚ) * 10 ^ (-1 : ℤ) ≠ d.toRat) ∧
    (let amount : Field := ("a", .leaf (.decimal 0) true)
     let row : Value := .record [(amount, .bigint (10 ^ 38))] false
     ∃ batch, ofRows? (.struct [amount] false) [row] = .ok batch ∧
       batch.cells = [.struct [("a", .scalar (.integer (10 ^ 38)))]] ∧
       ¬ |(10 ^ 38 : ℤ)| < 10 ^ 38) := by
  refine ⟨⟨_, rfl, rfl, ?_⟩, ⟨_, rfl, rfl, by decide⟩⟩
  rw [Decimal.toRat]
  norm_num

end Batch
end DocStream
