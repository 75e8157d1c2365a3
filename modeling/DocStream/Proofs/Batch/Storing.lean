import DocStream.Proofs.Batch.Rendering
import DocStream.Proofs.Envelope.Acceptance

/-!
# What can be stored

A value is checked against a schema in two ways. Written as plain JSON it may have null anywhere,
and numbers of any size; stored in a column it has null only where the schema has, and its numbers
under decimal types are bounded. Apart from that both take the same values. What is stored is said
here value by value, without any columns.

* `Reads` — **what is read of a value under a schema**, and `EachRead`, a property of all of it;
* `Column.exists_scalar?_iff` — a leaf is stored exactly if it is written and its units fit;
* `Stores` — **what a column takes of a value**;
* `stores_iff` — **what a column takes of the values that can be written**.

Both checks go down the schema and the value together. The one that writes is a function, with an
outcome for the whole value; to compare the two, what is read on the way is made a relation, and
storing is writing with a property asked of everything that is read.
-/

namespace DocStream

/-! ### What is read of a value -/

/-- **What is read of a value under a schema**, each part with the schema it is read under: every
item of an array, and of a record the fields that the schema names. A field that the record lacks
has no value. Of null nothing more is read. -/
inductive Reads : Schema → Option Value → Schema → Option Value → Prop where
  | self {s : Schema} {v? : Option Value} : Reads s v? s v?
  | item {e t : Schema} {o : Bool} {items : List Value} {v : Value} {w? : Option Value}
      (mem : v ∈ items) (reads : Reads e (some v) t w?) :
      Reads (.array e o) (some (.array items)) t w?
  | field {fields : List Field} {o ro : Bool} {slots : List Slot} {f : Field} {t : Schema}
      {w? : Option Value} (mem : f ∈ fields)
      (reads : Reads f.2 (Record.get? ⟨slots, ro⟩ f.1) t w?) :
      Reads (.struct fields o) (some (.record slots ro)) t w?

/-- All that is read of a value under a schema has a property. -/
def EachRead (P : Schema → Option Value → Prop) (s : Schema) (v? : Option Value) : Prop :=
  ∀ t w?, Reads s v? t w? → P t w?

/-- Nothing is missing or null, unless the schema has nulls. -/
def Present (t : Schema) : Option Value → Prop
  | none | some .null => t.isOptional = true
  | _ => True

/-- A number under a decimal type, cut off at its scale, fits 128 bits. Of everything else nothing
is asked. -/
def UnitsFit : Schema → Option Value → Prop
  | .leaf (.decimal k) _, some w =>
    ∀ q, w.toRat? = some q → fitsSigned 128 (truncate (q * 10 ^ k)) = true
  | _, _ => True

theorem unitsFit_none {t : Schema} : UnitsFit t none := by
  unfold UnitsFit
  split
  · exact nomatch ‹none = some _›
  · trivial

theorem unitsFit_null {t : Schema} : UnitsFit t (some .null) := by
  unfold UnitsFit
  split
  · next h =>
    cases h
    exact fun q => nofun
  · trivial

section EachRead

variable {P Q : Schema → Option Value → Prop}

/-- Of a leaf, of null and of a missing value nothing more is read. -/
theorem eachRead_of_forall_ne {s : Schema} {v? : Option Value}
    (harray : ∀ items, v? ≠ some (.array items))
    (hrecord : ∀ slots o, v? ≠ some (.record slots o)) : EachRead P s v? ↔ P s v? := by
  refine ⟨fun h => h s v? .self, fun h t w? hreads => ?_⟩
  cases hreads with
  | self => exact h
  | item => exact absurd rfl (harray _)
  | field => exact absurd rfl (hrecord _ _)

/-- Of a missing value nothing is read but that it is missing. -/
theorem eachRead_none {s : Schema} : EachRead P s none ↔ P s none :=
  eachRead_of_forall_ne (fun _ => nofun) fun _ _ => nofun

/-- Of an array each item is read. -/
theorem eachRead_array {e : Schema} {o : Bool} {items : List Value} :
    EachRead P (.array e o) (some (.array items)) ↔
      P (.array e o) (some (.array items)) ∧ ∀ v ∈ items, EachRead P e (some v) := by
  constructor
  · exact fun h => ⟨h _ _ .self, fun v hv t w? hreads => h t w? (.item hv hreads)⟩
  · rintro ⟨hself, hitems⟩ t w? hreads
    cases hreads with
    | self => exact hself
    | item mem reads => exact hitems _ mem t w? reads

/-- Of a record each field of the schema is read. -/
theorem eachRead_record {fields : List Field} {o ro : Bool} {slots : List Slot} :
    EachRead P (.struct fields o) (some (.record slots ro)) ↔
      P (.struct fields o) (some (.record slots ro)) ∧
        ∀ f ∈ fields, EachRead P f.2 (Record.get? ⟨slots, ro⟩ f.1) := by
  constructor
  · exact fun h => ⟨h _ _ .self, fun f hf t w? hreads => h t w? (.field hf hreads)⟩
  · rintro ⟨hself, hfields⟩ t w? hreads
    cases hreads with
    | self => exact hself
    | field mem reads => exact hfields _ mem t w? reads

end EachRead

/-! ### Leaves -/

theorem LeafType.Shows.isLeaf {t : LeafType} {v : Value} {x : Scalar} (h : t.Shows v x) :
    v.isLeaf = true := by
  cases h with
  | decimal exact =>
    cases v with
    | null | array | map | record => exact nomatch exact
    | _ => rfl
  | _ => rfl

namespace Column

/-- The units of a number are its integer part at the scale, if that fits. -/
theorem decimalUnits?_eq (k : ℤ) (v : Value) :
    decimalUnits? k v =
      (v.toRat?.map fun q => truncate (q * 10 ^ k)).filter (fitsSigned 128) := by
  unfold decimalUnits?
  cases v with
  | decimal d => simp only [Value.toRat?, Option.map_some, Decimal.unscaled_rescale]
  | bigint n =>
    simp only [Value.toRat?, Option.map_some, Decimal.unscaled_rescale, Decimal.toRat_ofInt]
  | int n =>
    simp only [Value.toRat?, Option.map_some, Decimal.unscaled_rescale, Decimal.toRat_ofInt]
  | _ => rfl

/-- Numbers under a decimal type are written whatever their size. -/
theorem accepts_decimal {k : ℤ} {v : Value} :
    (LeafType.decimal k).accepts v = true ↔ ∃ q, v.toRat? = some q := by
  cases v with
  | decimal d => exact iff_of_true rfl ⟨_, rfl⟩
  | bigint n => exact iff_of_true rfl ⟨_, rfl⟩
  | int n => exact iff_of_true rfl ⟨_, rfl⟩
  | _ => exact iff_of_false nofun nofun

/-- **A leaf is stored exactly if it is written**, and its units fit if it stands under a decimal
type. The tables of the two ways agree entry by entry. -/
theorem exists_scalar?_iff {t : LeafType} {o : Bool} {v : Value} :
    (∃ x, scalar? t v = some x) ↔ t.accepts v = true ∧ UnitsFit (.leaf t o) (some v) := by
  cases t with
  | decimal k =>
    rw [accepts_decimal, UnitsFit]
    simp only [scalar?, decimalUnits?_eq]
    cases v.toRat? with
    | none => simp
    | some q => simp [Option.filter_some]
  | _ =>
    -- under any other type there is nothing to fit
    rw [UnitsFit, and_true]
    · cases v <;> simp [scalar?, LeafType.accepts]
    · rintro _ _ _ ⟨⟩

end Column

/-! ### What a column takes -/

/-- **What a column takes of a value**: null only where the schema has nulls, a field that a record
lacks being null, and of a leaf its scalar. -/
inductive Stores : Schema → Value → Prop where
  | null {s : Schema} (optional : s.isOptional = true) : Stores s .null
  | leaf {t : LeafType} {o : Bool} {v : Value} {x : Scalar} (taken : Column.scalar? t v = some x) :
      Stores (.leaf t o) v
  | array {e : Schema} {o : Bool} {items : List Value} (parts : ∀ v ∈ items, Stores e v) :
      Stores (.array e o) (.array items)
  | record {fields : List Field} {o ro : Bool} {slots : List Slot}
      (parts : ∀ f ∈ fields, Stores f.2 ((Record.get? ⟨slots, ro⟩ f.1).getD .null)) :
      Stores (.struct fields o) (.record slots ro)

theorem stores_null {s : Schema} : Stores s .null ↔ s.isOptional = true := by
  constructor
  · intro h
    cases h with
    | null optional => exact optional
    | leaf taken => exact nomatch (LeafType.shows_of_scalar? taken).isLeaf
  · exact .null

theorem stores_leaf {s : Schema} {v : Value} (hv : v.isLeaf = true) :
    Stores s v ↔ ∃ t o, s = .leaf t o ∧ ∃ x, Column.scalar? t v = some x := by
  constructor
  · intro h
    cases h with
    | leaf taken => exact ⟨_, _, rfl, _, taken⟩
    | null | array | record => exact nomatch hv
  · rintro ⟨t, o, rfl, x, taken⟩
    exact .leaf taken

/-- An array is stored under array schemas only, and then item by item. -/
theorem stores_array {s : Schema} {items : List Value} :
    Stores s (.array items) ↔ ∃ e o, s = .array e o ∧ ∀ v ∈ items, Stores e v := by
  constructor
  · intro h
    cases h with
    | leaf taken => exact nomatch (LeafType.shows_of_scalar? taken).isLeaf
    | array parts => exact ⟨_, _, rfl, parts⟩
  · rintro ⟨e, o, rfl, parts⟩
    exact .array parts

/-- A record is stored under struct schemas only, and then field by field of the schema. -/
theorem stores_record {s : Schema} {slots : List Slot} {ro : Bool} :
    Stores s (.record slots ro) ↔ ∃ fields o, s = .struct fields o ∧
      ∀ f ∈ fields, Stores f.2 ((Record.get? ⟨slots, ro⟩ f.1).getD .null) := by
  constructor
  · intro h
    cases h with
    | leaf taken => exact nomatch (LeafType.shows_of_scalar? taken).isLeaf
    | record parts => exact ⟨_, _, rfl, parts⟩
  · rintro ⟨fields, o, rfl, parts⟩
    exact .record parts

theorem not_stores_map {s : Schema} {entries : List (String × Value)} :
    ¬ Stores s (.map entries) := by
  intro h
  cases h with
  | leaf taken => exact nomatch (LeafType.shows_of_scalar? taken).isLeaf

/-! ### What can be written -/

namespace Value

theorem exists_toPlain?_leaf_iff {s : Schema} {v : Value} (hv : v.isLeaf = true) :
    (∃ j, v.toPlain? (some s) = .ok j) ↔ ∃ t o, s = .leaf t o ∧ t.accepts v = true := by
  constructor
  · rintro ⟨j, hj⟩
    obtain ⟨t, o, hs, ht, -⟩ := toPlain?_leaf_eq_ok hv hj
    exact ⟨t, o, hs, ht⟩
  · rintro ⟨t, o, rfl, ht⟩
    rw [toPlain?_leaf hv ht]
    exact exists_leafPlain? hv

theorem exists_toPlain?_array_iff {s : Schema} {items : List Value} :
    (∃ j, (array items).toPlain? (some s) = .ok j) ↔
      ∃ e o, s = .array e o ∧ ∀ v ∈ items, ∃ j, v.toPlain? (some e) = .ok j := by
  constructor
  · rintro ⟨j, hj⟩
    obtain ⟨e, o, js, hs, -, hjs⟩ := toPlain?_array_eq_ok hj
    refine ⟨e, o, hs, fun v hv => ?_⟩
    obtain ⟨j, -, hj⟩ := exists_of_forall₂ hjs.flip hv
    exact ⟨j, hj⟩
  · rintro ⟨e, o, rfl, hitems⟩
    obtain ⟨js, hjs⟩ := forall₂_of_forall_exists hitems
    exact ⟨_, toPlain?_array.mpr ⟨js, rfl, hjs⟩⟩

/-- A record is written if each field of the schema is, one that the record lacks being written as
null. -/
theorem exists_toPlain?_record_iff {s : Schema} {slots : List Slot} {ro : Bool} :
    (∃ j, (record slots ro).toPlain? (some s) = .ok j) ↔ ∃ fields o, s = .struct fields o ∧
      ∀ f ∈ fields, ∃ j,
        ((Record.get? ⟨slots, ro⟩ f.1).getD .null).toPlain? (some f.2) = .ok j := by
  constructor
  · rintro ⟨j, hj⟩
    obtain ⟨fields, o, ms, hs, -, hms⟩ := toPlain?_record_eq_ok hj
    refine ⟨fields, o, hs, fun f hf => ?_⟩
    obtain ⟨m, -, -, hm⟩ := exists_of_forall₂ hms.flip hf
    exact ⟨m.2, hm⟩
  · rintro ⟨fields, o, rfl, hfields⟩
    rw [toPlain?, Option.getD_some]
    have hmembers : ∃ ms, (fields.mapM fun f => do
        let j ← slotPlain? f.1 f.2 slots
        return (f.1, j)) = .ok ms := by
      refine Outcome.exists_mapM_iff.mpr fun f hf => ?_
      obtain ⟨j, hj⟩ := hfields f hf
      rw [slotPlain?_eq f.1 f.2 slots ro, hj]
      exact ⟨_, rfl⟩
    obtain ⟨ms, hms⟩ := hmembers
    exact ⟨_, Outcome.bind_eq_ok.mpr ⟨ms, hms, rfl⟩⟩

end Value

/-- **What a column takes of the values that can be written**: those that have no null where the
schema has none, and no number under a decimal type that is too large. -/
theorem stores_iff {s : Schema} {v : Value} :
    Stores s v ↔ (∃ j, v.toPlain? (some s) = .ok j) ∧
      EachRead (fun t w? => Present t w? ∧ UnitsFit t w?) s (some v) := by
  induction v using Value.byParts generalizing s with
  | leaf v harray hmap hrecord =>
    rw [eachRead_of_forall_ne (fun items h => harray items (Option.some.inj h))
      fun slots o h => hrecord slots o (Option.some.inj h)]
    -- null is written under every schema, so here it is the nulls of the schema that decide
    by_cases hnull : v = .null
    · subst hnull
      rw [stores_null, Value.toPlain?, and_iff_right ⟨_, rfl⟩, and_iff_left unitsFit_null]
      exact Iff.rfl
    · have hleaf := Value.isLeaf_of_ne hnull harray hmap hrecord
      have hpresent : Present s (some v) := by
        cases v with
        | null => exact absurd rfl hnull
        | _ => trivial
      rw [stores_leaf hleaf, Value.exists_toPlain?_leaf_iff hleaf, and_iff_right hpresent]
      constructor
      · rintro ⟨t, o, rfl, htaken⟩
        obtain ⟨haccepts, hunits⟩ := Column.exists_scalar?_iff.mp htaken
        exact ⟨⟨t, o, rfl, haccepts⟩, hunits⟩
      · rintro ⟨⟨t, o, rfl, haccepts⟩, hunits⟩
        exact ⟨t, o, rfl, Column.exists_scalar?_iff.mpr ⟨haccepts, hunits⟩⟩
  | array items ih =>
    rw [stores_array, Value.exists_toPlain?_array_iff]
    constructor
    · rintro ⟨e, o, rfl, parts⟩
      refine ⟨⟨e, o, rfl, fun v hv => ((ih v hv).mp (parts v hv)).1⟩, ?_⟩
      exact eachRead_array.mpr ⟨⟨trivial, trivial⟩, fun v hv => ((ih v hv).mp (parts v hv)).2⟩
    · rintro ⟨⟨e, o, rfl, hwritten⟩, hread⟩
      refine ⟨e, o, rfl, fun v hv => (ih v hv).mpr ⟨hwritten v hv, ?_⟩⟩
      exact (eachRead_array.mp hread).2 v hv
  | map entries ih =>
    -- a map is neither stored nor written under a schema
    refine iff_of_false not_stores_map ?_
    rintro ⟨⟨j, hj⟩, -⟩
    simp [Value.toPlain?] at hj
  | record slots ro ih =>
    -- a field that the record lacks is stored, written and read as null is
    have hfield : ∀ f : Field, Stores f.2 ((Record.get? ⟨slots, ro⟩ f.1).getD .null) ↔
        (∃ j, ((Record.get? ⟨slots, ro⟩ f.1).getD .null).toPlain? (some f.2) = .ok j) ∧
          EachRead (fun t w? => Present t w? ∧ UnitsFit t w?) f.2
            (Record.get? ⟨slots, ro⟩ f.1) := by
      intro f
      cases hget : Record.get? ⟨slots, ro⟩ f.1 with
      | some w =>
        obtain ⟨slot, hslot, rfl⟩ := Record.exists_of_get? hget
        exact ih slot hslot
      | none =>
        rw [Option.getD_none, stores_null, Value.toPlain?, and_iff_right ⟨_, rfl⟩,
          eachRead_none, and_iff_left unitsFit_none]
        exact Iff.rfl
    rw [stores_record, Value.exists_toPlain?_record_iff]
    constructor
    · rintro ⟨fields, o, rfl, parts⟩
      refine ⟨⟨fields, o, rfl, fun f hf => ((hfield f).mp (parts f hf)).1⟩, ?_⟩
      exact eachRead_record.mpr ⟨⟨trivial, trivial⟩, fun f hf => ((hfield f).mp (parts f hf)).2⟩
    · rintro ⟨⟨fields, o, rfl, hwritten⟩, hread⟩
      refine ⟨fields, o, rfl, fun f hf => (hfield f).mpr ⟨hwritten f hf, ?_⟩⟩
      exact (eachRead_record.mp hread).2 f hf

end DocStream
