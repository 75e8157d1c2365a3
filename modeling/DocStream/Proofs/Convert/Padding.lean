import DocStream.Proofs.Convert.Typing
import DocStream.Proofs.Value.Plain

/-!
# Nested documents written back

A document that was nested and is written back under its schema is the same document again, up to
two things: every number is spelled as its narrowed value is, and objects inside arrays are padded
with nulls where the merged schema has fields that they lack.

* `Json.WrittenAs` — **a document and what is written for it** under a schema;
* `Json.TypedAs.writtenAs` — every typed value can be written under its schema, and so it is;
* `ConversionSettings.writtenAs_of_convert` — **writing back a nested document**.

The relation is built by induction on the typing of the document, which says the same of values that
`Json.WrittenAs` says of what is written for them: arrays item by item, records member by member,
and nulls for fields that no member has.
-/

namespace DocStream

namespace Json

/-- **A document and what is written for it under a schema**, inside an array or not. Arrays keep
their length and order, objects their members; beyond those, an object has the other fields of its
schema, all null, and only inside an array. -/
inductive WrittenAs : Bool → Schema → Json → Json → Prop where
  | null {inside : Bool} {s : Schema} : WrittenAs inside s .null .null
  | bool {inside : Bool} {s : Schema} (b : Bool) : WrittenAs inside s (.bool b) (.bool b)
  /-- A number is written as its narrowed value is by itself. -/
  | num {inside : Bool} {s : Schema} {n : Numeral} {v : Value} {j : Json}
      (narrowed : Value.ofNumeral? n = .ok v) (written : v.toPlain? none = .ok j) :
      WrittenAs inside s (.num n) j
  | str {inside : Bool} {s : Schema} (t : String) : WrittenAs inside s (.str t) (.str t)
  | arr {inside : Bool} {items items' : List Json} {e : Schema} {o : Bool}
      (length : items.length = items'.length)
      (written : ∀ p ∈ items.zip items', WrittenAs true e p.1 p.2) :
      WrittenAs inside (.array e o) (.arr items) (.arr items')
  | obj {inside : Bool} {members members' : Members} {fields : List Field} {o : Bool}
      (names : members'.names = fields.map Prod.fst)
      (kept : ∀ name ∈ members.names, name ∈ members'.names)
      (written : ∀ m ∈ members, ∀ m' ∈ members', m'.1 = m.1 → ∀ f ∈ fields, f.1 = m.1 →
        WrittenAs inside f.2 m.2 m'.2)
      (padded : ∀ m' ∈ members', m'.1 ∉ members.names → inside = true ∧ m'.2 = .null) :
      WrittenAs inside (.struct fields o) (.obj members) (.obj members')

theorem isLeaf_of_rung {d : Decimal} {v : Value} (h : Value.Rung d v) : v.isLeaf = true := by
  cases h <;> rfl

/-- A rung can be written, as a number or as null. Null is written for a float that is infinite, as
JSON has no number for it. -/
theorem canonical_leafPlain_of_rung {d : Decimal} {v : Value} (h : Value.Rung d v) :
    ∃ j, v.leafPlain? = .ok j ∧ j.Canonical := by
  have hfloat : ∀ {fmt : Format} (x : Binary fmt), (Value.floatPlain x).Canonical := by
    intro fmt x
    rw [Value.floatPlain]
    split <;> trivial
  cases h with
  | int | bigint => exact ⟨_, rfl, trivial⟩
  | float32 | float64 => exact ⟨_, rfl, hfloat _⟩

/-- **A record can be written** if each of its slots can: as the member of its name, or else, where
padding is allowed, as null. Names ascend, so the members are written in the order of the slots. -/
theorem writtenAs_record {inside : Bool} {members : Members} {slots : List Slot} {o : Bool}
    (hasc : StrictlyAscending (slots.map (·.1.1)))
    (kept : ∀ name ∈ members.names, name ∈ slots.map (·.1.1))
    (hslot : ∀ slot ∈ slots, ∃ j, slot.2.toPlain? (some slot.1.2) = .ok j ∧ j.Canonical ∧
      (∀ m ∈ members, slot.1.1 = m.1 → WrittenAs inside slot.1.2 m.2 j) ∧
      (slot.1.1 ∉ members.names → inside = true ∧ j = .null)) :
    ∃ j, (Value.record slots o).toPlain? (some (.struct (slots.map Prod.fst) o)) = .ok j ∧
      WrittenAs inside (.struct (slots.map Prod.fst) o) (.obj members) j ∧ j.Canonical := by
  -- the members that are written, each under the name of its slot
  have hmember : ∀ slot ∈ slots, ∃ m' : String × Json, (m'.1 = slot.1.1 ∧
      slot.2.toPlain? (some slot.1.2) = .ok m'.2) ∧ m'.2.Canonical ∧
      (∀ m ∈ members, slot.1.1 = m.1 → WrittenAs inside slot.1.2 m.2 m'.2) ∧
      (slot.1.1 ∉ members.names → inside = true ∧ m'.2 = .null) := by
    intro slot hmem
    obtain ⟨j, hj, hrest⟩ := hslot slot hmem
    exact ⟨(slot.1.1, j), ⟨rfl, hj⟩, hrest⟩
  obtain ⟨members', hmembers'⟩ := forall₂_of_forall_exists hmember
  have hnames : Members.names members' = slots.map (·.1.1) :=
    (map_eq_map_of_forall₂ (hmembers'.imp fun slot m' h => h.1.1.symm)).symm
  -- the parts of the relation, one after the other: names, members that are kept, what is written,
  -- padding
  refine ⟨.obj members', (Value.toPlain?_record hasc).mpr ⟨members', rfl, ?_⟩,
    .obj ?_ (fun name hname => ?_) (fun m hm m' hm' hmn f hf hfn => ?_)
      (fun m' hm' hname => ?_), canonical_obj.mpr ⟨hnames ▸ hasc, fun m' hm' => ?_⟩⟩
  · exact hmembers'.imp fun slot m' h => h.1
  · rw [hnames, List.map_map]
    rfl
  · exact hnames ▸ kept name hname
  · -- the slot that a member is written from has the field of its name
    obtain ⟨slot, hslot, ⟨hname, -⟩, -, hwritten, -⟩ := exists_of_forall₂ hmembers' hm'
    have heq : slot.1 = f := List.inj_on_of_nodup_map (f := Prod.fst) (l := slots.map Prod.fst)
      (by rw [List.map_map]; exact hasc.nodup) (List.mem_map_of_mem hslot) hf
      ((hname.symm.trans hmn).trans hfn.symm)
    exact heq ▸ hwritten m hm (hname.symm.trans hmn)
  · obtain ⟨slot, hslot, ⟨hname', -⟩, -, -, hpadded⟩ := exists_of_forall₂ hmembers' hm'
    exact hpadded (hname' ▸ hname)
  · obtain ⟨slot, hslot, -, hcanonical, -⟩ := exists_of_forall₂ hmembers' hm'
    exact hcanonical

/-- **Every typed value can be written under its schema**, and what is written is the document it
was made from, up to padding. By induction on the typing. -/
theorem TypedAs.writtenAs {inside : Bool} {d : Json} {s : Schema} {v : Value}
    (h : TypedAs inside d s v) (hd : d.Canonical) (hs : s.WellFormed) :
    ∃ j, v.toPlain? (some s) = .ok j ∧ WrittenAs inside s d j ∧ j.Canonical := by
  induction h with
  | null => exact ⟨.null, by rw [Value.toPlain?], .null, trivial⟩
  | bool b => exact ⟨.bool b, Value.toPlain?_leaf rfl rfl, .bool b, trivial⟩
  | str t => exact ⟨.str t, Value.toPlain?_leaf rfl rfl, .str t, trivial⟩
  | num hv hleaf =>
    obtain ⟨t, rfl⟩ := eq_leaf_of_ofLeaf hleaf
    -- a number is written alike with a schema and without one, as its leaf schema is that of its
    -- value
    obtain ⟨d, -, hrung⟩ := Value.rung_of_ofNumeral? hv
    have hisLeaf := isLeaf_of_rung hrung
    obtain ⟨j, hj, hcanonical⟩ := canonical_leafPlain_of_rung hrung
    refine ⟨j, ?_, .num hv ?_, hcanonical⟩
    · rw [Value.toPlain?_leaf hisLeaf
        (LeafType.accepts_of_infers (LeafType.infers_of_rung hrung hleaf)), hj]
    · rw [Value.toPlain?_none hisLeaf, hj]
  | @arr inside items values e o length typed ih =>
    have hitems := canonical_arr.mp hd
    -- between the items and the values stands what is written for them
    have hall : List.Forall₂ (fun d v => ∃ j, Value.toPlain? (some e) v = .ok j ∧
        WrittenAs true e d j ∧ j.Canonical) items values :=
      List.forall₂_iff_zip.mpr
        ⟨length, fun {d v} hp => ih (d, v) hp (hitems d (List.of_mem_zip hp).1) hs⟩
    obtain ⟨js, hjs, hwritten⟩ := forall₂_between hall
    obtain ⟨hlen, hzip⟩ := List.forall₂_iff_zip.mp hwritten
    refine ⟨.arr js, Value.toPlain?_array.mpr ⟨js, rfl, hjs⟩,
      .arr hlen fun p hp => (hzip hp).1, canonical_arr.mpr fun j hj => ?_⟩
    obtain ⟨d, -, -, hcanonical⟩ := exists_of_forall₂ hwritten hj
    exact hcanonical
  | @obj inside members slots o kept typed padded ih =>
    obtain ⟨hmasc, hmembers⟩ := canonical_obj.mp hd
    obtain ⟨hasc, hparts⟩ := Schema.wellFormed_struct.mp hs
    rw [List.map_map] at hasc
    refine writtenAs_record hasc kept fun slot hslot => ?_
    by_cases hname : slot.1.1 ∈ members.names
    · -- the slot of a member, of which there is only one
      obtain ⟨m, hm, hmn⟩ := List.mem_map.mp hname
      obtain ⟨j, hj, hwritten, hcanonical⟩ := ih m hm slot hslot hmn.symm (hmembers m hm)
        (hparts slot.1 (List.mem_map_of_mem hslot))
      refine ⟨j, hj, hcanonical, fun m₂ hm₂ hmn₂ => ?_, fun hnot => absurd hname hnot⟩
      have heq : m = m₂ := List.inj_on_of_nodup_map hmasc.nodup hm hm₂ (hmn.trans hmn₂)
      exact heq ▸ hwritten
    · -- padding
      obtain ⟨hinside, hnull⟩ := padded slot hslot hname
      refine ⟨.null, ?_, trivial, fun m hm hmn => ?_, fun _ => ⟨hinside, rfl⟩⟩
      · rw [hnull, Value.toPlain?]
      · exact absurd (hmn ▸ List.mem_map_of_mem hm) hname

end Json

/-- **Writing back a nested document.** An object that was converted, nested and with a schema, can
be written back under that schema; what is written is the object, up to the spelling of numbers and
to nulls in objects inside arrays. -/
theorem ConversionSettings.writtenAs_of_convert {settings : ConversionSettings} {members : Members}
    {s : Schema} {v : Value} (hd : (Json.obj members).Canonical)
    (h : settings.convert (.obj members) = .ok (.structured s v)) :
    ∃ written, v.toDocument? (some s) = .ok written ∧ (Json.obj written).Canonical ∧
      Json.WrittenAs false s (.obj members) (.obj written) := by
  have hnest := convert_eq_structured h
  have hs := Json.wellFormed_of_nest hd hnest
  obtain ⟨j, hj, hwritten, hcanonical⟩ := (Json.typedAs_of_nest false hd hnest).writtenAs hd hs
  obtain ⟨hasc, -⟩ := Json.canonical_obj.mp hd
  -- an object was nested to a record, and a record is written as an object
  obtain ⟨slots, -, hnames, rfl, rfl⟩ := Json.nest_obj hasc hnest
  have hslots : StrictlyAscending (slots.map (·.1.1)) := hnames ▸ hasc
  obtain ⟨written, rfl, hall⟩ := (Value.toPlain?_record hslots).mp hj
  exact ⟨written, (Value.recordPlain?_eq_ok hslots).mpr hall, hcanonical, hwritten⟩

/-- Two records of an array, each padded with a null for the member of the other; the number is
written without the zeros it was spelled with. -/
theorem ConversionSettings.writtenAs_of_convert_padded :
    let members : Members := [("a", .arr [.obj [("x", .num ⟨false, 1, [5, 0], none⟩)],
      .obj [("y", .arr [.null])]])]
    let written : Members := [("a", .arr [.obj [("x", .num ⟨false, 1, [5], none⟩), ("y", .null)],
      .obj [("x", .null), ("y", .arr [.null])]])]
    ∃ s v, (Json.obj members).Canonical ∧
      ({} : ConversionSettings).convert (.obj members) = .ok (.structured s v) ∧
      v.toDocument? (some s) = .ok written ∧ (Json.obj written).Canonical ∧
      Json.WrittenAs false s (.obj members) (.obj written) := by
  intro members written
  have hd : (Json.obj members).Canonical := by decide +kernel
  have hok : (match ({} : ConversionSettings).convert (.obj members) with
      | .ok (.structured s v) => (match v.toDocument? (some s) with
        | .ok w => decide (w = written)
        | _ => false)
      | _ => false) = true := by decide +kernel
  split at hok
  · next s v h =>
    obtain ⟨w, hw, hcanonical, hwritten⟩ := writtenAs_of_convert hd h
    rw [hw] at hok
    obtain rfl : w = written := of_decide_eq_true hok
    exact ⟨s, v, hd, h, hw, hcanonical, hwritten⟩
  · exact nomatch hok

end DocStream
