import DocStream.Proofs.Value.Conformance
import DocStream.Proofs.Value.Rebuilding

/-!
# What a merged schema describes

A record that conforms to one of several schemas is rebuilt under their merge. That never fails, and
the result has the fields of the merge at every level. But a field is taken over into the merge as
it is, also if some of the schemas lack it, while a record that lacks it is filled up with null.
So the merge describes the rebuilt record only if the fields that were filled up are optional.

* `Value.Shaped` — conformance but for null, which may stand anywhere;
* `Value.Shaped.exists_carried` — **what is shaped by a schema** gets into every field that covers
  it, and is shaped by that;
* `Value.FilledFrom` — the slots of a record that was carried, and where they come from;
* `Value.MayBeFilled` — the fields that a record is filled up with are optional;
* `Value.conforms_conformTo_iff` — **which records conform to the merge**.

The proof has two halves. What conforms is shaped (`Conforms.shaped`), and shapes are all that
rebuilding depends on, so the record can always be rebuilt. Whether the result conforms is then
asked place by place: a value that was carried conforms to the field it got into by induction, and a
null that was filled in conforms where the field is optional.
-/

namespace DocStream

/-- What is the same as a struct, or covers it, is one. -/
theorem Schema.exists_eq_struct {t : Schema} {fields : List Field} {o : Bool}
    (h : t = .struct fields o ∨ t.Covers (.struct fields o)) :
    ∃ fields' p, t = .struct fields' p := by
  rcases h with rfl | hcovers
  · exact ⟨fields, o, rfl⟩
  · exact ⟨_, _, eq_struct_of_isStruct hcovers.isStruct_left⟩

namespace Value

/-! ### Shapes -/

/-- **A value is shaped by a schema** if it is null, or has for a struct schema a record of just its
fields, with values of their shapes. Under other schemas it may be anything, since nothing below
them is ever rebuilt. -/
inductive Shaped : Schema → Value → Prop where
  | null (s : Schema) : Shaped s null
  | rigid {s : Schema} (h : s.isStruct = false) (v : Value) : Shaped s v
  | record {slots : List Slot} {o : Bool} (parts : ∀ slot ∈ slots, Shaped slot.1.2 slot.2) :
      Shaped (.struct (slots.map Prod.fst) o) (.record slots o)

variable {Fits : LeafType → Value → Prop}

/-- What conforms to a struct schema is null, where that is allowed, or a record of its fields. -/
theorem Conforms.struct_cases {v : Value} {fields : List Field} {o : Bool}
    (h : v.Conforms Fits (.struct fields o)) :
    (v = .null ∧ o = true) ∨ ∃ slots, v = .record slots o ∧ slots.map Prod.fst = fields ∧
      ∀ slot ∈ slots, slot.2.Conforms Fits slot.1.2 := by
  cases v with
  | null => exact .inl ⟨rfl, conforms_null.mp h⟩
  | record slots p =>
    obtain ⟨hfields, rfl, hparts⟩ := conforms_record.mp h
    exact .inr ⟨slots, rfl, hfields, hparts⟩
  | _ => exact h.elim

/-- Conformance gives the shape. -/
theorem Conforms.shaped {s : Schema} {v : Value} (h : v.Conforms Fits s) : Shaped s v := by
  -- by induction on the schema, since shapes say nothing about values below leaf and array schemas
  induction s using Schema.byParts generalizing v with
  | leaf t o => exact .rigid rfl v
  | array e o => exact .rigid rfl v
  | struct fields o ih =>
    rcases h.struct_cases with ⟨rfl, -⟩ | ⟨slots, rfl, rfl, hparts⟩
    · exact .null _
    · exact .record fun slot hslot => ih slot.1 (List.mem_map_of_mem hslot) (hparts slot hslot)

/-- Under a struct schema there is null or a record of its fields. -/
theorem Shaped.struct_cases {v : Value} {fields : List Field} {o : Bool}
    (h : Shaped (.struct fields o) v) :
    v = .null ∨ ∃ slots, v = .record slots o ∧ slots.map Prod.fst = fields ∧
      ∀ slot ∈ slots, Shaped slot.1.2 slot.2 := by
  cases h with
  | null => exact .inl rfl
  | rigid hno => exact nomatch hno
  | @record slots _ parts => exact .inr ⟨slots, rfl, rfl, parts⟩

/-! ### Records on their way -/

section Records

variable {slots : List Slot} {fields : List Field} {o p : Bool}

/-- A record is carried by being rebuilt: where the schema stays the same it is left as it is. -/
theorem carried_record : carried (.struct fields p) (.struct (slots.map Prod.fst) o)
    (.record slots o) = conformTo (.struct fields p) (.record slots o) := by
  by_cases hsame : Schema.struct fields p = .struct (slots.map Prod.fst) o
  · rw [hsame, carried_self, conformTo, if_pos rfl]
  · exact carried_of_ne rfl hsame

/-- **Slots are filled from others**: each holds what its namesake carried, or null if it has
none. -/
def FilledFrom (slots slots' : List Slot) : Prop :=
  ∀ f x, (f, x) ∈ slots' →
    (∃ s v, ((f.1, s), v) ∈ slots ∧ carried f.2 s v = .ok x) ∨
    (f.1 ∉ slots.map (·.1.1) ∧ x = .null)

/-- **A record that was carried** has the fields of the new schema, filled from its own. -/
theorem exists_slots_of_carried {w : Value} (hslots : (slots.map (·.1.1)).Nodup)
    (hfields : (fields.map Prod.fst).Nodup) (hcover : ∀ slot ∈ slots, ∃ u, (slot.1.1, u) ∈ fields)
    (h : carried (.struct fields p) (.struct (slots.map Prod.fst) o) (.record slots o) = .ok w) :
    ∃ slots', w = .record slots' p ∧ slots'.map Prod.fst = fields ∧ FilledFrom slots slots' := by
  have hparts : ∀ slot ∈ slots, ∃ u x, (slot.1.1, u) ∈ fields ∧
      carried u slot.1.2 slot.2 = .ok x := by
    -- where the schema stays the same, every slot is its own namesake
    by_cases hsame : Schema.struct (slots.map Prod.fst) o = .struct fields p
    · injection hsame with hf ho
      intro slot hslot
      exact ⟨slot.1.2, slot.2, hf ▸ List.mem_map_of_mem hslot, carried_self _ _⟩
    · rw [carried_record] at h
      intro slot hslot
      obtain ⟨u, hu⟩ := hcover slot hslot
      obtain ⟨x, hx⟩ := (exists_conformTo_record_iff hslots hfields hcover hsame).mp ⟨w, h⟩
        slot hslot u hu
      exact ⟨u, x, hu, hx⟩
  obtain ⟨slots', hconf, hfields', hvalues⟩ := conformTo_record (o := o) (p := p) hfields hslots
    hparts
  rw [carried_record, hconf] at h
  exact ⟨slots', (Except.ok.inj h).symm, hfields', hvalues⟩

end Records

/-- Between struct schemas, what has a shape is carried by being rebuilt. -/
theorem Shaped.carried_eq {s t : Schema} {v : Value} (h : Shaped s v) (hs : s.isStruct = true)
    (ht : t.isStruct = true) : carried t s v = conformTo t v := by
  rw [Schema.eq_struct_of_isStruct hs] at h ⊢
  rw [Schema.eq_struct_of_isStruct ht]
  rcases h.struct_cases with rfl | ⟨slots, rfl, hfields, -⟩
  · rw [carried_null, conformTo]
  · rw [← hfields]
    exact carried_record

section Namesakes

variable {slots : List Slot} {fields : List Field} {o p : Bool}
variable (hc : Schema.struct fields p = .struct (slots.map Prod.fst) o ∨
  (Schema.struct fields p).Covers (.struct (slots.map Prod.fst) o))
include hc

/-- Every slot of a record has a namesake among the fields of a schema that covers its own, with the
same schema or one that covers it. -/
theorem exists_namesake : ∀ slot ∈ slots, ∃ u, (slot.1.1, u) ∈ fields ∧
    (u = slot.1.2 ∨ u.Covers slot.1.2) := by
  intro slot hslot
  have hmem : slot.1 ∈ slots.map Prod.fst := List.mem_map_of_mem hslot
  rcases hc with hsame | hcovers
  · injection hsame with hf ho
    exact ⟨slot.1.2, hf ▸ hmem, .inl rfl⟩
  · exact (Schema.covers_struct.mp hcovers).2.2 slot.1 hmem

/-- The namesake of a slot is the only field of its name, so its schema is the same or covers the
slot's. -/
theorem covers_namesake (hd : (Schema.struct fields p).DistinctNames) {slot : Slot}
    (hslot : slot ∈ slots) {u : Schema} (hu : (slot.1.1, u) ∈ fields) :
    u = slot.1.2 ∨ u.Covers slot.1.2 := by
  obtain ⟨u', hu', hcu⟩ := exists_namesake hc slot hslot
  rwa [hd.eq_of_mem hu hu']

end Namesakes

/-- **What is shaped by a schema gets into every field that covers it**, and is shaped by that. -/
theorem Shaped.exists_carried {s t : Schema} {v : Value} (h : Shaped s v) (hs : s.DistinctNames)
    (ht : t.DistinctNames) (hc : t = s ∨ t.Covers s) :
    ∃ w, carried t s v = .ok w ∧ Shaped t w := by
  -- leaf and array schemas are covered by themselves only, so all that happens is at structs
  induction s using Schema.byParts generalizing t v with
  | leaf type o =>
    obtain rfl := hc.resolve_right id
    exact ⟨v, carried_self _ v, h⟩
  | array e o =>
    obtain rfl := hc.resolve_right id
    exact ⟨v, carried_self _ v, h⟩
  | struct fields o ih =>
    obtain ⟨fields', p, rfl⟩ := Schema.exists_eq_struct hc
    rcases h.struct_cases with rfl | ⟨slots, rfl, rfl, hparts⟩
    · exact ⟨.null, carried_null _ _, .null _⟩
    · -- a record is rebuilt, which needs every field to get into its namesake
      have hslots := hs.nodup_slots
      -- every field gets into its namesake, by induction
      have hpart : ∀ slot ∈ slots, ∀ u, (slot.1.1, u) ∈ fields' →
          ∃ w, carried u slot.1.2 slot.2 = .ok w ∧ Shaped u w := by
        intro slot hslot u hu
        have hmem : slot.1 ∈ slots.map Prod.fst := List.mem_map_of_mem hslot
        exact ih slot.1 hmem (hparts slot hslot) (hs.of_mem_fields hmem) (ht.of_mem_fields hu)
          (covers_namesake hc ht hslot hu)
      obtain ⟨slots', hconf, rfl, hvalues⟩ := conformTo_record (o := o) (p := p) ht.nodup hslots
        fun slot hslot => by
          obtain ⟨u, hu, -⟩ := exists_namesake hc slot hslot
          obtain ⟨w, hw, -⟩ := hpart slot hslot u hu
          exact ⟨u, w, hu, hw⟩
      refine ⟨_, carried_record.trans hconf, .record fun slot' hslot' => ?_⟩
      rcases hvalues slot'.1 slot'.2 hslot' with ⟨s, v, hold, hv⟩ | ⟨-, hnull⟩
      · obtain ⟨w, hw, hshaped⟩ := hpart _ hold _ (List.mem_map_of_mem hslot')
        exact Except.ok.inj (hw.symm.trans hv) ▸ hshaped
      · rw [hnull]
        exact .null _

/-! ### Conforming to the merge -/

/-- **A value may be filled up** on its way from one schema to another: wherever it has a record,
the fields that only the second schema has are optional. -/
def MayBeFilled : Schema → Schema → Value → Prop :=
  Throughout fun x s t => x.isRecord = true →
    ∀ f ∈ t.fields, f.1 ∉ s.fields.map Prod.fst → f.2.isOptional = true

/-- Where the schema stays the same there are no new fields. -/
theorem mayBeFilled_self (s : Schema) (v : Value) : MayBeFilled s s v := by
  intro place x s' t' _ hs ht _ f hf hnew
  obtain rfl := Option.some.inj (hs.symm.trans ht)
  exact absurd (List.mem_map_of_mem hf) hnew

theorem mayBeFilled_null (s t : Schema) : MayBeFilled s t null := by
  intro place x _ _ hx _ _ hrecord
  rw [at?_null hx] at hrecord
  exact nomatch hrecord

/-- A record that was filled from another conforms to its schema if what was carried conforms and the
fields without a namesake are optional. -/
theorem conforms_filled_iff {slots slots' : List Slot} {o p : Bool}
    (hslots : (slots.map (·.1.1)).Nodup) (hslots' : (slots'.map (·.1.1)).Nodup)
    (hvalues : FilledFrom slots slots')
    (hparts : ∀ slot ∈ slots, ∀ u, (slot.1.1, u) ∈ slots'.map Prod.fst → ∀ x,
      carried u slot.1.2 slot.2 = .ok x → (x.Conforms Fits u ↔ MayBeFilled slot.1.2 u slot.2)) :
    (record slots' p).Conforms Fits (.struct (slots'.map Prod.fst) p) ↔
      MayBeFilled (.struct (slots.map Prod.fst) o) (.struct (slots'.map Prod.fst) p)
        (record slots o) := by
  have hnames : (slots.map Prod.fst).map Prod.fst = slots.map (·.1.1) := List.map_map ..
  rw [conforms_record, and_iff_right rfl, and_iff_right rfl, MayBeFilled,
    throughout_record hslots (by rwa [List.map_map])]
  simp only [Schema.fields, Schema.fields?, Option.getD_some, hnames]
  constructor
  · intro hconforms
    constructor
    · -- a field without a namesake holds null, and conforms only if it is optional
      intro _ f hf hnew
      obtain ⟨slot', hslot', rfl⟩ := List.mem_map.mp hf
      rcases hvalues _ _ hslot' with ⟨s, v, hold, -⟩ | ⟨-, hnull⟩
      · exact absurd (List.mem_map_of_mem (f := (·.1.1)) hold) hnew
      · exact conforms_null.mp (hnull ▸ hconforms slot' hslot')
    · rintro ⟨⟨name, s⟩, v⟩ hslot u hu
      obtain ⟨⟨f, x⟩, hslot', rfl⟩ := List.mem_map.mp hu
      rcases hvalues _ _ hslot' with ⟨s', v', hold, hx⟩ | ⟨hnew, -⟩
      · -- there is one slot of the name
        have heq : ((name, s'), v') = ((name, s), v) :=
          List.inj_on_of_nodup_map hslots hold hslot rfl
        cases heq
        exact (hparts _ hslot u hu x hx).mp (hconforms _ hslot')
      · exact absurd (List.mem_map_of_mem (f := (·.1.1)) hslot) hnew
  · rintro ⟨hself, hfill⟩ ⟨f, x⟩ hslot'
    have hf : f ∈ slots'.map Prod.fst := List.mem_map_of_mem hslot'
    rcases hvalues f x hslot' with ⟨s, v, hold, hx⟩ | ⟨hnew, rfl⟩
    · exact (hparts _ hold f.2 hf x hx).mpr (hfill _ hold f.2 hf)
    · exact conforms_null.mpr (hself rfl f hf hnew)

/-- Where the schema stays the same, the value does, and nothing is filled up. -/
theorem conforms_carried_self_iff {s : Schema} {v w : Value} (hv : v.Conforms Fits s)
    (hw : carried s s v = .ok w) : w.Conforms Fits s ↔ MayBeFilled s s v := by
  obtain rfl := Except.ok.inj ((carried_self s v).symm.trans hw)
  exact iff_of_true hv (mayBeFilled_self s v)

/-- **Where conformance gets lost**: a value that conforms to a schema and is carried into a field
that covers it conforms to that exactly if it may be filled up. -/
theorem conforms_carried_iff {s t : Schema} {v w : Value} (hs : s.DistinctNames)
    (ht : t.DistinctNames) (hc : t = s ∨ t.Covers s) (hv : v.Conforms Fits s)
    (hw : carried t s v = .ok w) : w.Conforms Fits t ↔ MayBeFilled s t v := by
  -- by induction on the schema that the value had; the new one covers it and follows along
  induction s using Schema.byParts generalizing t v w with
  | leaf type o =>
    obtain rfl := hc.resolve_right id
    exact conforms_carried_self_iff hv hw
  | array e o =>
    obtain rfl := hc.resolve_right id
    exact conforms_carried_self_iff hv hw
  | struct fields o ih =>
    by_cases hne : t = .struct fields o
    · subst hne
      exact conforms_carried_self_iff hv hw
    -- the struct has a merge of its own, which may be optional where the struct is not
    have hcovers := hc.resolve_left hne
    obtain ⟨fields', p, rfl⟩ := Schema.exists_eq_struct hc
    rcases hv.struct_cases with ⟨rfl, ho⟩ | ⟨slots, rfl, rfl, hparts⟩
    · -- null stays null, and is allowed where it was
      obtain rfl := Except.ok.inj ((carried_null _ _).symm.trans hw)
      exact iff_of_true (conforms_null.mpr (hcovers.isOptional ho)) (mayBeFilled_null _ _)
    · have hslots := hs.nodup_slots
      obtain ⟨slots', rfl, rfl, hvalues⟩ := exists_slots_of_carried hslots ht.nodup
        (fun slot hslot => (exists_namesake hc slot hslot).imp fun _ h => h.1) hw
      apply conforms_filled_iff hslots ht.nodup_slots hvalues
      intro slot hslot u hu x hx
      have hmem : slot.1 ∈ slots.map Prod.fst := List.mem_map_of_mem hslot
      exact ih slot.1 hmem (hs.of_mem_fields hmem) (ht.of_mem_fields hu)
        (covers_namesake hc ht hslot hu) (hparts slot hslot) hx

/-- **Which records the merge of their schemas describes.** A value that conforms to one of the
merged schemas can always be rebuilt under the merge. The result conforms to the merge exactly if
the value may be filled up: wherever it has a record, the fields that merging added are optional. -/
theorem conforms_conformTo_iff {schemas : List Schema} {location : String} {m s : Schema}
    (hmerge : Schema.merge schemas location = .ok m) (hdistinct : ∀ t ∈ schemas, t.DistinctNames)
    (hs : s ∈ schemas) {v : Value} (hv : v.Conforms Fits s) :
    ∃ w, v.conformTo m = .ok w ∧ (w.Conforms Fits m ↔ MayBeFilled s m v) := by
  -- the merge covers every schema that was merged
  have hbounds := (Schema.isMerge_of_merge hmerge).bounds hdistinct
  have hcovers := hbounds.covers s hs
  have hdistinct' := hdistinct s hs
  obtain ⟨w, hw, -⟩ := hv.shaped.exists_carried hdistinct' hbounds.distinct (.inr hcovers)
  refine ⟨w, ?_, conforms_carried_iff hdistinct' hbounds.distinct (.inr hcovers) hv hw⟩
  rwa [← hv.shaped.carried_eq hcovers.isStruct_right hbounds.isStruct]

/-- Two records that share a nested one: the field that is required is in both, and what the value
is filled up with is optional. -/
theorem conforms_conformTo_iff_nested :
    let a : Field := ("a", .leaf (.int .w8) false)
    let x : Field := ("x", .leaf .string true)
    let y : Field := ("y", .leaf .boolean true)
    let left : Schema := .struct [a, ("b", .struct [x] true)] false
    let right : Schema := .struct [a, ("b", .struct [y] true)] true
    let m : Schema := .struct [a, ("b", .struct [x, y] true)] true
    let v : Value := .record [(a, .int ⟨.w8, 5, by decide⟩),
      (("b", .struct [x] true), .record [(x, .string "s")] true)] false
    let w : Value := .record [(a, .int ⟨.w8, 5, by decide⟩),
      (("b", .struct [x, y] true), .record [(x, .string "s"), (y, .null)] true)] true
    Schema.merge [left, right] "" = .ok m ∧ (∀ t ∈ [left, right], t.DistinctNames) ∧
      v.Conforms LeafType.Infers left ∧ v.conformTo m = .ok w ∧
      w.Conforms LeafType.Infers m ∧ MayBeFilled left m v := by
  intro a x y left right m v w
  have hmerge : Schema.merge [left, right] "" = .ok m := by decide +kernel
  have hdistinct : ∀ t ∈ [left, right], t.DistinctNames := by
    simp [left, right, a, x, y, Schema.DistinctNames, Schema.Everywhere, Schema.EverywhereFields,
      Schema.fields, Schema.fields?]
  have hv : v.Conforms LeafType.Infers left := by
    simp [v, left, a, x, Conforms, ConformSlots, LeafType.Infers]
  have hw : v.conformTo m = .ok w := rfl
  have hconforms : w.Conforms LeafType.Infers m := by
    simp [w, m, a, x, y, Conforms, ConformSlots, LeafType.Infers, Schema.isOptional]
  obtain ⟨w', hw', hiff⟩ := conforms_conformTo_iff hmerge hdistinct (by simp) hv
  obtain rfl := Except.ok.inj (hw.symm.trans hw')
  exact ⟨hmerge, hdistinct, hv, hw, hconforms, hiff.mp hconforms⟩

/-- **The merge does not describe every record**: a field that only one schema has, and requires, is
required in the merge, and the record of the other schema is filled up with null for it. -/
theorem not_conforms_conformTo :
    let one : Schema := .struct [("a", .leaf (.int .w8) false)] false
    let other : Schema := .struct [] false
    Schema.merge [one, other] "" = .ok one ∧ (∀ t ∈ [one, other], t.DistinctNames) ∧
      (record [] false).Conforms LeafType.Infers other ∧
      ∃ w, (record [] false).conformTo one = .ok w ∧ ¬ w.Conforms LeafType.Infers one := by
  intro one other
  refine ⟨by decide +kernel, ?_, ⟨rfl, rfl, trivial⟩,
    .record [(("a", .leaf (.int .w8) false), .null)] false, rfl, ?_⟩
  · simp [one, other, Schema.DistinctNames, Schema.Everywhere, Schema.EverywhereFields,
      Schema.fields, Schema.fields?]
  · simp [one, Conforms, ConformSlots, Schema.isOptional]

end Value
end DocStream
