import DocStream.Proofs.Json.Canonical
import DocStream.Proofs.Related
import DocStream.Proofs.Value.Plain

/-!
# Writing under a wider schema

A value is written under the schema that it was built for, or under a wider one: one whose leaves
hold more, and whose structs may have more fields. The wider schema changes nothing of what is
written but for its additional fields, which are null, in arrays and structs at any depth.

* `LeafType.Widens`, `Schema.Widens` — **when a schema is wider** than another;
* `Json.fillOut` — JSON with a null at every field that a schema adds;
* `Value.WrittenFrom`, `Value.Conforms.exists_writtenFrom` — values under all wider schemas at once;
* `Value.toPlain?_of_widens` — **a value under a wider schema**.

That the field names of the wider schema are distinct is asked for, since a field of a name that
occurs twice could be written from the slot of the other one. Ascending order is not: what is
written is put in order anyway, so the fields of both schemas may come in any order.

The induction is on the value, and its hypothesis speaks of all wider schemas at once
(`Value.WrittenFrom`). With one wider schema fixed, the fields of a struct would each need a
hypothesis for another one.
-/

namespace DocStream

/-! ### Wider schemas -/

/-- **A leaf type is at least as wide as another.** -/
inductive LeafType.Widens : LeafType → LeafType → Prop where
  | same (t : LeafType) : Widens t t
  | int {wide narrow : IntWidth} (wider : narrow.bits < wide.bits) :
      Widens (.int wide) (.int narrow)
  | decimalOfInt (scale : Int) (w : IntWidth) : Widens (.decimal scale) (.int w)
  | float : Widens .float64 .float32
  | decimal (scale scale' : Int) : Widens (.decimal scale) (.decimal scale')

/-- A wider leaf type accepts what a narrower one does. -/
theorem LeafType.Widens.accepts {t s : LeafType} (h : t.Widens s) {v : Value}
    (hv : s.accepts v = true) : t.accepts v = true := by
  cases h with
  | same => exact hv
  | int wider =>
    cases v with
    | int n => exact decide_eq_true ((of_decide_eq_true hv).trans wider.le)
    | _ => exact nomatch hv
  | decimalOfInt scale w =>
    cases v with
    | int n => rfl
    | _ => exact nomatch hv
  | float =>
    cases v with
    | float32 x => rfl
    | _ => exact nomatch hv
  | decimal scale scale' =>
    cases v with
    | int | bigint | decimal => rfl
    | _ => exact nomatch hv

/-- **A schema is at least as wide as another.** A wider struct has all the fields of the narrower
one, each with a wider schema, and possibly more. Which of the two is optional does not matter. -/
inductive Schema.Widens : Schema → Schema → Prop where
  | leaf {t s : LeafType} {o p : Bool} (widens : t.Widens s) : Widens (.leaf t o) (.leaf s p)
  | array {t s : Schema} {o p : Bool} (widens : Widens t s) : Widens (.array t o) (.array s p)
  | struct {wide narrow : List Field} {o p : Bool} (distinct : (wide.map Prod.fst).Nodup)
      (distinct' : (narrow.map Prod.fst).Nodup)
      (subset : narrow.map Prod.fst ⊆ wide.map Prod.fst)
      (widens : ∀ f ∈ wide, ∀ f' ∈ narrow, f.1 = f'.1 → Widens f.2 f'.2) :
      Widens (.struct wide o) (.struct narrow p)

/-- What is narrower than a schema is as wide as itself: its field names are distinct too. -/
theorem Schema.Widens.self {t s : Schema} (h : t.Widens s) : s.Widens s := by
  -- the narrower side is wide enough for itself at every place
  induction h with
  | leaf _ => exact .leaf (.same _)
  | array _ ih => exact .array ih
  | struct _ distinct' subset _ ih =>
    refine .struct distinct' distinct' (List.Subset.refl _) fun f hf f' hf' heq => ?_
    have hsame : f = f' := List.inj_on_of_nodup_map distinct' hf hf' heq
    obtain ⟨g, hg, hname⟩ := List.mem_map.mp (subset (List.mem_map_of_mem hf))
    rw [← hsame]
    exact ih g hg f hf hname

/-! ### Filling out -/

namespace Json

mutual

/-- **JSON filled out to a schema**: where an object meets a struct, it gets a null for every field
that it lacks. Nothing else changes. -/
def fillOut : Schema → Json → Json
  | .array e _, arr items => arr (items.map (fillOut e))
  | .struct fields _, obj members =>
    obj (Members.ofList (members.map (fun m => (m.1, fillOutMember fields m.1 m.2)) ++
      (fields.filter fun f => f.1 ∉ Members.names members).map fun f => (f.1, null)))
  | _, j => j

/-- The member of a name, filled out to the schema that its field has. -/
def fillOutMember : List (String × Schema) → String → Json → Json
  | [], _, j => j
  | (k, s) :: rest, name, j => if k = name then fillOut s j else fillOutMember rest name j

end

@[simp] theorem fillOut_leaf (t : LeafType) (o : Bool) (j : Json) :
    fillOut (.leaf t o) j = j := by
  rw [fillOut] <;> exact nofun

/-- Null is filled out to null, as nothing can be added to it. -/
@[simp] theorem fillOut_null (s : Schema) : fillOut s null = null := by
  cases s <;> rw [fillOut] <;> exact nofun

/-- A member is filled out to the schema of its own field. -/
theorem fillOutMember_of_mem {fields : List Field} (hnodup : (fields.map Prod.fst).Nodup)
    {f : Field} (hf : f ∈ fields) (j : Json) : fillOutMember fields f.1 j = fillOut f.2 j := by
  induction fields with
  | nil => exact absurd hf List.not_mem_nil
  | cons g rest ih =>
    obtain ⟨k, s⟩ := g
    rw [List.map_cons, List.nodup_cons] at hnodup
    rw [fillOutMember]
    rcases List.mem_cons.mp hf with rfl | hrest
    · rw [if_pos rfl]
    · -- the first field has another name
      have hne : k ≠ f.1 := by
        intro hk
        exact hnodup.1 (List.mem_map.mpr ⟨f, hrest, hk.symm⟩)
      rw [if_neg hne, ih hnodup.2 hrest]

end Json

/-- Pairs of distinct names are put together in the same way, whatever their order. -/
theorem Members.ofList_eq_of_mem_iff {pairs pairs' : List (String × Json)}
    (h : (pairs.map Prod.fst).Nodup) (h' : (pairs'.map Prod.fst).Nodup)
    (hmem : ∀ m, m ∈ pairs ↔ m ∈ pairs') : ofList pairs = ofList pairs' :=
  eq_of_ascending (ascending_ofList pairs) (ascending_ofList pairs') fun m => by
    rw [(ofList_perm h).mem_iff, (ofList_perm h').mem_iff, hmem]

/-- **An object filled out, field by field.** If each of its members is a field, the object has a
member for every field of the struct: its own one filled out, or a null. -/
theorem Json.fillOut_obj {fields : List Field} {o : Bool} {members : Members}
    (hnodup : (fields.map Prod.fst).Nodup) (hasc : StrictlyAscending members.names)
    (hsub : members.names ⊆ fields.map Prod.fst) :
    fillOut (.struct fields o) (.obj members) =
      .obj (Members.ofList
        (fields.map fun f => (f.1, fillOut f.2 ((members.get? f.1).getD .null)))) := by
  -- a field that the object has, and one that it lacks
  have hown : ∀ f ∈ fields, ∀ j, (f.1, j) ∈ members →
      fillOut f.2 ((members.get? f.1).getD .null) = fillOutMember fields f.1 j := by
    intro f hf j hm
    rw [(Members.get?_eq_some_iff_mem hasc).mpr hm, Option.getD_some,
      fillOutMember_of_mem hnodup hf]
  have hnew : ∀ f : Field, f.1 ∉ members.names →
      fillOut f.2 ((members.get? f.1).getD .null) = .null := by
    intro f hf
    rw [Members.get?, lookup_eq_none_of_notMem hf, Option.getD_none, fillOut_null]
  -- both lists hold the same pairs, in another order perhaps, and collecting puts them in order
  rw [fillOut]
  refine congrArg Json.obj (Members.ofList_eq_of_mem_iff ?_ ?_ fun m => ?_)
  · -- no field is both a member and missing
    have hnames : (members.map fun m => (m.1, fillOutMember fields m.1 m.2)).map Prod.fst =
        members.names := by
      rw [List.map_map]
      rfl
    have hmissing : ((fields.filter fun f => f.1 ∉ members.names).map fun f => (f.1, null)).map
        Prod.fst = (fields.map Prod.fst).filter fun name => name ∉ members.names := by
      rw [List.map_map, List.filter_map]
      rfl
    rw [List.map_append, hnames, hmissing]
    refine List.Nodup.append hasc.nodup (hnodup.filter _) fun name hname hname' => ?_
    exact of_decide_eq_true (List.mem_filter.mp hname').2 hname
  · rwa [List.map_map]
  · rw [List.mem_append, List.mem_map, List.mem_map, List.mem_map]
    constructor
    · rintro (⟨⟨name, j⟩, hm, rfl⟩ | ⟨f, hf, rfl⟩)
      · obtain ⟨f, hf, rfl⟩ := List.mem_map.mp (hsub (List.mem_map_of_mem hm))
        exact ⟨f, hf, by rw [hown f hf j hm]⟩
      · obtain ⟨hf, hout⟩ := List.mem_filter.mp hf
        exact ⟨f, hf, by rw [hnew f (of_decide_eq_true hout)]⟩
    · rintro ⟨f, hf, rfl⟩
      by_cases hname : f.1 ∈ members.names
      · obtain ⟨⟨name, j⟩, hm, heq⟩ := List.mem_map.mp hname
        obtain rfl : name = f.1 := heq
        exact .inl ⟨(f.1, j), hm, by rw [hown f hf j hm]⟩
      · exact .inr ⟨f, List.mem_filter.mpr ⟨hf, decide_eq_true hname⟩, by rw [hnew f hname]⟩

namespace Value

/-- There is nothing to write for a name that no slot has. -/
theorem slotPlain?_of_notMem {slots : List Slot} {name : String}
    (h : name ∉ slots.map (·.1.1)) (s : Schema) : slotPlain? name s slots = .ok .null := by
  induction slots with
  | nil => rw [slotPlain?]
  | cons slot rest ih =>
    obtain ⟨⟨k, u⟩, v⟩ := slot
    obtain ⟨hk, hrest⟩ := not_or.mp (mt List.mem_cons.mpr h)
    rw [slotPlain?, if_neg (Ne.symm hk), ih hrest]

/-- **A record's fields under a struct schema**, whatever slots it has. -/
theorem recordPlain?_of_forall {fields : List Field} {slots : List Slot} {write : Field → Json}
    (h : ∀ f ∈ fields, slotPlain? f.1 f.2 slots = .ok (write f)) :
    recordPlain? fields slots = .ok (Members.ofList (fields.map fun f => (f.1, write f))) := by
  refine Outcome.bind_eq_ok.mpr ⟨_, Outcome.mapM_eq_ok.mpr ?_, rfl⟩
  refine List.forall₂_map_right_iff.mpr (List.forall₂_same.mpr fun f hf => ?_)
  rw [h f hf]
  rfl

/-- **Written from a schema on**: as the given JSON under the schema, and under every wider one as
that JSON filled out. -/
structure WrittenFrom (s : Schema) (v : Value) (j : Json) : Prop where
  own : v.toPlain? (some s) = .ok j
  wider {t : Schema} (widens : t.Widens s) : v.toPlain? (some t) = .ok (j.fillOut t)

theorem writtenFrom_null (s : Schema) : WrittenFrom s null .null where
  own := by rw [toPlain?]
  wider _ := by rw [toPlain?, Json.fillOut_null]

/-- A leaf is written in one way under all types that accept it. -/
theorem exists_writtenFrom_leaf {v : Value} {t : LeafType} (h : t.accepts v = true) (o : Bool) :
    ∃ j, WrittenFrom (.leaf t o) v j := by
  have hleaf : v.isLeaf = true := LeafType.isLeaf_of_accepts h
  obtain ⟨j, hj⟩ := exists_leafPlain? hleaf
  refine ⟨j, by rw [toPlain?_leaf hleaf h, hj], fun ht => ?_⟩
  cases ht with
  | leaf widens => rw [toPlain?_leaf hleaf (widens.accepts h), hj, Json.fillOut_leaf]

/-- An array is written from its schema on if its items are, all from the one of the elements. -/
theorem writtenFrom_array {items : List Value} {e : Schema} {js : List Json}
    (h : List.Forall₂ (WrittenFrom e) items js) (o : Bool) :
    WrittenFrom (.array e o) (.array items) (.arr js) := by
  refine ⟨toPlain?_array.mpr ⟨js, rfl, h.imp fun _ _ hv => hv.own⟩, fun ht => ?_⟩
  cases ht with
  | array widens =>
    rw [Json.fillOut]
    refine toPlain?_array.mpr ⟨_, rfl, List.forall₂_map_right_iff.mpr ?_⟩
    exact h.imp fun _ _ hv => hv.wider widens

/-- A record under a wider struct, from what its fields give under wider schemas. -/
theorem toPlain?_wider_struct {wide narrow : List Field} {slots : List Slot} {o q : Bool}
    (ht : (Schema.struct wide q).Widens (.struct narrow o))
    (hslots : slots.map (·.1.1) = narrow.map Prod.fst) {write : Field → Json}
    (hwider : ∀ f ∈ narrow, ∀ t : Schema, t.Widens f.2 →
      slotPlain? f.1 t slots = .ok ((write f).fillOut t)) (p : Bool) :
    toPlain? (some (.struct wide q)) (.record slots p) =
      .ok (Json.fillOut (.struct wide q)
        (.obj (Members.ofList (narrow.map fun f => (f.1, write f))))) := by
  cases ht with
  | struct hwide hnarrow hsub hwidens =>
    have hasc := Members.ascending_ofList (narrow.map fun f => (f.1, write f))
    have hperm : (Members.ofList (narrow.map fun f => (f.1, write f))).Perm
        (narrow.map fun f => (f.1, write f)) :=
      Members.ofList_perm (by rwa [List.map_map])
    generalize Members.ofList (narrow.map fun f => (f.1, write f)) = members at hasc hperm
    have hnames : ∀ name, name ∈ members.names ↔ name ∈ narrow.map Prod.fst := by
      intro name
      rw [Members.names, (hperm.map Prod.fst).mem_iff, List.map_map]
      rfl
    rw [Json.fillOut_obj hwide hasc fun name hname => hsub ((hnames name).mp hname)]
    rw [toPlain?_struct]
    refine congrArg (Json.obj <$> ·) (recordPlain?_of_forall fun f hf => ?_)
    by_cases hname : f.1 ∈ narrow.map Prod.fst
    · -- the narrower struct has the field: what it gives there is filled out
      obtain ⟨f', hf', heq⟩ := List.mem_map.mp hname
      have hget : members.get? f'.1 = some (write f') :=
        (Members.get?_eq_some_iff_mem hasc).mpr (hperm.mem_iff.mpr (List.mem_map_of_mem hf'))
      rw [← heq, hget, Option.getD_some]
      exact hwider f' hf' f.2 (hwidens f hf f' hf' heq.symm)
    · -- the field is an additional one: the record has no slot for it
      have hget : members.get? f.1 = none :=
        lookup_eq_none_of_notMem (mt (hnames f.1).mp hname)
      rw [hget, Option.getD_none, Json.fillOut_null]
      exact slotPlain?_of_notMem (hslots ▸ hname) f.2

/-- A record is written from its schema on if each of its slots is. -/
theorem exists_writtenFrom_record {slots : List Slot} (hnodup : (slots.map (·.1.1)).Nodup)
    (h : ∀ slot ∈ slots, ∃ j, WrittenFrom slot.1.2 slot.2 j) (o p : Bool) :
    ∃ j, WrittenFrom (.struct (slots.map Prod.fst) o) (.record slots p) j := by
  -- a field is written from its slot, under any schema
  have hfields : ∀ f ∈ slots.map Prod.fst, ∃ j, slotPlain? f.1 f.2 slots = .ok j ∧
      ∀ t : Schema, t.Widens f.2 → slotPlain? f.1 t slots = .ok (j.fillOut t) := by
    intro f hf
    obtain ⟨slot, hslot, rfl⟩ := List.mem_map.mp hf
    obtain ⟨j, hj⟩ := h slot hslot
    have hof := slotPlain?_of_mem hnodup hslot
    exact ⟨j, by rw [hof, hj.own], fun t ht => by rw [hof, hj.wider ht]⟩
  choose! write hwrite hwider using hfields
  refine ⟨_, by rw [toPlain?_struct, recordPlain?_of_forall hwrite]; rfl, fun {t} ht => ?_⟩
  cases t with
  | leaf | array => cases ht
  | struct wide q =>
    refine toPlain?_wider_struct ht ?_ hwider p
    rw [List.map_map]
    rfl

variable {Fits : LeafType → Value → Prop}

/-- **Every value is written from its schema on**, if its leaves are accepted and field names are
distinct. -/
theorem Conforms.exists_writtenFrom (hfits : ∀ t v, Fits t v → t.accepts v = true) {v : Value}
    {s : Schema} (hv : v.Conforms Fits s) (hs : s.Widens s) : ∃ j, WrittenFrom s v j := by
  -- by induction on the value; its schema is read off the conformance in each case
  induction v using Value.byParts generalizing s with
  | leaf v harray hmap hrecord =>
    by_cases hnull : v = .null
    · rw [hnull]
      exact ⟨.null, writtenFrom_null s⟩
    · obtain ⟨t, o, rfl, hfit⟩ := hv.eq_leaf (isLeaf_of_ne hnull harray hmap hrecord)
      exact exists_writtenFrom_leaf (hfits t v hfit) o
  | array items ih =>
    cases s with
    | leaf t o => exact nomatch LeafType.isLeaf_of_accepts (hfits t _ hv)
    | struct fields o => exact hv.elim
    | array e o =>
      cases hs with
      | array he =>
        have hitems := conforms_array.mp hv
        obtain ⟨js, hjs⟩ := forall₂_of_forall_exists fun v hv => ih v hv (hitems v hv) he
        exact ⟨.arr js, writtenFrom_array hjs o⟩
  | map entries ih =>
    -- no leaf type accepts a schemaless object, and no other schema has one either
    cases s with
    | leaf t o => exact nomatch LeafType.isLeaf_of_accepts (hfits t _ hv)
    | struct fields o => exact hv.elim
    | array e o => exact hv.elim
  | record slots p ih =>
    cases s with
    | leaf t o => exact nomatch LeafType.isLeaf_of_accepts (hfits t _ hv)
    | array e o => exact hv.elim
    | struct fields o =>
      obtain ⟨rfl, -, hslots⟩ := conforms_record.mp hv
      cases hs with
      | struct hnodup _ _ hself =>
        rw [List.map_map] at hnodup
        refine exists_writtenFrom_record hnodup (fun slot hslot => ?_) o p
        have hmem := List.mem_map_of_mem (f := Prod.fst) hslot
        exact ih slot hslot (hslots slot hslot) (hself _ hmem _ hmem rfl)

/-- **A value under a wider schema.** Let a value conform to a schema, with leaves that their types
accept. It can be written under that schema and under every wider one. What it gives under its own
lacks none of that schema's fields, and under the wider schema it gives the same with a null at each
field that the wider schema adds. -/
theorem toPlain?_of_widens (hfits : ∀ t v, Fits t v → t.accepts v = true) {v : Value}
    {s t : Schema} (hv : v.Conforms Fits s) (ht : t.Widens s) :
    ∃ j, v.toPlain? (some s) = .ok j ∧ j.fillOut s = j ∧
      v.toPlain? (some t) = .ok (j.fillOut t) := by
  obtain ⟨j, hj⟩ := hv.exists_writtenFrom hfits ht.self
  refine ⟨j, hj.own, ?_, hj.wider ht⟩
  have hself := hj.wider ht.self
  rw [hj.own] at hself
  injection hself with hself
  exact hself.symm

/-- A record with an array of records: every leaf becomes wider, and both structs get a field. -/
theorem toPlain?_of_widens_nested :
    let price : Field := ("price", .leaf .float32 true)
    let qty : Field := ("qty", .leaf (.int .w8) false)
    let id : Field := ("id", .leaf (.int .w16) false)
    let lines : Field := ("lines", .array (.struct [price, qty] true) true)
    let s : Schema := .struct [id, lines] false
    let line : Schema := .struct [("code", .leaf .string true), ("price", .leaf .float64 false),
      ("qty", .leaf (.int .w32) true)] false
    let t : Schema := .struct [("note", .leaf .string true), ("lines", .array line false),
      ("id", .leaf (.decimal 2) true)] true
    let v : Value := .record [(id, .int ⟨.w16, 300, by decide⟩), (lines, .array
      [.record [(price, .float32 (.ofBits _ 0x3fc00000)), (qty, .int ⟨.w8, 3, by decide⟩)] true,
        .null])] false
    let half : Json := .num ⟨false, 1, [5], none⟩
    (∀ t v, LeafType.Infers t v → t.accepts v = true) ∧ v.Conforms LeafType.Infers s ∧
      t.Widens s ∧
      v.toPlain? (some s) = .ok (.obj [("id", .ofInt 300),
        ("lines", .arr [.obj [("price", half), ("qty", .ofInt 3)], .null])]) ∧
      v.toPlain? (some t) = .ok (.obj [("id", .ofInt 300),
        ("lines", .arr [.obj [("code", .null), ("price", half), ("qty", .ofInt 3)], .null]),
        ("note", .null)]) := by
  intro price qty id lines s line t v half
  have hv : v.Conforms LeafType.Infers s := by
    simp [v, s, id, lines, price, qty, Conforms, ConformItems, ConformSlots, LeafType.Infers,
      Schema.isOptional]
  have hline : line.Widens (.struct [price, qty] true) := by
    have hprice : (Schema.leaf .float64 false).Widens (.leaf .float32 true) := .leaf .float
    have hqty : (Schema.leaf (.int .w32) true).Widens (.leaf (.int .w8) false) :=
      .leaf (.int (by decide))
    refine .struct (by decide +kernel) (by decide +kernel) (by decide +kernel) ?_
    simpa [price, qty] using And.intro hprice hqty
  have ht : t.Widens s := by
    have hid : (Schema.leaf (.decimal 2) true).Widens (.leaf (.int .w16) false) :=
      .leaf (.decimalOfInt 2 .w16)
    have hlines : (Schema.array line false).Widens lines.2 := .array hline
    refine .struct (by decide +kernel) (by decide +kernel) (by decide +kernel) ?_
    simpa [id, lines] using And.intro hlines hid
  have hwritten : v.toPlain? (some s) = .ok (.obj [("id", .ofInt 300),
      ("lines", .arr [.obj [("price", half), ("qty", .ofInt 3)], .null])]) := by decide +kernel
  obtain ⟨j, hj, -, hwider⟩ :=
    toPlain?_of_widens (fun t v => LeafType.accepts_of_infers) hv ht
  rw [hwritten] at hj
  injection hj with hj
  refine ⟨fun t v => LeafType.accepts_of_infers, hv, ht, hwritten, ?_⟩
  rw [hwider, ← hj]
  decide +kernel

end Value
end DocStream
