import DocStream.Plain
import DocStream.Proofs.Induction
import DocStream.Proofs.Names
import DocStream.Proofs.Outcome
import DocStream.Proofs.Value.Conformance

/-!
# Writing values as plain JSON

What `Value.toPlain?` gives for a value under a schema of its own shape, in terms of what it gives
for the value's parts.

* `Value.toPlain?_leaf` — a leaf under a leaf schema that accepts it;
* `Value.toPlain?_array` — an array, item by item;
* `Value.toPlain?_record` — **a record, slot by slot**: the object has exactly the fields of the
  schema, in the same order;
* `Value.toPlain?_struct` — any record under a struct schema, field by field;
* `LeafType.accepts_of_infers` — an inferred leaf is accepted by its type;
* `Value.failsPerRecord_toPlain?`, `Value.failsPerRecord_toDocument?` — **a value that cannot be
  written** is to blame for it itself.

What is written under a struct schema is collected into an object, and collecting puts members in
order. For a record of ascending names that changes nothing, which is why the lemmas about records
ask for it: a record that conversion made has it.

The failures are all alike. A value that does not fit its schema is refused with an error that is to
blame on the record, and so is one that has no plain form at all.
-/

namespace DocStream

/-- **An inferred leaf is accepted** by its type: it has exactly the kind, and types accept at least
that. -/
theorem LeafType.accepts_of_infers {t : LeafType} {v : Value} (h : t.Infers v) :
    t.accepts v = true := by
  cases t <;> cases v <;> first | exact h.elim | rfl | skip
  -- a width accepts every integer that is not wider, its own one included
  next w n =>
    have hw : n.width = w := h
    rw [accepts, hw]
    exact decide_eq_true (Nat.le_refl _)

/-- A leaf type accepts leaves only, so null and containers have to be looked at apart. -/
theorem LeafType.isLeaf_of_accepts {t : LeafType} {v : Value} (h : t.accepts v = true) :
    v.isLeaf = true := by
  cases v with
  | null | array | map | record => cases t <;> exact nomatch h
  | _ => rfl

namespace Value

/-- A leaf can be written, if there is no schema to ask. -/
theorem exists_leafPlain? {v : Value} (hv : v.isLeaf = true) : ∃ j, v.leafPlain? = .ok j := by
  cases v with
  | null | array | map | record => exact nomatch hv
  | _ => exact ⟨_, rfl⟩

theorem toPlain?_none {v : Value} (hv : v.isLeaf = true) : toPlain? none v = v.leafPlain? := by
  cases v with
  | null | array | map | record => exact nomatch hv
  | _ => rw [toPlain?] <;> exact nofun

/-- A leaf under a leaf schema that accepts it is written as it would be without one. -/
theorem toPlain?_leaf {v : Value} {t : LeafType} {o : Bool} (hv : v.isLeaf = true)
    (ht : t.accepts v = true) : toPlain? (some (.leaf t o)) v = v.leafPlain? := by
  -- null and containers have cases of their own, and the leaves share one
  cases v with
  | null | array | map | record => exact nomatch hv
  | _ =>
    rw [toPlain?]
    · exact if_pos ht
    all_goals exact nofun

/-- Items are written one by one, all under the schema of the elements. -/
theorem itemsPlain?_eq_ok {element : Option Schema} {items : List Value} {js : List Json} :
    itemsPlain? element items = .ok js ↔
      List.Forall₂ (fun v j => toPlain? element v = .ok j) items js := by
  induction items generalizing js with
  | nil =>
    rw [itemsPlain?, List.forall₂_nil_left_iff]
    exact ⟨fun h => by injection h with h; exact h.symm, fun h => h ▸ rfl⟩
  | cons v rest ih =>
    rw [itemsPlain?, List.forall₂_cons_left_iff, Outcome.bind_eq_ok]
    constructor
    · rintro ⟨j, hj, h⟩
      obtain ⟨js', hjs, h⟩ := Outcome.bind_eq_ok.mp h
      injection h with h
      exact ⟨j, js', hj, ih.mp hjs, h.symm⟩
    · rintro ⟨j, js', hj, hjs, rfl⟩
      exact ⟨j, hj, Outcome.bind_eq_ok.mpr ⟨js', ih.mpr hjs, rfl⟩⟩

/-- **An array is written item by item**, each under the one element schema and in order. -/
theorem toPlain?_array {items : List Value} {e : Schema} {o : Bool} {j : Json} :
    toPlain? (some (.array e o)) (.array items) = .ok j ↔
      ∃ js, j = .arr js ∧ List.Forall₂ (fun v j => toPlain? (some e) v = .ok j) items js := by
  rw [toPlain?, Outcome.map_eq_ok]
  constructor
  · rintro ⟨js, hjs, rfl⟩
    exact ⟨js, rfl, itemsPlain?_eq_ok.mp hjs⟩
  · rintro ⟨js, rfl, hjs⟩
    exact ⟨js, itemsPlain?_eq_ok.mpr hjs, rfl⟩

/-- The field of a slot is written from that slot, if no other slot has its name. -/
theorem slotPlain?_of_mem {slots : List Slot} (hnodup : (slots.map (·.1.1)).Nodup) {slot : Slot}
    (hslot : slot ∈ slots) (s : Schema) :
    slotPlain? slot.1.1 s slots = toPlain? (some s) slot.2 := by
  -- the first slot of the name is the slot itself, since no other has the name
  induction slots with
  | nil => exact absurd hslot List.not_mem_nil
  | cons first rest ih =>
    obtain ⟨⟨k, u⟩, v⟩ := first
    rw [List.map_cons, List.nodup_cons] at hnodup
    rw [slotPlain?]
    rcases List.mem_cons.mp hslot with rfl | hrest
    · rw [if_pos rfl]
    · -- the first slot has another name
      have hne : k ≠ slot.1.1 := by
        intro hk
        exact hnodup.1 (hk ▸ List.mem_map_of_mem (f := (·.1.1)) hrest)
      rw [if_neg hne, ih hnodup.2 hrest]

/-- **The fields of a record are written slot by slot.** The names ascend, so each slot gives the
member that stands at its place. -/
theorem recordPlain?_eq_ok {slots : List Slot} (hasc : StrictlyAscending (slots.map (·.1.1)))
    {members : Members} :
    recordPlain? (slots.map Prod.fst) slots = .ok members ↔
      List.Forall₂ (fun slot m => m.1 = slot.1.1 ∧ toPlain? (some slot.1.2) slot.2 = .ok m.2)
        slots members := by
  -- the field of a slot is written from that slot, and from no other
  have hstep : ∀ {ms : List (String × Json)},
      ((slots.map Prod.fst).mapM fun f => do
        let j ← slotPlain? f.1 f.2 slots
        return (f.1, j)) = .ok ms ↔
      List.Forall₂ (fun slot m => m.1 = slot.1.1 ∧ toPlain? (some slot.1.2) slot.2 = .ok m.2)
        slots ms := by
    intro ms
    rw [Outcome.mapM_eq_ok, List.forall₂_map_left_iff]
    constructor <;> intro h <;> refine forall₂_imp_of_mem h fun slot hslot m _ hm => ?_
    · obtain ⟨j, hj, hm⟩ := Outcome.bind_eq_ok.mp hm
      injection hm with hm
      rw [slotPlain?_of_mem hasc.nodup hslot] at hj
      rw [← hm]
      exact ⟨rfl, hj⟩
    · obtain ⟨hname, hj⟩ := hm
      refine Outcome.bind_eq_ok.mpr ⟨m.2, ?_, ?_⟩
      · rw [slotPlain?_of_mem hasc.nodup hslot]
        exact hj
      · rw [← hname]
        rfl
  -- the names ascend already, so collecting the members leaves them as they are
  have hlist : ∀ {ms : List (String × Json)},
      List.Forall₂ (fun slot m => m.1 = slot.1.1 ∧ toPlain? (some slot.1.2) slot.2 = .ok m.2)
        slots ms → Members.ofList ms = ms := by
    intro ms h
    have hnames : slots.map (·.1.1) = ms.map Prod.fst :=
      map_eq_map_of_forall₂ (h.imp fun slot m hm => hm.1.symm)
    exact Members.ofList_of_ascending (hnames ▸ hasc)
  rw [recordPlain?, Outcome.bind_eq_ok]
  constructor
  · rintro ⟨ms, hms, h⟩
    injection h with h
    rw [← h, hlist (hstep.mp hms)]
    exact hstep.mp hms
  · intro h
    refine ⟨members, hstep.mpr h, ?_⟩
    rw [hlist h]
    rfl

/-- Under a struct schema a record is written field by field. -/
theorem toPlain?_struct (fields : List Field) (slots : List Slot) (o p : Bool) :
    toPlain? (some (.struct fields o)) (.record slots p) =
      Json.obj <$> recordPlain? fields slots := by
  rw [toPlain?, recordPlain?]
  dsimp only [Option.getD]
  rw [map_bind]
  rfl

/-- **A record is written slot by slot**: its members are the fields of the schema in order. -/
theorem toPlain?_record {slots : List Slot} (hasc : StrictlyAscending (slots.map (·.1.1)))
    {o p : Bool} {j : Json} :
    toPlain? (some (.struct (slots.map Prod.fst) o)) (.record slots p) = .ok j ↔
      ∃ members, j = .obj members ∧
        List.Forall₂ (fun slot m => m.1 = slot.1.1 ∧ toPlain? (some slot.1.2) slot.2 = .ok m.2)
          slots members := by
  rw [toPlain?_struct, Outcome.map_eq_ok]
  constructor
  · rintro ⟨members, hm, rfl⟩
    exact ⟨members, rfl, (recordPlain?_eq_ok hasc).mp hm⟩
  · rintro ⟨members, rfl, hm⟩
    exact ⟨members, (recordPlain?_eq_ok hasc).mpr hm, rfl⟩

/-! ### Failures -/

open Outcome

/-- A value that is no leaf is to blame for it itself. -/
theorem failsPerRecord_leafPlain? (v : Value) : v.leafPlain?.FailsPerRecord := by
  cases v with
  | array | map | record => exact failsPerRecord_error rfl
  | _ => exact failsPerRecord_ok _

/-- Items are written one by one, and fail as the first that cannot be written does. -/
theorem failsPerRecord_itemsPlain? {element : Option Schema} {items : List Value}
    (h : ∀ v ∈ items, (toPlain? element v).FailsPerRecord) :
    (itemsPlain? element items).FailsPerRecord := by
  induction items with
  | nil => exact failsPerRecord_ok _
  | cons v rest ih =>
    rw [itemsPlain?]
    refine (h v List.mem_cons_self).bind fun _ _ => ?_
    refine (ih fun v hv => h v (List.mem_cons_of_mem _ hv)).bind fun _ _ => failsPerRecord_ok _

/-- So do the entries of a schemaless object, each of which is written without a schema. -/
theorem failsPerRecord_entriesPlain? {entries : List (String × Value)}
    (h : ∀ e ∈ entries, (toPlain? none e.2).FailsPerRecord) :
    (entriesPlain? entries).FailsPerRecord := by
  induction entries with
  | nil => exact failsPerRecord_ok _
  | cons e rest ih =>
    rw [entriesPlain?]
    refine (h e List.mem_cons_self).bind fun _ _ => ?_
    refine (ih fun e he => h e (List.mem_cons_of_mem _ he)).bind fun _ _ => failsPerRecord_ok _

/-- A field is written from the first slot of its name. -/
theorem failsPerRecord_slotPlain? {slots : List Slot}
    (h : ∀ slot ∈ slots, ∀ schema, (toPlain? schema slot.2).FailsPerRecord) (name : String)
    (schema : Schema) : (slotPlain? name schema slots).FailsPerRecord := by
  induction slots with
  | nil => exact failsPerRecord_ok _
  | cons slot rest ih =>
    rw [slotPlain?]
    split
    · exact h slot List.mem_cons_self _
    · exact ih fun slot hslot => h slot (List.mem_cons_of_mem _ hslot)

/-- The fields of a record are written one by one, each under its own schema. -/
theorem failsPerRecord_recordPlain? {slots : List Slot}
    (h : ∀ slot ∈ slots, ∀ schema, (toPlain? schema slot.2).FailsPerRecord) (fields : List Field) :
    (recordPlain? fields slots).FailsPerRecord := by
  rw [recordPlain?]
  refine Fails.bind (Fails.mapM fun f _ => ?_) fun _ _ => failsPerRecord_ok _
  exact (failsPerRecord_slotPlain? h f.1 f.2).bind fun _ _ => failsPerRecord_ok _

/-- **A value that cannot be written** is to blame for it itself, whatever the schema. So a batch
can go on without its record. -/
theorem failsPerRecord_toPlain? (schema : Option Schema) (v : Value) :
    (toPlain? schema v).FailsPerRecord := by
  -- by induction on the value; the schema goes along and changes on the way
  induction v using Value.byParts generalizing schema with
  | leaf v harray hmap hrecord =>
    cases v with
    | null => exact failsPerRecord_ok _
    | array items => exact absurd rfl (harray items)
    | map entries => exact absurd rfl (hmap entries)
    | record slots o => exact absurd rfl (hrecord slots o)
    | _ =>
      cases schema with
      | none =>
        rw [toPlain?_none rfl]
        exact failsPerRecord_leafPlain? _
      | some s =>
        rw [toPlain?.eq_def]
        dsimp only
        split
        · exact failsPerRecord_leafPlain? _
        · exact failsPerRecord_error rfl
  | array items ih =>
    rw [toPlain?.eq_def]
    dsimp only
    split
    · exact (failsPerRecord_itemsPlain? fun v hv => ih v hv none).map _
    · next element _ => exact (failsPerRecord_itemsPlain? fun v hv => ih v hv (some element)).map _
    · exact failsPerRecord_error rfl
  | map entries ih =>
    rw [toPlain?.eq_def]
    dsimp only
    split
    · refine (failsPerRecord_entriesPlain? fun e he => ih e he none).bind fun _ _ => ?_
      exact failsPerRecord_ok _
    · exact failsPerRecord_error rfl
  | record slots o ih =>
    rw [toPlain?]
    split
    · next fields _ _ =>
      have hrecord := (failsPerRecord_recordPlain? ih fields).map Json.obj
      rw [recordPlain?, map_bind] at hrecord
      exact hrecord
    · exact failsPerRecord_error rfl

/-- **A value that becomes no document** is to blame for it itself, whatever the schema. -/
theorem failsPerRecord_toDocument? (schema : Option Schema) (v : Value) :
    (v.toDocument? schema).FailsPerRecord := by
  rw [toDocument?.eq_def]
  split
  · exact (failsPerRecord_entriesPlain? fun e _ => failsPerRecord_toPlain? none e.2).map _
  · split
    · exact failsPerRecord_recordPlain? (fun slot _ schema => failsPerRecord_toPlain? schema slot.2) _
    · exact failsPerRecord_error rfl
  · exact failsPerRecord_error rfl
  · exact failsPerRecord_error rfl

end Value
end DocStream
