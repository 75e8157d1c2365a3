import DocStream.Merge
import DocStream.Proofs.Names
import DocStream.Proofs.Outcome
import Mathlib.Data.List.Nodup

/-!
# Filling records

How records come to their values when the names of their fields are distinct. Setting a field
changes the slot of that name and leaves all others alone (`Record.setSlot?_of_mem`), so carrying
slots over fills exactly the fields that have a namesake.

* `Value.carried` — what a value becomes on its way into a field of another schema;
* `Value.carryOver_eq_ok` — the slots of a record carried over into another;
* `Value.conformTo_record` — **a record rebuilt under another struct schema**: it has the fields of
  that schema, each with the value carried from its namesake, or null if there is none.

A record is rebuilt by making one of nulls and setting its fields one after the other. With distinct
names these steps do not get in each other's way, so the order of the slots does not matter and no
field is set twice.
-/

namespace DocStream

namespace Record

/-- **Setting a slot** whose name occurs once changes that slot's value and nothing else. -/
theorem setSlot?_of_mem {name : String} {v : Value} {slots : List Slot}
    (hd : (slots.map (·.1.1)).Nodup) (hm : name ∈ slots.map (·.1.1)) :
    setSlot? name v slots
      = some (slots.map fun slot => if slot.1.1 = name then (slot.1, v) else slot) := by
  -- the first slot of the name is the only one, so setting that sets them all
  induction slots with
  | nil => exact absurd hm List.not_mem_nil
  | cons slot rest ih =>
    obtain ⟨f, w⟩ := slot
    rw [List.map_cons, List.nodup_cons] at hd
    rw [List.map_cons, List.mem_cons] at hm
    rw [setSlot?, List.map_cons]
    by_cases hf : f.1 = name
    · -- the name does not occur again, so the rest stays as it is
      have hrest : rest.map (fun slot => if slot.1.1 = name then (slot.1, v) else slot)
          = rest.map id := by
        apply List.map_congr_left
        intro slot hslot
        have hne : slot.1.1 ≠ name := by
          intro heq
          exact hd.1 (List.mem_map.mpr ⟨slot, hslot, heq.trans hf.symm⟩)
        rw [if_neg hne, id]
      rw [if_pos hf, if_pos hf, hrest, List.map_id]
    · have hm' : name ∈ rest.map (·.1.1) := hm.resolve_left fun heq => hf heq.symm
      rw [if_neg hf, if_neg hf, ih hd.2 hm', Option.map_some]

/-- Setting a slot behind slots of other names. -/
theorem setSlot?_append {f : Field} {v w : Value} {before after : List Slot}
    (h : f.1 ∉ before.map (·.1.1)) :
    setSlot? f.1 v (before ++ (f, w) :: after) = some (before ++ (f, v) :: after) := by
  induction before with
  | nil => exact if_pos rfl
  | cons slot rest ih =>
    obtain ⟨g, u⟩ := slot
    rw [List.map_cons, List.mem_cons, not_or] at h
    rw [List.cons_append, setSlot?, if_neg (Ne.symm h.1), ih h.2]
    rfl

/-- **Setting a field** that the record has succeeds, and changes that field and nothing else. -/
theorem put?_of_mem {r : Record} {name : String} {v : Value}
    (hd : (r.slots.map (·.1.1)).Nodup) (hm : name ∈ r.slots.map (·.1.1)) :
    r.put? name v = .ok
      ⟨r.slots.map fun slot => if slot.1.1 = name then (slot.1, v) else slot, r.optional⟩ := by
  rw [put?, setSlot?_of_mem hd hm]

/-- The fields of a record stay the same when one is set. -/
theorem map_fst_set (slots : List Slot) (name : String) (v : Value) :
    (slots.map fun slot => if slot.1.1 = name then (slot.1, v) else slot).map Prod.fst
      = slots.map Prod.fst := by
  rw [List.map_map]
  apply List.map_congr_left
  intro slot _
  rw [Function.comp_apply]
  split <;> rfl

/-- The slots after setting a field: the one that was set, and the others as before. -/
theorem mem_set {slots : List Slot} {name : String} {v : Value} {slot : Slot}
    (h : slot ∈ slots.map fun slot => if slot.1.1 = name then (slot.1, v) else slot) :
    (slot.1.1 = name ∧ slot.2 = v) ∨ (slot.1.1 ≠ name ∧ slot ∈ slots) := by
  obtain ⟨old, hold, rfl⟩ := List.mem_map.mp h
  by_cases hn : old.1.1 = name
  · rw [if_pos hn]
    exact .inl ⟨hn, rfl⟩
  · rw [if_neg hn]
    exact .inr ⟨hn, hold⟩

theorem names_eq_of_fields_eq {slots slots' : List Slot}
    (h : slots.map Prod.fst = slots'.map Prod.fst) :
    slots.map (·.1.1) = slots'.map (·.1.1) := by
  have h := congrArg (List.map Prod.fst) h
  rwa [List.map_map, List.map_map] at h

end Record

/-! ### Carrying slots over -/

namespace Value

/-- **The value carried into a field** of schema `target` from one of schema `schema`: a struct
value is rebuilt where the schemas differ, all else is taken as it is. -/
def carried (target schema : Schema) (v : Value) : Outcome Value :=
  if target.isStruct && target ≠ schema then conformTo target v else pure v

@[simp] theorem carried_self (s : Schema) (v : Value) : carried s s v = .ok v := by
  rw [carried, if_neg (by simp)]
  rfl

@[simp] theorem carried_null (target schema : Schema) :
    carried target schema .null = .ok .null := by
  rw [carried, conformTo]
  split <;> rfl

/-- Carrying over, one slot at a time. -/
theorem carryOver_cons {target s : Schema} {into : Record} {slot : Slot} {rest : List Slot}
    {v : Value} (hs : target.field? slot.1.1 = some s) (hv : carried s slot.1.2 slot.2 = .ok v) :
    carryOver target into (slot :: rest)
      = into.put? slot.1.1 v >>= fun into => carryOver target into rest := by
  obtain ⟨⟨name, schema⟩, w⟩ := slot
  simp only at hs hv
  rw [carryOver, hs]
  rw [carried] at hv
  -- both definitions ask whether there is a struct to rebuild
  by_cases hc : (s.isStruct && decide (s ≠ schema)) = true
  · rw [if_pos hc] at hv
    simp only [hc, if_true, hv]
    rfl
  · rw [if_neg hc] at hv
    injection hv with hv
    simp only [hc, hv]
    rfl

/-- **Slots carried over into a record.** If every slot has a namesake there and can be carried into
it, then afterwards each field holds what its namesake carried, and the fields without a namesake
are as before. -/
theorem carryOver_eq_ok (target : Schema) (into : Record) {slots : List Slot}
    (hinto : (into.slots.map (·.1.1)).Nodup) (hslots : (slots.map (·.1.1)).Nodup)
    (h : ∀ slot ∈ slots, slot.1.1 ∈ into.slots.map (·.1.1) ∧
      ∃ s w, target.field? slot.1.1 = some s ∧ carried s slot.1.2 slot.2 = .ok w) :
    ∃ r, carryOver target into slots = .ok r ∧ r.optional = into.optional ∧
      r.slots.map Prod.fst = into.slots.map Prod.fst ∧
      ∀ slot ∈ r.slots,
        (∃ old ∈ slots, old.1.1 = slot.1.1 ∧
          ∃ s, target.field? old.1.1 = some s ∧ carried s old.1.2 old.2 = .ok slot.2) ∨
        (slot.1.1 ∉ slots.map (·.1.1) ∧ slot ∈ into.slots) := by
  -- slot by slot; the record that they go into changes on the way, but its fields do not
  induction slots generalizing into with
  | nil => exact ⟨into, rfl, rfl, rfl, fun slot hslot => .inr ⟨List.not_mem_nil, hslot⟩⟩
  | cons head rest ih =>
    rw [List.map_cons, List.nodup_cons] at hslots
    obtain ⟨hmem, s, v, hs, hv⟩ := h head List.mem_cons_self
    -- the record after the first slot has the same fields, so the rest can go into it
    let next : Record :=
      ⟨into.slots.map fun slot => if slot.1.1 = head.1.1 then (slot.1, v) else slot, into.optional⟩
    have hput : into.put? head.1.1 v = .ok next := Record.put?_of_mem hinto hmem
    have hfields : next.slots.map Prod.fst = into.slots.map Prod.fst :=
      Record.map_fst_set into.slots head.1.1 v
    have hnames := Record.names_eq_of_fields_eq hfields
    obtain ⟨r, hr, hopt, hrf, hrs⟩ := ih next (by rw [hnames]; exact hinto) hslots.2
      fun slot hslot => by
        rw [hnames]
        exact h slot (List.mem_cons_of_mem head hslot)
    refine ⟨r, ?_, hopt, hrf.trans hfields, fun slot hslot => ?_⟩
    · rw [carryOver_cons hs hv, hput]
      exact hr
    · rcases hrs slot hslot with ⟨old, hold, hcarried⟩ | ⟨hnew, hslot⟩
      · exact .inl ⟨old, List.mem_cons_of_mem head hold, hcarried⟩
      · -- no later slot has the name, so the first one decides
        rcases Record.mem_set hslot with ⟨hname, hval⟩ | ⟨hname, hslot⟩
        · exact .inl ⟨head, List.mem_cons_self, hname.symm, s, hs, hval ▸ hv⟩
        · refine .inr ⟨?_, hslot⟩
          rw [List.map_cons, List.mem_cons, not_or]
          exact ⟨hname, hnew⟩

/-- **A record rebuilt under another struct schema.** If every slot of the record has a namesake
among the fields of the target and can be carried into it, then rebuilding succeeds. The result has
exactly the target's fields; each holds what its namesake carried, or null if there is none. -/
theorem conformTo_record {fields : List Field} {slots : List Slot} {o p : Bool}
    (hfields : (fields.map Prod.fst).Nodup) (hslots : (slots.map (·.1.1)).Nodup)
    (h : ∀ slot ∈ slots, ∃ s w, (slot.1.1, s) ∈ fields ∧ carried s slot.1.2 slot.2 = .ok w) :
    ∃ slots', conformTo (.struct fields p) (.record slots o) = .ok (.record slots' p) ∧
      slots'.map Prod.fst = fields ∧
      ∀ f w, (f, w) ∈ slots' →
        (∃ s v, ((f.1, s), v) ∈ slots ∧ carried f.2 s v = .ok w) ∨
        (f.1 ∉ slots.map (·.1.1) ∧ w = .null) := by
  by_cases hsame : Schema.struct (slots.map Prod.fst) o = .struct fields p
  · -- the record has the schema already
    injection hsame with hf ho
    refine ⟨slots, ?_, hf, fun f w hslot => .inl ⟨f.2, w, hslot, carried_self f.2 w⟩⟩
    rw [conformTo, hf, ho, if_pos rfl]
  · -- the slots are carried over into a record of nulls
    let blank : Record := Record.ofFields fields p
    have hblank : blank.slots.map Prod.fst = fields := by
      show (fields.map fun f => (f, Value.null)).map Prod.fst = fields
      rw [List.map_map, Function.comp_def, List.map_id']
    have hnames : blank.slots.map (·.1.1) = fields.map Prod.fst := by
      rw [← hblank, List.map_map]
      rfl
    obtain ⟨r, hr, hopt, hrf, hrs⟩ := carryOver_eq_ok (.struct fields p) blank
      (by rw [hnames]; exact hfields) hslots fun slot hslot => by
        obtain ⟨s, w, hmem, hw⟩ := h slot hslot
        rw [hnames]
        exact ⟨List.mem_map.mpr ⟨_, hmem, rfl⟩, s, w, (lookup_eq_some_iff_mem hfields).mpr hmem, hw⟩
    refine ⟨r.slots, ?_, hrf.trans hblank, fun f w hslot => ?_⟩
    · rw [conformTo, if_neg hsame]
      show (carryOver (.struct fields p) blank slots >>= fun r => pure r.toValue) = _
      rw [hr]
      show Except.ok (Value.record r.slots r.optional) = _
      rw [hopt]
      rfl
    · have hf : f ∈ fields := by
        rw [← hblank, ← hrf]
        exact List.mem_map.mpr ⟨_, hslot, rfl⟩
      rcases hrs _ hslot with ⟨old, hold, hname, s, hs, hcarried⟩ | ⟨hnew, hslot⟩
      · -- the field that the name leads to is the slot's own
        have hs : (old.1.1, s) ∈ fields := (lookup_eq_some_iff_mem hfields).mp hs
        obtain ⟨⟨name, schema⟩, v⟩ := old
        obtain ⟨fname, fschema⟩ := f
        simp only at hname hs hcarried
        subst hname
        have heq : s = fschema :=
          congrArg Prod.snd (List.inj_on_of_nodup_map hfields hs hf rfl)
        exact .inl ⟨schema, v, hold, heq ▸ hcarried⟩
      · refine .inr ⟨hnew, ?_⟩
        obtain ⟨_, _, heq⟩ := List.mem_map.mp hslot
        exact (congrArg Prod.snd heq).symm

end Value
end DocStream
