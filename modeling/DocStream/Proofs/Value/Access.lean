import DocStream.Proofs.Value.Rebuilding

/-!
# Fields reached by their names

A record is read and written by the names of its fields, and a name leads to the first field that
has it. So every field can be reached exactly if no two have the same name.

* `Schema.NamesReach` — **the name of every field reaches that field**, in every record of a schema;
* `Schema.namesReach_iff` — that is, the names are distinct;
* `Schema.everywhere_namesReach_iff` — the same for all structs inside a schema.

One direction is by hand: a name that two fields have has both their places, which cannot be. The
other one cuts the slots at the one that is to be reached, so that getting and putting run through
the slots before it, and these all have other names.
-/

namespace DocStream

/-- **A name reaches a slot**: it has the slot's place in the schema, getting it gives what the slot
holds, and putting it changes the slot and no other. -/
structure Record.NameReaches (r : Record) (i : Nat) (slot : Slot) : Prop where
  place : r.schema.fieldIndex? slot.1.1 = some i
  get : r.get? slot.1.1 = some slot.2
  put : ∀ v, r.put? slot.1.1 v = .ok { r with slots := r.slots.set i (slot.1, v) }

/-- The name of a slot reaches it if no slot before it has that name. -/
theorem Record.nameReaches_append {before after : List Slot} {slot : Slot} {o : Bool}
    (h : slot.1.1 ∉ before.map (·.1.1)) :
    NameReaches ⟨before ++ slot :: after, o⟩ before.length slot where
  place := by
    -- no slot before it has the name, so looking for it gets as far as this slot
    have hbefore : (before.map Prod.fst).findIdx? (fun f => f.1 == slot.1.1) = none := by
      refine List.findIdx?_eq_none_iff.mpr fun f hf => beq_eq_false_iff_ne.mpr fun heq => h ?_
      obtain ⟨s, hs, rfl⟩ := List.mem_map.mp hf
      exact List.mem_map.mpr ⟨s, hs, heq⟩
    rw [schema, Schema.fieldIndex?, Schema.fields, Schema.fields?, Option.getD_some,
      List.map_append, List.findIdx?_append, hbefore]
    simp [List.findIdx?_cons]
  get := by
    have hbefore : before.find? (fun s => s.1.1 == slot.1.1) = none := by
      refine List.find?_eq_none.mpr fun s hs heq => h ?_
      exact List.mem_map.mpr ⟨s, hs, beq_iff_eq.mp heq⟩
    rw [get?, List.find?_append, hbefore]
    simp
  put v := by
    rw [put?, setSlot?_append h]
    simp

namespace Schema

/-- **The name of every field reaches that field**, in every record of the schema. -/
def NamesReach (s : Schema) : Prop :=
  ∀ r : Record, r.schema = s → ∀ i slot, r.slots[i]? = some slot → r.NameReaches i slot

variable {s : Schema}

/-- **Every name reaches its field** exactly if no two fields have the same name. -/
theorem namesReach_iff : s.NamesReach ↔ (s.fields.map Prod.fst).Nodup := by
  constructor
  · intro h
    cases s with
    | leaf t o => exact List.nodup_nil
    | array e o => exact List.nodup_nil
    | struct fields o =>
      -- a name that two fields have would have both their places
      refine List.pairwise_iff_getElem.mpr fun i j hi hj hij heq => ?_
      rw [List.length_map] at hi hj
      have hreach : ∀ k (hk : k < fields.length),
          (struct fields o).fieldIndex? fields[k].1 = some k := by
        intro k hk
        have hslot := h _ (Record.schema_ofFields fields o) k (fields[k], .null)
          (by simp [Record.ofFields, hk])
        rw [← Record.schema_ofFields fields o]
        exact hslot.place
      rw [List.getElem_map, List.getElem_map] at heq
      have hsame := (hreach i hi).symm.trans (heq ▸ hreach j hj)
      exact absurd (Option.some.inj hsame) (Nat.ne_of_lt hij)
  · rintro h ⟨slots, o⟩ rfl i slot hslot
    -- the slots are cut at this one, so that its name is not among those before it
    obtain ⟨hi, rfl⟩ := List.getElem?_eq_some_iff.mp hslot
    obtain ⟨before, after, hslots, hbefore⟩ :
        ∃ before after, slots = before ++ slots[i] :: after ∧ before.length = i :=
      ⟨slots.take i, slots.drop (i + 1), by simp, List.length_take_of_le hi.le⟩
    rw [Record.schema, fields, fields?, Option.getD_some, List.map_map, hslots, List.map_append,
      List.map_cons, List.nodup_append] at h
    have hnew : slots[i].1.1 ∉ before.map (·.1.1) := fun hmem =>
      h.2.2 _ hmem _ List.mem_cons_self rfl
    have hreach : Record.NameReaches ⟨before ++ slots[i] :: after, o⟩ before.length slots[i] :=
      Record.nameReaches_append hnew
    rwa [← hslots, hbefore] at hreach

/-- **Every name reaches its field everywhere** exactly if names are distinct in every struct. -/
theorem everywhere_namesReach_iff : s.Everywhere NamesReach ↔ s.DistinctNames := by
  have hnodup : NamesReach = fun t => (t.fields.map Prod.fst).Nodup :=
    funext fun t => propext namesReach_iff
  rw [DistinctNames, hnodup]

end Schema
end DocStream
