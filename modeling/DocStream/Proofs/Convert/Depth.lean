import DocStream.Proofs.Convert.Nesting
import DocStream.Proofs.Envelope.Schemaless
import DocStream.Proofs.Json.Nesting

/-!
# The depth limit of a conversion

A conversion enters a container only while fewer containers than its limit are open. Nothing else in
it looks at the depth, so a document that was converted under one limit is converted to the same
under another, unless it nests too deep there.

* `Json.nesting_le_of_nest` — a document that could be nested is within the limit;
* `Json.height_le_of_nest` — its schema is no higher than that;
* `Json.schemaless_of_read` — **another limit, the same value**: a document that could be read
  without a schema is read to the same under every limit that it is within.

The proofs go by induction on the document, one container deeper at each step, with the depth kept
general. Without a schema the two limits are compared by one function, `Json.withinLimit`: it gives
the known value or the failure of the limit, and the loops over items and members put its results
together as they put together those of reading.
-/

namespace DocStream

/-- No leaf is written as a container. A float may be written as a number or as text, and neither is
one. -/
theorem Value.isContainer_of_leafPlain? {v : Value} {j : Json} (h : v.leafPlain? = .ok j) :
    j.isContainer = false := by
  have hfloat : ∀ {fmt : Format} (x : Binary fmt), (floatPlain x).isContainer = false := by
    intro fmt x
    rcases floatPlain_cases x with ⟨-, hplain⟩ | ⟨-, hplain⟩ <;> rw [hplain] <;> rfl
  cases v with
  -- floats are the only leaves with two ways of being written
  | float32 x | float64 x =>
    obtain rfl := Except.ok.inj h
    exact hfloat x
  | array | map | record => cases h
  | _ =>
    obtain rfl := Except.ok.inj h
    rfl

namespace Json

theorem nesting_of_scalar {j : Json} (h : j.isContainer = false) : j.nesting = 0 := by
  cases j with
  | arr | obj => cases h
  | _ => rfl

variable {maxDepth depth : Nat}

/-- **A document that could be nested is within the limit.** Each container was entered below it,
and so was each container in it, with one more open around it. -/
theorem nesting_le_of_nest {path : Path} {d : Json} {s : Schema} {v : Value} (hd : d.Canonical)
    (h : nest maxDepth depth path d = .ok (s, v)) : d.nesting ≤ maxDepth - depth := by
  induction d using Json.byParts generalizing depth path s v with
  | null | bool | num | str => exact Nat.zero_le _
  | arr items ih =>
    -- there was room for the array itself, and its items were nested one deeper
    obtain ⟨typed, -, -, htyped, -⟩ := nest_arr h
    refine nesting_arr_le.mpr ⟨lt_of_nest rfl h, fun j hj => ?_⟩
    obtain ⟨sv, -, p, hp⟩ := exists_of_forall₂ htyped.flip hj
    exact ih j hj (canonical_arr.mp hd j hj) hp
  | obj members ih =>
    obtain ⟨hasc, hparts⟩ := canonical_obj.mp hd
    obtain ⟨slots, hslots, -⟩ := nest_obj hasc h
    refine nesting_obj_le.mpr ⟨lt_of_nest rfl h, fun m hm => ?_⟩
    obtain ⟨slot, -, -, p, hp⟩ := exists_of_forall₂ hslots.flip hm
    exact ih m hm (hparts m hm) hp

/-- **The schema of a document is no higher than the document nests deep.** It may be lower, since
an array without items has the element schema of null. -/
theorem height_le_of_nest {path : Path} {d : Json} {s : Schema} {v : Value} (hd : d.Canonical)
    (h : nest maxDepth depth path d = .ok (s, v)) : s.height ≤ d.nesting := by
  induction d using Json.byParts generalizing depth path s v with
  | null | bool | num | str =>
    obtain ⟨t, rfl⟩ := eq_leaf_of_nest rfl h
    exact Nat.zero_le _
  | arr items ih =>
    obtain ⟨typed, e, values, htyped, hrec, rfl, -⟩ := nest_arr h
    rw [Schema.height, nesting, Nat.add_le_add_iff_right]
    have hitems : ∀ item ∈ typed, item.1.height ≤ nestingOfItems items := by
      intro item hitem
      obtain ⟨j, hj, p, hp⟩ := exists_of_forall₂ htyped hitem
      exact (ih j hj (canonical_arr.mp hd j hj) hp).trans
        (nestingOfItems_le.mp (Nat.le_refl _) j hj)
    -- the element schema is that of null, that of every item, or a merge, and none of them is
    -- higher than all items
    rcases reconcile_eq_ok hrec with ⟨-, rfl, -⟩ | ⟨hne, hall, -⟩ | ⟨hne, hmerge, -⟩
    · exact Nat.zero_le _
    · obtain ⟨item, hitem⟩ := List.exists_mem_of_ne_nil _ hne
      exact hall item hitem ▸ hitems item hitem
    · refine hmerge.height_le (fun hnil => hne (List.map_eq_nil_iff.mp hnil)) fun s hs => ?_
      obtain ⟨item, hitem, rfl⟩ := List.mem_map.mp hs
      exact hitems item hitem
  | obj members ih =>
    obtain ⟨hasc, hparts⟩ := canonical_obj.mp hd
    -- every field has the schema of a member
    obtain ⟨slots, hslots, -, rfl, -⟩ := nest_obj hasc h
    rw [nesting, Schema.height_struct_le]
    intro f hf
    obtain ⟨slot, hslot, rfl⟩ := List.mem_map.mp hf
    obtain ⟨m, hm, -, p, hp⟩ := exists_of_forall₂ hslots hslot
    exact (ih m hm (hparts m hm) hp).trans (nestingOfMembers_le.mp (Nat.le_refl _) m hm)

/-! ### Without a schema -/

/-- What a document is read as under a limit, if its value is known: the value, or the failure of
the limit. The failure is the same wherever the limit is passed, so it does not say where. -/
def withinLimit {α : Type} (maxDepth depth nesting : Nat) (a : α) : Outcome α :=
  if nesting ≤ maxDepth - depth then .ok a else .error (.depthExceeded maxDepth)

/-- Two parts are within the limit if both are, and the first that is not decides the failure, which
is the same for both. -/
theorem withinLimit_bind {α β γ : Type} {n m : Nat} (a : α) (b : β) (f : α → β → γ) :
    (withinLimit maxDepth depth n a >>= fun a =>
      withinLimit maxDepth depth m b >>= fun b => pure (f a b)) =
      withinLimit maxDepth depth (max n m) (f a b) := by
  unfold withinLimit
  -- the first part is asked first, but both fail alike
  by_cases hn : n ≤ maxDepth - depth
  · by_cases hm : m ≤ maxDepth - depth
    · rw [if_pos hn, if_pos hm, if_pos (Nat.max_le.mpr ⟨hn, hm⟩)]
      rfl
    · rw [if_pos hn, if_neg hm, if_neg fun h => hm (Nat.max_le.mp h).2]
      rfl
  · rw [if_neg hn, if_neg fun h => hn (Nat.max_le.mp h).1]
    rfl

/-- A container is within the limit if what is in it is, one container deeper. -/
theorem withinLimit_succ {α β : Type} {n : Nat} (a : α) (f : α → β) :
    (if maxDepth ≤ depth then .error (.depthExceeded maxDepth)
      else f <$> withinLimit maxDepth (depth + 1) n a) =
      withinLimit maxDepth depth (n + 1) (f a) := by
  unfold withinLimit
  split
  · -- there is no room for the container itself
    rw [if_neg (by omega)]
  · by_cases hn : n ≤ maxDepth - (depth + 1)
    · rw [if_pos hn, if_pos (by omega)]
      rfl
    · rw [if_neg hn, if_neg (by omega)]
      rfl

/-- **Another limit, the same value.** A document that was read without a schema under one limit is
read to the same value under another, if it is within that, and else fails there for its depth. So
whatever was read to a value under some limit is known under all of them. -/
theorem schemaless_of_read {maxDepth' depth' : Nat} {d : Json} {v : Value}
    (h : d.schemaless maxDepth' depth' = .ok v) :
    d.schemaless maxDepth depth = withinLimit maxDepth depth d.nesting v := by
  induction d using Json.byParts generalizing depth depth' v with
  | null | bool | num | str => exact h.trans (if_pos (Nat.zero_le _)).symm
  | arr items ih =>
    obtain ⟨-, vs, rfl, hvs⟩ := schemaless_arr_iff.mp h
    -- item by item, all of them one container deeper
    have hitems : schemalessItems maxDepth (depth + 1) items =
        withinLimit maxDepth (depth + 1) (nestingOfItems items) vs := by
      clear h
      induction hvs with
      | nil => exact (if_pos (Nat.zero_le _)).symm
      | cons hv _ ih' =>
        rw [schemalessItems, ih _ List.mem_cons_self hv,
          ih' fun j hj => ih j (List.mem_cons_of_mem _ hj)]
        exact withinLimit_bind _ _ List.cons
    rw [schemaless, hitems]
    exact withinLimit_succ vs Value.array
  | obj members ih =>
    obtain ⟨-, entries, rfl, hentries⟩ := schemaless_obj_iff.mp h
    -- and member by member in the same way
    have hmembers : schemalessMembers maxDepth (depth + 1) members =
        withinLimit maxDepth (depth + 1) (nestingOfMembers members) entries := by
      clear h
      induction hentries with
      | nil => exact (if_pos (Nat.zero_le _)).symm
      | @cons m e _ _ he _ ih' =>
        obtain ⟨name, item⟩ := m
        obtain ⟨name', w⟩ := e
        obtain ⟨rfl, hw⟩ := he
        rw [schemalessMembers, ih _ List.mem_cons_self hw,
          ih' fun m hm => ih m (List.mem_cons_of_mem _ hm)]
        exact withinLimit_bind _ _ fun w rest => (name, w) :: rest
    rw [schemaless, hmembers]
    exact withinLimit_succ entries Value.map

end Json
end DocStream
