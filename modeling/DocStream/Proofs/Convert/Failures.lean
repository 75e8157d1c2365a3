import DocStream.Proofs.Convert.Flattening
import DocStream.Proofs.Json.Nesting
import DocStream.Proofs.Schema.LeastMerge

/-!
# How converting a document fails

A document may nest too deep, mix schemas in an array, hold a number that is none, or repeat a path.
Each of these failures belongs to the document, so whoever converts many goes on with the others.
That it nests too deep is said of no document that does not.

* `Error.IsOfDocument` — **the failures of a document** that nests so deep under some limit;
* `Json.fails_nest`, `Json.fails_flattenInto`, `Json.fails_schemaless` — the three ways of
  converting fail with no others;
* `ConversionSettings.failsPerRecord_convert` — **a conversion fails for its document only**.

Two notions carry the proofs. A shallow failure is one that a scalar or a merge may give, and it is
a failure of any document around it. A failure of a document with some containers open may also be
that of its depth, and then it says the limit and is right about it. Each function is shown to fail
with one of the two and nothing else, by following its steps: `Outcome.Fails.bind` for one after the
other, induction for loops.
-/

namespace DocStream

open Outcome

namespace Error

/-- A failure that belongs to the document, whatever the limit. Those of scalars, of merging and of
repeated paths are of this kind. -/
structure IsShallow (e : Error) : Prop where
  perRecord : e.isPerRecord = true
  limit : ∀ k, e ≠ .depthExceeded k

/-- **The failures of a document** with some containers open around it: they belong to it, and its
depth is a failure only if it is greater than what the limit leaves. -/
structure IsOfDocument (maxDepth depth : Nat) (d : Json) (e : Error) : Prop where
  perRecord : e.isPerRecord = true
  limit : ∀ k, e = .depthExceeded k → k = maxDepth ∧ maxDepth - depth < d.nesting

variable {maxDepth depth : Nat} {d : Json} {e : Error}

/-- A shallow failure is one of every document, as it says nothing about depth. -/
theorem IsShallow.isOfDocument (h : e.IsShallow) : e.IsOfDocument maxDepth depth d :=
  ⟨h.perRecord, fun k hk => absurd hk (h.limit k)⟩

/-- A container that is not entered nests deeper than the limit leaves, so the failure of the limit
is right about it. -/
theorem isOfDocument_depthExceeded (hd : d.isContainer = true) (hfull : maxDepth ≤ depth) :
    (depthExceeded maxDepth).IsOfDocument maxDepth depth d := by
  refine ⟨rfl, fun k hk => ⟨(depthExceeded.inj hk).symm, ?_⟩⟩
  rw [Nat.sub_eq_zero_of_le hfull]
  cases d with
  | null | bool | num | str => cases hd
  | arr | obj => exact Nat.succ_pos _

/-- A failure of an item is one of its array, around which one container less is open. -/
theorem IsOfDocument.of_item {items : List Json} (h : e.IsOfDocument maxDepth (depth + 1) d)
    (hd : d ∈ items) : e.IsOfDocument maxDepth depth (.arr items) := by
  refine ⟨h.perRecord, fun k hk => ⟨(h.limit k hk).1, ?_⟩⟩
  by_contra hle
  exact absurd ((Json.nesting_arr_le.mp (Nat.le_of_not_lt hle)).2 d hd)
    (Nat.not_le_of_lt (h.limit k hk).2)

/-- A failure of a member is one of its object, for the same reason. -/
theorem IsOfDocument.of_member {members : Members} {name : String}
    (h : e.IsOfDocument maxDepth (depth + 1) d) (hd : (name, d) ∈ members) :
    e.IsOfDocument maxDepth depth (.obj members) := by
  refine ⟨h.perRecord, fun k hk => ⟨(h.limit k hk).1, ?_⟩⟩
  by_contra hle
  exact absurd ((Json.nesting_obj_le.mp (Nat.le_of_not_lt hle)).2 _ hd)
    (Nat.not_le_of_lt (h.limit k hk).2)

end Error

/-! ### Leaves -/

/-- A number that cannot be narrowed is a fault of the document. -/
theorem Value.fails_ofNumeral? (n : Numeral) : (Value.ofNumeral? n).Fails Error.IsShallow := by
  rw [Value.ofNumeral?]
  split
  · exact fails_ok _
  · exact fails_error ⟨rfl, fun _ => Error.noConfusion⟩

theorem Schema.fails_ofLeaf (v : Value) : (Schema.ofLeaf v).Fails Error.IsShallow := by
  cases v with
  | array | map | record => exact fails_error ⟨rfl, fun _ => Error.noConfusion⟩
  | _ => exact fails_ok _

/-- A leaf gets its schema, and any other value is to blame for having none. -/
theorem Json.fails_typedLeaf (v : Value) : (typedLeaf v).Fails Error.IsShallow := by
  rw [typedLeaf]
  exact (Schema.fails_ofLeaf v).bind fun _ _ => fails_ok _

/-- A number that narrows is a leaf. -/
theorem Json.fails_number (n : Numeral) : (Value.ofNumeral? n >>= typedLeaf).Fails Error.IsShallow :=
  (Value.fails_ofNumeral? n).bind fun v _ => fails_typedLeaf v

/-! ### Records brought together -/

/-- Merging structs fails only for a conflict, and that is the document's. That the schemas are
structs has been asked before. -/
theorem Schema.fails_merge {schemas : List Schema} (h : ∀ s ∈ schemas, s.isStruct = true)
    (location : String) : (Schema.merge schemas location).Fails Error.IsShallow := by
  intro e he
  obtain ⟨field, found, rfl⟩ := Schema.conflict_of_mergeUpTo h he
  exact ⟨rfl, fun _ => Error.noConfusion⟩

/-- A blank record fails only for a schema that is no struct. -/
theorem Record.fails_blank? (s : Schema) : (Record.blank? s).Fails Error.IsShallow := by
  cases s with
  | struct => exact fails_ok _
  | _ => exact fails_error ⟨rfl, fun _ => Error.noConfusion⟩

/-- Setting a field fails only where the record has none of that name. -/
theorem Record.fails_put? (r : Record) (name : String) (v : Value) :
    (r.put? name v).Fails Error.IsShallow := by
  rw [Record.put?]
  split
  · exact fails_ok _
  · exact fails_error ⟨rfl, fun _ => Error.noConfusion⟩

/-- **Rebuilding a value fails for the document only.** By induction on the value, since a record is
rebuilt slot by slot and each value in it may be a record again. -/
theorem Value.fails_conformTo (target : Schema) (v : Value) :
    (v.conformTo target).Fails Error.IsShallow := by
  induction v using Value.byParts generalizing target with
  | leaf v _ _ hrecord =>
    cases v with
    | null => exact fails_ok _
    | record slots o => exact absurd rfl (hrecord slots o)
    | _ => exact fails_error ⟨rfl, fun _ => Error.noConfusion⟩
  | array | map => exact fails_error ⟨rfl, fun _ => Error.noConfusion⟩
  | record slots o ih =>
    -- slot by slot, whatever record has been filled so far
    have hslots : ∀ into, (carryOver target into slots).Fails Error.IsShallow := by
      clear o
      intro into
      induction slots generalizing into with
      | nil => exact fails_ok _
      | cons slot rest ih' =>
        obtain ⟨⟨name, schema⟩, v⟩ := slot
        -- what is done after the value of this slot is known
        have hrest : ∀ v', (into.put? name v' >>= fun into => carryOver target into rest
            ).Fails Error.IsShallow := by
          intro v'
          refine (into.fails_put? name v').bind fun into' _ => ?_
          exact ih' (fun slot hslot => ih slot (List.mem_cons_of_mem _ hslot)) into'
        rw [carryOver]
        split
        · exact fails_error ⟨rfl, fun _ => Error.noConfusion⟩
        · next s _ =>
          split
          · exact (ih _ List.mem_cons_self s).bind fun v' _ => hrest v'
          · exact hrest v
    rw [conformTo]
    split
    · exact fails_ok _
    · refine (Record.fails_blank? target).bind fun blank _ => ?_
      exact (hslots blank).bind fun rebuilt _ => fails_ok _

namespace Json

variable {maxDepth depth : Nat} {path : Path} {P : Error → Prop}

/-! ### Nested -/

/-- Bringing the items of an array under one schema fails for the document only: by mixing schemas,
in merging, or in rebuilding an item. -/
theorem fails_reconcile (path : Path) (items : List (Schema × Value)) :
    (reconcile path items).Fails Error.IsShallow := by
  rw [reconcile]
  split
  · exact fails_ok _
  · exact fails_ok _
  · split
    · next hstructs =>
      have hmerge := Schema.fails_merge (List.all_eq_true.mp hstructs) path.dotted
      refine hmerge.bind fun merged _ => ?_
      exact (Fails.mapM fun v _ => v.fails_conformTo merged).bind fun _ _ => fails_ok _
    · exact fails_error ⟨rfl, fun _ => Error.noConfusion⟩

/-- The items of an array fail as one of them does. -/
theorem fails_nestItems {items : List Json}
    (h : ∀ j ∈ items, ∀ path, (nest maxDepth depth path j).Fails P) (index : Nat) :
    (nestItems maxDepth depth path index items).Fails P := by
  induction items generalizing index with
  | nil => exact fails_ok _
  | cons item rest ih =>
    rw [nestItems]
    refine (h item List.mem_cons_self _).bind fun _ _ => ?_
    exact (ih (fun j hj => h j (List.mem_cons_of_mem _ hj)) _).bind fun _ _ => fails_ok _

/-- The members of an object fail as one of them does. -/
theorem fails_nestMembers {members : Members}
    (h : ∀ m ∈ members, ∀ path, (nest maxDepth depth path m.2).Fails P) :
    (nestMembers maxDepth depth path members).Fails P := by
  induction members with
  | nil => exact fails_ok _
  | cons m rest ih =>
    obtain ⟨name, item⟩ := m
    rw [nestMembers]
    refine (h _ List.mem_cons_self _).bind fun _ _ => ?_
    exact (ih fun m hm => h m (List.mem_cons_of_mem _ hm)).bind fun _ _ => fails_ok _

/-- **How nesting fails**: for the document itself. By induction on the document; the failure of a
part is one of the whole, with one container less open around it. -/
theorem fails_nest (maxDepth depth : Nat) (path : Path) (d : Json) :
    (nest maxDepth depth path d).Fails (Error.IsOfDocument maxDepth depth d) := by
  induction d using Json.byParts generalizing depth path with
  | null => exact fails_ok _
  | bool b => exact (fails_typedLeaf _).imp fun _ => Error.IsShallow.isOfDocument
  | num n => exact (fails_number n).imp fun _ => Error.IsShallow.isOfDocument
  | str t => exact (fails_typedLeaf _).imp fun _ => Error.IsShallow.isOfDocument
  | arr items ih =>
    rw [nest]
    split
    · next hfull => exact fails_error (Error.isOfDocument_depthExceeded rfl hfull)
    · refine Fails.bind ?_ fun typed _ => ?_
      · -- the items first, and then what they are brought under
        exact fails_nestItems (fun j hj p => (ih j hj _ p).imp fun e he => he.of_item hj) 0
      · refine Fails.bind ?_ fun _ _ => fails_ok _
        exact (fails_reconcile path typed).imp fun _ => Error.IsShallow.isOfDocument
  | obj members ih =>
    rw [nest]
    split
    · next hfull => exact fails_error (Error.isOfDocument_depthExceeded rfl hfull)
    · refine Fails.bind ?_ fun _ _ => fails_ok _
      exact fails_nestMembers fun m hm p => (ih m hm _ p).imp fun e he => he.of_member hm

/-! ### Flattened -/

/-- A leaf fails to be emitted only if its path is taken. -/
theorem fails_emit (path : Path) (into : FlatRecord) (leaf : Schema × Value) :
    (emit path into leaf).Fails Error.IsShallow := by
  rw [emit, FlatRecord.insert?]
  split
  · exact fails_error ⟨rfl, fun _ => Error.noConfusion⟩
  · exact fails_ok _

/-- The items of an array fail to be flattened as one of them does, whatever was emitted before. -/
theorem fails_flattenItems {items : List Json}
    (h : ∀ j ∈ items, ∀ path into, (flattenInto maxDepth depth path into j).Fails P) (index : Nat)
    (into : FlatRecord) : (flattenItems maxDepth depth path index into items).Fails P := by
  induction items generalizing index into with
  | nil => exact fails_ok _
  | cons item rest ih =>
    rw [flattenItems]
    refine (h item List.mem_cons_self _ _).bind fun into' _ => ?_
    exact ih (fun j hj => h j (List.mem_cons_of_mem _ hj)) _ into'

/-- The members of an object fail to be flattened as one of them does, whatever was emitted before.
-/
theorem fails_flattenMembers {members : Members}
    (h : ∀ m ∈ members, ∀ path into, (flattenInto maxDepth depth path into m.2).Fails P)
    (into : FlatRecord) : (flattenMembers maxDepth depth path into members).Fails P := by
  induction members generalizing into with
  | nil => exact fails_ok _
  | cons m rest ih =>
    obtain ⟨name, item⟩ := m
    rw [flattenMembers]
    refine (h _ List.mem_cons_self _ _).bind fun into' _ => ?_
    exact ih (fun m hm => h m (List.mem_cons_of_mem _ hm)) into'

/-- **How flattening fails**: for the document itself, whatever was emitted before. -/
theorem fails_flattenInto (maxDepth depth : Nat) (path : Path) (into : FlatRecord) (d : Json) :
    (flattenInto maxDepth depth path into d).Fails (Error.IsOfDocument maxDepth depth d) := by
  -- a scalar is nested and emitted, and both fail shallowly
  have hscalar : ∀ {depth path into} {d : Json}, d.isContainer = false →
      (flattenInto maxDepth depth path into d).Fails (Error.IsOfDocument maxDepth depth d) := by
    intro depth path into d hd
    rw [flattenInto_scalar hd]
    refine (fails_nest maxDepth depth path d).bind fun leaf _ => ?_
    exact (fails_emit path into leaf).imp fun _ => Error.IsShallow.isOfDocument
  induction d using Json.byParts generalizing depth path into with
  | null | bool | num | str => exact hscalar rfl
  | arr items ih =>
    rw [flattenInto]
    split
    · next hfull => exact fails_error (Error.isOfDocument_depthExceeded rfl hfull)
    · exact fails_flattenItems
        (fun j hj p into => (ih j hj _ p into).imp fun e he => he.of_item hj) 0 into
  | obj members ih =>
    rw [flattenInto]
    split
    · next hfull => exact fails_error (Error.isOfDocument_depthExceeded rfl hfull)
    · exact fails_flattenMembers
        (fun m hm p into => (ih m hm _ p into).imp fun e he => he.of_member hm) into

/-! ### Without a schema -/

/-- Without a schema too, items fail as one of them does. -/
theorem fails_schemalessItems {items : List Json}
    (h : ∀ j ∈ items, (schemaless maxDepth depth j).Fails P) :
    (schemalessItems maxDepth depth items).Fails P := by
  induction items with
  | nil => exact fails_ok _
  | cons item rest ih =>
    rw [schemalessItems]
    refine (h item List.mem_cons_self).bind fun _ _ => ?_
    exact (ih fun j hj => h j (List.mem_cons_of_mem _ hj)).bind fun _ _ => fails_ok _

theorem fails_schemalessMembers {members : Members}
    (h : ∀ m ∈ members, (schemaless maxDepth depth m.2).Fails P) :
    (schemalessMembers maxDepth depth members).Fails P := by
  induction members with
  | nil => exact fails_ok _
  | cons m rest ih =>
    obtain ⟨name, item⟩ := m
    rw [schemalessMembers]
    refine (h _ List.mem_cons_self).bind fun _ _ => ?_
    exact (ih fun m hm => h m (List.mem_cons_of_mem _ hm)).bind fun _ _ => fails_ok _

/-- **How reading without a schema fails**: for the document itself. -/
theorem fails_schemaless (maxDepth depth : Nat) (d : Json) :
    (schemaless maxDepth depth d).Fails (Error.IsOfDocument maxDepth depth d) := by
  induction d using Json.byParts generalizing depth with
  | null | bool | str => exact fails_ok _
  | num n => exact (Value.fails_ofNumeral? n).imp fun _ => Error.IsShallow.isOfDocument
  | arr items ih =>
    rw [schemaless]
    split
    · next hfull => exact fails_error (Error.isOfDocument_depthExceeded rfl hfull)
    · refine Fails.map ?_ _
      exact fails_schemalessItems fun j hj => (ih j hj _).imp fun e he => he.of_item hj
  | obj members ih =>
    rw [schemaless]
    split
    · next hfull => exact fails_error (Error.isOfDocument_depthExceeded rfl hfull)
    · refine Fails.map ?_ _
      exact fails_schemalessMembers fun m hm => (ih m hm _).imp fun e he => he.of_member hm

end Json

namespace ConversionSettings

/-- **How a conversion fails**: for its document, whatever the settings. They choose one of the
three ways of converting, and each of them fails so. -/
theorem fails_convert (s : ConversionSettings) (d : Json) :
    (s.convert d).Fails (Error.IsOfDocument s.maxDepth 0 d) := by
  rw [convert]
  split
  · split
    · exact (d.fails_nest s.maxDepth 0 []).bind fun _ _ => fails_ok _
    · exact (d.fails_flattenInto s.maxDepth 0 [] .empty).map _
  · exact (d.fails_schemaless s.maxDepth 0).map _

/-- **A conversion fails for its document only**, so the documents after it can still be converted.
-/
theorem failsPerRecord_convert (s : ConversionSettings) (d : Json) :
    (s.convert d).FailsPerRecord :=
  (s.fails_convert d).imp fun _ => Error.IsOfDocument.perRecord

end ConversionSettings
end DocStream
