import DocStream.Convert.Basic
import DocStream.Proofs.Induction
import DocStream.Proofs.Json.Canonical
import DocStream.Proofs.Schema.Merging

/-!
# What nesting a document gives

The parts of a nested document, said once: what `Json.nest` gives for a container in terms of what
it gives for the parts of the container. The path is left open, since only failures look at it.

* `Json.nest_arr` and `Json.nest_obj` — a container that could be nested;
* `Json.reconcile_eq_ok` — **the element schema of an array** is one that all items have, or a merge
  of their schemas under which the items are rebuilt;
* `Json.nest_induction` — **induction on the schema of a document**;
* `Json.wellFormed_of_nest`, `Json.optional_of_nest`, `Json.isOptional_of_nest` — the schema has
  ascending names, and is optional below its root and, unless the document is a container, there.

The equations of nesting are loops in the monad of outcomes. The lemmas of this module turn them
round: from a container that was nested to what its parts were nested to. After them no proof looks
into `Json.nest` again, except for failures.
-/

namespace DocStream

theorem Schema.mem_distinct {schemas : List Schema} {s : Schema} :
    s ∈ Schema.distinct schemas ↔ s ∈ schemas := by
  -- the fold goes on from what has been seen, so that is kept general
  have key : ∀ (todo seen : List Schema),
      s ∈ todo.foldl (fun seen s => if s ∈ seen then seen else seen ++ [s]) seen ↔
        s ∈ seen ∨ s ∈ todo := by
    intro todo
    induction todo with
    | nil => intro seen; simp
    | cons t rest ih =>
      intro seen
      rw [List.foldl_cons, ih, List.mem_cons]
      split
      · next hmem =>
        constructor
        · exact fun h => h.imp_right .inr
        · rintro (h | rfl | h)
          · exact .inl h
          · exact .inl hmem
          · exact .inr h
      · rw [List.mem_append, List.mem_singleton, or_assoc]
  rw [Schema.distinct, key]
  exact or_iff_right List.not_mem_nil

namespace Json

/-- A value that was typed as a leaf is unchanged, and has the schema of its kind of leaf. -/
theorem typedLeaf_eq_ok {v w : Value} {s : Schema} :
    typedLeaf v = .ok (s, w) ↔ Schema.ofLeaf v = .ok s ∧ v = w := by
  rw [typedLeaf, Outcome.bind_eq_ok]
  constructor
  · rintro ⟨s', hs, h⟩
    injection h with h
    injection h with h₁ h₂
    exact ⟨h₁ ▸ hs, h₂⟩
  · rintro ⟨hs, rfl⟩
    exact ⟨s, hs, rfl⟩

/-- **The element schema of an array.** Without items it is the one for null; otherwise either every
item has it, and the values stay as they are, or it is a merge of the items' schemas, and every
value is rebuilt under it. -/
theorem reconcile_eq_ok {path : Path} {items : List (Schema × Value)} {e : Schema}
    {values : List Value} (h : reconcile path items = .ok (e, values)) :
    (items = [] ∧ e = Schema.ofNull ∧ values = []) ∨
    (items ≠ [] ∧ (∀ item ∈ items, item.1 = e) ∧ values = items.map Prod.snd) ∨
    (items ≠ [] ∧ Schema.IsMerge (items.map Prod.fst) e ∧
      List.Forall₂ (fun item w => Value.conformTo e item.2 = .ok w) items values) := by
  have hmem : ∀ s, s ∈ items.map Prod.fst ↔ s ∈ Schema.distinct (items.map Prod.fst) :=
    fun s => Schema.mem_distinct.symm
  by_cases hnil : items = []
  · subst hnil
    injection h with h
    injection h with h₁ h₂
    exact .inl ⟨rfl, h₁.symm, h₂.symm⟩
  · rw [reconcile] at h
    split at h
    · next hd =>
      -- there is an item, hence a schema
      obtain ⟨item, hitem⟩ := List.exists_mem_of_ne_nil _ hnil
      have := (hmem item.1).mp (List.mem_map_of_mem hitem)
      rw [hd] at this
      exact absurd this List.not_mem_nil
    · next only hd =>
      -- one schema
      injection h with h
      injection h with h₁ h₂
      refine .inr (.inl ⟨hnil, fun item hitem => ?_, h₂.symm⟩)
      have := (hmem item.1).mp (List.mem_map_of_mem hitem)
      rw [hd] at this
      exact (List.mem_singleton.mp this).trans h₁
    · -- several schemas, which can be merged if they are all structs
      split at h
      · obtain ⟨m, hm, h⟩ := Outcome.bind_eq_ok.mp h
        obtain ⟨ws, hws, h⟩ := Outcome.bind_eq_ok.mp h
        injection h with h
        injection h with h₁ h₂
        subst h₁ h₂
        refine .inr (.inr ⟨hnil, (Schema.isMerge_of_merge hm).congr hmem, ?_⟩)
        exact List.forall₂_map_left_iff.mp (Outcome.mapM_eq_ok.mp hws)
      · exact nomatch h

/-- Items are nested one by one, each at a path of its own. -/
theorem nestItems_eq_ok {maxDepth depth index : Nat} {path : Path} {items : List Json}
    {typed : List (Schema × Value)}
    (h : nestItems maxDepth depth path index items = .ok typed) :
    List.Forall₂ (fun j sv => ∃ p, nest maxDepth depth p j = .ok sv) items typed := by
  induction items generalizing index typed with
  | nil =>
    injection h with h
    rw [← h]
    exact .nil
  | cons item rest ih =>
    rw [nestItems] at h
    obtain ⟨head, hhead, h⟩ := Outcome.bind_eq_ok.mp h
    obtain ⟨tail, htail, h⟩ := Outcome.bind_eq_ok.mp h
    injection h with h
    rw [← h]
    exact .cons ⟨_, hhead⟩ (ih htail)

/-- Members are nested one by one, under their names, which the slots take over. -/
theorem nestMembers_eq_ok {maxDepth depth : Nat} {path : Path} {members : Members}
    {slots : List Slot} (h : nestMembers maxDepth depth path members = .ok slots) :
    List.Forall₂ (fun m slot => slot.1.1 = m.1 ∧
      ∃ p, nest maxDepth depth p m.2 = .ok (slot.1.2, slot.2)) members slots := by
  induction members generalizing slots with
  | nil =>
    injection h with h
    rw [← h]
    exact .nil
  | cons m rest ih =>
    obtain ⟨name, item⟩ := m
    rw [nestMembers] at h
    obtain ⟨⟨s, v⟩, hhead, h⟩ := Outcome.bind_eq_ok.mp h
    obtain ⟨tail, htail, h⟩ := Outcome.bind_eq_ok.mp h
    injection h with h
    rw [← h]
    exact .cons ⟨rfl, _, hhead⟩ (ih htail)

/-- **An array that could be nested**: its items could, and have been given one element schema. -/
theorem nest_arr {maxDepth depth : Nat} {path : Path} {items : List Json} {s : Schema} {v : Value}
    (h : nest maxDepth depth path (.arr items) = .ok (s, v)) :
    ∃ typed e values,
      List.Forall₂ (fun j sv => ∃ p, nest maxDepth (depth + 1) p j = .ok sv) items typed ∧
      reconcile path typed = .ok (e, values) ∧ s = .array e (depth ≠ 0) ∧ v = .array values := by
  rw [nest] at h
  split at h
  · exact nomatch h
  · obtain ⟨typed, htyped, h⟩ := Outcome.bind_eq_ok.mp h
    obtain ⟨⟨e, values⟩, hrec, h⟩ := Outcome.bind_eq_ok.mp h
    injection h with h
    injection h with h₁ h₂
    exact ⟨typed, e, values, nestItems_eq_ok htyped, hrec, h₁.symm, h₂.symm⟩

/-- **An object that could be nested**: its members could, and their slots make up the record. The
members of a canonical document are in the order of their names, so the slots stay in the order of
the members. -/
theorem nest_obj {maxDepth depth : Nat} {path : Path} {members : Members} {s : Schema} {v : Value}
    (hm : StrictlyAscending members.names)
    (h : nest maxDepth depth path (.obj members) = .ok (s, v)) :
    ∃ slots : List Slot,
      List.Forall₂ (fun m slot => slot.1.1 = m.1 ∧
        ∃ p, nest maxDepth (depth + 1) p m.2 = .ok (slot.1.2, slot.2)) members slots ∧
      slots.map (·.1.1) = members.names ∧
      s = .struct (slots.map Prod.fst) (depth ≠ 0) ∧ v = .record slots (depth ≠ 0) := by
  rw [nest] at h
  split at h
  · exact nomatch h
  · obtain ⟨slots, hslots, h⟩ := Outcome.bind_eq_ok.mp h
    injection h with h
    injection h with h₁ h₂
    have hall := nestMembers_eq_ok hslots
    have hnames : members.names = slots.map (·.1.1) :=
      map_eq_map_of_forall₂ (hall.imp fun m slot hms => hms.1.symm)
    -- the members are in order already, so sorting leaves the slots as they are
    have hsort : NameOrder.sort (·.1.1) slots = slots :=
      NameOrder.sort_of_ascending (hnames ▸ hm)
    refine ⟨slots, hall, hnames.symm, ?_, ?_⟩
    · rw [← h₁, Record.ofSlots, hsort]
      rfl
    · rw [← h₂, Record.ofSlots, hsort]
      rfl

/-! ### Schemas of documents -/

/-- Whether a document is an array or an object. These are what a depth counts. -/
def isContainer : Json → Bool
  | arr _ | obj _ => true
  | _ => false

/-- A container is entered below the limit only, which is the only thing that nesting asks of
depths. -/
theorem lt_of_nest {path : Path} {d : Json} {sv : Schema × Value} (hd : d.isContainer = true)
    (h : nest maxDepth depth path d = .ok sv) : depth < maxDepth := by
  cases d with
  | null | bool | num | str => cases hd
  | arr items =>
    rw [nest] at h
    split at h
    · cases h
    · next hroom => exact Nat.lt_of_not_le hroom
  | obj members =>
    rw [nest] at h
    split at h
    · cases h
    · next hroom => exact Nat.lt_of_not_le hroom

/-- The schema of a leaf is a leaf that may be null. -/
theorem eq_leaf_of_ofLeaf {v : Value} {s : Schema} (h : Schema.ofLeaf v = .ok s) :
    ∃ t, s = .leaf t true := by
  cases v <;> first | (injection h with h; exact ⟨_, h.symm⟩) | exact nomatch h

/-- A scalar has the schema of its value, which is a leaf. -/
theorem ofLeaf_of_nest {maxDepth depth : Nat} {path : Path} {d : Json} {s : Schema} {v : Value}
    (hd : d.isContainer = false) (h : nest maxDepth depth path d = .ok (s, v)) :
    Schema.ofLeaf v = .ok s := by
  cases d with
  | null =>
    injection h with h
    injection h with hs hv
    rw [← hs, ← hv]
    rfl
  | bool b =>
    obtain ⟨hs, rfl⟩ := typedLeaf_eq_ok.mp h
    exact hs
  | str t =>
    obtain ⟨hs, rfl⟩ := typedLeaf_eq_ok.mp h
    exact hs
  | num n =>
    rw [nest] at h
    obtain ⟨w, -, h⟩ := Outcome.bind_eq_ok.mp h
    obtain ⟨hs, rfl⟩ := typedLeaf_eq_ok.mp h
    exact hs
  | arr items => exact nomatch hd
  | obj members => exact nomatch hd

/-- A scalar is nested to a leaf that may be null, at any depth. -/
theorem eq_leaf_of_nest {maxDepth depth : Nat} {path : Path} {d : Json} {s : Schema} {v : Value}
    (hd : d.isContainer = false) (h : nest maxDepth depth path d = .ok (s, v)) :
    ∃ t, s = .leaf t true :=
  eq_leaf_of_ofLeaf (ofLeaf_of_nest hd h)

/-- **Induction on the schema of a document.** A property of schemas that may depend on the depth at
which a document stands holds of the document's schema if it holds of those of scalars, arrays and
structs pass it on from the depth below, and merging keeps it there. -/
theorem nest_induction {maxDepth : Nat} {Q : Nat → Schema → Prop}
    (scalar : ∀ {depth path d s v}, d.isContainer = false →
      nest maxDepth depth path d = .ok (s, v) → Q depth s)
    (array : ∀ {depth e}, Q (depth + 1) e → Q depth (.array e (depth ≠ 0)))
    (struct : ∀ {depth fields}, StrictlyAscending (fields.map Prod.fst) →
      (∀ f ∈ fields, Q (depth + 1) f.2) → Q depth (.struct fields (depth ≠ 0)))
    (merge : ∀ {depth schemas m}, schemas ≠ [] → Schema.IsMerge schemas m →
      (∀ s ∈ schemas, Q (depth + 1) s) → Q (depth + 1) m)
    {depth : Nat} {path : Path} {d : Json} {s : Schema} {v : Value} (hd : d.Canonical)
    (h : nest maxDepth depth path d = .ok (s, v)) : Q depth s := by
  induction d using Json.byParts generalizing depth path s v with
  | null | bool | num | str => exact scalar rfl h
  | arr items ih =>
    obtain ⟨typed, e, values, htyped, hrec, rfl, rfl⟩ := nest_arr h
    have hitems : ∀ item ∈ typed, Q (depth + 1) item.1 := by
      intro item hitem
      obtain ⟨j, hj, p, hp⟩ := exists_of_forall₂ htyped hitem
      exact ih j hj (canonical_arr.mp hd j hj) hp
    apply array
    rcases reconcile_eq_ok hrec with ⟨-, rfl, -⟩ | ⟨hne, hall, -⟩ | ⟨hne, hm, -⟩
    · -- no items: the element schema is that of null
      exact @scalar _ [] .null _ .null rfl rfl
    · -- all items have the element schema
      obtain ⟨item, hitem⟩ := List.exists_mem_of_ne_nil _ hne
      exact hall item hitem ▸ hitems item hitem
    · -- the element schema is a merge of theirs
      refine merge (fun hnil => hne (List.map_eq_nil_iff.mp hnil)) hm fun s hs => ?_
      obtain ⟨item, hitem, rfl⟩ := List.mem_map.mp hs
      exact hitems item hitem
  | obj members ih =>
    obtain ⟨hasc, hmembers⟩ := canonical_obj.mp hd
    obtain ⟨slots, hslots, hnames, rfl, rfl⟩ := nest_obj hasc h
    refine struct (by rw [List.map_map]; exact hnames ▸ hasc) fun f hf => ?_
    obtain ⟨slot, hslot, rfl⟩ := List.mem_map.mp hf
    obtain ⟨m, hm, -, p, hp⟩ := exists_of_forall₂ hslots hslot
    exact ih m hm (hmembers m hm) hp

variable {maxDepth depth : Nat} {path : Path} {d : Json} {s : Schema} {v : Value}

/-- **The schema of a document is well-formed**: the names of fields ascend everywhere. -/
theorem wellFormed_of_nest (hd : d.Canonical) (h : nest maxDepth depth path d = .ok (s, v)) :
    s.WellFormed := by
  -- a scalar has no names, the members of an object are in order, and a merge sorts its fields
  refine nest_induction (Q := fun _ s => s.WellFormed) ?_ (fun he => he) ?_ ?_ hd h
  · intro depth path d s v hd h
    obtain ⟨t, rfl⟩ := eq_leaf_of_nest hd h
    trivial
  · intro depth fields hasc hfields
    exact Schema.wellFormed_struct.mpr ⟨hasc, hfields⟩
  · intro depth schemas m hne hm hs
    exact hm.wellFormed hne hs

/-- The root of a document's schema is optional, unless the document is a container that stands by
itself. -/
theorem isOptional_of_nest (hd : d.Canonical) (h : nest maxDepth depth path d = .ok (s, v)) :
    s.isOptional = true ↔ depth ≠ 0 ∨ d.isContainer = false := by
  cases d with
  | null | bool | num | str =>
    obtain ⟨t, rfl⟩ := eq_leaf_of_nest rfl h
    exact iff_of_true rfl (.inr rfl)
  | arr items =>
    obtain ⟨typed, e, values, -, -, rfl, -⟩ := nest_arr h
    simp [Schema.isOptional, isContainer]
  | obj members =>
    obtain ⟨slots, -, -, rfl, -⟩ := nest_obj (canonical_obj.mp hd).1 h
    simp [Schema.isOptional, isContainer]

/-- **The schema of a document is optional everywhere below its root.** -/
theorem optional_of_nest (hd : d.Canonical) (h : nest maxDepth depth path d = .ok (s, v)) :
    s.Below (·.isOptional = true) := by
  -- above the root every part is optional, itself included
  have key := nest_induction (Q := fun depth s => s.Below (·.isOptional = true) ∧
    (depth ≠ 0 → s.isOptional = true)) ?_ ?_ ?_ ?_ hd h
  · exact key.1
  · -- a scalar is optional wherever it stands, and so is what stands in a container
    intro depth path d s v hd h
    obtain ⟨t, rfl⟩ := eq_leaf_of_nest hd h
    exact ⟨trivial, fun _ => rfl⟩
  · intro depth e he
    exact ⟨Schema.everywhere_iff.mpr ⟨he.2 (Nat.succ_ne_zero depth), he.1⟩, decide_eq_true⟩
  · intro depth fields _ hfields
    refine ⟨fun f hf => ?_, decide_eq_true⟩
    exact Schema.everywhere_iff.mpr ⟨(hfields f hf).2 (Nat.succ_ne_zero depth), (hfields f hf).1⟩
  · -- what holds everywhere in the schemas of the items holds everywhere in their merge
    intro depth schemas m hne hm hs
    have hall := hm.everywhere (P := (·.isOptional = true)) (fun _ _ _ ho => ho) hne fun s hmem =>
      Schema.everywhere_iff.mpr ⟨(hs s hmem).2 (Nat.succ_ne_zero depth), (hs s hmem).1⟩
    obtain ⟨hroot, hbelow⟩ := Schema.everywhere_iff.mp hall
    exact ⟨hbelow, fun _ => hroot⟩

end Json
end DocStream
