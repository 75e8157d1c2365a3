import DocStream.Proofs.Convert.Depth
import DocStream.Proofs.Convert.Flattening
import DocStream.Proofs.Convert.Numbers

/-!
# The leaves of a document, nested and flattened

Nesting and flattening a document treat its scalars alike and differ in where they put them: nesting
leaves a scalar at its place, in a schema and a value shaped like the document, and flattening emits
it under the name of its place. Here the places are the common ground. Wherever a document can be
nested, each scalar is found by its place in the schema and in the value, and what is found there is
what flattening emits. Flattening itself can fail for one reason only: two places have one name.

* `Json.leaves` — **the scalars of a document with their places**, in depth-first order, and
  `Json.mem_leaves_iff`;
* `Schema.at?` and `Value.at?` — what stands at a place of a schema and of a value;
* `Json.TypedAs.exists_at?` — **what a part of a document is typed as** stands at its place;
* `Json.flattenInto_eq_foldlM` — flattening emits the leaves one after the other;
* `ConversionSettings.flatten_leaves` — **nesting and flattening agree on every leaf**.

The proof has two halves that never meet but at the places. One follows a place through the typing
of a document and finds the schema and the value there. The other turns the recursion of flattening
into a loop over the leaves, after which emitting is inserting entries one after the other, and an
insertion fails only for a path that is taken.
-/

namespace DocStream

/-! ### Places -/

/-- The part of a path that a step is named by: the name of a member, or the index of an item in
decimal digits. -/
def Step.part : Step → String
  | member name => name
  | item index => toString index

/-- **What stands at a place of a schema**: at a member the schema of its field, and at every item
of an array the element schema. -/
def Schema.at? : List Step → Schema → Option Schema
  | [], s => some s
  | .member name :: rest, s => (s.field? name).bind (at? rest)
  | .item _ :: rest, s => s.element?.bind (at? rest)

/-- **What stands at a place of a value**: at a member the value of its field, and at an item that
item. -/
def Value.at? : List Step → Value → Option Value
  | [], v => some v
  | .member name :: rest, .record slots o => (Record.get? ⟨slots, o⟩ name).bind (at? rest)
  | .item index :: rest, .array items => items[index]?.bind (at? rest)
  | _ :: _, _ => none

/-- A name that a record has is looked up in the record and in its schema at the same slot. -/
theorem Record.exists_slot {slots : List Slot} {name : String} (h : name ∈ slots.map (·.1.1))
    (o o' : Bool) : ∃ slot ∈ slots, slot.1.1 = name ∧
      (Schema.struct (slots.map Prod.fst) o).field? name = some slot.1.2 ∧
      get? ⟨slots, o'⟩ name = some slot.2 := by
  induction slots with
  | nil => cases h
  | cons slot rest ih =>
    obtain ⟨⟨name', s⟩, v⟩ := slot
    simp only [Schema.field?, Schema.fields, Schema.fields?, Option.getD_some, get?] at ih ⊢
    rw [List.map_cons, List.lookup_cons, List.find?_cons]
    by_cases hname : name' = name
    · subst hname
      exact ⟨_, List.mem_cons_self, rfl, by simp, by simp⟩
    · obtain ⟨slot, hslot, hfound⟩ := ih (List.mem_of_ne_of_mem (Ne.symm hname) h)
      refine ⟨slot, List.mem_cons_of_mem _ hslot, ?_⟩
      rw [beq_false_of_ne hname, beq_false_of_ne (Ne.symm hname)]
      exact hfound

namespace Json

/-- **What a part of a document is typed as** stands at the part's place. By induction on the place,
one step into the document, the schema and the value at a time. -/
theorem TypedAs.exists_at? {inside : Bool} {d j : Json} {s : Schema} {v : Value}
    {place : List Step} (h : TypedAs inside d s v) (hd : d.Canonical) (hj : d.at? place = some j) :
    ∃ inside' t w, s.at? place = some t ∧ v.at? place = some w ∧ TypedAs inside' j t w := by
  -- step by step: a container's typing says what its parts are typed as, padded or rebuilt as they
  -- may have been
  induction place generalizing inside d s v with
  | nil =>
    obtain rfl := Option.some.inj hj
    exact ⟨inside, s, v, rfl, rfl, h⟩
  | cons step rest ih =>
    cases step with
    | member name =>
      cases h with
      | null | bool | num | str | arr => exact nomatch hj
      | @obj _ members slots o kept typed padded =>
        obtain ⟨hasc, hparts⟩ := canonical_obj.mp hd
        obtain ⟨d', hget, hj⟩ := Option.bind_eq_some_iff.mp hj
        have hm := (Members.get?_eq_some_iff_mem hasc).mp hget
        -- the slot of the member's name, in the schema as in the record
        obtain ⟨slot, hslot, hname, hfield, hvalue⟩ :=
          Record.exists_slot (kept name (List.mem_map_of_mem (f := Prod.fst) hm)) o o
        obtain ⟨inside', t, w, ht, hw, htyped⟩ := ih (typed _ hm slot hslot hname) (hparts _ hm) hj
        exact ⟨inside', t, w, Option.bind_eq_some_iff.mpr ⟨_, hfield, ht⟩,
          Option.bind_eq_some_iff.mpr ⟨_, hvalue, hw⟩, htyped⟩
    | item index =>
      cases h with
      | null | bool | num | str | obj => exact nomatch hj
      | @arr _ items values e o length typed =>
        -- an item keeps its index, and all items have one schema
        obtain ⟨d', hget, hj⟩ := Option.bind_eq_some_iff.mp hj
        obtain ⟨hlt, rfl⟩ := List.getElem?_eq_some_iff.mp hget
        have hlt' : index < values.length := length ▸ hlt
        obtain ⟨inside', t, w, ht, hw, htyped⟩ := ih (typed _ (getElem_mem_zip hlt hlt'))
          (canonical_arr.mp hd _ (List.getElem_mem hlt)) hj
        exact ⟨inside', t, w, ht,
          Option.bind_eq_some_iff.mpr ⟨_, List.getElem?_eq_getElem hlt', hw⟩, htyped⟩

/-! ### Scalars -/

/-- A scalar is nested to the same everywhere. -/
theorem nest_scalar {maxDepth depth : Nat} {path : Path} {d : Json} (hd : d.isContainer = false) :
    nest maxDepth depth path d = nest 0 0 [] d := by
  cases d with
  | arr | obj => cases hd
  | _ => rfl

/-- What a scalar is typed as is what it is nested to, since neither padding nor rebuilding changes
a scalar. -/
theorem TypedAs.nest_scalar {inside : Bool} {d : Json} {s : Schema} {v : Value}
    (h : TypedAs inside d s v) (hd : d.isContainer = false) : nest 0 0 [] d = .ok (s, v) := by
  cases h with
  | null | bool | str => rfl
  | num hv hs =>
    rw [nest, hv]
    exact typedLeaf_eq_ok.mpr ⟨hs, rfl⟩
  | arr | obj => cases hd

/-! ### Leaves -/

mutual

/-- **The scalars of a document with their places**, depth-first and in the order of members and
items. -/
def leaves : Json → List (List Step × Json)
  | arr items => leavesOfItems 0 items
  | obj members => leavesOfMembers members
  | d => [([], d)]

/-- The leaves of the items from the given index on. -/
def leavesOfItems (index : Nat) : List Json → List (List Step × Json)
  | [] => []
  | item :: rest =>
    item.leaves.map (fun leaf => (.item index :: leaf.1, leaf.2)) ++ leavesOfItems (index + 1) rest

/-- The leaves of the members, each under the name of its member. -/
def leavesOfMembers : List (String × Json) → List (List Step × Json)
  | [] => []
  | (name, item) :: rest =>
    item.leaves.map (fun leaf => (.member name :: leaf.1, leaf.2)) ++ leavesOfMembers rest

end

/-- A scalar is its own only leaf, at the place without a step. -/
theorem leaves_of_scalar {d : Json} (hd : d.isContainer = false) : d.leaves = [([], d)] := by
  cases d with
  | arr | obj => cases hd
  | _ => rfl

/-- A leaf of some items is one of the item that the first step of its place leads to. The index is
kept general, as it goes up from item to item. -/
theorem mem_leavesOfItems {items : List Json} {index : Nat} {place : List Step} {j : Json} :
    (place, j) ∈ leavesOfItems index items ↔ ∃ i rest item,
      place = .item (index + i) :: rest ∧ items[i]? = some item ∧ (rest, j) ∈ item.leaves := by
  induction items generalizing index with
  | nil => simp [leavesOfItems]
  | cons head tail ih =>
    rw [leavesOfItems, List.mem_append, ih]
    constructor
    · rintro (h | ⟨i, rest, item, rfl, hi, hrest⟩)
      · obtain ⟨⟨rest, j⟩, hrest, heq⟩ := List.mem_map.mp h
        obtain ⟨rfl, rfl⟩ := Prod.mk.inj heq
        exact ⟨0, rest, head, rfl, rfl, hrest⟩
      · exact ⟨i + 1, rest, item, by rw [Nat.add_right_comm, Nat.add_assoc], hi, hrest⟩
    · rintro ⟨i, rest, item, rfl, hi, hrest⟩
      cases i with
      | zero =>
        obtain rfl := Option.some.inj hi
        exact .inl (List.mem_map.mpr ⟨_, hrest, rfl⟩)
      | succ i => exact .inr ⟨i, rest, item, by rw [Nat.add_right_comm, Nat.add_assoc], hi, hrest⟩

/-- A leaf of some members is one of a member that the first step of its place is named by. -/
theorem mem_leavesOfMembers {members : Members} {place : List Step} {j : Json} :
    (place, j) ∈ leavesOfMembers members ↔
      ∃ m ∈ members, ∃ rest, place = .member m.1 :: rest ∧ (rest, j) ∈ m.2.leaves := by
  induction members with
  | nil => simp [leavesOfMembers]
  | cons m tail ih =>
    obtain ⟨name, item⟩ := m
    rw [leavesOfMembers, List.mem_append, ih, List.exists_mem_cons_iff]
    refine or_congr_left ⟨fun h => ?_, ?_⟩
    · obtain ⟨⟨rest, j⟩, hrest, heq⟩ := List.mem_map.mp h
      obtain ⟨rfl, rfl⟩ := Prod.mk.inj heq
      exact ⟨rest, rfl, hrest⟩
    · rintro ⟨rest, rfl, hrest⟩
      exact List.mem_map.mpr ⟨_, hrest, rfl⟩

/-- In a scalar there is one place, the one without a step. -/
theorem at?_scalar {d : Json} (hd : d.isContainer = false) {place : List Step} {j : Json} :
    d.at? place = some j ↔ place = [] ∧ j = d := by
  cases place with
  | nil => simp [at?, eq_comm]
  | cons step rest =>
    refine iff_of_false (fun hj => ?_) nofun
    cases d with
    | arr | obj => cases hd
    | _ => cases step <;> cases hj

theorem mem_leaves_scalar_iff {d : Json} (hd : d.isContainer = false) {place : List Step}
    {j : Json} : (place, j) ∈ d.leaves ↔ d.at? place = some j ∧ j.isContainer = false := by
  rw [leaves_of_scalar hd, List.mem_singleton, Prod.mk.injEq, at?_scalar hd]
  exact (and_iff_left_of_imp fun h => h.2 ▸ hd).symm

/-- **The leaves are the scalars at the places of the document.** By induction on the document, a
place being a step and a place in the part that the step leads to. -/
theorem mem_leaves_iff {d : Json} (hd : d.Canonical) {place : List Step} {j : Json} :
    (place, j) ∈ d.leaves ↔ d.at? place = some j ∧ j.isContainer = false := by
  induction d using Json.byParts generalizing place with
  | null | bool | num | str => exact mem_leaves_scalar_iff rfl
  | arr items ih =>
    have hparts := canonical_arr.mp hd
    rw [leaves, mem_leavesOfItems]
    constructor
    · rintro ⟨index, rest, item, rfl, hitem, hrest⟩
      have hmem := List.mem_of_getElem? hitem
      obtain ⟨hat, hj⟩ := (ih item hmem (hparts item hmem)).mp hrest
      rw [Nat.zero_add]
      exact ⟨Option.bind_eq_some_iff.mpr ⟨item, hitem, hat⟩, hj⟩
    · rintro ⟨hat, hj⟩
      -- a scalar is not the array itself, so its place has a first step, and that leads to an item
      match place with
      | [] => exact nomatch Option.some.inj hat ▸ hj
      | .member _ :: _ => exact nomatch hat
      | .item index :: rest =>
        obtain ⟨item, hitem, hat⟩ := Option.bind_eq_some_iff.mp hat
        have hmem := List.mem_of_getElem? hitem
        exact ⟨index, rest, item, by rw [Nat.zero_add], hitem,
          (ih item hmem (hparts item hmem)).mpr ⟨hat, hj⟩⟩
  | obj members ih =>
    obtain ⟨hasc, hparts⟩ := canonical_obj.mp hd
    rw [leaves, mem_leavesOfMembers]
    constructor
    · rintro ⟨m, hm, rest, rfl, hrest⟩
      obtain ⟨hat, hj⟩ := (ih m hm (hparts m hm)).mp hrest
      exact ⟨Option.bind_eq_some_iff.mpr
        ⟨m.2, (Members.get?_eq_some_iff_mem hasc).mpr hm, hat⟩, hj⟩
    · rintro ⟨hat, hj⟩
      -- and in an object the first step leads to a member
      match place with
      | [] => exact nomatch Option.some.inj hat ▸ hj
      | .item _ :: _ => exact nomatch hat
      | .member name :: rest =>
        obtain ⟨item, hget, hat⟩ := Option.bind_eq_some_iff.mp hat
        have hm := (Members.get?_eq_some_iff_mem hasc).mp hget
        exact ⟨_, hm, rest, rfl, (ih _ hm (hparts _ hm)).mpr ⟨hat, hj⟩⟩

/-! ### Flattening -/

/-- A leaf of a document at a path, emitted under its place. No depth is needed, since a scalar is
nested to the same everywhere. -/
def emitLeaf (path : Path) (into : FlatRecord) (leaf : List Step × Json) : Outcome FlatRecord :=
  nest 0 0 [] leaf.2 >>= emit (path ++ leaf.1.map Step.part) into

variable {maxDepth depth : Nat} {path : Path} {r : FlatRecord}

/-- Leaves below a step are emitted as leaves at the path that goes on with the step. So the path
can be handed to the part of a document that the step leads to. -/
theorem foldlM_emitLeaf_step (step : Step) (leaves : List (List Step × Json)) :
    (leaves.map fun leaf => (step :: leaf.1, leaf.2)).foldlM (emitLeaf path) r =
      leaves.foldlM (emitLeaf (path ++ [step.part])) r := by
  rw [List.foldlM_map]
  congr 1
  funext r leaf
  rw [emitLeaf, emitLeaf, List.map_cons, List.append_assoc]
  rfl

/-- Items are flattened by emitting their leaves, if each of them is. -/
theorem flattenItems_eq_foldlM {items : List Json}
    (hitems : ∀ j ∈ items, ∀ {path r}, flattenInto maxDepth depth path r j =
      j.leaves.foldlM (emitLeaf path) r) (index : Nat) :
    flattenItems maxDepth depth path index r items =
      (leavesOfItems index items).foldlM (emitLeaf path) r := by
  induction items generalizing index r with
  | nil => rfl
  | cons item rest ih =>
    rw [flattenItems, leavesOfItems, List.foldlM_append, foldlM_emitLeaf_step,
      hitems item List.mem_cons_self]
    exact bind_congr fun r => ih (fun j hj => hitems j (List.mem_cons_of_mem _ hj)) (index + 1)

/-- Members are flattened by emitting their leaves, if each of them is. -/
theorem flattenMembers_eq_foldlM {members : Members}
    (hmembers : ∀ m ∈ members, ∀ {path r}, flattenInto maxDepth depth path r m.2 =
      m.2.leaves.foldlM (emitLeaf path) r) :
    flattenMembers maxDepth depth path r members =
      (leavesOfMembers members).foldlM (emitLeaf path) r := by
  induction members generalizing r with
  | nil => rfl
  | cons m rest ih =>
    obtain ⟨name, item⟩ := m
    rw [flattenMembers, leavesOfMembers, List.foldlM_append, foldlM_emitLeaf_step,
      hmembers _ List.mem_cons_self]
    exact bind_congr fun r => ih fun m hm => hmembers m (List.mem_cons_of_mem _ hm)

theorem flattenInto_eq_foldlM_of_scalar {d : Json} (hd : d.isContainer = false) :
    flattenInto maxDepth depth path r d = d.leaves.foldlM (emitLeaf path) r := by
  rw [flattenInto_scalar hd, leaves_of_scalar hd, List.foldlM_cons, emitLeaf, List.map_nil,
    List.append_nil, nest_scalar hd]
  exact (bind_pure _).symm

/-- **Flattening emits the leaves one after the other**, if the document does not nest too deep. By
induction on the document: within the limit every container is entered, and what is left of the
recursion is the order of the leaves. -/
theorem flattenInto_eq_foldlM {d : Json} (hd : d.nesting ≤ maxDepth - depth) :
    flattenInto maxDepth depth path r d = d.leaves.foldlM (emitLeaf path) r := by
  induction d using Json.byParts generalizing depth path r with
  | null | bool | num | str => exact flattenInto_eq_foldlM_of_scalar rfl
  | arr items ih =>
    obtain ⟨hroom, hitems⟩ := nesting_arr_le.mp hd
    rw [flattenInto, if_neg (Nat.not_le.mpr hroom), leaves]
    exact flattenItems_eq_foldlM (fun j hj => ih j hj (hitems j hj)) 0
  | obj members ih =>
    obtain ⟨hroom, hmembers⟩ := nesting_obj_le.mp hd
    rw [flattenInto, if_neg (Nat.not_le.mpr hroom), leaves]
    exact flattenMembers_eq_foldlM fun m hm => ih m hm (hmembers m hm)

/-- Leaves whose entries are known are emitted by inserting these. -/
theorem foldlM_emitLeaf {leaves : List (List Step × Json)} {entries : List FlatEntry}
    (h : List.Forall₂ (fun leaf e => nest 0 0 [] leaf.2 = .ok (e.schema, e.value) ∧
      e.path = (path ++ leaf.1.map Step.part).dotted) leaves entries) :
    leaves.foldlM (emitLeaf path) r = entries.foldlM FlatRecord.insert? r := by
  induction h generalizing r with
  | nil => rfl
  | @cons leaf e _ _ he _ ih =>
    obtain ⟨hnest, hpath⟩ := he
    have hemit : emitLeaf path r leaf = r.insert? e := by
      rw [emitLeaf, hnest]
      exact congrArg r.insert? (by rw [← hpath])
    rw [List.foldlM_cons, List.foldlM_cons, hemit]
    exact bind_congr fun r => ih

end Json

/-! ### Entries -/

/-- **The first path that repeats**: it occurs among those before it, which are distinct. -/
def FirstRepeat (paths : List String) (path : String) : Prop :=
  ∃ before after, paths = before ++ path :: after ∧ before.Nodup ∧ path ∈ before

theorem FirstRepeat.not_nodup {paths : List String} {path : String} (h : FirstRepeat paths path) :
    ¬paths.Nodup := by
  obtain ⟨before, after, rfl, -, hmem⟩ := h
  intro hnodup
  exact (List.nodup_append.mp hnodup).2.2 path hmem path List.mem_cons_self rfl

namespace FlatRecord

/-- **Entries inserted one after the other** make up the record, unless the path of one is taken.
The failure names the first such path. -/
theorem foldlM_insert?_cases (entries : List FlatEntry) (r : FlatRecord) :
    (∃ r', entries.foldlM insert? r = .ok r' ∧ r'.entries = r.entries ++ entries) ∨
      ∃ path, FirstRepeat ((r.entries ++ entries).map FlatEntry.path) path ∧
        entries.foldlM insert? r = .error (.duplicatePath path) := by
  induction entries generalizing r with
  | nil => exact .inl ⟨r, rfl, (List.append_nil _).symm⟩
  | cons e rest ih =>
    rw [List.foldlM_cons]
    by_cases htaken : e.path ∈ r.paths
    · -- the path of the first entry is taken, and those before it are distinct
      refine .inr ⟨e.path, ⟨r.paths, rest.map FlatEntry.path, ?_, r.nodup, htaken⟩, ?_⟩
      · rw [List.map_append, List.map_cons, paths]
      · rw [insert?, dif_pos htaken]
        rfl
    · -- the entry is inserted, and the others come after it
      obtain ⟨next, hnext⟩ : ∃ next, r.insert? e = .ok next := ⟨_, dif_neg htaken⟩
      have hentries := entries_insert? hnext
      rw [hnext, List.append_cons, ← hentries]
      exact ih next

/-- Entries make up a record, or two of them have one path. -/
theorem foldlM_insert? (entries : List FlatEntry) (r : FlatRecord) :
    (∃ r', entries.foldlM insert? r = .ok r' ∧ r'.entries = r.entries ++ entries) ∨
      ∃ path, entries.foldlM insert? r = .error (.duplicatePath path) ∧
        ¬((r.entries ++ entries).map FlatEntry.path).Nodup := by
  apply (foldlM_insert?_cases entries r).imp_right
  rintro ⟨path, hfirst, herror⟩
  exact ⟨path, herror, hfirst.not_nodup⟩

end FlatRecord

/-- **The entry that a leaf is flattened to**, told by the schema and the value of the whole
document: it is named by the leaf's place, and holds what stands there. -/
structure FlatEntry.StandsFor (s : Schema) (v : Value) (leaf : List Step × Json) (e : FlatEntry) :
    Prop where
  path : e.path = Path.dotted (leaf.1.map Step.part)
  schema : s.at? leaf.1 = some e.schema
  value : v.at? leaf.1 = some e.value
  isLeaf : ∃ t, e.schema = .leaf t true

namespace ConversionSettings

variable {settings : ConversionSettings} {d : Json} {s : Schema} {v : Value}

theorem structured_of_convert (h : settings.convert d = .ok (.structured s v)) :
    settings.structured = true := by
  by_contra hbare
  rw [convert, if_neg hbare] at h
  obtain ⟨_, -, h⟩ := Outcome.map_eq_ok.mp h
  cases h

/-- The same settings, but flattening. -/
theorem convert_flatten (h : settings.structured = true) :
    ({ settings with flatten := true } : ConversionSettings).convert d =
      .flattened <$> d.flattenInto settings.maxDepth 0 [] .empty := by
  rw [convert, if_pos h]
  rfl

/-- **Nesting and flattening agree on every leaf.** A document that can be nested can be flattened
too, unless two of its leaves have one path. The entries are those of the leaves in depth-first
order, and the schema and the value of each are what the place of the leaf leads to in the schema
and the value of the nested document. -/
theorem flatten_leaves (hd : d.Canonical) (h : settings.convert d = .ok (.structured s v)) :
    ∃ entries : List FlatEntry, List.Forall₂ (FlatEntry.StandsFor s v) d.leaves entries ∧
      ({ settings with flatten := true } : ConversionSettings).convert d =
        .flattened <$> entries.foldlM FlatRecord.insert? .empty ∧
      ((∃ flat, ({ settings with flatten := true } : ConversionSettings).convert d =
          .ok (.flattened flat) ∧ flat.entries = entries) ∨
        ∃ path, ({ settings with flatten := true } : ConversionSettings).convert d =
          .error (.duplicatePath path) ∧ ¬(entries.map FlatEntry.path).Nodup) := by
  have hnest := convert_eq_structured h
  have htyped := Json.typedAs_of_nest false hd hnest
  -- every leaf has an entry, which holds what the leaf is nested to by itself
  have hentry : ∀ leaf ∈ d.leaves, ∃ e : FlatEntry, e.StandsFor s v leaf ∧
      Json.nest 0 0 [] leaf.2 = .ok (e.schema, e.value) := by
    rintro ⟨place, j⟩ hleaf
    obtain ⟨hat, hj⟩ := (Json.mem_leaves_iff hd).mp hleaf
    obtain ⟨inside, t, w, ht, hw, hown⟩ := htyped.exists_at? hd hat
    have hown := hown.nest_scalar hj
    exact ⟨⟨Path.dotted (place.map Step.part), t, w⟩,
      ⟨rfl, ht, hw, Json.eq_leaf_of_nest hj hown⟩, hown⟩
  obtain ⟨entries, hentries⟩ := forall₂_of_forall_exists hentry
  -- flattening is emitting these leaves, and emitting is inserting their entries
  have hflat : ({ settings with flatten := true } : ConversionSettings).convert d =
      .flattened <$> entries.foldlM FlatRecord.insert? .empty := by
    rw [convert_flatten (structured_of_convert h),
      Json.flattenInto_eq_foldlM (Json.nesting_le_of_nest hd hnest),
      Json.foldlM_emitLeaf (hentries.imp fun _ _ he => ⟨he.2, he.1.path⟩)]
  refine ⟨entries, hentries.imp fun _ _ he => he.1, hflat, ?_⟩
  rw [hflat]
  rcases FlatRecord.foldlM_insert? entries .empty with ⟨flat, hok, hflat⟩ | ⟨path, herr, hdup⟩
  · exact .inl ⟨flat, by rw [hok]; rfl, hflat⟩
  · exact .inr ⟨path, by rw [herr]; rfl, hdup⟩

/-- Two objects without a common member, each of which is padded with the field of the other. -/
theorem flatten_leaves_merged :
    let d := Json.obj [("m", .arr [.obj [("p", .num (.ofInt 300))], .obj [("q", .bool true)]])]
    let item := Schema.struct [("p", .leaf (.int .w16) true), ("q", .leaf .boolean true)] true
    let s := Schema.struct [("m", .array item true)] false
    ∃ v r, ({} : ConversionSettings).convert d = .ok (.structured s v) ∧
      ({ flatten := true } : ConversionSettings).convert d = .ok (.flattened r) ∧
      r.paths = ["m.0.p", "m.1.q"] ∧ List.Forall₂ (FlatEntry.StandsFor s v) d.leaves r.entries := by
  intro d item s
  have hd : d.Canonical := by decide +kernel
  have hs : (match ({} : ConversionSettings).convert d with
      | .ok (.structured s' _) => decide (s' = s)
      | _ => false) = true := by decide +kernel
  split at hs
  · next s' v h =>
    obtain rfl : s' = s := of_decide_eq_true hs
    obtain ⟨entries, hentries, -, hflat⟩ := flatten_leaves hd h
    have hpaths : entries.map FlatEntry.path = ["m.0.p", "m.1.q"] := by
      rw [← map_eq_map_of_forall₂ (hentries.imp fun _ _ he => he.path.symm)]
      decide +kernel
    rcases hflat with ⟨r, hr, rfl⟩ | ⟨path, -, hdup⟩
    · exact ⟨v, r, h, hr, hpaths, hentries⟩
    · exact absurd (hpaths ▸ by decide) hdup
  · exact nomatch hs

end ConversionSettings
end DocStream
