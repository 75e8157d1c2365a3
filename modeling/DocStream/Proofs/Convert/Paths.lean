import DocStream.Proofs.Convert.Leaves

/-!
# When a document can be flattened

Flattening names each scalar of a document by its place, with points between the parts. A name may
have points itself, may be empty or look like an index, so two places anywhere in the document may
have one path. Flattening then fails at the first scalar whose path an earlier one has. Otherwise
the leaves are the scalars of the document, in its order, and so are the fields of the record that
they become, in the order of the paths.

* `Json.Precedes` and `Json.pairwise_precedes_leaves` — **the order of the leaves**: members
  ascending, items by index, whatever is below a part before the next part;
* `FlatEntry.Holds` — the leaf that a scalar becomes;
* `ConversionSettings.flatten_iff_nodup` — **when a document can be flattened, and what it gives**.

Flattening inserts the entries of the leaves one after the other, so all that can go wrong is
decided by the list of their paths. The order of the leaves is said of places and not of paths: in
the order of paths an item ten comes before an item two.
-/

namespace DocStream

namespace Json

/-! ### The order of the leaves -/

/-- **A place comes before another** in a document: the first step at which they part leads to an
earlier member or item. -/
inductive Precedes : List Step → List Step → Prop where
  | member {name name' : String} {place place' : List Step} (h : name < name') :
      Precedes (.member name :: place) (.member name' :: place')
  | item {index index' : Nat} {place place' : List Step} (h : index < index') :
      Precedes (.item index :: place) (.item index' :: place')
  | within {step : Step} {place place' : List Step} (h : Precedes place place') :
      Precedes (step :: place) (step :: place')

/-- Leaves in order stay so below a step, since they part after it. -/
theorem pairwise_below (step : Step) {leaves : List (List Step × Json)}
    (h : leaves.Pairwise fun a b => Precedes a.1 b.1) :
    (leaves.map fun leaf => (step :: leaf.1, leaf.2)).Pairwise fun a b => Precedes a.1 b.1 :=
  List.pairwise_map.mpr (h.imp .within)

/-- The leaves of items are in order if those of each item are. By induction on the items, with the
index kept general. -/
theorem pairwise_leavesOfItems {items : List Json}
    (h : ∀ j ∈ items, j.leaves.Pairwise fun a b => Precedes a.1 b.1) (index : Nat) :
    (leavesOfItems index items).Pairwise fun a b => Precedes a.1 b.1 := by
  induction items generalizing index with
  | nil => exact .nil
  | cons item rest ih =>
    rw [leavesOfItems, List.pairwise_append]
    refine ⟨pairwise_below _ (h item List.mem_cons_self),
      ih (fun j hj => h j (List.mem_cons_of_mem item hj)) (index + 1), ?_⟩
    -- whatever is below this item comes before what is below a later one
    rintro a ha ⟨place, j⟩ hb
    obtain ⟨leaf, -, rfl⟩ := List.mem_map.mp ha
    obtain ⟨i, place, item, rfl, -, -⟩ := mem_leavesOfItems.mp hb
    exact .item (by omega)

/-- The leaves of members are in order if those of each member are, and the members are. -/
theorem pairwise_leavesOfMembers {members : Members} (hasc : StrictlyAscending members.names)
    (h : ∀ m ∈ members, m.2.leaves.Pairwise fun a b => Precedes a.1 b.1) :
    (leavesOfMembers members).Pairwise fun a b => Precedes a.1 b.1 := by
  induction members with
  | nil => exact .nil
  | cons m rest ih =>
    obtain ⟨name, item⟩ := m
    obtain ⟨hfirst, hrest⟩ := List.pairwise_cons.mp hasc
    rw [leavesOfMembers, List.pairwise_append]
    refine ⟨pairwise_below _ (h _ List.mem_cons_self),
      ih hrest fun m hm => h m (List.mem_cons_of_mem _ hm), ?_⟩
    -- a later member has a greater name
    rintro a ha ⟨place, j⟩ hb
    obtain ⟨leaf, -, rfl⟩ := List.mem_map.mp ha
    obtain ⟨m, hm, place, rfl, -⟩ := mem_leavesOfMembers.mp hb
    exact .member (hfirst m.1 (List.mem_map_of_mem hm))

/-- **The leaves of a canonical document are in order.** By induction on the document, the leaves of
each part standing together. -/
theorem pairwise_precedes_leaves {d : Json} (hd : d.Canonical) :
    d.leaves.Pairwise fun a b => Precedes a.1 b.1 := by
  induction d using Json.byParts with
  | null | bool | num | str => exact List.pairwise_singleton _ _
  | arr items ih =>
    have hitems := canonical_arr.mp hd
    rw [leaves]
    exact pairwise_leavesOfItems (fun j hj => ih j hj (hitems j hj)) 0
  | obj members ih =>
    obtain ⟨hasc, hmembers⟩ := canonical_obj.mp hd
    rw [leaves]
    exact pairwise_leavesOfMembers hasc fun m hm => ih m hm (hmembers m hm)

/-! ### What leaves become -/

/-- The path of a leaf: its place with points between the parts. Different places may have one path,
since names may have points. -/
def leafPath (leaf : List Step × Json) : String := Path.dotted (leaf.1.map Step.part)

/-- A narrowed number has a leaf schema, whatever rung it stands on. -/
theorem exists_ofLeaf_of_ofNumeral? {n : Numeral} {v : Value} (h : Value.ofNumeral? n = .ok v) :
    ∃ s, Schema.ofLeaf v = .ok s := by
  obtain ⟨d, -, hrung⟩ := Value.rung_of_ofNumeral? h
  cases hrung <;> exact ⟨_, rfl⟩

/-- A scalar is typed, if it is no number that cannot be narrowed. -/
theorem exists_typedAs {j : Json} (hj : j.isContainer = false)
    (hn : ∀ n, j = .num n → ∃ v, Value.ofNumeral? n = .ok v) : ∃ s v, TypedAs false j s v := by
  cases j with
  | null => exact ⟨_, _, .null⟩
  | bool b => exact ⟨_, _, .bool b⟩
  | num n =>
    obtain ⟨v, hv⟩ := hn n rfl
    obtain ⟨s, hs⟩ := exists_ofLeaf_of_ofNumeral? hv
    exact ⟨s, v, .num hv hs⟩
  | str t => exact ⟨_, _, .str t⟩
  | arr | obj => cases hj

end Json

/-- **The leaf that a scalar becomes**: named by its path, with its narrowed value and the schema of
that. -/
structure FlatEntry.Holds (leaf : List Step × Json) (e : FlatEntry) : Prop where
  path : e.path = Json.leafPath leaf
  typed : Json.TypedAs false leaf.2 e.schema e.value

namespace ConversionSettings

variable {settings : ConversionSettings} {d : Json}

/-- The leaves of a document become entries, if its numbers can be narrowed. Nothing is asked of
their paths yet. -/
theorem exists_entries (hd : d.Canonical)
    (hn : ∀ place n, d.at? place = some (.num n) → ∃ v, Value.ofNumeral? n = .ok v) :
    ∃ entries, List.Forall₂ FlatEntry.Holds d.leaves entries := by
  apply forall₂_of_forall_exists
  rintro ⟨place, j⟩ hleaf
  obtain ⟨hat, hj⟩ := (Json.mem_leaves_iff hd).mp hleaf
  obtain ⟨s, v, htyped⟩ := Json.exists_typedAs hj fun n hj => hn place n (hj ▸ hat)
  exact ⟨⟨Json.leafPath (place, j), s, v⟩, rfl, htyped⟩

/-- **Flattening inserts the entries of the leaves** one after the other, if the document does not
nest too deep. What is left of the conversion is a fold over a list. -/
theorem convert_eq_foldlM (hd : d.Canonical) (hstructured : settings.structured = true)
    (hflatten : settings.flatten = true) (hdepth : d.nesting ≤ settings.maxDepth)
    {entries : List FlatEntry} (h : List.Forall₂ FlatEntry.Holds d.leaves entries) :
    settings.convert d = .flattened <$> entries.foldlM FlatRecord.insert? .empty := by
  have hsettings : settings = { settings with flatten := true } := by
    rw [← hflatten]
  -- what a leaf is typed as is what it is nested to by itself
  have hentries : List.Forall₂ (fun leaf e => Json.nest 0 0 [] leaf.2 = .ok (e.schema, e.value) ∧
      e.path = Path.dotted ([] ++ leaf.1.map Step.part)) d.leaves entries := by
    apply forall₂_imp_of_mem h
    rintro ⟨place, j⟩ hleaf e - he
    obtain ⟨-, hj⟩ := (Json.mem_leaves_iff hd).mp hleaf
    exact ⟨he.typed.nest_scalar hj, he.path⟩
  rw [hsettings, convert_flatten hstructured, Json.flattenInto_eq_foldlM hdepth,
    Json.foldlM_emitLeaf hentries]

/-- **When a document can be flattened, and what it gives.** A document whose numbers can be
narrowed and that does not nest too deep can be flattened exactly if the paths of its leaves are
distinct; if not, the failure names the first path that an earlier leaf has. The entries are those
of the scalars of the document in their order, and the record of them is not optional and has one
field for each, in the order of the paths. -/
theorem flatten_iff_nodup (hd : d.Canonical) (hstructured : settings.structured = true)
    (hflatten : settings.flatten = true) (hdepth : d.nesting ≤ settings.maxDepth)
    (hn : ∀ place n, d.at? place = some (.num n) → ∃ v, Value.ofNumeral? n = .ok v) :
    (∀ place j, (place, j) ∈ d.leaves ↔ d.at? place = some j ∧ j.isContainer = false) ∧
    d.leaves.Pairwise (fun a b => Json.Precedes a.1 b.1) ∧
    ((∃ c, settings.convert d = .ok c) ↔ (d.leaves.map Json.leafPath).Nodup) ∧
    (∀ c, settings.convert d = .ok c → ∃ flat slots, c = .flattened flat ∧
      List.Forall₂ FlatEntry.Holds d.leaves flat.entries ∧
      c.toRecord = (some (.struct (slots.map Prod.fst) false), .record slots false) ∧
      StrictlyAscending (slots.map (·.1.1)) ∧
      ∀ slot, slot ∈ slots ↔ ∃ e ∈ flat.entries, ((e.path, e.schema), e.value) = slot) ∧
    ∀ e, settings.convert d = .error e → ∃ path,
      FirstRepeat (d.leaves.map Json.leafPath) path ∧ e = .duplicatePath path := by
  obtain ⟨entries, hentries⟩ := exists_entries hd hn
  have hconvert := convert_eq_foldlM hd hstructured hflatten hdepth hentries
  have hpaths : d.leaves.map Json.leafPath = entries.map FlatEntry.path :=
    map_eq_map_of_forall₂ (hentries.imp fun _ _ he => he.path.symm)
  refine ⟨fun _ _ => Json.mem_leaves_iff hd, Json.pairwise_precedes_leaves hd, ?_⟩
  rw [hpaths]
  -- from here on it is about the entries alone: all of them go in, or one of them repeats a path
  rcases FlatRecord.foldlM_insert?_cases entries .empty with
    ⟨flat, hok, hflat⟩ | ⟨path, hfirst, herror⟩
  · -- every path was free, and the entries of a record have distinct paths
    obtain rfl : flat.entries = entries := hflat
    have hok : settings.convert d = .ok (.flattened flat) := by
      rw [hconvert, hok]
      rfl
    rw [hok]
    refine ⟨iff_of_true ⟨_, rfl⟩ flat.nodup, ?_, fun e he => nomatch he⟩
    intro c hc
    obtain rfl := Except.ok.inj hc
    exact ⟨flat, flat.toRecord.slots, rfl, hentries, rfl, flat.ascending_toRecord,
      fun _ => FlatRecord.mem_slots_toRecord⟩
  · -- a path was taken, and the first such path is named
    have herror : settings.convert d = .error (.duplicatePath path) := by
      rw [hconvert, herror]
      rfl
    rw [herror]
    refine ⟨iff_of_false (fun ⟨_, hc⟩ => nomatch hc) hfirst.not_nodup, (fun c hc => nomatch hc), ?_⟩
    intro e he
    exact ⟨path, hfirst, (Except.error.inj he).symm⟩

/-- A name with a point, and an empty one. The names go well together with the items of the array,
until one of them is the path of an item. -/
theorem flatten_iff_nodup_points :
    let settings : ConversionSettings := { flatten := true, maxDepth := 3 }
    let d := Json.obj [("a", .arr [.null, .obj [("", .num (.ofInt 300))]]), ("a.2", .bool true)]
    let clash := Json.obj [("a", .arr [.null, .str ""]), ("a.1", .bool true)]
    d.Canonical ∧ clash.Canonical ∧ d.nesting ≤ 3 ∧ clash.nesting ≤ 3 ∧
      d.leaves.map Json.leafPath = ["a.0", "a.1.", "a.2"] ∧ (∃ c, settings.convert d = .ok c) ∧
      ∃ path, settings.convert clash = .error (.duplicatePath path) ∧
        FirstRepeat (clash.leaves.map Json.leafPath) path := by
  intro settings d clash
  have hd : d.Canonical := by decide +kernel
  have hclash : clash.Canonical := by decide +kernel
  have hn : ∀ place n, d.at? place = some (.num n) → ∃ v, Value.ofNumeral? n = .ok v := by
    intro place n hat
    have hleaf := (Json.mem_leaves_iff hd).mpr ⟨hat, rfl⟩
    obtain ⟨-, rfl⟩ : _ ∧ n = .ofInt 300 := by
      simpa [d, Json.leaves, Json.leavesOfMembers, Json.leavesOfItems] using hleaf
    have hread : ((Numeral.ofInt 300).toDecimal? >>= Decimal.bounded?) = some ⟨300, 0⟩ := by
      decide +kernel
    exact ⟨_, by rw [Value.ofNumeral?, hread]⟩
  have hn' : ∀ place n, clash.at? place = some (.num n) → ∃ v, Value.ofNumeral? n = .ok v := by
    intro place n hat
    have hleaf := (Json.mem_leaves_iff hclash).mpr ⟨hat, rfl⟩
    simp [clash, Json.leaves, Json.leavesOfMembers, Json.leavesOfItems] at hleaf
  have hpaths : d.leaves.map Json.leafPath = ["a.0", "a.1.", "a.2"] := by decide +kernel
  have hdup : ¬(clash.leaves.map Json.leafPath).Nodup := by decide +kernel
  have hstructured : settings.structured = true := rfl
  obtain ⟨-, -, hok, -, -⟩ := flatten_iff_nodup hd hstructured rfl (by decide) hn
  obtain ⟨-, -, hok', -, herror⟩ := flatten_iff_nodup hclash hstructured rfl (by decide) hn'
  refine ⟨hd, hclash, by decide, by decide, hpaths, hok.mpr (hpaths ▸ by decide), ?_⟩
  cases hconvert : settings.convert clash with
  | ok c => exact absurd (hok'.mp ⟨c, hconvert⟩) hdup
  | error e =>
    obtain ⟨path, hfirst, rfl⟩ := herror e hconvert
    exact ⟨path, rfl, hfirst⟩

end ConversionSettings
end DocStream
