import DocStream.Proofs.Induction
import DocStream.Proofs.Schema.Merging

/-!
# Merges are least upper bounds

Covering orders the struct schemas whose field names are distinct. Merging finds the least of those
that cover all schemas given, or fails because there is none. The result is the same in whatever
order the schemas are given, however often, and whether they are merged at once or group by group.

* `Schema.Bounds` — a schema covers all schemas of a list;
* `Schema.IsMerge.least` — **every bound covers a merge**;
* `Schema.exists_mergeUpTo` — **merging succeeds where there is a bound**;
* `Schema.IsMerge.regroup` — **merging group by group** is merging all at once;
* `Schema.merge_isLeast` — all of it, for the merge of a list of schemas.

The last part is the one with an idea in it. A merge of merged groups has schemas below it that are
merges themselves, next to schemas that stand alone in their group, and on the way down to the
fields the two kinds mix. `Schema.StandsFor` allows for both, `Schema.Regroups` says that a list of
such schemas stands for all there are, and that is what one level of merging passes on to the next.
-/

namespace DocStream

namespace Schema

/-! ### Covering as an order -/

theorem covers_refl {s : Schema} (h : s.isStruct = true) : s.Covers s := by
  rw [eq_struct_of_isStruct h, covers_struct]
  exact ⟨rfl, id, fun f hf => ⟨f.2, hf, .inl rfl⟩⟩

/-- **Covering is transitive**, so with `Schema.covers_refl` it orders the struct schemas. A name
that keeps its schema at one step may be covered at the other. -/
theorem Covers.trans {t u s : Schema} (htu : t.Covers u) (hus : u.Covers s) : t.Covers s := by
  -- by induction on the schema that is covered, the other two following it
  induction s using Schema.byParts generalizing t u with
  | leaf type o => exact hus.elim
  | array e o => exact hus.elim
  | struct fields o ih =>
    obtain ⟨hu, ho, hfields⟩ := covers_struct.mp hus
    refine covers_struct.mpr ⟨htu.isStruct_left, fun h => htu.isOptional (ho h), fun f hf => ?_⟩
    obtain ⟨s', hs', hs'f⟩ := hfields f hf
    rw [eq_struct_of_isStruct hu] at htu
    obtain ⟨t', ht', ht's'⟩ := (covers_struct.mp htu).2.2 _ hs'
    refine ⟨t', ht', ?_⟩
    rcases hs'f with rfl | hs'f
    · exact ht's'
    · rcases ht's' with rfl | ht's'
      · exact .inr hs'f
      · exact .inr (ih f hf ht's' hs'f)

/-- **Field names are distinct** in every struct of a schema. Only then does a name stand for one
field, and covering for an order. -/
def DistinctNames (s : Schema) : Prop := s.Everywhere fun t => (t.fields.map Prod.fst).Nodup

namespace DistinctNames

variable {s : Schema}

theorem nodup (h : s.DistinctNames) : (s.fields.map Prod.fst).Nodup := (everywhere_iff.mp h).1

theorem of_mem_fields (h : s.DistinctNames) {f : Field} (hf : f ∈ s.fields) : f.2.DistinctNames :=
  Everywhere.of_mem_fields h hf

/-- A name has one schema. -/
theorem eq_of_mem (h : s.DistinctNames) {name : String} {u v : Schema} (hu : (name, u) ∈ s.fields)
    (hv : (name, v) ∈ s.fields) : u = v := by
  rw [← lookup_eq_some_iff_mem h.nodup] at hu hv
  exact Option.some.inj (hu.symm.trans hv)

theorem seenUnder {schemas : List Schema} (h : ∀ s ∈ schemas, s.DistinctNames) (name : String) :
    ∀ s ∈ Schema.seenUnder name schemas, s.DistinctNames := by
  intro s hs
  obtain ⟨t, ht, hf⟩ := mem_seenUnder.mp hs
  exact (h t ht).of_mem_fields hf

end DistinctNames

/-- **A merge has distinct names**, as its fields ascend at every level. -/
theorem IsMerge.distinctNames {schemas : List Schema} {m : Schema} (h : IsMerge schemas m)
    (hs : ∀ s ∈ schemas, s.DistinctNames) : m.DistinctNames := by
  by_cases hne : schemas = []
  · -- nothing gives the struct without fields
    obtain ⟨structs, ascending, kept, seen, -, -⟩ := h
    subst hne
    refine everywhere_struct.mpr ⟨ascending.nodup, fun f hf => ?_⟩
    exact absurd rfl (seen f hf)
  · refine h.inherit (fun s hs f hf => hs.of_mem_fields hf) ?_ hne hs
    exact fun s fields _ _ hasc hfields => everywhere_struct.mpr ⟨hasc.nodup, hfields⟩

/-! ### Bounds -/

/-- **A bound of schemas**: a struct schema with distinct field names that covers them all. -/
structure Bounds (t : Schema) (schemas : List Schema) : Prop where
  isStruct : t.isStruct = true
  distinct : t.DistinctNames
  covers : ∀ s ∈ schemas, t.Covers s

/-- **A merge is a bound** of the schemas it was made from. -/
theorem IsMerge.bounds {schemas : List Schema} {m : Schema} (h : IsMerge schemas m)
    (hs : ∀ s ∈ schemas, s.DistinctNames) : m.Bounds schemas where
  isStruct := by
    cases h
    rfl
  distinct := h.distinctNames hs
  covers := h.covers

namespace Bounds

variable {t : Schema} {schemas : List Schema}

/-- A bound of schemas is a bound of some of them. -/
theorem subset (h : t.Bounds schemas) {others : List Schema} (hsub : others ⊆ schemas) :
    t.Bounds others :=
  { h with covers := fun s hs => h.covers s (hsub hs) }

/-- What was seen under a name stands in the field of that name, or is covered by it. -/
theorem exists_of_seen (h : t.Bounds schemas) {name : String} {s : Schema}
    (hs : s ∈ seenUnder name schemas) : ∃ u, (name, u) ∈ t.fields ∧ (u = s ∨ u.Covers s) := by
  obtain ⟨s', hs', hf⟩ := mem_seenUnder.mp hs
  have hcovers := h.covers s' hs'
  rw [eq_struct_of_isStruct hcovers.isStruct_right] at hcovers
  exact (covers_struct.mp hcovers).2.2 _ hf

/-- **Where several schemas were seen under a name, the field of that name is a bound of them**: it
cannot be equal to all of them, so it covers one, and is a struct. -/
theorem field (h : t.Bounds schemas) {name : String} {u : Schema} (hu : (name, u) ∈ t.fields)
    (hseveral : ¬ ∃ s, ∀ s' ∈ seenUnder name schemas, s' = s) :
    u.Bounds (seenUnder name schemas) := by
  have hall : ∀ s ∈ seenUnder name schemas, u = s ∨ u.Covers s := by
    intro s hs
    obtain ⟨u', hu', hcovers⟩ := h.exists_of_seen hs
    exact h.distinct.eq_of_mem hu' hu ▸ hcovers
  have hstruct : u.isStruct = true := by
    by_contra hno
    refine hseveral ⟨u, fun s hs => ((hall s hs).resolve_right fun hc => ?_).symm⟩
    exact hno hc.isStruct_left
  refine ⟨hstruct, h.distinct.of_mem_fields hu, fun s hs => ?_⟩
  rcases hall s hs with rfl | hcovers
  · exact covers_refl hstruct
  · exact hcovers

end Bounds

/-- **A merge is least**: every bound of the schemas covers it. -/
theorem IsMerge.least {schemas : List Schema} {m : Schema} (h : IsMerge schemas m) {t : Schema}
    (ht : t.Bounds schemas) : t.Covers m := by
  induction h generalizing t with
  | @intro schemas fields structs ascending kept seen only merged ih =>
    refine covers_struct.mpr ⟨ht.isStruct, fun ho => ?_, fun f hf => ?_⟩
    · obtain ⟨s, hs, hso⟩ := List.any_eq_true.mp ho
      exact (ht.covers s hs).isOptional hso
    · obtain ⟨s, hs⟩ := List.exists_mem_of_ne_nil _ (seen f hf)
      obtain ⟨u, hu, hus⟩ := ht.exists_of_seen hs
      refine ⟨u, hu, ?_⟩
      -- one schema was seen under the name and is kept, or several, and then the field of the bound
      -- bounds them too
      by_cases hone : ∃ s, ∀ s' ∈ seenUnder f.1 schemas, s' = s
      · obtain ⟨only', hall⟩ := hone
        rw [only f hf only' hall, ← hall s hs]
        exact hus
      · exact .inr (ih f hf hone (ht.field hu hone))

/-! ### When merging succeeds -/

/-- The field that an entry gives: its only schema, or the merge of several structs. Anything else
is a conflict. -/
def settle (height : Nat) (location : String) (g : Gathered) : Outcome Field := do
  let schema ← match g.seen with
    | [only] => pure only
    | seen =>
      if seen.all isStruct then mergeUpTo height seen (locate location g.name)
      else .error (.conflictingField (locate location g.name) (describeAll seen))
  return (g.name, schema)

/-- One level of merging: what was gathered is settled entry by entry. -/
theorem mergeUpTo_of_structs {schemas : List Schema} (h : ∀ s ∈ schemas, s.isStruct = true)
    (height : Nat) (location : String) :
    mergeUpTo (height + 1) schemas location = (do
      let fields ← (gather schemas).mapM (settle height location)
      return ofFields fields (schemas.any isOptional)) := by
  have hfind : schemas.find? (fun s => !s.isStruct) = none :=
    List.find?_eq_none.mpr fun s hs => by rw [h s hs]; decide
  rw [mergeUpTo, hfind]
  rfl

theorem mergeUpTo_zero {schemas : List Schema} (h : ∀ s ∈ schemas, s.isStruct = true)
    (location : String) :
    mergeUpTo 0 schemas location = .ok (ofFields [] (schemas.any isOptional)) := by
  have hfind : schemas.find? (fun s => !s.isStruct) = none :=
    List.find?_eq_none.mpr fun s hs => by rw [h s hs]; decide
  rw [mergeUpTo, hfind]

/-- An entry of one schema gives it; an entry of several gives their merge if all are structs. -/
theorem settle_cases (height : Nat) (location : String) (g : Gathered) :
    (∃ s, g.seen = [s] ∧ settle height location g = .ok (g.name, s)) ∨
    ((∀ s, g.seen ≠ [s]) ∧ (∀ s ∈ g.seen, s.isStruct = true) ∧ settle height location g =
      (g.name, ·) <$> mergeUpTo height g.seen (locate location g.name)) ∨
    ((∀ s, g.seen ≠ [s]) ∧ (∃ s ∈ g.seen, s.isStruct = false) ∧ settle height location g =
      .error (.conflictingField (locate location g.name) (describeAll g.seen))) := by
  rw [settle]
  split
  · next only hseen => exact .inl ⟨only, hseen, rfl⟩
  · next hseveral =>
    split
    · next hall => exact .inr (.inl ⟨hseveral, List.all_eq_true.mp hall, rfl⟩)
    · next hsome =>
      refine .inr (.inr ⟨hseveral, ?_, rfl⟩)
      rw [Bool.not_eq_true, List.all_eq_false] at hsome
      simpa using hsome

/-- **Merging succeeds where there is a bound.** -/
theorem exists_mergeUpTo (height : Nat) {schemas : List Schema} (location : String) {t : Schema}
    (hs : ∀ s ∈ schemas, s.isStruct = true) (ht : t.Bounds schemas) :
    ∃ m, mergeUpTo height schemas location = .ok m := by
  induction height generalizing schemas location t with
  | zero => exact ⟨_, mergeUpTo_zero hs location⟩
  | succ height ih =>
    have hg := gathers_gather schemas
    have hentry : ∀ g ∈ gather schemas, ∃ f, settle height location g = .ok f := by
      intro g hmem
      -- an entry of several schemas has a bound, the field of its name
      have hbound : (∀ s, g.seen ≠ [s]) → ∃ u : Schema, u.Bounds g.seen := by
        intro hseveral
        obtain ⟨s, hsmem⟩ := List.exists_mem_of_ne_nil _ (hg.nonempty g hmem)
        obtain ⟨u, hu, -⟩ := ht.exists_of_seen ((mem_seenUnder_gather hmem).mpr hsmem)
        refine ⟨u, (ht.field hu fun ⟨only, hall⟩ => ?_).subset fun s hs =>
          (mem_seenUnder_gather hmem).mpr hs⟩
        exact not_all_eq_of_nodup (nodup_seen_gather schemas g hmem) (hg.nonempty g hmem) hseveral
          ⟨only, fun s hs => hall s ((mem_seenUnder_gather hmem).mpr hs)⟩
      rcases settle_cases height location g with
        ⟨s, -, hok⟩ | ⟨hseveral, hstructs, hok⟩ | ⟨hseveral, ⟨s, hsmem, hno⟩, -⟩
      · exact ⟨_, hok⟩
      · -- a bound of the entry bounds what is merged further down
        obtain ⟨u, hu⟩ := hbound hseveral
        obtain ⟨m, hm⟩ := ih (locate location g.name) hstructs hu
        exact ⟨(g.name, m), by rw [hok, hm]; rfl⟩
      · obtain ⟨u, hu⟩ := hbound hseveral
        exact absurd ((hu.covers s hsmem).isStruct_right.symm.trans hno) (by decide)
    obtain ⟨fields, hfields⟩ := forall₂_of_forall_exists hentry
    exact ⟨_, by rw [mergeUpTo_of_structs hs, Outcome.mapM_eq_ok.mpr hfields]; rfl⟩

/-- **Merging structs fails only for a conflict** between the schemas of a field. -/
theorem conflict_of_mergeUpTo {height : Nat} {schemas : List Schema} {location : String} {e : Error}
    (hs : ∀ s ∈ schemas, s.isStruct = true) (h : mergeUpTo height schemas location = .error e) :
    ∃ field found, e = .conflictingField field found := by
  -- by induction on the height: the failure is a conflict here or comes from further down
  induction height generalizing schemas location with
  | zero =>
    rw [mergeUpTo_zero hs] at h
    exact nomatch h
  | succ height ih =>
    rw [mergeUpTo_of_structs hs] at h
    rcases Outcome.bind_eq_error.mp h with h | ⟨fields, -, h⟩
    · obtain ⟨g, -, hg⟩ := Outcome.exists_of_mapM_eq_error h
      rcases settle_cases height location g with
        ⟨s, -, hok⟩ | ⟨-, hstructs, hmerge⟩ | ⟨-, -, herror⟩
      · exact nomatch hok.symm.trans hg
      · rw [hmerge, Outcome.map_eq_error] at hg
        exact ih hstructs hg
      · exact ⟨_, _, (Except.error.inj (herror.symm.trans hg)).symm⟩
    · exact nomatch h

/-! ### Merging group by group -/

/-- What a schema *stands for*: schemas that are all equal to it, or that it is a merge of. -/
def StandsFor (s : Schema) (schemas : List Schema) : Prop :=
  (schemas ≠ [] ∧ ∀ t ∈ schemas, t = s) ∨ IsMerge schemas s

/-- What a schema *settles*, as the field of a merge does: schemas that are all equal to it, or
several schemas that it is a merge of. -/
def Settles (s : Schema) (schemas : List Schema) : Prop :=
  (schemas ≠ [] ∧ ∀ t ∈ schemas, t = s) ∨
    (¬ ∃ only, ∀ t ∈ schemas, t = only) ∧ IsMerge schemas s

theorem Settles.standsFor {s : Schema} {schemas : List Schema} (h : s.Settles schemas) :
    s.StandsFor schemas :=
  h.imp_right And.right

theorem Settles.ne_nil {s : Schema} {schemas : List Schema} (h : s.Settles schemas) :
    schemas ≠ [] := by
  rcases h with ⟨hne, -⟩ | ⟨hseveral, -⟩
  · exact hne
  · rintro rfl
    exact hseveral ⟨s, fun t ht => absurd ht List.not_mem_nil⟩

/-- **A regrouping of schemas**: schemas each of which stands for some of them, and together for all
of them. The groups may overlap and come in any order. -/
structure Regroups (R : Schema → List Schema → Prop) (schemas tops : List Schema) : Prop where
  top : ∀ t ∈ tops, ∃ group ⊆ schemas, R t group
  part : ∀ s ∈ schemas, ∃ t ∈ tops, ∃ group ⊆ schemas, s ∈ group ∧ R t group

/-- A regrouping in one sense is one in a weaker sense. -/
theorem Regroups.imp {R R' : Schema → List Schema → Prop} (himp : ∀ t group, R t group → R' t group)
    {schemas tops : List Schema} (h : Regroups R schemas tops) : Regroups R' schemas tops where
  top t ht := by
    obtain ⟨group, hsub, hR⟩ := h.top t ht
    exact ⟨group, hsub, himp t group hR⟩
  part s hs := by
    obtain ⟨t, ht, group, hsub, hmem, hR⟩ := h.part s hs
    exact ⟨t, ht, group, hsub, hmem, himp t group hR⟩

/-- Schemas are a regrouping of themselves, in every order and however often they are given. -/
theorem regroups_of_mem_iff {schemas others : List Schema} (h : ∀ s, s ∈ others ↔ s ∈ schemas) :
    Regroups StandsFor schemas others :=
  have hself : ∀ s : Schema, s.StandsFor [s] := fun s =>
    .inl ⟨List.cons_ne_nil s [], fun _ ht => List.mem_singleton.mp ht⟩
  have hsub : ∀ s ∈ schemas, [s] ⊆ schemas := fun _ hs =>
    List.cons_subset.mpr ⟨hs, List.nil_subset schemas⟩
  ⟨fun t ht => ⟨[t], hsub t ((h t).mp ht), hself t⟩,
    fun s hs => ⟨s, (h s).mpr hs, [s], hsub s hs, List.mem_singleton_self s, hself s⟩⟩

/-- Some schema is regrouped exactly if some schema is there. -/
theorem Regroups.exists_iff {schemas tops : List Schema} (h : Regroups Settles schemas tops) :
    (∃ t, t ∈ tops) ↔ ∃ s, s ∈ schemas := by
  constructor
  · rintro ⟨t, ht⟩
    obtain ⟨group, hsub, hsettles⟩ := h.top t ht
    obtain ⟨s, hs⟩ := List.exists_mem_of_ne_nil _ hsettles.ne_nil
    exact ⟨s, hsub hs⟩
  · rintro ⟨s, hs⟩
    obtain ⟨t, ht, -⟩ := h.part s hs
    exact ⟨t, ht⟩

theorem seenUnder_subset {name : String} {group schemas : List Schema} (h : group ⊆ schemas) :
    seenUnder name group ⊆ seenUnder name schemas := by
  intro s hs
  obtain ⟨t, ht, hf⟩ := mem_seenUnder.mp hs
  exact mem_seenUnder.mpr ⟨t, h ht, hf⟩

namespace StandsFor

variable {t : Schema} {group : List Schema} (h : t.StandsFor group)
include h

theorem distinctNames (hd : ∀ s ∈ group, s.DistinctNames) : t.DistinctNames := by
  rcases h with ⟨hne, hall⟩ | hmerge
  · obtain ⟨s, hs⟩ := List.exists_mem_of_ne_nil _ hne
    exact hall s hs ▸ hd s hs
  · exact hmerge.distinctNames hd

/-- What stands for schemas may be null exactly if one of them may be. -/
theorem isOptional_iff : t.isOptional = true ↔ ∃ s ∈ group, s.isOptional = true := by
  rcases h with ⟨hne, hall⟩ | hmerge
  · obtain ⟨s, hs⟩ := List.exists_mem_of_ne_nil _ hne
    exact ⟨fun ho => ⟨s, hs, hall s hs ▸ ho⟩, fun ⟨s, hs, ho⟩ => hall s hs ▸ ho⟩
  · cases hmerge
    exact List.any_eq_true

/-- It has the names that were seen. -/
theorem mem_names {name : String} :
    name ∈ t.fields.map Prod.fst ↔ ∃ s, s ∈ seenUnder name group := by
  constructor
  · intro hname
    obtain ⟨⟨name, u⟩, hu, rfl⟩ := List.mem_map.mp hname
    -- hmerge | the schema is one of the group, or a merge of it
    rcases h with ⟨hne, hall⟩ | hmerge
    · obtain ⟨s, hs⟩ := List.exists_mem_of_ne_nil _ hne
      exact ⟨u, mem_seenUnder.mpr ⟨s, hs, hall s hs ▸ hu⟩⟩
    · obtain ⟨-, -, -, seen, -, -⟩ := hmerge
      exact List.exists_mem_of_ne_nil _ (seen _ hu)
  · rintro ⟨u, hu⟩
    obtain ⟨s, hs, hf⟩ := mem_seenUnder.mp hu
    rcases h with ⟨-, hall⟩ | hmerge
    · exact List.mem_map_of_mem (hall s hs ▸ hf)
    · obtain ⟨-, -, kept, -, -, -⟩ := hmerge
      exact kept s hs _ hf

/-- **Its fields settle what was seen under their names.** -/
theorem settles (hd : t.DistinctNames) {name : String} {u : Schema} (hu : (name, u) ∈ t.fields) :
    u.Settles (seenUnder name group) := by
  obtain ⟨s, hs⟩ := h.mem_names.mp (List.mem_map_of_mem hu)
  rcases h with ⟨-, hall⟩ | hmerge
  · refine .inl ⟨List.ne_nil_of_mem hs, fun u' hu' => ?_⟩
    obtain ⟨s', hs', hf⟩ := mem_seenUnder.mp hu'
    rw [hall s' hs'] at hf
    exact hd.eq_of_mem hf hu
  · obtain ⟨-, -, -, -, only, merged⟩ := hmerge
    by_cases hone : ∃ s, ∀ s' ∈ seenUnder name group, s' = s
    · obtain ⟨s', hall⟩ := hone
      rw [show u = s' from only _ hu s' hall]
      exact .inl ⟨List.ne_nil_of_mem hs, hall⟩
    · exact .inr ⟨hone, merged _ hu hone⟩

end StandsFor

/-- **What a regrouping has under a name** regroups what was seen under it. -/
theorem Regroups.seenUnder {schemas tops : List Schema} (h : Regroups StandsFor schemas tops)
    (hd : ∀ s ∈ schemas, s.DistinctNames) (name : String) :
    Regroups Settles (Schema.seenUnder name schemas) (Schema.seenUnder name tops) where
  top u hu := by
    obtain ⟨t, ht, hf⟩ := mem_seenUnder.mp hu
    obtain ⟨group, hsub, hstands⟩ := h.top t ht
    have htd := hstands.distinctNames fun s hs => hd s (hsub hs)
    exact ⟨_, seenUnder_subset hsub, hstands.settles htd hf⟩
  part s hs := by
    obtain ⟨s', hs', hf⟩ := mem_seenUnder.mp hs
    obtain ⟨t, ht, group, hsub, hmem, hstands⟩ := h.part s' hs'
    have hseen : s ∈ Schema.seenUnder name group := mem_seenUnder.mpr ⟨s', hmem, hf⟩
    -- the top that stands for the schema has a field of the name
    obtain ⟨⟨name, u⟩, hu, rfl⟩ := List.mem_map.mp (hstands.mem_names.mpr ⟨s, hseen⟩)
    have htd := hstands.distinctNames fun s hs => hd s (hsub hs)
    exact ⟨u, mem_seenUnder.mpr ⟨t, ht, hu⟩, _, seenUnder_subset hsub, hseen,
      hstands.settles htd hu⟩

/-- What is regrouped may be null exactly if something may be. -/
theorem Regroups.isOptional_iff {schemas tops : List Schema} (h : Regroups StandsFor schemas tops) :
    (∃ t ∈ tops, t.isOptional = true) ↔ ∃ s ∈ schemas, s.isOptional = true := by
  constructor
  · rintro ⟨t, ht, ho⟩
    obtain ⟨group, hsub, hstands⟩ := h.top t ht
    obtain ⟨s, hs, ho⟩ := hstands.isOptional_iff.mp ho
    exact ⟨s, hsub hs, ho⟩
  · rintro ⟨s, hs, ho⟩
    obtain ⟨t, ht, group, -, hmem, hstands⟩ := h.part s hs
    exact ⟨t, ht, hstands.isOptional_iff.mpr ⟨s, hmem, ho⟩⟩

/-- Schemas that are all the same are regrouped as they are. -/
theorem Regroups.all_eq {schemas tops : List Schema} (h : Regroups Settles schemas tops)
    {s : Schema} (hall : ∀ t ∈ schemas, t = s) : ∀ t ∈ tops, t = s := by
  intro t ht
  obtain ⟨group, hsub, ⟨hne, hsame⟩ | ⟨hseveral, -⟩⟩ := h.top t ht
  · obtain ⟨s', hs'⟩ := List.exists_mem_of_ne_nil _ hne
    rw [← hsame s' hs', hall s' (hsub hs')]
  · exact absurd ⟨s, fun s' hs' => hall s' (hsub hs')⟩ hseveral

/-- A struct in order is a merge of itself, however often it is given. -/
theorem isMerge_of_all_eq {s : Schema} {schemas : List Schema} (hstruct : s.isStruct = true)
    (hasc : StrictlyAscending (s.fields.map Prod.fst)) (hne : schemas ≠ [])
    (hall : ∀ t ∈ schemas, t = s) : IsMerge schemas s := by
  obtain ⟨t, ht⟩ := List.exists_mem_of_ne_nil _ hne
  have hs : s ∈ schemas := hall t ht ▸ ht
  have ho : schemas.any isOptional = s.isOptional := by
    rw [Bool.eq_iff_iff, List.any_eq_true]
    exact ⟨fun ⟨t, ht, ho⟩ => hall t ht ▸ ho, fun ho => ⟨s, hs, ho⟩⟩
  -- under each of its names nothing but its own schema is seen
  have hseen : ∀ f ∈ s.fields, ∀ u ∈ seenUnder f.1 schemas, u = f.2 := by
    intro f hf u hu
    obtain ⟨t, ht, htf⟩ := mem_seenUnder.mp hu
    rw [hall t ht, ← lookup_eq_some_iff_mem hasc.nodup] at htf
    exact Option.some.inj (htf.symm.trans ((lookup_eq_some_iff_mem hasc.nodup).mpr hf))
  have hmem : ∀ f ∈ s.fields, f.2 ∈ seenUnder f.1 schemas := fun f hf =>
    mem_seenUnder.mpr ⟨s, hs, hf⟩
  rw [eq_struct_of_isStruct hstruct, ← ho]
  refine .intro (fun t ht => hall t ht ▸ hstruct) hasc
    (fun t ht f hf => List.mem_map_of_mem (hall t ht ▸ hf))
    (fun f hf => List.ne_nil_of_mem (hmem f hf))
    (fun f hf u hu => hu f.2 (hmem f hf)) (fun f hf hseveral => ?_)
  exact absurd ⟨f.2, hseen f hf⟩ hseveral

/-- Where several schemas are regrouped as one, that one is a merge of some of them, and so of
itself. -/
theorem Regroups.isMerge_of_all_eq {schemas tops : List Schema} (h : Regroups Settles schemas tops)
    (hseveral : ¬ ∃ s, ∀ t ∈ schemas, t = s) {s : Schema} (hall : ∀ t ∈ tops, t = s) :
    IsMerge tops s := by
  obtain ⟨group, hgroup⟩ : ∃ group, IsMerge group s := by
    by_contra hno
    refine hseveral ⟨s, fun s' hs' => ?_⟩
    obtain ⟨t, ht, group, -, hmem, ⟨-, hsame⟩ | ⟨-, hmerge⟩⟩ := h.part s' hs'
    · rw [hsame s' hmem, hall t ht]
    · exact absurd ⟨group, hall t ht ▸ hmerge⟩ hno
  have hne : tops ≠ [] := by
    rintro rfl
    refine hseveral ⟨s, fun s' hs' => ?_⟩
    obtain ⟨t, ht, -⟩ := h.part s' hs'
    exact absurd ht List.not_mem_nil
  obtain ⟨-, ascending, -, -, -, -⟩ := hgroup
  exact Schema.isMerge_of_all_eq rfl ascending hne hall

/-- **Merging group by group** is merging all at once. -/
theorem IsMerge.regroup {schemas : List Schema} {m : Schema} (h : IsMerge schemas m)
    (hd : ∀ s ∈ schemas, s.DistinctNames) {tops : List Schema} {m' : Schema}
    (hr : Regroups StandsFor schemas tops) (h' : IsMerge tops m') : m' = m := by
  induction h generalizing tops m' with
  | @intro schemas fields structs ascending kept seen only merged ih =>
    have hm : (struct fields (schemas.any isOptional)).StandsFor schemas :=
      .inr (.intro structs ascending kept seen only merged)
    have hm' : m'.StandsFor tops := .inr h'
    obtain ⟨-, ascending', -, -, only', merged'⟩ := h'
    next fields' =>
    have ho : tops.any isOptional = schemas.any isOptional := by
      rw [Bool.eq_iff_iff, List.any_eq_true, List.any_eq_true]
      exact hr.isOptional_iff
    -- the names of both merges are those that were seen
    have hnames : ∀ name, name ∈ fields'.map Prod.fst ↔ name ∈ fields.map Prod.fst := fun name =>
      hm'.mem_names.trans ((hr.seenUnder hd name).exists_iff.trans hm.mem_names.symm)
    -- a name has the same schema in both merges
    have heq : ∀ name u u', (name, u) ∈ fields → (name, u') ∈ fields' → u' = u := by
      intro name u u' hu hu'
      have hunder := hr.seenUnder hd name
      by_cases hone : ∃ s, ∀ t ∈ seenUnder name schemas, t = s
      · obtain ⟨s, hall⟩ := hone
        rw [show u = s from only _ hu s hall]
        exact only' _ hu' s (hunder.all_eq hall)
      · have hdu := DistinctNames.seenUnder hd name
        refine ih _ hu hone hdu (hunder.imp fun _ _ => Settles.standsFor) ?_
        by_cases hone' : ∃ s, ∀ t ∈ seenUnder name tops, t = s
        · obtain ⟨s, hall⟩ := hone'
          rw [show u' = s from only' _ hu' s hall]
          exact hunder.isMerge_of_all_eq hone hall
        · exact merged' _ hu' hone'
    -- with the same names and the same schema under each, the fields are the same
    have hfind : ∀ {fs : List Field} {name}, name ∈ fs.map Prod.fst → ∃ u, (name, u) ∈ fs := by
      intro fs name hname
      obtain ⟨⟨name, u⟩, hu, rfl⟩ := List.mem_map.mp hname
      exact ⟨u, hu⟩
    rw [ho, eq_of_ascending ascending' ascending fun f => ⟨fun hf => ?_, fun hf => ?_⟩]
    · obtain ⟨u, hu⟩ := hfind ((hnames f.1).mp (List.mem_map_of_mem hf))
      exact (show f = (f.1, u) from Prod.ext rfl (heq f.1 u f.2 hu hf)) ▸ hu
    · obtain ⟨u', hu'⟩ := hfind ((hnames f.1).mpr (List.mem_map_of_mem hf))
      exact (show f = (f.1, u') from Prod.ext rfl (heq f.1 f.2 u' hf hu').symm) ▸ hu'

/-! ### Merging lists of schemas -/

/-- **Where there is a bound, merging gives a merge.** -/
theorem Bounds.exists_merge {t : Schema} {schemas : List Schema} (ht : t.Bounds schemas)
    (hs : ∀ s ∈ schemas, s.isStruct = true) (location : String) :
    ∃ m, merge schemas location = .ok m ∧ IsMerge schemas m := by
  obtain ⟨m, hm⟩ := exists_mergeUpTo (heightOf schemas) location hs ht
  exact ⟨m, hm, isMerge_of_merge hm⟩

/-- Groups that have been merged are a regrouping. -/
theorem regroups_of_mapM {groups : List (List Schema)} {location : String} {tops : List Schema}
    (h : (groups.mapM fun group => merge group location) = .ok tops) {schemas : List Schema}
    (hflat : ∀ s, s ∈ groups.flatten ↔ s ∈ schemas) :
    Regroups (fun t group => IsMerge group t) schemas tops := by
  have htops := Outcome.mapM_eq_ok.mp h
  have hsub : ∀ group ∈ groups, group ⊆ schemas := fun group hgroup s hs =>
    (hflat s).mp (List.mem_flatten.mpr ⟨group, hgroup, hs⟩)
  constructor
  · intro t ht
    obtain ⟨group, hgroup, hmerge⟩ := exists_of_forall₂ htops ht
    exact ⟨group, hsub group hgroup, isMerge_of_merge hmerge⟩
  · intro s hs
    obtain ⟨group, hgroup, hmem⟩ := List.mem_flatten.mp ((hflat s).mpr hs)
    obtain ⟨t, ht, hmerge⟩ := exists_of_forall₂ htops.flip hgroup
    exact ⟨t, ht, group, hsub group hgroup, hmem, isMerge_of_merge hmerge⟩

/-- A bound of merged groups is a bound of all schemas. -/
theorem Bounds.of_regroups {t : Schema} {schemas tops : List Schema} (ht : t.Bounds tops)
    (hr : Regroups (fun t group => IsMerge group t) schemas tops) : t.Bounds schemas :=
  { ht with
    covers := fun s hs => by
      obtain ⟨top, htop, group, -, hmem, hmerge⟩ := hr.part s hs
      exact (ht.covers top htop).trans (hmerge.covers s hmem) }

/-- A bound of all schemas is a bound of the merged groups. -/
theorem Bounds.to_regroups {t : Schema} {schemas tops : List Schema} (ht : t.Bounds schemas)
    (hr : Regroups (fun t group => IsMerge group t) schemas tops) : t.Bounds tops :=
  { ht with
    covers := fun top htop => by
      obtain ⟨group, hsub, hmerge⟩ := hr.top top htop
      exact hmerge.least (ht.subset hsub) }

section Lists

variable {schemas : List Schema} (hs : ∀ s ∈ schemas, s.isStruct = true ∧ s.DistinctNames)
include hs

/-- Where there is a bound, a regrouping merges to what the schemas merge to, whatever the locations
that errors would name. -/
theorem merge_eq_of_regroups {tops : List Schema} {location location' : String} {m t : Schema}
    (hr : Regroups StandsFor schemas tops) (ht : t.Bounds schemas)
    (hm : merge tops location' = .ok m) : merge schemas location = .ok m := by
  obtain ⟨m', hm', hmerge⟩ := ht.exists_merge (fun s h => (hs s h).1) location
  rw [hm', hmerge.regroup (fun s h => (hs s h).2) hr (isMerge_of_merge hm)]

/-- **Order and repetition do not matter.** -/
theorem merge_congr {others : List Schema} {location location' : String}
    (hmem : ∀ s, s ∈ others ↔ s ∈ schemas) {m : Schema} (hm : merge others location' = .ok m) :
    merge schemas location = .ok m := by
  have hbounds : m.Bounds others :=
    (isMerge_of_merge hm).bounds fun s h => (hs s ((hmem s).mp h)).2
  exact merge_eq_of_regroups hs (regroups_of_mem_iff hmem)
    (hbounds.subset fun s h => (hmem s).mpr h) hm

/-- Merged groups merge to what all schemas merge to. -/
theorem merge_of_groups {groups : List (List Schema)} {location location' : String}
    (hflat : ∀ s, s ∈ groups.flatten ↔ s ∈ schemas) {tops : List Schema}
    (htops : (groups.mapM fun group => merge group location') = .ok tops) {m : Schema}
    (hm : merge tops location' = .ok m) : merge schemas location = .ok m := by
  have hr := regroups_of_mapM htops hflat
  have hdistinct : ∀ t ∈ tops, t.DistinctNames := by
    intro t ht
    obtain ⟨group, hsub, hmerge⟩ := hr.top t ht
    exact hmerge.distinctNames fun s h => (hs s (hsub h)).2
  exact merge_eq_of_regroups hs (hr.imp fun _ _ => .inr)
    (((isMerge_of_merge hm).bounds hdistinct).of_regroups hr) hm

/-- **Grouping does not matter.** -/
theorem merge_groups_iff {groups : List (List Schema)} {location location' : String}
    (hflat : ∀ s, s ∈ groups.flatten ↔ s ∈ schemas) {m : Schema} :
    ((groups.mapM fun group => merge group location') >>=
        fun tops => merge tops location') = .ok m ↔
      merge schemas location = .ok m := by
  constructor
  · intro h
    obtain ⟨tops, htops, hm⟩ := Outcome.bind_eq_ok.mp h
    exact merge_of_groups hs hflat htops hm
  · intro hm
    have hbounds := (isMerge_of_merge hm).bounds fun s h => (hs s h).2
    have hsub : ∀ group ∈ groups, group ⊆ schemas := fun group hgroup s h =>
      (hflat s).mp (List.mem_flatten.mpr ⟨group, hgroup, h⟩)
    -- what bounds all schemas bounds every group, so that every group merges, and so do the merges
    obtain ⟨tops, htops⟩ := forall₂_of_forall_exists fun group hgroup =>
      ((hbounds.subset (hsub group hgroup)).exists_merge
        (fun s h => (hs s (hsub group hgroup h)).1) location').imp fun _ h => h.1
    have htops := Outcome.mapM_eq_ok.mpr htops
    have hr := regroups_of_mapM htops hflat
    have hstructs : ∀ t ∈ tops, t.isStruct = true := by
      intro t ht
      obtain ⟨group, -, ⟨⟩⟩ := hr.top t ht
      rfl
    obtain ⟨m', hm', -⟩ := (hbounds.to_regroups hr).exists_merge hstructs location'
    have heq : merge schemas location = .ok m' := merge_of_groups hs hflat htops hm'
    rw [htops, show m = m' from Except.ok.inj (hm.symm.trans heq)]
    exact hm'

end Lists

/-- **The merge of struct schemas is their least upper bound**, if their field names are distinct.
Where some schema bounds them all, they merge to a bound that every bound covers; where none does,
merging fails for a conflict. What they merge to depends neither on their order nor on how often
they are given, nor on whether they are merged group by group. -/
theorem merge_isLeast (schemas : List Schema) (location : String)
    (hs : ∀ s ∈ schemas, s.isStruct = true ∧ s.DistinctNames) :
    ((∃ t : Schema, t.Bounds schemas) → ∃ m, merge schemas location = .ok m ∧
      m.Bounds schemas ∧ ∀ t : Schema, t.Bounds schemas → t.Covers m) ∧
    ((¬ ∃ t : Schema, t.Bounds schemas) → ∃ field found,
      merge schemas location = .error (.conflictingField field found)) ∧
    (∀ others location', (∀ s, s ∈ others ↔ s ∈ schemas) → ∀ m,
      merge others location' = .ok m ↔ merge schemas location = .ok m) ∧
    ∀ groups location', (∀ s, s ∈ List.flatten groups ↔ s ∈ schemas) → ∀ m,
      ((groups.mapM fun group => merge group location') >>= fun tops => merge tops location') =
        .ok m ↔ merge schemas location = .ok m := by
  have hd : ∀ s ∈ schemas, s.DistinctNames := fun s h => (hs s h).2
  refine ⟨fun ⟨t, ht⟩ => ?_, fun hno => ?_, fun others location' hmem m => ?_,
    fun groups location' hflat m => merge_groups_iff hs hflat⟩
  · obtain ⟨m, hm, hmerge⟩ := ht.exists_merge (fun s h => (hs s h).1) location
    exact ⟨m, hm, hmerge.bounds hd, fun _ => hmerge.least⟩
  · cases hm : merge schemas location with
    | ok m => exact absurd ⟨m, (isMerge_of_merge hm).bounds hd⟩ hno
    | error e =>
      -- it fails for a conflict, as all schemas are structs
      obtain ⟨field, found, rfl⟩ := conflict_of_mergeUpTo (fun s h => (hs s h).1) hm
      exact ⟨field, found, rfl⟩
  · refine ⟨merge_congr hs hmem, merge_congr (fun s h => hs s ((hmem s).mp h)) fun s => ?_⟩
    exact (hmem s).symm

/-- Two records that share a nested record merge to the record of all fields, whichever comes first
and wherever it is, and every bound covers that. A record with a text for the nested record has no
bound in common with them. -/
theorem merge_isLeast_nested :
    let left := struct
      [("a", leaf (.int .w8) true), ("b", struct [("x", leaf .string true)] true)] false
    let right := struct [("b", struct [("y", leaf .boolean true)] true)] true
    let whole := struct [("a", leaf (.int .w8) true),
      ("b", struct [("x", leaf .string true), ("y", leaf .boolean true)] true)] true
    let text := struct [("b", leaf .string true)] false
    (∀ s ∈ [left, right], s.isStruct = true ∧ s.DistinctNames) ∧
    (∀ s ∈ [left, text], s.isStruct = true ∧ s.DistinctNames) ∧
    merge [left, right] "" = .ok whole ∧ merge [right, left, right] "items" = .ok whole ∧
    (∀ t : Schema, t.Bounds [left, right] → t.Covers whole) ∧
    merge [left, text] "" = .error (.conflictingField "b" "struct\x7bx\x7d, string") ∧
    ¬ ∃ t : Schema, t.Bounds [left, text] := by
  intro left right whole text
  have hpair : ∀ s ∈ [left, right], s.isStruct = true ∧ s.DistinctNames := by
    simp [left, right, DistinctNames, Everywhere, EverywhereFields, fields, fields?]
  have hclash : ∀ s ∈ [left, text], s.isStruct = true ∧ s.DistinctNames := by
    simp [left, text, DistinctNames, Everywhere, EverywhereFields, fields, fields?]
  have hok : merge [left, right] "" = .ok whole := rfl
  have herror : merge [left, text] "" =
    .error (.conflictingField "b" "struct\x7bx\x7d, string") := rfl
  obtain ⟨-, -, hothers, -⟩ := merge_isLeast [left, right] "" hpair
  refine ⟨hpair, hclash, hok, (hothers _ "items" (fun s => ?_) whole).mpr hok, fun t ht => ?_,
    herror, fun hbound => ?_⟩
  · simp only [List.mem_cons, List.not_mem_nil, or_false]
    tauto
  · obtain ⟨m, hm, -, hleast⟩ := (merge_isLeast [left, right] "" hpair).1 ⟨t, ht⟩
    exact Except.ok.inj (hm.symm.trans hok) ▸ hleast t ht
  · obtain ⟨m, hm, -⟩ := (merge_isLeast [left, text] "" hclash).1 hbound
    cases hm.symm.trans herror

end Schema
end DocStream
