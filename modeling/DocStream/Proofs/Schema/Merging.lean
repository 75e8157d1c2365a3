import DocStream.Merge
import DocStream.Proofs.Outcome
import DocStream.Proofs.Schema.Shape

/-!
# What merging schemas gives

The merge of struct schemas is described by a relation, `Schema.IsMerge`, that does not speak of the
order in which fields are gathered or of how often a schema is given. A merge *covers* the schemas
it was made from: it has all their fields, each with the same schema or with a struct schema that
covers it again.

* `Schema.Gathers` — what has been gathered from a list of fields, and `Schema.gathers_gather`;
* `Schema.isMerge_of_merge` — **the result of merging is a merge**;
* `Schema.IsMerge.covers` — **a merge covers every schema it was made from**;
* `Schema.IsMerge.inherit` — what it inherits from them.

Gathering puts the fields of all schemas into one list of entries, ordered by name, and keeps the
schemas of a name without repeating any. So whether a name was seen with one schema or with several
is read off the entry, and the relation says it of the schemas themselves.
-/

namespace DocStream.Schema

/-! ### Gathering fields -/

/-- **What has been gathered from fields**: every name once, in ascending order, with the schemas it
was seen with. -/
structure Gathers (fields : List Field) (gathered : List Gathered) : Prop where
  /-- The names ascend. -/
  ascending : StrictlyAscending (gathered.map Gathered.name)
  /-- Every name is there. -/
  names : ∀ f ∈ fields, f.1 ∈ gathered.map Gathered.name
  /-- A name comes with exactly the schemas it was seen with. -/
  seen : ∀ g ∈ gathered, ∀ s, s ∈ g.seen ↔ (g.name, s) ∈ fields
  /-- A name was seen at least once. -/
  nonempty : ∀ g ∈ gathered, g.seen ≠ []

theorem mem_names_gatherField {f : Field} {gathered : List Gathered} {name : String} :
    name ∈ (gatherField f gathered).map Gathered.name ↔
      name = f.1 ∨ name ∈ gathered.map Gathered.name := by
  induction gathered with
  | nil => simp [gatherField]
  | cons g rest ih =>
    rw [gatherField]
    split
    · next h => simp [h]
    · split
      · simp
      · -- the field goes further down
        rw [List.map_cons, List.mem_cons, ih, List.map_cons, List.mem_cons]
        tauto

/-- **Adding a field keeps the entries in order** of their names. -/
theorem ascending_gatherField {f : Field} {gathered : List Gathered}
    (h : StrictlyAscending (gathered.map Gathered.name)) :
    StrictlyAscending ((gatherField f gathered).map Gathered.name) := by
  -- by induction along the entries, up to the place of the name
  induction gathered with
  | nil => exact List.pairwise_singleton _ _
  | cons g rest ih =>
    have hg := h
    rw [StrictlyAscending, List.map_cons, List.pairwise_cons] at hg
    rw [gatherField]
    split
    · -- the name is there, and stays where it is
      exact h
    · next hne =>
      split
      · next hlt =>
        rw [StrictlyAscending, List.map_cons, List.pairwise_cons]
        refine ⟨fun n hn => ?_, h⟩
        rcases List.mem_cons.mp hn with rfl | hn
        · exact hlt
        · exact lt_trans hlt (hg.1 n hn)
      · next hle =>
        rw [StrictlyAscending, List.map_cons, List.pairwise_cons]
        refine ⟨fun n hn => ?_, ih hg.2⟩
        rcases mem_names_gatherField.mp hn with rfl | hn
        · exact lt_of_le_of_ne (not_lt.mp hle) (Ne.symm hne)
        · exact hg.1 n hn

/-- **Adding a field** touches only the entry of its name: that has one more schema, unless it was
there before. -/
theorem mem_gatherField {f : Field} {gathered : List Gathered}
    (h : StrictlyAscending (gathered.map Gathered.name)) {g : Gathered}
    (hg : g ∈ gatherField f gathered) :
    (g.name ≠ f.1 ∧ g ∈ gathered) ∨
    (g.name = f.1 ∧ f.1 ∉ gathered.map Gathered.name ∧ g.seen = [f.2]) ∨
    (g.name = f.1 ∧ ∃ old ∈ gathered, old.name = f.1 ∧ g.seen ≠ [] ∧
      ∀ s, s ∈ g.seen ↔ s ∈ old.seen ∨ s = f.2) := by
  induction gathered with
  | nil =>
    obtain rfl := List.mem_singleton.mp hg
    exact .inr (.inl ⟨rfl, List.not_mem_nil, rfl⟩)
  | cons head rest ih =>
    rw [StrictlyAscending, List.map_cons, List.pairwise_cons] at h
    rw [gatherField] at hg
    split at hg
    · next heq =>
      -- the entry of the name; the others have greater names
      rcases List.mem_cons.mp hg with rfl | hg
      · refine .inr (.inr ⟨heq.symm, head, List.mem_cons_self, heq.symm, ?_⟩)
        -- a schema that was seen before is not added again
        by_cases hin : f.2 ∈ head.seen
        · rw [if_pos hin]
          exact ⟨List.ne_nil_of_mem hin, fun s => ⟨.inl, fun hs => hs.elim id fun e => e ▸ hin⟩⟩
        · rw [if_neg hin]
          refine ⟨List.append_ne_nil_of_right_ne_nil _ (List.cons_ne_nil _ _), fun s => ?_⟩
          rw [List.mem_append, List.mem_singleton]
      · have hlt := h.1 _ (List.mem_map_of_mem hg)
        exact .inl ⟨heq ▸ ne_of_gt hlt, List.mem_cons_of_mem _ hg⟩
    · next hne =>
      split at hg
      · next hlt =>
        -- the place of the name, which no entry has
        have hnew : f.1 ∉ (head :: rest).map Gathered.name := by
          intro hm
          rcases List.mem_cons.mp hm with heq | hm
          · exact hne heq
          · exact lt_asymm hlt (h.1 _ hm)
        rcases List.mem_cons.mp hg with rfl | hg
        · exact .inr (.inl ⟨rfl, hnew, rfl⟩)
        · exact .inl ⟨fun heq => hnew (heq ▸ List.mem_map_of_mem hg), hg⟩
      · -- further down, where the induction hypothesis says what happens
        rcases List.mem_cons.mp hg with rfl | hg
        · exact .inl ⟨fun heq => hne heq.symm, List.mem_cons_self⟩
        · rcases ih h.2 hg with ⟨hn, hm⟩ | ⟨hn, hnew, hs⟩ | ⟨hn, old, hold, hs⟩
          · exact .inl ⟨hn, List.mem_cons_of_mem _ hm⟩
          · refine .inr (.inl ⟨hn, fun hm => ?_, hs⟩)
            exact (List.mem_cons.mp hm).elim hne hnew
          · exact .inr (.inr ⟨hn, old, List.mem_cons_of_mem _ hold, hs⟩)

/-- **Gathering goes on**: with one more field added, what has been gathered is what the fields
have, the new one among them. -/
theorem Gathers.gatherField {fields : List Field} {gathered : List Gathered}
    (h : Gathers fields gathered) (f : Field) :
    Gathers (fields ++ [f]) (gatherField f gathered) where
  ascending := ascending_gatherField h.ascending
  names := by
    intro g hg
    rw [mem_names_gatherField]
    rcases List.mem_append.mp hg with hg | hg
    · exact .inr (h.names g hg)
    · exact .inl (congrArg Prod.fst (List.mem_singleton.mp hg))
  seen := by
    intro g hg s
    rw [List.mem_append, List.mem_singleton, Prod.ext_iff]
    rcases mem_gatherField h.ascending hg with
      ⟨hn, hm⟩ | ⟨hn, hnew, hs⟩ | ⟨hn, old, hold, hno, -, hs⟩
    · -- an entry of another name
      rw [h.seen g hm s]
      exact ⟨.inl, fun h => h.resolve_right fun heq => hn heq.1⟩
    · -- an entry that is new
      rw [hs, List.mem_singleton]
      refine ⟨fun heq => .inr ⟨hn, heq⟩, fun h' => ?_⟩
      rcases h' with hm | heq
      · exact absurd (h.names _ hm) (hn ▸ hnew)
      · exact heq.2
    · -- the entry of the name, which takes the schema in
      rw [hs s, h.seen old hold s, hn, hno]
      exact or_congr_right ⟨fun heq => ⟨rfl, heq⟩, fun heq => heq.2⟩
  nonempty := by
    intro g hg
    rcases mem_gatherField h.ascending hg with ⟨-, hm⟩ | ⟨-, -, hs⟩ | ⟨-, old, -, -, hs, -⟩
    · exact h.nonempty g hm
    · rw [hs]
      exact List.cons_ne_nil _ _
    · exact hs

/-- **No schema is gathered twice** under a name. -/
theorem nodup_seen_gather (schemas : List Schema) : ∀ g ∈ gather schemas, g.seen.Nodup := by
  -- a schema is added to an entry only if it is not in it
  have hstep : ∀ (f : Field) (gathered : List Gathered), (∀ g ∈ gathered, g.seen.Nodup) →
      ∀ g ∈ gatherField f gathered, g.seen.Nodup := by
    intro f gathered h
    induction gathered with
    | nil => exact List.forall_mem_singleton.mpr (List.nodup_singleton f.2)
    | cons head rest ih =>
      obtain ⟨hhead, hrest⟩ := List.forall_mem_cons.mp h
      rw [gatherField]
      split
      · refine List.forall_mem_cons.mpr ⟨?_, hrest⟩
        split
        · exact hhead
        · next hnew =>
          rw [← List.concat_eq_append]
          exact .concat hnew hhead
      · split
        · exact List.forall_mem_cons.mpr ⟨List.nodup_singleton f.2, h⟩
        · exact List.forall_mem_cons.mpr ⟨hhead, ih hrest⟩
  exact List.foldlRecOn _ _ (motive := fun gathered => ∀ g ∈ gathered, g.seen.Nodup)
    (fun g hg => absurd hg List.not_mem_nil) fun gathered h f _ => hstep f gathered h

/-- Schemas without duplicates are several, unless there is one or none. -/
theorem not_all_eq_of_nodup {seen : List Schema} (hd : seen.Nodup) (hnil : seen ≠ [])
    (hone : ∀ s, seen ≠ [s]) : ¬ ∃ s, ∀ t ∈ seen, t = s := by
  rintro ⟨s, hall⟩
  match seen with
  | [] => exact hnil rfl
  | [a] => exact hone a rfl
  | a :: b :: rest =>
    have ha := hall a List.mem_cons_self
    have hb := hall b (List.mem_cons_of_mem a List.mem_cons_self)
    exact (List.nodup_cons.mp hd).1 (by rw [ha, ← hb]; exact List.mem_cons_self)

/-- **Gathering gathers** the fields of all schemas. -/
theorem gathers_gather (schemas : List Schema) :
    Gathers (schemas.flatMap fields) (gather schemas) := by
  -- the fields done so far have been gathered, and those to do are added one by one
  suffices key : ∀ todo done gathered, Gathers done gathered →
      Gathers (done ++ todo)
        (todo.foldl (fun gathered f => Schema.gatherField f gathered) gathered) by
    refine key _ [] [] ⟨List.Pairwise.nil, ?_, ?_, ?_⟩
    · exact fun f hf => absurd hf List.not_mem_nil
    · exact fun g hg => absurd hg List.not_mem_nil
    · exact fun g hg => absurd hg List.not_mem_nil
  intro todo
  induction todo with
  | nil =>
    intro done gathered h
    rw [List.append_nil]
    exact h
  | cons f rest ih =>
    intro done gathered h
    have := ih _ _ (h.gatherField f)
    rwa [List.append_assoc] at this

/-! ### Merges -/

/-- The schemas that a name was seen with, as often as it was. -/
def seenUnder (name : String) (schemas : List Schema) : List Schema :=
  ((schemas.flatMap fields).filter fun f => f.1 = name).map Prod.snd

/-- What was seen under a name is what some schema has under it. -/
theorem mem_seenUnder {name : String} {schemas : List Schema} {s : Schema} :
    s ∈ seenUnder name schemas ↔ ∃ t ∈ schemas, (name, s) ∈ t.fields := by
  rw [seenUnder, List.mem_map]
  constructor
  · rintro ⟨⟨n, s'⟩, hf, rfl⟩
    obtain ⟨hf, hn⟩ := List.mem_filter.mp hf
    obtain ⟨t, ht, hf⟩ := List.mem_flatMap.mp hf
    exact ⟨t, ht, of_decide_eq_true hn ▸ hf⟩
  · rintro ⟨t, ht, hf⟩
    exact ⟨(name, s), List.mem_filter.mpr ⟨List.mem_flatMap.mpr ⟨t, ht, hf⟩, decide_eq_true rfl⟩,
      rfl⟩

/-- What was gathered for a name is what the schemas have under it. -/
theorem mem_seenUnder_gather {schemas : List Schema} {g : Gathered} (hg : g ∈ gather schemas)
    {s : Schema} : s ∈ seenUnder g.name schemas ↔ s ∈ g.seen := by
  rw [mem_seenUnder, (gathers_gather schemas).seen g hg s, List.mem_flatMap]

/-- **A merge of struct schemas**: the struct of all their fields, in which a name that was seen
with one schema keeps it, and a name that was seen with several has a merge of them. It is optional
if any of them is. Nothing is said of the location that errors would name. -/
inductive IsMerge : List Schema → Schema → Prop where
  /-- One level of merging. -/
  | intro {schemas : List Schema} {fields : List Field}
      (structs : ∀ s ∈ schemas, s.isStruct = true)
      (ascending : StrictlyAscending (fields.map Prod.fst))
      (kept : ∀ s ∈ schemas, ∀ f ∈ s.fields, f.1 ∈ fields.map Prod.fst)
      (seen : ∀ f ∈ fields, seenUnder f.1 schemas ≠ [])
      (only : ∀ f ∈ fields, ∀ s, (∀ t ∈ seenUnder f.1 schemas, t = s) → f.2 = s)
      (merged : ∀ f ∈ fields, (¬ ∃ s, ∀ t ∈ seenUnder f.1 schemas, t = s) →
        IsMerge (seenUnder f.1 schemas) f.2) :
      IsMerge schemas (struct fields (schemas.any isOptional))

/-- A merge does not depend on the order in which schemas are given, or on how often. -/
theorem IsMerge.congr {schemas schemas' : List Schema} {m : Schema} (h : IsMerge schemas m)
    (heq : ∀ s, s ∈ schemas' ↔ s ∈ schemas) : IsMerge schemas' m := by
  induction h generalizing schemas' with
  | @intro schemas fields structs ascending kept seen only merged ih =>
    -- neither is what was seen under a name, or whether some schema is optional
    have hseen : ∀ name s, s ∈ seenUnder name schemas' ↔ s ∈ seenUnder name schemas := by
      intro name s
      simp only [mem_seenUnder, heq]
    have hany : schemas.any isOptional = schemas'.any isOptional := by
      rw [Bool.eq_iff_iff, List.any_eq_true, List.any_eq_true]
      simp only [heq]
    rw [hany]
    refine .intro (fun s hs => structs s ((heq s).mp hs)) ascending
      (fun s hs => kept s ((heq s).mp hs)) (fun f hf hnil => ?_)
      (fun f hf s hall => only f hf s fun t ht => hall t ((hseen f.1 t).mpr ht))
      (fun f hf hne => ?_)
    · obtain ⟨s, hs⟩ := List.exists_mem_of_ne_nil _ (seen f hf)
      have := (hseen f.1 s).mpr hs
      rw [hnil] at this
      exact absurd this List.not_mem_nil
    · refine ih f hf (fun ⟨s, hall⟩ => hne ⟨s, fun t ht => ?_⟩) (hseen f.1)
      exact hall t ((hseen f.1 t).mp ht)

/-- One level of merging: all schemas are structs, and every name that was gathered gives one field,
with its only schema or with the merge of several structs. -/
theorem mergeUpTo_succ {height : Nat} {schemas : List Schema} {location : String} {m : Schema}
    (h : mergeUpTo (height + 1) schemas location = .ok m) :
    (∀ s ∈ schemas, s.isStruct = true) ∧ ∃ fields, m = ofFields fields (schemas.any isOptional) ∧
      List.Forall₂ (fun g f => f.1 = g.name ∧ (g.seen = [f.2] ∨
        (∀ s, g.seen ≠ [s]) ∧ mergeUpTo height g.seen (locate location g.name) = .ok f.2))
        (gather schemas) fields := by
  rw [mergeUpTo] at h
  split at h
  · exact nomatch h
  · next hfind =>
    refine ⟨fun s hs => by simpa using List.find?_eq_none.mp hfind s hs, ?_⟩
    obtain ⟨fields, hfields, h⟩ := Outcome.bind_eq_ok.mp h
    injection h with h
    refine ⟨fields, h.symm, (Outcome.mapM_eq_ok.mp hfields).imp fun g f hgf => ?_⟩
    dsimp only at hgf
    -- one schema was seen under the name, or several
    split at hgf
    · next only hseen =>
      injection hgf with hgf
      rw [← hgf]
      exact ⟨rfl, .inl hseen⟩
    · next hseveral =>
      split at hgf
      · obtain ⟨t, ht, hgf⟩ := Outcome.bind_eq_ok.mp hgf
        injection hgf with hgf
        rw [← hgf]
        exact ⟨rfl, .inr ⟨fun s hs => hseveral s hs, ht⟩⟩
      · exact nomatch hgf

/-- Structs have a height, so there are none of height zero. -/
theorem eq_nil_of_height_le_zero {schemas : List Schema} (h : ∀ s ∈ schemas, s.isStruct = true)
    (hh : ∀ s ∈ schemas, s.height ≤ 0) : schemas = [] := by
  cases schemas with
  | nil => rfl
  | cons s rest =>
    have hs := hh s List.mem_cons_self
    rw [eq_struct_of_isStruct (h s List.mem_cons_self), height] at hs
    omega

/-- No schemas merge to the struct of no fields. -/
theorem isMerge_nil : IsMerge [] (struct [] false) :=
  .intro (fun _ hs => absurd hs List.not_mem_nil) List.Pairwise.nil
    (fun _ hs => absurd hs List.not_mem_nil) (fun _ hf => absurd hf List.not_mem_nil)
    (fun _ hf => absurd hf List.not_mem_nil) (fun _ hf => absurd hf List.not_mem_nil)

/-- The result of merging schemas of bounded height is a merge. -/
theorem isMerge_of_mergeUpTo {height : Nat} {schemas : List Schema} {location : String}
    {m : Schema} (hh : ∀ s ∈ schemas, s.height ≤ height)
    (h : mergeUpTo height schemas location = .ok m) : IsMerge schemas m := by
  induction height generalizing schemas location m with
  | zero =>
    -- a struct has a height, so there is nothing to merge
    rw [mergeUpTo] at h
    split at h
    · exact nomatch h
    · next hfind =>
      injection h with h
      have hnil : schemas = [] :=
        eq_nil_of_height_le_zero (fun s hs => by simpa using List.find?_eq_none.mp hfind s hs) hh
      subst hnil
      rw [← h]
      exact isMerge_nil
  | succ height ih =>
    obtain ⟨hstructs, fields, rfl, hfields⟩ := mergeUpTo_succ h
    have hg := gathers_gather schemas
    have hnames : (gather schemas).map Gathered.name = fields.map Prod.fst :=
      map_eq_map_of_forall₂ (hfields.imp fun g f hgf => hgf.1.symm)
    have hasc : StrictlyAscending (fields.map Prod.fst) := hnames ▸ hg.ascending
    rw [ofFields, NameOrder.sort_of_ascending hasc]
    refine .intro hstructs hasc (fun s hs f hf => ?_) (fun f hf hnil => ?_)
      (fun f hf s hall => ?_) (fun f hf hne => ?_)
    · -- every field is kept
      rw [← hnames]
      exact hg.names f (List.mem_flatMap.mpr ⟨s, hs, hf⟩)
    · -- a field comes from an entry, and that has been seen with some schema
      obtain ⟨g, hmem, hname, -⟩ := exists_of_forall₂ hfields hf
      obtain ⟨s, hs⟩ := List.exists_mem_of_ne_nil _ (hg.nonempty g hmem)
      have := (mem_seenUnder_gather hmem).mpr hs
      rw [← hname, hnil] at this
      exact absurd this List.not_mem_nil
    · obtain ⟨g, hmem, hname, hone | ⟨hseveral, -⟩⟩ := exists_of_forall₂ hfields hf
      · refine hall f.2 ?_
        rw [hname, mem_seenUnder_gather hmem, hone]
        exact List.mem_singleton_self _
      · -- what was gathered has no duplicates, so there are several schemas
        refine absurd ⟨s, fun t ht => hall t ?_⟩ (not_all_eq_of_nodup
          (nodup_seen_gather schemas g hmem) (hg.nonempty g hmem) hseveral)
        rw [hname]
        exact (mem_seenUnder_gather hmem).mpr ht
    · obtain ⟨g, hmem, hname, hone | ⟨-, hmerge⟩⟩ := exists_of_forall₂ hfields hf
      · refine absurd ⟨f.2, fun t ht => ?_⟩ hne
        rw [hname, mem_seenUnder_gather hmem, hone] at ht
        exact List.mem_singleton.mp ht
      · -- what was seen under the name is lower than the schemas it stands in
        rw [hname]
        refine (ih (fun s hs => ?_) hmerge).congr fun s => mem_seenUnder_gather hmem
        obtain ⟨t, ht, hf⟩ := List.mem_flatMap.mp ((hg.seen g hmem s).mp hs)
        have hlt : s.height < t.height := height_lt_of_mem_fields hf
        have hle := hh t ht
        omega

/-- A schema is no higher than the height of all, which is what bounds the merging of them. -/
theorem height_le_heightOf {schemas : List Schema} {s : Schema} (hs : s ∈ schemas) :
    s.height ≤ heightOf schemas := by
  -- the maximum so far and everything still to come stay below the final maximum
  have key : ∀ (heights : List Nat) (start : Nat),
      start ≤ heights.foldl max start ∧ ∀ n ∈ heights, n ≤ heights.foldl max start := by
    intro heights
    induction heights with
    | nil => exact fun start => ⟨Nat.le_refl start, fun n hn => absurd hn List.not_mem_nil⟩
    | cons n rest ih =>
      intro start
      rw [List.foldl_cons]
      obtain ⟨hle, hrest⟩ := ih (max start n)
      refine ⟨(Nat.le_max_left start n).trans hle, fun k hk => ?_⟩
      rcases List.mem_cons.mp hk with rfl | hk
      · exact (Nat.le_max_right start k).trans hle
      · exact hrest k hk
  exact (key _ 0).2 _ (List.mem_map_of_mem hs)

/-- **The result of merging is a merge.** -/
theorem isMerge_of_merge {schemas : List Schema} {location : String} {m : Schema}
    (h : merge schemas location = .ok m) : IsMerge schemas m :=
  isMerge_of_mergeUpTo (fun _ hs => height_le_heightOf hs) h

/-! ### Covering -/

mutual

/-- **One struct schema covers another** if it may be null where the other may, and has every field
of the other, with the same schema or with one that covers it. -/
def Covers : Schema → Schema → Prop
  | t, struct fields o =>
    t.isStruct = true ∧ (o = true → t.isOptional = true) ∧ CoversFields t fields
  | _, _ => False

/-- A struct schema has every field of a list. -/
def CoversFields : Schema → List (String × Schema) → Prop
  | _, [] => True
  | t, (name, s) :: rest =>
    (∃ u, (name, u) ∈ t.fields ∧ (u = s ∨ Covers u s)) ∧ CoversFields t rest

end

/-- **Covering a struct**, field by field: what covers it is a struct, optional if it is, and each
of its fields has a namesake there with the same schema or one that covers it. -/
theorem covers_struct {t : Schema} {fields : List Field} {o : Bool} :
    t.Covers (struct fields o) ↔ t.isStruct = true ∧ (o = true → t.isOptional = true) ∧
      ∀ f ∈ fields, ∃ u, (f.1, u) ∈ t.fields ∧ (u = f.2 ∨ u.Covers f.2) := by
  have hfields : t.CoversFields fields ↔
      ∀ f ∈ fields, ∃ u, (f.1, u) ∈ t.fields ∧ (u = f.2 ∨ u.Covers f.2) := by
    induction fields with
    | nil => simp [CoversFields]
    | cons f rest ih =>
      obtain ⟨name, s⟩ := f
      rw [CoversFields, ih, List.forall_mem_cons]
  rw [Covers, hfields]

theorem Covers.isStruct_right {t s : Schema} (h : t.Covers s) : s.isStruct = true := by
  cases s with
  | struct fields o => rfl
  | leaf _ _ => exact h.elim
  | array _ _ => exact h.elim

theorem Covers.isStruct_left {t s : Schema} (h : t.Covers s) : t.isStruct = true := by
  rw [eq_struct_of_isStruct h.isStruct_right] at h
  exact (covers_struct.mp h).1

/-- What may be null may be null under a covering schema. -/
theorem Covers.isOptional {t s : Schema} (h : t.Covers s) (hs : s.isOptional = true) :
    t.isOptional = true := by
  rw [eq_struct_of_isStruct h.isStruct_right] at h
  exact (covers_struct.mp h).2.1 hs

/-- **A merge covers every schema it was made from.** -/
theorem IsMerge.covers {schemas : List Schema} {m : Schema} (h : IsMerge schemas m) :
    ∀ s ∈ schemas, m.Covers s := by
  induction h with
  | @intro schemas fields structs ascending kept seen only merged ih =>
    intro s hs
    rw [eq_struct_of_isStruct (structs s hs), covers_struct]
    refine ⟨rfl, fun ho => List.any_eq_true.mpr ⟨s, hs, ho⟩, fun f hf => ?_⟩
    obtain ⟨⟨name, u⟩, hu, hname⟩ := List.mem_map.mp (kept s hs f hf)
    simp only at hname
    subst hname
    refine ⟨u, hu, ?_⟩
    have hmem : f.2 ∈ seenUnder f.1 schemas := mem_seenUnder.mpr ⟨s, hs, hf⟩
    -- a name that was seen with one schema keeps it, and else the merge of all covers this one
    by_cases hone : ∃ s, ∀ t ∈ seenUnder f.1 schemas, t = s
    · obtain ⟨s, hall⟩ := hone
      exact .inl ((only (f.1, u) hu s hall).trans (hall f.2 hmem).symm)
    · exact .inr (ih (f.1, u) hu hone f.2 hmem)

/-- **What a merge inherits**: a property that passes from a schema to the schemas of its fields,
and that a struct has if those of its fields and some struct of the same option have it. So it is
enough to look at one level. -/
theorem IsMerge.inherit {Q : Schema → Prop}
    (hpart : ∀ s, Q s → ∀ f ∈ s.fields, Q f.2)
    (hstruct : ∀ s fields, s.isStruct = true → Q s → StrictlyAscending (fields.map Prod.fst) →
      (∀ f ∈ fields, Q f.2) → Q (struct fields s.isOptional))
    {schemas : List Schema} {m : Schema} (h : IsMerge schemas m) (hne : schemas ≠ [])
    (hs : ∀ s ∈ schemas, Q s) : Q m := by
  induction h with
  | @intro schemas fields structs ascending kept seen only merged ih =>
    -- one of the schemas has the option of the merge
    obtain ⟨s, hmem, ho⟩ : ∃ s ∈ schemas, s.isOptional = schemas.any isOptional := by
      cases hany : schemas.any isOptional with
      | true => exact List.any_eq_true.mp hany
      | false =>
        obtain ⟨s, hmem⟩ := List.exists_mem_of_ne_nil _ hne
        exact ⟨s, hmem, by simpa using List.any_eq_false.mp hany s hmem⟩
    rw [← ho]
    refine hstruct s fields (structs s hmem) (hs s hmem) ascending fun f hf => ?_
    have hseen : ∀ s ∈ seenUnder f.1 schemas, Q s := by
      intro s hmem
      obtain ⟨t, ht, hft⟩ := mem_seenUnder.mp hmem
      exact hpart t (hs t ht) _ hft
    by_cases hone : ∃ s, ∀ t ∈ seenUnder f.1 schemas, t = s
    · obtain ⟨s, hall⟩ := hone
      obtain ⟨t, ht⟩ := List.exists_mem_of_ne_nil _ (seen f hf)
      rw [only f hf s hall, ← hall t ht]
      exact hseen t ht
    · exact ih f hf hone (seen f hf) hseen

/-- A merge of well-formed schemas is well-formed. -/
theorem IsMerge.wellFormed {schemas : List Schema} {m : Schema} (h : IsMerge schemas m)
    (hne : schemas ≠ []) (hs : ∀ s ∈ schemas, s.WellFormed) : m.WellFormed := by
  refine h.inherit (fun s hs f hf => hs.of_mem_fields hf) ?_ hne hs
  intro s fields _ _ hasc hfields
  exact wellFormed_struct.mpr ⟨hasc, hfields⟩

/-- A property that structs have or lack whatever their fields are holds everywhere in a merge if it
holds everywhere in the schemas. -/
theorem IsMerge.everywhere {P : Schema → Prop} {schemas : List Schema} {m : Schema}
    (h : IsMerge schemas m) (hP : ∀ fields fields' o, P (struct fields o) → P (struct fields' o))
    (hne : schemas ≠ []) (hs : ∀ s ∈ schemas, s.Everywhere P) : m.Everywhere P := by
  refine h.inherit (fun s hs f hf => hs.of_mem_fields hf) ?_ hne hs
  intro s fields hstruct hs _ hfields
  have hPs := (everywhere_iff.mp hs).1
  rw [eq_struct_of_isStruct hstruct] at hPs
  exact everywhere_struct.mpr ⟨hP _ _ _ hPs, hfields⟩

/-- A merge is no higher than the schemas. -/
theorem IsMerge.height_le {schemas : List Schema} {m : Schema} (h : IsMerge schemas m)
    (hne : schemas ≠ []) {n : Nat} (hs : ∀ s ∈ schemas, s.height ≤ n) : m.height ≤ n := by
  induction h generalizing n with
  | @intro schemas fields structs ascending kept seen only merged ih =>
    -- the schemas are structs, and what they have under a name is lower than they are
    obtain ⟨s, hmem⟩ := List.exists_mem_of_ne_nil _ hne
    obtain ⟨k, rfl⟩ : ∃ k, n = k + 1 := by
      have hle := hs s hmem
      rw [eq_struct_of_isStruct (structs s hmem), height] at hle
      exact ⟨n - 1, by omega⟩
    refine height_struct_le.mpr fun f hf => ?_
    have hseen : ∀ t ∈ seenUnder f.1 schemas, t.height ≤ k := by
      intro t ht
      obtain ⟨u, hu, hfu⟩ := mem_seenUnder.mp ht
      exact Nat.le_of_lt_succ ((height_lt_of_mem_fields hfu).trans_le (hs u hu))
    -- the schema of the field is one that was seen, or a merge of those
    by_cases hone : ∃ s, ∀ t ∈ seenUnder f.1 schemas, t = s
    · obtain ⟨s, hall⟩ := hone
      obtain ⟨t, ht⟩ := List.exists_mem_of_ne_nil _ (seen f hf)
      rw [only f hf s hall, ← hall t ht]
      exact hseen t ht
    · exact ih f hf hone (seen f hf) hseen

end DocStream.Schema
