import DocStream.Document
import DocStream.Proofs.Json.Canonical
import DocStream.Proofs.Outcome

/-!
# Reading documents and writing them back

Reading splits the properties of a fixed meaning off, and writing puts them back into their places.
Two values are lost on the way, since they say what their absence says: a false `_deleted` and an
empty `_conflicts`.

* `Metadata.get?_set?` — what is written back of a property that was taken over;
* `Document.toMembers_eq_filter` — **a document is written back as it was read**, but for these;
* `Document.deleted_notMem_toMembers` — of a live document nothing says that it is deleted;
* `Document.failsPerRecord_ofJson?` — an object that is no document is a failure of its own.

The eight properties of a fixed meaning are taken over one after the other, each into its place of
the metadata. So the metadata are told by what each place gives back, a function of the field: a
step changes it at one field, and after all steps it is the object's own member, if that is one that
is written back.
-/

namespace DocStream

open Outcome

namespace MetadataField

/-- **Is a property written back** if it has this value? -/
def writesBack : MetadataField → Json → Bool
  | deleted, j => j ≠ .bool false
  | conflicts, j => j ≠ .arr []
  | _, _ => true

/-- A field that is found by a name has that name. -/
theorem name_of_ofName? {name : String} {f : MetadataField} (h : ofName? name = some f) :
    f.name = name := by
  rw [ofName?] at h
  simpa using List.find?_some h

end MetadataField

namespace Metadata

theorem string?_eq_ok {f : MetadataField} {j : Json} {s : String} :
    string? f j = .ok s ↔ j = .str s := by
  cases j <;> simp [string?]

/-- Only strings are taken over from an array, and all of them. -/
theorem mapM_string?_eq_ok {f : MetadataField} {items : List Json} {texts : List String} :
    items.mapM (string? f) = .ok texts ↔ items = texts.map .str := by
  rw [mapM_eq_ok]
  simp only [string?_eq_ok]
  rw [← List.forall₂_map_right_iff (f := Json.str), List.forall₂_eq_eq_eq]

theorem fails_string? {f : MetadataField} {j : Json} :
    (string? f j).Fails fun e => ∃ found, e = .unhandled f.name found := by
  cases j with
  | str s => exact fails_ok s
  | _ => exact fails_error ⟨_, rfl⟩

/-- **A property that is refused is named.** Four of the eight are taken as they are, and never
refused. -/
theorem fails_set? {m : Metadata} {f : MetadataField} {j : Json} :
    (m.set? f j).Fails fun e => ∃ found, e = .unhandled f.name found := by
  cases f with
  | id | rev => exact fails_string?.bind fun _ _ => fails_ok _
  | deleted =>
    cases j with
    | bool b => exact fails_ok _
    | _ => exact fails_error ⟨_, rfl⟩
  | conflicts =>
    cases j with
    | arr items => exact (Fails.mapM fun _ _ => fails_string?).bind fun _ _ => fails_ok _
    | _ => exact fails_error ⟨_, rfl⟩
  | localSeq | revisions | revsInfo | attachments => exact fails_ok _

/-- **A property that was taken over** is written back as it was, unless it is left out; all others
are as before. The fields are gone through one by one, since each is kept in its own way. -/
theorem get?_set? {m m' : Metadata} {f : MetadataField} {j : Json} (h : m.set? f j = .ok m')
    (g : MetadataField) :
    m'.get? g = if g = f then (some j).filter (f.writesBack ·) else m.get? g := by
  cases f with
  | id | rev =>
    obtain ⟨s, hs, h⟩ := bind_eq_ok.mp h
    rw [string?_eq_ok.mp hs, ← Except.ok.inj h]
    cases g <;> rfl
  | deleted =>
    cases j with
    | bool b =>
      rw [← Except.ok.inj h]
      cases g <;> cases b <;> rfl
    | _ => cases h
  | conflicts =>
    cases j with
    | arr items =>
      -- an array of no strings is not written back
      obtain ⟨texts, htexts, h⟩ := bind_eq_ok.mp h
      rw [mapM_string?_eq_ok.mp htexts, ← Except.ok.inj h]
      cases texts <;> cases g <;> rfl
    | _ => cases h
  | localSeq | revisions | revsInfo | attachments =>
    rw [← Except.ok.inj h]
    cases g <;> rfl

/-- **Properties taken over one after the other**, from metadata without them, are written back as
each of them would be. The step is left open: all that matters is what it does to the field it is
about. -/
theorem get?_of_foldlM {step : Metadata → MetadataField → Outcome Metadata}
    (value : MetadataField → Option Json)
    (hstep : ∀ {m f m'}, m.get? f = none → step m f = .ok m' → ∀ g, m'.get? g =
      if g = f then (value f).filter (f.writesBack ·) else m.get? g)
    {fs : List MetadataField} (hfs : fs.Nodup) {m m' : Metadata} (hm : ∀ f ∈ fs, m.get? f = none)
    (h : fs.foldlM step m = .ok m') (g : MetadataField) :
    m'.get? g = if g ∈ fs then (value g).filter (g.writesBack ·) else m.get? g := by
  induction fs generalizing m with
  | nil =>
    rw [← Except.ok.inj h]
    rfl
  | cons f rest ih =>
    rw [List.foldlM_cons] at h
    obtain ⟨m₁, hm₁, h⟩ := bind_eq_ok.mp h
    -- the other fields are still missing, as each field is taken over once
    obtain ⟨hf, hrest⟩ := List.nodup_cons.mp hfs
    have hfirst := hstep (hm f List.mem_cons_self) hm₁
    have hothers : ∀ f' ∈ rest, m₁.get? f' = none := by
      intro f' hf'
      have hne : f' ≠ f := fun heq => hf (heq ▸ hf')
      rw [hfirst, if_neg hne]
      exact hm f' (List.mem_cons_of_mem _ hf')
    rw [ih hrest hothers h, hfirst]
    -- the field asked for is the first, one of the others, or none of them
    by_cases hg : g = f
    · subst hg
      rw [if_neg hf, if_pos rfl, if_pos List.mem_cons_self]
    · rw [if_neg hg]
      by_cases hmem : g ∈ rest
      · rw [if_pos hmem, if_pos (List.mem_cons_of_mem _ hmem)]
      · rw [if_neg hmem, if_neg fun h => (List.mem_cons.mp h).elim hg hmem]

end Metadata

namespace Document

/-- **An object that is no document is a failure of its own**: it is refused for one of its
properties, or for being no object. -/
theorem failsPerRecord_ofJson? (j : Json) : (ofJson? j).FailsPerRecord := by
  cases j with
  | obj members =>
    refine Fails.bind ?_ fun _ _ => failsPerRecord_ok _
    refine Fails.foldlM (fun f _ m => ?_) ({} : Metadata)
    cases Members.get? members f.name with
    | none => exact failsPerRecord_ok m
    | some j => exact Metadata.fails_set?.imp fun e ⟨_, he⟩ => he ▸ rfl
  | _ => exact failsPerRecord_error rfl

/-- **What a document that was read consists of**: the properties of a fixed meaning, as far as they
are written back, and all others. -/
theorem ofJson?_eq_ok {members : Members} {d : Document} (h : ofJson? (.obj members) = .ok d) :
    (∀ f : MetadataField, d.metadata.get? f =
      (members.get? f.name).filter (f.writesBack ·)) ∧
    d.properties = members.filter fun m => (MetadataField.ofName? m.1).isNone := by
  obtain ⟨metadata, hfold, h⟩ := bind_eq_ok.mp h
  rw [← Except.ok.inj h]
  refine ⟨fun f => ?_, rfl⟩
  have hget := Metadata.get?_of_foldlM (fun f => members.get? f.name) ?_
    (by decide : MetadataField.all.Nodup) (fun f _ => by cases f <;> rfl) hfold f
  · rw [hget, if_pos (MetadataField.mem_all f)]
  · -- a step takes over the property of its field, if the object has it
    intro m f m' hm hstep g
    cases hf : members.get? f.name with
    | none =>
      simp only [hf] at hstep
      rw [← Except.ok.inj hstep]
      by_cases hg : g = f
      · rw [if_pos hg, hg, hm]
        rfl
      · rw [if_neg hg]
    | some j =>
      simp only [hf] at hstep
      exact Metadata.get?_set? hstep g

variable {members : Members} {d : Document}

/-- The pairs that a document is written back as are those that it was read from, as far as they are
written back. -/
theorem mem_pairs (hm : StrictlyAscending members.names) (h : ofJson? (.obj members) = .ok d)
    {m : String × Json} :
    m ∈ MetadataField.all.filterMap (fun f => (d.metadata.get? f).map (f.name, ·)) ++ d.properties ↔
      m ∈ members ∧ (MetadataField.ofName? m.1).all (·.writesBack m.2) = true := by
  obtain ⟨hget, hproperties⟩ := ofJson?_eq_ok h
  rw [List.mem_append, List.mem_filterMap, hproperties, List.mem_filter]
  obtain ⟨name, j⟩ := m
  have hpair : ∀ f : MetadataField, (d.metadata.get? f).map (f.name, ·) = some (name, j) ↔
      f.name = name ∧ (name, j) ∈ members ∧ f.writesBack j = true := by
    intro f
    rw [hget, Option.map_eq_some_iff]
    -- the names of members ascend, so a member is found under its name
    constructor
    · rintro ⟨j', hj', heq⟩
      obtain ⟨rfl, rfl⟩ := Prod.mk.inj heq
      obtain ⟨hj, hback⟩ := Option.filter_eq_some_iff.mp hj'
      exact ⟨rfl, (Members.get?_eq_some_iff_mem hm).mp hj, hback⟩
    · rintro ⟨rfl, hj, hback⟩
      refine ⟨j, Option.filter_eq_some_iff.mpr ⟨?_, hback⟩, rfl⟩
      exact (Members.get?_eq_some_iff_mem hm).mpr hj
  simp only [hpair]
  cases hname : MetadataField.ofName? name with
  | none =>
    -- no field has the name
    have hno : ∀ f : MetadataField, f.name ≠ name := by
      rintro f rfl
      rw [MetadataField.ofName?_name] at hname
      cases hname
    simp [hno]
  | some f =>
    -- one field has it
    have hf := MetadataField.name_of_ofName? hname
    have hone : ∀ g : MetadataField, g.name = name → g = f := by
      rintro g rfl
      rw [MetadataField.ofName?_name] at hname
      exact Option.some.inj hname
    constructor
    · rintro (⟨g, -, hg, hmem, hback⟩ | ⟨-, hnone⟩)
      · exact ⟨hmem, hone g hg ▸ hback⟩
      · cases hnone
    · rintro ⟨hmem, hback⟩
      exact .inl ⟨f, f.mem_all, hf, hmem, hback⟩

/-- Each of these pairs has a name of its own. The fields have distinct names, the other members do,
and no other member has the name of a field. -/
theorem nodup_pairs (hm : StrictlyAscending members.names) (h : ofJson? (.obj members) = .ok d) :
    ((MetadataField.all.filterMap (fun f => (d.metadata.get? f).map (f.name, ·)) ++
      d.properties).map Prod.fst).Nodup := by
  have hproperties := (ofJson?_eq_ok h).2
  have hpair : ∀ {f : MetadataField} {m : String × Json},
      (d.metadata.get? f).map (f.name, ·) = some m → m.1 = f.name := by
    intro f m hf
    obtain ⟨j, -, rfl⟩ := Option.map_eq_some_iff.mp hf
    rfl
  have hnames : MetadataField.all.Pairwise fun f g => f.name ≠ g.name := by decide
  rw [List.map_append, List.nodup_append]
  refine ⟨?_, ?_, ?_⟩
  · rw [List.Nodup, List.pairwise_map, List.pairwise_filterMap]
    refine hnames.imp fun {f g} hne m hf m' hg heq => hne ?_
    rw [← hpair hf, ← hpair hg, heq]
  · rw [hproperties]
    exact hm.nodup.sublist ((List.filter_sublist).map _)
  · -- a property of a fixed meaning is not among the others
    intro name hmeta name' hother heq
    obtain ⟨m, hmem, rfl⟩ := List.mem_map.mp hmeta
    obtain ⟨f, -, hf⟩ := List.mem_filterMap.mp hmem
    obtain ⟨m', hmem', rfl⟩ := List.mem_map.mp hother
    rw [hproperties] at hmem'
    have hnone := (List.mem_filter.mp hmem').2
    rw [← heq, hpair hf, MetadataField.ofName?_name] at hnone
    cases hnone

/-- **A document is written back as it was read**, but for what says the same as its absence. Both
lists ascend by name, so it is enough that they have the same members. -/
theorem toMembers_eq_filter (hm : StrictlyAscending members.names)
    (h : ofJson? (.obj members) = .ok d) :
    d.toMembers =
      members.filter fun m => (MetadataField.ofName? m.1).all (·.writesBack m.2) := by
  have hwritten : StrictlyAscending (d.toMembers.map Prod.fst) := Members.ascending_ofList _
  refine eq_of_ascending hwritten ?_ fun m => ?_
  · exact hm.sublist ((List.filter_sublist).map _)
  · rw [toMembers, (Members.ofList_perm (nodup_pairs hm h)).mem_iff, mem_pairs hm h,
      List.mem_filter]

/-- **A canonical document is canonical when it is written back.** -/
theorem canonical_toJson (hm : (Json.obj members).Canonical) (h : ofJson? (.obj members) = .ok d) :
    d.toJson.Canonical := by
  obtain ⟨hasc, hvalues⟩ := Json.canonical_obj.mp hm
  rw [toJson, Json.canonical_obj]
  refine ⟨Members.ascending_ofList _, fun m hmem => ?_⟩
  rw [toMembers_eq_filter hasc h] at hmem
  exact hvalues m (List.mem_of_mem_filter hmem)

/-- A document that is not deleted is written back without a word on it. -/
theorem deleted_notMem_toMembers (hm : StrictlyAscending members.names)
    (h : ofJson? (.obj members) = .ok d)
    (hlive : (OutboundDocument.mk members).isDeleted = false) :
    MetadataField.deleted.name ∉ d.toMembers.names := by
  intro hmem
  rw [toMembers_eq_filter hm h] at hmem
  obtain ⟨⟨name, j⟩, hmem, hname⟩ := List.mem_map.mp hmem
  obtain ⟨hmem, hback⟩ := List.mem_filter.mp hmem
  obtain rfl : name = MetadataField.deleted.name := hname
  have hback : MetadataField.deleted.writesBack j = true := by
    rwa [MetadataField.ofName?_name] at hback
  have hfound : members.get? MetadataField.deleted.name = some j :=
    (Members.get?_eq_some_iff_mem hm).mpr hmem
  -- what is written back says that the document is deleted
  have hget := (ofJson?_eq_ok h).1 .deleted
  rw [hfound, Option.filter_some_pos hback, Metadata.get?] at hget
  split at hget
  · rw [OutboundDocument.isDeleted, hfound, ← Option.some.inj hget] at hlive
    cases hlive
  · cases hget

end Document
end DocStream
