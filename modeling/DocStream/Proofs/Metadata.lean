import DocStream.Proofs.Document

/-!
# Which objects are documents

Reading a document looks into four of its eight properties of a fixed meaning: id and revision have
to be strings, deletion a truth value and conflicts an array of strings. Everything else is taken as
it is. What was read is written back as an object that reads as the same document.

* `MetadataField.Admits` — **the values that a property may have**;
* `Document.exists_ofJson?_iff` — an object is a document if its properties may be as they are, and
  `Document.unhandled_of_ofJson?` — if not, the failure names one that may not;
* `Document.ofJson?_of_toJson` — **a document is read from what it is written back as**;
* `Document.writtenBack_and_refused_iff` — what is kept of an object, and which objects are refused.

Reading takes over the properties one after the other, and what a property may be does not depend on
those before it. So acceptance is a condition on each by itself, and so is what is written back. The
document has no more in it than its metadata and its remaining members, and both are shown to be the
same after writing and reading.
-/

namespace DocStream

open Outcome

/-! ### Properties one by one -/

/-- **The values that a property may have.** Four of the eight are looked into; the others are kept
as the JSON that they are, null included. -/
def MetadataField.Admits : MetadataField → Json → Prop
  | id, j | rev, j => ∃ s, j = .str s
  | deleted, j => ∃ b, j = .bool b
  | conflicts, j => ∃ texts : List String, j = .arr (texts.map .str)
  | localSeq, _ | revisions, _ | revsInfo, _ | attachments, _ => True

namespace Metadata

variable {m : Metadata} {f : MetadataField} {j : Json}

/-- **A property is taken over exactly if it may have its value**, whatever was taken over before. -/
theorem exists_set?_iff : (∃ m', m.set? f j = .ok m') ↔ f.Admits j := by
  -- one property after the other, and for each whatever JSON it is given
  cases f with
  | id | rev =>
    show _ ↔ ∃ s, j = .str s
    cases j with
    | str s => exact iff_of_true ⟨_, rfl⟩ ⟨s, rfl⟩
    | _ => exact iff_of_false (fun ⟨_, h⟩ => by cases h) fun ⟨_, h⟩ => by cases h
  | deleted =>
    show _ ↔ ∃ b, j = .bool b
    cases j with
    | bool b => exact iff_of_true ⟨_, rfl⟩ ⟨b, rfl⟩
    | _ => exact iff_of_false (fun ⟨_, h⟩ => by cases h) fun ⟨_, h⟩ => by cases h
  | conflicts =>
    show _ ↔ ∃ texts : List String, j = .arr (texts.map .str)
    cases j with
    | arr items =>
      -- the conflicts taken over are the texts of the items
      have hitems : (∃ texts, items.mapM (string? .conflicts) = .ok texts) ↔
          ∃ texts : List String, Json.arr items = .arr (texts.map .str) :=
        exists_congr fun texts => by rw [mapM_string?_eq_ok, Json.arr.injEq]
      rw [← hitems]
      constructor
      · rintro ⟨m', h⟩
        obtain ⟨texts, htexts, -⟩ := bind_eq_ok.mp h
        exact ⟨texts, htexts⟩
      · rintro ⟨texts, htexts⟩
        exact ⟨_, bind_eq_ok.mpr ⟨texts, htexts, rfl⟩⟩
    | _ => exact iff_of_false (fun ⟨_, h⟩ => by cases h) fun ⟨_, h⟩ => by cases h
  | localSeq | revisions | revsInfo | attachments => exact iff_of_true ⟨_, rfl⟩ trivial

/-- A document is deleted exactly if that is written back of it. -/
theorem deleted_eq (m : Metadata) : m.deleted = (m.get? .deleted).isSome := by
  show m.deleted = (if m.deleted then some (Json.bool true) else none).isSome
  cases m.deleted <;> rfl

/-- The conflicts of a document are those written back of it; none are written back as nothing. -/
theorem conflicts_eq (m : Metadata) :
    m.conflicts = (((m.get? .conflicts).bind Json.arr?).getD []).filterMap Json.str? := by
  show m.conflicts = (((if m.conflicts.isEmpty then none
    else some (.arr (m.conflicts.map .str))).bind Json.arr?).getD []).filterMap Json.str?
  cases m.conflicts with
  | nil => rfl
  | cons text rest =>
    show text :: rest = ((text :: rest).map Json.str).filterMap Json.str?
    rw [List.filterMap_map]
    exact List.filterMap_some.symm

/-- **Metadata are told apart by what is written back of them.** -/
theorem eq_of_get? {m m' : Metadata} (h : ∀ f, m.get? f = m'.get? f) : m = m' := by
  -- a text is not lost by being made into JSON
  have hstr : Function.Injective (Option.map Json.str) :=
    Option.map_injective fun _ _ => Json.str.inj
  have hid : m.id = m'.id := hstr (h .id)
  have hrev : m.rev = m'.rev := hstr (h .rev)
  have hdeleted : m.deleted = m'.deleted := by rw [deleted_eq, deleted_eq, h]
  have hconflicts : m.conflicts = m'.conflicts := by rw [conflicts_eq, conflicts_eq m', h]
  have hlocalSeq : m.localSeq = m'.localSeq := h .localSeq
  have hrevisions : m.revisions = m'.revisions := h .revisions
  have hrevsInfo : m.revsInfo = m'.revsInfo := h .revsInfo
  have hattachments : m.attachments = m'.attachments := h .attachments
  cases m
  cases m'
  rw [Metadata.mk.injEq]
  exact ⟨hid, hrev, hdeleted, hconflicts, hlocalSeq, hrevisions, hrevsInfo, hattachments⟩

end Metadata

/-! ### Objects -/

namespace Document

variable {members : Members} {d : Document}

/-- **An object is a document exactly if its properties may have their values.** -/
theorem exists_ofJson?_iff : (∃ d, ofJson? (.obj members) = .ok d) ↔
    ∀ (f : MetadataField) (j : Json), members.get? f.name = some j → f.Admits j := by
  have hall : (∀ f ∈ MetadataField.all, ∀ j, members.get? f.name = some j → f.Admits j) ↔
      ∀ (f : MetadataField) (j : Json), members.get? f.name = some j → f.Admits j :=
    forall_congr' fun f => imp_iff_right f.mem_all
  rw [← hall]
  -- the properties are taken over one after the other, each by itself
  refine exists_bind_pure_iff.trans (exists_foldlM_iff fun f m => ?_)
  cases hf : members.get? f.name with
  | none => exact iff_of_true ⟨m, rfl⟩ nofun
  | some j =>
    rw [Metadata.exists_set?_iff]
    exact ⟨fun h j' hj' => Option.some.inj hj' ▸ h, fun h => h j rfl⟩

/-- **The failure names a property** of the object that may not have its value. -/
theorem unhandled_of_ofJson? {e : Error} (h : ofJson? (.obj members) = .error e) :
    ∃ (f : MetadataField) (j : Json) (found : String), members.get? f.name = some j ∧
      ¬f.Admits j ∧ e = .unhandled f.name found := by
  rcases bind_eq_error.mp h with h | ⟨metadata, -, h⟩
  · -- the failure is that of one of the steps, whatever was taken over before it
    obtain ⟨f, -, m, h⟩ := exists_of_foldlM_eq_error h
    cases hf : members.get? f.name with
    | none =>
      rw [hf] at h
      cases h
    | some j =>
      rw [hf] at h
      obtain ⟨found, rfl⟩ := Metadata.fails_set? e h
      refine ⟨f, j, found, hf, fun hadmits => ?_, rfl⟩
      obtain ⟨m', hm'⟩ := Metadata.exists_set?_iff.mpr hadmits
      exact nomatch h.symm.trans hm'
  · cases h

/-- **A document is read from what it is written back as.** -/
theorem ofJson?_of_toJson (hm : StrictlyAscending members.names)
    (h : ofJson? (.obj members) = .ok d) : ofJson? d.toJson = .ok d := by
  have hwritten := toMembers_eq_filter hm h
  have hasc : StrictlyAscending d.toMembers.names := Members.ascending_ofList _
  obtain ⟨hget, hproperties⟩ := ofJson?_eq_ok h
  -- what is written back is what was read, as far as it is written back
  have hfound : ∀ f : MetadataField, d.toMembers.get? f.name = d.metadata.get? f := by
    intro f
    ext j
    rw [Members.get?_eq_some_iff_mem hasc, hwritten, List.mem_filter, hget,
      Option.filter_eq_some_iff, Members.get?_eq_some_iff_mem hm, MetadataField.ofName?_name]
    exact Iff.rfl
  -- what is written back is among what was read, so it may be as it is
  obtain ⟨d', hd'⟩ : ∃ d', ofJson? (.obj d.toMembers) = .ok d' := by
    refine exists_ofJson?_iff.mpr fun f j hj => exists_ofJson?_iff.mp ⟨d, h⟩ f j ?_
    rw [hfound, hget] at hj
    exact (Option.filter_eq_some_iff.mp hj).1
  obtain ⟨hget', hproperties'⟩ := ofJson?_eq_ok hd'
  have hmetadata : d'.metadata = d.metadata := by
    refine Metadata.eq_of_get? fun f => ?_
    -- leaving out twice is leaving out once
    rw [hget', hfound, hget, Option.filter_filter]
    simp only [Bool.and_self]
  -- the members with no meaning are kept, and nothing else is
  have hrest : d'.properties = d.properties := by
    rw [hproperties', hwritten, hproperties, List.filter_filter]
    refine List.filter_congr fun m _ => ?_
    cases hname : MetadataField.ofName? m.1 <;> rfl
  have hsame : d' = d := by
    cases d
    cases d'
    rw [Document.mk.injEq]
    exact ⟨hmetadata, hrest⟩
  show ofJson? (.obj d.toMembers) = .ok d
  rw [hd', hsame]

/-- What is left out is a false `_deleted` and an empty `_conflicts`, since both are what a document
has that lacks them. -/
theorem writesBack_iff (m : String × Json) :
    (MetadataField.ofName? m.1).all (·.writesBack m.2) = true ↔
      m ≠ ("_deleted", .bool false) ∧ m ≠ ("_conflicts", .arr []) := by
  obtain ⟨name, j⟩ := m
  cases hname : MetadataField.ofName? name with
  | none =>
    -- no field has the name
    have hne : ∀ f : MetadataField, name ≠ f.name := by
      rintro f rfl
      rw [MetadataField.ofName?_name] at hname
      cases hname
    exact iff_of_true rfl ⟨fun h => hne .deleted (congrArg Prod.fst h),
      fun h => hne .conflicts (congrArg Prod.fst h)⟩
  | some f =>
    obtain rfl := MetadataField.name_of_ofName? hname
    show f.writesBack j = true ↔ _
    cases f <;> simp [MetadataField.writesBack, MetadataField.name]

/-- **What becomes of an object that is read as a document.** If it is taken, it is written back as
it is but for a false `_deleted` and an empty `_conflicts`, and that reads as the same document. It
is refused exactly if `_id` or `_rev` is there and no string, `_deleted` is there and no truth value,
or `_conflicts` is there and no array of strings. -/
theorem writtenBack_and_refused_iff {members : Members} (hm : StrictlyAscending members.names) :
    (∀ d, ofJson? (.obj members) = .ok d →
      d.toMembers = members.filter (fun m =>
        m ≠ ("_deleted", .bool false) ∧ m ≠ ("_conflicts", .arr [])) ∧
      ofJson? d.toJson = .ok d) ∧
    ((∃ e, ofJson? (.obj members) = .error e) ↔
      (∃ j, (members.get? "_id" = some j ∨ members.get? "_rev" = some j) ∧ ∀ s, j ≠ .str s) ∨
      (∃ j, members.get? "_deleted" = some j ∧ ∀ b, j ≠ .bool b) ∨
      ∃ j, members.get? "_conflicts" = some j ∧
        ∀ texts : List String, j ≠ .arr (texts.map .str)) := by
  refine ⟨fun d h => ⟨?_, ofJson?_of_toJson hm h⟩, ?_⟩
  · rw [toMembers_eq_filter hm h]
    refine List.filter_congr fun m _ => Bool.eq_iff_iff.mpr ?_
    rw [writesBack_iff, decide_eq_true_iff]
  · -- what is not accepted fails
    have herror : (∃ e, ofJson? (.obj members) = .error e) ↔
        ¬∃ d, ofJson? (.obj members) = .ok d := by
      cases ofJson? (.obj members) with
      | ok d => exact iff_of_false (fun ⟨_, h⟩ => by cases h) fun h => h ⟨d, rfl⟩
      | error e => exact iff_of_true ⟨e, rfl⟩ fun ⟨_, h⟩ => by cases h
    rw [herror, exists_ofJson?_iff]
    -- a property that may not have its value is one of four
    simp only [not_forall]
    constructor
    · rintro ⟨f, j, hj, hadmits⟩
      cases f with
      | id => exact .inl ⟨j, .inl hj, fun s hs => hadmits ⟨s, hs⟩⟩
      | rev => exact .inl ⟨j, .inr hj, fun s hs => hadmits ⟨s, hs⟩⟩
      | deleted => exact .inr (.inl ⟨j, hj, fun b hb => hadmits ⟨b, hb⟩⟩)
      | conflicts => exact .inr (.inr ⟨j, hj, fun texts h => hadmits ⟨texts, h⟩⟩)
      | localSeq | revisions | revsInfo | attachments => exact absurd trivial hadmits
    · rintro (⟨j, hj | hj, hno⟩ | ⟨j, hj, hno⟩ | ⟨j, hj, hno⟩)
      · exact ⟨.id, j, hj, fun ⟨s, hs⟩ => hno s hs⟩
      · exact ⟨.rev, j, hj, fun ⟨s, hs⟩ => hno s hs⟩
      · exact ⟨.deleted, j, hj, fun ⟨b, hb⟩ => hno b hb⟩
      · exact ⟨.conflicts, j, hj, fun ⟨texts, h⟩ => hno texts h⟩

/-- An object with explicit nulls and names that mean nothing is a document; one with a null among
its conflicts is none. -/
theorem writtenBack_and_refused_iff_nulls :
    let kept : Members := [("_conflicts", .arr []), ("_deleted", .bool false), ("_id", .str "a"),
      ("_revs_info", .null), ("_unknown", .null), ("n", .arr [])]
    let refused : Members := [("_conflicts", .arr [.str "2-b", .null]), ("_id", .str "a")]
    (∃ d, ofJson? (.obj kept) = .ok d ∧ ofJson? d.toJson = .ok d ∧ d.toMembers =
      [("_id", .str "a"), ("_revs_info", .null), ("_unknown", .null), ("n", .arr [])]) ∧
    ∃ e, ofJson? (.obj refused) = .error e := by
  intro kept refused
  have hkept : StrictlyAscending kept.names :=
    show kept.names.Pairwise (· < ·) by decide +kernel
  have hrefused : StrictlyAscending refused.names :=
    show refused.names.Pairwise (· < ·) by decide +kernel
  obtain ⟨d, hd⟩ : ∃ d, ofJson? (.obj kept) = .ok d := ⟨_, rfl⟩
  obtain ⟨hwritten, hagain⟩ := (writtenBack_and_refused_iff hkept).1 d hd
  refine ⟨⟨d, hd, hagain, hwritten.trans (by decide +kernel)⟩, ?_⟩
  refine (writtenBack_and_refused_iff hrefused).2.mpr (.inr (.inr ⟨_, rfl, fun texts h => ?_⟩))
  -- no text is written as null
  have hmem : Json.null ∈ texts.map Json.str :=
    Json.arr.inj h ▸ List.mem_cons_of_mem _ List.mem_cons_self
  obtain ⟨text, -, htext⟩ := List.mem_map.mp hmem
  cases htext

end Document
end DocStream
