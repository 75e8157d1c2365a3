import DocStream.Proofs.Envelope.Rereading
import DocStream.Proofs.Envelope.RoundTrip
import DocStream.Proofs.Store.Contents
import DocStream.Proofs.Task.Reading
import DocStream.Task.Replay

/-!
# From a record to the document that is written

A live document becomes the record of a struct, goes through its envelope, and becomes a document
again. Nothing on this way can fail: the envelope accepts what was converted, the value that is read
can be written, and no field of it says that the document is deleted.

* `SourceRecord.IsLive` — **what holds of the record of a live document**;
* `SinkTask.Carries` — what the sink task makes of it;
* `Replay.exists_relay` — **all records of a page are relayed**, and their tombstones stay behind.

Three facts come together here. What was converted conforms to a schema under which it can be read
back, the schema is one that an envelope can carry, and the root of a document is a struct. From
these it follows that the value read from the envelope is again a record with the same fields, that
it can be written as a document, and that the document has just those fields as its members.
-/

namespace DocStream

open Outcome

/-! ### Objects converted -/

/-- **A structured conversion of an object** is a record, and a field whose name holds no point is
named like a member. -/
theorem ConversionSettings.exists_record_of_convert {settings : ConversionSettings}
    (hstructured : settings.structured = true) {members : Members}
    (hd : (Json.obj members).Canonical) {c : Converted}
    (h : settings.convert (.obj members) = .ok c) :
    ∃ fields slots, c.toRecord = (some (.struct fields false), .record slots false) ∧
      ∀ name : String, '.' ∉ name.toList → name ∈ fields.map Prod.fst → name ∈ members.names := by
  cases c with
  | structured s v =>
    -- the fields at the root are the members
    obtain ⟨slots, -, hnames, rfl, rfl⟩ :=
      Json.nest_obj (Json.canonical_obj.mp hd).1 (convert_eq_structured h)
    refine ⟨slots.map Prod.fst, slots, rfl, fun name _ hmem => ?_⟩
    rw [List.map_map] at hmem
    exact hnames ▸ hmem
  | flattened flat =>
    refine ⟨flat.toRecord.slots.map Prod.fst, flat.toRecord.slots, rfl, fun name hname hmem => ?_⟩
    refine FlatRecord.mem_names_of_flattenInto (convert_eq_flattened h) hname ?_
    -- the fields are the leaves, put in order
    obtain ⟨f, hf, rfl⟩ := List.mem_map.mp hmem
    obtain ⟨slot, hslot, rfl⟩ := List.mem_map.mp hf
    obtain ⟨e, he, rfl⟩ := List.mem_map.mp ((NameOrder.sort_perm _ _).mem_iff.mp hslot)
    exact List.mem_map_of_mem he
  | schemaless v =>
    -- the settings ask for a schema
    rw [convert, if_pos hstructured] at h
    split at h
    · obtain ⟨_, -, h⟩ := bind_eq_ok.mp h
      cases h
    · obtain ⟨_, -, h⟩ := map_eq_ok.mp h
      cases h

/-! ### Records of live documents -/

/-- **The record of a live document**: a struct that can be read back, and none of whose fields says
that the document is deleted. -/
structure SourceRecord.IsLive (r : SourceRecord) (fields : List Field) : Prop where
  schema : r.schema = some (.struct fields false)
  record : ∃ slots, r.value = .record slots false
  readable : r.value.Conforms LeafType.Readable (.struct fields false)
  wellFormed : (Schema.struct fields false).WellFormed
  leafInferred : (Schema.struct fields false).Everywhere Schema.LeafInferred
  undeleted : MetadataField.deleted.name ∉ fields.map Prod.fst

theorem SourceRecord.IsLive.isTombstone {r : SourceRecord} {fields : List Field}
    (h : r.IsLive fields) : r.isTombstone = false := by
  rw [SourceRecord.isTombstone, h.schema]
  rfl

/-- **A stored document makes a tombstone or a live record.** -/
theorem SourceTask.isLive_of_makes {t : SourceTask} (hstructured : t.converter.structured = true)
    {entry : String × StoredDocument} (hintact : entry.2.Intact) {r : SourceRecord}
    (h : t.Makes (Database.row true entry) r) :
    r.isTombstone = true ∨ ∃ fields, r.IsLive fields := by
  cases h with
  | tombstone deleted => exact .inl rfl
  | @converted body document c live doc read convert =>
    obtain rfl : Json.obj entry.2.body = body := Option.some.inj doc
    -- what is stored is canonical, and reading it as a document keeps it so
    have hcanonical := Document.canonical_toJson hintact.canonical read
    obtain ⟨fields, slots, hrecord, hnames⟩ :=
      t.converter.exists_record_of_convert hstructured hcanonical convert
    obtain ⟨hreadable, hwellFormed, hleaf⟩ :=
      ConversionSettings.readable_of_convert hcanonical convert hrecord
    -- the document does not say that it is deleted, and the record has no other fields
    have hlive : (OutboundDocument.mk entry.2.body).isDeleted = false :=
      hintact.deleted.symm.trans live
    have hundeleted := Document.deleted_notMem_toMembers (Json.canonical_obj.mp hintact.canonical).1
      read hlive
    rw [hrecord]
    refine .inr ⟨fields, rfl, ⟨slots, rfl⟩, hreadable, hwellFormed, hleaf, fun hmem => ?_⟩
    exact hundeleted (hnames _ (by decide) hmem)

/-! ### Documents written -/

/-- **A record carries a document** of an id to the sink task, and one that is not deleted. -/
structure SinkTask.Carries (t : SinkTask) (r : SourceRecord) (carrier : SinkRecord) : Prop where
  topic : carrier.topic = r.topic
  document : ∃ doc, t.documentOf? carrier = .ok doc ∧ doc.id? = some r.key ∧ doc.isDeleted = false

namespace Replay

theorem relay?_of_isTombstone {r : SourceRecord} (h : r.isTombstone = true) (idHeader : String) :
    relay? idHeader r = .ok none := by
  rw [SourceRecord.isTombstone, Bool.and_eq_true] at h
  rw [relay?, if_pos h.2]

/-- A value that was read under a struct schema becomes a document with the fields of the schema. -/
theorem exists_toDocument? {fields : List Field} (hs : (Schema.struct fields false).WellFormed)
    {j : Json} {w : Value} (h : Value.ofPlain? (.struct fields false) j = .ok w) :
    ∃ members, w.toDocument? (some (.struct fields false)) = .ok members ∧
      members.names = fields.map Prod.fst := by
  obtain ⟨hasc, -⟩ := Schema.wellFormed_struct.mp hs
  -- what was read under the schema can be written under it, field by field
  obtain ⟨j', hplain, -⟩ := Value.comesBack hs h
  rcases Value.ofPlain?_struct_eq_ok hasc.nodup h with ⟨-, hfalse⟩ | ⟨slots, rfl, rfl, -⟩
  · cases hfalse
  · rw [List.map_map] at hasc
    obtain ⟨members, -, hmembers⟩ := (Value.toPlain?_record hasc).mp hplain
    refine ⟨members, (Value.recordPlain?_eq_ok hasc).mpr hmembers, ?_⟩
    rw [List.map_map]
    exact (map_eq_map_of_forall₂ (hmembers.imp fun slot m hm => hm.1.symm)).symm

/-- **The record of a live document** is relayed, and carries a document of its id. -/
theorem exists_relay_of_isLive {r : SourceRecord} {fields : List Field} (h : r.IsLive fields)
    (t : SinkTask) :
    ∃ carrier, relay? t.settings.idHeader r = .ok (some carrier) ∧ t.Carries r carrier := by
  -- the schema is read back as it is, and the payload as a value that can be written
  have htravels := h.wellFormed.travels h.leafInferred
  obtain ⟨payload, w, hplain, hw, -⟩ := h.readable.readsBack h.wellFormed h.leafInferred
  obtain ⟨members, hmembers, hnames⟩ := exists_toDocument? h.wellFormed hw
  have hwritten := Envelope.toJson?_eq_ok (e := ⟨some (.struct fields false), r.value⟩) hplain
  have hread := Envelope.ofJson?_written_some htravels payload
  rw [hw] at hread
  -- a record is not null, so it is not mistaken for a tombstone
  have hnull : ¬r.value.isNull = true := by
    obtain ⟨slots, hslots⟩ := h.record
    rw [hslots]
    exact Bool.false_ne_true
  refine ⟨⟨r.topic, some r.key, some (.struct fields false), w,
    [(t.settings.idHeader, r.key)]⟩, ?_, rfl, (OutboundDocument.mk members).setId r.key, ?_, ?_, ?_⟩
  · rw [relay?, if_neg hnull, h.schema]
    exact bind_eq_ok.mpr ⟨_, hwritten, bind_eq_ok.mpr ⟨_, hread, rfl⟩⟩
  · -- the header gives the id
    rw [SinkTask.documentOf?]
    refine bind_eq_ok.mpr ⟨members, hmembers, ?_⟩
    rw [SinkRecord.header?, List.lookup_cons_self]
    rfl
  · exact OutboundDocument.id?_setId _ _
  · rw [OutboundDocument.isDeleted_setId]
    exact OutboundDocument.isDeleted_of_notMem (hnames ▸ h.undeleted)

/-- **All records are relayed**, and their tombstones stay behind. -/
theorem exists_relay {records : List SourceRecord}
    (h : ∀ r ∈ records, r.isTombstone = true ∨ ∃ fields, r.IsLive fields) (t : SinkTask) :
    ∃ relayed, records.mapM (relay? t.settings.idHeader) = .ok relayed ∧
      List.Forall₂ t.Carries (records.filter (!·.isTombstone)) (relayed.filterMap id) := by
  -- record by record, since none of them depends on the others
  induction records with
  | nil => exact ⟨[], rfl, .nil⟩
  | cons r rest ih =>
    obtain ⟨relayed, hrelayed, hcarries⟩ := ih fun r hr => h r (List.mem_cons_of_mem _ hr)
    rcases h r List.mem_cons_self with htombstone | ⟨fields, hlive⟩
    · refine ⟨none :: relayed, ?_, ?_⟩
      · rw [mapM_eq_ok] at hrelayed ⊢
        exact .cons (relay?_of_isTombstone htombstone _) hrelayed
      · rw [List.filter_cons_of_neg (by rw [htombstone]; exact Bool.false_ne_true)]
        exact hcarries
    · obtain ⟨carrier, hcarrier, hcarry⟩ := exists_relay_of_isLive hlive t
      refine ⟨some carrier :: relayed, ?_, ?_⟩
      · rw [mapM_eq_ok] at hrelayed ⊢
        exact .cons hcarrier hrelayed
      · rw [List.filter_cons_of_pos (by rw [hlive.isTombstone]; rfl)]
        exact .cons hcarry hcarries

end Replay
end DocStream
