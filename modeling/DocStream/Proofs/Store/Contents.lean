import DocStream.Proofs.Json.Canonical
import DocStream.Proofs.Store.Writing

/-!
# What is stored of a document

A document is stored with its id and its revision set, and with all else as it was written. So a
stored document is canonical if what was written is, and it says itself whether it is deleted.

* `StoredDocument.Intact` — **what holds of stored documents**, and `Database.Intact.write`;
* `Database.write_new` — a document under a new id is stored behind all others.

The body that is written is changed at two names only, so what depends on other names is as the
writer had it. That includes the mark of deletion, which is read off the body once, when the
document is stored, and kept beside it.
-/

namespace DocStream

namespace OutboundDocument

variable (d : OutboundDocument)

/-- Setting the id does not change whether a document is deleted. -/
theorem isDeleted_setId (id : String) : (d.setId id).isDeleted = d.isDeleted := by
  rw [isDeleted, setId, Members.get?_insert_of_ne _ _ (by decide)]
  rfl

theorem isDeleted_setRev (rev : String) : (d.setRev rev).isDeleted = d.isDeleted := by
  rw [isDeleted, setRev, Members.get?_insert_of_ne _ _ (by decide)]
  rfl

variable {d}

/-- A document that says nothing on it is not deleted: there has to be a member that says so. -/
theorem isDeleted_of_notMem (h : MetadataField.deleted.name ∉ d.body.names) :
    d.isDeleted = false := by
  have habsent : d.body.get? MetadataField.deleted.name = none := lookup_eq_none_of_notMem h
  rw [isDeleted, habsent]
  rfl

theorem canonical_setId (h : d.toJson.Canonical) (id : String) :
    (d.setId id).toJson.Canonical :=
  Json.canonical_insert h trivial

theorem canonical_setRev (h : d.toJson.Canonical) (rev : String) :
    (d.setRev rev).toJson.Canonical :=
  Json.canonical_insert h trivial

end OutboundDocument

/-- **What holds of stored documents**: they are canonical, and say whether they are deleted. -/
structure StoredDocument.Intact (d : StoredDocument) : Prop where
  canonical : (Json.obj d.body).Canonical
  deleted : d.deleted = (OutboundDocument.mk d.body).isDeleted

namespace Database

variable {db : Database} {doc : OutboundDocument}

/-- All documents of the database are as they were written, so that they can be read as documents
again. -/
def Intact (db : Database) : Prop := ∀ {id d}, db.get? id = some d → d.Intact

theorem intact_empty : Intact {} := nofun

/-- **A write of a canonical document** keeps what holds of those that are stored. A write that is
refused stores nothing. -/
theorem Intact.write (h : db.Intact) (hdoc : doc.toJson.Canonical) : (db.write doc).2.Intact := by
  intro id e he
  -- a conflict stores nothing; otherwise only the document of the write is new
  rcases hw : db.write doc with ⟨outcome, db'⟩
  rw [hw] at he
  cases writes hw with
  | conflict refused => exact h he
  | @stored d next rev seq deleted body =>
    rw [get?_store] at he
    split at he
    · obtain rfl := Option.some.inj he
      have hcanonical : ((doc.setId (db.idFor doc)).setRev d.rev).toJson.Canonical :=
        OutboundDocument.canonical_setRev (OutboundDocument.canonical_setId hdoc _) _
      refine ⟨body ▸ hcanonical, ?_⟩
      have hkept : ((doc.setId (db.idFor doc)).setRev d.rev).isDeleted = doc.isDeleted := by
        rw [OutboundDocument.isDeleted_setRev, OutboundDocument.isDeleted_setId]
      rw [deleted, body, ← hkept]
    · exact h he

/-- A document under an id that is not there goes to the end, and no other one is touched. -/
theorem store_of_lookup_eq_none {id : String} (d : StoredDocument)
    {docs : List (String × StoredDocument)} (h : docs.lookup id = none) :
    store id d docs = docs ++ [(id, d)] := by
  induction docs with
  | nil => rfl
  | cons e rest ih =>
    obtain ⟨k, old⟩ := e
    rw [List.lookup_cons] at h
    by_cases hk : id = k
    · rw [hk, beq_self_eq_true] at h
      cases h
    · rw [beq_false_of_ne hk] at h
      rw [store, if_neg (Ne.symm hk), ih h, List.cons_append]

/-- **A document under a new id** is stored behind all others, whatever revision it names. -/
theorem write_new (h : db.get? (db.idFor doc) = none) :
    (db.write doc).1.ok = true ∧
      ∃ d, (db.write doc).2.docs = db.docs ++ [(db.idFor doc, d)] ∧ d.deleted = doc.isDeleted := by
  rcases hw : db.write doc with ⟨outcome, db'⟩
  cases writes hw with
  | conflict refused =>
    rw [h] at refused
    cases refused
  | @stored d next rev seq deleted body =>
    exact ⟨rfl, d, store_of_lookup_eq_none d h, deleted⟩

end Database
end DocStream
