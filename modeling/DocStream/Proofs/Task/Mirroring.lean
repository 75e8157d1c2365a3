import DocStream.Proofs.Task.Relaying
import DocStream.Proofs.Task.Sinking

/-!
# A database that holds the documents of records

The documents of new ids are all written, in order, and none of them fails. So a database that holds
exactly the documents of some records holds, after a write, those of the new records as well.

* `Database.Mirrors` — **one live document for each record**, and no others;
* `SinkTask.exists_put` — **what the sink task does with the records of live documents**.

That none of them fails is due to the ids being new. A document that the database does not have yet
is written whatever revision it names, so the check of revisions never gets in the way. The ids stay
distinct on the way: of what is to be written later, nothing is under the id of what has been
written.
-/

namespace DocStream

/-- **A database mirrors some records**: it holds one document for each, under the record's key and
not deleted, and no others. -/
structure Database.Mirrors (db : Database) (records : List SourceRecord) : Prop where
  ids : db.docs.map Prod.fst = records.map SourceRecord.key
  live : ∀ e ∈ db.docs, e.2.deleted = false

/-- **A live document of a new id** is written, and mirrored behind the others. -/
theorem Database.Mirrors.write {db : Database} {records : List SourceRecord}
    (h : db.Mirrors records) {r : SourceRecord} (hnew : r.key ∉ records.map SourceRecord.key)
    {doc : OutboundDocument} (hid : doc.id? = some r.key) (hlive : doc.isDeleted = false) :
    (db.write doc).1.ok = true ∧ (db.write doc).2.Mirrors (records ++ [r]) := by
  have hfor : db.idFor doc = r.key := by rw [idFor, hid, Option.getD_some]
  -- the database has the ids of the mirrored records and no others
  have habsent : db.get? (db.idFor doc) = none := by
    rw [hfor]
    exact lookup_eq_none_of_notMem (h.ids ▸ hnew)
  obtain ⟨hok, d, hdocs, hdeleted⟩ := write_new habsent
  refine ⟨hok, ?_, fun e he => ?_⟩
  · rw [hdocs, List.map_append, List.map_append, h.ids, hfor]
    rfl
  · rw [hdocs] at he
    rcases List.mem_append.mp he with he | he
    · exact h.live e he
    · rw [List.mem_singleton.mp he]
      exact hdeleted.trans hlive

namespace SinkTask

variable {t : SinkTask}

/-- **A document on its way for a record**: it has the record's key as its id, and does not say that
it is deleted. -/
structure Pending.IsFor (p : Pending) (r : SourceRecord) : Prop where
  id : p.2.id? = some r.key
  live : p.2.isDeleted = false

/-- **Records that carry documents** are all prepared, if their topics are consumed. -/
theorem exists_prepare {records : List SourceRecord} {carriers : List SinkRecord}
    (h : List.Forall₂ t.Carries records carriers)
    (hconsumes : ∀ r ∈ records, t.consumes r.topic = true) (index : Nat) (report : SinkReport) :
    ∃ pending, t.prepare index report carriers = .ok (report, pending) ∧
      List.Forall₂ Pending.IsFor pending records := by
  -- by induction on the records and their carriers side by side
  induction h generalizing index with
  | nil => exact ⟨[], rfl, .nil⟩
  | @cons r carrier rest carriers hcarry _ ih =>
    obtain ⟨pending, hpending, hfor⟩ :=
      ih (fun r hr => hconsumes r (List.mem_cons_of_mem _ hr)) (index + 1)
    obtain ⟨doc, hdoc, hid, hlive⟩ := hcarry.document
    refine ⟨(index, doc) :: pending, ?_, .cons ⟨hid, hlive⟩ hfor⟩
    have hconsumed : ¬(!t.consumes carrier.topic) = true := by
      rw [hcarry.topic, hconsumes r List.mem_cons_self]
      exact Bool.false_ne_true
    rw [prepare, if_neg hconsumed, hdoc]
    exact Outcome.bind_eq_ok.mpr ⟨_, hpending, rfl⟩

/-- **Documents of new ids** are written one after the other, and mirrored behind the others. -/
theorem mirrors_sendAll {database : String} {pending : List Pending} {records : List SourceRecord}
    (h : List.Forall₂ Pending.IsFor pending records) {before : List SourceRecord} {s : MemoryStore}
    (hbefore : (s.databaseOf database).Mirrors before)
    (hdistinct : ((before ++ records).map SourceRecord.key).Nodup) (report : SinkReport) :
    (sendAll database report s pending).1 =
        { report with written := report.written + records.length } ∧
      ((sendAll database report s pending).2.databaseOf database).Mirrors (before ++ records) := by
  -- one document after the other, with the database and the report as the earlier ones left them
  induction h generalizing before s report with
  | nil =>
    rw [List.append_nil]
    exact ⟨rfl, hbefore⟩
  | @cons p r pending records hfor _ ih =>
    rw [List.append_cons] at hdistinct ⊢
    -- the key is new, so the store takes the document whatever revision it names
    have hnew : r.key ∉ before.map SourceRecord.key := by
      rw [List.map_append, List.map_append, List.nodup_append, List.nodup_append] at hdistinct
      exact fun hmem => hdistinct.1.2.2 _ hmem _ List.mem_cons_self rfl
    obtain ⟨hok, hmirrors⟩ := hbefore.write hnew hfor.id hfor.live
    have hafter : ((s.write database p.2).2.databaseOf database).Mirrors (before ++ [r]) := by
      rwa [MemoryStore.databaseOf_write, if_pos rfl]
    have hreport : addOutcome report p (s.write database p.2).1 =
        { report with written := report.written + 1 } := by
      rw [addOutcome]
      exact if_pos hok
    -- the others find a database that mirrors this record too
    obtain ⟨hwritten, hall⟩ := ih hafter hdistinct { report with written := report.written + 1 }
    rw [sendAll, hreport]
    refine ⟨?_, hall⟩
    rw [hwritten, List.length_cons, Nat.add_comm records.length, Nat.add_assoc]

/-- Writing to a database leaves all others as they are. -/
theorem database?_sendAll {database other : String} (h : other ≠ database) (report : SinkReport)
    (s : MemoryStore) (pending : List Pending) :
    (sendAll database report s pending).2.database? other = s.database? other := by
  -- what one write keeps, all of them keep
  refine sendAll_induction (P := fun _ s' => s'.database? other = s.database? other) ?_ rfl pending
  intro _ s' p hs'
  rw [MemoryStore.write, MemoryStore.database?_withDatabase, if_neg h, hs']

/-- **What the sink task does with the records of live documents**: it writes them all, and touches
no other database. -/
theorem exists_put {records : List SourceRecord} {carriers : List SinkRecord}
    (h : List.Forall₂ t.Carries records carriers)
    (hconsumes : ∀ r ∈ records, t.consumes r.topic = true) {before : List SourceRecord}
    {s : MemoryStore} (hbefore : (s.databaseOf t.settings.database).Mirrors before)
    (hdistinct : ((before ++ records).map SourceRecord.key).Nodup) :
    ∃ s', (t.put Replay.writer carriers).run s = (.ok { written := records.length }, s') ∧
      (s'.databaseOf t.settings.database).Mirrors (before ++ records) ∧
      ∀ other ≠ t.settings.database, s'.database? other = s.database? other := by
  obtain ⟨pending, hprepare, hfor⟩ := exists_prepare h hconsumes 0 {}
  -- the records start at the first place and with an empty report
  obtain ⟨hreport, hmirrors⟩ := mirrors_sendAll hfor hbefore hdistinct {}
  refine ⟨_, ?_, hmirrors, fun other hother => database?_sendAll hother {} s pending⟩
  rw [run_put, hprepare]
  dsimp only
  rw [hreport, Nat.zero_add]

end SinkTask
end DocStream
