import DocStream.Proofs.Task.Mirroring
import DocStream.Proofs.Task.Progress

/-!
# What a replay delivers

A replay between two databases reads every document of the source database once, skips those that
cannot be converted, and writes the others, but for the deleted ones, to the sink database. Nothing
else gets there, and nothing on the way fails.

* `Replay.Ready` — **replays for which this holds**;
* `Replay.Delivered` — **the invariant** between what was read, the counts and the sink database;
  `Replay.Delivered.of_rest` and `Replay.Delivered.of_move`, what one poll does to it, and
  `Replay.Ready.exists_run`, where a run ends;
* `Command.replayDocuments_delivers` — **what a replay of documents delivers**.

The invariant is kept by a poll, whatever it reads. A page is always answered and always reported,
its records are all relayed, and since ids are distinct the sink database has none of them yet, so
that every one is written. A poll that rests has read nothing, and a poll that moves takes something
away of what is due; with the bound on polls of `Replay.due` this leads to the end of the run.
-/

namespace DocStream

open Outcome

namespace Replay

/-! ### Replays that deliver -/

/-- **A replay that delivers**: schemas are inferred, documents are read, the sink task consumes the
topic of the source task and writes to another database, and the source database is there, sound and
within the range of positions. -/
structure Ready (r : Replay) : Prop where
  structured : r.source.converter.structured = true
  includeDocs : r.source.settings.includeDocs = true
  batchSize : 0 < r.source.settings.batchSize
  consumes : r.sink.consumes r.source.settings.topic = true
  apart : r.source.settings.database ≠ r.sink.settings.database
  there : r.store.database? r.source.settings.database ≠ none
  sound : r.origin.Sound
  intact : r.origin.Intact
  fits : r.origin.seq < 2 ^ 64

/-- The records made of some documents of the source database, in order: one for each that can be
converted, a tombstone for each that is deleted. -/
def recordsOf (r : Replay) (entries : List (String × StoredDocument)) : List SourceRecord :=
  r.source.recordsOf (entries.map (Database.row r.source.settings.includeDocs))

/-- Those of them that are no tombstones. -/
def liveRecordsOf (r : Replay) (entries : List (String × StoredDocument)) : List SourceRecord :=
  (r.recordsOf entries).filter (!·.isTombstone)

/-- The page of the source database that is read at a position. -/
def nextPage (r : Replay) (position : Nat) : ChangeBatch :=
  r.origin.page position r.source.settings.batchSize r.source.settings.includeDocs

/-- The changes on that page. -/
def nextChanges (r : Replay) (position : Nat) : List (String × StoredDocument) :=
  r.origin.shown position r.source.settings.batchSize

/-- Where that page ends. -/
def nextPosition (r : Replay) (position : Nat) : Nat :=
  r.origin.nextPosition position r.source.settings.batchSize

/-- **The invariant of a replay** that started from another: at a position, some documents of the
source database have been read. -/
structure Delivered (start : Replay) (read : List (String × StoredDocument)) (position : Nat)
    (r : Replay) : Prop where
  source : r.source = { start.source with resume := r.source.resume }
  sink : r.sink = start.sink
  /-- Nothing was written to the source database. -/
  origin : r.store.database? start.source.settings.database =
    start.store.database? start.source.settings.database
  token : MarksPosition r.source.resume position
  reached : position ≤ start.origin.seq
  /-- What was read is what has changed up to the position. -/
  rest : start.origin.changedSince 0 = read ++ start.origin.changedSince position
  records : r.records = (start.recordsOf read).length
  accounted : r.records + r.skipped = read.length
  failed : r.failed = []
  written : r.written = (start.liveRecordsOf read).length
  mirrors : (r.store.databaseOf start.sink.settings.database).Mirrors (start.liveRecordsOf read)

namespace Ready

variable {start : Replay} (ready : start.Ready)
include ready

/-- The ids of changes are distinct. -/
theorem nodup_changes (since : Nat) :
    ((start.origin.changedSince since).map Prod.fst).Nodup := by
  have hperm := (ready.sound.changedSince_spec since).1.map Prod.fst
  refine hperm.nodup_iff.mpr (ready.sound.ids.sublist ?_)
  exact (List.filter_sublist).map _

/-- The keys of all records are distinct. -/
theorem nodup_keys :
    ((start.recordsOf (start.origin.changedSince 0)).map SourceRecord.key).Nodup := by
  refine (ready.nodup_changes 0).sublist ?_
  -- keys are ids of rows, and rows are rows of changes
  have hkeys := start.source.keys_sublist
    ((start.origin.changedSince 0).map (Database.row start.source.settings.includeDocs))
  rw [List.map_map] at hkeys
  exact hkeys

/-- Every record of a change is a tombstone or live. -/
theorem isLive {entries : List (String × StoredDocument)}
    (h : ∀ e ∈ entries, start.origin.get? e.1 = some e.2) {r : SourceRecord}
    (hr : r ∈ start.recordsOf entries) : r.isTombstone = true ∨ ∃ fields, r.IsLive fields := by
  -- a record is made of a row, and a row of a stored document
  obtain ⟨row, hrow, hmakes⟩ := start.source.mem_recordsOf.mp hr
  obtain ⟨e, he, rfl⟩ := List.mem_map.mp hrow
  rw [ready.includeDocs] at hmakes
  exact SourceTask.isLive_of_makes ready.structured (ready.intact (h e he)) hmakes

/-- Every change makes a record or is skipped. -/
theorem length_recordsOf (entries : List (String × StoredDocument)) :
    (start.recordsOf entries).length +
      (entries.map (Database.row start.source.settings.includeDocs)).countP start.source.skips =
    entries.length := by
  rw [recordsOf, start.source.length_recordsOf, List.length_map]
  intro row hrow
  obtain ⟨e, -, rfl⟩ := List.mem_map.mp hrow
  rw [Database.row, if_pos ready.includeDocs]
  exact Option.some_ne_none _

end Ready

/-! ### One poll -/

theorem recordsOf_append (r : Replay) (read more : List (String × StoredDocument)) :
    r.recordsOf (read ++ more) = r.recordsOf read ++ r.recordsOf more := by
  rw [recordsOf, List.map_append, SourceTask.recordsOf_append]
  rfl

theorem liveRecordsOf_append (r : Replay) (read more : List (String × StoredDocument)) :
    r.liveRecordsOf (read ++ more) = r.liveRecordsOf read ++ r.liveRecordsOf more := by
  rw [liveRecordsOf, recordsOf_append, List.filter_append]
  rfl

namespace Delivered

variable {start r : Replay} {read : List (String × StoredDocument)} {position : Nat}

/-- **The source database stays as it is**, since nothing is written to it. -/
theorem origin_eq (h : Delivered start read position r) : r.origin = start.origin := by
  rw [Replay.origin, h.source, MemoryStore.databaseOf, h.origin]
  rfl

theorem fits (ready : start.Ready) (h : Delivered start read position r) : position < 2 ^ 64 :=
  h.reached.trans_lt ready.fits

/-- **The next page is answered**, with the changes that follow. -/
theorem changes_eq (ready : start.Ready) (h : Delivered start read position r) :
    r.store.changes r.source.request = .ok (start.nextPage position) := by
  -- the request names the source database, which is there as it was at the start
  have hthere : r.store.database? r.source.request.database ≠ none := by
    rw [SourceTask.request, h.source]
    exact h.origin.trans_ne ready.there
  have horigin : r.store.databaseOf r.source.request.database = start.origin := h.origin_eq
  rw [MarksPosition.changes_eq (r := r.source.request) h.token hthere (h.fits ready), horigin,
    SourceTask.request, h.source]
  rfl

/-- **The next page is reported**: a record for every change on it, or one more that is skipped. -/
theorem report_eq (h : Delivered start read position r) :
    ∃ report, r.source.report (start.nextPage position) = .ok report ∧
      report.records = start.recordsOf (start.nextChanges position) ∧
      report.skipped = ((start.nextChanges position).map
        (Database.row start.source.settings.includeDocs)).countP start.source.skips := by
  refine ⟨_, r.source.report_eq _, ?_, ?_⟩
  · rw [h.source]
    rfl
  · rw [h.source]
    rfl

/-- **A poll that rests** has nothing left to read, and changes nothing that counts. -/
theorem of_rest (ready : start.Ready) (h : Delivered start read position r)
    (hstays : some (start.nextPage position).lastSeq = r.source.resume) :
    start.origin.changedSince position = [] ∧
      ∃ done, Steps r false done ∧ Delivered start read position done := by
  -- the page ends where it starts, so it is empty
  have hnext : start.nextPosition position = position :=
    h.token.unique (.inr hstays.symm) (h.fits ready)
  have hempty : start.nextChanges position = [] := by
    rcases start.origin.nextPosition_cases position start.source.settings.batchSize with
      ⟨hnil, -⟩ | ⟨last, hmem, hlast⟩
    · exact hnil
    · exact absurd (ready.sound.of_mem_shown hmem).2 (hlast.symm.trans hnext).not_gt
  have hnone : start.origin.changedSince position = [] := by
    rcases List.take_eq_nil_iff.mp hempty with hzero | hnil
    · exact absurd ready.batchSize (by omega)
    · exact hnil
  obtain ⟨report, hreport, -, hskipped⟩ := h.report_eq
  refine ⟨hnone, _, .rest (h.changes_eq ready) hreport hstays, ?_⟩
  -- an empty page is reported without records and without skips
  rw [hempty] at hskipped
  have hzero : report.skipped = 0 := hskipped
  -- all that the poll changed is the token, and it marks the same position as before
  exact {
    source := by rw [polled, h.source]
    sink := h.sink
    origin := h.origin
    token := .inr (congrArg (fun n => some (ResumeToken.mk (toString n))) hnext)
    reached := h.reached
    rest := h.rest
    records := h.records
    accounted := by
      rw [polled, hzero]
      exact h.accounted
    failed := h.failed
    written := h.written
    mirrors := h.mirrors }

/-- What is read on a page has changed between its start and its end. So what was read before and
what is on the page make up all that has changed up to the end of the page. -/
theorem rest_append (ready : start.Ready) (h : Delivered start read position r) :
    start.origin.changedSince 0 = (read ++ start.nextChanges position) ++
      start.origin.changedSince (start.nextPosition position) := by
  rw [nextPosition, ready.sound.changedSince_nextPosition, List.append_assoc, nextChanges,
    Database.shown, List.take_append_drop]
  exact h.rest

/-- **The records of the next page are relayed and written**, behind those written before. -/
theorem exists_put (ready : start.Ready) (h : Delivered start read position r) :
    ∃ relayed store,
      (start.recordsOf (start.nextChanges position)).mapM (relay? start.sink.settings.idHeader) =
        .ok relayed ∧
      (start.sink.put writer (relayed.filterMap id)).run r.store =
        (.ok { written := (start.liveRecordsOf (start.nextChanges position)).length }, store) ∧
      (store.databaseOf start.sink.settings.database).Mirrors
        (start.liveRecordsOf (read ++ start.nextChanges position)) ∧
      ∀ other ≠ start.sink.settings.database, store.database? other = r.store.database? other := by
  have hread : ∀ e ∈ start.nextChanges position, start.origin.get? e.1 = some e.2 :=
    fun e he => (ready.sound.of_mem_shown he).1
  have hconsumes : ∀ r ∈ start.liveRecordsOf (start.nextChanges position),
      start.sink.consumes r.topic = true := by
    intro r hr
    rw [start.source.topic_of_mem_recordsOf (List.mem_of_mem_filter hr)]
    exact ready.consumes
  -- no id changes twice, so no record finds a document of its key
  have hdistinct : ((start.liveRecordsOf read ++
      start.liveRecordsOf (start.nextChanges position)).map SourceRecord.key).Nodup := by
    rw [← liveRecordsOf_append]
    refine ready.nodup_keys.sublist (.map _ ((List.filter_sublist).trans ?_))
    rw [h.rest_append ready, recordsOf_append _ (read ++ start.nextChanges position)]
    exact List.sublist_append_left _ _
  obtain ⟨relayed, hrelayed, hcarries⟩ :=
    exists_relay (fun r hr => ready.isLive hread hr) start.sink
  obtain ⟨store, hput, hmirrors, hothers⟩ :=
    SinkTask.exists_put hcarries hconsumes h.mirrors hdistinct
  rw [← liveRecordsOf, ← liveRecordsOf_append] at hmirrors
  exact ⟨relayed, store, hrelayed, hput, hmirrors, hothers⟩

/-- **A poll that moves** writes what it has read. -/
theorem of_move (ready : start.Ready) (h : Delivered start read position r)
    (hmoves : some (start.nextPage position).lastSeq ≠ r.source.resume) :
    ∃ r', Steps r true r' ∧
      Delivered start (read ++ start.nextChanges position) (start.nextPosition position) r' := by
  obtain ⟨report, hreport, hrecords, hskipped⟩ := h.report_eq
  obtain ⟨relayed, store, hrelayed, hput, hmirrors, hothers⟩ := h.exists_put ready
  have hstep := Steps.move (h.changes_eq ready) hreport hmoves
    (by rw [hrecords, h.sink]; exact hrelayed) (by rw [h.sink]; exact hput)
  refine ⟨_, hstep, ?_⟩
  -- the counts go up by what is on the page, and the database by the live records of it
  exact {
    source := by rw [polled, h.source]
    sink := h.sink
    origin := (hothers _ ready.apart).trans h.origin
    token := .inr rfl
    reached := ready.sound.nextPosition_le h.reached
    rest := h.rest_append ready
    records := by rw [recordsOf_append, List.length_append, ← h.records, ← hrecords]
    accounted := by
      have hpage := ready.length_recordsOf (start.nextChanges position)
      rw [← hrecords, ← hskipped] at hpage
      rw [List.length_append, ← hpage, ← h.accounted]
      exact Nat.add_add_add_comm _ _ _ _
    failed := by
      rw [h.failed]
      rfl
    written := by rw [liveRecordsOf_append, List.length_append, ← h.written]
    mirrors := hmirrors }

/-- Nothing comes back from another database. -/
theorem fedBack_eq_zero (ready : start.Ready) (h : Delivered start read position r) :
    r.fedBack = 0 := by
  rw [fedBack, h.source, h.sink, if_neg ready.apart]

/-! ### Runs -/

/-- **Polls go on until everything has been read.** -/
theorem exists_moves (ready : start.Ready) (h : Delivered start read position r) :
    ∃ polls r' position' done, Moves polls r r' ∧ Steps r' false done ∧
      Delivered start (start.origin.changedSince 0) position' done := by
  -- by strong induction on what is due, which every poll that moves makes less
  induction hdue : r.due position using Nat.strongRecOn generalizing r read position with
  | ind due ih =>
    subst hdue
    by_cases hstays : some (start.nextPage position).lastSeq = r.source.resume
    · obtain ⟨hnone, done, hlast, hdone⟩ := h.of_rest ready hstays
      have hall := h.rest
      rw [hnone, List.append_nil] at hall
      exact ⟨0, r, position, done, .zero r, hlast, hall ▸ hdone⟩
    · obtain ⟨r₁, hfirst, hr₁⟩ := h.of_move ready hstays
      -- what the move takes away is gone at the position where it ends
      have hat : At r position := ⟨h.origin_eq ▸ ready.sound, h.token⟩
      obtain ⟨next', hat', hless⟩ := hfirst.due_le hat
      rw [h.fedBack_eq_zero ready, hr₁.fedBack_eq_zero ready,
        hr₁.token.unique hat'.token (hr₁.fits ready)] at hless
      obtain ⟨polls, r', position', done, hmoves, hlast, hdone⟩ :=
        ih _ (by omega) hr₁ rfl
      exact ⟨polls + 1, r', position', done, .succ hfirst hmoves, hlast, hdone⟩

end Delivered

/-- **Where a run ends**: everything has been read, after at most as many moves as were due. -/
theorem Ready.exists_run {start : Replay} (ready : start.Ready)
    (h : Delivered start [] 0 start) {polls : Nat} (hpolls : start.due 0 < polls) :
    ∃ position done, run polls start = .ok (some done) ∧
      Delivered start (start.origin.changedSince 0) position done := by
  obtain ⟨n, r', position, done, hmoves, hlast, hdone⟩ := h.exists_moves ready
  -- between two databases every move takes something away of what was due
  obtain ⟨next, -, hle⟩ := hmoves.due_le ⟨ready.sound, h.token⟩
  have hapart : r'.fedBack = 0 := by
    rw [fedBack, hmoves.settings.1, hmoves.settings.2, if_neg ready.apart]
  refine ⟨position, done, run_eq_some.mpr ⟨n, ?_, r', hmoves, hlast⟩, hdone⟩
  omega

/-! ### Documents loaded -/

/-- **Loading canonical documents** leaves a database of intact documents, with a number spent on
each. -/
theorem contents_loadAll (database : String) {s : MemoryStore}
    (h : (s.databaseOf database).Intact) (loaded : Nat) {bodies : List Members}
    (hbodies : ∀ body ∈ bodies, (Json.obj body).Canonical) :
    let s' := (loadAll database s loaded bodies).1
    (s'.databaseOf database).Intact ∧
      (s'.databaseOf database).seq = (s.databaseOf database).seq + bodies.length ∧
      (s.database? database ≠ none ∨ bodies ≠ [] → s'.database? database ≠ none) ∧
      ∀ other ≠ database, s'.database? other = s.database? other := by
  induction bodies generalizing s loaded with
  | nil =>
    refine ⟨h, rfl, fun hthere => hthere.resolve_right (absurd rfl), fun _ _ => rfl⟩
  | cons body rest ih =>
    -- each document is put into the database that the one before left
    have hafter := s.databaseOf_put database body
    have hput : (s.put database body).2 = s.withDatabase database _ := rfl
    obtain ⟨hintact, hseq, hthere, hothers⟩ := ih (s := (s.put database body).2)
      (hafter ▸ h.write (hbodies body List.mem_cons_self))
      (if (s.put database body).1.ok then loaded + 1 else loaded)
      fun b hb => hbodies b (List.mem_cons_of_mem _ hb)
    refine ⟨hintact, ?_, fun _ => hthere (.inl ?_), fun other hother => ?_⟩
    · rw [loadAll, hseq, hafter, Database.seq_write, List.length_cons]
      omega
    · rw [hput, MemoryStore.database?_withDatabase, if_pos rfl]
      exact Option.some_ne_none _
    · refine (hothers other hother).trans ?_
      rw [hput, MemoryStore.database?_withDatabase, if_neg hother]

/-- **A replay of canonical documents is ready**, and nothing has been read. -/
theorem ready_started {c : Config} {source : SourceSettings} {sink : SinkSettings}
    (hbatch : 0 < source.batchSize) (hstructured : c.converter.structured = true)
    (hdocs : source.includeDocs = true) (hapart : source.database ≠ sink.database)
    (hconsumes : (SinkTask.mk sink).consumes source.topic = true) {bodies : List Members}
    (hne : bodies ≠ []) (hfits : bodies.length < 2 ^ 64)
    (hbodies : ∀ body ∈ bodies, (Json.obj body).Canonical) :
    (started c source sink bodies).Ready ∧
      Delivered (started c source sink bodies) [] 0 (started c source sink bodies) := by
  obtain ⟨hat, -⟩ := at_started c source sink bodies
  obtain ⟨hintact, hseq, hthere, hothers⟩ :=
    contents_loadAll source.database (s := {}) Database.intact_empty 0 hbodies
  have hempty : (started c source sink bodies).store.databaseOf sink.database = {} := by
    rw [MemoryStore.databaseOf]
    exact congrArg (·.getD {}) (hothers sink.database hapart.symm)
  have hseq : (started c source sink bodies).origin.seq = bodies.length :=
    hseq.trans (Nat.zero_add _)
  constructor
  · exact {
      structured := hstructured
      includeDocs := hdocs
      batchSize := hbatch
      consumes := hconsumes
      apart := hapart
      there := hthere (.inr hne)
      sound := hat.sound
      intact := hintact
      fits := hseq.trans_lt hfits }
  · exact {
      source := rfl
      sink := rfl
      origin := rfl
      token := hat.token
      reached := Nat.zero_le _
      rest := rfl
      records := rfl
      accounted := rfl
      failed := rfl
      written := rfl
      mirrors := ⟨congrArg (·.docs.map Prod.fst) hempty, fun e he => by
        rw [show (started c source sink bodies).sink.settings.database = sink.database from rfl,
          hempty] at he
        cases he⟩ }

end Replay

/-- The source task of a valid configuration moves on. -/
theorem Config.batchSize_pos {c : Config} {source : SourceSettings} (h : c.validate = .ok ())
    (hsource : c.source = some source) : 0 < source.batchSize := by
  rw [validate, hsource] at h
  obtain ⟨_, -, h⟩ := bind_eq_ok.mp h
  dsimp only at h
  obtain ⟨_, hvalid, -⟩ := bind_eq_ok.mp h
  obtain ⟨_, -, hvalid⟩ := bind_eq_ok.mp hvalid
  obtain ⟨_, -, hvalid⟩ := bind_eq_ok.mp hvalid
  rw [requirePositive] at hvalid
  split at hvalid
  · cases hvalid
  · next hzero => exact Nat.pos_of_ne_zero hzero

namespace Command

/-- **What a replay delivers.** Given a valid configuration that infers schemas, reads documents and
writes them to another database, any documents can be replayed, as long as their number fits. Let
the source task report the whole source database at once. Every id that is stored there leads to one
of its records or is skipped; nothing fails; the records that are no tombstones are all written; and
in the end the sink database holds one live document under the key of each of these, and no others.
-/
theorem replayDocuments_delivers {c : Config} {source : SourceSettings} {sink : SinkSettings}
    (hvalid : c.validate = .ok ()) (hsource : c.source = some source)
    (hstructured : c.converter.structured = true) (hdocs : source.includeDocs = true)
    (hapart : source.database ≠ sink.database)
    (hconsumes : (SinkTask.mk sink).consumes source.topic = true) {bodies : List Members}
    (hne : bodies ≠ []) (hfits : bodies.length < 2 ^ 64)
    (hbodies : ∀ body ∈ bodies, (Json.obj body).Canonical) :
    let start := Replay.started c source sink bodies
    let stored := start.store.databaseOf source.database
    ∃ report done,
      start.source.report (stored.page 0 stored.docs.length source.includeDocs) = .ok report ∧
      start.run (pollBound (bodies.map .obj)) = .ok (some done) ∧
      replayDocuments c source sink (bodies.map .obj) = .ok done.toJson ∧
      done.store.databaseOf source.database = stored ∧
      (stored.docs.map Prod.fst).Nodup ∧
      done.records + done.skipped = stored.docs.length ∧
      done.records = report.records.length ∧
      done.failed = [] ∧
      done.written = (report.records.filter (!·.isTombstone)).length ∧
      ((report.records.filter (!·.isTombstone)).map SourceRecord.key).Nodup ∧
      (done.store.databaseOf sink.database).Mirrors (report.records.filter (!·.isTombstone)) := by
  intro start stored
  obtain ⟨ready, hstart⟩ := Replay.ready_started (Config.batchSize_pos hvalid hsource) hstructured
    hdocs hapart hconsumes hne hfits hbodies
  have hdue : start.due 0 < pollBound (bodies.map .obj) :=
    lt_of_le_of_lt (Replay.at_started c source sink bodies).2 (lt_pollBound bodies)
  obtain ⟨position, done, hrun, hdone⟩ := ready.exists_run hstart hdue
  -- every document has changed since the start, and fits on one page
  have hchanges : (stored.changedSince 0).length = stored.docs.length :=
    ready.sound.length_changedSince_zero
  have hpage : (stored.page 0 stored.docs.length source.includeDocs).rows =
      (stored.changedSince 0).map (Database.row source.includeDocs) := by
    rw [Database.page_eq, Database.shown, List.take_of_length_le hchanges.le]
  refine ⟨_, done, start.source.report_eq _, hrun, ?_, ?_, ready.sound.ids, ?_, ?_, hdone.failed,
    ?_, ?_, ?_⟩
  · rw [replayDocuments, Replay.load_objs]
    exact bind_eq_ok.mpr ⟨_, rfl, bind_eq_ok.mpr ⟨some done, hrun, rfl⟩⟩
  · rw [MemoryStore.databaseOf]
    exact congrArg (·.getD {}) hdone.origin
  · rw [hdone.accounted]
    exact hchanges
  · rw [hpage]
    exact hdone.records
  · rw [hpage]
    exact hdone.written
  · rw [hpage]
    exact ready.nodup_keys.sublist (.map _ List.filter_sublist)
  · rw [hpage]
    exact hdone.mirrors

/-- Settings that mirror one database in another, flattened, two changes at a time. -/
def mirrorConfig : Config :=
  { converter := { flatten := true }
    source := some { database := "orders", topic := "t", batchSize := 2 }
    sink := some { database := "mirror", topics := ["t"] } }

/-- A document, a conflict, a deleted document, one that meets a path twice, and one without an id.
-/
def mirrorBodies : List Members :=
  [[("_id", .str "a"), ("n", .num (.ofInt 300))], [("_id", .str "a")],
    [("_deleted", .bool true), ("_id", .str "b")],
    [("_id", .str "c"), ("x", .obj [("y", .null)]), ("x.y", .null)],
    [("_deleted", .bool false), ("n", .num (.ofInt 7))]]

/-- These documents make three records, one of them a tombstone, and one is skipped. -/
theorem replayDocuments_delivers_mirrored :
    let c := mirrorConfig
    let source : SourceSettings := { database := "orders", topic := "t", batchSize := 2 }
    let sink : SinkSettings := { database := "mirror", topics := ["t"] }
    let start := Replay.started c source sink mirrorBodies
    let stored := start.store.databaseOf source.database
    c.validate = .ok () ∧ c.source = some source ∧ c.sink = some sink ∧
    c.converter.structured = true ∧ source.includeDocs = true ∧ source.database ≠ sink.database ∧
    (SinkTask.mk sink).consumes source.topic = true ∧ mirrorBodies ≠ [] ∧
    mirrorBodies.length < 2 ^ 64 ∧ (∀ body ∈ mirrorBodies, (Json.obj body).Canonical) ∧
    ∃ report done,
      start.source.report (stored.page 0 stored.docs.length source.includeDocs) = .ok report ∧
      start.run (pollBound (mirrorBodies.map .obj)) = .ok (some done) ∧
      replayDocuments c source sink (mirrorBodies.map .obj) = .ok done.toJson ∧
      done.records = 3 ∧ done.skipped = 1 ∧ done.written = 2 ∧ done.failed = [] ∧
      done.written = (report.records.filter (!·.isTombstone)).length ∧
      (done.store.databaseOf sink.database).Mirrors (report.records.filter (!·.isTombstone)) := by
  intro c source sink start stored
  have hbodies : ∀ body ∈ mirrorBodies, (Json.obj body).Canonical := by decide +kernel
  have hconsumes : (SinkTask.mk sink).consumes source.topic = true := by decide
  have hapart : source.database ≠ sink.database := by decide
  have hne : mirrorBodies ≠ [] := List.cons_ne_nil _ _
  have hfits : mirrorBodies.length < 2 ^ 64 := by decide
  obtain ⟨report, done, hreport, hrun, hreplay, -, -, -, -, hfailed, hwritten, -, hmirrors⟩ :=
    replayDocuments_delivers (c := c) rfl rfl rfl rfl hapart hconsumes hne hfits hbodies
  have hcounts : ((start.run (pollBound (mirrorBodies.map .obj))).toOption.join.map
      fun done => (done.records, done.skipped, done.written)) = some (3, 1, 2) := by
    decide +kernel
  rw [hrun] at hcounts
  obtain ⟨hr, hs, hw⟩ : done.records = 3 ∧ done.skipped = 1 ∧ done.written = 2 := by
    simpa [Except.toOption] using hcounts
  exact ⟨rfl, rfl, rfl, rfl, rfl, hapart, hconsumes, hne, hfits, hbodies, report, done, hreport,
    hrun, hreplay, hr, hs, hw, hfailed, hwritten, hmirrors⟩

end Command
end DocStream
