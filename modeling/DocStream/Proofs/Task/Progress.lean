import DocStream.Command.Run
import DocStream.Proofs.Store.Following
import DocStream.Proofs.Task.Sinking

/-!
# How long a replay goes on

A replay polls until the position of its source task stays where it was. Every poll that moves the
position takes something away from what is still to be read; only what the sink task writes to the
same database adds to it. So a replay between two databases ends after at most one poll more than
there are documents. In a single database every record comes back as a change, and goes on to be
read and written until the sequence numbers do not fit any more.

* `Replay.step_eq_ok` — **what a step can do**;
* `Replay.run_eq_none`, `Replay.run_eq_some` — runs as sequences of moves;
* `Replay.At` — a replay at a position, and `Replay.Steps.due_le`, **what a move takes away**;
* `Replay.polls_le_of_moves` — **the length of a replay**, and `Replay.endless_of_shared`, one that
  goes on.

The measure is `Replay.due`: the changes after the position, and one more as long as there is no
position, because the first poll moves even in an empty database. A page takes away from it what it
shows. A write adds at most one change, and only where source and sink share a database, so
`Replay.fedBack` is kept on the other side of the inequality. Induction over the moves then adds
these inequalities up.

That a replay in a single database goes on is shown by an invariant: after every move the store
holds the one document again, with a revision and a sequence number that are larger by one, and the
position is the one before it.
-/

namespace DocStream

namespace Replay

/-! ### Steps -/

/-- The replay once a page has been read: the source task stands where the page ends, and the
documents that could not be converted are counted. -/
def polled (r : Replay) (batch : ChangeBatch) (report : PollReport) : Replay :=
  { r with
    source := { r.source with resume := some batch.lastSeq }
    skipped := r.skipped + report.skipped }

/-- **What a step can do**, with everything that it depends on: the page that was found, the report
on it, and what became of the records. -/
inductive Steps (r : Replay) : Bool → Replay → Prop where
  /-- The position stays where it was, and nothing is written. -/
  | rest {batch : ChangeBatch} {report : PollReport}
      (page : r.store.changes r.source.request = .ok batch)
      (read : r.source.report batch = .ok report)
      (stays : some batch.lastSeq = r.source.resume) :
      Steps r false (r.polled batch report)
  /-- The position moves, and what has been read is written. -/
  | move {batch : ChangeBatch} {report : PollReport} {relayed : List (Option SinkRecord)}
      {sunk : SinkReport} {store : MemoryStore}
      (page : r.store.changes r.source.request = .ok batch)
      (read : r.source.report batch = .ok report)
      (moves : some batch.lastSeq ≠ r.source.resume)
      (relay : report.records.mapM (relay? r.sink.settings.idHeader) = .ok relayed)
      (sink : (r.sink.put writer (relayed.filterMap id)).run r.store = (.ok sunk, store)) :
      Steps r true { r.polled batch report with
        store
        records := r.records + report.records.length
        written := r.written + sunk.written
        failed := r.failed ++ sunk.failed }

/-- A poll of the store in memory changes nothing there: the store is the same before and after it.
-/
theorem run_poll (r : Replay) :
    (r.source.poll feed).run r.store =
      (r.source.absorb (r.store.changes r.source.request), r.store) := rfl

/-- A step once its page has been read: the poll has succeeded, and what is left to do depends on
whether the position has moved. -/
theorem step_of_report {r : Replay} {batch : ChangeBatch} {report : PollReport}
    (page : r.store.changes r.source.request = .ok batch)
    (read : r.source.report batch = .ok report) :
    r.step =
      if some batch.lastSeq = r.source.resume then .ok (false, r.polled batch report)
      else do
        let relayed ← report.records.mapM (relay? r.sink.settings.idHeader)
        let (sunk, store) := (r.sink.put writer (relayed.filterMap id)).run r.store
        let sunk ← sunk
        return (true, { r.polled batch report with
          store
          records := r.records + report.records.length
          written := r.written + sunk.written
          failed := r.failed ++ sunk.failed }) := by
  rw [step, run_poll, SourceTask.absorb.eq_def, page]
  dsimp only
  rw [read]
  rfl

/-- **A step does one of the two.** Whatever is said of steps, and by induction of runs, is said by
cases on these. -/
theorem step_eq_ok {r r' : Replay} {moved : Bool} :
    r.step = .ok (moved, r') ↔ Steps r moved r' := by
  constructor
  · intro h
    -- a step that has not failed has found a page and has read it
    obtain ⟨batch, report, page, read⟩ : ∃ batch report,
        r.store.changes r.source.request = .ok batch ∧ r.source.report batch = .ok report := by
      rw [step, run_poll, SourceTask.absorb.eq_def] at h
      cases hpage : r.store.changes r.source.request with
      | error e =>
        rw [hpage] at h
        cases h
      | ok batch =>
        rw [hpage] at h
        dsimp only at h
        cases hread : r.source.report batch with
        | error e =>
          rw [hread] at h
          cases h
        | ok report => exact ⟨batch, report, rfl, hread⟩
    rw [step_of_report page read] at h
    split at h
    · next hstays =>
      obtain ⟨rfl, rfl⟩ := Prod.mk.inj (Except.ok.inj h)
      exact .rest page read hstays
    · next hmoves =>
      obtain ⟨relayed, hrelay, h⟩ := Outcome.bind_eq_ok.mp h
      obtain ⟨sunk, hsunk, h⟩ := Outcome.bind_eq_ok.mp h
      obtain ⟨rfl, rfl⟩ := Prod.mk.inj (Except.ok.inj h)
      exact .move page read hmoves hrelay (Prod.ext hsunk rfl)
  · intro h
    cases h with
    | rest page read stays => rw [step_of_report page read, if_pos stays]
    | move page read moves relay sink =>
      rw [step_of_report page read, if_neg moves]
      refine Outcome.bind_eq_ok.mpr ⟨_, relay, ?_⟩
      simp only [sink]
      rfl

/-! ### Runs -/

/-- **Some moves**, one after the other. -/
inductive Moves : (polls : Nat) → Replay → Replay → Prop where
  | zero (r : Replay) : Moves 0 r r
  | succ {polls : Nat} {r r' r'' : Replay} (first : Steps r true r') (others : Moves polls r' r'') :
      Moves (polls + 1) r r''

/-- Moves leave the settings of both tasks as they are, so the databases that are read and written
are those of the start. -/
theorem Moves.settings {polls : Nat} {r r' : Replay} (h : Moves polls r r') :
    r'.source.settings = r.source.settings ∧ r'.sink = r.sink := by
  induction h with
  | zero r => exact ⟨rfl, rfl⟩
  | succ first others ih =>
    cases first with
    | move => exact ih

/-- **A run that does not end** within some polls consists of so many moves. -/
theorem run_eq_none {polls : Nat} {r : Replay} :
    run polls r = .ok none ↔ ∃ r', Moves polls r r' := by
  -- on the number of polls, which the run counts down
  induction polls generalizing r with
  | zero => exact ⟨fun _ => ⟨r, .zero r⟩, fun _ => rfl⟩
  | succ polls ih =>
    rw [run, Outcome.bind_eq_ok]
    constructor
    · rintro ⟨⟨moved, r'⟩, hstep, h⟩
      cases moved with
      | false => exact nomatch h
      | true =>
        obtain ⟨r'', hrest⟩ := ih.mp h
        exact ⟨r'', .succ (step_eq_ok.mp hstep) hrest⟩
    · rintro ⟨r'', h⟩
      cases h with
      | succ first others => exact ⟨(true, _), step_eq_ok.mpr first, ih.mpr ⟨r'', others⟩⟩

/-- **A run that ends** consists of moves and a step that rests. -/
theorem run_eq_some {polls : Nat} {r done : Replay} :
    run polls r = .ok (some done) ↔ ∃ n < polls, ∃ r', Moves n r r' ∧ Steps r' false done := by
  -- on the number of polls, which the run counts down
  induction polls generalizing r with
  | zero =>
    refine ⟨nofun, ?_⟩
    rintro ⟨n, hn, -⟩
    exact absurd hn (Nat.not_lt_zero n)
  | succ polls ih =>
    rw [run, Outcome.bind_eq_ok]
    constructor
    · rintro ⟨⟨moved, r'⟩, hstep, h⟩
      cases moved with
      | false =>
        obtain rfl := Option.some.inj (Except.ok.inj h)
        -- the first step rests, and nothing has moved before it
        exact ⟨0, Nat.succ_pos polls, r, .zero r, step_eq_ok.mp hstep⟩
      | true =>
        obtain ⟨n, hn, r'', hmoves, hlast⟩ := ih.mp h
        exact ⟨n + 1, Nat.succ_lt_succ hn, r'', .succ (step_eq_ok.mp hstep) hmoves, hlast⟩
    · rintro ⟨n, hn, r', hmoves, hlast⟩
      cases hmoves with
      | zero => exact ⟨(false, done), step_eq_ok.mpr hlast, rfl⟩
      | @succ n _ _ _ first others =>
        exact ⟨(true, _), step_eq_ok.mpr first,
          ih.mpr ⟨n, Nat.lt_of_succ_lt_succ hn, r', others, hlast⟩⟩

/-! ### What is still to be read -/

/-- The database that is read, which is empty as long as nothing has been written there. -/
def origin (r : Replay) : Database := r.store.databaseOf r.source.settings.database

/-- **A replay at a position** of the database that it reads: what is stored there is sound, and the
token of the source task marks the position. -/
structure At (r : Replay) (position : Nat) : Prop where
  sound : r.origin.Sound
  token : MarksPosition r.source.resume position

/-- **What is due**: the changes that have not been read, and the first poll, which always moves. -/
def due (r : Replay) (position : Nat) : Nat :=
  (r.origin.changedSince position).length + r.source.resume.elim 1 fun _ => 0

/-- How many writes have come back as changes: all of them in a single database. -/
def fedBack (r : Replay) : Nat :=
  if r.source.settings.database = r.sink.settings.database then r.written else 0

/-- A page that moves the position takes something away from what is due: the documents that it
shows, or the first poll. -/
theorem due_of_page {r : Replay} {position : Nat} {batch : ChangeBatch} (h : At r position)
    (page : r.store.changes r.source.request = .ok batch)
    (moves : some batch.lastSeq ≠ r.source.resume) :
    ∃ next, MarksPosition (some batch.lastSeq) next ∧
      (r.origin.changedSince next).length + 1 ≤ r.due position := by
  have hpage := MarksPosition.changes_eq_ok (r := r.source.request) h.token page
  rw [Database.page_eq] at hpage
  set next := r.origin.nextPosition position r.source.settings.batchSize with hnext
  have hlast : batch.lastSeq = ⟨toString next⟩ := congrArg ChangeBatch.lastSeq hpage
  refine ⟨next, .inr (congrArg some hlast), ?_⟩
  -- what is left after a page is what was there without the documents shown
  rw [due, hnext, h.sound.changedSince_nextPosition, List.length_drop]
  rcases h.token with ⟨hnone, -⟩ | hsome
  · -- the first poll is taken away, whatever the page shows
    rw [hnone, Option.elim_none]
    omega
  · -- the page is not empty, else it would end where it starts
    rw [hsome, Option.elim_some]
    rcases r.origin.nextPosition_cases position r.source.settings.batchSize with
      ⟨-, heq⟩ | ⟨last, hmem, -⟩
    · refine absurd ?_ moves
      rw [hlast, hsome, hnext, heq]
    · have hpos := List.length_pos_of_mem hmem
      rw [Database.shown, List.length_take] at hpos
      omega

/-- What the sink task writes adds at most one change a document, and none to another database. -/
theorem changes_of_sink {t : SinkTask} {records : List SinkRecord} {s s' : MemoryStore}
    {sunk : SinkReport} {name : String} (h : (s.databaseOf name).Sound)
    (sink : (t.put writer records).run s = (.ok sunk, s')) (position : Nat) :
    (s'.databaseOf name).Sound ∧
      ((s'.databaseOf name).changedSince position).length ≤
        ((s.databaseOf name).changedSince position).length +
          if name = t.settings.database then sunk.written else 0 := by
  obtain ⟨report, pending, hprepare, hsend⟩ := t.run_put_eq_ok sink
  -- the invariant of the writes, in terms of the report so far and the store so far
  let P : SinkReport → MemoryStore → Prop := fun report s' =>
    (s'.databaseOf name).Sound ∧
      ((s'.databaseOf name).changedSince position).length ≤
        ((s.databaseOf name).changedSince position).length +
          if name = t.settings.database then report.written else 0
  have hstart : P report s := ⟨h, Nat.le_add_right _ _⟩
  have hwrite : ∀ report s p, P report s →
      P (SinkTask.addOutcome report p (s.write t.settings.database p.2).1)
        (s.write t.settings.database p.2).2 := by
    rintro report s p ⟨hsound, hle⟩
    change (MemoryStore.databaseOf _ name).Sound ∧ (Database.changedSince _ position).length ≤
      _ + if _ then (SinkTask.addOutcome _ _ _).written else 0
    rw [MemoryStore.databaseOf_write, SinkTask.written_addOutcome]
    by_cases hname : name = t.settings.database
    · -- the database itself is written, and the write counts at most once
      rw [if_pos hname] at hle ⊢
      rw [if_pos hname, ← hname]
      have hone := hsound.length_changedSince_write p.2 position
      exact ⟨hsound.write p.2, by rw [MemoryStore.write]; dsimp only; omega⟩
    · -- another database is written, which changes nothing here
      rw [if_neg hname] at hle ⊢
      rw [if_neg hname]
      exact ⟨hsound, hle⟩
  have hend := SinkTask.sendAll_induction hwrite hstart pending
  rw [hsend] at hend
  exact hend

/-- **What a move takes away** of what is due. -/
theorem Steps.due_le {r r' : Replay} {position : Nat} (h : Steps r true r') (hat : At r position) :
    ∃ next, At r' next ∧ r'.due next + 1 + r.fedBack ≤ r.due position + r'.fedBack := by
  cases h with
  | @move batch report relayed sunk store page read moves relay sink =>
    obtain ⟨next, htoken, hdue⟩ := due_of_page hat page moves
    obtain ⟨hsound, hle⟩ := changes_of_sink hat.sound sink next
    refine ⟨next, ⟨hsound, htoken⟩, ?_⟩
    -- what is due after the move is counted in the store that the sink task has written
    change (r.origin.changedSince next).length + 1 ≤ _ at hdue
    change ((store.databaseOf r.source.settings.database).changedSince next).length + 0 + 1 +
        r.fedBack ≤
      r.due position + if r.source.settings.database = r.sink.settings.database then
        r.written + sunk.written else 0
    rw [fedBack]
    change _ ≤ (r.origin.changedSince next).length + _ at hle
    by_cases hname : r.source.settings.database = r.sink.settings.database
    · rw [if_pos hname] at hle ⊢
      rw [if_pos hname]
      omega
    · rw [if_neg hname] at hle ⊢
      rw [if_neg hname]
      omega

/-- **What moves take away** of what is due, one each; the writes that came back are added on the
other side. -/
theorem Moves.due_le {polls : Nat} {r r' : Replay} {position : Nat} (h : Moves polls r r')
    (hat : At r position) :
    ∃ next, At r' next ∧ r'.due next + polls + r.fedBack ≤ r.due position + r'.fedBack := by
  -- on the moves: each starts at the position where the one before it ends
  induction h generalizing position with
  | zero r => exact ⟨position, hat, Nat.le_refl _⟩
  | succ first others ih =>
    obtain ⟨next, hnext, hle⟩ := first.due_le hat
    obtain ⟨last, hlast, hle'⟩ := ih hnext
    exact ⟨last, hlast, by omega⟩

/-! ### Documents loaded -/

/-- Documents put into a database one by one, and those counted that did not conflict. -/
def loadAll (database : String) : MemoryStore → (loaded : Nat) → List Members → MemoryStore × Nat
  | s, loaded, [] => (s, loaded)
  | s, loaded, body :: rest =>
    loadAll database (s.put database body).2
      (if (s.put database body).1.ok then loaded + 1 else loaded) rest

/-- **Objects can always be loaded.** -/
theorem load_objs (database : String) (s : MemoryStore) (loaded : Nat) (bodies : List Members) :
    load database s loaded (bodies.map .obj) = .ok (loadAll database s loaded bodies) := by
  -- the store and the count are those of the documents loaded before
  induction bodies generalizing s loaded with
  | nil => rfl
  | cons body rest ih => exact ih _ _

/-- **A replay of documents**, once they are loaded. -/
def started (c : Config) (source : SourceSettings) (sink : SinkSettings) (bodies : List Members) :
    Replay :=
  { store := (loadAll source.database {} 0 bodies).1
    loaded := (loadAll source.database {} 0 bodies).2
    source := { settings := source, converter := c.converter }
    sink := ⟨sink⟩ }

/-- Loading leaves a sound database, with at most one change more for each document. -/
theorem sound_loadAll (database : String) {s : MemoryStore} (h : (s.databaseOf database).Sound)
    (loaded : Nat) (bodies : List Members) :
    let s' := (loadAll database s loaded bodies).1
    (s'.databaseOf database).Sound ∧
      ((s'.databaseOf database).changedSince 0).length ≤
        ((s.databaseOf database).changedSince 0).length + bodies.length := by
  induction bodies generalizing s loaded with
  | nil => exact ⟨h, Nat.le_refl _⟩
  | cons body rest ih =>
    have hafter := s.databaseOf_put database body
    have hone := h.length_changedSince_write (.ofMembers body none) 0
    obtain ⟨hsound, hle⟩ := ih (s := (s.put database body).2) (hafter ▸ h.write _)
      (if (s.put database body).1.ok then loaded + 1 else loaded)
    refine ⟨hsound, hle.trans ?_⟩
    rw [hafter, List.length_cons]
    -- a document that conflicts adds no change
    split at hone <;> omega

/-- A replay of documents that were loaded stands at the start of the database, and there is no more
due than one poll for each of them and the first. -/
theorem at_started (c : Config) (source : SourceSettings) (sink : SinkSettings)
    (bodies : List Members) :
    At (started c source sink bodies) 0 ∧
      (started c source sink bodies).due 0 ≤ bodies.length + 1 := by
  obtain ⟨hsound, hle⟩ :=
    sound_loadAll source.database (s := {}) Database.sound_empty 0 bodies
  have hempty : ((({} : MemoryStore).databaseOf source.database).changedSince 0).length = 0 := rfl
  rw [hempty, Nat.zero_add] at hle
  exact ⟨⟨hsound, .inl ⟨rfl, rfl⟩⟩, Nat.succ_le_succ hle⟩

/-! ### A single database -/

/-- A source task's settings, for a database that is also written. -/
def sharedSource : SourceSettings := { database := "db", topic := "t" }

/-- A sink task's settings, for the same database. -/
def sharedSink : SinkSettings := { database := "db" }

/-- Settings of a replay whose source and sink share a database. They are valid: nothing asks for
two databases. -/
def sharedConfig : Config := { source := some sharedSource, sink := some sharedSink }

/-- The body of a document that has nothing but an id and a revision. It is the only one stored, and
only its revision changes from move to move. -/
def circlingBody (rev : String) : Members := [("_id", .str "a"), ("_rev", .str rev)]

/-- The schema of such a body, whatever the revision is. -/
def circlingSchema : Schema :=
  .struct [("_id", .leaf .string true), ("_rev", .leaf .string true)] false

/-- The value of such a body under that schema. -/
def circlingValue (rev : String) : Value :=
  .record [(("_id", .leaf .string true), .string "a"), (("_rev", .leaf .string true), .string rev)]
    false

/-- The record that the source task makes of such a document. -/
def circlingRecord (rev : String) (offset : ResumeToken) : SourceRecord :=
  { topic := "t", key := "a", schema := some circlingSchema, value := circlingValue rev, offset }

/-- The record that reaches the sink task: it names the document in a header, as well as in its key.
-/
def circlingSinkRecord (rev : String) : SinkRecord :=
  { topic := "t", key := some "a", schema := some circlingSchema, value := circlingValue rev,
    headers := [("couchdb.id", "a")] }

/-- The slots stand in the order of their names already. Sorting compares strings, so it is not left
to the evaluation that does the rest. -/
theorem convert_circling (rev : String) :
    ({} : ConversionSettings).convert (.obj (circlingBody rev)) =
      .ok (.structured circlingSchema (circlingValue rev)) := by
  let slots : List Slot :=
    [(("_id", .leaf .string true), .string "a"), (("_rev", .leaf .string true), .string rev)]
  have hslots : Json.nestMembers 64 1 [] (circlingBody rev) = .ok slots := rfl
  have hsorted : NameOrder.sort (fun slot : Slot => slot.1.1) slots = slots := by
    apply NameOrder.sort_of_ascending
    unfold StrictlyAscending
    change ["_id", "_rev"].Pairwise (· < ·)
    decide
  have hrecord : Record.ofSlots slots false = ⟨slots, false⟩ := by rw [Record.ofSlots, hsorted]
  have hnest : (Json.obj (circlingBody rev)).nest 64 0 [] =
      .ok ((Record.ofSlots slots false).schema, (Record.ofSlots slots false).toValue) := by
    rw [Json.nest, if_neg (by decide), hslots]
    rfl
  rw [hrecord] at hnest
  change ((Json.obj (circlingBody rev)).nest 64 0 [] >>= _) = _
  rw [hnest]
  rfl

/-- The document is read as the record. -/
theorem recordOf?_circling (rev : String) (seq : ResumeToken) (resume : Option ResumeToken) :
    SourceTask.recordOf? { settings := sharedSource, converter := {}, resume }
      ⟨"a", seq, false, some (.obj (circlingBody rev))⟩ = .ok (some (circlingRecord rev seq)) := by
  obtain ⟨document, hread, hwritten⟩ : ∃ document,
      Document.ofJson? (.obj (circlingBody rev)) = .ok document ∧
        document.toJson = .obj (circlingBody rev) := ⟨_, rfl, rfl⟩
  unfold SourceTask.recordOf?
  simp only [hread, Except.bind, bind, hwritten, convert_circling]
  rfl

/-- The record goes through an envelope unchanged. The revision is a variable here, but nothing on
the way looks at it, so the equation holds by evaluation. -/
theorem relay?_circling (rev : String) (seq : ResumeToken) :
    relay? "couchdb.id" (circlingRecord rev seq) = .ok (some (circlingSinkRecord rev)) := rfl

/-- The record is turned into the document again, with the revision that it was read with. -/
theorem documentOf?_circling (rev : String) :
    SinkTask.documentOf? ⟨sharedSink⟩ (circlingSinkRecord rev) = .ok ⟨circlingBody rev⟩ := rfl

/-- The document after so many writes. -/
def circlingDocument (writes : Nat) : StoredDocument :=
  { generation := writes, rev := Database.revision writes writes, seq := writes, deleted := false
    body := circlingBody (Database.revision writes writes) }

/-- **The replay after so many moves**: each record has been written back. -/
def circling (moves : Nat) (resume : Option ResumeToken) : Replay :=
  { store := ⟨[("db", ⟨moves + 1, [("a", circlingDocument (moves + 1))]⟩)]⟩
    source := { settings := sharedSource, converter := {}, resume }
    sink := ⟨sharedSink⟩
    loaded := 1
    records := moves
    written := moves }

/-- The document written back replaces itself. -/
theorem write_circling (n : Nat) (resume : Option ResumeToken) :
    (circling n resume).store.write sharedSink.database
        ⟨circlingBody (Database.revision (n + 1) (n + 1))⟩ =
      ({ id := some "a", ok := true, rev := some (Database.revision (n + 2) (n + 2)) },
        (circling (n + 1) resume).store) := by
  set rev := Database.revision (n + 1) (n + 1) with hrev
  have hdb : (circling n resume).store.databaseOf sharedSink.database =
      ⟨n + 1, [("a", circlingDocument (n + 1))]⟩ := rfl
  have hid : OutboundDocument.id? ⟨circlingBody rev⟩ = some "a" := rfl
  have hrev? : OutboundDocument.rev? ⟨circlingBody rev⟩ = some rev := rfl
  have hdeleted : OutboundDocument.isDeleted ⟨circlingBody rev⟩ = false := rfl
  have hbody : ∀ rev', (((OutboundDocument.mk (circlingBody rev)).setId "a").setRev rev').body =
      circlingBody rev' := fun rev' => rfl
  -- the revision that was read is the one that is stored, so the write does not conflict
  have hnext : Database.nextGeneration? (some (circlingDocument (n + 1))) (some rev) =
      some (n + 2) := if_pos hrev.symm
  have hget : Database.get? ⟨n + 1, [("a", circlingDocument (n + 1))]⟩ "a" =
      some (circlingDocument (n + 1)) := rfl
  -- the document stored under the id is replaced, and the database holds no other
  rw [MemoryStore.write, hdb, Database.write]
  simp only [hid, Option.getD_some, hget, hrev?, hnext, hdeleted, hbody]
  rfl

/-- **A move of the circling replay.** One document has changed since the position, it is read, and
writing it back makes the next change. -/
theorem steps_circling {n : Nat} {resume : Option ResumeToken} (h : MarksPosition resume n)
    (hfits : n < 2 ^ 64) :
    Steps (circling n resume) true (circling (n + 1) (some ⟨toString (n + 1)⟩)) := by
  set rev := Database.revision (n + 1) (n + 1) with hrev
  have hpage : (circling n resume).store.changes (circling n resume).source.request =
      .ok ⟨[⟨"a", ⟨toString (n + 1)⟩, false, some (.obj (circlingBody rev))⟩],
        ⟨toString (n + 1)⟩⟩ := by
    -- the page shows the document, whose number is the first after the position
    have hthere : (circling n resume).store.database? "db" ≠ none := by
      change some _ ≠ none
      exact Option.some_ne_none _
    rw [MarksPosition.changes_eq (r := (circling n resume).source.request) h hthere hfits]
    simp [circling, circlingDocument, sharedSource, SourceTask.request, defaultBatchSize,
      MemoryStore.databaseOf, MemoryStore.database?, Database.page, Database.changedSince,
      Database.insertBySeq, Database.row, hrev]
  have hread : (circling n resume).source.report
      ⟨[⟨"a", ⟨toString (n + 1)⟩, false, some (.obj (circlingBody rev))⟩], ⟨toString (n + 1)⟩⟩ =
      .ok ⟨[circlingRecord rev ⟨toString (n + 1)⟩], 0, some ⟨toString (n + 1)⟩⟩ := by
    have := recordOf?_circling rev ⟨toString (n + 1)⟩ resume
    simp only [SourceTask.report, SourceTask.addRow, List.foldlM_cons, List.foldlM_nil, circling,
      this]
    rfl
  -- the page ends after the position, and numbers of 64 bits have one text each
  have hmoves : some (ResumeToken.mk (toString (n + 1))) ≠ resume := by
    intro heq
    exact absurd (h.unique (.inr heq.symm) hfits) (Nat.succ_ne_self n)
  have hrelay : [circlingRecord rev ⟨toString (n + 1)⟩].mapM (relay? sharedSink.idHeader) =
      .ok [some (circlingSinkRecord rev)] := by
    rw [List.mapM_cons, List.mapM_nil]
    exact congrArg (· >>= _) (relay?_circling rev ⟨toString (n + 1)⟩)
  -- the sink task writes the one document, and that is a success
  have hsink : (SinkTask.put writer ⟨sharedSink⟩ [circlingSinkRecord rev]).run
      (circling n resume).store =
      (.ok { written := 1 }, (circling (n + 1) resume).store) := by
    have hprepare : SinkTask.prepare ⟨sharedSink⟩ 0 {} [circlingSinkRecord rev] =
        .ok ({}, [(0, ⟨circlingBody rev⟩)]) := by
      rw [SinkTask.prepare, documentOf?_circling]
      rfl
    rw [SinkTask.run_put, hprepare]
    simp only [SinkTask.sendAll, hrev, write_circling]
    rfl
  exact .move hpage hread hmoves hrelay hsink

/-- The replay moves on as long as its numbers fit into 64 bits, which is what the text of a
position has room for. -/
theorem moves_circling {polls n : Nat} {resume : Option ResumeToken} (h : MarksPosition resume n)
    (hfits : n + polls ≤ 2 ^ 64) : ∃ r, Moves polls (circling n resume) r := by
  induction polls generalizing n resume with
  | zero => exact ⟨_, .zero _⟩
  | succ polls ih =>
    -- after the first move it is the same replay with larger numbers
    obtain ⟨r, hr⟩ := ih (n := n + 1) (.inr rfl) (by omega)
    exact ⟨r, .succ (steps_circling h (by omega)) hr⟩

/-! ### The length of a replay -/

/-- A replay of documents that were loaded has read no more than these and the writes that came back.
Every move takes one of them away, but for the first, which may find nothing. -/
theorem Moves.le_started {c : Config} {source : SourceSettings} {sink : SinkSettings}
    {bodies : List Members} {polls : Nat} {r : Replay}
    (h : Moves polls (started c source sink bodies) r) :
    polls ≤ bodies.length + 1 + r.fedBack := by
  obtain ⟨hat, hdue⟩ := at_started c source sink bodies
  obtain ⟨next, -, hle⟩ := h.due_le hat
  omega

/-- Between two databases a replay ends within two polls more than there are documents. -/
theorem run_started_ne_none (c : Config) {source : SourceSettings} {sink : SinkSettings}
    (hapart : source.database ≠ sink.database) {bodies : List Members} {polls : Nat}
    (hpolls : bodies.length + 2 ≤ polls) : (started c source sink bodies).run polls ≠ .ok none := by
  intro hrun
  obtain ⟨r, hmoves⟩ := run_eq_none.mp hrun
  -- the settings of the last replay are those of the first, so nothing has come back
  have hdatabases : r.source.settings.database ≠ r.sink.settings.database := by
    rw [hmoves.settings.1, hmoves.settings.2]
    exact hapart
  have hle := hmoves.le_started
  rw [fedBack, if_neg hdatabases] at hle
  omega

/-- **How long a replay goes on.** Documents can always be loaded. A replay of them makes at most
one move more than there are documents and writes that came back; between two databases, where none
comes back, it ends. -/
theorem polls_le_of_moves (c : Config) (source : SourceSettings) (sink : SinkSettings)
    (bodies : List Members) :
    let start := started c source sink bodies
    load source.database {} 0 (bodies.map .obj) = .ok (start.store, start.loaded) ∧
    (∀ polls r, Moves polls start r → polls ≤ bodies.length + 1 + r.fedBack) ∧
    (source.database ≠ sink.database → ∀ polls, bodies.length + 2 ≤ polls →
      start.run polls ≠ .ok none) := by
  intro start
  refine ⟨load_objs source.database {} 0 bodies, ?_, ?_⟩
  · intro polls r h
    exact h.le_started
  · intro hapart polls hpolls
    exact run_started_ne_none c hapart hpolls

/-- **A replay in a single database goes on** as long as sequence numbers fit: every record is
written back and read again. The settings are valid, and there is one document. -/
theorem endless_of_shared :
    sharedConfig.validate = .ok () ∧
    ∀ polls ≤ 2 ^ 64,
      (started sharedConfig sharedSource sharedSink [[("_id", .str "a")]]).run polls = .ok none := by
  refine ⟨rfl, fun polls hpolls => ?_⟩
  -- the document that was loaded is the circling one before its first move
  have hstart : started sharedConfig sharedSource sharedSink [[("_id", .str "a")]] =
      circling 0 none := rfl
  rw [hstart, run_eq_none]
  exact moves_circling (.inl ⟨rfl, rfl⟩) (by omega)

/-- Only objects can be loaded. -/
theorem exists_objs_of_load {database : String} {s : MemoryStore} {loaded : Nat} {docs : List Json}
    {result : MemoryStore × Nat} (h : load database s loaded docs = .ok result) :
    ∃ bodies : List Members, docs = bodies.map .obj := by
  induction docs generalizing s loaded with
  | nil => exact ⟨[], rfl⟩
  | cons doc rest ih =>
    cases doc with
    | obj body =>
      obtain ⟨bodies, hbodies⟩ := ih h
      exact ⟨body :: bodies, congrArg (Json.obj body :: ·) hbodies⟩
    | null | bool | num | str | arr => cases h

end Replay

namespace Command

/-- The bound on polls is larger than what is due at the start. -/
theorem lt_pollBound (bodies : List Members) :
    bodies.length + 1 < pollBound (bodies.map .obj) := by
  unfold pollBound
  rw [List.length_map]
  omega

/-- **The bound on polls is never reached** between two databases: whatever has been loaded there,
its replay ends or fails before. -/
theorem run_pollBound_ne_none (c : Config) {source : SourceSettings} {sink : SinkSettings}
    (hapart : source.database ≠ sink.database) {docs : List Json} {store : MemoryStore}
    {loaded : Nat} (hload : Replay.load source.database {} 0 docs = .ok (store, loaded)) :
    Replay.run (pollBound docs) { store, loaded
                                  source := { settings := source, converter := c.converter }
                                  sink := ⟨sink⟩ } ≠ .ok none := by
  obtain ⟨bodies, rfl⟩ := Replay.exists_objs_of_load hload
  rw [Replay.load_objs] at hload
  have hstarted := Except.ok.inj hload
  have hne := Replay.run_started_ne_none c hapart (lt_pollBound bodies)
  rw [Replay.started, hstarted] at hne
  exact hne

end Command
end DocStream
