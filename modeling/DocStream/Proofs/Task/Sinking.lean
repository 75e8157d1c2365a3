import DocStream.Proofs.Outcome
import DocStream.Proofs.Store.Writing
import DocStream.Task.Replay

/-!
# Writing records to the store in memory

The sink task hands its documents over in batches, and the store takes a batch apart again. What
comes out is one write after the other, in order: neither the size of the batches nor their bounds
can be told from the store or from the report.

* `SinkTask.sendAll` — documents written one by one;
* `SinkTask.run_put` — **what the sink task does** is that;
* `SinkTask.sendAll_induction` — what one write keeps, the sink task keeps.

The one thing to see to is the database itself. A batch makes it even if there is nothing in the
batch, so writes one by one leave the same store only as long as no batch is empty, and the pieces
of a list never are.
-/

namespace DocStream

/-! ### Pieces of a list -/

/-- **Nothing is lost or moved** by cutting a list into pieces. -/
theorem flatten_piecesOf {α : Type} (size : Nat) (as : List α) :
    (piecesOf size as).flatten = as := by
  induction as using piecesOf.induct size with
  | case1 => rw [piecesOf, List.flatten_nil]
  | case2 a rest ih =>
    rw [piecesOf, List.flatten_cons, ih, List.cons_append, List.take_append_drop]

/-- A piece has as many elements as asked for, or fewer. -/
theorem length_of_mem_piecesOf {α : Type} {size : Nat} {as piece : List α}
    (h : piece ∈ piecesOf size as) : 1 ≤ piece.length ∧ piece.length ≤ size + 1 := by
  induction as using piecesOf.induct size with
  | case1 =>
    rw [piecesOf] at h
    exact absurd h List.not_mem_nil
  | case2 a rest ih =>
    rw [piecesOf] at h
    rcases List.mem_cons.mp h with rfl | h
    · rw [List.length_cons, List.length_take]
      omega
    · exact ih h

theorem ne_nil_of_mem_piecesOf {α : Type} {size : Nat} {as piece : List α}
    (h : piece ∈ piecesOf size as) : piece ≠ [] :=
  List.ne_nil_of_length_pos (length_of_mem_piecesOf h).1

namespace MemoryStore

/-- To make a database that is there already changes nothing. -/
theorem opened_of_database? {s : MemoryStore} {name : String} {db : Database}
    (h : s.database? name = some db) : s.opened name = s := by
  -- the database is found where it stands in the list, and replaced by itself
  have key : ∀ dbs : List (String × Database), dbs.lookup name = some db →
      setDatabase name db dbs = dbs := by
    intro dbs hdbs
    induction dbs with
    | nil => exact nomatch hdbs
    | cons p rest ih =>
      obtain ⟨k, d⟩ := p
      rw [List.lookup_cons] at hdbs
      by_cases hk : k = name
      · subst hk
        rw [beq_self_eq_true] at hdbs
        rw [setDatabase, if_pos rfl, Option.some.inj hdbs]
      · rw [beq_false_of_ne (Ne.symm hk)] at hdbs
        rw [setDatabase, if_neg hk, ih hdbs]
  have hdb : s.databaseOf name = db := by rw [databaseOf, h, Option.getD_some]
  rw [opened, hdb]
  exact congrArg MemoryStore.mk (key s.databases h)

theorem opened_write (s : MemoryStore) (name : String) (doc : OutboundDocument) :
    (s.write name doc).2.opened name = (s.write name doc).2 := by
  apply opened_of_database?
  rw [write, database?_withDatabase, if_pos rfl]

end MemoryStore

/-! ### One document after the other -/

namespace SinkTask

/-- **Documents written one by one**, and the outcomes added to a report. -/
def sendAll (database : String) :
    SinkReport → MemoryStore → List Pending → SinkReport × MemoryStore
  | report, s, [] => (report, s)
  | report, s, p :: rest =>
    sendAll database (addOutcome report p (s.write database p.2).1) (s.write database p.2).2 rest

/-- Documents are written one by one, so it does not matter where the list is cut. -/
theorem sendAll_append (database : String) (report : SinkReport) (s : MemoryStore)
    (ps qs : List Pending) :
    sendAll database report s (ps ++ qs) =
      sendAll database (sendAll database report s ps).1 (sendAll database report s ps).2 qs := by
  induction ps generalizing report s with
  | nil => rfl
  | cons p rest ih => exact ih _ _

/-- **What one write keeps**, writing documents one by one keeps. -/
theorem sendAll_induction {database : String} {P : SinkReport → MemoryStore → Prop}
    (write : ∀ report s p, P report s →
      P (addOutcome report p (s.write database p.2).1) (s.write database p.2).2)
    {report : SinkReport} {s : MemoryStore} (h : P report s) (ps : List Pending) :
    P (sendAll database report s ps).1 (sendAll database report s ps).2 := by
  -- the property is asked for at every report and store on the way
  induction ps generalizing report s with
  | nil => exact h
  | cons p rest ih => exact ih (write report s p h)

/-- A batch taken apart. An empty one still makes the database. -/
theorem addOutcomes_bulkWrite (database : String) (report : SinkReport) (s : MemoryStore)
    (batch : List Pending) :
    addOutcomes report batch (s.bulkWrite database (batch.map Prod.snd)).1 =
        (sendAll database report s batch).1 ∧
      (s.bulkWrite database (batch.map Prod.snd)).2 =
        (sendAll database report s batch).2.opened database := by
  induction batch generalizing report s with
  | nil => exact ⟨rfl, rfl⟩
  | cons p rest ih =>
    rw [List.map_cons, MemoryStore.bulkWrite_cons]
    exact ih _ _

theorem opened_sendAll {database : String} {report : SinkReport} {s : MemoryStore}
    {ps : List Pending} (h : ps ≠ []) :
    (sendAll database report s ps).2.opened database = (sendAll database report s ps).2 := by
  cases ps with
  | nil => exact absurd rfl h
  | cons p rest =>
    rw [sendAll]
    exact sendAll_induction (P := fun _ s => s.opened database = s)
      (fun _ s p _ => s.opened_write database p.2) (s.opened_write database p.2) rest

/-- **Batches are written document by document**, if none of them is empty. -/
theorem run_writeBatches (database : String) {batches : List (List Pending)}
    (h : ∀ batch ∈ batches, batch ≠ []) (report : SinkReport) (s : MemoryStore) :
    (writeBatches Replay.writer database report batches).run s =
      (.ok (sendAll database report s batches.flatten).1,
        (sendAll database report s batches.flatten).2) := by
  induction batches generalizing report s with
  | nil => rfl
  | cons batch rest ih =>
    -- a batch that is not empty leaves the database there, so making it again does nothing
    have hbatch := h batch List.mem_cons_self
    obtain ⟨hreport, hstore⟩ := addOutcomes_bulkWrite database report s batch
    rw [opened_sendAll hbatch] at hstore
    have hrest := ih (fun b hb => h b (List.mem_cons_of_mem _ hb))
      (sendAll database report s batch).1 (sendAll database report s batch).2
    rw [List.flatten_cons, sendAll_append, ← hrest, ← hreport, ← hstore]
    rfl

variable (t : SinkTask)

/-- **What the sink task does to the store in memory**: it writes the documents of its records one
by one. If there is a record that is no document and no failure of its own either, it writes
nothing. -/
theorem run_put (records : List SinkRecord) (s : MemoryStore) :
    (t.put Replay.writer records).run s =
      match t.prepare 0 {} records with
      | .error e => (.error e, s)
      | .ok (report, pending) =>
        (.ok (sendAll t.settings.database report s pending).1,
          (sendAll t.settings.database report s pending).2) := by
  rw [put]
  cases t.prepare 0 {} records with
  | error e => rfl
  | ok prepared =>
    obtain ⟨report, pending⟩ := prepared
    -- the documents are cut into pieces of the batch size, none of them empty
    have hpieces : ∀ batch ∈ piecesOf (t.settings.batchSize - 1) pending, batch ≠ [] :=
      fun batch => ne_nil_of_mem_piecesOf
    have h := run_writeBatches t.settings.database hpieces report s
    rw [flatten_piecesOf] at h
    exact h

/-- A report of the sink task is one of documents that were prepared, and then written one by one.
-/
theorem run_put_eq_ok {records : List SinkRecord} {s s' : MemoryStore} {sunk : SinkReport}
    (h : (t.put Replay.writer records).run s = (.ok sunk, s')) :
    ∃ report pending, t.prepare 0 {} records = .ok (report, pending) ∧
      sendAll t.settings.database report s pending = (sunk, s') := by
  rw [run_put] at h
  split at h
  · exact nomatch (Prod.mk.inj h).1
  · next report pending hprepare =>
    obtain ⟨hsunk, hs⟩ := Prod.mk.inj h
    exact ⟨report, pending, hprepare, Prod.ext (Except.ok.inj hsunk) hs⟩

/-- An outcome counts as written if the store took the document. -/
theorem written_addOutcome (report : SinkReport) (p : Pending) (outcome : WriteOutcome) :
    (addOutcome report p outcome).written = report.written + if outcome.ok then 1 else 0 := by
  rw [addOutcome]
  split <;> rfl

end SinkTask
end DocStream
