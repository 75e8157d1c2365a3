import DocStream.Store.Memory
import DocStream.Task.Sink
import DocStream.Task.Source

/-!
# Replay

Documents run through both tasks against a store in memory: they are loaded into the source
database, the source task is polled until its position stops moving, and every record goes through
an envelope to the sink task.

* `Replay.load` — loading documents;
* `Replay.step` — one poll and the write that follows it;
* `Replay.run` — polls until the position stops moving, given a bound on their number. Source and
  sink may share a database; then every write makes a change for the next poll, and no bound may
  suffice.
-/

namespace DocStream

/-- **A replay in progress**: the store, both tasks, and what has been counted so far. -/
structure Replay where
  store : MemoryStore
  source : SourceTask
  sink : SinkTask
  loaded : Nat := 0
  records : Nat := 0
  skipped : Nat := 0
  written : Nat := 0
  /-- The records it could not write. -/
  failed : List RecordFailure := []

namespace Replay

/-- The store as a change feed. -/
def feed (r : ChangeRequest) : StateM MemoryStore (Outcome ChangeBatch) := do
  return (← get).changes r

/-- The store as a place to write to. -/
def writer (database : String) (docs : List OutboundDocument) :
    StateM MemoryStore (Outcome (List WriteOutcome)) := do
  let (outcomes, store) := (← get).bulkWrite database docs
  set store
  return .ok outcomes

/-- **Loading documents**, each of which has to be an object. A document that conflicts is not
counted, and does not stop the others. -/
def load (database : String) : MemoryStore → (loaded : Nat) → List Json →
    Outcome (MemoryStore × Nat)
  | store, loaded, [] => .ok (store, loaded)
  | store, loaded, .obj body :: rest =>
    let (outcome, store) := store.put database body
    load database store (if outcome.ok then loaded + 1 else loaded) rest
  | _, _, _ :: _ => .error (.unsupportedRoot "non-object document")

/-- **A record sent through an envelope**, under the document's id. Records without a value stay
behind, so deletions are not passed on. -/
def relay? (idHeader : String) (r : SourceRecord) : Outcome (Option SinkRecord) :=
  if r.value.isNull then .ok none
  else do
    let wire ← Envelope.toJson? ⟨r.schema, r.value⟩
    let envelope ← Envelope.ofJson? wire
    return some (((SinkRecord.ofEnvelope r.topic envelope).withHeader idHeader r.key).withKey r.key)

/-- The state after a poll; and did the position move? A page that leaves the position where it was
is the end of the replay, so its records are not written. -/
def step (r : Replay) : Outcome (Bool × Replay) := do
  let ((report, source), store) := (r.source.poll feed).run r.store
  let report ← report
  let r' := { r with source, store, skipped := r.skipped + report.skipped }
  -- Whatever a page without progress brought is counted, but not written.
  if source.resume = r.source.resume then return (false, r')
  else
    let batch ← report.records.mapM (relay? r.sink.settings.idHeader)
    let (sunk, store) := (r.sink.put writer (batch.filterMap id)).run store
    let sunk ← sunk
    return (true, { r' with
      store
      records := r.records + report.records.length
      written := r.written + sunk.written
      failed := r.failed ++ sunk.failed })

/-- **Polls until the position stops moving**, at most the given number of them; none if that was
not enough. A failure that belongs to no record ends the run. -/
def run : (polls : Nat) → Replay → Outcome (Option Replay)
  | 0, _ => .ok none
  | polls + 1, r => do
    let (moved, r) ← r.step
    if moved then run polls r else return some r

/-- **The outcome as JSON**: the counts, the failures without their places, and the position at the
end. -/
def toJson (r : Replay) : Json :=
  .obj (Members.ofList [
    ("loaded", .ofInt r.loaded),
    ("records", .ofInt r.records),
    ("skipped", .ofInt r.skipped),
    ("written", .ofInt r.written),
    ("failed", .arr (r.failed.map fun f => .obj (Members.ofList [
      ("id", .ofString? f.id), ("error", .str f.error), ("reason", .ofString? f.reason)]))),
    ("resume_token", .ofString? (r.source.resume.map ResumeToken.text))])

end Replay
end DocStream
