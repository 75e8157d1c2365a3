import DocStream.Config.Basic
import DocStream.Envelope.Basic
import DocStream.Store.Feed

/-!
# The sink task

Writes records as documents into one database.

Records of topics that the task does not consume are skipped. The others are turned into documents
(`SinkTask.documentOf?`), a record that does not become one being reported as failed, and the
documents are written in batches, in order. A write that the store refuses is reported as failed;
only a failure of the store itself ends the whole.

The store may be anything that takes batches, in any monad (`SinkTask.put`).
-/

namespace DocStream

/-- **A record** to be written, as it comes from a topic. -/
structure SinkRecord where
  topic : String
  key : Option String := none
  schema : Option Schema
  value : Value
  /-- Its headers, the latest first. -/
  headers : List (String × String) := []

namespace SinkRecord

def ofEnvelope (topic : String) (e : Envelope) : SinkRecord :=
  { topic, schema := e.schema, value := e.payload }

def withKey (r : SinkRecord) (key : String) : SinkRecord := { r with key := some key }

/-- The record with one more header, which hides others of its name. -/
def withHeader (r : SinkRecord) (name value : String) : SinkRecord :=
  { r with headers := (name, value) :: r.headers }

/-- The value of a header; of several of one name the latest. -/
def header? (r : SinkRecord) (name : String) : Option String := r.headers.lookup name

end SinkRecord

/-- A record that was not written, and why. -/
structure RecordFailure where
  index : Nat
  /-- The id of its document, as far as known. -/
  id : Option String
  error : String
  /-- The store's words for it. -/
  reason : Option String
deriving DecidableEq

/-- **What became of some records.** Every record is written, skipped or failed. -/
structure SinkReport where
  written : Nat := 0
  /-- How many came from topics that are not consumed. -/
  skipped : Nat := 0
  failed : List RecordFailure := []

def SinkReport.isClean (r : SinkReport) : Bool := r.failed.isEmpty

/-- **A sink task.** -/
structure SinkTask where
  settings : SinkSettings

/-- A list cut into pieces of `size + 1` elements, the last of which may be shorter. So no piece is
empty, and an empty list has none. -/
def piecesOf {α : Type} (size : Nat) : List α → List (List α)
  | [] => []
  | a :: rest => (a :: rest.take size) :: piecesOf size (rest.drop size)
termination_by as => as.length
decreasing_by
  have h : (rest.drop size).length ≤ rest.length := by
    rw [List.length_drop]
    exact Nat.sub_le _ _
  exact Nat.lt_succ_of_le h

namespace SinkTask

/-- Does the task consume a topic? Without topics of its own it consumes all. -/
def consumes (t : SinkTask) (topic : String) : Bool :=
  t.settings.topics.isEmpty || t.settings.topics.contains topic

/-- **The document of a record.** A header may give its id, which then replaces one among the
members; the key of the record is not used for it. -/
def documentOf? (t : SinkTask) (r : SinkRecord) : Outcome OutboundDocument := do
  let members ← r.value.toDocument? r.schema
  return .ofMembers members (r.header? t.settings.idHeader)

/-- A document on its way, with the place of its record. -/
abbrev Pending := Nat × OutboundDocument

/-- **The documents of some records**, from the given place on, and the report on the records that
have none. A failure that is not the record's own ends the whole. -/
def prepare (t : SinkTask) : (index : Nat) → SinkReport → List SinkRecord →
    Outcome (SinkReport × List Pending)
  | _, report, [] => .ok (report, [])
  | index, report, r :: rest =>
    if !t.consumes r.topic then
      prepare t (index + 1) { report with skipped := report.skipped + 1 } rest
    else
      match t.documentOf? r with
      | .ok doc => do
        let (report, pending) ← prepare t (index + 1) report rest
        return (report, (index, doc) :: pending)
      | .error e =>
        if e.isPerRecord then
          let failure : RecordFailure := { index, id := r.key, error := e.message, reason := none }
          prepare t (index + 1) { report with failed := report.failed ++ [failure] } rest
        else .error e

/-- The outcome of one write added to a report. A failure has the id that the store gives, or the
document's own. -/
def addOutcome (report : SinkReport) (pending : Pending) (outcome : WriteOutcome) : SinkReport :=
  if outcome.ok then { report with written := report.written + 1 }
  else
    let failure : RecordFailure :=
      { index := pending.1, id := outcome.id <|> pending.2.id?,
        error := outcome.error.getD "unknown", reason := outcome.reason }
    { report with failed := report.failed ++ [failure] }

/-- The outcomes of a batch added to a report, each to the record of its place. -/
def addOutcomes (report : SinkReport) (batch : List Pending) (outcomes : List WriteOutcome) :
    SinkReport :=
  (batch.zip outcomes).foldl (fun report (p, o) => addOutcome report p o) report

variable {m : Type → Type} [Monad m]

/-- **Writing batch after batch**, until one fails as a whole. Then the report is lost, although
earlier batches have been written. -/
def writeBatches (write : String → List OutboundDocument → m (Outcome (List WriteOutcome)))
    (database : String) : SinkReport → List (List Pending) → m (Outcome SinkReport)
  | report, [] => pure (.ok report)
  | report, batch :: rest => do
    match ← write database (batch.map Prod.snd) with
    | .error e => pure (.error e)
    | .ok outcomes => writeBatches write database (addOutcomes report batch outcomes) rest

/-- **Writing records.** All documents are made before the first is written, so a failure that is
not a record's own leaves the store alone. A batch has the size of the settings, and at least one
document. -/
def put (write : String → List OutboundDocument → m (Outcome (List WriteOutcome)))
    (t : SinkTask) (records : List SinkRecord) : m (Outcome SinkReport) :=
  match t.prepare 0 {} records with
  | .error e => pure (.error e)
  | .ok (report, pending) =>
    writeBatches write t.settings.database report (piecesOf (t.settings.batchSize - 1) pending)

end SinkTask
end DocStream
