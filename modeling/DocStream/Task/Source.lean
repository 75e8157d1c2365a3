import DocStream.Config.Basic
import DocStream.Convert.Basic
import DocStream.Store.Feed

/-!
# The source task

Follows the change feed of one database and turns its documents into records.

A poll asks the feed for the page after the task's position (`SourceTask.request`) and takes the
answer in (`SourceTask.absorb`): a failure of the feed is passed on and leaves the position, a page
moves it to the page's end. A deleted document becomes a record without value; a document that
cannot be converted is skipped and counted; a row without a document is passed over.

The feed may be anything that answers requests, in any monad (`SourceTask.poll`).
-/

namespace DocStream

/-- **A record** made of a document, for one topic. -/
structure SourceRecord where
  topic : String
  /-- The document's id. -/
  key : String
  /-- The schema; none for records without a schema and for deleted documents. -/
  schema : Option Schema
  value : Value
  /-- The position of the change. -/
  offset : ResumeToken

/-- **What a poll brought**: records in the order of the changes, and how many documents were passed
over. -/
structure PollReport where
  records : List SourceRecord := []
  /-- How many documents could not be converted. -/
  skipped : Nat := 0
  /-- The position after the poll. -/
  resumeToken : Option ResumeToken := none

/-- **A source task** at a position of its feed. The position is all that a poll changes. -/
structure SourceTask where
  settings : SourceSettings
  converter : ConversionSettings
  /-- Its position; the start of the feed if there is none. -/
  resume : Option ResumeToken := none

namespace SourceTask

def request (t : SourceTask) : ChangeRequest :=
  { database := t.settings.database, since := t.resume, limit := t.settings.batchSize,
    includeDocs := t.settings.includeDocs }

/-- **The record of a row**, if it has one. What is converted is the document as it is written back,
its metadata included. -/
def recordOf? (t : SourceTask) (row : ChangeRow) : Outcome (Option SourceRecord) :=
  let record (schema : Option Schema) (value : Value) : SourceRecord :=
    { topic := t.settings.topic, key := row.id, schema, value, offset := row.seq }
  if row.deleted then .ok (some (record none .null))
  else
    match row.doc with
    | none => .ok none
    | some body => do
      let document ← Document.ofJson? body
      let converted ← t.converter.convert document.toJson
      let (schema, value) := converted.toRecord
      return some (record schema value)

/-- A row added to the report of a poll. A failure that is not the document's own ends the poll. -/
def addRow (t : SourceTask) (report : PollReport) (row : ChangeRow) : Outcome PollReport :=
  match t.recordOf? row with
  | .ok (some record) => .ok { report with records := report.records ++ [record] }
  | .ok none => .ok report
  | .error e =>
    if e.isPerRecord then .ok { report with skipped := report.skipped + 1 } else .error e

/-- The report of a page, row by row, with the page's end as the position. -/
def report (t : SourceTask) (batch : ChangeBatch) : Outcome PollReport := do
  let report ← batch.rows.foldlM t.addRow {}
  return { report with resumeToken := some batch.lastSeq }

/-- **Taking an answer in**: the report of the page, and the task at the page's end. On a failure
the task stays where it was. -/
def absorb (t : SourceTask) (answer : Outcome ChangeBatch) : Outcome PollReport × SourceTask :=
  match answer with
  | .error e => (.error e, t)
  | .ok batch =>
    match t.report batch with
    | .error e => (.error e, t)
    | .ok report => (.ok report, { t with resume := some batch.lastSeq })

/-- **A poll** of a feed: one request, and the answer taken in. -/
def poll {m : Type → Type} [Monad m] (feed : ChangeRequest → m (Outcome ChangeBatch))
    (t : SourceTask) : m (Outcome PollReport × SourceTask) := do
  let answer ← feed t.request
  return t.absorb answer

end SourceTask
end DocStream
