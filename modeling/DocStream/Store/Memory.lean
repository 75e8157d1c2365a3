import DocStream.Error
import DocStream.Store.Feed
import DocStream.Text.Hex

/-!
# The store in memory

Databases of documents, each document at its current revision. Every write, successful or not, takes
the next sequence number of its database; a successful one gives the document that number as its
place in the change feed and a revision made of its generation and the number.

A write has to name the current revision of a live document, may leave it out for a deleted one, and
creates a document whose id is new, whatever revision it names.

* `Database.write` — one write;
* `MemoryStore.changes` — the change feed: one row per document, at its latest change.
-/

namespace DocStream

/-- A document at its current revision. A deleted document is still stored, and its id is still
taken. -/
structure StoredDocument where
  /-- How many successful writes the document has seen. -/
  generation : Nat
  rev : String
  /-- The sequence number of the write that stored it. -/
  seq : Nat
  deleted : Bool
  /-- Its properties, with id and revision among them. -/
  body : Members
deriving DecidableEq

/-- **A database**: its last sequence number, and its documents by id, in the order in which the ids
came. -/
structure Database where
  /-- The sequence number of the last write. -/
  seq : Nat := 0
  /-- The documents, each id once. -/
  docs : List (String × StoredDocument) := []

namespace Database

/-- The document of an id, live or deleted. -/
def get? (db : Database) (id : String) : Option StoredDocument := db.docs.lookup id

/-- A document stored under an id, in place of the one that was there. A new id goes to the end. -/
def store (id : String) (doc : StoredDocument) :
    List (String × StoredDocument) → List (String × StoredDocument)
  | [] => [(id, doc)]
  | (k, d) :: rest => if k = id then (id, doc) :: rest else (k, d) :: store id doc rest

/-- The id made for a document that brings none: the sequence number of its write, in 32 digits. No
one sees to it that a document has not been stored under such an id by its own choice. -/
def freshId (seq : Nat) : String := Hex.padded 32 seq

/-- The text of a revision: its generation, and the sequence number of its write, which no other
write to the database has. -/
def revision (generation seq : Nat) : String := s!"{generation}-{Hex.padded 16 seq}"

/-- **The generation that a write leads to**, or none if it conflicts with the current document. For
a live document the current revision has to be named; a deleted one may also be written without
naming any; where there is no document, anything goes. -/
def nextGeneration? (current : Option StoredDocument) (rev : Option String) : Option Nat :=
  match current, rev with
  | none, _ => some 1
  | some doc, some rev => if doc.rev = rev then some (doc.generation + 1) else none
  | some doc, none => if doc.deleted then some (doc.generation + 1) else none

/-- **One write.** It takes the next sequence number in any case. If it does not conflict, the
document is stored with its id and its new revision among its members. -/
def write (db : Database) (doc : OutboundDocument) : WriteOutcome × Database :=
  -- The number is spent whatever becomes of the write.
  let seq := db.seq + 1
  let id := doc.id?.getD (freshId seq)
  match nextGeneration? (db.get? id) doc.rev? with
  | none =>
    ({ id := some id, error := some "conflict", reason := some "Document update conflict." },
      { db with seq })
  | some generation =>
    let rev := revision generation seq
    let stored : StoredDocument :=
      { generation, rev, seq, deleted := doc.isDeleted, body := ((doc.setId id).setRev rev).body }
    ({ id := some id, ok := true, rev := some rev }, { seq, docs := store id stored db.docs })

/-- Several writes, one after the other, each to the database that the one before left. -/
def writeAll (db : Database) : List OutboundDocument → List WriteOutcome × Database
  | [] => ([], db)
  | doc :: rest =>
    let (outcome, db) := db.write doc
    let (outcomes, db) := db.writeAll rest
    (outcome :: outcomes, db)

def live (db : Database) : List (String × StoredDocument) := db.docs.filter fun (_, d) => !d.deleted

/-- A changed document put into its place in the feed. -/
def insertBySeq (entry : String × StoredDocument) :
    List (String × StoredDocument) → List (String × StoredDocument)
  | [] => [entry]
  | e :: rest => if entry.2.seq < e.2.seq then entry :: e :: rest else e :: insertBySeq entry rest

/-- **The documents changed after a position**, in the order of their changes. A document that has
changed several times stands at its latest change only. -/
def changedSince (db : Database) (since : Nat) : List (String × StoredDocument) :=
  (db.docs.filter fun (_, d) => since < d.seq).foldl (fun sorted e => insertBySeq e sorted) []

/-- What a page shows of a document: with its body, if that is asked for, also when it is deleted.
-/
def row (includeDocs : Bool) (entry : String × StoredDocument) : ChangeRow :=
  { id := entry.1, seq := ⟨toString entry.2.seq⟩, deleted := entry.2.deleted,
    doc := if includeDocs then some (.obj entry.2.body) else none }

/-- **A page of the feed**: at most `limit` changes after a position. It ends at its last change, or
where it starts if it has none. -/
def page (db : Database) (since limit : Nat) (includeDocs : Bool) : ChangeBatch :=
  let changed := (db.changedSince since).take limit
  { rows := changed.map (row includeDocs),
    lastSeq := ⟨toString ((changed.getLast?.map (·.2.seq)).getD since)⟩ }

end Database

/-- **Databases by name.** There is no need to make one: it is made by the first write. -/
structure MemoryStore where
  /-- The databases, each name once. -/
  databases : List (String × Database) := []

namespace MemoryStore

/-- The database of a name, if anything was ever written to it. -/
def database? (s : MemoryStore) (name : String) : Option Database := s.databases.lookup name

/-- A database in place of the one of its name. -/
def setDatabase (name : String) (db : Database) :
    List (String × Database) → List (String × Database)
  | [] => [(name, db)]
  | (k, d) :: rest => if k = name then (name, db) :: rest else (k, d) :: setDatabase name db rest

def withDatabase (s : MemoryStore) (name : String) (db : Database) : MemoryStore :=
  ⟨setDatabase name db s.databases⟩

/-- The current body of a document that is not deleted. -/
def get? (s : MemoryStore) (database id : String) : Option Json := do
  let db ← s.database? database
  let doc ← db.get? id
  if doc.deleted then none else some (.obj doc.body)

/-- How many documents of a database are not deleted. -/
def docCount (s : MemoryStore) (database : String) : Nat :=
  match s.database? database with
  | some db => db.live.length
  | none => 0

/-- **Writing one document**, to a database that need not be there yet. -/
def put (s : MemoryStore) (database : String) (doc : Members) : WriteOutcome × MemoryStore :=
  let (outcome, db) := ((s.database? database).getD {}).write (.ofMembers doc none)
  (outcome, s.withDatabase database db)

/-- **Writing several documents.** One outcome per document; a conflict does not stop the others.
The database is there afterwards even if there was no document. -/
def bulkWrite (s : MemoryStore) (database : String) (docs : List OutboundDocument) :
    List WriteOutcome × MemoryStore :=
  let (outcomes, db) := ((s.database? database).getD {}).writeAll docs
  (outcomes, s.withDatabase database db)

/-- The sequence number of a position; the start of the feed is zero. A text that is no number of 64
bits is none of this store's positions. -/
def position? (since : Option ResumeToken) : Outcome Nat :=
  match since with
  | none => .ok 0
  | some token =>
    match Digits.unsigned64? token.text with
    | some n => .ok n
    | none => .error (.store s!"Invalid resume token '{token.text}'")

/-- **The change feed.** The position is looked at before the database, and a database that was
never written to has no feed. -/
def changes (s : MemoryStore) (r : ChangeRequest) : Outcome ChangeBatch := do
  let since ← position? r.since
  match s.database? r.database with
  | some db => return db.page since r.limit r.includeDocs
  | none => .error (.store s!"Database '{r.database}' does not exist")

end MemoryStore
end DocStream
