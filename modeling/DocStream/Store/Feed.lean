import DocStream.Document

/-!
# Stores seen from outside

What passes between a document store and those who follow or write it: requests for changes and the
pages that answer them, documents to be written and the outcome of each write.

A position in a change feed is opaque. Whoever follows a feed keeps it and hands it back.
-/

namespace DocStream

/-- **A position in a change feed.** Its text means something to the store alone. -/
structure ResumeToken where
  text : String
deriving DecidableEq, Repr

/-- A request for the next page of a change feed, of one database. -/
structure ChangeRequest where
  database : String
  /-- Where to go on; the start of the feed if not given. -/
  since : Option ResumeToken
  /-- At most so many rows. -/
  limit : Nat
  includeDocs : Bool
deriving DecidableEq, Repr

/-- **A change**: which document has changed and where in the feed, and the document if it was asked
for. -/
structure ChangeRow where
  id : String
  /-- The position of the change. -/
  seq : ResumeToken
  deleted : Bool
  /-- The document, if it was asked for. -/
  doc : Option Json
deriving DecidableEq

/-- **A page of a change feed**, in the order of the changes, and where the next one starts. -/
structure ChangeBatch where
  rows : List ChangeRow
  /-- Where the next page starts. -/
  lastSeq : ResumeToken
deriving DecidableEq

/-- **The outcome of writing one document**: its id and its new revision, or why it was not written.
-/
structure WriteOutcome where
  id : Option String := none
  ok : Bool := false
  rev : Option String := none
  error : Option String := none
  reason : Option String := none
deriving DecidableEq, Repr

end DocStream
