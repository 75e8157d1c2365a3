import DocStream.Error
import DocStream.Json.Basic

/-!
# Documents

A document of the store is a JSON object. Eight of its properties have a fixed meaning; reading
splits them off (`Document.ofJson?`), writing merges them back (`Document.toMembers`). Of the eight,
a false `_deleted` and an empty `_conflicts` say what their absence says and are not written back.

* `MetadataField` — the eight properties, in the order in which they are looked at;
* `Document` — a document as read, metadata apart from the rest;
* `OutboundDocument` — a document ready to be written.
-/

namespace DocStream

/-- A property with a fixed meaning. All of them have names that start with an underscore, but not
every such name is one of them. -/
inductive MetadataField where
  | id
  | rev
  | deleted
  | conflicts
  | localSeq
  | revisions
  | revsInfo
  | attachments
deriving DecidableEq, Repr

namespace MetadataField

/-- All eight, in the order in which they are looked at. -/
def all : List MetadataField :=
  [id, rev, deleted, conflicts, localSeq, revisions, revsInfo, attachments]

/-- The property's name in a document. -/
def name : MetadataField → String
  | id => "_id"
  | rev => "_rev"
  | deleted => "_deleted"
  | conflicts => "_conflicts"
  | localSeq => "_local_seq"
  | revisions => "_revisions"
  | revsInfo => "_revs_info"
  | attachments => "_attachments"

/-- The field of a name. -/
def ofName? (name : String) : Option MetadataField := all.find? fun f => f.name == name

theorem mem_all (f : MetadataField) : f ∈ all := by cases f <;> decide

/-- Every field is found by its name. -/
@[simp] theorem ofName?_name (f : MetadataField) : ofName? f.name = some f := by
  cases f <;> decide

end MetadataField

/-- **The properties with a fixed meaning**, as far as a document has them. A document that does not
mention its deletion or its conflicts has the same metadata as one that denies both. -/
structure Metadata where
  id : Option String := none
  rev : Option String := none
  deleted : Bool := false
  conflicts : List String := []
  localSeq : Option Json := none
  revisions : Option Json := none
  revsInfo : Option Json := none
  attachments : Option Json := none
deriving DecidableEq

namespace Metadata

/-- A property that has to be a string; anything else is refused under the property's name. -/
def string? (f : MetadataField) : Json → Outcome String
  | .str s => .ok s
  | j => .error (.unhandled f.name j.kind)

/-- **A property taken over** from a document. Id and revision have to be strings, deletion a truth
value, and conflicts an array of strings; the others may be anything, and are kept as they are. -/
def set? (m : Metadata) (f : MetadataField) (j : Json) : Outcome Metadata :=
  match f with
  | .id => do return { m with id := some (← string? f j) }
  | .rev => do return { m with rev := some (← string? f j) }
  | .deleted => match j with
    | .bool deleted => .ok { m with deleted }
    | j => .error (.unhandled f.name j.kind)
  | .conflicts => match j with
    | .arr items => do return { m with conflicts := ← items.mapM (string? f) }
    | j => .error (.unhandled f.name j.kind)
  | .localSeq => .ok { m with localSeq := some j }
  | .revisions => .ok { m with revisions := some j }
  | .revsInfo => .ok { m with revsInfo := some j }
  | .attachments => .ok { m with attachments := some j }

/-- **A property as it is written back**, if it is. A false deletion and an empty list of conflicts
are not. -/
def get? (m : Metadata) : MetadataField → Option Json
  | .id => m.id.map .str
  | .rev => m.rev.map .str
  | .deleted => if m.deleted then some (.bool true) else none
  | .conflicts => if m.conflicts.isEmpty then none else some (.arr (m.conflicts.map .str))
  | .localSeq => m.localSeq
  | .revisions => m.revisions
  | .revsInfo => m.revsInfo
  | .attachments => m.attachments

end Metadata

/-- **A document as read**: metadata, and all other properties. -/
structure Document where
  /-- The properties with a fixed meaning. -/
  metadata : Metadata
  /-- All other properties. -/
  properties : Members
deriving DecidableEq

namespace Document

/-- **Reading a document.** It has to be an object; its metadata are taken over one by one, the
first that does not fit being reported, and all other members are kept as properties. -/
def ofJson? : Json → Outcome Document
  | .obj members => do
    let metadata ← MetadataField.all.foldlM (fun m f =>
      match Members.get? members f.name with
      | some j => m.set? f j
      | none => .ok m) {}
    return ⟨metadata, members.filter fun (name, _) => (MetadataField.ofName? name).isNone⟩
  | j => .error (.unsupportedRoot j.kind)

/-- **Metadata and properties merged back** into one object. What was read as metadata is not among
the properties, so of a document that was read neither part replaces anything of the other. -/
def toMembers (d : Document) : Members :=
  .ofList (MetadataField.all.filterMap (fun f => (d.metadata.get? f).map (f.name, ·))
    ++ d.properties)

/-- The document as an object: for one that was read, the object that it was read from, but for what
is not written back. -/
def toJson (d : Document) : Json := .obj d.toMembers

end Document

/-- **A document ready to be written**: any object, with id and revision among its members if they
are known. -/
structure OutboundDocument where
  body : Members
deriving DecidableEq, Inhabited

namespace OutboundDocument

/-- The document under an id, in place of the one that it had. -/
def setId (d : OutboundDocument) (id : String) : OutboundDocument :=
  ⟨d.body.insert MetadataField.id.name (.str id)⟩

/-- The document based on a revision, in place of the one that it had. -/
def setRev (d : OutboundDocument) (rev : String) : OutboundDocument :=
  ⟨d.body.insert MetadataField.rev.name (.str rev)⟩

/-- The document of some properties. An id given apart replaces the one among them. -/
def ofMembers (members : Members) (id? : Option String) : OutboundDocument :=
  match id? with
  | some id => setId ⟨members⟩ id
  | none => ⟨members⟩

/-- The id of the document, if it has one and that is a string. An id of another kind counts as
none. -/
def id? (d : OutboundDocument) : Option String :=
  (d.body.get? MetadataField.id.name).bind Json.str?

/-- The revision that the write is based on, if it is a string. -/
def rev? (d : OutboundDocument) : Option String :=
  (d.body.get? MetadataField.rev.name).bind Json.str?

/-- Does the document say that it is deleted? Only the truth value itself says so. -/
def isDeleted (d : OutboundDocument) : Bool :=
  ((d.body.get? MetadataField.deleted.name).bind Json.bool?).getD false

def toJson (d : OutboundDocument) : Json := .obj d.body

@[simp] theorem id?_setId (d : OutboundDocument) (id : String) : (d.setId id).id? = some id := by
  simp [id?, setId, Json.str?]

end OutboundDocument
end DocStream
