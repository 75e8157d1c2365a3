import DocStream.Convert.Settings
import DocStream.Error
import DocStream.Json.Basic

/-!
# Configuration

The settings of a connector: how documents are converted, which database feeds which topic, and
which topics are written to which database.

* `Config.validate` — the rules that settings have to satisfy, the first one violated being
  reported;
* `Config.toJson` — the settings with all defaults filled in.
-/

namespace DocStream

/-- How many changes or documents are moved at a time, unless set. -/
def defaultBatchSize : Nat := 100

/-- The record header that carries a document's id, unless set. -/
def defaultIdHeader : String := "couchdb.id"

/-- **The read side**: the change feed of one database into one topic. Database and topic have to be
named; the rest has defaults. -/
structure SourceSettings where
  database : String
  topic : String
  /-- At most so many changes per poll. -/
  batchSize : Nat := defaultBatchSize
  includeDocs : Bool := true
deriving DecidableEq, Repr

/-- **The write side**: records of some topics into one database. Only the database has to be named.
-/
structure SinkSettings where
  database : String
  /-- The topics that are consumed; all if none are named. -/
  topics : List String := []
  /-- The record header that carries a document's id. -/
  idHeader : String := defaultIdHeader
  /-- At most so many documents per write. -/
  batchSize : Nat := defaultBatchSize
deriving DecidableEq, Repr

/-- **The settings of a connector.** Either side may be missing, or both. -/
structure Config where
  converter : ConversionSettings := {}
  /-- The read side, if there is one. -/
  source : Option SourceSettings := none
  /-- The write side, if there is one. -/
  sink : Option SinkSettings := none
deriving DecidableEq, Repr

/-- The rule that a size is not zero, reported under the field's full name. -/
def requirePositive (field : String) (n : Nat) : Outcome Unit :=
  if n = 0 then .error (.invalidSetting field "must be greater than zero") else .ok ()

/-- The rule that a name is not empty. An empty one counts as missing. -/
def requireName (field name : String) : Outcome Unit :=
  if name.isEmpty then .error (.missingField field) else .ok ()

/-- The rule for conversion: at least one container may be open. -/
def ConversionSettings.validate (s : ConversionSettings) : Outcome Unit :=
  requirePositive "converter.max_depth" s.maxDepth

/-- The rules for the read side, in the order of its settings. -/
def SourceSettings.validate (s : SourceSettings) : Outcome Unit := do
  requireName "source.database" s.database
  requireName "source.topic" s.topic
  requirePositive "source.batch_size" s.batchSize

/-- The rules for the write side, in the order of its settings. Topics need none: without any, all
are consumed. -/
def SinkSettings.validate (s : SinkSettings) : Outcome Unit := do
  requireName "sink.database" s.database
  if s.idHeader.isEmpty then .error (.invalidSetting "sink.id_header" "cannot be empty")
  requirePositive "sink.batch_size" s.batchSize

namespace Config

/-- **The rules for all settings**: those of the parts, in order. The first rule violated is
reported, and a side that is missing violates none. -/
def validate (c : Config) : Outcome Unit := do
  c.converter.validate
  match c.source with
  | some s => s.validate
  | none => pure ()
  match c.sink with
  | some s => s.validate
  | none => pure ()

def natJson (n : Nat) : Json := .ofInt n

/-- The settings of the read side as JSON. -/
def sourceJson (s : SourceSettings) : Json :=
  .obj (Members.ofList [("database", .str s.database), ("topic", .str s.topic),
    ("batch_size", natJson s.batchSize), ("include_docs", .bool s.includeDocs)])

/-- The settings of the write side as JSON. -/
def sinkJson (s : SinkSettings) : Json :=
  .obj (Members.ofList [("database", .str s.database), ("topics", .arr (s.topics.map .str)),
    ("id_header", .str s.idHeader), ("batch_size", natJson s.batchSize)])

/-- **All settings as JSON**, defaults filled in. A side that is missing is written as null. -/
def toJson (c : Config) : Json :=
  .obj (Members.ofList [
    ("converter", .obj (Members.ofList [
      ("use_structured_schema", .bool c.converter.structured),
      ("flatten_nested", .bool c.converter.flatten),
      ("max_depth", natJson c.converter.maxDepth)])),
    ("source", (c.source.map sourceJson).getD .null),
    ("sink", (c.sink.map sinkJson).getD .null)])

end Config
end DocStream
