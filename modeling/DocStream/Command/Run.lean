import DocStream.Command.Arguments
import DocStream.Config.Reader
import DocStream.Json.Printer
import DocStream.Task.Replay

/-!
# Commands

What each subcommand does. Input is read by a function given from outside, in any monad: from a
path, or from the standard input if there is none.

* `Command.execute` — the result of a subcommand, as JSON;
* `Command.respond` — the answer to a command line: exit code and output.
-/

namespace DocStream

namespace Command

/-! ### Documents in a text -/

/-- The lines of a text, without their ends. An end of two characters counts as one, and nothing
follows the end of the last line. -/
def linesOf (text : String) : List (List Char) :=
  let lines := text.toList.splitOn '\n'
  let lines := if lines.getLast? = some [] then lines.dropLast else lines
  lines.map fun line => if line.getLast? = some '\r' then line.dropLast else line

/-- The documents of lines, each a JSON text; blank lines hold none. Lines are counted from the
given number, blank ones too, so that a failure can tell where it is. -/
def documentsOfLines : Nat → List (List Char) → Outcome (List Json)
  | _, [] => .ok []
  | number, line :: rest =>
    if (Blank.trim line).isEmpty then documentsOfLines (number + 1) rest
    else
      match Json.parse? (String.ofList line) with
      | none => .error (Error.jsonText.inContext s!"Invalid document on line {number}")
      | some doc => do
        let docs ← documentsOfLines (number + 1) rest
        return doc :: docs

/-- **The documents of a text**: the items of a JSON array, or one JSON text per line. The first
character that is not blank decides which. -/
def documentsOf (text : String) : Outcome (List Json) :=
  if (Blank.trimLeft text.toList).head? = some '[' then
    match Json.parse? text with
    | some (.arr docs) => .ok docs
    | some _ => .error (.config "Expected a JSON array of documents")
    | none => .error .jsonText
  else documentsOfLines 1 (linesOf text)

/-! ### Subcommands -/

/-- A flattened document by path: each leaf with its schema, in a word, and its value. Members are
in the order of paths. -/
def flatJson (flat : FlatRecord) : Outcome Json := do
  let leaves ← flat.entries.mapM fun e => do
    let value ← e.value.toPlain? (some e.schema)
    return (e.path, Json.obj [("schema", .str e.schema.display), ("value", value)])
  return .obj (Members.ofList leaves)

/-- **The record of one document**, as JSON: an envelope with or without a schema, or for a
flattened document the leaves by path. -/
def recordJson (text : String) (settings : ConversionSettings) : Outcome Json :=
  match Json.parse? text with
  | none => .error .jsonText
  | some doc => do
    match ← settings.convert doc with
    | .structured schema value => Envelope.toJson? ⟨some schema, value⟩
    | .flattened flat => flatJson flat
    | .schemaless value => Envelope.toJson? ⟨none, value⟩

/-- **The document of an envelope**, under another id if one is given. -/
def toDocumentJson (text : String) (id : Option String) : Outcome Json := do
  let envelope ← Envelope.parse? text
  let members ← envelope.payload.toDocument? envelope.schema
  return (OutboundDocument.ofMembers members id).toJson

/-- **What a configuration says**, in short. It is made of settings that satisfy the rules, so it
says that they do. -/
def configSummary (c : Config) : Json :=
  .obj (Members.ofList [
    ("valid", .bool true),
    ("strategy", .str (match c.converter.strategy with | .nest => "nest" | .flatten => "flatten")),
    ("structured", .bool c.converter.structured),
    ("source", .ofString? (c.source.map SourceSettings.database)),
    ("sink", .ofString? (c.sink.map SinkSettings.database))])

/-- How many polls a replay of some documents may take. The loop that is modelled has no bound; a
total function needs one. Between two databases it is never reached, since every poll but the last
one takes a document away from those that are still to be read: this is
`Command.run_pollBound_ne_none`, and the length of a replay is what `DocStream.Proofs.Task.Progress`
is about. -/
def pollBound (docs : List Json) : Nat := 8 * (docs.length + 2)

/-- **A replay of some documents.** The error that it does not come to an end is not one of the
program's. It stands for the polls that go on without end when source and sink share a database and
every document that is written comes back as a change. -/
def replayDocuments (c : Config) (source : SourceSettings) (sink : SinkSettings)
    (docs : List Json) : Outcome Json := do
  let (store, loaded) ← Replay.load source.database {} 0 docs
  let start : Replay :=
    { store, loaded, source := { settings := source, converter := c.converter }, sink := ⟨sink⟩ }
  match ← start.run (pollBound docs) with
  | some done => return done.toJson
  | none => .error (.other "Replay does not come to an end")

variable {m : Type → Type} [Monad m]

/-- **The result of a subcommand**, given how input is read. A replay needs both sides of the
configuration, which the rules for settings do not ask for; it reads the documents only when both
are there. -/
def execute (read : Option String → m (Outcome String)) : Command → m (Outcome Json)
  | .infer input settings => do return (← read input) >>= (recordJson · settings)
  | .toDocument input id => do return (← read input) >>= (toDocumentJson · id)
  | .validate path => do
    return (← read (some path)) >>= Config.ofFile? path >>= fun c => .ok (configSummary c)
  | .replay path input => do
    match (← read (some path)) >>= Config.ofFile? path with
    | .error e => return .error e
    | .ok c =>
      match c.source, c.sink with
      | none, _ => return .error (.missingField "source")
      | _, none => return .error (.missingField "sink")
      | some source, some sink =>
        return (← read input) >>= documentsOf >>= replayDocuments c source sink

/-! ### Answers -/

/-- **The answer to a command line**: exit code and output. -/
structure Response where
  exitCode : UInt32
  output : String
  /-- What goes to the standard error output. -/
  complaint : String

/-- The name and the version of the program. -/
def versionText : String := "couch-connect 0.1.0"

/-- What the program shows when it is asked for help, or when arguments cannot be understood. -/
def helpText : String :=
  "Usage: couch-connect [-p|--pretty] [-v|--verbose] <COMMAND>\n\nCommands:\n" ++
  "  infer        [-i|--input FILE] [--flatten | --schemaless] [--max-depth N]\n" ++
  "  to-document  [-i|--input FILE] [--id ID]\n" ++
  "  validate     -c|--config FILE\n" ++
  "  replay       -c|--config FILE [-i|--input FILE]\n" ++
  "  help         [COMMAND]\n"

/-- The answer to arguments that lead to no command. Help and the version are what was asked for;
anything else is a mistake of the caller, with an exit code of its own. -/
def usageResponse : Usage → Response
  | .help => ⟨0, helpText, ""⟩
  | .version => ⟨0, versionText ++ "\n", ""⟩
  | _ => ⟨2, "", helpText⟩

/-- The answer to a command that has been carried out: its result, indented if asked for, or the
wording of its failure. -/
def resultResponse (pretty : Bool) : Outcome Json → Response
  | .ok j => ⟨0, (if pretty then j.indented else j.compact) ++ "\n", ""⟩
  | .error e => ⟨1, "", s!"Error: {e.message}\n"⟩

/-- **The answer to a command line**, given how input is read. Nothing is read if the arguments
cannot be understood. -/
def respond (read : Option String → m (Outcome String)) (args : List String) : m Response :=
  match Invocation.ofArgs? args with
  | .error usage => pure (usageResponse usage)
  | .ok invocation => do
    let result ← invocation.command.execute read
    return resultResponse invocation.pretty result

end Command
end DocStream
