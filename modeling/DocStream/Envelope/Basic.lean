import DocStream.Convert.Basic
import DocStream.Envelope.Payload
import DocStream.Envelope.WireSchema
import DocStream.Json.Parser
import DocStream.Plain

/-!
# Envelopes

A record on the wire: an object with a schema and a payload. The payload is the plain JSON of the
value; with a null or missing schema it is read back without one, as a document would be.

* `Envelope.toJson?` — writing, which checks the value against the schema;
* `Envelope.ofJson?` — reading;
* `Envelope.parse?` — reading from a text.
-/

namespace DocStream

/-- **A value with its schema**, if it has one. That the value is one of the schema is not part of
the type; writing checks it. -/
structure Envelope where
  schema : Option Schema
  payload : Value

namespace Envelope

/-- **Writing an envelope.** Both members are always there, so an envelope without a schema says so
with a null. A value that does not fit its schema is refused. -/
def toJson? (e : Envelope) : Outcome Json := do
  let schema := match e.schema with
    | some s => (WireSchema.ofSchema s).toJson
    | none => .null
  let payload ← e.payload.toPlain? e.schema
  return .obj (Members.ofList [("payload", payload), ("schema", schema)])

/-- **Reading an envelope.** A schema that is null or missing means that the payload is read like a
document, within the nesting that documents have by default; else the schema decides what the
payload has to be. Other members are not looked at. -/
def ofJson? : Json → Outcome Envelope
  | .obj members =>
    let payload := (Members.get? members "payload").getD .null
    match (Members.get? members "schema").getD .null with
    | .null => do
      let value ← payload.schemaless ({} : ConversionSettings).maxDepth 0
      return ⟨none, value⟩
    | j =>
      match WireSchema.ofJson? j with
      | none => .error .jsonText
      | some wire => do
        let schema ← wire.toSchema?
        let value ← Value.ofPlain? schema payload
        return ⟨some schema, value⟩
  | j => .error (.unhandled "envelope" j.kind)

/-- **Reading an envelope from a text.** The text is read as a value, so of several members of one
name the last counts. -/
def parse? (text : String) : Outcome Envelope :=
  match Json.parse? text with
  | some j => ofJson? j
  | none => .error .jsonText

end Envelope
end DocStream
