/-!
# Failures

Every way in which an operation of this library can fail, one constructor per cause, and the wording
of each in one place.

* `Error.message` — the text shown for a failure;
* `Error.isPerRecord` — whether a failure belongs to one document or record. Whoever works on a
  batch sets such an item aside and goes on; any other failure ends the batch.

The failures of a batch layout (`columnLayout`, `output`) and of the outside world (`io`,
`fileNotFound`, `store`) carry the text they come with.
-/

namespace DocStream

/-- A cause of failure, with what it takes to say where and why. -/
inductive Error where
  /-- A configuration that makes no sense as a whole. -/
  | config (message : String)
  | missingField (field : String)
  | invalidSetting (field message : String)
  /-- A text is no YAML, or not of the expected shape. -/
  | yamlText
  /-- A text is no JSON, or not of the expected shape. -/
  | jsonText
  /-- The items of an array have schemas that cannot be brought together. -/
  | mixedArray (path found : String)
  /-- A field has schemas that cannot be brought together across the items of an array. -/
  | conflictingField (field found : String)
  /-- A value does not fit what is expected at its place. -/
  | unhandled (expected found : String)
  | unknownType (name : String)
  /-- A value that is no record stands where a document has to be. -/
  | unsupportedRoot (found : String)
  | depthExceeded (maxDepth : Nat)
  | duplicatePath (path : String)
  /-- A number that no narrow type can take. -/
  | invalidNumber (text : String)
  /-- Columns that do not satisfy the rules of their layout. -/
  | columnLayout (detail : String)
  /-- A batch that cannot be put together. -/
  | output (message : String)
  | store (message : String)
  | io (detail : String)
  | fileNotFound (path : String)
  | other (text : String)
deriving DecidableEq, Repr, Inhabited

namespace Error

/-- **The wording of a failure.** All wordings stand here, so that no two places word a failure
differently; those of texts that cannot be read do not say where. -/
def message : Error → String
  | config message => s!"Configuration error: {message}"
  | missingField field => s!"Missing required config field: {field}"
  | invalidSetting field message => s!"Invalid config value for '{field}': {message}"
  | yamlText => "Failed to parse YAML: unexpected text"
  | jsonText => "Failed to parse JSON: unexpected text"
  | mixedArray path found => s!"Array at '{path}' mixes incompatible element schemas: {found}"
  | conflictingField field found =>
    s!"Field '{field}' has conflicting non-struct schemas across array elements: {found}"
  | unhandled expected found => s!"No conversion rule for {found} value against {expected} schema"
  | unknownType name => s!"Unknown type: {name}"
  | unsupportedRoot found => s!"Document writes require a mapping at the root, got {found}"
  | depthExceeded maxDepth => s!"Nesting depth exceeds the configured maximum of {maxDepth}"
  | duplicatePath path => s!"Flattened path '{path}' is produced more than once"
  | invalidNumber text => s!"Invalid decimal number: '{text}'"
  | columnLayout detail => s!"Arrow error: {detail}"
  | output message => s!"Output error: {message}"
  | store message => s!"Document store error: {message}"
  | io detail => s!"IO error: {detail}"
  | fileNotFound path => s!"File not found: {path}"
  | other text => text

/-- **Does the failure belong to one document or record?** These are the failures that lie with what
it contains: shapes that do not fit, types that are not known, numbers that cannot be read and paths
that clash. -/
def isPerRecord : Error → Bool
  | mixedArray .. | conflictingField .. | unhandled .. | unknownType .. | unsupportedRoot ..
  | depthExceeded .. | duplicatePath .. | invalidNumber .. => true
  | _ => false

/-- A failure with a word on where it happened put in front. The result belongs to no record,
whatever the failure did. -/
def inContext (context : String) (e : Error) : Error := other s!"{context}: {e.message}"

@[simp] theorem isPerRecord_inContext (context : String) (e : Error) :
    (e.inContext context).isPerRecord = false := rfl

end Error

/-- The outcome of an operation that can fail: a result, or the cause. -/
abbrev Outcome := Except Error

end DocStream
