/-!
# Conversion settings

How documents are converted: with a schema or without, nested or flattened, and how deep their
containers may nest.
-/

namespace DocStream

/-- How nested objects and arrays are described when a schema is inferred. -/
inductive Strategy where
  /-- By nested struct and array schemas. -/
  | nest
  /-- By one flat record of leaves, named by their paths. -/
  | flatten
deriving DecidableEq, Repr

namespace Strategy

def name : Strategy → String
  | nest => "Nest"
  | flatten => "Flatten"

end Strategy

/-- **Settings of a conversion**: by default, with a schema, nested like the document, and up to 64
containers deep. -/
structure ConversionSettings where
  /-- Infer a schema; otherwise documents become schemaless objects. -/
  structured : Bool := true
  flatten : Bool := false
  maxDepth : Nat := 64
deriving DecidableEq, Repr, Inhabited

namespace ConversionSettings

/-- The strategy that the settings select. It is of no account where no schema is inferred. -/
def strategy (s : ConversionSettings) : Strategy := if s.flatten then .flatten else .nest

end ConversionSettings
end DocStream
