import DocStream.Config.Basic
import DocStream.Json.Parser
import DocStream.Yaml.Node

/-!
# Reading configurations

A configuration is written in JSON or in YAML. What is read is the same, so there is one reader for
both; the notations differ in what they take for a text, a truth value, a size and so on, and that
is what a `SettingNotation` says.

A group of settings is given by name or, in JSON alone, by position in the order of declaration.
Names that do not belong to the group are passed over without a look at their values; a name of the
group that is given twice makes the text unreadable.

* `Config.read?` — the reader;
* `Config.ofJsonText?`, `Config.ofYamlText?` — reading and validating a text;
* `Config.ofFile?` — reading the contents of a file, by the ending of its name.
-/

namespace DocStream

/-- A group of settings, by name or by position. -/
inductive SettingGroup (α : Type) where
  | named (settings : List (String × α))
  | listed (settings : List α)

/-- **What a notation takes for what.** Each reader answers with none where the notation has
something else, and that makes the whole text unreadable. -/
structure SettingNotation (α : Type) where
  group? : α → Option (SettingGroup α)
  list? : α → Option (List α)
  text? : α → Option String
  bool? : α → Option Bool
  /-- A size: a number that 64 bits hold. -/
  size? : α → Option Nat
  /-- Does it stand for nothing at all? -/
  isNone? : α → Option Bool

namespace SettingGroup

variable {α : Type}

/-- The value of a name that may be given once; that it is not given at all is an answer too. -/
def single? (name : String) (settings : List (String × α)) : Option (Option α) :=
  match settings.filter fun s => s.1 == name with
  | [] => some none
  | [s] => some (some s.2)
  | _ => none

/-- **The settings of the given names**, in order, each if it is given. By position there may be
fewer than names, but not more. -/
def select? (names : List String) : SettingGroup α → Option (List (Option α))
  | named settings => names.mapM fun name => single? name settings
  | listed settings =>
    if settings.length ≤ names.length then
      some (settings.map some ++ List.replicate (names.length - settings.length) none)
    else none

end SettingGroup

namespace Config

variable {α : Type}

/-- A setting that has a default. The default is for a setting that is not given; one that cannot be
read is a failure. -/
def orDefault {β : Type} (default : β) (read? : α → Option β) : Option α → Option β
  | none => some default
  | some a => read? a

/-- A group of settings by the names of its members. -/
def members? (n : SettingNotation α) (names : List String) (a : α) : Option (List (Option α)) :=
  n.group? a >>= SettingGroup.select? names

def readConverter? (n : SettingNotation α) (a : α) : Option ConversionSettings := do
  match ← members? n ["use_structured_schema", "flatten_nested", "max_depth"] a with
  | [structured, flatten, maxDepth] =>
    let default : ConversionSettings := {}
    return { structured := ← orDefault default.structured n.bool? structured,
             flatten := ← orDefault default.flatten n.bool? flatten,
             maxDepth := ← orDefault default.maxDepth n.size? maxDepth }
  | _ => none

/-- The settings of the read side, of which database and topic have to be given. -/
def readSource? (n : SettingNotation α) (a : α) : Option SourceSettings := do
  match ← members? n ["database", "topic", "batch_size", "include_docs"] a with
  | [database, topic, batchSize, includeDocs] =>
    return { database := ← database >>= n.text?, topic := ← topic >>= n.text?,
             batchSize := ← orDefault defaultBatchSize n.size? batchSize,
             includeDocs := ← orDefault true n.bool? includeDocs }
  | _ => none

def texts? (n : SettingNotation α) (a : α) : Option (List String) := do
  (← n.list? a).mapM n.text?

/-- The settings of the write side, of which the database has to be given. -/
def readSink? (n : SettingNotation α) (a : α) : Option SinkSettings := do
  match ← members? n ["database", "topics", "id_header", "batch_size"] a with
  | [database, topics, idHeader, batchSize] =>
    return { database := ← database >>= n.text?,
             topics := ← orDefault [] (texts? n) topics,
             idHeader := ← orDefault defaultIdHeader n.text? idHeader,
             batchSize := ← orDefault defaultBatchSize n.size? batchSize }
  | _ => none

/-- Something that may be given as nothing at all. -/
def orNone? {β : Type} (n : SettingNotation α) (read? : α → Option β) (a : α) :
    Option (Option β) := do
  if ← n.isNone? a then return none else return some (← read? a)

/-- **Reading all settings**, in either notation. A side that is given as nothing is missing. -/
def read? (n : SettingNotation α) (a : α) : Option Config := do
  match ← members? n ["converter", "source", "sink"] a with
  | [converter, source, sink] =>
    return { converter := ← orDefault {} (readConverter? n) converter,
             source := ← orDefault none (orNone? n (readSource? n)) source,
             sink := ← orDefault none (orNone? n (readSink? n)) sink }
  | _ => none

/-! ### JSON -/

/-- Settings in JSON. A size is a number that is spelled as an integer, without sign; an object is a
group by name and an array one by position. -/
def json : SettingNotation Written where
  group?
    | .obj members =>
      (members.mapM fun (m : Option String × Written) => m.1.map (·, m.2)).map SettingGroup.named
    | .arr items => some (.listed items)
    | _ => none
  list?
    | .arr items => some items
    | _ => none
  text?
    | .str s => s
    | _ => none
  bool?
    | .bool b => some b
    | _ => none
  size?
    | .num n =>
      if n.negative then none
      else (n.toInteger?.map Int.toNat).filter (fitsUnsigned 64)
    | _ => none
  isNone?
    | .null => some true
    | _ => some false

/-! ### YAML -/

/-- The number of digits in a base, at least one; letters of either case. -/
def digits? (base : Nat) (cs : List Char) : Option Nat :=
  if cs.isEmpty then none
  else
    cs.foldlM (fun n c => ((Token.hexValue? c).filter (· < base)).map fun d => base * n + d) 0

/-- **A size in YAML**: decimal without leading zeros, or with a base in front; a plus may lead. -/
def yamlSize? (text : String) : Option Nat :=
  let cs := match text.toList with
    | '+' :: cs => cs
    | cs => cs
  let n? := match cs with
    | '0' :: 'x' :: ds => digits? 16 ds
    | '0' :: 'o' :: ds => digits? 8 ds
    | '0' :: 'b' :: ds => digits? 2 ds
    -- Digits after a leading zero are a text, not a number.
    | ['0'] => some 0
    | '0' :: _ => none
    | ds => Digits.plain? ds
  n?.filter (fitsUnsigned 64)

/-- The texts of truth values, in three cases of letters and no others. -/
def yamlBool? : String → Option Bool
  | "true" | "True" | "TRUE" => some true
  | "false" | "False" | "FALSE" => some false
  | _ => none

/-- The texts that stand for nothing. -/
def yamlNulls : List String := ["null", "Null", "NULL", "~"]

def yamlTag (kind : String) : Yaml.Tag := .ofString s!"tag:yaml.org,2002:{kind}"

/-- The text of a scalar that is to be read as the given kind: a plain one, or a literal block with
the tag of the kind. A quoted text is a text, whatever stands in it. -/
def yamlPlain? (kind : String) : Yaml.Node → Option String
  | .scalar .plain _ text => some text
  | .scalar .literal (some tag) text => if tag = yamlTag kind then some text else none
  | _ => none

/-- The text of a scalar, however written. -/
def yamlText? : Yaml.Node → Option String
  | .scalar _ _ text => some text
  | _ => none

/-- Settings in YAML, as nodes of a tree. References count as what they refer to. Where a group or a
list is expected, nothing written is an empty one. -/
def yaml (tree : Yaml.Tree) : SettingNotation Yaml.Node where
  group? node :=
    match tree.resolve node with
    | .mapping pairs =>
      (pairs.mapM fun (p : Yaml.Node × Yaml.Node) =>
        (yamlText? (tree.resolve p.1)).map (·, p.2)).map SettingGroup.named
    | .scalar .plain _ "" => some (.named [])
    | _ => none
  list? node :=
    match tree.resolve node with
    | .sequence items => some items
    | .scalar .plain _ "" => some []
    | _ => none
  text? node := yamlText? (tree.resolve node)
  bool? node := yamlPlain? "bool" (tree.resolve node) >>= yamlBool?
  size? node := yamlPlain? "int" (tree.resolve node) >>= yamlSize?
  isNone? node :=
    match tree.resolve node with
    | .scalar .plain none text => some (text.isEmpty || yamlNulls.contains text)
    | .scalar .plain (some tag) text =>
      if tag = yamlTag "null" then (if yamlNulls.contains text then some true else none)
      else some false
    | _ => some false

/-! ### Texts and files -/

/-- A configuration that has been read, if it satisfies the rules. What could not be read is
reported as such, without a word on where it fails. -/
def checked (unreadable : Error) : Option Config → Outcome Config
  | none => .error unreadable
  | some c => do
    c.validate
    return c

/-- **A configuration in JSON.** -/
def ofJsonText? (text : String) : Outcome Config :=
  checked .jsonText (Written.parse? text >>= read? json)

/-- **A configuration in YAML.** -/
def ofYamlText? (text : String) : Outcome Config :=
  checked .yamlText (do
    let tree ← Yaml.parse? text
    read? (yaml tree) tree.root)

/-- The last part of a path. -/
def fileName (path : String) : List Char := (path.toList.reverse.takeWhile (· ≠ '/')).reverse

/-- Does the name of a file end in `.json`, with something before? The case of letters counts. -/
def isJsonPath (path : String) : Bool :=
  let name := fileName path
  name.length > 5 && ".json".toList.isSuffixOf name

/-- **A configuration in a file**: JSON if the file's name says so, else YAML. -/
def ofFile? (path contents : String) : Outcome Config :=
  if isJsonPath path then ofJsonText? contents else ofYamlText? contents

end Config
end DocStream
