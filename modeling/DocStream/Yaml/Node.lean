import DocStream.Yaml.Token

/-!
# YAML nodes

The tree that a text holds: scalars, sequences and mappings, and references to nodes with an anchor.
A mapping keeps its pairs as written, repeated keys included.

References stay in the tree, because a node may refer to one that it is part of. Each anchor gets a
number, a reference holds the number that its name has at that place, and the number tells the node
once the text has been read: `Tree.resolve`. A number may be taken again, by an anchor whose name
was known already; it belongs to the latest node that took it, for earlier references too.

The grammar is the one of tokens: a *block* node may use indentation, a *flow* node, inside
brackets, may not. A place where a node may stand and none does holds an empty plain scalar.

* `Yaml.Node` — a node;
* `Yaml.Tree` — the node of a text, with those that are referred to;
* `Yaml.Anchors` — the anchors met so far, with their numbers;
* `Yaml.parse?` — the tree of a text that holds one document; a text without a document is an empty
  plain scalar as well.

All readers go over at most the tokens that there are; the bound counts them.
-/

namespace DocStream.Yaml

/-- **A node.** -/
inductive Node where
  | scalar (style : ScalarStyle) (tag : Option Tag) (text : String)
  | sequence (items : List Node)
  | mapping (pairs : List (Node × Node))
  /-- A reference to the node of a number. -/
  | reference (number : Nat)
deriving Inhabited

/-- **The tree of a text.** -/
structure Tree where
  root : Node
  /-- The nodes with a number; of several with one number the first counts. -/
  numbered : List (Nat × Node) := []

/-- **The node that is meant**: the one that a reference refers to, and any other node itself. A
reference takes no anchor, so it has no number, and one step is enough. -/
def Tree.resolve (t : Tree) : Node → Node
  | .reference number => (t.numbered.lookup number).getD (.reference number)
  | node => node

/-- **The anchors met so far**, with the names as they stand at this place. A name that is used
again counts from there on. -/
structure Anchors where
  /-- The number that each name stands for at this place. -/
  numbers : List (String × Nat) := []
  /-- The nodes with a number, the latest first; one that is still open has no tree yet. -/
  nodes : List (Nat × Option Node) := []

namespace Anchors

/-- **A name for a node that is about to be read**, and the number it gets: the count of the names
known so far, of which it may be one. -/
def bind (a : Anchors) (name : String) : Nat × Anchors :=
  let number := a.numbers.length
  let numbers := (name, number) :: a.numbers.filter (·.1 ≠ name)
  (number, { numbers, nodes := (number, none) :: a.nodes })

/-- The first open entry of a number filled. -/
def fill (number : Nat) (node : Node) : List (Nat × Option Node) → List (Nat × Option Node)
  | [] => []
  | (n, none) :: rest =>
    if n = number then (n, some node) :: rest else (n, none) :: fill number node rest
  | entry :: rest => entry :: fill number node rest

/-- **The node of a number**, now that it has been read. Of two that are open under one number the
inner one, which was met later, ends first. -/
def close (a : Anchors) (number : Nat) (node : Node) : Anchors :=
  { a with nodes := fill number node a.nodes }

/-- The nodes that have been read, with their numbers. -/
def finished (a : Anchors) : List (Nat × Node) :=
  a.nodes.filterMap fun (number, node?) => node?.map (number, ·)

end Anchors

namespace Node

/-- The scalar where none is written. -/
def empty : Node := scalar .plain none ""

/-- Tag handles with what they stand for. -/
abbrev Handles := List (String × Tag)

/-- What is left to read, and the anchors met on the way. -/
structure Reading where
  rest : List Token
  anchors : Anchors := {}

/-- The handles that need no declaration. -/
def defaultHandles : Handles :=
  [("!", Tag.ofString "!"), ("!!", Tag.ofString "tag:yaml.org,2002:")]

/-- A tag written out. -/
def expandTag? (handles : Handles) (handle : Option String) (suffix : Tag) : Option Tag :=
  match handle with
  | none => some suffix
  | some h => (handles.lookup h).map (· ++ suffix)

/-- The tag of a scalar: `!` alone says that it has none. -/
def scalarTag? (tag : Option Tag) : Option Tag := tag.filter (· ≠ Tag.ofString "!")

/-- The anchor and the tag of a node, in either order, each at most once. -/
def properties? (handles : Handles) : Nat → (anchor : Option String) → (tag : Option Tag) →
    List Token → Option (Option String × Option Tag × List Token)
  | bound + 1, none, tag, .anchor name :: rest => properties? handles bound (some name) tag rest
  | bound + 1, anchor, none, .tag handle suffix :: rest => do
    let tag ← expandTag? handles handle suffix
    properties? handles bound anchor (some tag) rest
  | _, anchor, tag, rest => some (anchor, tag, rest)

mutual

/-- **A node.** `block` tells whether indentation may be used, `indentless` whether a sequence may
stand at the indentation of its key. -/
def read? (handles : Handles) : (bound : Nat) → (block indentless : Bool) → Reading →
    Option (Node × Reading)
  | 0, _, _, _ => none
  | bound + 1, block, indentless, r =>
    match r.rest with
    | .aliasOf name :: rest => do
      let number ← r.anchors.numbers.lookup name
      return (reference number, { r with rest })
    | _ => do
      let (anchor, tag, rest) ← properties? handles 2 none none r.rest
      let hasProperties := anchor.isSome || tag.isSome
      match anchor with
      | none => readContent? handles bound block indentless hasProperties tag { r with rest }
      | some name =>
        let (number, anchors) := r.anchors.bind name
        let (node, r) ←
          readContent? handles bound block indentless hasProperties tag { rest, anchors }
        return (node, { r with anchors := r.anchors.close number node })

/-- A node after its anchor and tag. If none is there, an anchor or a tag alone makes it an empty
scalar. -/
def readContent? (handles : Handles) : (bound : Nat) → (block indentless hasProperties : Bool) →
    (tag : Option Tag) → Reading → Option (Node × Reading)
  | 0, _, _, _, _, _ => none
  | bound + 1, block, indentless, hasProperties, tag, r =>
    match r.rest, block, indentless with
    | .blockEntry :: _, _, true => do
      let (items, r) ← readIndentless? handles bound r
      return (sequence items, r)
    | .scalar style text :: rest, _, _ =>
      some (scalar style (scalarTag? tag) text, { r with rest })
    | .flowSequenceStart :: rest, _, _ => do
      let (items, r) ← readFlowItems? handles bound true { r with rest }
      return (sequence items, r)
    | .flowMappingStart :: rest, _, _ => do
      let (pairs, r) ← readFlowPairs? handles bound true { r with rest }
      return (mapping pairs, r)
    | .blockSequenceStart :: rest, true, _ => do
      let (items, r) ← readBlockItems? handles bound { r with rest }
      return (sequence items, r)
    | .blockMappingStart :: rest, true, _ => do
      let (pairs, r) ← readBlockPairs? handles bound { r with rest }
      return (mapping pairs, r)
    | _, _, _ => if hasProperties then some (scalar .plain tag "", r) else none

/-- The items of a block sequence, up to the end of the block. -/
def readBlockItems? (handles : Handles) : (bound : Nat) → Reading → Option (List Node × Reading)
  | 0, _ => none
  | bound + 1, r =>
    match r.rest with
    | .blockEntry :: rest => do
      let r := { r with rest }
      let (item, r) ← match rest with
        | .blockEntry :: _ | .blockEnd :: _ => some (empty, r)
        | _ => read? handles bound true false r
      let (items, r) ← readBlockItems? handles bound r
      return (item :: items, r)
    | .blockEnd :: rest => some ([], { r with rest })
    | _ => none

/-- The items of a sequence at the indentation of its key. -/
def readIndentless? (handles : Handles) : (bound : Nat) → Reading → Option (List Node × Reading)
  | 0, _ => none
  | bound + 1, r =>
    match r.rest with
    | .blockEntry :: rest => do
      let r := { r with rest }
      let (item, r) ← match rest with
        | .blockEntry :: _ | .key :: _ | .value :: _ | .blockEnd :: _ => some (empty, r)
        | _ => read? handles bound true false r
      let (items, r) ← readIndentless? handles bound r
      return (item :: items, r)
    | _ => some ([], r)

/-- The pairs of a block mapping, up to the end of the block. -/
def readBlockPairs? (handles : Handles) : (bound : Nat) → Reading →
    Option (List (Node × Node) × Reading)
  | 0, _ => none
  | bound + 1, r =>
    match r.rest with
    | .key :: rest => do
      let (key, r) ← readBlockPart? handles bound { r with rest }
      let (value, r) ← match r.rest with
        | .value :: rest => readBlockPart? handles bound { r with rest }
        | _ => some (empty, r)
      let (pairs, r) ← readBlockPairs? handles bound r
      return ((key, value) :: pairs, r)
    | .blockEnd :: rest => some ([], { r with rest })
    | _ => none

/-- A key or a value of a block mapping, which may be missing. -/
def readBlockPart? (handles : Handles) : (bound : Nat) → Reading → Option (Node × Reading)
  | 0, _ => none
  | bound + 1, r =>
    match r.rest with
    | .key :: _ | .value :: _ | .blockEnd :: _ => some (empty, r)
    | _ => read? handles bound true true r

/-- The items of a flow sequence, up to its bracket; a pair among them is a mapping of its own. -/
def readFlowItems? (handles : Handles) : (bound : Nat) → (first : Bool) → Reading →
    Option (List Node × Reading)
  | 0, _, _ => none
  | bound + 1, first, r =>
    match r.rest with
    | .flowSequenceEnd :: rest => some ([], { r with rest })
    | tokens => do
      let rest ← match first, tokens with
        | true, _ => some tokens
        | false, .flowEntry :: rest => some rest
        | false, _ => none
      let r := { r with rest }
      match rest with
      | .flowSequenceEnd :: rest => some ([], { r with rest })
      | .key :: rest => do
        let (pair, r) ← readFlowPair? handles bound { r with rest }
        let (items, r) ← readFlowItems? handles bound false r
        return (mapping [pair] :: items, r)
      | _ => do
        let (item, r) ← read? handles bound false false r
        let (items, r) ← readFlowItems? handles bound false r
        return (item :: items, r)

/-- A pair among the items of a flow sequence, after the start of its key. A key that is missing
takes the token with it that stands in its place. -/
def readFlowPair? (handles : Handles) : (bound : Nat) → Reading → Option ((Node × Node) × Reading)
  | 0, _ => none
  | bound + 1, r => do
    let (key, r) ← match r.rest with
      | .value :: rest | .flowEntry :: rest | .flowSequenceEnd :: rest =>
        some (empty, { r with rest })
      | _ => read? handles bound false false r
    let (value, r) ← match r.rest with
      | .value :: rest => match rest with
        | .flowEntry :: _ | .flowSequenceEnd :: _ => some (empty, { r with rest })
        | _ => read? handles bound false false { r with rest }
      | _ => some (empty, r)
    return ((key, value), r)

/-- The pairs of a flow mapping, up to its brace. -/
def readFlowPairs? (handles : Handles) : (bound : Nat) → (first : Bool) → Reading →
    Option (List (Node × Node) × Reading)
  | 0, _, _ => none
  | bound + 1, first, r =>
    match r.rest with
    | .flowMappingEnd :: rest => some ([], { r with rest })
    | tokens => do
      let rest ← match first, tokens with
        | true, _ => some tokens
        | false, .flowEntry :: rest => some rest
        | false, _ => none
      let r := { r with rest }
      match rest with
      | .flowMappingEnd :: rest => some ([], { r with rest })
      | .key :: rest => do
        let (key, r) ← match rest with
          | .value :: _ | .flowEntry :: _ | .flowMappingEnd :: _ => some (empty, { r with rest })
          | _ => read? handles bound false false { r with rest }
        let (value, r) ← match r.rest with
          | .value :: rest => match rest with
            | .flowEntry :: _ | .flowMappingEnd :: _ => some (empty, { r with rest })
            | _ => read? handles bound false false { r with rest }
          | _ => some (empty, r)
        let (pairs, r) ← readFlowPairs? handles bound false r
        return ((key, value) :: pairs, r)
      | _ => do
        let (key, r) ← read? handles bound false false r
        let (pairs, r) ← readFlowPairs? handles bound false r
        return ((key, empty) :: pairs, r)

end

/-- The directives at the start of a document: the version at most once, each handle at most once.
-/
def directives? : (versioned : Bool) → Handles → List Token → Option (Handles × List Token)
  | false, handles, .versionDirective :: rest => directives? true handles rest
  | true, _, .versionDirective :: _ => none
  | versioned, handles, .tagDirective handle expansion :: rest =>
    if handles.any (·.1 = handle) then none
    else directives? versioned ((handle, expansion) :: handles) rest
  | _, handles, rest => some (handles, rest)

/-- A node and nothing around it, off the given tokens. -/
def top? (handles : Handles) (tokens : List Token) : Option (Tree × List Token) := do
  -- Between two tokens the readers call each other fewer than six times.
  let (root, r) ← read? handles (6 * tokens.length + 6) true false { rest := tokens }
  return ({ root, numbered := r.anchors.finished }, r.rest)

/-- The tree of a document, after its start. -/
def document? (handles : Handles) (tokens : List Token) : Option (Tree × List Token) :=
  match tokens with
  | [] | .documentStart :: _ | .documentEnd :: _ | .versionDirective :: _
  | .tagDirective _ _ :: _ => some ({ root := empty }, tokens)
  | _ => top? handles tokens

end Node

/-- The tree of tokens: one document, with or without a mark at its start, and nothing behind it but
marks of an end. -/
def Tree.ofTokens? (tokens : List Token) : Option Tree := do
  let explicit := match tokens with
    | .versionDirective :: _ | .tagDirective _ _ :: _ | .documentStart :: _ => true
    | _ => false
  let (tree, rest) ←
    if tokens.isEmpty then some ({ root := Node.empty }, [])
    else if explicit then do
      let (handles, rest) ← Node.directives? false [] tokens
      match rest with
      | .documentStart :: rest => Node.document? (handles ++ Node.defaultHandles) rest
      | _ => none
    else Node.top? Node.defaultHandles tokens
  if rest.all (· = .documentEnd) then some tree else none

/-- **The tree of a text** that holds at most one document. -/
def parse? (text : String) : Option Tree := tokens? text >>= Tree.ofTokens?

end DocStream.Yaml
