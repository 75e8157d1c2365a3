import DocStream.Yaml.Scalar
import DocStream.Yaml.Tag

/-!
# Tokens of a YAML text

A text falls into tokens. Besides those that are written there are some that indentation stands for:
the start of a block sequence or mapping where a line is indented further than the block around it,
and the end of a block where a line is indented less.

That something is a key shows only at the colon after it. The scanner therefore remembers, for every
level of brackets, where a key may have started (`KeyStart`), and puts the key's token there when
the colon comes. Such a key has to fit on one line and within 1024 octets.

* `Scanner.step?` — what stands at a place, and the place after it;
* `Yaml.tokens?` — all tokens of a text.
-/

namespace DocStream.Yaml

/-- How a scalar is written, as far as it matters. -/
inductive ScalarStyle where
  /-- Without quotes. -/
  | plain
  /-- As a block that keeps its lines. -/
  | literal
  /-- In any other way. -/
  | other
deriving DecidableEq

/-- **A token.** -/
inductive Token where
  /-- The version that the text declares. -/
  | versionDirective
  /-- A tag handle with what it stands for. -/
  | tagDirective (handle : String) (expansion : Tag)
  | documentStart
  | documentEnd
  | blockSequenceStart
  | blockMappingStart
  | blockEnd
  | flowSequenceStart
  | flowSequenceEnd
  | flowMappingStart
  | flowMappingEnd
  /-- A dash before an item. -/
  | blockEntry
  | flowEntry
  /-- The start of a key. -/
  | key
  /-- A colon before a value. -/
  | value
  /-- A reference to an anchor. -/
  | aliasOf (name : String)
  | anchor (name : String)
  /-- A tag: its handle, none if written out, and the rest. -/
  | tag (handle : Option String) (suffix : Tag)
  | scalar (style : ScalarStyle) (text : String)
deriving DecidableEq

/-- **Where a key may have started.** -/
structure KeyStart where
  /-- Has it to be a key, because it stands at the indentation of the block? -/
  required : Bool
  /-- How many tokens stand before it. -/
  tokens : Nat
  /-- Its distance from the start of the text, in octets. -/
  offset : Nat
  line : Nat
  column : Nat

/-- **A scanner** on its way through a text. -/
structure Scanner where
  cursor : Cursor
  tokens : List Token := []
  /-- The indentation of the block; `-1` outside of all. -/
  indent : Int := -1
  /-- The indentations of the blocks around. -/
  outer : List Int := []
  keyAllowed : Bool := true
  /-- The possible key of this level of brackets. -/
  keyStart : Option KeyStart := none
  /-- Those of the levels around; as many as there are open brackets. -/
  outerKeys : List (Option KeyStart) := []

namespace Scanner

def inFlow (s : Scanner) : Bool := !s.outerKeys.isEmpty

/-- One more token, with the place after it. -/
def emit (s : Scanner) (t : Token) (after : Cursor) : Scanner :=
  { s with tokens := s.tokens ++ [t], cursor := after }

/-- A token put before the one of the given number. -/
def insertToken (s : Scanner) (position : Nat) (t : Token) : Scanner :=
  { s with tokens := s.tokens.take position ++ t :: s.tokens.drop position }

/-! ### Indentation -/

/-- **The blocks that end at a column** are ended. -/
def unrollTo (column : Int) : List Int → Scanner → Scanner
  | outer, s =>
    if s.inFlow || s.indent ≤ column then s
    else
      match outer with
      | [] => { s with tokens := s.tokens ++ [.blockEnd], indent := -1, outer := [] }
      | i :: rest =>
        unrollTo column rest
          { s with tokens := s.tokens ++ [.blockEnd], indent := i, outer := rest }

/-- The blocks that end at a column are ended. -/
def unroll (s : Scanner) (column : Int) : Scanner := unrollTo column s.outer s

/-- **A block that starts at a column**, if that is further in than the block around: its token goes
to the given position. -/
def roll (s : Scanner) (column : Nat) (position : Nat) (t : Token) : Scanner :=
  if s.inFlow || (column : Int) ≤ s.indent then s
  else { s.insertToken position t with indent := column, outer := s.indent :: s.outer }

/-! ### Keys -/

/-- The possible key is none; which a required one must not turn out to be. -/
def dropKey? (s : Scanner) : Option Scanner :=
  match s.keyStart with
  | some k => if k.required then none else some { s with keyStart := none }
  | none => some s

/-- A key may start here. What may have been a key before is given up, unless it had to be one. -/
def saveKey? (s : Scanner) : Option Scanner :=
  if s.keyAllowed then do
    let s ← s.dropKey?
    let c := s.cursor
    let k : KeyStart :=
      { required := !s.inFlow && s.indent = c.column, tokens := s.tokens.length,
        offset := c.offset, line := c.line, column := c.column }
    return { s with keyStart := some k }
  else some s

/-- How many octets a key may take. -/
def longestKey : Nat := 1024

/-- Has the possible key become too long? None if it had to be one. -/
def expire? (c : Cursor) : Option KeyStart → Option (Option KeyStart)
  | none => some none
  | some k =>
    if k.line < c.line || k.offset + longestKey < c.offset then
      (if k.required then none else some none)
    else some (some k)

/-- Keys that have become too long, at all levels, are none. -/
def expireKeys? (s : Scanner) : Option Scanner := do
  let keyStart ← expire? s.cursor s.keyStart
  let outerKeys ← s.outerKeys.mapM (expire? s.cursor)
  return { s with keyStart, outerKeys }

/-! ### Between tokens -/

/-- Past blanks, comments and line breaks, and past a byte order mark at the start of a line. A tab
counts as a blank only where no key may start. -/
def skipGap : Nat → Scanner → Scanner
  | 0, s => s
  | bound + 1, s =>
    let (_, c) := s.cursor.skipOrderMark.takeWhile fun ch =>
      ch = ' ' || (ch = '\t' && (s.inFlow || !s.keyAllowed))
    let c := if c.isAt '#' then c.skipToLineEnd else c
    if c.atBreak then
      skipGap bound { s with cursor := c.readLine.2, keyAllowed := s.keyAllowed || !s.inFlow }
    else { s with cursor := c }

/-! ### What stands at a place -/

/-- A mark or a directive ends all blocks. -/
def outside? (s : Scanner) : Option Scanner := do
  let s ← (s.unroll (-1)).dropKey?
  return { s with keyAllowed := false }

/-- A number of a version: one to nine digits, leading zeros included. -/
def versionNumber? (c : Cursor) : Option (Nat × Cursor) :=
  let (digits, c) := c.takeWhile Char.isDigit
  if 9 < digits.length then none else (Digits.plain? digits).map (·, c)

/-- The rest of a directive that declares the version, which is 1.1 or 1.2. -/
def version? (c : Cursor) : Option (Token × Cursor) := do
  let (major, c) ← versionNumber? c
  if !c.isAt '.' then none
  else
    let (minor, c) ← versionNumber? c.skip
    if major = 1 ∧ (minor = 1 ∨ minor = 2) then some (.versionDirective, c) else none

/-- The rest of a directive that declares a tag handle. -/
def tagHandle? (c : Cursor) : Option (Token × Cursor) := do
  if !c.isAt '!' then none
  else
    let (word, c) := c.skip.takeWhile isWord
    let (handle, c) := if c.isAt '!' then ('!' :: word ++ ['!'], c.skip) else ('!' :: word, c)
    if !handle.getLast?.any (· = '!') || !c.atBlank then none
    else
      let (expansion, c) ← c.skipBlanks.uri? true
      if expansion.isEmpty || !c.blankOrEndAt 0 then none
      else some (.tagDirective (String.ofList handle) expansion.ended, c)

/-- A directive, from its percent sign on. -/
def directive? (s : Scanner) : Option Scanner := do
  let s ← s.outside?
  let (name, c) := s.cursor.skip.takeWhile isWord
  if !c.blankOrEndAt 0 then none
  else
    let c := c.skipBlanks
    let (t, c) ←
      if name = "YAML".toList then version? c
      else if name = "TAG".toList then tagHandle? c
      else none
    let c := c.skipBlanks
    let c := if c.isAt '#' then c.skipToLineEnd else c
    if c.atLineEnd then
      some ((s.emit t) (if c.atBreak then c.readLine.2 else c))
    else none

/-- An opening bracket or brace. -/
def openFlow? (s : Scanner) (t : Token) : Option Scanner := do
  let s ← s.saveKey?
  return { s.emit t s.cursor.skip with
    keyAllowed := true, keyStart := none, outerKeys := s.keyStart :: s.outerKeys }

/-- A closing bracket or brace. -/
def closeFlow? (s : Scanner) (t : Token) : Option Scanner := do
  let s ← s.dropKey?
  let (keyStart, outerKeys) := match s.outerKeys with
    | k :: rest => (k, rest)
    | [] => (none, [])
  return { s.emit t s.cursor.skip with keyAllowed := false, keyStart, outerKeys }

/-- A comma. It ends what came before, so a key may follow. -/
def flowEntry? (s : Scanner) : Option Scanner := do
  let s ← s.dropKey?
  return { s.emit .flowEntry s.cursor.skip with keyAllowed := true }

/-- A dash before an item. Outside of brackets it may start a block sequence, and has to stand where
a key could. -/
def blockEntry? (s : Scanner) : Option Scanner := do
  if !s.inFlow && !s.keyAllowed then none
  else
    let s := s.roll s.cursor.column s.tokens.length .blockSequenceStart
    let s ← s.dropKey?
    return { s.emit .blockEntry s.cursor.skip with keyAllowed := true }

/-- A question mark before a key. -/
def explicitKey? (s : Scanner) : Option Scanner := do
  if !s.inFlow && !s.keyAllowed then none
  else
    let s := s.roll s.cursor.column s.tokens.length .blockMappingStart
    let s ← s.dropKey?
    return { s.emit .key s.cursor.skip with keyAllowed := !s.inFlow }

/-- **A colon before a value.** What the possible key was becomes the key. -/
def value? (s : Scanner) : Option Scanner :=
  match s.keyStart with
  | some k =>
    let s := (s.insertToken k.tokens .key).roll k.column k.tokens .blockMappingStart
    some { s.emit .value s.cursor.skip with keyAllowed := false, keyStart := none }
  | none =>
    if !s.inFlow && !s.keyAllowed then none
    else
      let s := s.roll s.cursor.column s.tokens.length .blockMappingStart
      some { s.emit .value s.cursor.skip with keyAllowed := !s.inFlow }

/-- The name of an anchor, or of a reference to one. -/
def anchorName? (c : Cursor) : Option (String × Cursor) :=
  let (name, c) := c.skip.takeWhile isWord
  let ended := c.blankOrEndAt 0
    || (c.peek.any fun ch => ['?', ':', ',', ']', '\x7d', '%', '@', '\x60'].contains ch)
  if name.isEmpty || !ended then none else some (String.ofList name, c)

/-- A tag, from its exclamation mark on. -/
def tagAt? (s : Scanner) : Option (Token × Cursor) := do
  let c := s.cursor.skip
  let (t, c) ←
    if c.isAt '<' then do
      let (uri, c) ← c.skip.uri? true
      if uri.isEmpty || !c.isAt '>' then none else some (Token.tag none uri.ended, c.skip)
    else
      let (word, afterWord) := c.takeWhile isWord
      if afterWord.isAt '!' then do
        let (suffix, c) ← afterWord.skip.uri? false
        if suffix.isEmpty then none
        else some (.tag (some (String.ofList ('!' :: word ++ ['!']))) suffix.ended, c)
      else do
        let (suffix, c) ← c.uri? false
        if suffix.ended.isEmpty then some (.tag none (Tag.ofString "!"), c)
        else some (.tag (some "!") suffix.ended, c)
  if c.blankOrEndAt 0 || (s.inFlow && c.isAt ',') then some (t, c) else none

/-- Something that may be a key and is not followed by another one. -/
def content (s : Scanner) (t : Token) (after : Cursor) : Scanner :=
  { s.emit t after with keyAllowed := false }

/-- May a plain scalar start with the next character? -/
def startsPlain (s : Scanner) (ch : Char) : Bool :=
  let c := s.cursor
  let indicator := ['-', '?', ':', ',', '[', ']', '\x7b', '\x7d', '#', '&', '*', '!', '|', '>',
    '\'', '"', '%', '@', '\x60'].contains ch
  (!isBlank ch && !isBreak ch && !indicator)
    || (ch = '-' && !(c.peekAt 1).any isBlank)
    || (!s.inFlow && (ch = '?' || ch = ':') && !c.blankOrEndAt 1)

/-- **The token at a place.** -/
def token? (s : Scanner) (ch : Char) : Option Scanner :=
  let c := s.cursor
  -- Directives and marks, which stand at the start of a line.
  if c.column = 0 ∧ ch = '%' then s.directive?
  else if c.atMark '-' then do return (← s.outside?).emit .documentStart (c.skipMany 3)
  else if c.atMark '.' then do return (← s.outside?).emit .documentEnd (c.skipMany 3)
  -- Brackets and commas.
  else if ch = '[' then s.openFlow? .flowSequenceStart
  else if ch = '\x7b' then s.openFlow? .flowMappingStart
  else if ch = ']' then s.closeFlow? .flowSequenceEnd
  else if ch = '\x7d' then s.closeFlow? .flowMappingEnd
  else if ch = ',' then s.flowEntry?
  -- Dashes, question marks and colons, unless they start a plain scalar.
  else if ch = '-' ∧ c.blankOrEndAt 1 then s.blockEntry?
  else if ch = '?' ∧ (s.inFlow ∨ c.blankOrEndAt 1) then s.explicitKey?
  else if ch = ':' ∧ (s.inFlow ∨ c.blankOrEndAt 1) then s.value?
  -- References, anchors and tags.
  else if ch = '*' then do
    let s ← s.saveKey?
    let (name, c) ← anchorName? c
    return s.content (.aliasOf name) c
  else if ch = '&' then do
    let s ← s.saveKey?
    let (name, c) ← anchorName? c
    return s.content (.anchor name) c
  else if ch = '!' then do
    let s ← s.saveKey?
    let (t, c) ← s.tagAt?
    return s.content t c
  -- Scalars.
  else if (ch = '|' ∨ ch = '>') ∧ ¬ s.inFlow then do
    let s ← s.dropKey?
    let (text, c) ← c.block? (ch = '>') s.indent
    let style := if ch = '|' then ScalarStyle.literal else .other
    return { s.emit (.scalar style (String.ofList text)) c with keyAllowed := true }
  else if ch = '\'' ∨ ch = '"' then do
    let s ← s.saveKey?
    let (text, c) ← c.quoted? (ch = '\'')
    return s.content (.scalar .other (String.ofList text)) c
  else if s.startsPlain ch then do
    let s ← s.saveKey?
    let (text, lineEnded, c) ← c.plain? s.inFlow s.indent
    return { s.emit (.scalar .plain (String.ofList text)) c with keyAllowed := lineEnded }
  else none

/-- **One step**: past the gap, then the token at that place. The flag tells whether the text has
ended. -/
def step? (s : Scanner) : Option (Bool × Scanner) := do
  let s ← (s.skipGap (s.cursor.rest.length + 1)).expireKeys?
  let s := s.unroll s.cursor.column
  match s.cursor.peek with
  | none => do
    let s ← (s.unroll (-1)).dropKey?
    return (true, s)
  | some ch => do
    let s ← s.token? ch
    return (false, s)

/-- Steps to the end of the text, at most the given number. Each step takes a character at least, so
the length of the text bounds them. -/
def run? : Nat → Scanner → Option (List Token)
  | 0, _ => none
  | bound + 1, s => do
    let (ended, s) ← s.step?
    if ended then some s.tokens else run? bound s

end Scanner

/-- **The tokens of a text**; none if it does not fall into tokens. -/
def tokens? (text : String) : Option (List Token) :=
  let cs := text.toList
  if cs.all isAllowed then Scanner.run? (cs.length + 2) { cursor := { rest := cs } } else none

end DocStream.Yaml
