import DocStream.Yaml.Cursor
import DocStream.Json.Token

/-!
# Scalars in YAML texts

The text of a scalar, off a place where one starts. Lines of plain and quoted scalars are folded: a
single line break between them counts as a space, and of several all but the first count as
themselves. Block scalars keep or fold their lines as their header says.

* `Cursor.plain?` — a scalar without quotes;
* `Cursor.quoted?` — a scalar in single or double quotes;
* `Cursor.block?` — a scalar below a `|` or `>`.

Every loop goes over at most the characters that are left.
-/

namespace DocStream.Yaml

/-- Blanks and breaks met between two words of a scalar. -/
structure Gap where
  /-- Blanks, if no line has ended yet. -/
  blanks : List Char := []
  /-- The first line break, if a line has ended. -/
  firstBreak : Option (List Char) := none
  /-- The line breaks after it. -/
  moreBreaks : List Char := []

namespace Gap

/-- **What a gap counts as.** -/
def fold (g : Gap) : List Char :=
  match g.firstBreak with
  | none => g.blanks
  | some b =>
    if b = ['\n'] then (if g.moreBreaks.isEmpty then [' '] else g.moreBreaks)
    else b ++ g.moreBreaks

/-- The gap with one more line break. Blanks before the end of a line do not count. -/
def addBreak (g : Gap) (b : List Char) : Gap :=
  match g.firstBreak with
  | none => { g with blanks := [], firstBreak := some b }
  | some _ => { g with moreBreaks := g.moreBreaks ++ b }

/-- The gap at a place, and the place after it. A tab that stands for indentation, left of `indent`
on a line of its own, is no part of a gap. -/
def read? (indent : Int) : Nat → Gap → Cursor → Option (Gap × Cursor)
  | 0, g, c => some (g, c)
  | bound + 1, g, c =>
    match c.peek with
    | none => some (g, c)
    | some ch =>
      if isBlank ch then
        if g.firstBreak.isSome then
          if ch = '\t' && decide ((c.column : Int) < indent) then none
          else read? indent bound g c.skip
        else read? indent bound { g with blanks := g.blanks ++ [ch] } c.skip
      else if isBreak ch then
        let (b, c) := c.readLine
        read? indent bound (g.addBreak b) c
      else some (g, c)

end Gap

namespace Cursor

/-! ### Plain scalars -/

/-- A word of a plain scalar: up to a blank, a colon before a blank, or, inside brackets, a bracket
or a comma. A colon right before one of those cannot be read. -/
def plainWord? (flow : Bool) : List Char → Option (List Char)
  | [] => some []
  | ch :: rest =>
    let blankNext := match rest with
      | [] => true
      | d :: _ => isBlank d || isBreak d
    let bracketNext := match rest with
      | [] => false
      | d :: _ => [',', '?', '[', ']', '\x7b', '\x7d'].contains d
    if isBlank ch || isBreak ch then some []
    else if flow && ch = ':' && bracketNext then none
    else if ch = ':' && blankNext then some []
    else if flow && [',', '[', ']', '\x7b', '\x7d'].contains ch then some []
    else (plainWord? flow rest).map (ch :: ·)

/-- Words of a plain scalar, for at most `bound` of them. The result tells the text, the place after
it, and whether a line ended before that place. -/
def plainWords? (flow : Bool) (indent : Int) :
    Nat → (text : List Char) → Gap → Cursor → Option (List Char × Bool × Cursor)
  | 0, text, g, c => some (text, g.firstBreak.isSome, c)
  | bound + 1, text, g, c =>
    if c.atDocumentMark || c.isAt '#' then some (text, g.firstBreak.isSome, c)
    else do
      let word ← plainWord? flow c.rest
      let (text, g) := if word.isEmpty then (text, g) else (text ++ g.fold ++ word, {})
      let c := c.skipMany word.length
      if !(c.atBlank || c.atBreak) then some (text, g.firstBreak.isSome, c)
      else
        let (g, c) ← g.read? indent c.rest.length c
        if !flow && decide ((c.column : Int) < indent) then
          some (text, g.firstBreak.isSome, c)
        else plainWords? flow indent bound text g c

/-- **A plain scalar**, inside brackets or not, where blocks are indented to `indent`. -/
def plain? (c : Cursor) (flow : Bool) (indent : Int) : Option (List Char × Bool × Cursor) :=
  plainWords? flow (indent + 1) (c.rest.length + 1) [] {} c

/-! ### Quoted scalars -/

/-- The character of an escape of one letter. -/
def escape? : Char → Option Nat
  | '0' => some 0x00
  | 'a' => some 0x07
  | 'b' => some 0x08
  | 't' | '\t' => some 0x09
  | 'n' => some 0x0A
  | 'v' => some 0x0B
  | 'f' => some 0x0C
  | 'r' => some 0x0D
  | 'e' => some 0x1B
  | ' ' => some 0x20
  | '"' => some 0x22
  | '/' => some 0x2F
  | '\\' => some 0x5C
  | 'N' => some 0x85
  | '_' => some 0xA0
  | 'L' => some 0x2028
  | 'P' => some 0x2029
  | _ => none

/-- How many digits follow the letter of a numeric escape. -/
def escapeWidth? : Char → Option Nat
  | 'x' => some 2
  | 'u' => some 4
  | 'U' => some 8
  | _ => none

/-- The character of a code point, if it is one. -/
def charOf? (n : Nat) : Option Char :=
  if n < 0xD800 ∨ (0xE000 ≤ n ∧ n < 0x110000) then some (Char.ofNat n) else none

/-- The word of a quoted scalar: up to a blank, a break, the closing quote or an escaped break. The
flag tells whether an escaped break ended it. -/
def quotedWord? (single : Bool) : Nat → (word : List Char) → Cursor →
    Option (List Char × Bool × Cursor)
  | 0, word, c => some (word, false, c)
  | bound + 1, word, c =>
    match c.rest with
    | [] => some (word, false, c)
    | ch :: rest =>
      if isBlank ch || isBreak ch then some (word, false, c)
      else if single then
        if ch = '\'' then
          match rest with
          | '\'' :: _ => quotedWord? single bound (word ++ ['\'']) (c.skipMany 2)
          | _ => some (word, false, c)
        else quotedWord? single bound (word ++ [ch]) c.skip
      else if ch = '"' then some (word, false, c)
      else if ch = '\\' then
        match rest with
        | [] => none
        | e :: digits =>
          -- An escaped break joins two lines without a space.
          if isBreak e then some (word, true, c.skip.readLine.2)
          else
            match escape? e, escapeWidth? e with
            | some n, _ => quotedWord? single bound (word ++ [Char.ofNat n]) (c.skipMany 2)
            | none, some width => do
              let values ← (digits.take width).mapM Token.hexValue?
              if values.length < width then none
              else
                let ch ← charOf? (values.foldl (fun n d => 16 * n + d) 0)
                quotedWord? single bound (word ++ [ch]) (c.skipMany (2 + width))
            | none, none => none
      else quotedWord? single bound (word ++ [ch]) c.skip

/-- Words of a quoted scalar up to the closing quote, for at most `bound` of them. -/
def quotedWords? (single : Bool) : Nat → (text : List Char) → Cursor → Option (List Char × Cursor)
  | 0, _, _ => none
  | bound + 1, text, c =>
    if c.atDocumentMark || c.rest.isEmpty then none
    else do
      let (word, joined, c) ← quotedWord? single c.rest.length [] c
      let text := text ++ word
      if c.isAt (if single then '\'' else '"') then some (text, c.skip)
      else
        let start : Gap := if joined then { firstBreak := some [] } else {}
        let (g, c) ← start.read? 0 c.rest.length c
        quotedWords? single bound (text ++ g.fold) c

/-- **A quoted scalar**, from its opening quote on. -/
def quoted? (c : Cursor) (single : Bool) : Option (List Char × Cursor) :=
  quotedWords? single (c.rest.length + 1) [] c.skip

/-! ### Block scalars -/

/-- What happens to the line breaks at the end of a block scalar. -/
inductive Chomping where
  /-- All are dropped. -/
  | strip
  /-- One is kept. -/
  | clip
  /-- All are kept. -/
  | keep
deriving DecidableEq

/-- The sign of a header. -/
def chomping? : Option Char → Option Chomping
  | some '+' => some .keep
  | some '-' => some .strip
  | _ => none

/-- The width of a header; zero is none. -/
def width? : Option Char → Option Nat
  | some ch => (Digit.ofChar? ch).map Fin.val
  | none => none

/-- The header of a block scalar: sign and width in either order, each of which may be missing. -/
def blockHeader? (c : Cursor) : Option (Chomping × Nat × Cursor) :=
  match chomping? c.peek, width? c.peek with
  | some chomp, _ =>
    let c := c.skip
    match width? c.peek with
    | some 0 => none
    | some width => some (chomp, width, c.skip)
    | none => some (chomp, 0, c)
  | none, some 0 => none
  | none, some width =>
    let c := c.skip
    match chomping? c.peek with
    | some chomp => some (chomp, width, c.skip)
    | none => some (.clip, width, c)
  | none, none => some (.clip, 0, c)

/-- Empty lines before a line of a block scalar: their breaks, the widest indentation among them and
of that line, and the place. An indentation of zero is one that is not known yet. -/
def blockBreaks? (indent : Nat) : Nat → (breaks : List Char) → (widest : Nat) → Cursor →
    Option (List Char × Nat × Cursor)
  | 0, breaks, widest, c => some (breaks, widest, c)
  | bound + 1, breaks, widest, c =>
    let spaces := (c.rest.takeWhile (· = ' ')).length
    let c := c.skipMany (if indent = 0 then spaces else min spaces (indent - c.column))
    let widest := max widest c.column
    if (indent = 0 || c.column < indent) && c.isAt '\t' then none
    else if c.atBreak then
      let (b, c) := c.readLine
      blockBreaks? indent bound (breaks ++ b) widest c
    else some (breaks, widest, c)

/-- Lines of a block scalar, for at most `bound` of them. -/
def blockLines? (folded : Bool) (chomp : Chomping) (indent : Nat) :
    Nat → (text firstBreak moreBreaks : List Char) → (afterBlank : Bool) → Cursor →
    Option (List Char × Cursor)
  | 0, text, _, _, _, c => some (text, c)
  | bound + 1, text, firstBreak, moreBreaks, afterBlank, c =>
    if c.column = indent ∧ ¬ c.rest.isEmpty then do
      let blank := c.atBlank
      -- A break between two lines that both start without a blank is folded.
      let text :=
        if folded && firstBreak == ['\n'] && !afterBlank && !blank then
          text ++ (if moreBreaks.isEmpty then [' '] else [])
        else text ++ firstBreak
      let text := text ++ moreBreaks
      let (line, c) := c.takeWhile fun ch => !isBreak ch
      let (b, c) := c.readLine
      let (breaks, _, c) ← blockBreaks? indent (c.rest.length + 1) [] 0 c
      blockLines? folded chomp indent bound (text ++ line) b breaks blank c
    else
      some (match chomp with
        | .strip => text
        | .clip => text ++ firstBreak
        | .keep => text ++ firstBreak ++ moreBreaks, c)

/-- **A block scalar**, from its indicator on, where blocks are indented to `parent`. -/
def block? (c : Cursor) (folded : Bool) (parent : Int) : Option (List Char × Cursor) := do
  let (chomp, width, c) ← blockHeader? c.skip
  let afterBlanks := c.skipBlanks
  let c := if afterBlanks.isAt '#' then afterBlanks.skipToLineEnd else afterBlanks
  if !c.atLineEnd then none
  else
    let c := if c.atBreak then c.readLine.2 else c
    -- Without a width in the header the first line that is not empty sets the indentation.
    let given := if width = 0 then 0 else (max parent 0).toNat + width
    let (breaks, widest, c) ← blockBreaks? given (c.rest.length + 1) [] 0 c
    let indent := if given = 0 then max (max widest (parent + 1).toNat) 1 else given
    blockLines? folded chomp indent (c.rest.length + 1) [] [] breaks false c

end Cursor
end DocStream.Yaml
