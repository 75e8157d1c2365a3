/-!
# A place in a YAML text

The rest of the text with the line and the column where it starts; indentation is measured in
columns, and a simple key must not run over lines. How far a place is from the start of the text is
counted in octets of UTF-8.

* `Cursor.skip`, `Cursor.readLine` — one character further, one line break further;
* `Yaml.isBlank`, `Yaml.isBreak` — the characters that separate;
* `Yaml.isAllowed` — the characters that a text may hold at all.
-/

namespace DocStream.Yaml

def isBlank (c : Char) : Bool := c = ' ' || c = '\t'

/-- The characters that end a line, of which Unicode has three besides the usual ones. -/
def isBreak (c : Char) : Bool :=
  c = '\n' || c = '\r' || c.toNat = 0x85 || c.toNat = 0x2028 || c.toNat = 0x2029

/-- Characters of anchors and tag handles. -/
def isWord (c : Char) : Bool :=
  ('0' ≤ c && c ≤ '9') || ('a' ≤ c && c ≤ 'z') || ('A' ≤ c && c ≤ 'Z') || c = '_' || c = '-'

/-- May a text hold the character? Most control characters are left out. -/
def isAllowed (c : Char) : Bool :=
  let n := c.toNat
  n = 0x09 || n = 0x0A || n = 0x0D || (0x20 ≤ n && n ≤ 0x7E) || n = 0x85
    || (0xA0 ≤ n && n ≤ 0xFFFD) || 0x10000 ≤ n

/-- How many octets characters take in UTF-8. -/
def octetCount (cs : List Char) : Nat := cs.foldr (fun c n => c.utf8Size + n) 0

/-- **A place in a text.** -/
structure Cursor where
  rest : List Char
  /-- How many octets of UTF-8 stand before. -/
  offset : Nat := 0
  /-- How many line breaks stand before. -/
  line : Nat := 0
  /-- How many characters stand before on the line. -/
  column : Nat := 0

namespace Cursor

def peek (c : Cursor) : Option Char := c.rest.head?

def peekAt (c : Cursor) (n : Nat) : Option Char := c.rest[n]?

def isAt (c : Cursor) (ch : Char) : Bool := c.peek == some ch

/-- Does a blank, a line break or the end follow after `n` characters? -/
def blankOrEndAt (c : Cursor) (n : Nat) : Bool :=
  match c.peekAt n with
  | none => true
  | some ch => isBlank ch || isBreak ch

/-- Does a line break or the end follow? -/
def atLineEnd (c : Cursor) : Bool :=
  match c.peek with
  | none => true
  | some ch => isBreak ch

def atBlank (c : Cursor) : Bool :=
  match c.peek with
  | none => false
  | some ch => isBlank ch

def atBreak (c : Cursor) : Bool :=
  match c.peek with
  | none => false
  | some ch => isBreak ch

/-- Some characters further, none of which is a line break. -/
def skipMany (c : Cursor) (n : Nat) : Cursor :=
  { c with
    rest := c.rest.drop n, offset := c.offset + octetCount (c.rest.take n), column := c.column + n }

/-- One character further, which is no line break. -/
def skip (c : Cursor) : Cursor := c.skipMany 1

/-- **One line break further**, and the character it stands for. Breaks of all kinds count as one
and the same, but for the two separators of Unicode, which stay what they are. -/
def readLine (c : Cursor) : List Char × Cursor :=
  match c.rest with
  | '\r' :: '\n' :: rest =>
    (['\n'], { rest, offset := c.offset + 2, line := c.line + 1, column := 0 })
  | ch :: rest =>
    (if ch.toNat = 0x2028 || ch.toNat = 0x2029 then [ch] else ['\n'],
      { rest, offset := c.offset + ch.utf8Size, line := c.line + 1, column := 0 })
  | [] => ([], c)

/-- The characters up to the first that does not satisfy `p`, none of them a line break, and the
place after them. -/
def takeWhile (c : Cursor) (p : Char → Bool) : List Char × Cursor :=
  let taken := c.rest.takeWhile p
  (taken, c.skipMany taken.length)

/-- Past a byte order mark, if one starts the line, as it may on every line. It takes a column, so
what follows it does not start the line any more. -/
def skipOrderMark (c : Cursor) : Cursor :=
  if c.column = 0 && c.isAt '\ufeff' then c.skip else c

def skipBlanks (c : Cursor) : Cursor := (c.takeWhile isBlank).2

def skipToLineEnd (c : Cursor) : Cursor := (c.takeWhile fun ch => !isBreak ch).2

/-- Is the place the start of a line with a mark of three equal characters standing alone? -/
def atMark (c : Cursor) (ch : Char) : Bool :=
  c.column = 0 && c.rest.take 3 == [ch, ch, ch] && c.blankOrEndAt 3

/-- Is the place a mark that starts or ends a document? -/
def atDocumentMark (c : Cursor) : Bool := c.atMark '-' || c.atMark '.'

end Cursor
end DocStream.Yaml
