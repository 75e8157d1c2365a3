import DocStream.Yaml.Cursor
import DocStream.Json.Token

/-!
# Tags

A tag names the kind of a node. It is written in the characters of a URI; any other character is
escaped: its octets in UTF-8 stand there, each as a percent sign and two hexadecimal digits. An
escape must have the shape of a UTF-8 sequence, but it need not encode a character, so a tag is a
list of octets and not a text.

* `Yaml.Tag` — the octets of a tag, with `Tag.ofString` for those that are known beforehand;
* `Cursor.escaped?` — the octets of one escaped character;
* `Cursor.uri?` — the octets of a run of URI characters and escapes.
-/

namespace DocStream.Yaml

/-- **A tag**, or a part of one, as octets. -/
abbrev Tag := List UInt8

namespace Tag

def ofString (s : String) : Tag := s.toUTF8.toList

/-- A tag ends before its first octet zero. -/
def ended (octets : Tag) : Tag := octets.takeWhile (· ≠ 0)

end Tag

/-- The marks that may stand in a tag besides letters, digits, `_` and `-`. -/
def uriMarks : List Char :=
  [';', '/', '?', ':', '@', '&', '=', '+', '$', '.', '!', '~', '*', '\'', '(', ')']

/-- The characters that stand for themselves in a tag; `enclosed` where no bracket can follow, which
allows three more marks. -/
def isUri (enclosed : Bool) (ch : Char) : Bool :=
  isWord ch || uriMarks.contains ch || (enclosed && [',', '[', ']'].contains ch)

/-- How many octets a UTF-8 sequence has, told from the high bits of its first. -/
def sequenceWidth? (first : UInt8) : Option Nat :=
  if first < 0x80 then some 1
  else if first < 0xC0 then none
  else if first < 0xE0 then some 2
  else if first < 0xF0 then some 3
  else if first < 0xF8 then some 4
  else none

/-- Has an octet the high bits of one that continues a UTF-8 sequence? -/
def isContinuation (octet : UInt8) : Bool := 0x80 ≤ octet && octet < 0xC0

/-- The octet that a percent sign and two digits stand for. -/
def escapedOctet? : List Char → Option UInt8
  | '%' :: high :: low :: _ => do
    return UInt8.ofNat (16 * (← Token.hexValue? high) + (← Token.hexValue? low))
  | _ => none

namespace Cursor

/-- **An escaped character**: as many escaped octets as the first of them asks for. -/
def escaped? (c : Cursor) : Option (Tag × Cursor) := do
  let first ← escapedOctet? c.rest
  let width ← sequenceWidth? first
  let others ← (List.range (width - 1)).mapM fun k => escapedOctet? (c.rest.drop (3 * (k + 1)))
  if others.all isContinuation then some (first :: others, c.skipMany (3 * width)) else none

/-- Characters of a URI and escapes, at most `bound` of them, after the octets read so far. -/
def uriFrom? (enclosed : Bool) : (bound : Nat) → Tag → Cursor → Option (Tag × Cursor)
  | 0, octets, c => some (octets, c)
  | bound + 1, octets, c =>
    match c.peek with
    | none => some (octets, c)
    | some ch =>
      if ch = '%' then do
        let (escaped, c) ← c.escaped?
        uriFrom? enclosed bound (octets ++ escaped) c
      else if isUri enclosed ch then
        uriFrom? enclosed bound (octets ++ [UInt8.ofNat ch.toNat]) c.skip
      else some (octets, c)

/-- **The octets of the URI characters and escapes** at a place, and the place after them; none if
an escape is broken. -/
def uri? (c : Cursor) (enclosed : Bool) : Option (Tag × Cursor) :=
  uriFrom? enclosed c.rest.length [] c

end Cursor
end DocStream.Yaml
