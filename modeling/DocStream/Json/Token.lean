import DocStream.Json.Basic
import DocStream.Text.Hex

/-!
# JSON tokens

The smallest pieces of a JSON text: brackets, separators, literals, numbers and strings. A token has
one spelling, `Token.spell`; reading a text, `Token.scanAll?`, also accepts the other spellings of a
string and blanks between tokens.

A string is scanned in two steps. `scanString?` turns the text between the quotes into pieces, each
a character or the number of a `\u` escape; `joinPieces?` then puts surrogate pairs together.
Escapes that form no character make a string without text: such a string can stand only where
nothing reads it, so the token keeps the hole as `none`.
-/

namespace DocStream

/-- **A token of a JSON text.** Numbers and strings carry what they spell, and a number its
spelling. -/
inductive Token where
  | openObject
  | closeObject
  | openArray
  | closeArray
  | comma
  | colon
  | null
  | bool (b : Bool)
  | num (n : Numeral)
  /-- A string; `none` if its escapes form no text. -/
  | str (s : Option String)
deriving DecidableEq

namespace Token

/-! ### Spelling -/

/-- **Spelling of a character in a string.** Quote, backslash and the control characters below
`U+0020` are escaped, by their short form if there is one; all else stands for itself. -/
def spellChar (c : Char) : List Char :=
  if c = '"' then ['\\', '"']
  else if c = '\\' then ['\\', '\\']
  else if c.toNat = 8 then ['\\', 'b']
  else if c.toNat = 12 then ['\\', 'f']
  else if c = '\n' then ['\\', 'n']
  else if c = '\r' then ['\\', 'r']
  else if c = '\t' then ['\\', 't']
  else if c.toNat < 32 then ['\\', 'u', '0', '0', Hex.digit (c.toNat / 16), Hex.digit c.toNat]
  else [c]

/-- A string with its quotes. -/
def spellString (s : String) : List Char := '"' :: (s.toList.flatMap spellChar ++ ['"'])

/-- **The spelling of a token.** A string without text is spelled as an escape that forms none. -/
def spell : Token → List Char
  | openObject => ['\x7b']
  | closeObject => ['\x7d']
  | openArray => ['[']
  | closeArray => [']']
  | comma => [',']
  | colon => [':']
  | null => ['n', 'u', 'l', 'l']
  | bool true => ['t', 'r', 'u', 'e']
  | bool false => ['f', 'a', 'l', 's', 'e']
  | num n => n.toChars
  | str (some s) => spellString s
  | str none => ['"', '\\', 'u', 'd', '8', '0', '0', '"']

/-! ### Strings -/

/-- The value of a hexadecimal digit, of either case. -/
def hexValue? (c : Char) : Option Nat :=
  let n := c.toNat
  if 48 ≤ n ∧ n < 58 then some (n - 48)
  else if 97 ≤ n ∧ n < 103 then some (n - 87)
  else if 65 ≤ n ∧ n < 71 then some (n - 55)
  else none

/-- A piece of a string as written. -/
inductive Piece where
  /-- A character, by itself or by a short escape. -/
  | char (c : Char)
  /-- A `\u` escape, by its number. -/
  | code (n : Nat)

/-- The character of a short escape, by the letter after the backslash. A slash may be escaped, but
need not be. -/
def shortEscape? : Char → Option Char
  | '"' => some '"'
  | '\\' => some '\\'
  | '/' => some '/'
  | 'b' => some '\x08'
  | 'f' => some '\x0c'
  | 'n' => some '\n'
  | 'r' => some '\r'
  | 't' => some '\t'
  | _ => none

/-- The pieces of a string up to its closing quote, and what follows the quote. Control characters
have to be escaped, and an escape has to be a known one. -/
def scanString? : List Char → Option (List Piece × List Char)
  | [] => none
  | '"' :: rest => some ([], rest)
  | '\\' :: 'u' :: a :: b :: c :: d :: rest => do
    let n := 4096 * (← hexValue? a) + 256 * (← hexValue? b) + 16 * (← hexValue? c) + (← hexValue? d)
    let (pieces, rest) ← scanString? rest
    return (.code n :: pieces, rest)
  | '\\' :: e :: rest => do
    let c ← shortEscape? e
    let (pieces, rest) ← scanString? rest
    return (.char c :: pieces, rest)
  | c :: rest =>
    if c.toNat < 32 ∨ c = '\\' then none else do
      let (pieces, rest) ← scanString? rest
      return (.char c :: pieces, rest)

/-- Is it the number of the first half of a surrogate pair? -/
def isLeading (n : Nat) : Bool := 0xD800 ≤ n && n < 0xDC00

/-- Is it the number of the second half of a surrogate pair? -/
def isTrailing (n : Nat) : Bool := 0xDC00 ≤ n && n < 0xE000

/-- **The text of the pieces**: two escapes that form a surrogate pair are one character; half a
pair is none. -/
def joinPieces? : List Piece → Option (List Char)
  | [] => some []
  | .char c :: rest => (joinPieces? rest).map (c :: ·)
  | .code n :: .code m :: rest =>
    if isLeading n then
      if isTrailing m then
        (joinPieces? rest).map (Char.ofNat (0x10000 + (n - 0xD800) * 0x400 + (m - 0xDC00)) :: ·)
      else none
    else if isTrailing n then none
    else (joinPieces? (.code m :: rest)).map (Char.ofNat n :: ·)
  | .code n :: rest =>
    if isLeading n || isTrailing n then none else (joinPieces? rest).map (Char.ofNat n :: ·)

/-! ### Scanning a text -/

/-- The characters that may stand between tokens. -/
def isSpace (c : Char) : Bool := c = ' ' || c = '\n' || c = '\r' || c = '\t'

/-- One token at the front of a text that does not start with a space. What follows the token is not
looked at, so that two tokens need no space between them. -/
def scan? : List Char → Option (Token × List Char)
  | '\x7b' :: rest => some (openObject, rest)
  | '\x7d' :: rest => some (closeObject, rest)
  | '[' :: rest => some (openArray, rest)
  | ']' :: rest => some (closeArray, rest)
  | ',' :: rest => some (comma, rest)
  | ':' :: rest => some (colon, rest)
  | 'n' :: 'u' :: 'l' :: 'l' :: rest => some (null, rest)
  | 't' :: 'r' :: 'u' :: 'e' :: rest => some (bool true, rest)
  | 'f' :: 'a' :: 'l' :: 's' :: 'e' :: rest => some (bool false, rest)
  | '"' :: rest => do
    let (pieces, rest) ← scanString? rest
    return (str ((joinPieces? pieces).map String.ofList), rest)
  | cs => do
    let (n, rest) ← Numeral.scan cs
    return (num n, rest)

/-- The tokens of a text, for texts of at most the given length. -/
def scanUpTo : Nat → List Char → Option (List Token)
  | _, [] => some []
  | 0, _ :: _ => none
  | bound + 1, c :: cs =>
    if isSpace c then scanUpTo bound cs
    else do
      let (token, rest) ← scan? (c :: cs)
      let tokens ← scanUpTo bound rest
      return token :: tokens

/-- **The tokens of a text**, or none if it does not fall into tokens. Every token has at least one
character, so the text's length bounds their number. -/
def scanAll? (cs : List Char) : Option (List Token) := scanUpTo cs.length cs

end Token
end DocStream
