import DocStream.Json.Token

/-!
# Writing JSON

Two layouts of a value. The compact one is the bare sequence of its tokens, each spelled out; the
indented one puts every item and member on a line of its own, two spaces per level.

* `Json.tokens` — the tokens of a value;
* `Json.compact` — their spellings in a row;
* `Json.indented` — the layout for readers.
-/

namespace DocStream.Json

mutual

/-- **The tokens of a value**, in order. -/
def tokens : Json → List Token
  | null => [.null]
  | bool b => [.bool b]
  | num n => [.num n]
  | str s => [.str (some s)]
  | arr items => .openArray :: itemTokens items
  | obj members => .openObject :: memberTokens members

/-- The tokens of an array after its opening bracket. -/
def itemTokens : List Json → List Token
  | [] => [.closeArray]
  | item :: rest => item.tokens ++ moreItemTokens rest

/-- The tokens of an array after an item. -/
def moreItemTokens : List Json → List Token
  | [] => [.closeArray]
  | item :: rest => .comma :: item.tokens ++ moreItemTokens rest

/-- The tokens of an object after its opening brace. -/
def memberTokens : List (String × Json) → List Token
  | [] => [.closeObject]
  | (name, value) :: rest => .str (some name) :: .colon :: value.tokens ++ moreMemberTokens rest

/-- The tokens of an object after a member. -/
def moreMemberTokens : List (String × Json) → List Token
  | [] => [.closeObject]
  | (name, value) :: rest =>
    .comma :: .str (some name) :: .colon :: value.tokens ++ moreMemberTokens rest

end

/-- **The compact text**: no space between tokens. Members are written in their order, so equal
values have equal texts. -/
def compact (j : Json) : String := String.ofList (j.tokens.flatMap Token.spell)

/-! ### Indented layout -/

/-- A line break and the indentation of a level. -/
def newline (level : Nat) : List Char := '\n' :: List.replicate (2 * level) ' '

mutual

/-- The lines of a value, the first one without its indentation. -/
def lines (level : Nat) : Json → List Char
  | arr [] => ['[', ']']
  | arr (item :: rest) =>
    '[' :: newline (level + 1) ++ lines (level + 1) item ++ moreItemLines (level + 1) rest
      ++ newline level ++ [']']
  | obj [] => ['\x7b', '\x7d']
  | obj ((name, value) :: rest) =>
    '\x7b' :: newline (level + 1) ++ Token.spellString name ++ [':', ' ']
      ++ lines (level + 1) value ++ moreMemberLines (level + 1) rest ++ newline level ++ ['\x7d']
  | null => Token.spell .null
  | bool b => Token.spell (.bool b)
  | num n => n.toChars
  | str s => Token.spellString s

/-- The lines of the items after the first. -/
def moreItemLines (level : Nat) : List Json → List Char
  | [] => []
  | item :: rest => ',' :: newline level ++ lines level item ++ moreItemLines level rest

/-- The lines of the members after the first. -/
def moreMemberLines (level : Nat) : List (String × Json) → List Char
  | [] => []
  | (name, value) :: rest =>
    ',' :: newline level ++ Token.spellString name ++ [':', ' '] ++ lines level value
      ++ moreMemberLines level rest

end

/-- **The indented text**, which says the same: empty containers stay on their line. -/
def indented (j : Json) : String := String.ofList (lines 0 j)

end DocStream.Json
