/-!
# Blank characters

The characters with the Unicode property `White_Space`, and trimming by them. The table is the
property's list of code points as the Unicode character database gives it: twenty-five of them,
six in the ASCII range, `U+0085` and `U+00A0` in the Latin one, and the spaces and separators
beyond.

* `Blank.isBlank` — the property;
* `Blank.trim` — a text without the blanks at its two ends.
-/

namespace DocStream

/-- The code points with the property `White_Space`, as ranges with both ends included. -/
def Blank.ranges : List (Nat × Nat) :=
  [(0x09, 0x0D), (0x20, 0x20), (0x85, 0x85), (0xA0, 0xA0), (0x1680, 0x1680), (0x2000, 0x200A),
    (0x2028, 0x2029), (0x202F, 0x202F), (0x205F, 0x205F), (0x3000, 0x3000)]

/-- **Blankness**: the character has the property `White_Space`. -/
def Blank.isBlank (c : Char) : Bool :=
  Blank.ranges.any fun (low, high) => low ≤ c.toNat && c.toNat ≤ high

/-- A text without the blanks at its start. -/
def Blank.trimLeft (cs : List Char) : List Char := cs.dropWhile isBlank

/-- A text without the blanks at its start and at its end. Blanks inside stay. -/
def Blank.trim (cs : List Char) : List Char := (trimLeft (trimLeft cs).reverse).reverse

end DocStream
