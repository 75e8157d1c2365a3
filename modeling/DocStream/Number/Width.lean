/-!
# Machine widths

The numbers that a machine word of a given width holds.

* `fitsUnsigned` — all bits for the number;
* `fitsSigned` — one bit for the sign.

What is read from a text or written into a column is checked against one of them.
-/

namespace DocStream

-- Powers of numbers are the core library's, so that they evaluate.
attribute [local instance (high)] instPowNat

/-- Do so many bits hold the number? -/
def fitsUnsigned (bits n : Nat) : Bool := n < 2 ^ bits

/-- Do so many bits hold the integer, one of them for its sign? -/
def fitsSigned (bits : Nat) (n : Int) : Bool := -(2 ^ (bits - 1)) ≤ n && n < 2 ^ (bits - 1)

/-- The greatest integer that so many bits hold, one of them for the sign. -/
def greatestSigned (bits : Nat) : Nat := 2 ^ (bits - 1) - 1

end DocStream
