import DocStream.Number.Width

/-!
# Decimal digits

Digit lists in base ten, most significant digit first, and the natural numbers they denote.

* `Digits.value` — the number a digit list denotes, by Horner's rule;
* `Digits.ofNat` — the digits of a number without leading zeros, `[0]` for zero;
* `Digits.span` — the longest run of digit characters at the front of a text;
* `Digits.signed?`, `Digits.unsigned64?`, `Digits.signed64?` — integers that make up a whole text.

Every number text in this library (JSON numbers, decimals, shortest float texts) is put together
from the first three.
-/

namespace DocStream

abbrev Digit := Fin 10

namespace Digit

def zero : Digit := ⟨0, by decide⟩

def toChar (d : Digit) : Char := Char.ofNat (48 + d.val)

/-- The digit an ASCII character stands for. Digits of other scripts are no digits here. -/
def ofChar? (c : Char) : Option Digit :=
  if h : 48 ≤ c.toNat ∧ c.toNat < 58 then some ⟨c.toNat - 48, by omega⟩ else none

@[simp] theorem ofChar?_toChar (d : Digit) : ofChar? d.toChar = some d := by
  revert d; decide

end Digit

namespace Digits

/-- **Horner's rule** from a starting value: reading one more digit multiplies by ten. -/
def valueFrom (start : Nat) (ds : List Digit) : Nat :=
  ds.foldl (fun acc d => 10 * acc + d.val) start

/-- The number a digit list denotes; the empty list denotes zero. -/
def value (ds : List Digit) : Nat := valueFrom 0 ds

@[simp] theorem valueFrom_nil (start : Nat) : valueFrom start [] = start := rfl

@[simp] theorem valueFrom_cons (start : Nat) (d : Digit) (ds : List Digit) :
    valueFrom start (d :: ds) = valueFrom (10 * start + d.val) ds := rfl

@[simp] theorem value_nil : value [] = 0 := rfl

/-- Reading goes on where the first part stopped. -/
theorem valueFrom_append (start : Nat) (ds es : List Digit) :
    valueFrom start (ds ++ es) = valueFrom (valueFrom start ds) es := by
  simp [valueFrom, List.foldl_append]

def last (n : Nat) : Digit := ⟨n % 10, Nat.mod_lt n (by decide)⟩

/-- The digits of `n` in front of `tail`. -/
def prepend (n : Nat) (tail : List Digit) : List Digit :=
  if n < 10 then last n :: tail else prepend (n / 10) (last n :: tail)
termination_by n

/-- The digits of a number, without leading zeros; zero has the one digit `0`. -/
def ofNat (n : Nat) : List Digit := prepend n []

/-- How many digits a number has; zero has one. -/
def count (n : Nat) : Nat := (ofNat n).length

/-- Digits in front of others are read before these, from zero on. -/
theorem valueFrom_prepend (n : Nat) (tail : List Digit) :
    valueFrom 0 (prepend n tail) = valueFrom n tail := by
  induction n using Nat.strongRecOn generalizing tail with
  | ind n ih =>
    rw [prepend]
    split
    · next h => simp [last, Nat.mod_eq_of_lt h]
    · next h =>
      rw [ih (n / 10) (by omega)]
      simp [last, Nat.div_add_mod]

/-- **Writing then reading** a number gives the number back. -/
@[simp] theorem value_ofNat (n : Nat) : value (ofNat n) = n :=
  valueFrom_prepend n []

/-- The longest run of digit characters at the front of a text, and what follows it. -/
def span : List Char → List Digit × List Char
  | [] => ([], [])
  | c :: cs =>
    match Digit.ofChar? c with
    | some d => let (ds, rest) := span cs; (d :: ds, rest)
    | none => ([], c :: cs)

def toChars (ds : List Digit) : List Char := ds.map Digit.toChar

/-- A run of digits is read back whole, if what follows starts with no digit. -/
theorem span_toChars_append (ds : List Digit) (rest : List Char)
    (h : ∀ c ∈ rest.head?, Digit.ofChar? c = none) :
    span (toChars ds ++ rest) = (ds, rest) := by
  induction ds with
  | nil =>
    cases rest with
    | nil => rfl
    | cons c cs => simp [toChars, span, h c (by simp)]
  | cons d ds ih =>
    simp only [toChars, List.map_cons, List.cons_append, span, Digit.ofChar?_toChar]
    simp only [toChars] at ih
    rw [ih]

/-! ### Integers in texts -/

/-- An optional sign in front of a text: is it a minus, and what follows. -/
def splitSign : List Char → Bool × List Char
  | '-' :: cs => (true, cs)
  | '+' :: cs => (false, cs)
  | cs => (false, cs)

/-- The number of a text that consists of digits, at least one. Leading zeros do not matter. -/
def plain? (cs : List Char) : Option Nat :=
  match span cs with
  | ([], _) => none
  | (ds, []) => some (value ds)
  | _ => none

/-- **The integer of a text** that consists of an optional sign and digits. -/
def signed? (cs : List Char) : Option Int :=
  let (negative, cs) := splitSign cs
  (plain? cs).map fun n => if negative then -(n : Int) else n

/-- **The number of a text** that consists of digits, after a plus or not, if 64 bits hold it. -/
def unsigned64? (text : String) : Option Nat :=
  let cs := match text.toList with
    | '+' :: cs => cs
    | cs => cs
  (plain? cs).filter (fitsUnsigned 64)

/-- **The integer of a text** that consists of an optional sign and digits, if 64 signed bits hold
it. -/
def signed64? (text : String) : Option Int :=
  (signed? text.toList).filter (fitsSigned 64)

end Digits
end DocStream
