import DocStream.Proofs.Number.Digits
import DocStream.Text.Hex

/-!
# Numbers in texts

Two spellings of natural numbers, each of which tells numbers apart: decimal digits, read back by
`Digits.unsigned64?` if 64 bits hold the number, and hexadecimal digits filled up to a width.
Decimal digits after a sign spell integers.

* `Digits.toList_toString` — the decimal text of a number, digit by digit;
* `Digits.unsigned64?_toString`, `Digits.signed64?_toString` — **reading back a decimal text**;
* `Hex.value_padded` — **reading back a hexadecimal text**.

Positions of a change feed and offsets are written in decimal, and revisions in hexadecimal. That
each of these texts can be read back is what makes them usable as keys: two numbers never share one.
-/

namespace DocStream

namespace Digits

/-- The characters of a decimal text are the digits of the number. The library's way to print
numbers thus becomes one that all lemmas about digits apply to. -/
theorem toList_toString (n : Nat) : (toString n).toList = toChars (ofNat n) := by
  have hlast : ∀ m, (m % 10).digitChar = (last m).toChar := by
    have hdigit : ∀ d : Digit, Nat.digitChar d.val = d.toChar := by decide
    exact fun m => hdigit (last m)
  rw [show toString n = n.repr from rfl, Nat.toList_repr]
  -- by induction on the number without its last digit
  induction n using Nat.strongRecOn with
  | ind n ih =>
    rcases Nat.lt_or_ge n 10 with hlt | hge
    · rw [Nat.toDigits_of_lt_base hlt, ofNat_of_lt hlt, ← Nat.mod_eq_of_lt hlt, hlast]
      simp only [last, Nat.mod_mod]
      rfl
    · rw [Nat.toDigits_of_base_le (by decide) hge, ofNat_of_ge hge, ih _ (by omega), hlast,
        toChars, toChars, List.map_append]
      rfl

/-- No digit is one of the signs that stand next to digits. -/
theorem toChar_ne {d : Digit} {c : Char} (h : Digit.ofChar? c = none) : d.toChar ≠ c := by
  intro heq
  rw [← heq, Digit.ofChar?_toChar] at h
  exact nomatch h

theorem plain?_toChars {ds : List Digit} (h : ds ≠ []) : plain? (toChars ds) = some (value ds) := by
  have hspan : span (toChars ds) = (ds, []) := by
    simpa using span_toChars_append ds [] (by simp)
  obtain ⟨d, ds, rfl⟩ := List.exists_cons_of_ne_nil h
  rw [plain?, hspan]

theorem plain?_ofNat (n : Nat) : plain? (toChars (ofNat n)) = some n := by
  rw [plain?_toChars (List.ne_nil_of_length_pos (count_pos n)), value_ofNat]

/-- Digits do not start with a sign, nor with any other character that is no digit. -/
theorem toChars_ne (ds : List Digit) {c : Char} (h : Digit.ofChar? c = none) (cs : List Char) :
    toChars ds ≠ c :: cs := by
  intro heq
  cases ds with
  | nil => exact nomatch heq
  | cons d ds => exact toChar_ne h (List.cons.inj heq).1

/-- A text that starts with a digit has no sign. -/
theorem splitSign_cons (d : Digit) (cs : List Char) :
    splitSign (d.toChar :: cs) = (false, d.toChar :: cs) := by
  rw [splitSign]
  · exact fun cs heq => toChar_ne (by decide) (List.cons.inj heq).1
  · exact fun cs heq => toChar_ne (by decide) (List.cons.inj heq).1

/-- **The integer of digits** without a sign and after one. -/
theorem signed?_toChars {ds : List Digit} (h : ds ≠ []) :
    signed? (toChars ds) = some (value ds : ℤ) := by
  rw [signed?]
  obtain ⟨d, ds, rfl⟩ := List.exists_cons_of_ne_nil h
  rw [show toChars (d :: ds) = d.toChar :: toChars ds from rfl, splitSign_cons]
  dsimp only
  rw [show d.toChar :: toChars ds = toChars (d :: ds) from rfl, plain?_toChars h]
  rfl

theorem signed?_plus_toChars {ds : List Digit} (h : ds ≠ []) :
    signed? ('+' :: toChars ds) = some (value ds : ℤ) := by
  rw [signed?, splitSign]
  dsimp only
  rw [plain?_toChars h]
  rfl

/-- Digits after a minus sign are read as the opposite number. -/
theorem signed?_minus_toChars {ds : List Digit} (h : ds ≠ []) :
    signed? ('-' :: toChars ds) = some (-(value ds : ℤ)) := by
  rw [signed?, splitSign]
  dsimp only
  rw [plain?_toChars h]
  rfl

/-- **Reading back a decimal text**, if 64 bits hold the number. So a position of the feed is read
as the one that was written. -/
theorem unsigned64?_toString (n : Nat) :
    unsigned64? (toString n) = (some n).filter (fitsUnsigned 64) := by
  rw [unsigned64?, toList_toString]
  -- the text might start with a plus sign, but it starts with a digit
  split
  · next cs hcs => exact absurd hcs (toChars_ne _ (by decide) cs)
  · rw [plain?_ofNat]

/-- **Reading back the text of an integer**, if 64 signed bits hold it, with its sign. -/
theorem signed64?_toString (z : ℤ) :
    signed64? (toString z) = (some z).filter (fitsSigned 64) := by
  have hne : ∀ n, ofNat n ≠ [] := fun n => List.ne_nil_of_length_pos (count_pos n)
  -- the text of an integer is a sign, if it is negative, and the digits of its size
  have hread : signed? (toString z).toList = some z := by
    cases z with
    | ofNat n =>
      have htext : (toString (Int.ofNat n)).toList = toChars (ofNat n) := toList_toString n
      rw [htext, signed?_toChars (hne n), value_ofNat]
      rfl
    | negSucc n =>
      have htext : (toString (Int.negSucc n)).toList = '-' :: toChars (ofNat (n + 1)) := by
        rw [← toList_toString]
        exact String.toList_append
      rw [htext, signed?_minus_toChars (hne _), value_ofNat]
      rfl
  rw [signed64?, hread]

end Digits

namespace Hex

/-- The number that a hexadecimal digit stands for. -/
def digitValue (c : Char) : Nat := if c.toNat < 58 then c.toNat - 48 else c.toNat - 87

/-- The number that hexadecimal digits denote, read on from a starting value. -/
def valueFrom (start : Nat) (cs : List Char) : Nat :=
  cs.foldl (fun acc c => 16 * acc + digitValue c) start

/-- The digit of a number stands for its remainder by sixteen. -/
theorem digitValue_digit (n : Nat) : digitValue (digit n) = n % 16 := by
  have hdigit : ∀ m : Fin 16, digitValue (digit m.val) = m.val := by decide
  -- a digit is chosen by the remainder, so sixteen cases are all there are
  have hmod : digit n = digit (n % 16) := by rw [digit, digit, Nat.mod_mod]
  rw [hmod]
  exact hdigit ⟨n % 16, Nat.mod_lt n (by decide)⟩

/-- Digits written in front of others are read before these, from zero on. -/
theorem valueFrom_prepend (n : Nat) (tail : List Char) :
    valueFrom 0 (prepend n tail) = valueFrom n tail := by
  -- by induction on the number without its last digit, which stands nearest to the tail
  induction n using Nat.strongRecOn generalizing tail with
  | ind n ih =>
    have hlast : ∀ start, valueFrom start (digit n :: tail) =
        valueFrom (16 * start + n % 16) tail := by
      intro start
      rw [valueFrom, List.foldl_cons, digitValue_digit, valueFrom]
    rw [prepend]
    split
    · next h => rw [hlast, Nat.mod_eq_of_lt h, Nat.mul_zero, Nat.zero_add]
    · next h => rw [ih (n / 16) (by omega), hlast, Nat.div_add_mod]

/-- Leading zeros do not count. -/
theorem valueFrom_replicate_zero (k : Nat) (cs : List Char) :
    valueFrom 0 (List.replicate k '0' ++ cs) = valueFrom 0 cs := by
  induction k with
  | zero => rfl
  | succ k ih =>
    rw [List.replicate_succ, List.cons_append, valueFrom, List.foldl_cons]
    exact ih

/-- **Reading back a hexadecimal text** of any width. So texts of different numbers differ, even
where one of them is longer than the width. -/
theorem value_padded (width n : Nat) : valueFrom 0 (padded width n).toList = n := by
  rw [padded, String.toList_ofList, valueFrom_replicate_zero, valueFrom_prepend]
  rfl

end Hex
end DocStream
