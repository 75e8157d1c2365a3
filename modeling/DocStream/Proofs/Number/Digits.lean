import DocStream.Number.Numeral
import Mathlib.Algebra.Order.Ring.Nat
import Mathlib.Tactic.Ring

/-!
# Counting and splitting digits

How many digits a number has, and what the digits after the first few stand for.

* `Digits.lt_pow_count` and `Digits.pow_le_of_lt_count` — the digit count bounds the number;
* `Digits.count_value_le` — leading zeros aside, digits that are written are digits of the number;
* `Digits.valueFrom_drop` — **a number cut in two**: reading goes on from a leading part with the
  digits that are left.

Digits are produced from the last to the first and read from the first to the last. So the
inductions here take the last digit off a number, `n / 10`, and the count of the digits and the
bounds follow that step.
-/

namespace DocStream.Digits

/-- The accumulator of `prepend` stays behind the digits, so that the digits of a number can be
talked of without it. -/
theorem prepend_eq_append (n : Nat) (tail : List Digit) : prepend n tail = ofNat n ++ tail := by
  induction n using Nat.strongRecOn generalizing tail with
  | ind n ih =>
    have hstep : ∀ t, prepend n t =
        if n < 10 then last n :: t else prepend (n / 10) (last n :: t) := fun t => by rw [prepend]
    rw [ofNat, hstep tail, hstep []]
    -- a single digit goes in front; otherwise it goes in front of what is put there next
    split
    · rfl
    · rw [ih (n / 10) (by omega), ih (n / 10) (by omega) [last n], List.append_assoc]
      rfl

theorem ofNat_of_lt {n : Nat} (h : n < 10) : ofNat n = [last n] := by
  rw [ofNat, prepend, if_pos h]

/-- A number from ten on has the digits of its tenth and the last one. With this the digits of a
number can be gone through by induction from the end. -/
theorem ofNat_of_ge {n : Nat} (h : 10 ≤ n) : ofNat n = ofNat (n / 10) ++ [last n] := by
  rw [ofNat, prepend, if_neg (by omega), prepend_eq_append]

theorem count_pos (n : Nat) : 0 < count n := by
  rw [count]
  by_cases h : n < 10
  · rw [ofNat_of_lt h]
    exact Nat.succ_pos _
  · rw [ofNat_of_ge (by omega), List.length_append]
    exact Nat.succ_pos _

/-- A number from ten on has one digit more than its tenth. -/
theorem count_of_ge {n : Nat} (h : 10 ≤ n) : count n = count (n / 10) + 1 := by
  rw [count, ofNat_of_ge h, List.length_append]
  rfl

/-- A number of more than one digit. -/
theorem ten_le_of_count {n k : Nat} (h : k + 1 < count n) : 10 ≤ n := by
  by_contra hlt
  rw [count, ofNat_of_lt (by omega)] at h
  exact absurd h (Nat.not_lt.mpr (Nat.succ_le_succ (Nat.zero_le k)))

/-- **A number is below the power of its digit count.** Together with the next bound this says what
a digit count is. -/
theorem lt_pow_count (n : Nat) : n < 10 ^ count n := by
  induction n using Nat.strongRecOn with
  | ind n ih =>
    by_cases h : n < 10
    · -- some digit is there
      calc n < 10 := h
        _ = 10 ^ 1 := (Nat.pow_one 10).symm
        _ ≤ 10 ^ count n := Nat.pow_le_pow_right (by decide) (count_pos n)
    · have hrec := ih (n / 10) (by omega)
      rw [count_of_ge (by omega), Nat.pow_succ]
      omega

/-- **A number is not below the power of fewer digits**, unless it is zero, which has a digit all
the same. -/
theorem pow_le_of_lt_count {n k : Nat} (hn : n ≠ 0) (h : k < count n) : 10 ^ k ≤ n := by
  induction n using Nat.strongRecOn generalizing k with
  | ind n ih =>
    cases k with
    | zero => exact Nat.one_le_iff_ne_zero.mpr hn
    | succ k =>
      -- one digit less on both sides
      have hten := ten_le_of_count h
      rw [count_of_ge hten] at h
      have hrec := ih (n / 10) (by omega) (by omega) (Nat.lt_of_succ_lt_succ h)
      rw [Nat.pow_succ]
      omega

/-- Reading goes on below the next number that is read in the same way: digits that follow never add
up to one more before them. -/
theorem valueFrom_lt (start : Nat) (ds : List Digit) :
    valueFrom start ds < (start + 1) * 10 ^ ds.length := by
  induction ds generalizing start with
  | nil => simp
  | cons d ds ih =>
    have hd := d.isLt
    calc valueFrom (10 * start + d.val) ds
        < (10 * start + d.val + 1) * 10 ^ ds.length := ih _
      _ ≤ (start + 1) * 10 * 10 ^ ds.length := Nat.mul_le_mul_right _ (by omega)
      _ = (start + 1) * 10 ^ (d :: ds).length := by
        rw [List.length_cons, Nat.pow_succ']
        ring

/-- **A number has no more digits than were read**, leading zeros among them. -/
theorem count_value_le {ds : List Digit} (h : value ds ≠ 0) : count (value ds) ≤ ds.length := by
  by_contra hlt
  have hle := pow_le_of_lt_count h (Nat.lt_of_not_le hlt)
  have hbound := valueFrom_lt 0 ds
  rw [value] at hle
  omega

/-- With its last digits taken off a number has as many digits less, if any are left. -/
theorem count_div_pow {n k : Nat} (h : n / 10 ^ k ≠ 0) : count (n / 10 ^ k) + k = count n := by
  -- one digit after the other is taken off
  induction k with
  | zero => rw [Nat.pow_zero, Nat.div_one, Nat.add_zero]
  | succ k ih =>
    rw [Nat.pow_succ, ← Nat.div_div_eq_div_mul] at h ⊢
    have hten : 10 ≤ n / 10 ^ k := Nat.le_of_not_lt fun hlt => h (Nat.div_eq_of_lt hlt)
    have hne : n / 10 ^ k ≠ 0 := (lt_of_lt_of_le (by decide) hten).ne'
    rw [← ih hne, count_of_ge hten, Nat.add_assoc, Nat.add_comm 1 k]

/-- **A number cut in two**: with its last digits taken off, and these read on from there. -/
theorem valueFrom_drop {n k : Nat} (h : k < count n) :
    valueFrom (n / 10 ^ k) ((ofNat n).drop ((ofNat n).length - k)) = n := by
  induction k generalizing n with
  | zero => rw [Nat.sub_zero, List.drop_length, Nat.pow_zero, Nat.div_one, valueFrom_nil]
  | succ k ih =>
    -- `n / 10` is cut at the place before, and the last digit is read after its digits
    have hten := ten_le_of_count h
    have hcount := count_of_ge hten
    rw [count, count] at hcount
    have hrec := ih (n := n / 10) (by rw [count_of_ge hten] at h; omega)
    rw [hcount, ofNat_of_ge hten, List.drop_append_of_le_length (by omega), valueFrom_append,
      Nat.pow_succ', ← Nat.div_div_eq_div_mul, Nat.add_sub_add_right, hrec, valueFrom_cons,
      valueFrom_nil, last]
    exact Nat.div_add_mod n 10

/-- Leading zeros do not count, however many there are in front of the digits. -/
theorem valueFrom_replicate_zero (k : Nat) : valueFrom 0 (List.replicate k .zero) = 0 := by
  induction k with
  | zero => rfl
  | succ k ih => rw [List.replicate_succ, valueFrom_cons]; exact ih

end DocStream.Digits
