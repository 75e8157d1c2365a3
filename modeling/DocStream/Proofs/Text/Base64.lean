import DocStream.Text.Base64

/-!
# Base 64 read back

A byte string is written with characters of the alphabet, padding aside, and reading puts the bits
of each character back where writing took them from.

* `Base64.decode?_encode` — **a byte string is read back**.

Three bytes become four characters, and what is left at the end becomes two or three with padding
behind. So the proof goes along `Base64.encode` and has a case for each length of the rest; in each
of them the bits of a byte are a sum of parts that arithmetic puts together again.
-/

namespace DocStream.Base64

/-- A character stands for the six bits that it was chosen for. -/
theorem bitsOf?_charOf {n : Nat} (h : n < 64) : bitsOf? (charOf n) = some n := by
  have key : ∀ i : Fin 64, bitsOf? (charOf i) = some i.val := by decide
  exact key ⟨n, h⟩

/-- The padding is no character of the alphabet. -/
theorem charOf_ne_padding {n : Nat} (h : n < 64) : charOf n ≠ '=' := by
  intro heq
  have hbits := bitsOf?_charOf h
  rw [heq] at hbits
  exact nomatch hbits

/-- A byte put together from the parts that it was cut into. -/
theorem ofNat_eq {a : UInt8} {n : Nat} (h : n = a.toNat) : UInt8.ofNat n = a := by
  rw [h, UInt8.ofNat_toNat]

/-- **A byte string is read back** from its text. -/
theorem decode?_encode (bs : List UInt8) : decode? (encode bs) = some bs := by
  -- along the recursion of encoding, which takes three bytes at a time
  induction bs using encode.induct with
  | case1 => rfl
  | case2 a =>
    -- the four bits that are not used are zero, as decoding asks for
    have ha := a.toNat_lt
    rw [encode, decode?, bitsOf?_charOf (by omega), bitsOf?_charOf (by omega)]
    show (if _ then _ else _) = _
    rw [if_pos (by omega), ofNat_eq (a := a) (by omega)]
  | case3 a b =>
    have ha := a.toNat_lt
    have hb := b.toNat_lt
    have hpad := charOf_ne_padding (n := b.toNat % 16 * 4) (by omega)
    rw [encode, decode?, bitsOf?_charOf (by omega), bitsOf?_charOf (by omega),
      bitsOf?_charOf (by omega)]
    · show (if _ then _ else _) = _
      rw [if_pos (by omega), ofNat_eq (a := a) (by omega), ofNat_eq (a := b) (by omega)]
    · -- decoding looks for padding first, and there is none at this place
      exact hpad
  | case4 a b c rest ih =>
    have ha := a.toNat_lt
    have hb := b.toNat_lt
    have hc := c.toNat_lt
    have hpad := charOf_ne_padding (n := c.toNat % 64) (by omega)
    rw [encode, decode?, bitsOf?_charOf (by omega), bitsOf?_charOf (by omega),
      bitsOf?_charOf (by omega), bitsOf?_charOf (by omega), ih]
    · show some (_ :: _ :: _ :: rest) = _
      rw [ofNat_eq (a := a) (by omega), ofNat_eq (a := b) (by omega),
        ofNat_eq (a := c) (by omega)]
    · exact fun _ h => absurd h hpad
    · exact fun h => absurd h hpad

end DocStream.Base64
