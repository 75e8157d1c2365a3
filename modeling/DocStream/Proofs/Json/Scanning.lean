import DocStream.Json.Token
import DocStream.Proofs.Number.Digits
import Mathlib.Data.List.Chain
import Mathlib.Tactic.IntervalCases

/-!
# Tokens, spelled and scanned

A list of tokens is spelled out without anything between them, and scanning the text finds the same
tokens again, unless two numbers stand side by side. From the inside out: a numeral ends where no
digit, point or exponent follows; a string ends at the first quote that is not escaped; and every
other token shows by its first character which one it is.

* `Numeral.scan_toChars_append` — **a numeral is scanned** as it was spelled;
* `Token.scanString?_append` and `Token.joinPieces?_pieces` — a string is scanned, and has its text;
* `Token.scan?_spell_append` — **one token is scanned** off the front of a text;
* `Token.scanAll?_flatMap_spell` — **all tokens of a text** that was spelled from tokens.

What makes the text unambiguous is that scanning is greedy and that every token but a number ends by
itself. A number takes as many characters as it can, so it is scanned right only in front of a
character that it cannot take. That is the one condition in all of this, `Numeral.EndsBefore`, and a
comma, a bracket and the end of the text meet it.
-/

namespace DocStream

/-! ### Numerals -/

theorem Digit.toChar_ne_minus (d : Digit) : d.toChar ≠ '-' := by
  revert d
  decide

theorem Digit.isSpace_toChar (d : Digit) : Token.isSpace d.toChar = false := by
  revert d
  decide

namespace Digits

/-- The digits of a number do not start with zero, unless the number is zero. This is what makes the
spelling of a whole part one that is scanned to its end. -/
theorem ne_zero_of_mem_head?_ofNat {n : Nat} (hn : n ≠ 0) {d : Digit}
    (h : d ∈ (ofNat n).head?) : d ≠ 0 := by
  -- digits are taken off the end, so the induction is on what is left of the number
  induction n using Nat.strongRecOn with
  | ind n ih =>
    by_cases hlt : n < 10
    · rw [ofNat_of_lt hlt, List.head?_cons, Option.mem_some] at h
      subst h
      intro hlast
      have hval : n % 10 = 0 := congrArg Fin.val hlast
      omega
    · -- the first digit is that of the number without its last one
      have hne : ofNat (n / 10) ≠ [] := List.ne_nil_of_length_pos (count_pos _)
      rw [ofNat_of_ge (by omega), List.head?_append_of_ne_nil _ hne] at h
      exact ih (n / 10) (by omega) (by omega) h

/-- Digits that are spelled start with no other character. -/
theorem exists_toChars_eq_cons {ds : List Digit} (h : ds ≠ []) :
    ∃ d cs, toChars ds = Digit.toChar d :: cs := by
  cases ds with
  | nil => exact absurd rfl h
  | cons d ds => exact ⟨d, _, rfl⟩

end Digits

namespace Numeral

/-- **No numeral goes on** with the text: it does not start with a digit, a point or an exponent.
Separators, brackets and blanks are all of this kind. -/
def EndsBefore (rest : List Char) : Prop :=
  ∀ c ∈ rest.head?, Digit.ofChar? c = none ∧ c ≠ '.' ∧ c ≠ 'e' ∧ c ≠ 'E'

/-- A whole part is scanned off its digits. Zeros in front of other digits are not scanned, but no
number is spelled with them. -/
theorem scanWhole_append (n : Nat) {rest : List Char}
    (h : ∀ c ∈ rest.head?, Digit.ofChar? c = none) :
    scanWhole (Digits.toChars (Digits.ofNat n) ++ rest) = some (n, rest) := by
  have hvalue := Digits.value_ofNat n
  rw [scanWhole, Digits.span_toChars_append _ _ h]
  -- no digits, one digit, or several: only zero is spelled from a zero on
  cases hds : Digits.ofNat n with
  | nil => exact absurd hds (List.ne_nil_of_length_pos (Digits.count_pos n))
  | cons d ds =>
    cases ds with
    | nil =>
      rw [hds] at hvalue
      have hd : 10 * 0 + d.val = n := hvalue
      simp only [Option.some.injEq, Prod.mk.injEq, and_true]
      omega
    | cons e es =>
      -- of several digits the first is not zero
      have hn : n ≠ 0 := by
        rintro rfl
        rw [Digits.ofNat_of_lt (by decide)] at hds
        cases hds
      have hd : d ≠ 0 := Digits.ne_zero_of_mem_head?_ofNat hn (by rw [hds]; rfl)
      dsimp only
      rw [if_neg hd, ← hds, hvalue]

/-- A fraction is scanned off its point and digits, and a missing one off nothing. -/
theorem scanFraction_append (ds : List Digit) {rest : List Char}
    (h : ∀ c ∈ rest.head?, Digit.ofChar? c = none ∧ c ≠ '.') :
    scanFraction ((if ds.isEmpty then [] else '.' :: Digits.toChars ds) ++ rest) =
      some (ds, rest) := by
  cases ds with
  | nil =>
    rw [List.isEmpty_nil, if_pos rfl, List.nil_append]
    unfold scanFraction
    -- without digits there is no point, and what follows has none either
    split
    · exact absurd rfl (h '.' rfl).2
    · rfl
  | cons d ds =>
    rw [List.isEmpty_cons, if_neg Bool.false_ne_true, List.cons_append, scanFraction,
      Digits.span_toChars_append _ _ fun c hc => (h c hc).1]

/-- An exponent is scanned off its spelling, with its sign and all its digits. What follows must not
go on with digits. -/
theorem scanExponent_toChars_append (e : Exponent) {rest : List Char}
    (h : ∀ c ∈ rest.head?, Digit.ofChar? c = none) :
    scanExponent (e.toChars ++ rest) = some (some e, rest) := by
  obtain ⟨negative, first, more⟩ := e
  have hdigits : ∀ negative, scanExponentDigits negative
      (Digits.toChars (first :: more) ++ rest) = some (some ⟨negative, first, more⟩, rest) := by
    intro negative
    rw [scanExponentDigits, Digits.span_toChars_append _ _ h]
  cases negative with
  | false => exact hdigits false
  | true => exact hdigits true

/-- A missing exponent is scanned off nothing, as long as what follows does not start like one. -/
theorem scanExponent_of_endsBefore {rest : List Char} (h : EndsBefore rest) :
    scanExponent rest = some (none, rest) := by
  cases rest with
  | nil => rfl
  | cons c cs =>
    obtain ⟨-, -, he, hE⟩ := h c rfl
    unfold scanExponent
    exact if_neg (not_or.mpr ⟨he, hE⟩)

/-- The parts of a numeral are scanned one after the other, if what follows the fraction is an
exponent or none and goes on with no digit and no point. -/
theorem scan_parts (negative : Bool) (whole : Nat) (fraction : List Digit)
    {exponent : Option Exponent} {tail rest : List Char}
    (hexponent : scanExponent tail = some (exponent, rest))
    (hpoint : ∀ c ∈ tail.head?, Digit.ofChar? c = none ∧ c ≠ '.') :
    scan ((if negative then ['-'] else []) ++ (Digits.toChars (Digits.ofNat whole) ++
      ((if fraction.isEmpty then [] else '.' :: Digits.toChars fraction) ++ tail))) =
      some (⟨negative, whole, fraction, exponent⟩, rest) := by
  have hfraction := scanFraction_append fraction hpoint
  -- the whole part ends at the point, or where the tail does not go on with a digit
  have hdigit : ∀ c ∈ ((if fraction.isEmpty then [] else '.' :: Digits.toChars fraction) ++
      tail).head?, Digit.ofChar? c = none := by
    intro c hc
    cases fraction with
    | nil => exact (hpoint c hc).1
    | cons d ds =>
      obtain rfl : '.' = c := Option.some.inj hc
      decide
  have hwhole := scanWhole_append whole hdigit
  generalize (if fraction.isEmpty then [] else '.' :: Digits.toChars fraction) ++ tail = more at *
  -- after the sign
  have hparts : ∀ negative : Bool, (do
      let whole ← scanWhole (Digits.toChars (Digits.ofNat whole) ++ more)
      let fraction ← scanFraction whole.2
      let exponent ← scanExponent fraction.2
      return ((⟨negative, whole.1, fraction.1, exponent.1⟩ : Numeral), exponent.2)) =
      some (⟨negative, whole, fraction, exponent⟩, rest) := by
    intro negative
    rw [hwhole]
    dsimp only [Option.bind_eq_bind, Option.bind_some]
    rw [hfraction]
    dsimp only [Option.bind_eq_bind, Option.bind_some]
    rw [hexponent]
    rfl
  cases negative with
  | true => exact hparts true
  | false =>
    -- there is no sign, since the first digit is none
    obtain ⟨d, cs, hd⟩ := Digits.exists_toChars_eq_cons
      (List.ne_nil_of_length_pos (Digits.count_pos whole))
    have hnone := hparts false
    rw [hd] at hnone ⊢
    unfold scan
    split
    next heq =>
    split at heq
    · next hminus => exact absurd (List.cons.inj hminus).1 d.toChar_ne_minus
    · cases heq
      exact hnone

/-- **A numeral is scanned as it was spelled**, if no numeral goes on with the rest. Nothing is lost
on the way, so spelling and scanning can be repeated. -/
theorem scan_toChars_append (n : Numeral) {rest : List Char} (h : EndsBefore rest) :
    scan (n.toChars ++ rest) = some (n, rest) := by
  obtain ⟨negative, whole, fraction, exponent⟩ := n
  rw [toChars, List.append_assoc, List.append_assoc, List.append_assoc]
  cases exponent with
  -- without an exponent, what follows the fraction is the rest of the text
  | none =>
    exact scan_parts negative whole fraction (scanExponent_of_endsBefore h)
      fun c hc => ⟨(h c hc).1, (h c hc).2.1⟩
  | some e =>
    refine scan_parts negative whole fraction
      (scanExponent_toChars_append e fun c hc => (h c hc).1) fun c hc => ?_
    obtain rfl : 'e' = c := Option.some.inj hc
    decide

end Numeral

/-! ### Strings -/

namespace Token

/-- The value of a spelled digit of base sixteen is the number it was spelled from, of which only
the last place counts. -/
theorem hexValue?_digit (n : Nat) : hexValue? (Hex.digit n) = some (n % 16) := by
  have hlt : n % 16 < 16 := Nat.mod_lt n (by decide)
  rw [Hex.digit]
  generalize n % 16 = k at *
  revert hlt
  revert k
  decide

/-- The piece that a character is written as: an escape with its number if it is a control character
without a short form. -/
def pieceOf (c : Char) : Piece :=
  if c.toNat < 32 ∧ c.toNat ≠ 8 ∧ c.toNat ≠ 12 ∧ c ≠ '\n' ∧ c ≠ '\r' ∧ c ≠ '\t' then
    .code c.toNat
  else .char c

/-- A short escape is scanned as the character that it stands for. -/
theorem scanString?_shortEscape {e c : Char} (h : shortEscape? e = some c) (rest : List Char) :
    scanString? ('\\' :: e :: rest) =
      (scanString? rest).map fun scanned => (.char c :: scanned.1, scanned.2) := by
  -- the escape with a number is tried first, and it is no short one
  have hu : e ≠ 'u' := by
    rintro rfl
    cases h
  rw [scanString?.eq_4 _ _ (by rintro a b c' d rest rfl; exact absurd rfl hu), h]
  cases scanString? rest <;> rfl

/-- A character below the space is scanned off the four digits of its number, the first two of which
are zero. -/
theorem scanString?_control {c : Char} (hc : c.toNat < 32) (rest : List Char) :
    scanString?
        ('\\' :: 'u' :: '0' :: '0' :: Hex.digit (c.toNat / 16) :: Hex.digit c.toNat :: rest) =
      (scanString? rest).map fun scanned => (.code c.toNat :: scanned.1, scanned.2) := by
  have hzero : hexValue? '0' = some 0 := rfl
  have hnumber : 4096 * 0 + 256 * 0 + 16 * (c.toNat / 16 % 16) + c.toNat % 16 = c.toNat := by omega
  rw [scanString?]
  simp only [hzero, hexValue?_digit, Option.bind_eq_bind, Option.bind_some, hnumber]
  cases scanString? rest <;> rfl

/-- A character that is not escaped is scanned as itself. -/
theorem scanString?_plain {c : Char} (hquote : c ≠ '"') (hslash : c ≠ '\\') (hc : ¬c.toNat < 32)
    (rest : List Char) :
    scanString? (c :: rest) =
      (scanString? rest).map fun scanned => (.char c :: scanned.1, scanned.2) := by
  rw [scanString?.eq_5 c rest hquote (fun _ _ _ _ _ h => absurd h hslash)
    (fun _ _ h => absurd h hslash), if_neg (not_or.mpr ⟨hc, hslash⟩)]
  cases scanString? rest <;> rfl

/-- **One character is scanned** as the piece it is written as. The three ways in which a character
can be written are the three lemmas before. -/
theorem scanString?_spellChar_append (c : Char) (rest : List Char) :
    scanString? (spellChar c ++ rest) =
      (scanString? rest).map fun scanned => (pieceOf c :: scanned.1, scanned.2) := by
  -- a control character is one of those below the space; some have a short escape
  have heq : ∀ {n : Nat}, c.toNat = n → c = Char.ofNat n := fun h => h ▸ (Char.ofNat_toNat c).symm
  unfold spellChar
  -- the cases of spelling in turn: quote and slash, the short escapes, the others below the space,
  -- the rest
  split_ifs with hquote hslash hback hfeed hnewline hreturn htab hcontrol
  · subst hquote
    exact scanString?_shortEscape rfl rest
  · subst hslash
    exact scanString?_shortEscape rfl rest
  · obtain rfl := heq hback
    exact scanString?_shortEscape rfl rest
  · obtain rfl := heq hfeed
    exact scanString?_shortEscape rfl rest
  · subst hnewline
    exact scanString?_shortEscape rfl rest
  · subst hreturn
    exact scanString?_shortEscape rfl rest
  · subst htab
    exact scanString?_shortEscape rfl rest
  · rw [pieceOf, if_pos ⟨hcontrol, hback, hfeed, hnewline, hreturn, htab⟩]
    exact scanString?_control hcontrol rest
  · rw [pieceOf, if_neg fun h => hcontrol h.1]
    exact scanString?_plain hquote hslash hcontrol rest

/-- **A string is scanned** up to its closing quote, since a quote inside is escaped and so none of
the pieces ends it. -/
theorem scanString?_append (cs rest : List Char) :
    scanString? (cs.flatMap spellChar ++ '"' :: rest) = some (cs.map pieceOf, rest) := by
  induction cs with
  | nil => rfl
  | cons c cs ih =>
    rw [List.flatMap_cons, List.append_assoc, scanString?_spellChar_append, ih]
    rfl

/-- A piece that a character is written as stands for it, whatever follows: the only escapes by
number are those of control characters, which are no half of a surrogate pair. -/
theorem joinPieces?_pieceOf_cons (c : Char) (pieces : List Piece) :
    joinPieces? (pieceOf c :: pieces) = (joinPieces? pieces).map (c :: ·) := by
  rw [pieceOf]
  split
  · next h =>
    -- the number of a control character is no half of a surrogate pair
    have hleading : isLeading c.toNat = false := by
      rw [isLeading, decide_eq_false (by omega), Bool.false_and]
    have htrailing : isTrailing c.toNat = false := by
      rw [isTrailing, decide_eq_false (by omega), Bool.false_and]
    -- so it is no matter whether another number follows
    rcases pieces with _ | ⟨_ | m, pieces⟩ <;>
      simp [joinPieces?, hleading, htrailing, Char.ofNat_toNat]
  · rw [joinPieces?]

/-- **A string has the text it was spelled from.** -/
theorem joinPieces?_pieces (cs : List Char) : joinPieces? (cs.map pieceOf) = some cs := by
  induction cs with
  | nil => rfl
  | cons c cs ih =>
    rw [List.map_cons, joinPieces?_pieceOf_cons, ih]
    rfl

/-! ### Tokens -/

/-- Whether a token is a number, the only one that may run into the next. -/
def isNumber : Token → Bool
  | num _ => true
  | _ => false

/-- **No two numbers stand side by side.** -/
def Separate (ts : List Token) : Prop :=
  ts.IsChain fun t u => t.isNumber = true → u.isNumber = false

/-- A numeral starts with its sign or with a digit. -/
theorem exists_toChars_eq_cons (n : Numeral) :
    ∃ c cs, n.toChars = c :: cs ∧ (c = '-' ∨ ∃ d : Digit, c = d.toChar) := by
  obtain ⟨negative, whole, fraction, exponent⟩ := n
  obtain ⟨d, cs, hd⟩ := Digits.exists_toChars_eq_cons
    (List.ne_nil_of_length_pos (Digits.count_pos whole))
  rw [Numeral.toChars, List.append_assoc, List.append_assoc]
  -- the whole part has a digit at least
  cases negative with
  | true => exact ⟨_, _, rfl, .inl rfl⟩
  | false => exact ⟨d.toChar, _, by rw [hd]; rfl, .inr ⟨d, rfl⟩⟩

/-- What starts like a numeral is scanned as one. -/
theorem scan?_of_numeral {c : Char} (h : c = '-' ∨ ∃ d : Digit, c = d.toChar) (cs : List Char) :
    scan? (c :: cs) = (Numeral.scan (c :: cs)).map fun scanned => (num scanned.1, scanned.2) := by
  have hscan : scan? (c :: cs) = (do
      let scanned ← Numeral.scan (c :: cs)
      return (num scanned.1, scanned.2)) := by
    -- the first character decides what is scanned, and the ten digits are tried one by one
    rcases h with rfl | ⟨d, rfl⟩
    · rfl
    · obtain ⟨k, hk⟩ := d
      interval_cases k <;> rfl
  rw [hscan]
  cases Numeral.scan (c :: cs) <;> rfl

/-- **A token shows by its first character** that it is no space and, unless it is a number, that no
numeral goes on with it. -/
theorem exists_spell_eq_cons (t : Token) : ∃ c cs, t.spell = c :: cs ∧ isSpace c = false ∧
    (t.isNumber = false → Digit.ofChar? c = none ∧ c ≠ '.' ∧ c ≠ 'e' ∧ c ≠ 'E') := by
  cases t with
  | num n =>
    obtain ⟨c, cs, hspell, hc⟩ := exists_toChars_eq_cons n
    refine ⟨c, cs, hspell, ?_, Bool.noConfusion⟩
    rcases hc with rfl | ⟨d, rfl⟩
    · rfl
    · exact d.isSpace_toChar
  | bool b => cases b <;> exact ⟨_, _, rfl, rfl, fun _ => by decide⟩
  | str s => cases s <;> exact ⟨_, _, rfl, rfl, fun _ => by decide⟩
  | _ => exact ⟨_, _, rfl, rfl, fun _ => by decide⟩

/-- **One token is scanned** off the front of a text, a number only if it ends there. All other
tokens show by themselves where they end. -/
theorem scan?_spell_append (t : Token) {rest : List Char}
    (h : t.isNumber = true → Numeral.EndsBefore rest) :
    scan? (t.spell ++ rest) = some (t, rest) := by
  cases t with
  | num n =>
    obtain ⟨c, cs, hspell, hc⟩ := exists_toChars_eq_cons n
    have hscan := Numeral.scan_toChars_append n (h rfl)
    rw [spell]
    rw [hspell, List.cons_append] at hscan ⊢
    rw [scan?_of_numeral hc, hscan]
    rfl
  | bool b => cases b <;> rfl
  | str s =>
    cases s with
    | none => rfl
    | some s =>
      have hscan := scanString?_append s.toList rest
      rw [spell, spellString, List.cons_append, List.append_assoc]
      show (scanString? (s.toList.flatMap spellChar ++ '"' :: rest) >>= fun scanned =>
        pure (str ((joinPieces? scanned.1).map String.ofList), scanned.2)) = _
      rw [hscan]
      show some (str ((joinPieces? (s.toList.map pieceOf)).map String.ofList), rest) = _
      rw [joinPieces?_pieces, Option.map_some, String.ofList_toList]
  | _ => rfl

/-- **All tokens are scanned** off the text that they spell, if no two numbers run together. Each of
them has a character at least, so the bound goes down by one for each. -/
theorem scanUpTo_flatMap_spell {ts : List Token} (h : Separate ts) {bound : Nat}
    (hbound : (ts.flatMap spell).length ≤ bound) :
    scanUpTo bound (ts.flatMap spell) = some ts := by
  induction ts generalizing bound with
  | nil => rw [List.flatMap_nil, scanUpTo]
  | cons t ts ih =>
    obtain ⟨hnext, hrest⟩ := List.isChain_cons.mp h
    obtain ⟨c, cs, hspell, hspace, -⟩ := exists_spell_eq_cons t
    have hends : t.isNumber = true → Numeral.EndsBefore (ts.flatMap spell) := by
      intro hnumber
      cases ts with
      | nil => exact nofun
      | cons u us =>
        -- the next token is no number, so it starts with no character of one
        obtain ⟨c', cs', hspell', -, hc'⟩ := exists_spell_eq_cons u
        intro x hx
        rw [List.flatMap_cons, hspell', List.cons_append, List.head?_cons, Option.mem_some] at hx
        exact hx ▸ hc' (hnext u rfl hnumber)
    have hscan := scan?_spell_append t hends
    rw [List.flatMap_cons] at hbound ⊢
    rw [hspell, List.cons_append] at hbound hscan ⊢
    cases bound with
    | zero => exact absurd hbound (Nat.not_succ_le_zero _)
    | succ bound =>
      -- a token has a character at least, so the bound goes down with it
      have hmore : (ts.flatMap spell).length ≤ bound := by
        rw [List.length_cons, List.length_append] at hbound
        omega
      rw [scanUpTo, if_neg (Bool.eq_false_iff.mp hspace), hscan]
      show (scanUpTo bound (ts.flatMap spell) >>= fun tokens => pure (t :: tokens)) = _
      rw [ih hrest hmore]
      rfl

/-- **All tokens are scanned** off their text, since its length is bound enough. -/
theorem scanAll?_flatMap_spell {ts : List Token} (h : Separate ts) :
    scanAll? (ts.flatMap spell) = some ts :=
  scanUpTo_flatMap_spell h (Nat.le_refl _)

end Token
end DocStream
