import DocStream.Narrow
import DocStream.Proofs.Json.Scanning
import DocStream.Proofs.Number.Nearest
import DocStream.Proofs.Text.Numbers
import Mathlib.Data.List.TakeDrop

/-!
# Number texts

A number of a JSON text is a text itself, and two readers meet it: the one of JSON numbers and the
one of decimals. They agree. Where JSON sees a number, the reader of decimals finds its digits and
its exponent, however the exponent is marked, and nothing else.

* `Numeral.SpelledBy` — **the texts of a number**, and `Numeral.spelledBy_of_scan`, a scanned text is
  one of them;
* `Numeral.SpelledBy.ofText?` — **what the reader of decimals finds**;
* `Decimal.ofNumberText?_of_scan` — the number of a scanned text, and `Value.ofText?_text`, **both
  ways of narrowing are one**.

A text of a number is cut by the two readers at different places: the one of JSON at the point and
at the mark, from left to right, and the one of decimals at the mark first and then at the point.
That the parts are the same in the end is shown by way of `Numeral.SpelledBy`, which lists what a
text of the number can look like.
-/

namespace DocStream

/-- A text cut at the first character of some kind, where it is known which part comes before. -/
theorem span_append {α : Type} {p : α → Bool} {as : List α} (has : ∀ a ∈ as, p a = true)
    (bs : List α) (hbs : ∀ b ∈ bs.head?, p b = false) : (as ++ bs).span p = (as, bs) := by
  have htake : bs.takeWhile p = [] := by
    cases bs with
    | nil => rfl
    | cons b bs => rw [List.takeWhile_cons, hbs b rfl]; rfl
  have hdrop : bs.dropWhile p = bs := by
    cases bs with
    | nil => rfl
    | cons b bs => rw [List.dropWhile_cons, hbs b rfl]; rfl
  rw [List.span_eq_takeWhile_dropWhile, List.takeWhile_append_of_pos has,
    List.dropWhile_append_of_pos has, htake, hdrop, List.append_nil]

theorem Blank.trim_eq_self {cs : List Char} (h : ∀ c ∈ cs, isBlank c = false) : trim cs = cs := by
  have hleft : ∀ cs : List Char, (∀ c ∈ cs, isBlank c = false) → trimLeft cs = cs := by
    intro cs h
    cases cs with
    | nil => rfl
    | cons c cs => rw [trimLeft, List.dropWhile_cons_of_neg (by rw [h c List.mem_cons_self]; decide)]
  rw [trim, hleft cs h, hleft _ fun c hc => h c (List.mem_reverse.mp hc), List.reverse_reverse]

/-! ### Digits -/

/-- A character that is a digit is the spelling of that digit. -/
theorem Digit.toChar_of_ofChar? {c : Char} {d : Digit} (h : ofChar? c = some d) : d.toChar = c := by
  rw [ofChar?] at h
  split at h
  · next hc =>
    rw [← Option.some.inj h, toChar]
    dsimp only
    rw [show 48 + (c.toNat - 48) = c.toNat by omega, Char.ofNat_toNat]
  · exact nomatch h

theorem Digit.isBlank_toChar (d : Digit) : Blank.isBlank d.toChar = false := by
  revert d
  decide

namespace Digits

/-- A run of digits and what follows it are the whole text, so nothing is lost by looking for
digits. -/
theorem toChars_span (cs : List Char) : toChars (span cs).1 ++ (span cs).2 = cs := by
  induction cs with
  | nil => rfl
  | cons c cs ih =>
    rw [span]
    split
    · next d hd =>
      rw [toChars, List.map_cons, Digit.toChar_of_ofChar? hd, List.cons_append]
      exact congrArg (c :: ·) ih
    · rfl

theorem toChars_append (ds es : List Digit) : toChars (ds ++ es) = toChars ds ++ toChars es :=
  List.map_append

/-- No digit is a character of another kind. -/
theorem ne_of_mem_toChars {c c' : Char} {ds : List Digit} (h : c ∈ toChars ds)
    (hc' : Digit.ofChar? c' = none) : c ≠ c' := by
  obtain ⟨d, -, rfl⟩ := List.mem_map.mp h
  exact toChar_ne hc'

theorem filter_toChars (ds : List Digit) : (toChars ds).filter (· ≠ '_') = toChars ds :=
  List.filter_eq_self.mpr fun _ hc => decide_eq_true (ne_of_mem_toChars hc (by decide))

theorem mapM_toChars (ds : List Digit) : (toChars ds).mapM Digit.ofChar? = some ds := by
  rw [toChars, List.mapM_map]
  induction ds with
  | nil => rfl
  | cons d ds ih =>
    rw [List.mapM_cons, Function.comp_apply, Digit.ofChar?_toChar, ih]
    rfl

/-- Digits are digits grouped by nothing, and so they are read as they stand. -/
theorem groupedDigits?_toChars {ds : List Digit} (h : ds ≠ []) :
    Decimal.groupedDigits? (toChars ds) = some ds := by
  obtain ⟨d, ds, rfl⟩ := List.exists_cons_of_ne_nil h
  rw [show toChars (d :: ds) = d.toChar :: toChars ds from rfl, Decimal.groupedDigits?,
    Digit.ofChar?_toChar, filter_toChars, mapM_toChars]
  rfl

end Digits

/-! ### The texts of a number -/

/-- The spellings of an exponent, or of none. A plus may be left out. -/
inductive Exponent.SpelledBy : Option Exponent → List Char → Prop where
  | absent : SpelledBy none []
  | marked (e : Exponent) {mark : Char} (hmark : mark = 'e' ∨ mark = 'E') {sign : List Char}
      (hsign : sign = ['-'] ∧ e.negative = true ∨ (sign = [] ∨ sign = ['+']) ∧ e.negative = false) :
      SpelledBy (some e) (mark :: (sign ++ Digits.toChars (e.first :: e.more)))

namespace Numeral

/-- A sign in front of digits, if the number has one. -/
def signChars (n : Numeral) : List Char := if n.negative then ['-'] else []

/-- A point and the digits after it, if there are any. -/
def fractionChars (n : Numeral) : List Char :=
  if n.fraction.isEmpty then [] else '.' :: Digits.toChars n.fraction

/-- The digits in front of the point, the point, and the digits after it. -/
def mantissaChars (n : Numeral) (whole : List Digit) : List Char :=
  Digits.toChars whole ++ n.fractionChars

/-- **The texts of a number**: its sign, the digits of its whole part, its fraction, and its exponent
in any spelling. -/
inductive SpelledBy (n : Numeral) : List Char → Prop where
  | intro (d : Digit) (ds : List Digit) (tail : List Char)
      (whole : Digits.value (d :: ds) = n.whole) (exponent : Exponent.SpelledBy n.exponent tail) :
      SpelledBy n (n.signChars ++ n.mantissaChars (d :: ds) ++ tail)

/-- A whole part that is scanned is a run of digits with that value. Which digits these are is not
kept, as only zero can begin with a zero. -/
theorem scanWhole_eq_some {cs rest : List Char} {w : Nat} (h : scanWhole cs = some (w, rest)) :
    ∃ d ds, Digits.value (d :: ds) = w ∧ cs = Digits.toChars (d :: ds) ++ rest := by
  have hspan := Digits.toChars_span cs
  rw [scanWhole] at h
  -- no digit, a single one, or several
  split at h
  · cases h
  · next d rest' heq =>
    obtain ⟨rfl, rfl⟩ := Prod.mk.inj (Option.some.inj h)
    refine ⟨d, [], ?_, ?_⟩
    · exact Nat.zero_add d.val
    · rw [heq] at hspan
      exact hspan.symm
  · next d ds rest' _ heq =>
    split at h
    · cases h
    · obtain ⟨rfl, rfl⟩ := Prod.mk.inj (Option.some.inj h)
      rw [heq] at hspan
      exact ⟨d, ds, rfl, hspan.symm⟩

/-- A fraction that is scanned is a point and digits, or nothing. -/
theorem scanFraction_eq_some {cs rest : List Char} {fraction : List Digit}
    (h : scanFraction cs = some (fraction, rest)) :
    cs = (if fraction.isEmpty then [] else '.' :: Digits.toChars fraction) ++ rest := by
  unfold scanFraction at h
  split at h
  · next cs =>
    have hspan := Digits.toChars_span cs
    split at h
    · exact nomatch h
    · next ds rest' hne heq =>
      obtain ⟨rfl, rfl⟩ := Prod.mk.inj (Option.some.inj h)
      rw [heq] at hspan
      cases ds with
      | nil => exact absurd rfl hne
      | cons d ds => exact congrArg ('.' :: ·) hspan.symm
  · obtain ⟨rfl, rfl⟩ := Prod.mk.inj (Option.some.inj h)
    rfl

/-- The digits of an exponent that are scanned make it up. -/
theorem scanExponentDigits_eq_some {negative : Bool} {cs rest : List Char} {e? : Option Exponent}
    (h : scanExponentDigits negative cs = some (e?, rest)) :
    ∃ d ds, e? = some ⟨negative, d, ds⟩ ∧ cs = Digits.toChars (d :: ds) ++ rest := by
  have hspan := Digits.toChars_span cs
  rw [scanExponentDigits] at h
  split at h
  · cases h
  · next d ds rest' heq =>
    obtain ⟨rfl, rfl⟩ := Prod.mk.inj (Option.some.inj h)
    rw [heq] at hspan
    exact ⟨d, ds, rfl, hspan.symm⟩

/-- An exponent that is scanned is spelled with either mark, with a sign or without. -/
theorem scanExponent_eq_some {cs : List Char} {rest : List Char} {e? : Option Exponent}
    (h : scanExponent cs = some (e?, rest)) :
    ∃ tail, Exponent.SpelledBy e? tail ∧ cs = tail ++ rest := by
  unfold scanExponent at h
  split at h
  · next c cs =>
    split at h
    · next hmark =>
      split at h
      · next ds =>
        obtain ⟨d, ds', rfl, rfl⟩ := scanExponentDigits_eq_some h
        exact ⟨_, .marked ⟨false, d, ds'⟩ hmark (.inr ⟨.inr rfl, rfl⟩), rfl⟩
      · next ds =>
        obtain ⟨d, ds', rfl, rfl⟩ := scanExponentDigits_eq_some h
        exact ⟨_, .marked ⟨true, d, ds'⟩ hmark (.inl ⟨rfl, rfl⟩), rfl⟩
      · obtain ⟨d, ds', rfl, rfl⟩ := scanExponentDigits_eq_some h
        exact ⟨_, .marked ⟨false, d, ds'⟩ hmark (.inr ⟨.inl rfl, rfl⟩), rfl⟩
    · obtain ⟨rfl, rfl⟩ := Prod.mk.inj (Option.some.inj h)
      exact ⟨[], .absent, rfl⟩
  · obtain ⟨rfl, rfl⟩ := Prod.mk.inj (Option.some.inj h)
    exact ⟨[], .absent, rfl⟩

/-- **A scanned text is a text of its number.** With this, what holds of all texts of a number holds
of whatever has been scanned. -/
theorem spelledBy_of_scan {cs : List Char} {n : Numeral} (h : scan cs = some (n, [])) :
    n.SpelledBy cs := by
  -- what stands after the sign is scanned in the same way whatever the sign
  have hparts : ∀ (negative : Bool) (cs : List Char), (do
      let whole ← scanWhole cs
      let fraction ← scanFraction whole.2
      let exponent ← scanExponent fraction.2
      return ((⟨negative, whole.1, fraction.1, exponent.1⟩ : Numeral), exponent.2)) =
      some (n, []) → n.SpelledBy ((if negative then ['-'] else []) ++ cs) := by
    intro negative cs h
    simp only [Option.bind_eq_bind, Option.bind_eq_some_iff, Prod.exists] at h
    -- the three parts one after the other, each with what it leaves
    obtain ⟨w, cs', hwhole, ds', cs'', hfraction, e?, rest, hexponent, h⟩ := h
    obtain ⟨rfl, rfl⟩ := Prod.mk.inj (Option.some.inj h)
    obtain ⟨d, ds, rfl, rfl⟩ := scanWhole_eq_some hwhole
    obtain ⟨tail, htail, rfl⟩ := scanExponent_eq_some hexponent
    have htext := SpelledBy.intro (n := ⟨negative, _, ds', e?⟩) d ds tail rfl htail
    rw [mantissaChars, List.append_assoc, List.append_assoc] at htext
    rw [scanFraction_eq_some hfraction, List.append_nil]
    exact htext
  unfold scan at h
  split at h
  next heq =>
  split at heq
  · cases heq
    exact hparts true _ h
  · cases heq
    exact hparts false _ h

/-- **The spelling of a number** is scanned to its end. -/
theorem scan_toChars (n : Numeral) : scan n.toChars = some (n, []) := by
  have hends : EndsBefore [] := nofun
  rw [← List.append_nil n.toChars, scan_toChars_append n hends]

end Numeral

/-! ### Reading a text of a number -/

/-- **The decimal of a text** that is cut into sign and mantissa, and an exponent or none. -/
theorem Decimal.ofText?_of_parts {cs base tail digits : List Char} {places : Nat} {e : ℤ}
    (hspan : cs.span (fun c => c ≠ 'e' && c ≠ 'E') = (base, tail))
    (hpoint : splitPoint base = (digits, places))
    (htail : (tail = [] ∧ e = 0) ∨ ∃ mark rest, tail = mark :: rest ∧
      Digits.signed? rest = some e) :
    ofText? cs = if scaleInRange (places - e)
      then (integerOfText? digits).bind fun unscaled => some ⟨unscaled, places - e⟩ else none := by
  rw [ofText?, hspan]
  rcases htail with ⟨rfl, he⟩ | ⟨mark, rest, rfl, hrest⟩
  · simp only [hpoint, ← he, Option.bind_eq_bind, Option.bind_some, Option.pure_def]
  · simp only [hpoint, hrest, Option.bind_eq_bind, Option.bind_some, Option.pure_def]

namespace Exponent

variable {e? : Option Exponent} {cs : List Char}

/-- An exponent starts with its mark. -/
theorem SpelledBy.head? (h : SpelledBy e? cs) {c : Char} (hc : c ∈ cs.head?) :
    c = 'e' ∨ c = 'E' := by
  cases h with
  | absent => exact nomatch hc
  | marked e hmark =>
    obtain rfl := Option.some.inj hc
    exact hmark

/-- **The value of an exponent** is read off behind its mark, and that of none is zero. -/
theorem SpelledBy.value (h : SpelledBy e? cs) :
    (cs = [] ∧ (e?.map toInt).getD 0 = 0) ∨ ∃ mark digits, cs = mark :: digits ∧
      Digits.signed? digits = some ((e?.map toInt).getD 0) := by
  cases h with
  | absent => exact .inl ⟨rfl, rfl⟩
  | @marked e mark hmark sign hsign =>
    have hne : e.first :: e.more ≠ [] := List.cons_ne_nil _ _
    refine .inr ⟨mark, _, rfl, ?_⟩
    rw [Option.map_some, Option.getD_some, toInt]
    rcases hsign with ⟨rfl, hneg⟩ | ⟨rfl | rfl, hneg⟩
    · rw [hneg, if_pos rfl]
      exact Digits.signed?_minus_toChars hne
    · rw [hneg, if_neg Bool.false_ne_true]
      exact Digits.signed?_toChars hne
    · rw [hneg, if_neg Bool.false_ne_true]
      exact Digits.signed?_plus_toChars hne

/-- The text of an exponent has no blanks. -/
theorem SpelledBy.isBlank (h : SpelledBy e? cs) {c : Char} (hc : c ∈ cs) :
    Blank.isBlank c = false := by
  cases h with
  | absent => exact nomatch hc
  | @marked e mark hmark sign hsign =>
    -- the mark, the sign, the digits
    rcases List.mem_cons.mp hc with rfl | hc
    · rcases hmark with rfl | rfl <;> rfl
    · rcases List.mem_append.mp hc with hc | hc
      · rcases hsign with ⟨rfl, -⟩ | ⟨rfl | rfl, -⟩
        · obtain rfl := List.mem_singleton.mp hc
          rfl
        · exact nomatch hc
        · obtain rfl := List.mem_singleton.mp hc
          rfl
      · obtain ⟨d, -, rfl⟩ := List.mem_map.mp hc
        exact d.isBlank_toChar

end Exponent

namespace Numeral

variable {n : Numeral} {cs : List Char}

/-- Digits and points make up a mantissa. -/
theorem mem_mantissaChars {whole : List Digit} {c : Char} (hc : c ∈ n.mantissaChars whole) :
    c = '.' ∨ ∃ d : Digit, c = d.toChar := by
  rcases List.mem_append.mp hc with hc | hc
  · obtain ⟨d, -, rfl⟩ := List.mem_map.mp hc
    exact .inr ⟨d, rfl⟩
  · rw [fractionChars] at hc
    split at hc
    · exact nomatch hc
    · rcases List.mem_cons.mp hc with rfl | hc
      · exact .inl rfl
      · obtain ⟨d, -, rfl⟩ := List.mem_map.mp hc
        exact .inr ⟨d, rfl⟩

/-- A sign is a minus. -/
theorem mem_signChars {c : Char} (hc : c ∈ n.signChars) : c = '-' := by
  rw [signChars] at hc
  split at hc
  · exact List.mem_singleton.mp hc
  · exact nomatch hc

/-- No mark of an exponent stands among sign and mantissa, so the first one in the text starts the
exponent. -/
theorem span_mark (n : Numeral) (whole : List Digit) {tail : List Char}
    (h : Exponent.SpelledBy n.exponent tail) :
    (n.signChars ++ n.mantissaChars whole ++ tail).span (fun c => c ≠ 'e' && c ≠ 'E') =
      (n.signChars ++ n.mantissaChars whole, tail) := by
  refine span_append (fun c hc => ?_) tail fun c hc => ?_
  · rcases List.mem_append.mp hc with hc | hc
    · rw [mem_signChars hc]
      rfl
    · rcases mem_mantissaChars hc with rfl | ⟨d, rfl⟩
      · rfl
      · rw [decide_eq_true (Digits.toChar_ne (by decide)),
          decide_eq_true (Digits.toChar_ne (by decide))]
        rfl
  · rcases h.head? hc with rfl | rfl <;> rfl

/-- The point is found, and the digits after it are counted. Without a point there are none after
it. -/
theorem splitPoint_eq (n : Numeral) (whole : List Digit) :
    Decimal.splitPoint (n.signChars ++ n.mantissaChars whole) =
      (n.signChars ++ Digits.toChars (whole ++ n.fraction), n.fraction.length) := by
  -- in front of the point there is a sign and digits only
  have hfront : ∀ c ∈ n.signChars ++ Digits.toChars whole, decide (c ≠ '.') = true := by
    intro c hc
    rcases List.mem_append.mp hc with hc | hc
    · rw [mem_signChars hc]
      rfl
    · exact decide_eq_true (Digits.ne_of_mem_toChars hc (by decide))
  rw [Decimal.splitPoint, mantissaChars, ← List.append_assoc, fractionChars]
  split_ifs with hempty
  · rw [span_append hfront [] nofun, List.isEmpty_iff.mp hempty, List.append_nil]
    rfl
  · rw [span_append hfront ('.' :: Digits.toChars n.fraction)
      fun c hc => by rw [← Option.some.inj hc]; rfl]
    show (_ ++ Digits.toChars n.fraction, ((Digits.toChars n.fraction).filter (· ≠ '_')).length) = _
    rw [Digits.filter_toChars, Digits.toChars_append, List.append_assoc]
    exact congrArg _ (List.length_map _)

/-- **The digits are read** with their sign, as one integer. -/
theorem integerOfText?_eq (n : Numeral) {whole : List Digit} (hne : whole ≠ [])
    (hwhole : Digits.value whole = n.whole) :
    Decimal.integerOfText? (n.signChars ++ Digits.toChars (whole ++ n.fraction)) =
      some n.unscaled := by
  have hdigits : Decimal.groupedDigits? (Digits.toChars (whole ++ n.fraction)) =
      some (whole ++ n.fraction) :=
    Digits.groupedDigits?_toChars (List.append_ne_nil_of_left_ne_nil hne _)
  have hvalue : Digits.value (whole ++ n.fraction) = Digits.valueFrom n.whole n.fraction := by
    rw [← hwhole]
    exact Digits.valueFrom_append 0 whole n.fraction
  rw [Decimal.integerOfText?, unscaled, ← hvalue, signChars]
  -- the sign is split off first, if there is one
  cases n.negative with
  | true =>
    rw [if_pos rfl, List.singleton_append, Digits.splitSign]
    dsimp only
    rw [hdigits]
    rfl
  | false =>
    obtain ⟨d, ds, rfl⟩ := List.exists_cons_of_ne_nil hne
    have hsign := Digits.splitSign_cons d (Digits.toChars (ds ++ n.fraction))
    rw [if_neg Bool.false_ne_true, List.nil_append]
    rw [show Digits.toChars (d :: ds ++ n.fraction) =
      d.toChar :: Digits.toChars (ds ++ n.fraction) from rfl] at hdigits ⊢
    rw [hsign]
    dsimp only
    rw [hdigits]
    rfl

/-- **The decimal reader finds the decimal of the number.** The two readers cut a text at different
places, and agree on every text that is a number. -/
theorem SpelledBy.ofText? (h : n.SpelledBy cs) : Decimal.ofText? cs = n.toDecimal? := by
  obtain ⟨d, ds, tail, hwhole, htail⟩ := h
  rw [Decimal.ofText?_of_parts (n.span_mark _ htail) (n.splitPoint_eq _) htail.value,
    n.integerOfText?_eq (List.cons_ne_nil _ _) hwhole, Option.bind_some, toDecimal?, scale,
    exponentValue]

/-- Nothing of a number's text is blank. -/
theorem SpelledBy.trim (h : n.SpelledBy cs) : Blank.trim cs = cs := by
  obtain ⟨d, ds, tail, -, htail⟩ := h
  refine Blank.trim_eq_self fun c hc => ?_
  rcases List.mem_append.mp hc with hc | hc
  · rcases List.mem_append.mp hc with hc | hc
    · rw [mem_signChars hc]
      rfl
    · rcases mem_mantissaChars hc with rfl | ⟨d, rfl⟩
      · rfl
      · exact d.isBlank_toChar
  · exact htail.isBlank hc

/-- **The text of a number spells a float** as well: it has no underscores, and no sign after its
point. -/
theorem SpelledBy.isFloatText {text : String} (h : n.SpelledBy text.toList) :
    Decimal.isFloatText text = true := by
  rw [Decimal.isFloatText, h.trim]
  generalize text.toList = cs at h
  obtain ⟨d, ds, tail, -, htail⟩ := h
  -- behind the sign the mantissa stands, up to the mark of the exponent
  have hsign : (Digits.splitSign (n.signChars ++ n.mantissaChars (d :: ds) ++ tail)).2 =
      n.mantissaChars (d :: ds) ++ tail := by
    rw [signChars, List.append_assoc]
    cases n.negative with
    | true => rfl
    | false => exact congrArg Prod.snd (Digits.splitSign_cons d _)
  have hspan := span_mark { n with negative := false } (d :: ds) htail
  rw [List.span_eq_takeWhile_dropWhile] at hspan
  have hmantissa : (n.mantissaChars (d :: ds) ++ tail).takeWhile (fun c => c ≠ 'e' && c ≠ 'E') =
      n.mantissaChars (d :: ds) := (Prod.mk.inj hspan).1
  show List.all ((Digits.splitSign _).2.takeWhile _) _ = true
  rw [hsign, hmantissa, List.all_eq_true]
  intro c hc
  rcases mem_mantissaChars hc with rfl | ⟨d, rfl⟩
  · rfl
  · rw [Digit.ofChar?_toChar]
    exact Bool.or_true _

end Numeral

/-! ### Narrowing a text of a number -/

section

variable {text : String} {n : Numeral} (h : Numeral.scan text.toList = some (n, []))

include h

/-- **The number of a text** is the one that is scanned, within bounds. -/
theorem Decimal.ofNumberText?_of_scan : ofNumberText? text = n.toDecimal? >>= bounded? := by
  have htext := Numeral.spelledBy_of_scan h
  rw [ofNumberText?, htext.trim, htext.ofText?]

/-- The text of a JSON number spells a float, so it is not refused for its form. -/
theorem Decimal.isFloatText_of_scan : isFloatText text = true :=
  (Numeral.spelledBy_of_scan h).isFloatText

end

/-- **Both ways of narrowing are one**: a number is narrowed as its own spelling is. So what is
shown of texts holds of the numbers in documents. -/
theorem Value.ofText?_text (n : Numeral) : ofText? n.text = ofNumeral? n := by
  have hscan : Numeral.scan n.text.toList = some (n, []) := by
    rw [Numeral.text, String.toList_ofList, n.scan_toChars]
  rw [ofText?, ofNumeral?, Decimal.ofNumberText?_of_scan hscan, Decimal.isFloatText_of_scan hscan]

end DocStream
