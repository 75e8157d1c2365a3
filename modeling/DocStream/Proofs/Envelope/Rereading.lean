import DocStream.Proofs.Envelope.Acceptance
import DocStream.Proofs.Envelope.Floats
import DocStream.Proofs.Value.Narrowing

/-!
# What is read, written and read again

A value that was read under a schema can be written under it, and what is read from that need not be
the value. Three kinds of leaves are lost: single-precision floats that overflowed, the one
single-precision float whose digits do not suffice, and decimals under a type without places that
were cut to an integer, which are read as integers of any size. All else comes back.

* `ComesBack` — when something comes back, and that nothing that is merely equal to it does;
* `LeafType.Settled` — **the leaves that come back**;
* `LeafType.Yields` — **what can be read for a leaf type**;
* `LeafType.comesBack` — leaf by leaf;
* `Value.comesBack` — **a value that was read comes back exactly if its leaves do**.

A value is written as its schema says, but what is read from that is decided by the digits of its
numbers. So the leaves are settled first, type by type, and what holds of them is carried through
arrays and records by `ComesBack.list` and by the names of members. Reading is a function, so "comes
back" is one fact about what is read; that nothing else is read which compares as equal is carried
along with it, as the comparison is coarser than equality on decimals.
-/

namespace DocStream

/-! ### Coming back -/

/-- **Coming back.** From `b`, in which `a` was written, `a` is read exactly if it is settled, and
nothing else is read that is equal to `a`. Both parts are needed of the parts of a container, the
second because containers are compared by their parts. -/
structure ComesBack {α β : Type} (reads : β → α → Prop) (same : α → α → Prop) (settled : α → Prop)
    (a : α) (b : β) : Prop where
  reads_iff : reads b a ↔ settled a
  eq_of_same : ∀ a', reads b a' → same a a' → a' = a

namespace ComesBack

variable {α β : Type} {reads : β → α → Prop} {same : α → α → Prop} {settled : α → Prop}

/-- **A list comes back** if its elements do, and it is settled if they are. The elements are read
and compared one by one, each with the one in its place. -/
theorem list {as : List α} {bs : List β} (h : List.Forall₂ (ComesBack reads same settled) as bs) :
    ComesBack (List.Forall₂ reads) (List.Forall₂ same) (fun as => ∀ a ∈ as, settled a) as bs := by
  induction h with
  | nil =>
    refine ⟨iff_of_true .nil fun a ha => absurd ha List.not_mem_nil, fun as' h _ => ?_⟩
    cases h
    rfl
  | cons hab _ ih =>
    constructor
    · rw [List.forall₂_cons, List.forall_mem_cons, hab.reads_iff, ih.reads_iff]
    · intro as' hreads hsame
      cases hreads with
      | cons hread hreads =>
        cases hsame with
        | cons hhead htail => rw [hab.eq_of_same _ hread hhead, ih.eq_of_same _ hreads htail]

variable {read : β → Outcome α} {a : α} {b : β}

/-- What is read is settled. -/
theorem of_read (h : read b = .ok a) (hsettled : settled a) :
    ComesBack (fun b a => read b = .ok a) same settled a b :=
  ⟨iff_of_true h hsettled, fun _ h' _ => Except.ok.inj (h'.symm.trans h)⟩

/-- What is lost is not settled: whatever is read differs from it. -/
theorem of_lost (h : ∀ a', read b = .ok a' → a' ≠ a ∧ ¬same a a') (hsettled : ¬settled a) :
    ComesBack (fun b a => read b = .ok a) same settled a b :=
  ⟨iff_of_false (fun h' => (h a h').1 rfl) hsettled,
    fun a' h' hsame => absurd hsame (h a' h').2⟩

end ComesBack

/-! ### Equality of lists of values -/

namespace Value

/-- Lists of values are the same if they are item by item, which the comparison of arrays asks for.
-/
theorem sameItems_iff {vs ws : List Value} :
    sameItems vs ws = true ↔ List.Forall₂ (fun v w => v.same w = true) vs ws := by
  induction vs generalizing ws with
  | nil => cases ws <;> simp [sameItems]
  | cons v rest ih => cases ws <;> simp [sameItems, ih]

/-- Slots are the same if they have the same field each and values that are the same. -/
theorem sameSlots_iff {slots slots' : List Slot} :
    sameSlots slots slots' = true ↔
      List.Forall₂ (fun slot slot' => slot.1 = slot'.1 ∧ slot.2.same slot'.2 = true)
        slots slots' := by
  induction slots generalizing slots' with
  | nil => cases slots' <;> simp [sameSlots]
  | cons slot rest ih =>
    cases slots' with
    | nil => simp [sameSlots]
    | cons slot' rest' =>
      obtain ⟨f, v⟩ := slot
      obtain ⟨g, w⟩ := slot'
      simp [sameSlots, ih]

/-! ### Reading arrays and records -/

/-- What is read for an array schema: null, or an array item by item. -/
theorem ofPlain?_array_eq_ok {e : Schema} {o : Bool} {j : Json} {v : Value}
    (h : ofPlain? (.array e o) j = .ok v) :
    (v = .null ∧ o = true) ∨ ∃ js vs, j = .arr js ∧ v = .array vs ∧
      List.Forall₂ (fun j v => ofPlain? e j = .ok v) js vs := by
  cases j with
  | null =>
    cases o with
    | true => exact .inl ⟨(Except.ok.inj h).symm, rfl⟩
    | false => cases h
  | arr js =>
    rw [ofPlain?] at h
    obtain ⟨vs, hvs, rfl⟩ := Outcome.map_eq_ok.mp h
    exact .inr ⟨js, vs, rfl, rfl, Outcome.mapM_eq_ok.mp hvs⟩
  | bool | num | str | obj => simp [ofPlain?] at h

/-- An array is read under an array schema exactly as its items are under the schema of the items.
-/
theorem ofPlain?_array_iff {e : Schema} {o : Bool} {js : List Json} {v : Value} :
    ofPlain? (.array e o) (.arr js) = .ok v ↔
      ∃ vs, v = .array vs ∧ List.Forall₂ (fun j v => ofPlain? e j = .ok v) js vs := by
  rw [ofPlain?, Outcome.map_eq_ok]
  simp only [Outcome.mapM_eq_ok]
  exact exists_congr fun vs => by rw [and_comm, eq_comm]

/-- **What is read from an object under a struct schema** of distinct names: a record with the
schema's fields, each read from the member of its name, or from null if there is none. -/
theorem ofPlain?_struct_iff {fields : List Field} {o : Bool} {members : Members} {v : Value}
    (hnodup : (fields.map Prod.fst).Nodup) :
    ofPlain? (.struct fields o) (.obj members) = .ok v ↔
      ∃ slots, v = .record slots o ∧ slots.map Prod.fst = fields ∧ ∀ slot ∈ slots,
        ofPlain? slot.1.2 ((Members.get? members slot.1.1).getD .null) = .ok slot.2 := by
  have hread : ∀ slots : List Slot, slots.map Prod.fst = fields →
      (∀ slot ∈ slots,
        ofPlain? slot.1.2 ((Members.get? members slot.1.1).getD .null) = .ok slot.2) →
      ofPlain? (.struct fields o) (.obj members) = .ok (.record slots o) := by
    rintro slots rfl hslots
    rw [List.map_map] at hnodup
    -- names are distinct, so each field goes into a slot of its own, and none is filled twice
    have hfilled := fieldsOfPlain?_eq_ok (o := o) [] hnodup hslots
    rw [ofPlain?, Record.ofFields, List.map_map]
    exact Outcome.bind_eq_ok.mpr ⟨_, hfilled, rfl⟩
  constructor
  · -- every field has been read, so there are slots, and they are what is read
    intro h
    have hslot : ∀ f ∈ fields, ∃ slot : Slot, slot.1 = f ∧
        ofPlain? slot.1.2 ((Members.get? members slot.1.1).getD .null) = .ok slot.2 := by
      intro f hf
      obtain ⟨w, hw⟩ := exists_ofPlain?_struct.mp ⟨v, h⟩ f hf
      exact ⟨(f, w), rfl, hw⟩
    obtain ⟨slots, hslots⟩ := forall₂_of_forall_exists hslot
    have hfields : slots.map Prod.fst = fields := by
      have heq := map_eq_map_of_forall₂ (f := id) (g := Prod.fst)
        (hslots.imp fun f slot h => h.1.symm)
      rw [← heq, List.map_id]
    have hall : ∀ slot ∈ slots,
        ofPlain? slot.1.2 ((Members.get? members slot.1.1).getD .null) = .ok slot.2 := by
      intro slot hmem
      obtain ⟨f, -, -, hw⟩ := exists_of_forall₂ hslots hmem
      exact hw
    exact ⟨slots, Except.ok.inj (h.symm.trans (hread slots hfields hall)), hfields, hall⟩
  · rintro ⟨slots, rfl, hfields, hslots⟩
    exact hread slots hfields hslots

/-- What is read for a struct schema: null, or a record. -/
theorem ofPlain?_struct_eq_ok {fields : List Field} {o : Bool} {j : Json} {v : Value}
    (hnodup : (fields.map Prod.fst).Nodup) (h : ofPlain? (.struct fields o) j = .ok v) :
    (v = .null ∧ o = true) ∨ ∃ slots, v = .record slots o ∧ slots.map Prod.fst = fields ∧
      ∀ slot ∈ slots, ∃ j, ofPlain? slot.1.2 j = .ok slot.2 := by
  cases j with
  | null =>
    cases o with
    | true => exact .inl ⟨(Except.ok.inj h).symm, rfl⟩
    | false => cases h
  | obj members =>
    obtain ⟨slots, hv, hfields, hslots⟩ := (ofPlain?_struct_iff hnodup).mp h
    exact .inr ⟨slots, hv, hfields, fun slot hslot => ⟨_, hslots slot hslot⟩⟩
  | bool | num | str | arr => simp [ofPlain?] at h

end Value

/-! ### Leaves -/

/-- **The leaves that come back** under a leaf type, of the kinds that are read for it: finite
single-precision floats but for the stray one, and decimals unless the type has no places. -/
def LeafType.Settled : LeafType → Value → Prop
  | .boolean, .boolean _ => True
  | .int w, .int n => n.width = w
  | .float32, .float32 x => x.isFinite = true ∧ x.rank.val ≠ Shortest.strayRank
  | .float64, .float64 _ => True
  | .string, .string _ => True
  | .bytes, .bytes _ => True
  | .decimal scale, .bigint _ => scale = 0
  | .decimal scale, .decimal d => scale ≠ 0 ∧ d.scale = scale
  | .timestamp, .timestamp _ => True
  | _, _ => False

/-- A value, written as the JSON, under a schema. Two readings are equal if they compare as such,
and what has to settle are the leaves. -/
abbrev Value.ComesBackFrom (s : Schema) : Value → Json → Prop :=
  ComesBack (fun j v => ofPlain? s j = .ok v) (fun v w => v.same w = true)
    (fun v => v.Conforms LeafType.Settled s)

namespace LeafType

variable {o : Bool} {j : Json} {v : Value}

/-- A leaf that is written and read back as itself. -/
theorem comesBack_of_read {t : LeafType} (ht : t.accepts v = true) (hplain : v.leafPlain? = .ok j)
    (hread : Value.ofPlain? (.leaf t o) j = .ok v) (hsettled : t.Settled v) :
    ∃ j, t.accepts v = true ∧ v.leafPlain? = .ok j ∧ v.ComesBackFrom (.leaf t o) j := by
  refine ⟨j, ht, hplain, .of_read hread (Value.conforms_leaf hsettled ?_)⟩
  -- null is not a leaf that any type accepts
  rintro rfl
  cases t <;> cases ht

/-- A leaf in whose place something else is read, if anything: then it has to compare as different,
and must not be settled. -/
theorem comesBack_of_lost {t : LeafType} (ht : t.accepts v = true) (hleaf : v.isLeaf = true)
    (hplain : v.leafPlain? = .ok j)
    (hread : ∀ w, Value.ofPlain? (.leaf t o) j = .ok w → w ≠ v ∧ v.same w = false)
    (hsettled : ¬t.Settled v) :
    ∃ j, t.accepts v = true ∧ v.leafPlain? = .ok j ∧ v.ComesBackFrom (.leaf t o) j := by
  refine ⟨j, ht, hplain, .of_lost (fun w hw => ?_) fun hconforms => ?_⟩
  · obtain ⟨hne, hsame⟩ := hread w hw
    exact ⟨hne, Bool.eq_false_iff.mp hsame⟩
  · -- a leaf conforms to a schema by its type alone
    obtain ⟨t', o', heq, ht'⟩ := hconforms.eq_leaf hleaf
    cases heq
    exact hsettled ht'

/-- **A double-precision float that was read comes back.** -/
theorem comesBack_float64 {x : Float64Bits} (hx : x.isFinite = true) :
    ∃ j, float64.accepts (.float64 x) = true ∧ (Value.float64 x).leafPlain? = .ok j ∧
      (Value.float64 x).ComesBackFrom (.leaf .float64 o) j := by
  have hplain : (Value.float64 x).leafPlain? = .ok (.num x.toNumeral) :=
    congrArg Except.ok (if_pos hx)
  exact comesBack_of_read rfl hplain
    (Value.ofPlain?_float64 o (Binary.toFloat64?_toNumeral hx)) trivial

/-- **A single-precision float comes back** unless it overflowed, when null is written for it, or is
the stray float, in whose place its neighbour is read. -/
theorem comesBack_float32 (x : Float32Bits) :
    ∃ j, float32.accepts (.float32 x) = true ∧ (Value.float32 x).leafPlain? = .ok j ∧
      (Value.float32 x).ComesBackFrom (.leaf .float32 o) j := by
  rcases Value.floatPlain_cases x with ⟨hx, hplain⟩ | ⟨hx, hplain⟩
  · refine comesBack_of_lost rfl rfl (congrArg _ hplain) (fun w hw => ?_) fun hsettled => ?_
    · -- only null is read from null
      cases o with
      | true =>
        obtain rfl := Except.ok.inj hw
        exact ⟨Value.noConfusion, by simp [Value.same]⟩
      | false => cases hw
    · exact absurd (hx.symm.trans hsettled.1) Bool.false_ne_true
  · -- the text that is written has a nearest float of double precision, and this one is narrowed
    -- again
    obtain ⟨y, hy⟩ := Binary.exists_toFloat64?_toNumeral hx
    have hread := Value.ofPlain?_float32 o hy
    by_cases hstray : x.rank.val = Shortest.strayRank
    · -- the neighbour is another number
      refine comesBack_of_lost rfl rfl (congrArg _ hplain) (fun w hw => ?_)
        fun hsettled => hsettled.2 hstray
      have hx' : x = .stray x.negative := by
        rw [Binary.stray, Binary.mk.injEq]
        exact ⟨rfl, Fin.ext hstray⟩
      have hnext := Binary.convert_toFloat64?_toNumeral_stray x.negative
      rw [← hx', hy, Option.map_some, Option.some.injEq] at hnext
      rw [hread, hnext] at hw
      obtain rfl := Except.ok.inj hw
      have hdiffers : ∀ negative, Binary.afterStray negative ≠ .stray negative ∧
          (Binary.stray negative).sameNumber (.afterStray negative) = false := by decide
      obtain ⟨hne, hsame⟩ := hdiffers x.negative
      refine ⟨fun heq => hne ?_, ?_⟩
      · rw [← hx']
        exact Value.float32.inj heq
      · rw [← hx'] at hsame
        rw [Value.same]
        exact hsame
    · -- for every other float the two roundings lead back to it
      have hback := (Binary.convert_toFloat64?_toNumeral_iff hx hy).mpr hstray
      rw [hback] at hread
      exact comesBack_of_read rfl (congrArg _ hplain) hread ⟨hx, hstray⟩

/-! #### Decimals -/

/-- **What is read for a decimal type**: a decimal within bounds, fitted to a scale that is read. -/
theorem ofPlain?_decimal_eq_ok {scale : ℤ} (h : (decimal scale).ofPlain? j = .ok v) :
    (decimal scale).ScaleIsRead ∧ ∃ b : Decimal, b.InBounds ∧ v = fitDecimal scale b := by
  rw [ofPlain?] at h
  split at h
  · cases h
  · next d hd =>
    split_ifs at h with hscale
    refine ⟨Nat.not_lt.mp hscale, ?_⟩
    cases d with
    | none => cases h
    | some b =>
      refine ⟨b, ?_, (Except.ok.inj h).symm⟩
      -- a number and a text are bounded by the same check
      cases j with
      | num n =>
        obtain ⟨d, -, hd⟩ := Option.bind_eq_some_iff.mp (Option.some.inj hd)
        exact Decimal.inBounds_of_bounded? hd
      | str s =>
        obtain ⟨d, -, hd⟩ := Option.bind_eq_some_iff.mp (Option.some.inj hd)
        exact Decimal.inBounds_of_bounded? hd
      | null | bool | arr | obj => cases hd

/-- A number that can be read is read under a decimal type whose scale is. -/
theorem ofPlain?_decimal_num {scale : ℤ} {n : Numeral} {b : Decimal}
    (hscale : (decimal scale).ScaleIsRead) (hb : n.read? = some b) :
    (decimal scale).ofPlain? (.num n) = .ok (fitDecimal scale b) := by
  have htext : decimalText? (.num n) = some n.read? := rfl
  rw [ofPlain?, htext, hb]
  exact if_neg (Nat.not_lt.mpr hscale)

/-- **A decimal under the scale of a type is read back**, if the scale is one that is read and the
number is within bounds: the bound on scales is far inside 64 bits, and another scale does not take
a number out of bounds. -/
theorem exists_read_rescale {scale : ℤ} {b : Decimal} (hscale : (decimal scale).ScaleIsRead)
    (hb : b.InBounds) : ∃ b', (b.rescale scale).toNumeral.read? = some b' := by
  have hkept := b.scale_rescale scale
  have hle : scale.natAbs ≤ 1024 := hscale
  have hfits : Decimal.scaleInRange scale = true :=
    (Bool.and_eq_true _ _).mpr ⟨decide_eq_true (by omega), decide_eq_true (by omega)⟩
  rw [Decimal.exists_read_iff, hkept]
  exact .inr ⟨hfits, Decimal.inBounds_rescale hb scale⟩

/-- **A decimal comes back** unless it was cut to an integer for want of places: that is read as an
integer of any size. -/
theorem comesBack_decimal {scale : ℤ} {b : Decimal} (hscale : (decimal scale).ScaleIsRead)
    (hb : b.InBounds) :
    ∃ j, (decimal scale).accepts (fitDecimal scale b) = true ∧
      (fitDecimal scale b).leafPlain? = .ok j ∧
      (fitDecimal scale b).ComesBackFrom (.leaf (.decimal scale) o) j := by
  rw [fitDecimal]
  split
  · next hint =>
    -- an integer of any size is spelled plainly
    obtain ⟨rfl, hint⟩ := hint
    have hrat : (Decimal.ofInt b.toInt).toRat = b.toRat := by
      rw [Decimal.toRat_ofInt, Decimal.toInt_eq_toRat hint]
    have hbounds : (Decimal.ofInt b.toInt).InBounds := (Decimal.inBounds_congr hrat).mpr hb
    refine comesBack_of_read rfl rfl ?_ rfl
    rw [Value.ofPlain?_leaf rfl]
    refine ofPlain?_bigint ?_
    rcases hbounds with hzero | ⟨-, hle⟩
    · have hzero : b.toInt = 0 := hzero
      rw [hzero]
      decide +kernel
    · exact hle
  · next hint =>
    obtain ⟨b', hb'⟩ := exists_read_rescale hscale hb
    have hread : Value.ofPlain? (.leaf (.decimal scale) o) (.num (b.rescale scale).toNumeral) =
        .ok (fitDecimal scale b') := by
      rw [Value.ofPlain?_leaf rfl]
      exact ofPlain?_decimal_num hscale hb'
    have hrat : b'.toRat = (b.rescale scale).toRat :=
      -- the value is that of the digits that are written, whatever scale they are read with
      (Numeral.toRat_of_read? hb').trans (Decimal.toRat_toNumeral _)
    have hkept := b.scale_rescale scale
    by_cases h0 : scale = 0
    · -- without places it denotes an integer
      subst h0
      have hint' : b'.isIntegral = true := by
        refine Decimal.isIntegral_iff.mpr ⟨(b.rescale 0).unscaled, ?_⟩
        rw [hrat, Decimal.toRat, hkept, neg_zero, zpow_zero, mul_one]
      rw [fitDecimal, if_pos ⟨rfl, hint'⟩] at hread
      refine comesBack_of_lost rfl rfl rfl (fun w hw => ?_) fun hsettled => hsettled.1 rfl
      rw [hread] at hw
      obtain rfl := Except.ok.inj hw
      exact ⟨Value.noConfusion, by simp [Value.same]⟩
    · -- with places it is given those it had
      have hback : b'.rescale scale = b.rescale scale := by
        have := Decimal.rescale_eq_of_toRat hrat
        rwa [hkept] at this
      rw [fitDecimal, if_neg fun h => h0 h.1, hback] at hread
      exact comesBack_of_read rfl rfl hread ⟨h0, hkept⟩

/-! #### All leaves -/

/-- **What can be read for a leaf type**, one constructor for each type. Of the JSON that it was read
from only what later steps need is kept: floats are finite before they are narrowed, and decimals are
within bounds before they are fitted to a scale that is read. -/
inductive Yields : LeafType → Value → Prop where
  | boolean (b : Bool) : Yields .boolean (.boolean b)
  | int (n : SizedInt) : Yields (.int n.width) (.int n)
  | float32 (x : Float64Bits) : Yields .float32 (.float32 (x.convert _))
  | float64 {x : Float64Bits} (finite : x.isFinite = true) : Yields .float64 (.float64 x)
  | string (s : String) : Yields .string (.string s)
  | bytes (bs : List UInt8) : Yields .bytes (.bytes bs)
  | decimal {scale : ℤ} (isRead : (decimal scale).ScaleIsRead) {b : Decimal} (bounds : b.InBounds) :
      Yields (.decimal scale) (fitDecimal scale b)
  | timestamp (i : Instant) : Yields .timestamp (.timestamp i)

/-- **Reading a leaf yields what its type can have.** This is the only proof that opens the reader of
leaves for all types at once; those after it argue by the constructors of `LeafType.Yields`. -/
theorem yields_of_ofPlain? {t : LeafType} (h : t.ofPlain? j = .ok v) : t.Yields v := by
  cases t with
  | decimal scale =>
    obtain ⟨hscale, b, hb, rfl⟩ := ofPlain?_decimal_eq_ok h
    exact .decimal hscale hb
  | float32 | float64 =>
    cases j with
    | num n =>
      unfold ofPlain? at h
      dsimp only at h
      split at h
      · next hv =>
        obtain ⟨x, hx, rfl⟩ := Option.map_eq_some_iff.mp hv
        obtain rfl := Except.ok.inj h
        first
          | exact .float32 x
          | exact .float64 (Numeral.isFinite_of_toFloat64? hx)
      · cases h
    | null | bool | str | arr | obj => cases h
  | int w =>
    unfold ofPlain? at h
    dsimp only at h
    split at h
    · next hv =>
      obtain ⟨n, hn, rfl⟩ := Option.map_eq_some_iff.mp hv
      obtain rfl := Except.ok.inj h
      -- the width of an integer that fits is the one it was fitted to
      obtain ⟨z, -, hz⟩ := Option.bind_eq_some_iff.mp hn
      obtain rfl : n.width = w := (SizedInt.of?_eq_some hz).1
      exact .int n
    · cases h
  | boolean | string | bytes | timestamp =>
    unfold ofPlain? at h
    dsimp only at h
    split at h
    · next hv =>
      obtain ⟨x, -, rfl⟩ := Option.map_eq_some_iff.mp hv
      obtain rfl := Except.ok.inj h
      constructor
    · cases h

/-- **A leaf that was read comes back** exactly if it is settled. -/
theorem comesBack {t : LeafType} (h : t.ofPlain? j = .ok v) :
    ∃ j, t.accepts v = true ∧ v.leafPlain? = .ok j ∧ v.ComesBackFrom (.leaf t o) j := by
  cases yields_of_ofPlain? h with
  | boolean b => exact comesBack_of_read rfl rfl rfl trivial
  | string s => exact comesBack_of_read rfl rfl rfl trivial
  | bytes bs =>
    -- the text is what the bytes are encoded as, which need not be the text that was read
    refine comesBack_of_read rfl rfl ?_ trivial
    rw [Value.ofPlain?_leaf rfl]
    exact ofPlain?_bytes bs
  | int n => exact comesBack_of_read (decide_eq_true (Nat.le_refl _)) rfl (ofPlain?_int o n) rfl
  | timestamp i =>
    refine comesBack_of_read rfl rfl ?_ trivial
    rw [Value.ofPlain?_leaf rfl]
    exact ofPlain?_timestamp i
  | float64 hfinite => exact comesBack_float64 hfinite
  | float32 x =>
    -- it may have overflowed when it was narrowed, so nothing is known about it
    exact comesBack_float32 _
  | decimal hscale hb => exact comesBack_decimal hscale hb

end LeafType

/-! ### Values -/

namespace Value

/-- Null comes back wherever it was read. -/
theorem comesBackFrom_null {s : Schema} (h : s.isOptional = true) :
    ComesBackFrom s .null .null :=
  .of_read (ofPlain?_null h) (conforms_null.mpr h)

/-- **An array comes back** if its items do, each as the item in its place. -/
theorem comesBackFrom_array {e : Schema} {o : Bool} {vs : List Value} {js : List Json}
    (h : List.Forall₂ (ComesBackFrom e) vs js) :
    ComesBackFrom (.array e o) (.array vs) (.arr js) := by
  have hlist := ComesBack.list h
  constructor
  · rw [ofPlain?_array_iff, conforms_array, ← hlist.reads_iff]
    -- what is read from the array that is written is an array, and the question is which
    constructor
    · rintro ⟨ws, heq, hread⟩
      obtain rfl := array.inj heq
      exact hread
    · exact fun hread => ⟨vs, rfl, hread⟩
  · intro w hread hsame
    obtain ⟨ws, rfl, hitems⟩ := ofPlain?_array_iff.mp hread
    rw [same, sameItems_iff] at hsame
    rw [hlist.eq_of_same ws hitems hsame]

/-- **A record comes back** if its slots do, each from the member of its name. -/
theorem comesBackFrom_record {slots : List Slot} {o : Bool} {members : Members}
    (hnodup : ((slots.map Prod.fst).map Prod.fst).Nodup)
    (h : ∀ slot ∈ slots,
      slot.2.ComesBackFrom slot.1.2 ((Members.get? members slot.1.1).getD .null)) :
    ComesBackFrom (.struct (slots.map Prod.fst) o) (.record slots o) (.obj members) := by
  constructor
  · -- every slot is read from the member of its name, so the slots that are read are those that
    -- were written
    rw [ofPlain?_struct_iff hnodup, conforms_record]
    constructor
    · rintro ⟨slots', heq, -, hread⟩
      obtain ⟨rfl, -⟩ := record.inj heq
      exact ⟨rfl, rfl, fun slot hslot => (h slot hslot).reads_iff.mp (hread slot hslot)⟩
    · rintro ⟨-, -, hconforms⟩
      exact ⟨slots, rfl, rfl, fun slot hslot => (h slot hslot).reads_iff.mpr (hconforms slot hslot)⟩
  · intro w hread hsame
    obtain ⟨slots', rfl, -, hread⟩ := (ofPlain?_struct_iff hnodup).mp hread
    rw [same, Bool.and_eq_true, sameSlots_iff] at hsame
    -- equal slots have the same field, hence the same member, and so they are the same
    have hsame' := forall₂_imp_of_mem hsame.2 fun slot hslot slot' hslot' heq => by
      obtain ⟨hfield, hvalue⟩ := heq
      have hread' := hread slot' hslot'
      rw [← hfield] at hread'
      exact (Prod.ext hfield ((h slot hslot).eq_of_same _ hread' hvalue).symm : slot = slot')
    rw [List.forall₂_eq_eq_eq] at hsame'
    rw [hsame']

/-- **A value that was read under a schema** can be written under it, and comes back exactly if it
conforms to the schema with settled leaves. -/
theorem comesBack {s : Schema} (hs : s.WellFormed) {j : Json} {v : Value}
    (h : ofPlain? s j = .ok v) : ∃ j, v.toPlain? (some s) = .ok j ∧ v.ComesBackFrom s j := by
  induction s using Schema.byParts generalizing j v with
  -- on the schema, which says what is read and what is written at each place
  | leaf t o =>
    by_cases hnull : j.isNull = true
    · -- null has been read, and that only where it may stand
      rw [ofPlain?, if_pos hnull] at h
      cases o with
      | true =>
        obtain rfl := Except.ok.inj h
        exact ⟨.null, by rw [toPlain?], comesBackFrom_null rfl⟩
      | false => cases h
    · rw [ofPlain?, if_neg hnull] at h
      obtain ⟨j, ht, hplain, hback⟩ := LeafType.comesBack (o := o) h
      have hleaf : v.isLeaf = true := by
        cases v with
        | null | array | map | record => cases t <;> cases ht
        | _ => rfl
      exact ⟨j, (toPlain?_leaf hleaf ht).trans hplain, hback⟩
  | array e o ih =>
    rcases ofPlain?_array_eq_ok h with ⟨rfl, rfl⟩ | ⟨js, vs, rfl, rfl, hread⟩
    · exact ⟨.null, by rw [toPlain?], comesBackFrom_null rfl⟩
    · have hitem : ∀ v ∈ vs, ∃ j, toPlain? (some e) v = .ok j ∧ ComesBackFrom e v j := by
        -- the items were read under one schema, and each of them was read from something
        intro v hv
        obtain ⟨j, -, hj⟩ := exists_of_forall₂ hread hv
        exact ih hs hj
      obtain ⟨js', hjs'⟩ := forall₂_of_forall_exists hitem
      exact ⟨.arr js', toPlain?_array.mpr ⟨js', rfl, hjs'.imp fun v j h => h.1⟩,
        comesBackFrom_array (hjs'.imp fun v j h => h.2)⟩
  | struct fields o ih =>
    obtain ⟨hasc, hparts⟩ := Schema.wellFormed_struct.mp hs
    rcases ofPlain?_struct_eq_ok hasc.nodup h with ⟨rfl, rfl⟩ | ⟨slots, rfl, rfl, hread⟩
    · exact ⟨.null, by rw [toPlain?], comesBackFrom_null rfl⟩
    · have hslot : ∀ slot ∈ slots, ∃ m : String × Json, (m.1 = slot.1.1 ∧
          toPlain? (some slot.1.2) slot.2 = .ok m.2) ∧ slot.2.ComesBackFrom slot.1.2 m.2 := by
        intro slot hslot
        have hf := List.mem_map_of_mem (f := Prod.fst) hslot
        obtain ⟨j, hj⟩ := hread slot hslot
        obtain ⟨j, hplain, hback⟩ := ih _ hf (hparts _ hf) hj
        exact ⟨(slot.1.1, j), ⟨rfl, hplain⟩, hback⟩
      obtain ⟨members, hmembers⟩ := forall₂_of_forall_exists hslot
      -- ascending names are distinct, and the record that is written has the members in this order
      have hasc' : StrictlyAscending (slots.map (·.1.1)) := by
        rw [List.map_map] at hasc
        exact hasc
      have hnames : slots.map (·.1.1) = members.map Prod.fst :=
        map_eq_map_of_forall₂ (hmembers.imp fun slot m h => h.1.1.symm)
      refine ⟨.obj members, (toPlain?_record hasc').mpr
        ⟨members, rfl, hmembers.imp fun slot m h => h.1⟩,
        comesBackFrom_record hasc.nodup fun slot hslot => ?_⟩
      -- names ascend, so the member found is the one written for the slot
      obtain ⟨m, hm, ⟨hname, -⟩, hback⟩ := exists_of_forall₂ hmembers.flip hslot
      have hget := (Members.get?_eq_some_iff_mem (hnames ▸ hasc')).mpr hm
      rw [hname] at hget
      rw [hget]
      exact hback

end Value
end DocStream
