import DocStream.Proofs.Induction
import DocStream.Proofs.Number.Shortest
import DocStream.Proofs.Schema.Shape
import DocStream.Proofs.Value.Plain
import DocStream.Proofs.Value.Records

/-!
# Payloads over the wire and back

A value that conforms to its schema is written as plain JSON and read back under the same schema.
What is read has the shape of what was written, and is the same wherever there is no float. A float
is read back as a float of its kind, or as null if it is infinite or no number.

* `Value.AgreesOffFloats` — **agreement of values**, floats aside;
* `LeafType.Readable` — the leaves that can be read back;
* `Value.Conforms.readsBack` — **every conforming value is written and read back**.

Agreement off floats is what survives for certain: a float may be written as null, and one float of
single precision comes back as another. The statement for leaves goes through the types one by one;
those for arrays and records collect what is known of the parts into lists that stand side by side,
so that writing and reading can be told of the lists.
-/

namespace DocStream

/-! ### Agreement -/

namespace Value

/-- **Agreement off floats.** Two values have the same shape, the records in them the same fields,
and they are the same at every place where the first does not hold a float. In the place of a float
there is a float of its kind, or null. -/
inductive AgreesOffFloats : Value → Value → Prop where
  | same (v : Value) : AgreesOffFloats v v
  | float32 (x y : Float32Bits) : AgreesOffFloats (.float32 x) (.float32 y)
  | float32Lost (x : Float32Bits) : AgreesOffFloats (.float32 x) .null
  | float64 (x y : Float64Bits) : AgreesOffFloats (.float64 x) (.float64 y)
  | float64Lost (x : Float64Bits) : AgreesOffFloats (.float64 x) .null
  | array {items items' : List Value} (length : items.length = items'.length)
      (agree : ∀ p ∈ items.zip items', AgreesOffFloats p.1 p.2) :
      AgreesOffFloats (.array items) (.array items')
  | record {slots slots' : List Slot} {o : Bool}
      (fields : slots.map Prod.fst = slots'.map Prod.fst)
      (agree : ∀ p ∈ slots.zip slots', AgreesOffFloats p.1.2 p.2.2) :
      AgreesOffFloats (.record slots o) (.record slots' o)

/-- **Written and read back**: a value is written under a schema, and what is read under the same
schema agrees with it off floats. -/
def ReadsBack (s : Schema) (v : Value) : Prop :=
  ∃ j w, v.toPlain? (some s) = .ok j ∧ ofPlain? s j = .ok w ∧ v.AgreesOffFloats w

end Value

/-! ### Leaves -/

/-- **The leaves that can be read back**: those inferred for their type, and of the integers of any
size those within the magnitudes that are read. -/
def LeafType.Readable (t : LeafType) (v : Value) : Prop :=
  t.Infers v ∧ ∀ n, v = .bigint n → (Decimal.ofInt n).magnitude ≤ Decimal.greatestMagnitude

theorem LeafType.isLeaf_of_infers {t : LeafType} {v : Value} (h : t.Infers v) :
    v.isLeaf = true :=
  isLeaf_of_accepts (accepts_of_infers h)

/-- A leaf is written by itself and read by its type. -/
theorem Value.readsBack_leaf {t : LeafType} {v w : Value} {j : Json} (hv : t.Infers v)
    (hj : v.leafPlain? = .ok j) (hw : ofPlain? (.leaf t true) j = .ok w)
    (hagree : v.AgreesOffFloats w) : ReadsBack (.leaf t true) v :=
  ⟨j, w, (toPlain?_leaf (LeafType.isLeaf_of_infers hv) (LeafType.accepts_of_infers hv)).trans hj,
    hw, hagree⟩

/-- The integer of a plain spelling, if 64 bits hold it. -/
theorem Numeral.toInt64?_ofInt {z : ℤ} (h : IntWidth.w64.Holds z) :
    (ofInt z).toInt64? = some z := by
  have hdecimal := congrArg Decimal.unscaled (decimal_ofInt z)
  have hinteger : (ofInt z).toInteger? = some z := congrArg some hdecimal
  rw [toInt64?, hinteger, Option.filter_some, if_pos]
  exact (Bool.and_eq_true _ _).mpr ⟨decide_eq_true h.1, decide_eq_true h.2⟩

/-- What a width holds, a wider one holds, as the widths are nested. -/
theorem IntWidth.Holds.mono {w w' : IntWidth} {z : ℤ} (h : w.Holds z) (hle : w.bits ≤ w'.bits) :
    w'.Holds z := by
  cases w <;> cases w' <;> simp only [Holds, bits] at * <;> omega

/-- Narrow integers fit 64 bits. -/
theorem IntWidth.Holds.widen {w : IntWidth} {z : ℤ} (h : w.Holds z) : IntWidth.w64.Holds z :=
  h.mono (by cases w <;> decide)

/-- **A machine integer is read back** at its width. -/
theorem LeafType.ofPlain?_int (o : Bool) (n : SizedInt) :
    Value.ofPlain? (.leaf (.int n.width) o) (.ofInt n.val) = .ok (.int n) := by
  have hread : (Json.ofInt n.val).int64? = some n.val := Numeral.toInt64?_ofInt n.inRange.widen
  rw [Value.ofPlain?, if_neg (by exact Bool.false_ne_true), ofPlain?, hread, Option.bind_some,
    SizedInt.of?, dif_pos n.inRange]
  rfl

/-- An integer of any size is read back, if its magnitude is one that is read. -/
theorem LeafType.ofPlain?_bigint {n : ℤ}
    (h : (Decimal.ofInt n).magnitude ≤ Decimal.greatestMagnitude) :
    (decimal 0).ofPlain? (.ofInt n) = .ok (.bigint n) := by
  have hbounded : (⟨n, 0⟩ : Decimal).bounded? = some ⟨n, 0⟩ := by
    rw [Decimal.bounded?]
    split
    · next h0 =>
      have h0 : n = 0 := h0
      rw [h0]
    · -- an integer is no fraction, so its magnitude is at least zero
      have hlow : Decimal.leastMagnitude ≤ (⟨n, 0⟩ : Decimal).magnitude :=
        (show Decimal.leastMagnitude ≤ 0 by decide).trans
          (Int.sub_nonneg_of_le (Int.natCast_nonneg _))
      exact if_pos ⟨hlow, h⟩
  have hread : (Numeral.ofInt n).toDecimal? >>= Decimal.bounded? = some ⟨n, 0⟩ := by
    -- the text of an integer has no point and no exponent
    have hscale : (Numeral.ofInt n).scale = 0 := rfl
    have hdecimal : (Numeral.ofInt n).toDecimal? = some (Numeral.ofInt n).decimal := by
      rw [Numeral.toDecimal?, hscale, if_pos (by decide), ← hscale]
      rfl
    rw [hdecimal, Numeral.decimal_ofInt]
    exact hbounded
  -- and it is fitted into a type without places as it is
  have hint : (⟨n, 0⟩ : Decimal).toInt = n := by
    have hrat := Decimal.toInt_eq_toRat (d := ⟨n, 0⟩) (by rw [Decimal.isIntegral]; simp)
    rw [Decimal.toRat, neg_zero, zpow_zero, mul_one] at hrat
    exact_mod_cast hrat
  have hfit : fitDecimal 0 ⟨n, 0⟩ = .bigint n := by
    rw [fitDecimal, if_pos ⟨rfl, by rw [Decimal.isIntegral]; simp⟩, hint]
  rw [Json.ofInt, ofPlain?, decimalText?, hread]
  dsimp only
  rw [if_neg (by decide), Option.map_some, hfit]

/-- A float is written as null or as a number that reads as a float. There is no JSON number for
infinity or for what is no number. -/
theorem Value.floatPlain_cases {fmt : Format} (x : Binary fmt) :
    (x.isFinite = false ∧ floatPlain x = .null) ∨
      (x.isFinite = true ∧ floatPlain x = .num x.toNumeral) := by
  rw [floatPlain]
  cases x.isFinite with
  | false => exact .inl ⟨rfl, rfl⟩
  | true => exact .inr ⟨rfl, rfl⟩

/-- A number under the single-precision type is read in double precision and then narrowed. -/
theorem Value.ofPlain?_float32 (o : Bool) {n : Numeral} {y : Float64Bits}
    (h : n.toFloat64? = some y) :
    ofPlain? (.leaf .float32 o) (.num n) = .ok (.float32 (y.convert _)) := by
  rw [ofPlain?, if_neg (by exact Bool.false_ne_true), LeafType.ofPlain?, h]
  rfl

/-- A number under the double-precision type is what it reads as. -/
theorem Value.ofPlain?_float64 (o : Bool) {n : Numeral} {y : Float64Bits}
    (h : n.toFloat64? = some y) : ofPlain? (.leaf .float64 o) (.num n) = .ok (.float64 y) := by
  rw [ofPlain?, if_neg (by exact Bool.false_ne_true), LeafType.ofPlain?, h]
  rfl

/-- **A single-precision float is read back** as some float, or as null if it is not finite. -/
theorem Value.readsBack_float32 (x : Float32Bits) :
    ReadsBack (.leaf .float32 true) (.float32 x) := by
  rcases floatPlain_cases x with ⟨-, hx⟩ | ⟨hfinite, hx⟩
  · exact readsBack_leaf trivial (congrArg _ hx) rfl (.float32Lost x)
  · obtain ⟨y, hy⟩ := Binary.exists_toFloat64?_toNumeral hfinite
    exact readsBack_leaf trivial (congrArg _ hx) (ofPlain?_float32 true hy) (.float32 x _)

/-- **A double-precision float is read back** as itself, or as null if it is not finite. -/
theorem Value.readsBack_float64 (x : Float64Bits) :
    ReadsBack (.leaf .float64 true) (.float64 x) := by
  rcases floatPlain_cases x with ⟨-, hx⟩ | ⟨hfinite, hx⟩
  · exact readsBack_leaf trivial (congrArg _ hx) rfl (.float64Lost x)
  · exact readsBack_leaf trivial (congrArg _ hx)
      (ofPlain?_float64 true (Binary.toFloat64?_toNumeral hfinite)) (.same _)

/-- **A readable leaf is written and read back** under an optional leaf schema of its type. No leaf
is inferred to be bytes or a timestamp, so of these nothing is asked. -/
theorem LeafType.Readable.readsBack {t : LeafType} {v : Value} (h : t.Readable v) :
    Value.ReadsBack (.leaf t true) v := by
  -- the type tells the value, since a leaf of another kind is not what is inferred
  obtain ⟨hv, hbig⟩ := h
  cases t with
  | boolean =>
    cases v with
    | boolean b => exact Value.readsBack_leaf hv rfl rfl (.same _)
    | _ => exact hv.elim
  | string =>
    cases v with
    | string s => exact Value.readsBack_leaf hv rfl rfl (.same _)
    | _ => exact hv.elim
  | int w =>
    cases v with
    | int n =>
      obtain rfl : n.width = w := hv
      exact Value.readsBack_leaf rfl rfl (ofPlain?_int true n) (.same _)
    | _ => exact hv.elim
  | float32 =>
    cases v with
    | float32 x => exact Value.readsBack_float32 x
    | _ => exact hv.elim
  | float64 =>
    cases v with
    | float64 x => exact Value.readsBack_float64 x
    | _ => exact hv.elim
  | decimal scale =>
    cases v with
    | bigint n =>
      obtain rfl : scale = 0 := hv
      refine Value.readsBack_leaf rfl rfl ?_ (.same _)
      rw [Value.ofPlain?, if_neg (by exact Bool.false_ne_true)]
      exact ofPlain?_bigint (hbig n rfl)
    | _ => exact hv.elim
  | bytes | timestamp => cases v <;> exact hv.elim

/-! ### Values -/

namespace Value

theorem ofPlain?_null {s : Schema} (h : s.isOptional = true) : ofPlain? s .null = .ok .null := by
  cases s with
  | leaf t o =>
    obtain rfl : o = true := h
    rfl
  | array e o =>
    obtain rfl : o = true := h
    rfl
  | struct fields o =>
    obtain rfl : o = true := h
    rfl

/-- **The fields of a record, filled in order.** If every slot's value is read from the member of
its name, then filling the fields one after the other, behind fields that are filled already, gives
the slots. -/
theorem fieldsOfPlain?_eq_ok {members : Members} {o : Bool} (filled : List Slot) {slots : List Slot}
    (hnodup : ((filled ++ slots).map (·.1.1)).Nodup)
    (hslots : ∀ slot ∈ slots,
      ofPlain? slot.1.2 ((Members.get? members slot.1.1).getD .null) = .ok slot.2) :
    fieldsOfPlain? (slots.map Prod.fst) members
        ⟨filled ++ slots.map fun slot => (slot.1, .null), o⟩ = .ok ⟨filled ++ slots, o⟩ := by
  induction slots generalizing filled with
  | nil => rfl
  | cons slot rest ih =>
    obtain ⟨⟨name, s⟩, v⟩ := slot
    -- the first field to fill has none of the names that are filled already
    have hput : Record.put?
        ⟨filled ++ ((name, s), .null) :: rest.map fun slot => (slot.1, .null), o⟩ name v =
        .ok ⟨(filled ++ [((name, s), v)]) ++ rest.map fun slot => (slot.1, .null), o⟩ := by
      rw [List.map_append, List.nodup_append] at hnodup
      have hnew : name ∉ filled.map (·.1.1) := fun hmem =>
        hnodup.2.2 _ hmem name List.mem_cons_self rfl
      rw [Record.put?, Record.setSlot?_append (f := (name, s)) hnew, List.append_assoc]
      rfl
    -- it joins the filled ones, and the induction hypothesis does the others
    have hrest := ih (filled ++ [((name, s), v)]) (by rwa [List.append_assoc])
      fun slot hslot => hslots slot (List.mem_cons_of_mem _ hslot)
    rw [List.append_assoc filled [((name, s), v)] rest] at hrest
    rw [List.map_cons, List.map_cons, fieldsOfPlain?,
      hslots ((name, s), v) List.mem_cons_self]
    show Record.put? _ name v >>= _ = _
    rw [hput]
    exact hrest

/-- **An array is read item by item.** -/
theorem ofPlain?_array {e : Schema} {o : Bool} {js : List Json} {ws : List Value}
    (h : List.Forall₂ (fun j w => ofPlain? e j = .ok w) js ws) :
    ofPlain? (.array e o) (.arr js) = .ok (.array ws) := by
  rw [ofPlain?]
  exact Outcome.map_eq_ok.mpr ⟨ws, Outcome.mapM_eq_ok.mpr h, rfl⟩

/-- **A record is read slot by slot**, if its names ascend. -/
theorem ofPlain?_struct {slots : List Slot} {o : Bool} {members : Members}
    (hasc : StrictlyAscending (slots.map (·.1.1)))
    (h : List.Forall₂ (fun slot m => slot.1.1 = m.1 ∧ ofPlain? slot.1.2 m.2 = .ok slot.2)
      slots members) :
    ofPlain? (.struct (slots.map Prod.fst) o) (.obj members) = .ok (.record slots o) := by
  have hnames : slots.map (·.1.1) = members.map Prod.fst :=
    map_eq_map_of_forall₂ (h.imp fun slot m h => h.1)
  have hget : ∀ slot ∈ slots,
      ofPlain? slot.1.2 ((Members.get? members slot.1.1).getD .null) = .ok slot.2 := by
    intro slot hslot
    -- names are distinct, so the member found is the one paired with the slot
    obtain ⟨m, hm, hname, hread⟩ := exists_of_forall₂ h.flip hslot
    have hfound := (Members.get?_eq_some_iff_mem (hnames ▸ hasc)).mpr hm
    rw [hname, hfound]
    exact hread
  have hfilled := fieldsOfPlain?_eq_ok (o := o) [] hasc.nodup hget
  rw [ofPlain?, Record.ofFields, List.map_map]
  exact Outcome.bind_eq_ok.mpr ⟨_, hfilled, rfl⟩

/-- **An array is written and read back** if its items are. -/
theorem readsBack_array {items : List Value} {e : Schema} {o : Bool}
    (h : ∀ v ∈ items, ReadsBack e v) : ReadsBack (.array e o) (.array items) := by
  -- every item with what is written for it and what is read
  obtain ⟨ps, hps⟩ := forall₂_of_forall_exists (R := fun v (p : Json × Value) =>
      toPlain? (some e) v = .ok p.1 ∧ ofPlain? e p.1 = .ok p.2 ∧ v.AgreesOffFloats p.2)
    fun v hv => by
      obtain ⟨j, w, hjw⟩ := h v hv
      exact ⟨(j, w), hjw⟩
  -- the list of pairs is taken apart into what is written and what is read
  have hwritten : List.Forall₂ (fun v j => toPlain? (some e) v = .ok j) items
      (ps.map Prod.fst) := List.forall₂_map_right_iff.mpr (hps.imp fun v p h => h.1)
  have hread : List.Forall₂ (fun j w => ofPlain? e j = .ok w) (ps.map Prod.fst)
      (ps.map Prod.snd) := by
    rw [List.forall₂_map_left_iff, List.forall₂_map_right_iff, List.forall₂_same]
    intro p hp
    obtain ⟨v, -, -, hw, -⟩ := exists_of_forall₂ hps hp
    exact hw
  have hagree : List.Forall₂ AgreesOffFloats items (ps.map Prod.snd) :=
    List.forall₂_map_right_iff.mpr (hps.imp fun v p h => h.2.2)
  obtain ⟨hlen, hzip⟩ := List.forall₂_iff_zip.mp hagree
  exact ⟨_, _, toPlain?_array.mpr ⟨_, rfl, hwritten⟩, ofPlain?_array hread,
    .array hlen fun p hp => hzip hp⟩

/-- **A record is written and read back** if its slots are and their names ascend. -/
theorem readsBack_record {slots : List Slot} {o : Bool}
    (hasc : StrictlyAscending (slots.map (·.1.1)))
    (h : ∀ slot ∈ slots, ReadsBack slot.1.2 slot.2) :
    ReadsBack (.struct (slots.map Prod.fst) o) (.record slots o) := by
  -- every slot with its member and with the slot that is read from it
  have hpair : ∀ slot ∈ slots, ∃ q : (String × Json) × Slot,
      (q.1.1 = slot.1.1 ∧ toPlain? (some slot.1.2) slot.2 = .ok q.1.2) ∧ slot.1 = q.2.1 ∧
        ofPlain? q.2.1.2 q.1.2 = .ok q.2.2 ∧ slot.2.AgreesOffFloats q.2.2 := by
    intro slot hslot
    obtain ⟨j, w, hj, hw, hagree⟩ := h slot hslot
    exact ⟨((slot.1.1, j), (slot.1, w)), ⟨rfl, hj⟩, rfl, hw, hagree⟩
  obtain ⟨qs, hqs⟩ := forall₂_of_forall_exists hpair
  have hwritten : List.Forall₂ (fun (slot : Slot) m => m.1 = slot.1.1 ∧
      toPlain? (some slot.1.2) slot.2 = .ok m.2) slots (qs.map Prod.fst) :=
    List.forall₂_map_right_iff.mpr (hqs.imp fun slot q h => h.1)
  -- what is read has the fields of what was written
  have hfields : slots.map Prod.fst = (qs.map Prod.snd).map Prod.fst :=
    map_eq_map_of_forall₂ (List.forall₂_map_right_iff.mpr (hqs.imp fun slot q h => h.2.1))
  have hread : List.Forall₂ (fun (slot' : Slot) m => slot'.1.1 = m.1 ∧
      ofPlain? slot'.1.2 m.2 = .ok slot'.2) (qs.map Prod.snd) (qs.map Prod.fst) := by
    rw [List.forall₂_map_left_iff, List.forall₂_map_right_iff, List.forall₂_same]
    intro q hq
    obtain ⟨slot, -, ⟨hname, -⟩, hfield, hw, -⟩ := exists_of_forall₂ hqs hq
    exact ⟨hfield ▸ hname.symm, hw⟩
  have hagree : List.Forall₂ (fun (slot slot' : Slot) => slot.2.AgreesOffFloats slot'.2) slots
      (qs.map Prod.snd) :=
    List.forall₂_map_right_iff.mpr (hqs.imp fun slot q h => h.2.2.2)
  refine ⟨_, _, (toPlain?_record hasc).mpr ⟨_, rfl, hwritten⟩, hfields ▸ ofPlain?_struct ?_ hread,
    .record hfields fun p hp => List.forall₂_zip hagree hp⟩
  rw [← Record.names_eq_of_fields_eq hfields]
  exact hasc

/-- **Every conforming value is written and read back**, if its leaves can be. By induction on the
value, the schema following it. -/
theorem Conforms.readsBack {v : Value} {s : Schema} (hv : v.Conforms LeafType.Readable s)
    (hs : s.WellFormed) (hleaf : s.Everywhere Schema.LeafInferred) : ReadsBack s v := by
  induction v using Value.byParts generalizing s with
  | leaf v harray hmap hrecord =>
    by_cases hnull : v = .null
    · -- null stands only where the schema is optional
      subst hnull
      exact ⟨.null, .null, by rw [toPlain?], ofPlain?_null (conforms_null.mp hv), .same _⟩
    · have hisLeaf : v.isLeaf = true := isLeaf_of_ne hnull harray hmap hrecord
      obtain ⟨t, o, rfl, ht⟩ := hv.eq_leaf hisLeaf
      -- an inferred leaf schema is optional
      obtain rfl : o = true := hleaf.1
      exact ht.readsBack
  -- an array conforms to array schemas only, as a record does to structs
  | array items ih =>
    cases s with
    | leaf t o => exact absurd (LeafType.isLeaf_of_infers hv.1) Bool.false_ne_true
    | struct fields o => exact hv.elim
    | array e o =>
      have he := (Schema.everywhere_iff.mp hleaf).2
      exact readsBack_array fun v hmem => ih v hmem (conforms_array.mp hv v hmem) hs he
  | map entries ih =>
    -- no schema describes a map
    cases s with
    | leaf t o => exact absurd (LeafType.isLeaf_of_infers hv.1) Bool.false_ne_true
    | array e o => exact hv.elim
    | struct fields o => exact hv.elim
  | record slots p ih =>
    cases s with
    | leaf t o => exact absurd (LeafType.isLeaf_of_infers hv.1) Bool.false_ne_true
    | array e o => exact hv.elim
    | struct fields o =>
      obtain ⟨rfl, rfl, hslots⟩ := conforms_record.mp hv
      obtain ⟨hasc, hparts⟩ := Schema.wellFormed_struct.mp hs
      have hleaves := (Schema.everywhere_struct.mp hleaf).2
      rw [List.map_map] at hasc
      refine readsBack_record hasc fun slot hslot => ?_
      have hmem := List.mem_map_of_mem (f := Prod.fst) hslot
      exact ih slot hslot (hslots slot hslot) (hparts _ hmem) (hleaves _ hmem)

end Value
end DocStream
