import DocStream.Proofs.Envelope.Payload
import DocStream.Proofs.Number.Spelling
import DocStream.Proofs.Text.Base64

/-!
# When what is written can be read

Writing and reading a value under a schema check different things. Writing lets null stand anywhere,
for missing fields and for floats that are no numbers as well, and takes decimals of every scale and
size. Reading wants null to be allowed, and bounds the scale of a decimal schema and the magnitude
of a decimal number. Nothing else comes between: whatever is written within these bounds is read.

* `LeafType.Rereads`, `Value.Rereads` — **what reading asks** of a value that was written;
* `LeafType.exists_ofPlain?_iff` — the same for leaves, from their texts;
* `Value.isRead_iff_of_written` — **a value that is written can be read exactly if it meets this**.

For leaves there is one equivalence for each kind of leaf and each type that it is written under,
from the text that is written for it. For values there is one induction, in which writing gives the
parts of what was written and reading asks for each of them again. Missing fields go along: they are
written as null, and null is what reading asks about.
-/

namespace DocStream

/-! ### What reading asks -/

/-- Is the scale of the type one that is read? Of types without a scale nothing is asked. -/
def LeafType.ScaleIsRead : LeafType → Prop
  | .decimal scale => scale.natAbs ≤ Decimal.maxReadScale
  | _ => True

/-- **What reading asks of a leaf**, under a leaf type and where null is allowed or not: a float
that is a number or for which null may stand, and under a decimal type a scale and a number that are
within the bounds of reading. -/
def LeafType.Rereads (t : LeafType) (optional : Bool) : Value → Prop
  | .float32 x => x.isFinite = true ∨ optional = true
  | .float64 x => x.isFinite = true ∨ optional = true
  | .int _ => t.ScaleIsRead
  | .bigint n => t.ScaleIsRead ∧ (Decimal.ofInt n).InBounds
  | .decimal d => t.ScaleIsRead ∧
      (d.unscaled = 0 ∨ (Decimal.scaleInRange d.scale = true ∧ d.InBounds))
  | _ => True

/-- **What reading asks of a value**: null only where the schema is optional, a field that a record
lacks being null, and of every leaf what its type asks. -/
inductive Value.Rereads : Schema → Value → Prop where
  | null {s : Schema} (optional : s.isOptional = true) : Rereads s .null
  | leaf {t : LeafType} {o : Bool} {v : Value} (isLeaf : v.isLeaf = true)
      (rereads : t.Rereads o v) : Rereads (.leaf t o) v
  | array {e : Schema} {o : Bool} {items : List Value} (parts : ∀ v ∈ items, Rereads e v) :
      Rereads (.array e o) (.array items)
  | record {fields : List Field} {o p : Bool} {slots : List Slot}
      (parts : ∀ f ∈ fields, Rereads f.2 ((Record.get? ⟨slots, p⟩ f.1).getD .null)) :
      Rereads (.struct fields o) (.record slots p)

/-! ### Leaves -/

namespace Value

/-- Null is read where the schema is optional, and nowhere else. Every kind of schema asks for that
first. -/
theorem exists_ofPlain?_null {s : Schema} :
    (∃ w, ofPlain? s .null = .ok w) ↔ s.isOptional = true := by
  constructor
  · rintro ⟨w, hw⟩
    cases s with
    | leaf t o | array e o | struct fields o =>
      cases o with
      | true => rfl
      | false => exact nomatch hw
  · exact fun h => ⟨.null, ofPlain?_null h⟩

/-- JSON that is not null is read by the leaf type. -/
theorem ofPlain?_leaf {t : LeafType} {o : Bool} {j : Json} (h : j.isNull = false) :
    ofPlain? (.leaf t o) j = t.ofPlain? j := by
  rw [ofPlain?, if_neg (ne_true_of_eq_false h)]

end Value

namespace LeafType

/-- **A number is read under a decimal type** if the scale is, and the number within bounds. The
scale is checked for every number anew, before the number is looked at. -/
theorem exists_ofPlain?_decimal {scale : ℤ} {n : Numeral} :
    (∃ w, (decimal scale).ofPlain? (.num n) = .ok w) ↔
      (decimal scale).ScaleIsRead ∧ ∃ b, n.read? = some b := by
  have htext : decimalText? (.num n) = some n.read? := rfl
  rw [ofPlain?, htext]
  change (∃ w, (if Decimal.maxReadScale < scale.natAbs then _ else _) = _) ↔
    scale.natAbs ≤ Decimal.maxReadScale ∧ _
  by_cases hscale : Decimal.maxReadScale < scale.natAbs
  · rw [if_pos hscale]
    simp [Nat.not_le.mpr hscale]
  · rw [if_neg hscale, and_iff_right (Nat.not_lt.mp hscale)]
    cases n.read? with
    | none => simp
    | some b => simp

/-- An integer is within bounds if it is zero or its digits are not too many. -/
theorem exists_read?_ofInt {n : ℤ} :
    (∃ b, (Numeral.ofInt n).read? = some b) ↔ (Decimal.ofInt n).InBounds := by
  rw [Numeral.exists_read?_iff, Numeral.decimal_ofInt]
  exact and_iff_right (by decide : Decimal.scaleInRange 0 = true)

/-- The integers of 64 bits are within bounds. -/
theorem inBounds_ofInt {n : ℤ} (h : IntWidth.w64.Holds n) : (Decimal.ofInt n).InBounds := by
  by_cases h0 : n = 0
  · exact .inl h0
  · -- else they have at most nineteen digits
    have hle : n.natAbs ≤ 2 ^ 63 := by
      have hlow : -(2 ^ 63) ≤ n := h.1
      have hhigh : n < 2 ^ 63 := h.2
      omega
    have hcount : Digits.count n.natAbs ≤ 19 := by
      by_contra hgt
      have := Digits.pow_le_of_lt_count (Int.natAbs_ne_zero.mpr h0) (Nat.lt_of_not_le hgt)
      omega
    refine .inr ?_
    change -323 ≤ (Digits.count n.natAbs : ℤ) - 0 ∧ (Digits.count n.natAbs : ℤ) - 0 ≤ 309
    omega

/-- A machine integer is read under the types of its width and of wider ones, where it becomes an
integer of the wider width. -/
theorem exists_ofPlain?_int {w : IntWidth} {n : SizedInt} (h : n.width.bits ≤ w.bits) :
    ∃ v, (int w).ofPlain? (.ofInt n.val) = .ok v := by
  have hread : (Json.ofInt n.val).int64? = some n.val := Numeral.toInt64?_ofInt n.inRange.widen
  have hholds : w.Holds n.val := n.inRange.mono h
  rw [ofPlain?, hread, Option.bind_some, SizedInt.of?, dif_pos hholds]
  exact ⟨_, rfl⟩

/-- An instant is read back, since the calendar fits 64 bits. -/
theorem ofPlain?_timestamp (t : Instant) :
    timestamp.ofPlain? (.ofInt t.millis) = .ok (.timestamp t) := by
  have hholds : IntWidth.w64.Holds t.millis :=
    ⟨le_trans (by decide) t.inRange.1, t.inRange.2.trans_lt (by decide)⟩
  have hread : (Json.ofInt t.millis).int64? = some t.millis := Numeral.toInt64?_ofInt hholds
  rw [ofPlain?, hread, Option.bind_some, Instant.of?, dif_pos t.inRange]
  rfl

/-- Bytes are read back, as decoding undoes encoding. -/
theorem ofPlain?_bytes (bs : List UInt8) :
    bytes.ofPlain? (.str (String.ofList (Base64.encode bs))) = .ok (.bytes bs) := by
  rw [ofPlain?, Json.str?, Option.bind_some, String.toList_ofList, Base64.decode?_encode]
  rfl

/-- A float under its own type or a wider one is read as a number, or as null where that is allowed.
-/
theorem exists_ofPlain?_float {fmt : Format} {x : Binary fmt} {t : LeafType} {o : Bool}
    (h : x.isFinite = true → ∃ w, t.ofPlain? (.num x.toNumeral) = .ok w) :
    (∃ w, Value.ofPlain? (.leaf t o) (Value.floatPlain x) = .ok w) ↔
      x.isFinite = true ∨ o = true := by
  rcases Value.floatPlain_cases x with ⟨hx, hplain⟩ | ⟨hx, hplain⟩
  · rw [hplain, Value.exists_ofPlain?_null, hx]
    exact (or_iff_right Bool.false_ne_true).symm
  · rw [hplain, Value.ofPlain?_leaf rfl]
    exact iff_of_true (h hx) (.inl hx)

/-- **A leaf that is written can be read** exactly if it meets what reading asks. -/
theorem exists_ofPlain?_iff {t : LeafType} {o : Bool} {v : Value} {j : Json}
    (hv : t.accepts v = true) (hj : v.leafPlain? = .ok j) :
    (∃ w, Value.ofPlain? (.leaf t o) j = .ok w) ↔ t.Rereads o v := by
  -- by kind of leaf, and under each kind by the types that accept it; any other type is ruled out
  -- by the acceptance
  cases v with
  | null | array | map | record => cases t <;> cases hv
  | boolean b =>
    obtain rfl := Except.ok.inj hj
    cases t with
    | boolean => exact iff_of_true ⟨_, rfl⟩ trivial
    | _ => cases hv
  | string s =>
    obtain rfl := Except.ok.inj hj
    cases t with
    | string => exact iff_of_true ⟨_, rfl⟩ trivial
    | _ => cases hv
  | bytes bs =>
    obtain rfl := Except.ok.inj hj
    cases t with
    | bytes =>
      rw [Value.ofPlain?_leaf rfl]
      exact iff_of_true ⟨_, ofPlain?_bytes bs⟩ trivial
    | _ => cases hv
  | timestamp i =>
    obtain rfl := Except.ok.inj hj
    cases t with
    | timestamp =>
      rw [Value.ofPlain?_leaf rfl]
      exact iff_of_true ⟨_, ofPlain?_timestamp i⟩ trivial
    | _ => cases hv
  | int n =>
    obtain rfl := Except.ok.inj hj
    rw [Value.ofPlain?_leaf rfl]
    cases t with
    | int w => exact iff_of_true (exists_ofPlain?_int (of_decide_eq_true hv)) trivial
    | decimal scale =>
      -- a machine integer is always within bounds, so only the scale is asked about
      refine exists_ofPlain?_decimal.trans (and_iff_left ?_)
      exact exists_read?_ofInt.mpr (inBounds_ofInt n.inRange.widen)
    | _ => cases hv
  | bigint n =>
    obtain rfl := Except.ok.inj hj
    rw [Value.ofPlain?_leaf rfl]
    cases t with
    | decimal scale =>
      exact exists_ofPlain?_decimal.trans (and_congr_right fun _ => exists_read?_ofInt)
    | _ => cases hv
  | decimal d =>
    obtain rfl := Except.ok.inj hj
    rw [Value.ofPlain?_leaf rfl]
    cases t with
    | decimal scale =>
      exact exists_ofPlain?_decimal.trans (and_congr_right fun _ => Decimal.exists_read_iff)
    | _ => cases hv
  | float32 x =>
    obtain rfl := Except.ok.inj hj
    -- single precision is read in double precision first
    have hread : x.isFinite = true → ∃ y, x.toNumeral.toFloat64? = some y :=
      Binary.exists_toFloat64?_toNumeral
    cases t with
    | float32 =>
      refine exists_ofPlain?_float fun hx => ?_
      obtain ⟨y, hy⟩ := hread hx
      exact ⟨_, (Value.ofPlain?_leaf (o := o) rfl).symm.trans (Value.ofPlain?_float32 o hy)⟩
    | float64 =>
      refine exists_ofPlain?_float fun hx => ?_
      obtain ⟨y, hy⟩ := hread hx
      exact ⟨_, (Value.ofPlain?_leaf (o := o) rfl).symm.trans (Value.ofPlain?_float64 o hy)⟩
    | _ => cases hv
  | float64 x =>
    obtain rfl := Except.ok.inj hj
    cases t with
    | float64 =>
      refine exists_ofPlain?_float fun hx => ?_
      have hy := Binary.toFloat64?_toNumeral hx
      exact ⟨_, (Value.ofPlain?_leaf (o := o) rfl).symm.trans (Value.ofPlain?_float64 o hy)⟩
    | _ => cases hv

end LeafType

/-! ### Values -/

namespace Record

/-- A name is looked up slot by slot, and the first slot of the name has it. -/
theorem get?_cons (slot : Slot) (rest : List Slot) (o : Bool) (name : String) :
    Record.get? ⟨slot :: rest, o⟩ name =
      if slot.1.1 = name then some slot.2 else Record.get? ⟨rest, o⟩ name := by
  rw [get?, get?, List.find?_cons]
  by_cases h : slot.1.1 = name
  · rw [if_pos h, beq_iff_eq.mpr h]
    rfl
  · rw [if_neg h, beq_eq_false_iff_ne.mpr h]

/-- A field that is there can be set, which leaves the fields as they are. -/
theorem exists_put? {r : Record} {name : String} (h : name ∈ r.slots.map (·.1.1)) (v : Value) :
    ∃ r', r.put? name v = .ok r' ∧ r'.slots.map Prod.fst = r.slots.map Prod.fst := by
  have key : ∀ slots : List Slot, name ∈ slots.map (·.1.1) →
      ∃ slots', setSlot? name v slots = some slots' := by
    intro slots hmem
    induction slots with
    | nil => exact absurd hmem List.not_mem_nil
    | cons slot rest ih =>
      rw [setSlot?]
      by_cases hname : slot.1.1 = name
      · exact ⟨_, if_pos hname⟩
      · obtain ⟨rest', hrest⟩ := ih ((List.mem_cons.mp hmem).resolve_left (Ne.symm hname))
        exact ⟨slot :: rest', by rw [if_neg hname, hrest]; rfl⟩
  obtain ⟨slots', hslots⟩ := key r.slots h
  exact ⟨⟨slots', r.optional⟩, by rw [put?, hslots], fields_setSlot? hslots⟩

/-- What is found in a record is the value of a slot. -/
theorem exists_of_get? {r : Record} {name : String} {v : Value} (h : r.get? name = some v) :
    ∃ slot ∈ r.slots, slot.2 = v := by
  obtain ⟨slot, hslot, rfl⟩ := Option.map_eq_some_iff.mp h
  exact ⟨slot, List.mem_of_find?_eq_some hslot, rfl⟩

end Record

namespace Value

/-- **The field of a name is written** from the value that the record has for it, or as null. The
loop of the writer stops at the first slot of the name, as looking up does. -/
theorem slotPlain?_eq (name : String) (s : Schema) (slots : List Slot) (p : Bool) :
    slotPlain? name s slots = toPlain? (some s) ((Record.get? ⟨slots, p⟩ name).getD .null) := by
  induction slots with
  | nil => rw [slotPlain?, Record.get?, List.find?_nil, Option.map_none, Option.getD_none, toPlain?]
  | cons slot rest ih =>
    obtain ⟨⟨k, u⟩, v⟩ := slot
    rw [slotPlain?, Record.get?_cons]
    split
    · rfl
    · exact ih

/-- An array is written under array schemas only, item by item. -/
theorem toPlain?_array_eq_ok {s : Schema} {items : List Value} {j : Json}
    (h : toPlain? (some s) (.array items) = .ok j) :
    ∃ e o js, s = .array e o ∧ j = .arr js ∧
      List.Forall₂ (fun v j => toPlain? (some e) v = .ok j) items js := by
  cases s with
  | array e o =>
    obtain ⟨js, hj, hjs⟩ := toPlain?_array.mp h
    exact ⟨e, o, js, rfl, hj, hjs⟩
  | leaf t o | struct fields o => simp [toPlain?] at h

/-- **A record is written under struct schemas only**, field by field. -/
theorem toPlain?_record_eq_ok {s : Schema} {slots : List Slot} {p : Bool} {j : Json}
    (h : toPlain? (some s) (.record slots p) = .ok j) :
    ∃ fields o ms, s = .struct fields o ∧ j = .obj (Members.ofList ms) ∧
      List.Forall₂ (fun f m => m.1 = f.1 ∧
        toPlain? (some f.2) ((Record.get? ⟨slots, p⟩ f.1).getD .null) = .ok m.2) fields ms := by
  rw [toPlain?, Option.getD_some] at h
  cases s with
  | leaf t o | array e o => cases h
  | struct fields o =>
    obtain ⟨ms, hms, hj⟩ := Outcome.bind_eq_ok.mp h
    refine ⟨fields, o, ms, rfl, (Except.ok.inj hj).symm, ?_⟩
    refine (Outcome.mapM_eq_ok.mp hms).imp fun f m hm => ?_
    obtain ⟨jf, hjf, hm⟩ := Outcome.bind_eq_ok.mp hm
    obtain rfl := Except.ok.inj hm
    exact ⟨rfl, slotPlain?_eq f.1 f.2 slots p ▸ hjf⟩

/-- A leaf is written under leaf schemas only, and only if the type accepts it. What is written is
the same under each. -/
theorem toPlain?_leaf_eq_ok {s : Schema} {v : Value} {j : Json} (hv : v.isLeaf = true)
    (h : toPlain? (some s) v = .ok j) :
    ∃ t o, s = .leaf t o ∧ t.accepts v = true ∧ v.leafPlain? = .ok j := by
  cases v with
  | null | array | map | record => cases hv
  | _ =>
    simp only [toPlain?] at h
    split at h
    · next ht =>
      cases s with
      | leaf t o => exact ⟨t, o, rfl, ht, h⟩
      | array e o | struct fields o => cases ht
    · cases h

/-- **The fields of an object are filled** exactly if each of them can be read. By induction on the
fields, with the record that is filled kept general; that it has all of them never changes. -/
theorem exists_fieldsOfPlain?_iff {members : Members} {fields : List Field} {into : Record}
    (h : ∀ f ∈ fields, f.1 ∈ into.slots.map (·.1.1)) :
    (∃ r, fieldsOfPlain? fields members into = .ok r) ↔
      ∀ f ∈ fields, ∃ w, ofPlain? f.2 ((Members.get? members f.1).getD .null) = .ok w := by
  induction fields generalizing into with
  | nil => exact iff_of_true ⟨into, rfl⟩ fun f hf => absurd hf List.not_mem_nil
  | cons f rest ih =>
    rw [List.forall_mem_cons, fieldsOfPlain?]
    constructor
    · rintro ⟨r, hr⟩
      obtain ⟨w, hw, hr⟩ := Outcome.bind_eq_ok.mp hr
      obtain ⟨into', hput, hr⟩ := Outcome.bind_eq_ok.mp hr
      obtain ⟨into'', hput', hfields⟩ := Record.exists_put? (h f List.mem_cons_self) w
      obtain rfl := Except.ok.inj (hput.symm.trans hput')
      refine ⟨⟨w, hw⟩, (ih fun g hg => ?_).mp ⟨r, hr⟩⟩
      rw [Record.names_eq_of_fields_eq hfields]
      exact h g (List.mem_cons_of_mem f hg)
    · -- the first field is read and set, and the record has the other fields still
      rintro ⟨⟨w, hw⟩, hrest⟩
      obtain ⟨into', hput, hfields⟩ := Record.exists_put? (h f List.mem_cons_self) w
      have hnames : ∀ g ∈ rest, g.1 ∈ into'.slots.map (·.1.1) := by
        rw [Record.names_eq_of_fields_eq hfields]
        exact fun g hg => h g (List.mem_cons_of_mem f hg)
      obtain ⟨r, hr⟩ := (ih hnames).mpr hrest
      exact ⟨r, Outcome.bind_eq_ok.mpr ⟨w, hw, Outcome.bind_eq_ok.mpr ⟨into', hput, hr⟩⟩⟩

/-- An object is read under a struct if every field is, a missing member being read as null. -/
theorem exists_ofPlain?_struct {fields : List Field} {o : Bool} {members : Members} :
    (∃ w, ofPlain? (.struct fields o) (.obj members) = .ok w) ↔
      ∀ f ∈ fields, ∃ w, ofPlain? f.2 ((Members.get? members f.1).getD .null) = .ok w := by
  have hnames : ∀ f ∈ fields, f.1 ∈ (Record.ofFields fields o).slots.map (·.1.1) := by
    intro f hf
    rw [Record.ofFields, List.map_map]
    exact List.mem_map_of_mem (f := Prod.fst) hf
  rw [← exists_fieldsOfPlain?_iff hnames, ofPlain?]
  constructor
  · rintro ⟨w, hw⟩
    obtain ⟨r, hr, -⟩ := Outcome.bind_eq_ok.mp hw
    exact ⟨r, hr⟩
  · rintro ⟨r, hr⟩
    exact ⟨_, Outcome.bind_eq_ok.mpr ⟨r, hr, rfl⟩⟩

theorem exists_ofPlain?_array {e : Schema} {o : Bool} {js : List Json} :
    (∃ w, ofPlain? (.array e o) (.arr js) = .ok w) ↔ ∀ j ∈ js, ∃ w, ofPlain? e j = .ok w := by
  constructor
  · rintro ⟨w, hw⟩ j hj
    rw [ofPlain?] at hw
    obtain ⟨ws, hws, -⟩ := Outcome.map_eq_ok.mp hw
    obtain ⟨w, -, hread⟩ := exists_of_forall₂ (Outcome.mapM_eq_ok.mp hws).flip hj
    exact ⟨w, hread⟩
  · intro h
    obtain ⟨ws, hws⟩ := forall₂_of_forall_exists h
    exact ⟨_, ofPlain?_array hws⟩

theorem rereads_null {s : Schema} : Rereads s .null ↔ s.isOptional = true := by
  constructor
  · intro h
    cases h with
    | null optional => exact optional
    | leaf isLeaf => exact nomatch isLeaf
  · exact .null

theorem rereads_leaf {t : LeafType} {o : Bool} {v : Value} (hv : v.isLeaf = true) :
    Rereads (.leaf t o) v ↔ t.Rereads o v := by
  constructor
  · intro h
    cases h with
    | null => exact nomatch hv
    | leaf _ rereads => exact rereads
  · exact .leaf hv

/-- The field of an object that was written, name by name. Names ascend, so the members are in the
order of the fields and each is found under its name. -/
theorem get?_of_written {fields : List Field} {ms : List (String × Json)} {W : Field → Json → Prop}
    (hasc : StrictlyAscending (fields.map Prod.fst))
    (h : List.Forall₂ (fun f m => m.1 = f.1 ∧ W f m.2) fields ms) :
    ∀ f ∈ fields, ∃ j, Members.get? (Members.ofList ms) f.1 = some j ∧ W f j := by
  have hnames : ms.map Prod.fst = fields.map Prod.fst :=
    (map_eq_map_of_forall₂ (h.imp fun f m hm => hm.1.symm)).symm
  rw [← hnames] at hasc
  intro f hf
  obtain ⟨m, hm, hname, hw⟩ := exists_of_forall₂ h.flip hf
  refine ⟨m.2, ?_, hw⟩
  rw [Members.ofList_of_ascending hasc, ← hname]
  exact (Members.get?_eq_some_iff_mem hasc).mpr hm

/-- **A value that is written can be read exactly if it meets what reading asks**: whenever a value
is accepted for writing under a well-formed schema, the result can be read under that schema if and
only if no null stands where the schema does not allow it, and decimals are within the bounds of
reading. -/
theorem isRead_iff_of_written {s : Schema} {v : Value} {j : Json} (hs : s.WellFormed)
    (h : v.toPlain? (some s) = .ok j) : (∃ w, ofPlain? s j = .ok w) ↔ v.Rereads s := by
  induction v using Value.byParts generalizing s j with
  | leaf v harray hmap hrecord =>
    -- null is written as null under every schema
    by_cases hnull : v = .null
    · subst hnull
      rw [toPlain?] at h
      rw [← Except.ok.inj h, exists_ofPlain?_null, rereads_null]
    · have hisLeaf : v.isLeaf = true := isLeaf_of_ne hnull harray hmap hrecord
      obtain ⟨t, o, rfl, ht, hj⟩ := toPlain?_leaf_eq_ok hisLeaf h
      rw [rereads_leaf hisLeaf]
      exact LeafType.exists_ofPlain?_iff ht hj
  | array items ih =>
    obtain ⟨e, o, js, rfl, rfl, hjs⟩ := toPlain?_array_eq_ok h
    have he : e.WellFormed := hs
    rw [exists_ofPlain?_array]
    constructor
    · intro hread
      refine .array fun v hv => ?_
      obtain ⟨j, hj, hwritten⟩ := exists_of_forall₂ hjs.flip hv
      exact (ih v hv he hwritten).mp (hread j hj)
    · intro hrereads j hj
      obtain ⟨v, hv, hwritten⟩ := exists_of_forall₂ hjs hj
      cases hrereads with
      | array parts => exact (ih v hv he hwritten).mpr (parts v hv)
  -- no schema describes a map, so none is written
  | map entries ih => simp [toPlain?] at h
  | record slots p ih =>
    obtain ⟨fields, o, ms, rfl, rfl, hms⟩ := toPlain?_record_eq_ok h
    obtain ⟨hasc, hparts⟩ := Schema.wellFormed_struct.mp hs
    have hget := get?_of_written (W := fun f j =>
      toPlain? (some f.2) ((Record.get? ⟨slots, p⟩ f.1).getD .null) = .ok j) hasc hms
    -- of every field the value can be read if it meets what reading asks, also if it is missing
    have hfield : ∀ f ∈ fields,
        (∃ w, ofPlain? f.2 ((Members.get? (Members.ofList ms) f.1).getD .null) = .ok w) ↔
          Rereads f.2 ((Record.get? ⟨slots, p⟩ f.1).getD .null) := by
      intro f hf
      obtain ⟨j, hj, hwritten⟩ := hget f hf
      rw [hj, Option.getD_some]
      cases hv : Record.get? ⟨slots, p⟩ f.1 with
      | none =>
        rw [hv, Option.getD_none, toPlain?] at hwritten
        rw [← Except.ok.inj hwritten, Option.getD_none, exists_ofPlain?_null, rereads_null]
      | some v =>
        rw [hv] at hwritten
        obtain ⟨slot, hslot, rfl⟩ := Record.exists_of_get? hv
        exact ih slot hslot (hparts f hf) hwritten
    rw [exists_ofPlain?_struct]
    constructor
    · exact fun hread => .record fun f hf => (hfield f hf).mp (hread f hf)
    · intro hrereads f hf
      cases hrereads with
      | record parts => exact (hfield f hf).mpr (parts f hf)

/-- A record without one of its fields, with an array of narrow integers under a wider type and a
decimal of another scale than its type. -/
theorem isRead_iff_of_written_record :
    let s := Schema.struct [("a", .array (.leaf (.int .w16) false) false),
      ("b", .leaf (.decimal 2) false), ("c", .leaf .string true)] false
    let v := Value.record [(("a", .array (.leaf (.int .w8) false) false),
        .array [.int ⟨.w8, 5, by decide⟩]), (("b", .leaf (.decimal 1) false), .decimal ⟨125, 1⟩)]
      false
    ∃ j w, v.toPlain? (some s) = .ok j ∧ ofPlain? s j = .ok w := by
  intro s v
  have hs : s.WellFormed := by
    refine Schema.wellFormed_struct.mpr ⟨by unfold StrictlyAscending; decide, ?_⟩
    simp only [List.forall_mem_cons]
    exact ⟨trivial, trivial, trivial, fun f hf => absurd hf List.not_mem_nil⟩
  have hj : v.toPlain? (some s) = .ok (.obj [("a", .arr [.ofInt 5]),
      ("b", .num (Decimal.toNumeral ⟨125, 1⟩)), ("c", .null)]) := rfl
  have hscale : (LeafType.decimal 2).ScaleIsRead := show 2 ≤ Decimal.maxReadScale by decide
  have hbounds : (⟨125, 1⟩ : Decimal).InBounds := .inr (by decide +kernel)
  have hrereads : v.Rereads s := by
    refine .record ?_
    simp only [List.forall_mem_cons]
    refine ⟨.array ?_, .leaf rfl ⟨hscale, .inr ⟨by decide, hbounds⟩⟩, .null rfl,
      fun f hf => absurd hf List.not_mem_nil⟩
    simp only [List.forall_mem_cons]
    exact ⟨.leaf rfl trivial, fun v hv => absurd hv List.not_mem_nil⟩
  obtain ⟨w, hw⟩ := (isRead_iff_of_written hs hj).mpr hrereads
  exact ⟨_, w, hj, hw⟩

/-- **Not all that is written can be read**: a decimal type may have too large a scale, a decimal
number may be too large, and null may stand where it is not allowed. -/
theorem not_isRead_of_written :
    (let s := Schema.leaf (.decimal 1025) false
     let v := Value.int ⟨.w8, 5, by decide⟩
     v.toPlain? (some s) = .ok (.ofInt 5) ∧
     ofPlain? s (.ofInt 5) = .error (.unhandled "decimal(1025)" "decimal scale")) ∧
    (let s := Schema.leaf (.decimal 0) false
     let d : Decimal := ⟨1, -309⟩
     (Value.decimal d).toPlain? (some s) = .ok (.num d.toNumeral) ∧
     ∀ w, ofPlain? s (.num d.toNumeral) ≠ .ok w) ∧
    (let s := Schema.leaf .boolean false
     Value.null.toPlain? (some s) = .ok .null ∧
     ofPlain? s .null = .error (.unhandled "boolean" "null")) := by
  refine ⟨⟨rfl, rfl⟩, ⟨rfl, fun w hw => ?_⟩, rfl, rfl⟩
  have hread : (LeafType.decimal 0).Rereads false (.decimal ⟨1, -309⟩) :=
    (LeafType.exists_ofPlain?_iff rfl rfl).mp ⟨w, hw⟩
  have hhigh : (⟨1, -309⟩ : Decimal).magnitude = 310 := by decide +kernel
  rcases hread.2 with hzero | ⟨-, hzero | ⟨-, hle⟩⟩
  · exact absurd hzero (by decide)
  · exact absurd hzero (by decide)
  · rw [hhigh] at hle
    exact absurd hle (by decide)

end Value
end DocStream
