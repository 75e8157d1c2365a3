import DocStream.Proofs.Convert.Numbers
import DocStream.Proofs.Envelope.Rereading
import DocStream.Proofs.Json.Canonical
import DocStream.Proofs.Number.FloatSpelling

/-!
# Values without a schema, written and read again

Without a schema every number is narrowed from its spelling, the second time as the first. Integers
come back. A float was narrowed from one spelling and is written with another, its shortest digits,
and comes back if these lead to the same rung of the ladder.

* `Value.LeafSettles` — **the leaves that come back**, and `Value.Settles` for whole values;
* `Value.ofNumeral?_iff` — what a number is narrowed to;
* `Value.comesBackBare_number` — **narrowed, written and narrowed again**, number by number;
* `Value.Cycles` — a value and what is written for it, from the parts upwards;
* `Json.comesBack_schemaless` — **a value that was read without a schema** is always read again, and
  comes back exactly if its leaves do.

Without a schema nothing says which kind of number a text stands for, so a number that is read again
is put on the ladder anew. The rung depends on the value of the digits alone, and these are the
shortest ones for the float that was written; the first reading saw other digits, perhaps more of
them. The ladder's outcome for the digits of a float is `Value.exists_rung_toNumeral`: if they spell
no integer, the float nearest to them is the float itself, in the format that it has.
-/

namespace DocStream

/-! ### Values that come back -/

/-- **The leaves that come back without a schema.** The shortest digits of a float must not spell an
integer, since that is what would be read, and those of a single-precision float must spell exactly
its value, those of a double-precision one the value of no single-precision float. All other leaves
come back. -/
def Value.LeafSettles : Value → Prop
  | .float32 x => x.isFinite = true ∧ x.toNumeral.decimal.isIntegral = false ∧
      x.equalsDecimal x.toNumeral.decimal = true
  | .float64 z => z.isFinite = true ∧ z.toNumeral.decimal.isIntegral = false ∧
      ¬((z.toNumeral.decimal.nearest .binary32).isFinite = true ∧
        (z.toNumeral.decimal.nearest .binary32).equalsDecimal z.toNumeral.decimal = true)
  | .array _ | .map _ | .record .. => False
  | _ => True

/-- **The values that come back without a schema.** -/
inductive Value.Settles : Value → Prop where
  | leaf {v : Value} (settles : v.LeafSettles) : Settles v
  | array {items : List Value} (parts : ∀ v ∈ items, Settles v) : Settles (.array items)
  | map {entries : List (String × Value)} (parts : ∀ e ∈ entries, Settles e.2) :
      Settles (.map entries)

namespace Value

/-- An array settles if its items do. -/
theorem settles_array {items : List Value} : Settles (.array items) ↔ ∀ v ∈ items, v.Settles := by
  constructor
  · intro h
    cases h with
    | leaf settles => exact settles.elim
    | array parts => exact parts
  · exact .array

/-- An object settles if the values of its entries do. -/
theorem settles_map {entries : List (String × Value)} :
    Settles (.map entries) ↔ ∀ e ∈ entries, e.2.Settles := by
  constructor
  · intro h
    cases h with
    | leaf settles => exact settles.elim
    | map parts => exact parts
  · exact .map

/-- For a leaf only the condition on leaves is left. -/
theorem settles_leaf {v : Value} (hv : v.isLeaf = true) : v.Settles ↔ v.LeafSettles := by
  constructor
  · intro h
    cases h with
    | leaf settles => exact settles
    | array | map => cases hv
  · exact .leaf

end Value

/-! ### Floats and their spelling -/

namespace Binary

/-- **A finite float is the one nearest to its own digits.** -/
theorem nearest_toNumeral {fmt : Format} (hfmt : fmt.Proper) {x : Binary fmt}
    (hx : x.isFinite = true) (hzero : x.toNumeral.unscaled ≠ 0) :
    x.toNumeral.decimal.nearest fmt = x := by
  -- the sign is read off the integer of the digits, which is not zero
  have hsign : decide (x.toNumeral.decimal.unscaled < 0) = x.negative :=
    (Numeral.negative_eq hzero).symm.trans x.negative_toNumeral
  rw [Decimal.nearest, ofDecimal_eq hfmt _ x.toNumeral_rounds, hsign, ofRank_rank hx]

end Binary

/-! ### Numbers -/

namespace Value

/-- **What a number is narrowed to**: the ladder applied to what can be read of it, and nothing if
it cannot be read. -/
theorem ofNumeral?_iff {n : Numeral} {v : Value} :
    ofNumeral? n = .ok v ↔ ∃ b, n.read? = some b ∧ v = ofDecimal true b := by
  have hread : (n.toDecimal? >>= Decimal.bounded?) = n.read? := rfl
  rw [ofNumeral?, hread]
  cases n.read? with
  | none => simp
  | some b => simp [eq_comm]

/-- An integer is narrowed to the first width that holds it, and its spelling is as well. -/
theorem ofNumeral?_ofInt {z : ℤ} (h : (Decimal.ofInt z).InBounds) :
    ofNumeral? (.ofInt z) = .ok (ofInt z) := by
  obtain ⟨b, hb⟩ := LeafType.exists_read?_ofInt.mpr h
  -- the decimal that is read denotes the integer, at whatever scale
  have hrat : b.toRat = z := by
    rw [Numeral.toRat_of_read? hb, Numeral.decimal_ofInt, Decimal.toRat, neg_zero, zpow_zero,
      mul_one]
  have hint : b.isIntegral = true := Decimal.isIntegral_iff.mpr ⟨z, hrat⟩
  have hval : b.toInt = z := by
    have := Decimal.toInt_eq_toRat hint
    rw [hrat] at this
    exact_mod_cast this
  exact ofNumeral?_iff.mpr ⟨b, hb, by rw [ofDecimal, if_pos hint, hval]⟩

/-- **The digits of a finite float stand on a rung** of the ladder; if they spell no integer, the
float is the one nearest to them. -/
theorem exists_rung_toNumeral {fmt : Format} (hfmt : fmt.Proper) (hread : fmt.Readable)
    {x : Binary fmt} (hx : x.isFinite = true) :
    ∃ w d, ofNumeral? x.toNumeral = .ok w ∧ Rung d w ∧
      d.isIntegral = x.toNumeral.decimal.isIntegral ∧
      (d.isIntegral = false → d = x.toNumeral.decimal ∧ d.nearest fmt = x) := by
  obtain ⟨b, hb⟩ := Binary.exists_read?_toNumeral hread hx
  -- the digits of a float are always within bounds, so some rung is reached
  have hw : ofNumeral? x.toNumeral = .ok (ofDecimal true b) := ofNumeral?_iff.mpr ⟨b, hb, rfl⟩
  obtain ⟨d, hrung, -, hint, hne⟩ := Numeral.rung_of_narrowed hw
  refine ⟨_, d, hw, hrung, hint, fun hfraction => ?_⟩
  obtain ⟨rfl, hzero⟩ := hne hfraction
  exact ⟨rfl, Binary.nearest_toNumeral hfmt hx hzero⟩

/-- A value, written as the JSON, without a schema and inside so many containers. -/
abbrev ComesBackBare (maxDepth depth : Nat) : Value → Json → Prop :=
  ComesBack (fun j v => j.schemaless maxDepth depth = .ok v) (fun v w => v.same w = true) Settles

variable {maxDepth depth : Nat}

section Leaves

variable {v w : Value} {j : Json}

/-- A leaf that is written and narrowed to itself. -/
theorem comesBackBare_of_read (hplain : v.leafPlain? = .ok j)
    (hread : j.schemaless maxDepth depth = .ok v) (hsettles : v.LeafSettles) :
    ∃ j, v.leafPlain? = .ok j ∧ (∃ w, j.schemaless maxDepth depth = .ok w) ∧
      ComesBackBare maxDepth depth v j :=
  ⟨j, hplain, ⟨v, hread⟩, .of_read hread (.leaf hsettles)⟩

/-- A leaf that is written and narrowed to something else. -/
theorem comesBackBare_of_lost (hv : v.isLeaf = true) (hplain : v.leafPlain? = .ok j)
    (hread : j.schemaless maxDepth depth = .ok w) (hne : w ≠ v) (hsame : v.same w = false)
    (hsettles : ¬v.LeafSettles) :
    ∃ j, v.leafPlain? = .ok j ∧ (∃ w, j.schemaless maxDepth depth = .ok w) ∧
      ComesBackBare maxDepth depth v j := by
  refine ⟨j, hplain, ⟨w, hread⟩, .of_lost (fun w' hw' => ?_) (mt (settles_leaf hv).mp hsettles)⟩
  obtain rfl := Except.ok.inj (hw'.symm.trans hread)
  exact ⟨hne, Bool.eq_false_iff.mp hsame⟩

end Leaves

/-- **A single-precision float that was narrowed** comes back if its digits spell its value. -/
theorem comesBackBare_float32 {x : Float32Bits} (hx : x.isFinite = true) :
    ∃ j, (float32 x).leafPlain? = .ok j ∧ (∃ w, j.schemaless maxDepth depth = .ok w) ∧
      ComesBackBare maxDepth depth (.float32 x) j := by
  obtain ⟨w, d, hw, hrung, hint, hne⟩ :=
    exists_rung_toNumeral Format.proper_binary32 Format.readable_binary32 hx
  have hplain : (float32 x).leafPlain? = .ok (.num x.toNumeral) := congrArg Except.ok (if_pos hx)
  -- an integer was read in its place, and its leaf does not settle
  have hinteger : d.isIntegral = true → ¬(float32 x).LeafSettles := fun integral h =>
    Bool.false_ne_true (h.2.1.symm.trans (hint.symm.trans integral))
  cases hrung with
  | int i integral val =>
    exact comesBackBare_of_lost rfl hplain hw Value.noConfusion (by simp [same])
      (hinteger integral)
  | bigint integral wide =>
    exact comesBackBare_of_lost rfl hplain hw Value.noConfusion (by simp [same])
      (hinteger integral)
  | float32 integral finite exact =>
    -- the float nearest to the digits is the float itself
    obtain ⟨hd, hnearest⟩ := hne integral
    rw [hnearest] at hw exact
    exact comesBackBare_of_read hplain hw ⟨hx, hint ▸ integral, hd ▸ exact⟩
  | float64 integral inexact =>
    -- the single-precision float would have had to be exact, and it is the nearest one
    obtain ⟨hd, hnearest⟩ := hne integral
    refine comesBackBare_of_lost rfl hplain hw Value.noConfusion (by simp [same]) fun h => ?_
    rw [hnearest] at inexact
    exact inexact ⟨hx, hd ▸ h.2.2⟩

/-- **A double-precision float that was narrowed** comes back if no single-precision float has the
value that its digits spell. One that overflowed is lost. -/
theorem comesBackBare_float64 (z : Float64Bits) :
    ∃ j, (float64 z).leafPlain? = .ok j ∧ (∃ w, j.schemaless maxDepth depth = .ok w) ∧
      ComesBackBare maxDepth depth (.float64 z) j := by
  rcases floatPlain_cases z with ⟨hz, hplain⟩ | ⟨hz, hplain⟩
  · -- an infinity is written as null
    refine comesBackBare_of_lost rfl (congrArg _ hplain) rfl Value.noConfusion (by simp [same])
      fun h => ?_
    exact absurd (hz.symm.trans h.1) Bool.false_ne_true
  · obtain ⟨w, d, hw, hrung, hint, hne⟩ :=
      exists_rung_toNumeral Format.proper_binary64 Format.readable_binary64 hz
    have hplain : (float64 z).leafPlain? = .ok (.num z.toNumeral) := congrArg Except.ok hplain
    have hinteger : d.isIntegral = true → ¬(float64 z).LeafSettles := fun integral h =>
      Bool.false_ne_true (h.2.1.symm.trans (hint.symm.trans integral))
    cases hrung with
    | int i integral val =>
      exact comesBackBare_of_lost rfl hplain hw Value.noConfusion (by simp [same])
        (hinteger integral)
    | bigint integral wide =>
      exact comesBackBare_of_lost rfl hplain hw Value.noConfusion (by simp [same])
        (hinteger integral)
    | float32 integral finite exact =>
      obtain ⟨rfl, -⟩ := hne integral
      refine comesBackBare_of_lost rfl hplain hw Value.noConfusion (by simp [same]) fun h => ?_
      exact h.2.2 ⟨finite, exact⟩
    | float64 integral inexact =>
      obtain ⟨rfl, hnearest⟩ := hne integral
      rw [hnearest] at hw
      exact comesBackBare_of_read hplain hw ⟨hz, integral, inexact⟩

/-- **A number, narrowed, written and narrowed again.** -/
theorem comesBackBare_number {n : Numeral} {v : Value} (h : ofNumeral? n = .ok v) :
    v.isLeaf = true ∧ ∃ j, v.leafPlain? = .ok j ∧
      (∃ w, j.schemaless maxDepth depth = .ok w) ∧ ComesBackBare maxDepth depth v j := by
  obtain ⟨b, hb, rfl⟩ := ofNumeral?_iff.mp h
  by_cases hint : b.isIntegral = true
  · -- an integer is as bounded as the decimal it was narrowed from
    rw [ofDecimal, if_pos hint]
    have hrat : (Decimal.ofInt b.toInt).toRat = b.toRat := by
      rw [Decimal.toRat_ofInt, Decimal.toInt_eq_toRat hint]
    have hbounds : b.InBounds := by
      obtain ⟨d, -, hd⟩ := Option.bind_eq_some_iff.mp hb
      exact Decimal.inBounds_of_bounded? hd
    have hread := ofNumeral?_ofInt ((Decimal.inBounds_congr hrat).mpr hbounds)
    rcases ofInt_cases b.toInt with ⟨i, hi, hval, -⟩ | ⟨hbig, -⟩
    · rw [hi] at hread ⊢
      rw [← hval] at hread
      exact ⟨rfl, comesBackBare_of_read rfl hread trivial⟩
    · rw [hbig] at hread ⊢
      exact ⟨rfl, comesBackBare_of_read rfl hread trivial⟩
  · -- a fraction stands on one of the last two rungs
    have hrung := rung_ofDecimal b
    cases hv : ofDecimal true b with
    | float32 x =>
      rw [hv] at hrung
      cases hrung with
      | float32 integral finite exact => exact ⟨rfl, comesBackBare_float32 finite⟩
    | float64 z => exact ⟨rfl, comesBackBare_float64 z⟩
    | _ =>
      rw [hv] at hrung
      -- the integer rungs are for integers
      cases hrung <;> exact absurd ‹b.isIntegral = true› hint

end Value

/-! ### Arrays and objects -/

namespace Json

variable {maxDepth depth : Nat}

/-- Items are read one after the other, up to the first that cannot be. -/
theorem schemalessItems_eq_ok {js : List Json} {vs : List Value} :
    schemalessItems maxDepth depth js = .ok vs ↔
      List.Forall₂ (fun j v => j.schemaless maxDepth depth = .ok v) js vs := by
  induction js generalizing vs with
  | nil =>
    rw [schemalessItems, List.forall₂_nil_left_iff]
    exact ⟨fun h => (Except.ok.inj h).symm, fun h => h ▸ rfl⟩
  | cons j rest ih =>
    rw [schemalessItems, List.forall₂_cons_left_iff, Outcome.bind_eq_ok]
    constructor
    · rintro ⟨v, hv, h⟩
      obtain ⟨vs', hvs, h⟩ := Outcome.bind_eq_ok.mp h
      exact ⟨v, vs', hv, ih.mp hvs, (Except.ok.inj h).symm⟩
    · rintro ⟨v, vs', hv, hvs, rfl⟩
      exact ⟨v, hv, Outcome.bind_eq_ok.mpr ⟨vs', ih.mpr hvs, rfl⟩⟩

/-- Members are read one after the other, each under its own name. -/
theorem schemalessMembers_eq_ok {ms : List (String × Json)} {entries : List (String × Value)} :
    schemalessMembers maxDepth depth ms = .ok entries ↔
      List.Forall₂ (fun m e => m.1 = e.1 ∧ m.2.schemaless maxDepth depth = .ok e.2) ms entries := by
  induction ms generalizing entries with
  | nil =>
    rw [schemalessMembers, List.forall₂_nil_left_iff]
    exact ⟨fun h => (Except.ok.inj h).symm, fun h => h ▸ rfl⟩
  | cons m rest ih =>
    obtain ⟨name, j⟩ := m
    rw [schemalessMembers, List.forall₂_cons_left_iff, Outcome.bind_eq_ok]
    constructor
    · rintro ⟨v, hv, h⟩
      obtain ⟨es, hes, h⟩ := Outcome.bind_eq_ok.mp h
      exact ⟨(name, v), es, ⟨rfl, hv⟩, ih.mp hes, (Except.ok.inj h).symm⟩
    · rintro ⟨⟨name', v⟩, es, ⟨rfl, hv⟩, hes, rfl⟩
      exact ⟨v, hv, Outcome.bind_eq_ok.mpr ⟨es, ih.mpr hes, rfl⟩⟩

/-- **An array is read item by item**, one container deeper. -/
theorem schemaless_arr_iff {js : List Json} {v : Value} :
    (arr js).schemaless maxDepth depth = .ok v ↔ depth < maxDepth ∧ ∃ vs, v = .array vs ∧
      List.Forall₂ (fun j v => j.schemaless maxDepth (depth + 1) = .ok v) js vs := by
  rw [schemaless]
  split
  · next hfull => exact iff_of_false (fun h => by cases h) fun h => Nat.not_le.mpr h.1 hfull
  · next hroom =>
    rw [Outcome.map_eq_ok, and_iff_right (Nat.lt_of_not_le hroom)]
    simp only [schemalessItems_eq_ok]
    exact exists_congr fun vs => by rw [and_comm, eq_comm]

/-- **An object is read member by member**, one container deeper. -/
theorem schemaless_obj_iff {ms : Members} {v : Value} :
    (obj ms).schemaless maxDepth depth = .ok v ↔ depth < maxDepth ∧ ∃ entries, v = .map entries ∧
      List.Forall₂ (fun m e => m.1 = e.1 ∧ m.2.schemaless maxDepth (depth + 1) = .ok e.2)
        ms entries := by
  rw [schemaless]
  split
  · next hfull => exact iff_of_false (fun h => by cases h) fun h => Nat.not_le.mpr h.1 hfull
  · next hroom =>
    rw [Outcome.map_eq_ok, and_iff_right (Nat.lt_of_not_le hroom)]
    simp only [schemalessMembers_eq_ok]
    exact exists_congr fun entries => by rw [and_comm, eq_comm]

end Json

namespace Value

/-- Entries are written one after the other, each under its own name. -/
theorem entriesPlain?_eq_ok {entries : List (String × Value)} {ms : List (String × Json)} :
    entriesPlain? entries = .ok ms ↔
      List.Forall₂ (fun e m => e.1 = m.1 ∧ toPlain? none e.2 = .ok m.2) entries ms := by
  induction entries generalizing ms with
  | nil =>
    rw [entriesPlain?, List.forall₂_nil_left_iff]
    exact ⟨fun h => (Except.ok.inj h).symm, fun h => h ▸ rfl⟩
  | cons e rest ih =>
    obtain ⟨name, v⟩ := e
    rw [entriesPlain?, List.forall₂_cons_left_iff, Outcome.bind_eq_ok]
    constructor
    · rintro ⟨j, hj, h⟩
      obtain ⟨ms', hms, h⟩ := Outcome.bind_eq_ok.mp h
      exact ⟨(name, j), ms', ⟨rfl, hj⟩, ih.mp hms, (Except.ok.inj h).symm⟩
    · rintro ⟨⟨name', j⟩, ms', ⟨rfl, hj⟩, hms, rfl⟩
      exact ⟨j, hj, Outcome.bind_eq_ok.mpr ⟨ms', ih.mpr hms, rfl⟩⟩

/-- An array is written item by item. -/
theorem toPlain?_none_array {vs : List Value} {js : List Json}
    (h : List.Forall₂ (fun v j => toPlain? none v = .ok j) vs js) :
    toPlain? none (.array vs) = .ok (.arr js) := by
  rw [toPlain?]
  exact Outcome.map_eq_ok.mpr ⟨js, itemsPlain?_eq_ok.mpr h, rfl⟩

/-- An object whose names ascend is written entry by entry. -/
theorem toPlain?_none_map {entries : List (String × Value)} {ms : Members}
    (hasc : StrictlyAscending (entries.map Prod.fst))
    (h : List.Forall₂ (fun e m => e.1 = m.1 ∧ toPlain? none e.2 = .ok m.2) entries ms) :
    toPlain? none (.map entries) = .ok (.obj ms) := by
  have hnames : entries.map Prod.fst = ms.map Prod.fst :=
    map_eq_map_of_forall₂ (h.imp fun e m h => h.1)
  rw [toPlain?]
  refine Outcome.bind_eq_ok.mpr ⟨ms, entriesPlain?_eq_ok.mpr h, ?_⟩
  rw [Members.ofList_of_ascending (hnames ▸ hasc)]
  rfl

/-- Objects are compared by looking up the names of the first in the second. -/
theorem sameEntries_iff {entries entries' : List (String × Value)} :
    sameEntries entries entries' = true ↔
      ∀ e ∈ entries, ∃ w, entries'.lookup e.1 = some w ∧ e.2.same w = true := by
  induction entries with
  | nil => simp [sameEntries]
  | cons e rest ih =>
    obtain ⟨name, v⟩ := e
    rw [sameEntries, Bool.and_eq_true, ih, List.forall_mem_cons]
    refine and_congr_left fun _ => ?_
    cases entries'.lookup name with
    | none => simp
    | some w => simp

variable {maxDepth depth : Nat}

/-- **An array without a schema comes back** if its items do. The containers around it are one more
for the items. -/
theorem comesBackBare_array (hdepth : depth < maxDepth) {vs : List Value} {js : List Json}
    (h : List.Forall₂ (ComesBackBare maxDepth (depth + 1)) vs js) :
    ComesBackBare maxDepth depth (.array vs) (.arr js) := by
  have hlist := ComesBack.list h
  constructor
  · -- there is room for the array, so all that matters is which items are read
    rw [Json.schemaless_arr_iff, and_iff_right hdepth, settles_array, ← hlist.reads_iff]
    constructor
    · rintro ⟨ws, heq, hitems⟩
      obtain rfl := array.inj heq
      exact hitems
    · exact fun hitems => ⟨vs, rfl, hitems⟩
  · intro w hw hsame
    obtain ⟨-, ws, rfl, hitems⟩ := Json.schemaless_arr_iff.mp hw
    rw [same, sameItems_iff] at hsame
    rw [hlist.eq_of_same ws hitems hsame]

/-- **An object without a schema comes back** if its entries do, each as a member of its name. -/
theorem comesBackBare_map (hdepth : depth < maxDepth) {entries : List (String × Value)}
    {ms : List (String × Json)} (hasc : StrictlyAscending (entries.map Prod.fst))
    (h : List.Forall₂ (fun e m => e.1 = m.1 ∧ ComesBackBare maxDepth (depth + 1) e.2 m.2)
      entries ms) :
    ComesBackBare maxDepth depth (.map entries) (.obj ms) := by
  -- a member and an entry go together if they have the same name, and then their values decide
  have hentry : List.Forall₂ (ComesBack
      (fun m e => m.1 = e.1 ∧ m.2.schemaless maxDepth (depth + 1) = .ok e.2)
      (fun e e' => e.1 = e'.1 ∧ e.2.same e'.2 = true) fun e => e.2.Settles) entries ms := by
    refine h.imp fun e m hem => ⟨?_, fun e' hread hsame => ?_⟩
    · rw [hem.2.reads_iff, and_iff_right hem.1.symm]
    · exact Prod.ext hsame.1.symm (hem.2.eq_of_same e'.2 hread.2 hsame.2)
  have hlist := ComesBack.list hentry
  constructor
  · rw [Json.schemaless_obj_iff, and_iff_right hdepth, settles_map, ← hlist.reads_iff]
    constructor
    · rintro ⟨es, heq, hmembers⟩
      obtain rfl := map.inj heq
      exact hmembers
    · exact fun hmembers => ⟨entries, rfl, hmembers⟩
  · intro w hw hsame
    obtain ⟨-, es, rfl, hmembers⟩ := Json.schemaless_obj_iff.mp hw
    rw [same, Bool.and_eq_true, sameEntries_iff] at hsame
    -- both have the names of the members, so each entry is compared with the one in its place
    have hnames : entries.map Prod.fst = es.map Prod.fst :=
      (map_eq_map_of_forall₂ (h.imp fun e m hem => hem.1)).trans
        (map_eq_map_of_forall₂ (hmembers.imp fun m e hme => hme.1))
    have hnodup : (es.map Prod.fst).Nodup := hnames ▸ hasc.nodup
    have hplace : List.Forall₂ (fun e e' => e.1 = e'.1) entries es := by
      rwa [← List.forall₂_eq_eq_eq, List.forall₂_map_left_iff, List.forall₂_map_right_iff] at hnames
    rw [hlist.eq_of_same es hmembers (forall₂_imp_of_mem hplace fun e he e' he' hname => ?_)]
    obtain ⟨w, hlookup, hvalue⟩ := hsame.2 e he
    rw [hname, (lookup_eq_some_iff_mem hnodup).mpr he', Option.some.injEq] at hlookup
    exact ⟨hname, hlookup ▸ hvalue⟩

/-- **A value and what is written for it**: it can be written, what is written can be read again, and
the value comes back from it exactly if it settles. The second part is not implied by the third: a
value that does not come back is read as another one, never refused. -/
structure Cycles (maxDepth depth : Nat) (v : Value) (j : Json) : Prop where
  plain : v.toPlain? none = .ok j
  reads : ∃ w, j.schemaless maxDepth depth = .ok w
  back : v.ComesBackBare maxDepth depth j

/-- A leaf is written without a schema as it is with one. -/
theorem Cycles.of_leaf {v : Value} {j : Json} (hv : v.isLeaf = true)
    (hplain : v.leafPlain? = .ok j) (hreads : ∃ w, j.schemaless maxDepth depth = .ok w)
    (hback : v.ComesBackBare maxDepth depth j) : Cycles maxDepth depth v j :=
  ⟨(toPlain?_none hv).trans hplain, hreads, hback⟩

/-- The items of an array go through all of it one container deeper. -/
theorem Cycles.array (hdepth : depth < maxDepth) {vs : List Value} {js : List Json}
    (h : List.Forall₂ (Cycles maxDepth (depth + 1)) vs js) :
    Cycles maxDepth depth (.array vs) (.arr js) := by
  have hreads : ∀ j ∈ js, ∃ w, j.schemaless maxDepth (depth + 1) = .ok w := by
    intro j hj
    obtain ⟨v, -, hv⟩ := exists_of_forall₂ h hj
    exact hv.reads
  obtain ⟨ws, hws⟩ := forall₂_of_forall_exists hreads
  exact {
    plain := toPlain?_none_array (h.imp fun v j hv => hv.plain)
    reads := ⟨_, Json.schemaless_arr_iff.mpr ⟨hdepth, ws, rfl, hws⟩⟩
    back := comesBackBare_array hdepth (h.imp fun v j hv => hv.back) }

/-- The entries of an object go through all of it one container deeper, each under its name. -/
theorem Cycles.map (hdepth : depth < maxDepth) {entries : List (String × Value)}
    {ms : List (String × Json)} (hasc : StrictlyAscending (entries.map Prod.fst))
    (h : List.Forall₂ (fun e m => e.1 = m.1 ∧ Cycles maxDepth (depth + 1) e.2 m.2) entries ms) :
    Cycles maxDepth depth (.map entries) (.obj ms) := by
  have hreads : ∀ m ∈ ms, ∃ e : String × Value,
      m.1 = e.1 ∧ m.2.schemaless maxDepth (depth + 1) = .ok e.2 := by
    intro m hm
    obtain ⟨e, -, -, hv⟩ := exists_of_forall₂ h hm
    obtain ⟨w, hw⟩ := hv.reads
    exact ⟨(m.1, w), rfl, hw⟩
  obtain ⟨es, hes⟩ := forall₂_of_forall_exists hreads
  exact {
    plain := toPlain?_none_map hasc (h.imp fun e m he => ⟨he.1, he.2.plain⟩)
    reads := ⟨_, Json.schemaless_obj_iff.mpr ⟨hdepth, es, rfl, hes⟩⟩
    back := comesBackBare_map hdepth hasc (h.imp fun e m he => ⟨he.1, he.2.back⟩) }

end Value

/-! ### Values -/

/-- **A value that was read without a schema** can be written, is always read again, and comes back
exactly if it settles. The document is canonical, so that the names of its objects ascend: entries
are written under the names that they were read from, and in that order. -/
theorem Json.comesBack_schemaless {j : Json} (hj : j.Canonical) {maxDepth depth : Nat} {v : Value}
    (h : j.schemaless maxDepth depth = .ok v) : ∃ j, v.Cycles maxDepth depth j := by
  -- on the document that was read, since its parts are what the parts of the value were read from
  induction j using Json.byParts generalizing depth v with
  | null =>
    obtain rfl := Except.ok.inj h
    exact ⟨.null, by rw [Value.toPlain?], ⟨.null, rfl⟩, .of_read rfl (.leaf trivial)⟩
  | bool b =>
    obtain rfl := Except.ok.inj h
    obtain ⟨j, hplain, hreads, hback⟩ := Value.comesBackBare_of_read (v := .boolean b) rfl h trivial
    exact ⟨j, .of_leaf rfl hplain hreads hback⟩
  | str s =>
    obtain rfl := Except.ok.inj h
    obtain ⟨j, hplain, hreads, hback⟩ := Value.comesBackBare_of_read (v := .string s) rfl h trivial
    exact ⟨j, .of_leaf rfl hplain hreads hback⟩
  | num n =>
    -- the only leaves that may change: the spelling that is written is not the one that was read
    obtain ⟨hleaf, j, hplain, hreads, hback⟩ := Value.comesBackBare_number h
    exact ⟨j, .of_leaf hleaf hplain hreads hback⟩
  | arr items ih =>
    obtain ⟨hdepth, vs, rfl, hvs⟩ := schemaless_arr_iff.mp h
    have hitem : ∀ v ∈ vs, ∃ j, v.Cycles maxDepth (depth + 1) j := by
      intro v hv
      obtain ⟨j, hjmem, hread⟩ := exists_of_forall₂ hvs hv
      exact ih j hjmem (canonical_arr.mp hj j hjmem) hread
    obtain ⟨js, hjs⟩ := forall₂_of_forall_exists hitem
    exact ⟨_, .array hdepth hjs⟩
  | obj members ih =>
    obtain ⟨hasc, hparts⟩ := canonical_obj.mp hj
    obtain ⟨hdepth, entries, rfl, hentries⟩ := schemaless_obj_iff.mp h
    -- the entries have the names of the members, which ascend
    have hnames : members.map Prod.fst = entries.map Prod.fst :=
      map_eq_map_of_forall₂ (hentries.imp fun m e h => h.1)
    have hentry : ∀ e ∈ entries, ∃ m : String × Json,
        e.1 = m.1 ∧ e.2.Cycles maxDepth (depth + 1) m.2 := by
      intro e he
      obtain ⟨m, hm, -, hread⟩ := exists_of_forall₂ hentries he
      obtain ⟨j, hcycles⟩ := ih m hm (hparts m hm) hread
      exact ⟨(e.1, j), rfl, hcycles⟩
    obtain ⟨ms, hms⟩ := forall₂_of_forall_exists hentry
    exact ⟨_, .map hdepth (hnames ▸ hasc) hms⟩

end DocStream
