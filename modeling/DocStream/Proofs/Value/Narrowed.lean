import DocStream.Proofs.Envelope.Payload
import DocStream.Proofs.Number.Widening
import DocStream.Proofs.Value.Narrowing

/-!
# Narrowed values

A value that was not made from a text carries its numbers in whatever kinds they came in. Narrowing
puts each of them into the narrowest kind that has it exactly and changes nothing else. Two notions
say this, one of the change and one of the result, and together they leave no choice:

* `Value.Recasts` — **the same value with its numbers in other kinds**, containers, names and the
  numbers themselves kept;
* `Value.IsNarrow` — a value in which **no number outside a record has a narrower kind**;
* `Value.recasts_narrow`, `Value.isNarrow_narrow` — narrowing gives such a value;
* `Value.Recasts.eq_narrow` — and **there is no other one**;
* `Value.narrow_eq_iff` — all of it together, and that narrowing twice is narrowing once.

Records are left as they are, since their numbers are bound to a schema.

`Value.Recasts` compares parts by position, which is how narrowing goes through arrays and objects,
and `Value.IsNarrow` is asked of every part. So the uniqueness proof is an induction on the former
with an inversion of the latter in each case, and all that is left at leaves is that a number is
narrow in one kind only: `SizedInt.IsNarrow.unique` for integers, and for floats that a
double-precision float is widened from at most one single-precision one.
-/

namespace DocStream

/-! ### Numbers -/

theorem IntWidth.eq_of_bits {w w' : IntWidth} (h : w.bits = w'.bits) : w = w' := by
  cases w <;> cases w' <;> simp [bits] at h ⊢

/-- **No narrower width holds the integer.** -/
def SizedInt.IsNarrow (i : SizedInt) : Prop :=
  ∀ w : IntWidth, w.Holds i.val → i.width.bits ≤ w.bits

/-- An integer is narrow at one width only. -/
theorem SizedInt.IsNarrow.unique {i j : SizedInt} (hi : i.IsNarrow) (hj : j.IsNarrow)
    (hval : i.val = j.val) : i = j := by
  have hwidth : i.width = j.width := by
    -- each width holds the integer, so neither is wider than the other
    apply IntWidth.eq_of_bits
    exact Nat.le_antisymm (hi _ (hval ▸ j.inRange)) (hj _ (hval ▸ i.inRange))
  obtain ⟨w, z, hz⟩ := i
  cases hwidth
  cases hval
  rfl

/-- **No single-precision float has the value**, or there is no value, as with infinities. -/
def Binary.IsNarrow (x : Float64Bits) : Prop :=
  x.isFinite = true → ∀ y : Float32Bits, y.isFinite = true → y.toRat ≠ x.toRat

/-- A float that is narrow is no single-precision one, widened. -/
theorem Binary.IsNarrow.not_widens {x : Float64Bits} (h : x.IsNarrow) (hx : x.isFinite = true)
    (y : Float32Bits) : ¬y.Widens x := by
  intro hwidens
  have hy : y.isFinite = true := hwidens.isFinite.symm.trans hx
  exact h hx y hy (hwidens.toRat hy).symm

namespace Value

/-! ### Numbers in other kinds -/

/-- Does narrowing leave the value alone whatever it is? Only machine integers and double-precision
floats have narrower kinds, and only arrays and schemaless objects are looked into. -/
def isFixed : Value → Bool
  | int _ | float64 _ | array _ | map _ => false
  | _ => true

/-- **The same value with its numbers in other kinds.** Arrays keep their items in their order and
objects their names in theirs. An integer stays the same integer, and a float the same float: one of
single precision has its sign, is finite or no number if it is, and has exactly its value. -/
inductive Recasts : Value → Value → Prop where
  | int {i j : SizedInt} (exact : j.val = i.val) : Recasts (.int i) (.int j)
  | float32 {x : Float64Bits} {y : Float32Bits} (finite : x.isFinite = true)
      (exact : y.Widens x) : Recasts (.float64 x) (.float32 y)
  | float64 (x : Float64Bits) : Recasts (.float64 x) (.float64 x)
  | array {items items' : List Value} (length : items.length = items'.length)
      (each : ∀ p ∈ items.zip items', Recasts p.1 p.2) : Recasts (.array items) (.array items')
  | map {entries entries' : List (String × Value)}
      (names : entries.map Prod.fst = entries'.map Prod.fst)
      (each : ∀ p ∈ entries.zip entries', Recasts p.1.2 p.2.2) :
      Recasts (.map entries) (.map entries')
  | fixed {v : Value} (h : v.isFixed = true) : Recasts v v

/-- **No number outside a record has a narrower kind**: every machine integer stands at the first
width that holds it, and no finite double-precision float has a value that some single-precision
float has. -/
inductive IsNarrow : Value → Prop where
  | int (i : SizedInt) (narrow : i.IsNarrow) : IsNarrow (.int i)
  | float64 (x : Float64Bits) (narrow : x.IsNarrow) : IsNarrow (.float64 x)
  | array (items : List Value) (each : ∀ v ∈ items, IsNarrow v) : IsNarrow (.array items)
  | map (entries : List (String × Value)) (each : ∀ e ∈ entries, IsNarrow e.2) :
      IsNarrow (.map entries)
  | fixed {v : Value} (h : v.isFixed = true) : IsNarrow v

namespace Recasts

theorem ofItems {vs ws : List Value} (h : List.Forall₂ Recasts vs ws) :
    Recasts (.array vs) (.array ws) := by
  obtain ⟨hlength, hzip⟩ := List.forall₂_iff_zip.mp h
  exact .array hlength fun p hp => hzip hp

/-- An object is recast entry by entry, under the same names. -/
theorem ofEntries {es fs : List (String × Value)}
    (h : List.Forall₂ (fun e f => e.1 = f.1 ∧ Recasts e.2 f.2) es fs) :
    Recasts (.map es) (.map fs) := by
  refine .map (map_eq_map_of_forall₂ (h.imp fun e f hef => hef.1)) fun p hp => ?_
  exact ((List.forall₂_iff_zip.mp h).2 hp).2

/-- Any value is one with its numbers in the kinds they have. -/
theorem refl (v : Value) : v.Recasts v := by
  induction v using Value.byParts with
  | leaf v harray hmap _ =>
    cases v with
    | int i => exact .int rfl
    | float64 x => exact .float64 x
    | array items => exact absurd rfl (harray items)
    | map entries => exact absurd rfl (hmap entries)
    | _ => exact .fixed rfl
  | array items ih => exact ofItems (List.forall₂_same.mpr ih)
  | map entries ih => exact ofEntries (List.forall₂_same.mpr fun e he => ⟨rfl, ih e he⟩)
  | record slots o => exact .fixed rfl

end Recasts

/-! ### What narrowing does -/

/-- What has no narrower kind and is not looked into stays as it is. -/
theorem narrow_of_isFixed {v : Value} (h : v.isFixed = true) : v.narrow = v := by
  cases v with
  | int | float64 | array | map => cases h
  | _ => rw [narrow] <;> simp

/-- An array is narrowed item by item. -/
theorem narrow_array (items : List Value) : (array items).narrow = array (items.map narrow) := by
  rw [narrow]
  congr 1
  induction items with
  | nil => rw [narrowItems, List.map_nil]
  | cons v rest ih => rw [narrowItems, ih, List.map_cons]

/-- A schemaless object is narrowed entry by entry, under the same names. -/
theorem narrow_map (entries : List (String × Value)) :
    (map entries).narrow = map (entries.map fun e => (e.1, e.2.narrow)) := by
  rw [narrow]
  congr 1
  induction entries with
  | nil => rw [narrowEntries, List.map_nil]
  | cons e rest ih => rw [narrowEntries, ih, List.map_cons]

/-- A machine integer gets the first width that holds it. -/
theorem exists_narrow_int (i : SizedInt) :
    ∃ j : SizedInt, (int i).narrow = int j ∧ j.val = i.val ∧ j.IsNarrow := by
  rw [narrow]
  rcases ofInt_cases i.val with ⟨j, hj, hval, hfirst⟩ | ⟨-, hwide⟩
  · exact ⟨j, hj, hval, fun w hw => hfirst w (hval ▸ hw)⟩
  · -- it has a width already, so the widest holds it
    exact absurd i.inRange.widen hwide

/-- A double-precision float becomes the single-precision one that has exactly its value, if it is
finite and there is one. -/
theorem narrow_float64_cases (x : Float64Bits) :
    (∃ y : Float32Bits, (float64 x).narrow = float32 y ∧ x.isFinite = true ∧ y.Widens x) ∨
      ((float64 x).narrow = float64 x ∧ x.IsNarrow) := by
  rw [narrow, narrowFloat]
  split
  · next h =>
    obtain ⟨hx, hsame⟩ := (Bool.and_eq_true _ _).mp h
    exact .inl ⟨_, rfl, hx, (Binary.sameNumber_convert_iff hx).mp hsame⟩
  · next h =>
    refine .inr ⟨rfl, fun hx y hy hvalue => h ?_⟩
    -- the float that has the value is the nearest one, so the test would have found it
    obtain ⟨y', hy', hwidens⟩ := Binary.exists_widens hx hy hvalue
    have hnearest := hwidens.convert_eq Format.proper_binary32 hy'
    refine (Bool.and_eq_true _ _).mpr ⟨hx, (Binary.sameNumber_convert_iff hx).mpr ?_⟩
    rw [hnearest]
    exact hwidens

/-- What narrowing does to a value that has no parts to be narrowed. -/
theorem narrowed_of_leaf {v : Value} (harray : ∀ items, v ≠ array items)
    (hmap : ∀ entries, v ≠ map entries) : v.Recasts v.narrow ∧ v.narrow.IsNarrow := by
  cases v with
  | int i =>
    obtain ⟨j, hj, hval, hnarrow⟩ := exists_narrow_int i
    rw [hj]
    exact ⟨.int hval, .int j hnarrow⟩
  | float64 x =>
    rcases narrow_float64_cases x with ⟨y, hy, hfinite, hwidens⟩ | ⟨hkept, hnarrow⟩
    · rw [hy]
      exact ⟨.float32 hfinite hwidens, .fixed rfl⟩
    · rw [hkept]
      exact ⟨.float64 x, .float64 x hnarrow⟩
  | array items => exact absurd rfl (harray items)
  | map entries => exact absurd rfl (hmap entries)
  | _ =>
    rw [narrow_of_isFixed rfl]
    exact ⟨.fixed rfl, .fixed rfl⟩

/-- **Narrowing puts numbers into other kinds** and does nothing else. -/
theorem recasts_narrow (v : Value) : v.Recasts v.narrow := by
  -- along the recursion of narrowing, which ends at records
  induction v using Value.byParts with
  | leaf v harray hmap _ => exact (narrowed_of_leaf harray hmap).1
  | array items ih =>
    rw [narrow_array]
    apply Recasts.ofItems
    rw [List.forall₂_map_right_iff, List.forall₂_same]
    exact ih
  | map entries ih =>
    rw [narrow_map]
    apply Recasts.ofEntries
    rw [List.forall₂_map_right_iff, List.forall₂_same]
    exact fun e he => ⟨rfl, ih e he⟩
  | record slots o =>
    rw [narrow_of_isFixed rfl]
    exact .fixed rfl

/-- **A narrowed value is narrow.** -/
theorem isNarrow_narrow (v : Value) : v.narrow.IsNarrow := by
  -- by the same induction: what narrowing puts together is narrow in every part
  induction v using Value.byParts with
  | leaf v harray hmap _ => exact (narrowed_of_leaf harray hmap).2
  | array items ih =>
    rw [narrow_array]
    exact .array _ (List.forall_mem_map.mpr ih)
  | map entries ih =>
    rw [narrow_map]
    exact .map _ (List.forall_mem_map.mpr ih)
  | record slots o =>
    rw [narrow_of_isFixed rfl]
    exact .fixed rfl

/-! ### The only narrow value -/

/-- **No other value is narrow**: a value has only one with its numbers in other kinds in which none
has a narrower kind. -/
theorem Recasts.eq_narrow {v w : Value} (h : v.Recasts w) (hw : w.IsNarrow) : v.narrow = w := by
  -- by induction on the recast; in each case the narrow value has the same shape
  induction h with
  | @int i j hval =>
    obtain ⟨k, hk, hkval, hknarrow⟩ := exists_narrow_int i
    cases hw with
    | fixed hfixed => cases hfixed
    | int _ hnarrow =>
      rw [hk]
      exact congrArg Value.int (hknarrow.unique hnarrow (hkval.trans hval.symm))
  | @float32 x y hfinite hwidens =>
    rcases narrow_float64_cases x with ⟨y', hy', -, hwidens'⟩ | ⟨-, hnarrow⟩
    · -- both are the single-precision float that is nearest
      rw [hy', ← hwidens.convert_eq Format.proper_binary32 (hwidens.isFinite.symm.trans hfinite),
        ← hwidens'.convert_eq Format.proper_binary32 (hwidens'.isFinite.symm.trans hfinite)]
    · exact absurd hwidens (hnarrow.not_widens hfinite y)
  | float64 x =>
    rcases narrow_float64_cases x with ⟨y, -, hfinite, hwidens⟩ | ⟨hkept, -⟩
    · cases hw with
      | fixed hfixed => cases hfixed
      | float64 _ hnarrow => exact absurd hwidens (hnarrow.not_widens hfinite y)
    · exact hkept
  | @array items items' hlength _ ih =>
    cases hw with
    | fixed hfixed => cases hfixed
    | array _ hparts =>
      have hitems : List.Forall₂ (fun v w => v.narrow = id w) items items' :=
        List.forall₂_iff_zip.mpr ⟨hlength, fun hp => ih _ hp (hparts _ (List.of_mem_zip hp).2)⟩
      rw [narrow_array, map_eq_map_of_forall₂ hitems, List.map_id]
  | @map entries entries' hnames _ ih =>
    cases hw with
    | fixed hfixed => cases hfixed
    | map _ hparts =>
      rw [← List.forall₂_eq_eq_eq, List.forall₂_map_left_iff, List.forall₂_map_right_iff,
        List.forall₂_iff_zip] at hnames
      have hentries : List.Forall₂ (fun e e' => (e.1, e.2.narrow) = id e') entries entries' := by
        refine List.forall₂_iff_zip.mpr ⟨hnames.1, fun hp => ?_⟩
        have hname := hnames.2 hp
        exact Prod.ext hname (ih _ hp (hparts _ (List.of_mem_zip hp).2))
      rw [narrow_map, map_eq_map_of_forall₂ hentries, List.map_id]
  | fixed hfixed => exact narrow_of_isFixed hfixed

/-- **The values that narrowing leaves alone** are the narrow ones. -/
theorem narrow_eq_self_iff {v : Value} : v.narrow = v ↔ v.IsNarrow := by
  constructor
  · intro h
    exact h ▸ v.isNarrow_narrow
  · exact fun h => (Recasts.refl v).eq_narrow h

/-- **The narrowed value** is the only one that is narrow and has the same containers and the same
numbers. Narrowing it again changes nothing. -/
theorem narrow_eq_iff (v : Value) :
    (∀ w, v.narrow = w ↔ v.Recasts w ∧ w.IsNarrow) ∧ v.narrow.narrow = v.narrow := by
  refine ⟨fun w => ⟨?_, fun h => h.1.eq_narrow h.2⟩, narrow_eq_self_iff.mpr v.isNarrow_narrow⟩
  rintro rfl
  exact ⟨v.recasts_narrow, v.isNarrow_narrow⟩

end Value
end DocStream
