import DocStream.Proofs.Convert.Nesting
import DocStream.Proofs.Value.Narrowing
import DocStream.Proofs.Value.Records

/-!
# Documents as typed values

The relation between a document and the schema and value that it becomes when nested, without the
way there. Scalars are leaves; an array is an array of values typed by one element schema; a record
holds the members of an object under their names. Inside an array a record may have fields that the
object lacks, for members of its neighbours: these are null.

* `Json.TypedAs` — **a document typed as a value under a schema**;
* `Json.TypedAs.conformTo` — rebuilding a value under a covering schema keeps what it stands for;
* `Json.typedAs_of_nest` — what nesting gives is a typing;
* `Json.TypedAs.conforms` — a typed value conforms to its schema;
* `ConversionSettings.conforms_of_convert` — **the schema and value of a nested document**.

Nesting an array rebuilds its items under a schema that none of them need have had, and after that
no item is what nesting made of it. The typing relation is made so that it survives rebuilding,
which is its main lemma; everything else about nested documents is then read off the typing, without
going back to how it came about.
-/

namespace DocStream

namespace Json

/-- **A document typed as a value under a schema.** The flag tells whether the document lies inside
an array; only there may a record have fields that are no members of the object. -/
inductive TypedAs : Bool → Json → Schema → Value → Prop where
  | null {inside : Bool} : TypedAs inside .null Schema.ofNull .null
  | bool {inside : Bool} (b : Bool) : TypedAs inside (.bool b) (.leaf .boolean true) (.boolean b)
  | num {inside : Bool} {n : Numeral} {s : Schema} {v : Value} (hv : Value.ofNumeral? n = .ok v)
      (hs : Schema.ofLeaf v = .ok s) : TypedAs inside (.num n) s v
  | str {inside : Bool} (t : String) : TypedAs inside (.str t) (.leaf .string true) (.string t)
  | arr {inside : Bool} {items : List Json} {values : List Value} {e : Schema} {o : Bool}
      (length : items.length = values.length)
      (typed : ∀ p ∈ items.zip values, TypedAs true p.1 e p.2) :
      TypedAs inside (.arr items) (.array e o) (.array values)
  | obj {inside : Bool} {members : Members} {slots : List Slot} {o : Bool}
      (kept : ∀ name ∈ members.names, name ∈ slots.map (·.1.1))
      (typed : ∀ m ∈ members, ∀ slot ∈ slots, slot.1.1 = m.1 →
        TypedAs inside m.2 slot.1.2 slot.2)
      (padded : ∀ slot ∈ slots, slot.1.1 ∉ members.names → inside = true ∧ slot.2 = .null) :
      TypedAs inside (.obj members) (.struct (slots.map Prod.fst) o) (.record slots o)

/-! ### Rebuilding -/

/-- A typed value carried into a field of an equal or covering schema stays a typed value, if the
covering case is known. That case is a rebuilding, so it comes from the induction that this lemma
serves. -/
theorem TypedAs.carried {inside : Bool} {d : Json} {s t : Schema} {v : Value}
    (h : TypedAs inside d s v) (ht : t = s ∨ t.Covers s)
    (ih : t.Covers s → ∃ w, Value.conformTo t v = .ok w ∧ TypedAs inside d t w) :
    ∃ w, Value.carried t s v = .ok w ∧ TypedAs inside d t w := by
  by_cases heq : t = s
  · subst heq
    exact ⟨v, Value.carried_self t v, h⟩
  · have hc : t.Covers s := ht.resolve_left heq
    obtain ⟨w, hw, htyped⟩ := ih hc
    refine ⟨w, ?_, htyped⟩
    rw [Value.carried, if_pos (by rw [hc.isStruct_left, decide_eq_true heq]; rfl), hw]

/-- **A record is rebuilt under a struct with all its fields**, if each member can be carried into
the field of its name; the fields that it lacks become null, as inside an array they may. -/
theorem TypedAs.rebuilt {members : Members} {slots : List Slot} {fields : List Field} {o p : Bool}
    (hslots : (slots.map (·.1.1)).Nodup) (hfields : (fields.map Prod.fst).Nodup)
    (kept : ∀ name ∈ members.names, name ∈ slots.map (·.1.1))
    (padded : ∀ slot ∈ slots, slot.1.1 ∉ members.names → slot.2 = .null)
    (hcover : ∀ slot ∈ slots, ∃ u, (slot.1.1, u) ∈ fields)
    (hmember : ∀ m ∈ members, ∀ slot ∈ slots, slot.1.1 = m.1 → ∀ u, (slot.1.1, u) ∈ fields →
      ∃ w, Value.carried u slot.1.2 slot.2 = .ok w ∧ TypedAs true m.2 u w) :
    ∃ w, Value.conformTo (.struct fields p) (.record slots o) = .ok w ∧
      TypedAs true (.obj members) (.struct fields p) w := by
  have hnull : ∀ slot ∈ slots, slot.1.1 ∉ members.names → ∀ u,
      Value.carried u slot.1.2 slot.2 = .ok .null := by
    intro slot hslot hname u
    rw [padded slot hslot hname, Value.carried_null]
  -- a slot of a member is carried as `hmember` says, and any other holds null
  have hcarried : ∀ slot ∈ slots, ∃ u w, (slot.1.1, u) ∈ fields ∧
      Value.carried u slot.1.2 slot.2 = .ok w := by
    intro slot hslot
    obtain ⟨u, hu⟩ := hcover slot hslot
    by_cases hname : slot.1.1 ∈ members.names
    · obtain ⟨m, hm, hmn⟩ := List.mem_map.mp hname
      obtain ⟨w, hw, -⟩ := hmember m hm slot hslot hmn.symm u hu
      exact ⟨u, w, hu, hw⟩
    · exact ⟨u, .null, hu, hnull slot hslot hname u⟩
  obtain ⟨slots', hconf, rfl, hvals⟩ :=
    Value.conformTo_record (o := o) (p := p) hfields hslots hcarried
  refine ⟨_, hconf, .obj (fun name hname => ?_) (fun m hm slot hslot hmn => ?_)
    (fun slot hslot hname => ⟨rfl, ?_⟩)⟩
  · -- the field of a name is there, since the slot of the name was
    obtain ⟨slot, hslot, rfl⟩ := List.mem_map.mp (kept name hname)
    obtain ⟨u, hu⟩ := hcover slot hslot
    obtain ⟨slot', hslot', hu⟩ := List.mem_map.mp hu
    exact List.mem_map.mpr ⟨slot', hslot', by rw [hu]⟩
  · -- the field of a member comes from the slot of the member
    rcases hvals slot.1 slot.2 hslot with ⟨s, v, hold, hw⟩ | ⟨hnew, -⟩
    · obtain ⟨w, hw', htyped⟩ :=
        hmember m hm _ hold hmn slot.1.2 (List.mem_map.mpr ⟨slot, hslot, rfl⟩)
      rw [hw] at hw'
      injection hw' with hw'
      exact hw' ▸ htyped
    · exact absurd (kept slot.1.1 (hmn ▸ List.mem_map_of_mem hm)) hnew
  · -- any other field comes from a slot that is null, or from none
    rcases hvals slot.1 slot.2 hslot with ⟨s, v, hold, hw⟩ | ⟨-, hw⟩
    · rw [hnull _ hold hname] at hw
      injection hw with hw
      exact hw.symm
    · exact hw

/-- **Rebuilding keeps what a value stands for.** Inside an array a typed value can be rebuilt under
every schema that covers its own, and is then typed by that schema. -/
theorem TypedAs.conformTo {inside : Bool} {d : Json} {s t : Schema} {v : Value}
    (h : TypedAs inside d s v) (hinside : inside = true) (hs : s.WellFormed) (ht : t.WellFormed)
    (hc : t.Covers s) : ∃ w, Value.conformTo t v = .ok w ∧ TypedAs inside d t w := by
  induction h generalizing t with
  -- only a struct is covered
  | null => exact absurd hc.isStruct_right (by decide)
  | bool b => exact absurd hc.isStruct_right (by decide)
  | str b => exact absurd hc.isStruct_right (by decide)
  | num hv hleaf =>
    obtain ⟨l, rfl⟩ := eq_leaf_of_ofLeaf hleaf
    exact absurd hc.isStruct_right (by simp [Schema.isStruct, Schema.fields?])
  | arr => exact absurd hc.isStruct_right (by simp [Schema.isStruct, Schema.fields?])
  | @obj inside members slots o kept typed padded ih =>
    subst hinside
    -- what covers a struct is one itself, and all its names are distinct
    obtain ⟨fields, p, rfl⟩ : ∃ fields p, t = .struct fields p :=
      ⟨_, _, Schema.eq_struct_of_isStruct hc.isStruct_left⟩
    obtain ⟨hasc, hparts⟩ := Schema.wellFormed_struct.mp hs
    obtain ⟨htasc, htparts⟩ := Schema.wellFormed_struct.mp ht
    rw [List.map_map] at hasc
    have hcover := (Schema.covers_struct.mp hc).2.2
    -- each member is carried by what is known of it, and the schema of its field has become wider
    -- at most
    refine TypedAs.rebuilt hasc.nodup htasc.nodup kept
      (fun slot hslot hname => (padded slot hslot hname).2) (fun slot hslot => ?_)
      (fun m hm slot hslot hname u hu => ?_)
    · obtain ⟨u, hu, -⟩ := hcover slot.1 (List.mem_map_of_mem hslot)
      exact ⟨u, hu⟩
    · -- the field of the name is the only one, so its schema is the same or covers
      have hf : slot.1 ∈ slots.map Prod.fst := List.mem_map_of_mem hslot
      obtain ⟨u', hu', hcov⟩ := hcover slot.1 hf
      have heq : (slot.1.1, u') = (slot.1.1, u) :=
        List.inj_on_of_nodup_map htasc.nodup hu' hu rfl
      injection heq with _ heq
      subst heq
      exact (typed m hm slot hslot hname).carried hcov
        (ih m hm slot hslot hname rfl (hparts _ hf) (htparts _ hu))

/-! ### Nesting is typing -/

/-- An array is typed by the element schema that types each of its items. -/
theorem TypedAs.ofItems {inside : Bool} {items : List Json} {values : List Value} {e : Schema}
    {o : Bool} (h : List.Forall₂ (fun j v => TypedAs true j e v) items values) :
    TypedAs inside (.arr items) (.array e o) (.array values) := by
  obtain ⟨hlen, hzip⟩ := List.forall₂_iff_zip.mp h
  exact .arr hlen fun p hp => hzip hp

/-- **Items brought under one schema are typed by it**, if each was typed by its own. -/
theorem TypedAs.reconciled {inside o : Bool} {path : Path} {items : List Json}
    {typed : List (Schema × Value)} {e : Schema} {values : List Value}
    (hown : List.Forall₂ (fun j sv => sv.1.WellFormed ∧ TypedAs true j sv.1 sv.2) items typed)
    (h : reconcile path typed = .ok (e, values)) :
    TypedAs inside (.arr items) (.array e o) (.array values) := by
  rcases reconcile_eq_ok h with ⟨rfl, rfl, rfl⟩ | ⟨-, hall, rfl⟩ | ⟨hne, hmerge, hvalues⟩
  · -- no items, so there is nothing that the element schema has to type
    rw [List.forall₂_nil_right_iff.mp hown]
    exact .ofItems .nil
  · -- the items have the schema already
    refine .ofItems (List.forall₂_map_right_iff.mpr ?_)
    exact forall₂_imp_of_mem hown fun j _ sv hsv hj => hall sv hsv ▸ hj.2
  · -- every item is rebuilt under the merge, which covers the item's own schema
    have he : e.WellFormed := by
      refine hmerge.wellFormed (fun hnil => hne (List.map_eq_nil_iff.mp hnil)) fun s hs => ?_
      obtain ⟨sv, hsv, rfl⟩ := List.mem_map.mp hs
      obtain ⟨j, -, hj, -⟩ := exists_of_forall₂ hown hsv
      exact hj
    refine .ofItems (forall₂_trans hown hvalues fun j sv hsv w hj hw => ?_)
    obtain ⟨w', hw', htyp⟩ := hj.2.conformTo rfl hj.1 he
      (hmerge.covers _ (List.mem_map_of_mem hsv))
    rw [hw] at hw'
    injection hw' with hw'
    exact hw' ▸ htyp

/-- **What nesting gives is a typing**, wherever the document is taken to lie. By induction on the
document; as a nested document has no padding of its own, the flag does not matter at its root. -/
theorem typedAs_of_nest {maxDepth depth : Nat} {path : Path} {d : Json} {s : Schema} {v : Value}
    (inside : Bool) (hd : d.Canonical) (h : nest maxDepth depth path d = .ok (s, v)) :
    TypedAs inside d s v := by
  induction d using Json.byParts generalizing inside depth path s v with
  | null =>
    injection h with h
    injection h with hs hv
    exact hs ▸ hv ▸ .null
  | bool b =>
    obtain ⟨hs, rfl⟩ := typedLeaf_eq_ok.mp h
    injection hs with hs
    exact hs ▸ .bool b
  | num n =>
    rw [nest] at h
    obtain ⟨w, hw, h⟩ := Outcome.bind_eq_ok.mp h
    obtain ⟨hs, rfl⟩ := typedLeaf_eq_ok.mp h
    exact .num hw hs
  | str t =>
    obtain ⟨hs, rfl⟩ := typedLeaf_eq_ok.mp h
    injection hs with hs
    exact hs ▸ .str t
  | arr items ih =>
    obtain ⟨typed, e, values, htyped, hrec, rfl, rfl⟩ := nest_arr h
    have hitems := canonical_arr.mp hd
    refine TypedAs.reconciled (forall₂_imp_of_mem htyped fun j hj sv _ hsv => ?_) hrec
    obtain ⟨p, hp⟩ := hsv
    exact ⟨wellFormed_of_nest (hitems j hj) hp, ih j hj true (hitems j hj) hp⟩
  | obj members ih =>
    obtain ⟨hasc, hmembers⟩ := canonical_obj.mp hd
    obtain ⟨slots, hslots, hnames, rfl, rfl⟩ := nest_obj hasc h
    refine .obj (fun name hname => hnames ▸ hname) (fun m hm slot hslot hmn => ?_)
      (fun slot hslot hname => ?_)
    · -- a slot comes from a member of its name, and there is only one
      obtain ⟨m', hm', hmn', p, hp⟩ := exists_of_forall₂ hslots hslot
      have heq : m' = m := List.inj_on_of_nodup_map hasc.nodup hm' hm (hmn'.symm.trans hmn)
      subst heq
      exact ih m' hm' inside (hmembers m' hm') hp
    · exact absurd (hnames ▸ List.mem_map_of_mem (f := (·.1.1)) hslot) hname

/-! ### Conformance -/

/-- **A typed value conforms to its schema**, if the schema is optional below its root and the
leaves that scalars become fit their types. Optional it has to be, because padding puts nulls
everywhere. -/
theorem TypedAs.conforms {Fits : LeafType → Value → Prop} {inside : Bool} {d : Json} {s : Schema}
    {v : Value} (hbool : ∀ b, Fits .boolean (.boolean b)) (hstring : ∀ t, Fits .string (.string t))
    (hnum : ∀ n w t, Value.ofNumeral? n = .ok w → Schema.ofLeaf w = .ok (.leaf t true) → Fits t w)
    (h : TypedAs inside d s v) (hs : s.Below (·.isOptional = true)) : v.Conforms Fits s := by
  induction h with
  | null => exact Value.conforms_null.mpr rfl
  | bool b => exact Value.conforms_leaf (hbool b) nofun
  | str t => exact Value.conforms_leaf (hstring t) nofun
  | num hv hleaf =>
    obtain ⟨t, rfl⟩ := eq_leaf_of_ofLeaf hleaf
    refine Value.conforms_leaf (hnum _ _ _ hv hleaf) fun hnull => ?_
    -- no number is narrowed to null
    obtain ⟨d, -, hrung⟩ := Value.rung_of_ofNumeral? hv
    rw [hnull] at hrung
    exact nomatch hrung
  | @arr inside items values e o length typed ih =>
    refine Value.conforms_array.mpr fun v hv => ?_
    have hall : List.Forall₂ (fun _ v => v.Conforms Fits e) items values :=
      List.forall₂_iff_zip.mpr ⟨length, fun hp => ih _ hp (Schema.everywhere_iff.mp hs).2⟩
    obtain ⟨j, -, hj⟩ := exists_of_forall₂ hall hv
    exact hj
  | @obj inside members slots o kept typed padded ih =>
    refine Value.conforms_record.mpr ⟨rfl, rfl, fun slot hslot => ?_⟩
    obtain ⟨hroot, hbelow⟩ := Schema.everywhere_iff.mp (hs slot.1 (List.mem_map_of_mem hslot))
    by_cases hname : slot.1.1 ∈ members.names
    · obtain ⟨m, hm, hmn⟩ := List.mem_map.mp hname
      exact ih m hm slot hslot hmn.symm hbelow
    · -- a field that the object lacks is optional, as every field is
      rw [(padded slot hslot hname).2]
      exact Value.conforms_null.mpr hroot

end Json

/-- A structured, nested conversion is a nesting of the document from its root. -/
theorem ConversionSettings.convert_eq_structured {settings : ConversionSettings} {d : Json}
    {s : Schema} {v : Value} (h : settings.convert d = .ok (.structured s v)) :
    d.nest settings.maxDepth 0 [] = .ok (s, v) := by
  rw [convert] at h
  split at h
  · split at h
    · obtain ⟨⟨s', v'⟩, hnest, h⟩ := Outcome.bind_eq_ok.mp h
      injection h with h
      injection h with h₁ h₂
      rw [hnest, h₁, h₂]
    · obtain ⟨_, -, h⟩ := Outcome.map_eq_ok.mp h
      exact nomatch h
  · obtain ⟨_, -, h⟩ := Outcome.map_eq_ok.mp h
    exact nomatch h

/-- **The schema and value of a nested document.** The value conforms to the schema, each leaf being
exactly of the kind that the schema declares; field names ascend in every struct; every schema below
the root is optional, and the one at the root is unless the document is an array or an object. -/
theorem ConversionSettings.conforms_of_convert {settings : ConversionSettings} {d : Json}
    {s : Schema} {v : Value} (hd : d.Canonical)
    (h : settings.convert d = .ok (.structured s v)) :
    v.Conforms LeafType.Infers s ∧ s.WellFormed ∧ s.Below (·.isOptional = true) ∧
      (s.isOptional = false ↔ d.isContainer = true) := by
  have hnest := convert_eq_structured h
  have hbelow := Json.optional_of_nest hd hnest
  refine ⟨?_, Json.wellFormed_of_nest hd hnest, hbelow, ?_⟩
  · refine (Json.typedAs_of_nest false hd hnest).conforms (fun _ => trivial) (fun _ => trivial)
      (fun n w t hw hleaf => ?_) hbelow
    obtain ⟨d, -, hrung⟩ := Value.rung_of_ofNumeral? hw
    exact LeafType.infers_of_rung hrung hleaf
  · rw [← Bool.not_eq_true, Json.isOptional_of_nest hd hnest]
    simp

/-- An array of two records with no common member, and a number with a point: the item schema has
both members, and each record is rebuilt under it. -/
theorem ConversionSettings.conforms_of_convert_merged :
    let d := Json.obj [("a", .arr [.obj [("x", .num (.ofInt 300))], .obj [("y", .arr [.null])]]),
      ("b", .num ⟨true, 1, [5], none⟩)]
    let item := Schema.struct [("x", .leaf (.int .w16) true), ("y", .array .ofNull true)] true
    let s := Schema.struct [("a", .array item true), ("b", .leaf .float32 true)] false
    ∃ v, d.Canonical ∧ ({} : ConversionSettings).convert d = .ok (.structured s v) ∧
      v.Conforms LeafType.Infers s ∧ s.WellFormed ∧ s.Below (·.isOptional = true) ∧
      (s.isOptional = false ↔ d.isContainer = true) := by
  intro d item s
  have hd : d.Canonical := by decide +kernel
  have hs : (match ({} : ConversionSettings).convert d with
      | .ok (.structured s' _) => decide (s' = s)
      | _ => false) = true := by decide +kernel
  split at hs
  · next s' v h =>
    obtain rfl : s' = s := of_decide_eq_true hs
    exact ⟨v, hd, h, conforms_of_convert hd h⟩
  · exact nomatch hs

end DocStream
