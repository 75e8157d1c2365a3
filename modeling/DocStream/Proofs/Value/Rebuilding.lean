import DocStream.Proofs.Convert.Leaves
import DocStream.Proofs.Schema.LeastMerge
import DocStream.Proofs.Value.Records

/-!
# Records rebuilt under a merged schema

A record whose schema was merged with others is rebuilt under the merge. The merge covers the
record's schema: at every place of that it has the same schema, or a struct with further fields. So
rebuilding goes down only where records are expected, and what can stop it is a value of another
kind in such a place, since a record takes any value for any field. Where there is none, the result
has the fields of the merge, all that the record had, and null besides.

* `Value.Carries` — the records inside a value have the schemas declared at their places;
* `Value.Extends` — **a value with everything that another has**, at the same places;
* `Value.Rebuildable` — where the schema changes there is a record or null;
* `Value.Fares` and `Value.fares_carried` — **when a value can be carried** into a field of a
  covering schema, and what it becomes;
* `Value.conformTo_of_merge` — the same for a record rebuilt under a merge.

Places do the work in the statements, and recursion in the proofs. A property asked for at all
places of a record is asked for at its root and at all places of its fields (`throughout_record`),
so going down one level is the same for all of these notions.
-/

namespace DocStream

/-- The slots of a record have distinct names if the fields of its schema do. -/
theorem Schema.DistinctNames.nodup_slots {slots : List Slot} {o : Bool}
    (h : (Schema.struct (slots.map Prod.fst) o).DistinctNames) : (slots.map (·.1.1)).Nodup := by
  have hnodup := h.nodup
  rwa [fields, fields?, Option.getD_some, List.map_map] at hnodup

namespace Value

/-! ### Values and places -/

def isRecord : Value → Bool
  | record .. => true
  | _ => false

/-- **A value carries a schema** if every record inside it is of the schema declared at its place.
Of values that are no records nothing is asked, nor of what lies inside a schemaless object. -/
inductive Carries : Schema → Value → Prop where
  | leaf {s : Schema} {v : Value} (harray : ∀ items, v ≠ .array items)
      (hrecord : ∀ slots o, v ≠ .record slots o) : Carries s v
  | array {s : Schema} {items : List Value}
      (parts : ∀ e, s.element? = some e → ∀ v ∈ items, Carries e v) : Carries s (.array items)
  | record {slots : List Slot} {o : Bool} (parts : ∀ slot ∈ slots, Carries slot.1.2 slot.2) :
      Carries (.struct (slots.map Prod.fst) o) (.record slots o)

/-- A record carries its own schema if its values carry those of their fields. -/
theorem carries_record (r : Record) (h : ∀ slot ∈ r.slots, slot.2.Carries slot.1.2) :
    r.toValue.Carries r.schema :=
  .record h

theorem carries_null (s : Schema) : Carries s null :=
  .leaf (fun _ => nofun) fun _ _ => nofun

theorem carries_of_isLeaf (s : Schema) {v : Value} (h : v.isLeaf = true) : Carries s v :=
  .leaf (fun _ hv => nomatch hv ▸ h) fun _ _ hv => nomatch hv ▸ h

/-- **A value extends another** if it has the same value at every place where the other has one that
is no record, a record where the other has one, and null at all places that only it has. -/
structure Extends (v w : Value) : Prop where
  kept : ∀ place x, v.at? place = some x → x.isRecord = false → w.at? place = some x
  records : ∀ place x, v.at? place = some x → x.isRecord = true →
    ∃ y, w.at? place = some y ∧ y.isRecord = true
  added : ∀ place y, v.at? place = none → w.at? place = some y → y = null

theorem extends_refl (v : Value) : v.Extends v where
  kept := fun _ _ h _ => h
  records := fun _ x h hx => ⟨x, h, hx⟩
  added := fun _ _ hnone hsome => nomatch hnone.symm.trans hsome

/-- There is nothing inside of null. -/
theorem at?_null {place : List Step} {y : Value} (h : null.at? place = some y) : y = null := by
  -- the place is the root, or leads into nothing
  cases place with
  | nil => exact (Option.some.inj h).symm
  | cons step rest => cases step <;> exact nomatch h

/-- **A record extends another** field by field. -/
theorem extends_record {slots slots' : List Slot} {o p : Bool}
    (hkept : ∀ name x, Record.get? ⟨slots, o⟩ name = some x →
      ∃ y, Record.get? ⟨slots', p⟩ name = some y ∧ x.Extends y)
    (hadded : ∀ name y, Record.get? ⟨slots, o⟩ name = none →
      Record.get? ⟨slots', p⟩ name = some y → y = null) :
    (record slots o).Extends (record slots' p) where
  -- a place inside a record starts with the name of a field
  kept := by
    intro place x hx hrecord
    cases place with
    | nil =>
      rw [← Option.some.inj hx] at hrecord
      exact nomatch hrecord
    | cons step rest =>
      cases step with
      | item i => exact nomatch hx
      | member name =>
        obtain ⟨u, hu, hx⟩ := Option.bind_eq_some_iff.mp hx
        obtain ⟨y, hy, hext⟩ := hkept name u hu
        exact Option.bind_eq_some_iff.mpr ⟨y, hy, hext.kept rest x hx hrecord⟩
  records := by
    intro place x hx hrecord
    cases place with
    | nil => exact ⟨_, rfl, rfl⟩
    | cons step rest =>
      cases step with
      | item i => exact nomatch hx
      | member name =>
        obtain ⟨u, hu, hx⟩ := Option.bind_eq_some_iff.mp hx
        obtain ⟨y, hy, hext⟩ := hkept name u hu
        obtain ⟨z, hz, hzrecord⟩ := hext.records rest x hx hrecord
        exact ⟨z, Option.bind_eq_some_iff.mpr ⟨y, hy, hz⟩, hzrecord⟩
  added := by
    intro place y hnone hy
    cases place with
    | nil => exact nomatch hnone
    | cons step rest =>
      cases step with
      | item i => exact nomatch hy
      | member name =>
        obtain ⟨u, hu, hy⟩ := Option.bind_eq_some_iff.mp hy
        cases hget : Record.get? ⟨slots, o⟩ name with
        | none =>
          rw [hadded name u hget hu] at hy
          exact at?_null hy
        | some x =>
          obtain ⟨u', hu', hext⟩ := hkept name x hget
          obtain rfl := Option.some.inj (hu.symm.trans hu')
          exact hext.added rest y ((Option.bind_some ..).symm.trans (hget ▸ hnone)) hy

/-! ### What can be rebuilt -/

/-- **Throughout a value** a relation holds between what it has and what two schemas have, wherever
all three have something. -/
def Throughout (P : Value → Schema → Schema → Prop) (s t : Schema) (v : Value) : Prop :=
  ∀ place x s' t', v.at? place = some x → s.at? place = some s' → t.at? place = some t' → P x s' t'

/-- **A value can be rebuilt** from one schema to another: wherever both have a schema and they
differ, it has null or a record, if it has anything. -/
def Rebuildable (s t : Schema) (v : Value) : Prop :=
  ∀ place x s' t', v.at? place = some x → s.at? place = some s' → t.at? place = some t' →
    s' ≠ t' → x = null ∨ x.isRecord = true

/-- Where the schema stays the same there is nothing to rebuild. -/
theorem rebuildable_self (s : Schema) (v : Value) : Rebuildable s s v :=
  fun _ _ _ _ _ hs ht hne => absurd (Option.some.inj (hs.symm.trans ht)) hne

/-- Null can be rebuilt, since there is nothing inside of it. -/
theorem rebuildable_null (s t : Schema) : Rebuildable s t null :=
  fun _ _ _ _ hx _ _ _ => .inl (at?_null hx)

end Value

namespace Record

/-- A record is looked up in as a list of values by name. -/
theorem get?_eq_lookup (slots : List Slot) (o : Bool) (name : String) :
    get? ⟨slots, o⟩ name = (slots.map fun slot => (slot.1.1, slot.2)).lookup name := by
  induction slots with
  | nil => rfl
  | cons slot rest ih =>
    rw [get?_cons, List.map_cons, List.lookup_cons, ih]
    by_cases hname : slot.1.1 = name
    · rw [if_pos hname, hname, beq_self_eq_true]
    · rw [if_neg hname, beq_false_of_ne (Ne.symm hname)]

/-- Looking up is membership, if the names are distinct. -/
theorem get?_eq_some_iff {slots : List Slot} (h : (slots.map (·.1.1)).Nodup) {o : Bool}
    {name : String} {v : Value} :
    get? ⟨slots, o⟩ name = some v ↔ ∃ slot ∈ slots, slot.1.1 = name ∧ slot.2 = v := by
  rw [get?_eq_lookup, lookup_eq_some_iff_mem (by rwa [List.map_map]), List.mem_map]
  simp only [Prod.mk.injEq]

theorem get?_eq_none_iff {slots : List Slot} {o : Bool} {name : String} :
    get? ⟨slots, o⟩ name = none ↔ name ∉ slots.map (·.1.1) := by
  rw [get?, Option.map_eq_none_iff, List.find?_eq_none, List.mem_map]
  constructor
  · rintro h ⟨slot, hslot, hname⟩
    exact h slot hslot (beq_iff_eq.mpr hname)
  · exact fun h slot hslot hname => h ⟨slot, hslot, beq_iff_eq.mp hname⟩

end Record

namespace Value

/-- **What holds throughout a record** holds of itself and throughout its fields. -/
theorem throughout_record {P : Value → Schema → Schema → Prop} {slots : List Slot}
    {fields : List Field} {o p o' : Bool} (hslots : (slots.map (·.1.1)).Nodup)
    (hfields : (fields.map Prod.fst).Nodup) :
    Throughout P (.struct (slots.map Prod.fst) o) (.struct fields p) (record slots o') ↔
      P (record slots o') (.struct (slots.map Prod.fst) o) (.struct fields p) ∧
        ∀ slot ∈ slots, ∀ u, (slot.1.1, u) ∈ fields → Throughout P slot.1.2 u slot.2 := by
  have hnames : ((slots.map Prod.fst).map Prod.fst).Nodup := by rwa [List.map_map]
  -- the places of a record are its root and, behind a name, those of the field
  constructor
  · intro h
    refine ⟨h [] _ _ _ rfl rfl rfl, fun slot hslot u hu place x s' t' hx hs ht => ?_⟩
    refine h (.member slot.1.1 :: place) x s' t' ?_ ?_ ?_
    · exact Option.bind_eq_some_iff.mpr
        ⟨slot.2, (Record.get?_eq_some_iff hslots).mpr ⟨slot, hslot, rfl, rfl⟩, hx⟩
    · exact Option.bind_eq_some_iff.mpr
        ⟨slot.1.2, (lookup_eq_some_iff_mem hnames).mpr (List.mem_map_of_mem hslot), hs⟩
    · exact Option.bind_eq_some_iff.mpr ⟨u, (lookup_eq_some_iff_mem hfields).mpr hu, ht⟩
  · rintro ⟨hself, h⟩ place x s' t' hx hs ht
    cases place with
    | nil =>
      rw [← Option.some.inj hx, ← Option.some.inj hs, ← Option.some.inj ht]
      exact hself
    | cons step rest =>
      cases step with
      | item i => exact nomatch hx
      | member name =>
        obtain ⟨v, hv, hxv⟩ := Option.bind_eq_some_iff.mp hx
        obtain ⟨s, hname, hss⟩ := Option.bind_eq_some_iff.mp hs
        obtain ⟨t, hname', htt⟩ := Option.bind_eq_some_iff.mp ht
        obtain ⟨slot, hslot, rfl, rfl⟩ := (Record.get?_eq_some_iff hslots).mp hv
        -- the schema that the name leads to is the slot's own
        have hown := (lookup_eq_some_iff_mem hnames).mpr (List.mem_map_of_mem hslot)
        obtain rfl := Option.some.inj (hown.symm.trans hname)
        have hu := (lookup_eq_some_iff_mem hfields).mp hname'
        exact h slot hslot t hu rest x s' t' hxv hss htt

/-- **A record can be rebuilt** field by field. -/
theorem rebuildable_record {slots : List Slot} {fields : List Field} {o p o' : Bool}
    (hslots : (slots.map (·.1.1)).Nodup) (hfields : (fields.map Prod.fst).Nodup) :
    Rebuildable (.struct (slots.map Prod.fst) o) (.struct fields p) (record slots o') ↔
      ∀ slot ∈ slots, ∀ u, (slot.1.1, u) ∈ fields → Rebuildable slot.1.2 u slot.2 := by
  apply (throughout_record hslots hfields).trans
  -- the record itself is no obstacle
  exact and_iff_right fun _ => .inr rfl

/-! ### Rebuilding -/

/-- What has been carried over was carried slot by slot. -/
theorem carried_of_carryOver {target : Schema} {into r : Record} {slots : List Slot}
    (h : carryOver target into slots = .ok r) :
    ∀ slot ∈ slots, ∃ u w, target.field? slot.1.1 = some u ∧
      carried u slot.1.2 slot.2 = .ok w := by
  -- slot by slot, as carrying over goes
  induction slots generalizing into with
  | nil => exact fun slot hslot => absurd hslot List.not_mem_nil
  | cons head rest ih =>
    obtain ⟨⟨name, schema⟩, v⟩ := head
    rw [carryOver] at h
    split at h
    · cases h
    · next u hu =>
      obtain ⟨w, hw, h⟩ : ∃ w, carried u schema v = .ok w ∧
          (into.put? name w >>= fun into => carryOver target into rest) = .ok r := by
        rw [carried]
        dsimp only at h
        split at h
        · next hc =>
          rw [if_pos hc]
          exact Outcome.bind_eq_ok.mp h
        · next hc =>
          rw [if_neg hc]
          exact Outcome.bind_eq_ok.mp h
      obtain ⟨into', -, h⟩ := Outcome.bind_eq_ok.mp h
      intro slot hslot
      rcases List.mem_cons.mp hslot with rfl | hrest
      · exact ⟨u, w, hu, hw⟩
      · exact ih h slot hrest

/-- A record goes into a struct field that has another schema by being rebuilt. -/
theorem carried_of_ne {t s : Schema} {v : Value} (ht : t.isStruct = true) (hne : t ≠ s) :
    carried t s v = conformTo t v := by
  rw [carried, if_pos (by rw [ht, decide_eq_true hne]; rfl)]

/-- Under a struct schema null is rebuilt, and no other value but a record. -/
theorem exists_conformTo_iff {t : Schema} {v : Value} (h : v.isRecord = false) :
    (∃ w, conformTo t v = .ok w) ↔ v = null := by
  cases v with
  | null => exact iff_of_true ⟨null, by rw [conformTo]⟩ rfl
  | record => cases h
  | _ => simp [conformTo]

/-- **A record is rebuilt** under another struct schema exactly if all its fields can be carried. -/
theorem exists_conformTo_record_iff {slots : List Slot} {fields : List Field} {o p : Bool}
    (hslots : (slots.map (·.1.1)).Nodup) (hfields : (fields.map Prod.fst).Nodup)
    (hcover : ∀ slot ∈ slots, ∃ u, (slot.1.1, u) ∈ fields)
    (hne : Schema.struct (slots.map Prod.fst) o ≠ .struct fields p) :
    (∃ w, conformTo (.struct fields p) (record slots o) = .ok w) ↔
      ∀ slot ∈ slots, ∀ u, (slot.1.1, u) ∈ fields → ∃ w, carried u slot.1.2 slot.2 = .ok w := by
  constructor
  · rintro ⟨w, h⟩ slot hslot u hu
    rw [conformTo, if_neg hne] at h
    obtain ⟨blank, -, h⟩ := Outcome.bind_eq_ok.mp h
    obtain ⟨r, hr, -⟩ := Outcome.bind_eq_ok.mp h
    obtain ⟨u', w, hu', hw⟩ := carried_of_carryOver hr slot hslot
    have hfound : (Schema.struct fields p).field? slot.1.1 = some u :=
      (lookup_eq_some_iff_mem hfields).mpr hu
    obtain rfl := Option.some.inj (hfound.symm.trans hu')
    exact ⟨w, hw⟩
  · intro h
    obtain ⟨slots', hslots', -⟩ := conformTo_record (o := o) (p := p) hfields hslots
      fun slot hslot => by
        obtain ⟨u, hu⟩ := hcover slot hslot
        obtain ⟨w, hw⟩ := h slot hslot u hu
        exact ⟨u, w, hu, hw⟩
    exact ⟨_, hslots'⟩

/-- **How a value fares** on its way from a field of one schema into one of another: it gets there
exactly if it can be rebuilt, and becomes a value that carries the new schema and extends it. -/
def Fares (s t : Schema) (v : Value) (result : Outcome Value) : Prop :=
  ((∃ w, result = .ok w) ↔ Rebuildable s t v) ∧ ∀ w, result = .ok w → w.Carries t ∧ v.Extends w

/-- Where the schema stays the same, so does the value. -/
theorem fares_self {s : Schema} {v : Value} (hv : v.Carries s) : Fares s s v (.ok v) := by
  refine ⟨iff_of_true ⟨v, rfl⟩ (rebuildable_self s v), fun w hw => ?_⟩
  obtain rfl := Except.ok.inj hw
  exact ⟨hv, extends_refl v⟩

/-- What is no record goes under another struct schema only if it is null. -/
theorem fares_of_isRecord {s t : Schema} {v : Value} (hne : t ≠ s) (hv : v.isRecord = false) :
    Fares s t v (conformTo t v) := by
  constructor
  · rw [exists_conformTo_iff hv]
    constructor
    · rintro rfl
      exact rebuildable_null s t
    · intro h
      refine (h [] v s t rfl rfl rfl hne.symm).resolve_right fun hrecord => ?_
      exact nomatch hv.symm.trans hrecord
  · intro w hw
    obtain rfl := (exists_conformTo_iff hv).mp ⟨w, hw⟩
    rw [conformTo] at hw
    obtain rfl := Except.ok.inj hw
    exact ⟨carries_null t, extends_refl null⟩

/-- **A record fares as its fields do.** -/
theorem fares_record {slots : List Slot} {fields : List Field} {o p : Bool}
    (hslots : (slots.map (·.1.1)).Nodup) (hfields : (fields.map Prod.fst).Nodup)
    (hcover : ∀ slot ∈ slots, ∃ u, (slot.1.1, u) ∈ fields)
    (hne : Schema.struct fields p ≠ .struct (slots.map Prod.fst) o)
    (h : ∀ slot ∈ slots, ∀ u, (slot.1.1, u) ∈ fields →
      Fares slot.1.2 u slot.2 (carried u slot.1.2 slot.2)) :
    Fares (.struct (slots.map Prod.fst) o) (.struct fields p) (record slots o)
      (conformTo (.struct fields p) (record slots o)) := by
  -- the record gets there if all its fields do, and then holds what became of them
  have hexists := exists_conformTo_record_iff hslots hfields hcover hne.symm
  constructor
  · rw [hexists, rebuildable_record hslots hfields]
    exact forall₂_congr fun slot hslot => forall₂_congr fun u hu => (h slot hslot u hu).1
  · intro w hw
    have hcarried := hexists.mp ⟨w, hw⟩
    obtain ⟨slots', hconf, rfl, hvalues⟩ := conformTo_record (o := o) (p := p) hfields hslots
      fun slot hslot => by
        obtain ⟨u, hu⟩ := hcover slot hslot
        obtain ⟨w, hw⟩ := hcarried slot hslot u hu
        exact ⟨u, w, hu, hw⟩
    obtain rfl := Except.ok.inj (hw.symm.trans hconf)
    rw [List.map_map] at hfields
    constructor
    · refine .record fun slot' hslot' => ?_
      rcases hvalues slot'.1 slot'.2 hslot' with ⟨s, v, hslot, hv⟩ | ⟨-, hnull⟩
      · exact ((h _ hslot _ (List.mem_map_of_mem hslot')).2 _ hv).1
      · rw [hnull]
        exact carries_null _
    · refine extends_record (fun name x hx => ?_) fun name y hnone hy => ?_
      · -- the field of the name holds what its namesake carried
        obtain ⟨slot, hslot, rfl, rfl⟩ := (Record.get?_eq_some_iff hslots).mp hx
        obtain ⟨u, hu⟩ := hcover slot hslot
        obtain ⟨slot', hslot', hfield⟩ := List.mem_map.mp hu
        have hname : slot'.1.1 = slot.1.1 := by rw [hfield]
        refine ⟨slot'.2, (Record.get?_eq_some_iff hfields).mpr ⟨slot', hslot', hname, rfl⟩, ?_⟩
        rcases hvalues slot'.1 slot'.2 hslot' with ⟨s, v, hold, hv⟩ | ⟨hnew, -⟩
        · obtain rfl : ((slot'.1.1, s), v) = slot :=
            List.inj_on_of_nodup_map hslots hold hslot hname
          exact ((h _ hold _ (List.mem_map_of_mem hslot')).2 _ hv).2
        · exact absurd (hname ▸ List.mem_map_of_mem (f := (·.1.1)) hslot) hnew
      · -- a field without a namesake holds null
        obtain ⟨slot', hslot', rfl, rfl⟩ := (Record.get?_eq_some_iff hfields).mp hy
        rcases hvalues slot'.1 slot'.2 hslot' with ⟨s, v, hold, -⟩ | ⟨-, hnull⟩
        · exact absurd (List.mem_map_of_mem (f := (·.1.1)) hold) (Record.get?_eq_none_iff.mp hnone)
        · exact hnull

/-- **How a value fares** in a field whose schema is its own or covers that. -/
theorem fares_carried {s t : Schema} {v : Value} (hs : s.DistinctNames) (ht : t.DistinctNames)
    (hc : t = s ∨ t.Covers s) (hv : v.Carries s) : Fares s t v (carried t s v) := by
  -- rebuilding goes down along the schema of the value
  induction s using Schema.byParts generalizing t v with
  | leaf type o =>
    obtain rfl := hc.resolve_right id
    exact carried_self _ v ▸ fares_self hv
  | array e o =>
    obtain rfl := hc.resolve_right id
    exact carried_self _ v ▸ fares_self hv
  | struct fields o ih =>
    by_cases hne : t = .struct fields o
    · subst hne
      exact carried_self _ v ▸ fares_self hv
    · have hcovers := hc.resolve_left hne
      rw [carried_of_ne hcovers.isStruct_left hne]
      cases hv with
      | leaf harray hrecord =>
        refine fares_of_isRecord hne ?_
        cases v with
        | record slots o => exact absurd rfl (hrecord slots o)
        | _ => rfl
      | array => exact fares_of_isRecord hne rfl
      | @record slots _ parts =>
        obtain ⟨fields', p, rfl⟩ : ∃ fields' p, t = .struct fields' p :=
          ⟨_, _, Schema.eq_struct_of_isStruct hcovers.isStruct_left⟩
        have hslots := hs.nodup_slots
        have hcover := (Schema.covers_struct.mp hcovers).2.2
        refine fares_record hslots ht.nodup (fun slot hslot => ?_) hne fun slot hslot u hu => ?_
        · obtain ⟨u, hu, -⟩ := hcover slot.1 (List.mem_map_of_mem hslot)
          exact ⟨u, hu⟩
        · -- the field of the name is the only one, so its schema is the same or covers
          have hmem : slot.1 ∈ slots.map Prod.fst := List.mem_map_of_mem hslot
          obtain ⟨u', hu', hcu⟩ := hcover slot.1 hmem
          obtain rfl := ht.eq_of_mem hu' hu
          exact ih slot.1 hmem (hs.of_mem_fields hmem) (ht.of_mem_fields hu) hcu (parts slot hslot)

/-- **A record under a merge of its schema with others.** It can be rebuilt exactly if there is null
or a record wherever merging changed the schema. Then the result and all records inside it carry the
schemas that the merge has at their places; the result has everything that the record has, and null
in all further fields. -/
theorem conformTo_of_merge {schemas : List Schema} {location : String} {m s : Schema}
    (hmerge : Schema.merge schemas location = .ok m) (hdistinct : ∀ t ∈ schemas, t.DistinctNames)
    (hs : s ∈ schemas) {r : Record} (hr : r.toValue.Carries s) :
    ((∃ w, r.toValue.conformTo m = .ok w) ↔ Rebuildable s m r.toValue) ∧
      ∀ w, r.toValue.conformTo m = .ok w → w.Carries m ∧ r.toValue.Extends w := by
  have hbounds := (Schema.isMerge_of_merge hmerge).bounds hdistinct
  have hfares := fares_carried (hdistinct s hs) hbounds.distinct (.inr (hbounds.covers s hs)) hr
  by_cases hne : m = s
  · -- the record has the schema already
    subst hne
    cases hr with
    | leaf _ hrecord => exact absurd rfl (hrecord r.slots r.optional)
    | record =>
      rw [carried_self] at hfares
      rw [Record.toValue, conformTo, if_pos rfl]
      exact hfares
  · rwa [carried_of_ne hbounds.isStruct hne] at hfares

/-- Two struct fields that were both merged, one with a record and one with null. -/
theorem conformTo_of_merge_nested :
    let x : Field := ("x", .leaf (.int .w8) true)
    let y : Field := ("y", .leaf .boolean true)
    let left : Schema := .struct [("a", .struct [x] true), ("b", .struct [x] true)] false
    let right : Schema := .struct [("a", .struct [y] true), ("b", .struct [y] true)] true
    let m : Schema := .struct [("a", .struct [x, y] true), ("b", .struct [x, y] true)] true
    let r : Record := ⟨[(("a", .struct [x] true), .record [(x, .int ⟨.w8, 5, by decide⟩)] true),
      (("b", .struct [x] true), .null)], false⟩
    Schema.merge [left, right] "" = .ok m ∧ (∀ t ∈ [left, right], t.DistinctNames) ∧
      r.toValue.Carries left ∧ ∃ w, r.toValue.conformTo m = .ok w ∧ w.Carries m ∧
        r.toValue.Extends w := by
  intro x y left right m r
  have hmerge : Schema.merge [left, right] "" = .ok m := by decide +kernel
  have hdistinct : ∀ t ∈ [left, right], t.DistinctNames := by
    simp [left, right, x, y, Schema.DistinctNames, Schema.Everywhere, Schema.EverywhereFields,
      Schema.fields, Schema.fields?]
  have hr : r.toValue.Carries left := by
    refine carries_record r (List.forall_mem_cons.mpr ⟨?_, ?_⟩)
    · exact carries_record ⟨[(x, _)], true⟩
        (List.forall_mem_singleton.mpr (carries_of_isLeaf _ rfl))
    · exact List.forall_mem_singleton.mpr (carries_null _)
  have hw : ∃ w, r.toValue.conformTo m = .ok w := ⟨_, rfl⟩
  obtain ⟨w, hw⟩ := hw
  exact ⟨hmerge, hdistinct, hr, w, hw, (conformTo_of_merge hmerge hdistinct (by simp) hr).2 w hw⟩

/-- **A field takes any value**, also one that merging does not expect: a number in a struct field
keeps its record from being rebuilt. -/
theorem not_conformTo_of_merge :
    let x : Field := ("x", .leaf (.int .w8) true)
    let y : Field := ("y", .leaf .boolean true)
    let left : Schema := .struct [("a", .struct [x] true)] false
    let right : Schema := .struct [("a", .struct [y] true)] false
    let m : Schema := .struct [("a", .struct [x, y] true)] false
    let r : Record := ⟨[(("a", .struct [x] true), .int ⟨.w8, 5, by decide⟩)], false⟩
    Schema.merge [left, right] "" = .ok m ∧ (∀ t ∈ [left, right], t.DistinctNames) ∧
      r.toValue.Carries left ∧
      r.toValue.conformTo m = .error (.unhandled "struct\x7bx,y\x7d" "int8") := by
  intro x y left right m r
  refine ⟨by decide +kernel, ?_, ?_, rfl⟩
  · simp [left, right, x, y, Schema.DistinctNames, Schema.Everywhere, Schema.EverywhereFields,
      Schema.fields, Schema.fields?]
  · exact carries_record r (List.forall_mem_singleton.mpr (carries_of_isLeaf _ rfl))

end Value
end DocStream
