import DocStream.Proofs.Value.Describing

/-!
# Merging step by step

Schemas that come in one after another can be merged as they come: the merge of the first ones is
merged with the later ones in place of them. This gives the merge of them all, and a record that
followed both merges is the one that was rebuilt once.

* `Schema.merge_append_of_merge` — **the later merge** is the merge of all schemas;
* `Value.carried_carried` — **carrying a value twice** is carrying it once;
* `Value.conformTo_remerge` — both together, for records of the first schemas.

The first part is about schemas alone: a later merge bounds everything that the first one did, and
no merge of all schemas can be less than it. The second part follows a value through both
rebuildings. It looks at the fields of the result only, since what fills them is determined by the
fields and by the slots that the value came with (`FilledFrom.unique`).
-/

namespace DocStream

namespace Schema

/-- Two steps, each to the same schema or to one that covers it, are one. -/
theorem covers_or_trans {s u t : Schema} (hsu : u = s ∨ u.Covers s) (hut : t = u ∨ t.Covers u) :
    t = s ∨ t.Covers s := by
  rcases hsu with rfl | hus
  · exact hut
  · rcases hut with rfl | htu
    · exact .inr hus
    · exact .inr (htu.trans hus)

/-- A merge and further schemas regroup what was merged and the further schemas. -/
theorem regroups_append {first later : List Schema} {m : Schema} (hm : IsMerge first m) :
    Regroups StandsFor (first ++ later) (m :: later) := by
  have hself : ∀ s ∈ later, [s] ⊆ first ++ later := fun s hs =>
    List.cons_subset.mpr ⟨List.mem_append_right first hs, List.nil_subset _⟩
  -- a schema that was not merged stands for itself alone
  have hstands : ∀ s : Schema, s.StandsFor [s] := fun s =>
    .inl ⟨List.cons_ne_nil s [], fun _ ht => List.mem_singleton.mp ht⟩
  constructor
  · intro t ht
    rcases List.mem_cons.mp ht with rfl | hlater
    · exact ⟨first, List.subset_append_left first later, .inr hm⟩
    · exact ⟨[t], hself t hlater, hstands t⟩
  · intro s hs
    rcases List.mem_append.mp hs with hfirst | hlater
    · exact ⟨m, List.mem_cons_self, first, List.subset_append_left first later, hfirst, .inr hm⟩
    · exact ⟨s, List.mem_cons_of_mem m hlater, [s], hself s hlater, List.mem_singleton_self s,
        hstands s⟩

section Append

variable {first later : List Schema} {location location' : String} {m m' : Schema}
variable (hdistinct : ∀ s ∈ first ++ later, s.DistinctNames)
variable (hm : merge first location = .ok m) (hm' : merge (m :: later) location' = .ok m')
include hdistinct hm

theorem bounds_first : m.Bounds first :=
  (isMerge_of_merge hm).bounds fun s hs => hdistinct s (List.mem_append_left later hs)

include hm'

/-- The later merge bounds the first one and the later schemas. -/
theorem bounds_later : m'.Bounds (m :: later) := by
  apply (isMerge_of_merge hm').bounds
  intro s hs
  rcases List.mem_cons.mp hs with rfl | hlater
  · exact (bounds_first hdistinct hm).distinct
  · exact hdistinct s (List.mem_append_right first hlater)

/-- **The later merge is the merge of them all.** -/
theorem merge_append_of_merge (location'' : String) :
    merge (first ++ later) location'' = .ok m' := by
  have hfirst := bounds_first hdistinct hm
  have hbounds := bounds_later hdistinct hm hm'
  have hcovers : ∀ s ∈ first ++ later, m'.Covers s := by
    intro s hs
    rcases List.mem_append.mp hs with hmem | hlater
    · -- what the first merge covers, the later one does
      exact (hbounds.covers m List.mem_cons_self).trans (hfirst.covers s hmem)
    · exact hbounds.covers s (List.mem_cons_of_mem m hlater)
  apply merge_eq_of_regroups (fun s hs => ⟨(hcovers s hs).isStruct_right, hdistinct s hs⟩)
    (regroups_append (isMerge_of_merge hm))
  · exact { hbounds with covers := hcovers }
  · exact hm'

end Append

end Schema

namespace Value

/-- Slots of the same fields are equal if their values are. -/
theorem slots_ext {slots slots' : List Slot} (h : slots.map Prod.fst = slots'.map Prod.fst)
    (hvalues : ∀ f v w, (f, v) ∈ slots → (f, w) ∈ slots' → v = w) : slots = slots' := by
  -- slot by slot, since both lists have the same fields in the same order
  induction slots generalizing slots' with
  | nil => exact (List.map_eq_nil_iff.mp h.symm).symm
  | cons slot rest ih =>
    cases slots' with
    | nil => exact absurd h (by simp)
    | cons slot' rest' =>
      obtain ⟨hfield, hrest⟩ := List.cons.inj h
      have hvalue : slot.2 = slot'.2 :=
        hvalues slot.1 slot.2 slot'.2 List.mem_cons_self (hfield ▸ List.mem_cons_self)
      rw [Prod.ext hfield hvalue, ih hrest fun f v w hv hw =>
        hvalues f v w (List.mem_cons_of_mem slot hv) (List.mem_cons_of_mem slot' hw)]

namespace FilledFrom

variable {slots slots₁ slots₂ : List Slot}

/-- **Filling twice**: slots of which none is lost between are filled from the first ones, if what
is carried twice could be carried at once. -/
theorem trans (h₁ : FilledFrom slots slots₁) (h₂ : FilledFrom slots₁ slots₂)
    (hkept : ∀ slot ∈ slots, slot.1.1 ∈ slots₁.map (·.1.1))
    (hcarried : ∀ name s u t v x w, ((name, s), v) ∈ slots → ((name, u), x) ∈ slots₁ →
      ((name, t), w) ∈ slots₂ → carried u s v = .ok x → carried t u x = .ok w →
      carried t s v = .ok w) :
    FilledFrom slots slots₂ := by
  intro f w hf
  rcases h₂ f w hf with ⟨u, x, hx, hw⟩ | ⟨hnew, hnull⟩
  · rcases h₁ _ x hx with ⟨s, v, hv, hx'⟩ | ⟨hnew, rfl⟩
    · exact .inl ⟨s, v, hv, hcarried f.1 s u f.2 v x w hv hx hf hx' hw⟩
    · -- the slot was filled with null before, and keeps it
      rw [carried_null] at hw
      exact .inr ⟨hnew, (Except.ok.inj hw).symm⟩
  · refine .inr ⟨fun hname => hnew ?_, hnull⟩
    obtain ⟨slot, hslot, heq⟩ := List.mem_map.mp hname
    exact heq ▸ hkept slot hslot

/-- What slots of given fields are filled with is determined. -/
theorem unique (hslots : (slots.map (·.1.1)).Nodup) (h₁ : FilledFrom slots slots₁)
    (h₂ : FilledFrom slots slots₂) (hfields : slots₁.map Prod.fst = slots₂.map Prod.fst) :
    slots₁ = slots₂ := by
  apply slots_ext hfields
  intro f x y hx hy
  -- each of the two slots holds what its namesake carried or a null, and whether there is a
  -- namesake is the same for both
  rcases h₁ f x hx with ⟨s, v, hv, hx⟩ | ⟨hnew, rfl⟩ <;>
    rcases h₂ f y hy with ⟨s', v', hv', hy⟩ | ⟨hnew', rfl⟩
  · have heq : ((f.1, s), v) = ((f.1, s'), v') := List.inj_on_of_nodup_map hslots hv hv' rfl
    cases heq
    exact Except.ok.inj (hx.symm.trans hy)
  · exact absurd (List.mem_map_of_mem (f := (·.1.1)) hv) hnew'
  · exact absurd (List.mem_map_of_mem (f := (·.1.1)) hv') hnew
  · rfl

end FilledFrom

/-- **Carrying a value twice is carrying it once**: by way of a schema between, a value becomes what
it becomes directly. -/
theorem carried_carried {s u t : Schema} {v x w : Value} (hv : Shaped s v) (hs : s.DistinctNames)
    (hu : u.DistinctNames) (ht : t.DistinctNames) (hsu : u = s ∨ u.Covers s)
    (hut : t = u ∨ t.Covers u) (hx : carried u s v = .ok x) (hw : carried t u x = .ok w) :
    carried t s v = .ok w := by
  -- by induction on the first schema; the other two follow it down field by field
  induction s using Schema.byParts generalizing u t v x w with
  | leaf type o =>
    obtain rfl := hsu.resolve_right id
    obtain rfl := Except.ok.inj ((carried_self _ v).symm.trans hx)
    exact hw
  | array e o =>
    obtain rfl := hsu.resolve_right id
    obtain rfl := Except.ok.inj ((carried_self _ v).symm.trans hx)
    exact hw
  | struct fields o ih =>
    obtain ⟨fieldsᵤ, p, rfl⟩ := Schema.exists_eq_struct hsu
    obtain ⟨fieldsₜ, q, rfl⟩ := Schema.exists_eq_struct hut
    rcases hv.struct_cases with rfl | ⟨slots, rfl, rfl, hparts⟩
    · -- null is null under every schema
      obtain rfl := Except.ok.inj ((carried_null _ _).symm.trans hx)
      rw [carried_null] at hw ⊢
      exact hw
    · have hslots := hs.nodup_slots
      obtain ⟨slots₁, rfl, rfl, h₁⟩ := exists_slots_of_carried hslots hu.nodup
        (fun slot hslot => (exists_namesake hsu slot hslot).imp fun _ h => h.1) hx
      obtain ⟨slots₂, rfl, rfl, h₂⟩ := exists_slots_of_carried hu.nodup_slots ht.nodup
        (fun slot hslot => (exists_namesake hut slot hslot).imp fun _ h => h.1) hw
      -- the record of the direct way has the same fields, so what it was filled with decides
      have hst := Schema.covers_or_trans hsu hut
      obtain ⟨w, hw', -⟩ := hv.exists_carried hs ht hst
      obtain ⟨slots₃, rfl, hfields, h₃⟩ := exists_slots_of_carried hslots ht.nodup
        (fun slot hslot => (exists_namesake hst slot hslot).imp fun _ h => h.1) hw'
      have h : FilledFrom slots slots₂ := by
        apply h₁.trans h₂
        · intro slot hslot
          obtain ⟨u, hu, -⟩ := exists_namesake hsu slot hslot
          obtain ⟨slot₁, hslot₁, heq⟩ := List.mem_map.mp hu
          exact List.mem_map.mpr ⟨slot₁, hslot₁, by rw [heq]⟩
        · intro name s u t v x w hv hx hw hvx hxw
          have hsmem : (name, s) ∈ slots.map Prod.fst := List.mem_map_of_mem hv
          have humem : (name, u) ∈ slots₁.map Prod.fst := List.mem_map_of_mem hx
          have htmem : (name, t) ∈ slots₂.map Prod.fst := List.mem_map_of_mem hw
          exact ih (name, s) hsmem (hparts _ hv) (hs.of_mem_fields hsmem) (hu.of_mem_fields humem)
            (ht.of_mem_fields htmem) (covers_namesake hsu hu hv humem)
            (covers_namesake hut ht hx htmem) hvx hxw
      rw [hw', h₃.unique hslots h hfields]

/-- **Merging step by step gives the same records.** Where schemas are merged, and their merge is
merged with later ones, this is the merge of them all. A value that conforms to one of the first
schemas can be rebuilt under the first merge and then under the later one, and this gives what
rebuilding it under the later one gives. -/
theorem conformTo_remerge {first later : List Schema} {location location' : String} {m m' : Schema}
    (hdistinct : ∀ s ∈ first ++ later, s.DistinctNames)
    (hm : Schema.merge first location = .ok m)
    (hm' : Schema.merge (m :: later) location' = .ok m') :
    (∀ location'', Schema.merge (first ++ later) location'' = .ok m') ∧
      ∀ (Fits : LeafType → Value → Prop), ∀ s ∈ first, ∀ v : Value, v.Conforms Fits s →
        ∃ x w, v.conformTo m = .ok x ∧ x.conformTo m' = .ok w ∧ v.conformTo m' = .ok w := by
  refine ⟨Schema.merge_append_of_merge hdistinct hm hm', fun Fits s hs v hv => ?_⟩
  have hfirst := Schema.bounds_first hdistinct hm
  have hlater := Schema.bounds_later hdistinct hm hm'
  have hds : s.DistinctNames := hdistinct s (List.mem_append_left later hs)
  have hsm := hfirst.covers s hs
  have hmm' := hlater.covers m List.mem_cons_self
  have hshaped := hv.shaped
  obtain ⟨x, hx, hxshaped⟩ := hshaped.exists_carried hds hfirst.distinct (.inr hsm)
  obtain ⟨w, hw, -⟩ := hxshaped.exists_carried hfirst.distinct hlater.distinct (.inr hmm')
  have hdirect : carried m' s v = .ok w :=
    carried_carried hshaped hds hfirst.distinct hlater.distinct (.inr hsm) (.inr hmm') hx hw
  -- between structs, carrying is rebuilding
  rw [hshaped.carried_eq hsm.isStruct_right hfirst.isStruct] at hx
  rw [hxshaped.carried_eq hfirst.isStruct hlater.isStruct] at hw
  rw [hshaped.carried_eq hsm.isStruct_right hlater.isStruct] at hdirect
  exact ⟨x, w, hx, hw, hdirect⟩

/-- Three records that share a nested one, which gets a field from each. -/
theorem conformTo_remerge_nested :
    let x : Field := ("x", .leaf (.int .w8) false)
    let y : Field := ("y", .leaf .boolean true)
    let z : Field := ("z", .leaf .string true)
    let one : Schema := .struct [("b", .struct [x] true)] false
    let two : Schema := .struct [("b", .struct [y] false)] false
    let three : Schema := .struct [("a", .leaf .boolean true), ("b", .struct [z] true)] true
    let m : Schema := .struct [("b", .struct [x, y] true)] false
    let m' : Schema := .struct [("a", .leaf .boolean true), ("b", .struct [x, y, z] true)] true
    let v : Value := .record [(("b", .struct [y] false), .record [(y, .boolean true)] false)] false
    (∀ s ∈ [one, two] ++ [three], s.DistinctNames) ∧ Schema.merge [one, two] "" = .ok m ∧
      Schema.merge [m, three] "" = .ok m' ∧ v.Conforms LeafType.Infers two ∧
      (∀ location, Schema.merge [one, two, three] location = .ok m') ∧
      ∃ x w, v.conformTo m = .ok x ∧ x.conformTo m' = .ok w ∧ v.conformTo m' = .ok w := by
  intro x y z one two three m m' v
  have hdistinct : ∀ s ∈ [one, two] ++ [three], s.DistinctNames := by
    simp [one, two, three, x, y, z, Schema.DistinctNames, Schema.Everywhere,
      Schema.EverywhereFields, Schema.fields, Schema.fields?]
  have hm : Schema.merge [one, two] "" = .ok m := by decide +kernel
  have hm' : Schema.merge [m, three] "" = .ok m' := by decide +kernel
  have hv : v.Conforms LeafType.Infers two := by
    simp [v, two, y, Conforms, ConformSlots, LeafType.Infers]
  obtain ⟨hmerge, hvalues⟩ := conformTo_remerge hdistinct hm hm'
  exact ⟨hdistinct, hm, hm', hv, hmerge, hvalues LeafType.Infers two (by simp) v hv⟩

end Value
end DocStream
