import DocStream.Proofs.Envelope.Rereading
import DocStream.Proofs.Schema.LeastMerge

/-!
# What is read conforms to its schema

Plain JSON may come from anywhere, and what is read from it under a schema is taken at its word by
everything that follows. Whatever the JSON, the value is one that the schema describes, and nothing
that the schema does not declare has a part in it: not the members of other names, and not what is
inside an array or an object that stands where the schema has no place for it.

* `LeafType.Declares` — **the leaves of a type**, of exactly its kind;
* `Value.conforms_of_ofPlain?` — what is read conforms, by induction on the schema;
* `Json.AgreeOn` — **agreement on what a schema declares**;
* `Json.AgreeOn.ofPlain?_eq` — JSON values that agree are read alike;
* `Value.conforms_and_ignores` — both for a schema of distinct names.
-/

namespace DocStream

/-! ### Leaves -/

/-- **The leaves of a type**: exactly of the kind that it declares. Under a decimal type these are
the decimals with its places and, if it has none, the integers of any size. -/
def LeafType.Declares : LeafType → Value → Prop
  | .boolean, .boolean _ => True
  | .int w, .int n => n.width = w
  | .float32, .float32 _ => True
  | .float64, .float64 _ => True
  | .string, .string _ => True
  | .bytes, .bytes _ => True
  | .decimal scale, .decimal d => d.scale = scale
  | .decimal scale, .bigint _ => scale = 0
  | .timestamp, .timestamp _ => True
  | _, _ => False

namespace LeafType

variable {t : LeafType} {j : Json} {v : Value}

/-- **A leaf that is read is one that its type declares.** Only integers and decimals have a
parameter to be checked, their width and their scale. -/
theorem declares_of_ofPlain? (h : t.ofPlain? j = .ok v) : t.Declares v := by
  cases yields_of_ofPlain? h with
  | int n => exact rfl
  | @decimal scale _ d _ =>
    unfold fitDecimal
    split
    · next hint => exact hint.1
    · exact d.scale_rescale scale
  | boolean | float32 | float64 | string | bytes | timestamp => trivial

/-! No leaf is read from an array or an object, whatever is inside. -/

theorem ofPlain?_arr (t : LeafType) (js : List Json) :
    t.ofPlain? (.arr js) = .error (.unhandled t.describe "array") := by
  cases t <;> rfl

theorem ofPlain?_obj (t : LeafType) (members : Members) :
    t.ofPlain? (.obj members) = .error (.unhandled t.describe "object") := by
  cases t <;> rfl

end LeafType

/-! ### Conformance -/

/-- **What is read under a schema of distinct names conforms to it.** -/
theorem Value.conforms_of_ofPlain? {s : Schema} (hs : s.DistinctNames) {j : Json} {v : Value}
    (h : ofPlain? s j = .ok v) : v.Conforms LeafType.Declares s := by
  -- by induction on the schema: what is read is an allowed null, or its parts were read
  induction s using Schema.byParts generalizing j v with
  | leaf t o =>
    rw [ofPlain?] at h
    split_ifs at h with hnull ho
    · rw [← Except.ok.inj h]
      exact conforms_null.mpr ho
    · have hleaf := LeafType.declares_of_ofPlain? h
      refine conforms_leaf hleaf ?_
      rintro rfl
      cases t <;> exact hleaf
  | array e o ih =>
    rcases ofPlain?_array_eq_ok h with ⟨rfl, ho⟩ | ⟨js, vs, rfl, rfl, hread⟩
    · exact conforms_null.mpr ho
    · refine conforms_array.mpr fun v hv => ?_
      obtain ⟨j, -, hj⟩ := exists_of_forall₂ hread hv
      exact ih (Schema.everywhere_iff.mp hs).2 hj
  | struct fields o ih =>
    have hnodup : (fields.map Prod.fst).Nodup := hs.nodup
    rcases ofPlain?_struct_eq_ok hnodup h with ⟨rfl, ho⟩ | ⟨slots, rfl, hfields, hread⟩
    · exact conforms_null.mpr ho
    · refine conforms_record.mpr ⟨hfields, rfl, fun slot hslot => ?_⟩
      have hf : slot.1 ∈ fields := hfields ▸ List.mem_map_of_mem hslot
      obtain ⟨j, hj⟩ := hread slot hslot
      exact ih slot.1 hf (hs.of_mem_fields hf) hj

/-! ### Undeclared members -/

/-- **Agreement on what a schema declares.** Under a struct schema two objects agree if they do so
in the members of its field names, a missing member counting as null, and under an array schema two
arrays if they do so item by item. Where the schema has no place for an array or an object, any two
of them agree, and else only what is equal does. -/
inductive Json.AgreeOn : Schema → Json → Json → Prop where
  | same {s : Schema} (j : Json) : AgreeOn s j j
  | items {e : Schema} {o : Bool} {js js' : List Json} (length : js.length = js'.length)
      (agree : ∀ p ∈ js.zip js', AgreeOn e p.1 p.2) : AgreeOn (.array e o) (.arr js) (.arr js')
  | members {fields : List Field} {o : Bool} {ms ms' : Members}
      (agree : ∀ f ∈ fields, AgreeOn f.2 ((Members.get? ms f.1).getD .null)
        ((Members.get? ms' f.1).getD .null)) : AgreeOn (.struct fields o) (.obj ms) (.obj ms')
  | arrays {s : Schema} (noItems : s.element? = none) (js js' : List Json) :
      AgreeOn s (.arr js) (.arr js')
  | objects {s : Schema} (noFields : s.fields? = none) (ms ms' : Members) :
      AgreeOn s (.obj ms) (.obj ms')

/-- Steps with one outcome for related elements have one outcome for related lists. -/
theorem Outcome.mapM_congr {α β γ : Type} {f : α → Outcome γ} {g : β → Outcome γ} {as : List α}
    {bs : List β} (h : List.Forall₂ (fun a b => f a = g b) as bs) : as.mapM f = bs.mapM g := by
  induction h with
  | nil => rfl
  | cons hab _ ih => rw [List.mapM_cons, List.mapM_cons, hab, ih]

/-- Fields are filled from what the members of their names are read as, and from nothing else. -/
theorem Value.fieldsOfPlain?_congr {fields : List Field} {ms ms' : Members}
    (h : ∀ f ∈ fields, ofPlain? f.2 ((Members.get? ms f.1).getD .null) =
      ofPlain? f.2 ((Members.get? ms' f.1).getD .null)) (into : Record) :
    fieldsOfPlain? fields ms into = fieldsOfPlain? fields ms' into := by
  induction fields generalizing into with
  | nil => rfl
  | cons f rest ih =>
    obtain ⟨name, s⟩ := f
    obtain ⟨hhead, hrest⟩ := List.forall_mem_cons.mp h
    rw [fieldsOfPlain?, fieldsOfPlain?, hhead]
    simp only [ih hrest]

/-- **JSON values that agree on what a schema declares are read alike**, also where they cannot be
read. -/
theorem Json.AgreeOn.ofPlain?_eq {s : Schema} {j j' : Json} (h : j.AgreeOn s j') :
    Value.ofPlain? s j = Value.ofPlain? s j' := by
  induction h with
  | same j => rfl
  | @items e o js js' length agree ih =>
    have hitems : List.Forall₂ (fun j j' => Value.ofPlain? e j = Value.ofPlain? e j') js js' :=
      List.forall₂_iff_zip.mpr ⟨length, fun hp => ih _ hp⟩
    rw [Value.ofPlain?, Value.ofPlain?, Outcome.mapM_congr hitems]
  | members agree ih => rw [Value.ofPlain?, Value.ofPlain?, Value.fieldsOfPlain?_congr ih]
  | @arrays s noItems js js' =>
    cases s with
    | leaf t o =>
      rw [Value.ofPlain?_leaf rfl, Value.ofPlain?_leaf rfl, t.ofPlain?_arr, t.ofPlain?_arr]
    | array e o => cases noItems
    | struct fields o => simp [Value.ofPlain?, kind]
  | @objects s noFields ms ms' =>
    cases s with
    | leaf t o =>
      rw [Value.ofPlain?_leaf rfl, Value.ofPlain?_leaf rfl, t.ofPlain?_obj, t.ofPlain?_obj]
    | array e o => simp [Value.ofPlain?, kind]
    | struct fields o => cases noFields

namespace Value

/-- **What is read conforms, and only what is declared has a part in it.** Under a schema whose
field names are distinct in every struct, every value that is read conforms to the schema, with
leaves of exactly the kinds that it declares and records of exactly its fields; and whatever agrees
with the JSON on what the schema declares is read as the same. -/
theorem conforms_and_ignores {s : Schema} (hs : s.DistinctNames) (j : Json) :
    (∀ v, ofPlain? s j = .ok v → v.Conforms LeafType.Declares s) ∧
      ∀ j', j.AgreeOn s j' → ofPlain? s j' = ofPlain? s j :=
  ⟨fun _ h => conforms_of_ofPlain? hs h, fun _ h => h.ofPlain?_eq.symm⟩

/-- A list of records with a decimal that has no places, a member that is missing, and members that
are not declared, one of which is an object in the place of a text. -/
theorem conforms_and_ignores_surplus :
    let item := Schema.struct [("n", .leaf (.decimal 0) false), ("t", .leaf .string true)] false
    let s := Schema.struct [("a", .array item false)] false
    let surplus : Json := .obj [("a", .arr [.obj [("n", .num ⟨false, 1, [5], none⟩), ("x", .null)]]),
      ("b", .obj [])]
    let bare : Json := .obj [("a", .arr [.obj [("n", .num ⟨false, 1, [5], none⟩)]])]
    let v := Value.record [(("a", .array item false), .array [.record
      [(("n", .leaf (.decimal 0) false), .decimal ⟨1, 0⟩), (("t", .leaf .string true), .null)]
      false])] false
    s.DistinctNames ∧ ofPlain? s surplus = .ok v ∧ v.Conforms LeafType.Declares s ∧
      surplus.AgreeOn s bare ∧ ofPlain? s bare = .ok v := by
  intro item s surplus bare v
  have hs : s.DistinctNames := by
    simp [s, item, Schema.DistinctNames, Schema.Everywhere, Schema.EverywhereFields,
      Schema.fields, Schema.fields?]
  have hnumber : ofPlain? (.leaf (.decimal 0) false) (.num ⟨false, 1, [5], none⟩) =
      .ok (.decimal ⟨1, 0⟩) := by
    have htext : LeafType.decimalText? (.num ⟨false, 1, [5], none⟩) = some (some ⟨15, 1⟩) := by
      decide +kernel
    rw [ofPlain?_leaf rfl, LeafType.ofPlain?, htext]
    rfl
  have hitem : ofPlain? item (.obj [("n", .num ⟨false, 1, [5], none⟩), ("x", .null)]) =
      .ok (.record [(("n", .leaf (.decimal 0) false), .decimal ⟨1, 0⟩),
        (("t", .leaf .string true), .null)] false) := by
    refine (ofPlain?_struct_iff (by decide)).mpr ⟨_, rfl, rfl, ?_⟩
    simp only [List.forall_mem_cons]
    exact ⟨hnumber, rfl, fun slot hslot => absurd hslot List.not_mem_nil⟩
  have hread : ofPlain? s surplus = .ok v := by
    refine (ofPlain?_struct_iff (by decide)).mpr ⟨_, rfl, rfl, fun slot hslot => ?_⟩
    obtain rfl := List.mem_singleton.mp hslot
    exact ofPlain?_array (.cons hitem .nil)
  have hagree : surplus.AgreeOn s bare := by
    refine .members fun f hf => ?_
    obtain rfl := List.mem_singleton.mp hf
    refine .items rfl fun p hp => ?_
    obtain rfl := List.mem_singleton.mp hp
    -- the members that are declared are the same
    refine .members fun f hf => ?_
    simp only [List.mem_cons, List.not_mem_nil, or_false] at hf
    rcases hf with rfl | rfl
    · exact .same _
    · exact .same _
  obtain ⟨hconforms, hignores⟩ := conforms_and_ignores hs surplus
  exact ⟨hs, hread, hconforms v hread, hagree, (hignores bare hagree).trans hread⟩

end Value
end DocStream
