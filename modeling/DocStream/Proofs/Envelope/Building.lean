import DocStream.Proofs.Envelope.Wire

/-!
# Schemas that are built come back

Schemas are put together from leaf types, from the schema of an array's items and from the fields of
a struct. The fields may be given in any order, and one name more than once: they are sorted, and
those of one name stay in the order given. Whatever is built in this way comes back from the wire as
it was, from its tree of nodes and from the JSON of that, and nothing else does.

* `Schema.Built` — **the schemas that are built**;
* `Schema.built_iff` — these are the schemas in which everything travels;
* `WireSchema.comesBack_iff_built` — **a schema comes back from the wire exactly if it is built**.

That the schemas which are built are those that come back is shown by way of what travels.
Travelling is asked at every place of a schema and is what the wire respects; being built is how a
maker of schemas goes about it. The two are the same because sorting is idempotent.
-/

namespace DocStream

/-! ### Building -/

/-- **A schema that is built**: of a carrier type, of a decimal type whose scale fits 64 bits, of
the timestamp type, as an array of a schema that is built, or as a struct of fields whose schemas
are, sorted by name. -/
inductive Schema.Built : Schema → Prop where
  | carrier {name : String} {t : LeafType} (named : LeafType.ofName? name = some t) (o : Bool) :
      Built (.leaf t o)
  | decimal {scale : Int} (fits : fitsSigned 64 scale = true) (o : Bool) :
      Built (.leaf (.decimal scale) o)
  | timestamp (o : Bool) : Built (.leaf .timestamp o)
  | array {e : Schema} (element : Built e) (o : Bool) : Built (.array e o)
  | struct {fields : List Field} (parts : ∀ f ∈ fields, Built f.2) (o : Bool) :
      Built (.ofFields fields o)

namespace Schema

/-- Every type without a scale is a carrier type or the timestamp type. -/
theorem built_leaf {t : LeafType} {o : Bool} (h : (leaf t o).Travels) : (leaf t o).Built := by
  have hcarrier : ∀ t, LeafType.ofName? t.carrierName = some t → (leaf t o).Built :=
    fun _ named => .carrier named o
  cases t with
  | boolean | float32 | float64 | string | bytes => exact hcarrier _ rfl
  | int w => cases w <;> exact hcarrier _ rfl
  | decimal scale => exact .decimal h o
  | timestamp => exact .timestamp o

/-- **A schema is built exactly if everything in it travels.** A list of fields that is in order of
its names is the sorted list of itself. -/
theorem built_iff {s : Schema} : s.Built ↔ s.Everywhere Travels := by
  constructor
  · intro h
    induction h with
    | carrier named o => exact travels_of_ofName? named
    | decimal fits o => exact fits
    | timestamp o => exact trivial
    | array _ o ih => exact everywhere_iff.mpr ⟨trivial, ih⟩
    | @struct fields _ o ih =>
      refine everywhere_struct.mpr ⟨NameOrder.sorted_sort fields, fun f hf => ?_⟩
      exact ih f ((NameOrder.sort_perm _ _).mem_iff.mp hf)
  · intro h
    induction s using Schema.byParts with
    | leaf t o => exact built_leaf h
    | array e o ih => exact .array (ih (everywhere_iff.mp h).2) o
    -- the fields are in order already, so building with them gives the struct itself
    | struct fields o ih =>
      obtain ⟨hsorted, hfields⟩ := everywhere_struct.mp h
      have hbuilt : (ofFields fields o).Built := .struct (fun f hf => ih f hf (hfields f hf)) o
      rwa [ofFields, NameOrder.sort_of_sorted hsorted] at hbuilt

end Schema

/-! ### Coming back -/

/-- **A schema comes back from the wire exactly if it is built**: from the tree of nodes that
describes it, and also if that is written as JSON and read first. -/
theorem WireSchema.comesBack_iff_built (s : Schema) :
    (toSchema? (ofSchema s) = .ok s ↔ s.Built) ∧
      ((∃ w, ofJson? (ofSchema s).toJson = some w ∧ toSchema? w = .ok s) ↔ s.Built) := by
  have htree : toSchema? (ofSchema s) = .ok s ↔ s.Built := by
    rw [Schema.built_iff]
    exact ⟨travels_of_toSchema?, toSchema?_ofSchema⟩
  refine ⟨htree, ?_⟩
  -- the tree that is read from the JSON is the one that was written
  rw [← htree, ofJson?_toJson]
  simp

end DocStream
