import DocStream.Envelope.Basic
import DocStream.Proofs.Convert.Flattening
import DocStream.Proofs.Convert.Typing
import DocStream.Proofs.Envelope.Payload
import DocStream.Proofs.Envelope.Wire

/-!
# Envelopes and back

A converted document with a schema, nested or flattened, is put into an envelope and taken out
again. The schema is the same, and so is the value, floats aside.

* `Envelope.toJson?_eq_ok`, `Envelope.ofJson?_written_some` — what an envelope is written as, and
  what is read from that;
* `Envelope.exists_ofJson?` — **an envelope is written and read back** if its value conforms to its
  schema and both are of the kinds that can be read;
* `ConversionSettings.readable_of_convert` — converted documents are such;
* `ConversionSettings.envelope_roundTrip` — **a converted document survives its envelope**.

A schema comes from a document in two ways, by nesting and by flattening, and both give it fields in
order and leaf types that are inferred from values. That is all that the way through an envelope
needs. So `ConversionSettings.readable_of_convert` is where documents come in, and what is before it
is about schemas and values alone.
-/

namespace DocStream

/-! ### Envelopes -/

namespace Envelope

/-- The object that an envelope is written as, from the JSON of its schema and of its payload. The
payload stands first, in the order of the names. -/
def written (schema payload : Json) : Json := .obj [("payload", payload), ("schema", schema)]

/-- The JSON of the schema, null if there is none. An envelope always has both members. -/
def schemaJson : Option Schema → Json
  | some s => (WireSchema.ofSchema s).toJson
  | none => .null

/-- **An envelope is written** if its payload is: the two members are in order already. -/
theorem toJson?_eq_ok {e : Envelope} {payload : Json}
    (h : e.payload.toPlain? e.schema = .ok payload) :
    e.toJson? = .ok (written (schemaJson e.schema) payload) := by
  have hnames : StrictlyAscending ["payload", "schema"] := by
    rw [StrictlyAscending]
    decide
  have hlist : ∀ schema, Members.ofList [("payload", payload), ("schema", schema)] =
      [("payload", payload), ("schema", schema)] := fun _ => Members.ofList_of_ascending hnames
  obtain ⟨schema, v⟩ := e
  rw [toJson?, h]
  cases schema <;> exact congrArg (fun ms => Except.ok (Json.obj ms)) (hlist _)

/-- What an envelope without a schema is read from: the payload is converted anew, with the limit of
the default settings. -/
theorem ofJson?_written_none (payload : Json) :
    ofJson? (written .null payload) =
      Envelope.mk none <$> payload.schemaless ({} : ConversionSettings).maxDepth 0 := by
  rw [map_eq_pure_bind]
  rfl

/-- **An envelope with a schema is read** as its payload is, if the schema travels. -/
theorem ofJson?_written_some {s : Schema} (hs : s.Everywhere Schema.Travels) (payload : Json) :
    ofJson? (written (schemaJson (some s)) payload) =
      Envelope.mk (some s) <$> Value.ofPlain? s payload := by
  obtain ⟨members, hmembers⟩ := (WireSchema.ofSchema s).exists_toJson_eq_obj
  have hwire := WireSchema.ofJson?_toJson (WireSchema.ofSchema s)
  have hschema := WireSchema.toSchema?_ofSchema hs
  have hjson : schemaJson (some s) = .obj members := hmembers
  rw [hmembers] at hwire
  rw [hjson, map_eq_pure_bind, written, ofJson?]
  -- both members are found under their names
  have hfound : Members.get? [("payload", payload), ("schema", .obj members)] "schema" =
      some (.obj members) := rfl
  have hpayload : Members.get? [("payload", payload), ("schema", .obj members)] "payload" =
      some payload := rfl
  rw [hfound, hpayload]
  dsimp only [Option.getD_some]
  rw [hwire]
  dsimp only
  rw [hschema]
  rfl

/-- **An envelope is written and read back.** -/
theorem exists_ofJson? {s : Schema} {v : Value} (hv : v.Conforms LeafType.Readable s)
    (hs : s.WellFormed) (hleaf : s.Everywhere Schema.LeafInferred) :
    ∃ j w, (Envelope.mk (some s) v).toJson? = .ok j ∧ ofJson? j = .ok ⟨some s, w⟩ ∧
      v.AgreesOffFloats w := by
  -- the payload on its own comes back, and the schema travels
  obtain ⟨payload, w, hpayload, hw, hagree⟩ := hv.readsBack hs hleaf
  refine ⟨_, w, toJson?_eq_ok hpayload, ?_, hagree⟩
  rw [ofJson?_written_some (hs.travels hleaf), hw]
  rfl

end Envelope

/-! ### Converted documents -/

/-- **A number of a document is readable under its type.** That type is inferred from the value it
was narrowed to, and an integer of any size is within the bounds of reading, as the number was when
it was first read. -/
theorem LeafType.readable_of_ofNumeral? {n : Numeral} {v : Value} {t : LeafType}
    (hv : Value.ofNumeral? n = .ok v) (hs : Schema.ofLeaf v = .ok (.leaf t true)) :
    t.Readable v := by
  obtain ⟨d, hd, hrung⟩ := Value.rung_of_ofNumeral? hv
  refine ⟨infers_of_rung hrung hs, fun m hm => ?_⟩
  subst hm
  cases hrung with
  | bigint integral wide =>
    -- an integer of any size is bounded as the decimal that was narrowed to it
    have hzero : d.toInt ≠ 0 := fun h0 => wide (h0 ▸ by decide)
    have hrat : (Decimal.ofInt d.toInt).toRat = d.toRat := by
      rw [Decimal.toRat_ofInt, Decimal.toInt_eq_toRat integral]
    have hmagnitude : d.magnitude ≤ Decimal.greatestMagnitude := by
      obtain ⟨d', -, hbounded⟩ := Option.bind_eq_some_iff.mp hd
      rcases Decimal.bounded?_eq_some hbounded with ⟨-, rfl⟩ | ⟨-, rfl, hle⟩
      · exact absurd rfl hzero
      · exact hle
    exact (Decimal.magnitude_le hrat hzero).trans hmagnitude

namespace Json

/-- **A typed document conforms to its schema**, leaf by leaf, and can be read back under it. Texts
and truth values are readable as they are, and numbers by how they were narrowed. -/
theorem TypedAs.readable {inside : Bool} {d : Json} {s : Schema} {v : Value}
    (h : TypedAs inside d s v) (hs : s.Below (·.isOptional = true)) :
    v.Conforms LeafType.Readable s :=
  h.conforms (fun _ => ⟨trivial, nofun⟩) (fun _ => ⟨trivial, nofun⟩)
    (fun _ _ _ hv hleaf => LeafType.readable_of_ofNumeral? hv hleaf) hs

/-- **The leaf schemas of a document** are those of its scalars. -/
theorem leafInferred_of_nest {maxDepth depth : Nat} {path : Path} {d : Json} {s : Schema}
    {v : Value} (hd : d.Canonical) (h : nest maxDepth depth path d = .ok (s, v)) :
    s.Everywhere Schema.LeafInferred := by
  -- containers add nothing, and merged schemas have the leaves of those they are merged from
  refine nest_induction (Q := fun _ s => s.Everywhere Schema.LeafInferred) ?_
    (fun he => ⟨trivial, he⟩)
    (fun _ hfields => Schema.everywhere_struct.mpr ⟨trivial, hfields⟩)
    (fun hne hm hs => hm.everywhere (fun _ _ _ _ => trivial) hne hs) hd h
  intro depth path d s v hd h
  cases d with
  -- null alone has no value of its type, and its schema is that of an empty text
  | null =>
    injection h with h
    injection h with h _
    exact h ▸ ⟨rfl, .string "", trivial⟩
  | bool b =>
    obtain ⟨hs, rfl⟩ := typedLeaf_eq_ok.mp h
    injection hs with hs
    exact hs ▸ ⟨rfl, .boolean b, trivial⟩
  | num n =>
    rw [nest] at h
    obtain ⟨w, hw, h⟩ := Outcome.bind_eq_ok.mp h
    obtain ⟨hs, rfl⟩ := typedLeaf_eq_ok.mp h
    obtain ⟨t, rfl⟩ := eq_leaf_of_ofLeaf hs
    exact ⟨rfl, w, (LeafType.readable_of_ofNumeral? hw hs).1⟩
  | str t =>
    obtain ⟨hs, rfl⟩ := typedLeaf_eq_ok.mp h
    injection hs with hs
    exact hs ▸ ⟨rfl, .string t, trivial⟩
  | arr | obj => cases hd

/-- The entries of a flattened document can be read back under their schemas. -/
theorem readable_of_isNestedScalar {maxDepth : Nat} {path : Path} {e : FlatEntry}
    (h : IsNestedScalar maxDepth path e) :
    e.value.Conforms LeafType.Readable e.schema ∧ e.schema.WellFormed ∧
      e.schema.Everywhere Schema.LeafInferred := by
  -- an entry is a scalar of the document, nested by itself under its path
  obtain ⟨depth, more, d, hd, -, hnest⟩ := h
  have hcanonical : d.Canonical := by
    cases d with
    | null | bool | num | str => trivial
    | arr | obj => cases hd
  exact ⟨(typedAs_of_nest false hcanonical hnest).readable (optional_of_nest hcanonical hnest),
    wellFormed_of_nest hcanonical hnest, leafInferred_of_nest hcanonical hnest⟩

end Json

/-- **A flat record can be read back** if its entries can: its fields are the paths, in order and
with no repetition, so the schema travels. -/
theorem FlatRecord.readable_toRecord {r : FlatRecord}
    (h : ∀ e ∈ r.entries, e.value.Conforms LeafType.Readable e.schema ∧ e.schema.WellFormed ∧
      e.schema.Everywhere Schema.LeafInferred) :
    r.toRecord.toValue.Conforms LeafType.Readable r.toRecord.schema ∧
      r.toRecord.schema.WellFormed ∧ r.toRecord.schema.Everywhere Schema.LeafInferred := by
  have hslot : ∀ slot ∈ r.toRecord.slots, slot.2.Conforms LeafType.Readable slot.1.2 ∧
      slot.1.2.WellFormed ∧ slot.1.2.Everywhere Schema.LeafInferred := by
    intro slot hslot
    obtain ⟨e, he, rfl⟩ := mem_slots_toRecord.mp hslot
    exact h e he
  refine ⟨Value.conforms_record.mpr ⟨rfl, rfl, fun slot hmem => (hslot slot hmem).1⟩,
    Schema.wellFormed_struct.mpr ⟨?_, fun f hf => ?_⟩,
    Schema.everywhere_struct.mpr ⟨trivial, fun f hf => ?_⟩⟩
  · rw [List.map_map]
    exact r.ascending_toRecord
  · obtain ⟨slot, hmem, rfl⟩ := List.mem_map.mp hf
    exact (hslot slot hmem).2.1
  · obtain ⟨slot, hmem, rfl⟩ := List.mem_map.mp hf
    exact (hslot slot hmem).2.2

namespace ConversionSettings

/-- **Converted documents can be read back**, if they were given a schema. -/
theorem readable_of_convert {settings : ConversionSettings} {d : Json} {c : Converted} {s : Schema}
    {v : Value} (hd : d.Canonical) (h : settings.convert d = .ok c)
    (hc : c.toRecord = (some s, v)) :
    v.Conforms LeafType.Readable s ∧ s.WellFormed ∧ s.Everywhere Schema.LeafInferred := by
  cases c with
  | structured s' v' =>
    injection hc with hs hv
    injection hs with hs
    subst hs hv
    have hnest := convert_eq_structured h
    exact ⟨(Json.typedAs_of_nest false hd hnest).readable (Json.optional_of_nest hd hnest),
      Json.wellFormed_of_nest hd hnest, Json.leafInferred_of_nest hd hnest⟩
  | flattened flat =>
    injection hc with hs hv
    injection hs with hs
    subst hs hv
    refine FlatRecord.readable_toRecord fun e he => ?_
    have hflat := convert_eq_flattened h
    exact Json.readable_of_isNestedScalar
      ((Json.mem_flattenInto hflat he).resolve_left List.not_mem_nil)
  | schemaless v' =>
    injection hc with hs _
    exact nomatch hs

/-- **A converted document survives its envelope.** With a schema, nested or flattened, it can be
written and read back: the schema is the same, and so is the value wherever it holds no float. -/
theorem envelope_roundTrip {settings : ConversionSettings} {d : Json} {c : Converted} {s : Schema}
    {v : Value} (hd : d.Canonical) (h : settings.convert d = .ok c)
    (hc : c.toRecord = (some s, v)) :
    ∃ j w, (Envelope.mk (some s) v).toJson? = .ok j ∧ Envelope.ofJson? j = .ok ⟨some s, w⟩ ∧
      v.AgreesOffFloats w := by
  obtain ⟨hv, hs, hleaf⟩ := readable_of_convert hd h hc
  exact Envelope.exists_ofJson? hv hs hleaf

/-- Two records of an array and an integer of twenty-one digits, nested and flattened. -/
theorem envelope_roundTrip_both :
    let d := Json.obj [("a", .arr [.obj [("x", .num ⟨false, 1, [1], none⟩)],
      .obj [("y", .arr [.null])]]), ("n", .num (.ofInt (-123456789012345678901)))]
    let nested : ConversionSettings := {}
    let flattened : ConversionSettings := { flatten := true }
    (∃ c s v, d.Canonical ∧ nested.convert d = .ok c ∧ c.toRecord = (some s, v) ∧
      ∃ j w, (Envelope.mk (some s) v).toJson? = .ok j ∧ Envelope.ofJson? j = .ok ⟨some s, w⟩ ∧
        v.AgreesOffFloats w) ∧
    ∃ c s v, d.Canonical ∧ flattened.convert d = .ok c ∧ c.toRecord = (some s, v) ∧
      ∃ j w, (Envelope.mk (some s) v).toJson? = .ok j ∧ Envelope.ofJson? j = .ok ⟨some s, w⟩ ∧
        v.AgreesOffFloats w := by
  intro d nested flattened
  have hd : d.Canonical := by decide +kernel
  constructor
  · have hok : (match nested.convert d with
        | .ok (.structured _ _) => true
        | _ => false) = true := by decide +kernel
    split at hok
    · next s v h => exact ⟨_, s, v, hd, h, rfl, envelope_roundTrip hd h rfl⟩
    · exact nomatch hok
  · have hok : (match flattened.convert d with
        | .ok (.flattened _) => true
        | _ => false) = true := by decide +kernel
    split at hok
    · next r h => exact ⟨_, _, _, hd, h, rfl, envelope_roundTrip hd h rfl⟩
    · exact nomatch hok

end ConversionSettings
end DocStream
