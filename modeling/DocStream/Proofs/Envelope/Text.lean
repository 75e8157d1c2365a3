import DocStream.Proofs.Convert.Depth
import DocStream.Proofs.Convert.Padding
import DocStream.Proofs.Envelope.RoundTrip
import DocStream.Proofs.Json.Reading

/-!
# Envelopes as texts

An envelope is sent as a compact text, and the reader of texts goes no deeper than its own limit. A
payload nests like the document it was made from, but its schema nests deeper: every struct is an
object with an array of fields in it, so two containers are open where the document has one. A
document that keeps to the limit on conversions may therefore have an envelope that cannot be read.

* `Schema.wireNesting` — how deep the JSON of a schema nests, and
  `WireSchema.nesting_ofSchema`;
* `Json.WrittenAs.nesting_eq` — a payload nests like its document;
* `Envelope.parse?_compact` — **the text of an envelope** is read as its JSON is, unless that nests
  too deep;
* `ConversionSettings.envelopeText_roundTrip` — **a converted document survives the text of its
  envelope** exactly if its schema nests less deep than the reader goes;
* `ConversionSettings.not_envelopeText_roundTrip_tower` — a document whose envelope is refused.

A tower of objects is the worst case, since each of its objects becomes a struct and a struct is two
containers on the wire. An array is one only, an object with its items in it. So a document may nest
half as deep as the reader goes, after the leaf and the envelope have had their share.
-/

namespace DocStream

/-! ### Schemas -/

namespace Schema

mutual

/-- **How deep the JSON of a schema nests.** A decimal has its scale in an object of its own, an
array its item schema in a member, and a struct its field schemas in an array. -/
def wireNesting : Schema → Nat
  | leaf (.decimal _) _ => 2
  | leaf .. => 1
  | array e _ => e.wireNesting + 1
  | struct fields _ => wireNestingOfFields fields + 2

def wireNestingOfFields : List (String × Schema) → Nat
  | [] => 0
  | (_, s) :: rest => max s.wireNesting (wireNestingOfFields rest)

end

/-- **The JSON of a schema nests at most twice as deep as the schema**, with two more at a leaf. -/
theorem wireNesting_le (s : Schema) : s.wireNesting ≤ 2 * s.height + 2 := by
  induction s using Schema.byParts with
  -- only a decimal has an object for its parameters
  | leaf t o =>
    cases t with
    | decimal scale => exact Nat.le_refl 2
    | _ => exact Nat.le_succ 1
  | array e o ih =>
    rw [wireNesting, height]
    omega
  | struct fields o ih =>
    -- a field is one level of the document and two of the JSON, the node and the list it stands in
    have hfields : wireNestingOfFields fields ≤ 2 * heightOfFields fields + 2 := by
      induction fields with
      | nil => exact Nat.zero_le _
      | cons f rest ih' =>
        obtain ⟨name, s⟩ := f
        have hhead := ih _ List.mem_cons_self
        have htail := ih' fun f hf => ih f (List.mem_cons_of_mem _ hf)
        dsimp only at hhead
        rw [wireNestingOfFields, heightOfFields]
        omega
    rw [wireNesting, height]
    omega

end Schema

namespace WireSchema

/-- The nesting of two lists of members put together is that of the deeper one. -/
theorem nestingOfMembers_append (ms ms' : Members) :
    Json.nestingOfMembers (ms ++ ms') =
      max (Json.nestingOfMembers ms) (Json.nestingOfMembers ms') := by
  induction ms with
  | nil => rw [List.nil_append, Json.nestingOfMembers, Nat.zero_max]
  | cons m rest ih =>
    obtain ⟨name, j⟩ := m
    rw [List.cons_append, Json.nestingOfMembers, Json.nestingOfMembers, ih, Nat.max_assoc]

/-- A text that a node may have is a scalar. -/
theorem nestingOfMembers_text (name : String) (text : Option String) :
    Json.nestingOfMembers (text.map fun t => (name, Json.str t)).toList = 0 := by
  cases text <;> rfl

/-- **A node nests one deeper than its parameters, fields and items.** -/
theorem nesting_node (t : String) (o : Bool) (field name : Option String)
    (parameters : Option Members) (fields : Option (List WireSchema)) (items : Option WireSchema) :
    (node t o field name parameters fields items).toJson.nesting =
      max (Json.nestingOfMembers (fieldsMember fields))
        (max (Json.nestingOfMembers (itemsMember items)) (Json.nestingOfMembers
          (parameters.map fun p => ("parameters", Json.obj p)).toList)) + 1 := by
  rw [toJson_node, Json.nesting]
  -- type, optionality and names are scalars and do not count
  simp only [nestingOfMembers_append, nestingOfMembers_text]
  simp only [Json.nestingOfMembers, Json.nesting, Nat.zero_max, Nat.max_zero, Nat.max_assoc]

/-- The name of a field is a text in its node. -/
theorem nesting_withField (f : String) (w : WireSchema) :
    (w.withField f).toJson.nesting = w.toJson.nesting := by
  obtain ⟨t, o, field, name, parameters, fields, items⟩ := w
  rw [withField, nesting_node, nesting_node]

/-- **How deep the JSON of a schema nests.** -/
theorem nesting_ofSchema (s : Schema) : (ofSchema s).toJson.nesting = s.wireNesting := by
  induction s using Schema.byParts with
  | leaf t o =>
    rw [ofSchema, nesting_node]
    cases t <;> rfl
  | array e o ih =>
    rw [ofSchema, nesting_node, Schema.wireNesting]
    simp only [fieldsMember, itemsMember, Json.nestingOfMembers, ih, Option.map_none,
      Option.toList_none, Nat.max_zero, Nat.zero_max]
  | struct fields o ih =>
    have hfields : Json.nestingOfItems (toJsons (ofFields fields)) =
        Schema.wireNestingOfFields fields := by
      induction fields with
      | nil => rfl
      | cons f rest ih' =>
        obtain ⟨name, s⟩ := f
        rw [ofFields, toJsons, Json.nestingOfItems, nesting_withField, ih _ List.mem_cons_self,
          ih' fun f hf => ih f (List.mem_cons_of_mem _ hf), Schema.wireNestingOfFields]
    rw [ofSchema, nesting_node, Schema.wireNesting]
    simp only [fieldsMember, itemsMember, Json.nestingOfMembers, Json.nesting, hfields,
      Option.map_none, Option.toList_none, Nat.max_zero]

/-- A node is canonical if its parameters, fields and items are. Its own members are put in order
when the object is made. -/
theorem canonical_node (t : String) (o : Bool) (field name : Option String)
    {parameters : Option Members} {fields : Option (List WireSchema)} {items : Option WireSchema}
    (hparameters : ∀ p ∈ parameters, (Json.obj p).Canonical)
    (hfields : ∀ ws ∈ fields, ∀ j ∈ toJsons ws, j.Canonical)
    (hitems : ∀ w ∈ items, w.toJson.Canonical) :
    (node t o field name parameters fields items).toJson.Canonical := by
  rw [toJson]
  refine Json.canonical_ofList fun m hm => ?_
  simp only [List.mem_append] at hm
  -- one member of a node after the other, in the order in which it is put together
  rcases hm with ((((hm | hm) | hm) | hm) | hm) | hm
  · rcases List.mem_cons.mp hm with rfl | hm
    · trivial
    · obtain rfl := List.mem_singleton.mp hm
      trivial
  · obtain ⟨f, -, rfl⟩ := Option.map_eq_some_iff.mp (Option.mem_toList.mp hm)
    trivial
  · obtain ⟨n, -, rfl⟩ := Option.map_eq_some_iff.mp (Option.mem_toList.mp hm)
    trivial
  · obtain ⟨p, hp, rfl⟩ := Option.map_eq_some_iff.mp (Option.mem_toList.mp hm)
    exact hparameters p hp
  · cases fields with
    | none => exact absurd hm List.not_mem_nil
    | some ws =>
      obtain rfl := List.mem_singleton.mp hm
      exact Json.canonical_arr.mpr (hfields ws rfl)
  · cases items with
    | none => exact absurd hm List.not_mem_nil
    | some w =>
      obtain rfl := List.mem_singleton.mp hm
      exact hitems w rfl

/-- The parameters of a leaf type are texts under one name. -/
theorem canonical_parametersOf? {t : LeafType} : ∀ p ∈ parametersOf? t, (Json.obj p).Canonical := by
  intro p hp
  cases t with
  | decimal scale =>
    obtain rfl := Option.some.inj hp
    exact ⟨List.pairwise_singleton _ _, trivial, trivial⟩
  | _ => cases hp

/-- **The JSON of a schema is canonical**, also if the schema is that of a field. Both are needed at
once: a schema is a field of one struct and stands by itself elsewhere. -/
theorem canonical_ofSchema (s : Schema) :
    (ofSchema s).toJson.Canonical ∧ ∀ f, ((ofSchema s).withField f).toJson.Canonical := by
  induction s using Schema.byParts with
  | leaf t o =>
    have hnode : ∀ field, (node t.carrierName o field (logicalName? t) (parametersOf? t) none
        none).toJson.Canonical := fun field =>
      canonical_node _ _ _ _ canonical_parametersOf? nofun nofun
    exact ⟨hnode none, fun f => hnode (some f)⟩
  | array e o ih =>
    have hnode : ∀ field, (node "array" o field none none none
        (some (ofSchema e))).toJson.Canonical := fun field =>
      canonical_node _ _ _ _ nofun nofun fun w hw => Option.some.inj hw ▸ ih.1
    exact ⟨hnode none, fun f => hnode (some f)⟩
  | struct fields o ih =>
    -- every field is a node with the name of the field in it
    have hfields : ∀ j ∈ toJsons (ofFields fields), j.Canonical := by
      induction fields with
      | nil => exact fun j hj => absurd hj List.not_mem_nil
      | cons f rest ih' =>
        obtain ⟨name, s⟩ := f
        rw [ofFields, toJsons]
        exact List.forall_mem_cons.mpr ⟨(ih _ List.mem_cons_self).2 name,
          ih' fun f hf => ih f (List.mem_cons_of_mem _ hf)⟩
    have hnode : ∀ field, (node "struct" o field none none (some (ofFields fields))
        none).toJson.Canonical := fun field =>
      canonical_node _ _ _ _ nofun (fun ws hws => Option.some.inj hws ▸ hfields) nofun
    exact ⟨hnode none, fun f => hnode (some f)⟩

end WireSchema

/-! ### Payloads -/

namespace Json

/-- **A payload nests like its document**: numbers are written as scalars, and so is padding. -/
theorem WrittenAs.nesting_eq {inside : Bool} {s : Schema} {d j : Json}
    (h : WrittenAs inside s d j) : d.nesting = j.nesting := by
  induction h with
  | null | bool | str => rfl
  | num narrowed written =>
    obtain ⟨b, -, hrung⟩ := Value.rung_of_ofNumeral? narrowed
    rw [Value.toPlain?_none (isLeaf_of_rung hrung)] at written
    exact (nesting_of_scalar (Value.isContainer_of_leafPlain? written)).symm
  | @arr inside items items' e o length written ih =>
    -- the items stand side by side, and each pair nests alike
    have hall : List.Forall₂ (fun i i' => i.nesting = i'.nesting) items items' :=
      List.forall₂_iff_zip.mpr ⟨length, fun hp => ih _ hp⟩
    have hitems : nestingOfItems items = nestingOfItems items' := by
      clear length written ih
      induction hall with
      | nil => rfl
      | cons hi _ ih' => rw [nestingOfItems, nestingOfItems, hi, ih']
    rw [nesting, nesting, hitems]
  | @obj inside members members' fields o names kept written padded ih =>
    have hmember : ∀ m ∈ members, ∀ m' ∈ members', m'.1 = m.1 → m.2.nesting = m'.2.nesting := by
      intro m hm m' hm' hmn
      have hname : m'.1 ∈ members'.names := List.mem_map_of_mem hm'
      rw [names] at hname
      obtain ⟨f, hf, hfn⟩ := List.mem_map.mp hname
      exact ih m hm m' hm' hmn f hf (hfn.trans hmn)
    -- the members are there, and whatever else is there is null
    have hmembers : nestingOfMembers members = nestingOfMembers members' := by
      refine eq_of_forall_ge_iff fun n => ?_
      rw [nestingOfMembers_le, nestingOfMembers_le]
      constructor
      · intro h m' hm'
        by_cases hname : m'.1 ∈ members.names
        · obtain ⟨m, hm, hmn⟩ := List.mem_map.mp hname
          exact hmember m hm m' hm' hmn.symm ▸ h m hm
        · rw [(padded m' hm' hname).2]
          exact Nat.zero_le n
      · intro h m hm
        obtain ⟨m', hm', hmn⟩ := List.mem_map.mp (kept _ (List.mem_map_of_mem (f := Prod.fst) hm))
        exact hmember m hm m' hm' hmn ▸ h m' hm'
    rw [nesting, nesting, hmembers]

end Json

/-! ### Envelopes -/

namespace Envelope

/-- **The text of an envelope** is read as its JSON is, unless that nests too deep. -/
theorem parse?_compact {j : Json} (hj : j.Canonical) :
    parse? j.compact = if j.nesting ≤ Json.maxNesting then ofJson? j else .error .jsonText := by
  rw [parse?, Json.parse?_compact hj]
  by_cases h : j.nesting ≤ Json.maxNesting
  · rw [if_pos h, if_pos h]
  · rw [if_neg h, if_neg h]

/-- An envelope nests one deeper than the deeper one of its two parts. -/
theorem nesting_written (schema payload : Json) :
    (written schema payload).nesting = max payload.nesting schema.nesting + 1 := by
  simp only [written, Json.nesting, Json.nestingOfMembers, Nat.max_zero]

/-- An envelope is canonical if its two parts are, since its names are in order. -/
theorem canonical_written {schema payload : Json} (hschema : schema.Canonical)
    (hpayload : payload.Canonical) : (written schema payload).Canonical := by
  refine Json.canonical_obj.mpr ⟨?_, fun m hm => ?_⟩
  · show StrictlyAscending ["payload", "schema"]
    rw [StrictlyAscending]
    decide
  · rcases List.mem_cons.mp hm with rfl | hm
    · exact hpayload
    · obtain rfl := List.mem_singleton.mp hm
      exact hschema

end Envelope

/-! ### Converted documents -/

namespace ConversionSettings

/-- **The envelope of a nested document** can be written, and nests one deeper than the document or
the JSON of its schema. -/
theorem nesting_envelope {settings : ConversionSettings} {d : Json} {s : Schema} {v : Value}
    (hd : d.Canonical) (h : settings.convert d = .ok (.structured s v)) :
    ∃ j, (Envelope.mk (some s) v).toJson? = .ok j ∧ j.Canonical ∧
      j.nesting = max d.nesting s.wireNesting + 1 := by
  have hnest := convert_eq_structured h
  -- the payload is a document that nests like the one converted, so only the schema can be deeper
  have htyped := Json.typedAs_of_nest false hd hnest
  obtain ⟨payload, hpayload, hwritten, hcanonical⟩ :=
    htyped.writtenAs hd (Json.wellFormed_of_nest hd hnest)
  refine ⟨_, Envelope.toJson?_eq_ok hpayload,
    Envelope.canonical_written (WireSchema.canonical_ofSchema s).1 hcanonical, ?_⟩
  rw [Envelope.nesting_written, hwritten.nesting_eq, Envelope.schemaJson,
    WireSchema.nesting_ofSchema]

/-- **A converted document survives the text of its envelope** exactly if the JSON of its schema
nests less deep than the reader goes. That is so if the document nests at most sixty-two deep, and
need not be so at sixty-three. -/
theorem envelopeText_roundTrip {text : String} {d : Json} {s : Schema} {v : Value}
    (hd : Json.parse? text = some d)
    (h : ({} : ConversionSettings).convert d = .ok (.structured s v)) :
    ∃ j, (Envelope.mk (some s) v).toJson? = .ok j ∧
      (s.wireNesting < Json.maxNesting →
        ∃ w, Envelope.parse? j.compact = .ok ⟨some s, w⟩ ∧ v.AgreesOffFloats w) ∧
      (Json.maxNesting ≤ s.wireNesting → Envelope.parse? j.compact = .error .jsonText) ∧
      (d.nesting ≤ 62 → s.wireNesting < Json.maxNesting) := by
  have hcanonical := Json.canonical_of_parse? hd
  have hnest := convert_eq_structured h
  obtain ⟨j, hj, hjcanonical, hnesting⟩ := nesting_envelope hcanonical h
  obtain ⟨hreadable, hs, hleaf⟩ := readable_of_convert hcanonical h rfl
  obtain ⟨j', w, hj', hread, hagree⟩ := Envelope.exists_ofJson? hreadable hs hleaf
  obtain rfl := Except.ok.inj (hj'.symm.trans hj)
  -- the payload is no obstacle: the limit on conversions is below that of the reader
  have hle : d.nesting ≤ 64 := Json.nesting_le_of_nest hcanonical hnest
  have hmax : Json.maxNesting = 127 := rfl
  refine ⟨j', hj, fun hlt => ⟨w, ?_, hagree⟩, fun hge => ?_, fun hdeep => ?_⟩
  · rw [Envelope.parse?_compact hjcanonical, if_pos (by omega), hread]
  · rw [Envelope.parse?_compact hjcanonical, if_neg (by omega)]
  · have hwire := s.wireNesting_le
    have hheight := Json.height_le_of_nest hcanonical hnest
    omega

/-- Sixty-two objects in one another, and an integer of twenty-one digits in the first of them. -/
theorem envelopeText_roundTrip_full :
    let d := Json.obj [("a", Json.tower 61), ("n", .num (.ofInt 123456789012345678901))]
    ∃ s v, Json.parse? d.compact = some d ∧
      ({} : ConversionSettings).convert d = .ok (.structured s v) ∧
      ∃ j w, (Envelope.mk (some s) v).toJson? = .ok j ∧
        Envelope.parse? j.compact = .ok ⟨some s, w⟩ ∧ v.AgreesOffFloats w := by
  intro d
  have hd : Json.parse? d.compact = some d := by
    rw [Json.parse?_compact (by decide +kernel), if_pos (by decide +kernel)]
  have hok : (match ({} : ConversionSettings).convert d with
      | .ok (.structured _ _) => true
      | _ => false) = true := by decide +kernel
  split at hok
  · next s v h =>
    obtain ⟨j, hj, hread, -, hdeep⟩ := envelopeText_roundTrip hd h
    obtain ⟨w, hw, hagree⟩ := hread (hdeep (by decide +kernel))
    exact ⟨s, v, hd, h, j, w, hj, hw, hagree⟩
  · exact nomatch hok

/-- **A document within the default limit whose envelope is refused.** Sixty-three objects in one
another make a schema of one hundred and twenty-seven containers, and the envelope is one more. -/
theorem not_envelopeText_roundTrip_tower :
    let d := Json.tower 63
    ∃ s v j, Json.parse? d.compact = some d ∧
      ({} : ConversionSettings).convert d = .ok (.structured s v) ∧
      (Envelope.mk (some s) v).toJson? = .ok j ∧
      Envelope.parse? j.compact = .error .jsonText := by
  intro d
  have hd : d.Canonical := Json.canonical_tower 63
  have htext : Json.parse? d.compact = some d := by
    rw [Json.parse?_compact hd, if_pos (by decide +kernel)]
  have hok : (match ({} : ConversionSettings).convert d with
      | .ok (.structured s _) => decide (s.wireNesting = 127)
      | _ => false) = true := by decide +kernel
  split at hok
  · next s v h =>
    obtain ⟨j, hj, hcanonical, hnesting⟩ := nesting_envelope hd h
    have hwire := of_decide_eq_true hok
    have hmax : Json.maxNesting = 127 := rfl
    refine ⟨s, v, j, htext, h, hj, ?_⟩
    rw [Envelope.parse?_compact hcanonical, if_neg (by omega)]
  · exact nomatch hok

end ConversionSettings
end DocStream
