import DocStream.Proofs.Envelope.WireTree
import DocStream.Proofs.Induction
import DocStream.Proofs.Schema.Shape
import DocStream.Proofs.Text.Numbers
import DocStream.Proofs.Value.Conformance

/-!
# Schemas over the wire and back

A schema is written in two stages, as a tree of nodes and as JSON, and read in the same two. Each
stage can be undone: the first for the schemas whose scales fit 64 bits and whose fields are in
order, the second for every tree. Schemas that have been read are such, and so are those of
documents.

* `Schema.Travels` — what a schema needs to be read back;
* `WireSchema.toJson_node` — the members of a node in the order in which they stand in the object;
* `WireSchema.ofJson?_toJson` — **reading back a tree** from its JSON;
* `WireSchema.toSchema?_ofSchema` — **reading back a schema** from its tree;
* `WireSchema.travels_of_toSchema?` — **every schema that is read can be read back**.

The tree is what makes the two stages simple. Reading JSON takes the members one by one and puts
each into its part, whatever the type of the node is; reading a schema looks at those parts only
that the type asks for. So the first stage is undone without any condition, and what a schema needs
is a matter of the second.
-/

namespace DocStream

/-- **A schema that travels**: the scale of a decimal fits 64 bits, and the fields of a struct are
in order of their names. Of the schemas inside it nothing is said. -/
def Schema.Travels : Schema → Prop
  | .leaf (.decimal scale) _ => fitsSigned 64 scale = true
  | .struct fields _ => (fields.map Prod.fst).Pairwise (· ≤ ·)
  | _ => True

/-- Schemas of documents travel. -/
theorem Schema.WellFormed.travels {s : Schema} (hs : s.WellFormed)
    (hleaf : s.Everywhere LeafInferred) : s.Everywhere Travels := by
  induction s using Schema.byParts with
  | leaf t o =>
    obtain ⟨-, v, hv⟩ := hleaf
    cases t with
    -- a decimal is inferred from an integer only, which has no places
    | decimal scale =>
      obtain rfl : scale = 0 := by
        cases v with
        | bigint n => exact hv
        | _ => exact hv.elim
      exact show fitsSigned 64 0 = true by decide
    | _ => trivial
  | array e o ih => exact everywhere_iff.mpr ⟨trivial, ih hs (everywhere_iff.mp hleaf).2⟩
  | struct fields o ih =>
    obtain ⟨hasc, hparts⟩ := wellFormed_struct.mp hs
    have hleaves := (everywhere_struct.mp hleaf).2
    exact everywhere_struct.mpr
      ⟨hasc.imp le_of_lt, fun f hf => ih f hf (hparts f hf) (hleaves f hf)⟩

/-- The carrier types have no scale. -/
theorem Schema.travels_of_ofName? {name : String} {t : LeafType} {o : Bool}
    (h : LeafType.ofName? name = some t) : (leaf t o).Travels := by
  unfold LeafType.ofName? at h
  split at h <;> cases h <;> trivial

namespace WireSchema

/-! ### Trees and JSON -/

/-- **The members of a node**, those that it has, in the order of their names. -/
theorem toJson_node (t : String) (o : Bool) (field name : Option String)
    (parameters : Option Members) (fields : Option (List WireSchema)) (items : Option WireSchema) :
    (node t o field name parameters fields items).toJson =
      .obj ((field.map fun f => ("field", Json.str f)).toList ++ fieldsMember fields ++
        itemsMember items ++ (name.map fun n => ("name", Json.str n)).toList ++
        [("optional", .bool o)] ++ (parameters.map fun p => ("parameters", Json.obj p)).toList ++
        [("type", .str t)]) := by
  rw [toJson]
  -- which members there are is all that the order depends on
  cases field <;> cases name <;> cases parameters <;> cases fields <;> cases items <;>
    simp [-String.lt_iff_ltb, Members.ofList, Members.insert, fieldsMember, itemsMember]

/-- Members are read one after the other, each into the parts that those before it have left. -/
theorem readMembers?_cons (m : String × Json) (rest : List (String × Json)) (p : Parts) :
    readMembers? (m :: rest) p =
      (p.set? m.1 m.2 (fun _ => ofJson? m.2) fun _ => m.2.arr?.bind ofJsons?) >>=
        readMembers? rest := by
  obtain ⟨name, j⟩ := m
  cases j <;> rfl

/-- Reading two lists of members is reading the one and then the other. So the kinds of members can
be told one by one. -/
theorem readMembers?_append (ms ms' : List (String × Json)) (p : Parts) :
    readMembers? (ms ++ ms') p = readMembers? ms p >>= readMembers? ms' := by
  -- the parts grow along the list, so the induction is for all of them
  induction ms generalizing p with
  | nil => rfl
  | cons m rest ih =>
    rw [List.cons_append, readMembers?_cons, readMembers?_cons, bind_assoc]
    congr 1
    exact funext ih

/-- Every node is written as an object. -/
theorem exists_toJson_eq_obj (w : WireSchema) : ∃ members, w.toJson = .obj members := by
  obtain ⟨t, o, field, name, parameters, fields, items⟩ := w
  exact ⟨_, toJson_node t o field name parameters fields items⟩

/-! Each member that a node may have is read back into its part, if that is empty still. -/

section Parts

variable {p : Parts}

/-- The member with the name of the field is read back, or left out as it was. -/
theorem readMembers?_field {field : Option String} (h : p.field = none) :
    readMembers? (field.map fun f => ("field", Json.str f)).toList p = some { p with field } := by
  cases field with
  | none =>
    cases p
    cases h
    rfl
  | some f => rfl

theorem readMembers?_name {name : Option String} (h : p.name = none) :
    readMembers? (name.map fun n => ("name", Json.str n)).toList p = some { p with name } := by
  cases name with
  | none =>
    cases p
    cases h
    rfl
  | some n => rfl

theorem readMembers?_parameters {parameters : Option Members} (h : p.parameters = none) :
    readMembers? (parameters.map fun ms => ("parameters", Json.obj ms)).toList p =
      some { p with parameters } := by
  cases parameters with
  | none =>
    cases p
    cases h
    rfl
  | some ms => rfl

/-- The fields are read back if every node among them is. This is where the induction comes in. -/
theorem readMembers?_fields {fields : Option (List WireSchema)} (h : p.fields = none)
    (hfields : ∀ ws, fields = some ws → ofJsons? (toJsons ws) = some ws) :
    readMembers? (fieldsMember fields) p = some { p with fields } := by
  cases fields with
  | none =>
    cases p
    cases h
    rfl
  | some ws =>
    rw [fieldsMember, readMembers?_cons]
    show (((ofJsons? (toJsons ws)).map fun ws => { p with fields := some ws }) >>= _) = _
    rw [hfields ws rfl]
    rfl

/-- The items are read back if their node is, though they may be given in another form as well. -/
theorem readMembers?_items {items : Option WireSchema} (h : p.items = none)
    (hitems : ∀ w, items = some w → ofJson? w.toJson = some w) :
    readMembers? (itemsMember items) p = some { p with items } := by
  cases items with
  | none =>
    cases p
    cases h
    rfl
  | some w =>
    -- items may be given as a list of nodes too, but a node is written as an object
    have hset : p.set? "items" w.toJson (fun _ => ofJson? w.toJson)
        (fun _ => w.toJson.arr?.bind ofJsons?) =
        (ofJson? w.toJson).map fun w => { p with items := some w } := by
      obtain ⟨members, hmembers⟩ := exists_toJson_eq_obj w
      rw [hmembers]
      rfl
    rw [itemsMember, readMembers?_cons, hset, hitems w rfl]
    rfl

end Parts

/-- **A node is read back** if the nodes inside it are. -/
theorem ofJson?_toJson_node (t : String) (o : Bool) (field name : Option String)
    (parameters : Option Members) {fields : Option (List WireSchema)} {items : Option WireSchema}
    (hfields : ∀ ws, fields = some ws → ofJsons? (toJsons ws) = some ws)
    (hitems : ∀ w, items = some w → ofJson? w.toJson = some w) :
    ofJson? (node t o field name parameters fields items).toJson =
      some (node t o field name parameters fields items) := by
  rw [toJson_node]
  show readMembers? _ {} >>= Parts.complete? = _
  -- every kind of member fills a part that no kind before it has filled
  simp only [readMembers?_append, Option.bind_eq_bind]
  rw [readMembers?_field rfl, Option.bind_some, readMembers?_fields rfl hfields, Option.bind_some,
    readMembers?_items rfl hitems, Option.bind_some, readMembers?_name rfl, Option.bind_some]
  show ((readMembers? _ _).bind _).bind _ = _
  rw [readMembers?_parameters rfl]
  rfl

mutual

/-- **A tree is read back** from its JSON. -/
theorem ofJson?_toJson : ∀ w : WireSchema, ofJson? w.toJson = some w
  | node t o field name parameters fields items =>
    ofJson?_toJson_node t o field name parameters
      (match fields with
        | none => nofun
        | some ws => fun _ h => Option.some.inj h ▸ ofJsons?_toJsons ws)
      (match items with
        | none => nofun
        | some w => fun _ h => Option.some.inj h ▸ ofJson?_toJson w)

/-- **A list of trees is read back** from the list of their JSON, one tree after the other. -/
theorem ofJsons?_toJsons : ∀ ws : List WireSchema, ofJsons? (toJsons ws) = some ws
  | [] => rfl
  | w :: rest => by
    rw [toJsons, ofJsons?, ofJson?_toJson w, ofJsons?_toJsons rest]
    rfl

end

/-! ### Trees and schemas -/

/-! A node that describes a field has the name in it, and says what it said before. -/

/-- The name of a field does not count when its node is read as a schema. -/
theorem toSchema?_withField (f : String) (w : WireSchema) :
    toSchema? (w.withField f) = toSchema? w := by
  obtain ⟨t, o, field, name, parameters, fields, items⟩ := w
  rw [withField, toSchema?, toSchema?]

/-- The name that is put into a node is found in it. -/
theorem field?_withField (f : String) (w : WireSchema) : (w.withField f).field? = some f := by
  obtain ⟨t, o, field, name, parameters, fields, items⟩ := w
  rfl

/-- **A leaf type is read back** from its carrier, logical name and parameters. -/
theorem toSchema?_leaf {t : LeafType} {o : Bool} (h : (Schema.leaf t o).Travels) :
    toSchema? (ofSchema (.leaf t o)) = .ok (.leaf t o) := by
  cases t with
  | boolean | float32 | float64 | string | bytes | timestamp => rfl
  | int w => cases w <;> rfl
  | decimal scale =>
    have hfits : fitsSigned 64 scale = true := h
    -- the scale is written as a text, and the digits of an integer spell it
    have hscale : scale? (parametersOf? (.decimal scale)) = .ok scale := by
      refine scale?_eq_ok.mpr ⟨.str (toString scale), rfl, .text ?_⟩
      rw [Digits.signed64?_toString, Option.filter_some, if_pos hfits]
    have htype : leafType? .bytes (some decimalName) (parametersOf? (.decimal scale)) =
        .ok (.decimal scale) := by
      rw [leafType?, if_pos ⟨rfl, rfl⟩, hscale]
      rfl
    rw [ofSchema, toSchema?, LeafType.carrierName, if_neg (by decide), if_neg (by decide)]
    change leafType? .bytes (some decimalName) _ >>= _ = _
    rw [htype]
    rfl

/-- **A schema is read back** from its tree, if everything in it travels. -/
theorem toSchema?_ofSchema {s : Schema} (h : s.Everywhere Schema.Travels) :
    toSchema? (ofSchema s) = .ok s := by
  induction s using Schema.byParts with
  -- by induction along the schema, as the tree is built
  | leaf t o => exact toSchema?_leaf h
  | array e o ih =>
    have he : itemsSchema? (some (ofSchema e)) = .ok e := ih (Schema.everywhere_iff.mp h).2
    rw [ofSchema, toSchema?, if_pos rfl, he]
    rfl
  | struct fields o ih =>
    obtain ⟨hsorted, hfields⟩ := Schema.everywhere_struct.mp h
    -- the fields are read one by one, each under the name in its node
    have hlist : fieldList? (ofFields fields) = .ok fields := by
      clear h hsorted
      induction fields with
      | nil => rfl
      | cons f rest ih' =>
        obtain ⟨name, s⟩ := f
        have hhead := ih _ List.mem_cons_self (hfields _ List.mem_cons_self)
        have htail := ih' (fun f hf => ih f (List.mem_cons_of_mem _ hf))
          (fun f hf => hfields f (List.mem_cons_of_mem _ hf))
        rw [ofFields, fieldList?, field?_withField]
        dsimp only
        rw [toSchema?_withField, hhead, htail]
        rfl
    rw [ofSchema, toSchema?, if_neg (by decide), if_pos rfl, fieldsOf?, hlist]
    show Except.ok (Schema.ofFields fields o) = _
    rw [Schema.ofFields, NameOrder.sort_of_sorted hsorted]

/-! ### Schemas that are read -/

/-- A scale that is read fits 64 bits. -/
theorem fitsSigned_of_scale? {parameters : Option Members} {k : ℤ}
    (h : scale? parameters = .ok k) : fitsSigned 64 k = true := by
  obtain ⟨j, -, hk⟩ := scale?_eq_ok.mp h
  cases hk with
  | text spells => exact (Option.filter_eq_some_iff.mp spells).2
  | number spells => exact (Option.filter_eq_some_iff.mp spells).2

/-- A carrier has no scale, and the scale of a decimal has been read. -/
theorem travels_of_leafType? {typeName : String} {carrier t : LeafType} {name : Option String}
    {parameters : Option Members} {o : Bool} (hcarrier : LeafType.ofName? typeName = some carrier)
    (h : leafType? carrier name parameters = .ok t) : (Schema.leaf t o).Travels := by
  have hplain : (Schema.leaf carrier o).Travels := Schema.travels_of_ofName? hcarrier
  unfold leafType? at h
  -- without a logical name, or under a foreign one, the type is that of the carrier
  split at h
  · exact Except.ok.inj h ▸ hplain
  · split_ifs at h
    · obtain ⟨k, hk, rfl⟩ := Outcome.map_eq_ok.mp h
      exact fitsSigned_of_scale? hk
    · exact Except.ok.inj h ▸ trivial
    · exact Except.ok.inj h ▸ hplain

/-- **Every schema that is read travels**: it can be written and read again. Fields are put in order
as they are read, and a scale of more than 64 bits is not read. -/
theorem travels_of_toSchema? {w : WireSchema} {s : Schema} (h : toSchema? w = .ok s) :
    s.Everywhere Schema.Travels := by
  induction w using byParts generalizing s with
  | h w ih =>
    cases toSchema?_eq_ok.mp h with
    | @array item e type items read _ =>
      have hitem : item ∈ w.parts := by
        rw [parts_array type items]
        exact List.mem_singleton_self item
      exact Schema.everywhere_iff.mpr ⟨trivial, ih item hitem read⟩
    | struct _ read =>
      refine Schema.everywhere_struct.mpr ⟨NameOrder.sorted_sort _, fun f hf => ?_⟩
      -- sorting changes the order of the fields, not which there are
      obtain ⟨part, hpart, -, hf⟩ :=
        exists_of_forall₂ read ((NameOrder.sort_perm _ _).mem_iff.mp hf)
      exact ih part hpart hf
    | carrier type read => exact travels_of_leafType? type read

end WireSchema
end DocStream
