import DocStream.Envelope.WireSchema
import DocStream.Proofs.Outcome

/-!
# Nodes of a schema on the wire

Of the members that a node may have, its type decides which count: an array is made of its items, a
struct of the nodes of its fields, and every other type of no further node. Reading a schema follows
these parts, so what is said of a read schema is proved for a node from its parts.

* `WireSchema.parts` — **the parts of a node**, and `WireSchema.byParts`, induction along them;
* `WireSchema.Reaches` — a node and the nodes it is made of, however deep;
* `WireSchema.SpellsScale`, `WireSchema.scale?_eq_ok` — reading the scale of a decimal;
* `WireSchema.fieldList?_eq_ok`, `WireSchema.fieldList?_eq_error` — reading the fields of a struct;
* `WireSchema.ReadsAs` — **what a node is read as**, once its parts have been read.

A node has its type as a text, so the type may be anything. `WireSchema.typeName_cases` splits on it
once, and there is one equation for `WireSchema.toSchema?` in each of the four cases. What follows
uses `WireSchema.ReadsAs` and the parts, and does not look at the reading again.
-/

namespace DocStream

/-- The names of the carrier types, which are the leaf types that a node can have by itself.
Decimals and timestamps are carried by two of them. -/
def LeafType.carrierNames : List String :=
  ["boolean", "int8", "int16", "int32", "int64", "float32", "float64", "string", "bytes"]

/-- The names of the carrier types are those under which one is found. -/
theorem LeafType.ofName?_eq_none_iff {name : String} :
    ofName? name = none ↔ name ∉ carrierNames := by
  unfold ofName?
  split <;> simp_all [carrierNames]

/-- A carrier type is found under its own name only. -/
theorem LeafType.carrierName_of_ofName? {name : String} {t : LeafType}
    (h : ofName? name = some t) : t.carrierName = name := by
  unfold ofName? at h
  split at h <;> cases h <;> rfl

namespace WireSchema

/-- The names of the types: the carrier types, arrays and structs. -/
def typeNames : List String := LeafType.carrierNames ++ ["array", "struct"]

/-! ### Nodes -/

def isOptional : WireSchema → Bool
  | node _ o _ _ _ _ _ => o

/-- The logical name of a node. -/
def name? : WireSchema → Option String
  | node _ _ _ n _ _ _ => n

def parameters? : WireSchema → Option Members
  | node _ _ _ _ p _ _ => p

def items? : WireSchema → Option WireSchema
  | node _ _ _ _ _ _ i => i

/-- A type is an array, a struct, a carrier type or unknown. -/
theorem typeName_cases (w : WireSchema) :
    w.typeName = "array" ∨ w.typeName = "struct" ∨
      (∃ carrier, LeafType.ofName? w.typeName = some carrier) ∨ w.typeName ∉ typeNames := by
  by_cases hcarrier : w.typeName ∈ LeafType.carrierNames
  · -- a name of the list is that of a carrier type
    refine .inr (.inr (.inl (Option.ne_none_iff_exists'.mp fun hnone => ?_)))
    exact LeafType.ofName?_eq_none_iff.mp hnone hcarrier
  · simp only [typeNames, List.mem_append, List.mem_cons, List.not_mem_nil, or_false, hcarrier,
      false_or, not_or]
    tauto

/-- A carrier type has none of the other names. -/
theorem ne_of_carrier {name other : String} {carrier : LeafType}
    (h : LeafType.ofName? name = some carrier) (hother : LeafType.ofName? other = none) :
    name ≠ other := by
  rintro rfl
  exact absurd (h.symm.trans hother) (by simp)

/-- **The parts of a node**: the items of an array, and the fields of a struct. Fields of an array,
items of a struct, and either of any other type are not looked at. -/
def parts : WireSchema → List WireSchema
  | node typeName _ _ _ _ fields items =>
    if typeName = "array" then items.toList
    else if typeName = "struct" then fields.getD []
    else []

theorem parts_array {w item : WireSchema} (h : w.typeName = "array")
    (hitem : w.items? = some item) : w.parts = [item] := by
  obtain ⟨t, o, f, n, p, fs, i⟩ := w
  obtain rfl : i = some item := hitem
  exact if_pos h

/-- A node with a carrier type has no parts, whatever fields and items are given in it. -/
theorem parts_carrier {w : WireSchema} {carrier : LeafType}
    (h : LeafType.ofName? w.typeName = some carrier) : w.parts = [] := by
  obtain ⟨t, o, f, n, p, fs, i⟩ := w
  exact (if_neg (ne_of_carrier h (by decide))).trans (if_neg (ne_of_carrier h (by decide)))

/-- A part is smaller than its node, so induction along the parts is well founded. -/
theorem sizeOf_part_lt {w part : WireSchema} (h : part ∈ w.parts) : sizeOf part < sizeOf w := by
  obtain ⟨t, o, f, n, p, fs, i⟩ := w
  rw [parts] at h
  simp only [node.sizeOf_spec]
  -- a part is a subterm of the items, or of the list of fields
  split_ifs at h
  · obtain rfl := Option.mem_toList.mp h
    simp only [Option.some.sizeOf_spec]
    omega
  · cases fs with
    | none => exact absurd h List.not_mem_nil
    | some ws =>
      have hlt := List.sizeOf_lt_of_mem h
      simp only [Option.some.sizeOf_spec]
      simp only [Option.getD_some] at hlt
      omega
  · exact absurd h List.not_mem_nil

/-- **Induction along the parts of a node.** -/
theorem byParts {P : WireSchema → Prop} (h : ∀ w, (∀ part ∈ w.parts, P part) → P w)
    (w : WireSchema) : P w :=
  h w fun part _ => byParts h part
termination_by sizeOf w
decreasing_by exact sizeOf_part_lt ‹_›

/-- **The nodes that a node is made of**: itself, its parts, and the nodes those are made of. Nodes
that are given where the type does not ask for them are not among these. -/
inductive Reaches : WireSchema → WireSchema → Prop where
  | refl (w : WireSchema) : Reaches w w
  | step {w part n : WireSchema} (mem : part ∈ w.parts) (reaches : Reaches part n) : Reaches w n

theorem reaches_iff {w n : WireSchema} :
    w.Reaches n ↔ n = w ∨ ∃ part ∈ w.parts, part.Reaches n := by
  constructor
  · rintro (_ | ⟨mem, reaches⟩)
    · exact .inl rfl
    · exact .inr ⟨_, mem, reaches⟩
  · rintro (rfl | ⟨part, mem, reaches⟩)
    · exact .refl n
    · exact .step mem reaches

/-! ### Scales -/

/-- **A scale**: an integer of 64 bits, spelled in a text or as a number. -/
inductive SpellsScale : Json → Int → Prop where
  | text {s : String} {k : Int} (spells : Digits.signed64? s = some k) : SpellsScale (.str s) k
  | number {n : Numeral} {k : Int} (spells : n.toInt64? = some k) : SpellsScale (.num n) k

variable {parameters : Option Members}

/-- **A scale is read** if it is given and spelled as one. -/
theorem scale?_eq_ok {k : Int} : scale? parameters = .ok k ↔
    ∃ j, parameters.bind (Members.get? · "scale") = some j ∧ SpellsScale j k := by
  rw [scale?]
  constructor
  · intro h
    split at h
    · cases h
    · next j hj =>
      dsimp only at h
      split at h
      · next k' hk =>
        obtain rfl := Except.ok.inj h
        refine ⟨j, hj, ?_⟩
        -- nothing but a text or a number spells a scale
        cases j with
        | str s => exact .text hk
        | num n => exact .number hk
        | null | bool | arr | obj => cases hk
      · cases h
  · rintro ⟨j, hj, hk⟩
    rw [hj]
    cases hk with
    | text spells =>
      dsimp only
      rw [spells]
    | number spells =>
      dsimp only [Json.int64?]
      rw [spells]

/-- Otherwise it is missing, or it is no such integer. -/
theorem scale?_eq_error {e : Error} (h : scale? parameters = .error e) :
    (parameters.bind (Members.get? · "scale") = none ∧ e = .missingField "parameters.scale") ∨
      ∃ j, parameters.bind (Members.get? · "scale") = some j ∧ (∀ k, ¬SpellsScale j k) ∧
        e = .unhandled "decimal scale" j.kind := by
  cases hj : parameters.bind (Members.get? · "scale") with
  | none =>
    rw [scale?, hj] at h
    exact .inl ⟨rfl, (Except.error.inj h).symm⟩
  | some j =>
    refine .inr ⟨j, rfl, fun k hk => ?_, ?_⟩
    · -- a scale that is spelled would have been read
      have hread := scale?_eq_ok.mpr ⟨j, hj, hk⟩
      exact absurd (hread.symm.trans h) (by simp)
    · rw [scale?, hj] at h
      dsimp only at h
      split at h
      · cases h
      · exact (Except.error.inj h).symm

/-! ### Reading fields -/

/-- **The fields of a struct are read** one by one, each under the name in its node. -/
theorem fieldList?_eq_ok {ws : List WireSchema} {fields : List Field} :
    fieldList? ws = .ok fields ↔
      List.Forall₂ (fun w f => w.field? = some f.1 ∧ w.toSchema? = .ok f.2) ws fields := by
  induction ws generalizing fields with
  | nil =>
    rw [fieldList?, List.forall₂_nil_left_iff]
    exact ⟨fun h => (Except.ok.inj h).symm, fun h => congrArg _ h.symm⟩
  | cons w rest ih =>
    rw [fieldList?]
    cases hname : w.field? with
    | none =>
      -- a node without a name ends the reading, and no field can stand beside it
      refine iff_of_false (by rintro ⟨⟩) fun h => ?_
      cases h with
      | cons hhead _ => exact absurd (hname.symm.trans hhead.1) (by simp)
    | some name =>
      dsimp only
      constructor
      · intro h
        obtain ⟨s, hs, h⟩ := Outcome.bind_eq_ok.mp h
        obtain ⟨more, hmore, h⟩ := Outcome.bind_eq_ok.mp h
        obtain rfl := Except.ok.inj h
        exact .cons ⟨hname, hs⟩ (ih.mp hmore)
      · intro h
        cases h with
        | @cons _ f _ more hhead htail =>
          obtain rfl : name = f.1 := Option.some.inj (hname.symm.trans hhead.1)
          exact Outcome.bind_eq_ok.mpr
            ⟨f.2, hhead.2, Outcome.bind_eq_ok.mpr ⟨more, ih.mpr htail, rfl⟩⟩

/-- **The fields of a struct cannot be read** for want of a name, or because one of them cannot. -/
theorem fieldList?_eq_error {ws : List WireSchema} {e : Error} (h : fieldList? ws = .error e) :
    ∃ w ∈ ws, (w.field? = none ∧ e = .missingField "field") ∨ w.toSchema? = .error e := by
  induction ws with
  | nil => cases h
  | cons w rest ih =>
    rw [fieldList?] at h
    cases hname : w.field? with
    | none =>
      rw [hname] at h
      exact ⟨w, List.mem_cons_self, .inl ⟨hname, (Except.error.inj h).symm⟩⟩
    | some name =>
      rw [hname] at h
      -- the name is there, so the failure is that of this node or comes from a later one
      rcases Outcome.bind_eq_error.mp h with hs | ⟨s, -, h⟩
      · exact ⟨w, List.mem_cons_self, .inr hs⟩
      · rcases Outcome.bind_eq_error.mp h with hmore | ⟨more, -, h⟩
        · obtain ⟨w', hw', hfault⟩ := ih hmore
          exact ⟨w', List.mem_cons_of_mem w hw', hfault⟩
        · cases h

/-! ### Reading a node -/

variable {w : WireSchema} {s : Schema}

/-- An array is read from its items first, and then its name is looked at. -/
theorem toSchema?_array (h : w.typeName = "array") :
    w.toSchema? = itemsSchema? w.items? >>= fun e =>
      (fun _ => .array e w.isOptional) <$> checkArrayName w.name? := by
  obtain ⟨t, o, f, n, p, fs, i⟩ := w
  obtain rfl : t = "array" := h
  rw [toSchema?, if_pos rfl]
  rfl

/-- A struct is read from the nodes of its fields, and its name is not looked at. -/
theorem toSchema?_struct (h : w.typeName = "struct") :
    w.toSchema? = (Schema.ofFields · w.isOptional) <$> fieldList? w.parts := by
  obtain ⟨t, o, f, n, p, fs, i⟩ := w
  obtain rfl : t = "struct" := h
  rw [toSchema?, if_neg (by decide), if_pos rfl]
  cases fs <;> rfl

/-- A node with a carrier type is read as its logical name and parameters say. -/
theorem toSchema?_carrier {carrier : LeafType} (h : LeafType.ofName? w.typeName = some carrier) :
    w.toSchema? = (Schema.leaf · w.isOptional) <$> leafType? carrier w.name? w.parameters? := by
  obtain ⟨t, o, f, n, p, fs, i⟩ := w
  change LeafType.ofName? t = some carrier at h
  rw [toSchema?, if_neg (ne_of_carrier h (by decide)), if_neg (ne_of_carrier h (by decide)), h]
  rfl

/-- A node of any other type is not read, and the failure names the type. -/
theorem toSchema?_unknown (h : w.typeName ∉ typeNames) :
    w.toSchema? = .error (.unknownType w.typeName) := by
  obtain ⟨t, o, f, n, p, fs, i⟩ := w
  change t ∉ typeNames at h
  simp only [typeNames, List.mem_append, List.mem_cons, List.not_mem_nil, or_false, not_or] at h
  rw [toSchema?, if_neg h.2.1, if_neg h.2.2, LeafType.ofName?_eq_none_iff.mpr h.1]
  rfl

/-- **What a node is read as**: an array of what its items are read as, a struct of the fields that
its parts are read as, or a leaf. In a struct, the order of the fields is that of their names and
not that of the parts. -/
inductive ReadsAs (w : WireSchema) : Schema → Prop where
  | array {item : WireSchema} {e : Schema} (type : w.typeName = "array")
      (items : w.items? = some item) (read : item.toSchema? = .ok e)
      (name : checkArrayName w.name? = .ok ()) : ReadsAs w (.array e w.isOptional)
  | struct {fields : List Field} (type : w.typeName = "struct")
      (read : List.Forall₂ (fun part f => part.field? = some f.1 ∧ part.toSchema? = .ok f.2)
        w.parts fields) : ReadsAs w (.ofFields fields w.isOptional)
  | carrier {carrier t : LeafType} (type : LeafType.ofName? w.typeName = some carrier)
      (read : leafType? carrier w.name? w.parameters? = .ok t) : ReadsAs w (.leaf t w.isOptional)

/-- **Reading a node, case by case.** The equations above say what each type is read as, and the
relation says it of all of them, success only. -/
theorem toSchema?_eq_ok : w.toSchema? = .ok s ↔ w.ReadsAs s := by
  constructor
  · intro h
    -- one case for each constructor, and an unknown type is not read
    rcases w.typeName_cases with htype | htype | ⟨carrier, htype⟩ | htype
    · rw [toSchema?_array htype] at h
      obtain ⟨e, he, h⟩ := Outcome.bind_eq_ok.mp h
      obtain ⟨⟨⟩, hname, rfl⟩ := Outcome.map_eq_ok.mp h
      -- without items nothing would have been read
      cases hitem : w.items? with
      | none =>
        rw [hitem] at he
        cases he
      | some item =>
        rw [hitem] at he
        exact .array htype hitem he hname
    · rw [toSchema?_struct htype] at h
      obtain ⟨fields, hfields, rfl⟩ := Outcome.map_eq_ok.mp h
      exact .struct htype (fieldList?_eq_ok.mp hfields)
    · rw [toSchema?_carrier htype] at h
      obtain ⟨t, ht, rfl⟩ := Outcome.map_eq_ok.mp h
      exact .carrier htype ht
    · rw [toSchema?_unknown htype] at h
      cases h
  · intro h
    cases h with
    | array type items read name =>
      rw [toSchema?_array type, items]
      exact Outcome.bind_eq_ok.mpr ⟨_, read, Outcome.map_eq_ok.mpr ⟨(), name, rfl⟩⟩
    | struct type read =>
      rw [toSchema?_struct type]
      exact Outcome.map_eq_ok.mpr ⟨_, fieldList?_eq_ok.mpr read, rfl⟩
    | carrier type read =>
      rw [toSchema?_carrier type]
      exact Outcome.map_eq_ok.mpr ⟨_, read, rfl⟩

/-- The parts of a node that is read are read. -/
theorem exists_of_mem_parts (h : w.toSchema? = .ok s) {part : WireSchema} (hpart : part ∈ w.parts) :
    ∃ t, part.toSchema? = .ok t := by
  cases toSchema?_eq_ok.mp h with
  | array type items read _ =>
    rw [parts_array type items] at hpart
    obtain rfl := List.mem_singleton.mp hpart
    exact ⟨_, read⟩
  | struct _ read =>
    obtain ⟨f, -, -, hf⟩ := exists_of_forall₂ read.flip hpart
    exact ⟨f.2, hf⟩
  | carrier type _ =>
    rw [parts_carrier type] at hpart
    exact absurd hpart List.not_mem_nil

end WireSchema
end DocStream
