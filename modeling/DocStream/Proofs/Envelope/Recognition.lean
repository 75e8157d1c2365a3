import DocStream.Proofs.Envelope.WireTree
import DocStream.Proofs.Related

/-!
# Which schemas on the wire are read

A schema is read exactly if every node it is made of has what its type needs and says nothing that
is unknown: its type is one of eleven, and a logical name of the known family stands where it has a
meaning. Otherwise the failure is that of one of its nodes.

Structs are the exception: their logical name is not looked at, so one that has no meaning there is
dropped with the schema read all the same.

* `WireSchema.Complete`, `WireSchema.KnownName`, `WireSchema.Recognized` — what is asked of a node;
* `WireSchema.Faults` — **what is wrong with a node itself**, and the failure that says so;
* `WireSchema.sound_of_toSchema?`, `WireSchema.faults_of_toSchema?` — reading one node;
* `WireSchema.isRead_iff_recognized` — **which schemas are read**, and which are unknown;
* `WireSchema.isRead_of_misnamed` — a struct under the name of another type is read.

Faults are kept apart from failures: a fault is said of one node and of what the node has in it,
whatever is above or below. Reading fails with the fault of some node, so the two sides of the
equivalence meet in `WireSchema.Faults.cases_incomplete`, by which a node with a fault is not as it
should be.
-/

namespace DocStream.WireSchema

/-! ### What is asked of a node -/

/-- A decimal: bytes under the logical name of decimals. The same name on another type is an unknown
one. -/
def IsDecimal (w : WireSchema) : Prop := w.typeName = "bytes" ∧ w.name? = some decimalName

/-- A timestamp: a 64-bit integer under the logical name of timestamps. Only there does the name
have a meaning. -/
def IsTimestamp (w : WireSchema) : Prop := w.typeName = "int64" ∧ w.name? = some timestampName

/-- The scale among the parameters of a node, whatever it is. Without parameters there is none, and
it need not be an integer. -/
def givenScale? (w : WireSchema) : Option Json := w.parameters?.bind (Members.get? · "scale")

/-- **A node has what its type needs**: an array its items, every field of a struct its name, and a
decimal its scale. -/
structure Complete (w : WireSchema) : Prop where
  items : w.typeName = "array" → ∃ item, w.items? = some item
  names : w.typeName = "struct" → ∀ part ∈ w.parts, ∃ name, part.field? = some name
  scale : w.IsDecimal → ∃ j k, w.givenScale? = some j ∧ SpellsScale j k

/-- **A logical name of the known family is known** where it makes a node a decimal or a timestamp.
Foreign names are no matter. -/
def KnownName (w : WireSchema) : Prop :=
  ∀ name, w.name? = some name → logicalPrefix.toList <+: name.toList →
    w.IsDecimal ∨ w.IsTimestamp

/-- **A node is recognized**: its type is known, and so is its logical name unless it is a struct.
-/
structure Recognized (w : WireSchema) : Prop where
  type : w.typeName ∈ typeNames
  name : w.typeName ≠ "struct" → w.KnownName

/-! ### Faults -/

/-- **What is wrong with a node itself**, and the failure that says so. What is unknown is named: a
type by itself, a logical name with the type it stands at. -/
inductive Faults (w : WireSchema) : Error → Prop where
  | type (unknown : w.typeName ∉ typeNames) : Faults w (.unknownType w.typeName)
  | name {name : String} (noStruct : w.typeName ≠ "struct") (given : w.name? = some name)
      (family : logicalPrefix.toList <+: name.toList) (noDecimal : ¬w.IsDecimal)
      (noTimestamp : ¬w.IsTimestamp) : Faults w (.unknownType s!"{name} ({w.typeName})")
  | items (array : w.typeName = "array") (missing : w.items? = none) :
      Faults w (.missingField "items")
  | field (struct : w.typeName = "struct") {part : WireSchema} (mem : part ∈ w.parts)
      (missing : part.field? = none) : Faults w (.missingField "field")
  | noScale (decimal : w.IsDecimal) (missing : w.givenScale? = none) :
      Faults w (.missingField "parameters.scale")
  | scale (decimal : w.IsDecimal) {j : Json} (given : w.givenScale? = some j)
      (noInteger : ∀ k, ¬SpellsScale j k) : Faults w (.unhandled "decimal scale" j.kind)

variable {w n : WireSchema} {e : Error} {s : Schema}

/-- **A node with a fault lacks something, or is not recognized.** In the second case the failure is
that of an unknown type. -/
theorem Faults.cases_incomplete (h : w.Faults e) :
    ¬w.Complete ∨ (¬w.Recognized ∧ ∃ text, e = .unknownType text) := by
  cases h with
  | type unknown => exact .inr ⟨fun h => unknown h.type, _, rfl⟩
  | name noStruct given family noDecimal noTimestamp =>
    refine .inr ⟨fun h => ?_, _, rfl⟩
    exact (h.name noStruct _ given family).elim noDecimal noTimestamp
  | items array missing =>
    refine .inl fun h => ?_
    obtain ⟨item, hitem⟩ := h.items array
    exact absurd (missing.symm.trans hitem) (by simp)
  | field struct mem missing =>
    refine .inl fun h => ?_
    obtain ⟨name, hname⟩ := h.names struct _ mem
    exact absurd (missing.symm.trans hname) (by simp)
  | noScale decimal missing =>
    refine .inl fun h => ?_
    obtain ⟨j, k, hj, -⟩ := h.scale decimal
    exact absurd (missing.symm.trans hj) (by simp)
  | scale decimal given noInteger =>
    refine .inl fun h => ?_
    obtain ⟨j, k, hj, hk⟩ := h.scale decimal
    obtain rfl := Option.some.inj (given.symm.trans hj)
    exact noInteger k hk

/-! ### Logical names -/

section Carrier

variable {carrier : LeafType} (hcarrier : LeafType.ofName? w.typeName = some carrier)
include hcarrier

/-- A node with a carrier type has a known type, so nothing can be wrong with it but its logical
name and its scale. -/
theorem mem_typeNames_of_carrier : w.typeName ∈ typeNames := by
  refine List.mem_append_left _ ?_
  by_contra hmem
  exact absurd (hcarrier.symm.trans (LeafType.ofName?_eq_none_iff.mpr hmem)) (by simp)

/-- A node has the type name of a carrier exactly if that is its carrier: different carriers have
different names. -/
theorem typeName_eq_iff {t : LeafType} (h : LeafType.ofName? t.carrierName = some t) :
    w.typeName = t.carrierName ↔ carrier = t := by
  constructor
  · intro heq
    rw [heq] at hcarrier
    exact Option.some.inj (hcarrier.symm.trans h)
  · rintro rfl
    exact (LeafType.carrierName_of_ofName? hcarrier).symm

/-- **Decimals by their carrier**: the name of decimals on bytes, which is what reading a leaf type
tests. -/
theorem isDecimal_iff {name : String} (hname : w.name? = some name) :
    w.IsDecimal ↔ name = decimalName ∧ carrier = .bytes := by
  rw [IsDecimal, hname, Option.some_inj, and_comm]
  exact and_congr_right fun _ => typeName_eq_iff (t := .bytes) hcarrier rfl

/-- **Timestamps by their carrier**: the name of timestamps on 64-bit integers, which is what
reading a leaf type tests. -/
theorem isTimestamp_iff {name : String} (hname : w.name? = some name) :
    w.IsTimestamp ↔ name = timestampName ∧ carrier = .int .w64 := by
  rw [IsTimestamp, hname, Option.some_inj, and_comm]
  exact and_congr_right fun _ => typeName_eq_iff (t := .int .w64) hcarrier rfl

/-- **A leaf type is read** where its logical name is known and a decimal has its scale. -/
theorem known_of_leafType? {t : LeafType} (h : leafType? carrier w.name? w.parameters? = .ok t) :
    w.KnownName ∧ (w.IsDecimal → ∃ j k, w.givenScale? = some j ∧ SpellsScale j k) := by
  cases hname : w.name? with
  -- a node without a logical name is neither a decimal nor a timestamp, and there is no name to be
  -- known
  | none =>
    refine ⟨fun name given => ?_, fun decimal => ?_⟩
    · exact absurd (hname.symm.trans given) (by simp)
    · exact absurd (hname.symm.trans decimal.2) (by simp)
  | some name =>
    rw [hname, leafType?] at h
    rw [isDecimal_iff hcarrier hname]
    -- the two known names in turn, and then a name of another family
    split_ifs at h with hdecimal htimestamp hfamily
    · obtain ⟨k, hk, -⟩ := Outcome.map_eq_ok.mp h
      obtain ⟨j, hj, hspells⟩ := scale?_eq_ok.mp hk
      exact ⟨fun _ _ _ => .inl ((isDecimal_iff hcarrier hname).mpr hdecimal),
        fun _ => ⟨j, k, hj, hspells⟩⟩
    · exact ⟨fun _ _ _ => .inr ((isTimestamp_iff hcarrier hname).mpr htimestamp),
        fun decimal => absurd decimal hdecimal⟩
    · refine ⟨fun name' given family => absurd ?_ hfamily, fun decimal => absurd decimal hdecimal⟩
      obtain rfl := Option.some.inj (hname.symm.trans given)
      exact List.isPrefixOf_iff_prefix.mpr family

/-- **A leaf type that cannot be read is a fault of its node.** -/
theorem faults_of_leafType? (h : leafType? carrier w.name? w.parameters? = .error e) :
    w.Faults e := by
  cases hname : w.name? with
  -- without a logical name the type is the carrier itself, and reading it does not fail
  | none =>
    rw [hname] at h
    cases h
  | some name =>
    rw [hname, leafType?] at h
    have hdecimal_iff := isDecimal_iff hcarrier hname
    have htimestamp_iff := isTimestamp_iff hcarrier hname
    split_ifs at h with hdecimal htimestamp hfamily
    · have decimal := hdecimal_iff.mpr hdecimal
      -- a decimal fails by its scale only, missing or of the wrong kind
      rcases scale?_eq_error (Outcome.map_eq_error.mp h) with ⟨missing, rfl⟩ | ⟨j, given, no, rfl⟩
      · exact .noScale decimal missing
      · exact .scale decimal given no
    · obtain rfl := Except.error.inj h
      rw [LeafType.carrierName_of_ofName? hcarrier]
      exact .name (ne_of_carrier hcarrier (by decide)) hname
        (List.isPrefixOf_iff_prefix.mp hfamily)
        (fun decimal => hdecimal (hdecimal_iff.mp decimal))
        (fun timestamp => htimestamp (htimestamp_iff.mp timestamp))

end Carrier

/-! ### One node -/

/-- **A name is looked at on an array**: there, none of the known family has a meaning. -/
theorem checkArrayName_eq_ok {name? : Option String} :
    checkArrayName name? = .ok () ↔
      ∀ name, name? = some name → ¬logicalPrefix.toList <+: name.toList := by
  cases name? with
  | none => simp [checkArrayName]
  | some name =>
    rw [checkArrayName]
    simp only [Option.some.injEq, forall_eq', ← List.isPrefixOf_iff_prefix]
    split_ifs with h <;> simp [h]

/-- A name of the known family is a fault of an array, and the failure names it together with the
type. -/
theorem faults_of_checkArrayName (htype : w.typeName = "array")
    (h : checkArrayName w.name? = .error e) : w.Faults e := by
  cases hname : w.name? with
  | none =>
    rw [hname] at h
    cases h
  | some name =>
    rw [hname, checkArrayName] at h
    split_ifs at h with hfamily
    -- the failure names the type in its text
    have htext : s!"{name} (array)" = s!"{name} ({w.typeName})" := by
      rw [htype, String.append_assoc, String.append_assoc]
      rfl
    obtain rfl := Except.error.inj h
    rw [htext]
    exact .name (htype.trans_ne (by decide)) hname (List.isPrefixOf_iff_prefix.mp hfamily)
      (fun decimal => htype.trans_ne (by decide) decimal.1)
      (fun timestamp => htype.trans_ne (by decide) timestamp.1)

/-- **A node that is read** has what its type needs and is recognized. -/
theorem sound_of_toSchema? (h : w.toSchema? = .ok s) : w.Complete ∧ w.Recognized := by
  cases toSchema?_eq_ok.mp h with
  -- in each case what is asked of the two other kinds of node holds of none
  | @array item e type items read name =>
    refine ⟨⟨fun _ => ⟨item, items⟩, fun hstruct => ?_, fun decimal => ?_⟩, ?_, fun _ => ?_⟩
    · exact absurd hstruct (type.trans_ne (by decide))
    · exact absurd decimal.1 (type.trans_ne (by decide))
    · rw [type]
      decide
    · -- on an array no name of the known family gets through
      exact fun name' given family => absurd family (checkArrayName_eq_ok.mp name name' given)
  | struct type read =>
    refine ⟨⟨fun harray => ?_, fun _ part hpart => ?_, fun decimal => ?_⟩, ?_, ?_⟩
    · exact absurd harray (type.trans_ne (by decide))
    · obtain ⟨f, -, hname, -⟩ := exists_of_forall₂ read.flip hpart
      exact ⟨f.1, hname⟩
    · exact absurd decimal.1 (type.trans_ne (by decide))
    · rw [type]
      decide
    · -- the name of a struct is not looked at
      exact fun hno => absurd type hno
  | carrier type read =>
    obtain ⟨hknown, hscale⟩ := known_of_leafType? type read
    refine ⟨⟨fun harray => ?_, fun hstruct => ?_, hscale⟩, ?_, fun _ => hknown⟩
    · exact absurd harray (ne_of_carrier type (by decide))
    · exact absurd hstruct (ne_of_carrier type (by decide))
    · exact mem_typeNames_of_carrier type

/-- **A node that cannot be read** has a fault, or one of its parts cannot be read. -/
theorem faults_of_toSchema? (h : w.toSchema? = .error e) :
    w.Faults e ∨ ∃ part ∈ w.parts, part.toSchema? = .error e := by
  rcases w.typeName_cases with htype | htype | ⟨carrier, hcarrier⟩ | htype
  · -- an array: its items are read first, then its name is looked at
    rw [toSchema?_array htype] at h
    rcases Outcome.bind_eq_error.mp h with hitems | ⟨_, -, h⟩
    · cases hitem : w.items? with
      | none =>
        rw [hitem] at hitems
        obtain rfl := Except.error.inj hitems
        exact .inl (.items htype hitem)
      | some item =>
        rw [hitem] at hitems
        refine .inr ⟨item, ?_, hitems⟩
        rw [parts_array htype hitem]
        exact List.mem_singleton_self item
    · exact .inl (faults_of_checkArrayName htype (Outcome.map_eq_error.mp h))
  · rw [toSchema?_struct htype] at h
    obtain ⟨part, hmem, ⟨missing, rfl⟩ | hpart⟩ := fieldList?_eq_error (Outcome.map_eq_error.mp h)
    · exact .inl (.field htype hmem missing)
    · exact .inr ⟨part, hmem, hpart⟩
  · rw [toSchema?_carrier hcarrier] at h
    exact .inl (faults_of_leafType? hcarrier (Outcome.map_eq_error.mp h))
  · rw [toSchema?_unknown htype] at h
    obtain rfl := Except.error.inj h
    exact .inl (.type htype)

/-! ### A whole schema -/

/-- **A schema that is read** has nothing missing in any of its nodes, and all of them are
recognized. -/
theorem sound_of_reaches (h : w.toSchema? = .ok s) (hn : w.Reaches n) :
    n.Complete ∧ n.Recognized := by
  -- by induction on the way down: a schema is read only if its parts are
  induction hn generalizing s with
  | refl w => exact sound_of_toSchema? h
  | step mem _ ih =>
    obtain ⟨t, ht⟩ := exists_of_mem_parts h mem
    exact ih ht

/-- **A schema that cannot be read** has a node with a fault, and the failure is that of the node.
-/
theorem exists_faults_of_toSchema? (h : w.toSchema? = .error e) :
    ∃ n, w.Reaches n ∧ n.Faults e := by
  -- by induction along the parts, as the failure may come from any of them
  induction w using byParts with
  | h w ih =>
    rcases faults_of_toSchema? h with hfault | ⟨part, hmem, hpart⟩
    · exact ⟨w, .refl w, hfault⟩
    · obtain ⟨n, hn, hfault⟩ := ih part hmem hpart
      exact ⟨n, .step hmem hn, hfault⟩

/-- **Which schemas are read**: those whose nodes all have what their types need and are recognized.
**Where nothing is missing** and some node is not recognized, the failure is that of an unknown
type, and it names the type, or the logical name and the type, of such a node. -/
theorem isRead_iff_recognized (w : WireSchema) :
    ((∃ s, w.toSchema? = .ok s) ↔ ∀ n, w.Reaches n → n.Complete ∧ n.Recognized) ∧
      ((∀ n, w.Reaches n → n.Complete) → (∃ n, w.Reaches n ∧ ¬n.Recognized) →
        ∃ n text, w.Reaches n ∧ n.Faults (.unknownType text) ∧
          w.toSchema? = .error (.unknownType text)) := by
  refine ⟨⟨?_, fun hsound => ?_⟩, fun hcomplete hunrecognized => ?_⟩
  · rintro ⟨s, hs⟩ n hn
    exact sound_of_reaches hs hn
  · -- a failure would come from a node that lacks something or is not recognized
    cases h : w.toSchema? with
    | ok s => exact ⟨s, rfl⟩
    | error e =>
      obtain ⟨n, hn, hfault⟩ := exists_faults_of_toSchema? h
      rcases hfault.cases_incomplete with hno | ⟨hno, -⟩
      · exact absurd (hsound n hn).1 hno
      · exact absurd (hsound n hn).2 hno
  · cases h : w.toSchema? with
    | ok s =>
      -- a schema that is read has no unrecognized node
      obtain ⟨n, hn, hno⟩ := hunrecognized
      exact absurd (sound_of_reaches h hn).2 hno
    | error e =>
      -- the fault is no lack, as nothing is missing, so it is an unknown type
      obtain ⟨n, hn, hfault⟩ := exists_faults_of_toSchema? h
      rcases hfault.cases_incomplete with hno | ⟨-, text, rfl⟩
      · exact absurd (hcomplete n hn) hno
      · exact ⟨n, text, hn, hfault, rfl⟩

/-- A date is no known type, wherever it is: here in a field of a struct. -/
theorem isRead_iff_recognized_date :
    let date := node "int32" false (some "d") (some "org.apache.kafka.connect.data.Date") none
      none none
    let w := node "struct" false none none none (some [date]) none
    (∀ n, w.Reaches n → n.Complete) ∧ (w.Reaches date ∧ ¬date.Recognized) ∧
      ∃ n text, w.Reaches n ∧ n.Faults (.unknownType text) ∧
        w.toSchema? = .error (.unknownType text) := by
  intro date w
  have hcomplete : ∀ n, w.Reaches n → n.Complete := by
    intro n hn
    rcases reaches_iff.mp hn with rfl | ⟨part, hpart, hn⟩
    · refine ⟨fun h => absurd h (by decide), fun _ part hpart => ?_, fun h => ?_⟩
      · obtain rfl := List.mem_singleton.mp hpart
        exact ⟨"d", rfl⟩
      · exact absurd h.1 (by decide)
    · obtain rfl := List.mem_singleton.mp hpart
      rcases reaches_iff.mp hn with rfl | ⟨part, hpart, -⟩
      · exact ⟨fun h => absurd h (by decide), fun h => absurd h (by decide),
          fun h => absurd h.1 (by decide)⟩
      · exact absurd hpart List.not_mem_nil
  have hreaches : w.Reaches date := .step (List.mem_singleton_self date) (.refl date)
  have hdate : ¬date.Recognized := by
    intro h
    rcases h.name (by decide) _ rfl (by decide) with h | h
    · exact absurd h.1 (by decide)
    · exact absurd h.1 (by decide)
  exact ⟨hcomplete, ⟨hreaches, hdate⟩,
    (isRead_iff_recognized w).2 hcomplete ⟨date, hreaches, hdate⟩⟩

/-- **A struct under the name of another type is read**, and the name is dropped. So the nodes of a
schema that is read need not all have known names, not even where nothing else is wrong. -/
theorem isRead_of_misnamed :
    let w := node "struct" false none (some "org.apache.kafka.connect.data.Date") none (some [])
      none
    (∀ n, w.Reaches n → n.Complete ∧ n.typeName ∈ typeNames) ∧ ¬w.KnownName ∧
      w.toSchema? = .ok (.struct [] false) := by
  intro w
  refine ⟨fun n hn => ?_, fun h => ?_, rfl⟩
  · rcases reaches_iff.mp hn with rfl | ⟨part, hpart, -⟩
    · refine ⟨⟨fun h => absurd h (by decide), fun _ part hpart => ?_, fun h => ?_⟩, by decide⟩
      · exact absurd hpart List.not_mem_nil
      · exact absurd h.1 (by decide)
    · exact absurd hpart List.not_mem_nil
  · rcases h _ rfl (by decide) with h | h
    · exact absurd h.1 (by decide)
    · exact absurd h.1 (by decide)

end DocStream.WireSchema
