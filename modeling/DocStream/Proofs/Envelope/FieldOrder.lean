import DocStream.Proofs.Convert.Flattening
import DocStream.Proofs.Convert.Reconciling
import DocStream.Proofs.Envelope.Wire
import DocStream.Proofs.Value.Access

/-!
# The order of fields

Wherever a schema comes from, its fields are in the order of their names. Documents, merges and
flattened records give every name to one field only; schemas from the wire do so if their structs
name no field twice. Where the names are distinct, every name reaches its field, and the order in
which the fields were given is lost. Where two fields have one name, the order in which they came is
kept, and the name reaches the first of them.

* `WireSchema.DistinctNames` — no struct of a schema on the wire names two fields alike;
* `WireSchema.wellFormed_iff_of_toSchema?` — **what is read is well-formed exactly then**;
* `WireSchema.Reorders` — fields given in another order, in any number of structs;
* `WireSchema.Reorders.exists_toSchema?` — **what is read from them**;
* `Schema.Produced` — the schemas that come from outside;
* `Schema.produced_inOrder` — **all of it**, for every such schema;
* `WireSchema.not_inOrder_of_repeated` — a struct that names two fields alike.

Sorting is stable, so two lists of fields that are permutations of each other are sorted to the same
list if their names are distinct, and need not be otherwise. That is all there is to it at one
struct; the rest is to lift it through a schema on the wire, along `WireSchema.Reorders`, and to see
that every other source of schemas sorts distinct names.
-/

namespace DocStream

namespace WireSchema

/-! ### Distinct names -/

/-- **No struct names two fields alike**, in a schema on the wire. -/
def DistinctNames (w : WireSchema) : Prop :=
  ∀ n, w.Reaches n → n.typeName = "struct" → (n.parts.map field?).Nodup

variable {w w' : WireSchema} {s : Schema}

/-- Distinct names everywhere are distinct names at the root and everywhere in the parts. -/
theorem distinctNames_iff : w.DistinctNames ↔
    (w.typeName = "struct" → (w.parts.map field?).Nodup) ∧
      ∀ part ∈ w.parts, part.DistinctNames := by
  constructor
  · intro h
    exact ⟨h w (.refl w), fun part hpart n hn => h n (.step hpart hn)⟩
  · rintro ⟨hroot, hparts⟩ n hn
    rcases reaches_iff.mp hn with rfl | ⟨part, hpart, hn⟩
    · exact hroot
    · exact hparts part hpart n hn

/-- **A schema that is read is well-formed** exactly if no struct of it names two fields alike: the
fields have been sorted, so their names ascend if they are distinct. -/
theorem wellFormed_iff_of_toSchema? (h : w.toSchema? = .ok s) :
    s.WellFormed ↔ w.DistinctNames := by
  induction w using byParts generalizing s with
  | h w ih =>
    rw [distinctNames_iff]
    cases toSchema?_eq_ok.mp h with
    | @array item e type items read _ =>
      have hno : w.typeName ≠ "struct" := type.trans_ne (by decide)
      rw [parts_array type items] at ih ⊢
      rw [List.forall_mem_singleton, ← ih item (List.mem_singleton_self item) read]
      exact ⟨fun he => ⟨fun hstruct => absurd hstruct hno, he⟩, And.right⟩
    | @struct fields type read =>
      -- the names in the nodes are those of the fields, which are in another order only
      have hnames : w.parts.map field? = (fields.map Prod.fst).map some := by
        rw [List.map_map]
        exact map_eq_map_of_forall₂ (read.imp fun _ _ hpart => hpart.1)
      -- the fields and the parts of the node go along, each with the schema read from it
      have hparts : (∀ f ∈ fields, f.2.WellFormed) ↔ ∀ part ∈ w.parts, part.DistinctNames := by
        constructor
        · intro hfields part hpart
          obtain ⟨f, hf, -, hpart'⟩ := exists_of_forall₂ read.flip hpart
          exact (ih part hpart hpart').mp (hfields f hf)
        · intro hparts f hf
          obtain ⟨part, hpart, -, hf'⟩ := exists_of_forall₂ read hf
          exact (ih part hpart hf').mpr (hparts part hpart)
      rw [Schema.wellFormed_ofFields, hparts, hnames, List.nodup_map_iff (Option.some_injective _)]
      simp only [type, forall_const]
    | carrier type _ =>
      -- a leaf has no fields, and its node has no parts
      rw [parts_carrier type]
      refine iff_of_true trivial ⟨fun hstruct => ?_, fun part hpart => ?_⟩
      · exact absurd hstruct (ne_of_carrier type (by decide))
      · exact absurd hpart List.not_mem_nil

/-! ### Other orders -/

/-- **Fields in another order**, in any number of structs at any depth: what can be reached by
reordering the list of fields of a node, a node in such a list, or the items of a node. -/
inductive Reorders : WireSchema → WireSchema → Prop where
  | refl (w : WireSchema) : Reorders w w
  | trans {w w' w'' : WireSchema} (first : Reorders w w') (second : Reorders w' w'') :
      Reorders w w''
  | fields {t : String} {o : Bool} {field name : Option String} {parameters : Option Members}
      {fields fields' : List WireSchema} {items : Option WireSchema} (perm : fields.Perm fields') :
      Reorders (node t o field name parameters (some fields) items)
        (node t o field name parameters (some fields') items)
  | field {t : String} {o : Bool} {field name : Option String} {parameters : Option Members}
      {before after : List WireSchema} {part part' : WireSchema} {items : Option WireSchema}
      (inside : Reorders part part') :
      Reorders (node t o field name parameters (some (before ++ part :: after)) items)
        (node t o field name parameters (some (before ++ part' :: after)) items)
  | items {t : String} {o : Bool} {field name : Option String} {parameters : Option Members}
      {fields : Option (List WireSchema)} {item item' : WireSchema}
      (inside : Reorders item item') :
      Reorders (node t o field name parameters fields (some item))
        (node t o field name parameters fields (some item'))

/-- The field that a node describes is the same. -/
theorem Reorders.field?_eq (h : Reorders w w') : w'.field? = w.field? := by
  induction h with
  | refl w => rfl
  | trans _ _ ih ih' => exact ih'.trans ih
  | fields perm => rfl
  | field _ ih => rfl
  | items _ ih => rfl

/-- Only a struct has fields. -/
theorem toSchema?_fields {t : String} (h : t ≠ "struct") (o : Bool) (field name : Option String)
    (parameters : Option Members) (fields fields' : Option (List WireSchema))
    (items : Option WireSchema) :
    (node t o field name parameters fields items).toSchema? =
      (node t o field name parameters fields' items).toSchema? := by
  rw [toSchema?, toSchema?, if_neg h, if_neg h]

/-- Only an array has items. -/
theorem toSchema?_items {t : String} (h : t ≠ "array") (o : Bool) (field name : Option String)
    (parameters : Option Members) (fields : Option (List WireSchema))
    (items items' : Option WireSchema) :
    (node t o field name parameters fields items).toSchema? =
      (node t o field name parameters fields items').toSchema? := by
  rw [toSchema?, toSchema?, if_neg h, if_neg h]

/-- **A node among the fields of a struct**: if it is read as something else, that changes its field
and no other. -/
theorem fieldList?_replace {before after : List WireSchema} {part part' : WireSchema}
    {fs : List Field} (hfield : part'.field? = part.field?)
    (h : fieldList? (before ++ part :: after) = .ok fs) :
    ∃ f done more, fs = done ++ f :: more ∧ part.toSchema? = .ok f.2 ∧
      ∀ s', part'.toSchema? = .ok s' →
        fieldList? (before ++ part' :: after) = .ok (done ++ (f.1, s') :: more) := by
  -- the fields are cut where the nodes are
  have hfs := (fieldList?_eq_ok.mp h).flip
  have hbefore := List.forall₂_take_append fs before (part :: after) hfs
  have hafter := List.forall₂_drop_append fs before (part :: after) hfs
  obtain ⟨f, more, ⟨hname, hf⟩, hmore, hdrop⟩ := List.forall₂_cons_right_iff.mp hafter
  refine ⟨f, fs.take before.length, more, ?_, hf, fun s' hs' => fieldList?_eq_ok.mpr ?_⟩
  · rw [← hdrop, List.take_append_drop]
  · exact List.rel_append hbefore.flip (.cons ⟨hfield.trans hname, hs'⟩ hmore.flip)

/-- **What is read from fields in another order**: something, if anything is read from them in the
given order, and the same if that is well-formed. -/
theorem Reorders.exists_toSchema? (h : w.Reorders w') (hs : w.toSchema? = .ok s) :
    ∃ s', w'.toSchema? = .ok s' ∧ (s.WellFormed → s' = s) := by
  induction h generalizing s with
  | refl w => exact ⟨s, hs, fun _ => rfl⟩
  | trans _ _ ih ih' =>
    -- what is read after the first reordering is well-formed again, for it is the same
    obtain ⟨s', hs', heq⟩ := ih hs
    obtain ⟨s'', hs'', heq'⟩ := ih' hs'
    refine ⟨s'', hs'', fun hwf => ?_⟩
    obtain rfl := heq hwf
    exact heq' hwf
  | @fields t o field name parameters fields fields' items perm =>
    by_cases htype : t = "struct"
    · subst htype
      rw [toSchema?_struct rfl] at hs ⊢
      obtain ⟨fs, hfs, rfl⟩ := Outcome.map_eq_ok.mp hs
      -- the fields are read in the other order
      obtain ⟨fs', hfs', hperm⟩ := List.perm_comp_forall₂ perm.symm (fieldList?_eq_ok.mp hfs)
      refine ⟨_, Outcome.map_eq_ok.mpr ⟨fs', fieldList?_eq_ok.mpr hfs', rfl⟩, fun hwf => ?_⟩
      exact (Schema.ofFields_eq_of_perm hperm.symm (Schema.wellFormed_ofFields.mp hwf).1).symm
    · exact ⟨s, (toSchema?_fields htype ..).symm.trans hs, fun _ => rfl⟩
  -- a part is replaced by one from which something else may be read, unless what was read is
  -- well-formed
  | @field t o field name parameters before after part part' items inside ih =>
    by_cases htype : t = "struct"
    · subst htype
      rw [toSchema?_struct rfl] at hs ⊢
      obtain ⟨fs, hfs, rfl⟩ := Outcome.map_eq_ok.mp hs
      obtain ⟨f, done, more, rfl, hf, hreplace⟩ := fieldList?_replace inside.field?_eq hfs
      obtain ⟨s', hs', heq⟩ := ih hf
      refine ⟨_, Outcome.map_eq_ok.mpr ⟨_, hreplace s' hs', rfl⟩, fun hwf => ?_⟩
      have hmem : f ∈ done ++ f :: more := List.mem_append_right _ List.mem_cons_self
      rw [heq ((Schema.wellFormed_ofFields.mp hwf).2 f hmem)]
      rfl
    · exact ⟨s, (toSchema?_fields htype ..).symm.trans hs, fun _ => rfl⟩
  -- the items are a part as well, and there is only one
  | @items t o field name parameters fields item item' inside ih =>
    by_cases htype : t = "array"
    · subst htype
      rw [toSchema?_array rfl] at hs ⊢
      obtain ⟨e, he, hs⟩ := Outcome.bind_eq_ok.mp hs
      obtain ⟨a, hname, rfl⟩ := Outcome.map_eq_ok.mp hs
      obtain ⟨e', he', heq⟩ := ih he
      refine ⟨_, Outcome.bind_eq_ok.mpr ⟨e', he', Outcome.map_eq_ok.mpr ⟨a, hname, rfl⟩⟩, ?_⟩
      exact fun hwf => congrArg (Schema.array · _) (heq hwf)
    · exact ⟨s, (toSchema?_items htype ..).symm.trans hs, fun _ => rfl⟩

end WireSchema

/-! ### Schemas from outside -/

namespace Schema

/-- **A schema that comes from outside**: that of a nested document, a merge of such schemas, that
of a record of flattened leaves, or one that is read from the wire, if no struct there names two
fields alike. Leaf types have no fields. -/
inductive Produced : Schema → Prop where
  | leaf (t : LeafType) (o : Bool) : Produced (.leaf t o)
  | nested {settings : ConversionSettings} {d : Json} {s : Schema} {v : Value}
      (document : d.Canonical) (converted : settings.convert d = .ok (.structured s v)) : Produced s
  | merged {schemas : List Schema} {location : String} {m : Schema}
      (parts : ∀ s ∈ schemas, Produced s) (merged : merge schemas location = .ok m) : Produced m
  | flattened {r : FlatRecord} (entries : ∀ e ∈ r.entries, Produced e.schema) :
      Produced r.toRecord.schema
  | read {w : WireSchema} {s : Schema} (distinct : w.DistinctNames)
      (read : w.toSchema? = .ok s) : Produced s

variable {s : Schema}

/-- A merge of well-formed schemas is well-formed, and so is that of none. -/
theorem wellFormed_of_merge {schemas : List Schema} {location : String} {m : Schema}
    (h : merge schemas location = .ok m) (hs : ∀ s ∈ schemas, s.WellFormed) : m.WellFormed := by
  cases schemas with
  | nil =>
    -- nothing gives the struct without fields
    obtain rfl := Except.ok.inj h
    exact wellFormed_ofFields.mpr ⟨List.nodup_nil, fun f hf => absurd hf List.not_mem_nil⟩
  | cons s rest => exact (isMerge_of_merge h).wellFormed (List.cons_ne_nil s rest) hs

/-- A flattened record has one field for every path, and the schemas of its entries. -/
theorem wellFormed_toRecord {r : FlatRecord} (h : ∀ e ∈ r.entries, e.schema.WellFormed) :
    r.toRecord.schema.WellFormed := by
  have hfields : (r.entries.map fun e => ((e.path, e.schema), e.value)).map Prod.fst =
      r.entries.map fun e => (e.path, e.schema) := List.map_map
  rw [FlatRecord.toRecord, Record.schema_ofSlots, wellFormed_ofFields, hfields, List.map_map]
  refine ⟨r.nodup, fun f hf => ?_⟩
  obtain ⟨e, he, rfl⟩ := List.mem_map.mp hf
  exact h e he

/-- **Names ascend strictly in every struct** of a schema that comes from outside. One case for each
source. -/
theorem Produced.wellFormed (h : s.Produced) : s.WellFormed := by
  induction h with
  | leaf t o => exact trivial
  | nested document converted =>
    exact Json.wellFormed_of_nest document (ConversionSettings.convert_eq_structured converted)
  | merged _ merged ih => exact wellFormed_of_merge merged ih
  | flattened _ ih => exact wellFormed_toRecord ih
  | read distinct read => exact (WireSchema.wellFormed_iff_of_toSchema? read).mpr distinct

/-- Every leaf that flattening emits has a leaf type, so flattened documents come from outside. -/
theorem produced_of_convert {settings : ConversionSettings} {d : Json} {r : FlatRecord}
    (h : settings.convert d = .ok (.flattened r)) : r.toRecord.schema.Produced := by
  -- an entry is a nested scalar, and the empty record that flattening starts from has none
  refine .flattened fun e he => ?_
  have hflat := ConversionSettings.convert_eq_flattened h
  rcases Json.mem_flattenInto hflat he with hempty | ⟨depth, more, leaf, hleaf, -, hnest⟩
  · cases hempty
  · obtain ⟨t, ht⟩ := Json.eq_leaf_of_nest hleaf hnest
    rw [ht]
    exact .leaf t true

/-- Names that are in order and distinct ascend strictly, in every struct. -/
theorem DistinctNames.wellFormed (h : s.DistinctNames) (hs : s.Everywhere Travels) :
    s.WellFormed := by
  induction s using byParts with
  | leaf t o => exact trivial
  | array e o ih => exact ih (everywhere_iff.mp h).2 (everywhere_iff.mp hs).2
  | struct fields o ih =>
    obtain ⟨hsorted, hparts⟩ := everywhere_struct.mp hs
    refine wellFormed_struct.mpr ⟨?_, fun f hf => ih f hf (h.of_mem_fields hf) (hparts f hf)⟩
    exact (hsorted.and h.nodup).imp fun hn => lt_of_le_of_ne hn.1 hn.2

/-- **The order of fields.** In every schema that comes from outside names ascend strictly in all
structs, and every name reaches its field. For a schema that is read from the wire either holds
exactly if no struct there names two fields alike. Whatever the order in which fields are given,
something is read if anything is, and the same in any order if no struct names two alike. -/
theorem produced_inOrder (s : Schema) (w : WireSchema) :
    (s.Produced → s.WellFormed ∧ s.Everywhere NamesReach) ∧
      (w.toSchema? = .ok s →
        (s.WellFormed ↔ w.DistinctNames) ∧ (s.Everywhere NamesReach ↔ w.DistinctNames) ∧
          ∀ w', w.Reorders w' → ∃ s', w'.toSchema? = .ok s' ∧ (w.DistinctNames → s' = s)) := by
  refine ⟨fun hs => ⟨hs.wellFormed, ?_⟩, fun hs => ?_⟩
  · exact everywhere_namesReach_iff.mpr hs.wellFormed.distinctNames
  · have hwf := WireSchema.wellFormed_iff_of_toSchema? hs
    refine ⟨hwf, ?_, fun w' hw' => ?_⟩
    · rw [everywhere_namesReach_iff, ← hwf]
      exact ⟨fun h => h.wellFormed (WireSchema.travels_of_toSchema? hs),
        WellFormed.distinctNames⟩
    · obtain ⟨s', hs', heq⟩ := hw'.exists_toSchema? hs
      exact ⟨s', hs', fun h => heq (hwf.mpr h)⟩

/-- A struct given in either order is read, merged with the schema of a document and with that of a
flattened one. -/
theorem produced_inOrder_merged :
    let a := WireSchema.node "string" true (some "a") none none none none
    let b := WireSchema.node "int8" false (some "b") none none none none
    let w := WireSchema.node "struct" false none none none (some [b, a]) none
    let w' := WireSchema.node "struct" false none none none (some [a, b]) none
    let read := struct [("a", .leaf .string true), ("b", .leaf (.int .w8) false)] false
    let nested := struct [("c", .leaf .boolean true)] false
    let flat := struct [("d.e", .leaf .boolean true)] false
    let m := struct [("a", .leaf .string true), ("b", .leaf (.int .w8) false),
      ("c", .leaf .boolean true), ("d.e", .leaf .boolean true)] false
    merge [read, nested, flat] "" = .ok m ∧ m.Produced ∧
      (m.WellFormed ∧ m.Everywhere NamesReach) ∧
      w.toSchema? = .ok read ∧ w.DistinctNames ∧ w.Reorders w' ∧ w'.toSchema? = .ok read := by
  intro a b w w' read nested flat m
  have hread : w.toSchema? = .ok read := rfl
  have hmerge : merge [read, nested, flat] "" = .ok m := rfl
  have hreorders : w.Reorders w' := .fields (.swap a b [])
  have hwf : read.WellFormed := by
    refine wellFormed_struct.mpr ⟨show List.Pairwise _ ["a", "b"] by decide, ?_⟩
    simp [WellFormed]
  have hdistinct : w.DistinctNames := (WireSchema.wellFormed_iff_of_toSchema? hread).mp hwf
  have hnested : nested.Produced := by
    have hconvert : ({} : ConversionSettings).convert (.obj [("c", .bool true)]) =
        .ok (.structured nested (.record [(("c", .leaf .boolean true), .boolean true)] false)) :=
      rfl
    exact .nested (by decide +kernel) hconvert
  have hflat : flat.Produced := by
    let r : FlatRecord := ⟨[⟨"d.e", .leaf .boolean true, .boolean true⟩], by decide⟩
    have hconvert : ({ flatten := true } : ConversionSettings).convert
        (.obj [("d", .obj [("e", .bool true)])]) = .ok (.flattened r) := rfl
    exact produced_of_convert hconvert
  have hm : m.Produced := by
    refine .merged (fun s hs => ?_) hmerge
    simp only [List.mem_cons, List.not_mem_nil, or_false] at hs
    rcases hs with rfl | rfl | rfl
    · exact .read hdistinct hread
    · exact hnested
    · exact hflat
  obtain ⟨s', hs', heq⟩ := ((produced_inOrder read w).2 hread).2.2 w' hreorders
  exact ⟨hmerge, hm, (produced_inOrder m w).1 hm, hread, hdistinct, hreorders,
    heq hdistinct ▸ hs'⟩

end Schema

/-- **A struct that names two fields alike is read**, but its names do not ascend, the second field
is not reached by its name, and in the other order another schema is read. -/
theorem WireSchema.not_inOrder_of_repeated :
    let narrow := node "int8" false (some "a") none none none none
    let wide := node "int64" false (some "a") none none none none
    let w := node "struct" false none none none (some [wide, narrow]) none
    let w' := node "struct" false none none none (some [narrow, wide]) none
    let s := Schema.struct [("a", .leaf (.int .w64) false), ("a", .leaf (.int .w8) false)] false
    let s' := Schema.struct [("a", .leaf (.int .w8) false), ("a", .leaf (.int .w64) false)] false
    w.toSchema? = .ok s ∧ ¬s.WellFormed ∧ ¬s.NamesReach ∧
      w.Reorders w' ∧ w'.toSchema? = .ok s' ∧ s' ≠ s := by
  intro narrow wide w w' s s'
  have hrepeated : ¬(s.fields.map Prod.fst).Nodup := by decide
  refine ⟨rfl, fun h => ?_, fun h => ?_, .fields (.swap narrow wide []), rfl, by decide⟩
  · exact hrepeated (Schema.wellFormed_struct.mp h).1.nodup
  · exact hrepeated (Schema.namesReach_iff.mp h)

end DocStream
