import DocStream.Proofs.Envelope.RoundTrip
import DocStream.Proofs.Envelope.Schemaless

/-!
# Envelopes that are read, written and read again

Whatever is read as an envelope can be written again, as long as the names in its schema are
distinct. What is read from that is the envelope exactly if its leaves are settled, and where it is
not, it does not even compare as equal. An envelope without a schema is always read again.

* `Envelope.Settled` — **the envelopes that come back**;
* `Envelope.ofJson?_eq_ok` — what an envelope is read from;
* `Envelope.reread_iff_settled` — **an envelope that was read comes back exactly if it is settled**;
* `Envelope.not_rewritten_of_repeated` — with a repeated name the last reading overwrites the first,
  and the envelope cannot be written.

With a schema and without, the payload is followed on its own: what is written for it and what is
read from that. The envelope adds the schema, which travels if it was read, and the two members of
the object that is written. So what is left here is to put the parts together, once for each of the
two kinds of envelope.
-/

namespace DocStream.Envelope

/-- **The envelopes that come back**: those whose payload conforms to its schema with settled
leaves, or without a schema is made of leaves that settle. -/
def Settled (e : Envelope) : Prop :=
  match e.schema with
  | some s => e.payload.Conforms LeafType.Settled s
  | none => e.payload.Settles

/-- **What an envelope is read from**: an object with a payload and, unless it is null or missing, a
schema. Which of the two kinds it is can be told from the envelope. -/
theorem ofJson?_eq_ok {j : Json} {e : Envelope} (h : ofJson? j = .ok e) :
    ∃ members payload, j = .obj members ∧ payload = (Members.get? members "payload").getD .null ∧
      match e.schema with
      | none => payload.schemaless ({} : ConversionSettings).maxDepth 0 = .ok e.payload
      | some s => s.Everywhere Schema.Travels ∧ Value.ofPlain? s payload = .ok e.payload := by
  cases j with
  | null | bool | num | str | arr => cases h
  | obj members =>
    refine ⟨members, _, rfl, rfl, ?_⟩
    unfold ofJson? at h
    dsimp only at h
    -- a null schema and a missing one are the same, and another one is read before the payload
    split at h
    · obtain ⟨v, hv, h⟩ := Outcome.bind_eq_ok.mp h
      obtain rfl := Except.ok.inj h
      exact hv
    · split at h
      · cases h
      · obtain ⟨s, hs, h⟩ := Outcome.bind_eq_ok.mp h
        obtain ⟨v, hv, h⟩ := Outcome.bind_eq_ok.mp h
        obtain rfl := Except.ok.inj h
        exact ⟨WireSchema.travels_of_toSchema? hs, hv⟩

/-- The member of a name of a canonical object, or null, is canonical. A missing payload is read as
null. -/
theorem canonical_getD {members : Members} (h : (Json.obj members).Canonical) (name : String) :
    ((Members.get? members name).getD .null).Canonical := by
  obtain ⟨hasc, hparts⟩ := Json.canonical_obj.mp h
  cases hget : Members.get? members name with
  | none => trivial
  | some j => exact hparts _ ((Members.get?_eq_some_iff_mem hasc).mp hget)

/-- Envelopes that are read from one payload are equal if their payloads are. -/
theorem map_eq_ok {schema : Option Schema} {v : Value} {x : Outcome Value} :
    Envelope.mk schema <$> x = .ok ⟨schema, v⟩ ↔ x = .ok v := by
  rw [Outcome.map_eq_ok]
  constructor
  · rintro ⟨w, hw, heq⟩
    rw [hw, (Envelope.mk.inj heq).2]
  · exact fun h => ⟨v, h, rfl⟩

/-- **An envelope that was read comes back exactly if it is settled.** If the names in every struct
of its schema are distinct, it can be written. Without a schema what was written is always read;
with one or without, the envelope is read again exactly if it is settled, and no other envelope with
an equal payload is. -/
theorem reread_iff_settled {j : Json} {e : Envelope} (hj : j.Canonical) (h : ofJson? j = .ok e)
    (hs : ∀ s ∈ e.schema, s.WellFormed) :
    ∃ j, e.toJson? = .ok j ∧ (e.schema = none → ∃ e', ofJson? j = .ok e') ∧
      (ofJson? j = .ok e ↔ e.Settled) ∧
      ∀ e', ofJson? j = .ok e' →
        e'.schema = e.schema ∧ (e.payload.same e'.payload = true → e' = e) := by
  obtain ⟨members, payload, rfl, hpayload, hread⟩ := ofJson?_eq_ok h
  obtain ⟨schema, v⟩ := e
  cases schema with
  | none =>
    -- without a schema the payload is converted again
    have hcanonical : payload.Canonical := hpayload ▸ canonical_getD hj "payload"
    obtain ⟨j, hplain, ⟨w, hw⟩, hback⟩ := Json.comesBack_schemaless hcanonical hread
    refine ⟨_, toJson?_eq_ok hplain, ?_⟩
    rw [schemaJson, ofJson?_written_none]
    refine ⟨fun _ => ⟨_, map_eq_ok.mpr hw⟩, map_eq_ok.trans hback.reads_iff, fun e' he' => ?_⟩
    obtain ⟨w, hw, rfl⟩ := Outcome.map_eq_ok.mp he'
    exact ⟨rfl, fun hsame => congrArg (Envelope.mk none) (hback.eq_of_same w hw hsame)⟩
  | some s =>
    -- with one the same schema is read from what was written, and the payload is read under it
    obtain ⟨htravels, hread⟩ := hread
    obtain ⟨j, hplain, hback⟩ := Value.comesBack (hs s rfl) hread
    refine ⟨_, toJson?_eq_ok hplain, ?_⟩
    rw [ofJson?_written_some htravels]
    refine ⟨fun hnone => (by cases hnone), map_eq_ok.trans hback.reads_iff, fun e' he' => ?_⟩
    obtain ⟨w, hw, rfl⟩ := Outcome.map_eq_ok.mp he'
    exact ⟨rfl, fun hsame => congrArg (Envelope.mk (some s)) (hback.eq_of_same w hw hsame)⟩

/-- A record with an array and a field that is missing. -/
theorem reread_iff_settled_record :
    let item : Json := .obj [("type", .str "int16")]
    let array : Json := .obj [("field", .str "a"), ("items", item), ("type", .str "array")]
    let text : Json := .obj [("field", .str "b"), ("optional", .bool true), ("type", .str "string")]
    let j : Json := .obj [("payload", .obj [("a", .arr [.ofInt 1, .ofInt 300])]),
      ("schema", .obj [("fields", .arr [array, text]), ("type", .str "struct")])]
    let s := Schema.struct [("a", .array (.leaf (.int .w16) false) false),
      ("b", .leaf .string true)] false
    let e : Envelope := ⟨some s, .record [(("a", .array (.leaf (.int .w16) false) false),
      .array [.int ⟨.w16, 1, by decide⟩, .int ⟨.w16, 300, by decide⟩]),
      (("b", .leaf .string true), .null)] false⟩
    ofJson? j = .ok e ∧ ∃ j', e.toJson? = .ok j' ∧ ofJson? j' = .ok e := by
  intro item array text j s e
  have hj : j.Canonical := by decide +kernel
  have hread : ofJson? j = .ok e := rfl
  have hs : ∀ s' ∈ e.schema, s'.WellFormed := by
    intro s' hs'
    obtain rfl := Option.some.inj hs'
    refine Schema.wellFormed_struct.mpr ⟨by unfold StrictlyAscending; decide, ?_⟩
    simp only [List.forall_mem_cons]
    exact ⟨trivial, trivial, fun f hf => absurd hf List.not_mem_nil⟩
  have hsettled : e.Settled := by
    refine Value.conforms_record.mpr ⟨rfl, rfl, ?_⟩
    simp only [List.forall_mem_cons]
    refine ⟨Value.conforms_array.mpr ?_, rfl, fun slot hslot => absurd hslot List.not_mem_nil⟩
    simp only [List.forall_mem_cons]
    exact ⟨rfl, rfl, fun v hv => absurd hv List.not_mem_nil⟩
  obtain ⟨j', hwritten, -, hback, -⟩ := reread_iff_settled hj hread hs
  exact ⟨hread, j', hwritten, hback.mpr hsettled⟩

/-- **An envelope with a repeated name is read but cannot be written.** Both fields are read from
the one member, and the second is put where the first belongs, though its type is wider. -/
theorem not_rewritten_of_repeated :
    let int8 : Json := .obj [("field", .str "a"), ("type", .str "int8")]
    let int64 : Json := .obj [("field", .str "a"), ("type", .str "int64")]
    let j : Json := .obj [("payload", .obj [("a", .ofInt 5)]),
      ("schema", .obj [("fields", .arr [int8, int64]), ("type", .str "struct")])]
    let s := Schema.struct [("a", .leaf (.int .w8) false), ("a", .leaf (.int .w64) false)] false
    let e : Envelope := ⟨some s, .record [(("a", .leaf (.int .w8) false),
      .int ⟨.w64, 5, by decide⟩), (("a", .leaf (.int .w64) false), .null)] false⟩
    ofJson? j = .ok e ∧ e.toJson? = .error (.unhandled "int8" "int64") := by
  intro int8 int64 j s e
  constructor
  · rfl
  · rfl

end DocStream.Envelope
