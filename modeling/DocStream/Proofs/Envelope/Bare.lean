import DocStream.Proofs.Convert.Depth
import DocStream.Proofs.Envelope.RoundTrip

/-!
# Envelopes without a schema

A document that was converted without a schema is put into an envelope and taken out again. The
reader has no schema to go by and converts the payload once more, under settings of its own: with
the default limit on depth, whatever the limit was before, and with every number narrowed from the
digits that were written for it.

* `Value.AgreesWhereSettled` — **agreement of values**, leaves aside that are narrowed to something
  else the second time;
* `Json.rereads_schemaless` — a value that was read without a schema, written and read again;
* `ConversionSettings.schemaless_roundTrip` — **a document without a schema survives its envelope**
  up to the default limit on depth, and no deeper;
* `ConversionSettings.not_schemaless_roundTrip_tower` — a document that nests too deep for that.

Two things have to be kept apart. What is read from the payload is told under the limit of the
conversion first, where nothing can be too deep, by induction on the document; the limit of the
reader comes in at the end, since another limit gives the same value or a failure. Whether a leaf
settles is a matter of its digits alone.
-/

namespace DocStream

/-! ### Agreement -/

namespace Value

/-- **Agreement where settled.** Two values have the same shape, the objects in them the same names,
and they are the same at every place where the first does not hold a leaf that fails to settle. In
the place of such a leaf there is a leaf or null. -/
inductive AgreesWhereSettled : Value → Value → Prop where
  | same (v : Value) : AgreesWhereSettled v v
  | unsettled {v w : Value} (leaf : v.isLeaf = true) (lost : ¬v.LeafSettles)
      (scalar : w = .null ∨ w.isLeaf = true) : AgreesWhereSettled v w
  | array {items items' : List Value} (length : items.length = items'.length)
      (agree : ∀ p ∈ items.zip items', AgreesWhereSettled p.1 p.2) :
      AgreesWhereSettled (.array items) (.array items')
  | map {entries entries' : List (String × Value)}
      (names : entries.map Prod.fst = entries'.map Prod.fst)
      (agree : ∀ p ∈ entries.zip entries', AgreesWhereSettled p.1.2 p.2.2) :
      AgreesWhereSettled (.map entries) (.map entries')

namespace AgreesWhereSettled

theorem ofItems {vs ws : List Value} (h : List.Forall₂ AgreesWhereSettled vs ws) :
    AgreesWhereSettled (.array vs) (.array ws) := by
  obtain ⟨hlen, hzip⟩ := List.forall₂_iff_zip.mp h
  exact .array hlen fun p hp => hzip hp

/-- Maps agree if they have the same names and agree under each. -/
theorem ofEntries {es fs : List (String × Value)}
    (h : List.Forall₂ (fun e f => e.1 = f.1 ∧ AgreesWhereSettled e.2 f.2) es fs) :
    AgreesWhereSettled (.map es) (.map fs) := by
  refine .map (map_eq_map_of_forall₂ (h.imp fun e f hef => hef.1)) fun p hp => ?_
  exact ((List.forall₂_iff_zip.mp h).2 hp).2

/-- **Where all leaves settle, agreement is equality.** By induction on the agreement; the case of a
leaf that fails to settle cannot occur. -/
theorem eq_of_settles {v w : Value} (h : v.AgreesWhereSettled w) (hv : v.Settles) : v = w := by
  induction h with
  | same v => rfl
  | unsettled leaf lost => exact absurd ((settles_leaf leaf).mp hv) lost
  | array length agree ih =>
    have hparts := settles_array.mp hv
    have hitems : List.Forall₂ (· = ·) _ _ := List.forall₂_iff_zip.mpr
      ⟨length, fun hp => ih _ hp (hparts _ (List.of_mem_zip hp).1)⟩
    rw [List.forall₂_eq_eq_eq] at hitems
    rw [hitems]
  | map names agree ih =>
    have hparts := settles_map.mp hv
    -- names and values are equal, each in its place
    rw [← List.forall₂_eq_eq_eq, List.forall₂_map_left_iff, List.forall₂_map_right_iff,
      List.forall₂_iff_zip] at names
    have hentries : List.Forall₂ (· = ·) _ _ := List.forall₂_iff_zip.mpr
      ⟨names.1, fun hp => Prod.ext (names.2 hp) (ih _ hp (hparts _ (List.of_mem_zip hp).1))⟩
    rw [List.forall₂_eq_eq_eq] at hentries
    rw [hentries]

end AgreesWhereSettled

end Value

namespace Json

/-- A scalar is read as null or as a leaf, whatever the limit. -/
theorem scalar_of_schemaless {maxDepth depth : Nat} {j : Json} {w : Value}
    (hj : j.isContainer = false) (h : j.schemaless maxDepth depth = .ok w) :
    w = .null ∨ w.isLeaf = true := by
  cases j with
  | null => exact .inl (Except.ok.inj h).symm
  | bool b => exact .inr (Except.ok.inj h ▸ rfl)
  | str s => exact .inr (Except.ok.inj h ▸ rfl)
  | num n =>
    obtain ⟨d, -, hrung⟩ := Value.rung_of_ofNumeral? h
    exact .inr (isLeaf_of_rung hrung)
  | arr | obj => cases hj

/-! ### Values -/

/-- **A value that was read without a schema, written and read again.** What is written nests like
the document, and what is read from it agrees with the value where that is settled. By induction on
the document, the parts of a container being written and read on their own. -/
theorem rereads_schemaless {d : Json} (hd : d.Canonical) {maxDepth depth : Nat} {v : Value}
    (h : d.schemaless maxDepth depth = .ok v) :
    ∃ j w, v.toPlain? none = .ok j ∧ j.nesting = d.nesting ∧
      j.schemaless maxDepth depth = .ok w ∧ v.AgreesWhereSettled w := by
  induction d using Json.byParts generalizing depth v with
  | null =>
    obtain rfl := Except.ok.inj h
    exact ⟨.null, .null, by rw [Value.toPlain?], rfl, rfl, .same _⟩
  | bool b =>
    obtain rfl := Except.ok.inj h
    exact ⟨.bool b, .boolean b, Value.toPlain?_none rfl, rfl, rfl, .same _⟩
  | str s =>
    obtain rfl := Except.ok.inj h
    exact ⟨.str s, .string s, Value.toPlain?_none rfl, rfl, rfl, .same _⟩
  | num n =>
    obtain ⟨hleaf, j, hplain, ⟨w, hw⟩, hback⟩ :=
      @Value.comesBackBare_number maxDepth depth n v h
    have hj := Value.isContainer_of_leafPlain? hplain
    refine ⟨j, w, (Value.toPlain?_none hleaf).trans hplain, nesting_of_scalar hj, hw, ?_⟩
    by_cases hsettles : v.LeafSettles
    · -- a leaf that settles is read again, and nothing else can be
      have heq := hw.symm.trans (hback.reads_iff.mpr (.leaf hsettles))
      exact Except.ok.inj heq ▸ .same _
    · exact .unsettled hleaf hsettles (scalar_of_schemaless hj hw)
  | arr items ih =>
    obtain ⟨hdepth, vs, rfl, hvs⟩ := schemaless_arr_iff.mp h
    -- item by item: what is written, and what is read from it
    have hitems : ∃ js ws, List.Forall₂ (fun v j => v.toPlain? none = .ok j) vs js ∧
        nestingOfItems js = nestingOfItems items ∧
        List.Forall₂ (fun j w => j.schemaless maxDepth (depth + 1) = .ok w) js ws ∧
        List.Forall₂ Value.AgreesWhereSettled vs ws := by
      have hparts := canonical_arr.mp hd
      clear h hd
      induction hvs with
      | nil => exact ⟨[], [], .nil, rfl, .nil, .nil⟩
      | cons hv _ ih' =>
        obtain ⟨j, w, hplain, hnesting, hread, hagree⟩ :=
          ih _ List.mem_cons_self (hparts _ List.mem_cons_self) hv
        obtain ⟨js, ws, hplains, hnestings, hreads, hagrees⟩ :=
          ih' (fun i hi => ih i (List.mem_cons_of_mem _ hi))
            fun i hi => hparts i (List.mem_cons_of_mem _ hi)
        exact ⟨j :: js, w :: ws, .cons hplain hplains,
          by rw [nestingOfItems, nestingOfItems, hnesting, hnestings],
          .cons hread hreads, .cons hagree hagrees⟩
    obtain ⟨js, ws, hplains, hnesting, hreads, hagrees⟩ := hitems
    exact ⟨.arr js, .array ws, Value.toPlain?_none_array hplains,
      by rw [nesting, nesting, hnesting], schemaless_arr_iff.mpr ⟨hdepth, ws, rfl, hreads⟩,
      .ofItems hagrees⟩
  | obj members ih =>
    obtain ⟨hdepth, entries, rfl, hentries⟩ := schemaless_obj_iff.mp h
    obtain ⟨hasc, hparts⟩ := canonical_obj.mp hd
    have hnames : members.map Prod.fst = entries.map Prod.fst :=
      map_eq_map_of_forall₂ (hentries.imp fun m e he => he.1)
    rw [Members.names, hnames] at hasc
    -- and member by member, under the same names
    have hmembers : ∃ (ms : Members) (fs : List (String × Value)),
        List.Forall₂ (fun e m => e.1 = m.1 ∧ e.2.toPlain? none = .ok m.2) entries ms ∧
        nestingOfMembers ms = nestingOfMembers members ∧
        List.Forall₂ (fun m f => m.1 = f.1 ∧ m.2.schemaless maxDepth (depth + 1) = .ok f.2)
          ms fs ∧
        List.Forall₂ (fun e f => e.1 = f.1 ∧ e.2.AgreesWhereSettled f.2) entries fs := by
      clear h hd hnames hasc
      induction hentries with
      | nil => exact ⟨[], [], .nil, rfl, .nil, .nil⟩
      | @cons m e _ _ he _ ih' =>
        obtain ⟨j, w, hplain, hnesting, hread, hagree⟩ :=
          ih _ List.mem_cons_self (hparts _ List.mem_cons_self) he.2
        obtain ⟨ms, fs, hplains, hnestings, hreads, hagrees⟩ :=
          ih' (fun m hm => ih m (List.mem_cons_of_mem _ hm))
            fun m hm => hparts m (List.mem_cons_of_mem _ hm)
        exact ⟨(e.1, j) :: ms, (e.1, w) :: fs, .cons ⟨rfl, hplain⟩ hplains,
          by rw [nestingOfMembers, nestingOfMembers, hnesting, hnestings],
          .cons ⟨rfl, hread⟩ hreads, .cons ⟨rfl, hagree⟩ hagrees⟩
    obtain ⟨ms, fs, hplains, hnesting, hreads, hagrees⟩ := hmembers
    exact ⟨.obj ms, .map fs, Value.toPlain?_none_map hasc hplains,
      by rw [nesting, nesting, hnesting], schemaless_obj_iff.mpr ⟨hdepth, fs, rfl, hreads⟩,
      .ofEntries hagrees⟩

end Json

/-! ### Envelopes -/

namespace ConversionSettings

/-- A conversion without a schema is one of the document from its root. -/
theorem convert_eq_schemaless {settings : ConversionSettings} {d : Json} {v : Value}
    (h : settings.convert d = .ok (.schemaless v)) :
    d.schemaless settings.maxDepth 0 = .ok v := by
  rw [convert] at h
  split at h
  · -- a conversion with a schema gives one, so it is ruled out
    split at h
    · obtain ⟨_, -, h⟩ := Outcome.bind_eq_ok.mp h
      cases h
    · obtain ⟨_, -, h⟩ := Outcome.map_eq_ok.mp h
      cases h
  · obtain ⟨v', hv, h⟩ := Outcome.map_eq_ok.mp h
    injection h with h
    rw [hv, h]

/-- **A document without a schema survives its envelope up to the default limit on depth.** It can
always be written. What was written is read again if the document nests no deeper than the default
limit, and then the value is the same wherever its leaves settle. A document that nests deeper is
refused by the reader, under whatever limit it was converted. -/
theorem schemaless_roundTrip {settings : ConversionSettings} {d : Json} {v : Value}
    (hd : d.Canonical) (h : settings.convert d = .ok (.schemaless v)) :
    ∃ j, (Envelope.mk none v).toJson? = .ok j ∧
      (d.nesting ≤ ({} : ConversionSettings).maxDepth →
        ∃ w, Envelope.ofJson? j = .ok ⟨none, w⟩ ∧ v.AgreesWhereSettled w ∧
          (v.Settles → v = w)) ∧
      (({} : ConversionSettings).maxDepth < d.nesting →
        Envelope.ofJson? j = .error (.depthExceeded ({} : ConversionSettings).maxDepth)) := by
  obtain ⟨payload, w, hplain, hnesting, hread, hagree⟩ :=
    Json.rereads_schemaless hd (convert_eq_schemaless h)
  refine ⟨_, Envelope.toJson?_eq_ok hplain, ?_⟩
  -- the reader's own limit decides, as the value under any limit is known
  rw [Envelope.schemaJson, Envelope.ofJson?_written_none, Json.schemaless_of_read hread, hnesting,
    Json.withinLimit, Nat.sub_zero]
  constructor
  · intro hle
    rw [if_pos hle]
    exact ⟨w, rfl, hagree, hagree.eq_of_settles⟩
  · intro hlt
    rw [if_neg (Nat.not_le.mpr hlt)]
    rfl

/-- Sixty-four containers, with a float that settles and one that does not: its shortest digits are
one tenth, the value of no single-precision float. -/
theorem schemaless_roundTrip_full :
    let settings : ConversionSettings := { structured := false, maxDepth := 100 }
    let d := Json.arr [.num ⟨true, 2, [5], none⟩, .num ⟨false, 0, [1, 0, 0, 0, 0, 0, 0, 0, 1, 4, 9,
      0, 1, 1, 6, 1, 1, 9, 3, 8, 4, 7, 6, 5, 6, 2, 5], none⟩, Json.tower 63]
    ∃ v, d.Canonical ∧ settings.convert d = .ok (.schemaless v) ∧
      ∃ j w, (Envelope.mk none v).toJson? = .ok j ∧ Envelope.ofJson? j = .ok ⟨none, w⟩ ∧
        v.AgreesWhereSettled w := by
  intro settings d
  have hd : d.Canonical := by decide +kernel
  have hok : (match settings.convert d with
      | .ok (.schemaless _) => true
      | _ => false) = true := by decide +kernel
  split at hok
  · next v h =>
    obtain ⟨j, hj, hread, -⟩ := schemaless_roundTrip hd h
    obtain ⟨w, hw, hagree, -⟩ := hread (by decide +kernel)
    exact ⟨v, hd, h, j, w, hj, hw, hagree⟩
  · exact nomatch hok

/-- **A document that nests deeper than the default limit** is converted under a greater one and
written, and is refused when it is read again. -/
theorem not_schemaless_roundTrip_tower :
    let settings : ConversionSettings := { structured := false, maxDepth := 100 }
    let d := Json.tower 65
    ∃ v j, d.Canonical ∧ settings.convert d = .ok (.schemaless v) ∧
      (Envelope.mk none v).toJson? = .ok j ∧ Envelope.ofJson? j = .error (.depthExceeded 64) := by
  intro settings d
  have hok : (match settings.convert d with
      | .ok (.schemaless v) => (match (Envelope.mk none v).toJson? with
        | .ok j => (match Envelope.ofJson? j with
          | .error e => decide (e = .depthExceeded 64)
          | _ => false)
        | _ => false)
      | _ => false) = true := by decide +kernel
  split at hok
  · next v h =>
    split at hok
    · next j hj =>
      split at hok
      · next e he => exact ⟨v, j, Json.canonical_tower 65, h, hj, of_decide_eq_true hok ▸ he⟩
      · exact nomatch hok
    · exact nomatch hok
  · exact nomatch hok

end ConversionSettings
end DocStream
