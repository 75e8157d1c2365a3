import DocStream.Proofs.Convert.Failures
import DocStream.Proofs.Convert.Leaves
import DocStream.Proofs.Convert.Walking

/-!
# One limit for all conversions

Whether a document is nested, flattened or read without a schema, its depth is a failure exactly if
more of its containers can be open at once than the limit allows. Nesting and flattening may fail for
other reasons before they come to a place that is too deep.

* `Json.nesting_le_of_flattenInto` — a document that could be flattened is within the limit;
* `Json.exists_schemaless` — a document whose numbers can be narrowed is read without a schema, if
  there is room for it;
* `ConversionSettings.limit_agrees` — **all conversions draw the limit at the same depth**.

That a conversion succeeds only within the limit is shown for each of its ways separately. The
converse holds without a schema only, where nothing but a number and the depth can go wrong; for the
other ways it is enough that they do not fail *for the depth*, which is what the failures of
conversions say.
-/

namespace DocStream

open Outcome

namespace Json

variable {maxDepth depth : Nat} {path : Path}

/-! ### Flattened -/

/-- If all items of an array were flattened, each of them was, from some leaves emitted before to
some after. -/
theorem exists_of_flattenItems {items : List Json} {index : Nat} {into r : FlatRecord}
    (h : flattenItems maxDepth depth path index into items = .ok r) {j : Json} (hj : j ∈ items) :
    ∃ path into r, flattenInto maxDepth depth path into j = .ok r := by
  induction items generalizing index into with
  | nil => cases hj
  | cons item rest ih =>
    rw [flattenItems] at h
    obtain ⟨into', hitem, hrest⟩ := bind_eq_ok.mp h
    rcases List.mem_cons.mp hj with rfl | hj
    · exact ⟨_, _, _, hitem⟩
    · exact ih hrest hj

/-- If all members of an object were flattened, each of them was. -/
theorem exists_of_flattenMembers {members : Members} {into r : FlatRecord}
    (h : flattenMembers maxDepth depth path into members = .ok r) {m : String × Json}
    (hm : m ∈ members) : ∃ path into r, flattenInto maxDepth depth path into m.2 = .ok r := by
  induction members generalizing into with
  | nil => cases hm
  | cons head rest ih =>
    obtain ⟨name, item⟩ := head
    rw [flattenMembers] at h
    obtain ⟨into', hitem, hrest⟩ := bind_eq_ok.mp h
    rcases List.mem_cons.mp hm with rfl | hm
    · exact ⟨_, _, _, hitem⟩
    · exact ih hrest hm

/-- **A document that could be flattened is within the limit.** Each container was entered below it,
whatever leaves had been emitted by then. -/
theorem nesting_le_of_flattenInto {into r : FlatRecord} {d : Json}
    (h : flattenInto maxDepth depth path into d = .ok r) : d.nesting ≤ maxDepth - depth := by
  induction d using Json.byParts generalizing depth path into r with
  | null | bool | num | str => exact Nat.zero_le _
  | arr items ih =>
    rw [flattenInto] at h
    split at h
    · cases h
    · next hroom =>
      refine nesting_arr_le.mpr ⟨Nat.lt_of_not_le hroom, fun j hj => ?_⟩
      obtain ⟨_, _, _, hitem⟩ := exists_of_flattenItems h hj
      exact ih j hj hitem
  | obj members ih =>
    rw [flattenInto] at h
    split at h
    · cases h
    · next hroom =>
      refine nesting_obj_le.mpr ⟨Nat.lt_of_not_le hroom, fun m hm => ?_⟩
      obtain ⟨_, _, _, hitem⟩ := exists_of_flattenMembers h hm
      exact ih m hm hitem

/-! ### Without a schema -/

/-- A document that could be read without a schema is within the limit. It would have failed
otherwise, as its value under this limit is known from itself. -/
theorem nesting_le_of_schemaless {d : Json} {v : Value}
    (h : d.schemaless maxDepth depth = .ok v) : d.nesting ≤ maxDepth - depth := by
  by_contra hdeep
  rw [schemaless_of_read h, withinLimit, if_neg hdeep] at h
  cases h

/-- **A document is read without a schema** if its numbers can be narrowed and there is room for its
containers. -/
theorem exists_schemaless {d : Json} (hd : d.Canonical)
    (hn : ∀ place n, d.at? place = some (.num n) → ∃ v, Value.ofNumeral? n = .ok v)
    (hroom : d.nesting ≤ maxDepth - depth) : ∃ v, d.schemaless maxDepth depth = .ok v := by
  induction d using Json.byParts generalizing depth with
  | null | bool | str => exact ⟨_, rfl⟩
  | num n => exact hn [] n rfl
  | arr items ih =>
    obtain ⟨hlt, hitems⟩ := nesting_arr_le.mp hroom
    -- an item is at a place of its own, so its numbers are numbers of the document
    have hread : ∀ j ∈ items, ∃ v, j.schemaless maxDepth (depth + 1) = .ok v := by
      intro j hj
      obtain ⟨index, hindex, rfl⟩ := List.mem_iff_getElem.mp hj
      refine ih _ hj (canonical_arr.mp hd _ hj) (fun place n hat => ?_) (hitems _ hj)
      exact hn (.item index :: place) n
        (Option.bind_eq_some_iff.mpr ⟨_, List.getElem?_eq_getElem hindex, hat⟩)
    obtain ⟨vs, hvs⟩ := forall₂_of_forall_exists hread
    exact ⟨_, schemaless_arr_iff.mpr ⟨hlt, vs, rfl, hvs⟩⟩
  | obj members ih =>
    obtain ⟨hlt, hmembers⟩ := nesting_obj_le.mp hroom
    obtain ⟨hasc, hparts⟩ := canonical_obj.mp hd
    -- and so is a member, under its name, as no other member has it
    have hread : ∀ m ∈ members, ∃ e : String × Value,
        m.1 = e.1 ∧ m.2.schemaless maxDepth (depth + 1) = .ok e.2 := by
      intro m hm
      obtain ⟨v, hv⟩ := ih m hm (hparts m hm) (fun place n hat => hn (.member m.1 :: place) n
        (Option.bind_eq_some_iff.mpr ⟨m.2, (Members.get?_eq_some_iff_mem hasc).mpr hm, hat⟩))
        (hmembers m hm)
      exact ⟨(m.1, v), rfl, hv⟩
    obtain ⟨entries, hentries⟩ := forall₂_of_forall_exists hread
    exact ⟨_, schemaless_obj_iff.mpr ⟨hlt, entries, rfl, hentries⟩⟩

end Json

namespace ConversionSettings

variable {s : ConversionSettings} {d : Json}

/-- **A document that could be converted is within the limit**, whatever the settings. -/
theorem nesting_le_of_convert {c : Converted} (hd : d.Canonical) (h : s.convert d = .ok c) :
    d.nesting ≤ s.maxDepth := by
  rw [convert] at h
  split at h
  · split at h
    · obtain ⟨⟨schema, value⟩, hnest, -⟩ := bind_eq_ok.mp h
      exact Json.nesting_le_of_nest hd hnest
    · obtain ⟨flat, hflat, -⟩ := map_eq_ok.mp h
      exact Json.nesting_le_of_flattenInto hflat
  · obtain ⟨v, hv, -⟩ := map_eq_ok.mp h
    exact Json.nesting_le_of_schemaless hv

/-- **All conversions draw the limit at the same depth.** A document whose numbers can be narrowed is
read without a schema exactly if it does not nest deeper than the limit, and else fails for its
depth. A conversion, with a schema or without, nested or flattened, does not fail for the depth of a
document within the limit, and fails for one beyond it. With a schema it is one walk through the
document, which counts the containers that are open. -/
theorem limit_agrees (s : ConversionSettings) (hd : d.Canonical)
    (hn : ∀ place n, d.at? place = some (.num n) → ∃ v, Value.ofNumeral? n = .ok v) :
    (d.nesting ≤ s.maxDepth → (∃ v, d.schemaless s.maxDepth 0 = .ok v) ∧
      ∀ k, s.convert d ≠ .error (.depthExceeded k)) ∧
    (s.maxDepth < d.nesting →
      d.schemaless s.maxDepth 0 = .error (.depthExceeded s.maxDepth) ∧
      ∃ e, s.convert d = .error e) ∧
    (s.structured = true → s.convert d = s.walk d) := by
  refine ⟨fun hle => ⟨Json.exists_schemaless hd hn hle, fun k hk => ?_⟩, fun hlt => ⟨?_, ?_⟩,
    fun hstructured => convert_eq_walk hstructured d⟩
  · exact absurd hle (Nat.not_le_of_lt ((s.fails_convert d _ hk).limit k rfl).2)
  · -- with enough room it is read, so with too little it fails for its depth
    obtain ⟨v, hv⟩ : ∃ v, d.schemaless d.nesting 0 = .ok v := Json.exists_schemaless hd hn le_rfl
    rw [Json.schemaless_of_read hv]
    exact if_neg (Nat.not_le_of_lt hlt)
  · cases hconvert : s.convert d with
    | ok c => exact absurd (nesting_le_of_convert hd hconvert) (Nat.not_le_of_lt hlt)
    | error e => exact ⟨e, rfl⟩

/-- An array has been entered and left before the object that holds the deepest part: one container
more than the limit is one too many, whatever was met before. -/
theorem limit_agrees_siblings :
    let s : ConversionSettings := { maxDepth := 2 }
    let d := fun last => Json.obj [("a", .arr [.num (.ofInt 300)]), ("b", .obj [("c", last)])]
    (d .null).nesting = 2 ∧ (∃ v, (d .null).schemaless 2 0 = .ok v) ∧
      (∀ k, s.convert (d .null) ≠ .error (.depthExceeded k)) ∧
    (d (.arr [])).nesting = 3 ∧ (d (.arr [])).schemaless 2 0 = .error (.depthExceeded 2) ∧
      ∃ e, s.convert (d (.arr [])) = .error e := by
  intro s d
  have hd : (d .null).Canonical := by decide +kernel
  have hdeep : (d (.arr [])).Canonical := by decide +kernel
  -- in both documents the only number is 300
  have hread : ∃ v, Value.ofNumeral? (.ofInt 300) = .ok v := by
    have hbounded : (Numeral.ofInt 300).read? = some ⟨300, 0⟩ := by decide +kernel
    exact ⟨_, Value.ofNumeral?_iff.mpr ⟨_, hbounded, rfl⟩⟩
  have hn : ∀ last, last = .null ∨ last = .arr [] → (d last).Canonical →
      ∀ place n, (d last).at? place = some (.num n) → ∃ v, Value.ofNumeral? n = .ok v := by
    intro last hlast hcanonical place n hat
    have hleaf := (Json.mem_leaves_iff hcanonical).mpr ⟨hat, rfl⟩
    obtain ⟨-, rfl⟩ : _ ∧ n = .ofInt 300 := by
      rcases hlast with rfl | rfl <;>
        simpa [d, Json.leaves, Json.leavesOfMembers, Json.leavesOfItems] using hleaf
    exact hread
  obtain ⟨hwithin, -⟩ := limit_agrees s hd (hn _ (.inl rfl) hd)
  obtain ⟨-, hbeyond, -⟩ := limit_agrees s hdeep (hn _ (.inr rfl) hdeep)
  obtain ⟨hok, hconvert⟩ := hwithin (by decide)
  obtain ⟨herror, hfails⟩ := hbeyond (by decide)
  exact ⟨rfl, hok, hconvert, rfl, herror, hfails⟩

end ConversionSettings
end DocStream
