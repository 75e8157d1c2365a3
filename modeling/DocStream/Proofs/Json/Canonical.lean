import DocStream.Json.Parser
import DocStream.Proofs.Names

/-!
# Canonical values

Members are set one by one, each at the place of its name, and what is put together in that way is
canonical. So is every value that is read from a text, and what is proved of canonical documents
holds of all that are read.

* `Json.canonical_arr` and `Json.canonical_obj` — canonical values, part by part;
* `Members.ascending_ofList` — **members that were put together are in order**, whatever the pairs;
  `Members.ofList_perm` — and all there, if the names are distinct;
* `Json.canonical_of_parse?` — **what is read from a text is canonical**.

An object is a list of members, so two lists may hold the same members in different orders. The
canonical one is in the order of the names and has every name once, and functions on objects are
told of it. Being canonical is closed under what is done with objects, setting a member and putting
a list together, and it can be computed.
-/

namespace DocStream

/-! ### Members -/

namespace Members

/-- A member of an object in which a name was set is the one that was set, or it was there before.
-/
theorem mem_insert {name : String} {value : Json} {ms : Members} {m : String × Json}
    (h : m ∈ insert name value ms) : m = (name, value) ∨ m ∈ ms := by
  induction ms with
  | nil => exact .inl (List.mem_singleton.mp h)
  | cons head rest ih =>
    obtain ⟨k, v⟩ := head
    rw [insert] at h
    split at h
    · exact (List.mem_cons.mp h).imp_right (List.mem_cons_of_mem _)
    · split at h
      · exact List.mem_cons.mp h
      · rcases List.mem_cons.mp h with rfl | h
        · exact .inr List.mem_cons_self
        · exact (ih h).imp_right (List.mem_cons_of_mem _)

/-- **Setting a name keeps the order**, whether the name is there already or is put in at its place.
-/
theorem ascending_insert {name : String} {value : Json} {ms : Members}
    (h : StrictlyAscending ms.names) : StrictlyAscending (insert name value ms).names := by
  -- by induction along the members, up to the place of the name
  induction ms with
  | nil => exact List.pairwise_singleton _ _
  | cons head rest ih =>
    obtain ⟨k, v⟩ := head
    have hhead := h
    rw [names, StrictlyAscending, List.map_cons, List.pairwise_cons] at hhead
    rw [insert]
    split
    · -- the name is there: only its value changes
      next heq =>
      subst heq
      exact h
    · next hne =>
      split
      · next hlt =>
        rw [names, StrictlyAscending, List.map_cons, List.pairwise_cons]
        refine ⟨fun n hn => ?_, h⟩
        -- the new name is below the first one, and hence below all
        rcases List.mem_cons.mp hn with rfl | hn
        · exact hlt
        · exact lt_trans hlt (hhead.1 n hn)
      · -- further down, where the names are those of `rest` and the new one
        next hle =>
        rw [names, StrictlyAscending, List.map_cons, List.pairwise_cons]
        refine ⟨fun n hn => ?_, ih hhead.2⟩
        obtain ⟨m, hm, rfl⟩ := List.mem_map.mp hn
        rcases mem_insert hm with rfl | hm
        · exact lt_of_le_of_ne (not_lt.mp hle) (Ne.symm hne)
        · exact hhead.1 _ (List.mem_map_of_mem hm)

/-- **Members that were put together are in order.** -/
theorem ascending_ofList (pairs : List (String × Json)) :
    StrictlyAscending (ofList pairs).names := by
  -- from left to right, what has been put together so far is in order
  suffices key : ∀ done : Members, StrictlyAscending done.names →
      StrictlyAscending (names (pairs.foldl (fun ms m => insert m.1 m.2 ms) done)) from
    key [] List.Pairwise.nil
  induction pairs with
  | nil => exact fun done h => h
  | cons m rest ih => exact fun done h => ih _ (ascending_insert h)

/-- What was put together has no other members than those it was put together from. Of a repeated
name only the last one stays. -/
theorem mem_ofList {pairs : List (String × Json)} {m : String × Json} (h : m ∈ ofList pairs) :
    m ∈ pairs := by
  suffices key : ∀ done : Members, m ∈ pairs.foldl (fun ms m => insert m.1 m.2 ms) done →
      m ∈ done ∨ m ∈ pairs from (key [] h).resolve_left List.not_mem_nil
  clear h
  -- what has been put together so far is carried along
  induction pairs with
  | nil => exact fun done h => .inl h
  | cons head rest ih =>
    intro done h
    rcases ih _ h with h | h
    · rcases mem_insert h with rfl | h
      · exact .inr List.mem_cons_self
      · exact .inl h
    · exact .inr (List.mem_cons_of_mem _ h)

/-- A name set for the first time adds a member. -/
theorem insert_perm {name : String} {value : Json} {ms : Members} (h : name ∉ ms.names) :
    (insert name value ms).Perm ((name, value) :: ms) := by
  induction ms with
  | nil => exact .refl _
  | cons head rest ih =>
    obtain ⟨k, v⟩ := head
    obtain ⟨hk, hrest⟩ := not_or.mp (mt List.mem_cons.mpr h)
    rw [insert, if_neg hk]
    split
    · exact .refl _
    · exact ((ih hrest).cons _).trans (.swap _ _ rest)

/-- **Pairs of distinct names are all put together**, in order. -/
theorem ofList_perm {pairs : List (String × Json)} (h : (pairs.map Prod.fst).Nodup) :
    (ofList pairs).Perm pairs := by
  suffices key : ∀ done : Members, ((done ++ pairs).map Prod.fst).Nodup →
      (pairs.foldl (fun ms m => insert m.1 m.2 ms) done).Perm (done ++ pairs) from key [] h
  clear h
  induction pairs with
  | nil =>
    intro done _
    rw [List.foldl_nil, List.append_nil]
  | cons m rest ih =>
    intro done h
    -- the name is set for the first time, so nothing is overwritten
    have hnew : m.1 ∉ done.names := by
      rw [List.map_append, List.map_cons, List.nodup_append] at h
      exact fun hmem => h.2.2 _ hmem _ List.mem_cons_self rfl
    have hperm : (insert m.1 m.2 done ++ rest).Perm (done ++ m :: rest) :=
      ((insert_perm hnew).append_right rest).trans List.perm_middle.symm
    exact (ih _ ((hperm.map Prod.fst).nodup_iff.mpr h)).trans hperm

end Members

/-! ### Parts -/

namespace Json

/-- An array is canonical if its items are. -/
theorem canonical_arr {items : List Json} :
    (arr items).Canonical ↔ ∀ j ∈ items, j.Canonical := by
  rw [Canonical]
  induction items with
  | nil => simp [CanonicalItems]
  | cons j rest ih => rw [CanonicalItems, ih, List.forall_mem_cons]

/-- An object is canonical if its names ascend and the values of its members are canonical. -/
theorem canonical_obj {members : Members} :
    (obj members).Canonical ↔
      StrictlyAscending members.names ∧ ∀ m ∈ members, m.2.Canonical := by
  have hmembers : CanonicalMembers members ↔ ∀ m ∈ members, m.2.Canonical := by
    induction members with
    | nil => simp [CanonicalMembers]
    | cons m rest ih =>
      obtain ⟨name, j⟩ := m
      rw [CanonicalMembers, ih, List.forall_mem_cons]
  rw [Canonical, hmembers, Members.names]

/-- A canonical object stays canonical when a name is set to a canonical value. -/
theorem canonical_insert {name : String} {value : Json} {members : Members}
    (h : (obj members).Canonical) (hvalue : value.Canonical) :
    (obj (Members.insert name value members)).Canonical := by
  obtain ⟨hasc, hmembers⟩ := canonical_obj.mp h
  refine canonical_obj.mpr ⟨Members.ascending_insert hasc, fun m hm => ?_⟩
  rcases Members.mem_insert hm with rfl | hm
  · exact hvalue
  · exact hmembers m hm

/-- Members with canonical values make up a canonical object, in whatever order they are given. -/
theorem canonical_ofList {pairs : List (String × Json)} (h : ∀ m ∈ pairs, m.2.Canonical) :
    (obj (Members.ofList pairs)).Canonical :=
  canonical_obj.mpr ⟨Members.ascending_ofList pairs, fun m hm => h m (Members.mem_ofList hm)⟩

end Json

/-! ### Reading -/

namespace Written

mutual

/-- **The value of a tree is canonical**, since its objects are put together member by member. -/
theorem canonical_of_value? : ∀ {w : Written} {room : Nat} {d : Json}, w.value? room = some d →
    d.Canonical
  | .null, room, d, h | .bool _, room, d, h | .num _, room, d, h => by
    rw [value?] at h
    injection h with h
    exact h ▸ trivial
  | .str s, room, d, h => by
    rw [value?] at h
    obtain ⟨t, -, rfl⟩ := Option.map_eq_some_iff.mp h
    trivial
  | .arr items, 0, d, h => by
    rw [value?] at h
    cases h
  | .arr items, room + 1, d, h => by
    rw [value?] at h
    obtain ⟨ds, hds, rfl⟩ := Option.map_eq_some_iff.mp h
    exact Json.canonical_arr.mpr (canonical_of_itemValues? hds)
  | .obj members, 0, d, h => by
    rw [value?] at h
    cases h
  | .obj members, room + 1, d, h => by
    rw [value?] at h
    -- the order in which the members were written does not matter
    obtain ⟨ms, hms, rfl⟩ := Option.map_eq_some_iff.mp h
    exact Json.canonical_ofList (canonical_of_memberValues? hms)

theorem canonical_of_itemValues? : ∀ {items : List Written} {room : Nat} {ds : List Json},
    itemValues? room items = some ds → ∀ d ∈ ds, d.Canonical
  | [], room, ds, h => by
    rw [itemValues?] at h
    injection h with h
    exact h ▸ fun d hd => absurd hd List.not_mem_nil
  | item :: rest, room, ds, h => by
    rw [itemValues?] at h
    obtain ⟨d, hd, h⟩ := Option.bind_eq_some_iff.mp h
    obtain ⟨ds', hds, h⟩ := Option.bind_eq_some_iff.mp h
    injection h with h
    rw [← h, List.forall_mem_cons]
    exact ⟨canonical_of_value? hd, canonical_of_itemValues? hds⟩

/-- The values of members are, too; their names come in the order of the text. -/
theorem canonical_of_memberValues? : ∀ {members : List (Option String × Written)} {room : Nat}
    {ms : List (String × Json)}, memberValues? room members = some ms → ∀ m ∈ ms, m.2.Canonical
  | [], room, ms, h => by
    rw [memberValues?] at h
    injection h with h
    exact h ▸ fun m hm => absurd hm List.not_mem_nil
  | (name, item) :: rest, room, ms, h => by
    rw [memberValues?] at h
    obtain ⟨k, -, h⟩ := Option.bind_eq_some_iff.mp h
    obtain ⟨d, hd, h⟩ := Option.bind_eq_some_iff.mp h
    obtain ⟨ms', hms, h⟩ := Option.bind_eq_some_iff.mp h
    injection h with h
    rw [← h, List.forall_mem_cons]
    exact ⟨canonical_of_value? hd, canonical_of_memberValues? hms⟩

end

end Written

namespace Json

/-- **What is read from a text is canonical**, whatever the order of the members in it and however
often a name is repeated. So what is proved of canonical documents holds of every document that can
arrive. -/
theorem canonical_of_parse? {text : String} {d : Json} (h : parse? text = some d) :
    d.Canonical := by
  obtain ⟨w, -, hw⟩ := Option.bind_eq_some_iff.mp h
  exact Written.canonical_of_value? hw

/-! ### Deciding -/

mutual

/-- Whether a value is canonical can be computed, part by part. The instances are terms, so that
`decide` can run them. -/
def decCanonical : (d : Json) → Decidable d.Canonical
  | null | bool _ | num _ | str _ => isTrue trivial
  | arr items => decCanonicalItems items
  | obj members =>
    have : Decidable (StrictlyAscending (members.map Prod.fst)) := by
      unfold StrictlyAscending
      infer_instance
    have := decCanonicalMembers members
    inferInstanceAs (Decidable (StrictlyAscending _ ∧ _))

def decCanonicalItems : (items : List Json) → Decidable (CanonicalItems items)
  | [] => isTrue trivial
  | item :: rest =>
    have := decCanonical item
    have := decCanonicalItems rest
    inferInstanceAs (Decidable (item.Canonical ∧ CanonicalItems rest))

/-- Whether all members have canonical values is decided member by member. -/
def decCanonicalMembers : (members : List (String × Json)) → Decidable (CanonicalMembers members)
  | [] => isTrue trivial
  | (_, value) :: rest =>
    have := decCanonical value
    have := decCanonicalMembers rest
    inferInstanceAs (Decidable (value.Canonical ∧ CanonicalMembers rest))

end

instance : DecidablePred Canonical := decCanonical

end Json
end DocStream
