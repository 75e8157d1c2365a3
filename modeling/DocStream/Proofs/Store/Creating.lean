import DocStream.Proofs.Store.Contents
import DocStream.Proofs.Store.Revisions

/-!
# Documents without an id

A document that brings no id is written under one that is made of the number of its write. Numbers
are given out once, so no two made ids are alike. But nothing keeps a document from bringing an id
that has the form of a made one, and the number that it spells may come later: then the document
that is written under the made id meets the one that is there.

* `Database.write_setId` — a made id is as good as one that the document brings;
* `Occupies` — **the invariant** between the writes made so far and the ids of the store;
* `WriteCall.creates_iff_unclaimed` — **a document without an id is created, as long as no earlier
  document brought the id that is made for it.**

The invariant has three parts. The number of a database counts its writes, so a made id tells how
many there were before it. The ids of the store are those that were written under. And made ids come
of numbers up to the present one. With the three, the id that is made next is taken exactly if a
document brought it.
-/

namespace DocStream

/-! ### Made ids -/

/-- Of two values that are set under one name the later counts. -/
theorem Members.insert_insert (name : String) (value value' : Json) (ms : Members) :
    insert name value' (insert name value ms) = insert name value' ms := by
  -- by induction along the members, up to the place of the name
  induction ms with
  | nil =>
    show insert name value' [(name, value)] = [(name, value')]
    rw [insert, if_pos rfl]
  | cons m rest ih =>
    obtain ⟨k, old⟩ := m
    by_cases hk : name = k
    · rw [insert, insert, if_pos hk, if_pos hk, insert, if_pos rfl]
    · by_cases hlt : name < k
      · rw [insert, insert, if_neg hk, if_neg hk, if_pos hlt, if_pos hlt, insert, if_pos rfl]
      · rw [insert, insert, if_neg hk, if_neg hk, if_neg hlt, if_neg hlt, insert, if_neg hk,
          if_neg hlt, ih]

namespace OutboundDocument

theorem rev?_setId (d : OutboundDocument) (id : String) : (d.setId id).rev? = d.rev? := by
  unfold rev? setId
  rw [Members.get?_insert_of_ne _ _ (by decide)]

theorem setId_setId (d : OutboundDocument) (id id' : String) :
    (d.setId id).setId id' = d.setId id' :=
  congrArg mk (Members.insert_insert _ _ _ _)

end OutboundDocument

namespace Database

/-- **Made ids are distinct.** -/
theorem freshId_inj {m n : Nat} (h : freshId m = freshId n) : m = n := by
  unfold freshId at h
  rw [← Hex.value_padded 32 m, h, Hex.value_padded]

/-- **A made id is as good as one that the document brings.** -/
theorem write_setId (db : Database) (doc : OutboundDocument) :
    db.write (doc.setId (db.idFor doc)) = db.write doc := by
  have hid : (doc.setId (db.idFor doc)).id?.getD (freshId (db.seq + 1)) =
      doc.id?.getD (freshId (db.seq + 1)) := by
    rw [OutboundDocument.id?_setId, Option.getD_some]
    rfl
  unfold write
  dsimp only
  rw [hid, OutboundDocument.rev?_setId, OutboundDocument.isDeleted_setId]
  simp only [OutboundDocument.setId_setId]

/-- **A write adds no id** but that of its document. -/
theorem get?_write_ne_none (db : Database) (doc : OutboundDocument) (id : String) :
    (db.write doc).2.get? id ≠ none ↔ db.get? id ≠ none ∨ db.idFor doc = id := by
  rcases hw : db.write doc with ⟨outcome, db'⟩
  cases writes hw with
  | conflict refused =>
    -- the document that is in the way has the id
    refine ⟨.inl, fun h => h.elim (fun hid => hid) ?_⟩
    rintro rfl hnone
    rw [show db.get? (db.idFor doc) = none from hnone] at refused
    cases refused
  | @stored d next rev seq deleted body =>
    rw [get?_store]
    split
    · next hid => exact iff_of_true (Option.some_ne_none d) (.inr hid.symm)
    · next hid => exact ⟨.inl, fun h => h.resolve_right (Ne.symm hid)⟩

end Database

/-! ### The id of a write -/

namespace Write

/-- The id that the document is written under. -/
def target (w : Write) : String := (w.before.databaseOf w.database).idFor w.doc

/-- The write of the document with that id among its properties. -/
def named (w : Write) : Write := { w with doc := w.doc.setId w.target }

variable {w : Write} {id : String}

theorem target_of_id? (h : w.doc.id? = some id) : w.target = id := by
  unfold target Database.idFor
  rw [h, Option.getD_some]

/-- A document without an id is written under the id that is made of the next number. -/
theorem target_of_none (h : w.doc.id? = none) :
    w.target = Database.freshId ((w.before.databaseOf w.database).seq + 1) := by
  unfold target Database.idFor
  rw [h, Option.getD_none]

theorem id?_named (w : Write) : w.named.doc.id? = some w.target :=
  OutboundDocument.id?_setId _ _

theorem rev?_named (w : Write) : w.named.doc.rev? = w.doc.rev? :=
  OutboundDocument.rev?_setId _ _

/-- **Naming the made id changes nothing**, so what is known of writes that name an id holds of all.
-/
theorem write_named (w : Write) :
    w.named.before.write w.named.database w.named.doc = w.before.write w.database w.doc := by
  show w.before.write w.database (w.doc.setId w.target) = w.before.write w.database w.doc
  unfold MemoryStore.write target
  rw [Database.write_setId]

theorem outcome_named (w : Write) : w.named.outcome = w.outcome := congrArg Prod.fst w.write_named

theorem after_named (w : Write) : w.named.after = w.after := congrArg Prod.snd w.write_named

/-- A write answers with the id that it writes under, whatever becomes of it. -/
theorem id_outcome (w : Write) : w.outcome.id = some w.target := by
  unfold outcome target
  show ((w.before.databaseOf w.database).write w.doc).1.id = _
  rcases hw : (w.before.databaseOf w.database).write w.doc with ⟨outcome, db'⟩
  cases Database.writes hw <;> rfl

/-- **A document is created** under an id: no document, live or deleted, had the id before, the
document is now stored under it as it was written, at its first generation, and nothing else has
changed. -/
structure Creates (w : Write) (id : String) : Prop where
  new : w.before.stored? w.database id = none
  ok : w.outcome.ok = true
  answered : w.outcome.id = some id
  stored : ∃ d, w.after.stored? w.database id = some d ∧ d.generation = 1 ∧
    w.outcome.rev = some d.rev ∧ d.deleted = w.doc.isDeleted ∧
    d.body = ((w.doc.setId id).setRev d.rev).body
  others : ∀ other, other ≠ id →
    w.after.stored? w.database other = w.before.stored? w.database other
  databases : ∀ name, name ≠ w.database → w.after.database? name = w.before.database? name

/-- A document is created under the id that it is written under. -/
theorem Creates.new_target (h : w.Creates id) : w.before.stored? w.database w.target = none := by
  have hid : w.target = id := Option.some.inj (w.id_outcome.symm.trans h.answered)
  rw [hid]
  exact h.new

/-- **A document whose id is new is created**, whatever revision it names. -/
theorem creates_of_new (h : w.before.stored? w.database w.target = none) :
    w.Creates w.target := by
  have hframe := frame w.id?_named
  rw [after_named] at hframe
  -- what is left alone is known of every write, so only the document itself is left to look at
  suffices hstored : w.outcome.ok = true ∧ ∃ d, w.after.stored? w.database w.target = some d ∧
      d.generation = 1 ∧ w.outcome.rev = some d.rev ∧ d.deleted = w.doc.isDeleted ∧
      d.body = ((w.doc.setId w.target).setRev d.rev).body from
    ⟨h, hstored.1, w.id_outcome, hstored.2, hframe.2, hframe.1⟩
  obtain ⟨s, database, doc⟩ := w
  rcases hw : (s.databaseOf database).write doc with ⟨outcome, db'⟩
  have houtcome : (⟨s, database, doc⟩ : Write).outcome = outcome := congrArg Prod.fst hw
  have hafter : ∀ id, (⟨s, database, doc⟩ : Write).after.stored? database id = db'.get? id := by
    intro id
    show (s.write database doc).2.stored? database id = db'.get? id
    rw [MemoryStore.stored?_write, if_pos rfl, hw]
  have hnone : (s.databaseOf database).get? ((s.databaseOf database).idFor doc) = none := h
  rw [houtcome, hafter]
  -- nothing is there to conflict with, and the first generation is the one after none
  cases Database.writes hw with
  | conflict refused =>
    rw [hnone] at refused
    cases refused
  | @stored d next rev seq deleted body =>
    rw [hnone] at next
    have hfirst : d.generation = 1 := (Option.some.inj next).symm
    refine ⟨rfl, d, ?_, hfirst, rfl, deleted, body⟩
    rw [Database.get?_store]
    exact if_pos rfl

end Write

/-! ### The invariant -/

/-- **The writes made so far and the ids of the store they lead to.** -/
structure Occupies (log : List Write) (s : MemoryStore) : Prop where
  /-- Every write took a number. -/
  count : ∀ database, (s.databaseOf database).seq = log.countP (·.database == database)
  /-- The ids of a database are those that documents were written under. -/
  stored : ∀ database id, s.stored? database id ≠ none ↔
    ∃ u ∈ log, u.database = database ∧ u.target = id
  /-- Every made id was made of a number up to the present one. -/
  made : ∀ u ∈ log, u.doc.id? = none →
    ∃ n, u.target = Database.freshId n ∧ n ≤ (s.databaseOf u.database).seq

namespace Occupies

theorem fresh : Occupies [] {} where
  count _ := rfl
  stored _ _ := iff_of_false (fun h => h rfl) fun ⟨_, hu, _⟩ => List.not_mem_nil hu
  made _ hu := absurd hu List.not_mem_nil

variable {log : List Write} {s : MemoryStore}

theorem opened (h : Occupies log s) (database : String) : Occupies log (s.opened database) where
  count name := by
    rw [MemoryStore.databaseOf_opened]
    exact h.count name
  stored name id := by
    unfold MemoryStore.stored?
    rw [MemoryStore.databaseOf_opened]
    exact h.stored name id
  made u hu hid := by
    rw [MemoryStore.databaseOf_opened]
    exact h.made u hu hid

/-- **A write keeps the invariant.** -/
theorem write (h : Occupies log s) (database : String) (doc : OutboundDocument) :
    Occupies (log ++ [⟨s, database, doc⟩]) (s.write database doc).2 := by
  constructor
  case count =>
    intro name
    rw [MemoryStore.databaseOf_write, List.countP_append, List.countP_singleton]
    by_cases hname : name = database
    · rw [if_pos hname, Database.seq_write, hname, h.count, beq_self_eq_true, if_pos rfl]
    · rw [if_neg hname, h.count, beq_false_of_ne (Ne.symm hname), if_neg Bool.false_ne_true,
        Nat.add_zero]
  case stored =>
    intro name id
    simp only [List.mem_append, List.mem_singleton, or_and_right, exists_or, exists_eq_left]
    rw [MemoryStore.stored?_write, ← h.stored]
    by_cases hname : name = database
    · -- in the database of the write there is one more id at most
      rw [if_pos hname, Database.get?_write_ne_none, hname, eq_self_iff_true, true_and]
      rfl
    · rw [if_neg hname, or_iff_left fun hlast => hname hlast.1.symm]
  case made =>
    intro u hu hid
    rcases List.mem_append.mp hu with hu | hu
    · obtain ⟨n, hn, hle⟩ := h.made u hu hid
      exact ⟨n, hn, hle.trans (s.seq_le_seq_write database doc u.database)⟩
    · obtain rfl := List.mem_singleton.mp hu
      refine ⟨_, Write.target_of_none hid, ?_⟩
      rw [MemoryStore.databaseOf_write, if_pos rfl, Database.seq_write]

end Occupies

/-- **The invariant holds before every write of a run.** -/
theorem WriteCall.occupies_before {calls : List WriteCall} {earlier later : List Write} {w : Write}
    (h : logAll {} calls = earlier ++ w :: later) : Occupies earlier w.before :=
  holds_before (fun _ _ database h => h.opened database)
    (fun _ _ database doc h => h.write database doc) Occupies.fresh h

/-! ### When a document without an id is created -/

/-- **The id made for a document** that is written after others: it tells how many writes its
database has seen. -/
def madeId (earlier : List Write) (database : String) : String :=
  Database.freshId (earlier.countP (·.database == database) + 1)

namespace Occupies

variable {earlier : List Write} {w : Write}

/-- A document that brings no id is written under the one that is made for it. -/
theorem target_eq (h : Occupies earlier w.before) (hid : w.doc.id? = none) :
    w.target = madeId earlier w.database := by
  rw [Write.target_of_none hid, h.count]
  rfl

/-- **A made id is new exactly if no earlier document brought it**: the ids that were made earlier
come of smaller numbers. -/
theorem stored?_eq_none_iff (h : Occupies earlier w.before) :
    w.before.stored? w.database (madeId earlier w.database) = none ↔
      ∀ u ∈ earlier, u.database = w.database → u.doc.id? ≠ some (madeId earlier w.database) := by
  have hstored := h.stored w.database (madeId earlier w.database)
  constructor
  · intro hnone u hu hdb hid
    exact hstored.mpr ⟨u, hu, hdb, Write.target_of_id? hid⟩ hnone
  · intro hunclaimed
    by_contra hsome
    obtain ⟨u, hu, hdb, htarget⟩ := hstored.mp hsome
    cases hid : u.doc.id? with
    | some id =>
      apply hunclaimed u hu hdb
      rw [hid, ← htarget, Write.target_of_id? hid]
    | none =>
      -- a made id that is the same was made of the same number, and that is yet to come
      obtain ⟨n, hn, hle⟩ := h.made u hu hid
      have heq : n = earlier.countP (·.database == w.database) + 1 :=
        Database.freshId_inj (hn.symm.trans htarget)
      rw [hdb, h.count] at hle
      omega

end Occupies

/-- **Writing over the document that has the made id** follows the rules of any other document. -/
structure Write.MeetsAt (w : Write) (id : String) (d : StoredDocument) : Prop where
  ok_iff : w.outcome.ok = true ↔ w.doc.rev? = some d.rev ∨ (d.deleted = true ∧ w.doc.rev? = none)
  refused : w.outcome.ok = false → w.after.SameAnswers w.before
  next : w.outcome.ok = true → ∃ d', w.after.stored? w.database id = some d' ∧
    w.outcome.rev = some d'.rev ∧ d'.generation = d.generation + 1

/-- A write that finds a document under its id meets it. -/
theorem Write.meetsAt_of_found {w : Write} {d : StoredDocument}
    (hd : w.before.stored? w.database w.target = some d) : w.MeetsAt w.target d := by
  have hfound : w.named.found? w.target = some d := hd
  have hok := ok_iff_of_found w.id?_named hfound
  rw [outcome_named, rev?_named] at hok
  -- the write with the id named is one of a document that is there
  have heffect := effect w.id?_named
  rw [outcome_named, after_named, hfound] at heffect
  refine ⟨hok, fun hno => ?_, fun hyes => ?_⟩
  · rcases heffect with ⟨-, -, hsame⟩ | ⟨hyes, -⟩
    · exact hsame
    · cases hno.symm.trans hyes
  · rcases heffect with ⟨hno, -⟩ | ⟨-, -, -, d', hd', hrev, hgeneration, -⟩
    · cases hno.symm.trans hyes
    · exact ⟨d', hd', hrev, hgeneration⟩

/-- **When a document without an id is created.** In every run of calls that write, starting from an
empty store, a document without an id is written under the id that is made of the number of its
write. It is created there exactly if no earlier document of the database brought that id; and if a
document has it, that one is written over or conflicts as if the id had been named. Documents under
other ids and in other databases are left alone either way. -/
theorem WriteCall.creates_iff_unclaimed {calls : List WriteCall} {earlier later : List Write}
    {w : Write} (hlog : logAll {} calls = earlier ++ w :: later) (hid : w.doc.id? = none) :
    w.outcome.id = some (madeId earlier w.database) ∧
    (w.Creates (madeId earlier w.database) ↔
      ∀ u ∈ earlier, u.database = w.database → u.doc.id? ≠ some (madeId earlier w.database)) ∧
    (∀ d, w.before.stored? w.database (madeId earlier w.database) = some d →
      w.MeetsAt (madeId earlier w.database) d) ∧
    (∀ name, name ≠ w.database → w.after.database? name = w.before.database? name) ∧
    ∀ other, other ≠ madeId earlier w.database →
      w.after.stored? w.database other = w.before.stored? w.database other := by
  have hoccupies := occupies_before hlog
  have htarget := hoccupies.target_eq hid
  have hframe := Write.frame w.id?_named
  rw [Write.after_named, htarget] at hframe
  refine ⟨htarget ▸ w.id_outcome, ?_, fun d hd => ?_, hframe⟩
  · -- to be created and to find nothing under the id are the same
    rw [← hoccupies.stored?_eq_none_iff]
    refine ⟨Write.Creates.new, fun hnew => ?_⟩
    rw [← htarget] at hnew ⊢
    exact Write.creates_of_new hnew
  · rw [← htarget] at hd ⊢
    exact Write.meetsAt_of_found hd

/-- A document without an id after a conflict: its id was brought to another database only. -/
theorem WriteCall.creates_iff_unclaimed_conflict :
    let calls := [WriteCall.put "db" [("_id", .str "a")],
      .put "other" [("_id", .str "00000000000000000000000000000003")],
      .bulkWrite "db" [⟨[("_id", .str "a")]⟩, ⟨[("_id", .null), ("_rev", .str "7-0")]⟩]]
    ∃ earlier w later, logAll {} calls = earlier ++ w :: later ∧ w.doc.id? = none ∧
      earlier.map (·.outcome.ok) = [true, true, false] ∧
      w.Creates "00000000000000000000000000000003" := by
  intro calls
  have hlog : logAll {} calls = (logAll {} calls).take 3 ++ (logAll {} calls)[3] :: [] := rfl
  have hmade : madeId ((logAll {} calls).take 3) "db" = "00000000000000000000000000000003" := by
    decide +kernel
  have hcreates := (creates_iff_unclaimed hlog (by decide)).2.1
  rw [show (logAll {} calls)[3].database = "db" from rfl, hmade] at hcreates
  exact ⟨_, _, _, hlog, by decide, by decide +kernel, hcreates.mpr (by decide)⟩

/-- **A document without an id need not be created**: the id that is made for it was brought by the
document before. It conflicts with that, or, if that is deleted, continues its history. -/
theorem WriteCall.not_creates_claimed :
    let calls := fun deleted => [WriteCall.put "db"
      [("_deleted", .bool deleted), ("_id", .str "00000000000000000000000000000002")],
      .put "db" [("n", .null)]]
    (∃ earlier w, logAll {} (calls false) = earlier ++ [w] ∧ w.doc.id? = none ∧
      (∀ id, ¬w.Creates id) ∧ w.outcome.ok = false) ∧
    ∃ earlier w, logAll {} (calls true) = earlier ++ [w] ∧ w.doc.id? = none ∧
      (∀ id, ¬w.Creates id) ∧ w.outcome.rev = some "2-0000000000000002" := by
  intro calls
  have hlive : logAll {} (calls false) =
    (logAll {} (calls false)).take 1 ++ [(logAll {} (calls false))[1]] := rfl
  have hdeleted : logAll {} (calls true) =
    (logAll {} (calls true)).take 1 ++ [(logAll {} (calls true))[1]] := rfl
  refine ⟨⟨_, _, hlive, by decide, fun id h => ?_, by decide +kernel⟩,
    ⟨_, _, hdeleted, by decide, fun id h => ?_, by decide +kernel⟩⟩
  · exact absurd h.new_target (by decide +kernel)
  · exact absurd h.new_target (by decide +kernel)

end DocStream
