import DocStream.Proofs.Store.Writing

/-!
# Optimistic concurrency

A write that names a document has to name the document's current revision too. Revisions are never
given out twice, so of several writes based on one revision the first that succeeds shuts out the
others, however creations, updates, deletions and conflicts are mixed.

* `Tracks` — **the invariant** between the writes made so far and the store they lead to;
* `Write.IsOptimistic` — what is asked of a write after the writes made earlier;
* `WriteCall.isOptimistic_of_logAll` — **every write of every run is optimistic**.

Sequence numbers are natural numbers here, so nothing depends on how many writes there are.

A revision spells the number of the write that gave it out, and every write takes a number, so no
revision comes twice. That the revision of a document in the store is the one that its latest
successful write answered with is the other part of the invariant. From the two, whether a write
succeeds can be told from the outcomes before it, without looking at the store.
-/

namespace DocStream

/-! ### What was written last -/

/-- Did the write store a document under the id? It did if it succeeded, in the database, and
answered with the id. -/
def Write.stores (w : Write) (database id : String) : Bool :=
  w.outcome.ok && w.database == database && w.outcome.id == some id

/-- **The latest successful write of an id.** Writes that failed do not count, and neither do writes
to other databases. -/
def lastStored (log : List Write) (database id : String) : Option Write :=
  (log.filter (·.stores database id)).getLast?

/-- One more write is the latest if it stored a document under the id, and otherwise the latest is
what it was. -/
theorem lastStored_concat (log : List Write) (w : Write) (database id : String) :
    lastStored (log ++ [w]) database id =
      if w.stores database id then some w else lastStored log database id := by
  rw [lastStored, List.filter_append, List.filter_singleton]
  cases w.stores database id with
  | true => exact List.getLast?_concat
  | false => exact congrArg List.getLast? (List.append_nil _)

/-- The latest successful write is a successful write of the run. -/
theorem lastStored_eq_some {log : List Write} {database id : String} {u : Write}
    (h : lastStored log database id = some u) : u ∈ log ∧ u.stores database id = true :=
  List.mem_filter.mp (List.mem_of_getLast? h)

/-- After a successful write the latest one is that or a later one; what was stored earlier is out
of date. -/
theorem exists_lastStored {earlier later : List Write} {w : Write} {database id : String}
    (hw : w.stores database id = true) :
    ∃ u ∈ w :: later, lastStored (earlier ++ w :: later) database id = some u := by
  rw [lastStored, List.filter_append, List.filter_cons, if_pos hw, List.getLast?_append,
    List.getLast?_cons, Option.some_or]
  refine ⟨_, ?_, rfl⟩
  cases hl : (later.filter (·.stores database id)).getLast? with
  | none => exact List.mem_cons_self
  | some u => exact List.mem_cons_of_mem _ (List.mem_filter.mp (List.mem_of_getLast? hl)).1

/-! ### One write -/

namespace Database

/-- **When a document that is there may be written over**: by a write that names its revision, or,
if it is deleted, by one that names none. A live document is never written over unseen. -/
theorem nextGeneration?_ne_none {d : StoredDocument} {rev : Option String} :
    nextGeneration? (some d) rev ≠ none ↔ rev = some d.rev ∨ (d.deleted = true ∧ rev = none) := by
  cases rev with
  | none => simp [nextGeneration?]
  | some rev => simp [nextGeneration?, eq_comm (a := d.rev)]

/-- **Generations count** the successful writes of a document, deletions and the writes after them
included, from one on. -/
theorem nextGeneration?_eq_some {current : Option StoredDocument} {rev : Option String} {n : Nat}
    (h : nextGeneration? current rev = some n) :
    n = (current.map StoredDocument.generation).getD 0 + 1 := by
  cases current with
  | none => exact (Option.some.inj h).symm
  | some d =>
    cases rev with
    | none =>
      rw [nextGeneration?] at h
      split at h
      · exact (Option.some.inj h).symm
      · exact nomatch h
    | some rev =>
      rw [nextGeneration?] at h
      split at h
      · exact (Option.some.inj h).symm
      · exact nomatch h

end Database

namespace MemoryStore

/-- **Stores that answer alike**: nobody can tell one from the other by reading documents, counting
them or following changes. Their sequence numbers may differ. -/
structure SameAnswers (s t : MemoryStore) : Prop where
  get : ∀ database id, s.get? database id = t.get? database id
  count : ∀ database, s.docCount database = t.docCount database
  changes : ∀ r, s.changes r = t.changes r

/-- Answers come from the documents alone, so two stores that have the same databases with the same
documents in them answer alike. -/
theorem sameAnswers_of_docs {s t : MemoryStore}
    (h : ∀ name, (s.database? name).map Database.docs = (t.database? name).map Database.docs) :
    s.SameAnswers t := by
  -- the databases are missing from both stores, or have the same documents
  have hcases : ∀ name, (s.database? name = none ∧ t.database? name = none) ∨
      ∃ n m docs, s.database? name = some ⟨n, docs⟩ ∧ t.database? name = some ⟨m, docs⟩ := by
    intro name
    have hname := h name
    cases hs : s.database? name with
    | none =>
      rw [hs] at hname
      exact .inl ⟨rfl, Option.map_eq_none_iff.mp hname.symm⟩
    | some db =>
      rw [hs] at hname
      obtain ⟨db', ht, hdocs⟩ := Option.map_eq_some_iff.mp hname.symm
      exact .inr ⟨db.seq, db'.seq, db.docs, rfl, hdocs ▸ ht⟩
  constructor
  · intro database id
    rw [get?, get?]
    rcases hcases database with ⟨hs, ht⟩ | ⟨n, m, docs, hs, ht⟩
    · rw [hs, ht]
    · rw [hs, ht]
      rfl
  · intro database
    rw [docCount, docCount]
    rcases hcases database with ⟨hs, ht⟩ | ⟨n, m, docs, hs, ht⟩
    · rw [hs, ht]
    · rw [hs, ht]
      rfl
  · intro r
    rw [changes, changes]
    rcases hcases r.database with ⟨hs, ht⟩ | ⟨n, m, docs, hs, ht⟩
    · rw [hs, ht]
    · rw [hs, ht]
      rfl

/-- A write changes what is stored in its own database only, and there it does what the database
does. -/
theorem stored?_write (s : MemoryStore) (database : String) (doc : OutboundDocument)
    (name id : String) : (s.write database doc).2.stored? name id =
      if name = database then ((s.databaseOf database).write doc).2.get? id
      else s.stored? name id := by
  rw [stored?, databaseOf_write]
  split <;> rfl

/-- Reading gives the body of the document that is stored, unless that is deleted, which reads as if
there were none. -/
theorem get?_eq (s : MemoryStore) (database id : String) : s.get? database id =
    (s.stored? database id).bind fun d => if d.deleted then none else some (.obj d.body) := by
  rw [get?, stored?, databaseOf]
  cases s.database? database <;> rfl

/-- A database with a document in it is there, since one that is not there counts as empty. -/
theorem database?_of_stored? {s : MemoryStore} {database id : String} {d : StoredDocument}
    (h : s.stored? database id = some d) :
    s.database? database = some (s.databaseOf database) := by
  rw [stored?, databaseOf] at h
  rw [databaseOf]
  cases hdb : s.database? database with
  | none =>
    rw [hdb] at h
    cases h
  | some db => rfl

end MemoryStore

namespace Write

variable {w : Write} {id : String}

/-- The document that a write finds under an id, live or deleted, in the database that it writes to.
-/
def found? (w : Write) (id : String) : Option StoredDocument := w.before.stored? w.database id

/-- **What a write of an id does**: it conflicts with the document that is there, and all answers
stay as they are, or it stores a document of the next generation and a new revision under the id. -/
theorem effect (hid : w.doc.id? = some id) :
    (w.outcome.ok = false ∧ Database.nextGeneration? (w.found? id) w.doc.rev? = none ∧
      w.after.SameAnswers w.before) ∨
    (w.outcome.ok = true ∧ w.outcome.id = some id ∧
      Database.nextGeneration? (w.found? id) w.doc.rev? ≠ none ∧
      ∃ d, w.after.stored? w.database id = some d ∧ w.outcome.rev = some d.rev ∧
        d.generation = ((w.found? id).map StoredDocument.generation).getD 0 + 1 ∧
        d.rev = Database.revision d.generation ((w.before.databaseOf w.database).seq + 1)) := by
  obtain ⟨s, database, doc⟩ := w
  have hfor : (s.databaseOf database).idFor doc = id := by
    rw [Database.idFor, show doc.id? = some id from hid, Option.getD_some]
  rcases hw : (s.databaseOf database).write doc with ⟨outcome, db'⟩
  have houtcome : (⟨s, database, doc⟩ : Write).outcome = outcome := congrArg Prod.fst hw
  have hafter : (⟨s, database, doc⟩ : Write).after = s.withDatabase database db' := by
    rw [after, MemoryStore.write, hw]
  rw [houtcome, hafter]
  -- the two cases of a write in its database, and what they mean for the store
  cases Database.writes hw with
  | conflict refused =>
    rw [hfor] at refused
    refine .inl ⟨rfl, refused, MemoryStore.sameAnswers_of_docs fun name => ?_⟩
    -- there is a document to conflict with, so the database was there before
    obtain ⟨d, hd⟩ : ∃ d, s.stored? database id = some d := by
      refine Option.ne_none_iff_exists'.mp fun hnone => ?_
      rw [show (s.databaseOf database).get? id = none from hnone] at refused
      cases refused
    rw [MemoryStore.database?_withDatabase]
    split
    · next hname =>
      rw [hname, MemoryStore.database?_of_stored? hd]
      rfl
    · rfl
  | @stored d next rev seq deleted =>
    rw [hfor] at next
    refine .inr ⟨rfl, congrArg some hfor, fun hnone => ?_, d, ?_, rfl,
      Database.nextGeneration?_eq_some next, rev⟩
    · cases next.symm.trans hnone
    · rw [MemoryStore.stored?, MemoryStore.databaseOf_withDatabase, if_pos rfl, Database.get?_store,
        hfor, if_pos rfl]

/-- A write leaves the other databases and the other ids alone, whether it succeeds or not. -/
theorem frame (hid : w.doc.id? = some id) :
    (∀ name, name ≠ w.database → w.after.database? name = w.before.database? name) ∧
    ∀ other, other ≠ id → w.after.stored? w.database other = w.before.stored? w.database other := by
  obtain ⟨s, database, doc⟩ := w
  have hfor : (s.databaseOf database).idFor doc = id := by
    rw [Database.idFor, show doc.id? = some id from hid, Option.getD_some]
  refine ⟨fun name hname => ?_, fun other hother => ?_⟩
  · exact (MemoryStore.database?_withDatabase s database _ name).trans (if_neg hname)
  · rw [after, MemoryStore.stored?_write, if_pos rfl]
    rcases hw : (s.databaseOf database).write doc with ⟨outcome, db'⟩
    cases Database.writes hw with
    | conflict refused => rfl
    | stored next rev seq deleted => rw [Database.get?_store, hfor, if_neg hother]; rfl

end Write

/-! ### The invariant -/

/-- **The writes made so far and the store they lead to.** -/
structure Tracks (log : List Write) (s : MemoryStore) : Prop where
  sound : ∀ database, (s.databaseOf database).Sound
  /-- A document is there exactly if some write stored one, and has the revision that the latest
  such write answered with. -/
  latest : ∀ database id,
    (lastStored log database id).map (fun u => (u.outcome.rev, u.doc.isDeleted)) =
      (s.stored? database id).map fun d => (some d.rev, d.deleted)
  /-- Every revision given out was made of a number up to the present one. -/
  issued : ∀ u ∈ log, u.outcome.ok = true → ∃ generation seq,
    u.outcome.rev = some (Database.revision generation seq) ∧ seq ≤ (s.databaseOf u.database).seq

namespace Tracks

/-- In a fresh store nothing is stored, and nothing was written, so the invariant has nothing to
compare. -/
theorem fresh : Tracks [] {} where
  sound _ := Database.sound_empty
  latest _ _ := rfl
  issued _ h := absurd h List.not_mem_nil

variable {log : List Write} {s : MemoryStore}

/-- Making a database that is not there yet stores nothing and is no write, so it keeps the
invariant. -/
theorem opened (h : Tracks log s) (database : String) : Tracks log (s.opened database) where
  sound name := by
    rw [MemoryStore.databaseOf_opened]
    exact h.sound name
  latest name id := by
    rw [MemoryStore.stored?, MemoryStore.databaseOf_opened]
    exact h.latest name id
  issued u hu hok := by
    rw [MemoryStore.databaseOf_opened]
    exact h.issued u hu hok

/-- What was written last changes where what is stored changes: at the id of the write in its
database if it succeeds, and nowhere if it conflicts. -/
theorem latest_write (h : Tracks log s) (database : String) (doc : OutboundDocument)
    (name id : String) :
    (lastStored (log ++ [⟨s, database, doc⟩]) name id).map
        (fun u => (u.outcome.rev, u.doc.isDeleted)) =
      ((s.write database doc).2.stored? name id).map fun d => (some d.rev, d.deleted) := by
  rcases hw : (s.databaseOf database).write doc with ⟨outcome, db'⟩
  have houtcome : (⟨s, database, doc⟩ : Write).outcome = outcome := congrArg Prod.fst hw
  have hstores : (⟨s, database, doc⟩ : Write).stores name id =
      (outcome.ok && database == name && outcome.id == some id) := by
    rw [Write.stores, houtcome]
  rw [lastStored_concat, MemoryStore.stored?_write, hw, hstores]
  -- a conflict stores nothing, and is no successful write of any id either
  cases Database.writes hw with
  | conflict refused =>
    rw [Bool.false_and, Bool.false_and, if_neg Bool.false_ne_true, h.latest]
    split
    · next hname =>
      rw [hname]
      rfl
    · rfl
  | @stored d next rev seq deleted =>
    rw [Database.get?_store]
    -- the id of the write in its database, or any other place
    by_cases hplace : name = database ∧ id = (s.databaseOf database).idFor doc
    · obtain ⟨rfl, rfl⟩ := hplace
      rw [Bool.true_and, beq_self_eq_true, beq_self_eq_true, Bool.and_self, if_pos rfl,
        if_pos rfl, if_pos rfl, Option.map_some, Option.map_some, houtcome, deleted]
    · have helse : ¬(true && database == name &&
          some ((s.databaseOf database).idFor doc) == some id) = true := by
        rw [Bool.true_and, Bool.and_eq_true, beq_iff_eq, beq_iff_eq, Option.some_inj]
        exact fun heq => hplace ⟨heq.1.symm, heq.2.symm⟩
      rw [if_neg helse, h.latest]
      split
      · next hname =>
        rw [if_neg fun hid => hplace ⟨hname, hid⟩, hname]
        rfl
      · rfl

/-- **A write keeps the invariant.** It is the latest write of its id if it succeeds, and the
revision that it then answers with is made of the number it takes. -/
theorem write (h : Tracks log s) (database : String) (doc : OutboundDocument) :
    Tracks (log ++ [⟨s, database, doc⟩]) (s.write database doc).2 := by
  refine ⟨fun name => ?_, h.latest_write database doc, fun u hu hok => ?_⟩
  · rw [MemoryStore.databaseOf_write]
    split
    · exact (h.sound database).write doc
    · exact h.sound name
  · rcases List.mem_append.mp hu with hu | hu
    · -- the numbers of earlier writes are still up to the present one
      obtain ⟨generation, seq, hrev, hle⟩ := h.issued u hu hok
      exact ⟨generation, seq, hrev, hle.trans (s.seq_le_seq_write database doc u.database)⟩
    · obtain rfl := List.mem_singleton.mp hu
      rcases hw : (s.databaseOf database).write doc with ⟨outcome, db'⟩
      have houtcome : (⟨s, database, doc⟩ : Write).outcome = outcome := congrArg Prod.fst hw
      rw [houtcome] at hok ⊢
      rw [MemoryStore.databaseOf_write, if_pos rfl, Database.seq_write]
      cases Database.writes hw with
      | conflict refused => exact nomatch hok
      | stored next rev seq deleted => exact ⟨_, _, congrArg some rev, Nat.le_refl _⟩

end Tracks

/-- **The invariant holds before every write of a run** from an empty store, between the writes made
earlier and the store that the write finds. -/
theorem WriteCall.tracks_before {calls : List WriteCall} {earlier later : List Write} {w : Write}
    (h : logAll {} calls = earlier ++ w :: later) : Tracks earlier w.before :=
  holds_before (fun _ _ database h => h.opened database)
    (fun _ _ database doc h => h.write database doc) Tracks.fresh h

/-! ### Every write of a run -/

/-- **What optimistic concurrency asks of a write** of an id, after the writes made earlier in the
run. Whether the write succeeds is said by the outcomes of those writes, as the one who made them
saw them. -/
structure Write.IsOptimistic (earlier : List Write) (w : Write) (id : String) : Prop where
  /-- An id that was never stored in the database is created. -/
  created : lastStored earlier w.database id = none → w.outcome.ok = true
  /-- A live document is written over exactly if its latest revision is named. -/
  live : ∀ u, lastStored earlier w.database id = some u → w.before.get? w.database id ≠ none →
    (w.outcome.ok = true ↔ ∃ rev, w.doc.rev? = some rev ∧ u.outcome.rev = some rev)
  /-- A deleted document is written over exactly if its latest revision is named, or none. -/
  deleted : ∀ u, lastStored earlier w.database id = some u → w.before.get? w.database id = none →
    (w.outcome.ok = true ↔
      (∃ rev, w.doc.rev? = some rev ∧ u.outcome.rev = some rev) ∨ w.doc.rev? = none)
  /-- A document is deleted if the latest write of it was a deletion. -/
  tombstone : ∀ u, lastStored earlier w.database id = some u →
    (w.before.get? w.database id = none ↔ u.doc.isDeleted = true)
  /-- A failed write changes no answer. -/
  refused : w.outcome.ok = false → w.after.SameAnswers w.before
  /-- Whatever becomes of it, a write leaves other databases and other ids alone. -/
  frame : (∀ name, name ≠ w.database → w.after.database? name = w.before.database? name) ∧
    ∀ other, other ≠ id → w.after.stored? w.database other = w.before.stored? w.database other
  /-- A successful write stores the document under the revision it answers with, one generation on:
  the first if the id is new. -/
  next : w.outcome.ok = true → ∃ d seq, w.after.stored? w.database id = some d ∧
    w.outcome.rev = some d.rev ∧ d.rev = Database.revision d.generation seq ∧
    d.generation = ((w.before.stored? w.database id).map StoredDocument.generation).getD 0 + 1
  /-- Of two writes based on one revision at most one succeeds. -/
  once : ∀ u ∈ earlier, u.database = w.database → u.doc.id? = some id →
    u.before.stored? w.database id ≠ none → ∀ rev, u.doc.rev? = some rev → w.doc.rev? = some rev →
    u.outcome.ok = true → w.outcome.ok = false

namespace Tracks

variable {earlier : List Write} {w : Write}

/-- **Revisions are given out once** in a database: a later write has a greater number, and the
revision tells it. -/
theorem rev_ne (h : Tracks earlier w.before) {u : Write} (hu : u ∈ earlier)
    (hdb : u.database = w.database) (huok : u.outcome.ok = true) (hwok : w.outcome.ok = true) :
    u.outcome.rev ≠ w.outcome.rev := by
  intro heq
  obtain ⟨generation, seq, hrev, hle⟩ := h.issued u hu huok
  -- the write itself takes the next number
  obtain ⟨s, database, doc⟩ := w
  rcases hw : (s.databaseOf database).write doc with ⟨outcome, db'⟩
  have houtcome : (⟨s, database, doc⟩ : Write).outcome = outcome := congrArg Prod.fst hw
  rw [houtcome] at heq hwok
  cases Database.writes hw with
  | conflict refused => exact nomatch hwok
  | stored next rev seq' deleted =>
    have := Database.revision_inj
      (Option.some.inj (hrev.symm.trans (heq.trans (congrArg some rev))))
    rw [hdb] at hle
    dsimp only at hle
    omega

/-- What was written last is what the write finds, with the revision that was answered then, and
deleted if the write was a deletion. -/
theorem found_of_lastStored (h : Tracks earlier w.before) {id : String} {u : Write}
    (hu : lastStored earlier w.database id = some u) :
    ∃ d, w.found? id = some d ∧ u.outcome.rev = some d.rev ∧ u.doc.isDeleted = d.deleted := by
  have hlatest := h.latest w.database id
  rw [hu, Option.map_some] at hlatest
  obtain ⟨d, hd, heq⟩ := Option.map_eq_some_iff.mp hlatest.symm
  exact ⟨d, hd, (Prod.mk.inj heq).1.symm, (Prod.mk.inj heq).2.symm⟩

/-- What the write finds was written by a successful write of the run, and has the revision which
that answered with. -/
theorem lastStored_of_found (h : Tracks earlier w.before) {id : String} {d : StoredDocument}
    (hd : w.found? id = some d) :
    ∃ u, lastStored earlier w.database id = some u ∧ u.outcome.rev = some d.rev := by
  have hlatest := h.latest w.database id
  rw [show w.before.stored? w.database id = some d from hd, Option.map_some] at hlatest
  obtain ⟨u, hu, heq⟩ := Option.map_eq_some_iff.mp hlatest
  exact ⟨u, hu, (Prod.mk.inj heq).1⟩

end Tracks

namespace Write

variable {w : Write} {id : String}

/-- A write succeeds exactly if there is a next generation, which is decided by the document it
finds and the revision it names. -/
theorem ok_iff (hid : w.doc.id? = some id) :
    w.outcome.ok = true ↔ Database.nextGeneration? (w.found? id) w.doc.rev? ≠ none := by
  rcases effect hid with ⟨hok, hnone, -⟩ | ⟨hok, -, hsome, -⟩
  · rw [hok]
    exact iff_of_false Bool.false_ne_true fun h => h hnone
  · exact iff_of_true hok hsome

/-- **When a document that is there is written over**, said of the outcome of the write: its
revision is named, or it is deleted and none is. -/
theorem ok_iff_of_found {d : StoredDocument} (hid : w.doc.id? = some id)
    (hd : w.found? id = some d) :
    w.outcome.ok = true ↔ w.doc.rev? = some d.rev ∨ (d.deleted = true ∧ w.doc.rev? = none) := by
  rw [ok_iff hid, hd, Database.nextGeneration?_ne_none]

/-- A document that is there can be read unless it is deleted. -/
theorem get?_eq_none_iff {d : StoredDocument} (hd : w.found? id = some d) :
    w.before.get? w.database id = none ↔ d.deleted = true := by
  rw [MemoryStore.get?_eq, show w.before.stored? w.database id = some d from hd, Option.bind_some]
  cases d.deleted <;> simp

/-- **Of two writes based on one revision at most one succeeds**: the first gives out a revision
that no write gave out before, and the revision both are based on was given out. -/
theorem eq_false_of_once {calls : List WriteCall} {earlier later : List Write}
    (h : WriteCall.logAll {} calls = earlier ++ w :: later) (hid : w.doc.id? = some id) {u : Write}
    (hu : u ∈ earlier) (hdb : u.database = w.database) (huid : u.doc.id? = some id)
    (hfound : u.before.stored? w.database id ≠ none) {rev : String} (hurev : u.doc.rev? = some rev)
    (hwrev : w.doc.rev? = some rev) (huok : u.outcome.ok = true) : w.outcome.ok = false := by
  obtain ⟨before, between, rfl⟩ := List.append_of_mem hu
  have htracks := WriteCall.tracks_before h
  -- the revision that the first write names was given out before it
  obtain ⟨d, hd⟩ := Option.ne_none_iff_exists'.mp hfound
  have hud : u.found? id = some d := by
    rw [found?, hdb]
    exact hd
  have hcurrent := (ok_iff_of_found huid hud).mp huok
  rw [hurev, or_iff_left (fun h => Option.some_ne_none _ h.2)] at hcurrent
  have hlog : WriteCall.logAll {} calls = before ++ u :: (between ++ w :: later) := by
    rw [h, List.append_assoc, List.cons_append]
  obtain ⟨v, hv, hvrev⟩ := (WriteCall.tracks_before hlog).lastStored_of_found hud
  obtain ⟨hvmem, hvstores⟩ := lastStored_eq_some hv
  -- the revision that the second write would have to name was given out by the first, or later
  have hustores : u.stores w.database id = true := by
    rcases effect huid with ⟨hno, -⟩ | ⟨-, houtcome, -⟩
    · exact absurd (huok.symm.trans hno) (by decide)
    · rw [stores, huok, hdb, houtcome, beq_self_eq_true, beq_self_eq_true]
      rfl
  obtain ⟨v', hv'mem, hv'⟩ : ∃ v' ∈ u :: between,
      lastStored (before ++ u :: between) w.database id = some v' := exists_lastStored hustores
  obtain ⟨d', hd', hv'rev, -⟩ := htracks.found_of_lastStored hv'
  refine Bool.eq_false_iff.mpr fun hwok => ?_
  have hnamed := (ok_iff_of_found hid hd').mp hwok
  rw [hwrev, or_iff_left (fun h => Option.some_ne_none _ h.2)] at hnamed
  -- so one revision would have been given out twice
  obtain ⟨left, right, hsplit⟩ := List.append_of_mem hv'mem
  obtain ⟨-, hv'stores⟩ := lastStored_eq_some hv'
  simp only [stores, Bool.and_eq_true, beq_iff_eq] at hvstores hv'stores
  have hlog' : WriteCall.logAll {} calls = (before ++ left) ++ v' :: (right ++ w :: later) := by
    rw [h, hsplit, List.append_assoc, List.append_assoc, List.append_assoc]
    rfl
  have htwice := (WriteCall.tracks_before hlog').rev_ne (List.mem_append_left left hvmem)
    (hvstores.1.2.trans (hdb.trans hv'stores.1.2.symm)) hvstores.1.1 hv'stores.1.1
  exact htwice (by rw [hvrev, ← hcurrent, hnamed, hv'rev])

end Write

/-- **Optimistic concurrency.** In every run of calls that write, starting from an empty store, the
calls answer with the outcomes of their writes, no two successful writes to a database answer with
one revision, and every write that names an id is optimistic. -/
theorem WriteCall.isOptimistic_of_logAll (calls : List WriteCall) :
    (runAll {} calls).1 = (logAll {} calls).map Write.outcome ∧
    ∀ earlier w later, logAll {} calls = earlier ++ w :: later →
      (∀ u ∈ earlier, u.database = w.database → u.outcome.ok = true → w.outcome.ok = true →
        u.outcome.rev ≠ w.outcome.rev) ∧
      ∀ id, w.doc.id? = some id → w.IsOptimistic earlier id := by
  refine ⟨outcomes_runAll {} calls, fun earlier w later h => ?_⟩
  have htracks := tracks_before h
  refine ⟨fun u hu hdb huok hwok => htracks.rev_ne hu hdb huok hwok, fun id hid => ?_⟩
  constructor
  case created =>
    intro hnone
    refine (Write.ok_iff hid).mpr ?_
    -- a document that is there was stored by some write
    cases hd : w.found? id with
    | none => exact Option.some_ne_none _
    | some d =>
      obtain ⟨u, hu, -⟩ := htracks.lastStored_of_found hd
      exact nomatch hnone.symm.trans hu
  case live =>
    intro u hu hlive
    obtain ⟨d, hd, hrev, -⟩ := htracks.found_of_lastStored hu
    rw [Ne, Write.get?_eq_none_iff hd] at hlive
    rw [Write.ok_iff_of_found hid hd, or_iff_left fun h => hlive h.1, hrev]
    simp only [Option.some.injEq, exists_eq_right']
  case deleted =>
    intro u hu hgone
    obtain ⟨d, hd, hrev, -⟩ := htracks.found_of_lastStored hu
    rw [Write.get?_eq_none_iff hd] at hgone
    rw [Write.ok_iff_of_found hid hd, hrev, and_iff_right hgone]
    simp only [Option.some.injEq, exists_eq_right']
  case tombstone =>
    intro u hu
    obtain ⟨d, hd, -, hdeleted⟩ := htracks.found_of_lastStored hu
    rw [Write.get?_eq_none_iff hd, hdeleted]
  case refused =>
    intro hok
    rcases Write.effect hid with ⟨-, -, hsame⟩ | ⟨hyes, -⟩
    · exact hsame
    · exact nomatch hyes.symm.trans hok
  case frame => exact Write.frame hid
  case next =>
    intro hok
    rcases Write.effect hid with ⟨hno, -⟩ | ⟨-, -, -, d, hd, hrev, hgeneration, htext⟩
    · exact nomatch hok.symm.trans hno
    · exact ⟨d, _, hd, hrev, htext, hgeneration⟩
  case once =>
    intro u hu hdb huid hfound rev hurev hwrev huok
    exact Write.eq_false_of_once h hid hu hdb huid hfound hurev hwrev huok

/-- A document is created and updated, and then updated again from its first revision, among the
documents of one call. -/
theorem WriteCall.isOptimistic_of_logAll_stale :
    let update : Members := [("_id", .str "a"), ("_rev", .str "1-0000000000000001")]
    let calls := [WriteCall.put "db" [("_id", .str "a")], .put "db" update,
      .bulkWrite "db" [⟨[("_id", .str "b")]⟩, ⟨update⟩]]
    ∃ earlier w later, logAll {} calls = earlier ++ w :: later ∧ w.doc.id? = some "a" ∧
      earlier.map (·.outcome.ok) = [true, true, true] ∧ w.outcome.ok = false ∧
      w.IsOptimistic earlier "a" := by
  intro update calls
  have hlog : logAll {} calls = (logAll {} calls).take 3 ++ (logAll {} calls)[3] :: [] := rfl
  exact ⟨_, _, _, hlog, by decide, by decide +kernel, by decide +kernel,
    ((isOptimistic_of_logAll calls).2 _ _ _ hlog).2 "a" (by decide)⟩

end DocStream
