import DocStream.Proofs.Names
import DocStream.Proofs.Text.Numbers
import DocStream.Store.Memory

/-!
# What writing does to a store

One write either conflicts, and then all that changes is the sequence number of its database, or it
stores its document under one id, with a revision that its sequence number makes new. Everything
that is said of runs of writes comes from these two cases.

* `Database.writes` — **the two cases of a write**;
* `Database.Sound` — what holds of every database, and `Database.Sound.write`;
* `Database.revision_inj` — a revision tells the write that made it;
* `WriteCall` — the calls that write, and `WriteCall.runAll_induction`: **what single writes keep,
  runs of calls keep**; `WriteCall.holds_before` — and it holds before every write of a run.

A call that writes several documents is no more than its writes one after the other, which is what
`MemoryStore.bulkWrite_cons` says. So a run of calls is a run of single writes, each to the store
that the one before left, and an invariant has to be proved for those alone. `WriteCall.logAll`
lists them.
-/

namespace DocStream

namespace Database

/-! ### Revisions -/

/-- **The text of a revision tells the sequence number** of the write that made it. -/
theorem revision_inj {generation generation' seq seq' : Nat}
    (h : revision generation seq = revision generation' seq') : seq = seq' := by
  -- generation, dash, number of sixteen digits at least
  have hlist : ∀ g n, (revision g n).toList =
      (toString g).toList ++ '-' :: (Hex.padded 16 n).toList := by
    intro g n
    rw [show revision g n = toString g ++ "-" ++ Hex.padded 16 n from rfl, String.toList_append,
      String.toList_append, List.append_assoc]
    rfl
  -- the generation has no dash among its digits, so the number stands after the first dash
  have hdrop : ∀ g n, (revision g n).toList.dropWhile (· != '-') =
      '-' :: (Hex.padded 16 n).toList := by
    intro g n
    rw [hlist, List.dropWhile_append_of_pos]
    · rfl
    · intro c hc
      rw [Digits.toList_toString, Digits.toChars] at hc
      obtain ⟨d, -, rfl⟩ := List.mem_map.mp hc
      exact bne_iff_ne.mpr (Digits.toChar_ne (by decide))
  have heq := (hdrop generation seq).symm.trans (h ▸ hdrop generation' seq')
  rw [← Hex.value_padded 16 seq, (List.cons.inj heq).2, Hex.value_padded]

/-! ### One write -/

/-- The id that a document is written under: its own if it has one, and otherwise one that is made
for it of the number that the write takes. A made id is not looked up before it is used, so it may
be the id of a document that is there. -/
def idFor (db : Database) (doc : OutboundDocument) : String := doc.id?.getD (freshId (db.seq + 1))

/-- **What a write can do** to a database, and with which outcome. Either way its number is spent,
and which of the two happens is decided by `nextGeneration?`, from the document that is there and
the revision that is named. -/
inductive Writes (db : Database) (doc : OutboundDocument) : WriteOutcome → Database → Prop where
  /-- The write conflicts, and its number is spent. -/
  | conflict (refused : nextGeneration? (db.get? (db.idFor doc)) doc.rev? = none) :
      Writes db doc
        { id := some (db.idFor doc), error := some "conflict",
          reason := some "Document update conflict." }
        { db with seq := db.seq + 1 }
  /-- The document is stored under its id, at the next generation. -/
  | stored {d : StoredDocument}
      (next : nextGeneration? (db.get? (db.idFor doc)) doc.rev? = some d.generation)
      (rev : d.rev = revision d.generation (db.seq + 1)) (seq : d.seq = db.seq + 1)
      (deleted : d.deleted = doc.isDeleted)
      (body : d.body = ((doc.setId (db.idFor doc)).setRev d.rev).body) :
      Writes db doc { id := some (db.idFor doc), ok := true, rev := some d.rev }
        { seq := db.seq + 1, docs := store (db.idFor doc) d db.docs }

/-- **The two cases of a write.** Proofs about writes split on these and do not open the definition,
so that only this lemma depends on how a write is carried out. -/
theorem writes {db db' : Database} {doc : OutboundDocument} {outcome : WriteOutcome}
    (h : db.write doc = (outcome, db')) : Writes db doc outcome db' := by
  rw [write] at h
  dsimp only at h
  split at h
  · next refused =>
    obtain ⟨rfl, rfl⟩ := Prod.mk.inj h
    exact .conflict refused
  · next generation next =>
    obtain ⟨rfl, rfl⟩ := Prod.mk.inj h
    exact .stored (d := ⟨generation, _, db.seq + 1, doc.isDeleted, _⟩) next rfl rfl rfl rfl

theorem replaces_store (id : String) (d : StoredDocument) : Replaces (store id d) id d :=
  ⟨rfl, fun _ _ => rfl⟩

/-- After storing, the id has the new document and every other id has what it had, whatever the
sequence number of the database has become. -/
theorem get?_store (db : Database) (seq : Nat) (id : String) (d : StoredDocument) (other : String) :
    get? ⟨seq, store id d db.docs⟩ other = if other = id then some d else db.get? other :=
  (replaces_store id d).lookup db.docs other

/-! ### Sound databases -/

/-- **What holds of every database**: its ids are distinct, and every document in it was stored by a
write of its own, from whose number it has its revision. The change feed is ordered by these
numbers, and revisions are told apart by them. -/
structure Sound (db : Database) : Prop where
  ids : (db.docs.map Prod.fst).Nodup
  seq_pos : ∀ {id d}, db.get? id = some d → 0 < d.seq
  seq_le : ∀ {id d}, db.get? id = some d → d.seq ≤ db.seq
  /-- No two documents were stored by one write. -/
  seq_inj : ∀ {id id' d d'}, db.get? id = some d → db.get? id' = some d' → d.seq = d'.seq → id = id'
  rev : ∀ {id d}, db.get? id = some d → d.rev = revision d.generation d.seq

theorem sound_empty : Sound {} where
  ids := List.Pairwise.nil
  seq_pos h := nomatch h
  seq_le h := nomatch h
  seq_inj h := nomatch h
  rev h := nomatch h

/-- In a sound database, being listed and being found are the same, since no id is listed twice. -/
theorem Sound.mem_docs {db : Database} (h : db.Sound) {id : String} {d : StoredDocument} :
    (id, d) ∈ db.docs ↔ db.get? id = some d :=
  (lookup_eq_some_iff_mem h.ids).symm

/-- **A write keeps a database sound.** A conflict changes nothing but the number; what is stored
has the new number, which is greater than all that documents have. -/
theorem Sound.write {db : Database} (h : db.Sound) (doc : OutboundDocument) :
    (db.write doc).2.Sound := by
  rcases hw : db.write doc with ⟨outcome, db'⟩
  cases writes hw with
  | conflict refused =>
    exact ⟨h.ids, h.seq_pos, fun hd => Nat.le_succ_of_le (h.seq_le hd), h.seq_inj, h.rev⟩
  | @stored d next rev seq deleted =>
    -- a document of the new database is the one just stored, or it was there before
    have hcases : ∀ {id e}, get? ⟨db.seq + 1, store (db.idFor doc) d db.docs⟩ id = some e →
        (id = db.idFor doc ∧ e = d) ∨ (id ≠ db.idFor doc ∧ db.get? id = some e) := by
      intro id e he
      rw [get?_store] at he
      split at he
      · next hid => exact .inl ⟨hid, (Option.some.inj he).symm⟩
      · next hid => exact .inr ⟨hid, he⟩
    refine ⟨(replaces_store _ d).nodup h.ids, fun he => ?_, fun he => ?_, fun he he' heq => ?_,
      fun he => ?_⟩
    · rcases hcases he with ⟨-, rfl⟩ | ⟨-, he⟩
      · omega
      · exact h.seq_pos he
    · rcases hcases he with ⟨-, rfl⟩ | ⟨-, he⟩
      · exact Nat.le_of_eq seq
      · exact Nat.le_succ_of_le (h.seq_le he)
    · -- the number of this write is greater than all before
      rcases hcases he with ⟨hid, hd⟩ | ⟨-, hold⟩ <;>
        rcases hcases he' with ⟨hid', hd'⟩ | ⟨-, hold'⟩
      · rw [hid, hid']
      · have := h.seq_le hold'
        rw [hd] at heq
        omega
      · have := h.seq_le hold
        rw [hd'] at heq
        omega
      · exact h.seq_inj hold hold' heq
    · rcases hcases he with ⟨-, rfl⟩ | ⟨-, he⟩
      · rw [rev, seq]
      · exact h.rev he

/-- Every write takes a number, whatever becomes of it, so no two writes to a database have the same
one. -/
theorem seq_write (db : Database) (doc : OutboundDocument) : (db.write doc).2.seq = db.seq + 1 := by
  rcases hw : db.write doc with ⟨outcome, db'⟩
  cases writes hw <;> rfl

end Database

/-! ### Stores -/

namespace MemoryStore

/-- The database of a name; one that nobody wrote to is taken to be empty. Writing makes the
database anyway, so only reading can tell the two apart. -/
def databaseOf (s : MemoryStore) (name : String) : Database := (s.database? name).getD {}

/-- The document of an id, live or deleted. -/
def stored? (s : MemoryStore) (database id : String) : Option StoredDocument :=
  (s.databaseOf database).get? id

/-- **A single write**, of which all calls are made up: a put is one, and a call that writes several
documents is one after the other. -/
def write (s : MemoryStore) (database : String) (doc : OutboundDocument) :
    WriteOutcome × MemoryStore :=
  (((s.databaseOf database).write doc).1,
    s.withDatabase database ((s.databaseOf database).write doc).2)

/-- A database made, if it is not there yet. This is all that a call does which has no documents to
write. -/
def opened (s : MemoryStore) (database : String) : MemoryStore :=
  s.withDatabase database (s.databaseOf database)

/-- Putting a database in place replaces the one of its name. -/
theorem replaces_setDatabase (name : String) (db : Database) :
    Replaces (setDatabase name db) name db :=
  ⟨rfl, fun _ _ => rfl⟩

/-- After putting a database in place, its name has it and every other name what it had. -/
theorem database?_withDatabase (s : MemoryStore) (name : String) (db : Database) (other : String) :
    (s.withDatabase name db).database? other =
      if other = name then some db else s.database? other :=
  (replaces_setDatabase name db).lookup s.databases other

/-- The same for the database of a name, empty if there is none. -/
theorem databaseOf_withDatabase (s : MemoryStore) (name : String) (db : Database) (other : String) :
    (s.withDatabase name db).databaseOf other =
      if other = name then db else s.databaseOf other := by
  rw [databaseOf, database?_withDatabase]
  split <;> rfl

/-- Making a database that is not there yet makes an empty one, which is what its name stood for
before. -/
@[simp] theorem databaseOf_opened (s : MemoryStore) (database name : String) :
    (s.opened database).databaseOf name = s.databaseOf name := by
  rw [opened, databaseOf_withDatabase]
  split
  · next h => rw [h]
  · rfl

/-- A write changes the database that it writes to, and no other. Everything that is said of other
databases being left alone comes from here. -/
theorem databaseOf_write (s : MemoryStore) (database : String) (doc : OutboundDocument)
    (name : String) : (s.write database doc).2.databaseOf name =
      if name = database then ((s.databaseOf database).write doc).2 else s.databaseOf name :=
  databaseOf_withDatabase _ _ _ _

theorem databaseOf_put (s : MemoryStore) (database : String) (body : Members) :
    (s.put database body).2.databaseOf database =
      ((s.databaseOf database).write (.ofMembers body none)).2 :=
  (databaseOf_write s database (.ofMembers body none) database).trans (if_pos rfl)

/-- Numbers only grow: a write takes the next one in its own database and leaves those of the others
as they are. -/
theorem seq_le_seq_write (s : MemoryStore) (database : String) (doc : OutboundDocument)
    (name : String) :
    (s.databaseOf name).seq ≤ ((s.write database doc).2.databaseOf name).seq := by
  rw [databaseOf_write]
  split
  · next hname =>
    rw [Database.seq_write, hname]
    exact Nat.le_succ _
  · exact Nat.le_refl _

/-- A database put in place twice is put in place once. A call that writes several documents puts
its database in place at its end only, single writes do it each time. -/
theorem withDatabase_withDatabase (s : MemoryStore) (name : String) (db db' : Database) :
    (s.withDatabase name db).withDatabase name db' = s.withDatabase name db' := by
  -- the second takes the place of the first, wherever that is in the list
  have key : ∀ dbs, setDatabase name db' (setDatabase name db dbs) = setDatabase name db' dbs := by
    intro dbs
    induction dbs with
    | nil => exact if_pos rfl
    | cons p rest ih =>
      obtain ⟨k, d⟩ := p
      by_cases hk : k = name
      · simp only [setDatabase, if_pos hk, if_true]
      · simp only [setDatabase, if_neg hk, ih]
  exact congrArg MemoryStore.mk (key s.databases)

/-! ### Calls -/

/-- **Writing several documents** is writing the first and then the others. -/
theorem bulkWrite_cons (s : MemoryStore) (database : String) (doc : OutboundDocument)
    (docs : List OutboundDocument) :
    s.bulkWrite database (doc :: docs) =
      ((s.write database doc).1 :: ((s.write database doc).2.bulkWrite database docs).1,
        ((s.write database doc).2.bulkWrite database docs).2) := by
  -- the others are written to the database that the first write leaves
  have hdb : ((s.write database doc).2.database? database).getD {} =
      ((s.databaseOf database).write doc).2 := by
    rw [write, database?_withDatabase, if_pos rfl, Option.getD_some]
  rw [bulkWrite, bulkWrite, hdb]
  dsimp only [Database.writeAll, write]
  rw [withDatabase_withDatabase]
  rfl

end MemoryStore

/-- **A call that writes** to a database: one document, given as its members, or several at once,
each with the id and the revision that it is written with. -/
inductive WriteCall where
  | put (database : String) (doc : Members)
  | bulkWrite (database : String) (docs : List OutboundDocument)

/-- **One write of a run**: the store that it finds, and what is written where. What comes of it is
a function of these, so a log of writes need not record the outcomes. -/
structure Write where
  before : MemoryStore
  database : String
  doc : OutboundDocument

namespace Write

def outcome (w : Write) : WriteOutcome := (w.before.write w.database w.doc).1

/-- The store that the write leaves. -/
def after (w : Write) : MemoryStore := (w.before.write w.database w.doc).2

end Write

namespace WriteCall

/-- **The call made**: the outcomes it answers with, and the store it leaves. -/
def run (s : MemoryStore) : WriteCall → List WriteOutcome × MemoryStore
  | put database doc => ([(s.put database doc).1], (s.put database doc).2)
  | bulkWrite database docs => s.bulkWrite database docs

/-- The writes of several documents, each made to the store that the one before leaves, so that a
document may be written over in the same call. -/
def writesOf (s : MemoryStore) (database : String) : List OutboundDocument → List Write
  | [] => []
  | doc :: rest => ⟨s, database, doc⟩ :: writesOf (s.write database doc).2 database rest

/-- **The writes that a call is made up of.** -/
def log (s : MemoryStore) : WriteCall → List Write
  | put database doc => writesOf s database [.ofMembers doc none]
  | bulkWrite database docs => writesOf s database docs

/-- **Calls made one after the other**: the outcomes of all, and the store they leave. -/
def runAll (s : MemoryStore) : List WriteCall → List WriteOutcome × MemoryStore
  | [] => ([], s)
  | call :: rest =>
    ((call.run s).1 ++ (runAll (call.run s).2 rest).1, (runAll (call.run s).2 rest).2)

/-- The writes that calls made one after the other are made up of. -/
def logAll (s : MemoryStore) : List WriteCall → List Write
  | [] => []
  | call :: rest => call.log s ++ logAll (call.run s).2 rest

theorem outcomes_bulkWrite (s : MemoryStore) (database : String) (docs : List OutboundDocument) :
    (s.bulkWrite database docs).1 = (writesOf s database docs).map Write.outcome := by
  induction docs generalizing s with
  | nil => rfl
  | cons doc rest ih =>
    rw [MemoryStore.bulkWrite_cons, writesOf, List.map_cons, ← ih]
    rfl

/-- **A call answers with the outcomes of its writes.** -/
theorem outcomes_run (s : MemoryStore) (call : WriteCall) :
    (call.run s).1 = (call.log s).map Write.outcome := by
  cases call with
  | put database doc => rfl
  | bulkWrite database docs => exact outcomes_bulkWrite s database docs

/-- Calls made one after the other answer with the outcomes of all their writes, in order. So what
is proved of the writes in the log is proved of the answers. -/
theorem outcomes_runAll (s : MemoryStore) (calls : List WriteCall) :
    (runAll s calls).1 = (logAll s calls).map Write.outcome := by
  induction calls generalizing s with
  | nil => rfl
  | cons call rest ih => rw [runAll, logAll, List.map_append, ← ih, ← outcomes_run]

section Induction

variable {P : List Write → MemoryStore → Prop}

/-- What single writes keep, a call keeps. The property may depend on the writes so far, and the
call adds those that it is made up of. -/
theorem run_induction (opened : ∀ log s database, P log s → P log (s.opened database))
    (write : ∀ log s database doc, P log s →
      P (log ++ [⟨s, database, doc⟩]) (s.write database doc).2)
    {log : List Write} {s : MemoryStore} (h : P log s) (call : WriteCall) :
    P (log ++ call.log s) (call.run s).2 := by
  cases call with
  | put database doc => exact write log s database _ h
  | bulkWrite database docs =>
    rw [run, WriteCall.log]
    -- along the documents; with none at all the database is made and nothing is written
    induction docs generalizing log s with
    | nil =>
      rw [writesOf, List.append_nil]
      exact opened log s database h
    | cons doc rest ih =>
      have hrest := ih (write log s database doc h)
      rw [List.append_assoc] at hrest
      rw [MemoryStore.bulkWrite_cons]
      exact hrest

/-- **What single writes keep, runs of calls keep.** The property may speak of the writes made so
far, which is how the invariants compare the store with its history. -/
theorem runAll_induction (opened : ∀ log s database, P log s → P log (s.opened database))
    (write : ∀ log s database doc, P log s →
      P (log ++ [⟨s, database, doc⟩]) (s.write database doc).2)
    {log : List Write} {s : MemoryStore} (h : P log s) (calls : List WriteCall) :
    P (log ++ logAll s calls) (runAll s calls).2 := by
  induction calls generalizing log s with
  | nil =>
    rw [logAll, List.append_nil]
    exact h
  | cons call rest ih =>
    rw [logAll, ← List.append_assoc]
    exact ih (run_induction opened write h call)

/-- **What single writes keep holds before every write of a run**, that is of the store which the
write finds, together with the writes made earlier. -/
theorem holds_before (opened : ∀ log s database, P log s → P log (s.opened database))
    (write : ∀ log s database doc, P log s →
      P (log ++ [⟨s, database, doc⟩]) (s.write database doc).2)
    {s : MemoryStore} (h : P [] s) {calls : List WriteCall} {earlier later : List Write} {w : Write}
    (hlog : logAll s calls = earlier ++ w :: later) : P earlier w.before := by
  -- carried along: the property now, and before every write so far
  let Q : List Write → MemoryStore → Prop := fun log s => P log s ∧
    ∀ earlier (w : Write) later, log = earlier ++ w :: later → P earlier w.before
  have hstart : Q [] s :=
    ⟨h, fun earlier w later heq => absurd heq.symm (List.append_ne_nil_of_right_ne_nil _
      (List.cons_ne_nil _ _))⟩
  have hopened : ∀ log s database, Q log s → Q log (s.opened database) :=
    fun log s database h => ⟨opened log s database h.1, h.2⟩
  have hwrite : ∀ log s database doc, Q log s →
      Q (log ++ [⟨s, database, doc⟩]) (s.write database doc).2 := by
    refine fun log s database doc h => ⟨write log s database doc h.1, fun earlier w later heq => ?_⟩
    rcases List.eq_nil_or_concat' later with rfl | ⟨later, v, rfl⟩
    · -- the write just made
      obtain ⟨rfl, hlast⟩ := List.append_inj' heq rfl
      obtain rfl := List.singleton_inj.mp hlast
      exact h.1
    · rw [← List.cons_append, ← List.append_assoc] at heq
      exact h.2 earlier w later (List.append_inj' heq rfl).1
  exact (runAll_induction hopened hwrite hstart calls).2 earlier w later hlog

end Induction

end WriteCall
end DocStream
