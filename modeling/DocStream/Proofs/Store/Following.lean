import DocStream.Proofs.Store.Writing

/-!
# Following a change feed

A reader of a feed asks for page after page and hands each time the position back that the page
before ended with. Documents may be written in between, which moves them behind the position, and
pages may be cut anywhere. Still no change is delivered twice, and none is lost: a page that is not
full leaves nothing out.

* `Database.Sound.mem_changedSince`, `Database.Sound.ascending_changedSince` — what has changed
  since a position, and in which order;
* `Follower.Caught` — **the invariant** between the position, what was delivered and what is stored;
* `Follower.complete_of_follow` — **every change is delivered, in order and once**.

The position is a number, and what lies behind it is not delivered yet. A write can only move a
document behind it, since its number is new; reading a page moves the position on to the last change
that the page shows, and everything up to there is on the page or was delivered before. Those are
the two step lemmas, and a run is a list of such steps.
-/

namespace DocStream

namespace Database

/-! ### Changes in order -/

/-- Putting a change into its place among the others adds it and drops none, wherever that place is.
-/
theorem insertBySeq_perm (e : String × StoredDocument) (es : List (String × StoredDocument)) :
    (insertBySeq e es).Perm (e :: es) := by
  induction es with
  | nil => exact .refl _
  | cons e' rest ih =>
    rw [insertBySeq]
    split
    · exact .refl _
    · exact (ih.cons e').trans (.swap e e' rest)

/-- A change of a new number put into its place keeps the numbers ascending. With a number that is
there already they would ascend weakly only. -/
theorem ascending_insertBySeq {e : String × StoredDocument} {es : List (String × StoredDocument)}
    (h : es.Pairwise fun a b => a.2.seq < b.2.seq) (hnew : ∀ b ∈ es, b.2.seq ≠ e.2.seq) :
    (insertBySeq e es).Pairwise fun a b => a.2.seq < b.2.seq := by
  -- by induction along the changes, up to the place of the number
  induction es with
  | nil => exact List.pairwise_singleton _ _
  | cons e' rest ih =>
    obtain ⟨hfirst, hrest⟩ := List.pairwise_cons.mp h
    rw [insertBySeq]
    split
    · next hlt =>
      refine List.pairwise_cons.mpr ⟨fun b hb => ?_, h⟩
      rcases List.mem_cons.mp hb with rfl | hb
      · exact hlt
      · exact hlt.trans (hfirst b hb)
    · next hle =>
      have hne := hnew e' List.mem_cons_self
      refine List.pairwise_cons.mpr
        ⟨fun b hb => ?_, ih hrest fun b hb => hnew b (List.mem_cons_of_mem _ hb)⟩
      rcases List.mem_cons.mp ((insertBySeq_perm e rest).mem_iff.mp hb) with rfl | hb
      · omega
      · exact hfirst b hb

/-- Changes put into their places one by one: they are all there, in ascending order, if those in
place ascend and all numbers are different. -/
theorem foldl_insertBySeq {todo sorted : List (String × StoredDocument)}
    (h : sorted.Pairwise fun a b => a.2.seq < b.2.seq)
    (hne : (sorted ++ todo).Pairwise fun a b => a.2.seq ≠ b.2.seq) :
    (todo.foldl (fun sorted e => insertBySeq e sorted) sorted).Perm (sorted ++ todo) ∧
    (todo.foldl (fun sorted e => insertBySeq e sorted) sorted).Pairwise
      fun a b => a.2.seq < b.2.seq := by
  -- those that are in place ascend, and all numbers are different
  induction todo generalizing sorted with
  | nil =>
    rw [List.foldl_nil, List.append_nil]
    exact ⟨.refl _, h⟩
  | cons e rest ih =>
    have hperm : (insertBySeq e sorted ++ rest).Perm (sorted ++ e :: rest) :=
      ((insertBySeq_perm e sorted).append_right rest).trans List.perm_middle.symm
    have hnew : ∀ b ∈ sorted, b.2.seq ≠ e.2.seq := fun b hb =>
      (List.pairwise_append.mp hne).2.2 b hb e List.mem_cons_self
    obtain ⟨hall, hasc⟩ := ih (ascending_insertBySeq h hnew)
      ((hperm.pairwise_iff fun h => h.symm).mpr hne)
    exact ⟨hall.trans hperm, hasc⟩

namespace Sound

variable {db : Database} (h : db.Sound)
include h

/-- **The changes since a position** are the documents with greater numbers, put in order. What is
on a page and what is left of a page comes from this. -/
theorem changedSince_spec (since : Nat) :
    (db.changedSince since).Perm (db.docs.filter fun e => since < e.2.seq) ∧
    (db.changedSince since).Pairwise fun a b => a.2.seq < b.2.seq := by
  -- different documents were stored by different writes
  have hne : db.docs.Pairwise fun a b => a.2.seq ≠ b.2.seq := by
    refine (List.pairwise_map.mp h.ids).imp_of_mem fun {a b} ha hb hab heq => hab ?_
    exact h.seq_inj (h.mem_docs.mp ha) (h.mem_docs.mp hb) heq
  exact foldl_insertBySeq List.Pairwise.nil (hne.filter _)

/-- **What has changed since a position**: the documents stored by later writes, as they are stored
now. Of a document written more than once only the last change is there. -/
theorem mem_changedSince {since : Nat} {e : String × StoredDocument} :
    e ∈ db.changedSince since ↔ db.get? e.1 = some e.2 ∧ since < e.2.seq := by
  rw [(h.changedSince_spec since).1.mem_iff, List.mem_filter, ← h.mem_docs, decide_eq_true_iff]

/-- **Changes stand in the order of their numbers**, strictly, since every document was stored by a
write of its own. -/
theorem ascending_changedSince (since : Nat) :
    (db.changedSince since).Pairwise fun a b => a.2.seq < b.2.seq :=
  (h.changedSince_spec since).2

/-- There are as many changes as documents that were stored later, so changes can be counted without
putting them in order. -/
theorem length_changedSince (since : Nat) :
    (db.changedSince since).length = db.docs.countP fun e => since < e.2.seq := by
  rw [(h.changedSince_spec since).1.length_eq, List.countP_eq_length_filter]

/-- Since the start every document has changed, for a write takes at least the number one. -/
theorem length_changedSince_zero : (db.changedSince 0).length = db.docs.length := by
  rw [h.length_changedSince, List.countP_eq_length]
  intro e he
  exact decide_eq_true (h.seq_pos (h.mem_docs.mp he))

/-- **A write makes at most one change**, and none if it conflicts. It makes none either if the
document had changed since the position already. -/
theorem length_changedSince_write (doc : OutboundDocument) (since : Nat) :
    ((db.write doc).2.changedSince since).length ≤
      (db.changedSince since).length + if (db.write doc).1.ok then 1 else 0 := by
  have hafter := (h.write doc).length_changedSince since
  rw [hafter, h.length_changedSince since]
  rcases hw : db.write doc with ⟨outcome, db'⟩
  cases writes hw with
  | conflict refused => exact Nat.le_refl _
  | @stored d next rev seq deleted =>
    -- the document that is stored takes the place of the one of its id, or is one more
    suffices hstore : ∀ docs : List (String × StoredDocument),
        (store (db.idFor doc) d docs).countP (fun e => since < e.2.seq) ≤
          docs.countP (fun e => since < e.2.seq) + 1 from hstore db.docs
    intro docs
    induction docs with
    | nil => exact List.countP_le_length
    | cons e rest ih =>
      obtain ⟨k, old⟩ := e
      rw [store]
      split
      · rw [List.countP_cons, List.countP_cons]
        split <;> split <;> omega
      · rw [List.countP_cons, List.countP_cons]
        omega

end Sound

/-! ### Pages -/

/-- The changes on a page, the first ones since its start. A page of limit zero shows none. -/
def shown (db : Database) (since limit : Nat) : List (String × StoredDocument) :=
  (db.changedSince since).take limit

/-- The number of the last change on a page, where the next page starts. A page that shows nothing
ends where it starts. -/
def nextPosition (db : Database) (since limit : Nat) : Nat :=
  ((db.shown since limit).getLast?.map (·.2.seq)).getD since

/-- A page has one row for each change it shows, and ends with its next position. -/
theorem page_eq (db : Database) (since limit : Nat) (includeDocs : Bool) :
    db.page since limit includeDocs =
      ⟨(db.shown since limit).map (row includeDocs),
        ⟨toString (db.nextPosition since limit)⟩⟩ := rfl

/-- A page ends where its last change stands, and an empty one where it starts. Proofs about where a
page ends split on these. -/
theorem nextPosition_cases (db : Database) (since limit : Nat) :
    (db.shown since limit = [] ∧ db.nextPosition since limit = since) ∨
      ∃ last ∈ db.shown since limit, db.nextPosition since limit = last.2.seq := by
  rw [nextPosition]
  cases hlast : (db.shown since limit).getLast? with
  | none => exact .inl ⟨List.getLast?_eq_none_iff.mp hlast, rfl⟩
  | some last => exact .inr ⟨last, List.mem_of_getLast? hlast, rfl⟩

namespace Sound

variable {db : Database} (h : db.Sound) {since limit : Nat}
include h

/-- A change on a page is a document as it is stored, with a number after the start of the page. -/
theorem of_mem_shown {e : String × StoredDocument} (he : e ∈ db.shown since limit) :
    db.get? e.1 = some e.2 ∧ since < e.2.seq :=
  h.mem_changedSince.mp (List.mem_of_mem_take he)

/-- The changes on a page lie between its start and its end, since they ascend and it ends at the
last one. -/
theorem seq_le_nextPosition {e : String × StoredDocument} (he : e ∈ db.shown since limit) :
    e.2.seq ≤ db.nextPosition since limit := by
  have hasc : (db.shown since limit).Pairwise fun a b => a.2.seq < b.2.seq :=
    (h.ascending_changedSince since).take
  rcases List.eq_nil_or_concat' (db.shown since limit) with hnil | ⟨front, last, hlast⟩
  · rw [hnil] at he
    exact absurd he List.not_mem_nil
  · rw [nextPosition, hlast, List.getLast?_concat]
    rw [hlast] at he hasc
    rcases List.mem_append.mp he with he | he
    · exact ((List.pairwise_append.mp hasc).2.2 e he last (List.mem_singleton_self _)).le
    · exact (congrArg (·.2.seq) (List.mem_singleton.mp he)).le

theorem le_nextPosition : since ≤ db.nextPosition since limit := by
  rcases db.nextPosition_cases since limit with ⟨-, heq⟩ | ⟨last, hmem, heq⟩
  · exact heq.ge
  · exact (h.of_mem_shown hmem).2.le.trans heq.ge

/-- A page does not end after the last number given out, so what is written later lies behind its
end. -/
theorem nextPosition_le (hsince : since ≤ db.seq) : db.nextPosition since limit ≤ db.seq := by
  rcases db.nextPosition_cases since limit with ⟨-, heq⟩ | ⟨last, hmem, heq⟩
  · exact heq.trans_le hsince
  · exact heq.trans_le (h.seq_le (h.of_mem_shown hmem).1)

/-- **A page leaves nothing out** between its start and its end, wherever it is cut: what it does
not show has a greater number than all it shows. -/
theorem mem_shown {e : String × StoredDocument} (he : db.get? e.1 = some e.2)
    (hlow : since < e.2.seq) (hhigh : e.2.seq ≤ db.nextPosition since limit) :
    e ∈ db.shown since limit := by
  have hmem := h.mem_changedSince.mpr ⟨he, hlow⟩
  rw [← List.take_append_drop limit (db.changedSince since)] at hmem
  refine (List.mem_append.mp hmem).resolve_right fun hdrop => ?_
  -- a change beyond the page comes after the last one on it
  have hasc := h.ascending_changedSince since
  rw [← List.take_append_drop limit (db.changedSince since), List.pairwise_append] at hasc
  rcases db.nextPosition_cases since limit with ⟨-, heq⟩ | ⟨last, hlast, heq⟩
  · omega
  · have hlt := hasc.2.2 last hlast e hdrop
    omega

/-- **What comes after a page** is what it left of the changes after its start, so reading page by
page runs through the changes once. -/
theorem changedSince_nextPosition :
    db.changedSince (db.nextPosition since limit) = (db.changedSince since).drop limit := by
  have hasc := h.ascending_changedSince since
  have hsplit := List.take_append_drop limit (db.changedSince since)
  rw [← hsplit, List.pairwise_append] at hasc
  refine List.Perm.eq_of_pairwise (fun a b _ _ hab hba => absurd hab (lt_asymm hba))
    (h.ascending_changedSince _) hasc.2.1 ?_
  -- ascending lists with the same elements are the same
  have hnodup : ∀ {es : List (String × StoredDocument)},
      (es.Pairwise fun a b => a.2.seq < b.2.seq) → es.Nodup :=
    fun hes => hes.imp fun hlt heq => absurd (congrArg (·.2.seq) heq) hlt.ne
  rw [List.perm_ext_iff_of_nodup (hnodup (h.ascending_changedSince _)) (hnodup hasc.2.1)]
  intro e
  rw [h.mem_changedSince]
  constructor
  · rintro ⟨he, hlt⟩
    have hmem := h.mem_changedSince.mpr ⟨he, h.le_nextPosition.trans_lt hlt⟩
    rw [← hsplit] at hmem
    refine (List.mem_append.mp hmem).resolve_left fun hshown => ?_
    exact absurd (h.seq_le_nextPosition hshown) (Nat.not_le.mpr hlt)
  · intro hdrop
    obtain ⟨he, hlow⟩ := h.mem_changedSince.mp (List.mem_of_mem_drop hdrop)
    refine ⟨he, ?_⟩
    rcases db.nextPosition_cases since limit with ⟨-, heq⟩ | ⟨last, hlast, heq⟩
    · exact heq.trans_lt hlow
    · exact heq.trans_lt (hasc.2.2 last hlast e hdrop)

/-- **A page that is not full** leaves nothing out after its start. This is how a reader knows that
it is up to date. -/
theorem mem_shown_of_length_lt (hlen : (db.shown since limit).length < limit)
    {e : String × StoredDocument} (he : db.get? e.1 = some e.2) (hlow : since < e.2.seq) :
    e ∈ db.shown since limit := by
  rw [shown, List.length_take] at hlen
  rw [shown, List.take_of_length_le (by omega)]
  exact h.mem_changedSince.mpr ⟨he, hlow⟩

end Sound
end Database

/-! ### Positions handed back -/

/-- **A token marks a position** if the store gave it for that position, or if there is none and the
position is the start of the feed. -/
def MarksPosition (token : Option ResumeToken) (position : Nat) : Prop :=
  (token = none ∧ position = 0) ∨ token = some ⟨toString position⟩

namespace MarksPosition

variable {s : MemoryStore} {r : ChangeRequest} {position : Nat}

/-- The store reads its tokens back, unless the position does not fit in 64 bits, and then the token
is refused. -/
theorem position? {token : Option ResumeToken} (h : MarksPosition token position) :
    MemoryStore.position? token = .ok position ∨
      2 ^ 64 ≤ position ∧ ∃ e, MemoryStore.position? token = .error e := by
  rcases h with ⟨htoken, rfl⟩ | htoken
  · exact .inl (htoken ▸ rfl)
  · rw [htoken, MemoryStore.position?, Digits.unsigned64?_toString]
    -- a position is written as its digits, and these are read within 64 bits
    rcases Nat.lt_or_ge position (2 ^ 64) with hlt | hge
    · have hfits : fitsUnsigned 64 position = true := decide_eq_true hlt
      exact .inl (by rw [Option.filter_some_pos hfits])
    · have hbig : fitsUnsigned 64 position = false := decide_eq_false (Nat.not_lt.mpr hge)
      exact .inr ⟨hge, _, by rw [Option.filter_some_neg hbig]⟩

/-- A token marks one position only, if that fits, since a number is told by its digits. -/
theorem unique {token : Option ResumeToken} {other : Nat} (h : MarksPosition token position)
    (h' : MarksPosition token other) (hfits : position < 2 ^ 64) : other = position := by
  have hp := h.position?.resolve_right fun hbig => absurd hbig.1 (Nat.not_le.mpr hfits)
  rcases h'.position? with hp' | ⟨-, e, hp'⟩
  · exact (Except.ok.inj (hp.symm.trans hp')).symm
  · exact nomatch hp.symm.trans hp'

/-- A request is answered by the page that starts at its position, if it is answered at all. -/
theorem changes_eq_ok (h : MarksPosition r.since position) {page : ChangeBatch}
    (hpage : s.changes r = .ok page) :
    page = (s.databaseOf r.database).page position r.limit r.includeDocs := by
  rw [MemoryStore.changes] at hpage
  -- a position that does not fit would have been refused
  rcases h.position? with hp | ⟨-, e, hp⟩
  · simp only [hp] at hpage
    rw [MemoryStore.databaseOf]
    cases hdb : s.database? r.database with
    | none =>
      rw [hdb] at hpage
      cases hpage
    | some db =>
      rw [hdb] at hpage
      exact (Except.ok.inj hpage).symm
  · simp only [hp] at hpage
    cases hpage

/-- **A request is answered** if its database is there and its position fits, and then by the page
that starts at its position. -/
theorem changes_eq (h : MarksPosition r.since position) (hdb : s.database? r.database ≠ none)
    (hfits : position < 2 ^ 64) :
    s.changes r = .ok ((s.databaseOf r.database).page position r.limit r.includeDocs) := by
  obtain ⟨db, hdb⟩ := Option.ne_none_iff_exists'.mp hdb
  have hp := h.position?.resolve_right fun hbig => absurd hbig.1 (Nat.not_le.mpr hfits)
  rw [MemoryStore.changes, MemoryStore.databaseOf]
  simp only [hp, hdb]
  rfl

end MarksPosition

/-! ### A reader of a feed -/

/-- **A reader of a feed**, with the store it reads: the position to go on from, none at first, and
the rows delivered so far. -/
structure Follower where
  store : MemoryStore := {}
  token : Option ResumeToken := none
  delivered : List ChangeRow := []

/-- What can happen to a reader: documents are written, by anybody and to any database, or it reads
a page with a limit of its own. -/
inductive FeedEvent where
  | write (call : WriteCall)
  | read (limit : Nat) (includeDocs : Bool)

/-- The position of the last row delivered for an id. Earlier rows of the id are out of date. -/
def lastDelivered (rows : List ChangeRow) (id : String) : Option ResumeToken :=
  (rows.filter (·.id = id)).getLast?.map (·.seq)

namespace Follower

/-- The reader's request for its next page, from the position that the last page ended with. -/
def request (f : Follower) (database : String) (limit : Nat) (includeDocs : Bool) : ChangeRequest :=
  { database, since := f.token, limit, includeDocs }

/-- **One event.** A request that fails leaves the reader as it is. -/
def step (database : String) (f : Follower) : FeedEvent → Follower
  | .write call => { f with store := (call.run f.store).2 }
  | .read limit includeDocs =>
    match f.store.changes (f.request database limit includeDocs) with
    | .ok page => { f with token := some page.lastSeq, delivered := f.delivered ++ page.rows }
    | .error _ => f

/-- **A reader that follows a database from the start**, through writes and reads in any order, the
store being empty at first. -/
def follow (database : String) (events : List FeedEvent) : Follower :=
  events.foldl (step database) {}

/-- **The invariant of a reader** at a position: what was stored up to the position was delivered
last for its id. -/
structure Caught (database : String) (f : Follower) (position : Nat) : Prop where
  sound : (f.store.databaseOf database).Sound
  token : (f.token = none ∧ position = 0) ∨ f.token = some ⟨toString position⟩
  position_le : position ≤ (f.store.databaseOf database).seq
  /-- The rows delivered so far ascend, up to the position. -/
  rows : ∃ seqs : List Nat, seqs.Pairwise (· < ·) ∧ (∀ n ∈ seqs, n ≤ position) ∧
    f.delivered.map (·.seq) = seqs.map fun n => ⟨toString n⟩
  caught : ∀ id d, f.store.stored? database id = some d → d.seq ≤ position →
    lastDelivered f.delivered id = some ⟨toString d.seq⟩

/-- At the start nothing has been delivered, and nothing lies up to position zero, so the reader is
caught up there. -/
theorem caught_start (database : String) : Caught database {} 0 where
  sound := Database.sound_empty
  token := .inl ⟨rfl, rfl⟩
  position_le := Nat.le_refl 0
  rows := ⟨[], List.Pairwise.nil, fun _ hn => absurd hn List.not_mem_nil, rfl⟩
  caught _ _ hd := nomatch hd

namespace Caught

variable {database : String} {f : Follower} {position : Nat}

/-- **A single write keeps the invariant**: what it stores lies behind the position, and what it
writes over need not be caught any more. -/
theorem write (h : Caught database f position) (name : String) (doc : OutboundDocument) :
    Caught database { f with store := (f.store.write name doc).2 } position := by
  have hdb : (f.store.write name doc).2.databaseOf database =
      if database = name then ((f.store.databaseOf database).write doc).2
      else f.store.databaseOf database := by
    rw [MemoryStore.databaseOf_write]
    split
    · next heq => rw [heq]
    · rfl
  refine ⟨?_, h.token, ?_, h.rows, fun id d hd hle => ?_⟩
  · rw [hdb]
    split
    · exact h.sound.write doc
    · exact h.sound
  · exact h.position_le.trans (f.store.seq_le_seq_write name doc database)
  · -- the document that is stored now has a number behind the position
    rw [MemoryStore.stored?, hdb] at hd
    split at hd
    · rcases hw : (f.store.databaseOf database).write doc with ⟨outcome, db'⟩
      rw [hw] at hd
      cases Database.writes hw with
      | conflict refused => exact h.caught id d hd hle
      | stored next rev seq deleted =>
        rw [Database.get?_store] at hd
        split at hd
        · obtain rfl := Option.some.inj hd
          have := h.position_le
          omega
        · exact h.caught id d hd hle
    · exact h.caught id d hd hle

/-- **A call that writes keeps the invariant**, since it is made up of single writes to the store
that the reader reads. -/
theorem run (h : Caught database f position) (call : WriteCall) :
    Caught database { f with store := (call.run f.store).2 } position := by
  -- for single writes the invariant is known, and a call is made of these
  let P : List Write → MemoryStore → Prop :=
    fun _ s => Caught database { f with store := s } position
  have hopened : ∀ log s name, P log s → P log (s.opened name) := fun log s name h =>
    { h with
      sound := (s.databaseOf_opened name database).symm ▸ h.sound
      position_le := (s.databaseOf_opened name database).symm ▸ h.position_le
      caught := fun id d hd => h.caught id d
        (by rw [MemoryStore.stored?, MemoryStore.databaseOf_opened] at hd; exact hd) }
  exact @WriteCall.run_induction P hopened (fun _ s name doc h => h.write name doc)
    [] f.store h call

/-- The request of a reader is answered by the page that starts at its position. -/
theorem changes_eq_ok (h : Caught database f position) {limit : Nat} {includeDocs : Bool}
    {page : ChangeBatch}
    (hpage : f.store.changes (f.request database limit includeDocs) = .ok page) :
    page = (f.store.databaseOf database).page position limit includeDocs :=
  MarksPosition.changes_eq_ok (r := f.request database limit includeDocs) h.token hpage

/-- **A reader is always answered**: the database is there, and its numbers fit, which its position
is among. -/
theorem exists_page (h : Caught database f position) (hdb : f.store.database? database ≠ none)
    (hseq : (f.store.databaseOf database).seq < 2 ^ 64) (limit : Nat) (includeDocs : Bool) :
    ∃ page, f.store.changes (f.request database limit includeDocs) = .ok page :=
  ⟨_, MarksPosition.changes_eq (r := f.request database limit includeDocs) h.token hdb
    (h.position_le.trans_lt hseq)⟩

/-- What a reader has delivered last, one more page added: the document as it is stored, if that was
delivered before or is on the page. -/
theorem lastDelivered_append (h : Caught database f position) {limit : Nat} {includeDocs : Bool}
    {id : String} {d : StoredDocument} (hd : f.store.stored? database id = some d)
    (hshown : d.seq ≤ position ∨ (id, d) ∈ (f.store.databaseOf database).shown position limit) :
    lastDelivered (f.delivered ++
      ((f.store.databaseOf database).shown position limit).map (Database.row includeDocs)) id =
      some ⟨toString d.seq⟩ := by
  set db := f.store.databaseOf database with hdb
  -- of the rows on the page only that of the document itself has its id
  have hpage : ∀ e ∈ db.shown position limit, e.1 = id → e = (id, d) := by
    intro e he hid
    have hget := (h.sound.of_mem_shown he).1
    rw [hid] at hget
    exact Prod.ext hid (Option.some.inj (hget.symm.trans hd))
  rw [lastDelivered, List.filter_append, List.getLast?_append]
  cases hlast : (((db.shown position limit).map (Database.row includeDocs)).filter
      (·.id = id)).getLast? with
  | some row =>
    obtain ⟨hrow, hid⟩ := List.mem_filter.mp (List.mem_of_getLast? hlast)
    obtain ⟨e, he, rfl⟩ := List.mem_map.mp hrow
    rw [hpage e he (of_decide_eq_true hid)]
    rfl
  | none =>
    -- the page does not have the document, so it was delivered before
    have hnone := List.getLast?_eq_none_iff.mp hlast
    have hnot : (id, d) ∉ db.shown position limit := by
      intro hmem
      have hrow : Database.row includeDocs (id, d) ∈
          ((db.shown position limit).map (Database.row includeDocs)).filter (·.id = id) :=
        List.mem_filter.mpr ⟨List.mem_map_of_mem hmem, decide_eq_true rfl⟩
      rw [hnone] at hrow
      exact absurd hrow List.not_mem_nil
    exact h.caught id d hd (hshown.resolve_right hnot)

/-- **Reading a page keeps the invariant**, at the position where the page ends; a request that is
refused leaves the reader where it was. -/
theorem read (h : Caught database f position) (limit : Nat) (includeDocs : Bool) :
    ∃ position, Caught database (step database f (.read limit includeDocs)) position := by
  rw [step]
  split
  · next page hpage =>
    obtain rfl := h.changes_eq_ok hpage
    rw [Database.page_eq]
    refine ⟨(f.store.databaseOf database).nextPosition position limit, h.sound, .inr rfl,
      h.sound.nextPosition_le h.position_le, ?_, fun id d hd hle => ?_⟩
    · -- the rows of the page ascend, and lie behind all that were delivered before
      obtain ⟨seqs, hasc, hle, hrows⟩ := h.rows
      refine ⟨seqs ++ ((f.store.databaseOf database).shown position limit).map (·.2.seq),
        List.pairwise_append.mpr ⟨hasc, ?_, fun n hn m hm => ?_⟩, fun n hn => ?_, ?_⟩
      · exact List.pairwise_map.mpr (h.sound.ascending_changedSince position).take
      · obtain ⟨e, he, rfl⟩ := List.mem_map.mp hm
        exact (hle n hn).trans_lt (h.sound.of_mem_shown he).2
      · rcases List.mem_append.mp hn with hn | hn
        · exact (hle n hn).trans h.sound.le_nextPosition
        · obtain ⟨e, he, rfl⟩ := List.mem_map.mp hn
          exact h.sound.seq_le_nextPosition he
      · rw [List.map_append, hrows, List.map_append, List.map_map, List.map_map]
        rfl
    · refine h.lastDelivered_append hd ?_
      rcases Nat.lt_or_ge position d.seq with hlt | hge
      · exact .inr (h.sound.mem_shown (e := (id, d)) hd hlt hle)
      · exact .inl hge
  · exact ⟨position, h⟩

end Caught

/-- **The invariant holds after every run** of writes and reads, at the position which the reader
has come to by then. -/
theorem exists_caught (database : String) (events : List FeedEvent) :
    ∃ position, Caught database (follow database events) position := by
  suffices key : ∀ f position, Caught database f position →
      ∃ position, Caught database (events.foldl (step database) f) position from
    key {} 0 (caught_start database)
  -- along the events, each of which is one of the two steps
  induction events with
  | nil => exact fun f position h => ⟨position, h⟩
  | cons event rest ih =>
    intro f position h
    cases event with
    | write call => exact ih _ position (h.run call)
    | read limit includeDocs =>
      obtain ⟨position', h'⟩ := h.read limit includeDocs
      exact ih _ position' h'

/-- **Every change is delivered, in order and once.** Whatever is written in between and wherever
the pages are cut: the numbers of the rows delivered ascend; a database that is there, whose numbers
fit, answers every request; each row of a page shows its document as it is stored then; and after a
page that is not full every document was last delivered as it is stored. -/
theorem complete_of_follow (database : String) (events : List FeedEvent) :
    let f := follow database events
    (∃ seqs : List Nat, seqs.Pairwise (· < ·) ∧
      f.delivered.map (·.seq) = seqs.map fun n => ⟨toString n⟩) ∧
    (f.store.database? database ≠ none → (f.store.databaseOf database).seq < 2 ^ 64 →
      ∀ limit includeDocs,
        ∃ page, f.store.changes (f.request database limit includeDocs) = .ok page) ∧
    ∀ limit includeDocs page, f.store.changes (f.request database limit includeDocs) = .ok page →
      (∀ row ∈ page.rows, ∃ d, f.store.stored? database row.id = some d ∧
        row.seq = ⟨toString d.seq⟩ ∧ row.deleted = d.deleted ∧
        row.doc = if includeDocs then some (.obj d.body) else none) ∧
      (page.rows.length < limit → ∀ id d, f.store.stored? database id = some d →
        lastDelivered (f.delivered ++ page.rows) id = some ⟨toString d.seq⟩) := by
  intro f
  obtain ⟨position, h⟩ := exists_caught database events
  obtain ⟨seqs, hasc, -, hrows⟩ := h.rows
  refine ⟨⟨seqs, hasc, hrows⟩, h.exists_page, fun limit includeDocs page hpage => ?_⟩
  -- a page starts at the position of the reader, up to which it is caught up
  obtain rfl := h.changes_eq_ok hpage
  rw [Database.page_eq]
  refine ⟨fun row hrow => ?_, fun hlen id d hd => h.lastDelivered_append hd ?_⟩
  · obtain ⟨e, he, rfl⟩ := List.mem_map.mp hrow
    exact ⟨e.2, (h.sound.of_mem_shown he).1, rfl, rfl, rfl⟩
  · rcases Nat.lt_or_ge position d.seq with hlt | hge
    · rw [List.length_map] at hlen
      exact .inr (h.sound.mem_shown_of_length_lt hlen (e := (id, d)) hd hlt)
    · exact .inl hge

/-- A reader of single rows is overtaken: the document it has read is written once more, with
another one in the same call. Its next page shows both, the other one last. -/
theorem complete_of_follow_overtaken :
    let events := [FeedEvent.write (.put "db" [("_id", .str "a")]), .read 1 false,
      .write (.bulkWrite "db"
        [⟨[("_id", .str "a"), ("_rev", .str "1-0000000000000001")]⟩, ⟨[("_id", .str "b")]⟩])]
    let f := follow "db" events
    f.delivered.map (·.seq) = [⟨"1"⟩] ∧
    ∃ page, f.store.changes (f.request "db" 3 true) = .ok page ∧
      page.rows.map (·.seq) = [⟨"2"⟩, ⟨"3"⟩] ∧
      lastDelivered (f.delivered ++ page.rows) "a" = some ⟨"2"⟩ := by
  intro events f
  obtain ⟨-, hanswered, hpages⟩ := complete_of_follow "db" events
  have hthere : f.store.database? "db" ≠ none := by decide +kernel
  obtain ⟨page, hpage⟩ := hanswered hthere (by decide +kernel) 3 true
  have hseqs : (f.store.changes (f.request "db" 3 true)).toOption.map (·.rows.map (·.seq)) =
      some [⟨"2"⟩, ⟨"3"⟩] := by decide +kernel
  rw [hpage] at hseqs
  have hrows : page.rows.map (·.seq) = [⟨"2"⟩, ⟨"3"⟩] := Option.some.inj hseqs
  have hnotFull : page.rows.length < 3 := by
    rw [← List.length_map (·.seq), hrows]
    decide
  refine ⟨by decide +kernel, page, hpage, hrows, ?_⟩
  have hstored : (f.store.stored? "db" "a").map (·.seq) = some 2 := by decide +kernel
  obtain ⟨d, hd, hseq⟩ := Option.map_eq_some_iff.mp hstored
  rw [(hpages 3 true page hpage).2 hnotFull "a" d hd, hseq]
  rfl

end Follower
end DocStream
