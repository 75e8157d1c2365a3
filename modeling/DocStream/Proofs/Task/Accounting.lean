import DocStream.Proofs.Task.Sinking
import DocStream.Proofs.Value.Plain
import Mathlib.Data.List.Forall2
import Mathlib.Data.List.Perm.Basic

/-!
# What the sink task reports

The sink task sorts records out in two passes. The first one skips the records of other topics and
sets those aside that become no document; the second one sends the documents in batches, and the
store has an outcome for each. Records are told by their places, so that what the report says about
either pass is about the same records.

* `SinkTask.Fares` — **what becomes of each record**, given the outcomes that its documents meet;
* `SinkReport.Counts` — a report that counts the fates of records;
* `SinkTask.Prepares` — the first pass, and `SinkTask.writeBatches_eq`, the second one, in any monad;
* `SinkTask.put_accounts` — **every record has one fate**, and every document is sent once, in order.

The fates are given by an inductive relation over the records and the outcomes, so that what a
record fares can be read off its constructor without running the task. The first pass is related to
it from the end of the list on: what is prepared from the later records is extended by what the
first one does (`Prepares.skip`, `Prepares.setAside`, `Prepares.send`). The second pass adds to
counts only, and need not know any record.

The store is a parameter throughout. Nothing is assumed about it but that it answers a call with one
outcome for each document.
-/

namespace DocStream

open Outcome

namespace SinkTask

variable (t : SinkTask)

/-- **A record that becomes no document** is to blame for it itself. -/
theorem failsPerRecord_documentOf? (r : SinkRecord) : (t.documentOf? r).FailsPerRecord :=
  (r.value.failsPerRecord_toDocument? r.schema).bind fun _ _ => failsPerRecord_ok _

/-- **The documents of records**, in order: those of consumed topics that become one. -/
def documentsOf (records : List SinkRecord) : List OutboundDocument :=
  records.filterMap fun r => if t.consumes r.topic then (t.documentOf? r).toOption else none

/-! ### Fates -/

/-- **What became of a record.** -/
inductive Fate where
  | skipped
  | written
  | failed (failure : RecordFailure)

/-- **The report of fates** in the order of their records. -/
def tally : List Fate → SinkReport
  | [] => {}
  | .skipped :: fates => { tally fates with skipped := (tally fates).skipped + 1 }
  | .written :: fates => { tally fates with written := (tally fates).written + 1 }
  | .failed failure :: fates => { tally fates with failed := failure :: (tally fates).failed }

/-- The failure that an outcome reports of a document on its way. -/
def refusal (p : Pending) (o : WriteOutcome) : RecordFailure :=
  { index := p.1, id := o.id <|> p.2.id?, error := o.error.getD "unknown", reason := o.reason }

/-- **What becomes of records**, from the given place on, if their documents meet some outcomes in
order. -/
inductive Fares : (index : Nat) → List SinkRecord → List WriteOutcome → List Fate → Prop where
  | nil (index : Nat) : Fares index [] [] []
  /-- A record of a topic that is not consumed. -/
  | skip {index : Nat} {r : SinkRecord} {records : List SinkRecord} {outcomes : List WriteOutcome}
      {fates : List Fate} (unheard : t.consumes r.topic = false)
      (rest : Fares (index + 1) records outcomes fates) :
      Fares index (r :: records) outcomes (.skipped :: fates)
  /-- A record that becomes no document. -/
  | unconverted {index : Nat} {r : SinkRecord} {records : List SinkRecord}
      {outcomes : List WriteOutcome} {fates : List Fate} {e : Error}
      (heard : t.consumes r.topic = true) (fails : t.documentOf? r = .error e)
      (rest : Fares (index + 1) records outcomes fates) :
      Fares index (r :: records) outcomes
        (.failed { index, id := r.key, error := e.message, reason := none } :: fates)
  /-- A record whose document was written. -/
  | written {index : Nat} {r : SinkRecord} {records : List SinkRecord} {o : WriteOutcome}
      {outcomes : List WriteOutcome} {fates : List Fate} {doc : OutboundDocument}
      (heard : t.consumes r.topic = true) (document : t.documentOf? r = .ok doc)
      (ok : o.ok = true) (rest : Fares (index + 1) records outcomes fates) :
      Fares index (r :: records) (o :: outcomes) (.written :: fates)
  /-- A record whose document was refused. -/
  | refused {index : Nat} {r : SinkRecord} {records : List SinkRecord} {o : WriteOutcome}
      {outcomes : List WriteOutcome} {fates : List Fate} {doc : OutboundDocument}
      (heard : t.consumes r.topic = true) (document : t.documentOf? r = .ok doc)
      (refused : o.ok = false) (rest : Fares (index + 1) records outcomes fates) :
      Fares index (r :: records) (o :: outcomes) (.failed (refusal (index, doc) o) :: fates)

/-- **A report counts the fates of records.** It may list failures in any order. -/
structure Counts (report : SinkReport) (fates : List Fate) : Prop where
  written : report.written = (tally fates).written
  skipped : report.skipped = (tally fates).skipped
  failed : report.failed.Perm (tally fates).failed

namespace Counts

variable {report : SinkReport} {fates : List Fate}

theorem skip (h : Counts report fates) :
    Counts { report with skipped := report.skipped + 1 } (.skipped :: fates) :=
  ⟨h.written, congrArg (· + 1) h.skipped, h.failed⟩

theorem write (h : Counts report fates) :
    Counts { report with written := report.written + 1 } (.written :: fates) :=
  ⟨congrArg (· + 1) h.written, h.skipped, h.failed⟩

theorem fail (h : Counts report fates) {f : RecordFailure} {failed : List RecordFailure}
    (hfailed : failed.Perm (f :: report.failed)) :
    Counts { report with failed } (.failed f :: fates) :=
  ⟨h.written, h.skipped, hfailed.trans (h.failed.cons f)⟩

/-- Written, skipped and failed records are all that there are. -/
theorem length_eq (h : Counts report fates) :
    report.written + report.skipped + report.failed.length = fates.length := by
  have htally : (tally fates).written + (tally fates).skipped + (tally fates).failed.length =
      fates.length := by
    -- the counts of a tally do not depend on the report, so the induction leaves that out
    clear h
    induction fates with
    | nil => rfl
    | cons fate fates ih =>
      cases fate with
      | skipped | written | failed =>
        simp only [tally, List.length_cons]
        omega
  rw [h.written, h.skipped, h.failed.length_eq, htally]

end Counts

variable {t}

/-- Each record has one fate, so there are as many fates as records. -/
theorem Fares.length_eq {index : Nat} {records : List SinkRecord} {outcomes : List WriteOutcome}
    {fates : List Fate} (h : t.Fares index records outcomes fates) :
    fates.length = records.length := by
  induction h with
  | nil => rfl
  | skip _ _ ih | unconverted _ _ _ ih | written _ _ _ _ ih | refused _ _ _ _ ih =>
    rw [List.length_cons, List.length_cons, ih]

/-- **Failures tell records apart**: in the order of the records their places ascend. -/
theorem Fares.ascending {index : Nat} {records : List SinkRecord} {outcomes : List WriteOutcome}
    {fates : List Fate} (h : t.Fares index records outcomes fates) :
    (∀ f ∈ (tally fates).failed, index ≤ f.index) ∧
      ((tally fates).failed.map RecordFailure.index).Pairwise (· < ·) := by
  -- a failure at the first place comes before those at later places
  have hfailed : ∀ {index : Nat} {failed : List RecordFailure} (f : RecordFailure),
      f.index = index → (∀ g ∈ failed, index + 1 ≤ g.index) ∧
        (failed.map RecordFailure.index).Pairwise (· < ·) →
      (∀ g ∈ f :: failed, index ≤ g.index) ∧
        ((f :: failed).map RecordFailure.index).Pairwise (· < ·) := by
    rintro index failed f rfl ⟨hle, hasc⟩
    refine ⟨fun g hg => ?_, List.pairwise_cons.mpr ⟨fun i hi => ?_, hasc⟩⟩
    · rcases List.mem_cons.mp hg with rfl | hg
      · exact Nat.le_refl _
      · exact (Nat.le_succ _).trans (hle g hg)
    · obtain ⟨g, hg, rfl⟩ := List.mem_map.mp hi
      exact hle g hg
  -- by induction on the relation: skipped and written records list nothing, and the others list
  -- their own place first
  induction h with
  | nil => exact ⟨fun _ hf => absurd hf List.not_mem_nil, .nil⟩
  | skip _ _ ih | written _ _ _ _ ih =>
    exact ⟨fun f hf => (Nat.le_succ _).trans (ih.1 f hf), ih.2⟩
  | unconverted _ _ _ ih | refused _ _ _ _ ih => exact hfailed _ rfl ih

/-! ### The first pass -/

/-- The failures that the outcomes of documents report. -/
def refusals : List Pending → List WriteOutcome → List RecordFailure
  | p :: pending, o :: outcomes =>
    if o.ok then refusals pending outcomes else refusal p o :: refusals pending outcomes
  | _, _ => []

/-- Outcomes added to a report, one for each document: the number of those that were written, and
the failures that the others report, in order. So a pass over outcomes adds to a report and need not
know what is in it. -/
theorem addOutcomes_eq {pending : List Pending} {outcomes : List WriteOutcome}
    (h : outcomes.length = pending.length) (report : SinkReport) :
    addOutcomes report pending outcomes = { report with
      written := report.written + outcomes.countP WriteOutcome.ok
      failed := report.failed ++ refusals pending outcomes } := by
  induction pending generalizing outcomes report with
  | nil =>
    rw [List.eq_nil_of_length_eq_zero h, refusals, List.append_nil]
    · rfl
    · exact nofun
  | cons p pending ih =>
    cases outcomes with
    | nil => exact nomatch h
    | cons o outcomes =>
      have hstep : addOutcomes report (p :: pending) (o :: outcomes) =
          addOutcomes (addOutcome report p o) pending outcomes := rfl
      rw [hstep, ih (Nat.succ.inj h), addOutcome, refusals]
      split
      · next hok =>
        rw [List.countP_cons_of_pos hok, Nat.add_right_comm, Nat.add_assoc]
      · next hok =>
        rw [List.countP_cons_of_neg hok, List.append_assoc]
        rfl

variable (t)

/-- **The first pass over records**, from the given place on: it ends with a report and with the
documents of the records, and once outcomes are added, one for each document, the report counts the
fates of the records. -/
structure Prepares (index : Nat) (records : List SinkRecord) (skipped : Nat)
    (failures : List RecordFailure) (pending : List Pending) : Prop where
  ends : ∀ report, t.prepare index report records = .ok ({ report with
    skipped := report.skipped + skipped
    failed := report.failed ++ failures }, pending)
  documents : pending.map Prod.snd = t.documentsOf records
  fates : ∀ outcomes, outcomes.length = pending.length → ∃ fates,
    t.Fares index records outcomes fates ∧
      Counts (addOutcomes { skipped, failed := failures } pending outcomes) fates

namespace Prepares

variable {t} {index : Nat} {r : SinkRecord} {records : List SinkRecord} {skipped : Nat}
  {failures : List RecordFailure} {pending : List Pending}

theorem nil (index : Nat) : t.Prepares index [] 0 [] [] where
  ends report := by
    rw [prepare, List.append_nil]
    rfl
  documents := rfl
  fates outcomes h := by
    rw [List.eq_nil_of_length_eq_zero h]
    exact ⟨[], .nil index, rfl, rfl, .nil⟩

/-- A record of a topic that is not consumed adds to the skipped ones, and sends nothing. -/
theorem skip (rest : t.Prepares (index + 1) records skipped failures pending)
    (unheard : t.consumes r.topic = false) :
    t.Prepares index (r :: records) (skipped + 1) failures pending where
  ends report := by
    rw [prepare, if_pos (by rw [unheard]; rfl), rest.ends, Nat.add_assoc, Nat.add_comm 1]
  documents := by
    rw [rest.documents, documentsOf, documentsOf, List.filterMap_cons_none]
    rw [if_neg (by rw [unheard]; exact Bool.false_ne_true)]
  fates outcomes hlen := by
    obtain ⟨fates, hfares, hcounts⟩ := rest.fates outcomes hlen
    rw [addOutcomes_eq hlen] at hcounts ⊢
    exact ⟨_, .skip unheard hfares, hcounts.skip⟩

/-- A record that becomes no document is set aside, since it is to blame for it itself. -/
theorem setAside (rest : t.Prepares (index + 1) records skipped failures pending)
    (heard : t.consumes r.topic = true) {e : Error} (fails : t.documentOf? r = .error e) :
    t.Prepares index (r :: records) skipped (⟨index, r.key, e.message, none⟩ :: failures)
      pending where
  ends report := by
    rw [prepare, if_neg (by rw [heard]; exact Bool.false_ne_true), fails]
    dsimp only
    rw [if_pos (t.failsPerRecord_documentOf? r e fails), rest.ends, List.append_assoc]
    rfl
  documents := by
    rw [rest.documents, documentsOf, documentsOf, List.filterMap_cons_none]
    rw [if_pos heard, fails]
    rfl
  fates outcomes hlen := by
    obtain ⟨fates, hfares, hcounts⟩ := rest.fates outcomes hlen
    rw [addOutcomes_eq hlen] at hcounts ⊢
    exact ⟨_, .unconverted heard fails hfares, hcounts.fail .rfl⟩

/-- A record that becomes a document waits for the outcome of that, whichever it will be. -/
theorem send (rest : t.Prepares (index + 1) records skipped failures pending)
    (heard : t.consumes r.topic = true) {doc : OutboundDocument}
    (document : t.documentOf? r = .ok doc) :
    t.Prepares index (r :: records) skipped failures ((index, doc) :: pending) where
  ends report := by
    rw [prepare, if_neg (by rw [heard]; exact Bool.false_ne_true), document]
    dsimp only
    rw [rest.ends]
    rfl
  documents := by
    rw [documentsOf, List.filterMap_cons_some, List.map_cons, rest.documents, documentsOf]
    rw [if_pos heard, document]
    rfl
  fates outcomes hlen := by
    cases outcomes with
    | nil => exact nomatch hlen
    | cons o outcomes =>
      obtain ⟨fates, hfares, hcounts⟩ := rest.fates outcomes (Nat.succ.inj hlen)
      rw [addOutcomes_eq (Nat.succ.inj hlen)] at hcounts
      rw [addOutcomes_eq hlen, refusals]
      -- the outcome of the first document decides on the fate of its record, and on nothing else
      cases hok : o.ok with
      | true =>
        rw [List.countP_cons_of_pos hok, if_pos rfl]
        exact ⟨_, .written heard document hok hfares, hcounts.write⟩
      | false =>
        rw [List.countP_cons_of_neg (by rw [hok]; exact Bool.false_ne_true),
          if_neg Bool.false_ne_true]
        exact ⟨_, .refused heard document hok hfares, hcounts.fail List.perm_middle⟩

end Prepares

/-- **The first pass always ends**, whatever the records are. -/
theorem exists_prepares (records : List SinkRecord) (index : Nat) :
    ∃ skipped failures pending, t.Prepares index records skipped failures pending := by
  -- by induction on the records, with the place of the first one left open
  induction records generalizing index with
  | nil => exact ⟨0, [], [], .nil index⟩
  | cons r records ih =>
    obtain ⟨skipped, failures, pending, rest⟩ := ih (index + 1)
    -- the task asks first for the topic and then for the document
    cases hheard : t.consumes r.topic with
    | false => exact ⟨_, _, _, rest.skip hheard⟩
    | true =>
      cases hdoc : t.documentOf? r with
      | error e => exact ⟨_, _, _, rest.setAside hheard hdoc⟩
      | ok doc => exact ⟨_, _, _, rest.send hheard hdoc⟩

/-! ### The second pass -/

/-- Batch after batch, the outcomes added to a report. -/
def addBatches : SinkReport → List (List Pending) → List (List WriteOutcome) → SinkReport
  | report, batch :: batches, outcomes :: more =>
    addBatches (addOutcomes report batch outcomes) batches more
  | report, _, _ => report

/-- The outcomes of two batches are those of the batches put together. -/
theorem addOutcomes_append (report : SinkReport) {ps qs : List Pending}
    {os more : List WriteOutcome} (h : os.length = ps.length) :
    addOutcomes report (ps ++ qs) (os ++ more) = addOutcomes (addOutcomes report ps os) qs more := by
  rw [addOutcomes, List.zip_append h.symm, List.foldl_append]
  rfl

/-- The bounds of batches cannot be told from the report. -/
theorem addBatches_eq {batches : List (List Pending)} {outcomes : List (List WriteOutcome)}
    (h : List.Forall₂ (fun batch os => os.length = batch.length) batches outcomes)
    (report : SinkReport) :
    addBatches report batches outcomes = addOutcomes report batches.flatten outcomes.flatten := by
  induction h generalizing report with
  | nil => rfl
  | cons hlen _ ih =>
    rw [addBatches, ih, List.flatten_cons, List.flatten_cons, addOutcomes_append report hlen]

/-- **The second pass**, for a store that answers every call: the batches are sent one after the
other, whatever has been answered. -/
theorem writeBatches_eq {m : Type → Type} [Monad m] [LawfulMonad m]
    (write : String → List OutboundDocument → m (List WriteOutcome)) (database : String)
    (report : SinkReport) (batches : List (List Pending)) :
    writeBatches (fun database docs => .ok <$> write database docs) database report batches =
      (fun outcomes => .ok (addBatches report batches outcomes)) <$>
        (batches.map (List.map Prod.snd)).mapM (write database) := by
  -- the report is left open, since each batch goes on with the report of the one before
  induction batches generalizing report with
  | nil => rw [writeBatches, List.map_nil, List.mapM_nil, map_pure, addBatches]; exact nofun
  | cons batch rest ih =>
    rw [writeBatches, List.map_cons, List.mapM_cons, bind_map_left, map_bind]
    refine bind_congr fun outcomes => ?_
    dsimp only
    rw [ih, map_bind, map_eq_pure_bind]
    refine bind_congr fun more => ?_
    rw [map_pure]
    rfl

/-- **Every record has one fate.** Whatever the records are, the sink task makes certain calls to a
store that answers them, and reports. The calls hand over the documents of the records, in order, no
call more than a batch and none without a document. If the store has one outcome for each document,
the report counts the fates of the records, and what it lists as failed are different records. -/
theorem put_accounts (records : List SinkRecord) :
    ∃ (calls : List (List OutboundDocument)) (report : List (List WriteOutcome) → SinkReport),
      calls.flatten = t.documentsOf records ∧
      (∀ docs ∈ calls, 1 ≤ docs.length ∧ docs.length ≤ max t.settings.batchSize 1) ∧
      (∀ {m : Type → Type} [Monad m] [LawfulMonad m]
        (write : String → List OutboundDocument → m (List WriteOutcome)),
        t.put (fun database docs => .ok <$> write database docs) records =
          (fun outcomes => .ok (report outcomes)) <$> calls.mapM (write t.settings.database)) ∧
      ∀ outcomes, List.Forall₂ (fun docs os => os.length = docs.length) calls outcomes →
        ∃ fates, t.Fares 0 records outcomes.flatten fates ∧ Counts (report outcomes) fates ∧
          (report outcomes).written + (report outcomes).skipped +
            (report outcomes).failed.length = records.length ∧
          ((report outcomes).failed.map RecordFailure.index).Nodup := by
  -- the calls are fixed by the first pass, before the store has answered any of them
  obtain ⟨skipped, failures, pending, prepared⟩ := t.exists_prepares records 0
  set pieces := piecesOf (t.settings.batchSize - 1) pending with hpieces
  refine ⟨pieces.map (List.map Prod.snd), addBatches { skipped, failed := failures } pieces,
    ?_, fun docs hdocs => ?_, fun write => ?_, fun outcomes hlens => ?_⟩
  · rw [← List.map_flatten, hpieces, flatten_piecesOf, prepared.documents]
  · obtain ⟨piece, hpiece, rfl⟩ := List.mem_map.mp hdocs
    have hlen := length_of_mem_piecesOf hpiece
    rw [List.length_map]
    omega
  · rw [put, prepared.ends, ← writeBatches_eq]
    dsimp only
    rw [Nat.zero_add, List.nil_append]
  · rw [List.forall₂_map_left_iff] at hlens
    have hlens : List.Forall₂ (fun batch os => os.length = batch.length) pieces outcomes :=
      hlens.imp fun batch os h => h.trans (List.length_map _)
    -- batch by batch there are as many outcomes as documents, so there are in all
    have hlen : outcomes.flatten.length = pending.length := by
      rw [← flatten_piecesOf (t.settings.batchSize - 1) pending, ← hpieces, List.length_flatten,
        List.length_flatten, map_eq_map_of_forall₂ hlens.flip]
    rw [addBatches_eq hlens, hpieces, flatten_piecesOf]
    obtain ⟨fates, hfares, hcounts⟩ := prepared.fates outcomes.flatten hlen
    refine ⟨fates, hfares, hcounts, hcounts.length_eq.trans hfares.length_eq, ?_⟩
    exact (hcounts.failed.map _).nodup_iff.mpr (hfares.ascending.2.imp Nat.ne_of_lt)

/-- Five records, of which one is not consumed, one becomes no document and one is refused, sent two
by two. -/
theorem put_accounts_mixed :
    let t : SinkTask := ⟨{ database := "db", topics := ["t"], batchSize := 2 }⟩
    let records : List SinkRecord := [
      { topic := "u", schema := none, value := .map [] },
      { topic := "t", schema := none, value := .map [("_id", .string "a")] },
      { topic := "t", key := some "k", schema := none, value := .null },
      { topic := "t", schema := none, value := .map [("_id", .string "b")] },
      { topic := "t", schema := none, value := .map [("_id", .string "c")] }]
    let write : String → List OutboundDocument → List WriteOutcome := fun _ docs =>
      docs.map fun doc => { ok := doc.id? ≠ some "b" }
    let send : String → List OutboundDocument → Id (Outcome (List WriteOutcome)) :=
      fun database docs => .ok (write database docs)
    ∃ (calls : List (List OutboundDocument)) (report : SinkReport) (fates : List Fate),
      calls.flatten = t.documentsOf records ∧
      t.put send records = .ok report ∧
      t.Fares 0 records (calls.map (write "db")).flatten fates ∧ Counts report fates ∧
      report.written + report.skipped + report.failed.length = 5 ∧
      report.written = 2 ∧ report.skipped = 1 ∧ report.failed.map RecordFailure.index = [2, 3] := by
  intro t records write send
  obtain ⟨calls, report, hdocs, -, hput, hfates⟩ := t.put_accounts records
  have hlens : List.Forall₂ (fun docs os => os.length = docs.length) calls
      (calls.map (write "db")) :=
    List.forall₂_map_right_iff.mpr (List.forall₂_same.mpr fun docs _ => List.length_map _)
  obtain ⟨fates, hfares, hcounts, hsum, -⟩ := hfates _ hlens
  have hreport : t.put send records = .ok (report (calls.map (write "db"))) := by
    refine (hput (m := Id) write).trans ?_
    exact congrArg (fun outcomes => Except.ok (report outcomes)) List.idRun_mapM
  have hvalues : (match Id.run (t.put send records) with
      | .ok report => decide (report.written = 2 ∧ report.skipped = 1 ∧
          report.failed.map RecordFailure.index = [2, 3])
      | .error _ => false) = true := by decide +kernel
  rw [hreport] at hvalues
  exact ⟨calls, _, fates, hdocs, hreport, hfares, hcounts, hsum, of_decide_eq_true hvalues⟩

end SinkTask
end DocStream
