import DocStream.Proofs.Convert.Failures
import DocStream.Proofs.Document
import DocStream.Task.Source

/-!
# Reading pages of a change feed

A poll goes through the rows of a page one by one. A row makes a record, is skipped since its
document cannot be converted, or brings no document at all. None of this ends the poll, and so a
page that was answered can always be reported.

* `SourceTask.Makes` — **the two kinds of records**: of deleted documents and of converted ones;
* `SourceTask.report_eq` — **the report of a page**, row by row;
* `SourceTask.Accounts` — what becomes of each row, in order, and `SourceTask.poll_accounts` —
  **a poll accounts for every row** of the page, and fails only if the feed does.

A row is read by `recordOf?`, and all that matters of it is which of the three answers it gives: a
record, nothing, or an error. The third one is always to blame on the document
(`failsPerRecord_recordOf?`), which is why adding a row to a report never fails.
-/

namespace DocStream

open Outcome

/-- **A tombstone**: the record of a deleted document, with neither schema nor value. -/
def SourceRecord.isTombstone (r : SourceRecord) : Bool := r.schema.isNone && r.value.isNull

/-- **A bare row** is not deleted and shows no document either. -/
def ChangeRow.isBare (row : ChangeRow) : Bool := !row.deleted && row.doc.isNone

namespace SourceTask

variable (t : SourceTask)

/-- **The records that a row can make.** -/
inductive Makes (row : ChangeRow) : SourceRecord → Prop where
  /-- A deleted document leaves a tombstone. -/
  | tombstone (deleted : row.deleted = true) :
      Makes row ⟨t.settings.topic, row.id, none, .null, row.seq⟩
  /-- Any other document is read and converted. -/
  | converted {body : Json} {document : Document} {c : Converted} (live : row.deleted = false)
      (doc : row.doc = some body) (read : Document.ofJson? body = .ok document)
      (convert : t.converter.convert document.toJson = .ok c) :
      Makes row ⟨t.settings.topic, row.id, c.toRecord.1, c.toRecord.2, row.seq⟩

/-- **A row gives a record** exactly if it makes it. The relation spells out the two ways in which
that happens, and each later proof about records is a case split on it. -/
theorem recordOf?_eq_some {row : ChangeRow} {record : SourceRecord} :
    t.recordOf? row = .ok (some record) ↔ t.Makes row record := by
  rw [recordOf?]
  dsimp only
  constructor
  · intro h
    split at h
    · next deleted =>
      rw [← Option.some.inj (Except.ok.inj h)]
      exact .tombstone deleted
    · next live =>
      split at h
      · -- a live row without a document gives no record
        cases Except.ok.inj h
      · next body doc =>
        obtain ⟨document, hread, h⟩ := bind_eq_ok.mp h
        obtain ⟨c, hconvert, h⟩ := bind_eq_ok.mp h
        rw [← Option.some.inj (Except.ok.inj h)]
        exact .converted (Bool.eq_false_iff.mpr live) doc hread hconvert
  · intro h
    cases h with
    | tombstone deleted => rw [if_pos deleted]
    | converted live doc read convert =>
      rw [if_neg (Bool.eq_false_iff.mp live), doc]
      exact bind_eq_ok.mpr ⟨_, read, bind_eq_ok.mpr ⟨_, convert, rfl⟩⟩

/-- A row makes no record and is not skipped either if it has no document to show. -/
theorem recordOf?_eq_none {row : ChangeRow} :
    t.recordOf? row = .ok none ↔ row.deleted = false ∧ row.doc = none := by
  rw [recordOf?]
  dsimp only
  constructor
  · intro h
    split at h
    · cases Except.ok.inj h
    · next live =>
      split at h
      · next doc => exact ⟨Bool.eq_false_iff.mpr live, doc⟩
      · obtain ⟨document, -, h⟩ := bind_eq_ok.mp h
        obtain ⟨c, -, h⟩ := bind_eq_ok.mp h
        cases Except.ok.inj h
  · rintro ⟨live, doc⟩
    rw [if_neg (Bool.eq_false_iff.mp live), doc]

/-- **A document that makes no record** is to blame for it itself. -/
theorem failsPerRecord_recordOf? (row : ChangeRow) : (t.recordOf? row).FailsPerRecord := by
  rw [recordOf?]
  dsimp only
  split
  · exact failsPerRecord_ok _
  · split
    · exact failsPerRecord_ok _
    · next body _ =>
      refine (Document.failsPerRecord_ofJson? body).bind fun document _ => ?_
      refine (t.converter.failsPerRecord_convert document.toJson).bind fun c _ => ?_
      exact failsPerRecord_ok _

/-! ### Pages -/

/-- **The records of rows**, in order. -/
def recordsOf (rows : List ChangeRow) : List SourceRecord :=
  rows.filterMap fun row => (t.recordOf? row).toOption.join

/-- Is a row skipped, since its document cannot be converted? -/
def skips (row : ChangeRow) : Bool := !(t.recordOf? row).isOk

theorem skips_of_error {row : ChangeRow} {e : Error} (h : t.recordOf? row = .error e) :
    t.skips row = true := by
  rw [skips, h]
  rfl

/-- A row that gives a record or nothing is not skipped. -/
theorem not_skips_of_ok {row : ChangeRow} {record? : Option SourceRecord}
    (h : t.recordOf? row = .ok record?) : ¬t.skips row = true := by
  rw [skips, h]
  exact Bool.false_ne_true

/-- Rows give their records each on its own, so pages can be cut anywhere. -/
theorem recordsOf_append (rows rows' : List ChangeRow) :
    t.recordsOf (rows ++ rows') = t.recordsOf rows ++ t.recordsOf rows' :=
  List.filterMap_append

theorem mem_recordsOf {rows : List ChangeRow} {record : SourceRecord} :
    record ∈ t.recordsOf rows ↔ ∃ row ∈ rows, t.Makes row record := by
  rw [recordsOf, List.mem_filterMap]
  refine exists_congr fun row => and_congr_right fun _ => ?_
  rw [← recordOf?_eq_some]
  cases t.recordOf? row with
  | error e => simp [Except.toOption]
  | ok record? => simp [Except.toOption]

/-- **Rows added to a report** bring their records, and are skipped otherwise. -/
theorem foldlM_addRow (rows : List ChangeRow) (report : PollReport) :
    rows.foldlM t.addRow report = .ok { report with
      records := report.records ++ t.recordsOf rows
      skipped := report.skipped + rows.countP t.skips } := by
  -- the report is left open, since every row adds to what the rows before it gave
  induction rows generalizing report with
  | nil => simp [recordsOf, pure, Except.pure]
  | cons row rest ih =>
    have hspare := t.failsPerRecord_recordOf? row
    rw [List.foldlM_cons, addRow]
    cases hrow : t.recordOf? row with
    | error e =>
      -- the document is to blame, so it is counted and the page goes on
      have hnone : t.recordsOf (row :: rest) = t.recordsOf rest := by
        rw [recordsOf, List.filterMap_cons, hrow]
        rfl
      dsimp only
      rw [if_pos (hspare e hrow), hnone, List.countP_cons_of_pos (t.skips_of_error hrow)]
      refine (ih _).trans ?_
      rw [Nat.add_right_comm, Nat.add_assoc]
    | ok record? =>
      rw [List.countP_cons_of_neg (t.not_skips_of_ok hrow)]
      cases record? with
      | none =>
        have hnone : t.recordsOf (row :: rest) = t.recordsOf rest := by
          rw [recordsOf, List.filterMap_cons, hrow]
          rfl
        rw [hnone]
        exact ih report
      | some record =>
        have hsome : t.recordsOf (row :: rest) = record :: t.recordsOf rest := by
          rw [recordsOf, List.filterMap_cons, hrow]
          rfl
        rw [hsome]
        refine (ih _).trans ?_
        rw [List.append_assoc]
        rfl

/-- **The report of a page**: a record for every row that makes one, and the number of those that
were skipped. -/
theorem report_eq (batch : ChangeBatch) :
    t.report batch = .ok
      { records := t.recordsOf batch.rows
        skipped := batch.rows.countP t.skips
        resumeToken := some batch.lastSeq } := by
  rw [report, foldlM_addRow, List.nil_append, Nat.zero_add]
  rfl

/-! ### Accounts -/

/-- **A row fails** if it shows a document that cannot be read or converted. -/
def Fails (row : ChangeRow) : Prop :=
  row.deleted = false ∧ ∃ body e, row.doc = some body ∧
    (Document.ofJson? body >>= fun document => t.converter.convert document.toJson) = .error e

theorem fails_of_recordOf? {row : ChangeRow} {e : Error} (h : t.recordOf? row = .error e) :
    t.Fails row := by
  rw [recordOf?] at h
  dsimp only at h
  split at h
  · exact nomatch h
  · next live =>
    split at h
    · exact nomatch h
    · next body doc =>
      refine ⟨Bool.eq_false_iff.mpr live, body, e, doc, bind_eq_error.mpr ?_⟩
      -- the document can be read or not, and what was read can be converted or not
      rcases bind_eq_error.mp h with hread | ⟨document, hread, h⟩
      · exact .inl hread
      · rcases bind_eq_error.mp h with hconvert | ⟨c, -, h⟩
        · exact .inr ⟨document, hread, hconvert⟩
        · exact nomatch h

/-- **What becomes of rows**, in order: each makes one record, is skipped since its document fails,
or is bare. -/
inductive Accounts : List ChangeRow → List SourceRecord → (skipped : Nat) → Prop where
  | nil : Accounts [] [] 0
  | record {row : ChangeRow} {record : SourceRecord} {rows : List ChangeRow}
      {records : List SourceRecord} {skipped : Nat} (makes : t.Makes row record)
      (rest : Accounts rows records skipped) : Accounts (row :: rows) (record :: records) skipped
  | skip {row : ChangeRow} {rows : List ChangeRow} {records : List SourceRecord} {skipped : Nat}
      (fails : t.Fails row) (rest : Accounts rows records skipped) :
      Accounts (row :: rows) records (skipped + 1)
  | bare {row : ChangeRow} {rows : List ChangeRow} {records : List SourceRecord} {skipped : Nat}
      (bare : row.isBare = true) (rest : Accounts rows records skipped) :
      Accounts (row :: rows) records skipped

/-- **Every row is accounted for** by the records and the number of skipped rows that are reported.
-/
theorem accounts (rows : List ChangeRow) :
    t.Accounts rows (t.recordsOf rows) (rows.countP t.skips) := by
  induction rows with
  | nil => exact .nil
  | cons row rest ih =>
    rw [recordsOf, List.filterMap_cons]
    -- a row fails, shows nothing or makes a record, just as the fold goes through it
    cases hrow : t.recordOf? row with
    | error e =>
      rw [List.countP_cons_of_pos (t.skips_of_error hrow)]
      exact .skip (t.fails_of_recordOf? hrow) ih
    | ok record? =>
      rw [List.countP_cons_of_neg (t.not_skips_of_ok hrow)]
      cases record? with
      | none =>
        obtain ⟨live, doc⟩ := t.recordOf?_eq_none.mp hrow
        refine .bare ?_ ih
        rw [ChangeRow.isBare, live, doc]
        rfl
      | some record => exact .record (t.recordOf?_eq_some.mp hrow) ih

/-- A row that makes a record is not bare. -/
theorem Makes.not_isBare {t : SourceTask} {row : ChangeRow} {record : SourceRecord}
    (h : t.Makes row record) : ¬row.isBare = true := by
  cases h with
  | tombstone deleted =>
    rw [ChangeRow.isBare, deleted]
    exact Bool.false_ne_true
  | converted live doc =>
    rw [ChangeRow.isBare, live, doc]
    exact Bool.false_ne_true

/-- A row that fails is not bare: it shows a document. -/
theorem Fails.not_isBare {t : SourceTask} {row : ChangeRow} (h : t.Fails row) :
    ¬row.isBare = true := by
  obtain ⟨live, body, e, doc, -⟩ := h
  rw [ChangeRow.isBare, live, doc]
  exact Bool.false_ne_true

/-- Records, skipped rows and bare rows make up all rows. -/
theorem Accounts.length_eq {t : SourceTask} {rows : List ChangeRow} {records : List SourceRecord}
    {skipped : Nat} (h : t.Accounts rows records skipped) :
    records.length + skipped + rows.countP ChangeRow.isBare = rows.length := by
  induction h with
  | nil => rfl
  | record makes _ ih =>
    rw [List.countP_cons_of_neg makes.not_isBare, List.length_cons, List.length_cons, ← ih]
    omega
  | skip fails _ ih =>
    rw [List.countP_cons_of_neg fails.not_isBare, List.length_cons, ← ih]
    omega
  | bare bare _ ih =>
    rw [List.countP_cons_of_pos bare, List.length_cons, ← ih]
    omega

/-- A page of rows that all show a document has as many rows as it makes records and skips. -/
theorem length_recordsOf {rows : List ChangeRow} (h : ∀ row ∈ rows, row.doc ≠ none) :
    (t.recordsOf rows).length + rows.countP t.skips = rows.length := by
  have hbare : rows.countP ChangeRow.isBare = 0 := by
    refine List.countP_eq_zero.mpr fun row hrow hbare => h row hrow ?_
    exact Option.isNone_iff_eq_none.mp ((Bool.and_eq_true _ _).mp hbare).2
  rw [← (t.accounts rows).length_eq, hbare, Nat.add_zero]

/-! ### Topics and keys -/

theorem topic_of_mem_recordsOf {rows : List ChangeRow} {record : SourceRecord}
    (h : record ∈ t.recordsOf rows) : record.topic = t.settings.topic := by
  obtain ⟨row, -, hmakes⟩ := t.mem_recordsOf.mp h
  cases hmakes <;> rfl

/-- The key of a record is the id of its row. -/
theorem key_of_makes {row : ChangeRow} {record : SourceRecord} (h : t.Makes row record) :
    record.key = row.id := by
  cases h <;> rfl

/-- The keys of records are the ids of their rows. -/
theorem keys_sublist (rows : List ChangeRow) :
    ((t.recordsOf rows).map SourceRecord.key).Sublist (rows.map ChangeRow.id) := by
  induction rows with
  | nil => exact .slnil
  | cons row rest ih =>
    rw [recordsOf, List.filterMap_cons]
    cases hrow : (t.recordOf? row).toOption.join with
    | none => exact ih.cons _
    | some record =>
      -- the record was made of this row, so its key is the row's id
      obtain ⟨row', hrow', hmakes⟩ : ∃ row' ∈ [row], t.Makes row' record := by
        refine t.mem_recordsOf.mp ?_
        rw [recordsOf, List.filterMap_cons, hrow]
        exact List.mem_cons_self
      rw [List.mem_singleton.mp hrow'] at hmakes
      dsimp only
      rw [List.map_cons, List.map_cons, t.key_of_makes hmakes]
      exact ih.cons_cons _

/-! ### Polls -/

/-- **A poll accounts for every row.** A failure of the feed is passed on and leaves the task where
it was. A page is always reported, whatever its documents contain: each row makes a record, fails or
is bare, and the task and the report stand at the end of the page. -/
theorem poll_accounts :
    ∃ report : ChangeBatch → PollReport,
      (∀ {m : Type → Type} [Monad m] (feed : ChangeRequest → m (Outcome ChangeBatch)),
        t.poll feed = do
          match ← feed t.request with
          | .error e => return (.error e, t)
          | .ok batch => return (.ok (report batch), { t with resume := some batch.lastSeq })) ∧
      ∀ batch,
        t.Accounts batch.rows (report batch).records (report batch).skipped ∧
        (report batch).records.length + (report batch).skipped +
          batch.rows.countP ChangeRow.isBare = batch.rows.length ∧
        (report batch).resumeToken = some batch.lastSeq := by
  refine ⟨fun batch => ⟨t.recordsOf batch.rows, batch.rows.countP t.skips, some batch.lastSeq⟩,
    fun feed => ?_, fun batch => ⟨t.accounts batch.rows, (t.accounts batch.rows).length_eq, rfl⟩⟩
  -- a poll asks the feed once and goes on with the answer
  rw [poll]
  congr 1
  funext answer
  cases answer with
  | error e => rfl
  | ok batch => rw [absorb, report_eq]

end SourceTask
end DocStream
