import OpenRupiv.Audit.TamperEvidence

/-!
# Rows that appends leave behind

An append that succeeds adds one row at the end: numbered next, and linked to the tail.
-/

namespace OpenRupiv.Audit

open Js Lib

variable {db : Columns} {sha256 : String → String}

/-- What a row holds of the record it was inserted for. -/
structure RowOf (db : Columns) (record : AuditRecord) (now : Rfc3339) (row : AuditRow) : Prop where
  seq : row.seq = record.seq
  timestamp : ∃ ms, db.timestamptz now = some ms ∧ row.timestamp = .date ms
  event : textColumn record.event = some row.event
  actor : textColumn record.actor = some row.actor
  actor_type : row.actor_type = record.actorType
  subject : nullableTextColumn record.subject = some row.subject
  decision : row.decision = record.decision
  attributes : db.jsonb record.attributes = some row.attributes
  prev_hash : row.prev_hash = record.prevHash
  hash : row.hash = record.hash

theorem rowOf_columnsOf {record : AuditRecord} {now : Rfc3339} {row : AuditRow}
    (h : columnsOf db record now = some row) : RowOf db record now row := by
  simp only [columnsOf, Option.bind_eq_bind, Option.bind_eq_some_iff, Option.pure_def,
    Option.some.injEq] at h
  obtain ⟨ms, hms, event, hevent, actor, hactor, subject, hsubject, attributes, hattr, rfl⟩ := h
  exact ⟨rfl, ⟨ms, hms, rfl⟩, hevent, hactor, rfl, hsubject, rfl, hattr, rfl, rfl⟩

/-- The record that `appendInTransaction` makes of an input. -/
def recordFor (sha256 : String → String) (rows : List AuditRow) (input : AuditRecordInput)
    (now : Rfc3339) : AuditRecord :=
  appendRecord sha256 ((selectTail rows).map rowToRecord)
    { input with attributes := some (scrubAttributes input.attributes).1 } now.text

theorem appendInTransaction_eq_some {rows rows' : List AuditRow} {input : AuditRecordInput}
    {now : Rfc3339} (h : appendInTransaction db sha256 rows input now = some rows') :
    ∃ row, rows' = rows ++ [row] ∧ RowOf db (recordFor sha256 rows input now) now row ∧
      row.seq ∉ rows.map (·.seq) := by
  simp only [appendInTransaction, Option.bind_eq_bind, Option.bind_eq_some_iff] at h
  obtain ⟨row, hrow, hinsert⟩ := h
  unfold insertRow at hinsert
  split at hinsert
  · exact absurd hinsert (by simp)
  · rename_i hfresh
    exact ⟨row, (Option.some.inj hinsert).symm, rowOf_columnsOf hrow, fun hseq => hfresh (.inl hseq)⟩

/-- Rows numbered from 1, each linked to the one before it. -/
structure Sequence (rows : List AuditRow) : Prop where
  small : rows.length ≤ 2 ^ 53
  seqs : rows.map (·.seq) = oneTo rows.length
  chained : auditChain.Chained none (rows.map rowToRecord)

namespace Sequence

theorem empty : Sequence [] := ⟨by decide, rfl, trivial⟩

variable {rows : List AuditRow}

theorem pairwise_seq (h : Sequence rows) : rows.Pairwise fun r s => r.seq < s.seq := by
  apply List.pairwise_map.mp
  rw [h.seqs]
  exact pairwise_oneTo _

theorem orderBySeq_eq (h : Sequence rows) : orderBySeq rows = rows := by
  apply List.Pairwise.insertionSort_eq
  exact h.pairwise_seq.imp fun hlt => hlt.le

theorem selectTail_eq (h : Sequence rows) : selectTail rows = rows.getLast? := by
  rw [selectTail, h.orderBySeq_eq]

theorem nextSeq_eq (h : Sequence rows) :
    nextSeq ((selectTail rows).map rowToRecord) = number (rows.length + 1) := by
  have hsmall := h.small
  have hseqs := h.seqs
  rw [h.selectTail_eq]
  cases rows using List.reverseRecOn with
  | nil => exact (number_of_le (by decide)).symm
  | append_singleton rows row =>
    rw [List.length_append, List.length_singleton] at hsmall
    rw [List.length_append, List.length_singleton, oneTo_succ, List.map_append] at hseqs
    have hseq : row.seq = rows.length + 1 := by
      simpa using (List.append_inj' hseqs rfl).2
    rw [List.getLast?_concat, Option.map_some, nextSeq]
    have hread : number (rows.length + 1 : Int) = rows.length + 1 := number_of_le (by omega)
    show number (number row.seq + 1) = _
    rw [hseq, hread, List.length_append, List.length_singleton]
    push_cast
    rfl

variable {input : AuditRecordInput} {now : Rfc3339} {row : AuditRow}

theorem length_lt (h : Sequence rows) (hrow : RowOf db (recordFor sha256 rows input now) now row)
    (hfresh : row.seq ∉ rows.map (·.seq)) : rows.length < 2 ^ 53 := by
  by_contra hbig
  have hlen : rows.length = 2 ^ 53 := by
    have := h.small
    omega
  have hseq : row.seq = number (rows.length + 1) := by
    rw [← h.nextSeq_eq]
    exact hrow.seq
  apply hfresh
  rw [h.seqs, hseq, hlen, mem_oneTo]
  decide

theorem seq_recordFor (h : Sequence rows) (hsmall : rows.length < 2 ^ 53) :
    (recordFor sha256 rows input now).seq = rows.length + 1 := by
  show nextSeq ((selectTail rows).map rowToRecord) = _
  rw [h.nextSeq_eq]
  exact number_of_le (by omega)

theorem append (h : Sequence rows) (hrow : RowOf db (recordFor sha256 rows input now) now row)
    (hfresh : row.seq ∉ rows.map (·.seq)) : Sequence (rows ++ [row]) := by
  have hsmall := h.length_lt hrow hfresh
  have hseq : row.seq = rows.length + 1 := hrow.seq.trans (h.seq_recordFor hsmall)
  have hfollows := (@appendRecord_follows sha256 ((selectTail rows).map rowToRecord)
    { input with attributes := some (scrubAttributes input.attributes).1 } now.text).1
  constructor
  · rw [List.length_append, List.length_singleton]
    omega
  · rw [List.map_append, h.seqs, List.length_append, List.length_singleton, oneTo_succ]
    simp [hseq]
  · rw [List.map_append, List.map_singleton, HashChain.chained_concat, List.getLast?_map,
      ← h.selectTail_eq]
    refine ⟨h.chained, ?_, ?_⟩
    · rw [← hfollows.1]
      show number row.seq = (recordFor sha256 rows input now).seq
      rw [hrow.seq, h.seq_recordFor hsmall]
      exact number_of_le (by omega)
    · rw [← hfollows.2]
      exact hrow.prev_hash

end Sequence

end OpenRupiv.Audit
