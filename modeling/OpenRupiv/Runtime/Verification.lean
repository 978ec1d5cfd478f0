import OpenRupiv.Runtime.Export

/-!
# Verification of the stored log

`verify` of `packages/audit/src/store.ts`, `verify` and `readAllRecords` of
`packages/runtime/src/audit.ts`: three copies of one loop, over whatever stands in `audit_log`.
-/

namespace OpenRupiv.Audit

/-- A `Date` has no time value beyond 8.64e15 milliseconds. -/
def DriverTime.valid : DriverTime → Bool
  | .date ms => ms.natAbs ≤ 8640000000000000
  | .text _ => true

end OpenRupiv.Audit

namespace OpenRupiv.Runtime

open Js Audit

/-- Any content of `audit_log`, in the order of the primary key, with the `UNIQUE` hash. -/
structure AuditContent where
  rows : List AuditRow
  increasing : rows.Pairwise fun r s => r.seq < s.seq
  bigint : ∀ r ∈ rows, -2 ^ 63 ≤ r.seq ∧ r.seq < 2 ^ 63
  hashes : (rows.map (·.hash)).Nodup

/-- `rowToRecord`, which throws on an invalid `Date`. -/
def recordOf (r : AuditRow) : Option AuditRecord :=
  if r.timestamp.valid then some (Audit.rowToRecord r) else none

section Loop

variable {ρ : Type}

/-- The loop: `select` reads a page, `convert` makes records of it. -/
def readFrom (select : Int → Nat → Option (List ρ)) (convert : List ρ → Option (List AuditRecord))
    (page : Nat) : Nat → Int → List AuditRecord → Option (List AuditRecord)
  | 0, _, _ => none
  | fuel + 1, fromSeq, all => do
      let batch ← select fromSeq page
      if batch.length = 0 then return all
      let records ← convert batch
      let all := all ++ records
      if batch.length < page then return all
      match all.getLast? with
      | none => return all
      | some last => readFrom select convert page fuel (number (last.seq + 1)) all

end Loop

def VERIFY_PAGE : Nat := 5000

section Stores

variable (rows : List AuditRow)

/-- `readPage` of the runtime, and `read` of both stores. -/
def readPage (fromSeq : Int) (limit : Nat) : Option (List AuditRecord) :=
  (selectFrom rows fromSeq limit).bind fun page => page.mapM recordOf

/-- What `verify` of the audit package collects. -/
def storeRecords (fuel : Nat) : Option (List AuditRecord) :=
  readFrom (selectFrom rows) (fun page => page.mapM recordOf) VERIFY_PAGE fuel 1 []

/-- What `verify` of the runtime collects, and what `readAllRecords` returns. -/
def readAllRecords (fuel : Nat) : Option (List AuditRecord) :=
  readFrom (readPage rows) some VERIFY_PAGE fuel 1 []

/-- `createAuditStore(pool).verify`. -/
def storeVerify (sha256 : String → String) (fuel : Nat) : Option VerifyResult :=
  (storeRecords rows fuel).map (verifyChain sha256)

/-- `createDbAuditStore(db).verify`. -/
def dbVerify (sha256 : String → String) (fuel : Nat) : Option VerifyResult :=
  (readAllRecords rows fuel).map (verifyChain sha256)

end Stores

section Same

variable {rows : List AuditRow} {page fuel : Nat} {fromSeq : Int} {all : List AuditRecord}

theorem mapM_recordOf_eq_some {batch : List AuditRow} {records : List AuditRecord} :
    batch.mapM recordOf = some records ↔
      (∀ r ∈ batch, r.timestamp.valid = true) ∧ records = batch.map Audit.rowToRecord := by
  induction batch generalizing records with
  | nil =>
    rw [List.mapM_nil, Option.pure_def, Option.some.injEq, eq_comm]
    simp
  | cons r batch ih =>
    simp only [List.mapM_cons, Option.bind_eq_bind, Option.bind_eq_some_iff, Option.pure_def,
      Option.some.injEq, ih, List.mem_cons, forall_eq_or_imp, List.map_cons, recordOf,
      Option.ite_none_right_eq_some]
    constructor
    · rintro ⟨record, ⟨hvalid, rfl⟩, rest, ⟨hrest, rfl⟩, rfl⟩
      exact ⟨⟨hvalid, hrest⟩, rfl⟩
    · rintro ⟨⟨hvalid, hrest⟩, rfl⟩
      exact ⟨_, ⟨hvalid, rfl⟩, _, ⟨hrest, rfl⟩, rfl⟩

theorem length_of_mapM {batch : List AuditRow} {records : List AuditRecord}
    (h : batch.mapM recordOf = some records) : records.length = batch.length := by
  rw [(mapM_recordOf_eq_some.mp h).2, List.length_map]

/-- Converting a page when it is read or when it is collected makes no difference. -/
theorem readFrom_readPage :
    readFrom (readPage rows) some page fuel fromSeq all =
      readFrom (selectFrom rows) (fun page => page.mapM recordOf) page fuel fromSeq all := by
  induction fuel generalizing fromSeq all with
  | zero => rfl
  | succ fuel ih =>
    simp only [readFrom, readPage, Option.bind_eq_bind, Option.bind_assoc]
    cases selectFrom rows fromSeq page with
    | none => rfl
    | some batch =>
      rw [Option.bind_some, Option.bind_some]
      cases hrecords : batch.mapM recordOf with
      | none =>
        cases batch with
        | nil => exact absurd hrecords (by simp)
        | cons r batch => simp
      | some records =>
        have hlength := length_of_mapM hrecords
        rw [Option.bind_some, hlength]
        simp only [Option.bind_some, ih]

theorem readAllRecords_eq (rows : List AuditRow) (fuel : Nat) :
    readAllRecords rows fuel = storeRecords rows fuel :=
  readFrom_readPage

theorem mem_selectFrom {batch : List AuditRow} {limit : Nat}
    (h : selectFrom rows fromSeq limit = some batch) {r : AuditRow} (hr : r ∈ batch) :
    r ∈ rows ∧ printed fromSeq ≤ r.seq := by
  unfold selectFrom at h
  split at h
  · rw [← Option.some.inj h] at hr
    have hsorted := List.mem_of_mem_take hr
    rw [orderBySeq, List.mem_insertionSort, List.mem_filter] at hsorted
    exact ⟨hsorted.1, by simpa using hsorted.2⟩
  · cases h

end Same

section Collected

variable {rows : List AuditRow} {page fuel : Nat} {fromSeq : Int} {all result : List AuditRecord}

theorem one_le_printed {n : Int} (h : 1 ≤ n) : 1 ≤ printed n := by
  unfold printed
  split
  · exact h
  · have hsign : n.sign = 1 := Int.sign_eq_one_of_pos (by omega)
    rw [hsign, one_mul]
    cases hfound : ((List.range 21).reverse.flatMap (roundings n.natAbs)).find?
        fun m : Nat => number m = n.natAbs with
    | none =>
      rw [Option.getD_none]
      omega
    | some m =>
      have hm : number m = n.natAbs := by simpa using List.find?_some hfound
      have hpos : m ≠ 0 := by
        rintro rfl
        have hzero : number (0 : Nat) = 0 := number_of_le (by simp)
        omega
      rw [Option.getD_some]
      omega

theorem one_le_number {n : Int} (h : 1 ≤ n) : 1 ≤ number n := by
  rcases Int.lt_or_le n 2 with hlt | hle
  · rw [number_of_le (by omega)]
    exact h
  · have := two_le_number hle
    omega

theorem collected_of_readFrom (hfrom : 1 ≤ printed fromSeq)
    (h : readFrom (selectFrom rows) (fun page => page.mapM recordOf) page fuel fromSeq all =
      some result) :
    ∃ selected : List AuditRow, result = all ++ selected.map Audit.rowToRecord ∧
      ∀ r ∈ selected, r ∈ rows ∧ r.timestamp.valid = true ∧ 1 ≤ r.seq := by
  induction fuel generalizing fromSeq all with
  | zero => exact absurd h (by simp [readFrom])
  | succ fuel ih =>
    simp only [readFrom, Option.bind_eq_bind, Option.bind_eq_some_iff] at h
    obtain ⟨batch, hbatch, h⟩ := h
    split at h
    · exact ⟨[], by simpa using h.symm, by simp⟩
    simp only [Option.bind_eq_some_iff] at h
    obtain ⟨records, hrecords, h⟩ := h
    obtain ⟨hvalid, rfl⟩ := mapM_recordOf_eq_some.mp hrecords
    have hselected : ∀ r ∈ batch, r ∈ rows ∧ r.timestamp.valid = true ∧ 1 ≤ r.seq := by
      intro r hr
      obtain ⟨hmem, hle⟩ := mem_selectFrom hbatch hr
      exact ⟨hmem, hvalid r hr, by omega⟩
    split at h
    · exact ⟨batch, (Option.some.inj h).symm, hselected⟩
    split at h
    · exact ⟨batch, (Option.some.inj h).symm, hselected⟩
    · rename_i hne _ _ last hlast
      -- the last record of the page
      obtain ⟨r, hr, rfl⟩ : ∃ r ∈ batch, Audit.rowToRecord r = last := by
        have hbatchne : batch.map Audit.rowToRecord ≠ [] := by
          rintro heq
          exact hne (by simpa using heq)
        rw [List.getLast?_append_of_ne_nil _ hbatchne] at hlast
        exact List.mem_map.mp (List.mem_of_getLast? hlast)
      have hseq := one_le_number (hselected r hr).2.2
      have hnext := two_le_number (n := number r.seq + 1) (by omega)
      obtain ⟨rest, rfl, hrest⟩ := ih (one_le_printed (le_trans one_le_two hnext)) h
      refine ⟨batch ++ rest, by simp, ?_⟩
      intro s hs
      rcases List.mem_append.mp hs with hs | hs
      · exact hselected s hs
      · exact hrest s hs

theorem readFrom_eq_pagesFrom (hvalid : ∀ r ∈ rows, r.timestamp.valid = true) :
    readFrom (selectFrom rows) (fun page => page.mapM recordOf) page fuel fromSeq all =
      (pagesFrom rows page fuel fromSeq).map fun pages => all ++ pages.flatten := by
  induction fuel generalizing fromSeq all with
  | zero => rfl
  | succ fuel ih =>
    rw [readFrom, pagesFrom, read]
    cases hbatch : selectFrom rows fromSeq page with
    | none => rfl
    | some batch =>
      have hrecords : batch.mapM recordOf = some (batch.map Audit.rowToRecord) :=
        mapM_recordOf_eq_some.mpr ⟨fun r hr => hvalid r (mem_selectFrom hbatch hr).1, rfl⟩
      simp only [Option.bind_eq_bind, Option.bind_some, Option.map_some, hrecords]
      rcases List.eq_nil_or_concat' batch with rfl | ⟨front, r, rfl⟩
      · simp
      · simp only [List.map_append, List.map_cons, List.map_nil, List.length_append,
          List.length_cons, List.length_nil, List.length_map]
        rw [if_neg (by omega)]
        simp only [← List.append_assoc, List.getLast?_concat]
        split
        · simp
        · simp only [ih, Option.pure_def]
          cases pagesFrom rows page fuel (number ((Audit.rowToRecord r).seq + 1)) with
          | none => rfl
          | some pages => simp

end Collected

/-- Both verifications end, having read every row once and in order, with what the chain of all
rows gives. -/
def SeesAll (sha256 : String → String) (table : AuditContent) : Prop :=
  ∃ fuel records, table.rows.mapM recordOf = some records ∧
    storeRecords table.rows fuel = some records ∧ readAllRecords table.rows fuel = some records ∧
    storeVerify table.rows sha256 fuel = some (verifyChain sha256 records) ∧
    dbVerify table.rows sha256 fuel = some (verifyChain sha256 records)

namespace AuditContent

variable (table : AuditContent)

theorem rows_eq_of_records {selected : List AuditRow} (hmem : ∀ r ∈ selected, r ∈ table.rows)
    (h : selected.map Audit.rowToRecord = table.rows.map Audit.rowToRecord) :
    selected = table.rows := by
  have hlength : selected.length = table.rows.length := by simpa using congrArg List.length h
  apply List.ext_getElem hlength
  intro i hi hi'
  apply List.inj_on_of_nodup_map table.hashes (hmem _ (List.getElem_mem hi)) (List.getElem_mem hi')
  have hrecord := congrArg (fun records => (records[i]?).map AuditRecord.hash) h
  simpa [hi, hi', Audit.rowToRecord] using hrecord

/-- The content that the export is about. -/
def toAuditTable (hpositive : ∀ r ∈ table.rows, 1 ≤ r.seq) : AuditTable where
  rows := table.rows
  increasing := table.increasing
  positive := hpositive
  hashes := table.hashes

theorem collects_iff :
    (∃ fuel records, table.rows.mapM recordOf = some records ∧
      storeRecords table.rows fuel = some records) ↔
      (∀ r ∈ table.rows, 1 ≤ r.seq) ∧ (∀ r ∈ table.rows, r.timestamp.valid = true) ∧
        Resumes VERIFY_PAGE table.rows := by
  constructor
  · rintro ⟨fuel, records, hrecords, hcollected⟩
    obtain ⟨hvalid, rfl⟩ := mapM_recordOf_eq_some.mp hrecords
    obtain ⟨selected, hselected, hrows⟩ := collected_of_readFrom (by decide) hcollected
    have hsame := table.rows_eq_of_records (fun r hr => (hrows r hr).1) hselected.symm
    have hpositive : ∀ r ∈ table.rows, 1 ≤ r.seq := by
      intro r hr
      rw [← hsame] at hr
      exact (hrows r hr).2.2
    refine ⟨hpositive, hvalid, ?_⟩
    apply ((table.toAuditTable hpositive).pagedRecords_iff (by decide)).mp
    rw [storeRecords, readFrom_eq_pagesFrom hvalid] at hcollected
    obtain ⟨pages, hpages, hflat⟩ := Option.map_eq_some_iff.mp hcollected
    exact ⟨fuel, pages, hpages, hflat⟩
  · rintro ⟨hpositive, hvalid, hresumes⟩
    obtain ⟨fuel, pages, hpages, hflat⟩ :=
      ((table.toAuditTable hpositive).pagedRecords_iff (by decide)).mpr hresumes
    refine ⟨fuel, _, mapM_recordOf_eq_some.mpr ⟨hvalid, rfl⟩, ?_⟩
    rw [storeRecords, readFrom_eq_pagesFrom hvalid, Option.map_eq_some_iff]
    exact ⟨pages, hpages, hflat⟩

theorem seesAll_iff_collects (sha256 : String → String) : SeesAll sha256 table ↔
    ∃ fuel records, table.rows.mapM recordOf = some records ∧
      storeRecords table.rows fuel = some records := by
  constructor
  · rintro ⟨fuel, records, hrecords, hstore, -⟩
    exact ⟨fuel, records, hrecords, hstore⟩
  · rintro ⟨fuel, records, hrecords, hstore⟩
    have hdb : readAllRecords table.rows fuel = some records := by rw [readAllRecords_eq, hstore]
    refine ⟨fuel, records, hrecords, hstore, hdb, ?_, ?_⟩
    · rw [storeVerify, hstore, Option.map_some]
    · rw [dbVerify, hdb, Option.map_some]

end AuditContent

/-- Verification sees the whole table exactly when every number is positive, every date valid, and
the number computed after each full page lies behind its last row, within `bigint`, and not beyond
the next row. -/
theorem verification_sees_all (sha256 : String → String) (table : AuditContent) :
    (SeesAll sha256 table ↔ (∀ r ∈ table.rows, 1 ≤ r.seq) ∧
      (∀ r ∈ table.rows, r.timestamp.valid = true) ∧ Resumes VERIFY_PAGE table.rows) ∧
    ((∀ r ∈ table.rows, 1 ≤ r.seq ∧ r.seq < 2 ^ 53 ∧ r.timestamp.valid = true) →
      SeesAll sha256 table) := by
  have hiff := (table.seesAll_iff_collects sha256).trans table.collects_iff
  refine ⟨hiff, fun hsmall => hiff.mpr ?_⟩
  have hpositive : ∀ r ∈ table.rows, 1 ≤ r.seq := fun r hr => (hsmall r hr).1
  refine ⟨hpositive, fun r hr => (hsmall r hr).2.2, ?_⟩
  exact (table.toAuditTable hpositive).resumes_of_small VERIFY_PAGE fun r hr => (hsmall r hr).2.1

/-- A row that someone put in front of the chain. -/
def rowZero : AuditContent where
  rows := [loginRow 0 "a"]
  increasing := by simp
  bigint := by simp [loginRow]
  hashes := by simp

/-- Both verifications take the table for an empty log, and the chain of its row has a gap. -/
theorem verification_misses_row_zero :
    storeVerify rowZero.rows id 1 = some (.ok 0) ∧ dbVerify rowZero.rows id 1 = some (.ok 0) ∧
      (rowZero.rows.mapM recordOf).map (verifyChain id) = some (.failed 0 .seq_gap) ∧
      ¬SeesAll id rowZero := by
  refine ⟨by decide, by decide, by decide, ?_⟩
  rw [rowZero.seesAll_iff_collects, rowZero.collects_iff]
  intro h
  exact absurd (h.1 (loginRow 0 "a") List.mem_cons_self) (by decide)

end OpenRupiv.Runtime
