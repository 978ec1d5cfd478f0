import OpenRupiv.Audit.Export

/-!
# Streaming export

`pagedRecords` and `exportStream` of `packages/runtime/src/admin.ts` over `read` of
`packages/audit/src/store.ts`.  A generator that does not end within its fuel, or whose read fails,
yields nothing.
-/

namespace OpenRupiv.Runtime

open Js Audit

/-- The rows of `audit_log` in the order of the primary key, with the `UNIQUE` hash. -/
structure AuditTable where
  rows : List AuditRow
  increasing : rows.Pairwise fun r s => r.seq < s.seq
  positive : ∀ r ∈ rows, 1 ≤ r.seq
  hashes : (rows.map (·.hash)).Nodup

/-- Records per page while paginating the chain for export. -/
def EXPORT_PAGE_SIZE : Nat := 1000

/-- The whole log. -/
def AuditTable.records (table : AuditTable) : List AuditRecord := table.rows.map Audit.rowToRecord

/-- `SELECT … WHERE seq >= $1 ORDER BY seq ASC LIMIT $2`: the driver sends the printed number, and
the server refuses one that is no `bigint`. -/
def selectFrom (rows : List AuditRow) (fromSeq : Int) (limit : Nat) : Option (List AuditRow) :=
  if printed fromSeq < 2 ^ 63 then
    some ((orderBySeq (rows.filter fun r => printed fromSeq ≤ r.seq)).take limit)
  else none

/-- `AuditStore.read`. -/
def read (rows : List AuditRow) (fromSeq : Int) (limit : Nat) : Option (List AuditRecord) :=
  (selectFrom rows fromSeq limit).map fun page => page.map Audit.rowToRecord

/-- The rounds of `pagedRecords`. -/
def pagesFrom (rows : List AuditRow) (pageSize : Nat) :
    Nat → Int → Option (List (List AuditRecord))
  | 0, _ => none
  | fuel + 1, fromSeq => do
      let page ← read rows fromSeq pageSize
      match page.getLast? with
      | none => return []
      | some last =>
          if page.length < pageSize then return [page]
          else
            let rest ← pagesFrom rows pageSize fuel (number (last.seq + 1))
            return page :: rest

def pagedRecords (fuel : Nat) (rows : List AuditRow) (pageSize : Nat) :
    Option (List (List AuditRecord)) :=
  pagesFrom rows pageSize fuel 1

inductive ExportFormat where
  | jsonl
  | otlp
  | syslog
  deriving DecidableEq

def yieldPage (sep : Text) : Bool → List Text → List Text × Bool
  | first, [] => ([], first)
  | first, line :: lines =>
      let (chunks, first') := yieldPage sep false lines
      (((if first then [] else sep) ++ line) :: chunks, first')

/-- The outer loop. -/
def yieldPages (sep : Text) (render : List AuditRecord → List Text) :
    Bool → List (List AuditRecord) → List Text
  | _, [] => []
  | first, page :: pages =>
      let (chunks, first') := yieldPage sep first (render page)
      chunks ++ yieldPages sep render first' pages

variable (dateParse : Text → Option Int)

/-- The chunks of `exportStream`. -/
def exportStream (fuel : Nat) (rows : List AuditRow) (pageSize : Nat) (format : ExportFormat) :
    Option (List Text) := do
  match format with
  | .otlp =>
      let (opening, closing) ← otlpEnvelope
      let pages ← pagedRecords fuel rows pageSize
      return opening :: yieldPages (ofString ",")
        (fun page => page.map fun r => stringifyText (otlpLogRecord dateParse r)) true pages ++ [closing]
  | .jsonl =>
      let pages ← pagedRecords fuel rows pageSize
      return yieldPages (ofString "\n") (fun page => page.map fun r => stringifyText r.json) true pages
  | .syslog =>
      let pages ← pagedRecords fuel rows pageSize
      return yieldPages (ofString "\n") toSyslog true pages

/-- The export without streaming. -/
def plainExport (records : List AuditRecord) : ExportFormat → Text
  | .otlp => stringifyText (toOtlpLogRecords dateParse records)
  | .jsonl => toJsonl records
  | .syslog => joinTexts (ofString "\n") (toSyslog records)

theorem yieldPage_chunks (sep : Text) (first : Bool) (lines : List Text) :
    (yieldPage sep first lines).1.flatten =
      if first then joinTexts sep lines else lines.flatMap fun line => sep ++ line := by
  induction lines generalizing first with
  | nil => cases first <;> rfl
  | cons line lines ih =>
    simp only [yieldPage, List.flatten_cons, ih false]
    cases first with
    | false => simp
    | true => simp [joinTexts_cons]

theorem yieldPage_flag (sep : Text) (first : Bool) (lines : List Text) :
    (yieldPage sep first lines).2 = (first && lines.isEmpty) := by
  induction lines generalizing first with
  | nil => simp [yieldPage]
  | cons line lines ih => simp [yieldPage, ih false]

theorem yieldPages_chunks (sep : Text) (line : AuditRecord → Text) (first : Bool)
    (pages : List (List AuditRecord)) :
    (yieldPages sep (fun page => page.map line) first pages).flatten =
      if first then joinTexts sep (pages.flatten.map line)
      else (pages.flatten.map line).flatMap fun line => sep ++ line := by
  induction pages generalizing first with
  | nil => cases first <;> rfl
  | cons page pages ih =>
    simp only [yieldPages, List.flatten_append, yieldPage_chunks, yieldPage_flag, ih]
    cases first with
    | false => simp
    | true =>
      cases page with
      | nil => simp [joinTexts]
      | cons r page => simp [joinTexts_cons]

theorem exportStream_of_pages {fuel : Nat} {rows : List AuditRow} {pageSize : Nat}
    {pages : List (List AuditRecord)} (hpages : pagedRecords fuel rows pageSize = some pages)
    (format : ExportFormat) : (exportStream dateParse fuel rows pageSize format).map List.flatten =
      some (plainExport dateParse pages.flatten format) := by
  cases format with
  | otlp =>
    obtain ⟨opening, closing, henvelope, htext⟩ := otlp_spliced dateParse pages.flatten
    simp [exportStream, plainExport, hpages, henvelope, htext, yieldPages_chunks]
  | jsonl => simp [exportStream, plainExport, hpages, toJsonl, yieldPages_chunks]
  | syslog =>
    have hrender : toSyslog = fun page => page.map syslogLine := rfl
    simp [exportStream, plainExport, hpages, hrender, yieldPages_chunks]

/-- Where the read after a page with this last row starts. -/
def resumeAt (r : AuditRow) : Int := printed (number (number r.seq + 1))

/-- The next read starts behind `r` and before what follows it. -/
structure ResumesBehind (r : AuditRow) (later : List AuditRow) : Prop where
  behind : r.seq < resumeAt r
  bigint : resumeAt r < 2 ^ 63
  before : ∀ s ∈ later, resumeAt r ≤ s.seq

/-- So does every read after a full page. -/
def Resumes (pageSize : Nat) (rows : List AuditRow) : Prop :=
  ∀ i r, rows[i]? = some r → pageSize ∣ i + 1 → ResumesBehind r (rows.drop (i + 1))

theorem resumeAt_of_lt {r : AuditRow} (h : 1 ≤ r.seq) (hsmall : r.seq < 2 ^ 53) :
    resumeAt r = r.seq + 1 := by
  have hseq : number r.seq = r.seq := number_of_le (by omega)
  have hnext : number (r.seq + 1) = r.seq + 1 := number_of_le (by omega)
  rw [resumeAt, hseq, hnext, printed_of_le (by omega)]

theorem AuditTable.resumes_of_small (table : AuditTable) (pageSize : Nat)
    (hsmall : ∀ r ∈ table.rows, r.seq < 2 ^ 53) : Resumes pageSize table.rows := by
  intro i r hr _
  have hmem : r ∈ table.rows := List.mem_of_getElem? hr
  have hat := resumeAt_of_lt (table.positive r hmem) (hsmall r hmem)
  have hlt := hsmall r hmem
  refine ⟨by omega, by omega, ?_⟩
  intro s hs
  have hsplit : table.rows = table.rows.take i ++ r :: table.rows.drop (i + 1) := by
    rw [← List.getElem?_eq_some_iff.mp hr |>.2, List.cons_getElem_drop_succ, List.take_append_drop]
  have hinc := table.increasing
  rw [hsplit] at hinc
  have := List.rel_of_pairwise_cons (List.pairwise_append.mp hinc).2.1 hs
  omega

theorem resumes_of_lt {pageSize : Nat} {rows : List AuditRow} (h : rows.length < pageSize) :
    Resumes pageSize rows := by
  intro i r hr hdvd
  have hi : i < rows.length := (List.getElem?_eq_some_iff.mp hr).1
  have := Nat.le_of_dvd (by omega) hdvd
  omega

theorem resumes_append {pageSize : Nat} {page later : List AuditRow} {last : AuditRow}
    (hlen : (page ++ [last]).length = pageSize) : Resumes pageSize ((page ++ [last]) ++ later) ↔
      ResumesBehind last later ∧ Resumes pageSize later := by
  have hlen' : page.length + 1 = pageSize := by simpa using hlen
  have hdrop : ∀ i, ((page ++ [last]) ++ later).drop (pageSize + i + 1) = later.drop (i + 1) := by
    intro i
    rw [Nat.add_assoc, ← hlen, List.drop_length_add_append]
  constructor
  · intro h
    constructor
    · have hlast := h page.length last (by simp) (by rw [hlen'])
      simpa using hlast
    · intro i r hr hdvd
      have hat : ((page ++ [last]) ++ later)[pageSize + i]? = some r := by
        rw [List.getElem?_append_right (by omega), hlen, Nat.add_sub_cancel_left]
        exact hr
      have hbehind := h (pageSize + i) r hat (by
        rw [Nat.add_assoc]
        exact Nat.dvd_add (Nat.dvd_refl pageSize) hdvd)
      rwa [hdrop] at hbehind
  · rintro ⟨hlast, hlater⟩ i r hr hdvd
    rcases Nat.lt_or_ge i pageSize with hi | hi
    · -- within the page only the last row ends a page
      have hle := Nat.le_of_dvd (by omega) hdvd
      have hi' : i = page.length := by omega
      subst hi'
      have hr' : r = last := by simpa using hr.symm
      rw [hr']
      simpa using hlast
    · obtain ⟨j, rfl⟩ : ∃ j, i = pageSize + j := ⟨i - pageSize, by omega⟩
      rw [List.getElem?_append_right (by omega), hlen, Nat.add_sub_cancel_left] at hr
      have hbehind := hlater j r hr ((Nat.dvd_add_right (Nat.dvd_refl pageSize)).mp hdvd)
      rwa [hdrop]

section

variable (table : AuditTable) {pageSize : Nat}

theorem AuditTable.orderBySeq_filter (p : AuditRow → Bool) :
    orderBySeq (table.rows.filter p) = table.rows.filter p := by
  apply List.Pairwise.insertionSort_eq
  exact (table.increasing.imp fun hlt => hlt.le).filter p

theorem AuditTable.read_eq {fromSeq : Int} {rest : List AuditRow} (hbigint : printed fromSeq < 2 ^ 63)
    (hrest : (table.rows.filter fun r => printed fromSeq ≤ r.seq) = rest) :
    read table.rows fromSeq pageSize = some ((rest.take pageSize).map Audit.rowToRecord) := by
  rw [read, selectFrom, if_pos hbigint, table.orderBySeq_filter, hrest]
  rfl

theorem pagesFrom_short {rows : List AuditRow} {fromSeq : Int} {page : List AuditRecord}
    (hread : read rows fromSeq pageSize = some page) (hshort : page.length < pageSize) :
    ∃ pages, pagesFrom rows pageSize 1 fromSeq = some pages ∧ pages.flatten = page := by
  rw [pagesFrom, hread]
  cases hlast : page.getLast? with
  | none =>
    refine ⟨[], by simp [hlast], ?_⟩
    rw [List.getLast?_eq_none_iff.mp hlast]
    rfl
  | some last => exact ⟨[page], by simp [hlast, hshort], by simp⟩

theorem pagesFrom_full {rows : List AuditRow} {fromSeq : Int} {page : List AuditRecord}
    {last : AuditRecord} (hread : read rows fromSeq pageSize = some (page ++ [last]))
    (hfull : (page ++ [last]).length = pageSize) (fuel : Nat) :
    pagesFrom rows pageSize (fuel + 1) fromSeq =
      (pagesFrom rows pageSize fuel (number (last.seq + 1))).map fun rest =>
        (page ++ [last]) :: rest := by
  rw [pagesFrom, hread]
  cases hrest : pagesFrom rows pageSize fuel (number (last.seq + 1)) with
  | none => simp [hrest, hfull]
  | some rest => simp [hrest, hfull]

/-- The first record that is yielded is the first one from `fromSeq` on. -/
theorem AuditTable.pagesFrom_head (hsize : 1 ≤ pageSize) {fuel : Nat} {fromSeq : Int}
    {pages : List (List AuditRecord)} (h : pagesFrom table.rows pageSize fuel fromSeq = some pages) :
    printed fromSeq < 2 ^ 63 ∧ pages.flatten.head? =
      (table.rows.filter fun r => printed fromSeq ≤ r.seq).head?.map Audit.rowToRecord := by
  cases fuel with
  | zero => simp [pagesFrom] at h
  | succ fuel =>
    by_cases hbigint : printed fromSeq < 2 ^ 63
    · refine ⟨hbigint, ?_⟩
      simp only [pagesFrom, table.read_eq hbigint rfl, Option.bind_eq_bind, Option.bind_some] at h
      obtain ⟨n, rfl⟩ : ∃ n, pageSize = n + 1 := ⟨pageSize - 1, by omega⟩
      cases hrest : table.rows.filter fun r => printed fromSeq ≤ r.seq with
      | nil =>
        rw [hrest] at h
        have hpages : pages = [] := by simpa using h.symm
        simp [hpages]
      | cons r rest =>
        rw [hrest, List.take_succ_cons, List.map_cons] at h
        split at h
        · rename_i hnone
          simp at hnone
        · split at h
          · have hpages := Option.some.inj h
            simp [← hpages]
          · simp only [Option.bind_eq_some_iff, Option.pure_def, Option.some.injEq] at h
            obtain ⟨_, _, rfl⟩ := h
            simp
    · have hread : read table.rows fromSeq pageSize = none := by
        rw [read, selectFrom, if_neg hbigint]
        rfl
      simp [pagesFrom, hread] at h

theorem AuditTable.record_inj {r s : AuditRow} (hr : r ∈ table.rows) (hs : s ∈ table.rows)
    (h : Audit.rowToRecord r = Audit.rowToRecord s) : r = s :=
  List.inj_on_of_nodup_map table.hashes hr hs (congrArg AuditRecord.hash h)

/-- A read that yields the rows after `last` first starts between them and `last`. -/
theorem AuditTable.resumesBehind (hsize : 1 ≤ pageSize) {before later : List AuditRow}
    {last : AuditRow} (hrows : table.rows = before ++ last :: later) {fuel : Nat}
    {pages : List (List AuditRecord)}
    (h : pagesFrom table.rows pageSize fuel (number (number last.seq + 1)) = some pages)
    (hpages : pages.flatten = later.map Audit.rowToRecord) : ResumesBehind last later := by
  have hhead := table.pagesFrom_head hsize h
  rw [hpages] at hhead
  have hinc := table.increasing
  rw [hrows] at hinc
  have hlater := List.pairwise_cons.mp (List.pairwise_append.mp hinc).2.1
  have hmem : ∀ s ∈ last :: later, s ∈ table.rows := by
    intro s hs
    rw [hrows]
    exact List.mem_append_right before hs
  set found := table.rows.filter fun r => resumeAt last ≤ r.seq with hfound
  have hfirst : found.head? = later.head? := by
    have hmap : (later.map Audit.rowToRecord).head? = found.head?.map Audit.rowToRecord := hhead.2
    cases hl : later.head? with
    | none => simpa [List.head?_map, hl, eq_comm] using hmap
    | some s =>
      cases hf : found.head? with
      | none => simp [List.head?_map, hl, hf] at hmap
      | some r =>
        have hr : r ∈ table.rows := List.mem_of_mem_filter (List.mem_of_head? hf)
        have hs : s ∈ table.rows := hmem s (List.mem_cons_of_mem last (List.mem_of_head? hl))
        have heq : Audit.rowToRecord s = Audit.rowToRecord r := by
          simpa [List.head?_map, hl, hf] using hmap
        rw [table.record_inj hs hr heq]
  refine ⟨?_, hhead.1, ?_⟩
  · -- otherwise `last` is found again, before the rows behind it
    by_contra hle
    have hagain : last ∈ found := by
      simpa [hfound, hmem last (by simp)] using hle
    cases hf : found with
    | nil => simp [hf] at hagain
    | cons r rest =>
      have hr : r ∈ later := by
        apply List.mem_of_head?
        rw [← hfirst, hf, List.head?_cons]
      have hlt := hlater.1 r hr
      have hsorted : found.Pairwise fun r s => r.seq < s.seq := table.increasing.filter _
      rw [hf] at hsorted hagain
      rcases List.mem_cons.mp hagain with rfl | hrest
      · omega
      · have := (List.pairwise_cons.mp hsorted).1 last hrest
        omega
  · intro s hs
    cases later with
    | nil => simp at hs
    | cons r rest =>
      have hr : r ∈ found := List.mem_of_head? hfirst
      have hat : resumeAt last ≤ r.seq := by simpa using (List.mem_filter.mp hr).2
      rcases List.mem_cons.mp hs with rfl | hrest
      · exact hat
      · have := (List.pairwise_cons.mp hlater.2).1 s hrest
        omega

/-- Resuming behind `last` finds what is later. -/
theorem AuditTable.filter_later {before later : List AuditRow} {last : AuditRow}
    (hrows : table.rows = before ++ last :: later) (h : ResumesBehind last later) :
    (table.rows.filter fun r => resumeAt last ≤ r.seq) = later := by
  have hinc := table.increasing
  rw [hrows, List.pairwise_append] at hinc
  have hbehind := h.behind
  have hbefore : ((before ++ [last]).filter fun r => decide (resumeAt last ≤ r.seq)) = [] := by
    apply List.filter_eq_nil_iff.mpr
    intro r hr hle
    have hat : resumeAt last ≤ r.seq := by simpa using hle
    rcases List.mem_append.mp hr with hr | hr
    · have := hinc.2.2 r hr last (by simp)
      omega
    · rw [List.mem_singleton.mp hr] at hat
      omega
  have hlater : (later.filter fun r => decide (resumeAt last ≤ r.seq)) = later := by
    apply List.filter_eq_self.mpr
    intro s hs
    simpa using h.before s hs
  rw [hrows, ← List.singleton_append, ← List.append_assoc, List.filter_append, hbefore, hlater,
    List.nil_append]

/-- What is left is paged through completely exactly when every full page is resumed behind. -/
theorem AuditTable.pages_iff (hsize : 1 ≤ pageSize) (rest : List AuditRow) :
    ∀ (done : List AuditRow) (fromSeq : Int), table.rows = done ++ rest →
      printed fromSeq < 2 ^ 63 → (table.rows.filter fun r => printed fromSeq ≤ r.seq) = rest →
      ((∃ fuel pages, pagesFrom table.rows pageSize fuel fromSeq = some pages ∧
        pages.flatten = rest.map Audit.rowToRecord) ↔ Resumes pageSize rest) := by
  induction hn : rest.length using Nat.strong_induction_on generalizing rest with
  | h n ih =>
    intro done fromSeq hrows hbigint hrest
    have hread := @AuditTable.read_eq table pageSize fromSeq rest hbigint hrest
    rcases Nat.lt_or_ge rest.length pageSize with hshort | hfull
    · -- the last page
      rw [List.take_of_length_le hshort.le] at hread
      have hpages := pagesFrom_short hread (by rwa [List.length_map])
      exact ⟨fun _ => resumes_of_lt hshort, fun _ => ⟨1, hpages⟩⟩
    · -- a full page, and what is left after it
      have hne : rest.take pageSize ≠ [] := by
        rw [Ne, List.take_eq_nil_iff]
        rintro (h | rfl)
        · omega
        · simp at hfull
          omega
      obtain ⟨page, last, hpage⟩ : ∃ page last, rest.take pageSize = page ++ [last] :=
        ⟨_, _, (List.dropLast_append_getLast hne).symm⟩
      have hlen : (page ++ [last]).length = pageSize := by
        rw [← hpage, List.length_take]
        omega
      set later := rest.drop pageSize with hlater
      have hsplit : rest = (page ++ [last]) ++ later := by
        rw [← hpage, List.take_append_drop]
      have hstep : ∀ fuel, pagesFrom table.rows pageSize (fuel + 1) fromSeq =
          (pagesFrom table.rows pageSize fuel (number (number last.seq + 1))).map fun rest =>
            (page ++ [last]).map Audit.rowToRecord :: rest := by
        intro fuel
        rw [hpage, List.map_append, List.map_singleton] at hread
        rw [pagesFrom_full hread (by simpa using hlen), List.map_append]
        rfl
      have hrows' : table.rows = (done ++ page) ++ last :: later := by
        rw [hrows, hsplit]
        simp
      have hnext : ResumesBehind last later →
          ((∃ fuel pages, pagesFrom table.rows pageSize fuel (number (number last.seq + 1)) =
            some pages ∧ pages.flatten = later.map Audit.rowToRecord) ↔ Resumes pageSize later) := by
        intro hbehind
        refine ih later.length ?_ later rfl (done ++ (page ++ [last])) _ ?_ hbehind.bigint
          (table.filter_later hrows' hbehind)
        · rw [← hn, hlater, List.length_drop]
          omega
        · rw [hrows, List.append_assoc, ← hsplit]
      rw [hsplit, resumes_append hlen, List.map_append]
      constructor
      · rintro ⟨fuel, pages, hpages, hflat⟩
        cases fuel with
        | zero => simp [pagesFrom] at hpages
        | succ fuel =>
          rw [hstep, Option.map_eq_some_iff] at hpages
          obtain ⟨rest', hrest', rfl⟩ := hpages
          rw [List.flatten_cons, List.append_cancel_left_eq] at hflat
          have hbehind := table.resumesBehind hsize hrows' hrest' hflat
          exact ⟨hbehind, (hnext hbehind).mp ⟨fuel, rest', hrest', hflat⟩⟩
      · rintro ⟨hbehind, hresumes⟩
        obtain ⟨fuel, rest', hrest', hflat⟩ := (hnext hbehind).mpr hresumes
        refine ⟨fuel + 1, _, by rw [hstep, hrest', Option.map_some], ?_⟩
        rw [List.flatten_cons, hflat]

/-- The pages hold each record once, in order, exactly when every full page is resumed behind. -/
theorem AuditTable.pagedRecords_iff (hsize : 1 ≤ pageSize) :
    (∃ fuel pages, pagedRecords fuel table.rows pageSize = some pages ∧
      pages.flatten = table.records) ↔ Resumes pageSize table.rows := by
  refine table.pages_iff hsize table.rows [] 1 rfl (by decide) ?_
  apply List.filter_eq_self.mpr
  intro r hr
  have := table.positive r hr
  simpa [printed_of_le] using this

end

/-- For each format the stream ends after chunks that make up the plain export, having paged through
the log without loss or repetition. -/
def StreamsPlainly (table : AuditTable) (pageSize : Nat) : Prop :=
  ∃ fuel pages, pagedRecords fuel table.rows pageSize = some pages ∧
    pages.flatten = table.records ∧ ∀ format,
      (exportStream dateParse fuel table.rows pageSize format).map List.flatten =
        some (plainExport dateParse table.records format)

theorem AuditTable.streamsPlainly_iff (table : AuditTable) {pageSize : Nat} (hsize : 1 ≤ pageSize) :
    StreamsPlainly dateParse table pageSize ↔ Resumes pageSize table.rows := by
  rw [← table.pagedRecords_iff hsize]
  constructor
  · rintro ⟨fuel, pages, hpages, hflat, -⟩
    exact ⟨fuel, pages, hpages, hflat⟩
  · rintro ⟨fuel, pages, hpages, hflat⟩
    refine ⟨fuel, pages, hpages, hflat, fun format => ?_⟩
    rw [← hflat]
    exact exportStream_of_pages dateParse hpages format

/-- Streaming an export equals the plain export exactly when the number computed after each full
page lies behind its last row, within `bigint`, and not beyond the next row. -/
theorem export_streams_plainly (table : AuditTable) (pageSize : Nat) (hsize : 1 ≤ pageSize) :
    (StreamsPlainly dateParse table pageSize ↔ Resumes pageSize table.rows) ∧
      ((∀ r ∈ table.rows, r.seq < 2 ^ 53) → StreamsPlainly dateParse table pageSize) := by
  refine ⟨table.streamsPlainly_iff dateParse hsize, fun hsmall => ?_⟩
  exact (table.streamsPlainly_iff dateParse hsize).mpr (table.resumes_of_small pageSize hsmall)

def loginRow (seq : Int) (hash : String) : AuditRow where
  seq := seq
  timestamp := .date 0
  event := ofString "auth.login"
  actor := ofString "u1"
  actor_type := .human
  subject := none
  decision := none
  attributes := Object.empty.toValue
  prev_hash := GENESIS_HASH
  hash := hash

def twoLogins : AuditTable where
  rows := [loginRow 1 "a", loginRow 2 "b"]
  increasing := by simp [loginRow]
  positive := by simp [loginRow]
  hashes := by simp [loginRow]

theorem export_streams_plainly_default :
    StreamsPlainly (fun _ => none) twoLogins EXPORT_PAGE_SIZE :=
  (export_streams_plainly (fun _ => none) twoLogins EXPORT_PAGE_SIZE (by decide)).2
    (by simp [twoLogins, loginRow])

/-- A log whose last row has the first number without a successor among the doubles. -/
def lastDouble : AuditTable where
  rows := [loginRow (2 ^ 53) "a"]
  increasing := by simp
  positive := by simp [loginRow]
  hashes := by simp

/-- With one row a page it is read again and again. -/
theorem export_repeats_last_double : ¬StreamsPlainly (fun _ => none) lastDouble 1 := by
  rw [lastDouble.streamsPlainly_iff _ (Nat.le_refl 1)]
  intro h
  have hbehind := (h 0 (loginRow (2 ^ 53) "a") rfl (Nat.dvd_refl 1)).behind
  exact absurd hbehind (by decide)

end OpenRupiv.Runtime
