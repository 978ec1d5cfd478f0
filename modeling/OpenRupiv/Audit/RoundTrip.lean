import OpenRupiv.Audit.Sequence

/-!
# Append, store, read back, verify

Attributes survive the `jsonb` column up to what the canonical form does not show.  Timestamps
survive when the clock writes the form of `toISOString`, texts when no surrogate stands alone.
-/

namespace OpenRupiv.Audit

open Js Lib

/-- The input and clock reading come back from the columns as they were sent. -/
def Survives (input : AuditRecordInput) (now : Rfc3339) : Prop :=
  now.IsoForm ∧ wellFormed input.event = true ∧ wellFormed input.actor = true ∧
    ∀ s ∈ input.subject, wellFormed s = true

variable {db : Columns} {sha256 : String → String}

private theorem textColumn_eq_iff {s t : Text} (h : textColumn s = some t) :
    t = s ↔ wellFormed s = true := by
  unfold textColumn at h
  split at h
  · exact absurd h (by simp)
  · rw [← Option.some.inj h]
    exact toWellFormed_eq_self_iff s

private theorem orEmptyObject_jsonb {v w : Value} (h : db.jsonb v = some w)
    {members : List (Text × Json)} (hv : v.json = .obj members) : orEmptyObject w = w := by
  have hsame := db.jsonb_same h
  rw [hv, Json.rebuild_obj] at hsame
  unfold orEmptyObject
  split
  · rename_i hnull
    rw [hnull, Json.rebuild_scalar] at hsame
    exact absurd hsame (by simp)
  · rfl

private theorem normalForm_jsonb {v w : Value} (h : db.jsonb v = some w) :
    normalForm w.json = normalForm v.json := by
  have key : ∀ (g : Scalar → Scalar) {u : Json}, u.distinctKeys = true →
      normalForm (u.rebuild g .sorted) = u.rebuild (Scalar.printed ∘ g) (Layout.sorted.comp plainKeys) := by
    intro g u hu
    rw [normalForm, Json.rebuild_rebuild]
    apply Json.rebuild_congr hu
    · intro s
      rfl
    · intro ms hms
      have hsorted := nodup_keys_perm (perm_sortKeys ms).symm hms
      exact sortKeys_eq_of_perm ((perm_sortKeys ms).filter _) (nodup_keys_filter _ hsorted)
  have hprinted : Scalar.printed ∘ Scalar.printed = Scalar.printed := by
    funext s
    exact s.printed_printed
  have hsame := congrArg normalForm (db.jsonb_same h)
  rw [key id w.distinct, key Scalar.printed v.distinct, hprinted] at hsame
  exact hsame

private theorem nullableTextColumn_eq_iff {s t : Option Text} (h : nullableTextColumn s = some t) :
    t = s ↔ ∀ u ∈ s, wellFormed u = true := by
  cases s with
  | none =>
    rw [← Option.some.inj h]
    simp
  | some u =>
    obtain ⟨u', hu, rfl⟩ := Option.map_eq_some_iff.mp h
    rw [Option.some.injEq, textColumn_eq_iff hu]
    simp

/-- The hashed text comes back from the columns exactly when the record survives them. -/
theorem canonicalize_rowToRecord_iff {record : AuditRecord} {now : Rfc3339} {row : AuditRow}
    (h : RowOf db record now row) (htime : record.timestamp = now.text)
    (hseq : number record.seq = record.seq) {members : List (Text × Json)}
    (hobj : record.attributes.json = .obj members) :
    canonicalize (rowToRecord row).toAuditRecordBody = canonicalize record.toAuditRecordBody ↔
      now.IsoForm ∧ wellFormed record.event = true ∧ wellFormed record.actor = true ∧
        ∀ s ∈ record.subject, wellFormed s = true := by
  obtain ⟨ms, hms, hdate⟩ := h.timestamp
  have hiso : toISOString ms = now.text ↔ now.IsoForm := by
    constructor
    · intro heq
      exact now.isoForm_of_text_eq heq.symm
    · intro hform
      rw [db.timestamptz_exact hform.2.2.1 hms]
      exact now.toISOString_epoch hform
  have hattr : normalForm (rowToRecord row).attributes.json = normalForm record.attributes.json := by
    show normalForm (orEmptyObject row.attributes).json = _
    rw [orEmptyObject_jsonb h.attributes hobj, normalForm_jsonb h.attributes]
  rw [canonicalize_eq_iff, and_iff_left hattr, ← hiso, ← textColumn_eq_iff h.event,
    ← textColumn_eq_iff h.actor, ← nullableTextColumn_eq_iff h.subject, ← htime]
  have htimestamp : (rowToRecord row).timestamp = toISOString ms := by
    simp only [rowToRecord, hdate]
  rw [← htimestamp]
  constructor
  · intro hbody
    exact ⟨congrArg (fun b => b.timestamp) hbody, congrArg (fun b => b.event) hbody,
      congrArg (fun b => b.actor) hbody, congrArg (fun b => b.subject) hbody⟩
  · rintro ⟨ht, hevent, hactor, hsubject⟩
    apply AuditRecordBody.ext
    · exact hevent
    · exact hactor
    · exact h.actor_type
    · exact hsubject
    · exact h.decision
    · rfl
    · exact (congrArg number h.seq).trans hseq
    · exact ht
    · exact h.prev_hash

/-- What a table holds after the appends of `done`: rows numbered from 1, chained, one for each
append, with the hash taken when it was appended. -/
structure Holds (db : Columns) (sha256 : String → String)
    (done : List (AuditRecordInput × Rfc3339)) (rows : List AuditRow) : Prop where
  small : done.length ≤ 2 ^ 53
  seqs : rows.map (·.seq) = oneTo done.length
  chained : auditChain.Chained none (rows.map rowToRecord)
  hashed : List.Forall₂ (fun x row => HashOk sha256 (rowToRecord row) ↔ Survives x.1 x.2) done rows

private theorem Holds.length_eq {done : List (AuditRecordInput × Rfc3339)} {rows : List AuditRow}
    (h : Holds db sha256 done rows) : rows.length = done.length := by
  simpa using congrArg List.length h.seqs

private theorem Holds.sequence {done : List (AuditRecordInput × Rfc3339)} {rows : List AuditRow}
    (h : Holds db sha256 done rows) : Sequence rows where
  small := h.length_eq ▸ h.small
  seqs := h.length_eq ▸ h.seqs
  chained := h.chained

theorem holds_append {done : List (AuditRecordInput × Rfc3339)} {rows rows' : List AuditRow}
    (hinj : Function.Injective sha256) (h : Holds db sha256 done rows) {input : AuditRecordInput}
    {now : Rfc3339} (happend : appendInTransaction db sha256 rows input now = some rows') :
    Holds db sha256 (done ++ [(input, now)]) rows' := by
  obtain ⟨row, rfl, hof, hfresh⟩ := appendInTransaction_eq_some happend
  have hsmall := h.sequence.length_lt hof hfresh
  have hsequence := h.sequence.append hof hfresh
  have hlength : (rows ++ [row]).length = (done ++ [(input, now)]).length := by
    simp [h.length_eq]
  refine ⟨hlength ▸ hsequence.small, hlength ▸ hsequence.seqs, hsequence.chained, ?_⟩
  apply List.rel_append h.hashed
  rw [List.forall₂_cons]
  refine ⟨?_, .nil⟩
  have hreadSeq : number (recordFor sha256 rows input now).seq =
      (recordFor sha256 rows input now).seq := by
    rw [h.sequence.seq_recordFor hsmall]
    exact number_of_le (by omega)
  have hcanon := canonicalize_rowToRecord_iff hof rfl hreadSeq rfl
  have hhash : sha256 (canonicalize (recordFor sha256 rows input now).toAuditRecordBody) = row.hash :=
    (appendRecord_follows _ _ _).2.trans hof.hash.symm
  have hok : HashOk sha256 (rowToRecord row) ↔
      canonicalize (rowToRecord row).toAuditRecordBody =
        canonicalize (recordFor sha256 rows input now).toAuditRecordBody := by
    show sha256 _ = row.hash ↔ _
    rw [← hhash]
    exact hinj.eq_iff
  rw [hok, hcanon]
  rfl

theorem holds_appendAll {done rest : List (AuditRecordInput × Rfc3339)} {rows rows' : List AuditRow}
    (hinj : Function.Injective sha256) (h : Holds db sha256 done rows)
    (happend : appendAll db sha256 rows rest = some rows') :
    Holds db sha256 (done ++ rest) rows' := by
  induction rest generalizing done rows with
  | nil =>
    rw [← Option.some.inj happend, List.append_nil]
    exact h
  | cons x rest ih =>
    rw [appendAll, Option.bind_eq_bind, Option.bind_eq_some_iff] at happend
    obtain ⟨rows₁, hfirst, hrest⟩ := happend
    rw [List.append_cons]
    exact ih (holds_append hinj h hfirst) hrest

/-- The rows of a run of appends verify exactly when every input and clock reading survives the
columns. -/
theorem verifyChain_appendAll_iff (db : Columns) (sha256 : String → String)
    (hinj : Function.Injective sha256) (inputs : List (AuditRecordInput × Rfc3339))
    (rows : List AuditRow) (h : appendAll db sha256 [] inputs = some rows) :
    verifyChain sha256 ((orderBySeq rows).map rowToRecord) = .ok inputs.length ↔
      ∀ x ∈ inputs, Survives x.1 x.2 := by
  have hempty : Holds db sha256 [] [] := ⟨by decide, rfl, trivial, .nil⟩
  have hholds : Holds db sha256 inputs rows := holds_appendAll hinj hempty h
  rw [hholds.sequence.orderBySeq_eq, verifyChain_eq_ok_iff, List.length_map,
    and_iff_right hholds.length_eq, and_iff_right hholds.chained]
  have hall := hholds.hashed
  clear hholds h
  induction hall with
  | nil => simp
  | cons hx _ ih =>
    rw [List.map_cons, List.forall_mem_cons, List.forall_mem_cons]
    exact and_congr hx ih

private def noonInput : AuditRecordInput where
  event := "agent.proposal"
  actor := "reviewer"
  actorType := .agent
  subject := none
  decision := none
  attributes := none

/-- `2026-07-06T12:00:00Z`. -/
private def noon : Rfc3339 where
  year := 2026
  month := 7
  day := 6
  hour := 12
  minute := 0
  second := 0
  fraction := []
  lowerT := false
  zone := .upperZ
  year_le := Rfc3339.year2026_le
  month_mem := by decide
  day_mem := by decide
  hour_le := by decide
  minute_le := by decide
  second_le := by decide

private def noonRows : List AuditRow := (appendAll postgres id [] [(noonInput, noon)]).getD []

private theorem appendAll_noon :
    appendAll postgres id [] [(noonInput, noon)] = some noonRows := by
  have hsome : (appendAll postgres id [] [(noonInput, noon)]).isSome = true := by decide
  obtain ⟨rows, hrows⟩ := Option.isSome_iff_exists.mp hsome
  rw [noonRows, hrows, Option.getD_some]

/-- `2026-07-06T12:00:00.000Z`. -/
private def noonSharp : Rfc3339 := { noon with fraction := [0, 0, 0] }

/-- `{ "change": { "fields": ["name", null] } }`. -/
private def changeInput : AuditRecordInput :=
  { noonInput with
    attributes := some
      { members := [(ofString "change", .obj [(ofString "fields",
          .arr [.scalar (.str (ofString "name")), .scalar .null])])]
        distinct := by decide } }

theorem verifyChain_appendAll_change : ∃ rows,
    appendAll postgres id [] [(changeInput, noonSharp)] = some rows ∧
      (verifyChain id ((orderBySeq rows).map rowToRecord) = .ok 1 ↔
        ∀ x ∈ [(changeInput, noonSharp)], Survives x.1 x.2) := by
  have hsome : (appendAll postgres id [] [(changeInput, noonSharp)]).isSome = true := by decide +kernel
  obtain ⟨rows, hrows⟩ := Option.isSome_iff_exists.mp hsome
  exact ⟨rows, hrows,
    verifyChain_appendAll_iff postgres id Function.injective_id [(changeInput, noonSharp)] rows hrows⟩

/-- A clock that leaves out the milliseconds is an RFC 3339 clock, and its records do not verify. -/
theorem seconds_clock_unverifiable :
    ¬∀ (db : Columns) (sha256 : String → String), Function.Injective sha256 →
      ∀ (inputs : List (AuditRecordInput × Rfc3339)) (rows : List AuditRow),
        appendAll db sha256 [] inputs = some rows →
        verifyChain sha256 ((orderBySeq rows).map rowToRecord) = .ok inputs.length := by
  intro claim
  have hok := claim postgres id Function.injective_id _ noonRows appendAll_noon
  have hempty : Holds postgres id [] [] := ⟨by decide, rfl, trivial, .nil⟩
  have hholds := holds_appendAll Function.injective_id hempty appendAll_noon
  rw [hholds.sequence.orderBySeq_eq, verifyChain_eq_ok_iff] at hok
  have hall := hholds.hashed
  obtain ⟨row, rest, hrow, -, hrows⟩ := List.forall₂_cons_left_iff.mp hall
  have hsurvives := hrow.mp (hok.2.2 _ (by simp [hrows]))
  exact absurd hsurvives.1 (by decide)

end OpenRupiv.Audit
