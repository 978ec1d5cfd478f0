import OpenRupiv.Js.Parse
import OpenRupiv.Js.StructuredData
import OpenRupiv.Runtime.Export

/-!
# Syslog export

What a receiver reads of the syslog export of `packages/audit/src/export.ts` and
`packages/runtime/src/admin.ts`, when it splits the text at line feeds and reads the structured data
of each line by RFC 5424.
-/

namespace OpenRupiv.Runtime

open Js Js.Rfc5424 Audit

structure SyslogRecord where
  seq : Num
  actor : Text
  actorType : ActorType
  subject : Option Text
  decision : Option Decision
  hash : Text
  prevHash : Text
  deriving DecidableEq

def SyslogRecord.of (r : AuditRecord) : SyslogRecord where
  seq := .ofDouble r.seq
  actor := r.actor
  actorType := r.actorType
  subject := r.subject
  decision := r.decision
  hash := ofString r.hash
  prevHash := ofString r.prevHash

def readActorType (t : Text) : Option ActorType :=
  [.human, .agent, .system].find? fun a : ActorType => ofString a.text = t

def readDecision (t : Text) : Option Decision :=
  [.allow, .deny].find? fun d : Decision => ofString d.text = t

/-- The record of these parameters; `subject` and `decision` may be missing. -/
def recordOfParams (params : List (Text × Text)) : Option SyslogRecord := do
  let seq ← params.lookup (ofString "seq")
  let actor ← params.lookup (ofString "actor")
  let actorType ← (params.lookup (ofString "actorType")).bind readActorType
  let decision ← match params.lookup (ofString "decision") with
    | none => some none
    | some d => (readDecision d).map some
  let hash ← params.lookup (ofString "hash")
  let prevHash ← params.lookup (ofString "prevHash")
  return {
    seq := exactNumber seq, actor, actorType, subject := params.lookup (ofString "subject"), decision,
    hash, prevHash }

/-- Six fields, then an element `openrupiv@0` of structured data at the end of the line. -/
def readLine (line : Text) : Option SyslogRecord := do
  let (_, data) ← readFields 6 line
  let opening := ofString "[openrupiv@0"
  if opening.isPrefixOf data then
    let (params, rest) ← readParams data.length (data.drop opening.length)
    if rest = [] then recordOfParams params else none
  else none

def readSyslog (text : Text) : Option (List SyslogRecord) := (linesOf text).mapM readLine

/-- The fields that the program fills in itself hold nothing that would have to be escaped. -/
structure Plain (r : AuditRecord) : Prop where
  timestamp : ∀ u ∈ r.timestamp, u ≠ 10 ∧ u ≠ 32
  event : ∀ u ∈ r.event, u ≠ 10 ∧ u ≠ 32
  hash : ∀ u ∈ ofString r.hash, u ≠ 10 ∧ u ≠ 34 ∧ u ≠ 92 ∧ u ≠ 93
  prevHash : ∀ u ∈ ofString r.prevHash, u ≠ 10 ∧ u ≠ 34 ∧ u ≠ 92 ∧ u ≠ 93

/-- A record that is appended under a plain event, at a plain time and with plain hashes. -/
theorem plain_appendRecord {sha256 : String → String} {prev : Option AuditRecord}
    {input : AuditRecordInput} {timestamp : Text}
    (hsha256 : ∀ s, ∀ u ∈ ofString (sha256 s), u ≠ 10 ∧ u ≠ 34 ∧ u ≠ 92 ∧ u ≠ 93)
    (hprev : ∀ r ∈ prev, Plain r) (hevent : ∀ u ∈ input.event, u ≠ 10 ∧ u ≠ 32)
    (htimestamp : ∀ u ∈ timestamp, u ≠ 10 ∧ u ≠ 32) :
    Plain (appendRecord sha256 prev input timestamp) where
  timestamp := htimestamp
  event := hevent
  hash := hsha256 _
  prevHash := by
    cases prev with
    | none =>
      have hgenesis : (ofString GENESIS_HASH).all
        (fun u => u ≠ 10 ∧ u ≠ 34 ∧ u ≠ 92 ∧ u ≠ 93) = true := by decide
      change ∀ u ∈ ofString GENESIS_HASH, _
      simpa using hgenesis
    | some r => exact (hprev r rfl).hash

def syslogFields (r : AuditRecord) : List Text :=
  [ofString "<13>1", r.timestamp, ofString "openrupiv", ofString "audit", (Num.ofDouble r.seq).print,
    r.event]

def syslogParams (r : AuditRecord) : List (Text × Text) :=
  [(ofString "seq", (Num.ofDouble r.seq).print), (ofString "actor", r.actor),
    (ofString "actorType", ofString r.actorType.text)] ++
  (r.subject.toList.map fun s => (ofString "subject", s)) ++
  (r.decision.toList.map fun d => (ofString "decision", ofString d.text)) ++
  [(ofString "hash", ofString r.hash), (ofString "prevHash", ofString r.prevHash)]

theorem escapeValue_eq_self {v : Text} (h : ∀ u ∈ v, u ≠ 34 ∧ u ≠ 92 ∧ u ≠ 93) :
    escapeValue v = v := by
  induction v with
  | nil => rfl
  | cons u v ih =>
    obtain ⟨⟨h34, h92, h93⟩, hv⟩ := List.forall_mem_cons.mp h
    rw [escapeValue, List.flatMap_cons, if_neg (by simp [h34, h92, h93])]
    exact congrArg (u :: ·) (ih hv)

theorem mem_escapeValue_iff {v : Text} {u : UInt16} (hu : u ≠ 92) : u ∈ escapeValue v ↔ u ∈ v := by
  rw [escapeValue, List.mem_flatMap]
  constructor
  · intro h
    obtain ⟨w, hw, hin⟩ := h
    split at hin
    · simp only [List.mem_cons, List.not_mem_nil, or_false, hu, false_or] at hin
      exact hin ▸ hw
    · rw [List.mem_singleton.mp hin]
      exact hw
  · intro h
    refine ⟨u, h, ?_⟩
    split <;> simp

theorem ofDouble_finite (n : Int) : (Num.ofDouble n).isFinite = true := by
  unfold Num.ofDouble Num.ofInt
  split <;> rfl

theorem ofDouble_unsigned (n : Int) : (Num.ofDouble n).unsigned = Num.ofDouble n := by
  unfold Num.ofDouble Num.ofInt
  split <;> rfl

/-- A printed number holds neither spaces nor anything that would have to be escaped. -/
theorem print_plain {n : Int} {u : UInt16} (hu : u ∈ (Num.ofDouble n).print) :
    u ≠ 10 ∧ u ≠ 32 ∧ u ≠ 34 ∧ u ≠ 92 ∧ u ≠ 93 := by
  have hunit := isNumUnit_of_mem_print (ofDouble_finite n) hu
  refine ⟨?_, ?_, ?_, ?_, ?_⟩
  all_goals
    rintro rfl
    exact absurd hunit (by decide)

theorem syslogLine_eq {r : AuditRecord} (h : Plain r) :
    syslogLine r = (syslogFields r).flatMap (fun f => f ++ [32]) ++
      (ofString "[openrupiv@0" ++ ((syslogParams r).flatMap paramText ++ [93])) := by
  have hseq : escapeValue (Num.ofDouble r.seq).print = (Num.ofDouble r.seq).print :=
    escapeValue_eq_self fun u hu => (print_plain hu).2.2
  have htype : escapeValue (ofString r.actorType.text) = ofString r.actorType.text := by
    cases r.actorType <;> decide
  have hhash : escapeValue (ofString r.hash) = ofString r.hash :=
    escapeValue_eq_self fun u hu => (h.hash u hu).2
  have hprev : escapeValue (ofString r.prevHash) = ofString r.prevHash :=
    escapeValue_eq_self fun u hu => (h.prevHash u hu).2
  have hdecision : ∀ d : Decision, escapeValue (ofString d.text) = ofString d.text := by
    intro d
    cases d <;> decide
  have hescape : escapeParam = escapeValue := rfl
  -- the literals of the source, cut where a parameter begins or ends
  have hstart : ofString "<13>1 " = ofString "<13>1" ++ [32] := by decide
  have happ : ofString " openrupiv audit " =
      32 :: (ofString "openrupiv" ++ 32 :: (ofString "audit" ++ [32])) := by decide
  have hspace : ofString " " = [32] := by decide
  have hopen : ofString "[openrupiv@0 seq=\"" =
      ofString "[openrupiv@0" ++ 32 :: (ofString "seq" ++ [61, 34]) := by decide
  have hactor : ofString "\" actor=\"" = 34 :: 32 :: (ofString "actor" ++ [61, 34]) := by decide
  have hactorType : ofString "\" actorType=\"" =
      34 :: 32 :: (ofString "actorType" ++ [61, 34]) := by decide
  have hquote : ofString "\"" = [34] := by decide
  have hsubject : ofString " subject=\"" = 32 :: (ofString "subject" ++ [61, 34]) := by decide
  have hdecided : ofString " decision=\"" = 32 :: (ofString "decision" ++ [61, 34]) := by decide
  have hhashed : ofString " hash=\"" = 32 :: (ofString "hash" ++ [61, 34]) := by decide
  have hprevious : ofString "\" prevHash=\"" = 34 :: 32 :: (ofString "prevHash" ++ [61, 34]) := by
    decide
  have hend : ofString "\"]" = [34, 93] := by decide
  unfold syslogLine syslogFields syslogParams
  rw [hescape, hstart, happ, hspace, hopen, hactor, hactorType, hquote, hsubject, hdecided,
    hhashed, hprevious, hend]
  cases r.subject with
  | none =>
    cases r.decision <;> simp [paramText, hseq, htype, hhash, hprev, hdecision]
  | some s =>
    cases r.decision <;> simp [paramText, hseq, htype, hhash, hprev, hdecision]

theorem recordOfParams_syslogParams (r : AuditRecord) :
    recordOfParams (syslogParams r) = some (.of r) := by
  have hactorType : readActorType (ofString r.actorType.text) = some r.actorType := by
    cases r.actorType <;> decide
  have hdecision : ∀ d : Decision, readDecision (ofString d.text) = some d := by
    intro d
    cases d <;> decide
  have hseq : exactNumber (Num.ofDouble r.seq).print = Num.ofDouble r.seq := by
    rw [exactNumber_print (ofDouble_finite _), ofDouble_unsigned]
  -- the names are told apart as strings
  have hname : ∀ s t : String, (ofString s == ofString t) = (s == t) := by
    intro s t
    rw [Bool.eq_iff_iff, beq_iff_eq, beq_iff_eq, ofString_inj]
  unfold recordOfParams syslogParams
  cases hsubject : r.subject with
  | none =>
    cases hd : r.decision with
    | none =>
      simp [List.lookup_cons, hname, hactorType, hseq, SyslogRecord.of, hsubject, hd]
    | some d =>
      simp [List.lookup_cons, hname, hactorType, hdecision, hseq, SyslogRecord.of, hsubject, hd]
  | some s =>
    cases hd : r.decision with
    | none =>
      simp [List.lookup_cons, hname, hactorType, hseq, SyslogRecord.of, hsubject, hd]
    | some d =>
      simp [List.lookup_cons, hname, hactorType, hdecision, hseq, SyslogRecord.of, hsubject, hd]

theorem length_flatMap_paramText (params : List (Text × Text)) :
    params.length ≤ (params.flatMap paramText).length := by
  induction params with
  | nil => simp
  | cons p params ih =>
    simp only [List.flatMap_cons, List.length_append, List.length_cons, paramText]
    omega

theorem readLine_syslogLine {r : AuditRecord} (h : Plain r) :
    readLine (syslogLine r) = some (.of r) := by
  have hfields : ∀ f ∈ syslogFields r, 32 ∉ f := by
    intro f hf h32
    simp only [syslogFields, List.mem_cons, List.not_mem_nil, or_false] at hf
    rcases hf with rfl | rfl | rfl | rfl | rfl | rfl
    · exact absurd h32 (by decide)
    · exact (h.timestamp _ h32).2 rfl
    · exact absurd h32 (by decide)
    · exact absurd h32 (by decide)
    · exact (print_plain h32).2.1 rfl
    · exact (h.event _ h32).2 rfl
  have hnames : ∀ p ∈ syslogParams r, 61 ∉ p.1 := by
    have hconst : ∀ p ∈ syslogParams r, p.1 ∈ [ofString "seq", ofString "actor",
        ofString "actorType", ofString "subject", ofString "decision", ofString "hash",
        ofString "prevHash"] := by
      intro p hp
      simp only [syslogParams, List.mem_append, List.mem_cons, List.not_mem_nil, or_false,
        List.mem_map] at hp
      rcases hp with (((rfl | rfl | rfl) | ⟨s, -, rfl⟩) | ⟨d, -, rfl⟩) | rfl | rfl <;> simp
    intro p hp
    have hall : [ofString "seq", ofString "actor", ofString "actorType", ofString "subject",
        ofString "decision", ofString "hash", ofString "prevHash"].all (fun n => 61 ∉ n) = true := by
      decide
    simpa using List.all_eq_true.mp hall _ (hconst p hp)
  have hparams : readParams
      (ofString "[openrupiv@0" ++ ((syslogParams r).flatMap paramText ++ [93])).length
      ((syslogParams r).flatMap paramText ++ [93]) = some (syslogParams r, []) := by
    refine readParams_append hnames ?_ []
    have hlength := length_flatMap_paramText (syslogParams r)
    simp only [List.length_append]
    omega
  have hread : readFields 6 (syslogLine r) = some (syslogFields r,
      ofString "[openrupiv@0" ++ ((syslogParams r).flatMap paramText ++ [93])) := by
    rw [syslogLine_eq h]
    exact readFields_append hfields _
  have hopening : (ofString "[openrupiv@0").isPrefixOf
      (ofString "[openrupiv@0" ++ ((syslogParams r).flatMap paramText ++ [93])) = true := by
    rw [List.isPrefixOf_iff_prefix]
    exact List.prefix_append _ _
  unfold readLine
  rw [hread]
  simp only [Option.bind_eq_bind, Option.bind_some]
  rw [if_pos hopening, List.drop_left, hparams]
  exact recordOfParams_syslogParams r

theorem mem_paramText_iff {p : Text × Text} : 10 ∈ paramText p ↔ 10 ∈ p.1 ∨ 10 ∈ p.2 := by
  have hescape : (10 : UInt16) ∈ escapeValue p.2 ↔ 10 ∈ p.2 := mem_escapeValue_iff (by decide)
  simp [paramText, hescape]

theorem mem_syslogLine_iff {r : AuditRecord} (h : Plain r) :
    10 ∈ syslogLine r ↔ 10 ∈ r.actor ∨ ∃ s, r.subject = some s ∧ 10 ∈ s := by
  have htimestamp : 10 ∉ r.timestamp := fun hmem => (h.timestamp _ hmem).1 rfl
  have hevent : 10 ∉ r.event := fun hmem => (h.event _ hmem).1 rfl
  have hhash : 10 ∉ ofString r.hash := fun hmem => (h.hash _ hmem).1 rfl
  have hprev : 10 ∉ ofString r.prevHash := fun hmem => (h.prevHash _ hmem).1 rfl
  have hseq : 10 ∉ (Num.ofDouble r.seq).print := fun hmem => (print_plain hmem).1 rfl
  have htype : 10 ∉ ofString r.actorType.text := by cases r.actorType <;> decide
  have hdecision : ∀ d : Decision, 10 ∉ ofString d.text := by
    intro d
    cases d <;> decide
  have hconst : ∀ s ∈ ["<13>1", "openrupiv", "audit", "[openrupiv@0", "seq", "actor", "actorType",
      "subject", "decision", "hash", "prevHash"], 10 ∉ ofString s := by
    have hall : ["<13>1", "openrupiv", "audit", "[openrupiv@0", "seq", "actor", "actorType",
        "subject", "decision", "hash", "prevHash"].all (fun s => 10 ∉ ofString s) = true := by
      decide
    simpa using hall
  have hfields : 10 ∉ (syslogFields r).flatMap fun f => f ++ [32] := by
    simp [syslogFields, htimestamp, hevent, hseq, hconst]
  have hparams : 10 ∈ (syslogParams r).flatMap paramText ↔
      10 ∈ r.actor ∨ ∃ s, r.subject = some s ∧ 10 ∈ s := by
    rw [List.mem_flatMap]
    simp only [mem_paramText_iff, syslogParams]
    cases r.subject <;> cases r.decision <;>
      simp [hseq, htype, hdecision, hhash, hprev, hconst]
  rw [syslogLine_eq h]
  simp [hfields, hparams, hconst]

theorem syslogLine_ne_nil {r : AuditRecord} : syslogLine r ≠ [] := by
  unfold syslogLine
  simp only [List.append_assoc]
  exact List.append_ne_nil_of_left_ne_nil (by decide) _

theorem mapM_readLine {records : List AuditRecord} (hplain : ∀ r ∈ records, Plain r) :
    (records.map syslogLine).mapM readLine = some (records.map SyslogRecord.of) := by
  induction records with
  | nil => rfl
  | cons r records ih =>
    obtain ⟨hr, hrecords⟩ := List.forall_mem_cons.mp hplain
    simp [readLine_syslogLine hr, ih hrecords]

/-- The exported text is read as the records, one line for each, exactly when no actor and no
subject holds a line feed. -/
theorem readSyslog_export_iff (dateParse : Text → Option Int) (records : List AuditRecord)
    (hplain : ∀ r ∈ records, Plain r) :
    (linesOf (plainExport dateParse records .syslog)).length = records.length ∧
        readSyslog (plainExport dateParse records .syslog) = some (records.map SyslogRecord.of) ↔
      ∀ r ∈ records, 10 ∉ r.actor ∧ ∀ s, r.subject = some s → 10 ∉ s := by
  have hexport : plainExport dateParse records .syslog =
      List.intercalate [10] (records.map syslogLine) := by
    have hfeed : ofString "\n" = [10] := by decide
    rw [plainExport, joinTexts, hfeed]
    rfl
  have hne : ∀ l ∈ records.map syslogLine, l ≠ [] := by
    intro l hl
    obtain ⟨r, -, rfl⟩ := List.mem_map.mp hl
    exact syslogLine_ne_nil
  have hfeeds : (∀ l ∈ records.map syslogLine, 10 ∉ l) ↔
      ∀ r ∈ records, 10 ∉ r.actor ∧ ∀ s, r.subject = some s → 10 ∉ s := by
    rw [List.forall_mem_map]
    refine forall₂_congr fun r hr => ?_
    rw [mem_syslogLine_iff (hplain r hr), not_or, not_exists]
    exact and_congr_right fun _ => forall_congr' fun s => not_and
  rw [hexport, ← hfeeds]
  constructor
  · intro h l hl hfeed
    have hlength := length_linesOf_intercalate hne
    rw [h.1, List.length_map] at hlength
    have hzero : ((records.map syslogLine).map (List.count 10)).sum = 0 := by omega
    have hcount : l.count 10 = 0 :=
      List.sum_eq_zero_iff_forall_eq_nat.mp hzero _ (List.mem_map_of_mem hl)
    exact List.count_eq_zero.mp hcount hfeed
  · intro h
    rw [readSyslog, linesOf_intercalate hne h, List.length_map]
    exact ⟨rfl, mapM_readLine hplain⟩

def refusedCall (tool : String) : AuditRecord where
  event := ofString "mcp.serve_call"
  actor := ofString "alice"
  actorType := .human
  subject := some (ofString tool)
  decision := some .deny
  attributes := Object.empty.toValue
  seq := 7
  timestamp := ofString "2026-01-05T08:00:00.000Z"
  prevHash := "5e1f"
  hash := "c0de"

theorem plain_refusedCall (tool : String) : Plain (refusedCall tool) := by
  have hheader : ∀ u ∈ ofString "mcp.serve_call2026-01-05T08:00:00.000Z", u ≠ 10 ∧ u ≠ 32 := by
    have hall : (ofString "mcp.serve_call2026-01-05T08:00:00.000Z").all
      (fun u => u ≠ 10 ∧ u ≠ 32) = true := by decide
    simpa using hall
  have hhashes : ∀ u ∈ ofString "c0de5e1f", u ≠ 10 ∧ u ≠ 34 ∧ u ≠ 92 ∧ u ≠ 93 := by
    have hall : (ofString "c0de5e1f").all (fun u => u ≠ 10 ∧ u ≠ 34 ∧ u ≠ 92 ∧ u ≠ 93) = true := by
      decide
    simpa using hall
  rw [show "mcp.serve_call2026-01-05T08:00:00.000Z" = "mcp.serve_call" ++ "2026-01-05T08:00:00.000Z"
    by decide, ofString_append, List.forall_mem_append] at hheader
  rw [show "c0de5e1f" = "c0de" ++ "5e1f" by decide, ofString_append, List.forall_mem_append] at hhashes
  exact ⟨hheader.2, hheader.1, hhashes.1, hhashes.2⟩

/-- Quotes and brackets in the name of a tool do no harm. -/
theorem readSyslog_export_quoted :
    readSyslog (plainExport (fun _ => none) [refusedCall "a\"] b=\"c"] .syslog) =
      some [.of (refusedCall "a\"] b=\"c")] :=
  ((readSyslog_export_iff (fun _ => none) [refusedCall "a\"] b=\"c"]
    (by simp [plain_refusedCall])).mpr (by
      intro r hr
      rw [List.mem_singleton.mp hr]
      refine ⟨by decide, fun s hs => ?_⟩
      rw [← Option.some.inj hs]
      decide)).2

/-- The name of a tool with a line of its own in it. -/
def forgedTool : String := "x\n<13>1 2026-01-05T08:00:00.000Z openrupiv audit 8 auth.login - ok"

/-- One record is exported as two lines, and the second begins as the caller wrote it. -/
theorem syslog_line_forged :
    let lines := linesOf (plainExport (fun _ => none) [refusedCall forgedTool] .syslog)
    lines.length = 2 ∧
      (ofString "<13>1 2026-01-05T08:00:00.000Z openrupiv audit 8 auth.login - ok").isPrefixOf
        (lines.getD 1 []) = true ∧
      readSyslog (plainExport (fun _ => none) [refusedCall forgedTool] .syslog) = none := by
  decide +kernel

end OpenRupiv.Runtime
