import OpenRupiv.Js.Print
import OpenRupiv.Audit.Store

/-!
# Export formats

`packages/audit/src/export.ts`.  The envelope of the OTLP format is cut out of the text of an
export without records, and records put between its two halves give the text of their export.
-/

namespace OpenRupiv.Audit

open Js

/-- `JSON.stringify` sees the properties in the order in which `rowToRecord` creates them. -/
def AuditRecord.json (r : AuditRecord) : Json :=
  .obj ([(ofString "seq", .scalar (.num (.ofDouble r.seq))),
    (ofString "timestamp", .scalar (.str r.timestamp)),
    (ofString "event", .scalar (.str r.event)),
    (ofString "actor", .scalar (.str r.actor)),
    (ofString "actorType", .scalar (.str (ofString r.actorType.text))),
    (ofString "attributes", r.attributes.json),
    (ofString "prevHash", .scalar (.str (ofString r.prevHash))),
    (ofString "hash", .scalar (.str (ofString r.hash)))] ++
    (r.subject.toList.map fun s => (ofString "subject", .scalar (.str s))) ++
    r.decision.toList.map fun d => (ofString "decision", .scalar (.str (ofString d.text))))

def toJsonl (records : List AuditRecord) : Text :=
  joinTexts (ofString "\n") (records.map fun r => stringifyText r.json)

def otlpKv (key : String) (value : Json) : Json :=
  .obj [(ofString "key", .scalar (.str (ofString key))),
    (ofString "value", match value with
      | .scalar (.num n) => .obj [(ofString "intValue", .scalar (.str n.print))]
      | .scalar (.str s) => .obj [(ofString "stringValue", .scalar (.str s))]
      | v => .obj [(ofString "stringValue", .scalar (.str (stringifyText v)))])]

section

variable (dateParse : Text → Option Int)

/-- `0` for what `Date.parse` does not understand. -/
def rfc3339ToUnixNano (ts : Text) : Text :=
  match dateParse ts with
  | none => ofString "0"
  | some ms => (Num.ofDouble ms).print ++ ofString "000000"

def otlpLogRecord (r : AuditRecord) : Json :=
  .obj [(ofString "timeUnixNano", .scalar (.str (rfc3339ToUnixNano dateParse r.timestamp))),
    (ofString "severityText",
      .scalar (.str (ofString (if r.decision = some .deny then "WARN" else "INFO")))),
    (ofString "body", .obj [(ofString "stringValue", .scalar (.str r.event))]),
    (ofString "attributes", .arr (
      [otlpKv "seq" (.scalar (.num (.ofDouble r.seq))),
        otlpKv "actor" (.scalar (.str r.actor)),
        otlpKv "actor.type" (.scalar (.str (ofString r.actorType.text)))] ++
      (r.subject.toList.map fun s => otlpKv "subject" (.scalar (.str s))) ++
      (r.decision.toList.map fun d => otlpKv "decision" (.scalar (.str (ofString d.text)))) ++
      [otlpKv "hash" (.scalar (.str (ofString r.hash))),
        otlpKv "prev_hash" (.scalar (.str (ofString r.prevHash))),
        otlpKv "attributes" r.attributes.json]))]

def otlpResource : Json :=
  .obj [(ofString "attributes", .arr [
    otlpKv "service.name" (.scalar (.str (ofString "openrupiv"))),
    otlpKv "telemetry.kind" (.scalar (.str (ofString "audit")))])]

def otlpScope : Json := .obj [(ofString "name", .scalar (.str (ofString "@openrupiv/audit")))]

/-- The document with the given log records. -/
def otlpDocument (logRecords : List Json) : Json :=
  .obj [(ofString "resourceLogs", .arr [
    .obj [(ofString "resource", otlpResource),
      (ofString "scopeLogs", .arr [
        .obj [(ofString "scope", otlpScope), (ofString "logRecords", .arr logRecords)]])]])]

def toOtlpLogRecords (records : List AuditRecord) : Json :=
  otlpDocument (records.map (otlpLogRecord dateParse))

end

/-- `String.prototype.indexOf`. -/
def indexOf (s marker : Text) : Option Nat :=
  (List.range (s.length + 1)).find? fun i => marker.isPrefixOf (s.drop i)

def logRecordsMarker : Text := ofString "\"logRecords\":[]"

/-- The two halves; without the marker the source throws. -/
def otlpEnvelope : Option (Text × Text) :=
  let empty := stringifyText (otlpDocument [])
  (indexOf empty logRecordsMarker).map fun markerIndex =>
    empty.splitAt (markerIndex + logRecordsMarker.length - 1)

/-- A backslash before each backslash, closing bracket and double quote. -/
def escapeParam (v : Text) : Text :=
  v.flatMap fun u => if u = 92 ∨ u = 93 ∨ u = 34 then [92, u] else [u]

def syslogLine (r : AuditRecord) : Text :=
  let seq := (Num.ofDouble r.seq).print
  let sd := ofString "[openrupiv@0 seq=\"" ++ seq ++ ofString "\" actor=\"" ++ escapeParam r.actor ++
    ofString "\" actorType=\"" ++ ofString r.actorType.text ++ ofString "\"" ++
    (r.subject.elim [] fun s => ofString " subject=\"" ++ escapeParam s ++ ofString "\"") ++
    (r.decision.elim [] fun d => ofString " decision=\"" ++ ofString d.text ++ ofString "\"") ++
    ofString " hash=\"" ++ ofString r.hash ++ ofString "\" prevHash=\"" ++ ofString r.prevHash ++
    ofString "\"]"
  ofString "<13>1 " ++ r.timestamp ++ ofString " openrupiv audit " ++ seq ++ ofString " " ++ r.event ++
    ofString " " ++ sd

def toSyslog (records : List AuditRecord) : List Text := records.map syslogLine

private def openChars : List Char :=
  '{' :: (quote (ofString "resourceLogs") ++ ':' :: '[' :: '{' ::
    (Js.member (ofString "resource", stringify otlpResource) ++ ',' ::
      (quote (ofString "scopeLogs") ++ ':' :: '[' :: '{' ::
        (Js.member (ofString "scope", stringify otlpScope) ++ ',' ::
          (quote (ofString "logRecords") ++ [':', '['])))))

private def closeChars : List Char := [']', '}', ']', '}', ']', '}']

private theorem stringify_otlpDocument (logRecords : List Json) :
    stringify (otlpDocument logRecords) =
      openChars ++ (separated (logRecords.map stringify) ++ closeChars) := by
  simp (disch := decide +kernel) only [otlpDocument, stringify_one, stringify_two, stringify_arr,
    List.map_cons, List.map_nil]
  simp [openChars, closeChars, separated, Js.member]

private theorem otlpEnvelope_eq :
    otlpEnvelope = some (openChars.flatMap utf16, closeChars.flatMap utf16) := by
  -- code unit by code unit: the printed text as a string would be encoded and decoded again
  have hempty : stringifyText (otlpDocument []) = (openChars ++ closeChars).flatMap utf16 := by
    rw [stringifyText_eq, stringify_otlpDocument]
    rfl
  rw [otlpEnvelope, hempty]
  decide +kernel

theorem otlp_spliced (dateParse : Text → Option Int) (records : List AuditRecord) :
    ∃ o c, otlpEnvelope = some (o, c) ∧ stringifyText (toOtlpLogRecords dateParse records) =
      o ++ joinTexts (ofString ",")
        (records.map fun r => stringifyText (otlpLogRecord dateParse r)) ++ c := by
  refine ⟨_, _, otlpEnvelope_eq, ?_⟩
  rw [stringifyText_eq, toOtlpLogRecords, stringify_otlpDocument, List.flatMap_append,
    List.flatMap_append, separated_flatMap, List.append_assoc]
  simp [stringifyText_eq, Function.comp_def]

end OpenRupiv.Audit
