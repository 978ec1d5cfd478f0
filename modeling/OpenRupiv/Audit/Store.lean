import OpenRupiv.Audit.Canonical
import OpenRupiv.Js.Date

/-!
# The `audit_log` table

`packages/audit/src/store.ts` over the columns of `packages/audit/src/migration.ts`: what the
columns make of an inserted record, and `rowToRecord` on what the driver returns.
-/

namespace OpenRupiv.Audit

open Js

/-- A `timestamp` as the driver returns it. -/
inductive DriverTime where
  | date (ms : Int)
  | text (s : Text)

/-- A row of `audit_log`; the checks on `actor_type` and `decision` are in the types. -/
structure AuditRow where
  seq : Int
  timestamp : DriverTime
  event : Text
  actor : Text
  actor_type : ActorType
  subject : Option Text
  decision : Option Decision
  attributes : Value
  prev_hash : String
  hash : String

/-- `value ?? {}`. -/
def orEmptyObject (v : Value) : Value :=
  match v.json with
  | .scalar .null => Object.empty.toValue
  | _ => v

def rowToRecord (r : AuditRow) : AuditRecord where
  seq := number r.seq
  timestamp := match r.timestamp with
    | .date ms => toISOString ms
    | .text s => s
  event := r.event
  actor := r.actor
  actorType := r.actor_type
  attributes := orEmptyObject r.attributes
  prevHash := r.prev_hash
  hash := r.hash
  subject := r.subject
  decision := r.decision

/-- What the database and its driver do to a value on its way through a column: `none` when the
insert is refused, otherwise what a later `SELECT` returns. -/
structure Columns where
  /-- A `jsonb` column, given `JSON.stringify` of the value and read by `JSON.parse`. -/
  jsonb : Value → Option Value
  /-- `jsonb` returns the members of the printed value, in an order of its own. -/
  jsonb_same : ∀ {v w}, jsonb v = some w →
    w.json.rebuild id .sorted = v.json.rebuild Scalar.printed .sorted
  /-- A `timestamptz` column: milliseconds of the `Date` returned. -/
  timestamptz : Rfc3339 → Option Int
  /-- Up to milliseconds nothing is lost. -/
  timestamptz_exact : ∀ {t ms}, t.fraction.length = 3 → timestamptz t = some ms →
    ms = t.epochSeconds * 1000 + digitsValue t.fraction

def storableText (s : Text) : Bool := !s.contains 0 && wellFormed s

/-- `jsonb` refuses U+0000 and escapes of lone surrogates. -/
def storable : Json → Bool :=
  Json.fold (fun s => match s with
      | .str s => storableText s
      | _ => true)
    (fun items => items.all id) (fun members => members.all fun m => storableText m.1 && m.2)

def codePoints : Text → List Nat
  | [] => []
  | [u] => [u.toNat]
  | u :: v :: rest =>
      if isHigh u && isLow v then pairCode u v :: codePoints rest else u.toNat :: codePoints (v :: rest)

def utf8Length (s : Text) : Nat :=
  ((codePoints s).map fun c => if c < 0x80 then 1 else if c < 0x800 then 2
    else if c < 0x10000 then 3 else 4).sum

/-- `jsonb` orders keys by length in bytes, then bytewise. -/
def jsonbLe (k k' : Text) : Bool :=
  utf8Length k < utf8Length k' || (utf8Length k == utf8Length k' && codePoints k ≤ codePoints k')

def jsonbLayout : Layout :=
  .ofPerm (fun ms => ms.insertionSort fun m n => jsonbLe m.1 n.1 = true)
    (fun h ms => (List.map_insertionSort _ _ _ ms (by simp)).symm) fun ms => List.perm_insertionSort _ ms

/-- A fraction of a second in microseconds, rounded. -/
def micros (fraction : List Digit) : Nat :=
  (2 * digitsValue fraction * 1000000 + 10 ^ fraction.length) / (2 * 10 ^ fraction.length)

/-- PostgreSQL behind node-postgres: there is no year 0, instants are kept in microseconds, and the
`Date` has the milliseconds. -/
def postgres : Columns where
  jsonb v := if storable v.json then some (v.rebuild Scalar.printed jsonbLayout) else none
  jsonb_same := by
    intro v w h
    split at h
    · rw [← Option.some.inj h, Value.rebuild, Json.rebuild_rebuild]
      apply Json.rebuild_congr v.distinct
      · intro s
        rfl
      · intro ms hms
        have hperm := List.perm_insertionSort (fun m n => jsonbLe m.1 n.1 = true) ms
        exact sortKeys_eq_of_perm hperm (nodup_keys_perm hperm.symm hms)
    · exact absurd h (by simp)
  timestamptz t :=
    if t.year = 0 then none else some ((t.epochSeconds * 1000000 + micros t.fraction) / 1000)
  timestamptz_exact := by
    intro t ms hlen h
    split at h
    · exact absurd h (by simp)
    · have hmicros : micros t.fraction = digitsValue t.fraction * 1000 := by
        unfold micros
        rw [hlen]
        omega
      rw [← Option.some.inj h, hmicros]
      push_cast
      omega

/-- A `text` column: the driver sends UTF-8, and the server refuses U+0000. -/
def textColumn (s : Text) : Option Text := if (0 : UInt16) ∈ s then none else some (toWellFormed s)

def nullableTextColumn : Option Text → Option (Option Text)
  | none => some none
  | some s => (textColumn s).map some

/-- The row that `INSERT_RECORD` stores for `insertParams(record)`, `now` being the timestamp. -/
def columnsOf (db : Columns) (record : AuditRecord) (now : Rfc3339) : Option AuditRow := do
  let timestamp ← db.timestamptz now
  let event ← textColumn record.event
  let actor ← textColumn record.actor
  let subject ← nullableTextColumn record.subject
  let attributes ← db.jsonb record.attributes
  return {
    seq := record.seq
    timestamp := .date timestamp
    event
    actor
    actor_type := record.actorType
    subject
    decision := record.decision
    attributes
    prev_hash := record.prevHash
    hash := record.hash }

/-- `SELECT … ORDER BY seq ASC`. -/
def orderBySeq (rows : List AuditRow) : List AuditRow := rows.insertionSort fun r s => r.seq ≤ s.seq

/-- `SELECT … ORDER BY seq DESC LIMIT 1`. -/
def selectTail (rows : List AuditRow) : Option AuditRow := (orderBySeq rows).getLast?

/-- The primary key on `seq` and the `UNIQUE` constraint on `hash`. -/
def insertRow (rows : List AuditRow) (row : AuditRow) : Option (List AuditRow) :=
  if row.seq ∈ rows.map (·.seq) ∨ row.hash ∈ rows.map (·.hash) then none else some (rows ++ [row])

/-- `appendInTransaction` with the chain lock held, `now` being what the clock returns. -/
def appendInTransaction (db : Columns) (sha256 : String → String) (rows : List AuditRow)
    (input : AuditRecordInput) (now : Rfc3339) : Option (List AuditRow) := do
  let attributes := (scrubAttributes input.attributes).1
  let prev := (selectTail rows).map rowToRecord
  let record := appendRecord sha256 prev { input with attributes := some attributes } now.text
  let row ← columnsOf db record now
  insertRow rows row

/-- One append after the other, each of which has to succeed. -/
def appendAll (db : Columns) (sha256 : String → String) (rows : List AuditRow) :
    List (AuditRecordInput × Rfc3339) → Option (List AuditRow)
  | [] => some rows
  | (input, now) :: rest => do
      let rows' ← appendInTransaction db sha256 rows input now
      appendAll db sha256 rows' rest

end OpenRupiv.Audit
