import OpenRupiv.Js.Stringify

/-!
# The hash chain

`packages/audit/src/types.ts` and `packages/audit/src/chain.ts`: scrubbing, canonicalization,
appending and verification.  The hash function is a parameter.
-/

namespace OpenRupiv.Audit

open Js

inductive ActorType where
  | human
  | agent
  | system
  deriving DecidableEq

def ActorType.text : ActorType → String
  | .human => "human"
  | .agent => "agent"
  | .system => "system"

inductive Decision where
  | allow
  | deny
  deriving DecidableEq

def Decision.text : Decision → String
  | .allow => "allow"
  | .deny => "deny"

structure AuditRecordInput where
  event : Text
  actor : Text
  actorType : ActorType
  subject : Option Text
  decision : Option Decision
  attributes : Option Object

@[ext]
structure AuditRecordBody where
  event : Text
  actor : Text
  actorType : ActorType
  subject : Option Text
  decision : Option Decision
  attributes : Value
  seq : Int
  timestamp : Text
  prevHash : String

structure AuditRecord extends AuditRecordBody where
  hash : String

/-- The `prevHash` of the first record. -/
def GENESIS_HASH : String := String.ofList (List.replicate 64 '0')

def REDACTED : Text := ofString "[redacted]"

/-- A code unit under the `i` flag: without `u`, only ASCII letters fold onto ASCII letters. -/
def foldCase (u : UInt16) : UInt16 := if 65 ≤ u && u ≤ 90 then u + 32 else u

/-- `\w`. -/
def isWord (u : UInt16) : Bool :=
  (48 ≤ u && u ≤ 57) || (65 ≤ u && u ≤ 90) || (97 ≤ u && u ≤ 122) || u == 95

def containsText (word : Text) (s : Text) : Bool := s.tails.any fun t => word.isPrefixOf t

/-- `\bkey\b`; `before` tells whether a word character stands before the text. -/
def containsKeyWord (before : Bool) : Text → Bool
  | [] => false
  | u :: rest =>
      (!before && (ofString "key").isPrefixOf (u :: rest) &&
        !((rest.drop 2).head?.any isWord)) || containsKeyWord (isWord u) rest

/-- `SECRET_KEY_PATTERN.test(k)`. -/
def isSecretKey (k : Text) : Bool :=
  let s := k.map foldCase
  (["pass", "secret", "token", "authorization", "cookie", "apikey", "api_key"].any
    fun w => containsText (ofString w) s) || containsKeyWord false s

/-- The members of `walk` on an object, and the paths scrubbed in it. -/
def scrubMembers (path : Text) (members : List (Text × (Text → Json × List Text))) :
    List (Text × Json) × List Text :=
  let entries := (ownEntries members).map fun m =>
    let childPath := if path = [] then m.1 else path ++ ofString "." ++ m.1
    if isSecretKey m.1 then (m.1, (Json.scalar (.str REDACTED), [childPath]))
    else (m.1, m.2 childPath)
  (assignAll (mapValues Prod.fst entries), entries.flatMap fun e => e.2.2)

def scrubItem (path : Text) (item : (Text → Json × List Text) × Nat) : Json × List Text :=
  item.1 (path ++ ofString ("[" ++ toString item.2 ++ "]"))

/-- `walk(value, path)`: the scrubbed copy and the paths pushed onto `scrubbed`. -/
def walk : Json → Text → Json × List Text :=
  Json.fold (fun s _ => (.scalar s, []))
    (fun items path =>
      let done := items.zipIdx.map (scrubItem path)
      (.arr (done.map Prod.fst), done.flatMap Prod.snd))
    (fun members path => (.obj (scrubMembers path members).1, (scrubMembers path members).2))

theorem distinctKeys_walk {v : Json} (h : v.distinctKeys = true) (path : Text) :
    (walk v path).1.distinctKeys = true := by
  induction v using Json.induct generalizing path with
  | scalar s => simp [walk]
  | arr items ih =>
    rw [Json.distinctKeys_arr] at h
    simp only [walk, Json.fold_arr, Json.distinctKeys_arr, List.mem_map]
    rintro w ⟨_, ⟨⟨f, i⟩, hf, rfl⟩, rfl⟩
    obtain ⟨v, hv, rfl⟩ := List.mem_map.mp (List.fst_mem_of_mem_zipIdx hf)
    exact ih v hv (h v hv) _
  | obj members ih =>
    rw [Json.distinctKeys_obj] at h
    simp only [walk, Json.fold_obj, Json.distinctKeys_obj, scrubMembers]
    refine ⟨nodup_keys_assignAll _, fun m hm => ?_⟩
    obtain ⟨_, he, rfl⟩ := List.mem_map.mp (mem_of_mem_assignAll hm)
    obtain ⟨f, hf, rfl⟩ := List.mem_map.mp he
    obtain ⟨n, hn, rfl⟩ := List.mem_map.mp ((perm_ownEntries _).mem_iff.mp hf)
    -- a redacted member is a string, any other one is scrubbed in turn
    simp only
    split
    · simp
    · exact ih n hn (h.2 n hn) _

theorem walk_obj (members : List (Text × Json)) (path : Text) :
    walk (.obj members) path = (.obj (scrubMembers path (mapValues walk members)).1,
      (scrubMembers path (mapValues walk members)).2) := by
  rw [walk, Json.fold_obj]

def scrubAttributes (attributes : Option Object) : Object × List Text :=
  let members := (attributes.getD .empty).members
  (⟨(scrubMembers [] (mapValues walk members)).1, by
    have h := distinctKeys_walk (attributes.getD .empty).distinct []
    rwa [walk_obj] at h⟩, (scrubMembers [] (mapValues walk members)).2)

/-- `canon` of `canonicalize`: sorted keys, copied by assignment. -/
def canon : Json → Json :=
  Json.fold .scalar .arr fun members => .obj (assignAll (sortKeys members))

def member (k : String) (s : Scalar) : Text × Json := (ofString k, .scalar s)

def AuditRecordBody.members (b : AuditRecordBody) : List (Text × Json) :=
  [member "event" (.str b.event), member "actor" (.str b.actor),
    member "actorType" (.str b.actorType.text)] ++
  (b.subject.map fun s => member "subject" (.str s)).toList ++
  (b.decision.map fun d => member "decision" (.str d.text)).toList ++
  [(ofString "attributes", b.attributes.json), member "seq" (.num (.ofInt b.seq)),
    member "timestamp" (.str b.timestamp), member "prevHash" (.str b.prevHash)]

def canonicalize (body : AuditRecordBody) : String :=
  String.ofList (stringify (canon (.obj body.members)))

/-- `hash` is the hex digest of `sha256`, a parameter of everything below. -/
def hashRecord (sha256 : String → String) (body : AuditRecordBody) : String :=
  sha256 (canonicalize body)

/-- `prev ? prev.seq + 1 : 1`. -/
def nextSeq : Option AuditRecord → Int
  | none => 1
  | some prev => number (prev.seq + 1)

def nextPrevHash : Option AuditRecord → String
  | none => GENESIS_HASH
  | some prev => prev.hash

def appendRecord (sha256 : String → String) (prev : Option AuditRecord) (input : AuditRecordInput)
    (timestamp : Text) : AuditRecord :=
  let body : AuditRecordBody :=
    { event := input.event
      actor := input.actor
      actorType := input.actorType
      subject := input.subject
      decision := input.decision
      attributes := (scrubAttributes input.attributes).1.toValue
      seq := nextSeq prev
      timestamp
      prevHash := nextPrevHash prev }
  { body with hash := hashRecord sha256 body }

inductive Reason where
  | hash_mismatch
  | chain_break
  | seq_gap
  | bad_genesis
  deriving DecidableEq

inductive VerifyResult where
  | ok (count : Nat)
  | failed (failedSeq : Int) (reason : Reason)
  deriving DecidableEq

/-- What is wrong with `record` after `prev`, if anything. -/
def recordFailure (sha256 : String → String) (prev : Option AuditRecord) (record : AuditRecord) :
    Option Reason :=
  if record.seq ≠ nextSeq prev then some .seq_gap
  else if record.prevHash ≠ nextPrevHash prev then
    some (if prev.isSome then .chain_break else .bad_genesis)
  else if hashRecord sha256 record.toAuditRecordBody ≠ record.hash then some .hash_mismatch
  else none

/-- The loop of `verifyChain`: the first failure after `prev`. -/
def firstFailure (sha256 : String → String) :
    Option AuditRecord → List AuditRecord → Option (Int × Reason)
  | _, [] => none
  | prev, record :: rest =>
      match recordFailure sha256 prev record with
      | some reason => some (record.seq, reason)
      | none => firstFailure sha256 (some record) rest

def verifyChain (sha256 : String → String) (records : List AuditRecord) : VerifyResult :=
  match firstFailure sha256 none records with
  | some (failedSeq, reason) => .failed failedSeq reason
  | none => .ok records.length

end OpenRupiv.Audit
