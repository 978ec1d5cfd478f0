import OpenRupiv.Audit.Sequence

/-!
# Attributes of stored records

Scrubbing and the `jsonb` column keep an attribute whose name is not suspicious.
-/

namespace OpenRupiv.Audit

open Js

/-- The member of an object value under a key. -/
def memberOf (v : Value) (k : Text) : Option Json :=
  match v.json with
  | .obj members => members.lookup k
  | _ => none

/-- The text of an attribute of a stored record. -/
def AuditRow.attribute (row : AuditRow) (k : String) : Option Text :=
  match memberOf row.attributes (ofString k) with
  | some (.scalar (.str s)) => some s
  | _ => none

private theorem memberOf_sorted (g : Scalar → Scalar) (v : Value) (k : Text) :
    memberOf (v.rebuild g .sorted) k = (memberOf v k).map fun w => w.rebuild g .sorted := by
  obtain ⟨json, hdistinct⟩ := v
  cases json with
  | scalar s => simp [memberOf, Value.rebuild]
  | arr items => simp [memberOf, Value.rebuild]
  | obj ms =>
    rw [Json.distinctKeys_obj] at hdistinct
    show memberOf ⟨Json.rebuild g .sorted (.obj ms), _⟩ k = _
    simp only [memberOf, Json.rebuild_obj]
    rw [lookup_mapValues]
    exact congrArg _ (lookup_perm (perm_sortKeys ms)
      (nodup_keys_perm (perm_sortKeys ms).symm hdistinct.1) k)

/-- A text comes back from a `jsonb` column under its key. -/
theorem memberOf_jsonb {db : Columns} {v w : Value} (h : db.jsonb v = some w) {k s : Text}
    (hv : memberOf v k = some (.scalar (.str s))) : memberOf w k = some (.scalar (.str s)) := by
  have hsame : w.rebuild id .sorted = v.rebuild Scalar.printed .sorted := by
    simp only [Value.rebuild, Value.mk.injEq]
    exact db.jsonb_same h
  have hw := congrArg (fun u => memberOf u k) hsame
  simp only [memberOf_sorted, hv, Option.map_some, Json.rebuild_scalar, Scalar.printed_str] at hw
  obtain ⟨u, hu, hrebuild⟩ := Option.map_eq_some_iff.mp hw
  rw [hu]
  cases u with
  | scalar s' =>
    rw [Json.rebuild_scalar] at hrebuild
    exact congrArg some hrebuild
  | arr items => exact absurd hrebuild (by simp)
  | obj ms => exact absurd hrebuild (by simp [Json.rebuild_obj])

theorem lookup_scrubAttributes {o : Object} {k s : Text} (hk : k ≠ protoKey)
    (hsecret : isSecretKey k = false) (h : o.members.lookup k = some (.scalar (.str s))) :
    (scrubAttributes (some o)).1.members.lookup k = some (.scalar (.str s)) := by
  have hdistinct := (Json.distinctKeys_obj _).mp o.distinct
  apply lookup_of_mem (nodup_keys_assignAll _)
  simp only [Option.getD_some]
  rw [assignAll_eq_filter]
  · apply List.mem_filter.mpr
    refine ⟨?_, by simpa using hk⟩
    have hmem : (k, walk (.scalar (.str s))) ∈ ownEntries (mapValues walk o.members) := by
      rw [(perm_ownEntries _).mem_iff]
      exact List.mem_map_of_mem (mem_of_lookup h)
    apply List.mem_map.mpr
    refine ⟨_, List.mem_map_of_mem hmem, ?_⟩
    simp [hsecret, walk]
  · -- the entries have the keys of the object
    have hkeys : (keysOf (ownEntries (mapValues walk o.members))).Nodup := by
      apply nodup_keys_perm (perm_ownEntries _).symm
      rw [keysOf_mapValues]
      exact hdistinct.1
    rw [keysOf_mapValues]
    convert hkeys using 1
    unfold keysOf
    rw [List.map_map]
    apply List.map_congr_left
    intro m _
    by_cases hm : isSecretKey m.1 = true
    · simp [hm]
    · simp [hm]

private theorem textColumn_ofString {s : String} {t : Text} (h : textColumn (ofString s) = some t) :
    t = ofString s := by
  unfold textColumn at h
  split at h
  · exact absurd h (by simp)
  · rw [← Option.some.inj h, toWellFormed_ofString]

variable {db : Columns} {sha256 : String → String} {rows : List AuditRow} {row : AuditRow}
  {input : AuditRecordInput} {now : Rfc3339}

/-- What the row of an append shows of its input. -/
structure Shows (row : AuditRow) (input : AuditRecordInput) : Prop where
  event : ∀ s, input.event = ofString s → row.event = ofString s
  actor : ∀ s, input.actor = ofString s → row.actor = ofString s
  actor_type : row.actor_type = input.actorType
  subject : ∀ s, input.subject = some (ofString s) → row.subject = some (ofString s)
  decision : row.decision = input.decision
  attributes : ∀ o k s, input.attributes = some o → ofString k ≠ protoKey →
    isSecretKey (ofString k) = false → o.members.lookup (ofString k) = some (.scalar (.str s)) →
    row.attribute k = some s

theorem shows_of_rowOf {tail : Option AuditRecord}
    (hrow : RowOf db (appendRecord sha256 tail
      { input with attributes := some (scrubAttributes input.attributes).1 } now.text) now row) :
    Shows row input := by
  constructor
  · intro s hs
    have hevent := hrow.event
    rw [appendRecord, hs] at hevent
    exact textColumn_ofString hevent
  · intro s hs
    have hactor := hrow.actor
    rw [appendRecord, hs] at hactor
    exact textColumn_ofString hactor
  · exact hrow.actor_type
  · intro s hs
    have hsubject := hrow.subject
    rw [appendRecord, hs] at hsubject
    obtain ⟨t, ht, heq⟩ := Option.map_eq_some_iff.mp hsubject
    rw [← heq, textColumn_ofString ht]
  · exact hrow.decision
  · intro o k s ho hk hsecret hlookup
    have hscrub := lookup_scrubAttributes hk hsecret
      (lookup_scrubAttributes hk hsecret hlookup)
    rw [← ho] at hscrub
    have hmember := memberOf_jsonb hrow.attributes (k := ofString k) (s := s) hscrub
    rw [AuditRow.attribute, hmember]

theorem shows_of_append
    (h : appendInTransaction db sha256 rows input now = some (rows ++ [row])) :
    Shows row input := by
  obtain ⟨row', heq, hrow, -⟩ := appendInTransaction_eq_some h
  obtain rfl : row = row' := List.head_eq_of_cons_eq (List.append_cancel_left heq)
  exact shows_of_rowOf hrow

end OpenRupiv.Audit
