import OpenRupiv.Audit.Chain

/-!
# What the canonical text determines

`canon` copies objects by assignment, so an own `__proto__` member is lost, and `JSON.stringify`
prints infinities as `null`.  Up to these two, to the order of members and to the sign of zero,
the canonical text determines the body it is taken over.
-/

namespace OpenRupiv.Audit

open Js

/-- The member names that assignment keeps. -/
def plainKeys : Layout := .keep fun k => k ≠ protoKey

/-- The value behind a canonical text. -/
def normalForm : Json → Json := Json.rebuild Scalar.printed (Layout.sorted.comp plainKeys)

private theorem canon_eq_rebuild (v : Json) :
    canon v = v.rebuild id (Layout.assigned.comp Layout.sorted) := rfl

/-- On distinct keys the assignments of `canon` drop `__proto__` and change nothing else. -/
private theorem assigned_sorted {ms : List (Text × Json)} (h : (keysOf ms).Nodup) :
    assignAll (sortKeys ms) = sortKeys (ms.filter fun m => m.1 ≠ protoKey) := by
  rw [assignAll_eq_filter (nodup_keys_perm (perm_sortKeys ms).symm h)]
  have hperm : ((sortKeys ms).filter fun m => m.1 ≠ protoKey).Perm
      (sortKeys (ms.filter fun m => m.1 ≠ protoKey)) :=
    ((perm_sortKeys ms).filter _).trans (perm_sortKeys _).symm
  apply hperm.eq_of_pairwise _ ((pairwise_sortKeys ms).filter _) (pairwise_sortKeys _)
  intro m n hm hn hle hge
  have hm' : m ∈ ms := (perm_sortKeys ms).mem_iff.mp (List.mem_of_mem_filter hm)
  have hn' : n ∈ ms := List.mem_of_mem_filter ((perm_sortKeys _).mem_iff.mp hn)
  exact eq_of_mem_of_key_eq h hm' hn' (leUnits_antisymm hle hge)

theorem canon_eq {v : Json} (hv : v.distinctKeys = true) :
    canon v = v.rebuild id (Layout.sorted.comp plainKeys) := by
  rw [canon_eq_rebuild]
  apply Json.rebuild_congr hv
  · intro s
    rfl
  · intro ms hms
    exact assigned_sorted hms

theorem stringify_canon_eq_iff {v w : Json} (hv : v.distinctKeys = true)
    (hw : w.distinctKeys = true) :
    stringify (canon v) = stringify (canon w) ↔ normalForm v = normalForm w := by
  rw [canon_eq hv, canon_eq hw]
  constructor
  · intro h
    have key : ∀ {v : Json}, v.distinctKeys = true →
        (v.rebuild id (Layout.sorted.comp plainKeys)).rebuild Scalar.printed .sorted =
          normalForm v := by
      intro v hv
      rw [Json.rebuild_rebuild]
      apply Json.rebuild_congr hv
      · intro s
        rfl
      · intro ms hms
        exact sortKeys_eq_of_perm (perm_sortKeys _)
          (nodup_keys_perm (perm_sortKeys _).symm (nodup_keys_filter _ hms))
    rw [← key hv, ← key hw]
    exact stringify_injective (Json.distinctKeys_rebuild hv) (Json.distinctKeys_rebuild hw) h
  · intro h
    have key : ∀ v : Json,
        (v.rebuild id (Layout.sorted.comp plainKeys)).rebuild Scalar.printed .own =
          (normalForm v).rebuild id .own := by
      intro v
      rw [normalForm, Json.rebuild_rebuild, Json.rebuild_rebuild]
      rfl
    apply stringify_congr
    rw [key v, key w, h]

theorem normalForm_obj (ms : List (Text × Json)) :
    normalForm (.obj ms) =
      .obj (sortKeys ((mapValues normalForm ms).filter fun m => m.1 ≠ protoKey)) := by
  rw [normalForm, Json.rebuild_obj, ← Layout.natural]
  rfl

private theorem mem_of_normalForm_eq {ms ns : List (Text × Json)}
    (h : normalForm (.obj ms) = normalForm (.obj ns)) {k : Text} (hk : k ≠ protoKey) {v : Json}
    (hm : (k, v) ∈ ms) : ∃ w, (k, w) ∈ ns ∧ normalForm w = normalForm v := by
  rw [normalForm_obj, normalForm_obj, Json.obj.injEq] at h
  have hmem : (k, normalForm v) ∈ (mapValues normalForm ms).filter fun m => m.1 ≠ protoKey := by
    rw [List.mem_filter]
    exact ⟨List.mem_map_of_mem hm, by simpa using hk⟩
  rw [← (perm_sortKeys _).mem_iff, h, (perm_sortKeys _).mem_iff] at hmem
  obtain ⟨⟨k', w⟩, hw, heq⟩ := List.mem_map.mp (List.mem_of_mem_filter hmem)
  obtain ⟨rfl, hv⟩ := Prod.mk.inj heq
  exact ⟨w, hw, hv⟩

/-- Objects with one normal form have the same normal value under every key that is kept. -/
theorem lookup_of_normalForm_eq {ms ns : List (Text × Json)}
    (hms : (Json.obj ms).distinctKeys = true) (hns : (Json.obj ns).distinctKeys = true)
    (h : normalForm (.obj ms) = normalForm (.obj ns)) {k : Text} (hk : k ≠ protoKey) :
    (ms.lookup k).map normalForm = (ns.lookup k).map normalForm := by
  rw [Json.distinctKeys_obj] at hms hns
  have key : ∀ {ms ns : List (Text × Json)}, (keysOf ns).Nodup →
      normalForm (.obj ms) = normalForm (.obj ns) → ∀ x, (ms.lookup k).map normalForm = some x →
        (ns.lookup k).map normalForm = some x := by
    intro ms ns hns h x hx
    obtain ⟨v, hv, rfl⟩ := Option.map_eq_some_iff.mp hx
    obtain ⟨w, hw, hwv⟩ := mem_of_normalForm_eq h hk (mem_of_lookup hv)
    rw [lookup_of_mem hns hw, Option.map_some, hwv]
  apply Option.ext
  intro x
  exact ⟨key hns.1 h x, key hms.1 h.symm x⟩

@[simp] theorem normalForm_scalar (s : Scalar) : normalForm (.scalar s) = .scalar s.printed := by
  simp [normalForm]

private theorem mem_members {b : AuditRecordBody} {m : Text × Json} (h : m ∈ b.members) :
    (∃ s, m.2 = .scalar s) ∨ m.2 = b.attributes.json := by
  cases hs : b.subject <;> cases hd : b.decision <;>
    simp only [AuditRecordBody.members, member, hs, hd, Option.map_none, Option.map_some,
      Option.toList_none, Option.toList_some, List.append_nil, List.mem_append, List.mem_cons,
      List.not_mem_nil, or_false] at h <;>
    grind

theorem AuditRecordBody.distinctKeys_members (b : AuditRecordBody) :
    (Json.obj b.members).distinctKeys = true := by
  rw [Json.distinctKeys_obj]
  constructor
  · cases hs : b.subject <;> cases hd : b.decision <;>
      simp [AuditRecordBody.members, member, keysOf, hs, hd]
  · intro m hm
    cases mem_members hm with
    | inl h =>
      obtain ⟨s, hs⟩ := h
      simp [hs]
    | inr h =>
      rw [h]
      exact b.attributes.distinct

private theorem lookup_members (b : AuditRecordBody) (k : String) :
    b.members.lookup (ofString k) =
      if k = "event" then some (.scalar (.str b.event))
      else if k = "actor" then some (.scalar (.str b.actor))
      else if k = "actorType" then some (.scalar (.str b.actorType.text))
      else if k = "subject" then b.subject.map fun s => .scalar (.str s)
      else if k = "decision" then b.decision.map fun d => .scalar (.str d.text)
      else if k = "attributes" then some b.attributes.json
      else if k = "seq" then some (.scalar (.num (.ofInt b.seq)))
      else if k = "timestamp" then some (.scalar (.str b.timestamp))
      else if k = "prevHash" then some (.scalar (.str b.prevHash))
      else none := by
  have hcons : ∀ (k' : String) (v : Json) (ms : List (Text × Json)),
      List.lookup (ofString k) ((ofString k', v) :: ms) =
        if k = k' then some v else ms.lookup (ofString k) := by
    intro k' v ms
    by_cases h : k = k'
    · simp [h]
    · have hne : (ofString k == ofString k') = false := by simp [h]
      simp [List.lookup_cons, hne, h]
  cases hs : b.subject <;> cases hd : b.decision <;>
    simp only [AuditRecordBody.members, member, hs, hd, Option.map_none, Option.map_some,
      Option.toList_none, Option.toList_some, List.append_nil, List.cons_append, List.nil_append,
      hcons, List.lookup_nil]
  all_goals grind

/-- A body is determined by its canonical text up to the normal form of the attributes. -/
theorem canonicalize_eq_iff (b b' : AuditRecordBody) :
    canonicalize b = canonicalize b' ↔
      { b with attributes := b'.attributes } = b' ∧
        normalForm b.attributes.json = normalForm b'.attributes.json := by
  rw [canonicalize, canonicalize, String.ofList_inj,
    stringify_canon_eq_iff b.distinctKeys_members b'.distinctKeys_members]
  constructor
  · intro h
    have field : ∀ k : String, ofString k ≠ protoKey →
        (b.members.lookup (ofString k)).map normalForm =
          (b'.members.lookup (ofString k)).map normalForm := fun k hk =>
      lookup_of_normalForm_eq b.distinctKeys_members b'.distinctKeys_members h hk
    have hevent := field "event" (by decide)
    have hactor := field "actor" (by decide)
    have hactorType := field "actorType" (by decide)
    have hsubject := field "subject" (by decide)
    have hdecision := field "decision" (by decide)
    have hattributes := field "attributes" (by decide)
    have hseq := field "seq" (by decide)
    have htimestamp := field "timestamp" (by decide)
    have hprevHash := field "prevHash" (by decide)
    simp [lookup_members] at hevent hactor hactorType hsubject hdecision
    simp [lookup_members] at hattributes hseq htimestamp hprevHash
    have hseq' : b.seq = b'.seq := Num.ofInt_injective hseq
    have hactorType' : b.actorType = b'.actorType := by
      cases h : b.actorType <;> cases h' : b'.actorType <;> simp_all [ActorType.text]
    have hsubject' : b.subject = b'.subject := by
      apply Option.map_injective _ hsubject
      intro s t hst
      simpa using hst
    have hdecision' : b.decision = b'.decision := by
      apply Option.map_injective _ hdecision
      intro d e hde
      cases d <;> cases e <;> simp_all [Decision.text]
    refine ⟨?_, hattributes⟩
    cases b
    cases b'
    simp_all
  · rintro ⟨hb, hattr⟩
    rw [normalForm_obj, normalForm_obj]
    have hmembers : mapValues normalForm b.members = mapValues normalForm b'.members := by
      rw [← hb]
      simp only [AuditRecordBody.members, mapValues_append, mapValues_cons, hattr]
    rw [hmembers]

end OpenRupiv.Audit
