import OpenRupiv.Audit.Sequence
import OpenRupiv.Js.Redaction

/-!
# Secrets in attributes

Which secrets the scrubbing of `packages/audit/src/chain.ts` keeps out of a stored record, and what
else it changes, measured by the pattern of the contract (`specs/phase-2-contracts.md`).
-/

namespace OpenRupiv.Audit

open Js

/-- `/pass|secret|token|authorization|cookie|key/i`, the pattern of the contract. -/
def isContractKey (k : Text) : Bool :=
  let s := k.map foldCase
  ["pass", "secret", "token", "authorization", "cookie", "key"].any fun w =>
    containsText (ofString w) s

theorem containsText_iff {word s : Text} : containsText word s = true ↔ word <:+: s := by
  rw [containsText, List.any_eq_true]
  constructor
  · intro h
    obtain ⟨t, ht, hword⟩ := h
    rw [List.mem_tails] at ht
    exact (List.isPrefixOf_iff_prefix.mp hword).isInfix.trans ht.isInfix
  · intro h
    obtain ⟨before, after, rfl⟩ := h
    refine ⟨word ++ after, ?_, List.isPrefixOf_iff_prefix.mpr (List.prefix_append _ _)⟩
    rw [List.mem_tails, List.append_assoc]
    exact List.suffix_append _ _

theorem containsText_of_containsKeyWord {before : Bool} {s : Text}
    (h : containsKeyWord before s = true) : containsText (ofString "key") s = true := by
  rw [containsText_iff]
  induction s generalizing before with
  | nil => exact absurd h (by simp [containsKeyWord])
  | cons u rest ih =>
    rw [containsKeyWord, Bool.or_eq_true, Bool.and_eq_true, Bool.and_eq_true] at h
    rcases h with h | h
    · exact (List.isPrefixOf_iff_prefix.mp h.1.2).isInfix
    · exact (ih h).trans (List.suffix_cons u rest).isInfix

theorem isContractKey_of_isSecretKey {k : Text} (h : isSecretKey k = true) :
    isContractKey k = true := by
  -- every alternative of the code contains one of the contract
  have hcovered : ∀ w ∈ ["pass", "secret", "token", "authorization", "cookie", "apikey", "api_key"],
      ∃ w' ∈ ["pass", "secret", "token", "authorization", "cookie", "key"],
        ofString w' <:+: ofString w := by
    intro w hw
    simp only [List.mem_cons, List.not_mem_nil, or_false] at hw
    rcases hw with rfl | rfl | rfl | rfl | rfl | rfl | rfl
    iterate 5 exact ⟨_, by simp, List.infix_rfl⟩
    · exact ⟨"key", by simp, ofString "api", [], rfl⟩
    · exact ⟨"key", by simp, ofString "api_", [], rfl⟩
  unfold isContractKey
  unfold isSecretKey at h
  dsimp only at h ⊢
  rw [List.any_eq_true]
  rcases Bool.or_eq_true_iff.mp h with h | h
  · obtain ⟨w, hw, hcontains⟩ := List.any_eq_true.mp h
    obtain ⟨w', hw', hpart⟩ := hcovered w hw
    exact ⟨w', hw', containsText_iff.mpr (hpart.trans (containsText_iff.mp hcontains))⟩
  · exact ⟨"key", by simp, containsText_of_containsKeyWord h⟩

/-- The attributes of an input as a tree, `{}` when there are none. -/
def AuditRecordInput.tree (input : AuditRecordInput) : Value :=
  (input.attributes.getD .empty).toValue

/-- The inputs differ at most in attributes under keys of the contract. -/
structure AgreeOutsideSecrets (input other : AuditRecordInput) : Prop where
  rest : { input with attributes := none } = { other with attributes := none }
  attributes : Json.AgreesOutside isContractKey input.tree.json other.tree.json

/-- The tree of `walk`, which does not depend on the path. -/
def scrub (v : Json) : Json := (walk v []).1

def redacted : Json := .scalar (.str REDACTED)

/-- The copy of a member. -/
def scrubEntry (k : Text) (v : Json) : Json := if isSecretKey k then redacted else scrub v

private theorem walk_arr_fst {items : List Json} {path : Text}
    (h : ∀ v ∈ items, ∀ path, (walk v path).1 = scrub v) :
    (walk (.arr items) path).1 = .arr (items.map scrub) := by
  have hitems : ∀ n, (((items.map walk).zipIdx n).map (scrubItem path)).map Prod.fst =
      items.map scrub := by
    induction items with
    | nil => simp
    | cons v items ih =>
      intro n
      have hrest := ih (fun w hw => h w (List.mem_cons_of_mem v hw)) (n + 1)
      simp only [List.map_cons, List.zipIdx_cons, scrubItem, h v List.mem_cons_self, hrest]
  rw [walk, Json.fold_arr]
  exact congrArg Json.arr (hitems 0)

private theorem walk_obj_fst {ms : List (Text × Json)} {path : Text}
    (h : ∀ m ∈ ms, ∀ path, (walk m.2 path).1 = scrub m.2) :
    (walk (.obj ms) path).1 = .obj (assignAll (mapEntries scrubEntry (ownEntries ms))) := by
  rw [walk_obj]
  unfold scrubMembers
  rw [ownEntries_mapValues]
  refine congrArg (fun ms => Json.obj (assignAll ms)) ?_
  simp only [mapValues, mapEntries, List.map_map]
  apply List.map_congr_left
  intro m hm
  have hwalk := h m ((perm_ownEntries ms).mem_iff.mp hm)
  simp only [Function.comp_apply, scrubEntry]
  split
  · rfl
  · simp [hwalk]

theorem walk_fst (v : Json) (path : Text) : (walk v path).1 = scrub v := by
  induction v using Json.induct generalizing path with
  | scalar s => simp [scrub, walk]
  | arr items ih => rw [scrub, walk_arr_fst ih, walk_arr_fst ih]
  | obj ms ih => rw [scrub, walk_obj_fst ih, walk_obj_fst ih]

@[simp] theorem scrub_scalar (s : Scalar) : scrub (.scalar s) = .scalar s := by
  simp [scrub, walk]

@[simp] theorem scrub_arr (items : List Json) : scrub (.arr items) = .arr (items.map scrub) :=
  walk_arr_fst fun v _ => walk_fst v

/-- The members in the order in which they are enumerated, `__proto__` lost. -/
theorem scrub_obj {ms : List (Text × Json)} (h : (keysOf ms).Nodup) : scrub (.obj ms) =
    .obj (mapEntries scrubEntry ((ownEntries ms).filter fun m => m.1 ≠ protoKey)) := by
  have hnodup : (keysOf (mapEntries scrubEntry (ownEntries ms))).Nodup := by
    rw [keysOf_mapEntries]
    exact nodup_keys_perm (perm_ownEntries ms).symm h
  have hscrub : scrub (.obj ms) = .obj (assignAll (mapEntries scrubEntry (ownEntries ms))) :=
    walk_obj_fst fun m _ => walk_fst m.2
  rw [hscrub, assignAll_eq_filter hnodup, mapEntries_filter scrubEntry fun k => k ≠ protoKey]

theorem scrubEntry_scrubEntry {k : Text} {v : Json} (h : scrub (scrub v) = scrub v) :
    scrubEntry k (scrubEntry k v) = scrubEntry k v := by
  unfold scrubEntry
  split
  · rfl
  · exact h

theorem scrub_scrub {v : Json} (hv : v.distinctKeys = true) : scrub (scrub v) = scrub v := by
  induction v using Json.induct with
  | scalar s => simp
  | arr items ih =>
    rw [Json.distinctKeys_arr] at hv
    simp only [scrub_arr, List.map_map]
    exact congrArg Json.arr (List.map_congr_left fun v hmem => ih v hmem (hv v hmem))
  | obj ms ih =>
    rw [Json.distinctKeys_obj] at hv
    have hkept : (keysOf ((ownEntries ms).filter fun m => m.1 ≠ protoKey)).Nodup :=
      nodup_keys_filter _ (nodup_keys_perm (perm_ownEntries ms).symm hv.1)
    rw [scrub_obj hv.1, scrub_obj (by rwa [keysOf_mapEntries]), ownEntries_mapEntries,
      ownEntries_filter_ownEntries fun k => k ≠ protoKey, mapEntries_filter scrubEntry
      fun k => k ≠ protoKey, List.filter_filter, mapEntries_mapEntries]
    simp only [Bool.and_self]
    refine congrArg Json.obj (mapEntries_congr fun m hm => ?_)
    have hmem : m ∈ ms := (perm_ownEntries ms).mem_iff.mp (List.mem_of_mem_filter hm)
    exact scrubEntry_scrubEntry (ih m hmem (hv.2 m hmem))

/-- What the contract promises of an input. -/
structure SecretsKeptOut (input : AuditRecordInput) : Prop where
  hidden : ∀ other, AgreeOutsideSecrets input other → ∀ sha256 rows now,
    recordFor sha256 rows other now = recordFor sha256 rows input now ∧
      ∀ db, appendInTransaction db sha256 rows other now =
        appendInTransaction db sha256 rows input now
  unchanged : ∀ sha256 rows now, Json.SameOutside isContractKey
    (recordFor sha256 rows input now).attributes.json input.tree.json
  settled : (scrubAttributes (some (scrubAttributes input.attributes).1)).1 =
    (scrubAttributes input.attributes).1

/-- All keys of the attributes, those in values under keys of the contract left out. -/
def AuditRecordInput.keys (input : AuditRecordInput) : List Text :=
  input.tree.json.keysOutside isContractKey

/-- The code takes for a secret what the contract does, as far as it looks. -/
def Covered (v : Json) : Prop :=
  ∀ k ∈ v.keysOutside isContractKey, isContractKey k = true → isSecretKey k = true

theorem scrubEntry_of_not_isContractKey {k : Text} (h : isContractKey k = false) (v : Json) :
    scrubEntry k v = scrub v := by
  have hsecret : isSecretKey k ≠ true := fun hk => by simp [isContractKey_of_isSecretKey hk] at h
  rw [scrubEntry, if_neg hsecret]

private theorem covered_of_arr {items : List Json} (h : Covered (.arr items)) {v : Json}
    (hv : v ∈ items) : Covered v :=
  fun k hk => h k (Json.mem_keysOutside_arr.mpr ⟨v, hv, hk⟩)

private theorem covered_of_obj {ms : List (Text × Json)} (h : Covered (.obj ms))
    {m : Text × Json} (hm : m ∈ ms) (hp : isContractKey m.1 = false) : Covered m.2 :=
  fun k hk => h k (Json.mem_keysOutside_obj.mpr ⟨m, hm, .inr ⟨hp, hk⟩⟩)

/-- The scrubbed tree when `c` is put in place of each value under a key of the contract. -/
private theorem scrub_replaceUnder_obj (c : Json) {ms : List (Text × Json)}
    (h : (keysOf ms).Nodup) : scrub (Json.replaceUnder isContractKey c (.obj ms)) =
      .obj (mapEntries
        (fun k v =>
          scrubEntry k (if isContractKey k then c else Json.replaceUnder isContractKey c v))
        ((ownEntries ms).filter fun m => m.1 ≠ protoKey)) := by
  rw [Json.replaceUnder_obj, scrub_obj (by rwa [keysOf_mapEntries]), ownEntries_mapEntries,
    mapEntries_filter _ fun k => k ≠ protoKey, mapEntries_mapEntries]

theorem scrub_replaceUnder (c : Json) {v : Json} (hv : v.distinctKeys = true)
    (hcovered : Covered v) : scrub (Json.replaceUnder isContractKey c v) = scrub v := by
  induction v using Json.induct with
  | scalar s => simp
  | arr items ih =>
    rw [Json.distinctKeys_arr] at hv
    simp only [Json.replaceUnder_arr, scrub_arr, List.map_map]
    exact congrArg Json.arr (List.map_congr_left fun w hw =>
      ih w hw (hv w hw) (covered_of_arr hcovered hw))
  | obj ms ih =>
    rw [Json.distinctKeys_obj] at hv
    rw [scrub_replaceUnder_obj c hv.1, scrub_obj hv.1]
    refine congrArg Json.obj (mapEntries_congr fun m hm => ?_)
    have hmem : m ∈ ms := (perm_ownEntries ms).mem_iff.mp (List.mem_of_mem_filter hm)
    cases hp : isContractKey m.1 with
    | true =>
      have hsecret := hcovered m.1 (Json.mem_keysOutside_obj.mpr ⟨m, hmem, .inl rfl⟩) hp
      simp [scrubEntry, hsecret]
    | false =>
      rw [if_neg Bool.false_ne_true, scrubEntry_of_not_isContractKey hp,
        scrubEntry_of_not_isContractKey hp]
      exact ih m hmem (hv.2 m hmem) (covered_of_obj hcovered hmem hp)

theorem covered_of_scrub_eq {v : Json} (hv : v.distinctKeys = true)
    (hproto : protoKey ∉ v.keysOutside isContractKey)
    (h : scrub (Json.replaceUnder isContractKey (.scalar .null) v) =
      scrub (Json.replaceUnder isContractKey (.scalar (.bool true)) v)) : Covered v := by
  induction v using Json.induct with
  | scalar s =>
    intro k hk
    exact absurd hk (by simp)
  | arr items ih =>
    rw [Json.distinctKeys_arr] at hv
    simp only [Json.replaceUnder_arr, scrub_arr, List.map_map] at h
    have hitems := List.map_inj_left.mp (Json.arr.inj h)
    intro k hk
    obtain ⟨w, hw, hkw⟩ := Json.mem_keysOutside_arr.mp hk
    exact ih w hw (hv w hw) (fun hp => hproto (Json.mem_keysOutside_arr.mpr ⟨w, hw, hp⟩))
      (hitems w hw) k hkw
  | obj ms ih =>
    rw [Json.distinctKeys_obj] at hv
    rw [scrub_replaceUnder_obj _ hv.1, scrub_replaceUnder_obj _ hv.1] at h
    have hentries := List.map_inj_left.mp (Json.obj.inj h)
    intro k hk
    obtain ⟨m, hm, hkm⟩ := Json.mem_keysOutside_obj.mp hk
    have hkept : m ∈ (ownEntries ms).filter fun m => m.1 ≠ protoKey := by
      refine List.mem_filter.mpr ⟨(perm_ownEntries ms).mem_iff.mpr hm, ?_⟩
      have hne : m.1 ≠ protoKey := fun heq =>
        hproto (Json.mem_keysOutside_obj.mpr ⟨m, hm, .inl heq.symm⟩)
      simpa using hne
    have hentry := (Prod.mk.inj (hentries m hkept)).2
    rcases hkm with rfl | ⟨hp, hkm⟩
    · intro hp
      -- were it not redacted, the member would show what was put in
      by_contra hsecret
      simp [scrubEntry, hp, hsecret] at hentry
    · dsimp only at hentry
      rw [hp, if_neg Bool.false_ne_true, if_neg Bool.false_ne_true,
        scrubEntry_of_not_isContractKey hp, scrubEntry_of_not_isContractKey hp] at hentry
      exact ih m hm (hv.2 m hm) (fun hin =>
        hproto (Json.mem_keysOutside_obj.mpr ⟨m, hm, .inr ⟨hp, hin⟩⟩)) hentry k hkm

private theorem outside_scrub_obj {ms : List (Text × Json)} (h : (keysOf ms).Nodup) :
    (scrub (.obj ms)).outside isContractKey =
      .obj (sortKeys (mapEntries
        (fun k v => if isContractKey k then .scalar .null else (scrub v).outside isContractKey)
        ((ownEntries ms).filter fun m => m.1 ≠ protoKey))) := by
  rw [scrub_obj h, Json.outside_obj, mapEntries_mapEntries]
  congr 2
  refine mapEntries_congr fun m _ => ?_
  cases hp : isContractKey m.1 with
  | true => rfl
  | false => rw [scrubEntry_of_not_isContractKey hp]

/-- Nothing else is changed, unless it stands under `__proto__`. -/
theorem sameOutside_scrub {v : Json} (hv : v.distinctKeys = true)
    (hproto : protoKey ∉ v.keysOutside isContractKey) :
    Json.SameOutside isContractKey (scrub v) v := by
  unfold Json.SameOutside
  induction v using Json.induct with
  | scalar s => simp
  | arr items ih =>
    rw [Json.distinctKeys_arr] at hv
    simp only [scrub_arr, Json.outside_arr, List.map_map]
    exact congrArg Json.arr (List.map_congr_left fun w hw => ih w hw (hv w hw) fun hin =>
      hproto (Json.mem_keysOutside_arr.mpr ⟨w, hw, hin⟩))
  | obj ms ih =>
    rw [Json.distinctKeys_obj] at hv
    have hkept : (ownEntries ms).filter (fun m => m.1 ≠ protoKey) = ownEntries ms := by
      refine List.filter_eq_self.mpr fun m hm => ?_
      have hne : m.1 ≠ protoKey := fun heq => hproto (Json.mem_keysOutside_obj.mpr
        ⟨m, (perm_ownEntries ms).mem_iff.mp hm, .inl heq.symm⟩)
      simpa using hne
    have hentries : mapEntries (fun k v => if isContractKey k then .scalar .null
          else (scrub v).outside isContractKey) ms =
        mapEntries (fun k v => if isContractKey k then .scalar .null
          else v.outside isContractKey) ms := by
      refine mapEntries_congr fun m hm => ?_
      cases hp : isContractKey m.1 with
      | true => rfl
      | false =>
        exact ih m hm (hv.2 m hm) fun hin =>
          hproto (Json.mem_keysOutside_obj.mpr ⟨m, hm, .inr ⟨hp, hin⟩⟩)
    rw [outside_scrub_obj hv.1, hkept, Json.outside_obj, ← hentries]
    refine congrArg Json.obj (sortKeys_eq_of_perm ((perm_ownEntries ms).map _) ?_)
    rw [keysOf_mapEntries]
    exact nodup_keys_perm (perm_ownEntries ms).symm hv.1

theorem protoKey_notMem_of_sameOutside {v : Json} (hv : v.distinctKeys = true)
    (h : Json.SameOutside isContractKey (scrub v) v) :
    protoKey ∉ v.keysOutside isContractKey := by
  unfold Json.SameOutside at h
  induction v using Json.induct with
  | scalar s => simp
  | arr items ih =>
    rw [Json.distinctKeys_arr] at hv
    simp only [scrub_arr, Json.outside_arr, List.map_map] at h
    have hitems := List.map_inj_left.mp (Json.arr.inj h)
    intro hin
    obtain ⟨w, hw, hin⟩ := Json.mem_keysOutside_arr.mp hin
    exact ih w hw (hv w hw) (hitems w hw) hin
  | obj ms ih =>
    rw [Json.distinctKeys_obj] at hv
    rw [outside_scrub_obj hv.1, Json.outside_obj] at h
    have hperm := ((perm_sortKeys _).symm.trans (.of_eq (Json.obj.inj h))).trans (perm_sortKeys _)
    intro hin
    obtain ⟨m, hm, hin⟩ := Json.mem_keysOutside_obj.mp hin
    -- the member has a counterpart among those that were kept
    obtain ⟨n, hn, heq⟩ := List.mem_map.mp (hperm.mem_iff.mpr (List.mem_map_of_mem hm))
    obtain ⟨hkey, hvalue⟩ := Prod.mk.inj heq
    obtain ⟨hown, hne⟩ := List.mem_filter.mp hn
    obtain rfl : n = m := eq_of_mem_of_key_eq hv.1 ((perm_ownEntries ms).mem_iff.mp hown) hm hkey
    rcases hin with hproto | ⟨hp, hin⟩
    · exact absurd hproto.symm (by simpa using hne)
    · dsimp only at hvalue
      rw [hp, if_neg Bool.false_ne_true, if_neg Bool.false_ne_true] at hvalue
      exact ih n hm (hv.2 n hm) hvalue hin

private theorem eq_of_members {a b : Object} (h : a.members = b.members) : a = b := by
  cases a
  cases b
  cases h
  rfl

theorem obj_scrubAttributes (attributes : Option Object) :
    .obj (scrubAttributes attributes).1.members =
      scrub (.obj (attributes.getD .empty).members) := by
  rw [scrub, walk_obj]
  rfl

theorem scrubAttributes_scrubAttributes (attributes : Option Object) :
    (scrubAttributes (some (scrubAttributes attributes).1)).1 = (scrubAttributes attributes).1 := by
  have hmembers : (scrubAttributes (some (scrubAttributes attributes).1)).1.members =
      (scrubAttributes attributes).1.members := by
    apply Json.obj.inj
    rw [obj_scrubAttributes, Option.getD_some, obj_scrubAttributes]
    exact scrub_scrub (attributes.getD .empty).distinct
  exact eq_of_members hmembers

theorem json_recordFor (sha256 : String → String) (rows : List AuditRow)
    (input : AuditRecordInput) (now : Rfc3339) :
    (recordFor sha256 rows input now).attributes.json = scrub input.tree.json := by
  have hattributes : (recordFor sha256 rows input now).attributes =
      (scrubAttributes (some (scrubAttributes input.attributes).1)).1.toValue := rfl
  rw [hattributes, scrubAttributes_scrubAttributes]
  exact obj_scrubAttributes input.attributes

theorem recordFor_congr {input other : AuditRecordInput}
    (hrest : { input with attributes := none } = { other with attributes := none })
    (htree : scrub other.tree.json = scrub input.tree.json) (sha256 : String → String)
    (rows : List AuditRow) (now : Rfc3339) :
    recordFor sha256 rows other now = recordFor sha256 rows input now := by
  have hscrubbed : (scrubAttributes other.attributes).1 = (scrubAttributes input.attributes).1 := by
    have hmembers : (scrubAttributes other.attributes).1.members =
        (scrubAttributes input.attributes).1.members := by
      apply Json.obj.inj
      rw [obj_scrubAttributes, obj_scrubAttributes]
      exact htree
    exact eq_of_members hmembers
  have hinput : { other with attributes := some (scrubAttributes other.attributes).1 } =
      { input with attributes := some (scrubAttributes input.attributes).1 } := by
    rw [hscrubbed]
    exact congrArg (fun i : AuditRecordInput =>
      { i with attributes := some (scrubAttributes input.attributes).1 }) hrest.symm
  rw [recordFor, recordFor, hinput]

theorem appendInTransaction_congr {input other : AuditRecordInput} {sha256 : String → String}
    {rows : List AuditRow} {now : Rfc3339}
    (h : recordFor sha256 rows other now = recordFor sha256 rows input now) (db : Columns) :
    appendInTransaction db sha256 rows other now = appendInTransaction db sha256 rows input now :=
  congrArg (fun record => (columnsOf db record now).bind (insertRow rows)) h

/-- The input with a scalar in place of each attribute under a key of the contract. -/
def AuditRecordInput.replaceSecrets (s : Scalar) (input : AuditRecordInput) : AuditRecordInput :=
  { input with attributes := input.attributes.map (Object.replaceUnder isContractKey s) }

theorem tree_replaceSecrets (s : Scalar) (input : AuditRecordInput) :
    (input.replaceSecrets s).tree.json =
      Json.replaceUnder isContractKey (.scalar s) input.tree.json := by
  obtain ⟨event, actor, actorType, subject, decision, attributes⟩ := input
  cases attributes with
  | none => exact (Json.replaceUnder_obj []).symm
  | some o => exact Object.obj_replaceUnder isContractKey s o

theorem agreeOutsideSecrets_replaceSecrets (s : Scalar) (input : AuditRecordInput) :
    AgreeOutsideSecrets input (input.replaceSecrets s) := by
  refine ⟨rfl, ?_⟩
  rw [Json.AgreesOutside, tree_replaceSecrets, Json.replaceUnder_replaceUnder]

/-- The promise is kept as long as the code takes for a secret what the contract does and no
attribute is named `__proto__`. -/
theorem secretsKeptOut_iff (input : AuditRecordInput) : SecretsKeptOut input ↔
    (∀ k ∈ input.keys, isContractKey k = true → isSecretKey k = true) ∧ protoKey ∉ input.keys := by
  have hdistinct := input.tree.distinct
  have clock : Rfc3339 := .newYear 2026 Rfc3339.year2026_le
  constructor
  · intro h
    have hproto : protoKey ∉ input.keys := by
      have hsame := h.unchanged id [] clock
      rw [json_recordFor] at hsame
      exact protoKey_notMem_of_sameOutside hdistinct hsame
    have hreplaced : ∀ s, scrub (Json.replaceUnder isContractKey (.scalar s) input.tree.json) =
        scrub input.tree.json := by
      intro s
      have hrecord := (h.hidden _ (agreeOutsideSecrets_replaceSecrets s input) id [] clock).1
      rw [← tree_replaceSecrets, ← json_recordFor id [] _ clock, hrecord, json_recordFor]
    exact ⟨covered_of_scrub_eq hdistinct hproto ((hreplaced _).trans (hreplaced _).symm), hproto⟩
  · intro h
    obtain ⟨hcovered, hproto⟩ := h
    refine ⟨fun other hagree sha256 rows now => ?_, fun sha256 rows now => ?_,
      scrubAttributes_scrubAttributes input.attributes⟩
    · have htree : scrub other.tree.json = scrub input.tree.json := by
        have hkeys : Covered other.tree.json := by
          rw [Covered, ← Json.keysOutside_replaceUnder (c := .scalar .null), ← hagree.attributes,
            Json.keysOutside_replaceUnder]
          exact hcovered
        rw [← scrub_replaceUnder (.scalar .null) other.tree.distinct hkeys, ← hagree.attributes]
        exact scrub_replaceUnder (.scalar .null) hdistinct hcovered
      have hrecord := recordFor_congr hagree.rest htree sha256 rows now
      exact ⟨hrecord, appendInTransaction_congr hrecord⟩
    · rw [json_recordFor]
      exact sameOutside_scrub hdistinct hproto

private def signing (key : String) : AuditRecordInput where
  event := ofString "deploy.signed"
  actor := ofString "alice"
  actorType := .human
  subject := none
  decision := none
  attributes := some
    ⟨[(ofString "signingKey", .scalar (.str (ofString key)))], by simp [keysOf]⟩

private theorem scrub_signing (key : String) :
    scrub (signing key).tree.json = (signing key).tree.json := by
  have hkept : ofString "signingKey" ≠ protoKey := by decide
  have hnotSecret : isSecretKey (ofString "signingKey") = false := by decide
  have hnotIndex : arrayIndex (ofString "signingKey") = none := by decide
  have htree : (signing key).tree.json =
      .obj [(ofString "signingKey", .scalar (.str (ofString key)))] := rfl
  rw [htree, scrub_obj (by simp [keysOf])]
  simp [ownEntries, mapEntries, scrubEntry, hkept, hnotSecret, hnotIndex]

private def clock : Rfc3339 := .newYear 2026 (by decide)

theorem signing_key_stored : AgreeOutsideSecrets (signing "s1") (signing "s2") ∧
    (recordFor id [] (signing "s1") clock).attributes.json = (signing "s1").tree.json ∧
    recordFor id [] (signing "s2") clock ≠ recordFor id [] (signing "s1") clock := by
  have hcontract : isContractKey (ofString "signingKey") = true := by decide
  have htree : ∀ key, (signing key).tree.json =
      .obj [(ofString "signingKey", .scalar (.str (ofString key)))] := fun _ => rfl
  refine ⟨⟨rfl, ?_⟩, ?_, fun heq => ?_⟩
  · simp [Json.AgreesOutside, htree, mapEntries, hcontract]
  · rw [json_recordFor, scrub_signing]
  · have hjson := congrArg (fun record : AuditRecord => record.attributes.json) heq
    rw [json_recordFor, json_recordFor, scrub_signing, scrub_signing, htree, htree] at hjson
    simp at hjson

end OpenRupiv.Audit
