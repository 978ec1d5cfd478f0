import OpenRupiv.Js.Indent

/-!
# Printing what was parsed

A value of `JSON.parse` has distinct keys at every level, so that it can be printed and read again.
-/

namespace OpenRupiv.Js

theorem nodup_keys_define {α : Type} {ms : List (Text × α)} (h : (keysOf ms).Nodup) (k : Text)
    (v : α) : (keysOf (define ms k v)).Nodup := by
  unfold define
  split
  · have hkeys : keysOf (ms.map fun m => if m.1 = k then (k, v) else m) = keysOf ms := by
      rw [keysOf, List.map_map, keysOf]
      refine List.map_congr_left fun m _ => ?_
      rw [Function.comp_apply]
      split
      · rename_i hk
        exact hk.symm
      · rfl
    rwa [hkeys]
  · rename_i hnew
    rw [keysOf, List.map_append, List.map_singleton]
    exact List.nodup_append.mpr ⟨h, List.nodup_singleton k, by
      intro a ha b hb
      rw [List.mem_singleton.mp hb]
      rintro rfl
      exact hnew ha⟩

theorem mem_define {α : Type} {ms : List (Text × α)} {k : Text} {v : α} {m : Text × α}
    (h : m ∈ define ms k v) : m ∈ ms ∨ m = (k, v) := by
  unfold define at h
  split at h
  · obtain ⟨n, hn, rfl⟩ := List.mem_map.mp h
    split
    · exact .inr rfl
    · exact .inl hn
  · rcases List.mem_append.mp h with hm | hm
    · exact .inl hm
    · exact .inr (List.mem_singleton.mp hm)

theorem defineAll_concat {α : Type} (ms : List (Text × α)) (m : Text × α) :
    defineAll (ms ++ [m]) = define (defineAll ms) m.1 m.2 := by
  rw [defineAll, List.foldl_append]
  rfl

theorem nodup_keys_defineAll {α : Type} (ms : List (Text × α)) : (keysOf (defineAll ms)).Nodup := by
  induction ms using List.reverseRecOn with
  | nil => exact List.nodup_nil
  | append_singleton ms m ih =>
    rw [defineAll_concat]
    exact nodup_keys_define ih _ _

theorem mem_defineAll {α : Type} {ms : List (Text × α)} {m : Text × α} (h : m ∈ defineAll ms) :
    m ∈ ms := by
  induction ms using List.reverseRecOn with
  | nil => exact h
  | append_singleton ms n ih =>
    rw [defineAll_concat] at h
    rcases mem_define h with hm | rfl
    · exact List.mem_append_left _ (ih hm)
    · exact List.mem_append_right _ List.mem_cons_self

section

variable {toNumber : Text → Num}

/-- A property of values that the parser builds up. -/
structure Built (toNumber : Text → Num) (P : Json → Prop) : Prop where
  null : P (.scalar .null)
  bool : ∀ b, P (.scalar (.bool b))
  str : ∀ t, P (.scalar (.str t))
  num : ∀ s, P (.scalar (.num (toNumber s)))
  arr : ∀ items, (∀ v ∈ items, P v) → P (.arr items)
  obj : ∀ ms, (∀ m ∈ ms, P m.2) → P (.obj (defineAll ms))

/-- What each of the readers yields with so much fuel. -/
structure Yields (toNumber : Text → Num) (P : Json → Prop) (fuel : Nat) : Prop where
  value : ∀ s v r, readValue toNumber fuel s = some (v, r) → P v
  items : ∀ s vs r, readItems toNumber fuel s = some (vs, r) → ∀ v ∈ vs, P v
  members : ∀ s ms r, readMembers toNumber fuel s = some (ms, r) → ∀ m ∈ ms, P m.2

theorem eq_of_readWord {word : String} {a : Scalar} {s r : Text} {v : Json}
    (h : readWord word a s = some (v, r)) : v = .scalar a := by
  unfold readWord at h
  split at h
  · cases h
    rfl
  · exact absurd h (by simp)

variable {P : Json → Prop}

theorem Yields.readValue (hP : Built toNumber P) {fuel : Nat} (ih : Yields toNumber P fuel)
    {s r : Text} {v : Json} (h : readValue toNumber (fuel + 1) s = some (v, r)) : P v := by
  rw [Js.readValue] at h
  split at h
  · exact absurd h (by simp)
  split at h
  · obtain ⟨p, -, hp⟩ := Option.bind_eq_some_iff.mp h
    cases hp
    exact hP.str _
  split at h
  · split at h
    · cases h
      exact hP.arr [] fun _ hv => absurd hv List.not_mem_nil
    · obtain ⟨p, hp, hret⟩ := Option.bind_eq_some_iff.mp h
      cases hret
      exact hP.arr _ (ih.items _ _ _ hp)
  split at h
  · split at h
    · cases h
      exact hP.obj [] fun _ hm => absurd hm List.not_mem_nil
    · obtain ⟨p, hp, hret⟩ := Option.bind_eq_some_iff.mp h
      cases hret
      exact hP.obj _ (ih.members _ _ _ hp)
  split at h
  · rw [eq_of_readWord h]
    exact hP.null
  split at h
  · rw [eq_of_readWord h]
    exact hP.bool true
  split at h
  · rw [eq_of_readWord h]
    exact hP.bool false
  · unfold readNumber at h
    split at h
    · cases h
      exact hP.num _
    · exact absurd h (by simp)

theorem Yields.readItems {fuel : Nat} (ih : Yields toNumber P fuel) {s r : Text} {vs : List Json}
    (h : readItems toNumber (fuel + 1) s = some (vs, r)) : ∀ v ∈ vs, P v := by
  rw [Js.readItems] at h
  obtain ⟨⟨v, rest⟩, hv, h⟩ := Option.bind_eq_some_iff.mp h
  have hfirst := ih.value _ _ _ hv
  dsimp only at h
  split at h
  · obtain ⟨⟨vs', rest'⟩, hvs, hret⟩ := Option.bind_eq_some_iff.mp h
    cases hret
    exact List.forall_mem_cons.mpr ⟨hfirst, ih.items _ _ _ hvs⟩
  · obtain ⟨rest', -, hret⟩ := Option.bind_eq_some_iff.mp h
    cases hret
    exact List.forall_mem_cons.mpr ⟨hfirst, fun _ hw => absurd hw List.not_mem_nil⟩

theorem Yields.readMembers {fuel : Nat} (ih : Yields toNumber P fuel) {s r : Text}
    {ms : List (Text × Json)} (h : readMembers toNumber (fuel + 1) s = some (ms, r)) :
    ∀ m ∈ ms, P m.2 := by
  rw [Js.readMembers] at h
  obtain ⟨r₁, -, h⟩ := Option.bind_eq_some_iff.mp h
  obtain ⟨⟨k, r₂⟩, -, h⟩ := Option.bind_eq_some_iff.mp h
  obtain ⟨r₃, -, h⟩ := Option.bind_eq_some_iff.mp h
  obtain ⟨⟨v, r₄⟩, hv, h⟩ := Option.bind_eq_some_iff.mp h
  have hfirst : P (k, v).2 := ih.value _ _ _ hv
  dsimp only at h
  split at h
  · obtain ⟨⟨ms', rest'⟩, hms, hret⟩ := Option.bind_eq_some_iff.mp h
    cases hret
    exact List.forall_mem_cons.mpr ⟨hfirst, ih.members _ _ _ hms⟩
  · obtain ⟨rest', -, hret⟩ := Option.bind_eq_some_iff.mp h
    cases hret
    exact List.forall_mem_cons.mpr ⟨hfirst, fun _ hw => absurd hw List.not_mem_nil⟩

theorem yields_readers (hP : Built toNumber P) (fuel : Nat) : Yields toNumber P fuel := by
  induction fuel with
  | zero =>
    constructor
    · intro s v r h
      exact absurd h (by simp [readValue])
    · intro s vs r h
      exact absurd h (by simp [readItems])
    · intro s ms r h
      exact absurd h (by simp [readMembers])
  | succ fuel ih =>
    exact ⟨fun _ _ _ => ih.readValue hP, fun _ _ _ => ih.readItems, fun _ _ _ => ih.readMembers⟩

/-- What the parser builds up holds of the values of `JSON.parse`. -/
theorem parse_induct (hP : Built toNumber P) {s : Text} {v : Json}
    (h : parse toNumber s = some v) : P v := by
  unfold parse at h
  obtain ⟨⟨w, rest⟩, hw, h⟩ := Option.bind_eq_some_iff.mp h
  have hvalue := (yields_readers hP _).value _ _ _ hw
  dsimp only at h
  split at h
  · cases h
    exact hvalue
  · exact absurd h (by simp)

/-- A value of `JSON.parse` has distinct keys at every level. -/
theorem distinctKeys_parse {s : Text} {v : Json} (h : parse toNumber s = some v) :
    v.distinctKeys = true := by
  have hbuilt : Built toNumber fun v => v.distinctKeys = true := by
    refine ⟨Json.distinctKeys_scalar _, fun _ => Json.distinctKeys_scalar _,
      fun _ => Json.distinctKeys_scalar _, fun _ => Json.distinctKeys_scalar _, ?_, ?_⟩
    · exact fun items hitems => (Json.distinctKeys_arr items).mpr hitems
    · exact fun ms hms => (Json.distinctKeys_obj _).mpr
        ⟨nodup_keys_defineAll ms, fun m hm => hms m (mem_defineAll hm)⟩
  exact parse_induct hbuilt h

/-- `JSON.parse(JSON.stringify(v))`. -/
def reread (toNumber : Text → Num) (v : Json) : Json := v.rebuild (Scalar.reread toNumber) .own

theorem lookup_reread (toNumber : Text → Num) {ms : List (Text × Json)}
    (h : (Json.obj ms).distinctKeys = true) :
    ∃ ms', reread toNumber (.obj ms) = .obj ms' ∧
      ∀ k, ms'.lookup k = (ms.lookup k).map (reread toNumber) := by
  refine ⟨_, Json.rebuild_obj ms, fun k => ?_⟩
  rw [lookup_mapValues]
  exact congrArg _ (lookup_perm (perm_ownEntries ms).symm ((Json.distinctKeys_obj ms).mp h).1 k).symm

end

end OpenRupiv.Js
