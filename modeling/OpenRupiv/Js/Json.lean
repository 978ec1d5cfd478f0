import OpenRupiv.Js.Text
import OpenRupiv.Js.Number
import Mathlib.Data.List.Sort

/-!
# JSON values as JavaScript objects

A value of `JSON.parse`: scalars, arrays, and objects whose own properties are listed in the order
in which they were created.  Enumeration (`Object.keys`, `Object.entries`, `JSON.stringify`) lists
array indices first, in ascending order, and assignment to `__proto__` creates no own property.

`Json.rebuild` applies a map of the scalars and a rearrangement of the members at every level.
Copying, sorting and enumerating a value are all of this form, and they compose.
-/

namespace OpenRupiv.Js

variable {α β : Type}

inductive Scalar where
  | null
  | bool (b : Bool)
  | num (n : Num)
  | str (s : Text)
  deriving DecidableEq

inductive Json where
  | scalar (s : Scalar)
  | arr (items : List Json)
  | obj (members : List (Text × Json))

namespace Json

mutual

/-- Structural recursion, items and members first. -/
def fold (scalar : Scalar → α) (arr : List α → α) (obj : List (Text × α) → α) : Json → α
  | .scalar s => scalar s
  | .arr items => arr (foldItems scalar arr obj items)
  | .obj members => obj (foldMembers scalar arr obj members)

def foldItems (scalar : Scalar → α) (arr : List α → α) (obj : List (Text × α) → α) :
    List Json → List α
  | [] => []
  | v :: vs => fold scalar arr obj v :: foldItems scalar arr obj vs

def foldMembers (scalar : Scalar → α) (arr : List α → α) (obj : List (Text × α) → α) :
    List (Text × Json) → List (Text × α)
  | [] => []
  | (k, v) :: ms => (k, fold scalar arr obj v) :: foldMembers scalar arr obj ms

end

mutual

theorem induct {motive : Json → Prop} (scalar : ∀ s, motive (.scalar s))
    (arr : ∀ items, (∀ v ∈ items, motive v) → motive (.arr items))
    (obj : ∀ members, (∀ m ∈ members, motive m.2) → motive (.obj members)) : ∀ v, motive v
  | .scalar s => scalar s
  | .arr items => arr items (inductItems scalar arr obj items)
  | .obj members => obj members (inductMembers scalar arr obj members)

private theorem inductItems {motive : Json → Prop} (scalar : ∀ s, motive (.scalar s))
    (arr : ∀ items, (∀ v ∈ items, motive v) → motive (.arr items))
    (obj : ∀ members, (∀ m ∈ members, motive m.2) → motive (.obj members)) :
    ∀ items : List Json, ∀ v ∈ items, motive v
  | [], _, h => nomatch h
  | w :: ws, v, h => by
    rcases List.mem_cons.mp h with h | h
    · rw [h]
      exact induct scalar arr obj w
    · exact inductItems scalar arr obj ws v h

private theorem inductMembers {motive : Json → Prop} (scalar : ∀ s, motive (.scalar s))
    (arr : ∀ items, (∀ v ∈ items, motive v) → motive (.arr items))
    (obj : ∀ members, (∀ m ∈ members, motive m.2) → motive (.obj members)) :
    ∀ members : List (Text × Json), ∀ m ∈ members, motive m.2
  | [], _, h => nomatch h
  | (k, w) :: ms, m, h => by
    rcases List.mem_cons.mp h with h | h
    · rw [h]
      exact induct scalar arr obj w
    · exact inductMembers scalar arr obj ms m h

end

end Json

def keysOf (ms : List (Text × α)) : List Text := ms.map Prod.fst

def mapValues (h : α → β) (ms : List (Text × α)) : List (Text × β) := ms.map fun m => (m.1, h m.2)

@[simp] theorem keysOf_mapValues (h : α → β) (ms : List (Text × α)) :
    keysOf (mapValues h ms) = keysOf ms := by
  simp [keysOf, mapValues]

@[simp] theorem mapValues_nil (h : α → β) : mapValues h [] = [] := rfl

@[simp] theorem mapValues_cons (h : α → β) (m : Text × α) (ms : List (Text × α)) :
    mapValues h (m :: ms) = (m.1, h m.2) :: mapValues h ms := rfl

@[simp] theorem mapValues_append (h : α → β) (ms ns : List (Text × α)) :
    mapValues h (ms ++ ns) = mapValues h ms ++ mapValues h ns := by
  simp [mapValues]

theorem mapValues_congr {h h' : α → β} {ms : List (Text × α)} (hh : ∀ m ∈ ms, h m.2 = h' m.2) :
    mapValues h ms = mapValues h' ms :=
  List.map_congr_left fun m hm => by rw [hh m hm]

theorem mapValues_filter (h : α → β) (p : Text → Bool) (ms : List (Text × α)) :
    (mapValues h ms).filter (fun m => p m.1) = mapValues h (ms.filter fun m => p m.1) := by
  simp [mapValues, List.filter_map, Function.comp_def]

theorem eq_of_mem_of_key_eq {ms : List (Text × α)} (hnd : (keysOf ms).Nodup) {m n : Text × α}
    (hm : m ∈ ms) (hn : n ∈ ms) (hk : m.1 = n.1) : m = n :=
  List.inj_on_of_nodup_map hnd hm hn hk

theorem nodup_keys_filter {ms : List (Text × α)} (p : Text × α → Bool) (h : (keysOf ms).Nodup) :
    (keysOf (ms.filter p)).Nodup :=
  h.sublist (List.filter_sublist.map _)

theorem nodup_keys_perm {ms ns : List (Text × α)} (hp : ms.Perm ns) (h : (keysOf ms).Nodup) :
    (keysOf ns).Nodup :=
  (hp.map Prod.fst).nodup_iff.mp h

theorem mem_of_lookup {ms : List (Text × α)} {k : Text} {v : α} (h : ms.lookup k = some v) :
    (k, v) ∈ ms := by
  obtain ⟨pre, post, hms, -⟩ := List.lookup_eq_some_iff.mp h
  simp [hms]

theorem lookup_of_mem {ms : List (Text × α)} (hnd : (keysOf ms).Nodup) {k : Text} {v : α}
    (h : (k, v) ∈ ms) : ms.lookup k = some v := by
  cases hl : ms.lookup k with
  | none =>
    rw [List.lookup_eq_none_iff] at hl
    exact absurd (hl _ h) (by simp)
  | some w =>
    have := eq_of_mem_of_key_eq hnd h (mem_of_lookup hl) rfl
    rw [(Prod.mk.inj this).2]

theorem lookup_perm {ms ns : List (Text × α)} (hp : ms.Perm ns)
    (h : (keysOf ms).Nodup) (k : Text) : ms.lookup k = ns.lookup k := by
  apply Option.ext
  intro v
  constructor
  · intro hv
    exact lookup_of_mem (nodup_keys_perm hp h) (hp.mem_iff.mp (mem_of_lookup hv))
  · intro hv
    exact lookup_of_mem h (hp.mem_iff.mpr (mem_of_lookup hv))

theorem lookup_mapValues (f : α → β) (ms : List (Text × α)) (k : Text) :
    (mapValues f ms).lookup k = (ms.lookup k).map f := by
  induction ms with
  | nil => rfl
  | cons m ms ih =>
    obtain ⟨k', v⟩ := m
    by_cases hk : k == k'
    · simp [List.lookup_cons, hk]
    · simp [List.lookup_cons, hk, ih]

/-- `Array.prototype.sort` of the members, by key. -/
def sortKeys (ms : List (Text × α)) : List (Text × α) :=
  ms.insertionSort fun m n => leUnits m.1 n.1 = true

theorem perm_sortKeys (ms : List (Text × α)) : (sortKeys ms).Perm ms :=
  List.perm_insertionSort _ ms

theorem pairwise_sortKeys (ms : List (Text × α)) :
    (sortKeys ms).Pairwise fun m n => leUnits m.1 n.1 = true := by
  have : Std.Total fun m n : Text × α => leUnits m.1 n.1 = true :=
    ⟨fun m n => by simpa using leUnits_total m.1 n.1⟩
  have : IsTrans (Text × α) fun m n => leUnits m.1 n.1 = true := ⟨fun _ _ _ => leUnits_trans⟩
  exact List.pairwise_insertionSort _ ms

/-- With distinct keys the sorted members depend on the set of members only. -/
theorem sortKeys_eq_of_perm {ms ns : List (Text × α)} (hp : ms.Perm ns) (h : (keysOf ms).Nodup) :
    sortKeys ms = sortKeys ns := by
  have hperm : (sortKeys ms).Perm (sortKeys ns) :=
    (perm_sortKeys ms).trans (hp.trans (perm_sortKeys ns).symm)
  refine hperm.eq_of_pairwise ?_ (pairwise_sortKeys ms) (pairwise_sortKeys ns)
  intro m n hm hn hle hge
  have hm' : m ∈ ms := (perm_sortKeys ms).mem_iff.mp hm
  have hn' : n ∈ ms := hp.mem_iff.mpr ((perm_sortKeys ns).mem_iff.mp hn)
  exact eq_of_mem_of_key_eq h hm' hn' (leUnits_antisymm hle hge)

theorem sortKeys_mapValues (h : α → β) (ms : List (Text × α)) :
    sortKeys (mapValues h ms) = mapValues h (sortKeys ms) := by
  refine (List.map_insertionSort _ _ _ ms ?_).symm
  simp

/-- The array index a key stands for: a canonical decimal below 2 ^ 32 - 1. -/
def arrayIndex (k : Text) : Option Nat :=
  let digit : UInt16 → Bool := fun u => 48 ≤ u && u ≤ 57
  if k = [48] then some 0
  else if k ≠ [] ∧ k.head? ≠ some 48 ∧ k.all digit then
    let n := k.foldl (fun acc u => 10 * acc + (u.toNat - 48)) 0
    if n < 4294967295 then some n else none
  else none

/-- The own properties in the order of `OrdinaryOwnPropertyKeys`. -/
def ownEntries (ms : List (Text × α)) : List (Text × α) :=
  (ms.filter fun m => (arrayIndex m.1).isSome).insertionSort
    (fun m n => (arrayIndex m.1).getD 0 ≤ (arrayIndex n.1).getD 0) ++
  ms.filter fun m => !(arrayIndex m.1).isSome

theorem perm_ownEntries (ms : List (Text × α)) : (ownEntries ms).Perm ms :=
  ((List.perm_insertionSort _ _).append_right _).trans
    (List.filter_append_perm (fun m => (arrayIndex m.1).isSome) ms)

theorem ownEntries_mapValues (h : α → β) (ms : List (Text × α)) :
    ownEntries (mapValues h ms) = mapValues h (ownEntries ms) := by
  unfold ownEntries
  rw [mapValues_append, mapValues_filter h fun k => (arrayIndex k).isSome,
    mapValues_filter h fun k => !(arrayIndex k).isSome]
  congr 1
  refine (List.map_insertionSort _ _ _ _ ?_).symm
  simp

def protoKey : Text := ofString "__proto__"

/-- `o[k] = v` on a plain object: the inherited setter of `__proto__` takes the value and creates
no own property; an existing property keeps its place. -/
def assign (ms : List (Text × α)) (k : Text) (v : α) : List (Text × α) :=
  if k = protoKey then ms
  else if k ∈ keysOf ms then ms.map fun m => if m.1 = k then (k, v) else m
  else ms ++ [(k, v)]

/-- The object built from `{}` by one assignment for each entry. -/
def assignAll (ms : List (Text × α)) : List (Text × α) :=
  ms.foldl (fun out m => assign out m.1 m.2) []

theorem assign_mapValues (h : α → β) (ms : List (Text × α)) (k : Text) (v : α) :
    assign (mapValues h ms) k (h v) = mapValues h (assign ms k v) := by
  unfold assign
  split
  · rfl
  · rw [keysOf_mapValues]
    split
    · simp only [mapValues, List.map_map]
      apply List.map_congr_left
      intro m _
      by_cases hk : m.1 = k <;> simp [hk]
    · simp

theorem assignAll_mapValues (h : α → β) (ms : List (Text × α)) :
    assignAll (mapValues h ms) = mapValues h (assignAll ms) := by
  have key : ∀ (ms out : List (Text × α)),
      (mapValues h ms).foldl (fun out m => assign out m.1 m.2) (mapValues h out) =
        mapValues h (ms.foldl (fun out m => assign out m.1 m.2) out) := by
    intro ms
    induction ms with
    | nil => intro out; rfl
    | cons m ms ih =>
      intro out
      rw [mapValues_cons, List.foldl_cons, List.foldl_cons, assign_mapValues, ih]
  exact key ms []

theorem keysOf_assign (ms : List (Text × α)) (k : Text) (v : α) :
    keysOf (assign ms k v) = if k = protoKey ∨ k ∈ keysOf ms then keysOf ms else keysOf ms ++ [k] := by
  unfold assign
  by_cases hp : k = protoKey
  · simp [hp]
  · by_cases hk : k ∈ keysOf ms
    · simp only [hp, hk, if_false, if_true, false_or]
      simp only [keysOf, List.map_map]
      apply List.map_congr_left
      intro m _
      by_cases hm : m.1 = k <;> simp [hm]
    · simp only [hp, hk, if_false, false_or]
      simp [keysOf]

theorem mem_assign {ms : List (Text × α)} {k : Text} {v : α} {m : Text × α}
    (h : m ∈ assign ms k v) : m ∈ ms ∨ m = (k, v) := by
  unfold assign at h
  split at h
  · exact .inl h
  · split at h
    · obtain ⟨n, hn, hm⟩ := List.mem_map.mp h
      split at hm
      · exact .inr hm.symm
      · exact .inl (hm ▸ hn)
    · simpa using h

/-- An object built by assignments has distinct keys, whatever the entries. -/
theorem nodup_keys_assignAll (ms : List (Text × α)) : (keysOf (assignAll ms)).Nodup := by
  have key : ∀ ms out : List (Text × α), (keysOf out).Nodup →
      (keysOf (ms.foldl (fun out m => assign out m.1 m.2) out)).Nodup := by
    intro ms
    induction ms with
    | nil => intro out h; exact h
    | cons m ms ih =>
      intro out h
      apply ih
      rw [keysOf_assign]
      split
      · exact h
      · rename_i hnew
        rw [not_or] at hnew
        apply List.nodup_append.mpr
        refine ⟨h, by simp, ?_⟩
        rintro k hk k' hk' rfl
        rw [List.mem_singleton] at hk'
        exact hnew.2 (hk' ▸ hk)
  exact key ms [] (by simp [keysOf])

theorem mem_of_mem_assignAll {ms : List (Text × α)} {m : Text × α} (h : m ∈ assignAll ms) :
    m ∈ ms := by
  have key : ∀ ms out : List (Text × α), m ∈ ms.foldl (fun out m => assign out m.1 m.2) out →
      m ∈ out ∨ m ∈ ms := by
    intro ms
    induction ms with
    | nil => intro out h; exact .inl h
    | cons n ms ih =>
      intro out h
      cases ih _ h with
      | inl h =>
        cases mem_assign h with
        | inl h => exact .inl h
        | inr h => exact .inr (by simp [h])
      | inr h => exact .inr (by simp [h])
  cases key ms [] h with
  | inl h => exact absurd h (by simp)
  | inr h => exact h

/-- What is assigned last is there, `__proto__` excepted. -/
theorem mem_assignAll_append {xs ys : List (Text × α)} (hys : (keysOf ys).Nodup) {y : Text × α}
    (hy : y ∈ ys) (hproto : y.1 ≠ protoKey) : y ∈ assignAll (xs ++ ys) := by
  have hself : ∀ out : List (Text × α), y ∈ assign out y.1 y.2 := by
    intro out
    unfold assign
    rw [if_neg hproto]
    split
    · rename_i hkey
      obtain ⟨m, hm, hmy⟩ := List.mem_map.mp hkey
      exact List.mem_map.mpr ⟨m, hm, if_pos hmy⟩
    · exact List.mem_append_right _ (List.mem_singleton.mpr rfl)
  have hother : ∀ (out : List (Text × α)) (m : Text × α), y ∈ out → m.1 ≠ y.1 →
      y ∈ assign out m.1 m.2 := by
    intro out m hmem hne
    unfold assign
    split
    · exact hmem
    · split
      · exact List.mem_map.mpr ⟨y, hmem, if_neg fun h => hne h.symm⟩
      · exact List.mem_append_left _ hmem
  have hlater : ∀ (ms out : List (Text × α)), y ∈ out → y.1 ∉ keysOf ms →
      y ∈ ms.foldl (fun out m => assign out m.1 m.2) out := by
    intro ms
    induction ms with
    | nil => intro out h _; exact h
    | cons m ms ih =>
      intro out hmem hkeys
      rw [keysOf, List.map_cons, List.mem_cons, not_or] at hkeys
      exact ih _ (hother out m hmem fun h => hkeys.1 h.symm) hkeys.2
  rw [assignAll, List.foldl_append]
  generalize xs.foldl (fun out m => assign out m.1 m.2) [] = out
  induction ys generalizing out with
  | nil => exact absurd hy List.not_mem_nil
  | cons m ys ih =>
    obtain ⟨hnew, hys⟩ := List.nodup_cons.mp hys
    rcases List.mem_cons.mp hy with rfl | hy
    · exact hlater ys _ (hself out) hnew
    · exact ih hys hy _

/-- Assigning entries with distinct keys copies them, `__proto__` excepted. -/
theorem assignAll_eq_filter {ms : List (Text × α)} (h : (keysOf ms).Nodup) :
    assignAll ms = ms.filter fun m => m.1 ≠ protoKey := by
  have key : ∀ (ms out : List (Text × α)), (keysOf (out ++ ms)).Nodup →
      ms.foldl (fun out m => assign out m.1 m.2) out =
        out ++ ms.filter fun m => m.1 ≠ protoKey := by
    intro ms
    induction ms with
    | nil => intro out _; simp
    | cons m ms ih =>
      intro out hnd
      have hnew : m.1 ∉ keysOf out := by
        intro hmem
        simp only [keysOf, List.map_append, List.map_cons] at hnd hmem
        exact (List.nodup_append.mp hnd).2.2 _ hmem _ (by simp) rfl
      rw [List.foldl_cons]
      by_cases hp : m.1 = protoKey
      · have hnd' : (keysOf (out ++ ms)).Nodup := by
          refine hnd.sublist (List.Sublist.map _ ?_)
          simp
        rw [assign, if_pos hp, ih out hnd', List.filter_cons_of_neg (by simpa using hp)]
      · have hnd' : (keysOf (out ++ [m] ++ ms)).Nodup := by simpa using hnd
        rw [assign, if_neg hp, if_neg hnew, ih _ hnd', List.filter_cons_of_pos (by simpa using hp)]
        simp
  exact (key ms [] h).trans (List.nil_append _)

namespace Json

@[simp] theorem fold_scalar (scalar : Scalar → α) (arr : List α → α) (obj : List (Text × α) → α)
    (s : Scalar) : fold scalar arr obj (.scalar s) = scalar s := by
  rw [fold]

@[simp] theorem fold_arr (scalar : Scalar → α) (arr : List α → α) (obj : List (Text × α) → α)
    (items : List Json) : fold scalar arr obj (.arr items) =
      arr (items.map (fold scalar arr obj)) := by
  have hitems : ∀ items, foldItems scalar arr obj items = items.map (fold scalar arr obj) := by
    intro items
    induction items with
    | nil => rw [foldItems, List.map_nil]
    | cons v vs ih => rw [foldItems, ih, List.map_cons]
  rw [fold, hitems]

@[simp] theorem fold_obj (scalar : Scalar → α) (arr : List α → α) (obj : List (Text × α) → α)
    (members : List (Text × Json)) : fold scalar arr obj (.obj members) =
      obj (mapValues (fold scalar arr obj) members) := by
  have hmembers : ∀ members, foldMembers scalar arr obj members =
      mapValues (fold scalar arr obj) members := by
    intro members
    induction members with
    | nil => rw [foldMembers, mapValues_nil]
    | cons m ms ih => rw [foldMembers, ih, mapValues_cons]
  rw [fold, hmembers]

/-- No object of the tree has two own properties with one key. -/
def distinctKeys : Json → Bool :=
  fold (fun _ => true) (fun items => items.all id)
    (fun ms => decide (keysOf ms).Nodup && ms.all fun m => m.2)

@[simp] theorem distinctKeys_scalar (s : Scalar) : distinctKeys (.scalar s) = true := by
  simp [distinctKeys]

@[simp] theorem distinctKeys_arr (items : List Json) :
    distinctKeys (.arr items) = true ↔ ∀ v ∈ items, v.distinctKeys = true := by
  simp [distinctKeys]

@[simp] theorem distinctKeys_obj (ms : List (Text × Json)) :
    distinctKeys (.obj ms) = true ↔ (keysOf ms).Nodup ∧ ∀ m ∈ ms, m.2.distinctKeys = true := by
  simp [distinctKeys, keysOf, mapValues, Function.comp_def]

end Json

/-- A rearrangement of members that looks at the keys only. -/
structure Layout where
  run : List (Text × Json) → List (Text × Json)
  natural : ∀ h ms, run (mapValues h ms) = mapValues h (run ms)
  subset : ∀ ms, (keysOf ms).Nodup → run ms ⊆ ms
  distinct : ∀ ms, (keysOf ms).Nodup → (keysOf (run ms)).Nodup

namespace Layout

def ofPerm (run : List (Text × Json) → List (Text × Json))
    (natural : ∀ h ms, run (mapValues h ms) = mapValues h (run ms))
    (perm : ∀ ms, (run ms).Perm ms) : Layout where
  run := run
  natural := natural
  subset := fun ms _ => (perm ms).subset
  distinct := fun ms h => nodup_keys_perm (perm ms).symm h

def sorted : Layout := ofPerm sortKeys sortKeys_mapValues perm_sortKeys

/-- The members as they are listed. -/
def id : Layout := ofPerm (fun ms => ms) (fun _ _ => rfl) fun _ => .refl _

def own : Layout := ofPerm ownEntries ownEntries_mapValues perm_ownEntries

def keep (p : Text → Bool) : Layout where
  run := fun ms => ms.filter fun m => p m.1
  natural := fun h ms => mapValues_filter h p ms
  subset := fun ms _ => List.filter_subset_self ms
  distinct := fun _ h => nodup_keys_filter _ h

def assigned : Layout where
  run := assignAll
  natural := assignAll_mapValues
  subset := fun _ _ _ => mem_of_mem_assignAll
  distinct := fun ms _ => nodup_keys_assignAll ms

/-- `f` after `g`. -/
def comp (f g : Layout) : Layout where
  run := fun ms => f.run (g.run ms)
  natural := fun h ms => by rw [g.natural, f.natural]
  subset := fun ms h _ hm => g.subset ms h (f.subset _ (g.distinct ms h) hm)
  distinct := fun ms h => f.distinct _ (g.distinct ms h)

end Layout

namespace Json

/-- Map the scalars and rearrange the members, at every level. -/
def rebuild (g : Scalar → Scalar) (f : Layout) : Json → Json :=
  fold (fun s => .scalar (g s)) .arr fun ms => .obj (f.run ms)

variable {g g' : Scalar → Scalar} {f f' : Layout}

@[simp] theorem rebuild_scalar (s : Scalar) : rebuild g f (.scalar s) = .scalar (g s) := by
  simp [rebuild]

@[simp] theorem rebuild_arr (items : List Json) :
    rebuild g f (.arr items) = .arr (items.map (rebuild g f)) := by
  simp [rebuild]

theorem rebuild_obj (ms : List (Text × Json)) :
    rebuild g f (.obj ms) = .obj (mapValues (rebuild g f) (f.run ms)) := by
  simp only [rebuild, fold_obj]
  rw [f.natural]

theorem distinctKeys_rebuild {v : Json} (h : v.distinctKeys = true) :
    (rebuild g f v).distinctKeys = true := by
  induction v using induct with
  | scalar s => simp
  | arr items ih =>
    rw [rebuild_arr, distinctKeys_arr]
    rw [distinctKeys_arr] at h
    intro w hw
    obtain ⟨v, hv, rfl⟩ := List.mem_map.mp hw
    exact ih v hv (h v hv)
  | obj ms ih =>
    rw [distinctKeys_obj] at h
    rw [rebuild_obj, distinctKeys_obj, keysOf_mapValues]
    refine ⟨f.distinct ms h.1, fun m hm => ?_⟩
    obtain ⟨n, hn, rfl⟩ := List.mem_map.mp hm
    have hn' := f.subset ms h.1 hn
    exact ih n hn' (h.2 n hn')

theorem rebuild_rebuild (v : Json) :
    rebuild g f (rebuild g' f' v) = rebuild (g ∘ g') (f.comp f') v := by
  induction v using induct with
  | scalar s => simp
  | arr items ih =>
    simp only [rebuild_arr, List.map_map]
    congr 1
    exact List.map_congr_left ih
  | obj ms ih =>
    -- the outer rearrangement sees the members after the inner one
    have hfold : ∀ m ∈ ms, rebuild g f (rebuild g' f' m.2) = rebuild (g ∘ g') (f.comp f') m.2 := ih
    have hmap : mapValues (rebuild g f) (mapValues (rebuild g' f') ms) =
        mapValues (rebuild (g ∘ g') (f.comp f')) ms := by
      rw [← mapValues_congr (h := fun w => rebuild g f (rebuild g' f' w)) hfold]
      simp [mapValues]
    rw [rebuild_obj, ← f'.natural, rebuild_obj, ← f.natural, ← f'.natural, hmap, rebuild_obj,
      ← (f.comp f').natural]
    rfl

/-- On distinct keys only what the rearrangement does to such members counts. -/
theorem rebuild_congr {v : Json} (hv : v.distinctKeys = true) (hg : ∀ s, g s = g' s)
    (hf : ∀ ms, (keysOf ms).Nodup → f.run ms = f'.run ms) : rebuild g f v = rebuild g' f' v := by
  induction v using induct with
  | scalar s => simp [hg]
  | arr items ih =>
    rw [distinctKeys_arr] at hv
    simp only [rebuild_arr]
    congr 1
    exact List.map_congr_left fun v hmem => ih v hmem (hv v hmem)
  | obj ms ih =>
    rw [distinctKeys_obj] at hv
    rw [rebuild_obj, rebuild_obj, hf ms hv.1]
    congr 1
    refine mapValues_congr fun m hm => ?_
    have hm' : m ∈ ms := f'.subset ms hv.1 hm
    exact ih m hm' (hv.2 m hm')

end Json

/-- A value of `JSON.parse`: keys are distinct at every level. -/
structure Value where
  json : Json
  distinct : json.distinctKeys = true

/-- An object of `JSON.parse`. -/
structure Object where
  members : List (Text × Json)
  distinct : (Json.obj members).distinctKeys = true

def Object.toValue (o : Object) : Value := ⟨.obj o.members, o.distinct⟩

def Object.empty : Object := ⟨[], by decide⟩

def Value.rebuild (g : Scalar → Scalar) (f : Layout) (v : Value) : Value :=
  ⟨v.json.rebuild g f, Json.distinctKeys_rebuild v.distinct⟩

end OpenRupiv.Js
