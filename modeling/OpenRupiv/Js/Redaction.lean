import OpenRupiv.Js.Json

/-!
# Values under some keys

Of a tree, the part outside of the values that stand under keys of a kind: which keys it has, when
two trees agree on it, and when they do up to the order of members.
-/

namespace OpenRupiv.Js

variable {α β : Type}

/-- The values mapped, depending on their keys. -/
def mapEntries (h : Text → α → β) (ms : List (Text × α)) : List (Text × β) :=
  ms.map fun m => (m.1, h m.1 m.2)

@[simp] theorem keysOf_mapEntries (h : Text → α → β) (ms : List (Text × α)) :
    keysOf (mapEntries h ms) = keysOf ms := by
  simp [keysOf, mapEntries]

theorem mapEntries_congr {h h' : Text → α → β} {ms : List (Text × α)}
    (hh : ∀ m ∈ ms, h m.1 m.2 = h' m.1 m.2) : mapEntries h ms = mapEntries h' ms :=
  List.map_congr_left fun m hm => by rw [hh m hm]

theorem mapValues_mapEntries {γ : Type} (g : β → γ) (h : Text → α → β) (ms : List (Text × α)) :
    mapValues g (mapEntries h ms) = mapEntries (fun k v => g (h k v)) ms := by
  simp [mapValues, mapEntries]

theorem mapEntries_mapEntries {γ : Type} (g : Text → β → γ) (h : Text → α → β)
    (ms : List (Text × α)) : mapEntries g (mapEntries h ms) =
      mapEntries (fun k v => g k (h k v)) ms := by
  simp [mapEntries]

theorem mapEntries_filter (h : Text → α → β) (p : Text → Bool) (ms : List (Text × α)) :
    (mapEntries h ms).filter (fun m => p m.1) = mapEntries h (ms.filter fun m => p m.1) := by
  simp [mapEntries, List.filter_map, Function.comp_def]

theorem ownEntries_mapEntries (h : Text → α → β) (ms : List (Text × α)) :
    ownEntries (mapEntries h ms) = mapEntries h (ownEntries ms) := by
  unfold ownEntries
  rw [mapEntries_filter h fun k => (arrayIndex k).isSome,
    mapEntries_filter h fun k => !(arrayIndex k).isSome]
  simp only [mapEntries, List.map_append]
  congr 1
  refine (List.map_insertionSort _ _ _ _ ?_).symm
  simp

theorem ownEntries_append {indices names : List (Text × α)}
    (hindex : ∀ m ∈ indices, (arrayIndex m.1).isSome = true)
    (hname : ∀ m ∈ names, (arrayIndex m.1).isSome = false)
    (hsorted : indices.Pairwise fun m n => (arrayIndex m.1).getD 0 ≤ (arrayIndex n.1).getD 0) :
    ownEntries (indices ++ names) = indices ++ names := by
  have hindices : (indices ++ names).filter (fun m => (arrayIndex m.1).isSome) = indices := by
    have hnone : names.filter (fun m => (arrayIndex m.1).isSome) = [] :=
      List.filter_eq_nil_iff.mpr fun m hm => by simp [hname m hm]
    rw [List.filter_append, List.filter_eq_self.mpr hindex, hnone, List.append_nil]
  have hnames : (indices ++ names).filter (fun m => !(arrayIndex m.1).isSome) = names := by
    have hnone : indices.filter (fun m => !(arrayIndex m.1).isSome) = [] :=
      List.filter_eq_nil_iff.mpr fun m hm => by simp [hindex m hm]
    have hall : names.filter (fun m => !(arrayIndex m.1).isSome) = names :=
      List.filter_eq_self.mpr fun m hm => by simp [hname m hm]
    rw [List.filter_append, hnone, hall, List.nil_append]
  rw [ownEntries, hindices, hnames, hsorted.insertionSort_eq]

/-- Members that were listed in order are in order, also when some are dropped. -/
theorem ownEntries_filter_ownEntries (p : Text → Bool) (ms : List (Text × α)) :
    ownEntries ((ownEntries ms).filter fun m => p m.1) =
      (ownEntries ms).filter fun m => p m.1 := by
  have : Std.Total fun m n : Text × α => (arrayIndex m.1).getD 0 ≤ (arrayIndex n.1).getD 0 :=
    ⟨fun m n => le_total _ _⟩
  have : IsTrans (Text × α) fun m n => (arrayIndex m.1).getD 0 ≤ (arrayIndex n.1).getD 0 :=
    ⟨fun _ _ _ => le_trans⟩
  have hown : ownEntries ms = (ms.filter fun m => (arrayIndex m.1).isSome).insertionSort
      (fun m n => (arrayIndex m.1).getD 0 ≤ (arrayIndex n.1).getD 0) ++
      ms.filter fun m => !(arrayIndex m.1).isSome := rfl
  rw [hown, List.filter_append]
  apply ownEntries_append
  · intro m hm
    have hmem := (List.perm_insertionSort _ _).mem_iff.mp (List.mem_of_mem_filter hm)
    exact (List.mem_filter.mp hmem).2
  · intro m hm
    simpa using (List.mem_filter.mp (List.mem_of_mem_filter hm)).2
  · exact (List.pairwise_insertionSort _ _).filter _

namespace Json

section

variable (p : Text → Bool) (c : Json)

/-- The tree with `c` in place of each value under a key of `p`. -/
def replaceUnder : Json → Json :=
  fold .scalar .arr fun ms => .obj (mapEntries (fun k v => if p k then c else v) ms)

/-- The keys that do not stand in a value under a key of `p`. -/
def keysOutside : Json → List Text :=
  fold (fun _ => []) List.flatten fun ms => ms.flatMap fun m => m.1 :: if p m.1 then [] else m.2

/-- The trees differ at most in values under keys of `p`. -/
def AgreesOutside (v w : Json) : Prop :=
  replaceUnder p (.scalar .null) v = replaceUnder p (.scalar .null) w

/-- The tree outside of the values under keys of `p`, its members sorted. -/
def outside (v : Json) : Json := (replaceUnder p (.scalar .null) v).rebuild id .sorted

/-- The trees differ at most in values under keys of `p` and in the order of members. -/
def SameOutside (v w : Json) : Prop := outside p v = outside p w

end

variable {p : Text → Bool} {c d : Json}

@[simp] theorem replaceUnder_scalar (s : Scalar) : replaceUnder p c (.scalar s) = .scalar s := by
  simp [replaceUnder]

@[simp] theorem replaceUnder_arr (items : List Json) :
    replaceUnder p c (.arr items) = .arr (items.map (replaceUnder p c)) := by
  simp [replaceUnder]

@[simp] theorem replaceUnder_obj (ms : List (Text × Json)) : replaceUnder p c (.obj ms) =
    .obj (mapEntries (fun k v => if p k then c else replaceUnder p c v) ms) := by
  simp [replaceUnder, mapEntries, mapValues, Function.comp_def]

@[simp] theorem keysOutside_scalar (s : Scalar) : keysOutside p (.scalar s) = [] := by
  simp [keysOutside]

theorem mem_keysOutside_arr {items : List Json} {k : Text} :
    k ∈ keysOutside p (.arr items) ↔ ∃ v ∈ items, k ∈ keysOutside p v := by
  simp [keysOutside]

theorem mem_keysOutside_obj {ms : List (Text × Json)} {k : Text} :
    k ∈ keysOutside p (.obj ms) ↔
      ∃ m ∈ ms, k = m.1 ∨ p m.1 = false ∧ k ∈ keysOutside p m.2 := by
  simp only [keysOutside, fold_obj, mapValues, List.flatMap_map, List.mem_flatMap, List.mem_cons]
  refine exists_congr fun m => and_congr_right fun _ => or_congr_right ?_
  cases p m.1 <;> simp

/-- What is put in place of the values is forgotten when they are replaced again. -/
theorem replaceUnder_replaceUnder (v : Json) :
    replaceUnder p c (replaceUnder p d v) = replaceUnder p c v := by
  induction v using induct with
  | scalar s => simp
  | arr items ih =>
    simp only [replaceUnder_arr, List.map_map]
    exact congrArg Json.arr (List.map_congr_left ih)
  | obj ms ih =>
    simp only [replaceUnder_obj, mapEntries_mapEntries]
    refine congrArg Json.obj (mapEntries_congr fun m hm => ?_)
    cases p m.1 with
    | true => rfl
    | false => exact ih m hm

theorem keysOutside_replaceUnder (v : Json) :
    keysOutside p (replaceUnder p c v) = keysOutside p v := by
  induction v using induct with
  | scalar s => simp
  | arr items ih =>
    simp only [replaceUnder_arr, keysOutside, fold_arr, List.map_map]
    exact congrArg List.flatten (List.map_congr_left ih)
  | obj ms ih =>
    simp only [replaceUnder_obj, keysOutside, fold_obj, mapValues, mapEntries, List.flatMap_map]
    refine List.flatMap_congr fun m hm => congrArg (m.1 :: ·) ?_
    cases hp : p m.1 with
    | true => simp
    | false => simpa [hp, keysOutside] using ih m hm

theorem distinctKeys_replaceUnder (hc : c.distinctKeys = true) {v : Json}
    (hv : v.distinctKeys = true) : (replaceUnder p c v).distinctKeys = true := by
  induction v using induct with
  | scalar s => simp
  | arr items ih =>
    rw [distinctKeys_arr] at hv
    rw [replaceUnder_arr, distinctKeys_arr]
    intro w hw
    obtain ⟨v, hmem, rfl⟩ := List.mem_map.mp hw
    exact ih v hmem (hv v hmem)
  | obj ms ih =>
    rw [distinctKeys_obj] at hv
    rw [replaceUnder_obj, distinctKeys_obj, keysOf_mapEntries]
    refine ⟨hv.1, fun m hm => ?_⟩
    obtain ⟨n, hn, rfl⟩ := List.mem_map.mp hm
    dsimp only
    split
    · exact hc
    · exact ih n hn (hv.2 n hn)

@[simp] theorem outside_scalar (s : Scalar) : outside p (.scalar s) = .scalar s := by
  simp [outside]

@[simp] theorem outside_arr (items : List Json) :
    outside p (.arr items) = .arr (items.map (outside p)) := by
  simp [outside, Function.comp_def]

theorem outside_obj (ms : List (Text × Json)) : outside p (.obj ms) =
    .obj (sortKeys (mapEntries (fun k v => if p k then .scalar .null else outside p v) ms)) := by
  have hsorted : ∀ ns : List (Text × Json), (Layout.sorted).run ns = sortKeys ns := fun _ => rfl
  rw [outside, replaceUnder_obj, rebuild_obj, hsorted, ← sortKeys_mapValues, mapValues_mapEntries]
  congr 2
  refine mapEntries_congr fun m _ => ?_
  cases p m.1 with
  | true => simp
  | false => rfl

end Json

/-- The object with a scalar in place of each value under a key of `p`. -/
def Object.replaceUnder (p : Text → Bool) (s : Scalar) (o : Object) : Object where
  members := mapEntries
    (fun k v => if p k then .scalar s else Json.replaceUnder p (.scalar s) v) o.members
  distinct := by
    rw [← Json.replaceUnder_obj]
    exact Json.distinctKeys_replaceUnder (Json.distinctKeys_scalar s) o.distinct

theorem Object.obj_replaceUnder (p : Text → Bool) (s : Scalar) (o : Object) :
    .obj (o.replaceUnder p s).members = Json.replaceUnder p (.scalar s) (.obj o.members) :=
  (Json.replaceUnder_obj o.members).symm

namespace Json

/-- The scalar stands under a key of `p`. -/
inductive Under (p : Text → Bool) (s : Scalar) : Json → Prop where
  | here {ms k} : (k, .scalar s) ∈ ms → p k = true → Under p s (.obj ms)
  | member {ms m} : m ∈ ms → Under p s m.2 → Under p s (.obj ms)
  | item {items v} : v ∈ items → Under p s v → Under p s (.arr items)

theorem mem_members_sorted {g : Scalar → Scalar} {ms : List (Text × Json)} {m : Text × Json} :
    m ∈ mapValues (rebuild g .sorted) (Layout.sorted.run ms) ↔
      ∃ k v, (k, v) ∈ ms ∧ (k, rebuild g .sorted v) = m := by
  simp only [mapValues, List.mem_map, Prod.exists]
  refine exists_congr fun k => exists_congr fun v => and_congr_left fun _ => ?_
  exact (perm_sortKeys ms).mem_iff

theorem under_rebuild {p : Text → Bool} {g : Scalar → Scalar} {s : Scalar} {v : Json} :
    Under p s (v.rebuild g .sorted) ↔ ∃ s', g s' = s ∧ Under p s' v := by
  induction v using induct with
  | scalar s' =>
    rw [rebuild_scalar]
    constructor
    · intro h
      cases h
    · intro h
      obtain ⟨_, _, h⟩ := h
      cases h
  | arr items ih =>
    rw [rebuild_arr]
    constructor
    · intro h
      cases h with
      | item hw hunder =>
        obtain ⟨v, hv, rfl⟩ := List.mem_map.mp hw
        obtain ⟨s', hs', hunder'⟩ := (ih v hv).mp hunder
        exact ⟨s', hs', .item hv hunder'⟩
    · intro h
      obtain ⟨s', hs', hunder⟩ := h
      cases hunder with
      | item hv hunder' => exact .item (List.mem_map_of_mem hv) ((ih _ hv).mpr ⟨s', hs', hunder'⟩)
  | obj ms ih =>
    rw [rebuild_obj]
    constructor
    · intro h
      cases h with
      | @here _ k hmem hp =>
        obtain ⟨k', v, hv, heq⟩ := mem_members_sorted.mp hmem
        obtain ⟨rfl, hscalar⟩ := Prod.mk.inj heq
        cases v with
        | scalar s' =>
          rw [rebuild_scalar] at hscalar
          exact ⟨s', Json.scalar.inj hscalar, .here hv hp⟩
        | arr items => exact absurd hscalar (by simp)
        | obj ms' => exact absurd hscalar (by simp [rebuild_obj])
      | member hmem hunder =>
        obtain ⟨k', v, hv, rfl⟩ := mem_members_sorted.mp hmem
        obtain ⟨s', hs', hunder'⟩ := (ih (k', v) hv).mp hunder
        exact ⟨s', hs', .member hv hunder'⟩
    · intro h
      obtain ⟨s', hs', hunder⟩ := h
      cases hunder with
      | @here _ k hmem hp =>
        refine .here (k := k) (mem_members_sorted.mpr ⟨k, _, hmem, ?_⟩) hp
        rw [rebuild_scalar, hs']
      | @member _ m hmem hunder' =>
        exact .member (mem_members_sorted.mpr ⟨m.1, m.2, hmem, rfl⟩)
          ((ih m hmem).mpr ⟨s', hs', hunder'⟩)

end Json

end OpenRupiv.Js
