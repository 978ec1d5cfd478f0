import OpenRupiv.Js.Date
import OpenRupiv.Js.Redaction
import OpenRupiv.Lib.Descent
import Mathlib.Data.Fintype.Card

/-!
# Values as a graph

JavaScript values with dates, errors and circles: a heap of nodes that refer to one another.
`serialize` is what `JSON.stringify` makes of a value; it throws exactly when paths of every length
lead away from the value (`printed_eq_none_iff`).

Two heaps are alike outside some keys when a bisimulation relates them that does not look at the
values under these keys.
-/

namespace OpenRupiv.Js

open Lib

namespace Heap

inductive Value (n : Nat) where
  | scalar (s : Scalar)
  | undefined
  | ref (r : Fin n)

/-- An object, with its own enumerable properties as `Object.entries` lists them. -/
inductive Node (n : Nat) where
  /-- `none` is the invalid date. -/
  | date (ms : Option Int)
  | error (name message : Text) (members : List (Text × Value n))
  | arr (items : List (Value n))
  | obj (members : List (Text × Value n))

def Node.members {n : Nat} : Node n → List (Text × Value n)
  | .error _ _ ms | .obj ms => ms
  | _ => []

def Node.items {n : Nat} : Node n → List (Value n)
  | .arr items => items
  | _ => []

end Heap

structure Heap (n : Nat) where
  node : Fin n → Heap.Node n
  distinct : ∀ r, (keysOf (node r).members).Nodup

namespace Heap

variable {n m : Nat}

/-- What `JSON.stringify` makes of a value: nothing of `undefined`, and `none` when it throws. -/
abbrev Printed : Type := Option (Option Json)

/-- The members that an object is printed with. -/
def present (entries : List (Text × Option Json)) : List (Text × Json) :=
  entries.filterMap fun m => m.2.map (Prod.mk m.1)

def printedObject (entries : List (Text × Printed)) : Printed :=
  (entries.mapM fun m : Text × Printed => m.2.map (Prod.mk m.1)).map fun es =>
    some (.obj (present es))

def printedArray (items : List Printed) : Printed :=
  (items.mapM id).map fun js => some (.arr (js.map (·.getD (.scalar .null))))

/-- `Date.prototype.toJSON` -/
def dateJson : Option Int → Json
  | none => .scalar .null
  | some ms => .scalar (.str (toISOString ms))

def printedNode (print : Value n → Printed) : Node n → Printed
  | .date ms => some (some (dateJson ms))
  | .arr items => printedArray (items.map print)
  | .error _ _ ms | .obj ms => printedObject (mapValues print ms)

/-- `SerializeJSONProperty`, which throws when it comes back to an object on its stack.  There is
fuel for a stack as high as the heap is large. -/
def serialize (h : Heap n) : Nat → List (Fin n) → Value n → Printed
  | _, _, .scalar s => some (some (.scalar s))
  | _, _, .undefined => some none
  | 0, _, .ref _ => none
  | fuel + 1, stack, .ref r =>
      if r ∈ stack then none else printedNode (serialize h fuel (r :: stack)) (h.node r)

def printed (h : Heap n) (v : Value n) : Printed := h.serialize n [] v

theorem mapM_eq_none_iff {α β : Type} {f : α → Option β} {xs : List α} :
    xs.mapM f = none ↔ ∃ x ∈ xs, f x = none := by
  induction xs with
  | nil => simp
  | cons x xs ih =>
    rw [List.mapM_cons]
    cases hx : f x with
    | none => simp [hx]
    | some y =>
      cases hxs : xs.mapM f with
      | none =>
        obtain ⟨x', hmem, hx'⟩ := ih.mp hxs
        simp only [Option.bind_eq_bind, Option.bind_some, Option.bind_none, true_iff]
        exact ⟨x', List.mem_cons_of_mem _ hmem, hx'⟩
      | some ys =>
        rw [hxs] at ih
        have hnone : ¬∃ x ∈ xs, f x = none := fun h => Option.some_ne_none _ (ih.mpr h)
        simp [hx, hnone]

theorem mapM_eq_some_iff {α β : Type} {f : α → Option β} {xs : List α} {ys : List β} :
    xs.mapM f = some ys ↔ List.Forall₂ (fun x y => f x = some y) xs ys := by
  induction xs generalizing ys with
  | nil => simp [eq_comm]
  | cons x xs ih =>
    rw [List.mapM_cons, List.forall₂_cons_left_iff]
    simp only [Option.bind_eq_bind, Option.bind_eq_some_iff, ih, Option.pure_def,
      Option.some.injEq]
    grind

/-- What a node holds outside the keys of `p`. -/
def Node.Holds (p : Text → Bool) (node : Node n) (w : Value n) : Prop :=
  w ∈ node.items ∨ ∃ k, (k, w) ∈ node.members ∧ p k = false

/-- No key at all. -/
def nowhere (_ : Text) : Bool := false

theorem Node.Holds.anywhere {p : Text → Bool} {node : Node n} {w : Value n}
    (hw : node.Holds p w) : node.Holds nowhere w := by
  refine hw.imp id fun hmember => ?_
  obtain ⟨k, hmem, -⟩ := hmember
  exact ⟨k, hmem, rfl⟩

theorem printedObject_eq_none_iff {entries : List (Text × Printed)} :
    printedObject entries = none ↔ ∃ m ∈ entries, m.2 = none := by
  unfold printedObject
  rw [Option.map_eq_none_iff, mapM_eq_none_iff]
  simp only [Option.map_eq_none_iff]

theorem printedArray_eq_none_iff {items : List Printed} :
    printedArray items = none ↔ none ∈ items := by
  unfold printedArray
  rw [Option.map_eq_none_iff, mapM_eq_none_iff]
  simp

theorem printedNode_eq_none_iff {print : Value n → Printed} {node : Node n} :
    printedNode print node = none ↔ ∃ w, node.Holds nowhere w ∧ print w = none := by
  have hobject : ∀ ms : List (Text × Value n), printedObject (mapValues print ms) = none ↔
      ∃ w, (∃ k, (k, w) ∈ ms) ∧ print w = none := by
    intro ms
    rw [printedObject_eq_none_iff]
    simp only [mapValues, List.mem_map, Prod.exists]
    grind
  cases node with
  | date ms => simp [printedNode, Node.Holds, Node.items, Node.members]
  | error name message ms =>
    simpa [printedNode, Node.Holds, Node.items, Node.members, nowhere] using hobject ms
  | obj ms => simpa [printedNode, Node.Holds, Node.items, Node.members, nowhere] using hobject ms
  | arr items =>
    simp only [printedNode, printedArray, Option.map_eq_none_iff, mapM_eq_none_iff, List.mem_map]
    simp [Node.Holds, Node.items, Node.members]

theorem exists_of_printedNode {print : Value n → Printed} {node : Node n} {o : Option Json}
    (h : printedNode print node = some o) : ∃ j, o = some j := by
  cases node with
  | date ms => exact ⟨_, (Option.some.inj h).symm⟩
  | error name message ms =>
    obtain ⟨es, -, h⟩ := Option.map_eq_some_iff.mp h
    exact ⟨_, h.symm⟩
  | arr items =>
    obtain ⟨js, -, h⟩ := Option.map_eq_some_iff.mp h
    exact ⟨_, h.symm⟩
  | obj ms =>
    obtain ⟨es, -, h⟩ := Option.map_eq_some_iff.mp h
    exact ⟨_, h.symm⟩

theorem printedNode_congr {print print' : Value n → Printed} {node : Node n}
    (h : ∀ w, node.Holds nowhere w → print w = print' w) :
    printedNode print node = printedNode print' node := by
  cases node with
  | date ms => rfl
  | error name message ms =>
    exact congrArg printedObject (mapValues_congr fun m hm => h m.2 (.inr ⟨m.1, hm, rfl⟩))
  | arr items => exact congrArg printedArray (List.map_congr_left fun w hw => h w (.inl hw))
  | obj ms =>
    exact congrArg printedObject (mapValues_congr fun m hm => h m.2 (.inr ⟨m.1, hm, rfl⟩))

/-- The value unfolded as a tree, to a depth that may not be enough. -/
def unfold (h : Heap n) : Nat → Value n → Printed
  | _, .scalar s => some (some (.scalar s))
  | _, .undefined => some none
  | 0, .ref _ => none
  | k + 1, .ref r => printedNode (unfold h k) (h.node r)

/-- A step to what a value holds outside the keys of `p`. -/
def Step (p : Text → Bool) (h : Heap n) : Value n → Value n → Prop
  | .ref r, w => (h.node r).Holds p w
  | _, _ => False

variable {h : Heap n} {k fuel : Nat} {v : Value n} {o : Option Json} {stack : List (Fin n)}

theorem unfold_succ (hv : h.unfold k v = some o) : h.unfold (k + 1) v = some o := by
  induction k generalizing v o with
  | zero =>
    cases v with
    | ref r => exact absurd hv (by simp [unfold])
    | scalar s => exact hv
    | undefined => exact hv
  | succ k ih =>
    cases v with
    | scalar s => exact hv
    | undefined => exact hv
    | ref r =>
      have hsame :
          printedNode (h.unfold k) (h.node r) = printedNode (h.unfold (k + 1)) (h.node r) := by
        apply printedNode_congr
        intro w hw
        cases hunfold : h.unfold k w with
        | some o' => exact (ih hunfold).symm
        | none =>
          have hnone := printedNode_eq_none_iff.mpr ⟨w, hw, hunfold⟩
          exact absurd (hnone.symm.trans hv) (by simp)
      exact hsame.symm.trans hv

theorem unfold_mono {k' : Nat} (hk : k ≤ k') (hv : h.unfold k v = some o) :
    h.unfold k' v = some o := by
  induction hk with
  | refl => exact hv
  | step _ ih => exact unfold_succ ih

theorem unfold_of_serialize (hv : h.serialize fuel stack v = some o) :
    h.unfold fuel v = some o := by
  induction fuel generalizing stack v o with
  | zero => cases v <;> exact hv
  | succ fuel ih =>
    cases v with
    | scalar s => exact hv
    | undefined => exact hv
    | ref r =>
      obtain ⟨-, hnode⟩ := Option.ite_none_left_eq_some.mp hv
      have hsame : printedNode (h.serialize fuel (r :: stack)) (h.node r) =
          printedNode (h.unfold fuel) (h.node r) := by
        apply printedNode_congr
        intro w hw
        cases hserialize : h.serialize fuel (r :: stack) w with
        | some o' => exact (ih hserialize).symm
        | none =>
          have hnone := printedNode_eq_none_iff.mpr ⟨w, hw, hserialize⟩
          exact absurd (hnone.symm.trans hnode) (by simp)
      exact hsame.symm.trans hnode

theorem not_deep_of_unfold (hv : h.unfold k v = some o) : ¬Deep (Step nowhere h) (k + 1) v := by
  rintro ⟨w, hstep, hw⟩
  induction k generalizing v w o with
  | zero =>
    cases v with
    | ref r => exact absurd hv (by simp [unfold])
    | scalar s => exact hstep
    | undefined => exact hstep
  | succ k ih =>
    cases v with
    | scalar s => exact hstep
    | undefined => exact hstep
    | ref r =>
      cases hunfold : h.unfold k w with
      | none =>
        have hnone := printedNode_eq_none_iff.mpr ⟨w, hstep, hunfold⟩
        exact absurd (hnone.symm.trans hv) (by simp)
      | some o' =>
        obtain ⟨w', hstep', hw'⟩ := hw
        exact ih hunfold w' hstep' hw'

/-- What throws leads round a circle: it comes back to an object that leads to it, and the objects
that lead to it are different. -/
theorem endless_of_serialize (hfuel : fuel + stack.length = n) (hstack : stack.Nodup)
    (hleads : ∀ r ∈ stack, Relation.TransGen (Step nowhere h) (.ref r) v)
    (hv : h.serialize fuel stack v = none) : Endless (Step nowhere h) v := by
  induction fuel generalizing stack v with
  | zero =>
    cases v with
    | scalar s => exact absurd hv (by simp [serialize])
    | undefined => exact absurd hv (by simp [serialize])
    | ref r =>
      have hall : r ∈ stack := by
        by_contra hr
        have hlength := (List.nodup_cons.mpr ⟨hr, hstack⟩).length_le_card
        rw [Fintype.card_fin, List.length_cons] at hlength
        omega
      exact endless_of_circle (hleads r hall)
  | succ fuel ih =>
    cases v with
    | scalar s => exact absurd hv (by simp [serialize])
    | undefined => exact absurd hv (by simp [serialize])
    | ref r =>
      by_cases hr : r ∈ stack
      · exact endless_of_circle (hleads r hr)
      · rw [serialize, if_neg hr] at hv
        obtain ⟨w, hw, hnone⟩ := printedNode_eq_none_iff.mp hv
        have hstep : Step nowhere h (.ref r) w := hw
        have hleads' : ∀ r' ∈ r :: stack, Relation.TransGen (Step nowhere h) (.ref r') w := by
          intro r' hr'
          rcases List.mem_cons.mp hr' with rfl | hr'
          · exact .single hstep
          · exact (hleads r' hr').tail hstep
        refine (ih ?_ (List.nodup_cons.mpr ⟨hr, hstack⟩) hleads' hnone).of_step hstep
        rw [List.length_cons]
        omega

theorem endless_of_printed (hv : h.printed v = none) : Endless (Step nowhere h) v :=
  endless_of_serialize (Nat.add_zero n) List.nodup_nil (fun _ hr => absurd hr List.not_mem_nil) hv

theorem printed_eq_some_iff : h.printed v = some o ↔ ∃ k, h.unfold k v = some o := by
  constructor
  · intro hv
    exact ⟨n, unfold_of_serialize hv⟩
  · rintro ⟨k, hk⟩
    cases hprinted : h.printed v with
    | none => exact absurd (endless_of_printed hprinted (k + 1)) (not_deep_of_unfold hk)
    | some o' =>
      have hn := unfold_of_serialize hprinted
      have hmax := unfold_mono (le_max_left n k) hn
      rw [unfold_mono (le_max_right n k) hk] at hmax
      exact hmax.symm

theorem printed_eq_none_iff : h.printed v = none ↔ Endless (Step nowhere h) v := by
  refine ⟨endless_of_printed, fun hendless => ?_⟩
  rw [Option.eq_none_iff_forall_ne_some]
  intro o hv
  obtain ⟨k, hk⟩ := printed_eq_some_iff.mp hv
  exact not_deep_of_unfold hk (hendless (k + 1))

theorem Step.anywhere {p : Text → Bool} {w : Value n} (hw : Step p h v w) : Step nowhere h v w := by
  cases v with
  | scalar s => exact hw
  | undefined => exact hw
  | ref r => exact Node.Holds.anywhere hw

theorem printed_eq_none_of_endless {p : Text → Bool} (hendless : Endless (Step p h) v) :
    h.printed v = none := by
  rw [printed_eq_none_iff]
  intro k
  refine Deep.follow (S := Step nowhere h) (T := Eq) ?_ rfl (hendless k)
  rintro a _ b rfl hstep
  exact ⟨b, hstep.anywhere, rfl⟩

section

variable (p : Text → Bool) (R : Value n → Value m → Prop)

/-- The same keys in the same order, with related values outside the keys of `p`. -/
def MembersAlike : List (Text × Value n) → List (Text × Value m) → Prop :=
  List.Forall₂ fun x x' => x.1 = x'.1 ∧ (p x.1 = false → R x.2 x'.2)

def NodesAlike : Node n → Node m → Prop
  | .date ms, .date ms' => ms = ms'
  | .error name message ms, .error name' message' ms' =>
      name = name' ∧ message = message' ∧ MembersAlike p R ms ms'
  | .arr items, .arr items' => List.Forall₂ R items items'
  | .obj ms, .obj ms' => MembersAlike p R ms ms'
  | _, _ => False

def ValuesAlike (h : Heap n) (h' : Heap m) : Value n → Value m → Prop
  | .scalar s, .scalar s' => s = s'
  | .undefined, .undefined => True
  | .ref r, .ref r' => NodesAlike p R (h.node r) (h'.node r')
  | _, _ => False

/-- Related values are alike, and what they hold outside the keys of `p` is related. -/
def Bisimulation (h : Heap n) (h' : Heap m) : Prop := ∀ v v', R v v' → ValuesAlike p R h h' v v'

end

variable {p : Text → Bool} {R : Value n → Value m → Prop} {h' : Heap m} {v' : Value m}

theorem exists_of_forall₂ {α β : Type} {T : α → β → Prop} {xs : List α} {ys : List β}
    (hall : List.Forall₂ T xs ys) {x : α} (hx : x ∈ xs) : ∃ y ∈ ys, T x y := by
  induction hall with
  | nil => exact absurd hx List.not_mem_nil
  | @cons x' y xs ys hT _ ih =>
    rcases List.mem_cons.mp hx with rfl | hx
    · exact ⟨y, List.mem_cons_self, hT⟩
    · obtain ⟨y', hy', hT'⟩ := ih hx
      exact ⟨y', List.mem_cons_of_mem _ hy', hT'⟩

theorem map_eq_of_forall₂ {α β γ : Type} {T : α → β → Prop} {f : α → γ} {g : β → γ}
    {xs : List α} {ys : List β} (hall : List.Forall₂ T xs ys)
    (hT : ∀ x ∈ xs, ∀ y, T x y → f x = g y) : xs.map f = ys.map g := by
  induction hall with
  | nil => rfl
  | cons hxy _ ih =>
    rw [List.forall_mem_cons] at hT
    rw [List.map_cons, List.map_cons, hT.1 _ hxy, ih hT.2]

theorem filterMap_eq_of_forall₂ {α β γ : Type} {T : α → β → Prop} {f : α → Option γ}
    {g : β → Option γ} {xs : List α} {ys : List β} (hall : List.Forall₂ T xs ys)
    (hT : ∀ x ∈ xs, ∀ y, T x y → f x = g y) : xs.filterMap f = ys.filterMap g := by
  induction hall with
  | nil => rfl
  | cons hxy _ ih =>
    rw [List.forall_mem_cons] at hT
    rw [List.filterMap_cons, List.filterMap_cons, hT.1 _ hxy, ih hT.2]

theorem mapM_eq_of_forall₂ {α β γ : Type} {T : α → β → Prop} {f : α → Option γ}
    {g : β → Option γ} {xs : List α} {ys : List β} (hall : List.Forall₂ T xs ys)
    (hT : ∀ x ∈ xs, ∀ y, T x y → f x = g y) : xs.mapM f = ys.mapM g := by
  induction hall with
  | nil => rfl
  | cons hxy _ ih =>
    rw [List.forall_mem_cons] at hT
    rw [List.mapM_cons, List.mapM_cons, hT.1 _ hxy, ih hT.2]

theorem MembersAlike.holds {ms : List (Text × Value n)} {ms' : List (Text × Value m)}
    (hms : MembersAlike p R ms ms') {k : Text} {w : Value n} (hw : (k, w) ∈ ms) (hk : p k = false) :
    ∃ w', (k, w') ∈ ms' ∧ R w w' := by
  obtain ⟨⟨k', w'⟩, hmem, hkey, hR⟩ := exists_of_forall₂ hms hw
  obtain rfl : k = k' := hkey
  exact ⟨w', hmem, hR hk⟩

theorem MembersAlike.keysOf_eq {ms : List (Text × Value n)} {ms' : List (Text × Value m)}
    (hms : MembersAlike p R ms ms') : keysOf ms = keysOf ms' :=
  map_eq_of_forall₂ hms fun _ _ _ hx => hx.1

theorem MembersAlike.lookup {ms : List (Text × Value n)} {ms' : List (Text × Value m)}
    (hms : MembersAlike p R ms ms') {key : Text} (hkey : p key = false) {w : Value n}
    (hw : ms.lookup key = some w) : ∃ w', ms'.lookup key = some w' ∧ R w w' := by
  induction hms with
  | nil => exact absurd hw (by simp)
  | @cons x x' ms ms' hx _ ih =>
    obtain ⟨hkeys, hR⟩ := hx
    rw [List.lookup_cons] at hw ⊢
    by_cases hfirst : key = x.1
    · subst hfirst
      rw [beq_self_eq_true] at hw
      obtain rfl := Option.some.inj hw
      exact ⟨x'.2, by simp [hkeys], hR hkey⟩
    · have hother : (key == x.1) = false := by simpa using hfirst
      rw [hother] at hw
      rw [← hkeys, hother]
      exact ih hw

theorem MembersAlike.lookup_eq_none {ms : List (Text × Value n)} {ms' : List (Text × Value m)}
    (hms : MembersAlike p R ms ms') {key : Text} (hw : ms.lookup key = none) :
    ms'.lookup key = none := by
  rw [List.lookup_eq_none_iff] at hw ⊢
  intro x' hx'
  have hmem : x'.1 ∈ keysOf ms := hms.keysOf_eq ▸ List.mem_map_of_mem hx'
  obtain ⟨x, hx, hkeys⟩ := List.mem_map.mp hmem
  exact hkeys ▸ hw x hx

theorem NodesAlike.cases {node : Node n} {node' : Node m} (hnode : NodesAlike p R node node') :
    (∃ ms, node = .date ms ∧ node' = .date ms) ∨
    (∃ name message ms ms', node = .error name message ms ∧ node' = .error name message ms' ∧
      MembersAlike p R ms ms') ∨
    (∃ items items', node = .arr items ∧ node' = .arr items' ∧ List.Forall₂ R items items') ∨
    ∃ ms ms', node = .obj ms ∧ node' = .obj ms' ∧ MembersAlike p R ms ms' := by
  cases node with
  | date ms =>
    cases node' with
    | date ms' =>
      obtain rfl : ms = ms' := hnode
      exact .inl ⟨ms, rfl, rfl⟩
    | _ => exact hnode.elim
  | error name message ms =>
    cases node' with
    | error name' message' ms' =>
      obtain ⟨rfl, rfl, hms⟩ := hnode
      exact .inr (.inl ⟨name, message, ms, ms', rfl, rfl, hms⟩)
    | _ => exact hnode.elim
  | arr items =>
    cases node' with
    | arr items' => exact .inr (.inr (.inl ⟨items, items', rfl, rfl, hnode⟩))
    | _ => exact hnode.elim
  | obj ms =>
    cases node' with
    | obj ms' => exact .inr (.inr (.inr ⟨ms, ms', rfl, rfl, hnode⟩))
    | _ => exact hnode.elim

theorem Bisimulation.ref (hR : Bisimulation p R h h') {r : Fin n} (hv : R (.ref r) v') :
    ∃ r', v' = .ref r' ∧ NodesAlike p R (h.node r) (h'.node r') := by
  have halike := hR _ _ hv
  cases v' with
  | ref r' => exact ⟨r', rfl, halike⟩
  | _ => exact halike.elim

theorem NodesAlike.holds {node : Node n} {node' : Node m} (hnode : NodesAlike p R node node')
    {w : Value n} (hw : node.Holds p w) : ∃ w', node'.Holds p w' ∧ R w w' := by
  have hmembers : ∀ {ms : List (Text × Value n)} {ms' : List (Text × Value m)},
      MembersAlike p R ms ms' → (∃ k, (k, w) ∈ ms ∧ p k = false) →
      ∃ w', (∃ k, (k, w') ∈ ms' ∧ p k = false) ∧ R w w' := by
    intro ms ms' hms hw
    obtain ⟨k, hmem, hk⟩ := hw
    obtain ⟨w', hw', hR⟩ := hms.holds hmem hk
    exact ⟨w', ⟨k, hw', hk⟩, hR⟩
  obtain ⟨ms, rfl, rfl⟩ | ⟨name, message, ms, ms', rfl, rfl, hms⟩ |
    ⟨items, items', rfl, rfl, hitems⟩ | ⟨ms, ms', rfl, rfl, hms⟩ := hnode.cases
  · exact absurd hw (by simp [Node.Holds, Node.items, Node.members])
  · obtain ⟨w', hw', hR⟩ := hmembers hms (hw.resolve_left List.not_mem_nil)
    exact ⟨w', .inr hw', hR⟩
  · have hitem : w ∈ items := hw.resolve_right fun ⟨_, hmem, _⟩ => List.not_mem_nil hmem
    obtain ⟨w', hw', hR⟩ := exists_of_forall₂ hitems hitem
    exact ⟨w', .inl hw', hR⟩
  · obtain ⟨w', hw', hR⟩ := hmembers hms (hw.resolve_left List.not_mem_nil)
    exact ⟨w', .inr hw', hR⟩

theorem NodesAlike.printed {print : Value n → Printed} {print' : Value m → Printed}
    {node : Node n} {node' : Node m} (hnode : NodesAlike p R node node')
    (hkeys : ∀ x ∈ node.members, p x.1 = false)
    (hprint : ∀ w, node.Holds p w → ∀ w', R w w' → print w = print' w') :
    printedNode print node = printedNode print' node' := by
  have hmembers : ∀ {ms : List (Text × Value n)} {ms' : List (Text × Value m)},
      MembersAlike p R ms ms' → (∀ x ∈ ms, p x.1 = false ∧ node.Holds p x.2) →
      mapValues print ms = mapValues print' ms' := by
    intro ms ms' hms hheld
    refine map_eq_of_forall₂ hms fun x hx x' hxx' => ?_
    obtain ⟨hk, hx⟩ := hheld x hx
    rw [hxx'.1, hprint x.2 hx x'.2 (hxx'.2 hk)]
  obtain ⟨ms, rfl, rfl⟩ | ⟨name, message, ms, ms', rfl, rfl, hms⟩ |
    ⟨items, items', rfl, rfl, hitems⟩ | ⟨ms, ms', rfl, rfl, hms⟩ := hnode.cases
  · rfl
  · refine congrArg printedObject (hmembers hms fun x hx => ?_)
    exact ⟨hkeys x hx, .inr ⟨x.1, hx, hkeys x hx⟩⟩
  · exact congrArg printedArray (map_eq_of_forall₂ hitems fun w hw w' => hprint w (.inl hw) w')
  · refine congrArg printedObject (hmembers hms fun x hx => ?_)
    exact ⟨hkeys x hx, .inr ⟨x.1, hx, hkeys x hx⟩⟩

theorem Bisimulation.step (hR : Bisimulation p R h h') {w : Value n} (hv : R v v')
    (hw : Step p h v w) : ∃ w', Step p h' v' w' ∧ R w w' := by
  cases v with
  | scalar s => exact hw.elim
  | undefined => exact hw.elim
  | ref r =>
    obtain ⟨r', rfl, hnode⟩ := hR.ref hv
    exact hnode.holds hw

theorem Bisimulation.endless (hR : Bisimulation p R h h') (hv : R v v')
    (hendless : Endless (Step p h) v) : Endless (Step p h') v' :=
  fun k => Deep.follow (S := Step p h') (T := R) (fun hT hstep => hR.step hT hstep) hv (hendless k)

theorem MembersAlike.flip {ms : List (Text × Value n)} {ms' : List (Text × Value m)}
    (hms : MembersAlike p R ms ms') : MembersAlike p (flip R) ms' ms := by
  refine List.Forall₂.flip (hms.imp fun x x' hx => ?_)
  exact ⟨hx.1.symm, fun hk => hx.2 (hx.1 ▸ hk)⟩

theorem NodesAlike.flip {node : Node n} {node' : Node m} (hnode : NodesAlike p R node node') :
    NodesAlike p (flip R) node' node := by
  obtain ⟨ms, rfl, rfl⟩ | ⟨name, message, ms, ms', rfl, rfl, hms⟩ |
    ⟨items, items', rfl, rfl, hitems⟩ | ⟨ms, ms', rfl, rfl, hms⟩ := hnode.cases
  · rfl
  · exact ⟨rfl, rfl, hms.flip⟩
  · exact hitems.flip
  · exact MembersAlike.flip hms

theorem Bisimulation.flip (hR : Bisimulation p R h h') : Bisimulation p (flip R) h' h := by
  intro v' v hv
  have halike := hR v v' hv
  cases v with
  | scalar s =>
    cases v' with
    | scalar s' => exact Eq.symm halike
    | _ => exact halike.elim
  | undefined =>
    cases v' with
    | undefined => exact trivial
    | _ => exact halike.elim
  | ref r =>
    obtain ⟨r', rfl, hnode⟩ := hR.ref hv
    exact hnode.flip

/-- An object that the value leads to outside the keys of `p` has one of these keys. -/
def Exposes (p : Text → Bool) (h : Heap n) (v : Value n) : Prop :=
  ∃ r, Relation.ReflTransGen (Step p h) v (.ref r) ∧ ∃ x ∈ (h.node r).members, p x.1 = true

theorem unfold_congr (hR : Bisimulation p R h h') (hv : R v v') (hexposes : ¬Exposes p h v) :
    h.unfold k v = h'.unfold k v' := by
  induction k generalizing v v' with
  | zero =>
    have halike := hR v v' hv
    cases v <;> cases v' <;> first | exact halike.elim | rfl | skip
    exact congrArg (fun s => some (some (Json.scalar s))) halike
  | succ k ih =>
    have halike := hR v v' hv
    cases v with
    | scalar s =>
      cases v' with
      | scalar s' => exact congrArg (fun s => some (some (Json.scalar s))) halike
      | _ => exact halike.elim
    | undefined =>
      cases v' with
      | undefined => rfl
      | _ => exact halike.elim
    | ref r =>
      obtain ⟨r', rfl, hnode⟩ := hR.ref hv
      apply hnode.printed
      · intro x hx
        by_contra hk
        exact hexposes ⟨r, .refl, x, hx, by simpa using hk⟩
      · intro w hw w' hww'
        apply ih hww'
        rintro ⟨r', hpath, hkey⟩
        exact hexposes ⟨r', .head hw hpath, hkey⟩

/-- What is printed of alike values is the same, where no key of `p` is. -/
theorem printed_congr (hR : Bisimulation p R h h') (hv : R v v') (hexposes : ¬Exposes p h v) :
    h.printed v = h'.printed v' := by
  apply Option.ext
  intro o
  rw [printed_eq_some_iff, printed_eq_some_iff]
  simp only [unfold_congr hR hv hexposes]

section

variable (p : Text → Bool) (s : Scalar)

def replaceMembers (ms : List (Text × Value n)) : List (Text × Value n) :=
  mapEntries (fun k v => if p k then .scalar s else v) ms

def Node.replace : Node n → Node n
  | .error name message ms => .error name message (replaceMembers p s ms)
  | .obj ms => .obj (replaceMembers p s ms)
  | node => node

theorem Node.members_replace (node : Node n) :
    (node.replace p s).members = replaceMembers p s node.members := by
  cases node <;> rfl

theorem Node.items_replace (node : Node n) : (node.replace p s).items = node.items := by
  cases node <;> rfl

/-- The heap with the scalar under the keys of `p`. -/
def replace (h : Heap n) : Heap n where
  node r := (h.node r).replace p s
  distinct r := by
    rw [Node.members_replace, replaceMembers, keysOf_mapEntries]
    exact h.distinct r

end

variable {s : Scalar}

theorem membersAlike_replace (ms : List (Text × Value n)) :
    MembersAlike p Eq ms (replaceMembers p s ms) := by
  unfold MembersAlike replaceMembers mapEntries
  rw [List.forall₂_map_right_iff, List.forall₂_same]
  intro x _
  exact ⟨rfl, fun hk => by simp [hk]⟩

theorem bisimulation_replace (h : Heap n) : Bisimulation p Eq h (h.replace p s) := by
  rintro v _ rfl
  cases v with
  | scalar s => rfl
  | undefined => trivial
  | ref r =>
    change NodesAlike p Eq (h.node r) ((h.node r).replace p s)
    cases h.node r with
    | date ms => rfl
    | error name message ms => exact ⟨rfl, rfl, membersAlike_replace ms⟩
    | arr items => exact List.forall₂_refl items
    | obj ms => exact membersAlike_replace ms

/-- What the heap holds then is the scalar, or what it held outside the keys. -/
theorem holds_replace {node : Node n} {w : Value n} (hw : (node.replace p s).Holds nowhere w) :
    w = .scalar s ∨ node.Holds p w := by
  rcases hw with hw | ⟨k, hw, -⟩
  · rw [Node.items_replace] at hw
    exact .inr (.inl hw)
  · rw [Node.members_replace] at hw
    obtain ⟨x, hx, heq⟩ := List.mem_map.mp hw
    obtain ⟨rfl, rfl⟩ := Prod.mk.inj heq
    by_cases hk : p x.1 = true
    · exact .inl (if_pos hk)
    · have hk' : p x.1 = false := by simpa using hk
      refine .inr (.inr ⟨x.1, ?_, hk'⟩)
      simpa only [hk', Bool.false_eq_true, if_false] using hx

theorem deep_of_replace (hdeep : Deep (Step nowhere (h.replace p s)) (k + 1) v) :
    Deep (Step p h) k v := by
  induction k generalizing v with
  | zero => exact trivial
  | succ k ih =>
    obtain ⟨w, hstep, hw⟩ := hdeep
    cases v with
    | scalar s => exact hstep.elim
    | undefined => exact hstep.elim
    | ref r =>
      rcases holds_replace hstep with rfl | hheld
      · obtain ⟨_, hstep', _⟩ := hw
        exact hstep'.elim
      · exact ⟨w, hheld, ih hw⟩

theorem endless_of_printed_replace (hv : (h.replace p s).printed v = none) :
    Endless (Step p h) v :=
  fun k => deep_of_replace (printed_eq_none_iff.mp hv (k + 1))

theorem mem_present {es : List (Text × Option Json)} {key : Text} {j : Json} :
    (key, j) ∈ present es ↔ (key, some j) ∈ es := by
  unfold present
  rw [List.mem_filterMap]
  constructor
  · rintro ⟨⟨key', o⟩, hmem, heq⟩
    obtain ⟨j', hj', heq⟩ := Option.map_eq_some_iff.mp heq
    obtain ⟨rfl, rfl⟩ := Prod.mk.inj heq
    obtain rfl : o = some j' := hj'
    exact hmem
  · intro hmem
    exact ⟨(key, some j), hmem, rfl⟩

theorem keysOf_present (es : List (Text × Option Json)) :
    (keysOf (present es)).Sublist (keysOf es) := by
  induction es with
  | nil => exact .slnil
  | cons e es ih =>
    obtain ⟨key, o⟩ := e
    cases o with
    | none => exact ih.cons key
    | some j => exact ih.cons_cons key

private theorem entries_eq_of_mapM {entries : List (Text × Printed)}
    {es : List (Text × Option Json)}
    (hes : (entries.mapM fun x : Text × Printed => x.2.map (Prod.mk x.1)) = some es) :
    entries = mapValues some es := by
  have hall := mapM_eq_some_iff.mp hes
  clear hes
  induction hall with
  | nil => rfl
  | @cons x e entries es hx _ ih =>
    obtain ⟨key, o⟩ := x
    obtain ⟨o', rfl, rfl⟩ := Option.map_eq_some_iff.mp hx
    rw [ih, mapValues_cons]

theorem printedObject_eq_some {entries : List (Text × Printed)} {o : Option Json}
    (ho : printedObject entries = some o) : ∃ ms, o = some (.obj ms) ∧
      (∀ key j, (key, j) ∈ ms ↔ (key, some (some j)) ∈ entries) ∧
      (keysOf ms).Sublist (keysOf entries) := by
  obtain ⟨es, hes, rfl⟩ := Option.map_eq_some_iff.mp ho
  have hentries := entries_eq_of_mapM hes
  refine ⟨present es, rfl, fun key j => ?_, ?_⟩
  · rw [mem_present, hentries]
    simp only [mapValues, List.mem_map, Prod.mk.injEq, Option.some.injEq]
    constructor
    · intro hmem
      exact ⟨_, hmem, rfl, rfl⟩
    · rintro ⟨⟨key', o⟩, hmem, rfl, rfl⟩
      exact hmem
  · rw [hentries, keysOf_mapValues]
    exact keysOf_present es

/-- The items of an array that is printed: one for each, `null` for those that print as nothing. -/
theorem printedArray_eq_some {items : List Printed} {o : Option Json}
    (ho : printedArray items = some o) : ∃ js, o = some (.arr js) ∧
      ∀ j, j ∈ js ↔ ∃ o', some o' ∈ items ∧ o'.getD (.scalar .null) = j := by
  obtain ⟨os, hos, rfl⟩ := Option.map_eq_some_iff.mp ho
  have hitems : items = os.map some := by
    have hall := mapM_eq_some_iff.mp hos
    clear hos ho
    induction hall with
    | nil => rfl
    | cons hx _ ih =>
      rw [ih, List.map_cons]
      exact congrArg (· :: _) hx
  refine ⟨_, rfl, fun j => ?_⟩
  rw [hitems]
  simp

theorem under_printedObject {entries : List (Text × Printed)} {j : Json}
    (hj : printedObject entries = some (some j)) : Json.Under p s j ↔
      (∃ key, (key, some (some (.scalar s))) ∈ entries ∧ p key = true) ∨
        ∃ key j', (key, some (some j')) ∈ entries ∧ Json.Under p s j' := by
  obtain ⟨ms, hms, hmem, -⟩ := printedObject_eq_some hj
  obtain rfl := Option.some.inj hms
  constructor
  · intro h
    cases h with
    | here hkey hk => exact .inl ⟨_, (hmem _ _).mp hkey, hk⟩
    | @member _ x hx hunder => exact .inr ⟨x.1, x.2, (hmem _ _).mp hx, hunder⟩
  · rintro (⟨key, hkey, hk⟩ | ⟨key, j', hkey, hunder⟩)
    · exact .here ((hmem _ _).mpr hkey) hk
    · exact .member (m := (key, j')) ((hmem _ _).mpr hkey) hunder

theorem under_printedArray {items : List Printed} {j : Json}
    (hj : printedArray items = some (some j)) : Json.Under p s j ↔
      ∃ j', some (some j') ∈ items ∧ Json.Under p s j' := by
  obtain ⟨js, hjs, hmem⟩ := printedArray_eq_some hj
  obtain rfl := Option.some.inj hjs
  constructor
  · intro h
    cases h with
    | @item _ j' hj' hunder =>
      obtain ⟨o', ho', rfl⟩ := (hmem j').mp hj'
      cases o' with
      | none => cases hunder
      | some j'' => exact ⟨j'', ho', hunder⟩
  · intro h
    obtain ⟨j', hj', hunder⟩ := h
    exact .item ((hmem j').mpr ⟨some j', hj', rfl⟩) hunder

theorem distinctKeys_printedObject {entries : List (Text × Printed)} {j : Json}
    (hj : printedObject entries = some (some j)) (hkeys : (keysOf entries).Nodup)
    (hvalues : ∀ key j', (key, some (some j')) ∈ entries → j'.distinctKeys = true) :
    j.distinctKeys = true := by
  obtain ⟨ms, hms, hmem, hsublist⟩ := printedObject_eq_some hj
  obtain rfl := Option.some.inj hms
  rw [Json.distinctKeys_obj]
  exact ⟨hkeys.sublist hsublist, fun x hx => hvalues x.1 x.2 ((hmem _ _).mp hx)⟩

theorem distinctKeys_printedArray {items : List Printed} {j : Json}
    (hj : printedArray items = some (some j))
    (hvalues : ∀ j', some (some j') ∈ items → j'.distinctKeys = true) : j.distinctKeys = true := by
  obtain ⟨js, hjs, hmem⟩ := printedArray_eq_some hj
  obtain rfl := Option.some.inj hjs
  rw [Json.distinctKeys_arr]
  intro j' hj'
  obtain ⟨o', ho', rfl⟩ := (hmem j').mp hj'
  cases o' with
  | none => rfl
  | some j'' => exact hvalues j'' ho'

@[simp] theorem unfold_scalar (h : Heap n) (k : Nat) (s : Scalar) :
    h.unfold k (.scalar s) = some (some (.scalar s)) := by
  cases k <;> rfl

@[simp] theorem unfold_undefined (h : Heap n) (k : Nat) : h.unfold k .undefined = some none := by
  cases k <;> rfl

theorem distinctKeys_unfold {j : Json} (hj : h.unfold k v = some (some j)) :
    j.distinctKeys = true := by
  induction k generalizing v j with
  | zero =>
    cases v with
    | scalar s =>
      cases hj
      rfl
    | undefined => exact absurd hj (by simp [unfold])
    | ref r => exact absurd hj (by simp [unfold])
  | succ k ih =>
    cases v with
    | scalar s =>
      cases hj
      rfl
    | undefined => exact absurd hj (by simp [unfold])
    | ref r =>
      have hobject : ∀ {ms : List (Text × Value n)}, (keysOf ms).Nodup →
          printedObject (mapValues (h.unfold k) ms) = some (some j) → j.distinctKeys = true := by
        intro ms hms hprinted
        refine distinctKeys_printedObject hprinted (by rwa [keysOf_mapValues]) fun key j' hmem => ?_
        obtain ⟨x, _, heq⟩ := List.mem_map.mp hmem
        exact ih (Prod.mk.inj heq).2
      have hdistinct := h.distinct r
      rw [unfold] at hj
      cases hnode : h.node r with
      | date ms =>
        rw [hnode] at hj
        cases ms <;> cases hj <;> rfl
      | error name message ms =>
        rw [hnode] at hj hdistinct
        exact hobject hdistinct hj
      | obj ms =>
        rw [hnode] at hj hdistinct
        exact hobject hdistinct hj
      | arr items =>
        rw [hnode] at hj
        refine distinctKeys_printedArray hj fun j' hmem => ?_
        obtain ⟨w, _, heq⟩ := List.mem_map.mp hmem
        exact ih heq

theorem under_replace {s' : Scalar} {j : Json} (hj : (h.replace p s).unfold k v = some (some j))
    (hunder : Json.Under p s' j) : s' = s := by
  induction k generalizing v j with
  | zero =>
    cases v with
    | scalar s =>
      cases hj
      cases hunder
    | undefined => exact absurd hj (by simp [unfold])
    | ref r => exact absurd hj (by simp [unfold])
  | succ k ih =>
    cases v with
    | scalar s =>
      cases hj
      cases hunder
    | undefined => exact absurd hj (by simp [unfold])
    | ref r =>
      have hobject : ∀ ms : List (Text × Value n),
          printedObject (mapValues ((h.replace p s).unfold k) (replaceMembers p s ms)) =
            some (some j) → s' = s := by
        intro ms hprinted
        rcases (under_printedObject hprinted).mp hunder with
          ⟨key, hmem, hk⟩ | ⟨key, j', hmem, hunder'⟩
        · obtain ⟨y, hy, heq⟩ := List.mem_map.mp hmem
          obtain ⟨x, _, rfl⟩ := List.mem_map.mp hy
          obtain ⟨rfl, hprint⟩ := Prod.mk.inj heq
          have hk' : p x.1 = true := hk
          simp only [hk', if_true, unfold_scalar, Option.some.injEq, Json.scalar.injEq] at hprint
          exact hprint.symm
        · obtain ⟨y, _, heq⟩ := List.mem_map.mp hmem
          exact ih (Prod.mk.inj heq).2 hunder'
      rw [unfold] at hj
      change printedNode _ ((h.node r).replace p s) = _ at hj
      cases hnode : h.node r with
      | date ms =>
        rw [hnode] at hj
        cases ms <;> cases hj <;> cases hunder
      | error name message ms =>
        rw [hnode] at hj
        exact hobject ms hj
      | obj ms =>
        rw [hnode] at hj
        exact hobject ms hj
      | arr items =>
        rw [hnode] at hj
        obtain ⟨j', hmem, hunder'⟩ := (under_printedArray hj).mp hunder
        obtain ⟨w, _, heq⟩ := List.mem_map.mp hmem
        exact ih heq hunder'

theorem printed_member {print : Value n → Printed} {node : Node n}
    (ho : printedNode print node = some o) {key : Text} {w : Value n}
    (hw : (key, w) ∈ node.members) : printedObject (mapValues print node.members) = some o := by
  cases node with
  | date ms => exact absurd hw List.not_mem_nil
  | arr items => exact absurd hw List.not_mem_nil
  | error name message ms => exact ho
  | obj ms => exact ho

theorem printed_item {print : Value n → Printed} {node : Node n}
    (ho : printedNode print node = some o) {w : Value n} (hw : w ∈ node.items) :
    printedArray (node.items.map print) = some o := by
  cases node with
  | arr items => exact ho
  | date ms => exact absurd hw List.not_mem_nil
  | error name message ms => exact absurd hw List.not_mem_nil
  | obj ms => exact absurd hw List.not_mem_nil

/-- A value that exposes a key of `p` is printed with what stands there. -/
theorem under_of_exposes (hexposes : Exposes p h v) (ho : (h.replace p s).unfold k v = some o) :
    ∃ j, o = some j ∧ Json.Under p s j := by
  obtain ⟨r, hpath, x, hx, hk⟩ := hexposes
  induction hpath using Relation.ReflTransGen.head_induction_on generalizing k o with
  | refl =>
    cases k with
    | zero => exact absurd ho (by simp [unfold])
    | succ k =>
      have hmem : (x.1, .scalar s) ∈ ((h.replace p s).node r).members := by
        change _ ∈ ((h.node r).replace p s).members
        rw [Node.members_replace]
        exact List.mem_map.mpr ⟨x, hx, by simp [hk]⟩
      obtain ⟨j, rfl⟩ := exists_of_printedNode ho
      refine ⟨j, rfl, (under_printedObject (printed_member ho hmem)).mpr (.inl ⟨x.1, ?_, hk⟩)⟩
      exact List.mem_map.mpr ⟨_, hmem, by simp⟩
  | @head v w hstep _ ih =>
    cases v with
    | scalar s => exact hstep.elim
    | undefined => exact hstep.elim
    | ref r' =>
      cases k with
      | zero => exact absurd ho (by simp [unfold])
      | succ k =>
        obtain ⟨j, rfl⟩ := exists_of_printedNode ho
        refine ⟨j, rfl, ?_⟩
        obtain ⟨w', hw', rfl⟩ : ∃ w', Step p (h.replace p s) (.ref r') w' ∧ w = w' :=
          (bisimulation_replace h).step rfl hstep
        have hsome : (h.replace p s).unfold k w ≠ none := by
          intro hnone
          have hnode := printedNode_eq_none_iff.mpr ⟨w, Node.Holds.anywhere hw', hnone⟩
          exact absurd (hnode.symm.trans ho) (by simp)
        obtain ⟨o', ho'⟩ := Option.ne_none_iff_exists'.mp hsome
        obtain ⟨j', rfl, hunder⟩ := ih ho'
        rcases hstep with hitem | ⟨key, hmem, hkey⟩
        · have hitem' : w ∈ ((h.replace p s).node r').items := by
            change _ ∈ ((h.node r').replace p s).items
            rwa [Node.items_replace]
          exact (under_printedArray (printed_item ho hitem')).mpr
            ⟨j', List.mem_map.mpr ⟨w, hitem', ho'⟩, hunder⟩
        · have hmem' : (key, w) ∈ ((h.replace p s).node r').members := by
            change _ ∈ ((h.node r').replace p s).members
            rw [Node.members_replace]
            exact List.mem_map.mpr ⟨_, hmem, by simp [hkey]⟩
          refine (under_printedObject (printed_member ho hmem')).mpr (.inr ⟨key, j', ?_, hunder⟩)
          exact List.mem_map.mpr ⟨_, hmem', by rw [ho']⟩

end Heap

end OpenRupiv.Js
