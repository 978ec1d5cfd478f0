import OpenRupiv.Js.Json

/-!
# Reading parsed values

The expressions by which a program reads a value of `JSON.parse`.  `undefined` is no value; a result
is missing where the expression throws.
-/

namespace OpenRupiv.Js

/-- `v.key`. -/
def property (v : Option Json) (key : String) : Option (Option Json) :=
  match v with
  | none | some (.scalar .null) => none
  | some (.obj ms) => some (ms.lookup (ofString key))
  | _ => some none

/-- The characters that a text is iterated by. -/
def characters : Text → List Text
  | [] => []
  | [u] => [[u]]
  | u :: v :: rest =>
      if isHigh u && isLow v then [u, v] :: characters rest else [u] :: characters (v :: rest)

/-- What `v ?? []` is iterated by. -/
def iterate : Option Json → Option (List Json)
  | none | some (.scalar .null) => some []
  | some (.arr items) => some items
  | some (.scalar (.str t)) => some ((characters t).map fun c => .scalar (.str c))
  | _ => none

/-- `===`; no two places hold the same object. -/
def strictEquals : Option Json → Option Json → Bool
  | none, none => true
  | some (.scalar (.num n)), some (.scalar (.num m)) => n.unsigned = m.unsigned
  | some (.scalar a), some (.scalar b) => a = b
  | _, _ => false

def truthy : Option Json → Bool
  | none | some (.scalar .null) | some (.scalar (.num (.zero _))) => false
  | some (.scalar (.bool b)) => b
  | some (.scalar (.str t)) => t ≠ []
  | _ => true

/-- `(v ?? []).find(…)`: only arrays have the method. -/
def find (v : Option Json) (p : Json → Option Bool) : Option (Option Json) :=
  match v with
  | none | some (.scalar .null) => some none
  | some (.arr items) => items.findM? p
  | _ => none

/-- `v ?? []` consists of the items. -/
def ListAt (v : Option Json) (items : List Json) : Prop :=
  v = none ∧ items = [] ∨ v = some (.arr items)

variable {v : Option Json} {items : List Json}

theorem ListAt.iterate (h : ListAt v items) : iterate v = some items := by
  rcases h with ⟨rfl, rfl⟩ | rfl <;> rfl

theorem ListAt.find (h : ListAt v items) (p : Json → Option Bool) :
    find v p = items.findM? p := by
  rcases h with ⟨rfl, rfl⟩ | rfl <;> rfl

/-- A search that throws nowhere finds what corresponds to the first match. -/
theorem findM?_of_forall₂ {α : Type} {R : Json → α → Prop} {p : Json → Option Bool} {q : α → Bool}
    {xs : List α} (h : List.Forall₂ R items xs) (hp : ∀ w x, R w x → p w = some (q x)) {x : α}
    (hx : xs.find? q = some x) : ∃ w, items.findM? p = some (some w) ∧ R w x := by
  induction h with
  | nil => exact absurd hx (by simp)
  | cons hw hrest ih =>
    rename_i w y ws ys
    rw [List.findM?, hp w y hw]
    rw [List.find?_cons] at hx
    cases hq : q y with
    | true =>
      rw [hq] at hx
      obtain rfl := Option.some.inj hx
      exact ⟨w, rfl, hw⟩
    | false =>
      rw [hq] at hx
      exact ih hx

theorem forM_of_forall₂ {α β : Type} {R : β → α → Prop} {f : β → Option Unit} {ws : List β}
    {xs : List α} (h : List.Forall₂ R ws xs) (hf : ∀ w, ∀ x ∈ xs, R w x → f w = some ()) :
    ws.forM f = some () := by
  induction h with
  | nil => rfl
  | cons hw hrest ih =>
    have htail := ih fun w x hx => hf w x (List.mem_cons_of_mem _ hx)
    change (f _).bind _ = _
    rw [hf _ _ List.mem_cons_self hw]
    exact htail

theorem mapM_of_forall₂ {α β : Type} {R : Json → α → Prop} {f : Json → Option β} {g : α → β}
    {xs : List α} (h : List.Forall₂ R items xs) (hf : ∀ w x, R w x → f w = some (g x)) :
    items.mapM f = some (xs.map g) := by
  induction h with
  | nil => rfl
  | cons hw hrest ih =>
    rw [List.mapM_cons, hf _ _ hw, ih]
    rfl

end OpenRupiv.Js
