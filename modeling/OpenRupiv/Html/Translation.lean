import OpenRupiv.Html.Tokens

/-!
# Pages with values

What a tokenizer does with values that it does not look into, it does with any text that is written
for them, as long as that text is read as characters of its own place.
-/

namespace OpenRupiv.Html

open Js

variable {α β γ : Type}

section Expand

variable (g : α → List β)

def expandAttributes (attributes : List (Text × List α)) : List (Text × List β) :=
  attributes.map fun a => (a.1, a.2.flatMap g)

def Token.expand : Token α → List (Token β)
  | .char a => (g a).map .char
  | .startTag name attributes selfClosing =>
      [.startTag name (expandAttributes g attributes) selfClosing]
  | .endTag name => [.endTag name]
  | .declaration => [.declaration]

def Tag.expand (tag : Tag α) : Tag β where
  closing := tag.closing
  name := tag.name
  attributes := expandAttributes g tag.attributes

def Place.expand : Place α → Place β
  | .text => .text
  | .value tag name read => .value (tag.expand g) name (read.flatMap g)

def Mode.expand : Mode α → Mode β
  | .content place => .content (place.expand g)
  | .reference place seen => .reference (place.expand g) seen
  | .tagOpen => .tagOpen
  | .endTagOpen => .endTagOpen
  | .markup => .markup
  | .declaration => .declaration
  | .tagName closing name => .tagName closing name
  | .beforeName tag => .beforeName (tag.expand g)
  | .attributeName tag name => .attributeName (tag.expand g) name
  | .afterName tag name => .afterName (tag.expand g) name
  | .beforeValue tag name => .beforeValue (tag.expand g) name
  | .afterValue tag => .afterValue (tag.expand g)
  | .selfClosing tag => .selfClosing (tag.expand g)

/-- The outcome of a step, in other symbols. -/
def expandOutcome (outcome : Mode α × List (Token α)) : Mode β × List (Token β) :=
  (outcome.1.expand g, outcome.2.flatMap (Token.expand g))

end Expand

/-- Symbols that satisfy `good` are written as `read` in another alphabet, and stand for `g`. -/
structure Translates (A : Alphabet α) (B : Alphabet β) (good : α → Prop)
    (read g : α → List β) : Prop where
  unit : ∀ u, g (A.unit u) = [B.unit u]
  coded : ∀ a u, A.code a = some u → ∃ b, read a = [b] ∧ B.code b = some u
  text : ∀ a, good a → A.code a = none → A.inText a = true →
    run B .start (read a) = some (.start, (g a).map .char)
  value : ∀ a, good a → A.code a = none → A.inValue a = true → ∀ tag name before,
    run B (.content (.value tag name before)) (read a) =
      some (.content (.value tag name (before ++ g a)), [])

section Steps

variable {A : Alphabet α} {B : Alphabet β} {good : α → Prop} {read g : α → List β}

theorem keysOf_expandAttributes (attributes : List (Text × List α)) :
    keysOf (expandAttributes g attributes) = keysOf attributes := by
  simp [keysOf, expandAttributes]

theorem Tag.add_expand (tag : Tag α) (name : Text) (v : List α) :
    (tag.expand g).add name (v.flatMap g) = (tag.add name v).map (Tag.expand g) := by
  unfold Tag.add
  rw [Tag.expand, keysOf_expandAttributes]
  split
  · rfl
  · simp [Tag.expand, expandAttributes]

theorem Tag.add_nil_expand (tag : Tag α) (name : Text) :
    (tag.expand g).add name [] = (tag.add name []).map (Tag.expand g) :=
  tag.add_expand name []

theorem Tag.emit_expand (tag : Tag α) (selfClosing : Bool) :
    (tag.expand g).emit selfClosing = (tag.emit selfClosing).map (expandOutcome g) := by
  have hempty : (expandAttributes g tag.attributes).isEmpty = tag.attributes.isEmpty := by
    simp [expandAttributes]
  unfold Tag.emit
  rw [Tag.expand, hempty]
  split_ifs <;> rfl

theorem Place.insert_expand (h : Translates A B good read g) (place : Place α) (u : UInt16) :
    (place.expand g).insert (B.unit u) = expandOutcome g (place.insert (A.unit u)) := by
  cases place with
  | text => simp [Place.insert, Place.expand, expandOutcome, Mode.expand, Token.expand, h.unit]
  | value tag name before =>
    simp [Place.insert, Place.expand, expandOutcome, Mode.expand, h.unit]

theorem stepUnit_expand (h : Translates A B good read g) (mode : Mode α) (u : UInt16) :
    stepUnit B (mode.expand g) u = (stepUnit A mode u).map (expandOutcome g) := by
  cases mode with
  | content place =>
    cases place with
    | text =>
      have hinsert := Place.insert_expand h .text u
      simp only [Mode.expand, Place.expand, stepUnit, stepText] at hinsert ⊢
      split_ifs
      · rfl
      · rfl
      · rw [hinsert, Option.map_some]
    | value tag name before =>
      have hinsert := Place.insert_expand h (.value tag name before)
      simp only [Mode.expand, Place.expand, stepUnit, stepValue, Tag.add_expand] at hinsert ⊢
      split_ifs
      · rfl
      · cases tag.add name before <;> rfl
      · rw [hinsert, Option.map_some]
      · rw [hinsert, Option.map_some]
  | reference place seen =>
    have hinsert := Place.insert_expand h place
    simp only [Mode.expand, stepUnit]
    split_ifs
    · cases named seen with
      | none => rfl
      | some w => rw [Option.map_some, Option.map_some, Option.map_some, hinsert]
    · rfl
    · rfl
  | tagOpen =>
    simp only [Mode.expand, stepUnit]
    split_ifs <;> rfl
  | endTagOpen =>
    simp only [Mode.expand, stepUnit]
    split_ifs <;> rfl
  | markup =>
    simp only [Mode.expand, stepUnit]
    split_ifs <;> rfl
  | declaration =>
    simp only [Mode.expand, stepUnit]
    split_ifs <;> rfl
  | tagName closing name =>
    have hemit := Tag.emit_expand (g := g) ⟨closing, name, []⟩ false
    simp only [Mode.expand, stepUnit]
    split_ifs
    · rfl
    · rfl
    · exact hemit
    · rfl
  | beforeName tag =>
    simp only [Mode.expand, stepUnit, Tag.emit_expand]
    split_ifs <;> rfl
  | attributeName tag name =>
    simp only [Mode.expand, stepUnit, Tag.add_nil_expand]
    split_ifs
    · rfl
    · cases tag.add name [] <;> rfl
    · cases tag.add name [] with
      | none => rfl
      | some tag => simp only [Option.map_some, Option.bind_some, Tag.emit_expand]
    · rfl
    · rfl
  | afterName tag name =>
    simp only [Mode.expand, stepUnit, Tag.add_nil_expand]
    split_ifs
    · rfl
    · cases tag.add name [] <;> rfl
    · cases tag.add name [] with
      | none => rfl
      | some tag => simp only [Option.map_some, Option.bind_some, Tag.emit_expand]
    · rfl
    · cases tag.add name [] <;> rfl
  | beforeValue tag name =>
    simp only [Mode.expand, stepUnit]
    split_ifs <;> rfl
  | afterValue tag =>
    simp only [Mode.expand, stepUnit, Tag.emit_expand]
    split_ifs <;> rfl
  | selfClosing tag =>
    simp only [Mode.expand, stepUnit, Tag.emit_expand]
    split_ifs <;> rfl

theorem step_expand (h : Translates A B good read g) {a : α} (ha : good a)
    {mode next : Mode α} {out : List (Token α)} (hstep : step A mode a = some (next, out)) :
    run B (mode.expand g) (read a) = some (next.expand g, out.flatMap (Token.expand g)) := by
  unfold step at hstep
  cases hcode : A.code a with
  | some u =>
    obtain ⟨b, hread, hb⟩ := h.coded a u hcode
    simp only [hcode] at hstep
    have hunit := stepUnit_expand h mode u
    rw [hstep, Option.map_some] at hunit
    have hone : step B (mode.expand g) b =
        some (next.expand g, out.flatMap (Token.expand g)) := by
      rw [step, hb]
      exact hunit
    have hnil : run B (next.expand g) [] = some (next.expand g, []) := rfl
    rw [hread]
    simpa using run_cons hone hnil
  | none =>
    simp only [hcode] at hstep
    unfold stepWhole at hstep
    split at hstep
    · obtain ⟨hin, heq⟩ := Option.ite_none_right_eq_some.mp hstep
      obtain ⟨rfl, rfl⟩ := Prod.mk.inj (Option.some.inj heq)
      simpa [Mode.expand, Place.expand, Token.expand] using h.text a ha hcode hin
    · rename_i tag name before
      obtain ⟨hin, heq⟩ := Option.ite_none_right_eq_some.mp hstep
      obtain ⟨rfl, rfl⟩ := Prod.mk.inj (Option.some.inj heq)
      have hvalue := h.value a ha hcode hin (tag.expand g) name (before.flatMap g)
      simpa [Mode.expand, Place.expand] using hvalue
    · exact absurd hstep (by simp)

theorem run_expand (h : Translates A B good read g) {as : List α} (has : ∀ a ∈ as, good a)
    {mode last : Mode α} {out : List (Token α)} (hrun : run A mode as = some (last, out)) :
    run B (mode.expand g) (as.flatMap read) =
      some (last.expand g, out.flatMap (Token.expand g)) := by
  induction as generalizing mode out with
  | nil =>
    rw [run, Option.some.injEq, Prod.mk.injEq] at hrun
    obtain ⟨rfl, rfl⟩ := hrun
    rfl
  | cons a as ih =>
    obtain ⟨next, first, rest, hstep, hrest, rfl⟩ := run_cons_inv hrun
    have hfirst := step_expand h (has a (by simp)) hstep
    have htail := ih (fun b hb => has b (by simp [hb])) hrest
    rw [List.flatMap_cons, List.flatMap_append]
    exact run_append hfirst htail

end Steps

/-- A tag without its attribute values. -/
inductive TagShape where
  | startTag (name : Text) (attributes : List Text) (selfClosing : Bool)
  | endTag (name : Text)
  | declaration
  deriving DecidableEq

def Token.shape : Token α → Option TagShape
  | .char _ => none
  | .startTag name attributes selfClosing =>
      some (.startTag name (keysOf attributes) selfClosing)
  | .endTag name => some (.endTag name)
  | .declaration => some .declaration

/-- The tags and attribute names of a page. -/
def tags (tokens : List (Token α)) : List TagShape := tokens.filterMap Token.shape

theorem tags_expand (g : α → List β) (tokens : List (Token α)) :
    tags (tokens.flatMap (Token.expand g)) = tags tokens := by
  induction tokens with
  | nil => rfl
  | cons token tokens ih =>
    rw [List.flatMap_cons, tags, List.filterMap_append, tags, List.filterMap_cons]
    rw [tags, tags] at ih
    rw [ih]
    cases token with
    | char a => simp [Token.expand, Token.shape, List.filterMap_map, Function.comp_def]
    | startTag name attributes selfClosing =>
      simp [Token.expand, Token.shape, keysOf_expandAttributes]
    | endTag name => rfl
    | declaration => rfl

section Gather

variable (f : α → List γ)

def gatherAttributes (attributes : List (Text × List α)) : List γ :=
  attributes.flatMap fun a => a.2.flatMap f

/-- The values in the characters and in the attribute values of a token. -/
def Token.gather : Token α → List γ
  | .char a => f a
  | .startTag _ attributes _ => gatherAttributes f attributes
  | .endTag _ | .declaration => []

def Tag.gather (tag : Tag α) : List γ := gatherAttributes f tag.attributes

def Place.gather : Place α → List γ
  | .text => []
  | .value tag _ read => tag.gather f ++ read.flatMap f

/-- The values of a tag that is still being read. -/
def Mode.gather : Mode α → List γ
  | .content place | .reference place _ => place.gather f
  | .tagOpen | .endTagOpen | .markup | .declaration | .tagName _ _ => []
  | .beforeName tag | .attributeName tag _ | .afterName tag _ | .beforeValue tag _
  | .afterValue tag | .selfClosing tag => tag.gather f

end Gather

section Kept

variable {A : Alphabet α} {f : α → List γ}

theorem Tag.gather_add {tag next : Tag α} {name : Text} {v : List α}
    (h : tag.add name v = some next) : next.gather f = tag.gather f ++ v.flatMap f := by
  unfold Tag.add at h
  split at h
  · exact absurd h (by simp)
  · obtain rfl := Option.some.inj h
    simp [Tag.gather, gatherAttributes]

theorem Tag.gather_emit {tag : Tag α} {selfClosing : Bool} {next : Mode α} {out : List (Token α)}
    (h : tag.emit selfClosing = some (next, out)) :
    out.flatMap (Token.gather f) ++ next.gather f = tag.gather f := by
  unfold Tag.emit at h
  split at h
  · obtain ⟨hempty, heq⟩ := Option.ite_none_right_eq_some.mp h
    obtain ⟨rfl, rfl⟩ := Prod.mk.inj (Option.some.inj heq)
    rw [Bool.and_eq_true, List.isEmpty_iff] at hempty
    simp [Tag.gather, gatherAttributes, hempty.1, Token.gather, Mode.gather, Place.gather]
  · obtain ⟨rfl, rfl⟩ := Prod.mk.inj (Option.some.inj h)
    simp [Token.gather, Tag.gather, Mode.gather, Place.gather]

theorem Place.gather_insert (place : Place α) (a : α) :
    (place.insert a).2.flatMap (Token.gather f) ++ (place.insert a).1.gather f =
      place.gather f ++ f a := by
  cases place with
  | text => simp [Place.insert, Token.gather, Mode.gather, Place.gather]
  | value tag name before => simp [Place.insert, Mode.gather, Place.gather]

theorem gather_stepUnit (hf : ∀ u, f (A.unit u) = []) {mode next : Mode α} {u : UInt16}
    {out : List (Token α)} (h : stepUnit A mode u = some (next, out)) :
    out.flatMap (Token.gather f) ++ next.gather f = mode.gather f := by
  have hinsert : ∀ (place : Place α) (w : UInt16) (out : List (Token α)) (next : Mode α),
      place.insert (A.unit w) = (next, out) →
        out.flatMap (Token.gather f) ++ next.gather f = place.gather f := by
    intro place w out next heq
    have hgather := place.gather_insert (f := f) (A.unit w)
    rw [heq, hf, List.append_nil] at hgather
    exact hgather
  have hadd : ∀ {tag : Tag α} {name : Text} {v : List α} {k : Tag α → Mode α},
      (∀ t, (k t).gather f = t.gather f) → 
      (tag.add name v).map (fun t => (k t, ([] : List (Token α)))) = some (next, out) →
      out.flatMap (Token.gather f) ++ next.gather f = tag.gather f ++ v.flatMap f := by
    intro tag name v k hk heq
    obtain ⟨t, ht, heq⟩ := Option.map_eq_some_iff.mp heq
    obtain ⟨rfl, rfl⟩ := Prod.mk.inj heq
    rw [hk, Tag.gather_add ht]
    rfl
  have hemit : ∀ {tag : Tag α} {name : Text},
      ((tag.add name []).bind fun t => t.emit false) = some (next, out) →
      out.flatMap (Token.gather f) ++ next.gather f = tag.gather f := by
    intro tag name heq
    obtain ⟨t, ht, heq⟩ := Option.bind_eq_some_iff.mp heq
    rw [Tag.gather_emit heq, Tag.gather_add ht]
    simp
  have hkeep : ∀ {m : Mode α}, some (m, ([] : List (Token α))) = some (next, out) →
      out.flatMap (Token.gather f) ++ next.gather f = m.gather f := by
    intro m heq
    obtain ⟨rfl, rfl⟩ := Prod.mk.inj (Option.some.inj heq)
    rfl
  cases mode with
  | content place =>
    simp only [stepUnit] at h
    split at h
    · exact (hkeep h).trans rfl
    · cases place with
      | text =>
        have h := Option.some.inj h
        unfold stepText at h
        split at h
        · obtain ⟨rfl, rfl⟩ := Prod.mk.inj h
          rfl
        · exact hinsert _ _ _ _ h
      | value tag name before =>
        simp only [stepValue] at h
        split at h
        · exact hadd (fun _ => rfl) h
        · exact hinsert _ _ _ _ (Option.some.inj h)
  | reference place seen =>
    simp only [stepUnit] at h
    split_ifs at h
    · obtain ⟨w, -, heq⟩ := Option.map_eq_some_iff.mp h
      exact hinsert _ _ _ _ heq
    · exact (hkeep h).trans rfl
  | attributeName tag name =>
    simp only [stepUnit] at h
    split_ifs at h
    · exact (hkeep h).trans rfl
    · simpa [Mode.gather] using hadd (fun _ => rfl) h
    · exact hemit h
    · exact (hkeep h).trans rfl
    · exact (hkeep h).trans rfl
  | afterName tag name =>
    simp only [stepUnit] at h
    split_ifs at h
    · exact (hkeep h).trans rfl
    · simpa [Mode.gather] using hadd (fun _ => rfl) h
    · exact hemit h
    · exact (hkeep h).trans rfl
    · simpa [Mode.gather] using hadd (fun _ => rfl) h
  | tagName closing name =>
    simp only [stepUnit] at h
    split_ifs at h
    · exact (hkeep h).trans rfl
    · exact (hkeep h).trans rfl
    · exact Tag.gather_emit h
    · exact (hkeep h).trans rfl
  | beforeName tag =>
    simp only [stepUnit] at h
    split_ifs at h
    · exact (hkeep h).trans rfl
    · exact (hkeep h).trans rfl
    · exact Tag.gather_emit h
    · exact (hkeep h).trans rfl
  | beforeValue tag name =>
    simp only [stepUnit] at h
    split_ifs at h
    · exact (hkeep h).trans rfl
    · rw [hkeep h]
      simp [Mode.gather, Place.gather]
  | afterValue tag =>
    simp only [stepUnit] at h
    split_ifs at h
    · exact (hkeep h).trans rfl
    · exact (hkeep h).trans rfl
    · exact Tag.gather_emit h
  | selfClosing tag =>
    simp only [stepUnit] at h
    split_ifs at h
    exact Tag.gather_emit h
  | tagOpen =>
    simp only [stepUnit] at h
    split_ifs at h <;> exact (hkeep h).trans rfl
  | endTagOpen =>
    simp only [stepUnit] at h
    split_ifs at h
    exact (hkeep h).trans rfl
  | markup =>
    simp only [stepUnit] at h
    split_ifs at h
    exact (hkeep h).trans rfl
  | declaration =>
    simp only [stepUnit] at h
    split_ifs at h
    · obtain ⟨rfl, rfl⟩ := Prod.mk.inj (Option.some.inj h)
      rfl
    · exact (hkeep h).trans rfl

theorem gather_step (hf : ∀ u, f (A.unit u) = []) (hcoded : ∀ a u, A.code a = some u → f a = [])
    {mode next : Mode α} {a : α} {out : List (Token α)} (h : step A mode a = some (next, out)) :
    out.flatMap (Token.gather f) ++ next.gather f = mode.gather f ++ f a := by
  unfold step at h
  cases hcode : A.code a with
  | some u =>
    simp only [hcode] at h
    rw [gather_stepUnit hf h, hcoded a u hcode, List.append_nil]
  | none =>
    simp only [hcode] at h
    unfold stepWhole at h
    split at h
    · obtain ⟨-, heq⟩ := Option.ite_none_right_eq_some.mp h
      have hgather := Place.gather_insert (f := f) .text a
      rwa [Option.some.inj heq] at hgather
    · rename_i tag name before
      obtain ⟨-, heq⟩ := Option.ite_none_right_eq_some.mp h
      have hgather := Place.gather_insert (f := f) (.value tag name before) a
      rwa [Option.some.inj heq] at hgather
    · exact absurd h (by simp)

theorem gather_run (hf : ∀ u, f (A.unit u) = []) (hcoded : ∀ a u, A.code a = some u → f a = [])
    {mode last : Mode α} {as : List α} {out : List (Token α)}
    (h : run A mode as = some (last, out)) :
    out.flatMap (Token.gather f) ++ last.gather f = mode.gather f ++ as.flatMap f := by
  induction as generalizing mode out with
  | nil =>
    rw [run, Option.some.injEq, Prod.mk.injEq] at h
    obtain ⟨rfl, rfl⟩ := h
    simp
  | cons a as ih =>
    obtain ⟨next, first, rest, hstep, hrest, rfl⟩ := run_cons_inv h
    have hfirst := gather_step hf hcoded hstep
    rw [List.flatMap_append, List.append_assoc, ih hrest, ← List.append_assoc, hfirst,
      List.append_assoc, List.flatMap_cons]

end Kept

end OpenRupiv.Html
