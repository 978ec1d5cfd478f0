import OpenRupiv.Html.Translation

/-!
# Templates

A page that is put together from literal strings and escapeText values.  A value is marked with the
place that it is meant for; a page is sound when every value stands in such a place.
-/

namespace OpenRupiv.Html

open Js

/-- A code unit of a literal, or a value that is escapeText when it is written. -/
inductive Symbol where
  | unit (u : UInt16)
  /-- A value in text. -/
  | text (t : Text)
  /-- A value in the value of an attribute. -/
  | quoted (t : Text)
  deriving DecidableEq

namespace Symbol

/-- The text that a symbol stands for. -/
def own : Symbol → Text
  | .unit u => [u]
  | .text t => t
  | .quoted t => t

def values : Symbol → List Text
  | .unit _ => []
  | .text t => [t]
  | .quoted t => [t]

/-- The symbol without its value. -/
def erase : Symbol → Symbol
  | .unit u => .unit u
  | .text _ => .text []
  | .quoted _ => .quoted []

end Symbol

def symbols : Alphabet Symbol where
  unit := .unit
  code
    | .unit u => some u
    | _ => none
  inText
    | .text _ => true
    | _ => false
  inValue
    | .quoted _ => true
    | _ => false

def texts : Alphabet UInt16 where
  unit := id
  code := some
  inText _ := false
  inValue _ := false

/-- A template literal: strings, and the values between them. -/
def html : List String → List Symbol → List Symbol
  | [], _ => []
  | s :: _, [] => (ofString s).map .unit
  | s :: strings, v :: values => (ofString s).map .unit ++ v :: html strings values

def escapeUnit (u : UInt16) : Text :=
  if u = unit '&' then ofString "&amp;"
  else if u = unit '<' then ofString "&lt;"
  else if u = unit '>' then ofString "&gt;"
  else if u = unit '"' then ofString "&quot;"
  else if u = 39 then ofString "&#39;"
  else [u]

def escapeText (t : Text) : Text := t.flatMap escapeUnit

/-- What is written for a symbol. -/
def write : Symbol → Text
  | .unit u => [u]
  | .text t => escapeText t
  | .quoted t => escapeText t

/-- A value of an attribute contains no U+0000. -/
def Fits : Symbol → Prop
  | .quoted t => 0 ∉ t
  | _ => True

theorem run_escapeUnit_text (u : UInt16) :
    run texts .start (escapeUnit u) = some (.start, [.char u]) := by
  unfold escapeUnit
  split
  · subst u
    rfl
  split
  · subst u
    rfl
  split
  · subst u
    rfl
  split
  · subst u
    rfl
  split
  · subst u
    rfl
  rename_i hamp hlt hgt hquot hapos
  have hstep : step texts .start u = some (.start, [.char u]) := by
    simp [step, texts, stepUnit, stepText, Place.insert, hamp, hlt]
  exact run_cons hstep rfl

theorem run_escapeUnit_value (tag : Tag UInt16) (name before : Text) {u : UInt16} (hu : u ≠ 0) :
    run texts (.content (.value tag name before)) (escapeUnit u) =
      some (.content (.value tag name (before ++ [u])), []) := by
  unfold escapeUnit
  split
  · subst u
    rfl
  split
  · subst u
    rfl
  split
  · subst u
    rfl
  split
  · subst u
    rfl
  split
  · subst u
    rfl
  rename_i hamp hlt hgt hquot hapos
  have hstep : step texts (.content (.value tag name before)) u =
      some (.content (.value tag name (before ++ [u])), []) := by
    simp [step, texts, stepUnit, stepValue, Place.insert, hamp, hquot, hu]
  exact run_cons hstep rfl

theorem run_escapeText_text (t : Text) :
    run texts .start (escapeText t) = some (.start, t.map .char) := by
  induction t with
  | nil => rfl
  | cons u t ih =>
    rw [escapeText, List.flatMap_cons]
    exact run_append (run_escapeUnit_text u) ih

theorem run_escapeText_value (tag : Tag UInt16) (name before : Text) {t : Text} (ht : 0 ∉ t) :
    run texts (.content (.value tag name before)) (escapeText t) =
      some (.content (.value tag name (before ++ t)), []) := by
  induction t generalizing before with
  | nil => simp [escapeText, run]
  | cons u t ih =>
    rw [List.mem_cons, not_or] at ht
    have hfirst := run_escapeUnit_value tag name before (Ne.symm ht.1)
    have hrest := ih (before ++ [u]) ht.2
    rw [escapeText, List.flatMap_cons]
    simpa [escapeText] using run_append hfirst hrest

theorem translates_write : Translates symbols texts Fits write Symbol.own where
  unit u := rfl
  coded a u h := by
    cases a with
    | unit w => exact ⟨w, rfl, h⟩
    | text t => exact absurd h (by simp [symbols])
    | quoted t => exact absurd h (by simp [symbols])
  text a _ _ h := by
    cases a with
    | text t => exact run_escapeText_text t
    | unit w => exact absurd h (by simp [symbols])
    | quoted t => exact absurd h (by simp [symbols])
  value a hfits _ h tag name before := by
    cases a with
    | quoted t => exact run_escapeText_value tag name before hfits
    | unit w => exact absurd h (by simp [symbols])
    | text t => exact absurd h (by simp [symbols])

theorem translates_erase :
    Translates symbols symbols (fun _ => True) (fun a => [a.erase]) (fun a => [a.erase]) where
  unit u := rfl
  coded a u h := by
    cases a with
    | unit w => exact ⟨_, rfl, h⟩
    | text t => exact absurd h (by simp [symbols])
    | quoted t => exact absurd h (by simp [symbols])
  text a _ _ h := by
    cases a with
    | text t => rfl
    | unit w => exact absurd h (by simp [symbols])
    | quoted t => exact absurd h (by simp [symbols])
  value a _ _ h tag name before := by
    cases a with
    | quoted t => rfl
    | unit w => exact absurd h (by simp [symbols])
    | text t => exact absurd h (by simp [symbols])

theorem step_erase (mode : Mode Symbol) (a : Symbol) :
    step symbols (mode.expand fun a => [a.erase]) a.erase =
      (step symbols mode a).map (expandOutcome fun a => [a.erase]) := by
  cases a with
  | unit u => exact stepUnit_expand translates_erase mode u
  | text t =>
    cases mode with
    | content place => cases place <;> rfl
    | _ => rfl
  | quoted t =>
    cases mode with
    | content place =>
      cases place with
      | text => rfl
      | value tag name before =>
        simp [step, symbols, stepWhole, Symbol.erase, Mode.expand, Place.expand, Place.insert,
          expandOutcome]
    | _ => rfl

theorem run_erase (mode : Mode Symbol) (page : List Symbol) :
    run symbols (mode.expand fun a => [a.erase]) (page.map Symbol.erase) =
      (run symbols mode page).map (expandOutcome fun a => [a.erase]) := by
  induction page generalizing mode with
  | nil => rfl
  | cons a page ih =>
    rw [List.map_cons, run, step_erase, run]
    cases hstep : step symbols mode a with
    | none => rfl
    | some outcome =>
      simp only [Option.map_some, Option.bind_eq_bind, Option.bind_some, expandOutcome, ih]
      cases run symbols outcome.1 page with
      | none => rfl
      | some last => simp [expandOutcome]

theorem map_erase_html (strings : List String) (values : List Symbol) :
    (html strings values).map Symbol.erase = html strings (values.map Symbol.erase) := by
  induction strings generalizing values with
  | nil => simp [html]
  | cons s strings ih =>
    cases values with
    | nil => simp [html, Symbol.erase, Function.comp_def]
    | cons v values => simp [html, Symbol.erase, Function.comp_def, ih]

/-- From text to text. -/
def closes (page : List Symbol) : Bool :=
  match run symbols .start page with
  | some (.content .text, _) => true
  | _ => false

/-- A page that starts and ends in text, with its values where they are meant to stand. -/
structure Sound (page : List Symbol) : Prop where
  closes : closes page = true
  fits : ∀ a ∈ page, Fits a

variable {page : List Symbol}

theorem closes_iff : closes page = true ↔ ∃ out, run symbols .start page = some (.start, out) := by
  unfold closes
  constructor
  · intro h
    split at h
    · rename_i out hrun
      exact ⟨out, hrun⟩
    · exact absurd h (by simp)
  · rintro ⟨out, hrun⟩
    rw [hrun]

theorem closes_erase (page : List Symbol) : closes (page.map Symbol.erase) = closes page := by
  have herase : run symbols .start (page.map Symbol.erase) =
      (run symbols .start page).map (expandOutcome fun a => [a.erase]) := run_erase .start page
  unfold closes
  rw [herase]
  cases run symbols .start page with
  | none => rfl
  | some outcome =>
    obtain ⟨mode, out⟩ := outcome
    cases mode with
    | content place => cases place <;> rfl
    | _ => rfl

namespace Sound

theorem nil : Sound [] := ⟨rfl, by simp⟩

theorem append {rest : List Symbol} (h : Sound page) (h' : Sound rest) : Sound (page ++ rest) := by
  obtain ⟨out, hrun⟩ := closes_iff.mp h.closes
  obtain ⟨out', hrun'⟩ := closes_iff.mp h'.closes
  refine ⟨closes_iff.mpr ⟨_, run_append hrun hrun'⟩, ?_⟩
  intro a ha
  rcases List.mem_append.mp ha with ha | ha
  · exact h.fits a ha
  · exact h'.fits a ha

theorem flatMap {α : Type} {xs : List α} {f : α → List Symbol} (h : ∀ x ∈ xs, Sound (f x)) :
    Sound (xs.flatMap f) := by
  induction xs with
  | nil => exact nil
  | cons x xs ih =>
    rw [List.flatMap_cons]
    exact (h x (by simp)).append (ih fun y hy => h y (by simp [hy]))

theorem intercalate {sep : List Symbol} (hsep : Sound sep) {parts : List (List Symbol)}
    (h : ∀ part ∈ parts, Sound part) : Sound (sep.intercalate parts) := by
  induction parts with
  | nil => exact nil
  | cons part parts ih =>
    have hrest := ih fun next hnext => h next (by simp [hnext])
    cases parts with
    | nil =>
      rw [List.intercalate_singleton]
      exact h part (by simp)
    | cons next parts =>
      rw [List.intercalate_cons_cons]
      exact ((h part (by simp)).append hsep).append hrest

theorem units {t : Text} (h : ∀ u ∈ t, u ≠ unit '<' ∧ u ≠ unit '&') : Sound (t.map .unit) := by
  constructor
  · rw [closes_iff]
    induction t with
    | nil => exact ⟨[], rfl⟩
    | cons u t ih =>
      obtain ⟨out, hrun⟩ := ih fun w hw => h w (by simp [hw])
      have hu := h u (by simp)
      have hstep : step symbols .start (.unit u) = some (.start, [.char (.unit u)]) := by
        simp [step, symbols, stepUnit, stepText, Place.insert, hu]
      exact ⟨_, run_cons hstep hrun⟩
  · intro a ha
    obtain ⟨u, -, rfl⟩ := List.mem_map.mp ha
    trivial

theorem fits_html {strings : List String} {values : List Symbol} (h : ∀ a ∈ values, Fits a) :
    ∀ a ∈ Html.html strings values, Fits a := by
  induction strings generalizing values with
  | nil => simp [Html.html]
  | cons s strings ih =>
    have hunit : ∀ a ∈ (ofString s).map Symbol.unit, Fits a := by
      intro a ha
      obtain ⟨u, -, rfl⟩ := List.mem_map.mp ha
      trivial
    cases values with
    | nil => exact hunit
    | cons v values =>
      intro a ha
      rcases List.mem_append.mp ha with ha | ha
      · exact hunit a ha
      · rcases List.mem_cons.mp ha with rfl | ha
        · exact h _ (by simp)
        · exact ih (fun b hb => h b (by simp [hb])) a ha

theorem html {strings : List String} {values : List Symbol} (kinds : List Symbol)
    (hkinds : values.map Symbol.erase = kinds) (hcloses : Html.closes (Html.html strings kinds) = true)
    (hfits : ∀ a ∈ values, Fits a) : Sound (Html.html strings values) := by
  refine ⟨?_, fits_html hfits⟩
  rw [← closes_erase, map_erase_html, hkinds, hcloses]

/-- The closing of the parts of a page is decided for all of them at once. -/
theorem of_closes {a : Prop} (h : a → Sound page) (ha : a) : Sound page := h ha

/-- The page is read as tokens in which every value stands as itself, in text or in an attribute
value. -/
theorem tokenize (h : Sound page) : ∃ tokens : List (Token Symbol),
    Html.tokenize texts (page.flatMap write) = some (tokens.flatMap (Token.expand Symbol.own)) ∧
      tokens.flatMap (Token.gather Symbol.values) = page.flatMap Symbol.values := by
  obtain ⟨tokens, hrun⟩ := closes_iff.mp h.closes
  refine ⟨tokens, ?_, ?_⟩
  · have hexpand : run texts .start (page.flatMap write) =
        some (.start, tokens.flatMap (Token.expand Symbol.own)) :=
      run_expand translates_write h.fits hrun
    rw [Html.tokenize, hexpand]
  · have hgather := gather_run (f := Symbol.values) (fun _ => rfl) ?_ hrun
    · simpa [Mode.gather, Place.gather] using hgather
    · intro a u hcode
      cases a with
      | unit w => rfl
      | text t => exact absurd hcode (by simp [symbols])
      | quoted t => exact absurd hcode (by simp [symbols])

theorem tags_eq {other : List Symbol} (h : Sound page) (h' : Sound other)
    (herase : page.map Symbol.erase = other.map Symbol.erase) :
    (Html.tokenize texts (page.flatMap write)).map tags =
      (Html.tokenize texts (other.flatMap write)).map tags := by
  have key : ∀ {p : List Symbol}, Sound p →
      (Html.tokenize texts (p.flatMap write)).map tags =
        (run symbols .start (p.map Symbol.erase)).map fun outcome => tags outcome.2 := by
    intro p hp
    obtain ⟨tokens, hrun⟩ := closes_iff.mp hp.closes
    have hexpand : run texts .start (p.flatMap write) =
        some (.start, tokens.flatMap (Token.expand Symbol.own)) :=
      run_expand translates_write hp.fits hrun
    have hrunErase : run symbols .start (p.map Symbol.erase) =
        (run symbols .start p).map (expandOutcome fun a => [a.erase]) := run_erase .start p
    rw [Html.tokenize, hexpand, hrunErase, hrun]
    simp only [Option.map_some, expandOutcome, tags_expand]
  rw [key h, key h', herase]

end Sound

end OpenRupiv.Html
