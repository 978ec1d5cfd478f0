import OpenRupiv.Js.Parse

/-!
# `JSON.stringify` with indentation

Items and members stand on lines of their own, a gap to the right of the brackets around them.
`JSON.parse` reads such a text as it reads the one without indentation.
-/

namespace OpenRupiv.Js

/-- A line break and the indentation after it. -/
def newline (indent : Text) : Text := ofString "\n" ++ indent

section

variable (gap : Text)

/-- The parts between brackets, each on a line of its own. -/
def bracketed (opening closing : Char) (parts : Text → List Text) (indent : Text) : Text :=
  let lead := newline (indent ++ gap)
  if parts (indent ++ gap) = [] then [unit opening, unit closing]
  else
    unit opening :: (joinTexts (ofString ",") ((parts (indent ++ gap)).map fun part => lead ++ part) ++
      (newline indent ++ [unit closing]))

def lineOf (key value : Text) : Text := jsonText key ++ ofString ": " ++ value

/-- `SerializeJSONProperty` at an indentation. -/
def indented : Json → Text → Text :=
  Json.fold (fun s _ => stringifyText (.scalar s))
    (fun items => bracketed gap '[' ']' fun indent => items.map fun item => item indent)
    fun ms => bracketed gap '{' '}' fun indent => (ownEntries ms).map fun m => lineOf m.1 (m.2 indent)

/-- `JSON.stringify(v, null, gap)`, where the gap is not empty. -/
def stringifyWith (v : Json) : Text := indented gap v []

end

/-- `JSON.stringify(v, null, 2)`. -/
def stringifyIndented (v : Json) : Text := stringifyWith (ofString "  ") v

variable {gap : Text}

theorem indented_scalar (a : Scalar) (indent : Text) :
    indented gap (.scalar a) indent = stringifyText (.scalar a) := by
  simp [indented]

theorem indented_arr (items : List Json) (indent : Text) : indented gap (.arr items) indent =
    bracketed gap '[' ']' (fun indent => items.map fun v => indented gap v indent) indent := by
  simp [indented, Function.comp_def]

theorem indented_obj (ms : List (Text × Json)) (indent : Text) : indented gap (.obj ms) indent =
    bracketed gap '{' '}'
      (fun indent => (ownEntries ms).map fun m => lineOf m.1 (indented gap m.2 indent)) indent := by
  have hfold : indented gap (.obj ms) = bracketed gap '{' '}' fun indent =>
      (ownEntries (mapValues (indented gap) ms)).map fun m => lineOf m.1 (m.2 indent) := by
    simp [indented]
  rw [hfold, ownEntries_mapValues]
  simp [mapValues, Function.comp_def]

theorem blank_newline {indent : Text} (h : Blank indent) : Blank (newline indent) := by
  intro u hu
  have hfeed : (ofString "\n").all isSpace = true := rfl
  rcases List.mem_append.mp hu with hu | hu
  · exact List.all_eq_true.mp hfeed u hu
  · exact h u hu

theorem Blank.append {indent : Text} (h : Blank indent) (hgap : Blank gap) : Blank (indent ++ gap) := by
  intro u hu
  rcases List.mem_append.mp hu with hu | hu
  · exact h u hu
  · exact hgap u hu

theorem blank_spaces : Blank (ofString "  ") := by
  have hall : (ofString "  ").all isSpace = true := rfl
  exact List.all_eq_true.mp hall

private theorem bracketed_eq (opening closing : Char) {α : Type} (xs : List α)
    (part : Text → α → Text) {indent : Text} (hindent : Blank indent) :
    ∃ close, Blank close ∧
      bracketed gap opening closing (fun indent => xs.map (part indent)) indent =
        unit opening :: (joinTexts (ofString ",")
          (xs.map fun x => newline (indent ++ gap) ++ part (indent ++ gap) x) ++
            (close ++ [unit closing])) := by
  cases xs with
  | nil => exact ⟨[], blank_nil, by simp [bracketed, joinTexts]⟩
  | cons x xs =>
    refine ⟨newline indent, blank_newline hindent, ?_⟩
    simp [bracketed, Function.comp_def]

theorem lineOf_eq (lead key value : Text) : lead ++ lineOf key value =
    lead ++ unit '"' :: ((quoteBody key).flatMap utf16 ++
      unit '"' :: unit ':' :: (ofString " " ++ value)) := by
  have hcolon : ofString ": " = unit ':' :: ofString " " := by decide
  rw [lineOf, jsonText, ofString, String.toList_ofList, quote_text, hcolon]
  simp

/-- A text without lone surrogates. -/
def IsString (t : Text) : Prop := ∃ s, t = ofString s

theorem isString_ofString (s : String) : IsString (ofString s) := ⟨s, rfl⟩

theorem IsString.append {t u : Text} (ht : IsString t) (hu : IsString u) : IsString (t ++ u) := by
  obtain ⟨s, rfl⟩ := ht
  obtain ⟨r, rfl⟩ := hu
  exact ⟨s ++ r, by rw [ofString_append]⟩

theorem isString_joinTexts {sep : Text} {parts : List Text} (hsep : IsString sep)
    (hparts : ∀ part ∈ parts, IsString part) : IsString (joinTexts sep parts) := by
  have hall : ∀ parts : List Text, (∀ part ∈ parts, IsString part) →
      IsString (parts.flatMap fun next => sep ++ next) := by
    intro parts hparts
    induction parts with
    | nil => exact isString_ofString ""
    | cons part parts ih =>
      rw [List.flatMap_cons]
      exact (hsep.append (hparts part (by simp))).append
        (ih fun next hnext => hparts next (by simp [hnext]))
  cases parts with
  | nil => exact isString_ofString ""
  | cons part parts =>
    rw [joinTexts_cons]
    exact (hparts part (by simp)).append (hall parts fun next hnext => hparts next (by simp [hnext]))

private theorem isString_bracketed {opening closing : Char}
    (hbrackets : ofString (String.ofList [opening]) = [unit opening] ∧
      ofString (String.ofList [closing]) = [unit closing])
    (hgap : IsString gap) {parts : Text → List Text} {indent : Text} (hindent : IsString indent)
    (hparts : ∀ part ∈ parts (indent ++ gap), IsString part) :
    IsString (bracketed gap opening closing parts indent) := by
  have hopening : IsString [unit opening] := ⟨_, hbrackets.1.symm⟩
  have hclosing : IsString [unit closing] := ⟨_, hbrackets.2.symm⟩
  have hnewline : ∀ {indent : Text}, IsString indent → IsString (newline indent) :=
    fun h => (isString_ofString "\n").append h
  have hlead := hnewline (hindent.append hgap)
  rw [bracketed]
  split
  · exact hopening.append hclosing
  · refine hopening.append (.append ?_ ((hnewline hindent).append hclosing))
    apply isString_joinTexts (isString_ofString ",")
    intro part hpart
    obtain ⟨line, hline, rfl⟩ := List.mem_map.mp hpart
    exact hlead.append (hparts line hline)

theorem isString_indented (hgap : IsString gap) (v : Json) {indent : Text}
    (hindent : IsString indent) : IsString (indented gap v indent) := by
  induction v using Json.induct generalizing indent with
  | scalar a =>
    rw [indented_scalar]
    exact isString_ofString _
  | arr items ih =>
    have hdeeper := hindent.append hgap
    rw [indented_arr]
    refine isString_bracketed (by decide) hgap hindent fun part hpart => ?_
    obtain ⟨v, hv, rfl⟩ := List.mem_map.mp hpart
    exact ih v hv hdeeper
  | obj ms ih =>
    have hdeeper := hindent.append hgap
    rw [indented_obj]
    refine isString_bracketed (by decide) hgap hindent fun part hpart => ?_
    obtain ⟨m, hm, rfl⟩ := List.mem_map.mp hpart
    have hvalue := ih m ((perm_ownEntries ms).mem_iff.mp hm) hdeeper
    exact ((isString_ofString _).append (isString_ofString ": ")).append hvalue

section

variable {toNumber : Text → Num}

private theorem reads_indented (hgap : Blank gap) {v : Json} (hv : v.distinctKeys = true)
    {indent : Text} (hindent : Blank indent) :
    Opens (indented gap v indent) ∧
      Reads toNumber (indented gap v indent) (v.rebuild (Scalar.reread toNumber) .own) := by
  induction v using Json.induct generalizing indent with
  | scalar a =>
    rw [indented_scalar, Json.rebuild_scalar]
    exact ⟨opens_stringifyText _, reads_scalar a⟩
  | arr items ih =>
    rw [Json.distinctKeys_arr] at hv
    have hdeeper := hindent.append hgap
    have hlead := blank_newline hdeeper
    have hitems : ∀ v ∈ items,
        Opens (newline (indent ++ gap) ++ indented gap v (indent ++ gap)) ∧
          Reads toNumber (newline (indent ++ gap) ++ indented gap v (indent ++ gap))
            (v.rebuild (Scalar.reread toNumber) .own) := by
      intro v hmem
      obtain ⟨hopens, hreads⟩ := ih v hmem (hv v hmem) hdeeper
      exact ⟨hopens.lead hlead, hreads.lead hlead⟩
    obtain ⟨close, hblank, htext⟩ := bracketed_eq '[' ']' items
      (fun indent v => indented gap v indent) hindent
    rw [indented_arr, htext, Json.rebuild_arr]
    exact ⟨Opens.of_cons ⟨_, _, rfl, by decide⟩, reads_arr hblank hitems⟩
  | obj ms ih =>
    obtain ⟨hnd, hown⟩ := ownEntries_distinct hv
    have hdeeper := hindent.append hgap
    have hlead := blank_newline hdeeper
    have hspace : Blank (ofString " ") := by
      have hall : (ofString " ").all isSpace = true := rfl
      exact List.all_eq_true.mp hall
    have hms : ∀ m ∈ ownEntries ms,
        Reads toNumber (ofString " " ++ indented gap m.2 (indent ++ gap))
          (m.2.rebuild (Scalar.reread toNumber) .own) := by
      intro m hm
      have hvalue := ih m (hown m hm).1 (hown m hm).2 hdeeper
      exact hvalue.2.lead hspace
    obtain ⟨close, hblank, htext⟩ := bracketed_eq '{' '}' (ownEntries ms)
      (fun indent m => lineOf m.1 (indented gap m.2 indent)) hindent
    have hreads := @reads_obj toNumber _ (fun v => ofString " " ++ indented gap v (indent ++ gap))
      (Json.rebuild (Scalar.reread toNumber) .own) _ hlead hblank _ hnd hms
    simp only [lineOf_eq] at htext
    rw [indented_obj, htext, Json.rebuild_obj]
    exact ⟨Opens.of_cons ⟨_, _, rfl, by decide⟩, hreads⟩

/-- `JSON.parse(JSON.stringify(v, null, gap))`, with white space after the text. -/
theorem parse_stringifyWith (hgap : Blank gap) {v : Json} (hv : v.distinctKeys = true) {tail : Text}
    (htail : Blank tail) :
    parse toNumber (stringifyWith gap v ++ tail) = some (v.rebuild (Scalar.reread toNumber) .own) :=
  parse_of_reads (reads_indented hgap hv blank_nil).2 htail

theorem parse_stringifyIndented {v : Json} (hv : v.distinctKeys = true) {tail : Text}
    (htail : Blank tail) :
    parse toNumber (stringifyIndented v ++ tail) = some (v.rebuild (Scalar.reread toNumber) .own) :=
  parse_stringifyWith blank_spaces hv htail

def Json.numbers : Json → List Num :=
  fold (fun s => match s with | .num n => [n] | _ => []) List.flatten
    fun ms => (ms.map fun m => m.2).flatten

/-- Where every finite number of a value reads back from its print, so does the value. -/
theorem Json.rebuild_reread {v : Json}
    (hread : ∀ n ∈ v.numbers, n.isFinite = true → toNumber n.print = n.unsigned) :
    v.rebuild (Scalar.reread toNumber) .own = v.rebuild Scalar.printed .own := by
  induction v using Json.induct with
  | scalar a =>
    rw [rebuild_scalar, rebuild_scalar, Scalar.reread_eq_printed]
    rintro n rfl
    exact hread n (by simp [numbers])
  | arr items ih =>
    rw [rebuild_arr, rebuild_arr]
    congr 1
    apply List.map_congr_left
    intro v hv
    refine ih v hv fun n hn => hread n ?_
    simp only [numbers, fold_arr, List.mem_flatten, List.mem_map]
    exact ⟨_, ⟨v, hv, rfl⟩, hn⟩
  | obj ms ih =>
    rw [rebuild_obj, rebuild_obj]
    congr 1
    apply mapValues_congr
    intro m hm
    have hm' : m ∈ ms := (perm_ownEntries ms).mem_iff.mp hm
    refine ih m hm' fun n hn => hread n ?_
    simp only [numbers, fold_obj, mapValues, List.map_map, List.mem_flatten, List.mem_map]
    exact ⟨_, ⟨m, hm', rfl⟩, hn⟩

end

example : stringifyIndented (.obj [(ofString "a", .arr [.scalar .null]), (ofString "b", .obj [])]) =
    ofString "\x7b\n  \"a\": [\n    null\n  ],\n  \"b\": \x7b\x7d\n\x7d" := by decide +kernel

end OpenRupiv.Js
