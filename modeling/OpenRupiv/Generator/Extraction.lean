import OpenRupiv.Generator.Extract
import OpenRupiv.Js.Indent

/-!
# What is extracted from an answer

An object amid prose is found whole.  So is an object in a clean answer, unless a code fence is seen
in its strings and an object is found in there.
-/

namespace OpenRupiv.Generator

open Js

variable {toNumber : Text → Num} {before after text : Text} {ms : List (Text × Json)}

theorem brace_split {s t s' t' : Text} (hs : unit '{' ∉ s) (ht : unit '{' ∉ t)
    (h : s ++ unit '{' :: s' = t ++ unit '{' :: t') : s = t ∧ s' = t' := by
  induction s generalizing t with
  | nil =>
    cases t with
    | nil => exact ⟨rfl, (List.cons.inj h).2⟩
    | cons v t => exact absurd (List.cons.inj h).1.symm fun hv => ht (by simp [hv])
  | cons u s ih =>
    cases t with
    | nil => exact absurd (List.cons.inj h).1 fun hu => hs (by simp [hu])
    | cons v t =>
      obtain ⟨rfl, htail⟩ := List.cons.inj h
      obtain ⟨rfl, rfl⟩ := ih (fun hu => hs (List.mem_cons_of_mem _ hu))
        (fun hu => ht (List.mem_cons_of_mem _ hu)) htail
      exact ⟨rfl, rfl⟩

theorem brace_notMem_blank {w : Text} (hw : Blank w) : unit '{' ∉ w := by
  intro hmem
  exact absurd (hw _ hmem) (by decide)

/-- An object between its braces, as the parser and the scan see it. -/
structure Span (toNumber : Text → Num) (ms : List (Text × Json)) (inner : Text) : Prop where
  passes : Passes inner
  reads : ∀ fuel rest, 2 * (inner.length + 2) ≤ fuel →
    readValue toNumber fuel (unit '{' :: (inner ++ unit '}' :: rest)) = some (.obj ms, rest)

theorem span_of_parse (h : parse toNumber text = some (.obj ms)) :
    ∃ lead inner tail, Blank lead ∧ text = lead ++ unit '{' :: (inner ++ unit '}' :: tail) ∧
      Span toNumber ms inner := by
  unfold parse at h
  simp only [Option.bind_eq_bind, Option.bind_eq_some_iff, Prod.exists] at h
  obtain ⟨v, rest, hread, hrest⟩ := h
  split at hrest
  · rw [Option.pure_def, Option.some.injEq] at hrest
    subst hrest
    obtain ⟨lead, inner, hlead, htext, hpasses, hreads⟩ := object_span lexical_passes hread
    exact ⟨lead, inner, rest, hlead, htext, hpasses, hreads⟩
  · exact absurd hrest (by simp)

section

variable {inner : Text} (hspan : Span toNumber ms inner) (hbefore : unit '{' ∉ before)

include hspan

theorem Span.parse_self : parse toNumber (unit '{' :: (inner ++ [unit '}'])) = some (.obj ms) := by
  have hread := hspan.reads (2 * (unit '{' :: (inner ++ [unit '}'])).length + 1) [] (by simp)
  have hskip : skip [] = [] := rfl
  unfold parse
  rw [hread, Option.bind_eq_bind, Option.bind_some]
  exact if_pos hskip

theorem Span.parseableAt_eq :
    parseableAt toNumber (before ++ unit '{' :: (inner ++ unit '}' :: after)) before.length =
      some (.obj ms) := by
  have hself : tryParseObject toNumber (unit '{' :: (inner ++ [unit '}'])) = some (.obj ms) := by
    rw [tryParseObject, hspan.parse_self]
  have hslice : (unit '{' :: (inner ++ unit '}' :: after)).take (inner.length + 2) =
      unit '{' :: (inner ++ [unit '}']) := by
    rw [List.take_succ_cons, List.take_append, List.take_of_length_le (by omega)]
    simp
  have hlast : before.length + 1 + inner.length + 1 - before.length = inner.length + 2 := by omega
  rw [parseableAt, List.getElem?_append_right (le_refl _), Nat.sub_self, List.getElem?_cons_zero,
    if_pos rfl, scanBalanced, List.drop_left, hspan.passes.closes, if_pos rfl, Option.bind_some,
    hlast, hslice, hself]

include hbefore

/-- A text that parses to an object, and in which this object comes first, parses to it. -/
theorem Span.tryParseObject_eq {value : Json}
    (h : tryParseObject toNumber (before ++ unit '{' :: (inner ++ unit '}' :: after)) = some value) :
    value = .obj ms := by
  unfold tryParseObject at h
  split at h
  · rename_i ms' hparse
    obtain ⟨lead, inner', tail, hlead, htext, -⟩ := span_of_parse hparse
    obtain ⟨rfl, -⟩ := brace_split hbefore (brace_notMem_blank hlead) htext
    unfold parse at hparse
    simp only [Option.bind_eq_bind, Option.bind_eq_some_iff, Prod.exists] at hparse
    obtain ⟨v, rest, hread, hrest⟩ := hparse
    rw [← readValue_skip, hlead.skip, readValue_skip, hspan.reads _ after (by simp; omega)] at hread
    obtain ⟨rfl, rfl⟩ := Prod.mk.inj (Option.some.inj hread)
    split at hrest
    · rw [Option.pure_def, Option.some.injEq] at hrest
      rw [← Option.some.inj h, hrest]
    · exact absurd hrest (by simp)
  · exact absurd h (by simp)

theorem Span.tryCandidate_eq :
    tryCandidate toNumber (before ++ unit '{' :: (inner ++ unit '}' :: after)) =
      some (.obj ms) := by
  unfold tryCandidate
  cases hdirect : tryParseObject toNumber (before ++ unit '{' :: (inner ++ unit '}' :: after)) with
  | some value => rw [hspan.tryParseObject_eq hbefore hdirect, Option.orElse_some]
  | none =>
    rw [Option.orElse_none, firstParseableObject]
    have hearlier : (List.range before.length).findSome?
        (parseableAt toNumber (before ++ unit '{' :: (inner ++ unit '}' :: after))) = none := by
      rw [List.findSome?_eq_none_iff]
      intro i hi
      have hlt := List.mem_range.mp hi
      rw [parseableAt, if_neg]
      rw [List.getElem?_append_left hlt]
      intro hbrace
      exact hbefore (List.mem_of_getElem? hbrace)
    have hlength : (before ++ unit '{' :: (inner ++ unit '}' :: after)).length =
        before.length + (inner ++ unit '}' :: after).length.succ := by simp
    rw [hlength, List.range_add, List.findSome?_append, hearlier, List.range_succ_eq_map,
      List.map_cons, List.findSome?_cons, Nat.add_zero, hspan.parseableAt_eq]
    rfl

end

theorem dropWhile_append_cons {p : UInt16 → Bool} {u : UInt16} (hu : p u = false) (s t : Text) :
    (s ++ u :: t).dropWhile p = s.dropWhile p ++ u :: t := by
  rw [List.dropWhile_append]
  split
  · rename_i hnil
    rw [List.dropWhile_cons_of_neg (by simp [hu]), List.isEmpty_iff.mp hnil, List.nil_append]
  · rfl

theorem rdropWhile_append_cons {p : UInt16 → Bool} {u : UInt16} (hu : p u = false) (s t : Text) :
    (s ++ u :: t).rdropWhile p = s ++ u :: t.rdropWhile p := by
  have hreverse : (s ++ u :: t).reverse = t.reverse ++ u :: s.reverse := by simp
  rw [List.rdropWhile, hreverse, dropWhile_append_cons hu]
  simp [List.rdropWhile]

theorem trim_braces (inner : Text) :
    trim (before ++ unit '{' :: (inner ++ unit '}' :: after)) =
      before.dropWhile isWhite ++
        unit '{' :: (inner ++ unit '}' :: after.rdropWhile isWhite) := by
  rw [trim, dropWhile_append_cons (by decide), ← List.cons_append, ← List.append_assoc,
    rdropWhile_append_cons (by decide), List.append_assoc, List.cons_append]

/-- What is found in the whole answer is extracted unless another is found in a code fence. -/
theorem extract_iff_of_tryCandidate {raw : Text} {v : Json} (hne : trim raw ≠ [])
    (htext : tryCandidate toNumber (trim raw) = some v) :
    extractSpecJson toNumber raw = .ok v ↔
      ∀ fenced, fencedCandidate (trim raw) = some fenced →
        tryCandidate toNumber fenced = none ∨ tryCandidate toNumber fenced = some v := by
  unfold extractSpecJson
  simp only [if_neg hne]
  cases hfenced : fencedCandidate (trim raw) with
  | none => simp [htext]
  | some fenced =>
    cases htry : tryCandidate toNumber fenced with
    | none => simp [htext, htry]
    | some value => simp [htry]

/-- An object after a text without braces is the one found in the whole answer. -/
theorem tryCandidate_whole (hparse : parse toNumber text = some (.obj ms))
    (hbefore : unit '{' ∉ before) (after : Text) :
    trim (before ++ text ++ after) ≠ [] ∧
      tryCandidate toNumber (trim (before ++ text ++ after)) = some (.obj ms) := by
  obtain ⟨lead, inner, tail, hlead, rfl, hspan⟩ := span_of_parse hparse
  have hraw : before ++ (lead ++ unit '{' :: (inner ++ unit '}' :: tail)) ++ after =
      (before ++ lead) ++ unit '{' :: (inner ++ unit '}' :: (tail ++ after)) := by simp
  have hnone : unit '{' ∉ (before ++ lead).dropWhile isWhite := by
    intro hmem
    rcases List.mem_append.mp ((List.dropWhile_sublist _).mem hmem) with h | h
    · exact hbefore h
    · exact brace_notMem_blank hlead h
  rw [hraw, trim_braces]
  exact ⟨by simp, hspan.tryCandidate_eq hnone⟩

/-- An object after a text without braces is extracted unless another is found in a code fence. -/
theorem extractSpecJson_iff (hparse : parse toNumber text = some (.obj ms))
    (hbefore : unit '{' ∉ before) (after : Text) :
    extractSpecJson toNumber (before ++ text ++ after) = .ok (.obj ms) ↔
      ∀ fenced, fencedCandidate (trim (before ++ text ++ after)) = some fenced →
        tryCandidate toNumber fenced = none ∨ tryCandidate toNumber fenced = some (.obj ms) := by
  obtain ⟨hne, htext⟩ := tryCandidate_whole hparse hbefore after
  exact extract_iff_of_tryCandidate hne htext

theorem cutAt_eq_none {marker s : Text} (h : ¬ marker <:+: s) : cutAt marker s = none := by
  induction s with
  | nil =>
    rw [cutAt, if_neg]
    rintro rfl
    exact h (List.infix_refl _)
  | cons u s ih =>
    rw [cutAt, if_neg, ih, Option.map_none]
    · intro hwithin
      exact h (List.infix_cons_iff.mpr (.inr hwithin))
    · intro hstart
      exact h (List.isPrefixOf_iff_prefix.mp hstart).isInfix

theorem trim_within (s : Text) : trim s <:+: s := by
  have hdrop : s.dropWhile isWhite <:+ s := List.dropWhile_suffix _
  have htrim : trim s <+: s.dropWhile isWhite := by
    rw [trim, ← List.reverse_suffix]
    simpa [List.rdropWhile] using List.dropWhile_suffix isWhite
  exact htrim.isInfix.trans hdrop.isInfix

theorem fencedCandidate_eq_none {raw : Text} (h : ¬ ticks <:+: raw) :
    fencedCandidate (trim raw) = none := by
  have hcut : cutAt ticks (trim raw) = none :=
    cutAt_eq_none fun hwithin => h (hwithin.trans (trim_within raw))
  simp [fencedCandidate, fenceGroup, hcut]

/-- An object amid prose without code fences. -/
theorem extract_amid_prose (toNumber : Text → Num) (before text after : Text)
    (ms : List (Text × Json)) (hparse : parse toNumber text = some (.obj ms))
    (hbefore : unit '{' ∉ before) (hticks : ¬ ticks <:+: before ++ text ++ after) :
    extractSpecJson toNumber (before ++ text ++ after) = .ok (.obj ms) := by
  rw [extractSpecJson_iff hparse hbefore, fencedCandidate_eq_none hticks]
  intro fenced hfenced
  exact absurd hfenced (by simp)

theorem extract_amid_prose_here :
    let ms := [(ofString "\x7d", Json.scalar (.str (ofString "\"\x7d")))]
    extractSpecJson (fun _ => .zero false)
      (ofString "Here: " ++ stringifyText (.obj ms) ++ ofString " ok \x7d") = .ok (.obj ms) :=
  extract_amid_prose _ _ _ _ _ (parse_stringifyText_reread (by decide)) (by decide) fun hticks =>
    absurd (hticks.subset (show (96 : UInt16) ∈ ticks by decide)) (by decide)

end OpenRupiv.Generator
