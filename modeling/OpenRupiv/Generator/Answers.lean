import OpenRupiv.Generator.Extraction
import OpenRupiv.Js.Indent

/-!
# Clean answers

An object printed by `JSON.stringify` is extracted from the print, and from the print in a code
fence, unless the print has three backticks in it and an object is found before they end.
-/

namespace OpenRupiv.Generator

open Js

theorem cutAt_self (marker s : Text) : cutAt marker (marker ++ s) = some ([], s) := by
  cases h : marker ++ s with
  | nil =>
    obtain ⟨rfl, rfl⟩ := List.append_eq_nil_iff.mp h
    simp [cutAt]
  | cons u rest =>
    have hstart : marker.isPrefixOf (u :: rest) = true := by
      rw [List.isPrefixOf_iff_prefix, ← h]
      exact List.prefix_append _ _
    rw [cutAt, if_pos hstart, ← h, List.drop_left]

theorem cutAt_split {marker s part rest : Text} (h : cutAt marker s = some (part, rest)) :
    s = part ++ (marker ++ rest) := by
  induction s generalizing part rest with
  | nil =>
    unfold cutAt at h
    split at h
    · rename_i hnil
      obtain ⟨rfl, rfl⟩ := Prod.mk.inj (Option.some.inj h)
      simp [hnil]
    · exact absurd h (by simp)
  | cons u s ih =>
    unfold cutAt at h
    split at h
    · rename_i hstart
      obtain ⟨rfl, rfl⟩ := Prod.mk.inj (Option.some.inj h)
      exact List.prefix_append_drop (List.isPrefixOf_iff_prefix.mp hstart)
    · obtain ⟨p, hp, heq⟩ := Option.map_eq_some_iff.mp h
      obtain ⟨rfl, rfl⟩ := Prod.mk.inj heq
      rw [ih hp]
      rfl

theorem cutAt_append {marker s part rest : Text} (h : cutAt marker s = some (part, rest))
    (after : Text) : cutAt marker (s ++ after) = some (part, rest ++ after) := by
  induction s generalizing part rest with
  | nil =>
    unfold cutAt at h
    split at h
    · rename_i hnil
      obtain ⟨rfl, rfl⟩ := Prod.mk.inj (Option.some.inj h)
      subst hnil
      exact cutAt_self [] after
    · exact absurd h (by simp)
  | cons u s ih =>
    rw [List.cons_append]
    unfold cutAt at h ⊢
    split at h
    · rename_i hstart
      obtain ⟨rfl, rfl⟩ := Prod.mk.inj (Option.some.inj h)
      have hfirst := List.isPrefixOf_iff_prefix.mp hstart
      have hlonger : marker.isPrefixOf (u :: (s ++ after)) = true :=
        List.isPrefixOf_iff_prefix.mpr (hfirst.trans (List.prefix_append (u :: s) after))
      rw [if_pos hlonger, ← List.cons_append, List.drop_append_of_le_length hfirst.length_le]
    · rename_i hstart
      obtain ⟨p, hp, heq⟩ := Option.map_eq_some_iff.mp h
      obtain ⟨rfl, rfl⟩ := Prod.mk.inj heq
      have hlength : marker.length ≤ (u :: s).length := by
        rw [cutAt_split hp]
        simp only [List.length_cons, List.length_append]
        omega
      have hlonger : ¬ marker.isPrefixOf (u :: (s ++ after)) = true := by
        intro hfirst
        have hshort := List.prefix_of_prefix_length_le (List.isPrefixOf_iff_prefix.mp hfirst)
          (List.prefix_append (u :: s) after) hlength
        exact hstart (List.isPrefixOf_iff_prefix.mpr hshort)
      rw [if_neg hlonger, ih hp]
      rfl

/-- A text in a code fence with a tag. -/
def fencedIn (tag t : Text) : Text := ticks ++ (tag ++ 10 :: (t ++ 10 :: ticks))

theorem cutAt_closing {t : Text} (h : cutAt ticks t = none) :
    cutAt ticks (t ++ 10 :: ticks) = some (t ++ [10], []) := by
  have hticks : ticks = [96, 96, 96] := by decide
  induction t with
  | nil =>
    rw [List.nil_append, cutAt, if_neg (by decide)]
    have hself := cutAt_self ticks []
    rw [List.append_nil] at hself
    rw [hself]
    rfl
  | cons u t ih =>
    unfold cutAt at h
    split at h
    · exact absurd h (by simp)
    · rename_i hstart
      have hlonger : ¬ ticks.isPrefixOf (u :: (t ++ 10 :: ticks)) = true := by
        rw [hticks] at hstart ⊢
        rcases t with _ | ⟨a, _ | ⟨b, t⟩⟩
        · simp
        · simp
        · simpa using hstart
      rw [List.cons_append, cutAt, if_neg hlonger, ih (Option.map_eq_none_iff.mp h)]
      rfl

theorem fenceBody_tag {tag : Text} (htag : tag ∈ [ofString "json", []]) (s : Text) :
    fenceBody (tag ++ 10 :: s) = s := by
  simp only [List.mem_cons, List.not_mem_nil, or_false] at htag
  have hjson : ofString "json" = [106, 115, 111, 110] := by decide
  have hlower : List.map lowerUnit [106, 115, 111, 110] = [106, 115, 111, 110] := by decide
  have hbreak : isWhite 10 = true := by decide
  rcases htag with rfl | rfl
  · simp [fenceBody, hjson, hlower, hbreak]
  · have hnot : lowerUnit 10 ≠ 106 := by decide
    simp [fenceBody, hjson, hbreak, hnot]

/-- The group of the fence ends where the print first has three backticks. -/
theorem fenceGroup_fencedIn {tag : Text} (htag : tag ∈ [ofString "json", []]) (t : Text) :
    fenceGroup (fencedIn tag t) =
      some (((cutAt ticks t).map fun p => p.1).getD (t ++ [10])) := by
  unfold fenceGroup fencedIn
  rw [cutAt_self]
  simp only [Option.bind_eq_bind, Option.bind_some, fenceBody_tag htag]
  cases h : cutAt ticks t with
  | none => simp [cutAt_closing h]
  | some p => simp [cutAt_append h]

/-- From the first brace to the last. -/
def Braced (t : Text) : Prop := ∃ inner, t = unit '{' :: (inner ++ [unit '}'])

theorem braced_stringifyText (ms : List (Text × Json)) : Braced (stringifyText (.obj ms)) :=
  ⟨_, stringifyText_obj ms⟩

theorem braced_stringifyWith (gap : Text) (ms : List (Text × Json)) :
    Braced (stringifyWith gap (.obj ms)) := by
  rw [stringifyWith]
  rw [indented_obj, bracketed]
  split
  · exact ⟨[], rfl⟩
  · exact ⟨_, by rw [← List.append_assoc]⟩

theorem Braced.trim {t : Text} (h : Braced t) : trim t = t := by
  obtain ⟨inner, rfl⟩ := h
  have h := @trim_braces [] [] inner
  simpa using h

theorem trim_fencedIn (tag t : Text) : trim (fencedIn tag t) = fencedIn tag t := by
  have hticks : ticks = [96, 96] ++ [96] := by decide
  have hleft : isWhite 96 = false := by decide
  have hright : ∀ s : Text, (s ++ ticks).rdropWhile isWhite = s ++ ticks := by
    intro s
    rw [hticks, ← List.append_assoc, List.rdropWhile_concat_neg _ _ _ (by simp [hleft])]
  have hends : fencedIn tag t = (ticks ++ (tag ++ 10 :: (t ++ [10]))) ++ ticks := by
    simp [fencedIn]
  have hdrop : (fencedIn tag t).dropWhile isWhite = fencedIn tag t := by
    rw [fencedIn, hticks]
    simp [hleft]
  rw [trim, hdrop, hends, hright]

section

variable {toNumber : Text → Num}

/-- No object but `v` is found in a part of an answer. -/
def FindsOnly (toNumber : Text → Num) (v : Json) (part : Text) : Prop :=
  ∀ w, tryCandidate toNumber (trim part) = some w → w = v

theorem tryCandidate_nil : tryCandidate toNumber [] = none := by
  rfl

theorem fencedCandidate_iff {raw : Text} {v : Json} :
    (∀ fenced, fencedCandidate raw = some fenced →
        tryCandidate toNumber fenced = none ∨ tryCandidate toNumber fenced = some v) ↔
      ∀ part, fenceGroup raw = some part → FindsOnly toNumber v part := by
  have hfinds : ∀ fenced, (tryCandidate toNumber fenced = none ∨
      tryCandidate toNumber fenced = some v) ↔ ∀ w, tryCandidate toNumber fenced = some w → w = v := by
    intro fenced
    cases tryCandidate toNumber fenced <;> simp
  unfold FindsOnly fencedCandidate
  simp only [hfinds]
  constructor
  · intro h part hpart w hw
    by_cases hempty : trim part = []
    · rw [hempty, tryCandidate_nil] at hw
      exact absurd hw (by simp)
    · exact h (trim part) (by simp [hpart, hempty]) w hw
  · intro h fenced hfenced w hw
    obtain ⟨hgroup, -⟩ := Option.filter_eq_some_iff.mp hfenced
    obtain ⟨part, hpart, rfl⟩ := Option.map_eq_some_iff.mp hgroup
    exact h part hpart w hw

/-- A text that is read as an object is extracted, bare or in a fence, unless another object is found
before its backticks end. -/
theorem extract_printed {t : Text} {ms : List (Text × Json)}
    (hparse : parse toNumber t = some (.obj ms)) (hbraced : Braced t) :
    (extractSpecJson toNumber t = .ok (.obj ms) ↔
      ∀ part, fenceGroup t = some part → FindsOnly toNumber (.obj ms) part) ∧
    ∀ tag ∈ [ofString "json", []],
      (extractSpecJson toNumber (fencedIn tag t) = .ok (.obj ms) ↔
        ∀ part rest, cutAt ticks t = some (part, rest) → FindsOnly toNumber (.obj ms) part) := by
  constructor
  · have hbare := extractSpecJson_iff hparse (List.not_mem_nil (a := unit '{')) []
    rw [List.nil_append, List.append_nil, hbraced.trim, fencedCandidate_iff] at hbare
    exact hbare
  · intro tag htag
    have hbefore : unit '{' ∉ ticks ++ (tag ++ [10]) := by
      simp only [List.mem_cons, List.not_mem_nil, or_false] at htag
      rcases htag with rfl | rfl <;> decide
    have hends : fencedIn tag t = (ticks ++ (tag ++ [10])) ++ t ++ 10 :: ticks := by
      simp [fencedIn]
    have hfenced := extractSpecJson_iff hparse hbefore (10 :: ticks)
    rw [← hends, trim_fencedIn, fencedCandidate_iff, fenceGroup_fencedIn htag] at hfenced
    rw [hfenced]
    cases hcut : cutAt ticks t with
    | some p =>
      obtain ⟨part, rest⟩ := p
      simp [FindsOnly]
    | none =>
      obtain ⟨-, hwhole⟩ := tryCandidate_whole hparse (List.not_mem_nil (a := unit '{')) [10]
      simp only [List.nil_append] at hwhole
      simp [FindsOnly, hwhole]

/-- What `JSON.stringify` prints of an object is read as it. -/
theorem printed_object {ms : List (Text × Json)} (hv : (Json.obj ms).distinctKeys = true)
    (hread : ∀ n ∈ (Json.obj ms).numbers, n.isFinite = true → toNumber n.print = n.unsigned)
    {gap : Text} (hgap : Blank gap) {t : Text}
    (ht : t ∈ [stringifyText (.obj ms), stringifyWith gap (.obj ms)]) :
    parse toNumber t = some ((Json.obj ms).rebuild Scalar.printed .own) ∧ Braced t := by
  rw [← Json.rebuild_reread hread]
  simp only [List.mem_cons, List.not_mem_nil, or_false] at ht
  rcases ht with rfl | rfl
  · exact ⟨parse_stringifyText_reread hv, braced_stringifyText ms⟩
  · have hparse := @parse_stringifyWith _ toNumber hgap _ hv _ blank_nil
    rw [List.append_nil] at hparse
    exact ⟨hparse, braced_stringifyWith gap ms⟩

end

/-- The print of an object, bare or in a fence, is extracted unless three backticks in it end a fence
with another object before them. -/
theorem extract_stringified_iff (toNumber : Text → Num) (ms : List (Text × Json))
    (hv : (Json.obj ms).distinctKeys = true)
    (hread : ∀ n ∈ (Json.obj ms).numbers, n.isFinite = true → toNumber n.print = n.unsigned)
    (gap : Text) (hgap : Blank gap) (t : Text)
    (ht : t ∈ [stringifyText (.obj ms), stringifyWith gap (.obj ms)]) :
    let v := (Json.obj ms).rebuild Scalar.printed .own
    (extractSpecJson toNumber t = .ok v ↔
      ∀ part, fenceGroup t = some part → FindsOnly toNumber v part) ∧
    (∀ tag ∈ [ofString "json", []],
      (extractSpecJson toNumber (fencedIn tag t) = .ok v ↔
        ∀ part rest, cutAt ticks t = some (part, rest) → FindsOnly toNumber v part)) ∧
    (¬ ticks <:+: t → ∀ raw ∈ [t, fencedIn (ofString "json") t, fencedIn [] t],
      extractSpecJson toNumber raw = .ok v) := by
  intro v
  obtain ⟨hparse, hbraced⟩ := printed_object hv hread hgap ht
  change parse toNumber t = some v at hparse
  obtain ⟨printed, hprinted⟩ : ∃ printed, v = .obj printed := ⟨_, Json.rebuild_obj ..⟩
  clear_value v
  subst hprinted
  obtain ⟨hbare, hfenced⟩ := extract_printed hparse hbraced
  refine ⟨hbare, hfenced, fun hticks raw hraw => ?_⟩
  have hcut : cutAt ticks t = none := cutAt_eq_none hticks
  have hgroup : fenceGroup t = none := by simp [fenceGroup, hcut]
  simp only [List.mem_cons, List.not_mem_nil, or_false] at hraw
  rcases hraw with rfl | rfl | rfl
  · exact hbare.mpr (by simp [hgroup])
  · exact (hfenced (ofString "json") (by simp)).mpr (by simp [hcut])
  · exact (hfenced [] (by simp)).mpr (by simp [hcut])

/-- A string with a fence around no object. -/
def tickMember : Text × Json := (ofString "a", .scalar (.str (ofString "```x```")))

theorem extract_stringified_ticks :
    let v := (Json.obj [tickMember]).rebuild Scalar.printed .own
    let t := stringifyWith (ofString "  ") (.obj [tickMember])
    (fenceGroup t).isSome = true ∧ extractSpecJson (fun _ => .zero false) t = .ok v ∧
      ∀ tag ∈ [ofString "json", []], extractSpecJson (fun _ => .zero false) (fencedIn tag t) = .ok v := by
  intro v t
  have hgroup : (fenceGroup t).any (fun part =>
      (tryCandidate (fun _ => .zero false) (trim part)).isNone) = true := by decide +kernel
  have hcut : (cutAt ticks t).any (fun p =>
      (tryCandidate (fun _ => .zero false) (trim p.1)).isNone) = true := by decide +kernel
  obtain ⟨group, hgroup, hnone⟩ := Option.any_eq_true _ _ |>.mp hgroup
  obtain ⟨before, hbefore, hnothing⟩ := Option.any_eq_true _ _ |>.mp hcut
  obtain ⟨hbare, hfenced, -⟩ := extract_stringified_iff (fun _ => .zero false) [tickMember]
    (by decide) (by simp [tickMember, Json.numbers]) (ofString "  ") blank_spaces t
    (List.mem_cons_of_mem _ List.mem_cons_self)
  refine ⟨by rw [hgroup]; rfl, hbare.mpr ?_, fun tag htag => (hfenced tag htag).mpr ?_⟩
  · intro part hpart w hw
    cases hgroup.symm.trans hpart
    rw [Option.isNone_iff_eq_none.mp hnone] at hw
    exact absurd hw (by simp)
  · intro part rest hpart w hw
    cases hbefore.symm.trans hpart
    rw [Option.isNone_iff_eq_none.mp hnothing] at hw
    exact absurd hw (by simp)
def fenceMember : Text × Json := (ofString "a", .scalar (.str (ofString "```{}```")))

/-- The text of the object that was extracted. -/
def ParsedCandidate.print : ParsedCandidate → Option Text
  | .ok v => some (stringifyText v)
  | .error _ => none

/-- A code fence in a string is taken for the answer. -/
theorem extract_fence_in_string :
    (extractSpecJson (fun _ => .zero false) (stringifyText (.obj [fenceMember]))).print =
        some (ofString "\x7b\x7d") ∧
      extractSpecJson (fun _ => .zero false) (stringifyText (.obj [fenceMember])) ≠
        .ok ((Json.obj [fenceMember]).rebuild Scalar.printed .own) := by
  have hfound : (extractSpecJson (fun _ => .zero false) (stringifyText (.obj [fenceMember]))).print =
      some (ofString "\x7b\x7d") := by decide +kernel
  have hprint : stringifyText ((Json.obj [fenceMember]).rebuild Scalar.printed .own) ≠
      ofString "\x7b\x7d" := by decide +kernel
  refine ⟨hfound, fun h => ?_⟩
  rw [h] at hfound
  exact hprint (Option.some.inj hfound)

end OpenRupiv.Generator
