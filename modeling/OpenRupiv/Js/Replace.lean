import OpenRupiv.Lib.Letters
import Mathlib.Data.List.Basic
import Mathlib.Tactic.Common

/-!
# `String.prototype.replace` with two groups

A global replacement of `$1$2` by `$1`, a separator and `$2`.  When the separators stand where a
condition on the next characters holds, the replacement is a single pass over the text.
-/

namespace OpenRupiv.Js

open Lib (isUpper_iff isLower_iff isDigit_iff)

/-- The lengths of the two groups of a match at the front of a text. -/
abbrev Pattern : Type := List Char → Option (Nat × Nat)

/-- The rest of a replacement: `m` and `n` are what is left of the groups of the current match. -/
def replaceFrom (pattern : Pattern) (sep : Char) : Nat → Nat → List Char → List Char
  | _, _, [] => []
  | m, n, c :: cs =>
      match if m = 0 ∧ n = 0 then (pattern (c :: cs)).getD (0, 0) else (m, n) with
      | (0, n) => c :: replaceFrom pattern sep 0 (n - 1) cs
      | (1, n) => c :: sep :: replaceFrom pattern sep 0 n cs
      | (m + 2, n) => c :: replaceFrom pattern sep (m + 1) n cs

/-- `replace(pattern, "$1" + sep + "$2")` with the `g` flag. -/
def replaceAll (pattern : Pattern) (sep : Char) (cs : List Char) : List Char :=
  replaceFrom pattern sep 0 0 cs

/-- A separator after every character where the condition holds. -/
def breakAt (p : Char → List Char → Bool) (sep : Char) : List Char → List Char
  | [] => []
  | c :: cs => c :: if p c cs then sep :: breakAt p sep cs else breakAt p sep cs

theorem map_breakAt {p : Char → List Char → Bool} {f : Char → Char}
    (hf : ∀ c cs, p (f c) (cs.map f) = p c cs) (sep : Char) (cs : List Char) :
    (breakAt p sep cs).map f = breakAt p (f sep) (cs.map f) := by
  induction cs with
  | nil => rfl
  | cons c cs ih =>
    rw [breakAt, List.map_cons, List.map_cons, breakAt, hf, ← ih]
    split <;> rfl

/-- A capital and a small letter. -/
def startsWord : List Char → Bool
  | d :: e :: _ => d.isUpper && e.isLower
  | _ => false

/-- `([a-z0-9])([A-Z])`. -/
def wordPattern : Pattern
  | c :: d :: _ => if (c.isLower || c.isDigit) && d.isUpper then some (1, 1) else none
  | _ => none

/-- `([A-Z]+)([A-Z][a-z])`: the first group takes as many capitals as it can. -/
def acronymPattern : Pattern := fun cs =>
  ((List.range' 1 (cs.takeWhile Char.isUpper).length).reverse.find? fun m =>
    startsWord (cs.drop m)).map fun m => (m, 2)

/-- Between a small letter or a digit and a capital. -/
def wordBreak (c : Char) (cs : List Char) : Bool :=
  (c.isLower || c.isDigit) && cs.head?.any Char.isUpper

/-- Before the last capital of a run that a small letter follows. -/
def acronymBreak (c : Char) (cs : List Char) : Bool := c.isUpper && startsWord cs

theorem not_isLower_of_isUpper {c : Char} (h : c.isUpper = true) : c.isLower = false := by
  by_contra hlower
  simp only [Bool.not_eq_false, isUpper_iff, isLower_iff] at hlower h
  omega

theorem not_isDigit_of_isUpper {c : Char} (h : c.isUpper = true) : c.isDigit = false := by
  by_contra hdigit
  simp only [Bool.not_eq_false, isUpper_iff, isDigit_iff] at hdigit h
  omega

private theorem replaceFrom_word (sep : Char) (cs : List Char) :
    replaceFrom wordPattern sep 0 0 cs = breakAt wordBreak sep cs ∧
      (cs.head?.any Char.isUpper = true →
        replaceFrom wordPattern sep 0 1 cs = breakAt wordBreak sep cs) := by
  induction cs with
  | nil => exact ⟨rfl, fun h => rfl⟩
  | cons c cs ih =>
    constructor
    · rw [breakAt]
      cases hbreak : wordBreak c cs with
      | true =>
        have hmatch : wordPattern (c :: cs) = some (1, 1) := by
          cases cs with
          | nil => simp [wordBreak] at hbreak
          | cons d rest => simpa [wordPattern, wordBreak] using hbreak
        have hhead : cs.head?.any Char.isUpper = true := by
          simp only [wordBreak, Bool.and_eq_true] at hbreak
          exact hbreak.2
        simp [replaceFrom, hmatch, ih.2 hhead]
      | false =>
        have hmatch : wordPattern (c :: cs) = none := by
          cases cs with
          | nil => rfl
          | cons d rest => simpa [wordPattern, wordBreak] using hbreak
        simp [replaceFrom, hmatch, ih.1]
    · intro hupper
      have hc : c.isUpper = true := hupper
      have hbreak : wordBreak c cs = false := by
        simp [wordBreak, not_isLower_of_isUpper hc, not_isDigit_of_isUpper hc]
      simp [replaceFrom, breakAt, hbreak, ih.1]

theorem replaceAll_word (sep : Char) (cs : List Char) :
    replaceAll wordPattern sep cs = breakAt wordBreak sep cs := (replaceFrom_word sep cs).1

private theorem acronymPattern_eq_some {cs : List Char} {x : Nat × Nat}
    (h : acronymPattern cs = some x) :
    ∃ m, x = (m + 1, 2) ∧ (cs.take (m + 1)).all Char.isUpper = true ∧
      startsWord (cs.drop (m + 1)) = true := by
  obtain ⟨m, hfind, rfl⟩ := Option.map_eq_some_iff.mp h
  have hm := List.mem_reverse.mp (List.mem_of_find?_eq_some hfind)
  rw [List.mem_range'_1] at hm
  obtain ⟨m, rfl⟩ := Nat.exists_eq_add_of_le' hm.1
  refine ⟨m, rfl, ?_, by simpa using List.find?_some hfind⟩
  have hinit : cs.take (m + 1) <+: cs.takeWhile Char.isUpper := by
    apply List.prefix_of_prefix_length_le (List.take_prefix _ _) (List.takeWhile_prefix _)
    rw [List.length_take]
    omega
  rw [List.all_eq_true]
  intro c hc
  exact List.all_eq_true.mp List.all_takeWhile c (hinit.subset hc)

private theorem acronymBreak_of_none {c : Char} {cs : List Char}
    (h : acronymPattern (c :: cs) = none) : acronymBreak c cs = false := by
  rw [acronymPattern, Option.map_eq_none_iff, List.find?_eq_none] at h
  by_contra hbreak
  simp only [Bool.not_eq_false, acronymBreak, Bool.and_eq_true] at hbreak
  apply h 1
  · rw [List.mem_reverse, List.mem_range'_1, List.takeWhile_cons_of_pos hbreak.1, List.length_cons]
    omega
  · exact hbreak.2

private theorem replaceFrom_acronym (sep : Char) (cs : List Char) :
    replaceFrom acronymPattern sep 0 0 cs = breakAt acronymBreak sep cs ∧
      (∀ m, (cs.take (m + 1)).all Char.isUpper = true → startsWord (cs.drop (m + 1)) = true →
        replaceFrom acronymPattern sep (m + 1) 2 cs = breakAt acronymBreak sep cs) ∧
      (startsWord cs = true →
        replaceFrom acronymPattern sep 0 2 cs = breakAt acronymBreak sep cs) ∧
      (cs.head?.any Char.isLower = true →
        replaceFrom acronymPattern sep 0 1 cs = breakAt acronymBreak sep cs) := by
  induction cs with
  | nil => exact ⟨rfl, fun _ _ _ => rfl, fun _ => rfl, fun _ => rfl⟩
  | cons c cs ih =>
    obtain ⟨ihNone, ihRun, ihWord, ihLower⟩ := ih
    have hrun : ∀ m, ((c :: cs).take (m + 1)).all Char.isUpper = true →
        startsWord ((c :: cs).drop (m + 1)) = true →
        replaceFrom acronymPattern sep (m + 1) 2 (c :: cs) = breakAt acronymBreak sep (c :: cs) := by
      intro m hupper hword
      rw [List.take_succ_cons, List.all_cons, Bool.and_eq_true] at hupper
      rw [List.drop_succ_cons] at hword
      rw [breakAt]
      cases m with
      | zero =>
        rw [List.drop_zero] at hword
        have hbreak : acronymBreak c cs = true := by simp [acronymBreak, hupper.1, hword]
        simp [replaceFrom, hbreak, ihWord hword]
      | succ m =>
        -- the next capital is not the last one
        have hbreak : acronymBreak c cs = false := by
          have hnot : startsWord cs = false := by
            match cs, m with
            | [], _ | [_], _ => rfl
            | d :: e :: rest, 0 =>
              rw [List.drop_succ_cons, List.drop_zero] at hword
              cases rest with
              | nil => simp [startsWord] at hword
              | cons g rest =>
                simp only [startsWord, Bool.and_eq_true] at hword
                simp [startsWord, not_isLower_of_isUpper hword.1]
            | d :: e :: rest, m + 1 =>
              have he : e.isUpper = true := by
                simp only [List.take_succ_cons, List.all_cons, Bool.and_eq_true] at hupper
                exact hupper.2.2.1
              simp [startsWord, not_isLower_of_isUpper he]
          simp [acronymBreak, hnot]
        simp [replaceFrom, hbreak, ihRun m hupper.2 hword]
    refine ⟨?_, hrun, ?_, ?_⟩
    · cases hmatch : acronymPattern (c :: cs) with
      | none => simp [replaceFrom, breakAt, hmatch, acronymBreak_of_none hmatch, ihNone]
      | some x =>
        obtain ⟨m, rfl, hupper, hword⟩ := acronymPattern_eq_some hmatch
        rw [← hrun m hupper hword]
        simp [replaceFrom, hmatch]
    · intro hword
      -- the small letter of the second group is next
      cases cs with
      | nil => simp [startsWord] at hword
      | cons d rest =>
        simp only [startsWord, Bool.and_eq_true] at hword
        have hbreak : acronymBreak c (d :: rest) = false := by
          have hd : d.isUpper = false := by
            by_contra hupper
            rw [Bool.not_eq_false] at hupper
            rw [not_isLower_of_isUpper hupper] at hword
            exact absurd hword.2 (by simp)
          cases rest <;> simp [acronymBreak, startsWord, hd]
        have hstep : replaceFrom acronymPattern sep 0 2 (c :: d :: rest) =
            c :: replaceFrom acronymPattern sep 0 1 (d :: rest) := by
          rw [replaceFrom]
          simp
        rw [hstep, ihLower (by simpa using hword.2)]
        conv_rhs => rw [breakAt, hbreak]
        rfl
    · intro hlower
      have hc : c.isUpper = false := by
        by_contra hupper
        rw [Bool.not_eq_false] at hupper
        have hlower' : c.isLower = true := hlower
        rw [not_isLower_of_isUpper hupper] at hlower'
        exact absurd hlower' (by simp)
      simp [replaceFrom, breakAt, acronymBreak, hc, ihNone]

theorem replaceAll_acronym (sep : Char) (cs : List Char) :
    replaceAll acronymPattern sep cs = breakAt acronymBreak sep cs := (replaceFrom_acronym sep cs).1

end OpenRupiv.Js
