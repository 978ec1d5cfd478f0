import OpenRupiv.Js.Consume
import OpenRupiv.Js.Trim

/-!
# A spec in the answer of a model

`packages/generator/src/parse.ts`: the JSON object in a raw answer, in a code fence or in prose.
-/

namespace OpenRupiv.Generator

open Js

inductive ParsedCandidate where
  | ok (value : Json)
  | error (reason : Text)

/-- Three backticks. -/
def ticks : Text := ofString "```"

/-- The text before the first `marker` and the text after it. -/
def cutAt (marker : Text) : Text → Option (Text × Text)
  | [] => if marker = [] then some ([], []) else none
  | u :: rest =>
      if marker.isPrefixOf (u :: rest) then some ([], (u :: rest).drop marker.length)
      else (cutAt marker rest).map fun p => (u :: p.1, p.2)

/-- `(?:json)?[^\S\n]*\n?` takes all it can. -/
def fenceBody (s : Text) : Text :=
  let s := if (s.take 4).map lowerUnit = ofString "json" then s.drop 4 else s
  let s := s.dropWhile fun u => isWhite u && u != 10
  if s.head? = some 10 then s.tail else s

/-- The group of `FENCE_RE`.  What the opening takes has no backtick, so the first three backticks
match when there are three more after them, and the group ends at the first of these. -/
def fenceGroup (s : Text) : Option Text := do
  let (_, opened) ← cutAt ticks s
  let (group, _) ← cutAt ticks (fenceBody opened)
  return group

section

variable (toNumber : Text → Num)

/-- `JSON.parse`, for plain objects only. -/
def tryParseObject (s : Text) : Option Json :=
  match parse toNumber s with
  | some (.obj ms) => some (.obj ms)
  | _ => none

/-- The loop of `scanBalanced` from the place `i`. -/
def scanFrom : Text → Nat → Nat → Bool → Bool → Option Nat
  | [], _, _, _, _ => none
  | ch :: rest, i, depth, inString, escaped =>
      if inString then
        if escaped then scanFrom rest (i + 1) depth true false
        else if ch = unit '\\' then scanFrom rest (i + 1) depth true true
        else if ch = unit '"' then scanFrom rest (i + 1) depth false escaped
        else scanFrom rest (i + 1) depth true escaped
      else if ch = unit '"' then scanFrom rest (i + 1) depth true escaped
      else if ch = unit '{' then scanFrom rest (i + 1) (depth + 1) false escaped
      else if ch = unit '}' then
        if depth - 1 = 0 then some i else scanFrom rest (i + 1) (depth - 1) false escaped
      else scanFrom rest (i + 1) depth false escaped

/-- The place of the brace that matches the one at `start`. -/
def scanBalanced (s : Text) (start : Nat) : Option Nat := scanFrom (s.drop start) start 0 false false

/-- The object of the span that begins at `i`. -/
def parseableAt (s : Text) (i : Nat) : Option Json :=
  if s[i]? = some (unit '{') then
    (scanBalanced s i).bind fun last => tryParseObject toNumber ((s.drop i).take (last + 1 - i))
  else none

def firstParseableObject (s : Text) : Option Json :=
  (List.range s.length).findSome? (parseableAt toNumber s)

def tryCandidate (candidate : Text) : Option Json :=
  (tryParseObject toNumber candidate).orElse fun _ => firstParseableObject toNumber candidate

/-- The trimmed group of the fence, unless it is empty. -/
def fencedCandidate (text : Text) : Option Text :=
  ((fenceGroup text).map trim).filter fun fenced => fenced ≠ []

def extractSpecJson (raw : Text) : ParsedCandidate :=
  let text := trim raw
  if text = [] then .error (ofString "the response is empty")
  else
    match ((fencedCandidate text).toList ++ [text]).findSome? (tryCandidate toNumber) with
    | some value => .ok value
    | none => .error (ofString "no parseable JSON object found in the response")

end

/-- A text that the scan passes over outside strings, inside some braces. -/
def Passes (s : Text) : Prop :=
  ∀ rest i depth, 1 ≤ depth →
    scanFrom (s ++ rest) i depth false false = scanFrom rest (i + s.length) depth false false

theorem scanFrom_inside {u : UInt16} (hslash : u ≠ unit '\\') (hquote : u ≠ unit '"')
    (rest : Text) (i depth : Nat) :
    scanFrom (u :: rest) i depth true false = scanFrom rest (i + 1) depth true false := by
  rw [scanFrom]
  simp [hslash, hquote]

theorem scanFrom_escape (u : UInt16) (rest : Text) (i depth : Nat) :
    scanFrom (unit '\\' :: u :: rest) i depth true false =
      scanFrom rest (i + 2) depth true false := by
  rw [scanFrom]
  simp only [if_true, Bool.false_eq_true, if_false]
  rw [scanFrom]
  simp

theorem hexDigit_ne {u : UInt16} {n : Nat} (h : hexDigit u = some n) :
    u ≠ unit '\\' ∧ u ≠ unit '"' := by
  have hslash : hexDigit (unit '\\') = none := by decide
  have hquote : hexDigit (unit '"') = none := by decide
  constructor
  · rintro rfl
    exact absurd (hslash.symm.trans h) (by simp)
  · rintro rfl
    exact absurd (hquote.symm.trans h) (by simp)

theorem scanFrom_string {s t r : Text} (h : readString s = some (t, r)) :
    ∃ b, s = b ++ r ∧ ∀ rest i depth,
      scanFrom (b ++ rest) i depth true false = scanFrom rest (i + b.length) depth false false := by
  fun_induction readString s generalizing t with
  | case1 => exact absurd h (by simp)
  | case2 rest =>
    obtain ⟨rfl, rfl⟩ := Prod.mk.inj (Option.some.inj h)
    refine ⟨[unit '"'], rfl, fun rest i depth => ?_⟩
    rw [List.singleton_append, scanFrom]
    simp [show unit '"' ≠ unit '\\' by decide]
  | case3 => exact absurd h (by simp)
  | case4 a b c d rest hne ih =>
    simp only [Option.bind_eq_bind, Option.bind_eq_some_iff, Option.pure_def, Option.some.injEq,
      Prod.exists, Prod.mk.injEq] at h
    obtain ⟨x, hx, t', r', hread, rfl, rfl⟩ := h
    obtain ⟨body, rfl, hbody⟩ := ih hread
    simp only [hexUnit, Option.bind_eq_bind, Option.bind_eq_some_iff] at hx
    obtain ⟨na, ha, nb, hb, nc, hc, nd, hd, -⟩ := hx
    refine ⟨unit '\\' :: unit 'u' :: a :: b :: c :: d :: body, rfl, fun rest i depth => ?_⟩
    simp only [List.cons_append]
    rw [scanFrom_escape, scanFrom_inside (hexDigit_ne ha).1 (hexDigit_ne ha).2,
      scanFrom_inside (hexDigit_ne hb).1 (hexDigit_ne hb).2,
      scanFrom_inside (hexDigit_ne hc).1 (hexDigit_ne hc).2,
      scanFrom_inside (hexDigit_ne hd).1 (hexDigit_ne hd).2, hbody]
    congr 1
    simp only [List.length_cons]
    omega
  | case5 => exact absurd h (by simp)
  | case6 e rest he hne ih =>
    simp only [Option.bind_eq_bind, Option.bind_eq_some_iff, Option.pure_def, Option.some.injEq,
      Prod.exists, Prod.mk.injEq] at h
    obtain ⟨x, hx, t', r', hread, rfl, rfl⟩ := h
    obtain ⟨body, rfl, hbody⟩ := ih hread
    refine ⟨unit '\\' :: e :: body, rfl, fun rest i depth => ?_⟩
    simp only [List.cons_append]
    rw [scanFrom_escape, hbody]
    congr 1
    simp only [List.length_cons]
    omega
  | case7 => exact absurd h (by simp)
  | case8 u rest hquote hslash hcontrol ih =>
    simp only [Option.bind_eq_bind, Option.bind_eq_some_iff, Option.pure_def, Option.some.injEq,
      Prod.exists, Prod.mk.injEq] at h
    obtain ⟨t', r', hread, rfl, rfl⟩ := h
    obtain ⟨body, rfl, hbody⟩ := ih hread
    refine ⟨u :: body, rfl, fun rest i depth => ?_⟩
    rw [List.cons_append, scanFrom_inside hslash hquote, hbody]
    congr 1
    simp only [List.length_cons]
    omega

theorem Passes.closes {s : Text} (h : Passes s) (rest : Text) (i depth : Nat) :
    scanFrom (unit '{' :: (s ++ unit '}' :: rest)) i depth false false =
      if depth = 0 then some (i + 1 + s.length)
      else scanFrom rest (i + 1 + s.length + 1) depth false false := by
  rw [scanFrom]
  simp only [Bool.false_eq_true, if_false, if_neg (show unit '{' ≠ unit '"' by decide), if_true]
  rw [h _ _ _ (by omega), scanFrom]
  simp only [Bool.false_eq_true, if_false, if_neg (show unit '}' ≠ unit '"' by decide),
    if_neg (show unit '}' ≠ unit '{' by decide), if_true, Nat.add_sub_cancel]

theorem lexical_passes : Lexical Passes := by
  constructor
  · intro rest i depth _
    simp
  · intro s t hs ht rest i depth hdepth
    rw [List.append_assoc, hs _ i depth hdepth, ht _ _ depth hdepth, List.length_append,
      Nat.add_assoc]
  · intro u hu rest i depth _
    simp only [List.mem_cons, List.not_mem_nil, or_false, not_or] at hu
    rw [List.singleton_append, scanFrom]
    simp [hu]
  · intro b t h rest i depth _
    obtain ⟨b', hb, hscan⟩ := scanFrom_string h
    rw [List.append_nil] at hb
    subst hb
    rw [List.cons_append, scanFrom]
    simp only [Bool.false_eq_true, if_false, if_true, hscan, List.length_cons]
    congr 1
    omega
  · intro t ht rest i depth hdepth
    rw [List.cons_append, List.append_assoc, List.singleton_append, ht.closes, if_neg (by omega)]
    congr 1
    simp only [List.length_cons, List.length_append, List.length_nil]
    omega

end OpenRupiv.Generator
