import OpenRupiv.Js.Text
import Mathlib.Data.List.DropRight

/-!
# References between URLs

The part of the basic URL parser of the URL Standard that decides the origin, for a base with a
scheme of the web.  What it does with an authority, and with schemes that are not special, is left
open.
-/

namespace OpenRupiv.Js.Url

structure Origin where
  scheme : Text
  host : Text
  port : Option Nat
  deriving DecidableEq

/-- The special schemes but `file`. -/
def isSpecial (scheme : Text) : Bool :=
  (["http", "https", "ws", "wss", "ftp"].map ofString).contains scheme

/-- The origin of a base URL. -/
structure Base extends Origin where
  special : isSpecial scheme = true

def isControlOrSpace (u : UInt16) : Bool := u.toNat ≤ 32

def isTabOrNewline (u : UInt16) : Bool := u = 9 || u = 10 || u = 13

/-- Leading and trailing controls and spaces are removed, then every tab and newline. -/
def preprocess (input : Text) : Text :=
  ((input.dropWhile isControlOrSpace).rdropWhile isControlOrSpace).filter fun u => !isTabOrNewline u

/-- In a special URL a backslash is read as a slash. -/
def isSlash (u : UInt16) : Bool := u = 47 || u = 92

def isAlpha (u : UInt16) : Bool := (65 ≤ u && u ≤ 90) || (97 ≤ u && u ≤ 122)

def isSchemeUnit (u : UInt16) : Bool :=
  isAlpha u || (48 ≤ u && u ≤ 57) || u = 43 || u = 45 || u = 46

/-- The scheme in lower case, and what follows its colon. -/
def schemeOf (s : Text) : Option (Text × Text) :=
  let name := s.takeWhile isSchemeUnit
  match s.dropWhile isSchemeUnit with
  | 58 :: rest =>
      if name.head?.any isAlpha then
        some (name.map fun u => if 65 ≤ u && u ≤ 90 then u + 32 else u, rest)
      else none
  | _ => none

section Parser

-- the host and the port of an authority, and the origin of a URL that is not special
variable (authority : Text → Text → Option Origin) (other : Text → Text → Option Origin)

def relative (base : Base) : Text → Option Origin
  | a :: b :: rest =>
      if isSlash a && isSlash b then authority base.scheme (rest.dropWhile isSlash)
      else some base.toOrigin
  | _ => some base.toOrigin

/-- The origin of an input that is parsed with a base; none if the parser fails. -/
def resolve (base : Base) (input : Text) : Option Origin :=
  let s := preprocess input
  match schemeOf s with
  | some (scheme, rest) =>
      if isSpecial scheme = false then other scheme rest
      else if scheme = base.scheme ∧ ¬ofString "//" <+: rest then relative authority base rest
      else authority scheme (rest.dropWhile isSlash)
  | none => relative authority base s

variable {authority other}

theorem resolve_path (base : Base) {path : Text} (hclean : ∀ u ∈ path, isTabOrNewline u = false)
    (hpath : ∀ u, path.head? = some u → isSlash u = false) :
    resolve authority other base (47 :: path) = some base.toOrigin := by
  have hfront : (47 :: path).dropWhile isControlOrSpace = 47 :: path :=
    List.dropWhile_cons_of_neg (by decide)
  have hback : (47 :: path).rdropWhile isControlOrSpace <+: 47 :: path :=
    List.rdropWhile_prefix isControlOrSpace (47 :: path)
  -- the slash itself is never trimmed
  have hsome : ∃ rest, (47 :: path).rdropWhile isControlOrSpace = 47 :: rest := by
    cases htrim : (47 :: path).rdropWhile isControlOrSpace with
    | nil =>
      have hall := List.rdropWhile_eq_nil_iff.mp htrim 47 List.mem_cons_self
      exact absurd hall (by decide)
    | cons u rest =>
      rw [htrim] at hback
      rw [(List.cons_prefix_cons.mp hback).1]
      exact ⟨rest, rfl⟩
  obtain ⟨rest, hrest⟩ := hsome
  rw [hrest] at hback
  have hstart : rest <+: path := (List.cons_prefix_cons.mp hback).2
  have hfilter : (47 :: rest).filter (fun u => !isTabOrNewline u) = 47 :: rest := by
    apply List.filter_eq_self.mpr
    intro u hu
    rcases List.mem_cons.mp hu with rfl | hu
    · decide
    · simp [hclean u (hstart.subset hu)]
  have hpre : preprocess (47 :: path) = 47 :: rest := by
    rw [preprocess, hfront, hrest, hfilter]
  have hscheme : schemeOf (47 :: rest) = none := by
    have hdrop : (47 :: rest).dropWhile isSchemeUnit = 47 :: rest :=
      List.dropWhile_cons_of_neg (by decide)
    rw [schemeOf, hdrop]
    rfl
  unfold resolve
  dsimp only
  rw [hpre, hscheme]
  cases rest with
  | nil => rfl
  | cons b rest =>
    obtain ⟨more, rfl⟩ := hstart
    have hb : isSlash b = false := hpath b rfl
    simp [relative, hb]

end Parser

end OpenRupiv.Js.Url
