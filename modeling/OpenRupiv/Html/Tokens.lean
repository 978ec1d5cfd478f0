import OpenRupiv.Js.Parse

/-!
# The tokens of a page

The data, tag and double-quoted attribute rules of the HTML tokenizer, with the references that
stand for markup characters.  Where a page would need another rule, it has no tokens.

The tokenizer is generic in what it reads: code units, or code units and values that are not looked
into and may stand in text and in attribute values only.
-/

namespace OpenRupiv.Html

open Js

variable {α β γ : Type}

/-- What a tokenizer reads.  A symbol without a code is a value. -/
structure Alphabet (α : Type) where
  unit : UInt16 → α
  code : α → Option UInt16
  /-- The value may stand in text. -/
  inText : α → Bool
  /-- The value may stand in an attribute value. -/
  inValue : α → Bool

inductive Token (α : Type) where
  | char (a : α)
  | startTag (name : Text) (attributes : List (Text × List α)) (selfClosing : Bool)
  | endTag (name : Text)
  /-- `<!…>`. -/
  | declaration
  deriving DecidableEq

/-- A tag that is being read. -/
structure Tag (α : Type) where
  closing : Bool
  name : Text
  attributes : List (Text × List α)

/-- Where characters stand: in text, or in the value of an attribute. -/
inductive Place (α : Type) where
  | text
  | value (tag : Tag α) (name : Text) (read : List α)

inductive Mode (α : Type) where
  | content (place : Place α)
  /-- After an ampersand. -/
  | reference (place : Place α) (seen : Text)
  | tagOpen
  | endTagOpen
  /-- After `<!`. -/
  | markup
  | declaration
  | tagName (closing : Bool) (name : Text)
  | beforeName (tag : Tag α)
  | attributeName (tag : Tag α) (name : Text)
  | afterName (tag : Tag α) (name : Text)
  | beforeValue (tag : Tag α) (name : Text)
  | afterValue (tag : Tag α)
  | selfClosing (tag : Tag α)

abbrev Mode.start : Mode α := .content .text

def isSpace (u : UInt16) : Bool := u = 9 || u = 10 || u = 12 || u = 32

def isUpper (u : UInt16) : Bool := 65 ≤ u.toNat && u.toNat ≤ 90

def isLetter (u : UInt16) : Bool := isUpper u || 97 ≤ u.toNat && u.toNat ≤ 122

def nameUnit (u : UInt16) : UInt16 := if u = 0 then 0xFFFD else if isUpper u then u + 32 else u

/-- The references that stand for markup characters. -/
def named (seen : Text) : Option UInt16 :=
  ([(ofString "amp", unit '&'), (ofString "lt", unit '<'), (ofString "gt", unit '>'),
    (ofString "quot", unit '"'), (ofString "#39", 39)] : List (Text × UInt16)).lookup seen

namespace Tag

/-- No attribute is given twice. -/
def add (tag : Tag α) (name : Text) (value : List α) : Option (Tag α) :=
  if name ∈ keysOf tag.attributes then none
  else some { tag with attributes := tag.attributes ++ [(name, value)] }

def emit (tag : Tag α) (selfClosing : Bool) : Option (Mode α × List (Token α)) :=
  if tag.closing then
    if tag.attributes.isEmpty && !selfClosing then some (.start, [.endTag tag.name]) else none
  else some (.start, [.startTag tag.name tag.attributes selfClosing])

end Tag

namespace Place

def insert (place : Place α) (a : α) : Mode α × List (Token α) :=
  match place with
  | .text => (.start, [.char a])
  | .value tag name read => (.content (.value tag name (read ++ [a])), [])

end Place

section Machine

variable (A : Alphabet α)

/-- A code unit in text. -/
def stepText (u : UInt16) : Mode α × List (Token α) :=
  if u = unit '<' then (.tagOpen, []) else Place.insert .text (A.unit u)

/-- A code unit in the value of an attribute. -/
def stepValue (tag : Tag α) (name : Text) (read : List α) (u : UInt16) :
    Option (Mode α × List (Token α)) :=
  if u = unit '"' then (tag.add name read).map fun tag => (.afterValue tag, [])
  else some (Place.insert (.value tag name read) (A.unit (if u = 0 then 0xFFFD else u)))

def stepUnit (mode : Mode α) (u : UInt16) : Option (Mode α × List (Token α)) :=
  match mode with
  | .content place =>
      if u = unit '&' then some (.reference place [], [])
      else
        match place with
        | .text => some (stepText A u)
        | .value tag name read => stepValue A tag name read u
  | .reference place seen =>
      if u = unit ';' then (named seen).map fun w => place.insert (A.unit w)
      else if isLetter u || isDigit u || u = unit '#' then some (.reference place (seen ++ [u]), [])
      else none
  | .tagOpen =>
      if u = unit '/' then some (.endTagOpen, [])
      else if u = unit '!' then some (.markup, [])
      else if isLetter u then some (.tagName false [nameUnit u], [])
      else none
  | .endTagOpen => if isLetter u then some (.tagName true [nameUnit u], []) else none
  | .markup => if isLetter u then some (.declaration, []) else none
  | .declaration => if u = unit '>' then some (.start, [.declaration]) else some (.declaration, [])
  | .tagName closing name =>
      if isSpace u then some (.beforeName ⟨closing, name, []⟩, [])
      else if u = unit '/' then some (.selfClosing ⟨closing, name, []⟩, [])
      else if u = unit '>' then Tag.emit ⟨closing, name, []⟩ false
      else some (.tagName closing (name ++ [nameUnit u]), [])
  | .beforeName tag =>
      if isSpace u then some (.beforeName tag, [])
      else if u = unit '/' then some (.selfClosing tag, [])
      else if u = unit '>' then tag.emit false
      else if u = unit '=' then none
      else some (.attributeName tag [nameUnit u], [])
  | .attributeName tag name =>
      if isSpace u then some (.afterName tag name, [])
      else if u = unit '/' then (tag.add name []).map fun tag => (.selfClosing tag, [])
      else if u = unit '>' then (tag.add name []).bind fun tag => tag.emit false
      else if u = unit '=' then some (.beforeValue tag name, [])
      else some (.attributeName tag (name ++ [nameUnit u]), [])
  | .afterName tag name =>
      if isSpace u then some (.afterName tag name, [])
      else if u = unit '/' then (tag.add name []).map fun tag => (.selfClosing tag, [])
      else if u = unit '>' then (tag.add name []).bind fun tag => tag.emit false
      else if u = unit '=' then some (.beforeValue tag name, [])
      else (tag.add name []).map fun tag => (.attributeName tag [nameUnit u], [])
  | .beforeValue tag name =>
      if isSpace u then some (.beforeValue tag name, [])
      else if u = unit '"' then some (.content (.value tag name []), [])
      else none
  | .afterValue tag =>
      if isSpace u then some (.beforeName tag, [])
      else if u = unit '/' then some (.selfClosing tag, [])
      else if u = unit '>' then tag.emit false
      else none
  | .selfClosing tag => if u = unit '>' then tag.emit true else none

/-- A value is taken as a whole. -/
def stepWhole (mode : Mode α) (a : α) : Option (Mode α × List (Token α)) :=
  match mode with
  | .content .text => if A.inText a then some (Place.insert .text a) else none
  | .content (.value tag name read) =>
      if A.inValue a then some (Place.insert (.value tag name read) a) else none
  | _ => none

def step (mode : Mode α) (a : α) : Option (Mode α × List (Token α)) :=
  match A.code a with
  | some u => stepUnit A mode u
  | none => stepWhole A mode a

/-- From a mode to a mode, with the tokens that are emitted. -/
def run : Mode α → List α → Option (Mode α × List (Token α))
  | mode, [] => some (mode, [])
  | mode, a :: as => do
      let (next, out) ← step A mode a
      let (last, rest) ← run next as
      return (last, out ++ rest)

/-- The tokens of a page that ends in text. -/
def tokenize (page : List α) : Option (List (Token α)) :=
  match run A .start page with
  | some (.content .text, out) => some out
  | _ => none

end Machine

section Runs

variable {A : Alphabet α}

theorem run_cons {mode next last : Mode α} {a : α} {as : List α} {out rest : List (Token α)}
    (hstep : step A mode a = some (next, out)) (hrun : run A next as = some (last, rest)) :
    run A mode (a :: as) = some (last, out ++ rest) := by
  rw [run, hstep]
  simp [hrun]

theorem run_cons_inv {mode last : Mode α} {a : α} {as : List α} {tokens : List (Token α)}
    (h : run A mode (a :: as) = some (last, tokens)) : ∃ next out rest,
      step A mode a = some (next, out) ∧ run A next as = some (last, rest) ∧ tokens = out ++ rest := by
  simp only [run, Option.bind_eq_bind, Option.bind_eq_some_iff, Option.pure_def, Option.some.injEq,
    Prod.mk.injEq] at h
  obtain ⟨⟨next, out⟩, hstep, ⟨last', rest⟩, hrun, rfl, rfl⟩ := h
  exact ⟨next, out, rest, hstep, hrun, rfl⟩

theorem run_append {mode next last : Mode α} {xs ys : List α} {out rest : List (Token α)}
    (hx : run A mode xs = some (next, out)) (hy : run A next ys = some (last, rest)) :
    run A mode (xs ++ ys) = some (last, out ++ rest) := by
  induction xs generalizing mode out with
  | nil =>
    rw [run, Option.some.injEq, Prod.mk.injEq] at hx
    obtain ⟨rfl, rfl⟩ := hx
    exact hy
  | cons x xs ih =>
    obtain ⟨middle, first, out, hstep, hrun, rfl⟩ := run_cons_inv hx
    rw [List.cons_append, List.append_assoc]
    exact run_cons hstep (ih hrun)

end Runs

end OpenRupiv.Html
