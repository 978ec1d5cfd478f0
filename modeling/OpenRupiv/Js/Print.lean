import OpenRupiv.Js.Stringify

/-!
# Printed values as texts

`String` of numbers, `JSON.stringify` as a text, and how the text of an object is put together when
none of its keys is an array index.
-/

namespace OpenRupiv.Js

/-- The integers with a digit string that ends in `e` zeros, next to `n`, the nearer one first. -/
def roundings (n e : Nat) : List Nat :=
  let q := n / 10 ^ e
  let r := n % 10 ^ e
  if 2 * r < 10 ^ e ∨ 2 * r = 10 ^ e ∧ q % 2 = 0 then [q * 10 ^ e, (q + 1) * 10 ^ e]
  else [(q + 1) * 10 ^ e, q * 10 ^ e]

/-- The integer whose digits `Number::toString` prints for the double `n`: as few as read back as
`n`, and zeros after them. -/
def printed (n : Int) : Int :=
  if n.natAbs ≤ 2 ^ 53 then n
  else
    let candidates : List Nat := (List.range 21).reverse.flatMap (roundings n.natAbs)
    let shortest : Nat := (candidates.find? fun m : Nat => number m = n.natAbs).getD n.natAbs
    n.sign * shortest

theorem printed_of_le {n : Int} (h : n.natAbs ≤ 2 ^ 53) : printed n = n := by
  rw [printed, if_pos h]

def Num.ofDouble (n : Int) : Num := .ofInt (printed n)

/-- `String(n)`. -/
def Num.print : Num → Text
  | .infinite neg => ofString (if neg then "-Infinity" else "Infinity")
  | n => ofString (String.ofList n.stringify)

/-- `JSON.stringify(v)` as a text. -/
def stringifyText (v : Json) : Text := ofString (String.ofList (stringify v))

/-- `Array.prototype.join`. -/
def joinTexts (sep : Text) (parts : List Text) : Text := sep.intercalate parts

theorem joinTexts_cons (sep part : Text) (parts : List Text) :
    joinTexts sep (part :: parts) = part ++ parts.flatMap fun next => sep ++ next := by
  induction parts generalizing part with
  | nil => simp [joinTexts, List.intercalate]
  | cons next parts ih =>
    have htail := ih next
    simp only [joinTexts, List.intercalate] at htail ⊢
    simp [htail]

theorem ownEntries_of_names {α : Type} {ms : List (Text × α)}
    (h : (keysOf ms).all (fun k => (arrayIndex k).isNone) = true) : ownEntries ms = ms := by
  have hnone : ∀ m ∈ ms, arrayIndex m.1 = none := by
    intro m hm
    simpa using List.all_eq_true.mp h m.1 (List.mem_map_of_mem hm)
  have hindex : (ms.filter fun m => (arrayIndex m.1).isSome) = [] := by
    apply List.filter_eq_nil_iff.mpr
    intro m hm
    simp [hnone m hm]
  have hname : (ms.filter fun m => !(arrayIndex m.1).isSome) = ms := by
    apply List.filter_eq_self.mpr
    intro m hm
    simp [hnone m hm]
  rw [ownEntries, hindex, hname]
  rfl

theorem stringify_arr (items : List Json) :
    stringify (.arr items) = '[' :: (separated (items.map stringify) ++ [']']) := by
  simp [stringify]

/-- An object without array indices is printed in the order it is written in. -/
theorem stringify_names {ms : List (Text × Json)}
    (h : (keysOf ms).all (fun k => (arrayIndex k).isNone) = true) : stringify (.obj ms) =
      '{' :: (separated (ms.map fun m => member (m.1, stringify m.2)) ++ ['}']) := by
  have hfold : stringify (.obj ms) =
      '{' :: (separated ((ownEntries (mapValues stringify ms)).map member) ++ ['}']) := by
    simp [stringify]
  rw [hfold, ownEntries_mapValues, ownEntries_of_names h]
  simp [mapValues, Function.comp_def]

theorem stringify_one (v : Json) {k : Text} (hk : arrayIndex k = none) :
    stringify (.obj [(k, v)]) = '{' :: (member (k, stringify v) ++ ['}']) := by
  have hnames : ((keysOf [(k, v)]).all fun k => (arrayIndex k).isNone) = true := by
    simp [keysOf, hk]
  rw [stringify_names hnames]
  simp [separated]

theorem stringify_two (v v' : Json) {k k' : Text} (hk : arrayIndex k = none)
    (hk' : arrayIndex k' = none) : stringify (.obj [(k, v), (k', v')]) =
      '{' :: (member (k, stringify v) ++ ',' :: (member (k', stringify v') ++ ['}'])) := by
  have hnames : ((keysOf [(k, v), (k', v')]).all fun k => (arrayIndex k).isNone) = true := by
    simp [keysOf, hk, hk']
  rw [stringify_names hnames]
  simp [separated]

theorem stringifyText_eq (v : Json) : stringifyText v = (stringify v).flatMap utf16 := by
  rw [stringifyText, ofString, String.toList_ofList]

theorem separated_flatMap (parts : List (List Char)) : (separated parts).flatMap utf16 =
    joinTexts (ofString ",") (parts.map fun cs => cs.flatMap utf16) := by
  have hcomma : ofString "," = utf16 ',' := by decide
  cases parts with
  | nil => rfl
  | cons part parts =>
    rw [separated, List.map_cons, joinTexts_cons, hcomma]
    simp [List.flatMap_assoc, List.flatMap_map]

end OpenRupiv.Js
