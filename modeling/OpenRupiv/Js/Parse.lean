import OpenRupiv.Js.Print
import OpenRupiv.Js.Utf8

/-!
# `JSON.parse`

The grammar is read with one token of lookahead; a text in which it fails is refused.  Rounding the
digits of a number to a double is left to `toNumber`.  What `JSON.stringify` prints is read back with
its members in printed order and its scalars as `toNumber` reads them; where a printed finite number
reads back as itself, these are the scalars that were printed.
-/

namespace OpenRupiv.Js

/-- The code unit of a character of the basic plane. -/
def unit (c : Char) : UInt16 := UInt16.ofNat c.toNat

def isSpace (u : UInt16) : Bool := u == 9 || u == 10 || u == 13 || u == 32

def skip (s : Text) : Text := s.dropWhile isSpace

/-- The text after the token `c`. -/
def expect (c : Char) (s : Text) : Option Text :=
  match skip s with
  | [] => none
  | u :: r => if u = unit c then some r else none

def hexDigit (u : UInt16) : Option Nat :=
  if 48 ≤ u.toNat ∧ u.toNat ≤ 57 then some (u.toNat - 48)
  else if 97 ≤ u.toNat ∧ u.toNat ≤ 102 then some (u.toNat - 87)
  else if 65 ≤ u.toNat ∧ u.toNat ≤ 70 then some (u.toNat - 55)
  else none

/-- The unit of `\uabcd`. -/
def hexUnit (a b c d : UInt16) : Option UInt16 := do
  let a ← hexDigit a
  let b ← hexDigit b
  let c ← hexDigit c
  let d ← hexDigit d
  return UInt16.ofNat (4096 * a + 256 * b + 16 * c + d)

/-- The unit of a one-letter escape. -/
def escaped (e : UInt16) : Option UInt16 :=
  if e = unit 'b' then some 8 else if e = unit 't' then some 9 else if e = unit 'n' then some 10
  else if e = unit 'f' then some 12 else if e = unit 'r' then some 13
  else if e = unit '"' ∨ e = unit '\\' ∨ e = unit '/' then some e
  else none

/-- A string after its opening quote, and the text after its closing one. -/
def readString : Text → Option (Text × Text)
  | [] => none
  | u :: r =>
      if u = unit '"' then some ([], r)
      else if u = unit '\\' then
        match r with
        | [] => none
        | e :: r =>
            if e = unit 'u' then
              match r with
              | a :: b :: c :: d :: r => do
                  let x ← hexUnit a b c d
                  let (s, rest) ← readString r
                  return (x :: s, rest)
              | _ => none
            else do
              let x ← escaped e
              let (s, rest) ← readString r
              return (x :: s, rest)
      else if u.toNat < 32 then none
      else do
        let (s, rest) ← readString r
        return (u :: s, rest)

def isDigit (u : UInt16) : Bool := 48 ≤ u.toNat && u.toNat ≤ 57

/-- The units a number consists of. -/
def isNumUnit (u : UInt16) : Bool :=
  isDigit u || u == unit '.' || u == unit 'e' || u == unit 'E' || u == unit '+' || u == unit '-'

def exponentPart : Text → Bool
  | [] => true
  | u :: r =>
      let digits := if r.head? = some (unit '+') ∨ r.head? = some (unit '-') then r.drop 1 else r
      (u == unit 'e' || u == unit 'E') && digits != [] && digits.all isDigit

def fractionPart (s : Text) : Bool :=
  if s.head? = some (unit '.') then
    (s.drop 1).takeWhile isDigit != [] && exponentPart ((s.drop 1).dropWhile isDigit)
  else exponentPart s

def isUnsignedNumeral (s : Text) : Bool :=
  let whole := s.takeWhile isDigit
  whole != [] && (whole.head? != some 48 || whole == [48]) && fractionPart (s.dropWhile isDigit)

/-- `-? (0 | [1-9][0-9]*) (. [0-9]+)? ([eE] [+-]? [0-9]+)?` -/
def isNumeral (s : Text) : Bool :=
  isUnsignedNumeral (if s.head? = some (unit '-') then s.drop 1 else s)

/-- `CreateDataProperty`: an existing property keeps its place. -/
def define {α : Type} (ms : List (Text × α)) (k : Text) (v : α) : List (Text × α) :=
  if k ∈ keysOf ms then ms.map fun m => if m.1 = k then (k, v) else m else ms ++ [(k, v)]

def defineAll {α : Type} (ms : List (Text × α)) : List (Text × α) :=
  ms.foldl (fun out m => define out m.1 m.2) []

def readWord (word : String) (v : Scalar) (s : Text) : Option (Json × Text) :=
  if (ofString word).isPrefixOf s then some (.scalar v, s.drop (ofString word).length) else none

section

variable (toNumber : Text → Num)

def readNumber (s : Text) : Option (Json × Text) :=
  if isNumeral (s.takeWhile isNumUnit) then
    some (.scalar (.num (toNumber (s.takeWhile isNumUnit))), s.dropWhile isNumUnit)
  else none

mutual

def readValue : Nat → Text → Option (Json × Text)
  | 0, _ => none
  | fuel + 1, s =>
      match skip s with
      | [] => none
      | u :: r =>
          if u = unit '"' then do
            let (t, rest) ← readString r
            return (.scalar (.str t), rest)
          else if u = unit '[' then
            match expect ']' r with
            | some rest => some (.arr [], rest)
            | none => do
                let (vs, rest) ← readItems fuel r
                return (.arr vs, rest)
          else if u = unit '{' then
            match expect '}' r with
            | some rest => some (.obj [], rest)
            | none => do
                let (ms, rest) ← readMembers fuel r
                return (.obj (defineAll ms), rest)
          else if u = unit 'n' then readWord "null" .null (u :: r)
          else if u = unit 't' then readWord "true" (.bool true) (u :: r)
          else if u = unit 'f' then readWord "false" (.bool false) (u :: r)
          else readNumber toNumber (u :: r)

/-- The items of an array, up to its closing bracket. -/
def readItems : Nat → Text → Option (List Json × Text)
  | 0, _ => none
  | fuel + 1, s => do
      let (v, r) ← readValue fuel s
      match expect ',' r with
      | some r => do
          let (vs, rest) ← readItems fuel r
          return (v :: vs, rest)
      | none => do
          let rest ← expect ']' r
          return ([v], rest)

/-- The members of an object, up to its closing brace. -/
def readMembers : Nat → Text → Option (List (Text × Json) × Text)
  | 0, _ => none
  | fuel + 1, s => do
      let r ← expect '"' s
      let (k, r) ← readString r
      let r ← expect ':' r
      let (v, r) ← readValue fuel r
      match expect ',' r with
      | some r => do
          let (ms, rest) ← readMembers fuel r
          return ((k, v) :: ms, rest)
      | none => do
          let rest ← expect '}' r
          return ([(k, v)], rest)

end

/-- `JSON.parse(s)`; no value for a syntax error.  Every level of nesting takes two steps and at
least one unit. -/
def parse (s : Text) : Option Json := do
  let (v, rest) ← readValue toNumber (2 * s.length + 1) s
  if skip rest = [] then return v else none

end

private theorem flatMap_escape {e : Char} (he : utf16 e = [unit e]) :
    ['\\', e].flatMap utf16 = [unit '\\', unit e] := by
  have hslash : utf16 '\\' = [unit '\\'] := by decide
  simp [he, hslash]

private theorem readString_escape {e : Char} {x : UInt16} (he : utf16 e = [unit e])
    (hu : unit e ≠ unit 'u') (hx : escaped (unit e) = some x) (s : Text) :
    readString (['\\', e].flatMap utf16 ++ s) =
      (readString s).map fun p => (x :: p.1, p.2) := by
  rw [flatMap_escape he, List.cons_append, List.cons_append, List.nil_append, readString.eq_def]
  simp only
  rw [if_neg (by decide)]
  simp only [if_true, hu, if_false, hx]
  cases readString s <;> rfl

private theorem hexDigit_hexChar {n : Nat} (h : n < 16) :
    utf16 (hexChar n) = [unit (hexChar n)] ∧ hexDigit (unit (hexChar n)) = some n := by
  have key : ∀ n < 16,
      utf16 (hexChar n) = [unit (hexChar n)] ∧ hexDigit (unit (hexChar n)) = some n := by decide
  exact key n h

private theorem readString_unicodeEscape (u : UInt16) (s : Text) :
    readString ((unicodeEscape u).flatMap utf16 ++ s) =
      (readString s).map fun p => (u :: p.1, p.2) := by
  have hu : u.toNat < 65536 := u.toNat_lt
  have hval : 4096 * (u.toNat / 4096) + 256 * (u.toNat / 256 % 16) + 16 * (u.toNat / 16 % 16) +
      u.toNat % 16 = u.toNat := by omega
  obtain ⟨ta, ha⟩ := hexDigit_hexChar (n := u.toNat / 4096) (by omega)
  obtain ⟨tb, hb⟩ := hexDigit_hexChar (n := u.toNat / 256 % 16) (by omega)
  obtain ⟨tc, hc⟩ := hexDigit_hexChar (n := u.toNat / 16 % 16) (by omega)
  obtain ⟨td, hd⟩ := hexDigit_hexChar (n := u.toNat % 16) (by omega)
  have hslash : utf16 '\\' = [unit '\\'] := by decide
  have hletter : utf16 'u' = [unit 'u'] := by decide
  have htext : (unicodeEscape u).flatMap utf16 = [unit '\\', unit 'u',
      unit (hexChar (u.toNat / 4096)), unit (hexChar (u.toNat / 256 % 16)),
      unit (hexChar (u.toNat / 16 % 16)), unit (hexChar (u.toNat % 16))] := by
    simp [unicodeEscape, hslash, hletter, ta, tb, tc, td]
  have hunit : hexUnit (unit (hexChar (u.toNat / 4096))) (unit (hexChar (u.toNat / 256 % 16)))
      (unit (hexChar (u.toNat / 16 % 16))) (unit (hexChar (u.toNat % 16))) = some u := by
    simp only [hexUnit, ha, hb, hc, hd, Option.bind_eq_bind, Option.bind_some, hval,
      UInt16.ofNat_toNat]
    rfl
  rw [htext]
  simp only [List.cons_append, List.nil_append]
  rw [readString, if_neg (by decide), if_pos rfl]
  simp only [if_true, hunit]
  cases readString s <;> rfl

private theorem readString_plain {u : UInt16} (hquote : u ≠ unit '"') (hslash : u ≠ unit '\\')
    (hu : 32 ≤ u.toNat) (s : Text) :
    readString (u :: s) = (readString s).map fun p => (u :: p.1, p.2) := by
  rw [readString.eq_def]
  simp only [hquote, hslash, if_false]
  rw [if_neg (by omega)]
  cases readString s <;> rfl

theorem utf16_unit {u : UInt16} (h : isHigh u = false) (hl : isLow u = false) :
    utf16 (Char.ofNat u.toNat) = [u] := by
  have hu : u.toNat < 65536 := u.toNat_lt
  simp only [isHigh, isLow, Bool.and_eq_false_iff, decide_eq_false_iff_not, not_le, not_lt] at h hl
  have hvalid : u.toNat.isValidChar := by
    unfold Nat.isValidChar
    omega
  rw [utf16, toNat_charOfNat hvalid, if_pos (by omega), UInt16.ofNat_toNat]

theorem utf16_pairCode {u v : UInt16} (hu : isHigh u = true) (hv : isLow v = true) :
    utf16 (Char.ofNat (pairCode u v)) = [u, v] := by
  have hunits := codeUnits_pairCode hu hv
  simp only [isHigh, isLow, Bool.and_eq_true, decide_eq_true_eq] at hu hv
  have hvalid : (pairCode u v).isValidChar := by
    unfold Nat.isValidChar pairCode
    omega
  rw [← hunits, codeUnits, utf16, toNat_charOfNat hvalid]

private theorem readString_quoteUnit (u : UInt16) (s : Text) :
    readString ((quoteUnit u).flatMap utf16 ++ s) =
      (readString s).map fun p => (u :: p.1, p.2) := by
  unfold quoteUnit
  split
  · exact readString_escape (by decide) (by decide) (by simp_all; decide) s
  · split
    · exact readString_escape (by decide) (by decide) (by simp_all; decide) s
    · split
      · exact readString_escape (by decide) (by decide) (by simp_all; decide) s
      · split
        · exact readString_escape (by decide) (by decide) (by simp_all; decide) s
        · split
          · exact readString_escape (by decide) (by decide) (by simp_all; decide) s
          · split
            · exact readString_escape (by decide) (by decide) (by simp_all; decide) s
            · split
              · exact readString_escape (by decide) (by decide) (by simp_all; decide) s
              · split
                · exact readString_unicodeEscape u s
                · -- a plain unit is copied
                  rename_i hquote hslash hplain
                  simp only [Bool.or_eq_true, decide_eq_true_eq, not_or, Bool.not_eq_true]
                    at hplain
                  rw [List.flatMap_singleton, utf16_unit hplain.1.2 hplain.2]
                  exact readString_plain hquote hslash (by omega) s

private theorem readString_pair {u v : UInt16} (hu : isHigh u = true) (hv : isLow v = true)
    (s : Text) : readString (utf16 (Char.ofNat (pairCode u v)) ++ s) =
      (readString s).map fun p => (u :: v :: p.1, p.2) := by
  have htext := utf16_pairCode hu hv
  simp only [isHigh, isLow, Bool.and_eq_true, decide_eq_true_eq] at hu hv
  have hne : ∀ {w x : UInt16}, x.toNat < 0xD800 → 0xD800 ≤ w.toNat → w ≠ x := by
    rintro w x hx hw rfl
    omega
  rw [htext, List.cons_append, List.singleton_append,
    readString_plain (hne (by decide) hu.1) (hne (by decide) hu.1) (by omega),
    readString_plain (hne (by decide) (by omega)) (hne (by decide) (by omega)) (by omega)]
  cases readString s <;> rfl

theorem readString_quoteBody (t s : Text) :
    readString ((quoteBody t).flatMap utf16 ++ unit '"' :: s) = some (t, s) := by
  have hclose : readString (unit '"' :: s) = some ([], s) := by
    rw [readString.eq_def]
    simp
  induction t using quoteBody.induct with
  | case1 => simpa [quoteBody] using hclose
  | case2 u =>
    rw [quoteBody, readString_quoteUnit, hclose]
    rfl
  | case3 u v rest h ih =>
    rw [Bool.and_eq_true] at h
    rw [quoteBody, if_pos (by simp [h]), List.flatMap_cons, List.append_assoc,
      readString_pair h.1 h.2, ih]
    rfl
  | case4 u v rest h ih =>
    rw [quoteBody, if_neg h, List.flatMap_append, List.append_assoc, readString_quoteUnit, ih]
    rfl

private def numeralUnit (d : Digit) : UInt16 := UInt16.ofNat (48 + d.val)

private def numeralUnits (ds : List Digit) : Text := ds.map numeralUnit

private theorem flatMap_digits (ds : List Digit) :
    (ds.map digitChar).flatMap utf16 = numeralUnits ds := by
  have hdigit : ∀ d : Digit, utf16 (digitChar d) = [numeralUnit d] := by decide
  induction ds with
  | nil => rfl
  | cons d ds ih =>
    rw [List.map_cons, List.flatMap_cons, hdigit, ih]
    rfl

private theorem isDigit_of_mem {ds : List Digit} {u : UInt16} (h : u ∈ numeralUnits ds) :
    isDigit u = true := by
  have hdigit : ∀ d : Digit, isDigit (numeralUnit d) = true := by decide
  obtain ⟨d, -, rfl⟩ := List.mem_map.mp h
  exact hdigit d

private theorem numeralUnits_ne_nil {ds : List Digit} (h : ds ≠ []) : numeralUnits ds ≠ [] := by
  simpa [numeralUnits] using h

private theorem takeWhile_digits (ds : List Digit) {s : Text}
    (hs : ∀ u ∈ s.head?, isDigit u = false) :
    (numeralUnits ds ++ s).takeWhile isDigit = numeralUnits ds ∧
      (numeralUnits ds ++ s).dropWhile isDigit = s := by
  rw [List.takeWhile_append_of_pos fun u => isDigit_of_mem,
    List.dropWhile_append_of_pos fun u => isDigit_of_mem]
  cases s with
  | nil => simp
  | cons u s => simp [hs u (by simp)]

private theorem whole_units {whole : List Digit} (hne : whole ≠ [])
    (hhead : whole.head? ≠ some 0 ∨ whole = [0]) :
    (numeralUnits whole != [] && ((numeralUnits whole).head? != some 48 ||
      numeralUnits whole == [48])) = true := by
  have hzero : ∀ d : Digit, numeralUnit d = 48 → d = 0 := by decide
  cases whole with
  | nil => exact absurd rfl hne
  | cons d whole =>
    rcases hhead with hhead | hhead
    · have hd : numeralUnit d ≠ 48 := fun h => hhead (by simp [hzero d h])
      simp [numeralUnits, hd]
    · obtain ⟨rfl, rfl⟩ := List.cons.inj hhead
      decide

private theorem isUnsignedNumeral_whole {whole : List Digit} {s : Text} (hne : whole ≠ [])
    (hhead : whole.head? ≠ some 0 ∨ whole = [0]) (hs : ∀ u ∈ s.head?, isDigit u = false)
    (hfraction : fractionPart s = true) : isUnsignedNumeral (numeralUnits whole ++ s) = true := by
  obtain ⟨htake, hdrop⟩ := takeWhile_digits whole hs
  rw [isUnsignedNumeral]
  simp only [htake, hdrop]
  rw [whole_units hne hhead, hfraction]
  rfl

private theorem fractionPart_dot {frac : List Digit} {expo : Text} (hne : frac ≠ [])
    (hexpo : exponentPart expo = true) (hs : ∀ u ∈ expo.head?, isDigit u = false) :
    fractionPart (unit '.' :: (numeralUnits frac ++ expo)) = true := by
  obtain ⟨htake, hdrop⟩ := takeWhile_digits frac hs
  rw [fractionPart, List.head?_cons, if_pos rfl, List.drop_one, List.tail_cons, htake, hdrop,
    hexpo]
  simpa using numeralUnits_ne_nil hne

private theorem exponentPart_digits {ds : List Digit} (hne : ds ≠ []) (negative : Bool) :
    exponentPart (unit 'e' :: unit (if negative then '-' else '+') :: numeralUnits ds) = true := by
  have hall : (numeralUnits ds).all isDigit = true := List.all_eq_true.mpr fun _ => isDigit_of_mem
  have hdigits := numeralUnits_ne_nil hne
  cases negative <;> simp [exponentPart, hall, hdigits]

private theorem natDigits_ne_nil {n : Nat} (h : n ≠ 0) : natDigits n ≠ [] := by
  simpa [natDigits, Nat.digits_eq_nil_iff_eq_zero] using h

private theorem head_not_digit {c : UInt16} (h : isDigit c = false) (s : Text) :
    ∀ u ∈ (c :: s).head?, isDigit u = false := by
  intro u hu
  rw [List.head?_cons, Option.mem_some_iff] at hu
  rw [← hu, h]

/-- The text of the exponent in `Number::toString`. -/
private theorem flatMap_exponent (e : Int) :
    ('e' :: (if e < 0 then '-' else '+') :: (natDigits e.natAbs).map digitChar).flatMap utf16 =
      unit 'e' :: unit (if decide (e < 0) then '-' else '+') :: numeralUnits (natDigits e.natAbs) := by
  have he : utf16 'e' = [unit 'e'] := by decide
  have hminus : utf16 '-' = [unit '-'] := by decide
  have hplus : utf16 '+' = [unit '+'] := by decide
  rw [List.flatMap_cons, List.flatMap_cons, flatMap_digits, he]
  by_cases hneg : e < 0
  · simp [hneg, hminus]
  · simp [hneg, hplus]

private theorem isUnsignedNumeral_format {ds : List Digit} (h : Trimmed ds) (n : Int) :
    isUnsignedNumeral ((formatDigits ds n).flatMap utf16) = true := by
  have hdot : utf16 '.' = [unit '.'] := by decide
  have hzero : '0' = digitChar 0 := by decide
  have hzeros : ∀ m, List.replicate m '0' = (List.replicate m (0 : Digit)).map digitChar := by
    intro m
    rw [List.map_replicate, ← hzero]
  obtain ⟨hne, hhead, -⟩ := h
  have hlen : 0 < ds.length := List.length_pos_of_ne_nil hne
  unfold formatDigits
  simp only
  split
  · -- an integer
    rw [hzeros, ← List.map_append, flatMap_digits, ← List.append_nil (numeralUnits _)]
    refine isUnsignedNumeral_whole (by simp [hne]) (.inl ?_) (by simp) (by decide)
    rwa [List.head?_append_of_ne_nil _ hne]
  · split
    · -- the point falls inside the digits
      rename_i hlarge hn
      have htake : ds.take n.toNat ≠ [] := by
        simp only [ne_eq, List.take_eq_nil_iff, not_or]
        exact ⟨by omega, hne⟩
      have hdrop : ds.drop n.toNat ≠ [] := by
        simp only [ne_eq, List.drop_eq_nil_iff]
        omega
      have hfirst : (ds.take n.toNat).head? = ds.head? := by
        rw [List.head?_take, if_neg (by omega)]
      rw [List.flatMap_append, List.flatMap_cons, flatMap_digits, flatMap_digits, hdot,
        List.singleton_append]
      refine isUnsignedNumeral_whole htake (.inl (by rwa [hfirst]))
        (head_not_digit (by decide) _) ?_
      rw [← List.append_nil (numeralUnits _)]
      exact fractionPart_dot hdrop (by decide) (by simp)
    · split
      · -- zeros after the point
        have htext : ('0' :: '.' :: (List.replicate (-n).toNat '0' ++ ds.map digitChar)).flatMap
            utf16 = numeralUnits [0] ++ unit '.' ::
              (numeralUnits (List.replicate (-n).toNat 0 ++ ds) ++ []) := by
          rw [hzeros, ← List.map_append, List.flatMap_cons, List.flatMap_cons, flatMap_digits,
            hdot, List.append_nil]
          rfl
        rw [htext]
        exact isUnsignedNumeral_whole (by simp) (.inr rfl) (head_not_digit (by decide) _)
          (fractionPart_dot (by simp [hne]) (by decide) (by simp))
      · -- exponent form
        have hexpo := exponentPart_digits (natDigits_ne_nil (n := (n - 1).natAbs) (by omega))
          (decide (n - 1 < 0))
        have hletter : ∀ s : Text, ∀ u ∈ (unit 'e' :: s).head?, isDigit u = false :=
          head_not_digit (by decide)
        cases ds with
        | nil => exact absurd rfl hne
        | cons d rest =>
          have hfirst : ([d] : List Digit).head? ≠ some 0 := by simpa using hhead
          cases rest with
          | nil =>
            have htext := flatMap_exponent (n - 1)
            have hcons : (digitChar d :: 'e' :: (if n - 1 < 0 then '-' else '+') ::
                (natDigits (n - 1).natAbs).map digitChar).flatMap utf16 = numeralUnits [d] ++
                  ('e' :: (if n - 1 < 0 then '-' else '+') ::
                    (natDigits (n - 1).natAbs).map digitChar).flatMap utf16 := by
              rw [← flatMap_digits [d], ← List.flatMap_append]
              rfl
            simp only
            rw [hcons, htext]
            refine isUnsignedNumeral_whole (by simp) (.inl hfirst) (hletter _) ?_
            rwa [fractionPart, List.head?_cons, if_neg (by decide)]
          | cons d' rest =>
            have htext := flatMap_exponent (n - 1)
            have hcons : (digitChar d :: '.' :: ((d' :: rest).map digitChar ++
                'e' :: (if n - 1 < 0 then '-' else '+') ::
                (natDigits (n - 1).natAbs).map digitChar)).flatMap utf16 = numeralUnits [d] ++
                  unit '.' :: (numeralUnits (d' :: rest) ++
                  ('e' :: (if n - 1 < 0 then '-' else '+') ::
                    (natDigits (n - 1).natAbs).map digitChar).flatMap utf16) := by
              rw [← flatMap_digits [d], ← flatMap_digits (d' :: rest), List.flatMap_cons,
                List.flatMap_cons, List.flatMap_append, hdot]
              simp
            simp only [List.cons_append]
            rw [hcons, htext]
            exact isUnsignedNumeral_whole (by simp) (.inl hfirst) (head_not_digit (by decide) _)
              (fractionPart_dot (by simp) hexpo (hletter _))

private theorem numChar_unit {c : Char} (h : isNumChar c = true) :
    utf16 c = [unit c] ∧ isNumUnit (unit c) = true ∧ Char.ofNat (unit c).toNat = c := by
  simp only [isNumChar, Bool.or_eq_true, Bool.and_eq_true, decide_eq_true_eq, beq_iff_eq] at h
  rcases h with (((⟨hlow, hhigh⟩ | rfl) | rfl) | rfl) | rfl
  · have hlow' : 48 ≤ c.toNat := hlow
    have hhigh' : c.toNat ≤ 57 := hhigh
    have hunit : (unit c).toNat = c.toNat := by
      rw [unit, UInt16.toNat_ofNat']
      omega
    refine ⟨by rw [utf16, if_pos (by omega), unit], ?_, by rw [hunit, Char.ofNat_toNat]⟩
    simp only [isNumUnit, isDigit, hunit, Bool.or_eq_true, Bool.and_eq_true, decide_eq_true_eq]
    exact .inl (.inl (.inl (.inl (.inl ⟨hlow', hhigh'⟩))))
  · decide
  · decide
  · decide
  · decide

/-- `s` does not continue a number. -/
def Stops (s : Text) : Prop := ∀ u ∈ s.head?, isNumUnit u = false

private theorem numText {n : Num} (h : n.isFinite = true) :
    (∃ u s, n.stringify.flatMap utf16 = u :: s) ∧
      ∀ u ∈ n.stringify.flatMap utf16, isNumUnit u = true := by
  obtain ⟨hne, hall⟩ := n.stringify_chars h
  constructor
  · cases hn : n.stringify with
    | nil => exact absurd hn hne
    | cons c cs =>
      have hc := (numChar_unit (hall c (by simp [hn]))).1
      exact ⟨unit c, cs.flatMap utf16, by rw [List.flatMap_cons, hc, List.singleton_append]⟩
  · intro u hu
    obtain ⟨c, hc, hmem⟩ := List.mem_flatMap.mp hu
    obtain ⟨hunit, hnum, -⟩ := numChar_unit (hall c hc)
    rw [hunit, List.mem_singleton] at hmem
    rw [hmem, hnum]

private theorem isNumeral_stringify {n : Num} (h : n.isFinite = true) :
    isNumeral (n.stringify.flatMap utf16) = true := by
  cases n with
  | infinite => simp [Num.isFinite] at h
  | zero neg => decide +revert
  | finite d =>
    have hformat := isUnsignedNumeral_format d.trimmed d.point
    have hminus : utf16 '-' = [unit '-'] := by decide
    rw [isNumeral, Num.stringify]
    cases hneg : d.neg with
    | true => simpa [hminus] using hformat
    | false =>
      have hhead : ((formatDigits d.digits d.point).flatMap utf16).head? ≠ some (unit '-') := by
        intro hhead
        obtain ⟨s, hs⟩ := List.head?_eq_some_iff.mp hhead
        have hdigit : isDigit (unit '-') = false := by decide
        rw [hs, isUnsignedNumeral, List.takeWhile_cons_of_neg (by simp [hdigit])] at hformat
        simp at hformat
      simpa [hhead] using hformat

private theorem print_eq {n : Num} (h : n.isFinite = true) :
    n.print = n.stringify.flatMap utf16 := by
  cases n with
  | infinite => simp [Num.isFinite] at h
  | zero neg =>
    rw [Num.print, ofString, String.toList_ofList]
    simp
  | finite d =>
    rw [Num.print, ofString, String.toList_ofList]
    simp

theorem isNumUnit_of_mem_print {n : Num} (h : n.isFinite = true) {u : UInt16} (hu : u ∈ n.print) :
    isNumUnit u = true := by
  rw [print_eq h] at hu
  exact (numText h).2 u hu

def exactNumber (s : Text) : Num := Num.read (s.map fun u => Char.ofNat u.toNat)

theorem exactNumber_print {n : Num} (h : n.isFinite = true) :
    exactNumber n.print = n.unsigned := by
  have hback : ∀ cs : List Char, (∀ c ∈ cs, isNumChar c = true) →
      (cs.flatMap utf16).map (fun u => Char.ofNat u.toNat) = cs := by
    intro cs hcs
    induction cs with
    | nil => rfl
    | cons c cs ih =>
      obtain ⟨hunit, -, hchar⟩ := numChar_unit (hcs c (by simp))
      rw [List.flatMap_cons, hunit, List.singleton_append, List.map_cons, hchar,
        ih fun d hd => hcs d (by simp [hd])]
  rw [exactNumber, print_eq h, hback _ (n.stringify_chars h).2, Num.read_stringify h]

theorem readNumber_append (toNumber : Text → Num) {s : Text} (hunits : ∀ u ∈ s, isNumUnit u = true)
    (hnumeral : isNumeral s = true) {rest : Text} (hrest : Stops rest) :
    readNumber toNumber (s ++ rest) = some (.scalar (.num (toNumber s)), rest) := by
  have htake : (s ++ rest).takeWhile isNumUnit = s := by
    rw [List.takeWhile_append_of_pos hunits]
    cases rest with
    | nil => simp
    | cons u rest => simp [hrest u (by simp)]
  have hdrop : (s ++ rest).dropWhile isNumUnit = rest := by
    rw [List.dropWhile_append_of_pos hunits]
    cases rest with
    | nil => rfl
    | cons u rest => simp [hrest u (by simp)]
  rw [readNumber, htake, hdrop, if_pos hnumeral]

private theorem readNumber_stringify (toNumber : Text → Num) {n : Num} (h : n.isFinite = true)
    {rest : Text} (hrest : Stops rest) :
    readNumber toNumber (n.stringify.flatMap utf16 ++ rest) =
      some (.scalar (.num (toNumber n.print)), rest) := by
  rw [readNumber_append toNumber (numText h).2 (isNumeral_stringify h) hrest, ← print_eq h]

theorem skip_cons {u : UInt16} (hu : isSpace u = false) (s : Text) :
    skip (u :: s) = u :: s := by
  rw [skip, List.dropWhile_cons_of_neg (by simp [hu])]

theorem expect_cons (c : Char) {u : UInt16} (hu : isSpace u = false) (s : Text) :
    expect c (u :: s) = if u = unit c then some s else none := by
  rw [expect, skip_cons hu]

theorem expect_token {c : Char} (hc : isSpace (unit c) = false) (s : Text) :
    expect c (unit c :: s) = some s := by
  rw [expect_cons c hc, if_pos rfl]

/-- White space and nothing else. -/
def Blank (s : Text) : Prop := ∀ u ∈ s, isSpace u = true

theorem blank_nil : Blank [] := by simp [Blank]

theorem Blank.skip {lead : Text} (h : Blank lead) (s : Text) :
    Js.skip (lead ++ s) = Js.skip s := List.dropWhile_append_of_pos h

theorem Blank.expect {lead : Text} (h : Blank lead) (c : Char) (s : Text) :
    Js.expect c (lead ++ s) = Js.expect c s := by
  rw [Js.expect, h.skip, Js.expect]

theorem define_of_notMem {α : Type} (ms : List (Text × α)) (k : Text) (v : α) (h : k ∉ keysOf ms) :
    define ms k v = ms ++ [(k, v)] := by
  rw [define, if_neg h]

/-- Properties with distinct keys are created in the order they are listed in. -/
theorem defineAll_eq_self {α : Type} {ms : List (Text × α)} (h : (keysOf ms).Nodup) :
    defineAll ms = ms := by
  have key : ∀ ms out : List (Text × α), (keysOf (out ++ ms)).Nodup →
      ms.foldl (fun out m => define out m.1 m.2) out = out ++ ms := by
    intro ms
    induction ms with
    | nil => intro out _; simp
    | cons m ms ih =>
      intro out hnd
      have hnew : m.1 ∉ keysOf out := by
        intro hmem
        simp only [keysOf, List.map_append, List.map_cons] at hnd hmem
        exact (List.nodup_append.mp hnd).2.2 _ hmem _ (by simp) rfl
      rw [List.foldl_cons, define_of_notMem out m.1 m.2 hnew, ih _ (by simpa using hnd)]
      simp
  simpa [defineAll] using key ms [] (by simpa using h)

private theorem stringifyText_arr (items : List Json) : stringifyText (.arr items) =
    unit '[' :: (joinTexts (ofString ",") (items.map stringifyText) ++ [unit ']']) := by
  have hopen : utf16 '[' = [unit '['] := by decide
  have hclose : utf16 ']' = [unit ']'] := by decide
  have hitems : (items.map stringify).map (fun cs => cs.flatMap utf16) =
      items.map stringifyText := by
    rw [List.map_map]
    exact List.map_congr_left fun v _ => (stringifyText_eq v).symm
  rw [stringifyText_eq, stringify_arr, List.flatMap_cons, List.flatMap_append, separated_flatMap,
    hitems, hopen]
  simp [hclose]

/-- The text of a member below `lead`. -/
def memberText (lead : Text) (enc : Json → Text) (m : Text × Json) : Text :=
  lead ++ unit '"' :: ((quoteBody m.1).flatMap utf16 ++ unit '"' :: unit ':' :: enc m.2)

theorem stringifyText_obj (ms : List (Text × Json)) : stringifyText (.obj ms) =
    unit '{' :: (joinTexts (ofString ",") ((ownEntries ms).map (memberText [] stringifyText)) ++
      [unit '}']) := by
  have hopen : utf16 '{' = [unit '{'] := by decide
  have hclose : utf16 '}' = [unit '}'] := by decide
  have hquote : utf16 '"' = [unit '"'] := by decide
  have hcolon : utf16 ':' = [unit ':'] := by decide
  have hmembers : ((ownEntries (mapValues stringify ms)).map member).map
      (fun cs => cs.flatMap utf16) = (ownEntries ms).map (memberText [] stringifyText) := by
    rw [ownEntries_mapValues, mapValues, List.map_map, List.map_map]
    apply List.map_congr_left
    intro m _
    simp [member, quote, memberText, stringifyText_eq, hquote, hcolon]
  have hfold : stringify (.obj ms) =
      '{' :: (separated ((ownEntries (mapValues stringify ms)).map member) ++ ['}']) := by
    simp [stringify]
  rw [stringifyText_eq, hfold, List.flatMap_cons, List.flatMap_append, separated_flatMap,
    hmembers, hopen]
  simp [hclose]

/-- A text with something else than a closing bracket in front. -/
def Opens (s : Text) : Prop :=
  ∃ u r, skip s = u :: r ∧ u ≠ unit ']' ∧ u ≠ unit '}'

theorem Opens.of_cons {s : Text}
    (h : ∃ u r, s = u :: r ∧ isSpace u = false ∧ u ≠ unit ']' ∧ u ≠ unit '}') : Opens s := by
  obtain ⟨u, r, rfl, hu, hne⟩ := h
  exact ⟨u, r, skip_cons hu r, hne⟩

theorem Opens.length_pos {s : Text} (h : Opens s) : 0 < s.length := by
  obtain ⟨u, r, hskip, -⟩ := h
  cases s with
  | nil => simp [Js.skip] at hskip
  | cons u s => simp

theorem Opens.append {s : Text} (h : Opens s) (rest : Text) : Opens (s ++ rest) := by
  obtain ⟨u, r, hskip, hne⟩ := h
  have hsome : s.dropWhile isSpace ≠ [] := by
    rw [skip] at hskip
    simp [hskip]
  refine ⟨u, r ++ rest, ?_, hne⟩
  rw [skip, List.dropWhile_append]
  rw [skip] at hskip
  simp [hskip]

theorem Opens.lead {s lead : Text} (h : Opens s) (hlead : Blank lead) : Opens (lead ++ s) := by
  obtain ⟨u, r, hskip, hne⟩ := h
  exact ⟨u, r, by rw [hlead.skip, hskip], hne⟩

theorem Opens.expect {s : Text} (h : Opens s) {c : Char}
    (hc : unit c = unit ']' ∨ unit c = unit '}') : Js.expect c s = none := by
  obtain ⟨u, r, hskip, hbracket, hbrace⟩ := h
  have hu : u ≠ unit c := by
    rcases hc with hc | hc
    · rwa [hc]
    · rwa [hc]
  rw [Js.expect, hskip]
  simp [hu]

private theorem opens_memberText {lead : Text} (hlead : Blank lead) (enc : Json → Text)
    (m : Text × Json) : Opens (memberText lead enc m) :=
  (Opens.of_cons ⟨unit '"', _, rfl, by decide⟩).lead hlead

theorem isNumUnit_opens {u : UInt16} (h : isNumUnit u = true) : isSpace u = false ∧
    u ∉ [unit ']', unit '}', unit '"', unit '[', unit '{', unit 'n', unit 't', unit 'f'] := by
  have hne : ∀ w : UInt16, isNumUnit w = false → u ≠ w := by
    rintro w hw rfl
    rw [h] at hw
    exact absurd hw (by decide)
  constructor
  · simp only [isSpace, Bool.or_eq_false_iff, beq_eq_false_iff_ne]
    exact ⟨⟨⟨hne 9 (by decide), hne 10 (by decide)⟩, hne 13 (by decide)⟩, hne 32 (by decide)⟩
  · have hall : ([unit ']', unit '}', unit '"', unit '[', unit '{', unit 'n', unit 't',
        unit 'f'].all fun w => !isNumUnit w) = true := by decide +kernel
    intro hmem
    have hnot := List.all_eq_true.mp hall u hmem
    rw [Bool.not_eq_true'] at hnot
    rw [hnot] at h
    exact absurd h (by decide)

private theorem stringifyText_scalar (a : Scalar) :
    stringifyText (.scalar a) = (stringifyScalar a).flatMap utf16 := by
  rw [stringifyText_eq]
  simp [stringify]

theorem quote_text (t : Text) : (quote t).flatMap utf16 =
    unit '"' :: ((quoteBody t).flatMap utf16 ++ [unit '"']) := by
  have hquote : utf16 '"' = [unit '"'] := by decide
  simp [quote, hquote]

theorem opens_stringifyText (v : Json) : Opens (stringifyText v) := by
  apply Opens.of_cons
  cases v with
  | scalar a =>
    rw [stringifyText_scalar]
    cases a with
    | null => exact ⟨unit 'n', ofString "ull", by decide⟩
    | bool b =>
      cases b with
      | true => exact ⟨unit 't', ofString "rue", by decide⟩
      | false => exact ⟨unit 'f', ofString "alse", by decide⟩
    | num n =>
      cases hn : n.isFinite with
      | true =>
        obtain ⟨⟨u, s, hs⟩, hall⟩ := numText hn
        have hu := isNumUnit_opens (hall u (by simp [hs]))
        refine ⟨u, s, hs, hu.1, ?_, ?_⟩
        · exact fun h => hu.2 (by simp [h])
        · exact fun h => hu.2 (by simp [h])
      | false =>
        cases n with
        | infinite neg => exact ⟨unit 'n', ofString "ull", by decide +revert⟩
        | zero neg => simp [Num.isFinite] at hn
        | finite d => simp [Num.isFinite] at hn
    | str t => exact ⟨unit '"', _, quote_text t, by decide⟩
  | arr items => exact ⟨unit '[', _, stringifyText_arr items, by decide⟩
  | obj ms => exact ⟨unit '{', _, stringifyText_obj ms, by decide⟩

private theorem readWord_append (word : String) (a : Scalar) (rest : Text) :
    readWord word a (ofString word ++ rest) = some (.scalar a, rest) := by
  rw [readWord, if_pos (by simp), List.drop_left]

section

variable {toNumber : Text → Num}

/-- What the text of a scalar is read back as. -/
def Scalar.reread (toNumber : Text → Num) : Scalar → Scalar
  | .num n => if n.isFinite then .num (toNumber n.print) else .null
  | a => a

theorem Scalar.reread_eq_printed {a : Scalar}
    (h : ∀ n, a = .num n → n.isFinite = true → toNumber n.print = n.unsigned) :
    a.reread toNumber = a.printed := by
  cases a with
  | num n =>
    cases n with
    | infinite neg => rfl
    | zero neg => exact congrArg Scalar.num (h _ rfl rfl)
    | finite d => exact congrArg Scalar.num (h _ rfl rfl)
  | _ => rfl

private theorem readValue_scalar (a : Scalar) (fuel : Nat) {rest : Text} (hrest : Stops rest) :
    readValue toNumber (fuel + 1) (stringifyText (.scalar a) ++ rest) =
      some (.scalar (a.reread toNumber), rest) := by
  have hnull : readValue toNumber (fuel + 1) (ofString "null" ++ rest) =
      some (.scalar .null, rest) := by
    have hword := readWord_append "null" .null rest
    have htext : ofString "null" = unit 'n' :: ofString "ull" := by decide
    rw [htext, List.cons_append] at hword ⊢
    rw [readValue, skip_cons (by decide)]
    simp only
    rw [if_neg (by decide), if_neg (by decide), if_neg (by decide), if_true, hword]
  rw [stringifyText_scalar]
  cases a with
  | null => exact hnull
  | bool b =>
    cases b with
    | true =>
      have hword := readWord_append "true" (.bool true) rest
      have htext : ofString "true" = unit 't' :: ofString "rue" := by decide
      rw [htext, List.cons_append] at hword
      have htrue : (stringifyScalar (.bool true)).flatMap utf16 = unit 't' :: ofString "rue" := by
        decide
      rw [htrue, List.cons_append, readValue, skip_cons (by decide)]
      simp only
      rw [if_neg (by decide), if_neg (by decide), if_neg (by decide), if_neg (by decide),
        if_true, hword]
      rfl
    | false =>
      have hword := readWord_append "false" (.bool false) rest
      have htext : ofString "false" = unit 'f' :: ofString "alse" := by decide
      rw [htext, List.cons_append] at hword
      have hfalse : (stringifyScalar (.bool false)).flatMap utf16 =
          unit 'f' :: ofString "alse" := by decide
      rw [hfalse, List.cons_append, readValue, skip_cons (by decide)]
      simp only
      rw [if_neg (by decide), if_neg (by decide), if_neg (by decide), if_neg (by decide),
        if_neg (by decide), if_true, hword]
      rfl
  | num n =>
    cases hn : n.isFinite with
    | false =>
      cases n with
      | infinite neg => exact hnull
      | zero neg => simp [Num.isFinite] at hn
      | finite d => simp [Num.isFinite] at hn
    | true =>
      have hnumber := readNumber_stringify toNumber hn hrest
      have hreread : (Scalar.num n).reread toNumber = .num (toNumber n.print) := if_pos hn
      obtain ⟨⟨u, s, hs⟩, hall⟩ := numText hn
      obtain ⟨hspace, hne⟩ := isNumUnit_opens (hall u (by simp [hs]))
      simp only [List.mem_cons, List.not_mem_nil, or_false, not_or] at hne
      obtain ⟨-, -, hquote, hitems, hmembers, hn', ht, hf⟩ := hne
      rw [stringifyScalar, hreread]
      rw [hs, List.cons_append] at hnumber ⊢
      rw [readValue, skip_cons hspace]
      simp only [hquote, hitems, hmembers, hn', ht, hf, if_false, hnumber]
  | str t =>
    have hstring := readString_quoteBody t rest
    rw [stringifyScalar, quote_text, List.cons_append, List.append_assoc, List.singleton_append,
      readValue, skip_cons (by decide)]
    simp only [if_true, hstring]
    rfl

/-- A text that is read as a value, followed by anything that does not continue it. -/
def Reads (toNumber : Text → Num) (t : Text) (v : Json) : Prop :=
  ∀ fuel rest, 2 * t.length ≤ fuel → Stops rest →
    readValue toNumber fuel (t ++ rest) = some (v, rest)

theorem reads_scalar (a : Scalar) :
    Reads toNumber (stringifyText (.scalar a)) (.scalar (a.reread toNumber)) := by
  intro fuel rest hfuel hrest
  have hpos := (opens_stringifyText (.scalar a)).length_pos
  obtain ⟨fuel, rfl⟩ : ∃ k, fuel = k + 1 := ⟨fuel - 1, by omega⟩
  exact readValue_scalar a fuel hrest

theorem Reads.lead {t lead : Text} {v : Json} (h : Reads toNumber t v) (hlead : Blank lead) :
    Reads toNumber (lead ++ t) v := by
  intro fuel rest hfuel hrest
  rw [List.length_append] at hfuel
  have hvalue := h fuel rest (by omega) hrest
  have hskip := hlead.skip (t ++ rest)
  rw [List.append_assoc]
  cases fuel with
  | zero => simp [readValue] at hvalue
  | succ fuel =>
    rw [readValue] at hvalue ⊢
    rw [hskip, hvalue]

theorem ends_token {c : Char} (hc : isNumUnit (unit c) = false) (s : Text) :
    Stops (unit c :: s) := by
  intro u hu
  rw [List.head?_cons, Option.mem_some_iff] at hu
  rw [← hu, hc]

theorem ends_blank {close : Text} (hclose : Blank close) {s : Text} (hs : Stops s) :
    Stops (close ++ s) := by
  cases close with
  | nil => exact hs
  | cons u close =>
    intro w hw
    rw [List.cons_append, List.head?_cons, Option.mem_some_iff] at hw
    subst hw
    have hspace : isSpace u = true := hclose u (by simp)
    simp only [isSpace, Bool.or_eq_true, beq_iff_eq] at hspace
    rcases hspace with ((rfl | rfl) | rfl) | rfl <;> decide

private theorem join_cons_cons {α : Type} (enc : α → Text) (x y : α) (xs : List α) :
    joinTexts (ofString ",") ((x :: y :: xs).map enc) =
      enc x ++ unit ',' :: joinTexts (ofString ",") ((y :: xs).map enc) := by
  have hcomma : ofString "," = [unit ','] := by decide
  rw [List.map_cons, joinTexts_cons, List.map_cons, joinTexts_cons, List.flatMap_cons, hcomma]
  simp

private theorem join_one {α : Type} (enc : α → Text) (x : α) :
    joinTexts (ofString ",") ([x].map enc) = enc x := by
  simp [joinTexts_cons]

private theorem readItems_texts {enc : Json → Text} {norm : Json → Json} {close : Text}
    (hclose : Blank close) {items : List Json} (hne : items ≠ [])
    (hitems : ∀ v ∈ items, Reads toNumber (enc v) (norm v)) (fuel : Nat) (rest : Text)
    (hfuel : 2 * (joinTexts (ofString ",") (items.map enc)).length + 1 ≤ fuel) :
    readItems toNumber fuel
        (joinTexts (ofString ",") (items.map enc) ++ (close ++ unit ']' :: rest)) =
      some (items.map norm, rest) := by
  induction items generalizing fuel with
  | nil => exact absurd rfl hne
  | cons v items ih =>
    obtain ⟨fuel, rfl⟩ : ∃ k, fuel = k + 1 := ⟨fuel - 1, by omega⟩
    have hv := hitems v (by simp)
    cases items with
    | nil =>
      rw [join_one] at hfuel ⊢
      rw [readItems, hv fuel _ (by omega) (ends_blank hclose (ends_token (by decide) _))]
      have hnone : expect ',' (close ++ unit ']' :: rest) = none := by
        rw [hclose.expect, expect_cons ',' (by decide), if_neg (by decide)]
      have hsome : expect ']' (close ++ unit ']' :: rest) = some rest := by
        rw [hclose.expect, expect_token (by decide)]
      simp only [Option.bind_eq_bind, Option.bind_some, hnone, hsome]
      rfl
    | cons w items =>
      rw [join_cons_cons, List.length_append, List.length_cons] at hfuel
      rw [join_cons_cons, List.append_assoc, List.cons_append, readItems,
        hv fuel _ (by omega) (ends_token (by decide) _)]
      have hcomma := expect_token (c := ',') (by decide)
      have htail := ih (by simp) (fun x hx => hitems x (by simp [hx])) fuel (by omega)
      simp only [Option.bind_eq_bind, Option.bind_some, hcomma, htail]
      rfl

private theorem readMembers_texts {lead : Text} {enc : Json → Text} {norm : Json → Json}
    {close : Text} (hlead : Blank lead) (hclose : Blank close) {ms : List (Text × Json)}
    (hne : ms ≠ []) (hms : ∀ m ∈ ms, Reads toNumber (enc m.2) (norm m.2)) (fuel : Nat)
    (rest : Text)
    (hfuel : 2 * (joinTexts (ofString ",") (ms.map (memberText lead enc))).length + 1 ≤ fuel) :
    readMembers toNumber fuel
        (joinTexts (ofString ",") (ms.map (memberText lead enc)) ++ (close ++ unit '}' :: rest)) =
      some (mapValues norm ms, rest) := by
  -- one member, up to its value
  have hmember : ∀ (m : Text × Json) (fuel : Nat) (s : Text), Reads toNumber (enc m.2) (norm m.2) →
      2 * (memberText lead enc m).length ≤ fuel → Stops s →
      (expect '"' (memberText lead enc m ++ s)).bind readString =
          some (m.1, unit ':' :: (enc m.2 ++ s)) ∧
        readValue toNumber fuel (enc m.2 ++ s) = some (norm m.2, s) := by
    intro m fuel s hm hfuel hs
    constructor
    · rw [memberText, List.append_assoc, hlead.expect, List.cons_append, expect_token (by decide),
        Option.bind_some, List.append_assoc, List.cons_append, List.cons_append,
        readString_quoteBody]
    · refine hm fuel s ?_ hs
      simp only [memberText, List.length_cons, List.length_append] at hfuel
      omega
  have hcolon := expect_token (c := ':') (by decide)
  induction ms generalizing fuel with
  | nil => exact absurd rfl hne
  | cons m ms ih =>
    obtain ⟨fuel, rfl⟩ : ∃ k, fuel = k + 1 := ⟨fuel - 1, by omega⟩
    have hm := hms m (by simp)
    cases ms with
    | nil =>
      rw [join_one] at hfuel ⊢
      obtain ⟨hkey, hvalue⟩ := hmember m fuel (close ++ unit '}' :: rest) hm (by omega)
        (ends_blank hclose (ends_token (by decide) _))
      have hnone : expect ',' (close ++ unit '}' :: rest) = none := by
        rw [hclose.expect, expect_cons ',' (by decide), if_neg (by decide)]
      have hsome : expect '}' (close ++ unit '}' :: rest) = some rest := by
        rw [hclose.expect, expect_token (by decide)]
      rw [readMembers]
      simp only [Option.bind_eq_bind, ← Option.bind_assoc]
      rw [hkey]
      simp only [Option.bind_some, hcolon, hvalue, hnone, hsome]
      rfl
    | cons n ms =>
      rw [join_cons_cons, List.length_append, List.length_cons] at hfuel
      obtain ⟨hkey, hvalue⟩ := hmember m fuel
        (unit ',' :: (joinTexts (ofString ",") ((n :: ms).map (memberText lead enc)) ++
          (close ++ unit '}' :: rest))) hm (by omega) (ends_token (by decide) _)
      have hcomma := expect_token (c := ',') (by decide)
      have htail := ih (by simp) (fun x hx => hms x (by simp [hx])) fuel (by omega)
      rw [join_cons_cons, List.append_assoc, List.cons_append, readMembers]
      simp only [Option.bind_eq_bind, ← Option.bind_assoc]
      rw [hkey]
      simp only [Option.bind_some, hcolon, hvalue, hcomma, htail]
      rfl

private theorem expect_joined {α : Type} {enc : α → Text} (x : α) (xs : List α) (rest : Text)
    (hx : Opens (enc x)) {c : Char} (hc : unit c = unit ']' ∨ unit c = unit '}') :
    expect c (joinTexts (ofString ",") ((x :: xs).map enc) ++ rest) = none := by
  rw [List.map_cons, joinTexts_cons, List.append_assoc]
  exact (hx.append _).expect hc

/-- The text of an array, with white space in front of the closing bracket. -/
theorem reads_arr {enc : Json → Text} {norm : Json → Json} {close : Text} (hclose : Blank close)
    {items : List Json}
    (hitems : ∀ v ∈ items, Opens (enc v) ∧ Reads toNumber (enc v) (norm v)) :
    Reads toNumber
      (unit '[' :: (joinTexts (ofString ",") (items.map enc) ++ (close ++ [unit ']'])))
      (.arr (items.map norm)) := by
  intro fuel rest hfuel hrest
  simp only [List.length_cons, List.length_append, List.length_nil] at hfuel
  obtain ⟨fuel, rfl⟩ : ∃ k, fuel = k + 1 := ⟨fuel - 1, by omega⟩
  rw [List.cons_append, List.append_assoc, List.append_assoc, List.singleton_append, readValue,
    skip_cons (by decide)]
  simp only
  rw [if_neg (by decide), if_true]
  cases items with
  | nil =>
    have hempty : expect ']' (joinTexts (ofString ",") (([] : List Json).map enc) ++
        (close ++ unit ']' :: rest)) = some rest := by
      rw [List.map_nil, joinTexts, List.intercalate_nil, List.nil_append, hclose.expect,
        expect_token (by decide)]
    simp only [hempty]
    rfl
  | cons w items =>
    have hsome := expect_joined w items (close ++ unit ']' :: rest) (hitems w (by simp)).1
      (c := ']') (.inl rfl)
    have hread := readItems_texts hclose (List.cons_ne_nil w items)
      (fun x hx => (hitems x hx).2) fuel rest (by omega)
    simp only [hsome, hread]
    rfl

theorem reads_obj {lead : Text} {enc : Json → Text} {norm : Json → Json} {close : Text}
    (hlead : Blank lead) (hclose : Blank close) {ms : List (Text × Json)} (hnd : (keysOf ms).Nodup)
    (hms : ∀ m ∈ ms, Reads toNumber (enc m.2) (norm m.2)) :
    Reads toNumber
      (unit '{' :: (joinTexts (ofString ",") (ms.map (memberText lead enc)) ++
        (close ++ [unit '}'])))
      (.obj (mapValues norm ms)) := by
  have hnodup : (keysOf (mapValues norm ms)).Nodup := by
    rwa [keysOf_mapValues]
  intro fuel rest hfuel hrest
  simp only [List.length_cons, List.length_append, List.length_nil] at hfuel
  obtain ⟨fuel, rfl⟩ : ∃ k, fuel = k + 1 := ⟨fuel - 1, by omega⟩
  rw [List.cons_append, List.append_assoc, List.append_assoc, List.singleton_append, readValue,
    skip_cons (by decide)]
  simp only
  rw [if_neg (by decide), if_neg (by decide), if_true]
  cases ms with
  | nil =>
    have hempty : expect '}' (joinTexts (ofString ",")
        (([] : List (Text × Json)).map (memberText lead enc)) ++ (close ++ unit '}' :: rest)) =
        some rest := by
      rw [List.map_nil, joinTexts, List.intercalate_nil, List.nil_append, hclose.expect,
        expect_token (by decide)]
    simp only [hempty]
    rfl
  | cons m ms =>
    have hsome := expect_joined m ms (close ++ unit '}' :: rest) (opens_memberText hlead enc m)
      (c := '}') (.inr rfl)
    have hread := readMembers_texts hlead hclose (List.cons_ne_nil m ms) hms fuel rest (by omega)
    simp only [hsome, hread, Option.bind_eq_bind, Option.bind_some, defineAll_eq_self hnodup]
    rfl

/-- The members in printed order still have distinct keys and are values of the object. -/
theorem ownEntries_distinct {ms : List (Text × Json)} (h : (Json.obj ms).distinctKeys = true) :
    (keysOf (ownEntries ms)).Nodup ∧ ∀ m ∈ ownEntries ms, m ∈ ms ∧ m.2.distinctKeys = true := by
  rw [Json.distinctKeys_obj] at h
  refine ⟨nodup_keys_perm (perm_ownEntries ms).symm h.1, fun m hm => ?_⟩
  have hm' : m ∈ ms := (perm_ownEntries ms).mem_iff.mp hm
  exact ⟨hm', h.2 m hm'⟩

private theorem readsBack {v : Json} (hv : v.distinctKeys = true) :
    Reads toNumber (stringifyText v) (v.rebuild (Scalar.reread toNumber) .own) := by
  induction v using Json.induct with
  | scalar a =>
    rw [Json.rebuild_scalar]
    exact reads_scalar a
  | arr items ih =>
    rw [Json.distinctKeys_arr] at hv
    have hitems : ∀ v ∈ items, Opens (stringifyText v) ∧
        Reads toNumber (stringifyText v) (v.rebuild (Scalar.reread toNumber) .own) :=
      fun v hmem => ⟨opens_stringifyText v, ih v hmem (hv v hmem)⟩
    rw [stringifyText_arr, Json.rebuild_arr]
    exact reads_arr blank_nil hitems
  | obj ms ih =>
    obtain ⟨hnd, hown⟩ := ownEntries_distinct hv
    have hms : ∀ m ∈ ownEntries ms,
        Reads toNumber (stringifyText m.2) (m.2.rebuild (Scalar.reread toNumber) .own) :=
      fun m hm => ih m (hown m hm).1 (hown m hm).2
    rw [stringifyText_obj, Json.rebuild_obj]
    exact reads_obj blank_nil blank_nil hnd hms

theorem parse_of_reads {t tail : Text} {v : Json} (h : Reads toNumber t v) (htail : Blank tail) :
    parse toNumber (t ++ tail) = some v := by
  have hends : Stops tail := by simpa using ends_blank htail (s := []) (by simp [Stops])
  have hvalue := h (2 * (t ++ tail).length + 1) tail (by simp; omega) hends
  have hskip : skip tail = [] := by simpa [skip] using htail.skip []
  rw [parse, hvalue]
  simp [hskip]

theorem parse_stringifyText_reread {v : Json} (hv : v.distinctKeys = true) :
    parse toNumber (stringifyText v) = some (v.rebuild (Scalar.reread toNumber) .own) := by
  simpa using parse_of_reads (@readsBack toNumber v hv) blank_nil

/-- `JSON.parse(JSON.stringify(v))`: the value with its scalars as they are printed and its members
in the order of enumeration. -/
theorem parse_stringifyText
    (hread : ∀ n : Num, n.isFinite = true → toNumber n.print = n.unsigned) {v : Json}
    (hv : v.distinctKeys = true) :
    parse toNumber (stringifyText v) = some (v.rebuild Scalar.printed .own) := by
  rw [parse_stringifyText_reread hv,
    Json.rebuild_congr hv (fun a => Scalar.reread_eq_printed fun n _ => hread n) fun _ _ => rfl]

end

example : (parse (fun _ => .zero false) (ofString "\x7b\"a\":[0, true],\"a\" :null\x7d ")).map
    stringifyText = some (ofString "\x7b\"a\":null\x7d") := by decide +kernel

end OpenRupiv.Js
