import Mathlib.Data.List.Basic
import Mathlib.Order.Lex
import Mathlib.Data.List.Lex
import Mathlib.Tactic.Common

/-!
# JavaScript strings

A JavaScript string is a sequence of UTF-16 code units, surrogates paired or not.  Lean strings
embed by their UTF-16 encoding, which is injective.  `leUnits` is the order `Array.prototype.sort`
uses when it is given no comparator.
-/

namespace OpenRupiv.Js

/-- A JavaScript string, as the list of its UTF-16 code units. -/
abbrev Text := List UInt16

instance : LawfulBEq Text := inferInstance

/-- A leading (high) surrogate. -/
def isHigh (u : UInt16) : Bool := 0xD800 ≤ u.toNat && u.toNat < 0xDC00

/-- A trailing (low) surrogate. -/
def isLow (u : UInt16) : Bool := 0xDC00 ≤ u.toNat && u.toNat < 0xE000

/-- The code units of one Unicode scalar value. -/
def utf16 (c : Char) : Text :=
  if c.toNat < 0x10000 then [UInt16.ofNat c.toNat]
  else [UInt16.ofNat (0xD800 + (c.toNat - 0x10000) / 0x400),
    UInt16.ofNat (0xDC00 + (c.toNat - 0x10000) % 0x400)]

def ofString (s : String) : Text := s.toList.flatMap utf16

instance : Coe String Text := ⟨ofString⟩

/-- The scalar value of a surrogate pair. -/
def pairCode (hi lo : UInt16) : Nat :=
  0x10000 + (hi.toNat - 0xD800) * 0x400 + (lo.toNat - 0xDC00)

/-- No surrogate stands alone: the text is the encoding of a sequence of scalar values. -/
def wellFormed : Text → Bool
  | [] => true
  | [u] => !isHigh u && !isLow u
  | u :: v :: rest =>
      if isHigh u then isLow v && wellFormed rest
      else !isLow u && wellFormed (v :: rest)

/-- `String.prototype.toWellFormed`: what a UTF-8 encoder makes of a text, each lone surrogate
replaced by U+FFFD. -/
def toWellFormed : Text → Text
  | [] => []
  | [u] => if isHigh u || isLow u then [0xFFFD] else [u]
  | u :: v :: rest =>
      if isHigh u then
        if isLow v then u :: v :: toWellFormed rest else 0xFFFD :: toWellFormed (v :: rest)
      else if isLow u then 0xFFFD :: toWellFormed (v :: rest)
      else u :: toWellFormed (v :: rest)

private theorem replacement_ne {u : UInt16} (h : (isHigh u || isLow u) = true) :
    (0xFFFD : UInt16) ≠ u := by
  rintro rfl
  exact absurd h (by decide)

theorem toWellFormed_eq_self_iff (s : Text) : toWellFormed s = s ↔ wellFormed s = true := by
  induction s using toWellFormed.induct with
  | case1 => simp [toWellFormed, wellFormed]
  | case2 u hs =>
    have hne := replacement_ne hs
    simp only [toWellFormed, hs, if_true, wellFormed, List.cons.injEq, and_true, hne, false_iff]
    simpa [imp_iff_not_or] using hs
  | case3 u hs =>
    simp only [toWellFormed, hs, wellFormed]
    simpa using hs
  | case4 u v rest hu hv ih => simp [toWellFormed, wellFormed, hu, hv, ih]
  | case5 u v rest hu hv ih =>
    have hne := replacement_ne (u := u) (by simp [hu])
    simp [toWellFormed, wellFormed, hu, hv, hne]
  | case6 u v rest hu hl ih =>
    have hne := replacement_ne (u := u) (by simp [hl])
    simp [toWellFormed, wellFormed, hu, hl, hne]
  | case7 u v rest hu hl ih => simp [toWellFormed, wellFormed, hu, hl, ih]

private theorem wellFormed_cons {u : UInt16} (hhigh : isHigh u = false) (hlow : isLow u = false)
    (s : Text) : wellFormed (u :: s) = wellFormed s := by
  cases s with
  | nil => simp [wellFormed, hhigh, hlow]
  | cons v rest => simp [wellFormed, hhigh, hlow]

private theorem wellFormed_utf16 (c : Char) (s : Text) :
    wellFormed (utf16 c ++ s) = wellFormed s := by
  have hc := c.valid
  simp only [UInt32.isValidChar, Nat.isValidChar] at hc
  change c.toNat < _ ∨ _ < c.toNat ∧ c.toNat < _ at hc
  unfold utf16
  split
  · -- a scalar value below 2 ^ 16 is no surrogate
    apply wellFormed_cons
    · simp only [isHigh, UInt16.toNat_ofNat', Bool.and_eq_false_iff, decide_eq_false_iff_not]
      omega
    · simp only [isLow, UInt16.toNat_ofNat', Bool.and_eq_false_iff, decide_eq_false_iff_not]
      omega
  · have hhigh : isHigh (UInt16.ofNat (0xD800 + (c.toNat - 0x10000) / 0x400)) = true := by
      simp only [isHigh, UInt16.toNat_ofNat', Bool.and_eq_true, decide_eq_true_eq]
      omega
    have hlow : isLow (UInt16.ofNat (0xDC00 + (c.toNat - 0x10000) % 0x400)) = true := by
      simp only [isLow, UInt16.toNat_ofNat', Bool.and_eq_true, decide_eq_true_eq]
      omega
    rw [List.cons_append, List.cons_append, List.nil_append, wellFormed, if_pos hhigh, hlow,
      Bool.true_and]

@[simp] theorem wellFormed_ofString (s : String) : wellFormed (ofString s) = true := by
  unfold ofString
  induction s.toList with
  | nil => rfl
  | cons c cs ih => rw [List.flatMap_cons, wellFormed_utf16, ih]

@[simp] theorem toWellFormed_ofString (s : String) : toWellFormed (ofString s) = ofString s :=
  (toWellFormed_eq_self_iff _).mpr (wellFormed_ofString s)

private theorem utf16_cons_inj {c d : Char} {s t : Text} (h : utf16 c ++ s = utf16 d ++ t) :
    c = d ∧ s = t := by
  have hc := c.valid
  have hd := d.valid
  simp only [UInt32.isValidChar, Nat.isValidChar] at hc hd
  change c.toNat < _ ∨ _ < c.toNat ∧ c.toNat < _ at hc
  change d.toNat < _ ∨ _ < d.toNat ∧ d.toNat < _ at hd
  have key : ∀ a b : Nat, a < 0x10000 → b < 0x10000 → UInt16.ofNat a = UInt16.ofNat b → a = b := by
    intro a b ha hb hab
    have := congrArg UInt16.toNat hab
    simp only [UInt16.toNat_ofNat'] at this
    omega
  have fin : c.toNat = d.toNat → s = t → c = d ∧ s = t :=
    fun hcd hst => ⟨Char.toNat_inj.mp hcd, hst⟩
  unfold utf16 at h
  split at h <;> split at h <;> rename_i h1 h2 <;>
    simp only [List.cons_append, List.nil_append, List.cons.injEq] at h
  · exact fin (key _ _ h1 h2 h.1) h.2
  · have := key _ _ h1 (by omega) h.1
    omega
  · have := key _ _ (by omega) h2 h.1
    omega
  · have e1 := key _ _ (by omega) (by omega) h.1
    have e2 := key _ _ (by omega) (by omega) h.2.1
    exact fin (by omega) h.2.2

private theorem flatMap_utf16_inj (cs ds : List Char)
    (h : cs.flatMap utf16 = ds.flatMap utf16) : cs = ds := by
  have hne : ∀ c : Char, utf16 c ≠ [] := by
    intro c
    unfold utf16
    split <;> simp
  induction cs generalizing ds with
  | nil =>
    cases ds with
    | nil => rfl
    | cons d ds => simp [hne] at h
  | cons c cs ih =>
    cases ds with
    | nil => simp [hne] at h
    | cons d ds =>
      simp only [List.flatMap_cons] at h
      obtain ⟨rfl, hst⟩ := utf16_cons_inj h
      rw [ih ds hst]

theorem ofString_injective : Function.Injective ofString := by
  intro s t h
  exact String.toList_inj.mp (flatMap_utf16_inj _ _ h)

@[simp] theorem ofString_inj {s t : String} : ofString s = ofString t ↔ s = t :=
  ofString_injective.eq_iff

@[simp] theorem ofString_append (s t : String) :
    ofString (s ++ t) = ofString s ++ ofString t := by
  simp [ofString, String.toList_append]

/-- Code-unit order, by which `Array.prototype.sort` sorts strings. -/
def leUnits : Text → Text → Bool
  | [], _ => true
  | _ :: _, [] => false
  | a :: as, b :: bs => a < b || (a == b && leUnits as bs)

theorem leUnits_total (s t : Text) : (leUnits s t || leUnits t s) = true := by
  induction s generalizing t with
  | nil => simp [leUnits]
  | cons a as ih =>
    cases t with
    | nil => simp [leUnits]
    | cons b bs =>
      have hab : a < b ∨ a = b ∨ b < a := by
        rcases Nat.lt_trichotomy a.toNat b.toNat with h | h | h
        · exact .inl h
        · exact .inr (.inl (UInt16.toNat_inj.mp h))
        · exact .inr (.inr h)
      rcases hab with h | rfl | h
      · simp [leUnits, h]
      · have := ih bs
        simp only [Bool.or_eq_true] at this
        rcases this with h | h <;> simp [leUnits, h]
      · simp [leUnits, h]

theorem leUnits_trans {s t u : Text} (h : leUnits s t = true) (h' : leUnits t u = true) :
    leUnits s u = true := by
  induction s generalizing t u with
  | nil => simp [leUnits]
  | cons a as ih =>
    cases t with
    | nil => simp [leUnits] at h
    | cons b bs =>
      cases u with
      | nil => simp [leUnits] at h'
      | cons c cs =>
        simp only [leUnits, Bool.or_eq_true, decide_eq_true_eq, Bool.and_eq_true,
          beq_iff_eq] at h h' ⊢
        rcases h with h | ⟨rfl, h⟩
        · rcases h' with h' | ⟨rfl, h'⟩
          · exact .inl (UInt16.lt_trans h h')
          · exact .inl h
        · rcases h' with h' | ⟨rfl, h'⟩
          · exact .inl h'
          · exact .inr ⟨rfl, ih h h'⟩

theorem leUnits_antisymm {s t : Text} (h : leUnits s t = true) (h' : leUnits t s = true) :
    s = t := by
  induction s generalizing t with
  | nil =>
    cases t with
    | nil => rfl
    | cons b bs => simp [leUnits] at h'
  | cons a as ih =>
    cases t with
    | nil => simp [leUnits] at h
    | cons b bs =>
      simp only [leUnits, Bool.or_eq_true, decide_eq_true_eq, Bool.and_eq_true,
        beq_iff_eq] at h h'
      rcases h with h | ⟨rfl, h⟩
      · rcases h' with h' | ⟨rfl, h'⟩
        · exact absurd (UInt16.lt_trans h h') (UInt16.lt_irrefl _)
        · exact absurd h (UInt16.lt_irrefl _)
      · rcases h' with h' | ⟨-, h'⟩
        · exact absurd h' (UInt16.lt_irrefl _)
        · rw [ih h h']

theorem char_mem_of_mem_ofString {s : String} {u : UInt16} (hu : u.toNat < 0xD800)
    (h : u ∈ ofString s) : Char.ofNat u.toNat ∈ s.toList := by
  obtain ⟨c, hc, hmem⟩ := List.mem_flatMap.mp h
  have hbound : c.toNat < 0x110000 := by
    have hvalid := c.valid
    simp only [UInt32.isValidChar, Nat.isValidChar] at hvalid
    have htoNat : c.toNat = c.val.toNat := rfl
    omega
  unfold utf16 at hmem
  split at hmem
  · rename_i hsmall
    obtain rfl := List.mem_singleton.mp hmem
    have hsame : (UInt16.ofNat c.toNat).toNat = c.toNat := by
      rw [UInt16.toNat_ofNat']
      exact Nat.mod_eq_of_lt hsmall
    rw [hsame, Char.ofNat_toNat]
    exact hc
  · -- the units of a pair are surrogates
    have hpair : ∀ n : Nat, 0xD800 ≤ n → n < 0x10000 → (UInt16.ofNat n).toNat = n := by
      intro n _ hn
      rw [UInt16.toNat_ofNat']
      exact Nat.mod_eq_of_lt hn
    simp only [List.mem_cons, List.not_mem_nil, or_false] at hmem
    rcases hmem with rfl | rfl
    · rw [hpair _ (by omega) (by omega)] at hu
      omega
    · rw [hpair _ (by omega) (by omega)] at hu
      omega

theorem mem_splitOn {α : Type} [DecidableEq α] {mark c : α} {cs : List α} (h : c ∈ cs) :
    c = mark ∨ ∃ group ∈ cs.splitOn mark, c ∈ group := by
  have hjoin : ∀ groups : List (List α), c ∈ [mark].intercalate groups →
      c = mark ∨ ∃ group ∈ groups, c ∈ group := by
    intro groups
    induction groups with
    | nil =>
      intro hmem
      exact absurd hmem List.not_mem_nil
    | cons group groups ih =>
      cases groups with
      | nil =>
        intro hmem
        rw [List.intercalate_singleton] at hmem
        exact .inr ⟨group, List.mem_cons_self, hmem⟩
      | cons next groups =>
        intro hmem
        rw [List.intercalate_cons_cons, List.mem_append, List.mem_append,
          List.mem_singleton] at hmem
        rcases hmem with (hmem | hmem) | hmem
        · exact .inr ⟨group, List.mem_cons_self, hmem⟩
        · exact .inl hmem
        · exact (ih hmem).imp_right fun ⟨found, hfound, hin⟩ =>
            ⟨found, List.mem_cons_of_mem _ hfound, hin⟩
  apply hjoin
  rw [List.intercalate_splitOn]
  exact h

end OpenRupiv.Js
