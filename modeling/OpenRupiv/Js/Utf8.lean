import OpenRupiv.Js.Text

/-!
# UTF-8

`Buffer.from(s, "utf8")` and `buffer.toString("utf8")`.  A lone surrogate is written as U+FFFD, and
the decoder puts U+FFFD for every maximal invalid part, so decoding undoes encoding on well-formed
texts.
-/

namespace OpenRupiv.Js

def codeUnits (c : Nat) : Text :=
  if c < 0x10000 then [UInt16.ofNat c]
  else [UInt16.ofNat (0xD800 + (c - 0x10000) / 0x400), UInt16.ofNat (0xDC00 + (c - 0x10000) % 0x400)]

/-- The UTF-8 bytes of a code point. -/
def utf8 (c : Nat) : List UInt8 :=
  if c < 0x80 then [UInt8.ofNat c]
  else if c < 0x800 then [UInt8.ofNat (0xC0 + c / 64), UInt8.ofNat (0x80 + c % 64)]
  else if c < 0x10000 then
    [UInt8.ofNat (0xE0 + c / 4096), UInt8.ofNat (0x80 + c / 64 % 64), UInt8.ofNat (0x80 + c % 64)]
  else
    [UInt8.ofNat (0xF0 + c / 262144), UInt8.ofNat (0x80 + c / 4096 % 64),
      UInt8.ofNat (0x80 + c / 64 % 64), UInt8.ofNat (0x80 + c % 64)]

/-- `Buffer.from(s, "utf8")`. -/
def toUtf8 : Text → List UInt8
  | [] => []
  | [u] => utf8 (if isHigh u || isLow u then 0xFFFD else u.toNat)
  | u :: v :: rest =>
      if isHigh u then
        if isLow v then utf8 (pairCode u v) ++ toUtf8 rest else utf8 0xFFFD ++ toUtf8 (v :: rest)
      else if isLow u then utf8 0xFFFD ++ toUtf8 (v :: rest)
      else utf8 u.toNat ++ toUtf8 (v :: rest)

/-- The decoder inside a sequence: the bits so far, how many bytes it still needs, and the range of
the next one. -/
structure Pending where
  code : Nat
  needed : Nat
  lower : Nat
  upper : Nat

/-- The first byte of a sequence. -/
def startByte (b : UInt8) : Text × Option Pending :=
  let n := b.toNat
  if n < 0x80 then ([UInt16.ofNat n], none)
  else if 0xC2 ≤ n ∧ n ≤ 0xDF then ([], some ⟨n - 0xC0, 1, 0x80, 0xBF⟩)
  else if 0xE0 ≤ n ∧ n ≤ 0xEF then
    ([], some ⟨n - 0xE0, 2, if n = 0xE0 then 0xA0 else 0x80, if n = 0xED then 0x9F else 0xBF⟩)
  else if 0xF0 ≤ n ∧ n ≤ 0xF4 then
    ([], some ⟨n - 0xF0, 3, if n = 0xF0 then 0x90 else 0x80, if n = 0xF4 then 0x8F else 0xBF⟩)
  else ([0xFFFD], none)

def decodeFrom : Option Pending → List UInt8 → Text
  | none, [] => []
  | some _, [] => [0xFFFD]
  | none, b :: rest => (startByte b).1 ++ decodeFrom (startByte b).2 rest
  | some p, b :: rest =>
      if p.lower ≤ b.toNat ∧ b.toNat ≤ p.upper then
        let code := p.code * 64 + (b.toNat - 0x80)
        if p.needed = 1 then codeUnits code ++ decodeFrom none rest
        else decodeFrom (some ⟨code, p.needed - 1, 0x80, 0xBF⟩) rest
      else -- the byte starts a sequence of its own
        0xFFFD :: (startByte b).1 ++ decodeFrom (startByte b).2 rest

/-- `buffer.toString("utf8")`. -/
def fromUtf8 (bytes : List UInt8) : Text := decodeFrom none bytes

private theorem decodeFrom_next {p : Pending} {n : Nat} (hn : n < 256) (hlower : p.lower ≤ n)
    (hupper : n ≤ p.upper) (rest : List UInt8) :
    decodeFrom (some p) (UInt8.ofNat n :: rest) =
      if p.needed = 1 then codeUnits (p.code * 64 + (n - 0x80)) ++ decodeFrom none rest
      else decodeFrom (some ⟨p.code * 64 + (n - 0x80), p.needed - 1, 0x80, 0xBF⟩) rest := by
  have hb : (UInt8.ofNat n).toNat = n := by
    rw [UInt8.toNat_ofNat']
    omega
  rw [decodeFrom, hb, if_pos ⟨hlower, hupper⟩]

private theorem decodeFrom_start {n : Nat} {p : Pending}
    (hp : startByte (UInt8.ofNat n) = ([], some p)) (rest : List UInt8) :
    decodeFrom none (UInt8.ofNat n :: rest) = decodeFrom (some p) rest := by
  rw [decodeFrom, hp, List.nil_append]

def isScalarValue (c : Nat) : Prop := c < 0xD800 ∨ 0xE000 ≤ c ∧ c < 0x110000

theorem decodeFrom_utf8 {c : Nat} (hc : isScalarValue c) (rest : List UInt8) :
    decodeFrom none (utf8 c ++ rest) = codeUnits c ++ decodeFrom none rest := by
  unfold isScalarValue at hc
  have hbyte : ∀ n, n < 256 → (UInt8.ofNat n).toNat = n := by
    intro n hn
    rw [UInt8.toNat_ofNat']
    omega
  unfold utf8
  split
  · -- one byte
    rename_i h1
    rw [List.singleton_append, decodeFrom, startByte, hbyte c (by omega), if_pos h1, codeUnits,
      if_pos (by omega)]
  · split
    · -- two bytes
      rename_i h1 h2
      have hp : startByte (UInt8.ofNat (0xC0 + c / 64)) = ([], some ⟨c / 64, 1, 0x80, 0xBF⟩) := by
        rw [startByte, hbyte _ (by omega), if_neg (by omega), if_pos (by omega)]
        simp
      have hcode : c / 64 * 64 + (0x80 + c % 64 - 0x80) = c := by omega
      rw [List.cons_append, List.singleton_append, decodeFrom_start hp,
        decodeFrom_next (by omega) (by simp) (by simp only; omega), if_pos rfl, hcode]
    · split
      · -- three bytes; the ranges exclude overlong forms and surrogates
        rename_i h1 h2 h3
        have hp : startByte (UInt8.ofNat (0xE0 + c / 4096)) =
            ([], some ⟨c / 4096, 2, if 0xE0 + c / 4096 = 0xE0 then 0xA0 else 0x80,
              if 0xE0 + c / 4096 = 0xED then 0x9F else 0xBF⟩) := by
          rw [startByte, hbyte _ (by omega), if_neg (by omega), if_neg (by omega),
            if_pos (by omega)]
          simp
        have hlower : (if 0xE0 + c / 4096 = 0xE0 then 0xA0 else 0x80) ≤ 0x80 + c / 64 % 64 := by
          split <;> omega
        have hupper : 0x80 + c / 64 % 64 ≤ if 0xE0 + c / 4096 = 0xED then 0x9F else 0xBF := by
          split <;> omega
        have hcode : (c / 4096 * 64 + (0x80 + c / 64 % 64 - 0x80)) * 64 +
            (0x80 + c % 64 - 0x80) = c := by omega
        rw [List.cons_append, List.cons_append, List.singleton_append,
          decodeFrom_start hp, decodeFrom_next (by omega) hlower hupper,
          if_neg (by simp), decodeFrom_next (by omega) (by simp) (by simp only; omega),
          if_pos (by simp), hcode]
      · -- four bytes
        rename_i h1 h2 h3
        have hp : startByte (UInt8.ofNat (0xF0 + c / 262144)) =
            ([], some ⟨c / 262144, 3, if 0xF0 + c / 262144 = 0xF0 then 0x90 else 0x80,
              if 0xF0 + c / 262144 = 0xF4 then 0x8F else 0xBF⟩) := by
          rw [startByte, hbyte _ (by omega), if_neg (by omega), if_neg (by omega),
            if_neg (by omega), if_pos (by omega)]
          simp
        have hlower : (if 0xF0 + c / 262144 = 0xF0 then 0x90 else 0x80) ≤
            0x80 + c / 4096 % 64 := by
          split <;> omega
        have hupper : 0x80 + c / 4096 % 64 ≤
            if 0xF0 + c / 262144 = 0xF4 then 0x8F else 0xBF := by
          split <;> omega
        have hcode : ((c / 262144 * 64 + (0x80 + c / 4096 % 64 - 0x80)) * 64 +
            (0x80 + c / 64 % 64 - 0x80)) * 64 + (0x80 + c % 64 - 0x80) = c := by omega
        rw [List.cons_append, List.cons_append, List.cons_append, List.singleton_append,
          decodeFrom_start hp, decodeFrom_next (by omega) hlower hupper,
          if_neg (by simp), decodeFrom_next (by omega) (by simp) (by simp only; omega),
          if_neg (by simp), decodeFrom_next (by omega) (by simp) (by simp only; omega),
          if_pos (by simp), hcode]

theorem codeUnits_unit (u : UInt16) : codeUnits u.toNat = [u] := by
  have hu := u.toNat_lt
  rw [codeUnits, if_pos (by omega), UInt16.ofNat_toNat]

theorem codeUnits_pairCode {u v : UInt16} (hu : isHigh u = true) (hv : isLow v = true) :
    codeUnits (pairCode u v) = [u, v] := by
  simp only [isHigh, isLow, Bool.and_eq_true, decide_eq_true_eq] at hu hv
  have hhi : 0xD800 + (pairCode u v - 0x10000) / 0x400 = u.toNat := by
    unfold pairCode
    omega
  have hlo : 0xDC00 + (pairCode u v - 0x10000) % 0x400 = v.toNat := by
    unfold pairCode
    omega
  have hbig : ¬pairCode u v < 0x10000 := by
    unfold pairCode
    omega
  rw [codeUnits, if_neg hbig, hhi, hlo, UInt16.ofNat_toNat, UInt16.ofNat_toNat]

private theorem isScalarValue_pairCode {u v : UInt16} (hu : isHigh u = true)
    (hv : isLow v = true) : isScalarValue (pairCode u v) := by
  simp only [isHigh, isLow, Bool.and_eq_true, decide_eq_true_eq] at hu hv
  unfold isScalarValue pairCode
  omega

private theorem isScalarValue_unit {u : UInt16} (hu : isHigh u = false) (hl : isLow u = false) :
    isScalarValue u.toNat := by
  have hlt := u.toNat_lt
  simp only [isHigh, isLow, Bool.and_eq_false_iff, decide_eq_false_iff_not] at hu hl
  unfold isScalarValue
  omega

theorem fromUtf8_toUtf8 (s : Text) : fromUtf8 (toUtf8 s) = toWellFormed s := by
  have hlone : ∀ rest, decodeFrom none (utf8 0xFFFD ++ rest) = 0xFFFD :: decodeFrom none rest :=
    fun rest => decodeFrom_utf8 (c := 0xFFFD) (by unfold isScalarValue; omega) rest
  unfold fromUtf8
  induction s using toUtf8.induct with
  | case1 => rfl
  | case2 u =>
    rw [toUtf8, toWellFormed, ← List.append_nil (utf8 _)]
    split
    · exact hlone []
    · rename_i hs
      simp only [Bool.or_eq_true, not_or, Bool.not_eq_true] at hs
      rw [decodeFrom_utf8 (isScalarValue_unit hs.1 hs.2), codeUnits_unit]
      rfl
  | case3 u v rest hu hv ih =>
    rw [toUtf8, if_pos hu, if_pos hv, toWellFormed, if_pos hu, if_pos hv,
      decodeFrom_utf8 (isScalarValue_pairCode hu hv), codeUnits_pairCode hu hv, ih]
    rfl
  | case4 u v rest hu hv ih =>
    rw [toUtf8, if_pos hu, if_neg hv, toWellFormed, if_pos hu, if_neg hv, hlone, ih]
  | case5 u v rest hu hl ih =>
    rw [toUtf8, if_neg hu, if_pos hl, toWellFormed, if_neg hu, if_pos hl, hlone, ih]
  | case6 u v rest hu hl ih =>
    rw [toUtf8, if_neg hu, if_neg hl, toWellFormed, if_neg hu, if_neg hl,
      decodeFrom_utf8 (isScalarValue_unit (by simpa using hu) (by simpa using hl)),
      codeUnits_unit, ih]
    rfl

theorem fromUtf8_toUtf8_of_wellFormed {s : Text} (h : wellFormed s = true) :
    fromUtf8 (toUtf8 s) = s := by
  rw [fromUtf8_toUtf8, (toWellFormed_eq_self_iff s).mpr h]

/-- A text below the surrogates. -/
def Plain (s : Text) : Prop := ∀ u ∈ s, u.toNat < 0xD800

theorem wellFormed_of_plain {s : Text} (h : Plain s) : wellFormed s = true := by
  have hunit : ∀ u : UInt16, u.toNat < 0xD800 → isHigh u = false ∧ isLow u = false := by
    intro u hu
    simp only [isHigh, isLow, Bool.and_eq_false_iff, decide_eq_false_iff_not]
    omega
  induction s using wellFormed.induct with
  | case1 => rfl
  | case2 u =>
    obtain ⟨hhigh, hlow⟩ := hunit u (h u (by simp))
    simp [wellFormed, hhigh, hlow]
  | case3 u v rest hhigh ih =>
    exact absurd hhigh (by simp [(hunit u (h u (by simp))).1])
  | case4 u v rest hhigh ih =>
    obtain ⟨-, hlow⟩ := hunit u (h u (by simp))
    have hrest := ih fun w hw => h w (by simp [hw])
    simp [wellFormed, hhigh, hlow, hrest]

private theorem toWellFormed_eq_self {s : Text} (h : 0xFFFD ∉ toWellFormed s) :
    toWellFormed s = s := by
  induction s using toWellFormed.induct with
  | case1 => rfl
  | case2 u hs => simp [toWellFormed, hs] at h
  | case3 u hs => simp [toWellFormed, hs]
  | case4 u v rest hu hv ih =>
    simp only [toWellFormed, hu, hv, if_true, List.mem_cons, not_or] at h ⊢
    rw [ih h.2.2]
  | case5 u v rest hu hv ih => simp [toWellFormed, hu, hv] at h
  | case6 u v rest hu hl ih => simp [toWellFormed, hu, hl] at h
  | case7 u v rest hu hl ih =>
    simp only [toWellFormed, hu, hl] at h ⊢
    simp only [Bool.false_eq_true, if_false, List.mem_cons, not_or] at h ⊢
    rw [ih h.2]

theorem eq_of_toUtf8_eq {s t : Text} (ht : Plain t) (h : toUtf8 s = toUtf8 t) : s = t := by
  have hdecode : toWellFormed s = t := by
    rw [← fromUtf8_toUtf8, h, fromUtf8_toUtf8_of_wellFormed (wellFormed_of_plain ht)]
  have hlone : 0xFFFD ∉ toWellFormed s := by
    rw [hdecode]
    exact fun hmem => absurd (ht _ hmem) (by decide)
  rw [← toWellFormed_eq_self hlone, hdecode]

example : fromUtf8 [0xE2, 0x82, 0x41] = [0xFFFD, 0x41] := by decide

end OpenRupiv.Js
