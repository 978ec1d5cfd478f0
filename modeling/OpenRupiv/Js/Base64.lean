import OpenRupiv.Js.Text
import Mathlib.Data.List.TakeWhile

/-!
# base64url

`Buffer.toString("base64url")` writes no padding.  `Buffer.from(s, "base64url")` looks at the low
byte of every code unit, takes both alphabets, skips every other character, and stops at the first
`=`.
-/

namespace OpenRupiv.Js

/-- The character of a sextet in the URL-safe alphabet. -/
def sextetUnit (n : Nat) : UInt16 :=
  if n < 26 then UInt16.ofNat (65 + n)
  else if n < 52 then UInt16.ofNat (97 + (n - 26))
  else if n < 62 then UInt16.ofNat (48 + (n - 52))
  else if n = 62 then 45
  else 95

/-- The sextet of a character of either alphabet. -/
def unitSextet (u : UInt16) : Option Nat :=
  if 65 ≤ u.toNat ∧ u.toNat ≤ 90 then some (u.toNat - 65)
  else if 97 ≤ u.toNat ∧ u.toNat ≤ 122 then some (u.toNat - 97 + 26)
  else if 48 ≤ u.toNat ∧ u.toNat ≤ 57 then some (u.toNat - 48 + 52)
  else if u = 45 ∨ u = 43 then some 62
  else if u = 95 ∨ u = 47 then some 63
  else none

/-- The sextets of a byte string, the last one filled up with zero bits. -/
def toSextets : List UInt8 → List Nat
  | a :: b :: c :: rest =>
      [a.toNat / 4, a.toNat % 4 * 16 + b.toNat / 16, b.toNat % 16 * 4 + c.toNat / 64,
        c.toNat % 64] ++ toSextets rest
  | [a, b] => [a.toNat / 4, a.toNat % 4 * 16 + b.toNat / 16, b.toNat % 16 * 4]
  | [a] => [a.toNat / 4, a.toNat % 4 * 16]
  | [] => []

/-- The whole bytes of a sequence of sextets. -/
def ofSextets : List Nat → List UInt8
  | a :: b :: c :: d :: rest =>
      [UInt8.ofNat (a * 4 + b / 16), UInt8.ofNat (b % 16 * 16 + c / 4),
        UInt8.ofNat (c % 4 * 64 + d)] ++ ofSextets rest
  | [a, b, c] => [UInt8.ofNat (a * 4 + b / 16), UInt8.ofNat (b % 16 * 16 + c / 4)]
  | [a, b] => [UInt8.ofNat (a * 4 + b / 16)]
  | _ => []

/-- `buffer.toString("base64url")`. -/
def toBase64url (bytes : List UInt8) : Text := (toSextets bytes).map sextetUnit

def lowByte (u : UInt16) : UInt16 := UInt16.ofNat (u.toNat % 256)

/-- `Buffer.from(s, "base64url")`. -/
def fromBase64url (s : Text) : List UInt8 :=
  ofSextets (((s.map lowByte).takeWhile fun u => u != 61).filterMap unitSextet)

theorem toSextets_lt (bytes : List UInt8) : ∀ n ∈ toSextets bytes, n < 64 := by
  induction bytes using toSextets.induct with
  | case1 a b c rest ih =>
    have ha := a.toNat_lt
    have hb := b.toNat_lt
    have hc := c.toNat_lt
    intro n hn
    simp only [toSextets, List.cons_append, List.nil_append, List.mem_cons] at hn
    rcases hn with rfl | rfl | rfl | rfl | hn
    · omega
    · omega
    · omega
    · omega
    · exact ih n hn
  | case2 a b =>
    have ha := a.toNat_lt
    have hb := b.toNat_lt
    intro n hn
    simp only [toSextets, List.mem_cons, List.not_mem_nil, or_false] at hn
    omega
  | case3 a =>
    have ha := a.toNat_lt
    intro n hn
    simp only [toSextets, List.mem_cons, List.not_mem_nil, or_false] at hn
    omega
  | case4 => simp [toSextets]

private theorem byte_eq {n : Nat} {b : UInt8} (h : n = b.toNat) : UInt8.ofNat n = b := by
  rw [h, UInt8.ofNat_toNat]

theorem ofSextets_toSextets (bytes : List UInt8) : ofSextets (toSextets bytes) = bytes := by
  induction bytes using toSextets.induct with
  | case1 a b c rest ih =>
    have hb := b.toNat_lt
    have hc := c.toNat_lt
    simp only [toSextets, List.cons_append, List.nil_append, ofSextets, ih, List.cons.injEq,
      and_true]
    refine ⟨byte_eq ?_, byte_eq ?_, byte_eq ?_⟩ <;> omega
  | case2 a b =>
    have hb := b.toNat_lt
    simp only [toSextets, ofSextets, List.cons.injEq, and_true]
    refine ⟨byte_eq ?_, byte_eq ?_⟩ <;> omega
  | case3 a =>
    simp only [toSextets, ofSextets, List.cons.injEq, and_true]
    apply byte_eq
    omega
  | case4 => rfl

/-- A sextet is read back, and its character is an ASCII one, neither padding nor a full stop. -/
theorem sextetUnit_spec {n : Nat} (h : n < 64) : unitSextet (sextetUnit n) = some n ∧
    sextetUnit n ≠ 61 ∧ sextetUnit n ≠ 46 ∧ (sextetUnit n).toNat < 128 := by
  have key : ∀ n < 64, unitSextet (sextetUnit n) = some n ∧
      sextetUnit n ≠ 61 ∧ sextetUnit n ≠ 46 ∧ (sextetUnit n).toNat < 128 := by decide
  exact key n h

theorem toBase64url_ascii {bytes : List UInt8} {u : UInt16} (h : u ∈ toBase64url bytes) :
    u.toNat < 128 := by
  obtain ⟨n, hn, rfl⟩ := List.mem_map.mp h
  exact (sextetUnit_spec (toSextets_lt bytes n hn)).2.2.2

theorem lowByte_eq_self {u : UInt16} (h : u.toNat < 256) : lowByte u = u := by
  rw [lowByte, Nat.mod_eq_of_lt h, UInt16.ofNat_toNat]

theorem fromBase64url_toBase64url (bytes : List UInt8) :
    fromBase64url (toBase64url bytes) = bytes := by
  have hlt := toSextets_lt bytes
  have hlow : (toBase64url bytes).map lowByte = toBase64url bytes := by
    rw [List.map_congr_left fun u hu => lowByte_eq_self (by have := toBase64url_ascii hu; omega),
      List.map_id']
  have hpad : (toBase64url bytes).takeWhile (fun u => u != 61) = toBase64url bytes := by
    apply List.takeWhile_eq_self_iff.mpr
    intro u hu
    obtain ⟨n, hn, rfl⟩ := List.mem_map.mp hu
    simpa using (sextetUnit_spec (hlt n hn)).2.1
  have hback : (toBase64url bytes).filterMap unitSextet = toSextets bytes := by
    rw [toBase64url, List.filterMap_map]
    generalize toSextets bytes = ns at hlt
    induction ns with
    | nil => rfl
    | cons n ns ih =>
      have hhead := (sextetUnit_spec (hlt n (by simp))).1
      have htail := ih fun m hm => hlt m (by simp [hm])
      rw [List.filterMap_cons_some (by simpa using hhead), htail]
  rw [fromBase64url, hlow, hpad, hback, ofSextets_toSextets]

theorem dot_notMem_toBase64url (bytes : List UInt8) : 46 ∉ toBase64url bytes := by
  intro h
  obtain ⟨n, hn, hdot⟩ := List.mem_map.mp h
  exact (sextetUnit_spec (toSextets_lt bytes n hn)).2.2.1 hdot

theorem toBase64url_ne_nil {bytes : List UInt8} (h : bytes ≠ []) : toBase64url bytes ≠ [] := by
  rintro hnil
  have hback := fromBase64url_toBase64url bytes
  rw [hnil] at hback
  exact h hback.symm

example : toBase64url [0xFB, 0xFF, 0x61] = ofString "-_9h" := by decide

/-- U+0141 is read as `A`, and U+013D as padding. -/
example : fromBase64url [0x141, 66, 0x13D, 67] = [0] := by decide

end OpenRupiv.Js
