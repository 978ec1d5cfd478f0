import Mathlib.Data.List.DropRight
import Mathlib.Data.Nat.Digits.Lemmas
import Mathlib.Tactic.Common
import Mathlib.Tactic.IntervalCases
import Mathlib.Tactic.FinCases

/-!
# The numbers of `JSON.parse`

A finite nonzero double is represented by the digits and the position of the decimal point that
`Number::toString` prints for it: the shortest decimal that reads back as this double, so two
doubles are equal exactly when their decimals are.  `JSON.parse` also yields both zeros, and an
infinity for a literal that is too large, such as `1e999`.  The printed form determines a finite
number up to the sign of zero.
-/

namespace OpenRupiv.Js

abbrev Digit := Fin 10

instance neZeroTen : NeZero 10 := ⟨by decide⟩

/-- A nonempty digit string without leading or trailing zeros. -/
def Trimmed (ds : List Digit) : Prop :=
  ds ≠ [] ∧ ds.head? ≠ some 0 ∧ ds.getLast? ≠ some 0

instance (ds : List Digit) : Decidable (Trimmed ds) := by
  unfold Trimmed
  infer_instance

/-- `0.d₁d₂…dₖ × 10 ^ point`, up to the sign: the `s`, `k` and `n` of `Number::toString`. -/
structure Decimal where
  neg : Bool
  digits : List Digit
  point : Int
  trimmed : Trimmed digits
  deriving DecidableEq

inductive Num where
  | zero (neg : Bool)
  | finite (d : Decimal)
  | infinite (neg : Bool)
  deriving DecidableEq

def digitChar (d : Digit) : Char := Char.ofNat (48 + d.val)

def charDigit (c : Char) : Digit := Fin.ofNat 10 (c.toNat - 48)

/-- The decimal digits of `n`, most significant first; none for zero. -/
def natDigits (n : Nat) : List Digit := ((Nat.digits 10 n).map (Fin.ofNat 10)).reverse

def digitsValue (ds : List Digit) : Nat := ds.foldl (fun acc d => 10 * acc + d.val) 0

/-- `Number::toString` on a positive number with digits `ds` and decimal point `n`. -/
def formatDigits (ds : List Digit) (n : Int) : List Char :=
  let k : Int := ds.length
  if k ≤ n ∧ n ≤ 21 then ds.map digitChar ++ List.replicate (n - k).toNat '0'
  else if 0 < n ∧ n ≤ 21 then
    (ds.take n.toNat).map digitChar ++ '.' :: (ds.drop n.toNat).map digitChar
  else if -6 < n ∧ n ≤ 0 then
    '0' :: '.' :: (List.replicate (-n).toNat '0' ++ ds.map digitChar)
  else
    let sign := if n - 1 < 0 then '-' else '+'
    let expo := 'e' :: sign :: (natDigits (n - 1).natAbs).map digitChar
    match ds with
    | [] => expo
    | [d] => digitChar d :: expo
    | d :: rest => digitChar d :: '.' :: rest.map digitChar ++ expo

/-- `JSON.stringify` of a number: `Number::toString`, and `null` when it is not finite. -/
def Num.stringify : Num → List Char
  | .zero _ => ['0']
  | .finite d => (if d.neg then ['-'] else []) ++ formatDigits d.digits d.point
  | .infinite _ => ['n', 'u', 'l', 'l']

def Num.isFinite : Num → Bool
  | .infinite _ => false
  | _ => true

/-- The number with the sign of zero forgotten. -/
def Num.unsigned : Num → Num
  | .zero _ => .zero false
  | n => n

/-- The characters a printed finite number consists of. -/
def isNumChar (c : Char) : Bool :=
  ('0' ≤ c && c ≤ '9') || c == '.' || c == 'e' || c == '+' || c == '-'

private def trimZeros (ds : List Digit) : List Digit :=
  (ds.dropWhile (· == 0)).rdropWhile (· == 0)

/-- The number with the exact decimal digits of `n`.  Below 2 ^ 53 in magnitude this is the double
`n`, printed the way `Number::toString` prints it. -/
def Num.ofInt (n : Int) : Num :=
  if h : Trimmed (trimZeros (natDigits n.natAbs)) then
    .finite ⟨decide (n < 0), trimZeros (natDigits n.natAbs), (natDigits n.natAbs).length, h⟩
  else .zero false

@[simp] private theorem charDigit_digitChar (d : Digit) : charDigit (digitChar d) = d := by
  fin_cases d <;> rfl

private theorem digitChar_plain (d : Digit) :
    digitChar d ≠ '.' ∧ digitChar d ≠ 'e' ∧ digitChar d ≠ '-' ∧ digitChar d ≠ '+' ∧
      isNumChar (digitChar d) = true := by
  fin_cases d <;> decide

private theorem digitsValue_natDigits (n : Nat) : digitsValue (natDigits n) = n := by
  have hmap : (natDigits n).foldl (fun acc d => 10 * acc + d.val) 0 =
      (Nat.digits 10 n).foldr (fun d acc => d % 10 + 10 * acc) 0 := by
    simp [natDigits, List.foldl_reverse, List.foldr_map, Fin.ofNat, Nat.add_comm]
  rw [digitsValue, hmap]
  have hlt : ∀ d ∈ Nat.digits 10 n, d < 10 := fun d hd => Nat.digits_lt_base (by decide) hd
  calc (Nat.digits 10 n).foldr (fun d acc => d % 10 + 10 * acc) 0
      = (Nat.digits 10 n).foldr (fun d acc => d + 10 * acc) 0 := by
        generalize Nat.digits 10 n = l at hlt
        induction l with
        | nil => rfl
        | cons d l ih =>
          simp only [List.foldr_cons]
          rw [ih (fun e he => hlt e (by simp [he])), Nat.mod_eq_of_lt (hlt d (by simp))]
    _ = n := by
        have := Nat.ofDigits_digits 10 n
        rwa [Nat.ofDigits_eq_foldr] at this

private theorem natDigits_injective : Function.Injective natDigits := fun a b h => by
  rw [← digitsValue_natDigits a, h, digitsValue_natDigits]

private def readExponent : List Char → Int
  | '-' :: r => -(digitsValue (r.map charDigit) : Int)
  | '+' :: r => digitsValue (r.map charDigit)
  | _ => 0

private def readDigits (cs : List Char) : List Digit × Int :=
  let mantissa := cs.takeWhile (· != 'e')
  let whole := mantissa.takeWhile (· != '.')
  let ds := (whole ++ (mantissa.dropWhile (· != '.')).drop 1).map charDigit
  (trimZeros ds, whole.length - (ds.takeWhile (· == 0)).length +
    readExponent ((cs.dropWhile (· != 'e')).drop 1))

private theorem takeWhile_zero_pad {ds : List Digit} (h : Trimmed ds) (a : Nat) (tail : List Digit) :
    (List.replicate a 0 ++ ds ++ tail).takeWhile (· == (0 : Digit)) = List.replicate a 0 := by
  obtain ⟨hne, hhead, -⟩ := h
  cases ds with
  | nil => exact absurd rfl hne
  | cons d ds =>
    have hd : d ≠ 0 := by simpa using hhead
    rw [List.append_assoc, List.takeWhile_append_of_pos (by simp)]
    simp [hd]

private theorem trimZeros_pad {ds : List Digit} (h : Trimmed ds) (a b : Nat) :
    trimZeros (List.replicate a 0 ++ ds ++ List.replicate b 0) = ds := by
  obtain ⟨hne, hhead, hlast⟩ := h
  cases ds with
  | nil => exact absurd rfl hne
  | cons d ds =>
    have hd : d ≠ 0 := by simpa using hhead
    have hpad : ∀ m : Nat, List.rdropWhile (· == (0 : Digit)) (d :: ds ++ List.replicate m 0) =
        List.rdropWhile (· == 0) (d :: ds) := by
      intro m
      induction m with
      | zero => simp
      | succ m ih =>
        rw [List.replicate_succ', ← List.append_assoc, List.rdropWhile_concat_pos _ _ _ (by simp), ih]
    rw [trimZeros, List.append_assoc, List.dropWhile_append_of_pos (by simp)]
    rw [List.cons_append, List.dropWhile_cons_of_neg (by simpa using hd), ← List.cons_append, hpad]
    rw [List.rdropWhile_eq_self_iff]
    intro hl hz
    apply hlast
    rw [List.getLast?_eq_getLast_of_ne_nil hl]
    simpa using hz

private theorem readDigits_parts (whole frac : List Digit) (dot expo : List Char) {ds : List Digit}
    (a b : Nat) (h : Trimmed ds) (hds : whole ++ frac = List.replicate a 0 ++ ds ++ List.replicate b 0)
    (hdot : dot = '.' :: frac.map digitChar ∨ dot = [] ∧ frac = [])
    (hexpo : expo = [] ∨ ∃ r, expo = 'e' :: r) :
    readDigits (whole.map digitChar ++ dot ++ expo) =
      (ds, whole.length - a + readExponent (expo.drop 1)) := by
  have hpe : ∀ l : List Digit, ∀ c ∈ l.map digitChar, (c != 'e') = true := by
    intro l c hc
    obtain ⟨d, -, rfl⟩ := List.mem_map.mp hc
    simpa using (digitChar_plain d).2.1
  have hpd : ∀ c ∈ whole.map digitChar, (c != '.') = true := by
    intro c hc
    obtain ⟨d, -, rfl⟩ := List.mem_map.mp hc
    simpa using (digitChar_plain d).1
  have hbody : ∀ c ∈ whole.map digitChar ++ dot, (c != 'e') = true := by
    intro c hc
    rcases List.mem_append.mp hc with hc | hc
    · exact hpe _ c hc
    · rcases hdot with rfl | ⟨rfl, -⟩
      · rcases List.mem_cons.mp hc with rfl | hc
        · decide
        · exact hpe _ c hc
      · simp at hc
  have hmant : (whole.map digitChar ++ dot ++ expo).takeWhile (· != 'e') =
      whole.map digitChar ++ dot := by
    rw [List.takeWhile_append_of_pos hbody]
    rcases hexpo with rfl | ⟨r, rfl⟩ <;> simp
  have hrest : ((whole.map digitChar ++ dot ++ expo).dropWhile (· != 'e')) = expo := by
    rw [List.dropWhile_append_of_pos hbody]
    rcases hexpo with rfl | ⟨r, rfl⟩ <;> simp
  have hwhole : (whole.map digitChar ++ dot).takeWhile (· != '.') = whole.map digitChar := by
    rw [List.takeWhile_append_of_pos hpd]
    rcases hdot with rfl | ⟨rfl, -⟩ <;> simp
  have hfrac : ((whole.map digitChar ++ dot).dropWhile (· != '.')).drop 1 =
      frac.map digitChar := by
    rw [List.dropWhile_append_of_pos hpd]
    rcases hdot with rfl | ⟨rfl, rfl⟩ <;> simp
  have hback : (whole.map digitChar ++ frac.map digitChar).map charDigit = whole ++ frac := by
    simp [Function.comp_def]
  simp only [readDigits, hmant, hrest, hwhole, hfrac, hback]
  rw [hds, trimZeros_pad h, takeWhile_zero_pad h]
  simp

private theorem readExponent_format (e : Int) :
    readExponent ((if e < 0 then '-' else '+') :: (natDigits e.natAbs).map digitChar) = e := by
  have hback : ((natDigits e.natAbs).map digitChar).map charDigit = natDigits e.natAbs := by
    simp [Function.comp_def]
  by_cases he : e < 0
  · simp only [he, if_true, readExponent, hback, digitsValue_natDigits]
    omega
  · simp only [he, if_false, readExponent, hback, digitsValue_natDigits]
    omega

private theorem replicate_zero_map (m : Nat) :
    List.replicate m '0' = (List.replicate m (0 : Digit)).map digitChar := by
  simp only [List.map_replicate]
  rfl

private theorem readDigits_format {ds : List Digit} (h : Trimmed ds) (n : Int) :
    readDigits (formatDigits ds n) = (ds, n) := by
  have hlen : 0 < ds.length := List.length_pos_of_ne_nil h.1
  unfold formatDigits
  simp only
  split
  · -- an integer, padded with zeros
    rename_i hn
    have hp := readDigits_parts (ds ++ List.replicate (n - ds.length).toNat 0) [] [] [] 0
      (n - ds.length).toNat h (by simp) (.inr ⟨rfl, rfl⟩)
      (.inl rfl)
    simp only [List.map_append, ← replicate_zero_map, List.append_nil, List.drop_nil,
      readExponent] at hp
    rw [hp]
    simp only [List.length_append, List.length_replicate]
    congr 1
    omega
  · split
    · -- the point falls inside the digits
      rename_i hn' hn
      have hp := readDigits_parts (ds.take n.toNat) (ds.drop n.toNat)
        ('.' :: (ds.drop n.toNat).map digitChar) [] 0 0 h
        (by simp) (.inl rfl) (.inl rfl)
      simp only [List.append_nil, List.drop_nil, readExponent] at hp
      rw [hp]
      simp only [List.length_take]
      congr 1
      omega
    · split
      · -- leading zeros after the point
        rename_i hn
        have hp := readDigits_parts [0] (List.replicate (-n).toNat 0 ++ ds)
          ('.' :: (List.replicate (-n).toNat 0 ++ ds).map digitChar) []
          (1 + (-n).toNat) 0 h
          (by simp [List.replicate_add]) (.inl rfl) (.inl rfl)
        simp only [List.map_append, ← replicate_zero_map, List.append_nil, List.drop_nil,
          readExponent] at hp
        refine Eq.trans ?_ (hp.trans ?_)
        · rfl
        · congr 1
          simp only [List.length_singleton]
          omega
      · -- exponent form
        cases ds with
        | nil => exact absurd rfl h.1
        | cons d rest =>
          cases rest with
          | nil =>
            have hp := readDigits_parts [d] [] []
              ('e' :: (if n - 1 < 0 then '-' else '+') ::
                (natDigits (n - 1).natAbs).map digitChar) 0 0 h (by simp) (.inr ⟨rfl, rfl⟩) (.inr ⟨_, rfl⟩)
            rw [List.drop_one, List.tail_cons, readExponent_format] at hp
            refine Eq.trans ?_ (hp.trans ?_)
            · rfl
            · congr 1
              simp only [List.length_singleton]
              omega
          | cons d' rest =>
            have hp := readDigits_parts [d] (d' :: rest)
              ('.' :: (d' :: rest).map digitChar)
              ('e' :: (if n - 1 < 0 then '-' else '+') ::
                (natDigits (n - 1).natAbs).map digitChar) 0 0 h (by simp) (.inl rfl) (.inr ⟨_, rfl⟩)
            rw [List.drop_one, List.tail_cons, readExponent_format] at hp
            refine Eq.trans ?_ (hp.trans ?_)
            · rfl
            · congr 1
              simp only [List.length_singleton]
              omega

/-- The number a decimal literal stands for exactly. -/
def Num.read (cs : List Char) : Num :=
  let neg : Bool := cs.head? = some '-'
  let parts := readDigits (if neg then cs.drop 1 else cs)
  if h : Trimmed parts.1 then .finite ⟨neg, parts.1, parts.2, h⟩ else .zero neg

private theorem formatDigits_ne_minus {ds : List Digit} (h : Trimmed ds) (n : Int) (r : List Char) :
    formatDigits ds n ≠ '-' :: r := by
  obtain ⟨hne, -, -⟩ := h
  cases ds with
  | nil => exact absurd rfl hne
  | cons d ds =>
    have hd := (digitChar_plain d).2.2.1
    unfold formatDigits
    simp only
    split
    · simp [hd]
    · split
      · rename_i hn
        obtain ⟨m, hm⟩ : ∃ m, n.toNat = m + 1 := ⟨n.toNat - 1, by omega⟩
        simp [hm, hd]
      · split
        · simp
        · cases ds <;> simp [hd]

private theorem formatDigits_inj {ds es : List Digit} {n m : Int} (hd : Trimmed ds)
    (he : Trimmed es) (h : formatDigits ds n = formatDigits es m) : ds = es ∧ n = m := by
  have := readDigits_format hd n
  rw [h, readDigits_format he m] at this
  simpa [eq_comm] using this

private theorem formatDigits_ne_zero {ds : List Digit} (h : Trimmed ds) (n : Int) :
    formatDigits ds n ≠ ['0'] := by
  intro h0
  have hr := readDigits_format h n
  rw [h0] at hr
  have hnil : (readDigits ['0']).1 = [] := by decide
  rw [hr] at hnil
  exact h.1 hnil

theorem Num.stringify_eq_iff {a b : Num} (ha : a.isFinite = true) (hb : b.isFinite = true) :
    a.stringify = b.stringify ↔ a.unsigned = b.unsigned := by
  constructor
  · intro h
    cases a with
    | infinite => simp [isFinite] at ha
    | zero s =>
      cases b with
      | infinite => simp [isFinite] at hb
      | zero s' => rfl
      | finite d =>
        obtain ⟨neg, ds, n, htrim⟩ := d
        cases neg with
        | true => simp [stringify] at h
        | false => exact absurd h.symm (formatDigits_ne_zero htrim n)
    | finite d =>
      obtain ⟨neg, ds, n, htrim⟩ := d
      cases b with
      | infinite => simp [isFinite] at hb
      | zero s =>
        cases neg with
        | true => simp [stringify] at h
        | false => exact absurd h (formatDigits_ne_zero htrim n)
      | finite d' =>
        obtain ⟨neg', es, m, htrim'⟩ := d'
        cases neg <;> cases neg' <;> simp only [stringify, if_true, Bool.false_eq_true, if_false,
          List.nil_append, List.cons_append, List.cons.injEq, true_and] at h
        · obtain ⟨rfl, rfl⟩ := formatDigits_inj htrim htrim' h
          rfl
        · exact absurd h (formatDigits_ne_minus htrim n _)
        · exact absurd h.symm (formatDigits_ne_minus htrim' m _)
        · obtain ⟨rfl, rfl⟩ := formatDigits_inj htrim htrim' h
          rfl
  · intro h
    have key : ∀ x : Num, x.unsigned.stringify = x.stringify := by
      intro x
      cases x <;> rfl
    rw [← key a, h, key]

theorem Num.read_stringify {n : Num} (h : n.isFinite = true) :
    Num.read n.stringify = n.unsigned := by
  cases n with
  | infinite => simp [isFinite] at h
  | zero neg => decide +revert
  | finite d =>
    obtain ⟨neg, ds, point, htrim⟩ := d
    have hdigits := readDigits_format htrim point
    have htrim' : Trimmed (readDigits (formatDigits ds point)).1 := by
      rw [hdigits]
      exact htrim
    cases neg with
    | true =>
      have hread : Num.read (.finite ⟨true, ds, point, htrim⟩ : Num).stringify =
          if h : Trimmed (readDigits (formatDigits ds point)).1 then
            .finite ⟨true, _, (readDigits (formatDigits ds point)).2, h⟩
          else .zero true := rfl
      rw [hread, dif_pos htrim']
      simp [hdigits, unsigned]
    | false =>
      have hhead : (formatDigits ds point).head? ≠ some '-' := by
        intro hminus
        obtain ⟨r, hr⟩ := List.head?_eq_some_iff.mp hminus
        exact formatDigits_ne_minus htrim point r hr
      have hread : Num.read (.finite ⟨false, ds, point, htrim⟩ : Num).stringify =
          if h : Trimmed (readDigits (formatDigits ds point)).1 then
            .finite ⟨false, _, (readDigits (formatDigits ds point)).2, h⟩
          else .zero false := by
        simp [Num.read, stringify, hhead]
      rw [hread, dif_pos htrim']
      simp [hdigits, unsigned]

private theorem formatDigits_chars {ds : List Digit} (h : Trimmed ds) (n : Int) :
    formatDigits ds n ≠ [] ∧ ∀ c ∈ formatDigits ds n, isNumChar c = true := by
  have hdigit : ∀ l : List Digit, ∀ c ∈ l.map digitChar, isNumChar c = true := by
    intro l c hc
    obtain ⟨d, -, rfl⟩ := List.mem_map.mp hc
    exact (digitChar_plain d).2.2.2.2
  have hzero : ∀ m, ∀ c ∈ List.replicate m '0', isNumChar c = true := by
    intro m c hc
    rw [List.eq_of_mem_replicate hc]
    decide
  have hexpo : ∀ c ∈ 'e' :: (if n - 1 < 0 then '-' else '+') ::
      (natDigits (n - 1).natAbs).map digitChar, isNumChar c = true := by
    intro c hc
    rcases List.mem_cons.mp hc with rfl | hc
    · decide
    · rcases List.mem_cons.mp hc with rfl | hc
      · split <;> decide
      · exact hdigit _ c hc
  have hdot : isNumChar '.' = true := by decide
  have hne : ds ≠ [] := h.1
  unfold formatDigits
  simp only
  split
  · refine ⟨by simp [hne], fun c hc => ?_⟩
    rcases List.mem_append.mp hc with hc | hc
    · exact hdigit _ c hc
    · exact hzero _ c hc
  · split
    · refine ⟨by simp, fun c hc => ?_⟩
      rcases List.mem_append.mp hc with hc | hc
      · exact hdigit _ c hc
      · rcases List.mem_cons.mp hc with rfl | hc
        · exact hdot
        · exact hdigit _ c hc
    · split
      · refine ⟨by simp, fun c hc => ?_⟩
        rcases List.mem_cons.mp hc with rfl | hc
        · decide
        · rcases List.mem_cons.mp hc with rfl | hc
          · exact hdot
          · rcases List.mem_append.mp hc with hc | hc
            · exact hzero _ c hc
            · exact hdigit _ c hc
      · cases ds with
        | nil => exact absurd rfl hne
        | cons d rest =>
          cases rest with
          | nil =>
            refine ⟨by simp, fun c hc => ?_⟩
            rcases List.mem_cons.mp hc with rfl | hc
            · exact (digitChar_plain d).2.2.2.2
            · exact hexpo c hc
          | cons d' rest =>
            refine ⟨by simp, fun c hc => ?_⟩
            rcases List.mem_append.mp hc with hc | hc
            · rcases List.mem_cons.mp hc with rfl | hc
              · exact (digitChar_plain d).2.2.2.2
              · rcases List.mem_cons.mp hc with rfl | hc
                · exact hdot
                · exact hdigit _ c hc
            · exact hexpo c hc

theorem Num.stringify_chars {a : Num} (ha : a.isFinite = true) :
    a.stringify ≠ [] ∧ ∀ c ∈ a.stringify, isNumChar c = true := by
  cases a with
  | infinite => simp [isFinite] at ha
  | zero s =>
    have hzero : isNumChar '0' = true := by decide
    exact ⟨by simp [stringify], by simp [stringify, hzero]⟩
  | finite d =>
    obtain ⟨neg, ds, n, htrim⟩ := d
    obtain ⟨hne, hall⟩ := formatDigits_chars htrim n
    refine ⟨by simp [stringify, hne], fun c hc => ?_⟩
    rcases List.mem_append.mp hc with hc | hc
    · cases neg with
      | true =>
        rw [List.mem_singleton.mp hc]
        decide
      | false => simp at hc
    · exact hall c hc

private theorem natDigits_head_ne (n : Nat) : (natDigits n).head? ≠ some 0 := by
  intro h
  have hne : Nat.digits 10 n ≠ [] := by
    intro hnil
    simp [natDigits, hnil] at h
  have hn : n ≠ 0 := by
    rintro rfl
    simp at hne
  have hlast := Nat.getLast_digit_ne_zero 10 hn
  have hlt : (Nat.digits 10 n).getLast hne < 10 :=
    Nat.digits_lt_base (by decide) (List.getLast_mem hne)
  rw [natDigits, List.head?_reverse, List.getLast?_map, List.getLast?_eq_getLast_of_ne_nil hne,
    Option.map_some, Option.some.injEq, Fin.ext_iff] at h
  simp only [Fin.ofNat, Nat.mod_eq_of_lt hlt] at h
  exact hlast h

private theorem trimZeros_natDigits (n : Nat) :
    trimZeros (natDigits n) = (natDigits n).rdropWhile (· == 0) := by
  have hhead := natDigits_head_ne n
  rw [trimZeros]
  cases hd : natDigits n with
  | nil => rfl
  | cons d ds =>
    rw [hd] at hhead
    rw [List.dropWhile_cons_of_neg (by simpa using hhead)]

private theorem natDigits_trimmed (n : Nat) :
    ∃ z, natDigits n = trimZeros (natDigits n) ++ List.replicate z 0 := by
  refine ⟨((natDigits n).rtakeWhile (· == 0)).length, ?_⟩
  have hzeros : (natDigits n).rtakeWhile (· == 0) =
      List.replicate ((natDigits n).rtakeWhile (· == 0)).length 0 := by
    apply List.eq_replicate_of_mem
    intro d hd
    simpa using List.mem_rtakeWhile_imp hd
  rw [trimZeros_natDigits, ← hzeros, List.rdropWhile_append_rtakeWhile]

private theorem digitsValue_zeros (z : Nat) : digitsValue (List.replicate z 0) = 0 := by
  unfold digitsValue
  induction z with
  | zero => rfl
  | succ z ih => simpa [List.replicate_succ] using ih

private theorem trimmed_natDigits {n : Nat} (hn : n ≠ 0) : Trimmed (trimZeros (natDigits n)) := by
  have hne : trimZeros (natDigits n) ≠ [] := by
    intro hnil
    obtain ⟨z, hz⟩ := natDigits_trimmed n
    have hv := digitsValue_natDigits n
    rw [hz, hnil, List.nil_append, digitsValue_zeros] at hv
    exact hn hv.symm
  refine ⟨hne, ?_, ?_⟩
  · intro h0
    obtain ⟨z, hz⟩ := natDigits_trimmed n
    apply natDigits_head_ne n
    rw [hz, List.head?_append, h0]
    rfl
  · intro h0
    rw [trimZeros_natDigits] at hne h0
    have hlast := List.rdropWhile_last_not (· == (0 : Digit)) (natDigits n) hne
    rw [List.getLast?_eq_getLast_of_ne_nil hne, Option.some.injEq] at h0
    exact hlast (by simp [h0])

theorem Num.ofInt_injective : Function.Injective Num.ofInt := by
  intro n m h
  have hzero : ∀ k : Int, ¬Trimmed (trimZeros (natDigits k.natAbs)) → k = 0 := by
    intro k hk
    by_contra hne
    exact hk (trimmed_natDigits (by omega))
  have htrim : ∀ k : Int, Trimmed (trimZeros (natDigits k.natAbs)) → k ≠ 0 := by
    rintro k hk rfl
    exact absurd hk (by decide)
  unfold ofInt at h
  split at h <;> split at h
  · -- sign, trimmed digits and length together give the digits back
    rename_i hn hm
    simp only [Num.finite.injEq, Decimal.mk.injEq, decide_eq_decide, Int.natCast_inj] at h
    obtain ⟨hsign, hdigits, hlen⟩ := h
    obtain ⟨z, hz⟩ := natDigits_trimmed n.natAbs
    obtain ⟨z', hz'⟩ := natDigits_trimmed m.natAbs
    have hzz : z = z' := by
      have hln := congrArg List.length hz
      have hlm := congrArg List.length hz'
      simp only [List.length_append, List.length_replicate] at hln hlm
      rw [hdigits] at hln
      omega
    have habs : n.natAbs = m.natAbs := by
      apply natDigits_injective
      rw [hz, hz', hdigits, hzz]
    omega
  · exact absurd h (by simp)
  · exact absurd h (by simp)
  · rename_i hn hm
    rw [hzero n hn, hzero m hm]

/-- `Number` of an integer: round to the nearest double, ties to even.  Exact up to 2 ^ 53. -/
def number (n : Int) : Int :=
  if n.natAbs ≤ 2 ^ 53 then n
  else
    let e := n.natAbs.log2 - 52
    let q := n.natAbs / 2 ^ e
    let r := n.natAbs % 2 ^ e
    let up : Bool := 2 ^ e < 2 * r || (2 ^ e == 2 * r && q % 2 == 1)
    n.sign * ((if up then q + 1 else q) * 2 ^ e : Nat)

theorem number_of_le {n : Int} (h : n.natAbs ≤ 2 ^ 53) : number n = n := by
  rw [number, if_pos h]

theorem two_le_number {n : Int} (h : 2 ≤ n) : 2 ≤ number n := by
  unfold number
  split
  · exact h
  · rename_i hbig
    have hsign : n.sign = 1 := Int.sign_eq_one_of_pos (by omega)
    have hlog : 53 ≤ n.natAbs.log2 := (Nat.le_log2 (by omega)).mpr (by omega)
    have he : 1 ≤ n.natAbs.log2 - 52 := by omega
    have hpow : 2 ≤ 2 ^ (n.natAbs.log2 - 52) := by
      calc 2 = 2 ^ 1 := rfl
        _ ≤ 2 ^ (n.natAbs.log2 - 52) := Nat.pow_le_pow_right (by decide) he
    have hq : 1 ≤ n.natAbs / 2 ^ (n.natAbs.log2 - 52) := by
      rw [Nat.one_le_div_iff (by positivity)]
      calc 2 ^ (n.natAbs.log2 - 52) ≤ 2 ^ n.natAbs.log2 :=
            Nat.pow_le_pow_right (by decide) (by omega)
        _ ≤ n.natAbs := Nat.log2_self_le (by omega)
    simp only [hsign, one_mul]
    have hmul : ∀ q : Nat, 1 ≤ q → 2 ≤ q * 2 ^ (n.natAbs.log2 - 52) := by
      intro q hq
      calc 2 ≤ 2 ^ (n.natAbs.log2 - 52) := hpow
        _ ≤ q * 2 ^ (n.natAbs.log2 - 52) := Nat.le_mul_of_pos_left _ hq
    split
    · exact_mod_cast hmul _ (by omega)
    · exact_mod_cast hmul _ hq

/-- The integer and the power of ten a finite number is the product of. -/
def Num.scientific : Num → Int × Int
  | .finite d => ((if d.neg then -1 else 1) * digitsValue d.digits, d.point - d.digits.length)
  | _ => (0, 0)

/-- `a <= b`. -/
def Num.le (a b : Num) : Bool :=
  match a, b with
  | .infinite true, _ => true
  | _, .infinite false => true
  | .infinite false, _ => false
  | _, .infinite true => false
  | a, b =>
      let e := min a.scientific.2 b.scientific.2
      a.scientific.1 * 10 ^ (a.scientific.2 - e).toNat ≤
        b.scientific.1 * 10 ^ (b.scientific.2 - e).toNat

theorem Num.unsigned_le (a b : Num) : Num.le a.unsigned b = Num.le a b := by
  cases a with
  | zero neg =>
    cases b with
    | infinite neg' => cases neg' <;> rfl
    | zero neg' => rfl
    | finite d => rfl
  | finite d => rfl
  | infinite neg => rfl

end OpenRupiv.Js

namespace OpenRupiv

export Js (Num)

end OpenRupiv
