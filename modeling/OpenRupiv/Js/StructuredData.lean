import OpenRupiv.Js.Print

/-!
# Syslog lines

The parts of a line by RFC 5424: fields between spaces, and an element of structured data with its
parameters.  A parameter is read back from what an escaping writer makes of it.
-/

namespace OpenRupiv.Js.Rfc5424

/-- A backslash before each double quote, backslash and closing bracket. -/
def escapeValue (v : Text) : Text :=
  v.flatMap fun u => if u = 92 ∨ u = 93 ∨ u = 34 then [92, u] else [u]

/-- ` name="value"`. -/
def paramText (param : Text × Text) : Text :=
  32 :: (param.1 ++ 61 :: 34 :: (escapeValue param.2 ++ [34]))

/-- A value up to its closing quote, and what follows.  A backslash that escapes nothing stands for
itself, and a closing bracket has to be escaped. -/
def readValue : Text → Option (Text × Text)
  | [] => none
  | [u] => if u = 34 then some ([], []) else none
  | u :: v :: rest =>
      if u = 34 then some ([], v :: rest)
      else if u = 93 then none
      else if u = 92 ∧ (v = 34 ∨ v = 92 ∨ v = 93) then
        (readValue rest).map fun r => (v :: r.1, r.2)
      else (readValue (v :: rest)).map fun r => (u :: r.1, r.2)

/-- A parameter after the space before it. -/
def readParam (t : Text) : Option ((Text × Text) × Text) :=
  match t.dropWhile (· ≠ 61) with
  | 61 :: 34 :: rest => (readValue rest).map fun r => ((t.takeWhile (· ≠ 61), r.1), r.2)
  | _ => none

/-- The parameters up to the closing bracket, at most `n` of them. -/
def readParams : Nat → Text → Option (List (Text × Text) × Text)
  | n, u :: rest =>
      if u = 93 then some ([], rest)
      else if u = 32 then
        match n with
        | 0 => none
        | n + 1 => do
            let (param, rest) ← readParam rest
            let (params, rest) ← readParams n rest
            return (param :: params, rest)
      else none
  | _, [] => none

/-- The fields before the structured data, separated by spaces. -/
def readFields : Nat → Text → Option (List Text × Text)
  | 0, t => some ([], t)
  | n + 1, t =>
      match t.dropWhile (· ≠ 32) with
      | [] => none
      | _ :: rest => (readFields n rest).map fun r => (t.takeWhile (· ≠ 32) :: r.1, r.2)

/-- The lines of a text; an empty text has none. -/
def linesOf (t : Text) : List Text := if t = [] then [] else t.splitOn 10

theorem readValue_append (v rest : Text) :
    readValue (escapeValue v ++ 34 :: rest) = some (v, rest) := by
  induction v with
  | nil =>
    cases rest with
    | nil => rfl
    | cons u rest => simp [escapeValue, readValue]
  | cons u v ih =>
    have hcons : escapeValue (u :: v) ++ 34 :: rest =
        (if u = 92 ∨ u = 93 ∨ u = 34 then [92, u] else [u]) ++ (escapeValue v ++ 34 :: rest) := by
      rw [escapeValue, List.flatMap_cons, List.append_assoc]
      rfl
    rw [hcons]
    by_cases hspecial : u = 92 ∨ u = 93 ∨ u = 34
    · have hescaped : u = 34 ∨ u = 92 ∨ u = 93 := by tauto
      rw [if_pos hspecial]
      simp [readValue, hescaped, ih]
    · rw [if_neg hspecial]
      obtain ⟨h92, h93, h34⟩ : u ≠ 92 ∧ u ≠ 93 ∧ u ≠ 34 := by tauto
      -- the value goes on with a code unit or ends with the quote
      obtain ⟨w, rest', hrest⟩ : ∃ w rest', escapeValue v ++ 34 :: rest = w :: rest' := by
        cases escapeValue v with
        | nil => exact ⟨_, _, rfl⟩
        | cons w ws => exact ⟨_, _, rfl⟩
      rw [hrest] at ih ⊢
      simp [readValue, h92, h93, h34, ih]

theorem readParam_append {name : Text} (hname : 61 ∉ name) (v rest : Text) :
    readParam (name ++ 61 :: 34 :: (escapeValue v ++ 34 :: rest)) = some ((name, v), rest) := by
  have hne : ∀ u ∈ name, decide (u ≠ 61) = true := by
    intro u hu
    simpa using ne_of_mem_of_not_mem hu hname
  unfold readParam
  rw [List.dropWhile_append_of_pos hne, List.takeWhile_append_of_pos hne]
  simp [readValue_append]

theorem readParams_append {params : List (Text × Text)} (hnames : ∀ p ∈ params, 61 ∉ p.1)
    {n : Nat} (hn : params.length ≤ n) (rest : Text) :
    readParams n (params.flatMap paramText ++ 93 :: rest) = some (params, rest) := by
  induction params generalizing n with
  | nil => cases n <;> rfl
  | cons p params ih =>
    obtain ⟨m, rfl⟩ : ∃ m, n = m + 1 := ⟨n - 1, by simp at hn; omega⟩
    obtain ⟨hp, hparams⟩ := List.forall_mem_cons.mp hnames
    have hm : params.length ≤ m := by simpa using hn
    have hshape : (p :: params).flatMap paramText ++ 93 :: rest =
        32 :: (p.1 ++ 61 :: 34 :: (escapeValue p.2 ++
          34 :: (params.flatMap paramText ++ 93 :: rest))) := by
      simp [paramText]
    rw [hshape, readParams]
    simp [readParam_append hp, ih hparams hm]

theorem readFields_append {fields : List Text} (hfields : ∀ f ∈ fields, 32 ∉ f) (rest : Text) :
    readFields fields.length (fields.flatMap (fun f => f ++ [32]) ++ rest) =
      some (fields, rest) := by
  induction fields with
  | nil => rfl
  | cons f fields ih =>
    obtain ⟨hf, hfields⟩ := List.forall_mem_cons.mp hfields
    have hne : ∀ u ∈ f, decide (u ≠ 32) = true := by
      intro u hu
      simpa using ne_of_mem_of_not_mem hu hf
    rw [List.flatMap_cons, List.append_assoc, List.append_assoc, List.length_cons, readFields,
      List.dropWhile_append_of_pos hne, List.takeWhile_append_of_pos hne]
    simp [ih hfields]

theorem intercalate_ne_nil {sep l : Text} (hl : l ≠ []) (ls : List Text) :
    sep.intercalate (l :: ls) ≠ [] := by
  cases ls with
  | nil => simpa using hl
  | cons next ls =>
    rw [List.intercalate_cons_cons]
    exact List.append_ne_nil_of_left_ne_nil (List.append_ne_nil_of_left_ne_nil hl _) _

theorem linesOf_intercalate {ls : List Text} (hne : ∀ l ∈ ls, l ≠ []) (hls : ∀ l ∈ ls, 10 ∉ l) :
    linesOf (List.intercalate [10] ls) = ls := by
  unfold linesOf
  cases ls with
  | nil => rfl
  | cons l ls =>
    rw [if_neg (intercalate_ne_nil (hne l List.mem_cons_self) ls)]
    exact List.splitOn_intercalate 10 hls (List.cons_ne_nil l ls)

theorem length_splitOn (a : UInt16) (t : Text) : (t.splitOn a).length = t.count a + 1 := by
  induction t with
  | nil => rfl
  | cons u t ih =>
    rw [List.splitOn_cons_eq_if_modifyHead, List.count_cons]
    split
    · rw [List.length_cons, ih]
    · rw [List.length_modifyHead, ih, Nat.add_zero]

theorem length_linesOf_intercalate {ls : List Text} (hne : ∀ l ∈ ls, l ≠ []) :
    (linesOf (List.intercalate [10] ls)).length = ls.length + (ls.map (List.count 10)).sum := by
  have hcount : ∀ (l : Text) (ls : List Text), (List.intercalate [10] (l :: ls)).count 10 =
      ls.length + ((l :: ls).map (List.count 10)).sum := by
    intro l ls
    induction ls generalizing l with
    | nil => simp
    | cons next ls ih =>
      rw [List.intercalate_cons_cons, List.count_append, List.count_append, ih next]
      simp
      omega
  unfold linesOf
  cases ls with
  | nil => rfl
  | cons l ls =>
    rw [if_neg (intercalate_ne_nil (hne l List.mem_cons_self) ls), length_splitOn, hcount,
      List.length_cons]
    omega

end OpenRupiv.Js.Rfc5424
