import OpenRupiv.Js.Parse

/-!
# What `JSON.parse` reads

A value that is read has a text of its own in front of what is left, and that text is read as the
value before anything else too.  What is true of white space, of tokens and of strings, of texts one
after the other and of texts between braces, is true of the text of every value.
-/

namespace OpenRupiv.Js

/-- A property of texts that follows their lexical structure. -/
structure Lexical (Q : Text → Prop) : Prop where
  nil : Q []
  append : ∀ {s t}, Q s → Q t → Q (s ++ t)
  plain : ∀ {u}, u ∉ [unit '"', unit '{', unit '}'] → Q [u]
  string : ∀ {b t}, readString b = some (t, []) → Q (unit '"' :: b)
  braces : ∀ {t}, Q t → Q (unit '{' :: (t ++ [unit '}']))

variable {toNumber : Text → Num} {Q : Text → Prop}

theorem Lexical.all_plain (hQ : Lexical Q) {s : Text}
    (h : ∀ u ∈ s, u ∉ [unit '"', unit '{', unit '}']) : Q s := by
  induction s with
  | nil => exact hQ.nil
  | cons u s ih =>
    exact hQ.append (hQ.plain (h u List.mem_cons_self)) (ih fun v hv => h v (List.mem_cons_of_mem _ hv))

theorem isSpace_plain {u : UInt16} (h : isSpace u = true) :
    u ∉ [unit '"', unit '{', unit '}'] := by
  intro hmem
  simp only [List.mem_cons, List.not_mem_nil, or_false] at hmem
  rcases hmem with rfl | rfl | rfl
  · exact absurd h (by decide)
  · exact absurd h (by decide)
  · exact absurd h (by decide)

theorem Lexical.blank (hQ : Lexical Q) {s : Text} (h : Blank s) : Q s :=
  hQ.all_plain fun u hu => isSpace_plain (h u hu)

theorem skip_eq_append (s : Text) : ∃ w, Blank w ∧ s = w ++ skip s := by
  refine ⟨s.takeWhile isSpace, fun u hu => List.mem_takeWhile_imp hu, ?_⟩
  rw [skip, List.takeWhile_append_dropWhile]

theorem expect_eq_some_iff {c : Char} (hc : isSpace (unit c) = false) {s r : Text} :
    expect c s = some r ↔ ∃ w, Blank w ∧ s = w ++ unit c :: r := by
  constructor
  · intro h
    obtain ⟨w, hw, hs⟩ := skip_eq_append s
    unfold expect at h
    split at h
    · exact absurd h (by simp)
    · rename_i u rest hskip
      split at h
      · rename_i hu
        rw [Option.some.injEq] at h
        exact ⟨w, hw, by rw [hs, hskip, hu, h]⟩
      · exact absurd h (by simp)
  · intro h
    obtain ⟨w, hw, rfl⟩ := h
    rw [hw.expect, expect_token hc]

theorem expect_other {c d : Char} (hd : isSpace (unit d) = false) (hne : unit d ≠ unit c)
    {w : Text} (hw : Blank w) (r : Text) : expect c (w ++ unit d :: r) = none := by
  rw [hw.expect, expect_cons c hd, if_neg hne]

theorem readString_consumes {s t r : Text} (h : readString s = some (t, r)) :
    ∃ b, s = b ++ r ∧ ∀ rest, readString (b ++ rest) = some (t, rest) := by
  fun_induction readString s generalizing t with
  | case1 => exact absurd h (by simp)
  | case2 rest =>
    obtain ⟨rfl, rfl⟩ := Prod.mk.inj (Option.some.inj h)
    refine ⟨[unit '"'], rfl, fun rest => ?_⟩
    rw [List.singleton_append, readString.eq_def]
    simp
  | case3 => exact absurd h (by simp)
  | case4 a b c d rest hne ih =>
    simp only [Option.bind_eq_bind, Option.bind_eq_some_iff, Option.pure_def, Option.some.injEq,
      Prod.exists, Prod.mk.injEq] at h
    obtain ⟨x, hx, t', r', hread, rfl, rfl⟩ := h
    obtain ⟨body, rfl, hbody⟩ := ih hread
    refine ⟨unit '\\' :: unit 'u' :: a :: b :: c :: d :: body, rfl, fun rest => ?_⟩
    simp only [List.cons_append]
    rw [readString, if_neg hne, if_pos rfl]
    simp [hx, hbody]
  | case5 => exact absurd h (by simp)
  | case6 e rest he hne ih =>
    simp only [Option.bind_eq_bind, Option.bind_eq_some_iff, Option.pure_def, Option.some.injEq,
      Prod.exists, Prod.mk.injEq] at h
    obtain ⟨x, hx, t', r', hread, rfl, rfl⟩ := h
    obtain ⟨body, rfl, hbody⟩ := ih hread
    refine ⟨unit '\\' :: e :: body, rfl, fun rest => ?_⟩
    simp only [List.cons_append]
    rw [readString.eq_def]
    simp only [if_neg hne, if_true, if_neg he, hx, hbody]
    rfl
  | case7 => exact absurd h (by simp)
  | case8 u rest hquote hslash hcontrol ih =>
    simp only [Option.bind_eq_bind, Option.bind_eq_some_iff, Option.pure_def, Option.some.injEq,
      Prod.exists, Prod.mk.injEq] at h
    obtain ⟨t', r', hread, rfl, rfl⟩ := h
    obtain ⟨body, rfl, hbody⟩ := ih hread
    refine ⟨u :: body, rfl, fun rest => ?_⟩
    rw [List.cons_append, readString.eq_def]
    simp only [if_neg hquote, if_neg hslash, if_neg hcontrol, hbody]
    rfl
/-- What a value, the items of an array and the members of an object are read of, within some
fuel. -/
def ValueConsumed (toNumber : Text → Num) (Q : Text → Prop) (fuel : Nat) : Prop :=
  ∀ s v r, readValue toNumber fuel s = some (v, r) →
    ∃ t, s = t ++ r ∧ Q t ∧ Reads toNumber t v

def ItemsConsumed (toNumber : Text → Num) (Q : Text → Prop) (fuel : Nat) : Prop :=
  ∀ s vs r, readItems toNumber fuel s = some (vs, r) →
    ∃ t, s = t ++ r ∧ Q t ∧ ∀ fuel rest, 2 * t.length ≤ fuel →
      readItems toNumber fuel (t ++ rest) = some (vs, rest)

def MembersConsumed (toNumber : Text → Num) (Q : Text → Prop) (fuel : Nat) : Prop :=
  ∀ s ms r, readMembers toNumber fuel s = some (ms, r) →
    ∃ t, s = t ++ unit '}' :: r ∧ Q t ∧ ∀ fuel rest, 2 * t.length ≤ fuel →
      readMembers toNumber fuel (t ++ unit '}' :: rest) = some (ms, rest)

theorem readWord_consumes (hQ : Lexical Q) {word : String} {a : Scalar}
    (hword : stringifyText (.scalar a) = ofString word) (hreread : a.reread toNumber = a)
    (hplain : (ofString word).all (fun u => u ∉ [unit '"', unit '{', unit '}']) = true)
    {s r : Text} {v : Json} (h : readWord word a s = some (v, r)) :
    ∃ t, s = t ++ r ∧ Q t ∧ Reads toNumber t v := by
  unfold readWord at h
  split at h
  · rename_i hstart
    obtain ⟨rfl, rfl⟩ := Prod.mk.inj (Option.some.inj h)
    obtain ⟨rest, rfl⟩ := List.isPrefixOf_iff_prefix.mp hstart
    refine ⟨ofString word, by rw [List.drop_left], hQ.all_plain fun u hu => ?_, ?_⟩
    · simpa using List.all_eq_true.mp hplain u hu
    · have hreads : Reads toNumber (stringifyText (.scalar a)) (.scalar (a.reread toNumber)) :=
        reads_scalar a
      rwa [hword, hreread] at hreads
  · exact absurd h (by simp)

theorem readNumber_consumes (hQ : Lexical Q) {s r : Text} {v : Json}
    (h : readNumber toNumber s = some (v, r)) :
    ∃ t, s = t ++ r ∧ Q t ∧ Reads toNumber t v := by
  unfold readNumber at h
  split at h
  · rename_i hnumeral
    obtain ⟨rfl, rfl⟩ := Prod.mk.inj (Option.some.inj h)
    have hunits : ∀ u ∈ s.takeWhile isNumUnit, isNumUnit u = true :=
      fun u hu => List.mem_takeWhile_imp hu
    refine ⟨s.takeWhile isNumUnit, List.takeWhile_append_dropWhile.symm,
      hQ.all_plain fun u hu => ?_, fun fuel rest hfuel hrest => ?_⟩
    · have hne := (isNumUnit_opens (hunits u hu)).2
      simp only [List.mem_cons, List.not_mem_nil, or_false, not_or] at hne ⊢
      exact ⟨hne.2.2.1, hne.2.2.2.2.1, hne.2.1⟩
    · have hread := readNumber_append toNumber hunits hnumeral hrest
      cases hcore : s.takeWhile isNumUnit with
      | nil =>
        rw [hcore] at hnumeral
        exact absurd hnumeral (by decide)
      | cons u core =>
        rw [hcore] at hread hfuel
        obtain ⟨hspace, hne⟩ := isNumUnit_opens (hunits u (by rw [hcore]; exact List.mem_cons_self))
        simp only [List.mem_cons, List.not_mem_nil, or_false, not_or] at hne
        obtain ⟨-, -, hquote, hbracket, hbrace, hn, ht, hf⟩ := hne
        obtain ⟨fuel, rfl⟩ : ∃ k, fuel = k + 1 := ⟨fuel - 1, by simp at hfuel; omega⟩
        rw [List.cons_append] at hread ⊢
        rw [readValue, skip_cons hspace]
        simp only [if_neg hquote, if_neg hbracket, if_neg hbrace, if_neg hn, if_neg ht, if_neg hf]
        exact hread
  · exact absurd h (by simp)

theorem readValue_closing {fuel : Nat} {c : Char} (hc : c = ']' ∨ c = '}') {s rest : Text}
    (hskip : skip s = unit c :: rest) : readValue toNumber fuel s = none := by
  have hnumber : ∀ u : UInt16, isNumUnit u = false → readNumber toNumber (u :: rest) = none := by
    intro u hu
    rw [readNumber, List.takeWhile_cons_of_neg (by simp [hu]), if_neg (by decide)]
  cases fuel with
  | zero => rw [readValue]
  | succ fuel =>
    rw [readValue, hskip]
    rcases hc with rfl | rfl
    · dsimp only
      rw [if_neg (by decide), if_neg (by decide), if_neg (by decide), if_neg (by decide),
        if_neg (by decide), if_neg (by decide), hnumber _ (by decide)]
    · dsimp only
      rw [if_neg (by decide), if_neg (by decide), if_neg (by decide), if_neg (by decide),
        if_neg (by decide), if_neg (by decide), hnumber _ (by decide)]

theorem opens_of_readValue {fuel : Nat} {s r : Text} {v : Json}
    (h : readValue toNumber fuel s = some (v, r)) : Opens s := by
  cases hskip : skip s with
  | nil =>
    cases fuel with
    | zero => exact absurd h (by simp [readValue])
    | succ fuel => exact absurd h (by simp [readValue, hskip])
  | cons u rest =>
    refine ⟨u, rest, hskip, ?_, ?_⟩
    · rintro rfl
      rw [readValue_closing (.inl rfl) hskip] at h
      exact absurd h (by simp)
    · rintro rfl
      rw [readValue_closing (.inr rfl) hskip] at h
      exact absurd h (by simp)

theorem opens_of_readItems {fuel : Nat} {s r : Text} {vs : List Json}
    (h : readItems toNumber fuel s = some (vs, r)) : Opens s := by
  cases fuel with
  | zero => exact absurd h (by simp [readItems])
  | succ fuel =>
    rw [readItems] at h
    simp only [Option.bind_eq_bind, Option.bind_eq_some_iff, Prod.exists] at h
    obtain ⟨v, r', hvalue, -⟩ := h
    exact opens_of_readValue hvalue

theorem opens_of_readMembers {fuel : Nat} {s r : Text} {ms : List (Text × Json)}
    (h : readMembers toNumber fuel s = some (ms, r)) : Opens s := by
  cases fuel with
  | zero => exact absurd h (by simp [readMembers])
  | succ fuel =>
    rw [readMembers] at h
    simp only [Option.bind_eq_bind, Option.bind_eq_some_iff] at h
    obtain ⟨r', hquote, -⟩ := h
    obtain ⟨w, hw, rfl⟩ := (expect_eq_some_iff (by decide)).mp hquote
    exact (Opens.of_cons ⟨unit '"', r', rfl, by decide⟩).lead hw

theorem skip_skip (s : Text) : skip (skip s) = skip s := List.dropWhile_idempotent _ _

theorem readValue_skip (fuel : Nat) (s : Text) :
    readValue toNumber fuel (skip s) = readValue toNumber fuel s := by
  cases fuel with
  | zero => rw [readValue, readValue]
  | succ fuel => rw [readValue, readValue, skip_skip]

theorem string_consumes (hQ : Lexical Q) {fuel : Nat} {rest r : Text} {v : Json}
    (h : readValue toNumber fuel (unit '"' :: rest) = some (v, r)) :
    ∃ t, unit '"' :: rest = t ++ r ∧ Q t ∧ Reads toNumber t v := by
  cases fuel with
  | zero => exact absurd h (by simp [readValue])
  | succ fuel =>
    rw [readValue, skip_cons (by decide)] at h
    simp only [if_true, Option.bind_eq_bind, Option.bind_eq_some_iff, Option.pure_def,
      Option.some.injEq, Prod.exists, Prod.mk.injEq] at h
    obtain ⟨t, r', hread, rfl, rfl⟩ := h
    obtain ⟨b, rfl, hb⟩ := readString_consumes hread
    refine ⟨unit '"' :: b, rfl, hQ.string (by simpa using hb []), fun fuel rest hfuel _ => ?_⟩
    obtain ⟨fuel, rfl⟩ : ∃ k, fuel = k + 1 := ⟨fuel - 1, by simp at hfuel; omega⟩
    rw [List.cons_append, readValue, skip_cons (by decide)]
    simp only [if_true, hb rest]
    rfl

theorem array_consumes (hQ : Lexical Q) {fuel : Nat} (hitems : ItemsConsumed toNumber Q fuel)
    {rest r : Text} {v : Json}
    (h : readValue toNumber (fuel + 1) (unit '[' :: rest) = some (v, r)) :
    ∃ t, unit '[' :: rest = t ++ r ∧ Q t ∧ Reads toNumber t v := by
  rw [readValue, skip_cons (by decide)] at h
  dsimp only at h
  rw [if_neg (by decide), if_pos rfl] at h
  split at h
  · rename_i r' hclose
    obtain ⟨w, hw, rfl⟩ := (expect_eq_some_iff (by decide)).mp hclose
    obtain ⟨rfl, rfl⟩ := Prod.mk.inj (Option.some.inj h)
    have hempty : Q (w ++ [unit ']']) := hQ.append (hQ.blank hw) (hQ.plain (by decide))
    refine ⟨unit '[' :: (w ++ [unit ']']), by simp,
      hQ.append (s := [unit '[']) (hQ.plain (by decide)) hempty, fun fuel rest hfuel _ => ?_⟩
    obtain ⟨fuel, rfl⟩ : ∃ k, fuel = k + 1 := ⟨fuel - 1, by simp at hfuel; omega⟩
    rw [List.cons_append, readValue, skip_cons (by decide), List.append_assoc,
      List.singleton_append]
    dsimp only
    rw [if_neg (by decide), if_pos rfl, hw.expect, expect_token (by decide)]
  · simp only [Option.bind_eq_bind, Option.bind_eq_some_iff, Option.pure_def,
      Option.some.injEq, Prod.exists, Prod.mk.injEq] at h
    obtain ⟨vs, r', hread, rfl, rfl⟩ := h
    obtain ⟨t, rfl, hQt, ht⟩ := hitems _ _ _ hread
    refine ⟨unit '[' :: t, rfl, hQ.append (s := [unit '[']) (hQ.plain (by decide)) hQt,
      fun fuel rest hfuel _ => ?_⟩
    obtain ⟨fuel, rfl⟩ : ∃ k, fuel = k + 1 := ⟨fuel - 1, by simp at hfuel; omega⟩
    have hagain := ht fuel rest (by simp at hfuel; omega)
    rw [List.cons_append, readValue, skip_cons (by decide)]
    dsimp only
    rw [if_neg (by decide), if_pos rfl, (opens_of_readItems hagain).expect (.inl rfl)]
    simp only [Option.bind_eq_bind, hagain, Option.bind_some]
    rfl

theorem object_consumes (hQ : Lexical Q) {fuel : Nat} (hmembers : MembersConsumed toNumber Q fuel)
    {rest r : Text} {v : Json}
    (h : readValue toNumber (fuel + 1) (unit '{' :: rest) = some (v, r)) :
    ∃ t, rest = t ++ unit '}' :: r ∧ Q t ∧ ∀ fuel rest, 2 * (t.length + 2) ≤ fuel →
      readValue toNumber fuel (unit '{' :: (t ++ unit '}' :: rest)) = some (v, rest) := by
  rw [readValue, skip_cons (by decide)] at h
  dsimp only at h
  rw [if_neg (by decide), if_neg (by decide), if_pos rfl] at h
  split at h
  · rename_i r' hclose
    obtain ⟨w, hw, rfl⟩ := (expect_eq_some_iff (by decide)).mp hclose
    obtain ⟨rfl, rfl⟩ := Prod.mk.inj (Option.some.inj h)
    refine ⟨w, rfl, hQ.blank hw, fun fuel rest hfuel => ?_⟩
    obtain ⟨fuel, rfl⟩ : ∃ k, fuel = k + 1 := ⟨fuel - 1, by omega⟩
    rw [readValue, skip_cons (by decide)]
    dsimp only
    rw [if_neg (by decide), if_neg (by decide), if_pos rfl, hw.expect, expect_token (by decide)]
  · simp only [Option.bind_eq_bind, Option.bind_eq_some_iff, Option.pure_def,
      Option.some.injEq, Prod.exists, Prod.mk.injEq] at h
    obtain ⟨ms, r', hread, rfl, rfl⟩ := h
    obtain ⟨t, rfl, hQt, ht⟩ := hmembers _ _ _ hread
    refine ⟨t, rfl, hQt, fun fuel rest hfuel => ?_⟩
    obtain ⟨fuel, rfl⟩ : ∃ k, fuel = k + 1 := ⟨fuel - 1, by omega⟩
    have hagain := ht fuel rest (by omega)
    rw [readValue, skip_cons (by decide)]
    dsimp only
    rw [if_neg (by decide), if_neg (by decide), if_pos rfl,
      (opens_of_readMembers hagain).expect (.inr rfl)]
    simp only [Option.bind_eq_bind, hagain, Option.bind_some]
    rfl

theorem readValue_consumes (hQ : Lexical Q) {fuel : Nat}
    (hitems : ItemsConsumed toNumber Q fuel) (hmembers : MembersConsumed toNumber Q fuel) :
    ValueConsumed toNumber Q (fuel + 1) := by
  intro s v r h
  obtain ⟨w, hw, hs⟩ := skip_eq_append s
  rw [← readValue_skip] at h
  have hcore : ∃ t, skip s = t ++ r ∧ Q t ∧ Reads toNumber t v := by
    obtain ⟨u, rest, hskip, -, -⟩ := opens_of_readValue h
    have hspace := skip_skip s
    rw [hspace] at hskip
    rw [hskip] at h hspace ⊢
    by_cases hquote : u = unit '"'
    · subst hquote
      exact string_consumes hQ h
    by_cases hbracket : u = unit '['
    · subst hbracket
      exact array_consumes hQ hitems h
    by_cases hbrace : u = unit '{'
    · subst hbrace
      obtain ⟨t, rfl, hQt, hreads⟩ := object_consumes hQ hmembers h
      refine ⟨unit '{' :: (t ++ [unit '}']), by simp, hQ.braces hQt, fun fuel rest hfuel _ => ?_⟩
      have hagain := hreads fuel rest (by simpa using hfuel)
      simpa using hagain
    -- what is left is a word or a number
    rw [readValue, hspace] at h
    dsimp only at h
    rw [if_neg hquote, if_neg hbracket, if_neg hbrace] at h
    split at h
    · exact readWord_consumes hQ (by decide) rfl (by decide) h
    split at h
    · exact readWord_consumes hQ (by decide) rfl (by decide) h
    split at h
    · exact readWord_consumes hQ (by decide) rfl (by decide) h
    · exact readNumber_consumes hQ h
  obtain ⟨t, hskip, hQt, hreads⟩ := hcore
  exact ⟨w ++ t, by rw [hs, hskip, List.append_assoc], hQ.append (hQ.blank hw) hQt, hreads.lead hw⟩

theorem readItems_consumes (hQ : Lexical Q) {fuel : Nat}
    (hvalue : ValueConsumed toNumber Q fuel) (hitems : ItemsConsumed toNumber Q fuel) :
    ItemsConsumed toNumber Q (fuel + 1) := by
  intro s vs r h
  rw [readItems] at h
  simp only [Option.bind_eq_bind, Option.bind_eq_some_iff, Prod.exists] at h
  obtain ⟨v, r', hread, h⟩ := h
  obtain ⟨t, rfl, hQt, hreads⟩ := hvalue _ _ _ hread
  split at h
  · rename_i rest hcomma
    obtain ⟨w, hw, rfl⟩ := (expect_eq_some_iff (by decide)).mp hcomma
    simp only [Option.bind_eq_some_iff, Option.pure_def, Option.some.injEq, Prod.exists,
      Prod.mk.injEq] at h
    obtain ⟨us, r', hrest, rfl, rfl⟩ := h
    obtain ⟨t', rfl, hQt', ht'⟩ := hitems _ _ _ hrest
    have hsep : Q (w ++ [unit ',']) := hQ.append (hQ.blank hw) (hQ.plain (by decide))
    refine ⟨t ++ (w ++ [unit ','] ++ t'), by simp, hQ.append hQt (hQ.append hsep hQt'),
      fun fuel rest hfuel => ?_⟩
    simp only [List.length_append, List.length_singleton] at hfuel
    obtain ⟨fuel, rfl⟩ : ∃ k, fuel = k + 1 := ⟨fuel - 1, by omega⟩
    have hvalue' := hreads fuel (w ++ unit ',' :: (t' ++ rest)) (by omega)
      (ends_blank hw (ends_token (by decide) _))
    have htext : t ++ (w ++ [unit ','] ++ t') ++ rest = t ++ (w ++ unit ',' :: (t' ++ rest)) := by
      simp
    rw [htext, readItems, hvalue']
    simp only [Option.bind_eq_bind, Option.bind_some, hw.expect, expect_token
      (show isSpace (unit ',') = false by decide), ht' fuel rest (by omega)]
    rfl
  · rename_i hcomma
    simp only [Option.bind_eq_some_iff, Option.pure_def, Option.some.injEq, Prod.mk.injEq] at h
    obtain ⟨r', hclose, rfl, rfl⟩ := h
    obtain ⟨w, hw, rfl⟩ := (expect_eq_some_iff (by decide)).mp hclose
    have hend : Q (w ++ [unit ']']) := hQ.append (hQ.blank hw) (hQ.plain (by decide))
    refine ⟨t ++ (w ++ [unit ']']), by simp, hQ.append hQt hend, fun fuel rest hfuel => ?_⟩
    simp only [List.length_append, List.length_singleton] at hfuel
    obtain ⟨fuel, rfl⟩ : ∃ k, fuel = k + 1 := ⟨fuel - 1, by omega⟩
    have hvalue' := hreads fuel (w ++ unit ']' :: rest) (by omega)
      (ends_blank hw (ends_token (by decide) _))
    have htext : t ++ (w ++ [unit ']']) ++ rest = t ++ (w ++ unit ']' :: rest) := by simp
    rw [htext, readItems, hvalue']
    simp only [Option.bind_eq_bind, Option.bind_some, hw.expect, expect_token
      (show isSpace (unit ']') = false by decide)]
    rw [expect_cons _ (by decide), if_neg (by decide)]
    rfl

private def moreMembers (toNumber : Text → Num) (fuel : Nat) (m : Text × Json) (rest : Text) :
    Option (List (Text × Json) × Text) :=
  match expect ',' rest with
  | some r => (readMembers toNumber fuel r).bind fun p => some (m :: p.1, p.2)
  | none => (expect '}' rest).bind fun rest => some ([m], rest)

theorem readMembers_consumes (hQ : Lexical Q) {fuel : Nat}
    (hvalue : ValueConsumed toNumber Q fuel) (hmembers : MembersConsumed toNumber Q fuel) :
    MembersConsumed toNumber Q (fuel + 1) := by
  intro s ms r h
  rw [readMembers] at h
  simp only [Option.bind_eq_bind, Option.bind_eq_some_iff, Prod.exists] at h
  obtain ⟨r₁, hquote, k, r₂, hkey, r₃, hcolon, v, r₄, hread, h⟩ := h
  obtain ⟨w, hw, rfl⟩ := (expect_eq_some_iff (by decide)).mp hquote
  obtain ⟨b, rfl, hb⟩ := readString_consumes hkey
  obtain ⟨w', hw', rfl⟩ := (expect_eq_some_iff (by decide)).mp hcolon
  obtain ⟨t, rfl, hQt, hreads⟩ := hvalue _ _ _ hread
  -- the name, its colon and the value
  have hname : Q (w ++ unit '"' :: b) := hQ.append (hQ.blank hw) (hQ.string (by simpa using hb []))
  have hsep : Q (w' ++ [unit ':']) := hQ.append (hQ.blank hw') (hQ.plain (by decide))
  have hmember : Q (w ++ unit '"' :: b ++ (w' ++ [unit ':']) ++ t) :=
    hQ.append (hQ.append hname hsep) hQt
  have hstart : ∀ fuel rest, 2 * t.length ≤ fuel → Stops rest →
      readMembers toNumber (fuel + 1) (w ++ unit '"' :: b ++ (w' ++ [unit ':']) ++ t ++ rest) =
        moreMembers toNumber fuel (k, v) rest := by
    intro fuel rest hfuel hrest
    have htext : w ++ unit '"' :: b ++ (w' ++ [unit ':']) ++ t ++ rest =
        w ++ unit '"' :: (b ++ (w' ++ unit ':' :: (t ++ rest))) := by simp
    rw [htext, readMembers, hw.expect, expect_token (by decide)]
    simp only [Option.bind_eq_bind, Option.bind_some, hb, hw'.expect, expect_token
      (show isSpace (unit ':') = false by decide), hreads fuel rest hfuel hrest]
    rfl
  split at h
  · rename_i rest hcomma
    obtain ⟨x, hx, rfl⟩ := (expect_eq_some_iff (by decide)).mp hcomma
    simp only [Option.bind_eq_some_iff, Option.pure_def, Option.some.injEq, Prod.exists,
      Prod.mk.injEq] at h
    obtain ⟨ns, r', hrest, rfl, rfl⟩ := h
    obtain ⟨t', rfl, hQt', ht'⟩ := hmembers _ _ _ hrest
    have hcommaQ : Q (x ++ [unit ',']) := hQ.append (hQ.blank hx) (hQ.plain (by decide))
    refine ⟨w ++ unit '"' :: b ++ (w' ++ [unit ':']) ++ t ++ (x ++ [unit ','] ++ t'), by simp,
      hQ.append hmember (hQ.append hcommaQ hQt'), fun fuel rest hfuel => ?_⟩
    simp only [List.length_append, List.length_cons, List.length_nil] at hfuel
    obtain ⟨fuel, rfl⟩ : ∃ k, fuel = k + 1 := ⟨fuel - 1, by omega⟩
    have hstops : Stops (x ++ unit ',' :: (t' ++ unit '}' :: rest)) :=
      ends_blank hx (ends_token (by decide) _)
    have hagain := hstart fuel _ (by omega) hstops
    rw [moreMembers, hx.expect, expect_token (by decide)] at hagain
    simp only [ht' fuel rest (by omega), Option.bind_some] at hagain
    rw [← hagain]
    simp
  · simp only [Option.bind_eq_some_iff, Option.pure_def, Option.some.injEq, Prod.mk.injEq] at h
    obtain ⟨r', hclose, rfl, rfl⟩ := h
    obtain ⟨x, hx, rfl⟩ := (expect_eq_some_iff (by decide)).mp hclose
    refine ⟨w ++ unit '"' :: b ++ (w' ++ [unit ':']) ++ t ++ x, by simp,
      hQ.append hmember (hQ.blank hx), fun fuel rest hfuel => ?_⟩
    simp only [List.length_append, List.length_cons, List.length_nil] at hfuel
    obtain ⟨fuel, rfl⟩ : ∃ k, fuel = k + 1 := ⟨fuel - 1, by omega⟩
    have hstops : Stops (x ++ unit '}' :: rest) := ends_blank hx (ends_token (by decide) _)
    have hagain := hstart fuel _ (by omega) hstops
    rw [moreMembers, expect_other (by decide) (by decide) hx, hx.expect,
      expect_token (by decide)] at hagain
    simp only [Option.bind_some] at hagain
    rw [← hagain]
    simp

theorem consumed (hQ : Lexical Q) (fuel : Nat) :
    ValueConsumed toNumber Q fuel ∧ ItemsConsumed toNumber Q fuel ∧
      MembersConsumed toNumber Q fuel := by
  induction fuel with
  | zero =>
    refine ⟨fun s v r h => ?_, fun s vs r h => ?_, fun s ms r h => ?_⟩
    · exact absurd h (by simp [readValue])
    · exact absurd h (by simp [readItems])
    · exact absurd h (by simp [readMembers])
  | succ fuel ih =>
    obtain ⟨hvalue, hitems, hmembers⟩ := ih
    exact ⟨readValue_consumes hQ hitems hmembers, readItems_consumes hQ hvalue hitems,
      readMembers_consumes hQ hvalue hmembers⟩

theorem brace_of_readValue {fuel : Nat} {s r : Text} {ms : List (Text × Json)}
    (h : readValue toNumber (fuel + 1) s = some (.obj ms, r)) : ∃ rest, skip s = unit '{' :: rest := by
  obtain ⟨u, rest, hskip, -, -⟩ := opens_of_readValue h
  rw [readValue, hskip] at h
  dsimp only at h
  split at h
  · simp [Option.bind_eq_some_iff] at h
  split at h
  · split at h
    · simp at h
    · simp [Option.bind_eq_some_iff] at h
  split at h
  · rename_i hu
    exact ⟨rest, by rw [hskip, hu]⟩
  -- words and numbers are scalars
  have hword : ∀ word a s, readWord word a s ≠ some (.obj ms, r) := by
    intro word a s hword
    unfold readWord at hword
    split at hword <;> simp at hword
  split at h
  · exact absurd h (hword _ _ _)
  split at h
  · exact absurd h (hword _ _ _)
  split at h
  · exact absurd h (hword _ _ _)
  unfold readNumber at h
  split at h <;> simp at h

/-- An object that is read is the text between two braces, after white space. -/
theorem object_span (hQ : Lexical Q) {fuel : Nat} {s r : Text} {ms : List (Text × Json)}
    (h : readValue toNumber fuel s = some (.obj ms, r)) :
    ∃ w t, Blank w ∧ s = w ++ unit '{' :: (t ++ unit '}' :: r) ∧ Q t ∧
      ∀ fuel rest, 2 * (t.length + 2) ≤ fuel →
        readValue toNumber fuel (unit '{' :: (t ++ unit '}' :: rest)) = some (.obj ms, rest) := by
  obtain ⟨w, hw, hs⟩ := skip_eq_append s
  rw [← readValue_skip] at h
  cases fuel with
  | zero => exact absurd h (by simp [readValue])
  | succ fuel =>
    obtain ⟨rest, hrest⟩ := brace_of_readValue h
    rw [skip_skip] at hrest
    rw [hrest] at h hs
    obtain ⟨t, rfl, hQt, hreads⟩ := object_consumes hQ (consumed hQ fuel).2.2 h
    exact ⟨w, t, hw, hs, hQt, hreads⟩

end OpenRupiv.Js
