import OpenRupiv.Js.Json

/-!
# `JSON.stringify`

The text of a value without indentation.  A surrogate pair is printed as the one character it
encodes and a lone surrogate as an escape, so the text is always well formed.  What is printed
determines the value up to the order of members, the sign of zero, and infinities, which are
printed as `null`.
-/

namespace OpenRupiv.Js

def hexChar (n : Nat) : Char := Char.ofNat (if n < 10 then 48 + n else 87 + n)

def unicodeEscape (u : UInt16) : List Char :=
  ['\\', 'u', hexChar (u.toNat / 4096), hexChar (u.toNat / 256 % 16), hexChar (u.toNat / 16 % 16),
    hexChar (u.toNat % 16)]

/-- A code unit outside a surrogate pair. -/
def quoteUnit (u : UInt16) : List Char :=
  if u = 8 then ['\\', 'b']
  else if u = 9 then ['\\', 't']
  else if u = 10 then ['\\', 'n']
  else if u = 12 then ['\\', 'f']
  else if u = 13 then ['\\', 'r']
  else if u = 34 then ['\\', '"']
  else if u = 92 then ['\\', '\\']
  else if u.toNat < 32 || isHigh u || isLow u then unicodeEscape u
  else [Char.ofNat u.toNat]

def quoteBody : Text → List Char
  | [] => []
  | [u] => quoteUnit u
  | u :: v :: rest =>
      if isHigh u && isLow v then Char.ofNat (pairCode u v) :: quoteBody rest
      else quoteUnit u ++ quoteBody (v :: rest)

/-- `QuoteJSONString`. -/
def quote (s : Text) : List Char := '"' :: (quoteBody s ++ ['"'])

/-- `JSON.stringify` of a string. -/
def jsonText (s : Text) : Text := ofString (String.ofList (quote s))

/-- `JSON.stringify` of an array of strings. -/
def jsonTexts (ss : List String) : Text :=
  ofString "[" ++ (ofString ",").intercalate (ss.map fun s => jsonText (ofString s)) ++ ofString "]"

private def hexVal (c : Char) : Nat := if c.toNat < 58 then c.toNat - 48 else c.toNat - 87

private def unescape (c : Char) : UInt16 :=
  if c = 'b' then 8 else if c = 't' then 9 else if c = 'n' then 10 else if c = 'f' then 12
  else if c = 'r' then 13 else if c = '"' then 34 else 92

private def unquote : List Char → Text × List Char
  | [] => ([], [])
  | c :: r =>
      if c = '"' then ([], r)
      else if c = '\\' then
        match r with
        | [] => ([], [])
        | e :: r =>
            if e = 'u' then
              match r with
              | a :: b :: c :: d :: r =>
                  (UInt16.ofNat (4096 * hexVal a + 256 * hexVal b + 16 * hexVal c + hexVal d) ::
                    (unquote r).1, (unquote r).2)
              | _ => ([], [])
            else (unescape e :: (unquote r).1, (unquote r).2)
      else (utf16 c ++ (unquote r).1, (unquote r).2)

private theorem hexVal_hexChar {n : Nat} (h : n < 16) : hexVal (hexChar n) = n := by
  have key : ∀ n < 16, hexVal (hexChar n) = n := by decide
  exact key n h

private theorem unquote_unicodeEscape (u : UInt16) (r : List Char) :
    unquote (unicodeEscape u ++ r) = (u :: (unquote r).1, (unquote r).2) := by
  have hu : u.toNat < 65536 := u.toNat_lt
  have hval : 4096 * (u.toNat / 4096) + 256 * (u.toNat / 256 % 16) + 16 * (u.toNat / 16 % 16) +
      u.toNat % 16 = u.toNat := by omega
  simp only [unicodeEscape, List.cons_append, List.nil_append]
  rw [unquote, if_neg (by decide), if_pos rfl]
  simp only [if_true]
  rw [hexVal_hexChar (by omega), hexVal_hexChar (by omega), hexVal_hexChar (by omega),
    hexVal_hexChar (by omega), hval, UInt16.ofNat_toNat]

private theorem unquote_close (r : List Char) : unquote ('"' :: r) = ([], r) := by
  rw [unquote.eq_def]
  simp only [if_true]

private theorem unquote_escape (e : Char) (he : e ≠ 'u') (r : List Char) :
    unquote ('\\' :: e :: r) = (unescape e :: (unquote r).1, (unquote r).2) := by
  rw [unquote.eq_def]
  simp only [he, if_false, if_true]
  rw [if_neg (by decide)]

private theorem unquote_char (c : Char) (hq : c ≠ '"') (hb : c ≠ '\\') (r : List Char) :
    unquote (c :: r) = (utf16 c ++ (unquote r).1, (unquote r).2) := by
  rw [unquote.eq_def]
  simp only [hq, hb, if_false]

theorem toNat_charOfNat {n : Nat} (h : n.isValidChar) : (Char.ofNat n).toNat = n := by
  unfold Char.ofNat
  rw [dif_pos h]
  rfl

private theorem charOfNat_ne {n : Nat} (h : n.isValidChar) {c : Char} (hc : n ≠ c.toNat) :
    Char.ofNat n ≠ c := by
  rintro rfl
  exact hc (toNat_charOfNat h).symm

private theorem unquote_quoteUnit (u : UInt16) (r : List Char) :
    unquote (quoteUnit u ++ r) = (u :: (unquote r).1, (unquote r).2) := by
  have hesc : ∀ e : Char, e ≠ 'u' → unescape e = u →
      unquote (['\\', e] ++ r) = (u :: (unquote r).1, (unquote r).2) := by
    intro e he hu
    rw [← hu]
    exact unquote_escape e he r
  unfold quoteUnit
  split
  · exact hesc 'b' (by decide) (by simp_all [unescape])
  · split
    · exact hesc 't' (by decide) (by simp_all [unescape])
    · split
      · exact hesc 'n' (by decide) (by simp_all [unescape])
      · split
        · exact hesc 'f' (by decide) (by simp_all [unescape])
        · split
          · exact hesc 'r' (by decide) (by simp_all [unescape])
          · split
            · exact hesc '"' (by decide) (by simp_all [unescape])
            · split
              · exact hesc '\\' (by decide) (by simp_all [unescape])
              · split
                · exact unquote_unicodeEscape u r
                · -- a plain unit, neither a quote nor a backslash
                  rename_i hq hb hplain
                  have hq' : u.toNat ≠ 34 := fun h => hq (UInt16.toNat_inj.mp h)
                  have hb' : u.toNat ≠ 92 := fun h => hb (UInt16.toNat_inj.mp h)
                  have hu : u.toNat < 65536 := u.toNat_lt
                  simp only [isHigh, isLow, Bool.or_eq_true, decide_eq_true_eq, Bool.and_eq_true,
                    not_or, not_and, not_lt] at hplain
                  have hvalid : u.toNat.isValidChar := by
                    unfold Nat.isValidChar
                    omega
                  rw [List.singleton_append, unquote_char _ (charOfNat_ne hvalid hq')
                    (charOfNat_ne hvalid hb')]
                  simp only [utf16, toNat_charOfNat hvalid]
                  rw [if_pos (by omega), UInt16.ofNat_toNat]
                  rfl

private theorem unquote_pair {u v : UInt16} (hu : isHigh u = true) (hv : isLow v = true)
    (r : List Char) : unquote (Char.ofNat (pairCode u v) :: r) =
      (u :: v :: (unquote r).1, (unquote r).2) := by
  simp only [isHigh, isLow, Bool.and_eq_true, decide_eq_true_eq] at hu hv
  have hvalid : (pairCode u v).isValidChar := by
    unfold Nat.isValidChar pairCode
    omega
  have hhi : 0xD800 + (pairCode u v - 0x10000) / 0x400 = u.toNat := by
    unfold pairCode
    omega
  have hlo : 0xDC00 + (pairCode u v - 0x10000) % 0x400 = v.toNat := by
    unfold pairCode
    omega
  have hbig : 0x10000 ≤ pairCode u v := by
    unfold pairCode
    omega
  have hne : ∀ c : Char, c.toNat < 0x10000 → pairCode u v ≠ c.toNat := fun c hc h => by omega
  rw [unquote_char _ (charOfNat_ne hvalid (hne _ (by decide)))
    (charOfNat_ne hvalid (hne _ (by decide)))]
  rw [utf16, toNat_charOfNat hvalid, if_neg (by omega), hhi, hlo, UInt16.ofNat_toNat,
    UInt16.ofNat_toNat]
  rfl

private theorem unquote_quoteBody (s : Text) (r : List Char) :
    unquote (quoteBody s ++ '"' :: r) = (s, r) := by
  induction s using quoteBody.induct with
  | case1 =>
    rw [quoteBody, List.nil_append, unquote_close]
  | case2 u =>
    rw [quoteBody, unquote_quoteUnit, unquote_close]
  | case3 u v rest h ih =>
    rw [Bool.and_eq_true] at h
    rw [quoteBody, if_pos (by simp [h]), List.cons_append, unquote_pair h.1 h.2, ih]
  | case4 u v rest h ih =>
    rw [quoteBody, if_neg h, List.append_assoc, unquote_quoteUnit, ih]

theorem quote_inj {s t : Text} {r r' : List Char} (h : quote s ++ r = quote t ++ r') :
    s = t ∧ r = r' := by
  have hbody : quoteBody s ++ '"' :: r = quoteBody t ++ '"' :: r' := by
    simpa [quote] using h
  have := congrArg unquote hbody
  rw [unquote_quoteBody, unquote_quoteBody] at this
  exact Prod.mk.inj this

def stringifyScalar : Scalar → List Char
  | .null => ['n', 'u', 'l', 'l']
  | .bool true => ['t', 'r', 'u', 'e']
  | .bool false => ['f', 'a', 'l', 's', 'e']
  | .num n => n.stringify
  | .str s => quote s

def separated : List (List Char) → List Char
  | [] => []
  | t :: ts => t ++ ts.flatMap fun t => ',' :: t

def member (m : Text × List Char) : List Char := quote m.1 ++ ':' :: m.2

/-- `JSON.stringify(v)`. -/
def stringify : Json → List Char :=
  Json.fold stringifyScalar (fun items => '[' :: (separated items ++ [']']))
    fun ms => '{' :: (separated ((ownEntries ms).map member) ++ ['}'])

def Scalar.printed : Scalar → Scalar
  | .num (.infinite _) => .null
  | .num n => .num n.unsigned
  | s => s

/-- The scalar with the sign of zero forgotten. -/
def Scalar.unsigned : Scalar → Scalar
  | .num n => .num n.unsigned
  | s => s

/-- The scalar with infinities read as `null`. -/
def Scalar.finite : Scalar → Scalar
  | .num (.infinite _) => .null
  | s => s

theorem Scalar.unsigned_finite (s : Scalar) : s.finite.unsigned = s.printed := by
  cases s with
  | num n => cases n <;> rfl
  | _ => rfl

@[simp] theorem Scalar.printed_printed (s : Scalar) : s.printed.printed = s.printed := by
  cases s with
  | num n => cases n <;> rfl
  | _ => rfl

@[simp] theorem Scalar.printed_str (s : Text) : (Scalar.str s).printed = .str s := rfl

@[simp] theorem Scalar.printed_ofInt (n : Int) :
    (Scalar.num (.ofInt n)).printed = .num (.ofInt n) := by
  unfold Num.ofInt
  split <;> rfl

private def render : Json → List Char :=
  Json.fold stringifyScalar (fun items => '[' :: (separated items ++ [']']))
    fun ms => '{' :: (separated (ms.map member) ++ ['}'])

/-- `s` does not continue a number. -/
private def Ends (s : List Char) : Prop := ∀ c ∈ s.head?, isNumChar c = false

private theorem num_text {n : Num} (h : n.isFinite = true) :
    ∃ c cs, n.stringify = c :: cs ∧ isNumChar c = true := by
  obtain ⟨hne, hall⟩ := n.stringify_chars h
  cases hn : n.stringify with
  | nil => exact absurd hn hne
  | cons c cs => exact ⟨c, cs, rfl, hall c (by simp [hn])⟩

private theorem num_text_inj {n m : Num} (hn : n.isFinite = true) (hm : m.isFinite = true)
    {s t : List Char} (hs : Ends s) (ht : Ends t) (h : n.stringify ++ s = m.stringify ++ t) :
    n.unsigned = m.unsigned ∧ s = t := by
  have htake : ∀ {n : Num} {s : List Char}, n.isFinite = true → Ends s →
      (n.stringify ++ s).takeWhile isNumChar = n.stringify := by
    intro n s hn hs
    rw [List.takeWhile_append_of_pos (n.stringify_chars hn).2]
    cases s with
    | nil => simp
    | cons c cs => simp [hs c (by simp)]
  have htext : n.stringify = m.stringify := by
    rw [← htake hn hs, h, htake hm ht]
  rw [htext] at h
  exact ⟨(Num.stringify_eq_iff hn hm).mp htext, List.append_cancel_left h⟩

private theorem Scalar.printed_cases (a : Scalar) :
    (a.printed = .null ∧ stringifyScalar a = ['n', 'u', 'l', 'l']) ∨
    (a.printed = .bool true ∧ stringifyScalar a = ['t', 'r', 'u', 'e']) ∨
    (a.printed = .bool false ∧ stringifyScalar a = ['f', 'a', 'l', 's', 'e']) ∨
    (∃ n : Num, n.isFinite = true ∧ a.printed = .num n.unsigned ∧
      stringifyScalar a = n.stringify) ∨
    ∃ s, a.printed = .str s ∧ stringifyScalar a = quote s := by
  cases a with
  | null => simp [printed, stringifyScalar]
  | bool b => cases b <;> simp [printed, stringifyScalar]
  | num n =>
    cases n with
    | infinite neg => exact .inl ⟨rfl, rfl⟩
    | zero neg => exact .inr (.inr (.inr (.inl ⟨_, rfl, rfl, rfl⟩)))
    | finite d => exact .inr (.inr (.inr (.inl ⟨_, rfl, rfl, rfl⟩)))
  | str s => simp [printed, stringifyScalar]

/-- The kinds of scalar texts; the first character tells them apart. -/
private inductive Kind
  | null | true | false | num | str
  deriving DecidableEq

private def kind (c : Char) : Kind :=
  if c = 'n' then .null else if c = 't' then .true else if c = 'f' then .false
  else if c = '"' then .str else .num

private def Scalar.kind : Scalar → Kind
  | .null => .null
  | .bool true => .true
  | .bool false => .false
  | .num _ => .num
  | .str _ => .str

private theorem kind_num {c : Char} (h : isNumChar c = true) : kind c = .num := by
  have hne : ∀ d : Char, isNumChar d = false → c ≠ d := by
    rintro d hd rfl
    rw [h] at hd
    exact absurd hd (by decide)
  unfold kind
  rw [if_neg (hne 'n' (by decide)), if_neg (hne 't' (by decide)), if_neg (hne 'f' (by decide)),
    if_neg (hne '"' (by decide))]

private theorem kind_head (a : Scalar) (s : List Char) :
    (stringifyScalar a ++ s).head?.map kind = some a.printed.kind := by
  obtain ⟨pa, ta⟩ | ⟨pa, ta⟩ | ⟨pa, ta⟩ | ⟨n, hn, pa, ta⟩ | ⟨x, pa, ta⟩ := a.printed_cases
  case inr.inr.inr.inl =>
    obtain ⟨c, cs, hc, hk⟩ := num_text hn
    rw [pa, ta, hc]
    simp [kind_num hk, Scalar.kind]
  all_goals
    rw [pa, ta]
    rfl

private theorem stringifyScalar_inj {a b : Scalar} {s t : List Char} (hs : Ends s) (ht : Ends t)
    (h : stringifyScalar a ++ s = stringifyScalar b ++ t) : a.printed = b.printed ∧ s = t := by
  have hkind : a.printed.kind = b.printed.kind := by
    have := kind_head a s
    rw [h, kind_head b t] at this
    exact (Option.some.inj this).symm
  obtain ⟨pa, ta⟩ | ⟨pa, ta⟩ | ⟨pa, ta⟩ | ⟨n, hn, pa, ta⟩ | ⟨x, pa, ta⟩ := a.printed_cases <;>
    obtain ⟨pb, tb⟩ | ⟨pb, tb⟩ | ⟨pb, tb⟩ | ⟨m, hm, pb, tb⟩ | ⟨y, pb, tb⟩ := b.printed_cases <;>
    rw [pa, pb] at hkind <;> try cases hkind
  all_goals rw [ta, tb] at h
  case inr.inr.inr.inl.inr.inr.inr.inl =>
    obtain ⟨hu, hst⟩ := num_text_inj hn hm hs ht h
    rw [pa, pb, hu]
    exact ⟨rfl, hst⟩
  case inr.inr.inr.inr.inr.inr.inr.inr =>
    obtain ⟨hu, hst⟩ := quote_inj h
    rw [pa, pb, hu]
    exact ⟨rfl, hst⟩
  all_goals
    rw [pa, pb]
    exact ⟨rfl, List.append_cancel_left h⟩

private theorem flatMap_comma_inj {α γ : Type} {enc : α → List Char} {norm : α → γ} {close : Char}
    (hclose : isNumChar close = false) (hcomma : close ≠ ',') {xs : List α}
    (hx : ∀ x ∈ xs, ∀ y s t, Ends s → Ends t → enc x ++ s = enc y ++ t → norm x = norm y ∧ s = t)
    {ys : List α} {s t : List Char}
    (h : (xs.map enc).flatMap (fun u => ',' :: u) ++ close :: s =
      (ys.map enc).flatMap (fun u => ',' :: u) ++ close :: t) :
    xs.map norm = ys.map norm ∧ s = t := by
  -- whatever follows an item is a comma or the closing bracket
  have hends : ∀ (zs : List α) (r : List Char),
      Ends ((zs.map enc).flatMap (fun u => ',' :: u) ++ close :: r) := by
    intro zs r c hc
    cases zs with
    | nil =>
      have : close = c := by simpa using hc
      exact this ▸ hclose
    | cons z zs =>
      have : ',' = c := by simpa using hc
      exact this ▸ (by decide)
  induction xs generalizing ys with
  | nil =>
    cases ys with
    | nil =>
      simp only [List.map_nil, List.flatMap_nil, List.nil_append, List.cons.injEq, true_and] at h
      exact ⟨rfl, h⟩
    | cons y ys =>
      simp only [List.map_nil, List.flatMap_nil, List.nil_append, List.map_cons, List.flatMap_cons,
        List.cons_append, List.cons.injEq] at h
      exact absurd h.1 hcomma
  | cons x xs ih =>
    cases ys with
    | nil =>
      simp only [List.map_nil, List.flatMap_nil, List.nil_append, List.map_cons, List.flatMap_cons,
        List.cons_append, List.cons.injEq] at h
      exact absurd h.1.symm hcomma
    | cons y ys =>
      simp only [List.map_cons, List.flatMap_cons, List.cons_append, List.append_assoc,
        List.cons.injEq, true_and] at h
      obtain ⟨hxy, hrest⟩ := hx x (by simp) y _ _ (hends xs s) (hends ys t) h
      obtain ⟨hmap, hst⟩ := ih (fun x' hx' => hx x' (by simp [hx'])) hrest
      exact ⟨by rw [List.map_cons, List.map_cons, hxy, hmap], hst⟩

private theorem separated_inj {α γ : Type} {enc : α → List Char} {norm : α → γ} {close : Char}
    (hclose : isNumChar close = false) (hcomma : close ≠ ',')
    (hhead : ∀ x r, (enc x ++ r).head? ≠ some close) {xs : List α}
    (hx : ∀ x ∈ xs, ∀ y s t, Ends s → Ends t → enc x ++ s = enc y ++ t → norm x = norm y ∧ s = t)
    {ys : List α} {s t : List Char}
    (h : separated (xs.map enc) ++ close :: s = separated (ys.map enc) ++ close :: t) :
    xs.map norm = ys.map norm ∧ s = t := by
  cases xs with
  | nil =>
    cases ys with
    | nil =>
      simp only [separated, List.map_nil, List.nil_append, List.cons.injEq, true_and] at h
      exact ⟨rfl, h⟩
    | cons y ys =>
      simp only [separated, List.map_nil, List.nil_append, List.map_cons, List.append_assoc] at h
      exact absurd (by rw [← h]; rfl) (hhead y _)
  | cons x xs =>
    cases ys with
    | nil =>
      simp only [separated, List.map_nil, List.nil_append, List.map_cons, List.append_assoc] at h
      exact absurd (by rw [h]; rfl) (hhead x _)
    | cons y ys =>
      -- with a comma in front both texts are runs of items
      have h' : ((x :: xs).map enc).flatMap (fun u => ',' :: u) ++ close :: s =
          ((y :: ys).map enc).flatMap (fun u => ',' :: u) ++ close :: t := by
        simpa [separated] using h
      exact flatMap_comma_inj hclose hcomma hx h'

@[simp] private theorem render_scalar (s : Scalar) : render (.scalar s) = stringifyScalar s := by
  simp [render]

private theorem render_arr (items : List Json) :
    render (.arr items) = '[' :: (separated (items.map render) ++ [']']) := by
  simp [render]

private theorem render_obj (ms : List (Text × Json)) :
    render (.obj ms) = '{' :: (separated (ms.map fun m => member (m.1, render m.2)) ++ ['}']) := by
  simp [render, mapValues, Function.comp_def]

private theorem scalar_ne_bracket (a : Scalar) (s r : List Char) (c : Char)
    (hc : c = '[' ∨ c = '{' ∨ c = ']') : stringifyScalar a ++ s ≠ c :: r := by
  intro h
  have hk := kind_head a s
  rw [h] at hk
  obtain ⟨pa, ta⟩ | ⟨pa, ta⟩ | ⟨pa, ta⟩ | ⟨n, hn, pa, ta⟩ | ⟨x, pa, ta⟩ := a.printed_cases
  case inr.inr.inr.inl =>
    obtain ⟨d, ds, hd, hk⟩ := num_text hn
    rw [ta, hd, List.cons_append, List.cons.injEq] at h
    rw [h.1] at hk
    obtain rfl | rfl | rfl := hc <;> exact absurd hk (by decide)
  all_goals
    rw [pa] at hk
    obtain rfl | rfl | rfl := hc <;> simp [kind, Scalar.kind] at hk

private theorem render_head_ne (v : Json) (r : List Char) : (render v ++ r).head? ≠ some ']' := by
  intro h
  cases v with
  | scalar a =>
    obtain ⟨t, ht⟩ : ∃ t, render (.scalar a) ++ r = ']' :: t := List.head?_eq_some_iff.mp h
    rw [render_scalar] at ht
    exact scalar_ne_bracket a r t ']' (by simp) ht
  | arr items => simp [render_arr] at h
  | obj ms => simp [render_obj] at h

private theorem render_inj (v : Json) : ∀ (w : Json) (s t : List Char), Ends s → Ends t →
    render v ++ s = render w ++ t → v.rebuild Scalar.printed .id = w.rebuild Scalar.printed .id ∧
      s = t := by
  induction v using Json.induct with
  | scalar a =>
    intro w s t hs ht h
    rw [render_scalar] at h
    cases w with
    | scalar b =>
      rw [render_scalar] at h
      obtain ⟨hab, hst⟩ := stringifyScalar_inj hs ht h
      exact ⟨by simp [hab], hst⟩
    | arr items =>
      rw [render_arr] at h
      exact absurd h (scalar_ne_bracket a s _ '[' (by simp))
    | obj ms =>
      rw [render_obj] at h
      exact absurd h (scalar_ne_bracket a s _ '{' (by simp))
  | arr items ih =>
    intro w s t hs ht h
    cases w with
    | scalar b =>
      rw [render_scalar, render_arr] at h
      exact absurd h.symm (scalar_ne_bracket b t _ '[' (by simp))
    | arr items' =>
      rw [render_arr, render_arr] at h
      simp only [List.cons_append, List.append_assoc, List.nil_append, List.cons.injEq,
        true_and] at h
      obtain ⟨hmap, hst⟩ := separated_inj (by decide) (by decide) render_head_ne
        (fun v hv w s t => ih v hv w s t) h
      exact ⟨by simp [hmap], hst⟩
    | obj ms =>
      rw [render_arr, render_obj] at h
      simp at h
  | obj ms ih =>
    intro w s t hs ht h
    cases w with
    | scalar b =>
      rw [render_scalar, render_obj] at h
      exact absurd h.symm (scalar_ne_bracket b t _ '{' (by simp))
    | arr items =>
      rw [render_arr, render_obj] at h
      simp at h
    | obj ns =>
      rw [render_obj, render_obj] at h
      simp only [List.cons_append, List.append_assoc, List.nil_append, List.cons.injEq,
        true_and] at h
      -- a member is its key, a colon and its value
      have hmember : ∀ m ∈ ms, ∀ (n : Text × Json) (s t : List Char), Ends s → Ends t →
          member (m.1, render m.2) ++ s = member (n.1, render n.2) ++ t →
            (m.1, m.2.rebuild Scalar.printed .id) = (n.1, n.2.rebuild Scalar.printed .id) ∧
              s = t := by
        intro m hm n s t hs ht h
        simp only [member, List.append_assoc] at h
        obtain ⟨hk, hv⟩ := quote_inj h
        simp only [List.cons_append, List.cons.injEq, true_and] at hv
        obtain ⟨hval, hst⟩ := ih m hm n.2 s t hs ht hv
        exact ⟨by rw [hk, hval], hst⟩
      obtain ⟨hmap, hst⟩ := separated_inj (by decide) (by decide)
        (by simp [member, quote]) hmember h
      refine ⟨?_, hst⟩
      rw [Json.rebuild_obj, Json.rebuild_obj]
      exact congrArg Json.obj hmap

private theorem stringify_eq_render (v : Json) : stringify v = render (v.rebuild id .own) := by
  induction v using Json.induct with
  | scalar a => simp [stringify]
  | arr items ih =>
    have hmap : items.map (render ∘ Json.rebuild id .own) = items.map stringify :=
      List.map_congr_left fun v hv => (ih v hv).symm
    rw [Json.rebuild_arr, render_arr, List.map_map, hmap]
    simp [stringify]
  | obj ms ih =>
    have hfold : mapValues stringify ms = mapValues (fun v => render (v.rebuild id .own)) ms :=
      mapValues_congr ih
    rw [Json.rebuild_obj, render_obj]
    rw [stringify, Json.fold_obj, ← stringify, hfold, ownEntries_mapValues]
    simp only [mapValues, List.map_map]
    rfl

private theorem render_printed (v : Json) : render (v.rebuild Scalar.printed .id) = render v := by
  induction v using Json.induct with
  | scalar a =>
    rw [Json.rebuild_scalar, render_scalar, render_scalar]
    cases a with
    | num n => cases n <;> rfl
    | _ => rfl
  | arr items ih =>
    have hmap : items.map (render ∘ Json.rebuild Scalar.printed .id) = items.map render :=
      List.map_congr_left ih
    rw [Json.rebuild_arr, render_arr, render_arr, List.map_map, hmap]
  | obj ms ih =>
    rw [Json.rebuild_obj, render_obj, render_obj]
    simp only [mapValues, List.map_map]
    congr 3
    refine List.map_congr_left fun m hm => ?_
    simp [ih m hm]

/-- Values that print alike read back alike: they differ in the order of members, the sign of zero
and infinities printed as `null`. -/
theorem stringify_injective {v w : Json} (hv : v.distinctKeys = true) (hw : w.distinctKeys = true)
    (h : stringify v = stringify w) :
    v.rebuild Scalar.printed .sorted = w.rebuild Scalar.printed .sorted := by
  have hends : Ends [] := by simp [Ends]
  rw [stringify_eq_render, stringify_eq_render] at h
  have hprint := (render_inj _ _ [] [] hends hends (by simpa using h)).1
  have hsort : ∀ {v : Json}, v.distinctKeys = true →
      ((v.rebuild id .own).rebuild Scalar.printed .id).rebuild id .sorted =
        v.rebuild Scalar.printed .sorted := by
    intro v hv
    rw [Json.rebuild_rebuild, Json.rebuild_rebuild]
    apply Json.rebuild_congr hv
    · intro s
      rfl
    · intro ms hms
      exact sortKeys_eq_of_perm (perm_ownEntries ms) (nodup_keys_perm (perm_ownEntries ms).symm hms)
  rw [← hsort hv, ← hsort hw, hprint]

/-- The text depends on the enumeration order and the printed scalars only. -/
theorem stringify_congr {v w : Json}
    (h : v.rebuild Scalar.printed .own = w.rebuild Scalar.printed .own) :
    stringify v = stringify w := by
  have key : ∀ v : Json, stringify v = render (v.rebuild Scalar.printed .own) := by
    intro v
    rw [stringify_eq_render, ← render_printed, Json.rebuild_rebuild]
    rfl
  rw [key v, key w, h]

end OpenRupiv.Js
