import OpenRupiv.Js.Json

/-!
# JSON Pointers

A pointer is empty or consists of reference tokens, each after a slash.  A token names a member of
an object or, written without leading zeros, an item of an array.
-/

namespace OpenRupiv.Js

/-- A token stands for a slash by `~1` and for a tilde by `~0`. -/
def unescapeToken : List Char → List Char
  | '~' :: '1' :: rest => '/' :: unescapeToken rest
  | '~' :: '0' :: rest => '~' :: unescapeToken rest
  | c :: rest => c :: unescapeToken rest
  | [] => []

def tokenIndex (token : String) : Option Nat :=
  let n := Nat.ofDigitChars 10 token.toList 0
  if toString n = token then some n else none

/-- What a token names in a value. -/
def child (v : Json) (token : String) : Option Json :=
  match v with
  | .scalar _ => none
  | .arr items => (tokenIndex token).bind fun i => items[i]?
  | .obj members => members.lookup (ofString token)

/-- From a value, token by token. -/
def follow (v : Json) (tokens : List (List Char)) : Option Json :=
  tokens.foldlM (fun v token => child v (String.ofList (unescapeToken token))) v

/-- The value that a pointer leads to. -/
def resolve (document : Json) (pointer : String) : Option Json :=
  match pointer.toList with
  | [] => some document
  | '/' :: rest => follow document (rest.splitOn '/')
  | _ => none

/-- The characters that need no escape in a token. -/
def plainToken (token : String) : Bool := token.toList.all fun c => c ≠ '/' && c ≠ '~'

theorem unescapeToken_eq_self {cs : List Char} (h : '~' ∉ cs) : unescapeToken cs = cs := by
  induction cs with
  | nil => rfl
  | cons c cs ih =>
    rw [List.mem_cons, not_or] at h
    rw [unescapeToken, ih h.2]
    · intro rest hc _
      exact h.1 hc.symm
    · intro rest hc _
      exact h.1 hc.symm

theorem resolve_of_slash {pointer : String} {rest : List Char} (h : pointer.toList = '/' :: rest)
    (document : Json) : resolve document pointer = follow document (rest.splitOn '/') := by
  rw [resolve, h]
  rfl

@[simp] theorem resolve_empty (document : Json) : resolve document "" = some document := rfl

theorem resolve_append {document v : Json} {pointer token : String}
    (h : resolve document pointer = some v) (hplain : plainToken token = true) :
    resolve document (pointer ++ "/" ++ token) = child v token := by
  simp only [plainToken, List.all_eq_true, Bool.and_eq_true, decide_eq_true_eq] at hplain
  have hslash : '/' ∉ token.toList := fun hmem => (hplain _ hmem).1 rfl
  have htilde : '~' ∉ token.toList := fun hmem => (hplain _ hmem).2 rfl
  have hlist : (pointer ++ "/" ++ token).toList = pointer.toList ++ '/' :: token.toList := by
    simp [String.toList_append]
  have hlast : String.ofList (unescapeToken token.toList) = token := by
    rw [unescapeToken_eq_self htilde, String.ofList_toList]
  have hfollow : ∀ w, follow w [token.toList] = child w token := by
    intro w
    rw [follow, List.foldlM_cons, hlast]
    exact bind_pure _
  cases hp : pointer.toList with
  | nil =>
    rw [hp, List.nil_append] at hlist
    rw [resolve, hp] at h
    rw [resolve_of_slash hlist, List.splitOn_eq_singleton hslash, hfollow, Option.some.inj h]
  | cons c rest =>
    by_cases hc : c = '/'
    · subst hc
      rw [resolve_of_slash hp] at h
      rw [hp, List.cons_append] at hlist
      rw [resolve_of_slash hlist, List.splitOn_append_cons_self, List.splitOn_eq_singleton hslash,
        follow, List.foldlM_append]
      have hlead : (rest.splitOn '/').foldlM
          (fun v token => child v (String.ofList (unescapeToken token))) document = some v := h
      rw [hlead]
      exact hfollow v
    · exfalso
      rw [resolve, hp] at h
      split at h
      · rename_i heq
        exact absurd heq (by simp)
      · rename_i heq
        exact hc (List.cons.inj heq).1
      · exact absurd h (by simp)

theorem tokenIndex_toString (n : Nat) : tokenIndex (toString n) = some n := by
  have hread : Nat.ofDigitChars 10 (toString n).toList 0 = n := by
    have hlist : (toString n).toList = Nat.toDigits 10 n := Nat.toList_repr
    rw [hlist, Nat.ofDigitChars_ten_toDigits]
  simp only [tokenIndex, hread, if_true]

theorem plainToken_toString (n : Nat) : plainToken (toString n) = true := by
  rw [plainToken, List.all_eq_true]
  intro c hc
  have hdigit : c.isDigit = true := by
    apply Nat.isDigit_of_mem_toDigits (b := 10) (by decide) (by decide)
    rw [← Nat.toList_repr]
    exact hc
  have hne : ∀ d : Char, d.isDigit = false → c ≠ d := by
    rintro d hd rfl
    rw [hdigit] at hd
    exact absurd hd (by simp)
  simp [hne '/' (by decide), hne '~' (by decide)]

end OpenRupiv.Js
