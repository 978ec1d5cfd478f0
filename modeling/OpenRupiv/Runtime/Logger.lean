import OpenRupiv.Audit.Chain
import OpenRupiv.Js.Heap

/-!
# The logger

`packages/runtime/src/logger.ts`.  Nothing is done with what `redact` returns but to spread it and
to print it, so a value that it returns is modelled by what `JSON.stringify` makes of it.

A line does not depend on the values under sensitive keys, except on those in the `code` and the
`statusCode` of an error, which `redact` keeps as they are.
-/

namespace OpenRupiv.Runtime.Logger

open Js Lib Heap

/-- `REDACT_KEY_PATTERN` -/
def isSensitiveKey (key : Text) : Bool :=
  let s := key.map Audit.foldCase
  ["token", "secret", "password", "passwd", "authorization", "cookie", "session", "credential",
    "apikey", "api-key", "api_key", "verifier", "assertion", "privatekey", "private-key",
    "private_key"].any fun word => Audit.containsText (ofString word) s

def MAX_DEPTH : Nat := 10

/-- A string, printed. -/
def text (s : Text) : Printed := some (some (.scalar (.str s)))

def REDACTED : Text := ofString "[REDACTED]"

variable {n : Nat}

/-- The entries of an object, redacted one after the other and assigned to a new one. -/
def redactMembers (redact : Value n → Option Printed) (members : List (Text × Value n)) :
    Option (List (Text × Printed)) :=
  (members.mapM fun (key, item) =>
    if isSensitiveKey key then some (key, text REDACTED)
    else (redact item).map (Prod.mk key)).map assignAll

def keptProperty (h : Heap n) (key : String) (members : List (Text × Value n)) :
    List (Text × Printed) :=
  match members.lookup (ofString key) with
  | none | some .undefined => []
  | some v => [(ofString key, h.printed v)]

def redactError (h : Heap n) (name message : Text) (members : List (Text × Value n)) :
    List (Text × Printed) :=
  [(ofString "name", text name), (ofString "message", text message)] ++
    keptProperty h "code" members ++ keptProperty h "statusCode" members

/-- `redact(value, depth)`, by the levels that are left: `MAX_DEPTH + 1 - depth`.  `none` is the
exception that `toISOString` throws. -/
def redact (h : Heap n) : Nat → Value n → Option Printed
  | 0, _ => some (text (ofString "[REDACTED:depth]"))
  | _ + 1, .scalar s => some (some (some (.scalar s)))
  | _ + 1, .undefined => some (some none)
  | left + 1, .ref r =>
      match h.node r with
      | .date ms => ms.map fun ms => text (toISOString ms)
      | .error name message members => some (printedObject (redactError h name message members))
      | .arr items => (items.mapM (redact h left)).map printedArray
      | .obj members => (redactMembers (redact h left) members).map printedObject

inductive LogLevel where
  | debug
  | info
  | warn
  | error

def LogLevel.name : LogLevel → String
  | .debug => "debug"
  | .info => "info"
  | .warn => "warn"
  | .error => "error"

/-- The fields of a log call: an object of a heap. -/
structure Fields where
  size : Nat
  heap : Heap size
  root : Fin size
  members : List (Text × Value size)
  isObject : heap.node root = .obj members

/-- `redact(fields)`, which is an object. -/
def Fields.redacted (f : Fields) : Option (List (Text × Printed)) :=
  redactMembers (redact f.heap MAX_DEPTH) f.members

def record (level : LogLevel) (time msg : Text) (entries : List (Text × Printed)) :
    List (Text × Printed) :=
  assignAll ([(ofString "level", text (ofString level.name)), (ofString "time", text time),
    (ofString "msg", text msg)] ++ entries)

def line (json : Json) : Text := ofString (String.ofList (stringify json)) ++ ofString "\n"

/-- What is logged of fields that cannot be printed, at the time `later`. -/
def dropped (level : LogLevel) (later msg : Text) : Json :=
  .obj [(ofString "level", .scalar (.str (ofString level.name))),
    (ofString "time", .scalar (.str later)), (ofString "msg", .scalar (.str msg)),
    (ofString "logError",
      .scalar (.str (ofString "fields were not serializable and were dropped")))]

/-- What a log call writes; `none` when it throws. -/
def emit (level : LogLevel) (time later msg : Text) (f : Fields) : Option Text :=
  f.redacted.map fun entries =>
    match printedObject (record level time msg entries) with
    | some (some json) => line json
    | _ => line (dropped level later msg)

theorem redact_fields (f : Fields) :
    redact f.heap (MAX_DEPTH + 1) (.ref f.root) = f.redacted.map printedObject := by
  rw [redact, f.isObject]
  rfl

/-- The walk, with `left` levels to go, meets an invalid date. -/
def Throws (h : Heap n) : Nat → Value n → Prop
  | left + 1, .ref r =>
      match h.node r with
      | .date ms => ms = none
      | .error .. => False
      | .arr items => ∃ v ∈ items, Throws h left v
      | .obj members => ∃ x ∈ members, isSensitiveKey x.1 = false ∧ Throws h left x.2
  | _, _ => False

/-- The walk keeps the value as it is: it is the `code` or the `statusCode` of an error. -/
def Keeps (h : Heap n) : Nat → Value n → Value n → Prop
  | left + 1, .ref r, w =>
      match h.node r with
      | .date _ => False
      | .error _ _ members =>
          members.lookup (ofString "code") = some w ∨
            members.lookup (ofString "statusCode") = some w
      | .arr items => ∃ v ∈ items, Keeps h left v w
      | .obj members => ∃ x ∈ members,
          isSensitiveKey x.1 = false ∧ x.1 ≠ protoKey ∧ Keeps h left x.2 w
  | _, _, _ => False

/-- The fields differ at most in values under sensitive keys. -/
def Fields.SameOutside (f g : Fields) : Prop :=
  ∃ R, Bisimulation isSensitiveKey R f.heap g.heap ∧ R (.ref f.root) (.ref g.root)

/-- The walk meets an invalid date, or it keeps a value that runs in a circle outside of sensitive
keys, or no value that it keeps has a sensitive key anywhere. -/
def Fields.Contained (f : Fields) : Prop :=
  Throws f.heap (MAX_DEPTH + 1) (.ref f.root) ∨
    (∃ w, Keeps f.heap (MAX_DEPTH + 1) (.ref f.root) w ∧
      Endless (Step isSensitiveKey f.heap) w) ∨
    ∀ w, Keeps f.heap (MAX_DEPTH + 1) (.ref f.root) w → ¬Exposes isSensitiveKey f.heap w

variable {h : Heap n} {f : Value n → Option Printed} {members : List (Text × Value n)}
  {es : List (Text × Printed)} {left : Nat} {v w : Value n}

/-- What becomes of a member: nothing if it is `__proto__`, which is not assigned. -/
def redactedEntry (redact : Value n → Option Printed) (x : Text × Value n) :
    Option (Text × Printed) :=
  if x.1 = protoKey then none
  else some (x.1, if isSensitiveKey x.1 then text REDACTED else (redact x.2).getD none)

theorem redactMembers_eq_none_iff : redactMembers f members = none ↔
    ∃ x ∈ members, isSensitiveKey x.1 = false ∧ f x.2 = none := by
  unfold redactMembers
  rw [Option.map_eq_none_iff, mapM_eq_none_iff]
  refine exists_congr fun x => and_congr_right fun _ => ?_
  cases hkey : isSensitiveKey x.1 <;> simp [hkey]

theorem redactMembers_eq_some (hdistinct : (keysOf members).Nodup)
    (hes : redactMembers f members = some es) : es = members.filterMap (redactedEntry f) := by
  obtain ⟨all, hall, rfl⟩ := Option.map_eq_some_iff.mp hes
  have hentries : all = members.map fun x =>
      (x.1, if isSensitiveKey x.1 then text REDACTED else (f x.2).getD none) := by
    have hforall := mapM_eq_some_iff.mp hall
    clear hall hes hdistinct
    induction hforall with
    | nil => rfl
    | @cons x e members all hx _ ih =>
      rw [List.map_cons, ← ih]
      congr 1
      cases hkey : isSensitiveKey x.1 with
      | true => simpa [hkey, eq_comm] using hx
      | false =>
        simp only [hkey, Bool.false_eq_true, if_false, Option.map_eq_some_iff] at hx
        obtain ⟨pr, hpr, rfl⟩ := hx
        simp [hpr]
  have hkeys : keysOf all = keysOf members := by
    rw [hentries]
    simp [keysOf]
  rw [assignAll_eq_filter (hkeys ▸ hdistinct), hentries, ← List.filterMap_eq_filter,
    List.filterMap_map]
  apply List.filterMap_congr
  intro x _
  by_cases hproto : x.1 = protoKey <;> simp [redactedEntry, Option.guard, hproto]

theorem redact_eq_none_iff : redact h left v = none ↔ Throws h left v := by
  induction left generalizing v with
  | zero => simp [redact, Throws]
  | succ left ih =>
    cases v with
    | scalar s => simp [redact, Throws]
    | undefined => simp [redact, Throws]
    | ref r =>
      rw [redact, Throws]
      cases h.node r with
      | date ms => cases ms <;> simp
      | error name message members => simp
      | arr items => simp only [Option.map_eq_none_iff, mapM_eq_none_iff, ih]
      | obj members => simp only [Option.map_eq_none_iff, redactMembers_eq_none_iff, ih]

variable {m : Nat} {h' : Heap m} {v' : Value m} {R : Value n → Value m → Prop}

theorem Throws.follow (hR : Bisimulation isSensitiveKey R h h') (hv : R v v')
    (hthrows : Throws h left v) : Throws h' left v' := by
  induction left generalizing v v' with
  | zero => exact hthrows.elim
  | succ left ih =>
    cases v with
    | scalar s => exact hthrows.elim
    | undefined => exact hthrows.elim
    | ref r =>
      obtain ⟨r', rfl, halike⟩ := hR.ref hv
      rw [Throws] at hthrows ⊢
      obtain ⟨ms, hnode, hnode'⟩ | ⟨name, message, ms, ms', hnode, -, -⟩ |
        ⟨items, items', hnode, hnode', hitems⟩ | ⟨ms, ms', hnode, hnode', hms⟩ := halike.cases
      · rw [hnode] at hthrows
        rw [hnode']
        exact hthrows
      · rw [hnode] at hthrows
        exact hthrows.elim
      · rw [hnode] at hthrows
        rw [hnode']
        obtain ⟨w, hw, hthrow⟩ := hthrows
        obtain ⟨w', hw', hww'⟩ := exists_of_forall₂ hitems hw
        exact ⟨w', hw', ih hww' hthrow⟩
      · rw [hnode] at hthrows
        rw [hnode']
        obtain ⟨x, hx, hkey, hthrow⟩ := hthrows
        obtain ⟨x', hx', hkeys, hxx'⟩ := exists_of_forall₂ hms hx
        exact ⟨x', hx', hkeys ▸ hkey, ih (hxx' hkey) hthrow⟩

theorem isSensitiveKey_error : ∀ key ∈ [ofString "name", ofString "message", ofString "code",
    ofString "statusCode"], isSensitiveKey key = false := by
  decide +kernel

theorem isSensitiveKey_code : isSensitiveKey (ofString "code") = false :=
  isSensitiveKey_error _ (by simp)

theorem isSensitiveKey_statusCode : isSensitiveKey (ofString "statusCode") = false :=
  isSensitiveKey_error _ (by simp)

theorem Keeps.follow (hR : Bisimulation isSensitiveKey R h h') (hv : R v v')
    (hkeeps : Keeps h left v w) : ∃ w', R w w' ∧ Keeps h' left v' w' := by
  induction left generalizing v v' with
  | zero => exact hkeeps.elim
  | succ left ih =>
    cases v with
    | scalar s => exact hkeeps.elim
    | undefined => exact hkeeps.elim
    | ref r =>
      obtain ⟨r', rfl, halike⟩ := hR.ref hv
      simp only [Keeps] at hkeeps ⊢
      obtain ⟨ms, hnode, -⟩ | ⟨name, message, ms, ms', hnode, hnode', hms⟩ |
        ⟨items, items', hnode, hnode', hitems⟩ | ⟨ms, ms', hnode, hnode', hms⟩ := halike.cases
      · rw [hnode] at hkeeps
        exact hkeeps.elim
      · rw [hnode] at hkeeps
        rw [hnode']
        rcases hkeeps with hcode | hstatus
        · obtain ⟨w', hw', hww'⟩ := hms.lookup isSensitiveKey_code hcode
          exact ⟨w', hww', .inl hw'⟩
        · obtain ⟨w', hw', hww'⟩ := hms.lookup isSensitiveKey_statusCode hstatus
          exact ⟨w', hww', .inr hw'⟩
      · rw [hnode] at hkeeps
        rw [hnode']
        obtain ⟨u, hu, hkeep⟩ := hkeeps
        obtain ⟨u', hu', huu'⟩ := exists_of_forall₂ hitems hu
        obtain ⟨w', hww', hkeep'⟩ := ih huu' hkeep
        exact ⟨w', hww', u', hu', hkeep'⟩
      · rw [hnode] at hkeeps
        rw [hnode']
        obtain ⟨x, hx, hkey, hproto, hkeep⟩ := hkeeps
        obtain ⟨x', hx', hkeys, hxx'⟩ := exists_of_forall₂ hms hx
        obtain ⟨w', hww', hkeep'⟩ := ih (hxx' hkey) hkeep
        exact ⟨w', hww', x', hx', hkeys ▸ hkey, hkeys ▸ hproto, hkeep'⟩

theorem keptProperty_congr (hR : Bisimulation isSensitiveKey R h h') {key : String}
    {ms : List (Text × Value n)} {ms' : List (Text × Value m)}
    (hms : MembersAlike isSensitiveKey R ms ms') (hkey : isSensitiveKey (ofString key) = false)
    (hkept : ∀ w w', R w w' → ms.lookup (ofString key) = some w → h.printed w = h'.printed w') :
    keptProperty h key ms = keptProperty h' key ms' := by
  unfold keptProperty
  cases hlookup : ms.lookup (ofString key) with
  | none => rw [hms.lookup_eq_none hlookup]
  | some w =>
    obtain ⟨w', hlookup', hww'⟩ := hms.lookup hkey hlookup
    have hsame := hkept w w' hww' hlookup
    have halike := hR w w' hww'
    rw [hlookup']
    cases w <;> cases w' <;>
      first | exact halike.elim | rfl | exact congrArg (fun pr => [(ofString key, pr)]) hsame

theorem redactMembers_congr {f : Value n → Option Printed} {g : Value m → Option Printed}
    {ms : List (Text × Value n)} {ms' : List (Text × Value m)}
    (hms : MembersAlike isSensitiveKey R ms ms') (hdistinct : (keysOf ms).Nodup)
    (hthrows : ∀ u u', R u u' → (f u = none ↔ g u' = none))
    (hsame : ∀ x ∈ ms, isSensitiveKey x.1 = false → x.1 ≠ protoKey →
      ∀ u', R x.2 u' → f x.2 = g u') :
    redactMembers f ms = redactMembers g ms' := by
  have hdistinct' : (keysOf ms').Nodup := hms.keysOf_eq ▸ hdistinct
  cases hes : redactMembers f ms with
  | none =>
    obtain ⟨x, hx, hkey, hthrow⟩ := redactMembers_eq_none_iff.mp hes
    obtain ⟨x', hx', hkeys, hxx'⟩ := exists_of_forall₂ hms hx
    exact (redactMembers_eq_none_iff.mpr
      ⟨x', hx', hkeys ▸ hkey, (hthrows _ _ (hxx' hkey)).mp hthrow⟩).symm
  | some es =>
    cases hes' : redactMembers g ms' with
    | none =>
      obtain ⟨x', hx', hkey, hthrow⟩ := redactMembers_eq_none_iff.mp hes'
      obtain ⟨x, hx, hkeys, hxx'⟩ := exists_of_forall₂ hms.flip hx'
      have hnone := redactMembers_eq_none_iff.mpr
        ⟨x, hx, hkeys ▸ hkey, (hthrows _ _ (hxx' hkey)).mpr hthrow⟩
      exact absurd (hnone.symm.trans hes) (by simp)
    | some es' =>
      rw [redactMembers_eq_some hdistinct hes, redactMembers_eq_some hdistinct' hes']
      refine congrArg some (filterMap_eq_of_forall₂ hms fun x hx x' hxx' => ?_)
      obtain ⟨hkeys, hxx'⟩ := hxx'
      unfold redactedEntry
      rw [← hkeys]
      by_cases hproto : x.1 = protoKey
      · rw [if_pos hproto, if_pos hproto]
      · rw [if_neg hproto, if_neg hproto]
        cases hkey : isSensitiveKey x.1 with
        | true => rfl
        | false => rw [hsame x hx hkey hproto x'.2 (hxx' hkey)]

theorem redact_eq_none_congr (hR : Bisimulation isSensitiveKey R h h') (hv : R v v') :
    redact h left v = none ↔ redact h' left v' = none := by
  rw [redact_eq_none_iff, redact_eq_none_iff]
  exact ⟨fun ht => ht.follow hR hv, fun ht => ht.follow hR.flip hv⟩

/-- The walk makes the same of values that differ under sensitive keys, when what it keeps is
printed alike. -/
theorem redact_congr (hR : Bisimulation isSensitiveKey R h h') (hv : R v v')
    (hkept : ∀ w w', R w w' → Keeps h left v w → h.printed w = h'.printed w') :
    redact h left v = redact h' left v' := by
  induction left generalizing v v' with
  | zero => rfl
  | succ left ih =>
    have halike := hR v v' hv
    cases v with
    | scalar s =>
      cases v' with
      | scalar s' =>
        obtain rfl : s = s' := halike
        rfl
      | _ => exact halike.elim
    | undefined =>
      cases v' with
      | undefined => rfl
      | _ => exact halike.elim
    | ref r =>
      clear halike
      obtain ⟨r', rfl, halike⟩ := hR.ref hv
      simp only [Keeps] at hkept
      rw [redact, redact]
      obtain ⟨ms, hnode, hnode'⟩ | ⟨name, message, ms, ms', hnode, hnode', hms⟩ |
        ⟨items, items', hnode, hnode', hitems⟩ | ⟨ms, ms', hnode, hnode', hms⟩ := halike.cases
      · rw [hnode, hnode']
      · rw [hnode] at hkept ⊢
        rw [hnode']
        dsimp only
        unfold redactError
        rw [keptProperty_congr hR hms isSensitiveKey_code fun w w' hww' hw =>
            hkept w w' hww' (.inl hw),
          keptProperty_congr hR hms isSensitiveKey_statusCode fun w w' hww' hw =>
            hkept w w' hww' (.inr hw)]
      · rw [hnode] at hkept ⊢
        rw [hnode']
        refine congrArg (Option.map printedArray) (mapM_eq_of_forall₂ hitems fun u hu u' huu' => ?_)
        exact ih huu' fun w w' hww' hkeep => hkept w w' hww' ⟨u, hu, hkeep⟩
      · rw [hnode] at hkept ⊢
        rw [hnode']
        have hdistinct := h.distinct r
        rw [hnode] at hdistinct
        refine congrArg (Option.map printedObject) (redactMembers_congr hms hdistinct
          (fun _ _ huu' => redact_eq_none_congr hR huu') ?_)
        intro x hx hkey hproto u' hu'
        exact ih hu' fun w w' hww' hkeep => hkept w w' hww' ⟨x, hx, hkey, hproto, hkeep⟩

variable {P : Printed → Prop} {pr : Printed}

/-- A sensitive key stands over the mark, any other over what has the property. -/
def EntriesHave (P : Printed → Prop) (entries : List (Text × Printed)) : Prop :=
  ∀ e ∈ entries, isSensitiveKey e.1 = true ∧ e.2 = text REDACTED ∨
    isSensitiveKey e.1 = false ∧ P e.2

theorem mem_redactMembers (hdistinct : (keysOf members).Nodup)
    (hes : redactMembers f members = some es) {key : Text} :
    (key, pr) ∈ es ↔ key ≠ protoKey ∧ ∃ v, (key, v) ∈ members ∧
      (isSensitiveKey key = true ∧ pr = text REDACTED ∨
        isSensitiveKey key = false ∧ f v = some pr) := by
  have hsome : ∀ x ∈ members, isSensitiveKey x.1 = false → f x.2 ≠ none := by
    intro x hx hkey hnone
    have hes' := redactMembers_eq_none_iff.mpr ⟨x, hx, hkey, hnone⟩
    exact absurd (hes'.symm.trans hes) (by simp)
  rw [redactMembers_eq_some hdistinct hes, List.mem_filterMap]
  unfold redactedEntry
  constructor
  · intro hentry
    obtain ⟨x, hx, heq⟩ := hentry
    obtain ⟨hproto, heq⟩ := Option.ite_none_left_eq_some.mp heq
    obtain ⟨rfl, rfl⟩ := Prod.mk.inj (Option.some.inj heq)
    refine ⟨hproto, x.2, hx, ?_⟩
    cases hkey : isSensitiveKey x.1 with
    | true => exact .inl ⟨rfl, rfl⟩
    | false =>
      obtain ⟨pr, hpr⟩ := Option.ne_none_iff_exists'.mp (hsome x hx hkey)
      refine .inr ⟨rfl, ?_⟩
      simp [hpr]
  · intro hentry
    obtain ⟨hproto, v, hv, hpr⟩ := hentry
    refine ⟨(key, v), hv, ?_⟩
    rw [if_neg hproto]
    rcases hpr with ⟨hkey, rfl⟩ | ⟨hkey, hpr⟩
    · simp [hkey]
    · simp [hkey, hpr]

theorem nodup_redactMembers (hes : redactMembers f members = some es) : (keysOf es).Nodup := by
  obtain ⟨all, -, rfl⟩ := Option.map_eq_some_iff.mp hes
  exact nodup_keys_assignAll all

theorem entriesHave_redactMembers (hdistinct : (keysOf members).Nodup)
    (hes : redactMembers f members = some es)
    (hitems : ∀ x ∈ members, isSensitiveKey x.1 = false → x.1 ≠ protoKey →
      ∀ pr, f x.2 = some pr → P pr) : EntriesHave P es := by
  intro e he
  obtain ⟨hproto, v, hv, hpr⟩ := (mem_redactMembers hdistinct hes).mp he
  exact hpr.imp id fun hpr => ⟨hpr.1, hitems (e.1, v) hv hpr.1 hproto e.2 hpr.2⟩

theorem keysOf_redactError (h : Heap n) (name message : Text) (members : List (Text × Value n)) :
    (keysOf (redactError h name message members)).Sublist
      [ofString "name", ofString "message", ofString "code", ofString "statusCode"] := by
  have hkept : ∀ key, (keysOf (keptProperty h key members)).Sublist [ofString key] := by
    intro key
    unfold keptProperty
    split
    · exact List.nil_sublist _
    · exact List.nil_sublist _
    · exact List.Sublist.refl _
  have hown := List.Sublist.refl [ofString "name", ofString "message"]
  have hkeys := (hown.append (hkept "code")).append (hkept "statusCode")
  simpa [redactError, keysOf] using hkeys

theorem mem_redactError {name message : Text} {key : Text} :
    (key, pr) ∈ redactError h name message members →
      pr = text name ∨ pr = text message ∨ ∃ w, pr = h.printed w ∧
        (members.lookup (ofString "code") = some w ∨
          members.lookup (ofString "statusCode") = some w) := by
  have hkept : ∀ property, (key, pr) ∈ keptProperty h property members →
      ∃ w, pr = h.printed w ∧ members.lookup (ofString property) = some w := by
    intro property hmem
    unfold keptProperty at hmem
    split at hmem
    · exact absurd hmem List.not_mem_nil
    · exact absurd hmem List.not_mem_nil
    · rename_i w _ hlookup
      obtain ⟨-, rfl⟩ := Prod.mk.inj (List.mem_singleton.mp hmem)
      exact ⟨w, rfl, hlookup⟩
  intro hmem
  rcases List.mem_append.mp hmem with hmem | hmem
  · rcases List.mem_append.mp hmem with hmem | hmem
    · rcases List.mem_cons.mp hmem with heq | hmem
      · exact .inl (Prod.mk.inj heq).2
      · exact .inr (.inl (Prod.mk.inj (List.mem_singleton.mp hmem)).2)
    · obtain ⟨w, hpr, hlookup⟩ := hkept _ hmem
      exact .inr (.inr ⟨w, hpr, .inl hlookup⟩)
  · obtain ⟨w, hpr, hlookup⟩ := hkept _ hmem
    exact .inr (.inr ⟨w, hpr, .inr hlookup⟩)

/-- What holds of scalars and of what is kept, and is inherited by arrays and objects, holds of what
the walk makes. -/
theorem redact_induction (scalar : ∀ s, P (some (some (.scalar s)))) (undefined : P (some none))
    (arr : ∀ items, (∀ pr ∈ items, P pr) → P (printedArray items))
    (obj : ∀ entries, (keysOf entries).Nodup → EntriesHave P entries → P (printedObject entries))
    (kept : ∀ w, Keeps h left v w → P (h.printed w)) (hpr : redact h left v = some pr) : P pr := by
  induction left generalizing v pr with
  | zero =>
    obtain rfl := Option.some.inj hpr
    exact scalar _
  | succ left ih =>
    cases v with
    | scalar s =>
      obtain rfl := Option.some.inj hpr
      exact scalar s
    | undefined =>
      obtain rfl := Option.some.inj hpr
      exact undefined
    | ref r =>
      have hdistinct := h.distinct r
      simp only [Keeps] at kept
      rw [redact] at hpr
      cases hnode : h.node r with
      | date ms =>
        rw [hnode] at hpr
        obtain ⟨ms, rfl, rfl⟩ := Option.map_eq_some_iff.mp hpr
        exact scalar _
      | error name message members =>
        rw [hnode] at hpr kept
        obtain rfl := Option.some.inj hpr
        have hkeys := keysOf_redactError h name message members
        apply obj
        · exact List.Nodup.sublist hkeys (by decide +kernel)
        · intro e he
          refine .inr ⟨isSensitiveKey_error _ (hkeys.subset (List.mem_map_of_mem he)), ?_⟩
          rcases mem_redactError he with hname | hmessage | ⟨w, hw, hlookup⟩
          · exact hname ▸ scalar _
          · exact hmessage ▸ scalar _
          · exact hw ▸ kept w hlookup
      | arr items =>
        rw [hnode] at hpr kept
        obtain ⟨prs, hprs, rfl⟩ := Option.map_eq_some_iff.mp hpr
        apply arr
        intro pr' hpr'
        obtain ⟨u, hu, hredact⟩ := exists_of_forall₂ (mapM_eq_some_iff.mp hprs).flip hpr'
        exact ih (fun w hkeep => kept w ⟨u, hu, hkeep⟩) hredact
      | obj members =>
        rw [hnode] at hpr kept hdistinct
        obtain ⟨es, hes, rfl⟩ := Option.map_eq_some_iff.mp hpr
        apply obj es (nodup_redactMembers hes)
        apply entriesHave_redactMembers hdistinct hes
        intro x hx hkey hproto pr' hpr'
        exact ih (fun w hkeep => kept w ⟨x, hx, hkey, hproto, hkeep⟩) hpr'

/-- What holds of a value that is kept, and of arrays and objects that it gets into, holds of what
the walk makes. -/
theorem redact_reach (arr : ∀ items, ∀ pr ∈ items, P pr → P (printedArray items))
    (obj : ∀ entries key pr, (key, pr) ∈ entries → P pr → P (printedObject entries))
    (hkeeps : Keeps h left v w) (hw : w ≠ .undefined) (hP : P (h.printed w))
    (hpr : redact h left v = some pr) : P pr := by
  induction left generalizing v pr with
  | zero => exact hkeeps.elim
  | succ left ih =>
    cases v with
    | scalar s => exact hkeeps.elim
    | undefined => exact hkeeps.elim
    | ref r =>
      have hdistinct := h.distinct r
      simp only [Keeps] at hkeeps
      rw [redact] at hpr
      cases hnode : h.node r with
      | date ms =>
        rw [hnode] at hkeeps
        exact hkeeps.elim
      | error name message members =>
        rw [hnode] at hpr hkeeps
        obtain rfl := Option.some.inj hpr
        have hkept : ∀ key, members.lookup (ofString key) = some w →
            keptProperty h key members = [(ofString key, h.printed w)] := by
          intro key hlookup
          unfold keptProperty
          rw [hlookup]
          cases w with
          | undefined => exact absurd rfl hw
          | scalar s => rfl
          | ref r' => rfl
        rcases hkeeps with hcode | hstatus
        · refine obj _ (ofString "code") _ ?_ hP
          unfold redactError
          rw [hkept "code" hcode]
          simp
        · refine obj _ (ofString "statusCode") _ ?_ hP
          unfold redactError
          rw [hkept "statusCode" hstatus]
          simp
      | arr items =>
        rw [hnode] at hpr hkeeps
        obtain ⟨prs, hprs, rfl⟩ := Option.map_eq_some_iff.mp hpr
        obtain ⟨u, hu, hkeep⟩ := hkeeps
        obtain ⟨pr', hpr', hredact⟩ := exists_of_forall₂ (mapM_eq_some_iff.mp hprs) hu
        exact arr prs pr' hpr' (ih hkeep hredact)
      | obj members =>
        rw [hnode] at hpr hkeeps hdistinct
        obtain ⟨es, hes, rfl⟩ := Option.map_eq_some_iff.mp hpr
        obtain ⟨x, hx, hkey, hproto, hkeep⟩ := hkeeps
        cases hredact : redact h left x.2 with
        | none =>
          have hnone := redactMembers_eq_none_iff.mpr ⟨x, hx, hkey, hredact⟩
          exact absurd (hnone.symm.trans hes) (by simp)
        | some pr' =>
          refine obj es x.1 pr' ?_ (ih hkeep hredact)
          exact (mem_redactMembers hdistinct hes).mpr ⟨hproto, x.2, hx, .inr ⟨hkey, hredact⟩⟩

variable {g : Fields} {level : LogLevel} {time later msg : Text}

theorem keeps_fields {f : Fields} {w : Value f.size} :
    Keeps f.heap (MAX_DEPTH + 1) (.ref f.root) w ↔ ∃ x ∈ f.members,
      isSensitiveKey x.1 = false ∧ x.1 ≠ protoKey ∧ Keeps f.heap MAX_DEPTH x.2 w := by
  rw [Keeps, f.isObject]

theorem distinct_fields (f : Fields) : (keysOf f.members).Nodup := by
  have h := f.heap.distinct f.root
  rwa [f.isObject] at h

theorem redacted_eq_none_iff {f : Fields} :
    f.redacted = none ↔ Throws f.heap (MAX_DEPTH + 1) (.ref f.root) := by
  rw [← redact_eq_none_iff, redact_fields, Option.map_eq_none_iff]

theorem entriesHave_redacted {f : Fields} (scalar : ∀ s, P (some (some (.scalar s))))
    (undefined : P (some none)) (arr : ∀ items, (∀ pr ∈ items, P pr) → P (printedArray items))
    (obj : ∀ entries, (keysOf entries).Nodup → EntriesHave P entries → P (printedObject entries))
    (kept : ∀ w, Keeps f.heap (MAX_DEPTH + 1) (.ref f.root) w → P (f.heap.printed w))
    (hes : f.redacted = some es) : EntriesHave P es := by
  apply entriesHave_redactMembers (distinct_fields f) hes
  intro x hx hkey hproto pr hpr
  refine redact_induction scalar undefined arr obj (fun w hkeep => kept w ?_) hpr
  exact keeps_fields.mpr ⟨x, hx, hkey, hproto, hkeep⟩

/-- The record has the entries of the fields, and the level, the time and the message. -/
theorem entriesHave_record (scalar : ∀ s, P (some (some (.scalar s)))) (hes : EntriesHave P es) :
    EntriesHave P (record level time msg es) := by
  have hpublic : ∀ key ∈ [ofString "level", ofString "time", ofString "msg"],
      isSensitiveKey key = false := by
    decide +kernel
  intro e he
  rcases List.mem_append.mp (mem_of_mem_assignAll he) with hown | hfield
  · simp only [List.mem_cons, List.not_mem_nil, or_false] at hown
    rcases hown with rfl | rfl | rfl
    · exact .inr ⟨hpublic _ (by simp), scalar _⟩
    · exact .inr ⟨hpublic _ (by simp), scalar _⟩
    · exact .inr ⟨hpublic _ (by simp), scalar _⟩
  · exact hes e hfield

/-- What holds of scalars and of what is kept, and is inherited by arrays and objects, holds of the
record. -/
theorem record_induction {f : Fields} (scalar : ∀ s, P (some (some (.scalar s))))
    (undefined : P (some none)) (arr : ∀ items, (∀ pr ∈ items, P pr) → P (printedArray items))
    (obj : ∀ entries, (keysOf entries).Nodup → EntriesHave P entries → P (printedObject entries))
    (kept : ∀ w, Keeps f.heap (MAX_DEPTH + 1) (.ref f.root) w → P (f.heap.printed w))
    (hes : f.redacted = some es) : P (printedObject (record level time msg es)) :=
  obj _ (nodup_keys_assignAll _)
    (entriesHave_record scalar (entriesHave_redacted scalar undefined arr obj kept hes))

theorem mem_record {f : Fields} (hes : f.redacted = some es) {key : Text} (he : (key, pr) ∈ es) :
    (key, pr) ∈ record level time msg es := by
  apply mem_assignAll_append (nodup_redactMembers hes) he
  exact ((mem_redactMembers (distinct_fields f) hes).mp he).1

/-- What holds of a value that is kept, and of arrays and objects that it gets into, holds of the
record. -/
theorem record_reach {f : Fields} {w : Value f.size}
    (arr : ∀ items, ∀ pr ∈ items, P pr → P (printedArray items))
    (obj : ∀ entries key pr, (key, pr) ∈ entries → P pr → P (printedObject entries))
    (hkeeps : Keeps f.heap (MAX_DEPTH + 1) (.ref f.root) w) (hw : w ≠ .undefined)
    (hP : P (f.heap.printed w)) (hes : f.redacted = some es) :
    P (printedObject (record level time msg es)) := by
  obtain ⟨x, hx, hkey, hproto, hkeep⟩ := keeps_fields.mp hkeeps
  cases hpr : redact f.heap MAX_DEPTH x.2 with
  | none =>
    have hnone := redactMembers_eq_none_iff.mpr ⟨x, hx, hkey, hpr⟩
    exact absurd (hnone.symm.trans hes) (by simp)
  | some pr =>
    refine obj _ x.1 pr (mem_record hes ?_) (redact_reach arr obj hkeep hw hP hpr)
    exact (mem_redactMembers (distinct_fields f) hes).mpr ⟨hproto, x.2, hx, .inr ⟨hkey, hpr⟩⟩

theorem emit_of_endless {f : Fields} {w : Value f.size}
    (hkeeps : Keeps f.heap (MAX_DEPTH + 1) (.ref f.root) w)
    (hendless : Endless (Step isSensitiveKey f.heap) w) :
    emit level time later msg f = f.redacted.map fun _ => line (dropped level later msg) := by
  have hprinted : f.heap.printed w = none := printed_eq_none_of_endless hendless
  have hw : w ≠ .undefined := by
    rintro rfl
    obtain ⟨_, hstep, _⟩ := hendless 1
    exact hstep
  have harray : ∀ items : List Printed, ∀ pr ∈ items, pr = none → printedArray items = none := by
    rintro items _ hpr rfl
    exact printedArray_eq_none_iff.mpr hpr
  have hobject : ∀ (entries : List (Text × Printed)) key pr, (key, pr) ∈ entries → pr = none →
      printedObject entries = none := by
    rintro entries key _ he rfl
    exact printedObject_eq_none_iff.mpr ⟨_, he, rfl⟩
  unfold emit
  cases hes : f.redacted with
  | none => rw [Option.map_none, Option.map_none]
  | some es =>
    have hrecord : printedObject (record level time msg es) = none :=
      record_reach harray hobject hkeeps hw hprinted hes
    rw [Option.map_some, Option.map_some, hrecord]

theorem Fields.SameOutside.membersAlike {f : Fields} (hsame : f.SameOutside g) :
    ∃ R, Bisimulation isSensitiveKey R f.heap g.heap ∧ R (.ref f.root) (.ref g.root) ∧
      MembersAlike isSensitiveKey R f.members g.members := by
  obtain ⟨R, hR, hroot⟩ := hsame
  obtain ⟨r', heq, hnode⟩ := hR.ref hroot
  obtain rfl := Value.ref.inj heq
  rw [f.isObject, g.isObject] at hnode
  exact ⟨R, hR, hroot, hnode⟩

theorem emit_congr {f : Fields} (hcontained : f.Contained) (hsame : f.SameOutside g) :
    emit level time later msg g = emit level time later msg f := by
  obtain ⟨R, hR, hroot, hmembers⟩ := hsame.membersAlike
  have hnone : f.redacted = none ↔ g.redacted = none := by
    rw [redacted_eq_none_iff, redacted_eq_none_iff]
    exact ⟨fun ht => ht.follow hR hroot, fun ht => ht.follow hR.flip hroot⟩
  rcases hcontained with hthrows | ⟨w, hkeeps, hendless⟩ | hhidden
  · have hf := redacted_eq_none_iff.mpr hthrows
    unfold emit
    rw [hf, hnone.mp hf]
  · obtain ⟨w', hww', hkeeps'⟩ := hkeeps.follow hR hroot
    rw [emit_of_endless hkeeps hendless, emit_of_endless hkeeps' (hR.endless hww' hendless)]
    cases hf : f.redacted with
    | none => rw [hnone.mp hf]
    | some es =>
      have hg : g.redacted ≠ none := fun hg => by simp [hnone.mpr hg] at hf
      obtain ⟨es', hes'⟩ := Option.ne_none_iff_exists'.mp hg
      rw [hes']
      rfl
  · have hredacted : f.redacted = g.redacted := by
      apply redactMembers_congr hmembers (distinct_fields f)
      · intro u u' huu'
        exact redact_eq_none_congr hR huu'
      · intro x hx hkey hproto u' hu'
        refine redact_congr hR hu' fun w w' hww' hkeep => printed_congr hR hww' (hhidden w ?_)
        exact keeps_fields.mpr ⟨x, hx, hkey, hproto, hkeep⟩
    unfold emit
    rw [hredacted]

/-- The fields with the scalar under every sensitive key. -/
def Fields.replace (s : Scalar) (f : Fields) : Fields where
  size := f.size
  heap := f.heap.replace isSensitiveKey s
  root := f.root
  members := replaceMembers isSensitiveKey s f.members
  isObject := by
    change (f.heap.node f.root).replace isSensitiveKey s = _
    rw [f.isObject]
    rfl

theorem sameOutside_replace (s : Scalar) (f : Fields) : f.SameOutside (f.replace s) :=
  ⟨Eq, bisimulation_replace f.heap, rfl⟩

theorem stringify_of_line {json json' : Json} (h : line json = line json') :
    stringify json = stringify json' := by
  have hlines := ofString_injective (List.append_cancel_right h)
  have hlists := congrArg String.toList hlines
  rwa [String.toList_ofList, String.toList_ofList] at hlists

variable {f : Fields} {json : Json}

theorem record_ne_none (hes : f.redacted = some es)
    (hkept : ∀ w, Keeps f.heap (MAX_DEPTH + 1) (.ref f.root) w → f.heap.printed w ≠ none) :
    printedObject (record level time msg es) ≠ none := by
  refine record_induction (P := (· ≠ none)) ?_ ?_ ?_ ?_ hkept hes
  · intro s
    exact Option.some_ne_none _
  · exact Option.some_ne_none _
  · intro items hitems hnone
    exact hitems none (printedArray_eq_none_iff.mp hnone) rfl
  · intro entries _ hentries hnone
    obtain ⟨e, he, hvalue⟩ := printedObject_eq_none_iff.mp hnone
    rcases hentries e he with ⟨-, hmark⟩ | ⟨-, hsome⟩
    · exact Option.some_ne_none _ (hmark.symm.trans hvalue)
    · exact hsome hvalue

theorem distinctKeys_record (hes : f.redacted = some es)
    (hjson : printedObject (record level time msg es) = some (some json)) :
    json.distinctKeys = true := by
  refine record_induction (P := fun pr => ∀ j, pr = some (some j) → j.distinctKeys = true)
    ?_ ?_ ?_ ?_ ?_ hes json hjson
  · intro s j hj
    cases hj
    rfl
  · intro j hj
    exact absurd hj (by simp)
  · intro items hitems j hj
    exact distinctKeys_printedArray hj fun j' hj' => hitems _ hj' j' rfl
  · intro entries hkeys hentries j hj
    refine distinctKeys_printedObject hj hkeys fun key j' hj' => ?_
    rcases hentries _ hj' with ⟨-, hmark⟩ | ⟨-, hvalue⟩
    · cases hmark
      rfl
    · exact hvalue j' rfl
  · intro w _ j hj
    obtain ⟨k, hk⟩ := printed_eq_some_iff.mp hj
    exact distinctKeys_unfold hk

/-- Under sensitive keys stand the mark and what stands there in values that are kept. -/
theorem under_record {s : Scalar} (hes : f.redacted = some es)
    (hkept : ∀ w j s', f.heap.printed w = some (some j) → Json.Under isSensitiveKey s' j → s' = s)
    (hjson : printedObject (record level time msg es) = some (some json)) {s' : Scalar}
    (hunder : Json.Under isSensitiveKey s' json) : s' = s ∨ s' = .str REDACTED := by
  refine record_induction (P := fun pr => ∀ j, pr = some (some j) →
    Json.Under isSensitiveKey s' j → s' = s ∨ s' = .str REDACTED) ?_ ?_ ?_ ?_ ?_ hes json hjson
    hunder
  · intro s'' j hj hunder
    cases hj
    cases hunder
  · intro j hj
    exact absurd hj (by simp)
  · intro items hitems j hj hunder
    obtain ⟨j', hj', hunder'⟩ := (under_printedArray hj).mp hunder
    exact hitems _ hj' j' rfl hunder'
  · intro entries _ hentries j hj hunder
    rcases (under_printedObject hj).mp hunder with ⟨key, hkey, hsensitive⟩ | ⟨key, j', hj', hunder'⟩
    · rcases hentries _ hkey with ⟨-, hmark⟩ | ⟨hpublic, -⟩
      · exact .inr (Json.scalar.inj (Option.some.inj (Option.some.inj hmark)))
      · exact absurd hsensitive (by simp [hpublic])
    · rcases hentries _ hj' with ⟨-, hmark⟩ | ⟨-, hvalue⟩
      · cases hmark
        cases hunder'
      · exact hvalue j' rfl hunder'
  · intro w _ j hj hunder
    exact .inl (hkept w j s' hj hunder)

/-- What stands under a sensitive key in a value that is kept stands there in the record. -/
theorem under_record_of_kept {s : Scalar} {w : Value f.size} (hes : f.redacted = some es)
    (hkeeps : Keeps f.heap (MAX_DEPTH + 1) (.ref f.root) w) (hw : w ≠ .undefined)
    (hunder : ∀ o, f.heap.printed w = some o → ∃ j, o = some j ∧ Json.Under isSensitiveKey s j)
    (hjson : printedObject (record level time msg es) = some (some json)) :
    Json.Under isSensitiveKey s json := by
  have hrecord : ∀ o, printedObject (record level time msg es) = some o →
      ∃ j, o = some j ∧ Json.Under isSensitiveKey s j := by
    refine record_reach (P := fun pr => ∀ o, pr = some o →
      ∃ j, o = some j ∧ Json.Under isSensitiveKey s j) ?_ ?_ hkeeps hw hunder hes
    · intro items pr hpr hvalue o ho
      obtain ⟨js, rfl, -⟩ := printedArray_eq_some ho
      cases pr with
      | none => exact absurd (printedArray_eq_none_iff.mpr hpr) (by simp [ho])
      | some o' =>
        obtain ⟨j, rfl, hj⟩ := hvalue o' rfl
        exact ⟨_, rfl, (under_printedArray ho).mpr ⟨j, hpr, hj⟩⟩
    · intro entries key pr hpr hvalue o ho
      obtain ⟨ms, rfl, -⟩ := printedObject_eq_some ho
      cases pr with
      | none => exact absurd (printedObject_eq_none_iff.mpr ⟨_, hpr, rfl⟩) (by simp [ho])
      | some o' =>
        obtain ⟨j, rfl, hj⟩ := hvalue o' rfl
        exact ⟨_, rfl, (under_printedObject ho).mpr (.inr ⟨key, j, hpr, hj⟩)⟩
  obtain ⟨j, hj, hunder'⟩ := hrecord _ hjson
  obtain rfl := Option.some.inj hj
  exact hunder'

theorem ne_undefined_of_exposes {p : Text → Bool} (hexposes : Exposes p h v) : v ≠ .undefined := by
  rintro rfl
  obtain ⟨r, hpath, -⟩ := hexposes
  rcases Relation.ReflTransGen.cases_head hpath with heq | ⟨_, hstep, _⟩
  · exact absurd heq (by simp)
  · exact hstep

/-- With one scalar under every sensitive key, the line has it under such a key, and besides it only
the mark. -/
theorem emit_replace (level : LogLevel) (time later msg : Text) (s : Scalar)
    (hthrows : ¬Throws f.heap (MAX_DEPTH + 1) (.ref f.root))
    (hfinite : ∀ w, Keeps f.heap (MAX_DEPTH + 1) (.ref f.root) w →
      ¬Endless (Step isSensitiveKey f.heap) w)
    {w : Value f.size} (hkeeps : Keeps f.heap (MAX_DEPTH + 1) (.ref f.root) w)
    (hexposes : Exposes isSensitiveKey f.heap w) :
    ∃ json, emit level time later msg (f.replace s) = some (line json) ∧
      json.distinctKeys = true ∧ Json.Under isSensitiveKey s json ∧
      ∀ s', Json.Under isSensitiveKey s' json → s' = s ∨ s' = .str REDACTED := by
  have hR := bisimulation_replace (p := isSensitiveKey) (s := s) f.heap
  have hroot : (Value.ref f.root : Value f.size) = .ref (f.replace s).root := rfl
  have hredacted : (f.replace s).redacted ≠ none := by
    rw [Ne, redacted_eq_none_iff]
    exact fun ht => hthrows (ht.follow hR.flip hroot)
  obtain ⟨es, hes⟩ := Option.ne_none_iff_exists'.mp hredacted
  have hprinted : ∀ u, Keeps (f.replace s).heap (MAX_DEPTH + 1) (.ref (f.replace s).root) u →
      (f.replace s).heap.printed u ≠ none := by
    intro u hu hnone
    obtain ⟨u', rfl, hkeep⟩ := hu.follow hR.flip hroot
    exact hfinite u' hkeep (endless_of_printed_replace hnone)
  obtain ⟨o, ho⟩ := Option.ne_none_iff_exists'.mp (record_ne_none hes hprinted)
  obtain ⟨ms, rfl, -⟩ := printedObject_eq_some ho
  obtain ⟨w', rfl, hkeeps'⟩ := hkeeps.follow hR hroot
  refine ⟨.obj ms, ?_, distinctKeys_record hes ho, ?_, ?_⟩
  · unfold emit
    rw [hes, Option.map_some, ho]
  · refine under_record_of_kept hes hkeeps' (ne_undefined_of_exposes hexposes) (fun o' ho' => ?_) ho
    obtain ⟨k, hk⟩ := printed_eq_some_iff.mp ho'
    exact under_of_exposes hexposes hk
  · intro s' hunder
    refine under_record hes (fun u j s'' hj hunder' => ?_) ho hunder
    obtain ⟨k, hk⟩ := printed_eq_some_iff.mp hj
    exact under_replace hk hunder'

/-- The line of a log call does not depend on the values under sensitive keys exactly when an
invalid date makes the call throw, when a circle in what an error carries makes it drop the fields,
or when what errors carry as `code` and `statusCode` has no sensitive keys. -/
theorem line_is_public_iff (level : LogLevel) (time later msg : Text) (f : Fields) :
    (∀ g, f.SameOutside g → emit level time later msg g = emit level time later msg f) ↔
      f.Contained := by
  constructor
  · intro hpublic
    by_contra hcontained
    unfold Fields.Contained at hcontained
    push Not at hcontained
    obtain ⟨hthrows, hfinite, w, hkeeps, hexposes⟩ := hcontained
    obtain ⟨json, hemit, hdistinct, hunder, -⟩ :=
      emit_replace level time later msg (.bool true) hthrows hfinite hkeeps hexposes
    obtain ⟨json', hemit', hdistinct', -, honly⟩ :=
      emit_replace level time later msg .null hthrows hfinite hkeeps hexposes
    -- the two lines are the line of `f`, so `true` is read back from both
    rw [hpublic _ (sameOutside_replace _ f)] at hemit hemit'
    have hline := Option.some.inj (hemit.symm.trans hemit')
    have hread := stringify_injective hdistinct hdistinct' (stringify_of_line hline)
    have htrue : Json.Under isSensitiveKey (.bool true) (json.rebuild Scalar.printed .sorted) :=
      Json.under_rebuild.mpr ⟨.bool true, rfl, hunder⟩
    rw [hread] at htrue
    obtain ⟨s, hs, hunder'⟩ := Json.under_rebuild.mp htrue
    rcases honly s hunder' with rfl | rfl
    · exact absurd hs (by simp [Scalar.printed])
    · exact absurd hs (by simp [Scalar.printed])
  · intro hcontained g hsame
    exact emit_congr hcontained hsame

/-- `{ err }`, where the error carries `{ token: "t" }` as its `code`. -/
def carryingToken : Fields where
  size := 3
  heap :=
    { node
        | 2 => .obj [(ofString "token", .scalar (.str (ofString "t")))]
        | 1 => .error (ofString "Error") (ofString "boom") [(ofString "code", .ref 2)]
        | 0 => .obj [(ofString "err", .ref 1)]
      distinct := by decide +kernel }
  root := 0
  members := [(ofString "err", .ref 1)]
  isObject := rfl

theorem code_reaches_the_line : ¬∀ (level : LogLevel) (time later msg : Text) (f g : Fields),
    f.SameOutside g → emit level time later msg g = emit level time later msg f := by
  intro h
  have hsame := h .error [] [] [] carryingToken _ (sameOutside_replace .null carryingToken)
  exact absurd hsame (by decide +kernel)

end OpenRupiv.Runtime.Logger
