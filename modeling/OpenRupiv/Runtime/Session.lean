import OpenRupiv.Js.Parse
import OpenRupiv.Js.Base64

/-!
# Signed session and login-transaction cookies

A token is `v1.<body>.<signature>`; the MAC binds the format version and the purpose to the body.
Against an ideal MAC, of which no tag is known for a message that was not signed, a token is
accepted exactly for a payload signed for that purpose.
-/

namespace OpenRupiv.Runtime

open Js

def FORMAT_VERSION : Text := ofString "v1"

inductive CookiePurpose where
  | session
  | txn
  deriving DecidableEq

def CookiePurpose.text : CookiePurpose → Text
  | .session => ofString "session"
  | .txn => ofString "txn"

/-- MAC input binds the format version and the cookie purpose to the body. -/
def macInput (purpose : CookiePurpose) (body : Text) : Text :=
  FORMAT_VERSION ++ ofString "." ++ purpose.text ++ ofString "." ++ body

inductive VerifyFailureReason where
  | malformed
  | badSignature
  | expired
  deriving DecidableEq

/-- The base64url text of the printed payload. -/
def payloadBody (payload : Json) : Text := toBase64url (toUtf8 (stringifyText payload))

/-- The `exp` of a payload, where it is a number. -/
def expOf : Json → Option Num
  | .obj members =>
      match members.lookup (ofString "exp") with
      | some (.scalar (.num exp)) => some exp
      | _ => none
  | _ => none

def isText : Json → Bool
  | .scalar (.str _) => true
  | _ => false

/-- Structural guard: a verified session token must actually carry identity. -/
def isSessionData : Json → Bool
  | .obj members =>
      (match members.lookup (ofString "sub") with
        | some (.scalar (.str sub)) => sub != []
        | _ => false) &&
      (match members.lookup (ofString "roles") with
        | some (.arr roles) => roles.all isText
        | _ => false) &&
      (expOf (.obj members)).isSome
  | _ => false

section

-- `createHmac("sha256", secret).update(bytes).digest()`
variable (hmac : Text → List UInt8 → List UInt8)

def mac (data secret : Text) : List UInt8 := hmac secret (toUtf8 data)

def signPayload (payload : Json) (secret : Text) (purpose : CookiePurpose) : Text :=
  let body := payloadBody payload
  let signature := toBase64url (mac hmac (macInput purpose body) secret)
  FORMAT_VERSION ++ ofString "." ++ body ++ ofString "." ++ signature

variable (toNumber : Text → Num)

/-- The signature is checked before the payload is parsed. -/
def verifyPayload (token secret : Text) (purpose : CookiePurpose) (nowSeconds : Num) :
    Except VerifyFailureReason Json :=
  match token.splitOn (unit '.') with
  | [version, body, signature] =>
      if version ≠ FORMAT_VERSION ∨ body = [] ∨ signature = [] then .error .malformed
      else
        let expected := mac hmac (macInput purpose body) secret
        let actual := fromBase64url signature
        if actual.length ≠ expected.length ∨ actual ≠ expected then .error .badSignature
        else
          match parse toNumber (fromUtf8 (fromBase64url body)) with
          | none => .error .malformed
          | some payload =>
              match expOf payload with
              | none => .error .malformed
              | some exp => if Num.le exp nowSeconds then .error .expired else .ok payload
  | _ => .error .malformed

/-- The session a request gets from its cookie. -/
def gateSession (rawCookie secret : Text) (nowSeconds : Num) : Option Json :=
  if rawCookie = [] then none
  else
    match verifyPayload hmac toNumber rawCookie secret .session nowSeconds with
    | .ok payload => if isSessionData payload then some payload else none
    | .error _ => none

/-- A call of `signPayload`. -/
structure SignCall where
  payload : Value
  secret : Text
  purpose : CookiePurpose

def SignCall.body (call : SignCall) : Text := payloadBody call.payload.json

def SignCall.message (call : SignCall) : List UInt8 := toUtf8 (macInput call.purpose call.body)

/-- A token with the given body segment and the signature of the call. -/
def SignCall.tokenWith (call : SignCall) (body : Text) : Text :=
  FORMAT_VERSION ++ ofString "." ++ body ++ ofString "." ++
    toBase64url (hmac call.secret call.message)

def SignCall.token (call : SignCall) : Text :=
  signPayload hmac call.payload.json call.secret call.purpose

/-- The payload after `JSON.stringify` and `JSON.parse`. -/
def SignCall.returned (call : SignCall) : Json :=
  call.payload.json.rebuild Scalar.printed .own

/-- The MAC as an ideal one under a secret: the tags of the history are known, no tag is known for a
message that was not signed, and messages that were signed have tags of their own. -/
structure IdealMac (secret : Text) (history : List SignCall) (known : List UInt8 → Prop) : Prop where
  issued : ∀ call ∈ history, call.secret = secret → known (hmac secret call.message)
  unforged : ∀ message, known (hmac secret message) →
    ∃ call ∈ history, call.secret = secret ∧ call.message = message
  separate : ∀ call ∈ history, ∀ call' ∈ history, call.secret = secret → call'.secret = secret →
    hmac secret call.message = hmac secret call'.message → call.message = call'.message

end

/-- The body segment of a token. -/
def bodyOf (token : Text) : Text := (token.splitOn (unit '.')).getD 1 []

/-- The tag a token presents. -/
def tagOf (token : Text) : List UInt8 :=
  fromBase64url ((token.splitOn (unit '.')).getD 2 [])

private theorem plain_macInput {purpose : CookiePurpose} {bytes : List UInt8} :
    Plain (macInput purpose (toBase64url bytes)) := by
  have hhead : (FORMAT_VERSION ++ ofString "." ++ purpose.text ++ ofString ".").all
      (fun u => u.toNat < 0xD800) = true := by
    cases purpose <;> decide +kernel
  intro u hu
  rcases List.mem_append.mp hu with hu | hu
  · simpa using List.all_eq_true.mp hhead u hu
  · have hascii := toBase64url_ascii hu
    omega

theorem macInput_inj {purpose purpose' : CookiePurpose} {body body' : Text}
    (h : macInput purpose body = macInput purpose' body') : purpose = purpose' ∧ body = body' := by
  have hletter := congrArg (fun s : Text => s[3]?) h
  have hsession : ∀ s, (macInput .session s)[3]? = some (unit 's') := fun s => rfl
  have htxn : ∀ s, (macInput .txn s)[3]? = some (unit 't') := fun s => rfl
  cases purpose <;> cases purpose'
  · exact ⟨rfl, List.append_cancel_left h⟩
  · simp only [hsession, htxn] at hletter
    exact absurd hletter (by decide)
  · simp only [hsession, htxn] at hletter
    exact absurd hletter (by decide)
  · exact ⟨rfl, List.append_cancel_left h⟩

/-- Whoever has the message of a signed body has its purpose and its body. -/
theorem message_inj {call : SignCall} {purpose : CookiePurpose} {body : Text}
    (h : toUtf8 (macInput purpose body) = call.message) :
    purpose = call.purpose ∧ body = call.body :=
  macInput_inj (eq_of_toUtf8_eq plain_macInput h)

section

variable {hmac : Text → List UInt8 → List UInt8} {toNumber : Text → Num}

private theorem splitOn_token (body : Text) (bytes : List UInt8) :
    (FORMAT_VERSION ++ ofString "." ++ body ++ ofString "." ++ toBase64url bytes).splitOn
        (unit '.') =
      FORMAT_VERSION :: (body.splitOn (unit '.') ++ [toBase64url bytes]) := by
  have hdot : ofString "." = [unit '.'] := by decide
  have hversion : unit '.' ∉ FORMAT_VERSION := by decide
  have hsignature : unit '.' ∉ toBase64url bytes := dot_notMem_toBase64url bytes
  simp only [hdot, List.append_assoc, List.cons_append, List.nil_append]
  rw [List.splitOn_append_cons_self_of_not_mem hversion, List.splitOn_append_cons_self,
    List.splitOn_eq_singleton hsignature]

private theorem splitOn_body (bytes : List UInt8) :
    (toBase64url bytes).splitOn (unit '.') = [toBase64url bytes] :=
  List.splitOn_eq_singleton (dot_notMem_toBase64url bytes)

theorem tagOf_token (call : SignCall) :
    tagOf (call.token hmac) = hmac call.secret call.message := by
  have hsplit := splitOn_token call.body (hmac call.secret call.message)
  rw [SignCall.body, payloadBody, splitOn_body] at hsplit
  have hparts : (call.token hmac).splitOn (unit '.') = [FORMAT_VERSION,
      payloadBody call.payload.json, toBase64url (hmac call.secret call.message)] := hsplit
  rw [tagOf, hparts]
  exact fromBase64url_toBase64url _

private theorem verifyPayload_cases {token secret : Text} {purpose : CookiePurpose}
    {nowSeconds : Num} {payload : Json}
    (h : verifyPayload hmac toNumber token secret purpose nowSeconds = .ok payload) :
    ∃ body signature exp, token.splitOn (unit '.') = [FORMAT_VERSION, body, signature] ∧
      fromBase64url signature = mac hmac (macInput purpose body) secret ∧
      parse toNumber (fromUtf8 (fromBase64url body)) = some payload ∧
      expOf payload = some exp ∧ Num.le exp nowSeconds = false := by
  unfold verifyPayload at h
  split at h
  · rename_i version body signature hsplit
    split at h
    · cases h
    · rename_i hform
      simp only [not_or, not_not] at hform
      simp only at h
      split at h
      · cases h
      · rename_i htag
        simp only [not_or, not_not] at htag
        split at h
        · cases h
        · rename_i parsed hparse
          split at h
          · cases h
          · rename_i exp hexp
            split at h
            · cases h
            · rename_i hle
              obtain rfl := Except.ok.inj h
              refine ⟨body, signature, exp, ?_, htag.2, hparse, hexp, by simpa using hle⟩
              rw [hsplit, hform.1]
  · cases h

private theorem verifyPayload_eq {token secret body signature : Text} {purpose : CookiePurpose}
    {nowSeconds exp : Num} {payload : Json}
    (hsplit : token.splitOn (unit '.') = [FORMAT_VERSION, body, signature]) (hbody : body ≠ [])
    (hsignature : signature ≠ [])
    (htag : fromBase64url signature = mac hmac (macInput purpose body) secret)
    (hparse : parse toNumber (fromUtf8 (fromBase64url body)) = some payload)
    (hexp : expOf payload = some exp) (hle : Num.le exp nowSeconds = false) :
    verifyPayload hmac toNumber token secret purpose nowSeconds = .ok payload := by
  rw [verifyPayload, hsplit]
  simp [hbody, hsignature, htag, hparse, hexp, hle]

theorem lookup_returned {ms : List (Text × Json)} (h : (keysOf ms).Nodup) (k : Text) :
    (mapValues (Json.rebuild Scalar.printed .own) (Layout.own.run ms)).lookup k =
      (ms.lookup k).map (Json.rebuild Scalar.printed .own) := by
  rw [lookup_mapValues]
  congr 1
  exact lookup_perm (perm_ownEntries ms) (nodup_keys_perm (perm_ownEntries ms).symm h) k

/-- The `exp` of a payload that is read back: the number itself, unless it is infinite. -/
private theorem expOf_returned (v : Value) :
    expOf (v.json.rebuild Scalar.printed .own) =
      ((expOf v.json).filter Num.isFinite).map Num.unsigned := by
  obtain ⟨json, hdistinct⟩ := v
  cases json with
  | scalar a => rfl
  | arr items => rw [Json.rebuild_arr]; rfl
  | obj ms =>
    rw [Json.distinctKeys_obj] at hdistinct
    simp only [Json.rebuild_obj, expOf, lookup_returned hdistinct.1]
    cases ms.lookup (ofString "exp") with
    | none => rfl
    | some w =>
      rw [Option.map_some]
      cases w with
      | arr items => rw [Json.rebuild_arr]; rfl
      | obj members => rw [Json.rebuild_obj]; rfl
      | scalar a =>
        rw [Json.rebuild_scalar]
        cases a with
        | num n => cases n <;> rfl
        | null => rfl
        | bool b => rfl
        | str t => rfl

private theorem parse_body
    (hread : ∀ n : Num, n.isFinite = true → toNumber n.print = n.unsigned) (call : SignCall) :
    parse toNumber (fromUtf8 (fromBase64url call.body)) = some call.returned := by
  have hform : wellFormed (stringifyText call.payload.json) = true := wellFormed_ofString _
  rw [SignCall.body, payloadBody, fromBase64url_toBase64url, fromUtf8_toUtf8_of_wellFormed hform]
  exact parse_stringifyText hread call.payload.distinct

private theorem body_ne_nil
    (hread : ∀ n : Num, n.isFinite = true → toNumber n.print = n.unsigned) (call : SignCall) :
    call.body ≠ [] := by
  intro hnil
  have hparse := parse_body hread call
  rw [hnil] at hparse
  cases hparse

private theorem accepted_signed {history : List SignCall} {known : List UInt8 → Prop}
    {secret : Text} (hideal : IdealMac hmac secret history known) {token : Text}
    {purpose : CookiePurpose} {nowSeconds : Num} {payload : Json} (hknown : known (tagOf token))
    (h : verifyPayload hmac toNumber token secret purpose nowSeconds = .ok payload) :
    ∃ call ∈ history, call.secret = secret ∧ call.purpose = purpose ∧ bodyOf token = call.body ∧
      tagOf token = hmac call.secret call.message := by
  obtain ⟨body, signature, exp, hsplit, htag, -, -, -⟩ := verifyPayload_cases h
  have hpresented : tagOf token = hmac secret (toUtf8 (macInput purpose body)) := by
    rw [tagOf, hsplit]
    exact htag
  rw [hpresented] at hknown
  obtain ⟨call, hcall, hsecret, hmessage⟩ := hideal.unforged _ hknown
  obtain ⟨hpurpose, hbody⟩ := message_inj hmessage.symm
  refine ⟨call, hcall, hsecret, hpurpose.symm, ?_, ?_⟩
  · rw [bodyOf, hsplit]
    exact hbody
  · rw [hpresented, hsecret, hmessage]

private theorem accepted_tokenWith {history : List SignCall} {known : List UInt8 → Prop}
    {call : SignCall} (hideal : IdealMac hmac call.secret history known) (hcall : call ∈ history)
    {body : Text}
    {purpose : CookiePurpose} {nowSeconds : Num} {payload : Json}
    (h : verifyPayload hmac toNumber (call.tokenWith hmac body) call.secret purpose nowSeconds =
      .ok payload) : purpose = call.purpose ∧ body = call.body := by
  have hsplit := splitOn_token body (hmac call.secret call.message)
  obtain ⟨segment, signature, exp, haccepted, -⟩ := verifyPayload_cases h
  -- the body is one segment
  have hone : body.splitOn (unit '.') = [segment] := by
    rw [SignCall.tokenWith] at haccepted
    rw [haccepted] at hsplit
    have htail := (List.cons.inj hsplit).2
    cases hparts : body.splitOn (unit '.') with
    | nil => exact absurd hparts (List.splitOn_ne_nil _ _)
    | cons part parts =>
      rw [hparts, List.cons_append] at htail
      obtain ⟨rfl, hrest⟩ := List.cons.inj htail
      cases parts with
      | nil => rfl
      | cons next parts => simp at hrest
  have hbody : segment = body := by
    have hback : [unit '.'].intercalate (body.splitOn (unit '.')) = body :=
      List.intercalate_splitOn _
    rwa [hone, List.intercalate_singleton] at hback
  have htag : tagOf (call.tokenWith hmac body) = hmac call.secret call.message := by
    rw [tagOf, SignCall.tokenWith, hsplit, hone]
    exact fromBase64url_toBase64url _
  have hbodyOf : bodyOf (call.tokenWith hmac body) = body := by
    rw [bodyOf, SignCall.tokenWith, hsplit, hone, hbody]
    rfl
  have hknown : known (tagOf (call.tokenWith hmac body)) := by
    rw [htag]
    exact hideal.issued call hcall rfl
  obtain ⟨call', hcall', hsecret, hpurpose, hbody', htag'⟩ := accepted_signed hideal hknown h
  rw [hsecret, htag] at htag'
  have hmessage := hideal.separate call hcall call' hcall' rfl hsecret htag'
  obtain ⟨hp, hb⟩ := message_inj hmessage
  exact ⟨hpurpose.symm.trans hp.symm, hbodyOf.symm.trans (hbody'.trans hb.symm)⟩

end

/-- An accepted payload was signed for its purpose, and is returned as JSON prints it. -/
theorem verifyPayload_signed {hmac : Text → List UInt8 → List UInt8} {toNumber : Text → Num}
    {history : List SignCall} {known : List UInt8 → Prop}
    (hread : ∀ n : Num, n.isFinite = true → toNumber n.print = n.unsigned)
    {secret : Text} (hideal : IdealMac hmac secret history known) {token : Text}
    {purpose : CookiePurpose} {nowSeconds : Num} {payload : Json} (hknown : known (tagOf token))
    (h : verifyPayload hmac toNumber token secret purpose nowSeconds = .ok payload) :
    ∃ call ∈ history, call.secret = secret ∧ call.purpose = purpose ∧
      bodyOf token = call.body ∧ payload = call.returned ∧
      ∃ exp, expOf call.payload.json = some exp ∧ Num.le exp nowSeconds = false := by
  obtain ⟨call, hcall, hsecret, hpurpose, hbody, -⟩ := accepted_signed hideal hknown h
  obtain ⟨body, signature, exp, hsplit, -, hparse, hexp, hle⟩ := verifyPayload_cases h
  have hsegment : body = call.body := by
    rw [← hbody, bodyOf, hsplit]
    rfl
  rw [hsegment, parse_body hread call, Option.some.injEq] at hparse
  have hnumber := expOf_returned call.payload
  rw [← SignCall.returned, hparse, hexp] at hnumber
  refine ⟨call, hcall, hsecret, hpurpose, hbody, hparse.symm, ?_⟩
  cases hpayload : expOf call.payload.json with
  | none => simp [hpayload] at hnumber
  | some e =>
    rw [hpayload] at hnumber
    refine ⟨e, rfl, ?_⟩
    cases hfinite : e.isFinite with
    | false => simp [hfinite] at hnumber
    | true =>
      simp only [Option.filter_some, hfinite, if_true, Option.map_some,
        Option.some.injEq] at hnumber
      rw [← Num.unsigned_le, ← hnumber, hle]

/-- The token of a signed payload is accepted until its `exp`. -/
theorem verifyPayload_token {hmac : Text → List UInt8 → List UInt8} {toNumber : Text → Num}
    (hread : ∀ n : Num, n.isFinite = true → toNumber n.print = n.unsigned)
    (hlength : ∀ secret message, (hmac secret message).length = 32) (call : SignCall)
    {nowSeconds exp : Num} (hexp : expOf call.payload.json = some exp)
    (hfinite : exp.isFinite = true) (hle : Num.le exp nowSeconds = false) :
    verifyPayload hmac toNumber (call.token hmac) call.secret call.purpose nowSeconds =
      .ok call.returned := by
  have hsplit := splitOn_token call.body (hmac call.secret call.message)
  have hreturned : expOf call.returned = some exp.unsigned := by
    rw [SignCall.returned, expOf_returned, hexp]
    simp [hfinite]
  have htag : hmac call.secret call.message ≠ [] := by
    intro hnil
    have h32 := hlength call.secret call.message
    rw [hnil] at h32
    simp at h32
  rw [SignCall.body, payloadBody, splitOn_body] at hsplit
  refine verifyPayload_eq hsplit (body_ne_nil hread call) (toBase64url_ne_nil htag) ?_
    (parse_body hread call) hreturned (by rw [Num.unsigned_le, hle])
  exact fromBase64url_toBase64url _

/-- Under a secret whose MAC is ideal, a token whose tag is known is accepted only for a payload signed
before for the same purpose and not yet expired, and that payload is returned as JSON prints it.  A
signed payload is accepted until its `exp`, under its own purpose and with its own body only. -/
theorem verifyPayload_authentic {hmac : Text → List UInt8 → List UInt8} {toNumber : Text → Num}
    {history : List SignCall} {known : List UInt8 → Prop}
    (hread : ∀ n : Num, n.isFinite = true → toNumber n.print = n.unsigned)
    (hlength : ∀ secret message, (hmac secret message).length = 32) {secret : Text}
    (hideal : IdealMac hmac secret history known) :
    (∀ token purpose nowSeconds payload, known (tagOf token) →
      verifyPayload hmac toNumber token secret purpose nowSeconds = .ok payload →
      ∃ call ∈ history, call.secret = secret ∧ call.purpose = purpose ∧
        bodyOf token = call.body ∧ payload = call.returned ∧
        ∃ exp, expOf call.payload.json = some exp ∧ Num.le exp nowSeconds = false) ∧
    (∀ (call : SignCall) nowSeconds exp, expOf call.payload.json = some exp →
      exp.isFinite = true → Num.le exp nowSeconds = false →
      verifyPayload hmac toNumber (call.token hmac) call.secret call.purpose nowSeconds =
        .ok call.returned) ∧
    (∀ call ∈ history, call.secret = secret → ∀ purpose nowSeconds payload,
      purpose ≠ call.purpose →
      verifyPayload hmac toNumber (call.token hmac) secret purpose nowSeconds ≠ .ok payload) ∧
    (∀ call ∈ history, call.secret = secret → ∀ body purpose nowSeconds payload,
      body ≠ call.body →
      verifyPayload hmac toNumber (call.tokenWith hmac body) secret purpose nowSeconds ≠
        .ok payload) ∧
    (∀ token nowSeconds session, known (tagOf token) →
      gateSession hmac toNumber token secret nowSeconds = some session →
      ∃ call ∈ history, call.secret = secret ∧ call.purpose = .session ∧
        session = call.returned ∧ isSessionData session = true) := by
  refine ⟨fun _ _ _ _ hknown h => verifyPayload_signed hread hideal hknown h, ?_, ?_, ?_, ?_⟩
  · intro call nowSeconds exp hexp hfinite hle
    exact verifyPayload_token hread hlength call hexp hfinite hle
  · rintro call hcall rfl purpose nowSeconds payload hpurpose h
    exact hpurpose (@accepted_tokenWith _ _ _ _ _ hideal hcall call.body _ _ _ h).1
  · rintro call hcall rfl body purpose nowSeconds payload hbody h
    exact hbody (accepted_tokenWith hideal hcall h).2
  · intro token nowSeconds session hknown h
    unfold gateSession at h
    split at h
    · cases h
    · split at h
      · rename_i payload hverified
        split at h
        · rename_i hsession
          obtain rfl := Option.some.inj h
          obtain ⟨call, hcall, hsecret, hpurpose, -, hpayload, -⟩ :=
            verifyPayload_signed hread hideal hknown hverified
          exact ⟨call, hcall, hsecret, hpurpose, hpayload, hsession⟩
        · cases h
      · cases h

def loginSecret : Text := ofString "0123456789abcdef0123456789abcdef"

def loginTransaction : SignCall where
  payload := ⟨.obj [(ofString "state", .scalar (.str (ofString "s"))),
    (ofString "nonce", .scalar (.str (ofString "n"))),
    (ofString "codeVerifier", .scalar (.str (ofString "v"))),
    (ofString "returnTo", .scalar (.str (ofString "/"))),
    (ofString "iat", .scalar (.num (.ofInt 0))), (ofString "exp", .scalar (.num (.ofInt 600)))],
    by decide⟩
  secret := loginSecret
  purpose := .txn

def loginSession : SignCall where
  payload := ⟨.obj [(ofString "sub", .scalar (.str (ofString "ada"))),
    (ofString "roles", .arr [.scalar (.str (ofString "admin"))]),
    (ofString "iat", .scalar (.num (.ofInt 0))), (ofString "exp", .scalar (.num (.ofInt 28800)))],
    by decide⟩
  secret := loginSecret
  purpose := .session

def sessionTag : List UInt8 :=
  [123, 84, 233, 223, 1, 147, 166, 180, 22, 230, 48, 161, 161, 157, 25, 232,
    7, 200, 68, 55, 166, 2, 5, 78, 155, 3, 65, 208, 52, 37, 149, 207]

def txnTag : List UInt8 :=
  [34, 94, 247, 153, 226, 102, 152, 227, 79, 207, 37, 22, 177, 169, 124, 98,
    145, 11, 176, 246, 104, 92, 63, 183, 218, 99, 143, 234, 172, 39, 144, 156]

/-- HMAC-SHA256 on the two messages that are signed. -/
def loginHmac (secret : Text) (message : List UInt8) : List UInt8 :=
  if secret = loginSecret ∧ message = loginSession.message then sessionTag
  else if secret = loginSecret ∧ message = loginTransaction.message then txnTag
  else List.replicate 32 0

private theorem login_messages_ne : loginSession.message ≠ loginTransaction.message := by
  intro h
  exact absurd (message_inj h).1 (by decide)

private theorem loginHmac_session :
    loginHmac loginSession.secret loginSession.message = sessionTag := by
  rw [loginHmac, if_pos ⟨rfl, rfl⟩]

theorem loginHmac_txn :
    loginHmac loginTransaction.secret loginTransaction.message = txnTag := by
  rw [loginHmac, if_neg fun h => login_messages_ne h.2.symm, if_pos ⟨rfl, rfl⟩]

theorem login_ideal : IdealMac loginHmac loginSecret [loginTransaction, loginSession]
    fun tag => tag = sessionTag ∨ tag = txnTag where
  issued := by
    intro call hcall
    simp only [List.mem_cons, List.not_mem_nil, or_false] at hcall
    rcases hcall with rfl | rfl
    · exact fun _ => .inr loginHmac_txn
    · exact fun _ => .inl loginHmac_session
  unforged := by
    intro message h
    unfold loginHmac at h
    split at h
    · rename_i hsigned
      exact ⟨loginSession, by simp, hsigned.1.symm, hsigned.2.symm⟩
    · split at h
      · rename_i hsigned
        exact ⟨loginTransaction, by simp, hsigned.1.symm, hsigned.2.symm⟩
      · exact absurd h (by decide)
  separate := by
    intro call hcall call' hcall' _ _ htag
    simp only [List.mem_cons, List.not_mem_nil, or_false] at hcall hcall'
    rcases hcall with rfl | rfl <;> rcases hcall' with rfl | rfl
    · rfl
    · exact absurd (loginHmac_txn.symm.trans (htag.trans loginHmac_session)) (by decide)
    · exact absurd (loginHmac_session.symm.trans (htag.trans loginHmac_txn)) (by decide)
    · rfl

theorem length_loginHmac (secret : Text) (message : List UInt8) :
    (loginHmac secret message).length = 32 := by
  unfold loginHmac
  split
  · rfl
  · split
    · rfl
    · rfl

/-- The session token of a login is accepted an hour later, its transaction token never is. -/
theorem verifyPayload_authentic_login :
    verifyPayload loginHmac exactNumber
        (loginSession.token loginHmac) loginSecret .session (.ofInt 3600) =
      .ok loginSession.returned ∧
    ∀ nowSeconds payload,
      verifyPayload loginHmac exactNumber
        (loginTransaction.token loginHmac) loginSecret .session nowSeconds ≠ .ok payload := by
  obtain ⟨-, haccepted, hpurpose, -⟩ :=
    verifyPayload_authentic (fun _ hn => exactNumber_print hn) length_loginHmac login_ideal
  exact ⟨haccepted loginSession (.ofInt 3600) (.ofInt 28800) (by decide) (by decide) (by decide),
    fun nowSeconds payload => hpurpose loginTransaction (by simp) rfl .session nowSeconds
      payload (by decide)⟩

end OpenRupiv.Runtime
