import OpenRupiv.Js.Url
import OpenRupiv.Runtime.Session

/-!
# Logins

`GET /auth/login` and `GET /auth/callback` of `packages/runtime/src/auth.ts`: the destination after
a login travels in the signed transaction cookie.  The code exchange with the identity provider is
an input of the callback.
-/

namespace OpenRupiv.Runtime.Login

open Js

inductive QueryValue where
  | absent
  | one (value : Text)
  | many (values : List Text)

/-- `[\u0000-\u001f\u007f]`. -/
def isControl (u : UInt16) : Bool := u.toNat ≤ 31 || u = 127

/-- A path of the site that a browser does not read as a URL of another one. -/
def isLocalPath (value : Text) : Bool :=
  !(value.any isControl) && (ofString "/").isPrefixOf value &&
    !((ofString "//").isPrefixOf value) && !([47, 92].isPrefixOf value)

def sanitizeReturnTo : QueryValue → Text
  | .one value => if isLocalPath value then value else ofString "/"
  | _ => ofString "/"

def SESSION_TTL_SECONDS : Int := 8 * 60 * 60

def AUTH_TXN_TTL_SECONDS : Int := 10 * 60

structure LoginTransaction where
  state : Text
  nonce : Text
  codeVerifier : Text
  returnTo : Text
  iat : Int
  exp : Int

def text (s : Text) : Json := .scalar (.str s)

def seconds (n : Int) : Json := .scalar (.num (.ofInt n))

def LoginTransaction.payload (txn : LoginTransaction) : Value where
  json := .obj [(ofString "state", text txn.state), (ofString "nonce", text txn.nonce),
    (ofString "codeVerifier", text txn.codeVerifier), (ofString "returnTo", text txn.returnTo),
    (ofString "iat", seconds txn.iat), (ofString "exp", seconds txn.exp)]
  distinct := by rfl

/-- A request with what is drawn at random for it, and its time. -/
structure LoginRequest where
  returnTo : QueryValue
  state : Text
  nonce : Text
  codeVerifier : Text
  nowSeconds : Int

/-- The transaction that the cookie of the answer holds. -/
def LoginRequest.txn (r : LoginRequest) : LoginTransaction where
  state := r.state
  nonce := r.nonce
  codeVerifier := r.codeVerifier
  returnTo := sanitizeReturnTo r.returnTo
  iat := r.nowSeconds
  exp := r.nowSeconds + AUTH_TXN_TTL_SECONDS

def LoginRequest.signed (secret : Text) (r : LoginRequest) : SignCall where
  payload := r.txn.payload
  secret
  purpose := .txn

structure AuthConfig where
  secret : Text
  rolesClaim : Text
  devMode : Bool
  appRoles : List Text

/-- A request with its cookie, the time, and what becomes of the code exchange for a transaction:
the claims of the ID token if it has any. -/
structure CallbackRequest where
  cookie : Option Text
  nowSeconds : Int
  exchange : Json → Except Text (Option Object)

inductive CallbackError where
  | noTransaction
  | rejected (reason : VerifyFailureReason)
  | exchangeFailed (message : Text)
  | missingSub
  | reservedIdentity (sub : Text)

def reasonText : VerifyFailureReason → String
  | .malformed => "malformed"
  | .badSignature => "bad_signature"
  | .expired => "expired"

def CallbackError.code : CallbackError → String
  | .reservedIdentity _ => "ERR_RESERVED_IDENTITY_PREFIX"
  | _ => "ERR_OIDC_CALLBACK"

def CallbackError.statusCode : CallbackError → Nat
  | .noTransaction | .rejected _ => 400
  | _ => 401

def CallbackError.message : CallbackError → Text
  | .noTransaction => ofString "no login transaction found; start again at /auth/login"
  | .rejected reason => ofString
      ("login transaction rejected (" ++ reasonText reason ++ "); start again at /auth/login")
  | .exchangeFailed message => ofString "authorization code exchange failed: " ++ message
  | .missingSub => ofString "ID token is missing a sub claim"
  | .reservedIdentity sub => ofString "OIDC sub " ++ jsonText sub ++
      ofString (" carries a reserved identity prefix (\"agent:\" or \"a2a:\") and cannot be " ++
        "used for a human session")

def textOf : Option Json → Option Text
  | some (.scalar (.str s)) => some s
  | _ => none

def isReserved (sub : Text) : Bool :=
  (ofString "agent:").isPrefixOf sub || (ofString "a2a:").isPrefixOf sub

def extractRoles : Option Json → List Text
  | some (.arr items) => items.filterMap fun item => textOf (some item)
  | some (.scalar (.str s)) => if s = [] then [] else [s]
  | _ => []

/-- `createSession`. -/
def sessionPayload (sub : Text) (email : Option Text) (roles : List Text) (nowSeconds : Int) :
    Value where
  json := .obj ([(ofString "sub", text sub), (ofString "roles", .arr (roles.map text)),
    (ofString "iat", seconds nowSeconds),
    (ofString "exp", seconds (nowSeconds + SESSION_TTL_SECONDS))] ++
    (email.map fun e => (ofString "email", text e)).toList)
  distinct := by
    have hroles : (Json.arr (roles.map text)).distinctKeys = true := by
      rw [Json.distinctKeys_arr]
      intro v hv
      obtain ⟨role, -, rfl⟩ := List.mem_map.mp hv
      rfl
    rw [Json.distinctKeys_obj]
    have hfour : (["sub", "roles", "iat", "exp"].map ofString).Nodup := by decide +kernel
    have hfive : (["sub", "roles", "iat", "exp", "email"].map ofString).Nodup := by decide +kernel
    cases email with
    | none =>
      refine ⟨hfour, ?_⟩
      intro m hm
      simp only [Option.map_none, Option.toList_none, List.append_nil, List.mem_cons,
        List.not_mem_nil, or_false] at hm
      rcases hm with rfl | rfl | rfl | rfl
      · rfl
      · exact hroles
      · rfl
      · rfl
    | some e =>
      refine ⟨hfive, ?_⟩
      intro m hm
      simp only [Option.map_some, Option.toList_some, List.cons_append, List.nil_append,
        List.mem_cons, List.not_mem_nil, or_false] at hm
      rcases hm with rfl | rfl | rfl | rfl | rfl
      · rfl
      · exact hroles
      · rfl
      · rfl
      · rfl

/-- A login that succeeds: the session that is signed, and the destination of the redirect. -/
structure LoggedIn where
  session : SignCall
  location : Option Text

section

variable (hmac : Text → List UInt8 → List UInt8) (toNumber : Text → Num) (cfg : AuthConfig)

def sessionFor (nowSeconds : Int) (claims : Option Object) : Except CallbackError Value :=
  let claim (k : Text) : Option Json := claims.bind fun c => c.members.lookup k
  match textOf (claim (ofString "sub")) with
  | none | some [] => .error .missingSub
  | some sub =>
      if isReserved sub then .error (.reservedIdentity sub)
      else
        let roles := extractRoles (claim cfg.rolesClaim)
        let roles := if roles = [] ∧ cfg.devMode = true then cfg.appRoles else roles
        .ok (sessionPayload sub (textOf (claim (ofString "email"))) roles nowSeconds)

def memberOf (payload : Json) (k : String) : Option Json :=
  match payload with
  | .obj members => members.lookup (ofString k)
  | _ => none

def callback (r : CallbackRequest) : Except CallbackError LoggedIn :=
  match r.cookie.filter fun c => c ≠ [] with
  | none => .error .noTransaction
  | some cookie =>
      match verifyPayload hmac toNumber cookie cfg.secret .txn (.ofInt r.nowSeconds) with
      | .error reason => .error (.rejected reason)
      | .ok txn =>
          match r.exchange txn with
          | .error message => .error (.exchangeFailed message)
          | .ok claims =>
              match sessionFor cfg r.nowSeconds claims with
              | .error e => .error e
              | .ok payload => .ok
                  { session := { payload, secret := cfg.secret, purpose := .session }
                    location := textOf (memberOf txn "returnTo") }

inductive AuthRequest where
  | login (r : LoginRequest)
  | callback (r : CallbackRequest)

/-- What the answer to a request signs. -/
def signedBy : AuthRequest → List SignCall
  | .login r => [r.signed cfg.secret]
  | .callback r =>
      match callback hmac toNumber cfg r with
      | .ok done => [done.session]
      | .error _ => []

def signedIn (requests : List AuthRequest) : List SignCall :=
  requests.flatMap (signedBy hmac toNumber cfg)

variable {hmac toNumber cfg}

theorem mem_signedIn_txn {requests : List AuthRequest} {call : SignCall}
    (h : call ∈ signedIn hmac toNumber cfg requests) (hpurpose : call.purpose = .txn) :
    ∃ r : LoginRequest, call = r.signed cfg.secret := by
  obtain ⟨request, -, hcall⟩ := List.mem_flatMap.mp h
  cases request with
  | login r => exact ⟨r, List.mem_singleton.mp hcall⟩
  | callback r =>
    exfalso
    have hsession : ∀ done, callback hmac toNumber cfg r = .ok done →
        done.session.purpose = .session := by
      intro done hdone
      unfold callback at hdone
      split at hdone
      · cases hdone
      · split at hdone
        · cases hdone
        · split at hdone
          · cases hdone
          · split at hdone
            · cases hdone
            · rw [← Except.ok.inj hdone]
    rw [signedBy] at hcall
    cases hdone : callback hmac toNumber cfg r with
    | error e =>
      rw [hdone] at hcall
      exact absurd hcall List.not_mem_nil
    | ok done =>
      rw [hdone] at hcall
      rw [List.mem_singleton.mp hcall, hsession done hdone] at hpurpose
      exact absurd hpurpose (by decide)

theorem callback_eq_ok {r : CallbackRequest} {done : LoggedIn}
    (h : callback hmac toNumber cfg r = .ok done) :
    ∃ cookie ∈ r.cookie, ∃ txn,
      verifyPayload hmac toNumber cookie cfg.secret .txn (.ofInt r.nowSeconds) = .ok txn ∧
      done.location = textOf (memberOf txn "returnTo") := by
  unfold callback at h
  split at h
  · cases h
  · rename_i cookie hcookie
    split at h
    · cases h
    · rename_i txn htxn
      split at h
      · cases h
      · split at h
        · cases h
        · rw [← Except.ok.inj h]
          exact ⟨cookie, (Option.filter_eq_some_iff.mp hcookie).1, txn, htxn, rfl⟩

end

/-- The destination that a transaction carries comes back from JSON as it was. -/
theorem returnTo_returned (secret : Text) (r : LoginRequest) :
    textOf (memberOf (r.signed secret).returned "returnTo") =
      some (sanitizeReturnTo r.returnTo) := by
  have hdistinct := r.txn.payload.distinct
  rw [LoginTransaction.payload, Json.distinctKeys_obj] at hdistinct
  change textOf (memberOf (Json.rebuild Scalar.printed .own r.txn.payload.json) "returnTo") = _
  rw [LoginTransaction.payload, Json.rebuild_obj]
  unfold memberOf
  dsimp only
  rw [lookup_returned hdistinct.1]
  rfl

/-- After its slash a sanitized path has no control, and it starts with no other slash. -/
theorem sanitizeReturnTo_eq (value : QueryValue) :
    ∃ path, sanitizeReturnTo value = 47 :: path ∧ (∀ u ∈ path, Url.isTabOrNewline u = false) ∧
      ∀ u, path.head? = some u → Url.isSlash u = false := by
  have hroot : ∃ path, ofString "/" = 47 :: path ∧
      (∀ u ∈ path, Url.isTabOrNewline u = false) ∧
      ∀ u, path.head? = some u → Url.isSlash u = false :=
    ⟨[], by decide, by simp, by simp⟩
  cases value with
  | absent => exact hroot
  | many values => exact hroot
  | one value =>
    rw [sanitizeReturnTo]
    split
    · rename_i hlocal
      simp only [isLocalPath, Bool.and_eq_true, Bool.not_eq_true', List.any_eq_false] at hlocal
      obtain ⟨⟨⟨hclean, hslash⟩, hdouble⟩, hback⟩ := hlocal
      have hone : ofString "/" = [47] := by decide
      have htwo : ofString "//" = [47, 47] := by decide
      rw [hone, List.isPrefixOf_iff_prefix] at hslash
      obtain ⟨path, rfl⟩ := hslash
      refine ⟨path, rfl, ?_, ?_⟩
      · intro u hu
        have hcontrol := hclean u (List.mem_append_right _ hu)
        have hfar : ∀ v : UInt16, isControl v = true → u ≠ v := by
          rintro v hv rfl
          exact hcontrol hv
        simp [Url.isTabOrNewline, hfar 9 (by decide), hfar 10 (by decide), hfar 13 (by decide)]
      · intro u hu
        obtain ⟨rest, rfl⟩ := List.head?_eq_some_iff.mp hu
        have hne : ∀ v, [47, v].isPrefixOf ([47] ++ u :: rest) = false → u ≠ v := by
          rintro v hv rfl
          have hsome : [47, u].isPrefixOf ([47] ++ u :: rest) = true :=
            List.isPrefixOf_iff_prefix.mpr ⟨rest, rfl⟩
          rw [hsome] at hv
          exact absurd hv (by decide)
        rw [htwo] at hdouble
        simp [Url.isSlash, hne 47 hdouble, hne 92 hback]
    · exact hroot

/-- After any requests, the redirect of a callback that succeeds leads, from the base URL, to the
origin of the base URL, when the tag of its cookie is one that an ideal MAC lets anyone know. -/
theorem login_stays_at_origin {hmac : Text → List UInt8 → List UInt8} {toNumber : Text → Num}
    (hread : ∀ n : Num, n.isFinite = true → toNumber n.print = n.unsigned) (cfg : AuthConfig)
    (requests : List AuthRequest) {known : List UInt8 → Prop}
    (hideal : IdealMac hmac cfg.secret (signedIn hmac toNumber cfg requests) known) (r : CallbackRequest)
    (hknown : ∀ cookie ∈ r.cookie, known (tagOf cookie)) {done : LoggedIn}
    (h : callback hmac toNumber cfg r = .ok done)
    (authority other : Text → Text → Option Url.Origin) (base : Url.Base) :
    ∃ location, done.location = some location ∧
      Url.resolve authority other base location = some base.toOrigin := by
  obtain ⟨cookie, hcookie, txn, htxn, hlocation⟩ := callback_eq_ok h
  obtain ⟨call, hcall, -, hpurpose, -, hpayload, -⟩ :=
    verifyPayload_signed hread hideal (hknown cookie hcookie) htxn
  obtain ⟨login, rfl⟩ := mem_signedIn_txn hcall hpurpose
  rw [hpayload, returnTo_returned] at hlocation
  obtain ⟨path, hpath, hclean, hhead⟩ := sanitizeReturnTo_eq login.returnTo
  refine ⟨_, hlocation, ?_⟩
  rw [hpath]
  exact Url.resolve_path base hclean hhead

private def leaving : LoginRequest where
  returnTo := .one (ofString "//elsewhere")
  state := ofString "s"
  nonce := ofString "n"
  codeVerifier := ofString "v"
  nowSeconds := 0

private def siteConfig : AuthConfig where
  secret := loginSecret
  rolesClaim := ofString "roles"
  devMode := false
  appRoles := []

private def comingClaims : Object where
  members :=
    [(ofString "sub", text (ofString "ada")), (ofString "roles", .arr [text (ofString "admin")])]
  distinct := by decide +kernel

private def coming : CallbackRequest where
  cookie := some (loginTransaction.token loginHmac)
  nowSeconds := 0
  exchange := fun _ => .ok (some comingClaims)

private theorem sessionFor_coming :
    sessionFor siteConfig 0 (some comingClaims) = .ok loginSession.payload := by
  rfl

private theorem callback_coming :
    callback loginHmac exactNumber siteConfig coming =
      .ok ⟨loginSession, textOf (memberOf loginTransaction.returned "returnTo")⟩ := by
  have hverify : verifyPayload loginHmac exactNumber (loginTransaction.token loginHmac)
      siteConfig.secret .txn (.ofInt coming.nowSeconds) = .ok loginTransaction.returned :=
    @verifyPayload_token loginHmac exactNumber (fun _ hn => exactNumber_print hn) length_loginHmac
      loginTransaction _ (.ofInt 600) (by decide) (by decide) (by decide)
  have hcookie : coming.cookie.filter (fun c => c ≠ []) =
      some (loginTransaction.token loginHmac) := by
    rfl
  rw [callback, hcookie]
  dsimp only
  rw [hverify]
  have hexchange : coming.exchange loginTransaction.returned = .ok (some comingClaims) := rfl
  have hnow : coming.nowSeconds = 0 := rfl
  dsimp only
  rw [hexchange, hnow]
  dsimp only
  rw [sessionFor_coming]
  rfl

/-- Who asked to be led elsewhere stays. -/
theorem login_stays_at_origin_leaving :
    ∃ location, textOf (memberOf loginTransaction.returned "returnTo") = some location ∧
      Url.resolve (fun _ _ => none) (fun _ _ => none)
        ⟨⟨ofString "https", ofString "app", none⟩, by decide +kernel⟩ location =
      some ⟨ofString "https", ofString "app", none⟩ := by
  have hsigned : signedIn loginHmac exactNumber siteConfig [.login leaving, .callback coming] =
      [loginTransaction, loginSession] := by
    rw [signedIn, List.flatMap_cons, List.flatMap_cons, signedBy, signedBy, callback_coming]
    rfl
  have hideal : IdealMac loginHmac siteConfig.secret
      (signedIn loginHmac exactNumber siteConfig [.login leaving, .callback coming])
      fun tag => tag = sessionTag ∨ tag = txnTag := by
    rw [hsigned]
    exact login_ideal
  have hknown : ∀ cookie ∈ coming.cookie, tagOf cookie = sessionTag ∨ tagOf cookie = txnTag := by
    intro cookie hcookie
    rw [← Option.some.inj hcookie, tagOf_token]
    exact .inr loginHmac_txn
  exact login_stays_at_origin (fun _ hn => exactNumber_print hn) siteConfig
    [.login leaving, .callback coming] hideal coming hknown callback_coming (fun _ _ => none)
    (fun _ _ => none) ⟨⟨ofString "https", ofString "app", none⟩, by decide +kernel⟩

end OpenRupiv.Runtime.Login
