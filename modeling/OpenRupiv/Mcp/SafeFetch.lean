import OpenRupiv.Js.Trim
import Mathlib.Data.List.Chain

/-!
# Redirects of the MCP transport

`makeSafeFetch` of `packages/mcp/src/client.ts`: redirects are followed by hand, within the origin of
the first URL.  What a URL is, how a `Location` is resolved and what the origin of a URL is are
parameters.
-/

namespace OpenRupiv.Mcp

open Js

/-- `init`, with the members that the transport passes on. -/
structure RequestInit (Rest : Type) where
  headers : List (Text × Text)
  redirect : Option Text
  rest : Rest

structure FetchCall (Url Rest : Type) where
  url : Url
  init : RequestInit Rest

structure FetchResponse (Body : Type) where
  status : Nat
  location : Option Text
  body : Body

inductive FetchError where
  /-- `baseFetch` rejects. -/
  | failed (message : Text)
  | tooManyRedirects
  /-- `new URL(location, currentUrl)` throws. -/
  | invalidUrl
  | crossOrigin

/-- A request with its answer. -/
structure Exchange (Url Rest Body : Type) where
  call : FetchCall Url Rest
  answer : Except Text (FetchResponse Body)

variable {Url Origin Rest Body : Type} [DecidableEq Origin]

/-- The `Location` of a redirect, unless it is empty. -/
def FetchResponse.target (response : FetchResponse Body) : Option Text :=
  if 300 ≤ response.status ∧ response.status < 400 then
    response.location.filter fun location => location ≠ []
  else none

/-- `headers.set(name, value)`; names are compared in lower case. -/
def setHeader (headers : List (Text × Text)) (name value : Text) : List (Text × Text) :=
  (headers.filter fun h => h.1.map lowerUnit ≠ name) ++ [(name, value)]

/-- The headers with the token that the environment has at this moment, unless it is empty. -/
def authorized (token : Option Text) (headers : List (Text × Text)) : List (Text × Text) :=
  match token with
  | some token =>
      if token = [] then headers
      else setHeader headers (ofString "authorization") (ofString "Bearer " ++ token)
  | none => headers

def manual (token : Option Text) (init : RequestInit Rest) : RequestInit Rest where
  headers := authorized token init.headers
  redirect := some (ofString "manual")
  rest := init.rest

section

variable (resolve : Text → Url → Option Url) (origin : Url → Origin)
  (baseFetch : Nat → Except Text (FetchResponse Body)) (requestUrl : Url) (init : RequestInit Rest)

/-- The loop, after so many redirects: the exchanges and the end.  `baseFetch n` is what the server
answers to request number `n`. -/
def follow (redirects : Nat) (currentUrl : Url) :
    List (Exchange Url Rest Body) × Except FetchError (FetchResponse Body) :=
  let exchange : Exchange Url Rest Body := ⟨⟨currentUrl, init⟩, baseFetch redirects⟩
  match baseFetch redirects with
  | .error message => ([exchange], .error (.failed message))
  | .ok response =>
      match response.target with
      | none => ([exchange], .ok response)
      | some location =>
          if redirects ≥ 5 then ([exchange], .error .tooManyRedirects)
          else
            match resolve location currentUrl with
            | none => ([exchange], .error .invalidUrl)
            | some nextUrl =>
                if origin nextUrl ≠ origin requestUrl then ([exchange], .error .crossOrigin)
                else
                  let (exchanges, last) := follow (redirects + 1) nextUrl
                  (exchange :: exchanges, last)
  termination_by 5 - redirects

/-- `makeSafeFetch({ tokenEnv })(url, init)`, `token` being the value of the variable. -/
def safeFetch (token : Option Text) :
    List (Exchange Url Rest Body) × Except FetchError (FetchResponse Body) :=
  follow resolve origin baseFetch requestUrl (manual token init) 0 requestUrl

/-- A request goes to where the redirect before it leads, within the origin. -/
def Follows (x y : Exchange Url Rest Body) : Prop :=
  ∃ response location, x.answer = .ok response ∧ response.target = some location ∧
    resolve location x.call.url = some y.call.url ∧ origin y.call.url = origin requestUrl

/-- How the last exchange ends the call. -/
def EndsWith (last : Exchange Url Rest Body) : Except FetchError (FetchResponse Body) → Prop
  | .ok response => last.answer = .ok response ∧ response.target = none
  | .error _ => ∀ response, last.answer = .ok response → response.target ≠ none

/-- The exchanges of a call that stays within the origin, from a URL, and its end. -/
structure Proper (redirects : Nat) (currentUrl : Url)
    (call : List (Exchange Url Rest Body) × Except FetchError (FetchResponse Body)) : Prop where
  within : ∀ x ∈ call.1, origin x.call.url = origin requestUrl ∧ x.call.init = init
  length : call.1.length ≤ 6 - redirects
  first : (call.1.head?.map fun x => x.call.url) = some currentUrl
  answers : ∀ k x, call.1[k]? = some x → x.answer = baseFetch (redirects + k)
  chain : call.1.IsChain (Follows resolve origin requestUrl)
  ends : ∃ before last, call.1 = before ++ [last] ∧ EndsWith last call.2

variable {resolve origin baseFetch requestUrl init}

omit [DecidableEq Origin] in
theorem proper_alone {redirects : Nat} {currentUrl : Url} (hredirects : redirects ≤ 5)
    (horigin : origin currentUrl = origin requestUrl)
    {last : Except FetchError (FetchResponse Body)}
    (hends : EndsWith (⟨⟨currentUrl, init⟩, baseFetch redirects⟩ : Exchange Url Rest Body) last) :
    Proper resolve origin baseFetch requestUrl init redirects currentUrl
      ([⟨⟨currentUrl, init⟩, baseFetch redirects⟩], last) where
  within x hx := by
    obtain rfl := List.mem_singleton.mp hx
    exact ⟨horigin, rfl⟩
  length := by
    rw [List.length_singleton]
    omega
  first := rfl
  answers k x hx := by
    cases k with
    | zero =>
      rw [← Option.some.inj hx]
      rfl
    | succ k => exact absurd hx (by simp)
  chain := .singleton _
  ends := ⟨[], _, rfl, hends⟩

theorem follow_proper {redirects : Nat} {currentUrl : Url} (hredirects : redirects ≤ 5)
    (horigin : origin currentUrl = origin requestUrl) :
    Proper resolve origin baseFetch requestUrl init redirects currentUrl
      (follow resolve origin baseFetch requestUrl init redirects currentUrl) := by
  fun_induction follow resolve origin baseFetch requestUrl init redirects currentUrl with
  | case1 redirects currentUrl exchange message hanswer =>
    refine proper_alone hredirects horigin fun response hresponse => ?_
    exact absurd (hanswer.symm.trans hresponse) (by simp)
  | case2 redirects currentUrl exchange response hanswer htarget =>
    exact proper_alone hredirects horigin ⟨hanswer, htarget⟩
  | case3 redirects currentUrl exchange response hanswer location htarget hmax =>
    refine proper_alone hredirects horigin fun response' hresponse => ?_
    obtain rfl := Except.ok.inj (hanswer.symm.trans hresponse)
    simp [htarget]
  | case4 redirects currentUrl exchange response hanswer location htarget hmax hresolve =>
    refine proper_alone hredirects horigin fun response' hresponse => ?_
    obtain rfl := Except.ok.inj (hanswer.symm.trans hresponse)
    simp [htarget]
  | case5 redirects currentUrl exchange response hanswer location htarget hmax nextUrl hresolve
      hcross =>
    refine proper_alone hredirects horigin fun response' hresponse => ?_
    obtain rfl := Except.ok.inj (hanswer.symm.trans hresponse)
    simp [htarget]
  | case6 redirects currentUrl exchange response hanswer location htarget hmax nextUrl hresolve
      hsame exchanges last hfollow ih =>
    have hnext : origin nextUrl = origin requestUrl := not_not.mp hsame
    have hrest := ih (by omega) hnext
    rw [hfollow] at hrest
    obtain ⟨y, rest, rfl⟩ : ∃ y rest, exchanges = y :: rest := by
      cases exchanges with
      | nil => exact absurd hrest.first (by simp)
      | cons y rest => exact ⟨y, rest, rfl⟩
    have hurl : y.call.url = nextUrl := by simpa using hrest.first
    constructor
    · intro x hx
      rcases List.mem_cons.mp hx with rfl | hx
      · exact ⟨horigin, rfl⟩
      · exact hrest.within x hx
    · have hlength := hrest.length
      simp only [List.length_cons] at hlength ⊢
      omega
    · rfl
    · intro k x hx
      cases k with
      | zero =>
        rw [← Option.some.inj hx]
        rfl
      | succ k =>
        rw [hrest.answers k x hx]
        congr 1
        omega
    · refine .cons_cons ⟨response, location, hanswer, htarget, ?_, ?_⟩ hrest.chain
      · rw [hurl]
        exact hresolve
      · rw [hurl, hnext]
    · obtain ⟨before, z, hbefore, hz⟩ := hrest.ends
      exact ⟨exchange :: before, z, congrArg (exchange :: ·) hbefore, hz⟩

omit [DecidableEq Origin] in
theorem Proper.cross {redirects : Nat} {currentUrl : Url}
    {call : List (Exchange Url Rest Body) × Except FetchError (FetchResponse Body)}
    (h : Proper resolve origin baseFetch requestUrl init redirects currentUrl call) {k : Nat}
    {x : Exchange Url Rest Body} (hx : call.1[k]? = some x) {response : FetchResponse Body}
    (hanswer : x.answer = .ok response) {location : Text} (htarget : response.target = some location)
    {nextUrl : Url} (hresolve : resolve location x.call.url = some nextUrl)
    (hcross : origin nextUrl ≠ origin requestUrl) : call.1.length = k + 1 := by
  obtain ⟨hk, rfl⟩ := List.getElem?_eq_some_iff.mp hx
  by_contra hlength
  obtain ⟨response', location', hanswer', htarget', hresolve', hsame⟩ :=
    List.isChain_iff_getElem.mp h.chain k (by omega)
  obtain rfl := Except.ok.inj (hanswer.symm.trans hanswer')
  obtain rfl := Option.some.inj (htarget.symm.trans htarget')
  obtain rfl := Option.some.inj (hresolve.symm.trans hresolve')
  exact hcross hsame

end

/-- Every request, with or without the token, goes to the origin of the first URL; at most six are
made, each after a redirect within the origin; and the first answer that is no redirect, or an error,
ends the call. -/
theorem requests_stay_within_origin (resolve : Text → Url → Option Url) (origin : Url → Origin)
    (baseFetch : Nat → Except Text (FetchResponse Body)) (requestUrl : Url)
    (init : RequestInit Rest) (token : Option Text) :
    let call := safeFetch resolve origin baseFetch requestUrl init token
    (∀ x ∈ call.1, origin x.call.url = origin requestUrl ∧ x.call.init = manual token init) ∧
      call.1.length ≤ 6 ∧
      (∀ k x, call.1[k]? = some x → x.answer = baseFetch k) ∧
      call.1.IsChain (Follows resolve origin requestUrl) ∧
      (∃ before last, call.1 = before ++ [last] ∧ EndsWith last call.2) ∧
      ∀ k x response location nextUrl, call.1[k]? = some x → x.answer = .ok response →
        response.target = some location → resolve location x.call.url = some nextUrl →
        origin nextUrl ≠ origin requestUrl → call.1.length = k + 1 := by
  intro call
  have h : Proper resolve origin baseFetch requestUrl (manual token init) 0 requestUrl call :=
    follow_proper (by omega) rfl
  refine ⟨h.within, h.length, fun k x hx => ?_, h.chain, h.ends, ?_⟩
  · rw [h.answers k x hx, Nat.zero_add]
  · intro k x response location nextUrl hx hanswer htarget hresolve hcross
    exact h.cross hx hanswer htarget hresolve hcross

end OpenRupiv.Mcp
