/-
# The key of a PURGE

Building a key reaches the cookies of a request through the module's context:
`ngx_http_cache_turbo_cookie_index` reads the one that is installed, and where there
is none every cookie is absent (`ngx_http_cache_turbo_match.c`).  A `GET` installs
its context before it builds its key.  `ngx_http_cache_turbo_purge_request` builds
its key into a context of its own that it never installs; the access phase, which
would have installed one, declines every method but `GET` and `HEAD`.
-/

import CacheTurbo.Http.KeySpec

namespace CacheTurbo
namespace Http

open Bytes

/-! ## Keys with and without a context -/

/-- `ngx_http_cache_turbo_cookie_index` of a request, with the module's context installed
or not. -/
def ctxCookieIndex (installed : Bool) (r : Request) : Option (List CookiePair) :=
  if installed then some (cookieIndex r) else none

/-- `ngx_http_cache_turbo_cookie_index_lookup` through the context. -/
def ctxCookieLookup (installed : Bool) (r : Request) (name : Bytes) : Option Bytes :=
  match ctxCookieIndex installed r with
  | none => none
  | some idx => (idx.find? fun p => p.name == name).map CookiePair.value

/-- `ngx_http_cache_turbo_build_key` with the module's context installed or not. -/
def ctxBuildKey (installed : Bool) (conf : KeyConf) (r : Request) : Bytes :=
  keyFoldAll (keyExpression conf r)
    ((conf.autoKeyCookies ++ conf.keyCookies).filterMap fun name =>
      (ctxCookieLookup installed r name).map fun val => (name, val))

/-- The base key hash a `GET` is looked up and stored under
(`ngx_http_cache_turbo_access_prologue`). -/
def accessKeyHash (digest : Bytes → KeyHash) (conf : KeyConf) (r : Request) : KeyHash :=
  digest (ctxBuildKey true conf r)

/-- The base key hash of `ngx_http_cache_turbo_purge_request`. -/
def purgeRequestKeyHash (digest : Bytes → KeyHash) (conf : KeyConf) (r : Request) : KeyHash :=
  digest (ctxBuildKey false conf r)

/-- With its context installed a request has the key of `buildKey`. -/
theorem ctxBuildKey_installed (conf : KeyConf) (r : Request) :
    ctxBuildKey true conf r = buildKey conf r := rfl

/-- Without one it has the operator's expression alone. -/
theorem ctxBuildKey_bare (conf : KeyConf) (r : Request) :
    ctxBuildKey false conf r = keyExpression conf r := by
  have hnone : ((conf.autoKeyCookies ++ conf.keyCookies).filterMap fun name =>
      (ctxCookieLookup false r name).map fun val => (name, val)) = [] :=
    List.filterMap_eq_nil_iff.2 fun _ _ => rfl
  unfold ctxBuildKey
  rw [hnone]
  exact List.append_nil _

/-! ## When a PURGE finds the entry -/

/-- The same request with another method. -/
def Request.withMethod (r : Request) (method : Method) : Request := { r with method := method }

/-- The key cookies of a request do not depend on its method. -/
theorem keyCookieSlots_withMethod (conf : KeyConf) (r : Request) (method : Method) :
    keyCookieSlots conf (r.withMethod method) = keyCookieSlots conf r := rfl

/-- What the key cookies add to a key. -/
def foldedCookies (conf : KeyConf) (r : Request) : Bytes :=
  (keyCookieSlots conf r).flatMap keyFoldAppend

/-- With nothing added a key is the base, and else it ends in what is added. -/
theorem eq_append_iff {u v w : Bytes} : u = v ++ w ↔ w = [] ∧ u = v ∨ w ≠ [] ∧ u = v ++ w := by
  by_cases hnil : w = []
  · rw [hnil, List.append_nil]
    constructor
    · exact fun h => Or.inl ⟨rfl, h⟩
    · rintro (⟨-, h⟩ | ⟨hne, -⟩)
      · exact h
      · exact absurd rfl hne
  · constructor
    · exact fun h => Or.inr ⟨hnil, h⟩
    · rintro (⟨hempty, -⟩ | ⟨-, h⟩)
      · exact absurd hempty hnil
      · exact h

/-- Nothing is added exactly when the request carries no key cookie. -/
theorem foldedCookies_eq_nil_iff (conf : KeyConf) (r : Request) :
    foldedCookies conf r = [] ↔
      ∀ name ∈ conf.autoKeyCookies ++ conf.keyCookies, cookieIndexLookup r name = none := by
  unfold foldedCookies keyCookieSlots
  rw [List.flatMap_eq_nil_iff]
  constructor
  · intro h name hname
    cases hval : cookieIndexLookup r name with
    | none => rfl
    | some val =>
      have hmem : (name, val) ∈ (conf.autoKeyCookies ++ conf.keyCookies).filterMap fun name =>
          (cookieIndexLookup r name).map fun val => (name, val) :=
        List.mem_filterMap.2 ⟨name, hname, by rw [hval]; rfl⟩
      cases h _ hmem
  · intro h slot hslot
    obtain ⟨name, hname, hval⟩ := List.mem_filterMap.1 hslot
    rw [h name hname] at hval
    cases hval

/-- The value of the operator's expression is the same for a `GET` and a `PURGE`. -/
def MethodBlind (conf : KeyConf) (r : Request) : Prop :=
  keyExpression conf (r.withMethod .purge) = keyExpression conf (r.withMethod .get)

/-- Host and request URI do not depend on the method. -/
theorem methodBlind_of_none {conf : KeyConf} (h : conf.key = none) (r : Request) :
    MethodBlind conf r := by
  unfold MethodBlind keyExpression
  rw [h]
  rfl

/-- **When a PURGE addresses the entry of a GET.**  For every configuration and every
request, and a digest without a collision on the two keys at hand: the two base keys are
equal exactly when the request carries no key cookie and the key expression has one value
for both methods, or the expression gives the `PURGE` what it gives the `GET`, followed by
the very bytes that the key cookies add. -/
theorem purge_addresses_iff (digest : Bytes → KeyHash) (conf : KeyConf) (r : Request)
    (hinj : Set.InjOn digest {ctxBuildKey false conf (r.withMethod .purge),
      ctxBuildKey true conf (r.withMethod .get)}) :
    purgeRequestKeyHash digest conf (r.withMethod .purge) =
        accessKeyHash digest conf (r.withMethod .get) ↔
      (∀ name ∈ conf.autoKeyCookies ++ conf.keyCookies, cookieIndexLookup r name = none) ∧
          MethodBlind conf r ∨
        foldedCookies conf r ≠ [] ∧ keyExpression conf (r.withMethod .purge) =
          keyExpression conf (r.withMethod .get) ++ foldedCookies conf r := by
  have hmaterial : purgeRequestKeyHash digest conf (r.withMethod .purge) =
      accessKeyHash digest conf (r.withMethod .get) ↔
        ctxBuildKey false conf (r.withMethod .purge) = ctxBuildKey true conf (r.withMethod .get) :=
    ⟨fun h => hinj (Set.mem_insert _ _) (Set.mem_insert_of_mem _ rfl) h, congrArg digest⟩
  have hget : ctxBuildKey true conf (r.withMethod .get) =
      keyExpression conf (r.withMethod .get) ++ foldedCookies conf r := by
    rw [ctxBuildKey_installed, buildKey, keyFoldAll, keyCookieSlots_withMethod]
    rfl
  rw [hmaterial, ctxBuildKey_bare, hget, ← foldedCookies_eq_nil_iff]
  exact eq_append_iff

/-- A location that keys on the path and the cookie `c`. -/
def cookieKeyConf : KeyConf := { key := some fun r => r.uri, autoKeyCookies := [], keyCookies := [[99]] }

/-- `GET /` with the cookie `c=1`, or without one. -/
def cookieRequest (cookies : List Bytes) : Request :=
  { method := .get, uri := [47], args := [], unparsedUri := [47],
    headersIn := HeadersIn.ofLines [] (cookies.map fun v => ⟨1, lit ['C', 'o', 'o', 'k', 'i', 'e'], v⟩) }

theorem purge_addresses_iff_bare :
    purgeRequestKeyHash lengthDigest cookieKeyConf ((cookieRequest []).withMethod .purge) =
        accessKeyHash lengthDigest cookieKeyConf ((cookieRequest []).withMethod .get) ↔
      (∀ name ∈ cookieKeyConf.autoKeyCookies ++ cookieKeyConf.keyCookies,
          cookieIndexLookup (cookieRequest []) name = none) ∧
          MethodBlind cookieKeyConf (cookieRequest []) ∨
        foldedCookies cookieKeyConf (cookieRequest []) ≠ [] ∧
          keyExpression cookieKeyConf ((cookieRequest []).withMethod .purge) =
            keyExpression cookieKeyConf ((cookieRequest []).withMethod .get) ++
              foldedCookies cookieKeyConf (cookieRequest []) :=
  purge_addresses_iff lengthDigest cookieKeyConf (cookieRequest [])
    (Set.injOn_pair.2 fun _ => by decide)

/-- **A PURGE that carries a key cookie purges the entry without it.** -/
theorem purge_addresses_fails :
    ¬ ∀ (digest : Bytes → KeyHash) (conf : KeyConf) (r : Request),
      Set.InjOn digest {ctxBuildKey false conf (r.withMethod .purge),
        ctxBuildKey true conf (r.withMethod .get)} →
      MethodBlind conf r →
      purgeRequestKeyHash digest conf (r.withMethod .purge) =
        accessKeyHash digest conf (r.withMethod .get) := by
  intro h
  have hsame := h lengthDigest cookieKeyConf (cookieRequest [[99, 61, 49]])
    (Set.injOn_pair.2 fun heq => absurd heq (by decide)) rfl
  exact absurd hsame (by decide)

end Http
end CacheTurbo
