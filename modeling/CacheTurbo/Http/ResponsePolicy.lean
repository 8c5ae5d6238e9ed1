/-
# What a response says of its own freshness

The tokens of a `Cache-Control` field (`ngx_http_cache_turbo_cc_token`), their deltas
(`ngx_http_cache_turbo_cc_parse_delta`), and the two readers of a header list: the pass that
decides on a body, `ngx_http_cache_turbo_response_policy`, and the lookup that a 304 makes,
`ngx_http_cache_turbo_upstream_ttl` (`ngx_http_cache_turbo_module.c`).  A time that is not
given is `-1`, as in the source.  `ngx_parse_http_time` is nginx's own; it is a parameter.

A response that states a zero delta in any of the three control headers is refused
(`refuse_of_delta_zero`), so the only zero lifetime a body can be stored with is that of an
`Expires` that has passed (`zero_of_expires`).  A 304 is not asked about this.
-/

import CacheTurbo.Http.Request
import CacheTurbo.Http.Capture
import Mathlib.Data.List.DropRight

namespace CacheTurbo
namespace Http
namespace Policy

open Bytes

/-! ## Names -/

/-- `"Surrogate-Control"`. -/
def surrogateControl : Bytes :=
  lit ['S', 'u', 'r', 'r', 'o', 'g', 'a', 't', 'e', '-', 'C', 'o', 'n', 't', 'r', 'o', 'l']

/-- `"CDN-Cache-Control"`. -/
def cdnCacheControl : Bytes :=
  lit ['C', 'D', 'N', '-', 'C', 'a', 'c', 'h', 'e', '-', 'C', 'o', 'n', 't', 'r', 'o', 'l']

/-- `"Cache-Control"`. -/
def cacheControl : Bytes := lit ['C', 'a', 'c', 'h', 'e', '-', 'C', 'o', 'n', 't', 'r', 'o', 'l']

/-- `"Expires"`. -/
def expiresName : Bytes := lit ['E', 'x', 'p', 'i', 'r', 'e', 's']

/-- `"Set-Cookie"`. -/
def setCookieName : Bytes := lit ['S', 'e', 't', '-', 'C', 'o', 'o', 'k', 'i', 'e']

/-- `"max-age"`. -/
def maxAge : Bytes := lit ['m', 'a', 'x', '-', 'a', 'g', 'e']

/-- `"s-maxage"`. -/
def sMaxage : Bytes := lit ['s', '-', 'm', 'a', 'x', 'a', 'g', 'e']

/-- `"stale-while-revalidate"`. -/
def staleWhileRevalidate : Bytes :=
  lit ['s', 't', 'a', 'l', 'e', '-', 'w', 'h', 'i', 'l', 'e', '-', 'r', 'e', 'v', 'a', 'l', 'i',
    'd', 'a', 't', 'e']

/-- `"stale-if-error"`. -/
def staleIfError : Bytes :=
  lit ['s', 't', 'a', 'l', 'e', '-', 'i', 'f', '-', 'e', 'r', 'r', 'o', 'r']

/-- `"must-revalidate"`. -/
def mustRevalidate : Bytes :=
  lit ['m', 'u', 's', 't', '-', 'r', 'e', 'v', 'a', 'l', 'i', 'd', 'a', 't', 'e']

/-- `"proxy-revalidate"`. -/
def proxyRevalidate : Bytes :=
  lit ['p', 'r', 'o', 'x', 'y', '-', 'r', 'e', 'v', 'a', 'l', 'i', 'd', 'a', 't', 'e']

/-- `"public"`. -/
def publicName : Bytes := lit ['p', 'u', 'b', 'l', 'i', 'c']

/-- `"no-store"`. -/
def noStore : Bytes := lit ['n', 'o', '-', 's', 't', 'o', 'r', 'e']

/-- `"no-cache"`. -/
def noCache : Bytes := lit ['n', 'o', '-', 'c', 'a', 'c', 'h', 'e']

/-- `"private"`. -/
def privateName : Bytes := lit ['p', 'r', 'i', 'v', 'a', 't', 'e']

/-! ## Tokens -/

/-- Where a token scan is: outside a quoted string, inside it, or after a backslash in it. -/
inductive Quote
  | plain
  | quoted
  | escaped
  deriving DecidableEq, Repr

/-- The field between its unquoted commas.  `cur` is the token so far. -/
def ccSplit (q : Quote) (cur : Bytes) : Bytes → List Bytes
  | [] => [cur]
  | c :: s =>
      match q with
      | .escaped => ccSplit .quoted (cur ++ [c]) s
      | .quoted =>
          if c = 92 then ccSplit .escaped (cur ++ [c]) s
          else if c = 34 then ccSplit .plain (cur ++ [c]) s
          else ccSplit .quoted (cur ++ [c]) s
      | .plain =>
          if c = 34 then ccSplit .quoted (cur ++ [c]) s
          else if c = 44 then cur :: ccSplit .plain [] s
          else ccSplit .plain (cur ++ [c]) s

/-- A blank between tokens. -/
def isLws (c : UInt8) : Bool := c == 32 || c == 9

/-- `ngx_http_cache_turbo_cc_token`: the value of the first token with that name, which is
empty when the token is bare. -/
def ccToken (name v : Bytes) : Option Bytes :=
  let tokens := (ccSplit .plain [] v).map fun t => (t.dropWhile isLws).rdropWhile isLws
  (tokens.find? fun t => (t.takeWhile (· ≠ 61)).length == name.length &&
    eqFold (t.takeWhile (· ≠ 61)) name).map fun t => (t.dropWhile (· ≠ 61)).tail

/-- `ngx_http_cache_turbo_cc_has`. -/
def ccHas (name v : Bytes) : Bool := (ccToken name v).isSome

/-! ## Deltas -/

/-- `NGX_MAX_TIME_T_VALUE`. -/
def maxTime : Time := 2 ^ 63 - 1

/-- The loop of `ngx_http_cache_turbo_cc_parse_delta`: a sum that would not fit stays at the
largest time. -/
def ccDigits (n : Time) : Bytes → Time
  | [] => n
  | c :: s =>
      if c < 48 ∨ 57 < c then -1
      else
        let d : Time := (c - 48).toNat
        if n ≥ maxTime / 10 ∧ (n > maxTime / 10 ∨ d > maxTime % 10) then ccDigits maxTime s
        else ccDigits (n * 10 + d) s

/-- A value without the quotes around it. -/
def unquoted (p : Bytes) : Bytes :=
  if p.length ≥ 2 ∧ p.head? = some 34 ∧ p.getLast? = some 34 then p.tail.dropLast else p

/-- `ngx_http_cache_turbo_cc_parse_delta`. -/
def ccParseDelta (p : Bytes) : Time := if unquoted p = [] then -1 else ccDigits 0 (unquoted p)

/-- `ngx_http_cache_turbo_cc_delta`. -/
def ccDelta (name v : Bytes) : Time :=
  match ccToken name v with
  | none => -1
  | some q => if q = [] then -1 else ccParseDelta q

/-! ## Set-Cookie -/

/-- `ngx_http_cache_turbo_is_cookie_name_byte`. -/
def isCookieNameByte (c : UInt8) : Bool :=
  decide (32 < c) && decide (c < 127) &&
    !(lit ['=', ';', ',', '"', '(', ')', '<', '>', '@', ':', '\\', '/', '[', ']', '?', '\x7b',
      '\x7d', '\t']).contains c

/-- `ngx_http_cache_turbo_set_cookie_name`. -/
def cookieNameOf (data : Bytes) : Option Bytes :=
  let p := data.dropWhile isLws
  let name := p.takeWhile (· ≠ 61)
  if name.length < p.length ∧ name ≠ [] ∧ name.all isCookieNameByte then some name else none

/-- What `ngx_http_cache_turbo_response_policy` reads of the location. -/
structure PolicyConf where
  requireHeader : Bytes
  ignoreSetCookie : List Bytes
  keyCookies : List Bytes
  hasBackend : Bool
  ignoreCc : Bool

/-- `ngx_http_cache_turbo_set_cookie_ignorable`. -/
def setCookieIgnorable (conf : PolicyConf) (h : Header) : Bool :=
  match cookieNameOf h.value with
  | none => false
  | some name => conf.ignoreSetCookie.contains name

/-- `ngx_http_cache_turbo_set_cookie_relax_allowed`. -/
def setCookieRelaxAllowed (conf : PolicyConf) : Bool :=
  conf.ignoreSetCookie ≠ [] && conf.keyCookies = [] && !conf.hasBackend

/-! ## The policy -/

/-- The vetoes of the response policy. -/
inductive Refuse
  | none
  | authorization
  | setCookie
  | cacheControl
  deriving DecidableEq, Repr

/-- `ngx_http_cache_turbo_response_policy_t`. -/
structure ResponsePolicy where
  upstreamTtl : Time
  swr : Time
  sie : Time
  mustRevalidate : Bool
  authShareable : Bool
  requireHdrOk : Bool
  cacheable : Bool
  cacheableReason : Refuse
  deriving DecidableEq, Repr

/-- `ngx_http_cache_turbo_response_policy_ctx_t`, beside the result so far. -/
structure PolicyPass where
  out : ResponsePolicy
  scMax : Time
  cdnSmax : Time
  cdnMax : Time
  ccSmax : Time
  ccMax : Time
  expires : Bytes
  requireFound : Bool

/-- `ngx_http_cache_turbo_response_policy_init`. -/
def policyInit (conf : PolicyConf) (authorization : Bool) : PolicyPass where
  out :=
    { upstreamTtl := -1
      swr := -1
      sie := -1
      mustRevalidate := false
      authShareable := false
      requireHdrOk := conf.requireHeader = []
      cacheable := !authorization
      cacheableReason := if authorization then .authorization else .none }
  scMax := -1
  cdnSmax := -1
  cdnMax := -1
  ccSmax := -1
  ccMax := -1
  expires := []
  requireFound := false

/-- The value of a header that a store has to carry. -/
def requireYes (value : Bytes) : Bool :=
  eqFold value (lit ['y', 'e', 's']) || eqFold value (lit ['o', 'n']) || value == lit ['1']

/-- `ngx_http_cache_turbo_response_require_header` on the header that is required. -/
def policyRequire (p : PolicyPass) (h : Header) : PolicyPass :=
  { p with
    out :=
      { p.out with
        requireHdrOk :=
          if !requireYes h.value then false
          else if !p.requireFound then true
          else p.out.requireHdrOk }
    requireFound := true }

/-- A control field that forbids a store. -/
def ccRefuses (v : Bytes) : Bool :=
  ccHas noStore v || ccHas noCache v || ccHas privateName v || ccDelta maxAge v == 0 ||
    ccDelta sMaxage v == 0

/-- `ngx_http_cache_turbo_response_cc_refuse`. -/
def ccRefuse (v : Bytes) (out : ResponsePolicy) : ResponsePolicy :=
  if out.cacheable && ccRefuses v then
    { out with cacheable := false, cacheableReason := .cacheControl }
  else out

/-- The delta of a field, unless an earlier one gave it. -/
def firstDelta (t : Time) (name v : Bytes) : Time := if t < 0 then ccDelta name v else t

/-- `ngx_http_cache_turbo_response_surrogate_control`. -/
def policySurrogateControl (p : PolicyPass) (v : Bytes) : PolicyPass :=
  { p with
    out := ccRefuse v p.out
    scMax := firstDelta p.scMax maxAge v }

/-- `ngx_http_cache_turbo_response_cdn_control`. -/
def policyCdnControl (p : PolicyPass) (v : Bytes) : PolicyPass :=
  { p with
    out := ccRefuse v p.out
    cdnSmax := firstDelta p.cdnSmax sMaxage v
    cdnMax := firstDelta p.cdnMax maxAge v }

/-- `ngx_http_cache_turbo_response_cache_control`. -/
def policyCacheControl (p : PolicyPass) (v : Bytes) : PolicyPass :=
  let ccSmax := firstDelta p.ccSmax sMaxage v
  let must := ccHas mustRevalidate v || ccHas proxyRevalidate v
  let shareable := ccHas publicName v || decide (ccSmax ≥ 0)
  let out := ccRefuse v p.out
  { p with
    out :=
      { out with
        swr := firstDelta out.swr staleWhileRevalidate v
        sie := firstDelta out.sie staleIfError v
        mustRevalidate := out.mustRevalidate || must
        authShareable := out.authShareable || must || shareable }
    ccSmax := ccSmax
    ccMax := firstDelta p.ccMax maxAge v }

/-- `Set-Cookie` in the pass. -/
def policySetCookie (conf : PolicyConf) (p : PolicyPass) (h : Header) : PolicyPass :=
  if p.out.cacheable && !(setCookieRelaxAllowed conf && setCookieIgnorable conf h) then
    { p with out := { p.out with cacheable := false, cacheableReason := .setCookie } }
  else p

/-- One header of the pass. -/
def policyHeader (conf : PolicyConf) (p : PolicyPass) (h : Header) : PolicyPass :=
  if h.hash = 0 ∨ h.key = [] then p
  else
    let p := if p.expires = [] ∧ h.named expiresName then { p with expires := h.value } else p
    if conf.requireHeader ≠ [] ∧ h.named conf.requireHeader then policyRequire p h
    else if h.named setCookieName then policySetCookie conf p h
    else if conf.ignoreCc then p
    else if h.named surrogateControl then policySurrogateControl p h.value
    else if h.named cdnCacheControl then policyCdnControl p h.value
    else if h.named cacheControl then policyCacheControl p h.value
    else p

/-- `ngx_parse_http_time`.  It reads dates of the years 0 to 9999. -/
structure TimeParser where
  parse : Bytes → Option Time
  range : ∀ b t, parse b = some t → -2 ^ 62 ≤ t ∧ t ≤ 2 ^ 62

/-- The lifetime that an `Expires` leaves. -/
def expiresTtl (http : TimeParser) (expires : Bytes) (now : Time) : Time :=
  if expires = [] then -1
  else
    match http.parse expires with
    | none => -1
    | some exp => if exp - now > 0 then exp - now else 0

/-- `ngx_http_cache_turbo_response_policy_finish`. -/
def policyFinish (http : TimeParser) (now : Time) (conf : PolicyConf) (p : PolicyPass) :
    ResponsePolicy :=
  { p.out with
    requireHdrOk := if conf.requireHeader ≠ [] ∧ !p.requireFound then false else p.out.requireHdrOk
    upstreamTtl :=
      if p.scMax ≥ 0 then p.scMax
      else if p.cdnSmax ≥ 0 then p.cdnSmax
      else if p.cdnMax ≥ 0 then p.cdnMax
      else if p.ccSmax ≥ 0 then p.ccSmax
      else if p.ccMax ≥ 0 then p.ccMax
      else expiresTtl http p.expires now }

/-- `ngx_http_cache_turbo_response_policy`. -/
def responsePolicy (http : TimeParser) (now : Time) (conf : PolicyConf) (authorization : Bool)
    (headers : List Header) : ResponsePolicy :=
  policyFinish http now conf (headers.foldl (policyHeader conf) (policyInit conf authorization))

/-! ## The lookup of a 304 -/

/-- `ngx_http_cache_turbo_header_find`. -/
def headerFind (headers : List Header) (name : Bytes) : Bytes :=
  ((headers.find? fun h => h.hash ≠ 0 && h.named name).map Header.value).getD []

/-- `ngx_http_cache_turbo_cc_delta_all`. -/
def ccDeltaAll (headers : List Header) (hname name : Bytes) : Time :=
  match headers with
  | [] => -1
  | h :: headers =>
      if h.hash ≠ 0 ∧ h.named hname ∧ ccDelta name h.value ≥ 0 then ccDelta name h.value
      else ccDeltaAll headers hname name

/-- `ngx_http_cache_turbo_upstream_ttl`. -/
def upstreamTtl (http : TimeParser) (now : Time) (headers : List Header) : Time :=
  let expires := headerFind headers expiresName
  let sc := ccDeltaAll headers surrogateControl maxAge
  let cdnSmax := ccDeltaAll headers cdnCacheControl sMaxage
  let cdnMax := ccDeltaAll headers cdnCacheControl maxAge
  let ccSmax := ccDeltaAll headers cacheControl sMaxage
  let ccMax := ccDeltaAll headers cacheControl maxAge
  if sc ≥ 0 then sc
  else if cdnSmax ≥ 0 then cdnSmax
  else if cdnMax ≥ 0 then cdnMax
  else if ccSmax ≥ 0 then ccSmax
  else if ccMax ≥ 0 then ccMax
  else expiresTtl http expires now

/-! ## A zero that is refused -/

/-- What a pass over the headers keeps: a response that may still be stored has stated no
zero delta. -/
structure PolicyPass.NoZero (p : PolicyPass) : Prop where
  scMax : p.scMax ≠ 0
  cdnSmax : p.cdnSmax ≠ 0
  cdnMax : p.cdnMax ≠ 0
  ccSmax : p.ccSmax ≠ 0
  ccMax : p.ccMax ≠ 0

/-- A field that is not refused has no zero `max-age` and no zero `s-maxage`. -/
theorem refuse_of_delta_zero {v : Bytes} {out : ResponsePolicy}
    (h : (ccRefuse v out).cacheable = true) :
    out.cacheable = true ∧ ccDelta maxAge v ≠ 0 ∧ ccDelta sMaxage v ≠ 0 := by
  unfold ccRefuse at h
  by_cases hveto : (out.cacheable && ccRefuses v) = true
  · rw [if_pos hveto] at h
    cases h
  · rw [if_neg hveto] at h
    have hpass : ccRefuses v = false := by
      rw [h, Bool.true_and] at hveto
      exact Bool.eq_false_iff.2 hveto
    unfold ccRefuses at hpass
    simp only [Bool.or_eq_false_iff, beq_eq_false_iff_ne] at hpass
    exact ⟨h, hpass.1.2, hpass.2⟩

theorem firstDelta_ne {t : Time} (ht : t ≠ 0) {name v : Bytes} (hv : ccDelta name v ≠ 0) :
    firstDelta t name v ≠ 0 := by
  unfold firstDelta
  split_ifs
  · exact hv
  · exact ht

/-- One header keeps it. -/
theorem policyHeader_noZero {conf : PolicyConf} {p : PolicyPass} (h : Header)
    (hp : p.out.cacheable = true → p.NoZero) :
    (policyHeader conf p h).out.cacheable = true → (policyHeader conf p h).NoZero := by
  intro hc
  unfold policyHeader at hc ⊢
  by_cases hdead : h.hash = 0 ∨ h.key = []
  · rw [if_pos hdead] at hc ⊢
    exact hp hc
  · rw [if_neg hdead] at hc ⊢
    have hq : ∃ q : PolicyPass, (if p.expires = [] ∧ h.named expiresName then
        { p with expires := h.value } else p) = q ∧ (q.out.cacheable = true → q.NoZero) := by
      refine ⟨_, rfl, ?_⟩
      split_ifs
      · intro hpc
        obtain ⟨h₁, h₂, h₃, h₄, h₅⟩ := hp hpc
        exact ⟨h₁, h₂, h₃, h₄, h₅⟩
      · exact hp
    obtain ⟨q, hqe, hq⟩ := hq
    rw [hqe] at hc ⊢
    dsimp only at hc ⊢
    split_ifs at hc ⊢ with hreq hset hign hsc hcdn hcc
    · obtain ⟨h₁, h₂, h₃, h₄, h₅⟩ := hq hc
      exact ⟨h₁, h₂, h₃, h₄, h₅⟩
    · unfold policySetCookie at hc ⊢
      split_ifs at hc ⊢ with hveto
      exact hq hc
    · exact hq hc
    · obtain ⟨hout, hmax, -⟩ := refuse_of_delta_zero hc
      obtain ⟨h₁, h₂, h₃, h₄, h₅⟩ := hq hout
      exact ⟨firstDelta_ne h₁ hmax, h₂, h₃, h₄, h₅⟩
    · obtain ⟨hout, hmax, hsmax⟩ := refuse_of_delta_zero hc
      obtain ⟨h₁, h₂, h₃, h₄, h₅⟩ := hq hout
      exact ⟨h₁, firstDelta_ne h₂ hsmax, firstDelta_ne h₃ hmax, h₄, h₅⟩
    · obtain ⟨hout, hmax, hsmax⟩ := refuse_of_delta_zero hc
      obtain ⟨h₁, h₂, h₃, h₄, h₅⟩ := hq hout
      exact ⟨h₁, h₂, h₃, firstDelta_ne h₄ hsmax, firstDelta_ne h₅ hmax⟩
    · exact hq hc

theorem policyPass_noZero (conf : PolicyConf) (authorization : Bool) (headers : List Header) :
    let p := headers.foldl (policyHeader conf) (policyInit conf authorization)
    p.out.cacheable = true → p.NoZero := by
  have hinit : ∀ p : PolicyPass, (p.out.cacheable = true → p.NoZero) →
      (headers.foldl (policyHeader conf) p).out.cacheable = true →
        (headers.foldl (policyHeader conf) p).NoZero := by
    induction headers with
    | nil => exact fun p hp => hp
    | cons h headers ih => exact fun p hp => ih _ (policyHeader_noZero h hp)
  have hne : (-1 : Time) ≠ 0 := by decide
  exact hinit _ fun _ => ⟨hne, hne, hne, hne, hne⟩

/-- A lifetime of zero that an `Expires` leaves: it has passed. -/
theorem expiresTtl_zero {http : TimeParser} {expires : Bytes} {now : Time}
    (h : expiresTtl http expires now = 0) : ∃ exp, http.parse expires = some exp ∧ exp ≤ now := by
  unfold expiresTtl at h
  by_cases hnone : expires = []
  · rw [if_pos hnone] at h
    cases h
  · rw [if_neg hnone] at h
    cases hparse : http.parse expires with
    | none =>
      rw [hparse] at h
      cases h
    | some exp =>
      rw [hparse] at h
      dsimp only at h
      refine ⟨exp, rfl, ?_⟩
      by_cases hpos : exp - now > 0
      · rw [if_pos hpos] at h
        exact absurd h (Int.ne_of_gt hpos)
      · exact Int.le_of_sub_nonpos (Int.not_lt.1 hpos)

/-- **The zero lifetime of a response that may be stored** is that of an `Expires` that has
passed. -/
theorem zero_of_expires {http : TimeParser} {now : Time} {conf : PolicyConf}
    {authorization : Bool} {headers : List Header}
    (hcacheable : (responsePolicy http now conf authorization headers).cacheable = true)
    (hzero : (responsePolicy http now conf authorization headers).upstreamTtl = 0) :
    ∃ exp, http.parse (headers.foldl (policyHeader conf)
      (policyInit conf authorization)).expires = some exp ∧ exp ≤ now := by
  obtain ⟨h₁, h₂, h₃, h₄, h₅⟩ := policyPass_noZero conf authorization headers hcacheable
  unfold responsePolicy policyFinish at hzero
  dsimp only at hzero
  split_ifs at hzero
  · exact absurd hzero h₁
  · exact absurd hzero h₂
  · exact absurd hzero h₃
  · exact absurd hzero h₄
  · exact absurd hzero h₅
  · exact expiresTtl_zero hzero

end Policy
end Http
end CacheTurbo
