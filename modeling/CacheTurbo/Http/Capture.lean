/-
# The header filter on an origin response

`ngx_http_cache_turbo_header_filter_capture` decides what becomes of a response:
its body is captured, it is refused, or, when it is a 304, the entry under the
request's key is freshened (`ngx_http_cache_turbo_header_filter_freshen_304`).
What the header parsers and the predicates of the configuration say of the
response is given (`OriginResponse`); the windows of a stored body are those of
`ngx_http_cache_turbo_body_filter_windows`.
-/

import CacheTurbo.Http.Marker
import CacheTurbo.Http.Warm

namespace CacheTurbo
namespace Http

open Bytes Blob
open Shm (Zone Rbtree lookup)

/-! ## Configuration, context and response -/

/-- `ngx_http_cache_turbo_valid_t`. -/
structure StatusValid where
  status : ℕ
  valid : Time
  deriving DecidableEq, Repr

/-- What the response side reads of the location configuration.  The statuses of
`cache_turbo_valid` were vetted when the configuration was read. -/
structure CaptureConf where
  enable : Bool
  shmZone : Bool
  autoVary : Bool
  key : KeyConf
  valid : Time
  validStatus : List StatusValid
  honorCc : Bool
  ignoreCc : Bool
  staleMult : ℤ
  keepStale : Time
  maxSize : ℕ
  vetted : ∀ v ∈ validStatus, 200 ≤ v.status ∧ v.status ≠ 206 ∧ v.status ≠ 304

/-- An empty list of statuses needs no vetting. -/
theorem vetted_nil : ∀ v ∈ ([] : List StatusValid),
    200 ≤ v.status ∧ v.status ≠ 206 ∧ v.status ≠ 304 := nofun

/-- What the header filter reads of the request's context. -/
structure CaptureCtx where
  main : Bool
  warm : Bool
  keyReady : Bool
  reqNoStore : Bool
  varyNocache : Bool
  minUsesSkip : Bool
  autoSkip : Bool
  keyHash : KeyHash
  deriving DecidableEq

/-- What the parsers and predicates report of an origin response.  `upstreamTtl`, `swr`
and `sie` are `-1` when the response does not give them. -/
structure OriginResponse where
  status : ℕ
  upstreamTtl : Time
  swr : Time
  sie : Time
  mustRevalidate : Bool
  cacheable : Bool
  requireHdrOk : Bool
  encoded : Bool
  encodedOk : Bool
  noStoreOk : Bool
  trailers : Bool
  ambiguousFraming : Bool
  deriving DecidableEq, Repr

/-! ## Windows -/

/-- `NGX_HTTP_CACHE_TURBO_TTL_MAX`. -/
def ttlMax : Time := 0xFFFFFFFF

/-- `NGX_HTTP_CACHE_TURBO_STALE_MULTIPLIER`. -/
def staleMultiplier : ℤ := 4

/-- `ngx_http_cache_turbo_stale_ttl`. -/
def staleTtl (freshTtl : Time) (staleMult : ℤ) : Time :=
  if freshTtl ≤ 0 then 0
  else
    let staleMult := if staleMult ≤ 0 then staleMultiplier else staleMult
    if freshTtl > ttlMax / staleMult then ttlMax else freshTtl * staleMult

/-- `ngx_http_cache_turbo_add_ttl_clamped`. -/
def addTtlClamped (base delta : Time) : Time :=
  let delta := if delta < 0 then 0 else delta
  let delta := if delta > ttlMax then ttlMax else delta
  if base > ttlMax - delta then ttlMax else base + delta

/-- The binary search of `ngx_http_cache_turbo_status_ttl` between `lo` and `hi`. -/
def statusSearch (v : List StatusValid) (status lo hi : ℕ) : Option Time :=
  if lo < hi then
    let mid := lo + (hi - lo) / 2
    match v[mid]? with
    | none => none
    | some e =>
        if e.status = status then some e.valid
        else if e.status < status then statusSearch v status (mid + 1) hi
        else statusSearch v status lo mid
  else none
termination_by hi - lo

/-- `ngx_http_cache_turbo_status_ttl`. -/
def statusTtl (conf : CaptureConf) (status : ℕ) : Time :=
  if status = 206 then -1
  else if status = 200 then conf.valid
  else (statusSearch conf.validStatus status 0 conf.validStatus.length).getD (-1)

/-- The windows of a body: its freshness, its whole life, and its life on error. -/
structure Windows where
  ttl : Time
  staleWindow : Time
  sieWindow : Time
  deriving DecidableEq, Repr

/-- The lifetime the origin gives where the configuration honours it, and otherwise `own`;
capped. -/
def honouredTtl (conf : CaptureConf) (resp : OriginResponse) (own : Time) : Time :=
  let ttl := if conf.honorCc && !conf.ignoreCc && decide (resp.upstreamTtl ≥ 0) then
    resp.upstreamTtl else own
  if ttl > ttlMax then ttlMax else ttl

/-- The windows that `body_filter_windows` gives a body with the lifetime `ttl`. -/
def windowsFor (conf : CaptureConf) (resp : OriginResponse) (ttl : Time) : Windows :=
  let staleWindow :=
    if ttl > 0 ∧ conf.ignoreCc = false ∧ resp.swr ≥ 0 then addTtlClamped ttl resp.swr
    else staleTtl ttl conf.staleMult
  let kept := if ttl + conf.keepStale > ttlMax then ttlMax else ttl + conf.keepStale
  if ttl > 0 ∧ conf.ignoreCc = false ∧ resp.mustRevalidate then ⟨ttl, ttl, 0⟩
  else if ttl > 0 ∧ conf.ignoreCc = false then
    if resp.sie ≥ 0 then ⟨ttl, staleWindow, addTtlClamped ttl resp.sie⟩
    else if ttl > 0 ∧ conf.keepStale > 0 then ⟨ttl, staleWindow, kept⟩
    else ⟨ttl, staleWindow, 0⟩
  else if ttl > 0 ∧ conf.ignoreCc ∧ conf.keepStale > 0 then ⟨ttl, staleWindow, kept⟩
  else ⟨ttl, staleWindow, 0⟩

/-- `ngx_http_cache_turbo_body_filter_windows`; `none` is `NGX_DECLINED`. -/
def bodyFilterWindows (conf : CaptureConf) (resp : OriginResponse) : Option Windows :=
  let ttl := statusTtl conf resp.status
  if ttl < 0 then none else some (windowsFor conf resp (honouredTtl conf resp ttl))

/-! ## The filter -/

/-- `ngx_http_cache_turbo_capture_gate_common`. -/
def captureGateCommon (conf : CaptureConf) (r : Request) (ctx : CaptureCtx) : Bool :=
  conf.enable && (ctx.main || ctx.warm) && r.method != .head && !ctx.reqNoStore

/-- `ngx_http_cache_turbo_capture_gate_storable_tail`. -/
def captureGateStorableTail (conf : CaptureConf) (ctx : CaptureCtx) (resp : OriginResponse) :
    Bool :=
  !ctx.varyNocache && !ctx.minUsesSkip && !ctx.autoSkip &&
    decide (statusTtl conf resp.status ≥ 0)

/-- What `header_filter_capture` does with a response. -/
inductive CaptureBranch
  | capture
  | refuse
  | freshen
  | pass
  deriving DecidableEq, Repr

/-- The branches of `ngx_http_cache_turbo_header_filter_capture`. -/
def captureBranch (conf : CaptureConf) (r : Request) (ctx : CaptureCtx) (resp : OriginResponse) :
    CaptureBranch :=
  let gateCommon := captureGateCommon conf r ctx
  let gateStorable := gateCommon && captureGateStorableTail conf ctx resp
  let captured := gateStorable && resp.cacheable && resp.requireHdrOk &&
    ((!resp.encoded || resp.encodedOk) && resp.noStoreOk) && !resp.trailers &&
    !resp.ambiguousFraming
  if captured then .capture
  else if gateStorable then .refuse
  else if gateCommon && (ctx.keyReady || ctx.warm) && conf.shmZone && resp.status == 304 then
    .freshen
  else .pass

/-- The key a 304 freshens: a background subrequest builds its own. -/
def freshenKey (digest : Bytes → KeyHash) (conf : CaptureConf) (r : Request) (ctx : CaptureCtx) :
    KeyHash :=
  if ctx.warm then digest (buildKey conf.key r) else ctx.keyHash

/-- The lifetime a 304 gives. -/
def freshenTtl (conf : CaptureConf) (resp : OriginResponse) : Time :=
  honouredTtl conf resp conf.valid

/-- `ngx_http_cache_turbo_header_filter_freshen_304`. -/
def headerFilterFreshen304 (digest : Bytes → KeyHash) (conf : CaptureConf) (z : Zone) (now : Time)
    (r : Request) (ctx : CaptureCtx) (resp : OriginResponse) : Zone × Rc :=
  let freshTtl := freshenTtl conf resp
  Shm.freshen z (freshenKey digest conf r ctx) now freshTtl (staleTtl freshTtl conf.staleMult)

/-- The part of `ngx_http_cache_turbo_header_filter_capture` that works on the zone: the
freshening of a 304. -/
def headerFilterCapture (digest : Bytes → KeyHash) (conf : CaptureConf) (z : Zone) (now : Time)
    (r : Request) (ctx : CaptureCtx) (resp : OriginResponse) : Zone × Rc :=
  match captureBranch conf r ctx resp with
  | .freshen => headerFilterFreshen304 digest conf z now r ctx resp
  | _ => (z, .declined)

/-! ## What a 304 meets -/

/-- A search finds a status that is in the list. -/
theorem statusSearch_mem {v : List StatusValid} {status lo hi : ℕ} {ttl : Time}
    (h : statusSearch v status lo hi = some ttl) : ∃ e ∈ v, e.status = status := by
  induction lo, hi using statusSearch.induct v status with
  | case1 lo hi hlt mid hnone =>
    rw [statusSearch, if_pos hlt] at h
    simp only [mid] at hnone
    simp only [hnone] at h
    cases h
  | case2 lo hi hlt mid e hsome heq =>
    exact ⟨e, List.mem_of_getElem? hsome, heq⟩
  | case3 lo hi hlt mid e hsome hne hless ih =>
    rw [statusSearch, if_pos hlt] at h
    simp only [mid] at hsome
    simp only [hsome, if_neg hne, if_pos hless] at h
    exact ih h
  | case4 lo hi hlt mid e hsome hne hless ih =>
    rw [statusSearch, if_pos hlt] at h
    simp only [mid] at hsome
    simp only [hsome, if_neg hne, if_neg hless] at h
    exact ih h
  | case5 lo hi hge =>
    rw [statusSearch, if_neg hge] at h
    cases h

/-- A 304 has no lifetime of its own. -/
theorem statusTtl_notModified (conf : CaptureConf) : statusTtl conf 304 = -1 := by
  rw [statusTtl, if_neg (by decide), if_neg (by decide)]
  cases h : statusSearch conf.validStatus 304 0 conf.validStatus.length with
  | none => rfl
  | some ttl =>
    obtain ⟨e, he, hstatus⟩ := statusSearch_mem h
    exact absurd hstatus (conf.vetted e he).2.2

/-- **When the header filter freshens**: on every 304 of a request it may handle and whose
key it knows, whatever else is true of the response. -/
theorem captureBranch_freshen_iff (conf : CaptureConf) (r : Request) (ctx : CaptureCtx)
    (resp : OriginResponse) : captureBranch conf r ctx resp = .freshen ↔
      captureGateCommon conf r ctx ∧ (ctx.keyReady ∨ ctx.warm) ∧ conf.shmZone ∧
        resp.status = 304 := by
  have htail : resp.status = 304 → captureGateStorableTail conf ctx resp = false := by
    intro h
    rw [captureGateStorableTail, h, statusTtl_notModified]
    simp
  unfold captureBranch
  by_cases hstatus : resp.status = 304
  · simp only [htail hstatus, Bool.and_false, Bool.false_and, Bool.false_eq_true, if_false, hstatus]
    split_ifs with hall
    · simp only [Bool.and_eq_true, Bool.or_eq_true] at hall
      exact iff_of_true rfl ⟨hall.1.1.1, hall.1.1.2, hall.1.2, trivial⟩
    · simp only [Bool.and_eq_true, Bool.or_eq_true] at hall
      exact iff_of_false nofun fun h => hall ⟨⟨⟨h.1, h.2.1⟩, h.2.2.1⟩, rfl⟩
  · have hne : (resp.status == 304) = false := beq_eq_false_iff_ne.2 hstatus
    simp only [hne, Bool.and_false, Bool.false_eq_true, if_false, hstatus, and_false, iff_false]
    split_ifs
    · exact nofun
    · exact nofun
    · exact nofun

end Http
end CacheTurbo
