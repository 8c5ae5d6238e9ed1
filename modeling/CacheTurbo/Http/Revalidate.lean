/-
# The life of a stored response

A zone and a second level that several nodes share, and what happens to them:
responses are stored, 304s freshen entries, requests look up in either level, and
the second level may lose anything.  Beside the bytes the state remembers, as a
ghost, which of them came with `must-revalidate` or `proxy-revalidate`.

The lookup of the second level is `ngx_http_cache_turbo_access_l2` from a found
blob on, with `_l2_expired_arm` and `_l2_promote_serve`.
-/

import CacheTurbo.Http.StoreTail
import CacheTurbo.Http.Serve
import CacheTurbo.Lib.Run
import CacheTurbo.Shm.Record

namespace CacheTurbo
namespace Http

open Bytes Blob
open Shm (Zone Rbtree ZoneOp L1Req L1Verdict Record record)

/-! ## A lookup in the second level -/

/-- What is left of the freshness and of the whole life of a blob; a clock that went back
makes it new. -/
def l2Remaining (now : Time) (h : BlobHdr) : Time × Time :=
  let age := if now - h.created < 0 then 0 else now - h.created
  (h.freshTtl - age, h.staleTtl - age)

/-- How a lookup in the second level ends. -/
inductive L2Verdict
  | miss
  /-- The blob is past its life; `sie` tells whether it is armed for an origin error. -/
  | expired (sie : Bool)
  /-- The request's own bounds refuse it. -/
  | revalidate
  /-- It is put in the zone and served, fresh or stale. -/
  | promote (remFresh remStale : Time)
  deriving DecidableEq, Repr

/-- `ngx_http_cache_turbo_access_l2` for a blob that was found; the verdicts of the
request's bounds are given. -/
def accessL2 (now : Time) (l2FreshOk l2StaleOk : Bool) (blob : Bytes) : L2Verdict :=
  match blobValidate now blob with
  | none => .miss
  | some v =>
      let rem := l2Remaining now v.hdr
      if rem.2 ≤ 0 then .expired (sieWindowOpen now blob)
      else if (rem.1 > 0 ∧ l2FreshOk = false) ∨ (rem.1 ≤ 0 ∧ l2StaleOk = false) then .revalidate
      else .promote rem.1 rem.2

/-! ## Events -/

/-- A location that does not ignore what the origin says about caching. -/
abbrev HonouringConf := { conf : CaptureConf // conf.ignoreCc = false }

/-- An operation that stores no response and freshens none. -/
def StoresNothing : ZoneOp → Prop
  | .store .. | .storeIf .. | .freshen .. => False
  | _ => True

/-- The zone, the second level, and the bodies in them that came with the directive. -/
structure Life where
  zone : Zone
  l2 : KeyHash → Option Bytes
  must : KeyHash → Bool
  l2Must : KeyHash → Bool

/-- What happens next. -/
inductive LifeEvent
  /-- This node stores a response, in the zone and, with a backend, in the second level. -/
  | respond (conf : HonouringConf) (backend : Bool) (keyHash : KeyHash) (hash : UInt32)
      (resp : OriginResponse) (captured : Captured) (wanted : Bool)
  /-- Another node stores a response in the second level. -/
  | peer (conf : HonouringConf) (keyHash : KeyHash) (resp : OriginResponse) (captured : Captured)
  /-- A 304 freshens the entry of a key. -/
  | notModified (conf : HonouringConf) (keyHash : KeyHash) (resp : OriginResponse)
  /-- A request comes to the second level. -/
  | lookupL2 (keyHash : KeyHash) (hash : UInt32) (l2FreshOk l2StaleOk : Bool)
  /-- The second level loses a blob. -/
  | loseL2 (keyHash : KeyHash)
  /-- Any other operation on the zone, the lookup of a request among them. -/
  | zoneOp (op : ZoneOp) (h : StoresNothing op)

namespace Life

variable (rb : Rbtree)

/-- The windows and the blob of a response that is not refused. -/
def stored (conf : CaptureConf) (now : Time) (resp : OriginResponse) (captured : Captured) :
    Option (Windows × Bytes) :=
  (bodyFilterWindows conf resp).bind fun w =>
    (captureBlob conf now resp.status captured w).map fun blob => (w, blob)

/-- `backend->set`. -/
def setL2 (s : Life) (keyHash : KeyHash) (blob : Bytes) (must : Bool) : Life :=
  { s with
    l2 := Function.update s.l2 keyHash (some blob)
    l2Must := Function.update s.l2Must keyHash must }

/-- A store in the zone, and its answer. -/
def setZone (s : Life) (keyHash : KeyHash) (r : Zone × Rc) (must : Bool) : Life :=
  { s with
    zone := r.1
    must := if r.2 = .ok then Function.update s.must keyHash must else s.must }

/-- The store in the zone that a response ends with. -/
def zoneStore (s : Life) (now : Time) (keyHash : KeyHash) (hash : UInt32) (status : ℕ)
    (captured : Windows × Bytes) (wanted : Bool) : Zone × Rc :=
  let r := bodyFilterStore rb s.zone keyHash hash now status captured.2 captured.1 wanted
  (r.1, r.2.1)

/-- One event at a time in seconds. -/
def step (s : Life) : ℕ × LifeEvent → Life
  | (now, .respond conf backend keyHash hash resp captured wanted) =>
      match stored conf.1 now resp captured with
      | none => s
      | some wb =>
          let r := zoneStore rb s now keyHash hash resp.status wb wanted
          let s := s.setZone keyHash r resp.mustRevalidate
          if r.2 = .declined ∨ backend = false then s
          else s.setL2 keyHash wb.2 resp.mustRevalidate
  | (now, .peer conf keyHash resp captured) =>
      match stored conf.1 now resp captured with
      | none => s
      | some wb => s.setL2 keyHash wb.2 resp.mustRevalidate
  | (now, .notModified conf keyHash resp) =>
      let ttl := freshenTtl conf.1 resp
      { s with zone := (Shm.freshen s.zone keyHash now ttl (staleTtl ttl conf.1.staleMult)).1 }
  | (now, .lookupL2 keyHash hash l2FreshOk l2StaleOk) =>
      match s.l2 keyHash with
      | none => s
      | some blob =>
          match accessL2 now l2FreshOk l2StaleOk blob with
          | .promote remFresh remStale =>
              let r := Shm.storeIf rb s.zone keyHash hash now blob remFresh remStale .newer false
              s.setZone keyHash (r.1, r.2.1) (s.l2Must keyHash)
          | _ => s
  | (_, .loseL2 keyHash) => { s with l2 := Function.update s.l2 keyHash none }
  | (now, .zoneOp op _) =>
      let r := Shm.exec rb s.zone now op
      match op, r.2 with
      | .storeMarker keyHash _ _ _ _, .code rc => s.setZone keyHash (r.1, rc) false
      | _, _ => { s with zone := r.1 }

/-- A life that begins. -/
def start (zone : Zone) : Life := ⟨zone, fun _ => none, fun _ => false, fun _ => false⟩

end Life

/-! ## Late service -/

/-- Whether a lookup gives the request a body, or arms one for an origin error; the
snapshot for the breaker is not counted. -/
def L1Verdict.serves (q : L1Req) : L1Verdict → Bool
  | .hit _ | .stale _ | .refresh _ => true
  | .expired armed => decide (armed.length > if q.brkArm then 1 else 0)
  | .miss | .error | .regenerate => false

/-- Whether a lookup in the second level does so. -/
def L2Verdict.serves : L2Verdict → Bool
  | .promote _ _ => true
  | .expired sie => sie
  | .miss | .revalidate => false

/-- **A request is served, other than by the breaker, a body that came with the directive,
and its freshness is over.** -/
def ServedLate (s : Life) : ℕ × LifeEvent → Prop
  | (now, .zoneOp (.accessL1 keyHash hash q) _) =>
      s.must keyHash = true ∧ L1Verdict.serves q (Shm.accessL1 s.zone keyHash hash now q).2 = true ∧
        ∃ c, Shm.view s.zone keyHash = some c ∧ c.freshUntil ≤ now
  | (now, .lookupL2 keyHash _ l2FreshOk l2StaleOk) =>
      s.l2Must keyHash = true ∧ ∃ blob, s.l2 keyHash = some blob ∧
        (accessL2 now l2FreshOk l2StaleOk blob).serves = true ∧
          (l2Remaining now (blobHdrRead blob)).1 ≤ 0
  | _ => False

end Http
end CacheTurbo
