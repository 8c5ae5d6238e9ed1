/-
# An origin error and the body it would replace

`ngx_http_cache_turbo_body_filter_store` stores an origin's 5xx through
`shm_store_if`, which refuses under the mutex while the resident body is within its
stale window.  A body that lives through its stale-if-error window alone is guarded
elsewhere: the lookup of the request arms a snapshot of it
(`ngx_http_cache_turbo_access_l1_sie_arm`), and the header filter puts the snapshot in
the place of the error (`ngx_http_cache_turbo_header_filter_try_sie`), so that nothing
is captured.

Requests take turns here: a lookup, the response's headers and its last buffer are
separate steps, with any time and any work of others in between.  The ghost `looked`
is what the last lookup of a request found.  A request that found a body is as good as
armed with it while its window is open (`Inv.looked`), and a request that is armed has
captured only what its snapshot may not answer (`Inv.captured`).
-/

import CacheTurbo.Http.ForeignBlob
import CacheTurbo.Http.RevalidateSpec

namespace CacheTurbo
namespace Http

open Bytes Blob
open Shm (Zone Rbtree lookup ZoneOp L1Req L1Verdict BlobId Loans Record record getU32 getU64 timeOfU64)

/-! ## Requests -/

/-- A response of the origin in the filters, with its request and its location. -/
structure Fetch where
  conf : CaptureConf
  useStale : ℕ
  request : Request
  ctx : CaptureCtx
  cacheKey : Bytes
  varyBits : ℕ
  varyGen : ℕ
  resp : OriginResponse
  transportFailure : Bool

/-- The key it is stored under. -/
def Fetch.storeKey (digest : Bytes → KeyHash) (x : Fetch) : KeyHash :=
  Http.storeKey digest x.conf.autoVary x.request x.cacheKey
    (freshenKey digest x.conf x.request x.ctx) x.varyBits x.varyGen

/-- The status, as `try_sie` takes it. -/
def Fetch.error (x : Fetch) : OriginError := ⟨x.resp.status, x.transportFailure⟩

/-- What the context of a request remembers; `looked` is a ghost, the key of its last
lookup and the body found there, when that lookup sent it on to the origin. -/
structure Attempt where
  sieSnap : Option Bytes
  served : Bool
  captured : Option Fetch
  looked : Option (KeyHash × Option Bytes)

/-- A context as it is allocated. -/
def Attempt.fresh : Attempt := ⟨none, false, none, none⟩

/-- `ctx->sie_snap` of a lookup: `armSnapshots` puts it before the breaker's. -/
def L1Verdict.sieSnap (l1 : L1Req) : L1Verdict → Option BlobId
  | .expired armed => if armed.length > (if l1.brkArm then 1 else 0) then armed.head? else none
  | .miss | .error | .hit _ | .stale _ | .refresh _ | .regenerate => none

/-- Whether a lookup found nothing to serve, and went as far as the arms. -/
def L1Verdict.passes : L1Verdict → Bool
  | .miss | .expired _ => true
  | .error | .hit _ | .stale _ | .refresh _ | .regenerate => false

/-- The zone with its loans, the clock, and the requests. -/
structure Outage where
  loans : Loans
  clock : Time
  attempt : ℕ → Attempt

/-- What happens next. -/
inductive OutageEvent
  /-- The request looks its key up; the snapshot is wanted while there is none. -/
  | lookup (q : ℕ) (keyHash : KeyHash) (hash : UInt32) (l1 : L1Req)
  /-- `ngx_http_cache_turbo_access_l2_expired_arm`, for a blob of the second level. -/
  | expiredArm (q : ℕ) (blob : Bytes)
  /-- The headers of the response reach the filter. -/
  | header (q : ℕ) (x : Fetch) (pool : Pool)
  /-- The body of the captured response is complete; the marker of a variant follows as an
  operation of its own. -/
  | lastBuf (q : ℕ) (hash : UInt32) (captured : Captured)
  /-- A request begins, or is redirected. -/
  | begin (q : ℕ)
  /-- Anything else on the zone. -/
  | zone (e : Shm.Event)

namespace Outage

variable (rb : Rbtree) (digest : Bytes → KeyHash)

/-- Write the context of the request `q`. -/
def setAttempt (s : Outage) (q : ℕ) (a : Attempt) : Outage :=
  { s with attempt := Function.update s.attempt q a }

/-- What a lookup leaves in the context. -/
def lookedUp (a : Attempt) (z : Zone) (keyHash : KeyHash) (l1 : L1Req)
    (r : Zone × L1Verdict) : Attempt :=
  { a with
    sieSnap := a.sieSnap.or ((L1Verdict.sieSnap l1 r.2).map fun b => (r.1.blob b).body)
    looked := if L1Verdict.passes r.2 then some (keyHash, (record z keyHash).map Record.body) else none }

/-- What the header filter leaves in the context. -/
def filtered (now : Time) (a : Attempt) (x : Fetch) (pool : Pool) : Attempt :=
  match trySie pool now x.request x.useStale a.sieSnap false x.error with
  | .done _ => { a with served := true }
  | .error => a
  | .declined =>
      if captureBranch x.conf x.request x.ctx x.resp = .capture then { a with captured := some x }
      else a

/-- The store of the captured response `x`: its windows and its blob, if it has any. -/
def lastStore (now : Time) (hash : UInt32) (captured : Captured) (x : Fetch) : Option ZoneOp :=
  (Life.stored x.conf now x.resp captured).map fun wb =>
    bodyFilterStoreOp (x.storeKey digest) hash x.resp.status wb.2 wb.1
      (x.conf.autoVary && decide (x.varyBits > 0))

/-- One event, at the time of the clock. -/
def act (s : Outage) : OutageEvent → Outage
  | .lookup q keyHash hash l1 =>
      let a := s.attempt q
      if a.served ∨ a.captured.isSome then s
      else
        let l1 := { l1 with sieArm := a.sieSnap.isNone }
        let r := Shm.accessL1 s.loans.zone keyHash hash s.clock l1
        { s with loans := s.loans.step rb (.op s.clock (.accessL1 keyHash hash l1)) }.setAttempt q
          (lookedUp a s.loans.zone keyHash l1 r)
  | .expiredArm q blob =>
      let a := s.attempt q
      if a.served ∨ a.captured.isSome then s
      else s.setAttempt q { a with sieSnap := a.sieSnap.or (sieArm s.clock blob) }
  | .header q x pool =>
      let a := s.attempt q
      if a.served ∨ a.captured.isSome then s
      else s.setAttempt q (filtered s.clock a x pool)
  | .lastBuf q hash captured =>
      let a := s.attempt q
      match a.captured.bind (lastStore digest s.clock hash captured) with
      | none => s.setAttempt q { a with captured := none }
      | some op => { s with loans := s.loans.step rb (.op s.clock op) }.setAttempt q
          { a with captured := none }
  | .begin q => s.setAttempt q .fresh
  | .zone e => { s with loans := s.loans.step rb e }

/-- One event, some seconds after the last. -/
def step (s : Outage) (e : ℕ × OutageEvent) : Outage :=
  ({ s with clock := s.clock + e.1 } : Outage).act rb digest e.2

/-- A node that begins. -/
def start (z : Zone) (clock : Time) : Outage := ⟨Loans.fresh z, clock, fun _ => .fresh⟩

/-! ## Usable bodies -/

/-- The entry may be served as stale. -/
def InStale (now : Time) (r : Record) : Prop := r.staleUntil = 0 ∨ now < r.staleUntil

/-- A body that is not an error of the origin. -/
structure Sound (r : Record) : Prop where
  kind : r.kind = .entry
  len : 0 < r.len
  status : (blobHdrRead r.body).status < 500

/-- A body that can still be used, as stale or for an origin error. -/
def Usable (now : Time) (r : Record) : Prop :=
  Sound r ∧ (InStale now r ∨ sieWindowOpen now r.body = true)

/-- A body that lives through its stale-if-error window alone. -/
def SieOnly (now : Time) (r : Record) : Prop :=
  Sound r ∧ ¬ InStale now r ∧ sieWindowOpen now r.body = true

/-- The event hands an error of the origin to the zone, for the request `q`: the response,
and the operation. -/
structure StoresError (s : Outage) (e : ℕ × OutageEvent) (q : ℕ) (x : Fetch) (op : ZoneOp) :
    Prop where
  captured : (s.attempt q).captured = some x
  status : 500 ≤ x.resp.status
  event : ∃ hash captured, e.2 = .lastBuf q hash captured ∧
    lastStore digest (s.clock + e.1) hash captured x = some op

/-- **A stored origin error replaces a usable body.** -/
def Destroys (s : Outage) (e : ℕ × OutageEvent) : Prop :=
  ∃ q x op, StoresError digest s e q x op ∧
    (Shm.exec rb s.loans.zone (s.clock + e.1) op).2.ok ∧
      ∃ r, record s.loans.zone (x.storeKey digest) = some r ∧ Usable (s.clock + e.1) r

/-- The request looked at the body `body` under the key `keyHash` and found it past its
windows, the location's `use_stale` names the error, and no guard keeps the request from the
snapshot it has. -/
structure Shielded (a : Attempt) (x : Fetch) (keyHash : KeyHash) (body : Bytes) : Prop where
  looked : a.looked = some (keyHash, some body)
  triggers : useStaleTriggers x.useStale x.resp.status x.transportFailure = true
  allowed : ∀ snap, a.sieSnap = some snap → requestRefused x.request (blobFlags snap) = false

/-- An error that is handed to the zone meets no body that lives through its stale-if-error
window alone, unless its request is shielded by that body. -/
def Covered (s : Outage) (e : ℕ × OutageEvent) : Prop :=
  ∀ q x op, StoresError digest s e q x op →
    ∀ r, record s.loans.zone (x.storeKey digest) = some r → SieOnly (s.clock + e.1) r →
      Shielded (s.attempt q) x (x.storeKey digest) r.body

/-! ## The two guards -/

/-- The window of a snapshot only closes. -/
theorem sieWindowOpen_earlier {now later : Time} {data : Bytes} (hle : now ≤ later)
    (h : sieWindowOpen later data = true) : sieWindowOpen now data = true := by
  unfold sieWindowOpen at h ⊢
  simp only [Bool.and_eq_true, decide_eq_true_eq] at h ⊢
  exact ⟨h.1, lt_of_le_of_lt hle h.2⟩

/-- **Under the mutex**: an error does not replace what may be served as stale. -/
theorem storeIf_inStale {z : Zone} {k : KeyHash} {r : Record} (hr : record z k = some r)
    (hsound : Sound r) {now : Time} (hstale : InStale now r) (hash : UInt32) (data : Bytes)
    (freshTtl staleTtl : Time) (wanted : Bool) :
    Shm.storeIf rb z k hash now data freshTtl staleTtl .absentOrDead wanted =
      (z, .declined, none) := by
  obtain ⟨c, b, hc, -, rfl⟩ := Shm.record_some hr
  unfold Shm.view at hc
  obtain ⟨a, ha, rfl⟩ := Option.map_eq_some_iff.1 hc
  have hrefuses : Shm.storeIfRefuses z (lookup z k) now freshTtl .absentOrDead = true := by
    unfold Shm.storeIfRefuses
    rw [ha]
    dsimp only
    rw [if_pos ⟨hsound.kind, hsound.len⟩]
    exact decide_eq_true hstale
  unfold Shm.storeIf
  dsimp only
  rw [if_pos hrefuses]

/-- The arm of the lookup makes the test of the window. -/
theorem sieArmed_of_open {z : Zone} {a : Shm.Addr} {b : BlobId} (hd : (z.mem a).data = some b)
    {now : Time} (hopen : sieWindowOpen now (z.blob b).body = true) :
    Shm.sieArmed z a now = true := by
  unfold sieWindowOpen at hopen
  unfold Shm.sieArmed
  rw [hd]
  simp only [Bool.and_eq_true] at hopen ⊢
  exact ⟨hopen.1.2, hopen.2⟩

/-- **At the lookup**: a request without a snapshot that passes a body inside its
stale-if-error window takes one. -/
theorem accessL1_sieSnap {z : Zone} {k : KeyHash} {r : Record} (hr : record z k = some r)
    (hlen : 0 < r.len) (hash : UInt32) {now : Time} {l1 : L1Req} (harm : l1.sieArm = true)
    (hopen : sieWindowOpen now r.body = true)
    (hpass : L1Verdict.passes (Shm.accessL1 z k hash now l1).2 = true) :
    (L1Verdict.sieSnap l1 (Shm.accessL1 z k hash now l1).2).isSome := by
  obtain ⟨c, b, hc, hb, rfl⟩ := Shm.record_some hr
  unfold Shm.view at hc
  obtain ⟨a, ha, rfl⟩ := Option.map_eq_some_iff.1 hc
  have hstale : L1Verdict.passes (Shm.serveStale z a hash now l1).2 = false := by
    unfold Shm.serveStale
    dsimp only
    split_ifs <;> rfl
  unfold Shm.accessL1 at hpass ⊢
  rw [ha] at hpass ⊢
  dsimp only at hpass ⊢
  split_ifs at hpass ⊢ with hfresh hserve
  · cases hpass
  · rw [hstale] at hpass
    cases hpass
  · set z' := z.setNode a fun n => { n with varidxPending := false }
    have hmem : z'.mem a = { z.mem a with varidxPending := false } := Function.update_self ..
    have hd : (z'.mem a).data = some b := by rw [hmem]; exact hb
    have hne : (z'.mem a).len ≠ 0 := by rw [hmem]; exact Nat.pos_iff_ne_zero.1 hlen
    rw [armSnapshots_verdict now l1 hd hne, harm, sieArmed_of_open hd hopen]
    cases hbrk : l1.brkArm <;> simp [L1Verdict.sieSnap, hbrk]

/-- **In the header filter**: a response goes on to the capture only when the snapshot is not
for it. -/
theorem trySie_declined {pool : Pool} {now : Time} {r : Request} {useStale : ℕ} {snap : Bytes}
    {e : OriginError} (h : trySie pool now r useStale (some snap) false e = .declined)
    (htrig : useStaleTriggers useStale e.status e.transportFailure = true) :
    requestRefused r (blobFlags snap) = true := by
  unfold trySie at h
  dsimp only at h
  rw [htrig, if_pos (by rfl)] at h
  unfold sieRewrite at h
  split_ifs at h with hrefused
  · exact hrefused.2
  · cases hr : restoreResponse pool now snap .staleIfError <;> rw [hr] at h <;> cases h

/-! ## The invariant -/

/-- What a request has looked at and captured, and the bodies of the zone. -/
structure Inv (s : Outage) : Prop where
  loans : s.loans.Ok
  /-- A node knows the length of its body. -/
  measured : ∀ k r, record s.loans.zone k = some r → r.len = r.body.length
  /-- The body that a request passed is in its hands while the window is open. -/
  looked : ∀ q k b, (s.attempt q).looked = some (k, some b) → sieWindowOpen s.clock b = true →
    (s.attempt q).sieSnap.isSome
  /-- What is captured is what the snapshot may not answer. -/
  captured : ∀ q x, (s.attempt q).captured = some x → ∀ snap, (s.attempt q).sieSnap = some snap →
    useStaleTriggers x.useStale x.resp.status x.transportFailure = true →
      requestRefused x.request (blobFlags snap) = true

/-- What the invariant says of one context. -/
def AttemptOk (now : Time) (a : Attempt) : Prop :=
  (∀ k b, a.looked = some (k, some b) → sieWindowOpen now b = true → a.sieSnap.isSome) ∧
    ∀ x, a.captured = some x → ∀ snap, a.sieSnap = some snap →
      useStaleTriggers x.useStale x.resp.status x.transportFailure = true →
        requestRefused x.request (blobFlags snap) = true

theorem Inv.attempt {s : Outage} (h : s.Inv) (q : ℕ) : AttemptOk s.clock (s.attempt q) :=
  ⟨h.looked q, h.captured q⟩

theorem Inv.setAttempt {s : Outage} (h : s.Inv) (q : ℕ) {a : Attempt} (ha : AttemptOk s.clock a) :
    (s.setAttempt q a).Inv := by
  have hall : ∀ q', AttemptOk s.clock (Function.update s.attempt q a q') := by
    intro q'
    by_cases hq : q' = q
    · rw [hq, Function.update_self]
      exact ha
    · rw [Function.update_of_ne hq]
      exact h.attempt q'
  exact ⟨h.loans, h.measured, fun q' => (hall q').1, fun q' => (hall q').2⟩

/-- Time only closes windows. -/
theorem Inv.wait {s : Outage} (h : s.Inv) (seconds : ℕ) :
    ({ s with clock := s.clock + seconds } : Outage).Inv := by
  have hle : s.clock ≤ s.clock + (seconds : ℤ) := Int.le_add_of_nonneg_right (Int.natCast_nonneg _)
  exact ⟨h.loans, h.measured,
    fun q k b hl hopen => h.looked q k b hl (sieWindowOpen_earlier hle hopen), h.captured⟩

/-- A node knows the length of what is stored in it. -/
theorem Inv.loansStep {s : Outage} (h : s.Inv) (e : Shm.Event) :
    ({ s with loans := s.loans.step rb e } : Outage).Inv := by
  refine ⟨h.loans.step rb e, fun k r hr => ?_, h.looked, h.captured⟩
  have hother : (∀ now op, e ≠ .op now op) → r.len = r.body.length := fun he =>
    h.measured k r ((Ingress.record_loans rb s.loans he k).symm.trans hr)
  cases e with
  | op now op =>
    rcases h.loans.wf.recordMove rb now op k with hlost | hkept | ⟨w, -, hw, -, hnew⟩ |
      ⟨freshTtl, staleTtl, old, -, -, hold, -, hnew⟩
    · rw [show record (s.loans.step rb (.op now op)).zone k = none from hlost] at hr
      cases hr
    · exact h.measured k r (hkept ▸ hr)
    · obtain rfl := Option.some.inj (hnew.symm.trans hr)
      cases op with
      | store | storeIf | storeMarker =>
        obtain rfl := Option.some.inj hw
        rfl
      | freshen | claim | countMiss | resolveMiss | owns | unstub | l2NegCheck | l2NegSet
      | varidxPendingSet | touchLru | accessL1 | purgeKey | purgeIfBlob | purgeBatch | purgeAll
      | breakerWrite | admissionWrite => cases hw
    · obtain rfl := Option.some.inj (hnew.symm.trans hr)
      exact h.measured k old hold
  | read b => exact hother fun now op => by simp
  | release b => exact hother fun now op => by simp
  | free job => exact hother fun now op => by simp

/-- **A lookup arms the request with the body it passes.** -/
theorem Inv.lookedUp {s : Outage} (h : s.Inv) (q : ℕ) (k : KeyHash) (hash : UInt32) (l1 : L1Req)
    (harm : l1.sieArm = (s.attempt q).sieSnap.isNone)
    (hcaptured : (s.attempt q).captured = none) :
    AttemptOk s.clock (Outage.lookedUp (s.attempt q) s.loans.zone k l1
      (Shm.accessL1 s.loans.zone k hash s.clock l1)) := by
  refine ⟨fun k' b hl hopen => ?_, fun x hx => ?_⟩
  · unfold Outage.lookedUp at hl ⊢
    dsimp only at hl ⊢
    split_ifs at hl with hpass
    obtain ⟨rfl, hbody⟩ := Prod.mk.inj (Option.some.inj hl)
    obtain ⟨r, hr, rfl⟩ := Option.map_eq_some_iff.1 hbody
    cases hsnap : (s.attempt q).sieSnap with
    | some snap => rfl
    | none =>
      have hlen : 0 < r.len := by
        rw [h.measured k r hr]
        unfold sieWindowOpen at hopen
        simp only [Bool.and_eq_true, decide_eq_true_eq] at hopen
        exact hopen.1.1
      rw [hsnap] at harm
      have hsome := accessL1_sieSnap hr hlen hash harm hopen hpass
      rw [Option.none_or, Option.isSome_map]
      exact hsome
  · have hnone : (s.attempt q).captured = some x := hx
    rw [hcaptured] at hnone
    cases hnone

/-- **What is captured passed the header filter.** -/
theorem Inv.filtered {s : Outage} (h : s.Inv) (q : ℕ) (x : Fetch) (pool : Pool) :
    AttemptOk s.clock (Outage.filtered s.clock (s.attempt q) x pool) := by
  unfold Outage.filtered
  cases htry : trySie pool s.clock x.request x.useStale (s.attempt q).sieSnap false x.error with
  | done d => exact h.attempt q
  | error => exact h.attempt q
  | declined =>
    dsimp only
    split_ifs
    · refine ⟨h.looked q, fun x' hx' snap hsnap htrig => ?_⟩
      obtain rfl := Option.some.inj hx'
      rw [show (s.attempt q).sieSnap = some snap from hsnap] at htry
      exact trySie_declined htry htrig
    · exact h.attempt q

/-- What is captured is not wanted any more after the last buffer. -/
theorem AttemptOk.stored {now : Time} {a : Attempt} (h : AttemptOk now a) :
    AttemptOk now { a with captured := none } :=
  ⟨h.1, fun x hx => by cases hx⟩

/-- **Every event keeps the invariant.** -/
theorem Inv.act {s : Outage} (h : s.Inv) (e : OutageEvent) : (s.act rb digest e).Inv := by
  cases e with
  | lookup q keyHash hash l1 =>
    unfold Outage.act
    dsimp only
    split_ifs with hskip
    · exact h
    · have hcaptured : (s.attempt q).captured = none := by
        rw [not_or, Option.not_isSome_iff_eq_none] at hskip
        exact hskip.2
      have hloans := h.loansStep rb (.op s.clock
        (.accessL1 keyHash hash { l1 with sieArm := (s.attempt q).sieSnap.isNone }))
      exact hloans.setAttempt q (h.lookedUp q keyHash hash _ rfl hcaptured)
  | expiredArm q blob =>
    unfold Outage.act
    dsimp only
    split_ifs with hskip
    · exact h
    · refine h.setAttempt q ⟨fun k b hl hopen => ?_, fun x hx => ?_⟩
      · have hsome := h.looked q k b hl hopen
        dsimp only
        rw [Option.isSome_or, hsome]
        rfl
      · rw [not_or, Option.not_isSome_iff_eq_none] at hskip
        have hnone : (s.attempt q).captured = some x := hx
        rw [hskip.2] at hnone
        cases hnone
  | header q x pool =>
    unfold Outage.act
    dsimp only
    split_ifs with hskip
    · exact h
    · exact h.setAttempt q (h.filtered q x pool)
  | lastBuf q hash captured =>
    unfold Outage.act
    dsimp only
    cases (s.attempt q).captured.bind (lastStore digest s.clock hash captured) with
    | none => exact h.setAttempt q (h.attempt q).stored
    | some op => exact (h.loansStep rb (.op s.clock op)).setAttempt q (h.attempt q).stored
  | begin q =>
    have hfresh : AttemptOk s.clock .fresh := by
      refine ⟨fun k b hl => ?_, fun x hx => ?_⟩
      · cases hl
      · cases hx
    exact h.setAttempt q hfresh
  | zone e => exact h.loansStep rb e

theorem Inv.step {s : Outage} (h : s.Inv) (e : ℕ × OutageEvent) : (s.step rb digest e).Inv :=
  (h.wait e.1).act rb digest e.2

theorem Inv.start (mem : Shm.Addr → Shm.Node) (blob : BlobId → Shm.Blob)
    (answers : ℕ → Option Shm.Addr) (sketch : Shm.Sketch) (admission : Bool) (breakerState : ℕ)
    (clock : Time) :
    (start (Shm.freshZone mem blob answers sketch admission breakerState) clock).Inv where
  loans := ⟨Shm.Wf.freshZone mem blob answers sketch admission breakerState,
    fun job hjob => absurd hjob List.not_mem_nil⟩
  measured k r hr := by cases hr
  looked q k b hl := by cases hl
  captured q x hx := by cases hx

/-! ## The main result -/

/-- The operation that a last buffer runs. -/
theorem lastStore_eq {now : Time} {hash : UInt32} {captured : Captured} {x : Fetch}
    {op : ZoneOp} (h : lastStore digest now hash captured x = some op) (hstatus : 500 ≤ x.resp.status) :
    ∃ data freshTtl staleTtl wanted,
      op = .storeIf (x.storeKey digest) hash data freshTtl staleTtl .absentOrDead wanted := by
  obtain ⟨wb, -, rfl⟩ := Option.map_eq_some_iff.1 h
  unfold bodyFilterStoreOp
  rw [if_pos hstatus]
  exact ⟨_, _, _, _, rfl⟩

/-- **A covered step destroys nothing.** -/
theorem Inv.spares {s : Outage} (h : s.Inv) {e : ℕ × OutageEvent} (hcov : Covered digest s e) :
    ¬ Destroys rb digest s e := by
  rintro ⟨q, x, op, herr, hok, r, hr, hsound, huse⟩
  by_cases hstale : InStale (s.clock + e.1) r
  · -- the zone refuses
    obtain ⟨hash, captured, -, hop⟩ := herr.event
    obtain ⟨data, freshTtl, staleTtl, wanted, rfl⟩ := lastStore_eq digest hop herr.status
    unfold Shm.exec at hok
    dsimp only at hok
    rw [storeIf_inStale rb hr hsound hstale] at hok
    cases hok
  · -- the request is armed, and its snapshot would have answered
    have hopen := huse.resolve_left hstale
    obtain ⟨hlooked, htrig, hallowed⟩ := hcov q x op herr r hr ⟨hsound, hstale, hopen⟩
    obtain ⟨snap, hsnap⟩ := Option.isSome_iff_exists.1
      ((h.wait e.1).looked q _ r.body hlooked hopen)
    have hrefused := h.captured q x herr.captured snap hsnap htrig
    rw [hallowed snap hsnap] at hrefused
    cases hrefused

/-- The zone has room for the errors that are stored, and admits them. -/
def Taken (s : Outage) (e : ℕ × OutageEvent) : Prop :=
  ∀ q x op, StoresError digest s e q x op → (Shm.exec rb s.loans.zone (s.clock + e.1) op).2.ok

/-- A step that is not covered destroys the body, when the zone takes the error. -/
theorem destroys_of_uncovered {s : Outage} {e : ℕ × OutageEvent} (hcov : ¬ Covered digest s e)
    (htaken : Taken rb digest s e) : Destroys rb digest s e := by
  simp only [Covered, not_forall] at hcov
  obtain ⟨q, x, op, herr, r, hr, hsie, -⟩ := hcov
  exact ⟨q, x, op, herr, htaken q x op herr, r, hr, hsie.1, Or.inr hsie.2.2⟩

/-- **A stored origin error destroys no usable body along the covered runs**, and where the
zone takes what it is handed, along no others.  The stale window is the zone's own guard; the
stale-if-error window is guarded by the lookup of the request, and only for a body that this
lookup found. -/
theorem errors_spare_bodies (mem : Shm.Addr → Shm.Node) (blob : BlobId → Shm.Blob)
    (answers : ℕ → Option Shm.Addr) (sketch : Shm.Sketch) (admission : Bool) (breakerState : ℕ)
    (clock : Time) (run : List (ℕ × OutageEvent)) :
    let s := start (Shm.freshZone mem blob answers sketch admission breakerState) clock
    (Run.Along (step rb digest) (Covered digest) s run →
      Run.Along (step rb digest) (fun s e => ¬ Destroys rb digest s e) s run) ∧
    (Run.Along (step rb digest) (Taken rb digest) s run →
      Run.Along (step rb digest) (fun s e => ¬ Destroys rb digest s e) s run →
        Run.Along (step rb digest) (Covered digest) s run) := by
  intro s
  have hstart : s.Inv := Inv.start mem blob answers sketch admission breakerState clock
  constructor
  · intro hcov
    exact Run.along_of_invariant (P := Inv)
      (fun s e h hc => ⟨h.spares rb digest hc, h.step rb digest e⟩) hstart hcov
  · intro htaken hspares
    refine Run.along_of_invariant (P := Inv) (fun s e h hboth => ⟨?_, h.step rb digest e⟩) hstart
      (Run.along_and htaken hspares)
    by_contra hcov
    exact hboth.2 (destroys_of_uncovered rb digest hcov hboth.1)

/-! ### A reload in an outage -/

/-- Pages live for a second and are kept for an hour, and 503s for a minute. -/
def keepConf : CaptureConf :=
  { enable := true, shmZone := true, autoVary := false,
    key := { key := some fun r => r.uri, autoKeyCookies := [], keyCookies := [] },
    valid := 1, validStatus := [⟨503, 60⟩], honorCc := true, ignoreCc := false, staleMult := 1,
    keepStale := 3600, maxSize := 0,
    vetted := fun v hv => by rw [List.mem_singleton.1 hv]; decide }

/-- An answer with this status, where `use_stale` names 503. -/
def answerOf (status : ℕ) : Fetch :=
  { conf := keepConf
    useStale := useStaleHttp503
    request := bareRequest [47]
    ctx := ⟨true, false, true, false, false, false, false, Life.pageKey⟩
    cacheKey := [47]
    varyBits := 0
    varyGen := 0
    resp := { Life.mustPage (-1) with status := status, mustRevalidate := false }
    transportFailure := false }

/-- The body of an answer. -/
def answerBody : Captured := ⟨0, 0, [], [33], List.replicate 29 48⟩

/-- A page is stored.  Ten seconds later a reload with `no-cache`, which looks nothing up, meets
a 503. -/
def reloadRun : List (ℕ × OutageEvent) :=
  [(0, .header 0 (answerOf 200) ⟨true, true⟩), (0, .lastBuf 0 0 answerBody),
    (10, .header 1 (answerOf 503) ⟨true, true⟩), (0, .lastBuf 1 0 answerBody)]

/-- **The last good copy goes**: the reload's error replaces a page that may be used on error
for an hour more. -/
theorem errors_spare_bodies_fails : ¬ ∀ (rb : Rbtree) (digest : Bytes → KeyHash)
    (mem : Shm.Addr → Shm.Node) (blob : BlobId → Shm.Blob) (answers : ℕ → Option Shm.Addr)
    (sketch : Shm.Sketch) (admission : Bool) (breakerState : ℕ) (clock : Time)
    (run : List (ℕ × OutageEvent)),
    Run.Along (step rb digest) (fun s e => ¬ Destroys rb digest s e)
      (start (Shm.freshZone mem blob answers sketch admission breakerState) clock) run := by
  intro h
  have hrun : Run.Along (step Rbtree.unbalanced fun _ => Life.pageKey)
      (fun s e => ¬ Destroys Rbtree.unbalanced (fun _ => Life.pageKey) s e)
      (start Life.roomyZone 1000) reloadRun := h _ _ _ _ _ _ _ _ _ _
  -- the last event finds the captured 503, takes it, and the page is under its key
  have hlast : ((Run.after (step Rbtree.unbalanced fun _ => Life.pageKey) (start Life.roomyZone 1000)
      (reloadRun.take 3)).attempt 1).captured.any (fun x => 500 ≤ x.resp.status ∧
        (lastStore (fun _ => Life.pageKey) 1010 0 answerBody x).any (fun op =>
          (Shm.exec Rbtree.unbalanced (Run.after (step Rbtree.unbalanced fun _ => Life.pageKey)
            (start Life.roomyZone 1000) (reloadRun.take 3)).loans.zone 1010 op).2.ok) = true ∧
        (record (Run.after (step Rbtree.unbalanced fun _ => Life.pageKey)
            (start Life.roomyZone 1000) (reloadRun.take 3)).loans.zone
          (x.storeKey fun _ => Life.pageKey)).any (fun r => r.kind = .entry ∧ 0 < r.len ∧
            (blobHdrRead r.body).status < 500 ∧ sieWindowOpen 1010 r.body = true) = true) = true := by
    decide +kernel
  obtain ⟨x, hx, hlast⟩ := (Option.any_eq_true ..).1 hlast
  obtain ⟨hstatus, hstore, hbody⟩ := of_decide_eq_true hlast
  obtain ⟨op, hop, htaken⟩ := (Option.any_eq_true ..).1 hstore
  obtain ⟨r, hr, hr'⟩ := (Option.any_eq_true ..).1 hbody
  obtain ⟨hkind, hlen, hgood, hopen⟩ := of_decide_eq_true hr'
  exact hrun.2.2.2.1 ⟨1, x, op, ⟨hx, hstatus, 0, answerBody, rfl, hop⟩, of_decide_eq_true htaken,
    r, hr, ⟨hkind, hlen, hgood⟩, Or.inr hopen⟩

end Outage
end Http
end CacheTurbo
