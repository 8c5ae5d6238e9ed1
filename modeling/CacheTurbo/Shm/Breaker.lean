/-
# The circuit breaker

The breaker block of `ngx_http_cache_turbo_shctx_t` and the two lock-free
routines that drive it, `ngx_http_cache_turbo_shm_breaker_state` and
`ngx_http_cache_turbo_shm_breaker_record` (`ngx_http_cache_turbo_shm.c`), with
the packed words of `ngx_http_cache_turbo_module.h` in the 64-bit layout.

Each load, store, `ngx_atomic_cmp_set` and `ngx_atomic_fetch_add` of a shared
field is one step, and so is each `ngx_time()`.  A `Frame` is the program point
of a call together with the local variables that the rest of the call reads;
what the code computes between two accesses is done in the step of the first of
them.  `breaker_epoch` never changes after the zone was made, so reading it is
not a step.
-/

import CacheTurbo.Shm.Evict
import CacheTurbo.Lib.Threads
import Mathlib.Algebra.Group.Nat.Defs

namespace CacheTurbo
namespace Shm

/-! ## The packed words -/

/-- `NGX_HTTP_CACHE_TURBO_BREAKER_CLOSED`. -/
def breakerClosed : ℕ := 0

/-- `NGX_HTTP_CACHE_TURBO_BREAKER_HALF_OPEN`. -/
def breakerHalfOpen : ℕ := 2

/-- `NGX_HTTP_CACHE_TURBO_BREAKER_NO_PROBE`. -/
def breakerNoProbe : ℕ := 0

/-- `NGX_HTTP_CACHE_TURBO_BREAKER_PROBE_LEASE`, in seconds. -/
def breakerProbeLease : Time := 300

/-- `NGX_HTTP_CACHE_TURBO_BREAKER_PROBE_STAMP_MASK`, 32 bits. -/
def breakerProbeStampMask : ℕ := 2 ^ 32 - 1

/-- `NGX_HTTP_CACHE_TURBO_BREAKER_PROBE_GEN_MASK`, the other 32. -/
def breakerProbeGenMask : ℕ := 2 ^ 32 - 1

/-- A `time_t` cast to `ngx_uint_t`. -/
def uintOfTime (t : Time) : ℕ := (t % 2 ^ 64).toNat

/-- `ngx_http_cache_turbo_brk_gen`. -/
def brkGen (w : ℕ) : ℕ := w >>> 2

/-- `ngx_http_cache_turbo_brk_pack`. -/
def brkPack (gen st : ℕ) : ℕ := gen <<< 2 % 2 ^ 64 ||| st &&& 3

/-- `ngx_http_cache_turbo_brk_probe_stamp`. -/
def brkProbeStamp (w : ℕ) : ℕ := w &&& breakerProbeStampMask

/-- `ngx_http_cache_turbo_brk_probe_gen`. -/
def brkProbeGen (w : ℕ) : ℕ := w >>> 32 &&& breakerProbeGenMask

/-- `ngx_http_cache_turbo_brk_probe_pack`. -/
def brkProbePack (gen stamp : ℕ) : ℕ :=
  (gen &&& breakerProbeGenMask) <<< 32 % 2 ^ 64 ||| stamp &&& breakerProbeStampMask

/-- `ngx_http_cache_turbo_shm_brk_probe_age`. -/
def brkProbeAge (epoch : Time) (probeWord : ℕ) (now : Time) : Time :=
  if now < epoch then 0
  else
    let rel := uintOfTime (now - epoch) &&& breakerProbeStampMask
    let stamp := brkProbeStamp probeWord
    ((rel + 2 ^ 64 - stamp) % 2 ^ 64 &&& breakerProbeStampMask : ℕ)

/-- The generation of the next promotion: one more than that of `word`, and never
one whose masked value is `NO_PROBE`. -/
def nextGen (word : ℕ) : ℕ :=
  let gen := (brkGen word + 1) % 2 ^ 64
  if gen = breakerNoProbe ∨ gen &&& breakerProbeGenMask = breakerNoProbe then
    let gen := (gen + 1) % 2 ^ 64
    if gen = breakerNoProbe then 1 else gen
  else gen

/-! ## The shared fields -/

/-- The `breaker_*` fields of `ngx_http_cache_turbo_shctx_t`. -/
structure Breaker where
  breakerState : ℕ
  breakerFails : ℕ
  breakerWindowStart : Time
  breakerOpenedAt : Time
  breakerProbe : ℕ
  breakerEpoch : Time
  breakerOpens : ℕ

/-- The breaker of a zone made at time `epoch`. -/
def Breaker.init (epoch : Time) : Breaker :=
  { breakerState := breakerClosed
    breakerFails := 0
    breakerWindowStart := 0
    breakerOpenedAt := 0
    breakerProbe := 0
    breakerEpoch := epoch
    breakerOpens := 0 }

/-- `ngx_atomic_cmp_set` on `breaker_state`. -/
def Breaker.casState (b : Breaker) (old set : ℕ) : Breaker × Bool :=
  if b.breakerState = old then ({ b with breakerState := set }, true) else (b, false)

/-- `ngx_atomic_cmp_set` on `breaker_probe`. -/
def Breaker.casProbe (b : Breaker) (old set : ℕ) : Breaker × Bool :=
  if b.breakerProbe = old then ({ b with breakerProbe := set }, true) else (b, false)

/-! ## The program points -/

/-- Where a call is, and its live local variables. -/
inductive Frame
  /-- `breaker_state`: load `breaker_state`. -/
  | stateWord (openFor : Time)
  /-- Load `breaker_probe`. -/
  | stateProbe (openFor : Time) (word : ℕ)
  /-- `now = ngx_time()`, and the test of the probe lease. -/
  | stateTime (openFor : Time) (word probeWord : ℕ)
  /-- The lease ran out: set the word from HALF_OPEN to OPEN. -/
  | stateReclaim (openFor now : Time) (word probeWord : ℕ)
  /-- The reclaim won: store `breaker_opened_at`. -/
  | stateReclaimed (openFor now : Time) (word probeWord : ℕ)
  /-- Load `breaker_opened_at`. -/
  | stateOpenedAt (openFor now : Time) (word probeWord : ℕ)
  /-- Publish the generation and the stamp in `breaker_probe`. -/
  | statePublish (now : Time) (word probeWord : ℕ)
  /-- Set the word from OPEN to HALF_OPEN. -/
  | statePromote (word : ℕ)
  /-- `breaker_state` has returned `state` and handed out `probe`. -/
  | stateReturned (state probe : ℕ)
  /-- `breaker_record`: `now = ngx_time()`. -/
  | recordTime (success : Bool) (threshold : ℕ) (window : Time) (probe : ℕ)
  /-- Load `breaker_state`. -/
  | recordWord (success : Bool) (threshold : ℕ) (window : Time) (probe : ℕ) (now : Time)
  /-- A success: `breaker_fails = 0`. -/
  | recordReset (probe word : ℕ)
  /-- The probe succeeded: set the word to CLOSED. -/
  | recordClose (probe word : ℕ)
  /-- The probe failed: store `breaker_opened_at`. -/
  | recordFailed (probe : ℕ) (now : Time) (word : ℕ)
  /-- Set the word back to OPEN. -/
  | recordReopen (probe word : ℕ)
  /-- A failure while CLOSED: load `breaker_window_start`. -/
  | recordWindow (threshold : ℕ) (window now : Time) (word : ℕ)
  /-- The window has passed: set `breaker_window_start` to `now`. -/
  | recordRestart (threshold : ℕ) (now : Time) (word : ℕ) (windowStart : Time)
  /-- The new window is ours: `breaker_fails = 0`. -/
  | recordRestarted (threshold : ℕ) (now : Time) (word : ℕ)
  /-- Add one to `breaker_fails`. -/
  | recordAdd (threshold : ℕ) (now : Time) (word : ℕ)
  /-- The threshold is reached: store `breaker_opened_at`. -/
  | recordTripAt (now : Time) (word : ℕ)
  /-- Set the word from CLOSED to OPEN. -/
  | recordTrip (word : ℕ)
  /-- The trip is ours: `breaker_fails = 0`. -/
  | recordTripped
  /-- Add one to `breaker_opens`. -/
  | recordOpens
  /-- `breaker_record` has returned. -/
  | recordReturned
  deriving DecidableEq, Repr

/-- A call of one of the two routines. -/
inductive BrkCall
  | state (openFor : Time)
  | record (success : Bool) (threshold : ℕ) (window : Time) (probe : ℕ)

/-- The program point at which a call begins. -/
def BrkCall.entry : BrkCall → Frame
  | .state openFor => .stateWord openFor
  | .record success threshold window probe => .recordTime success threshold window probe

/-! ## The steps -/

/-- `shm_breaker_state` from the test `state != OPEN || open_for <= 0` on. -/
def stateTimed (openFor now : Time) (word state probeWord : ℕ) : Frame :=
  if state ≠ breakerOpen ∨ openFor ≤ 0 then .stateReturned state breakerNoProbe
  else .stateOpenedAt openFor now word probeWord

/-- The lease test that `shm_breaker_state` makes in HALF_OPEN. -/
def reclaimDue (epoch openFor now : Time) (word probeWord : ℕ) : Bool :=
  decide (openFor > 0) && brkProbeGen probeWord != breakerNoProbe
    && brkProbeGen probeWord == brkGen word &&& breakerProbeGenMask
    && decide (brkProbeAge epoch probeWord now ≥ breakerProbeLease)

/-- One step of `ngx_http_cache_turbo_shm_breaker_state`. -/
def breakerStateStep (clock : Time) (b : Breaker) : Frame → Breaker × Frame
  | .stateWord openFor => (b, .stateProbe openFor b.breakerState)
  | .stateProbe openFor word => (b, .stateTime openFor word b.breakerProbe)
  | .stateTime openFor word probeWord =>
      let now := clock
      let state := brkState word
      if state = breakerHalfOpen then
        if reclaimDue b.breakerEpoch openFor now word probeWord then
          (b, .stateReclaim openFor now word probeWord)
        else (b, .stateReturned breakerOpen breakerNoProbe)
      else (b, stateTimed openFor now word state probeWord)
  | .stateReclaim openFor now word probeWord =>
      let (b, won) := b.casState word (brkPack (brkGen word) breakerOpen)
      if won then (b, .stateReclaimed openFor now word probeWord)
      else (b, .stateReturned breakerOpen breakerNoProbe)
  | .stateReclaimed openFor now word probeWord =>
      let b := { b with breakerOpenedAt := now - openFor }
      let word := brkPack (brkGen word) breakerOpen
      (b, stateTimed openFor now word breakerOpen probeWord)
  | .stateOpenedAt openFor now word probeWord =>
      if now - b.breakerOpenedAt < openFor then (b, .stateReturned breakerOpen breakerNoProbe)
      else (b, .statePublish now word probeWord)
  | .statePublish now word probeWord =>
      let stamp := uintOfTime (now - b.breakerEpoch)
      let (b, won) := b.casProbe probeWord (brkProbePack (nextGen word) stamp)
      if won then (b, .statePromote word) else (b, .stateReturned breakerOpen breakerNoProbe)
  | .statePromote word =>
      let gen := nextGen word
      let (b, won) := b.casState word (brkPack gen breakerHalfOpen)
      if won then (b, .stateReturned breakerHalfOpen gen)
      else (b, .stateReturned breakerOpen breakerNoProbe)
  | f => (b, f)

/-- One step of `ngx_http_cache_turbo_shm_breaker_record`. -/
def breakerRecordStep (clock : Time) (b : Breaker) : Frame → Breaker × Frame
  | .recordTime success threshold window probe =>
      (b, .recordWord success threshold window probe clock)
  | .recordWord success threshold window probe now =>
      let word := b.breakerState
      let state := brkState word
      if success then (b, .recordReset probe word)
      else if state = breakerHalfOpen ∧ probe ≠ breakerNoProbe ∧ probe = brkGen word then
        (b, .recordFailed probe now word)
      else if state ≠ breakerClosed ∨ threshold = 0 ∨ window ≤ 0 then (b, .recordReturned)
      else (b, .recordWindow threshold window now word)
  | .recordReset probe word =>
      let b := { b with breakerFails := 0 }
      if brkState word = breakerHalfOpen ∧ probe ≠ breakerNoProbe ∧ probe = brkGen word then
        (b, .recordClose probe word)
      else (b, .recordReturned)
  | .recordClose probe word => ((b.casState word (brkPack probe breakerClosed)).1, .recordReturned)
  | .recordFailed probe now word => ({ b with breakerOpenedAt := now }, .recordReopen probe word)
  | .recordReopen probe word => ((b.casState word (brkPack probe breakerOpen)).1, .recordReturned)
  | .recordWindow threshold window now word =>
      if now - b.breakerWindowStart ≥ window then
        (b, .recordRestart threshold now word b.breakerWindowStart)
      else (b, .recordAdd threshold now word)
  | .recordRestart threshold now word windowStart =>
      if b.breakerWindowStart = windowStart then
        ({ b with breakerWindowStart := now }, .recordRestarted threshold now word)
      else (b, .recordAdd threshold now word)
  | .recordRestarted threshold now word =>
      ({ b with breakerFails := 0 }, .recordAdd threshold now word)
  | .recordAdd threshold now word =>
      let fails := (b.breakerFails + 1) % 2 ^ 64
      let b := { b with breakerFails := fails }
      if fails < threshold then (b, .recordReturned) else (b, .recordTripAt now word)
  | .recordTripAt now word => ({ b with breakerOpenedAt := now }, .recordTrip word)
  | .recordTrip word =>
      let (b, won) := b.casState (brkPack (brkGen word) breakerClosed)
        (brkPack (brkGen word) breakerOpen)
      if won then (b, .recordTripped) else (b, .recordReturned)
  | .recordTripped => ({ b with breakerFails := 0 }, .recordOpens)
  | .recordOpens =>
      ({ b with breakerOpens := (b.breakerOpens + 1) % 2 ^ 64 }, .recordReturned)
  | f => (b, f)

/-- Whether a frame belongs to a call of `shm_breaker_record`. -/
def Frame.ofRecord : Frame → Bool
  | .recordTime .. | .recordWord .. | .recordReset .. | .recordClose .. | .recordFailed ..
  | .recordReopen .. | .recordWindow .. | .recordRestart .. | .recordRestarted .. | .recordAdd ..
  | .recordTripAt .. | .recordTrip .. | .recordTripped | .recordOpens | .recordReturned => true
  | _ => false

/-- One step of a call.  A call that has returned takes no more. -/
def breakerStep (clock : Time) (b : Breaker) (f : Frame) : Breaker × Frame :=
  if f.ofRecord then breakerRecordStep clock b f else breakerStateStep clock b f

/-- The callers of one breaker: each makes one call. -/
abbrev Callers := Threads Breaker Frame

/-- A fresh breaker, and the callers `calls` before their first step. -/
def Callers.start (epoch : Time) (calls : ℕ → BrkCall) : Callers :=
  { shared := .init epoch
    frame := fun i => (calls i).entry }

end Shm
end CacheTurbo
