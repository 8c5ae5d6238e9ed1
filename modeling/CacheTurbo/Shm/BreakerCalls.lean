/-
# The breaker, one call at a time

`ngx_http_cache_turbo_shm_breaker_state` and `ngx_http_cache_turbo_shm_breaker_record`
(`ngx_http_cache_turbo_shm.c`) as functions of the shared fields, for the case that no two
calls overlap: every `ngx_atomic_cmp_set` but the one of the trip then finds the word that
was loaded.  `lone_state` and `lone_record` say that this is what the accesses of the two
routines come to when a caller makes all of its own one after the other.

A history is a list of turns, each a call with the time at which it is made.
-/

import CacheTurbo.Shm.BreakerLease
import CacheTurbo.Lib.Run
import Mathlib.Logic.Relation

namespace CacheTurbo
namespace Shm

/-! ## The two routines -/

/-- The promotion in `shm_breaker_state`: publish the next generation and the stamp of the
lease, and set the word from OPEN to HALF_OPEN. -/
def Breaker.promote (b : Breaker) (now : Time) : Breaker :=
  let gen := nextGen b.breakerState
  { b with
    breakerProbe := brkProbePack gen (uintOfTime (now - b.breakerEpoch))
    breakerState := brkPack gen breakerHalfOpen }

/-- `shm_breaker_state` from the test of `breaker_opened_at` on: the state returned and the
token handed out. -/
def Breaker.probeIfDue (b : Breaker) (now openFor : Time) : Breaker × ℕ × ℕ :=
  if now - b.breakerOpenedAt < openFor then (b, breakerOpen, breakerNoProbe)
  else (b.promote now, breakerHalfOpen, nextGen b.breakerState)

/-- A lease that ran out is taken back in `shm_breaker_state`. -/
def Breaker.reclaim (b : Breaker) (now openFor : Time) : Breaker :=
  { b with
    breakerState := brkPack (brkGen b.breakerState) breakerOpen
    breakerOpenedAt := now - openFor }

/-- `ngx_http_cache_turbo_shm_breaker_state`. -/
def shmBreakerState (b : Breaker) (now openFor : Time) : Breaker × ℕ × ℕ :=
  let word := b.breakerState
  let state := brkState word
  if state = breakerHalfOpen then
    if reclaimDue b.breakerEpoch openFor now word b.breakerProbe then
      (b.reclaim now openFor).probeIfDue now openFor
    else (b, breakerOpen, breakerNoProbe)
  else if state ≠ breakerOpen ∨ openFor ≤ 0 then (b, state, breakerNoProbe)
  else b.probeIfDue now openFor

/-- The re-anchoring of the failure window in `shm_breaker_record`. -/
def Breaker.restartIfPast (b : Breaker) (now window : Time) : Breaker :=
  if now - b.breakerWindowStart ≥ window then
    { b with breakerWindowStart := now, breakerFails := 0 }
  else b

/-- The compare-and-set of the trip in `shm_breaker_record`, and what its winner does. -/
def Breaker.trip (b : Breaker) (word : ℕ) : Breaker :=
  let (b, won) := b.casState (brkPack (brkGen word) breakerClosed)
    (brkPack (brkGen word) breakerOpen)
  if won then { b with breakerFails := 0, breakerOpens := (b.breakerOpens + 1) % 2 ^ 64 } else b

/-- `shm_breaker_record` from `ngx_atomic_fetch_add` of `breaker_fails` on. -/
def Breaker.addFailure (b : Breaker) (now : Time) (threshold word : ℕ) : Breaker :=
  let fails := (b.breakerFails + 1) % 2 ^ 64
  let b := { b with breakerFails := fails }
  if fails < threshold then b else { b with breakerOpenedAt := now }.trip word

instance (probe word : ℕ) : Decidable (OnLease probe word) :=
  inferInstanceAs (Decidable (_ ∧ _ ∧ _))

/-- `ngx_http_cache_turbo_shm_breaker_record`. -/
def shmBreakerRecord (b : Breaker) (now : Time) (success : Bool) (threshold : ℕ) (window : Time)
    (probe : ℕ) : Breaker :=
  let word := b.breakerState
  let state := brkState word
  if success then
    let b := { b with breakerFails := 0 }
    if OnLease probe word then { b with breakerState := brkPack probe breakerClosed } else b
  else if OnLease probe word then
    { b with breakerOpenedAt := now, breakerState := brkPack probe breakerOpen }
  else if state ≠ breakerClosed ∨ threshold = 0 ∨ window ≤ 0 then b
  else (b.restartIfPast now window).addFailure now threshold word

/-! ## The accesses of a caller that runs alone -/

/-- One access of a caller at time `now`, and nobody else's. -/
def Access (now : Time) (s s' : Breaker × Frame) : Prop := s' = breakerStep now s.1 s.2

/-- A caller makes all its accesses one after the other. -/
abbrev Lone (now : Time) : Breaker × Frame → Breaker × Frame → Prop :=
  Relation.ReflTransGen (Access now)

/-- One access of `shm_breaker_state`, then the others. -/
theorem Lone.state {now : Time} {b c : Breaker} {f g : Frame} {s : Breaker × Frame}
    (hkind : f.ofRecord = false) (hstep : breakerStateStep now b f = (c, g))
    (h : Lone now (c, g) s) : Lone now (b, f) s := by
  refine Relation.ReflTransGen.head ?_ h
  unfold Access breakerStep
  rw [hkind, if_neg (by decide)]
  exact hstep.symm

/-- One access of `shm_breaker_record`, then the others. -/
theorem Lone.record {now : Time} {b c : Breaker} {f g : Frame} {s : Breaker × Frame}
    (hkind : f.ofRecord = true) (hstep : breakerRecordStep now b f = (c, g))
    (h : Lone now (c, g) s) : Lone now (b, f) s := by
  refine Relation.ReflTransGen.head ?_ h
  unfold Access breakerStep
  rw [if_pos hkind]
  exact hstep.symm

/-- From the load of `breaker_opened_at` on. -/
theorem lone_probeIfDue (now openFor : Time) (b : Breaker) :
    Lone now (b, .stateOpenedAt openFor now b.breakerState b.breakerProbe)
      ((b.probeIfDue now openFor).1,
        .stateReturned (b.probeIfDue now openFor).2.1 (b.probeIfDue now openFor).2.2) := by
  unfold Breaker.probeIfDue
  by_cases hwait : now - b.breakerOpenedAt < openFor
  · rw [if_pos hwait]
    exact .state rfl (if_pos hwait) .refl
  · rw [if_neg hwait]
    set probe := brkProbePack (nextGen b.breakerState) (uintOfTime (now - b.breakerEpoch))
      with hprobe
    refine .state rfl (if_neg hwait) ?_
    refine .state rfl (g := .statePromote b.breakerState) (c := b.publish probe) ?_ ?_
    · unfold breakerStateStep Breaker.casProbe
      dsimp only
      rw [if_pos rfl]
      rfl
    · refine .state rfl ?_ .refl
      unfold breakerStateStep Breaker.casState
      dsimp only
      rw [if_pos (show (b.publish probe).breakerState = b.breakerState from rfl)]
      rfl

/-- **The accesses of `shm_breaker_state`, made by a caller that runs alone**, are the
function. -/
theorem lone_state (now openFor : Time) (b : Breaker) :
    Lone now (b, (BrkCall.state openFor).entry)
      ((shmBreakerState b now openFor).1,
        .stateReturned (shmBreakerState b now openFor).2.1 (shmBreakerState b now openFor).2.2) := by
  refine .state rfl (c := b) (g := .stateProbe openFor b.breakerState) rfl ?_
  refine .state rfl (c := b) (g := .stateTime openFor b.breakerState b.breakerProbe) rfl ?_
  unfold shmBreakerState
  dsimp only
  by_cases hhalf : brkState b.breakerState = breakerHalfOpen
  · rw [if_pos hhalf]
    by_cases hdue : reclaimDue b.breakerEpoch openFor now b.breakerState b.breakerProbe = true
    · rw [if_pos hdue]
      refine .state rfl (c := b) (g := .stateReclaim openFor now b.breakerState b.breakerProbe) ?_ ?_
      · unfold breakerStateStep
        dsimp only
        rw [if_pos hhalf, if_pos hdue]
      refine .state rfl
        (c := { b with breakerState := brkPack (brkGen b.breakerState) breakerOpen })
        (g := .stateReclaimed openFor now b.breakerState b.breakerProbe) ?_ ?_
      · unfold breakerStateStep Breaker.casState
        dsimp only
        rw [if_pos rfl]
        rfl
      have hopen : ¬ (breakerOpen ≠ breakerOpen ∨ openFor ≤ 0) := by
        unfold reclaimDue at hdue
        simp only [Bool.and_eq_true, decide_eq_true_eq] at hdue
        exact not_or.2 ⟨fun hc => hc rfl, Int.not_le.2 hdue.1.1.1⟩
      refine .state rfl ?_ (lone_probeIfDue now openFor _)
      unfold breakerStateStep stateTimed
      dsimp only
      rw [if_neg hopen]
      rfl
    · rw [if_neg hdue]
      refine .state rfl ?_ .refl
      unfold breakerStateStep
      dsimp only
      rw [if_pos hhalf, if_neg hdue]
  · rw [if_neg hhalf]
    by_cases hnone : brkState b.breakerState ≠ breakerOpen ∨ openFor ≤ 0
    · rw [if_pos hnone]
      refine .state rfl ?_ .refl
      unfold breakerStateStep stateTimed
      dsimp only
      rw [if_neg hhalf, if_pos hnone]
    · rw [if_neg hnone]
      refine .state rfl ?_ (lone_probeIfDue now openFor b)
      unfold breakerStateStep stateTimed
      dsimp only
      rw [if_neg hhalf, if_neg hnone]

/-- From the compare-and-set of the trip on. -/
theorem lone_trip (now : Time) (word : ℕ) (b : Breaker) :
    Lone now (b, .recordTrip word) (b.trip word, .recordReturned) := by
  unfold Breaker.trip
  obtain ⟨-, hcas⟩ | ⟨-, hcas⟩ :=
    casState_cases b (brkPack (brkGen word) breakerClosed) (brkPack (brkGen word) breakerOpen)
  · rw [hcas]
    dsimp only
    rw [if_pos rfl]
    refine .record rfl (g := .recordTripped)
      (c := { b with breakerState := brkPack (brkGen word) breakerOpen }) ?_
      (.record rfl rfl (.record rfl rfl .refl))
    unfold breakerRecordStep
    dsimp only
    rw [hcas]
    rfl
  · rw [hcas]
    dsimp only
    rw [if_neg (by decide)]
    refine .record rfl ?_ .refl
    unfold breakerRecordStep
    dsimp only
    rw [hcas]
    rfl

/-- From the addition to `breaker_fails` on. -/
theorem lone_addFailure (now : Time) (threshold word : ℕ) (b : Breaker) :
    Lone now (b, .recordAdd threshold now word)
      (b.addFailure now threshold word, .recordReturned) := by
  unfold Breaker.addFailure
  dsimp only
  by_cases hfew : (b.breakerFails + 1) % 2 ^ 64 < threshold
  · rw [if_pos hfew]
    refine .record rfl ?_ .refl
    unfold breakerRecordStep
    dsimp only
    rw [if_pos hfew]
  · rw [if_neg hfew]
    refine .record rfl (c := { b with breakerFails := (b.breakerFails + 1) % 2 ^ 64 })
      (g := .recordTripAt now word) ?_ (.record rfl rfl (lone_trip ..))
    unfold breakerRecordStep
    dsimp only
    rw [if_neg hfew]

/-- **The accesses of `shm_breaker_record`, made by a caller that runs alone**, are the
function. -/
theorem lone_record (now : Time) (success : Bool) (threshold : ℕ) (window : Time) (probe : ℕ)
    (b : Breaker) :
    Lone now (b, (BrkCall.record success threshold window probe).entry)
      (shmBreakerRecord b now success threshold window probe, .recordReturned) := by
  refine .record rfl (c := b) (g := .recordWord success threshold window probe now) rfl ?_
  unfold shmBreakerRecord
  dsimp only
  by_cases hsuccess : success = true
  · rw [if_pos hsuccess]
    refine .record rfl (c := b) (g := .recordReset probe b.breakerState) (if_pos hsuccess) ?_
    by_cases hlease : OnLease probe b.breakerState
    · rw [if_pos hlease]
      refine .record rfl (if_pos hlease) (.record rfl ?_ .refl)
      unfold breakerRecordStep Breaker.casState
      dsimp only
      rw [if_pos rfl]
    · rw [if_neg hlease]
      exact .record rfl (if_neg hlease) .refl
  · rw [if_neg hsuccess]
    by_cases hlease : OnLease probe b.breakerState
    · rw [if_pos hlease]
      refine .record rfl (c := b) (g := .recordFailed probe now b.breakerState) ?_
        (.record rfl rfl (.record rfl ?_ .refl))
      · exact (if_neg hsuccess).trans (if_pos hlease)
      unfold breakerRecordStep Breaker.casState
      dsimp only
      rw [if_pos rfl]
    · rw [if_neg hlease]
      by_cases hskip : brkState b.breakerState ≠ breakerClosed ∨ threshold = 0 ∨ window ≤ 0
      · rw [if_pos hskip]
        exact .record rfl ((if_neg hsuccess).trans ((if_neg hlease).trans (if_pos hskip))) .refl
      · rw [if_neg hskip]
        refine .record rfl ((if_neg hsuccess).trans ((if_neg hlease).trans (if_neg hskip))) ?_
        unfold Breaker.restartIfPast
        by_cases hpast : now - b.breakerWindowStart ≥ window
        · rw [if_pos hpast]
          exact .record rfl (if_pos hpast) (.record rfl (if_pos rfl) (.record rfl rfl (lone_addFailure ..)))
        · rw [if_neg hpast]
          exact .record rfl (if_neg hpast) (lone_addFailure ..)

/-! ## Turns -/

/-- A call, and the time at which it is made. -/
structure Turn where
  now : Time
  call : BrkCall

/-- The breaker after a turn. -/
def Breaker.turn (b : Breaker) (x : Turn) : Breaker :=
  match x.call with
  | .state openFor => (shmBreakerState b x.now openFor).1
  | .record success threshold window probe =>
      shmBreakerRecord b x.now success threshold window probe

/-- The turns of `shm_breaker_state` that return HALF_OPEN. -/
def Breaker.Leases (b : Breaker) (x : Turn) : Prop :=
  match x.call with
  | .state openFor => (shmBreakerState b x.now openFor).2.1 = breakerHalfOpen
  | .record .. => False

instance (b : Breaker) : (x : Turn) → Decidable (b.Leases x)
  | ⟨now, .state openFor⟩ =>
      inferInstanceAs (Decidable ((shmBreakerState b now openFor).2.1 = breakerHalfOpen))
  | ⟨_, .record ..⟩ => inferInstanceAs (Decidable False)

/-- The breaker after a list of turns, in a zone made at time `epoch`. -/
def breakerAfter (epoch : Time) (xs : List Turn) : Breaker :=
  Run.after Breaker.turn (.init epoch) xs

/-- The times do not go back. -/
def Nondecreasing (xs : List Turn) : Prop := xs.Pairwise fun x y => x.now ≤ y.now

/-- What a turn can do. -/
inductive Outcome (b : Breaker) (x : Turn) : Breaker → Prop
  /-- `breaker_state` changes nothing, and returns something else than HALF_OPEN. -/
  | waits {openFor : Time} (hcall : x.call = .state openFor) (hanswer : ¬ b.Leases x) :
      Outcome b x b
  /-- The open window has passed: a new lease. -/
  | promotes {openFor : Time} (hcall : x.call = .state openFor) (hanswer : b.Leases x)
      (hopenFor : 0 < openFor)
      (hstate : brkState b.breakerState = breakerOpen)
      (hdue : openFor ≤ x.now - b.breakerOpenedAt) : Outcome b x (b.promote x.now)
  /-- The lease ran out: it is taken back, and there is a new one. -/
  | reclaims {openFor : Time} (hcall : x.call = .state openFor) (hanswer : b.Leases x)
      (hopenFor : 0 < openFor)
      (hstate : brkState b.breakerState = breakerHalfOpen)
      (hdue : breakerProbeLease ≤ brkProbeAge b.breakerEpoch b.breakerProbe x.now) :
      Outcome b x ((b.reclaim x.now openFor).promote x.now)
  /-- A success that is not the probe's. -/
  | clears {threshold : ℕ} {window : Time} {probe : ℕ}
      (hcall : x.call = .record true threshold window probe) :
      Outcome b x { b with breakerFails := 0 }
  /-- The probe succeeded. -/
  | closes {threshold : ℕ} {window : Time} {probe : ℕ}
      (hcall : x.call = .record true threshold window probe)
      (hlease : OnLease probe b.breakerState) :
      Outcome b x { b with breakerFails := 0, breakerState := brkPack probe breakerClosed }
  /-- The probe failed. -/
  | reopens {threshold : ℕ} {window : Time} {probe : ℕ}
      (hcall : x.call = .record false threshold window probe)
      (hlease : OnLease probe b.breakerState) :
      Outcome b x { b with breakerOpenedAt := x.now, breakerState := brkPack probe breakerOpen }
  /-- A failure that is dropped. -/
  | ignores {threshold : ℕ} {window : Time} {probe : ℕ}
      (hcall : x.call = .record false threshold window probe)
      (hskip : brkState b.breakerState ≠ breakerClosed ∨ threshold = 0 ∨ window ≤ 0) :
      Outcome b x b
  /-- A failure of a closed breaker, below the threshold. -/
  | counts {threshold : ℕ} {window : Time} {probe : ℕ}
      (hcall : x.call = .record false threshold window probe)
      (hstate : brkState b.breakerState = breakerClosed) (hpolicy : 0 < threshold ∧ 0 < window)
      (hfew : ((b.restartIfPast x.now window).breakerFails + 1) % 2 ^ 64 < threshold) :
      Outcome b x { b.restartIfPast x.now window with
        breakerFails := ((b.restartIfPast x.now window).breakerFails + 1) % 2 ^ 64 }
  /-- The failure that reaches the threshold. -/
  | trips {threshold : ℕ} {window : Time} {probe : ℕ}
      (hcall : x.call = .record false threshold window probe)
      (hstate : brkState b.breakerState = breakerClosed) (hpolicy : 0 < threshold ∧ 0 < window)
      (hmany : threshold ≤ ((b.restartIfPast x.now window).breakerFails + 1) % 2 ^ 64) :
      Outcome b x { b.restartIfPast x.now window with
        breakerFails := 0
        breakerOpenedAt := x.now
        breakerState := brkPack (brkGen b.breakerState) breakerOpen
        breakerOpens := (b.breakerOpens + 1) % 2 ^ 64 }

/-- A breaker that was reclaimed is due at once. -/
theorem reclaim_probeIfDue (b : Breaker) (now openFor : Time) :
    (b.reclaim now openFor).probeIfDue now openFor =
      ((b.reclaim now openFor).promote now, breakerHalfOpen,
        nextGen (b.reclaim now openFor).breakerState) := by
  have hdue : ¬ now - (b.reclaim now openFor).breakerOpenedAt < openFor := by
    show ¬ (now - (now - openFor) : ℤ) < openFor
    rw [Int.sub_sub_self]
    exact Int.lt_irrefl _
  exact if_neg hdue

/-- A turn of `shm_breaker_state`. -/
theorem state_outcome (b : Breaker) (now openFor : Time) :
    Outcome b ⟨now, .state openFor⟩ (b.turn ⟨now, .state openFor⟩) := by
  show Outcome b _ (shmBreakerState b now openFor).1
  by_cases hhalf : brkState b.breakerState = breakerHalfOpen
  · by_cases hdue : reclaimDue b.breakerEpoch openFor now b.breakerState b.breakerProbe = true
    · have hcall : shmBreakerState b now openFor = (b.reclaim now openFor).probeIfDue now openFor :=
        (if_pos hhalf).trans (if_pos hdue)
      rw [hcall, reclaim_probeIfDue]
      have hanswer : (shmBreakerState b now openFor).2.1 = breakerHalfOpen := by
        rw [hcall, reclaim_probeIfDue]
      unfold reclaimDue at hdue
      simp only [Bool.and_eq_true, decide_eq_true_eq] at hdue
      exact .reclaims rfl hanswer hdue.1.1.1 hhalf hdue.2
    · have hcall : shmBreakerState b now openFor = (b, breakerOpen, breakerNoProbe) :=
        (if_pos hhalf).trans (if_neg hdue)
      rw [hcall]
      refine .waits rfl ?_
      show ¬ (shmBreakerState b now openFor).2.1 = breakerHalfOpen
      rw [hcall]
      exact (by decide : ¬ breakerOpen = breakerHalfOpen)
  · by_cases hnone : brkState b.breakerState ≠ breakerOpen ∨ openFor ≤ 0
    · have hcall : shmBreakerState b now openFor = (b, brkState b.breakerState, breakerNoProbe) :=
        (if_neg hhalf).trans (if_pos hnone)
      rw [hcall]
      refine .waits rfl ?_
      show ¬ (shmBreakerState b now openFor).2.1 = breakerHalfOpen
      rw [hcall]
      exact hhalf
    · have hcall : shmBreakerState b now openFor = b.probeIfDue now openFor :=
        (if_neg hhalf).trans (if_neg hnone)
      obtain ⟨hopen, hpos⟩ := not_or.1 hnone
      by_cases hwait : now - b.breakerOpenedAt < openFor
      · have hwaits : b.probeIfDue now openFor = (b, breakerOpen, breakerNoProbe) := if_pos hwait
        rw [hcall, hwaits]
        refine .waits rfl ?_
        show ¬ (shmBreakerState b now openFor).2.1 = breakerHalfOpen
        rw [hcall, hwaits]
        exact (by decide : ¬ breakerOpen = breakerHalfOpen)
      · have hpromotes : b.probeIfDue now openFor =
            (b.promote now, breakerHalfOpen, nextGen b.breakerState) := if_neg hwait
        have hanswer : (shmBreakerState b now openFor).2.1 = breakerHalfOpen := by
          rw [hcall, hpromotes]
        rw [hcall, hpromotes]
        exact .promotes rfl hanswer (Int.not_le.1 hpos) (not_not.1 hopen) (Int.not_lt.1 hwait)

@[simp] theorem restartIfPast_state (b : Breaker) (now window : Time) :
    (b.restartIfPast now window).breakerState = b.breakerState := by
  unfold Breaker.restartIfPast
  split_ifs <;> rfl

@[simp] theorem restartIfPast_opens (b : Breaker) (now window : Time) :
    (b.restartIfPast now window).breakerOpens = b.breakerOpens := by
  unfold Breaker.restartIfPast
  split_ifs <;> rfl

/-- The word of a breaker that is CLOSED, put together again. -/
theorem closed_word {w : ℕ} (hw : w < 2 ^ 64) (h : brkState w = breakerClosed) :
    brkPack (brkGen w) breakerClosed = w := by
  refine word_eq (brkGen_setState hw _) ?_
  rw [brkState_pack, h]
  rfl

/-- A turn of `shm_breaker_record`. -/
theorem record_outcome {b : Breaker} (hw : b.breakerState < 2 ^ 64) (now : Time) (success : Bool)
    (threshold : ℕ) (window : Time) (probe : ℕ) :
    Outcome b ⟨now, .record success threshold window probe⟩
      (b.turn ⟨now, .record success threshold window probe⟩) := by
  show Outcome b _ (shmBreakerRecord b now success threshold window probe)
  cases success with
  | true =>
    by_cases hlease : OnLease probe b.breakerState
    · have hcall : shmBreakerRecord b now true threshold window probe =
          { b with breakerFails := 0, breakerState := brkPack probe breakerClosed } :=
        if_pos hlease
      rw [hcall]
      exact .closes rfl hlease
    · have hcall : shmBreakerRecord b now true threshold window probe =
          { b with breakerFails := 0 } := if_neg hlease
      rw [hcall]
      exact .clears rfl
  | false =>
    by_cases hlease : OnLease probe b.breakerState
    · have hcall : shmBreakerRecord b now false threshold window probe =
          { b with breakerOpenedAt := now, breakerState := brkPack probe breakerOpen } :=
        if_pos hlease
      rw [hcall]
      exact .reopens rfl hlease
    · by_cases hskip : brkState b.breakerState ≠ breakerClosed ∨ threshold = 0 ∨ window ≤ 0
      · have hcall : shmBreakerRecord b now false threshold window probe = b :=
          (if_neg hlease).trans (if_pos hskip)
        rw [hcall]
        exact .ignores rfl hskip
      · have hcall : shmBreakerRecord b now false threshold window probe =
            (b.restartIfPast now window).addFailure now threshold b.breakerState :=
          (if_neg hlease).trans (if_neg hskip)
        rw [not_or, not_or, not_not] at hskip
        obtain ⟨hstate, hthreshold, hwindow⟩ := hskip
        have hpolicy : 0 < threshold ∧ 0 < window :=
          ⟨Nat.pos_of_ne_zero hthreshold, Int.not_le.1 hwindow⟩
        rw [hcall]
        unfold Breaker.addFailure
        dsimp only
        by_cases hfew : ((b.restartIfPast now window).breakerFails + 1) % 2 ^ 64 < threshold
        · rw [if_pos hfew]
          exact .counts rfl hstate hpolicy hfew
        · rw [if_neg hfew]
          unfold Breaker.trip Breaker.casState
          dsimp only
          rw [closed_word hw hstate, restartIfPast_state, if_pos rfl, restartIfPast_opens]
          exact .trips rfl hstate hpolicy (Nat.not_lt.1 hfew)

/-- **What a turn does is one of the outcomes.** -/
theorem turn_outcome {b : Breaker} (hw : b.breakerState < 2 ^ 64) (x : Turn) :
    Outcome b x (b.turn x) := by
  obtain ⟨now, call⟩ := x
  cases call with
  | state openFor => exact state_outcome b now openFor
  | record success threshold window probe => exact record_outcome hw ..

/-- The state word stays a word. -/
theorem turn_word {b : Breaker} (hw : b.breakerState < 2 ^ 64) (x : Turn) :
    (b.turn x).breakerState < 2 ^ 64 := by
  have h := turn_outcome hw x
  revert h
  generalize b.turn x = b'
  intro h
  cases h with
  | waits | clears | ignores => exact hw
  | promotes | reclaims | closes | reopens | trips => exact brkPack_lt _ _
  | counts =>
    show (b.restartIfPast _ _).breakerState < 2 ^ 64
    rw [restartIfPast_state]
    exact hw

theorem word_after (epoch : Time) (xs : List Turn) :
    (breakerAfter epoch xs).breakerState < 2 ^ 64 :=
  Run.after_invariant (P := fun b : Breaker => b.breakerState < 2 ^ 64)
    (fun _ x hw => turn_word hw x) (Nat.two_pow_pos 64) xs

/-- One turn more. -/
theorem breakerAfter_concat (epoch : Time) (xs : List Turn) (x : Turn) :
    breakerAfter epoch (xs ++ [x]) = (breakerAfter epoch xs).turn x := by
  unfold breakerAfter
  rw [Run.after_append]
  rfl

theorem outcome_after (epoch : Time) (xs : List Turn) (x : Turn) :
    Outcome (breakerAfter epoch xs) x (breakerAfter epoch (xs ++ [x])) := by
  rw [breakerAfter_concat]
  exact turn_outcome (word_after epoch xs) x

end Shm
end CacheTurbo
