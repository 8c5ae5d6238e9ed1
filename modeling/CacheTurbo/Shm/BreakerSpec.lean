/-
# One probe for each lease

The words of the breaker as pairs of a generation and a state, what one step of
a caller can do to the state word (`Move`), and what that means for every
interleaving: a generation is handed out as a probe token once, generations
never go back, and only the holder of the token moves the breaker out of its
HALF_OPEN state.

A promotion is the one move that raises the generation.  A run with fewer than
`2^32 - 1` of them never reaches the point at which `nextGen` skips a value.
-/

import CacheTurbo.Shm.Breaker
import CacheTurbo.Lib.Run
import Mathlib.Tactic.Common
import Mathlib.Algebra.GroupWithZero.Nat

namespace CacheTurbo
namespace Shm

/-! ## The words -/

theorem brkGen_eq (w : ℕ) : brkGen w = w / 4 := Nat.shiftRight_eq_div_pow w 2

theorem brkPack_eq (gen st : ℕ) : brkPack gen st = gen * 4 % 2 ^ 64 + st % 4 := by
  have hmask : st &&& 3 = st % 4 := Nat.and_two_pow_sub_one_eq_mod st 2
  have hshift : gen <<< 2 % 2 ^ 64 = (gen % 2 ^ 62) <<< 2 := by
    rw [Nat.shiftLeft_eq, Nat.shiftLeft_eq]
    omega
  have hlt : st % 4 < 2 ^ 2 := Nat.mod_lt st (by omega)
  rw [brkPack, hmask, hshift, ← Nat.shiftLeft_add_eq_or_of_lt hlt, Nat.shiftLeft_eq]
  omega

theorem brkPack_lt (gen st : ℕ) : brkPack gen st < 2 ^ 64 := by
  rw [brkPack_eq]
  omega

theorem brkGen_pack (gen st : ℕ) : brkGen (brkPack gen st) = gen % 2 ^ 62 := by
  rw [brkGen_eq, brkPack_eq]
  omega

theorem brkGen_lt {w : ℕ} (h : w < 2 ^ 64) : brkGen w < 2 ^ 62 := by
  rw [brkGen_eq]
  omega

theorem brkState_pack (gen st : ℕ) : brkState (brkPack gen st) = st % 4 := by
  rw [brkState, brkPack_eq]
  omega

/-- Setting the state of a word keeps its generation. -/
theorem brkGen_setState {w : ℕ} (h : w < 2 ^ 64) (st : ℕ) :
    brkGen (brkPack (brkGen w) st) = brkGen w := by
  rw [brkGen_pack]
  exact Nat.mod_eq_of_lt (brkGen_lt h)

/-- A promotion never hands out `NO_PROBE`. -/
theorem nextGen_ne (word : ℕ) : nextGen word ≠ breakerNoProbe := by
  unfold nextGen
  dsimp only
  by_cases h : (brkGen word + 1) % 2 ^ 64 = breakerNoProbe ∨
      (brkGen word + 1) % 2 ^ 64 &&& breakerProbeGenMask = breakerNoProbe
  · rw [if_pos h]
    by_cases h' : ((brkGen word + 1) % 2 ^ 64 + 1) % 2 ^ 64 = breakerNoProbe
    · rw [if_pos h']
      exact Nat.one_ne_zero
    · rw [if_neg h']
      exact h'
  · rw [if_neg h]
    exact fun h0 => h (Or.inl h0)

/-- Below `2^32` generations, the next one is one more. -/
theorem nextGen_eq {word : ℕ} (h : brkGen word + 1 < 2 ^ 32) :
    nextGen word = brkGen word + 1 := by
  have hwrap : (brkGen word + 1) % 2 ^ 64 = brkGen word + 1 := Nat.mod_eq_of_lt (by omega)
  have hmask : brkGen word + 1 &&& breakerProbeGenMask = brkGen word + 1 := by
    rw [breakerProbeGenMask, Nat.and_two_pow_sub_one_eq_mod]
    exact Nat.mod_eq_of_lt h
  have hne : brkGen word + 1 ≠ breakerNoProbe := Nat.succ_ne_zero _
  unfold nextGen
  dsimp only
  rw [hwrap, hmask, if_neg (not_or.2 ⟨hne, hne⟩)]

/-! ## What a step can do -/

/-- The token a call carries: the one `breaker_record` was given. -/
def BrkCall.token : BrkCall → Option ℕ
  | .state _ => none
  | .record _ _ _ probe => some probe

/-- The caller was on the lease of the word it loaded. -/
def OnLease (probe word : ℕ) : Prop :=
  brkState word = breakerHalfOpen ∧ probe ≠ breakerNoProbe ∧ probe = brkGen word

/-- A program point of a call with token `token`, whose local variables passed
the tests that lead there. -/
def Frame.Ok (token : Option ℕ) : Frame → Prop
  | .stateWord _ | .stateProbe .. | .stateTime .. | .stateReclaimed .. => token = none
  | .stateReclaim _ _ word _ => token = none ∧ brkState word = breakerHalfOpen
  | .stateOpenedAt _ _ word _ | .statePublish _ word _ | .statePromote word =>
      token = none ∧ brkState word = breakerOpen
  | .stateReturned state probe =>
      token = none ∧ (state = breakerHalfOpen ↔ probe ≠ breakerNoProbe)
  | .recordTime _ _ _ probe | .recordWord _ _ _ probe _ | .recordReset probe _ =>
      token = some probe
  | .recordClose probe word | .recordFailed probe _ word | .recordReopen probe word =>
      token = some probe ∧ OnLease probe word
  | _ => token.isSome

theorem BrkCall.entry_ok (c : BrkCall) : c.entry.Ok c.token := by
  cases c with
  | state openFor => exact rfl
  | record success threshold window probe => exact rfl

/-- The moves of the state word, each with the program point that makes it. -/
inductive Move : Frame → ℕ → ℕ → Prop
  /-- A dead probe's lease is taken back. -/
  | reclaim {openFor now : Time} {word probeWord : ℕ} (h : brkState word = breakerHalfOpen) :
      Move (.stateReclaim openFor now word probeWord) word (brkPack (brkGen word) breakerOpen)
  /-- A new lease, under a new generation. -/
  | promote {word : ℕ} (h : brkState word = breakerOpen) :
      Move (.statePromote word) word (brkPack (nextGen word) breakerHalfOpen)
  /-- The probe succeeded. -/
  | close {probe word : ℕ} (h : OnLease probe word) :
      Move (.recordClose probe word) word (brkPack probe breakerClosed)
  /-- The probe failed. -/
  | reopen {probe word : ℕ} (h : OnLease probe word) :
      Move (.recordReopen probe word) word (brkPack probe breakerOpen)
  /-- The failures of a closed breaker reached the threshold. -/
  | trip {word : ℕ} :
      Move (.recordTrip word) (brkPack (brkGen word) breakerClosed)
        (brkPack (brkGen word) breakerOpen)

theorem stateTimed_ok {openFor now : Time} {word state probeWord : ℕ}
    (hstate : state ≠ breakerHalfOpen) (hword : state = breakerOpen → brkState word = breakerOpen) :
    (stateTimed openFor now word state probeWord).Ok none := by
  unfold stateTimed
  by_cases h : state ≠ breakerOpen ∨ openFor ≤ 0
  · rw [if_pos h]
    exact ⟨rfl, fun he => absurd he hstate, fun hne => absurd rfl hne⟩
  · rw [if_neg h]
    exact ⟨rfl, hword (not_not.1 fun hne => h (Or.inl hne))⟩

theorem casState_cases (b : Breaker) (old set : ℕ) :
    (b.breakerState = old ∧ b.casState old set = ({ b with breakerState := set }, true)) ∨
      (b.breakerState ≠ old ∧ b.casState old set = (b, false)) := by
  unfold Breaker.casState
  by_cases h : b.breakerState = old
  · exact Or.inl ⟨h, if_pos h⟩
  · exact Or.inr ⟨h, if_neg h⟩

theorem returnedOpen_ok : (Frame.stateReturned breakerOpen breakerNoProbe).Ok none :=
  ⟨rfl, fun he => absurd he (by decide), fun hne => absurd rfl hne⟩

/-- What one step makes of a frame, of the state word and of the token it hands
out.  `breaker_state` returns a token in the step of its promotion only. -/
structure StepSpec (token : Option ℕ) (f : Frame) (w w' : ℕ) (f' : Frame) : Prop where
  ok : f'.Ok token
  word : w' = w ∨ Move f w w'
  returned : ∀ st p, f' = .stateReturned st p → p ≠ breakerNoProbe → f = f' ∨
    ∃ word, f = .statePromote word ∧ w = word ∧ p = nextGen word ∧
      w' = brkPack (nextGen word) breakerHalfOpen

/-- A step that leaves the word and returns no token. -/
theorem StepSpec.quiet {token : Option ℕ} {f f' : Frame} {w : ℕ} (hok : f'.Ok token)
    (hret : ∀ st p, f' ≠ .stateReturned st p) : StepSpec token f w w f' :=
  ⟨hok, Or.inl rfl, fun st p he => absurd he (hret st p)⟩

/-- A step that leaves the word and reports an open breaker. -/
theorem StepSpec.open {f : Frame} {w : ℕ} :
    StepSpec none f w w (.stateReturned breakerOpen breakerNoProbe) := by
  refine ⟨returnedOpen_ok, Or.inl rfl, fun st p he hp => ?_⟩
  cases he
  exact absurd rfl hp

theorem StepSpec.timed {f : Frame} {openFor now : Time} {w word state probeWord : ℕ}
    (hstate : state ≠ breakerHalfOpen) (hword : state = breakerOpen → brkState word = breakerOpen) :
    StepSpec none f w w (stateTimed openFor now word state probeWord) := by
  refine ⟨stateTimed_ok hstate hword, Or.inl rfl, fun st p he hp => ?_⟩
  unfold stateTimed at he
  by_cases h : state ≠ breakerOpen ∨ openFor ≤ 0
  · rw [if_pos h] at he
    cases he
    exact absurd rfl hp
  · rw [if_neg h] at he
    cases he

/-- **One step of `shm_breaker_state`.** -/
theorem breakerStateStep_spec (clock : Time) (b : Breaker) {token : Option ℕ} {f : Frame}
    (hf : f.Ok token) (hkind : f.ofRecord = false) :
    StepSpec token f b.breakerState (breakerStateStep clock b f).1.breakerState
      (breakerStateStep clock b f).2 := by
  cases f with
  | stateWord openFor => exact .quiet hf (fun _ _ => Frame.noConfusion)
  | stateProbe openFor word => exact .quiet hf (fun _ _ => Frame.noConfusion)
  | stateTime openFor word probeWord =>
    obtain rfl : token = none := hf
    unfold breakerStateStep
    dsimp only
    by_cases hhalf : brkState word = breakerHalfOpen
    · rw [if_pos hhalf]
      by_cases hdue : reclaimDue b.breakerEpoch openFor clock word probeWord = true
      · rw [if_pos hdue]
        exact .quiet ⟨rfl, hhalf⟩ (fun _ _ => Frame.noConfusion)
      · rw [if_neg hdue]
        exact .open
    · rw [if_neg hhalf]
      exact .timed hhalf id
  | stateReclaim openFor now word probeWord =>
    obtain ⟨rfl, hhalf⟩ := hf
    unfold breakerStateStep
    obtain ⟨hw, hcas⟩ | ⟨-, hcas⟩ := casState_cases b word (brkPack (brkGen word) breakerOpen)
    · dsimp only
      rw [hcas, hw]
      exact ⟨rfl, Or.inr (.reclaim hhalf), fun _ _ he => Frame.noConfusion he⟩
    · dsimp only
      rw [hcas]
      exact .open
  | stateReclaimed openFor now word probeWord =>
    obtain rfl : token = none := hf
    exact .timed (by decide) fun _ => brkState_pack _ _
  | stateOpenedAt openFor now word probeWord =>
    obtain ⟨rfl, hopen⟩ := hf
    unfold breakerStateStep
    dsimp only
    by_cases hwait : now - b.breakerOpenedAt < openFor
    · rw [if_pos hwait]
      exact .open
    · rw [if_neg hwait]
      exact .quiet ⟨rfl, hopen⟩ (fun _ _ => Frame.noConfusion)
  | statePublish now word probeWord =>
    obtain ⟨rfl, hopen⟩ := hf
    unfold breakerStateStep Breaker.casProbe
    dsimp only
    by_cases hprobe : b.breakerProbe = probeWord
    · rw [if_pos hprobe]
      exact .quiet ⟨rfl, hopen⟩ (fun _ _ => Frame.noConfusion)
    · rw [if_neg hprobe]
      exact .open
  | statePromote word =>
    obtain ⟨rfl, hopen⟩ := hf
    unfold breakerStateStep
    obtain ⟨hw, hcas⟩ | ⟨-, hcas⟩ := casState_cases b word (brkPack (nextGen word) breakerHalfOpen)
    · dsimp only
      rw [hcas, hw]
      refine ⟨⟨rfl, fun _ => nextGen_ne word, fun _ => rfl⟩, Or.inr (.promote hopen), ?_⟩
      intro st p he _
      cases he
      exact Or.inr ⟨word, rfl, rfl, rfl, rfl⟩
    · dsimp only
      rw [hcas]
      exact .open
  | stateReturned state probe => exact ⟨hf, Or.inl rfl, fun _ _ _ _ => Or.inl rfl⟩
  | _ => cases hkind

/-- A step of `shm_breaker_record` that leaves the word. -/
theorem StepSpec.kept {token : Option ℕ} {f f' : Frame} {w w' : ℕ} (hok : f'.Ok token)
    (hret : f'.ofRecord = true) (hw : w' = w ∨ Move f w w') : StepSpec token f w w' f' := by
  refine ⟨hok, hw, fun st p he => ?_⟩
  subst he
  cases hret

/-- **One step of `shm_breaker_record`.** -/
theorem breakerRecordStep_spec (clock : Time) (b : Breaker) {token : Option ℕ} {f : Frame}
    (hf : f.Ok token) (hkind : f.ofRecord = true) :
    StepSpec token f b.breakerState (breakerRecordStep clock b f).1.breakerState
      (breakerRecordStep clock b f).2 := by
  cases f with
  | recordTime success threshold window probe => exact .kept hf rfl (Or.inl rfl)
  | recordWord success threshold window probe now =>
    obtain rfl : token = some probe := hf
    unfold breakerRecordStep
    dsimp only
    by_cases hsuccess : success = true
    · rw [if_pos hsuccess]
      exact .kept rfl rfl (Or.inl rfl)
    · rw [if_neg hsuccess]
      by_cases hlease : brkState b.breakerState = breakerHalfOpen ∧ probe ≠ breakerNoProbe ∧
          probe = brkGen b.breakerState
      · rw [if_pos hlease]
        exact .kept ⟨rfl, hlease⟩ rfl (Or.inl rfl)
      · rw [if_neg hlease]
        by_cases hskip : brkState b.breakerState ≠ breakerClosed ∨ threshold = 0 ∨ window ≤ 0
        · rw [if_pos hskip]
          exact .kept rfl rfl (Or.inl rfl)
        · rw [if_neg hskip]
          exact .kept rfl rfl (Or.inl rfl)
  | recordReset probe word =>
    obtain rfl : token = some probe := hf
    unfold breakerRecordStep
    dsimp only
    by_cases hlease : brkState word = breakerHalfOpen ∧ probe ≠ breakerNoProbe ∧
        probe = brkGen word
    · rw [if_pos hlease]
      exact .kept ⟨rfl, hlease⟩ rfl (Or.inl rfl)
    · rw [if_neg hlease]
      exact .kept rfl rfl (Or.inl rfl)
  | recordClose probe word =>
    obtain ⟨rfl, hlease⟩ := hf
    unfold breakerRecordStep
    dsimp only
    refine .kept rfl rfl ?_
    obtain ⟨hw, hcas⟩ | ⟨-, hcas⟩ := casState_cases b word (brkPack probe breakerClosed)
    · rw [hcas, hw]
      exact Or.inr (.close hlease)
    · rw [hcas]
      exact Or.inl rfl
  | recordFailed probe now word => exact .kept hf rfl (Or.inl rfl)
  | recordReopen probe word =>
    obtain ⟨rfl, hlease⟩ := hf
    unfold breakerRecordStep
    dsimp only
    refine .kept rfl rfl ?_
    obtain ⟨hw, hcas⟩ | ⟨-, hcas⟩ := casState_cases b word (brkPack probe breakerOpen)
    · rw [hcas, hw]
      exact Or.inr (.reopen hlease)
    · rw [hcas]
      exact Or.inl rfl
  | recordWindow threshold window now word =>
    unfold breakerRecordStep
    dsimp only
    by_cases hpast : now - b.breakerWindowStart ≥ window
    · rw [if_pos hpast]
      exact .kept hf rfl (Or.inl rfl)
    · rw [if_neg hpast]
      exact .kept hf rfl (Or.inl rfl)
  | recordRestart threshold now word windowStart =>
    unfold breakerRecordStep
    dsimp only
    by_cases hsame : b.breakerWindowStart = windowStart
    · rw [if_pos hsame]
      exact .kept hf rfl (Or.inl rfl)
    · rw [if_neg hsame]
      exact .kept hf rfl (Or.inl rfl)
  | recordRestarted threshold now word => exact .kept hf rfl (Or.inl rfl)
  | recordAdd threshold now word =>
    unfold breakerRecordStep
    dsimp only
    by_cases hfew : (b.breakerFails + 1) % 2 ^ 64 < threshold
    · rw [if_pos hfew]
      exact .kept hf rfl (Or.inl rfl)
    · rw [if_neg hfew]
      exact .kept hf rfl (Or.inl rfl)
  | recordTripAt now word => exact .kept hf rfl (Or.inl rfl)
  | recordTrip word =>
    unfold breakerRecordStep
    obtain ⟨hw, hcas⟩ | ⟨-, hcas⟩ :=
      casState_cases b (brkPack (brkGen word) breakerClosed) (brkPack (brkGen word) breakerOpen)
    · dsimp only
      rw [hcas, hw]
      exact .kept hf rfl (Or.inr .trip)
    · dsimp only
      rw [hcas]
      exact .kept hf rfl (Or.inl rfl)
  | recordTripped => exact .kept hf rfl (Or.inl rfl)
  | recordOpens => exact .kept hf rfl (Or.inl rfl)
  | recordReturned => exact .kept hf rfl (Or.inl rfl)
  | _ => cases hkind

/-- **One step of a call.** -/
theorem breakerStep_spec (clock : Time) (b : Breaker) {token : Option ℕ} {f : Frame}
    (hf : f.Ok token) :
    StepSpec token f b.breakerState (breakerStep clock b f).1.breakerState
      (breakerStep clock b f).2 := by
  unfold breakerStep
  by_cases hkind : f.ofRecord = true
  · rw [if_pos hkind]
    exact breakerRecordStep_spec clock b hf hkind
  · rw [if_neg hkind]
    exact breakerStateStep_spec clock b hf (Bool.not_eq_true _ ▸ hkind)

/-- The generation after a move.  It rises by one in a promotion and is kept by the
other moves. -/
theorem Move.gen {f : Frame} {w w' : ℕ} (h : Move f w w') (hw : w < 2 ^ 64)
    (hroom : brkState w = breakerOpen → brkState w' = breakerHalfOpen → brkGen w + 1 < 2 ^ 32) :
    brkGen w' = brkGen w + if brkState w = breakerOpen ∧ brkState w' = breakerHalfOpen
      then 1 else 0 := by
  have hkeep : ∀ {v st : ℕ}, v < 2 ^ 64 → st % 4 ≠ breakerHalfOpen →
      brkGen (brkPack (brkGen v) st) = brkGen v + if brkState v = breakerOpen ∧
        brkState (brkPack (brkGen v) st) = breakerHalfOpen then 1 else 0 := by
    intro v st hv hst
    rw [if_neg (fun hc => hst (brkState_pack (brkGen v) st ▸ hc.2)), Nat.add_zero]
    exact brkGen_setState hv st
  cases h with
  | reclaim => exact hkeep hw (by decide)
  | promote hopen =>
    have hhalf : brkState (brkPack (nextGen w) breakerHalfOpen) = breakerHalfOpen :=
      brkState_pack _ _
    have hlt := hroom hopen hhalf
    rw [if_pos ⟨hopen, hhalf⟩, brkGen_pack, nextGen_eq hlt]
    exact Nat.mod_eq_of_lt (by omega)
  | close hlease =>
    rw [hlease.2.2]
    exact hkeep hw (by decide)
  | reopen hlease =>
    rw [hlease.2.2]
    exact hkeep hw (by decide)
  | @trip word =>
    rw [brkGen_pack, brkGen_pack, brkState_pack, if_neg (fun hc => absurd hc.1 (by decide))]
    rfl

theorem Move.lt {f : Frame} {w w' : ℕ} (h : Move f w w') : w' < 2 ^ 64 := by
  cases h <;> exact brkPack_lt _ _

/-- The moves of a call of `breaker_record` with the token `probe`. -/
theorem Move.record {f : Frame} {w w' probe : ℕ} (h : Move f w w') (hok : f.Ok (some probe)) :
    OnLease probe w ∧ brkState w' ≠ breakerHalfOpen ∨
      brkState w = breakerClosed ∧ brkState w' = breakerOpen := by
  cases h with
  | reclaim => cases hok.1
  | promote => cases hok.1
  | close hlease =>
    obtain ⟨hp, -⟩ := hok
    cases hp
    exact Or.inl ⟨hlease, by rw [brkState_pack]; decide⟩
  | reopen hlease =>
    obtain ⟨hp, -⟩ := hok
    cases hp
    exact Or.inl ⟨hlease, by rw [brkState_pack]; decide⟩
  | trip => exact Or.inr ⟨brkState_pack _ _, brkState_pack _ _⟩

/-! ## Every interleaving -/

namespace Callers

/-- One step of the callers: who runs, and what `ngx_time()` says. -/
def step (s : Callers) (e : ℕ × Time) : Callers := Threads.step breakerStep s e

/-- The step moves the breaker from OPEN to HALF_OPEN. -/
def Promotes (s : Callers) (e : ℕ × Time) : Prop :=
  brkState s.shared.breakerState = breakerOpen ∧
    brkState (s.step e).shared.breakerState = breakerHalfOpen

instance (s : Callers) (e : ℕ × Time) : Decidable (s.Promotes e) :=
  inferInstanceAs (Decidable (_ ∧ _))

/-- The number of promotions in a run of the callers `calls` on a fresh breaker. -/
def promotions (epoch : Time) (calls : ℕ → BrkCall) (run : List (ℕ × Time)) : ℕ :=
  Run.count step Promotes (start epoch calls) run

/-- What holds of each step.  The generation does not go back; a token is handed
out by a promotion, and is the generation of that promotion; a call of
`breaker_record` moves the breaker out of HALF_OPEN only with the generation's own
token, and its only other move is the trip of a closed breaker. -/
structure StepOk (calls : ℕ → BrkCall) (s : Callers) (e : ℕ × Time) : Prop where
  gen_mono : brkGen s.shared.breakerState ≤ brkGen (s.step e).shared.breakerState
  handed : ∀ st g, (s.step e).frame e.1 = .stateReturned st g → g ≠ breakerNoProbe →
    s.frame e.1 ≠ .stateReturned st g →
      s.Promotes e ∧ brkGen s.shared.breakerState < g ∧
        brkGen (s.step e).shared.breakerState = g
  record : ∀ success threshold window probe,
    calls e.1 = .record success threshold window probe →
      (s.step e).shared.breakerState ≠ s.shared.breakerState →
        brkGen (s.step e).shared.breakerState = brkGen s.shared.breakerState ∧
          (OnLease probe s.shared.breakerState ∧
              brkState (s.step e).shared.breakerState ≠ breakerHalfOpen ∨
            brkState s.shared.breakerState = breakerClosed ∧
              brkState (s.step e).shared.breakerState = breakerOpen)

/-- What holds of the calls that have returned: HALF_OPEN comes with a token, every
other answer without one, and a token is in one caller's hands only. -/
structure OneProbe (s : Callers) : Prop where
  token_iff : ∀ i st g, s.frame i = .stateReturned st g →
    (st = breakerHalfOpen ↔ g ≠ breakerNoProbe)
  unique : ∀ i j st g, s.frame i = .stateReturned breakerHalfOpen g →
    s.frame j = .stateReturned st g → i = j

/-- The invariant after `n` promotions. -/
def Inv (calls : ℕ → BrkCall) (n : ℕ) (s : Callers) : Prop :=
  Threads.Holds (fun b => b.breakerState < 2 ^ 64 ∧ brkGen b.breakerState ≤ n)
    (fun i b f => f.Ok (calls i).token ∧
      ∀ st g, f = .stateReturned st g → g ≤ brkGen b.breakerState)
    (fun f f' => ∀ st st' g, f = .stateReturned st g → f' = .stateReturned st' g →
      g = breakerNoProbe) s

theorem Inv.start (epoch : Time) (calls : ℕ → BrkCall) : Inv calls 0 (start epoch calls) := by
  have hret : ∀ (c : BrkCall) st g, c.entry ≠ .stateReturned st g := by
    rintro (openFor | ⟨success, threshold, window, probe⟩) st g he <;> cases he
  have hzero : (0 : ℕ) < 2 ^ 64 ∧ brkGen 0 ≤ 0 := by decide
  refine ⟨hzero, fun i => ⟨(calls i).entry_ok, fun st g he => ?_⟩, ?_⟩
  · exact absurd he (hret _ st g)
  · intro i j _ st st' g he
    exact absurd he (hret _ st g)

theorem Inv.oneProbe {calls : ℕ → BrkCall} {n : ℕ} {s : Callers} (h : Inv calls n s) :
    s.OneProbe := by
  have hiff : ∀ i st g, s.frame i = .stateReturned st g →
      (st = breakerHalfOpen ↔ g ≠ breakerNoProbe) := by
    intro i st g he
    have hok := (h.own i).1
    rw [he] at hok
    exact hok.2
  refine ⟨hiff, fun i j st g hi hj => ?_⟩
  by_contra hij
  exact (hiff i _ g hi).1 rfl (h.apart i j hij _ _ g hi hj)

/-- The specification of the step that a caller takes. -/
theorem Inv.spec {calls : ℕ → BrkCall} {n : ℕ} {s : Callers} (h : Inv calls n s) (e : ℕ × Time) :
    StepSpec (calls e.1).token (s.frame e.1) s.shared.breakerState
      (s.step e).shared.breakerState ((s.step e).frame e.1) := by
  have hspec := breakerStep_spec e.2 s.shared (h.own e.1).1
  rw [step, Threads.step_frame_self]
  exact hspec

/-- The state word stays a word, and the generation counts the promotions. -/
theorem Inv.word {calls : ℕ → BrkCall} {n : ℕ} {s : Callers} (h : Inv calls n s) {e : ℕ × Time}
    (hn : n + (if s.Promotes e then 1 else 0) ≤ 2 ^ 32 - 2) :
    (s.step e).shared.breakerState < 2 ^ 64 ∧
      brkGen (s.step e).shared.breakerState =
        brkGen s.shared.breakerState + if s.Promotes e then 1 else 0 := by
  have hlt := h.inv.1
  have hle := h.inv.2
  obtain hsame | hmove := (h.spec e).word
  · have hnot : ¬ s.Promotes e := fun hp => by
      have h1 := hp.1
      have h2 := hp.2
      rw [hsame, h1] at h2
      exact absurd h2 (by decide)
    rw [hsame, if_neg hnot]
    exact ⟨hlt, rfl⟩
  · refine ⟨?_, hmove.gen hlt fun h1 h2 => ?_⟩
    · exact hmove.lt
    · rw [if_pos ⟨h1, h2⟩] at hn
      omega

/-- **A step keeps the invariant, and does what it may.** -/
theorem Inv.step {calls : ℕ → BrkCall} {n : ℕ} {s : Callers} (h : Inv calls n s) (e : ℕ × Time)
    (hn : n + (if s.Promotes e then 1 else 0) ≤ 2 ^ 32 - 2) :
    s.StepOk calls e ∧ Inv calls (n + if s.Promotes e then 1 else 0) (s.step e) := by
  obtain ⟨hlt, hgen⟩ := h.word hn
  have hspec := h.spec e
  have hle := h.inv.2
  -- a token that this step hands out is the generation of its promotion
  have hnew : ∀ st g, (s.step e).frame e.1 = .stateReturned st g → g ≠ breakerNoProbe →
      s.frame e.1 ≠ .stateReturned st g → s.Promotes e ∧ brkGen s.shared.breakerState < g ∧
        brkGen (s.step e).shared.breakerState = g := by
    intro st g hret hg hfresh
    obtain hsame | ⟨word, hframe, hw, rfl, hw'⟩ := hspec.returned st g hret hg
    · exact absurd (hsame.trans hret) hfresh
    · have hok := (h.own e.1).1
      rw [hframe] at hok
      have hp : s.Promotes e := by
        refine ⟨hw ▸ hok.2, ?_⟩
        rw [hw']
        exact brkState_pack _ _
      rw [if_pos hp] at hgen hn
      have hnext : nextGen word = brkGen s.shared.breakerState + 1 := by
        rw [hw]
        exact nextGen_eq (by rw [← hw]; omega)
      exact ⟨hp, by omega, by omega⟩
  -- and so no token in anyone's hands is above the generation
  have hmono : brkGen s.shared.breakerState ≤ brkGen (s.step e).shared.breakerState := by
    rw [hgen]
    exact Nat.le_add_right _ _
  have hown : ∀ st g, (s.step e).frame e.1 = .stateReturned st g →
      g ≤ brkGen (s.step e).shared.breakerState := by
    intro st g hret
    by_cases hg : g = breakerNoProbe
    · rw [hg]
      exact Nat.zero_le _
    · by_cases hfresh : s.frame e.1 = .stateReturned st g
      · exact ((h.own e.1).2 st g hfresh).trans hmono
      · exact (hnew st g hret hg hfresh).2.2.ge
  refine ⟨⟨hmono, hnew, ?_⟩, ?_⟩
  · intro success threshold window probe hcall hmoved
    obtain hsame | hmove := hspec.word
    · exact absurd hsame hmoved
    have hok := (h.own e.1).1
    rw [hcall] at hok
    have hmoves := hmove.record hok
    have hnot : ¬ s.Promotes e := by
      rintro ⟨hopen, hhalf⟩
      obtain ⟨hlease, -⟩ | ⟨hclosed, -⟩ := hmoves
      · exact absurd (hopen.symm.trans hlease.1) (by decide)
      · exact absurd (hopen.symm.trans hclosed) (by decide)
    rw [if_neg hnot, Nat.add_zero] at hgen
    exact ⟨hgen, hmoves⟩
  · have hself : (s.step e).frame e.1 = (breakerStep e.2 s.shared (s.frame e.1)).2 :=
      Threads.step_frame_self ..
    rw [hself] at hown hspec hnew
    refine Threads.Holds.step h ⟨hlt, hgen ▸ Nat.add_le_add_right hle _⟩ ⟨hspec.ok, hown⟩
      (fun i f hf => ⟨hf.1, fun st g he => (hf.2 st g he).trans hmono⟩) ?_
    intro i f hf hleft hright
    have hkey : ∀ st st' g, (breakerStep e.2 s.shared (s.frame e.1)).2 = .stateReturned st g →
        f = .stateReturned st' g → g = breakerNoProbe := by
      intro st st' g hret hother
      by_contra hg
      by_cases hfresh : s.frame e.1 = .stateReturned st g
      · exact hg (hleft st st' g hfresh hother)
      · have hup := (hnew st g hret hg hfresh).2.1
        have hlow := hf.2 st' g hother
        omega
    exact ⟨hkey, fun st st' g hother hret => hkey st' st g hret hother⟩

/-- **One probe for each lease.**  In every interleaving of any number of calls, with
fewer than `2^32 - 1` promotions: each step is as `StepOk` says, and whenever the run
stops, HALF_OPEN was returned to one caller for each generation, the only one with that
token. -/
theorem one_probe (epoch : Time) (calls : ℕ → BrkCall) (run : List (ℕ × Time))
    (h : promotions epoch calls run < 2 ^ 32 - 1) :
    Run.Along step (StepOk calls) (start epoch calls) run ∧
      OneProbe (Run.after step (start epoch calls) run) := by
  have hN : 0 + Run.count step Promotes (start epoch calls) run ≤ 2 ^ 32 - 2 := by
    rw [promotions] at h
    omega
  have hrun := @Run.along_of_counted _ _ step (Inv calls) Promotes (StepOk calls) _ _
    (fun _ _ e hs hn => hs.step e hn) _ _ (Inv.start epoch calls) run hN
  exact ⟨hrun.1, hrun.2.oneProbe⟩

/-- A failure trips the breaker, the second caller takes the probe, and the third
reports it back with the token. -/
def probeCalls (i : ℕ) : BrkCall :=
  if i = 0 then .record false 1 1 breakerNoProbe
  else if i = 1 then .state 1
  else .record true 1 1 1

/-- A run of `probeCalls`: the trip at time 10, the promotion at time 20 while the third
caller is already waiting, then its report. -/
def probeRun : List (ℕ × Time) :=
  List.replicate 10 (0, 10) ++ [(2, 20)] ++ List.replicate 6 (1, 20) ++ List.replicate 3 (2, 21)

theorem one_probe_probeRun :
    (promotions 0 probeCalls probeRun = 1 ∧
      (Run.after step (start 0 probeCalls) probeRun).frame 1 = .stateReturned breakerHalfOpen 1 ∧
      (Run.after step (start 0 probeCalls) probeRun).shared.breakerState =
        brkPack 1 breakerClosed) ∧
    Run.Along step (StepOk probeCalls) (start 0 probeCalls) probeRun ∧
      OneProbe (Run.after step (start 0 probeCalls) probeRun) :=
  ⟨by decide, one_probe 0 probeCalls probeRun (by decide)⟩

end Callers

end Shm
end CacheTurbo
