/-
# The lease of a probe that never reports

A breaker in HALF_OPEN waits for one probe.  When that probe never reports, a later
call of `breaker_state` takes the lease back, but only if `breaker_probe` carries the
generation of the state word.  The two words are published one after the other and
loaded one after the other, and the generations agree as long as no promoter is
overtaken between its two loads: one that decided on an old state word, but loaded the
probe word of a newer lease, swaps that newer lease's word for its own generation.

`Overtakes` is that step.  Without it the generations agree in every interleaving
(`never_wedges`), and a call that runs alone on an expired lease is promoted; with it
they part, at once or with the promotion that is under way.
-/

import CacheTurbo.Shm.BreakerSpec

namespace CacheTurbo
namespace Shm

/-! ## The probe word -/

theorem brkProbeGen_pack {gen : ℕ} (h : gen < 2 ^ 32) (stamp : ℕ) :
    brkProbeGen (brkProbePack gen stamp) = gen := by
  have hgen : gen &&& breakerProbeGenMask = gen := by
    rw [breakerProbeGenMask, Nat.and_two_pow_sub_one_eq_mod]
    exact Nat.mod_eq_of_lt h
  have hstamp : stamp &&& breakerProbeStampMask = stamp % 2 ^ 32 :=
    Nat.and_two_pow_sub_one_eq_mod stamp 32
  have hshift : gen <<< 32 % 2 ^ 64 = gen <<< 32 := by
    rw [Nat.shiftLeft_eq]
    exact Nat.mod_eq_of_lt (by omega)
  have hlt : stamp % 2 ^ 32 < 2 ^ 32 := Nat.mod_lt _ (by omega)
  have hword : brkProbePack gen stamp = gen * 2 ^ 32 + stamp % 2 ^ 32 := by
    rw [brkProbePack, hgen, hstamp, hshift, ← Nat.shiftLeft_add_eq_or_of_lt hlt,
      Nat.shiftLeft_eq]
  rw [brkProbeGen, hword, Nat.shiftRight_eq_div_pow, breakerProbeGenMask,
    Nat.and_two_pow_sub_one_eq_mod]
  omega

/-- A word is its generation and its state. -/
theorem word_eq {w w' : ℕ} (hgen : brkGen w = brkGen w') (hstate : brkState w = brkState w') :
    w = w' := by
  rw [brkGen_eq, brkGen_eq] at hgen
  unfold brkState at hstate
  omega

/-- The breaker with another probe word. -/
def Breaker.publish (b : Breaker) (probeWord : ℕ) : Breaker := { b with breakerProbe := probeWord }

/-- The probe word changes in a publication only, which changes nothing else. -/
theorem breakerStep_probe (clock : Time) (b : Breaker) (f : Frame) :
    (breakerStep clock b f).1.breakerProbe = b.breakerProbe ∨
      ∃ now word, f = .statePublish now word b.breakerProbe ∧
        breakerStep clock b f =
          (b.publish (brkProbePack (nextGen word) (uintOfTime (now - b.breakerEpoch))),
            .statePromote word) := by
  unfold breakerStep
  by_cases hkind : f.ofRecord = true
  · rw [if_pos hkind]
    refine Or.inl ?_
    cases f with
    | recordWord success threshold window probe now =>
      unfold breakerRecordStep
      dsimp only
      split_ifs <;> rfl
    | recordReset probe word =>
      unfold breakerRecordStep
      dsimp only
      split_ifs <;> rfl
    | recordClose probe word =>
      unfold breakerRecordStep Breaker.casState
      dsimp only
      split_ifs <;> rfl
    | recordReopen probe word =>
      unfold breakerRecordStep Breaker.casState
      dsimp only
      split_ifs <;> rfl
    | recordWindow threshold window now word =>
      unfold breakerRecordStep
      dsimp only
      split_ifs <;> rfl
    | recordRestart threshold now word windowStart =>
      unfold breakerRecordStep
      dsimp only
      split_ifs <;> rfl
    | recordAdd threshold now word =>
      unfold breakerRecordStep
      dsimp only
      split_ifs <;> rfl
    | recordTrip word =>
      unfold breakerRecordStep Breaker.casState
      dsimp only
      split_ifs <;> rfl
    | recordTime | recordFailed | recordRestarted | recordTripAt | recordTripped | recordOpens
    | recordReturned => rfl
    | _ => cases hkind
  · rw [if_neg hkind]
    cases f with
    | statePublish now word probeWord =>
      unfold breakerStateStep Breaker.casProbe
      dsimp only
      by_cases hprobe : b.breakerProbe = probeWord
      · rw [if_pos hprobe]
        subst hprobe
        exact Or.inr ⟨now, word, rfl, rfl⟩
      · rw [if_neg hprobe]
        exact Or.inl rfl
    | stateTime openFor word probeWord =>
      refine Or.inl ?_
      unfold breakerStateStep
      dsimp only
      split_ifs <;> rfl
    | stateReclaim openFor now word probeWord =>
      refine Or.inl ?_
      unfold breakerStateStep Breaker.casState
      dsimp only
      split_ifs <;> rfl
    | stateOpenedAt openFor now word probeWord =>
      refine Or.inl ?_
      unfold breakerStateStep
      dsimp only
      split_ifs <;> rfl
    | statePromote word =>
      refine Or.inl ?_
      unfold breakerStateStep Breaker.casState
      dsimp only
      split_ifs <;> rfl
    | _ => exact Or.inl rfl

/-- The age of a stamp is the time since it, for 136 years. -/
theorem brkProbeAge_eq {epoch stamped now : ℤ} {gen : ℕ} (hgen : gen < 2 ^ 32)
    (hepoch : epoch ≤ stamped) (hnow : stamped ≤ now) (hspan : now - epoch < 2 ^ 32) :
    brkProbeAge epoch (brkProbePack gen (uintOfTime (stamped - epoch))) now = now - stamped := by
  obtain ⟨k, hk⟩ : ∃ k : ℕ, stamped - epoch = k := ⟨(stamped - epoch).toNat, by omega⟩
  obtain ⟨m, hm⟩ : ∃ m : ℕ, now - epoch = m := ⟨(now - epoch).toNat, by omega⟩
  have huint : ∀ j : ℕ, j < 2 ^ 32 → uintOfTime (j : ℤ) = j := by
    intro j hj
    unfold uintOfTime
    omega
  have hmask : ∀ j : ℕ, j < 2 ^ 32 → j &&& breakerProbeStampMask = j := by
    intro j hj
    rw [breakerProbeStampMask, Nat.and_two_pow_sub_one_eq_mod]
    exact Nat.mod_eq_of_lt hj
  have hk32 : k < 2 ^ 32 := by omega
  have hm32 : m < 2 ^ 32 := by omega
  have hgen' : gen &&& breakerProbeGenMask = gen := by
    rw [breakerProbeGenMask, Nat.and_two_pow_sub_one_eq_mod]
    exact Nat.mod_eq_of_lt hgen
  have hshift : gen <<< 32 % 2 ^ 64 = gen <<< 32 := by
    rw [Nat.shiftLeft_eq]
    exact Nat.mod_eq_of_lt (by omega)
  have hstamp : brkProbeStamp (brkProbePack gen k) = k := by
    rw [brkProbePack, hgen', hshift, hmask k hk32, ← Nat.shiftLeft_add_eq_or_of_lt hk32,
      Nat.shiftLeft_eq, brkProbeStamp, breakerProbeStampMask, Nat.and_two_pow_sub_one_eq_mod]
    omega
  have hlate : ¬ now < epoch := by omega
  have hdiff : (m + 2 ^ 64 - k) % 2 ^ 64 = m - k := by omega
  rw [brkProbeAge, if_neg hlate, hk, hm, huint k hk32, huint m hm32, hmask m hm32, hstamp]
  dsimp only
  rw [hdiff, hmask (m - k) (by omega)]
  have hcast : ((m - k : ℕ) : ℤ) = now - stamped := by omega
  exact hcast

/-! ## What a caller knows of the word it loaded -/

/-- A word that was loaded earlier: its generation is not ahead, and an OPEN word of the
breaker's own generation is the state word still, since only a promotion leaves it. -/
structure Loaded (b : Breaker) (word : ℕ) : Prop where
  gen : brkGen word ≤ brkGen b.breakerState
  same : brkState word = breakerOpen → brkGen word = brkGen b.breakerState →
    b.breakerState = word

/-- What the local variables of a caller say of the breaker.  Once it has published, the
probe word is its own for as long as its promotion can still succeed. -/
def Frame.Fresh (b : Breaker) : Frame → Prop
  | .stateProbe _ word | .stateTime _ word _ | .stateReclaim _ _ word _
  | .stateOpenedAt _ _ word _ | .statePublish _ word _ => Loaded b word
  | .stateReclaimed _ _ word _ => Loaded b (brkPack (brkGen word) breakerOpen)
  | .statePromote word =>
      Loaded b word ∧ (b.breakerState = word → brkProbeGen b.breakerProbe = nextGen word)
  | _ => True

theorem Loaded.self (b : Breaker) : Loaded b b.breakerState := ⟨le_rfl, fun _ _ => rfl⟩

theorem Frame.Fresh.of_record {b : Breaker} {f : Frame} (h : f.ofRecord = true) : f.Fresh b := by
  cases f with
  | recordTime | recordWord | recordReset | recordClose | recordFailed | recordReopen
  | recordWindow | recordRestart | recordRestarted | recordAdd | recordTripAt | recordTrip
  | recordTripped | recordOpens | recordReturned => trivial
  | _ => cases h

theorem breakerRecordStep_ofRecord (clock : Time) (b : Breaker) {f : Frame}
    (h : f.ofRecord = true) : (breakerRecordStep clock b f).2.ofRecord = true := by
  cases f with
  | recordTime | recordFailed | recordRestarted | recordTripAt | recordTripped | recordOpens
  | recordReturned | recordClose | recordReopen => rfl
  | recordWord | recordReset | recordWindow | recordRestart | recordAdd | recordTrip =>
    unfold breakerRecordStep
    dsimp only
    split_ifs <;> rfl
  | _ => cases h

theorem stateTimed_fresh {b : Breaker} {openFor now : Time} {word state probeWord : ℕ}
    (h : Loaded b word) : (stateTimed openFor now word state probeWord).Fresh b := by
  unfold stateTimed
  split_ifs
  · trivial
  · exact h

/-- **The caller that moves knows what its new frame says.** -/
theorem breakerStep_fresh (clock : Time) (b : Breaker) {f : Frame} (hf : f.Fresh b)
    (hroom : brkGen b.breakerState + 1 < 2 ^ 32) :
    (breakerStep clock b f).2.Fresh (breakerStep clock b f).1 := by
  unfold breakerStep
  by_cases hkind : f.ofRecord = true
  · rw [if_pos hkind]
    exact .of_record (breakerRecordStep_ofRecord clock b hkind)
  · rw [if_neg hkind]
    cases f with
    | stateWord openFor => exact Loaded.self b
    | stateProbe openFor word => exact hf
    | stateTime openFor word probeWord =>
      unfold breakerStateStep
      dsimp only
      split_ifs
      · exact hf
      · trivial
      · exact stateTimed_fresh hf
    | stateReclaim openFor now word probeWord =>
      unfold breakerStateStep
      obtain ⟨-, hcas⟩ | ⟨-, hcas⟩ := casState_cases b word (brkPack (brkGen word) breakerOpen)
      · dsimp only
        rw [hcas]
        exact Loaded.self { b with breakerState := brkPack (brkGen word) breakerOpen }
      · dsimp only
        rw [hcas]
        trivial
    | stateReclaimed openFor now word probeWord =>
      exact stateTimed_fresh ⟨hf.gen, hf.same⟩
    | stateOpenedAt openFor now word probeWord =>
      unfold breakerStateStep
      dsimp only
      split_ifs
      · trivial
      · exact hf
    | statePublish now word probeWord =>
      have hloaded : Loaded b word := hf
      have hnext : nextGen word < 2 ^ 32 := by
        have hgen := hloaded.gen
        rw [nextGen_eq (by omega)]
        omega
      unfold breakerStateStep Breaker.casProbe
      dsimp only
      by_cases hprobe : b.breakerProbe = probeWord
      · rw [if_pos hprobe]
        exact ⟨⟨hloaded.gen, hloaded.same⟩, fun _ => brkProbeGen_pack hnext _⟩
      · rw [if_neg hprobe]
        trivial
    | statePromote word =>
      unfold breakerStateStep
      obtain ⟨-, hcas⟩ | ⟨-, hcas⟩ :=
        casState_cases b word (brkPack (nextGen word) breakerHalfOpen)
      · dsimp only
        rw [hcas]
        trivial
      · dsimp only
        rw [hcas]
        trivial
    | stateReturned state probe => trivial
    | _ => exact absurd rfl hkind

/-! ## Every interleaving -/

namespace Callers

/-- A promoter publishes an older generation than the probe word carries, while that
probe word belongs to the lease of the breaker, or to a promotion that is about to
become it.  Its state word was loaded before another promotion, its probe word after. -/
def Overtakes (s : Callers) (i : ℕ) : Prop :=
  ∃ now word, s.frame i = .statePublish now word s.shared.breakerProbe ∧
    nextGen word < brkProbeGen s.shared.breakerProbe ∧
    (brkState s.shared.breakerState = breakerHalfOpen ∨
      ∃ j, s.frame j = .statePromote s.shared.breakerState)

/-- The steps of the caller `i` running alone from the start of `breaker_state` to its
return on an expired lease, with the clock readings `t`. -/
def alone (i : ℕ) (t : ℕ → Time) : List (ℕ × Time) := (List.range 8).map fun k => (i, t k)

/-- **The breaker is not wedged.**  In HALF_OPEN the probe word carries the generation of
the state word; and a call that runs alone, and whose clock finds the stamp as old as the
lease, is promoted itself. -/
structure Unwedged (s : Callers) : Prop where
  agrees : brkState s.shared.breakerState = breakerHalfOpen →
    brkProbeGen s.shared.breakerProbe = brkGen s.shared.breakerState
  reclaims : brkState s.shared.breakerState = breakerHalfOpen →
    ∀ i openFor t, s.frame i = .stateWord openFor → 0 < openFor →
      breakerProbeLease ≤ brkProbeAge s.shared.breakerEpoch s.shared.breakerProbe (t 2) →
      (Run.after step s (alone i t)).frame i =
        .stateReturned breakerHalfOpen (brkGen s.shared.breakerState + 1)

/-- What the breaker and the callers know of each other after `n` promotions. -/
structure Lease (calls : ℕ → BrkCall) (n : ℕ) (s : Callers) : Prop where
  inv : Inv calls n s
  agrees : brkState s.shared.breakerState = breakerHalfOpen →
    brkProbeGen s.shared.breakerProbe = brkGen s.shared.breakerState
  numbered : brkState s.shared.breakerState = breakerHalfOpen →
    brkGen s.shared.breakerState ≠ breakerNoProbe
  fresh : ∀ i, (s.frame i).Fresh s.shared

theorem Lease.start (epoch : Time) (calls : ℕ → BrkCall) :
    Lease calls 0 (start epoch calls) where
  inv := Inv.start epoch calls
  agrees h := absurd (show brkState breakerClosed = breakerHalfOpen from h) (by decide)
  numbered h := absurd (show brkState breakerClosed = breakerHalfOpen from h) (by decide)
  fresh i := by
    show (calls i).entry.Fresh _
    cases calls i with
    | state openFor => trivial
    | record success threshold window probe => trivial

/-- The three things a step can do to the state word: nothing, a promotion, or a move
that neither starts in OPEN nor ends in HALF_OPEN and keeps the generation. -/
inductive Moved (s s' : Callers) (i : ℕ) : Prop
  | kept (h : s'.shared.breakerState = s.shared.breakerState)
  | promoted (hframe : s.frame i = .statePromote s.shared.breakerState)
      (hopen : brkState s.shared.breakerState = breakerOpen)
      (hgen : brkGen s'.shared.breakerState = brkGen s.shared.breakerState + 1)
  | left (hopen : brkState s.shared.breakerState ≠ breakerOpen)
      (hhalf : brkState s'.shared.breakerState ≠ breakerHalfOpen)
      (hgen : brkGen s'.shared.breakerState = brkGen s.shared.breakerState)

theorem Inv.moved {calls : ℕ → BrkCall} {n : ℕ} {s : Callers} (h : Inv calls n s) {e : ℕ × Time}
    (hn : n + (if s.Promotes e then 1 else 0) ≤ 2 ^ 32 - 2) : Moved s (s.step e) e.1 := by
  obtain ⟨-, hgen⟩ := h.word hn
  obtain hsame | hmove := (h.spec e).word
  · exact .kept hsame
  · by_cases hp : s.Promotes e
    · rw [if_pos hp] at hgen
      refine .promoted ?_ hp.1 hgen
      generalize hf : s.frame e.1 = f at hmove
      generalize hw : s.shared.breakerState = w at hmove
      generalize (s.step e).shared.breakerState = w' at hmove
      have hopen : brkState w = breakerOpen := hw ▸ hp.1
      cases hmove with
      | promote => rfl
      | reclaim hhalf => exact absurd (hopen.symm.trans hhalf) (by decide)
      | close hlease => exact absurd (hopen.symm.trans hlease.1) (by decide)
      | reopen hlease => exact absurd (hopen.symm.trans hlease.1) (by decide)
      | trip => exact absurd (hopen.symm.trans (brkState_pack _ _)) (by decide)
    · rw [if_neg hp] at hgen
      have hhalf : brkState s.shared.breakerState ≠ breakerOpen ∧
          brkState (s.step e).shared.breakerState ≠ breakerHalfOpen := by
        have hp' : ¬ (brkState s.shared.breakerState = breakerOpen ∧
          brkState (s.step e).shared.breakerState = breakerHalfOpen) := hp
        revert hp'
        generalize s.frame e.1 = f at hmove
        generalize s.shared.breakerState = w at hmove
        generalize (s.step e).shared.breakerState = w' at hmove
        intro hp'
        cases hmove with
        | promote hopen => exact absurd ⟨hopen, brkState_pack _ _⟩ hp'
        | reclaim hhalf =>
          refine ⟨fun hc => absurd (hc.symm.trans hhalf) (by decide), ?_⟩
          rw [brkState_pack]
          decide
        | close hlease =>
          refine ⟨fun hc => absurd (hc.symm.trans hlease.1) (by decide), ?_⟩
          rw [brkState_pack]
          decide
        | reopen hlease =>
          refine ⟨fun hc => absurd (hc.symm.trans hlease.1) (by decide), ?_⟩
          rw [brkState_pack]
          decide
        | trip =>
          rw [brkState_pack, brkState_pack]
          decide
      exact .left hhalf.1 hhalf.2 hgen

/-- A word loaded earlier stays one. -/
theorem loaded_moved {s s' : Callers} {i word : ℕ} (h : Loaded s.shared word)
    (hm : Moved s s' i) : Loaded s'.shared word := by
  obtain ⟨hgen, hsame⟩ := h
  cases hm with
  | kept he =>
    rw [← he] at hgen hsame
    exact ⟨hgen, hsame⟩
  | promoted _ _ hg => exact ⟨by omega, fun _ he => absurd he (by omega)⟩
  | left hopen _ hg =>
    refine ⟨by omega, fun hw he => absurd ?_ hopen⟩
    rw [hsame hw (by omega)]
    exact hw

/-- The generation a publisher writes: not above the one after the state word's, and not
above the state word's own while that is HALF_OPEN. -/
theorem Lease.published {calls : ℕ → BrkCall} {n : ℕ} {s : Callers} (h : Lease calls n s)
    (hn : n ≤ 2 ^ 32 - 2) {i : ℕ} {now : Time} {word probeWord : ℕ}
    (hf : s.frame i = .statePublish now word probeWord) :
    nextGen word < 2 ^ 32 ∧ nextGen word ≤ brkGen s.shared.breakerState + 1 ∧
      (brkState s.shared.breakerState = breakerHalfOpen →
        nextGen word ≤ brkGen s.shared.breakerState) := by
  have hgenle := h.inv.inv.2
  have hloaded := h.fresh i
  have hok := (h.inv.own i).1
  rw [hf] at hloaded hok
  obtain ⟨hgen, hsame⟩ := hloaded
  have hnext : nextGen word = brkGen word + 1 := nextGen_eq (by omega)
  refine ⟨by omega, by omega, fun hhalf => ?_⟩
  have hne : brkGen word ≠ brkGen s.shared.breakerState := by
    intro he
    have hw := hsame hok.2 he
    have hopen : brkState s.shared.breakerState = breakerOpen := by
      rw [hw]
      exact hok.2
    exact absurd (hhalf.symm.trans hopen) (by decide)
  omega

/-- The probe word after a step that overtakes nobody: where a lease or a promotion under
way relies on it, it carries the generation it carried before. -/
theorem Lease.probe_kept {calls : ℕ → BrkCall} {n : ℕ} {s : Callers} (h : Lease calls n s)
    (hn : n ≤ 2 ^ 32 - 2) (e : ℕ × Time) (hover : ¬ s.Overtakes e.1) :
    (brkState s.shared.breakerState = breakerHalfOpen →
        brkProbeGen (s.step e).shared.breakerProbe = brkGen s.shared.breakerState) ∧
      ∀ j, s.frame j = .statePromote s.shared.breakerState →
        brkProbeGen (s.step e).shared.breakerProbe = nextGen s.shared.breakerState := by
  have hprobe := breakerStep_probe e.2 s.shared (s.frame e.1)
  have hpending : ∀ j, s.frame j = .statePromote s.shared.breakerState →
      brkProbeGen s.shared.breakerProbe = nextGen s.shared.breakerState := by
    intro j hj
    have hfresh := h.fresh j
    rw [hj] at hfresh
    exact hfresh.2 rfl
  obtain hsame | ⟨now, word, hf, hpub⟩ := hprobe
  · have hsame' : (s.step e).shared.breakerProbe = s.shared.breakerProbe := hsame
    rw [hsame']
    exact ⟨h.agrees, hpending⟩
  · obtain ⟨hlt, hle, hhalf⟩ := h.published hn hf
    have hnew : brkProbeGen (s.step e).shared.breakerProbe = nextGen word := by
      show brkProbeGen (breakerStep e.2 s.shared (s.frame e.1)).1.breakerProbe = _
      rw [hpub]
      exact brkProbeGen_pack hlt _
    have hnot : (brkState s.shared.breakerState = breakerHalfOpen ∨
        ∃ j, s.frame j = .statePromote s.shared.breakerState) →
        brkProbeGen s.shared.breakerProbe ≤ nextGen word := fun hrelied =>
      Nat.not_lt.1 fun hlt => hover ⟨now, word, hf, hlt, hrelied⟩
    rw [hnew]
    refine ⟨fun hh => ?_, fun j hj => ?_⟩
    · have hback := hnot (Or.inl hh)
      rw [h.agrees hh] at hback
      have hup := hhalf hh
      omega
    · have hback := hnot (Or.inr ⟨j, hj⟩)
      rw [hpending j hj] at hback
      have hgenle := h.inv.inv.2
      have hnext : nextGen s.shared.breakerState = brkGen s.shared.breakerState + 1 :=
        nextGen_eq (by omega)
      omega

/-- **A step that overtakes nobody keeps the lease.** -/
theorem Lease.step {calls : ℕ → BrkCall} {n : ℕ} {s : Callers} (h : Lease calls n s)
    (e : ℕ × Time) (hover : ¬ s.Overtakes e.1)
    (hn : n + (if s.Promotes e then 1 else 0) ≤ 2 ^ 32 - 2) :
    Lease calls (n + if s.Promotes e then 1 else 0) (s.step e) := by
  have hmoved := h.inv.moved hn
  have hgenle := h.inv.inv.2
  obtain ⟨hlease, hpending⟩ := h.probe_kept (by omega) e hover
  have hself : (s.step e).frame e.1 = (breakerStep e.2 s.shared (s.frame e.1)).2 :=
    Threads.step_frame_self ..
  refine ⟨(h.inv.step e hn).2, fun hhalf => ?_, fun hhalf => ?_, fun i => ?_⟩
  · cases hmoved with
    | kept he =>
      rw [he] at hhalf ⊢
      exact hlease hhalf
    | promoted hframe _ hgen =>
      rw [hpending e.1 hframe, hgen]
      exact nextGen_eq (by omega)
    | left _ hnot _ => exact absurd hhalf hnot
  · cases hmoved with
    | kept he =>
      rw [he] at hhalf ⊢
      exact h.numbered hhalf
    | promoted _ _ hgen =>
      rw [hgen]
      exact Nat.succ_ne_zero _
    | left _ hnot _ => exact absurd hhalf hnot
  · by_cases hi : i = e.1
    · subst hi
      rw [hself]
      exact breakerStep_fresh e.2 s.shared (h.fresh e.1) (by omega)
    · have hfree : (s.step e).frame i = s.frame i := Threads.step_frame_of_ne breakerStep s hi
      have hfresh := h.fresh i
      have hok := (h.inv.own i).1
      rw [hfree]
      cases hf : s.frame i with
      | stateProbe | stateTime | stateReclaim | stateOpenedAt | statePublish | stateReclaimed =>
        rw [hf] at hfresh
        exact loaded_moved hfresh hmoved
      | statePromote word =>
        rw [hf] at hfresh hok
        obtain ⟨hloaded, -⟩ := hfresh
        refine ⟨loaded_moved hloaded hmoved, fun hw => ?_⟩
        cases hmoved with
        | kept he =>
          rw [he] at hw
          rw [← hw]
          exact hpending i (by rw [hf, hw])
        | promoted _ _ hgen =>
          have hle := hloaded.gen
          rw [hw] at hgen
          omega
        | left hopen _ hgen =>
          rw [hw] at hgen
          have hsame := hloaded.same hok.2 hgen
          exact absurd (hsame ▸ hok.2) hopen
      | stateWord | stateReturned | recordTime | recordWord | recordReset | recordClose
      | recordFailed | recordReopen | recordWindow | recordRestart | recordRestarted | recordAdd
      | recordTripAt | recordTrip | recordTripped | recordOpens | recordReturned => trivial

/-! ### The call that runs alone -/

theorem step_alone {s : Callers} {i : ℕ} {t : Time} {b c : Breaker} {f g : Frame}
    (hb : s.shared = b) (hf : s.frame i = f) (hkind : f.ofRecord = false)
    (hnext : breakerStateStep t b f = (c, g)) :
    (s.step (i, t)).shared = c ∧ (s.step (i, t)).frame i = g := by
  have hstep : breakerStep t b f = (c, g) := by
    rw [breakerStep, hkind]
    exact hnext
  have hshared : (s.step (i, t)).shared = (breakerStep t s.shared (s.frame i)).1 := rfl
  have hframe : (s.step (i, t)).frame i = (breakerStep t s.shared (s.frame i)).2 :=
    Threads.step_frame_self ..
  rw [hshared, hframe, hb, hf, hstep]
  exact ⟨rfl, rfl⟩

/-- **A lease that ran out is taken back by the next call that runs alone**, which is
promoted under the next generation. -/
theorem Lease.reclaims {calls : ℕ → BrkCall} {n : ℕ} {s : Callers} (h : Lease calls n s)
    (hn : n ≤ 2 ^ 32 - 2) (hhalf : brkState s.shared.breakerState = breakerHalfOpen) {i : ℕ}
    {openFor : Time} {t : ℕ → Time} (hf : s.frame i = .stateWord openFor) (hopen : 0 < openFor)
    (hage : breakerProbeLease ≤
      brkProbeAge s.shared.breakerEpoch s.shared.breakerProbe (t 2)) :
    (Run.after Callers.step s (alone i t)).frame i =
      .stateReturned breakerHalfOpen (brkGen s.shared.breakerState + 1) := by
  obtain ⟨hlt, hgenle⟩ := h.inv.inv
  set b := s.shared with hb
  set w := b.breakerState with hw
  set w' := brkPack (brkGen w) breakerOpen with hw'
  have hgen' : brkGen w' = brkGen w := brkGen_setState hlt _
  have hmask : brkGen w &&& breakerProbeGenMask = brkGen w := by
    rw [breakerProbeGenMask, Nat.and_two_pow_sub_one_eq_mod]
    exact Nat.mod_eq_of_lt (by omega)
  have hdue : reclaimDue b.breakerEpoch openFor (t 2) w b.breakerProbe = true := by
    have hagrees := h.agrees hhalf
    have hnumbered := h.numbered hhalf
    unfold reclaimDue
    rw [hagrees, hmask]
    simp only [Bool.and_eq_true, decide_eq_true_eq, bne_iff_ne, beq_iff_eq]
    exact ⟨⟨⟨hopen, hnumbered⟩, rfl⟩, hage⟩
  have htimed : ∀ now probeWord, stateTimed openFor now w' breakerOpen probeWord =
      .stateOpenedAt openFor now w' probeWord := by
    intro now probeWord
    refine if_neg (not_or.2 ⟨fun hc => hc rfl, ?_⟩)
    exact Int.not_le.2 hopen
  -- the eight accesses, one after the other
  obtain ⟨hb₁, hf₁⟩ := step_alone (i := i) (t := t 0) hb.symm hf rfl
    (c := b) (g := .stateProbe openFor w) rfl
  obtain ⟨hb₂, hf₂⟩ := step_alone (t := t 1) hb₁ hf₁ rfl
    (c := b) (g := .stateTime openFor w b.breakerProbe) rfl
  obtain ⟨hb₃, hf₃⟩ := step_alone (t := t 2) hb₂ hf₂ rfl
    (c := b) (g := .stateReclaim openFor (t 2) w b.breakerProbe) (by
      unfold breakerStateStep
      dsimp only
      rw [if_pos hhalf, if_pos hdue])
  obtain ⟨hb₄, hf₄⟩ := step_alone (t := t 3) hb₃ hf₃ rfl
    (c := { b with breakerState := w' })
    (g := .stateReclaimed openFor (t 2) w b.breakerProbe) (by
      unfold breakerStateStep Breaker.casState
      dsimp only
      rw [if_pos hw.symm]
      rfl)
  set b₅ : Breaker := { b with breakerState := w', breakerOpenedAt := t 2 - openFor } with hb₅'
  obtain ⟨hb₅, hf₅⟩ := step_alone (t := t 4) hb₄ hf₄ rfl
    (c := b₅) (g := .stateOpenedAt openFor (t 2) w' b.breakerProbe) (by
      unfold breakerStateStep
      dsimp only
      rw [← hw', htimed])
  obtain ⟨hb₆, hf₆⟩ := step_alone (t := t 5) hb₅ hf₅ rfl
    (c := b₅) (g := .statePublish (t 2) w' b.breakerProbe) (by
      unfold breakerStateStep
      have hwait : ¬ t 2 - b₅.breakerOpenedAt < openFor := by
        show ¬ (t 2 - (t 2 - openFor) : ℤ) < openFor
        rw [Int.sub_sub_self]
        exact Int.lt_irrefl _
      dsimp only
      rw [if_neg hwait])
  set probe' := brkProbePack (nextGen w') (uintOfTime (t 2 - b₅.breakerEpoch)) with hprobe'
  obtain ⟨hb₇, hf₇⟩ := step_alone (t := t 6) hb₆ hf₆ rfl
    (c := b₅.publish probe') (g := .statePromote w') (by
      unfold breakerStateStep Breaker.casProbe
      dsimp only
      rw [if_pos rfl]
      rfl)
  obtain ⟨-, hf₈⟩ := step_alone (t := t 7) hb₇ hf₇ rfl
    (c := { b₅.publish probe' with breakerState := brkPack (nextGen w') breakerHalfOpen })
    (g := .stateReturned breakerHalfOpen (nextGen w')) (by
      unfold breakerStateStep Breaker.casState
      dsimp only
      rw [if_pos (show (b₅.publish probe').breakerState = w' from rfl)]
      rfl)
  have hnext : nextGen w' = brkGen w + 1 := by
    rw [nextGen_eq (by omega), hgen']
  rw [hnext] at hf₈
  exact hf₈

theorem Lease.unwedged {calls : ℕ → BrkCall} {n : ℕ} {s : Callers} (h : Lease calls n s)
    (hn : n ≤ 2 ^ 32 - 2) : Unwedged s :=
  ⟨h.agrees, fun hhalf _ _ _ hf hopen hage => h.reclaims hn hhalf hf hopen hage⟩

/-- **A step that overtakes wedges the breaker**, at once or with the promotion that is
under way. -/
theorem Lease.wedged {calls : ℕ → BrkCall} {n : ℕ} {s : Callers} (h : Lease calls n s)
    (hn : n ≤ 2 ^ 32 - 2) {e : ℕ × Time} (hover : s.Overtakes e.1) :
    ∃ rest : List (ℕ × Time), rest.length ≤ 1 ∧
      ¬ Unwedged (Run.after Callers.step s (e :: rest)) := by
  obtain ⟨now, word, hf, hback, hrelied⟩ := hover
  obtain ⟨hlt, -, -⟩ := h.published hn hf
  have hgenle := h.inv.inv.2
  have hpub : breakerStep e.2 s.shared (s.frame e.1) =
      (s.shared.publish (brkProbePack (nextGen word) (uintOfTime (now - s.shared.breakerEpoch))),
        .statePromote word) := by
    rw [hf, breakerStep]
    simp only [Frame.ofRecord]
    unfold breakerStateStep Breaker.casProbe
    dsimp only
    rw [if_pos rfl]
    rfl
  have hshared : (s.step e).shared =
      s.shared.publish (brkProbePack (nextGen word) (uintOfTime (now - s.shared.breakerEpoch))) :=
    congrArg Prod.fst hpub
  have hprobe : brkProbeGen (s.step e).shared.breakerProbe = nextGen word := by
    rw [hshared]
    exact brkProbeGen_pack hlt _
  have hword : (s.step e).shared.breakerState = s.shared.breakerState := by
    rw [hshared]
    rfl
  rcases hrelied with hhalf | ⟨j, hj⟩
  · refine ⟨[], Nat.zero_le _, fun hu => ?_⟩
    have hagrees : brkProbeGen (s.step e).shared.breakerProbe =
        brkGen (s.step e).shared.breakerState := hu.agrees (hword ▸ hhalf)
    rw [hprobe, hword, ← h.agrees hhalf] at hagrees
    omega
  · refine ⟨[(j, 0)], le_rfl, fun hu => ?_⟩
    have hne : j ≠ e.1 := by
      rintro rfl
      rw [hf] at hj
      cases hj
    have hpending : brkProbeGen s.shared.breakerProbe = nextGen s.shared.breakerState := by
      have hfresh := h.fresh j
      rw [hj] at hfresh
      exact hfresh.2 rfl
    have hframe : (s.step e).frame j = .statePromote s.shared.breakerState :=
      (Threads.step_frame_of_ne breakerStep s hne).trans hj
    obtain ⟨hb, -⟩ := step_alone (i := j) (t := 0) rfl hframe rfl
      (c := { (s.step e).shared with
        breakerState := brkPack (nextGen s.shared.breakerState) breakerHalfOpen })
      (g := .stateReturned breakerHalfOpen (nextGen s.shared.breakerState)) (by
        unfold breakerStateStep Breaker.casState
        dsimp only
        rw [if_pos hword]
        rfl)
    have hagrees : brkProbeGen ((s.step e).step (j, 0)).shared.breakerProbe =
        brkGen ((s.step e).step (j, 0)).shared.breakerState :=
      hu.agrees (by rw [Run.after_cons, Run.after_cons, Run.after_nil, hb]; exact brkState_pack _ _)
    have hnext : nextGen s.shared.breakerState = brkGen s.shared.breakerState + 1 :=
      nextGen_eq (by omega)
    rw [hb] at hagrees
    dsimp only at hagrees
    rw [hprobe, brkGen_pack, hnext, Nat.mod_eq_of_lt (by omega)] at hagrees
    omega

/-- **The breaker is never wedged unless a promoter is overtaken.**  In every interleaving
of any number of calls with fewer than `2^32 - 1` promotions and no such publication, the
breaker is not wedged in the state reached; and a publication that overtakes there wedges
it, at once or one step later. -/
theorem never_wedges (epoch : Time) (calls : ℕ → BrkCall) (run : List (ℕ × Time))
    (hprom : promotions epoch calls run < 2 ^ 32 - 1)
    (hrun : Run.Along step (fun s e => ¬ s.Overtakes e.1) (start epoch calls) run) :
    let s := Run.after step (start epoch calls) run
    Unwedged s ∧ ∀ e, s.Overtakes e.1 →
      ∃ rest : List (ℕ × Time), rest.length ≤ 1 ∧ ¬ Unwedged (Run.after step s (e :: rest)) := by
  have hN : 0 + Run.count step Promotes (start epoch calls) run ≤ 2 ^ 32 - 2 := by
    rw [promotions] at hprom
    omega
  have hlease := Run.after_of_counted (P := Lease calls) (C := Promotes)
    (D := fun s e => ¬ s.Overtakes e.1)
    (fun _ _ e hs hover hn => hs.step e hover hn) (Lease.start epoch calls) hrun hN
  exact ⟨hlease.unwedged hN, fun e hover => hlease.wedged hN hover⟩

/-! ### The overtaken promoter -/

/-- Caller 0 trips the breaker, callers 1, 2, 4 and 5 ask for the state, and caller 3
reports the failure of the first probe. -/
def wedgeCalls (i : ℕ) : BrkCall :=
  if i = 0 then .record false 1 1 breakerNoProbe
  else if i = 3 then .record false 1 1 1
  else .state 1

/-- Caller 1 has loaded the state word of generation 0 when caller 2 is promoted; its probe
fails, and caller 4 is promoted under generation 2. -/
def parkedRun : List (ℕ × Time) :=
  List.replicate 10 (0, 10) ++ [(1, 11)] ++ List.replicate 6 (2, 20) ++ List.replicate 4 (3, 21) ++
    List.replicate 6 (4, 30)

/-- Then caller 1 goes on: it loads the probe word of generation 2, and publishes
generation 1. -/
def wedgeRun : List (ℕ × Time) := parkedRun ++ List.replicate 4 (1, 30)

/-- Whether the caller is about to publish an older generation, relied on or not. -/
def regresses (s : Callers) (i : ℕ) : Bool :=
  match s.frame i with
  | .statePublish _ word _ => decide (nextGen word < brkProbeGen s.shared.breakerProbe)
  | _ => false

theorem never_wedges_parked :
    Unwedged (Run.after step (start 0 wedgeCalls) parkedRun) := by
  have hregress : Run.Along step (fun s e => s.regresses e.1 = false) (start 0 wedgeCalls)
      parkedRun := by decide
  refine (never_wedges 0 wedgeCalls parkedRun (by decide) ?_).1
  refine Run.along_of_invariant (P := fun _ => True) (fun s e _ hno => ⟨?_, trivial⟩) trivial
    hregress
  rintro ⟨now, word, hf, hback, -⟩
  unfold regresses at hno
  rw [hf] at hno
  exact of_decide_eq_false hno hback

/-- **A promoter overtaken between its two loads wedges the breaker.**  The probe word of
the second lease carries the generation of the first. -/
theorem never_wedges_fails : ¬ ∀ (epoch : Time) (calls : ℕ → BrkCall) (run : List (ℕ × Time)),
    (run.map Prod.snd).Pairwise (· ≤ ·) → promotions epoch calls run < 2 ^ 32 - 1 →
      Unwedged (Run.after step (start epoch calls) run) := by
  intro h
  have hu := h 0 wedgeCalls wedgeRun (by decide) (by decide)
  exact absurd (hu.agrees (by decide)) (by decide)

end Callers

end Shm
end CacheTurbo
