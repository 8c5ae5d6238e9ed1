/-
# The breaker trips and probes only when it is due

What a history of turns, one call after the other, says of the stamps of the breaker.  In
CLOSED the counter is a lower bound of the failures recorded since the last success, none of
them before the window's anchor (`Streak`).  In OPEN `breaker_opened_at` is the time of the
last trip or failed probe, and in HALF_OPEN the stamp of `breaker_probe` is the time of the
last lease (`Stamped`).  A turn that trips the breaker or hands out a probe reads these
stamps, so it can do so only when it is due (`trips_and_probes_when_due`).

A call whose threshold or window is zero never trips the breaker, but it may be the probe's
own report: a failure of the probe goes back to OPEN under any policy.
-/

import CacheTurbo.Shm.BreakerCalls

namespace CacheTurbo
namespace Shm

/-! ## The edges -/

/-- The edges of the state machine. -/
inductive Edge : ℕ → ℕ → Prop
  | trip : Edge breakerClosed breakerOpen
  | probe : Edge breakerOpen breakerHalfOpen
  | close : Edge breakerHalfOpen breakerClosed
  | reopen : Edge breakerHalfOpen breakerOpen

/-- Every move of the state word follows an edge. -/
theorem Move.edge {f : Frame} {w w' : ℕ} (h : Move f w w') : Edge (brkState w) (brkState w') := by
  cases h with
  | reclaim hhalf =>
    rw [hhalf, brkState_pack]
    exact .reopen
  | promote hopen =>
    rw [hopen, brkState_pack]
    exact .probe
  | close hlease =>
    rw [hlease.1, brkState_pack]
    exact .close
  | reopen hlease =>
    rw [hlease.1, brkState_pack]
    exact .reopen
  | trip =>
    rw [brkState_pack, brkState_pack]
    exact .trip

/-- The program points of a caller that runs alone. -/
theorem lone_ok {now : Time} {b : Breaker} {c : BrkCall} {s : Breaker × Frame}
    (h : Lone now (b, c.entry) s) : s.2.Ok c.token := by
  induction h with
  | refl => exact c.entry_ok
  | tail _ hstep ih =>
    obtain rfl := hstep
    exact (breakerStep_spec now _ ih).ok

/-- An access of a caller that runs alone leaves the state word or follows an edge. -/
theorem lone_edge {now : Time} {b : Breaker} {c : BrkCall} {s s' : Breaker × Frame}
    (h : Lone now (b, c.entry) s) (hstep : Access now s s') :
    s'.1.breakerState = s.1.breakerState ∨
      Edge (brkState s.1.breakerState) (brkState s'.1.breakerState) := by
  obtain rfl := hstep
  exact (breakerStep_spec now s.1 (lone_ok h)).word.imp_right Move.edge

/-- The accesses of a turn, made one after the other, lead to the breaker after it. -/
theorem lone_turn (b : Breaker) (x : Turn) :
    ∃ f, Lone x.now (b, x.call.entry) (b.turn x, f) := by
  obtain ⟨now, call⟩ := x
  cases call with
  | state openFor => exact ⟨_, lone_state now openFor b⟩
  | record success threshold window probe =>
    exact ⟨_, lone_record now success threshold window probe b⟩

/-! ## The failures that are counted -/

/-- A success is recorded. -/
def Turn.success (x : Turn) : Bool :=
  match x.call with
  | .record success _ _ _ => success
  | .state _ => false

/-- A failure is recorded, under a policy that is not inert. -/
def Turn.failure (x : Turn) : Bool :=
  match x.call with
  | .record success threshold window _ => !success && threshold != 0 && decide (0 < window)
  | .state _ => false

/-- The history ends with turns on a closed breaker, with no success among them and at least
`n` failures, none of them before `anchor` (which is zero until a failure sets it). -/
def Streak (epoch anchor : Time) (xs : List Turn) (n : ℕ) : Prop :=
  ∃ pre seg, xs = pre ++ seg ∧
    Run.Along Breaker.turn
      (fun b y => brkState b.breakerState = breakerClosed ∧ y.success = false)
      (breakerAfter epoch pre) seg ∧
    (∀ y ∈ seg, y.failure = true → anchor ≤ y.now ∨ anchor = 0) ∧ n ≤ seg.countP Turn.failure

theorem Streak.none (epoch anchor : Time) (xs : List Turn) : Streak epoch anchor xs 0 :=
  ⟨xs, [], (List.append_nil _).symm, trivial, fun _ hy => absurd hy List.not_mem_nil,
    Nat.zero_le _⟩

/-- One turn more on a closed breaker, which is not a success. -/
theorem Streak.more {epoch anchor : Time} {xs : List Turn} {n : ℕ} (h : Streak epoch anchor xs n)
    {x : Turn} (hstate : brkState (breakerAfter epoch xs).breakerState = breakerClosed)
    (hsuccess : x.success = false) (hanchor : x.failure = true → anchor ≤ x.now ∨ anchor = 0) :
    Streak epoch anchor (xs ++ [x]) (n + if x.failure then 1 else 0) := by
  obtain ⟨pre, seg, rfl, halong, hsince, hcount⟩ := h
  refine ⟨pre, seg ++ [x], List.append_assoc .., ?_, ?_, ?_⟩
  · have hafter : Run.after Breaker.turn (breakerAfter epoch pre) seg =
        breakerAfter epoch (pre ++ seg) := (Run.after_append ..).symm
    refine Run.along_append.2 ⟨halong, ?_⟩
    rw [hafter]
    exact ⟨⟨hstate, hsuccess⟩, trivial⟩
  · intro y hy hfailure
    rw [List.mem_append, List.mem_singleton] at hy
    obtain hy | rfl := hy
    · exact hsince y hy hfailure
    · exact hanchor hfailure
  · rw [List.countP_append, List.countP_singleton]
    exact Nat.add_le_add_right hcount _

/-- The window is re-anchored by a failure: it is the first one. -/
theorem Streak.start {epoch : Time} {xs : List Turn} {x : Turn}
    (hstate : brkState (breakerAfter epoch xs).breakerState = breakerClosed)
    (hsuccess : x.success = false) (hfailure : x.failure = true) :
    Streak epoch x.now (xs ++ [x]) 1 := by
  have h := (Streak.none epoch x.now xs).more hstate hsuccess fun _ => Or.inl (Int.le_refl _)
  rwa [hfailure, if_pos rfl] at h

/-! ## What a turn does to the stamps -/

/-- A turn after which the breaker is OPEN, and was not before: a trip or a failed probe. -/
def Breaker.Opens (b : Breaker) (x : Turn) : Prop :=
  brkState b.breakerState ≠ breakerOpen ∧ brkState (b.turn x).breakerState = breakerOpen

instance (b : Breaker) (x : Turn) : Decidable (b.Opens x) := inferInstanceAs (Decidable (_ ∧ _))

theorem brkState_promote (b : Breaker) (now : Time) :
    brkState (b.promote now).breakerState = breakerHalfOpen := brkState_pack _ _

/-- The window's anchor, and the counter that goes with it. -/
theorem restartIfPast_cases (b : Breaker) (now window : Time) :
    (window ≤ now - b.breakerWindowStart ∧ (b.restartIfPast now window).breakerWindowStart = now ∧
        (b.restartIfPast now window).breakerFails = 0) ∨
      (now - b.breakerWindowStart < window ∧ b.restartIfPast now window = b) := by
  unfold Breaker.restartIfPast
  by_cases hpast : now - b.breakerWindowStart ≥ window
  · rw [if_pos hpast]
    exact Or.inl ⟨hpast, rfl, rfl⟩
  · rw [if_neg hpast]
    exact Or.inr ⟨Int.not_le.1 hpast, rfl⟩

@[simp] theorem restartIfPast_epoch (b : Breaker) (now window : Time) :
    (b.restartIfPast now window).breakerEpoch = b.breakerEpoch := by
  unfold Breaker.restartIfPast
  split_ifs <;> rfl

section Outcome

variable {b b' : Breaker} {x : Turn}

theorem Outcome.epoch (h : Outcome b x b') : b'.breakerEpoch = b.breakerEpoch := by
  cases h with
  | counts | trips => exact restartIfPast_epoch _ _ _
  | _ => rfl

/-- Outside CLOSED nothing is counted. -/
theorem Outcome.idle (h : Outcome b x b')
    (hidle : brkState b.breakerState ≠ breakerClosed → b.breakerFails = 0) :
    brkState b'.breakerState ≠ breakerClosed → b'.breakerFails = 0 := by
  intro hstate
  cases h with
  | waits | ignores => exact hidle hstate
  | promotes _ _ _ hopen => exact hidle (by rw [hopen]; decide)
  | reclaims _ _ _ hhalf => exact hidle (by rw [hhalf]; decide)
  | clears | closes | trips => rfl
  | reopens _ hlease => exact hidle (by rw [hlease.1]; decide)
  | counts _ hclosed =>
    rw [restartIfPast_state] at hstate
    exact absurd hclosed hstate

/-- The anchor is set by a turn to its own time. -/
theorem Outcome.anchor (h : Outcome b x b') :
    b'.breakerWindowStart = b.breakerWindowStart ∨ b'.breakerWindowStart = x.now := by
  cases h with
  | @counts _ window | @trips _ window =>
    obtain ⟨-, hnow, -⟩ | ⟨-, hsame⟩ := restartIfPast_cases b x.now window
    · exact Or.inr hnow
    · refine Or.inl ?_
      show (b.restartIfPast x.now window).breakerWindowStart = _
      rw [hsame]
  | _ => exact Or.inl rfl

/-- A breaker that comes to be OPEN is stamped with the time of the turn. -/
theorem Outcome.opened (h : Outcome b x b') (hstate : brkState b'.breakerState = breakerOpen) :
    (brkState b.breakerState ≠ breakerOpen ∧ b'.breakerOpenedAt = x.now) ∨
      (brkState b.breakerState = breakerOpen ∧ b'.breakerOpenedAt = b.breakerOpenedAt) := by
  cases h with
  | waits | clears | ignores => exact Or.inr ⟨hstate, rfl⟩
  | promotes | reclaims =>
    rw [brkState_promote] at hstate
    exact absurd hstate (by decide)
  | closes =>
    rw [brkState_pack] at hstate
    exact absurd hstate (by decide)
  | reopens _ hlease => exact Or.inl ⟨by rw [hlease.1]; decide, rfl⟩
  | counts _ hclosed =>
    rw [restartIfPast_state, hclosed] at hstate
    exact absurd hstate (by decide)
  | trips _ hclosed => exact Or.inl ⟨by rw [hclosed]; decide, rfl⟩

/-- A breaker that is HALF_OPEN has the stamp of its lease. -/
theorem Outcome.leased (h : Outcome b x b') (hstate : brkState b'.breakerState = breakerHalfOpen) :
    (b.Leases x ∧
        ∃ gen, b'.breakerProbe = brkProbePack gen (uintOfTime (x.now - b.breakerEpoch))) ∨
      (¬ b.Leases x ∧ brkState b.breakerState = breakerHalfOpen ∧
        b'.breakerProbe = b.breakerProbe) := by
  have hrecord : ∀ {success threshold window probe}, x.call = .record success threshold window probe →
      ¬ b.Leases x := by
    intro success threshold window probe hcall
    unfold Breaker.Leases
    rw [hcall]
    exact id
  cases h with
  | waits _ hanswer => exact Or.inr ⟨hanswer, hstate, rfl⟩
  | promotes _ hanswer => exact Or.inl ⟨hanswer, _, rfl⟩
  | reclaims _ hanswer => exact Or.inl ⟨hanswer, _, rfl⟩
  | clears hcall => exact Or.inr ⟨hrecord hcall, hstate, rfl⟩
  | ignores hcall => exact Or.inr ⟨hrecord hcall, hstate, rfl⟩
  | closes | reopens | trips =>
    rw [brkState_pack] at hstate
    exact absurd hstate (by decide)
  | counts _ hclosed =>
    rw [restartIfPast_state, hclosed] at hstate
    exact absurd hstate (by decide)

end Outcome

/-! ## What the stamps mean -/

/-- The breaker after the history `xs`, whose stamps are the times of turns of `xs`. -/
structure Stamped (epoch : Time) (xs : List Turn) (b : Breaker) : Prop where
  after : b = breakerAfter epoch xs
  made : b.breakerEpoch = epoch
  idle : brkState b.breakerState ≠ breakerClosed → b.breakerFails = 0
  anchor : b.breakerWindowStart = 0 ∨ ∃ y ∈ xs, y.now = b.breakerWindowStart
  streak : Streak epoch b.breakerWindowStart xs b.breakerFails
  opened : brkState b.breakerState = breakerOpen →
    ∃ y, Run.last Breaker.turn Breaker.Opens (.init epoch) xs = some y ∧
      b.breakerOpenedAt = y.now
  leased : brkState b.breakerState = breakerHalfOpen →
    ∃ y gen, Run.last Breaker.turn Breaker.Leases (.init epoch) xs = some y ∧
      b.breakerProbe = brkProbePack gen (uintOfTime (y.now - epoch))

theorem Stamped.start (epoch : Time) : Stamped epoch [] (.init epoch) where
  after := rfl
  made := rfl
  idle := fun h => absurd rfl h
  anchor := Or.inl rfl
  streak := Streak.none ..
  opened := fun h => absurd h (by decide : ¬ breakerClosed = breakerOpen)
  leased := fun h => absurd h (by decide : ¬ breakerClosed = breakerHalfOpen)

section Stamped

variable {epoch : Time} {xs : List Turn} {b b' : Breaker} {x : Turn}

/-- The anchor is not in the future. -/
theorem Stamped.anchor_le (h : Stamped epoch xs b) (hx : ∀ y ∈ xs, y.now ≤ x.now) :
    b.breakerWindowStart ≤ x.now ∨ b.breakerWindowStart = 0 := by
  obtain hzero | ⟨y, hy, hnow⟩ := h.anchor
  · exact Or.inr hzero
  · exact Or.inl (hnow ▸ hx y hy)

/-- A failure that is counted: the streak goes on, or it begins with the new anchor. -/
theorem Stamped.count (h : Stamped epoch xs b) (hx : ∀ y ∈ xs, y.now ≤ x.now) {threshold : ℕ}
    {window : Time} {probe : ℕ} (hcall : x.call = .record false threshold window probe)
    (hstate : brkState b.breakerState = breakerClosed) (hpolicy : 0 < threshold ∧ 0 < window) :
    Streak epoch (b.restartIfPast x.now window).breakerWindowStart (xs ++ [x])
        ((b.restartIfPast x.now window).breakerFails + 1) ∧
      x.now < (b.restartIfPast x.now window).breakerWindowStart + window := by
  have hafter : brkState (breakerAfter epoch xs).breakerState = breakerClosed := by
    rw [← h.after]
    exact hstate
  have hsuccess : x.success = false := by
    unfold Turn.success
    rw [hcall]
  have hfailure : x.failure = true := by
    unfold Turn.failure
    rw [hcall]
    simp only [Bool.not_false, Bool.true_and, Bool.and_eq_true, bne_iff_ne, decide_eq_true_eq]
    exact ⟨hpolicy.1.ne', hpolicy.2⟩
  obtain ⟨-, hanchor, hfails⟩ | ⟨hnear, hsame⟩ := restartIfPast_cases b x.now window
  · rw [hanchor, hfails]
    exact ⟨Streak.start hafter hsuccess hfailure, Int.lt_add_of_pos_right _ hpolicy.2⟩
  · have hmore := h.streak.more hafter hsuccess fun _ => h.anchor_le hx
    rw [hfailure, if_pos rfl] at hmore
    rw [hsame]
    exact ⟨hmore, Int.lt_add_of_sub_left_lt hnear⟩

/-- A turn keeps the count. -/
theorem Stamped.streak_turn (h : Stamped epoch xs b) (hx : ∀ y ∈ xs, y.now ≤ x.now)
    (hout : Outcome b x b') : Streak epoch b'.breakerWindowStart (xs ++ [x]) b'.breakerFails := by
  have hkept : x.success = false → x.failure = false →
      Streak epoch b.breakerWindowStart (xs ++ [x]) b.breakerFails := by
    intro hsuccess hfailure
    by_cases hstate : brkState b.breakerState = breakerClosed
    · have hmore := h.streak.more (x := x) (h.after ▸ hstate) hsuccess fun hc => by
        rw [hfailure] at hc
        cases hc
      rwa [hfailure, if_neg (by decide), Nat.add_zero] at hmore
    · rw [h.idle hstate]
      exact Streak.none ..
  cases hout with
  | waits hcall =>
    refine hkept ?_ ?_
    · unfold Turn.success
      rw [hcall]
    · unfold Turn.failure
      rw [hcall]
  | promotes _ _ _ hopen =>
    have hidle := h.idle (by rw [hopen]; decide)
    show Streak epoch b.breakerWindowStart _ b.breakerFails
    rw [hidle]
    exact Streak.none ..
  | reclaims _ _ _ hhalf =>
    have hidle := h.idle (by rw [hhalf]; decide)
    show Streak epoch b.breakerWindowStart _ b.breakerFails
    rw [hidle]
    exact Streak.none ..
  | clears | closes | trips => exact Streak.none ..
  | reopens _ hlease =>
    have hidle := h.idle (by rw [hlease.1]; decide)
    show Streak epoch b.breakerWindowStart _ b.breakerFails
    rw [hidle]
    exact Streak.none ..
  | @ignores threshold window probe hcall hskip =>
    by_cases hstate : brkState b.breakerState = breakerClosed
    · refine hkept ?_ ?_
      · unfold Turn.success
        rw [hcall]
      · unfold Turn.failure
        rw [hcall]
        obtain hopen | rfl | hwindow := hskip
        · exact absurd hstate hopen
        · rfl
        · simp only [Bool.not_false, Bool.true_and, Bool.and_eq_false_imp, decide_eq_false_iff_not]
          exact fun _ => Int.not_lt.2 hwindow
    · rw [h.idle hstate]
      exact Streak.none ..
  | counts hcall hstate hpolicy =>
    obtain ⟨pre, seg, hsplit, halong, hsince, hcount⟩ := (h.count hx hcall hstate hpolicy).1
    exact ⟨pre, seg, hsplit, halong, hsince, (Nat.mod_le _ _).trans hcount⟩

/-- **A turn keeps the meaning of the stamps.** -/
theorem Stamped.turn (h : Stamped epoch xs b) (hx : ∀ y ∈ xs, y.now ≤ x.now)
    (hout : Outcome b x (b.turn x)) : Stamped epoch (xs ++ [x]) (b.turn x) := by
  have hrun : Run.after Breaker.turn (.init epoch) xs = b := h.after.symm
  refine ⟨?_, hout.epoch.trans h.made, hout.idle h.idle, ?_, h.streak_turn hx hout, ?_, ?_⟩
  · rw [breakerAfter_concat, h.after]
  · obtain hsame | hnow := hout.anchor
    · rw [hsame]
      refine h.anchor.imp_right ?_
      rintro ⟨y, hy, hy'⟩
      exact ⟨y, List.mem_append_left _ hy, hy'⟩
    · exact Or.inr ⟨x, List.mem_append_right _ (List.mem_singleton_self x), hnow.symm⟩
  · intro hstate
    rw [Run.last_concat, hrun]
    obtain ⟨hbefore, hnow⟩ | ⟨hbefore, hsame⟩ := hout.opened hstate
    · exact ⟨x, if_pos ⟨hbefore, hstate⟩, hnow⟩
    · obtain ⟨y, hlast, hy⟩ := h.opened hbefore
      exact ⟨y, (if_neg fun hc => hc.1 hbefore).trans hlast, hsame.trans hy⟩
  · intro hstate
    rw [Run.last_concat, hrun]
    obtain ⟨hlease, gen, hprobe⟩ | ⟨hlease, hbefore, hsame⟩ := hout.leased hstate
    · rw [h.made] at hprobe
      exact ⟨x, gen, if_pos hlease, hprobe⟩
    · obtain ⟨y, gen, hlast, hy⟩ := h.leased hbefore
      exact ⟨y, gen, (if_neg hlease).trans hlast, hsame.trans hy⟩

end Stamped

/-- The stamps after every history. -/
theorem stamped_after (epoch : Time) {xs : List Turn} (hxs : Nondecreasing xs) :
    Stamped epoch xs (breakerAfter epoch xs) := by
  induction xs using List.reverseRecOn with
  | nil => exact Stamped.start epoch
  | append_singleton xs x ih =>
    obtain ⟨hold, -, hnew⟩ := List.pairwise_append.1 hxs
    rw [breakerAfter_concat]
    exact (ih hold).turn (fun y hy => hnew y hy x (List.mem_singleton_self x))
      (turn_outcome (word_after epoch xs) x)

/-! ## The age of a lease -/

/-- The stamp of a probe word, whatever its generation. -/
theorem brkProbeStamp_pack (gen stamp : ℕ) :
    brkProbeStamp (brkProbePack gen stamp) = stamp % 2 ^ 32 := by
  have hhigh : (gen &&& breakerProbeGenMask) <<< 32 % 2 ^ 64 &&& breakerProbeStampMask = 0 := by
    rw [breakerProbeStampMask, Nat.and_two_pow_sub_one_eq_mod, Nat.shiftLeft_eq]
    omega
  have hlow : stamp &&& breakerProbeStampMask = stamp % 2 ^ 32 :=
    Nat.and_two_pow_sub_one_eq_mod stamp 32
  rw [brkProbeStamp, brkProbePack, Nat.and_or_distrib_right, hhigh, Nat.zero_or, hlow,
    breakerProbeStampMask, Nat.and_two_pow_sub_one_eq_mod, Nat.mod_mod]

/-- No stamp looks older than it is, however the times stand to the epoch. -/
theorem brkProbeAge_le {epoch stamped now : ℤ} (gen : ℕ) (hnow : stamped ≤ now) :
    brkProbeAge epoch (brkProbePack gen (uintOfTime (stamped - epoch))) now ≤ now - stamped := by
  unfold brkProbeAge
  by_cases hearly : now < epoch
  · rw [if_pos hearly]
    exact Int.sub_nonneg_of_le hnow
  · rw [if_neg hearly, brkProbeStamp_pack]
    dsimp only
    rw [breakerProbeStampMask, Nat.and_two_pow_sub_one_eq_mod, Nat.and_two_pow_sub_one_eq_mod]
    have hage : ((((uintOfTime (now - epoch) % 2 ^ 32 + 2 ^ 64 -
        uintOfTime (stamped - epoch) % 2 ^ 32) % 2 ^ 64 % 2 ^ 32 : ℕ)) : ℤ) ≤ now - stamped := by
      unfold uintOfTime
      omega
    exact hage

/-! ## The result -/

/-- What a turn after the history `xs` does only when it is due. -/
structure OnlyWhenDue (epoch : Time) (xs : List Turn) (x : Turn) : Prop where
  /-- The breaker trips on a failure that is at least the `threshold`-th recorded since the
  last success, all of them less than `window` after the anchor. -/
  trip : brkState (breakerAfter epoch xs).breakerState = breakerClosed →
    brkState (breakerAfter epoch (xs ++ [x])).breakerState = breakerOpen →
      ∃ threshold window probe pre seg, x.call = .record false threshold window probe ∧
        0 < threshold ∧ 0 < window ∧ xs ++ [x] = pre ++ seg ∧
        Run.Along Breaker.turn
          (fun b y => brkState b.breakerState = breakerClosed ∧ y.success = false)
          (breakerAfter epoch pre) seg ∧
        threshold ≤ seg.countP Turn.failure ∧
        ∀ y ∈ seg, y.failure = true →
          ((breakerAfter epoch (xs ++ [x])).breakerWindowStart ≤ y.now ∨
              (breakerAfter epoch (xs ++ [x])).breakerWindowStart = 0) ∧
            y.now < (breakerAfter epoch (xs ++ [x])).breakerWindowStart + window
  /-- The accesses of the turn lead from the breaker before it to the breaker after it, -/
  whole : ∃ f, Lone x.now (breakerAfter epoch xs, x.call.entry) (breakerAfter epoch (xs ++ [x]), f)
  /-- and each of them leaves the state word or follows an edge. -/
  edges : ∀ s s', Lone x.now (breakerAfter epoch xs, x.call.entry) s → Access x.now s s' →
    s'.1.breakerState = s.1.breakerState ∨
      Edge (brkState s.1.breakerState) (brkState s'.1.breakerState)
  /-- A probe is handed out when the open window has passed since the last trip or failed
  probe, or the last lease is too old. -/
  probe : ∀ openFor, x.call = .state openFor →
    (shmBreakerState (breakerAfter epoch xs) x.now openFor).2.1 = breakerHalfOpen →
      0 < openFor ∧
        ((∃ y, Run.last Breaker.turn Breaker.Opens (.init epoch) xs = some y ∧
            openFor ≤ x.now - y.now) ∨
          (∃ y, Run.last Breaker.turn Breaker.Leases (.init epoch) xs = some y ∧
            breakerProbeLease ≤ x.now - y.now))
  /-- Under an inert policy a call opens the breaker only as the probe's own failure. -/
  inert : ∀ success threshold window probe, x.call = .record success threshold window probe →
    threshold = 0 ∨ window ≤ 0 →
      brkState (breakerAfter epoch (xs ++ [x])).breakerState = breakerOpen →
        brkState (breakerAfter epoch xs).breakerState = breakerOpen ∨
          success = false ∧ OnLease probe (breakerAfter epoch xs).breakerState

section OnlyWhenDue

variable {epoch : Time} {xs : List Turn} {b b' : Breaker} {x : Turn}

/-- A turn that trips the breaker. -/
theorem Stamped.trip (h : Stamped epoch xs b) (hx : ∀ y ∈ xs, y.now ≤ x.now)
    (hxs : Nondecreasing (xs ++ [x])) (hout : Outcome b x b')
    (hclosed : brkState b.breakerState = breakerClosed)
    (hopen : brkState b'.breakerState = breakerOpen) :
    ∃ threshold window probe pre seg, x.call = .record false threshold window probe ∧
      0 < threshold ∧ 0 < window ∧ xs ++ [x] = pre ++ seg ∧
      Run.Along Breaker.turn
        (fun b y => brkState b.breakerState = breakerClosed ∧ y.success = false)
        (breakerAfter epoch pre) seg ∧
      threshold ≤ seg.countP Turn.failure ∧
      ∀ y ∈ seg, y.failure = true →
        (b'.breakerWindowStart ≤ y.now ∨ b'.breakerWindowStart = 0) ∧
          y.now < b'.breakerWindowStart + window := by
  have hne : ¬ breakerClosed = breakerOpen := by decide
  cases hout with
  | @trips threshold window probe hcall hstate hpolicy hmany =>
    obtain ⟨⟨pre, seg, hsplit, halong, hsince, hcount⟩, hnear⟩ := h.count hx hcall hstate hpolicy
    refine ⟨threshold, window, probe, pre, seg, hcall, hpolicy.1, hpolicy.2, hsplit, halong,
      hmany.trans ((Nat.mod_le _ _).trans hcount), fun y hy hfailure => ⟨hsince y hy hfailure, ?_⟩⟩
    have hmem : y ∈ xs ++ [x] := by
      rw [hsplit]
      exact List.mem_append_right _ hy
    rw [List.mem_append, List.mem_singleton] at hmem
    obtain hmem | rfl := hmem
    · exact Int.lt_of_le_of_lt (hx y hmem) hnear
    · exact hnear
  | waits | clears | ignores => exact absurd (hclosed.symm.trans hopen) hne
  | promotes _ _ _ hstate => exact absurd (hclosed.symm.trans hstate) hne
  | reclaims _ _ _ hstate => exact absurd (hclosed.symm.trans hstate) (by decide)
  | closes _ hlease => exact absurd (hclosed.symm.trans hlease.1) (by decide)
  | reopens _ hlease => exact absurd (hclosed.symm.trans hlease.1) (by decide)
  | counts =>
    rw [restartIfPast_state, hclosed] at hopen
    exact absurd hopen hne

/-- A turn that hands out a probe. -/
theorem Stamped.probe (h : Stamped epoch xs b) (hx : ∀ y ∈ xs, y.now ≤ x.now)
    (hout : Outcome b x b') {openFor : Time} (hcall : x.call = .state openFor)
    (hleases : b.Leases x) :
    0 < openFor ∧
      ((∃ y, Run.last Breaker.turn Breaker.Opens (.init epoch) xs = some y ∧
          openFor ≤ x.now - y.now) ∨
        (∃ y, Run.last Breaker.turn Breaker.Leases (.init epoch) xs = some y ∧
          breakerProbeLease ≤ x.now - y.now)) := by
  cases hout with
  | waits _ hanswer => exact absurd hleases hanswer
  | promotes hcall' _ hpos hstate hdue =>
    cases hcall.symm.trans hcall'
    obtain ⟨y, hlast, hy⟩ := h.opened hstate
    exact ⟨hpos, Or.inl ⟨y, hlast, hy ▸ hdue⟩⟩
  | reclaims hcall' _ hpos hstate hdue =>
    cases hcall.symm.trans hcall'
    obtain ⟨y, gen, hlast, hprobe⟩ := h.leased hstate
    rw [hprobe, h.made] at hdue
    refine ⟨hpos, Or.inr ⟨y, hlast, ?_⟩⟩
    exact Int.le_trans hdue (brkProbeAge_le gen (hx y (Run.mem_of_last hlast)))
  | clears hcall' | closes hcall' | reopens hcall' | ignores hcall' | counts hcall' | trips hcall' =>
    cases hcall.symm.trans hcall'

/-- A turn under an inert policy. -/
theorem Outcome.inert (hout : Outcome b x b') {success : Bool} {threshold : ℕ} {window : Time}
    {probe : ℕ} (hcall : x.call = .record success threshold window probe)
    (hoff : threshold = 0 ∨ window ≤ 0) (hopen : brkState b'.breakerState = breakerOpen) :
    brkState b.breakerState = breakerOpen ∨ success = false ∧ OnLease probe b.breakerState := by
  have hpolicy : ∀ {threshold' window' probe'},
      x.call = .record false threshold' window' probe' → ¬ (0 < threshold' ∧ 0 < window') := by
    intro threshold' window' probe' hcall' hpos
    cases hcall.symm.trans hcall'
    obtain rfl | hwindow := hoff
    · exact Nat.lt_irrefl 0 hpos.1
    · exact Int.not_lt.2 hwindow hpos.2
  cases hout with
  | waits | clears | ignores => exact Or.inl hopen
  | promotes hcall' | reclaims hcall' => cases hcall.symm.trans hcall'
  | closes =>
    rw [brkState_pack] at hopen
    exact absurd hopen (by decide)
  | reopens hcall' hlease =>
    cases hcall.symm.trans hcall'
    exact Or.inr ⟨rfl, hlease⟩
  | counts hcall' _ hpos => exact absurd hpos (hpolicy hcall')
  | trips hcall' _ hpos => exact absurd hpos (hpolicy hcall')

end OnlyWhenDue

/-- **The breaker trips and probes only when it is due**, after every history of calls that
do not overlap, under any policies. -/
theorem trips_and_probes_when_due (epoch : Time) (xs : List Turn) (x : Turn)
    (hxs : Nondecreasing (xs ++ [x])) : OnlyWhenDue epoch xs x := by
  obtain ⟨hold, -, hnew⟩ := List.pairwise_append.1 hxs
  have hx : ∀ y ∈ xs, y.now ≤ x.now := fun y hy => hnew y hy x (List.mem_singleton_self x)
  have hstamped := stamped_after epoch hold
  have hout := outcome_after epoch xs x
  constructor
  · exact hstamped.trip hx hxs hout
  · rw [breakerAfter_concat]
    exact lone_turn _ x
  · exact fun s s' => lone_edge
  · intro openFor hcall hanswer
    refine hstamped.probe hx hout hcall ?_
    unfold Breaker.Leases
    rw [hcall]
    exact hanswer
  · exact fun success threshold window probe => hout.inert

/-- A breaker that trips at 100, and a probe at 130 whose failure is reported under the
threshold zero. -/
def inertProbe : List Turn :=
  [⟨100, .record false 1 10 breakerNoProbe⟩, ⟨130, .state 30⟩]

/-- The promises on a history whose last turn is a probe's failure under an inert policy. -/
theorem trips_and_probes_when_due_inertProbe :
    OnlyWhenDue 100 inertProbe ⟨131, .record false 0 0 1⟩ :=
  trips_and_probes_when_due 100 inertProbe _ (by
    unfold Nondecreasing inertProbe
    decide)

/-- A call with the threshold zero may open the breaker: the failure of the probe is
reported under a policy that is off. -/
theorem inert_policy_opens : ¬ ∀ (epoch : Time) (xs : List Turn) (now : Time) (success : Bool)
    (threshold : ℕ) (window : Time) (probe : ℕ),
    Nondecreasing (xs ++ [⟨now, .record success threshold window probe⟩]) →
    threshold = 0 ∨ window ≤ 0 →
    brkState (breakerAfter epoch xs).breakerState ≠ breakerOpen →
      brkState (breakerAfter epoch
        (xs ++ [⟨now, .record success threshold window probe⟩])).breakerState ≠ breakerOpen := by
  intro h
  refine h 100 inertProbe 131 false 0 0 1 ?_ (Or.inl rfl) ?_ ?_
  · unfold Nondecreasing inertProbe
    decide
  · decide
  · decide

end Shm
end CacheTurbo
