/-
# A burst of failures and the anchor of the window

Under one policy the counter of a closed breaker stays below the threshold
(`Below.turn`).  A burst is `threshold` failures in a row, within less than `window`
seconds, on a breaker that is CLOSED before the last of them.  The window is an anchor that
a failure sets to its own time when it finds it `window` seconds old, and then the counter
starts again.

If the anchor in force at the first failure is still young at the last, every failure of
the burst is added to the counter (`Counted`) and the last one trips the breaker.  If it is
not, some later failure of the burst re-anchors the window and drops the ones before it
(`Dropped`), and the breaker stays CLOSED.  `burst_trips_iff` is both: whether a burst is
detected depends on where the anchor stood when it began.
-/

import CacheTurbo.Shm.BreakerDue

namespace CacheTurbo
namespace Shm

/-! ## One policy -/

/-- The calls of `shm_breaker_record` are made under one policy. -/
def Turn.Under (threshold : ℕ) (window : Time) (x : Turn) : Prop :=
  ∀ success threshold' window' probe, x.call = .record success threshold' window' probe →
    threshold' = threshold ∧ window' = window

/-- A breaker whose counter is below the threshold. -/
structure Below (threshold : ℕ) (b : Breaker) : Prop where
  word : b.breakerState < 2 ^ 64
  fails : b.breakerFails < threshold

section Policy

variable {threshold : ℕ} {window : Time} {b b' : Breaker} {x : Turn}

/-- **A turn under the policy keeps the counter below the threshold.** -/
theorem Below.turn (hpos : 0 < threshold) (h : Below threshold b) (hx : x.Under threshold window) :
    Below threshold (b.turn x) := by
  refine ⟨turn_word h.word x, ?_⟩
  have hout := turn_outcome h.word x
  generalize b.turn x = b' at hout
  cases hout with
  | clears | closes | trips => exact hpos
  | counts hcall _ _ hfew => exact (hx _ _ _ _ hcall).1 ▸ hfew
  | _ => exact h.fails

theorem below_after (epoch : Time) (hpos : 0 < threshold) {xs : List Turn}
    (hxs : ∀ x ∈ xs, x.Under threshold window) : Below threshold (breakerAfter epoch xs) :=
  Run.after_of_along (C := fun _ x => x.Under threshold window)
    (fun _ _ h hx => h.turn hpos hx) ⟨Nat.two_pow_pos 64, hpos⟩ (Run.along_of_forall hxs)

/-- Without a success a closed breaker was closed before. -/
theorem Outcome.closed_before (hout : Outcome b x b') (hsuccess : x.success = false)
    (hclosed : brkState b'.breakerState = breakerClosed) :
    brkState b.breakerState = breakerClosed := by
  cases hout with
  | waits | clears | ignores => exact hclosed
  | promotes | reclaims =>
    rw [brkState_promote] at hclosed
    exact absurd hclosed (by decide)
  | closes hcall =>
    unfold Turn.success at hsuccess
    rw [hcall] at hsuccess
    cases hsuccess
  | reopens | trips =>
    rw [brkState_pack] at hclosed
    exact absurd hclosed (by decide)
  | counts _ hstate => exact hstate

/-- A turn that is not a failure and not a success leaves a closed breaker alone. -/
theorem Outcome.quiet (hout : Outcome b x b') (hclosed : brkState b.breakerState = breakerClosed)
    (hsuccess : x.success = false) (hfailure : x.failure = false) : b' = b := by
  have hnosuccess : ∀ {threshold window probe}, x.call ≠ .record true threshold window probe := by
    intro threshold window probe hcall
    unfold Turn.success at hsuccess
    rw [hcall] at hsuccess
    cases hsuccess
  have hnofailure : ∀ {threshold window probe}, x.call = .record false threshold window probe →
      ¬ (0 < threshold ∧ 0 < window) := by
    intro threshold window probe hcall hpos
    unfold Turn.failure at hfailure
    rw [hcall] at hfailure
    simp only [Bool.not_false, Bool.true_and, Bool.and_eq_false_imp, bne_iff_ne,
      decide_eq_false_iff_not] at hfailure
    exact hfailure hpos.1.ne' hpos.2
  cases hout with
  | waits | ignores => rfl
  | promotes _ _ _ hstate | reclaims _ _ _ hstate =>
    rw [hclosed] at hstate
    exact absurd hstate (by decide)
  | clears hcall | closes hcall => exact absurd hcall hnosuccess
  | reopens _ hlease => exact absurd (hclosed.symm.trans hlease.1) (by decide)
  | counts hcall _ hpos | trips hcall _ hpos => exact absurd hpos (hnofailure hcall)

/-- A failure under the policy, on a closed breaker: it is counted, after the window was
re-anchored if it has passed, and it trips the breaker if that makes `threshold`. -/
theorem Outcome.failure (hout : Outcome b x b') (hbelow : Below threshold b)
    (hmax : threshold < 2 ^ 64) (hunder : x.Under threshold window)
    (hclosed : brkState b.breakerState = breakerClosed) (hfailure : x.failure = true) :
    ((b.restartIfPast x.now window).breakerFails + 1 < threshold ∧
        b'.breakerWindowStart = (b.restartIfPast x.now window).breakerWindowStart ∧
        b'.breakerFails = (b.restartIfPast x.now window).breakerFails + 1 ∧
        brkState b'.breakerState = breakerClosed) ∨
      (threshold ≤ (b.restartIfPast x.now window).breakerFails + 1 ∧
        brkState b'.breakerState = breakerOpen) := by
  have hfails : ((b.restartIfPast x.now window).breakerFails + 1) % 2 ^ 64 =
      (b.restartIfPast x.now window).breakerFails + 1 := by
    refine Nat.mod_eq_of_lt ?_
    have hlt := hbelow.fails
    obtain ⟨-, -, hzero⟩ | ⟨-, hsame⟩ := restartIfPast_cases b x.now window
    · omega
    · rw [hsame]
      omega
  have hno : ∀ {success threshold window probe},
      x.call = .record success threshold window probe →
        success = false ∧ 0 < threshold ∧ 0 < window := by
    intro success threshold window probe hcall
    unfold Turn.failure at hfailure
    rw [hcall] at hfailure
    simp only [Bool.and_eq_true, Bool.not_eq_true', bne_iff_ne, decide_eq_true_eq] at hfailure
    exact ⟨hfailure.1.1, Nat.pos_of_ne_zero hfailure.1.2, hfailure.2⟩
  have hstate : ∀ {openFor}, x.call ≠ .state openFor := by
    intro openFor hcall
    unfold Turn.failure at hfailure
    rw [hcall] at hfailure
    cases hfailure
  cases hout with
  | waits hcall | promotes hcall | reclaims hcall => exact absurd hcall hstate
  | clears hcall | closes hcall => cases (hno hcall).1
  | reopens _ hlease => exact absurd (hclosed.symm.trans hlease.1) (by decide)
  | ignores hcall hskip =>
    obtain ⟨-, hthreshold, hwindow⟩ := hno hcall
    obtain hopen | hzero | hzero := hskip
    · exact absurd hclosed hopen
    · exact absurd hzero hthreshold.ne'
    · exact absurd hwindow (Int.not_lt.2 hzero)
  | counts hcall hbefore _ hfew =>
    obtain ⟨rfl, rfl⟩ := hunder _ _ _ _ hcall
    rw [hfails] at hfew
    refine Or.inl ⟨hfew, rfl, hfails, ?_⟩
    rw [restartIfPast_state]
    exact hbefore
  | trips hcall _ _ hmany =>
    obtain ⟨rfl, rfl⟩ := hunder _ _ _ _ hcall
    rw [hfails] at hmany
    exact Or.inr ⟨hmany, brkState_pack _ _⟩

end Policy

/-! ## The burst -/

/-- After the history `pre`, the turns `burst` hold `threshold` failures and no success,
within less than `window` from the first to the last, and the breaker is CLOSED before the
last. -/
structure Burst (epoch : Time) (threshold : ℕ) (window : Time) (pre burst : List Turn)
    (first last : Turn) : Prop where
  ordered : Nondecreasing (pre ++ burst)
  policy : ∀ x ∈ pre ++ burst, x.Under threshold window
  head : burst.head? = some first
  final : burst.getLast? = some last
  failed : first.failure = true ∧ last.failure = true
  unbroken : ∀ x ∈ burst, x.success = false
  count : burst.countP Turn.failure = threshold
  near : last.now - first.now < window
  closed : brkState (breakerAfter epoch (pre ++ burst.dropLast)).breakerState = breakerClosed

/-- `n` failures have been added to a counter whose window is open until after `until'`. -/
def Counted (threshold : ℕ) (window until' : Time) (n : ℕ) (b : Breaker) : Prop :=
  Below threshold b ∧ (brkState b.breakerState = breakerClosed →
    n ≤ b.breakerFails ∧ until' - b.breakerWindowStart < window)

/-- The window's anchor is `anchor` still, or it was set since `since` and dropped one of the
`n` failures. -/
def Dropped (threshold : ℕ) (anchor since : Time) (n : ℕ) (b : Breaker) : Prop :=
  Below threshold b ∧ (brkState b.breakerState = breakerClosed →
    b.breakerWindowStart = anchor ∨ since ≤ b.breakerWindowStart ∧ b.breakerFails < n)

section Burst

variable {threshold : ℕ} {window since until' anchor : Time} {b : Breaker} {x : Turn} {n : ℕ}

/-- A failure while the window is open leaves the anchor. -/
theorem restartIfPast_near {now : Time} (h : now - b.breakerWindowStart < window) :
    b.restartIfPast now window = b := by
  obtain ⟨hpast, -⟩ | ⟨-, hsame⟩ := restartIfPast_cases b now window
  · exact absurd h (Int.not_lt.2 hpast)
  · exact hsame

theorem Counted.turn (h : Counted threshold window until' n b) (hmax : threshold < 2 ^ 64)
    (hunder : x.Under threshold window) (hsuccess : x.success = false) (hx : x.now ≤ until') :
    Counted threshold window until' (n + if x.failure = true then 1 else 0) (b.turn x) := by
  obtain ⟨hbelow, hclosed⟩ := h
  have hout := turn_outcome hbelow.word x
  refine ⟨hbelow.turn (Nat.zero_lt_of_lt hbelow.fails) hunder, fun hafter => ?_⟩
  have hbefore := hout.closed_before hsuccess hafter
  obtain ⟨hn, hnear⟩ := hclosed hbefore
  cases hfailure : x.failure with
  | false =>
    rw [hout.quiet hbefore hsuccess hfailure]
    exact ⟨hn, hnear⟩
  | true =>
    have hsame := restartIfPast_near
      (Int.lt_of_le_of_lt (Int.sub_le_sub_right hx b.breakerWindowStart) hnear)
    obtain ⟨-, hanchor, hfails, -⟩ | ⟨-, hopen⟩ :=
      hout.failure hbelow hmax hunder hbefore hfailure
    · rw [hanchor, hfails, hsame, if_pos rfl]
      exact ⟨Nat.add_le_add_right hn 1, hnear⟩
    · exact absurd (hafter.symm.trans hopen) (by decide)

theorem Dropped.turn (h : Dropped threshold anchor since n b) (hmax : threshold < 2 ^ 64)
    (hunder : x.Under threshold window) (hsuccess : x.success = false) (hn : 0 < n)
    (hx : since ≤ x.now) :
    Dropped threshold anchor since (n + if x.failure = true then 1 else 0) (b.turn x) := by
  obtain ⟨hbelow, hclosed⟩ := h
  have hout := turn_outcome hbelow.word x
  refine ⟨hbelow.turn (Nat.zero_lt_of_lt hbelow.fails) hunder, fun hafter => ?_⟩
  have hbefore := hout.closed_before hsuccess hafter
  cases hfailure : x.failure with
  | false =>
    rw [hout.quiet hbefore hsuccess hfailure]
    exact hclosed hbefore
  | true =>
    obtain ⟨-, hstart, hfails, -⟩ | ⟨-, hopen⟩ :=
      hout.failure hbelow hmax hunder hbefore hfailure
    · rw [hstart, hfails, if_pos rfl]
      obtain ⟨-, hnow, hzero⟩ | ⟨-, hsame⟩ := restartIfPast_cases b x.now window
      · rw [hnow, hzero]
        exact Or.inr ⟨hx, Nat.add_lt_add_right hn 1⟩
      · rw [hsame]
        exact (hclosed hbefore).imp_right fun hd => ⟨hd.1, Nat.add_lt_add_right hd.2 1⟩
    · exact absurd (hafter.symm.trans hopen) (by decide)

/-- A run without a success that ends CLOSED was CLOSED when it began. -/
theorem closed_run {xs : List Turn} (hw : b.breakerState < 2 ^ 64)
    (hsuccess : ∀ y ∈ xs, y.success = false)
    (hclosed : brkState (Run.after Breaker.turn b xs).breakerState = breakerClosed) :
    brkState b.breakerState = breakerClosed := by
  induction xs generalizing b with
  | nil => exact hclosed
  | cons y ys ih =>
    have hrest := ih (turn_word hw y) (fun z hz => hsuccess z (List.mem_cons_of_mem _ hz)) hclosed
    exact (turn_outcome hw y).closed_before (hsuccess y (List.mem_cons_self ..)) hrest

theorem Counted.run {xs : List Turn} (h : Counted threshold window until' n b)
    (hmax : threshold < 2 ^ 64)
    (hxs : ∀ y ∈ xs, y.Under threshold window ∧ y.success = false ∧ y.now ≤ until') :
    Counted threshold window until' (n + xs.countP Turn.failure) (Run.after Breaker.turn b xs) := by
  rw [← Run.count_label Breaker.turn Turn.failure b xs]
  exact Run.after_of_counted (C := fun _ y => y.failure = true)
    (fun _ _ y hy hD _ => hy.turn hmax hD.1 hD.2.1 hD.2.2) h (Run.along_of_forall hxs) le_rfl

theorem Dropped.run {xs : List Turn} (h : Dropped threshold anchor since n b)
    (hmax : threshold < 2 ^ 64) (hn : 0 < n)
    (hxs : ∀ y ∈ xs, y.Under threshold window ∧ y.success = false ∧ since ≤ y.now) :
    Dropped threshold anchor since (n + xs.countP Turn.failure) (Run.after Breaker.turn b xs) := by
  rw [← Run.count_label Breaker.turn Turn.failure b xs]
  have hrun := Run.after_of_counted (C := fun _ y => Turn.failure y = true)
    (P := fun m b => Dropped threshold anchor since m b ∧ 0 < m)
    (D := fun _ y => y.Under threshold window ∧ y.success = false ∧ since ≤ y.now)
    (fun _ _ y hy hD _ => ⟨hy.1.turn hmax hD.1 hD.2.1 hy.2 hD.2.2, Nat.add_pos_left hy.2 _⟩)
    ⟨h, hn⟩ (Run.along_of_forall hxs) le_rfl
  exact hrun.1

end Burst

section Result

variable {epoch : Time} {threshold : ℕ} {window : Time} {pre burst : List Turn} {first last : Turn}

/-- A burst is one failure, or it has a first and a last one. -/
theorem Burst.cases (h : Burst epoch threshold window pre burst first last) :
    (burst = [first] ∧ threshold = 1) ∨
      ∃ mid, burst = (first :: mid) ++ [last] ∧ mid.countP Turn.failure + 2 = threshold := by
  have hsplit := List.dropLast_append_getLast? last h.final
  have hcount := h.count
  rw [← hsplit, List.countP_append, List.countP_singleton, if_pos h.failed.2] at hcount
  have hhead := h.head
  rw [← hsplit] at hhead
  cases hfront : burst.dropLast with
  | nil =>
    rw [hfront] at hsplit hcount hhead
    cases hhead
    exact Or.inl ⟨hsplit.symm, hcount.symm⟩
  | cons y mid =>
    rw [hfront] at hsplit hcount hhead
    cases hhead
    rw [List.countP_cons, if_pos h.failed.1] at hcount
    exact Or.inr ⟨mid, hsplit.symm, hcount⟩

/-- The first failure of a burst and the ones before the last, on the breaker `b₀`. -/
structure Opening (threshold : ℕ) (window : Time) (mid : List Turn) (first last : Turn)
    (b₀ b₁ b₂ : Breaker) : Prop where
  count : mid.countP Turn.failure + 2 = threshold
  near : last.now - first.now < window
  anchor : b₁.breakerWindowStart = (b₀.restartIfPast first.now window).breakerWindowStart
  fails : b₁.breakerFails = (b₀.restartIfPast first.now window).breakerFails + 1
  below : Below threshold b₁
  run : b₂ = Run.after Breaker.turn b₁ mid
  turns : ∀ y ∈ mid, y.Under threshold window ∧ y.success = false ∧ first.now ≤ y.now ∧
    y.now ≤ last.now
  closed : brkState b₂.breakerState = breakerClosed

/-- A burst of more than one failure is its opening and the last failure. -/
theorem Burst.opening (h : Burst epoch threshold window pre burst first last)
    (hmax : threshold < 2 ^ 64) {mid : List Turn} (hburst : burst = (first :: mid) ++ [last])
    (hcount : mid.countP Turn.failure + 2 = threshold) :
    ∃ b₁ b₂, Opening threshold window mid first last (breakerAfter epoch pre) b₁ b₂ ∧
      Outcome b₂ last (breakerAfter epoch (pre ++ burst)) ∧ Below threshold b₂ := by
  subst hburst
  have hmem : ∀ {y}, y ∈ (first :: mid) ++ [last] → y ∈ pre ++ ((first :: mid) ++ [last]) :=
    List.mem_append_right _
  have hfirst : first ∈ (first :: mid) ++ [last] := List.mem_append_left _ (List.mem_cons_self ..)
  have hmid : ∀ {y}, y ∈ mid → y ∈ (first :: mid) ++ [last] := fun hy =>
    List.mem_append_left _ (List.mem_cons_of_mem _ hy)
  have hsuccess := h.unbroken
  have hpolicy := fun y hy => h.policy y (hmem (y := y) hy)
  obtain ⟨-, hburst, -⟩ := List.pairwise_append.1 h.ordered
  obtain ⟨hfront, -, hlast⟩ := List.pairwise_append.1 hburst
  have hafter : ∀ xs, breakerAfter epoch (pre ++ xs) =
      Run.after Breaker.turn (breakerAfter epoch pre) xs := fun xs => Run.after_append ..
  have hpos : 0 < threshold := by omega
  have hbelow : Below threshold (breakerAfter epoch pre) :=
    below_after epoch hpos fun y hy => h.policy y (List.mem_append_left _ hy)
  set b₀ := breakerAfter epoch pre with hb₀
  set b₁ := b₀.turn first with hb₁
  set b₂ := Run.after Breaker.turn b₁ mid with hb₂
  have hbelow₁ : Below threshold b₁ := hbelow.turn hpos (hpolicy first hfirst)
  have hbelow₂ : Below threshold b₂ := Run.after_of_along (C := fun _ y => y.Under threshold window)
    (fun _ _ hb hy => hb.turn hpos hy) hbelow₁
    (Run.along_of_forall fun y hy => hpolicy y (hmid hy))
  have hclosed₂ : brkState b₂.breakerState = breakerClosed := by
    have hclosed := h.closed
    rwa [List.dropLast_concat, hafter] at hclosed
  have hclosed₁ := closed_run hbelow₁.word (fun y hy => hsuccess y (hmid hy)) hclosed₂
  have hout := turn_outcome hbelow.word first
  have hclosed₀ := hout.closed_before (hsuccess first hfirst) hclosed₁
  refine ⟨b₁, b₂, ?_, ?_, hbelow₂⟩
  · obtain ⟨-, hanchor, hfails, -⟩ | ⟨-, hopen⟩ :=
      hout.failure hbelow hmax (hpolicy first hfirst) hclosed₀ h.failed.1
    · refine ⟨hcount, h.near, hanchor, hfails, hbelow₁, rfl, fun y hy => ?_, hclosed₂⟩
      exact ⟨hpolicy y (hmid hy), hsuccess y (hmid hy), (List.pairwise_cons.1 hfront).1 y hy,
        hlast y (List.mem_cons_of_mem _ hy) last (List.mem_singleton_self last)⟩
    · exact absurd (hclosed₁.symm.trans hopen) (by decide)
  · rw [hafter, Run.after_append]
    exact turn_outcome hbelow₂.word last

/-- The anchor in force at the first failure is young at the last: the last one trips. -/
theorem Burst.trips (h : Burst epoch threshold window pre burst first last)
    (hmax : threshold < 2 ^ 64) {mid : List Turn} (hburst : burst = (first :: mid) ++ [last])
    (hcount : mid.countP Turn.failure + 2 = threshold)
    (hanchor : window ≤ first.now - (breakerAfter epoch pre).breakerWindowStart ∨
      last.now - (breakerAfter epoch pre).breakerWindowStart < window) :
    brkState (breakerAfter epoch (pre ++ burst)).breakerState = breakerOpen := by
  obtain ⟨b₁, b₂, hopening, hout, hbelow⟩ := h.opening hmax hburst hcount
  have hunder : last.Under threshold window := h.policy last
    (List.mem_append_right _ (List.mem_of_getLast? h.final))
  have hcounted : Counted threshold window last.now 1 b₁ := by
    refine ⟨hopening.below, fun _ => ?_⟩
    rw [hopening.anchor, hopening.fails]
    obtain ⟨-, hnow, -⟩ | ⟨hnear, hsame⟩ :=
      restartIfPast_cases (breakerAfter epoch pre) first.now window
    · rw [hnow]
      exact ⟨Nat.le_add_left .., hopening.near⟩
    · rw [hsame]
      exact ⟨Nat.le_add_left .., hanchor.resolve_left (Int.not_le.2 hnear)⟩
  have hrun := hcounted.run hmax fun y hy =>
    have ht := hopening.turns y hy
    ⟨ht.1, ht.2.1, ht.2.2.2⟩
  rw [← hopening.run] at hrun
  obtain ⟨hfails, hnear⟩ := hrun.2 hopening.closed
  obtain ⟨hfew, -⟩ | ⟨-, hopen⟩ := hout.failure hbelow hmax hunder hopening.closed h.failed.2
  · rw [restartIfPast_near hnear] at hfew
    omega
  · exact hopen

/-- The anchor in force at the first failure runs out within the burst: the failures before
the next anchor are dropped, and the breaker stays CLOSED. -/
theorem Burst.missed (h : Burst epoch threshold window pre burst first last)
    (hmax : threshold < 2 ^ 64) {mid : List Turn} (hburst : burst = (first :: mid) ++ [last])
    (hcount : mid.countP Turn.failure + 2 = threshold)
    (hfirst : first.now - (breakerAfter epoch pre).breakerWindowStart < window)
    (hlast : window ≤ last.now - (breakerAfter epoch pre).breakerWindowStart) :
    brkState (breakerAfter epoch (pre ++ burst)).breakerState = breakerClosed := by
  obtain ⟨b₁, b₂, hopening, hout, hbelow⟩ := h.opening hmax hburst hcount
  have hunder : last.Under threshold window := h.policy last
    (List.mem_append_right _ (List.mem_of_getLast? h.final))
  have hdropped : Dropped threshold (breakerAfter epoch pre).breakerWindowStart first.now 1 b₁ := by
    refine ⟨hopening.below, fun _ => Or.inl ?_⟩
    rw [hopening.anchor, restartIfPast_near hfirst]
  have hrun := hdropped.run hmax Nat.one_pos fun y hy =>
    have ht := hopening.turns y hy
    ⟨ht.1, ht.2.1, ht.2.2.1⟩
  rw [← hopening.run] at hrun
  obtain ⟨-, -, -, hclosed⟩ | ⟨hmany, -⟩ :=
    hout.failure hbelow hmax hunder hopening.closed h.failed.2
  · exact hclosed
  · obtain hstill | ⟨hsince, hfails⟩ := hrun.2 hopening.closed
    · obtain ⟨-, -, hzero⟩ | ⟨hnear, -⟩ := restartIfPast_cases b₂ last.now window
      · omega
      · rw [hstill] at hnear
        exact absurd hlast (Int.not_le.2 hnear)
    · have hnear : last.now - b₂.breakerWindowStart < window :=
        Int.lt_of_le_of_lt (Int.sub_le_sub_left hsince _) hopening.near
      rw [restartIfPast_near hnear] at hmany
      omega

/-- **Which bursts the breaker detects.**  It is OPEN after a burst if and only if the
burst's first failure sets the anchor, or the anchor it finds is less than `window` old at
the last failure. -/
theorem burst_trips_iff (h : Burst epoch threshold window pre burst first last)
    (hmax : threshold < 2 ^ 64) :
    brkState (breakerAfter epoch (pre ++ burst)).breakerState = breakerOpen ↔
      window ≤ first.now - (breakerAfter epoch pre).breakerWindowStart ∨
        last.now - (breakerAfter epoch pre).breakerWindowStart < window := by
  obtain ⟨rfl, rfl⟩ | ⟨mid, hburst, hcount⟩ := h.cases
  · cases h.final
    refine iff_of_true ?_ ?_
    · have hclosed := h.closed
      rw [List.dropLast_singleton, List.append_nil] at hclosed
      have hbelow : Below 1 (breakerAfter epoch pre) :=
        below_after epoch Nat.one_pos fun y hy => h.policy y (List.mem_append_left _ hy)
      have hunder : first.Under 1 window :=
        h.policy first (List.mem_append_right _ (List.mem_singleton_self first))
      obtain ⟨hfew, -⟩ | ⟨-, hopen⟩ :=
        (outcome_after epoch pre first).failure hbelow hmax hunder hclosed h.failed.1
      · omega
      · exact hopen
    · exact (Decidable.em _).imp_right Int.not_le.1
  · constructor
    · intro hopen
      by_contra hnot
      rw [not_or] at hnot
      have hclosed := h.missed hmax hburst hcount (Int.not_le.1 hnot.1) (Int.not_lt.1 hnot.2)
      exact absurd (hclosed.symm.trans hopen) (by decide)
    · exact h.trips hmax hburst hcount

end Result

/-- An outcome reported under the policy "two failures in ten seconds". -/
def report (success : Bool) (now : Time) : Turn := ⟨now, .record success 2 10 breakerNoProbe⟩

theorem report_under (success : Bool) (now : Time) : (report success now).Under 2 10 := by
  intro success' threshold window probe hcall
  cases hcall
  exact ⟨rfl, rfl⟩

/-- Two failures in a row within less than ten seconds, after the turns `pre`. -/
theorem burst_reports {epoch now now' : Time} {pre : List Turn}
    (hordered : Nondecreasing (pre ++ [report false now, report false now']))
    (hpre : ∀ x ∈ pre, x.Under 2 10) (hnear : now' - now < 10)
    (hclosed : brkState (breakerAfter epoch (pre ++ [report false now])).breakerState =
      breakerClosed) :
    Burst epoch 2 10 pre [report false now, report false now'] (report false now)
      (report false now') where
  ordered := hordered
  policy := by
    intro x hx
    simp only [List.mem_append, List.mem_cons, List.not_mem_nil, or_false] at hx
    obtain hx | rfl | rfl := hx
    · exact hpre x hx
    · exact report_under _ _
    · exact report_under _ _
  head := rfl
  final := rfl
  failed := ⟨rfl, rfl⟩
  unbroken := by
    intro x hx
    simp only [List.mem_cons, List.not_mem_nil, or_false] at hx
    obtain rfl | rfl := hx <;> rfl
  count := rfl
  near := hnear
  closed := hclosed

/-- Two failures within five seconds, the first of which sets the anchor. -/
theorem burst_trips_iff_pair :
    brkState (breakerAfter 0 ([] ++ [report false 100, report false 105])).breakerState =
        breakerOpen ↔
      (10 : Time) ≤ 100 - (breakerAfter 0 []).breakerWindowStart ∨
        (105 : Time) - (breakerAfter 0 []).breakerWindowStart < 10 := by
  refine burst_trips_iff (burst_reports ?_ ?_ ?_ ?_) (by decide)
  · unfold Nondecreasing report
    decide
  · exact fun x hx => absurd hx List.not_mem_nil
  · decide
  · decide

/-- A failure at 100 sets the anchor, and a success clears the count but not the anchor.
The failures at 109 and 111 are a burst, and the second one drops the first. -/
theorem burst_over_anchor : ¬ ∀ (epoch : Time) (threshold : ℕ) (window : Time)
    (pre burst : List Turn) (first last : Turn), threshold < 2 ^ 64 →
    Burst epoch threshold window pre burst first last →
      brkState (breakerAfter epoch (pre ++ burst)).breakerState = breakerOpen := by
  intro h
  have hopen := h 0 2 10 [report false 100, report true 101] [report false 109, report false 111]
    (report false 109) (report false 111) (by decide) (burst_reports
      (by
        unfold Nondecreasing report
        decide)
      (by
        intro x hx
        simp only [List.mem_cons, List.not_mem_nil, or_false] at hx
        obtain rfl | rfl := hx <;> exact report_under _ _)
      (by decide) (by decide))
  exact absurd hopen (by decide)

end Shm
end CacheTurbo
