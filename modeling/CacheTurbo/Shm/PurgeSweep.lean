/-
# Purging everything beside other workers

`ngx_http_cache_turbo_shm_purge_all` reads `n_entries` under one hold of the mutex
and drops the nodes in batches, one hold a batch, so that other workers run
between any two of them.  `PurgeSweep` is the call between two holds: its budget,
`*purged` and the answer so far.  An event of a run is its next hold (`none`), or
anything another worker does to the zone or to the bodies on loan.

Three fields are not of the code: the zone at the end of the last hold, and how
many nodes went in the call's own holds and in the other workers' steps.
-/

import CacheTurbo.Shm.Lifetime

namespace CacheTurbo
namespace Shm

/-- A `shm_purge_all` call between two holds of the mutex. -/
structure PurgeSweep where
  loans : Loans
  remaining : ℕ
  purged : ℕ
  rc : Rc
  returned : Bool
  last : Zone
  dropped : ℕ
  removed : ℕ
  holds : ℕ

namespace PurgeSweep

/-- The first hold: the budget is `n_entries`. -/
def start (s : Loans) : PurgeSweep where
  loans := s
  remaining := s.zone.nEntries
  purged := 0
  rc := if s.zone.nEntries = 0 ∧ s.zone.resident ≠ [] then .again else .ok
  returned := decide (s.zone.nEntries = 0)
  last := s.zone
  dropped := 0
  removed := 0
  holds := 0

variable (rb : Rbtree)

/-- One hold of the loop: a batch, then the answer and whether the loop goes on. -/
def hold (w : PurgeSweep) : PurgeSweep :=
  if w.returned then w
  else
    let r := purgeBatch rb w.loans.zone w.remaining
    let remaining := w.remaining - r.2
    let rc := if r.1.resident ≠ [] ∧ (remaining = 0 ∨ r.2 = 0) then .again else w.rc
    { loans := w.loans.step rb (.op 0 (.purgeBatch w.remaining))
      remaining := remaining
      purged := w.purged + r.2
      rc := rc
      returned := decide (r.2 = 0 ∨ rc ≠ .ok ∨ remaining = 0)
      last := r.1
      dropped := w.dropped + (w.loans.zone.resident.length - r.1.resident.length)
      removed := w.removed
      holds := w.holds + 1 }

/-- A step of another worker. -/
def other (w : PurgeSweep) (e : Event) : PurgeSweep :=
  let s := w.loans.step rb e
  { w with
    loans := s
    removed := w.removed + (w.loans.zone.resident.length - s.zone.resident.length) }

/-- What happens next. -/
def step (w : PurgeSweep) : Option Event → PurgeSweep
  | none => w.hold rb
  | some e => w.other rb e

end PurgeSweep

variable {held pending : List BlobId} {z : Zone} (rb : Rbtree)

/-! ### One batch -/

/-- One inner loop of a batch: each round takes one node, and the loop stops early
only when its queue is empty. -/
theorem Wf.dropHeads_count (h : Wf held pending [] [] [] z) (queue : Zone → List Addr)
    (hqueue : ∀ z, ∀ a ∈ queue z, a ∈ z.resident) (limit : ℕ) :
    let r := Shm.dropHeads rb queue limit z
    r.2 ≤ limit ∧ r.1.resident.length + r.2 = z.resident.length ∧
      (r.2 < limit → queue r.1 = []) ∧ ∀ a ∈ r.1.lru, a ∈ z.lru := by
  induction limit generalizing z with
  | zero => exact ⟨le_rfl, rfl, by simp, fun _ ha => ha⟩
  | succ limit ih =>
    unfold Shm.dropHeads
    cases hq : queue z with
    | nil => exact ⟨Nat.zero_le _, rfl, fun _ => hq, fun _ ha => ha⟩
    | cons head rest =>
      have ha : head ∈ z.resident := hqueue z head (hq ▸ List.mem_cons_self ..)
      obtain ⟨hle, hlen, hstop, hlru⟩ := ih (h.drop rb ha)
      have hpos := List.length_pos_of_mem ha
      rw [h.resident_drop rb head, List.length_erase_of_mem ha] at hlen
      dsimp only at hle hlen hstop ⊢
      refine ⟨Nat.succ_le_succ hle, by omega, fun hlt => hstop (by omega), fun a hmem => ?_⟩
      have hkept := hlru a hmem
      rw [lru_dropLocked] at hkept
      exact List.mem_of_mem_erase hkept

/-- **One batch of `shm_purge_all`** takes as many nodes as it counts, no more than
the budget, and none only when both queues are empty. -/
theorem Wf.purgeBatch_count (h : Wf held pending [] [] [] z) {remaining : ℕ}
    (hpos : 0 < remaining) :
    let r := Shm.purgeBatch rb z remaining
    r.2 ≤ remaining ∧ r.1.resident.length + r.2 = z.resident.length ∧
      (r.2 = 0 → r.1.resident = []) := by
  set limit := min purgeBatchMax remaining with hlimit
  have hlpos : 0 < limit := Nat.lt_min.2 ⟨by decide, hpos⟩
  have hle : limit ≤ remaining := Nat.min_le_right _ _
  obtain ⟨h₁, -⟩ := h.dropHeads rb Zone.lru (fun _ _ ha => List.mem_append_left _ ha) limit
  obtain ⟨hle₁, hlen₁, hstop₁, -⟩ := h.dropHeads_count rb Zone.lru
    (fun _ _ ha => List.mem_append_left _ ha) limit
  set r := Shm.dropHeads rb Zone.lru limit z with hr
  obtain ⟨hle₂, hlen₂, hstop₂, hlru⟩ := h₁.dropHeads_count rb Zone.lruProtected
    (fun _ _ ha => List.mem_append_right _ ha) (limit - r.2)
  set s := Shm.dropHeads rb Zone.lruProtected (limit - r.2) r.1 with hs
  have hbatch : Shm.purgeBatch rb z remaining = (s.1, r.2 + s.2) := rfl
  rw [hbatch]
  dsimp only
  refine ⟨by omega, by omega, fun hzero => ?_⟩
  have hlru₁ : r.1.lru = [] := hstop₁ (by omega)
  have hprot : s.1.lruProtected = [] := hstop₂ (by omega)
  have hlru₂ : s.1.lru = [] := by
    refine List.eq_nil_iff_forall_not_mem.2 fun a ha => ?_
    have hmem := hlru a ha
    rw [hlru₁] at hmem
    cases hmem
  unfold Zone.resident
  rw [hlru₂, hprot]
  rfl

namespace PurgeSweep

/-- What holds of a call between any two events; `n` is its first budget. -/
structure Inv (n : ℕ) (w : PurgeSweep) : Prop where
  ok : w.loans.Ok
  budget : w.remaining + w.purged = n
  counted : w.purged = w.dropped
  progress : w.holds ≤ w.purged + if w.returned then 1 else 0
  going : w.returned = false → w.rc = .ok ∧ 0 < w.remaining
  honest_ok : w.returned = true → w.rc = .ok → w.last.resident = []
  honest_again : w.returned = true → w.rc ≠ .ok → w.rc = .again ∧ w.last.resident ≠ []

theorem Inv.start {s : Loans} (h : s.Ok) : Inv s.zone.nEntries (start s) where
  ok := h
  budget := rfl
  counted := rfl
  progress := Nat.zero_le _
  going hret := by
    have hne : s.zone.nEntries ≠ 0 := of_decide_eq_false hret
    exact ⟨if_neg fun hc => hne hc.1, Nat.pos_of_ne_zero hne⟩
  honest_ok hret hok := by
    have hzero : s.zone.nEntries = 0 := of_decide_eq_true hret
    by_contra hne
    have hagain : (PurgeSweep.start s).rc = .again := if_pos ⟨hzero, hne⟩
    rw [hok] at hagain
    cases hagain
  honest_again hret hne := by
    by_cases hc : s.zone.nEntries = 0 ∧ s.zone.resident ≠ []
    · exact ⟨if_pos hc, hc.2⟩
    · exact absurd (if_neg hc) hne

/-- **One hold.** -/
theorem Inv.hold {n : ℕ} {w : PurgeSweep} (h : Inv n w) : Inv n (w.hold rb) := by
  unfold PurgeSweep.hold
  by_cases hret : w.returned = true
  · rw [if_pos hret]
    exact h
  · rw [if_neg hret]
    have hgo : w.returned = false := Bool.not_eq_true _ ▸ hret
    obtain ⟨hrc, hpos⟩ := h.going hgo
    obtain ⟨hle, hlen, hempty⟩ := h.ok.wf.purgeBatch_count rb hpos
    have hbudget := h.budget
    have hcounted := h.counted
    have hprogress := h.progress
    simp only [hgo, Bool.false_eq_true, ↓reduceIte] at hprogress
    dsimp only at hle hlen hempty ⊢
    set r := purgeBatch rb w.loans.zone w.remaining with hr
    rw [hrc]
    have hok : (w.loans.step rb (.op 0 (.purgeBatch w.remaining))).Ok := Loans.Ok.step rb h.ok _
    by_cases hc : r.1.resident ≠ [] ∧ (w.remaining - r.2 = 0 ∨ r.2 = 0)
    · have hpos' : 0 < r.2 := Nat.pos_of_ne_zero fun hz => hc.1 (hempty hz)
      rw [if_pos hc, decide_eq_true (Or.inr (Or.inl (by simp)))]
      refine ⟨hok, by dsimp only; omega, by dsimp only; omega, ?_, by simp, by simp,
        fun _ _ => ⟨rfl, hc.1⟩⟩
      simp only [↓reduceIte]
      omega
    · rw [if_neg hc]
      by_cases hend : r.2 = 0 ∨ Rc.ok ≠ .ok ∨ w.remaining - r.2 = 0
      · rw [decide_eq_true hend]
        refine ⟨hok, by dsimp only; omega, by dsimp only; omega, ?_, by simp, fun _ _ => ?_,
          fun _ hne => absurd rfl hne⟩
        · simp only [↓reduceIte]
          omega
        · by_contra hne
          refine hc ⟨hne, ?_⟩
          rcases hend with hz | hno | hz
          · exact Or.inr hz
          · exact absurd rfl hno
          · exact Or.inl hz
      · rw [decide_eq_false hend]
        have hpos' : 0 < r.2 := Nat.pos_of_ne_zero fun hz => hend (Or.inl hz)
        have hleft : w.remaining - r.2 ≠ 0 := fun hz => hend (Or.inr (Or.inr hz))
        refine ⟨hok, by dsimp only; omega, by dsimp only; omega, ?_,
          fun _ => ⟨rfl, Nat.pos_of_ne_zero hleft⟩, by simp, by simp⟩
        simp only [Bool.false_eq_true, ↓reduceIte]
        omega

/-- **A step of another worker** leaves what the call holds alone. -/
theorem Inv.other {n : ℕ} {w : PurgeSweep} (h : Inv n w) (e : Event) : Inv n (w.other rb e) :=
  ⟨Loans.Ok.step rb h.ok e, h.budget, h.counted, h.progress, h.going, h.honest_ok,
    h.honest_again⟩

theorem Inv.step {n : ℕ} {w : PurgeSweep} (h : Inv n w) (e : Option Event) :
    Inv n (w.step rb e) := by
  cases e with
  | none => exact h.hold rb
  | some e => exact h.other rb e

/-! ### Nobody inserts -/

/-- No digest gets a node. -/
def NoInsertion (z z' : Zone) : Prop := ∀ k, lookup z k = none → lookup z' k = none

/-- The event is a hold of the call, or makes no digest resident. -/
def Quiet (w : PurgeSweep) (e : Option Event) : Prop :=
  ∀ other, e = some other → NoInsertion w.loans.zone (w.loans.step rb other).zone

/-- Without an insertion the population does not grow. -/
theorem population_le {held' pending' : List BlobId} {z' : Zone} (h : Wf held pending [] [] [] z)
    (h' : Wf held' pending' [] [] [] z') (hno : NoInsertion z z') :
    z'.resident.length ≤ z.resident.length := by
  have hkeys : ∀ {y : Zone}, Queues [] y → (y.resident.map fun a => (y.mem a).key).Nodup := by
    intro y hy
    refine (List.nodup_map_iff_inj_on hy.resident_nodup).2 fun a ha b hb he => ?_
    have hfa := (hy.lookup_iff (y.mem a).key a).2 ⟨Or.inl ha, rfl⟩
    have hfb := (hy.lookup_iff (y.mem b).key b).2 ⟨Or.inl hb, rfl⟩
    rw [← he] at hfb
    exact Option.some.inj (hfa.symm.trans hfb)
  have hsub : (z'.resident.map fun a => (z'.mem a).key) ⊆
      z.resident.map fun a => (z.mem a).key := by
    intro k hk
    obtain ⟨a, ha, rfl⟩ := List.mem_map.1 hk
    have hfound := (h'.queues.lookup_iff (z'.mem a).key a).2 ⟨Or.inl ha, rfl⟩
    cases hl : lookup z (z'.mem a).key with
    | none =>
      rw [hno _ hl] at hfound
      cases hfound
    | some b =>
      obtain ⟨hb, hk⟩ := h.queues.lookup_resident hl
      exact List.mem_map.2 ⟨b, hb, hk⟩
  have hlen := (List.subperm_of_subset (hkeys h'.queues) hsub).length_le
  rwa [List.length_map, List.length_map] at hlen

/-- What holds besides when nobody inserts; `n` is the first population. -/
structure Alone (n : ℕ) (w : PurgeSweep) : Prop where
  inv : Inv n w
  population : w.loans.zone.resident.length + w.purged + w.removed = n
  ok : w.rc = .ok
  gone : w.returned = true → w.loans.zone.resident = []

theorem Alone.start {s : Loans} (h : s.Ok) : Alone s.zone.resident.length (start s) := by
  have hcount : s.zone.nEntries = s.zone.resident.length := by
    rw [h.wf.queues.nEntries, List.append_nil]
  have hinv := Inv.start h
  rw [hcount] at hinv
  have hgone : s.zone.nEntries = 0 → s.zone.resident = [] := fun hz =>
    List.eq_nil_of_length_eq_zero (hcount ▸ hz)
  exact ⟨hinv, rfl, if_neg fun hc => hc.2 (hgone hc.1), fun hret => hgone (of_decide_eq_true hret)⟩

theorem Alone.step {n : ℕ} {w : PurgeSweep} (h : Alone n w) (e : Option Event)
    (hquiet : Quiet rb w e) : Alone n (w.step rb e) := by
  have hinv := h.inv.step rb e
  have hpop := h.population
  cases e with
  | some e =>
    have hle := population_le h.inv.ok.wf hinv.ok.wf (hquiet e rfl)
    refine ⟨hinv, ?_, h.ok, fun hret => ?_⟩
    · show (w.loans.step rb e).zone.resident.length + w.purged +
        (w.removed + (w.loans.zone.resident.length - (w.loans.step rb e).zone.resident.length)) = n
      dsimp only [PurgeSweep.step, PurgeSweep.other] at hle
      omega
    · have hnil := h.gone hret
      rw [hnil] at hle
      exact List.eq_nil_of_length_eq_zero (Nat.le_zero.1 hle)
  | none =>
    show Alone n (w.hold rb)
    have hinv' : Inv n (w.hold rb) := hinv
    unfold PurgeSweep.hold at hinv' ⊢
    by_cases hret : w.returned = true
    · rw [if_pos hret]
      exact h
    · rw [if_neg hret] at hinv' ⊢
      have hgo : w.returned = false := Bool.not_eq_true _ ▸ hret
      obtain ⟨hrc, hpos⟩ := h.inv.going hgo
      obtain ⟨hle, hlen, hempty⟩ := h.inv.ok.wf.purgeBatch_count rb hpos
      have hbudget := h.inv.budget
      set r := purgeBatch rb w.loans.zone w.remaining with hr
      -- the budget covers what is still queued
      have hno : ¬(r.1.resident ≠ [] ∧ (w.remaining - r.2 = 0 ∨ r.2 = 0)) := by
        rintro ⟨hne, hz | hz⟩
        · have hlpos := List.length_pos_of_ne_nil hne
          omega
        · exact hne (hempty hz)
      refine ⟨hinv', ?_, ?_, fun hend => ?_⟩
      · show r.1.resident.length + (w.purged + r.2) + w.removed = n
        omega
      · dsimp only
        rw [if_neg hno]
        exact hrc
      · show r.1.resident = []
        have hok := hinv'.honest_ok hend
        dsimp only at hok
        rw [if_neg hno] at hok
        exact hok hrc

/-- A call that returned stays so. -/
theorem returned_run {w : PurgeSweep} (h : w.returned = true) (run : List (Option Event)) :
    (Run.after (step rb) w run).returned = true := by
  refine Run.after_invariant (P := fun w : PurgeSweep => w.returned = true) (fun w e hw => ?_) h run
  cases e with
  | some e => exact hw
  | none =>
    show (w.hold rb).returned = true
    unfold PurgeSweep.hold
    rw [if_pos hw]
    exact hw

/-- Until the call returns every hold counts. -/
theorem holds_count (w : PurgeSweep) (run : List (Option Event)) :
    (Run.after (step rb) w run).returned = true ∨
      (Run.after (step rb) w run).holds = w.holds + run.countP Option.isNone := by
  induction run generalizing w with
  | nil => exact Or.inr rfl
  | cons e run ih =>
    rw [Run.after_cons]
    cases e with
    | some e =>
      rw [List.countP_cons_of_neg (by simp)]
      exact ih (w.other rb e)
    | none =>
      rw [List.countP_cons_of_pos (by simp)]
      by_cases hret : w.returned = true
      · have hsame : w.step rb none = w := if_pos hret
        rw [hsame]
        exact Or.inl (returned_run rb hret run)
      · have hone : (w.step rb none).holds = w.holds + 1 := by
          show (w.hold rb).holds = w.holds + 1
          unfold PurgeSweep.hold
          rw [if_neg hret]
        refine (ih (w.step rb none)).imp id fun heq => heq.trans ?_
        rw [hone]
        omega

/-- A zone after start-up, with a slab that has room, in which one page was stored. -/
def onePage : Loans :=
  (Loans.fresh (blankZone some 0)).step Rbtree.unbalanced
    (.op 0 (.store (Vector.replicate 32 0) 0 [1] 60 0 false))

theorem onePage_ok : onePage.Ok :=
  Loans.Ok.step Rbtree.unbalanced ⟨Wf.blankZone _ _, by simp [Loans.fresh]⟩ _

/-- Another worker purges the page between the first two holds. -/
def takenBefore : List (Option Event) := [some (.op 0 (.purgeKey (Vector.replicate 32 0))), none]

end PurgeSweep

end Shm
end CacheTurbo
