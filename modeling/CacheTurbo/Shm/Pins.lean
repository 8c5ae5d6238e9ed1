/-
# The body behind a pin

Several operations hand the request a reference on a body (`Answer.pins`).  It is
always the body of the node under the digest the operation worked on: the one
just stored, the fresh one of a claim, or the one a lookup found.
-/

import CacheTurbo.Shm.Record

namespace CacheTurbo
namespace Shm

variable {held pending : List BlobId} {z z' : Zone}

/-- The node under a digest refers to the body `b`. -/
def Carries (z : Zone) (keyHash : KeyHash) (b : BlobId) : Prop :=
  ∃ c, view z keyHash = some c ∧ c.data = some b

theorem Carries.congr {k : KeyHash} {b : BlobId} (h : Carries z k b)
    (hview : view z' k = view z k) : Carries z' k b := by
  obtain ⟨c, hc, hb⟩ := h
  exact ⟨c, hview.trans hc, hb⟩

theorem carries_lookup {k : KeyHash} {a : Addr} {b : BlobId} (hl : lookup z k = some a)
    (hb : (z.mem a).data = some b) : Carries z k b := ⟨_, view_lookup hl, hb⟩

/-- What is carried is what is recorded. -/
theorem Carries.record {k : KeyHash} {b : BlobId} (h : Carries z k b) :
    ∃ r, Shm.record z k = some r ∧ r.body = (z.blob b).body := by
  obtain ⟨c, hc, hb⟩ := h
  exact ⟨_, record_of_view hc hb, rfl⟩

/-! ## Stores -/

theorem StoreEffect.pins {now freshTtl staleTtl : Time} {data : List UInt8} {kind : NodeKind}
    {k : KeyHash} {rc : Rc} {pin : Option BlobId}
    (he : StoreEffect z k now data freshTtl staleTtl kind z' rc pin) :
    ∀ b ∈ pin.toList, Carries z' k b := by
  intro b hb
  rcases he with ⟨-, hpin, -⟩ | ⟨-, b', hpin, -, hview⟩
  · rw [hpin] at hb
    cases hb
  · rcases hpin with hpin | hpin
    · rw [hpin] at hb
      cases hb
    · rw [hpin] at hb
      obtain rfl := List.mem_singleton.1 hb
      exact ⟨_, hview, rfl⟩

/-! ## Claims -/

variable (rb : Rbtree)

theorem claimLocked_pins (z : Zone) (hash : UInt32) (k : KeyHash) (lockTtl now : Time)
    (pin : Bool) :
    let r := claimLocked rb z hash k lockTtl (lookup z k) now pin
    ∀ b ∈ r.2.freshData.toList, Carries r.1 k b := by
  unfold claimLocked
  cases hl : lookup z k with
  | some a =>
    dsimp only
    split_ifs
    · intro b hb
      have hdata : (z.mem a).data = some b := Option.mem_toList.1 hb
      exact (carries_lookup hl hdata).congr (congrFun (view_pinData z _) k)
    all_goals exact fun b hb => absurd hb (by simp)
  | none =>
    dsimp only
    cases allocEvict rb z now sizeofNode with
    | mk z₁ p =>
      cases p with
      | none => exact fun b hb => absurd hb (by simp)
      | some a => exact fun b hb => absurd hb (by simp)

/-- A claim that does not pin hands nothing out. -/
theorem claim_freshData (z : Zone) (k : KeyHash) (hash : UInt32) (now lockTtl : Time) :
    (claim rb z k hash now lockTtl).2.freshData = none := by
  unfold claim claimLocked
  cases lookup z k with
  | some a =>
    dsimp only
    split_ifs <;> first | rfl | contradiction
  | none =>
    dsimp only
    cases allocEvict rb z now sizeofNode with
    | mk z₁ p => cases p <;> rfl

theorem Wf.resolveMiss_pins (h : Wf held pending [] [] [] z) (k : KeyHash) (hash : UInt32)
    (now : Time) (minUses : ℤ) (window lockTtl : Time) :
    let r := Shm.resolveMiss rb z k hash now minUses window lockTtl
    ∀ b ∈ r.2.2.freshData.toList, Carries r.1 k b := by
  obtain ⟨-, -, -, hkeep⟩ := h.countMissLocked rb k hash minUses window now
  unfold Shm.resolveMiss
  dsimp only
  cases hr : Shm.countMissLocked rb z k hash minUses window (lookup z k) now with
  | mk z₁ rc =>
    rw [hr] at hkeep
    have hctn : (lookup z k).or (lookup z₁ k) = lookup z₁ k := by
      cases hl : lookup z k with
      | none => rfl
      | some a => exact (hkeep a hl).symm
    cases rc with
    | declined => exact fun b hb => absurd hb (by simp)
    | ok | error | again =>
      dsimp only
      rw [hctn]
      exact claimLocked_pins rb z₁ hash k lockTtl now true

/-! ## Lookups -/

theorem Wf.serveStale_pins (h : Wf held pending [] [] [] z) {k : KeyHash} {a : Addr}
    (hl : lookup z k = some a) (hash : UInt32) (now : Time) (q : L1Req) :
    ∀ b ∈ (Shm.serveStale z a hash now q).2.pins, Carries z k b := by
  obtain ⟨ha, -⟩ := h.queues.lookup_resident hl
  obtain ⟨h1, hk1, hp1⟩ := h.touchLru ha now q.protectedPct hash
  unfold Shm.serveStale
  dsimp only
  set z₁ := Shm.touchLru z a now q.protectedPct hash
  have hl₁ : lookup z₁ k = some a := (hk1.lookup_eq hp1 h.queues h1.queues k).trans hl
  have hview₁ : view z₁ = view z := hk1.view_eq hp1 h.queues h1.queues
  have hdata : ∀ b, b ∈ (z₁.mem a).data.toList → Carries z k b := fun b hb =>
    (carries_lookup hl₁ (Option.mem_toList.1 hb)).congr (congrFun hview₁.symm k)
  split_ifs
  all_goals first | exact hdata | exact fun b hb => absurd hb (by simp [L1Verdict.pins])

theorem armSnapshots_pins (z : Zone) (a : Addr) (now : Time) (q : L1Req) :
    ∀ b ∈ (armSnapshots z a now q).2.pins, (z.mem a).data = some b := by
  unfold armSnapshots
  cases hd : (z.mem a).data with
  | none => exact fun b hb => absurd hb (by simp [L1Verdict.pins])
  | some d =>
    dsimp only
    intro b hb
    have hmem : b ∈ [d, d] := by
      cases q.brkArm <;> split_ifs at hb <;> simp_all [L1Verdict.pins]
    have hbd : b = d := by simpa using hmem
    rw [hbd]

theorem Wf.accessL1_pins (h : Wf held pending [] [] [] z) (k : KeyHash) (hash : UInt32)
    (now : Time) (q : L1Req) :
    let r := Shm.accessL1 z k hash now q
    ∀ b ∈ r.2.pins, Carries r.1 k b := by
  have hpre : ∀ b ∈ (Shm.accessL1 z k hash now q).2.pins, Carries z k b := by
    unfold Shm.accessL1
    cases hl : lookup z k with
    | none => exact fun b hb => absurd hb (by simp [L1Verdict.pins])
    | some a =>
      dsimp only
      split_ifs
      · exact fun b hb => carries_lookup hl (Option.mem_toList.1 hb)
      · exact h.serveStale_pins hl hash now q
      · intro b hb
        have hdata := armSnapshots_pins _ a now q b hb
        rw [setNode_mem_self] at hdata
        exact carries_lookup hl hdata
  obtain ⟨-, -, he⟩ := h.accessL1 k hash now q
  intro r b hb
  obtain ⟨c, hc, hcb⟩ := hpre b hb
  -- a lookup moves no body: a stale refresh only writes the lock
  generalize hr : Shm.accessL1 z k hash now q = r' at he
  have hrr : r = r' := hr
  rw [hrr]
  obtain ⟨z', verdict⟩ := r'
  cases verdict with
  | refresh body =>
    obtain ⟨c', hc', -, -, hv'⟩ := he
    rw [hc] at hc'
    obtain rfl := Option.some.inj hc'
    exact ⟨_, hv', hcb⟩
  | miss | error | hit | stale | regenerate | expired =>
    exact ⟨c, (congrFun he k).trans hc, hcb⟩

/-- A store that succeeds leaves what it was given. -/
theorem Wf.exec_written (h : Wf held pending [] [] [] z) (now : Time) {op : ZoneOp} {k : KeyHash}
    {w : Record} (hk : op.key = some k) (hw : op.writes now = some w)
    (hok : (Shm.exec rb z now op).2.ok) : Shm.record (Shm.exec rb z now op).1 k = some w := by
  have hstored : ∀ {rc : Rc} {z' : Zone} {r : Record}, rc = .ok →
      ((rc ≠ .ok ∧ (Shm.record z' k = none ∨ Shm.record z' k = Shm.record z k)) ∨
        rc = .ok ∧ Shm.record z' k = some r) → Shm.record z' k = some r := by
    rintro rc z' r hrc (⟨hne, -⟩ | ⟨-, hr⟩)
    · exact absurd hrc hne
    · exact hr
  cases op with
  | store k' hash data freshTtl staleTtl wanted =>
    obtain rfl := Option.some.inj hk
    obtain rfl := Option.some.inj hw
    obtain ⟨-, hfr, he⟩ := h.store rb k' hash now data freshTtl staleTtl wanted
    exact hstored hok (he.record h hfr.content)
  | storeIf k' hash data freshTtl staleTtl predicate wanted =>
    obtain rfl := Option.some.inj hk
    obtain rfl := Option.some.inj hw
    obtain ⟨-, hfr, he⟩ := h.storeIf rb k' hash now data freshTtl staleTtl predicate wanted
    exact hstored hok (he.record h hfr.content)
  | storeMarker k' hash data freshTtl staleTtl =>
    obtain rfl := Option.some.inj hk
    obtain rfl := Option.some.inj hw
    obtain ⟨-, hfr, he⟩ := h.storeMarker rb k' hash now data freshTtl staleTtl
    exact hstored hok (he.record h hfr.content)
  | freshen | claim | countMiss | resolveMiss | owns | unstub | l2NegCheck | l2NegSet
  | varidxPendingSet | touchLru | accessL1 | purgeKey | purgeIfBlob | purgeBatch | purgeAll
  | breakerWrite | admissionWrite => cases hw

/-- **A reference that an operation hands out is on the body under its digest.** -/
theorem Wf.exec_pins (h : Wf held pending [] [] [] z) (now : Time) (op : ZoneOp) :
    ∀ b ∈ (Shm.exec rb z now op).2.pins,
      ∃ k, op.key = some k ∧ Carries (Shm.exec rb z now op).1 k b := by
  cases op with
  | store k hash data freshTtl staleTtl wanted =>
    obtain ⟨-, -, he⟩ := h.store rb k hash now data freshTtl staleTtl wanted
    exact fun b hb => ⟨k, rfl, he.pins b hb⟩
  | storeIf k hash data freshTtl staleTtl predicate wanted =>
    obtain ⟨-, -, he⟩ := h.storeIf rb k hash now data freshTtl staleTtl predicate wanted
    exact fun b hb => ⟨k, rfl, he.pins b hb⟩
  | claim k hash lockTtl =>
    intro b hb
    have hnone : b ∈ (Shm.claim rb z k hash now lockTtl).2.freshData.toList := hb
    rw [claim_freshData] at hnone
    cases hnone
  | resolveMiss k hash minUses window lockTtl =>
    exact fun b hb => ⟨k, rfl, h.resolveMiss_pins rb k hash now minUses window lockTtl b hb⟩
  | accessL1 k hash q => exact fun b hb => ⟨k, rfl, h.accessL1_pins k hash now q b hb⟩
  | storeMarker | freshen | countMiss | owns | unstub | l2NegCheck | l2NegSet | varidxPendingSet
  | touchLru | purgeKey | purgeIfBlob | purgeBatch | purgeAll | breakerWrite | admissionWrite =>
    exact fun b hb => absurd hb (by simp [Shm.exec, Answer.pins])

end Shm
end CacheTurbo
