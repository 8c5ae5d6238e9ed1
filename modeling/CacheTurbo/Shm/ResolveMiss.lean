/-
# The merged resolution of a cold miss

`ngx_http_cache_turbo_shm_resolve_miss` does under one hold of the mutex what
`shm_count_miss` and, unless it declines, `shm_claim` do under two.  `twoCalls`
is that sequence.  The merged function looks its key up once where the sequence
does so twice; `Wf.countMissLocked` says that a resident node keeps its place,
so both claims work on the same node (`lookup_after_count`), and they then
differ only in the reference that a fresh entry is handed out with
(`claimLocked_pin`).
-/

import CacheTurbo.Shm.Ops

namespace CacheTurbo
namespace Shm

variable {held pending : List BlobId} {z : Zone} (rb : Rbtree)

/-- `shm_count_miss`, and `shm_claim` on the same key at the same time when the
count answered `NGX_OK`. -/
def twoCalls (z : Zone) (keyHash : KeyHash) (hash : UInt32) (now : Time) (minUses : ℤ)
    (minUsesWindow lockTtl : Time) : Zone × Rc × Option ClaimAnswer :=
  match countMiss rb z keyHash hash now minUses minUsesWindow with
  | (z, .ok) =>
      let r := claim rb z keyHash hash now lockTtl
      (r.1, .ok, some r.2)
  | (z, rc) => (z, rc, none)

/-- The count answers `NGX_OK` or `NGX_DECLINED`. -/
theorem countMissLocked_rc (z : Zone) (keyHash : KeyHash) (hash : UInt32) (minUses : ℤ)
    (window : Time) (ctn : Option Addr) (now : Time) :
    let rc := (countMissLocked rb z keyHash hash minUses window ctn now).2
    rc = .ok ∨ rc = .declined := by
  unfold countMissLocked
  cases ctn with
  | some a =>
    dsimp only
    by_cases hentry : (z.mem a).kind = .entry ∧ (z.mem a).len > 0
    · rw [if_pos hentry]
      exact Or.inl rfl
    · rw [if_neg hentry]
      by_cases hlease : (z.mem a).refreshing ∧ now < (z.mem a).refreshLockUntil
      · rw [if_pos hlease]
        exact Or.inl rfl
      · rw [if_neg hlease]
        exact ite_eq_or_eq _ _ _
  | none =>
    cases allocEvict rb z now sizeofNode with
    | mk z₁ p =>
      cases p with
      | none => exact Or.inl rfl
      | some a => exact ite_eq_or_eq _ _ _

/-- A queued node with bytes has a body, and that body is allocated. -/
theorem Wf.body (h : Wf held pending [] [] [] z) {a : Addr} (ha : a ∈ z.resident)
    (hlen : 0 < (z.mem a).len) : ∃ b ∈ z.slab.blobs, (z.mem a).data = some b := by
  have hok := h.queues.shape a ha
  unfold NodeOk at hok
  split_ifs at hok with hkind
  · omega
  · obtain ⟨b, hb⟩ := Option.isSome_iff_exists.1 hok.1
    exact ⟨b, h.own_live ha hb, hb⟩

/-- One more reference on a body. -/
def pinned (z : Zone) (b : BlobId) : Zone := z.setBlob b fun r => { r with refs := r.refs + 1 }

/-- **The claim with and without a place for the body.**  The verdict, the token
and the zone are the same, but for the reference a fresh entry is pinned with. -/
theorem claimLocked_pin (h : Wf held pending [] [] [] z) (hash : UInt32) (keyHash : KeyHash)
    (lockTtl now : Time) :
    let l := claimLocked rb z hash keyHash lockTtl (lookup z keyHash) now false
    let r := claimLocked rb z hash keyHash lockTtl (lookup z keyHash) now true
    r.2.verdict = l.2.verdict ∧ r.2.owner = l.2.owner ∧
      (l.2.verdict = .fresh → ∃ a b, lookup l.1 keyHash = some a ∧ (l.1.mem a).data = some b ∧
        r.2.freshData = some b ∧ r.2.freshLen = (l.1.mem a).len ∧ r.1 = pinned l.1 b) ∧
      (l.2.verdict ≠ .fresh → r.1 = l.1 ∧ r.2.freshData = none) := by
  unfold claimLocked
  cases hl : lookup z keyHash with
  | some a =>
    obtain ⟨ha, -⟩ := h.queues.lookup_resident hl
    dsimp only
    by_cases hfresh : (z.mem a).len > 0 ∧ now < (z.mem a).freshUntil
    · rw [if_pos hfresh, if_pos hfresh, if_pos rfl, if_neg Bool.false_ne_true]
      obtain ⟨b, hb, hdata⟩ := h.body ha hfresh.1
      refine ⟨rfl, rfl, fun _ => ⟨a, b, hl, hdata, hdata, rfl, ?_⟩, fun hne => absurd rfl hne⟩
      show pinData z (z.mem a).data = pinned z b
      rw [hdata]
      show blobAcquire z b = pinned z b
      unfold blobAcquire
      rw [Heap.access_eq hb]
      rfl
    · rw [if_neg hfresh, if_neg hfresh]
      split_ifs
      · exact ⟨rfl, rfl, by simp, fun _ => ⟨rfl, rfl⟩⟩
      · exact ⟨rfl, rfl, by simp, fun _ => ⟨rfl, rfl⟩⟩
  | none =>
    dsimp only
    cases allocEvict rb z now sizeofNode with
    | mk z₁ p =>
      cases p with
      | none => exact ⟨rfl, rfl, by simp, fun _ => ⟨rfl, rfl⟩⟩
      | some a => exact ⟨rfl, rfl, by simp, fun _ => ⟨rfl, rfl⟩⟩

/-- **The merged resolution is the two calls.**  In every zone that satisfies the
invariant both yield the same count, verdict and token, and the same zone, except
that the merged call holds one reference on the body of the entry it found
fresh and hands out that body with its length.  When the count declines, no
token is granted and no reference taken. -/
theorem resolveMiss_twoCalls (h : Wf held pending [] [] [] z) (keyHash : KeyHash) (hash : UInt32)
    (now : Time) (minUses : ℤ) (window lockTtl : Time) :
    let s := twoCalls rb z keyHash hash now minUses window lockTtl
    let r := resolveMiss rb z keyHash hash now minUses window lockTtl
    r.2.1 = s.2.1 ∧
      (s.2.1 = .ok ∧ (∃ c, s.2.2 = some c ∧ r.2.2.verdict = c.verdict ∧ r.2.2.owner = c.owner ∧
          (c.verdict = .fresh → ∃ a b, lookup s.1 keyHash = some a ∧ (s.1.mem a).data = some b ∧
            r.2.2.freshData = some b ∧ r.2.2.freshLen = (s.1.mem a).len ∧ r.1 = pinned s.1 b) ∧
          (c.verdict ≠ .fresh → r.1 = s.1 ∧ r.2.2.freshData = none)) ∨
        s.2.1 = .declined ∧ s.2.2 = none ∧ r.1 = s.1 ∧ r.2.2 = ⟨.winner, 0, none, 0⟩ ∧
          r.1.ownerSeq = z.ownerSeq) := by
  obtain ⟨h₁, -, -, -⟩ := h.countMissLocked rb keyHash hash minUses window now
  have hctn := lookup_after_count rb h keyHash hash minUses window now
  have hseq := ownerSeq_countMissLocked rb h keyHash hash minUses window now (lookup z keyHash)
  have hrc := countMissLocked_rc rb z keyHash hash minUses window (lookup z keyHash) now
  unfold twoCalls countMiss resolveMiss claim
  dsimp only
  cases hr : countMissLocked rb z keyHash hash minUses window (lookup z keyHash) now with
  | mk z₁ rc =>
    rw [hr] at h₁ hctn hseq hrc
    obtain ⟨hverdict, howner, hfresh, hother⟩ := claimLocked_pin rb h₁ hash keyHash lockTtl now
    obtain rfl | rfl := hrc
    · dsimp only at hctn ⊢
      rw [hctn]
      exact ⟨rfl, Or.inl ⟨rfl, _, rfl, hverdict, howner, hfresh, hother⟩⟩
    · exact ⟨rfl, Or.inr ⟨rfl, rfl, rfl, rfl, hseq⟩⟩

/-- The zone after start-up, with a slab that has room. -/
theorem resolveMiss_twoCalls_fresh :
    let z := blankZone some 0
    (resolveMiss Rbtree.unbalanced z (Vector.replicate 32 0) 0 5 1 0 60).2.1 =
      (twoCalls Rbtree.unbalanced z (Vector.replicate 32 0) 0 5 1 0 60).2.1 :=
  (resolveMiss_twoCalls Rbtree.unbalanced (Wf.blankZone _ _) _ _ _ _ _ _).1

end Shm
end CacheTurbo
