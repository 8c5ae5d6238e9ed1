/-
# Single-flight leases

A lease on a digest is granted on two paths: by `shm_claim_locked`, which writes
`refreshing`, `refresh_lock_until` and a new token into `refresh_owner`, and by
the stale hit of `access_l1_serve_stale`, which writes the first two only.
`Leases` is a zone with a record of the last grant for every digest and of the
tokens issued.

`LeaseMove` says once what an operation can do to the lease of a digest.  From
it, for every run: an unexpired lease is ended only by a successful store or
freshen, by the removal of the node, or by an `unstub` with the token of that
grant, exactly as long as no `unstub` presents the token that an expired claim
left behind under a lease of the stale path.  A run that does is at the end.
-/

import CacheTurbo.Shm.Ops

namespace CacheTurbo
namespace Shm

/-- What granted a lease, and until when. -/
inductive Grant
  | claim (token : ℕ) (deadline : Time)
  | refresh (deadline : Time)
  deriving DecidableEq, Repr

def Grant.deadline : Grant → Time
  | .claim _ d => d
  | .refresh d => d

/-- The grant in the answer of a claim: `CLAIM_WINNER` with a token. -/
def claimGrant (now lockTtl : Time) (answer : ClaimAnswer) : Option Grant :=
  if answer.verdict = .winner ∧ answer.owner ≠ 0 then some (.claim answer.owner (now + lockTtl))
  else none

/-- The grant an operation makes, and its digest. -/
def grantOf (now : Time) : ZoneOp → Answer → Option (KeyHash × Grant)
  | .claim k _ lockTtl, .claimed answer => (claimGrant now lockTtl answer).map fun g => (k, g)
  | .resolveMiss k _ _ _ lockTtl, .resolved _ answer =>
      (claimGrant now lockTtl answer).map fun g => (k, g)
  | .accessL1 k _ q, .l1 (.refresh _) => some (k, .refresh (now + q.lockTtl))
  | _, _ => none

/-- A successful store, store_if, store_marker or freshen of a digest. -/
def Rebuilds (k : KeyHash) : ZoneOp → Answer → Prop
  | .store k' .., .stored .ok _ | .storeIf k' .., .stored .ok _
  | .storeMarker k' .., .code .ok | .freshen k' .., .code .ok => k' = k
  | _, _ => False

/-- The lease fields of a node. -/
def Core.lease (c : Core) : Bool × ℕ × Time := (c.refreshing, c.refreshOwner, c.refreshLockUntil)

theorem Core.Live.of_lease {c c' : Core} {now : Time} (h : c.Live now) (he : c'.lease = c.lease) :
    c'.Live now := by
  simp only [Core.lease, Prod.mk.injEq] at he
  exact ⟨he.1.trans h.1, he.2.2 ▸ h.2⟩

/-- **What an operation can do to the lease of a digest.** -/
inductive LeaseMove (now : Time) (op : ZoneOp) (answer : Answer) (z z' : Zone) (k : KeyHash) : Prop
  | gone (hview : view z' k = none) (hop : ∀ t, op ≠ .unstub k t)
      (hgrant : ∀ g, grantOf now op answer ≠ some (k, g))
  | kept (hview : (view z' k).map Core.lease = (view z k).map Core.lease)
      (hgrant : ∀ g, grantOf now op answer ≠ some (k, g))
  | bare (c : Core) (hnone : view z k = none) (hview : view z' k = some c)
      (hlease : c.lease = (false, 0, 0)) (hgrant : ∀ g, grantOf now op answer ≠ some (k, g))
  | rebuilt (c : Core) (hends : Rebuilds k op answer) (hview : view z' k = some c)
      (hlease : c.lease = (false, 0, 0)) (hgrant : ∀ g, grantOf now op answer ≠ some (k, g))
  | claimed (c : Core) (d : Time)
      (hgrant : grantOf now op answer = some (k, .claim (z.ownerSeq + 1) d))
      (hseq : z'.ownerSeq = z.ownerSeq + 1) (hfree : ∀ c, view z k = some c → ¬ c.Live now)
      (hview : view z' k = some c) (hlease : c.lease = (true, z.ownerSeq + 1, d))
  | refreshed (c c' : Core) (d : Time) (hgrant : grantOf now op answer = some (k, .refresh d))
      (hold : view z k = some c) (hfree : ¬ c.Live now) (hview : view z' k = some c')
      (hlease : c'.lease = (true, c.refreshOwner, d))
  | unstubbed (t : ℕ) (c : Core) (hop : op = .unstub k t) (ht : t ≠ 0) (hold : view z k = some c)
      (hkind : c.kind ≠ .marker) (hlease : c.refreshing = true ∧ c.refreshOwner = t)
      (hview : ∀ c', view z' k = some c' → c'.lease = (false, 0, 0))

theorem grantOf_key {now : Time} {op : ZoneOp} {answer : Answer} {k : KeyHash} {g : Grant}
    (h : grantOf now op answer = some (k, g)) : op.key = some k := by
  unfold grantOf at h
  split at h
  · obtain ⟨g', -, he⟩ := Option.map_eq_some_iff.1 h
    exact congrArg some (Prod.mk.inj he).1
  · obtain ⟨g', -, he⟩ := Option.map_eq_some_iff.1 h
    exact congrArg some (Prod.mk.inj he).1
  · exact congrArg some (Prod.mk.inj (Option.some.inj h)).1
  · cases h

/-- A digest that survives keeps its lease or loses its node. -/
theorem Survives.leaseMove {now : Time} {op : ZoneOp} {answer : Answer} {z z' : Zone} {k : KeyHash}
    (h : Survives z z' k) (hop : ∀ t, op ≠ .unstub k t)
    (hgrant : ∀ g, grantOf now op answer ≠ some (k, g)) : LeaseMove now op answer z z' k := by
  rcases h with hn | he
  · exact .gone hn hop hgrant
  · exact .kept (congrArg _ he) hgrant

/-- A step before a claim that leaves the lease alone. -/
def Quiet (z z' : Zone) (k : KeyHash) : Prop :=
  (view z' k).map Core.lease = (view z k).map Core.lease ∨
    view z k = none ∧ ∃ c, view z' k = some c ∧ c.lease = (false, 0, 0)

theorem CountEffect.quiet {z z' : Zone} {k : KeyHash} {now : Time} {minUses : ℤ} {rc : Rc}
    (h : CountEffect z k now minUses z' rc) : Quiet z z' k := by
  rcases h with ⟨rfl, -, -⟩ | ⟨c, m, hv, -, -, hv', -⟩ | ⟨hv, -, hv'⟩ | ⟨hv, -, hv'⟩
  · exact Or.inl rfl
  · refine Or.inl ?_
    rw [hv, hv']
    rfl
  · exact Or.inl (by rw [hv, hv'])
  · exact Or.inr ⟨hv, _, hv', rfl⟩

/-- The lease after a quiet step and a claim. -/
theorem ClaimEffect.leaseMove {now lockTtl : Time} {op : ZoneOp} {answer : Answer} {z z₁ z' : Zone}
    {k : KeyHash} {a : ClaimAnswer} (hq : Quiet z z₁ k) (hseq : z₁.ownerSeq = z.ownerSeq)
    (h : ClaimEffect z₁ k now lockTtl z' a)
    (hgrant : grantOf now op answer = (claimGrant now lockTtl a).map fun g => (k, g)) :
    LeaseMove now op answer z z' k := by
  have hquiet : a.owner = 0 → (view z' k = view z₁ k) → LeaseMove now op answer z z' k := by
    intro ho hv
    have hno : ∀ g, grantOf now op answer ≠ some (k, g) := by
      intro g
      rw [hgrant, claimGrant, if_neg (by simp [ho])]
      exact nofun
    rcases hq with hs | ⟨hn, c, hc, hl⟩
    · exact .kept (by rw [hv, hs]) hno
    · exact .bare c hn (hv.trans hc) hl hno
  obtain ⟨verdict, owner, data, len⟩ := a
  cases verdict with
  | fresh => exact hquiet h.1 (congrFun h.2.1 k)
  | loser =>
    obtain ⟨ho, rfl, -⟩ := h
    exact hquiet ho rfl
  | winner =>
    rcases h with ⟨ho, hv, hv'⟩ | ⟨ho, hs', hfree, hv'⟩
    · exact hquiet ho (hv'.trans hv.symm)
    · dsimp only at ho hs'
      rw [hseq] at ho
      subst ho
      refine .claimed _ (now + lockTtl) ?_ hs' ?_ hv' rfl
      · rw [hgrant, claimGrant, if_pos ⟨rfl, Nat.succ_ne_zero _⟩]
        rfl
      · intro c hc hlive
        rcases hq with hs | ⟨hn, -⟩
        · rw [hc, Option.map_some, Option.map_eq_some_iff] at hs
          obtain ⟨c₁, hc₁, he⟩ := hs
          exact hfree c₁ hc₁ (hlive.of_lease he)
        · rw [hc] at hn
          cases hn

variable (rb : Rbtree)

/-- A storing operation rebuilds its digest, or lets it survive. -/
theorem StoreEffect.leaseMove {now freshTtl staleTtl : Time} {data : List UInt8} {kind : NodeKind}
    {op : ZoneOp} {answer : Answer} {z z' : Zone} {k : KeyHash} {rc : Rc} {pin : Option BlobId}
    (h : StoreEffect z k now data freshTtl staleTtl kind z' rc pin)
    (hends : rc = .ok → Rebuilds k op answer) (hop : ∀ t, op ≠ .unstub k t)
    (hgrant : grantOf now op answer = none) : LeaseMove now op answer z z' k := by
  have hno : ∀ g, grantOf now op answer ≠ some (k, g) := by
    rw [hgrant]
    exact fun _ => nofun
  rcases h with ⟨-, -, hs⟩ | ⟨hok, b, -, -, hv⟩
  · exact hs.leaseMove hop hno
  · exact .rebuilt _ (hends hok) hv rfl hno

/-- **Every operation moves the lease of every digest in one of these ways.** -/
theorem Wf.leaseMove {held pending : List BlobId} {z : Zone} (h : Wf held pending [] [] [] z)
    (now : Time) (op : ZoneOp) (k : KeyHash) :
    LeaseMove now op (Shm.exec rb z now op).2 z (Shm.exec rb z now op).1 k := by
  by_cases hkey : op.key = some k
  swap
  · refine ((h.exec rb now op).2.other k hkey).leaseMove ?_ fun g hg => hkey (grantOf_key hg)
    rintro t rfl
    exact hkey rfl
  -- the operation works on this digest
  have hsame : ∀ {op : ZoneOp} {answer : Answer} {z' : Zone}, view z' k = view z k →
      grantOf now op answer = none → LeaseMove now op answer z z' k := by
    intro op answer z' hv hg
    exact .kept (by rw [hv]) fun g => by rw [hg]; exact nofun
  cases op with
  | store k' hash data freshTtl staleTtl wanted =>
    obtain rfl := Option.some.inj hkey
    obtain ⟨-, -, he⟩ := h.store rb k' hash now data freshTtl staleTtl wanted
    refine he.leaseMove (fun hok => ?_) (fun _ => nofun) rfl
    show Rebuilds k' (.store k' hash data freshTtl staleTtl wanted) (.stored _ _)
    rw [hok]
    rfl
  | storeIf k' hash data freshTtl staleTtl predicate wanted =>
    obtain rfl := Option.some.inj hkey
    obtain ⟨-, -, he⟩ := h.storeIf rb k' hash now data freshTtl staleTtl predicate wanted
    refine he.leaseMove (fun hok => ?_) (fun _ => nofun) rfl
    show Rebuilds k' (.storeIf k' hash data freshTtl staleTtl predicate wanted) (.stored _ _)
    rw [hok]
    rfl
  | storeMarker k' hash data freshTtl staleTtl =>
    obtain rfl := Option.some.inj hkey
    obtain ⟨-, -, he⟩ := h.storeMarker rb k' hash now data freshTtl staleTtl
    refine he.leaseMove (fun hok => ?_) (fun _ => nofun) rfl
    show Rebuilds k' (.storeMarker k' hash data freshTtl staleTtl) (.code _)
    rw [hok]
    rfl
  | freshen k' freshTtl staleTtl =>
    obtain rfl := Option.some.inj hkey
    obtain ⟨-, -, ⟨-, he⟩ | ⟨hok, c, -, -, hv⟩⟩ := h.freshen k' now freshTtl staleTtl
    · exact hsame (congrArg (fun z => view z k') he) rfl
    · refine .rebuilt _ ?_ hv rfl fun _ => nofun
      show Rebuilds k' (.freshen k' freshTtl staleTtl) (.code _)
      rw [hok]
      rfl
  | claim k' hash lockTtl =>
    obtain rfl := Option.some.inj hkey
    obtain ⟨-, -, he⟩ := h.claim rb k' hash now lockTtl
    exact he.leaseMove (Or.inl rfl) rfl rfl
  | countMiss k' hash minUses window =>
    obtain rfl := Option.some.inj hkey
    obtain ⟨-, -, he⟩ := h.countMiss rb k' hash now minUses window
    rcases he.quiet with hs | ⟨hn, c, hc, hl⟩
    · exact .kept hs fun _ => nofun
    · exact .bare c hn hc hl fun _ => nofun
  | resolveMiss k' hash minUses window lockTtl =>
    obtain rfl := Option.some.inj hkey
    obtain ⟨-, -, z₁, hc, hseq, he⟩ := h.resolveMiss rb k' hash now minUses window lockTtl
    rcases he with ⟨-, hz, ha⟩ | ⟨-, he⟩
    · have hno : ∀ g, grantOf now (.resolveMiss k' hash minUses window lockTtl)
          (Shm.exec rb z now (.resolveMiss k' hash minUses window lockTtl)).2 ≠ some (k', g) := by
        intro g
        show (claimGrant now lockTtl
          (Shm.resolveMiss rb z k' hash now minUses window lockTtl).2.2).map _ ≠ _
        rw [ha]
        exact nofun
      rcases hc.quiet with hs | ⟨hn, c, hv, hl⟩
      · refine .kept ?_ hno
        rw [← hz] at hs
        exact hs
      · refine .bare c hn ?_ hl hno
        rw [← hz] at hv
        exact hv
    · exact he.leaseMove hc.quiet hseq rfl
  | owns k' owner => exact hsame rfl rfl
  | unstub k' owner =>
    obtain rfl := Option.some.inj hkey
    obtain ⟨-, -, ⟨he, -⟩ | ⟨c, hv, hkind, href, hown, h0, hend⟩⟩ := h.unstub rb k' owner now
    · exact hsame (congrArg (fun z => view z k') he) rfl
    · refine .unstubbed owner c rfl h0 hv hkind ⟨href, hown⟩ fun c' hc' => ?_
      rcases hend with hun | ⟨-, -, -, hn⟩
      · have hcc := hun.symm.trans hc'
        obtain rfl := Option.some.inj hcc
        rfl
      · have hcc := hn.symm.trans hc'
        cases hcc
  | l2NegCheck k' hash =>
    obtain ⟨h1, hk, hp⟩ := h.l2NegCheck k' hash now
    exact hsame (congrFun (hk.view_eq hp h.queues h1.queues) k) rfl
  | l2NegSet k' hash ttl =>
    obtain rfl := Option.some.inj hkey
    obtain ⟨-, -, he⟩ := h.l2NegSet rb k' hash now ttl
    rcases he with ⟨he, -⟩ | ⟨c, hv, -, hv'⟩ | ⟨hv, hv' | hv'⟩
    · exact hsame (congrArg (fun z => view z k') he) rfl
    · refine .kept ?_ fun _ => nofun
      show (view (Shm.l2NegSet rb z k' hash now ttl) k').map _ = _
      rw [hv, hv']
      rfl
    · exact hsame (hv'.trans hv.symm) rfl
    · exact .bare _ hv hv' rfl fun _ => nofun
  | varidxPendingSet k' mark =>
    obtain ⟨h1, hk, hp⟩ := h.varidxPendingSet k' mark
    exact hsame (congrFun (hk.view_eq hp h.queues h1.queues) k) rfl
  | touchLru k' protectedPct hash =>
    obtain ⟨h1, hk, hp⟩ := h.touchFound k' now protectedPct hash
    exact hsame (congrFun (hk.view_eq hp h.queues h1.queues) k) rfl
  | accessL1 k' hash q =>
    obtain rfl := Option.some.inj hkey
    obtain ⟨-, -, he⟩ := h.accessL1 k' hash now q
    show LeaseMove now _ (.l1 (Shm.accessL1 z k' hash now q).2) z (Shm.accessL1 z k' hash now q).1 k'
    generalize Shm.accessL1 z k' hash now q = r at he ⊢
    obtain ⟨z', verdict⟩ := r
    cases verdict with
    | refresh body =>
      obtain ⟨c, hv, hfree, -, hv'⟩ := he
      exact .refreshed c _ (now + q.lockTtl) rfl hv hfree hv' rfl
    | miss | error | hit | stale | regenerate | expired => exact hsame (congrFun he k') rfl
  | purgeKey k' =>
    obtain ⟨h1, hk, -⟩ := h.purgeKey rb k'
    exact (hk.survives h.queues h1.queues k).leaseMove (fun _ => nofun) fun _ => nofun
  | purgeIfBlob k' stored =>
    obtain ⟨h1, hk, -⟩ := h.purgeIfBlob rb k' stored
    exact (hk.survives h.queues h1.queues k).leaseMove (fun _ => nofun) fun _ => nofun
  | purgeBatch | purgeAll | breakerWrite | admissionWrite => cases hkey

/-- A grant is made on a digest without a running lease, and a claim's token is the
next number of the owner sequence. -/
theorem Wf.granted {held pending : List BlobId} {z : Zone} (h : Wf held pending [] [] [] z)
    {now : Time} {op : ZoneOp} {k : KeyHash} {g : Grant}
    (hg : grantOf now op (Shm.exec rb z now op).2 = some (k, g)) :
    (∀ c, view z k = some c → ¬ c.Live now) ∧
      ∀ t d, g = .claim t d → t = z.ownerSeq + 1 ∧ (Shm.exec rb z now op).1.ownerSeq = t := by
  cases h.leaseMove rb now op k with
  | gone _ _ hno => exact absurd hg (hno g)
  | kept _ hno => exact absurd hg (hno g)
  | bare _ _ _ _ hno => exact absurd hg (hno g)
  | rebuilt _ _ _ _ hno => exact absurd hg (hno g)
  | claimed c d hgrant hseq hfree =>
    rw [hg] at hgrant
    obtain rfl := (Prod.mk.inj (Option.some.inj hgrant)).2
    refine ⟨hfree, fun t d' he => ?_⟩
    obtain ⟨rfl, -⟩ := Grant.claim.inj he
    exact ⟨rfl, hseq⟩
  | refreshed c c' d hgrant hold hfree =>
    rw [hg] at hgrant
    obtain rfl := (Prod.mk.inj (Option.some.inj hgrant)).2
    refine ⟨fun c₁ hc₁ => ?_, fun t d' he => by cases he⟩
    rw [hold] at hc₁
    obtain rfl := Option.some.inj hc₁
    exact hfree
  | unstubbed t c hop =>
    subst hop
    cases hg

/-! ### Leases along a run -/

/-- A zone with the last grant for every digest and the tokens issued so far. -/
structure Leases where
  zone : Zone
  last : KeyHash → Option Grant
  issued : List ℕ

/-- The tokens of a grant. -/
def Grant.tokens : Grant → List ℕ
  | .claim t _ => [t]
  | .refresh _ => []

/-- One timed operation; a grant is recorded. -/
def Leases.step (s : Leases) (event : Time × ZoneOp) : Leases :=
  let r := exec rb s.zone event.1 event.2
  match grantOf event.1 event.2 r.2 with
  | none => { s with zone := r.1 }
  | some (k, g) =>
      { zone := r.1, last := Function.update s.last k (some g), issued := g.tokens ++ s.issued }

def Leases.start (z : Zone) : Leases := ⟨z, fun _ => none, []⟩

namespace Leases

/-- The last lease granted for a digest is still on its node. -/
def InForce (s : Leases) (k : KeyHash) (g : Grant) : Prop :=
  s.last k = some g ∧
    ∃ c, view s.zone k = some c ∧ c.refreshing = true ∧ c.refreshLockUntil = g.deadline

/-- **Exclusion**, for one step: a lease in force that has not expired stays in
force, unless the digest is rebuilt, its node is removed or an `unstub` presents
the token of that grant; no other lease is granted on its digest; and a token is
issued once. -/
def Exclusive (s : Leases) (event : Time × ZoneOp) : Prop :=
  let answer := (exec rb s.zone event.1 event.2).2
  let s' := s.step rb event
  (∀ k g, s.InForce k g → event.1 < g.deadline →
    (s'.InForce k g ∨ Rebuilds k event.2 answer ∨
      (view s'.zone k = none ∧ ∀ t, event.2 ≠ .unstub k t) ∨
      ∃ t d, g = .claim t d ∧ event.2 = .unstub k t) ∧
    ∀ g', grantOf event.1 event.2 answer ≠ some (k, g')) ∧
  ∀ k t d, grantOf event.1 event.2 answer = some (k, .claim t d) → t ≠ 0 ∧ t ∉ s.issued

/-- An `unstub` presents the token a claim left in `refresh_owner` of a node whose
unexpired lease was last granted by the stale path. -/
def LateUnstub (s : Leases) (event : Time × ZoneOp) : Prop :=
  ∃ k t d c, event.2 = .unstub k t ∧ t ≠ 0 ∧ s.last k = some (.refresh d) ∧ event.1 < d ∧
    view s.zone k = some c ∧ c.kind ≠ .marker ∧ c.refreshing = true ∧ c.refreshOwner = t

/-- The zone is right, every lease on a node is the last one granted for its
digest, and no token is larger than the owner sequence. -/
structure Inv (s : Leases) : Prop where
  wf : ∃ held, Wf held [] [] [] [] s.zone
  lease : ∀ k c, view s.zone k = some c → c.refreshing = true → ∃ g, s.last k = some g ∧
    c.refreshLockUntil = g.deadline ∧ ∀ t d, g = .claim t d → c.refreshOwner = t
  issued : ∀ t ∈ s.issued, t ≤ s.zone.ownerSeq

theorem step_zone (s : Leases) (event : Time × ZoneOp) :
    (s.step rb event).zone = (exec rb s.zone event.1 event.2).1 := by
  unfold step
  dsimp only
  split <;> rfl

/-- A step that grants nothing on a digest leaves its record alone. -/
theorem step_last {s : Leases} {event : Time × ZoneOp} {k : KeyHash}
    (h : ∀ g, grantOf event.1 event.2 (exec rb s.zone event.1 event.2).2 ≠ some (k, g)) :
    (s.step rb event).last k = s.last k := by
  unfold step
  dsimp only
  split
  next => rfl
  next k' g hg =>
    have hne : k ≠ k' := by
      rintro rfl
      exact h g hg
    exact Function.update_of_ne hne _ _

theorem step_last_granted {s : Leases} {event : Time × ZoneOp} {k : KeyHash} {g : Grant}
    (h : grantOf event.1 event.2 (exec rb s.zone event.1 event.2).2 = some (k, g)) :
    (s.step rb event).last k = some g ∧ (s.step rb event).issued = g.tokens ++ s.issued := by
  unfold step
  dsimp only
  rw [h]
  exact ⟨Function.update_self .., rfl⟩

theorem Inv.start (z : Zone) (h : ∃ held, Wf held [] [] [] [] z)
    (hnone : ∀ k, view z k = none) : (Leases.start z).Inv where
  wf := h
  lease k c hc := by
    rw [show view (Leases.start z).zone k = none from hnone k] at hc
    cases hc
  issued := nofun

/-- **Every step keeps the record right.** -/
theorem Inv.step {s : Leases} (h : s.Inv) (event : Time × ZoneOp) : (s.step rb event).Inv := by
  obtain ⟨held, hwf⟩ := h.wf
  obtain ⟨hwf', hframe⟩ := hwf.exec rb event.1 event.2
  refine ⟨⟨_, by rw [step_zone]; exact hwf'⟩, fun k c hc href => ?_, ?_⟩
  · rw [step_zone] at hc
    have hbare : ∀ {c' : Core}, view (exec rb s.zone event.1 event.2).1 k = some c' →
        c'.lease = (false, 0, 0) → False := by
      intro c' hc' hl
      rw [hc] at hc'
      obtain rfl := Option.some.inj hc'
      have hf : c.refreshing = false := congrArg Prod.fst hl
      rw [href] at hf
      cases hf
    cases hwf.leaseMove rb event.1 event.2 k with
    | gone hn => rw [hc] at hn; cases hn
    | kept hv hno =>
      rw [hc, Option.map_some] at hv
      obtain ⟨c₀, hc₀, hl⟩ := Option.map_eq_some_iff.1 hv.symm
      simp only [Core.lease, Prod.mk.injEq] at hl
      obtain ⟨g, hg, hd, ht⟩ := h.lease k c₀ hc₀ (hl.1.trans href)
      refine ⟨g, (step_last rb hno).trans hg, hl.2.2.symm.trans hd, fun t d he => ?_⟩
      exact hl.2.1.symm.trans (ht t d he)
    | bare c' _ hv hl => exact (hbare hv hl).elim
    | rebuilt c' _ hv hl => exact (hbare hv hl).elim
    | claimed c' d hg _ _ hv hl =>
      rw [hc] at hv
      obtain rfl := Option.some.inj hv
      simp only [Core.lease, Prod.mk.injEq] at hl
      refine ⟨_, (step_last_granted rb hg).1, hl.2.2, fun t d' he => ?_⟩
      rw [(Grant.claim.inj he).1] at hl
      exact hl.2.1
    | refreshed c₀ c' d hg _ _ hv hl =>
      rw [hc] at hv
      obtain rfl := Option.some.inj hv
      simp only [Core.lease, Prod.mk.injEq] at hl
      exact ⟨_, (step_last_granted rb hg).1, hl.2.2, fun t d' he => by cases he⟩
    | unstubbed t c₀ _ _ _ _ _ hv => exact (hbare hc (hv c hc)).elim
  · have hold : ∀ t ∈ s.issued, t ≤ (exec rb s.zone event.1 event.2).1.ownerSeq := fun t ht =>
      (h.issued t ht).trans hframe.ownerSeq
    rw [step_zone]
    intro t ht
    unfold Leases.step at ht
    dsimp only at ht
    split at ht
    next => exact hold t ht
    next k g hg =>
      rcases List.mem_append.1 ht with ht | ht
      · cases g with
        | refresh d => cases ht
        | claim t' d =>
          obtain rfl := List.mem_singleton.1 ht
          exact ((hwf.granted rb hg).2 t d rfl).2.ge
      · exact hold t ht

/-- **One step is exclusive exactly when it is no late `unstub`** on a lease of the
stale path. -/
theorem Inv.exclusive_iff {s : Leases} (h : s.Inv) (event : Time × ZoneOp) :
    s.Exclusive rb event ↔ ¬ s.LateUnstub event := by
  obtain ⟨held, hwf⟩ := h.wf
  constructor
  · rintro ⟨hex, -⟩ ⟨k, t, d, c, hop, ht, hlast, hlive, hv, hkind, href, hown⟩
    obtain ⟨g, hg, hd, -⟩ := h.lease k c hv href
    rw [hlast] at hg
    obtain rfl := Option.some.inj hg
    obtain ⟨hends, -⟩ := hex k _ ⟨hlast, c, hv, href, hd⟩ hlive
    obtain ⟨now, op⟩ := event
    dsimp only at hop
    subst hop
    rcases hends with ⟨-, c', hv', href', -⟩ | hr | ⟨-, hne⟩ | ⟨t', d', he, -⟩
    · rw [step_zone] at hv'
      obtain ⟨-, -, ⟨-, hno⟩ | ⟨c₀, -, -, -, -, -, hgone⟩⟩ := hwf.unstub rb k t now
      · exact ht (hno c hv hkind href hown)
      · rcases hgone with hun | ⟨-, -, -, hn⟩
        · have hcc := hun.symm.trans hv'
          obtain rfl := Option.some.inj hcc
          cases href'
        · have hcc := hn.symm.trans hv'
          cases hcc
    · exact hr
    · exact hne t rfl
    · cases he
  · intro hlate
    refine ⟨fun k g hin hlive => ?_, fun k t d hg => ?_⟩
    · obtain ⟨hlast, c, hv, href, hd⟩ := hin
      have hc : c.Live event.1 := ⟨href, hd ▸ hlive⟩
      cases hwf.leaseMove rb event.1 event.2 k with
      | gone hn hop hno =>
        exact ⟨Or.inr (Or.inr (Or.inl ⟨by rw [step_zone]; exact hn, hop⟩)), hno⟩
      | kept hview hno =>
        rw [hv, Option.map_some] at hview
        obtain ⟨c', hv', hl⟩ := Option.map_eq_some_iff.1 hview
        simp only [Core.lease, Prod.mk.injEq] at hl
        refine ⟨Or.inl ⟨(step_last rb hno).trans hlast, c', ?_, hl.1.trans href,
          hl.2.2.trans hd⟩, hno⟩
        rw [step_zone]
        exact hv'
      | bare c' hn => rw [hv] at hn; cases hn
      | rebuilt c' hends _ _ hno => exact ⟨Or.inr (Or.inl hends), hno⟩
      | claimed c' d _ _ hfree => exact absurd hc (hfree c hv)
      | refreshed c₀ c' d _ hold hfree =>
        rw [hv] at hold
        obtain rfl := Option.some.inj hold
        exact absurd hc hfree
      | unstubbed t c₀ hop ht hold hkind hlease =>
        rw [hv] at hold
        obtain rfl := Option.some.inj hold
        refine ⟨Or.inr (Or.inr (Or.inr ?_)), fun g' hg' => ?_⟩
        · cases g with
          | claim t' d =>
            obtain ⟨g₀, hg₀, -, htok⟩ := h.lease k c hv href
            rw [hlast] at hg₀
            obtain rfl := Option.some.inj hg₀
            have heq : t' = t := (htok t' d rfl).symm.trans hlease.2
            exact ⟨t', d, rfl, heq ▸ hop⟩
          | refresh d =>
            exact absurd ⟨k, t, d, c, hop, ht, hlast, hlive, hv, hkind, hlease.1, hlease.2⟩ hlate
        · rw [hop] at hg'
          cases hg'
    · obtain ⟨ht, -⟩ := (hwf.granted rb hg).2 t d rfl
      refine ⟨by omega, fun hmem => ?_⟩
      have hle := h.issued t hmem
      omega

/-- A zone just initialised holds nothing. -/
theorem Inv.fresh (mem : Addr → Node) (blob : BlobId → Blob) (answers : ℕ → Option Addr)
    (sketch : Sketch) (admission : Bool) (breakerState : ℕ) :
    (Leases.start (freshZone mem blob answers sketch admission breakerState)).Inv :=
  Inv.start _ ⟨[], Wf.freshZone mem blob answers sketch admission breakerState⟩ fun _ => rfl

/-- **Single-flight exclusion, exactly.**  Along a run from a fresh zone every step
is exclusive if and only if no step is a late `unstub`: an `unstub` whose token a
claim left in `refresh_owner` of a node whose running lease was last granted by
the stale path. -/
theorem exclusive_along_iff (mem : Addr → Node) (blob : BlobId → Blob) (answers : ℕ → Option Addr)
    (sketch : Sketch) (admission : Bool) (breakerState : ℕ) (run : List (Time × ZoneOp)) :
    Run.Along (Leases.step rb) (Leases.Exclusive rb)
        (Leases.start (freshZone mem blob answers sketch admission breakerState)) run ↔
      Run.Along (Leases.step rb) (fun s event => ¬ s.LateUnstub event)
        (Leases.start (freshZone mem blob answers sketch admission breakerState)) run :=
  Run.along_congr_of_invariant (P := Inv) (fun _ event h => Inv.step rb h event)
    (fun _ event h => h.exclusive_iff rb event)
    (Inv.fresh mem blob answers sketch admission breakerState) run

/-- The stale refreshes of a step find no token in `refresh_owner`. -/
def CleanRefresh (s : Leases) (event : Time × ZoneOp) : Prop :=
  ∀ k d, grantOf event.1 event.2 (exec rb s.zone event.1 event.2).2 = some (k, .refresh d) →
    ∀ c, view s.zone k = some c → c.refreshOwner = 0

/-- A lease of the stale path carries no token as long as refreshes are clean. -/
theorem Inv.clean_step {s : Leases} (h : s.Inv)
    (hclean : ∀ k c d, view s.zone k = some c → c.refreshing = true →
      s.last k = some (.refresh d) → c.refreshOwner = 0)
    {event : Time × ZoneOp} (hstep : s.CleanRefresh rb event) {k : KeyHash} {c : Core} {d : Time}
    (hv : view (s.step rb event).zone k = some c) (href : c.refreshing = true)
    (hlast : (s.step rb event).last k = some (.refresh d)) : c.refreshOwner = 0 := by
  obtain ⟨held, hwf⟩ := h.wf
  rw [step_zone] at hv
  have hzero : ∀ {c' : Core}, view (exec rb s.zone event.1 event.2).1 k = some c' →
      c'.lease = (false, 0, 0) → c.refreshOwner = 0 := by
    intro c' hc' hl
    rw [hv] at hc'
    obtain rfl := Option.some.inj hc'
    exact congrArg (fun l => l.2.1) hl
  cases hwf.leaseMove rb event.1 event.2 k with
  | gone hn => rw [hv] at hn; cases hn
  | kept hview hno =>
    rw [hv, Option.map_some] at hview
    obtain ⟨c₀, hc₀, hl⟩ := Option.map_eq_some_iff.1 hview.symm
    simp only [Core.lease, Prod.mk.injEq] at hl
    rw [step_last rb hno] at hlast
    exact hl.2.1.symm.trans (hclean k c₀ d hc₀ (hl.1.trans href) hlast)
  | bare c' _ hc' hl => exact hzero hc' hl
  | rebuilt c' _ hc' hl => exact hzero hc' hl
  | claimed c' d' hg =>
    rw [(step_last_granted rb hg).1] at hlast
    cases hlast
  | refreshed c₀ c' d' hg hold _ hc' hl =>
    rw [hv] at hc'
    obtain rfl := Option.some.inj hc'
    exact (congrArg (fun l => l.2.1) hl).trans (hstep k d' hg c₀ hold)
  | unstubbed t c₀ _ _ _ _ _ hgone => exact hzero hv (hgone c hv)

/-- **The cause.**  Were `refresh_owner` clear whenever the stale path grants a
lease, every step of every run would be exclusive. -/
theorem exclusive_of_clean (mem : Addr → Node) (blob : BlobId → Blob) (answers : ℕ → Option Addr)
    (sketch : Sketch) (admission : Bool) (breakerState : ℕ) {run : List (Time × ZoneOp)}
    (hrun : Run.Along (Leases.step rb) (Leases.CleanRefresh rb)
      (Leases.start (freshZone mem blob answers sketch admission breakerState)) run) :
    Run.Along (Leases.step rb) (Leases.Exclusive rb)
      (Leases.start (freshZone mem blob answers sketch admission breakerState)) run := by
  have hstart : ∀ k d, (Leases.start (freshZone mem blob answers sketch admission
      breakerState)).last k ≠ some (.refresh d) := fun _ _ => nofun
  refine Run.along_of_invariant (P := fun s => s.Inv ∧ ∀ k c d, view s.zone k = some c →
    c.refreshing = true → s.last k = some (.refresh d) → c.refreshOwner = 0) ?_
    ⟨Inv.fresh mem blob answers sketch admission breakerState,
      fun k _ d _ _ hl => absurd hl (hstart k d)⟩ hrun
  rintro s event ⟨h, hclean⟩ hstep
  refine ⟨(h.exclusive_iff rb event).2 ?_, Inv.step rb h event, fun k c d =>
    h.clean_step rb hclean hstep⟩
  rintro ⟨k, t, d, c, -, ht, hlast, -, hv, -, href, hown⟩
  exact ht (hown.symm.trans (hclean k c d hv href hlast))

/-! ### The late `unstub` -/

/-- A digest, a zone whose slab always finds room, and a request that wins the
refresh dice on a stale entry. -/
def lateKey : KeyHash := Vector.replicate 32 0

def lateZone : Zone :=
  freshZone (fun _ => ⟨lateKey, .entry, none, 0, 0, 0, false, 0, 0, 0, 0, 0, .segProbation, false,
    false, false, 0⟩) (fun _ => ⟨0, 0, false, 0, []⟩) some ⟨none, 0, 0, 0, 0, 0, 0⟩ false 0

def lateReq : L1Req :=
  ⟨0, 1000, true, true, false, false, none, true, true, 10, true, false, false⟩

/-- An entry is stored, a claim takes a lease of one second on it, that lease
expires and a stale hit takes one of ten, and then the claim's owner gives up. -/
def lateRun : List (Time × ZoneOp) :=
  [(0, .store lateKey 0 [1] 1 100 false), (2, .claim lateKey 0 1),
    (4, .accessL1 lateKey 0 lateReq), (5, .unstub lateKey 1)]

/-- **The late `unstub` ends the running lease of the stale path**: exclusion does
not hold along every run with nondecreasing times. -/
theorem exclusive_fails : ¬ ∀ (rb : Rbtree) (mem : Addr → Node) (blob : BlobId → Blob)
    (answers : ℕ → Option Addr) (sketch : Sketch) (admission : Bool) (breakerState : ℕ)
    (run : List (Time × ZoneOp)), (run.map Prod.fst).Pairwise (· ≤ ·) →
      Run.Along (Leases.step rb) (Leases.Exclusive rb)
        (Leases.start (freshZone mem blob answers sketch admission breakerState)) run := by
  intro h
  have hrun : Run.Along (Leases.step Rbtree.unbalanced) (Leases.Exclusive Rbtree.unbalanced)
      (Leases.start lateZone) lateRun := h _ _ _ _ _ _ _ lateRun (by decide)
  obtain ⟨-, -, -, ⟨hex, -⟩, -⟩ := hrun
  have hbefore : view (Run.after (Leases.step Rbtree.unbalanced) (Leases.start lateZone)
      (lateRun.take 3)).zone lateKey = some ⟨.entry, some 0, 1, 1, 100, true, 1, 14, 0, 0⟩ := by
    decide
  have hafter : view (Run.after (Leases.step Rbtree.unbalanced) (Leases.start lateZone)
      lateRun).zone lateKey = some ⟨.entry, some 0, 1, 1, 100, false, 0, 0, 0, 0⟩ := by
    decide
  have hlast : (Run.after (Leases.step Rbtree.unbalanced) (Leases.start lateZone)
      (lateRun.take 3)).last lateKey = some (.refresh 14) := by
    decide
  obtain ⟨hends, -⟩ := hex lateKey (.refresh 14) ⟨hlast, _, hbefore, rfl, rfl⟩ (by decide)
  rcases hends with ⟨-, c, hv, href, -⟩ | hr | ⟨-, hne⟩ | ⟨t, d, he, -⟩
  · have hc := hafter.symm.trans hv
    obtain rfl := Option.some.inj hc
    cases href
  · exact hr
  · exact hne 1 rfl
  · cases he

end Leases

end Shm
end CacheTurbo
