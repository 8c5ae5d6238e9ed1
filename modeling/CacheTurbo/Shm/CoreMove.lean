/-
# What an operation does to a node

`Wf.coreMove` says once, for every operation on a zone, where the core comes from that it leaves
under a digest: it was there, up to what a count, a claim, a stale refresh or the end of a lease
writes; or a store has put it there; or it notes a miss of the second level.  A node that was not
there counts as a `counterCore`, which is what every operation but a store makes.

Three results come from it with no operation in sight: where the note of a miss comes from
(`Memo`), that an owner never gets a lease back once it has lost it, and that a node without a
lease has no owner (`LeasesFollow`, `Owned`).
-/

import CacheTurbo.Shm.Lease

namespace CacheTurbo
namespace Shm

variable {held pending : List BlobId} {z z' : Zone}

/-- The core that an operation finds under a digest. -/
def found (z : Zone) (k : KeyHash) : Core := (view z k).getD counterCore

theorem found_some {k : KeyHash} {c : Core} (h : view z k = some c) : found z k = c := by
  rw [found, h, Option.getD_some]

theorem found_none {k : KeyHash} (h : view z k = none) : found z k = counterCore := by
  rw [found, h, Option.getD_none]

/-- The operation records a miss for the digest. -/
def ZoneOp.recordsMiss (k : KeyHash) : ZoneOp → Prop
  | .l2NegSet k' _ _ => k' = k
  | _ => False

/-- What becomes of a lease: it stays, or ends, or is granted, with the next owner token or with
the one that is there. -/
def Core.LeaseFrom (seq : ℕ) (c c' : Core) : Prop :=
  c'.lease = c.lease ∨ c'.lease = (false, 0, 0) ∨
    c'.refreshing = true ∧ (c'.refreshOwner = c.refreshOwner ∨ c'.refreshOwner = seq + 1)

/-- **Where the core under a digest comes from.** -/
inductive CoreMove (now : Time) (op : ZoneOp) (z : Zone) (k : KeyHash) (c' : Core) : Prop
  | wrote (hop : op.recordsMiss k → c'.kind ≠ .counter) (hkind : c'.kind = (found z k).kind)
      (hmemo : c'.l2NegUntil = (found z k).l2NegUntil)
      (hlease : (found z k).LeaseFrom z.ownerSeq c')
  | body (hkind : c'.kind ≠ .counter) (hlease : c'.lease = (false, 0, 0))
  | recorded (hash : UInt32) (ttl : Time) (hop : op = .l2NegSet k hash ttl)
      (hkind : c'.kind = .counter) (hmemo : c'.l2NegUntil = now + ttl)
      (hlease : c'.lease = (found z k).lease)
      (hfound : ∀ c, view z k = some c → c.kind = .counter)

section Moves

variable {now : Time} {op : ZoneOp} {k : KeyHash} {c c₀ c₁ : Core}

/-- The operation writes a node, or makes one. -/
theorem CoreMove.of_found (hop : ¬op.recordsMiss k) (hv₁ : view z' k = some c₁)
    (hkind : c₁.kind = (found z k).kind) (hmemo : c₁.l2NegUntil = (found z k).l2NegUntil)
    (hlease : (found z k).LeaseFrom z.ownerSeq c₁) (hv : view z' k = some c) :
    CoreMove now op z k c := by
  have hcc := hv₁.symm.trans hv
  obtain rfl := Option.some.inj hcc
  exact .wrote (fun hrec => absurd hrec hop) hkind hmemo hlease

/-- The operation writes a node that is there. -/
theorem CoreMove.of_write (hop : ¬op.recordsMiss k) (hv₀ : view z k = some c₀)
    (hv₁ : view z' k = some c₁) (hkind : c₁.kind = c₀.kind)
    (hmemo : c₁.l2NegUntil = c₀.l2NegUntil) (hlease : c₀.LeaseFrom z.ownerSeq c₁)
    (hv : view z' k = some c) : CoreMove now op z k c := by
  refine .of_found hop hv₁ ?_ ?_ ?_ hv <;> rw [found_some hv₀]
  · exact hkind
  · exact hmemo
  · exact hlease

theorem CoreMove.of_survives (hop : ¬op.recordsMiss k) (h : Survives z z' k)
    (hv : view z' k = some c) : CoreMove now op z k c := by
  rcases h with hn | he
  · rw [hn] at hv
    cases hv
  · exact .of_write hop (he ▸ hv) hv rfl rfl (Or.inl rfl) hv

theorem CoreMove.of_eq (hop : ¬op.recordsMiss k) (h : view z' k = view z k)
    (hv : view z' k = some c) : CoreMove now op z k c :=
  .of_survives hop (Or.inr h) hv

end Moves

/-! ## The operations, one by one -/

/-- A store leaves a body, or the node as it was. -/
theorem StoreEffect.coreMove {op : ZoneOp} {k : KeyHash} {now freshTtl staleTtl : Time}
    {data : List UInt8} {kind : NodeKind} {rc : Rc} {pin : Option BlobId} {c : Core}
    (h : StoreEffect z k now data freshTtl staleTtl kind z' rc pin) (hop : ¬op.recordsMiss k)
    (hkind : kind ≠ .counter) (hv : view z' k = some c) : CoreMove now op z k c := by
  rcases h with ⟨-, -, hs⟩ | ⟨-, b, -, -, hb⟩
  · exact .of_survives hop hs hv
  · have hcc := hb.symm.trans hv
    obtain rfl := Option.some.inj hcc
    exact .body hkind rfl

theorem CountEffect.coreMove {op : ZoneOp} {k : KeyHash} {now : Time} {minUses : ℤ} {rc : Rc}
    {c : Core} (h : CountEffect z k now minUses z' rc) (hop : ¬op.recordsMiss k)
    (hv : view z' k = some c) : CoreMove now op z k c := by
  rcases h with ⟨rfl, -, -⟩ | ⟨c₀, m, hv₀, -, -, hv₁, -⟩ | ⟨-, -, hn⟩ | ⟨hn, -, hv₁⟩
  · exact .of_eq hop rfl hv
  · exact .of_write hop hv₀ hv₁ rfl rfl (Or.inl rfl) hv
  · rw [hn] at hv
    cases hv
  · refine .of_found hop hv₁ ?_ ?_ (Or.inl ?_) hv
    all_goals rw [found_none hn]
    rfl

theorem ClaimEffect.coreMove {op : ZoneOp} {k : KeyHash} {now lockTtl : Time}
    {answer : ClaimAnswer} {c : Core} (h : ClaimEffect z k now lockTtl z' answer)
    (hop : ¬op.recordsMiss k) (hv : view z' k = some c) : CoreMove now op z k c := by
  unfold ClaimEffect at h
  split at h
  · exact .of_eq hop (congrFun h.2.1 k) hv
  · obtain ⟨-, rfl, -⟩ := h
    exact .of_eq hop rfl hv
  · rcases h with ⟨-, -, hn⟩ | ⟨howner, -, -, hv₁⟩
    · rw [hn] at hv
      cases hv
    · exact .of_found hop hv₁ rfl rfl (Or.inr (Or.inr ⟨rfl, Or.inr howner⟩)) hv

/-- The claim after a count: it finds what the count has left. -/
theorem ResolveEffect.coreMove {op : ZoneOp} {k : KeyHash} {now lockTtl : Time} {minUses : ℤ}
    {rc : Rc} {answer : ClaimAnswer} {c : Core}
    (h : ResolveEffect z k now minUses lockTtl z' rc answer) (hop : ¬op.recordsMiss k)
    (hv : view z' k = some c) : CoreMove now op z k c := by
  obtain ⟨z₁, hcount, hseq, ⟨-, rfl, -⟩ | ⟨-, hclaim⟩⟩ := h
  · exact hcount.coreMove hop hv
  have hmid : CoreMove now op z₁ k c := hclaim.coreMove hop hv
  -- the count leaves kind, note and lease of what it finds
  have hfound : (found z₁ k).kind = (found z k).kind ∧
      (found z₁ k).l2NegUntil = (found z k).l2NegUntil ∧
      (found z₁ k).lease = (found z k).lease := by
    rcases hcount with ⟨rfl, -, -⟩ | ⟨c₀, m, hv₀, -, -, hv₁, -⟩ | ⟨hn, -, hn₁⟩ | ⟨hn, -, hv₁⟩
    · exact ⟨rfl, rfl, rfl⟩
    · rw [found_some hv₀, found_some hv₁]
      exact ⟨rfl, rfl, rfl⟩
    · rw [found_none hn, found_none hn₁]
      exact ⟨rfl, rfl, rfl⟩
    · rw [found_none hn, found_some hv₁]
      exact ⟨rfl, rfl, rfl⟩
  obtain ⟨hkind₀, hmemo₀, hlease₀⟩ := hfound
  cases hmid with
  | wrote hrec hkind hmemo hlease =>
    refine .wrote hrec (hkind.trans hkind₀) (hmemo.trans hmemo₀) ?_
    rw [hseq] at hlease
    obtain he | hend | ⟨href, howner⟩ := hlease
    · exact Or.inl (he.trans hlease₀)
    · exact Or.inr (Or.inl hend)
    · refine Or.inr (Or.inr ⟨href, howner.imp_left fun ho => ho.trans ?_⟩)
      exact congrArg (fun l => l.2.1) hlease₀
  | body hkind hlease => exact .body hkind hlease
  | recorded hash ttl hset =>
    subst hset
    exact absurd rfl hop

/-- The end of a lease by its owner. -/
theorem UnstubEffect.coreMove {op : ZoneOp} {k : KeyHash} {owner : ℕ} {now : Time} {c : Core}
    (h : UnstubEffect z k owner now z') (hop : ¬op.recordsMiss k) (hv : view z' k = some c) :
    CoreMove now op z k c := by
  rcases h with ⟨rfl, -⟩ | ⟨c₀, hv₀, -, -, -, -, hv₁ | ⟨-, -, -, hn⟩⟩
  · exact .of_eq hop rfl hv
  · exact .of_write hop hv₀ hv₁ rfl rfl (Or.inr (Or.inl rfl)) hv
  · rw [hn] at hv
    cases hv

/-- A miss is recorded, unless there is a body. -/
theorem L2NegEffect.coreMove {k : KeyHash} {hash : UInt32} {now ttl : Time} {c : Core}
    (h : L2NegEffect z k now ttl z') (hv : view z' k = some c) :
    CoreMove now (.l2NegSet k hash ttl) z k c := by
  rcases h with ⟨rfl, c₀, hv₀, hk₀⟩ | ⟨c₀, hv₀, hk₀, hv₁⟩ | ⟨hn, hn₁ | hv₁⟩
  · have hcc := hv₀.symm.trans hv
    obtain rfl := Option.some.inj hcc
    refine .wrote (fun _ => hk₀) ?_ ?_ (Or.inl ?_)
    all_goals
      rw [found_some hv₀]
  · have hcc := hv₁.symm.trans hv
    obtain rfl := Option.some.inj hcc
    refine .recorded hash ttl rfl hk₀ rfl ?_ fun c hc => ?_
    · rw [found_some hv₀]
      rfl
    · have hcc := hv₀.symm.trans hc
      obtain rfl := Option.some.inj hcc
      exact hk₀
  · rw [hn₁] at hv
    cases hv
  · have hcc := hv₁.symm.trans hv
    obtain rfl := Option.some.inj hcc
    refine .recorded hash ttl rfl rfl rfl ?_ fun c hc => ?_
    · rw [found_none hn]
      rfl
    · rw [hn] at hc
      cases hc

/-! ## Every operation -/

variable (rb : Rbtree)

theorem Wf.coreMove (h : Wf held pending [] [] [] z) (now : Time) (op : ZoneOp) {k : KeyHash}
    {c : Core} (hv : view (Shm.exec rb z now op).1 k = some c) : CoreMove now op z k c := by
  by_cases hkey : op.key = some k
  swap
  · refine .of_survives (fun hop => hkey ?_) ((h.exec rb now op).2.other k hkey) hv
    cases op with
    | l2NegSet k' hash ttl => exact congrArg some hop
    | _ => exact hop.elim
  cases op with
  | l2NegSet k' hash ttl =>
    obtain rfl := Option.some.inj hkey
    obtain ⟨-, -, heff⟩ := h.l2NegSet rb k' hash now ttl
    exact heff.coreMove hv
  | store k' hash data freshTtl staleTtl wanted =>
    obtain rfl := Option.some.inj hkey
    obtain ⟨-, -, heff⟩ := h.store rb k' hash now data freshTtl staleTtl wanted
    exact heff.coreMove id nofun hv
  | storeIf k' hash data freshTtl staleTtl predicate wanted =>
    obtain rfl := Option.some.inj hkey
    obtain ⟨-, -, heff⟩ := h.storeIf rb k' hash now data freshTtl staleTtl predicate wanted
    exact heff.coreMove id nofun hv
  | storeMarker k' hash data freshTtl staleTtl =>
    obtain rfl := Option.some.inj hkey
    obtain ⟨-, -, heff⟩ := h.storeMarker rb k' hash now data freshTtl staleTtl
    exact heff.coreMove id nofun hv
  | freshen k' freshTtl staleTtl =>
    obtain rfl := Option.some.inj hkey
    obtain ⟨-, -, ⟨-, he⟩ | ⟨-, c₀, hv₀, -, hv₁⟩⟩ := h.freshen k' now freshTtl staleTtl
    · exact .of_eq id (congrArg (fun z => view z k') he) hv
    · exact .of_write id hv₀ hv₁ rfl rfl (Or.inr (Or.inl rfl)) hv
  | claim k' hash lockTtl =>
    obtain rfl := Option.some.inj hkey
    obtain ⟨-, -, heff⟩ := h.claim rb k' hash now lockTtl
    exact heff.coreMove id hv
  | countMiss k' hash minUses window =>
    obtain rfl := Option.some.inj hkey
    obtain ⟨-, -, heff⟩ := h.countMiss rb k' hash now minUses window
    exact heff.coreMove id hv
  | resolveMiss k' hash minUses window lockTtl =>
    obtain rfl := Option.some.inj hkey
    obtain ⟨-, -, heff⟩ := h.resolveMiss rb k' hash now minUses window lockTtl
    exact heff.coreMove id hv
  | owns k' owner => exact .of_eq id rfl hv
  | unstub k' owner =>
    obtain rfl := Option.some.inj hkey
    obtain ⟨-, -, heff⟩ := h.unstub rb k' owner now
    exact heff.coreMove id hv
  | l2NegCheck k' hash =>
    obtain ⟨h₁, hkept, -⟩ := h.l2NegCheck k' hash now
    exact .of_survives id (hkept.survives h.queues h₁.queues k) hv
  | varidxPendingSet k' mark =>
    obtain ⟨h₁, hkept, -⟩ := h.varidxPendingSet k' mark
    exact .of_survives id (hkept.survives h.queues h₁.queues k) hv
  | touchLru k' protectedPct hash =>
    obtain ⟨h₁, hkept, -⟩ := h.touchFound k' now protectedPct hash
    exact .of_survives id (hkept.survives h.queues h₁.queues k) hv
  | accessL1 k' hash q =>
    obtain rfl := Option.some.inj hkey
    obtain ⟨-, -, heff⟩ := h.accessL1 k' hash now q
    unfold L1Effect at heff
    split at heff
    · obtain ⟨c₀, hv₀, -, -, hv₁⟩ := heff
      exact .of_write id hv₀ hv₁ rfl rfl (Or.inr (Or.inr ⟨rfl, Or.inl rfl⟩)) hv
    · exact .of_eq id (congrFun heff k') hv
  | purgeKey k' =>
    obtain ⟨h₁, hkept, -⟩ := h.purgeKey rb k'
    exact .of_survives id (hkept.survives h.queues h₁.queues k) hv
  | purgeIfBlob k' stored =>
    obtain ⟨h₁, hkept, -⟩ := h.purgeIfBlob rb k' stored
    exact .of_survives id (hkept.survives h.queues h₁.queues k) hv
  | purgeBatch | purgeAll | breakerWrite | admissionWrite => cases hkey

/-! ## Owners -/

/-- The owner has the lease of the digest, on a node that carries no marker. -/
def Held (z : Zone) (k : KeyHash) (owner : ℕ) : Prop :=
  ∃ c, view z k = some c ∧ c.kind ≠ .marker ∧ c.refreshing = true ∧ c.refreshOwner = owner

instance (z : Zone) (k : KeyHash) (owner : ℕ) : Decidable (Held z k owner) :=
  decidable_of_iff (∃ c ∈ view z k, c.kind ≠ .marker ∧ c.refreshing = true ∧ c.refreshOwner = owner)
    ⟨fun ⟨c, hc, h⟩ => ⟨c, hc, h⟩, fun ⟨c, hc, h⟩ => ⟨c, hc, h⟩⟩

/-- A node without a lease has no owner. -/
def Owned (z : Zone) : Prop :=
  ∀ k c, view z k = some c → c.refreshing = false → c.refreshOwner = 0

/-- The zone `z'` comes after `z`: an owner token that was issued by then has no lease that it
did not have. -/
structure LeasesFollow (z z' : Zone) : Prop where
  held : ∀ k owner, owner ≠ 0 → owner ≤ z.ownerSeq → Held z' k owner → Held z k owner
  ownerSeq : z.ownerSeq ≤ z'.ownerSeq

theorem LeasesFollow.refl (z : Zone) : LeasesFollow z z := ⟨fun _ _ _ _ h => h, le_rfl⟩

theorem LeasesFollow.trans {z'' : Zone} (h : LeasesFollow z z') (h' : LeasesFollow z' z'') :
    LeasesFollow z z'' where
  held k owner hne hle hheld :=
    h.held k owner hne hle (h'.held k owner hne (hle.trans h.ownerSeq) hheld)
  ownerSeq := h.ownerSeq.trans h'.ownerSeq

/-- A step that leaves every core as it is. -/
theorem LeasesFollow.of_view (hview : view z' = view z) (hseq : z.ownerSeq ≤ z'.ownerSeq) :
    LeasesFollow z z' := by
  refine ⟨fun k owner _ _ hheld => ?_, hseq⟩
  rw [Held, hview] at hheld
  exact hheld

theorem Owned.of_view (h : Owned z) (hview : view z' = view z) : Owned z' := by
  intro k c hc
  rw [hview] at hc
  exact h k c hc

theorem found_owned (h : Owned z) (k : KeyHash) (href : (found z k).refreshing = false) :
    (found z k).refreshOwner = 0 := by
  cases hv : view z k with
  | none =>
    rw [found_none hv]
    rfl
  | some c =>
    rw [found_some hv] at href ⊢
    exact h k c hv href

/-- The fields of a lease that has ended, and of one that stays. -/
theorem Core.lease_fields {c c' : Core} (h : c'.lease = c.lease) :
    c'.refreshing = c.refreshing ∧ c'.refreshOwner = c.refreshOwner :=
  ⟨congrArg (fun l => l.1) h, congrArg (fun l => l.2.1) h⟩

theorem Owned.exec (h : Owned z) (hwf : Wf held pending [] [] [] z) (now : Time) (op : ZoneOp) :
    Owned (Shm.exec rb z now op).1 := by
  intro k c hv href
  have hended : c.lease = (false, 0, 0) → c.refreshOwner = 0 := fun he =>
    congrArg (fun l => l.2.1) he
  have hkept : c.lease = (found z k).lease → c.refreshOwner = 0 := by
    intro he
    obtain ⟨href', howner⟩ := Core.lease_fields he
    rw [howner]
    exact found_owned h k (href' ▸ href)
  cases hwf.coreMove rb now op hv with
  | wrote _ _ _ hlease =>
    obtain he | hend | ⟨ht, -⟩ := hlease
    · exact hkept he
    · exact hended hend
    · rw [href] at ht
      cases ht
  | body _ hlease => exact hended hlease
  | recorded _ _ _ _ _ hlease => exact hkept hlease

/-- **An owner gets no lease back**, whatever operation runs. -/
theorem Wf.follows (hwf : Wf held pending [] [] [] z) (h : Owned z) (now : Time) (op : ZoneOp) :
    LeasesFollow z (Shm.exec rb z now op).1 := by
  refine ⟨fun k owner hne hle ⟨c, hv, hk, href, howner⟩ => ?_, (hwf.exec rb now op).2.ownerSeq⟩
  have hended : c.lease ≠ (false, 0, 0) := by
    intro he
    have hfalse : c.refreshing = false := congrArg (fun l => l.1) he
    rw [href] at hfalse
    cases hfalse
  -- the node was there, with the same owner
  have hback : c.kind = (found z k).kind → (found z k).refreshOwner = owner → Held z k owner := by
    intro hkind howner₀
    have href₀ : (found z k).refreshing = true := by
      by_contra hno
      exact hne (howner₀.symm.trans (found_owned h k (Bool.not_eq_true _ ▸ hno)))
    cases hv₀ : view z k with
    | none =>
      rw [found_none hv₀] at href₀
      cases href₀
    | some c₀ =>
      rw [found_some hv₀] at hkind howner₀ href₀
      exact ⟨c₀, hv₀, hkind ▸ hk, href₀, howner₀⟩
  cases hwf.coreMove rb now op hv with
  | wrote _ hkind _ hlease =>
    obtain he | hend | ⟨-, howner' | hnew⟩ := hlease
    · exact hback hkind ((Core.lease_fields he).2.symm.trans howner)
    · exact absurd hend hended
    · exact hback hkind (howner'.symm.trans howner)
    · omega
  | body _ hlease => exact absurd hlease hended
  | recorded _ _ _ hkind _ hlease hfound =>
    refine hback ?_ ((Core.lease_fields hlease).2.symm.trans howner)
    cases hv₀ : view z k with
    | none =>
      rw [found_none hv₀]
      exact hkind
    | some c₀ =>
      rw [found_some hv₀]
      exact hkind.trans (hfound c₀ hv₀).symm

/-- A lease is over once its owner has given it back. -/
theorem Wf.not_held_unstub (hwf : Wf held pending [] [] [] z) {k : KeyHash} {owner : ℕ}
    (hne : owner ≠ 0) (now : Time) : ¬Held (Shm.unstub rb z k owner now) k owner := by
  rintro ⟨c, hv, hk, href, howner⟩
  obtain ⟨-, -, ⟨he, hno⟩ | ⟨c₀, -, -, -, -, -, hv₁ | ⟨-, -, -, hn⟩⟩⟩ := hwf.unstub rb k owner now
  · rw [he] at hv
    exact hne (hno c hv hk href howner)
  · have hcc := hv₁.symm.trans hv
    obtain rfl := Option.some.inj hcc
    cases href
  · have hcc := hn.symm.trans hv
    cases hcc

/-- A lease is over once a body is stored under its digest. -/
theorem StoreEffect.not_held {k : KeyHash} {now freshTtl staleTtl : Time} {data : List UInt8}
    {kind : NodeKind} {rc : Rc} {pin : Option BlobId}
    (h : StoreEffect z k now data freshTtl staleTtl kind z' rc pin) (hok : rc = .ok) (owner : ℕ) :
    ¬Held z' k owner := by
  rintro ⟨c, hv, -, href, -⟩
  rcases h with ⟨hne, -, -⟩ | ⟨-, b, -, -, hb⟩
  · exact hne hok
  · have hcc := hb.symm.trans hv
    obtain rfl := Option.some.inj hcc
    cases href

end Shm
end CacheTurbo
