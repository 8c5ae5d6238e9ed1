/-
# The lease of a cold miss

A request that wins the claim of a cold miss has a lease on its key: others wait until it ends,
or until its time is over.  A store under the key ends it; the end of a response that will not be
stored does, and so does a cleanup in the pool.  While the request is parked on the lock there is
no cleanup yet, and the token is all it has (`pending_l1_owner`).

`leases_given_back` follows each lease from the claim that grants it.  As long as it is held, one
of the request's contexts will end it, or the parked request has its token; and once the pool is
destroyed it is not held, unless the request has left it behind.  `LeavesBehind` lists the ways to
do so, all of which are in the code: the pool has no room for the cleanup, the client goes away
while the request is parked, or a resumed request takes another way than to the origin.
-/

import CacheTurbo.Http.AccessFrame
import CacheTurbo.Http.AccessLoans
import CacheTurbo.Http.AccessRun

namespace CacheTurbo

/-! ## The token of a claim -/

namespace Shm

variable {z z' : Zone} {k : KeyHash} {now lockTtl : Time} {answer : ClaimAnswer}

/-- Only a winner has a token, which has been issued. -/
theorem ClaimEffect.owner (h : ClaimEffect z k now lockTtl z' answer) :
    (answer.verdict ≠ .winner → answer.owner = 0) ∧ answer.owner ≤ z'.ownerSeq := by
  obtain ⟨verdict, owner, data, len⟩ := answer
  cases verdict with
  | fresh => exact ⟨fun _ => h.1, h.1.le.trans (Nat.zero_le _)⟩
  | loser => exact ⟨fun _ => h.1, h.1.le.trans (Nat.zero_le _)⟩
  | winner =>
    refine ⟨fun hno => absurd rfl hno, ?_⟩
    rcases h with ⟨hzero, -⟩ | ⟨-, hseq, -⟩
    · exact hzero.le.trans (Nat.zero_le _)
    · exact hseq.ge

theorem ResolveEffect.owner {minUses : ℤ} {rc : Rc}
    (h : ResolveEffect z k now minUses lockTtl z' rc answer) :
    (answer.verdict ≠ .winner → answer.owner = 0) ∧ answer.owner ≤ z'.ownerSeq ∧
      (rc = .declined → answer.owner = 0) := by
  obtain ⟨z₁, -, -, ⟨-, -, rfl⟩ | ⟨hrc, hclaim⟩⟩ := h
  · exact ⟨fun _ => rfl, Nat.zero_le _, fun _ => rfl⟩
  · exact ⟨hclaim.owner.1, hclaim.owner.2, fun hdeclined => absurd hdeclined hrc⟩

end Shm

namespace Http
namespace Access

open Bytes Blob
open Shm (Zone Rbtree BlobId Held)

/-! ## What the phases before the claim leave alone -/

/-- The fields of a context that say what becomes of a lease in hand. -/
def Ctx.cold (c : Ctx) : Bool × ℕ × Bool × Bool :=
  (c.coldWinner, c.coldOwner, c.coldStored, c.coldCleanup)

/-- A part of a pass that has nothing to do with the lease of a miss. -/
structure Keeps (p q : Pass) : Prop where
  cold : q.ctx.cold = p.ctx.cold
  pending : q.ctx.pendingL1Owner = p.ctx.pendingL1Owner
  reply : q.ctx.lockReply = p.ctx.lockReply
  former : q.former = p.former
  granted : q.granted = p.granted

theorem Keeps.refl (p : Pass) : Keeps p p := ⟨rfl, rfl, rfl, rfl, rfl⟩

theorem Keeps.trans {p q t : Pass} (h : Keeps p q) (h' : Keeps q t) : Keeps p t :=
  ⟨h'.cold.trans h.cold, h'.pending.trans h.pending, h'.reply.trans h.reply,
    h'.former.trans h.former, h'.granted.trans h.granted⟩

theorem Flows.keeps {p q : Pass} (h : Flows p q) : Keeps p q :=
  ⟨h.field Ctx.cold fun _ => rfl, h.field Ctx.pendingL1Owner fun _ => rfl,
    h.field Ctx.lockReply fun _ => rfl, h.former, h.granted⟩

section Phases

variable (rb : Rbtree) (digest : Bytes → KeyHash) (crc : KeyHash → UInt32) (conf : Conf)
  (r : Request) (base : Bytes) (env : Env)

theorem keeps_l1 (p : Pass) : Keeps p (l1 rb digest crc conf r base env p).1 := by
  have hresolved : Keeps p ({ p with
      ctx := resolve digest crc conf r base env p.zone p.ctx
      hash := crc (resolve digest crc conf r base env p.zone p.ctx).keyHash } : Pass) :=
    ⟨rfl, rfl, rfl, rfl, rfl⟩
  have hgap : ∀ q : Pass, Keeps q (q.meanwhile rb env .lookup) := fun q => ⟨rfl, rfl, rfl, rfl, rfl⟩
  exact (hresolved.trans (hgap _)).trans (looksUp_l1Lookup conf r env _).flows.keeps

theorem keeps_l2MarkerRead (p : Pass) :
    Keeps p (l2MarkerRead rb digest crc conf r base env p) := by
  unfold l2MarkerRead
  dsimp only
  split
  · split_ifs <;> exact ⟨rfl, rfl, rfl, rfl, rfl⟩
  · split_ifs <;> exact ⟨rfl, rfl, rfl, rfl, rfl⟩

theorem keeps_l2MarkerConsume (p : Pass) :
    Keeps p (l2MarkerConsume rb digest crc conf r base env p) := by
  have hread := keeps_l2MarkerRead rb digest crc conf r base env p
  unfold l2MarkerConsume
  split_ifs
  · exact Keeps.refl p
  · refine hread.trans ?_
    exact ⟨rfl, rfl, rfl, rfl, rfl⟩
  · exact ⟨rfl, rfl, rfl, rfl, rfl⟩

theorem keeps_l2MarkerGet (p : Pass) : Keeps p (l2MarkerGet digest crc conf base env p).1 := by
  unfold l2MarkerGet
  dsimp only
  split_ifs <;> exact ⟨rfl, rfl, rfl, rfl, rfl⟩

theorem keeps_l2NegMemo (p : Pass) : Keeps p (l2NegMemo crc conf env p) := by
  unfold l2NegMemo
  dsimp only
  split_ifs <;> exact ⟨rfl, rfl, rfl, rfl, rfl⟩

theorem keeps_l2Get (p : Pass) : Keeps p (l2Get conf env p).1 := by
  unfold l2Get
  split_ifs <;> exact ⟨rfl, rfl, rfl, rfl, rfl⟩

theorem Keeps.meanwhile {p q : Pass} (h : Keeps p q) (gap : Gap) :
    Keeps p (q.meanwhile rb env gap) :=
  ⟨h.cold, h.pending, h.reply, h.former, h.granted⟩

theorem Keeps.andThen {p : Pass} {s : Step} (h : Keeps p s.1) {next : Pass → Step}
    (hnext : Keeps s.1 (next s.1).1) : Keeps p (s.andThen next).1 := by
  obtain ⟨q, o⟩ := s
  cases o with
  | some e => exact h
  | none => exact h.trans hnext

theorem keeps_l2 (p : Pass) : Keeps p (l2 rb digest crc conf r base env p).1 := by
  unfold l2
  dsimp only
  refine Keeps.andThen ?_ (Keeps.andThen ?_ ?_)
  · refine Keeps.trans ?_ (keeps_l2MarkerGet digest crc conf base env _)
    refine Keeps.meanwhile rb env ?_ _
    exact ((Keeps.refl p).meanwhile rb env _).trans
      (keeps_l2MarkerConsume rb digest crc conf r base env _)
  · refine Keeps.trans ?_ (keeps_l2Get conf env _)
    exact ((Keeps.refl _).meanwhile rb env _).trans (keeps_l2NegMemo crc conf env _)
  · exact ((Keeps.refl _).meanwhile rb env _).trans (flows_l2Reply rb crc conf r env _).flows.keeps

theorem keeps_coldWait (p : Pass) : Keeps p (coldWait r env p).1 := by
  have hserve : ∀ (q : Pass) (body : Body), Keeps p q →
      Keeps p (serve r env none (some body) true .staleIfError q).1 := fun q body hq =>
    hq.trans ((Flows.refl q).serve r env _ _ _ _).flows.keeps
  unfold coldWait
  dsimp only
  split_ifs
  · exact ⟨rfl, rfl, rfl, rfl, rfl⟩
  · split
    · refine hserve _ _ ?_
      exact ⟨rfl, rfl, rfl, rfl, rfl⟩
    · exact ⟨rfl, rfl, rfl, rfl, rfl⟩
  · exact ⟨rfl, rfl, rfl, rfl, rfl⟩
  · exact ⟨rfl, rfl, rfl, rfl, rfl⟩

end Phases

/-! ## What a pass does with a lease -/

/-- The cleanup of the context ends the lease. -/
def Former.Minds (f : Former) (g : KeyHash × ℕ) : Prop :=
  f.coldWinner = true ∧ f.coldStored = false ∧ f.keyHash = g.1 ∧ f.coldOwner = g.2

/-- The context has the lease in hand. -/
structure Wins (c c' : Ctx) (owner : ℕ) : Prop where
  winner : c'.coldWinner = true
  owner : c'.coldOwner = owner
  stored : c'.coldStored = c.coldStored

/-- **What a pass does with the leases of misses**: it grants none and takes none over; or it
grants one, for the lock or for the origin; or the lock is won, and the token of the parked
request goes to its context; or a former context hands its lease on. -/
inductive LeaseMove (p q : Pass) (e : End) : Prop
  | keeps (hcold : q.ctx.cold = p.ctx.cold)
      (hpending : q.ctx.pendingL1Owner = p.ctx.pendingL1Owner ∨
        p.ctx.lockReply = none ∧ q.ctx.pendingL1Owner = 0)
      (hreply : q.ctx.lockReply = p.ctx.lockReply) (hformer : q.former = p.former)
      (hgranted : q.granted ⊆ p.granted)
  | grants (owner : ℕ) (hnone : p.ctx.lockReply = none) (hformer : q.former = p.former)
      (hgranted : ∀ g ∈ q.granted, g ∈ p.granted ∨
        g = (q.ctx.keyHash, owner) ∧ owner ≠ 0 ∧ owner ≤ q.zone.ownerSeq)
      (hin : e = .parked .lock ∧ q.ctx.cold = p.ctx.cold ∧ q.ctx.pendingL1Owner = owner ∨
        e = .origin .winner ∧ Wins p.ctx q.ctx owner)
  | resumes (hformer : q.former = p.former) (hgranted : q.granted ⊆ p.granted)
      (hend : e = .origin .winner) (hwins : Wins p.ctx q.ctx p.ctx.pendingL1Owner)
  | adopts (f : Former) (hnone : p.ctx.lockReply = none) (hformer : p.former.Perm (f :: q.former))
      (hgranted : q.granted ⊆ p.granted) (hend : e = .origin .adopted)
      (hwins : Wins p.ctx q.ctx f.coldOwner) (hminds : f.Minds (q.ctx.keyHash, f.coldOwner))

theorem Keeps.leaseMove {p q : Pass} (h : Keeps p q) (e : End) : LeaseMove p q e :=
  .keeps h.cold (Or.inl h.pending) h.reply h.former fun _ hg => h.granted ▸ hg

theorem Wins.minds {c : Ctx} {q : Pass} {owner : ℕ} (h : Wins c q.ctx owner)
    (hstored : c.coldStored = false) : q.ctx.toFormer.Minds (q.ctx.keyHash, owner) :=
  ⟨h.winner, h.stored.trans hstored, rfl, h.owner⟩

theorem Wins.of_cold {c c' t : Ctx} {owner : ℕ} (h : Wins c' t owner) (hcold : c'.cold = c.cold) :
    Wins c t owner :=
  ⟨h.winner, h.owner, h.stored.trans (congrArg (fun f => f.2.2.1) hcold)⟩

/-- A part of the pass before it that keeps the leases. -/
theorem LeaseMove.after {p q t : Pass} {e : End} (h : LeaseMove q t e) (hkeeps : Keeps p q) :
    LeaseMove p t e := by
  cases h with
  | keeps hcold hpending hreply hformer hgranted =>
    refine .keeps (hcold.trans hkeeps.cold) ?_ (hreply.trans hkeeps.reply)
      (hformer.trans hkeeps.former) (hkeeps.granted ▸ hgranted)
    rw [← hkeeps.pending, ← hkeeps.reply]
    exact hpending
  | grants owner hnone hformer hgranted hin =>
    refine .grants owner (hkeeps.reply ▸ hnone) (hformer.trans hkeeps.former)
      (hkeeps.granted ▸ hgranted) ?_
    obtain ⟨he, hcold, hpending⟩ | ⟨he, hwins⟩ := hin
    · exact Or.inl ⟨he, hcold.trans hkeeps.cold, hpending⟩
    · exact Or.inr ⟨he, hwins.of_cold hkeeps.cold⟩
  | resumes hformer hgranted hend hwins =>
    refine .resumes (hformer.trans hkeeps.former) (hkeeps.granted ▸ hgranted) hend ?_
    rw [← hkeeps.pending]
    exact hwins.of_cold hkeeps.cold
  | adopts f hnone hformer hgranted hend hwins hminds =>
    exact .adopts f (hkeeps.reply ▸ hnone) (hkeeps.former ▸ hformer)
      (hkeeps.granted ▸ hgranted) hend (hwins.of_cold hkeeps.cold) hminds

/-- A lease is handed on by a former context that had it in hand. -/
theorem takeOver_minds {z : Zone} {k : KeyHash} {fs rest : List Former} {owner : ℕ}
    (h : takeOver z k fs = some (owner, rest)) :
    ∃ f : Former, fs.Perm (f :: rest) ∧ f.coldOwner = owner ∧ f.Minds (k, owner) := by
  induction fs generalizing rest with
  | nil => cases h
  | cons f fs ih =>
    unfold takeOver at h
    split_ifs at h with htakes
    · obtain ⟨rfl, rfl⟩ := Prod.mk.inj (Option.some.inj h)
      simp only [Bool.and_eq_true, Bool.not_eq_true', decide_eq_true_eq] at htakes
      obtain ⟨⟨⟨hwinner, hstored⟩, hkey⟩, -⟩ := htakes
      exact ⟨f, List.Perm.refl _, rfl, hwinner, hstored, hkey, rfl⟩
    · obtain ⟨⟨owner', rest'⟩, hrest, he⟩ := Option.map_eq_some_iff.1 h
      obtain ⟨rfl, rfl⟩ := Prod.mk.inj he
      obtain ⟨f', hperm, howner, hminds⟩ := ih hrest
      exact ⟨f', (hperm.cons f).trans (List.Perm.swap f' f rest'), howner, hminds⟩

section Claims

variable (rb : Rbtree) (conf : Conf) (r : Request) (env : Env)

theorem wins_coldMarkWinner {p : Pass} (hwinner : p.ctx.coldWinner = false) (owner : ℕ) :
    Wins p.ctx (coldMarkWinner env owner p).ctx owner := by
  unfold coldMarkWinner
  rw [if_neg (by rw [hwinner]; exact Bool.false_ne_true)]
  exact ⟨rfl, rfl, rfl⟩

theorem coldMarkWinner_rest (p : Pass) (owner : ℕ) :
    (coldMarkWinner env owner p).former = p.former ∧
      (coldMarkWinner env owner p).granted = p.granted ∧
      (coldMarkWinner env owner p).ctx.keyHash = p.ctx.keyHash ∧
      (coldMarkWinner env owner p).zone = p.zone := by
  unfold coldMarkWinner
  split_ifs
  · exact ⟨rfl, rfl, rfl, rfl⟩
  · exact ⟨rfl, rfl, rfl, rfl⟩

/-- **The lock's reply has come**: the token goes to the context, or the request waits on. -/
theorem leaseMove_coldResumeLocked (p : Pass) (hwinner : p.ctx.coldWinner = false) :
    LeaseMove p (coldResumeLocked r env p).1
      ((coldResumeLocked r env p).2.getD (.origin .plain)) := by
  unfold coldResumeLocked
  split_ifs
  · obtain ⟨hformer, hgranted, -, -⟩ := coldMarkWinner_rest env p p.ctx.pendingL1Owner
    exact .resumes hformer (fun _ hg => hgranted ▸ hg) rfl (wins_coldMarkWinner env hwinner _)
  · exact (keeps_coldWait r env p).leaseMove _

end Claims

/-- The pass that a claim begins with, and the pass after it: the lease that it grants is in
hand as the token of the request. -/
structure Claimed (p q : Pass) (answer : Shm.ClaimAnswer) : Prop where
  cold : q.ctx.cold = p.ctx.cold
  reply : q.ctx.lockReply = p.ctx.lockReply
  former : q.former = p.former
  granted : ∀ g ∈ q.granted, g ∈ p.granted ∨
    g = (q.ctx.keyHash, answer.owner) ∧ answer.owner ≠ 0 ∧ answer.verdict = .winner

/-- A claim without a winner grants nothing. -/
theorem mem_grant {p : Pass} {answer : Shm.ClaimAnswer} {g : KeyHash × ℕ}
    (hg : g ∈ (p.grant answer).granted) : g ∈ p.granted ∨
      g = (p.ctx.keyHash, answer.owner) ∧ answer.owner ≠ 0 ∧ answer.verdict = .winner := by
  rw [Pass.grant, List.mem_append] at hg
  refine hg.symm.imp_right fun hnew => ?_
  split_ifs at hnew with hwins
  · exact ⟨List.mem_singleton.1 hnew, hwins.2, hwins.1⟩
  · cases hnew

theorem grant_of_owner {p : Pass} {answer : Shm.ClaimAnswer} (h : answer.owner = 0) :
    (p.grant answer).granted = p.granted := by
  rw [Pass.grant, if_neg fun hwins => hwins.2 h]
  rfl

theorem Claimed.subset {p q : Pass} {answer : Shm.ClaimAnswer} (h : Claimed p q answer)
    (hzero : answer.owner = 0) : q.granted ⊆ p.granted := fun g hg =>
  (h.granted g hg).resolve_right fun hnew => hnew.2.1 hzero

/-- A claim that grants nothing, and what keeps the leases after it. -/
theorem Claimed.leaseMove {p q t : Pass} {answer : Shm.ClaimAnswer} (h : Claimed p q answer)
    (hnone : p.ctx.lockReply = none) (hzero : answer.owner = 0)
    (hpending : q.ctx.pendingL1Owner = answer.owner) (hkeeps : Keeps q t) (e : End) :
    LeaseMove p t e := by
  refine .keeps (hkeeps.cold.trans h.cold) (Or.inr ⟨hnone, ?_⟩) (hkeeps.reply.trans h.reply)
    (hkeeps.former.trans h.former) (hkeeps.granted ▸ h.subset hzero)
  rw [hkeeps.pending, hpending, hzero]

section Claims

variable (rb : Rbtree) (conf : Conf) (r : Request) (env : Env)

/-- **A claim that is won, or lost.** -/
theorem leaseMove_coldClaimed {z₁ : Zone} {p q : Pass} {answer : Shm.ClaimAnswer}
    (hnone : p.ctx.lockReply = none) (hwinner : p.ctx.coldWinner = false)
    (hclaimed : Claimed p q answer) (hpending : q.ctx.pendingL1Owner = answer.owner)
    (hlent : Lent z₁ q) (hseq : answer.owner ≤ z₁.ownerSeq)
    (hloser : answer.verdict ≠ .winner → answer.owner = 0) :
    LeaseMove p (coldClaimed conf r env answer q).1
      ((coldClaimed conf r env answer q).2.getD (.origin .plain)) := by
  have hafter := (lent_coldClaimed conf r env hlent answer).lent.ok.moved.ownerSeq
  have hwinner' : q.ctx.coldWinner = false :=
    (congrArg (fun f => f.1) hclaimed.cold).trans hwinner
  unfold coldClaimed at hafter ⊢
  split_ifs at hafter ⊢ with hlost
  · have hzero : answer.owner = 0 := hloser (by rw [hlost]; exact nofun)
    split
    · rename_i q' hq'
      obtain ⟨⟨owner, rest⟩, htaken, rfl⟩ := Option.map_eq_some_iff.1 hq'
      obtain ⟨f, hperm, rfl, hminds⟩ := takeOver_minds htaken
      refine .adopts f hnone (hclaimed.former ▸ hperm) (hclaimed.subset hzero) rfl ⟨rfl, rfl, ?_⟩
        hminds
      exact congrArg (fun f => f.2.2.1) hclaimed.cold
    · exact hclaimed.leaseMove hnone hzero hpending (keeps_coldWait r env q) _
  · have hlock := (flows_lock conf env q).keeps
    have hkey := (flows_lock conf env q).field Ctx.keyHash fun _ => rfl
    rcases hl : lock conf env q with ⟨t, sent⟩
    rw [hl] at hlock hkey hafter
    dsimp only at hlock hkey hafter ⊢
    have hgranted : ∀ g ∈ t.granted, g ∈ p.granted ∨
        g = (t.ctx.keyHash, answer.owner) ∧ answer.owner ≠ 0 ∧ answer.verdict = .winner := by
      rw [hlock.granted, hkey]
      exact hclaimed.granted
    cases sent with
    | true =>
      refine .grants answer.owner hnone (hlock.former.trans hclaimed.former) (fun g hg => ?_)
        (Or.inl ⟨rfl, hlock.cold.trans hclaimed.cold, hlock.pending.trans hpending⟩)
      exact (hgranted g hg).imp_right fun hnew => ⟨hnew.1, hnew.2.1, hseq.trans hafter⟩
    | false =>
      have hwins := wins_coldMarkWinner env
        ((congrArg (fun f => f.1) hlock.cold).trans hwinner') answer.owner
      obtain ⟨hformer, hgr, hk, hz⟩ := coldMarkWinner_rest env t answer.owner
      refine .grants answer.owner hnone (hformer.trans (hlock.former.trans hclaimed.former))
        (fun g hg => ?_)
        (Or.inr ⟨rfl, hwins.of_cold (hlock.cold.trans hclaimed.cold)⟩)
      rw [hgr] at hg
      rw [hk]
      exact (hgranted g hg).imp_right fun hnew => ⟨hnew.1, hnew.2.1, hseq.trans hafter⟩

theorem leaseMove_cold {z₀ : Zone} {p : Pass} (h : Lent z₀ p) (hwinner : p.ctx.coldWinner = false) :
    LeaseMove p (cold rb conf r env p).1 ((cold rb conf r env p).2.getD (.origin .plain)) := by
  have hwf : Shm.Wf _ _ [] [] [] p.zone := h.ok.ok.wf
  obtain ⟨-, -, hclaim⟩ := hwf.claim rb p.ctx.keyHash p.hash env.now env.l1.lockTtl
  obtain ⟨-, -, hresolve⟩ := hwf.resolveMiss rb p.ctx.keyHash p.hash env.now conf.minUses
    conf.minUsesWindow env.l1.lockTtl
  obtain ⟨hloser, hseq⟩ := hclaim.owner
  obtain ⟨hloser', hseq', hdeclined⟩ := hresolve.owner
  have hlent := (h.claim rb env).here
  have hlent' := (h.resolveMiss rb conf env).here
  unfold cold
  dsimp only
  split_ifs with hlock hreply hcount hrc hfresh hraced
  · exact (Keeps.refl p).leaseMove _
  · exact leaseMove_coldResumeLocked r env p hwinner
  · exact .keeps rfl (Or.inl rfl) rfl rfl fun _ hg =>
      grant_of_owner (hdeclined hrc) ▸ hg
  · have hzero := hloser' (by rw [hfresh]; exact nofun)
    refine LeaseMove.after ((flows_coldFresh r env _ _).flows.keeps.leaseMove _) ?_
    exact ⟨rfl, rfl, rfl, rfl, grant_of_owner hzero⟩
  · refine leaseMove_coldClaimed conf r env (not_not.1 hreply) hwinner ?_ rfl
      (Lent.meanwhile rb env (Lent.setCtx (hlent'.setCtx _ rfl) _ rfl) _) hseq' hloser'
    exact ⟨rfl, rfl, rfl, fun g hg => mem_grant hg⟩
  · have hzero := hloser (by rw [hraced]; exact nofun)
    refine Claimed.leaseMove ?_ (not_not.1 hreply) hzero rfl (flows_coldRaced r env _).flows.keeps _
    exact ⟨rfl, rfl, rfl, fun g hg => mem_grant hg⟩
  · refine leaseMove_coldClaimed conf r env (not_not.1 hreply) hwinner ?_ rfl
      (Lent.meanwhile rb env (hlent.setCtx _ rfl) _) hseq hloser
    exact ⟨rfl, rfl, rfl, fun g hg => mem_grant hg⟩

end Claims

/-! ## A pass -/

/-- A part that keeps the leases, and what comes after it. -/
theorem Keeps.moves {z₀ : Zone} {p : Pass} {s : Step} (h : Keeps p s.1) (hlent : StepLent z₀ s)
    (hwinner : p.ctx.coldWinner = false) {next : Pass → Step}
    (hnext : ∀ q, Lent z₀ q → q.ctx.coldWinner = false →
      LeaseMove q (next q).1 ((next q).2.getD (.origin .plain))) :
    LeaseMove p (s.andThen next).1 ((s.andThen next).2.getD (.origin .plain)) := by
  obtain ⟨q, o⟩ := s
  cases o with
  | some e => exact h.leaseMove e
  | none =>
    have hq : q.ctx.coldWinner = false := (congrArg (fun f => f.1) h.cold).trans hwinner
    exact (hnext q hlent.lent hq).after h

section Passes

variable (rb : Rbtree) (digest : Bytes → KeyHash) (crc : KeyHash → UInt32) (conf : Conf)
  (r : Request) (base : Bytes) (env : Env)

/-- **A whole pass.** -/
theorem leaseMove_handler {z₀ : Zone} {p : Pass} (h : Lent z₀ p)
    (hwinner : p.ctx.coldWinner = false) :
    LeaseMove p (handler rb digest crc conf r base env p).1
      (handler rb digest crc conf r base env p).2 := by
  unfold handler
  dsimp only
  refine Keeps.moves (keeps_l1 rb digest crc conf r base env p)
    (lent_l1 rb digest crc conf r base env h) hwinner fun p₁ h₁ hw₁ => ?_
  refine Keeps.moves (keeps_l2 rb digest crc conf r base env p₁)
    (lent_l2 rb digest crc conf r base env h₁) hw₁ fun p₂ h₂ hw₂ => ?_
  have hcounted : Keeps p₂ (Pass.meanwhile rb env .onlyIfCached
      (l2MissAccount rb conf env (p₂.meanwhile rb env .account))) :=
    (((Keeps.refl p₂).meanwhile rb env _).trans
      (flows_l2MissAccount rb conf env _).keeps).meanwhile rb env _
  refine Keeps.moves (hcounted.trans (flows_onlyIfCached conf r env _).flows.keeps)
    (lent_onlyIfCached conf r env ((lent_l2MissAccount rb conf env
      (h₂.meanwhile rb env _)).meanwhile rb env _)) hw₂ fun p₃ h₃ hw₃ => ?_
  refine Keeps.moves (((Keeps.refl p₃).meanwhile rb env _).trans
    (flows_breakerGate conf r env _).flows.keeps)
    (lent_breakerGate conf r env (h₃.meanwhile rb env _)) hw₃ fun p₄ h₄ hw₄ => ?_
  refine Keeps.moves (((Keeps.refl p₄).meanwhile rb env _).trans
    (flows_minUses rb conf env _).flows.keeps)
    (lent_minUses rb conf env (h₄.meanwhile rb env _)) hw₄ fun p₅ h₅ hw₅ => ?_
  exact (leaseMove_cold rb conf r env (h₅.meanwhile rb env _) hw₅).after
    ((Keeps.refl p₅).meanwhile rb env _)

end Passes

/-! ## A visit -/

def Place.isParked : Place → Bool
  | .parked _ => true
  | .outside | .left | .closed => false

theorem Place.ne_of_isParked {place : Place} (h : place.isParked = true) :
    place ≠ .left ∧ place ≠ .closed := by
  cases place with
  | parked w => exact ⟨nofun, nofun⟩
  | outside | left | closed => cases h

/-- The parked request has the token of the lease. -/
def Visit.Pends (s : Visit) (g : KeyHash × ℕ) : Prop :=
  s.place.isParked = true ∧ s.ctx.keyHash = g.1 ∧ s.ctx.pendingL1Owner = g.2

/-- **The request minds a lease**: the parked request has its token, or one of its contexts has
it in hand. -/
def Visit.Minds (s : Visit) (g : KeyHash × ℕ) : Prop :=
  s.Pends g ∨ ∃ f ∈ s.ctx.toFormer :: s.former, f.Minds g

section Visits

variable (rb : Rbtree) (digest : Bytes → KeyHash) (crc : KeyHash → UInt32)

/-- The pool is destroyed. -/
def VisitEvent.closes : VisitEvent → Bool
  | .closed _ _ => true
  | .enter _ | .reply _ _ _ _ | .lockReply _ _ | .woken _ | .other _ | .unstored _ | .stored _ _ _
  | .redirect _ => false

/-- The context is done with: an internal redirect, or the end of the pool. -/
def VisitEvent.replaces (place : Place) : VisitEvent → Bool
  | .redirect _ => decide (place = .left)
  | .closed _ _ => true
  | .enter _ | .reply _ _ _ _ | .lockReply _ _ | .woken _ | .other _ | .unstored _
  | .stored _ _ _ => false

/-- **The request leaves a lease behind**, though it is held.  The context is done with, and has
no cleanup in the pool; or the pool is destroyed while the request is parked; or a resumed
request neither goes to the origin with the lease of its key nor waits again. -/
inductive LeavesBehind (g : KeyHash × ℕ) (s : Visit) (t : Turn) : Prop
  | bare (hreplaces : t.event.replaces s.place = true) (hcleanup : s.ctx.coldCleanup = false)
      (hminds : s.ctx.toFormer.Minds g)
  | aborted (hcloses : t.event.closes = true) (hpends : s.Pends g)
  | passed (harrives : (s.arrive t.event).isSome = true) (hpends : s.Pends g)
      (hheld : Held (turn rb digest crc s t).zone g.1 g.2)
      (hend : ¬((turn rb digest crc s t).ctx.keyHash = g.1 ∧
        ((turn rb digest crc s t).ctx.coldWinner = true ∨
          (turn rb digest crc s t).place.isParked = true)))

/-- **The invariant of a lease.**  A request that has yet to run, or is parked, has nothing in
hand; and only one that is parked on the lock, or resumes from there, has a token. -/
structure Visit.Accounts (g : KeyHash × ℕ) (s : Visit) : Prop where
  token : g ∈ s.granted → g.2 ≠ 0 ∧ g.2 ≤ s.zone.ownerSeq
  minds : g ∈ s.granted → Held s.zone g.1 g.2 → s.Minds g
  begun : s.place ≠ .left → s.ctx.cold = (false, 0, false, false)
  pending : s.place ≠ .left → s.place ≠ .parked .lock → s.ctx.lockReply = none →
    s.ctx.pendingL1Owner = 0
  closed : s.place = .closed → s.former = []

end Visits

/-! ## One event -/

/-- What comes in changes no lease. -/
structure Arrives (s t : Visit) : Prop where
  zone : t.zone = s.zone
  former : t.former = s.former
  granted : t.granted = s.granted
  cold : t.ctx.cold = s.ctx.cold
  keyHash : t.ctx.keyHash = s.ctx.keyHash
  pending : t.ctx.pendingL1Owner = s.ctx.pendingL1Owner
  place : s.place ≠ .left
  reply : t.ctx.lockReply = none → s.place ≠ .parked .lock ∧ s.ctx.lockReply = none

theorem arrives {s : Visit} {e : VisitEvent} {a : Visit × Env} (ha : a ∈ s.arrive e) :
    Arrives s a.1 := by
  cases e with
  | enter env =>
    obtain ⟨hplace, ha'⟩ := Option.ite_none_right_eq_some.1 (Option.mem_def.1 ha)
    obtain rfl := Option.some.inj ha'
    exact ⟨rfl, rfl, rfl, rfl, rfl, rfl, by simp [hplace],
      fun hr => ⟨by simp [hplace], hr⟩⟩
  | woken env =>
    obtain ⟨hplace, ha'⟩ := Option.ite_none_right_eq_some.1 (Option.mem_def.1 ha)
    obtain rfl := Option.some.inj ha'
    exact ⟨rfl, rfl, rfl, rfl, rfl, rfl, by simp [hplace],
      fun hr => ⟨by simp [hplace], hr⟩⟩
  | lockReply result env =>
    obtain ⟨hplace, ha'⟩ := Option.ite_none_right_eq_some.1 (Option.mem_def.1 ha)
    obtain rfl := Option.some.inj ha'
    exact ⟨rfl, rfl, rfl, rfl, rfl, rfl, by simp [hplace], by simp⟩
  | reply result blob room env =>
    rw [Visit.arrive, Option.mem_def] at ha
    split at ha
    · rename_i hplace
      obtain rfl := Option.some.inj ha
      exact ⟨rfl, rfl, rfl, rfl, rfl, rfl, by simp [hplace],
        fun hr => ⟨by simp [hplace], hr⟩⟩
    · rename_i hplace
      obtain rfl := Option.some.inj ha
      exact ⟨rfl, rfl, rfl, rfl, rfl, rfl, by simp [hplace],
        fun hr => ⟨by simp [hplace], hr⟩⟩
    all_goals cases ha
  | other _ | unstored _ | stored _ _ _ | redirect _ | closed _ _ => cases ha

/-- What a pass finds of the leases of the request, and what has become of them by its end. -/
structure Entered (g : KeyHash × ℕ) (s : Visit) (p q : Pass) : Prop where
  granted : p.granted = s.granted
  cold : p.ctx.cold = (false, 0, false, false)
  pending : p.ctx.pendingL1Owner = s.ctx.pendingL1Owner
  token : g ∈ s.granted → g.2 ≠ 0 ∧ g.2 ≤ q.zone.ownerSeq
  minds : g ∈ s.granted → Held q.zone g.1 g.2 → s.Pends g ∨ ∃ f ∈ p.former, f.Minds g
  /-- Without a reply of the lock there was no token. -/
  none : p.ctx.lockReply = none → s.ctx.pendingL1Owner = 0

section Leaves

variable {g : KeyHash × ℕ} {s u : Visit} {p q : Pass} {e : End}

theorem Entered.winner (h : Entered g s p q) : p.ctx.coldWinner = false :=
  congrArg (fun f => f.1) h.cold

theorem Entered.stored (h : Entered g s p q) : p.ctx.coldStored = false :=
  congrArg (fun f => f.2.2.1) h.cold

theorem Entered.not_pends (h : Entered g s p q) (hg : g ∈ s.granted)
    (hnone : p.ctx.lockReply = .none) : ¬s.Pends g := fun hpends =>
  (h.token hg).1 (hpends.2.2.symm.trans (h.none hnone))

theorem End.place_ne_closed (e : End) : e.place ≠ .closed := by
  cases e with
  | parked | served | origin | gatewayTimeout | unavailable | error => exact nofun

/-- The pass grants nothing and takes nothing over. -/
theorem Entered.keeps (h : Entered g s p q) (hcold : q.ctx.cold = p.ctx.cold)
    (hpending : q.ctx.pendingL1Owner = p.ctx.pendingL1Owner ∨
      p.ctx.lockReply = .none ∧ q.ctx.pendingL1Owner = 0)
    (hreply : q.ctx.lockReply = p.ctx.lockReply) (hformer : q.former = p.former)
    (hgranted : q.granted ⊆ p.granted)
    (hend : s.Pends g → Held q.zone g.1 g.2 →
      q.ctx.keyHash = g.1 ∧ (q.ctx.coldWinner = true ∨ e.place.isParked = true)) :
    (u.leave (q, e)).Accounts g := by
  have hg₀ : g ∈ q.granted → g ∈ s.granted := fun hg => h.granted ▸ hgranted hg
  refine ⟨fun hg => h.token (hg₀ hg), fun hg hheld => ?_, fun _ => hcold.trans h.cold,
    fun _ _ hnone => ?_, fun hc => absurd hc e.place_ne_closed⟩
  · rcases h.minds (hg₀ hg) hheld with hpends | ⟨f, hf, hminds⟩
    · obtain ⟨hkey, hw | hparked⟩ := hend hpends hheld
      · exact absurd (hw.symm.trans ((congrArg (fun f => f.1) hcold).trans h.winner)) nofun
      · refine Or.inl ⟨hparked, hkey, ?_⟩
        rcases hpending with he | ⟨hnone, -⟩
        · exact (he.trans h.pending).trans hpends.2.2
        · exact absurd hpends (h.not_pends (hg₀ hg) hnone)
    · exact Or.inr ⟨f, List.mem_cons_of_mem _ (show f ∈ q.former from hformer ▸ hf), hminds⟩
  · rcases hpending with he | ⟨-, hzero⟩
    · exact (he.trans h.pending).trans (h.none (hreply.symm.trans hnone))
    · exact hzero

/-- The pass grants a lease: for the lock, or for the origin. -/
theorem Entered.grants (h : Entered g s p q) {owner : ℕ} (hnone : p.ctx.lockReply = .none)
    (hformer : q.former = p.former)
    (hgranted : ∀ g ∈ q.granted, g ∈ p.granted ∨
      g = (q.ctx.keyHash, owner) ∧ owner ≠ 0 ∧ owner ≤ q.zone.ownerSeq)
    (hin : e = .parked .lock ∧ q.ctx.cold = p.ctx.cold ∧ q.ctx.pendingL1Owner = owner ∨
      e = .origin .winner ∧ Wins p.ctx q.ctx owner) : (u.leave (q, e)).Accounts g := by
  have hg₀ : g ∈ q.granted →
      g ∈ s.granted ∨ g = (q.ctx.keyHash, owner) ∧ owner ≠ 0 ∧ owner ≤ q.zone.ownerSeq :=
    fun hg => h.granted ▸ hgranted g hg
  refine ⟨fun hg => ?_, fun hg hheld => ?_, fun hleft => ?_, fun hleft hlock => ?_,
    fun hc => absurd hc e.place_ne_closed⟩
  · rcases hg₀ hg with hg₁ | ⟨rfl, hne, hle⟩
    · exact h.token hg₁
    · exact ⟨hne, hle⟩
  · rcases hg₀ hg with hg₁ | ⟨rfl, -, -⟩
    · rcases h.minds hg₁ hheld with hpends | ⟨f, hf, hminds⟩
      · exact absurd hpends (h.not_pends hg₁ hnone)
      · exact Or.inr ⟨f, List.mem_cons_of_mem _ (show f ∈ q.former from hformer ▸ hf), hminds⟩
    · rcases hin with ⟨rfl, -, hp⟩ | ⟨-, hwins⟩
      · exact Or.inl ⟨rfl, rfl, hp⟩
      · exact Or.inr ⟨q.ctx.toFormer, List.mem_cons_self, hwins.minds h.stored⟩
  · rcases hin with ⟨-, hcold, -⟩ | ⟨rfl, -⟩
    · exact hcold.trans h.cold
    · exact absurd rfl hleft
  · rcases hin with ⟨rfl, -, -⟩ | ⟨rfl, -⟩
    · exact absurd rfl hlock
    · exact absurd rfl hleft

/-- The request goes to the origin with a lease that was its own already. -/
theorem Entered.wins (h : Entered g s p q) {owner : ℕ} (hgranted : q.granted ⊆ p.granted)
    (he : e.place = .left) (hwins : Wins p.ctx q.ctx owner)
    (hminds : g ∈ s.granted → Held q.zone g.1 g.2 →
      g = (q.ctx.keyHash, owner) ∨ ∃ f ∈ q.former, f.Minds g) : (u.leave (q, e)).Accounts g := by
  have hg₀ : g ∈ q.granted → g ∈ s.granted := fun hg => h.granted ▸ hgranted hg
  refine ⟨fun hg => h.token (hg₀ hg), fun hg hheld => Or.inr ?_, fun hleft => absurd he hleft,
    fun hleft => absurd he hleft, fun hc => absurd hc e.place_ne_closed⟩
  rcases hminds (hg₀ hg) hheld with rfl | ⟨f, hf, hm⟩
  · exact ⟨q.ctx.toFormer, List.mem_cons_self, hwins.minds h.stored⟩
  · exact ⟨f, List.mem_cons_of_mem _ hf, hm⟩

/-- **The leases of the request after a pass.** -/
theorem Entered.leave (h : Entered g s p q) (hmove : LeaseMove p q e)
    (hend : s.Pends g → Held q.zone g.1 g.2 →
      q.ctx.keyHash = g.1 ∧ (q.ctx.coldWinner = true ∨ e.place.isParked = true)) :
    (u.leave (q, e)).Accounts g := by
  cases hmove with
  | keeps hcold hpending hreply hformer hgranted =>
    exact h.keeps hcold hpending hreply hformer hgranted hend
  | grants owner hnone hformer hgranted hin => exact h.grants hnone hformer hgranted hin
  | resumes hformer hgranted he hwins =>
    refine h.wins hgranted (by rw [he]; rfl) hwins fun hg hheld => ?_
    rcases h.minds hg hheld with hpends | ⟨f, hf, hminds⟩
    · obtain ⟨hkey, -⟩ := hend hpends hheld
      exact Or.inl (Prod.ext hkey (h.pending.trans hpends.2.2)).symm
    · exact Or.inr ⟨f, hformer ▸ hf, hminds⟩
  | adopts f hnone hformer hgranted he hwins hf =>
    refine h.wins hgranted (by rw [he]; rfl) hwins fun hg hheld => ?_
    rcases h.minds hg hheld with hpends | ⟨f', hf', hminds⟩
    · exact absurd hpends (h.not_pends hg hnone)
    · rcases List.mem_cons.1 (hformer.subset hf') with rfl | hmem
      · exact Or.inl (Prod.ext (hf.2.2.1.symm.trans hminds.2.2.1) hminds.2.2.2).symm
      · exact Or.inr ⟨f', hmem, hminds⟩

end Leaves

section Visits

variable (rb : Rbtree) (digest : Bytes → KeyHash) (crc : KeyHash → UInt32) {g : KeyHash × ℕ}
  {z₀ : Zone} {s : Visit}

/-- **A pass minds the leases of the request.** -/
theorem Visit.Accounts.pass (h : s.Accounts g) (hlent : Lent z₀ s.pass) {t : Turn}
    {a : Visit × Env} (ha : a ∈ s.arrive t.event)
    (hkept : ¬LeavesBehind rb digest crc g s t) : (turn rb digest crc s t).Accounts g := by
  have harr := arrives ha
  have hcold : a.1.ctx.cold = (false, 0, false, false) := harr.cold.trans (h.begun harr.place)
  have hwinner : a.1.ctx.coldWinner = false := congrArg (fun f => f.1) hcold
  have hpass := hlent.here.arrive ha
  have hmoved := (lent_handler rb digest crc t.conf t.r t.base a.2 hpass).1.ok.moved
  have hturn := turn_of_arrive rb digest crc ha
  rw [hturn]
  refine Entered.leave (s := s) ⟨harr.granted, hcold, harr.pending, fun hg =>
    ⟨(h.token hg).1, (h.token hg).2.trans hmoved.ownerSeq⟩, fun hg hheld => ?_,
    fun hr => h.pending harr.place (harr.reply hr).1 (harr.reply hr).2⟩
    (leaseMove_handler rb digest crc t.conf t.r t.base a.2 hpass hwinner) fun hpends hheld => ?_
  · obtain ⟨hne, hle⟩ := h.token hg
    rcases h.minds hg (hmoved.held g.1 g.2 hne hle hheld) with hpends | ⟨f, hf, hminds⟩
    · exact Or.inl hpends
    rcases List.mem_cons.1 hf with rfl | hf
    · have hno : s.ctx.coldWinner = false := congrArg (fun f => f.1) (h.begun harr.place)
      exact absurd (hminds.1.symm.trans hno) nofun
    · exact Or.inr ⟨f, show f ∈ a.1.former from harr.former ▸ hf, hminds⟩
  · by_contra hno
    refine hkept (.passed (by rw [Option.mem_def.1 ha]; rfl) hpends ?_ ?_)
    · rw [hturn]
      exact hheld
    · rw [hturn]
      exact hno

end Visits

/-! ## What becomes of the response -/

section Visits

variable (rb : Rbtree) (digest : Bytes → KeyHash) (crc : KeyHash → UInt32) {g : KeyHash × ℕ}
  {z₀ : Zone} {s s' : Visit}

/-- A lease that is not held is not held later. -/
theorem not_held_later {z z' : Zone} (h : Shm.LeasesFollow z z') (hne : g.2 ≠ 0)
    (hle : g.2 ≤ z.ownerSeq) (hno : ¬Held z g.1 g.2) : ¬Held z' g.1 g.2 := fun hheld =>
  hno (h.held g.1 g.2 hne hle hheld)

/-- The request stays where it is, and others, or its response, change the zone. -/
theorem Visit.Accounts.settle (h : s.Accounts g) (hmoved : Shm.LeasesFollow s.zone s'.zone)
    (hgranted : s'.granted = s.granted) (hformer : s'.former = s.former)
    (hplace : s'.place = s.place) (hctx : s.place ≠ .left → s'.ctx = s.ctx)
    (hminds : g ∈ s.granted → Held s'.zone g.1 g.2 → s.ctx.toFormer.Minds g →
      s'.ctx.toFormer.Minds g) : s'.Accounts g where
  token hg := ⟨(h.token (hgranted ▸ hg)).1, (h.token (hgranted ▸ hg)).2.trans hmoved.ownerSeq⟩
  minds hg hheld := by
    have hg₀ : g ∈ s.granted := hgranted ▸ hg
    obtain ⟨hne, hle⟩ := h.token hg₀
    rcases h.minds hg₀ (hmoved.held g.1 g.2 hne hle hheld) with ⟨hparked, hkey, hp⟩ | ⟨f, hf, hm⟩
    · have hc := hctx (Place.ne_of_isParked hparked).1
      exact Or.inl ⟨hplace ▸ hparked, hc ▸ hkey, hc ▸ hp⟩
    · rcases List.mem_cons.1 hf with rfl | hf
      · exact Or.inr ⟨_, List.mem_cons_self, hminds hg₀ hheld hm⟩
      · exact Or.inr ⟨f, List.mem_cons_of_mem _ (hformer.symm ▸ hf), hm⟩
  begun hleft := by
    rw [hplace] at hleft
    exact hctx hleft ▸ h.begun hleft
  pending hleft := by
    rw [hplace] at hleft ⊢
    exact hctx hleft ▸ h.pending hleft
  closed hc := hformer.trans (h.closed (hplace.symm.trans hc))

/-- **The lease of a response that is not stored** is given back. -/
theorem Visit.Accounts.unstored (h : s.Accounts g) (hlent : Lent z₀ s.pass)
    (hleft : s.place = .left) (now : Time) : (s.unstored rb now).Accounts g := by
  have hmoved := (hlent.here.unstored rb now).ok.moved
  have hwf : Shm.Wf _ _ [] [] [] s.zone := hlent.ok.ok.wf
  unfold Visit.unstored at hmoved ⊢
  split_ifs at hmoved ⊢
  · refine h.settle hmoved rfl rfl rfl (fun hno => absurd hleft hno) fun hg hheld hm => ?_
    refine absurd hheld ?_
    obtain ⟨-, -, hkey, howner⟩ := hm
    have hne : s.ctx.coldOwner ≠ 0 := fun hz => (h.token hg).1 (howner.symm.trans hz)
    rw [← hkey, ← howner]
    exact hwf.not_held_unstub rb hne now
  · exact h

/-- A store ends the lease of its key. -/
theorem StoreCall.not_held {held pending : List BlobId} {z : Zone}
    (hwf : Shm.Wf held pending [] [] [] z) (call : StoreCall) (now : Time)
    (hok : (call.run rb now z).2 = .ok) (owner : ℕ) :
    ¬Held (call.run rb now z).1 call.keyHash owner := by
  unfold StoreCall.run at hok ⊢
  dsimp only at hok ⊢
  split_ifs at hok ⊢
  · obtain ⟨-, -, heff⟩ := hwf.storeIf rb call.keyHash call.hash now call.data call.freshTtl
      call.staleTtl .absentOrDead false
    exact heff.not_held hok owner
  · obtain ⟨-, -, heff⟩ := hwf.store rb call.keyHash call.hash now call.data call.freshTtl
      call.staleTtl false
    exact heff.not_held hok owner

/-- **The lease of a response that is stored** has ended by then, under whichever key it is. -/
theorem Visit.Accounts.stored (h : s.Accounts g) (hlent : Lent z₀ s.pass)
    (hleft : s.place = .left) (now : Time) (others : List Shm.Event) (call : StoreCall) :
    (s.stored rb now others call).Accounts g := by
  have hmoved := (hlent.here.stored rb now others call).ok.moved
  obtain ⟨others', c, he⟩ := stored_settle rb now others call s
  refine h.settle hmoved (by rw [he]; rfl) (by rw [he]; rfl) (by rw [he]; rfl)
    (fun hno => absurd hleft hno) fun hg hheld hm => ?_
  obtain ⟨hne, hle⟩ := h.token hg
  obtain ⟨hwinner, hstored, hkey, howner⟩ := hm
  -- the zone when the store begins
  set s₁ := if s.ctx.coldWinner && !s.ctx.coldStored && decide (call.keyHash ≠ s.ctx.keyHash) then
    s.unstub rb now else s with hs₁
  have hlent₁ : Lent s.zone s₁.pass := by
    rw [hs₁]
    split_ifs
    · exact hlent.here.unstub rb now
    · exact hlent.here
  have hothers := hlent₁.ok.here.othersRun rb others
  have hwf : Shm.Wf _ _ [] [] [] (Run.after (Shm.Loans.step rb) s₁.others others).zone :=
    hothers.ok.wf
  have hctx₁ : s₁.ctx = s.ctx := by
    rw [hs₁]
    split_ifs <;> rfl
  have hmoved₁ := (call.run_lent rb now hothers).moved
  set z₂ := (Run.after (Shm.Loans.step rb) s₁.others others).zone with hz₂
  change Held (call.run rb now z₂).1 g.1 g.2 at hheld
  by_cases hok : (call.run rb now z₂).2 = .ok
  · refine absurd hheld ?_
    by_cases hsame : call.keyHash = s.ctx.keyHash
    · rw [← hkey, show s.ctx.toFormer.keyHash = call.keyHash from hsame.symm]
      exact call.not_held rb hwf now hok g.2
    · have hunstub : s₁ = s.unstub rb now := by
        rw [hs₁, if_pos]
        simp only [Bool.and_eq_true, Bool.not_eq_true', decide_eq_true_eq]
        exact ⟨⟨hwinner, hstored⟩, hsame⟩
      have hle₁ : g.2 ≤ s₁.zone.ownerSeq := hle.trans hlent₁.ok.moved.ownerSeq
      refine not_held_later hmoved₁ hne hle₁ ?_
      have hne₀ : s.ctx.coldOwner ≠ 0 := fun hz => hne (howner.symm.trans hz)
      have hwf₀ : Shm.Wf _ _ [] [] [] s.zone := hlent.ok.ok.wf
      rw [hunstub, ← hkey, ← howner]
      exact hwf₀.not_held_unstub rb hne₀ now
  · refine ⟨?_, ?_, ?_, ?_⟩
    · exact (congrArg Ctx.coldWinner hctx₁).trans hwinner
    · show (s₁.ctx.coldStored || decide ((call.run rb now z₂).2 = .ok)) = false
      rw [hctx₁, decide_eq_false hok, Bool.or_false]
      exact hstored
    · exact (congrArg Ctx.keyHash hctx₁).trans hkey
    · exact (congrArg Ctx.coldOwner hctx₁).trans howner

end Visits


/-! ## A run -/

section Runs

variable (rb : Rbtree) (digest : Bytes → KeyHash) (crc : KeyHash → UInt32) {g : KeyHash × ℕ}
  {z₀ : Zone} {s : Visit}

/-- A cleanup of the pool ends the lease that its context has in hand. -/
theorem not_held_cleanups (now : Time) {cs : List Cleanup} (gaps : List (List Shm.Event))
    {l : Shm.Loans} (h : (Shm.Loans.lend (cs.filterMap Cleanup.pin) l).Since z₀)
    (hne : g.2 ≠ 0) (hle : g.2 ≤ l.zone.ownerSeq) {f : Former} (hf : .cold f ∈ cs)
    (hminds : f.Minds g) : ¬Held (runCleanups rb now cs gaps l).zone g.1 g.2 := by
  induction cs generalizing gaps l z₀ with
  | nil => cases hf
  | cons c cs ih =>
    have hgap := h.here.othersRun rb (gaps.head?.getD [])
    set l₁ := Run.after (Shm.Loans.step rb) l (gaps.head?.getD []) with hl₁
    have hrun := lent_cleanup rb now c hgap
    have hle₁ : g.2 ≤ (c.run rb now l₁).zone.ownerSeq := hle.trans hrun.moved.ownerSeq
    rcases List.mem_cons.1 hf with rfl | hf
    · have hrest := lent_runCleanups rb now gaps.tail hrun.here
      refine not_held_later hrest.moved hne hle₁ ?_
      obtain ⟨hwinner, hstored, hkey, howner⟩ := hminds
      have hwf : Shm.Wf _ _ [] [] [] l₁.zone := hgap.ok.wf
      have hne₀ : f.coldOwner ≠ 0 := fun hz => hne (howner.symm.trans hz)
      unfold Cleanup.run
      dsimp only
      rw [if_pos (by rw [hwinner, hstored]; rfl), ← hkey, ← howner]
      exact hwf.not_held_unstub rb hne₀ now
    · exact ih gaps.tail hrun hle₁ hf

/-- What the pool has a cleanup for. -/
theorem mem_formers {f : Former} (hf : f ∈ s.ctx.toFormer :: s.former)
    (hcleanup : f = s.ctx.toFormer → s.ctx.coldCleanup = true) : f ∈ s.formers := by
  unfold Visit.formers
  split_ifs with hc
  · exact hf
  · rcases List.mem_cons.1 hf with rfl | hf
    · exact absurd (hcleanup rfl) hc
    · exact hf

/-- **The end of the pool** ends every lease that the request has not left behind. -/
theorem Visit.Accounts.close (h : s.Accounts g) (hlent : Lent z₀ s.pass) {now : Time}
    {gaps : List (List Shm.Event)} {t : Turn} (he : t.event = .closed now gaps)
    (hkept : ¬LeavesBehind rb digest crc g s t) : (s.close rb now gaps).Accounts g := by
  have hmoved := (hlent.here.close rb now gaps).ok.moved
  refine ⟨fun hg => ⟨(h.token hg).1, (h.token hg).2.trans hmoved.ownerSeq⟩, fun hg hheld => ?_,
    fun _ => rfl, fun _ _ _ => rfl, fun _ => rfl⟩
  obtain ⟨hne, hle⟩ := h.token hg
  refine absurd hheld ?_
  rcases h.minds hg (hmoved.held g.1 g.2 hne hle hheld) with hpends | ⟨f, hf, hminds⟩
  · exact absurd (.aborted (by rw [he]; rfl) hpends) hkept
  have hmem : Cleanup.cold f ∈ s.cleanups := by
    refine List.mem_append_left _ (List.mem_map_of_mem (mem_formers hf fun hself => ?_))
    by_contra hno
    exact hkept (.bare (by rw [he]; rfl) (Bool.not_eq_true _ ▸ hno) (hself ▸ hminds))
  have hsince : (Shm.Loans.lend s.pass.pins s.pass.others).Since z₀ := hlent.ok
  rw [show s.pass.pins = _ from (pins_cleanups s).symm] at hsince
  exact not_held_cleanups rb now gaps hsince hne hle hmem hminds

/-- **An internal redirect** leaves the cleanup of the old context in the pool. -/
theorem Visit.Accounts.redirect (h : s.Accounts g) (hleft : s.place = .left) {onlyIfCached : Bool}
    {t : Turn} (he : t.event = .redirect onlyIfCached)
    (hkept : ¬LeavesBehind rb digest crc g s t) : (s.redirect onlyIfCached).Accounts g := by
  refine ⟨h.token, fun hg hheld => Or.inr ?_, fun _ => rfl, fun _ _ _ => rfl, nofun⟩
  rcases h.minds hg hheld with ⟨hparked, -⟩ | ⟨f, hf, hminds⟩
  · exact absurd hleft (Place.ne_of_isParked hparked).1
  · refine ⟨f, List.mem_cons_of_mem _ (mem_formers hf fun hself => ?_), hminds⟩
    by_contra hno
    exact hkept (.bare (by rw [he, hleft]; rfl) (Bool.not_eq_true _ ▸ hno) (hself ▸ hminds))

theorem Visit.Accounts.elsewhere (h : s.Accounts g) (hlent : Lent z₀ s.pass) {t : Turn}
    (hkept : ¬LeavesBehind rb digest crc g s t) : (s.elsewhere rb t.event).Accounts g := by
  unfold Visit.elsewhere
  split
  · exact h.settle (hlent.ok.here.others rb _).moved rfl rfl rfl (fun _ => rfl) fun _ _ hm => hm
  · split_ifs with hleft
    · exact h.unstored rb hlent hleft _
    · exact h
  · split_ifs with hleft
    · exact h.stored rb hlent hleft _ _ _
    · exact h
  · rename_i he
    split_ifs with hleft
    · exact h.redirect rb digest crc hleft he hkept
    · exact h
  · rename_i he
    split_ifs
    · exact h
    · exact h.close rb digest crc hlent he hkept
  all_goals exact h

theorem Visit.Accounts.turn (h : s.Accounts g) (hlent : Lent z₀ s.pass) {t : Turn}
    (hkept : ¬LeavesBehind rb digest crc g s t) :
    (Access.turn rb digest crc s t).Accounts g := by
  cases ha : s.arrive t.event with
  | some a => exact h.pass rb digest crc hlent ha hkept
  | none =>
    rw [turn_of_none rb digest crc ha]
    exact h.elsewhere rb digest crc hlent hkept

end Runs

instance (g : KeyHash × ℕ) (f : Former) : Decidable (f.Minds g) :=
  inferInstanceAs (Decidable (_ ∧ _))

instance (g : KeyHash × ℕ) (s : Visit) : Decidable (s.Pends g) :=
  inferInstanceAs (Decidable (_ ∧ _))

instance (rb : Rbtree) (digest : Bytes → KeyHash) (crc : KeyHash → UInt32) (g : KeyHash × ℕ)
    (s : Visit) (t : Turn) : Decidable (LeavesBehind rb digest crc g s t) :=
  decidable_of_iff
    (t.event.replaces s.place = true ∧ s.ctx.coldCleanup = false ∧ s.ctx.toFormer.Minds g ∨
      t.event.closes = true ∧ s.Pends g ∨
      (s.arrive t.event).isSome = true ∧ s.Pends g ∧ Held (turn rb digest crc s t).zone g.1 g.2 ∧
        ¬((turn rb digest crc s t).ctx.keyHash = g.1 ∧
          ((turn rb digest crc s t).ctx.coldWinner = true ∨
            (turn rb digest crc s t).place.isParked = true)))
    (by
      constructor
      · rintro (⟨hreplaces, hcleanup, hminds⟩ | ⟨hcloses, hpends⟩ | ⟨harr, hpends, hheld, hend⟩)
        · exact .bare hreplaces hcleanup hminds
        · exact .aborted hcloses hpends
        · exact .passed harr hpends hheld hend
      · rintro (⟨hreplaces, hcleanup, hminds⟩ | ⟨hcloses, hpends⟩ | ⟨harr, hpends, hheld, hend⟩)
        · exact Or.inl ⟨hreplaces, hcleanup, hminds⟩
        · exact Or.inr (Or.inl ⟨hcloses, hpends⟩)
        · exact Or.inr (Or.inr ⟨harr, hpends, hheld, hend⟩))

/-- A cold miss in a location with single flight across the nodes. -/
def missTurn (e : VisitEvent) : Turn :=
  ⟨{ varyingConf with autoVary := false, lock := true }, bareRequest [47], [47], e⟩

/-- The request wins the claim and the lock, and its pool is destroyed before a response. -/
def unansweredRun : List Turn :=
  [missTurn (.enter (promptEnv 1000)), missTurn (.reply .declined [] true (promptEnv 1001)),
    missTurn (.lockReply .ok (promptEnv 1002)), missTurn (.closed 1003 [])]

/-- The client goes away while the lock is asked for. -/
def abortedRun : List Turn :=
  [missTurn (.enter (promptEnv 1000)), missTurn (.reply .declined [] true (promptEnv 1001)),
    missTurn (.closed 1002 [])]

-- The lease stays until its time is over.
example : Held (Run.after (turn Rbtree.unbalanced lengthDigest fun _ => 0)
    (.begin (.fresh roomyZone) false) abortedRun).zone (lengthDigest [47]) 1 := by decide +kernel

end Access
end Http
end CacheTurbo
