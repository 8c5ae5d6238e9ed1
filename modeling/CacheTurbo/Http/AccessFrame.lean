/-
# What the gates leave alone

A pass of the access handler is led by few fields of its context: the flags of the two `GET`s,
the reply of the lock, the wait, and the token of a cold miss.  The lookup in the zone, the
reading of an object's reply and the gates write other fields only (`Ctx.flow` has these blank),
and of these phases the lookup alone can park a request: on the lock, when no reply of the lock
has come yet.

A phase that writes one of the leading fields is not here.
-/

import CacheTurbo.Http.AccessVisit

namespace CacheTurbo
namespace Http
namespace Access

open Bytes Blob
open Shm (Zone Rbtree BlobId L1Req L1Verdict)

/-- The context without the fields that the lookup and the gates write. -/
def Ctx.flow (c : Ctx) : Ctx :=
  { c with
    brkArmDone := false
    brkSnap := none
    brkAction := none
    sieSnap := none
    reqReval := false
    minUsesPassed := false
    minUsesSkip := false
    lockOwnerRand := 0
    l2PresentUnserveable := false
    l2MissCounted := false }

/-- Where the end of a pass parks the request. -/
def End.waits : End → Option Waits
  | .parked waits => some waits
  | .served _ _ | .origin _ | .gatewayTimeout | .unavailable | .error => none

/-- A part of a pass that writes none of the leading fields. -/
structure Flows (p q : Pass) : Prop where
  ctx : q.ctx.flow = p.ctx.flow
  former : q.former = p.former
  granted : q.granted = p.granted

/-- Such a part that may end the pass, and parks nothing. -/
structure StepFlows (p : Pass) (s : Step) : Prop where
  flows : Flows p s.1
  waits : ∀ e ∈ s.2, e.waits = none

theorem Flows.refl (p : Pass) : Flows p p := ⟨rfl, rfl, rfl⟩

theorem Flows.trans {p q t : Pass} (h : Flows p q) (h' : Flows q t) : Flows p t :=
  ⟨h'.ctx.trans h.ctx, h'.former.trans h.former, h'.granted.trans h.granted⟩

/-- The leading fields, one by one. -/
theorem Flows.field {p q : Pass} (h : Flows p q) {α : Type*} (f : Ctx → α)
    (hf : ∀ c : Ctx, f c.flow = f c) : f q.ctx = f p.ctx := by
  rw [← hf q.ctx, h.ctx, hf]

theorem Flows.setCtx (p : Pass) (f : Ctx → Ctx) (h : (f p.ctx).flow = p.ctx.flow) :
    Flows p (p.setCtx f) :=
  ⟨h, rfl, rfl⟩

theorem Flows.goesOn {p q : Pass} (h : Flows p q) : StepFlows p (q, none) := ⟨h, nofun⟩

theorem Flows.ends {p q : Pass} (h : Flows p q) {e : End} (he : e.waits = none) :
    StepFlows p (q, some e) := by
  refine ⟨h, fun e' he' => ?_⟩
  obtain rfl := Option.some.inj (Option.mem_def.1 he')
  exact he

theorem Flows.after {p q : Pass} (h : Flows p q) {s : Step} (hs : StepFlows q s) :
    StepFlows p s :=
  ⟨h.trans hs.flows, hs.waits⟩

section Phases

variable (rb : Rbtree) (crc : KeyHash → UInt32) (conf : Conf) (r : Request) (env : Env)

theorem Flows.unref {p q : Pass} (h : Flows p q) (ref : Option BlobId) : Flows p (q.unref ref) := by
  cases ref with
  | some b => exact ⟨h.ctx, h.former, h.granted⟩
  | none => exact h

theorem Flows.serve {p q : Pass} (h : Flows p q) (ref : Option BlobId) (body : Option Body)
    (stale : Bool) (reason : ServeReason) :
    StepFlows p (Access.serve r env ref body stale reason q) := by
  unfold Access.serve
  dsimp only
  split
  · exact h.ends rfl
  · exact (h.unref ref).ends rfl
  · refine Flows.ends ?_ rfl
    split_ifs
    · exact h
    · exact h.unref ref

theorem flows_lock (p : Pass) : Flows p (lock conf env p).1 := by
  unfold lock
  split_ifs
  · exact ⟨rfl, rfl, rfl⟩
  · exact Flows.refl p

/-! ## The lookup -/

/-- The lookup parks a request on the lock, when no reply of the lock has come. -/
structure LooksUp (p : Pass) (s : Step) : Prop where
  flows : Flows p s.1
  waits : ∀ e ∈ s.2, e.waits = none ∨ e.waits = some .lock ∧ p.ctx.lockReply = none

theorem StepFlows.looksUp {p : Pass} {s : Step} (h : StepFlows p s) : LooksUp p s :=
  ⟨h.flows, fun e he => Or.inl (h.waits e he)⟩

theorem serveStale_refresh {z : Zone} {a : Shm.Addr} {hash : UInt32} {now : Time} {q : L1Req}
    {body : Option BlobId} (h : (Shm.serveStale z a hash now q).2 = .refresh body) :
    q.lockResult = none := by
  unfold Shm.serveStale at h
  dsimp only at h
  split_ifs at h with hreply hbackground hroom hfree
  exact hfree.1

theorem armSnapshots_ne_refresh {z : Zone} {a : Shm.Addr} {now : Time} {q : L1Req}
    (body : Option BlobId) : (Shm.armSnapshots z a now q).2 ≠ .refresh body := by
  unfold Shm.armSnapshots
  split
  · exact nofun
  · dsimp only
    split_ifs <;> exact nofun

/-- Only a lookup without a reply of the lock asks for a refresh. -/
theorem accessL1_refresh {z : Zone} {keyHash : KeyHash} {hash : UInt32} {now : Time} {q : L1Req}
    {body : Option BlobId} (h : (Shm.accessL1 z keyHash hash now q).2 = .refresh body) :
    q.lockResult = none := by
  unfold Shm.accessL1 at h
  split at h
  · cases h
  · dsimp only at h
    split_ifs at h
    · exact serveStale_refresh h
    · exact absurd h (armSnapshots_ne_refresh body)

theorem looksUp_l1Answer (q : L1Req) (verdict : L1Verdict) (p : Pass)
    (hrefresh : ∀ body, verdict = .refresh body → p.ctx.lockReply = none) :
    LooksUp p (l1Answer conf r env q verdict p) := by
  have hpin : ∀ bs, Flows p (p.pin bs) := fun bs => ⟨rfl, rfl, rfl⟩
  unfold l1Answer
  cases verdict with
  | miss => exact (Flows.refl p).goesOn.looksUp
  | error => exact ((Flows.refl p).ends rfl).looksUp
  | regenerate => exact ((Flows.refl p).ends rfl).looksUp
  | expired armed => exact (((hpin armed).trans (Flows.setCtx _ _ rfl)).goesOn).looksUp
  | hit body => exact ((hpin _).serve r env _ _ _ _).looksUp
  | stale body => exact ((hpin _).serve r env _ _ _ _).looksUp
  | refresh body =>
    have hlock := (hpin body.toList).trans (flows_lock conf env (p.pin body.toList))
    rcases hl : lock conf env (p.pin body.toList) with ⟨t, sent⟩
    rw [hl] at hlock
    dsimp only
    rw [hl]
    cases sent with
    | true =>
      refine ⟨hlock, fun e he => Or.inr ⟨?_, hrefresh body rfl⟩⟩
      obtain rfl := Option.some.inj (Option.mem_def.1 he)
      rfl
    | false =>
      dsimp only
      split_ifs
      · exact (hlock.serve r env _ _ _ _).looksUp
      · exact (hlock.ends rfl).looksUp

theorem looksUp_l1Lookup (p : Pass) : LooksUp p (l1Lookup conf r env p) := by
  unfold l1Lookup
  dsimp only
  have hbounds : Flows p ((p.setZone (Shm.accessL1 p.zone p.ctx.keyHash p.hash env.now
      (l1Req conf env p.ctx)).1).setCtx (l1ReqBounds env (Shm.accessL1 p.zone p.ctx.keyHash p.hash
      env.now (l1Req conf env p.ctx)).2)) := ⟨rfl, rfl, rfl⟩
  have hanswer := looksUp_l1Answer conf r env (l1Req conf env p.ctx) (Shm.accessL1 p.zone
    p.ctx.keyHash p.hash env.now (l1Req conf env p.ctx)).2 ((p.setZone (Shm.accessL1 p.zone
    p.ctx.keyHash p.hash env.now (l1Req conf env p.ctx)).1).setCtx (l1ReqBounds env (Shm.accessL1
    p.zone p.ctx.keyHash p.hash env.now (l1Req conf env p.ctx)).2))
    fun body hbody => accessL1_refresh hbody
  exact ⟨hbounds.trans hanswer.flows, hanswer.waits⟩

/-! ## The reply of an object, and the gates -/

theorem flows_l2ExpiredArm (sie : Bool) (blob : Bytes) (p : Pass) :
    Flows p (l2ExpiredArm conf env sie blob p) := by
  unfold l2ExpiredArm
  dsimp only
  split_ifs <;> exact ⟨rfl, rfl, rfl⟩

theorem flows_l2Reply (p : Pass) : StepFlows p (l2Reply rb crc conf r env p) := by
  unfold l2Reply
  split_ifs
  · split
    · exact (Flows.refl p).goesOn
    · split
      · exact (Flows.refl p).goesOn
      · exact (flows_l2ExpiredArm conf env _ _ p).goesOn
      · exact (Flows.setCtx p _ rfl).goesOn
      · refine Flows.serve r env ?_ _ _ _ _
        exact ⟨rfl, rfl, rfl⟩
  · exact (Flows.refl p).goesOn

theorem flows_l2MissAccount (p : Pass) : Flows p (l2MissAccount rb conf env p) := by
  unfold l2MissAccount
  dsimp only
  split_ifs
  · exact ⟨rfl, rfl, rfl⟩
  · exact ⟨rfl, rfl, rfl⟩
  · exact Flows.refl p

theorem flows_onlyIfCached (p : Pass) : StepFlows p (onlyIfCached conf r env p) := by
  unfold onlyIfCached
  split_ifs
  · exact (Flows.refl p).serve r env _ _ _ _
  · exact (Flows.refl p).ends rfl
  · exact (Flows.refl p).goesOn

theorem flows_breakerConsult (p : Pass) : Flows p (breakerConsult env p).1 := by
  unfold breakerConsult
  split
  · exact Flows.refl p
  · exact ⟨rfl, rfl, rfl⟩

theorem flows_brkRefDrop (p : Pass) : Flows p (brkRefDrop p) := by
  unfold brkRefDrop
  dsimp only
  split <;> exact ⟨rfl, rfl, rfl⟩

theorem flows_breakerGate (p : Pass) : StepFlows p (breakerGate conf r env p) := by
  have hconsult := flows_breakerConsult env p
  unfold breakerGate
  split_ifs
  · rcases hc : breakerConsult env p with ⟨q, action⟩
    rw [hc] at hconsult
    cases action with
    | probe => exact (hconsult.trans (flows_brkRefDrop q)).ends rfl
    | pass => exact (hconsult.trans (flows_brkRefDrop q)).goesOn
    | serve => exact hconsult.serve r env _ _ _ _
    | fail => exact hconsult.ends rfl
  · exact (Flows.refl p).goesOn

theorem flows_minUses (p : Pass) : StepFlows p (minUses rb conf env p) := by
  unfold minUses
  dsimp only
  split_ifs
  · refine Flows.ends ?_ rfl
    exact ⟨rfl, rfl, rfl⟩
  · refine Flows.goesOn ?_
    exact ⟨rfl, rfl, rfl⟩
  · exact (Flows.refl p).goesOn

theorem flows_coldRaced (p : Pass) : StepFlows p (coldRaced r env p) := by
  unfold coldRaced
  split_ifs
  · exact (Flows.refl p).ends rfl
  · split
    · exact (Flows.refl p).ends rfl
    · refine Flows.serve r env ?_ _ _ _ _
      exact ⟨rfl, rfl, rfl⟩

theorem flows_coldFresh (fresh : Option BlobId) (p : Pass) :
    StepFlows p (coldFresh r env fresh p) := by
  unfold coldFresh
  split
  · exact (Flows.refl p).ends rfl
  · split_ifs
    · refine Flows.ends ?_ rfl
      exact ⟨rfl, rfl, rfl⟩
    · exact (Flows.refl p).serve r env _ _ _ _

end Phases

end Access
end Http
end CacheTurbo
