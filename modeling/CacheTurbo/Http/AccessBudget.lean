/-
# What a request may ask of the second level

Every resume of a parked request runs the access handler from the beginning, and the flags of
its context are all that keeps it from sending the same command again.  The context of a request
has a budget: one `GET` for the marker, two for an object, and one attempt at the lock.  Every
wait on the timer is good for one more `GET` of an object.

The first `GET` of an object is paid for when no reply has come (`l2_done`), and the second when
the marker can be asked for, or was (`marker_l2_done`, `marker_l2_tried`): a reply that is read
as the marker's leaves the object to be asked for again.
-/

import CacheTurbo.Http.AccessFrame
import CacheTurbo.Http.AccessLoans

namespace CacheTurbo
namespace Http
namespace Access

open Bytes Blob
open Shm (Zone Rbtree BlobId Loans)

/-- The request has been answered, or is at the origin, or gone. -/
def Place.over : Place → Bool
  | .left | .closed => true
  | .outside | .parked _ => false

/-- One, for a request that is parked there. -/
def Place.at (waits : Waits) (place : Place) : ℕ := (decide (place = .parked waits)).toNat

/-- The `GET`s of the marker that a context has left. -/
def Ctx.markerGets (c : Ctx) (place : Place) : ℕ := (!place.over && !c.markerL2Done).toNat

/-- The `GET`s of an object that a context has left. -/
def Ctx.objectGets (c : Ctx) (place : Place) : ℕ :=
  (!place.over && !c.l2Done && decide (place ≠ .parked .markerGet) &&
      decide (place ≠ .parked .objectGet)).toNat +
    (!place.over && c.markerL2Tried).toNat + (!place.over && !c.markerL2Done).toNat

/-- The attempts at the lock that a context has left. -/
def Ctx.locks (c : Ctx) (place : Place) : ℕ :=
  (!place.over && c.lockReply.isNone && decide (place ≠ .parked .lock)).toNat

/-- Where a part of a pass leaves the request. -/
def Step.place (s : Step) : Place := s.2.elim .outside End.place

/-- A part of a pass pays for the command it ends with. -/
structure Spends (c : Ctx) (s : Step) : Prop where
  marker : s.place.at .markerGet + s.1.ctx.markerGets s.place ≤ c.markerGets .outside
  object : s.place.at .objectGet + s.1.ctx.objectGets s.place ≤
    c.objectGets .outside + s.place.at .timer
  lock : s.place.at .lock + s.1.ctx.locks s.place ≤ c.locks .outside

/-- A part that is the end of the pass, and parks nothing. -/
theorem Spends.of_left {c : Ctx} {s : Step} (h : s.place = .left) : Spends c s := by
  constructor <;> rw [h] <;> exact Nat.zero_le _

/-- The fields that a budget is read from. -/
def Ctx.spent (c : Ctx) : Bool × Bool × Bool × Option Rc :=
  (c.markerL2Done, c.l2Done, c.markerL2Tried, c.lockReply)

/-- A context with the same flags has the same budget. -/
theorem budget_congr {c c' : Ctx} (h : c'.spent = c.spent) (place : Place) :
    c'.markerGets place = c.markerGets place ∧ c'.objectGets place = c.objectGets place ∧
      c'.locks place = c.locks place := by
  simp only [Ctx.spent, Prod.mk.injEq] at h
  obtain ⟨hdone, hl2, htried, hlock⟩ := h
  simp only [Ctx.markerGets, Ctx.objectGets, Ctx.locks, hdone, hl2, htried, hlock, and_self]

/-- The part goes on, and spends nothing. -/
theorem Spends.of_spent {c : Ctx} {s : Step} (h : s.1.ctx.spent = c.spent)
    (hplace : s.place = .outside) : Spends c s := by
  obtain ⟨hmarker, hobject, hlock⟩ := budget_congr h .outside
  constructor <;> rw [hplace]
  · exact (congrArg (0 + ·) hmarker).le.trans (Nat.zero_add _).le
  · exact (congrArg (0 + ·) hobject).le.trans (Nat.zero_add _).le
  · exact (congrArg (0 + ·) hlock).le.trans (Nat.zero_add _).le

theorem Flows.spent {p q : Pass} (h : Flows p q) : q.ctx.spent = p.ctx.spent :=
  h.field Ctx.spent fun _ => rfl

/-- The pass goes on, or is over. -/
theorem place_of_waits {s : Step} (h : ∀ e ∈ s.2, e.waits = none) :
    s.place = .outside ∨ s.place = .left := by
  obtain ⟨q, o⟩ := s
  cases o with
  | none => exact Or.inl rfl
  | some e =>
    refine Or.inr ?_
    have he := h e rfl
    cases e with
    | parked waits => cases he
    | served | origin | gatewayTimeout | unavailable | error => rfl

theorem StepFlows.spends {p : Pass} {s : Step} (h : StepFlows p s) : Spends p.ctx s := by
  rcases place_of_waits h.waits with hplace | hplace
  · exact .of_spent h.flows.spent hplace
  · exact .of_left hplace

/-- The lookup may send the lock command. -/
theorem LooksUp.spends {p : Pass} {s : Step} (h : LooksUp p s) : Spends p.ctx s := by
  have hspent := h.flows.spent
  obtain ⟨q, o⟩ := s
  cases o with
  | none => exact .of_spent hspent rfl
  | some e =>
    rcases h.waits e rfl with hw | ⟨hw, hnone⟩
    · exact StepFlows.spends ⟨h.flows, fun e' he' => Option.some.inj he' ▸ hw⟩
    · cases e with
      | parked waits =>
        obtain rfl := Option.some.inj hw
        obtain ⟨hmarker, hobject, -⟩ := budget_congr hspent (.parked .lock)
        exact ⟨(Nat.zero_add _).le.trans hmarker.le, (Nat.zero_add _).le.trans hobject.le,
          by simp [Ctx.locks, Step.place, End.place, Place.at, Place.over, hnone]⟩
      | served | origin | gatewayTimeout | unavailable | error => cases hw

/-- Two parts, one after the other. -/
theorem Spends.andThen {c : Ctx} {s : Step} (h : Spends c s) {next : Pass → Step}
    (hnext : s.2 = none → Spends s.1.ctx (next s.1)) : Spends c (s.andThen next) := by
  obtain ⟨q, o⟩ := s
  cases o with
  | some e => exact h
  | none =>
    have hmarker : q.ctx.markerGets .outside ≤ c.markerGets .outside :=
      (Nat.zero_add _).ge.trans h.marker
    have hobject : q.ctx.objectGets .outside ≤ c.objectGets .outside :=
      (Nat.zero_add _).ge.trans h.object
    have hlock : q.ctx.locks .outside ≤ c.locks .outside := (Nat.zero_add _).ge.trans h.lock
    obtain ⟨hmarker', hobject', hlock'⟩ := hnext rfl
    exact ⟨hmarker'.trans hmarker, hobject'.trans (Nat.add_le_add_right hobject _),
      hlock'.trans hlock⟩

/-- A part before it that spends nothing, or less than it had. -/
theorem Spends.of_le {c c' : Ctx} {s : Step} (h : Spends c s)
    (hmarker : c.markerGets .outside ≤ c'.markerGets .outside)
    (hobject : c.objectGets .outside ≤ c'.objectGets .outside)
    (hlock : c.locks .outside ≤ c'.locks .outside) : Spends c' s :=
  ⟨h.marker.trans hmarker, h.object.trans (Nat.add_le_add_right hobject _), h.lock.trans hlock⟩

theorem Spends.of_eq {c c' : Ctx} {s : Step} (h : Spends c s) (he : c.spent = c'.spent) :
    Spends c' s := by
  obtain ⟨hmarker, hobject, hlock⟩ := budget_congr he .outside
  exact h.of_le hmarker.le hobject.le hlock.le

section Phases

variable (rb : Rbtree) (digest : Bytes → KeyHash) (crc : KeyHash → UInt32) (conf : Conf)
  (r : Request) (base : Bytes) (env : Env)

/-! ## The phases that write the flags -/

theorem spent_l2MarkerRead (p : Pass) :
    (l2MarkerRead rb digest crc conf r base env p).ctx.spent = p.ctx.spent := by
  unfold l2MarkerRead
  dsimp only
  split
  · split_ifs <;> rfl
  · split_ifs <;> rfl

/-- **A reply that is read as the marker's** frees the place for the object's. -/
theorem spends_l2MarkerConsume (p : Pass) {s : Step}
    (h : Spends (l2MarkerConsume rb digest crc conf r base env p).ctx s) : Spends p.ctx s := by
  have hread := spent_l2MarkerRead rb digest crc conf r base env p
  simp only [Ctx.spent, Prod.mk.injEq] at hread
  obtain ⟨hdone, -, -, hlock⟩ := hread
  unfold l2MarkerConsume at h
  split_ifs at h with hpending htakes
  · exact h
  all_goals
    simp only [Bool.or_eq_true, Bool.not_eq_true', not_or, Bool.not_eq_false] at hpending
    obtain ⟨htried, hl2⟩ := hpending
    refine h.of_le ?_ ?_ ?_ <;>
      simp [Pass.setCtx, Ctx.markerGets, Ctx.objectGets, Ctx.locks, Place.over, hdone, hlock,
        htried, hl2]

theorem spends_l2MarkerGet (p : Pass) : Spends p.ctx (l2MarkerGet digest crc conf base env p) := by
  unfold l2MarkerGet
  dsimp only
  split_ifs with hnot hskip hsent
  · exact .of_spent rfl rfl
  · constructor <;> simp [Pass.setCtx, Pass.setZone, Pass.did, Step.place, Place.at, Place.over,
      Ctx.markerGets, Ctx.objectGets, Ctx.locks]
  all_goals
    simp only [Bool.or_eq_true, not_or, Bool.not_eq_true] at hnot
    obtain ⟨⟨⟨-, htried⟩, hdone⟩, -⟩ := hnot
    constructor <;> simp [Pass.setCtx, Pass.setZone, Pass.did, Step.place, Place.at, Place.over,
      Ctx.markerGets, Ctx.objectGets, Ctx.locks, End.place, htried, hdone]

theorem spends_l2NegMemo (p : Pass) {s : Step} (h : Spends (l2NegMemo crc conf env p).ctx s) :
    Spends p.ctx s := by
  unfold l2NegMemo at h
  dsimp only at h
  split_ifs at h
  · refine h.of_le ?_ ?_ ?_ <;>
      simp [Pass.setCtx, Pass.setZone, Pass.did, Ctx.markerGets, Ctx.objectGets, Ctx.locks,
        Place.over]
  · exact h
  · exact h

theorem spends_l2Get (p : Pass) : Spends p.ctx (l2Get conf env p) := by
  unfold l2Get
  split_ifs with hdown hsent
  · constructor <;> simp [Pass.setCtx, Step.place, Place.at, Place.over, Ctx.markerGets,
      Ctx.objectGets, Ctx.locks]
  · simp only [Bool.and_eq_true, Bool.not_eq_true'] at hsent
    obtain ⟨⟨-, hl2⟩, -⟩ := hsent
    constructor <;> simp [Pass.did, Step.place, Place.at, Place.over, Ctx.markerGets,
      Ctx.objectGets, Ctx.locks, End.place, hl2]
    omega
  · exact .of_spent rfl rfl

/-- **Every wait on the timer** is good for one more `GET`. -/
theorem spends_coldWait (p : Pass) : Spends p.ctx (coldWait r env p) := by
  have hserve : ∀ (q : Pass) (body : Body), q.ctx.spent = p.ctx.spent →
      Spends p.ctx (serve r env none (some body) true .staleIfError q) := fun q body hq =>
    ((Flows.refl q).serve r env _ _ _ _).spends.of_eq hq
  unfold coldWait
  dsimp only
  split_ifs
  · exact .of_left rfl
  · split
    · exact hserve _ _ rfl
    · exact .of_left rfl
  · exact .of_left rfl
  · constructor <;> simp [Pass.setCtx, Step.place, Place.at, Place.over, Ctx.markerGets,
      Ctx.objectGets, Ctx.locks, End.place]
    omega

theorem spends_coldResumeLocked (p : Pass) : Spends p.ctx (coldResumeLocked r env p) := by
  unfold coldResumeLocked
  split_ifs
  · exact .of_left rfl
  · exact spends_coldWait r env p

/-- The lock command is sent once the claim is won, and no reply of the lock has come. -/
theorem spends_coldClaimed (answer : Shm.ClaimAnswer) (p : Pass) (hnone : p.ctx.lockReply = none) :
    Spends p.ctx (coldClaimed conf r env answer p) := by
  unfold coldClaimed
  split_ifs
  · split
    · exact .of_left rfl
    · exact spends_coldWait r env p
  · have hspent := (flows_lock conf env p).spent
    rcases hl : lock conf env p with ⟨q, sent⟩
    rw [hl] at hspent
    cases sent with
    | false => exact .of_left rfl
    | true =>
      simp only [Ctx.spent, Prod.mk.injEq] at hspent
      obtain ⟨hdone, hl2, htried, hlock⟩ := hspent
      constructor <;> simp [Step.place, Place.at, Place.over, Ctx.markerGets, Ctx.objectGets,
        Ctx.locks, End.place, hdone, hl2, htried, hlock, hnone]

theorem spends_cold (p : Pass) : Spends p.ctx (cold rb conf r env p) := by
  unfold cold
  dsimp only
  split_ifs with hlock hreply hcount hdeclined hfresh hraced
  · exact .of_spent rfl rfl
  · exact spends_coldResumeLocked r env p
  · exact .of_left rfl
  · exact (flows_coldFresh r env _ _).spends.of_eq rfl
  · refine Spends.of_eq (spends_coldClaimed conf r env _ _ ?_) rfl
    exact not_not.1 hreply
  · exact (flows_coldRaced r env _).spends.of_eq rfl
  · refine Spends.of_eq (spends_coldClaimed conf r env _ _ ?_) rfl
    exact not_not.1 hreply

/-! ## A pass -/

theorem spends_l1 (p : Pass) : Spends p.ctx (l1 rb digest crc conf r base env p) :=
  (looksUp_l1Lookup conf r env _).spends.of_eq rfl

theorem spends_l2 (p : Pass) : Spends p.ctx (l2 rb digest crc conf r base env p) := by
  refine spends_l2MarkerConsume rb digest crc conf r base env (p.meanwhile rb env .marker) ?_
  unfold l2
  dsimp only
  refine Spends.of_eq (Spends.andThen (spends_l2MarkerGet digest crc conf base env _)
    fun _ => ?_) rfl
  refine spends_l2NegMemo crc conf env (Pass.meanwhile rb env .memo _) ?_
  exact (spends_l2Get conf env _).andThen fun _ =>
    (flows_l2Reply rb crc conf r env _).spends.of_eq rfl

/-- **A pass pays for the command it ends with.** -/
theorem spends_handler (p : Pass) :
    Spends p.ctx ((handler rb digest crc conf r base env p).1,
      some (handler rb digest crc conf r base env p).2) := by
  have hsteps : Spends p.ctx ((l1 rb digest crc conf r base env p).andThen fun p =>
      (l2 rb digest crc conf r base env p).andThen fun p =>
        let p := l2MissAccount rb conf env (p.meanwhile rb env .account)
        (onlyIfCached conf r env (p.meanwhile rb env .onlyIfCached)).andThen fun p =>
          (breakerGate conf r env (p.meanwhile rb env .breaker)).andThen fun p =>
            (minUses rb conf env (p.meanwhile rb env .minUses)).andThen fun p =>
              cold rb conf r env (p.meanwhile rb env .cold)) := by
    refine (spends_l1 rb digest crc conf r base env p).andThen fun _ => ?_
    refine (spends_l2 rb digest crc conf r base env _).andThen fun _ => ?_
    refine Spends.of_eq (Spends.andThen (flows_onlyIfCached conf r env _).spends fun _ => ?_)
      (flows_l2MissAccount rb conf env _).spent
    refine Spends.of_eq (Spends.andThen (flows_breakerGate conf r env _).spends fun _ => ?_) rfl
    refine Spends.of_eq (Spends.andThen (flows_minUses rb conf env _).spends fun _ => ?_) rfl
    exact (spends_cold rb conf r env _).of_eq rfl
  unfold handler
  dsimp only
  generalize ((l1 rb digest crc conf r base env p).andThen fun p =>
    (l2 rb digest crc conf r base env p).andThen fun p => _) = s at hsteps ⊢
  obtain ⟨q, o⟩ := s
  cases o with
  | some e => exact hsteps
  | none => exact .of_left rfl

end Phases

/-! ## A visit -/

section Visits

variable (rb : Rbtree) (digest : Bytes → KeyHash) (crc : KeyHash → UInt32)

/-- A pass of the handler. -/
def passed (s : Visit) (t : Turn) : ℕ := (s.arrive t.event).isSome.toNat

/-- A pass that ends with a command, or with the timer. -/
def parks (waits : Waits) (s : Visit) (t : Turn) : ℕ :=
  if (s.arrive t.event).isSome then (turn rb digest crc s t).place.at waits else 0

/-- An internal redirect gives the request a new context. -/
def redirected (s : Visit) (t : Turn) : ℕ :=
  match t.event with
  | .redirect _ => if s.place = .left then 1 else 0
  | _ => 0

/-- The passes that a request is still to make, but for those that it parks itself for. -/
def Place.due : Place → ℕ
  | .outside | .parked _ => 1
  | .left | .closed => 0

/-- A reply that has come leaves the budget as it was while the request was parked. -/
theorem budget_arrive {s : Visit} {e : VisitEvent} {a : Visit × Env} (ha : a ∈ s.arrive e) :
    s.place.due = 1 ∧ a.1.ctx.markerGets .outside ≤ s.ctx.markerGets s.place ∧
      a.1.ctx.objectGets .outside ≤ s.ctx.objectGets s.place ∧
      a.1.ctx.locks .outside ≤ s.ctx.locks s.place := by
  cases e with
  | enter env =>
    obtain ⟨hplace, ha'⟩ := Option.ite_none_right_eq_some.1 (Option.mem_def.1 ha)
    obtain rfl := Option.some.inj ha'
    rw [hplace]
    exact ⟨rfl, le_rfl, le_rfl, le_rfl⟩
  | woken env =>
    obtain ⟨hplace, ha'⟩ := Option.ite_none_right_eq_some.1 (Option.mem_def.1 ha)
    obtain rfl := Option.some.inj ha'
    rw [hplace]
    exact ⟨rfl, le_rfl, le_rfl, le_rfl⟩
  | lockReply result env =>
    obtain ⟨hplace, ha'⟩ := Option.ite_none_right_eq_some.1 (Option.mem_def.1 ha)
    obtain rfl := Option.some.inj ha'
    rw [hplace]
    exact ⟨rfl, le_rfl, le_rfl, Nat.zero_le _⟩
  | reply result blob room env =>
    rw [Visit.arrive, Option.mem_def] at ha
    split at ha
    · rename_i hplace
      obtain rfl := Option.some.inj ha
      rw [hplace]
      refine ⟨rfl, le_rfl, ?_, le_rfl⟩
      simp [Visit.getFinish, Ctx.getFinish, Ctx.objectGets, Place.over]
    · rename_i hplace
      obtain rfl := Option.some.inj ha
      rw [hplace]
      refine ⟨rfl, le_rfl, ?_, le_rfl⟩
      simp [Visit.getFinish, Ctx.getFinish, Ctx.objectGets, Place.over]
    all_goals cases ha
  | other _ | unstored _ | stored _ _ _ | redirect _ | closed _ _ => cases ha

/-- An event that does not run the handler: it redirects the request, or destroys its pool, or
leaves the request where it is with the flags it has. -/
theorem turn_elsewhere {s : Visit} {t : Turn} (ha : s.arrive t.event = none) :
    let s' := turn rb digest crc s t
    (redirected s t = 1 ∧ s'.place = .outside ∧ ∃ onlyIfCached, s'.ctx = Ctx.fresh onlyIfCached) ∨
      s'.place = .closed ∨ s'.place = s.place ∧ s'.ctx.spent = s.ctx.spent := by
  intro s'
  rw [show s' = s.elsewhere rb t.event from turn_of_none rb digest crc ha]
  rcases elsewhere_cases rb s t.event with ⟨o, he, hleft, hs⟩ | ⟨now, gaps, hs, -⟩ | ⟨l, c, hs⟩
  · rw [hs, redirected, he]
    exact Or.inl ⟨if_pos hleft, rfl, o, rfl⟩
  · rw [hs]
    exact Or.inr (Or.inl rfl)
  · rw [hs]
    exact Or.inr (Or.inr ⟨rfl, rfl⟩)

/-- **An event pays for what it sends** out of the budget of the context. -/
theorem budget_turn (s : Visit) (t : Turn) :
    let s' := turn rb digest crc s t
    parks rb digest crc .markerGet s t + s'.ctx.markerGets s'.place ≤
        s.ctx.markerGets s.place + redirected s t ∧
      parks rb digest crc .objectGet s t + s'.ctx.objectGets s'.place ≤
        s.ctx.objectGets s.place + (2 * redirected s t + parks rb digest crc .timer s t) ∧
      parks rb digest crc .lock s t + s'.ctx.locks s'.place ≤
        s.ctx.locks s.place + redirected s t := by
  simp only [parks]
  cases ha : s.arrive t.event with
  | some a =>
    obtain ⟨-, hmarker, hobject, hlock⟩ := budget_arrive ha
    have hpass := spends_handler rb digest crc t.conf t.r t.base a.2 a.1.pass
    rw [turn_of_arrive rb digest crc ha, Option.isSome_some, if_pos rfl, if_pos rfl, if_pos rfl,
      if_pos rfl]
    refine ⟨?_, ?_, ?_⟩
    · exact (hpass.marker.trans hmarker).trans (Nat.le_add_right _ _)
    · have hgets := hpass.object.trans (Nat.add_le_add_right hobject _)
      exact hgets.trans (Nat.add_le_add_left (Nat.le_add_left _ _) _)
    · exact (hpass.lock.trans hlock).trans (Nat.le_add_right _ _)
  | none =>
    simp only [Option.isSome_none, Bool.false_eq_true, if_false, Nat.zero_add, Nat.add_zero]
    rcases turn_elsewhere rb digest crc ha with ⟨hone, hplace, b, hctx⟩ | hplace | ⟨hplace, hspent⟩
    · rw [hone, hplace, hctx]
      exact ⟨Nat.le_add_left _ _, Nat.le_add_left _ _, Nat.le_add_left _ _⟩
    · rw [hplace]
      exact ⟨Nat.zero_le _, Nat.zero_le _, Nat.zero_le _⟩
    · obtain ⟨hmarker, hobject, hlock⟩ := budget_congr hspent s.place
      rw [hplace, hmarker, hobject, hlock]
      exact ⟨Nat.le_add_right _ _, Nat.le_add_right _ _, Nat.le_add_right _ _⟩

/-- **A pass is the first of its context, or what the request was parked for.** -/
theorem passes_turn (s : Visit) (t : Turn) :
    passed s t + (turn rb digest crc s t).place.due ≤ s.place.due + (redirected s t +
      (parks rb digest crc .markerGet s t + parks rb digest crc .objectGet s t +
        parks rb digest crc .lock s t + parks rb digest crc .timer s t)) := by
  simp only [parks, passed]
  cases ha : s.arrive t.event with
  | some a =>
    obtain ⟨hdue, -⟩ := budget_arrive ha
    have hparked : ∀ e : End, e.place.due ≤ e.place.at .markerGet + e.place.at .objectGet +
        e.place.at .lock + e.place.at .timer := by
      intro e
      cases e with
      | parked waits => cases waits <;> decide
      | served | origin | gatewayTimeout | unavailable | error => exact Nat.zero_le _
    rw [turn_of_arrive rb digest crc ha, hdue, Option.isSome_some, if_pos rfl, if_pos rfl,
      if_pos rfl, if_pos rfl]
    exact Nat.add_le_add_left ((hparked _).trans (Nat.le_add_left _ _)) 1
  | none =>
    simp only [Option.isSome_none, Bool.false_eq_true, if_false, Nat.add_zero]
    rcases turn_elsewhere rb digest crc ha with ⟨hone, hplace, -⟩ | hplace | ⟨hplace, -⟩
    · rw [hone, hplace]
      exact Nat.le_add_left _ _
    · rw [hplace]
      exact Nat.zero_le _
    · rw [hplace]
      exact (Nat.zero_add _).le.trans (Nat.le_add_right _ _)

end Visits

end Access
end Http
end CacheTurbo
