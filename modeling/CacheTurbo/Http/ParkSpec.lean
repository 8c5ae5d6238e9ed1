/-
# A park is released once, and nothing is touched after the pool

Between two events a live request waits for at most one thing (`Waiting`): the answer on
a connection, or a timer.  `Wf` says what the state looks like then: which
operation is alive, where its cleanup entry stands, and that the references of the
request are nginx's own and those of the parks.  Its last argument holds
the references of a completion that is still running.

`Tear` carries the argument through the cleanups of the request's pool, the newest entry
first: they end the one operation or timer there is (`destroyPool_spec`).
`runPhases_spec` says that the phases end in a state of the same shape, parked again or not,
and `resume_spec` adds the release of the park's own reference.  The main result is
`park_lifecycle`.
-/

import CacheTurbo.Http.Park

namespace CacheTurbo
namespace Http
namespace Park

open Bytes

/-! ## What a state looks like -/

/-- What a parked request waits for: the answer on connection `c` to operation `i`, whose
cleanup entry is at position `k`, or the timer of context `x`; `p` is the reference. -/
inductive Waiting
  | conn (c i k p : ℕ)
  | timer (x p : ℕ)

/-- The reference that the park took. -/
def Waiting.park : Waiting → ℕ
  | .conn _ _ _ p => p
  | .timer _ p => p

/-- The operations that are alive. -/
def liveOps : Option Waiting → List ℕ
  | some (.conn _ i _ _) => [i]
  | _ => []

/-- The connections that are taken. -/
def liveConns : Option Waiting → List ℕ
  | some (.conn c _ _ _) => [c]
  | _ => []

/-- The references of what is waited for. -/
def liveParks : Option Waiting → List ℕ
  | some w => [w.park]
  | none => []

/-- The operation that a request waits for. -/
structure LiveOp (s : State) (c i k p : ℕ) : Prop where
  data : s.data c = i
  connection : (s.ops i).connection = some c
  reqCln : (s.ops i).reqCln = some k
  entry : s.cleanups[k]? = some (some ((s.ops i).driver.cleanup i))
  request : (s.ops i).request = true
  ctx : ∃ x < s.nctx, (s.ops i).ctx = some x
  detached : (s.ops i).detached = false
  park : (s.ops i).park = p

/-- The context of a timer that a request waits for. -/
structure LiveTimer (s : State) (x p : ℕ) : Prop where
  timerSet : (s.ctxs x).timerSet = true
  park : (s.ctxs x).park = p
  entry : some (.coldWait x) ∈ s.cleanups
  used : x < s.nctx

/-- A live request that waits for `m`; the references in `h` are those of completions that have
not finalized yet. -/
structure Wf (s : State) (m : Option Waiting) (h : List ℕ) : Prop where
  alive : s.alive = true
  count : s.count = s.others + s.parks.held.length
  parks : s.parks.held = liveParks m ++ h
  finalized : ∀ e ∈ s.parks.returned, e.2 = .finalized
  pools : s.pools.held = liveOps m
  conns : s.conns.held = liveConns m
  conn : ∀ c i k p, m = some (.conn c i k p) → LiveOp s c i k p
  timer : ∀ x p, m = some (.timer x p) → LiveTimer s x p
  cleanups : ∀ (k : ℕ) e i, s.cleanups[k]? = some (some e) → e.op? = some i →
    ∃ c p, m = some (.conn c i k p)
  timers : ∀ x, (s.ctxs x).timerSet = true → ∃ p, m = some (.timer x p)
  cold : s.writeEventHandler ≠ .terminate → ∀ x, s.ctx = some x →
    (s.ctxs x).coldWaitHandler = true → some (.coldWait x) ∈ s.cleanups
  fresh : ∀ x, s.nctx ≤ x → s.ctxs x = {}
  used : ∀ x, s.ctx = some x → x < s.nctx
  handler : s.writeEventHandler = .parked ↔ m ≠ none

/-- The request's pool has been destroyed, and nothing is left that refers to it. -/
structure Dead (s : State) : Prop where
  alive : s.alive = false
  parks : s.parks.held = []
  pools : s.pools.held = []
  conns : s.conns.held = []
  timers : ∀ x, (s.ctxs x).timerSet = false

@[simp] theorem update_ops (s : State) (i : ℕ) (f : Op → Op) :
    (s.setOp i f).ops i = f (s.ops i) := Function.update_self ..

theorem wf_start : Wf State.start none [] where
  alive := rfl
  count := rfl
  parks := rfl
  finalized := by simp [State.start, Ledger.empty]
  pools := rfl
  conns := rfl
  conn := by simp
  timer := by simp
  cleanups := by simp [State.start]
  timers := by simp [State.start]
  cold := by simp [State.start]
  fresh := by simp [State.start]
  used := by simp [State.start]
  handler := by simp [State.start]

@[simp] theorem addCleanup_ctxs (s : State) (e : Cleanup) : (s.addCleanup e).ctxs = s.ctxs := rfl

/-- The position of an entry of the grown cleanup list. -/
theorem addCleanup_cases {s : State} {e e' : Cleanup} {k : ℕ}
    (hk : (s.addCleanup e).cleanups[k]? = some (some e')) :
    s.cleanups[k]? = some (some e') ∨ k = s.cleanups.length ∧ e' = e := by
  have hk' : (s.cleanups ++ [some e])[k]? = some (some e') := hk
  rcases Nat.lt_or_ge k s.cleanups.length with hlt | hge
  · rw [List.getElem?_append_left hlt] at hk'
    exact .inl hk'
  · have hlen := (List.getElem?_eq_some_iff.1 hk').1
    rw [List.length_append, List.length_singleton] at hlen
    obtain rfl : k = s.cleanups.length := by omega
    rw [List.getElem?_concat_length] at hk'
    exact .inr ⟨rfl, by simpa using hk'.symm⟩

/-! ## Ending an operation -/

/-- `_op_done` of an operation whose cleanup entry is still armed. -/
theorem opDone_armed {s : State} {i c k : ℕ} (save : Save) (halive : s.alive = true)
    (hi : i ∈ s.pools.held) (hconn : (s.ops i).connection = some c) (hc : c ∈ s.conns.held)
    (hk : (s.ops i).reqCln = some k) :
    ∃ f : Op → Op, opDone s i save = .ok
      { s with
        cleanups := s.cleanups.set k none
        ops := Function.update s.ops i (f (s.ops i))
        conns := s.conns.giveBack c hc (connEnd (s.ops i) save)
        pools := s.pools.giveBack i hi () } := by
  refine ⟨fun op => { op with reqCln := none }, ?_⟩
  simp [opDone, State.op, hi, hk, disarm, State.request, halive, hconn, releaseConn, hc,
    destroyOpPool, State.setOp, bind, Except.bind]

/-- `_op_done` of an operation whose request is gone. -/
theorem opDone_detached {s : State} {i c : ℕ} (save : Save)
    (hi : i ∈ s.pools.held) (hconn : (s.ops i).connection = some c) (hc : c ∈ s.conns.held)
    (hk : (s.ops i).reqCln = none) :
    opDone s i save = .ok
      { s with
        conns := s.conns.giveBack c hc (connEnd (s.ops i) save)
        pools := s.pools.giveBack i hi () } := by
  simp [opDone, State.op, hi, hk, hconn, releaseConn, hc, destroyOpPool, bind, Except.bind]

/-- What a request that waits for nothing may change: its ledgers of operations and connections
as long as nothing is held, and its cleanup list as long as no entry is added that has a
handler. -/
theorem Wf.idle {s s' : State} {h : List ℕ} (w : Wf s none h) (halive : s'.alive = true)
    (hcount : s'.count = s.count) (hothers : s'.others = s.others) (hparks : s'.parks = s.parks)
    (hctx : s'.ctx = s.ctx) (hctxs : s'.ctxs = s.ctxs) (hnctx : s'.nctx = s.nctx)
    (hpools : s'.pools.held = []) (hconns : s'.conns.held = [])
    (hnew : ∀ (k : ℕ) e, s'.cleanups[k]? = some (some e) → s.cleanups[k]? = some (some e))
    (hold : ∀ e, some e ∈ s.cleanups → some e ∈ s'.cleanups)
    (hhandler : s'.writeEventHandler = s.writeEventHandler) : Wf s' none h where
  alive := halive
  count := by rw [hcount, hothers, hparks]; exact w.count
  parks := by rw [hparks]; exact w.parks
  finalized := by rw [hparks]; exact w.finalized
  pools := hpools
  conns := hconns
  conn := by simp
  timer := by simp
  cleanups := fun k e i hk hi => w.cleanups k e i (hnew k e hk) hi
  timers := by rw [hctxs]; exact w.timers
  cold := fun hne x hx hset => by
    rw [hhandler] at hne
    rw [hctx] at hx
    rw [hctxs] at hset
    exact hold _ (w.cold hne x hx hset)
  fresh := by rw [hctxs, hnctx]; exact w.fresh
  used := by rw [hctx, hnctx]; exact w.used
  handler := by rw [hhandler]; exact w.handler

/-- An entry added with a null handler is not seen. -/
theorem getElem?_append_none {l : List (Option Cleanup)} {k : ℕ} {e : Cleanup}
    (h : (l ++ [none])[k]? = some (some e)) : l[k]? = some (some e) := by
  rcases Nat.lt_or_ge k l.length with hk | hk
  · rwa [List.getElem?_append_left hk] at h
  · rw [List.getElem?_append_right hk] at h
    rcases Nat.eq_zero_or_pos (k - l.length) with h0 | h0
    · rw [h0] at h
      simp at h
    · rw [List.getElem?_eq_none (by rw [List.length_singleton]; exact h0)] at h
      simp at h

/-- **A driver that does not park leaves nothing behind**: its pool is destroyed, its connection
closed, and its cleanup entry has no handler. -/
theorem launch_declined {s : State} {h : List ℕ} (w : Wf s none h) (d : Driver) (x : ℕ)
    {l : Launch} (hl : l ≠ .launched) :
    ∃ s', launch s d x l = .ok (s', .declined) ∧ Wf s' none h ∧ s'.ctx = s.ctx ∧
      s'.writeEventHandler = s.writeEventHandler := by
  have hpools : s.pools.held = [] := w.pools
  have hconns : s.conns.held = [] := w.conns
  cases l with
  | noPool => exact ⟨s, rfl, w, rfl, rfl⟩
  | noRoom =>
    refine ⟨_, by simp [launch, destroyOpPool, opCreate, bind, Except.bind]; rfl, ?_, ?_, ?_⟩
    · refine w.idle w.alive rfl rfl rfl rfl rfl rfl ?_ hconns (fun _ _ hk => hk)
        (fun _ he => he) rfl
      simp [hpools]
    · rfl
    · rfl
  | early =>
    refine ⟨_, by
      simp [launch, disarm, destroyOpPool, opCreate, reqAttach, State.addCleanup, State.op,
        State.setOp, State.request, w.alive, bind, Except.bind]; rfl, ?_, ?_, ?_⟩
    · refine w.idle rfl rfl rfl rfl rfl rfl rfl ?_ hconns (fun k e hk => getElem?_append_none hk)
        (fun e he => List.mem_append_left _ he) rfl
      simp [hpools]
    · rfl
    · rfl
  | refused =>
    refine ⟨_, by
      simp [launch, disarm, destroyOpPool, releaseConn, takeConn, opCreate, reqAttach,
        State.addCleanup, State.op, State.setOp, State.request, w.alive, bind, Except.bind]; rfl, ?_, ?_, ?_⟩
    · refine w.idle rfl rfl rfl rfl rfl rfl rfl ?_ ?_ (fun k e hk => getElem?_append_none hk)
        (fun e he => List.mem_append_left _ he) rfl
      · simp [hpools]
      · simp [hconns]
    · rfl
    · rfl
  | launched => exact absurd rfl hl

/-- What a driver that parks leaves, and what its operation holds. -/
theorem launched_eq (s : State) (d : Driver) (x : ℕ) : ∃ ops : ℕ → Op,
    launch s d x .launched = .ok ({ s with
      count := s.count + 1
      writeEventHandler := .parked
      cleanups := s.cleanups ++ [some (d.cleanup s.pools.next)]
      pools := s.pools.take
      ops := ops
      conns := s.conns.take
      data := Function.update s.data s.conns.next s.pools.next
      parks := s.parks.take }, .again) ∧
    ops s.pools.next = {
      driver := d
      request := true
      ctx := some x
      reqCln := some s.cleanups.length
      connection := some s.conns.next
      park := s.parks.next } := by
  refine ⟨_, rfl, ?_⟩
  simp [takeConn, reqAttach, State.addCleanup, opCreate, park, State.setOp]

/-- **A driver that parks** leaves the request waiting for its connection. -/
theorem launch_launched {s : State} {h : List ℕ} (w : Wf s none h)
    (hne : s.writeEventHandler ≠ .terminate) (d : Driver) {x : ℕ} (hx : x < s.nctx) :
    ∃ s' q, launch s d x .launched = .ok (s', .again) ∧ Wf s' (some q) h := by
  obtain ⟨ops, heq, hop⟩ := launched_eq s d x
  exact ⟨_, .conn s.conns.next s.pools.next s.cleanups.length s.parks.next, heq, {
    alive := w.alive
    count := by
      show s.count + 1 = s.others + (s.parks.held.length + 1)
      rw [w.count, Nat.add_assoc]
    parks := congrArg (s.parks.next :: ·) w.parks
    finalized := w.finalized
    pools := congrArg (s.pools.next :: ·) w.pools
    conns := congrArg (s.conns.next :: ·) w.conns
    conn := by
      intro c i k p hq
      simp only [Option.some.injEq, Waiting.conn.injEq] at hq
      obtain ⟨rfl, rfl, rfl, rfl⟩ := hq
      exact {
        data := Function.update_self ..
        connection := congrArg Op.connection hop
        reqCln := congrArg Op.reqCln hop
        entry := by
          dsimp only
          rw [hop]
          exact List.getElem?_concat_length
        request := congrArg Op.request hop
        ctx := ⟨x, hx, congrArg Op.ctx hop⟩
        detached := congrArg Op.detached hop
        park := congrArg Op.park hop }
    timer := by simp
    cleanups := by
      intro k e i hk hi
      rcases addCleanup_cases (s := s) hk with hk' | ⟨hk', rfl⟩
      · obtain ⟨c, p, hm⟩ := w.cleanups k e i hk' hi
        cases hm
      · have hnext : i = s.pools.next := by
          cases d <;> exact (Option.some.inj hi).symm
        exact ⟨_, _, by rw [hnext, hk']⟩
    timers := by
      intro y hy
      obtain ⟨p, hm⟩ := w.timers y hy
      cases hm
    cold := fun _ y hy hset => List.mem_append_left _ (w.cold hne y hy hset)
    fresh := w.fresh
    used := w.used
    handler := iff_of_true rfl nofun }⟩

/-! ## The cold wait -/

@[simp] theorem setCtx_self (s : State) (x : ℕ) (f : Ctx → Ctx) :
    (s.setCtx x f).ctxs x = f (s.ctxs x) := Function.update_self ..

theorem setCtx_of_ne (s : State) {x y : ℕ} (f : Ctx → Ctx) (hne : y ≠ x) :
    (s.setCtx x f).ctxs y = s.ctxs y := Function.update_of_ne hne ..

/-- Writes to a context that leave its timer event alone. -/
structure KeepsTimer (f : Ctx → Ctx) : Prop where
  timerSet : ∀ c, (f c).timerSet = c.timerSet
  coldWaitHandler : ∀ c, (f c).coldWaitHandler = c.coldWaitHandler
  park : ∀ c, (f c).park = c.park

/-- What is read of the timer event of a context after such a write. -/
theorem KeepsTimer.setCtx {f : Ctx → Ctx} (hf : KeepsTimer f) (s : State) (x y : ℕ) :
    ((s.setCtx x f).ctxs y).timerSet = (s.ctxs y).timerSet ∧
      ((s.setCtx x f).ctxs y).coldWaitHandler = (s.ctxs y).coldWaitHandler ∧
      ((s.setCtx x f).ctxs y).park = (s.ctxs y).park := by
  by_cases hy : y = x
  · subst hy
    rw [setCtx_self]
    exact ⟨hf.timerSet _, hf.coldWaitHandler _, hf.park _⟩
  · rw [setCtx_of_ne s f hy]
    exact ⟨rfl, rfl, rfl⟩

theorem Wf.setCtx {s : State} {m : Option Waiting} {h : List ℕ} (w : Wf s m h) {x : ℕ}
    (hx : x < s.nctx) {f : Ctx → Ctx} (hf : KeepsTimer f) : Wf (s.setCtx x f) m h where
  alive := w.alive
  count := w.count
  parks := w.parks
  finalized := w.finalized
  pools := w.pools
  conns := w.conns
  conn := fun c i k p hm =>
    have live := w.conn c i k p hm
    ⟨live.data, live.connection, live.reqCln, live.entry, live.request, live.ctx, live.detached,
      live.park⟩
  timer := fun y p hm =>
    have live := w.timer y p hm
    have same := hf.setCtx s x y
    ⟨same.1.trans live.timerSet, same.2.2.trans live.park, live.entry, live.used⟩
  cleanups := w.cleanups
  timers := fun y hy => w.timers y ((hf.setCtx s x y).1.symm.trans hy)
  cold := fun hne y hy hset => w.cold hne y hy ((hf.setCtx s x y).2.1.symm.trans hset)
  fresh := fun y hy => by
    have hge : s.nctx ≤ y := hy
    rw [setCtx_of_ne s f (by omega)]
    exact w.fresh y hge
  used := w.used
  handler := w.handler

/-- **Arming the timer** of a context whose cleanup entry stands. -/
theorem waitArm_wf {s : State} {h : List ℕ} (w : Wf s none h) {x : ℕ} (hx : x < s.nctx)
    (hentry : some (.coldWait x) ∈ s.cleanups) (hne : s.writeEventHandler ≠ .terminate) :
    Wf (waitArm s x) (some (.timer x s.parks.next)) h where
  alive := w.alive
  count := by
    have hc : s.count = s.others + s.parks.held.length := w.count
    simp [waitArm, State.setCtx, Park.park]
    omega
  parks := by
    have hp : s.parks.held = h := w.parks
    simp [waitArm, State.setCtx, Park.park, liveParks, Waiting.park, hp]
  finalized := w.finalized
  pools := w.pools
  conns := w.conns
  conn := by simp
  timer := by
    intro y p hm
    simp only [Option.some.injEq, Waiting.timer.injEq] at hm
    obtain ⟨rfl, rfl⟩ := hm
    exact ⟨by simp [waitArm], by simp [waitArm], hentry, hx⟩
  cleanups := fun k e i hk hi => by
    obtain ⟨c, p, hm⟩ := w.cleanups k e i hk hi
    simp at hm
  timers := fun y hy => by
    by_cases hyx : y = x
    · exact ⟨_, by rw [hyx]⟩
    · rw [waitArm, setCtx_of_ne _ _ hyx] at hy
      obtain ⟨p, hm⟩ := w.timers y hy
      simp at hm
  cold := fun _ y hy hset => by
    by_cases hyx : y = x
    · rw [hyx]
      exact hentry
    · rw [waitArm, setCtx_of_ne _ _ hyx] at hset
      exact w.cold hne y hy hset
  fresh := fun y hy => by
    have hge : s.nctx ≤ y := hy
    rw [waitArm, setCtx_of_ne _ _ (by omega)]
    exact w.fresh y hge
  used := w.used
  handler := by simp [waitArm, State.setCtx, Park.park]

/-- The event handler of a context is set and its cleanup entry is added. -/
theorem Wf.addEntry {s : State} {h : List ℕ} (w : Wf s none h) {x : ℕ} (hx : x < s.nctx)
    (hne : s.writeEventHandler ≠ .terminate) :
    Wf ((s.setCtx x waitHandler).addCleanup (.coldWait x)) none h where
  alive := w.alive
  count := w.count
  parks := w.parks
  finalized := w.finalized
  pools := w.pools
  conns := w.conns
  conn := by simp
  timer := by simp
  cleanups := fun k e i hk hi => by
    rcases addCleanup_cases hk with hold | ⟨-, rfl⟩
    · exact w.cleanups k e i hold hi
    · simp [Cleanup.op?] at hi
  timers := fun y hy => by
    refine w.timers y ?_
    by_cases hyx : y = x
    · subst hyx
      rwa [addCleanup_ctxs, setCtx_self] at hy
    · rwa [addCleanup_ctxs, setCtx_of_ne s _ hyx] at hy
  cold := fun _ y hy hset => by
    by_cases hyx : y = x
    · rw [hyx]
      exact List.mem_append_right _ (List.mem_singleton_self _)
    · rw [addCleanup_ctxs, setCtx_of_ne s _ hyx] at hset
      exact List.mem_append_left _ (w.cold hne y hy hset)
  fresh := fun y hy => by
    have hge : s.nctx ≤ y := hy
    rw [addCleanup_ctxs, setCtx_of_ne s _ (by omega)]
    exact w.fresh y hge
  used := w.used
  handler := w.handler

/-- A request that waits for nothing and is not about to be terminated. -/
structure Idle (s : State) (h : List ℕ) : Prop where
  wf : Wf s none h
  handler : s.writeEventHandler ≠ .terminate

/-- What a driver, a cold wait or the access handler leaves behind: the request is parked, or it
waits for nothing; after an error that holds once the request is to be terminated. -/
def Tried (s' : State) (rc : Rc) (h : List ℕ) : Prop :=
  match rc with
  | .again => ∃ q, Wf s' (some q) h
  | .error => Wf { s' with writeEventHandler := .terminate } none h
  | _ => Idle s' h

/-- A request that nginx is about to terminate. -/
theorem Wf.terminating {s : State} {h : List ℕ} (w : Wf s none h) :
    Wf { s with writeEventHandler := .terminate } none h :=
  { w with conn := by simp, timer := by simp, cold := by simp, handler := by simp }

theorem waitEnter_keeps (w : Wait) : KeepsTimer (waitEnter · w) := by
  constructor <;> intro c <;> unfold waitEnter <;> split_ifs <;> rfl

theorem waitForget_keeps : KeepsTimer waitForget := ⟨fun _ => rfl, fun _ => rfl, fun _ => rfl⟩

/-- **A cold wait** parks the request on a timer whose cleanup entry stands, or leaves it
waiting for nothing. -/
theorem coldWait_spec {s : State} {h : List ℕ} (w : Wf s none h)
    (hne : s.writeEventHandler ≠ .terminate) {x : ℕ} (hctx : s.ctx = some x) (wait : Wait) :
    ∃ s' rc, coldWait s x wait = .ok (s', rc) ∧ Tried s' rc h := by
  have hx : x < s.nctx := w.used x hctx
  have w₁ : Wf (s.setCtx x (waitEnter · wait)) none h := w.setCtx hx (waitEnter_keeps wait)
  have hidle : ∀ s₁ : State, Wf s₁ none h → x < s₁.nctx →
      Wf (s₁.setCtx x ({ · with waiting := false })) none h := fun s₁ w₁ hx₁ =>
    w₁.setCtx hx₁ ⟨fun _ => rfl, fun _ => rfl, fun _ => rfl⟩
  simp only [coldWait, State.request, w.alive, if_true, bind, Except.bind]
  split_ifs with hseen hlate hsie hcold hroom
  · exact ⟨_, _, rfl, hidle _ w₁ hx, hne⟩
  · exact ⟨_, _, rfl, hidle _ w₁ hx, hne⟩
  · exact ⟨_, _, rfl, hidle _ w₁ hx, hne⟩
  · have w₂ := w₁.setCtx hx waitForget_keeps
    exact ⟨_, _, rfl, _, waitArm_wf w₂ hx (w₁.cold hne x hctx hcold) hne⟩
  · have w₂ := (w₁.setCtx hx waitForget_keeps).addEntry hx hne
    refine ⟨_, _, rfl, _, waitArm_wf w₂ hx ?_ hne⟩
    exact List.mem_append_right _ (List.mem_singleton_self _)
  · have w₂ := (w₁.setCtx hx waitForget_keeps).addEntry hx hne
    refine ⟨_, _, rfl, ?_⟩
    exact { w₂.terminating with
      conn := by simp
      timer := by simp
      cleanups := (w₁.setCtx hx waitForget_keeps).cleanups
      cold := by simp }

/-! ## The end of the request's pool -/

/-- The cleanups of the request's pool are running, the newest first: the first `k` entries are
still to come, and one of them ends what the request waits for. -/
structure Tear (s : State) (k : ℕ) (m : Option Waiting) : Prop where
  alive : s.alive = true
  pools : s.pools.held = liveOps m
  conns : s.conns.held = liveConns m
  conn : ∀ c i j p, m = some (.conn c i j p) → LiveOp s c i j p ∧ j < k
  timer : ∀ x p, m = some (.timer x p) → (s.ctxs x).timerSet = true ∧
    ∃ j < k, s.cleanups[j]? = some (some (.coldWait x))
  cleanups : ∀ j e i, j < k → s.cleanups[j]? = some (some e) → e.op? = some i →
    ∃ c p, m = some (.conn c i j p)
  timers : ∀ x, (s.ctxs x).timerSet = true → ∃ p, m = some (.timer x p)

theorem Wf.tear {s : State} {m : Option Waiting} {h : List ℕ} (w : Wf s m h) :
    Tear s s.cleanups.length m where
  alive := w.alive
  pools := w.pools
  conns := w.conns
  conn := fun c i j p hm =>
    have live := w.conn c i j p hm
    ⟨live, (List.getElem?_eq_some_iff.1 live.entry).1⟩
  timer := fun x p hm => by
    obtain ⟨j, hj⟩ := List.mem_iff_getElem?.1 (w.timer x p hm).entry
    exact ⟨(w.timer x p hm).timerSet, j, (List.getElem?_eq_some_iff.1 hj).1, hj⟩
  cleanups := fun j e i _ hj hi => w.cleanups j e i hj hi
  timers := w.timers

/-- `_walk_detach` and `_mc_get_detach` end the operation that the request waits for. -/
theorem detach_spec {s : State} {c i j p : ℕ} (live : LiveOp s c i j p)
    (hi : i ∈ s.pools.held) (hc : c ∈ s.conns.held) :
    ∃ s', runCleanup s ((s.ops i).driver.cleanup i) = .ok s' ∧ s'.alive = s.alive ∧
      s'.pools.held = s.pools.held.erase i ∧ s'.conns.held = s.conns.held.erase c ∧
      s'.cleanups = s.cleanups ∧ s'.ctxs = s.ctxs := by
  have hconn : ∀ f : Op → Op, (∀ o, (f o).connection = o.connection) →
      (∀ o, (f o).reqCln = none) → ∃ s', opDone (s.setOp i f) i .saved = .ok s' ∧
        s'.alive = s.alive ∧ s'.pools.held = s.pools.held.erase i ∧
        s'.conns.held = s.conns.held.erase c ∧ s'.cleanups = s.cleanups ∧ s'.ctxs = s.ctxs := by
    intro f hf hr
    have h₁ : ((s.setOp i f).ops i).connection = some c := by
      rw [update_ops, hf, live.connection]
    have h₂ : ((s.setOp i f).ops i).reqCln = none := by rw [update_ops, hr]
    exact ⟨_, opDone_detached (s := s.setOp i f) .saved hi h₁ hc h₂, rfl, rfl, rfl, rfl, rfl⟩
  cases hd : (s.ops i).driver with
  | memcachedGet =>
    obtain ⟨s', hs', hrest⟩ := hconn (fun op => { op with reqCln := none, request := false, ctx := none })
      (fun _ => rfl) (fun _ => rfl)
    refine ⟨s', ?_, hrest⟩
    simpa [Driver.cleanup, runCleanup, mcGetDetach, State.op, hi, mcOpDone, bind, Except.bind]
      using hs'
  | _ =>
    obtain ⟨s', hs', hrest⟩ := hconn
      (fun op => { op with detached := true, request := false, ctx := none, reqCln := none })
      (fun _ => rfl) (fun _ => rfl)
    refine ⟨s', ?_, hrest⟩
    simpa [Driver.cleanup, runCleanup, walkDetach, State.op, hi, live.detached, redisOpDone, bind,
      Except.bind] using hs'

/-- An entry that ends nothing. -/
theorem Tear.skip {s : State} {k : ℕ} {m : Option Waiting} (t : Tear s (k + 1) m)
    (hop : ∀ e i, s.cleanups[k]? = some (some e) → e.op? ≠ some i)
    (hcold : ∀ x p, m = some (.timer x p) → s.cleanups[k]? ≠ some (some (.coldWait x))) :
    Tear s k m where
  alive := t.alive
  pools := t.pools
  conns := t.conns
  conn := fun c i j p hm => by
    obtain ⟨live, hj⟩ := t.conn c i j p hm
    refine ⟨live, ?_⟩
    have hne : j ≠ k := by
      rintro rfl
      refine hop _ i live.entry ?_
      cases (s.ops i).driver <;> rfl
    omega
  timer := fun x p hm => by
    obtain ⟨hset, j, hj, hentry⟩ := t.timer x p hm
    have hne : j ≠ k := by
      rintro rfl
      exact hcold x p hm hentry
    exact ⟨hset, j, by omega, hentry⟩
  cleanups := fun j e i hj => t.cleanups j e i (by omega)
  timers := t.timers

/-- The entry of the timer that the request waits for. -/
theorem Tear.timerEnd {s : State} {k x p : ℕ} (t : Tear s (k + 1) (some (.timer x p))) :
    Tear (s.setCtx x timerOff) k none where
  alive := t.alive
  pools := t.pools
  conns := t.conns
  conn := by simp
  timer := by simp
  cleanups := fun j e i hj hk hi => by
    obtain ⟨c, q, hm⟩ := t.cleanups j e i (by omega) hk hi
    simp at hm
  timers := fun y hy => by
    by_cases hyx : y = x
    · subst hyx
      simp [timerOff] at hy
    · rw [setCtx_of_ne _ _ hyx] at hy
      obtain ⟨q, hm⟩ := t.timers y hy
      simp only [Option.some.injEq, Waiting.timer.injEq] at hm
      exact absurd hm.1.symm hyx

/-- The entry of the operation that the request waits for. -/
theorem Tear.opEnd {s : State} {k c i p : ℕ} (t : Tear s (k + 1) (some (.conn c i k p))) :
    ∃ s', runCleanup s ((s.ops i).driver.cleanup i) = .ok s' ∧ Tear s' k none := by
  have live := (t.conn c i k p rfl).1
  have hpools : s.pools.held = [i] := t.pools
  have hconns : s.conns.held = [c] := t.conns
  obtain ⟨s', hs', halive, hp, hc, hcln, hctxs⟩ :=
    detach_spec live (by rw [hpools]; exact List.mem_singleton_self i)
      (by rw [hconns]; exact List.mem_singleton_self c)
  refine ⟨s', hs', halive.trans t.alive, ?_, ?_, by simp, by simp, ?_, ?_⟩
  · rw [hp, hpools, List.erase_cons_head]
    rfl
  · rw [hc, hconns, List.erase_cons_head]
    rfl
  · intro j e i' hj hk hi
    rw [hcln] at hk
    obtain ⟨c', p', hm⟩ := t.cleanups j e i' (by omega) hk hi
    simp only [Option.some.injEq, Waiting.conn.injEq] at hm
    omega
  · intro x hx
    rw [hctxs] at hx
    obtain ⟨q, hm⟩ := t.timers x hx
    simp at hm

/-- **The cleanups end what the request waits for**, and nothing else is left. -/
theorem runCleanups_spec (k : ℕ) : ∀ {s : State} {m : Option Waiting}, Tear s k m →
    ∃ s', runCleanups k s = .ok s' ∧ s'.pools.held = [] ∧ s'.conns.held = [] ∧
      ∀ x, (s'.ctxs x).timerSet = false := by
  induction k with
  | zero =>
    intro s m t
    have hm : m = none := by
      rcases m with _ | ⟨c, i, j, p⟩ | ⟨x, p⟩
      · rfl
      · exact absurd (t.conn c i j p rfl).2 (Nat.not_lt_zero _)
      · obtain ⟨-, j, hj, -⟩ := t.timer x p rfl
        exact absurd hj (Nat.not_lt_zero _)
    subst hm
    refine ⟨s, rfl, t.pools, t.conns, fun x => ?_⟩
    by_contra hx
    obtain ⟨p, hp⟩ := t.timers x (by simpa using hx)
    simp at hp
  | succ k ih =>
    intro s m t
    have hget : s.cleanups.getD k none = (s.cleanups[k]?).getD none := rfl
    cases hk : (s.cleanups[k]?).getD none with
    | none =>
      have hno : ∀ e, s.cleanups[k]? ≠ some (some e) := fun e he => by
        rw [he] at hk
        simp at hk
      simp only [runCleanups, hget, hk]
      exact ih (t.skip (fun e i he => absurd he (hno e)) fun x p _ => hno _)
    | some e =>
      have hentry : s.cleanups[k]? = some (some e) := by
        cases h : s.cleanups[k]? with
        | none => simp [h] at hk
        | some o =>
          rw [h, Option.getD_some] at hk
          rw [hk]
      simp only [runCleanups, hget, hk, bind, Except.bind]
      cases he : e.op? with
      | some i =>
        obtain ⟨c, p, rfl⟩ := t.cleanups k e i (Nat.lt_succ_self k) hentry he
        obtain ⟨s', hs', t'⟩ := t.opEnd
        have hsame : e = (s.ops i).driver.cleanup i := by
          have := (t.conn c i k p rfl).1.entry
          rw [hentry] at this
          simpa using this
        rw [hsame, hs']
        exact ih t'
      | none =>
        have hop : ∀ e' i, s.cleanups[k]? = some (some e') → e'.op? ≠ some i := by
          intro e' i he' hi
          obtain rfl : e = e' := by
            rw [hentry] at he'
            simpa using he'
          rw [he] at hi
          simp at hi
        obtain ⟨x, rfl⟩ : ∃ x, e = .coldWait x := by
          cases e with
          | coldWait x => exact ⟨x, rfl⟩
          | _ => simp [Cleanup.op?] at he
        simp only [runCleanup, coldWaitCleanup]
        split_ifs with hset
        · obtain ⟨p, rfl⟩ := t.timers x hset
          exact ih t.timerEnd
        · refine ih (t.skip hop fun y p hm hy => ?_)
          obtain rfl : x = y := by
            rw [hentry] at hy
            simpa using hy
          exact hset (t.timer x p hm).1

/-- **Destroying the pool** ends everything that refers to the request. -/
theorem destroyPool_spec {s : State} {m : Option Waiting} {k : ℕ} (t : Tear s k m)
    (hk : k = s.cleanups.length) : ∃ s', destroyPool s = .ok s' ∧ Dead s' := by
  subst hk
  obtain ⟨s', hs', hp, hc, ht⟩ := runCleanups_spec _ t
  refine ⟨{ s' with alive := false, others := 0, parks := s'.parks.giveBackAll .torn }, ?_, ?_⟩
  · simp [destroyPool, t.alive, hs', bind, Except.bind]
  · exact ⟨rfl, rfl, hp, hc, ht⟩

/-- **Dropping a reference** leaves the request as it is, or destroys its pool with the last
one. -/
theorem closeRequest_spec {s : State} {m : Option Waiting} {h : List ℕ} (hpos : s.count ≠ 0)
    (w : Wf { s with count := s.count - 1 } m h) :
    ∃ s', closeRequest s = .ok s' ∧
      (s' = { s with count := s.count - 1 } ∨ (m = none ∧ h = [] ∧ Dead s')) := by
  have halive : s.alive = true := w.alive
  by_cases hlast : s.count - 1 = 0
  · obtain ⟨s', hs', hdead⟩ := destroyPool_spec w.tear rfl
    have hheld : s.parks.held = liveParks m ++ h := w.parks
    have hcount : s.count - 1 = s.others + s.parks.held.length := w.count
    have hnil : liveParks m ++ h = [] := by
      rw [← hheld]
      exact List.eq_nil_of_length_eq_zero (by omega)
    obtain ⟨hm, hh⟩ := List.append_eq_nil_iff.1 hnil
    refine ⟨s', ?_, .inr ⟨?_, hh, hdead⟩⟩
    · simpa [closeRequest, State.request, halive, hpos, hlast, bind, Except.bind] using hs'
    · cases m with
      | none => rfl
      | some q => simp [liveParks] at hm
  · refine ⟨_, ?_, .inl rfl⟩
    simp [closeRequest, State.request, halive, hpos, hlast, bind, Except.bind]

/-! ## Running the phases -/

theorem tryDriver_spec {s : State} {h : List ℕ} (w : Wf s none h)
    (hne : s.writeEventHandler ≠ .terminate) {x : ℕ} (hx : x < s.nctx) (d : Driver)
    (l : Launch) :
    (∃ s' q, tryDriver s x d l = .ok (s', .again) ∧ Wf s' (some q) h) ∨
      ∃ s', tryDriver s x d l = .ok (s', .declined) ∧ Wf s' none h ∧ s'.ctx = s.ctx ∧
        s'.writeEventHandler = s.writeEventHandler := by
  have hsame : tryDriver s x d l = launch s d x l := by cases d <;> rfl
  rw [hsame]
  by_cases hl : l = .launched
  · subst hl
    exact .inl (launch_launched w hne d hx)
  · exact .inr (launch_declined w d x hl)

/-- **The access handler** leaves the request parked, or waiting for nothing. -/
theorem access_spec (tries : List Try) : ∀ {s : State} {h : List ℕ} {x : ℕ}, Wf s none h →
    s.writeEventHandler ≠ .terminate → s.ctx = some x →
    ∃ s' rc, access s x tries = .ok (s', rc) ∧ Tried s' rc h := by
  induction tries with
  | nil => exact fun {s h x} w hne _ => ⟨s, .declined, rfl, w, hne⟩
  | cons t tries ih =>
    intro s h x w hne hctx
    cases t with
    | wait wait => exact coldWait_spec w hne hctx wait
    | launch d l =>
      rcases tryDriver_spec w hne (w.used x hctx) d l with
        ⟨s', q, hs', w'⟩ | ⟨s', hs', w', hctx', hhandler⟩
      · exact ⟨s', .again, by simp [access, hs', bind, Except.bind], q, w'⟩
      · obtain ⟨s'', rc, hs'', htried⟩ := ih w' (by rwa [hhandler]) (hctx'.trans hctx)
        refine ⟨s'', rc, ?_, htried⟩
        simpa [access, hs', bind, Except.bind] using hs''

/-- The context of the request is there. -/
theorem ensureCtx_spec {s : State} {h : List ℕ} (w : Wf s none h) :
    Wf (ensureCtx s).1 none h ∧ (ensureCtx s).1.ctx = some (ensureCtx s).2 ∧
      (ensureCtx s).1.writeEventHandler = s.writeEventHandler := by
  unfold ensureCtx
  split
  · rename_i x hx
    exact ⟨w, hx, rfl⟩
  · refine ⟨{ w with
      conn := by simp
      timer := by simp
      cold := fun _ x hx hset => ?_
      fresh := fun x hx => w.fresh x (by have : s.nctx + 1 ≤ x := hx; omega)
      used := fun x hx => ?_ }, rfl, rfl⟩
    · obtain rfl : s.nctx = x := by simpa using hx
      have hfresh : s.ctxs s.nctx = {} := w.fresh _ le_rfl
      have hset' : (s.ctxs s.nctx).coldWaitHandler = true := hset
      rw [hfresh] at hset'
      simp at hset'
    · obtain rfl : s.nctx = x := by simpa using hx
      exact Nat.lt_succ_self _

/-- What the phases leave: the request is parked, or waits for nothing, or is gone with its last
reference. -/
def Ran (s' : State) (h : List ℕ) : Prop := (h = [] ∧ Dead s') ∨ ∃ m, Wf s' m h

theorem runPhases_dead {s : State} (hs : s.alive = false) (deeds : List Deed) :
    runPhases deeds s = .ok s := by
  cases deeds with
  | nil => rfl
  | cons deed deeds =>
    unfold runPhases
    rw [if_pos hs]

/-- A redirect drops the context. -/
theorem Wf.redirected {s : State} {h : List ℕ}
    (w : Wf { s with writeEventHandler := .terminate } none h) :
    Idle { s with ctx := none, writeEventHandler := .runPhases } h where
  wf := { w with conn := by simp, timer := by simp, cold := by simp, used := by simp,
                 handler := by simp }
  handler := by simp

/-- The access handler, and what nginx does with its answer.  After an error the next deed
is the redirect of `post_action`, which clears the context whose cleanup entry could not be
added, or there is none. -/
theorem accessDeed_spec {deeds : List Deed}
    (ih : ∀ {s : State} {h : List ℕ}, Idle s h → ∃ s', runPhases deeds s = .ok s' ∧ Ran s' h)
    {s : State} {h : List ℕ} (hs : Idle s h) (room : Bool) (tries : List Try) :
    ∃ s', runPhases (.access room tries :: deeds) s = .ok s' ∧ Ran s' h := by
  unfold runPhases
  rw [if_neg (by rw [hs.wf.alive]; simp)]
  dsimp only
  by_cases hroom : s.ctx = none ∧ room = false
  · rw [if_pos hroom]
    exact ⟨_, rfl, .inr ⟨none, hs.wf.terminating⟩⟩
  rw [if_neg hroom]
  obtain ⟨w₁, hctx, hhandler⟩ := ensureCtx_spec hs.wf
  obtain ⟨s', rc, hs', htried⟩ :=
    access_spec tries w₁ (by rw [hhandler]; exact hs.handler) hctx
  rw [hs']
  cases rc with
  | again =>
    obtain ⟨q, hq⟩ := htried
    exact ⟨s', rfl, .inr ⟨some q, hq⟩⟩
  | ok => exact ih htried
  | declined => exact ih htried
  | error =>
    have w : Wf { s' with writeEventHandler := .terminate } none h := htried
    simp only [bind, Except.bind]
    by_cases hredirect : deeds.head? = some .redirect
    · rw [if_pos hredirect]
      obtain ⟨rest, rfl⟩ := List.head?_eq_some_iff.1 hredirect
      obtain ⟨s'', hs'', hran⟩ := ih w.redirected
      have halive : s'.alive = true := w.alive
      refine ⟨s'', ?_, hran⟩
      simpa [runPhases, halive] using hs''
    · rw [if_neg hredirect]
      exact ⟨_, rfl, .inr ⟨none, w⟩⟩

/-- **The phases** end in a request that is parked once, or waits for nothing, or is gone. -/
theorem runPhases_spec (deeds : List Deed) : ∀ {s : State} {h : List ℕ}, Idle s h →
    ∃ s', runPhases deeds s = .ok s' ∧ Ran s' h := by
  induction deeds with
  | nil => exact fun {s h} hs => ⟨s, rfl, .inr ⟨none, hs.wf⟩⟩
  | cons deed deeds ih =>
    intro s h hs
    have halive : ¬ s.alive = false := by rw [hs.wf.alive]; simp
    cases deed with
    | access room tries => exact accessDeed_spec ih hs room tries
    | redirect =>
      unfold runPhases
      rw [if_neg halive]
      exact ih hs.wf.terminating.redirected
    | hold =>
      unfold runPhases
      rw [if_neg halive]
      refine ih ⟨{ hs.wf with conn := by simp, timer := by simp, count := ?_ }, hs.handler⟩
      have hcount : s.count = s.others + s.parks.held.length := hs.wf.count
      show s.count + 1 = s.others + 1 + s.parks.held.length
      omega
    | release =>
      unfold runPhases
      rw [if_neg halive]
      dsimp only
      split_ifs with hothers
      · exact ih hs
      · have hcount : s.count = s.others + s.parks.held.length := hs.wf.count
        have w : Wf { s with others := s.others - 1, count := s.count - 1 } none h :=
          { hs.wf with
            conn := by simp
            timer := by simp
            count := by
              show s.count - 1 = s.others - 1 + s.parks.held.length
              omega }
        obtain ⟨s', hs', hend⟩ :=
          closeRequest_spec (s := { s with others := s.others - 1 }) (by show s.count ≠ 0; omega) w
        rw [hs']
        simp only [bind, Except.bind]
        rcases hend with rfl | ⟨-, hh, hdead⟩
        · exact ih ⟨w, hs.handler⟩
        · exact ⟨s', runPhases_dead hdead.alive deeds, .inl ⟨hh, hdead⟩⟩
    | install =>
      unfold runPhases
      rw [if_neg halive]
      exact ih ⟨{ hs.wf with conn := by simp, timer := by simp, cold := fun _ => hs.wf.cold hs.handler,
                             handler := by simp }, by simp⟩
    | terminate =>
      unfold runPhases
      rw [if_neg halive]
      exact ⟨_, rfl, .inr ⟨none, hs.wf.terminating⟩⟩

/-! ## Finalizing -/

theorem LiveOp.congr {s s' : State} {c i k p : ℕ} (live : LiveOp s c i k p)
    (hdata : s'.data = s.data) (hops : s'.ops = s.ops) (hcln : s'.cleanups = s.cleanups)
    (hnctx : s'.nctx = s.nctx) : LiveOp s' c i k p where
  data := by rw [hdata]; exact live.data
  connection := by rw [hops]; exact live.connection
  reqCln := by rw [hops]; exact live.reqCln
  entry := by rw [hops, hcln]; exact live.entry
  request := by rw [hops]; exact live.request
  ctx := by rw [hops, hnctx]; exact live.ctx
  detached := by rw [hops]; exact live.detached
  park := by rw [hops]; exact live.park

theorem LiveTimer.congr {s s' : State} {x p : ℕ} (live : LiveTimer s x p)
    (hctxs : s'.ctxs = s.ctxs) (hcln : s'.cleanups = s.cleanups) (hnctx : s'.nctx = s.nctx) :
    LiveTimer s' x p where
  timerSet := by rw [hctxs]; exact live.timerSet
  park := by rw [hctxs]; exact live.park
  entry := by rw [hcln]; exact live.entry
  used := by rw [hnctx]; exact live.used

/-- The reference count and the books change, and nothing else. -/
theorem Wf.books {s : State} {m : Option Waiting} {h h' : List ℕ} (w : Wf s m h) {n o : ℕ}
    {parks : Ledger ParkEnd} (hcount : n = o + parks.held.length)
    (hparks : parks.held = liveParks m ++ h')
    (hfinalized : ∀ e ∈ parks.returned, e.2 = .finalized) :
    Wf { s with count := n, others := o, parks := parks } m h' :=
  { w with
    count := hcount
    parks := hparks
    finalized := hfinalized
    conn := fun c i k p hm => (w.conn c i k p hm).congr rfl rfl rfl rfl
    timer := fun x p hm => (w.timer x p hm).congr rfl rfl rfl }

/-- **The finalization of a completion** drops the reference of its park, which is held. -/
theorem finalizeDone_spec {s : State} {m : Option Waiting} {p : ℕ} (w : Wf s m [p])
    (linger : Bool) :
    ∃ s', finalizeDone s p linger = .ok s' ∧ (Dead s' ∨ Wf s' m []) := by
  have hheld : s.parks.held = liveParks m ++ [p] := w.parks
  have hcount : s.count = s.others + s.parks.held.length := w.count
  have hmem : p ∈ s.parks.held := by
    rw [hheld]
    exact List.mem_append_right _ (List.mem_singleton_self p)
  have herase : s.parks.held.erase p = liveParks m := by
    have hnodup : (liveParks m ++ [p]).Nodup := hheld ▸ s.parks.held_nodup
    have hnot : p ∉ liveParks m := fun hin =>
      (List.nodup_append.1 hnodup).2.2 p hin p (List.mem_singleton_self p) rfl
    rw [hheld, List.erase_append_right _ hnot, List.erase_cons_head, List.append_nil]
  have hlength : s.parks.held.length = (liveParks m).length + 1 := by
    rw [hheld, List.length_append, List.length_singleton]
  set parks := s.parks.giveBack p hmem .finalized with hparksdef
  have hparks : parks.held = liveParks m := herase
  have hfinalized : ∀ e ∈ parks.returned, e.2 = .finalized := by
    intro e he
    rcases List.mem_cons.1 he with rfl | he'
    · rfl
    · exact w.finalized e he'
  have hbooks : ∀ n o, n = o + (liveParks m).length →
      Wf { s with count := n, others := o, parks := parks } m [] := fun n o hn =>
    w.books (by rw [hparks]; exact hn) (by rw [hparks, List.append_nil]) hfinalized
  by_cases hlinger : s.count = 1 ∧ linger = true
  · refine ⟨{ s with others := s.others + 1, parks := parks }, ?_, .inr ?_⟩
    · simp [finalizeDone, State.request, w.alive, hmem, hlinger, hparksdef, bind, Except.bind]
    · exact hbooks s.count (s.others + 1) (by omega)
  · obtain ⟨s', hs', hend⟩ := closeRequest_spec (s := { s with parks := parks })
      (by show s.count ≠ 0; omega) (hbooks (s.count - 1) s.others (by omega))
    refine ⟨s', ?_, ?_⟩
    · have hif : ¬ (s.count = 1 ∧ linger = true) := hlinger
      have hreq : s.request = .ok () := if_pos w.alive
      simp only [finalizeDone, hreq, bind, Except.bind, dif_pos hmem, if_neg hif]
      exact hs'
    · rcases hend with rfl | ⟨-, -, hdead⟩
      · exact .inr (hbooks (s.count - 1) s.others (by omega))
      · exact .inl hdead

/-- The state between two events: the request is gone, or it waits for at most one thing and is
not about to be terminated. -/
def Settled (s : State) : Prop :=
  Dead s ∨ ∃ m, Wf s m [] ∧ s.writeEventHandler ≠ .terminate

/-- **The posted termination** destroys the pool whatever the reference count. -/
theorem terminate_spec {s : State} {m : Option Waiting} (t : Tear s s.cleanups.length m)
    (handler : Handler) :
    ∃ s', closeRequest { s with writeEventHandler := handler, count := 1 } = .ok s' ∧
      Dead s' := by
  have t' : Tear { s with writeEventHandler := handler, count := 0 } s.cleanups.length m :=
    { t with
      conn := fun c i j p hm =>
        ⟨(t.conn c i j p hm).1.congr rfl rfl rfl rfl, (t.conn c i j p hm).2⟩ }
  obtain ⟨s', hs', hdead⟩ := destroyPool_spec t' rfl
  exact ⟨s', by simpa [closeRequest, State.request, t.alive, bind, Except.bind] using hs', hdead⟩

theorem runPosted_spec {s : State} {m : Option Waiting} {h : List ℕ} (w : Wf s m h) :
    ∃ s', runPosted s = .ok s' ∧
      (Dead s' ∨ s' = s ∧ s.writeEventHandler ≠ .terminate) := by
  unfold runPosted
  by_cases hterm : s.alive = true ∧ s.writeEventHandler = .terminate
  · rw [if_pos hterm]
    obtain ⟨s', hs', hdead⟩ := terminate_spec w.tear s.writeEventHandler
    exact ⟨s', hs', .inl hdead⟩
  · rw [if_neg hterm]
    exact ⟨s, rfl, .inr ⟨rfl, fun h => hterm ⟨w.alive, h⟩⟩⟩

theorem runPosted_dead {s : State} (hs : Dead s) : runPosted s = .ok s := by
  unfold runPosted
  rw [if_neg (by rw [hs.alive]; simp)]

/-- **The end of a completion**: the phases run, and the reference of the park goes. -/
theorem resume_spec {s : State} {p : ℕ} (hs : Idle (unpark s) [p]) (f : Finish) :
    ∃ s', resume s p f = .ok s' ∧ Settled s' := by
  have halive : s.alive = true := by
    have := hs.wf.alive
    unfold unpark at this
    split_ifs at this <;> exact this
  obtain ⟨s₁, hs₁, hran⟩ := runPhases_spec f.deeds hs
  obtain ⟨hnil, -⟩ | ⟨m, w₁⟩ := hran
  · simp at hnil
  obtain ⟨s₂, hs₂, hend⟩ := finalizeDone_spec w₁ f.linger
  have hresume : resume s p f = runPosted s₂ := by
    simp [resume, State.request, halive, hs₁, hs₂, bind, Except.bind]
  rw [hresume]
  rcases hend with hdead | w₂
  · exact ⟨s₂, runPosted_dead hdead, .inl hdead⟩
  · obtain ⟨s₃, hs₃, hdead | ⟨rfl, hne⟩⟩ := runPosted_spec w₂
    · exact ⟨s₃, hs₃, .inl hdead⟩
    · exact ⟨_, hs₃, .inr ⟨m, w₂, hne⟩⟩

/-! ## Completions -/

/-- Clearing another entry keeps an entry. -/
theorem mem_set_none {l : List (Option Cleanup)} {k : ℕ} {e : Cleanup} (he : some e ∈ l)
    (hk : l[k]? ≠ some (some e)) : some e ∈ l.set k none := by
  obtain ⟨j, hj⟩ := List.mem_iff_getElem?.1 he
  refine List.mem_iff_getElem?.2 ⟨j, ?_⟩
  have hne : k ≠ j := by
    rintro rfl
    exact hk hj
  rw [List.getElem?_set_ne hne]
  exact hj

/-- **The end of the operation that the request waits for**: its pool is destroyed, its
connection let go and its cleanup entry disarmed, each once. -/
theorem opDone_live {s : State} {c i k p : ℕ} (w : Wf s (some (.conn c i k p)) []) (save : Save) :
    ∃ s', opDone s i save = .ok s' ∧ Idle (unpark s') [p] := by
  have live := w.conn c i k p rfl
  have hpools : s.pools.held = [i] := w.pools
  have hconns : s.conns.held = [c] := w.conns
  have hhandler : s.writeEventHandler = .parked := w.handler.2 (by simp)
  obtain ⟨g, hdone⟩ := opDone_armed save w.alive (by rw [hpools]; exact List.mem_singleton_self i)
    live.connection (by rw [hconns]; exact List.mem_singleton_self c) live.reqCln
  refine ⟨_, hdone, ?_⟩
  rw [unpark, if_pos hhandler]
  refine ⟨{ alive := w.alive
            count := w.count
            parks := w.parks
            finalized := w.finalized
            pools := ?_
            conns := ?_
            conn := by simp
            timer := by simp
            cleanups := fun j e i' hj hi => ?_
            timers := fun x hx => ?_
            cold := fun _ x hx hset => ?_
            fresh := w.fresh
            used := w.used
            handler := by simp }, by simp⟩
  · show s.pools.held.erase i = []
    rw [hpools, List.erase_cons_head]
  · show s.conns.held.erase c = []
    rw [hconns, List.erase_cons_head]
  · have hj' : (s.cleanups.set k none)[j]? = some (some e) := hj
    have hjk : k ≠ j := by
      rintro rfl
      rw [List.getElem?_set_self (List.getElem?_eq_some_iff.1 live.entry).1] at hj'
      simp at hj'
    rw [List.getElem?_set_ne hjk] at hj'
    obtain ⟨c', p', hm⟩ := w.cleanups j e i' hj' hi
    simp only [Option.some.injEq, Waiting.conn.injEq] at hm
    exact absurd hm.2.2.1 hjk
  · obtain ⟨q, hm⟩ := w.timers x hx
    simp at hm
  · refine mem_set_none (w.cold (by rw [hhandler]; simp) x hx hset) ?_
    rw [live.entry]
    cases (s.ops i).driver <;> simp [Driver.cleanup]

/-- What `_get_finish` and `_lock_finish` share: they write to the context, end the operation and
resume the request. -/
theorem finish_spec {s : State} {c i k p x : ℕ} (w : Wf s (some (.conn c i k p)) [])
    (hx : x < s.nctx) {g : Ctx → Ctx} (hg : KeepsTimer g) (f : Finish) :
    ∃ s₁ s', opDone (s.setCtx x g) i f.save = .ok s₁ ∧ resume s₁ p f = .ok s' ∧ Settled s' := by
  obtain ⟨s₁, hs₁, hidle⟩ := opDone_live (w.setCtx hx hg) f.save
  obtain ⟨s', hs', hsettled⟩ := resume_spec hidle f
  exact ⟨s₁, s', hs₁, hs', hsettled⟩

/-- The operation that the request waits for may be read, and so may its request. -/
theorem LiveOp.read {s : State} {c i k p : ℕ} (w : Wf s (some (.conn c i k p)) []) :
    s.op i = .ok (s.ops i) ∧ ∃ x < s.nctx, opCtx s (s.ops i) = .ok x := by
  have live := w.conn c i k p rfl
  have hpools : s.pools.held = [i] := w.pools
  obtain ⟨x, hx, hctx⟩ := live.ctx
  refine ⟨by simp [State.op, hpools], x, hx, ?_⟩
  simp [opCtx, live.request, hctx, State.request, w.alive, bind, Except.bind]

theorem getFinish_spec {s : State} {c i k p : ℕ} (w : Wf s (some (.conn c i k p)) [])
    (result : Rc) (blob : Bytes) (f : Finish) :
    ∃ s', getFinish s i result blob f = .ok s' ∧ Settled s' := by
  obtain ⟨hop, x, hx, hctx⟩ := LiveOp.read w
  obtain ⟨s₁, s', hs₁, hs', hsettled⟩ := finish_spec w hx
    (g := fun ctx =>
      { ctx with
        l2Blob := if result = .ok ∧ 0 < blob.length ∧ f.copyRoom = true then
          some (Blob.blobClearVetted blob) else ctx.l2Blob
        l2Result := if result = .ok ∧ 0 < blob.length ∧ f.copyRoom = false then .error else result
        l2Done := true }) ⟨fun _ => rfl, fun _ => rfl, fun _ => rfl⟩ f
  refine ⟨s', ?_, hsettled⟩
  have hpark : (s.ops i).park = p := (w.conn c i k p rfl).park
  simp only [getFinish, hop, hctx, bind, Except.bind, hpark]
  rw [hs₁]
  exact hs'

theorem redisLockFinish_spec {s : State} {c i k p : ℕ} (w : Wf s (some (.conn c i k p)) [])
    (result : Rc) (f : Finish) :
    ∃ s', redisLockFinish s i result f = .ok s' ∧ Settled s' := by
  obtain ⟨hop, x, hx, hctx⟩ := LiveOp.read w
  obtain ⟨s₁, s', hs₁, hs', hsettled⟩ := finish_spec w hx
    (g := ({ · with lockResult := result, lockDone := true }))
    ⟨fun _ => rfl, fun _ => rfl, fun _ => rfl⟩ f
  refine ⟨s', ?_, hsettled⟩
  have hpark : (s.ops i).park = p := (w.conn c i k p rfl).park
  simp only [redisLockFinish, redisOpDone, hop, hctx, bind, Except.bind, hpark]
  rw [hs₁]
  exact hs'

theorem readFinish_spec {s : State} {c i k p : ℕ} (w : Wf s (some (.conn c i k p)) [])
    (result : Rc) (blob : Bytes) (f : Finish) :
    ∃ s', readFinish s i result blob f = .ok s' ∧ Settled s' := by
  obtain ⟨hop, -⟩ := LiveOp.read w
  simp only [readFinish, hop, bind, Except.bind]
  cases (s.ops i).driver with
  | redisGet => exact getFinish_spec w result blob f
  | redisLock => exact redisLockFinish_spec w result f
  | memcachedGet => exact getFinish_spec w result blob f

/-- `op->clean` is set. -/
theorem Wf.setClean {s : State} {c i k p : ℕ} (w : Wf s (some (.conn c i k p)) []) (b : Bool) :
    Wf (s.setOp i ({ · with clean := b })) (some (.conn c i k p)) [] :=
  { w with
    conn := fun c' i' k' p' hm => by
      simp only [Option.some.injEq, Waiting.conn.injEq] at hm
      obtain ⟨rfl, rfl, rfl, rfl⟩ := hm
      have live := w.conn c i k p rfl
      constructor <;> (try rw [update_ops])
      exacts [live.data, live.connection, live.reqCln, live.entry, live.request, live.ctx,
        live.detached, live.park]
    timer := by simp }

/-- **An event on a connection** runs at most one completion, of the operation the request waits
for. -/
theorem connEvent_spec {s : State} {c i k p : ℕ} (w : Wf s (some (.conn c i k p)) [])
    (hne : s.writeEventHandler ≠ .terminate) (e : ConnEvent) (f : Finish) :
    ∃ s', connEvent s c e f = .ok s' ∧ Settled s' := by
  have live := w.conn c i k p rfl
  obtain ⟨hop, -⟩ := LiveOp.read w
  simp only [connEvent, live.data, hop, bind, Except.bind]
  cases e with
  | more => exact ⟨s, rfl, .inr ⟨_, w, hne⟩⟩
  | broken => exact readFinish_spec w .error [] f
  | answer result blob clean => exact readFinish_spec (w.setClean clean) result blob f
  | failed =>
    dsimp only
    split_ifs with hd
    · simp only [mcOpFail, hop, bind, Except.bind, live.request, if_true]
      exact getFinish_spec w .error [] f
    · simp only [redisOpFail, hop, bind, Except.bind, live.request, if_true]
      split_ifs
      · exact redisLockFinish_spec w .error f
      · exact getFinish_spec w .error [] f

/-- **The poll timer** completes the wait whose timer it is. -/
theorem coldWaitTimeout_spec {s : State} {x p : ℕ} (w : Wf s (some (.timer x p)) [])
    (f : Finish) :
    ∃ s', coldWaitTimeout (s.setCtx x timerOff) x f = .ok s' ∧
      Settled s' := by
  have live := w.timer x p rfl
  have hhandler : s.writeEventHandler = .parked := w.handler.2 (by simp)
  have hidle : Idle (unpark (s.setCtx x timerOff)) [p] := by
    rw [unpark, show (s.setCtx x timerOff).writeEventHandler = .parked from hhandler, if_pos rfl]
    refine ⟨{ alive := w.alive
              count := w.count
              parks := w.parks
              finalized := w.finalized
              pools := w.pools
              conns := w.conns
              conn := by simp
              timer := by simp
              cleanups := fun j e i hj hi => ?_
              timers := fun y hy => ?_
              cold := fun _ y hy hset => ?_
              fresh := fun y hy => ?_
              used := w.used
              handler := by simp }, by simp⟩
    · obtain ⟨c', p', hm⟩ := w.cleanups j e i hj hi
      simp at hm
    · have hy' : ((s.setCtx x timerOff).ctxs y).timerSet = true := hy
      by_cases hyx : y = x
      · subst hyx
        simp [timerOff] at hy'
      · rw [setCtx_of_ne _ _ hyx] at hy'
        obtain ⟨q, hm⟩ := w.timers y hy'
        simp only [Option.some.injEq, Waiting.timer.injEq] at hm
        exact absurd hm.1.symm hyx
    · by_cases hyx : y = x
      · rw [hyx]
        exact live.entry
      · have hset' : ((s.setCtx x timerOff).ctxs y).coldWaitHandler = true :=
          hset
        rw [setCtx_of_ne _ _ hyx] at hset'
        exact w.cold (by rw [hhandler]; simp) y hy hset'
    · have hge : s.nctx ≤ y := hy
      have hyx : y ≠ x := by have := live.used; omega
      exact (setCtx_of_ne s _ hyx).trans (w.fresh y hge)
  obtain ⟨s', hs', hsettled⟩ := resume_spec hidle f
  refine ⟨s', ?_, hsettled⟩
  have hpark : ((s.setCtx x timerOff).ctxs x).park = p := by
    rw [setCtx_self]
    exact live.park
  have hreq : (s.setCtx x timerOff).request = .ok () := if_pos w.alive
  simp only [coldWaitTimeout, hreq, hpark, bind, Except.bind]
  exact hs'

/-! ## Runs -/

theorem Settled.after {s : State} {m : Option Waiting} (w : Wf s m [])
    (hrun : ∃ s₁, runPosted s = .ok s₁ ∧ (Dead s₁ ∨ s₁ = s ∧ s.writeEventHandler ≠ .terminate)) :
    ∃ s₁, runPosted s = .ok s₁ ∧ Settled s₁ := by
  obtain ⟨s₁, hs₁, hdead | ⟨rfl, hne⟩⟩ := hrun
  · exact ⟨s₁, hs₁, .inl hdead⟩
  · exact ⟨_, hs₁, .inr ⟨m, w, hne⟩⟩

/-- **After the pool nothing happens**: no connection of an operation and no timer of a context
is left to have an event. -/
theorem step_dead {s : State} (hs : Dead s) (e : Event) : step s e = .ok s := by
  cases e with
  | client write deeds => exact if_pos (.inl hs.alive)
  | conn c e f => exact if_neg (by rw [hs.conns]; simp)
  | timer x f => exact if_neg (by rw [hs.timers x]; simp)
  | terminate => exact if_neg (by rw [hs.alive]; simp)
  | hold => exact if_neg (by rw [hs.alive]; simp)
  | release => exact if_neg (by rw [hs.alive]; simp)

/-- **One event** ends without a fault in a state that waits for at most one thing. -/
theorem step_settled {s : State} (hs : Settled s) (e : Event) :
    ∃ s', step s e = .ok s' ∧ Settled s' := by
  rcases hs with hdead | ⟨m, w, hne⟩
  · exact ⟨s, step_dead hdead e, .inl hdead⟩
  have hcount : s.count = s.others + s.parks.held.length := w.count
  cases e with
  | client write deeds =>
    by_cases hskip : s.alive = false ∨ write = false ∨ s.writeEventHandler = .parked
    · exact ⟨s, if_pos hskip, .inr ⟨m, w, hne⟩⟩
    · have hm : m = none := by
        by_contra hm
        exact hskip (.inr (.inr (w.handler.2 hm)))
      subst hm
      obtain ⟨s₁, hs₁, ⟨-, hdead⟩ | ⟨m, w₁⟩⟩ := runPhases_spec deeds ⟨w, hne⟩
      · refine ⟨s₁, ?_, .inl hdead⟩
        rw [step, if_neg hskip, hs₁]
        exact runPosted_dead hdead
      · obtain ⟨s₂, hs₂, hsettled⟩ := Settled.after w₁ (runPosted_spec w₁)
        refine ⟨s₂, ?_, hsettled⟩
        rw [step, if_neg hskip, hs₁]
        exact hs₂
  | conn c e f =>
    by_cases hc : c ∈ s.conns.held
    · rw [step, if_pos hc]
      rw [w.conns] at hc
      rcases m with _ | ⟨c', i, k, p⟩ | ⟨x, p⟩
      · simp [liveConns] at hc
      · obtain rfl : c = c' := by simpa [liveConns] using hc
        exact connEvent_spec w hne e f
      · simp [liveConns] at hc
    · exact ⟨s, if_neg hc, .inr ⟨m, w, hne⟩⟩
  | timer x f =>
    by_cases hx : (s.ctxs x).timerSet = true
    · rw [step, if_pos hx]
      obtain ⟨p, rfl⟩ := w.timers x hx
      exact coldWaitTimeout_spec w f
    · exact ⟨s, if_neg hx, .inr ⟨m, w, hne⟩⟩
  | terminate =>
    obtain ⟨s', hs', hdead⟩ := terminate_spec w.tear .terminate
    refine ⟨s', ?_, .inl hdead⟩
    rw [step, if_pos w.alive, runPosted, if_pos ⟨w.alive, rfl⟩]
    exact hs'
  | hold =>
    refine ⟨_, if_pos w.alive, .inr ⟨m, w.books ?_ w.parks w.finalized, hne⟩⟩
    omega
  | release =>
    by_cases hr : s.alive = true ∧ s.others ≠ 0
    · obtain ⟨-, hothers⟩ := hr
      have w' : Wf { s with count := s.count - 1, others := s.others - 1 } m [] :=
        w.books (by omega) w.parks w.finalized
      obtain ⟨s', hs', hend⟩ :=
        closeRequest_spec (s := { s with others := s.others - 1 }) (by show s.count ≠ 0; omega) w'
      refine ⟨s', by rw [step, if_pos ⟨w.alive, hothers⟩]; exact hs', ?_⟩
      rcases hend with rfl | ⟨-, -, hdead⟩
      · exact .inr ⟨m, w', hne⟩
      · exact .inl hdead
    · exact ⟨s, if_neg hr, .inr ⟨m, w, hne⟩⟩

/-- **Every run** ends without a fault. -/
theorem run_settled (events : List Event) : ∀ {s : State}, Settled s →
    ∃ s', run s events = .ok s' ∧ Settled s' := by
  induction events with
  | nil => exact fun {s} hs => ⟨s, rfl, hs⟩
  | cons e events ih =>
    intro s hs
    obtain ⟨s₁, hs₁, hsettled⟩ := step_settled hs e
    obtain ⟨s', hs', hsettled'⟩ := ih hsettled
    refine ⟨s', ?_, hsettled'⟩
    simpa [run, hs₁, bind, Except.bind] using hs'

/-- What holds of the references of the parks, and of the pools and connections of the
operations, between two events. -/
structure Lifecycle (s : State) : Prop where
  /-- The reference count is nginx's own references and one for each park. -/
  count : s.alive = true → s.count = s.others + s.parks.held.length
  /-- There is at most one park at a time. -/
  single : s.parks.held.length ≤ 1
  /-- A reference is held, or it was released exactly once. -/
  parkOnce : ∀ p < s.parks.next, s.parks.returns p = if p ∈ s.parks.held then 0 else 1
  /-- As long as the pool is there, it went by the finalization of its completion. -/
  finalized : s.alive = true → ∀ e ∈ s.parks.returned, e.2 = .finalized
  /-- A park is held as long as its operation or its timer is there. -/
  waits : s.parks.held = [] ↔ s.pools.held = [] ∧ ∀ x, (s.ctxs x).timerSet = false
  /-- The pool of an operation is there, or it was destroyed exactly once. -/
  poolOnce : ∀ i < s.pools.next, s.pools.returns i = if i ∈ s.pools.held then 0 else 1
  /-- A connection is taken, or it was closed or pooled exactly once. -/
  connOnce : ∀ c < s.conns.next, s.conns.returns c = if c ∈ s.conns.held then 0 else 1
  /-- A connection that is taken belongs to an operation that is there. -/
  connHeld : ∀ c ∈ s.conns.held, s.data c ∈ s.pools.held
  /-- Nothing outlives the pool of the request. -/
  torn : s.alive = false → s.parks.held = [] ∧ s.conns.held = []
  /-- A park keeps the client's write events away from the phases. -/
  parked : s.parks.held ≠ [] → s.writeEventHandler = .parked

theorem Settled.lifecycle {s : State} (hs : Settled s) : Lifecycle s := by
  rcases hs with hdead | ⟨m, w, -⟩
  · refine ⟨fun h => ?_, ?_, fun p hp => s.parks.returns_eq hp, fun h => ?_, ?_,
      fun i hi => s.pools.returns_eq hi, fun c hc => s.conns.returns_eq hc, ?_,
      fun _ => ⟨hdead.parks, hdead.conns⟩, fun h => absurd hdead.parks h⟩
    · rw [hdead.alive] at h
      simp at h
    · rw [hdead.parks]
      exact Nat.zero_le _
    · rw [hdead.alive] at h
      simp at h
    · exact ⟨fun _ => ⟨hdead.pools, hdead.timers⟩, fun _ => hdead.parks⟩
    · rw [hdead.conns]
      simp
  · have hparks : s.parks.held = liveParks m := by rw [w.parks, List.append_nil]
    refine ⟨fun _ => w.count, ?_, fun p hp => s.parks.returns_eq hp, fun _ => w.finalized, ?_,
      fun i hi => s.pools.returns_eq hi, fun c hc => s.conns.returns_eq hc, ?_, fun h => ?_,
      fun h => ?_⟩
    · rw [hparks]
      cases m <;> simp [liveParks]
    · rw [hparks, w.pools]
      rcases m with _ | ⟨c, i, k, p⟩ | ⟨x, p⟩
      · refine ⟨fun _ => ⟨rfl, fun x => ?_⟩, fun _ => rfl⟩
        by_contra hx
        obtain ⟨p, hp⟩ := w.timers x (by simpa using hx)
        simp at hp
      · simp [liveParks, liveOps]
      · have hset := (w.timer x p rfl).timerSet
        simp only [liveParks, liveOps, List.cons_ne_nil, true_and, false_iff, not_forall]
        exact ⟨x, by rw [hset]; simp⟩
    · intro c hc
      rw [w.conns] at hc
      rw [w.pools]
      rcases m with _ | ⟨c', i, k, p⟩ | ⟨x, p⟩
      · simp [liveConns] at hc
      · obtain rfl : c = c' := by simpa [liveConns] using hc
        rw [(w.conn c i k p rfl).data]
        exact List.mem_singleton_self i
      · simp [liveConns] at hc
    · rw [w.alive] at h
      simp at h
    · refine w.handler.2 ?_
      rintro rfl
      exact h hparks

/-- **The life of a parked request.**  Whatever its parks and whatever the order of events, a run
ends without a fault: no memory of the request or of an operation is read after it was
freed, and nothing is released twice.  The references, the pools and the connections are
accounted for (`Lifecycle`); a client event on a parked request changes nothing, and after the
request's pool no event does. -/
theorem park_lifecycle (events : List Event) :
    ∃ s, run State.start events = .ok s ∧ Lifecycle s ∧
      (s.parks.held ≠ [] → ∀ write deeds, step s (.client write deeds) = .ok s) ∧
      (s.alive = false → ∀ e, step s e = .ok s) := by
  obtain ⟨s, hs, hsettled⟩ := run_settled events (.inr ⟨none, wf_start, by simp [State.start]⟩)
  refine ⟨s, hs, hsettled.lifecycle, fun hheld write deeds => ?_, fun hdead e => ?_⟩
  · exact if_pos (.inr (.inr (hsettled.lifecycle.parked hheld)))
  · rcases hsettled with h | ⟨m, w, -⟩
    · exact step_dead h e
    · rw [w.alive] at hdead
      simp at hdead

end Park
end Http
end CacheTurbo
