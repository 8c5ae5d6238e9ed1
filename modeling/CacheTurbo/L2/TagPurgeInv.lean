/-
# The invariant of a tag purge

The log of a purge is read from its end: every entry has to be right by what came
before it (`Truthful`), and no callback may run once the request is terminated
(`Quiet`).

The invariant has four phases.  A walk runs and no `UNLINK` is outstanding
(`Running`); it waits for the one it sent (`Waits`); its request is gone and only the
completion of that `UNLINK` is left (`Orphan`); or it is over (`Over`).  The pools are
accounted for in each: those that were destroyed and those that somebody holds are all
that were made, each of them once.
-/

import CacheTurbo.L2.TagPurge
import CacheTurbo.Lib.Run
import Mathlib.Data.List.Perm.Basic

namespace CacheTurbo
namespace L2
namespace TagPurge

open Bytes Incremental

/-! ## Reading the log -/

instance instDecidableRepliesOk (n : ℕ) (recv : Bytes) : Decidable (RepliesOk n recv) :=
  decidable_of_iff _ drainScan_all_iff

/-- The pages with a member that were read. -/
def received (log : List Note) : List (List Bytes) :=
  log.filterMap fun n =>
    match n with
    | .received _ ms => if 0 < nonEmpty ms then some ms else none
    | _ => none

/-- The pages whose `UNLINK` was answered completely and without an error. -/
def acked (log : List Note) : List (List Bytes) :=
  log.filterMap fun n =>
    match n with
    | .unlinked ms _ expected recv => if RepliesOk expected recv then some ms else none
    | _ => none

/-- How many members these pages have. -/
def ackedCount (log : List Note) : ℕ := (acked log).foldr (fun ms n => nonEmpty ms + n) 0

/-- An answer that claims that all is purged. -/
def Answer.Unqualified (a : Answer) : Prop := a.status = 200 ∧ ∀ n, a.body ≠ .degraded n

/-- The count of an answer. -/
def Body.count : Body → Option ℕ
  | .purged n => some n
  | .degraded n => some n
  | .incomplete n => some n
  | .nothing => none
  | .error _ => none

/-- The set was read to its end, and the `UNLINK` of each page with a member was answered
completely and without an error. -/
def Complete (past : List Note) : Prop :=
  (∃ ms, Note.received [48] ms ∈ past) ∧ received past = acked past

/-- An entry is right by what came before it: a member is taken out of the set after an
`UNLINK` that names it was answered completely and without an error, a walk counts the members
of the pages so answered, and an unqualified answer comes after a complete walk. -/
def Justified (past : List Note) : Note → Prop
  | .srem ms => ∀ m ∈ ms, m ≠ [] → ∃ page keys expected recv,
      Note.unlinked page keys expected recv ∈ past ∧ m ∈ keys ∧ RepliesOk expected recv
  | .final _ a => (∀ n, a.body.count = some n → n = ackedCount past) ∧
      (a.Unqualified → Complete past)
  | .answered a => a.Unqualified → Complete past
  | _ => True

/-- **A purge that tells the truth.** -/
def Truthful : List Note → Prop
  | [] => True
  | n :: past => Justified past n ∧ Truthful past

/-- What calls into the request. -/
def Note.calls : Note → Bool
  | .page _ => true
  | .final _ _ => true
  | .finalize => true
  | _ => false

/-- **No callback, and no end of the request, after it was terminated.** -/
def Quiet : List Note → Prop
  | [] => True
  | n :: past => (n.calls = true → Note.terminated ∉ past) ∧ Quiet past

/-! ## The invariant -/

/-- The pools that somebody holds: the walk its reply pool, a token the scratch of its page. -/
def owned (s : State) : List ℕ :=
  (if s.walk.live then [s.walk.rpool] else []) ++ s.unlinks.filterMap (·.pagePool)

/-- What holds in every phase; `held` is the scratch pool that only the purge has. -/
structure Base (s : State) (held : List ℕ) : Prop where
  pools : (s.freed ++ held ++ owned s).Perm (List.range s.nextPool)
  waiting : ∀ u ∈ s.unlinks, u.drain.Waiting
  truthful : Truthful s.log
  quiet : Quiet s.log
  opDones : s.log.count .opDone = if s.walk.live then 0 else 1
  finalizes : s.log.count .finalize =
    if s.request = .finalized ∨ s.request = .released then 1 else 0
  terminates : s.log.count .terminated = if s.request = .terminated then 1 else 0

/-- A token that calls nobody. -/
def Unlink.Dead (u : Unlink) : Prop := u.alive = false ∧ u.cln = false ∧ u.resume = false

/-- The walk of a request that is there, and its purge, which holds `held`; an `UNLINK` that is
outstanding calls nobody. -/
structure Attached (s : State) (held : List ℕ) : Prop extends Base s held where
  live : s.walk.live = true
  detached : s.walk.detached = false
  reqCln : s.walk.reqCln = true
  parked : s.request = .parked
  dead : s.unlinks = [] ∨ ∃ u, s.unlinks = [u] ∧ u.Dead
  count : s.purge.purged = ackedCount s.log

/-- The page in hand, where it has a member. -/
def inHand (page : List Bytes) : List (List Bytes) := if 0 < nonEmpty page then [page] else []

/-- A walk that goes on, with `page` in hand: no `UNLINK` is outstanding. -/
structure Running (s : State) (page : List Bytes) : Prop extends Attached s [] where
  suspended : s.walk.suspended = false
  status : s.walk.scanStatus = .error
  unlinks : s.unlinks = []
  pageResume : s.purge.pageResume = false
  pagePool : s.purge.pagePool = none
  written : s.walk.unsent = false → s.walk.writeTimer = false ∧ s.walk.writeActive = true
  settled : received s.log = inHand page ++ acked s.log

/-- A walk that waits for `u`. -/
structure Waits (s : State) (u : Unlink) : Prop extends Base s [] where
  live : s.walk.live = true
  suspended : s.walk.suspended = true
  detached : s.walk.detached = false
  reqCln : s.walk.reqCln = true
  status : s.walk.scanStatus = .error
  parked : s.request = .parked
  unlinks : s.unlinks = [u]
  unsent : s.walk.unsent = false
  writeTimer : s.walk.writeTimer = false
  writeActive : s.walk.writeActive = true
  alive : u.alive = true
  cln : u.cln = true
  resume : u.resume = true
  pageResume : s.purge.pageResume = true
  pagePool : s.purge.pagePool = u.pagePool
  pagePool_some : u.pagePool.isSome = true
  pageMembers : s.purge.pageMembers = u.members
  keys : ∀ m ∈ u.members, m ≠ [] → m ∈ u.keys
  nonEmpty : 0 < nonEmpty u.members
  count : s.purge.purged = ackedCount s.log
  settled : received s.log = u.members :: acked s.log

/-- A walk that is to be resumed goes on from a cursor that was read. -/
def CursorRead (s : State) : Prop :=
  s.walk.resumeDoomed = false → ∃ ms, Note.received s.walk.resumeCursor ms ∈ s.log

/-- A walk without a request, until `u` is done. -/
structure Orphan (s : State) (u : Unlink) : Prop extends Base s [] where
  live : s.walk.live = true
  suspended : s.walk.suspended = true
  detached : s.walk.detached = true
  reqCln : s.walk.reqCln = false
  terminated : s.request = .terminated
  unlinks : s.unlinks = [u]
  unsent : s.walk.unsent = false
  writeTimer : s.walk.writeTimer = false
  writeActive : s.walk.writeActive = true
  alive : u.alive = false
  cln : u.cln = false
  resume : u.resume = true
  pagePool_some : u.pagePool.isSome = true

/-- A walk that is over. -/
structure Over (s : State) : Prop extends Base s [] where
  live : s.walk.live = false
  reqCln : s.walk.reqCln = false
  request : s.request ≠ .parked
  unlinks : s.unlinks = [] ∨ ∃ u, s.unlinks = [u] ∧ u.Dead

/-- The phases of a purge. -/
def Inv (s : State) : Prop :=
  Running s [] ∨ (∃ u, Waits s u ∧ CursorRead s) ∨ (∃ u, Orphan s u) ∨ Over s

theorem Over.inv {s : State} (h : Over s) : Inv s := Or.inr (Or.inr (Or.inr h))

/-! ## Single changes -/

section Changes

variable {s : State} {held : List ℕ}

/-- Nothing that `Base` is about changes. -/
theorem Base.congr (h : Base s held) {t : State} (hfreed : t.freed = s.freed)
    (howned : owned t = owned s) (hpool : t.nextPool = s.nextPool) (hunlinks : t.unlinks = s.unlinks)
    (hlog : t.log = s.log) (hlive : t.walk.live = s.walk.live) (hreq : t.request = s.request) :
    Base t held := by
  constructor
  · rw [hfreed, howned, hpool]; exact h.pools
  · rw [hunlinks]; exact h.waiting
  · rw [hlog]; exact h.truthful
  · rw [hlog]; exact h.quiet
  · rw [hlog, hlive]; exact h.opDones
  · rw [hlog, hreq]; exact h.finalizes
  · rw [hlog, hreq]; exact h.terminates

/-- A note that is none of the three that are counted. -/
def Note.plain (n : Note) : Prop := n ≠ .opDone ∧ n ≠ .finalize ∧ n ≠ .terminated

theorem Base.note (h : Base s held) {n : Note} (hplain : n.plain) (hj : Justified s.log n)
    (hcalls : n.calls = true → s.request = .parked) : Base (s.note n) held := by
  have hquiet : n.calls = true → Note.terminated ∉ s.log := by
    intro hn hmem
    have hterm := h.terminates
    rw [hcalls hn, if_neg nofun, List.count_eq_zero] at hterm
    exact hterm hmem
  obtain ⟨hop, hfin, hterm⟩ := hplain
  constructor
  · exact h.pools
  · exact h.waiting
  · exact ⟨hj, h.truthful⟩
  · exact ⟨hquiet, h.quiet⟩
  · exact (List.count_cons_of_ne hop).trans h.opDones
  · exact (List.count_cons_of_ne hfin).trans h.finalizes
  · exact (List.count_cons_of_ne hterm).trans h.terminates

theorem Base.destroyPool {p : ℕ} (h : Base s (p :: held)) : Base (s.destroyPool (some p)) held := by
  refine ⟨?_, h.waiting, h.truthful, h.quiet, h.opDones, h.finalizes, h.terminates⟩
  refine List.Perm.trans ?_ h.pools
  rw [List.append_assoc, List.append_assoc]
  exact (List.perm_middle).symm

/-- `ngx_create_pool`. -/
theorem Base.createPool (h : Base s held) :
    Base { s with nextPool := s.nextPool + 1 } (s.nextPool :: held) := by
  refine ⟨?_, h.waiting, h.truthful, h.quiet, h.opDones, h.finalizes, h.terminates⟩
  rw [List.range_succ, List.append_assoc]
  refine List.Perm.trans ?_ ((List.perm_append_singleton _ _).symm.trans
    (List.Perm.append_right _ h.pools))
  rw [List.append_assoc]
  exact List.perm_middle

theorem Base.opDone (h : Base s held) (hlive : s.walk.live = true) : Base (opDone s) held := by
  have hcount := h.opDones
  rw [if_pos hlive] at hcount
  refine ⟨?_, h.waiting, ⟨trivial, h.truthful⟩, ⟨nofun, h.quiet⟩, ?_, ?_, ?_⟩
  · refine List.Perm.trans ?_ h.pools
    have howned : owned s = s.walk.rpool :: s.unlinks.filterMap (·.pagePool) := by
      rw [owned, if_pos hlive]
      rfl
    rw [howned]
    exact List.perm_middle.symm
  · have hone : (Note.opDone :: s.log).count .opDone = 1 := by
      rw [List.count_cons_self, hcount]
    exact hone
  · exact (List.count_cons_of_ne (by nofun)).trans h.finalizes
  · exact (List.count_cons_of_ne (by nofun)).trans h.terminates

theorem Base.finalize (h : Base s held) (hreq : s.request = .parked) :
    Base ({ s with request := .finalized }.note .finalize) held := by
  have hfin := h.finalizes
  have hterm := h.terminates
  rw [hreq, if_neg nofun] at hfin hterm
  have hquiet : Note.terminated ∉ s.log := List.count_eq_zero.1 hterm
  refine ⟨h.pools, h.waiting, ⟨trivial, h.truthful⟩, ⟨fun _ => hquiet, h.quiet⟩, ?_, ?_, ?_⟩
  · exact (List.count_cons_of_ne (by nofun)).trans h.opDones
  · have hone : (Note.finalize :: s.log).count .finalize = 1 := by
      rw [List.count_cons_self, hfin]
    exact hone
  · exact (List.count_cons_of_ne (by nofun)).trans hterm

/-- The walk takes the scratch pool as its reply pool and destroys the old one. -/
theorem Base.rotate {np : ℕ} (h : Base s (np :: held)) (hlive : s.walk.live = true) (unsent : Bool) :
    Base ({ s with walk.rpool := np, walk.unsent := unsent }.destroyPool (some s.walk.rpool))
      held := by
  refine ⟨?_, h.waiting, h.truthful, h.quiet, h.opDones, h.finalizes, h.terminates⟩
  refine List.Perm.trans ?_ h.pools
  have hold : owned s = s.walk.rpool :: s.unlinks.filterMap (·.pagePool) := by
    rw [owned, if_pos hlive]
    rfl
  have hnew : owned ({ s with walk.rpool := np, walk.unsent := unsent }.destroyPool
      (some s.walk.rpool)) = np :: s.unlinks.filterMap (·.pagePool) := by
    unfold owned
    exact congrArg (· ++ _) (if_pos hlive)
  rw [hold, hnew, List.perm_iff_count]
  intro p
  simp only [State.destroyPool, List.count_append, List.count_cons]
  omega

end Changes

/-! ## The end of a walk -/

theorem finalAnswer_count {s : State} {text : Bool} {n : ℕ}
    (h : (finalAnswer s text).body.count = some n) : n = s.purge.purged := by
  unfold finalAnswer at h
  split at h
  · cases h
  split at h
  · exact (Option.some.inj h).symm
  split at h
  · exact (Option.some.inj h).symm
  · exact (Option.some.inj h).symm

theorem finalAnswer_unqualified {s : State} {text : Bool}
    (h : (finalAnswer s text).Unqualified) : s.walk.scanStatus = .ok := by
  unfold finalAnswer at h
  split at h
  · cases h.1
  split at h
  · cases h.1
  · rename_i hstatus
    exact not_ne_iff.1 hstatus

section Walks

variable {s : State}

/-- **A walk that ends says what is true.** -/
theorem Attached.finish (h : Attached s []) (hok : s.walk.scanStatus = .ok → Complete s.log)
    (env : Env) : Over (walkFinish env s) := by
  have hdetached : ¬ s.walk.detached = true := by rw [h.detached]; nofun
  rw [walkFinish, if_neg hdetached]
  have hfinal : Base (s.note (.final s.walk.scanStatus (finalAnswer s env.text))) [] := by
    refine h.toBase.note ⟨nofun, nofun, nofun⟩ ⟨fun n hn => ?_, fun hu => ?_⟩ fun _ => h.parked
    · exact (finalAnswer_count hn).trans h.count
    · exact hok (finalAnswer_unqualified hu)
  exact
    { toBase := (hfinal.opDone h.live).finalize h.parked
      live := rfl
      reqCln := rfl
      request := nofun
      unlinks := h.dead }

/-- Where the status is no success nothing else is asked for. -/
theorem Attached.abandon (h : Attached s []) (hstatus : s.walk.scanStatus ≠ .ok) (env : Env) :
    Over (walkFinish env s) := h.finish (fun hok => (hstatus hok).elim) env

/-- The walk of a request that is there changes in what `Attached` does not look at. -/
theorem Attached.setWalk {held : List ℕ} (h : Attached s held) {w : Walk}
    (hlive : w.live = s.walk.live) (hdetached : w.detached = s.walk.detached)
    (hreqCln : w.reqCln = s.walk.reqCln) (hrpool : w.rpool = s.walk.rpool) :
    Attached { s with walk := w } held := by
  have howned : owned { s with walk := w } = owned s := by
    simp only [owned, hlive, hrpool]
  exact
    { toBase := h.toBase.congr rfl howned rfl rfl rfl hlive rfl
      live := hlive.trans h.live
      detached := hdetached.trans h.detached
      reqCln := hreqCln.trans h.reqCln
      parked := h.parked
      dead := h.dead
      count := h.count }

/-- **The walk goes on to its next page, or ends.** -/
theorem Running.advance (h : Running s []) (env : Env) {cursor : Bytes}
    (hcursor : cursor = [48] → ∃ ms, Note.received cursor ms ∈ s.log) :
    Inv (sscanAdvance env cursor s) := by
  have herror : s.walk.scanStatus ≠ .ok := by rw [h.status]; nofun
  have hpaged : Attached { s with walk.scanPages := s.walk.scanPages + 1 } [] :=
    h.toAttached.setWalk rfl rfl rfl rfl
  have hmarked : ∀ status : ScanStatus, Attached { s with
      walk.scanPages := s.walk.scanPages + 1
      walk.scanStatus := status } [] := fun status => h.toAttached.setWalk rfl rfl rfl rfl
  unfold sscanAdvance
  dsimp only
  by_cases hzero : cursor = [48]
  · rw [if_pos hzero]
    subst hzero
    exact ((hmarked .ok).finish (fun _ => ⟨hcursor rfl, h.settled⟩) env).inv
  rw [if_neg hzero]
  by_cases hpages : s.walk.scanPages + 1 ≥ scanMaxPages
  · rw [if_pos hpages]
    exact ((hmarked .abort).abandon (by nofun) env).inv
  rw [if_neg hpages]
  by_cases hdeadline : env.deadline = true
  · rw [if_pos hdeadline]
    exact ((hmarked .abort).abandon (by nofun) env).inv
  rw [if_neg hdeadline]
  by_cases hpool : env.pool = false
  · rw [if_pos hpool]
    exact (hpaged.abandon herror env).inv
  rw [if_neg hpool]
  -- the pool of the next page: it is destroyed again, or it takes the place of the old one
  have hcreated := hpaged.toBase.createPool
  by_cases hbuffers : env.buffers = false
  · rw [if_pos hbuffers]
    have hdropped : Attached ({ s with
        walk.scanPages := s.walk.scanPages + 1
        nextPool := s.nextPool + 1 }.destroyPool (some s.nextPool)) [] :=
      { hpaged with toBase := hcreated.destroyPool }
    exact (hdropped.abandon herror env).inv
  rw [if_neg hbuffers]
  have hrotated : Running ({ s with
      walk.scanPages := s.walk.scanPages + 1
      walk.rpool := s.nextPool
      walk.unsent := true
      nextPool := s.nextPool + 1 }.destroyPool (some s.walk.rpool)) [] :=
    { h with
      toBase := hcreated.rotate h.live true
      written := nofun }
  by_cases hrearm : env.rearm = false
  · rw [if_pos hrearm]
    exact (hrotated.toAttached.abandon herror env).inv
  · rw [if_neg hrearm]
    exact Or.inl hrotated

/-- **The walk is resumed**: it goes on where the page is settled, and it ends otherwise. -/
theorem Attached.resume (h : Attached s []) (env : Env) (rc : Bool) (hsuspended : s.walk.suspended = true)
    (hsettled : rc = true → s.walk.resumeDoomed = false →
      Running { s with walk.suspended := false } [] ∧
        ∃ ms, Note.received s.walk.resumeCursor ms ∈ s.log) :
    Inv (sscanResume env rc s) ∧ (rc = false → Over (sscanResume env rc s)) := by
  have hawake : Attached { s with walk.suspended := false } [] := h.setWalk rfl rfl rfl rfl
  have hdetached : ¬ s.walk.detached = true := by rw [h.detached]; nofun
  unfold sscanResume
  rw [if_neg (by rw [hsuspended]; nofun)]
  dsimp only
  rw [if_neg hdetached]
  by_cases hdoomed : rc = false ∨ s.walk.resumeDoomed = true
  · rw [if_pos hdoomed]
    have hmarked : Attached { s with
        walk.suspended := false
        walk.scanStatus := .error } [] := h.setWalk rfl rfl rfl rfl
    have hover := hmarked.abandon (by nofun) env
    exact ⟨hover.inv, fun _ => hover⟩
  · rw [if_neg hdoomed]
    rw [not_or, Bool.not_eq_false, Bool.not_eq_true] at hdoomed
    obtain ⟨hrunning, hread⟩ := hsettled hdoomed.1 hdoomed.2
    refine ⟨hrunning.advance env fun _ => hread, fun hrc => ?_⟩
    rw [hdoomed.1] at hrc
    cases hrc

end Walks

/-! ## The page of a walk -/

theorem nonEmpty_eq_zero {ms : List Bytes} : nonEmpty ms = 0 ↔ ∀ m ∈ ms, m = [] := by
  simp [nonEmpty, List.countP_eq_zero]

theorem inHand_of_pos {ms : List Bytes} (h : 0 < nonEmpty ms) : inHand ms = [ms] := if_pos h

theorem inHand_of_zero {ms : List Bytes} (h : nonEmpty ms = 0) : inHand ms = [] :=
  if_neg (by omega)

/-- **The `UNLINK` of a page names its members.** -/
theorem pageKeys_mem {pre : L2Prefix} {ms : List Bytes} {n : ℕ} {keys : List Bytes}
    (h : pageKeys pre ms n = some keys) : ∀ m ∈ ms, m ≠ [] → m ∈ keys := by
  induction ms generalizing n keys with
  | nil => nofun
  | cons m ms ih =>
    intro x hx hne
    unfold pageKeys at h
    by_cases hm : m = []
    · rw [if_pos hm] at h
      rcases List.mem_cons.1 hx with rfl | hx
      · exact absurd hm hne
      · exact ih h x hx hne
    · rw [if_neg hm] at h
      split at h
      · obtain ⟨ks, hks, rfl⟩ := Option.map_eq_some_iff.1 h
        rcases List.mem_cons.1 hx with rfl | hx
        · exact List.mem_cons_self
        · exact List.mem_cons_of_mem _ (ih hks x hx hne)
      · cases h
      · obtain ⟨ks, hks, rfl⟩ := Option.map_eq_some_iff.1 h
        rcases List.mem_cons.1 hx with rfl | hx
        · exact List.mem_cons_self
        · exact List.mem_cons_of_mem _ (List.mem_cons_of_mem _ (ih hks x hx hne))

/-- A page without a member has no keys. -/
theorem pageKeys_empty {pre : L2Prefix} {ms : List Bytes} (h : nonEmpty ms = 0) (n : ℕ) :
    pageKeys pre ms n = some [] := by
  induction ms generalizing n with
  | nil => rfl
  | cons m ms ih =>
    rw [nonEmpty_eq_zero] at h
    have hm : m = [] := h m List.mem_cons_self
    unfold pageKeys
    rw [if_pos hm]
    exact ih (nonEmpty_eq_zero.2 fun x hx => h x (List.mem_cons_of_mem _ hx)) n

/-- No `UNLINK` is sent only where there is nothing to name. -/
theorem cmdMany_unlink {conf : Conf} (henable : conf.redisEnable = true) (room : CmdRoom)
    {ms keys : List Bytes} {n : ℕ} (hkeys : pageKeys conf.prefixBytes ms n = some keys) :
    (cmdMany conf room false keys = .ok → nonEmpty ms = 0) ∧
      ∀ expected, cmdMany conf room false keys = .launched expected →
        0 < expected ∧ 0 < nonEmpty ms := by
  have hnone : keys.filter (· ≠ []) = [] → nonEmpty ms = 0 := by
    intro hfilter
    rw [nonEmpty_eq_zero]
    intro m hm
    by_contra hne
    have hmem : m ∈ keys.filter (· ≠ []) :=
      List.mem_filter.2 ⟨pageKeys_mem hkeys m hm hne, by simpa using hne⟩
    rw [hfilter] at hmem
    cases hmem
  have hsome : keys ≠ [] → 0 < nonEmpty ms := by
    intro hne
    by_contra hzero
    rw [pageKeys_empty (by omega)] at hkeys
    exact hne (Option.some.inj hkeys).symm
  have hform : cmdMany conf room false keys =
      if keys = [] then .ok
      else if room.op = false then .error
      else if keys.filter (· ≠ []) = [] then .ok
      else if room.launch = false then .error
      else .launched (((keys.filter (· ≠ [])).length + delChunk - 1) / delChunk) := by
    simp only [cmdMany, henable, Bool.true_eq_false, false_or, Bool.false_eq_true, if_false]
  rw [hform]
  split_ifs with hnil hop hkept hlaunch
  · exact ⟨fun _ => hnone (by rw [hnil]; rfl), nofun⟩
  · exact ⟨nofun, nofun⟩
  · exact ⟨fun _ => hnone hkept, nofun⟩
  · exact ⟨nofun, nofun⟩
  · refine ⟨nofun, fun expected hlaunched => ⟨?_, hsome hnil⟩⟩
    have hlen : 0 < (keys.filter (· ≠ [])).length := List.length_pos_of_ne_nil hkept
    obtain rfl := CmdRc.launched.inj hlaunched
    unfold delChunk
    omega

section Pages

variable {s : State} {conf : Conf}

/-- What `pageSettle` changes: the count, the page, its pool, and the log by an `SREM`. -/
structure Settles (rc : Bool) (s t : State) : Prop where
  walk : t.walk = s.walk
  unlinks : t.unlinks = s.unlinks
  request : t.request = s.request
  pageResume : t.purge.pageResume = s.purge.pageResume
  pagePool : t.purge.pagePool = none
  purged : t.purge.purged = s.purge.purged + if rc then nonEmpty s.purge.pageMembers else 0
  log : t.log = s.log ∨ t.log = .srem s.purge.pageMembers :: s.log

theorem Settles.received {rc : Bool} {t : State} (h : Settles rc s t) :
    received t.log = received s.log := by
  rcases h.log with hlog | hlog
  · rw [hlog]
  · rw [hlog]; rfl

theorem Settles.acked {rc : Bool} {t : State} (h : Settles rc s t) : acked t.log = acked s.log := by
  rcases h.log with hlog | hlog
  · rw [hlog]
  · rw [hlog]; rfl

theorem Settles.mem {rc : Bool} {t : State} (h : Settles rc s t) {n : Note} (hn : n ∈ s.log) :
    n ∈ t.log := by
  rcases h.log with hlog | hlog
  · rw [hlog]; exact hn
  · rw [hlog]; exact List.mem_cons_of_mem _ hn

/-- **A page is settled**: its members are taken out of the set only where its `UNLINK` was
answered, they are counted, and its pool is destroyed. -/
theorem pageSettle_spec (conf : Conf) {p : ℕ} (env : Env) {rc : Bool} (h : Base s [p])
    (hpool : s.purge.pagePool = some p)
    (hj : rc = true → Justified s.log (.srem s.purge.pageMembers)) :
    Base (pageSettle conf env rc s).1 [] ∧ Settles rc s (pageSettle conf env rc s).1 ∧
      ((pageSettle conf env rc s).2 = true → rc = true) := by
  unfold pageSettle
  cases rc with
  | false =>
    dsimp only
    rw [if_neg Bool.false_ne_true, hpool]
    have hbase : Base (s.destroyPool (some p)) [] := h.destroyPool
    exact ⟨hbase.congr rfl rfl rfl rfl rfl rfl rfl,
      ⟨rfl, rfl, rfl, rfl, rfl, rfl, Or.inl rfl⟩, id⟩
  | true =>
    dsimp only
    rw [if_pos rfl]
    cases cmdMany conf env.srem true s.purge.pageMembers with
    | launched expected =>
      dsimp only [State.note]
      rw [hpool]
      have hnoted : Base (s.note (.srem s.purge.pageMembers)) [p] :=
        h.note ⟨nofun, nofun, nofun⟩ (hj rfl) nofun
      exact ⟨hnoted.destroyPool.congr rfl rfl rfl rfl rfl rfl rfl,
        ⟨rfl, rfl, rfl, rfl, rfl, rfl, Or.inr rfl⟩, fun _ => rfl⟩
    | ok =>
      dsimp only
      rw [hpool]
      exact ⟨h.destroyPool.congr rfl rfl rfl rfl rfl rfl rfl,
        ⟨rfl, rfl, rfl, rfl, rfl, rfl, Or.inl rfl⟩, fun _ => rfl⟩
    | error =>
      dsimp only
      rw [hpool]
      exact ⟨h.destroyPool.congr rfl rfl rfl rfl rfl rfl rfl,
        ⟨rfl, rfl, rfl, rfl, rfl, rfl, Or.inl rfl⟩, fun _ => rfl⟩

/-- What the delivery of a page leaves. -/
structure Delivered (s t : State) (rc : PageRc) : Prop where
  mem : ∀ n ∈ s.log, n ∈ t.log
  error : rc = .error → Attached t [] ∧ t.walk.scanStatus = .error
  done : rc = .done → Running t []
  again : rc = .again → ∃ u, Waits t u

/-- The purge of a request that is there, with the page it is about to settle: the pool `p`
is the page's scratch. -/
structure Delivering (s : State) (p : ℕ) : Prop extends Attached s [p] where
  status : s.walk.scanStatus = .error
  unlinks : s.unlinks = []
  pageResume : s.purge.pageResume = true
  pagePool : s.purge.pagePool = some p
  unsent : s.walk.unsent = false
  writeTimer : s.walk.writeTimer = false
  writeActive : s.walk.writeActive = true
  settled : received s.log = inHand s.purge.pageMembers ++ acked s.log

/-- A page without a reply to wait for: there is nothing to name, or the `UNLINK` could not be
sent. -/
theorem Delivering.settle {p : ℕ} (h : Delivering s p) (conf : Conf) (env : Env) (rc : Bool)
    (hrc : rc = true → nonEmpty s.purge.pageMembers = 0) :
    Delivered s (pageUnlinkedLocally conf env rc s).1 (pageUnlinkedLocally conf env rc s).2 := by
  have hnone : rc = true → Justified s.log (.srem s.purge.pageMembers) := fun hok m hm hne =>
    absurd (nonEmpty_eq_zero.1 (hrc hok) m hm) hne
  obtain ⟨hbase, hsettles, hverdict⟩ := pageSettle_spec conf env h.toBase h.pagePool hnone
  unfold pageUnlinkedLocally
  generalize pageSettle conf env rc s = settled at hbase hsettles hverdict
  obtain ⟨t, verdict⟩ := settled
  dsimp only at hbase hsettles hverdict ⊢
  rw [if_pos (hsettles.pageResume.trans h.pageResume)]
  have hcount : t.purge.purged = ackedCount t.log := by
    have hadd : (if rc = true then nonEmpty s.purge.pageMembers else 0) = 0 := by
      split
      · exact hrc ‹_›
      · rfl
    rw [hsettles.purged, hadd, ackedCount, hsettles.acked]
    exact h.count
  have hattached : Attached { t with walk.suspended := false, purge.pageResume := false } [] :=
    { toBase := hbase.congr rfl rfl rfl rfl rfl rfl rfl
      live := (congrArg Walk.live hsettles.walk).trans h.live
      detached := (congrArg Walk.detached hsettles.walk).trans h.detached
      reqCln := (congrArg Walk.reqCln hsettles.walk).trans h.reqCln
      parked := hsettles.request.trans h.parked
      dead := Or.inl (hsettles.unlinks.trans h.unlinks)
      count := hcount }
  have hstatus : t.walk.scanStatus = .error :=
    (congrArg Walk.scanStatus hsettles.walk).trans h.status
  refine ⟨fun n hn => hsettles.mem hn, fun _ => ⟨hattached, hstatus⟩, fun hdone => ?_, fun hagain => ?_⟩
  · have hok : rc = true := by
      apply hverdict
      cases verdict with
      | false => cases hdone
      | true => rfl
    exact
      { toAttached := hattached
        suspended := rfl
        status := hstatus
        unlinks := hsettles.unlinks.trans h.unlinks
        pageResume := rfl
        pagePool := hsettles.pagePool
        written := fun _ => ⟨(congrArg Walk.writeTimer hsettles.walk).trans h.writeTimer,
          (congrArg Walk.writeActive hsettles.walk).trans h.writeActive⟩
        settled := by
          have hsettled := h.settled
          rw [inHand_of_zero (hrc hok)] at hsettled
          exact hsettles.received.trans (hsettled.trans hsettles.acked.symm) }
  · cases verdict <;> cases hagain

/-- The operation of the `UNLINK` takes the scratch pool of the page over. -/
theorem Base.adopt {p : ℕ} (h : Base s [p]) (hunlinks : s.unlinks = []) {u : Unlink}
    (hpool : u.pagePool = some p) (hwaiting : u.drain.Waiting) {t : State}
    (hfreed : t.freed = s.freed) (hlive : t.walk.live = s.walk.live)
    (hrpool : t.walk.rpool = s.walk.rpool) (hnext : t.nextPool = s.nextPool)
    (hlist : t.unlinks = [u]) (hlog : t.log = s.log) (hreq : t.request = s.request) :
    Base t [] := by
  have hold : owned s = if s.walk.live then [s.walk.rpool] else [] := by
    rw [owned, hunlinks]
    exact List.append_nil _
  have hnew : owned t = (if s.walk.live then [s.walk.rpool] else []) ++ [p] := by
    rw [owned, hlist, hlive, hrpool, List.filterMap_cons, hpool]
    rfl
  have hpools := h.pools
  rw [hold] at hpools
  constructor
  · rw [hfreed, hnew, hnext]
    refine List.Perm.trans ?_ hpools
    rw [List.append_nil, List.append_assoc]
    exact List.Perm.append_left _ List.perm_append_comm
  · rw [hlist]
    intro v hv
    rw [List.mem_singleton.1 hv]
    exact hwaiting
  · rw [hlog]; exact h.truthful
  · rw [hlog]; exact h.quiet
  · rw [hlog, hlive]; exact h.opDones
  · rw [hlog, hreq]; exact h.finalizes
  · rw [hlog, hreq]; exact h.terminates

/-- **A page is delivered**: the walk waits for its `UNLINK`, or the page is settled at once, or
the walk is to be abandoned. -/
theorem Running.deliver (henable : conf.redisEnable = true) {members : List Bytes}
    (h : Running s members) (hunsent : s.walk.unsent = false) (env : Env) :
    Delivered s (deliverPage conf env members s).1 (deliverPage conf env members s).2 := by
  obtain ⟨htimer, hactive⟩ := h.written hunsent
  have hnoted : Attached (s.note (.page members)) [] :=
    { h.toAttached with
      toBase := h.toBase.note ⟨nofun, nofun, nofun⟩ trivial fun _ => h.parked
      count := h.count }
  have hmem : ∀ n ∈ s.log, n ∈ Note.page members :: s.log := fun n hn => List.mem_cons_of_mem _ hn
  have hfailed : ∀ {t : State}, Attached t [] → t.walk.scanStatus = .error →
      t.log = Note.page members :: s.log → Delivered s t .error := by
    intro t ht hstatus hlog
    exact ⟨by rw [hlog]; exact hmem, fun _ => ⟨ht, hstatus⟩, nofun, nofun⟩
  unfold deliverPage
  dsimp only
  by_cases htmp : env.tmp = false
  · rw [if_pos htmp]
    exact hfailed hnoted h.status rfl
  rw [if_neg htmp]
  have hcreated := hnoted.toBase.createPool
  have hdropped : Attached ({ s.note (.page members) with
      nextPool := s.nextPool + 1 }.destroyPool (some s.nextPool)) [] :=
    { hnoted with toBase := hcreated.destroyPool }
  by_cases hdelkeys : env.delkeys = false
  · rw [if_pos hdelkeys]
    exact hfailed hdropped h.status rfl
  rw [if_neg hdelkeys]
  rcases hkeys : pageKeys conf.prefixBytes members env.lockbufs with _ | keys
  · exact hfailed hdropped h.status rfl
  dsimp only
  have hawake : ¬ (s.note (.page members)).walk.suspended = true := by
    show ¬ s.walk.suspended = true
    rw [h.suspended]
    nofun
  rw [if_neg hawake]
  -- the walk is suspended, and the purge has the page
  have hinhand : Delivering { s.note (.page members) with
      nextPool := s.nextPool + 1
      walk.suspended := true
      purge.pageResume := true
      purge.pagePool := some s.nextPool
      purge.pageMembers := members } s.nextPool :=
    { toBase := hcreated.congr rfl rfl rfl rfl rfl rfl rfl
      live := h.live
      detached := h.detached
      reqCln := h.reqCln
      parked := h.parked
      dead := h.dead
      count := h.count
      status := h.status
      unlinks := h.unlinks
      pageResume := rfl
      pagePool := rfl
      unsent := hunsent
      writeTimer := htimer
      writeActive := hactive
      settled := h.settled }
  obtain ⟨hnothing, hsent⟩ := cmdMany_unlink henable env.unlink hkeys
  rcases hcmd : cmdMany conf env.unlink false keys with _ | _ | expected
  · have hlocal := hinhand.settle conf env true fun _ => hnothing hcmd
    exact { hlocal with mem := fun n hn => hlocal.mem n (hmem n hn) }
  · have hlocal := hinhand.settle conf env false nofun
    exact { hlocal with mem := fun n hn => hlocal.mem n (hmem n hn) }
  dsimp only
  obtain ⟨hexpected, hmembers⟩ := hsent expected hcmd
  have hwaiting : (Drain.mk expected [] false).Waiting := ⟨hexpected, Or.inl ⟨rfl, rfl⟩⟩
  by_cases hcleanup : env.cleanup = false
  · rw [if_pos hcleanup]
    refine hfailed ?_ h.status rfl
    exact
      { toBase := hinhand.toBase.adopt h.unlinks rfl hwaiting rfl rfl rfl rfl
          (congrArg (· ++ [_]) h.unlinks) rfl rfl
        live := h.live
        detached := h.detached
        reqCln := h.reqCln
        parked := h.parked
        dead := Or.inr ⟨_, congrArg (· ++ [_]) h.unlinks, rfl, rfl, rfl⟩
        count := h.count }
  · rw [if_neg hcleanup]
    refine ⟨hmem, nofun, nofun, fun _ =>
      ⟨⟨members, keys, ⟨expected, [], false⟩, true, true, some s.nextPool, true⟩, ?_⟩⟩
    exact
      { toBase := hinhand.toBase.adopt h.unlinks rfl hwaiting rfl rfl rfl rfl
          (congrArg (· ++ [_]) h.unlinks) rfl rfl
        live := h.live
        suspended := rfl
        detached := h.detached
        reqCln := h.reqCln
        status := h.status
        parked := h.parked
        unlinks := congrArg (· ++ [_]) h.unlinks
        unsent := hunsent
        writeTimer := htimer
        writeActive := hactive
        alive := rfl
        cln := rfl
        resume := rfl
        pageResume := rfl
        pagePool := rfl
        pagePool_some := rfl
        pageMembers := rfl
        keys := pageKeys_mem hkeys
        nonEmpty := hmembers
        count := h.count
        settled := h.settled.trans (congrArg (· ++ _) (inHand_of_pos hmembers)) }

end Pages

/-! ## Events of the walk -/

section Events

variable {s : State} {conf : Conf}

/-- A page that is read is the page in hand. -/
theorem Running.receive (h : Running s []) (cursor : Bytes) (members : List Bytes) :
    Running (s.note (.received cursor members)) members := by
  have hreceived : received (.received cursor members :: s.log) = inHand members ++ received s.log := by
    simp only [received, inHand, List.filterMap_cons]
    by_cases hpos : 0 < nonEmpty members
    · simp [hpos]
    · simp [hpos]
  exact
    { toBase := h.toBase.note ⟨nofun, nofun, nofun⟩ trivial nofun
      live := h.live
      detached := h.detached
      reqCln := h.reqCln
      parked := h.parked
      dead := h.dead
      count := h.count
      suspended := h.suspended
      status := h.status
      unlinks := h.unlinks
      pageResume := h.pageResume
      pagePool := h.pagePool
      written := h.written
      settled := hreceived.trans (congrArg (inHand members ++ ·) h.settled) }

/-- **The read event keeps the invariant.** -/
theorem Inv.read (henable : conf.redisEnable = true) (h : Inv s) (hlive : s.walk.live = true)
    (env : Env) {r : SscanRead} (hearly : r.early s.walk.unsent = false) :
    Inv (readSscan conf env r s) := by
  unfold readSscan
  obtain hrun | ⟨u, hwaits, hcursor⟩ | ⟨u, horphan⟩ | hover := h
  · rw [if_neg (by rw [hrun.suspended]; nofun)]
    have herror : s.walk.scanStatus ≠ .ok := by rw [hrun.status]; nofun
    cases r with
    | timedout => exact (hrun.abandon herror env).inv
    | failed => exact (hrun.abandon herror env).inv
    | again => exact Or.inl hrun
    | page cursor members =>
      have hpage := hrun.receive cursor members
      have hread : Note.received cursor members ∈ (s.note (.received cursor members)).log :=
        List.mem_cons_self
      dsimp only
      by_cases hnil : members = []
      · subst hnil
        rw [if_pos rfl]
        exact hpage.advance env fun _ => ⟨[], hread⟩
      rw [if_neg hnil]
      have hdelivered := hpage.deliver henable hearly env
      generalize deliverPage conf env members (s.note (.received cursor members)) = delivered
        at hdelivered ⊢
      obtain ⟨t, rc⟩ := delivered
      cases rc with
      | error =>
        obtain ⟨hattached, hstatus⟩ := hdelivered.error rfl
        exact (hattached.abandon (by rw [hstatus]; nofun) env).inv
      | done => exact (hdelivered.done rfl).advance env fun _ => ⟨_, hdelivered.mem _ hread⟩
      | again =>
        obtain ⟨u, hwaits⟩ := hdelivered.again rfl
        dsimp only
        rw [if_neg (by rw [hwaits.suspended]; nofun)]
        by_cases hdoomed : env.disarm = false ∨ cursor.length > resumeCursorSize
        · rw [if_pos hdoomed]
          refine Or.inr (Or.inl ⟨u, ?_, nofun⟩)
          exact { hwaits with toBase := hwaits.toBase.congr rfl rfl rfl rfl rfl rfl rfl }
        · rw [if_neg hdoomed]
          refine Or.inr (Or.inl ⟨u, ?_, fun _ => ⟨_, hdelivered.mem _ hread⟩⟩)
          exact { hwaits with toBase := hwaits.toBase.congr rfl rfl rfl rfl rfl rfl rfl }
  · rw [if_pos hwaits.suspended]
    split
    · refine Or.inr (Or.inl ⟨u, ?_, nofun⟩)
      exact
        { hwaits with
          toBase := hwaits.toBase.congr rfl rfl rfl rfl rfl rfl rfl
          status := rfl }
    · exact Or.inr (Or.inl ⟨u, hwaits, hcursor⟩)
  · rw [if_pos horphan.suspended]
    split
    · refine Or.inr (Or.inr (Or.inl ⟨u, ?_⟩))
      exact { horphan with toBase := horphan.toBase.congr rfl rfl rfl rfl rfl rfl rfl }
    · exact Or.inr (Or.inr (Or.inl ⟨u, horphan⟩))
  · rw [hover.live] at hlive
    cases hlive

theorem SscanRead.early_sent (r : SscanRead) : r.early false = false := by cases r <;> rfl

/-- **The write event keeps the invariant.**  While the walk is suspended its command is sent and
its event registered, so the handler only gets as far as the reader. -/
theorem Inv.write (henable : conf.redisEnable = true) {handleWriteEvent : Bool → Bool → Bool}
    (hregistered : ∀ syscall, handleWriteEvent true syscall = true) (h : Inv s)
    (hlive : s.walk.live = true) (env : Env) {timedout : Bool}
    (htimer : timedout = true → s.walk.writeTimer = true) (sent : SendRc) (syscall : Bool)
    (r : SscanRead) :
    Inv (walkWrite handleWriteEvent conf env timedout sent syscall r s) := by
  unfold walkWrite
  dsimp only
  obtain hrun | ⟨u, hwaits, hcursor⟩ | ⟨u, horphan⟩ | hover := h
  · have herror : s.walk.scanStatus ≠ .ok := by rw [hrun.status]; nofun
    split_ifs with htimedout hfailed hagain harmed harmed
    · exact (hrun.abandon herror env).inv
    · exact (hrun.abandon herror env).inv
    · refine Or.inl ?_
      exact
        { hrun with
          toBase := hrun.toBase.congr rfl rfl rfl rfl rfl rfl rfl
          written := fun hsent => by rw [hagain.1] at hsent; cases hsent }
    · exact (hrun.abandon herror env).inv
    · have hsent : Running { s with
          walk.unsent := false
          walk.writeTimer := false
          walk.writeActive := true } [] :=
        { hrun with
          toBase := hrun.toBase.congr rfl rfl rfl rfl rfl rfl rfl
          written := fun _ => ⟨rfl, rfl⟩ }
      exact Inv.read henable (Or.inl hsent) hsent.live env (SscanRead.early_sent r)
    · have hsent : Attached { s with walk.unsent := false, walk.writeTimer := false } [] :=
        hrun.toAttached.setWalk rfl rfl rfl rfl
      exact (hsent.abandon herror env).inv
  · have hidle : ¬ timedout = true := by
      intro hout
      have hset := htimer hout
      rw [hwaits.writeTimer] at hset
      cases hset
    rw [if_neg hidle, if_neg (by rw [hwaits.unsent]; nofun), if_neg (by rw [hwaits.unsent]; nofun),
      hwaits.writeActive, if_pos (hregistered syscall)]
    have hsent : Waits { s with
        walk.unsent := false
        walk.writeTimer := false
        walk.writeActive := true } u :=
      { hwaits with
        toBase := hwaits.toBase.congr rfl rfl rfl rfl rfl rfl rfl
        unsent := rfl
        writeTimer := rfl
        writeActive := rfl }
    exact Inv.read henable (Or.inr (Or.inl ⟨u, hsent, hcursor⟩)) hsent.live env
      (SscanRead.early_sent r)
  · have hidle : ¬ timedout = true := by
      intro hout
      have hset := htimer hout
      rw [horphan.writeTimer] at hset
      cases hset
    rw [if_neg hidle, if_neg (by rw [horphan.unsent]; nofun),
      if_neg (by rw [horphan.unsent]; nofun), horphan.writeActive, if_pos (hregistered syscall)]
    have hsent : Orphan { s with
        walk.unsent := false
        walk.writeTimer := false
        walk.writeActive := true } u :=
      { horphan with
        toBase := horphan.toBase.congr rfl rfl rfl rfl rfl rfl rfl
        unsent := rfl
        writeTimer := rfl
        writeActive := rfl }
    exact Inv.read henable (Or.inr (Or.inr (Or.inl ⟨u, hsent⟩))) hsent.live env
      (SscanRead.early_sent r)
  · rw [hover.live] at hlive
    cases hlive

end Events

/-! ## Events of an `UNLINK` -/

section Unlinks

variable {s : State} {conf : Conf}

theorem acked_unlinked {ms keys : List Bytes} {expected : ℕ} {recv : Bytes} {log : List Note} :
    acked (.unlinked ms keys expected recv :: log) =
      if RepliesOk expected recv then ms :: acked log else acked log := by
  simp only [acked, List.filterMap_cons]
  by_cases hok : RepliesOk expected recv
  · simp [hok]
  · simp [hok]

/-- The operation of the only `UNLINK` is gone, and its scratch pool is in the hands of the
completion. -/
theorem Base.unlinked {u : Unlink} (h : Base s []) (hunlinks : s.unlinks = [u])
    (expected : ℕ) (recv : Bytes) :
    Base ({ s with unlinks := [] }.note (.unlinked u.members u.keys expected recv))
      u.pagePool.toList := by
  have hgone : Base { s with unlinks := [] } u.pagePool.toList := by
    refine ⟨?_, nofun, h.truthful, h.quiet, h.opDones, h.finalizes, h.terminates⟩
    have hold : owned s = owned { s with unlinks := [] } ++ u.pagePool.toList := by
      unfold owned
      rw [hunlinks]
      cases hpool : u.pagePool with
      | none => simp [hpool]
      | some p => simp [hpool]
    refine List.Perm.trans ?_ h.pools
    rw [List.append_nil, hold, List.append_assoc]
    exact List.Perm.append_left _ List.perm_append_comm
  exact hgone.note ⟨nofun, nofun, nofun⟩ trivial nofun

theorem Base.destroyHeld {p : Option ℕ} (h : Base s p.toList) : Base (s.destroyPool p) [] := by
  cases p with
  | none => exact h
  | some p => exact h.destroyPool

/-- **The completion of the `UNLINK` the walk waits for**: the page is settled, and the walk goes
on or ends, and it ends where the `UNLINK` failed. -/
theorem Waits.unlinked {u : Unlink} (h : Waits s u) (hcursor : CursorRead s) (env : Env) {d : Drain}
    {verdict : Bool} (hverdict : verdict = true ↔ RepliesOk d.expected d.recv) :
    Inv (pageUnlinked conf env u verdict
        ({ s with unlinks := [] }.note (.unlinked u.members u.keys d.expected d.recv))) ∧
      (verdict = false → Over (pageUnlinked conf env u verdict
        ({ s with unlinks := [] }.note (.unlinked u.members u.keys d.expected d.recv)))) := by
  obtain ⟨p, hp⟩ := Option.isSome_iff_exists.1 h.pagePool_some
  have hbase := h.toBase.unlinked h.unlinks d.expected d.recv
  rw [hp] at hbase
  generalize ht : ({ s with unlinks := [] }.note
    (.unlinked u.members u.keys d.expected d.recv)) = t at hbase ⊢
  have hpool : t.purge.pagePool = some p := by
    rw [← ht]
    exact h.pagePool.trans hp
  have hmembers : t.purge.pageMembers = u.members := by
    rw [← ht]
    exact h.pageMembers
  have hlog : t.log = .unlinked u.members u.keys d.expected d.recv :: s.log := by
    rw [← ht]
    rfl
  have hj : verdict = true → Justified t.log (.srem t.purge.pageMembers) := by
    intro hv m hm hne
    rw [hmembers] at hm
    rw [hlog]
    exact ⟨_, _, _, _, List.mem_cons_self, h.keys m hm hne, hverdict.1 hv⟩
  obtain ⟨hdone, hsettles, hrc⟩ := pageSettle_spec conf env hbase hpool hj
  unfold pageUnlinked
  rw [if_neg (by rw [h.alive]; nofun)]
  generalize pageSettle conf env verdict t = settled at hdone hsettles hrc ⊢
  obtain ⟨t', rc⟩ := settled
  dsimp only at hdone hsettles hrc ⊢
  have hwalk : t'.walk = s.walk := hsettles.walk.trans (by rw [← ht]; rfl)
  have hresume : t'.purge.pageResume = true :=
    hsettles.pageResume.trans (by rw [← ht]; exact h.pageResume)
  have hrequest : t'.request = .parked :=
    hsettles.request.trans (by rw [← ht]; exact h.parked)
  have hnone : t'.unlinks = [] := hsettles.unlinks.trans (by rw [← ht]; rfl)
  have hacked : acked t'.log =
      if RepliesOk d.expected d.recv then u.members :: acked s.log else acked s.log := by
    rw [hsettles.acked, hlog, acked_unlinked]
  have hreceived : received t'.log = u.members :: acked s.log := by
    rw [hsettles.received, hlog]
    exact h.settled
  have hcount : t'.purge.purged = ackedCount t'.log := by
    have hbefore : t.purge.purged = ackedCount s.log := by
      rw [← ht]
      exact h.count
    rw [hsettles.purged, hbefore, hmembers]
    unfold ackedCount
    rw [hacked]
    by_cases hok : RepliesOk d.expected d.recv
    · rw [if_pos (hverdict.2 hok), if_pos hok, List.foldr_cons]
      exact Nat.add_comm _ _
    · rw [if_neg (mt hverdict.1 hok), if_neg hok]
      rfl
  have hattached : Attached { t' with purge.pageResume := false } [] :=
    { toBase := hdone.congr rfl rfl rfl rfl rfl rfl rfl
      live := (congrArg Walk.live hwalk).trans h.live
      detached := (congrArg Walk.detached hwalk).trans h.detached
      reqCln := (congrArg Walk.reqCln hwalk).trans h.reqCln
      parked := hrequest
      dead := Or.inl hnone
      count := hcount }
  rw [if_pos hresume]
  have hfailed : verdict = false → rc = false := by
    intro hv
    cases rc with
    | false => rfl
    | true => exact absurd (hrc rfl) (by rw [hv]; nofun)
  have hresumed := hattached.resume env rc
    ((congrArg Walk.suspended hwalk).trans h.suspended) ?_
  · exact ⟨hresumed.1, fun hv => hresumed.2 (hfailed hv)⟩
  intro hok hdoomed
  constructor
  · exact
      { toAttached := hattached.setWalk rfl rfl rfl rfl
        suspended := rfl
        status := (congrArg Walk.scanStatus hwalk).trans h.status
        unlinks := hnone
        pageResume := rfl
        pagePool := hsettles.pagePool
        written := fun _ => ⟨(congrArg Walk.writeTimer hwalk).trans h.writeTimer,
          (congrArg Walk.writeActive hwalk).trans h.writeActive⟩
        settled := by
          rw [if_pos (hverdict.1 (hrc hok))] at hacked
          exact hreceived.trans hacked.symm }
  · obtain ⟨ms, hread⟩ := hcursor ((congrArg Walk.resumeDoomed hwalk).symm.trans hdoomed)
    refine ⟨ms, ?_⟩
    have hmem : Note.received s.walk.resumeCursor ms ∈ t.log := by
      rw [hlog]
      exact List.mem_cons_of_mem _ hread
    have hsame : t'.walk.resumeCursor = s.walk.resumeCursor := congrArg Walk.resumeCursor hwalk
    exact hsame ▸ hsettles.mem hmem

theorem sscanResume_detached (env : Env) (rc : Bool) (hsuspended : s.walk.suspended = true)
    (hdetached : s.walk.detached = true) :
    sscanResume env rc s = opDone { s with walk.suspended := false } := by
  unfold sscanResume
  rw [if_neg (by rw [hsuspended]; nofun)]
  exact if_pos hdetached

/-- **The completion after the request is gone** ends the walk. -/
theorem Orphan.unlinked {u : Unlink} (h : Orphan s u) (env : Env) (expected : ℕ) (recv : Bytes)
    (verdict : Bool) :
    Over (pageUnlinked conf env u verdict
      ({ s with unlinks := [] }.note (.unlinked u.members u.keys expected recv))) := by
  have hbase := (h.toBase.unlinked h.unlinks expected recv).destroyHeld
  obtain ⟨p, hp⟩ := Option.isSome_iff_exists.1 h.pagePool_some
  rw [hp] at hbase
  unfold pageUnlinked
  rw [if_pos h.alive, if_pos h.resume, hp]
  rw [sscanResume_detached env false (by exact h.suspended) (by exact h.detached)]
  have hawake : Base { ({ s with unlinks := [] }.note
      (.unlinked u.members u.keys expected recv)).destroyPool (some p) with
        walk.suspended := false } [] := hbase.congr rfl rfl rfl rfl rfl rfl rfl
  exact
    { toBase := hawake.opDone h.live
      live := rfl
      reqCln := rfl
      request := by
        show s.request ≠ .parked
        rw [h.terminated]
        nofun
      unlinks := Or.inl rfl }

/-- A completion that calls nobody destroys the scratch of its page. -/
theorem Over.unlinked {u : Unlink} (h : Over s) (hunlinks : s.unlinks = [u]) (hdead : u.Dead)
    (env : Env) (expected : ℕ) (recv : Bytes) (verdict : Bool) :
    Over (pageUnlinked conf env u verdict
      ({ s with unlinks := [] }.note (.unlinked u.members u.keys expected recv))) := by
  have hbase := (h.toBase.unlinked hunlinks expected recv).destroyHeld
  unfold pageUnlinked
  rw [if_pos hdead.1, if_neg (by rw [hdead.2.2]; nofun)]
  cases hpool : u.pagePool with
  | none =>
    rw [hpool] at hbase
    exact ⟨hbase, h.live, h.reqCln, h.request, Or.inl rfl⟩
  | some p =>
    rw [hpool] at hbase
    exact ⟨hbase, h.live, h.reqCln, h.request, Or.inl rfl⟩

/-- The only `UNLINK` there is. -/
theorem getElem?_of_unlinks {u v : Unlink} {k : ℕ} (hunlinks : s.unlinks = [u])
    (hk : s.unlinks[k]? = some v) : k = 0 ∧ v = u := by
  rw [hunlinks] at hk
  cases k with
  | zero => exact ⟨rfl, (Option.some.inj hk).symm⟩
  | succ k => cases hk

/-- **An event of an `UNLINK` keeps the invariant.** -/
theorem Inv.unlink (h : Inv s) (env : Env) {k : ℕ} {u : Unlink} (hk : s.unlinks[k]? = some u)
    (e : DrainEvent) : Inv (unlinkEvent conf env k u e s) := by
  have hset : ∀ v w : Unlink, s.unlinks = [v] → s.unlinks.set 0 w = [w] := by
    intro v w hv
    rw [hv]
    rfl
  have herase : ∀ v : Unlink, s.unlinks = [v] → s.unlinks.eraseIdx 0 = [] := by
    intro v hv
    rw [hv]
    rfl
  -- a reader that goes on waiting
  have hbase : ∀ {d : Drain}, Base s [] → s.unlinks = [u] → d.Waiting →
      Base { s with unlinks := [{ u with drain := d }] } [] := by
    intro d hb hu hd
    refine ⟨?_, ?_, hb.truthful, hb.quiet, hb.opDones, hb.finalizes, hb.terminates⟩
    · have hsame : owned { s with unlinks := [{ u with drain := d }] } = owned s := by
        unfold owned
        rw [hu]
        rfl
      rw [hsame]
      exact hb.pools
    · intro v hv
      rw [List.mem_singleton.1 hv]
      exact hd
  unfold unlinkEvent
  obtain hrun | ⟨v, hwaits, hcursor⟩ | ⟨v, horphan⟩ | hover := h
  · rw [hrun.unlinks] at hk
    cases hk
  · obtain ⟨rfl, rfl⟩ := getElem?_of_unlinks hwaits.unlinks hk
    have hwaiting := hwaits.waiting u (by rw [hwaits.unlinks]; exact List.mem_singleton.2 rfl)
    obtain ⟨d, hd, -, hd'⟩ | ⟨d, clean, hd, -, hverdict⟩ := drainEvent_spec hwaiting e
    · rw [hd]
      dsimp only
      rw [hset u _ hwaits.unlinks]
      refine Or.inr (Or.inl ⟨{ u with drain := d }, ?_, hcursor⟩)
      exact
        { hwaits with
          toBase := hbase hwaits.toBase hwaits.unlinks hd'
          unlinks := rfl }
    · rw [hd]
      dsimp only
      rw [herase u hwaits.unlinks]
      exact (hwaits.unlinked hcursor env hverdict).1
  · obtain ⟨rfl, rfl⟩ := getElem?_of_unlinks horphan.unlinks hk
    have hwaiting := horphan.waiting u (by rw [horphan.unlinks]; exact List.mem_singleton.2 rfl)
    obtain ⟨d, hd, -, hd'⟩ | ⟨d, clean, hd, -, hverdict⟩ := drainEvent_spec hwaiting e
    · rw [hd]
      dsimp only
      rw [hset u _ horphan.unlinks]
      refine Or.inr (Or.inr (Or.inl ⟨{ u with drain := d }, ?_⟩))
      exact
        { horphan with
          toBase := hbase horphan.toBase horphan.unlinks hd'
          unlinks := rfl }
    · rw [hd]
      dsimp only
      rw [herase u horphan.unlinks]
      exact (horphan.unlinked env _ _ _).inv
  · obtain hnone | ⟨v, hv, hdead⟩ := hover.unlinks
    · rw [hnone] at hk
      cases hk
    obtain ⟨rfl, rfl⟩ := getElem?_of_unlinks hv hk
    have hwaiting := hover.waiting u (by rw [hv]; exact List.mem_singleton.2 rfl)
    obtain ⟨d, hd, -, hd'⟩ | ⟨d, clean, hd, -, hverdict⟩ := drainEvent_spec hwaiting e
    · rw [hd]
      dsimp only
      rw [hset u _ hv]
      exact Over.inv
        { hover with
          toBase := hbase hover.toBase hv hd'
          unlinks := Or.inr ⟨_, rfl, hdead⟩ }
    · rw [hd]
      dsimp only
      rw [herase u hv]
      exact (hover.unlinked hv hdead env _ _ _).inv

end Unlinks

/-! ## The end of the request -/

section Requests

variable {s : State}

theorem Base.terminate {held : List ℕ} (h : Base s held) (hreq : s.request = .parked) :
    Base ({ s with request := .terminated }.note .terminated) held := by
  have hfin := h.finalizes
  have hterm := h.terminates
  rw [hreq, if_neg (by nofun)] at hfin hterm
  refine ⟨h.pools, h.waiting, ⟨trivial, h.truthful⟩, ⟨nofun, h.quiet⟩, ?_, ?_, ?_⟩
  · exact (List.count_cons_of_ne (by nofun)).trans h.opDones
  · exact (List.count_cons_of_ne (by nofun)).trans hfin
  · have hone : (Note.terminated :: s.log).count .terminated = 1 := by
      rw [List.count_cons_self, hterm]
    exact hone

/-- **A request that is terminated** detaches its walk: it ends there and then, or is left to
the `UNLINK` it waits for. -/
theorem Inv.terminate (h : Inv s) (hreq : s.request = .parked) :
    Inv (runCleanups ({ s with request := .terminated }.note .terminated)) := by
  obtain hrun | ⟨u, hwaits, -⟩ | ⟨u, horphan⟩ | hover := h
  · have hgone := hrun.toBase.terminate hreq
    have hmap : ∀ f : Unlink → Unlink, s.unlinks.map f = [] := fun f => by rw [hrun.unlinks]; rfl
    have hdetach : runCleanups ({ s with request := .terminated }.note .terminated) =
        opDone { ({ s with request := .terminated }.note .terminated) with
          unlinks := []
          walk.detached := true
          walk.reqCln := false
          walk.scanStatus := .error } := by
      simp only [runCleanups, walkDetach, State.note, hmap, hrun.reqCln, hrun.detached,
        hrun.suspended, if_true, Bool.false_eq_true, if_false]
    rw [hdetach]
    have hbase : Base { ({ s with request := .terminated }.note .terminated) with
        unlinks := []
        walk.detached := true
        walk.reqCln := false
        walk.scanStatus := .error } [] :=
      hgone.congr rfl (by simp only [owned, hrun.unlinks, State.note]) rfl hrun.unlinks.symm rfl rfl
        rfl
    exact Over.inv ⟨hbase.opDone hrun.live, rfl, rfl, nofun, Or.inl rfl⟩
  · have hgone := hwaits.toBase.terminate hreq
    have hmap : s.unlinks.map (fun u => if u.cln then { u with alive := false, cln := false } else u)
        = [{ u with alive := false, cln := false }] := by
      rw [hwaits.unlinks, List.map_cons, List.map_nil, if_pos hwaits.cln]
    have hdetach : runCleanups ({ s with request := .terminated }.note .terminated) =
        { ({ s with request := .terminated }.note .terminated) with
          unlinks := [{ u with alive := false, cln := false }]
          walk.detached := true
          walk.reqCln := false
          walk.scanStatus := .error
          walk.resumeDoomed := true } := by
      simp only [runCleanups, walkDetach, State.note, hmap, hwaits.reqCln, hwaits.detached,
        hwaits.suspended, if_true, Bool.false_eq_true, if_false]
    rw [hdetach]
    refine Or.inr (Or.inr (Or.inl ⟨{ u with alive := false, cln := false }, ?_⟩))
    have hpools := hgone.pools
    have howned : owned ({ s with request := .terminated }.note .terminated) = owned s := rfl
    rw [howned, owned, hwaits.unlinks] at hpools
    exact
      { toBase :=
          { pools := hpools
            waiting := fun v hv => by
              rw [List.mem_singleton.1 hv]
              exact hwaits.waiting u (by rw [hwaits.unlinks]; exact List.mem_singleton.2 rfl)
            truthful := hgone.truthful
            quiet := hgone.quiet
            opDones := hgone.opDones
            finalizes := hgone.finalizes
            terminates := hgone.terminates }
        live := hwaits.live
        suspended := hwaits.suspended
        detached := rfl
        reqCln := rfl
        terminated := rfl
        unlinks := rfl
        unsent := hwaits.unsent
        writeTimer := hwaits.writeTimer
        writeActive := hwaits.writeActive
        alive := rfl
        cln := rfl
        resume := hwaits.resume
        pagePool_some := hwaits.pagePool_some }
  · rw [horphan.terminated] at hreq
    cases hreq
  · exact absurd hreq hover.request

/-- The pool of a request that was finalised goes without a call. -/
theorem Inv.release (h : Inv s) (hreq : s.request = .finalized) :
    Inv (runCleanups { s with request := .released }) := by
  obtain hrun | ⟨u, hwaits, -⟩ | ⟨u, horphan⟩ | hover := h
  · rw [hrun.parked] at hreq
    cases hreq
  · rw [hwaits.parked] at hreq
    cases hreq
  · rw [horphan.terminated] at hreq
    cases hreq
  · have hmap : s.unlinks.map (fun u => if u.cln then { u with alive := false, cln := false } else u)
        = s.unlinks := by
      obtain hnone | ⟨u, hu, hdead⟩ := hover.unlinks
      · rw [hnone]
        rfl
      · rw [hu, List.map_cons, List.map_nil, if_neg (by rw [hdead.2.1]; nofun)]
    have hrun : runCleanups { s with request := .released } = { s with request := .released } := by
      simp only [runCleanups, hmap, hover.reqCln, Bool.false_eq_true, if_false]
    rw [hrun]
    have hfin := hover.finalizes
    have hterm := hover.terminates
    rw [hreq, if_pos (Or.inl rfl)] at hfin
    rw [hreq, if_neg (by nofun)] at hterm
    exact Over.inv
      { toBase := ⟨hover.pools, hover.waiting, hover.truthful, hover.quiet, hover.opDones, hfin,
          hterm⟩
        live := hover.live
        reqCln := hover.reqCln
        request := nofun
        unlinks := hover.unlinks }

end Requests

/-! ## Runs -/

section Runs

variable {handleWriteEvent : Bool → Bool → Bool} {conf : Conf} {s : State}

/-- **Every step keeps the invariant.** -/
theorem Inv.step (hregistered : ∀ syscall, handleWriteEvent true syscall = true)
    (henable : conf.redisEnable = true) (h : Inv s) (i : Env × Event) :
    Inv (step handleWriteEvent conf s i) := by
  obtain ⟨env, e⟩ := i
  cases e with
  | refused =>
    simp only [TagPurge.step]
    split
    · rename_i hsend
      obtain hrun | ⟨u, hwaits, -⟩ | ⟨u, horphan⟩ | hover := h
      · exact (hrun.abandon (by rw [hrun.status]; nofun) env).inv
      · rw [hwaits.unsent] at hsend
        cases hsend.2
      · rw [horphan.unsent] at hsend
        cases hsend.2
      · rw [hover.live] at hsend
        cases hsend.1
    · exact h
  | write timedout sent syscall r =>
    simp only [TagPurge.step]
    split
    · rename_i hcan
      exact h.write henable hregistered hcan.1 env hcan.2 sent syscall r
    · exact h
  | read r =>
    simp only [TagPurge.step]
    split
    · rename_i hcan
      exact h.read henable hcan.1 env hcan.2
    · exact h
  | unlink k e =>
    simp only [TagPurge.step]
    split
    · exact h
    · exact h.unlink env ‹_› e
  | destroyRequest =>
    simp only [TagPurge.step]
    split
    · exact h.terminate ‹_›
    · exact h.release ‹_›
    · exact h
    · exact h

/-- A launched walk begins with nothing read. -/
theorem running_launched (pending : ℕ) : Running (State.launched pending) [] :=
  { pools := List.Perm.refl _
    waiting := nofun
    truthful := trivial
    quiet := trivial
    opDones := rfl
    finalizes := rfl
    terminates := rfl
    live := rfl
    detached := rfl
    reqCln := rfl
    parked := rfl
    dead := Or.inl rfl
    count := rfl
    suspended := rfl
    status := rfl
    unlinks := rfl
    pageResume := rfl
    pagePool := rfl
    written := nofun
    settled := rfl }

theorem inv_after (hregistered : ∀ syscall, handleWriteEvent true syscall = true)
    (henable : conf.redisEnable = true) (pending : ℕ) (run : List (Env × Event)) :
    Inv (Run.after (step handleWriteEvent conf) (State.launched pending) run) := by
  have hlaunched : Inv (State.launched pending) := Or.inl (running_launched pending)
  exact Run.after_invariant (P := Inv) (fun _ i h => h.step hregistered henable i) hlaunched run

theorem Inv.base (h : Inv s) : Base s [] := by
  obtain hrun | ⟨u, hwaits, -⟩ | ⟨u, horphan⟩ | hover := h
  · exact hrun.toBase
  · exact hwaits.toBase
  · exact horphan.toBase
  · exact hover.toBase

end Runs

end TagPurge
end L2
end CacheTurbo
