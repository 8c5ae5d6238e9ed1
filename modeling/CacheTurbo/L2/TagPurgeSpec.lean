/-
# What a purge says, and how its walk ends

`tag_purge_truthful_iff` says in which runs a purge tells the truth: all of them, but
for the base-key purge whose walk could not be launched and that is answered like one
that found nothing.  `walk_lifecycle` is the life of the walk: its operation is
completed once, its request finalised or terminated, its pools destroyed once, and it
is not parked without an `UNLINK` that will resume it.
-/

import CacheTurbo.L2.TagPurgeInv

namespace CacheTurbo
namespace L2
namespace TagPurge

open Bytes Incremental

section Results

variable {handleWriteEvent : Bool → Bool → Bool} {conf : Conf} {s : State}

/-! ## What a purge says -/

/-- A request that its handler answered itself. -/
structure Answered (s : State) (a : Answer) : Prop where
  live : s.walk.live = false
  reqCln : s.walk.reqCln = false
  unlinks : s.unlinks = []
  request : s.request ≠ .parked
  log : s.log = [.answered a]

theorem answered_answer (a : Answer) : Answered (State.idle.answer a) a :=
  ⟨rfl, rfl, rfl, nofun, rfl⟩

/-- Nothing happens after an answer without a walk. -/
theorem Answered.step {a : Answer} (h : Answered s a) (i : Env × Event) :
    Answered (step handleWriteEvent conf s i) a := by
  have hoff : ¬ s.walk.live = true := by simp [h.live]
  obtain ⟨env, e⟩ := i
  cases e with
  | refused =>
    simp only [TagPurge.step]
    rw [if_neg fun hsend => hoff hsend.1]
    exact h
  | write timedout sent syscall r =>
    simp only [TagPurge.step]
    rw [if_neg fun hcan => hoff hcan.1]
    exact h
  | read r =>
    simp only [TagPurge.step]
    rw [if_neg fun hcan => hoff hcan.1]
    exact h
  | unlink k e =>
    simp only [TagPurge.step, h.unlinks, List.getElem?_nil]
    exact h
  | destroyRequest =>
    simp only [TagPurge.step]
    cases hreq : s.request with
    | parked => exact absurd hreq h.request
    | finalized =>
      simp only [runCleanups, h.unlinks, h.reqCln, List.map_nil, Bool.false_eq_true, if_false]
      exact ⟨h.live, h.reqCln, rfl, by simp, h.log⟩
    | terminated => exact h
    | released => exact h

/-- An answer without a walk is right unless it claims that all is purged. -/
theorem Answered.truthful_iff {a : Answer} (h : Answered s a) : Truthful s.log ↔ ¬ a.Unqualified := by
  rw [h.log]
  constructor
  · rintro ⟨hj, -⟩ hu
    obtain ⟨⟨ms, hms⟩, -⟩ := hj hu
    cases hms
  · intro hu
    exact ⟨fun h => absurd h hu, trivial⟩

/-- The walk of a purge could not be launched. -/
def NoWalk (conf : Conf) (room : EnterRoom) : Prop :=
  room.pcalloc = false ∨ room.tag = false ∨ room.sscanKey = false ∨ sscanLaunched conf room = false

/-- The base-key purge whose walk could not be launched, where the delete of the base was handed
over and there is room for the text of an answer. -/
def Unlaunched (conf : Conf) (room : EnterRoom) (entry : Entry) : Prop :=
  entry = .base ∧ room.del = true ∧ room.text = true ∧ NoWalk conf room

theorem purgeAutoVary_cases (conf : Conf) (room : EnterRoom) :
    (purgeAutoVary conf room = some (State.launched room.pending) ∧
        sscanLaunched conf room = true ∧ ¬ NoWalk conf room) ∨
      purgeAutoVary conf room = none ∧ NoWalk conf room := by
  unfold purgeAutoVary NoWalk
  split_ifs with hpcalloc htag hkey hlaunched
  · exact Or.inr ⟨rfl, Or.inl hpcalloc⟩
  · exact Or.inr ⟨rfl, Or.inr (Or.inl htag)⟩
  · exact Or.inr ⟨rfl, Or.inr (Or.inr (Or.inl hkey))⟩
  · refine Or.inl ⟨rfl, hlaunched, ?_⟩
    rintro (h | h | h | h)
    · exact hpcalloc h
    · exact htag h
    · exact hkey h
    · exact Bool.false_ne_true (h.symm.trans hlaunched)
  · exact Or.inr ⟨rfl, Or.inr (Or.inr (Or.inr (Bool.not_eq_true _ ▸ hlaunched)))⟩

/-- How a handler leaves the request: with a walk, or with an answer that claims nothing but in
the one case. -/
theorem enter_cases (conf : Conf) (room : EnterRoom) (entry : Entry) :
    (sscanLaunched conf room = true ∧ enter conf room entry = State.launched room.pending ∧
        ¬ Unlaunched conf room entry) ∨
      ∃ a, enter conf room entry = State.idle.answer a ∧
        (a.Unqualified ↔ Unlaunched conf room entry) := by
  have hfailed : ∀ {a : Answer}, a.status ≠ 200 → ¬ Unlaunched conf room entry →
      (a.Unqualified ↔ Unlaunched conf room entry) := by
    intro a ha hun
    exact ⟨fun hu => absurd hu.1 ha, fun hu => absurd hu hun⟩
  cases entry with
  | admin purgeTag arg =>
    have hun : ¬ Unlaunched conf room (.admin purgeTag arg) := fun hu => nomatch hu.1
    simp only [enter, adminPurgeTag]
    split_ifs with hpurge hlen hbytes hpcalloc htag hkey hlaunched
    · exact Or.inr ⟨_, rfl, hfailed (by decide) hun⟩
    · exact Or.inr ⟨_, rfl, hfailed (by decide) hun⟩
    · exact Or.inr ⟨_, rfl, hfailed (by decide) hun⟩
    · exact Or.inr ⟨_, rfl, hfailed (by decide) hun⟩
    · exact Or.inr ⟨_, rfl, hfailed (by decide) hun⟩
    · exact Or.inr ⟨_, rfl, hfailed (by decide) hun⟩
    · exact Or.inl ⟨hlaunched, rfl, hun⟩
    · exact Or.inr ⟨_, rfl, hfailed (by decide) hun⟩
  | base =>
    simp only [enter, purgeRequest]
    by_cases hdel : room.del = false
    · rw [if_pos hdel]
      refine Or.inr ⟨_, rfl, hfailed (by decide) fun hu => ?_⟩
      exact Bool.false_ne_true (hdel.symm.trans hu.2.1)
    rw [if_neg hdel]
    rw [Bool.not_eq_false] at hdel
    obtain ⟨hauto, hlaunched, hwhy⟩ | ⟨hauto, hwhy⟩ := purgeAutoVary_cases conf room
    · rw [hauto]
      exact Or.inl ⟨hlaunched, rfl, fun hu => hwhy hu.2.2.2⟩
    · rw [hauto]
      dsimp only
      by_cases htext : room.text = false
      · rw [if_pos htext]
        refine Or.inr ⟨_, rfl, hfailed (by decide) fun hu => ?_⟩
        exact Bool.false_ne_true (htext.symm.trans hu.2.2.1)
      · rw [if_neg htext]
        rw [Bool.not_eq_false] at htext
        exact Or.inr ⟨_, rfl, fun _ => ⟨rfl, hdel, htext, hwhy⟩, fun _ => ⟨rfl, nofun⟩⟩

/-- **When a purge tells the truth**: in every run, unless it is a base-key purge whose walk could
not be launched and that is answered all the same. -/
theorem tag_purge_truthful_iff (hregistered : ∀ syscall, handleWriteEvent true syscall = true)
    (room : EnterRoom) (entry : Entry) (run : List (Env × Event)) :
    Truthful (Run.after (TagPurge.step handleWriteEvent conf) (enter conf room entry) run).log ↔
      ¬ Unlaunched conf room entry := by
  obtain ⟨hlaunched, henter, hun⟩ | ⟨a, henter, ha⟩ := enter_cases conf room entry
  · have henable : conf.redisEnable = true := (Bool.and_eq_true_iff.1 hlaunched).1
    rw [henter]
    exact iff_of_true (inv_after hregistered henable room.pending run).base.truthful hun
  · have hafter : Answered
        (Run.after (TagPurge.step handleWriteEvent conf) (State.idle.answer a) run) a :=
      Run.after_invariant (P := fun s => Answered s a) (fun _ i h => h.step i) (answered_answer a) run
    rw [henter, hafter.truthful_iff, ha]

/-- `ngx_handle_write_event` with an edge-triggered event method. -/
def edgeTriggered (active syscall : Bool) : Bool := active || syscall

/-- The prefix `ct:`. -/
def samplePrefix : L2Prefix where
  bytes := lit ['c', 't', ':']
  nonempty := by decide
  printable := by simp [lit]
  short := by decide

/-- Everything the outside is asked for is there. -/
def sampleEnv : Env :=
  { tmp := true, delkeys := true, lockbufs := 1, unlink := ⟨true, true⟩, cleanup := true,
    srem := ⟨true, true⟩, disarm := true, rearm := true, deadline := false, pool := true,
    buffers := true, text := true }

/-- Everything a handler looks for is there. -/
def sampleRoom : EnterRoom :=
  { pcalloc := true, tag := true, sscanKey := true, sscan := true, pending := 0, del := true,
    purged := 1, text := true }

/-- A walk of one page with one member: the command is sent, the page is read, and its `UNLINK` is
answered by `:1`. -/
def samplePage : List (Env × Event) :=
  [(sampleEnv, .write false .whole true .again),
    (sampleEnv, .read (.page [48] [lit ['k']])),
    (sampleEnv, .unlink 0 (.readable (.data (lit [':', '1'] ++ crlf))))]

example : (Run.after (TagPurge.step edgeTriggered ⟨samplePrefix, true⟩)
    (enter ⟨samplePrefix, true⟩ sampleRoom (.admin true (lit ['t']))) samplePage).log.head? =
      some .finalize := by decide

theorem tag_purge_truthful_page :
    Truthful (Run.after (TagPurge.step edgeTriggered ⟨samplePrefix, true⟩)
        (enter ⟨samplePrefix, true⟩ sampleRoom (.admin true (lit ['t']))) samplePage).log ↔
      ¬ Unlaunched ⟨samplePrefix, true⟩ sampleRoom (.admin true (lit ['t'])) :=
  tag_purge_truthful_iff (fun _ => rfl) sampleRoom _ samplePage

/-- A base-key purge answers `{"purged":1}` when the set could not be read at all. -/
theorem tag_purge_untruthful :
    ¬ Truthful (Run.after (TagPurge.step edgeTriggered ⟨samplePrefix, true⟩)
      (enter ⟨samplePrefix, true⟩ { sampleRoom with sscan := false } .base) []).log := by
  rintro ⟨hj, -⟩
  obtain ⟨⟨ms, hms⟩, -⟩ := hj ⟨rfl, nofun⟩
  cases hms

/-! ## How a walk ends -/

/-- The one event that ends a walk wherever it is: the `UNLINK` it waits for fails, or else its
reader times out. -/
def lastEvent (s : State) : Event :=
  if s.walk.suspended then .unlink 0 .abandon else .read .timedout

/-- The life of the operation of a walk, of its request and of its pools. -/
structure Lifecycle (handleWriteEvent : Bool → Bool → Bool) (conf : Conf) (s : State) : Prop where
  /-- It is completed once at most. -/
  once : s.log.count .opDone ≤ 1
  live_iff : s.walk.live = true ↔ Note.opDone ∉ s.log
  /-- And it can be, at any time. -/
  ends : s.walk.live = true →
    ∀ env, (step handleWriteEvent conf s (env, lastEvent s)).walk.live = false
  /-- Nobody calls back into it after that. -/
  last : Note.opDone ∈ s.log → ∀ u ∈ s.unlinks, u.resume = false ∧ u.alive = false
  /-- No callback and no finalisation after the request was terminated. -/
  quiet : Quiet s.log
  /-- The request is finalised once, with the end of the walk, where it was not terminated. -/
  finalized : Note.opDone ∈ s.log → Note.terminated ∉ s.log → s.log.count .finalize = 1
  spared : Note.terminated ∈ s.log → Note.finalize ∉ s.log
  unfinished : Note.opDone ∉ s.log → Note.finalize ∉ s.log
  /-- No pool is destroyed twice, and none is left when all is over. -/
  pools : s.freed.Nodup ∧ ∀ p ∈ s.freed, p < s.nextPool
  released : Note.opDone ∈ s.log → s.unlinks = [] → s.freed.Perm (List.range s.nextPool)
  /-- A walk that is parked has an `UNLINK` outstanding that will resume it. -/
  parked : s.walk.live = true → s.walk.suspended = true → ∃ u ∈ s.unlinks, u.resume = true

theorem Base.live_iff {held : List ℕ} (h : Base s held) :
    s.walk.live = true ↔ Note.opDone ∉ s.log := by
  rw [← List.count_eq_zero, h.opDones]
  cases s.walk.live <;> simp

/-- Once it is over, a walk stays over for its request and its tokens. -/
theorem Inv.over (h : Inv s) (hdone : s.walk.live = false) : Over s := by
  obtain hrun | ⟨u, hwaits, -⟩ | ⟨u, horphan⟩ | hover := h
  · rw [hrun.live] at hdone; cases hdone
  · rw [hwaits.live] at hdone; cases hdone
  · rw [horphan.live] at hdone; cases hdone
  · exact hover

/-- **One event more ends a walk.** -/
theorem Inv.ends (h : Inv s) (hlive : s.walk.live = true) (env : Env) :
    (TagPurge.step handleWriteEvent conf s (env, lastEvent s)).walk.live = false := by
  have habandon : ∀ d : Drain, drainEvent d .abandon = .done d false := fun _ => rfl
  obtain hrun | ⟨u, hwaits, hcursor⟩ | ⟨u, horphan⟩ | hover := h
  · have hevent : lastEvent s = .read .timedout := by
      unfold lastEvent
      rw [hrun.suspended]
      rfl
    rw [hevent]
    simp only [TagPurge.step]
    rw [if_pos ⟨hlive, rfl⟩]
    unfold readSscan
    rw [if_neg (by simp [hrun.suspended])]
    exact (hrun.abandon (by simp [hrun.status]) env).live
  · have hevent : lastEvent s = .unlink 0 .abandon := by
      unfold lastEvent
      rw [hwaits.suspended]
      rfl
    have hwaiting := hwaits.waiting u (by rw [hwaits.unlinks]; exact List.mem_singleton.2 rfl)
    rw [hevent]
    simp only [TagPurge.step, unlinkEvent, hwaits.unlinks, List.getElem?_cons_zero, habandon]
    refine ((hwaits.unlinked hcursor env (d := u.drain) ?_).2 rfl).live
    exact ⟨fun hv => absurd hv Bool.false_ne_true, fun hok => absurd hok hwaiting.not_ok⟩
  · have hevent : lastEvent s = .unlink 0 .abandon := by
      unfold lastEvent
      rw [horphan.suspended]
      rfl
    rw [hevent]
    simp only [TagPurge.step, unlinkEvent, horphan.unlinks, List.getElem?_cons_zero, habandon]
    exact (horphan.unlinked env _ _ _).live
  · rw [hover.live] at hlive
    cases hlive

theorem Inv.lifecycle (h : Inv s) : Lifecycle handleWriteEvent conf s := by
  have hbase := h.base
  have hlive := hbase.live_iff
  have hover : Note.opDone ∈ s.log → Over s := fun hdone => by
    apply h.over
    rw [← Bool.not_eq_true, hlive, not_not]
    exact hdone
  have hnodup : (s.freed ++ owned s).Nodup := by
    have hperm := hbase.pools
    rw [List.append_nil] at hperm
    exact hperm.nodup_iff.2 List.nodup_range
  constructor
  · rw [hbase.opDones]
    split <;> omega
  · exact hlive
  · exact fun hl env => h.ends hl env
  · intro hdone u hu
    obtain hnone | ⟨v, hv, hdead⟩ := (hover hdone).unlinks
    · rw [hnone] at hu
      cases hu
    · rw [hv, List.mem_singleton] at hu
      rw [hu]
      exact ⟨hdead.2.2, hdead.1⟩
  · exact hbase.quiet
  · intro hdone hterm
    have hfin := hbase.finalizes
    have hnot := hbase.terminates
    rw [List.count_eq_zero.2 hterm] at hnot
    have hrequest := (hover hdone).request
    cases hreq : s.request with
    | parked => exact absurd hreq hrequest
    | finalized => rw [hfin, if_pos (Or.inl hreq)]
    | terminated => rw [if_pos hreq] at hnot; cases hnot
    | released => rw [hfin, if_pos (Or.inr hreq)]
  · intro hterm
    have hpos := List.count_pos_iff.2 hterm
    rw [hbase.terminates] at hpos
    rw [← List.count_eq_zero, hbase.finalizes, if_neg]
    split at hpos
    · rename_i hreq
      rw [hreq]
      nofun
    · cases hpos
  · intro hdone
    have hattached := hlive.2 hdone
    rw [← List.count_eq_zero, hbase.finalizes, if_neg]
    obtain hrun | ⟨u, hwaits, -⟩ | ⟨u, horphan⟩ | hend := h
    · rw [hrun.parked]; nofun
    · rw [hwaits.parked]; nofun
    · rw [horphan.terminated]; nofun
    · rw [hend.live] at hattached
      cases hattached
  · refine ⟨(List.nodup_append.1 hnodup).1, fun p hp => ?_⟩
    have hmem := hbase.pools.subset (List.mem_append_left _ (List.mem_append_left _ hp))
    exact List.mem_range.1 hmem
  · intro hdone hnone
    have hperm := hbase.pools
    have howned : owned s = [] := by
      unfold owned
      rw [(hover hdone).live, hnone]
      rfl
    rw [howned, List.append_nil, List.append_nil] at hperm
    exact hperm
  · intro hl hsuspended
    obtain hrun | ⟨u, hwaits, -⟩ | ⟨u, horphan⟩ | hend := h
    · rw [hrun.suspended] at hsuspended
      cases hsuspended
    · exact ⟨u, by rw [hwaits.unlinks]; exact List.mem_singleton.2 rfl, hwaits.resume⟩
    · exact ⟨u, by rw [horphan.unlinks]; exact List.mem_singleton.2 rfl, horphan.resume⟩
    · rw [hend.live] at hl
      cases hl

/-- **The life of a walk**, over every run of one that was launched.  Of nginx it is asked that
`ngx_handle_write_event` finds nothing to do on an event that is registered. -/
theorem walk_lifecycle (hregistered : ∀ syscall, handleWriteEvent true syscall = true)
    (room : EnterRoom) (hlaunched : sscanLaunched conf room = true) (run : List (Env × Event)) :
    Lifecycle handleWriteEvent conf
      (Run.after (step handleWriteEvent conf) (State.launched room.pending) run) := by
  have henable : conf.redisEnable = true := (Bool.and_eq_true_iff.1 hlaunched).1
  exact (inv_after hregistered henable room.pending run).lifecycle

/-- A request that is terminated while its page is outstanding. -/
theorem walk_lifecycle_terminated :
    Lifecycle edgeTriggered ⟨samplePrefix, true⟩
      (Run.after (TagPurge.step edgeTriggered ⟨samplePrefix, true⟩) (State.launched 0)
        [(sampleEnv, .write false .whole true .again),
          (sampleEnv, .read (.page [55] [lit ['k']])),
          (sampleEnv, .destroyRequest),
          (sampleEnv, .unlink 0 .abandon)]) :=
  walk_lifecycle (fun _ => rfl) sampleRoom rfl _

end Results

end TagPurge
end L2
end CacheTurbo
