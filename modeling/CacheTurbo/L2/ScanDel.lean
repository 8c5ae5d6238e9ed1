/-
# The purge of everything

`ngx_http_cache_turbo_admin_purge_all` empties the zone first, a bounded number of
nodes for each hold of the mutex, and then walks the key space of the second level
with `SCAN` (`ngx_http_cache_turbo_redis_scan_del` and
`ngx_http_cache_turbo_redis_read_scan`).  The keys of a page go into an `UNLINK` that
nobody waits for: the walk goes on, and ends, whatever becomes of it.

What `fill`, `frame_scan` and `parse_scan` make of the bytes of a page is an input,
as in `TagPurge`.  Beside the state the pages that were read are kept, the newest
first, and each `UNLINK` with what became of it; the code reads neither.
-/

import CacheTurbo.L2.TagPurge
import CacheTurbo.Shm.Store

namespace CacheTurbo
namespace L2
namespace ScanDel

open Bytes
open Shm (Zone Rbtree)
open TagPurge (ScanStatus CmdRoom CmdRc cmdMany scanMaxPages)

/-! ## Emptying the zone -/

/-- What a hold of the mutex leaves of `ngx_http_cache_turbo_shm_purge_all`: it goes on with what
is left of its budget, or it has ended, with `NGX_AGAIN` or not. -/
inductive L1Purge
  | more (remaining : ℕ)
  | ended (incomplete : Bool)
  deriving DecidableEq, Repr

/-- The first hold: the number of nodes is the budget. -/
def purgeAllBegin (z : Zone) : L1Purge :=
  if z.nEntries = 0 then .ended (decide (z.resident ≠ [])) else .more z.nEntries

/-- A further hold: the zone, and how many nodes it dropped. -/
def purgeAllHold (rb : Rbtree) (z : Zone) (remaining : ℕ) : Zone × ℕ × L1Purge :=
  let r := Shm.purgeBatch rb z remaining
  let left := remaining - r.2
  if r.1.resident ≠ [] ∧ (left = 0 ∨ r.2 = 0) then (r.1, r.2, .ended true)
  else if r.2 = 0 ∨ left = 0 then (r.1, r.2, .ended false)
  else (r.1, r.2, .more left)

/-- With no other worker between its holds it is `shm_purge_all`. -/
theorem purgeLoop_hold (rb : Rbtree) (fuel : ℕ) (z : Zone) {remaining : ℕ} (hrem : remaining ≠ 0)
    (purged : ℕ) :
    Shm.purgeLoop rb (fuel + 2) z remaining purged =
      match purgeAllHold rb z remaining with
      | (z', n, .more left) => Shm.purgeLoop rb (fuel + 1) z' left (purged + n)
      | (z', n, .ended incomplete) => (z', purged + n, if incomplete then .again else .ok) := by
  rw [Shm.purgeLoop, if_neg hrem, purgeAllHold]
  dsimp only
  by_cases hrest : (Shm.purgeBatch rb z remaining).1.resident ≠ [] ∧
      (remaining - (Shm.purgeBatch rb z remaining).2 = 0 ∨ (Shm.purgeBatch rb z remaining).2 = 0)
  · rw [if_pos hrest, if_pos hrest]
    rfl
  rw [if_neg hrest, if_neg hrest]
  by_cases hnone : (Shm.purgeBatch rb z remaining).2 = 0
  · rw [if_pos hnone, if_pos (Or.inl hnone)]
    rfl
  rw [if_neg hnone]
  by_cases hleft : remaining - (Shm.purgeBatch rb z remaining).2 = 0
  · rw [if_pos (Or.inr hleft), Shm.purgeLoop, if_pos hleft]
    rfl
  · rw [if_neg (not_or.2 ⟨hnone, hleft⟩)]

/-- **A zone that was purged completely is empty** at the last hold. -/
theorem purgeAllHold_ended {rb : Rbtree} {z z' : Zone} {remaining n : ℕ}
    (h : purgeAllHold rb z remaining = (z', n, .ended false)) : z'.resident = [] := by
  unfold purgeAllHold at h
  dsimp only at h
  by_cases hrest : (Shm.purgeBatch rb z remaining).1.resident ≠ [] ∧
      (remaining - (Shm.purgeBatch rb z remaining).2 = 0 ∨ (Shm.purgeBatch rb z remaining).2 = 0)
  · rw [if_pos hrest] at h
    cases h
  rw [if_neg hrest] at h
  split_ifs at h with hend
  · obtain ⟨rfl, -⟩ := Prod.mk.inj h
    by_contra hne
    exact hrest ⟨hne, hend.symm⟩
  · cases h

theorem purgeAllBegin_ended {z : Zone} (h : purgeAllBegin z = .ended false) : z.resident = [] := by
  unfold purgeAllBegin at h
  split_ifs at h
  simpa using h

theorem purgeAllHold_zone (rb : Rbtree) (z : Zone) (remaining : ℕ) :
    (purgeAllHold rb z remaining).1 = (Shm.purgeBatch rb z remaining).1 := by
  unfold purgeAllHold
  dsimp only
  split_ifs <;> rfl

/-! ## The answer -/

/-- What is said of the second level. -/
inductive L2State
  | unavailable
  | incomplete
  deriving DecidableEq, Repr

/-- Why a walk ended early. -/
inductive Reason
  | error
  | deadline
  | pageCap
  deriving DecidableEq, Repr

/-- The texts of `l2` and of `reason`. -/
def L2State.text : L2State → Bytes
  | .unavailable => lit "unavailable".toList
  | .incomplete => lit "incomplete".toList

def Reason.text : Reason → Bytes
  | .error => lit "error".toList
  | .deadline => lit "deadline".toList
  | .pageCap => lit "page-cap".toList

/-- The body of an answer. -/
structure AllBody where
  purged : ℕ
  l1Incomplete : Bool
  l2 : Option (L2State × Option Reason)
  deriving DecidableEq, Repr

/-- Its text. -/
def AllBody.text (b : AllBody) : Bytes :=
  lit "\x7b\"purged\":".toList ++ decimal b.purged ++
    (if b.l1Incomplete then lit ",\"l1\":\"incomplete\"".toList else []) ++
    (match b.l2 with
      | none => []
      | some (state, none) => lit ",\"l2\":\"".toList ++ state.text ++ lit "\"".toList
      | some (state, some reason) =>
          lit ",\"l2\":\"".toList ++ state.text ++ lit "\",\"reason\":\"".toList ++ reason.text ++
            lit "\"".toList) ++
    lit "\x7d\n".toList

/-- An answer. -/
structure AllAnswer where
  status : ℕ
  body : Option AllBody
  deriving DecidableEq, Repr

/-- `ngx_http_cache_turbo_all_purge_reply`; `text` is whether there is room for the text. -/
def allPurgeReply (purged : ℕ) (l1Incomplete : Bool) (l2 : Option (L2State × Option Reason))
    (text : Bool) : AllAnswer :=
  if text = false then ⟨500, none⟩
  else ⟨if l1Incomplete = true ∨ l2 ≠ none then 500 else 200, some ⟨purged, l1Incomplete, l2⟩⟩

/-! ## The state -/

/-- What became of an `UNLINK`: nothing yet, its replies came and none is an error, or it failed. -/
inductive Fate
  | sent
  | acked
  | failed
  deriving DecidableEq, Repr

/-- An `UNLINK` and the keys it names. -/
structure Unlink where
  keys : List Bytes
  fate : Fate
  deriving DecidableEq, Repr

/-- Where the handler is. -/
inductive Stage
  | emptying (remaining : ℕ)
  | walking
  | ended
  deriving DecidableEq, Repr

/-- The purge; `unsent` is that the command of the walk is not sent yet. -/
structure State where
  stage : Stage
  purged : ℕ
  l1Incomplete : Bool
  unsent : Bool
  scanStatus : ScanStatus
  scanPages : ℕ
  deadlineHit : Bool
  unlinks : List Unlink
  pages : List (Bytes × List Bytes)
  answer : Option AllAnswer
  deriving DecidableEq, Repr

/-- The second level of a location. -/
inductive Backend
  | none
  | redis
  | memcached
  deriving DecidableEq, Repr

/-- `backend->scan_del` is there. -/
def Backend.scanDel : Backend → Bool
  | .redis => true
  | .none | .memcached => false

/-- The location: its second level, and what the commands need to know of it. -/
structure Conf where
  backend : Backend
  redis : TagPurge.Conf

/-- What the outside answers: room for the state of the purge, everything
`ngx_http_cache_turbo_redis_scan_del` needs, and the text of the answer. -/
structure AllRoom where
  ap : Bool
  scan : Bool
  text : Bool
  deriving DecidableEq, Repr

/-- What the outside answers when a page is read: the `UNLINK`, the wall-clock deadline, the pool
of the next page and its buffers, and the text of the answer. -/
structure Env where
  unlink : CmdRoom
  deadline : Bool
  pool : Bool
  buffers : Bool
  text : Bool
  deriving DecidableEq, Repr

/-! ## The handler -/

/-- The handler answers. -/
def State.finish (s : State) (a : AllAnswer) : State := { s with stage := .ended, answer := some a }

/-- The rest of `ngx_http_cache_turbo_admin_purge_all`, and of its caller, after the zone. -/
def purgeAllL2 (conf : Conf) (room : AllRoom) (s : State) : State :=
  if conf.backend.scanDel then
    if room.ap = false then s.finish ⟨500, none⟩
    else if conf.redis.redisEnable = true ∧ room.scan = true then
      { s with stage := .walking, unsent := true }
    else s.finish (allPurgeReply s.purged s.l1Incomplete (some (.unavailable, none)) room.text)
  else s.finish (allPurgeReply s.purged s.l1Incomplete none room.text)

/-- What a hold of the mutex leads to. -/
def afterHold (conf : Conf) (room : AllRoom) (p : L1Purge) (s : State) : State :=
  match p with
  | .more remaining => { s with stage := .emptying remaining }
  | .ended incomplete => purgeAllL2 conf room { s with l1Incomplete := incomplete }

/-- A purge that begins. -/
def State.begun : State :=
  ⟨.ended, 0, false, false, .error, 0, false, [], [], none⟩

/-- The beginning of `ngx_http_cache_turbo_admin_purge_all`. -/
def adminPurgeAll (conf : Conf) (room : AllRoom) (z : Zone) : State :=
  afterHold conf room (purgeAllBegin z) .begun

/-- `ngx_http_cache_turbo_all_purge_complete`. -/
def allPurgeComplete (s : State) (text : Bool) : AllAnswer :=
  if s.scanStatus = .ok then allPurgeReply s.purged s.l1Incomplete none text
  else
    allPurgeReply s.purged s.l1Incomplete
      (some (if s.scanPages = 0 then .unavailable else .incomplete,
        some (if s.scanStatus ≠ .abort then .error
          else if s.deadlineHit then .deadline else .pageCap))) text

/-- `ngx_http_cache_turbo_redis_walk_finish`. -/
def walkFinish (env : Env) (s : State) : State := s.finish (allPurgeComplete s env.text)

/-- What the reader of the walk finds. -/
inductive ScanRead
  | timedout
  | again
  | failed
  | page (cursor : Bytes) (keys : List Bytes)
  deriving DecidableEq, Repr

/-- `ngx_http_cache_turbo_redis_del_many` with the keys of a page. -/
def delMany (conf : Conf) (env : Env) (keys : List Bytes) (s : State) : State × Bool :=
  match cmdMany conf.redis env.unlink false keys with
  | .ok => (s, true)
  | .error => (s, false)
  | .launched _ => ({ s with unlinks := s.unlinks ++ [⟨keys.filter (· ≠ []), .sent⟩] }, true)

/-- `ngx_http_cache_turbo_redis_read_scan` after the `UNLINK` of a page. -/
def scanAdvance (env : Env) (cursor : Bytes) (s : State) : State :=
  if cursor = [48] then walkFinish env { s with scanStatus := .ok }
  else if s.scanPages ≥ scanMaxPages then walkFinish env { s with scanStatus := .abort }
  else if env.deadline then walkFinish env { s with scanStatus := .abort, deadlineHit := true }
  else if env.pool = false then walkFinish env s
  else if env.buffers = false then walkFinish env s
  else { s with unsent := true }

/-- `ngx_http_cache_turbo_redis_read_scan`. -/
def readScan (conf : Conf) (env : Env) (r : ScanRead) (s : State) : State :=
  match r with
  | .timedout => walkFinish env s
  | .again => s
  | .failed => walkFinish env s
  | .page cursor keys =>
      let del := delMany conf env keys { s with pages := (cursor, keys) :: s.pages }
      let s := { del.1 with scanPages := del.1.scanPages + 1 }
      if del.2 = false then walkFinish env s else scanAdvance env cursor s

/-- What can happen to a walk and to its `UNLINK`s. -/
inductive Event
  /-- The connection is not opened, its preamble is refused, or the command cannot be written. -/
  | refused
  /-- The command was sent. -/
  | sent
  /-- The read event; a page answers a command. -/
  | read (r : ScanRead)
  /-- The replies of an `UNLINK` came, or it failed. -/
  | ended (k : ℕ) (fate : Fate)
  /-- The pool of the request is destroyed: the walk is detached and gone. -/
  | destroyRequest
  deriving DecidableEq, Repr

/-- A page is read once the command is sent. -/
def ScanRead.early (r : ScanRead) (unsent : Bool) : Bool :=
  match r with
  | .page _ _ => unsent
  | _ => false

/-- One event.  An event that cannot happen changes nothing. -/
def step (conf : Conf) (s : State) (i : Env × Event) : State :=
  match i.2 with
  | .refused => if s.stage = .walking ∧ s.unsent = true then walkFinish i.1 s else s
  | .sent => if s.stage = .walking then { s with unsent := false } else s
  | .read r =>
      if s.stage = .walking ∧ r.early s.unsent = false then readScan conf i.1 r s else s
  | .ended k fate =>
      match s.unlinks[k]? with
      | none => s
      | some u =>
          if u.fate = .sent then { s with unlinks := s.unlinks.set k { u with fate := fate } } else s
  | .destroyRequest => if s.stage = .walking then { s with stage := .ended } else s


/-! ## What a complete answer rests on -/

/-- Each key of each page is named by an `UNLINK`. -/
def Covered (s : State) : Prop :=
  ∀ page ∈ s.pages, ∀ key ∈ page.2, key ≠ [] → ∃ u ∈ s.unlinks, key ∈ u.keys

/-- The zone was found empty, and the walk came to its end. -/
structure Finished (s : State) : Prop where
  emptied : s.l1Incomplete = false
  last : ∃ keys rest, s.pages = ([48], keys) :: rest
  covered : Covered s

/-- What holds of a purge all along. -/
structure Inv (conf : Conf) (s : State) : Prop where
  emptying : ∀ n, s.stage = .emptying n →
    s.answer = none ∧ s.pages = [] ∧ s.unlinks = [] ∧ s.scanStatus = .error
  walking : s.stage = .walking → s.answer = none ∧ s.scanStatus = .error ∧ Covered s ∧
    conf.backend.scanDel = true ∧ conf.redis.redisEnable = true
  answered : ∀ a, s.answer = some a → a.status = 200 →
    s.l1Incomplete = false ∧ (conf.backend.scanDel = true → Finished s)

theorem allPurgeReply_ok {purged : ℕ} {l1Incomplete : Bool} {l2 : Option (L2State × Option Reason)}
    {text : Bool} (h : (allPurgeReply purged l1Incomplete l2 text).status = 200) :
    text = true ∧ l1Incomplete = false ∧ l2 = none := by
  unfold allPurgeReply at h
  split_ifs at h with htext hbad
  · cases h
  · cases h
  · rw [not_or, not_not] at hbad
    exact ⟨by simpa using htext, by simpa using hbad.1, hbad.2⟩

/-- An answer `200` is given at cursor `"0"` only, and for a zone that was emptied. -/
theorem allPurgeComplete_ok {s : State} {text : Bool}
    (h : (allPurgeComplete s text).status = 200) :
    text = true ∧ s.scanStatus = .ok ∧ s.l1Incomplete = false := by
  unfold allPurgeComplete at h
  by_cases hstatus : s.scanStatus = .ok
  · rw [if_pos hstatus] at h
    obtain ⟨htext, hl1, -⟩ := allPurgeReply_ok h
    exact ⟨htext, hstatus, hl1⟩
  · rw [if_neg hstatus] at h
    obtain ⟨-, -, hl2⟩ := allPurgeReply_ok h
    cases hl2

section Steps

variable {conf : Conf} {s : State}

/-- The end of a purge. -/
theorem Inv.finish {a : AllAnswer} (ha : a.status = 200 → s.l1Incomplete = false ∧
    (conf.backend.scanDel = true → Finished s)) : Inv conf (s.finish a) where
  emptying n hn := by cases hn
  walking hw := by cases hw
  answered b hb hok := by
    obtain rfl := Option.some.inj hb
    obtain ⟨hl1, hfin⟩ := ha hok
    exact ⟨hl1, fun hscan => ⟨(hfin hscan).emptied, (hfin hscan).last, (hfin hscan).covered⟩⟩

/-- What was answered stays. -/
theorem Inv.answered_of (h : Inv conf s) {t : State} (hans : t.answer = s.answer)
    (hl1 : t.l1Incomplete = s.l1Incomplete) (hpages : t.pages = s.pages)
    (hcovered : Covered s → Covered t) (a : AllAnswer) (ha : t.answer = some a)
    (hok : a.status = 200) :
    t.l1Incomplete = false ∧ (conf.backend.scanDel = true → Finished t) := by
  obtain ⟨hempty, hfin⟩ := h.answered a (hans ▸ ha) hok
  refine ⟨hl1.trans hempty, fun hscan => ?_⟩
  obtain ⟨-, hlast, hcov⟩ := hfin hscan
  exact ⟨hl1.trans hempty, hpages ▸ hlast, hcovered hcov⟩

/-- A walk that ends early does not answer `200`. -/
theorem Inv.abandon (hstatus : s.scanStatus ≠ .ok) (env : Env) : Inv conf (walkFinish env s) :=
  Inv.finish fun hok => absurd (allPurgeComplete_ok hok).2.1 hstatus

/-- What a hold of the mutex leads to. -/
theorem Inv.afterHold (h : s.pages = [] ∧ s.unlinks = [] ∧ s.scanStatus = .error ∧ s.answer = none)
    (room : AllRoom) (p : L1Purge) : Inv conf (ScanDel.afterHold conf room p s) := by
  obtain ⟨hpages, hunlinks, hstatus, hans⟩ := h
  cases p with
  | more remaining =>
    exact ⟨fun n _ => ⟨hans, hpages, hunlinks, hstatus⟩, fun hw => (by cases hw),
      fun a ha => absurd (hans.symm.trans ha) (by simp)⟩
  | ended incomplete =>
    simp only [ScanDel.afterHold, purgeAllL2]
    split_ifs with hscan hap hlaunch
    · exact Inv.finish fun hok => by cases hok
    · refine ⟨fun n hn => (by cases hn), fun _ => ⟨hans, hstatus, ?_, hscan, hlaunch.1⟩,
        fun a ha => absurd (hans.symm.trans ha) (by simp)⟩
      intro page hpage
      simp only [hpages] at hpage
      cases hpage
    · refine Inv.finish fun hok => ?_
      obtain ⟨-, -, hl2⟩ := allPurgeReply_ok hok
      cases hl2
    · exact Inv.finish fun hok => ⟨(allPurgeReply_ok hok).2.1, fun h => absurd h hscan⟩

/-- What the `UNLINK` of a page leaves: it names the keys of the page, where there are any. -/
structure Sent (keys : List Bytes) (new : List Unlink) : Prop where
  fate : ∀ u ∈ new, u.fate = .sent
  names : ∀ key ∈ keys, key ≠ [] → ∃ u ∈ new, key ∈ u.keys
  none : (∀ key ∈ keys, key = []) → new = []

theorem delMany_cases (henable : conf.redis.redisEnable = true) (env : Env) (keys : List Bytes)
    (s : State) : delMany conf env keys s = (s, false) ∨
      ∃ new, Sent keys new ∧ delMany conf env keys s = ({ s with unlinks := s.unlinks ++ new }, true) := by
  have hkept : ∀ key ∈ keys, key ≠ [] → key ∈ keys.filter (· ≠ []) := fun key hkey hne =>
    List.mem_filter.2 ⟨hkey, by simpa using hne⟩
  unfold delMany
  cases hcmd : cmdMany conf.redis env.unlink false keys with
  | error => exact Or.inl rfl
  | ok =>
    -- nothing was sent, so there was nothing to name
    refine Or.inr ⟨[], ⟨by simp, fun key hkey hne => ?_, fun _ => rfl⟩, by simp⟩
    have hmem := hkept key hkey hne
    simp only [cmdMany, henable, Bool.true_eq_false, false_or, Bool.false_eq_true, if_false] at hcmd
    split_ifs at hcmd with hnone hop hempty
    · rw [hnone] at hkey
      cases hkey
    · rw [hempty] at hmem
      cases hmem
  | launched expected =>
    refine Or.inr ⟨[⟨keys.filter (· ≠ []), .sent⟩], ⟨by simp, fun key hkey hne =>
      ⟨_, List.mem_cons_self, hkept key hkey hne⟩, fun hall => ?_⟩, rfl⟩
    have hempty : keys.filter (· ≠ []) = [] := by
      rw [List.filter_eq_nil_iff]
      intro key hkey
      simpa using hall key hkey
    simp only [cmdMany, Bool.false_eq_true, if_false, hempty, if_true] at hcmd
    split_ifs at hcmd

/-- **What a page does**: it ends the walk before its time, ends it at cursor `"0"`, or the next
command is sent. -/
inductive PageMove (env : Env) (cursor : Bytes) (keys : List Bytes) (s t : State) : Prop
  | abandoned (s' : State) (h : t = walkFinish env s') (hstatus : s'.scanStatus ≠ .ok)
      (hunlinks : ∀ u ∈ s'.unlinks, u ∈ s.unlinks ∨ u.fate = .sent)
      (hl1 : s'.l1Incomplete = s.l1Incomplete)
  | finished (new : List Unlink) (hnew : Sent keys new) (hcursor : cursor = [48])
      (h : t = walkFinish env
        { s with
          pages := (cursor, keys) :: s.pages
          unlinks := s.unlinks ++ new
          scanPages := s.scanPages + 1
          scanStatus := .ok })
  | next (new : List Unlink) (hnew : Sent keys new)
      (h : t =
        { s with
          pages := (cursor, keys) :: s.pages
          unlinks := s.unlinks ++ new
          scanPages := s.scanPages + 1
          unsent := true })

theorem readScan_page (henable : conf.redis.redisEnable = true) (hstatus : s.scanStatus = .error)
    (env : Env) (cursor : Bytes) (keys : List Bytes) :
    PageMove env cursor keys s (readScan conf env (.page cursor keys) s) := by
  simp only [readScan]
  rcases delMany_cases henable env keys { s with pages := (cursor, keys) :: s.pages } with
    hfailed | ⟨new, hnew, hsent⟩
  · rw [hfailed, if_pos rfl]
    exact .abandoned _ rfl (by simp [hstatus]) (fun u hu => Or.inl hu) rfl
  · have hmem : ∀ u ∈ s.unlinks ++ new, u ∈ s.unlinks ∨ u.fate = .sent := fun u hu =>
      (List.mem_append.1 hu).imp id (hnew.fate u)
    rw [hsent, if_neg (by simp)]
    unfold scanAdvance
    split_ifs with hzero hcap hdeadline hpool hbuffers
    · exact .finished new hnew hzero rfl
    · exact .abandoned _ rfl (by simp) hmem rfl
    · exact .abandoned _ rfl (by simp) hmem rfl
    · exact .abandoned _ rfl (by simp [hstatus]) hmem rfl
    · exact .abandoned _ rfl (by simp [hstatus]) hmem rfl
    · exact .next new hnew rfl

/-- The pages with one more are covered. -/
theorem Covered.page (h : Covered s) {cursor : Bytes} {keys : List Bytes} {new : List Unlink}
    (hnew : Sent keys new) {t : State} (hpages : t.pages = (cursor, keys) :: s.pages)
    (hunlinks : t.unlinks = s.unlinks ++ new) : Covered t := by
  intro page hpage key hkey hne
  rw [hpages] at hpage
  rw [hunlinks]
  rcases List.mem_cons.1 hpage with rfl | hpage
  · obtain ⟨u, hu, hnamed⟩ := hnew.names key hkey hne
    exact ⟨u, List.mem_append_right _ hu, hnamed⟩
  · obtain ⟨u, hu, hnamed⟩ := h page hpage key hkey hne
    exact ⟨u, List.mem_append_left _ hu, hnamed⟩

/-- A page keeps the invariant. -/
theorem Inv.page (h : Inv conf s) (hw : s.stage = .walking) (env : Env) (cursor : Bytes)
    (keys : List Bytes) : Inv conf (readScan conf env (.page cursor keys) s) := by
  obtain ⟨hans, hstatus, hcovered, hscan, henable⟩ := h.walking hw
  cases readScan_page henable hstatus env cursor keys with
  | abandoned s' ht hstatus' =>
    rw [ht]
    exact Inv.abandon hstatus' env
  | finished new hnew hcursor ht =>
    rw [ht]
    refine Inv.finish fun hok => ?_
    have hl1 := (allPurgeComplete_ok hok).2.2
    exact ⟨hl1, fun _ => ⟨hl1, ⟨keys, s.pages, by rw [hcursor]⟩, hcovered.page hnew rfl rfl⟩⟩
  | next new hnew ht =>
    rw [ht]
    exact ⟨fun n hn => absurd (hw.symm.trans hn) (by simp),
      fun _ => ⟨hans, hstatus, hcovered.page hnew rfl rfl, hscan, henable⟩,
      fun a ha => absurd (hans.symm.trans ha) (by simp)⟩

/-- What an `UNLINK` names does not change with its fate. -/
theorem Covered.ended (h : Covered s) {k : ℕ} {u : Unlink} (hu : s.unlinks[k]? = some u)
    (fate : Fate) : Covered { s with unlinks := s.unlinks.set k { u with fate := fate } } := by
  obtain ⟨hk, rfl⟩ := List.getElem?_eq_some_iff.1 hu
  intro page hpage key hkey hne
  obtain ⟨v, hv, hnamed⟩ := h page hpage key hkey hne
  obtain ⟨j, hj, rfl⟩ := List.mem_iff_getElem.1 hv
  by_cases hjk : k = j
  · subst hjk
    exact ⟨_, List.mem_set hk _, hnamed⟩
  · refine ⟨s.unlinks[j], List.mem_iff_getElem.2 ⟨j, by simpa using hj, ?_⟩, hnamed⟩
    exact List.getElem_set_ne hjk _

/-- **Every event keeps the invariant.** -/
theorem Inv.step (h : Inv conf s) (i : Env × Event) : Inv conf (ScanDel.step conf s i) := by
  obtain ⟨env, e⟩ := i
  cases e with
  | refused =>
    simp only [ScanDel.step]
    split_ifs with hcan
    · exact Inv.abandon (by simp [(h.walking hcan.1).2.1]) env
    · exact h
  | sent =>
    simp only [ScanDel.step]
    split_ifs with hw
    · exact ⟨h.emptying, h.walking, h.answered_of rfl rfl rfl id⟩
    · exact h
  | read r =>
    simp only [ScanDel.step]
    split_ifs with hcan
    · have hstatus : s.scanStatus ≠ .ok := by simp [(h.walking hcan.1).2.1]
      cases r with
      | timedout => exact Inv.abandon hstatus env
      | again => exact h
      | failed => exact Inv.abandon hstatus env
      | page cursor keys => exact h.page hcan.1 env cursor keys
    · exact h
  | ended k fate =>
    simp only [ScanDel.step]
    cases hu : s.unlinks[k]? with
    | none => exact h
    | some u =>
      dsimp only
      split_ifs with hsent
      · refine ⟨fun n hn => ?_, fun hw => ?_,
          h.answered_of rfl rfl rfl fun hcov => hcov.ended hu fate⟩
        · obtain ⟨-, -, hnone, -⟩ := h.emptying n hn
          rw [hnone] at hu
          cases hu
        · obtain ⟨hans, hstatus, hcovered, hconf⟩ := h.walking hw
          exact ⟨hans, hstatus, hcovered.ended hu fate, hconf⟩
      · exact h
  | destroyRequest =>
    simp only [ScanDel.step]
    split_ifs
    · exact ⟨fun n hn => (by cases hn), fun hw => (by cases hw), h.answered_of rfl rfl rfl id⟩
    · exact h

/-! ## When a complete answer is true -/

/-- **An answer `200` is true**: the walk came to cursor `"0"`, and each key of each of its pages
is named by an `UNLINK` whose replies came without an error. -/
def State.Honest (s : State) : Prop :=
  ∀ a, s.answer = some a → a.status = 200 →
    (∃ keys rest, s.pages = ([48], keys) :: rest) ∧
      ∀ page ∈ s.pages, ∀ key ∈ page.2, key ≠ [] → ∃ u ∈ s.unlinks, key ∈ u.keys ∧ u.fate = .acked

/-- A page that would end the walk with an answer `200` names no key, and the replies of all that
was sent before it are there. -/
def State.Patient (s : State) (i : Env × Event) : Prop :=
  match i.2 with
  | .read (.page cursor keys) =>
      cursor = [48] → s.l1Incomplete = false → i.1.text = true →
        (∀ key ∈ keys, key = []) ∧ ∀ u ∈ s.unlinks, u.fate = .acked
  | _ => True

instance (s : State) (i : Env × Event) : Decidable (s.Patient i) := by
  obtain ⟨env, e⟩ := i
  cases e with
  | read r =>
    cases r with
    | page cursor keys => exact inferInstanceAs (Decidable (_ → _))
    | timedout | again | failed => exact isTrue trivial
  | refused | sent | ended k fate | destroyRequest => exact isTrue trivial

/-- What an `UNLINK` named and was acknowledged stays so. -/
theorem State.Honest.keep (h : s.Honest) {t : State} (hans : t.answer = s.answer) (hpages : t.pages = s.pages)
    (hacked : ∀ u ∈ s.unlinks, u.fate = .acked → u ∈ t.unlinks) : t.Honest := by
  intro a ha hok
  obtain ⟨hlast, hall⟩ := h a (hans ▸ ha) hok
  refine ⟨hpages ▸ hlast, fun page hpage key hkey hne => ?_⟩
  obtain ⟨u, hu, hnamed, hfate⟩ := hall page (hpages ▸ hpage) key hkey hne
  exact ⟨u, hacked u hu hfate, hnamed, hfate⟩

theorem honest_abandon (hstatus : s.scanStatus ≠ .ok) (env : Env) : (walkFinish env s).Honest := by
  intro a ha hok
  obtain rfl := Option.some.inj ha
  exact absurd (allPurgeComplete_ok hok).2.1 hstatus

/-- A patient page. -/
theorem honest_page (h : Inv conf s) (hw : s.stage = .walking) {env : Env} {cursor : Bytes}
    {keys : List Bytes} (hpatient : s.Patient (env, .read (.page cursor keys))) :
    (readScan conf env (.page cursor keys) s).Honest := by
  obtain ⟨hans, hstatus, hcovered, hscan, henable⟩ := h.walking hw
  cases readScan_page henable hstatus env cursor keys with
  | abandoned s' ht hstatus' =>
    rw [ht]
    exact honest_abandon hstatus' env
  | finished new hnew hcursor ht =>
    rw [ht]
    intro a ha hok
    obtain rfl := Option.some.inj ha
    obtain ⟨htext, -, hl1⟩ := allPurgeComplete_ok hok
    obtain ⟨hnone, hacked⟩ := hpatient hcursor hl1 htext
    have hnil : new = [] := hnew.none hnone
    refine ⟨⟨keys, s.pages, by rw [hcursor]; rfl⟩, fun page hpage key hkey hne => ?_⟩
    obtain ⟨u, hu, hnamed⟩ := hcovered.page (t := walkFinish env _) hnew rfl rfl page hpage key hkey hne
    refine ⟨u, hu, hnamed, hacked u ?_⟩
    have hmem : u ∈ s.unlinks ++ new := hu
    rw [hnil, List.append_nil] at hmem
    exact hmem
  | next new hnew ht =>
    rw [ht]
    exact fun a ha => absurd (hans.symm.trans ha) (by simp)

/-- **A patient event keeps the answers true.** -/
theorem State.Honest.step (h : Inv conf s) (hs : s.Honest) {i : Env × Event} (hpatient : s.Patient i) :
    (ScanDel.step conf s i).Honest := by
  obtain ⟨env, e⟩ := i
  cases e with
  | refused =>
    simp only [ScanDel.step]
    split_ifs with hcan
    · exact honest_abandon (by simp [(h.walking hcan.1).2.1]) env
    · exact hs
  | sent =>
    simp only [ScanDel.step]
    split_ifs
    · exact hs.keep rfl rfl fun u hu _ => hu
    · exact hs
  | read r =>
    simp only [ScanDel.step]
    split_ifs with hcan
    · have hstatus : s.scanStatus ≠ .ok := by simp [(h.walking hcan.1).2.1]
      cases r with
      | timedout => exact honest_abandon hstatus env
      | again => exact hs
      | failed => exact honest_abandon hstatus env
      | page cursor keys => exact honest_page h hcan.1 hpatient
    · exact hs
  | ended k fate =>
    simp only [ScanDel.step]
    cases hu : s.unlinks[k]? with
    | none => exact hs
    | some u =>
      dsimp only
      split_ifs with hsent
      · refine hs.keep rfl rfl fun v hv hfate => ?_
        obtain ⟨hk, rfl⟩ := List.getElem?_eq_some_iff.1 hu
        obtain ⟨j, hj, rfl⟩ := List.mem_iff_getElem.1 hv
        have hjk : k ≠ j := by
          rintro rfl
          rw [hsent] at hfate
          cases hfate
        exact List.mem_iff_getElem.2 ⟨j, by simpa using hj, List.getElem_set_ne hjk _⟩
      · exact hs
  | destroyRequest =>
    simp only [ScanDel.step]
    split_ifs
    · exact hs.keep rfl rfl fun u hu _ => hu
    · exact hs

/-- Who has answered is over. -/
theorem Inv.ended (h : Inv conf s) {a : AllAnswer} (ha : s.answer = some a) : s.stage = .ended := by
  cases hstage : s.stage with
  | ended => rfl
  | emptying n =>
    rw [(h.emptying n hstage).1] at ha
    cases ha
  | walking =>
    rw [(h.walking hstage).1] at ha
    cases ha

/-- A purge with an answer `200`. -/
def State.Succeeded (s : State) : Prop := ∃ a, s.answer = some a ∧ a.status = 200

theorem not_succeeded_abandon (hstatus : s.scanStatus ≠ .ok) (env : Env) :
    ¬ (walkFinish env s).Succeeded := by
  rintro ⟨a, ha, hok⟩
  obtain rfl := Option.some.inj ha
  exact hstatus (allPurgeComplete_ok hok).2.1

/-- **Only a page with cursor `"0"` makes a walk succeed.** -/
theorem succeeded_step (h : Inv conf s) (hbefore : ¬ s.Succeeded) {i : Env × Event}
    (hafter : (ScanDel.step conf s i).Succeeded) :
    s.stage = .walking ∧ ∃ env keys, i = (env, .read (.page [48] keys)) ∧
      (ScanDel.step conf s i).pages = ([48], keys) :: s.pages := by
  obtain ⟨env, e⟩ := i
  cases e with
  | refused =>
    simp only [ScanDel.step] at hafter
    split_ifs at hafter with hcan
    · exact absurd hafter (not_succeeded_abandon (by simp [(h.walking hcan.1).2.1]) env)
    · exact absurd hafter hbefore
  | sent =>
    simp only [ScanDel.step] at hafter
    split_ifs at hafter
    · exact absurd hafter hbefore
    · exact absurd hafter hbefore
  | read r =>
    simp only [ScanDel.step] at hafter ⊢
    split_ifs at hafter ⊢ with hcan
    · obtain ⟨hans, hstatus, -, -, henable⟩ := h.walking hcan.1
      have hbad : s.scanStatus ≠ .ok := by simp [hstatus]
      cases r with
      | timedout => exact absurd hafter (not_succeeded_abandon hbad env)
      | again => exact absurd hafter hbefore
      | failed => exact absurd hafter (not_succeeded_abandon hbad env)
      | page cursor keys =>
        refine ⟨hcan.1, env, keys, ?_⟩
        cases readScan_page henable hstatus env cursor keys with
        | abandoned s' ht hstatus' =>
          rw [ht] at hafter
          exact absurd hafter (not_succeeded_abandon hstatus' env)
        | finished new hnew hcursor ht =>
          rw [ht, hcursor]
          exact ⟨rfl, rfl⟩
        | next new hnew ht =>
          rw [ht] at hafter
          exact absurd hafter hbefore
    · exact absurd hafter hbefore
  | ended k fate =>
    simp only [ScanDel.step] at hafter
    cases hu : s.unlinks[k]? with
    | none =>
      rw [hu] at hafter
      exact absurd hafter hbefore
    | some u =>
      rw [hu] at hafter
      dsimp only at hafter
      split_ifs at hafter
      · exact absurd hafter hbefore
      · exact absurd hafter hbefore
  | destroyRequest =>
    simp only [ScanDel.step] at hafter
    split_ifs at hafter
    · exact absurd hafter hbefore
    · exact absurd hafter hbefore

/-- What an event leaves: the zone's part, where the handler is, and who acknowledged what. -/
structure Frame (s t : State) (e : Event) : Prop where
  l1 : t.l1Incomplete = s.l1Incomplete
  emptying : ∀ n, t.stage = .emptying n → s.stage = .emptying n
  emptied : ∀ n, s.stage = .emptying n → t.stage = .emptying n
  walking : t.stage = .walking → s.stage = .walking
  acked : ∀ u ∈ t.unlinks, u.fate = .acked → u ∈ s.unlinks ∨
    ∃ k v, e = .ended k .acked ∧ s.unlinks[k]? = some v ∧ v.keys = u.keys

theorem Frame.refl (s : State) (e : Event) : Frame s s e :=
  ⟨rfl, fun _ => id, fun _ => id, id, fun _ hu _ => Or.inl hu⟩

/-- A step of a walk. -/
theorem Frame.of_walking {t : State} {e : Event} (hw : s.stage = .walking)
    (hl1 : t.l1Incomplete = s.l1Incomplete) (hstage : ∀ n, t.stage ≠ .emptying n)
    (hacked : ∀ u ∈ t.unlinks, u ∈ s.unlinks ∨ u.fate = .sent) : Frame s t e where
  l1 := hl1
  emptying n hn := absurd hn (hstage n)
  emptied n hn := by
    rw [hw] at hn
    cases hn
  walking _ := hw
  acked u hu hfate := (hacked u hu).imp id fun hsent => by
    rw [hsent] at hfate
    cases hfate

theorem frame_step (h : Inv conf s) (i : Env × Event) : Frame s (ScanDel.step conf s i) i.2 := by
  obtain ⟨env, e⟩ := i
  have hfinish : ∀ {t : State}, s.stage = .walking → t.l1Incomplete = s.l1Incomplete →
      (∀ u ∈ t.unlinks, u ∈ s.unlinks ∨ u.fate = .sent) → Frame s (walkFinish env t) e :=
    fun hw hl1 hacked => .of_walking hw hl1 (fun n => by simp [walkFinish, State.finish]) hacked
  cases e with
  | refused =>
    simp only [ScanDel.step]
    split_ifs with hcan
    · exact hfinish hcan.1 rfl fun u hu => Or.inl hu
    · exact .refl s _
  | sent =>
    simp only [ScanDel.step]
    split_ifs with hw
    · exact .of_walking hw rfl (fun n => by simp [hw]) fun u hu => Or.inl hu
    · exact .refl s _
  | read r =>
    simp only [ScanDel.step]
    split_ifs with hcan
    · cases r with
      | timedout => exact hfinish hcan.1 rfl fun u hu => Or.inl hu
      | again => exact .refl s _
      | failed => exact hfinish hcan.1 rfl fun u hu => Or.inl hu
      | page cursor keys =>
        obtain ⟨-, hstatus, -, -, henable⟩ := h.walking hcan.1
        have hnew : ∀ {new : List Unlink}, Sent keys new →
            ∀ u ∈ s.unlinks ++ new, u ∈ s.unlinks ∨ u.fate = .sent := fun hsent u hu =>
          (List.mem_append.1 hu).imp id (hsent.fate u)
        cases readScan_page henable hstatus env cursor keys with
        | abandoned s' ht hstatus' hunlinks hl1 =>
          rw [ht]
          exact hfinish hcan.1 hl1 hunlinks
        | finished new hsent hcursor ht =>
          rw [ht]
          exact hfinish hcan.1 rfl (hnew hsent)
        | next new hsent ht =>
          rw [ht]
          exact .of_walking hcan.1 rfl (fun n => by simp [hcan.1]) (hnew hsent)
    · exact .refl s _
  | ended k fate =>
    simp only [ScanDel.step]
    cases hu : s.unlinks[k]? with
    | none => exact .refl s _
    | some v =>
      dsimp only
      split_ifs with hsent
      · refine ⟨rfl, fun _ => id, fun _ => id, id, fun u hmem hfate => ?_⟩
        rcases List.mem_or_eq_of_mem_set hmem with hmem | rfl
        · exact Or.inl hmem
        · dsimp only at hfate
          exact Or.inr ⟨k, v, by rw [hfate], hu, rfl⟩
      · exact .refl s _
  | destroyRequest =>
    simp only [ScanDel.step]
    split_ifs with hw
    · exact .of_walking hw rfl (fun n => by simp) fun u hu => Or.inl hu
    · exact .refl s _

end Steps

end ScanDel
end L2
end CacheTurbo
