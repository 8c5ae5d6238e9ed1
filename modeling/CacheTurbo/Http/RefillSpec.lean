/-
# When a purge is not undone

The purge makes the digests it names clear on both levels, in this order, and is in a
position to say so only when the server has answered (`Inv.step`).  `purge_stays` is
the result; the two runs after it are the two ways in which the code misses it.
-/

import CacheTurbo.Http.RefillNode
import CacheTurbo.L2.TagPurgeSpec

namespace CacheTurbo
namespace Http
namespace Refill

open Bytes Blob
open Shm (Zone Rbtree ZoneOp Loans record)
open L2 (L2Prefix redisKey)

/-! ## The purge of a tag -/

/-- The walk of a tag, or the answer of a handler that began none. -/
def TagOk (conf : L2.ScanDel.Conf) (w : L2.TagPurge.State) : Prop :=
  (conf.redis.redisEnable = true ∧ L2.TagPurge.Inv w) ∨
    ∃ a, L2.TagPurge.Answered w a ∧ ¬ a.Unqualified

theorem unqualified_iff (a : L2.TagPurge.Answer) : unqualified a = true ↔ a.Unqualified := by
  obtain ⟨status, body⟩ := a
  cases body <;> simp [unqualified, L2.TagPurge.Answer.Unqualified]

/-- Pages that were acknowledged stay so. -/
theorem acked_cons (note : L2.TagPurge.Note) {past : List L2.TagPurge.Note} {page : List Bytes}
    (h : page ∈ L2.TagPurge.acked past) : page ∈ L2.TagPurge.acked (note :: past) := by
  unfold L2.TagPurge.acked at h ⊢
  rw [List.filterMap_cons]
  split
  · exact h
  · exact List.mem_cons_of_mem _ h

/-- **A purge of a tag that claims that all is purged** names pages that were acknowledged. -/
theorem tagAnswer_acked {log : List L2.TagPurge.Note} (h : L2.TagPurge.Truthful log)
    {keys : List Bytes} (hkeys : tagAnswer log = some keys) :
    ∀ key ∈ keys, ∃ page ∈ L2.TagPurge.acked log, key ∈ page := by
  induction log with
  | nil => cases hkeys
  | cons note past ih =>
    obtain ⟨hj, hpast⟩ := h
    have hrest : tagAnswer past = some keys →
        ∀ key ∈ keys, ∃ page ∈ L2.TagPurge.acked (note :: past), key ∈ page := by
      intro hk key hkey
      obtain ⟨page, hpage, hmem⟩ := ih hpast hk key hkey
      exact ⟨page, acked_cons note hpage, hmem⟩
    cases note with
    | final status a =>
      simp only [tagAnswer] at hkeys
      split_ifs at hkeys with hun
      obtain rfl := Option.some.inj hkeys
      obtain ⟨-, hcomplete⟩ := hj
      obtain ⟨-, hall⟩ := hcomplete ((unqualified_iff a).1 hun)
      intro key hkey
      obtain ⟨page, hpage, hmem⟩ := List.mem_flatten.1 hkey
      exact ⟨page, acked_cons _ (hall ▸ hpage), hmem⟩
    | answered a =>
      simp only [tagAnswer] at hkeys
      split_ifs at hkeys with hun
      obtain rfl := Option.some.inj hkeys
      exact fun key hkey => absurd hkey List.not_mem_nil
    | received cursor members => exact hrest hkeys
    | page members => exact hrest hkeys
    | unlinked members keys expected recv => exact hrest hkeys
    | srem members => exact hrest hkeys
    | opDone => exact hrest hkeys
    | finalize => exact hrest hkeys
    | terminated => exact hrest hkeys

theorem TagOk.truthful {conf : L2.ScanDel.Conf} {w : L2.TagPurge.State} (h : TagOk conf w) :
    L2.TagPurge.Truthful w.log := by
  rcases h with ⟨-, hinv⟩ | ⟨a, ha, hun⟩
  · exact hinv.base.truthful
  · exact ha.truthful_iff.2 hun

theorem TagOk.step {handleWriteEvent : Bool → Bool → Bool} {conf : L2.ScanDel.Conf}
    (hregistered : ∀ syscall, handleWriteEvent true syscall = true) {w : L2.TagPurge.State}
    (h : TagOk conf w) (i : L2.TagPurge.Env × L2.TagPurge.Event) :
    TagOk conf (L2.TagPurge.step handleWriteEvent conf.redis w i) := by
  rcases h with ⟨henable, hinv⟩ | ⟨a, ha, hun⟩
  · exact Or.inl ⟨henable, hinv.step hregistered henable i⟩
  · exact Or.inr ⟨a, ha.step i, hun⟩

theorem tagOk_admin (conf : L2.ScanDel.Conf) (room : L2.TagPurge.EnterRoom) (purgeTag : Bool)
    (arg : Bytes) : TagOk conf (L2.TagPurge.adminPurgeTag conf.redis room purgeTag arg) := by
  rcases L2.TagPurge.enter_cases conf.redis room (.admin purgeTag arg) with
    ⟨hlaunched, henter, -⟩ | ⟨a, henter, ha⟩
  · refine Or.inl ⟨(Bool.and_eq_true_iff.1 hlaunched).1, ?_⟩
    show L2.TagPurge.Inv (L2.TagPurge.enter conf.redis room (.admin purgeTag arg))
    rw [henter]
    exact Or.inl (L2.TagPurge.running_launched room.pending)
  · refine Or.inr ⟨a, ?_, fun hu => absurd (ha.1 hu).1 (by simp)⟩
    show L2.TagPurge.Answered (L2.TagPurge.enter conf.redis room (.admin purgeTag arg)) a
    rw [henter]
    exact L2.TagPurge.answered_answer a

/-- Nothing was sent when a handler has begun. -/
theorem admin_quiet (conf : L2.ScanDel.Conf) (room : L2.TagPurge.EnterRoom) (purgeTag : Bool)
    (arg : Bytes) : (L2.TagPurge.adminPurgeTag conf.redis room purgeTag arg).unlinks = [] ∧
      L2.TagPurge.acked (L2.TagPurge.adminPurgeTag conf.redis room purgeTag arg).log = [] := by
  unfold L2.TagPurge.adminPurgeTag
  dsimp only
  split_ifs <;> exact ⟨rfl, rfl⟩

/-! ### What its handler drops -/

theorem hexdecode_hexDump (b : Bytes) : L2.TagPurge.hexdecode (hexDump b) = some b := by
  have hbyte : ∀ n : Fin 256,
      L2.TagPurge.hexdecode [hexDigit (UInt8.ofNat n.val >>> 4), hexDigit (UInt8.ofNat n.val &&& 15)] =
        some [UInt8.ofNat n.val] := by decide +kernel
  induction b with
  | nil => rfl
  | cons c b ih =>
    have hcons : hexDump (c :: b) = hexDigit (c >>> 4) :: hexDigit (c &&& 15) :: hexDump b := rfl
    have hc := hbyte ⟨c.toNat, c.toNat_lt⟩
    rw [UInt8.ofNat_toNat] at hc
    rw [hcons, L2.TagPurge.hexdecode, ih]
    rw [L2.TagPurge.hexdecode, L2.TagPurge.hexdecode] at hc
    cases hhi : Match.hexval (hexDigit (c >>> 4)) with
    | none =>
      rw [hhi] at hc
      cases hc
    | some hi =>
      cases hlo : Match.hexval (hexDigit (c &&& 15)) with
      | none =>
        rw [hhi, hlo] at hc
        cases hc
      | some lo =>
        rw [hhi, hlo] at hc
        have hval : ((hi <<< 4) ||| lo) = c := by simpa using hc
        simp only [hval]

/-- A page whose keys could be made drops every digest it names. -/
theorem mem_pageDrops {pre : L2Prefix} {members : List Bytes} {lockbufs : ℕ} {keys : List Bytes}
    (hkeys : L2.TagPurge.pageKeys pre members lockbufs = some keys) {keyHash : KeyHash}
    (hmem : redisKey pre keyHash ∈ members) :
    keyHash.toList ∈ pageDrops pre members lockbufs := by
  have hlen : (redisKey pre keyHash).length = pre.bytes.length + 64 := by
    rw [redisKey, List.length_append, hexDump_length, Vector.length_toList]
  have hdrop : (redisKey pre keyHash).drop pre.bytes.length = hexDump keyHash.toList := by
    rw [redisKey, List.drop_left]
  induction members generalizing lockbufs keys with
  | nil => cases hmem
  | cons m members ih =>
    unfold L2.TagPurge.pageKeys at hkeys
    unfold pageDrops
    by_cases hempty : m = []
    · rw [if_pos hempty] at hkeys ⊢
      rcases List.mem_cons.1 hmem with rfl | hmem
      · rw [hempty] at hlen
        simp at hlen
      · exact ih hkeys hmem
    rw [if_neg hempty] at hkeys ⊢
    unfold L2.TagPurge.lockOf at hkeys
    by_cases hshape : m.length = pre.bytes.length + 64
    · rw [if_pos hshape] at hkeys ⊢
      cases hhex : L2.TagPurge.hexdecode (m.drop pre.bytes.length) with
      | none =>
        rw [hhex, Option.map_none] at hkeys
        obtain ⟨ks, hks, -⟩ := Option.map_eq_some_iff.1 hkeys
        rcases List.mem_cons.1 hmem with rfl | hmem
        · rw [hdrop, hexdecode_hexDump] at hhex
          cases hhex
        · exact ih hks hmem
      | some kh =>
        rw [hhex, Option.map_some] at hkeys
        cases lockbufs with
        | zero => cases hkeys
        | succ lockbufs =>
          obtain ⟨ks, hks, -⟩ := Option.map_eq_some_iff.1 hkeys
          rcases List.mem_cons.1 hmem with rfl | hmem
          · rw [hdrop, hexdecode_hexDump] at hhex
            rw [← Option.some.inj hhex]
            exact List.mem_cons_self
          · exact List.mem_cons_of_mem _ (ih hks hmem)
    · rw [if_neg hshape] at hkeys ⊢
      obtain ⟨ks, hks, -⟩ := Option.map_eq_some_iff.1 hkeys
      rcases List.mem_cons.1 hmem with rfl | hmem
      · exact absurd hlen hshape
      · exact ih hks hmem

/-! ## The invariant -/

section System

variable {conf : L2.ScanDel.Conf} {s : System}

/-- A purge of everything, and what the server has done for it. -/
structure AllOk (conf : L2.ScanDel.Conf) (s : System) (p : L2.ScanDel.State) : Prop where
  inv : L2.ScanDel.Inv conf p
  honest : conf.backend ≠ .none → p.Honest
  backend : conf.backend ≠ .memcached
  whole : p.stage = .walking → ∀ e ∈ s.node.l2, s.doomed e.obj.id = true → e.whole = true
  acked : ∀ u ∈ p.unlinks, u.fate = .acked → ∀ key ∈ u.keys, key ∈ s.deleted
  done : p.Succeeded → ∀ e ∈ s.node.l2, s.doomed e.obj.id = false
  emptying : ∀ n, p.stage = .emptying n → s.told = none ∧ s.deleted = []

/-- A purge of a tag: what its `UNLINK`s name was dropped, and was deleted where they were
acknowledged. -/
structure TagInv (conf : L2.ScanDel.Conf) (s : System) (w : L2.TagPurge.State)
    (dropped : List KeyHash) : Prop where
  ok : TagOk conf w
  named : ∀ u ∈ w.unlinks, (∀ m ∈ u.members, m ≠ [] → m ∈ u.keys) ∧
    ∀ keyHash, redisKey conf.redis.prefixBytes keyHash ∈ u.members → keyHash ∈ dropped
  acked : ∀ page ∈ L2.TagPurge.acked w.log, (∀ m ∈ page, m ≠ [] → m ∈ s.deleted) ∧
    ∀ keyHash, redisKey conf.redis.prefixBytes keyHash ∈ page → keyHash ∈ dropped

/-- **What holds along every orderly run.** -/
structure Inv (conf : L2.ScanDel.Conf) (s : System) : Prop where
  node : NodeOk s.doomed s.node
  clear : ∀ keyHash, s.purge.dropped keyHash = true → s.node.Clear s.doomed keyHash
  gone : ∀ key ∈ s.deleted, s.node.Gone conf.redis.prefixBytes s.doomed key
  late : s.node.LateClean s.doomed (s.Purges conf)
  bare : conf.backend = .none → s.node.l2 = [] ∧ s.node.sets = []
  purges : ∀ keyHash, s.Purges conf keyHash → s.purge.dropped keyHash = true ∧
    s.node.Gone conf.redis.prefixBytes s.doomed (redisKey conf.redis.prefixBytes keyHash)
  idle : s.purge = .idle → s.told = none ∧ s.deleted = []
  all : ∀ p, s.purge = .all p → AllOk conf s p
  tag : ∀ w dropping dropped, s.purge = .tag w dropping dropped → TagInv conf s w dropped
  early : s.told = none → ∀ q, (s.node.ctx q).late = false

/-- What is to be removed and is in the second level was there. -/
def Shrinks (D : ℕ → Bool) (n n' : Node) : Prop :=
  ∀ x ∈ n'.l2, D x.obj.id = true →
    ∃ y ∈ n.l2, y.keyHash = x.keyHash ∧ y.obj = x.obj ∧ (y.whole = true → x.whole = true)

theorem Shrinks.of_mem {D : ℕ → Bool} {n n' : Node}
    (h : ∀ x ∈ n'.l2, D x.obj.id = true → x ∈ n.l2) : Shrinks D n n' :=
  fun x hx hdoomed => ⟨x, h x hx hdoomed, rfl, rfl, id⟩

theorem Shrinks.gone {D : ℕ → Bool} {n n' : Node} (h : Shrinks D n n') {pre : L2Prefix} {key : Bytes}
    (hgone : n.Gone pre D key) : n'.Gone pre D key := by
  intro x hx hkey
  by_contra hdoomed
  rw [Bool.not_eq_false] at hdoomed
  obtain ⟨y, hy, hsame, hobj, -⟩ := h x hx hdoomed
  have hno := hgone y hy (hsame ▸ hkey)
  rw [hobj, hdoomed] at hno
  cases hno

theorem Shrinks.all {D : ℕ → Bool} {n n' : Node} (h : Shrinks D n n')
    (hnone : ∀ e ∈ n.l2, D e.obj.id = false) : ∀ e ∈ n'.l2, D e.obj.id = false := by
  intro x hx
  by_contra hdoomed
  rw [Bool.not_eq_false] at hdoomed
  obtain ⟨y, hy, -, hobj, -⟩ := h x hx hdoomed
  have hno := hnone y hy
  rw [hobj, hdoomed] at hno
  cases hno

theorem AllOk.setNode {p : L2.ScanDel.State} (h : AllOk conf s p) {n : Node} {deleted : List Bytes}
    (hshrinks : Shrinks s.doomed s.node n) (hdeleted : ∀ key ∈ s.deleted, key ∈ deleted)
    (hnone : ∀ n, p.stage = .emptying n → deleted = []) :
    AllOk conf { s with node := n, deleted := deleted } p where
  inv := h.inv
  honest := h.honest
  backend := h.backend
  whole hw x hx hdoomed := by
    obtain ⟨y, hy, -, hobj, hwhole⟩ := hshrinks x hx hdoomed
    exact hwhole (h.whole hw y hy (hobj ▸ hdoomed))
  acked u hu hfate key hkey := hdeleted key (h.acked u hu hfate key hkey)
  done hs := hshrinks.all (h.done hs)
  emptying n hn := ⟨(h.emptying n hn).1, hnone n hn⟩

theorem TagInv.setDeleted {w : L2.TagPurge.State} {dropped : List KeyHash}
    (h : TagInv conf s w dropped) {n : Node} {deleted : List Bytes}
    (hdeleted : ∀ key ∈ s.deleted, key ∈ deleted) :
    TagInv conf { s with node := n, deleted := deleted } w dropped where
  ok := h.ok
  named := h.named
  acked page hpage := ⟨fun m hm hne => hdeleted m ((h.acked page hpage).1 m hm hne),
    (h.acked page hpage).2⟩

/-- The node moves, and the server deletes keys. -/
theorem Inv.setNode (h : Inv conf s) {n : Node} {deleted : List Bytes}
    (hok : NodeOk s.doomed n) (hclear : ∀ keyHash, s.purge.dropped keyHash = true →
      n.Clear s.doomed keyHash) (hshrinks : Shrinks s.doomed s.node n)
    (hlate : n.LateClean s.doomed (s.Purges conf))
    (hbare : conf.backend = .none → n.l2 = [] ∧ n.sets = [])
    (hidle : s.purge = .idle → deleted = [])
    (hempty : ∀ p n, s.purge = .all p → p.stage = .emptying n → deleted = [])
    (hold : ∀ key ∈ s.deleted, key ∈ deleted)
    (hnew : ∀ key ∈ deleted, key ∈ s.deleted ∨ n.Gone conf.redis.prefixBytes s.doomed key)
    (hearly : s.told = none → ∀ q, (n.ctx q).late = false) :
    Inv conf { s with node := n, deleted := deleted } where
  node := hok
  clear := hclear
  gone key hkey := by
    rcases hnew key hkey with hkey | hgone
    · exact hshrinks.gone (h.gone key hkey)
    · exact hgone
  late := hlate
  bare := hbare
  purges keyHash hk := ⟨(h.purges keyHash hk).1, hshrinks.gone (h.purges keyHash hk).2⟩
  idle hi := ⟨(h.idle hi).1, hidle hi⟩
  all p hp := (h.all p hp).setNode hshrinks hold fun n hn => hempty p n hp hn
  tag w dropping dropped hw := (h.tag w dropping dropped hw).setDeleted hold
  early := hearly

variable (rb : Rbtree) {handleWriteEvent : Bool → Bool → Bool}

/-- A step of the node. -/
theorem Inv.nodeStep (h : Inv conf s) {e : NodeEvent}
    (hbar : Bars s.doomed s.purge.dropped s.node e) :
    Inv conf { s with node := s.node.step rb conf s.told.isSome e } := by
  have hshrinks : Shrinks s.doomed s.node (s.node.step rb conf s.told.isSome e) :=
    .of_mem (l2_step rb conf _ h.node e)
  have hpurged : ∀ keyHash, s.Purges conf keyHash → s.purge.dropped keyHash = true ∧
      s.node.Clear s.doomed keyHash ∧
      s.node.Gone conf.redis.prefixBytes s.doomed (redisKey conf.redis.prefixBytes keyHash) := by
    intro keyHash hk
    obtain ⟨hdropped, hgone⟩ := h.purges keyHash hk
    exact ⟨hdropped, h.clear keyHash hdropped, hgone⟩
  exact h.setNode (h.node.step rb conf _ e)
    (fun keyHash hk => clear_step rb conf _ h.node hbar hk (h.clear keyHash hk)) hshrinks
    (late_step rb conf _ h.node hbar hpurged h.late)
    (fun hconf => l2_none rb conf _ hconf (h.bare hconf) e) (fun hi => (h.idle hi).2)
    (fun p n hp hn => ((h.all p hp).emptying n hn).2) (fun key hkey => hkey) (fun key hkey => Or.inl hkey)
    (fun htold q => late_flag rb conf _ (h.early htold) (by simp [htold]) e q)

/-- The server deletes a key for the purge. -/
theorem Inv.unlinkRun (h : Inv conf s) {key : Bytes} (hnames : s.purge.names key = true) :
    Inv conf { s with
      node := { s.node with
        l2 := s.node.l2.filter fun e => redisKey conf.redis.prefixBytes e.keyHash ≠ key }
      deleted := key :: s.deleted } := by
  refine h.setNode ⟨h.node.loans, h.node.sets, h.node.later⟩ h.clear
    (.of_mem fun x hx _ => (List.mem_filter.1 hx).1) h.late (fun hconf => ?_) (fun hi => ?_)
    (fun p n hp hn => ?_) (fun k hk => List.mem_cons_of_mem _ hk) (fun k hk => ?_)
    h.early
  · obtain ⟨hl2, hsets⟩ := h.bare hconf
    exact ⟨by simp only [hl2, List.filter_nil], hsets⟩
  · rw [hi] at hnames
    cases hnames
  · simp only [hp, Purging.names, ((h.all p hp).inv.emptying n hn).2.2.1, List.any_nil] at hnames
    cases hnames
  · rcases List.mem_cons.1 hk with rfl | hk
    · refine Or.inr fun x hx hkey => ?_
      have hne := (List.mem_filter.1 hx).2
      simp [hkey] at hne
    · exact Or.inl hk

/-! ### The purge of everything -/

/-- An empty zone has nothing that was to be removed. -/
theorem clear_of_empty {D : ℕ → Bool} {n : Node} (h : n.loans.Ok) (hempty : n.loans.zone.resident = [])
    (keyHash : KeyHash) : n.Clear D keyHash := by
  intro r hr
  obtain ⟨c, b, hview, -, -⟩ := Shm.record_some hr
  unfold Shm.view at hview
  obtain ⟨a, ha, -⟩ := Option.map_eq_some_iff.1 hview
  have hres := (h.wf.queues.lookup_resident ha).1
  rw [hempty] at hres
  cases hres

/-- The purge is done with the zone when a hold found it empty. -/
theorem dropped_afterHold {room : L2.ScanDel.AllRoom} {hold : L2.ScanDel.L1Purge}
    {p : L2.ScanDel.State} {keyHash : KeyHash}
    (h : (Purging.all (L2.ScanDel.afterHold conf room hold p)).dropped keyHash = true) :
    hold = .ended false := by
  cases hold with
  | more remaining => cases h
  | ended incomplete =>
    cases incomplete with
    | false => rfl
    | true =>
      simp only [L2.ScanDel.afterHold, L2.ScanDel.purgeAllL2] at h
      split_ifs at h <;> cases h

/-- Where the second level can be walked, no hold succeeds. -/
theorem not_succeeded_afterHold {room : L2.ScanDel.AllRoom} {hold : L2.ScanDel.L1Purge}
    {p : L2.ScanDel.State} (hans : p.answer = none) (hscan : conf.backend.scanDel = true) :
    ¬ (L2.ScanDel.afterHold conf room hold p).Succeeded := by
  rintro ⟨a, ha, hok⟩
  cases hold with
  | more remaining =>
    simp only [L2.ScanDel.afterHold, hans] at ha
    cases ha
  | ended incomplete =>
    simp only [L2.ScanDel.afterHold, L2.ScanDel.purgeAllL2, if_pos hscan] at ha
    split_ifs at ha
    · obtain rfl := Option.some.inj ha
      cases hok
    · simp only [hans] at ha
      cases ha
    · obtain rfl := Option.some.inj ha
      obtain ⟨-, -, hl2⟩ := L2.ScanDel.allPurgeReply_ok hok
      cases hl2

/-- **A hold of the mutex.**  It leaves the zone `n`, which is empty where it says so. -/
theorem Inv.afterHold {room : L2.ScanDel.AllRoom} {hold : L2.ScanDel.L1Purge} {p : L2.ScanDel.State}
    (hnode : NodeOk s.doomed s.node) (htold : s.told = none)
    (hearly : ∀ q, (s.node.ctx q).late = false)
    (hbare : conf.backend = .none → s.node.l2 = [] ∧ s.node.sets = [])
    (hbackend : conf.backend ≠ .memcached)
    (hp : p.pages = [] ∧ p.unlinks = [] ∧ p.scanStatus = .error ∧ p.answer = none)
    (hdeleted : s.deleted = [])
    (hempty : hold = .ended false → s.node.loans.zone.resident = []) :
    Inv conf (s.setAll (L2.ScanDel.afterHold conf room hold p)) := by
  have hpurges : ∀ keyHash, ¬ (s.setAll (L2.ScanDel.afterHold conf room hold p)).Purges conf keyHash := by
    intro keyHash hk
    simp only [System.Purges, System.setAll, htold] at hk
  have hscan : conf.backend ≠ .none → conf.backend.scanDel = true := by
    intro hne
    cases hb : conf.backend with
    | none => exact absurd hb hne
    | redis => rfl
    | memcached => exact absurd hb hbackend
  have hunlinks : (L2.ScanDel.afterHold conf room hold p).unlinks = [] := by
    cases hold with
    | more remaining => exact hp.2.1
    | ended incomplete =>
      simp only [L2.ScanDel.afterHold, L2.ScanDel.purgeAllL2]
      split_ifs <;> exact hp.2.1
  refine ⟨⟨hnode.loans, hnode.sets, hnode.later⟩, fun keyHash hk => ?_, fun key hkey => ?_,
    fun q _ c _ _ hk => hpurges _ hk, fun hconf => ?_, fun keyHash hk => absurd hk (hpurges keyHash),
    fun hi => (by cases hi), fun p' hp' => ?_, fun w dropping dropped hw => (by cases hw),
    fun _ => hearly⟩
  · exact clear_of_empty hnode.loans (hempty (dropped_afterHold hk)) keyHash
  · simp only [System.setAll, hdeleted] at hkey
    cases hkey
  · obtain ⟨hl2, hsets⟩ := hbare hconf
    refine ⟨?_, hsets⟩
    simp only [System.setAll, hl2, List.map_nil, ite_self]
  · obtain rfl := Purging.all.inj hp'
    refine ⟨L2.ScanDel.Inv.afterHold hp room hold, fun hne a ha hok => ?_, hbackend, fun hw e he _ => ?_,
      fun u hu => ?_, fun hs => ?_, fun n _ => ⟨htold, hdeleted⟩⟩
    · exact absurd ⟨a, ha, hok⟩ (not_succeeded_afterHold hp.2.2.2 (hscan hne))
    · simp only [System.setAll, if_pos hw] at he
      obtain ⟨x, -, rfl⟩ := List.mem_map.1 he
      rfl
    · rw [hunlinks] at hu
      cases hu
    · -- without a walk there is no second level
      have hnone : conf.backend = .none := by
        by_contra hne
        exact not_succeeded_afterHold hp.2.2.2 (hscan hne) hs
      intro e he
      simp only [System.setAll, (hbare hnone).1, List.map_nil, ite_self] at he
      cases he

/-- **A step of the walk.** -/
theorem Inv.allStep (h : Inv conf s) {p : L2.ScanDel.State} (hp : s.purge = .all p)
    {i : L2.ScanDel.Env × L2.ScanDel.Event} (hserver : ServerOk conf s (.all i))
    (horderly : Orderly conf s (.all i)) :
    Inv conf { s with purge := .all (L2.ScanDel.step conf p i) } := by
  have hall := h.all p hp
  have hframe := L2.ScanDel.frame_step hall.inv i
  have hpatient : p.Patient i := by
    simpa only [Orderly, hp] using horderly
  have hdropped : ∀ keyHash, (Purging.all (L2.ScanDel.step conf p i)).dropped keyHash =
      s.purge.dropped keyHash := by
    intro keyHash
    rw [hp]
    simp only [Purging.dropped, hframe.l1]
    cases hs : p.stage with
    | emptying n => rw [hframe.emptied n hs]
    | walking =>
      cases hs' : (L2.ScanDel.step conf p i).stage with
      | emptying n => exact absurd (hframe.emptying n hs') (by simp [hs])
      | walking => rfl
      | ended => rfl
    | ended =>
      cases hs' : (L2.ScanDel.step conf p i).stage with
      | emptying n => exact absurd (hframe.emptying n hs') (by simp [hs])
      | walking => rfl
      | ended => rfl
  have hpurges : ∀ keyHash, System.Purges conf
      { s with purge := .all (L2.ScanDel.step conf p i) } keyHash → s.Purges conf keyHash := by
    intro keyHash hk
    simp only [System.Purges, hp] at hk ⊢
    cases htold : s.told with
    | none =>
      rw [htold] at hk
      exact hk
    | some keys => trivial
  have hhonest : conf.backend ≠ .none → (L2.ScanDel.step conf p i).Honest := fun hne =>
    (hall.honest hne).step hall.inv hpatient
  have hacked : ∀ u ∈ (L2.ScanDel.step conf p i).unlinks, u.fate = .acked →
      ∀ key ∈ u.keys, key ∈ s.deleted := by
    intro u hu hfate key hkey
    rcases hframe.acked u hu hfate with hold | ⟨k, v, he, hv, hkeys⟩
    · exact hall.acked u hold hfate key hkey
    · obtain ⟨env, e⟩ := i
      dsimp only at he
      subst he
      simp only [ServerOk, hp] at hserver
      exact hserver v hv key (hkeys ▸ hkey)
  refine ⟨h.node, fun keyHash hk => h.clear keyHash (hdropped keyHash ▸ hk), h.gone,
    fun q hq c hc hdoomed hk => h.late q hq c hc hdoomed (hpurges _ hk), h.bare,
    fun keyHash hk => ?_, fun hi => (by cases hi), fun p' hp' => ?_,
    fun w dropping dropped hw => (by cases hw), h.early⟩
  · obtain ⟨hd, hgone⟩ := h.purges keyHash (hpurges keyHash hk)
    exact ⟨(hdropped keyHash).trans hd, hgone⟩
  · obtain rfl := Purging.all.inj hp'
    refine ⟨hall.inv.step i, hhonest, hall.backend, fun hw => hall.whole (hframe.walking hw), hacked,
      fun hs => ?_, fun n hn => hall.emptying n (hframe.emptying n hn)⟩
    by_cases hbefore : p.Succeeded
    · exact hall.done hbefore
    · -- the last page: what was there all along was named, and what was named was deleted
      obtain ⟨hw, env, keys, rfl, hpages⟩ := L2.ScanDel.succeeded_step hall.inv hbefore hs
      have hne : conf.backend ≠ .none := by
        intro hnone
        have hscan := (hall.inv.walking hw).2.2.2.1
        rw [hnone] at hscan
        cases hscan
      intro e he
      by_contra hdoomed
      rw [Bool.not_eq_false] at hdoomed
      have hwhole := hall.whole hw e he hdoomed
      simp only [ServerOk, hp] at hserver
      obtain ⟨page, hpage, hkey⟩ := hserver hw trivial e he hwhole
      obtain ⟨a, ha, hok⟩ := hs
      obtain ⟨-, hnamed⟩ := hhonest hne a ha hok
      have hnonempty : redisKey conf.redis.prefixBytes e.keyHash ≠ [] := by
        intro hnil
        exact conf.redis.prefixBytes.nonempty (List.append_eq_nil_iff.1 hnil).1
      obtain ⟨u, hu, hukey, hfate⟩ := hnamed page (hpages ▸ hpage) _ hkey hnonempty
      have hgone := h.gone _ (hacked u hu hfate _ hukey) e he rfl
      exact Bool.false_ne_true (hgone.symm.trans hdoomed)

/-! ### The purge of a tag -/

theorem purges_tag {w : L2.TagPurge.State} {dropping dropped : List KeyHash}
    (hp : s.purge = .tag w dropping dropped) {keyHash : KeyHash} :
    s.Purges conf keyHash ↔ ∃ keys, s.told = some keys ∧
      redisKey conf.redis.prefixBytes keyHash ∈ keys := by
  simp only [System.Purges, hp]
  cases s.told with
  | none => simp
  | some keys => simp

/-- The handler of a page drops a digest. -/
theorem Inv.tagDrop (h : Inv conf s) {w : L2.TagPurge.State} {dropping dropped : List KeyHash}
    (hp : s.purge = .tag w dropping dropped) (keyHash : KeyHash) :
    Inv conf { s with
      node := { s.node with loans := s.node.loans.step rb (.op 0 (.purgeKey keyHash)) }
      purge := .tag w (dropping ++ [keyHash]) dropped } := by
  set t : System := { s with
      node := { s.node with loans := s.node.loans.step rb (.op 0 (.purgeKey keyHash)) }
      purge := .tag w (dropping ++ [keyHash]) dropped } with ht
  have hpurges : ∀ k, t.Purges conf k → s.Purges conf k := by
    intro k hk
    rw [purges_tag rfl] at hk
    exact (purges_tag hp).2 hk
  have hdropped : ∀ k, s.purge.dropped k = true → t.purge.dropped k = true := by
    intro k hk
    simp only [hp, Purging.dropped, Bool.or_eq_true, List.contains_iff_mem] at hk
    simp only [ht, Purging.dropped, Bool.or_eq_true, List.contains_iff_mem, List.mem_append]
    exact hk.imp Or.inl id
  have hkept : ∀ k, s.node.Clear s.doomed k → t.node.Clear t.doomed k := fun k hk =>
    clear_purgeOp rb h.node 0 (.purgeKey keyHash) rfl hk
  have hnone : record t.node.loans.zone keyHash = none := by
    show record (Shm.purgeKey rb s.node.loans.zone keyHash).1 keyHash = none
    rw [record, (h.node.loans.wf.purgeKey rb keyHash).2.2]
    rfl
  refine ⟨⟨h.node.loans.step rb (.op 0 (.purgeKey keyHash)), h.node.sets, h.node.later⟩,
    fun k hk => ?_, h.gone,
    fun q hq c hc hdoomed hk => h.late q hq c hc hdoomed (hpurges _ hk), h.bare,
    fun k hk => ⟨hdropped k (h.purges k (hpurges k hk)).1, (h.purges k (hpurges k hk)).2⟩,
    fun hi => (by cases hi), fun p' hp' => (by cases hp'), fun w' dropping' dropped' hw => ?_,
    h.early⟩
  · by_cases hsame : k = keyHash
    · intro r hr
      rw [hsame, hnone] at hr
      cases hr
    · refine hkept k (h.clear k ?_)
      simp only [ht, Purging.dropped, Bool.or_eq_true, List.contains_iff_mem, List.mem_append,
        List.mem_singleton] at hk
      simp only [hp, Purging.dropped, Bool.or_eq_true, List.contains_iff_mem]
      exact hk.imp (fun hk => hk.resolve_right hsame) id
  · obtain ⟨rfl, -, rfl⟩ := Purging.tag.inj hw
    obtain ⟨hok, hnamed, hacked⟩ := h.tag w dropping dropped hp
    exact ⟨hok, hnamed, hacked⟩

/-- **A step of the walk of a tag.** -/
theorem Inv.tagStep (hregistered : ∀ syscall, handleWriteEvent true syscall = true)
    (h : Inv conf s) {w : L2.TagPurge.State} {dropping dropped : List KeyHash}
    (hp : s.purge = .tag w dropping dropped) {i : L2.TagPurge.Env × L2.TagPurge.Event}
    (hdrops : eventDrops conf.redis.prefixBytes i.1 i.2 = dropping.map fun k => k.toList)
    (hserver : ServerOk conf s (.tag i)) :
    Inv conf { s with
      purge := .tag (L2.TagPurge.step handleWriteEvent conf.redis w i) [] (dropping ++ dropped) } := by
  set t : System := { s with
      purge := .tag (L2.TagPurge.step handleWriteEvent conf.redis w i) []
        (dropping ++ dropped) } with ht
  obtain ⟨hok, hnamed, hacked⟩ := h.tag w dropping dropped hp
  have hpurges : ∀ k, t.Purges conf k → s.Purges conf k := by
    intro k hk
    rw [purges_tag rfl] at hk
    exact (purges_tag hp).2 hk
  have hsame : ∀ k, t.purge.dropped k = s.purge.dropped k := by
    intro k
    rw [Bool.eq_iff_iff]
    simp only [ht, hp, Purging.dropped, Bool.or_eq_true, List.contains_iff_mem, List.mem_append,
      List.not_mem_nil, false_or]
  have hmore : ∀ k, k ∈ dropped → k ∈ dropping ++ dropped := fun k hk => List.mem_append_right _ hk
  have hkeep : ∀ u : L2.TagPurge.Unlink, (∃ v ∈ w.unlinks, v.members = u.members ∧ v.keys = u.keys) →
      (∀ m ∈ u.members, m ≠ [] → m ∈ u.keys) ∧
        ∀ k, redisKey conf.redis.prefixBytes k ∈ u.members → k ∈ dropping ++ dropped := by
    rintro u ⟨v, hv, hmembers, hkeys⟩
    obtain ⟨hall, hdrop⟩ := hnamed v hv
    rw [hmembers] at hall hdrop
    rw [hkeys] at hall
    exact ⟨hall, fun k hk => hmore k (hdrop k hk)⟩
  have hpages : ∀ page ∈ L2.TagPurge.acked w.log, (∀ m ∈ page, m ≠ [] → m ∈ s.deleted) ∧
      ∀ k, redisKey conf.redis.prefixBytes k ∈ page → k ∈ dropping ++ dropped := fun page hpage =>
    ⟨(hacked page hpage).1, fun k hk => hmore k ((hacked page hpage).2 k hk)⟩
  refine ⟨h.node, fun k hk => h.clear k (hsame k ▸ hk), h.gone,
    fun q hq c hc hdoomed hk => h.late q hq c hc hdoomed (hpurges _ hk), h.bare,
    fun k hk => ⟨(hsame k).trans (h.purges k (hpurges k hk)).1, (h.purges k (hpurges k hk)).2⟩,
    fun hi => (by cases hi), fun p' hp' => (by cases hp'), fun w' dropping' dropped' hw => ?_,
    h.early⟩
  obtain ⟨rfl, -, rfl⟩ := Purging.tag.inj hw
  obtain ⟨env, e⟩ := i
  rcases L2.TagPurge.unlinks_step handleWriteEvent conf.redis w env e with
    hcalm | ⟨members, hpage, hsends⟩ | ⟨k, u, ev, d, clean, rfl, hu, hd, hunlinks, hlog⟩
  · exact ⟨hok.step hregistered _, fun u hu => hkeep u (hcalm.unlinks u hu), hcalm.acks ▸ hpages⟩
  · refine ⟨hok.step hregistered _, fun u hu => ?_, hsends.acks ▸ hpages⟩
    rcases hsends.unlinks u hu with hold | ⟨htmp, hdel, hmembers, hkeys⟩
    · exact hkeep u hold
    · -- what the page names was dropped just before
      rw [hmembers]
      refine ⟨L2.TagPurge.pageKeys_mem hkeys, fun k hk => List.mem_append_left _ ?_⟩
      have hmem := mem_pageDrops hkeys hk
      simp only [eventDrops, hpage, htmp, hdel, and_self, if_true] at hdrops
      rw [hdrops] at hmem
      obtain ⟨k', hk', heq⟩ := List.mem_map.1 hmem
      rw [← Vector.toList_inj.1 heq]
      exact hk'
  · refine ⟨hok.step hregistered _, fun v hv => hkeep v (hunlinks v hv), ?_⟩
    rcases hlog with hlog | ⟨hreplies, hlog⟩
    · exact hlog ▸ hpages
    · rw [hlog]
      intro page hpage
      rcases List.mem_cons.1 hpage with rfl | hpage
      · obtain ⟨hall, hdrop⟩ := hnamed u (List.mem_of_getElem? hu)
        simp only [ServerOk, hp] at hserver
        have hdeleted := hserver u hu
        rw [hd] at hdeleted
        exact ⟨fun m hm hne => hdeleted hreplies m (hall m hm hne), fun k hk => hmore k (hdrop k hk)⟩
      · exact hpages page hpage

/-! ### All steps -/

/-- A purge begins: what was stored on both levels is to be removed. -/
theorem Inv.starts (h : Inv conf s) (p : Purging) :
    NodeOk (s.starts p).doomed (s.starts p).node := by
  refine ⟨h.node.loans, fun q hq => ?_, fun id hid => ?_⟩
  · have hmem : q.2.id ∈ s.node.sets.map fun p => p.2.id := List.mem_map.2 ⟨q, hq, rfl⟩
    simp only [System.starts, System.doomed, Bool.and_eq_false_iff, Bool.not_eq_false',
      List.contains_iff_mem]
    exact Or.inr hmem
  · simp only [System.starts, System.doomed, Bool.and_eq_false_iff, decide_eq_false_iff_not]
    exact Or.inl (by simpa [System.starts] using hid)

/-- **An orderly step keeps the invariant**, before what it answers is announced. -/
theorem Inv.move (hregistered : ∀ syscall, handleWriteEvent true syscall = true)
    (h : Inv conf s) {e : SystemEvent} (hserver : ServerOk conf s e)
    (horderly : Orderly conf s e) : Inv conf (s.move rb handleWriteEvent conf e) := by
  cases e with
  | node e =>
    refine h.nodeStep rb ?_
    cases e <;> first | exact trivial | exact horderly
  | allBegin room =>
    simp only [System.move]
    cases hp : s.purge with
    | all p => exact h
    | tag w dropping dropped => exact h
    | idle =>
      obtain ⟨htold, hdeleted⟩ := h.idle hp
      exact Inv.afterHold (h.starts .idle) htold (h.early htold) h.bare horderly ⟨rfl, rfl, rfl, rfl⟩ hdeleted
        L2.ScanDel.purgeAllBegin_ended
  | allHold room =>
    simp only [System.move]
    cases hp : s.purge with
    | idle => exact h
    | tag w dropping dropped => exact h
    | all p =>
      dsimp only
      cases hstage : p.stage with
      | walking => exact h
      | ended => exact h
      | emptying remaining =>
        obtain ⟨hans, hpages, hunlinks, hstatus⟩ := (h.all p hp).inv.emptying remaining hstage
        obtain ⟨htold, hdeleted⟩ := (h.all p hp).emptying remaining hstage
        refine Inv.afterHold (s := { s with node := { s.node with
            loans := s.node.loans.step rb (.op 0 (.purgeBatch remaining)) } })
          ⟨h.node.loans.step rb (.op 0 (.purgeBatch remaining)), h.node.sets, h.node.later⟩ htold
          (h.early htold) h.bare (h.all p hp).backend ⟨hpages, hunlinks, hstatus, hans⟩ hdeleted fun hended => ?_
        have hhold : L2.ScanDel.purgeAllHold rb s.node.loans.zone remaining =
            ((Shm.purgeBatch rb s.node.loans.zone remaining).1,
              (L2.ScanDel.purgeAllHold rb s.node.loans.zone remaining).2.1, .ended false) := by
          rw [← L2.ScanDel.purgeAllHold_zone, ← hended]
        exact L2.ScanDel.purgeAllHold_ended hhold
  | all i =>
    simp only [System.move]
    cases hp : s.purge with
    | idle => exact h
    | tag w dropping dropped => exact h
    | all p => exact h.allStep hp hserver horderly
  | tagBegin room arg =>
    simp only [System.move]
    cases hp : s.purge with
    | all p => exact h
    | tag w dropping dropped => exact h
    | idle =>
      obtain ⟨htold, hdeleted⟩ := h.idle hp
      set w := L2.TagPurge.adminPurgeTag conf.redis room (decide (conf.backend = .redis)) arg with hw
      have hpurges : ∀ k, ¬ (s.starts (.tag w [] [])).Purges conf k := by
        intro k hk
        rw [purges_tag rfl] at hk
        obtain ⟨keys, hkeys, -⟩ := hk
        exact absurd (htold.symm.trans hkeys) (by simp)
      obtain ⟨hnone, hacked⟩ := admin_quiet conf room (decide (conf.backend = .redis)) arg
      refine ⟨h.starts _, fun k hk => (by cases hk), fun key hkey => ?_,
        fun q _ c _ _ hk => hpurges _ hk, h.bare, fun k hk => absurd hk (hpurges k),
        fun hi => (by cases hi), fun p' hp' => (by cases hp'), fun w' dropping' dropped' hw' => ?_,
        h.early⟩
      · simp only [System.starts, hdeleted] at hkey
        cases hkey
      · obtain ⟨rfl, -, -⟩ := Purging.tag.inj hw'
        refine ⟨tagOk_admin conf room _ arg, fun u hu => ?_, fun page hpage => ?_⟩
        · rw [hw, hnone] at hu
          cases hu
        · rw [hw, hacked] at hpage
          cases hpage
  | tagDrop keyHash =>
    simp only [System.move]
    cases hp : s.purge with
    | idle => exact h
    | all p => exact h
    | tag w dropping dropped => exact h.tagDrop rb hp keyHash
  | tag i =>
    simp only [System.move]
    cases hp : s.purge with
    | idle => exact h
    | all p => exact h
    | tag w dropping dropped =>
      dsimp only
      split_ifs with hdrops
      · exact h.tagStep hregistered hp hdrops hserver
      · exact h
  | unlinkRun key =>
    simp only [System.move]
    split_ifs with hnames
    · exact h.unlinkRun hnames
    · exact h

/-- **What a purge answers is true when it is announced.** -/
theorem Inv.answered (h : Inv conf s) {keys : List Bytes} (hkeys : s.purge.answered = some keys)
    {keyHash : KeyHash} (hk : ({ s with told := some keys } : System).Purges conf keyHash) :
    s.purge.dropped keyHash = true ∧
      s.node.Gone conf.redis.prefixBytes s.doomed (redisKey conf.redis.prefixBytes keyHash) := by
  cases hp : s.purge with
  | idle =>
    rw [hp] at hkeys
    cases hkeys
  | all p =>
    rw [hp] at hkeys
    obtain ⟨a, ha, hok⟩ := Option.bind_eq_some_iff.1 hkeys
    split_ifs at hok with hstatus
    have hall := h.all p hp
    obtain ⟨hl1, -⟩ := hall.inv.answered a ha hstatus
    refine ⟨?_, fun e he _ => hall.done ⟨a, ha, hstatus⟩ e he⟩
    simp only [Purging.dropped, hall.inv.ended ha, hl1, Bool.not_false]
  | tag w dropping dropped =>
    rw [hp] at hkeys
    obtain ⟨keys', hkeys', hmem⟩ := (purges_tag (s := { s with told := some keys }) hp).1 hk
    obtain rfl := Option.some.inj hkeys'
    obtain ⟨hok, -, hacked⟩ := h.tag w dropping dropped hp
    obtain ⟨page, hpage, hkey⟩ := tagAnswer_acked hok.truthful hkeys _ hmem
    obtain ⟨hdeleted, hdropped⟩ := hacked page hpage
    have hnonempty : redisKey conf.redis.prefixBytes keyHash ≠ [] := by
      intro hnil
      exact conf.redis.prefixBytes.nonempty (List.append_eq_nil_iff.1 hnil).1
    refine ⟨?_, h.gone _ (hdeleted _ hkey hnonempty)⟩
    simp only [Purging.dropped, Bool.or_eq_true, List.contains_iff_mem]
    exact Or.inr (hdropped keyHash hkey)

theorem Inv.announce (h : Inv conf s) : Inv conf { s with told := s.told.or s.purge.answered } := by
  cases htold : s.told with
  | some keys =>
    have hsame : ({ s with told := (some keys).or s.purge.answered } : System) = s := by
      rw [Option.some_or, ← htold]
    rw [hsame]
    exact h
  | none =>
    rw [Option.none_or]
    cases hkeys : s.purge.answered with
    | none =>
      have hsame : ({ s with told := none } : System) = s := by rw [← htold]
      rw [hsame]
      exact h
    | some keys =>
      -- nobody is late yet
      refine ⟨h.node, h.clear, h.gone, fun q hq => ?_, h.bare, fun k hk => h.answered hkeys hk,
        fun hi => ?_, fun p hp => ?_, fun w dropping dropped hw => ?_, fun hn => (by cases hn)⟩
      · rw [h.early htold q] at hq
        cases hq
      · have hnone : s.purge.answered = none := by
          rw [show s.purge = .idle from hi]
          rfl
        rw [hnone] at hkeys
        cases hkeys
      · obtain ⟨hinv, hhonest, hbackend, hwhole, hacked, hdone, hempty⟩ := h.all p hp
        refine ⟨hinv, hhonest, hbackend, hwhole, hacked, hdone, fun n hn => ?_⟩
        have hnone : s.purge.answered = none := by
          rw [show s.purge = .all p from hp, Purging.answered, (hinv.emptying n hn).1]
          rfl
        rw [hnone] at hkeys
        cases hkeys
      · obtain ⟨hok, hnamed, hacked⟩ := h.tag w dropping dropped hw
        exact ⟨hok, hnamed, hacked⟩

/-- **An orderly step keeps the invariant.** -/
theorem Inv.step (hregistered : ∀ syscall, handleWriteEvent true syscall = true)
    (h : Inv conf s) {e : SystemEvent} (hserver : ServerOk conf s e)
    (horderly : Orderly conf s e) : Inv conf (s.step rb handleWriteEvent conf e) :=
  (h.move rb hregistered hserver horderly).announce

end System

/-- **A purge is not undone.**  In every run of a node and its second level in which no response
that the purge is to remove is promoted under a digest that the purge has already dropped, and a
purge of everything comes to cursor `"0"` at a page without keys and with every `UNLINK`
acknowledged, and does not meet a second level that has no walk: no request that began after the
purge had answered that all is purged has such a response, and the answer `200` of a purge of
everything is true. -/
theorem purge_stays (rb : Rbtree) {handleWriteEvent : Bool → Bool → Bool}
    (hregistered : ∀ syscall, handleWriteEvent true syscall = true) (conf : L2.ScanDel.Conf)
    (mem : Shm.Addr → Shm.Node) (blob : Shm.BlobId → Shm.Blob) (answers : ℕ → Option Shm.Addr)
    (sketch : Shm.Sketch) (admission : Bool) (breakerState : ℕ) (run : List SystemEvent)
    (hserver : Run.Along (System.step rb handleWriteEvent conf) (ServerOk conf)
      (.begin (Shm.freshZone mem blob answers sketch admission breakerState)) run)
    (horderly : Run.Along (System.step rb handleWriteEvent conf) (Orderly conf)
      (.begin (Shm.freshZone mem blob answers sketch admission breakerState)) run) :
    let s := Run.after (System.step rb handleWriteEvent conf)
      (.begin (Shm.freshZone mem blob answers sketch admission breakerState)) run
    s.Removed conf ∧ s.Honest conf := by
  have hbegin : Inv conf
      (.begin (Shm.freshZone mem blob answers sketch admission breakerState)) :=
    { node := ⟨⟨Shm.Wf.freshZone mem blob answers sketch admission breakerState,
        fun job hjob => absurd hjob List.not_mem_nil⟩, fun p hp => absurd hp List.not_mem_nil,
        fun id _ => rfl⟩
      clear := fun keyHash hk => absurd hk Bool.false_ne_true
      gone := fun key hkey => absurd hkey List.not_mem_nil
      late := fun q hq => absurd hq Bool.false_ne_true
      bare := fun _ => ⟨rfl, rfl⟩
      purges := fun keyHash hk => False.elim hk
      idle := fun _ => ⟨rfl, rfl⟩
      all := fun p hp => by cases hp
      tag := fun w dropping dropped hw => by cases hw
      early := fun _ q => rfl }
  have hinv := Run.after_of_along (P := Inv conf)
    (C := fun s e => ServerOk conf s e ∧ Orderly conf s e)
    (fun s e h hC => h.step rb hregistered hC.1 hC.2) hbegin (Run.along_and hserver horderly)
  intro s
  refine ⟨hinv.late, ?_⟩
  unfold System.Honest
  cases hp : s.purge with
  | idle => trivial
  | tag w dropping dropped => trivial
  | all p => exact (hinv.all p hp).honest

/-! ### Two purges that are undone -/

theorem bytes_lawfulBEq : LawfulBEq Bytes := inferInstance

local instance (key : Bytes) (keys : List Bytes) : Decidable (key ∈ keys) :=
  @List.instDecidableMemOfLawfulBEq _ _ bytes_lawfulBEq key keys

local instance decidableDrained (state : L2.DrainState) (keys deleted : List Bytes) : Decidable
    (match state with
      | .live _ => True
      | .done d _ => L2.RepliesOk d.expected d.recv → ∀ key ∈ keys, key ∈ deleted) :=
  match state with
  | .live _ => isTrue trivial
  | .done d _ =>
      inferInstanceAs (Decidable (L2.RepliesOk d.expected d.recv → ∀ key ∈ keys, key ∈ deleted))

instance (conf : L2.ScanDel.Conf) (s : System) (e : SystemEvent) : Decidable (ServerOk conf s e) :=
  match e with
  | .all (_, .read (.page cursor keys)) =>
      match s with
      | ⟨node, .all p, _, _, _⟩ => inferInstanceAs (Decidable (p.stage = .walking → cursor = [48] →
          ∀ e ∈ node.l2, e.whole = true →
            ∃ page ∈ (cursor, keys) :: p.pages, redisKey conf.redis.prefixBytes e.keyHash ∈ page.2))
      | ⟨_, .idle, _, _, _⟩ | ⟨_, .tag _ _ _, _, _, _⟩ => isTrue trivial
  | .all (_, .ended k .acked) =>
      match s with
      | ⟨_, .all p, _, deleted, _⟩ =>
          inferInstanceAs (Decidable (∀ u ∈ p.unlinks[k]?, ∀ key ∈ u.keys, key ∈ deleted))
      | ⟨_, .idle, _, _, _⟩ | ⟨_, .tag _ _ _, _, _, _⟩ => isTrue trivial
  | .tag (_, .unlink k e) =>
      match s with
      | ⟨_, .tag w _ _, _, deleted, _⟩ =>
          inferInstanceAs (Decidable (∀ u ∈ w.unlinks[k]?,
            match L2.drainEvent u.drain e with
            | .live _ => True
            | .done d _ => L2.RepliesOk d.expected d.recv → ∀ key ∈ u.keys, key ∈ deleted))
      | ⟨_, .idle, _, _, _⟩ | ⟨_, .all _, _, _, _⟩ => isTrue trivial
  | .all (_, .read .timedout) | .all (_, .read .again) | .all (_, .read .failed)
  | .all (_, .ended _ .sent) | .all (_, .ended _ .failed)
  | .all (_, .refused) | .all (_, .sent) | .all (_, .destroyRequest)
  | .tag (_, .refused) | .tag (_, .write _ _ _ _) | .tag (_, .read _) | .tag (_, .destroyRequest)
  | .node _ | .allBegin _ | .allHold _ | .tagBegin _ _ | .tagDrop _ | .unlinkRun _ => isTrue trivial

instance (s : System) (e : SystemEvent) (conf : L2.ScanDel.Conf) : Decidable (Orderly conf s e) :=
  match e with
  | .node (.accessL2 q now keyHash _ l2FreshOk l2StaleOk _ _) =>
      inferInstanceAs (Decidable (∀ c ∈ (s.node.ctx q).l2Blob, s.doomed c.id = true →
        s.purge.dropped keyHash = true →
          promotes (Http.accessL2 now l2FreshOk l2StaleOk c.bytes) = false))
  | .all i =>
      match s with
      | ⟨_, .all p, _, _, _⟩ => inferInstanceAs (Decidable (p.Patient i))
      | ⟨_, .idle, _, _, _⟩ | ⟨_, .tag _ _ _, _, _, _⟩ => isTrue trivial
  | .allBegin _ => inferInstanceAs (Decidable (conf.backend ≠ .memcached))
  | .node (.begin _) | .node (.zone _ _ _) | .node (.setRun _) | .node (.setLost _)
  | .node (.peerSet _ _) | .node (.expire _) | .node (.ask _ _) | .node (.getRun _)
  | .node (.reply _ _) | .allHold _ | .tagBegin _ _ | .tagDrop _ | .tag _ | .unlinkRun _ =>
      isTrue trivial

/-- A page that is fresh for a minute. -/
def pageBlob : Bytes :=
  blobHdrWrite ⟨0, 200, 0, 0, 1, 0, 60, 60, 0⟩ (List.replicate 29 48) ++ lit ['!']

example : (blobValidate 5 pageBlob).isSome := by decide +kernel

/-- Its digest, and its key in the second level. -/
def pageKey : KeyHash := Vector.replicate 32 0

def pageRedisKey : Bytes := redisKey L2.TagPurge.samplePrefix pageKey

/-- A location with Redis. -/
def redisConf : L2.ScanDel.Conf := ⟨.redis, ⟨L2.TagPurge.samplePrefix, true⟩⟩

/-- Everything the outside is asked for is there. -/
def allRoom : L2.ScanDel.AllRoom := ⟨true, true, true⟩

def scanEnv : L2.ScanDel.Env := ⟨⟨true, true⟩, false, true, true, true⟩

/-- The page is stored on both levels, and then evicted from the zone. -/
def storedRun : List SystemEvent :=
  [.node (.zone 0 (.op 0 (.store pageKey 0 pageBlob 60 240 false)) (some (pageKey, pageBlob))),
    .node (.setRun 0),
    .node (.zone 0 (.op 1 (.purgeKey pageKey)) none)]

/-- A walk whose first page names the page and whose second names nothing. -/
def patientWalk : List SystemEvent :=
  [.allBegin allRoom,
    .all (scanEnv, .sent),
    .all (scanEnv, .read (.page [53] [pageRedisKey])),
    .unlinkRun pageRedisKey,
    .all (scanEnv, .ended 0 .acked),
    .all (scanEnv, .sent),
    .all (scanEnv, .read (.page [48] []))]

/-- A late request looks for the page, in the zone and in the second level. -/
def lateLookup : List SystemEvent :=
  [.node (.begin 2),
    .node (.zone 2 (.op 6 (.accessL1 pageKey 0
      ⟨0, 1000, true, true, false, false, none, false, false, 5, true, false, false⟩)) none),
    .node (.ask 2 pageKey),
    .node (.getRun 2)]

/-- A request asks for the page before the purge, and promotes what it got after it. -/
def refillRun : List SystemEvent :=
  storedRun ++ [.node (.begin 1), .node (.ask 1 pageKey), .node (.getRun 1)] ++ patientWalk ++
    [.node (.reply 1 true), .node (.accessL2 1 5 pageKey 0 true true false true)] ++ lateLookup

/-- The only page of a walk names the page, and its `UNLINK` is lost. -/
def lostRun : List SystemEvent :=
  storedRun ++
    [.allBegin allRoom,
      .all (scanEnv, .sent),
      .all (scanEnv, .read (.page [48] [pageRedisKey])),
      .all (scanEnv, .ended 0 .failed)] ++ lateLookup

/-- The step of a system with Redis, from an empty zone. -/
def sampleStep : System → SystemEvent → System :=
  System.step Shm.Rbtree.unbalanced L2.TagPurge.edgeTriggered redisConf

def sampleBegin : System := .begin roomyZone

theorem purge_stays_patient :
    let s := Run.after sampleStep sampleBegin (storedRun ++ patientWalk ++ lateLookup)
    s.Removed redisConf ∧ s.Honest redisConf :=
  purge_stays Shm.Rbtree.unbalanced (fun _ => rfl) redisConf roomyZone.mem roomyZone.blob
    roomyZone.slab.answers roomyZone.sketch roomyZone.admission roomyZone.breakerState _ (by decide +kernel) (by decide +kernel)

instance (conf : L2.ScanDel.Conf) (s : System) (keyHash : KeyHash) :
    Decidable (s.Purges conf keyHash) :=
  match s with
  | ⟨_, .all _, _, _, some _⟩ => isTrue trivial
  | ⟨_, .tag _ _ _, _, _, some keys⟩ =>
      inferInstanceAs (Decidable (redisKey conf.redis.prefixBytes keyHash ∈ keys))
  | ⟨_, .idle, _, _, _⟩ | ⟨_, .all _, _, _, none⟩ | ⟨_, .tag _ _ _, _, _, none⟩ =>
      isFalse not_false

/-- A late request has what was to be removed. -/
def servesOld (s : System) (q : ℕ) : Bool :=
  (s.node.ctx q).late && (s.node.ctx q).copies.any fun c =>
    s.doomed c.id && decide (s.Purges redisConf c.key)

theorem not_removed {s : System} {q : ℕ} (h : servesOld s q = true) : ¬ s.Removed redisConf := by
  intro hremoved
  obtain ⟨hlate, hany⟩ := Bool.and_eq_true_iff.1 h
  obtain ⟨c, hc, hdoomed⟩ := List.any_eq_true.1 hany
  obtain ⟨hid, hpurged⟩ := Bool.and_eq_true_iff.1 hdoomed
  exact hremoved q hlate c hc hid (of_decide_eq_true hpurged)

/-- An answer `200` with a key on a page and nothing acknowledged. -/
def claimsTooMuch (s : System) : Bool :=
  match s.purge with
  | .all p => (p.answer.any fun a => a.status == 200) &&
      ((p.pages.any fun page => page.2.any fun key => key ≠ []) &&
        p.unlinks.all fun u => u.fate ≠ .acked)
  | .idle | .tag _ _ _ => false

theorem not_honest {s : System} (h : claimsTooMuch s = true) : ¬ s.Honest redisConf := by
  unfold claimsTooMuch at h
  unfold System.Honest
  cases hp : s.purge with
  | idle =>
    rw [hp] at h
    cases h
  | tag w dropping dropped =>
    rw [hp] at h
    cases h
  | all p =>
    rw [hp] at h
    obtain ⟨hans, hrest⟩ := Bool.and_eq_true_iff.1 h
    obtain ⟨hpages, hunlinks⟩ := Bool.and_eq_true_iff.1 hrest
    obtain ⟨a, ha, hok⟩ := (Option.any_eq_true ..).1 hans
    obtain ⟨page, hpage, hkeys⟩ := List.any_eq_true.1 hpages
    obtain ⟨key, hkey, hne⟩ := List.any_eq_true.1 hkeys
    intro hhonest
    obtain ⟨-, hnamed⟩ := hhonest (by simp [redisConf]) a ha (by simpa using hok)
    obtain ⟨u, hu, -, hfate⟩ := hnamed page hpage key hkey (by simpa using hne)
    have hno := List.all_eq_true.1 hunlinks u hu
    simp [hfate] at hno

/-- **Both ways to undo a purge.**  A reply that was on its way is promoted after the purge has
answered; and a walk answers `200` although its `UNLINK` was lost.  In both runs the server keeps
to what it says, the purge answers that all is purged, and a request that begins afterwards has
the page that was stored before. -/
theorem purge_stays_fails :
    (Run.Along sampleStep (ServerOk redisConf) sampleBegin refillRun ∧
      ¬ (Run.after sampleStep sampleBegin refillRun).Removed redisConf) ∧
    Run.Along sampleStep (ServerOk redisConf) sampleBegin lostRun ∧
      ¬ (Run.after sampleStep sampleBegin lostRun).Removed redisConf ∧
      ¬ (Run.after sampleStep sampleBegin lostRun).Honest redisConf :=
  ⟨⟨by decide +kernel, not_removed (q := 2) (by decide +kernel)⟩, by decide +kernel,
    not_removed (q := 2) (by decide +kernel), not_honest (by decide +kernel)⟩

end Refill
end Http
end CacheTurbo
