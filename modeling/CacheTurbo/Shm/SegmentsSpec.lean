/-
# The discipline of the two queues

`Watched` runs a zone and keeps beside it, for each digest, the times of the touches that
counted since its node was last inserted or stored.  The touch interval of the code decides
which count: one for a node and a second.  Over every run of operations, each with the
`protected_pct` of its own location:

* a node in the protected segment is an entry that was touched twice or more, and at
  different times as long as the clock does not run backwards;
* no operation leaves more protected nodes than there were and than its own cap allows;
* `lru_enforce_cap` moves only what is over the cap, a bounded number at a time, from the
  cold end of `lru_protected` to the head of `lru`, and keeps the order of all nodes;
* without a percentage the zone is a plain LRU: `lru_protected` stays empty, and each victim
  is the one that a single list gives.
-/

import CacheTurbo.Shm.SegmentMoves

namespace CacheTurbo
namespace Shm

open SegLru (Act Fits)
open SegLru.State (History Earned Timely Recent Thinner)

variable {held pending : List BlobId} {z z' : Zone} {acts : List (Act Addr)} {k : KeyHash}

/-! ## The queues of a zone -/

/-- Tree, queues and labels agree. -/
theorem Wf.lanes_ok (h : Wf held pending [] [] [] z) : (lanes z).Ok where
  nodup := h.queues.resident_nodup
  cold a ha := decide_eq_false (by
    rw [h.queues.lru_seg a ha]
    exact nofun)
  hot a ha := by
    have hseg := h.queues.protected_seg a ha
    have hok := h.queues.shape a (List.mem_append_right _ ha)
    refine ⟨decide_eq_true hseg, decide_eq_true ?_⟩
    unfold NodeOk at hok
    rw [hseg] at hok
    cases hkind : (z.mem a).kind with
    | entry => rfl
    | counter =>
      rw [if_pos hkind] at hok
      cases hok.2.2
    | marker =>
      rw [if_neg (by rw [hkind]; exact nofun)] at hok
      cases hok.2 hkind

theorem Wf.length_linked (h : Wf held pending [] [] [] z) :
    (lanes z).linked.length = z.nEntries := by
  rw [h.queues.nEntries, List.append_nil]
  rfl

theorem Wf.length_guarded (h : Wf held pending [] [] [] z) :
    (lanes z).guarded.length = z.nProtected := h.queues.nProtected.symm

/-! ## The touches of a digest -/

/-- The times of the touches of each digest that counted, the last one first. -/
abbrev Touches := KeyHash → List Time

/-- A touch of `k` counts: one LRU write for a node and a second. -/
def counts (z : Zone) (now : Time) (k : KeyHash) : Bool :=
  (lookup z k).any fun a => !decide (now - (z.mem a).lastAccess < 1)

/-- The touches after an operation on `z`: a digest that has no node before it, or is stored
by it, begins anew. -/
def noted (z : Zone) (touches : Touches) (now : Time) (note : Note) : Touches := fun k =>
  if (lookup z k).isNone || decide (note = .stored k) then []
  else if decide (note = .touched k) && counts z now k then now :: touches k
  else touches k

variable {touches : Touches} {now : Time} {note : Note}

theorem noted_new (hnew : lookup z k = none) : noted z touches now note k = [] := by
  unfold noted
  rw [hnew]
  rfl

theorem noted_stored : noted z touches now (.stored k) k = [] := by
  unfold noted
  rw [decide_eq_true rfl, Bool.or_true]
  rfl

/-- An operation that notes nothing of a digest whose node is there. -/
theorem noted_other {a : Addr} (hfound : lookup z k = some a) (hstored : note ≠ .stored k)
    (htouched : note ≠ .touched k) : noted z touches now note k = touches k := by
  unfold noted
  rw [hfound, decide_eq_false hstored, decide_eq_false htouched]
  rfl

theorem noted_touched {a : Addr} (hfound : lookup z k = some a) :
    noted z touches now (.touched k) k =
      if now - (z.mem a).lastAccess < 1 then touches k else now :: touches k := by
  unfold noted counts
  rw [hfound, decide_eq_true rfl]
  by_cases hgate : now - (z.mem a).lastAccess < 1
  · rw [if_pos hgate]
    simp [hgate]
  · rw [if_neg hgate]
    simp [hgate]

/-- The histories of the nodes of a zone. -/
def histories (z : Zone) (touches : Touches) : History Addr := fun a => touches (z.mem a).key

/-- An operation that ends in an act on the node of its digest: what nodes that leave before
it make of the queues, and the act. -/
structure Follows (z : Zone) (touches : Touches) (now : Time) (op : ZoneOp) (z' : Zone)
    (touches' : Touches) (s : SegLru.State Addr) (act : Act Addr) : Prop where
  thinner : Thinner (lanes z) s
  fits : Fits s act
  queues : lanes z' = laneStep s act
  history : ∀ b ∈ z'.resident, histories z' touches' b = s.note (histories z touches) act b
  time : act.time = none ∨ act.time = some now
  stamp : ∀ a t, act = .stamp a t → s = lanes z
  cap : s.cap act = 0 ∨ s = lanes z ∧ ∃ a, act = .touch a now op.protectedPct

/-- The digest of a node is that of no other one. -/
theorem Wf.key_inj (h : Wf held pending [] [] [] z) {a b : Addr} (hl : lookup z k = some a)
    (hb : b ∈ z.resident) (hba : b ≠ a) : (z.mem b).key ≠ k := fun hk => by
  have hlb : lookup z k = some b := (h.queues.lookup_iff k b).2 ⟨Or.inl hb, hk⟩
  rw [hl] at hlb
  exact hba (Option.some.inj hlb).symm

theorem Wf.lookup_self (h : Wf held pending [] [] [] z) {b : Addr} (hb : b ∈ z.resident) :
    lookup z (z.mem b).key = some b := (h.queues.lookup_iff _ b).2 ⟨Or.inl hb, rfl⟩

variable (rb : Rbtree)

/-- **Every operation**, with the touches of its digests. -/
theorem Wf.exec_follows (h : Wf held pending [] [] [] z) (touches : Touches) (now : Time)
    (op : ZoneOp) :
    let r := Shm.exec rb z now op
    let touches' := noted z touches now (op.note r.2)
    (Thinner (lanes z) (lanes r.1) ∧
        ∀ b ∈ r.1.resident, histories r.1 touches' b = histories z touches b) ∨
      ∃ s act, Follows z touches now op r.1 touches' s act := by
  obtain ⟨acts, hmoves, hdoes⟩ := h.exec_moves rb now op
  dsimp only at hmoves hdoes ⊢
  generalize Shm.exec rb z now op = r at hmoves hdoes
  obtain ⟨z', answer⟩ := r
  dsimp only at hmoves hdoes ⊢
  -- a node that was there before
  have hold : ∀ b ∈ z.resident, (z'.mem b).key = (z.mem b).key →
      op.note answer ≠ .stored (z.mem b).key → op.note answer ≠ .touched (z.mem b).key →
      histories z' (noted z touches now (op.note answer)) b = histories z touches b := by
    intro b hb hkey hstored htouched
    show noted z touches now (op.note answer) (z'.mem b).key = touches (z.mem b).key
    rw [hkey]
    exact noted_other (h.lookup_self hb) hstored htouched
  have hone : ∀ {act : Act Addr}, Does z [act] z' → (∀ b entry time, act ≠ .insert b entry time) →
      ∀ b ∈ z'.resident, b ∈ z.resident ∧ (z'.mem b).key = (z.mem b).key := by
    intro act hdoes hact b hb
    refine (hdoes.nodes b hb).resolve_left fun hnew => ?_
    obtain ⟨entry, time, hmem⟩ := hnew
    exact hact b entry time (List.mem_singleton.1 hmem).symm
  cases hmoves with
  | leave hleave hnote =>
    refine Or.inl ⟨?_, fun b hb => ?_⟩
    · rw [hdoes.lanes]
      exact Thinner.acts _ _ fun act hact => (hleave act hact).thins
    · have hin := (hdoes.nodes b hb).resolve_left fun hnew => by
        obtain ⟨entry, time, hmem⟩ := hnew
        cases hleave _ hmem
      refine hold b hin.1 hin.2 ?_ ?_
      · rcases hnote with hnote | ⟨k, hnote, -⟩ <;> rw [hnote] <;> exact nofun
      · rcases hnote with hnote | ⟨k, hnote, hnone⟩
        · rw [hnote]
          exact nofun
        · rw [hnote]
          rintro he
          rw [Note.touched.inj he, h.lookup_self hin.1] at hnone
          cases hnone
  | @purge gone hop hgone hnote =>
    refine Or.inl ⟨?_, fun b hb => ?_⟩
    · rw [hdoes.lanes]
      refine Thinner.acts _ _ fun act hact => ?_
      obtain ⟨a, -, rfl⟩ := List.mem_map.1 hact
      trivial
    · have hin := (hdoes.nodes b hb).resolve_left fun hnew => by
        obtain ⟨entry, time, hmem⟩ := hnew
        obtain ⟨a, -, he⟩ := List.mem_map.1 hmem
        cases he
      refine hold b hin.1 hin.2 ?_ ?_ <;> rw [hnote] <;> exact nofun
  | @insert acts hleave k p entry hnew hkey hnote =>
    have hlanes := hdoes.lanes
    have hfits := hdoes.fits
    rw [Run.after_append] at hlanes
    rw [Run.along_append] at hfits
    refine Or.inr ⟨Run.after laneStep (Shm.lanes z) acts, .insert p entry now, ?_, hfits.2.1,
      hlanes, fun b hb => ?_, Or.inr rfl, nofun, Or.inl rfl⟩
    · exact Thinner.acts _ _ fun act hact => (hleave act hact).thins
    · show _ = Function.update (histories z touches) p [] b
      by_cases hbp : b = p
      · rw [hbp, Function.update_self]
        show noted z touches now (op.note answer) (z'.mem p).key = []
        rw [hkey, noted_new hnew]
      · rw [Function.update_of_ne hbp]
        have hin := (hdoes.nodes b hb).resolve_left fun hnew' => by
          obtain ⟨entry', time, hmem⟩ := hnew'
          rcases List.mem_append.1 hmem with hmem | hmem
          · cases hleave _ hmem
          · cases List.mem_singleton.1 hmem
            exact hbp rfl
        have hother : (z.mem b).key ≠ k := fun he => by
          rw [← he, h.lookup_self hin.1] at hnew
          cases hnew
        refine hold b hin.1 hin.2 ?_ ?_
        · rcases hnote with hnote | hnote <;> rw [hnote]
          · exact nofun
          · exact fun he => hother (Note.stored.inj he).symm
        · rcases hnote with hnote | hnote <;> rw [hnote] <;> exact nofun
  | @store k a hfound chances hchances entry hnote =>
    refine Or.inr ⟨_, .store a chances entry now, .refl _, hdoes.fits.1, hdoes.lanes,
      fun b hb => ?_, Or.inr rfl, nofun, Or.inl rfl⟩
    obtain ⟨hin, hkey⟩ := hone hdoes nofun b hb
    show _ = Function.update (histories z touches) a [] b
    by_cases hba : b = a
    · rw [hba] at hkey ⊢
      rw [Function.update_self]
      show noted z touches now (op.note answer) (z'.mem a).key = []
      rw [hkey, (h.queues.lookup_resident hfound).2, hnote, noted_stored]
    · rw [Function.update_of_ne hba]
      refine hold b hin hkey ?_ ?_ <;> rw [hnote]
      · exact fun he => h.key_inj hfound hin hba (Note.stored.inj he).symm
      · exact nofun
  | @fail k a hfound chances hchances hnote =>
    refine Or.inr ⟨_, .fail a chances, .refl _, hdoes.fits.1, hdoes.lanes,
      fun b hb => ?_, Or.inl rfl, nofun, Or.inl rfl⟩
    obtain ⟨hin, hkey⟩ := hone hdoes nofun b hb
    refine hold b hin hkey ?_ ?_ <;> rw [hnote] <;> exact nofun
  | @stamp k freshTtl staleTtl hop a hfound =>
    have hnote : op.note answer = .nothing := by
      rw [hop]
      cases answer <;> rfl
    refine Or.inr ⟨_, .stamp a now, .refl _, hdoes.fits.1, hdoes.lanes,
      fun b hb => ?_, Or.inr rfl, fun _ _ _ => rfl, Or.inl rfl⟩
    obtain ⟨hin, hkey⟩ := hone hdoes nofun b hb
    refine hold b hin hkey ?_ ?_ <;> rw [hnote] <;> exact nofun
  | @touch k a hfound hnote =>
    refine Or.inr ⟨_, .touch a now op.protectedPct, .refl _, hdoes.fits.1, hdoes.lanes,
      fun b hb => ?_, Or.inr rfl, nofun, Or.inr ⟨rfl, a, rfl⟩⟩
    obtain ⟨hin, hkey⟩ := hone hdoes nofun b hb
    have hka := (h.queues.lookup_resident hfound).2
    show _ = (if now - (z.mem a).lastAccess < 1 then histories z touches
      else Function.update (histories z touches) a (now :: histories z touches a)) b
    by_cases hba : b = a
    · rw [hba] at hkey ⊢
      show noted z touches now (op.note answer) (z'.mem a).key = _
      rw [hkey, hka, hnote, noted_touched hfound]
      split_ifs
      · exact congrArg touches hka.symm
      · rw [Function.update_self]
        exact congrArg (fun k => now :: touches k) hka.symm
    · have hsame : histories z' (noted z touches now (op.note answer)) b =
          histories z touches b := by
        refine hold b hin hkey ?_ ?_ <;> rw [hnote]
        · exact nofun
        · exact fun he => h.key_inj hfound hin hba (Note.touched.inj he).symm
      rw [hsame]
      split_ifs
      · rfl
      · rw [Function.update_of_ne hba]

/-! ## One operation -/

section Follows

variable {op : ZoneOp} {touches' : Touches} {s : SegLru.State Addr} {act : Act Addr}

theorem Follows.earned (hf : Follows z touches now op z' touches' s act) (hok : (lanes z).Ok)
    (he : Earned (lanes z) (histories z touches)) : Earned (lanes z') (histories z' touches') := by
  have hstep := (he.thin hf.thinner).step (hf.thinner.ok hok) lruCapMaxEvict hf.fits
  rw [hf.queues]
  refine hstep.congr fun b hb => hf.history b ?_
  show b ∈ (lanes z').linked
  rwa [hf.queues]

theorem Follows.timely (hf : Follows z touches now op z' touches' s act) (hok : (lanes z).Ok)
    (ht : Timely (lanes z) (histories z touches)) (hr : Recent (lanes z) now) :
    Timely (lanes z') (histories z' touches') := by
  have hstep := (ht.thin hf.thinner).step (hf.thinner.ok hok) lruCapMaxEvict hf.fits
    fun a t hact => by
      have hs := hf.stamp a t hact
      have hmem : a ∈ s.linked := by
        have hfits := hf.fits
        rw [hact] at hfits
        exact hfits
      have htime : t = now := by
        rcases hf.time with hnone | hnow
        · rw [hact] at hnone
          cases hnone
        · rw [hact] at hnow
          exact Option.some.inj hnow
      rw [hs, htime]
      exact hr a (hs ▸ hmem)
  rw [hf.queues]
  refine hstep.congr fun b hb => hf.history b ?_
  show b ∈ (lanes z').linked
  rwa [hf.queues]

theorem Follows.recent (hf : Follows z touches now op z' touches' s act) (hok : (lanes z).Ok)
    (hr : Recent (lanes z) now) : Recent (lanes z') now := by
  rw [hf.queues]
  exact (hr.thin hf.thinner).step (hf.thinner.ok hok) lruCapMaxEvict hf.fits hf.time

end Follows

/-- **What a place in the protected segment has taken**, after one operation more. -/
theorem Wf.exec_earned (h : Wf held pending [] [] [] z)
    (he : Earned (lanes z) (histories z touches)) (now : Time) (op : ZoneOp) :
    let r := Shm.exec rb z now op
    Earned (lanes r.1) (histories r.1 (noted z touches now (op.note r.2))) := by
  rcases h.exec_follows rb touches now op with ⟨hthin, hsame⟩ | ⟨s, act, hf⟩
  · exact (he.thin hthin).congr hsame
  · exact hf.earned h.lanes_ok he

/-- The same for the times, as long as the clock does not run backwards. -/
theorem Wf.exec_timely (h : Wf held pending [] [] [] z)
    (ht : Timely (lanes z) (histories z touches)) {now : Time} (hr : Recent (lanes z) now)
    (op : ZoneOp) :
    let r := Shm.exec rb z now op
    Timely (lanes r.1) (histories r.1 (noted z touches now (op.note r.2))) ∧
      Recent (lanes r.1) now := by
  rcases h.exec_follows rb touches now op with ⟨hthin, hsame⟩ | ⟨s, act, hf⟩
  · exact ⟨(ht.thin hthin).congr hsame, hr.thin hthin⟩
  · exact ⟨hf.timely h.lanes_ok ht hr, hf.recent h.lanes_ok hr⟩

/-- The cap that the `protected_pct` of a call gives: `lru_enforce_cap`'s, and no protected
node without a percentage. -/
def capOf (z : Zone) (protectedPct : ℕ) : ℕ :=
  if protectedPct = 0 then 0 else
    let cap := (z.nEntries * protectedPct + 99) / 100
    if cap = 0 then 1 else cap

/-- **No operation leaves more protected nodes** than there were and than its cap. -/
theorem Wf.exec_cap (h : Wf held pending [] [] [] z) (now : Time) (op : ZoneOp) :
    (Shm.exec rb z now op).1.nProtected ≤ max z.nProtected (capOf z op.protectedPct) := by
  obtain ⟨h', -⟩ := h.exec rb now op
  rw [← h.length_guarded, ← h'.length_guarded]
  rcases h.exec_follows rb (fun _ => []) now op with ⟨hthin, -⟩ | ⟨s, act, hf⟩
  · exact hthin.guarded.length_le.trans (le_max_left _ _)
  · rw [hf.queues]
    have hmost : 0 < lruCapMaxEvict := by decide
    have hcard := (hf.thinner.ok h.lanes_ok).step_card hmost hf.fits
    have hless := hf.thinner.guarded.length_le
    refine hcard.trans (max_le (hless.trans (le_max_left _ _)) ?_)
    rcases hf.cap with hnone | ⟨hs, a, hact⟩
    · rw [hnone]
      exact Nat.zero_le _
    · rw [hs, hact]
      refine le_trans (le_of_eq ?_) (le_max_right _ _)
      show (if op.protectedPct = 0 then 0
        else SegLru.capFor (lanes z).linked.length op.protectedPct) = capOf z op.protectedPct
      rw [h.length_linked]
      rfl

/-! ## The demotions -/

/-- How many nodes a call of `lru_enforce_cap` demotes. -/
def demotions (z : Zone) (protectedPct : ℕ) : ℕ :=
  min lruCapMaxEvict (z.nProtected - capOf z protectedPct)

/-- **`lru_enforce_cap`**: what is over the cap, and at most `LRU_CAP_MAX_EVICT` nodes, goes
from the cold end of `lru_protected` to the head of `lru`, in its order. -/
structure Enforces (z : Zone) (protectedPct : ℕ) : Prop where
  lruProtected : (lruEnforceCap z protectedPct).lruProtected =
    z.lruProtected.take (z.nProtected - demotions z protectedPct)
  lru : (lruEnforceCap z protectedPct).lru =
    z.lruProtected.drop (z.nProtected - demotions z protectedPct) ++ z.lru
  nProtected : (lruEnforceCap z protectedPct).nProtected =
    z.nProtected - demotions z protectedPct
  marks : ∀ a, ((lruEnforceCap z protectedPct).mem a).mark =
    if a ∈ z.lruProtected.drop (z.nProtected - demotions z protectedPct) then (z.mem a).mark.cool
    else (z.mem a).mark
  kept : Kept none z (lruEnforceCap z protectedPct)

theorem Wf.enforces (h : Wf held pending [] [] [] z) {protectedPct : ℕ} (hpct : 0 < protectedPct) :
    Enforces z protectedPct := by
  have hcap : (if (z.nEntries * protectedPct + 99) / 100 = 0 then 1
      else (z.nEntries * protectedPct + 99) / 100) = capOf z protectedPct :=
    (if_neg (Nat.pos_iff_ne_zero.1 hpct)).symm
  have hlanes : lanes (Shm.lruEnforceCap z protectedPct) =
      (lanes z).cut (demotions z protectedPct) := by
    show lanes (Shm.lruDemote (if (z.nEntries * protectedPct + 99) / 100 = 0 then 1
      else (z.nEntries * protectedPct + 99) / 100) lruCapMaxEvict z) = _
    rw [hcap, h.lanes_demote, h.lanes_ok.demote_eq]
    unfold SegLru.State.surplus demotions
    rw [h.length_guarded]
  obtain ⟨h', hkept, -⟩ := h.lruEnforceCap protectedPct
  have hprot := congrArg SegLru.State.guarded hlanes
  have hlen : z.lruProtected.length = z.nProtected := h.length_guarded
  have hcut : ∀ k, (lanes z).guarded.length - k = z.nProtected - k := fun k => by
    rw [h.length_guarded]
  simp only [SegLru.State.cut, hcut] at hprot
  refine ⟨hprot, ?_, ?_, fun a => ?_, hkept⟩
  · have hlru := congrArg SegLru.State.probation hlanes
    simp only [SegLru.State.cut, hcut] at hlru
    exact hlru
  · rw [← h'.length_guarded, hprot, List.length_take]
    show min _ z.lruProtected.length = _
    rw [hlen]
    exact min_eq_left (Nat.sub_le _ _)
  · have hmark := congrFun (congrArg SegLru.State.mark hlanes) a
    simp only [SegLru.State.cut, hcut] at hmark
    exact hmark

/-- No node is lost, and all stay in their order. -/
theorem Enforces.order {protectedPct : ℕ} (h : Enforces z protectedPct) :
    (lruEnforceCap z protectedPct).lruProtected ++ (lruEnforceCap z protectedPct).lru =
      z.lruProtected ++ z.lru := by
  rw [h.lruProtected, h.lru, ← List.append_assoc, List.take_append_drop]

/-! ## Without a percentage -/

/-- **One operation on a plain LRU**: no node is protected, and the queue and the times of its
nodes come out as those of a single list, on which a node that begins or is touched goes to
the head, and each victim is the first from the tail that the second chance does not spare. -/
def Plainly (z : Zone) (event : Time × ZoneOp) : Prop :=
  let r := exec rb z event.1 event.2
  z.lruProtected = [] ∧ r.1.lruProtected = [] ∧
    ∃ acts, Moves z event.1 event.2 r.2 r.1 acts ∧
      (lanes r.1).plain = Run.after SegLru.Plain.step (lanes z).plain acts

theorem Moves.off {op : ZoneOp} {answer : Answer} (h : Moves z now op answer z' acts)
    (hpct : op.protectedPct = 0) : ∀ act ∈ acts, act.Off := by
  have hleft : ∀ {acts : List (Act Addr)}, (∀ act ∈ acts, Leaves z now act) →
      ∀ act ∈ acts, act.Off := by
    intro acts hleave act hact
    cases hleave act hact
    trivial
  intro act hact
  cases h with
  | leave hleave hnote => exact hleft hleave act hact
  | purge hop hgone hnote =>
    obtain ⟨a, -, rfl⟩ := List.mem_map.1 hact
    trivial
  | insert hleave entry hnew hkey hnote =>
    rcases List.mem_append.1 hact with hact | hact
    · exact hleft hleave act hact
    · cases List.mem_singleton.1 hact
      trivial
  | store | fail | stamp =>
    cases List.mem_singleton.1 hact
    trivial
  | touch hfound hnote =>
    cases List.mem_singleton.1 hact
    exact hpct

theorem Wf.exec_plainly (h : Wf held pending [] [] [] z) (hflat : z.lruProtected = [])
    (event : Time × ZoneOp) (hpct : event.2.protectedPct = 0) : Plainly rb z event := by
  obtain ⟨acts, hmoves, hdoes⟩ := h.exec_moves rb event.1 event.2
  obtain ⟨hnone, hplain⟩ :=
    h.lanes_ok.plain_run hflat lruCapMaxEvict (hmoves.off hpct) hdoes.fits
  have hlanes := hdoes.lanes
  refine ⟨hflat, ?_, acts, hmoves, ?_⟩
  · show (lanes _).guarded = []
    rw [hlanes]
    exact hnone
  · rw [hlanes]
    exact hplain

/-! ## Every run -/

/-- A zone, and the touches of its digests. -/
structure Watched where
  zone : Zone
  touches : Touches

namespace Watched

/-- One timed operation. -/
def step (w : Watched) (event : Time × ZoneOp) : Watched :=
  let r := exec rb w.zone event.1 event.2
  ⟨r.1, noted w.zone w.touches event.1 (event.2.note r.2)⟩

theorem zone_after (w : Watched) (run : List (Time × ZoneOp)) :
    (Run.after (step rb) w run).zone = Run.after (runStep rb) w.zone run := by
  induction run generalizing w with
  | nil => rfl
  | cons event run ih => exact ih _

/-- What every run keeps. -/
def Ok (w : Watched) : Prop :=
  (∃ held, Wf held [] [] [] [] w.zone) ∧ Earned (lanes w.zone) (histories w.zone w.touches)

theorem Ok.after {w : Watched} (h : w.Ok) (run : List (Time × ZoneOp)) :
    (Run.after (step rb) w run).Ok := by
  refine Run.after_invariant (P := Ok) ?_ h run
  rintro w ⟨now, op⟩ ⟨⟨held, hwf⟩, he⟩
  exact ⟨⟨_, (hwf.exec rb now op).1⟩, hwf.exec_earned rb he now op⟩

/-- Over a run whose clock does not run backwards, from a time that no node is ahead of. -/
theorem Ok.timely_after {w : Watched} (h : w.Ok) {start : Time} (hr : Recent (lanes w.zone) start)
    (ht : Timely (lanes w.zone) (histories w.zone w.touches)) {run : List (Time × ZoneOp)}
    (hclock : (start :: run.map Prod.fst).Pairwise (· ≤ ·)) :
    Timely (lanes (Run.after (step rb) w run).zone)
      (histories (Run.after (step rb) w run).zone (Run.after (step rb) w run).touches) := by
  induction run generalizing w start with
  | nil => exact ht
  | cons event run ih =>
    obtain ⟨now, op⟩ := event
    obtain ⟨hlater, hclock⟩ := List.pairwise_cons.1 hclock
    obtain ⟨held, hwf⟩ := h.1
    have hnow : Recent (lanes w.zone) now := fun a ha =>
      (hr a ha).trans (hlater now (List.mem_cons_self ..))
    obtain ⟨ht', hr'⟩ := hwf.exec_timely rb ht hnow op
    exact ih (h.after rb [(now, op)]) hr' ht' hclock

end Watched

/-- **The discipline of the two queues** after a run. -/
structure Segmented (start : Zone) (run : List (Time × ZoneOp)) (w : Watched) : Prop where
  zone : w.zone = Run.after (runStep rb) start run
  earned : ∀ a ∈ w.zone.resident, (w.zone.mem a).seg = .segProtected →
    (w.zone.mem a).kind = .entry ∧ 2 ≤ (w.touches (w.zone.mem a).key).length
  apart : (run.map Prod.fst).Pairwise (· ≤ ·) → ∀ a ∈ w.zone.resident,
    (w.touches (w.zone.mem a).key).Pairwise (· > ·)
  capped : Run.Along (runStep rb) (fun z event => (exec rb z event.1 event.2).1.nProtected ≤
    max z.nProtected (capOf z event.2.protectedPct)) start run
  enforced : ∀ a ∈ w.zone.resident, ∀ now protectedPct hash, 0 < protectedPct →
    ¬ now - (w.zone.mem a).lastAccess < 1 →
      touchLru w.zone a now protectedPct hash =
        lruEnforceCap (touchMoved w.zone a now protectedPct hash) protectedPct ∧
      Enforces (touchMoved w.zone a now protectedPct hash) protectedPct
  plain : (∀ event ∈ run, event.2.protectedPct = 0) → Run.Along (runStep rb) (Plainly rb) start run

/-- **Segmented LRU**, over every run of operations from a fresh zone. -/
theorem segmented_lru (mem : Addr → Node) (blob : BlobId → Blob) (answers : ℕ → Option Addr)
    (sketch : Sketch) (admission : Bool) (breakerState : ℕ) (run : List (Time × ZoneOp)) :
    let start := freshZone mem blob answers sketch admission breakerState
    Segmented rb start run (Run.after (Watched.step rb) ⟨start, fun _ => []⟩ run) := by
  intro start
  have hwf : Wf [] [] [] [] [] start := Wf.freshZone mem blob answers sketch admission breakerState
  have hstart : Watched.Ok ⟨start, fun _ => []⟩ := ⟨⟨[], hwf⟩, ⟨nofun, nofun⟩⟩
  have hkeep : ∀ (z : Zone) (event : Time × ZoneOp), (∃ held, Wf held [] [] [] [] z) →
      ∃ held, Wf held [] [] [] [] (runStep rb z event) := by
    rintro z ⟨now, op⟩ ⟨held, h⟩
    exact ⟨_, (h.exec rb now op).1⟩
  obtain ⟨⟨held, hend⟩, hearned⟩ := hstart.after rb run
  refine ⟨Watched.zone_after rb _ run, fun a ha hseg => ?_, fun hclock a ha => ?_, ?_,
    fun a ha now protectedPct hash hpct hgate => ?_, fun hoff => ?_⟩
  · have hhot : ((lanes _).mark a).hot = true := decide_eq_true hseg
    exact ⟨of_decide_eq_true (hend.lanes_ok.entry ha hhot), hearned.twice a ha hhot⟩
  · cases run with
    | nil => cases ha
    | cons event run =>
      -- the run starts at the time of its first operation
      have hfirst : (event.1 :: (event :: run).map Prod.fst).Pairwise (· ≤ ·) := by
        refine List.pairwise_cons.2 ⟨fun t ht => ?_, hclock⟩
        rcases List.mem_cons.1 ht with rfl | ht
        · exact le_rfl
        · exact (List.pairwise_cons.1 hclock).1 t ht
      exact (hstart.timely_after rb nofun ⟨nofun, nofun⟩ hfirst).sorted a ha
  · refine Run.along_of_invariant (P := fun z => ∃ held, Wf held [] [] [] [] z)
      (C := fun _ _ => True) (fun z event hz _ => ⟨?_, hkeep z event hz⟩) ⟨[], hwf⟩
      (Run.along_of_forall fun _ _ => trivial)
    obtain ⟨held, h⟩ := hz
    exact h.exec_cap rb event.1 event.2
  · refine ⟨?_, (hend.touchMoved ha now protectedPct hash).1.enforces hpct⟩
    rw [touchLru_eq]
    dsimp only
    rw [if_neg hgate, if_pos hpct]
    rfl
  · refine Run.along_of_invariant
      (P := fun z => z.lruProtected = [] ∧ ∃ held, Wf held [] [] [] [] z)
      (C := fun _ event => event.2.protectedPct = 0) (fun z event hz hpct => ?_) ⟨rfl, [], hwf⟩
      (Run.along_of_forall hoff)
    obtain ⟨hflat, held, h⟩ := hz
    have hplain := h.exec_plainly rb hflat event hpct
    exact ⟨hplain, hplain.2.1, hkeep z event ⟨held, h⟩⟩

end Shm
end CacheTurbo
