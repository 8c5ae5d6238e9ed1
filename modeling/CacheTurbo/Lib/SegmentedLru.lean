/-
# A segmented LRU

Two queues of nodes, head first.  A node begins on `probation`; a touch that finds it
promotable moves it to `guarded`, and the next ones keep it there.  `guarded` is held to a
share of all nodes by moving its cold end to the head of `probation`, a few nodes at a time.
A victim is taken from the tail of `probation`, or of `guarded` when that is empty; the owner
may pass over nodes.

Each touch brings its own share, which may change from one to the next; a share of zero turns
the second queue off.  `Act` lists what can happen to the queues, `Earned` and `Timely` say
what a place on `guarded` has taken, by the history of the touches, and `Plain` is the one
queue of an LRU that is not segmented.
-/

import CacheTurbo.Lib.Run
import Mathlib.Data.List.Nodup
import Mathlib.Logic.Function.Basic
import Mathlib.Order.Lattice
import Mathlib.Data.Nat.Notation
import Mathlib.Data.Int.Notation

namespace CacheTurbo
namespace SegLru

variable {α : Type*}

/-- What is kept of a node: whether it may be guarded at all, whether it is labelled so,
whether its next touch promotes it, and when it was touched last. -/
structure Mark where
  entry : Bool
  hot : Bool
  promotable : Bool
  lastAccess : ℤ
  deriving DecidableEq

/-- A node that is demoted loses its label and nothing else. -/
def Mark.cool (m : Mark) : Mark := { m with hot := false }

/-- The queues and the marks. -/
@[ext] structure State (α : Type*) where
  probation : List α
  guarded : List α
  mark : α → Mark

namespace State

/-- The nodes on either queue. -/
def linked (s : State α) : List α := s.probation ++ s.guarded

/-- To the head of the queue that the label names. -/
def link (s : State α) (a : α) : State α :=
  if (s.mark a).hot then { s with guarded := a :: s.guarded }
  else { s with probation := a :: s.probation }

variable {s : State α}

theorem mem_linked {a : α} : a ∈ s.linked ↔ a ∈ s.probation ∨ a ∈ s.guarded := List.mem_append

@[simp] theorem mark_link (s : State α) (a : α) : (s.link a).mark = s.mark := by
  unfold link
  split_ifs <;> rfl

theorem link_hot (s : State α) {a : α} (h : (s.mark a).hot = true) :
    s.link a = { s with guarded := a :: s.guarded } := if_pos h

theorem link_cold (s : State α) {a : α} (h : (s.mark a).hot = false) :
    s.link a = { s with probation := a :: s.probation } :=
  if_neg (by rw [h]; exact Bool.false_ne_true)

theorem linked_link (s : State α) (a : α) : (s.link a).linked.Perm (a :: s.linked) := by
  cases h : (s.mark a).hot with
  | true =>
    rw [link_hot s h]
    exact List.perm_middle
  | false =>
    rw [link_cold s h]
    exact List.Perm.refl _

variable [DecidableEq α]

def setMark (s : State α) (a : α) (m : Mark) : State α :=
  { s with mark := Function.update s.mark a m }

def unlink (s : State α) (a : α) : State α :=
  { s with probation := s.probation.erase a, guarded := s.guarded.erase a }

@[simp] theorem setMark_self (s : State α) (a : α) (m : Mark) : (s.setMark a m).mark a = m :=
  Function.update_self ..

theorem setMark_of_ne (s : State α) {a b : α} (h : b ≠ a) (m : Mark) :
    (s.setMark a m).mark b = s.mark b := Function.update_of_ne h ..

/-- A mark that is replaced once the node is linked. -/
theorem link_setMark (s : State α) (a : α) {m m' : Mark} (h : m'.hot = m.hot) :
    ((s.setMark a m).link a).setMark a m' = (s.setMark a m').link a := by
  have hmark : Function.update (Function.update s.mark a m) a m' = Function.update s.mark a m' :=
    Function.update_idem ..
  cases hhot : m.hot with
  | true =>
    rw [link_hot _ (by rw [setMark_self]; exact hhot),
      link_hot _ (by rw [setMark_self]; exact h.trans hhot)]
    exact State.ext rfl rfl hmark
  | false =>
    rw [link_cold _ (by rw [setMark_self]; exact hhot),
      link_cold _ (by rw [setMark_self]; exact h.trans hhot)]
    exact State.ext rfl rfl hmark

end State

/-! ## Victims -/

/-- The first node from the tail that is not passed over, or the tail. -/
def victim (passes : α → Bool) (queue : List α) : Option α :=
  (queue.reverse.find? fun a => !passes a).or queue.getLast?

namespace State

/-- The queue that gives the victim. -/
def queue (s : State α) : List α := if s.probation = [] then s.guarded else s.probation

variable [DecidableEq α]

def evict (s : State α) (passes : α → Bool) : State α :=
  match victim passes s.queue with
  | none => s
  | some v => s.unlink v

/-- Some evictions, each with what it passes over. -/
def evicts (s : State α) (chances : List (α → Bool)) : State α := chances.foldl evict s

/-! ## Touches -/

/-- At most `n` times: the cold end of `guarded` to the head of `probation`, while there are
more than `cap` nodes on it. -/
def demote (cap : ℕ) : ℕ → State α → State α
  | 0, s => s
  | n + 1, s =>
      if cap < s.guarded.length then
        match s.guarded.getLast? with
        | none => s
        | some v =>
            demote cap n (((s.unlink v).setMark v (s.mark v).cool).link v)
      else s

theorem demote_of_le {s : State α} {cap : ℕ} (h : s.guarded.length ≤ cap) (n : ℕ) :
    s.demote cap (n + 1) = s := by
  rw [demote, if_neg (not_lt.2 h)]

theorem demote_last {s : State α} {cap : ℕ} (h : cap < s.guarded.length) {v : α}
    (hv : s.guarded.getLast? = some v) (n : ℕ) : s.demote cap (n + 1) =
      (((s.unlink v).setMark v (s.mark v).cool).link v).demote cap n := by
  rw [demote, if_pos h, hv]

end State

/-- The share of `pct` percent of the nodes, rounded up, and one node at least. -/
def capFor (entries pct : ℕ) : ℕ :=
  if (entries * pct + 99) / 100 = 0 then 1 else (entries * pct + 99) / 100

/-- The mark after a touch that counts. -/
def touched (m : Mark) (now : ℤ) (pct : ℕ) : Mark where
  entry := m.entry
  hot := if pct = 0 then false else m.hot || (m.entry && m.promotable)
  promotable := true
  lastAccess := now

variable [DecidableEq α]

/-- A touch: one at most for a node and a second counts. -/
def State.touch (most : ℕ) (s : State α) (a : α) (now : ℤ) (pct : ℕ) : State α :=
  if now - (s.mark a).lastAccess < 1 then s
  else
    let moved := ((s.unlink a).setMark a (touched (s.mark a) now pct)).link a
    if pct > 0 then moved.demote (capFor moved.linked.length pct) most else moved

/-! ## What can happen -/

inductive Act (α : Type*)
  /-- A victim goes. -/
  | evict (passes : α → Bool)
  /-- A node goes. -/
  | remove (a : α)
  /-- A node is new. -/
  | insert (a : α) (entry : Bool) (now : ℤ)
  /-- A node is taken off its queue while others are evicted, and begins anew. -/
  | store (a : α) (chances : List (α → Bool)) (entry : Bool) (now : ℤ)
  /-- The same, but it comes back as it was. -/
  | fail (a : α) (chances : List (α → Bool))
  /-- The time of a node is moved. -/
  | stamp (a : α) (now : ℤ)
  | touch (a : α) (now : ℤ) (pct : ℕ)

/-- The time that an act gives to a node. -/
def Act.time : Act α → Option ℤ
  | .insert _ _ now | .store _ _ _ now | .stamp _ now | .touch _ now _ => some now
  | .evict _ | .remove _ | .fail _ _ => none

/-- The mark of a node that begins. -/
def Mark.start (entry : Bool) (now : ℤ) : Mark := ⟨entry, false, false, now⟩

def State.step (most : ℕ) (s : State α) : Act α → State α
  | .evict passes => s.evict passes
  | .remove a => s.unlink a
  | .insert a entry now => (s.setMark a (.start entry now)).link a
  | .store a chances entry now =>
      (((s.unlink a).evicts chances).setMark a (.start entry now)).link a
  | .fail a chances => ((s.unlink a).evicts chances).link a
  | .stamp a now => s.setMark a { s.mark a with lastAccess := now }
  | .touch a now pct => s.touch most a now pct

/-- What is asked of an act: a new node is not linked, any other one is. -/
def Fits (s : State α) : Act α → Prop
  | .evict _ | .remove _ => True
  | .insert a _ _ => a ∉ s.linked
  | .store a _ _ _ | .fail a _ | .stamp a _ | .touch a _ _ => a ∈ s.linked

/-! ## The invariant -/

/-- Each node is linked once, on the queue that its label names, and what is guarded may be. -/
structure State.Ok (s : State α) : Prop where
  nodup : s.linked.Nodup
  cold : ∀ a ∈ s.probation, (s.mark a).hot = false
  hot : ∀ a ∈ s.guarded, (s.mark a).hot = true ∧ (s.mark a).entry = true

variable {s s' : State α}

namespace State

theorem Ok.linked_unlink (h : s.Ok) (a : α) : (s.unlink a).linked = s.linked.erase a := by
  have hsplit := List.nodup_append.1 h.nodup
  show s.probation.erase a ++ s.guarded.erase a = (s.probation ++ s.guarded).erase a
  rw [List.erase_append]
  split_ifs with ha
  · rw [List.erase_of_not_mem fun hg => hsplit.2.2 a ha a hg rfl]
  · rw [List.erase_of_not_mem ha]

theorem Ok.mem_unlink (h : s.Ok) {a b : α} : b ∈ (s.unlink a).linked ↔ b ≠ a ∧ b ∈ s.linked := by
  rw [h.linked_unlink, h.nodup.mem_erase_iff]

omit [DecidableEq α] in
/-- Nodes may leave, and the marks of others may change. -/
theorem Ok.thin (h : s.Ok) (hprob : s'.probation.Sublist s.probation)
    (hguard : s'.guarded.Sublist s.guarded) (hmark : ∀ a ∈ s'.linked, s'.mark a = s.mark a) :
    s'.Ok where
  nodup := (hprob.append hguard).nodup h.nodup
  cold a ha := by
    rw [hmark a (mem_linked.2 (Or.inl ha))]
    exact h.cold a (hprob.subset ha)
  hot a ha := by
    rw [hmark a (mem_linked.2 (Or.inr ha))]
    exact h.hot a (hguard.subset ha)

theorem Ok.unlink (h : s.Ok) (a : α) : (s.unlink a).Ok :=
  h.thin List.erase_sublist List.erase_sublist fun _ _ => rfl

/-- A node that is not linked gets a mark, and is put on its queue. -/
theorem Ok.link (h : s.Ok) {a : α} (ha : a ∉ s.linked) {m : Mark}
    (hm : m.hot = true → m.entry = true) : ((s.setMark a m).link a).Ok := by
  have hself := setMark_self s a m
  have hother : ∀ b ∈ s.linked, (s.setMark a m).mark b = s.mark b := fun b hb =>
    setMark_of_ne s (by rintro rfl; exact ha hb) m
  have hnodup : (a :: s.linked).Nodup := List.nodup_cons.2 ⟨ha, h.nodup⟩
  refine ⟨(linked_link (s.setMark a m) a).nodup_iff.2 hnodup, ?_, ?_⟩
  · intro b hb
    rw [mark_link]
    cases hhot : m.hot with
    | true =>
      rw [link_hot _ (by rw [hself]; exact hhot)] at hb
      rw [hother b (mem_linked.2 (Or.inl hb))]
      exact h.cold b hb
    | false =>
      rw [link_cold _ (by rw [hself]; exact hhot)] at hb
      rcases List.mem_cons.1 hb with rfl | hb
      · rw [hself, hhot]
      · rw [hother b (mem_linked.2 (Or.inl hb))]
        exact h.cold b hb
  · intro b hb
    rw [mark_link]
    cases hhot : m.hot with
    | true =>
      rw [link_hot _ (by rw [hself]; exact hhot)] at hb
      rcases List.mem_cons.1 hb with rfl | hb
      · rw [hself]
        exact ⟨hhot, hm hhot⟩
      · rw [hother b (mem_linked.2 (Or.inr hb))]
        exact h.hot b hb
    | false =>
      rw [link_cold _ (by rw [hself]; exact hhot)] at hb
      rw [hother b (mem_linked.2 (Or.inr hb))]
      exact h.hot b hb

/-- A node that comes back with the mark it had. -/
theorem Ok.relink (h : s.Ok) {a : α} (ha : a ∉ s.linked)
    (hm : (s.mark a).hot = true → (s.mark a).entry = true) : (s.link a).Ok := by
  have hsame : s.setMark a (s.mark a) = s := by
    unfold setMark
    rw [Function.update_eq_self]
  rw [← hsame]
  exact h.link ha hm

/-! ## Demotions -/

/-- How many nodes are over a cap, up to what one call takes. -/
def surplus (s : State α) (cap n : ℕ) : ℕ := min n (s.guarded.length - cap)

/-- The last `k` nodes of `guarded`, in their order, put before `probation`. -/
def cut (s : State α) (k : ℕ) : State α where
  probation := s.guarded.drop (s.guarded.length - k) ++ s.probation
  guarded := s.guarded.take (s.guarded.length - k)
  mark := fun a => if a ∈ s.guarded.drop (s.guarded.length - k) then (s.mark a).cool else s.mark a

theorem cut_zero (s : State α) : s.cut 0 = s := by simp [cut]

/-- A cut keeps every node, and the order of all. -/
theorem cut_append (s : State α) (k : ℕ) :
    (s.cut k).guarded ++ (s.cut k).probation = s.guarded ++ s.probation := by
  show s.guarded.take _ ++ (s.guarded.drop _ ++ s.probation) = _
  rw [← List.append_assoc, List.take_append_drop]

theorem linked_cut (s : State α) (k : ℕ) : (s.cut k).linked.Perm s.linked := by
  refine List.perm_append_comm.trans ?_
  rw [cut_append]
  exact List.perm_append_comm

/-- One node more. -/
theorem Ok.cut_succ (h : s.Ok) {init : List α} {v : α} (hlast : s.guarded = init ++ [v]) (k : ℕ) :
    (((s.unlink v).setMark v (s.mark v).cool).link v).cut k = s.cut (k + 1) := by
  have hsplit := List.nodup_append.1 h.nodup
  have hv : v ∈ s.guarded := hlast ▸ List.mem_append_right _ (List.mem_singleton_self v)
  have hinit : v ∉ init := by
    have hnodup := hsplit.2.1
    rw [hlast] at hnodup
    exact fun hi => (List.nodup_append.1 hnodup).2.2 v hi v (List.mem_singleton_self v) rfl
  have hprob : s.probation.erase v = s.probation :=
    List.erase_of_not_mem fun hp => hsplit.2.2 v hp v hv rfl
  have hguard : s.guarded.erase v = init := by
    rw [hlast, List.erase_append_right _ hinit, List.erase_cons_head, List.append_nil]
  have hone : ((s.unlink v).setMark v (s.mark v).cool).link v =
      ⟨v :: s.probation, init, Function.update s.mark v (s.mark v).cool⟩ := by
    rw [link_cold _ (by rw [setMark_self]; rfl)]
    show State.mk (v :: s.probation.erase v) (s.guarded.erase v) _ = _
    rw [hprob, hguard]
    rfl
  have hcut : s.guarded.length - (k + 1) = init.length - k := by
    rw [hlast, List.length_append, List.length_singleton, Nat.add_sub_add_right]
  have hdrop : s.guarded.drop (init.length - k) = init.drop (init.length - k) ++ [v] := by
    rw [hlast, List.drop_append_of_le_length (Nat.sub_le _ _)]
  have htake : s.guarded.take (init.length - k) = init.take (init.length - k) := by
    rw [hlast, List.take_append_of_le_length (Nat.sub_le _ _)]
  rw [hone]
  refine State.ext ?_ ?_ ?_
  · show init.drop _ ++ v :: s.probation = s.guarded.drop _ ++ s.probation
    rw [hcut, hdrop, List.append_assoc]
    rfl
  · show init.take _ = s.guarded.take _
    rw [hcut, htake]
  · funext a
    simp only [cut]
    rw [hcut, hdrop]
    by_cases hav : a = v
    · subst hav
      rw [if_neg fun hd => hinit (List.mem_of_mem_drop hd), Function.update_self,
        if_pos (List.mem_append_right _ (List.mem_singleton_self a))]
    · rw [Function.update_of_ne hav]
      simp [hav]

/-- **What demotions do**: they cut what is over the cap off the cold end of `guarded`, as much
as one call takes, and put it before `probation`. -/
theorem Ok.demote_eq (h : s.Ok) (cap n : ℕ) : s.demote cap n = s.cut (s.surplus cap n) := by
  induction n generalizing s with
  | zero =>
    unfold surplus
    rw [Nat.zero_min, cut_zero]
    rfl
  | succ n ih =>
    by_cases hfull : cap < s.guarded.length
    swap
    · unfold surplus
      rw [demote_of_le (not_lt.1 hfull), Nat.sub_eq_zero_of_le (not_lt.1 hfull), Nat.min_zero,
        cut_zero]
    · rcases List.eq_nil_or_concat s.guarded with hnil | ⟨init, v, hlast⟩
      · rw [hnil] at hfull
        exact absurd hfull (Nat.not_lt_zero cap)
      · rw [List.concat_eq_append] at hlast
        have hget : s.guarded.getLast? = some v := by rw [hlast, List.getLast?_concat]
        have hout : v ∉ (s.unlink v).linked := fun hv => (h.mem_unlink.1 hv).1 rfl
        have hstep := (h.unlink v).link hout (m := (s.mark v).cool) nofun
        have hguard : (((s.unlink v).setMark v (s.mark v).cool).link v).guarded.length =
            init.length := by
          rw [link_cold _ (by rw [setMark_self]; rfl)]
          show (s.guarded.erase v).length = _
          have hv : v ∈ s.guarded := hlast ▸ List.mem_append_right _ (List.mem_singleton_self v)
          rw [List.length_erase_of_mem hv, hlast,
            List.length_append, List.length_singleton, Nat.add_sub_cancel]
        have hlen : s.guarded.length = init.length + 1 := by
          rw [hlast, List.length_append, List.length_singleton]
        have hsurplus : s.surplus cap (n + 1) =
            (((s.unlink v).setMark v (s.mark v).cool).link v).surplus cap n + 1 := by
          unfold surplus
          rw [hguard, hlen]
          omega
        rw [demote_last hfull hget, ih hstep, hsurplus]
        exact h.cut_succ hlast _

/-- A cut keeps the invariant. -/
theorem Ok.cut (h : s.Ok) (k : ℕ) : (s.cut k).Ok := by
  have hnodup := (List.nodup_append.1 h.nodup).2.1
  have hsplit := List.take_append_drop (s.guarded.length - k) s.guarded
  refine ⟨(linked_cut s k).nodup_iff.2 h.nodup, fun a ha => ?_, fun a ha => ?_⟩
  · rcases List.mem_append.1 ha with hd | hp
    · show (if _ then _ else _ : Mark).hot = false
      rw [if_pos hd]
      rfl
    · show (if _ then _ else _ : Mark).hot = false
      split_ifs
      · rfl
      · exact h.cold a hp
  · have hkeep : a ∉ s.guarded.drop (s.guarded.length - k) := by
      rw [← hsplit] at hnodup
      exact fun hd => (List.nodup_append.1 hnodup).2.2 a ha a hd rfl
    show (if _ then _ else _ : Mark).hot = true ∧ (if _ then _ else _ : Mark).entry = true
    rw [if_neg hkeep]
    exact h.hot a (List.mem_of_mem_take ha)

/-! ## Evictions -/

/-- What is left of a state by those who take nodes off the queues. -/
structure Thinner (s s' : State α) : Prop where
  probation : s'.probation.Sublist s.probation
  guarded : s'.guarded.Sublist s.guarded
  mark : s'.mark = s.mark

omit [DecidableEq α] in
theorem Thinner.trans {s'' : State α} (h : Thinner s s') (h' : Thinner s' s'') : Thinner s s'' :=
  ⟨h'.probation.trans h.probation, h'.guarded.trans h.guarded, h'.mark.trans h.mark⟩

omit [DecidableEq α] in
theorem Thinner.linked (h : Thinner s s') : s'.linked.Sublist s.linked :=
  h.probation.append h.guarded

omit [DecidableEq α] in
theorem Thinner.ok (h : Thinner s s') (hok : s.Ok) : s'.Ok :=
  hok.thin h.probation h.guarded fun a _ => congrFun h.mark a

theorem Thinner.unlink (s : State α) (a : α) : Thinner s (s.unlink a) :=
  ⟨List.erase_sublist, List.erase_sublist, rfl⟩

theorem Thinner.evict (s : State α) (passes : α → Bool) : Thinner s (s.evict passes) := by
  unfold State.evict
  cases victim passes s.queue with
  | none => exact ⟨List.Sublist.refl _, List.Sublist.refl _, rfl⟩
  | some v => exact .unlink s v

theorem Thinner.evicts (s : State α) (chances : List (α → Bool)) :
    Thinner s (s.evicts chances) := by
  induction chances generalizing s with
  | nil => exact ⟨List.Sublist.refl _, List.Sublist.refl _, rfl⟩
  | cons passes chances ih => exact (Thinner.evict s passes).trans (ih _)

/-- A node that is off its queue while others are evicted. -/
theorem Ok.off (h : s.Ok) (a : α) (chances : List (α → Bool)) :
    ((s.unlink a).evicts chances).Ok ∧ a ∉ ((s.unlink a).evicts chances).linked := by
  have hthin := Thinner.evicts (s.unlink a) chances
  exact ⟨hthin.ok (h.unlink a), fun ha => (h.mem_unlink.1 (hthin.linked.subset ha)).1 rfl⟩

/-! ## Every act -/

/-- A touch that counts, before the demotions. -/
def moved (s : State α) (a : α) (now : ℤ) (pct : ℕ) : State α :=
  ((s.unlink a).setMark a (SegLru.touched (s.mark a) now pct)).link a

theorem touch_eq (most : ℕ) (s : State α) (a : α) (now : ℤ) (pct : ℕ) :
    s.touch most a now pct =
      if now - (s.mark a).lastAccess < 1 then s
      else if pct > 0 then
        (s.moved a now pct).demote (capFor (s.moved a now pct).linked.length pct) most
      else s.moved a now pct := rfl

omit [DecidableEq α] in
theorem Ok.entry (h : s.Ok) {a : α} (ha : a ∈ s.linked) (hhot : (s.mark a).hot = true) :
    (s.mark a).entry = true := by
  rcases mem_linked.1 ha with hp | hg
  · rw [h.cold a hp] at hhot
    cases hhot
  · exact (h.hot a hg).2

omit [DecidableEq α] in
/-- A touch labels only what may be labelled. -/
theorem Ok.touched_entry (h : s.Ok) {a : α} (ha : a ∈ s.linked) {now : ℤ} {pct : ℕ}
    (hhot : (SegLru.touched (s.mark a) now pct).hot = true) : (s.mark a).entry = true := by
  simp only [SegLru.touched] at hhot
  split_ifs at hhot
  rcases Bool.or_eq_true_iff.1 hhot with hhot | hentry
  · exact h.entry ha hhot
  · exact (Bool.and_eq_true_iff.1 hentry).1

theorem Ok.moved (h : s.Ok) {a : α} (ha : a ∈ s.linked) (now : ℤ) (pct : ℕ) :
    (s.moved a now pct).Ok ∧ (s.moved a now pct).linked.Perm s.linked := by
  have hout : a ∉ (s.unlink a).linked := fun hu => (h.mem_unlink.1 hu).1 rfl
  refine ⟨(h.unlink a).link hout (h.touched_entry ha), ?_⟩
  refine (linked_link _ a).trans ?_
  show (a :: (s.unlink a).linked).Perm s.linked
  rw [h.linked_unlink]
  exact (List.perm_cons_erase ha).symm

/-- **Every act keeps the invariant.** -/
theorem Ok.step (h : s.Ok) (most : ℕ) {act : Act α} (hfits : Fits s act) :
    (s.step most act).Ok := by
  cases act with
  | evict passes => exact (Thinner.evict s passes).ok h
  | remove a => exact h.unlink a
  | insert a entry now => exact h.link hfits nofun
  | store a chances entry now => exact (h.off a chances).1.link (h.off a chances).2 nofun
  | fail a chances =>
    refine (h.off a chances).1.relink (h.off a chances).2 ?_
    rw [(Thinner.evicts (s.unlink a) chances).mark]
    exact h.entry hfits
  | stamp a now =>
    have hlabel : ∀ b, ((s.setMark a { s.mark a with lastAccess := now }).mark b).hot =
          (s.mark b).hot ∧
        ((s.setMark a { s.mark a with lastAccess := now }).mark b).entry = (s.mark b).entry := by
      intro b
      by_cases hb : b = a
      · rw [hb, setMark_self]
        exact ⟨rfl, rfl⟩
      · rw [setMark_of_ne s hb]
        exact ⟨rfl, rfl⟩
    refine ⟨h.nodup, fun b hb => (hlabel b).1.trans (h.cold b hb), fun b hb => ?_⟩
    show ((s.setMark a _).mark b).hot = true ∧ ((s.setMark a _).mark b).entry = true
    rw [(hlabel b).1, (hlabel b).2]
    exact h.hot b hb
  | touch a now pct =>
    show (s.touch most a now pct).Ok
    rw [touch_eq]
    split_ifs
    · exact h
    · rw [(h.moved hfits now pct).1.demote_eq]
      exact (h.moved hfits now pct).1.cut _
    · exact (h.moved hfits now pct).1

/-! ## The cap -/

/-- The cap that an act holds `guarded` to. -/
def cap (s : State α) : Act α → ℕ
  | .touch _ _ pct => if pct = 0 then 0 else capFor s.linked.length pct
  | _ => 0

/-- A node that is moved is one more on `guarded`, and none more where that is off. -/
theorem moved_card (s : State α) (a : α) (now : ℤ) (pct : ℕ) :
    (s.moved a now pct).guarded.length ≤ s.guarded.length + if pct = 0 then 0 else 1 := by
  have herase : (s.guarded.erase a).length ≤ s.guarded.length := List.erase_sublist.length_le
  have hself := setMark_self (s.unlink a) a (SegLru.touched (s.mark a) now pct)
  unfold moved
  cases hhot : (SegLru.touched (s.mark a) now pct).hot with
  | true =>
    have hon : pct ≠ 0 := by
      rintro rfl
      cases hhot
    rw [link_hot _ (by rw [hself]; exact hhot), if_neg hon]
    exact Nat.succ_le_succ herase
  | false =>
    rw [link_cold _ (by rw [hself]; exact hhot)]
    exact herase.trans (Nat.le_add_right _ _)

/-- **No act leaves more guarded nodes than there were and than its cap allows.** -/
theorem Ok.step_card (h : s.Ok) {most : ℕ} (hmost : 0 < most) {act : Act α} (hfits : Fits s act) :
    (s.step most act).guarded.length ≤ max s.guarded.length (s.cap act) := by
  have hthin : ∀ {s' : State α}, Thinner s s' →
      s'.guarded.length ≤ max s.guarded.length (s.cap act) :=
    fun ht => ht.guarded.length_le.trans (le_max_left _ _)
  cases act with
  | evict passes => exact hthin (.evict s passes)
  | remove a => exact hthin (.unlink s a)
  | insert a entry now =>
    show ((s.setMark a (.start entry now)).link a).guarded.length ≤ _
    rw [link_cold _ (by rw [setMark_self]; rfl)]
    exact le_max_left _ _
  | store a chances entry now =>
    show ((((s.unlink a).evicts chances).setMark a (.start entry now)).link a).guarded.length ≤ _
    rw [link_cold _ (by rw [setMark_self]; rfl)]
    have hoff := (Thinner.unlink s a).trans (.evicts (s.unlink a) chances)
    exact hoff.guarded.length_le.trans (le_max_left _ _)
  | fail a chances =>
    have hoff := (Thinner.unlink s a).trans (.evicts (s.unlink a) chances)
    show (((s.unlink a).evicts chances).link a).guarded.length ≤ _
    cases hhot : (s.mark a).hot with
    | false =>
      rw [link_cold _ (by rw [hoff.mark]; exact hhot)]
      exact hoff.guarded.length_le.trans (le_max_left _ _)
    | true =>
      -- it was on `guarded`, so there is room
      rw [link_hot _ (by rw [hoff.mark]; exact hhot)]
      have hmem : a ∈ s.guarded := by
        refine (mem_linked.1 hfits).resolve_left fun hp => ?_
        rw [h.cold a hp] at hhot
        cases hhot
      have hlen : ((s.unlink a).evicts chances).guarded.length ≤ (s.guarded.erase a).length :=
        (Thinner.evicts (s.unlink a) chances).guarded.length_le
      rw [List.length_erase_of_mem hmem] at hlen
      have hpos := List.length_pos_of_mem hmem
      refine le_trans ?_ (le_max_left _ _)
      show ((s.unlink a).evicts chances).guarded.length + 1 ≤ _
      omega
  | stamp a now => exact le_max_left _ _
  | touch a now pct =>
    have hmoved := h.moved hfits now pct
    have hcard := moved_card s a now pct
    show (s.touch most a now pct).guarded.length ≤ _
    rw [touch_eq]
    split_ifs with hgate hpct
    · exact le_max_left _ _
    · rw [hmoved.1.demote_eq, hmoved.2.length_eq]
      rw [if_neg (Nat.pos_iff_ne_zero.1 hpct)] at hcard
      have hcap : s.cap (.touch a now pct) = capFor s.linked.length pct :=
        if_neg (Nat.pos_iff_ne_zero.1 hpct)
      rw [hcap]
      show ((s.moved a now pct).guarded.take _).length ≤ _
      rw [List.length_take]
      unfold surplus
      omega
    · rw [if_pos (Nat.eq_zero_of_not_pos hpct)] at hcard
      exact hcard.trans (le_max_left _ _)

/-! ## What a place on `guarded` takes -/

/-- The times of the touches of each node that counted, since it began, the last one first. -/
abbrev History (α : Type*) := α → List ℤ

/-- The history after an act. -/
def note (s : State α) (h : History α) : Act α → History α
  | .insert a _ _ | .store a _ _ _ => Function.update h a []
  | .touch a now _ =>
      if now - (s.mark a).lastAccess < 1 then h else Function.update h a (now :: h a)
  | .evict _ | .remove _ | .fail _ _ | .stamp _ _ => h

/-- **A place on `guarded` is earned** by two touches since the node began, and so is the
next promotion by one. -/
structure Earned (s : State α) (h : History α) : Prop where
  once : ∀ a ∈ s.linked, (s.mark a).promotable = true → 1 ≤ (h a).length
  twice : ∀ a ∈ s.linked, (s.mark a).hot = true → 2 ≤ (h a).length

/-- The touches came at different times, the last no later than the node says. -/
structure Timely (s : State α) (h : History α) : Prop where
  sorted : ∀ a ∈ s.linked, (h a).Pairwise (· > ·)
  bound : ∀ a ∈ s.linked, ∀ t ∈ h a, t ≤ (s.mark a).lastAccess

/-- What an act may leave of a node that is linked after it: its mark and its history.  Its
label may be lost besides. -/
inductive Marked (s : State α) (h : History α) (act : Act α) (a : α) : Mark → List ℤ → Prop
  | kept (ha : a ∈ s.linked) : Marked s h act a (s.mark a) (h a)
  | fresh (entry : Bool) (now : ℤ) (hact : act.time = some now) :
      Marked s h act a (.start entry now) []
  | stamped (ha : a ∈ s.linked) (now : ℤ) (hact : act = .stamp a now) :
      Marked s h act a { s.mark a with lastAccess := now } (h a)
  | touched (ha : a ∈ s.linked) (now : ℤ) (pct : ℕ) (hgate : (s.mark a).lastAccess < now)
      (hact : act.time = some now) :
      Marked s h act a (SegLru.touched (s.mark a) now pct) (now :: h a)

/-- A node is put on its queue, after others may have left. -/
theorem Thinner.link (hthin : Thinner s s') (a : α) (m : Mark) {b : α}
    (hb : b ∈ ((s'.setMark a m).link a).linked) :
    b = a ∧ ((s'.setMark a m).link a).mark b = m ∨
      b ≠ a ∧ b ∈ s.linked ∧ ((s'.setMark a m).link a).mark b = s.mark b := by
  rw [mark_link]
  have hmem := (linked_link (s'.setMark a m) a).mem_iff.1 hb
  by_cases hba : b = a
  · rw [hba, setMark_self]
    exact Or.inl ⟨rfl, rfl⟩
  · rw [setMark_of_ne s' hba, hthin.mark]
    exact Or.inr ⟨hba, hthin.linked.subset ((List.mem_cons.1 hmem).resolve_left hba), rfl⟩

/-- **What an act does to one node.** -/
theorem Ok.marked_step (hok : s.Ok) (h : History α) (most : ℕ) {act : Act α} (hfits : Fits s act)
    {b : α} (hb : b ∈ (s.step most act).linked) :
    ∃ m, Marked s h act b m (s.note h act b) ∧
      ((s.step most act).mark b = m ∨ (s.step most act).mark b = m.cool) := by
  have hthin : ∀ {s' : State α}, Thinner s s' → b ∈ s'.linked → ∃ m, Marked s h act b m (h b) ∧
      (s'.mark b = m ∨ s'.mark b = m.cool) := fun ht hb' =>
    ⟨_, .kept (ht.linked.subset hb'), Or.inl (congrFun ht.mark b)⟩
  have hbegun : ∀ {s' : State α} {a : α} {entry : Bool} {now : ℤ}, act.time = some now →
      Thinner s s' → b ∈ ((s'.setMark a (.start entry now)).link a).linked →
        ∃ m, Marked s h act b m (Function.update h a [] b) ∧
          (((s'.setMark a (.start entry now)).link a).mark b = m ∨
            ((s'.setMark a (.start entry now)).link a).mark b = m.cool) := by
    intro s' a entry now htime ht hb'
    rcases ht.link a _ hb' with ⟨rfl, hm⟩ | ⟨hba, hmem, hm⟩
    · rw [Function.update_self]
      exact ⟨_, .fresh entry now htime, Or.inl hm⟩
    · rw [Function.update_of_ne hba]
      exact ⟨_, .kept hmem, Or.inl hm⟩
  cases act with
  | evict passes => exact hthin (.evict s passes) hb
  | remove a => exact hthin (.unlink s a) hb
  | insert a entry now => exact hbegun rfl ⟨List.Sublist.refl _, List.Sublist.refl _, rfl⟩ hb
  | store a chances entry now =>
    exact hbegun rfl ((Thinner.unlink s a).trans (.evicts (s.unlink a) chances)) hb
  | fail a chances =>
    have hoff := (Thinner.unlink s a).trans (.evicts (s.unlink a) chances)
    have hmem := (linked_link ((s.unlink a).evicts chances) a).mem_iff.1 hb
    refine ⟨_, .kept ?_, Or.inl ?_⟩
    · rcases List.mem_cons.1 hmem with rfl | hmem
      · exact hfits
      · exact hoff.linked.subset hmem
    · show (((s.unlink a).evicts chances).link a).mark b = s.mark b
      rw [mark_link, hoff.mark]
  | stamp a now =>
    show ∃ m, Marked s h (.stamp a now) b m (h b) ∧ ((s.setMark a _).mark b = m ∨ _)
    by_cases hba : b = a
    · subst hba
      rw [setMark_self]
      exact ⟨_, .stamped hfits now rfl, Or.inl rfl⟩
    · rw [setMark_of_ne s hba]
      exact ⟨_, .kept hb, Or.inl rfl⟩
  | touch a now pct =>
    have hmoved := hok.moved hfits now pct
    have hlast : ∀ {s' : State α}, b ∈ s'.linked → (s.moved a now pct).linked.Perm s'.linked →
        (s'.mark b = (s.moved a now pct).mark b ∨ s'.mark b = ((s.moved a now pct).mark b).cool) →
        ¬ now - (s.mark a).lastAccess < 1 →
        ∃ m, Marked s h (.touch a now pct) b m (Function.update h a (now :: h a) b) ∧
          (s'.mark b = m ∨ s'.mark b = m.cool) := by
      intro s' hb' hperm hmark hgate
      rcases (Thinner.unlink s a).link a _ (hperm.mem_iff.2 hb') with ⟨rfl, hm⟩ | ⟨hba, hmem, hm⟩
      · rw [Function.update_self]
        refine ⟨_, .touched hfits now pct ?_ rfl, hm ▸ hmark⟩
        omega
      · rw [Function.update_of_ne hba]
        exact ⟨_, .kept hmem, hm ▸ hmark⟩
    have hb' : b ∈ (s.touch most a now pct).linked := hb
    show ∃ m, Marked s h (.touch a now pct) b m ((if now - (s.mark a).lastAccess < 1 then h
        else Function.update h a (now :: h a)) b) ∧
      ((s.touch most a now pct).mark b = m ∨ (s.touch most a now pct).mark b = m.cool)
    rw [touch_eq] at hb' ⊢
    by_cases hgate : now - (s.mark a).lastAccess < 1
    · rw [if_pos hgate] at hb' ⊢
      rw [if_pos hgate]
      exact ⟨_, .kept hb', Or.inl rfl⟩
    · rw [if_neg hgate] at hb' ⊢
      rw [if_neg hgate]
      split_ifs at hb' ⊢ with hpct
      · rw [hmoved.1.demote_eq] at hb' ⊢
        refine hlast hb' (linked_cut _ _).symm ?_ hgate
        show (if _ then _ else _) = _ ∨ (if _ then _ else _) = _
        split_ifs
        · exact Or.inr rfl
        · exact Or.inl rfl
      · exact hlast hb' (List.Perm.refl _) (Or.inl rfl) hgate

/-- **Every act keeps what places on `guarded` have taken.** -/
theorem Earned.step (hok : s.Ok) {h : History α} (he : Earned s h) (most : ℕ) {act : Act α}
    (hfits : Fits s act) : Earned (s.step most act) (s.note h act) := by
  have hone : ∀ b ∈ (s.step most act).linked,
      (((s.step most act).mark b).promotable = true → 1 ≤ (s.note h act b).length) ∧
        (((s.step most act).mark b).hot = true → 2 ≤ (s.note h act b).length) := by
    intro b hb
    obtain ⟨m, hmarked, hm⟩ := hok.marked_step h most hfits hb
    have hpromotable : ((s.step most act).mark b).promotable = m.promotable := by
      rcases hm with hm | hm <;> rw [hm]
      rfl
    have hhot : ((s.step most act).mark b).hot = true → m.hot = true := by
      rcases hm with hm | hm
      · rw [hm]
        exact id
      · rw [hm]
        nofun
    rw [hpromotable]
    generalize s.note h act b = times at hmarked
    cases hmarked with
    | kept ha => exact ⟨he.once b ha, fun hb' => he.twice b ha (hhot hb')⟩
    | fresh entry now htime => exact ⟨nofun, fun hb' => absurd (hhot hb') nofun⟩
    | stamped ha now hact => exact ⟨he.once b ha, fun hb' => he.twice b ha (hhot hb')⟩
    | touched ha now pct hgate htime =>
      refine ⟨fun _ => Nat.succ_le_succ (Nat.zero_le _), fun hb' => Nat.succ_le_succ ?_⟩
      have hlabel := hhot hb'
      simp only [SegLru.touched] at hlabel
      split_ifs at hlabel
      rcases Bool.or_eq_true_iff.1 hlabel with hold | hnew
      · exact (Nat.le_succ 1).trans (he.twice b ha hold)
      · exact he.once b ha (Bool.and_eq_true_iff.1 hnew).2
  exact ⟨fun b hb => (hone b hb).1, fun b hb => (hone b hb).2⟩

/-- No node was touched after `now`. -/
def Recent (s : State α) (now : ℤ) : Prop := ∀ a ∈ s.linked, (s.mark a).lastAccess ≤ now

/-- An act at a time leaves no node that was touched after it. -/
theorem Recent.step (hok : s.Ok) {now : ℤ} (hr : Recent s now) (most : ℕ) {act : Act α}
    (hfits : Fits s act) (htime : act.time = none ∨ act.time = some now) :
    Recent (s.step most act) now := by
  intro b hb
  have hat : ∀ time, act.time = some time → time ≤ now := by
    intro time hact
    rcases htime with hnone | hnow
    · rw [hnone] at hact
      cases hact
    · rw [hnow] at hact
      exact (Option.some.inj hact).ge
  obtain ⟨m, hmarked, hm⟩ := hok.marked_step (fun _ => []) most hfits hb
  have hlast : ((s.step most act).mark b).lastAccess = m.lastAccess := by
    rcases hm with hm | hm <;> rw [hm]
    rfl
  rw [hlast]
  generalize s.note (fun _ => []) act b = times at hmarked
  cases hmarked with
  | kept ha => exact hr b ha
  | fresh entry time hact => exact hat time hact
  | stamped ha time hact => exact hat time (hact ▸ rfl)
  | touched ha time pct hgate hact => exact hat time hact

/-- **Touches that count come at different times**, if no time of a node is set back. -/
theorem Timely.step (hok : s.Ok) {h : History α} (ht : Timely s h) (most : ℕ) {act : Act α}
    (hfits : Fits s act) (hforward : ∀ a now, act = .stamp a now → (s.mark a).lastAccess ≤ now) :
    Timely (s.step most act) (s.note h act) := by
  have hone : ∀ b ∈ (s.step most act).linked, (s.note h act b).Pairwise (· > ·) ∧
      ∀ t ∈ s.note h act b, t ≤ ((s.step most act).mark b).lastAccess := by
    intro b hb
    obtain ⟨m, hmarked, hm⟩ := hok.marked_step h most hfits hb
    have hlast : ((s.step most act).mark b).lastAccess = m.lastAccess := by
      rcases hm with hm | hm <;> rw [hm]
      rfl
    rw [hlast]
    generalize hnote : s.note h act b = times at hmarked
    cases hmarked with
    | kept ha => exact ⟨ht.sorted b ha, ht.bound b ha⟩
    | fresh entry now htime => exact ⟨List.Pairwise.nil, nofun⟩
    | touched ha now pct hgate htime =>
      -- the gate is what tells the new touch from the ones before it
      refine ⟨List.pairwise_cons.2 ⟨fun t hmem => ?_, ht.sorted b ha⟩, fun t hmem => ?_⟩
      · exact (ht.bound b ha t hmem).trans_lt hgate
      · rcases List.mem_cons.1 hmem with rfl | hmem
        · exact le_rfl
        · exact (ht.bound b ha t hmem).trans hgate.le
    | stamped ha now hact =>
      exact ⟨ht.sorted b ha, fun t hmem => (ht.bound b ha t hmem).trans (hforward b now hact)⟩
  exact ⟨fun b hb => (hone b hb).1, fun b hb => (hone b hb).2⟩

end State

/-! ## The plain LRU -/

/-- One queue, head first, and when each node was touched last. -/
@[ext] structure Plain (α : Type*) where
  order : List α
  last : α → ℤ

namespace Plain

def evict (p : Plain α) (passes : α → Bool) : Plain α :=
  match victim passes p.order with
  | none => p
  | some v => { p with order := p.order.erase v }

/-- A node to the head, from wherever it was, with its time. -/
def front (p : Plain α) (a : α) (now : ℤ) : Plain α :=
  ⟨a :: p.order.erase a, Function.update p.last a now⟩

/-- The acts on one queue: shares and labels are not looked at. -/
def step (p : Plain α) : Act α → Plain α
  | .evict passes => p.evict passes
  | .remove a => { p with order := p.order.erase a }
  | .insert a _ now => p.front a now
  | .store a chances _ now =>
      (chances.foldl evict { p with order := p.order.erase a }).front a now
  | .fail a chances =>
      let rest := chances.foldl evict { p with order := p.order.erase a }
      { rest with order := a :: rest.order }
  | .stamp a now => { p with last := Function.update p.last a now }
  | .touch a now _ => if now - p.last a < 1 then p else p.front a now

end Plain

/-- The act brings no share. -/
def Act.Off : Act α → Prop
  | .touch _ _ pct => pct = 0
  | _ => True

namespace State

/-- The one queue of a state whose other queue is empty. -/
def plain (s : State α) : Plain α := ⟨s.probation, fun a => (s.mark a).lastAccess⟩

/-- A state that is one queue. -/
def IsPlain (s : State α) (p : Plain α) : Prop := s.guarded = [] ∧ s.plain = p

omit [DecidableEq α] in
theorem queue_plain (hflat : s.guarded = []) : s.queue = s.plain.order := by
  unfold queue
  split_ifs with hnil
  · exact hflat.trans hnil.symm
  · rfl

theorem isPlain_unlink (hflat : s.guarded = []) (a : α) :
    (s.unlink a).IsPlain { s.plain with order := s.plain.order.erase a } := by
  refine ⟨?_, rfl⟩
  show s.guarded.erase a = []
  rw [hflat]
  rfl

/-- **The victim of a plain state is the plain queue's.** -/
theorem isPlain_evict (hflat : s.guarded = []) (passes : α → Bool) :
    (s.evict passes).IsPlain (s.plain.evict passes) := by
  unfold evict Plain.evict
  rw [queue_plain hflat]
  cases victim passes s.plain.order with
  | none => exact ⟨hflat, rfl⟩
  | some v => exact isPlain_unlink hflat v

theorem isPlain_evicts (hflat : s.guarded = []) (chances : List (α → Bool)) :
    (s.evicts chances).IsPlain (chances.foldl Plain.evict s.plain) := by
  induction chances generalizing s with
  | nil => exact ⟨hflat, rfl⟩
  | cons passes chances ih =>
    obtain ⟨hnone, hplain⟩ := isPlain_evict hflat passes
    have hrest := ih hnone
    rwa [hplain] at hrest

/-- A node is off the queue while others are evicted. -/
theorem isPlain_off (hflat : s.guarded = []) (a : α) (chances : List (α → Bool)) :
    ((s.unlink a).evicts chances).IsPlain
      (chances.foldl Plain.evict { s.plain with order := s.plain.order.erase a }) := by
  obtain ⟨hnone, hplain⟩ := isPlain_unlink hflat a
  have hrest := isPlain_evicts hnone chances
  rwa [hplain] at hrest

/-- A node that is off the queue goes to its head, unlabelled. -/
theorem isPlain_link (hflat : s.guarded = []) {a : α} (ha : a ∉ s.linked) {m : Mark}
    (hm : m.hot = false) :
    ((s.setMark a m).link a).IsPlain (s.plain.front a m.lastAccess) := by
  rw [link_cold _ (by rw [setMark_self]; exact hm)]
  refine ⟨hflat, Plain.ext ?_ ?_⟩
  · show a :: s.probation = a :: s.probation.erase a
    rw [List.erase_of_not_mem fun hp => ha (mem_linked.2 (Or.inl hp))]
  · funext b
    show ((s.setMark a m).mark b).lastAccess = Function.update s.plain.last a m.lastAccess b
    by_cases hb : b = a
    · rw [hb, setMark_self, Function.update_self]
    · rw [setMark_of_ne s hb, Function.update_of_ne hb]
      rfl

/-- **Without a share, the two queues are the plain LRU.** -/
theorem Ok.plain_step (h : s.Ok) (hflat : s.guarded = []) (most : ℕ) {act : Act α}
    (hoff : act.Off) (hfits : Fits s act) : (s.step most act).IsPlain (s.plain.step act) := by
  cases act with
  | evict passes => exact isPlain_evict hflat passes
  | remove a => exact isPlain_unlink hflat a
  | insert a entry now => exact isPlain_link hflat hfits rfl
  | store a chances entry now =>
    obtain ⟨hnone, hplain⟩ := isPlain_off hflat a chances
    have hlink := isPlain_link hnone (h.off a chances).2 (m := .start entry now) rfl
    rwa [hplain] at hlink
  | fail a chances =>
    obtain ⟨hnone, hplain⟩ := isPlain_off hflat a chances
    have hcold : (((s.unlink a).evicts chances).mark a).hot = false := by
      rw [(Thinner.evicts (s.unlink a) chances).mark]
      refine h.cold a ((mem_linked.1 hfits).resolve_right fun hg => ?_)
      rw [hflat] at hg
      cases hg
    show (((s.unlink a).evicts chances).link a).IsPlain _
    rw [link_cold _ hcold]
    refine ⟨hnone, ?_⟩
    rw [Plain.step, ← hplain]
    rfl
  | stamp a now =>
    refine ⟨hflat, Plain.ext rfl (funext fun b => ?_)⟩
    show ((s.setMark a { s.mark a with lastAccess := now }).mark b).lastAccess =
      Function.update s.plain.last a now b
    by_cases hb : b = a
    · rw [hb, setMark_self, Function.update_self]
    · rw [setMark_of_ne s hb, Function.update_of_ne hb]
      rfl
  | touch a now pct =>
    have hpct : pct = 0 := hoff
    subst hpct
    show (s.touch most a now 0).IsPlain (if now - (s.mark a).lastAccess < 1 then s.plain
      else s.plain.front a now)
    unfold touch
    by_cases hgate : now - (s.mark a).lastAccess < 1
    · rw [if_pos hgate, if_pos hgate]
      exact ⟨hflat, rfl⟩
    · rw [if_neg hgate, if_neg hgate]
      obtain ⟨hnone, hplain⟩ := isPlain_unlink hflat a
      have hout : a ∉ (s.unlink a).linked := fun hu => (h.mem_unlink.1 hu).1 rfl
      have hlink := isPlain_link hnone hout (m := touched (s.mark a) now 0) rfl
      rw [hplain] at hlink
      have hfront : Plain.front { s.plain with order := s.plain.order.erase a } a now =
          s.plain.front a now := by
        have hp : s.probation.Nodup := (List.nodup_append.1 h.nodup).1
        refine Plain.ext ?_ rfl
        show a :: (s.probation.erase a).erase a = a :: s.probation.erase a
        rw [List.erase_of_not_mem fun ha => (hp.mem_erase_iff.1 ha).1 rfl]
      rw [← hfront]
      exact hlink

end State

/-! ## Acts in a row -/

/-- The act only takes nodes off the queues. -/
def Act.Thins : Act α → Prop
  | .evict _ | .remove _ => True
  | _ => False

namespace State

omit [DecidableEq α] in
theorem Thinner.refl (s : State α) : Thinner s s :=
  ⟨List.Sublist.refl _, List.Sublist.refl _, rfl⟩

/-- Acts that only take nodes off the queues leave a thinner state. -/
theorem Thinner.acts (most : ℕ) (s : State α) {acts : List (Act α)}
    (hthins : ∀ act ∈ acts, act.Thins) : Thinner s (Run.after (step most) s acts) := by
  induction acts generalizing s with
  | nil => exact .refl s
  | cons act acts ih =>
    have hrest := fun s' => ih s' fun act' hact' => hthins act' (List.mem_cons_of_mem _ hact')
    have hact := hthins act (List.mem_cons_self ..)
    cases act with
    | evict passes => exact (Thinner.evict s passes).trans (hrest _)
    | remove a => exact (Thinner.unlink s a).trans (hrest _)
    | insert | store | fail | stamp | touch => exact hact.elim

/-- They ask nothing. -/
theorem fits_of_thins (most : ℕ) (s : State α) {acts : List (Act α)}
    (hthins : ∀ act ∈ acts, act.Thins) : Run.Along (step most) Fits s acts := by
  induction acts generalizing s with
  | nil => trivial
  | cons act acts ih =>
    refine ⟨?_, ih _ fun act' hact' => hthins act' (List.mem_cons_of_mem _ hact')⟩
    have hact := hthins act (List.mem_cons_self ..)
    cases act with
    | evict | remove => trivial
    | insert | store | fail | stamp | touch => exact hact.elim

omit [DecidableEq α] in
theorem Earned.thin {h : History α} (he : Earned s h) (hthin : Thinner s s') : Earned s' h :=
  ⟨fun a ha hp => he.once a (hthin.linked.subset ha) (by rwa [hthin.mark] at hp),
    fun a ha hhot => he.twice a (hthin.linked.subset ha) (by rwa [hthin.mark] at hhot)⟩

omit [DecidableEq α] in
theorem Timely.thin {h : History α} (ht : Timely s h) (hthin : Thinner s s') : Timely s' h :=
  ⟨fun a ha => ht.sorted a (hthin.linked.subset ha), fun a ha t hmem => by
    rw [hthin.mark]
    exact ht.bound a (hthin.linked.subset ha) t hmem⟩

omit [DecidableEq α] in
theorem Recent.thin {now : ℤ} (hr : Recent s now) (hthin : Thinner s s') : Recent s' now :=
  fun a ha => by
    rw [hthin.mark]
    exact hr a (hthin.linked.subset ha)

omit [DecidableEq α] in
/-- Only the histories of linked nodes count. -/
theorem Earned.congr {h h' : History α} (he : Earned s h) (heq : ∀ a ∈ s.linked, h' a = h a) :
    Earned s h' :=
  ⟨fun a ha => heq a ha ▸ he.once a ha, fun a ha => heq a ha ▸ he.twice a ha⟩

omit [DecidableEq α] in
theorem Timely.congr {h h' : History α} (ht : Timely s h) (heq : ∀ a ∈ s.linked, h' a = h a) :
    Timely s h' :=
  ⟨fun a ha => heq a ha ▸ ht.sorted a ha, fun a ha => heq a ha ▸ ht.bound a ha⟩

/-- **Without a share, the two queues stay the plain LRU** over acts in a row. -/
theorem Ok.plain_run (h : s.Ok) (hflat : s.guarded = []) (most : ℕ) {acts : List (Act α)}
    (hoff : ∀ act ∈ acts, act.Off) (hfits : Run.Along (State.step most) Fits s acts) :
    (Run.after (State.step most) s acts).IsPlain (Run.after Plain.step s.plain acts) := by
  induction acts generalizing s with
  | nil => exact ⟨hflat, rfl⟩
  | cons act acts ih =>
    obtain ⟨hfit, hrest⟩ := hfits
    obtain ⟨hnone, hplain⟩ :=
      h.plain_step hflat most (hoff act (List.mem_cons_self ..)) hfit
    have htail := ih (h.step most hfit) hnone
      (fun act' hact' => hoff act' (List.mem_cons_of_mem _ hact')) hrest
    rwa [hplain] at htail

end State

end SegLru
end CacheTurbo
