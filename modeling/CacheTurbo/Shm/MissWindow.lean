/-
# Counting misses within a window

With `min_uses_window` set, `shm_count_miss_locked` restarts the count of a key
when the node was not accessed for longer than the window.  It compares with
`last_access`, and a count does not move that stamp: it stays what it was when the
counter node was made.  Once the node is older than the window every miss restarts
the count, so a key that keeps recurring is refused from then on
(`Counting.miss`).

A run is about one key: counts of its misses, and any operations on other keys.
`verdicts` lists what the counts answered and `expected` what they answer by the
age of the node; the main result compares that with the window the directive
promises.
-/

import CacheTurbo.Shm.Lasting

namespace CacheTurbo
namespace Shm

variable {held pending : List BlobId} {z z' : Zone} {k : KeyHash} {N : ℕ} {W : Time}

/-- The operation counts a miss of `k`, with these settings. -/
def ZoneOp.missOf (k : KeyHash) (N : ℕ) (W : Time) : ZoneOp → Bool
  | .countMiss k' _ minUses window | .resolveMiss k' _ minUses window _ =>
      k' == k && minUses == N && window == W
  | _ => false

/-- The verdict of the count in the answer to a miss. -/
def Answer.missRc : Answer → Rc
  | .code rc | .resolved rc _ => rc
  | _ => .ok

/-- The times of the misses of `k` in a run. -/
def missTimes (k : KeyHash) (N : ℕ) (W : Time) (run : List (Time × ZoneOp)) : List Time :=
  (run.filter fun e => e.2.missOf k N W).map Prod.fst

/-- The times and verdicts of the misses of `k` in a run. -/
def verdicts (rb : Rbtree) (k : KeyHash) (N : ℕ) (W : Time) :
    Zone → List (Time × ZoneOp) → List (Time × Rc)
  | _, [] => []
  | z, e :: run =>
      let r := exec rb z e.1 e.2
      if e.2.missOf k N W then (e.1, r.2.missRc) :: verdicts rb k N W r.1 run
      else verdicts rb k N W r.1 run

/-- A lease on the node of `k` is live. -/
def leaseLive (z : Zone) (k : KeyHash) (now : Time) : Bool :=
  (lookup z k).any fun a => (z.mem a).refreshing && decide (now < (z.mem a).refreshLockUntil)

/-- A step of a run about `k`: a miss of `k` without a live lease, for which there is a
counter node or room for one, or an operation on something else; and the node of
`k` stays in place. -/
def MissStep (rb : Rbtree) (k : KeyHash) (N : ℕ) (W : Time) (z : Zone) (e : Time × ZoneOp) : Prop :=
  (if e.2.missOf k N W then
      leaseLive z k e.1 = false ∧
        ((lookup z k).isSome ∨ (allocEvict rb z e.1 sizeofNode).2.isSome)
    else e.2.key ≠ some k) ∧
    ∀ a, lookup z k = some a → lookup (exec rb z e.1 e.2).1 k = some a

/-- The key has a counter node, made at the time `born`, with `count` misses. -/
structure Counting (z : Zone) (k : KeyHash) (born : Time) (count : ℕ) (a : Addr) : Prop where
  found : lookup z k = some a
  kind : (z.mem a).kind = .counter
  stamp : (z.mem a).lastAccess = born
  count : (z.mem a).missCount = count

/-- The count after one more miss. -/
def counted (born : Time) (count : ℕ) (W now : Time) : ℕ := if now - born > W then 1 else count + 1

/-- The verdict on a count. -/
def verdict (N count : ℕ) : Rc := if N ≤ count then .ok else .declined

variable (rb : Rbtree)

/-- A counter node holds no body. -/
theorem Counting.len {born : Time} {count : ℕ} {a : Addr} (hc : Counting z k born count a)
    (h : Wf held pending [] [] [] z) : (z.mem a).len = 0 := by
  obtain ⟨ha, -⟩ := h.queues.lookup_resident hc.found
  have hok := h.queues.shape a ha
  unfold NodeOk at hok
  rw [if_pos hc.kind] at hok
  exact hok.2.1

/-- A field write that keeps what `Counting` reads, but for the count. -/
theorem Counting.write {born : Time} {count : ℕ} {a : Addr} (hc : Counting z k born count a)
    (h : Wf held pending [] [] [] z) {f : Node → Node} {count' : ℕ}
    (hshape : (f (z.mem a)).shape = (z.mem a).shape)
    (hstamp : (f (z.mem a)).lastAccess = (z.mem a).lastAccess)
    (hcount : (f (z.mem a)).missCount = count') : Counting (z.setNode a f) k born count' a where
  found := (lookup_setNode h a hshape k).trans hc.found
  kind := by
    rw [setNode_mem_self]
    exact (congrArg (fun s => s.2.1) hshape).trans hc.kind
  stamp := by
    rw [setNode_mem_self]
    exact hstamp.trans hc.stamp
  count := by
    rw [setNode_mem_self]
    exact hcount

/-- **A count on a counter node** leaves its stamp. -/
theorem Counting.countMiss {born : Time} {count : ℕ} {a : Addr} (hc : Counting z k born count a)
    (h : Wf held pending [] [] [] z) (hW : 0 < W) (hash : UInt32) {now : Time}
    (hlease : leaseLive z k now = false) :
    let r := countMissLocked rb z k hash N W (lookup z k) now
    Counting r.1 k born (counted born count W now) a ∧
      r.2 = verdict N (counted born count W now) ∧ leaseLive r.1 k now = false := by
  have hlen := hc.len h
  have hentry : ¬((z.mem a).kind = .entry ∧ (z.mem a).len > 0) := by
    rw [hc.kind]
    simp
  have hlive : ¬((z.mem a).refreshing = true ∧ now < (z.mem a).refreshLockUntil) := by
    unfold leaseLive at hlease
    rw [hc.found] at hlease
    simpa using hlease
  have hm : (if W > 0 ∧ now - (z.mem a).lastAccess > W then 0 else (z.mem a).missCount) + 1 =
      counted born count W now := by
    unfold counted
    rw [hc.stamp, hc.count]
    by_cases hold : now - born > W
    · rw [if_pos ⟨hW, hold⟩, if_pos hold]
    · rw [if_neg fun hb => hold hb.2, if_neg hold]
  unfold countMissLocked
  rw [hc.found]
  dsimp only
  rw [if_neg hentry, if_neg hlive, hm]
  have hto := hc.write h (f := fun n => { n with missCount := counted born count W now }) rfl rfl rfl
  refine ⟨hto, ?_, ?_⟩
  · unfold verdict
    simp
  · unfold leaseLive
    rw [hto.found, Option.any_some, setNode_mem_self]
    simpa using hlive

/-- A claim after a count takes the lease and leaves the counter. -/
theorem Counting.claim {born : Time} {count : ℕ} {a : Addr} (hc : Counting z k born count a)
    (h : Wf held pending [] [] [] z) (hash : UInt32) (lockTtl now : Time) (pin : Bool) :
    Counting (claimLocked rb z hash k lockTtl (lookup z k) now pin).1 k born count a := by
  have hlen := hc.len h
  unfold claimLocked
  rw [hc.found]
  dsimp only
  rw [if_neg (by rw [hlen]; simp)]
  split_ifs
  · exact hc
  · have hseq : Counting { z with ownerSeq := z.ownerSeq + 1 } k born count a :=
      ⟨hc.found, hc.kind, hc.stamp, hc.count⟩
    have hwf : Wf held pending [] [] [] { z with ownerSeq := z.ownerSeq + 1 } := h.of_eq rfl rfl
    dsimp only
    exact hseq.write hwf (f := fun n => { n with
      refreshing := true, refreshLockUntil := now + lockTtl, refreshOwner := z.ownerSeq + 1 })
      rfl rfl hc.count

/-- The first miss of a key makes its counter node. -/
theorem Counting.first (h : Wf held pending [] [] [] z) (hnone : lookup z k = none) (hN : 2 ≤ N)
    (hash : UInt32) {now : Time} (hroom : (allocEvict rb z now sizeofNode).2.isSome) :
    let r := countMissLocked rb z k hash N W (lookup z k) now
    (∃ a, Counting r.1 k now 1 a) ∧ r.2 = .declined := by
  obtain ⟨hwf, -⟩ := h.countMissLocked rb k hash N W now
  unfold countMissLocked at hwf ⊢
  rw [hnone] at hwf ⊢
  dsimp only at hwf ⊢
  cases ha : allocEvict rb z now sizeofNode with
  | mk z₁ p =>
    rw [ha] at hwf hroom
    cases p with
    | none => simp at hroom
    | some a =>
      dsimp only at hwf ⊢
      have hno : ¬((N : ℤ) ≤ 1) := by omega
      rw [if_neg hno]
      refine ⟨⟨a, ?_, ?_, ?_, ?_⟩, rfl⟩
      · rw [hwf.queues.lookup_iff]
        refine ⟨Or.inl (List.mem_cons_self ..), ?_⟩
        rw [createNode_mem]
        rfl
      · rw [createNode_mem]
        rfl
      · rw [createNode_mem]
        rfl
      · rw [createNode_mem]

/-- Only an operation that counts a miss of `k` with these settings is one. -/
theorem ZoneOp.missOf_cases {op : ZoneOp} (h : op.missOf k N W = true) :
    (∃ hash, op = .countMiss k hash N W) ∨ ∃ hash lockTtl, op = .resolveMiss k hash N W lockTtl := by
  cases op with
  | countMiss k' hash minUses window =>
    simp only [ZoneOp.missOf, Bool.and_eq_true, beq_iff_eq] at h
    obtain ⟨⟨rfl, rfl⟩, rfl⟩ := h
    exact Or.inl ⟨hash, rfl⟩
  | resolveMiss k' hash minUses window lockTtl =>
    simp only [ZoneOp.missOf, Bool.and_eq_true, beq_iff_eq] at h
    obtain ⟨⟨rfl, rfl⟩, rfl⟩ := h
    exact Or.inr ⟨hash, lockTtl, rfl⟩
  | _ => simp [ZoneOp.missOf] at h

/-- **A miss of a key that has a counter node.** -/
theorem Counting.miss {born : Time} {count : ℕ} {a : Addr} (hc : Counting z k born count a)
    (h : Wf held pending [] [] [] z) (hW : 0 < W) {now : Time} {op : ZoneOp}
    (hop : op.missOf k N W = true) (hlease : leaseLive z k now = false) :
    let r := exec rb z now op
    Counting r.1 k born (counted born count W now) a ∧
      r.2.missRc = verdict N (counted born count W now) := by
  obtain ⟨hash, rfl⟩ | ⟨hash, lockTtl, rfl⟩ := ZoneOp.missOf_cases hop
  · obtain ⟨hto, hrc, -⟩ := hc.countMiss rb h (N := N) hW hash hlease
    exact ⟨hto, hrc⟩
  · obtain ⟨hto, hrc, -⟩ := hc.countMiss rb h (N := N) hW hash hlease
    obtain ⟨hwf, -⟩ := h.countMissLocked rb k hash N W now
    have hctn := lookup_after_count rb h k hash N W now
    show Counting (resolveMiss rb z k hash now N W lockTtl).1 k born _ a ∧
      (resolveMiss rb z k hash now N W lockTtl).2.1 = _
    unfold resolveMiss
    dsimp only at hto hrc hctn ⊢
    cases hr : countMissLocked rb z k hash N W (lookup z k) now with
    | mk z₁ rc =>
      rw [hr] at hto hrc hwf hctn
      dsimp only at hrc hctn
      cases rc with
      | declined => exact ⟨hto, hrc⟩
      | ok | error | again =>
        dsimp only
        rw [hctn]
        exact ⟨hto.claim rb hwf hash lockTtl now true, hrc⟩

/-- **The first miss of a key.** -/
theorem first_miss (h : Wf held pending [] [] [] z) (hnone : lookup z k = none) (hN : 2 ≤ N)
    {now : Time} {op : ZoneOp} (hop : op.missOf k N W = true)
    (hroom : (allocEvict rb z now sizeofNode).2.isSome) :
    let r := exec rb z now op
    (∃ a, Counting r.1 k now 1 a) ∧ r.2.missRc = .declined := by
  obtain ⟨hash, rfl⟩ | ⟨hash, lockTtl, rfl⟩ := ZoneOp.missOf_cases hop
  · exact Counting.first rb h hnone hN hash hroom
  · obtain ⟨hto, hrc⟩ := Counting.first rb (W := W) h hnone hN hash hroom
    show (∃ a, Counting (resolveMiss rb z k hash now N W lockTtl).1 k now 1 a) ∧
      (resolveMiss rb z k hash now N W lockTtl).2.1 = .declined
    unfold resolveMiss
    dsimp only at hto hrc ⊢
    cases hr : countMissLocked rb z k hash N W (lookup z k) now with
    | mk z₁ rc =>
      rw [hr] at hto hrc
      obtain rfl : rc = .declined := hrc
      exact ⟨hto, rfl⟩

theorem ZoneOp.key_of_stores {op : ZoneOp} {k' : KeyHash}
    (h : op.stores = some k' ∨ op.marks = some k') : op.key = some k' := by
  cases op <;> simp_all [ZoneOp.stores, ZoneOp.marks, ZoneOp.key]

/-- **An operation on something else** leaves the counter of `k`. -/
theorem Counting.other {born : Time} {count : ℕ} {a : Addr} (hc : Counting z k born count a)
    (h : Wf held pending [] [] [] z) (now : Time) {op : ZoneOp} (hop : op.key ≠ some k)
    (hstays : lookup (exec rb z now op).1 k = some a) :
    Counting (exec rb z now op).1 k born count a := by
  set P : Node → Prop := fun n =>
    n.key = k → n.kind = .counter ∧ n.lastAccess = born ∧ n.missCount = count with hP
  have hlasting : Lasting P :=
    ⟨fun _ hn => hn, fun n n' hkey hcore hlast _ hn hk => by
      obtain ⟨hkind, hstamp, hcount⟩ := hn (hkey ▸ hk)
      exact ⟨(congrArg Core.kind hcore).trans hkind, hlast.trans hstamp,
        (congrArg Core.missCount hcore).trans hcount⟩⟩
  have hforeign : ∀ k', op.key = some k' → Stores P k' := fun k' hk' n hn hk =>
    absurd (hk'.trans (congrArg some (hn.symm.trans hk))) hop
  obtain ⟨hwf, -⟩ := h.exec rb now op
  have hsteady := Steady.exec rb hlasting h now op (fun k' hk' => (hforeign k' hk').updates)
    fun k' hk' => hforeign k' (ZoneOp.key_of_stores hk')
  obtain ⟨-, hk⟩ := hwf.queues.lookup_resident hstays
  obtain ⟨hkind, hstamp, hcount⟩ := hsteady a (fun _ => ⟨hc.kind, hc.stamp, hc.count⟩) hk
  exact ⟨hstays, hkind, hstamp, hcount⟩

/-! ## Runs -/

/-- What the misses at these times answer when the node was made at `born` and `n`
misses went before. -/
def expected (N : ℕ) (W born : Time) : ℕ → List Time → List (Time × Rc)
  | _, [] => []
  | n, t :: later =>
      (t, if N ≤ n + 1 ∧ t - born ≤ W then .ok else .declined) :: expected N W born (n + 1) later

/-- The steps of a run about `k`. -/
abbrev zoneStep (z : Zone) (e : Time × ZoneOp) : Zone := (exec rb z e.1 e.2).1

theorem missTimes_miss {e : Time × ZoneOp} (h : e.2.missOf k N W = true)
    (run : List (Time × ZoneOp)) : missTimes k N W (e :: run) = e.1 :: missTimes k N W run := by
  unfold missTimes
  rw [List.filter_cons_of_pos (by exact h), List.map_cons]

theorem missTimes_other {e : Time × ZoneOp} (h : e.2.missOf k N W ≠ true)
    (run : List (Time × ZoneOp)) : missTimes k N W (e :: run) = missTimes k N W run := by
  unfold missTimes
  rw [List.filter_cons_of_neg (by exact h)]

/-- **The verdicts of a run from a counter node.**  As long as the node is no older
than the window its count is the number of misses. -/
theorem verdicts_counting (hN : 2 ≤ N) (hW : 0 < W) {born : Time} {a : Addr} {n count : ℕ}
    (run : List (Time × ZoneOp)) (h : Wf held pending [] [] [] z) (hc : Counting z k born count a)
    (hcount : ∀ t ∈ missTimes k N W run, t - born ≤ W → count = n)
    (hsorted : (missTimes k N W run).Pairwise (· ≤ ·))
    (hrun : Run.Along (zoneStep rb) (MissStep rb k N W) z run) :
    verdicts rb k N W z run = expected N W born n (missTimes k N W run) := by
  induction run generalizing z held n count with
  | nil => rfl
  | cons e run ih =>
    obtain ⟨⟨hkind, hstay⟩, hrest⟩ := hrun
    obtain ⟨hwf, -⟩ := h.exec rb e.1 e.2
    by_cases hmiss : e.2.missOf k N W = true
    · rw [if_pos hmiss] at hkind
      obtain ⟨hto, hrc⟩ := hc.miss rb h (N := N) hW hmiss hkind.1
      rw [missTimes_miss hmiss] at hcount hsorted ⊢
      obtain ⟨hle, hsorted'⟩ := List.pairwise_cons.1 hsorted
      have hnew : e.1 - born ≤ W → counted born count W e.1 = n + 1 := by
        intro hage
        unfold counted
        have hyoung : ¬e.1 - born > W := Int.not_lt.2 hage
        rw [if_neg hyoung, hcount e.1 (List.mem_cons_self ..) hage]
      have hverdict : verdict N (counted born count W e.1) =
          if N ≤ n + 1 ∧ e.1 - born ≤ W then .ok else .declined := by
        unfold verdict
        by_cases hage : e.1 - born ≤ W
        · rw [hnew hage]
          simp [hage]
        · have hone : counted born count W e.1 = 1 := if_pos (Int.not_le.1 hage)
          rw [hone, if_neg (by omega), if_neg fun hb => hage hb.2]
      rw [verdicts, expected]
      rw [if_pos hmiss, hrc, hverdict]
      refine congrArg _ (ih hwf hto (fun t ht hage => hnew ?_) hsorted' hrest)
      have := hle t ht
      exact Int.le_trans (Int.sub_le_sub_right this born) hage
    · rw [if_neg hmiss] at hkind
      rw [missTimes_other hmiss] at hcount hsorted ⊢
      rw [verdicts]
      rw [if_neg hmiss]
      exact ih hwf (hc.other rb h e.1 hkind (hstay a hc.found)) hcount hsorted hrest

/-- **The verdicts of a run from nothing**: the first miss makes the node. -/
theorem verdicts_absent (hN : 2 ≤ N) (hW : 0 < W) (run : List (Time × ZoneOp))
    (h : Wf held pending [] [] [] z) (hnone : lookup z k = none)
    (hsorted : (missTimes k N W run).Pairwise (· ≤ ·))
    (hrun : Run.Along (zoneStep rb) (MissStep rb k N W) z run) :
    verdicts rb k N W z run =
      expected N W ((missTimes k N W run).headD 0) 0 (missTimes k N W run) := by
  induction run generalizing z held with
  | nil => rfl
  | cons e run ih =>
    obtain ⟨⟨hkind, -⟩, hrest⟩ := hrun
    obtain ⟨hwf, hframe⟩ := h.exec rb e.1 e.2
    by_cases hmiss : e.2.missOf k N W = true
    · rw [if_pos hmiss, hnone] at hkind
      obtain ⟨⟨a, hto⟩, hrc⟩ := first_miss rb h hnone hN hmiss (hkind.2.resolve_left (by simp))
      rw [missTimes_miss hmiss] at hsorted ⊢
      rw [verdicts, expected, List.headD_cons]
      rw [if_pos hmiss, hrc, if_neg (by omega)]
      exact congrArg _ (verdicts_counting rb hN hW run hwf hto (fun _ _ _ => rfl)
        (List.pairwise_cons.1 hsorted).2 hrest)
    · rw [if_neg hmiss] at hkind
      rw [missTimes_other hmiss] at hsorted ⊢
      have hstill : lookup (exec rb z e.1 e.2).1 k = none := by
        have hview := view_none hnone
        rcases hframe.other k hkind with hlost | hkept
        · exact Option.map_eq_none_iff.1 hlost
        · exact Option.map_eq_none_iff.1 (hkept.trans hview)
      rw [verdicts]
      rw [if_neg hmiss]
      exact ih hwf hstill hsorted hrest

/-! ## The window -/

/-- The last `N` misses, the one at `t` included, are within `W` seconds. -/
def Recurs (N : ℕ) (W : Time) (earlier : List Time) (t : Time) : Prop :=
  ∃ s, (t :: earlier.reverse)[N - 1]? = some s ∧ t - s ≤ W

/-- Whenever the last `N` misses are within the window, the verdict is `NGX_OK`. -/
def Admits (N : ℕ) (W : Time) (v : List (Time × Rc)) : Prop :=
  ∀ pre t rc post, v = pre ++ (t, rc) :: post → Recurs N W (pre.map Prod.fst) t → rc = .ok

/-- When no `N` misses are within the window, every verdict is `NGX_DECLINED`. -/
def Refuses (N : ℕ) (W : Time) (v : List (Time × Rc)) : Prop :=
  (∀ pre t rc post, v = pre ++ (t, rc) :: post → ¬Recurs N W (pre.map Prod.fst) t) →
    ∀ e ∈ v, e.2 = .declined

theorem expected_append (N : ℕ) (W born : Time) (n : ℕ) (earlier later : List Time) :
    expected N W born n (earlier ++ later) =
      expected N W born n earlier ++ expected N W born (n + earlier.length) later := by
  induction earlier generalizing n with
  | nil => rfl
  | cons s earlier ih =>
    have hcount : n + (s :: earlier).length = n + 1 + earlier.length := by
      rw [List.length_cons]
      omega
    rw [List.cons_append, expected, expected, ih, List.cons_append, hcount]

theorem expected_times (N : ℕ) (W born : Time) (n : ℕ) (ts : List Time) :
    (expected N W born n ts).map Prod.fst = ts := by
  induction ts generalizing n with
  | nil => rfl
  | cons t ts ih => rw [expected, List.map_cons, ih]

/-- The verdict in the middle of a run. -/
theorem expected_split {W born : Time} {n : ℕ} {ts : List Time} {pre post : List (Time × Rc)}
    {t : Time} {rc : Rc} (h : expected N W born n ts = pre ++ (t, rc) :: post) :
    ts = pre.map Prod.fst ++ t :: post.map Prod.fst ∧
      rc = if N ≤ n + pre.length + 1 ∧ t - born ≤ W then .ok else .declined := by
  have htimes := congrArg (List.map Prod.fst) h
  rw [expected_times, List.map_append, List.map_cons] at htimes
  refine ⟨htimes, ?_⟩
  rw [htimes, expected_append, expected, List.length_map] at h
  have hlen : (expected N W born n (pre.map Prod.fst)).length = pre.length := by
    rw [← List.length_map Prod.fst, expected_times, List.length_map]
  obtain ⟨-, htail⟩ := List.append_inj h hlen
  obtain ⟨hhead, -⟩ := List.cons.inj htail
  exact (congrArg Prod.snd hhead).symm

/-- **What the age rule means for the window.** -/
theorem expected_window {W born : Time} {ts : List Time} (hborn : ∀ t ∈ ts, born ≤ t)
    (hN : 1 ≤ N) :
    (Admits N W (expected N W born 0 ts) ∧ Refuses N W (expected N W born 0 ts)) ↔
      ∀ earlier t later, ts = earlier ++ t :: later → Recurs N W earlier t → t - born ≤ W := by
  have hlong : ∀ {earlier : List Time} {t : Time}, Recurs N W earlier t → N ≤ earlier.length + 1 := by
    rintro earlier t ⟨s, hs, -⟩
    have hlt := (List.getElem?_eq_some_iff.1 hs).1
    rw [List.length_cons, List.length_reverse] at hlt
    omega
  constructor
  · rintro ⟨hadmits, -⟩ earlier t later rfl hrecurs
    have hto := expected_append N W born 0 earlier (t :: later)
    rw [expected] at hto
    have hok := hadmits _ _ _ _ hto (by rwa [expected_times])
    by_contra hage
    rw [if_neg fun hb => hage hb.2] at hok
    cases hok
  · intro hage
    refine ⟨fun pre t rc post hv hrecurs => ?_, fun hnone e he => ?_⟩
    · obtain ⟨hts, hrc⟩ := expected_split hv
      have hlen := hlong hrecurs
      rw [List.length_map] at hlen
      rw [hrc, if_pos ⟨by omega, hage _ _ _ hts hrecurs⟩]
    · obtain ⟨pre, post, hv⟩ := List.append_of_mem he
      obtain ⟨t, rc⟩ := e
      obtain ⟨hts, hrc⟩ := expected_split hv
      by_contra hok
      have hgood : N ≤ 0 + pre.length + 1 ∧ t - born ≤ W := by
        by_contra hno
        rw [if_neg hno] at hrc
        exact hok hrc
      -- the `N`-th last miss is no older than the node
      have hidx : N - 1 < (t :: (pre.map Prod.fst).reverse).length := by
        rw [List.length_cons, List.length_reverse, List.length_map]
        omega
      have hmem : (t :: (pre.map Prod.fst).reverse)[N - 1] ∈ ts := by
        rw [hts]
        rcases List.mem_cons.1 (List.getElem_mem hidx) with he | he
        · rw [he]
          simp
        · exact List.mem_append_left _ (List.mem_reverse.1 he)
      refine hnone pre t rc post hv ⟨_, List.getElem?_eq_getElem hidx, ?_⟩
      have hold := hborn _ hmem
      exact Int.le_trans (Int.sub_le_sub_left hold t) hgood.2

/-- When the node of `k` was made: its stamp, or the time of the first miss. -/
def born (z : Zone) (k : KeyHash) (times : List Time) : Time :=
  match lookup z k with
  | some a => (z.mem a).lastAccess
  | none => times.headD 0

/-- No miss of `k` was counted yet: it has no node, or a counter node that counts
nothing and is older than the misses to come. -/
def Uncounted (z : Zone) (k : KeyHash) (times : List Time) : Prop :=
  ∀ a, lookup z k = some a → (z.mem a).kind = .counter ∧ (z.mem a).missCount = 0 ∧
    ∀ t ∈ times, (z.mem a).lastAccess ≤ t

/-- A run about `k` that starts with nothing counted, its misses in order of time. -/
structure MissRun (k : KeyHash) (N : ℕ) (W : Time) (z : Zone) (run : List (Time × ZoneOp)) :
    Prop where
  wf : ∃ held pending, Wf held pending [] [] [] z
  uncounted : Uncounted z k (missTimes k N W run)
  sorted : (missTimes k N W run).Pairwise (· ≤ ·)
  steps : Run.Along (zoneStep rb) (MissStep rb k N W) z run

/-- **When `min_uses_window` does what it promises.**  In every run about a key, with
`min_uses` at least two and a window, the counts admit the key whenever its last
`min_uses` misses are within the window and refuse it when no `min_uses` misses
ever are, iff every miss that has to be admitted comes within one window from the
time the counter node was made. -/
theorem windowed_min_uses (hN : 2 ≤ N) (hW : 0 < W) {run : List (Time × ZoneOp)}
    (h : MissRun rb k N W z run) :
    (Admits N W (verdicts rb k N W z run) ∧ Refuses N W (verdicts rb k N W z run)) ↔
      ∀ earlier t later, missTimes k N W run = earlier ++ t :: later → Recurs N W earlier t →
        t - born z k (missTimes k N W run) ≤ W := by
  obtain ⟨⟨held, pending, hwf⟩, huncounted, hsorted, hsteps⟩ := h
  set ts := missTimes k N W run with hts
  have hrun : verdicts rb k N W z run = expected N W (born z k ts) 0 ts ∧
      ∀ t ∈ ts, born z k ts ≤ t := by
    unfold born
    cases hl : lookup z k with
    | some a =>
      obtain ⟨hkind, hzero, hold⟩ := huncounted a hl
      exact ⟨verdicts_counting rb hN hW run hwf ⟨hl, hkind, rfl, hzero⟩ (fun _ _ _ => rfl) hsorted
        hsteps, hold⟩
    | none =>
      refine ⟨verdicts_absent rb hN hW run hwf hl hsorted hsteps, ?_⟩
      cases hcase : ts with
      | nil => simp
      | cons t ts' =>
        rw [hcase] at hsorted
        intro t' ht'
        rcases List.mem_cons.1 ht' with rfl | ht'
        · exact Int.le_refl _
        · exact (List.pairwise_cons.1 hsorted).1 t' ht'
  rw [hrun.1]
  exact expected_window hrun.2 (le_trans (by decide) hN)

/-- A miss of one key, with `min_uses` two and a window of ten seconds. -/
def missAt (t : Time) : Time × ZoneOp := (t, .countMiss (Vector.replicate 32 0) 0 2 10)

theorem missRun_steps {run : List Time} (h : Run.Along (zoneStep Rbtree.unbalanced)
    (fun z e => leaseLive z (Vector.replicate 32 0) e.1 = false ∧
      ((lookup z (Vector.replicate 32 0)).isSome ∨
        (allocEvict Rbtree.unbalanced z e.1 sizeofNode).2.isSome) ∧
      (lookup z (Vector.replicate 32 0) = none ∨
        lookup (zoneStep Rbtree.unbalanced z e) (Vector.replicate 32 0) =
          lookup z (Vector.replicate 32 0))) (blankZone some 0) (run.map missAt)) :
    Run.Along (zoneStep Rbtree.unbalanced) (MissStep Rbtree.unbalanced (Vector.replicate 32 0) 2 10)
      (blankZone some 0) (run.map missAt) := by
  generalize blankZone some 0 = z at h ⊢
  induction run generalizing z with
  | nil => trivial
  | cons t run ih =>
    obtain ⟨⟨hlease, hroom, hstay⟩, hrest⟩ := h
    refine ⟨⟨?_, fun a ha => ?_⟩, ih _ hrest⟩
    · rw [if_pos (by rfl)]
      exact ⟨hlease, hroom⟩
    · rcases hstay with hnone | hsame
      · rw [hnone] at ha
        cases ha
      · exact hsame.trans ha

theorem missRun_of_steps {times : List Time} (hsorted : (missTimes (Vector.replicate 32 0) 2 10
    (times.map missAt)).Pairwise (· ≤ ·)) (h : Run.Along (zoneStep Rbtree.unbalanced)
    (fun z e => leaseLive z (Vector.replicate 32 0) e.1 = false ∧
      ((lookup z (Vector.replicate 32 0)).isSome ∨
        (allocEvict Rbtree.unbalanced z e.1 sizeofNode).2.isSome) ∧
      (lookup z (Vector.replicate 32 0) = none ∨
        lookup (zoneStep Rbtree.unbalanced z e) (Vector.replicate 32 0) =
          lookup z (Vector.replicate 32 0))) (blankZone some 0) (times.map missAt)) :
    MissRun Rbtree.unbalanced (Vector.replicate 32 0) 2 10 (blankZone some 0) (times.map missAt) where
  wf := ⟨[], [], Wf.blankZone _ _⟩
  uncounted a ha := absurd ha (by
    have hnone : lookup (blankZone some 0) (Vector.replicate 32 0) = none := by decide +kernel
    simp [hnone])
  sorted := hsorted
  steps := missRun_steps h

/-- Two misses one second apart: the second is admitted. -/
theorem windowed_min_uses_pair :
    Admits 2 10 (verdicts Rbtree.unbalanced (Vector.replicate 32 0) 2 10 (blankZone some 0)
      ([0, 1].map missAt)) := by
  have hrun : MissRun Rbtree.unbalanced (Vector.replicate 32 0) 2 10 (blankZone some 0)
      ([0, 1].map missAt) := missRun_of_steps (by decide) (by decide +kernel)
  refine ((windowed_min_uses Rbtree.unbalanced (by decide) (by decide) hrun).2
    fun earlier t later hts _ => ?_).1
  have hborn : born (blankZone some 0) (Vector.replicate 32 0)
      (missTimes (Vector.replicate 32 0) 2 10 ([0, 1].map missAt)) = 0 := by decide +kernel
  have ht : t ∈ missTimes (Vector.replicate 32 0) 2 10 ([0, 1].map missAt) := by
    rw [hts]
    simp
  rw [hborn]
  have hcases : t = 0 ∨ t = 1 := by simpa [missTimes, missAt, ZoneOp.missOf] using ht
  rcases hcases with rfl | rfl <;> decide

/-- A key that is missed at 0 s, and then at 100 s and 101 s, is refused all three
times: the counter node is older than the window. -/
theorem windowed_min_uses_aged :
    ¬ ∀ (z : Zone) (k : KeyHash) (N : ℕ) (W : Time) (run : List (Time × ZoneOp)), 2 ≤ N → 0 < W →
      MissRun Rbtree.unbalanced k N W z run →
      Admits N W (verdicts Rbtree.unbalanced k N W z run) ∧
        Refuses N W (verdicts Rbtree.unbalanced k N W z run) := by
  intro hclaim
  have hrun : MissRun Rbtree.unbalanced (Vector.replicate 32 0) 2 10 (blankZone some 0)
      ([0, 100, 101].map missAt) := missRun_of_steps (by decide) (by decide +kernel)
  have hverdicts : verdicts Rbtree.unbalanced (Vector.replicate 32 0) 2 10 (blankZone some 0)
      ([0, 100, 101].map missAt) = [(0, .declined), (100, .declined)] ++ [(101, .declined)] := by
    decide +kernel
  have hadmits := (hclaim _ _ 2 10 _ (by decide) (by decide) hrun).1
  have hok := hadmits _ _ _ _ hverdicts ⟨100, rfl, by decide⟩
  cases hok

end Shm
end CacheTurbo
