/-
# The memory of misses

`ngx_http_cache_turbo_shm_l2_neg_set` notes on a node that the second level has no such key,
and for `ttl` seconds `ngx_http_cache_turbo_shm_l2_neg_check` tells the requests for it to leave
their `GET` out.  The note is one field, `l2_neg_until`, of a node that also counts misses and
carries the lease of a refill; a store puts a body there, and an eviction takes it away.

For every run of the operations of all requests: **a `GET` is left out exactly when** the last
miss recorded for its key is younger than its `ttl`, and the node has carried no body and has not
gone since (`skips_iff_recorded`).  In particular no lookup that was left out renews the note.
-/

import CacheTurbo.Shm.CoreMove

namespace CacheTurbo
namespace Shm

/-- The digest has a node without a body: only there is a note read. -/
def Counts (z : Zone) (k : KeyHash) : Prop := ∃ c, view z k = some c ∧ c.kind = .counter

variable (rb : Rbtree)

/-- Where the note on a counter comes from: the operation records it, or finds it on the counter,
or the counter is new. -/
inductive MemoMove (now : Time) (op : ZoneOp) (z : Zone) (k : KeyHash) (til : Time) : Prop
  | recorded (hash : UInt32) (ttl : Time) (hop : op = .l2NegSet k hash ttl) (htil : til = now + ttl)
  | kept (c : Core) (hop : ¬op.recordsMiss k) (hc : view z k = some c) (hk : c.kind = .counter)
      (htil : c.l2NegUntil = til)
  | new (hop : ¬op.recordsMiss k) (hc : view z k = none) (htil : til = 0)

theorem Wf.memoMove {held pending : List BlobId} {z : Zone} (h : Wf held pending [] [] [] z)
    (now : Time) (op : ZoneOp) {k : KeyHash} {c : Core}
    (hv : view (Shm.exec rb z now op).1 k = some c) (hk : c.kind = .counter) :
    MemoMove now op z k c.l2NegUntil := by
  cases h.coreMove rb now op hv with
  | body hkind => exact absurd hk hkind
  | recorded hash ttl hop _ hmemo => exact .recorded hash ttl hop hmemo
  | wrote hop hkind hmemo =>
    have hno : ¬op.recordsMiss k := fun hrec => hop hrec hk
    cases hv₀ : view z k with
    | none =>
      rw [found_none hv₀] at hmemo
      exact .new hno hv₀ hmemo
    | some c₀ =>
      rw [found_some hv₀] at hkind hmemo
      exact .kept c₀ hno hv₀ (hkind ▸ hk) hmemo.symm

/-! ### Runs -/

/-- After the operation the node counts still, and no other miss was recorded for it. -/
def KeepsMemo (k : KeyHash) (z : Zone) (event : Time × ZoneOp) : Prop :=
  ¬event.2.recordsMiss k ∧ Counts (runStep rb z event) k

/-- The last miss that the run records for a digest: when, and for how long; what follows
leaves the note there. -/
def Recorded (z : Zone) (run : List (Time × ZoneOp)) (k : KeyHash) (t₀ ttl : Time) : Prop :=
  ∃ before hash after, run = before ++ (t₀, .l2NegSet k hash ttl) :: after ∧
    Counts (Run.after (runStep rb) z (before ++ [(t₀, .l2NegSet k hash ttl)])) k ∧
    Run.Along (runStep rb) (KeepsMemo rb k)
      (Run.after (runStep rb) z (before ++ [(t₀, .l2NegSet k hash ttl)])) after

theorem wf_runStep {z : Zone} (h : ∃ held, Wf held [] [] [] [] z) (event : Time × ZoneOp) :
    ∃ held, Wf held [] [] [] [] (runStep rb z event) := by
  obtain ⟨held, hwf⟩ := h
  exact ⟨_, (hwf.exec rb event.1 event.2).1⟩

theorem wf_run {z : Zone} (h : ∃ held, Wf held [] [] [] [] z) (run : List (Time × ZoneOp)) :
    ∃ held, Wf held [] [] [] [] (Run.after (runStep rb) z run) :=
  Run.after_invariant (P := fun z => ∃ held, Wf held [] [] [] [] z)
    (fun _ e h => wf_runStep rb h e) h run

/-- The note of a counter is that of the last miss recorded, or empty. -/
theorem memo_recorded {z : Zone} (hwf : ∃ held, Wf held [] [] [] [] z)
    (hempty : ∀ k, view z k = none) (run : List (Time × ZoneOp)) {k : KeyHash} {c : Core}
    (hv : view (Run.after (runStep rb) z run) k = some c) (hk : c.kind = .counter) :
    c.l2NegUntil = 0 ∨ ∃ t₀ ttl, Recorded rb z run k t₀ ttl ∧ c.l2NegUntil = t₀ + ttl := by
  induction run using List.reverseRecOn generalizing c with
  | nil =>
    rw [Run.after_nil, hempty k] at hv
    cases hv
  | append_singleton run event ih =>
    obtain ⟨held, hw⟩ := wf_run rb hwf run
    have hcounts : Counts (Run.after (runStep rb) z (run ++ [event])) k := ⟨c, hv, hk⟩
    rw [Run.after_append] at hv hcounts
    cases hw.memoMove rb event.1 event.2 hv hk with
    | recorded hash ttl hop htil =>
      refine Or.inr ⟨event.1, ttl, ⟨run, hash, [], ?_, ?_, trivial⟩, htil⟩
      · rw [← hop]
      · rw [← hop, Run.after_append]
        exact hcounts
    | kept c₀ hop hv₀ hk₀ htil =>
      rw [← htil]
      obtain hz | ⟨t₀, ttl, ⟨before, hash, after, rfl, hset, halong⟩, htil₀⟩ := ih hv₀ hk₀
      · exact Or.inl hz
      · refine Or.inr ⟨t₀, ttl, ⟨before, hash, after ++ [event], ?_, hset, ?_⟩, htil₀⟩
        · rw [List.append_assoc, List.cons_append]
        · refine Run.along_append.2 ⟨halong, ⟨hop, ?_⟩, trivial⟩
          rwa [← Run.after_append, List.append_assoc]
    | new _ _ htil => exact Or.inl htil

/-- **A miss that is recorded stays noted** as long as the node counts. -/
theorem recorded_memo {z : Zone} (hwf : ∃ held, Wf held [] [] [] [] z)
    {run : List (Time × ZoneOp)} {k : KeyHash} {t₀ ttl : Time}
    (h : Recorded rb z run k t₀ ttl) :
    ∃ c, view (Run.after (runStep rb) z run) k = some c ∧ c.kind = .counter ∧
      c.l2NegUntil = t₀ + ttl := by
  obtain ⟨before, hash, after, rfl, ⟨c, hv, hk⟩, halong⟩ := h
  set z₀ := Run.after (runStep rb) z before with hz₀
  set note : Time × ZoneOp := (t₀, .l2NegSet k hash ttl) with hset
  have hw₀ := wf_run rb hwf before
  have hnoted : c.l2NegUntil = t₀ + ttl := by
    obtain ⟨held, hw⟩ := hw₀
    rw [Run.after_append] at hv
    cases hw.memoMove rb t₀ (.l2NegSet k hash ttl) hv hk with
    | recorded hash' ttl' hop htil =>
      obtain ⟨-, -, rfl⟩ := ZoneOp.l2NegSet.inj hop
      exact htil
    | kept _ hop => exact absurd rfl hop
    | new hop => exact absurd rfl hop
  -- what follows keeps the note
  have hend := Run.after_of_along
    (P := fun z => (∃ held, Wf held [] [] [] [] z) ∧
      ∃ c, view z k = some c ∧ c.kind = .counter ∧ c.l2NegUntil = t₀ + ttl)
    (C := KeepsMemo rb k) ?_ ⟨?_, c, hv, hk, hnoted⟩ halong
  · rw [show before ++ note :: after = (before ++ [note]) ++ after by
      rw [List.append_assoc, List.singleton_append], Run.after_append]
    exact hend.2
  · rintro z event ⟨⟨held, hw⟩, c₀, hv₀, -, hnote₀⟩ ⟨hop, c₁, hv₁, hk₁⟩
    refine ⟨wf_runStep rb ⟨held, hw⟩ event, c₁, hv₁, hk₁, ?_⟩
    cases hw.memoMove rb event.1 event.2 hv₁ hk₁ with
    | recorded hash' ttl' hop' =>
      rw [hop'] at hop
      exact absurd rfl hop
    | kept c₂ _ hv₂ _ htil =>
      rw [hv₀] at hv₂
      obtain rfl := Option.some.inj hv₂
      exact htil.symm.trans hnote₀
    | new _ hn =>
      rw [hn] at hv₀
      cases hv₀
  · exact wf_run rb hwf _

theorem l2NegCheck_declined {z : Zone} {k : KeyHash} {hash : UInt32} {t : Time} :
    (l2NegCheck z k hash t).2 = .declined ↔
      ∃ c, view z k = some c ∧ c.kind = .counter ∧ t < c.l2NegUntil := by
  unfold l2NegCheck
  cases hl : lookup z k with
  | none => simp [view_none hl]
  | some a =>
    have hnote : (∃ c, view z k = some c ∧ c.kind = .counter ∧ t < c.l2NegUntil) ↔
        (z.mem a).kind = .counter ∧ (z.mem a).l2NegUntil > t := by
      simp only [view_lookup hl, Option.some.injEq, exists_eq_left']
      exact Iff.rfl
    rw [hnote]
    dsimp only
    split_ifs with hlive
    · exact iff_of_true rfl hlive
    · exact iff_of_false nofun hlive

/-- **A `GET` is left out exactly when a miss was recorded for its key**, less than its `ttl`
ago and the last one for this key, and the node has counted ever since: no body was stored there,
and it has not gone. -/
theorem skips_iff_recorded (mem : Addr → Node) (blob : BlobId → Blob)
    (answers : ℕ → Option Addr) (sketch : Sketch) (admission : Bool) (breakerState : ℕ)
    (run : List (Time × ZoneOp)) (k : KeyHash) (hash : UInt32) {t : Time} (ht : 0 ≤ t) :
    let start := freshZone mem blob answers sketch admission breakerState
    (l2NegCheck (Run.after (runStep rb) start run) k hash t).2 = .declined ↔
      ∃ t₀ ttl, Recorded rb start run k t₀ ttl ∧ t < t₀ + ttl := by
  intro start
  have hwf : ∃ held, Wf held [] [] [] [] start :=
    ⟨[], Wf.freshZone mem blob answers sketch admission breakerState⟩
  rw [l2NegCheck_declined]
  constructor
  · rintro ⟨c, hv, hk, hlive⟩
    obtain hz | ⟨t₀, ttl, hrec, htil⟩ := memo_recorded rb hwf (fun _ => rfl) run hv hk
    · rw [hz] at hlive
      exact absurd hlive (Int.not_lt.2 ht)
    · exact ⟨t₀, ttl, hrec, htil ▸ hlive⟩
  · rintro ⟨t₀, ttl, hrec, hlive⟩
    obtain ⟨c, hv, hk, htil⟩ := recorded_memo rb hwf hrec
    exact ⟨c, hv, hk, htil ▸ hlive⟩

/-- A miss is recorded at 10 for half a minute; at 20, while another request refills the key,
the next one leaves its `GET` out. -/
theorem skips_iff_recorded_refilling :
    let k : KeyHash := Vector.replicate 32 0
    let run : List (Time × ZoneOp) := [(10, .l2NegSet k 0 30), (15, .claim k 0 60)]
    (l2NegCheck (Run.after (runStep .unbalanced) (blankZone some 0) run) k 0 20).2
      = .declined := by
  intro k run
  refine (skips_iff_recorded Rbtree.unbalanced _ _ some _ false 0 run k 0 (by decide)).2
    ⟨10, 30, ⟨[], 0, [(15, .claim k 0 60)], rfl, ?_, ⟨id, ?_⟩, trivial⟩, by decide⟩
  · exact ⟨{ counterCore with l2NegUntil := 40 }, by decide +kernel, rfl⟩
  · exact ⟨({ counterCore with l2NegUntil := 40 } : Core).leased 1 75, by decide +kernel, rfl⟩

end Shm
end CacheTurbo
