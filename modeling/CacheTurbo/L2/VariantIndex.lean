/-
# The variant index and its counters

The variants of a base are listed in a set of the second level, which a PURGE of
the base walks.  A store hands the `SADD` over and goes on
(`ngx_http_cache_turbo_body_filter_varidx_store`); one that could not be handed
over marks the node, and a later hit tries again
(`ngx_http_cache_turbo_varidx_reissue`).  Three counters of the zone are to tell
a PURGE whether the set can be short of a variant: `varidx_inflight`,
`varidx_drops` and `varidx_reissues`, which
`ngx_http_cache_turbo_purge_auto_vary` reads one after the other, in the order
they are written.

Requests take turns at single accesses, in any order and any number of them.
What has happened is kept beside the state: which drops were counted, which
reissues were handed over, and which variants were stored.

`signal_sound` says in which runs a PURGE that answers without the mark
`"complete":false` is right.
-/

import CacheTurbo.Shm.Node
import CacheTurbo.Lib.Bytes
import CacheTurbo.Lib.Run
import CacheTurbo.Lib.Threads
import Mathlib.Algebra.Order.Ring.Int
import Mathlib.Tactic.SplitIfs

namespace CacheTurbo
namespace L2
namespace VariantIndex

/-! ## The state -/

/-- A variant of a base, and the key it is stored under. -/
structure Variant where
  base : Bytes
  key : KeyHash
  deriving DecidableEq

/-- An `SADD` that was handed over: what it lists, and whether redis has executed it. -/
structure SaddOp where
  variant : Variant
  executed : Bool
  deriving DecidableEq

/-- Who called `tag_add`. -/
inductive Caller
  | store
  | hit
  deriving DecidableEq

/-- What had happened when a PURGE began to read: the stores that were completed, the
reissues that were handed over and the drops that were counted. -/
structure Seen where
  stored : ℕ
  relaunched : ℕ
  counted : ℕ
  deriving DecidableEq

/-- Where a request is between two accesses of the shared state. -/
inductive Frame
  | idle
  | markerStore (v : Variant) (ttl : Time)
  | tagAdd (caller : Caller) (v : Variant) (ttl : Time)
  | armed (caller : Caller) (v : Variant)
  | unarm (caller : Caller) (v : Variant)
  | refused (caller : Caller) (v : Variant)
  | marked (v : Variant)
  | accepted (v : Variant)
  | purge (base : Bytes)
  | inflightRead (base : Bytes) (seen : Seen) (inflight : ℤ)
  | dropsRead (base : Bytes) (seen : Seen) (inflight drops : ℤ)
  | pending (base : Bytes) (seen : Seen) (pendingAtLaunch : ℤ)
  | walk (base : Bytes)
  deriving DecidableEq

/-- A completed store, whether an `SADD` of its key was executed since, and whether a PURGE
took the key out of the set after that. -/
structure Stored where
  variant : Variant
  indexed : Bool
  removed : Bool
  deriving DecidableEq

/-- The counters, the nodes, the sets and the requests; then what has happened. -/
structure State where
  inflight : ℤ
  drops : ℤ
  reissues : ℤ
  resident : List KeyHash
  varidxPending : List KeyHash
  ops : List SaddOp
  index : List Variant
  frames : List Frame
  dropped : List Variant
  relaunched : List Variant
  stored : List Stored

/-- A new zone. -/
def State.start : State :=
  { inflight := 0, drops := 0, reissues := 0, resident := [], varidxPending := [], ops := [],
    index := [], frames := [], dropped := [], relaunched := [], stored := [] }

/-! ## Accesses -/

/-- The values of `ngx_uint_t`. -/
def word : ℤ := 18446744073709551616

/-- `pending_at_launch`. -/
def pendingAtLaunch (inflight drops reissues : ℤ) : ℤ := (inflight + drops - reissues) % word

/-- The lifetime that `varidx_reissue` gives the index entry of a node with `remaining`
seconds left: the location's stale window `fallback` without any, and at least a second. -/
def reissueTtl (remaining fallback : Time) : Time :=
  let ttl := if remaining ≤ 0 then fallback else remaining
  if ttl ≤ 0 then 1 else ttl

/-- `ngx_http_cache_turbo_shm_varidx_pending_set`: it marks a node that is there. -/
def varidxPendingSet (s : State) (key : KeyHash) : State :=
  if key ∈ s.resident then { s with varidxPending := key :: s.varidxPending } else s

/-- A store is complete. -/
def complete (s : State) (v : Variant) : State :=
  { s with stored := s.stored ++ [⟨v, false, false⟩] }

/-- `tag_add` answered `NGX_OK`: a store is complete, a hit counts its reissue next. -/
def tagAdded (s : State) (v : Variant) : Caller → State × Frame
  | .store => (complete s v, .idle)
  | .hit => ({ s with relaunched := s.relaunched ++ [v] }, .accepted v)

/-- The next access of a request; `ok` is what the outside answers it.  A store goes through
`body_filter_varidx_store` and `redis_tag_add`, a hit through `varidx_reissue` and
`redis_tag_add`, a PURGE through `purge_auto_vary`. -/
def advance (s : State) (ok : Bool) : Frame → State × Frame
  | .idle => (s, .idle)
  -- without its marker the store is rolled back
  | .markerStore v ttl => if ok then (s, .tagAdd .store v ttl) else (s, .idle)
  | .tagAdd caller v ttl =>
      if ttl ≤ 0 then tagAdded s v caller
      else if ok then ({ s with inflight := s.inflight + 1 }, .armed caller v)
      else (s, .refused caller v)
  | .armed caller v =>
      if ok then tagAdded { s with ops := s.ops ++ [⟨v, false⟩] } v caller
      else (s, .unarm caller v)
  | .unarm caller v => ({ s with inflight := s.inflight - 1 }, .refused caller v)
  | .refused .store v => (varidxPendingSet s v.key, .marked v)
  | .refused .hit v => (varidxPendingSet s v.key, .idle)
  | .marked v => (complete { s with drops := s.drops + 1, dropped := s.dropped ++ [v] } v, .idle)
  | .accepted _ => ({ s with reissues := s.reissues + 1 }, .idle)
  | .purge base =>
      if ok then (s, .inflightRead base
        ⟨s.stored.length, s.relaunched.length, s.dropped.length⟩ s.inflight)
      else (s, .idle)
  | .inflightRead base seen inflight => (s, .dropsRead base seen inflight s.drops)
  | .dropsRead base seen inflight drops =>
      (s, .pending base seen (pendingAtLaunch inflight drops s.reissues))
  | .pending base _ _ => (s, if ok then .walk base else .idle)
  | .walk _ => (s, .idle)

/-- What happens next. -/
inductive Act
  /-- A response with axes was stored in the zone, to be kept for `ttl`. -/
  | store (v : Variant) (ttl : Time)
  /-- A hit finds the node of `v`. -/
  | hit (v : Variant) (remaining fallback : Time)
  | purge (base : Bytes)
  /-- Request `i` makes its next access. -/
  | turn (i : ℕ) (ok : Bool)
  /-- Redis executes the write `j`. -/
  | execute (j : ℕ)
  /-- `op_done` of the write `j`: its replies were read, or it failed. -/
  | opDone (j : ℕ)
  /-- The walk of PURGE `i` takes a member out of its set. -/
  | srem (i : ℕ) (v : Variant)
  | evict (key : KeyHash)

/-- One step. -/
def step (s : State) : Act → State
  | .store v ttl =>
      { s with
        resident := v.key :: s.resident
        -- a new node is born unmarked, a node that is written again keeps its mark
        varidxPending := if v.key ∈ s.resident then s.varidxPending
          else s.varidxPending.filter (· ≠ v.key)
        frames := s.frames ++ [.markerStore v ttl] }
  | .hit v remaining fallback =>
      if v.key ∈ s.resident ∧ v.key ∈ s.varidxPending then
        { s with
          varidxPending := s.varidxPending.filter (· ≠ v.key)
          frames := s.frames ++ [.tagAdd .hit v (reissueTtl remaining fallback)] }
      else s
  | .purge base => { s with frames := s.frames ++ [.purge base] }
  | .turn i ok =>
      match s.frames[i]? with
      | none => s
      | some f => { (advance s ok f).1 with frames := s.frames.set i (advance s ok f).2 }
  | .execute j =>
      match s.ops[j]? with
      | none => s
      | some op =>
          { s with
            ops := s.ops.set j { op with executed := true }
            index := op.variant :: s.index
            stored := s.stored.map fun e =>
              if e.variant = op.variant then { e with indexed := true } else e }
  | .opDone j =>
      match s.ops[j]? with
      | none => s
      | some _ => { s with ops := s.ops.eraseIdx j, inflight := s.inflight - 1 }
  | .srem i v =>
      if s.frames[i]? = some (.walk v.base) then
        { s with
          index := s.index.filter (· ≠ v)
          stored := s.stored.map fun e =>
            if e.variant = v ∧ e.indexed then { e with removed := true } else e }
      else s
  | .evict key =>
      { s with
        resident := s.resident.filter (· ≠ key)
        varidxPending := s.varidxPending.filter (· ≠ key) }

/-! ## What the answer of a PURGE says -/

/-- The PURGE that settles, with this step, on an answer without `"complete":false`: it found
nothing pending, or its walk did not start, and then it answers for the base alone. -/
def unmarked (s : State) : Act → Option (Bytes × Seen)
  | .turn i ok =>
      match s.frames[i]? with
      | some (.pending base seen pendingAtLaunch) =>
          if ok ∧ pendingAtLaunch ≠ 0 then none else some (base, seen)
      | _ => none
  | _ => none

/-- **The signal is sound**: every variant of the base whose store was complete when the PURGE
read its first counter is in the set that is walked, or was in it and removed by a PURGE. -/
def Sound (s : State) (a : Act) : Prop :=
  ∀ purge ∈ unmarked s a, ∀ e ∈ s.stored.take purge.2.stored, e.variant.base = purge.1 →
    e.variant ∈ s.index ∨ e.removed

instance (s : State) (a : Act) : Decidable (Sound s a) := by
  unfold Sound
  infer_instance

/-! ## The condition -/

/-- What the accesses of a request have to respect. -/
def KeepsTurn (s : State) (ok : Bool) : Frame → Prop
  -- a store with axes is kept for a positive time
  | .tagAdd .store _ ttl => 0 < ttl
  -- a reissue is handed over only for a drop that was counted
  | .armed .hit v => ok → s.relaunched.count v < s.dropped.count v
  -- no reissue handed over after the first read is counted before the last, and the counters
  -- are not a whole word apart
  | .dropsRead _ seen inflight drops =>
      s.reissues ≤ seen.relaunched ∧ inflight + drops - s.reissues < word
  -- the walk starts, unless nothing is pending
  | .pending _ _ pendingAtLaunch => ok ∨ pendingAtLaunch = 0
  | _ => True

instance (s : State) (ok : Bool) : (f : Frame) → Decidable (KeepsTurn s ok f)
  | .tagAdd .store _ ttl => inferInstanceAs (Decidable (0 < ttl))
  | .armed .hit v =>
      inferInstanceAs (Decidable (ok → s.relaunched.count v < s.dropped.count v))
  | .dropsRead _ seen inflight drops =>
      inferInstanceAs (Decidable (s.reissues ≤ seen.relaunched ∧
        inflight + drops - s.reissues < word))
  | .pending _ _ pendingAtLaunch => inferInstanceAs (Decidable (ok ∨ pendingAtLaunch = 0))
  | .idle | .markerStore .. | .tagAdd .hit .. | .armed .store _ | .unarm .. | .refused ..
  | .marked _ | .accepted _ | .purge _ | .inflightRead .. | .walk _ =>
      inferInstanceAs (Decidable True)

/-- The condition on a step: what the accesses have to respect, and no write that was handed
over ends before redis has executed it. -/
def Keeps (s : State) : Act → Prop
  | .turn i ok => ∀ f ∈ s.frames[i]?, KeepsTurn s ok f
  | .opDone j => ∀ op ∈ s.ops[j]?, op.executed
  | _ => True

instance (s : State) : (a : Act) → Decidable (Keeps s a)
  | .turn i ok => inferInstanceAs (Decidable (∀ f ∈ s.frames[i]?, KeepsTurn s ok f))
  | .opDone j => inferInstanceAs (Decidable (∀ op ∈ s.ops[j]?, op.executed))
  | .store .. | .hit .. | .purge _ | .execute _ | .srem .. | .evict _ =>
      inferInstanceAs (Decidable True)

/-! ## The invariant -/

/-- The frames whose increment of `varidx_inflight` has no write behind it yet. -/
def Frame.isArmed : Frame → Bool
  | .armed .. | .unarm .. => true
  | _ => false

/-- The frames whose reissue was handed over and is not counted yet. -/
def Frame.isAccepted : Frame → Bool
  | .accepted _ => true
  | _ => false

/-- The first `n` stores that were completed are in their sets, or were. -/
def AllIndexed (s : State) (n : ℕ) : Prop := ∀ e ∈ s.stored.take n, e.indexed

/-- The state beside its frames, of which `armed` are armed and `accepted` are accepted. -/
structure Core (s : State) (armed accepted : ℕ) : Prop where
  inflight : s.inflight = s.ops.length + armed
  drops : s.drops = s.dropped.length
  reissues : s.reissues + accepted = s.relaunched.length
  covered : ∀ v, s.relaunched.count v ≤ s.dropped.count v
  owed : ∀ e ∈ s.stored, e.indexed = false →
    s.relaunched.count e.variant < s.dropped.count e.variant ∨
      ∃ op ∈ s.ops, op.variant = e.variant ∧ op.executed = false
  listed : ∀ e ∈ s.stored, e.indexed → e.variant ∈ s.index ∨ e.removed

/-- What a PURGE knows from its first read on. -/
structure SeenOk (s : State) (seen : Seen) (value : ℤ) : Prop where
  stored : seen.stored ≤ s.stored.length
  inflight : 0 ≤ value
  relaunched : seen.relaunched ≤ seen.counted
  counted : seen.counted ≤ s.drops
  settled : value = 0 → seen.relaunched = seen.counted → AllIndexed s seen.stored

/-- What holds of a request where it stands. -/
def FrameOk (s : State) : Frame → Prop
  | .tagAdd .hit _ ttl => 0 < ttl
  | .inflightRead _ seen inflight => SeenOk s seen inflight
  | .dropsRead _ seen inflight drops => SeenOk s seen inflight ∧ seen.counted ≤ drops
  | .pending _ seen pendingAtLaunch =>
      seen.stored ≤ s.stored.length ∧ (pendingAtLaunch = 0 → AllIndexed s seen.stored)
  | _ => True

/-- The invariant. -/
structure Inv (s : State) : Prop where
  core : Core s (s.frames.countP Frame.isArmed) (s.frames.countP Frame.isAccepted)
  frames : ∀ f ∈ s.frames, FrameOk s f

theorem inv_start : Inv State.start :=
  ⟨⟨rfl, rfl, rfl, fun _ => le_refl _, nofun, nofun⟩, nofun⟩

/-! ## What other steps leave alone -/

/-- Drops are only added, and so are stores, which stay in their sets. -/
structure Grows (s s' : State) : Prop where
  drops : s.drops ≤ s'.drops
  stored : s.stored.length ≤ s'.stored.length
  indexed : ∀ n ≤ s.stored.length, AllIndexed s n → AllIndexed s' n

theorem Grows.of_eq {s s' : State} (hdrops : s'.drops = s.drops) (hstored : s'.stored = s.stored) :
    Grows s s' where
  drops := hdrops.ge
  stored := by rw [hstored]
  indexed := by
    intro n _ h
    unfold AllIndexed
    rw [hstored]
    exact h

/-- A step that marks stores does not unmark any. -/
theorem Grows.of_map {s s' : State} (hdrops : s'.drops = s.drops) {mark : Stored → Stored}
    (hstored : s'.stored = s.stored.map mark) (hmark : ∀ e, e.indexed → (mark e).indexed) :
    Grows s s' where
  drops := hdrops.ge
  stored := by rw [hstored, List.length_map]
  indexed := by
    intro n _ h e he
    rw [hstored, ← List.map_take] at he
    obtain ⟨old, hold, rfl⟩ := List.mem_map.1 he
    exact hmark old (h old hold)

/-- A completed store comes after those there are. -/
theorem Grows.of_append {s s' : State} (hdrops : s.drops ≤ s'.drops) {es : List Stored}
    (hstored : s'.stored = s.stored ++ es) : Grows s s' where
  drops := hdrops
  stored := by rw [hstored, List.length_append]; omega
  indexed := by
    intro n hn h e he
    rw [hstored, List.take_append_of_le_length hn] at he
    exact h e he

theorem SeenOk.grows {s s' : State} {seen : Seen} {value : ℤ} (h : SeenOk s seen value)
    (hg : Grows s s') : SeenOk s' seen value where
  stored := h.stored.trans hg.stored
  inflight := h.inflight
  relaunched := h.relaunched
  counted := h.counted.trans hg.drops
  settled := fun hzero heq => hg.indexed _ h.stored (h.settled hzero heq)

theorem FrameOk.grows {s s' : State} {f : Frame} (h : FrameOk s f) (hg : Grows s s') :
    FrameOk s' f := by
  cases f with
  | tagAdd caller v ttl => cases caller <;> exact h
  | inflightRead base seen inflight => exact SeenOk.grows h hg
  | dropsRead base seen inflight drops => exact ⟨SeenOk.grows h.1 hg, h.2⟩
  | pending base seen pendingAtLaunch =>
    exact ⟨h.1.trans hg.stored, fun hzero => hg.indexed _ h.1 (h.2 hzero)⟩
  | _ => trivial

/-! ## The accesses of a store and of a hit -/

section Accesses

variable {s : State} {armed accepted : ℕ}

/-- A completed store whose write is handed over, or whose drop is counted. -/
theorem Core.complete (h : Core s armed accepted) {v : Variant}
    (hv : s.relaunched.count v < s.dropped.count v ∨
      ∃ op ∈ s.ops, op.variant = v ∧ op.executed = false) :
    Core (complete s v) armed accepted where
  inflight := h.inflight
  drops := h.drops
  reissues := h.reissues
  covered := h.covered
  owed := by
    intro e he hindexed
    rcases List.mem_append.1 he with he | he
    · exact h.owed e he hindexed
    · obtain rfl := List.mem_singleton.1 he
      exact hv
  listed := by
    intro e he hindexed
    rcases List.mem_append.1 he with he | he
    · exact h.listed e he hindexed
    · obtain rfl := List.mem_singleton.1 he
      cases hindexed

/-- A write is handed over. -/
theorem Core.launch (h : Core s (armed + 1) accepted) (v : Variant) :
    Core { s with ops := s.ops ++ [⟨v, false⟩] } armed accepted where
  inflight := by
    have hinflight := h.inflight
    rw [List.length_append, List.length_singleton]
    push_cast at hinflight ⊢
    omega
  drops := h.drops
  reissues := h.reissues
  covered := h.covered
  owed := by
    intro e he hindexed
    rcases h.owed e he hindexed with hlt | ⟨op, hop, hrest⟩
    · exact Or.inl hlt
    · exact Or.inr ⟨op, List.mem_append_left _ hop, hrest⟩
  listed := h.listed

/-- A reissue is handed over, for a drop that was counted. -/
theorem Core.relaunch (h : Core s armed accepted) {v : Variant}
    (hlt : s.relaunched.count v < s.dropped.count v) (hop : ⟨v, false⟩ ∈ s.ops) :
    Core { s with relaunched := s.relaunched ++ [v] } armed (accepted + 1) where
  inflight := h.inflight
  drops := h.drops
  reissues := by
    have hreissues := h.reissues
    rw [List.length_append, List.length_singleton]
    push_cast
    omega
  covered := by
    intro w
    have hw := h.covered w
    rw [List.count_append, List.count_singleton]
    by_cases hvw : v = w
    · subst hvw
      rw [beq_self_eq_true, if_pos rfl]
      exact hlt
    · rw [beq_false_of_ne hvw, if_neg Bool.false_ne_true]
      exact hw
  owed := by
    intro e he hindexed
    by_cases hvw : v = e.variant
    · exact Or.inr ⟨_, hop, hvw, rfl⟩
    · rcases h.owed e he hindexed with hlt | hex
      · rw [List.count_append, List.count_singleton, beq_false_of_ne hvw,
          if_neg Bool.false_ne_true]
        exact Or.inl hlt
      · exact Or.inr hex
  listed := h.listed

/-- A drop is counted. -/
theorem Core.count (h : Core s armed accepted) (v : Variant) :
    Core { s with drops := s.drops + 1, dropped := s.dropped ++ [v] } armed accepted ∧
      s.relaunched.count v < (s.dropped ++ [v]).count v := by
  have hmore : ∀ w, s.dropped.count w ≤ (s.dropped ++ [v]).count w := by
    intro w
    rw [List.count_append]
    omega
  refine ⟨⟨h.inflight, ?_, h.reissues, fun w => (h.covered w).trans (hmore w), ?_, h.listed⟩, ?_⟩
  · have hdrops := h.drops
    rw [List.length_append, List.length_singleton]
    push_cast
    omega
  · intro e he hindexed
    rcases h.owed e he hindexed with hlt | hex
    · exact Or.inl (hlt.trans_le (hmore e.variant))
    · exact Or.inr hex
  · have hv := h.covered v
    rw [List.count_append, List.count_singleton_self]
    omega

theorem Core.varidxPendingSet (h : Core s armed accepted) (key : KeyHash) :
    Core (varidxPendingSet s key) armed accepted := by
  unfold VariantIndex.varidxPendingSet
  split_ifs
  · exact ⟨h.inflight, h.drops, h.reissues, h.covered, h.owed, h.listed⟩
  · exact h

end Accesses

/-! ## The reads of a PURGE -/

/-- Reissues are handed over for drops that were counted, so there are no more of them. -/
theorem Core.relaunched_le {s : State} {armed accepted : ℕ} (h : Core s armed accepted) :
    s.relaunched.length ≤ s.dropped.length :=
  (List.subperm_ext_iff.2 fun v _ => h.covered v).length_le

/-- **Nothing is owed** when no write is in flight and every counted drop was handed over
again. -/
theorem Core.allIndexed {s : State} {armed accepted : ℕ} (h : Core s armed accepted)
    (hinflight : s.inflight = 0) (heq : s.relaunched.length = s.dropped.length) :
    AllIndexed s s.stored.length := by
  intro e he
  rw [List.take_length] at he
  by_contra hnot
  have hperm : s.relaunched.Perm s.dropped :=
    (List.subperm_ext_iff.2 fun v _ => h.covered v).perm_of_length_le heq.ge
  rcases h.owed e he (Bool.eq_false_iff.2 hnot) with hlt | ⟨op, hop, -⟩
  · rw [hperm.count_eq] at hlt
    omega
  · have hlength := List.length_pos_of_mem hop
    have hsum := h.inflight
    omega

theorem seenOk_of_core {s : State} {armed accepted : ℕ} (h : Core s armed accepted) :
    SeenOk s ⟨s.stored.length, s.relaunched.length, s.dropped.length⟩ s.inflight where
  stored := le_refl _
  inflight := by
    have hsum := h.inflight
    omega
  relaunched := h.relaunched_le
  counted := h.drops.ge
  settled := h.allIndexed

/-- **A difference of zero is a difference of zero at the first read.** -/
theorem SeenOk.allIndexed {s : State} {seen : Seen} {inflight drops : ℤ}
    (h : SeenOk s seen inflight) (hdrops : seen.counted ≤ drops)
    (hreissues : s.reissues ≤ seen.relaunched) (hword : inflight + drops - s.reissues < word)
    (hzero : pendingAtLaunch inflight drops s.reissues = 0) : AllIndexed s seen.stored := by
  have hinflight := h.inflight
  have hrelaunched := h.relaunched
  have hexact : inflight + drops - s.reissues = 0 := by
    have hnonneg : 0 ≤ inflight + drops - s.reissues := by omega
    rw [pendingAtLaunch, Int.emod_eq_of_lt hnonneg hword] at hzero
    exact hzero
  exact h.settled (by omega) (by omega)

/-! ## Steps and runs -/

/-- **An access keeps the invariant**: it moves what it counts between the counters and the
frame. -/
theorem advance_kept {s : State} {ok : Bool} {f : Frame} {armed accepted : ℕ}
    (h : Core s (armed + f.isArmed.toNat) (accepted + f.isAccepted.toNat)) (hf : FrameOk s f)
    (hk : KeepsTurn s ok f) :
    Core (advance s ok f).1 (armed + (advance s ok f).2.isArmed.toNat)
        (accepted + (advance s ok f).2.isAccepted.toNat) ∧
      FrameOk (advance s ok f).1 (advance s ok f).2 ∧ Grows s (advance s ok f).1 := by
  have hsame : Grows s s := Grows.of_eq rfl rfl
  have hpending : ∀ key, Grows s (varidxPendingSet s key) := by
    intro key
    unfold varidxPendingSet
    split_ifs
    · exact Grows.of_eq rfl rfl
    · exact hsame
  cases f with
  | idle => exact ⟨h, trivial, hsame⟩
  | markerStore v ttl =>
    cases ok with
    | true => exact ⟨h, trivial, hsame⟩
    | false => exact ⟨h, trivial, hsame⟩
  | tagAdd caller v ttl =>
    have httl : ¬ ttl ≤ 0 := by
      cases caller with
      | store => exact not_le.2 hk
      | hit => exact not_le.2 hf
    simp only [advance, if_neg httl]
    cases ok with
    | true =>
      refine ⟨⟨?_, h.drops, h.reissues, h.covered, h.owed, h.listed⟩, trivial,
        Grows.of_eq rfl rfl⟩
      have hsum := h.inflight
      simp only [Frame.isArmed, if_true, Bool.toNat_true, Bool.toNat_false] at hsum ⊢
      push_cast at hsum ⊢
      omega
    | false => exact ⟨h, trivial, hsame⟩
  | armed caller v =>
    cases ok with
    | false => exact ⟨h, trivial, hsame⟩
    | true =>
      have hlaunched := h.launch v
      have hmem : (⟨v, false⟩ : SaddOp) ∈ s.ops ++ [⟨v, false⟩] :=
        List.mem_append_right _ (List.mem_singleton.2 rfl)
      cases caller with
      | store =>
        exact ⟨hlaunched.complete (Or.inr ⟨_, hmem, rfl, rfl⟩), trivial,
          Grows.of_append (le_refl _) rfl⟩
      | hit => exact ⟨hlaunched.relaunch (hk rfl) hmem, trivial, Grows.of_eq rfl rfl⟩
  | unarm caller v =>
    refine ⟨⟨?_, h.drops, h.reissues, h.covered, h.owed, h.listed⟩, trivial, Grows.of_eq rfl rfl⟩
    have hsum := h.inflight
    simp only [advance, Frame.isArmed, Bool.toNat_true, Bool.toNat_false] at hsum ⊢
    push_cast at hsum ⊢
    omega
  | refused caller v =>
    cases caller with
    | store => exact ⟨h.varidxPendingSet v.key, trivial, hpending v.key⟩
    | hit => exact ⟨h.varidxPendingSet v.key, trivial, hpending v.key⟩
  | marked v =>
    obtain ⟨hcounted, hlt⟩ := h.count v
    refine ⟨hcounted.complete (Or.inl hlt), trivial, Grows.of_append ?_ rfl⟩
    exact Int.le_add_of_nonneg_right (by decide)
  | accepted v =>
    refine ⟨⟨h.inflight, h.drops, ?_, h.covered, h.owed, h.listed⟩, trivial, Grows.of_eq rfl rfl⟩
    have hsum := h.reissues
    simp only [advance, Frame.isAccepted, Bool.toNat_true, Bool.toNat_false] at hsum ⊢
    push_cast at hsum ⊢
    omega
  | purge base =>
    cases ok with
    | true => exact ⟨h, seenOk_of_core h, hsame⟩
    | false => exact ⟨h, trivial, hsame⟩
  | inflightRead base seen inflight => exact ⟨h, ⟨hf, hf.counted⟩, hsame⟩
  | dropsRead base seen inflight drops =>
    exact ⟨h, ⟨hf.1.stored, hf.1.allIndexed hf.2 hk.1 hk.2⟩, hsame⟩
  | pending base seen pendingAtLaunch =>
    cases ok with
    | true => exact ⟨h, trivial, hsame⟩
    | false => exact ⟨h, trivial, hsame⟩
  | walk base => exact ⟨h, trivial, hsame⟩

/-- A request begins. -/
theorem Inv.begin {s s' : State} (h : Inv s) {f : Frame} (hf : FrameOk s' f)
    (harmed : f.isArmed = false) (haccepted : f.isAccepted = false)
    (hcore : ∀ armed accepted, Core s armed accepted → Core s' armed accepted)
    (hgrows : Grows s s') (hframes : s'.frames = s.frames ++ [f]) : Inv s' where
  core := by
    have hcount : ∀ p : Frame → Bool, p f = false → s'.frames.countP p = s.frames.countP p := by
      intro p hp
      rw [hframes, List.countP_append, List.countP_singleton, hp, if_neg Bool.false_ne_true,
        Nat.add_zero]
    rw [hcount _ harmed, hcount _ haccepted]
    exact hcore _ _ h.core
  frames := by
    intro g hg
    rw [hframes] at hg
    rcases List.mem_append.1 hg with hg | hg
    · exact (h.frames g hg).grows hgrows
    · obtain rfl := List.mem_singleton.1 hg
      exact hf

theorem reissueTtl_pos (remaining fallback : Time) : 0 < reissueTtl remaining fallback := by
  unfold reissueTtl
  dsimp only
  generalize (if remaining ≤ 0 then fallback else remaining) = ttl
  split_ifs with hle
  · decide
  · exact not_le.1 hle

/-- A step that neither adds nor moves a request. -/
theorem Inv.quiet {s s' : State} (h : Inv s)
    (hcore : ∀ armed accepted, Core s armed accepted → Core s' armed accepted)
    (hgrows : Grows s s') (hframes : s'.frames = s.frames) : Inv s' where
  core := by
    rw [hframes]
    exact hcore _ _ h.core
  frames := by
    intro f hf
    rw [hframes] at hf
    exact (h.frames f hf).grows hgrows

/-- A turn of one request. -/
theorem Inv.turn {s : State} (h : Inv s) {i : ℕ} {ok : Bool} (hk : Keeps s (.turn i ok)) :
    Inv (step s (.turn i ok)) := by
  show Inv (match s.frames[i]? with
    | none => s
    | some f => { (advance s ok f).1 with frames := s.frames.set i (advance s ok f).2 })
  rcases hframe : s.frames[i]? with _ | f
  · exact h
  · dsimp only
    obtain ⟨rest, hframes, hset, -⟩ := Threads.split_at hframe
    have hcount : ∀ p : Frame → Bool, s.frames.countP p = rest.countP p + (p f).toNat := by
      intro p
      rw [hframes.countP_eq, List.countP_cons]
      cases p f <;> rfl
    have hcount' : ∀ p : Frame → Bool, (s.frames.set i (advance s ok f).2).countP p =
        rest.countP p + (p (advance s ok f).2).toNat := by
      intro p
      rw [(hset _).countP_eq, List.countP_cons]
      cases p (advance s ok f).2 <;> rfl
    have hcore := h.core
    rw [hcount, hcount] at hcore
    obtain ⟨hnext, hown, hgrows⟩ := advance_kept hcore
      (h.frames f (List.mem_of_getElem? hframe)) (hk f hframe)
    refine ⟨?_, fun g hg => ?_⟩
    · dsimp only
      rw [hcount', hcount']
      exact ⟨hnext.inflight, hnext.drops, hnext.reissues, hnext.covered, hnext.owed, hnext.listed⟩
    · have hsame : Grows (advance s ok f).1
          { (advance s ok f).1 with frames := s.frames.set i (advance s ok f).2 } :=
        Grows.of_eq rfl rfl
      rcases List.mem_cons.1 ((hset _).subset hg) with rfl | hg
      · exact hown.grows hsame
      · have hmem : g ∈ s.frames := hframes.symm.subset (List.mem_cons_of_mem f hg)
        exact ((h.frames g hmem).grows hgrows).grows hsame

/-- Redis executes a write: its key is in the set, and every store of it so far is. -/
theorem Core.execute {s : State} {armed accepted : ℕ} (h : Core s armed accepted) {j : ℕ}
    {op : SaddOp} (hop : s.ops[j]? = some op) :
    Core { s with
      ops := s.ops.set j { op with executed := true }
      index := op.variant :: s.index
      stored := s.stored.map fun e =>
        if e.variant = op.variant then { e with indexed := true } else e } armed accepted where
  inflight := by
    rw [List.length_set]
    exact h.inflight
  drops := h.drops
  reissues := h.reissues
  covered := h.covered
  owed := by
    intro e he hindexed
    obtain ⟨old, hold, rfl⟩ := List.mem_map.1 he
    by_cases hvariant : old.variant = op.variant
    · rw [if_pos hvariant] at hindexed
      cases hindexed
    · rw [if_neg hvariant] at hindexed ⊢
      rcases h.owed old hold hindexed with hlt | ⟨other, hother, hsame, hnot⟩
      · exact Or.inl hlt
      · obtain ⟨rest, hops, hset, -⟩ := Threads.split_at hop
        rcases List.mem_cons.1 (hops.subset hother) with rfl | hrest
        · exact absurd hsame.symm hvariant
        · exact Or.inr ⟨other, (hset _).symm.subset (List.mem_cons_of_mem _ hrest), hsame, hnot⟩
  listed := by
    intro e he hindexed
    obtain ⟨old, hold, rfl⟩ := List.mem_map.1 he
    by_cases hvariant : old.variant = op.variant
    · rw [if_pos hvariant, hvariant]
      exact Or.inl List.mem_cons_self
    · rw [if_neg hvariant] at hindexed ⊢
      rcases h.listed old hold hindexed with hmem | hremoved
      · exact Or.inl (List.mem_cons_of_mem _ hmem)
      · exact Or.inr hremoved

/-- A write ends that redis has executed. -/
theorem Core.opDone {s : State} {armed accepted : ℕ} (h : Core s armed accepted) {j : ℕ}
    {op : SaddOp} (hop : s.ops[j]? = some op) (hexecuted : op.executed) :
    Core { s with ops := s.ops.eraseIdx j, inflight := s.inflight - 1 } armed accepted := by
  obtain ⟨rest, hops, -, herase⟩ := Threads.split_at hop
  refine ⟨?_, h.drops, h.reissues, h.covered, fun e he hindexed => ?_, h.listed⟩
  · have hsum := h.inflight
    rw [hops.length_eq, List.length_cons] at hsum
    rw [herase.length_eq]
    show s.inflight - 1 = _
    push_cast at hsum
    omega
  · rcases h.owed e he hindexed with hlt | ⟨other, hother, hsame, hnot⟩
    · exact Or.inl hlt
    · rcases List.mem_cons.1 (hops.subset hother) with rfl | hrest
      · rw [hexecuted] at hnot
        cases hnot
      · exact Or.inr ⟨other, herase.symm.subset hrest, hsame, hnot⟩

/-- A PURGE takes a member out. -/
theorem Core.srem {s : State} {armed accepted : ℕ} (h : Core s armed accepted) (v : Variant) :
    Core { s with
      index := s.index.filter (· ≠ v)
      stored := s.stored.map fun e =>
        if e.variant = v ∧ e.indexed then { e with removed := true } else e } armed accepted where
  inflight := h.inflight
  drops := h.drops
  reissues := h.reissues
  covered := h.covered
  owed := by
    intro e he hindexed
    obtain ⟨old, hold, rfl⟩ := List.mem_map.1 he
    by_cases hmarks : old.variant = v ∧ old.indexed
    · rw [if_pos hmarks] at hindexed
      rw [hmarks.2] at hindexed
      cases hindexed
    · rw [if_neg hmarks] at hindexed ⊢
      exact h.owed old hold hindexed
  listed := by
    intro e he hindexed
    obtain ⟨old, hold, rfl⟩ := List.mem_map.1 he
    by_cases hmarks : old.variant = v ∧ old.indexed
    · rw [if_pos hmarks]
      exact Or.inr rfl
    · rw [if_neg hmarks] at hindexed ⊢
      rcases h.listed old hold hindexed with hmem | hremoved
      · have hne : old.variant ≠ v := fun heq => hmarks ⟨heq, hindexed⟩
        exact Or.inl (List.mem_filter.2 ⟨hmem, decide_eq_true hne⟩)
      · exact Or.inr hremoved

/-- **Every step that meets the condition keeps the invariant.** -/
theorem Inv.step {s : State} (h : Inv s) {a : Act} (hk : Keeps s a) : Inv (step s a) := by
  have hlinks : ∀ {s' : State}, s'.inflight = s.inflight → s'.drops = s.drops →
      s'.reissues = s.reissues → s'.ops = s.ops → s'.index = s.index → s'.dropped = s.dropped →
      s'.relaunched = s.relaunched → s'.stored = s.stored →
      ∀ armed accepted, Core s armed accepted → Core s' armed accepted := by
    rintro ⟨⟩ rfl rfl rfl rfl rfl rfl rfl rfl armed accepted hcore
    exact ⟨hcore.inflight, hcore.drops, hcore.reissues, hcore.covered, hcore.owed, hcore.listed⟩
  cases a with
  | store v ttl =>
    exact h.begin (f := .markerStore v ttl) trivial rfl rfl
      (hlinks rfl rfl rfl rfl rfl rfl rfl rfl) (Grows.of_eq rfl rfl) rfl
  | hit v remaining fallback =>
    simp only [VariantIndex.step]
    split_ifs
    · exact h.begin (f := .tagAdd .hit v (reissueTtl remaining fallback))
        (reissueTtl_pos remaining fallback) rfl rfl (hlinks rfl rfl rfl rfl rfl rfl rfl rfl)
        (Grows.of_eq rfl rfl) rfl
    · exact h
  | purge base =>
    exact h.begin (f := .purge base) trivial rfl rfl (hlinks rfl rfl rfl rfl rfl rfl rfl rfl)
      (Grows.of_eq rfl rfl) rfl
  | turn i ok => exact h.turn hk
  | execute j =>
    simp only [VariantIndex.step]
    rcases hop : s.ops[j]? with _ | op
    · exact h
    · refine h.quiet (fun _ _ hcore => hcore.execute hop) (Grows.of_map rfl rfl ?_) rfl
      intro e he
      split_ifs
      · rfl
      · exact he
  | opDone j =>
    simp only [VariantIndex.step]
    rcases hop : s.ops[j]? with _ | op
    · exact h
    · exact h.quiet (fun _ _ hcore => hcore.opDone hop (hk op hop)) (Grows.of_eq rfl rfl) rfl
  | srem i v =>
    simp only [VariantIndex.step]
    split_ifs
    · refine h.quiet (fun _ _ hcore => hcore.srem v) (Grows.of_map rfl rfl ?_) rfl
      intro e he
      split_ifs
      · exact he
      · exact he
    · exact h
  | evict key =>
    exact h.quiet (hlinks rfl rfl rfl rfl rfl rfl rfl rfl) (Grows.of_eq rfl rfl) rfl

/-- The invariant makes an unmarked answer sound. -/
theorem Inv.sound {s : State} (h : Inv s) {a : Act} (hk : Keeps s a) : Sound s a := by
  intro purge hpurge e he hbase
  cases a with
  | turn i ok =>
    rw [Option.mem_def, unmarked] at hpurge
    rcases hframe : s.frames[i]? with _ | f
    · simp only [hframe] at hpurge
      cases hpurge
    · simp only [hframe] at hpurge
      cases f with
      | pending base seen pendingAtLaunch =>
        dsimp only at hpurge
        have hzero : pendingAtLaunch = 0 := by
          rcases hk _ hframe with hok | hzero
          · by_contra hne
            rw [if_pos ⟨hok, hne⟩] at hpurge
            cases hpurge
          · exact hzero
        rw [if_neg fun hmark => hmark.2 hzero] at hpurge
        obtain rfl := Option.some.inj hpurge
        have hown : FrameOk s (.pending base seen pendingAtLaunch) :=
          h.frames _ (List.mem_of_getElem? hframe)
        exact h.core.listed e (List.mem_of_mem_take he) (hown.2 hzero e he)
      | _ => cases hpurge
  | _ => cases hpurge

/-- **The signal of a PURGE is sound where the steps keep apart.**  For every run of stores,
hits, PURGEs, writes, failures and evictions whose steps meet the condition, every answer
without the mark is right. -/
theorem signal_sound (run : List Act) (hrun : Run.Along step Keeps State.start run) :
    Run.Along step Sound State.start run := by
  have hstep : ∀ s a, Inv s → Keeps s a → Sound s a ∧ Inv (step s a) :=
    fun _ _ h hk => ⟨h.sound hk, h.step hk⟩
  exact Run.along_of_invariant hstep inv_start hrun

/-! ## A reissue between two reads -/

/-- The variant of `/` that is stored. -/
def page : Variant := ⟨[47], Vector.replicate 32 0⟩

/-- The write of a store is handed over and executed; then a PURGE of the base reads the
counters. -/
def quietRun : List Act :=
  [.store page 60, .turn 0 true, .turn 0 true, .turn 0 true, .execute 0, .opDone 0,
    .purge [47], .turn 1 true, .turn 1 true, .turn 1 true, .turn 1 true]

/-- The write of a store is dropped.  A PURGE of the base reads that nothing is in flight and
that one write was dropped; a hit hands the write over again and counts that; the PURGE reads
that one was reissued. -/
def racingRun : List Act :=
  [.store page 60, .turn 0 true, .turn 0 false, .turn 0 true, .turn 0 true,
    .purge [47], .turn 1 true, .turn 1 true,
    .hit page 60 60, .turn 2 true, .turn 2 true, .turn 2 true,
    .turn 1 true, .turn 1 true]

theorem signal_sound_quiet : Run.Along step Sound State.start quietRun :=
  signal_sound quietRun (by decide)

/-- **A reissue between the reads of a PURGE hides a write that is in flight.** -/
theorem not_sound_racing : ¬ ∀ run : List Act, Run.Along step Sound State.start run := by
  intro h
  exact absurd (h racingRun) (by decide)

end VariantIndex
end L2
end CacheTurbo
