/-
# Runs of zone operations

`ZoneOp` lists the operations requests run on a zone; each is one hold of the
mutex, except the two writes at the end, which stand for what other workers do
to the breaker word and what a configuration reload does to the admission
switch.  `exec` runs one operation at a time given by the clock, and a run is a
list of them from `freshZone`, whose slab may answer any pattern of successes
and failures and hand out blocks with any old bytes.

The main result says that tree, queues, labels, counters and lookup agree after
every run.
-/

import CacheTurbo.Lib.Run
import CacheTurbo.Shm.ClaimSpec

namespace CacheTurbo
namespace Shm

/-- An operation on a zone. -/
inductive ZoneOp
  | store (keyHash : KeyHash) (hash : UInt32) (data : List UInt8) (freshTtl staleTtl : Time)
      (wanted : Bool)
  | storeIf (keyHash : KeyHash) (hash : UInt32) (data : List UInt8) (freshTtl staleTtl : Time)
      (predicate : StoreIf) (wanted : Bool)
  | storeMarker (keyHash : KeyHash) (hash : UInt32) (data : List UInt8) (freshTtl staleTtl : Time)
  | freshen (keyHash : KeyHash) (freshTtl staleTtl : Time)
  | claim (keyHash : KeyHash) (hash : UInt32) (lockTtl : Time)
  | countMiss (keyHash : KeyHash) (hash : UInt32) (minUses : ℤ) (window : Time)
  | resolveMiss (keyHash : KeyHash) (hash : UInt32) (minUses : ℤ) (window lockTtl : Time)
  | owns (keyHash : KeyHash) (owner : ℕ)
  | unstub (keyHash : KeyHash) (owner : ℕ)
  | l2NegCheck (keyHash : KeyHash) (hash : UInt32)
  | l2NegSet (keyHash : KeyHash) (hash : UInt32) (ttl : Time)
  | varidxPendingSet (keyHash : KeyHash) (mark : Bool)
  | touchLru (keyHash : KeyHash) (protectedPct : ℕ) (hash : UInt32)
  | accessL1 (keyHash : KeyHash) (hash : UInt32) (q : L1Req)
  | purgeKey (keyHash : KeyHash)
  | purgeIfBlob (keyHash : KeyHash) (stored : BlobId)
  | purgeBatch (remaining : ℕ)
  | purgeAll
  | breakerWrite (word : ℕ)
  | admissionWrite (on : Bool)

/-- What an operation answers. -/
inductive Answer
  | done
  | flag (b : Bool)
  | code (rc : Rc)
  | stored (rc : Rc) (pin : Option BlobId)
  | claimed (answer : ClaimAnswer)
  | resolved (rc : Rc) (answer : ClaimAnswer)
  | l1 (verdict : L1Verdict)
  | purged (count : ℕ) (rc : Rc)
  deriving DecidableEq, Repr

/-- The references an operation hands to the request. -/
def Answer.pins : Answer → List BlobId
  | .stored _ pin => pin.toList
  | .claimed answer | .resolved _ answer => answer.freshData.toList
  | .l1 verdict => verdict.pins
  | .done | .flag _ | .code _ | .purged _ _ => []

/-- A zone after `ngx_http_cache_turbo_shm_init_zone`. -/
def freshZone (mem : Addr → Node) (blob : BlobId → Blob) (answers : ℕ → Option Addr)
    (sketch : Sketch) (admission : Bool) (breakerState : ℕ) : Zone where
  rbtree := .nil
  lru := []
  lruProtected := []
  nProtected := 0
  nEntries := 0
  evictions := 0
  markers := 0
  ownerSeq := 0
  breakerState := breakerState
  admission := admission
  admissionRefused := 0
  sketch := sketch
  usedBytes := 0
  mem := mem
  blob := blob
  slab := ⟨[], [], [], 0, answers, 0⟩
  alerts := 0
  wild := 0

theorem Wf.freshZone (mem : Addr → Node) (blob : BlobId → Blob) (answers : ℕ → Option Addr)
    (sketch : Sketch) (admission : Bool) (breakerState : ℕ) :
    Wf [] [] [] [] [] (Shm.freshZone mem blob answers sketch admission breakerState) where
  queues := {
    tree := List.Perm.refl _
    nodup := List.nodup_nil
    sorted := List.Pairwise.nil
    lru_seg := nofun
    protected_seg := nofun
    nProtected := rfl
    nEntries := rfl
    shape := nofun }
  heap := {
    taken := List.Perm.refl _
    nodup := List.nodup_nil
    serials := List.Perm.refl _
    own_nodup := List.nodup_nil
    own_live := nofun
    held_live := nofun
    pending_nodup := List.nodup_nil
    pending_live := nofun
    refs := nofun
    pending_iff := nofun
    detached_iff := nofun
    used := rfl
    alerts := rfl
    wild := rfl }

/-- A zone just initialised over blocks of zero bytes, without a sketch. -/
def blankZone (answers : ℕ → Option Addr) (breakerState : ℕ) : Zone :=
  freshZone (fun _ => ⟨Vector.replicate 32 0, .entry, none, 0, 0, 0, false, 0, 0, 0, 0, 0,
    .segProbation, false, false, false, 0⟩) (fun _ => ⟨0, 0, false, 0, []⟩) answers
    ⟨none, 0, 0, 0, 0, 0, 0⟩ false breakerState

theorem Wf.blankZone (answers : ℕ → Option Addr) (breakerState : ℕ) :
    Wf [] [] [] [] [] (Shm.blankZone answers breakerState) := Wf.freshZone _ _ _ _ _ _

/-- `shm_touch_lru` as its callers run it: on the node a lookup under the same
hold of the mutex has just returned. -/
def touchFound (z : Zone) (keyHash : KeyHash) (now : Time) (protectedPct : ℕ) (hash : UInt32) :
    Zone :=
  match lookup z keyHash with
  | none => z
  | some ctn => touchLru z ctn now protectedPct hash

theorem Wf.touchFound {held pending : List BlobId} {z : Zone} (h : Wf held pending [] [] [] z)
    (keyHash : KeyHash) (now : Time) (protectedPct : ℕ) (hash : UInt32) :
    let z' := Shm.touchFound z keyHash now protectedPct hash
    Wf held pending [] [] [] z' ∧ Kept none z z' ∧ z'.resident.Perm z.resident := by
  unfold Shm.touchFound
  cases hl : lookup z keyHash with
  | none => exact ⟨h, Kept.refl _ _, List.Perm.refl _⟩
  | some a =>
    obtain ⟨ha, -⟩ := h.queues.lookup_resident hl
    exact h.touchLru ha now protectedPct hash

variable (rb : Rbtree)

/-- One operation at the time `now`. -/
def exec (z : Zone) (now : Time) : ZoneOp → Zone × Answer
  | .store k hash data freshTtl staleTtl wanted =>
      let r := store rb z k hash now data freshTtl staleTtl wanted
      (r.1, .stored r.2.1 r.2.2)
  | .storeIf k hash data freshTtl staleTtl predicate wanted =>
      let r := storeIf rb z k hash now data freshTtl staleTtl predicate wanted
      (r.1, .stored r.2.1 r.2.2)
  | .storeMarker k hash data freshTtl staleTtl =>
      let r := storeMarker rb z k hash now data freshTtl staleTtl
      (r.1, .code r.2)
  | .freshen k freshTtl staleTtl =>
      let r := freshen z k now freshTtl staleTtl
      (r.1, .code r.2)
  | .claim k hash lockTtl =>
      let r := claim rb z k hash now lockTtl
      (r.1, .claimed r.2)
  | .countMiss k hash minUses window =>
      let r := countMiss rb z k hash now minUses window
      (r.1, .code r.2)
  | .resolveMiss k hash minUses window lockTtl =>
      let r := resolveMiss rb z k hash now minUses window lockTtl
      (r.1, .resolved r.2.1 r.2.2)
  | .owns k owner => (z, .flag (owns z k owner))
  | .unstub k owner => (unstub rb z k owner now, .done)
  | .l2NegCheck k hash =>
      let r := l2NegCheck z k hash now
      (r.1, .code r.2)
  | .l2NegSet k hash ttl => (l2NegSet rb z k hash now ttl, .done)
  | .varidxPendingSet k mark => (varidxPendingSet z k mark, .done)
  | .touchLru k protectedPct hash => (touchFound z k now protectedPct hash, .done)
  | .accessL1 k hash q =>
      let r := accessL1 z k hash now q
      (r.1, .l1 r.2)
  | .purgeKey k =>
      let r := purgeKey rb z k
      (r.1, .flag r.2)
  | .purgeIfBlob k stored =>
      let r := purgeIfBlob rb z k stored
      (r.1, .flag r.2)
  | .purgeBatch remaining =>
      let r := purgeBatch rb z remaining
      (r.1, .purged r.2 .ok)
  | .purgeAll =>
      let r := purgeAll rb z
      (r.1, .purged r.2.1 r.2.2)
  | .breakerWrite word => ({ z with breakerState := word }, .done)
  | .admissionWrite on => ({ z with admission := on }, .done)

/-- The digest an operation works on, if it works on one. -/
def ZoneOp.key : ZoneOp → Option KeyHash
  | .store k .. | .storeIf k .. | .storeMarker k .. | .freshen k .. | .claim k ..
  | .countMiss k .. | .resolveMiss k .. | .owns k .. | .unstub k .. | .l2NegCheck k ..
  | .l2NegSet k .. | .varidxPendingSet k .. | .touchLru k .. | .accessL1 k .. | .purgeKey k
  | .purgeIfBlob k .. => some k
  | .purgeBatch _ | .purgeAll | .breakerWrite _ | .admissionWrite _ => none

/-- The frame of an operation: a digest it does not work on survives, the bytes
of a body never change and owner tokens are only ever added. -/
structure OpFrame (op : ZoneOp) (z z' : Zone) : Prop where
  other : ∀ k, op.key ≠ some k → Survives z z' k
  serial : z.slab.serial ≤ z'.slab.serial
  content : ∀ b < z.slab.serial, (z'.blob b).content = (z.blob b).content
  ownerSeq : z.ownerSeq ≤ z'.ownerSeq

theorem Framed.opFrame {op : ZoneOp} {z z' : Zone} {k : KeyHash} (h : Framed k z z')
    (hk : op.key = some k) : OpFrame op z z' :=
  ⟨fun k' hk' => h.other k' fun he => hk' (by rw [hk, he]), h.serial, h.content, h.ownerSeq⟩

theorem Kept.opFrame {op : ZoneOp} {z z' : Zone} (h : Kept none z z') (hq : Queues [] z)
    (hq' : Queues [] z') : OpFrame op z z' :=
  ⟨fun k _ => h.survives hq hq' k, h.serial, h.content, h.ownerSeq⟩

/-- **Every operation keeps the zone invariant and its frame**, and the references
it hands out are accounted for. -/
theorem Wf.exec {held pending : List BlobId} {z : Zone} (h : Wf held pending [] [] [] z)
    (now : Time) (op : ZoneOp) :
    let r := Shm.exec rb z now op
    Wf (r.2.pins ++ held) pending [] [] [] r.1 ∧ OpFrame op z r.1 := by
  have hsame : Kept none z z := Kept.refl _ _
  cases op with
  | store k hash data freshTtl staleTtl wanted =>
    obtain ⟨h1, h2, -⟩ := h.store rb k hash now data freshTtl staleTtl wanted
    exact ⟨h1, h2.opFrame rfl⟩
  | storeIf k hash data freshTtl staleTtl predicate wanted =>
    obtain ⟨h1, h2, -⟩ := h.storeIf rb k hash now data freshTtl staleTtl predicate wanted
    exact ⟨h1, h2.opFrame rfl⟩
  | storeMarker k hash data freshTtl staleTtl =>
    obtain ⟨h1, h2, -⟩ := h.storeMarker rb k hash now data freshTtl staleTtl
    exact ⟨h1, h2.opFrame rfl⟩
  | freshen k freshTtl staleTtl =>
    obtain ⟨h1, h2, -⟩ := h.freshen k now freshTtl staleTtl
    exact ⟨h1, h2.opFrame rfl⟩
  | claim k hash lockTtl =>
    obtain ⟨h1, h2, -⟩ := h.claim rb k hash now lockTtl
    exact ⟨h1, h2.opFrame rfl⟩
  | countMiss k hash minUses window =>
    obtain ⟨h1, h2, -⟩ := h.countMiss rb k hash now minUses window
    exact ⟨h1, h2.opFrame rfl⟩
  | resolveMiss k hash minUses window lockTtl =>
    obtain ⟨h1, h2, -⟩ := h.resolveMiss rb k hash now minUses window lockTtl
    exact ⟨h1, h2.opFrame rfl⟩
  | owns k owner => exact ⟨h, hsame.opFrame h.queues h.queues⟩
  | unstub k owner =>
    obtain ⟨h1, h2, -⟩ := h.unstub rb k owner now
    exact ⟨h1, h2.opFrame rfl⟩
  | l2NegCheck k hash =>
    obtain ⟨h1, h2, -⟩ := h.l2NegCheck k hash now
    exact ⟨h1, h2.opFrame h.queues h1.queues⟩
  | l2NegSet k hash ttl =>
    obtain ⟨h1, h2, -⟩ := h.l2NegSet rb k hash now ttl
    exact ⟨h1, h2.opFrame rfl⟩
  | varidxPendingSet k mark =>
    obtain ⟨h1, h2, -⟩ := h.varidxPendingSet k mark
    exact ⟨h1, h2.opFrame h.queues h1.queues⟩
  | touchLru k protectedPct hash =>
    obtain ⟨h1, h2, -⟩ := h.touchFound k now protectedPct hash
    exact ⟨h1, h2.opFrame h.queues h1.queues⟩
  | accessL1 k hash q =>
    obtain ⟨h1, h2, -⟩ := h.accessL1 k hash now q
    exact ⟨h1, h2.opFrame rfl⟩
  | purgeKey k =>
    obtain ⟨h1, h2, -⟩ := h.purgeKey rb k
    exact ⟨h1, h2.opFrame h.queues h1.queues⟩
  | purgeIfBlob k stored =>
    obtain ⟨h1, h2, -⟩ := h.purgeIfBlob rb k stored
    exact ⟨h1, h2.opFrame h.queues h1.queues⟩
  | purgeBatch remaining =>
    obtain ⟨h1, h2⟩ := h.purgeBatch rb remaining
    exact ⟨h1, h2.opFrame h.queues h1.queues⟩
  | purgeAll =>
    obtain ⟨h1, h2⟩ := h.purgeAll rb
    exact ⟨h1, h2.opFrame h.queues h1.queues⟩
  | breakerWrite word =>
    have h1 : Wf held pending [] [] [] { z with breakerState := word } := h.of_eq rfl rfl
    have h2 : Kept none z { z with breakerState := word } := .of_mem rfl rfl rfl rfl le_rfl
    exact ⟨h1, h2.opFrame h.queues h1.queues⟩
  | admissionWrite on =>
    have h1 : Wf held pending [] [] [] { z with admission := on } := h.of_eq rfl rfl
    have h2 : Kept none z { z with admission := on } := .of_mem rfl rfl rfl rfl le_rfl
    exact ⟨h1, h2.opFrame h.queues h1.queues⟩

/-! ### The representation of a zone -/

/-- Tree, queues, labels, counters and lookup of a zone agree. -/
structure Represents (z : Zone) : Prop where
  tree : ∀ a, a ∈ addrs z.rbtree ↔ a ∈ z.lru ∨ a ∈ z.lruProtected
  tree_once : (addrs z.rbtree).Nodup
  queues_once : (z.lru ++ z.lruProtected).Nodup
  protected_iff : ∀ a ∈ addrs z.rbtree, a ∈ z.lruProtected ↔ (z.mem a).seg = .segProtected
  nProtected : z.nProtected = z.lruProtected.length
  nEntries : z.nEntries = z.lru.length + z.lruProtected.length
  unique : ∀ a ∈ addrs z.rbtree, ∀ b ∈ addrs z.rbtree, (z.mem a).key = (z.mem b).key → a = b
  lookup_node : ∀ keyHash, ∀ a, lookup z keyHash = some a ↔
    a ∈ addrs z.rbtree ∧ (z.mem a).key = keyHash
  lookup_null : ∀ keyHash, lookup z keyHash = none ↔
    ∀ a ∈ addrs z.rbtree, (z.mem a).key ≠ keyHash
  counter : ∀ a ∈ addrs z.rbtree, (z.mem a).kind = .counter →
    (z.mem a).data = none ∧ (z.mem a).len = 0 ∧ (z.mem a).seg = .segProbation
  carrier : ∀ a ∈ addrs z.rbtree, (z.mem a).kind ≠ .counter → (z.mem a).data.isSome
  marker : ∀ a ∈ addrs z.rbtree, (z.mem a).kind = .marker → (z.mem a).seg = .segProbation

theorem Queues.represents {z : Zone} (h : Queues [] z) : Represents z := by
  have htree : ∀ a, a ∈ addrs z.rbtree ↔ a ∈ z.resident := by
    intro a
    rw [h.mem_tree]
    simp
  have hlook : ∀ keyHash a, lookup z keyHash = some a ↔
      a ∈ addrs z.rbtree ∧ (z.mem a).key = keyHash := fun keyHash a =>
    lookup_eq_some_iff h.sorted keyHash a
  have hnodup : (z.lru ++ z.lruProtected).Nodup := h.resident_nodup
  refine ⟨fun a => (htree a).trans List.mem_append, ?_, hnodup, ?_, h.nProtected, ?_, ?_, hlook,
    fun keyHash => lookup_eq_none_iff h.sorted keyHash, ?_, ?_, ?_⟩
  · rw [h.tree.nodup_iff]
    exact h.nodup
  · intro a ha
    constructor
    · exact h.protected_seg a
    · intro hseg
      rcases List.mem_append.1 ((htree a).1 ha) with hl | hp
      · rw [h.lru_seg a hl] at hseg
        cases hseg
      · exact hp
  · rw [h.nEntries, List.append_nil, ← List.length_append]
    rfl
  · intro a ha b hb hk
    have h1 := (hlook (z.mem b).key a).2 ⟨ha, hk⟩
    have h2 := (hlook (z.mem b).key b).2 ⟨hb, rfl⟩
    rw [h1] at h2
    exact Option.some.inj h2
  · intro a ha hk
    have hok := h.shape a ((htree a).1 ha)
    unfold NodeOk at hok
    rwa [if_pos hk] at hok
  · intro a ha hk
    have hok := h.shape a ((htree a).1 ha)
    unfold NodeOk at hok
    rw [if_neg hk] at hok
    exact hok.1
  · intro a ha hk
    have hok := h.shape a ((htree a).1 ha)
    unfold NodeOk at hok
    rw [if_neg (by rw [hk]; exact nofun)] at hok
    exact hok.2 hk

/-- The zone after one timed operation of a run. -/
def runStep (z : Zone) (event : Time × ZoneOp) : Zone := (exec rb z event.1 event.2).1

/-- **The representation invariant.**  After every run of operations from a fresh
zone, at any times, with any slab answers, breaker words and old block contents,
tree and queues hold the same nodes, each once; the labels and both counters are
right; and the lookup returns the one node with a digest, or NULL. -/
theorem representation (mem : Addr → Node) (blob : BlobId → Blob) (answers : ℕ → Option Addr)
    (sketch : Sketch) (admission : Bool) (breakerState : ℕ) (run : List (Time × ZoneOp)) :
    Represents (Run.after (runStep rb)
      (freshZone mem blob answers sketch admission breakerState) run) := by
  have hinv : ∃ held, Wf held [] [] [] [] (Run.after (runStep rb)
      (freshZone mem blob answers sketch admission breakerState) run) := by
    refine Run.after_invariant (P := fun z => ∃ held, Wf held [] [] [] [] z) ?_ ⟨[], ?_⟩ run
    · rintro z ⟨now, op⟩ ⟨held, h⟩
      exact ⟨_, (h.exec rb now op).1⟩
    · exact Wf.freshZone mem blob answers sketch admission breakerState
  obtain ⟨held, h⟩ := hinv
  exact h.queues.represents

end Shm
end CacheTurbo
