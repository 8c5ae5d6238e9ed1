/-
# The zone as a map from digests to entries

What an operation outside the queues reads of a node is its `Core`; `view z k`
is the core of the node with digest `k`, if there is one.  `Kept t z z'` is the
frame every lock-held function meets: a node of the new state is the one it
worked on (`t`), or it was there before with the same digest and core.  Read
through the view this says that any other digest keeps its core or loses its
node, which is all that evictions can do to it (`Kept.view`).
-/

import CacheTurbo.Shm.Eviction

namespace CacheTurbo
namespace Shm

/-- The fields of a node that have nothing to do with its place in the queues. -/
structure Core where
  kind : NodeKind
  data : Option BlobId
  len : ℕ
  freshUntil : Time
  staleUntil : Time
  refreshing : Bool
  refreshOwner : ℕ
  refreshLockUntil : Time
  missCount : ℕ
  l2NegUntil : Time
  deriving DecidableEq

def Node.core (n : Node) : Core :=
  ⟨n.kind, n.data, n.len, n.freshUntil, n.staleUntil, n.refreshing, n.refreshOwner,
    n.refreshLockUntil, n.missCount, n.l2NegUntil⟩

/-- The core stored under a digest. -/
def view (z : Zone) (keyHash : KeyHash) : Option Core :=
  (lookup z keyHash).map fun a => (z.mem a).core

/-- The frame of a lock-held function that works on the node `t`. -/
structure Kept (t : Option Addr) (z z' : Zone) : Prop where
  nodes : ∀ a ∈ z'.resident, t = some a ∨
    a ∈ z.resident ∧ (z'.mem a).key = (z.mem a).key ∧ (z'.mem a).core = (z.mem a).core
  serial : z.slab.serial ≤ z'.slab.serial
  content : ∀ b < z.slab.serial, (z'.blob b).content = (z.blob b).content
  ownerSeq : z.ownerSeq ≤ z'.ownerSeq

namespace Kept

variable {t : Option Addr} {z z' z'' : Zone}

theorem refl (t : Option Addr) (z : Zone) : Kept t z z :=
  ⟨fun _ ha => Or.inr ⟨ha, rfl, rfl⟩, le_rfl, fun _ _ => rfl, le_rfl⟩

theorem mono (h : Kept none z z') : Kept t z z' :=
  ⟨fun a ha => Or.inr ((h.nodes a ha).resolve_left nofun), h.serial, h.content, h.ownerSeq⟩

theorem trans (h : Kept t z z') (h' : Kept t z' z'') : Kept t z z'' where
  nodes a ha := by
    rcases h'.nodes a ha with ht | ⟨ha', hk', hc'⟩
    · exact Or.inl ht
    · rcases h.nodes a ha' with ht | ⟨ha'', hk, hc⟩
      · exact Or.inl ht
      · exact Or.inr ⟨ha'', hk'.trans hk, hc'.trans hc⟩
  serial := h.serial.trans h'.serial
  content b hb := by rw [h'.content b (lt_of_lt_of_le hb h.serial), h.content b hb]
  ownerSeq := h.ownerSeq.trans h'.ownerSeq

/-- A function that works on a node and leaves its core alone keeps every node. -/
theorem drop {a : Addr} (h : Kept (some a) z z') (ha : a ∈ z.resident)
    (hk : (z'.mem a).key = (z.mem a).key) (hc : (z'.mem a).core = (z.mem a).core) :
    Kept none z z' where
  nodes b hb := by
    rcases h.nodes b hb with he | hrest
    · obtain rfl := Option.some.inj he
      exact Or.inr ⟨ha, hk, hc⟩
    · exact Or.inr hrest
  serial := h.serial
  content := h.content
  ownerSeq := h.ownerSeq

theorem of_evicts (h : Evicts z z') : Kept none z z' where
  nodes a ha := Or.inr ⟨h.resident.subset ha, h.field Node.key (fun _ => rfl) a,
    h.field Node.core (fun _ => rfl) a⟩
  serial := h.serial
  content := h.content
  ownerSeq := h.ownerSeq.ge

/-- A step that neither adds a node nor writes one. -/
theorem of_subset (hres : ∀ a ∈ z'.resident, a ∈ z.resident) (hmem : z'.mem = z.mem)
    (hrest : z'.rest = z.rest) : Kept none z z' := by
  simp only [Zone.rest, Prod.mk.injEq] at hrest
  obtain ⟨h1, h2, h3, h4, h5⟩ := hrest
  exact ⟨fun a ha => Or.inr ⟨hres a ha, by rw [hmem], by rw [hmem]⟩, h4.ge,
    fun b _ => congrFun h5 b, h1.ge⟩

theorem of_links (hl : z'.links = z.links) (hrest : z'.rest = z.rest) : Kept none z z' :=
  of_subset (fun a ha => by rwa [resident_of_links hl] at ha)
    (congrArg (fun l => l.2.2.2.2.2) hl) hrest

/-- A step that writes neither nodes nor bodies. -/
theorem of_mem (hres : z'.resident = z.resident) (hmem : z'.mem = z.mem)
    (hserial : z'.slab.serial = z.slab.serial) (hblob : z'.blob = z.blob)
    (hseq : z.ownerSeq ≤ z'.ownerSeq) : Kept none z z' :=
  ⟨fun a ha => Or.inr ⟨hres ▸ ha, by rw [hmem], by rw [hmem]⟩, hserial.ge,
    fun b _ => by rw [hblob], hseq⟩

theorem unlink (z : Zone) (a : Addr) : Kept none z (lruUnlink z a) :=
  of_subset (fun _ hb => (List.mem_append.1 hb).elim
    (fun hl => List.mem_append_left _ (List.mem_of_mem_erase hl))
    (fun hp => List.mem_append_right _ (List.mem_of_mem_erase hp))) rfl rfl

theorem resident_link (z : Zone) (a : Addr) :
    (lruLinkHead z a).resident.Perm (a :: z.resident) := by
  unfold lruLinkHead
  split_ifs
  · exact List.perm_middle
  · exact List.Perm.refl _

theorem mem_link (z : Zone) (a : Addr) : (lruLinkHead z a).mem = z.mem := by
  unfold lruLinkHead
  split_ifs <;> rfl

theorem rest_link (z : Zone) (a : Addr) : (lruLinkHead z a).rest = z.rest := by
  unfold lruLinkHead
  split_ifs <;> rfl

theorem link (z : Zone) (a : Addr) : Kept (some a) z (lruLinkHead z a) := by
  have hrest := rest_link z a
  simp only [Zone.rest, Prod.mk.injEq] at hrest
  obtain ⟨h1, h2, h3, h4, h5⟩ := hrest
  refine ⟨fun b hb => ?_, h4.ge, fun c _ => congrFun h5 c, h1.ge⟩
  rcases List.mem_cons.1 ((resident_link z a).mem_iff.1 hb) with rfl | hb
  · exact Or.inl rfl
  · exact Or.inr ⟨hb, by rw [mem_link], by rw [mem_link]⟩

theorem setNode (z : Zone) (a : Addr) (f : Node → Node) : Kept (some a) z (z.setNode a f) := by
  refine ⟨fun b hb => ?_, le_rfl, fun _ _ => rfl, le_rfl⟩
  by_cases hba : b = a
  · exact Or.inl (by rw [hba])
  · exact Or.inr ⟨hb, by simp [Zone.setNode, hba], by simp [Zone.setNode, hba]⟩

/-- A write outside the core. -/
theorem setNode_core (z : Zone) (a : Addr) {f : Node → Node} (hk : (f (z.mem a)).key = (z.mem a).key)
    (hc : (f (z.mem a)).core = (z.mem a).core) : Kept none z (z.setNode a f) := by
  refine ⟨fun b hb => Or.inr ⟨hb, ?_, ?_⟩, le_rfl, fun _ _ => rfl, le_rfl⟩
  · by_cases hba : b = a
    · subst hba; simpa [Zone.setNode] using hk
    · simp [Zone.setNode, hba]
  · by_cases hba : b = a
    · subst hba; simpa [Zone.setNode] using hc
    · simp [Zone.setNode, hba]

theorem acquire (z : Zone) (b : BlobId) : Kept none z (blobAcquire z b) :=
  of_links rfl (rest_blobAcquire z b)

theorem pin (z : Zone) (data : Option BlobId) : Kept none z (pinData z data) := by
  cases data with
  | none => exact refl _ _
  | some b => exact acquire z b

variable (rb : Rbtree)

theorem create (z : Zone) (a : Addr) (write : Node → Node) :
    Kept (some a) z (createNode rb z a write) := by
  refine ⟨fun b hb => ?_, le_rfl, fun _ _ => rfl, le_rfl⟩
  have hb' : b ∈ a :: z.resident := hb
  rcases List.mem_cons.1 hb' with rfl | hb'
  · exact Or.inl rfl
  · by_cases hba : b = a
    · exact Or.inl (by rw [hba])
    · exact Or.inr ⟨hb', by simp [createNode, lruInsertNew, rbtreeInsert, Zone.setNode, hba],
        by simp [createNode, lruInsertNew, rbtreeInsert, Zone.setNode, hba]⟩

/-- No survivor has a digest that was new before the evictions. -/
theorem key_new {keyHash : KeyHash} (h : Kept none z z') (hq : Queues [] z)
    (hnone : lookup z keyHash = none) {a : Addr} (ha : a ∈ z'.resident) :
    (z'.mem a).key ≠ keyHash := by
  obtain ⟨hres, hkey, -⟩ := (h.nodes a ha).resolve_left nofun
  rw [hkey]
  exact hq.lookup_none hnone (Or.inl hres)

/-- **Any other digest keeps its core or loses its node.** -/
theorem view {keyHash : KeyHash} (h : Kept t z z') (hq : Queues [] z) (hq' : Queues [] z')
    (ht : ∀ a, t = some a → (z'.mem a).key ≠ keyHash) :
    Shm.view z' keyHash = none ∨ Shm.view z' keyHash = Shm.view z keyHash := by
  unfold Shm.view
  cases hl : lookup z' keyHash with
  | none => exact Or.inl rfl
  | some a =>
    obtain ⟨hres, hkey⟩ := hq'.lookup_resident hl
    rcases h.nodes a hres with hta | ⟨hres', hk, hc⟩
    · exact absurd hkey (ht a hta)
    · have hl' : lookup z keyHash = some a :=
        (hq.lookup_iff keyHash a).2 ⟨Or.inl hres', hk ▸ hkey⟩
      rw [hl']
      exact Or.inr (congrArg some hc)

end Kept

theorem view_of_links {z z' : Zone} (hl : z'.links = z.links) : view z' = view z := by
  simp only [Zone.links, Prod.mk.injEq] at hl
  obtain ⟨h1, -, -, -, -, h6⟩ := hl
  funext k
  unfold view lookup
  rw [h1, h6]

/-- A digest keeps its core or loses its node. -/
def Survives (z z' : Zone) (keyHash : KeyHash) : Prop :=
  view z' keyHash = none ∨ view z' keyHash = view z keyHash

/-- **The frame of an operation on one digest**: every other digest survives, the
bytes of a body never change, and owner tokens are only ever added. -/
structure Framed (keyHash : KeyHash) (z z' : Zone) : Prop where
  other : ∀ k, k ≠ keyHash → Survives z z' k
  serial : z.slab.serial ≤ z'.slab.serial
  content : ∀ b < z.slab.serial, (z'.blob b).content = (z.blob b).content
  ownerSeq : z.ownerSeq ≤ z'.ownerSeq

theorem Kept.survives {z z' : Zone} (h : Kept none z z') (hq : Queues [] z) (hq' : Queues [] z')
    (keyHash : KeyHash) : Survives z z' keyHash := h.view hq hq' nofun

theorem Kept.framed {t : Option Addr} {z z' : Zone} {keyHash : KeyHash} (h : Kept t z z')
    (hq : Queues [] z) (hq' : Queues [] z') (ht : ∀ a, t = some a → (z'.mem a).key = keyHash) :
    Framed keyHash z z' where
  other _ hk := h.view hq hq' fun a ha hka => hk (hka.symm.trans (ht a ha))
  serial := h.serial
  content := h.content
  ownerSeq := h.ownerSeq

/-- When no node has left either, the zone looks the same from outside. -/
theorem Kept.lookup_eq {z z' : Zone} (h : Kept none z z') (hres : z'.resident.Perm z.resident)
    (hq : Queues [] z) (hq' : Queues [] z') (keyHash : KeyHash) :
    lookup z' keyHash = lookup z keyHash := by
  have hkey : ∀ a ∈ z.resident, (z'.mem a).key = (z.mem a).key := fun a ha =>
    ((h.nodes a (hres.mem_iff.2 ha)).resolve_left nofun).2.1
  refine Option.ext fun a => ?_
  rw [hq.lookup_iff, hq'.lookup_iff]
  constructor
  · rintro ⟨hm | hm, hk⟩
    · have ha := hres.mem_iff.1 hm
      exact ⟨Or.inl ha, by rw [← hkey a ha, hk]⟩
    · cases hm
  · rintro ⟨hm | hm, hk⟩
    · exact ⟨Or.inl (hres.mem_iff.2 hm), by rw [hkey a hm, hk]⟩
    · cases hm

theorem Kept.view_eq {z z' : Zone} (h : Kept none z z') (hres : z'.resident.Perm z.resident)
    (hq : Queues [] z) (hq' : Queues [] z') : Shm.view z' = Shm.view z := by
  funext keyHash
  unfold Shm.view
  rw [h.lookup_eq hres hq hq' keyHash]
  cases hl : lookup z keyHash with
  | none => rfl
  | some a =>
    obtain ⟨ha, -⟩ := hq.lookup_resident hl
    exact congrArg some ((h.nodes a (hres.mem_iff.2 ha)).resolve_left nofun).2.2

theorem createNode_mem (rb : Rbtree) (z : Zone) (a : Addr) (write : Node → Node) :
    (createNode rb z a write).mem a = { write (z.mem a) with
      seg := .segProbation, sieSpared := false, varidxPending := false } := by
  simp [createNode, lruInsertNew, rbtreeInsert, Zone.setNode]

theorem createNode_resident (rb : Rbtree) (z : Zone) (a : Addr) (write : Node → Node) :
    (createNode rb z a write).resident = a :: z.resident := rfl

/-- The core under the digest of a queued node. -/
theorem view_resident {z : Zone} (h : Queues [] z) {a : Addr} (ha : a ∈ z.resident) :
    view z (z.mem a).key = some (z.mem a).core := by
  unfold view
  rw [(h.lookup_iff _ a).2 ⟨Or.inl ha, rfl⟩]
  rfl

theorem view_lookup {z : Zone} {keyHash : KeyHash} {a : Addr} (h : lookup z keyHash = some a) :
    view z keyHash = some (z.mem a).core := by
  unfold view
  rw [h]
  rfl

theorem view_none {z : Zone} {keyHash : KeyHash} (h : lookup z keyHash = none) :
    view z keyHash = none := by
  unfold view
  rw [h]
  rfl

end Shm
end CacheTurbo
