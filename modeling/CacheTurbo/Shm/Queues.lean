/-
# Tree and queues agree

The half of the zone invariant that is about linkage.  `Queues out z` says that
the tree holds exactly the queued nodes and the nodes in `out`, each once; that
a node is on the queue its segment label names; that both counters are right;
and that every queued node has the shape of its kind.  `out` lists the nodes a
lock-held function has taken off their queue and not yet put back, deleted or
relinked elsewhere: it is empty between two operations.

Every lock-held function is a sequence of the moves below, so each of them is
stated once: a field write that changes no shape (`setNode_same`), a write to an
unlinked node (`setNode_out`), `lru_unlink`, `lru_link_head`, the
`n_entries--; ngx_rbtree_delete` pair, and the insertion of a new node.
-/

import CacheTurbo.Shm.Claim

namespace CacheTurbo
namespace Shm

/-- A node has the shape of its kind: a counter carries no body and stays in
probation, an entry or a marker carries one. -/
def NodeOk (n : Node) : Prop :=
  if n.kind = .counter then n.data = none ∧ n.len = 0 ∧ n.seg = .segProbation
  else n.data.isSome ∧ (n.kind = .marker → n.seg = .segProbation)

/-- The fields of a node that linkage and shape depend on. -/
def Node.shape (n : Node) : KeyHash × NodeKind × Option BlobId × ℕ × Seg :=
  (n.key, n.kind, n.data, n.len, n.seg)

theorem NodeOk.congr {n n' : Node} (h : NodeOk n) (hs : n'.shape = n.shape) : NodeOk n' := by
  simp only [Node.shape, Prod.mk.injEq] at hs
  obtain ⟨-, hkind, hdata, hlen, hseg⟩ := hs
  unfold NodeOk at *
  rw [hkind, hdata, hlen, hseg]
  exact h

/-- Tree, queues, labels and counters agree. -/
structure Queues (out : List Addr) (z : Zone) : Prop where
  tree : (addrs z.rbtree).Perm (z.resident ++ out)
  nodup : (z.resident ++ out).Nodup
  sorted : TreeSorted z.mem z.rbtree
  lru_seg : ∀ a ∈ z.lru, (z.mem a).seg = .segProbation
  protected_seg : ∀ a ∈ z.lruProtected, (z.mem a).seg = .segProtected
  nProtected : z.nProtected = z.lruProtected.length
  nEntries : z.nEntries = (z.resident ++ out).length
  shape : ∀ a ∈ z.resident, NodeOk (z.mem a)

namespace Queues

variable {out : List Addr} {z z' : Zone}

theorem mem_tree (h : Queues out z) {a : Addr} :
    a ∈ addrs z.rbtree ↔ a ∈ z.resident ∨ a ∈ out := by
  rw [h.tree.mem_iff, List.mem_append]

theorem not_mem_out (h : Queues out z) {a : Addr} (ha : a ∈ z.resident) : a ∉ out :=
  fun ho => (List.nodup_append.1 h.nodup).2.2 a ha a ho rfl

theorem resident_nodup (h : Queues out z) : z.resident.Nodup :=
  (List.nodup_append.1 h.nodup).1

/-- A node is on one queue only. -/
theorem not_mem_both (h : Queues out z) {a : Addr} (ha : a ∈ z.lru) : a ∉ z.lruProtected :=
  fun hp => (List.nodup_append.1 h.resident_nodup).2.2 a ha a hp rfl

/-- The lookup finds the queued or unlinked node with the digest. -/
theorem lookup_iff (h : Queues out z) (keyHash : KeyHash) (a : Addr) :
    lookup z keyHash = some a ↔ (a ∈ z.resident ∨ a ∈ out) ∧ (z.mem a).key = keyHash := by
  rw [lookup_eq_some_iff h.sorted, h.mem_tree]

theorem lookup_none (h : Queues out z) {keyHash : KeyHash} (hn : lookup z keyHash = none)
    {a : Addr} (ha : a ∈ z.resident ∨ a ∈ out) : (z.mem a).key ≠ keyHash :=
  (lookup_eq_none_iff h.sorted keyHash).1 hn a (h.mem_tree.2 ha)

/-- Between operations the lookup finds queued nodes. -/
theorem lookup_resident (h : Queues [] z) {keyHash : KeyHash} {a : Addr}
    (ha : lookup z keyHash = some a) : a ∈ z.resident ∧ (z.mem a).key = keyHash := by
  obtain ⟨hm | hm, hk⟩ := (h.lookup_iff keyHash a).1 ha
  · exact ⟨hm, hk⟩
  · cases hm

/-- `Queues` reads the tree, the queues, the two counters and the shapes of the
linked nodes. -/
theorem congr (h : Queues out z) (htree : z'.rbtree = z.rbtree) (hlru : z'.lru = z.lru)
    (hprot : z'.lruProtected = z.lruProtected) (hnp : z'.nProtected = z.nProtected)
    (hne : z'.nEntries = z.nEntries)
    (hkey : ∀ a, a ∈ z.resident ∨ a ∈ out → (z'.mem a).key = (z.mem a).key)
    (hshape : ∀ a ∈ z.resident, (z'.mem a).shape = (z.mem a).shape) : Queues out z' := by
  have hres : z'.resident = z.resident := by unfold Zone.resident; rw [hlru, hprot]
  have hseg : ∀ a ∈ z.resident, (z'.mem a).seg = (z.mem a).seg := fun a ha =>
    congrArg (fun s => s.2.2.2.2) (hshape a ha)
  refine ⟨?_, ?_, ?_, ?_, ?_, ?_, ?_, ?_⟩
  · rw [htree, hres]; exact h.tree
  · rw [hres]; exact h.nodup
  · rw [htree]
    exact h.sorted.congr fun a ha => hkey a (h.mem_tree.1 ha)
  · intro a ha
    rw [hlru] at ha
    rw [hseg a (List.mem_append_left _ ha)]
    exact h.lru_seg a ha
  · intro a ha
    rw [hprot] at ha
    rw [hseg a (List.mem_append_right _ ha)]
    exact h.protected_seg a ha
  · rw [hnp, hprot]; exact h.nProtected
  · rw [hne, hres]; exact h.nEntries
  · intro a ha
    rw [hres] at ha
    exact (h.shape a ha).congr (hshape a ha)

/-- A change of the heap, of a counter or of the sketch touches no linkage. -/
theorem of_eq (h : Queues out z) (htree : z'.rbtree = z.rbtree) (hlru : z'.lru = z.lru)
    (hprot : z'.lruProtected = z.lruProtected) (hnp : z'.nProtected = z.nProtected)
    (hne : z'.nEntries = z.nEntries) (hmem : z'.mem = z.mem) : Queues out z' :=
  h.congr htree hlru hprot hnp hne (fun a _ => by rw [hmem]) fun a _ => by rw [hmem]

/-- A write that keeps key, kind, body, length and segment. -/
theorem setNode_same (h : Queues out z) (a : Addr) {f : Node → Node}
    (hf : (f (z.mem a)).shape = (z.mem a).shape) : Queues out (z.setNode a f) := by
  have hall : ∀ b, ((z.setNode a f).mem b).shape = (z.mem b).shape := by
    intro b
    by_cases hb : b = a
    · subst hb; simpa [Zone.setNode] using hf
    · simp [Zone.setNode, hb]
  exact h.congr rfl rfl rfl rfl rfl (fun b _ => congrArg (fun s => s.1) (hall b)) fun b _ => hall b

/-- A write to an unlinked node that keeps its key. -/
theorem setNode_out (h : Queues out z) {a : Addr} (ha : a ∈ out) {f : Node → Node}
    (hf : (f (z.mem a)).key = (z.mem a).key) : Queues out (z.setNode a f) := by
  refine h.congr rfl rfl rfl rfl rfl (fun b _ => ?_) fun b hb => ?_
  · by_cases hb : b = a
    · subst hb; simpa [Zone.setNode] using hf
    · simp [Zone.setNode, hb]
  · have hne : b ≠ a := fun he => h.not_mem_out hb (he ▸ ha)
    simp [Zone.setNode, hne]

/-- A write to a block that is not in the tree. -/
theorem setNode_loose (h : Queues out z) {a : Addr} (hr : a ∉ z.resident) (ho : a ∉ out)
    (f : Node → Node) : Queues out (z.setNode a f) := by
  have hne : ∀ b, b ∈ z.resident ∨ b ∈ out → (z.setNode a f).mem b = z.mem b := by
    intro b hb
    have : b ≠ a := by rintro rfl; exact hb.elim hr ho
    simp [Zone.setNode, this]
  exact h.congr rfl rfl rfl rfl rfl (fun b hb => by rw [hne b hb])
    fun b hb => by rw [hne b (Or.inl hb)]

/-- A write that keeps key and segment and leaves a right shape. -/
theorem setNode_ok (h : Queues out z) (a : Addr) {f : Node → Node}
    (hkey : (f (z.mem a)).key = (z.mem a).key) (hseg : (f (z.mem a)).seg = (z.mem a).seg)
    (hok : NodeOk (f (z.mem a))) : Queues out (z.setNode a f) := by
  have hmem : ∀ b, (z.setNode a f).mem b = if b = a then f (z.mem a) else z.mem b := by
    intro b
    by_cases hb : b = a
    · subst hb; simp [Zone.setNode]
    · simp [Zone.setNode, hb]
  have hk : ∀ b, ((z.setNode a f).mem b).key = (z.mem b).key := by
    intro b
    rw [hmem]
    split_ifs with hb
    · rw [hb, hkey]
    · rfl
  have hs : ∀ b, ((z.setNode a f).mem b).seg = (z.mem b).seg := by
    intro b
    rw [hmem]
    split_ifs with hb
    · rw [hb, hseg]
    · rfl
  refine ⟨h.tree, h.nodup, h.sorted.congr fun b _ => hk b, ?_, ?_, h.nProtected, h.nEntries, ?_⟩
  · exact fun b hb => (hs b).trans (h.lru_seg b hb)
  · exact fun b hb => (hs b).trans (h.protected_seg b hb)
  · intro b hb
    rw [hmem]
    split_ifs
    · exact hok
    · exact h.shape b hb

/-- The queues without one node. -/
theorem resident_unlink (h : Queues out z) (a : Addr) :
    (lruUnlink z a).resident = z.resident.erase a := by
  show z.lru.erase a ++ z.lruProtected.erase a = (z.lru ++ z.lruProtected).erase a
  rw [List.erase_append]
  split_ifs with ha
  · rw [List.erase_of_not_mem (h.not_mem_both ha)]
  · rw [List.erase_of_not_mem ha]

/-- **`lru_unlink`** takes a queued node off its queue and charges the right
counter. -/
theorem unlink (h : Queues out z) {a : Addr} (ha : a ∈ z.resident) :
    Queues (a :: out) (lruUnlink z a) := by
  have hres := h.resident_unlink a
  have hperm : (z.resident ++ out).Perm (z.resident.erase a ++ a :: out) :=
    ((List.perm_cons_erase ha).append_right out).trans List.perm_middle.symm
  refine ⟨?_, ?_, h.sorted, ?_, ?_, ?_, ?_, ?_⟩
  · rw [hres]; exact h.tree.trans hperm
  · rw [hres]; exact hperm.nodup_iff.1 h.nodup
  · exact fun b hb => h.lru_seg b (List.mem_of_mem_erase hb)
  · exact fun b hb => h.protected_seg b (List.mem_of_mem_erase hb)
  · show (if (z.mem a).seg = .segProtected then z.nProtected - 1 else z.nProtected) =
      (z.lruProtected.erase a).length
    rcases List.mem_append.1 ha with hl | hp
    · rw [h.lru_seg a hl, List.erase_of_not_mem (h.not_mem_both hl), if_neg (by decide)]
      exact h.nProtected
    · rw [h.protected_seg a hp, if_pos rfl, List.length_erase_of_mem hp, h.nProtected]
  · show z.nEntries = _
    rw [hres, h.nEntries]
    exact hperm.length_eq
  · intro b hb
    rw [hres] at hb
    exact h.shape b (List.mem_of_mem_erase hb)

/-- **`lru_link_head`** puts an unlinked node of the right shape back. -/
theorem link {a : Addr} (h : Queues (a :: out) z) (hok : NodeOk (z.mem a)) :
    Queues out (lruLinkHead z a) := by
  have hperm : (z.resident ++ a :: out).Perm (a :: z.resident ++ out) := List.perm_middle
  unfold lruLinkHead
  split_ifs with hseg
  · have hmove : (z.resident ++ a :: out).Perm (z.lru ++ a :: z.lruProtected ++ out) :=
      hperm.trans (List.perm_middle.symm.append_right out)
    refine ⟨h.tree.trans hmove, hmove.nodup_iff.1 h.nodup, h.sorted, h.lru_seg, ?_, ?_, ?_, ?_⟩
    · intro b hb
      rcases List.mem_cons.1 hb with rfl | hb
      · exact hseg
      · exact h.protected_seg b hb
    · show z.nProtected + 1 = (a :: z.lruProtected).length
      rw [List.length_cons, h.nProtected]
    · exact h.nEntries.trans hmove.length_eq
    · intro b hb
      rcases List.mem_append.1 hb with hb | hb
      · exact h.shape b (List.mem_append_left _ hb)
      · rcases List.mem_cons.1 hb with rfl | hb
        · exact hok
        · exact h.shape b (List.mem_append_right _ hb)
  · have hprob : (z.mem a).seg = .segProbation := by
      cases hs : (z.mem a).seg with
      | segProbation => rfl
      | segProtected => exact absurd hs hseg
    refine ⟨h.tree.trans hperm, hperm.nodup_iff.1 h.nodup, h.sorted, ?_, h.protected_seg,
      h.nProtected, h.nEntries.trans hperm.length_eq, ?_⟩
    · intro b hb
      rcases List.mem_cons.1 hb with rfl | hb
      · exact hprob
      · exact h.lru_seg b hb
    · intro b hb
      rcases List.mem_cons.1 hb with rfl | hb
      · exact hok
      · exact h.shape b hb

variable (rb : Rbtree)

/-- `n_entries--; ngx_rbtree_delete` on an unlinked node. -/
theorem delete {a : Addr} (h : Queues (a :: out) z) :
    Queues out (rbtreeDelete rb { z with nEntries := z.nEntries - 1 } a) := by
  have hmem : a ∈ addrs z.rbtree := h.mem_tree.2 (Or.inr (List.mem_cons_self ..))
  have htree : (addrs (rb.delete z.rbtree a)).Perm (z.resident ++ out) := by
    rw [rb.addrs_delete _ _ hmem]
    exact (((h.tree.trans List.perm_middle).erase a)).trans (by rw [List.erase_cons_head])
  have hnodup : (a :: (z.resident ++ out)).Nodup := List.perm_middle.nodup_iff.1 h.nodup
  refine ⟨htree, (List.nodup_cons.1 hnodup).2, h.sorted.delete rb hmem, h.lru_seg,
    h.protected_seg, h.nProtected, ?_, h.shape⟩
  show z.nEntries - 1 = (z.resident ++ out).length
  rw [h.nEntries, List.perm_middle.length_eq, List.length_cons, Nat.add_sub_cancel]

/-- **A new node**: written, put in the tree, linked at the probation head. -/
theorem create (h : Queues out z) {a : Addr} (hr : a ∉ z.resident) (ho : a ∉ out)
    {write : Node → Node}
    (hkey : ∀ b, b ∈ z.resident ∨ b ∈ out → (z.mem b).key ≠ (write (z.mem a)).key)
    (hok : NodeOk { write (z.mem a) with
      seg := .segProbation, sieSpared := false, varidxPending := false }) :
    Queues out (createNode rb z a write) := by
  have h1 : Queues out (z.setNode a write) := h.setNode_loose hr ho write
  set z₁ := z.setNode a write with hz₁
  have hmem₁ : z₁.mem a = write (z.mem a) := by simp [hz₁, Zone.setNode]
  have hother : ∀ b, b ≠ a → z₁.mem b = z.mem b := fun b hb => by simp [hz₁, Zone.setNode, hb]
  set ins := rb.repair (rbtreeInsertValue z₁.mem a z₁.rbtree) a with hins
  have htree : (addrs ins).Perm (a :: (z.resident ++ out)) := by
    rw [hins, rb.addrs_repair]
    exact (addrs_rbtreeInsertValue _ _ _).trans ((List.perm_cons a).2 h1.tree)
  have hsorted : TreeSorted z₁.mem ins := by
    refine h1.sorted.insert rb fun b hb => ?_
    have hb' := h1.mem_tree.1 hb
    have hne : b ≠ a := by rintro rfl; exact hb'.elim hr ho
    rw [hmem₁, hother b hne]
    exact hkey b hb'
  set n' : Node := { write (z.mem a) with
    seg := .segProbation, sieSpared := false, varidxPending := false } with hn'
  have hfinal : createNode rb z a write =
      { (z₁.setNode a fun n => { n with
          seg := .segProbation, sieSpared := false, varidxPending := false }) with
        rbtree := ins, lru := a :: z.lru, nEntries := z.nEntries + 1 } := rfl
  have hmemf : ∀ b, (createNode rb z a write).mem b = if b = a then n' else z.mem b := by
    intro b
    rw [hfinal]
    by_cases hb : b = a
    · subst hb; simp [Zone.setNode, hmem₁, hn']
    · simp [Zone.setNode, hb, hother b hb]
  have hkeep : ∀ b ∈ z.resident, (createNode rb z a write).mem b = z.mem b := by
    intro b hb
    rw [hmemf, if_neg (by rintro rfl; exact hr hb)]
  have hnotin : a ∉ z.resident ++ out := by
    rw [List.mem_append]
    exact fun hc => hc.elim hr ho
  refine ⟨htree, List.nodup_cons.2 ⟨hnotin, h.nodup⟩, ?_, ?_, ?_, h.nProtected, ?_, ?_⟩
  · refine TreeSorted.congr hsorted fun b _ => ?_
    rw [hmemf]
    split_ifs with hb
    · subst hb; rw [hmem₁]
    · rw [hother b hb]
  · intro b hb
    rcases List.mem_cons.1 hb with rfl | hb
    · rw [hmemf, if_pos rfl]
    · rw [hkeep b (List.mem_append_left _ hb)]
      exact h.lru_seg b hb
  · intro b hb
    rw [hkeep b (List.mem_append_right _ hb)]
    exact h.protected_seg b hb
  · show z.nEntries + 1 = (a :: (z.resident ++ out)).length
    rw [List.length_cons, h.nEntries]
  · intro b hb
    rcases List.mem_cons.1 hb with rfl | hb
    · rw [hmemf, if_pos rfl]
      exact hok
    · rw [hkeep b hb]
      exact h.shape b hb

end Queues

end Shm
end CacheTurbo
