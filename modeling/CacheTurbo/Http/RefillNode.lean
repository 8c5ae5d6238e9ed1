/-
# What a node does to the bodies a purge removes

The bodies that a purge is to remove are told from all others by their number, and new
ones get new numbers.  So a digest that is clear of them in the zone stays clear unless
a reply is promoted under it (`clear_step`), what is in the second level was there
(`l2_step`), and a request that begins when both are clear gets nothing of them
(`late_step`).
-/

import CacheTurbo.Http.Refill

namespace CacheTurbo
namespace Http
namespace Refill

open Bytes Blob
open Shm (Zone Rbtree ZoneOp Loans record)
open L2 (L2Prefix redisKey)

/-! ## The node -/

section Node

variable {D : ℕ → Bool} {n : Node}

/-- What is under a digest in the zone is not to be removed. -/
def Node.Clear (n : Node) (D : ℕ → Bool) (keyHash : KeyHash) : Prop :=
  ∀ r, record n.loans.zone keyHash = some r → D (n.origin keyHash) = false

/-- Nor is what is under a key of the second level. -/
def Node.Gone (n : Node) (pre : L2Prefix) (D : ℕ → Bool) (key : Bytes) : Prop :=
  ∀ e ∈ n.l2, redisKey pre e.keyHash = key → D e.obj.id = false

/-- The late requests have nothing that was to be removed, under the digests `P`. -/
def Node.LateClean (n : Node) (D : ℕ → Bool) (P : KeyHash → Prop) : Prop :=
  ∀ q, (n.ctx q).late = true → ∀ c ∈ (n.ctx q).copies, D c.id = true → ¬ P c.key

/-- The loans are in order, and what is on its way, or comes later, is not to be removed. -/
structure NodeOk (D : ℕ → Bool) (n : Node) : Prop where
  loans : n.loans.Ok
  sets : ∀ p ∈ n.sets, D p.2.id = false
  later : ∀ id, n.next ≤ id → D id = false

variable (rb : Rbtree)

/-- An operation puts a body under a digest that was to be removed only if it stores one. -/
theorem restamp_clear (hwf : n.loans.Ok) (now : Time) (op : ZoneOp) (id : ℕ) {keyHash : KeyHash}
    (hid : op.key = some keyHash → op.writes now ≠ none → D id = false) (h : n.Clear D keyHash) :
    ∀ r, record (Shm.exec rb n.loans.zone now op).1 keyHash = some r →
      D (restamp n.origin now op (Shm.exec rb n.loans.zone now op).2 id keyHash) = false := by
  have hother : op.key ≠ some keyHash ∨ ¬ (Shm.exec rb n.loans.zone now op).2.ok ∨
      op.writes now = none →
      restamp n.origin now op (Shm.exec rb n.loans.zone now op).2 id keyHash = n.origin keyHash := by
    intro hno
    unfold restamp
    cases hw : op.writes now with
    | none => rfl
    | some w =>
      cases hk : op.key with
      | none => rfl
      | some k =>
        dsimp only
        split_ifs with hok
        · rcases hno with hkey | hbad | hnone
          · rw [Function.update_of_ne fun he => hkey (by rw [hk, he])]
          · exact absurd hok hbad
          · rw [hw] at hnone
            cases hnone
        · rfl
  intro r hr
  rcases hwf.wf.recordMove rb now op keyHash with hlost | hkept | ⟨w, hk, hw, hok, -⟩ |
    ⟨freshTtl, staleTtl, old, hop, -, hold, -, -⟩
  · rw [hlost] at hr
    cases hr
  · by_cases hwrote : op.key = some keyHash ∧ (Shm.exec rb n.loans.zone now op).2.ok ∧
        op.writes now ≠ none
    · obtain ⟨hk, hok, hw⟩ := hwrote
      have hnew := hid hk hw
      obtain ⟨w, hw⟩ := Option.ne_none_iff_exists'.1 hw
      simp only [restamp, hw, hk, if_pos hok, Function.update_self]
      exact hnew
    · rw [hother (by tauto)]
      exact h r (hkept ▸ hr)
  · have hnew := hid hk (by simp [hw])
    simp only [restamp, hw, hk, if_pos hok, Function.update_self]
    exact hnew
  · rw [hother (Or.inr (Or.inr (by rw [hop]; rfl)))]
    exact h old hold

theorem NodeOk.runOp (h : NodeOk D n) (q : ℕ) (now : Time) (op : ZoneOp) (id : ℕ) :
    NodeOk D (n.runOp rb q now op id) :=
  ⟨h.loans.step rb (.op now op), h.sets, h.later⟩

theorem clear_runOp (h : NodeOk D n) (q : ℕ) (now : Time) (op : ZoneOp) {id : ℕ} {keyHash : KeyHash}
    (hid : op.key = some keyHash → op.writes now ≠ none → D id = false)
    (hclear : n.Clear D keyHash) : (n.runOp rb q now op id).Clear D keyHash :=
  restamp_clear rb h.loans now op id hid hclear

/-- A purge of the zone stores nothing. -/
theorem clear_purgeOp (h : NodeOk D n) (now : Time) (op : ZoneOp) (hop : op.writes now = none)
    {keyHash : KeyHash} (hclear : n.Clear D keyHash) :
    ({ n with loans := n.loans.step rb (.op now op) } : Node).Clear D keyHash := by
  have hclear' := restamp_clear rb h.loans now op 0 (fun _ hw => absurd hop hw) hclear
  simp only [restamp, hop] at hclear'
  exact hclear'

/-- The bodies that an operation hands out are under its digest. -/
theorem late_runOp (h : NodeOk D n) (q : ℕ) (now : Time) (op : ZoneOp) {id : ℕ} {P : KeyHash → Prop}
    (hP : ∀ keyHash, P keyHash → (n.runOp rb q now op id).Clear D keyHash)
    (hlate : n.LateClean D P) : (n.runOp rb q now op id).LateClean D P := by
  intro q' hq' c hc hdoomed hpurged
  by_cases hqq : q' = q
  swap
  · have hctx : (n.runOp rb q now op id).ctx q' = n.ctx q' := Function.update_of_ne hqq ..
    rw [hctx] at hq' hc
    exact hlate q' hq' c hc hdoomed hpurged
  rw [hqq] at hq' hc
  simp only [Node.runOp, Function.update_self, Client.copies, List.mem_append] at hq' hc
  have hold : c ∈ (n.ctx q).copies → False := fun hmem => hlate q hq' c hmem hdoomed hpurged
  simp only [Client.copies, List.mem_append] at hold
  rcases hc with hc | hc | hc | hc
  · exact hold (Or.inl hc)
  · exact hold (Or.inr (Or.inl hc))
  · obtain ⟨k, hk, hc⟩ := List.mem_flatMap.1 hc
    obtain ⟨b, hb, rfl⟩ := List.mem_map.1 hc
    obtain ⟨k', hk', hcarries⟩ := h.loans.wf.exec_pins rb now op b hb
    rw [hk', Option.mem_toList] at hk
    obtain rfl := Option.some.inj hk
    obtain ⟨r, hr, -⟩ := hcarries.record
    have hclean := hP k' hpurged r hr
    dsimp only at hdoomed
    exact Bool.false_ne_true (hclean.symm.trans hdoomed)
  · exact hold (Or.inr (Or.inr hc))

/-- Writing a context touches neither level. -/
theorem late_setCtx {q : ℕ} {c : Client} {P : KeyHash → Prop} (hlate : n.LateClean D P)
    (hc : c.late = true → ∀ copy ∈ c.copies, D copy.id = true → ¬ P copy.key) :
    (n.setCtx q c).LateClean D P := by
  intro q' hq'
  by_cases hqq : q' = q
  · rw [hqq] at hq' ⊢
    simp only [Node.setCtx, Function.update_self] at hq' ⊢
    exact hc hq'
  · have hctx : (n.setCtx q c).ctx q' = n.ctx q' := Function.update_of_ne hqq ..
    rw [hctx] at hq' ⊢
    exact hlate q' hq'

theorem find_mem {n : Node} {keyHash : KeyHash} {e : Entry} (h : n.find keyHash = some e) :
    e ∈ n.l2 ∧ e.keyHash = keyHash :=
  ⟨List.mem_of_find?_eq_some h, by simpa using List.find?_some h⟩

/-- What is in the second level after a store. -/
theorem mem_put {n : Node} {keyHash : KeyHash} {obj : Object} {e : Entry}
    (h : e ∈ (n.put keyHash obj).l2) : e.obj = obj ∨ e ∈ n.l2 := by
  rcases List.mem_cons.1 h with rfl | h
  · exact Or.inl rfl
  · exact Or.inr (List.mem_filter.1 h).1

variable (conf : L2.ScanDel.Conf) (told : Bool)

/-- What was to be removed is not promoted under a digest the purge is done with. -/
def Bars (D : ℕ → Bool) (dropped : KeyHash → Bool) (n : Node) : NodeEvent → Prop
  | .accessL2 q now keyHash _ l2FreshOk l2StaleOk _ _ =>
      ∀ c ∈ (n.ctx q).l2Blob, D c.id = true → dropped keyHash = true →
        promotes (Http.accessL2 now l2FreshOk l2StaleOk c.bytes) = false
  | _ => True

theorem NodeOk.step (h : NodeOk D n) (e : NodeEvent) : NodeOk D (n.step rb conf told e) := by
  have hnext : D n.next = false := h.later n.next le_rfl
  cases e with
  | begin q => exact ⟨h.loans, h.sets, h.later⟩
  | zone q e set =>
    cases e with
    | op now op =>
      refine ⟨h.loans.step rb (.op now op), fun p hp => ?_, fun id hid => h.later id ?_⟩
      · rcases List.mem_append.1 hp with hp | hp
        · exact h.sets p hp
        · split_ifs at hp
          · cases hp
          · obtain ⟨p', -, rfl⟩ := List.mem_map.1 hp
            exact hnext
      · exact Nat.le_of_succ_le hid
    | read b => exact ⟨h.loans.step rb (.read b), h.sets, h.later⟩
    | release b => exact ⟨h.loans.step rb (.release b), h.sets, h.later⟩
    | free job => exact ⟨h.loans.step rb (.free job), h.sets, h.later⟩
  | setRun k =>
    simp only [Node.step]
    cases hk : n.sets[k]? with
    | none => exact h
    | some p => exact ⟨h.loans, fun p' hp' => h.sets p' (List.mem_of_mem_eraseIdx hp'), h.later⟩
  | setLost k => exact ⟨h.loans, fun p' hp' => h.sets p' (List.mem_of_mem_eraseIdx hp'), h.later⟩
  | peerSet keyHash bytes =>
    simp only [Node.step]
    split_ifs
    · exact h
    · exact ⟨h.loans, h.sets, fun id hid => h.later id (Nat.le_of_succ_le hid)⟩
  | expire keyHash => exact ⟨h.loans, h.sets, h.later⟩
  | ask q keyHash =>
    simp only [Node.step]
    split_ifs
    · exact h
    · exact ⟨h.loans, h.sets, h.later⟩
  | getRun q =>
    simp only [Node.step]
    cases (n.ctx q).asked with
    | none => exact h
    | some keyHash => exact ⟨h.loans, h.sets, h.later⟩
  | reply q ok => exact ⟨h.loans, h.sets, h.later⟩
  | accessL2 q now keyHash hash l2FreshOk l2StaleOk brkArm room =>
    simp only [Node.step]
    cases (n.ctx q).l2Blob with
    | none => exact h
    | some c =>
      dsimp only
      cases Http.accessL2 now l2FreshOk l2StaleOk c.bytes with
      | miss | revalidate => exact h
      | expired sie => exact ⟨h.loans, h.sets, h.later⟩
      | promote remFresh remStale => exact h.runOp rb q now _ c.id

/-- What happens to references moves no record. -/
theorem clear_loans {e : Shm.Event} (he : ∀ now op, e ≠ .op now op) {keyHash : KeyHash}
    (hclear : n.Clear D keyHash) :
    ({ n with loans := n.loans.step rb e } : Node).Clear D keyHash := by
  intro r hr
  exact hclear r ((Ingress.record_loans rb n.loans he keyHash).symm.trans hr)

/-- **A digest that the purge is done with stays clear in the zone.** -/
theorem clear_step (h : NodeOk D n) {dropped : KeyHash → Bool} {e : NodeEvent}
    (hbar : Bars D dropped n e) {keyHash : KeyHash} (hdropped : dropped keyHash = true)
    (hclear : n.Clear D keyHash) : (n.step rb conf told e).Clear D keyHash := by
  cases e with
  | begin q => exact hclear
  | zone q e set =>
    cases e with
    | op now op => exact clear_runOp rb h q now op (fun _ _ => h.later n.next le_rfl) hclear
    | read b => exact clear_loans rb (fun now op => by simp) hclear
    | release b => exact clear_loans rb (fun now op => by simp) hclear
    | free job => exact clear_loans rb (fun now op => by simp) hclear
  | setRun k =>
    simp only [Node.step]
    cases n.sets[k]? with
    | none => exact hclear
    | some p => exact hclear
  | setLost k => exact hclear
  | peerSet k bytes =>
    simp only [Node.step]
    split_ifs
    · exact hclear
    · exact hclear
  | expire k => exact hclear
  | ask q k =>
    simp only [Node.step]
    split_ifs
    · exact hclear
    · exact hclear
  | getRun q =>
    simp only [Node.step]
    cases (n.ctx q).asked with
    | none => exact hclear
    | some k => exact hclear
  | reply q ok => exact hclear
  | accessL2 q now k hash l2FreshOk l2StaleOk brkArm room =>
    simp only [Node.step, Bars] at hbar ⊢
    cases hblob : (n.ctx q).l2Blob with
    | none => exact hclear
    | some c =>
      have hbar := hbar c hblob
      dsimp only
      cases hv : Http.accessL2 now l2FreshOk l2StaleOk c.bytes with
      | miss | revalidate => exact hclear
      | expired sie => exact hclear
      | promote remFresh remStale =>
        -- the digest that is promoted under
        refine clear_runOp rb h q now _ (fun hk _ => ?_) hclear
        obtain rfl := Option.some.inj hk
        by_contra hdoomed
        rw [Bool.not_eq_false] at hdoomed
        have hno := hbar hdoomed hdropped
        rw [hv] at hno
        cases hno

/-- What is to be removed and is in the second level was there. -/
theorem l2_step (h : NodeOk D n) (e : NodeEvent) :
    ∀ x ∈ (n.step rb conf told e).l2, D x.obj.id = true → x ∈ n.l2 := by
  have hput : ∀ {keyHash : KeyHash} {obj : Object}, D obj.id = false →
      ∀ x ∈ (n.put keyHash obj).l2, D x.obj.id = true → x ∈ n.l2 := by
    intro keyHash obj hobj x hx hdoomed
    rcases mem_put hx with rfl | hx
    · rw [hobj] at hdoomed
      cases hdoomed
    · exact hx
  intro x hx hdoomed
  cases e with
  | begin q => exact hx
  | zone q e set => cases e <;> exact hx
  | setRun k =>
    simp only [Node.step] at hx
    cases hk : n.sets[k]? with
    | none =>
      rw [hk] at hx
      exact hx
    | some p =>
      rw [hk] at hx
      exact hput (h.sets p (List.mem_of_getElem? hk)) x hx hdoomed
  | setLost k => exact hx
  | peerSet k bytes =>
    simp only [Node.step] at hx
    split_ifs at hx
    · exact hx
    · exact hput (h.later n.next le_rfl) x hx hdoomed
  | expire k => exact (List.mem_filter.1 hx).1
  | ask q k =>
    simp only [Node.step] at hx
    split_ifs at hx
    · exact hx
    · exact hx
  | getRun q =>
    simp only [Node.step] at hx
    cases hasked : (n.ctx q).asked with
    | none =>
      rw [hasked] at hx
      exact hx
    | some k =>
      rw [hasked] at hx
      exact hx
  | reply q ok => exact hx
  | accessL2 q now k hash l2FreshOk l2StaleOk brkArm room =>
    simp only [Node.step] at hx
    cases hblob : (n.ctx q).l2Blob with
    | none =>
      rw [hblob] at hx
      exact hx
    | some c =>
      rw [hblob] at hx
      dsimp only at hx
      cases hv : Http.accessL2 now l2FreshOk l2StaleOk c.bytes with
      | miss | revalidate | expired sie | promote remFresh remStale =>
        rw [hv] at hx
        exact hx

/-- **The late requests stay clean**, where the digests `P` are clear on both levels. -/
theorem late_step (h : NodeOk D n) {pre : L2Prefix} {dropped : KeyHash → Bool} {e : NodeEvent}
    {P : KeyHash → Prop} (hbar : Bars D dropped n e)
    (hP : ∀ keyHash, P keyHash → dropped keyHash = true ∧ n.Clear D keyHash ∧
      n.Gone pre D (redisKey pre keyHash)) (hlate : n.LateClean D P) :
    (n.step rb conf told e).LateClean D P := by
  have hclear : ∀ keyHash, P keyHash → (n.step rb conf told e).Clear D keyHash := fun keyHash hk =>
    clear_step rb conf told h hbar (hP keyHash hk).1 (hP keyHash hk).2.1
  have hsub : ∀ {q : ℕ} {c : Client}, c.late = (n.ctx q).late →
      (∀ copy ∈ c.copies, copy ∈ (n.ctx q).copies ∨
        ∃ old ∈ (n.ctx q).copies, old.id = copy.id ∧ old.key = copy.key) →
      (n.setCtx q c).LateClean D P := by
    intro q c hsame hcopies
    refine late_setCtx hlate fun hl copy hcopy hdoomed hpurged => ?_
    rw [hsame] at hl
    rcases hcopies copy hcopy with hold | ⟨old, hold, hid, hkey⟩
    · exact hlate q hl copy hold hdoomed hpurged
    · exact hlate q hl old hold (hid ▸ hdoomed) (hkey ▸ hpurged)
  cases e with
  | begin q => exact late_setCtx hlate fun _ copy hcopy => by simp [Client.copies] at hcopy
  | zone q e set =>
    cases e with
    | op now op => exact late_runOp rb h q now op hclear hlate
    | read b => exact hlate
    | release b => exact hlate
    | free job => exact hlate
  | setRun k =>
    simp only [Node.step]
    cases n.sets[k]? with
    | none => exact hlate
    | some p => exact hlate
  | setLost k => exact hlate
  | peerSet k bytes =>
    simp only [Node.step]
    split_ifs
    · exact hlate
    · exact hlate
  | expire k => exact hlate
  | ask q k =>
    simp only [Node.step]
    split_ifs
    · exact hlate
    · refine hsub rfl fun copy hcopy => Or.inl ?_
      simp only [Client.copies, Option.toList_none, List.nil_append] at hcopy
      exact List.mem_append_right _ hcopy
  | getRun q =>
    simp only [Node.step]
    cases (n.ctx q).asked with
    | none => exact hlate
    | some k =>
      refine late_setCtx hlate fun hl copy hcopy hdoomed hpurged => ?_
      simp only [Client.copies, List.mem_append, Option.mem_toList, Option.map_eq_some_iff] at hcopy
      rcases hcopy with ⟨e, he, rfl⟩ | hcopy
      · -- the server answers with what it has
        obtain ⟨hmem, hkey⟩ := find_mem he
        have hgone := (hP k hpurged).2.2 e hmem (by rw [hkey])
        exact Bool.false_ne_true (hgone.symm.trans hdoomed)
      · refine hlate q hl copy (List.mem_append_right _ ?_) hdoomed hpurged
        simpa only [List.mem_append, Option.mem_toList] using hcopy
  | reply q ok =>
    refine hsub rfl fun copy hcopy => ?_
    simp only [Client.copies, Option.toList_none, List.nil_append, List.mem_append] at hcopy
    rcases hcopy with hcopy | hcopy
    · split_ifs at hcopy
      · obtain ⟨old, hold, rfl⟩ := Option.map_eq_some_iff.1 (Option.mem_toList.1 hcopy)
        exact Or.inr ⟨old, List.mem_append_left _ (Option.mem_toList.2 hold), rfl, rfl⟩
      · cases hcopy
    · exact Or.inl (List.mem_append_right _ (List.mem_append_right _ hcopy))
  | accessL2 q now k hash l2FreshOk l2StaleOk brkArm room =>
    simp only [Node.step] at hclear ⊢
    cases hblob : (n.ctx q).l2Blob with
    | none => exact hlate
    | some c =>
      rw [hblob] at hclear
      dsimp only at hclear ⊢
      cases hv : Http.accessL2 now l2FreshOk l2StaleOk c.bytes with
      | miss | revalidate => exact hlate
      | expired sie =>
        refine hsub rfl fun copy hcopy => Or.inl ?_
        have hmem : c ∈ (n.ctx q).copies := by simp [Client.copies, hblob]
        simp only [Client.expiredArm, Client.copies, List.mem_append] at hcopy
        rcases hcopy with hcopy | hcopy | hcopy | hcopy | hcopy
        · exact List.mem_append_left _ hcopy
        · exact List.mem_append_right _ (List.mem_append_left _ hcopy)
        · split_ifs at hcopy
          · rw [List.mem_singleton.1 hcopy]
            exact hmem
          · cases hcopy
        · split_ifs at hcopy
          · rw [List.mem_singleton.1 hcopy]
            exact hmem
          · cases hcopy
        · exact List.mem_append_right _ (List.mem_append_right _ hcopy)
      | promote remFresh remStale =>
        rw [hv] at hclear
        exact late_runOp rb h q now _ hclear hlate

/-- Nobody is late before the purge has answered. -/
theorem late_flag (h : ∀ q, (n.ctx q).late = false) (htold : told = false) (e : NodeEvent) :
    ∀ q, ((n.step rb conf told e).ctx q).late = false := by
  have hset : ∀ {q : ℕ} {c : Client}, c.late = false → ∀ q', ((n.setCtx q c).ctx q').late = false := by
    intro q c hc q'
    by_cases hq : q' = q
    · rw [hq]
      simpa only [Node.setCtx, Function.update_self] using hc
    · have hctx : (n.setCtx q c).ctx q' = n.ctx q' := Function.update_of_ne hq ..
      rw [hctx]
      exact h q'
  have hop : ∀ (q : ℕ) (now : Time) (op : ZoneOp) (id : ℕ),
      ∀ q', ((n.runOp rb q now op id).ctx q').late = false := fun q now op id =>
    hset (h q)
  cases e with
  | begin q => exact hset htold
  | zone q e set =>
    cases e with
    | op now op => exact hop q now op n.next
    | read b => exact h
    | release b => exact h
    | free job => exact h
  | setRun k =>
    simp only [Node.step]
    cases n.sets[k]? with
    | none => exact h
    | some p => exact h
  | setLost k => exact h
  | peerSet k bytes =>
    simp only [Node.step]
    split_ifs
    · exact h
    · exact h
  | expire k => exact h
  | ask q k =>
    simp only [Node.step]
    split_ifs
    · exact h
    · exact hset (h q)
  | getRun q =>
    simp only [Node.step]
    cases (n.ctx q).asked with
    | none => exact h
    | some k =>
      dsimp only
      exact hset (h q)
  | reply q ok => exact hset (h q)
  | accessL2 q now k hash l2FreshOk l2StaleOk brkArm room =>
    simp only [Node.step]
    cases (n.ctx q).l2Blob with
    | none => exact h
    | some c =>
      dsimp only
      cases Http.accessL2 now l2FreshOk l2StaleOk c.bytes with
      | miss | revalidate => exact h
      | expired sie => exact hset (h q)
      | promote remFresh remStale => exact hop q now _ c.id

/-- The second level of a location without one stays empty. -/
theorem l2_none (hconf : conf.backend = .none) (h : n.l2 = [] ∧ n.sets = []) (e : NodeEvent) :
    (n.step rb conf told e).l2 = [] ∧ (n.step rb conf told e).sets = [] := by
  obtain ⟨hl2, hsets⟩ := h
  cases e with
  | begin q => exact ⟨hl2, hsets⟩
  | zone q e set =>
    cases e with
    | op now op =>
      refine ⟨hl2, ?_⟩
      simp only [Node.step, Node.runOp, hsets, if_pos hconf, List.append_nil]
    | read b => exact ⟨hl2, hsets⟩
    | release b => exact ⟨hl2, hsets⟩
    | free job => exact ⟨hl2, hsets⟩
  | setRun k =>
    simp only [Node.step, hsets, List.getElem?_nil]
    exact ⟨hl2, trivial⟩
  | setLost k => exact ⟨hl2, by simp only [Node.step, hsets, List.eraseIdx_nil]⟩
  | peerSet k bytes =>
    simp only [Node.step, if_pos hconf]
    exact ⟨hl2, hsets⟩
  | expire k => exact ⟨by simp only [Node.step, hl2, List.filter_nil], hsets⟩
  | ask q k =>
    simp only [Node.step, if_pos hconf]
    exact ⟨hl2, hsets⟩
  | getRun q =>
    simp only [Node.step]
    cases (n.ctx q).asked with
    | none => exact ⟨hl2, hsets⟩
    | some k => exact ⟨hl2, hsets⟩
  | reply q ok => exact ⟨hl2, hsets⟩
  | accessL2 q now k hash l2FreshOk l2StaleOk brkArm room =>
    simp only [Node.step]
    cases (n.ctx q).l2Blob with
    | none => exact ⟨hl2, hsets⟩
    | some c =>
      dsimp only
      cases Http.accessL2 now l2FreshOk l2StaleOk c.bytes with
      | miss | revalidate | expired sie | promote remFresh remStale => exact ⟨hl2, hsets⟩

end Node

end Refill
end Http
end CacheTurbo
