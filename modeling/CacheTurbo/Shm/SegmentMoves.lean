/-
# What each operation does to the two queues

`Does z acts z'` says that a stretch of lock-held code takes the queues of `z` to those of
`z'` by the acts, and that a node of `z'` is new or was there under the same digest.  For each
operation there is such a list: nodes that leave, and then at most one act on the node of the
operation's digest.  `Moves` lists the cases, with what the operation is noted as in the
history of that digest: that it stored it, that it touched it, or neither.
-/

import CacheTurbo.Shm.ResolveMiss
import CacheTurbo.Shm.Segments

namespace CacheTurbo
namespace Shm

open SegLru (Act Fits)

variable {held pending : List BlobId} {out loose : List Addr} {own : List BlobId}
  {z z' z'' : Zone} {acts acts' : List (Act Addr)} {k : KeyHash}

/-- One act on the queues. -/
def laneStep : SegLru.State Addr → Act Addr → SegLru.State Addr :=
  SegLru.State.step lruCapMaxEvict

/-- A stretch of code does these acts. -/
structure Does (z : Zone) (acts : List (Act Addr)) (z' : Zone) : Prop where
  lanes : lanes z' = Run.after laneStep (lanes z) acts
  fits : Run.Along laneStep Fits (Shm.lanes z) acts
  nodes : ∀ b ∈ z'.resident, (∃ entry now, Act.insert b entry now ∈ acts) ∨
    b ∈ z.resident ∧ (z'.mem b).key = (z.mem b).key

namespace Does

theorem trans (h : Does z acts z') (h' : Does z' acts' z'') : Does z (acts ++ acts') z'' where
  lanes := by rw [Run.after_append, ← h.lanes, h'.lanes]
  fits := by
    rw [Run.along_append, ← h.lanes]
    exact ⟨h.fits, h'.fits⟩
  nodes b hb := by
    rcases h'.nodes b hb with ⟨entry, now, hnew⟩ | ⟨hb', hkey'⟩
    · exact Or.inl ⟨entry, now, List.mem_append_right _ hnew⟩
    · rcases h.nodes b hb' with ⟨entry, now, hnew⟩ | ⟨hb'', hkey⟩
      · exact Or.inl ⟨entry, now, List.mem_append_left _ hnew⟩
      · exact Or.inr ⟨hb'', hkey'.trans hkey⟩

/-- The code after it does nothing to the queues. -/
theorem then_quiet (h : Does z acts z') (h' : Does z' [] z'') : Does z acts z'' := by
  have hboth := h.trans h'
  rwa [List.append_nil] at hboth

theorem refl (z : Zone) : Does z [] z := ⟨rfl, trivial, fun _ hb => Or.inr ⟨hb, rfl⟩⟩

theorem of_links (h : z'.links = z.links) : Does z [] z' := by
  refine ⟨lanes_of_links h, trivial, fun b hb => Or.inr ⟨?_, ?_⟩⟩
  · rwa [resident_of_links h] at hb
  · rw [show z'.mem = z.mem from congrArg (fun l => l.2.2.2.2.2) h]

/-- A write to a node that the queues do not see. -/
theorem write (z : Zone) (a : Addr) {f : Node → Node} (hkey : (f (z.mem a)).key = (z.mem a).key)
    (hmark : (f (z.mem a)).mark = (z.mem a).mark) : Does z [] (z.setNode a f) := by
  refine ⟨lanes_setNode_same z a hmark, trivial, fun b hb => Or.inr ⟨hb, ?_⟩⟩
  by_cases hba : b = a
  · rw [hba, setNode_mem_self, hkey]
  · rw [setNode_mem_of_ne z hba]

/-- Code that has its acts by what it does to the queues. -/
theorem of_kept (h : Kept none z z') (hlanes : Shm.lanes z' = Run.after laneStep (Shm.lanes z) acts)
    (hfits : Run.Along laneStep Fits (Shm.lanes z) acts) : Does z acts z' := by
  refine ⟨hlanes, hfits, fun b hb => Or.inr ?_⟩
  obtain ⟨hres, hkey, -⟩ := (h.nodes b hb).resolve_left nofun
  exact ⟨hres, hkey⟩

/-- The same, where the code works on a queued node. -/
theorem of_kept_self {a : Addr} (h : Kept (some a) z z') (ha : a ∈ z.resident)
    (hkey : (z'.mem a).key = (z.mem a).key)
    (hlanes : Shm.lanes z' = Run.after laneStep (Shm.lanes z) acts)
    (hfits : Run.Along laneStep Fits (Shm.lanes z) acts) : Does z acts z' := by
  refine ⟨hlanes, hfits, fun b hb => Or.inr ?_⟩
  rcases h.nodes b hb with he | ⟨hres, hkey', -⟩
  · obtain rfl := Option.some.inj he
    exact ⟨ha, hkey⟩
  · exact ⟨hres, hkey'⟩

/-- Some evictions. -/
theorem evicts (hev : Evicts z z') {chances : List (Addr → Bool)}
    (hlanes : Shm.lanes z' = (Shm.lanes z).evicts chances) :
    Does z (chances.map .evict) z' := by
  refine of_kept (.of_evicts hev) ?_ (SegLru.State.fits_of_thins _ _ ?_)
  · rw [hlanes]
    unfold Run.after
    rw [List.foldl_map]
    rfl
  · intro act hact
    obtain ⟨passes, -, rfl⟩ := List.mem_map.1 hact
    trivial

variable (rb : Rbtree)

/-- A node is dropped. -/
theorem drop (z : Zone) (a : Addr) : Does z [.remove a] (dropLocked rb z a) :=
  of_kept (.of_evicts (Evicts.drop rb z a)) (lanes_drop rb z a) ⟨trivial, trivial⟩

/-- A new node begins. -/
theorem create {a : Addr} {write : Node → Node} (ha : a ∉ z.resident) {entry : Bool} {now : Time}
    (hstart : (write (z.mem a)).mark.cool = .start entry now) :
    Does z [.insert a entry now] (createNode rb z a write) := by
  have hmem := createNode_mem rb z a write
  have hother : ∀ b, b ≠ a → (createNode rb z a write).mem b = z.mem b := fun b hb => by
    simp [createNode, lruInsertNew, rbtreeInsert, Zone.setNode, hb]
  refine ⟨?_, ⟨ha, trivial⟩, fun b hb => ?_⟩
  · show Shm.lanes (createNode rb z a write) =
      ((Shm.lanes z).setMark a (.start entry now)).link a
    rw [SegLru.State.link_cold _ (by rw [SegLru.State.setMark_self]; rfl)]
    refine SegLru.State.ext rfl rfl (funext fun b => ?_)
    show ((createNode rb z a write).mem b).mark =
      ((Shm.lanes z).setMark a (.start entry now)).mark b
    by_cases hb : b = a
    · rw [hb, hmem, SegLru.State.setMark_self, ← hstart]
      rfl
    · rw [hother b hb, SegLru.State.setMark_of_ne _ hb]
      rfl
  · rcases List.mem_cons.1 (show b ∈ a :: z.resident from hb) with rfl | hb'
    · exact Or.inl ⟨_, _, List.mem_singleton_self _⟩
    · rw [hother b (by rintro rfl; exact ha hb')]
      exact Or.inr ⟨hb', rfl⟩

/-- **`shm_touch_lru`.** -/
theorem touch (h : Wf held pending [] [] [] z) {a : Addr} (ha : a ∈ z.resident) (now : Time)
    (protectedPct : ℕ) (hash : UInt32) :
    Does z [.touch a now protectedPct] (touchLru z a now protectedPct hash) :=
  of_kept (h.touchLru ha now protectedPct hash).2.1 (h.lanes_touch ha now protectedPct hash)
    ⟨ha, trivial⟩

end Does

/-! ## Nodes that leave, and a new one -/

/-- A victim leaves during a call on `z`. -/
inductive Leaves (z : Zone) (now : Time) : Act Addr → Prop
  | evict {passes : Addr → Bool} (h : Chance z now passes) : Leaves z now (.evict passes)

theorem Leaves.thins {now : Time} {act : Act Addr} (h : Leaves z now act) : act.Thins := by
  cases h
  trivial

theorem Leaves.of_evicts (hev : Evicts z z') {now : Time} {act : Act Addr}
    (h : Leaves z' now act) : Leaves z now act := by
  obtain ⟨h⟩ := h
  exact .evict (h.of_evicts hev)

/-- Those who leave during one call, and then during the next. -/
theorem leaves_append {now : Time} {acts acts' : List (Act Addr)}
    (h : ∀ act ∈ acts, Leaves z now act) (hev : Evicts z z')
    (h' : ∀ act ∈ acts', Leaves z' now act) : ∀ act ∈ acts ++ acts', Leaves z now act := by
  intro act hact
  rcases List.mem_append.1 hact with hact | hact
  · exact h act hact
  · exact (h' act hact).of_evicts hev

theorem leaves_evicts {now : Time} {chances : List (Addr → Bool)}
    (h : ∀ passes ∈ chances, Chance z now passes) :
    ∀ act ∈ chances.map Act.evict, Leaves z now act := by
  intro act hact
  obtain ⟨passes, hmem, rfl⟩ := List.mem_map.1 hact
  exact .evict (h passes hmem)

/-- What a call that looks for `k` does: nodes leave, and there may be a new node of `k`.
Where it finds none and makes none, evictions are all that happens. -/
inductive Enters (z : Zone) (k : KeyHash) (now : Time) (z' : Zone) : List (Act Addr) → Prop
  | leave {acts : List (Act Addr)} (hleave : ∀ act ∈ acts, Leaves z now act)
      (hback : lookup z k = none → Evicts z z') : Enters z k now z' acts
  | insert {acts : List (Act Addr)} (hleave : ∀ act ∈ acts, Leaves z now act) (p : Addr)
      (entry : Bool) (hnew : lookup z k = none) (hmem : p ∈ z'.resident)
      (hkey : (z'.mem p).key = k) : Enters z k now z' (acts ++ [.insert p entry now])

variable (rb : Rbtree)

theorem Does.allocEvict (h : Wf held pending out loose own z) (now : Time) (size : ℕ)
    {r : Option Addr} (hr : Shm.allocEvict rb z now size = (z', r)) (hev : Evicts z z') :
    ∃ acts, Does z acts z' ∧ ∀ act ∈ acts, Leaves z now act := by
  obtain ⟨chances, hlanes, hchances⟩ := h.lanes_allocEvict rb now size
  rw [hr] at hlanes
  exact ⟨_, .evicts hev hlanes, leaves_evicts hchances⟩

theorem Does.blobAlloc (h : Wf held pending out loose own z) (now : Time) (data : List UInt8)
    {r : Option BlobId} (hr : Shm.blobAlloc rb z now data = (z', r)) (hev : Evicts z z') :
    ∃ acts, Does z acts z' ∧ ∀ act ∈ acts, Leaves z now act := by
  obtain ⟨chances, hlanes, hchances⟩ := h.lanes_blobAlloc rb now data
  rw [hr] at hlanes
  exact ⟨_, .evicts hev hlanes, leaves_evicts hchances⟩

/-- The allocation of a counter node, whatever else the block is written with. -/
theorem Wf.enters_counter (h : Wf held pending [] [] [] z) (hnew : lookup z k = none)
    (now : Time) {z₁ : Zone} {p : Addr}
    (hr : Shm.allocEvict rb z now sizeofNode = (z₁, some p)) (seq : ℕ) {write : Node → Node}
    (hwrite : ∀ n, (write n).key = k ∧ (write n).mark.cool = .start false now) :
    ∃ acts, Enters z k now (createNode rb { z₁ with ownerSeq := seq } p write) acts ∧
      Does z acts (createNode rb { z₁ with ownerSeq := seq } p write) := by
  obtain ⟨h₁, hev⟩ := h.allocNode rb hr
  obtain ⟨acts, hdoes, hleave⟩ := Does.allocEvict rb h now sizeofNode hr hev
  have hseq : Does z₁ [] { z₁ with ownerSeq := seq } := .of_links rfl
  have hout : p ∉ ({ z₁ with ownerSeq := seq } : Zone).resident := h₁.loose_not_resident
  obtain ⟨hkey, hstart⟩ := hwrite (z₁.mem p)
  refine ⟨_, .insert hleave p _ hnew (List.mem_cons_self ..) ?_,
    (hdoes.then_quiet hseq).trans (Does.create rb hout hstart)⟩
  rw [createNode_mem]
  exact hkey

/-- **`shm_claim_locked`** on a node that is there. -/
theorem Does.claim_found (z : Zone) (hash : UInt32) (k : KeyHash) (lockTtl : Time) (a : Addr)
    (now : Time) (pin : Bool) :
    Does z [] (Shm.claimLocked rb z hash k lockTtl (some a) now pin).1 := by
  unfold Shm.claimLocked
  dsimp only
  split_ifs
  · cases (z.mem a).data with
    | none => exact refl z
    | some b => exact of_links rfl
  · exact refl z
  · exact refl z
  · have hseq : Does z [] { z with ownerSeq := z.ownerSeq + 1 } := of_links rfl
    dsimp only
    refine hseq.then_quiet ?_
    exact write { z with ownerSeq := z.ownerSeq + 1 } a rfl rfl

/-- **`shm_claim_locked`** on the digest it was looked up for. -/
theorem Wf.enters_claim (h : Wf held pending [] [] [] z) (hash : UInt32) (k : KeyHash)
    (lockTtl now : Time) (pin : Bool) :
    let z' := (Shm.claimLocked rb z hash k lockTtl (lookup z k) now pin).1
    ∃ acts, Enters z k now z' acts ∧ Does z acts z' := by
  cases hl : lookup z k with
  | some a =>
    refine ⟨[], .leave nofun fun hnone => ?_, .claim_found rb z hash k lockTtl a now pin⟩
    rw [hl] at hnone
    cases hnone
  | none =>
    unfold Shm.claimLocked
    dsimp only
    cases hr : Shm.allocEvict rb z now sizeofNode with
    | mk z₁ p =>
      cases p with
      | none =>
        obtain ⟨-, hev⟩ := h.allocEvict_none rb hr
        obtain ⟨acts, hdoes, hleave⟩ := Does.allocEvict rb h now sizeofNode hr hev
        exact ⟨acts, .leave hleave fun _ => hev, hdoes⟩
      | some p =>
        exact h.enters_counter rb hl now hr (z₁.ownerSeq + 1) fun _ => ⟨rfl, rfl⟩

/-- **`shm_count_miss_locked`** on a node that is there. -/
theorem Does.count_found (z : Zone) (k : KeyHash) (hash : UInt32) (minUses : ℤ) (window : Time)
    (a : Addr) (now : Time) :
    Does z [] (Shm.countMissLocked rb z k hash minUses window (some a) now).1 := by
  unfold Shm.countMissLocked
  dsimp only
  split_ifs
  · exact refl z
  · exact refl z
  all_goals
    dsimp only
    exact write z a rfl rfl

theorem Wf.enters_count (h : Wf held pending [] [] [] z) (k : KeyHash) (hash : UInt32)
    (minUses : ℤ) (window now : Time) :
    let z' := (Shm.countMissLocked rb z k hash minUses window (lookup z k) now).1
    ∃ acts, Enters z k now z' acts ∧ Does z acts z' := by
  cases hl : lookup z k with
  | some a =>
    refine ⟨[], .leave nofun fun hnone => ?_, .count_found rb z k hash minUses window a now⟩
    rw [hl] at hnone
    cases hnone
  | none =>
    unfold Shm.countMissLocked
    dsimp only
    cases hr : Shm.allocEvict rb z now sizeofNode with
    | mk z₁ p =>
      cases p with
      | none =>
        obtain ⟨-, hev⟩ := h.allocEvict_none rb hr
        obtain ⟨acts, hdoes, hleave⟩ := Does.allocEvict rb h now sizeofNode hr hev
        exact ⟨acts, .leave hleave fun _ => hev, hdoes⟩
      | some p => exact h.enters_counter rb hl now hr z₁.ownerSeq fun _ => ⟨rfl, rfl⟩

/-- **`shm_resolve_miss`**: at most one of its two halves makes a node. -/
theorem Wf.enters_resolve (h : Wf held pending [] [] [] z) (k : KeyHash) (hash : UInt32)
    (now : Time) (minUses : ℤ) (window lockTtl : Time) :
    let z' := (Shm.resolveMiss rb z k hash now minUses window lockTtl).1
    ∃ acts, Enters z k now z' acts ∧ Does z acts z' := by
  obtain ⟨acts, henters, hdoes⟩ := h.enters_count rb k hash minUses window now
  obtain ⟨h₁, -, -, hkeep⟩ := h.countMissLocked rb k hash minUses window now
  have hctn := lookup_after_count rb h k hash minUses window now
  unfold Shm.resolveMiss
  dsimp only at henters hdoes h₁ hkeep hctn ⊢
  cases hr : Shm.countMissLocked rb z k hash minUses window (lookup z k) now with
  | mk z₁ rc =>
    rw [hr] at henters hdoes h₁ hkeep hctn
    cases rc with
    | declined => exact ⟨acts, henters, hdoes⟩
    | ok | error | again =>
      dsimp only at hctn ⊢
      rw [hctn]
      cases hl₁ : lookup z₁ k with
      | some a =>
        obtain ⟨ha, hka⟩ := h₁.queues.lookup_resident hl₁
        have hquiet := Does.claim_found rb z₁ hash k lockTtl a now true
        refine ⟨acts, ?_, hdoes.then_quiet hquiet⟩
        cases henters with
        | leave hleave hback =>
          exact .leave hleave fun hnone =>
            absurd hka ((Kept.of_evicts (hback hnone)).key_new h.queues hnone ha)
        | insert hleave p entry hnew hmem hkey =>
          have hmem' : p ∈ (Shm.claimLocked rb z₁ hash k lockTtl (some a) now true).1.resident := by
            show p ∈ (lanes _).linked
            rw [hquiet.lanes]
            exact hmem
          refine .insert hleave p entry hnew hmem' ?_
          exact (((hquiet.nodes p hmem').resolve_left (by simp)).2).trans hkey
      | none =>
        obtain ⟨acts', henters', hdoes'⟩ := h₁.enters_claim rb hash k lockTtl now true
        rw [hl₁] at henters' hdoes'
        cases henters with
        | insert hleave p entry hnew hmem hkey =>
          exact absurd hkey (h₁.queues.lookup_none hl₁ (Or.inl hmem))
        | leave hleave hback =>
          have hnone : lookup z k = none := by
            cases hl : lookup z k with
            | none => rfl
            | some a =>
              rw [hkeep a hl] at hl₁
              cases hl₁
          have hev := hback hnone
          refine ⟨acts ++ acts', ?_, hdoes.trans hdoes'⟩
          cases henters' with
          | leave hleave' hback' =>
            exact .leave (leaves_append hleave hev hleave') fun _ => hev.trans (hback' hl₁)
          | insert hleave' p entry hnew hmem hkey =>
            rw [← List.append_assoc]
            exact .insert (leaves_append hleave hev hleave') p entry hnone hmem hkey

/-! ## Stores -/

/-- What `shm_store_locked` does for the digest `k`, by its answer and the node it wrote. -/
inductive Storing (z : Zone) (k : KeyHash) (now : Time) (entry : Bool) (z' : Zone) :
    Rc → Option Addr → List (Act Addr) → Prop
  | refused {acts : List (Act Addr)} (hleave : ∀ act ∈ acts, Leaves z now act) {rc : Rc}
      (hrc : rc ≠ .ok) : Storing z k now entry z' rc none acts
  | failed {a : Addr} (hfound : lookup z k = some a) {chances : List (Addr → Bool)}
      (hchances : ∀ passes ∈ chances, Chance z now passes) :
      Storing z k now entry z' .error none [.fail a chances]
  | created {acts : List (Act Addr)} (hleave : ∀ act ∈ acts, Leaves z now act) {p : Addr}
      (hnew : lookup z k = none) (hmem : p ∈ z'.resident) (hkey : (z'.mem p).key = k) :
      Storing z k now entry z' .ok (some p) (acts ++ [.insert p entry now])
  | stored {a : Addr} (hfound : lookup z k = some a) {chances : List (Addr → Bool)}
      (hchances : ∀ passes ∈ chances, Chance z now passes) :
      Storing z k now entry z' .ok (some a) [.store a chances entry now]

/-- The refresh path: the node is off its queue while others are evicted. -/
theorem Wf.storing_refresh (h : Wf held pending [] [] [] z) {a : Addr}
    (hl : lookup z k = some a) (now : Time) (data : List UInt8) (freshTtl staleTtl : Time) :
    let r := Shm.storeRefresh rb z now data freshTtl staleTtl a
    ∃ acts, Storing z k now true r.1 r.2.1 r.2.2 acts ∧ Does z acts r.1 := by
  obtain ⟨ha, hk⟩ := h.queues.lookup_resident hl
  obtain ⟨-, hspec⟩ := h.storeRefresh rb ha now data freshTtl staleTtl
  obtain ⟨chances, hlanes, hchances⟩ := (h.unlink ha).lanes_blobAlloc rb now data
  have hoff : Evicts z (lruUnlink z a) :=
    .of_rest List.erase_sublist List.erase_sublist rfl rfl
  have hchances' : ∀ passes ∈ chances, Chance z now passes :=
    fun passes hmem => (hchances passes hmem).of_evicts hoff
  unfold Shm.storeRefresh at hspec ⊢
  dsimp only at hspec ⊢
  cases hr : Shm.blobAlloc rb (lruUnlink z a) now data with
  | mk z₁ body =>
    rw [hr] at hspec hlanes
    cases body with
    | none =>
      obtain ⟨-, hkept⟩ := hspec.resolve_right fun hs => by cases hs.1
      refine ⟨_, .failed hl hchances', .of_kept hkept ?_ ⟨ha, trivial⟩⟩
      rw [lanes_link, hlanes]
      rfl
    | some body =>
      obtain ⟨-, b, hst⟩ := hspec.resolve_left fun hs => by cases hs.1
      refine ⟨_, .stored hl hchances', .of_kept_self hst.kept ha hst.key ?_ ⟨ha, trivial⟩⟩
      dsimp only
      rw [lanes_link, lanes_setNode, lanes_of_links (links_releaseData z₁ _), hlanes]
      rfl

/-- The create path. -/
theorem Wf.storing_create (h : Wf held pending [] [] [] z) (hnew : lookup z k = none)
    (hash : UInt32) (now : Time) (data : List UInt8) (freshTtl staleTtl : Time) :
    let r := Shm.storeCreate rb z k hash now data freshTtl staleTtl
    ∃ acts, Storing z k now true r.1 r.2.1 r.2.2 acts ∧ Does z acts r.1 := by
  obtain ⟨h₀, -⟩ := h.shmAdmit hash
  have hadmit : (Shm.shmAdmit z hash).1.links = z.links ∧ Evicts z (Shm.shmAdmit z hash).1 := by
    rcases shmAdmit_eq z hash with he | he <;> rw [he]
    · exact ⟨rfl, .refl z⟩
    · exact ⟨rfl, .of_rest (List.Sublist.refl _) (List.Sublist.refl _) rfl rfl⟩
  unfold Shm.storeCreate
  cases hadm : Shm.shmAdmit z hash with
  | mk z₀ admitted =>
    rw [hadm] at h₀ hadmit
    obtain ⟨hlinks, hev₀⟩ := hadmit
    have hquiet : Does z [] z₀ := .of_links hlinks
    cases admitted with
    | false =>
      dsimp only
      exact ⟨[], .refused (fun _ hact => absurd hact List.not_mem_nil) nofun, hquiet⟩
    | true =>
      dsimp only
      cases hnode : Shm.allocEvict rb z₀ now sizeofNode with
      | mk z₁ p =>
        cases p with
        | none =>
          obtain ⟨acts, hdoes, hleave⟩ :=
            Does.allocEvict rb h₀ now sizeofNode hnode (h₀.allocEvict_none rb hnode).2
          exact ⟨acts, .refused (fun act hact => (hleave act hact).of_evicts hev₀) nofun,
            hquiet.trans hdoes⟩
        | some ctn =>
          obtain ⟨h₁, hev₁⟩ := h₀.allocNode rb hnode
          obtain ⟨acts, hdoes, hleave⟩ := Does.allocEvict rb h₀ now sizeofNode hnode hev₁
          dsimp only
          cases hblob : Shm.blobAlloc rb z₁ now data with
          | mk z₂ body =>
            have hfirst : ∀ act ∈ acts, Leaves z now act := fun act hact =>
              (hleave act hact).of_evicts hev₀
            have hev := hev₀.trans hev₁
            cases body with
            | none =>
              obtain ⟨acts', hdoes', hleave'⟩ :=
                Does.blobAlloc rb h₁ now data hblob (h₁.blobAlloc_none rb hblob).2
              have hfree : Does z₂ [] (freeLocked z₂ ctn sizeofNode) :=
                .of_links (links_freeLocked _ _ _)
              exact ⟨_, .refused (leaves_append hfirst hev hleave') nofun,
                hquiet.trans (hdoes.trans (hdoes'.then_quiet hfree))⟩
            | some body =>
              obtain ⟨h₂, hev₂, -⟩ := h₁.blobAlloc rb hblob
              obtain ⟨acts', hdoes', hleave'⟩ := Does.blobAlloc rb h₁ now data hblob hev₂
              dsimp only
              refine ⟨_, .created (leaves_append hfirst hev hleave') hnew (List.mem_cons_self ..) ?_,
                (hquiet.trans (hdoes.trans hdoes')).trans ?_⟩
              · rw [createNode_mem]
              · refine Does.create rb h₂.loose_not_resident ?_
                rfl

theorem Wf.storing (h : Wf held pending [] [] [] z) (k : KeyHash) (hash : UInt32) (now : Time)
    (data : List UInt8) (freshTtl staleTtl : Time) {ctn : Option Addr}
    (hctn : ctn = none ∨ ctn = lookup z k) :
    let r := Shm.storeLocked rb z k hash now data freshTtl staleTtl ctn
    ∃ acts, Storing z k now true r.1 r.2.1 r.2.2 acts ∧ Does z acts r.1 := by
  have hnode : ctn.or (lookup z k) = lookup z k := by
    rcases hctn with rfl | rfl
    · rfl
    · exact Option.or_self
  unfold Shm.storeLocked
  rw [hnode]
  cases hl : lookup z k with
  | some a => exact h.storing_refresh rb hl now data freshTtl staleTtl
  | none => exact h.storing_create rb hl hash now data freshTtl staleTtl

/-- Two acts that begin a node, as an entry or not. -/
inductive Begins (a : Addr) (now : Time) : Act Addr → Act Addr → Prop
  | insert : Begins a now (.insert a true now) (.insert a false now)
  | store (chances : List (Addr → Bool)) :
      Begins a now (.store a chances true now) (.store a chances false now)

/-- A node that was begun as an entry becomes a marker. -/
theorem Does.rekind {a : Addr} {now : Time} {act act' : Act Addr}
    (h : Does z (acts ++ [act]) z') (hbegins : Begins a now act act') :
    Does z (acts ++ [act']) (z'.setNode a fun n => { n with kind := .marker }) := by
  obtain ⟨hlanes, hfits, hnodes⟩ := h
  rw [Run.along_append] at hfits
  rw [Run.after_append] at hlanes
  set s := Run.after laneStep (Shm.lanes z) acts with hs
  obtain ⟨s₀, hact, hact'⟩ : ∃ s₀ : SegLru.State Addr,
      laneStep s act = (s₀.setMark a (.start true now)).link a ∧
        laneStep s act' = (s₀.setMark a (.start false now)).link a := by
    cases hbegins with
    | insert => exact ⟨s, rfl, rfl⟩
    | store chances => exact ⟨(s.unlink a).evicts chances, rfl, rfl⟩
  have hstep : Shm.lanes z' = (s₀.setMark a (.start true now)).link a := hlanes.trans hact
  have hmark : (z'.mem a).mark = .start true now := by
    show (Shm.lanes z').mark a = _
    rw [hstep, SegLru.State.mark_link, SegLru.State.setMark_self]
  refine ⟨?_, ?_, fun b hb => ?_⟩
  · have hmarker : ({ z'.mem a with kind := .marker } : Node).mark = .start false now := by
      rw [show ({ z'.mem a with kind := .marker } : Node).mark =
        { (z'.mem a).mark with entry := false } from rfl, hmark]
      rfl
    have hcold : (SegLru.Mark.start false now).hot = (SegLru.Mark.start true now).hot := rfl
    rw [lanes_setNode, hmarker, hstep, SegLru.State.link_setMark s₀ a hcold, Run.after_append]
    exact hact'.symm
  · rw [Run.along_append]
    refine ⟨hfits.1, ?_, trivial⟩
    cases hbegins with
    | insert => exact hfits.2.1
    | store chances => exact hfits.2.1
  · have hkey : ((z'.setNode a fun n => { n with kind := .marker }).mem b).key =
        (z'.mem b).key := by
      by_cases hba : b = a
      · rw [hba, setNode_mem_self]
      · rw [setNode_mem_of_ne z' hba]
    rw [hkey]
    refine (hnodes b hb).imp_left fun hnew => ?_
    obtain ⟨entry, time, hmem⟩ := hnew
    rcases List.mem_append.1 hmem with hmem | hmem
    · exact ⟨entry, time, List.mem_append_left _ hmem⟩
    · cases hbegins with
      | insert =>
        cases List.mem_singleton.1 hmem
        exact ⟨false, now, List.mem_append_right _ (List.mem_singleton_self _)⟩
      | store chances => cases List.mem_singleton.1 hmem

/-- **`shm_store_marker`**: the node that was written becomes a marker. -/
theorem Wf.storing_marker (h : Wf held pending [] [] [] z) (k : KeyHash) (hash : UInt32)
    (now : Time) (data : List UInt8) (freshTtl staleTtl : Time) :
    let r := Shm.storeMarker rb z k hash now data freshTtl staleTtl
    ∃ out acts, Storing z k now false r.1 r.2 out acts ∧ Does z acts r.1 := by
  obtain ⟨acts, hstoring, hdoes⟩ :=
    h.storing rb k hash now data freshTtl staleTtl (Or.inr rfl)
  unfold Shm.storeMarker
  dsimp only at hstoring hdoes ⊢
  cases hr : Shm.storeLocked rb z k hash now data freshTtl staleTtl (lookup z k) with
  | mk z' r =>
    obtain ⟨rc, out⟩ := r
    rw [hr] at hstoring hdoes
    dsimp only at hstoring hdoes
    have hcount : ∀ (was : Bool) (m : Zone),
        Does m [] (if was then m else { m with markers := m.markers + 1 }) := by
      intro was m
      cases was with
      | true => exact .refl m
      | false => exact .of_links rfl
    cases hstoring with
    | refused hleave hrc =>
      cases rc with
      | ok => exact absurd rfl hrc
      | declined | error | again => exact ⟨none, acts, .refused hleave nofun, hdoes⟩
    | failed hfound hchances => exact ⟨none, _, .failed hfound hchances, hdoes⟩
    | @created acts hleave p hnew hmem hkey =>
      have hmarker := hdoes.rekind .insert
      set was := (lookup z k).any fun a => (z.mem a).kind == .marker
      have hquiet := hcount was (z'.setNode p fun n => { n with kind := .marker })
      have hmem' : p ∈ (if was then z'.setNode p fun n => { n with kind := .marker } else
          { z'.setNode p fun n => { n with kind := .marker } with
            markers := (z'.setNode p fun n => { n with kind := .marker }).markers + 1 } :
              Zone).resident := by
        show p ∈ (lanes _).linked
        rw [hquiet.lanes]
        exact hmem
      obtain ⟨-, hsame⟩ := (hquiet.nodes p hmem').resolve_left (by simp)
      refine ⟨some p, _, .created hleave hnew hmem' ?_, hmarker.then_quiet hquiet⟩
      rw [setNode_mem_self] at hsame
      exact hsame.trans hkey
    | @stored a hfound chances hchances =>
      have hdoes' : Does z ([] ++ [.store a chances true now]) z' := hdoes
      have hmarker := hdoes'.rekind (.store chances)
      exact ⟨some a, _, .stored hfound hchances, hmarker.then_quiet (hcount _ _)⟩

/-! ## The other operations -/

theorem Does.pinData (z : Zone) (data : Option BlobId) : Does z [] (Shm.pinData z data) := by
  cases data with
  | none => exact refl z
  | some b => exact of_links rfl

/-- The caller's reference changes no node. -/
theorem pinWritten_links (wanted : Bool) (r : Zone × Rc × Option Addr) :
    (Shm.pinWritten wanted r).1.links = r.1.links ∧ (Shm.pinWritten wanted r).2.1 = r.2.1 := by
  obtain ⟨z, rc, out⟩ := r
  unfold Shm.pinWritten
  split
  next z₂ written he =>
    obtain ⟨rfl, hrc⟩ := Prod.mk.inj he
    obtain ⟨rfl, rfl⟩ := Prod.mk.inj hrc
    split_ifs
    · split <;> exact ⟨rfl, rfl⟩
    · exact ⟨rfl, rfl⟩
  next z₂ rc' out' _ he =>
    obtain ⟨rfl, hrc⟩ := Prod.mk.inj he
    exact ⟨rfl, (Prod.mk.inj hrc).1.symm⟩

/-- **`shm_freshen`** moves the time of a node. -/
theorem Wf.freshen_does (h : Wf held pending [] [] [] z) (k : KeyHash)
    (now freshTtl staleTtl : Time) :
    let z' := (Shm.freshen z k now freshTtl staleTtl).1
    Does z [] z' ∨ ∃ a, lookup z k = some a ∧ Does z [.stamp a now] z' := by
  unfold Shm.freshen
  cases hl : lookup z k with
  | none => exact Or.inl (.refl z)
  | some a =>
    obtain ⟨ha, -⟩ := h.queues.lookup_resident hl
    dsimp only
    by_cases hno : (z.mem a).kind ≠ .entry ∨ (z.mem a).len = 0
    · rw [if_pos hno]
      exact Or.inl (.refl z)
    · rw [if_neg hno]
      dsimp only
      refine Or.inr ⟨a, rfl, .of_kept_self (Kept.setNode z a _) ha ?_ ?_ ⟨ha, trivial⟩⟩
      · rw [setNode_mem_self]
      · rw [lanes_setNode]
        rfl

theorem Wf.enters_l2NegSet (h : Wf held pending [] [] [] z) (k : KeyHash) (hash : UInt32)
    (now ttl : Time) :
    ∃ acts, Enters z k now (Shm.l2NegSet rb z k hash now ttl) acts ∧
      Does z acts (Shm.l2NegSet rb z k hash now ttl) := by
  unfold Shm.l2NegSet
  cases hl : lookup z k with
  | some a =>
    refine ⟨[], .leave nofun fun hnone => ?_, ?_⟩
    · rw [hl] at hnone
      cases hnone
    · dsimp only
      split_ifs
      · exact .refl z
      · exact .write z a rfl rfl
  | none =>
    dsimp only
    cases hr : Shm.allocEvict rb z now sizeofNode with
    | mk z₁ p =>
      cases p with
      | none =>
        obtain ⟨-, hev⟩ := h.allocEvict_none rb hr
        obtain ⟨acts, hdoes, hleave⟩ := Does.allocEvict rb h now sizeofNode hr hev
        exact ⟨acts, .leave hleave fun _ => hev, hdoes⟩
      | some p => exact h.enters_counter rb hl now hr z₁.ownerSeq fun _ => ⟨rfl, rfl⟩

/-- **`shm_l2_neg_check`** touches the node whose memo holds. -/
theorem Wf.l2NegCheck_does (h : Wf held pending [] [] [] z) (k : KeyHash) (hash : UInt32)
    (now : Time) :
    let r := Shm.l2NegCheck z k hash now
    (Does z [] r.1 ∧ r.2 = .ok) ∨
      ∃ a, lookup z k = some a ∧ Does z [.touch a now 0] r.1 ∧ r.2 = .declined := by
  unfold Shm.l2NegCheck
  cases hl : lookup z k with
  | none => exact Or.inl ⟨.refl z, rfl⟩
  | some a =>
    obtain ⟨ha, -⟩ := h.queues.lookup_resident hl
    dsimp only
    split_ifs
    · exact Or.inr ⟨a, rfl, .touch h ha now 0 hash, rfl⟩
    · exact Or.inl ⟨.refl z, rfl⟩

theorem Does.varidxPendingSet (z : Zone) (k : KeyHash) (pending : Bool) :
    Does z [] (Shm.varidxPendingSet z k pending) := by
  unfold Shm.varidxPendingSet
  cases lookup z k with
  | none => exact refl z
  | some a =>
    dsimp only
    split_ifs
    · exact write z a rfl rfl
    · exact refl z

theorem links_armSnapshots (z : Zone) (a : Addr) (now : Time) (q : L1Req) :
    (Shm.armSnapshots z a now q).1.links = z.links := by
  unfold Shm.armSnapshots
  cases (z.mem a).data with
  | none => rfl
  | some b =>
    dsimp only
    by_cases hlen : (z.mem a).len = 0
    · rw [if_pos hlen]
    · rw [if_neg hlen]
      have hacquire : ∀ m : Zone, (blobAcquire m b).links = m.links := fun _ => rfl
      set r := if q.brkArm then (blobAcquire z b, [b]) else (z, []) with hr
      have harm : r.1.links = z.links := by
        rw [hr]
        split_ifs
        · exact hacquire z
        · rfl
      set read := if q.sieArm then r.1.access b else r.1 with hread
      have hseen : read.links = z.links := by
        rw [hread]
        split_ifs
        · exact harm
        · exact harm
      split_ifs
      · exact (hacquire read).trans hseen
      · exact hseen

/-- A stale hit touches its node, and answers neither a miss nor an expired entry. -/
theorem Wf.serveStale_does (h : Wf held pending [] [] [] z) {a : Addr} (ha : a ∈ z.resident)
    (hash : UInt32) (now : Time) (q : L1Req) :
    let r := Shm.serveStale z a hash now q
    Does z [.touch a now q.protectedPct] r.1 ∧ r.2 ≠ .miss ∧ ∀ armed, r.2 ≠ .expired armed := by
  have htouch := Does.touch h ha now q.protectedPct hash
  unfold Shm.serveStale
  dsimp only
  set z₁ := Shm.touchLru z a now q.protectedPct hash
  have hpin := htouch.then_quiet (Does.pinData z₁ (z₁.mem a).data)
  split_ifs
  · exact ⟨hpin, nofun, nofun⟩
  · exact ⟨htouch, nofun, nofun⟩
  · exact ⟨htouch, nofun, nofun⟩
  · refine ⟨hpin.then_quiet ?_, nofun, nofun⟩
    dsimp only
    exact .write _ a rfl rfl
  · exact ⟨htouch, nofun, nofun⟩
  · exact ⟨hpin, nofun, nofun⟩

/-- **The L1 lookup of a request** touches the node of a hit. -/
theorem Wf.accessL1_does (h : Wf held pending [] [] [] z) (k : KeyHash) (hash : UInt32)
    (now : Time) (q : L1Req) :
    let r := Shm.accessL1 z k hash now q
    (Does z [] r.1 ∧ (r.2 = .miss ∨ ∃ armed, r.2 = .expired armed)) ∨
      ∃ a, lookup z k = some a ∧ Does z [.touch a now q.protectedPct] r.1 ∧
        r.2 ≠ .miss ∧ ∀ armed, r.2 ≠ .expired armed := by
  unfold Shm.accessL1
  cases hl : lookup z k with
  | none => exact Or.inl ⟨.refl z, Or.inl rfl⟩
  | some a =>
    obtain ⟨ha, -⟩ := h.queues.lookup_resident hl
    dsimp only
    set z₁ := z.setNode a fun n => { n with varidxPending := false } with hz₁
    have h₁ : Wf held pending [] [] [] z₁ := h.setNode_same a rfl
    have hclear : Does z [] z₁ := .write z a rfl rfl
    have hdata : (z₁.mem a).data = (z.mem a).data := by rw [hz₁, setNode_mem_self]
    by_cases hhit : q.brkOnly = false ∧ q.revalidate = false ∧ now < (z.mem a).freshUntil ∧
        q.freshOk = true
    · rw [if_pos hhit]
      have h₂ := h₁.pinData (a := a) ha
      rw [hdata] at h₂
      have ha₂ : a ∈ (Shm.pinData z₁ (z.mem a).data).resident :=
        pinData_resident z₁ (z.mem a).data ▸ ha
      have htouch := Does.touch h₂ ha₂ now q.protectedPct hash
      exact Or.inr ⟨a, rfl, (hclear.then_quiet (Does.pinData z₁ _)).trans htouch, nofun, nofun⟩
    · rw [if_neg hhit]
      split
      next => exact Or.inr ⟨a, rfl, h.serveStale_does ha hash now q⟩
      next =>
        obtain ⟨-, -, -, hverdict⟩ := h₁.armSnapshots (a := a) ha now q
        exact Or.inl ⟨hclear.then_quiet (.of_links (links_armSnapshots z₁ a now q)),
          Or.inr hverdict⟩

/-! ## Purges -/

/-- What the purges do: nodes are dropped. -/
def Purges (z z' : Zone) : Prop := ∃ gone : List Addr, Does z (gone.map .remove) z'

/-- What a purge of one digest does: its node is dropped, or none. -/
def PurgesKey (z : Zone) (k : KeyHash) (z' : Zone) : Prop :=
  ∃ gone : List Addr, (∀ a ∈ gone, lookup z k = some a) ∧ Does z (gone.map .remove) z'

namespace PurgesKey

theorem refl (z : Zone) (k : KeyHash) : PurgesKey z k z := ⟨[], nofun, .refl z⟩

theorem drop {a : Addr} (hl : lookup z k = some a) (h : Does z [.remove a] z') :
    PurgesKey z k z' := by
  refine ⟨[a], fun b hb => ?_, h⟩
  rw [List.mem_singleton.1 hb]
  exact hl

theorem key (z : Zone) (k : KeyHash) : PurgesKey z k (Shm.purgeKey rb z k).1 := by
  unfold Shm.purgeKey
  cases hl : lookup z k with
  | none => exact refl z k
  | some a => exact drop hl (.drop rb z a)

theorem ifBlob (z : Zone) (k : KeyHash) (stored : BlobId) :
    PurgesKey z k (Shm.purgeIfBlob rb z k stored).1 := by
  unfold Shm.purgeIfBlob
  cases hl : lookup z k with
  | none => exact refl z k
  | some a =>
    dsimp only
    cases (z.mem a).data with
    | none => exact refl z k
    | some b =>
      dsimp only
      split_ifs
      · exact refl z k
      · exact drop hl (.drop rb z a)

/-- **`shm_unstub`** takes a bare counter away. -/
theorem unstub (z : Zone) (k : KeyHash) (owner : ℕ) (now : Time) :
    PurgesKey z k (Shm.unstub rb z k owner now) := by
  unfold Shm.unstub
  split_ifs
  · exact refl z k
  · cases hl : lookup z k with
    | none => exact refl z k
    | some a =>
      have hclear : Does z [] (z.setNode a fun n =>
          { n with refreshing := false, refreshLockUntil := 0, refreshOwner := 0 }) :=
        .write z a rfl rfl
      dsimp only
      split_ifs
      · set z₁ := z.setNode a fun n =>
          { n with refreshing := false, refreshLockUntil := 0, refreshOwner := 0 } with hz₁
        set z₂ := rbtreeDelete rb
          { lruUnlink z₁ a with nEntries := (lruUnlink z₁ a).nEntries - 1 } a with hz₂
        have hunlink : Does z₁ [.remove a] z₂ := by
          refine .of_kept ?_ rfl ⟨trivial, trivial⟩
          exact (Kept.unlink z₁ a).trans (Kept.of_subset (fun _ hb => hb) rfl rfl)
        have hfree : Does z₂ [] (freeLocked z₂ a sizeofNode) := .of_links (links_freeLocked _ _ _)
        exact drop hl (hclear.trans (hunlink.then_quiet hfree))
      · exact ⟨[], nofun, hclear⟩
      · exact refl z k

end PurgesKey

namespace Purges

theorem refl (z : Zone) : Purges z z := ⟨[], .refl z⟩

theorem trans (h : Purges z z') (h' : Purges z' z'') : Purges z z'' := by
  obtain ⟨gone, hdoes⟩ := h
  obtain ⟨gone', hdoes'⟩ := h'
  refine ⟨gone ++ gone', ?_⟩
  rw [List.map_append]
  exact hdoes.trans hdoes'

theorem heads (queue : Zone → List Addr) (limit : ℕ) (z : Zone) :
    Purges z (Shm.dropHeads rb queue limit z).1 := by
  induction limit generalizing z with
  | zero => exact refl z
  | succ limit ih =>
    unfold Shm.dropHeads
    split
    · exact refl z
    next head rest hqueue =>
      have hdrop : Purges z (dropLocked rb z head) := ⟨[head], .drop rb z head⟩
      exact hdrop.trans (ih _)

theorem batch (z : Zone) (remaining : ℕ) : Purges z (Shm.purgeBatch rb z remaining).1 :=
  (heads rb Zone.lru (min purgeBatchMax remaining) z).trans
    (heads rb Zone.lruProtected _ _)

theorem loop (fuel : ℕ) (z : Zone) (remaining purged : ℕ) :
    Purges z (Shm.purgeLoop rb fuel z remaining purged).1 := by
  induction fuel generalizing z remaining purged with
  | zero => exact refl z
  | succ fuel ih =>
    unfold Shm.purgeLoop
    dsimp only
    split_ifs
    · exact refl z
    · exact batch rb z remaining
    · exact batch rb z remaining
    · exact (batch rb z remaining).trans (ih _ _ _)

theorem all (z : Zone) : Purges z (Shm.purgeAll rb z).1 := by
  unfold Shm.purgeAll
  split_ifs
  · exact refl z
  · exact loop rb _ z _ 0

end Purges

/-! ## Every operation -/

/-- What the history of a digest notes of an operation. -/
inductive Note
  | stored (k : KeyHash)
  | touched (k : KeyHash)
  | nothing
  deriving DecidableEq

/-- A store notes that it stored; a lookup under `shm_touch_lru` notes its touch. -/
def ZoneOp.note : ZoneOp → Answer → Note
  | .store k .., .stored .ok _ | .storeIf k .., .stored .ok _ | .storeMarker k .., .code .ok =>
      .stored k
  | .touchLru k .., _ | .l2NegCheck k _, .code .declined => .touched k
  | .accessL1 .., .l1 .miss | .accessL1 .., .l1 (.expired _) => .nothing
  | .accessL1 k .., _ => .touched k
  | _, _ => .nothing

/-- The `protected_pct` of a call: the negative memo touches with none. -/
def ZoneOp.protectedPct : ZoneOp → ℕ
  | .touchLru _ protectedPct _ => protectedPct
  | .accessL1 _ _ q => q.protectedPct
  | _ => 0

/-- The operations that drop nodes. -/
def ZoneOp.purges : ZoneOp → Bool
  | .unstub .. | .purgeKey _ | .purgeIfBlob .. | .purgeBatch _ | .purgeAll => true
  | _ => false

/-- **What an operation does to the queues**: victims leave and a node begins, or the node of
its digest begins anew, comes back, is touched or is dropped. -/
inductive Moves (z : Zone) (now : Time) (op : ZoneOp) (answer : Answer) (z' : Zone) :
    List (Act Addr) → Prop
  | leave {acts : List (Act Addr)} (hleave : ∀ act ∈ acts, Leaves z now act)
      (hnote : op.note answer = .nothing ∨ ∃ k, op.note answer = .touched k ∧ lookup z k = none) :
      Moves z now op answer z' acts
  | purge {gone : List Addr} (hop : op.purges = true)
      (hgone : ∀ k, op.key = some k → ∀ a ∈ gone, lookup z k = some a)
      (hnote : op.note answer = .nothing) : Moves z now op answer z' (gone.map .remove)
  | insert {acts : List (Act Addr)} (hleave : ∀ act ∈ acts, Leaves z now act) {k : KeyHash}
      {p : Addr} (entry : Bool) (hnew : lookup z k = none) (hkey : (z'.mem p).key = k)
      (hnote : op.note answer = .nothing ∨ op.note answer = .stored k) :
      Moves z now op answer z' (acts ++ [.insert p entry now])
  | store {k : KeyHash} {a : Addr} (hfound : lookup z k = some a) {chances : List (Addr → Bool)}
      (hchances : ∀ passes ∈ chances, Chance z now passes) (entry : Bool)
      (hnote : op.note answer = .stored k) : Moves z now op answer z' [.store a chances entry now]
  | fail {k : KeyHash} {a : Addr} (hfound : lookup z k = some a) {chances : List (Addr → Bool)}
      (hchances : ∀ passes ∈ chances, Chance z now passes) (hnote : op.note answer = .nothing) :
      Moves z now op answer z' [.fail a chances]
  | stamp {k : KeyHash} {freshTtl staleTtl : Time} (hop : op = .freshen k freshTtl staleTtl)
      {a : Addr} (hfound : lookup z k = some a) : Moves z now op answer z' [.stamp a now]
  | touch {k : KeyHash} {a : Addr} (hfound : lookup z k = some a)
      (hnote : op.note answer = .touched k) :
      Moves z now op answer z' [.touch a now op.protectedPct]

theorem Enters.moves {now : Time} {op : ZoneOp} {answer : Answer}
    (h : Enters z k now z' acts) (hnote : op.note answer = .nothing) :
    Moves z now op answer z' acts := by
  cases h with
  | leave hleave hback => exact .leave hleave (Or.inl hnote)
  | insert hleave p entry hnew hmem hkey => exact .insert hleave entry hnew hkey (Or.inl hnote)

theorem Storing.moves {now : Time} {op : ZoneOp} {answer : Answer} {entry : Bool} {rc : Rc}
    {out : Option Addr} (h : Storing z k now entry z' rc out acts) (hkey : z''.mem = z'.mem)
    (hok : rc = .ok → op.note answer = .stored k)
    (hno : rc ≠ .ok → op.note answer = .nothing) : Moves z now op answer z'' acts := by
  cases h with
  | refused hleave hrc => exact .leave hleave (Or.inl (hno hrc))
  | failed hfound hchances => exact .fail hfound hchances (hno nofun)
  | created hleave hnew hmem hkey' =>
    exact .insert hleave entry hnew (by rw [hkey]; exact hkey') (Or.inr (hok rfl))
  | stored hfound hchances => exact .store hfound hchances entry (hok rfl)

theorem Wf.moves_store (h : Wf held pending [] [] [] z) (k : KeyHash) (hash : UInt32) (now : Time)
    (data : List UInt8) (freshTtl staleTtl : Time) (wanted : Bool) {ctn : Option Addr}
    (hctn : ctn = none ∨ ctn = lookup z k) {op : ZoneOp}
    (hok : ∀ pin, op.note (.stored .ok pin) = .stored k)
    (hno : ∀ rc pin, rc ≠ .ok → op.note (.stored rc pin) = .nothing) :
    let r := Shm.pinWritten wanted (Shm.storeLocked rb z k hash now data freshTtl staleTtl ctn)
    ∃ acts, Moves z now op (.stored r.2.1 r.2.2) r.1 acts ∧ Does z acts r.1 := by
  obtain ⟨acts, hstoring, hdoes⟩ := h.storing rb k hash now data freshTtl staleTtl hctn
  set r := Shm.storeLocked rb z k hash now data freshTtl staleTtl ctn
  obtain ⟨hlinks, hrc⟩ := pinWritten_links wanted r
  refine ⟨acts, hstoring.moves (congrArg (fun l => l.2.2.2.2.2) hlinks) (fun he => ?_)
    fun he => ?_, hdoes.then_quiet (.of_links hlinks)⟩
  · rw [hrc, he]
    exact hok _
  · exact hno _ _ (by rwa [hrc])

theorem Wf.moves_storeIf (h : Wf held pending [] [] [] z) (k : KeyHash) (hash : UInt32)
    (now : Time) (data : List UInt8) (freshTtl staleTtl : Time) (predicate : StoreIf)
    (wanted : Bool) :
    let r := Shm.storeIf rb z k hash now data freshTtl staleTtl predicate wanted
    ∃ acts, Moves z now (.storeIf k hash data freshTtl staleTtl predicate wanted)
      (.stored r.2.1 r.2.2) r.1 acts ∧ Does z acts r.1 := by
  unfold Shm.storeIf
  dsimp only
  split_ifs
  · exact ⟨[], .leave nofun (Or.inl rfl), .refl z⟩
  · refine h.moves_store rb k hash now data freshTtl staleTtl wanted (Or.inr rfl)
      (fun _ => rfl) fun rc pin hrc => ?_
    cases rc with
    | ok => exact absurd rfl hrc
    | declined | error | again => rfl

/-- **Every operation** moves nodes on the queues by such acts. -/
theorem Wf.exec_moves (h : Wf held pending [] [] [] z) (now : Time) (op : ZoneOp) :
    let r := Shm.exec rb z now op
    ∃ acts, Moves z now op r.2 r.1 acts ∧ Does z acts r.1 := by
  have hquiet : ∀ {answer : Answer} {z' : Zone}, op.note answer = .nothing → Does z [] z' →
      ∃ acts, Moves z now op answer z' acts ∧ Does z acts z' :=
    fun hnote hdoes => ⟨[], .leave nofun (Or.inl hnote), hdoes⟩
  have hpurge : ∀ {answer : Answer} {z' : Zone}, op.note answer = .nothing → op.purges = true →
      op.key = none → Purges z z' → ∃ acts, Moves z now op answer z' acts ∧ Does z acts z' := by
    rintro answer z' hnote hop hall ⟨gone, hdoes⟩
    refine ⟨_, .purge hop (fun k hk => ?_) hnote, hdoes⟩
    rw [hall] at hk
    cases hk
  have hpurgeKey : ∀ {answer : Answer} {z' : Zone} {k : KeyHash}, op.note answer = .nothing →
      op.purges = true → op.key = some k → PurgesKey z k z' →
      ∃ acts, Moves z now op answer z' acts ∧ Does z acts z' := by
    rintro answer z' k hnote hop hone ⟨gone, hgone, hdoes⟩
    refine ⟨_, .purge hop (fun k' hk => ?_) hnote, hdoes⟩
    rw [hone] at hk
    obtain rfl := Option.some.inj hk
    exact hgone
  have henters : ∀ {answer : Answer} {z' : Zone} {k : KeyHash}, op.note answer = .nothing →
      (∃ acts, Enters z k now z' acts ∧ Does z acts z') →
      ∃ acts, Moves z now op answer z' acts ∧ Does z acts z' := by
    rintro answer z' k hnote ⟨acts, hacts, hdoes⟩
    exact ⟨acts, hacts.moves hnote, hdoes⟩
  cases op with
  | store k hash data freshTtl staleTtl wanted =>
    refine h.moves_store rb k hash now data freshTtl staleTtl wanted (Or.inl rfl) (fun _ => rfl) ?_
    intro rc pin hrc
    cases rc with
    | ok => exact absurd rfl hrc
    | declined | error | again => rfl
  | storeIf k hash data freshTtl staleTtl predicate wanted =>
    exact h.moves_storeIf rb k hash now data freshTtl staleTtl predicate wanted
  | storeMarker k hash data freshTtl staleTtl =>
    obtain ⟨out, acts, hstoring, hdoes⟩ :=
      h.storing_marker rb k hash now data freshTtl staleTtl
    refine ⟨acts, hstoring.moves rfl (fun he => ?_) fun he => ?_, hdoes⟩
    · show ZoneOp.note _ (.code (Shm.storeMarker rb z k hash now data freshTtl staleTtl).2) = _
      rw [he]
      rfl
    · show ZoneOp.note _ (.code (Shm.storeMarker rb z k hash now data freshTtl staleTtl).2) = _
      revert he
      cases (Shm.storeMarker rb z k hash now data freshTtl staleTtl).2 with
      | ok => exact fun he => absurd rfl he
      | declined | error | again => exact fun _ => rfl
  | freshen k freshTtl staleTtl =>
    rcases h.freshen_does k now freshTtl staleTtl with hdoes | ⟨a, hfound, hdoes⟩
    · exact hquiet rfl hdoes
    · exact ⟨_, .stamp rfl hfound, hdoes⟩
  | claim k hash lockTtl => exact henters rfl (h.enters_claim rb hash k lockTtl now false)
  | countMiss k hash minUses window =>
    exact henters rfl (h.enters_count rb k hash minUses window now)
  | resolveMiss k hash minUses window lockTtl =>
    exact henters rfl (h.enters_resolve rb k hash now minUses window lockTtl)
  | owns k owner => exact hquiet rfl (.refl z)
  | unstub k owner => exact hpurgeKey rfl rfl rfl (.unstub rb z k owner now)
  | l2NegCheck k hash =>
    have hspec := h.l2NegCheck_does k hash now
    show ∃ acts, Moves z now (.l2NegCheck k hash) (.code (Shm.l2NegCheck z k hash now).2)
      (Shm.l2NegCheck z k hash now).1 acts ∧ Does z acts (Shm.l2NegCheck z k hash now).1
    dsimp only at hspec
    generalize Shm.l2NegCheck z k hash now = r at hspec
    obtain ⟨z', rc⟩ := r
    rcases hspec with ⟨hdoes, rfl⟩ | ⟨a, hl, hdoes, rfl⟩
    · exact hquiet rfl hdoes
    · exact ⟨_, .touch hl rfl, hdoes⟩
  | l2NegSet k hash ttl => exact henters rfl (h.enters_l2NegSet rb k hash now ttl)
  | varidxPendingSet k mark => exact hquiet rfl (.varidxPendingSet z k mark)
  | touchLru k protectedPct hash =>
    show ∃ acts, Moves z now _ .done (Shm.touchFound z k now protectedPct hash) acts ∧
      Does z acts (Shm.touchFound z k now protectedPct hash)
    unfold Shm.touchFound
    cases hl : lookup z k with
    | none => exact ⟨[], .leave nofun (Or.inr ⟨k, rfl, hl⟩), .refl z⟩
    | some a =>
      obtain ⟨ha, -⟩ := h.queues.lookup_resident hl
      exact ⟨_, .touch hl rfl, .touch h ha now protectedPct hash⟩
  | accessL1 k hash q =>
    have hspec := h.accessL1_does k hash now q
    show ∃ acts, Moves z now (.accessL1 k hash q) (.l1 (Shm.accessL1 z k hash now q).2)
      (Shm.accessL1 z k hash now q).1 acts ∧ Does z acts (Shm.accessL1 z k hash now q).1
    dsimp only at hspec
    generalize Shm.accessL1 z k hash now q = r at hspec
    obtain ⟨z', verdict⟩ := r
    rcases hspec with ⟨hdoes, hmiss⟩ | ⟨a, hl, hdoes, hmiss, hexpired⟩
    · refine hquiet ?_ hdoes
      rcases hmiss with rfl | ⟨armed, rfl⟩ <;> rfl
    · refine ⟨_, .touch hl ?_, hdoes⟩
      cases verdict with
      | miss => exact absurd rfl hmiss
      | expired armed => exact absurd rfl (hexpired armed)
      | error | hit | stale | refresh | regenerate => rfl
  | purgeKey k => exact hpurgeKey rfl rfl rfl (.key rb z k)
  | purgeIfBlob k stored => exact hpurgeKey rfl rfl rfl (.ifBlob rb z k stored)
  | purgeBatch remaining => exact hpurge rfl rfl rfl (.batch rb z remaining)
  | purgeAll => exact hpurge rfl rfl rfl (.all rb z)
  | breakerWrite word => exact hquiet rfl (.of_links rfl)
  | admissionWrite on => exact hquiet rfl (.of_links rfl)

end Shm
end CacheTurbo
