/-
# Threads over one shared state

Lock-free code is a set of callers, each with a frame of its own (where it is
and what its local variables hold), that take turns at single atomic accesses
of one shared state.  `next` says what one such access does: it gets an input
from outside (the clock), the shared state and the frame of the caller that
runs.  There is a caller for each natural number, so a run has as many of them
as it names.

The proof rule is the one for interference.  An assertion about the whole
system has three parts: one about the shared state, one about the shared state
and a single frame, and one about the frames of two different callers.  A step
keeps all three when the caller that moves establishes its own part, leaves
the part of any other caller true, and stays apart from it.

Where the frames are counted they stand in a list, and `split_at` takes the one
that moves out of it.
-/

import Mathlib.Logic.Function.Basic
import Mathlib.Data.Nat.Notation
import Mathlib.Data.List.Perm.Basic

namespace CacheTurbo

/-- A shared state and one frame for each caller. -/
structure Threads (σ φ : Type*) where
  shared : σ
  frame : ℕ → φ

namespace Threads

variable {σ φ ι : Type*}

/-- One step: the caller `e.1` makes one access, with the input `e.2`. -/
def step (next : ι → σ → φ → σ × φ) (s : Threads σ φ) (e : ℕ × ι) : Threads σ φ :=
  { shared := (next e.2 s.shared (s.frame e.1)).1
    frame := Function.update s.frame e.1 (next e.2 s.shared (s.frame e.1)).2 }

@[simp] theorem step_shared (next : ι → σ → φ → σ × φ) (s : Threads σ φ) (e : ℕ × ι) :
    (s.step next e).shared = (next e.2 s.shared (s.frame e.1)).1 := rfl

@[simp] theorem step_frame_self (next : ι → σ → φ → σ × φ) (s : Threads σ φ) (e : ℕ × ι) :
    (s.step next e).frame e.1 = (next e.2 s.shared (s.frame e.1)).2 :=
  Function.update_self ..

theorem step_frame_of_ne (next : ι → σ → φ → σ × φ) (s : Threads σ φ) {e : ℕ × ι} {j : ℕ}
    (h : j ≠ e.1) : (s.step next e).frame j = s.frame j :=
  Function.update_of_ne h ..

/-- An assertion about the shared state, each caller's frame, and the frames of
each two callers. -/
structure Holds (Inv : σ → Prop) (Own : ℕ → σ → φ → Prop) (Apart : φ → φ → Prop)
    (s : Threads σ φ) : Prop where
  inv : Inv s.shared
  own : ∀ i, Own i s.shared (s.frame i)
  apart : ∀ i j, i ≠ j → Apart (s.frame i) (s.frame j)

/-- **The interference rule**, where what is left of another caller's part rests on how far
apart the two are. -/
theorem Holds.step_of_apart {next : ι → σ → φ → σ × φ} {Inv Inv' : σ → Prop}
    {Own Own' : ℕ → σ → φ → Prop} {Apart : φ → φ → Prop} {s : Threads σ φ} {e : ℕ × ι}
    (h : s.Holds Inv Own Apart) (hinv : Inv' (next e.2 s.shared (s.frame e.1)).1)
    (hown : Own' e.1 (next e.2 s.shared (s.frame e.1)).1 (next e.2 s.shared (s.frame e.1)).2)
    (hfree : ∀ i f, Own i s.shared f → Apart f (s.frame e.1) →
      Own' i (next e.2 s.shared (s.frame e.1)).1 f)
    (hapart : ∀ i f, Own i s.shared f → Apart (s.frame e.1) f → Apart f (s.frame e.1) →
      Apart (next e.2 s.shared (s.frame e.1)).2 f ∧ Apart f (next e.2 s.shared (s.frame e.1)).2) :
    (s.step next e).Holds Inv' Own' Apart := by
  refine ⟨hinv, fun i => ?_, fun i j hij => ?_⟩
  · by_cases hi : i = e.1
    · subst hi
      rw [step_frame_self]
      exact hown
    · rw [step_frame_of_ne next s hi]
      exact hfree i _ (h.own i) (h.apart i e.1 hi)
  · by_cases hi : i = e.1
    · have hj : j ≠ e.1 := fun hj => hij (hi.trans hj.symm)
      subst hi
      rw [step_frame_self, step_frame_of_ne next s hj]
      exact (hapart j _ (h.own j) (h.apart _ _ hij) (h.apart _ _ hij.symm)).1
    · by_cases hj : j = e.1
      · subst hj
        rw [step_frame_self, step_frame_of_ne next s hi]
        exact (hapart i _ (h.own i) (h.apart _ _ hij.symm) (h.apart _ _ hij)).2
      · rw [step_frame_of_ne next s hi, step_frame_of_ne next s hj]
        exact h.apart i j hij

/-- **The interference rule.** -/
theorem Holds.step {next : ι → σ → φ → σ × φ} {Inv Inv' : σ → Prop} {Own Own' : ℕ → σ → φ → Prop}
    {Apart : φ → φ → Prop} {s : Threads σ φ} {e : ℕ × ι} (h : s.Holds Inv Own Apart)
    (hinv : Inv' (next e.2 s.shared (s.frame e.1)).1)
    (hown : Own' e.1 (next e.2 s.shared (s.frame e.1)).1 (next e.2 s.shared (s.frame e.1)).2)
    (hfree : ∀ i f, Own i s.shared f → Own' i (next e.2 s.shared (s.frame e.1)).1 f)
    (hapart : ∀ i f, Own i s.shared f → Apart (s.frame e.1) f → Apart f (s.frame e.1) →
      Apart (next e.2 s.shared (s.frame e.1)).2 f ∧ Apart f (next e.2 s.shared (s.frame e.1)).2) :
    (s.step next e).Holds Inv' Own' Apart :=
  h.step_of_apart hinv hown (fun i f hf _ => hfree i f hf) hapart

/-- The frames beside the one at place `k`. -/
theorem split_at {l : List φ} {k : ℕ} {f : φ} (h : l[k]? = some f) :
    ∃ rest, l.Perm (f :: rest) ∧ (∀ f', (l.set k f').Perm (f' :: rest)) ∧
      (l.eraseIdx k).Perm rest := by
  obtain ⟨hk, rfl⟩ := List.getElem?_eq_some_iff.1 h
  refine ⟨l.take k ++ l.drop (k + 1), ?_, fun f' => ?_, ?_⟩
  · have hsplit : l = l.take k ++ l[k] :: l.drop (k + 1) := by
      rw [List.getElem_cons_drop, List.take_append_drop]
    conv_lhs => rw [hsplit]
    exact List.perm_middle
  · rw [List.set_eq_take_append_cons_drop, if_pos hk]
    exact List.perm_middle
  · rw [List.eraseIdx_eq_take_drop_succ]

end Threads
end CacheTurbo
