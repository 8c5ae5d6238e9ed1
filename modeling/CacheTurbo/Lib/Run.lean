/-
# Runs of a labelled step function

A system here is a total function `step : σ → ι → σ`: from a state and the
label of what happens next to the next state.  A run is a list of labels.
Two rules cover the run results of the development: an invariant that every
step keeps holds after every run (`after_invariant`), and a property of single
steps holds all along a run when an invariant gives it step by step
(`along_of_invariant`), possibly under a condition on each step of that run.

A step that may be disabled is a relation instead; `Reachable` and its
`Reachable.invariant` are the same rule for that case.
-/

import Mathlib.Logic.Basic
import Mathlib.Data.List.Basic

namespace CacheTurbo
namespace Run

variable {σ ι : Type*}

/-- The state after a run. -/
def after (step : σ → ι → σ) (s : σ) (run : List ι) : σ := run.foldl step s

@[simp] theorem after_nil (step : σ → ι → σ) (s : σ) : after step s [] = s := rfl

@[simp] theorem after_cons (step : σ → ι → σ) (s : σ) (i : ι) (run : List ι) :
    after step s (i :: run) = after step (step s i) run := rfl

theorem after_append (step : σ → ι → σ) (s : σ) (run run' : List ι) :
    after step s (run ++ run') = after step (after step s run) run' :=
  List.foldl_append ..

/-- `R` holds of each step of the run: of the state before it and its label. -/
def Along (step : σ → ι → σ) (R : σ → ι → Prop) : σ → List ι → Prop
  | _, [] => True
  | s, i :: run => R s i ∧ Along step R (step s i) run

@[simp] theorem along_nil (step : σ → ι → σ) (R : σ → ι → Prop) (s : σ) :
    Along step R s [] := trivial

@[simp] theorem along_cons (step : σ → ι → σ) (R : σ → ι → Prop) (s : σ) (i : ι)
    (run : List ι) : Along step R s (i :: run) ↔ R s i ∧ Along step R (step s i) run :=
  Iff.rfl

instance instDecidableAlong (step : σ → ι → σ) (R : σ → ι → Prop) [∀ s i, Decidable (R s i)] :
    (s : σ) → (run : List ι) → Decidable (Along step R s run)
  | _, [] => isTrue trivial
  | s, i :: run =>
      have := instDecidableAlong step R (step s i) run
      inferInstanceAs (Decidable (R s i ∧ Along step R (step s i) run))

/-- Two properties of the steps of a run. -/
theorem along_and {step : σ → ι → σ} {C D : σ → ι → Prop} {s : σ} {run : List ι}
    (hC : Along step C s run) (hD : Along step D s run) :
    Along step (fun s i => C s i ∧ D s i) s run := by
  induction run generalizing s with
  | nil => trivial
  | cons i run ih => exact ⟨⟨hC.1, hD.1⟩, ih hC.2 hD.2⟩

/-- A property of the labels of a run holds of its steps. -/
theorem along_of_forall {step : σ → ι → σ} {C : ι → Prop} {s : σ} {run : List ι}
    (h : ∀ i ∈ run, C i) : Along step (fun _ i => C i) s run := by
  induction run generalizing s with
  | nil => trivial
  | cons i run ih =>
    exact ⟨h i (List.mem_cons_self ..), ih fun j hj => h j (List.mem_cons_of_mem _ hj)⟩

/-- **The invariant rule.**  What every step keeps holds after every run. -/
theorem after_invariant {step : σ → ι → σ} {P : σ → Prop} (hstep : ∀ s i, P s → P (step s i))
    {s : σ} (h : P s) (run : List ι) : P (after step s run) := by
  induction run generalizing s with
  | nil => exact h
  | cons i run ih => exact ih (hstep s i h)

/-- **The step-property rule.**  An invariant that is kept by the steps meeting
`C`, and that gives `R` on them, gives `R` all along a run that meets `C`. -/
theorem along_of_invariant {step : σ → ι → σ} {P : σ → Prop} {C R : σ → ι → Prop}
    (hstep : ∀ s i, P s → C s i → R s i ∧ P (step s i)) {s : σ} (h : P s) {run : List ι}
    (hC : Along step C s run) : Along step R s run := by
  induction run generalizing s with
  | nil => trivial
  | cons i run ih =>
    obtain ⟨hi, hrest⟩ := hC
    obtain ⟨hR, hP⟩ := hstep s i h hi
    exact ⟨hR, ih hP hrest⟩

/-- The invariant rule for the runs whose steps all meet `C`. -/
theorem after_of_along {step : σ → ι → σ} {P : σ → Prop} {C : σ → ι → Prop}
    (hstep : ∀ s i, P s → C s i → P (step s i)) {s : σ} (h : P s) {run : List ι}
    (hC : Along step C s run) : P (after step s run) := by
  induction run generalizing s with
  | nil => exact h
  | cons i run ih => exact ih (hstep s i h hC.1) hC.2

/-- Two step properties that agree wherever an invariant holds agree along every
run. -/
theorem along_congr_of_invariant {step : σ → ι → σ} {P : σ → Prop} {C R : σ → ι → Prop}
    (hstep : ∀ s i, P s → P (step s i)) (hiff : ∀ s i, P s → (R s i ↔ C s i)) {s : σ} (h : P s)
    (run : List ι) : Along step R s run ↔ Along step C s run := by
  induction run generalizing s with
  | nil => exact Iff.rfl
  | cons i run ih => exact and_congr (hiff s i h) (ih (hstep s i h))

/-- The same where the invariant is only kept by the steps that meet `C`. -/
theorem along_iff_of_invariant {step : σ → ι → σ} {P : σ → Prop} {C R : σ → ι → Prop}
    (hstep : ∀ s i, P s → C s i → R s i ∧ P (step s i)) (hconv : ∀ s i, P s → R s i → C s i)
    {s : σ} (h : P s) (run : List ι) : Along step R s run ↔ Along step C s run := by
  refine ⟨fun hR => ?_, along_of_invariant hstep h⟩
  induction run generalizing s with
  | nil => trivial
  | cons i run ih =>
    have hi := hconv s i h hR.1
    exact ⟨hi, ih (hstep s i h hi).2 hR.2⟩

/-- A property of the steps of two runs, one after the other. -/
theorem along_append {step : σ → ι → σ} {R : σ → ι → Prop} {s : σ} {run run' : List ι} :
    Along step R s (run ++ run') ↔ Along step R s run ∧ Along step R (after step s run) run' := by
  induction run generalizing s with
  | nil => exact (iff_of_eq (true_and _)).symm
  | cons i run ih =>
    rw [List.cons_append, along_cons, along_cons, ih, after_cons, and_assoc]

/-- The label of the last step of the run that meets `C`. -/
def last (step : σ → ι → σ) (C : σ → ι → Prop) [∀ s i, Decidable (C s i)] :
    σ → List ι → Option ι
  | _, [] => none
  | s, i :: run => (last step C (step s i) run).or (if C s i then some i else none)

/-- One step more. -/
theorem last_concat (step : σ → ι → σ) (C : σ → ι → Prop) [∀ s i, Decidable (C s i)] (s : σ)
    (run : List ι) (i : ι) : last step C s (run ++ [i]) =
      if C (after step s run) i then some i else last step C s run := by
  induction run generalizing s with
  | nil =>
    rw [List.nil_append, last, after_nil, last]
    exact Option.none_or
  | cons j run ih =>
    rw [List.cons_append, last, ih, after_cons, last]
    by_cases h : C (after step (step s j) run) i
    · rw [if_pos h, if_pos h, Option.some_or]
    · rw [if_neg h, if_neg h]

theorem mem_of_last {step : σ → ι → σ} {C : σ → ι → Prop} [∀ s i, Decidable (C s i)] {s : σ}
    {run : List ι} {i : ι} (h : last step C s run = some i) : i ∈ run := by
  induction run generalizing s with
  | nil => cases h
  | cons j run ih =>
    rw [last, Option.or_eq_some_iff] at h
    obtain h | ⟨-, h⟩ := h
    · exact List.mem_cons_of_mem _ (ih h)
    · by_cases hC : C s j
      · rw [if_pos hC] at h
        cases h
        exact List.mem_cons_self ..
      · rw [if_neg hC] at h
        cases h

/-- How many steps of the run meet `C`. -/
def count (step : σ → ι → σ) (C : σ → ι → Prop) [∀ s i, Decidable (C s i)] : σ → List ι → ℕ
  | _, [] => 0
  | s, i :: run => (if C s i then 1 else 0) + count step C (step s i) run

/-- Counted over two runs, one after the other. -/
theorem count_append (step : σ → ι → σ) (C : σ → ι → Prop) [∀ s i, Decidable (C s i)] (s : σ)
    (run run' : List ι) : count step C s (run ++ run') =
      count step C s run + count step C (after step s run) run' := by
  induction run generalizing s with
  | nil => exact (Nat.zero_add _).symm
  | cons i run ih => rw [List.cons_append, count, ih, count, after_cons, Nat.add_assoc]

/-- No step of the run meets `C`. -/
theorem count_eq_zero {step : σ → ι → σ} {C : σ → ι → Prop} [∀ s i, Decidable (C s i)] {s : σ}
    {run : List ι} (h : Along step (fun s i => ¬C s i) s run) : count step C s run = 0 := by
  induction run generalizing s with
  | nil => rfl
  | cons i run ih => rw [count, if_neg h.1, ih h.2]

/-- The steps are counted by their labels. -/
theorem count_label (step : σ → ι → σ) (p : ι → Bool) (s : σ) (run : List ι) :
    count step (fun _ i => p i = true) s run = run.countP p := by
  induction run generalizing s with
  | nil => rfl
  | cons i run ih => rw [count, ih, List.countP_cons, Nat.add_comm]

/-- **The rule for counted runs.**  The invariant may speak of how many steps met
`C` so far, as long as there are at most `N` of them in all. -/
theorem along_of_counted {step : σ → ι → σ} {P : ℕ → σ → Prop} {C R : σ → ι → Prop}
    [∀ s i, Decidable (C s i)] {N : ℕ}
    (hstep : ∀ n s i, P n s → n + (if C s i then 1 else 0) ≤ N →
      R s i ∧ P (n + if C s i then 1 else 0) (step s i)) {n : ℕ} {s : σ} (h : P n s)
    {run : List ι} (hN : n + count step C s run ≤ N) :
    Along step R s run ∧ P (n + count step C s run) (after step s run) := by
  induction run generalizing n s with
  | nil => exact ⟨trivial, h⟩
  | cons i run ih =>
    rw [count] at hN
    obtain ⟨hR, hP⟩ := hstep n s i h (by omega)
    obtain ⟨hrest, hend⟩ := ih hP (by omega)
    refine ⟨⟨hR, hrest⟩, ?_⟩
    rw [after_cons, count, ← Nat.add_assoc]
    exact hend

/-- The rule for counted runs whose steps all meet `D`. -/
theorem after_of_counted {step : σ → ι → σ} {P : ℕ → σ → Prop} {C D : σ → ι → Prop}
    [∀ s i, Decidable (C s i)] {N : ℕ}
    (hstep : ∀ n s i, P n s → D s i → n + (if C s i then 1 else 0) ≤ N →
      P (n + if C s i then 1 else 0) (step s i)) {n : ℕ} {s : σ} (h : P n s) {run : List ι}
    (hD : Along step D s run) (hN : n + count step C s run ≤ N) :
    P (n + count step C s run) (after step s run) := by
  induction run generalizing n s with
  | nil => exact h
  | cons i run ih =>
    rw [count] at hN
    have hP := hstep n s i h hD.1 (by omega)
    have hend := ih hP hD.2 (by omega)
    rw [after_cons, count, ← Nat.add_assoc]
    exact hend

/-- The sum of a cost over the steps of a run. -/
def total (step : σ → ι → σ) (cost : σ → ι → ℕ) : σ → List ι → ℕ
  | _, [] => 0
  | s, i :: run => cost s i + total step cost (step s i) run

/-- **The potential rule.**  Where every step pays for what it gains out of a potential and of
its cost, so does every run. -/
theorem total_le_of_potential {step : σ → ι → σ} {gain cost : σ → ι → ℕ} {V : σ → ℕ}
    (hstep : ∀ s i, gain s i + V (step s i) ≤ V s + cost s i) (s : σ) (run : List ι) :
    total step gain s run + V (after step s run) ≤ V s + total step cost s run := by
  induction run generalizing s with
  | nil => exact Nat.le_of_eq (Nat.add_comm _ _)
  | cons i run ih =>
    have hi := hstep s i
    have hrun := ih (step s i)
    rw [total, total, after_cons]
    omega

theorem total_add (step : σ → ι → σ) (cost cost' : σ → ι → ℕ) (s : σ) (run : List ι) :
    total step (fun s i => cost s i + cost' s i) s run =
      total step cost s run + total step cost' s run := by
  induction run generalizing s with
  | nil => rfl
  | cons i run ih =>
    rw [total, total, total, ih]
    omega

/-- What the steps of a run put out, in order. -/
def outputs {ο : Type*} (step : σ → ι → σ) (out : σ → ι → ο) : σ → List ι → List ο
  | _, [] => []
  | s, i :: run => out s i :: outputs step out (step s i) run

/-- **The rule for two runs.**  Two systems whose steps keep a relation and put out
the same, put out the same along every run and end related. -/
theorem outputs_of_related {τ ο : Type*} {step : σ → ι → σ} {step' : τ → ι → τ}
    {out : σ → ι → ο} {out' : τ → ι → ο} {R : σ → τ → Prop}
    (hstep : ∀ s t i, R s t → R (step s i) (step' t i) ∧ out' t i = out s i) {s : σ} {t : τ}
    (h : R s t) (run : List ι) :
    R (after step s run) (after step' t run) ∧
      outputs step' out' t run = outputs step out s run := by
  induction run generalizing s t with
  | nil => exact ⟨h, rfl⟩
  | cons i run ih =>
    obtain ⟨hnext, hout⟩ := hstep s t i h
    obtain ⟨hend, hrest⟩ := ih hnext
    exact ⟨hend, by rw [outputs, outputs, hout, hrest]⟩

/-- The states a step relation reaches from the initial ones. -/
inductive Reachable (init : σ → Prop) (step : σ → ι → σ → Prop) : σ → Prop
  | init {s : σ} (h : init s) : Reachable init step s
  | step {s s' : σ} {i : ι} (h : Reachable init step s) (hs : step s i s') :
      Reachable init step s'

/-- The invariant rule for a step relation. -/
theorem Reachable.invariant {init : σ → Prop} {step : σ → ι → σ → Prop} {P : σ → Prop}
    (hinit : ∀ s, init s → P s) (hstep : ∀ s i s', P s → step s i s' → P s') {s : σ}
    (h : Reachable init step s) : P s := by
  induction h with
  | init h => exact hinit _ h
  | step _ hs ih => exact hstep _ _ _ ih hs

end Run
end CacheTurbo
