/-
# Pieces of a text

A text is cut at its separators, and pieces without a letter do not count (`pieces`).  A cut adds
the pieces of the two parts (`pieces_append_sep`), so neither blank pieces nor the number of
separators between two pieces matter.  Read from the front, the first piece is what stands before
the first separator (`pieces_of_takeWhile`).
-/

import Mathlib.Data.List.TakeWhile
import Mathlib.Tactic.Common

namespace CacheTurbo
namespace Pieces

variable {α β : Type*} (p : α → Bool)

/-- What stands between the separators, where that is not empty. -/
def pieces (s : List α) : List (List α) := (s.splitOnP p).filter (· ≠ [])

@[simp] theorem pieces_nil : pieces p [] = [] := by
  rw [pieces, List.splitOnP_nil]
  exact List.filter_cons_of_neg (by simp)

variable {p}

/-- **A cut at a separator adds the pieces of the parts.** -/
theorem pieces_append_sep {c : α} (hc : p c = true) (a b : List α) :
    pieces p (a ++ c :: b) = pieces p a ++ pieces p b := by
  rw [pieces, List.splitOnP_append_cons a b hc, List.filter_append, pieces, pieces]

theorem pieces_cons_sep {c : α} (hc : p c = true) (s : List α) :
    pieces p (c :: s) = pieces p s := by
  have hcut := pieces_append_sep hc [] s
  rwa [List.nil_append, pieces_nil, List.nil_append] at hcut

/-- A text without separators is one piece, or none. -/
theorem pieces_of_forall {s : List α} (h : ∀ c ∈ s, p c = false) (hs : s ≠ []) :
    pieces p s = [s] := by
  rw [pieces, List.splitOnP_eq_singleton h]
  exact List.filter_cons_of_pos (decide_eq_true hs)

/-- Separators in front do not count. -/
theorem pieces_dropWhile (s : List α) : pieces p (s.dropWhile p) = pieces p s := by
  induction s with
  | nil => rfl
  | cons c s ih =>
    cases hc : p c with
    | true => rw [List.dropWhile_cons_of_pos hc, ih, pieces_cons_sep hc]
    | false => rw [List.dropWhile_cons_of_neg (by simp [hc])]

theorem not_of_mem_takeWhile {s : List α} {c : α} (h : c ∈ s.takeWhile (!p ·)) : p c = false := by
  have hnot := List.mem_takeWhile_imp h
  rwa [Bool.not_eq_true'] at hnot

/-- **The first piece is what stands before the first separator.** -/
theorem pieces_of_takeWhile {s : List α} (h : s.takeWhile (!p ·) ≠ []) :
    pieces p s = s.takeWhile (!p ·) :: pieces p (s.dropWhile (!p ·)) := by
  have hsplit : s.takeWhile (!p ·) ++ s.dropWhile (!p ·) = s := List.takeWhile_append_dropWhile
  have hone := pieces_of_forall (fun _ hc => not_of_mem_takeWhile (p := p) hc) h
  cases hrest : s.dropWhile (!p ·) with
  | nil =>
    rw [hrest, List.append_nil] at hsplit
    rw [hsplit] at hone ⊢
    rw [hone, pieces_nil]
  | cons c rest =>
    have hc : p c = true := by
      have hhead := List.head?_dropWhile_not (!p ·) s
      rw [hrest] at hhead
      simpa using hhead
    rw [hrest] at hsplit
    have hcut := pieces_append_sep hc (s.takeWhile (!p ·)) rest
    rw [hsplit, hone] at hcut
    rw [hcut, pieces_cons_sep hc]
    rfl

/-- A renaming of letters that keeps the separators renames the pieces. -/
theorem pieces_map {q : β → Bool} {f : α → β}
    (hf : ∀ c, q (f c) = p c) (s : List α) :
    pieces q (s.map f) = (pieces p s).map (List.map f) := by
  have hsplit : (s.map f).splitOnP q = (s.splitOnP p).map (List.map f) := by
    induction s with
    | nil => rfl
    | cons c s ih =>
      rw [List.map_cons, List.splitOnP_cons_eq_if_modifyHead,
        List.splitOnP_cons_eq_if_modifyHead, hf, ih]
      cases p c with
      | true => rfl
      | false => cases s.splitOnP p <;> rfl
  rw [pieces, hsplit, List.filter_map, pieces]
  congr 1
  refine List.filter_congr fun x _ => ?_
  simp

end Pieces
end CacheTurbo
