/-
# Slices

The part of a text between two places (`slice`), as code sees it that keeps a pointer and an end.
What is behind a slice's front, and what is in front of its end, are slices again.
-/

import Mathlib.Data.List.Basic
import Mathlib.Data.List.GetD
import Mathlib.Tactic.Common

namespace CacheTurbo
namespace Slice

variable {α : Type*}

/-- What stands from `p` to `e`. -/
def slice (s : List α) (p e : ℕ) : List α := (s.take e).drop p

variable {s : List α} {p e : ℕ}

theorem slice_length (he : e ≤ s.length) : (slice s p e).length = e - p := by
  rw [slice, List.length_drop, List.length_take, Nat.min_eq_left he]

theorem slice_drop (n : ℕ) : (slice s p e).drop n = slice s (p + n) e := by
  rw [slice, slice, List.drop_drop]

theorem slice_take {n : ℕ} (h : p + n ≤ e) : (slice s p e).take n = slice s p (p + n) := by
  rw [slice, slice, List.take_drop, List.take_take, Nat.min_eq_left h]

theorem slice_getD {k : ℕ} (h : p + k < e) (d : α) : (slice s p e).getD k d = s.getD (p + k) d := by
  rw [List.getD_eq_getElem?_getD, List.getD_eq_getElem?_getD, slice, List.getElem?_drop,
    List.getElem?_take_of_lt h]

theorem take_drop_eq_slice (n : ℕ) : (s.drop p).take n = slice s p (p + n) := by
  rw [slice, List.take_drop]

end Slice
end CacheTurbo
