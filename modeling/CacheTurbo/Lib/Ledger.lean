/-
# Tokens that are handed out and come back

A ledger numbers the tokens it hands out.  A token is held until it is returned, and each
return is entered with the way it happened, a value of any type.  That a token is
held or was returned, and never twice, is a field of the ledger (`Ledger.once`): the
operations build it again, so that a program which keeps its books with them cannot return a
token it does not hold (`Ledger.giveBack` asks for the proof).
-/

import Mathlib.Data.List.Range
import Mathlib.Data.List.Perm.Basic

namespace CacheTurbo

/-- The tokens handed out so far: those still held, and those returned with the way it
happened. -/
structure Ledger (α : Type*) where
  /-- The number of the next token. -/
  next : ℕ
  held : List ℕ
  returned : List (ℕ × α)
  once : (held ++ returned.map Prod.fst).Perm (List.range next)

namespace Ledger

variable {α : Type*}

/-- No token has been handed out. -/
def empty : Ledger α := ⟨0, [], [], List.Perm.refl _⟩

/-- Hands out the next token. -/
def take (l : Ledger α) : Ledger α where
  next := l.next + 1
  held := l.next :: l.held
  returned := l.returned
  once := by
    rw [List.range_succ, List.cons_append]
    exact (l.once.cons _).trans (List.perm_append_singleton _ _).symm

/-- Returns one token. -/
def giveBack (l : Ledger α) (p : ℕ) (hp : p ∈ l.held) (a : α) : Ledger α where
  next := l.next
  held := l.held.erase p
  returned := (p, a) :: l.returned
  once := by
    refine List.Perm.trans ?_ l.once
    rw [List.map_cons]
    refine List.perm_middle.trans ?_
    rw [← List.cons_append]
    exact (List.perm_cons_erase hp).symm.append_right _

/-- Returns every token that is still held. -/
def giveBackAll (l : Ledger α) (a : α) : Ledger α where
  next := l.next
  held := []
  returned := l.held.map (·, a) ++ l.returned
  once := by
    refine List.Perm.trans (List.Perm.of_eq ?_) l.once
    rw [List.map_append, List.map_map, List.nil_append]
    congr 1
    exact List.map_id' _

@[simp] theorem take_next (l : Ledger α) : l.take.next = l.next + 1 := rfl

@[simp] theorem take_held (l : Ledger α) : l.take.held = l.next :: l.held := rfl

@[simp] theorem giveBack_held (l : Ledger α) (p : ℕ) (hp : p ∈ l.held) (a : α) :
    (l.giveBack p hp a).held = l.held.erase p := rfl

@[simp] theorem giveBackAll_held (l : Ledger α) (a : α) : (l.giveBackAll a).held = [] := rfl

/-- How often a token was returned. -/
def returns (l : Ledger α) (p : ℕ) : ℕ := (l.returned.map Prod.fst).count p

/-- No token is held twice. -/
theorem held_nodup (l : Ledger α) : l.held.Nodup :=
  (List.nodup_append.1 (l.once.nodup_iff.2 List.nodup_range)).1

/-- **Each token is held, or was returned exactly once.** -/
theorem returns_eq (l : Ledger α) {p : ℕ} (hp : p < l.next) :
    l.returns p = if p ∈ l.held then 0 else 1 := by
  have hcount : (l.held ++ l.returned.map Prod.fst).count p = 1 := by
    rw [l.once.count_eq]
    rw [List.nodup_range.count, if_pos (List.mem_range.2 hp)]
  rw [List.count_append] at hcount
  unfold returns
  split_ifs with hmem
  · rw [l.held_nodup.count, if_pos hmem] at hcount
    omega
  · rw [List.count_eq_zero_of_not_mem hmem] at hcount
    omega

end Ledger
end CacheTurbo
