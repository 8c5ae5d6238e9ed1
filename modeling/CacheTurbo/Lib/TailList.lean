/-
# A list of links with a cursor at its end

Links that know their next, a first link, and the last one, so that the next link can be put
behind it without a walk.  The place a link is put into is the head when there is no last link,
and that link's next when there is.

`IsSeg` is the list that a walk from a link meets.  A link that is not on the list yet goes to
its end (`Holds.push`), and a walk with enough steps meets them all (`IsSeg.walk`).
-/

import Mathlib.Data.List.Basic
import Mathlib.Data.List.Nodup
import Mathlib.Logic.Function.Basic
import Mathlib.Data.Nat.Notation

namespace CacheTurbo
namespace TailList

variable {κ : Type*}

@[ext] structure Links (κ : Type*) where
  head : Option κ
  last : Option κ
  next : κ → Option κ

/-- The links that a walk meets. -/
def IsSeg (next : κ → Option κ) : Option κ → List κ → Prop
  | at?, [] => at? = none
  | at?, a :: rest => at? = some a ∧ IsSeg next (next a) rest

/-- A walk of at most so many links. -/
def walk (next : κ → Option κ) : ℕ → Option κ → List κ
  | 0, _ => []
  | _ + 1, none => []
  | fuel + 1, some a => a :: walk next fuel (next a)

theorem IsSeg.walk {next : κ → Option κ} {at? : Option κ} {ids : List κ} {fuel : ℕ}
    (h : IsSeg next at? ids) (hfuel : ids.length ≤ fuel) : TailList.walk next fuel at? = ids := by
  induction ids generalizing at? fuel with
  | nil =>
    obtain rfl : at? = none := h
    cases fuel with
    | zero => rfl
    | succ fuel => rfl
  | cons a ids ih =>
    obtain ⟨rfl, hrest⟩ := h
    cases fuel with
    | zero => exact absurd hfuel (Nat.not_succ_le_zero _)
    | succ fuel =>
      show a :: TailList.walk next fuel (next a) = a :: ids
      rw [ih hrest (Nat.le_of_succ_le_succ hfuel)]

/-- A walk does not see the links it does not meet. -/
theorem IsSeg.congr {next next' : κ → Option κ} {at? : Option κ} {ids : List κ}
    (h : IsSeg next at? ids) (hsame : ∀ a ∈ ids, next' a = next a) : IsSeg next' at? ids := by
  induction ids generalizing at? with
  | nil => exact h
  | cons a ids ih =>
    obtain ⟨rfl, hrest⟩ := h
    refine ⟨rfl, ?_⟩
    rw [hsame a (List.mem_cons_self ..)]
    exact ih hrest fun b hb => hsame b (List.mem_cons_of_mem a hb)

/-- The links `ids` are the list. -/
structure Holds (s : Links κ) (ids : List κ) : Prop where
  seg : IsSeg s.next s.head ids
  last : s.last = ids.getLast?
  nodup : ids.Nodup

theorem Holds.empty (next : κ → Option κ) : Holds ⟨none, none, next⟩ [] :=
  ⟨rfl, rfl, List.nodup_nil⟩

variable [DecidableEq κ]

/-- A link with no next goes into a place. -/
def push (s : Links κ) (place : Option κ) (a : κ) : Links κ :=
  let next := Function.update s.next a none
  match place with
  | none => ⟨some a, some a, next⟩
  | some b => ⟨s.head, some a, Function.update next b (some a)⟩

/-- The place behind the last link of a list is its end. -/
theorem IsSeg.push {next : κ → Option κ} {at? : Option κ} {ids : List κ} {b a : κ}
    (h : IsSeg next at? (ids ++ [b])) (hb : b ∉ ids) (ha : a ∉ ids ++ [b]) :
    IsSeg (Function.update (Function.update next a none) b (some a)) at? (ids ++ [b] ++ [a]) := by
  induction ids generalizing at? with
  | nil =>
    obtain ⟨rfl, -⟩ := h
    have hab : a ≠ b := fun he => ha (he ▸ List.mem_singleton_self b)
    refine ⟨rfl, ?_, ?_⟩
    · rw [Function.update_self]
    · rw [Function.update_of_ne hab, Function.update_self]
      exact rfl
  | cons c ids ih =>
    obtain ⟨rfl, hrest⟩ := h
    rw [List.mem_cons, not_or] at hb
    rw [List.cons_append, List.mem_cons, not_or] at ha
    refine ⟨rfl, ?_⟩
    rw [Function.update_of_ne (Ne.symm hb.1), Function.update_of_ne (Ne.symm ha.1)]
    exact ih hrest hb.2 ha.2

/-- **A new link goes to the end of the list.** -/
theorem Holds.push {s : Links κ} {ids : List κ} (h : Holds s ids) {a : κ} (ha : a ∉ ids) :
    Holds (TailList.push s s.last a) (ids ++ [a]) := by
  obtain ⟨hseg, hlast, hnodup⟩ := h
  have hnodup' : (ids ++ [a]).Nodup :=
    List.nodup_append.2 ⟨hnodup, List.nodup_singleton a, fun b hb c hc he => by
      rw [List.mem_singleton.1 hc] at he
      exact ha (he ▸ hb)⟩
  rcases List.eq_nil_or_concat ids with rfl | ⟨init, b, rfl⟩
  · have hnone : s.last = none := hlast
    rw [hnone]
    refine ⟨⟨rfl, ?_⟩, rfl, hnodup'⟩
    show Function.update s.next a none a = none
    rw [Function.update_self]
  · rw [List.concat_eq_append] at *
    have hsome : s.last = some b := hlast.trans List.getLast?_concat
    rw [hsome]
    have hb : b ∉ init := fun hb =>
      (List.nodup_append.1 hnodup).2.2 b hb b (List.mem_singleton_self b) rfl
    exact ⟨hseg.push hb ha, List.getLast?_concat.symm, hnodup'⟩

end TailList
end CacheTurbo
