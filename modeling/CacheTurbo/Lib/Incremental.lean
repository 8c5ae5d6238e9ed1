/-
# Replies that arrive in pieces

A reader looks at what has come of a stream and gives an answer, or none while it
needs more.  An answer is final when nothing that comes later changes it.  `cut` finds
the first occurrence of a delimiter, as `ngx_strlchr` does.

A reader of pieces (`TakesPrefix`) takes one piece off the front of a buffer.  The
pieces it knows are found again in any buffer that starts with one, and so are `n`
pieces in a row (`TakesPrefix.times_eq_ok`).
-/

import Mathlib.Data.List.Infix
import Mathlib.Tactic.Common

namespace CacheTurbo
namespace Incremental

/-! ## Final answers -/

section Final

variable {α β : Type*}

/-- More of the stream does not change an answer. -/
def Final (read : List α → Option β) : Prop :=
  ∀ ⦃x : List α⦄ ⦃a : β⦄, read x = some a → ∀ y, read (x ++ y) = some a

variable {read : List α → Option β}

theorem Final.mono (h : Final read) {x s : List α} {a : β} (hx : x <+: s)
    (ha : read x = some a) : read s = some a := by
  obtain ⟨y, rfl⟩ := hx
  exact h ha y

end Final

/-! ## The first delimiter -/

section Cut

variable {α : Type*} [DecidableEq α]

/-- What is before the first `c`, and what is after it. -/
def cut (c : α) : List α → Option (List α × List α)
  | [] => none
  | x :: xs => if x = c then some ([], xs) else (cut c xs).map fun p => (x :: p.1, p.2)

theorem cut_eq_some {c : α} {s a b : List α} :
    cut c s = some (a, b) ↔ s = a ++ c :: b ∧ c ∉ a := by
  induction s generalizing a with
  | nil => simp [cut]
  | cons x xs ih =>
    unfold cut
    by_cases hx : x = c
    · subst hx
      rw [if_pos rfl]
      constructor
      · rintro h
        obtain ⟨rfl, rfl⟩ := Prod.mk.inj (Option.some.inj h)
        exact ⟨rfl, by simp⟩
      · rintro ⟨h, hnot⟩
        cases a with
        | nil =>
          obtain rfl := (List.cons_eq_cons.1 h).2
          rfl
        | cons y a =>
          obtain rfl := (List.cons_eq_cons.1 h).1
          exact absurd List.mem_cons_self hnot
    · rw [if_neg hx]
      constructor
      · rintro h
        obtain ⟨⟨a', b'⟩, hcut, hp⟩ := Option.map_eq_some_iff.1 h
        obtain ⟨rfl, rfl⟩ := Prod.mk.inj hp
        obtain ⟨rfl, hnot⟩ := ih.1 hcut
        exact ⟨rfl, List.not_mem_cons_of_ne_of_not_mem (Ne.symm hx) hnot⟩
      · rintro ⟨h, hnot⟩
        cases a with
        | nil => exact absurd (List.cons_eq_cons.1 h).1 hx
        | cons y a =>
          obtain ⟨rfl, rfl⟩ := List.cons_eq_cons.1 h
          rw [ih.2 ⟨rfl, fun hmem => hnot (List.mem_cons_of_mem _ hmem)⟩]
          rfl

theorem cut_append {c : α} {a : List α} (h : c ∉ a) (b : List α) :
    cut c (a ++ c :: b) = some (a, b) := cut_eq_some.2 ⟨rfl, h⟩

theorem cut_eq_none {c : α} {s : List α} : cut c s = none ↔ c ∉ s := by
  constructor
  · intro h hmem
    obtain ⟨a, b, rfl, hnot⟩ := List.eq_append_cons_of_mem hmem
    rw [cut_append hnot] at h
    cases h
  · intro h
    rcases hcut : cut c s with _ | ⟨a, b⟩
    · rfl
    · obtain ⟨rfl, -⟩ := cut_eq_some.1 hcut
      exact absurd (List.mem_append_right _ List.mem_cons_self) h

end Cut

/-! ## Pieces -/

/-- What a reader of pieces says of a buffer: it needs more, there is no such piece, or what
follows the piece. -/
inductive Scan (α : Type*)
  | again
  | declined
  | ok (next : List α)
  deriving DecidableEq, Repr

section Pieces

variable {α : Type*} {read : List α → Scan α}

/-- What follows a piece does not matter to the reader. -/
def TakesPrefix (read : List α → Scan α) : Prop :=
  ∀ s next, read s = .ok next ↔ ∃ piece, s = piece ++ next ∧ read piece = .ok []

theorem takesPrefix_declined : TakesPrefix fun _ : List α => .declined := by
  intro s next
  simp

/-- Nothing is a piece. -/
theorem takesPrefix_nothing : TakesPrefix fun s : List α => .ok s := by
  intro s next
  constructor
  · intro h
    exact ⟨[], Scan.ok.inj h, rfl⟩
  · rintro ⟨piece, rfl, h⟩
    rw [Scan.ok.inj h, List.nil_append]

/-- A piece whose first element says how it goes on. -/
def Scan.onHead (s : List α) (rest : α → List α → Scan α) : Scan α :=
  match s with
  | [] => .again
  | c :: s => rest c s

theorem takesPrefix_onHead {rest : α → List α → Scan α} (h : ∀ c, TakesPrefix (rest c)) :
    TakesPrefix fun s => Scan.onHead s rest := by
  intro s next
  cases s with
  | nil =>
    constructor
    · intro hread
      cases hread
    · rintro ⟨piece, hpiece, hread⟩
      obtain ⟨rfl, -⟩ := List.append_eq_nil_iff.1 hpiece.symm
      cases hread
  | cons c s =>
    constructor
    · intro hread
      obtain ⟨piece, rfl, hpiece⟩ := (h c s next).1 hread
      exact ⟨c :: piece, rfl, hpiece⟩
    · rintro ⟨piece, hpiece, hread⟩
      cases piece with
      | nil => cases hread
      | cons d piece =>
        obtain ⟨rfl, rfl⟩ := List.cons_eq_cons.1 hpiece
        exact (h c _ next).2 ⟨piece, rfl, hread⟩

/-- `n` pieces in a row. -/
def Scan.times (read : List α → Scan α) : ℕ → List α → Scan α
  | 0, s => .ok s
  | n + 1, s =>
      match read s with
      | .ok next => Scan.times read n next
      | r => r

/-- **`n` pieces are read as `n` pieces.** -/
theorem TakesPrefix.times_eq_ok (h : TakesPrefix read) {n : ℕ} {s next : List α} :
    Scan.times read n s = .ok next ↔ ∃ pieces : List (List α), pieces.length = n ∧
      s = pieces.flatten ++ next ∧ ∀ piece ∈ pieces, read piece = .ok [] := by
  induction n generalizing s with
  | zero =>
    constructor
    · intro hread
      exact ⟨[], rfl, Scan.ok.inj hread, nofun⟩
    · rintro ⟨pieces, hlen, rfl, -⟩
      rw [List.length_eq_zero_iff.1 hlen]
      rfl
  | succ n ih =>
    rw [Scan.times]
    constructor
    · intro hread
      rcases hs : read s with _ | _ | rest
      · rw [hs] at hread; cases hread
      · rw [hs] at hread; cases hread
      · rw [hs] at hread
        obtain ⟨piece, rfl, hpiece⟩ := (h s rest).1 hs
        obtain ⟨pieces, hlen, rfl, hpieces⟩ := ih.1 hread
        refine ⟨piece :: pieces, by rw [List.length_cons, hlen], ?_, ?_⟩
        · rw [List.flatten_cons, List.append_assoc]
        · intro p hp
          rcases List.mem_cons.1 hp with rfl | hp
          · exact hpiece
          · exact hpieces p hp
    · rintro ⟨pieces, hlen, rfl, hpieces⟩
      cases pieces with
      | nil => cases hlen
      | cons piece pieces =>
        have hhead : read (piece ++ (pieces.flatten ++ next)) = .ok (pieces.flatten ++ next) :=
          (h _ _).2 ⟨piece, rfl, hpieces piece List.mem_cons_self⟩
        rw [List.flatten_cons, List.append_assoc, hhead]
        exact ih.2 ⟨pieces, Nat.succ.inj hlen, rfl,
          fun p hp => hpieces p (List.mem_cons_of_mem _ hp)⟩

/-- A run of pieces is a piece. -/
theorem TakesPrefix.times (h : TakesPrefix read) (n : ℕ) : TakesPrefix (Scan.times read n) := by
  intro s next
  constructor
  · intro hread
    obtain ⟨pieces, hlen, rfl, hpieces⟩ := h.times_eq_ok.1 hread
    exact ⟨pieces.flatten, rfl,
      h.times_eq_ok.2 ⟨pieces, hlen, (List.append_nil _).symm, hpieces⟩⟩
  · rintro ⟨piece, rfl, hread⟩
    obtain ⟨pieces, hlen, rfl, hpieces⟩ := h.times_eq_ok.1 hread
    exact h.times_eq_ok.2 ⟨pieces, hlen, by rw [List.append_nil], hpieces⟩

/-- What follows is kept. -/
theorem TakesPrefix.append (h : TakesPrefix read) {s next : List α} (hread : read s = .ok next)
    (more : List α) : read (s ++ more) = .ok (next ++ more) := by
  obtain ⟨piece, rfl, hpiece⟩ := (h s next).1 hread
  exact (h _ _).2 ⟨piece, List.append_assoc .., hpiece⟩

/-- **A run of pieces is declined where one of them is**, those before it being pieces. -/
theorem TakesPrefix.times_eq_declined (h : TakesPrefix read) {n : ℕ} {s : List α} :
    Scan.times read n s = .declined ↔ ∃ pieces : List (List α), ∃ next, pieces.length < n ∧
      s = pieces.flatten ++ next ∧ (∀ piece ∈ pieces, read piece = .ok []) ∧
        read next = .declined := by
  induction n generalizing s with
  | zero =>
    rw [Scan.times]
    exact ⟨nofun, fun ⟨_, _, hlen, _⟩ => absurd hlen (Nat.not_lt_zero _)⟩
  | succ n ih =>
    rw [Scan.times]
    constructor
    · intro hread
      rcases hs : read s with _ | _ | rest
      · rw [hs] at hread; cases hread
      · exact ⟨[], s, Nat.succ_pos n, rfl, nofun, hs⟩
      · rw [hs] at hread
        obtain ⟨piece, rfl, hpiece⟩ := (h s rest).1 hs
        obtain ⟨pieces, next, hlen, rfl, hpieces, hnext⟩ := ih.1 hread
        refine ⟨piece :: pieces, next, by rw [List.length_cons]; omega, ?_, ?_, hnext⟩
        · rw [List.flatten_cons, List.append_assoc]
        · intro p hp
          rcases List.mem_cons.1 hp with rfl | hp
          · exact hpiece
          · exact hpieces p hp
    · rintro ⟨pieces, next, hlen, rfl, hpieces, hnext⟩
      cases pieces with
      | nil =>
        rw [List.flatten_nil, List.nil_append, hnext]
      | cons piece pieces =>
        have hhead : read (piece ++ (pieces.flatten ++ next)) = .ok (pieces.flatten ++ next) :=
          (h _ _).2 ⟨piece, rfl, hpieces piece List.mem_cons_self⟩
        rw [List.flatten_cons, List.append_assoc, hhead]
        exact ih.2 ⟨pieces, next, Nat.lt_of_succ_lt_succ hlen, rfl,
          fun p hp => hpieces p (List.mem_cons_of_mem _ hp), hnext⟩

/-- What is declined stays declined. -/
def Refuses (read : List α → Scan α) : Prop :=
  ∀ ⦃s : List α⦄, read s = .declined → ∀ more, read (s ++ more) = .declined

theorem Refuses.times (hp : TakesPrefix read) (h : Refuses read) (n : ℕ) :
    Refuses (Scan.times read n) := by
  intro s hs more
  obtain ⟨pieces, next, hlen, rfl, hpieces, hnext⟩ := hp.times_eq_declined.1 hs
  exact hp.times_eq_declined.2
    ⟨pieces, next ++ more, hlen, List.append_assoc .., hpieces, h hnext more⟩

/-- A run is declined where what follows some of its pieces is, be they declined or not. -/
theorem times_declined (hp : TakesPrefix read) (h : Refuses read) {n : ℕ}
    {pieces : List (List α)} {next : List α} (hlen : pieces.length < n)
    (hpieces : ∀ piece ∈ pieces, read piece = .declined ∨ read piece = .ok [])
    (hnext : read next = .declined) : Scan.times read n (pieces.flatten ++ next) = .declined := by
  induction pieces generalizing n with
  | nil =>
    obtain ⟨m, rfl⟩ := Nat.exists_eq_succ_of_ne_zero (Nat.ne_of_gt hlen)
    rw [List.flatten_nil, List.nil_append, Scan.times, hnext]
  | cons piece pieces ih =>
    obtain ⟨m, rfl⟩ := Nat.exists_eq_succ_of_ne_zero (Nat.ne_of_gt (Nat.zero_lt_of_lt hlen))
    rw [List.flatten_cons, List.append_assoc, Scan.times]
    rcases hpieces piece List.mem_cons_self with hbad | hok
    · rw [h hbad]
    · rw [hp.append hok]
      exact ih (Nat.lt_of_succ_lt_succ hlen) fun p hmem => hpieces p (List.mem_cons_of_mem _ hmem)

/-- A reader that only declines more than another does so on a run, too. -/
theorem times_declined_or {stricter : List α → Scan α}
    (h : ∀ s, stricter s = .declined ∨ stricter s = read s) (n : ℕ) (s : List α) :
    Scan.times stricter n s = .declined ∨ Scan.times stricter n s = Scan.times read n s := by
  induction n generalizing s with
  | zero => exact Or.inr rfl
  | succ n ih =>
    rw [Scan.times, Scan.times]
    rcases h s with hbad | hsame
    · rw [hbad]
      exact Or.inl rfl
    · rw [hsame]
      cases read s with
      | again => exact Or.inr rfl
      | declined => exact Or.inr rfl
      | ok next => exact ih next

end Pieces

end Incremental
end CacheTurbo
