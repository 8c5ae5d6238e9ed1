/-
# The log of locks that expire

A lock is granted under a key to an owner, for a span of time, and it can be taken away before:
by an owner that gives it up, or by force.  The log has these entries, the newest first; it is
`Sound` when each of them fits those before it, at the time it was written.  A lock is granted
where there is no holder, refused where there is one, and given up by its holder.

`exclusive` is what a sound log says of two grants under one key: the later one comes after the
span of the earlier one, unless its owner has given it up or it was taken away by force.
-/

import Mathlib.Data.List.Basic
import Mathlib.Data.Nat.Notation

namespace CacheTurbo
namespace LockLog

variable {κ ω : Type*} [DecidableEq κ]

/-- What happens to the lock of a key.  A lock is dropped by an owner, or by force. -/
inductive Entry (κ ω : Type*)
  | granted (key : κ) (owner : ω) (start span : ℕ)
  | refused (key : κ) (owner : ω)
  | dropped (key : κ) (owner : Option ω)
  deriving DecidableEq

/-- Who holds the lock of a key at a time. -/
def holder (t : ℕ) (k : κ) : List (Entry κ ω) → Option ω
  | [] => none
  | .granted key owner start span :: log =>
      if key = k then if t < start + span then some owner else none else holder t k log
  | .refused _ _ :: log => holder t k log
  | .dropped key _ :: log => if key = k then none else holder t k log

/-- An entry that may be written at a time. -/
def Fits (t : ℕ) (log : List (Entry κ ω)) : Entry κ ω → Prop
  | .granted key _ start _ => start = t ∧ holder t key log = none
  | .refused key _ => holder t key log ≠ none
  | .dropped key (some owner) => holder t key log = some owner
  | .dropped _ none => True

/-- A log up to a time: each entry fitted when it was written. -/
inductive Sound : ℕ → List (Entry κ ω) → Prop
  | empty (t : ℕ) : Sound t []
  | wait {t t' : ℕ} {log : List (Entry κ ω)} (h : Sound t log) (hle : t ≤ t') : Sound t' log
  | write {t : ℕ} {log : List (Entry κ ω)} {e : Entry κ ω} (h : Sound t log)
      (hfits : Fits t log e) : Sound t (e :: log)

theorem holder_granted_self (t : ℕ) (k : κ) (o : ω) (start span : ℕ) (log : List (Entry κ ω)) :
    holder t k (.granted k o start span :: log) = if t < start + span then some o else none :=
  if_pos rfl

theorem holder_granted_of_ne {t : ℕ} {k key : κ} (h : key ≠ k) (o : ω) (start span : ℕ)
    (log : List (Entry κ ω)) :
    holder t k (.granted key o start span :: log) = holder t k log := if_neg h

theorem holder_dropped_self (t : ℕ) (k : κ) (o : Option ω) (log : List (Entry κ ω)) :
    holder t k (.dropped k o :: log) = none := if_pos rfl

theorem holder_dropped_of_ne {t : ℕ} {k key : κ} (h : key ≠ k) (o : Option ω)
    (log : List (Entry κ ω)) : holder t k (.dropped key o :: log) = holder t k log := if_neg h

/-- A holder has been granted the lock, within the span. -/
theorem granted_of_holder {t : ℕ} {k : κ} {o : ω} {log : List (Entry κ ω)}
    (h : holder t k log = some o) :
    ∃ start span, .granted k o start span ∈ log ∧ t < start + span := by
  induction log with
  | nil => cases h
  | cons e log ih =>
    have hrest : holder t k log = some o →
        ∃ start span, .granted k o start span ∈ e :: log ∧ t < start + span := fun h =>
      let ⟨start, span, hmem, hlt⟩ := ih h
      ⟨start, span, List.mem_cons_of_mem _ hmem, hlt⟩
    cases e with
    | granted key owner start span =>
      by_cases hkey : key = k
      · subst hkey
        rw [holder_granted_self] at h
        split at h
        · obtain rfl := Option.some.inj h
          exact ⟨start, span, List.mem_cons_self .., ‹_›⟩
        · cases h
      · rw [holder_granted_of_ne hkey] at h
        exact hrest h
    | refused key owner => exact hrest h
    | dropped key owner =>
      by_cases hkey : key = k
      · subst hkey
        rw [holder_dropped_self] at h
        cases h
      · rw [holder_dropped_of_ne hkey] at h
        exact hrest h

/-- The owner has given the lock up, or it was taken away by force. -/
def Ended (k : κ) (o : ω) (late : List (Entry κ ω)) : Prop :=
  .dropped k (some o) ∈ late ∨ .dropped k none ∈ late

omit [DecidableEq κ] in
theorem Ended.cons {k : κ} {o : ω} {late : List (Entry κ ω)} (h : Ended k o late)
    (e : Entry κ ω) : Ended k o (e :: late) :=
  h.imp (List.mem_cons_of_mem _) (List.mem_cons_of_mem _)

/-- A lock that does not end is held until its span is over. -/
theorem held_or_ended {t t' : ℕ} {k : κ} {o : ω} {start span : ℕ} {log late : List (Entry κ ω)}
    (h : Sound t (late ++ .granted k o start span :: log)) (hle : t ≤ t')
    (hlt : t' < start + span) :
    holder t' k (late ++ .granted k o start span :: log) = some o ∨ Ended k o late := by
  generalize hwhole : late ++ .granted k o start span :: log = whole at h ⊢
  induction h generalizing late t' with
  | empty t => cases late <;> cases hwhole
  | wait h hwait ih => exact ih (Nat.le_trans hwait hle) hlt hwhole
  | @write t whole e h hfits ih =>
    cases late with
    | nil =>
      obtain ⟨rfl, rfl⟩ := List.cons_eq_cons.1 hwhole
      exact Or.inl ((holder_granted_self ..).trans (if_pos hlt))
    | cons e' late =>
      obtain ⟨rfl, hrest⟩ := List.cons_eq_cons.1 hwhole
      obtain hheld | hended := ih hle hlt hrest
      swap
      · exact Or.inr (hended.cons _)
      -- it was held when the entry was written
      obtain hnow | hended := ih (Nat.le_refl _) (Nat.lt_of_le_of_lt hle hlt) hrest
      swap
      · exact Or.inr (hended.cons _)
      cases e' with
      | granted key owner start' span' =>
        have hkey : key ≠ k := by
          rintro rfl
          exact absurd (hnow.symm.trans hfits.2) nofun
        exact Or.inl ((holder_granted_of_ne hkey ..).trans hheld)
      | refused key owner => exact Or.inl hheld
      | dropped key owner =>
        by_cases hkey : key = k
        · subst hkey
          right
          cases owner with
          | none => exact Or.inr (List.mem_cons_self ..)
          | some owner =>
            obtain rfl : owner = o := Option.some.inj (hfits.symm.trans hnow)
            exact Or.inl (List.mem_cons_self ..)
        · exact Or.inl ((holder_dropped_of_ne hkey ..).trans hheld)

/-- What was written before an entry is a sound log, which the entry fits. -/
theorem Sound.earlier {t : ℕ} {log late : List (Entry κ ω)} {e : Entry κ ω}
    (h : Sound t (late ++ e :: log)) : ∃ t' ≤ t, Sound t' log ∧ Fits t' log e := by
  generalize hwhole : late ++ e :: log = whole at h
  induction h generalizing late with
  | empty t => cases late <;> cases hwhole
  | wait h hle ih =>
    obtain ⟨t', hle', hrest⟩ := ih hwhole
    exact ⟨t', Nat.le_trans hle' hle, hrest⟩
  | @write t whole e' h hfits ih =>
    cases late with
    | nil =>
      obtain ⟨rfl, rfl⟩ := List.cons_eq_cons.1 hwhole
      exact ⟨t, Nat.le_refl _, h, hfits⟩
    | cons _ late => exact ih (List.cons_eq_cons.1 hwhole).2

/-- **Locks are exclusive.**  Of two grants under one key the later one comes after the span of
the earlier one, unless that has ended in between. -/
theorem exclusive {t : ℕ} {k : κ} {o o' : ω} {start span start' span' : ℕ}
    {log late latest : List (Entry κ ω)}
    (h : Sound t (latest ++ .granted k o' start' span' ::
      (late ++ .granted k o start span :: log))) :
    start + span ≤ start' ∨ Ended k o late := by
  obtain ⟨t', -, hsound, rfl, hfree⟩ := h.earlier
  rcases Nat.lt_or_ge start' (start + span) with hlt | hge
  · refine Or.inr ((held_or_ended hsound (Nat.le_refl _) hlt).resolve_left fun hheld => ?_)
    exact absurd (hheld.symm.trans hfree) nofun
  · exact Or.inl hge

end LockLog
end CacheTurbo
