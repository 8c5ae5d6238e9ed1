/-
# Bags of tokens

A text is a list of tokens with a separator between them, where empty tokens do not count
(`tokens`).  Written in order (`text`), a bag of tokens has one text, and two bags have the same one
only if they are the same (`text_inj`).

The order comes from sorting in place: `sortInPlace` moves each entry of a list back, behind the
last one before it that is not greater.
-/

import Mathlib.Data.List.Sort
import Mathlib.Data.Multiset.Sort
import Mathlib.Tactic.Common

namespace CacheTurbo
namespace TokenBag

/-! ## Sorting in place -/

section Sorting

variable {α : Type*} (le : α → α → Prop) [DecidableRel le]

/-- Moves `x` back over the entries that are greater; `done` is what is sorted already, the last
entry first. -/
def shift (x : α) : List α → List α
  | [] => [x]
  | t :: done => if le t x then x :: t :: done else t :: shift x done

/-- Each entry in turn is moved back into those before it. -/
def sortInPlace (l : List α) : List α := (l.foldl (fun done x => shift le x done) []).reverse

theorem shift_eq (x : α) (done : List α) :
    shift le x done = done.orderedInsert (fun a b => le b a) x := by
  induction done with
  | nil => rfl
  | cons t done ih =>
    rw [shift, List.orderedInsert, ih]

theorem foldl_shift_perm (l done : List α) :
    (l.foldl (fun done x => shift le x done) done).Perm (l ++ done) := by
  induction l generalizing done with
  | nil => exact List.Perm.refl _
  | cons x l ih =>
    have hstep : (shift le x done).Perm (x :: done) := by
      rw [shift_eq]
      exact List.perm_orderedInsert _ x done
    exact (ih _).trans ((hstep.append_left l).trans List.perm_middle)

theorem foldl_shift_sorted [IsTrans α le] [Std.Total le] {done : List α}
    (h : done.Pairwise fun a b => le b a) (l : List α) :
    (l.foldl (fun done x => shift le x done) done).Pairwise fun a b => le b a := by
  have htrans : IsTrans α fun a b => le b a := ⟨fun _ _ _ hab hbc => IsTrans.trans _ _ _ hbc hab⟩
  have htotal : Std.Total fun a b => le b a := ⟨fun a b => Std.Total.total b a⟩
  induction l generalizing done with
  | nil => exact h
  | cons x l ih =>
    have hstep : (shift le x done).Pairwise fun a b => le b a := by
      rw [shift_eq]
      exact h.orderedInsert x done
    exact ih hstep

theorem sortInPlace_perm (l : List α) : (sortInPlace le l).Perm l := by
  have hall := foldl_shift_perm le l []
  rw [List.append_nil] at hall
  exact (List.reverse_perm _).trans hall

/-- **Sorting in place sorts the bag**, by any relation that says what the order does. -/
theorem sortInPlace_eq_sort {ord : α → α → Prop} [DecidableRel ord] [IsTrans α ord]
    [Std.Total ord] [Std.Antisymm ord] (h : ∀ a b, le a b ↔ ord a b) (l : List α) :
    sortInPlace le l = (l : Multiset α).sort ord := by
  have htrans : IsTrans α le :=
    ⟨fun a b c hab hbc => (h a c).2 (IsTrans.trans a b c ((h a b).1 hab) ((h b c).1 hbc))⟩
  have htotal : Std.Total le :=
    ⟨fun a b => (Std.Total.total (r := ord) a b).imp (h a b).2 (h b a).2⟩
  have hsorted : (sortInPlace le l).Pairwise ord :=
    (List.pairwise_reverse.2 (foldl_shift_sorted le List.Pairwise.nil l)).imp
      fun hab => (h _ _).1 hab
  have hperm : (sortInPlace le l).Perm ((l : Multiset α).sort ord) :=
    (sortInPlace_perm le l).trans (Multiset.coe_eq_coe.1 (Multiset.sort_eq _ ord)).symm
  exact hperm.eq_of_pairwise (fun a b _ _ hab hba => antisymm hab hba) hsorted
    (Multiset.pairwise_sort _ ord)

end Sorting

/-! ## Another order -/

/-- Where all entries are equal there is one order. -/
theorem eq_of_perm {α : Type*} {l l' : List α} (h : l.Perm l')
    (hall : ∀ x ∈ l, ∀ y ∈ l, x = y) : l = l' := by
  have hany : ∀ m : List α, m.Pairwise fun _ _ => True := fun m =>
    List.pairwise_of_forall fun _ _ => trivial
  exact h.eq_of_pairwise (fun a b ha hb _ _ => hall a ha b (h.mem_iff.2 hb)) (hany l) (hany l')

section Order

variable {α : Type*} [DecidableEq α]

/-- The entries other than `x`, and then those. -/
def moveLast (x : α) (l : List α) : List α := l.filter (· ≠ x) ++ l.filter (· = x)

theorem moveLast_perm (x : α) (l : List α) : (moveLast x l).Perm l := by
  have hperm := List.filter_append_perm (fun y => decide (y ≠ x)) l
  have hnot : (fun y => !decide (y ≠ x)) = fun y => decide (y = x) := by
    funext y
    rw [decide_not, Bool.not_not]
  rw [hnot] at hperm
  exact hperm

theorem filter_moveLast (p : α → Bool) (x : α) (l : List α) :
    (moveLast x l).filter p = moveLast x (l.filter p) := by
  rw [moveLast, moveLast, List.filter_append, List.filter_comm,
    List.filter_comm (fun y => decide (y = x))]

/-- Something else comes first, where there is something else. -/
theorem head_moveLast {x y : α} {l : List α} (hy : y ∈ l) (hne : y ≠ x) :
    ∃ z rest, z ≠ x ∧ z ∈ l ∧ moveLast x l = z :: rest := by
  have hmem : y ∈ l.filter (· ≠ x) := List.mem_filter.2 ⟨hy, decide_eq_true hne⟩
  obtain ⟨z, rest, hrest⟩ := List.exists_cons_of_ne_nil (List.ne_nil_of_mem hmem)
  obtain ⟨hz, hzx⟩ := List.mem_filter.1 (hrest ▸ List.mem_cons_self : z ∈ l.filter (· ≠ x))
  exact ⟨z, rest ++ l.filter (· = x), of_decide_eq_true hzx, hz, by rw [moveLast, hrest]; rfl⟩

end Order

/-! ## Texts -/

/-- What is in a joined text is the separator or in one of the parts. -/
theorem mem_intercalate {α : Type*} {sep c : α} {ts : List (List α)}
    (h : c ∈ [sep].intercalate ts) :
    c = sep ∨ ∃ t ∈ ts, c ∈ t := by
  induction ts with
  | nil => exact absurd h List.not_mem_nil
  | cons t ts ih =>
    cases ts with
    | nil => exact Or.inr ⟨t, List.mem_cons_self, by simpa [List.intercalate] using h⟩
    | cons u ts =>
      rw [List.intercalate_cons_of_ne_nil (List.cons_ne_nil u ts), List.mem_append, List.mem_append,
        List.mem_singleton] at h
      rcases h with (h | h) | h
      · exact Or.inr ⟨t, List.mem_cons_self, h⟩
      · exact Or.inl h
      · rcases ih h with he | ⟨tok, htok, hc⟩
        · exact Or.inl he
        · exact Or.inr ⟨tok, List.mem_cons_of_mem _ htok, hc⟩

section Text

variable {α : Type*} [DecidableEq α] (sep : α)

/-- The tokens of a text. -/
def tokens (s : List α) : List (List α) := (s.splitOn sep).filter (· ≠ [])

/-- What can be a token. -/
def IsToken (t : List α) : Prop := t ≠ [] ∧ sep ∉ t

theorem not_mem_of_mem_splitOn {s t : List α} (h : t ∈ s.splitOn sep) : sep ∉ t := by
  induction s generalizing t with
  | nil =>
    rw [List.splitOn_nil, List.mem_singleton] at h
    subst h
    exact List.not_mem_nil
  | cons c s ih =>
    obtain ⟨u, us, hus⟩ := List.exists_cons_of_ne_nil (List.splitOn_ne_nil sep s)
    rw [hus] at ih
    rw [List.splitOn_cons_eq_if_modifyHead, hus] at h
    split at h
    · rcases List.mem_cons.1 h with rfl | hmem
      · exact List.not_mem_nil
      · exact ih hmem
    · rename_i hc
      rcases List.mem_cons.1 h with rfl | hmem
      · intro hsep
        rcases List.mem_cons.1 hsep with rfl | hin
        · exact hc (beq_self_eq_true _)
        · exact ih List.mem_cons_self hin
      · exact ih (List.mem_cons_of_mem u hmem)

/-- The pieces of a text are within it. -/
theorem mem_of_mem_splitOn {s t : List α} {c : α} (h : t ∈ s.splitOn sep) (hc : c ∈ t) : c ∈ s := by
  induction s generalizing t with
  | nil =>
    rw [List.splitOn_nil, List.mem_singleton] at h
    exact absurd (h ▸ hc) List.not_mem_nil
  | cons d s ih =>
    obtain ⟨u, us, hus⟩ := List.exists_cons_of_ne_nil (List.splitOn_ne_nil sep s)
    rw [hus] at ih
    rw [List.splitOn_cons_eq_if_modifyHead, hus] at h
    split at h
    · rcases List.mem_cons.1 h with rfl | hmem
      · exact absurd hc List.not_mem_nil
      · exact List.mem_cons_of_mem d (ih hmem hc)
    · rcases List.mem_cons.1 h with rfl | hmem
      · rcases List.mem_cons.1 hc with rfl | hin
        · exact List.mem_cons_self
        · exact List.mem_cons_of_mem d (ih List.mem_cons_self hin)
      · exact List.mem_cons_of_mem d (ih (List.mem_cons_of_mem u hmem) hc)

theorem length_splitOn (s : List α) : (s.splitOn sep).length = s.count sep + 1 := by
  induction s with
  | nil => rfl
  | cons c s ih =>
    rw [List.splitOn_cons_eq_if_modifyHead, List.count_cons]
    split
    · rw [List.length_cons, ih]
    · rw [List.length_modifyHead, ih, Nat.add_zero]

theorem isToken_of_mem {s t : List α} (h : t ∈ tokens sep s) : IsToken sep t := by
  obtain ⟨hmem, hne⟩ := List.mem_filter.1 h
  exact ⟨of_decide_eq_true hne, not_mem_of_mem_splitOn sep hmem⟩

/-- **Tokens are read back.** -/
theorem tokens_intercalate {ts : List (List α)} (h : ∀ t ∈ ts, IsToken sep t) :
    tokens sep ([sep].intercalate ts) = ts := by
  by_cases hts : ts = []
  · subst hts
    rfl
  · rw [tokens, List.splitOn_intercalate sep (fun t ht => (h t ht).2) hts, List.filter_eq_self]
    exact fun t ht => decide_eq_true (h t ht).1

variable (le : List α → List α → Prop) [DecidableRel le] [IsTrans _ le] [Std.Total le]
  [Std.Antisymm le]

/-- The text of a bag of tokens. -/
def text (bag : Multiset (List α)) : List α := [sep].intercalate (bag.sort le)

theorem tokens_text {bag : Multiset (List α)} (h : ∀ t ∈ bag, IsToken sep t) :
    (tokens sep (text sep le bag) : Multiset (List α)) = bag := by
  rw [text, tokens_intercalate sep fun t ht => h t ((Multiset.mem_sort le).1 ht)]
  exact bag.sort_eq le

/-- **The text says what the bag is.** -/
theorem text_inj {bag bag' : Multiset (List α)} (h : ∀ t ∈ bag, IsToken sep t)
    (h' : ∀ t ∈ bag', IsToken sep t) (heq : text sep le bag = text sep le bag') : bag = bag' := by
  rw [← tokens_text sep le h, heq, tokens_text sep le h']

end Text

end TokenBag
end CacheTurbo
