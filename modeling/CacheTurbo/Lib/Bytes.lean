/-
# Byte strings

Byte strings are lists of bytes.  `lit` writes an ASCII literal as the list of
its characters, `lower` is the ASCII case fold of `ngx_tolower`, and `decimal`
prints a number the way `%ui` does.

The second half is about fields: byte strings joined by a delimiter.  A field
without the delimiter can be read back off the front of a joined string
(`append_sep_inj`), and two ways of cutting one string in two differ by a piece
that one side has more of (`append_cut`).
-/

import Mathlib.Data.List.Basic
import Mathlib.Tactic.Common

namespace CacheTurbo

/-- A byte string. -/
abbrev Bytes := List UInt8

namespace Bytes

/-- An ASCII literal. -/
def lit (cs : List Char) : Bytes := cs.map fun c => c.toNat.toUInt8

/-- `ngx_tolower`. -/
def lower (c : UInt8) : UInt8 := if 65 ≤ c ∧ c ≤ 90 then c ||| 32 else c

/-- `ngx_strncasecmp(a, b, n) == 0` on strings of one length. -/
def eqFold (a b : Bytes) : Bool := a.map lower == b.map lower

/-- `%ui`. -/
def decimal (n : ℕ) : Bytes := (Nat.toDigits 10 n).map fun c => c.toNat.toUInt8

theorem digit_toUInt8_inj {c d : Char} (hc : c.isDigit) (hd : d.isDigit)
    (h : c.toNat.toUInt8 = d.toNat.toUInt8) : c = d := by
  have hnine : '9'.toNat = 57 := rfl
  rw [Char.isDigit_iff_toNat] at hc hd
  have hnat : c.toNat % 256 = d.toNat % 256 := congrArg UInt8.toNat h
  exact Char.toNat_inj.1 (by omega)

theorem decimal_inj {m n : ℕ} (h : decimal m = decimal n) : m = n := by
  have hdigit : ∀ {k : ℕ} {c : Char}, c ∈ Nat.toDigits 10 k → c.isDigit := fun hc =>
    Nat.isDigit_of_mem_toDigits (by omega) (by omega) hc
  have hmap : ∀ {l l' : List Char}, (∀ c ∈ l, c.isDigit) → (∀ c ∈ l', c.isDigit) →
      l.map (fun c => c.toNat.toUInt8) = l'.map (fun c => c.toNat.toUInt8) → l = l' := by
    intro l
    induction l with
    | nil =>
      intro l' _ _ he
      exact (List.map_eq_nil_iff.1 he.symm).symm
    | cons c l ih =>
      intro l' hl hl' he
      cases l' with
      | nil => cases he
      | cons d l' =>
        obtain ⟨hcd, hrest⟩ := List.cons_eq_cons.1 he
        rw [digit_toUInt8_inj (hl c List.mem_cons_self) (hl' d List.mem_cons_self) hcd,
          ih (fun x hx => hl x (List.mem_cons_of_mem c hx))
            (fun x hx => hl' x (List.mem_cons_of_mem d hx)) hrest]
  have hdigits := hmap (fun _ => hdigit) (fun _ => hdigit) h
  calc
    m = Nat.ofDigitChars 10 (Nat.toDigits 10 m) 0 :=
      (Nat.ofDigitChars_toDigits (by omega) (by omega)).symm
    _ = Nat.ofDigitChars 10 (Nat.toDigits 10 n) 0 := by rw [hdigits]
    _ = n := Nat.ofDigitChars_toDigits (by omega) (by omega)

theorem decimal_ne_nil (n : ℕ) : decimal n ≠ [] := fun h =>
  Nat.toDigits_ne_nil (List.map_eq_nil_iff.1 h)

/-- A byte that is not a digit is not in a printed number. -/
theorem not_mem_decimal {b : UInt8} (hb : b.toNat < 48) (n : ℕ) : b ∉ decimal n := by
  intro hmem
  obtain ⟨c, hc, rfl⟩ := List.mem_map.1 hmem
  have hd := Nat.isDigit_of_mem_toDigits (b := 10) (by omega) (by omega) hc
  rw [Char.isDigit_iff_toNat] at hd
  have hzero : '0'.toNat = 48 := rfl
  have hnine : '9'.toNat = 57 := rfl
  have hval : c.toNat.toUInt8.toNat = c.toNat % 256 := rfl
  omega

/-! ## Fields -/

/-- A string that is empty or begins with the delimiter. -/
def Ended (sep : UInt8) (r : Bytes) : Prop := r = [] ∨ ∃ r', r = sep :: r'

/-- A field without the delimiter can be read off the front. -/
theorem append_sep_inj {sep : UInt8} {u v r r' : Bytes} (hu : sep ∉ u) (hv : sep ∉ v)
    (hr : Ended sep r) (hr' : Ended sep r') (h : u ++ r = v ++ r') : u = v ∧ r = r' := by
  induction u generalizing v with
  | nil =>
    cases v with
    | nil => exact ⟨rfl, h⟩
    | cons d v =>
      rcases hr with rfl | ⟨t, rfl⟩
      · cases h
      · obtain ⟨rfl, -⟩ := List.cons_eq_cons.1 h
        exact absurd List.mem_cons_self hv
  | cons c u ih =>
    cases v with
    | nil =>
      rcases hr' with rfl | ⟨t, rfl⟩
      · cases h
      · obtain ⟨rfl, -⟩ := List.cons_eq_cons.1 h
        exact absurd List.mem_cons_self hu
    | cons d v =>
      obtain ⟨rfl, hrest⟩ := List.cons_eq_cons.1 h
      obtain ⟨rfl, hr⟩ := ih (fun hm => hu (List.mem_cons_of_mem c hm))
        (fun hm => hv (List.mem_cons_of_mem c hm)) hrest
      exact ⟨rfl, hr⟩

/-- Two ways of cutting a string: the same one, or one side has a piece more. -/
theorem append_cut {a b x y : Bytes} (h : a ++ x = b ++ y) :
    (a = b ∧ x = y) ∨ (∃ t, t ≠ [] ∧ b = a ++ t ∧ x = t ++ y) ∨
      ∃ t, t ≠ [] ∧ a = b ++ t ∧ y = t ++ x := by
  rcases List.append_eq_append_iff.1 h with ⟨t, hb, hx⟩ | ⟨t, ha, hy⟩
  · by_cases ht : t = []
    · subst ht
      exact Or.inl ⟨(hb.trans (List.append_nil a)).symm, hx⟩
    · exact Or.inr (Or.inl ⟨t, ht, hb, hx⟩)
  · by_cases ht : t = []
    · subst ht
      exact Or.inl ⟨ha.trans (List.append_nil b), hy.symm⟩
    · exact Or.inr (Or.inr ⟨t, ht, ha, hy⟩)

end Bytes
end CacheTurbo
