/-
# Conditional hits

What `ngx_http_cache_turbo_not_modified` (`requestNotModified`) answers for a list of entity tags
as it can be written: a `TagList`, which is built of valid tags only.

The walk over the list cuts it at every comma, also at one inside a tag.  `etagWalk_iff` is what
it finds: an entry with the stored tag, or two neighbours between whose quotes the stored tag can
be read (`Straddle`).
-/

import CacheTurbo.Http.CaptureBlob
import CacheTurbo.Http.Restore
import Mathlib.Data.List.TakeWhile

namespace CacheTurbo
namespace Http
namespace Conditional

open Bytes

/-! ## The walk -/

/-- A blank of the walk. -/
def isBlank (c : UInt8) : Bool := c == 32 || c == 9

/-- What the walk passes over between two entries. -/
def isListSep (c : UInt8) : Bool := c == 32 || c == 9 || c == 44

theorem stripWeak_length_le (s : Bytes) : (stripWeak s).length ≤ s.length := by
  unfold stripWeak
  split
  · rw [List.length_drop]
    omega
  · exact Nat.le_refl _

theorem etagSkip_eq (s : Bytes) : etagSkip s = (s.dropWhile (· != 44)).dropWhile isListSep := rfl

theorem etagSkip_length_le (s : Bytes) : (etagSkip s).length ≤ s.length :=
  le_trans (List.length_dropWhile_le _ _) (List.length_dropWhile_le _ _)

theorem etagSkip_shorter {s : Bytes} (h : s ≠ []) : (etagSkip s).length < s.length := by
  cases s with
  | nil => exact absurd rfl h
  | cons c s =>
    rw [etagSkip_eq, List.dropWhile_cons]
    have hskip := List.length_dropWhile_le isListSep (s.dropWhile (· != 44))
    have hcut := List.length_dropWhile_le (· != 44) s
    split
    · rw [List.length_cons]
      omega
    · rename_i hc
      have hcomma : c = 44 := by simpa using hc
      have hsep : isListSep 44 = true := rfl
      have hle := List.length_dropWhile_le isListSep s
      rw [hcomma, List.dropWhile_cons, if_pos hsep, List.length_cons]
      omega

/-- A comparison with a tag that has no NUL. -/
theorem strncmpEq_tag_iff {etag : Bytes} (hnul : (0 : UInt8) ∉ etag) (s : Bytes) :
    strncmpEq etag.length s etag = true ↔ etag <+: s := by
  induction etag generalizing s with
  | nil => simp [strncmpEq]
  | cons b etag ih =>
    obtain ⟨hb, hnul⟩ := not_or.1 (List.mem_cons.not.1 hnul)
    rw [List.length_cons, strncmpEq, List.headD_cons, List.tail_cons]
    cases s with
    | nil => simp [hb]
    | cons a s =>
      rw [List.headD_cons, List.tail_cons, List.cons_prefix_cons, Bool.and_eq_true, Bool.or_eq_true,
        ih hnul, beq_iff_eq, beq_iff_eq]
      constructor
      · rintro ⟨rfl, ha | hprefix⟩
        · exact absurd ha.symm hb
        · exact ⟨rfl, hprefix⟩
      · rintro ⟨rfl, hprefix⟩
        exact ⟨rfl, Or.inr hprefix⟩

/-- **The walk as it is meant**: at each place, the tag is looked for behind a `W/`, and has to end
before a comma. -/
def listWalk (etag : Bytes) (s : Bytes) : Bool :=
  if s = [] then false
  else if etag <+: stripWeak s then
    if ((stripWeak s).drop etag.length).dropWhile isBlank = [] ∨
        (((stripWeak s).drop etag.length).dropWhile isBlank).head? = some 44 then true
    else listWalk etag (etagSkip (((stripWeak s).drop etag.length).dropWhile isBlank))
  else listWalk etag (etagSkip (stripWeak s))
termination_by s.length
decreasing_by
  · rename_i _ _ hend
    have hsome : ((stripWeak s).drop etag.length).dropWhile isBlank ≠ [] := fun h => hend (Or.inl h)
    have hdrop := List.length_dropWhile_le isBlank ((stripWeak s).drop etag.length)
    have hle := stripWeak_length_le s
    have hskip := etagSkip_shorter hsome
    rw [List.length_drop] at hdrop
    omega
  · rename_i hs _
    have hle := stripWeak_length_le s
    rcases eq_or_ne (stripWeak s) [] with hnil | hsome
    · rw [hnil]
      exact List.length_pos_of_ne_nil hs
    · exact lt_of_lt_of_le (etagSkip_shorter hsome) hle

theorem listWalk_nil (etag : Bytes) : listWalk etag [] = false := by
  rw [listWalk, if_pos rfl]

/-- A place that does not begin with the tag is skipped. -/
theorem listWalk_miss {etag s : Bytes} (h : ¬ etag <+: stripWeak s) :
    listWalk etag s = listWalk etag (etagSkip (stripWeak s)) := by
  rcases eq_or_ne s [] with rfl | hs
  · rfl
  · rw [listWalk, if_neg hs, if_neg h]

/-- One that begins with it matches when it ends there. -/
theorem listWalk_hit {etag s r : Bytes} (hs : s ≠ []) (h : stripWeak s = etag ++ r) :
    listWalk etag s = if r.dropWhile isBlank = [] ∨ (r.dropWhile isBlank).head? = some 44 then true
      else listWalk etag (etagSkip (r.dropWhile isBlank)) := by
  rw [listWalk, if_neg hs, h, if_pos (List.prefix_append etag r), List.drop_left]

theorem listWalk_short {etag s : Bytes} (h : s.length < etag.length) : listWalk etag s = false := by
  induction hn : s.length using Nat.strong_induction_on generalizing s with
  | _ n ih =>
  rcases eq_or_ne s [] with rfl | hs
  · exact listWalk_nil etag
  have hle := stripWeak_length_le s
  have hmiss : ¬ etag <+: stripWeak s := fun hprefix => absurd hprefix.length_le (by omega)
  rw [listWalk_miss hmiss]
  have hskip : (etagSkip (stripWeak s)).length < s.length := by
    rcases eq_or_ne (stripWeak s) [] with hnil | hsome
    · rw [hnil]
      exact List.length_pos_of_ne_nil hs
    · exact lt_of_lt_of_le (etagSkip_shorter hsome) hle
  exact ih _ (hn ▸ hskip) (hskip.trans h) rfl

/-- The loop of the source is this walk: its length checks and its fuel change nothing. -/
theorem etagWalk_eq {etag : Bytes} (hnul : (0 : UInt8) ∉ etag) (hsome : etag ≠ []) {fuel : ℕ}
    {s : Bytes} (h : s.length ≤ fuel) : etagWalk etag fuel s = listWalk etag s := by
  induction fuel generalizing s with
  | zero =>
    rw [List.length_eq_zero_iff.1 (Nat.le_zero.1 h), listWalk_nil]
    rfl
  | succ fuel ih =>
    rw [etagWalk, listWalk]
    rcases eq_or_ne s [] with rfl | hs
    · rfl
    rw [if_neg hs, if_neg hs]
    dsimp only
    rw [show (fun c : UInt8 => c == 32 || c == 9) = isBlank from rfl]
    have hle := stripWeak_length_le s
    have hetag := List.length_pos_of_ne_nil hsome
    by_cases hlong : etag.length > (stripWeak s).length
    · have hmiss : ¬ etag <+: stripWeak s := fun hprefix => absurd hprefix.length_le (by omega)
      rw [if_pos hlong, if_neg hmiss, listWalk_short]
      exact lt_of_le_of_lt (etagSkip_length_le _) hlong
    have hstripped : stripWeak s ≠ [] := List.ne_nil_of_length_pos (by omega)
    rw [if_neg hlong]
    by_cases hprefix : etag <+: stripWeak s
    · rw [if_pos ((strncmpEq_tag_iff hnul _).2 hprefix), if_pos hprefix]
      have hdrop := List.length_dropWhile_le isBlank ((stripWeak s).drop etag.length)
      rw [List.length_drop] at hdrop
      by_cases hend : ((stripWeak s).drop etag.length).dropWhile isBlank = [] ∨
          (((stripWeak s).drop etag.length).dropWhile isBlank).head? = some 44
      · rw [if_pos hend, if_pos hend]
      · rw [if_neg hend, if_neg hend]
        refine ih ?_
        have hskip := etagSkip_shorter fun hnil => hend (Or.inl hnil)
        omega
    · rw [if_neg fun heq => hprefix ((strncmpEq_tag_iff hnul _).1 heq), if_neg hprefix]
      have hskip := etagSkip_shorter hstripped
      exact ih (by omega)

/-! ## Entity tags -/

/-- A character of an entity tag. -/
def etagc (c : UInt8) : Bool := c == 33 || (35 ≤ c && c != 127)

/-- An entity tag, weak or strong. -/
structure EntityTag where
  weak : Bool
  tag : Bytes
  chars : ∀ c ∈ tag, etagc c = true

/-- What stands before the quotes. -/
def EntityTag.mark (e : EntityTag) : Bytes := if e.weak then [87, 47] else []

def EntityTag.text (e : EntityTag) : Bytes := e.mark ++ 34 :: (e.tag ++ [34])

/-- The entries that come after another one, each with what separates it, and what comes after
the last. -/
def moreText : List (Bytes × EntityTag) → Bytes → Bytes
  | [], tail => tail
  | (sep, e) :: more, tail => sep ++ (e.text ++ moreText more tail)

/-- A list of entity tags as it can be written, with empty elements anywhere.  A value does not
begin with a blank. -/
structure TagList where
  lead : Bytes
  first : EntityTag
  more : List (Bytes × EntityTag)
  tail : Bytes
  trimmed : lead = [] ∨ lead.head? = some 44
  lead_sep : ∀ c ∈ lead, isListSep c = true
  more_sep : ∀ m ∈ more, 44 ∈ m.1 ∧ ∀ c ∈ m.1, isListSep c = true
  tail_sep : ∀ c ∈ tail, isListSep c = true

def TagList.text (l : TagList) : Bytes := l.lead ++ (l.first.text ++ moreText l.more l.tail)

def TagList.entries (l : TagList) : List EntityTag := l.first :: l.more.map Prod.snd

/-- A value of `If-None-Match`: `*`, or a list. -/
inductive IfNoneMatch
  | any
  | list (l : TagList)

def IfNoneMatch.text : IfNoneMatch → Bytes
  | .any => [42]
  | .list l => l.text

/-- The stored `ETag`, which may be absent. -/
def storedText : Option EntityTag → Bytes
  | none => []
  | some e => e.text

theorem etagc_plain {c : UInt8} (h : etagc c = true) : c ≠ 0 ∧ c ≠ 32 ∧ c ≠ 9 ∧ c ≠ 34 := by
  refine ⟨?_, ?_, ?_, ?_⟩ <;> rintro rfl <;> exact absurd h (by decide)

theorem EntityTag.not_quote (e : EntityTag) : 34 ∉ e.tag :=
  fun h => (etagc_plain (e.chars _ h)).2.2.2 rfl

theorem EntityTag.dropWhile_blank (e : EntityTag) (s : Bytes) :
    (e.tag ++ 34 :: s).dropWhile isBlank = e.tag ++ 34 :: s := by
  have hchars := e.chars
  cases htag : e.tag with
  | nil => rfl
  | cons c tag =>
    rw [htag] at hchars
    obtain ⟨-, hspace, htab, -⟩ := etagc_plain (hchars c List.mem_cons_self)
    have hblank : isBlank c = false := by
      rw [isBlank, beq_false_of_ne hspace, beq_false_of_ne htab]
      rfl
    rw [List.cons_append, List.dropWhile_cons, hblank, if_neg (by decide)]

/-- The mark is taken off. -/
theorem stripWeak_text (e : EntityTag) (s : Bytes) :
    stripWeak (e.text ++ s) = 34 :: (e.tag ++ 34 :: s) := by
  have htext : e.text ++ s = e.mark ++ 34 :: (e.tag ++ 34 :: s) := by
    rw [EntityTag.text]
    simp only [List.append_assoc, List.cons_append, List.nil_append]
  rw [htext, stripWeak, EntityTag.mark]
  cases e.weak with
  | true =>
    rw [if_pos ⟨by simp, rfl⟩]
    rfl
  | false => exact if_neg fun h => by simp [lit] at h

/-! ## What is passed over -/

theorem dropWhile_append_cons {p : UInt8 → Bool} {c : UInt8} (hc : p c = false) (x s : Bytes) :
    (x ++ c :: s).dropWhile p = x.dropWhile p ++ c :: s := by
  induction x with
  | nil => rw [List.nil_append, List.dropWhile_cons, hc, if_neg (by decide)]; rfl
  | cons b x ih =>
    rw [List.cons_append, List.dropWhile_cons, List.dropWhile_cons]
    split
    · exact ih
    · rfl

theorem dropWhile_eq_nil_of_all {p : UInt8 → Bool} {s : Bytes} (h : ∀ c ∈ s, p c = true) :
    s.dropWhile p = [] := List.dropWhile_eq_nil_iff.2 h

/-- Bytes that are no commas are passed over. -/
theorem etagSkip_append {x : Bytes} (h : 44 ∉ x) (s : Bytes) : etagSkip (x ++ s) = etagSkip s := by
  induction x with
  | nil => rfl
  | cons c x ih =>
    have hc : (c != 44) = true := by
      rw [bne_iff_ne]
      exact fun hcomma => h (hcomma ▸ List.mem_cons_self)
    rw [List.cons_append, etagSkip_eq, List.dropWhile_cons, if_pos hc]
    exact ih fun hmem => h (List.mem_cons_of_mem _ hmem)

theorem etagSkip_comma (s : Bytes) : etagSkip (44 :: s) = s.dropWhile isListSep := by
  have hstop : ¬ ((44 : UInt8) != 44) = true := by decide
  have hsep : isListSep 44 = true := rfl
  rw [etagSkip_eq, List.dropWhile_cons, if_neg hstop, List.dropWhile_cons, if_pos hsep]

section More

variable {more : List (Bytes × EntityTag)} {tail : Bytes}
  (hmore : ∀ m ∈ more, 44 ∈ m.1 ∧ ∀ c ∈ m.1, isListSep c = true)
  (htail : ∀ c ∈ tail, isListSep c = true)

/-- Where the walk comes to after an entry. -/
def nextText : List (Bytes × EntityTag) → Bytes → Bytes
  | [], _ => []
  | (_, e) :: more, tail => e.text ++ moreText more tail

theorem EntityTag.dropWhile_sep (e : EntityTag) (s : Bytes) :
    (e.text ++ s).dropWhile isListSep = e.text ++ s := by
  rw [EntityTag.text, EntityTag.mark]
  cases e.weak <;> rfl

include htail in
theorem etagSkip_tail : etagSkip tail = [] := by
  rw [etagSkip_eq]
  exact dropWhile_eq_nil_of_all fun c hc => htail c (List.dropWhile_sublist _ |>.subset hc)

/-- A separator is passed over, up to the entry behind it. -/
theorem etagSkip_sep {sep : Bytes} (hcomma : 44 ∈ sep) (hsep : ∀ c ∈ sep, isListSep c = true)
    (e : EntityTag) (s : Bytes) : etagSkip (sep ++ (e.text ++ s)) = e.text ++ s := by
  obtain ⟨x, y, rfl, hx⟩ := List.eq_append_cons_of_mem hcomma
  have hy : ∀ c ∈ y, isListSep c = true := fun c hc =>
    hsep c (List.mem_append_right _ (List.mem_cons_of_mem _ hc))
  rw [List.append_assoc, etagSkip_append hx, List.cons_append, etagSkip_comma,
    List.dropWhile_append_of_pos hy, e.dropWhile_sep]

include hmore htail in
theorem etagSkip_more : etagSkip (moreText more tail) = nextText more tail := by
  cases more with
  | nil => exact etagSkip_tail htail
  | cons m more =>
    obtain ⟨hcomma, hsep⟩ := hmore m List.mem_cons_self
    exact etagSkip_sep hcomma hsep m.2 _

/-- Behind the blanks of a separator there is a comma. -/
theorem dropWhile_blank_sep {s : Bytes} (h : ∀ c ∈ s, isListSep c = true) :
    s.dropWhile isBlank = [] ∨ (s.dropWhile isBlank).head? = some 44 := by
  rcases hdrop : s.dropWhile isBlank with _ | ⟨c, rest⟩
  · exact Or.inl rfl
  · have hmem : c ∈ s := List.dropWhile_sublist _ |>.subset (hdrop ▸ List.mem_cons_self)
    have hblank : isBlank c = false := by
      have hhead := List.head?_dropWhile_not isBlank s
      rw [hdrop] at hhead
      exact hhead
    have hsep := h c hmem
    rw [isListSep, ← isBlank, hblank, Bool.false_or, beq_iff_eq] at hsep
    rw [hsep]
    exact Or.inr rfl

include hmore htail in
/-- After an entry there is the end, or a comma. -/
theorem moreText_ends : (moreText more tail).dropWhile isBlank = [] ∨
    ((moreText more tail).dropWhile isBlank).head? = some 44 := by
  cases more with
  | nil => exact dropWhile_blank_sep htail
  | cons m more =>
    obtain ⟨hcomma, hsep⟩ := hmore m List.mem_cons_self
    rw [moreText, List.dropWhile_append]
    rcases dropWhile_blank_sep hsep with hnil | hhead
    · exact absurd (List.dropWhile_eq_nil_iff.1 hnil 44 hcomma) (by decide)
    · right
      rcases hdrop : m.1.dropWhile isBlank with _ | ⟨c, rest⟩
      · rw [hdrop] at hhead
        cases hhead
      · rw [hdrop] at hhead
        exact hhead

end More

/-! ## What the walk finds -/

/-- The tag is in front of a comma, or of one and a `W/`. -/
def EndsInComma (tag : Bytes) : Prop := [44] <:+ tag ∨ [44, 87, 47] <:+ tag

/-- The text up to the quotes of the next entry is the tag `c`, and that entry's own tag begins
with a comma. -/
def Between (c : Bytes) : List (Bytes × EntityTag) → Prop
  | [] => False
  | (sep, e) :: _ => c = sep ++ e.mark ∧ e.tag.head? = some 44

/-- **A tag read across two entries**: the first ends in a comma, the second begins with one, and
`c` is what stands between their quotes. -/
def Straddle (c : Bytes) (e : EntityTag) : List (Bytes × EntityTag) → Prop
  | [] => False
  | (sep, e') :: more =>
      EndsInComma e.tag ∧ Between c ((sep, e') :: more) ∨ Straddle c e' more

/-- Only the last three characters count. -/
theorem endsInComma_of_long {front x : Bytes} (h : 3 ≤ x.length) :
    EndsInComma (front ++ x) ↔ EndsInComma x := by
  have hlong : ∀ s : Bytes, s.length ≤ 3 → (s <:+ front ++ x ↔ s <:+ x) := fun s hs =>
    ⟨fun hsuffix => List.suffix_of_suffix_length_le hsuffix (List.suffix_append _ _) (le_trans hs h),
      fun hsuffix => hsuffix.trans (List.suffix_append _ _)⟩
  exact or_congr (hlong [44] (by decide)) (hlong [44, 87, 47] (by decide))

theorem endsInComma_reverse (tag : Bytes) :
    EndsInComma tag ↔ [44] <+: tag.reverse ∨ [47, 87, 44] <+: tag.reverse := by
  rw [EndsInComma, ← List.reverse_prefix, ← List.reverse_prefix]
  rfl

/-- What follows a comma. -/
theorem endsInComma_comma (front x : Bytes) :
    EndsInComma (front ++ 44 :: x) ↔ x = [] ∨ x = [87, 47] ∨ EndsInComma x := by
  match x with
  | [] => simp [endsInComma_reverse]
  | [a] => simp [endsInComma_reverse]
  | [a, b] =>
    simp only [endsInComma_reverse, List.reverse_append, List.reverse_cons, List.reverse_nil,
      List.nil_append, List.cons_append, List.cons_prefix_cons, List.cons.injEq]
    simp
    tauto
  | a :: b :: d :: x =>
    have hlong := @endsInComma_of_long (front ++ [44]) (a :: b :: d :: x) (by simp)
    rw [List.append_assoc, List.singleton_append] at hlong
    rw [hlong]
    simp

/-- What follows a `W/`. -/
theorem endsInComma_mark {x : Bytes} (h : x ≠ []) : EndsInComma (87 :: 47 :: x) ↔ EndsInComma x := by
  match x, h with
  | [a], _ => simp [endsInComma_reverse]
  | [a, b], _ => simp [endsInComma_reverse]
  | a :: b :: d :: x, _ => exact @endsInComma_of_long [87, 47] (a :: b :: d :: x) (by simp)

/-- Of the separators only the comma may stand in a tag. -/
theorem eq_comma_of_sep {b : UInt8} (hb : etagc b = true) (hsep : isListSep b = true) : b = 44 := by
  obtain ⟨-, hspace, htab, -⟩ := etagc_plain hb
  rw [isListSep, beq_false_of_ne hspace, beq_false_of_ne htab, Bool.false_or, Bool.false_or,
    beq_iff_eq] at hsep
  exact hsep

/-- Where the walk is inside a tag: right behind a comma of it. -/
theorem dropWhile_behind_comma (front : Bytes) {x : Bytes} (hx : ∀ b ∈ x, etagc b = true) :
    ∃ front', front ++ 44 :: x = front' ++ 44 :: x.dropWhile isListSep := by
  induction x generalizing front with
  | nil => exact ⟨front, rfl⟩
  | cons b x ih =>
    obtain ⟨hb, hrest⟩ := List.forall_mem_cons.1 hx
    rw [List.dropWhile_cons]
    by_cases hsep : isListSep b = true
    · obtain rfl := eq_comma_of_sep hb hsep
      obtain ⟨front', hfront⟩ := ih (front ++ [44]) hrest
      refine ⟨front', ?_⟩
      rw [if_pos hsep, ← hfront, List.append_assoc]
      rfl
    · exact ⟨front, by rw [if_neg hsep]⟩

/-- A tag with its quotes. -/
def quoted (c : Bytes) : Bytes := 34 :: (c ++ [34])

section Walk

variable {c : Bytes} (hc : ∀ b ∈ c, etagc b = true)
  {more : List (Bytes × EntityTag)} {tail : Bytes}
  (hmore : ∀ m ∈ more, 44 ∈ m.1 ∧ ∀ b ∈ m.1, isListSep b = true)
  (htail : ∀ b ∈ tail, isListSep b = true)

include hc in
theorem nul_not_mem_quoted : (0 : UInt8) ∉ quoted c := by
  intro h
  rcases List.mem_cons.1 h with h | h
  · cases h
  · rcases List.mem_append.1 h with h | h
    · exact (etagc_plain (hc _ h)).1 rfl
    · cases List.mem_singleton.1 h

include hc in
theorem quote_not_mem : (34 : UInt8) ∉ c := fun h => (etagc_plain (hc _ h)).2.2.2 rfl

include hc in
/-- A quoted text begins with the tag exactly when it is that tag. -/
theorem quoted_prefix_iff {x s : Bytes} (hx : 34 ∉ x) :
    quoted c <+: 34 :: (x ++ 34 :: s) ↔ x = c := by
  constructor
  · rintro ⟨r, hr⟩
    have hcut : c ++ 34 :: r = x ++ 34 :: s := by
      rw [quoted, List.cons_append, List.append_assoc, List.singleton_append] at hr
      exact (List.cons.inj hr).2
    exact (append_sep_inj (quote_not_mem hc) hx (Or.inr ⟨r, rfl⟩) (Or.inr ⟨s, rfl⟩) hcut).1.symm
  · rintro rfl
    exact ⟨s, by rw [quoted, List.cons_append, List.append_assoc, List.singleton_append]⟩

include hc hmore htail in
/-- **An entry matches, or the walk goes on inside it.** -/
theorem listWalk_entry (e : EntityTag) :
    listWalk (quoted c) (e.text ++ moreText more tail) = true ↔
      e.tag = c ∨ listWalk (quoted c) (etagSkip (e.tag ++ 34 :: moreText more tail)) = true := by
  have hstrip := stripWeak_text e (moreText more tail)
  have hsome : e.text ++ moreText more tail ≠ [] := by
    intro hnil
    rw [hnil] at hstrip
    cases hstrip
  by_cases htag : e.tag = c
  · have hhit : stripWeak (e.text ++ moreText more tail) = quoted c ++ moreText more tail := by
      rw [hstrip, htag, quoted, List.cons_append, List.append_assoc, List.singleton_append]
    rw [listWalk_hit hsome hhit, if_pos (moreText_ends hmore htail)]
    exact iff_of_true rfl (Or.inl htag)
  · have hmiss : ¬ quoted c <+: stripWeak (e.text ++ moreText more tail) := by
      rw [hstrip, quoted_prefix_iff hc e.not_quote]
      exact htag
    have hskip : etagSkip (34 :: (e.tag ++ 34 :: moreText more tail)) =
        etagSkip (e.tag ++ 34 :: moreText more tail) :=
      etagSkip_append (x := [34]) (by decide) _
    rw [listWalk_miss hmiss, hstrip, hskip]
    exact (or_iff_right htag).symm

include hc hmore htail in
/-- **At the closing quote of an entry**: the stored tag is read across the next separator, or the
walk goes on behind it. -/
theorem listWalk_quote {s : Bytes} (hstrip : stripWeak s = 34 :: moreText more tail) :
    listWalk (quoted c) s = true ↔
      listWalk (quoted c) (nextText more tail) = true ∨ Between c more := by
  have hs : s ≠ [] := by
    rintro rfl
    cases hstrip
  have hskip : etagSkip (34 :: moreText more tail) = nextText more tail := by
    rw [← etagSkip_more hmore htail]
    exact etagSkip_append (x := [34]) (by decide) _
  have hmiss : ¬ quoted c <+: stripWeak s →
      listWalk (quoted c) s = listWalk (quoted c) (nextText more tail) := by
    intro h
    rw [listWalk_miss h, hstrip, hskip]
  cases more with
  | nil =>
    rw [hmiss]
    · exact (or_iff_left id).symm
    · rw [hstrip]
      rintro ⟨r, hr⟩
      have hmem : (34 : UInt8) ∈ tail := by
        rw [quoted, List.cons_append, List.append_assoc] at hr
        rw [← show c ++ ([34] ++ r) = tail from (List.cons.inj hr).2]
        exact List.mem_append_right _ List.mem_cons_self
      exact absurd (htail 34 hmem) (by decide)
  | cons m more =>
    obtain ⟨sep, e⟩ := m
    obtain ⟨⟨hcomma, hsep⟩, hlater⟩ := List.forall_mem_cons.1 hmore
    have htext : moreText ((sep, e) :: more) tail =
        (sep ++ e.mark) ++ 34 :: (e.tag ++ 34 :: moreText more tail) := by
      simp only [moreText, EntityTag.text, List.append_assoc, List.cons_append, List.nil_append]
    have hquote : 34 ∉ sep ++ e.mark := by
      intro h
      rcases List.mem_append.1 h with h | h
      · exact absurd (hsep 34 h) (by decide)
      · rw [EntityTag.mark] at h
        cases e.weak <;> simp at h
    by_cases hread : sep ++ e.mark = c
    · have hhit : stripWeak s = quoted c ++ (e.tag ++ 34 :: moreText more tail) := by
        rw [hstrip, htext, hread, quoted, List.cons_append, List.append_assoc,
          List.singleton_append]
      have hhead : (e.tag ++ 34 :: moreText more tail).head? = some 44 ↔ e.tag.head? = some 44 := by
        cases e.tag with
        | nil => simp
        | cons b tag => exact Iff.rfl
      rw [listWalk_hit hs hhit, e.dropWhile_blank]
      by_cases hbegins : e.tag.head? = some 44
      · rw [if_pos (Or.inr (hhead.2 hbegins))]
        exact iff_of_true rfl (Or.inr ⟨hread.symm, hbegins⟩)
      · have hnil : e.tag ++ 34 :: moreText more tail ≠ [] := by simp
        -- the walk is inside the next entry: it has another tag, so nothing was lost
        have hother : e.tag ≠ c := by
          rintro htag
          cases hsepc : sep with
          | nil =>
            rw [hsepc] at hcomma
            cases hcomma
          | cons b rest =>
            have hb := hsep b (hsepc ▸ List.mem_cons_self)
            have hmem : b ∈ c := by
              rw [← hread, hsepc]
              exact List.mem_cons_self
            rw [htag, ← hread, hsepc, eq_comma_of_sep (hc b hmem) hb] at hbegins
            exact hbegins rfl
        have hentry := listWalk_entry hc hlater htail e
        rw [or_iff_right hother] at hentry
        rw [if_neg (not_or.2 ⟨hnil, fun h => hbegins (hhead.1 h)⟩)]
        exact hentry.symm.trans (or_iff_left fun h => hbegins h.2).symm
    · rw [hmiss]
      · exact (or_iff_left fun h => hread h.1.symm).symm
      · rw [hstrip, htext, quoted_prefix_iff hc hquote]
        exact hread

include hc hmore htail in
/-- **Inside an entry** the walk stops behind each comma; what counts is whether the last of them
is right before the closing quote. -/
theorem listWalk_inside {tag : Bytes} (htag : ∀ b ∈ tag, etagc b = true) :
    listWalk (quoted c) (etagSkip (tag ++ 34 :: moreText more tail)) = true ↔
      listWalk (quoted c) (nextText more tail) = true ∨ EndsInComma tag ∧ Between c more := by
  induction hn : tag.length using Nat.strong_induction_on generalizing tag with
  | _ n ih =>
  by_cases hcomma : 44 ∈ tag
  · obtain ⟨front, x, rfl, hfront⟩ := List.eq_append_cons_of_mem hcomma
    have hx : ∀ b ∈ x, etagc b = true := fun b hb =>
      htag b (List.mem_append_right _ (List.mem_cons_of_mem _ hb))
    obtain ⟨front', hbehind⟩ := dropWhile_behind_comma front hx
    have hskip : etagSkip ((front ++ 44 :: x) ++ 34 :: moreText more tail) =
        x.dropWhile isListSep ++ 34 :: moreText more tail := by
      rw [List.append_assoc, etagSkip_append hfront, List.cons_append, etagSkip_comma,
        dropWhile_append_cons rfl]
    have hshort := List.length_dropWhile_le isListSep x
    have hy : ∀ b ∈ x.dropWhile isListSep, etagc b = true := fun b hb =>
      hx b (List.dropWhile_sublist _ |>.subset hb)
    rw [hskip, hbehind, endsInComma_comma]
    generalize x.dropWhile isListSep = y at hshort hy
    rw [List.length_append, List.length_cons] at hn
    -- a rest of the tag is no quote: it is skipped, from behind its mark
    have hrest : ∀ z : Bytes, z ≠ [] → (∀ b ∈ z, etagc b = true) → z.length < n →
        ∀ s, stripWeak s = z ++ 34 :: moreText more tail →
          (listWalk (quoted c) s = true ↔
            listWalk (quoted c) (nextText more tail) = true ∨ EndsInComma z ∧ Between c more) := by
      intro z hz hchars hlt s hstrip
      have hmiss : ¬ quoted c <+: stripWeak s := by
        rw [hstrip]
        cases z with
        | nil => exact absurd rfl hz
        | cons b z =>
          rintro ⟨r, hr⟩
          have hb := (etagc_plain (hchars b List.mem_cons_self)).2.2.2
          rw [quoted, List.cons_append, List.cons_append] at hr
          exact hb (List.cons.inj hr).1.symm
      rw [listWalk_miss hmiss, hstrip]
      exact ih z.length hlt hchars rfl
    by_cases hmark : y.take 2 = [87, 47]
    · obtain ⟨z, rfl⟩ : ∃ z, y = 87 :: 47 :: z := ⟨y.drop 2, by
        rw [← List.take_append_drop 2 y, hmark]
        rfl⟩
      have hstrip : stripWeak (87 :: 47 :: z ++ 34 :: moreText more tail) =
          z ++ 34 :: moreText more tail := by
        have hlong : (87 :: 47 :: z ++ 34 :: moreText more tail).length > 2 := by
          simp only [List.length_append, List.length_cons]
          omega
        rw [stripWeak, if_pos ⟨hlong, rfl⟩]
        rfl
      have hz : ∀ b ∈ z, etagc b = true := fun b hb =>
        hy b (List.mem_cons_of_mem _ (List.mem_cons_of_mem _ hb))
      rcases eq_or_ne z [] with rfl | hsome
      · rw [listWalk_quote hc hmore htail hstrip]
        simp
      · rw [List.length_cons, List.length_cons] at hshort
        rw [hrest z hsome hz (by omega) _ hstrip, endsInComma_mark hsome]
        simp [hsome]
    · have hstrip : stripWeak (y ++ 34 :: moreText more tail) = y ++ 34 :: moreText more tail := by
        refine if_neg fun h => ?_
        match y, hmark, h.2 with
        | [], _, h => simp [lit] at h
        | [a], _, h => simp [lit] at h
        | a :: b :: y, hmark, h => exact hmark h
      rcases eq_or_ne y [] with rfl | hsome
      · rw [listWalk_quote hc hmore htail hstrip]
        simp
      · rw [hrest y hsome hy (by omega) _ hstrip]
        have hnot : y ≠ [87, 47] := by
          rintro rfl
          exact hmark rfl
        simp [hsome, hnot]
  · have hnone : 44 ∉ tag ++ [34] := by
      intro h
      rcases List.mem_append.1 h with h | h
      · exact hcomma h
      · cases List.mem_singleton.1 h
    have hends : ¬ EndsInComma tag := by
      rintro (h | h)
      · exact hcomma (h.subset List.mem_cons_self)
      · exact hcomma (h.subset List.mem_cons_self)
    rw [← List.singleton_append, ← List.append_assoc, etagSkip_append hnone,
      etagSkip_more hmore htail]
    exact (or_iff_left fun h => hends h.1).symm

include hc hmore htail in
/-- What the walk finds from an entry on. -/
theorem listWalk_entries (e : EntityTag) :
    listWalk (quoted c) (e.text ++ moreText more tail) = true ↔
      (∃ e' ∈ e :: more.map Prod.snd, e'.tag = c) ∨ Straddle c e more := by
  induction more generalizing e with
  | nil =>
    rw [listWalk_entry hc hmore htail, listWalk_inside hc hmore htail e.chars, nextText,
      listWalk_nil]
    simp [Between, Straddle]
  | cons m more ih =>
    obtain ⟨sep, e'⟩ := m
    have hlater := (List.forall_mem_cons.1 hmore).2
    rw [listWalk_entry hc hmore htail, listWalk_inside hc hmore htail e.chars, nextText,
      ih hlater e', List.map_cons, Straddle]
    simp only [List.mem_cons, exists_eq_or_imp, or_assoc]
    rw [@or_comm (Straddle c e' more)]

end Walk

/-- **What the walk over a list finds**: an entry with the stored tag, or two that it is read
across. -/
theorem etagWalk_iff {c : Bytes} (hc : ∀ b ∈ c, etagc b = true) (l : TagList) :
    etagWalk (quoted c) l.text.length l.text = true ↔
      (∃ e ∈ l.entries, e.tag = c) ∨ Straddle c l.first l.more := by
  rw [etagWalk_eq (nul_not_mem_quoted hc) (List.cons_ne_nil _ _) (Nat.le_refl _), TagList.entries,
    ← listWalk_entries hc l.more_sep l.tail_sep l.first, TagList.text]
  rcases l.trimmed with hlead | hlead
  · rw [hlead, List.nil_append]
  · obtain ⟨lead, hcons⟩ : ∃ lead, l.lead = 44 :: lead := by
      cases hl : l.lead with
      | nil =>
        rw [hl] at hlead
        cases hlead
      | cons b lead =>
        rw [hl] at hlead
        exact ⟨lead, by rw [Option.some.inj hlead]⟩
    have hsep := l.lead_sep
    have hcomma : 44 ∈ l.lead := hcons ▸ List.mem_cons_self
    have hstrip : stripWeak (l.lead ++ (l.first.text ++ moreText l.more l.tail)) =
        l.lead ++ (l.first.text ++ moreText l.more l.tail) := by
      rw [hcons]
      exact if_neg fun h => by simp [lit] at h
    have hmiss : ¬ quoted c <+:
        stripWeak (l.lead ++ (l.first.text ++ moreText l.more l.tail)) := by
      rw [hstrip, hcons]
      rintro ⟨r, hr⟩
      cases hr
    rw [listWalk_miss hmiss, hstrip, etagSkip_sep hcomma hsep]

/-! ## The order of the conditions -/

/-- The weak comparison: `*` has anything, a list has the stored tag. -/
def Matches (etag : Option EntityTag) : IfNoneMatch → Prop
  | .any => True
  | .list l => ∃ stored ∈ etag, ∃ e ∈ l.entries, e.tag = stored.tag

/-- The stored page is not newer than the date of the request. -/
def NotNewer (env : RestoreEnv) (lm : Bytes) : Prop :=
  lm ≠ [] ∧ ∃ value ∈ env.ifModifiedSince, ∃ since modified,
    env.parseHttpTime value = some since ∧ env.parseHttpTime lm = some modified ∧ modified ≤ since

/-- **When a 304 is due**: the dates are for a request without `If-None-Match`. -/
def Due (env : RestoreEnv) (ifNoneMatch : Option IfNoneMatch) (etag : Option EntityTag)
    (lm : Bytes) : Prop :=
  match ifNoneMatch with
  | some value => Matches etag value
  | none => NotNewer env lm

/-- The stored tag is read across two entries. -/
def Straddles (etag : Option EntityTag) : IfNoneMatch → Prop
  | .any => False
  | .list l => ∃ stored ∈ etag, Straddle stored.tag l.first l.more

theorem notModifiedTime_iff {env : RestoreEnv} {lm : Bytes} :
    notModifiedTime env lm = true ↔ NotNewer env lm := by
  unfold notModifiedTime NotNewer
  cases env.ifModifiedSince with
  | none => simp
  | some value =>
    by_cases hlm : lm = []
    · simp [hlm]
    · have hlen : lm.length ≠ 0 := fun h => hlm (List.length_eq_zero_iff.1 h)
      rcases hsince : env.parseHttpTime value with _ | since
      · simp [hlm, hsince]
      · rcases env.parseHttpTime lm with _ | modified
        · simp [hlm, hsince]
        · simp [hlm, hsince]

/-- What the walk answers for a value of the request. -/
theorem notModifiedEtag_iff {env : RestoreEnv} {value : IfNoneMatch}
    (henv : env.ifNoneMatch = some value.text) (etag : Option EntityTag) :
    notModifiedEtag env (storedText etag) = true ↔ Matches etag value ∨ Straddles etag value := by
  rw [notModifiedEtag, henv]
  dsimp only
  cases value with
  | any => exact iff_of_true (if_pos rfl) (Or.inl trivial)
  | list l =>
    have hstar : l.text ≠ lit ['*'] := by
      intro h
      have hmem : (34 : UInt8) ∈ l.text := by
        simp [TagList.text, EntityTag.text]
      rw [h] at hmem
      exact absurd (List.mem_singleton.1 hmem) (by decide)
    rw [if_neg (show ¬ (IfNoneMatch.list l).text = lit ['*'] from hstar)]
    cases etag with
    | none => exact iff_of_false Bool.false_ne_true (by simp [Matches, Straddles])
    | some e =>
      have hlen : (storedText (some e)).length ≠ 0 := by
        simp [storedText, EntityTag.text]
      have hstored : stripWeak (storedText (some e)) = quoted e.tag := by
        have hstrip := stripWeak_text e []
        rwa [List.append_nil] at hstrip
      rw [if_neg hlen, hstored, IfNoneMatch.text.eq_2, etagWalk_iff e.chars]
      simp [Matches, Straddles]

/-- **A 304 is answered exactly when it is due**, if and only if an `If-None-Match` without the
stored tag comes with no date that the page is not newer than, and has no two entries across
which that tag can be read. -/
theorem not_modified_due_iff (env : RestoreEnv) (ifNoneMatch : Option IfNoneMatch)
    (etag : Option EntityTag) (lm : Bytes) :
    (requestNotModified { env with ifNoneMatch := ifNoneMatch.map IfNoneMatch.text }
        (storedText etag) lm = true ↔ Due env ifNoneMatch etag lm) ↔
      ∀ value ∈ ifNoneMatch, Matches etag value ∨ ¬ NotNewer env lm ∧ ¬ Straddles etag value := by
  rw [requestNotModified, Bool.or_eq_true, notModifiedTime_iff]
  cases ifNoneMatch with
  | none => exact iff_of_true (or_iff_right Bool.false_ne_true) nofun
  | some value =>
    have htime : NotNewer { env with ifNoneMatch := (some value).map IfNoneMatch.text } lm ↔
        NotNewer env lm := Iff.rfl
    rw [notModifiedEtag_iff rfl, htime, Due]
    simp only [Option.mem_def, Option.some.injEq, forall_eq']
    tauto

/-- The list of one strong tag. -/
def oneEntry (e : EntityTag) : TagList := ⟨[], e, [], [], Or.inl rfl, nofun, nofun, nofun⟩

/-- A request with the date of the page, and a reader of that date. -/
def pageConditions : RestoreEnv where
  conf := ⟨false, []⟩
  tagval := none
  ifNoneMatch := none
  ifModifiedSince := some pageDate
  parseHttpTime b := if b = pageDate then some 1000 else none

/-- `"1"` and `"2"`. -/
def tagOne : EntityTag where
  weak := false
  tag := lit ['1']
  chars := by simp [lit, etagc]

def tagTwo : EntityTag where
  weak := false
  tag := lit ['2']
  chars := by simp [lit, etagc]

/-- The client has the version `"1"`, and the page is the version `"2"` of the same second. -/
theorem not_modified_outdated :
    ¬ (requestNotModified
          { pageConditions with
            ifNoneMatch := (some (.list (oneEntry tagOne))).map IfNoneMatch.text }
          (storedText (some tagTwo)) pageDate = true ↔
      Due pageConditions (some (.list (oneEntry tagOne))) (some tagTwo) pageDate) := by
  intro h
  have hdue : ¬ Due pageConditions (some (.list (oneEntry tagOne))) (some tagTwo) pageDate := by
    rintro ⟨stored, hstored, e, he, htag⟩
    obtain rfl := Option.some.inj hstored
    obtain rfl := List.mem_singleton.1 he
    exact absurd htag (by decide)
  have htime : notModifiedTime pageConditions pageDate = true := by decide
  refine hdue (h.1 ?_)
  rw [requestNotModified, Bool.or_eq_true]
  exact Or.inr htime

end Conditional
end Http
end CacheTurbo
