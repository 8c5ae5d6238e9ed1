/-
# The tags of a page

A store cuts the value of the tag expression into tags and hands them to the L2 index
(`ngx_http_cache_turbo_body_filter_tag_split`, `ngx_http_cache_turbo_body_filter_tag_index`,
`ngx_http_cache_turbo_filters.c`).  The header filter cuts it once more for the `Surrogate-Key`
header (`emitSurrogateKeyParse`).  Both keep the first tags that differ, up to `maxTags`.

Whether tags were left out is read off the cursor: `reported_iff` is what that says about the
value.
-/

import CacheTurbo.Http.Restore
import Mathlib.Data.List.TakeWhile

namespace CacheTurbo
namespace Http
namespace TagIndex

open Bytes

/-! ## The index -/

/-- What `tag_split` returns: the tags, its cursor, and the lengths it warned of. -/
structure TagSplit where
  seen : List Bytes
  rest : Bytes
  warned : List ℕ
  deriving DecidableEq, Repr

/-- The first token behind the separators. -/
def firstToken (s : Bytes) : Bytes := (s.dropWhile tagSep).takeWhile fun c => !tagSep c

/-- What comes after it. -/
def afterToken (s : Bytes) : Bytes := (s.dropWhile tagSep).dropWhile fun c => !tagSep c

theorem afterToken_shorter {s : Bytes} (h : s ≠ []) : (afterToken s).length < s.length := by
  cases s with
  | nil => exact absurd rfl h
  | cons c s =>
    rw [afterToken, List.dropWhile_cons]
    have hsep := List.length_dropWhile_le tagSep s
    by_cases hc : tagSep c = true
    · have hdrop := List.length_dropWhile_le (fun c => !tagSep c) (s.dropWhile tagSep)
      rw [if_pos hc, List.length_cons]
      omega
    · have hnot : (!tagSep c) = true := by simpa using hc
      have hdrop := List.length_dropWhile_le (fun c => !tagSep c) s
      rw [if_neg hc, List.dropWhile_cons, if_pos hnot, List.length_cons]
      omega

/-- `ngx_http_cache_turbo_body_filter_tag_split`, from the cursor on, with the tags that it has. -/
def bodyFilterTagSplit (s : Bytes) (seen : List Bytes) : TagSplit :=
  if s = [] ∨ seen.length ≥ maxTags then ⟨seen, s, []⟩
  else if (firstToken s).length = 0 then bodyFilterTagSplit (afterToken s) seen
  else if (firstToken s).length > maxTagLen then
    let split := bodyFilterTagSplit (afterToken s) seen
    { split with warned := (firstToken s).length :: split.warned }
  else if firstToken s ∈ seen then bodyFilterTagSplit (afterToken s) seen
  else bodyFilterTagSplit (afterToken s) (seen ++ [firstToken s])
termination_by s.length
decreasing_by all_goals exact afterToken_shorter fun h => by simp_all

/-- What a store does about its tags: those it hands to the index, how much it adds to
`tag_index_drops` and to `tag_cap_drops`, and the lengths it warned of. -/
structure TagIndexed where
  names : List Bytes
  indexDrops : ℕ
  capDrops : ℕ
  warned : List ℕ
  deriving DecidableEq, Repr

/-- `ngx_http_cache_turbo_body_filter_tag_index`, for the value of the tag expression and a
backend that takes names or drops them. -/
def bodyFilterTagIndex (tagval : Option Bytes) (tagAdd : List Bytes → Bool) : TagIndexed :=
  match tagval with
  | none => ⟨[], 0, 0, []⟩
  | some v =>
      if v = [] then ⟨[], 0, 0, []⟩
      else
        let split := bodyFilterTagSplit v []
        { names := split.seen
          indexDrops := if split.seen ≠ [] ∧ tagAdd split.seen = false then 1 else 0
          capDrops := if split.rest.dropWhile tagSep ≠ [] then 1 else 0
          warned := split.warned }

/-! ## The tags of a value -/

/-- The tokens of a value. -/
def tokens (v : Bytes) : List Bytes := (tagPieces [] v).filter (· ≠ [])

/-- A token that can be a tag. -/
def eligible (tok : Bytes) : Bool := 0 < tok.length && tok.length ≤ maxTagLen

/-- The tags of a value that differ, in the order of their first places. -/
def tags (v : Bytes) : List Bytes := ((tokens v).filter eligible).eraseDups

theorem tokens_sep {c : UInt8} (hc : tagSep c = true) (s : Bytes) : tokens (c :: s) = tokens s := by
  rw [tokens, tagPieces, if_pos hc]
  rfl

theorem tokens_dropWhile (s : Bytes) : tokens (s.dropWhile tagSep) = tokens s := by
  induction s with
  | nil => rfl
  | cons c s ih =>
    rw [List.dropWhile_cons]
    by_cases hc : tagSep c = true
    · rw [if_pos hc, tokens_sep hc]
      exact ih
    · rw [if_neg hc]

theorem tagPieces_append {tok : Bytes} (h : ∀ c ∈ tok, tagSep c = false) (cur rest : Bytes) :
    tagPieces cur (tok ++ rest) = tagPieces (cur ++ tok) rest := by
  induction tok generalizing cur with
  | nil => rw [List.nil_append, List.append_nil]
  | cons c tok ih =>
    obtain ⟨hc, htok⟩ := List.forall_mem_cons.1 h
    rw [List.cons_append, tagPieces, if_neg (by rw [hc]; decide), ih htok, List.append_assoc]
    rfl

/-- The token that ends at the end, or at a separator. -/
theorem tokens_append {tok rest : Bytes} (hsome : tok ≠ []) (h : ∀ c ∈ tok, tagSep c = false)
    (hrest : ∀ c ∈ rest.head?, tagSep c = true) : tokens (tok ++ rest) = tok :: tokens rest := by
  rw [tokens, tagPieces_append h, List.nil_append]
  cases rest with
  | nil =>
    rw [tagPieces, List.filter_cons, if_pos (by simpa using hsome)]
    rfl
  | cons c rest =>
    have hc := hrest c rfl
    rw [tagPieces, if_pos hc, List.filter_cons, if_pos (by simpa using hsome), tokens_sep hc]
    rfl

/-- An empty first token takes none. -/
theorem tokens_after_of_none {s : Bytes} (h : firstToken s = []) :
    tokens (afterToken s) = tokens s := by
  have hsplit : firstToken s ++ afterToken s = s.dropWhile tagSep :=
    List.takeWhile_append_dropWhile ..
  rw [h, List.nil_append] at hsplit
  rw [hsplit, tokens_dropWhile]

theorem tokens_of_some {s : Bytes} (h : firstToken s ≠ []) :
    tokens s = firstToken s :: tokens (afterToken s) := by
  have hsplit : s.dropWhile tagSep = firstToken s ++ afterToken s :=
    (List.takeWhile_append_dropWhile ..).symm
  rw [← tokens_dropWhile, hsplit]
  refine tokens_append h (fun c hc => ?_) fun c hc => ?_
  · have hmem := List.mem_takeWhile_imp hc
    simpa using hmem
  · have hhead := List.head?_dropWhile_not (fun c => !tagSep c) (s.dropWhile tagSep)
    rw [afterToken] at hc
    rw [Option.mem_def.1 hc] at hhead
    simpa using hhead

/-! ## The two readers -/

theorem nodup_eraseDups (l : List Bytes) : l.eraseDups.Nodup := by
  induction hn : l.length using Nat.strong_induction_on generalizing l with
  | _ n ih =>
  cases l with
  | nil => exact List.nodup_nil
  | cons a l =>
    have hshort := List.length_filter_le (fun b => !b == a) l
    rw [List.length_cons] at hn
    rw [List.eraseDups_cons, List.nodup_cons]
    refine ⟨fun hmem => ?_, ih _ (by omega) _ rfl⟩
    have hother := (List.mem_filter.1 (List.mem_eraseDups.1 hmem)).2
    simp at hother

/-- The reader of the header passes over empty pieces. -/
theorem emitSurrogateKeyParse_filter (toks seen : List Bytes) :
    emitSurrogateKeyParse (toks.filter (· ≠ [])) seen = emitSurrogateKeyParse toks seen := by
  induction toks generalizing seen with
  | nil => rfl
  | cons tok toks ih =>
    by_cases htok : tok = []
    · rw [List.filter_cons, if_neg (by simp [htok]), ih, emitSurrogateKeyParse, htok]
      split
      · rename_i hfull
        cases toks with
        | nil => rfl
        | cons _ _ => rw [emitSurrogateKeyParse, if_pos hfull]
      · rw [if_pos (Or.inl List.length_nil)]
    · rw [List.filter_cons, if_pos (by simpa using htok), emitSurrogateKeyParse,
        emitSurrogateKeyParse, ih, ih]

/-- **What the reader keeps**: the tags that it has not seen, in the room that is left. -/
theorem emitSurrogateKeyParse_eq (toks seen : List Bytes) :
    emitSurrogateKeyParse toks seen = seen ++
      (((toks.filter eligible).removeAll seen).eraseDups).take (maxTags - seen.length) := by
  induction toks generalizing seen with
  | nil => simp [emitSurrogateKeyParse]
  | cons tok toks ih =>
    rw [emitSurrogateKeyParse]
    by_cases hfull : seen.length ≥ maxTags
    · rw [if_pos hfull, Nat.sub_eq_zero_of_le hfull, List.take_zero, List.append_nil]
    rw [if_neg hfull]
    by_cases hel : eligible tok = true
    · have hlen : ¬ (tok.length = 0 ∨ tok.length > maxTagLen) := by
        rw [eligible, Bool.and_eq_true, decide_eq_true_eq, decide_eq_true_eq] at hel
        omega
      rw [List.filter_cons, if_pos hel]
      by_cases hseen : tok ∈ seen
      · rw [if_pos (Or.inr (Or.inr hseen)), ih, List.cons_removeAll,
          if_neg (by simpa using hseen)]
      · have hnot : ¬ (tok.length = 0 ∨ tok.length > maxTagLen ∨ tok ∈ seen) := by tauto
        have hroom : maxTags - seen.length = (maxTags - (seen ++ [tok]).length) + 1 := by
          rw [List.length_append, List.length_singleton]
          omega
        have hlater : ((toks.filter eligible).removeAll seen).filter (fun b => !b == tok) =
            (toks.filter eligible).removeAll (seen ++ [tok]) := by
          rw [List.removeAll, List.removeAll, List.filter_filter]
          refine List.filter_congr fun b _ => ?_
          simp [Bool.and_comm, beq_eq_decide]
        rw [if_neg hnot, ih, List.cons_removeAll, if_pos (by simpa using hseen),
          List.eraseDups_cons, hroom, List.take_succ_cons, hlater, List.append_assoc]
        rfl
    · have hlen : tok.length = 0 ∨ tok.length > maxTagLen ∨ tok ∈ seen := by
        rw [eligible, Bool.and_eq_true, decide_eq_true_eq, decide_eq_true_eq] at hel
        omega
      rw [if_pos hlen, ih, List.filter_cons, if_neg hel]

/-- **The header has the first tags of the value.** -/
theorem emitSurrogateKeyParse_tags (v : Bytes) :
    emitSurrogateKeyParse (tagPieces [] v) [] = (tags v).take maxTags := by
  rw [← emitSurrogateKeyParse_filter, emitSurrogateKeyParse_eq, List.nil_append, tags, tokens]
  simp

/-- **The two readers agree**, from any cursor on. -/
theorem bodyFilterTagSplit_seen (s : Bytes) (seen : List Bytes) :
    (bodyFilterTagSplit s seen).seen = emitSurrogateKeyParse (tokens s) seen := by
  induction s, seen using bodyFilterTagSplit.induct with
  | case1 s seen hstop =>
    rw [bodyFilterTagSplit, if_pos hstop]
    rcases hstop with rfl | hfull
    · rfl
    · cases tokens s with
      | nil => rfl
      | cons _ _ => rw [emitSurrogateKeyParse, if_pos hfull]
  | case2 s seen hstop hnone ih =>
    have hempty := List.length_eq_zero_iff.1 hnone
    rw [bodyFilterTagSplit, if_neg hstop, if_pos hnone, ih, tokens_after_of_none hempty]
  | case3 s seen hstop hsome hlong ih =>
    have htok : firstToken s ≠ [] := fun h => hsome (by rw [h]; rfl)
    rw [bodyFilterTagSplit, if_neg hstop, if_neg hsome, if_pos hlong, tokens_of_some htok,
      emitSurrogateKeyParse, if_neg fun h => hstop (Or.inr h), if_pos (Or.inr (Or.inl hlong))]
    exact ih
  | case4 s seen hstop hsome hlong hseen ih =>
    have htok : firstToken s ≠ [] := fun h => hsome (by rw [h]; rfl)
    rw [bodyFilterTagSplit, if_neg hstop, if_neg hsome, if_neg hlong, if_pos hseen,
      tokens_of_some htok, emitSurrogateKeyParse, if_neg fun h => hstop (Or.inr h),
      if_pos (Or.inr (Or.inr hseen))]
    exact ih
  | case5 s seen hstop hsome hlong hseen ih =>
    have htok : firstToken s ≠ [] := fun h => hsome (by rw [h]; rfl)
    rw [bodyFilterTagSplit, if_neg hstop, if_neg hsome, if_neg hlong, if_neg hseen,
      tokens_of_some htok, emitSurrogateKeyParse, if_neg fun h => hstop (Or.inr h), if_neg]
    · exact ih
    · rintro (h | h | h)
      · exact hsome h
      · exact hlong h
      · exact hseen h

/-! ## Where the cursor stops -/

/-- The last of the tokens is a tag, and is new. -/
def NewLast (seen toks : List Bytes) : Prop :=
  ∃ front tok, toks = front ++ [tok] ∧ eligible tok = true ∧ tok ∉ front ∧ tok ∉ seen

theorem NewLast.cons {seen toks : List Bytes} {tok : Bytes} (h : NewLast seen toks)
    (hother : tok ∈ seen ∨ eligible tok = false) : NewLast seen (tok :: toks) := by
  obtain ⟨front, last, rfl, hel, hfront, hseen⟩ := h
  refine ⟨tok :: front, last, rfl, hel, fun hmem => ?_, hseen⟩
  rcases List.mem_cons.1 hmem with rfl | hmem
  · rcases hother with h | h
    · exact hseen h
    · rw [h] at hel
      cases hel
  · exact hfront hmem

/-- **What was cut off** at the cursor of a split, and what is behind it: `toks` are the tokens
before the cursor.  A token is left behind it only when there is no more room, and the room ended
with a new tag. -/
structure Cut (s : Bytes) (seen toks : List Bytes) (r : TagSplit) : Prop where
  split : tokens s = toks ++ tokens r.rest
  kept : ∀ tok ∈ seen, tok ∈ r.seen
  taken : ∀ tok ∈ toks, eligible tok = true → tok ∈ r.seen
  origin : ∀ tok ∈ r.seen, tok ∈ seen ∨ tok ∈ toks
  full : tokens r.rest ≠ [] → maxTags ≤ r.seen.length
  newest : maxTags ≤ r.seen.length → maxTags ≤ seen.length ∨ NewLast seen toks

theorem eligible_of_long {tok : Bytes} (h : tok.length > maxTagLen) : eligible tok = false := by
  rw [eligible, Bool.and_eq_false_iff]
  right
  rw [decide_eq_false_iff_not]
  omega

/-- A token that is no new tag is passed over. -/
theorem Cut.pass {s : Bytes} {seen toks : List Bytes} {r : TagSplit} {tok : Bytes} {s' : Bytes}
    (h : Cut s seen toks r) (htokens : tokens s' = tok :: tokens s)
    (hother : tok ∈ seen ∨ eligible tok = false) : Cut s' seen (tok :: toks) r where
  split := by rw [htokens, h.split, List.cons_append]
  kept := h.kept
  taken t ht hel := by
    rcases List.mem_cons.1 ht with rfl | ht
    · rcases hother with hmem | hnot
      · exact h.kept _ hmem
      · rw [hnot] at hel
        cases hel
    · exact h.taken t ht hel
  origin t ht := (h.origin t ht).imp_right (List.mem_cons_of_mem _)
  full := h.full
  newest hfull := (h.newest hfull).imp_right fun hlast => hlast.cons hother

theorem bodyFilterTagSplit_cut (s : Bytes) (seen : List Bytes) :
    ∃ toks, Cut s seen toks (bodyFilterTagSplit s seen) := by
  induction s, seen using bodyFilterTagSplit.induct with
  | case1 s seen hstop =>
    rw [bodyFilterTagSplit, if_pos hstop]
    refine ⟨[], rfl, fun _ h => h, nofun, fun _ h => Or.inl h, fun hsome => ?_, Or.inl⟩
    exact hstop.resolve_left fun hnil => hsome (by rw [hnil]; rfl)
  | case2 s seen hstop hnone ih =>
    have hempty := List.length_eq_zero_iff.1 hnone
    obtain ⟨toks, hcut⟩ := ih
    rw [bodyFilterTagSplit, if_neg hstop, if_pos hnone]
    have hsplit := tokens_after_of_none hempty ▸ hcut.split
    exact ⟨toks, hsplit, hcut.kept, hcut.taken, hcut.origin, hcut.full, hcut.newest⟩
  | case3 s seen hstop hsome hlong ih =>
    have htok : firstToken s ≠ [] := fun h => hsome (by rw [h]; rfl)
    obtain ⟨toks, hcut⟩ := ih
    rw [bodyFilterTagSplit, if_neg hstop, if_neg hsome, if_pos hlong]
    have hpass := hcut.pass (tokens_of_some htok) (Or.inr (eligible_of_long hlong))
    exact ⟨firstToken s :: toks, hpass.split, hpass.kept, hpass.taken, hpass.origin, hpass.full,
      hpass.newest⟩
  | case4 s seen hstop hsome hlong hseen ih =>
    have htok : firstToken s ≠ [] := fun h => hsome (by rw [h]; rfl)
    obtain ⟨toks, hcut⟩ := ih
    rw [bodyFilterTagSplit, if_neg hstop, if_neg hsome, if_neg hlong, if_pos hseen]
    exact ⟨firstToken s :: toks, hcut.pass (tokens_of_some htok) (Or.inl hseen)⟩
  | case5 s seen hstop hsome hlong hseen ih =>
    have htok : firstToken s ≠ [] := fun h => hsome (by rw [h]; rfl)
    have hel : eligible (firstToken s) = true := by
      rw [eligible, Bool.and_eq_true, decide_eq_true_eq, decide_eq_true_eq]
      omega
    obtain ⟨toks, hcut⟩ := ih
    rw [bodyFilterTagSplit, if_neg hstop, if_neg hsome, if_neg hlong, if_neg hseen]
    have hnew : firstToken s ∈ seen ++ [firstToken s] := List.mem_append_right _ List.mem_cons_self
    refine ⟨firstToken s :: toks, ?_, fun t ht => hcut.kept t (List.mem_append_left _ ht),
      fun t ht hel' => ?_, fun t ht => ?_, hcut.full, fun hfull => Or.inr ?_⟩
    · rw [tokens_of_some htok, hcut.split, List.cons_append]
    · rcases List.mem_cons.1 ht with rfl | ht
      · exact hcut.kept _ hnew
      · exact hcut.taken t ht hel'
    · rcases hcut.origin t ht with ht | ht
      · rcases List.mem_append.1 ht with ht | ht
        · exact Or.inl ht
        · rw [List.mem_singleton.1 ht]
          exact Or.inr List.mem_cons_self
      · exact Or.inr (List.mem_cons_of_mem _ ht)
    · rcases hcut.newest hfull with hroom | ⟨front, last, rfl, hlast, hfront, hother⟩
      · -- this tag took the last place: the split ended right behind it
        have hsplit := hcut.split
        rw [bodyFilterTagSplit, if_pos (Or.inr hroom)] at hsplit
        rw [List.self_eq_append_left.1 hsplit]
        exact ⟨[], firstToken s, rfl, hel, List.not_mem_nil, hseen⟩
      · rw [List.mem_append, List.mem_singleton, not_or] at hother
        refine ⟨firstToken s :: front, last, rfl, hlast, fun hmem => ?_, hother.1⟩
        rcases List.mem_cons.1 hmem with hsame | hmem
        · exact hother.2 hsame
        · exact hfront hmem

/-! ## What is reported -/

theorem mem_tags {v tok : Bytes} : tok ∈ tags v ↔ tok ∈ tokens v ∧ eligible tok = true := by
  rw [tags, List.mem_eraseDups, List.mem_filter]

theorem tokens_eq_nil_iff (s : Bytes) : tokens s = [] ↔ s.dropWhile tagSep = [] := by
  constructor
  · intro h
    have hnone : firstToken s = [] := by
      by_contra hsome
      rw [tokens_of_some hsome] at h
      cases h
    rw [firstToken, List.takeWhile_eq_nil_iff] at hnone
    by_contra hdrop
    have hpos := List.length_pos_of_ne_nil hdrop
    have hsep := List.dropWhile_get_zero_not tagSep s hpos
    exact hnone hpos (by simpa using hsep)
  · intro h
    rw [← tokens_dropWhile, h]
    rfl

/-- **The split has the first tags of the value**, as the header has. -/
theorem bodyFilterTagSplit_tags (v : Bytes) :
    (bodyFilterTagSplit v []).seen = (tags v).take maxTags := by
  rw [bodyFilterTagSplit_seen, ← emitSurrogateKeyParse_tags,
    ← emitSurrogateKeyParse_filter (tagPieces [] v)]
  rfl

/-- A tag is left out exactly when there are too many. -/
theorem leftOut_iff (v : Bytes) :
    (∃ tok ∈ tags v, tok ∉ (tags v).take maxTags) ↔ maxTags < (tags v).length := by
  constructor
  · rintro ⟨tok, htok, hout⟩
    by_contra hfew
    rw [List.take_of_length_le (Nat.le_of_not_lt hfew)] at hout
    exact hout htok
  · intro hmany
    refine ⟨(tags v)[maxTags], List.getElem_mem hmany, fun hmem => ?_⟩
    have hnodup := nodup_eraseDups ((tokens v).filter eligible)
    rw [← tags, ← List.take_append_drop maxTags (tags v), List.nodup_append] at hnodup
    have hdrop : (tags v)[maxTags] ∈ (tags v).drop maxTags := by
      rw [List.drop_eq_getElem_cons hmany]
      exact List.mem_cons_self
    exact hnodup.2.2 _ hmem _ hdrop rfl

/-- **When a truncation is reported**: there are too many tags, or there are just as many as have
room and a token that is not a new tag comes last. -/
theorem reported_iff (v : Bytes) :
    tokens (bodyFilterTagSplit v []).rest ≠ [] ↔
      maxTags < (tags v).length ∨ (tags v).length = maxTags ∧ ¬ NewLast [] (tokens v) := by
  obtain ⟨toks, hcut⟩ := bodyFilterTagSplit_cut v []
  have hseen := bodyFilterTagSplit_tags v
  have hlen : (bodyFilterTagSplit v []).seen.length = min maxTags (tags v).length := by
    rw [hseen, List.length_take]
  have hstart : ¬ maxTags ≤ ([] : List Bytes).length := by decide
  constructor
  · intro hrest
    have hfull := hcut.full hrest
    rcases Nat.lt_or_ge maxTags (tags v).length with hmany | hfew
    · exact Or.inl hmany
    · refine Or.inr ⟨by omega, ?_⟩
      rintro ⟨front, last, hlast, hel, hnew, -⟩
      -- the last token is behind the cursor, and all tags are before it
      have hsplit := hcut.split
      have hmem : last ∈ toks := by
        have hall : last ∈ (bodyFilterTagSplit v []).seen := by
          rw [hseen, List.take_of_length_le hfew, mem_tags, hlast]
          exact ⟨List.mem_append_right _ List.mem_cons_self, hel⟩
        exact (hcut.origin last hall).resolve_left List.not_mem_nil
      obtain ⟨later, final, hfinal⟩ := (List.eq_nil_or_concat _).resolve_left hrest
      rw [hfinal, List.concat_eq_append, hlast, ← List.append_assoc] at hsplit
      have hfront := (List.append_inj' hsplit rfl).1
      exact hnew (hfront ▸ List.mem_append_left _ hmem)
  · rintro (hmany | ⟨hsame, hold⟩) hrest
    · obtain ⟨tok, htok, hout⟩ := (leftOut_iff v).2 hmany
      have hsplit := hcut.split
      rw [hrest, List.append_nil] at hsplit
      obtain ⟨hmem, hel⟩ := mem_tags.1 htok
      exact hout (hseen ▸ hcut.taken tok (hsplit ▸ hmem) hel)
    · have hsplit := hcut.split
      rw [hrest, List.append_nil] at hsplit
      rw [hsplit] at hold
      exact hold ((hcut.newest (by omega)).resolve_left hstart)

/-- **What the index and the header have**, and when a store says that tags were left out. -/
structure Honest (v : Bytes) (tagAdd : List Bytes → Bool) : Prop where
  index : (bodyFilterTagIndex (some v) tagAdd).names = (tags v).take maxTags
  header : emitSurrogateKeyParse (tagPieces [] v) [] = (tags v).take maxTags
  sent : ∀ out, emitSurrogateKey (some v) out =
    if (tags v).take maxTags = [] then out
    else addHeader out Blob.surrogateKeyName ([32].intercalate ((tags v).take maxTags))
  drops : 0 < (bodyFilterTagIndex (some v) tagAdd).capDrops ↔
    ∃ tok ∈ tags v, tok ∉ (bodyFilterTagIndex (some v) tagAdd).names

theorem capDrops_iff (v : Bytes) (tagAdd : List Bytes → Bool) :
    0 < (bodyFilterTagIndex (some v) tagAdd).capDrops ↔
      tokens (bodyFilterTagSplit v []).rest ≠ [] := by
  rw [bodyFilterTagIndex]
  dsimp only
  by_cases hv : v = []
  · rw [if_pos hv, hv, bodyFilterTagSplit, if_pos (Or.inl rfl)]
    exact iff_of_false (Nat.lt_irrefl 0) fun h => h rfl
  · have hnil := tokens_eq_nil_iff (bodyFilterTagSplit v []).rest
    rw [if_neg hv]
    dsimp only
    split
    · rename_i hrest
      exact iff_of_true Nat.one_pos fun h => hrest (hnil.1 h)
    · rename_i hrest
      exact iff_of_false (Nat.lt_irrefl 0) fun h => hrest fun hdrop => h (hnil.2 hdrop)

theorem names_eq (v : Bytes) (tagAdd : List Bytes → Bool) :
    (bodyFilterTagIndex (some v) tagAdd).names = (tags v).take maxTags := by
  rw [bodyFilterTagIndex]
  dsimp only
  by_cases hv : v = []
  · rw [if_pos hv, hv]
    rfl
  · rw [if_neg hv]
    exact bodyFilterTagSplit_tags v

/-- **The index and the header agree, and a truncation is reported exactly when a tag was left
out**, if and only if the value has not just as many tags as have room, or ends with the last of
these. -/
theorem tag_index_honest_iff (v : Bytes) (tagAdd : List Bytes → Bool) :
    Honest v tagAdd ↔ ((tags v).length = maxTags → NewLast [] (tokens v)) := by
  have hleft := leftOut_iff v
  have hreported := reported_iff v
  constructor
  · rintro ⟨hindex, -, -, hdrops⟩ hsame
    rw [capDrops_iff, hindex, hleft, hreported] at hdrops
    by_contra hold
    exact Nat.lt_irrefl _ (hsame ▸ hdrops.1 (Or.inr ⟨hsame, hold⟩))
  · intro h
    refine ⟨names_eq v tagAdd, emitSurrogateKeyParse_tags v, fun out => ?_, ?_⟩
    · rw [emitSurrogateKey, ← emitSurrogateKeyParse_tags]
    rw [capDrops_iff, names_eq, hleft, hreported]
    exact or_iff_left fun hlast => hlast.2 (h hlast.1)

/-- The tags `a` to `p`, and `a` once more. -/
def repeatedValue : Bytes :=
  [44].intercalate ((List.range 16).map fun i => [97 + i.toUInt8]) ++ [44, 97]

/-- A repeated tag is reported as one that was left out. -/
theorem repeated_tag_reported : ¬ Honest repeatedValue fun _ => true := by
  rintro ⟨hindex, -, -, hdrops⟩
  have hsame : (tags repeatedValue).length = maxTags := by decide
  rw [capDrops_iff, hindex, leftOut_iff, reported_iff] at hdrops
  refine Nat.lt_irrefl _ (hsame ▸ hdrops.1 (Or.inr ⟨hsame, ?_⟩))
  rintro ⟨front, last, hlast, -, hnew, -⟩
  have htokens : tokens repeatedValue =
      (List.range 16).map (fun i => [97 + i.toUInt8]) ++ [lit ['a']] := by decide
  rw [htokens] at hlast
  obtain ⟨hfront, htok⟩ := List.append_inj' hlast rfl
  obtain rfl := (List.cons.inj htok).1
  exact hnew (hfront ▸ by decide)

end TagIndex
end Http
end CacheTurbo
