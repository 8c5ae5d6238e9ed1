/-
# The automaton for cookie names

The automaton that looks for all cookie substrings of the enabled presets in one pass
over a Cookie line (`ngx_http_cache_turbo_cookie_ac_*` in
`ngx_http_cache_turbo_match.c`): the trie that the substrings are inserted into, the
breadth-first pass that fills in the missing edges and the failure links, and the scan.

A node stands for the bytes on its path from the root.  The pass is right because a
failure link is shorter than its node (`Built`): when a node is taken from the queue,
everything shorter is final.
-/

import CacheTurbo.Lib.Bytes
import CacheTurbo.Lib.LongestSuffix
import Mathlib.Data.List.Nodup
import Mathlib.Data.List.Perm.Subperm

namespace CacheTurbo
namespace Match

open LongestSuffix

/-! ## The source -/

/-- `ngx_http_cache_turbo_cookie_ac_t` with its nodes: the edges (`none` is `-1`), the failure
links and the match flags. -/
structure CookieAc where
  next : ℕ → UInt8 → Option ℕ
  fail : ℕ → ℕ
  matched : ℕ → Bool
  nnodes : ℕ
  cap : ℕ

namespace CookieAc

def setNext (ac : CookieAc) (s : ℕ) (c : UInt8) (v : Option ℕ) : CookieAc :=
  { ac with next := fun s' c' => if s' = s ∧ c' = c then v else ac.next s' c' }

def setFail (ac : CookieAc) (s v : ℕ) : CookieAc :=
  { ac with fail := fun s' => if s' = s then v else ac.fail s' }

def setMatched (ac : CookieAc) (s : ℕ) (v : Bool) : CookieAc :=
  { ac with matched := fun s' => if s' = s then v else ac.matched s' }

end CookieAc

/-- `0` to `255`. -/
def allBytes : List UInt8 := (List.range 256).map Nat.toUInt8

/-- `ngx_http_cache_turbo_cookie_ac_prepare`. -/
def cookieAcPrepare (maxNodes : ℕ) : CookieAc :=
  ⟨fun _ _ => none, fun _ => 0, fun _ => false, if maxNodes = 0 then 0 else 1, maxNodes⟩

/-- The loop of `ngx_http_cache_turbo_cookie_ac_insert`: the node where the bytes end, or `none`
when there is no room. -/
def insertLoop (ac : CookieAc) (state : ℕ) : Bytes → Option (CookieAc × ℕ)
  | [] => some (ac, state)
  | c :: cs =>
      match ac.next state c with
      | some next => insertLoop ac next cs
      | none =>
          if ac.nnodes = ac.cap then none
          else insertLoop { ac.setNext state c (some ac.nnodes) with nnodes := ac.nnodes + 1 }
            ac.nnodes cs

/-- `ngx_http_cache_turbo_cookie_ac_insert`. -/
def cookieAcInsert (ac : CookieAc) (data : Bytes) : Option CookieAc :=
  if ac.nnodes = 0 then none
  else if data = [] then some (ac.setMatched 0 true)
  else (insertLoop ac 0 data).map fun r => r.1.setMatched r.2 true

/-- One byte of the first loop of `ngx_http_cache_turbo_cookie_ac_finish`. -/
def rootStep (p : CookieAc × List ℕ) (c : UInt8) : CookieAc × List ℕ :=
  match p.1.next 0 c with
  | none => (p.1.setNext 0 c (some 0), p.2)
  | some next => (p.1.setFail next 0, p.2 ++ [next])

/-- One byte of the inner loop of `ngx_http_cache_turbo_cookie_ac_finish`, at the node
`state`. -/
def childStep (state : ℕ) (p : CookieAc × List ℕ) (c : UInt8) : CookieAc × List ℕ :=
  match p.1.next state c with
  | none => (p.1.setNext state c (p.1.next (p.1.fail state) c), p.2)
  | some next =>
      let fail := (p.1.next (p.1.fail state) c).getD 0
      let ac := p.1.setFail next fail
      (if ac.matched fail then ac.setMatched next true else ac, p.2 ++ [next])

/-- The outer loop of `ngx_http_cache_turbo_cookie_ac_finish` on the queue. -/
def finishLoop : ℕ → CookieAc × List ℕ → CookieAc
  | 0, p => p.1
  | _ + 1, (ac, []) => ac
  | fuel + 1, (ac, state :: queue) => finishLoop fuel (allBytes.foldl (childStep state) (ac, queue))

/-- `ngx_http_cache_turbo_cookie_ac_finish`. -/
def cookieAcFinish (ac : CookieAc) : CookieAc :=
  if ac.nnodes = 0 then ac else finishLoop ac.nnodes (allBytes.foldl rootStep (ac, []))

/-- The loop of `ngx_http_cache_turbo_cookie_ac_scan_one`. -/
def scanLoop (ac : CookieAc) (state : ℕ) : Bytes → Bool
  | [] => false
  | c :: cs =>
      if c = 0 then false
      else
        let state := (ac.next state c).getD 0
        if ac.matched state then true else scanLoop ac state cs

/-- `ngx_http_cache_turbo_cookie_ac_scan_one`. -/
def cookieAcScanOne (ac : CookieAc) (data : Bytes) : Bool :=
  if ac.nnodes = 0 ∨ data = [] then false
  else if ac.matched 0 then true
  else scanLoop ac 0 data

/-! ## The trie -/

/-- The beginnings of words that the nodes stand for. -/
def Mem (n : ℕ) (path : ℕ → Bytes) (w : Bytes) : Prop := w ∈ (List.range n).map path

instance (n : ℕ) (path : ℕ → Bytes) : DecidablePred (Mem n path) := fun _ =>
  inferInstanceAs (Decidable (_ ∈ _))

theorem mem_iff {n : ℕ} {path : ℕ → Bytes} {w : Bytes} : Mem n path w ↔ ∃ s < n, path s = w := by
  rw [Mem, List.mem_map]
  constructor
  · rintro ⟨s, hs, rfl⟩
    exact ⟨s, List.mem_range.1 hs, rfl⟩
  · rintro ⟨s, hs, rfl⟩
    exact ⟨s, List.mem_range.2 hs, rfl⟩

/-- **A trie of words**: the root stands for nothing, an edge adds its byte, no two nodes stand
for the same bytes, every other node hangs on an edge, and the nodes that match are those of the
words. -/
structure Trie (ac : CookieAc) (words : List Bytes) (path : ℕ → Bytes) : Prop where
  pos : 0 < ac.nnodes
  root : path 0 = []
  inj : ∀ {s t}, s < ac.nnodes → t < ac.nnodes → path s = path t → s = t
  edge : ∀ {s c t}, s < ac.nnodes → ac.next s c = some t → t < ac.nnodes ∧ path t = path s ++ [c]
  parent : ∀ {t}, t < ac.nnodes → t ≠ 0 → ∃ s c, s < ac.nnodes ∧ ac.next s c = some t
  blank : ∀ {s c}, ac.nnodes ≤ s → ac.next s c = none
  matched : ∀ {s}, ac.matched s = true ↔ s < ac.nnodes ∧ path s ∈ words
  word : ∀ w ∈ words, Mem ac.nnodes path w

theorem trie_prepare {maxNodes : ℕ} (h : maxNodes ≠ 0) :
    Trie (cookieAcPrepare maxNodes) [] fun _ => [] := by
  have hn : (cookieAcPrepare maxNodes).nnodes = 1 := if_neg h
  refine ⟨by omega, rfl, fun hs ht _ => by omega, nofun, fun ht hne => by omega, fun _ => rfl,
    ⟨nofun, nofun⟩, nofun⟩

/-- A node without the edge for `c` has no node for its bytes and `c`. -/
theorem Trie.not_mem {ac : CookieAc} {words : List Bytes} {path : ℕ → Bytes}
    (h : Trie ac words path) {s : ℕ} {c : UInt8} (hs : s < ac.nnodes) (hc : ac.next s c = none) :
    ¬ Mem ac.nnodes path (path s ++ [c]) := by
  rw [mem_iff]
  rintro ⟨t, ht, hpath⟩
  have hne : t ≠ 0 := by
    rintro rfl
    rw [h.root] at hpath
    exact List.append_ne_nil_of_right_ne_nil _ (by nofun) hpath.symm
  obtain ⟨p, d, hp, hedge⟩ := h.parent ht hne
  have heq := (h.edge hp hedge).2.symm.trans hpath
  obtain ⟨hps, hdc⟩ := List.append_inj' heq rfl
  obtain rfl := h.inj hp hs hps
  obtain rfl := List.singleton_inj.1 hdc
  rw [hc] at hedge
  cases hedge

/-- What a node stands for begins with what its ancestors stand for. -/
theorem Trie.closed {ac : CookieAc} {words : List Bytes} {path : ℕ → Bytes}
    (h : Trie ac words path) (v : Bytes) (c : UInt8) (hv : Mem ac.nnodes path (v ++ [c])) :
    Mem ac.nnodes path v := by
  obtain ⟨t, ht, hpath⟩ := mem_iff.1 hv
  have hne : t ≠ 0 := by
    rintro rfl
    rw [h.root] at hpath
    exact List.append_ne_nil_of_right_ne_nil _ (by nofun) hpath.symm
  obtain ⟨p, d, hp, hedge⟩ := h.parent ht hne
  have heq := (h.edge hp hedge).2.symm.trans hpath
  exact mem_iff.2 ⟨p, hp, (List.append_inj' heq rfl).1⟩

theorem Trie.nil_mem {ac : CookieAc} {words : List Bytes} {path : ℕ → Bytes}
    (h : Trie ac words path) : Mem ac.nnodes path [] := mem_iff.2 ⟨0, h.pos, h.root⟩

/-- **A new node**: the trie with an edge more. -/
theorem Trie.grow {ac : CookieAc} {words : List Bytes} {path : ℕ → Bytes}
    (h : Trie ac words path) {s : ℕ} {c : UInt8} (hs : s < ac.nnodes) (hc : ac.next s c = none) :
    Trie { ac.setNext s c (some ac.nnodes) with nnodes := ac.nnodes + 1 } words
      (fun t => if t = ac.nnodes then path s ++ [c] else path t) := by
  have hold : ∀ {t}, t < ac.nnodes →
      (if t = ac.nnodes then path s ++ [c] else path t) = path t := fun ht =>
    if_neg (Nat.ne_of_lt ht)
  have hnew : ∀ t, t < ac.nnodes → path t ≠ path s ++ [c] := fun t ht heq =>
    h.not_mem hs hc (mem_iff.2 ⟨t, ht, heq⟩)
  have hedges : ∀ {s' d t}, (ac.setNext s c (some ac.nnodes)).next s' d = some t →
      (s' = s ∧ d = c ∧ t = ac.nnodes) ∨ ac.next s' d = some t := by
    intro s' d t ht
    dsimp only [CookieAc.setNext] at ht
    split at ht
    · rename_i heq
      exact Or.inl ⟨heq.1, heq.2, (Option.some.inj ht).symm⟩
    · exact Or.inr ht
  refine ⟨Nat.succ_pos _, ?_, fun {t u} ht hu heq => ?_, fun {s' d t} hs' ht => ?_,
    fun {t} ht hne => ?_, fun {t d} ht => ?_, fun {t} => ?_, fun w hw => ?_⟩
  · rw [hold h.pos]
    exact h.root
  · rcases Nat.lt_succ_iff_lt_or_eq.1 ht with ht | rfl <;>
      rcases Nat.lt_succ_iff_lt_or_eq.1 hu with hu | rfl
    · rw [hold ht, hold hu] at heq
      exact h.inj ht hu heq
    · rw [hold ht, if_pos rfl] at heq
      exact absurd heq (hnew t ht)
    · rw [hold hu, if_pos rfl] at heq
      exact absurd heq.symm (hnew u hu)
    · rfl
  · rcases hedges ht with ⟨rfl, rfl, rfl⟩ | ht
    · exact ⟨Nat.lt_succ_self _, by rw [if_pos rfl, hold hs]⟩
    · have hs'' : s' < ac.nnodes := by
        by_contra hge
        rw [h.blank (Nat.not_lt.1 hge)] at ht
        cases ht
      obtain ⟨htn, hpath⟩ := h.edge hs'' ht
      exact ⟨Nat.lt_succ_of_lt htn, by rw [hold htn, hold hs'']; exact hpath⟩
  · rcases Nat.lt_succ_iff_lt_or_eq.1 ht with ht | rfl
    · obtain ⟨p, d, hp, hedge⟩ := h.parent ht hne
      refine ⟨p, d, Nat.lt_succ_of_lt hp, ?_⟩
      show (if p = s ∧ d = c then some ac.nnodes else ac.next p d) = some t
      rw [if_neg, hedge]
      rintro ⟨rfl, rfl⟩
      rw [hc] at hedge
      cases hedge
    · exact ⟨s, c, Nat.lt_succ_of_lt hs, if_pos ⟨rfl, rfl⟩⟩
  · show (if t = s ∧ d = c then some ac.nnodes else ac.next t d) = none
    have ht' : ac.nnodes + 1 ≤ t := ht
    rw [if_neg (fun heq => by omega), h.blank (by omega)]
  · show ac.matched t = true ↔ t < ac.nnodes + 1 ∧ (if t = ac.nnodes then path s ++ [c] else path t) ∈ words
    rw [h.matched]
    constructor
    · rintro ⟨ht, hmem⟩
      exact ⟨Nat.lt_succ_of_lt ht, by rw [hold ht]; exact hmem⟩
    · rintro ⟨ht, hmem⟩
      rcases Nat.lt_succ_iff_lt_or_eq.1 ht with ht | rfl
      · rw [hold ht] at hmem
        exact ⟨ht, hmem⟩
      · rw [if_pos rfl] at hmem
        exact absurd (h.word _ hmem) (h.not_mem hs hc)
  · obtain ⟨t, ht, hpath⟩ := mem_iff.1 (h.word w hw)
    exact mem_iff.2 ⟨t, Nat.lt_succ_of_lt ht, by rw [hold ht]; exact hpath⟩

/-- **An insertion reaches the node of its bytes**, while there is room for them. -/
theorem insertLoop_spec {words : List Bytes} :
    ∀ {data : Bytes} {ac : CookieAc} {path : ℕ → Bytes} {s : ℕ}, Trie ac words path →
      s < ac.nnodes → ac.nnodes + data.length ≤ ac.cap →
      ∃ ac' s' path', insertLoop ac s data = some (ac', s') ∧ Trie ac' words path' ∧
        s' < ac'.nnodes ∧ path' s' = path s ++ data ∧ ac'.cap = ac.cap ∧
        ac'.nnodes ≤ ac.nnodes + data.length
  | [], ac, path, s, h, hs, _ =>
      ⟨ac, s, path, rfl, h, hs, (List.append_nil _).symm, rfl, Nat.le_refl _⟩
  | c :: cs, ac, path, s, h, hs, hroom => by
      rw [List.length_cons] at hroom
      rw [insertLoop]
      rcases hc : ac.next s c with _ | t
      · dsimp only
        rw [if_neg (by omega)]
        have hgrown := h.grow hs hc
        obtain ⟨ac', s', path', hins, htrie, hs', hpath, hcap, hn⟩ :=
          @insertLoop_spec words cs _ _ _ hgrown (Nat.lt_succ_self ac.nnodes) (by
            show ac.nnodes + 1 + cs.length ≤ ac.cap
            omega)
        refine ⟨ac', s', path', hins, htrie, hs', ?_, hcap, ?_⟩
        · rw [hpath, if_pos rfl, List.append_assoc]
          rfl
        · rw [List.length_cons]
          have hn' : ac'.nnodes ≤ ac.nnodes + 1 + cs.length := hn
          omega
      · obtain ⟨ht, hpath⟩ := h.edge hs hc
        obtain ⟨ac', s', path', hins, htrie, hs', hpath', hcap, hn⟩ :=
          @insertLoop_spec words cs _ _ _ h ht (by omega)
        refine ⟨ac', s', path', hins, htrie, hs', ?_, hcap, ?_⟩
        · rw [hpath', hpath, List.append_assoc]
          rfl
        · rw [List.length_cons]
          omega

/-- A node of the trie becomes a word's. -/
theorem Trie.mark {ac : CookieAc} {words : List Bytes} {path : ℕ → Bytes} (h : Trie ac words path)
    {s : ℕ} (hs : s < ac.nnodes) : Trie (ac.setMatched s true) (path s :: words) path := by
  refine ⟨h.pos, h.root, h.inj, h.edge, h.parent, h.blank, fun {t} => ?_, fun w hw => ?_⟩
  · show (if t = s then true else ac.matched t) = true ↔ _
    rw [List.mem_cons]
    by_cases ht : t = s
    · subst ht
      rw [if_pos rfl]
      exact ⟨fun _ => ⟨hs, Or.inl rfl⟩, fun _ => rfl⟩
    · rw [if_neg ht, h.matched]
      constructor
      · exact fun hm => ⟨hm.1, Or.inr hm.2⟩
      · rintro ⟨htn, heq | hmem⟩
        · exact absurd (h.inj htn hs heq) ht
        · exact ⟨htn, hmem⟩
  · rcases List.mem_cons.1 hw with rfl | hw
    · exact mem_iff.2 ⟨s, hs, rfl⟩
    · exact h.word w hw

/-- **An insertion adds its word**, while there is room for its bytes. -/
theorem cookieAcInsert_spec {ac : CookieAc} {words : List Bytes} {path : ℕ → Bytes}
    (h : Trie ac words path) {data : Bytes} (hroom : ac.nnodes + data.length ≤ ac.cap) :
    ∃ ac' path', cookieAcInsert ac data = some ac' ∧ Trie ac' (data :: words) path' ∧
      ac'.cap = ac.cap ∧ ac'.nnodes ≤ ac.nnodes + data.length := by
  rw [cookieAcInsert, if_neg (Nat.pos_iff_ne_zero.1 h.pos)]
  by_cases hdata : data = []
  · subst hdata
    rw [if_pos rfl]
    have hmark := h.mark h.pos
    rw [h.root] at hmark
    exact ⟨_, path, rfl, hmark, rfl, Nat.le_refl _⟩
  · rw [if_neg hdata]
    obtain ⟨ac', s', path', hins, htrie, hs', hpath, hcap, hn⟩ := insertLoop_spec h h.pos hroom
    rw [h.root, List.nil_append] at hpath
    have hmark := htrie.mark hs'
    rw [hpath] at hmark
    exact ⟨ac'.setMatched s' true, path', by rw [hins]; rfl, hmark, hcap, hn⟩

/-! ## The breadth-first pass -/

/-- The longest suffix of `w` that a node stands for. -/
def bestPath (n : ℕ) (path : ℕ → Bytes) (w : Bytes) : Bytes := best (Mem n path) w

/-- One of the words ends where `w` ends. -/
def EndsIn (words : List Bytes) (w : Bytes) : Prop := ∃ v ∈ words, v <:+ w

/-- **The pass under way** over the trie `ac₀`: the pairs of a node and a byte that are `seen` have
their final edge, the others the edge of the trie; the nodes that were found, in the order `found`,
have their failure link and their final match flag. -/
structure Built (ac₀ : CookieAc) (words : List Bytes) (path : ℕ → Bytes) (seen : ℕ → UInt8 → Prop)
    (found : List ℕ) (ac : CookieAc) : Prop where
  same : ac.nnodes = ac₀.nnodes
  final : ∀ {s c}, seen s c → ∃ t, ac.next s c = some t ∧ t < ac₀.nnodes ∧
    path t = bestPath ac₀.nnodes path (path s ++ [c])
  fresh : ∀ {s c}, ¬ seen s c → ac.next s c = ac₀.next s c
  fail : ∀ s ∈ found, ac.fail s < ac₀.nnodes ∧
    path (ac.fail s) = bestPath ac₀.nnodes path (path s).tail
  matched : ∀ s ∈ found, (ac.matched s = true ↔ EndsIn words (path s))
  unmatched : ∀ s, s ∉ found → ac.matched s = ac₀.matched s
  node : ∀ s ∈ found, s < ac₀.nnodes ∧ s ≠ 0
  parent : ∀ s ∈ found, ∃ p c, p < ac₀.nnodes ∧ seen p c ∧ ac₀.next p c = some s
  child : ∀ {p c t}, seen p c → ac₀.next p c = some t → t ∈ found
  sorted : found.Pairwise fun s t => (path s).length ≤ (path t).length
  nodup : found.Nodup

section Pass

variable {ac₀ : CookieAc} {words : List Bytes} {path : ℕ → Bytes}

/-- The words are among what the nodes stand for, so the longest suffix has all that end there. -/
theorem Trie.endsIn_best (h : Trie ac₀ words path) (w : Bytes) :
    EndsIn words (bestPath ac₀.nnodes path w) ↔ EndsIn words w := by
  constructor
  · rintro ⟨v, hv, hsuffix⟩
    exact ⟨v, hv, hsuffix.trans (best_suffix w)⟩
  · rintro ⟨v, hv, hsuffix⟩
    exact ⟨v, hv, (suffix_best (h.word v hv)).2 hsuffix⟩

/-- The next byte: the longest suffix so far is enough. -/
theorem Trie.best_step (h : Trie ac₀ words path) {f : ℕ} {u : Bytes}
    (hf : path f = bestPath ac₀.nnodes path u) (c : UInt8) :
    bestPath ac₀.nnodes path (u ++ [c]) = bestPath ac₀.nnodes path (path f ++ [c]) := by
  rw [hf]
  exact best_snoc h.nil_mem h.closed u c

/-- Where a node has no edge in the trie, the longest suffix is that of its failure link. -/
theorem Trie.best_missing (h : Trie ac₀ words path) {s f : ℕ} {c : UInt8} (hs : s < ac₀.nnodes)
    (hne : path s ≠ []) (hc : ac₀.next s c = none)
    (hf : path f = bestPath ac₀.nnodes path (path s).tail) :
    bestPath ac₀.nnodes path (path s ++ [c]) = bestPath ac₀.nnodes path (path f ++ [c]) := by
  rw [← h.best_step hf]
  obtain ⟨x, xs, hpath⟩ := List.exists_cons_of_ne_nil hne
  have hnot := h.not_mem hs hc
  rw [hpath] at hnot ⊢
  exact best_of_not_mem hnot

/-- Only the root stands for nothing. -/
theorem Trie.path_ne_nil (h : Trie ac₀ words path) {s : ℕ} (hs : s < ac₀.nnodes) (hne : s ≠ 0) :
    path s ≠ [] := fun hnil => hne (h.inj hs h.pos (hnil.trans h.root.symm))

variable {seen : ℕ → UInt8 → Prop} {found : List ℕ} {ac : CookieAc}

/-- A child of a pair that was not seen was not found. -/
theorem Built.not_found (h : Built ac₀ words path seen found ac) (htrie : Trie ac₀ words path)
    {s : ℕ} {c : UInt8} {t : ℕ} (hs : s < ac₀.nnodes) (hseen : ¬ seen s c)
    (hc : ac₀.next s c = some t) : t ∉ found := by
  intro ht
  obtain ⟨p, d, hp, hpd, hedge⟩ := h.parent t ht
  have heq := (htrie.edge hp hedge).2.symm.trans (htrie.edge hs hc).2
  obtain ⟨hps, hdc⟩ := List.append_inj' heq rfl
  obtain rfl := htrie.inj hp hs hps
  obtain rfl := List.singleton_inj.1 hdc
  exact hseen hpd

/-- **A missing edge is filled in.** -/
theorem Built.fill (h : Built ac₀ words path seen found ac) {s : ℕ} {c : UInt8} {t : ℕ}
    (hc : ac₀.next s c = none) (ht : t < ac₀.nnodes)
    (hbest : path t = bestPath ac₀.nnodes path (path s ++ [c])) :
    Built ac₀ words path (fun s' c' => seen s' c' ∨ (s' = s ∧ c' = c)) found
      (ac.setNext s c (some t)) := by
  refine ⟨h.same, fun {s' c'} hseen => ?_, fun {s' c'} hseen => ?_, h.fail, h.matched, h.unmatched,
    h.node, fun u hu => ?_, fun {p d u} hseen hedge => ?_, h.sorted, h.nodup⟩
  · show ∃ u, (if s' = s ∧ c' = c then some t else ac.next s' c') = some u ∧ _
    by_cases heq : s' = s ∧ c' = c
    · obtain ⟨rfl, rfl⟩ := heq
      exact ⟨t, if_pos ⟨rfl, rfl⟩, ht, hbest⟩
    · rw [if_neg heq]
      exact h.final (hseen.resolve_right heq)
  · show (if s' = s ∧ c' = c then some t else ac.next s' c') = _
    rw [not_or] at hseen
    rw [if_neg hseen.2]
    exact h.fresh hseen.1
  · obtain ⟨p, d, hp, hseen, hedge⟩ := h.parent u hu
    exact ⟨p, d, hp, Or.inl hseen, hedge⟩
  · rcases hseen with hseen | ⟨rfl, rfl⟩
    · exact h.child hseen hedge
    · rw [hc] at hedge
      cases hedge

/-- **A child is found**, with its failure link and its match flag. -/
theorem Built.find (h : Built ac₀ words path seen found ac) (htrie : Trie ac₀ words path)
    {s : ℕ} {c : UInt8} {t f : ℕ} {b : Bool} (hs : s < ac₀.nnodes) (hseen : ¬ seen s c)
    (hc : ac₀.next s c = some t) (hf : f < ac₀.nnodes)
    (hfail : path f = bestPath ac₀.nnodes path (path t).tail)
    (hmatched : b = true ↔ EndsIn words (path t))
    (hlong : ∀ u ∈ found, (path u).length ≤ (path s).length + 1) :
    Built ac₀ words path (fun s' c' => seen s' c' ∨ (s' = s ∧ c' = c)) (found ++ [t])
      ((ac.setFail t f).setMatched t b) := by
  have hnew : t ∉ found := h.not_found htrie hs hseen hc
  obtain ⟨ht, hpath⟩ := htrie.edge hs hc
  have hne : t ≠ 0 := by
    rintro rfl
    rw [htrie.root] at hpath
    exact List.append_ne_nil_of_right_ne_nil _ (by nofun) hpath.symm
  have hother : ∀ u ∈ found, u ≠ t := fun u hu heq => hnew (heq ▸ hu)
  refine ⟨h.same, fun {s' c'} hs' => ?_, fun {s' c'} hs' => ?_, fun u hu => ?_, fun u hu => ?_,
    fun u hu => ?_, fun u hu => ?_, fun u hu => ?_, fun {p d u} hp hedge => ?_, ?_, ?_⟩
  · rcases hs' with hs' | ⟨rfl, rfl⟩
    · exact h.final hs'
    · refine ⟨t, (h.fresh hseen).trans hc, ht, ?_⟩
      rw [← hpath]
      exact (best_of_mem (mem_iff.2 ⟨t, ht, rfl⟩)).symm
  · rw [not_or] at hs'
    exact h.fresh hs'.1
  · show (if u = t then f else ac.fail u) < _ ∧ path (if u = t then f else ac.fail u) = _
    rcases List.mem_append.1 hu with hu | hu
    · rw [if_neg (hother u hu)]
      exact h.fail u hu
    · obtain rfl := List.mem_singleton.1 hu
      rw [if_pos rfl]
      exact ⟨hf, hfail⟩
  · show (if u = t then b else ac.matched u) = true ↔ _
    rcases List.mem_append.1 hu with hu | hu
    · rw [if_neg (hother u hu)]
      exact h.matched u hu
    · obtain rfl := List.mem_singleton.1 hu
      rw [if_pos rfl]
      exact hmatched
  · show (if u = t then b else ac.matched u) = _
    rw [List.mem_append, List.mem_singleton, not_or] at hu
    rw [if_neg hu.2]
    exact h.unmatched u hu.1
  · rcases List.mem_append.1 hu with hu | hu
    · exact h.node u hu
    · obtain rfl := List.mem_singleton.1 hu
      exact ⟨ht, hne⟩
  · rcases List.mem_append.1 hu with hu | hu
    · obtain ⟨p, d, hp, hpd, hedge⟩ := h.parent u hu
      exact ⟨p, d, hp, Or.inl hpd, hedge⟩
    · obtain rfl := List.mem_singleton.1 hu
      exact ⟨s, c, hs, Or.inr ⟨rfl, rfl⟩, hc⟩
  · rcases hp with hp | ⟨rfl, rfl⟩
    · exact List.mem_append_left _ (h.child hp hedge)
    · rw [hc] at hedge
      exact List.mem_append_right _ (List.mem_singleton.2 (Option.some.inj hedge).symm)
  · refine List.pairwise_append.2 ⟨h.sorted, List.pairwise_singleton _ _, fun u hu v hv => ?_⟩
    obtain rfl := List.mem_singleton.1 hv
    rw [hpath, List.length_append]
    exact hlong u hu
  · exact List.nodup_append.2 ⟨h.nodup, List.nodup_singleton t, fun u hu v hv heq => by
      obtain rfl := List.mem_singleton.1 hv
      exact hnew (heq ▸ hu)⟩

/-- The order of the seen pairs does not matter. -/
theorem Built.congr (h : Built ac₀ words path seen found ac) {seen' : ℕ → UInt8 → Prop}
    (hiff : ∀ s c, seen s c ↔ seen' s c) : Built ac₀ words path seen' found ac := by
  have heq : seen = seen' := funext fun s => funext fun c => propext (hiff s c)
  exact heq ▸ h

/-- **One byte at the root.** -/
theorem rootStep_built (htrie : Trie ac₀ words path) (hwords : [] ∉ words)
    {queue : List ℕ} {c : UInt8} (h : Built ac₀ words path seen queue ac)
    (honly : ∀ s d, seen s d → s = 0) (hseen : ¬ seen 0 c) :
    Built ac₀ words path (fun s' c' => seen s' c' ∨ (s' = 0 ∧ c' = c))
      (rootStep (ac, queue) c).2 (rootStep (ac, queue) c).1 := by
  have hfresh : ac.next 0 c = ac₀.next 0 c := h.fresh hseen
  have hbest : ∀ w : Bytes, bestPath ac₀.nnodes path w = [] → path 0 = bestPath ac₀.nnodes path w :=
    fun w hw => htrie.root.trans hw.symm
  unfold rootStep
  dsimp only
  rcases hc : ac₀.next 0 c with _ | t
  · rw [hfresh, hc]
    refine h.fill hc htrie.pos (hbest _ ?_)
    have hnot := htrie.not_mem htrie.pos hc
    rw [htrie.root, List.nil_append] at hnot ⊢
    exact best_of_not_mem hnot
  · rw [hfresh, hc]
    obtain ⟨ht, hpath⟩ := htrie.edge htrie.pos hc
    rw [htrie.root, List.nil_append] at hpath
    have hnew := h.not_found htrie htrie.pos hseen hc
    have hmatched : ac.matched t = true ↔ EndsIn words (path t) := by
      rw [h.unmatched t hnew, htrie.matched, hpath]
      constructor
      · exact fun hm => ⟨[c], hm.2, List.suffix_rfl⟩
      · rintro ⟨v, hv, hsuffix⟩
        rcases List.suffix_cons_iff.1 hsuffix with rfl | hsuffix
        · exact ⟨ht, hv⟩
        · rw [List.suffix_nil.1 hsuffix] at hv
          exact absurd hv hwords
    have hlong : ∀ u ∈ queue, (path u).length ≤ (path 0).length + 1 := fun u hu => by
      obtain ⟨p, d, hp, hpd, hedge⟩ := h.parent u hu
      obtain rfl := honly p d hpd
      rw [(htrie.edge hp hedge).2, List.length_append]
      exact Nat.le_refl _
    have hfound := h.find htrie htrie.pos hseen hc htrie.pos
      (hbest _ (by rw [hpath]; rfl)) hmatched hlong
    have hsame : (ac.setFail t 0).setMatched t (ac.matched t) = ac.setFail t 0 := by
      have hflags : (fun s => if s = t then ac.matched t else ac.matched s) = ac.matched := by
        funext s
        split
        · rename_i heq
          rw [heq]
        · rfl
      show CookieAc.mk _ _ (fun s => if s = t then ac.matched t else ac.matched s) _ _ = _
      rw [hflags]
      rfl
    rw [hsame] at hfound
    exact hfound

/-- A word ends where the bytes of a node end: the bytes are a word, or one ends in the rest. -/
theorem endsIn_iff {w : Bytes} (hne : w ≠ []) :
    EndsIn words w ↔ w ∈ words ∨ EndsIn words w.tail := by
  obtain ⟨x, xs, rfl⟩ := List.exists_cons_of_ne_nil hne
  constructor
  · rintro ⟨v, hv, hsuffix⟩
    rcases List.suffix_cons_iff.1 hsuffix with rfl | hsuffix
    · exact Or.inl hv
    · exact Or.inr ⟨v, hv, hsuffix⟩
  · rintro (hmem | ⟨v, hv, hsuffix⟩)
    · exact ⟨_, hmem, List.suffix_rfl⟩
    · exact ⟨v, hv, hsuffix.trans (List.suffix_cons x xs)⟩

/-- The flag of a node that was found, or of the root, is final. -/
theorem Built.flag (h : Built ac₀ words path seen found ac) (htrie : Trie ac₀ words path)
    (hwords : [] ∉ words) {s : ℕ} (hs : s = 0 ∨ s ∈ found) :
    ac.matched s = true ↔ EndsIn words (path s) := by
  rcases hs with rfl | hs
  · rw [h.unmatched 0 fun hmem => (h.node 0 hmem).2 rfl, htrie.matched, htrie.root]
    constructor
    · exact fun hm => absurd hm.2 hwords
    · rintro ⟨v, hv, hsuffix⟩
      rw [List.suffix_nil.1 hsuffix] at hv
      exact absurd hv hwords
  · exact h.matched s hs

/-- **One byte at a node**, when everything shorter is final and everything as short is found. -/
theorem childStep_built (htrie : Trie ac₀ words path) (hwords : [] ∉ words)
    {front queue : List ℕ} {x : ℕ} {c : UInt8} (h : Built ac₀ words path seen (front ++ queue) ac)
    (hx : x ∈ front) (hseen : ¬ seen x c)
    (hfinal : ∀ s < ac₀.nnodes, (path s).length < (path x).length → seen s c)
    (hfound : ∀ s < ac₀.nnodes, s ≠ 0 → (path s).length ≤ (path x).length → s ∈ front ++ queue)
    (hlong : ∀ u ∈ front ++ queue, (path u).length ≤ (path x).length + 1) :
    Built ac₀ words path (fun s' c' => seen s' c' ∨ (s' = x ∧ c' = c))
      (front ++ (childStep x (ac, queue) c).2) (childStep x (ac, queue) c).1 := by
  have hxmem : x ∈ front ++ queue := List.mem_append_left _ hx
  obtain ⟨hxn, hx0⟩ := h.node x hxmem
  have hxne := htrie.path_ne_nil hxn hx0
  obtain ⟨hf, hfpath⟩ := h.fail x hxmem
  have hshorter : (path (ac.fail x)).length < (path x).length := by
    have hle := (best_suffix (T := Mem ac₀.nnodes path) (path x).tail).length_le
    rw [hfpath]
    have hpos := List.length_pos_iff.2 hxne
    rw [List.length_tail] at hle
    unfold bestPath
    omega
  obtain ⟨g, hg, hgn, hgpath⟩ := h.final (hfinal _ hf hshorter)
  have hfresh : ac.next x c = ac₀.next x c := h.fresh hseen
  unfold childStep
  dsimp only
  rcases hc : ac₀.next x c with _ | t
  · rw [hfresh, hc]
    dsimp only
    rw [hg]
    exact h.fill hc hgn (hgpath.trans (htrie.best_missing hxn hxne hc hfpath).symm)
  · rw [hfresh, hc]
    dsimp only
    rw [hg, Option.getD_some]
    obtain ⟨ht, hpath⟩ := htrie.edge hxn hc
    have htail : (path t).tail = (path x).tail ++ [c] := by
      rw [hpath, List.tail_append_of_ne_nil hxne]
    have hgtail : path g = bestPath ac₀.nnodes path (path t).tail := by
      rw [hgpath, htail, htrie.best_step hfpath]
    have hgflag : ac.matched g = true ↔ EndsIn words (path g) := by
      refine h.flag htrie hwords ?_
      by_cases hg0 : g = 0
      · exact Or.inl hg0
      · refine Or.inr (hfound g hgn hg0 ?_)
        have hle := (best_suffix (T := Mem ac₀.nnodes path) (path (ac.fail x) ++ [c])).length_le
        rw [hgpath]
        rw [List.length_append, List.length_singleton] at hle
        unfold bestPath
        omega
    have hnew := h.not_found htrie hxn hseen hc
    have htne : path t ≠ [] := by
      rw [hpath]
      exact List.append_ne_nil_of_right_ne_nil _ (by nofun)
    have htflag : ac.matched t = true ↔ path t ∈ words := by
      rw [h.unmatched t hnew, htrie.matched]
      exact and_iff_right ht
    have hmatched : (ac.matched t || ac.matched g) = true ↔ EndsIn words (path t) := by
      rw [Bool.or_eq_true, endsIn_iff htne, htflag, hgflag, hgtail, htrie.endsIn_best]
    have hfind := h.find htrie hxn hseen hc hgn hgtail hmatched hlong
    have hsame : (if (ac.setFail t g).matched g = true then (ac.setFail t g).setMatched t true
        else ac.setFail t g) = (ac.setFail t g).setMatched t (ac.matched t || ac.matched g) := by
      show (if ac.matched g = true then _ else _) = _
      by_cases hflag : ac.matched g = true
      · rw [if_pos hflag, hflag, Bool.or_true]
      · have hno : ac.matched g = false := by simpa using hflag
        rw [if_neg hflag, hno, Bool.or_false]
        have hflags : (fun s => if s = t then ac.matched t else ac.matched s) = ac.matched := by
          funext s
          split
          · rename_i heq
            rw [heq]
          · rfl
        show _ = CookieAc.mk _ _ (fun s => if s = t then ac.matched t else ac.matched s) _ _
        rw [hflags]
        rfl
    rw [hsame, ← List.append_assoc]
    exact hfind

/-- A node whose bytes are all processed. -/
def Done (done : List ℕ) (s : ℕ) : Prop := s = 0 ∨ s ∈ done

/-- **What is shorter than the next node of the queue** is processed, what is as short is found,
and nothing found is longer by more than a byte. -/
theorem Built.shallow {done queue : List ℕ} {x : ℕ} (htrie : Trie ac₀ words path)
    (h : Built ac₀ words path (fun s _ => Done done s) (done ++ x :: queue) ac) :
    (∀ s < ac₀.nnodes, (path s).length < (path x).length → Done done s) ∧
      (∀ s < ac₀.nnodes, s ≠ 0 → (path s).length ≤ (path x).length → s ∈ done ++ x :: queue) ∧
        ∀ u ∈ done ++ x :: queue, (path u).length ≤ (path x).length + 1 := by
  have hsorted := h.sorted
  rw [List.pairwise_append, List.pairwise_cons] at hsorted
  obtain ⟨-, ⟨hqueue, -⟩, hdone⟩ := hsorted
  have hshort : ∀ k, ∀ s < ac₀.nnodes, (path s).length = k → (path s).length < (path x).length →
      Done done s := by
    intro k
    induction k using Nat.strong_induction_on with
    | h k ih =>
      intro s hs hk hlt
      by_cases hs0 : s = 0
      · exact Or.inl hs0
      · obtain ⟨p, c, hp, hedge⟩ := htrie.parent hs hs0
        have hlen : (path s).length = (path p).length + 1 := by
          rw [(htrie.edge hp hedge).2, List.length_append, List.length_singleton]
        have hmem := h.child (ih (path p).length (by omega) p hp rfl (by omega)) hedge
        rcases List.mem_append.1 hmem with hmem | hmem
        · exact Or.inr hmem
        · rcases List.mem_cons.1 hmem with rfl | hmem
          · exact absurd hlt (Nat.lt_irrefl _)
          · exact absurd hlt (Nat.not_lt.2 (hqueue s hmem))
  refine ⟨fun s hs hlt => hshort _ s hs rfl hlt, fun s hs hs0 hle => ?_, fun u hu => ?_⟩
  · obtain ⟨p, c, hp, hedge⟩ := htrie.parent hs hs0
    have hlen : (path s).length = (path p).length + 1 := by
      rw [(htrie.edge hp hedge).2, List.length_append, List.length_singleton]
    exact h.child (hshort _ p hp rfl (by omega)) hedge
  · obtain ⟨p, c, hp, hseen, hedge⟩ := h.parent u hu
    have hlen : (path u).length = (path p).length + 1 := by
      rw [(htrie.edge hp hedge).2, List.length_append, List.length_singleton]
    rcases hseen with rfl | hseen
    · rw [hlen, htrie.root]
      exact Nat.le_add_left _ _
    · have hle := hdone p hseen x List.mem_cons_self
      omega

/-- **All bytes at a node.** -/
theorem childSteps_built (htrie : Trie ac₀ words path) (hwords : [] ∉ words) {done front : List ℕ}
    {x : ℕ} (hx : x ∈ front) (hdone : ¬ Done done x)
    (hfinal : ∀ s < ac₀.nnodes, (path s).length < (path x).length → Done done s) :
    ∀ (cs ds : List UInt8) (queue : List ℕ) (ac : CookieAc), (ds ++ cs).Nodup →
      Built ac₀ words path (fun s d => Done done s ∨ (s = x ∧ d ∈ ds)) (front ++ queue) ac →
      (∀ s < ac₀.nnodes, s ≠ 0 → (path s).length ≤ (path x).length → s ∈ front ++ queue) →
      (∀ u ∈ front ++ queue, (path u).length ≤ (path x).length + 1) →
      Built ac₀ words path (fun s d => Done done s ∨ (s = x ∧ d ∈ ds ++ cs))
        (front ++ (cs.foldl (childStep x) (ac, queue)).2) (cs.foldl (childStep x) (ac, queue)).1
  | [], ds, queue, ac, _, h, _, _ => by
      rw [List.append_nil]
      exact h
  | c :: cs, ds, queue, ac, hnodup, h, hfound, hlong => by
      have hnotmem : c ∉ ds := fun hmem =>
        (List.nodup_append.1 hnodup).2.2 c hmem c List.mem_cons_self rfl
      have hseen : ¬ (Done done x ∨ (x = x ∧ c ∈ ds)) := by
        rintro (hd | ⟨-, hmem⟩)
        · exact hdone hd
        · exact hnotmem hmem
      have hstep := childStep_built htrie hwords h hx hseen
        (fun s hs hlt => Or.inl (hfinal s hs hlt)) hfound hlong
      have hxn := (h.node x (List.mem_append_left _ hx)).1
      -- what the step adds to the queue is a child
      have hgrown : (childStep x (ac, queue) c).2 = queue ∨
          ∃ t, (childStep x (ac, queue) c).2 = queue ++ [t] ∧ ac.next x c = some t := by
        unfold childStep
        dsimp only
        rcases ac.next x c with _ | t
        · exact Or.inl rfl
        · exact Or.inr ⟨t, rfl, rfl⟩
      have hfresh : ac.next x c = ac₀.next x c := h.fresh hseen
      have hstep' : Built ac₀ words path (fun s d => Done done s ∨ (s = x ∧ d ∈ ds ++ [c]))
          (front ++ (childStep x (ac, queue) c).2) (childStep x (ac, queue) c).1 :=
        hstep.congr fun s d => by
          rw [List.mem_append, List.mem_singleton]
          tauto
      have hrest := childSteps_built htrie hwords hx hdone hfinal cs (ds ++ [c])
        (childStep x (ac, queue) c).2 (childStep x (ac, queue) c).1
        (by rw [List.append_assoc]; exact hnodup) hstep' (fun s hs hs0 hle => ?_) (fun u hu => ?_)
      · rw [List.append_assoc] at hrest
        exact hrest
      · rcases hgrown with heq | ⟨t, heq, -⟩ <;> rw [heq]
        · exact hfound s hs hs0 hle
        · rw [← List.append_assoc]
          exact List.mem_append_left _ (hfound s hs hs0 hle)
      · rcases hgrown with heq | ⟨t, heq, hedge⟩ <;> rw [heq] at hu
        · exact hlong u hu
        · rw [← List.append_assoc] at hu
          rcases List.mem_append.1 hu with hu | hu
          · exact hlong u hu
          · obtain rfl := List.mem_singleton.1 hu
            rw [hfresh] at hedge
            rw [(htrie.edge hxn hedge).2, List.length_append]
            exact Nat.le_refl _

theorem allBytes_nodup : allBytes.Nodup := by
  refine List.Nodup.map_on (fun a ha b hb heq => ?_) List.nodup_range
  rw [List.mem_range] at ha hb
  have hval : (UInt8.ofNat a).toNat = (UInt8.ofNat b).toNat := congrArg UInt8.toNat heq
  rw [UInt8.toNat_ofNat', UInt8.toNat_ofNat'] at hval
  omega

theorem mem_allBytes (c : UInt8) : c ∈ allBytes :=
  List.mem_map.2 ⟨c.toNat, List.mem_range.2 c.toNat_lt, UInt8.ofNat_toNat⟩

/-- **The queue runs empty**, with everything that was found processed. -/
theorem finishLoop_built (htrie : Trie ac₀ words path) (hwords : [] ∉ words) :
    ∀ (fuel : ℕ) (done queue : List ℕ) (ac : CookieAc), ac₀.nnodes ≤ fuel + done.length + 1 →
      Built ac₀ words path (fun s _ => Done done s) (done ++ queue) ac →
      ∃ done', Built ac₀ words path (fun s _ => Done done' s) done' (finishLoop fuel (ac, queue)) := by
  have hfew : ∀ {found : List ℕ} {seen : ℕ → UInt8 → Prop} {ac : CookieAc},
      Built ac₀ words path seen found ac → found.length + 1 ≤ ac₀.nnodes := by
    intro found seen ac h
    have hsub : found ⊆ List.range' 1 (ac₀.nnodes - 1) := fun s hs => by
      obtain ⟨hn, h0⟩ := h.node s hs
      rw [List.mem_range'_1]
      omega
    have hle := (List.subperm_of_subset h.nodup hsub).length_le
    rw [List.length_range'] at hle
    have hpos := htrie.pos
    omega
  intro fuel
  induction fuel with
  | zero =>
    intro done queue ac hfuel h
    have hlen := hfew h
    rw [List.length_append] at hlen
    obtain rfl : queue = [] := List.length_eq_zero_iff.1 (by omega)
    rw [List.append_nil] at h
    exact ⟨done, h⟩
  | succ fuel ih =>
    intro done queue ac hfuel h
    rcases queue with _ | ⟨x, queue⟩
    · rw [List.append_nil] at h
      exact ⟨done, h⟩
    · have hxmem : x ∈ done ++ x :: queue := List.mem_append_right _ List.mem_cons_self
      have hdone : ¬ Done done x := by
        rintro (h0 | hmem)
        · exact (h.node x hxmem).2 h0
        · exact (List.nodup_append.1 h.nodup).2.2 x hmem x List.mem_cons_self rfl
      obtain ⟨hfinal, hfound, hlong⟩ := h.shallow htrie
      have happend : done ++ x :: queue = (done ++ [x]) ++ queue := by
        rw [List.append_assoc]
        rfl
      rw [happend] at h hfound hlong
      have hsteps := childSteps_built htrie hwords (List.mem_append_right done List.mem_cons_self)
        hdone hfinal allBytes [] queue ac allBytes_nodup
        (h.congr fun s d => ⟨Or.inl, fun hs => hs.resolve_right (by rintro ⟨-, hd⟩; cases hd)⟩)
        hfound hlong
      rw [finishLoop]
      generalize allBytes.foldl (childStep x) (ac, queue) = p at hsteps ⊢
      obtain ⟨ac', queue'⟩ := p
      have hseen : Built ac₀ words path (fun s _ => Done (done ++ [x]) s)
          ((done ++ [x]) ++ queue') ac' := hsteps.congr fun s d => by
        constructor
        · rintro (hs | ⟨rfl, -⟩)
          · exact hs.imp_right (List.mem_append_left _)
          · exact Or.inr (List.mem_append_right _ List.mem_cons_self)
        · rintro (hs | hs)
          · exact Or.inl (Or.inl hs)
          · rcases List.mem_append.1 hs with hs | hs
            · exact Or.inl (Or.inr hs)
            · exact Or.inr ⟨List.mem_singleton.1 hs, List.mem_append_right _ (mem_allBytes d)⟩
      refine ih (done ++ [x]) queue' ac' ?_ hseen
      rw [List.length_append, List.length_singleton]
      omega

/-- **All bytes at the root.** -/
theorem rootSteps_built (htrie : Trie ac₀ words path) (hwords : [] ∉ words) :
    ∀ (cs ds : List UInt8) (queue : List ℕ) (ac : CookieAc), (ds ++ cs).Nodup →
      Built ac₀ words path (fun s d => s = 0 ∧ d ∈ ds) queue ac →
      Built ac₀ words path (fun s d => s = 0 ∧ d ∈ ds ++ cs)
        (cs.foldl rootStep (ac, queue)).2 (cs.foldl rootStep (ac, queue)).1
  | [], ds, queue, ac, _, h => by
      rw [List.append_nil]
      exact h
  | c :: cs, ds, queue, ac, hnodup, h => by
      have hnotmem : c ∉ ds := fun hmem =>
        (List.nodup_append.1 hnodup).2.2 c hmem c List.mem_cons_self rfl
      have hstep := rootStep_built htrie hwords h (fun s d hs => hs.1) fun hs => hnotmem hs.2
      have hstep' : Built ac₀ words path (fun s d => s = 0 ∧ d ∈ ds ++ [c])
          (rootStep (ac, queue) c).2 (rootStep (ac, queue) c).1 :=
        hstep.congr fun s d => by
          rw [List.mem_append, List.mem_singleton]
          tauto
      have hrest := rootSteps_built htrie hwords cs (ds ++ [c]) _ _
        (by rw [List.append_assoc]; exact hnodup) hstep'
      rw [List.append_assoc] at hrest
      exact hrest

/-- Before the pass nothing is seen. -/
theorem built_start (ac₀ : CookieAc) (words : List Bytes) (path : ℕ → Bytes) :
    Built ac₀ words path (fun s d => s = 0 ∧ d ∈ ([] : List UInt8)) [] ac₀ :=
  ⟨rfl, fun hs => (List.not_mem_nil hs.2).elim, fun _ => rfl, nofun, nofun, fun _ _ => rfl, nofun,
    nofun, fun hs => (List.not_mem_nil hs.2).elim, .nil, .nil⟩

/-- **The automaton**: an edge leads to the longest suffix that a node stands for, and a node
matches when a word ends there. -/
structure Automaton (ac : CookieAc) (words : List Bytes) (path : ℕ → Bytes) : Prop where
  pos : 0 < ac.nnodes
  root : path 0 = []
  next : ∀ {s} (c : UInt8), s < ac.nnodes → ∃ t, ac.next s c = some t ∧ t < ac.nnodes ∧
    path t = bestPath ac.nnodes path (path s ++ [c])
  matched : ∀ {s}, s < ac.nnodes → (ac.matched s = true ↔ EndsIn words (path s))
  closed : ∀ v c, Mem ac.nnodes path (v ++ [c]) → Mem ac.nnodes path v
  word : ∀ w ∈ words, Mem ac.nnodes path w

/-- **The pass makes the automaton of the trie's words.** -/
theorem cookieAcFinish_automaton (htrie : Trie ac₀ words path) (hwords : [] ∉ words) :
    Automaton (cookieAcFinish ac₀) words path := by
  rw [cookieAcFinish, if_neg (Nat.pos_iff_ne_zero.1 htrie.pos)]
  have hroot := rootSteps_built htrie hwords allBytes [] [] ac₀ allBytes_nodup
    (built_start ac₀ words path)
  generalize allBytes.foldl rootStep (ac₀, []) = p at hroot ⊢
  obtain ⟨ac₁, queue⟩ := p
  have hseen : Built ac₀ words path (fun s _ => Done [] s) ([] ++ queue) ac₁ :=
    hroot.congr fun s d =>
      ⟨fun hs => Or.inl hs.1,
        fun hs => ⟨hs.resolve_right List.not_mem_nil, List.mem_append_right _ (mem_allBytes d)⟩⟩
  obtain ⟨done, hbuilt⟩ := finishLoop_built htrie hwords ac₀.nnodes [] queue ac₁ (by omega) hseen
  generalize finishLoop ac₀.nnodes (ac₁, queue) = ac at hbuilt ⊢
  -- every node is processed: its parent is
  have hall : ∀ k, ∀ s < ac₀.nnodes, (path s).length = k → Done done s := by
    intro k
    induction k using Nat.strong_induction_on with
    | h k ih =>
      intro s hs hk
      by_cases hs0 : s = 0
      · exact Or.inl hs0
      · obtain ⟨p, c, hp, hedge⟩ := htrie.parent hs hs0
        have hlen : (path s).length = (path p).length + 1 := by
          rw [(htrie.edge hp hedge).2, List.length_append, List.length_singleton]
        exact Or.inr (hbuilt.child (ih (path p).length (by omega) p hp rfl) hedge)
  refine ⟨?_, htrie.root, fun c hs => ?_, fun {s} hs => ?_, ?_, ?_⟩
  · rw [hbuilt.same]
    exact htrie.pos
  · rw [hbuilt.same] at hs ⊢
    exact hbuilt.final (hall _ _ hs rfl)
  · rw [hbuilt.same] at hs
    exact hbuilt.flag htrie hwords (hall _ _ hs rfl)
  · rw [hbuilt.same]
    exact htrie.closed
  · rw [hbuilt.same]
    exact htrie.word

end Pass

/-! ## The scan -/

/-- **The loop of the scan** looks for a word that ends in what is still to come. -/
theorem scanLoop_iff {ac : CookieAc} {words : List Bytes} {path : ℕ → Bytes}
    (h : Automaton ac words path) :
    ∀ {rest : Bytes} {read : Bytes} {s : ℕ}, s < ac.nnodes →
      path s = bestPath ac.nnodes path read → (0 : UInt8) ∉ rest →
      (scanLoop ac s rest = true ↔ ∃ u v, rest = u ++ v ∧ u ≠ [] ∧ EndsIn words (read ++ u))
  | [], read, s, _, _, _ => by
      constructor
      · nofun
      · rintro ⟨u, v, heq, hu, -⟩
        exact absurd (List.append_eq_nil_iff.1 heq.symm).1 hu
  | c :: cs, read, s, hs, hpath, hnul => by
      rw [List.mem_cons, not_or] at hnul
      obtain ⟨t, hnext, ht, htpath⟩ := h.next c hs
      have hnil : Mem ac.nnodes path [] := mem_iff.2 ⟨0, h.pos, h.root⟩
      have hread : path t = bestPath ac.nnodes path (read ++ [c]) := by
        rw [htpath, hpath]
        exact (best_snoc hnil h.closed read c).symm
      have hends : ac.matched t = true ↔ EndsIn words (read ++ [c]) := by
        rw [h.matched ht, hread]
        constructor
        · rintro ⟨v, hv, hsuffix⟩
          exact ⟨v, hv, hsuffix.trans (best_suffix _)⟩
        · rintro ⟨v, hv, hsuffix⟩
          exact ⟨v, hv, (suffix_best (h.word v hv)).2 hsuffix⟩
      rw [scanLoop, if_neg (Ne.symm hnul.1), hnext, Option.getD_some]
      dsimp only
      by_cases hflag : ac.matched t = true
      · rw [if_pos hflag]
        exact ⟨fun _ => ⟨[c], cs, rfl, by nofun, hends.1 hflag⟩, fun _ => rfl⟩
      · rw [if_neg hflag, scanLoop_iff h ht hread hnul.2]
        constructor
        · rintro ⟨u, v, rfl, -, hu⟩
          exact ⟨c :: u, v, rfl, by nofun, by rw [List.append_assoc] at hu; exact hu⟩
        · rintro ⟨u, v, heq, hu, hword⟩
          obtain ⟨x, xs, rfl⟩ := List.exists_cons_of_ne_nil hu
          obtain ⟨rfl, rfl⟩ := List.cons.inj heq
          by_cases hxs : xs = []
          · subst hxs
            exact absurd (hends.2 hword) hflag
          · exact ⟨xs, v, rfl, hxs, by rw [List.append_assoc]; exact hword⟩

/-- **A scan finds a word wherever it stands** in a line without NUL. -/
theorem cookieAcScanOne_iff {ac : CookieAc} {words : List Bytes} {path : ℕ → Bytes}
    (h : Automaton ac words path) (hwords : [] ∉ words) {data : Bytes}
    (hnul : (0 : UInt8) ∉ data) : cookieAcScanOne ac data = true ↔ ∃ w ∈ words, w <:+: data := by
  have hroot : ¬ ac.matched 0 = true := by
    rw [h.matched h.pos, h.root]
    rintro ⟨v, hv, hsuffix⟩
    rw [List.suffix_nil.1 hsuffix] at hv
    exact hwords hv
  rw [cookieAcScanOne]
  by_cases hdata : data = []
  · subst hdata
    rw [if_pos (Or.inr rfl)]
    constructor
    · nofun
    · rintro ⟨w, hw, hinfix⟩
      rw [List.infix_nil.1 hinfix] at hw
      exact absurd hw hwords
  rw [if_neg (by rintro (h0 | hnil); exacts [Nat.pos_iff_ne_zero.1 h.pos h0, hdata hnil]),
    if_neg hroot, scanLoop_iff h h.pos (show path 0 = bestPath ac.nnodes path [] from h.root) hnul]
  constructor
  · rintro ⟨u, v, rfl, -, w, hw, ⟨a, ha⟩⟩
    rw [List.nil_append] at ha
    exact ⟨w, hw, a, v, by rw [ha]⟩
  · rintro ⟨w, hw, a, v, rfl⟩
    refine ⟨a ++ w, v, rfl, fun hnil => ?_, w, hw, a, rfl⟩
    rw [(List.append_eq_nil_iff.1 hnil).2] at hw
    exact hwords hw

end Match
end CacheTurbo
