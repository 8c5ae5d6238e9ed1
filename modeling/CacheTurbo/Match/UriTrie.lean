/-
# The trie of URI prefixes

The URI prefixes of the enabled presets, one at a time
(`ngx_http_cache_turbo_uri_prefix`) and as the trie that is built of them at
configuration time (`ngx_http_cache_turbo_uri_trie_add`, `_uri_trie_match` in
`ngx_http_cache_turbo_match.c`).  The edges of a node are a list, the newest first.
-/

import CacheTurbo.Lib.Bytes
import Mathlib.Tactic.Common

namespace CacheTurbo
namespace Match

/-! ## The source -/

/-- `ngx_strncmp(a, b, n) == 0` for `a` and `b` of `n` bytes: the comparison ends at a NUL. -/
def strncmpEq : Bytes → Bytes → Bool
  | [], [] => true
  | a :: as, b :: bs => a == b && (a == 0 || strncmpEq as bs)
  | _, _ => false

/-- `next == '/' || next == '.'`. -/
def atBoundary (next : UInt8) : Bool := next == 47 || next == 46

/-- `ngx_http_cache_turbo_uri_prefix`, for a prefix that is not empty. -/
def uriPrefix (uri pfx : Bytes) : Bool :=
  if uri.length < pfx.length ∨ strncmpEq (uri.take pfx.length) pfx = false then false
  else
    match uri.drop pfx.length with
    | [] => true
    | next :: _ => if pfx.getLast? = some 47 then true else atBoundary next

/-- `ngx_http_cache_turbo_uri_node_t`: the terminal flags and the edges. -/
inductive UriNode
  | mk (terminal slashTerminal : Bool) (edges : List (UInt8 × UriNode))

namespace UriNode

/-- `pcalloc`. -/
def blank : UriNode := .mk false false []

def terminal : UriNode → Bool
  | .mk t _ _ => t

def slashTerminal : UriNode → Bool
  | .mk _ s _ => s

def edges : UriNode → List (UInt8 × UriNode)
  | .mk _ _ es => es

end UriNode

/-- The walk along the siblings. -/
def edgeFind : List (UInt8 × UriNode) → UInt8 → Option UriNode
  | [], _ => none
  | e :: es, ch => if e.1 = ch then some e.2 else edgeFind es ch

/-- `ngx_http_cache_turbo_uri_edge_find`. -/
def uriEdgeFind (node : UriNode) (ch : UInt8) : Option UriNode := edgeFind node.edges ch

/-- The node under the first edge for `ch` is another. -/
def edgeSet : List (UInt8 × UriNode) → UInt8 → UriNode → List (UInt8 × UriNode)
  | [], _, _ => []
  | e :: es, ch, child => if e.1 = ch then (e.1, child) :: es else e :: edgeSet es ch child

/-- The loop of `ngx_http_cache_turbo_uri_trie_add`; `slash` is whether the whole prefix ends
in `/`. -/
def trieAddLoop (slash : Bool) : Bytes → UriNode → UriNode
  | [], .mk _ s es => .mk true (s || slash) es
  | c :: cs, .mk t s es =>
      match edgeFind es c with
      | some child => .mk t s (edgeSet es c (trieAddLoop slash cs child))
      | none => .mk t s ((c, trieAddLoop slash cs .blank) :: es)

/-- `ngx_http_cache_turbo_uri_trie_add`. -/
def uriTrieAdd (root : UriNode) (data : Bytes) : UriNode :=
  trieAddLoop (decide (data.getLast? = some 47)) data root

/-- `ngx_http_cache_turbo_uri_trie_match`, from a node on. -/
def uriTrieMatch (node : UriNode) : Bytes → Bool
  | [] => false
  | c :: cs =>
      match uriEdgeFind node c with
      | none => false
      | some node =>
          if node.terminal = false then uriTrieMatch node cs
          else if node.slashTerminal = true then true
          else
            match cs with
            | [] => true
            | next :: _ => if atBoundary next then true else uriTrieMatch node cs

/-! ## What a trie holds -/

/-- Without NUL a comparison is an equation. -/
theorem strncmpEq_iff {a b : Bytes} (h : (0 : UInt8) ∉ a) : strncmpEq a b = true ↔ a = b := by
  induction a generalizing b with
  | nil => cases b <;> simp [strncmpEq]
  | cons x xs ih =>
    rw [List.mem_cons, not_or] at h
    cases b with
    | nil => simp [strncmpEq]
    | cons y ys =>
      have hx : (x == 0) = false := by simpa using Ne.symm h.1
      rw [strncmpEq, hx, Bool.false_or, Bool.and_eq_true, beq_iff_eq, ih h.2, List.cons.injEq]

/-- The flags of the node that `w` leads to. -/
def flagsAt (node : UriNode) : Bytes → Bool × Bool
  | [] => (node.terminal, node.slashTerminal)
  | c :: cs =>
      match uriEdgeFind node c with
      | none => (false, false)
      | some child => flagsAt child cs

theorem edgeFind_set {es : List (UInt8 × UriNode)} {ch : UInt8} {old child : UriNode}
    (h : edgeFind es ch = some old) (d : UInt8) :
    edgeFind (edgeSet es ch child) d = if d = ch then some child else edgeFind es d := by
  induction es with
  | nil => cases h
  | cons e es ih =>
    rw [edgeFind] at h
    rw [edgeSet]
    by_cases he : e.1 = ch
    · rw [if_pos he, edgeFind, edgeFind]
      by_cases hd : d = ch
      · rw [if_pos (he.trans hd.symm), if_pos hd]
      · rw [if_neg (fun heq => hd (heq.symm.trans he)), if_neg hd, if_neg (fun heq =>
          hd (heq.symm.trans he))]
    · rw [if_neg he] at h
      rw [if_neg he, edgeFind, edgeFind, ih h]
      by_cases hd : e.1 = d
      · rw [if_pos hd, if_pos hd, if_neg (fun heq => he (hd.trans heq))]
      · rw [if_neg hd, if_neg hd]

theorem flagsAt_blank (w : Bytes) : flagsAt .blank w = (false, false) := by
  cases w with
  | nil => rfl
  | cons c cs => rfl

/-- **An addition sets the flags of its own node**, and no others. -/
theorem flagsAt_add (slash : Bool) (data : Bytes) (node : UriNode) (w : Bytes) :
    flagsAt (trieAddLoop slash data node) w =
      if w = data then (true, (flagsAt node w).2 || slash) else flagsAt node w := by
  induction data generalizing node w with
  | nil =>
    obtain ⟨t, s, es⟩ := node
    cases w with
    | nil => rfl
    | cons d ds => rfl
  | cons c cs ih =>
    obtain ⟨t, s, es⟩ := node
    rw [trieAddLoop]
    rcases hfind : edgeFind es c with _ | child
    · cases w with
      | nil => rfl
      | cons d ds =>
        have hnew : uriEdgeFind (.mk t s ((c, trieAddLoop slash cs .blank) :: es)) d =
            if c = d then some (trieAddLoop slash cs .blank) else edgeFind es d := rfl
        have hold : uriEdgeFind (.mk t s es) d = edgeFind es d := rfl
        dsimp only
        rw [flagsAt, flagsAt, hnew, hold]
        by_cases hd : c = d
        · subst hd
          rw [if_pos rfl, hfind]
          dsimp only
          rw [ih, flagsAt_blank]
          by_cases hw : ds = cs
          · rw [if_pos hw, if_pos (by rw [hw])]
          · rw [if_neg hw, if_neg (fun heq => hw (List.cons.inj heq).2)]
        · rw [if_neg hd, if_neg (fun heq => hd (List.cons.inj heq).1.symm)]
    · cases w with
      | nil => rfl
      | cons d ds =>
        have hnew : uriEdgeFind (.mk t s (edgeSet es c (trieAddLoop slash cs child))) d =
            if d = c then some (trieAddLoop slash cs child) else edgeFind es d :=
          edgeFind_set hfind d
        have hold : uriEdgeFind (.mk t s es) d = edgeFind es d := rfl
        dsimp only
        rw [flagsAt, flagsAt, hnew, hold]
        by_cases hd : d = c
        · subst hd
          rw [if_pos rfl, hfind]
          dsimp only
          rw [ih]
          by_cases hw : ds = cs
          · rw [if_pos hw, if_pos (by rw [hw])]
          · rw [if_neg hw, if_neg (fun heq => hw (List.cons.inj heq).2)]
        · rw [if_neg hd, if_neg (fun heq => hd (List.cons.inj heq).1)]

/-- **The trie of a list of prefixes**: the terminal nodes are those of the prefixes, and the
flag for `/` is set where the prefix ends in one. -/
theorem flagsAt_foldl (prefixes : List Bytes) (root : UriNode) (w : Bytes) :
    ((flagsAt (prefixes.foldl uriTrieAdd root) w).1 = true ↔
        (flagsAt root w).1 = true ∨ w ∈ prefixes) ∧
      ((flagsAt (prefixes.foldl uriTrieAdd root) w).2 = true ↔
        (flagsAt root w).2 = true ∨ (w ∈ prefixes ∧ w.getLast? = some 47)) := by
  induction prefixes generalizing root with
  | nil => simp
  | cons p ps ih =>
    rw [List.foldl_cons]
    obtain ⟨hterminal, hslash⟩ := ih (uriTrieAdd root p)
    rw [hterminal, hslash, uriTrieAdd, flagsAt_add, List.mem_cons]
    by_cases hw : w = p
    · subst hw
      rw [if_pos rfl, Bool.or_eq_true, decide_eq_true_iff]
      tauto
    · rw [if_neg hw]
      tauto

/-- The rest of the URI after a prefix allows it: there is none, the prefix ends in `/`, or a
segment begins. -/
def Allowed (slash : Bool) (rest : Bytes) : Prop :=
  rest = [] ∨ slash = true ∨ ∃ next cs, rest = next :: cs ∧ atBoundary next = true

/-- **The walk finds a terminal node** whose rest of the URI allows it. -/
theorem uriTrieMatch_iff (node : UriNode) (uri : Bytes) :
    uriTrieMatch node uri = true ↔ ∃ u v, uri = u ++ v ∧ u ≠ [] ∧ (flagsAt node u).1 = true ∧
      Allowed (flagsAt node u).2 v := by
  induction uri generalizing node with
  | nil =>
    constructor
    · nofun
    · rintro ⟨u, v, heq, hu, -⟩
      exact absurd (List.append_eq_nil_iff.1 heq.symm).1 hu
  | cons c cs ih =>
    rw [uriTrieMatch]
    rcases hfind : uriEdgeFind node c with _ | child
    · constructor
      · nofun
      · rintro ⟨u, v, heq, hu, hflag, -⟩
        obtain ⟨x, xs, rfl⟩ := List.exists_cons_of_ne_nil hu
        obtain ⟨rfl, -⟩ := List.cons.inj heq
        rw [flagsAt, hfind] at hflag
        cases hflag
    · have hflags : ∀ u, flagsAt node (c :: u) = flagsAt child u := fun u => by
        rw [flagsAt, hfind]
      -- the prefix that ends at this node, or a longer one
      have hsplit : (∃ u v, c :: cs = u ++ v ∧ u ≠ [] ∧ (flagsAt node u).1 = true ∧
            Allowed (flagsAt node u).2 v) ↔
          (child.terminal = true ∧ Allowed child.slashTerminal cs) ∨
            uriTrieMatch child cs = true := by
        rw [ih]
        constructor
        · rintro ⟨u, v, heq, hu, hflag, hrest⟩
          obtain ⟨x, xs, rfl⟩ := List.exists_cons_of_ne_nil hu
          obtain ⟨rfl, rfl⟩ := List.cons.inj heq
          rw [hflags] at hflag hrest
          by_cases hxs : xs = []
          · subst hxs
            exact Or.inl ⟨hflag, hrest⟩
          · exact Or.inr ⟨xs, v, rfl, hxs, hflag, hrest⟩
        · rintro (⟨hflag, hrest⟩ | ⟨u, v, rfl, hu, hflag, hrest⟩)
          · exact ⟨[c], cs, rfl, by nofun, by rw [hflags]; exact hflag, by rw [hflags]; exact hrest⟩
          · exact ⟨c :: u, v, rfl, by nofun, by rw [hflags]; exact hflag,
              by rw [hflags]; exact hrest⟩
      rw [hsplit]
      dsimp only
      cases hterminal : child.terminal with
      | false =>
        rw [if_pos rfl]
        exact ⟨Or.inr, fun h => h.resolve_left fun hl => Bool.false_ne_true hl.1⟩
      | true =>
        rw [if_neg (by nofun)]
        cases hslash : child.slashTerminal with
        | true =>
          rw [if_pos rfl]
          exact ⟨fun _ => Or.inl ⟨rfl, Or.inr (Or.inl rfl)⟩, fun _ => rfl⟩
        | false =>
          rw [if_neg (by nofun)]
          cases cs with
          | nil => exact ⟨fun _ => Or.inl ⟨rfl, Or.inl rfl⟩, fun _ => rfl⟩
          | cons next cs =>
            dsimp only
            by_cases hnext : atBoundary next = true
            · rw [if_pos hnext]
              exact ⟨fun _ => Or.inl ⟨rfl, Or.inr (Or.inr ⟨next, cs, rfl, hnext⟩)⟩, fun _ => rfl⟩
            · rw [if_neg hnext]
              refine ⟨Or.inr, fun h => h.resolve_left ?_⟩
              rintro ⟨-, hnil | hs | ⟨n, ns, heq, hn⟩⟩
              · cases hnil
              · cases hs
              · obtain ⟨rfl, -⟩ := List.cons.inj heq
                exact hnext hn

/-- A single prefix. -/
theorem uriPrefix_iff {uri pfx : Bytes} (hnul : (0 : UInt8) ∉ uri) :
    uriPrefix uri pfx = true ↔
      ∃ rest, uri = pfx ++ rest ∧ Allowed (decide (pfx.getLast? = some 47)) rest := by
  have htake : (0 : UInt8) ∉ uri.take pfx.length := fun h => hnul (List.mem_of_mem_take h)
  unfold uriPrefix
  by_cases hstart : pfx <+: uri
  · obtain ⟨rest, rfl⟩ := hstart
    rw [List.take_left] at htake
    rw [if_neg, List.drop_left]
    · have huniq : (∃ r, pfx ++ rest = pfx ++ r ∧ Allowed (decide (pfx.getLast? = some 47)) r) ↔
          Allowed (decide (pfx.getLast? = some 47)) rest :=
        ⟨fun ⟨r, heq, h⟩ => (List.append_cancel_left heq) ▸ h, fun h => ⟨rest, rfl, h⟩⟩
      rw [huniq]
      cases rest with
      | nil => exact ⟨fun _ => Or.inl rfl, fun _ => rfl⟩
      | cons next cs =>
        dsimp only
        by_cases hslash : pfx.getLast? = some 47
        · rw [if_pos hslash, decide_eq_true hslash]
          exact ⟨fun _ => Or.inr (Or.inl rfl), fun _ => rfl⟩
        · rw [if_neg hslash, decide_eq_false hslash]
          constructor
          · exact fun h => Or.inr (Or.inr ⟨next, cs, rfl, h⟩)
          · rintro (hnil | hs | ⟨n, ns, heq, hn⟩)
            · cases hnil
            · cases hs
            · obtain ⟨rfl, -⟩ := List.cons.inj heq
              exact hn
    · rw [List.take_left, List.length_append]
      rintro (hlt | hne)
      · omega
      · rw [(strncmpEq_iff htake).2 rfl] at hne
        cases hne
  · rw [if_pos]
    · constructor
      · nofun
      · rintro ⟨rest, rfl, -⟩
        exact absurd (List.prefix_append pfx rest) hstart
    · by_contra hneither
      rw [not_or, Bool.not_eq_false, strncmpEq_iff htake] at hneither
      exact hstart (List.prefix_iff_eq_take.2 hneither.2.symm)

/-- **The trie is the list of its prefixes**: a URI without NUL matches the trie exactly when it
has one of them. -/
theorem uriTrieMatch_foldl {prefixes : List Bytes} (hne : ∀ p ∈ prefixes, p ≠ []) {uri : Bytes}
    (hnul : (0 : UInt8) ∉ uri) :
    uriTrieMatch (prefixes.foldl uriTrieAdd .blank) uri = true ↔
      ∃ p ∈ prefixes, uriPrefix uri p = true := by
  have hflags : ∀ w, ((flagsAt (prefixes.foldl uriTrieAdd .blank) w).1 = true ↔ w ∈ prefixes) ∧
      ((flagsAt (prefixes.foldl uriTrieAdd .blank) w).2 = true ↔
        (w ∈ prefixes ∧ w.getLast? = some 47)) := fun w => by
    have h := flagsAt_foldl prefixes .blank w
    rw [flagsAt_blank] at h
    simpa using h
  rw [uriTrieMatch_iff]
  constructor
  · rintro ⟨u, v, rfl, -, hterminal, hrest⟩
    obtain ⟨h1, h2⟩ := hflags u
    refine ⟨u, h1.1 hterminal, (uriPrefix_iff hnul).2 ⟨v, rfl, ?_⟩⟩
    refine hrest.imp_right (Or.imp_left fun hslash => ?_)
    exact decide_eq_true (h2.1 hslash).2
  · rintro ⟨p, hp, hpfx⟩
    obtain ⟨rest, rfl, hrest⟩ := (uriPrefix_iff hnul).1 hpfx
    obtain ⟨h1, h2⟩ := hflags p
    refine ⟨p, rest, rfl, hne p hp, h1.2 hp, ?_⟩
    refine hrest.imp_right (Or.imp_left fun hslash => ?_)
    exact h2.2 ⟨hp, of_decide_eq_true hslash⟩

end Match
end CacheTurbo
