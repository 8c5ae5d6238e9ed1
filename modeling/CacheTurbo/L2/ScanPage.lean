/-
# A page of a scan

`ngx_http_cache_turbo_redis_parse_scan` reads the cursor and the keys out of a reply
that the framer has found complete.  It walks the same bytes again, with positions into
the buffer; a read past the end of the buffer would be `outside`.

A page (`Page`) is an array of a bulk string and of an array, or nil, of bulk strings
and nils.  `parseScan_framed` compares the two readers.
-/

import CacheTurbo.L2.FrameScan

namespace CacheTurbo
namespace L2

open Bytes Incremental

/-! ## The parser -/

/-- What a parser says: more is needed, this is no such reply, it has read past the end of the
buffer, or what it has read. -/
inductive Parse (α : Type)
  | again
  | declined
  | outside
  | ok (a : α)
  deriving DecidableEq, Repr

/-- A parser that goes on with what another has read. -/
def Parse.andThen {α β : Type} : Parse α → (α → Parse β) → Parse β
  | .again, _ => .again
  | .declined, _ => .declined
  | .outside, _ => .outside
  | .ok a, rest => rest a

/-- `ngx_strlchr` from `p` to the end of the buffer. -/
def strlchr (buf : Bytes) (p : ℕ) (c : UInt8) : Option ℕ :=
  (cut c (buf.drop p)).map fun r => p + r.1.length

/-- The header of the element at `p`: what is between its first byte and its `CR`, and where it
ends. -/
def parseHeader (buf : Bytes) (p : ℕ) : Parse (Bytes × ℕ) :=
  match strlchr buf (p + 1) 13 with
  | none => .again
  | some cr =>
      if cr + 1 ≥ buf.length then .again
      else
        match buf[cr + 1]? with
        | none => .outside
        | some lf =>
            if lf ≠ 10 then .again
            else .ok ((buf.drop (p + 1)).take (cr - (p + 1)), cr + 2)

/-- The first byte of the element at `p` is `c`, or the answer is `otherwise`. -/
def parseKind {α : Type} (buf : Bytes) (p : ℕ) (c : UInt8) (andThen : Parse α) : Parse α :=
  if p ≥ buf.length then .again
  else
    match buf[p]? with
    | none => .outside
    | some b => if b ≠ c then .declined else andThen

/-- `ngx_http_cache_turbo_redis_parse_bulk`: the string, or nil, and where it ends. -/
def parseBulk (buf : Bytes) (p : ℕ) (allowNil : Bool) : Parse (Option Bytes × ℕ) :=
  parseKind buf p 36 <|
    (parseHeader buf p).andThen fun (len, p) =>
      match respLen len with
      | .error => .declined
      | .nil => if allowNil then .ok (none, p) else .declined
      | .ok v =>
          if v > redisMaxReply then .declined
          else if buf.length - p < v + 2 then .again
          else
            match buf[p + v]?, buf[p + v + 1]? with
            | some cr, some lf =>
                if cr ≠ 13 ∨ lf ≠ 10 then .declined
                else .ok (some ((buf.drop p).take v), p + v + 2)
            | _, _ => .outside

/-- The loop of `parse_scan` over `count` keys. -/
def parseKeys (buf : Bytes) : ℕ → ℕ → Parse (List (Option Bytes))
  | 0, _ => .ok []
  | count + 1, p =>
      (parseBulk buf p true).andThen fun (key, p) =>
        (parseKeys buf count p).andThen fun keys => .ok (key :: keys)

/-- The keys of `parse_scan`, from the header of their array on; `room` is whether its list can
be allocated. -/
def parseKeyArray (room : Bool) (buf : Bytes) (p : ℕ) : Parse (List (Option Bytes)) :=
  parseKind buf p 42 <|
    (parseHeader buf p).andThen fun (len, p) =>
      match respLen len with
      | .error => .declined
      | .nil => .ok []
      | .ok count =>
          if count > redisMaxMembers then .declined
          else if count > (buf.length - p) / 4 then .declined
          else if count > 0 ∧ room = false then .declined
          else parseKeys buf count p

/-- `ngx_http_cache_turbo_redis_parse_scan`: the cursor and the keys. -/
def parseScan (room : Bool) (buf : Bytes) : Parse (Bytes × List (Option Bytes)) :=
  parseKind buf 0 42 <|
    (parseHeader buf 0).andThen fun (len, p) =>
      if respLen len ≠ .ok 2 then .declined
      else
        (parseBulk buf p false).andThen fun (cursor, p) =>
          (parseKeyArray room buf p).andThen fun keys => .ok (cursor.getD [], keys)

/-! ## Inside the buffer -/

theorem Parse.andThen_inside {α β : Type} {x : Parse α} {rest : α → Parse β} (hx : x ≠ .outside)
    (hrest : ∀ a, x = .ok a → rest a ≠ .outside) : x.andThen rest ≠ .outside := by
  cases x with
  | again => nofun
  | declined => nofun
  | outside => exact absurd rfl hx
  | ok a => exact hrest a rfl

theorem parseKind_inside {α : Type} {buf : Bytes} {p : ℕ} {c : UInt8} {andThen : Parse α}
    (h : p < buf.length → andThen ≠ .outside) : parseKind buf p c andThen ≠ .outside := by
  unfold parseKind
  by_cases hp : p ≥ buf.length
  · rw [if_pos hp]
    nofun
  · rw [if_neg hp, List.getElem?_eq_getElem (Nat.lt_of_not_le hp)]
    dsimp only
    split
    · nofun
    · exact h (Nat.lt_of_not_le hp)

theorem parseHeader_inside (buf : Bytes) (p : ℕ) :
    parseHeader buf p ≠ .outside ∧ ∀ len q, parseHeader buf p = .ok (len, q) → q ≤ buf.length := by
  unfold parseHeader
  cases strlchr buf (p + 1) 13 with
  | none => exact ⟨nofun, nofun⟩
  | some cr =>
    dsimp only
    by_cases hcr : cr + 1 ≥ buf.length
    · rw [if_pos hcr]
      exact ⟨nofun, nofun⟩
    · rw [if_neg hcr, List.getElem?_eq_getElem (Nat.lt_of_not_le hcr)]
      dsimp only
      split
      · exact ⟨nofun, nofun⟩
      · refine ⟨nofun, fun len q h => ?_⟩
        obtain ⟨-, rfl⟩ := Prod.mk.inj (Parse.ok.inj h)
        omega

theorem parseBulk_inside (buf : Bytes) (p : ℕ) (allowNil : Bool) :
    parseBulk buf p allowNil ≠ .outside := by
  refine parseKind_inside fun _ => Parse.andThen_inside (parseHeader_inside buf p).1 ?_
  rintro ⟨len, q⟩ hheader
  have hq := (parseHeader_inside buf p).2 len q hheader
  dsimp only
  cases respLen len with
  | nil => cases allowNil <;> nofun
  | error => nofun
  | ok v =>
    dsimp only
    split
    · nofun
    split
    · nofun
    rename_i hshort
    rw [List.getElem?_eq_getElem (by omega), List.getElem?_eq_getElem (by omega)]
    dsimp only
    split
    · nofun
    · nofun

theorem parseKeys_inside (buf : Bytes) (count p : ℕ) : parseKeys buf count p ≠ .outside := by
  induction count generalizing p with
  | zero => nofun
  | succ count ih =>
    refine Parse.andThen_inside (parseBulk_inside buf p true) ?_
    rintro ⟨key, q⟩ -
    refine Parse.andThen_inside (ih q) ?_
    rintro keys -
    nofun

theorem parseKeyArray_inside (room : Bool) (buf : Bytes) (p : ℕ) :
    parseKeyArray room buf p ≠ .outside := by
  refine parseKind_inside fun _ => Parse.andThen_inside (parseHeader_inside buf p).1 ?_
  rintro ⟨len, q⟩ -
  dsimp only
  cases respLen len with
  | nil => nofun
  | error => nofun
  | ok count =>
    dsimp only
    split
    · nofun
    split
    · nofun
    split
    · nofun
    · exact parseKeys_inside buf count q

/-- **The parser reads nothing outside its buffer**, whatever is in it. -/
theorem parseScan_inside (room : Bool) (buf : Bytes) : parseScan room buf ≠ .outside := by
  refine parseKind_inside fun _ => Parse.andThen_inside (parseHeader_inside buf 0).1 ?_
  rintro ⟨len, q⟩ -
  dsimp only
  split
  · nofun
  refine Parse.andThen_inside (parseBulk_inside buf q false) ?_
  rintro ⟨cursor, q⟩ -
  refine Parse.andThen_inside (parseKeyArray_inside room buf q) ?_
  rintro keys -
  nofun

/-! ## What it reads -/

/-- The encodings of a bulk string, or of nil. -/
inductive BulkOf : Bytes → Option Bytes → Prop
  | nil : BulkOf (36 :: ([45, 49] ++ crlf)) none
  | some {len body : Bytes} (hlen : atoi len = some body.length)
      (hmax : body.length ≤ redisMaxReply) :
      BulkOf (36 :: (len ++ crlf ++ (body ++ crlf))) (some body)

/-- The encodings of a list of keys. -/
inductive KeysOf : Bytes → List (Option Bytes) → Prop
  | nil : KeysOf (42 :: ([45, 49] ++ crlf)) []
  | array {len : Bytes} {pieces : List Bytes} {keys : List (Option Bytes)}
      (hlen : atoi len = some pieces.length) (hmax : pieces.length ≤ redisMaxMembers)
      (hpieces : List.Forall₂ BulkOf pieces keys) :
      KeysOf (42 :: (len ++ crlf ++ pieces.flatten)) keys

/-- The page of a cursor and its keys: an array of two. -/
inductive Page : Bytes → Bytes → List (Option Bytes) → Prop
  | mk {len first second cursor : Bytes} {keys : List (Option Bytes)} (hlen : atoi len = some 2)
      (hfirst : BulkOf first (some cursor)) (hsecond : KeysOf second keys) :
      Page (42 :: (len ++ crlf ++ (first ++ second))) cursor keys

section Read

variable {buf piece rest : Bytes} {p : ℕ}

theorem lt_of_drop {c : UInt8} {s : Bytes} (h : buf.drop p = c :: s) : p < buf.length := by
  by_contra hp
  rw [List.drop_eq_nil_of_le (Nat.le_of_not_lt hp)] at h
  cases h

theorem getElem?_of_drop {c : UInt8} (front : Bytes) {back : Bytes}
    (h : buf.drop p = front ++ c :: back) :
    buf[p + front.length]? = some c := by
  rw [← List.getElem?_drop, h, List.getElem?_append_right (Nat.le_refl _), Nat.sub_self]
  rfl

theorem parseKind_cons {α : Type} {b : UInt8} {s : Bytes} (h : buf.drop p = b :: s) (c : UInt8)
    (andThen : Parse α) :
    parseKind buf p c andThen = if b ≠ c then .declined else andThen := by
  have hget : buf[p]? = some b := getElem?_of_drop [] h
  rw [parseKind, if_neg (Nat.not_le.2 (lt_of_drop h)), hget]

/-- A header that is there is read. -/
theorem parseHeader_line {c : UInt8} {len : Bytes} (h : buf.drop p = c :: (len ++ crlf ++ rest))
    (hlen : 13 ∉ len) : parseHeader buf p = .ok (len, p + len.length + 3) := by
  have htail : buf.drop (p + 1) = len ++ 13 :: 10 :: rest := by
    rw [← List.tail_drop, h, List.tail_cons, append_crlf]
  have hcr : strlchr buf (p + 1) 13 = some (p + 1 + len.length) := by
    rw [strlchr, htail, cut_append hlen]
    rfl
  have hlf : buf[p + 1 + len.length + 1]? = some 10 := by
    have hget := getElem?_of_drop (len ++ [13])
      (htail.trans (List.append_assoc len [13] (10 :: rest)).symm)
    rwa [List.length_append, List.length_singleton, ← Nat.add_assoc] at hget
  have hroom := (List.getElem?_eq_some_iff.1 hlf).1
  unfold parseHeader
  rw [hcr]
  dsimp only
  rw [if_neg (Nat.not_le.2 hroom), hlf]
  dsimp only
  rw [if_neg (not_not_intro rfl), htail, Nat.add_sub_cancel_left, List.take_left]
  congr 2
  omega

/-- What follows a piece. -/
theorem drop_piece (h : buf.drop p = piece ++ rest) : buf.drop (p + piece.length) = rest := by
  rw [← List.drop_drop, h, List.drop_left]

/-- What follows a header. -/
theorem drop_header {c : UInt8} {len : Bytes} (h : buf.drop p = c :: (len ++ crlf ++ rest)) :
    buf.drop (p + len.length + 3) = rest := by
  have hstep : buf.drop (p + (c :: (len ++ crlf)).length) = rest := drop_piece h
  rwa [List.length_cons, List.length_append, show crlf.length = 2 from rfl] at hstep

theorem BulkOf.length_pos {v : Option Bytes} (h : BulkOf piece v) : 5 ≤ piece.length := by
  cases h with
  | nil => exact Nat.le_refl 5
  | @some len body hlen _ =>
    have hpos := List.length_pos_iff.2 (atoi_eq_some.1 hlen).1.nonempty
    have hcrlf : crlf.length = 2 := rfl
    simp only [List.length_cons, List.length_append, hcrlf]
    omega

/-- **A bulk string that is there is read**, whatever its bytes are. -/
theorem parseBulk_bulk {v : Option Bytes} {allowNil : Bool} (h : buf.drop p = piece ++ rest)
    (hpiece : BulkOf piece v) (hnil : v = none → allowNil = true) :
    parseBulk buf p allowNil = .ok (v, p + piece.length) := by
  unfold parseBulk
  cases hpiece with
  | nil =>
    rw [List.cons_append] at h
    rw [parseKind_cons h, if_neg (not_not_intro rfl), parseHeader_line h (by decide), hnil rfl]
    rfl
  | @some len body hlen hmax =>
    rw [List.cons_append, List.append_assoc] at h
    have hcrlf : crlf.length = 2 := rfl
    have hbody : buf.drop (p + len.length + 3) = body ++ crlf ++ rest := drop_header h
    have hcr : buf[p + len.length + 3 + body.length]? = some 13 :=
      getElem?_of_drop body (hbody.trans (append_crlf ..))
    have hlf : buf[p + len.length + 3 + body.length + 1]? = some 10 := by
      have hget := getElem?_of_drop (body ++ [13])
        (hbody.trans ((append_crlf ..).trans (List.append_assoc body [13] (10 :: rest)).symm))
      rwa [List.length_append, List.length_singleton, ← Nat.add_assoc] at hget
    have hroom := (List.getElem?_eq_some_iff.1 hlf).1
    rw [parseKind_cons h, if_neg (not_not_intro rfl), parseHeader_line h (atoi_not_cr hlen)]
    simp only [Parse.andThen, respLen_eq_ok.2 hlen]
    rw [if_neg (Nat.not_lt.2 hmax), if_neg (by omega), hcr, hlf]
    dsimp only
    rw [if_neg (by decide), hbody, List.append_assoc, List.take_left]
    simp only [List.length_cons, List.length_append, hcrlf]
    congr 2
    omega

/-- On a whole element the parser of bulk strings never asks for more. -/
theorem parseBulk_element {levels : ℕ} (h : buf.drop p = piece ++ rest) (hpiece : Element levels piece)
    (allowNil : Bool) :
    parseBulk buf p allowNil = .declined ∨
      ∃ v, BulkOf piece v ∧ (v = none → allowNil = true) ∧
        parseBulk buf p allowNil = .ok (v, p + piece.length) := by
  have hkind : ∀ {c : UInt8} {s : Bytes}, buf.drop p = c :: s → c ≠ 36 →
      parseBulk buf p allowNil = .declined := by
    intro c s hs hc
    rw [parseBulk, parseKind_cons hs, if_pos hc]
  cases hpiece with
  | line hc htext =>
    refine Or.inl (hkind (h.trans List.cons_append) ?_)
    rintro rfl
    exact absurd hc (by decide)
  | nil hc =>
    rcases hc with rfl | rfl
    · cases allowNil with
      | true => exact Or.inr ⟨none, BulkOf.nil, fun _ => rfl, parseBulk_bulk h BulkOf.nil fun _ => rfl⟩
      | false =>
        refine Or.inl ?_
        rw [List.cons_append] at h
        rw [parseBulk, parseKind_cons h, if_neg (not_not_intro rfl), parseHeader_line h (by decide)]
        rfl
    · exact Or.inl (hkind (h.trans List.cons_append) (by decide))
  | bulk hlen hmax =>
    exact Or.inr ⟨_, BulkOf.some hlen hmax, nofun, parseBulk_bulk h (BulkOf.some hlen hmax) nofun⟩
  | array hlen hmax hpieces => exact Or.inl (hkind (h.trans List.cons_append) (by decide))

/-- The keys that are there are read. -/
theorem parseKeys_keys {pieces : List Bytes} {keys : List (Option Bytes)}
    (h : buf.drop p = pieces.flatten ++ rest) (hkeys : List.Forall₂ BulkOf pieces keys) :
    parseKeys buf pieces.length p = .ok keys := by
  induction hkeys generalizing p with
  | nil => rfl
  | @cons piece key pieces keys hpiece hkeys ih =>
    rw [List.flatten_cons, List.append_assoc] at h
    rw [List.length_cons, parseKeys, parseBulk_bulk h hpiece fun _ => rfl]
    dsimp only [Parse.andThen]
    rw [ih (drop_piece h)]

theorem parseKeys_elements {levels : ℕ} {pieces : List Bytes} (h : buf.drop p = pieces.flatten ++ rest)
    (hpieces : ∀ piece ∈ pieces, Element levels piece) :
    parseKeys buf pieces.length p = .declined ∨
      ∃ keys, List.Forall₂ BulkOf pieces keys ∧ parseKeys buf pieces.length p = .ok keys := by
  induction pieces generalizing p with
  | nil => exact Or.inr ⟨[], List.Forall₂.nil, rfl⟩
  | cons piece pieces ih =>
    obtain ⟨hpiece, hpieces⟩ := List.forall_mem_cons.1 hpieces
    rw [List.flatten_cons, List.append_assoc] at h
    rw [List.length_cons, parseKeys]
    rcases parseBulk_element h hpiece true with hbad | ⟨v, hv, -, hok⟩
    · exact Or.inl (by rw [hbad]; rfl)
    rw [hok]
    dsimp only [Parse.andThen]
    rcases ih (drop_piece h) hpieces with hbad | ⟨keys, hkeys, hok⟩
    · exact Or.inl (by rw [hbad])
    · exact Or.inr ⟨v :: keys, List.Forall₂.cons hv hkeys, by rw [hok]⟩

/-- **The plausibility bound rejects no page**: a key is at least five bytes long. -/
theorem keys_room {pieces : List Bytes} {keys : List (Option Bytes)}
    (h : buf.drop p = pieces.flatten ++ rest) (hkeys : List.Forall₂ BulkOf pieces keys) :
    pieces.length ≤ (buf.length - p) / 4 := by
  have hlen : 5 * pieces.length ≤ pieces.flatten.length := by
    clear h
    induction hkeys with
    | nil => exact Nat.le_refl 0
    | cons hpiece _ ih =>
      have hfive := hpiece.length_pos
      rw [List.flatten_cons, List.length_append, List.length_cons]
      omega
  have hdrop := congrArg List.length h
  rw [List.length_drop, List.length_append] at hdrop
  omega

/-- The key array that is there is read, where its list can be allocated. -/
theorem parseKeyArray_keys {room : Bool} {keys : List (Option Bytes)} (h : buf.drop p = piece ++ rest)
    (hpiece : KeysOf piece keys) :
    parseKeyArray room buf p = if keys ≠ [] ∧ room = false then .declined else .ok keys := by
  unfold parseKeyArray
  cases hpiece with
  | nil =>
    rw [List.cons_append] at h
    rw [parseKind_cons h, if_neg (not_not_intro rfl), parseHeader_line h (by decide),
      if_neg fun hne => hne.1 rfl]
    rfl
  | @array len pieces _ hlen hmax hpieces =>
    rw [List.cons_append, List.append_assoc] at h
    have hbody : buf.drop (p + len.length + 3) = pieces.flatten ++ rest := drop_header h
    have hempty : pieces.length > 0 ↔ keys ≠ [] := by
      rw [← List.length_pos_iff, hpieces.length_eq]
    rw [parseKind_cons h, if_neg (not_not_intro rfl), parseHeader_line h (atoi_not_cr hlen)]
    simp only [Parse.andThen, respLen_eq_ok.2 hlen]
    rw [if_neg (Nat.not_lt.2 hmax), if_neg (Nat.not_lt.2 (keys_room hbody hpieces)),
      parseKeys_keys hbody hpieces]
    exact if_congr (and_congr_left fun _ => hempty) rfl rfl

theorem parseKeyArray_element {levels : ℕ} (room : Bool) (h : buf.drop p = piece ++ rest)
    (hpiece : Element levels piece) :
    parseKeyArray room buf p = .declined ∨ ∃ keys, KeysOf piece keys := by
  have hkind : ∀ {c : UInt8} {s : Bytes}, buf.drop p = c :: s → c ≠ 42 →
      parseKeyArray room buf p = .declined := by
    intro c s hs hc
    rw [parseKeyArray, parseKind_cons hs, if_pos hc]
  cases hpiece with
  | line hc htext =>
    refine Or.inl (hkind (h.trans List.cons_append) ?_)
    rintro rfl
    exact absurd hc (by decide)
  | nil hc =>
    rcases hc with rfl | rfl
    · exact Or.inl (hkind (h.trans List.cons_append) (by decide))
    · exact Or.inr ⟨[], KeysOf.nil⟩
  | bulk hlen hmax => exact Or.inl (hkind (h.trans List.cons_append) (by decide))
  | @array _ len pieces hlen hmax hpieces =>
    have hshape := h
    rw [List.cons_append, List.append_assoc] at hshape
    have hbody : buf.drop (p + len.length + 3) = pieces.flatten ++ rest := drop_header hshape
    rcases parseKeys_elements hbody hpieces with hbad | ⟨keys, hkeys, -⟩
    · refine Or.inl ?_
      rw [parseKeyArray, parseKind_cons hshape, if_neg (not_not_intro rfl),
        parseHeader_line hshape (atoi_not_cr hlen)]
      simp only [Parse.andThen, respLen_eq_ok.2 hlen, hbad, ite_self]
    · exact Or.inr ⟨keys, KeysOf.array hlen hmax hkeys⟩

end Read

/-- **A page is read back**, where the list of its keys can be allocated. -/
theorem parseScan_page {room : Bool} {buf cursor : Bytes} {keys : List (Option Bytes)}
    (h : Page buf cursor keys) :
    parseScan room buf = if keys ≠ [] ∧ room = false then .declined else .ok (cursor, keys) := by
  cases h with
  | @mk len first second _ _ hlen hfirst hsecond =>
    set buf := 42 :: (len ++ crlf ++ (first ++ second)) with hbuf
    have hdrop : buf.drop 0 = 42 :: (len ++ crlf ++ (first ++ second)) := rfl
    have hbody : buf.drop (0 + len.length + 3) = first ++ second := drop_header hdrop
    have hkeys : buf.drop (0 + len.length + 3 + first.length) = second ++ [] := by
      rw [List.append_nil]
      exact drop_piece hbody
    rw [parseScan, parseKind_cons hdrop, if_neg (not_not_intro rfl),
      parseHeader_line hdrop (atoi_not_cr hlen)]
    dsimp only [Parse.andThen]
    rw [if_neg (not_not_intro (respLen_eq_ok.2 hlen)), parseBulk_bulk hbody hfirst nofun]
    dsimp only
    rw [parseKeyArray_keys hkeys hsecond]
    by_cases hroom : keys ≠ [] ∧ room = false
    · rw [if_pos hroom, if_pos hroom]
    · rw [if_neg hroom, if_neg hroom]
      rfl

/-- **A whole reply is declined, or it is a page.** -/
theorem parseScan_framed {room : Bool} {levels : ℕ} {buf : Bytes} (h : Element levels buf) :
    parseScan room buf = .declined ∨ ∃ cursor keys, Page buf cursor keys := by
  have hkind : ∀ {c : UInt8} {s : Bytes}, buf.drop 0 = c :: s → c ≠ 42 →
      parseScan room buf = .declined := by
    intro c s hs hc
    rw [parseScan, parseKind_cons hs, if_pos hc]
  cases h with
  | line hc htext =>
    refine Or.inl (hkind rfl ?_)
    rintro rfl
    exact absurd hc (by decide)
  | nil hc =>
    rcases hc with rfl | rfl
    · exact Or.inl (hkind rfl (by decide))
    · exact Or.inl rfl
  | bulk hlen hmax => exact Or.inl (hkind rfl (by decide))
  | @array _ len pieces hlen hmax hpieces =>
    set buf := 42 :: (len ++ crlf ++ pieces.flatten) with hbuf
    have hdrop : buf.drop 0 = 42 :: (len ++ crlf ++ pieces.flatten) := rfl
    have hscan : parseScan room buf =
        if respLen len ≠ .ok 2 then .declined
        else
          (parseBulk buf (0 + len.length + 3) false).andThen fun (cursor, p) =>
            (parseKeyArray room buf p).andThen fun keys => .ok (cursor.getD [], keys) := by
      rw [parseScan, parseKind_cons hdrop, if_neg (not_not_intro rfl),
        parseHeader_line hdrop (atoi_not_cr hlen)]
      rfl
    by_cases htwo : pieces.length = 2
    · obtain ⟨first, second, rfl⟩ := List.length_eq_two.1 htwo
      have hflat : [first, second].flatten = first ++ second := by simp
      have hbody : buf.drop (0 + len.length + 3) = first ++ (second ++ []) := by
        rw [List.append_nil, ← hflat]
        exact drop_header hdrop
      have hcount : respLen len = .ok 2 := respLen_eq_ok.2 hlen
      rw [if_neg (not_not_intro hcount)] at hscan
      rcases parseBulk_element hbody (hpieces first List.mem_cons_self) false with
        hbad | ⟨v, hv, hnil, hok⟩
      · exact Or.inl (by rw [hscan, hbad]; rfl)
      cases v with
      | none => cases hnil rfl
      | some cursor =>
        rw [hok] at hscan
        have hsecond := hpieces second (List.mem_cons_of_mem _ List.mem_cons_self)
        rcases parseKeyArray_element room (drop_piece hbody) hsecond with hbad | ⟨keys, hkeys⟩
        · refine Or.inl ?_
          rw [hscan]
          dsimp only [Parse.andThen]
          rw [hbad]
        · refine Or.inr ⟨cursor, keys, ?_⟩
          rw [hbuf, hflat]
          exact Page.mk hlen hv hkeys
    · refine Or.inl ?_
      rw [hscan, if_pos]
      intro hok
      exact htwo (Option.some.inj (hlen.symm.trans (respLen_eq_ok.1 hok)))

/-! ## Pages and frames -/

theorem BulkOf.element {levels : ℕ} {piece : Bytes} {v : Option Bytes} (h : BulkOf piece v) :
    Element (levels + 1) piece := by
  cases h with
  | nil => exact Element.nil (Or.inl rfl)
  | some hlen hmax => exact Element.bulk hlen hmax

theorem KeysOf.element {levels : ℕ} {piece : Bytes} {keys : List (Option Bytes)}
    (h : KeysOf piece keys) : Element (levels + 2) piece := by
  cases h with
  | nil => exact Element.nil (Or.inr rfl)
  | array hlen hmax hpieces =>
    refine Element.array hlen hmax ?_
    clear hlen hmax
    induction hpieces with
    | nil => exact nofun
    | cons hpiece _ ih => exact List.forall_mem_cons.2 ⟨hpiece.element, ih⟩

/-- A page has three levels. -/
theorem Page.element {levels : ℕ} {buf cursor : Bytes} {keys : List (Option Bytes)}
    (h : Page buf cursor keys) : Element (levels + 3) buf := by
  cases h with
  | @mk len first second _ _ hlen hfirst hsecond =>
    have hmembers : ∀ piece ∈ [first, second], Element (levels + 2) piece := by
      intro piece hp
      rcases List.mem_pair.1 hp with rfl | rfl
      · exact hfirst.element
      · exact hsecond.element
    have hmax : 2 ≤ redisMaxMembers := by decide
    have hflat : [first, second].flatten = first ++ second := by simp
    rw [← hflat]
    exact Element.array hlen hmax hmembers

/-- The walk's framer finds the end of a page, too: there is no array inside eight others in it. -/
theorem scanFrame_bulk {levels : ℕ} {piece : Bytes} {v : Option Bytes} (h : BulkOf piece v) :
    scanFrame (levels + 1) piece = .ok [] := by
  have hframe := redisFrame_eq_ok_nil.2 (h.element : Element (levels + 1) piece)
  rw [scanFrame, frameSwitch_eq]
  rw [redisFrame_succ] at hframe
  have hfirst : piece.head? = some 36 := by cases h <;> rfl
  rw [if_neg fun hdeep => absurd (hfirst.symm.trans hdeep.1) (by decide)]
  rcases hhead : elementHead piece with _ | _ | next | ⟨count, data⟩
  · rw [hhead] at hframe
    cases hframe
  · rw [hhead] at hframe
    cases hframe
  · rw [hhead] at hframe
    exact hframe
  · obtain ⟨len, rfl, -, -⟩ := elementHead_eq_array.1 hhead
    cases hfirst

theorem scanFrame_array {levels : ℕ} {len : Bytes} {pieces : List Bytes} (hlevels : 0 < levels)
    (hlen : atoi len = some pieces.length) (hmax : pieces.length ≤ redisMaxMembers)
    (hpieces : ∀ piece ∈ pieces, scanFrame levels piece = .ok []) :
    scanFrame (levels + 1) (42 :: (len ++ crlf ++ pieces.flatten)) = .ok [] := by
  have hdeep : ¬ redisFrameMaxDepth ≤ redisFrameMaxDepth - levels := by
    have hpos : 0 < redisFrameMaxDepth := by decide
    omega
  have htimes : Scan.times (scanFrame levels) pieces.length pieces.flatten = .ok [] :=
    (takesPrefix_scanFrame levels).times_eq_ok.2
      ⟨pieces, rfl, (List.append_nil _).symm, hpieces⟩
  rw [scanFrame, frameSwitch_eq, if_neg fun h => hdeep h.2,
    elementHead_eq_array.2 ⟨len, rfl, hlen, hmax⟩]
  cases hcount : pieces.length with
  | zero =>
    rw [List.length_eq_zero_iff.1 hcount]
    rfl
  | succ n =>
    rw [hcount] at htimes
    exact htimes

/-- **The walk's framing step finds a page complete.** -/
theorem Page.frameScan {buf cursor : Bytes} {keys : List (Option Bytes)} (h : Page buf cursor keys) :
    (L2.frameScan buf .fresh).1 = .ok [] := by
  have hstar : Starred buf := by
    cases h
    exact Or.inr rfl
  rw [(frameScan_fresh hstar).verdict]
  clear hstar
  cases h with
  | @mk len first second _ _ hlen hfirst hsecond =>
    have hkeys : scanFrame redisFrameMaxDepth second = .ok [] := by
      cases hsecond with
      | nil => rfl
      | @array len pieces _ hlen hmax hpieces =>
        refine scanFrame_array (by decide) hlen hmax ?_
        clear hlen hmax
        induction hpieces with
        | nil => exact nofun
        | cons hpiece _ ih => exact List.forall_mem_cons.2 ⟨scanFrame_bulk hpiece, ih⟩
    have hmembers : ∀ piece ∈ [first, second], scanFrame redisFrameMaxDepth piece = .ok [] := by
      intro piece hp
      rcases List.mem_pair.1 hp with rfl | rfl
      · exact scanFrame_bulk hfirst
      · exact hkeys
    have hmax : 2 ≤ redisMaxMembers := by decide
    have hflat : [first, second].flatten = first ++ second := by simp
    rw [← hflat]
    exact scanFrame_array (by decide) hlen hmax hmembers

/-! ## What a server sends -/

/-- The reply to a scan as a server writes it. -/
def respPage (cursor : Bytes) (keys : List Bytes) : Bytes :=
  42 :: (decimal 2 ++ crlf ++ (respBulk cursor
    ++ 42 :: (decimal keys.length ++ crlf ++ (keys.map respBulk).flatten)))

theorem bulkOf_respBulk {body : Bytes} (h : body.length ≤ redisMaxReply) :
    BulkOf (respBulk body) (some body) :=
  BulkOf.some (atoi_decimal (le_trans h (by decide))) h

/-- A bulk string that is framed is within the ceiling. -/
theorem respBulk_framed {levels : ℕ} {body rest next : Bytes}
    (h : redisFrame (levels + 1) (respBulk body ++ rest) = .ok next) :
    body.length ≤ redisMaxReply ∧ next = rest := by
  by_cases hmax : body.length ≤ redisMaxReply
  · have hframe := (takesPrefix_redisFrame (levels + 1)).append
      (redisFrame_eq_ok_nil.2 (bulkOf_respBulk hmax).element) rest
    rw [h] at hframe
    exact ⟨hmax, Scan.ok.inj hframe⟩
  · have hshape : respBulk body ++ rest =
        36 :: (decimal body.length ++ crlf ++ (body ++ crlf ++ rest)) := by
      simp only [respBulk, List.cons_append, List.append_assoc]
    rw [redisFrame_succ, hshape, elementHead_bulk (decimal_not_cr _)] at h
    rcases hlen : respLen (decimal body.length) with _ | _ | v
    · exact absurd hlen (respLen_decimal_ne_nil _)
    · rw [hlen] at h
      cases h
    · rw [hlen] at h
      have hv := atoi_decimal_inj (respLen_eq_ok.1 hlen)
      dsimp only at h
      rw [Head.frame_ofScan, bulkBody_eq_declined.2 (Or.inl (by omega))] at h
      cases h

/-- **A page that is framed is within the ceilings.** -/
theorem respPage_framed {cursor : Bytes} {keys : List Bytes}
    (h : replyFrame (respPage cursor keys) = .ok []) :
    cursor.length ≤ redisMaxReply ∧ keys.length ≤ redisMaxMembers ∧
      ∀ key ∈ keys, key.length ≤ redisMaxReply := by
  have htwo : atoi (decimal 2) = some 2 := atoi_decimal (by decide)
  have htop : 2 ≤ redisMaxMembers := by decide
  rw [replyFrame, redisFrame_succ, respPage, elementHead_eq_array.2 ⟨decimal 2, rfl, htwo, htop⟩] at h
  dsimp only [Head.frame, redisFrameMaxDepth] at h
  rw [Scan.times] at h
  rcases hfirst : redisFrame 8 (respBulk cursor ++ 42 :: (decimal keys.length ++ crlf ++
    (keys.map respBulk).flatten)) with _ | _ | next
  · rw [hfirst] at h
    cases h
  · rw [hfirst] at h
    cases h
  obtain ⟨hcursor, rfl⟩ := respBulk_framed hfirst
  rw [hfirst] at h
  dsimp only at h
  rw [Scan.times, redisFrame_succ, elementHead_array (decimal_not_cr _)] at h
  rcases hlen : respLen (decimal keys.length) with _ | _ | v
  · exact absurd hlen (respLen_decimal_ne_nil _)
  · rw [hlen] at h
    cases h
  rw [hlen] at h
  obtain rfl := atoi_decimal_inj (respLen_eq_ok.1 hlen)
  dsimp only at h
  by_cases hmax : keys.length > redisMaxMembers
  · rw [if_pos hmax] at h
    cases h
  rw [if_neg hmax] at h
  refine ⟨hcursor, Nat.le_of_not_lt hmax, ?_⟩
  dsimp only [Head.frame] at h
  have hkeys : ∀ (keys : List Bytes) {next : Bytes}, Scan.times (redisFrame 7) keys.length
      (keys.map respBulk).flatten = .ok next → ∀ key ∈ keys, key.length ≤ redisMaxReply := by
    intro keys
    induction keys with
    | nil => exact fun _ key hkey => absurd hkey List.not_mem_nil
    | cons key keys ih =>
      intro next hread
      rw [List.length_cons, List.map_cons, List.flatten_cons, Scan.times] at hread
      rcases hkey : redisFrame 7 (respBulk key ++ (keys.map respBulk).flatten) with _ | _ | rest
      · rw [hkey] at hread
        cases hread
      · rw [hkey] at hread
        cases hread
      · obtain ⟨hle, rfl⟩ := respBulk_framed hkey
        rw [hkey] at hread
        exact List.forall_mem_cons.2 ⟨hle, ih hread⟩
  rcases hread : Scan.times (redisFrame 7) keys.length (keys.map respBulk).flatten with _ | _ | next
  · rw [hread] at h
    cases h
  · rw [hread] at h
    cases h
  · exact hkeys keys hread

/-- Within the ceilings it is a page. -/
theorem page_respPage {cursor : Bytes} {keys : List Bytes} (hcursor : cursor.length ≤ redisMaxReply)
    (hcount : keys.length ≤ redisMaxMembers) (hkeys : ∀ key ∈ keys, key.length ≤ redisMaxReply) :
    Page (respPage cursor keys) cursor (keys.map some) := by
  have hpieces : List.Forall₂ BulkOf (keys.map respBulk) (keys.map some) := by
    clear hcount
    induction keys with
    | nil => exact List.Forall₂.nil
    | cons key keys ih =>
      obtain ⟨hkey, hkeys⟩ := List.forall_mem_cons.1 hkeys
      exact List.Forall₂.cons (bulkOf_respBulk hkey) (ih hkeys)
  have hlen : (keys.map respBulk).length = keys.length := List.length_map _
  have hatoi : atoi (decimal keys.length) = some (keys.map respBulk).length := by
    rw [hlen]
    exact atoi_decimal (le_trans hcount (by decide))
  have harray := KeysOf.array hatoi (by rw [hlen]; exact hcount) hpieces
  exact Page.mk (atoi_decimal (by decide)) (bulkOf_respBulk hcursor) harray

/-- **A framed page parses completely.**  On a reply that the framer finds to end with the
buffer the parser asks for no more and reads nothing outside; it succeeds exactly on pages, with
their cursor and keys, as long as the list of the keys can be allocated.  A page is found
complete by both framers, and what a server writes is read back. -/
theorem scan_page_parses :
    (∀ (room : Bool) (buf : Bytes), replyFrame buf = .ok [] →
      parseScan room buf ≠ .again ∧ parseScan room buf ≠ .outside ∧
        ∀ cursor keys, parseScan room buf = .ok (cursor, keys) ↔
          Page buf cursor keys ∧ (keys ≠ [] → room = true)) ∧
    (∀ buf cursor keys, Page buf cursor keys →
      replyFrame buf = .ok [] ∧ (frameScan buf .fresh).1 = .ok []) ∧
    (∀ cursor keys, replyFrame (respPage cursor keys) = .ok [] ↔
      cursor.length ≤ redisMaxReply ∧ keys.length ≤ redisMaxMembers ∧
        ∀ key ∈ keys, key.length ≤ redisMaxReply) ∧
    ∀ cursor keys, replyFrame (respPage cursor keys) = .ok [] →
      parseScan true (respPage cursor keys) = .ok (cursor, keys.map some) := by
  have hpage : ∀ cursor keys, replyFrame (respPage cursor keys) = .ok [] →
      Page (respPage cursor keys) cursor (keys.map some) := by
    intro cursor keys h
    obtain ⟨hcursor, hcount, hkeys⟩ := respPage_framed h
    exact page_respPage hcursor hcount hkeys
  refine ⟨fun room buf hframe => ?_, fun buf cursor keys h =>
    ⟨redisFrame_eq_ok_nil.2 h.element, h.frameScan⟩, fun cursor keys => ⟨respPage_framed, ?_⟩, ?_⟩
  · have hframed : parseScan room buf = .declined ∨ ∃ cursor keys, Page buf cursor keys :=
      parseScan_framed (redisFrame_eq_ok_nil.1 hframe)
    refine ⟨?_, parseScan_inside room buf, fun cursor keys => ⟨fun hok => ?_, ?_⟩⟩
    · rcases hframed with hbad | ⟨cursor, keys, h⟩
      · rw [hbad]
        nofun
      · rw [parseScan_page h]
        split
        · nofun
        · nofun
    · rcases hframed with hbad | ⟨cursor', keys', h⟩
      · rw [hbad] at hok
        cases hok
      · rw [parseScan_page h] at hok
        split at hok
        · cases hok
        · rename_i hroom
          obtain ⟨rfl, rfl⟩ := Prod.mk.inj (Parse.ok.inj hok)
          refine ⟨h, fun hne => ?_⟩
          cases room with
          | true => rfl
          | false => exact absurd ⟨hne, rfl⟩ hroom
    · rintro ⟨h, hroom⟩
      rw [parseScan_page h, if_neg]
      rintro ⟨hne, hfalse⟩
      rw [hroom hne] at hfalse
      cases hfalse
  · rintro ⟨hcursor, hcount, hkeys⟩
    exact redisFrame_eq_ok_nil.2 (page_respPage hcursor hcount hkeys).element
  · intro cursor keys h
    rw [parseScan_page (hpage cursor keys h), if_neg fun hroom => nomatch hroom.2]

end L2
end CacheTurbo
