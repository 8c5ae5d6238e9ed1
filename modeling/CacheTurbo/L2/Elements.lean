/-
# What a frame is

`redisFrame` finds the end of a reply and says nothing of what is in it.  `Element` is
the grammar that it follows: lines, bulk strings and arrays, within the ceilings, and
nil in place of either of the last two.  A buffer is declined where an element that
the walk comes to (`Reached`) is malformed by itself (`Refused`).

Lengths are read by `ngx_atoi`, so a length may be written with zeros in front.
-/

import CacheTurbo.L2.MemcachedSpec
import CacheTurbo.L2.Replies

namespace CacheTurbo
namespace L2

open Bytes Incremental

/-! ## Elements -/

/-- The bytes of one element, of at most `levels` levels. -/
inductive Element : ℕ → Bytes → Prop
  | line {levels : ℕ} {c : UInt8} {text : Bytes} (hc : c = 43 ∨ c = 45 ∨ c = 58)
      (htext : 13 ∉ text) : Element (levels + 1) (c :: (text ++ crlf))
  | nil {levels : ℕ} {c : UInt8} (hc : c = 36 ∨ c = 42) :
      Element (levels + 1) (c :: ([45, 49] ++ crlf))
  | bulk {levels : ℕ} {len body : Bytes} (hlen : atoi len = some body.length)
      (hmax : body.length ≤ redisMaxReply) :
      Element (levels + 1) (36 :: (len ++ crlf ++ (body ++ crlf)))
  | array {levels : ℕ} {len : Bytes} {pieces : List Bytes} (hlen : atoi len = some pieces.length)
      (hmax : pieces.length ≤ redisMaxMembers) (hpieces : ∀ piece ∈ pieces, Element levels piece) :
      Element (levels + 1) (42 :: (len ++ crlf ++ pieces.flatten))

/-- Digits are no line end. -/
theorem atoi_not_cr {len : Bytes} {v : ℕ} (h : atoi len = some v) : 13 ∉ len := fun hmem =>
  absurd ((atoi_eq_some.1 h).1.digits 13 hmem).1 (by decide)

theorem respLen_eq_ok {len : Bytes} {v : ℕ} : respLen len = .ok v ↔ atoi len = some v := by
  unfold respLen
  by_cases hnil : len = [45, 49]
  · subst hnil
    rw [if_pos rfl]
    exact ⟨nofun, fun h => by cases h⟩
  · rw [if_neg hnil]
    cases hatoi : atoi len with
    | none => exact ⟨nofun, nofun⟩
    | some w =>
      exact ⟨fun h => congrArg some (RespLen.ok.inj h),
        fun h => congrArg RespLen.ok (Option.some.inj h)⟩

theorem respLen_eq_nil {len : Bytes} : respLen len = .nil ↔ len = [45, 49] := by
  unfold respLen
  by_cases hnil : len = [45, 49]
  · rw [if_pos hnil]
    exact ⟨fun _ => hnil, fun _ => rfl⟩
  · rw [if_neg hnil]
    refine ⟨fun h => ?_, fun h => absurd h hnil⟩
    cases hatoi : atoi len with
    | none => rw [hatoi] at h; cases h
    | some v => rw [hatoi] at h; cases h

/-- A line that is there is read. -/
theorem respLine_append {line : Bytes} (hline : 13 ∉ line) (rest : Bytes)
    (andThen : Bytes → Bytes → Scan UInt8) :
    respLine (line ++ (13 :: 10 :: rest)) andThen = andThen line rest := by
  unfold respLine
  rw [cut_append hline]
  rfl

/-! ## What a server sends -/

/-- A bulk string as a server writes it. -/
def respBulk (body : Bytes) : Bytes := 36 :: (decimal body.length ++ crlf ++ (body ++ crlf))

theorem atoi_decimal {n : ℕ} (hn : n ≤ 2 ^ 63 - 1) : atoi (decimal n) = some n :=
  atoi_eq_some.2 ⟨isDecimal_decimal n, hn⟩

/-- What is read of a decimal number is that number. -/
theorem atoi_decimal_inj {n v : ℕ} (h : atoi (decimal n) = some v) : v = n :=
  (atoi_eq_some.1 h).1.value.symm.trans (isDecimal_decimal n).value

/-- A number of at most `k` digits. -/
theorem decimal_not_cr (n : ℕ) : 13 ∉ decimal n := fun hmem =>
  absurd ((isDecimal_decimal n).digits 13 hmem).1 (by decide)

theorem respLen_decimal_ne_nil (n : ℕ) : respLen (decimal n) ≠ .nil := fun h => by
  have hminus : (45 : UInt8) ∈ decimal n := by
    rw [respLen_eq_nil.1 h]
    exact List.mem_cons_self
  exact absurd ((isDecimal_decimal n).digits 45 hminus).1 (by decide)

/-! ## The first byte and its header -/

/-- What the first byte of an element and its header say: more is needed, it is malformed, the
element ends before `next`, or it is an array of `v` elements that start at `next`. -/
inductive Head
  | again
  | declined
  | whole (next : Bytes)
  | array (v : ℕ) (next : Bytes)
  deriving DecidableEq, Repr

/-- The head that a reader without arrays makes. -/
def Head.ofScan : Scan UInt8 → Head
  | .again => .again
  | .declined => .declined
  | .ok next => .whole next

theorem Head.ofScan_eq_declined {r : Scan UInt8} : Head.ofScan r = .declined ↔ r = .declined := by
  cases r with
  | again => exact ⟨nofun, nofun⟩
  | declined => exact ⟨fun _ => rfl, fun _ => rfl⟩
  | ok next => exact ⟨nofun, nofun⟩

/-- The line up to the first `CR`, and what follows its `LF`; `none` where there is no `LF`. -/
def lineEnd (s : Bytes) : Option (Bytes × Bytes) :=
  match cut 13 s with
  | some (line, 10 :: next) => some (line, next)
  | _ => none

theorem append_crlf (line rest : Bytes) : line ++ crlf ++ rest = line ++ 13 :: 10 :: rest := by
  rw [List.append_assoc]
  rfl

theorem lineEnd_eq_some {s line next : Bytes} :
    lineEnd s = some (line, next) ↔ s = line ++ 13 :: 10 :: next ∧ 13 ∉ line := by
  constructor
  · intro h
    unfold lineEnd at h
    split at h
    · rename_i hcut
      cases h
      exact cut_eq_some.1 hcut
    · cases h
  · rintro ⟨rfl, hline⟩
    unfold lineEnd
    rw [cut_append hline]
    rfl

theorem lineEnd_of_ne {s line next : Bytes} {c : UInt8} (hcut : cut 13 s = some (line, c :: next))
    (hc : c ≠ 10) : lineEnd s = none := by
  unfold lineEnd
  rw [hcut]
  split
  · rename_i heq
    cases heq
    exact absurd rfl hc
  · rfl

theorem respLine_eq (s : Bytes) (andThen : Bytes → Bytes → Scan UInt8) :
    respLine s andThen =
      match lineEnd s with
      | none => .again
      | some (line, next) => andThen line next := by
  unfold respLine
  rcases hcut : cut 13 s with _ | ⟨line, _ | ⟨c, next⟩⟩
  · simp only [lineEnd, hcut]
  · simp only [lineEnd, hcut]
  · by_cases hc : c = 10
    · subst hc
      simp only [lineEnd, hcut]
    · rw [lineEnd_of_ne hcut hc]
      dsimp only
      split
      · rename_i heq
        cases heq
        exact absurd rfl hc
      · rfl

/-- A line of a header. -/
def headLine (s : Bytes) (andThen : Bytes → Bytes → Head) : Head :=
  match lineEnd s with
  | none => .again
  | some (line, next) => andThen line next

theorem headLine_append {line : Bytes} (hline : 13 ∉ line) (rest : Bytes)
    (andThen : Bytes → Bytes → Head) :
    headLine (line ++ (13 :: 10 :: rest)) andThen = andThen line rest := by
  unfold headLine
  rw [lineEnd_eq_some.2 ⟨rfl, hline⟩]

/-- The head of an element. -/
def elementHead (s : Bytes) : Head :=
  match s with
  | [] => .again
  | c :: s =>
      if c = 43 ∨ c = 45 ∨ c = 58 then headLine s fun _ next => .whole next
      else if c = 36 then
        headLine s fun len data =>
          match respLen len with
          | .error => .declined
          | .nil => .whole data
          | .ok v => Head.ofScan (bulkBody v data)
      else if c = 42 then
        headLine s fun len data =>
          match respLen len with
          | .error => .declined
          | .nil => .whole data
          | .ok v => if v > redisMaxMembers then .declined else .array v data
      else .declined

/-- How a frame goes on after its head. -/
def Head.frame (members : ℕ → Bytes → Scan UInt8) : Head → Scan UInt8
  | .again => .again
  | .declined => .declined
  | .whole next => .ok next
  | .array v data => members v data

@[simp] theorem Head.frame_ofScan (members : ℕ → Bytes → Scan UInt8) (r : Scan UInt8) :
    (Head.ofScan r).frame members = r := by
  cases r <;> rfl

theorem Head.frame_eq_ok {members : ℕ → Bytes → Scan UInt8} {h : Head} {next : Bytes} :
    h.frame members = .ok next ↔
      h = .whole next ∨ ∃ v data, h = .array v data ∧ members v data = .ok next := by
  cases h <;> simp [Head.frame]

theorem Head.frame_eq_declined {members : ℕ → Bytes → Scan UInt8} {h : Head} :
    h.frame members = .declined ↔
      h = .declined ∨ ∃ v data, h = .array v data ∧ members v data = .declined := by
  cases h <;> simp [Head.frame]

theorem headLine_frame (members : ℕ → Bytes → Scan UInt8) (s : Bytes)
    (andThen : Bytes → Bytes → Head) :
    (headLine s andThen).frame members =
      respLine s fun line next => (andThen line next).frame members := by
  rw [respLine_eq]
  unfold headLine
  cases lineEnd s <;> rfl

/-- **A frame is its head, and the members of an array one level down.** -/
theorem redisFrame_succ (levels : ℕ) (s : Bytes) :
    redisFrame (levels + 1) s = (elementHead s).frame (Scan.times (redisFrame levels)) := by
  cases s with
  | nil => rfl
  | cons c s =>
    rw [redisFrame, Scan.onHead, elementHead]
    by_cases hline : c = 43 ∨ c = 45 ∨ c = 58
    · simp only [if_pos hline, headLine_frame]
      rfl
    simp only [if_neg hline]
    by_cases hbulk : c = 36
    · simp only [if_pos hbulk, headLine_frame]
      congr 1
      funext len data
      cases respLen len with
      | nil => rfl
      | error => rfl
      | ok v => exact (Head.frame_ofScan _ _).symm
    simp only [if_neg hbulk]
    by_cases harray : c = 42
    · simp only [if_pos harray, headLine_frame]
      congr 1
      funext len data
      cases respLen len with
      | nil => rfl
      | error => rfl
      | ok v =>
        dsimp only
        by_cases hv : v > redisMaxMembers
        · rw [if_pos hv, if_pos hv]
          rfl
        · rw [if_neg hv, if_neg hv]
          rfl
    · simp only [if_neg harray]
      rfl

theorem redisFrame_nil {levels : ℕ} {c : UInt8} (hc : c = 36 ∨ c = 42) :
    redisFrame (levels + 1) (c :: ([45, 49] ++ crlf)) = .ok [] := by
  rcases hc with rfl | rfl
  · rfl
  · rfl

/-- **A frame that ends with its buffer is an element.** -/
theorem redisFrame_eq_ok_nil {levels : ℕ} {s : Bytes} :
    redisFrame levels s = .ok [] ↔ Element levels s := by
  induction levels generalizing s with
  | zero =>
    constructor
    · nofun
    · nofun
  | succ levels ih =>
    constructor
    · intro h
      cases s with
      | nil => cases h
      | cons c s =>
        rw [redisFrame, Scan.onHead] at h
        by_cases hc : c = 43 ∨ c = 45 ∨ c = 58
        · rw [if_pos hc] at h
          obtain ⟨text, rest, rfl, htext, hrest⟩ := respLine_eq_ok.1 h
          obtain rfl := Scan.ok.inj hrest
          exact Element.line hc htext
        rw [if_neg hc] at h
        by_cases hbulk : c = 36
        · subst hbulk
          rw [if_pos rfl] at h
          obtain ⟨len, data, rfl, hline, hdata⟩ := respLine_eq_ok.1 h
          rcases hlen : respLen len with _ | _ | v
          · rw [hlen] at hdata
            obtain rfl := Scan.ok.inj hdata
            rw [respLen_eq_nil.1 hlen]
            exact Element.nil (Or.inl rfl)
          · rw [hlen] at hdata
            cases hdata
          · rw [hlen] at hdata
            obtain ⟨hmax, body, hbody, rfl⟩ := bulkBody_eq_ok.1 hdata
            rw [hbody, List.append_nil]
            have hbulk : Element (levels + 1) (36 :: (len ++ crlf ++ (body ++ crlf))) :=
              Element.bulk (respLen_eq_ok.1 hlen) hmax
            rwa [List.append_assoc] at hbulk
        rw [if_neg hbulk] at h
        by_cases harray : c = 42
        · subst harray
          rw [if_pos rfl] at h
          obtain ⟨len, data, rfl, hline, hdata⟩ := respLine_eq_ok.1 h
          rcases hlen : respLen len with _ | _ | v
          · rw [hlen] at hdata
            obtain rfl := Scan.ok.inj hdata
            rw [respLen_eq_nil.1 hlen]
            exact Element.nil (Or.inr rfl)
          · rw [hlen] at hdata
            cases hdata
          · rw [hlen] at hdata
            dsimp only at hdata
            split at hdata
            · cases hdata
            rename_i hmax
            obtain ⟨pieces, rfl, hflat, hpieces⟩ :=
              (takesPrefix_redisFrame levels).times_eq_ok.1 hdata
            have harr := Element.array (respLen_eq_ok.1 hlen) (Nat.le_of_not_lt hmax)
              fun piece hp => ih.1 (hpieces piece hp)
            rw [List.append_assoc] at harr
            rwa [hflat, List.append_nil]
        · rw [if_neg harray] at h
          cases h
    · intro h
      cases h with
      | @line _ c text hc htext =>
        rw [redisFrame, Scan.onHead, if_pos hc]
        exact respLine_append htext [] _
      | nil hc => exact redisFrame_nil hc
      | @bulk _ len body hlen hmax =>
        have hbody : bulkBody body.length (body ++ crlf) = .ok [] :=
          bulkBody_eq_ok.2 ⟨hmax, body, (List.append_nil _).symm, rfl⟩
        rw [redisFrame, Scan.onHead, if_neg (by decide), if_pos rfl, List.append_assoc]
        refine (respLine_append (atoi_not_cr hlen) _ _).trans ?_
        rw [respLen_eq_ok.2 hlen]
        exact hbody
      | @array _ len pieces hlen hmax hpieces =>
        have hmembers : Scan.times (redisFrame levels) pieces.length pieces.flatten = .ok [] :=
          (takesPrefix_redisFrame levels).times_eq_ok.2
            ⟨pieces, rfl, (List.append_nil _).symm, fun piece hp => ih.2 (hpieces piece hp)⟩
        rw [redisFrame, Scan.onHead, if_neg (by decide), if_neg (by decide), if_pos rfl,
          List.append_assoc]
        refine (respLine_append (atoi_not_cr hlen) _ _).trans ?_
        rw [respLen_eq_ok.2 hlen]
        dsimp only
        rw [if_neg (Nat.not_lt.2 hmax)]
        exact hmembers

/-- **What a frame takes is an element**, and the rest follows it. -/
theorem redisFrame_eq_ok {levels : ℕ} {s next : Bytes} :
    redisFrame levels s = .ok next ↔ ∃ piece, s = piece ++ next ∧ Element levels piece := by
  rw [takesPrefix_redisFrame levels s next]
  exact exists_congr fun piece => and_congr_right fun _ => redisFrame_eq_ok_nil

/-! ## A buffer that grows -/

/-- A head with more bytes behind it. -/
def Head.more (more : Bytes) : Head → Head
  | .whole next => .whole (next ++ more)
  | .array v next => .array v (next ++ more)
  | h => h

/-- A header line that was read is read again. -/
theorem headLine_more {s : Bytes} {andThen : Bytes → Bytes → Head}
    (h : headLine s andThen ≠ .again) :
    ∃ line next, s = line ++ 13 :: 10 :: next ∧ 13 ∉ line ∧ headLine s andThen = andThen line next ∧
      ∀ more, headLine (s ++ more) andThen = andThen line (next ++ more) := by
  unfold headLine at h
  split at h
  · exact absurd rfl h
  · rename_i line next hend
    obtain ⟨rfl, hline⟩ := lineEnd_eq_some.1 hend
    refine ⟨line, next, rfl, hline, headLine_append hline next andThen, fun more => ?_⟩
    have hshape : line ++ 13 :: 10 :: next ++ more = line ++ 13 :: 10 :: (next ++ more) := by
      simp only [List.append_assoc, List.cons_append]
    rw [hshape]
    exact headLine_append hline (next ++ more) andThen

theorem refuses_bulkBody (v : ℕ) : Refuses (bulkBody v) := by
  intro s hs more
  unfold bulkBody at hs ⊢
  by_cases hv : v > redisMaxReply
  · rw [if_pos hv]
  rw [if_neg hv] at hs ⊢
  by_cases hshort : s.length < v + 2
  · rw [if_pos hshort] at hs
    cases hs
  rw [if_neg hshort] at hs
  by_cases hend : (s.drop v).take 2 ≠ crlf
  · have htake : ((s ++ more).drop v).take 2 = (s.drop v).take 2 := by
      rw [List.drop_append_of_le_length (by omega),
        List.take_append_of_le_length (by rw [List.length_drop]; omega)]
    rw [if_neg (by rw [List.length_append]; omega), htake, if_pos hend]
  · rw [if_neg hend] at hs
    cases hs

theorem bulkBody_more {v : ℕ} {s : Bytes} (h : Head.ofScan (bulkBody v s) ≠ .again) (more : Bytes) :
    Head.ofScan (bulkBody v (s ++ more)) = (Head.ofScan (bulkBody v s)).more more := by
  rcases hs : bulkBody v s with _ | _ | next
  · rw [hs] at h
    exact absurd rfl h
  · rw [refuses_bulkBody v hs more]
    rfl
  · rw [(takesPrefix_bulkBody v).append hs more]
    rfl

/-- **The head of an element does not change** with what comes later. -/
theorem elementHead_more {s : Bytes} (h : elementHead s ≠ .again) (more : Bytes) :
    elementHead (s ++ more) = (elementHead s).more more := by
  cases s with
  | nil => exact absurd rfl h
  | cons c s =>
    rw [List.cons_append]
    unfold elementHead at h ⊢
    dsimp only at h ⊢
    by_cases hline : c = 43 ∨ c = 45 ∨ c = 58
    · rw [if_pos hline] at h
      rw [if_pos hline, if_pos hline]
      obtain ⟨line, next, -, -, hhead, hmore⟩ := headLine_more h
      rw [hhead, hmore more]
      rfl
    rw [if_neg hline] at h
    rw [if_neg hline, if_neg hline]
    by_cases hbulk : c = 36
    · rw [if_pos hbulk] at h
      rw [if_pos hbulk, if_pos hbulk]
      obtain ⟨len, data, -, -, hhead, hmore⟩ := headLine_more h
      rw [hhead] at h ⊢
      rw [hmore more]
      cases hlen : respLen len with
      | nil => rfl
      | error => rfl
      | ok v =>
        rw [hlen] at h
        exact bulkBody_more h more
    rw [if_neg hbulk] at h
    rw [if_neg hbulk, if_neg hbulk]
    by_cases harray : c = 42
    · rw [if_pos harray] at h
      rw [if_pos harray, if_pos harray]
      obtain ⟨len, data, -, -, hhead, hmore⟩ := headLine_more h
      rw [hhead, hmore more]
      cases hlen : respLen len with
      | nil => rfl
      | error => rfl
      | ok v =>
        dsimp only
        by_cases hv : v > redisMaxMembers
        · rw [if_pos hv, if_pos hv]
          rfl
        · rw [if_neg hv, if_neg hv]
          rfl
    · rw [if_neg harray, if_neg harray]
      rfl

theorem elementHead_bulk {len : Bytes} (hlen : 13 ∉ len) (data : Bytes) :
    elementHead (36 :: (len ++ crlf ++ data)) =
      match respLen len with
      | .error => .declined
      | .nil => .whole data
      | .ok v => Head.ofScan (bulkBody v data) := by
  unfold elementHead
  dsimp only
  rw [if_neg (by decide), if_pos rfl, List.append_assoc]
  exact headLine_append hlen data _

theorem elementHead_array {len : Bytes} (hlen : 13 ∉ len) (data : Bytes) :
    elementHead (42 :: (len ++ crlf ++ data)) =
      match respLen len with
      | .error => .declined
      | .nil => .whole data
      | .ok v => if v > redisMaxMembers then .declined else .array v data := by
  unfold elementHead
  dsimp only
  rw [if_neg (by decide), if_neg (by decide), if_pos rfl, List.append_assoc]
  exact headLine_append hlen data _

/-- The head of an array. -/
theorem elementHead_eq_array {s data : Bytes} {v : ℕ} :
    elementHead s = .array v data ↔
      ∃ len, s = 42 :: (len ++ crlf ++ data) ∧ atoi len = some v ∧ v ≤ redisMaxMembers := by
  constructor
  · intro h
    cases s with
    | nil => cases h
    | cons c s =>
      unfold elementHead at h
      dsimp only at h
      by_cases hline : c = 43 ∨ c = 45 ∨ c = 58
      · rw [if_pos hline] at h
        obtain ⟨line, next, -, -, hhead, -⟩ := headLine_more (by rw [h]; nofun)
        rw [hhead] at h
        cases h
      rw [if_neg hline] at h
      by_cases hbulk : c = 36
      · rw [if_pos hbulk] at h
        obtain ⟨len, next, -, -, hhead, -⟩ := headLine_more (by rw [h]; nofun)
        rw [hhead] at h
        rcases hlen : respLen len with _ | _ | w
        · rw [hlen] at h
          cases h
        · rw [hlen] at h
          cases h
        · rw [hlen] at h
          dsimp only at h
          cases hbody : bulkBody w next <;> rw [hbody] at h <;> cases h
      rw [if_neg hbulk] at h
      by_cases harray : c = 42
      · subst harray
        rw [if_pos rfl] at h
        obtain ⟨len, next, rfl, -, hhead, -⟩ := headLine_more (by rw [h]; nofun)
        rw [hhead] at h
        rcases hlen : respLen len with _ | _ | w
        · rw [hlen] at h
          cases h
        · rw [hlen] at h
          cases h
        · rw [hlen] at h
          dsimp only at h
          split at h
          · cases h
          rename_i hmax
          obtain ⟨rfl, rfl⟩ := Head.array.inj h
          exact ⟨len, by rw [List.append_assoc]; rfl, respLen_eq_ok.1 hlen, Nat.le_of_not_lt hmax⟩
      · rw [if_neg harray] at h
        cases h
  · rintro ⟨len, rfl, hlen, hmax⟩
    rw [elementHead_array (atoi_not_cr hlen), respLen_eq_ok.2 hlen]
    exact if_neg (Nat.not_lt.2 hmax)

/-- A head is shorter than what it is the head of. -/
theorem elementHead_shorter {s : Bytes} :
    (∀ next, elementHead s = .whole next → next.length < s.length) ∧
      ∀ v data, elementHead s = .array v data → data.length < s.length := by
  constructor
  · intro next h
    have hframe : redisFrame 1 s = .ok next := by
      rw [redisFrame_succ, h]
      rfl
    obtain ⟨piece, rfl, hpiece⟩ := redisFrame_eq_ok.1 hframe
    have hne : piece ≠ [] := by
      rintro rfl
      cases hpiece
    have hpos := List.length_pos_iff.2 hne
    rw [List.length_append]
    omega
  · intro v data h
    obtain ⟨len, rfl, -, -⟩ := elementHead_eq_array.1 h
    simp only [List.length_cons, List.length_append]
    omega

/-! ## Heads and frames -/

/-- A reader of heads that reads no further than the head, and the same whatever comes later. -/
structure TakesHead (head : Bytes → Head) : Prop where
  more : ∀ {s : Bytes}, head s ≠ .again → ∀ more, head (s ++ more) = (head s).more more
  whole : ∀ {s next : Bytes}, head s = .whole next →
    ∃ piece, s = piece ++ next ∧ head piece = .whole []
  array : ∀ {s data : Bytes} {v : ℕ}, head s = .array v data →
    ∃ piece, s = piece ++ data ∧ head piece = .array v []

theorem takesHead_elementHead : TakesHead elementHead := by
  have harray : ∀ {s data : Bytes} {v : ℕ}, elementHead s = .array v data →
      ∃ piece, s = piece ++ data ∧ elementHead piece = .array v [] := by
    intro s data v h
    obtain ⟨len, rfl, hlen, hmax⟩ := elementHead_eq_array.1 h
    exact ⟨42 :: (len ++ crlf), rfl,
      elementHead_eq_array.2 ⟨len, by rw [List.append_nil], hlen, hmax⟩⟩
  refine ⟨fun h more => elementHead_more h more, fun {s next} h => ?_, harray⟩
  have hframe : redisFrame 1 s = .ok next := by
    rw [redisFrame_succ, h]
    rfl
  obtain ⟨piece, rfl, hpiece⟩ := (takesPrefix_redisFrame 1 s next).1 hframe
  rw [redisFrame_succ] at hpiece
  rcases Head.frame_eq_ok.1 hpiece with hhead | ⟨v, data, hhead, -⟩
  · exact ⟨piece, rfl, hhead⟩
  · have hmore := elementHead_more (by rw [hhead]; nofun) next
    rw [h, hhead] at hmore
    cases hmore

section Frames

variable {head : Bytes → Head} {members : ℕ → Bytes → Scan UInt8}

/-- A frame takes a prefix where its members do. -/
theorem TakesHead.frame (h : TakesHead head) (hmembers : ∀ v, TakesPrefix (members v)) :
    TakesPrefix fun s => (head s).frame members := by
  intro s next
  dsimp only
  constructor
  · intro hread
    rcases Head.frame_eq_ok.1 hread with hhead | ⟨v, data, hhead, hrest⟩
    · obtain ⟨piece, rfl, hpiece⟩ := h.whole hhead
      exact ⟨piece, rfl, by rw [hpiece]; rfl⟩
    · obtain ⟨body, rfl, hbody⟩ := (hmembers v data next).1 hrest
      obtain ⟨piece, rfl, hpiece⟩ := h.array hhead
      refine ⟨piece ++ body, (List.append_assoc ..).symm, ?_⟩
      rw [h.more (by rw [hpiece]; nofun) body, hpiece]
      exact hbody
  · rintro ⟨piece, rfl, hread⟩
    rcases Head.frame_eq_ok.1 hread with hhead | ⟨v, data, hhead, hbody⟩
    · rw [h.more (by rw [hhead]; nofun) next, hhead]
      rfl
    · rw [h.more (by rw [hhead]; nofun) next, hhead]
      exact (hmembers v).append hbody next

/-- A frame refuses for good where its members do. -/
theorem TakesHead.refuses (h : TakesHead head) (hmembers : ∀ v, Refuses (members v)) :
    Refuses fun s => (head s).frame members := by
  intro s hs more
  dsimp only at hs ⊢
  rcases Head.frame_eq_declined.1 hs with hhead | ⟨v, data, hhead, hbody⟩
  · rw [h.more (by rw [hhead]; nofun) more, hhead]
    rfl
  · rw [h.more (by rw [hhead]; nofun) more, hhead]
    exact hmembers v hbody more

end Frames

/-- A malformed reply stays one. -/
theorem refuses_redisFrame (levels : ℕ) : Refuses (redisFrame levels) := by
  induction levels with
  | zero => exact fun _ _ _ => rfl
  | succ levels ih =>
    have hsucc : redisFrame (levels + 1) =
        fun s => (elementHead s).frame (Scan.times (redisFrame levels)) :=
      funext (redisFrame_succ levels)
    rw [hsucc]
    exact takesHead_elementHead.refuses fun v => ih.times (takesPrefix_redisFrame levels) v

/-! ## What is declined -/

/-- An element that is malformed by itself: of no known kind, of a length that is no number or
too large, or a bulk string without its end. -/
inductive Malformed : Bytes → Prop
  | kind {c : UInt8} {s : Bytes} (hline : ¬(c = 43 ∨ c = 45 ∨ c = 58)) (hbulk : c ≠ 36)
      (harray : c ≠ 42) : Malformed (c :: s)
  | length {c : UInt8} {len s : Bytes} (hc : c = 36 ∨ c = 42) (hline : 13 ∉ len)
      (hnil : len ≠ [45, 49]) (hlen : atoi len = none) : Malformed (c :: (len ++ crlf ++ s))
  | bulkMax {len s : Bytes} {v : ℕ} (hlen : atoi len = some v) (hmax : redisMaxReply < v) :
      Malformed (36 :: (len ++ crlf ++ s))
  | bulkEnd {len s : Bytes} {v : ℕ} (hlen : atoi len = some v) (hroom : v + 2 ≤ s.length)
      (hend : (s.drop v).take 2 ≠ crlf) : Malformed (36 :: (len ++ crlf ++ s))
  | arrayMax {len s : Bytes} {v : ℕ} (hlen : atoi len = some v) (hmax : redisMaxMembers < v) :
      Malformed (42 :: (len ++ crlf ++ s))

theorem respLen_eq_error {len : Bytes} : respLen len = .error ↔ len ≠ [45, 49] ∧ atoi len = none := by
  unfold respLen
  by_cases hnil : len = [45, 49]
  · rw [if_pos hnil]
    exact ⟨nofun, fun h => absurd hnil h.1⟩
  · rw [if_neg hnil]
    cases hatoi : atoi len with
    | none => exact ⟨fun _ => ⟨hnil, rfl⟩, fun _ => rfl⟩
    | some v => exact ⟨nofun, fun h => by cases h.2⟩

theorem bulkBody_eq_declined {v : ℕ} {s : Bytes} :
    bulkBody v s = .declined ↔
      redisMaxReply < v ∨ v + 2 ≤ s.length ∧ (s.drop v).take 2 ≠ crlf := by
  unfold bulkBody
  by_cases hv : v > redisMaxReply
  · rw [if_pos hv]
    exact ⟨fun _ => Or.inl hv, fun _ => rfl⟩
  rw [if_neg hv]
  by_cases hshort : s.length < v + 2
  · rw [if_pos hshort]
    constructor
    · nofun
    · rintro (h | ⟨h, -⟩)
      · exact absurd h hv
      · omega
  rw [if_neg hshort]
  by_cases hend : (s.drop v).take 2 ≠ crlf
  · rw [if_pos hend]
    exact ⟨fun _ => Or.inr ⟨Nat.le_of_not_lt hshort, hend⟩, fun _ => rfl⟩
  · rw [if_neg hend]
    constructor
    · nofun
    · rintro (h | ⟨-, h⟩)
      · exact absurd h hv
      · exact absurd h hend

/-- **A head is declined exactly where the element is malformed.** -/
theorem elementHead_eq_declined {s : Bytes} : elementHead s = .declined ↔ Malformed s := by
  constructor
  · intro h
    cases s with
    | nil => cases h
    | cons c s =>
      have hhead := h
      unfold elementHead at h
      dsimp only at h
      by_cases hline : c = 43 ∨ c = 45 ∨ c = 58
      · rw [if_pos hline] at h
        obtain ⟨line, next, -, -, hhead, -⟩ := headLine_more (by rw [h]; nofun)
        rw [hhead] at h
        cases h
      rw [if_neg hline] at h
      by_cases hbulk : c = 36
      · subst hbulk
        rw [if_pos rfl] at h
        obtain ⟨len, data, rfl, hnot, -, -⟩ := headLine_more (by rw [h]; nofun)
        rw [← append_crlf] at hhead ⊢
        rw [elementHead_bulk hnot] at hhead
        rcases hlen : respLen len with _ | _ | v
        · rw [hlen] at hhead
          cases hhead
        · obtain ⟨hnil, hatoi⟩ := respLen_eq_error.1 hlen
          exact Malformed.length (Or.inl rfl) hnot hnil hatoi
        · rw [hlen] at hhead
          rcases bulkBody_eq_declined.1 (Head.ofScan_eq_declined.1 hhead) with hmax | ⟨hroom, hend⟩
          · exact Malformed.bulkMax (respLen_eq_ok.1 hlen) hmax
          · exact Malformed.bulkEnd (respLen_eq_ok.1 hlen) hroom hend
      rw [if_neg hbulk] at h
      by_cases harray : c = 42
      · subst harray
        rw [if_pos rfl] at h
        obtain ⟨len, data, rfl, hnot, -, -⟩ := headLine_more (by rw [h]; nofun)
        rw [← append_crlf] at hhead ⊢
        rw [elementHead_array hnot] at hhead
        rcases hlen : respLen len with _ | _ | v
        · rw [hlen] at hhead
          cases hhead
        · obtain ⟨hnil, hatoi⟩ := respLen_eq_error.1 hlen
          exact Malformed.length (Or.inr rfl) hnot hnil hatoi
        · rw [hlen] at hhead
          dsimp only at hhead
          split at hhead
          · rename_i hmax
            exact Malformed.arrayMax (respLen_eq_ok.1 hlen) hmax
          · cases hhead
      · exact Malformed.kind hline hbulk harray
  · intro h
    cases h with
    | @kind c s hline hbulk harray =>
      unfold elementHead
      dsimp only
      rw [if_neg hline, if_neg hbulk, if_neg harray]
    | @length c len s hc hline hnil hlen =>
      have herror := respLen_eq_error.2 ⟨hnil, hlen⟩
      rcases hc with rfl | rfl
      · rw [elementHead_bulk hline, herror]
      · rw [elementHead_array hline, herror]
    | bulkMax hlen hmax =>
      rw [elementHead_bulk (atoi_not_cr hlen), respLen_eq_ok.2 hlen]
      dsimp only
      rw [bulkBody_eq_declined.2 (Or.inl hmax)]
      rfl
    | bulkEnd hlen hroom hend =>
      rw [elementHead_bulk (atoi_not_cr hlen), respLen_eq_ok.2 hlen]
      dsimp only
      rw [bulkBody_eq_declined.2 (Or.inr ⟨hroom, hend⟩)]
      rfl
    | arrayMax hlen hmax =>
      rw [elementHead_array (atoi_not_cr hlen), respLen_eq_ok.2 hlen]
      exact if_pos hmax

/-- The elements of the reply `s` that a walk comes to: an element at depth `depth`, with all that
follows it.  Those before it in its array are complete. -/
inductive Reached (s : Bytes) : ℕ → Bytes → Prop
  | root : Reached s 0 s
  | member {depth v : ℕ} {len next : Bytes} {pieces : List Bytes}
      (hparent : Reached s depth (42 :: (len ++ crlf ++ (pieces.flatten ++ next))))
      (hlen : atoi len = some v) (hmax : v ≤ redisMaxMembers) (hdepth : depth < redisFrameMaxDepth)
      (hcount : pieces.length < v)
      (hpieces : ∀ piece ∈ pieces, Element (redisFrameMaxDepth - depth) piece) :
      Reached s (depth + 1) next

/-- An element at depth `depth` is refused: it is malformed, or an array with members where
there is no level left for them. -/
def Refused (depth : ℕ) (s : Bytes) : Prop :=
  Malformed s ∨ depth = redisFrameMaxDepth ∧
    ∃ v data, 0 < v ∧ elementHead s = .array v data

theorem Reached.depth_le {s t : Bytes} {depth : ℕ} (h : Reached s depth t) :
    depth ≤ redisFrameMaxDepth := by
  cases h with
  | root => exact Nat.zero_le _
  | member _ _ _ hdepth => exact hdepth

/-- A refused element is declined. -/
theorem Refused.frame {depth : ℕ} {s : Bytes} (h : Refused depth s)
    (hdepth : depth ≤ redisFrameMaxDepth) :
    redisFrame (redisFrameMaxDepth - depth + 1) s = .declined := by
  rw [redisFrame_succ]
  rcases h with hbad | ⟨rfl, v, data, hv, hhead⟩
  · rw [elementHead_eq_declined.2 hbad]
    rfl
  · obtain ⟨n, rfl⟩ := Nat.exists_eq_succ_of_ne_zero (Nat.ne_of_gt hv)
    rw [hhead, Nat.sub_self]
    rfl

/-- What is declined below is declined above. -/
theorem Reached.declined {s t : Bytes} {depth : ℕ} (h : Reached s depth t)
    (ht : redisFrame (redisFrameMaxDepth - depth + 1) t = .declined) : replyFrame s = .declined := by
  induction h with
  | root => exact ht
  | @member depth v len next pieces hparent hlen hmax hdepth hcount hpieces ih =>
    refine ih ?_
    have hlevel : redisFrameMaxDepth - (depth + 1) + 1 = redisFrameMaxDepth - depth := by omega
    rw [hlevel] at ht
    rw [redisFrame_succ, elementHead_eq_array.2 ⟨len, rfl, hlen, hmax⟩]
    exact (takesPrefix_redisFrame _).times_eq_declined.2
      ⟨pieces, next, hcount, rfl, fun piece hp => redisFrame_eq_ok_nil.2 (hpieces piece hp), ht⟩

/-- A declined element has a refused one in it. -/
theorem Reached.exists_refused {s t : Bytes} {depth levels : ℕ} (h : Reached s depth t)
    (hlevel : depth + levels = redisFrameMaxDepth) (ht : redisFrame (levels + 1) t = .declined) :
    ∃ depth' t', Reached s depth' t' ∧ Refused depth' t' := by
  induction levels generalizing depth t with
  | zero =>
    rw [redisFrame_succ] at ht
    rcases Head.frame_eq_declined.1 ht with hhead | ⟨v, data, hhead, hbody⟩
    · exact ⟨depth, t, h, Or.inl (elementHead_eq_declined.1 hhead)⟩
    · cases v with
      | zero => cases hbody
      | succ n => exact ⟨depth, t, h, Or.inr ⟨hlevel, n + 1, data, Nat.succ_pos n, hhead⟩⟩
  | succ levels ih =>
    rw [redisFrame_succ] at ht
    rcases Head.frame_eq_declined.1 ht with hhead | ⟨v, data, hhead, hbody⟩
    · exact ⟨depth, t, h, Or.inl (elementHead_eq_declined.1 hhead)⟩
    · obtain ⟨pieces, next, hcount, rfl, hpieces, hnext⟩ :=
        (takesPrefix_redisFrame _).times_eq_declined.1 hbody
      obtain ⟨len, rfl, hlen, hmax⟩ := elementHead_eq_array.1 hhead
      have hsub : redisFrameMaxDepth - depth = levels + 1 := by omega
      refine ih (Reached.member h hlen hmax (by omega) hcount fun piece hp => ?_) (by omega) hnext
      rw [hsub]
      exact redisFrame_eq_ok_nil.1 (hpieces piece hp)

/-- **A reply is declined exactly where the walk comes to a refused element.** -/
theorem replyFrame_eq_declined {s : Bytes} :
    replyFrame s = .declined ↔ ∃ depth t, Reached s depth t ∧ Refused depth t := by
  constructor
  · exact fun h => Reached.root.exists_refused (Nat.zero_add _) h
  · rintro ⟨depth, t, hreached, hrefused⟩
    exact hreached.declined (hrefused.frame hreached.depth_le)

end L2
end CacheTurbo
