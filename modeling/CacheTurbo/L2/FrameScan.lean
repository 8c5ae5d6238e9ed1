/-
# The resumable framer

`ngx_http_cache_turbo_redis_frame_scan` frames an array that arrives in pieces.  It
keeps the offset of the next element, and for every array it is inside of how many of
its elements are still to come, so that a call goes on where the last one stopped.  Its
comment promises the verdicts of `ngx_http_cache_turbo_redis_frame`.

`frameScan_verdict` is what a call answers: that of a framer (`scanFrame`) that declines
an array inside eight others before it reads its header.  `frame` accepts an empty or a
nil one there, and waits for a header that is not complete.
-/

import CacheTurbo.L2.Elements

namespace CacheTurbo
namespace L2

open Bytes Incremental

/-! ## The walk -/

/-- The fields of an operation that keep the walk: `frame_off`, and the first `frame_depth`
entries of `frame_remain`, the innermost array first. -/
structure FrameScan where
  off : ℕ
  remain : List ℕ
  deriving DecidableEq, Repr

/-- `frame_depth`. -/
def FrameScan.depth (op : FrameScan) : ℕ := op.remain.length

/-- Before the first call. -/
def FrameScan.fresh : FrameScan := ⟨0, []⟩

/-- The switch of `ngx_http_cache_turbo_redis_frame_scan` on the element at `p`, inside `depth`
arrays. -/
def frameSwitch (depth : ℕ) (p : Bytes) : Head :=
  match p with
  | [] => .again
  | c :: s =>
      if c = 43 ∨ c = 45 ∨ c = 58 then headLine s fun _ next => .whole next
      else if c = 36 then
        headLine s fun len data =>
          match respLen len with
          | .error => .declined
          | .nil => .whole data
          | .ok v => Head.ofScan (bulkBody v data)
      else if c = 42 then
        if depth ≥ redisFrameMaxDepth then .declined
        else
          headLine s fun len data =>
            match respLen len with
            | .error => .declined
            | .nil => .whole data
            | .ok v =>
                if v = 0 then .whole data
                else if v > redisMaxMembers then .declined
                else .array v data
      else .declined

/-- A head whose array has no members is whole. -/
def Head.flat : Head → Head
  | .array 0 data => .whole data
  | h => h

theorem headLine_flat (s : Bytes) (andThen : Bytes → Bytes → Head) :
    (headLine s andThen).flat = headLine s fun line next => (andThen line next).flat := by
  unfold headLine
  cases lineEnd s <;> rfl

section Flat

variable {h : Head} {v : ℕ} {data : Bytes}

theorem Head.flat_eq_again : h.flat = .again ↔ h = .again := by
  rcases h with _ | _ | next | ⟨_ | v, data⟩ <;> simp [Head.flat]

theorem Head.flat_eq_declined : h.flat = .declined ↔ h = .declined := by
  rcases h with _ | _ | next | ⟨_ | v, data⟩ <;> simp [Head.flat]

theorem Head.flat_eq_whole : h.flat = .whole data ↔ h = .whole data ∨ h = .array 0 data := by
  rcases h with _ | _ | next | ⟨_ | v, data⟩ <;> simp [Head.flat]

theorem Head.flat_eq_array : h.flat = .array v data ↔ 0 < v ∧ h = .array v data := by
  rcases h with _ | _ | next | ⟨_ | w, rest⟩
  all_goals simp only [Head.flat, reduceCtorEq, and_false, Head.array.injEq, false_iff]
  · rintro ⟨hpos, rfl, -⟩
    exact absurd hpos (Nat.lt_irrefl 0)
  · exact ⟨fun h => ⟨h.1 ▸ Nat.succ_pos w, h⟩, And.right⟩

theorem Head.flat_more (h : Head) (more : Bytes) : (h.more more).flat = h.flat.more more := by
  rcases h with _ | _ | next | ⟨_ | v, data⟩ <;> rfl

end Flat

/-- **The switch reads the head of an element**, but not of an array inside eight others. -/
theorem frameSwitch_eq (depth : ℕ) (p : Bytes) :
    frameSwitch depth p =
      if p.head? = some 42 ∧ redisFrameMaxDepth ≤ depth then .declined
      else (elementHead p).flat := by
  cases p with
  | nil => rfl
  | cons c s =>
    unfold frameSwitch elementHead
    simp only [List.head?_cons, Option.some.injEq]
    by_cases hline : c = 43 ∨ c = 45 ∨ c = 58
    · have harray : c ≠ 42 := by
        rintro rfl
        exact absurd hline (by decide)
      rw [if_pos hline, if_pos hline, if_neg fun h => harray h.1, headLine_flat]
      rfl
    rw [if_neg hline, if_neg hline]
    by_cases hbulk : c = 36
    · subst hbulk
      rw [if_pos rfl, if_pos rfl, if_neg fun h => absurd h.1 (by decide), headLine_flat]
      congr 1
      funext len data
      cases respLen len with
      | nil => rfl
      | error => rfl
      | ok v =>
        dsimp only
        cases bulkBody v data <;> rfl
    rw [if_neg hbulk, if_neg hbulk]
    by_cases harray : c = 42
    · subst harray
      rw [if_pos rfl, if_pos rfl]
      by_cases hdepth : redisFrameMaxDepth ≤ depth
      · rw [if_pos hdepth, if_pos ⟨rfl, hdepth⟩]
      rw [if_neg hdepth, if_neg fun h => hdepth h.2, headLine_flat]
      congr 1
      funext len data
      cases respLen len with
      | nil => rfl
      | error => rfl
      | ok v =>
        dsimp only
        rcases Nat.eq_zero_or_pos v with rfl | hv
        · rfl
        rw [if_neg (Nat.ne_of_gt hv)]
        obtain ⟨n, rfl⟩ := Nat.exists_eq_succ_of_ne_zero (Nat.ne_of_gt hv)
        split
        · rfl
        · rfl
    · rw [if_neg harray, if_neg harray, if_neg fun h => harray h.1]
      rfl

theorem frameSwitch_of_ne {depth : ℕ} {p : Bytes} (h : frameSwitch depth p ≠ .declined) :
    frameSwitch depth p = (elementHead p).flat := by
  rw [frameSwitch_eq] at h ⊢
  split
  · rename_i hdeep
    exact absurd (if_pos hdeep) h
  · rfl

theorem frameSwitch_eq_whole {depth : ℕ} {p next : Bytes} (h : frameSwitch depth p = .whole next) :
    elementHead p = .whole next ∨ elementHead p = .array 0 next :=
  Head.flat_eq_whole.1 ((frameSwitch_of_ne (by rw [h]; nofun)).symm.trans h)

/-- An array that the switch enters has members, and is not inside eight others. -/
theorem frameSwitch_eq_array {depth v : ℕ} {p data : Bytes}
    (h : frameSwitch depth p = .array v data) :
    0 < v ∧ depth < redisFrameMaxDepth ∧ elementHead p = .array v data := by
  have hflat := (frameSwitch_of_ne (by rw [h]; nofun)).symm.trans h
  obtain ⟨hpos, hhead⟩ := Head.flat_eq_array.1 hflat
  refine ⟨hpos, Nat.lt_of_not_le fun hle => ?_, hhead⟩
  obtain ⟨len, rfl, -, -⟩ := elementHead_eq_array.1 hhead
  rw [frameSwitch_eq, if_pos ⟨rfl, hle⟩] at h
  cases h

theorem frameSwitch_shorter {depth : ℕ} {p : Bytes} :
    (∀ next, frameSwitch depth p = .whole next → next.length < p.length) ∧
      ∀ v data, frameSwitch depth p = .array v data → data.length < p.length := by
  refine ⟨fun next h => ?_, fun v data h => ?_⟩
  · rcases frameSwitch_eq_whole h with hhead | hhead
    · exact elementHead_shorter.1 next hhead
    · exact elementHead_shorter.2 0 next hhead
  · exact elementHead_shorter.2 v data (frameSwitch_eq_array h).2.2

/-- The loop of `ngx_http_cache_turbo_redis_frame_scan`, at `p` in a buffer of `rlen` bytes. -/
def frameScanLoop (rlen : ℕ) (op : FrameScan) (p : Bytes) : Scan UInt8 × FrameScan :=
  match hremain : op.remain with
  | [] => (.ok p, { op with off := rlen - p.length })
  | 0 :: outer => frameScanLoop rlen ⟨rlen - p.length, outer⟩ p
  | (r + 1) :: outer =>
      match hhead : frameSwitch (outer.length + 1) p with
      | .again => (.again, { op with off := rlen - p.length })
      | .declined => (.declined, op)
      | .whole next => frameScanLoop rlen { op with remain := r :: outer } next
      | .array v data => frameScanLoop rlen { op with remain := v :: r :: outer } data
termination_by (p.length, op.remain.length)
decreasing_by
  · rw [hremain]
    exact Prod.Lex.right _ (Nat.lt_succ_self _)
  · exact Prod.Lex.left _ _ (frameSwitch_shorter.1 _ hhead)
  · exact Prod.Lex.left _ _ (frameSwitch_shorter.2 _ _ hhead)

/-- What `ngx_http_cache_turbo_redis_frame_scan_prologue` says: more is needed, it is no array,
a nil array ends before `next`, or an array of `v` elements starts at `p`. -/
def frameScanPrologue (rbuf : Bytes) : Head :=
  match rbuf with
  | [] => .again
  | c :: s =>
      if c ≠ 42 then .declined
      else
        headLine s fun len data =>
          match respLen len with
          | .error => .declined
          | .nil => .whole data
          | .ok v => if v > redisMaxMembers then .declined else .array v data

/-- `ngx_http_cache_turbo_redis_frame_scan`, over the bytes received. -/
def frameScan (rbuf : Bytes) (op : FrameScan) : Scan UInt8 × FrameScan :=
  if op.depth = 0 ∧ op.off = 0 then
    match frameScanPrologue rbuf with
    | .again => (.again, op)
    | .declined => (.declined, op)
    | .whole next => (.ok next, op)
    | .array v p => frameScanLoop rbuf.length ⟨rbuf.length - p.length, [v]⟩ p
  else frameScanLoop rbuf.length op (rbuf.drop op.off)

/-! ## The framer that it is -/

theorem takesHead_frameSwitch (depth : ℕ) : TakesHead (frameSwitch depth) := by
  -- the first byte of a piece is that of the buffer
  have hpiece : ∀ {piece more : Bytes} {h : Head}, frameSwitch depth (piece ++ more) = h →
      h ≠ .declined → elementHead piece ≠ .again →
        frameSwitch depth piece = (elementHead piece).flat := by
    intro piece more h hread hne hhead
    rw [frameSwitch_eq] at hread ⊢
    cases piece with
    | nil => exact absurd rfl hhead
    | cons c piece =>
      rw [List.cons_append, List.head?_cons] at hread
      rw [List.head?_cons]
      split
      · rename_i hdeep
        rw [if_pos hdeep] at hread
        exact absurd hread.symm hne
      · rfl
  refine ⟨fun {s} h more => ?_, fun {s next} h => ?_, fun {s data v} h => ?_⟩
  · cases s with
    | nil => exact absurd rfl h
    | cons c s =>
      rw [frameSwitch_eq] at h ⊢
      rw [frameSwitch_eq, List.cons_append, List.head?_cons, List.head?_cons]
      split
      · rfl
      · rename_i hdeep
        rw [List.head?_cons, if_neg hdeep] at h
        have hhead : elementHead (c :: s) ≠ .again := fun hagain => h (Head.flat_eq_again.2 hagain)
        rw [← List.cons_append, elementHead_more hhead more, Head.flat_more]
  · rcases frameSwitch_eq_whole h with hhead | hhead
    · obtain ⟨piece, rfl, hread⟩ := takesHead_elementHead.whole hhead
      refine ⟨piece, rfl, ?_⟩
      rw [hpiece h nofun (by rw [hread]; nofun), hread]
      rfl
    · obtain ⟨piece, rfl, hread⟩ := takesHead_elementHead.array hhead
      refine ⟨piece, rfl, ?_⟩
      rw [hpiece h nofun (by rw [hread]; nofun), hread]
      rfl
  · obtain ⟨hpos, -, hhead⟩ := frameSwitch_eq_array h
    obtain ⟨piece, rfl, hread⟩ := takesHead_elementHead.array hhead
    refine ⟨piece, rfl, ?_⟩
    rw [hpiece h nofun (by rw [hread]; nofun), hread]
    exact Head.flat_eq_array.2 ⟨hpos, rfl⟩

/-- The framer of the switch, with the levels of nesting that are left. -/
def scanFrame : ℕ → Bytes → Scan UInt8
  | 0, _ => .declined
  | levels + 1, s =>
      (frameSwitch (redisFrameMaxDepth - levels) s).frame (Scan.times (scanFrame levels))

theorem takesPrefix_scanFrame (levels : ℕ) : TakesPrefix (scanFrame levels) := by
  induction levels with
  | zero => exact takesPrefix_declined
  | succ levels ih => exact (takesHead_frameSwitch _).frame fun v => ih.times v

theorem refuses_scanFrame (levels : ℕ) : Refuses (scanFrame levels) := by
  induction levels with
  | zero => exact fun _ _ _ => rfl
  | succ levels ih =>
    exact (takesHead_frameSwitch _).refuses fun v => ih.times (takesPrefix_scanFrame levels) v

/-- What is left to frame inside the arrays `remain`. -/
def frameRest : List ℕ → Bytes → Scan UInt8
  | [], p => .ok p
  | r :: outer, p =>
      match Scan.times (scanFrame (redisFrameMaxDepth - outer.length)) r p with
      | .ok next => frameRest outer next
      | verdict => verdict

/-- **One turn of the loop** leaves what is left to frame as it is. -/
theorem frameRest_succ {r : ℕ} {outer : List ℕ} (hdepth : outer.length < redisFrameMaxDepth)
    (p : Bytes) :
    frameRest ((r + 1) :: outer) p =
      match frameSwitch (outer.length + 1) p with
      | .again => .again
      | .declined => .declined
      | .whole next => frameRest (r :: outer) next
      | .array v data => frameRest (v :: r :: outer) data := by
  have hlevel : redisFrameMaxDepth - outer.length =
      redisFrameMaxDepth - (outer.length + 1) + 1 := by omega
  have hdeep : redisFrameMaxDepth - (redisFrameMaxDepth - (outer.length + 1)) =
      outer.length + 1 := by omega
  rw [frameRest, hlevel, Scan.times, scanFrame, hdeep]
  rcases frameSwitch (outer.length + 1) p with _ | _ | next | ⟨v, data⟩
  · rfl
  · rfl
  · simp only [frameRest, hlevel, Head.frame]
  · simp only [frameRest, List.length_cons, Head.frame]
    rcases Scan.times (scanFrame (redisFrameMaxDepth - (outer.length + 1))) v data with _ | _ | next
    · rfl
    · rfl
    · simp only [hlevel]

/-- What a run of the loop from `p` does: its verdict is that of what is left to frame, it moves
forward, and where it stops for more bytes what is left is as before. -/
structure LoopSpec (rbuf : Bytes) (op : FrameScan) (p : Bytes) (r : Scan UInt8 × FrameScan) :
    Prop where
  verdict : r.1 = frameRest op.remain p
  forward : op.off ≤ r.2.off
  inside : r.2.off ≤ rbuf.length
  depth : r.2.depth ≤ redisFrameMaxDepth
  stopped : r.1 = .again → 0 < r.2.depth ∧ 0 < r.2.off ∧
    frameSwitch r.2.depth (rbuf.drop r.2.off) = .again ∧
      ∀ more, frameRest r.2.remain (rbuf.drop r.2.off ++ more) = frameRest op.remain (p ++ more)

section Loop

variable {rlen off r : ℕ} {outer : List ℕ} {p : Bytes}

theorem frameScanLoop_nil : frameScanLoop rlen ⟨off, []⟩ p = (.ok p, ⟨rlen - p.length, []⟩) := by
  unfold frameScanLoop
  rfl

theorem frameScanLoop_zero :
    frameScanLoop rlen ⟨off, 0 :: outer⟩ p = frameScanLoop rlen ⟨rlen - p.length, outer⟩ p := by
  rw [frameScanLoop]

theorem frameScanLoop_succ :
    frameScanLoop rlen ⟨off, (r + 1) :: outer⟩ p =
      match frameSwitch (outer.length + 1) p with
      | .again => (.again, ⟨rlen - p.length, (r + 1) :: outer⟩)
      | .declined => (.declined, ⟨off, (r + 1) :: outer⟩)
      | .whole next => frameScanLoop rlen ⟨off, r :: outer⟩ next
      | .array v data => frameScanLoop rlen ⟨off, v :: r :: outer⟩ data := by
  rw [frameScanLoop]
  split
  · rename_i heq; cases heq
  · rename_i heq; cases heq
  · rename_i heq
    cases heq
    split <;> simp_all

end Loop

/-- **The loop frames what is left.**  The induction is on its own turns. -/
theorem frameScanLoop_spec {rbuf : Bytes} (op : FrameScan) {p : Bytes} (hp : p <:+ rbuf)
    (hstart : p.length < rbuf.length) (hoff : op.off ≤ rbuf.length - p.length)
    (hdepth : op.depth ≤ redisFrameMaxDepth) :
    LoopSpec rbuf op p (frameScanLoop rbuf.length op p) := by
  have hinside : ∀ q : Bytes, rbuf.length - q.length ≤ rbuf.length := fun q => Nat.sub_le _ _
  have hdrop : ∀ {q : Bytes}, q <:+ rbuf → rbuf.drop (rbuf.length - q.length) = q :=
    fun hq => (List.suffix_iff_eq_drop.1 hq).symm
  induction op, p using frameScanLoop.induct rbuf.length with
  | case1 op p hremain =>
    obtain ⟨off, remain⟩ := op
    obtain rfl : remain = [] := hremain
    rw [frameScanLoop_nil]
    exact ⟨rfl, hoff, hinside p, Nat.zero_le _, nofun⟩
  | case2 op p outer hremain ih =>
    obtain ⟨off, remain⟩ := op
    obtain rfl : remain = 0 :: outer := hremain
    rw [frameScanLoop_zero]
    have hrest := ih hp hstart (Nat.le_refl _) (Nat.le_of_succ_le hdepth)
    exact ⟨hrest.verdict, Nat.le_trans hoff hrest.forward, hrest.inside, hrest.depth, hrest.stopped⟩
  | case3 op p r outer hremain hhead =>
    obtain ⟨off, remain⟩ := op
    obtain rfl : remain = (r + 1) :: outer := hremain
    rw [frameScanLoop_succ, hhead]
    refine ⟨?_, hoff, hinside p, hdepth, fun _ => ⟨Nat.succ_pos _, Nat.sub_pos_of_lt hstart, ?_, ?_⟩⟩
    · rw [frameRest_succ hdepth, hhead]
    · rw [hdrop hp]
      exact hhead
    · intro more
      rw [hdrop hp]
  | case4 op p r outer hremain hhead =>
    obtain ⟨off, remain⟩ := op
    obtain rfl : remain = (r + 1) :: outer := hremain
    rw [frameScanLoop_succ, hhead]
    refine ⟨?_, Nat.le_refl _, Nat.le_trans hoff (hinside p), hdepth, nofun⟩
    rw [frameRest_succ hdepth, hhead]
  | case5 op p r outer hremain next hhead ih =>
    obtain ⟨off, remain⟩ := op
    obtain rfl : remain = (r + 1) :: outer := hremain
    obtain ⟨piece, hpiece, hread⟩ := (takesHead_frameSwitch _).whole hhead
    have hlt : next.length < p.length := frameSwitch_shorter.1 next hhead
    have hrest := ih (List.IsSuffix.trans ⟨piece, hpiece.symm⟩ hp) (by omega)
      (Nat.le_trans hoff (by omega)) hdepth
    have hmore : ∀ more, frameRest ((r + 1) :: outer) (p ++ more) =
        frameRest (r :: outer) (next ++ more) := by
      intro more
      rw [frameRest_succ hdepth, (takesHead_frameSwitch _).more (by rw [hhead]; nofun), hhead]
      rfl
    rw [frameScanLoop_succ, hhead]
    refine ⟨?_, hrest.forward, hrest.inside, hrest.depth, fun hagain => ?_⟩
    · rw [hrest.verdict, frameRest_succ hdepth, hhead]
    · obtain ⟨hpos, hposoff, hstop, hleft⟩ := hrest.stopped hagain
      exact ⟨hpos, hposoff, hstop, fun more => (hleft more).trans (hmore more).symm⟩
  | case6 op p r outer hremain v data hhead ih =>
    obtain ⟨off, remain⟩ := op
    obtain rfl : remain = (r + 1) :: outer := hremain
    obtain ⟨piece, hpiece, hread⟩ := (takesHead_frameSwitch _).array hhead
    have hlt : data.length < p.length := frameSwitch_shorter.2 v data hhead
    obtain ⟨-, hroom, -⟩ := frameSwitch_eq_array hhead
    have hrest := ih (List.IsSuffix.trans ⟨piece, hpiece.symm⟩ hp) (by omega)
      (Nat.le_trans hoff (by omega)) hroom
    have hmore : ∀ more, frameRest ((r + 1) :: outer) (p ++ more) =
        frameRest (v :: r :: outer) (data ++ more) := by
      intro more
      rw [frameRest_succ hdepth, (takesHead_frameSwitch _).more (by rw [hhead]; nofun), hhead]
      rfl
    rw [frameScanLoop_succ, hhead]
    refine ⟨?_, hrest.forward, hrest.inside, hrest.depth, fun hagain => ?_⟩
    · rw [hrest.verdict, frameRest_succ hdepth, hhead]
    · obtain ⟨hpos, hposoff, hstop, hleft⟩ := hrest.stopped hagain
      exact ⟨hpos, hposoff, hstop, fun more => (hleft more).trans (hmore more).symm⟩

/-! ## One call -/

/-- What the calls on the prefix `x` have left, the last of them having asked for more. -/
inductive Paused (x : Bytes) : FrameScan → Prop
  | fresh : Paused x .fresh
  | inside {op : FrameScan} (hpos : 0 < op.depth) (hmax : op.depth ≤ redisFrameMaxDepth)
      (hoff : op.off ≤ x.length) (hstarted : 0 < op.off)
      (hrest : ∀ more, frameRest op.remain (x.drop op.off ++ more) =
        scanFrame (redisFrameMaxDepth + 1) (x ++ more)) : Paused x op

/-- What a call on `rbuf` does. -/
structure CallSpec (rbuf : Bytes) (op : FrameScan) (r : Scan UInt8 × FrameScan) : Prop where
  verdict : r.1 = scanFrame (redisFrameMaxDepth + 1) rbuf
  forward : op.off ≤ r.2.off
  inside : r.2.off ≤ rbuf.length
  depth : r.2.depth ≤ redisFrameMaxDepth
  unconfirmed : r.1 = .again → elementHead (rbuf.drop r.2.off) = .again
  paused : r.1 = .again → Paused rbuf r.2

theorem frameSwitch_eq_again {depth : ℕ} {p : Bytes} (h : frameSwitch depth p = .again) :
    elementHead p = .again := by
  rw [frameSwitch_of_ne (by rw [h]; nofun)] at h
  exact Head.flat_eq_again.1 h

/-- A reply that is an array, as far as it has come. -/
def Starred (rbuf : Bytes) : Prop := rbuf = [] ∨ rbuf.head? = some 42

theorem frameScanPrologue_eq {rbuf : Bytes} (h : Starred rbuf) :
    frameScanPrologue rbuf = elementHead rbuf := by
  rcases h with rfl | h
  · rfl
  · cases rbuf with
    | nil => cases h
    | cons c s =>
      obtain rfl := Option.some.inj h
      unfold frameScanPrologue elementHead
      dsimp only
      rw [if_neg (not_not_intro rfl), if_neg (by decide), if_neg (by decide)]
      exact (if_pos rfl).symm

/-- The first call. -/
theorem frameScan_fresh {rbuf : Bytes} (h : Starred rbuf) :
    CallSpec rbuf .fresh (frameScan rbuf .fresh) := by
  have hzero : FrameScan.fresh.depth = 0 ∧ FrameScan.fresh.off = 0 := ⟨rfl, rfl⟩
  have hswitch : frameSwitch 0 rbuf = (elementHead rbuf).flat := by
    rw [frameSwitch_eq, if_neg fun hdeep => absurd hdeep.2 (by decide)]
  have hverdict : scanFrame (redisFrameMaxDepth + 1) rbuf =
      (elementHead rbuf).flat.frame (Scan.times (scanFrame redisFrameMaxDepth)) := by
    rw [scanFrame, Nat.sub_self, hswitch]
  rw [frameScan, if_pos hzero, frameScanPrologue_eq h]
  rcases hhead : elementHead rbuf with _ | _ | next | ⟨v, p⟩
  · refine ⟨?_, Nat.le_refl _, Nat.zero_le _, Nat.zero_le _, fun _ => hhead, fun _ => Paused.fresh⟩
    rw [hverdict, hhead]
    rfl
  · refine ⟨?_, Nat.le_refl _, Nat.zero_le _, Nat.zero_le _, ?_, ?_⟩
    · rw [hverdict, hhead]
      rfl
    · intro h
      cases h
    · intro h
      cases h
  · refine ⟨?_, Nat.le_refl _, Nat.zero_le _, Nat.zero_le _, ?_, ?_⟩
    · rw [hverdict, hhead]
      rfl
    · intro h
      cases h
    · intro h
      cases h
  · obtain ⟨piece, hpiece, hread⟩ := takesHead_elementHead.array hhead
    have hmembers : ∀ q, frameRest [v] q = (Head.array v q).flat.frame
        (Scan.times (scanFrame redisFrameMaxDepth)) := by
      intro q
      cases v with
      | zero => rfl
      | succ n =>
        simp only [frameRest, Head.flat, Head.frame, List.length_nil, Nat.sub_zero]
        cases Scan.times (scanFrame redisFrameMaxDepth) (n + 1) q <;> rfl
    have hwhole : elementHead rbuf ≠ .again := by
      intro hagain
      rw [hhead] at hagain
      cases hagain
    have hloop := frameScanLoop_spec ⟨rbuf.length - p.length, [v]⟩ ⟨piece, hpiece.symm⟩
      (elementHead_shorter.2 v p hhead) (Nat.le_refl _) (Nat.succ_le_of_lt (by decide))
    refine ⟨?_, Nat.zero_le _, hloop.inside, hloop.depth, fun hagain => ?_, fun hagain => ?_⟩
    · rw [hloop.verdict, hmembers p, hverdict, hhead]
    · obtain ⟨-, -, hstop, -⟩ := hloop.stopped hagain
      exact frameSwitch_eq_again hstop
    · obtain ⟨hpos, hstarted, -, hleft⟩ := hloop.stopped hagain
      refine Paused.inside hpos hloop.depth hloop.inside hstarted fun more => ?_
      rw [hleft more, hmembers, scanFrame, Nat.sub_self, frameSwitch_eq,
        if_neg fun hdeep => absurd hdeep.2 (by decide),
        elementHead_more hwhole more, hhead]
      rfl

/-- **A call goes on where the last one stopped**, and answers what a fresh one would. -/
theorem frameScan_spec {x rbuf : Bytes} {op : FrameScan} (hop : Paused x op) (hx : x <+: rbuf)
    (hstar : Starred rbuf) : CallSpec rbuf op (frameScan rbuf op) := by
  cases hop with
  | fresh => exact frameScan_fresh hstar
  | inside hpos hmax hoff hstarted hrest =>
    obtain ⟨more, rfl⟩ := hx
    have hdrop : (x ++ more).drop op.off = x.drop op.off ++ more := List.drop_append_of_le_length hoff
    have hlen : ((x ++ more).drop op.off).length = (x ++ more).length - op.off := List.length_drop
    have hle : op.off ≤ (x ++ more).length := by
      rw [List.length_append]
      omega
    rw [frameScan, if_neg fun h => absurd h.1 (Nat.ne_of_gt hpos)]
    have hloop := frameScanLoop_spec op (List.drop_suffix op.off (x ++ more)) (by omega)
      (by omega) hmax
    refine ⟨?_, hloop.forward, hloop.inside, hloop.depth, fun hagain => ?_, fun hagain => ?_⟩
    · rw [hloop.verdict, hdrop, hrest more]
    · obtain ⟨-, -, hstop, -⟩ := hloop.stopped hagain
      exact frameSwitch_eq_again hstop
    · obtain ⟨hpos', hstarted', -, hleft⟩ := hloop.stopped hagain
      refine Paused.inside hpos' hloop.depth hloop.inside hstarted' fun later => ?_
      rw [hleft later, hdrop, List.append_assoc, hrest (more ++ later), List.append_assoc]

/-- **The bytes before `frame_off` are not read again.** -/
theorem frameScan_unread {rbuf other : Bytes} {op : FrameScan} (hlen : other.length = rbuf.length)
    (hrest : other.drop op.off = rbuf.drop op.off) : frameScan other op = frameScan rbuf op := by
  unfold frameScan
  by_cases hzero : op.depth = 0 ∧ op.off = 0
  · rw [hzero.2, List.drop_zero, List.drop_zero] at hrest
    rw [hrest]
  · rw [if_neg hzero, if_neg hzero, hlen, hrest]

/-! ## Where the two differ -/

/-- The framer of the switch declines what `frame` declines, and more. -/
theorem scanFrame_or (levels : ℕ) (s : Bytes) :
    scanFrame levels s = .declined ∨ scanFrame levels s = redisFrame levels s := by
  induction levels generalizing s with
  | zero => exact Or.inl rfl
  | succ levels ih =>
    rw [scanFrame, frameSwitch_eq, redisFrame_succ]
    split
    · exact Or.inl rfl
    · rcases elementHead s with _ | _ | next | ⟨_ | v, data⟩
      · exact Or.inr rfl
      · exact Or.inr rfl
      · exact Or.inr rfl
      · exact Or.inr rfl
      · exact times_declined_or ih (v + 1) data

/-- An array inside eight others makes the reply a declined one. -/
theorem Reached.scan_declined {s t : Bytes} {depth : ℕ} (h : Reached s depth t)
    (ht : scanFrame (redisFrameMaxDepth - depth + 1) t = .declined) :
    scanFrame (redisFrameMaxDepth + 1) s = .declined := by
  induction h with
  | root => exact ht
  | @member depth v len next pieces hparent hlen hmax hdepth hcount hpieces ih =>
    refine ih ?_
    have hlevel : redisFrameMaxDepth - (depth + 1) + 1 = redisFrameMaxDepth - depth := by omega
    rw [hlevel] at ht
    rw [scanFrame, frameSwitch_eq, if_neg fun hdeep => absurd hdeep.2 (by omega),
      elementHead_eq_array.2 ⟨len, rfl, hlen, hmax⟩]
    obtain ⟨n, rfl⟩ := Nat.exists_eq_succ_of_ne_zero (Nat.ne_of_gt (Nat.zero_lt_of_lt hcount))
    refine times_declined (takesPrefix_scanFrame _) (refuses_scanFrame _) hcount ?_ ht
    intro piece hp
    refine (scanFrame_or (redisFrameMaxDepth - depth) piece).imp id fun hsame => ?_
    rw [hsame]
    exact redisFrame_eq_ok_nil.2 (hpieces piece hp)

/-- Where only the framer of the switch declines, there is an array inside eight others. -/
theorem Reached.exists_deep {s t : Bytes} {depth levels : ℕ} (h : Reached s depth t)
    (hlevel : depth + levels = redisFrameMaxDepth) (hscan : scanFrame (levels + 1) t = .declined)
    (hframe : redisFrame (levels + 1) t ≠ .declined) :
    ∃ t', Reached s redisFrameMaxDepth t' ∧ t'.head? = some 42 := by
  induction levels generalizing depth t with
  | zero =>
    rw [scanFrame] at hscan
    rw [redisFrame_succ] at hframe
    obtain rfl : depth = redisFrameMaxDepth := hlevel
    rcases Head.frame_eq_declined.1 hscan with hswitch | ⟨v, data, hswitch, -⟩
    · rw [frameSwitch_eq] at hswitch
      split at hswitch
      · rename_i hdeep
        exact ⟨t, h, hdeep.1⟩
      · exact absurd (Head.frame_eq_declined.2 (Or.inl (Head.flat_eq_declined.1 hswitch))) hframe
    · exact absurd (frameSwitch_eq_array hswitch).2.1 (Nat.lt_irrefl _)
  | succ levels ih =>
    have hdepth : redisFrameMaxDepth - (levels + 1) = depth := by omega
    rw [scanFrame, hdepth] at hscan
    rw [redisFrame_succ] at hframe
    rcases Head.frame_eq_declined.1 hscan with hswitch | ⟨v, data, hswitch, hscan⟩
    · rw [frameSwitch_eq, if_neg fun hdeep => absurd hdeep.2 (by omega)] at hswitch
      exact absurd (Head.frame_eq_declined.2 (Or.inl (Head.flat_eq_declined.1 hswitch))) hframe
    · obtain ⟨-, -, hhead⟩ := frameSwitch_eq_array hswitch
      rw [hhead] at hframe
      obtain ⟨pieces, next, hcount, rfl, hpieces, hnext⟩ :=
        (takesPrefix_scanFrame _).times_eq_declined.1 hscan
      have hread : ∀ piece ∈ pieces, redisFrame (levels + 1) piece = .ok [] := by
        intro piece hp
        rcases scanFrame_or (levels + 1) piece with hbad | hsame
        · rw [hpieces piece hp] at hbad
          cases hbad
        · rw [← hsame, hpieces piece hp]
      obtain ⟨len, rfl, hlen, hmax⟩ := elementHead_eq_array.1 hhead
      have hsub : redisFrameMaxDepth - depth = levels + 1 := by omega
      refine ih (Reached.member h hlen hmax (by omega) hcount fun piece hp => ?_) (by omega) hnext
        fun hbad => hframe ((takesPrefix_redisFrame _).times_eq_declined.2
          ⟨pieces, next, hcount, rfl, hread, hbad⟩)
      rw [hsub]
      exact redisFrame_eq_ok_nil.1 (hread piece hp)

/-- The walk over `x` comes to a refused element, or to no array inside eight others. -/
def Shallow (x : Bytes) : Prop :=
  (∃ depth t, Reached x depth t ∧ Refused depth t) ∨
    ∀ t, Reached x redisFrameMaxDepth t → t.head? ≠ some 42

/-- **The framers agree on a buffer exactly where it is shallow.** -/
theorem scanFrame_eq_iff {s : Bytes} :
    scanFrame (redisFrameMaxDepth + 1) s = replyFrame s ↔ Shallow s := by
  rw [Shallow, ← replyFrame_eq_declined]
  constructor
  · intro heq
    by_cases hframe : replyFrame s = .declined
    · exact Or.inl hframe
    · refine Or.inr fun t ht hstar => hframe ?_
      rw [← heq]
      refine ht.scan_declined ?_
      rw [Nat.sub_self, scanFrame, Nat.sub_zero, frameSwitch_eq, if_pos ⟨hstar, Nat.le_refl _⟩]
      rfl
  · intro h
    rcases scanFrame_or (redisFrameMaxDepth + 1) s with hscan | hsame
    · by_cases hframe : replyFrame s = .declined
      · rw [hscan, hframe]
      · obtain ⟨t, ht, hstar⟩ := Reached.root.exists_deep (Nat.zero_add _) hscan hframe
        exact absurd hstar (h.resolve_left hframe t ht)
    · exact hsame

/-! ## A page that arrives in pieces -/

/-- One call of `ngx_http_cache_turbo_redis_frame_scan`: what had been received, the fields
before it, its verdict and the fields after it. -/
structure Call where
  rbuf : Bytes
  before : FrameScan
  verdict : Scan UInt8
  after : FrameScan

/-- The calls on the prefixes of `s` of the lengths `ns`, up to the first verdict that is not
`NGX_AGAIN`. -/
def scanCalls (s : Bytes) : FrameScan → List ℕ → List Call
  | _, [] => []
  | op, n :: ns =>
      ⟨s.take n, op, (frameScan (s.take n) op).1, (frameScan (s.take n) op).2⟩ ::
        if (frameScan (s.take n) op).1 = .again then scanCalls s (frameScan (s.take n) op).2 ns
        else []

/-- The call says what `ngx_http_cache_turbo_redis_frame` says of the same bytes.  It moves
forward and stays inside the buffer and inside `frame_remain`; it reads nothing before
`frame_off`, and where it asks for more the element there is not complete. -/
structure Call.Agrees (c : Call) : Prop where
  verdict : c.verdict = replyFrame c.rbuf
  forward : c.before.off ≤ c.after.off
  inside : c.after.off ≤ c.rbuf.length
  depth : c.after.depth ≤ redisFrameMaxDepth
  unconfirmed : c.verdict = .again → elementHead (c.rbuf.drop c.after.off) = .again
  unread : ∀ other : Bytes, other.length = c.rbuf.length →
    other.drop c.before.off = c.rbuf.drop c.before.off →
      frameScan other c.before = (c.verdict, c.after)

theorem CallSpec.agrees_iff {rbuf : Bytes} {op : FrameScan} (h : CallSpec rbuf op (frameScan rbuf op)) :
    Call.Agrees ⟨rbuf, op, (frameScan rbuf op).1, (frameScan rbuf op).2⟩ ↔ Shallow rbuf := by
  rw [← scanFrame_eq_iff, ← h.verdict]
  exact ⟨fun hc => hc.verdict, fun hverdict => ⟨hverdict, h.forward, h.inside, h.depth,
    h.unconfirmed, fun other hlen hrest => frameScan_unread hlen hrest⟩⟩

/-- Where the framers agree and have come to an end, they agree on all that comes later. -/
theorem Shallow.later {x y : Bytes} (h : Shallow x) (hxy : x <+: y)
    (hend : scanFrame (redisFrameMaxDepth + 1) x ≠ .again) : Shallow y := by
  obtain ⟨more, rfl⟩ := hxy
  have hsame := scanFrame_eq_iff.2 h
  rw [← scanFrame_eq_iff]
  rcases hscan : scanFrame (redisFrameMaxDepth + 1) x with _ | _ | next
  · exact absurd hscan hend
  · rw [hscan] at hsame
    have hframe := refuses_redisFrame (redisFrameMaxDepth + 1) hsame.symm more
    rw [refuses_scanFrame (redisFrameMaxDepth + 1) hscan more]
    exact hframe.symm
  · rw [hscan] at hsame
    rw [(takesPrefix_scanFrame _).append hscan more, takesPrefix_replyFrame.append hsame.symm more]

theorem starred_take {s : Bytes} (hs : s.head? = some 42) (n : ℕ) : Starred (s.take n) := by
  cases s with
  | nil => cases hs
  | cons c s =>
    cases n with
    | zero => exact Or.inl rfl
    | succ n => exact Or.inr hs

/-- The calls from a state that earlier ones have left.  The induction is on the calls: one that
asks for more leaves a state to go on from, and after any other the prefixes to come are framed
alike. -/
theorem scanCalls_agree_iff {s x : Bytes} (hs : s.head? = some 42) {op : FrameScan} {ns : List ℕ}
    (hop : Paused x op) (hx : ∀ n ∈ ns, x <+: s.take n) (hgrow : ns.Pairwise (· ≤ ·)) :
    (∀ c ∈ scanCalls s op ns, c.Agrees) ↔ ∀ n ∈ ns, Shallow (s.take n) := by
  induction ns generalizing x op with
  | nil => exact ⟨fun _ => nofun, fun _ => nofun⟩
  | cons n ns ih =>
    obtain ⟨hle, hgrow⟩ := List.pairwise_cons.1 hgrow
    have hcall := frameScan_spec hop (hx n List.mem_cons_self) (starred_take hs n)
    have hlater : ∀ m ∈ ns, s.take n <+: s.take m := fun m hm =>
      List.take_prefix_take_left (hle m hm)
    rw [scanCalls, List.forall_mem_cons, List.forall_mem_cons, hcall.agrees_iff]
    refine and_congr_right fun hshallow => ?_
    by_cases hagain : (frameScan (s.take n) op).1 = .again
    · rw [if_pos hagain]
      exact ih (hcall.paused hagain) hlater hgrow
    · rw [if_neg hagain]
      rw [hcall.verdict] at hagain
      exact ⟨fun _ m hm => hshallow.later (hlater m hm) hagain, fun _ => nofun⟩

/-- **The resumable framer against the recursive one.**  On a reply that is an array, received
in growing prefixes, each call says what `ngx_http_cache_turbo_redis_frame` says, exactly when
no prefix that is well formed so far has an array inside eight others. -/
theorem frame_scan_agrees_iff {s : Bytes} (hs : s.head? = some 42) {ns : List ℕ}
    (hgrow : ns.Pairwise (· ≤ ·)) :
    (∀ c ∈ scanCalls s .fresh ns, c.Agrees) ↔ ∀ n ∈ ns, Shallow (s.take n) :=
  scanCalls_agree_iff hs (Paused.fresh : Paused [] .fresh) (fun _ _ => List.nil_prefix) hgrow

/-- Eight arrays of one element each, the innermost with an empty array in it. -/
def nestedEmpty : Bytes := (List.replicate 8 (lit ['*', '1'] ++ crlf)).flatten ++ lit ['*', '0'] ++ crlf

/-- The recursive framer finds the end of `nestedEmpty`, the resumable one declines it. -/
theorem frame_scan_declines_nested_empty :
    ¬ ∀ s : Bytes, s.head? = some 42 → ∀ ns : List ℕ, ns.Pairwise (· < ·) →
      ns.getLast? = some s.length → ∀ c ∈ scanCalls s .fresh ns, c.Agrees := by
  intro h
  have hall := h nestedEmpty rfl [36] (List.pairwise_singleton _ _) rfl
  have hverdict := (hall _ List.mem_cons_self).verdict
  dsimp only at hverdict
  rw [(frameScan_fresh (starred_take rfl 36)).verdict] at hverdict
  exact absurd hverdict (by decide)

/-- A page that arrives in two pieces. -/
theorem frame_scan_agrees_page :
    (∀ c ∈ scanCalls (lit ['*', '1'] ++ crlf ++ lit [':', '5'] ++ crlf) .fresh [5, 8], c.Agrees) ↔
      ∀ n ∈ [5, 8], Shallow ((lit ['*', '1'] ++ crlf ++ lit [':', '5'] ++ crlf).take n) :=
  frame_scan_agrees_iff rfl (by decide)

end L2
end CacheTurbo
