/-
# Replies of a command that is not waited for

The frames of the Redis protocol (`ngx_http_cache_turbo_redis_resp_len`,
`ngx_http_cache_turbo_redis_frame`) and the reader that counts the replies of a
pipeline (`ngx_http_cache_turbo_redis_read_drain`).  The reader looks at its whole
buffer after every read; `drainEvent` is one turn of its loop.

`drainEvent_spec` is what its verdict says: the bytes that came are the replies that
were expected, and none of them is an error.
-/

import CacheTurbo.L2.RedisOp

namespace CacheTurbo
namespace L2

open Bytes Incremental

/-! ## Frames -/

/-- `NGX_HTTP_CACHE_TURBO_REDIS_MAX_REPLY`. -/
def redisMaxReply : ℕ := 64 * 1024 * 1024 + (20 + 5)

/-- `NGX_HTTP_CACHE_TURBO_REDIS_MAX_MEMBERS`. -/
def redisMaxMembers : ℕ := 1024 * 1024

/-- `NGX_HTTP_CACHE_TURBO_REDIS_FRAME_MAX_DEPTH`. -/
def redisFrameMaxDepth : ℕ := 8

/-- What `ngx_http_cache_turbo_redis_resp_len` answers; `nil` is `NGX_DONE`. -/
inductive RespLen
  | nil
  | error
  | ok (v : ℕ)
  deriving DecidableEq, Repr

/-- `ngx_http_cache_turbo_redis_resp_len`. -/
def respLen (n : Bytes) : RespLen :=
  if n = [45, 49] then .nil
  else
    match atoi n with
    | none => .error
    | some v => .ok v

/-- A line, up to the first `CR`, that an `LF` has to follow. -/
def respLine (s : Bytes) (andThen : Bytes → Bytes → Scan UInt8) : Scan UInt8 :=
  match cut 13 s with
  | some (line, 10 :: next) => andThen line next
  | _ => .again

/-- The `v` bytes of a bulk string, and their end. -/
def bulkBody (v : ℕ) (data : Bytes) : Scan UInt8 :=
  if v > redisMaxReply then .declined
  else if data.length < v + 2 then .again
  else if (data.drop v).take 2 ≠ crlf then .declined
  else .ok (data.drop (v + 2))

/-- `ngx_http_cache_turbo_redis_frame`, with the levels of nesting that are left. -/
def redisFrame : ℕ → Bytes → Scan UInt8
  | 0, _ => .declined
  | levels + 1, s => Scan.onHead s fun c s =>
      if c = 43 ∨ c = 45 ∨ c = 58 then respLine s fun _ next => .ok next
      else if c = 36 then
        respLine s fun len data =>
          match respLen len with
          | .error => .declined
          | .nil => .ok data
          | .ok v => bulkBody v data
      else if c = 42 then
        respLine s fun len data =>
          match respLen len with
          | .error => .declined
          | .nil => .ok data
          | .ok v =>
              if v > redisMaxMembers then .declined
              else Scan.times (redisFrame levels) v data
      else .declined

/-- A frame at depth 0. -/
def replyFrame (s : Bytes) : Scan UInt8 := redisFrame (redisFrameMaxDepth + 1) s

theorem respLine_eq_ok {s next : Bytes} {andThen : Bytes → Bytes → Scan UInt8} :
    respLine s andThen = .ok next ↔
      ∃ line rest, s = line ++ 13 :: 10 :: rest ∧ 13 ∉ line ∧ andThen line rest = .ok next := by
  constructor
  · intro h
    unfold respLine at h
    split at h
    · rename_i line rest hcut
      obtain ⟨rfl, hline⟩ := cut_eq_some.1 hcut
      exact ⟨line, rest, rfl, hline, h⟩
    · cases h
  · rintro ⟨line, rest, rfl, hline, h⟩
    rw [respLine, cut_append hline]
    exact h

theorem takesPrefix_respLine {andThen : Bytes → Bytes → Scan UInt8}
    (h : ∀ line, TakesPrefix (andThen line)) : TakesPrefix fun s => respLine s andThen := by
  intro s next
  constructor
  · intro hread
    obtain ⟨line, rest, rfl, hline, hrest⟩ := respLine_eq_ok.1 hread
    obtain ⟨piece, rfl, hpiece⟩ := (h line rest next).1 hrest
    exact ⟨line ++ 13 :: 10 :: piece, by simp only [List.append_assoc, List.cons_append],
      respLine_eq_ok.2 ⟨line, piece, rfl, hline, hpiece⟩⟩
  · rintro ⟨piece, rfl, hread⟩
    obtain ⟨line, rest, rfl, hline, hrest⟩ := respLine_eq_ok.1 hread
    refine respLine_eq_ok.2 ⟨line, rest ++ next, ?_, hline, (h line _ next).2 ⟨rest, rfl, hrest⟩⟩
    simp only [List.append_assoc, List.cons_append]

theorem bulkBody_eq_ok {v : ℕ} {s next : Bytes} :
    bulkBody v s = .ok next ↔
      v ≤ redisMaxReply ∧ ∃ body, s = body ++ crlf ++ next ∧ body.length = v := by
  have hcrlf : crlf.length = 2 := rfl
  constructor
  · intro h
    unfold bulkBody at h
    split at h
    · cases h
    split at h
    · cases h
    split at h
    · cases h
    rename_i hv hlen hend
    refine ⟨by omega, s.take v, ?_, ?_⟩
    · obtain rfl := Scan.ok.inj h
      have hdrop : s.drop (v + 2) = (s.drop v).drop 2 := by rw [List.drop_drop]
      rw [hdrop, List.append_assoc, ← not_ne_iff.1 hend, List.take_append_drop,
        List.take_append_drop]
    · rw [List.length_take]
      omega
  · rintro ⟨hv, body, rfl, hlen⟩
    have hdrop : (body ++ crlf ++ next).drop v = crlf ++ next := by
      rw [List.append_assoc, ← hlen, List.drop_left]
    unfold bulkBody
    rw [if_neg (by omega), if_neg, if_neg]
    · rw [← List.drop_drop, hdrop]
      rfl
    · rw [hdrop]
      simp [crlf]
    · simp only [List.length_append]
      omega

theorem takesPrefix_bulkBody (v : ℕ) : TakesPrefix (bulkBody v) := by
  intro s next
  rw [bulkBody_eq_ok]
  constructor
  · rintro ⟨hv, body, rfl, hlen⟩
    exact ⟨body ++ crlf, rfl, bulkBody_eq_ok.2 ⟨hv, body, (List.append_nil _).symm, hlen⟩⟩
  · rintro ⟨piece, rfl, h⟩
    obtain ⟨hv, body, rfl, hlen⟩ := bulkBody_eq_ok.1 h
    exact ⟨hv, body, by rw [List.append_nil], hlen⟩

/-- **A frame ends where it ends**, whatever comes after it. -/
theorem takesPrefix_redisFrame (levels : ℕ) : TakesPrefix (redisFrame levels) := by
  induction levels with
  | zero => exact takesPrefix_declined
  | succ levels ih =>
    refine takesPrefix_onHead fun c => ?_
    by_cases hline : c = 43 ∨ c = 45 ∨ c = 58
    · simp only [if_pos hline]
      exact takesPrefix_respLine fun _ => takesPrefix_nothing
    simp only [if_neg hline]
    by_cases hbulk : c = 36
    · simp only [if_pos hbulk]
      refine takesPrefix_respLine fun len => ?_
      cases respLen len with
      | nil => exact takesPrefix_nothing
      | error => exact takesPrefix_declined
      | ok v => exact takesPrefix_bulkBody v
    simp only [if_neg hbulk]
    by_cases harray : c = 42
    · simp only [if_pos harray]
      refine takesPrefix_respLine fun len => ?_
      cases respLen len with
      | nil => exact takesPrefix_nothing
      | error => exact takesPrefix_declined
      | ok v =>
        by_cases hv : v > redisMaxMembers
        · simp only [if_pos hv]
          exact takesPrefix_declined
        · simp only [if_neg hv]
          exact ih.times v
    · simp only [if_neg harray]
      exact takesPrefix_declined

theorem takesPrefix_replyFrame : TakesPrefix replyFrame := takesPrefix_redisFrame _

/-! ## The drain -/

/-- The operation of a pipeline: how many replies it waits for, what it has received, and
`drain_failed`. -/
structure Drain where
  expected : ℕ
  recv : Bytes
  failed : Bool
  deriving DecidableEq, Repr

/-- What the inner loop of `read_drain` sees: a malformed frame, fewer frames than expected, or
what follows the last of them. -/
inductive DrainScan
  | declined
  | short (failed : Bool)
  | all (rest : Bytes) (failed : Bool)
  deriving DecidableEq, Repr

/-- The inner loop of `ngx_http_cache_turbo_redis_read_drain`, with `missing` replies to go. -/
def drainScan : ℕ → Bytes → Bool → DrainScan
  | 0, p, failed => .all p failed
  | missing + 1, p, failed =>
      match replyFrame p with
      | .again => .short failed
      | .declined => .declined
      | .ok next => drainScan missing next (failed || p.head? == some 45)

/-- What a drain is after an event: still waiting, or done, with the marks `clean` and
`drain_failed` as they are then. -/
inductive DrainState
  | live (d : Drain)
  | done (d : Drain) (clean : Bool)
  deriving DecidableEq, Repr

/-- What happens to a pipeline: its connection fails or one of its timers runs out, or there is
a read. -/
inductive DrainEvent
  | abandon
  | readable (r : RecvResult)
  deriving DecidableEq, Repr

/-- One turn of the loop of `ngx_http_cache_turbo_redis_read_drain`. -/
def drainEvent (d : Drain) : DrainEvent → DrainState
  | .abandon => .done d false
  | .readable r =>
      if d.recv.length ≥ recvSize then .done d false
      else
        match r with
        | .again armed => if armed then .live d else .done d false
        | .failed => .done d false
        | .data bs =>
            let bs := bs.take (recvSize - d.recv.length)
            if bs = [] then .done d false
            else
              let recv := d.recv ++ bs
              match drainScan d.expected recv d.failed with
              | .declined => .done { d with recv := recv } false
              | .short failed => .live { d with recv := recv, failed := failed }
              | .all [] failed => .done { d with recv := recv, failed := failed } true
              | .all (_ :: _) failed => .done { d with recv := recv, failed := failed } false

/-- The verdict that `ngx_http_cache_turbo_redis_op_done` hands to the completion. -/
def drainVerdict (d : Drain) (clean : Bool) : Bool := clean && !d.failed

/-- **The bytes are `n` complete replies, none of them an error.** -/
def RepliesOk (n : ℕ) (recv : Bytes) : Prop :=
  ∃ replies : List Bytes, replies.length = n ∧ recv = replies.flatten ∧
    ∀ reply ∈ replies, replyFrame reply = .ok [] ∧ reply.head? ≠ some 45

theorem repliesOk_zero {recv : Bytes} : RepliesOk 0 recv ↔ recv = [] := by
  constructor
  · rintro ⟨replies, hlen, rfl, -⟩
    rw [List.length_eq_zero_iff.1 hlen]
    rfl
  · rintro rfl
    exact ⟨[], rfl, rfl, nofun⟩

/-- One reply more is one frame more in front. -/
theorem repliesOk_succ {n : ℕ} {recv : Bytes} :
    RepliesOk (n + 1) recv ↔
      ∃ rest, replyFrame recv = .ok rest ∧ recv.head? ≠ some 45 ∧ RepliesOk n rest := by
  constructor
  · rintro ⟨replies, hlen, rfl, hall⟩
    cases replies with
    | nil => cases hlen
    | cons reply replies =>
      obtain ⟨hframe, hhead⟩ := hall reply List.mem_cons_self
      refine ⟨replies.flatten, (takesPrefix_replyFrame _ _).2 ⟨reply, rfl, hframe⟩, ?_,
        replies, Nat.succ.inj hlen, rfl, fun r hr => hall r (List.mem_cons_of_mem _ hr)⟩
      cases reply with
      | nil => cases hframe
      | cons c reply => exact hhead
  · rintro ⟨rest, hframe, hhead, replies, hlen, rfl, hall⟩
    obtain ⟨piece, rfl, hpiece⟩ := (takesPrefix_replyFrame _ _).1 hframe
    refine ⟨piece :: replies, by rw [List.length_cons, hlen], rfl, fun r hr => ?_⟩
    rcases List.mem_cons.1 hr with rfl | hr
    · refine ⟨hpiece, ?_⟩
      cases r with
      | nil => cases hpiece
      | cons c r => exact hhead
    · exact hall r hr

/-- The mark `drain_failed` is not taken back. -/
theorem drainScan_failed {n : ℕ} {p : Bytes} :
    drainScan n p true ≠ .short false ∧ ∀ rest, drainScan n p true ≠ .all rest false := by
  induction n generalizing p with
  | zero => simp [drainScan]
  | succ n ih =>
    rw [drainScan]
    split
    · exact ⟨by simp, nofun⟩
    · exact ⟨nofun, nofun⟩
    · exact ih

/-- **The loop ends with the last frame exactly when these are replies without an error.** -/
theorem drainScan_all_iff {n : ℕ} {p : Bytes} :
    drainScan n p false = .all [] false ↔ RepliesOk n p := by
  induction n generalizing p with
  | zero =>
    rw [repliesOk_zero, drainScan]
    simp
  | succ n ih =>
    rw [repliesOk_succ, drainScan]
    rcases hframe : replyFrame p with _ | _ | next
    · simp
    · simp
    · by_cases hhead : p.head? = some 45
      · simp only [hhead, Scan.ok.injEq, ne_eq, not_true_eq_false, false_and, and_false,
          exists_false, iff_false]
        exact drainScan_failed.2 []
      · have hmark : (false || p.head? == some 45) = false := by simp [hhead]
        simp only [hmark, ih, Scan.ok.injEq, exists_eq_left', hhead, ne_eq, not_false_eq_true,
          true_and]

/-- A drain that waits: it wants a reply, and what it has is short of them, with the mark as the
loop left it. -/
def Drain.Waiting (d : Drain) : Prop :=
  0 < d.expected ∧
    (d.recv = [] ∧ d.failed = false ∨ drainScan d.expected d.recv false = .short d.failed)

/-- A waiting drain has not received its replies. -/
theorem Drain.Waiting.not_ok {d : Drain} (h : d.Waiting) : ¬ RepliesOk d.expected d.recv := by
  obtain ⟨hpos, ⟨hrecv, -⟩ | hshort⟩ := h
  · obtain ⟨n, hn⟩ := Nat.exists_eq_succ_of_ne_zero (by omega : d.expected ≠ 0)
    rw [hn, hrecv, repliesOk_succ]
    rintro ⟨rest, hframe, -⟩
    cases hframe
  · intro hok
    rw [drainScan_all_iff.2 hok] at hshort
    cases hshort

/-- The loop starts over after every read, and sets the mark of the last time again. -/
theorem drainScan_again {n : ℕ} {p : Bytes} {failed : Bool}
    (h : drainScan n p false = .short failed) (more : Bytes) :
    drainScan n (p ++ more) failed = drainScan n (p ++ more) false := by
  induction n generalizing p with
  | zero => cases h
  | succ n ih =>
    rw [drainScan] at h
    rcases hframe : replyFrame p with _ | _ | next
    · rw [hframe] at h
      obtain rfl := DrainScan.short.inj h
      rfl
    · rw [hframe] at h
      cases h
    · rw [hframe] at h
      obtain ⟨piece, rfl, hpiece⟩ := (takesPrefix_replyFrame p next).1 hframe
      have hmore : replyFrame (piece ++ next ++ more) = .ok (next ++ more) :=
        (takesPrefix_replyFrame _ _).2 ⟨piece, List.append_assoc .., hpiece⟩
      cases piece with
      | nil => cases hpiece
      | cons c piece =>
        simp only [List.cons_append, List.head?_cons, Bool.false_or] at h
        rw [drainScan, drainScan, hmore]
        simp only [List.cons_append, List.head?_cons, Bool.false_or]
        by_cases hc : (some c == some (45 : UInt8)) = true
        · rw [hc, Bool.or_true]
        · rw [Bool.not_eq_true] at hc
          rw [hc] at h
          rw [hc, Bool.or_false]
          exact ih h

theorem Drain.Waiting.scan {d : Drain} (h : d.Waiting) (more : Bytes) :
    drainScan d.expected (d.recv ++ more) d.failed = drainScan d.expected (d.recv ++ more) false := by
  obtain ⟨-, ⟨-, hfailed⟩ | hshort⟩ := h
  · rw [hfailed]
  · exact drainScan_again hshort more

/-- **The verdict of a pipeline**: its replies have come, and none of them is an error. -/
theorem drainEvent_spec {d : Drain} (h : d.Waiting) (e : DrainEvent) :
    (∃ d', drainEvent d e = .live d' ∧ d'.expected = d.expected ∧ d'.Waiting) ∨
      ∃ d' clean, drainEvent d e = .done d' clean ∧ d'.expected = d.expected ∧
        (drainVerdict d' clean = true ↔ RepliesOk d'.expected d'.recv) := by
  have hstopped : drainVerdict d false = true ↔ RepliesOk d.expected d.recv :=
    ⟨fun hv => (Bool.false_ne_true hv).elim, fun hok => (h.not_ok hok).elim⟩
  cases e with
  | abandon => exact Or.inr ⟨d, false, rfl, rfl, hstopped⟩
  | readable r =>
    by_cases hfull : d.recv.length ≥ recvSize
    · simp only [drainEvent, if_pos hfull]
      exact Or.inr ⟨d, false, rfl, rfl, hstopped⟩
    simp only [drainEvent, if_neg hfull]
    cases r with
    | again armed =>
      cases armed with
      | false => exact Or.inr ⟨d, false, rfl, rfl, hstopped⟩
      | true => exact Or.inl ⟨d, rfl, rfl, h⟩
    | failed => exact Or.inr ⟨d, false, rfl, rfl, hstopped⟩
    | data bs =>
      dsimp only
      split
      · exact Or.inr ⟨d, false, rfl, rfl, hstopped⟩
      -- the buffer with what was read: `drainScan_all_iff` reads the verdict off the loop
      rw [h.scan]
      have hall := @drainScan_all_iff d.expected (d.recv ++ bs.take (recvSize - d.recv.length))
      rcases hscan : drainScan d.expected (d.recv ++ bs.take (recvSize - d.recv.length)) false with
        _ | failed | ⟨_ | ⟨c, rest⟩, failed⟩
      · rw [hscan] at hall
        exact Or.inr ⟨_, false, rfl, rfl, ⟨nofun, fun hok => by cases hall.2 hok⟩⟩
      · exact Or.inl ⟨_, rfl, rfl, h.1, Or.inr hscan⟩
      · rw [hscan] at hall
        refine Or.inr ⟨_, true, rfl, rfl, ?_⟩
        rw [← hall]
        cases failed <;> simp [drainVerdict]
      · rw [hscan] at hall
        exact Or.inr ⟨_, false, rfl, rfl, ⟨nofun, fun hok => by cases hall.2 hok⟩⟩

end L2
end CacheTurbo
