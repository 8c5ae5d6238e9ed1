/-
# The reply to a GET

`ngx_http_cache_turbo_redis_fill` reads into a buffer that doubles up to a cap,
`ngx_http_cache_turbo_redis_parse` looks at all of it after every read, and
`ngx_http_cache_turbo_redis_read_get` goes round until one of the two has an answer.
The socket is the part of the server's stream that has not been read, as for memcached;
a turn also says whether the pool has room for a larger buffer.

A hit is one bulk string within the size limit and a miss is one nil, with nothing after
either (`GetHit`, `nilReply`).  `redisReadGet_spec` is the run of the loop.
-/

import CacheTurbo.Http.CaptureBlob
import CacheTurbo.L2.Elements

namespace CacheTurbo
namespace L2

open Bytes Incremental

/-! ## The operation -/

/-- `NGX_HTTP_CACHE_TURBO_REDIS_MAX_VALUE`. -/
def redisMaxValue : ℕ := 64 * 1024 * 1024

/-- `NGX_HTTP_CACHE_TURBO_REDIS_GET_FRAMING_MAX`. -/
def redisGetFramingMax : ℕ := 20 + 5

/-- `ngx_http_cache_turbo_redis_get_reply_max`. -/
def getReplyMax (maxSize : ℕ) : ℕ := if maxSize = 0 then redisMaxReply else maxSize + redisGetFramingMax

/-- The operation of a `GET`: the buffer, its capacity and its cap, and the mark that the
connection can be kept. -/
structure RedisGet where
  rbuf : Bytes
  rcap : ℕ
  replyMax : ℕ
  clean : Bool
  deriving DecidableEq, Repr

/-- The operation that `ngx_http_cache_turbo_redis_get` starts. -/
def redisGetStart (pagesize maxSize : ℕ) : RedisGet :=
  ⟨[], min (pagesize * 4) (getReplyMax maxSize), getReplyMax maxSize, false⟩

/-- The buffer of `ngx_http_cache_turbo_redis_fill` before it reads; `none` is the cap, or that
there is no room. -/
def redisGrow (room : Bool) (op : RedisGet) : Option RedisGet :=
  if op.rbuf.length = op.rcap then
    if op.rcap ≥ op.replyMax then none
    else
      let ncap := op.rcap * 2
      let ncap := if ncap > op.replyMax then op.replyMax else ncap
      if room then some { op with rcap := ncap } else none
  else some op

/-- `ngx_http_cache_turbo_redis_fill`; `none` is `NGX_ERROR`, and a read of no bytes
`NGX_AGAIN`. -/
def redisFill (op : RedisGet) (room : Bool) (e : Recv) (s : Bytes) :
    Option (RedisGet × Bytes × Bytes) :=
  match redisGrow room op with
  | none => none
  | some op =>
      (recv e (op.rcap - op.rbuf.length) s).map fun (got, left) =>
        ({ op with rbuf := op.rbuf ++ got }, got, left)

/-- What `ngx_http_cache_turbo_redis_parse` says of the buffer. -/
inductive GetParse
  | again
  | error
  | declined
  | ok (blob : Bytes)
  deriving DecidableEq, Repr

/-- `ngx_http_cache_turbo_redis_parse`. -/
def redisParse (maxSize : ℕ) (rbuf : Bytes) : GetParse :=
  match rbuf with
  | [] => .again
  | c :: s =>
      if c ≠ 36 then .error
      else
        match lineEnd s with
        | none => .again
        | some (len, data) =>
            match respLen len with
            | .nil => if data ≠ [] then .error else .declined
            | .error => .error
            | .ok v =>
                if v > (if maxSize > 0 then maxSize else redisMaxValue) then .error
                else if data.length < v + 2 then .again
                else if (data.drop v).take 2 ≠ crlf then .error
                else if data.length ≠ v + 2 then .error
                else .ok (data.take v)

/-- A turn of the loop: whether there is room for a larger buffer, and what the socket has. -/
structure GetTurn where
  room : Bool
  recv : Recv
  deriving DecidableEq, Repr

/-- `ngx_http_cache_turbo_redis_read_get` over the turns of its loop: the verdict, or none while
it waits. -/
def redisReadGet (maxSize : ℕ) : List GetTurn → RedisGet → Bytes → Option GetVerdict × RedisGet
  | [], op, _ => (none, op)
  | t :: ts, op, s =>
      match redisFill op t.room t.recv s with
      | none => (some .error, op)
      | some (op, [], left) => redisReadGet maxSize ts op left
      | some (op, _ :: _, left) =>
          match redisParse maxSize op.rbuf with
          | .again => redisReadGet maxSize ts op left
          | .error => (some .error, op)
          | .declined => (some .miss, { op with clean := true })
          | .ok blob => (some (.hit blob), { op with clean := true })

/-- What `ngx_http_cache_turbo_redis_get_finish` makes of a verdict, with or without room for a
copy of the blob. -/
def getFinish (room : Bool) : GetVerdict → GetVerdict
  | .hit blob => if blob ≠ [] ∧ room = false then .error else .hit blob
  | v => v

/-- Whether `ngx_http_cache_turbo_access_l2_miss_account` writes a negative memo for the result
of a `GET`. -/
def memoArmed (negativeTtl : Time) (skipped : Bool) (result : GetVerdict) : Bool :=
  decide (negativeTtl > 0) && !skipped && result == .miss

/-! ## The answers -/

/-- The whole reply of a miss. -/
def nilReply : Bytes := 36 :: ([45, 49] ++ crlf)

/-- A whole reply with `blob` as its data, of a size that is allowed. -/
def GetHit (maxSize : ℕ) (reply blob : Bytes) : Prop :=
  ∃ len, reply = 36 :: (len ++ crlf ++ (blob ++ crlf)) ∧ atoi len = some blob.length ∧
    blob.length ≤ maxSize

variable {maxSize : ℕ}

/-- The parser after the first line. -/
theorem redisParse_line (hmax : 0 < maxSize) {len : Bytes} (hlen : 13 ∉ len) (data : Bytes) :
    redisParse maxSize (36 :: (len ++ crlf ++ data)) =
      match respLen len with
      | .nil => if data ≠ [] then .error else .declined
      | .error => .error
      | .ok v =>
          if v > maxSize then .error
          else if data.length < v + 2 then .again
          else if (data.drop v).take 2 ≠ crlf then .error
          else if data.length ≠ v + 2 then .error
          else .ok (data.take v) := by
  unfold redisParse
  dsimp only
  rw [if_neg (not_not_intro rfl), append_crlf, lineEnd_eq_some.2 ⟨rfl, hlen⟩, if_pos hmax]

/-- What the parser has seen when it answers: another type of reply, or the first line. -/
theorem redisParse_cases {p : Bytes} (h : redisParse maxSize p ≠ .again) :
    (∃ c s, p = c :: s ∧ c ≠ 36) ∨ ∃ len data, p = 36 :: (len ++ crlf ++ data) ∧ 13 ∉ len := by
  cases p with
  | nil => exact absurd rfl h
  | cons c s =>
    by_cases hc : c = 36
    · subst hc
      right
      unfold redisParse at h
      dsimp only at h
      rw [if_neg (not_not_intro rfl)] at h
      rcases hend : lineEnd s with _ | ⟨len, data⟩
      · rw [hend] at h
        exact absurd rfl h
      · obtain ⟨rfl, hlen⟩ := lineEnd_eq_some.1 hend
        exact ⟨len, data, by rw [List.append_assoc]; rfl, hlen⟩
    · exact Or.inl ⟨c, s, rfl, hc⟩

theorem redisParse_kind {c : UInt8} (hc : c ≠ 36) (s : Bytes) : redisParse maxSize (c :: s) = .error :=
  if_pos hc

/-- **A hit is one bulk string**, and nothing after it. -/
theorem redisParse_eq_ok (hmax : 0 < maxSize) {p blob : Bytes} :
    redisParse maxSize p = .ok blob ↔ GetHit maxSize p blob := by
  have hcrlf : crlf.length = 2 := rfl
  constructor
  · intro h
    rcases redisParse_cases (by rw [h]; nofun) with ⟨c, s, rfl, hc⟩ | ⟨len, data, rfl, hlen⟩
    · rw [redisParse_kind hc] at h
      cases h
    · rw [redisParse_line hmax hlen] at h
      rcases hresp : respLen len with _ | _ | v
      · rw [hresp] at h
        dsimp only at h
        split at h
        · cases h
        · cases h
      · rw [hresp] at h
        cases h
      · rw [hresp] at h
        dsimp only at h
        split at h
        · cases h
        rename_i hle
        split at h
        · cases h
        split at h
        · cases h
        rename_i hend
        split at h
        · cases h
        rename_i hall
        obtain rfl := GetParse.ok.inj h
        have hblob : (data.take v).length = v := by
          rw [List.length_take]
          omega
        have hdata : data.take v ++ crlf = data := by
          rw [not_ne_iff] at hend hall
          have htake : (data.drop v).take 2 = data.drop v :=
            List.take_of_length_le (by rw [List.length_drop]; omega)
          rw [← hend, htake, List.take_append_drop]
        refine ⟨len, by rw [hdata], ?_, ?_⟩
        · rw [hblob]
          exact respLen_eq_ok.1 hresp
        · rw [hblob]
          exact Nat.le_of_not_lt hle
  · rintro ⟨len, rfl, hlen, hle⟩
    rw [redisParse_line hmax (atoi_not_cr hlen), respLen_eq_ok.2 hlen]
    have htake : crlf.take 2 = crlf := rfl
    dsimp only
    rw [if_neg (Nat.not_lt.2 hle), if_neg (by rw [List.length_append, hcrlf]; omega), List.drop_left,
      htake, if_neg (not_not_intro rfl), if_neg (by rw [List.length_append, hcrlf]; omega), List.take_left]

/-- **A miss is one nil**, and nothing after it. -/
theorem redisParse_eq_declined (hmax : 0 < maxSize) {p : Bytes} :
    redisParse maxSize p = .declined ↔ p = nilReply := by
  constructor
  · intro h
    rcases redisParse_cases (by rw [h]; nofun) with ⟨c, s, rfl, hc⟩ | ⟨len, data, rfl, hlen⟩
    · rw [redisParse_kind hc] at h
      cases h
    · rw [redisParse_line hmax hlen] at h
      rcases hresp : respLen len with _ | _ | v
      · rw [hresp] at h
        dsimp only at h
        split at h
        · cases h
        rename_i hdata
        rw [not_ne_iff.1 hdata, respLen_eq_nil.1 hresp, List.append_nil]
        rfl
      · rw [hresp] at h
        cases h
      · rw [hresp] at h
        dsimp only at h
        split_ifs at h
  · rintro rfl
    have hnil : 13 ∉ ([45, 49] : Bytes) := by decide
    exact redisParse_line hmax hnil []

/-- A reply that is no reply to a `GET` stays none. -/
theorem redisParse_error_append (hmax : 0 < maxSize) {p : Bytes} (h : redisParse maxSize p = .error)
    (y : Bytes) : redisParse maxSize (p ++ y) = .error := by
  rcases redisParse_cases (by rw [h]; nofun) with ⟨c, s, rfl, hc⟩ | ⟨len, data, rfl, hlen⟩
  · exact redisParse_kind hc (s ++ y)
  · have hshape : 36 :: (len ++ crlf ++ data) ++ y = 36 :: (len ++ crlf ++ (data ++ y)) := by
      simp only [List.append_assoc, List.cons_append]
    rw [redisParse_line hmax hlen] at h
    rw [hshape, redisParse_line hmax hlen]
    rcases hresp : respLen len with _ | _ | v
    · rw [hresp] at h
      dsimp only at h ⊢
      split at h
      · rename_i hdata
        exact if_pos fun hnil => hdata (List.append_eq_nil_iff.1 hnil).1
      · cases h
    · rfl
    · rw [hresp] at h
      dsimp only at h ⊢
      by_cases hbig : v > maxSize
      · rw [if_pos hbig]
      rw [if_neg hbig] at h ⊢
      by_cases hshort : data.length < v + 2
      · rw [if_pos hshort] at h
        cases h
      rw [if_neg hshort] at h
      have htake : ((data ++ y).drop v).take 2 = (data.drop v).take 2 := by
        rw [List.drop_append_of_le_length (by omega),
          List.take_append_of_le_length (by rw [List.length_drop]; omega)]
      rw [if_neg (by rw [List.length_append]; omega), htake]
      by_cases hend : (data.drop v).take 2 ≠ crlf
      · rw [if_pos hend]
      rw [if_neg hend] at h ⊢
      split at h
      · rename_i hlong
        rw [if_pos (by rw [List.length_append]; omega)]
      · cases h

/-! ## The loop -/

/-- A buffer and its capacity as the loop keeps them. -/
structure RedisGet.Fits (op : RedisGet) : Prop where
  held : op.rbuf.length ≤ op.rcap
  some : 0 < op.rcap
  capped : op.rcap ≤ op.replyMax

theorem redisGetStart_fits {pagesize : ℕ} (hpage : 0 < pagesize) (hmax : 0 < maxSize) :
    (redisGetStart pagesize maxSize).Fits := by
  have hcap : 0 < getReplyMax maxSize := by
    rw [getReplyMax, if_neg (Nat.ne_of_gt hmax)]
    omega
  refine ⟨Nat.zero_le _, ?_, Nat.min_le_right _ _⟩
  exact lt_min (by omega) hcap

/-- **A buffer grows, keeps what it holds and has room again**, unless it is full at the cap or
the pool has no room. -/
theorem redisGrow_cases {op : RedisGet} (h : op.Fits) (room : Bool) :
    (redisGrow room op = none ∧ (room = false ∨ op.rbuf.length = op.replyMax)) ∨
      ∃ cap, redisGrow room op = some { op with rcap := cap } ∧ op.rbuf.length < cap ∧
        cap ≤ op.replyMax := by
  have hheld := h.held
  have hcapped := h.capped
  have hsome := h.some
  unfold redisGrow
  by_cases hfull : op.rbuf.length = op.rcap
  · rw [if_pos hfull]
    by_cases hcap : op.rcap ≥ op.replyMax
    · exact Or.inl ⟨if_pos hcap, Or.inr (by omega)⟩
    · rw [if_neg hcap]
      dsimp only
      cases room with
      | false => exact Or.inl ⟨rfl, Or.inl rfl⟩
      | true =>
        refine Or.inr ⟨_, rfl, ?_, ?_⟩
        · split <;> omega
        · split <;> omega
  · exact Or.inr ⟨op.rcap, if_neg hfull, by omega, hcapped⟩

/-- A turn in which the socket has bytes. -/
def GetTurn.reads (t : GetTurn) : Bool :=
  match t.recv with
  | .bytes _ => true
  | _ => false

/-- A turn that the pool and the socket do not fail. -/
def GetTurn.Sound (t : GetTurn) : Prop := t.room = true ∧ t.recv ≠ .failed

/-- What one call of `fill` does: it fails, or it appends what came, at least a byte when there
is one. -/
theorem redisFill_cases {op : RedisGet} (h : op.Fits) (t : GetTurn) (s : Bytes) :
    (redisFill op t.room t.recv s = none ∧ (¬ t.Sound ∨ op.rbuf.length = op.replyMax)) ∨
      ∃ cap got left, redisFill op t.room t.recv s =
          some (⟨op.rbuf ++ got, cap, op.replyMax, op.clean⟩, got, left) ∧
        s = got ++ left ∧ RedisGet.Fits ⟨op.rbuf ++ got, cap, op.replyMax, op.clean⟩ ∧
          (t.reads = true → got = [] → s = []) := by
  unfold redisFill
  rcases redisGrow_cases h t.room with ⟨hnone, hwhy⟩ | ⟨cap, hgrow, hlt, hle⟩
  · rw [hnone]
    refine Or.inl ⟨rfl, hwhy.imp_left fun hroom hsound => ?_⟩
    rw [hsound.1] at hroom
    cases hroom
  · rw [hgrow]
    dsimp only
    rcases hrecv : recv t.recv (cap - op.rbuf.length) s with _ | ⟨got, left⟩
    · refine Or.inl ⟨rfl, Or.inl fun hsound => ?_⟩
      have hok := hsound.2
      cases ht : t.recv with
      | failed => exact hok ht
      | again => rw [ht] at hrecv; cases hrecv
      | bytes n => rw [ht] at hrecv; cases hrecv
    · obtain ⟨hs, hgot⟩ := recv_eq_some hrecv
      refine Or.inr ⟨cap, got, left, rfl, hs, ⟨?_, Nat.zero_lt_of_lt hlt, hle⟩, fun hreads hnil => ?_⟩
      · rw [List.length_append]
        dsimp only
        omega
      · unfold GetTurn.reads at hreads
        cases ht : t.recv with
        | failed => rw [ht] at hreads; cases hreads
        | again => rw [ht] at hreads; cases hreads
        | bytes n =>
          rw [ht] at hrecv
          obtain ⟨htake, -⟩ := Prod.mk.inj (Option.some.inj hrecv)
          rw [hnil, List.take_eq_nil_iff] at htake
          exact htake.resolve_left (by omega)

/-- What a run of the loop says of the buffer it started with: it received a piece of the stream,
its verdict is the parser's, the mark stands with an answer, and every turn with bytes to read
takes some. -/
structure GetSpec (maxSize : ℕ) (ts : List GetTurn) (op : RedisGet) (s : Bytes)
    (r : Option GetVerdict × RedisGet) : Prop where
  received : ∃ got left, s = got ++ left ∧ r.2.rbuf = op.rbuf ++ got ∧
    (r.1 = none → min (ts.countP GetTurn.reads) s.length ≤ got.length)
  hit : ∀ blob, r.1 = some (.hit blob) ↔ redisParse maxSize r.2.rbuf = .ok blob
  miss : r.1 = some .miss ↔ redisParse maxSize r.2.rbuf = .declined
  clean : r.2.clean = true ↔ op.clean = true ∨ r.1 = some .miss ∨ ∃ blob, r.1 = some (.hit blob)
  error : r.1 = some .error → (∃ t ∈ ts, ¬ t.Sound) ∨
    r.2.rbuf.length = op.replyMax ∧ redisParse maxSize r.2.rbuf = .again ∨
      redisParse maxSize r.2.rbuf = .error

/-- A later turn sees the stream where this one left it. -/
theorem GetSpec.turn {t : GetTurn} {ts : List GetTurn} {op : RedisGet} {cap : ℕ} {got left : Bytes}
    {r : Option GetVerdict × RedisGet}
    (h : GetSpec maxSize ts ⟨op.rbuf ++ got, cap, op.replyMax, op.clean⟩ left r)
    (hreads : t.reads = true → got = [] → got ++ left = []) :
    GetSpec maxSize (t :: ts) op (got ++ left) r := by
  obtain ⟨⟨more, rest, rfl, hbuf, hprogress⟩, hhit, hmiss, hclean, herror⟩ := h
  refine ⟨⟨got ++ more, rest, (List.append_assoc ..).symm, hbuf.trans (List.append_assoc ..),
    fun hr => ?_⟩, hhit, hmiss, hclean, fun hr => ?_⟩
  · have hmin := hprogress hr
    rw [List.countP_cons]
    simp only [List.length_append] at hmin ⊢
    by_cases ht : t.reads = true
    · rw [if_pos ht]
      rcases Nat.eq_zero_or_pos got.length with hzero | hpos
      · have hnil := hreads ht (List.length_eq_zero_iff.1 hzero)
        have hlen := congrArg List.length hnil
        simp only [List.length_append, List.length_nil] at hlen
        omega
      · omega
    · rw [if_neg ht]
      omega
  · rcases herror hr with ⟨u, hu, hbad⟩ | hother
    · exact Or.inl ⟨u, List.mem_cons_of_mem t hu, hbad⟩
    · exact Or.inr hother

/-- **A run of the loop.**  The induction is on the turns; the buffer holds no answer when a turn
begins. -/
theorem redisReadGet_spec {ts : List GetTurn} {op : RedisGet} {s : Bytes} (hfits : op.Fits)
    (hwait : redisParse maxSize op.rbuf = .again) :
    GetSpec maxSize ts op s (redisReadGet maxSize ts op s) := by
  have hnohit : ∀ {q : Bytes} {v : Option GetVerdict}, redisParse maxSize q = .again →
      (v = none ∨ v = some .error) →
      (∀ blob, v = some (.hit blob) ↔ redisParse maxSize q = .ok blob) ∧
        (v = some .miss ↔ redisParse maxSize q = .declined) := by
    rintro q v hq (rfl | rfl)
    · exact ⟨fun blob => by rw [hq]; exact ⟨nofun, nofun⟩, by rw [hq]; exact ⟨nofun, nofun⟩⟩
    · exact ⟨fun blob => by rw [hq]; exact ⟨nofun, nofun⟩, by rw [hq]; exact ⟨nofun, nofun⟩⟩
  induction ts generalizing op s with
  | nil =>
    obtain ⟨hhit, hmiss⟩ := hnohit hwait (Or.inl rfl)
    exact ⟨⟨[], s, rfl, (List.append_nil _).symm, fun _ => by simp⟩, hhit, hmiss,
      ⟨Or.inl, fun h => h.resolve_right (by rintro (h | ⟨_, h⟩) <;> cases h)⟩, nofun⟩
  | cons t ts ih =>
    unfold redisReadGet
    rcases redisFill_cases hfits t s with ⟨hnone, hwhy⟩ | ⟨cap, got, left, hfill, rfl, hfits', hreads⟩
    · rw [hnone]
      obtain ⟨hhit, hmiss⟩ := hnohit hwait (Or.inr rfl)
      refine ⟨⟨[], s, rfl, (List.append_nil _).symm, nofun⟩, hhit, hmiss,
        ⟨Or.inl, fun h => h.resolve_right (by rintro (h | ⟨_, h⟩) <;> cases h)⟩, fun _ => ?_⟩
      exact hwhy.imp (fun hbad => ⟨t, List.mem_cons_self, hbad⟩) fun hfull => Or.inl ⟨hfull, hwait⟩
    rw [hfill]
    have hrest : redisParse maxSize (op.rbuf ++ got) = .again → GetSpec maxSize (t :: ts) op (got ++ left)
        (redisReadGet maxSize ts ⟨op.rbuf ++ got, cap, op.replyMax, op.clean⟩ left) :=
      fun hagain => (ih hfits' hagain).turn hreads
    cases got with
    | nil =>
      dsimp only
      refine hrest ?_
      rw [List.append_nil]
      exact hwait
    | cons c cs =>
      dsimp only
      have hreceived : ∀ {v : GetVerdict} {q : RedisGet}, q.rbuf = op.rbuf ++ c :: cs →
          ∃ got left', c :: cs ++ left = got ++ left' ∧ q.rbuf = op.rbuf ++ got ∧
            (some v = none → min ((t :: ts).countP GetTurn.reads) (c :: cs ++ left).length ≤
              got.length) :=
        fun hq => ⟨c :: cs, left, rfl, hq, nofun⟩
      rcases hparse : redisParse maxSize (op.rbuf ++ c :: cs) with _ | _ | _ | blob
      · exact hrest hparse
      · refine ⟨hreceived rfl, fun blob => ?_, ?_, ⟨Or.inl, fun h => h.resolve_right ?_⟩,
          fun _ => Or.inr (Or.inr hparse)⟩
        · dsimp only
          rw [hparse]
          exact ⟨nofun, nofun⟩
        · dsimp only
          rw [hparse]
          exact ⟨nofun, nofun⟩
        · rintro (h | ⟨_, h⟩) <;> cases h
      · refine ⟨hreceived rfl, fun blob => ?_, ?_, ⟨fun _ => Or.inr (Or.inl rfl), fun _ => rfl⟩, nofun⟩
        · dsimp only
          rw [hparse]
          exact ⟨nofun, nofun⟩
        · dsimp only
          rw [hparse]
          exact ⟨fun _ => rfl, fun _ => rfl⟩
      · refine ⟨hreceived rfl, fun blob' => ?_, ?_,
          ⟨fun _ => Or.inr (Or.inr ⟨blob, rfl⟩), fun _ => rfl⟩, nofun⟩
        · dsimp only
          rw [hparse]
          exact ⟨fun h => congrArg GetParse.ok (GetVerdict.hit.inj (Option.some.inj h)),
            fun h => congrArg (fun b => some (GetVerdict.hit b)) (GetParse.ok.inj h)⟩
        · dsimp only
          rw [hparse]
          exact ⟨nofun, nofun⟩

/-! ## What was stored is read back -/

/-- **A blob of any allowed length fits the cap** with its framing. -/
theorem respBulk_le_replyMax {blob : Bytes} (hmax : 0 < maxSize) (hle : blob.length ≤ maxSize)
    (hsize : blob.length ≤ 2 ^ 63 - 1) : (respBulk blob).length ≤ getReplyMax maxSize := by
  have hdigits : (decimal blob.length).length ≤ 20 :=
    decimal_length_le_of_lt (by decide) (lt_of_le_of_lt hsize (by decide))
  have hcrlf : crlf.length = 2 := rfl
  rw [getReplyMax, if_neg (Nat.ne_of_gt hmax), respBulk]
  simp only [List.length_cons, List.length_append, hcrlf, redisGetFramingMax]
  omega

theorem getHit_respBulk {blob : Bytes} (hle : blob.length ≤ maxSize)
    (hsize : blob.length ≤ 2 ^ 63 - 1) : GetHit maxSize (respBulk blob) blob :=
  ⟨decimal blob.length, rfl, atoi_decimal hsize, hle⟩

/-- The reply of a hit is not the reply of a miss, and holds no other blob. -/
theorem redisParse_prefix (hmax : 0 < maxSize) {p rest blob : Bytes}
    (h : redisParse maxSize (p ++ rest) = .ok blob) :
    redisParse maxSize p = .again ∨ rest = [] := by
  obtain ⟨len, hshape, hlen, hle⟩ := (redisParse_eq_ok hmax).1 h
  have hcrlf : crlf.length = 2 := rfl
  rcases hparse : redisParse maxSize p with _ | _ | _ | blob'
  · exact Or.inl rfl
  · rw [redisParse_error_append hmax hparse rest] at h
    cases h
  · rw [(redisParse_eq_declined hmax).1 hparse] at h
    have hline : nilReply ++ rest = 36 :: ([45, 49] ++ crlf ++ rest) := rfl
    rw [hline, redisParse_line hmax (by decide)] at h
    have hnil : respLen [45, 49] = .nil := rfl
    rw [hnil] at h
    dsimp only at h
    split at h
    · cases h
    · cases h
  · right
    obtain ⟨len', rfl, hlen', hle'⟩ := (redisParse_eq_ok hmax).1 hparse
    have hline : 36 :: (len' ++ crlf ++ (blob' ++ crlf)) ++ rest =
        36 :: (len' ++ crlf ++ (blob' ++ crlf ++ rest)) := by
      simp only [List.append_assoc, List.cons_append]
    rw [hline, redisParse_line hmax (atoi_not_cr hlen'), respLen_eq_ok.2 hlen'] at h
    dsimp only at h
    split_ifs at h with hbig hshort hend hlong
    rw [not_ne_iff] at hlong
    simp only [List.length_append, hcrlf] at hlong
    exact List.length_eq_zero_iff.1 (by omega)

/-- **A stored blob is read back**, in whatever pieces its reply comes. -/
theorem redisReadGet_stored {pagesize : ℕ} (hpage : 0 < pagesize) (hmax : 0 < maxSize)
    {ts : List GetTurn} {blob : Bytes} (hle : blob.length ≤ maxSize)
    (hsize : blob.length ≤ 2 ^ 63 - 1) (hsound : ∀ t ∈ ts, t.Sound)
    (hturns : (respBulk blob).length ≤ ts.countP GetTurn.reads) :
    (redisReadGet maxSize ts (redisGetStart pagesize maxSize) (respBulk blob)).1 =
      some (.hit blob) := by
  have hspec : GetSpec maxSize ts (redisGetStart pagesize maxSize) (respBulk blob)
      (redisReadGet maxSize ts (redisGetStart pagesize maxSize) (respBulk blob)) :=
    redisReadGet_spec (redisGetStart_fits hpage hmax) rfl
  set r := redisReadGet maxSize ts (redisGetStart pagesize maxSize) (respBulk blob)
  obtain ⟨got, left, hs, hbuf, hprogress⟩ := hspec.received
  have hwhole : redisParse maxSize (respBulk blob) = .ok blob :=
    (redisParse_eq_ok hmax).2 (getHit_respBulk hle hsize)
  have hbuf' : r.2.rbuf = got := hbuf
  -- once all has come the verdict is the hit
  have hall : left = [] → r.1 = some (.hit blob) := by
    rintro rfl
    rw [List.append_nil] at hs
    refine (hspec.hit blob).2 ?_
    rw [hbuf', ← hs]
    exact hwhole
  rw [hs] at hwhole
  rcases redisParse_prefix hmax hwhole with hagain | hnil
  · rw [← hbuf'] at hagain
    rcases hverdict : r.1 with _ | _ | _ | blob'
    · have hmin := hprogress hverdict
      have hlen := congrArg List.length hs
      rw [List.length_append] at hlen
      rw [← hverdict]
      exact hall (List.length_eq_zero_iff.1 (by omega))
    · rcases hspec.error hverdict with ⟨t, ht, hbad⟩ | ⟨hfull, -⟩ | herror
      · exact absurd (hsound t ht) hbad
      · have hcap := respBulk_le_replyMax hmax hle hsize
        have hlen := congrArg List.length hs
        rw [List.length_append] at hlen
        have hgot : got.length = getReplyMax maxSize := by
          rw [← hbuf']
          exact hfull
        rw [← hverdict]
        exact hall (List.length_eq_zero_iff.1 (by omega))
      · rw [hagain] at herror
        cases herror
    · rw [hspec.miss.1 hverdict] at hagain
      cases hagain
    · rw [(hspec.hit blob').1 hverdict] at hagain
      cases hagain
  · exact hall hnil

open Http Blob in
/-- What the writer stores is within the limit. -/
theorem storeTailBlob_le {conf : AdmitConf} {pool : BlobPool} {httpTime : Time → Bytes}
    {created : Time} {c : Capture} {w : Windows} {blob : Bytes} (hmax : 0 < maxSize)
    (h : storeTailBlob conf maxSize pool httpTime created c w = some blob) :
    blob.length ≤ maxSize ∧ blob.length ≤ 2 ^ 63 - 1 := by
  obtain ⟨hbytes, hbody, hblob⟩ := storeTailBlob_eq h
  have hwire : (blobHdrWriteTime httpTime (captureBlobHdr created c
      (measureHeaders conf pool.map c.headers c.contentType) w)).length = blobHdrWire := by
    unfold blobHdrWriteTime
    dsimp only
    split
    · rename_i hdate
      exact blobHdrWrite_length _ hdate
    · rw [List.length_set]
      refine blobHdrWrite_length _ ?_
      rw [List.length_take, List.length_append, List.length_replicate]
      omega
  have hlen : blob.length = blobHdrWire +
      (measureHeaders conf pool.map c.headers c.contentType).hdrBytes + c.body.len := by
    rw [hblob, captureBlobWrite, List.length_append, List.length_append, hwire,
      writeHeaders_length, c.body.counted, Nat.add_assoc]
  have hlimit : ¬ blobHdrWire + (measureHeaders conf pool.map c.headers c.contentType).hdrBytes +
      c.body.len > maxSize := by
    intro hbig
    unfold storeTailBlob at h
    dsimp only at h
    rw [if_neg (by omega), if_pos ⟨hmax, hbig⟩] at h
    cases h
  have hhdr : blobHdrWire ≤ 2 ^ 32 := by decide
  omega

/-- **Redis replies to a GET are framed.**  However the stream is delivered: what was received is
a prefix of it; the verdict is a hit exactly when that is one bulk string within the limit and
nothing after it, with its data, and a miss exactly when it is one nil and nothing after it; the
connection is marked in these two cases only; no other verdict arms the memo; and every turn in
which the socket has bytes takes some.  A reply to a blob that the writer stored fits the cap
and is read back. -/
theorem redis_get_framed {pagesize maxSize : ℕ} (hpage : 0 < pagesize) (hmax : 1 ≤ maxSize)
    (ts : List GetTurn) (s : Bytes) :
    let r := redisReadGet maxSize ts (redisGetStart pagesize maxSize) s
    r.2.rbuf <+: s ∧
      (∀ blob, r.1 = some (.hit blob) ↔ GetHit maxSize r.2.rbuf blob) ∧
      (r.1 = some .miss ↔ r.2.rbuf = nilReply) ∧
      (r.2.clean = true ↔ r.1 = some .miss ∨ ∃ blob, r.1 = some (.hit blob)) ∧
      (∀ verdict room negativeTtl skipped, r.1 = some verdict →
        memoArmed negativeTtl skipped (getFinish room verdict) = true → r.2.rbuf = nilReply) ∧
      (r.1 = none → min (ts.countP GetTurn.reads) s.length ≤ r.2.rbuf.length) ∧
      (∀ blob : Bytes, blob.length ≤ maxSize → blob.length ≤ 2 ^ 63 - 1 →
        (respBulk blob).length ≤ getReplyMax maxSize ∧
          (s = respBulk blob → (∀ t ∈ ts, t.Sound) → s.length ≤ ts.countP GetTurn.reads →
            r.1 = some (.hit blob))) ∧
      ∀ conf pool httpTime created c w blob,
        Http.storeTailBlob conf maxSize pool httpTime created c w = some blob →
          blob.length ≤ maxSize ∧ blob.length ≤ 2 ^ 63 - 1 := by
  intro r
  have hspec : GetSpec maxSize ts _ s r := redisReadGet_spec (redisGetStart_fits hpage hmax) rfl
  obtain ⟨got, left, hs, hbuf, hprogress⟩ := hspec.received
  have hbuf' : r.2.rbuf = got := hbuf
  have hmiss : r.1 = some .miss ↔ r.2.rbuf = nilReply :=
    hspec.miss.trans (redisParse_eq_declined hmax)
  refine ⟨⟨left, by rw [hbuf', hs]⟩, fun blob => (hspec.hit blob).trans (redisParse_eq_ok hmax), hmiss,
    hspec.clean.trans (or_iff_right (by nofun)), ?_, ?_, fun blob hle hsize =>
      ⟨respBulk_le_replyMax hmax hle hsize, ?_⟩, fun _ _ _ _ _ _ _ => storeTailBlob_le hmax⟩
  · intro verdict room negativeTtl skipped hverdict harmed
    unfold memoArmed at harmed
    rw [Bool.and_eq_true, beq_iff_eq] at harmed
    refine hmiss.1 (hverdict.trans (congrArg some ?_))
    have hfinish := harmed.2
    cases verdict with
    | error => cases hfinish
    | miss => rfl
    | hit blob =>
      simp only [getFinish] at hfinish
      split_ifs at hfinish
  · rw [hbuf']
    exact hprogress
  · rintro rfl hsound hturns
    exact redisReadGet_stored hpage hmax hle hsize hsound hturns

/-- A reply that comes byte by byte. -/
theorem redis_get_framed_bytes :
    (redisReadGet 5 (List.replicate 9 ⟨true, .bytes 0⟩) (redisGetStart 1 5)
      (respBulk (lit ['a', 'b', '\r']))).1 = some (.hit (lit ['a', 'b', '\r'])) :=
  ((redis_get_framed (by decide) (by decide) _ _).2.2.2.2.2.2.1 (lit ['a', 'b', '\r']) (by decide)
    (by decide)).2 rfl (fun t ht => by rw [List.eq_of_mem_replicate ht]; exact ⟨rfl, nofun⟩) (by decide)

end L2
end CacheTurbo
