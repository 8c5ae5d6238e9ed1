/-
# One operation on a Redis connection

How an operation gets from a fresh connection to the bytes of its command
(`ngx_http_cache_turbo_redis_preamble`, `_launch`, `_connect`, `_tls_handshake`,
`_tls_handshake_done`, `_write`, `_read_preamble` in
`ngx_http_cache_turbo_redis.c`).  The handlers of the write and of the read event
are fields, as they are in nginx, and an event runs the handler that is installed.
What the read handler of the command makes of a reply is a parameter of the event.

Beside the state a log is kept of what happens on the wire, the newest first; the
code does not read it.
-/

import CacheTurbo.L2.Keepalive
import CacheTurbo.L2.Memcached

namespace CacheTurbo
namespace L2

open Bytes Incremental

/-! ## The preamble -/

/-- `ngx_http_cache_turbo_redis_encode`. -/
def redisEncode (argv : List Bytes) : Bytes :=
  42 :: decimal argv.length ++ crlf
    ++ argv.flatMap fun a => 36 :: decimal a.length ++ crlf ++ a ++ crlf

/-- `"AUTH"`. -/
def authWord : Bytes := lit ['A', 'U', 'T', 'H']

/-- `"SELECT"`. -/
def selectWord : Bytes := lit ['S', 'E', 'L', 'E', 'C', 'T']

/-- Which of the allocations of the preamble succeed. -/
structure PreambleRoom where
  auth : Bool
  dbbuf : Bool
  select : Bool
  joined : Bool
  deriving DecidableEq, Repr

/-- What `ngx_http_cache_turbo_redis_preamble` answers; `declined` is that none is needed. -/
inductive Preamble
  | error
  | declined
  | ok (bytes : Bytes) (nreplies : ℕ)
  deriving DecidableEq, Repr

/-- `ngx_http_cache_turbo_redis_preamble`. -/
def redisPreamble (conf : RedisConf) (room : PreambleRoom) : Preamble :=
  let au := redisEncode
    (if conf.user ≠ [] then [authWord, conf.user, conf.password] else [authWord, conf.password])
  let sel := redisEncode [selectWord, decimal conf.db.toNat]
  if conf.password ≠ [] ∧ room.auth = false then .error
  else if conf.db > 0 ∧ (room.dbbuf = false ∨ room.select = false) then .error
  else if conf.password = [] ∧ ¬ conf.db > 0 then .declined
  else if ¬ conf.db > 0 then .ok au 1
  else if conf.password = [] then .ok sel 1
  else if room.joined = false then .error
  else .ok (au ++ sel) 2

/-- How many replies the preamble of a profile has. -/
def Profile.replies (p : Profile) : ℕ :=
  (if p.password ≠ [] then 1 else 0) + if p.db > 0 then 1 else 0

/-- **The preamble has a reply for each of its commands.** -/
theorem redisPreamble_replies (conf : RedisConf) (room : PreambleRoom) :
    (redisPreamble conf room = .declined → conf.profile.replies = 0) ∧
      ∀ bytes n, redisPreamble conf room = .ok bytes n → conf.profile.replies = n := by
  have hreplies : conf.profile.replies =
      (if conf.password ≠ [] then 1 else 0) + if conf.db > 0 then 1 else 0 := rfl
  rw [hreplies]
  unfold redisPreamble
  by_cases hpass : conf.password = [] <;> by_cases hdb : conf.db > 0
  all_goals
    simp only [hpass, hdb, ne_eq, not_true_eq_false, not_false_eq_true, true_and, false_and,
      if_true, if_false]
  · split
    · exact ⟨nofun, nofun⟩
    · exact ⟨nofun, fun bytes n h => by injection h⟩
  · exact ⟨fun _ => trivial, nofun⟩
  · split
    · exact ⟨nofun, nofun⟩
    split
    · exact ⟨nofun, nofun⟩
    split
    · exact ⟨nofun, nofun⟩
    · exact ⟨nofun, fun bytes n h => by injection h⟩
  · split
    · exact ⟨nofun, nofun⟩
    · exact ⟨nofun, fun bytes n h => by injection h⟩

/-- The replies that are read of the bytes `buf`, `wanted` more of them: `none` when one is an
error, else how many are still missing. -/
def preambleScan : ℕ → ℕ → Bytes → Option ℕ
  | 0, wanted, _ => some wanted
  | _, 0, _ => some 0
  | fuel + 1, wanted + 1, buf =>
      match cut 10 buf with
      | none => some (wanted + 1)
      | some (line, rest) =>
          if (line ++ [10]).head? = some (45 : UInt8) then none else preambleScan fuel wanted rest

/-- **A reply that was received and is no error**, `n` times over: a line for each of them, that
does not start with `-`. -/
def Answered (n : ℕ) (heard : Bytes) : Prop :=
  ∃ lines : List Bytes, ∃ rest, heard = lines.flatten ++ rest ∧ lines.length = n ∧
    ∀ l ∈ lines, (∃ text, l = text ++ [10] ∧ 10 ∉ text) ∧ l.head? ≠ some 45

theorem answered_zero (heard : Bytes) : Answered 0 heard := ⟨[], heard, rfl, rfl, nofun⟩

/-- What is heard later does not take an answer back. -/
theorem Answered.append {n : ℕ} {heard : Bytes} (h : Answered n heard) (more : Bytes) :
    Answered n (heard ++ more) := by
  obtain ⟨lines, rest, rfl, hlen, hlines⟩ := h
  exact ⟨lines, rest ++ more, by rw [List.append_assoc], hlen, hlines⟩

/-- Nothing answers nothing. -/
theorem not_answered_nil {n : ℕ} (hn : 0 < n) : ¬ Answered n [] := by
  rintro ⟨lines, rest, heq, rfl, hlines⟩
  obtain ⟨l, lines, rfl⟩ := List.length_pos_iff_exists_cons.1 hn
  obtain ⟨⟨text, rfl, -⟩, -⟩ := hlines l List.mem_cons_self
  have hlen := congrArg List.length heq
  simp only [List.length_nil, List.length_append, List.flatten_cons, List.length_singleton] at hlen
  omega

/-- **When the scan has seen all replies** they were answers. -/
theorem preambleScan_answered {fuel wanted : ℕ} {buf : Bytes} (hfuel : buf.length ≤ fuel)
    (h : preambleScan fuel wanted buf = some 0) : Answered wanted buf := by
  induction fuel generalizing wanted buf with
  | zero =>
    rw [preambleScan, Option.some.injEq] at h
    subst h
    exact answered_zero buf
  | succ fuel ih =>
    cases wanted with
    | zero => exact answered_zero buf
    | succ wanted =>
      rw [preambleScan] at h
      rcases hcut : cut 10 buf with _ | ⟨line, rest⟩
      · rw [hcut] at h
        cases h
      · rw [hcut] at h
        obtain ⟨rfl, hline⟩ := cut_eq_some.1 hcut
        dsimp only at h
        by_cases herr : (line ++ [10]).head? = some (45 : UInt8)
        · rw [if_pos herr] at h
          cases h
        rw [if_neg herr] at h
        have hshort : rest.length ≤ fuel := by
          rw [List.length_append, List.length_cons] at hfuel
          omega
        obtain ⟨lines, tail, rfl, hlen, hlines⟩ := ih hshort h
        refine ⟨(line ++ [10]) :: lines, tail, ?_, ?_, fun l hl => ?_⟩
        · simp only [List.flatten_cons, List.append_assoc, List.cons_append, List.nil_append]
        · rw [List.length_cons, hlen]
        · rcases List.mem_cons.1 hl with rfl | hl
          · exact ⟨⟨line, rfl, hline⟩, herr⟩
          · exact hlines l hl

/-! ## The wire -/

/-- What the TLS library says at the end of a handshake. -/
structure TlsResult where
  handshaked : Bool
  verifyOk : Bool
  hostOk : Bool
  deriving DecidableEq, Repr

/-- What happens on a connection. -/
inductive Act
  /-- A handshake ended. -/
  | shaken (t : TlsResult)
  /-- The reader of the preamble received bytes. -/
  | heard (bs : Bytes)
  /-- Bytes of the preamble were sent. -/
  | preamble (bs : Bytes)
  /-- Bytes of a command were sent. -/
  | command (bs : Bytes)
  deriving DecidableEq, Repr

/-- All that the reader of the preamble received. -/
def heardBytes : List Act → Bytes
  | [] => []
  | .heard bs :: past => heardBytes past ++ bs
  | _ :: past => heardBytes past

/-- The name the certificate has to be for. -/
def Profile.serverName (p : Profile) : Bytes := if p.tlsName ≠ [] then p.tlsName else p.host

/-- The handshake succeeded, and the verification that a profile asks for. -/
def TlsResult.Verified (p : Profile) (t : TlsResult) : Prop :=
  t.handshaked = true ∧
    (p.tlsVerify = true → t.verifyOk = true ∧ (p.serverName ≠ [] → t.hostOk = true))

/-- **A connection that is ready for commands**: its handshake succeeded where TLS is asked for,
and the replies of its preamble are received and are no errors. -/
def Ready (p : Profile) (log : List Act) : Prop :=
  (p.tls = true → ∃ t, Act.shaken t ∈ log ∧ t.Verified p) ∧ Answered p.replies (heardBytes log)

/-- **The bytes of a command are sent on a connection that is ready, and on no other.** -/
def Guarded (p : Profile) : List Act → Prop
  | [] => True
  | a :: past => ((∃ bs, a = .command bs ∧ bs ≠ []) → Ready p past) ∧ Guarded p past

theorem heardBytes_cons (a : Act) (log : List Act) :
    ∃ more, heardBytes (a :: log) = heardBytes log ++ more := by
  cases a with
  | heard bs => exact ⟨bs, rfl⟩
  | shaken t => exact ⟨[], (List.append_nil _).symm⟩
  | preamble bs => exact ⟨[], (List.append_nil _).symm⟩
  | command bs => exact ⟨[], (List.append_nil _).symm⟩

/-- Once ready, a connection stays so. -/
theorem Ready.cons {p : Profile} {log : List Act} (h : Ready p log) (a : Act) :
    Ready p (a :: log) := by
  obtain ⟨more, hmore⟩ := heardBytes_cons a log
  refine ⟨fun htls => ?_, ?_⟩
  · obtain ⟨t, hmem, ht⟩ := h.1 htls
    exact ⟨t, List.mem_cons_of_mem a hmem, ht⟩
  · rw [hmore]
    exact h.2.append more

/-! ## The operation -/

/-- The handler of the write event. -/
inductive Writer
  | handshake
  | write
  deriving DecidableEq, Repr

/-- The handler of the read event; `reply` is the operation's own. -/
inductive Reader
  | handshake
  | preamble
  | reply
  deriving DecidableEq, Repr

/-- `ngx_http_cache_turbo_redis_op_t`: `preamble` and `command` are what is left to send of the
two buffers, and `sendsCommand` says which of them `send` points to. -/
structure Op where
  conf : RedisConf
  conn : Conn
  walk : Bool
  writer : Writer
  reader : Reader
  inPreamble : Bool
  preambleReplies : ℕ
  preamble : Bytes
  command : Bytes
  sendsCommand : Bool
  recv : Bytes
  deriving DecidableEq, Repr

/-- `sizeof(op->recv)`. -/
def recvSize : ℕ := 256

/-- What a `recv` gives. -/
inductive RecvResult
  | data (bs : Bytes)
  | again (armed : Bool)
  | failed
  deriving DecidableEq, Repr

/-- What the read handler of the command makes of what has come: it waits for more, the
operation ends, or, on a walk, the next page is asked for. -/
inductive ReplyResult
  | waiting
  | finished (clean : Bool)
  | nextPage (command : Bytes)
  deriving DecidableEq, Repr

/-- What `ngx_ssl_handshake` gives. -/
inductive Handshake
  | uncreated
  | again
  | finished (t : TlsResult)
  deriving DecidableEq, Repr

/-- An event of an operation. -/
inductive OpEvent
  /-- One of its timers runs out, or its request ends. -/
  | abandon
  /-- The handler of the handshake runs. -/
  | handshake (h : Handshake)
  /-- The write event: the socket takes `n` bytes before it blocks, and the event can be armed
  or not. -/
  | writable (n : ℕ) (armed : Bool)
  /-- A read by the reader of the preamble. -/
  | readable (r : RecvResult)
  /-- A read by the operation's own handler. -/
  | reply (r : ReplyResult)
  deriving DecidableEq, Repr

/-- What is left of an operation: its new state, or that it is done, `clean` or not. -/
inductive OpState
  | live (op : Op)
  | done (op : Op) (clean : Bool)
  deriving DecidableEq, Repr

/-- `ngx_http_cache_turbo_redis_op_fail`. -/
def opFail (op : Op) : OpState := .done op false

/-- `ngx_http_cache_turbo_redis_tls_handshake` and `_tls_handshake_done`. -/
def tlsHandshake (op : Op) (h : Handshake) : OpState × List Act :=
  match h with
  | .uncreated => (opFail op, [])
  | .again => (.live { op with conn.ssl := true }, [])
  | .finished t =>
      let op := { op with conn.ssl := true }
      if t.handshaked = false then (opFail op, [.shaken t])
      else if op.conf.tlsVerify = true ∧
          (t.verifyOk = false ∨ (op.conf.profile.serverName ≠ [] ∧ t.hostOk = false)) then
        (opFail op, [.shaken t])
      else (.live { op with writer := .write, reader := .reply }, [.shaken t])

/-- `ngx_http_cache_turbo_redis_write`, with the bytes that the socket takes of the buffer. -/
def redisWrite (op : Op) (n : ℕ) (armed : Bool) : OpState × List Act :=
  let b := if op.sendsCommand then op.command else op.preamble
  let act := if op.sendsCommand then Act.command (b.take n) else Act.preamble (b.take n)
  let op := if op.sendsCommand then { op with command := b.drop n }
    else { op with preamble := b.drop n }
  if !armed then (opFail op, [act])
  else if n < b.length then (.live op, [act])
  else (.live { op with reader := if op.inPreamble then .preamble else .reply }, [act])

/-- One turn of the loop of `ngx_http_cache_turbo_redis_read_preamble`. -/
def readPreamble (op : Op) (r : RecvResult) : OpState × List Act :=
  if op.recv.length ≥ recvSize then (opFail op, [])
  else
    match r with
    | .again armed => (if armed then .live op else opFail op, [])
    | .failed => (opFail op, [])
    | .data bs =>
        let bs := bs.take (recvSize - op.recv.length)
        if bs = [] then (opFail op, [])
        else
          let recv := op.recv ++ bs
          match preambleScan recv.length op.preambleReplies recv with
          | none => (opFail { op with recv := recv }, [.heard bs])
          | some (_ + 1) => (.live { op with recv := recv }, [.heard bs])
          | some 0 =>
              (.live { op with
                inPreamble := false
                recv := []
                sendsCommand := true
                writer := .write }, [.heard bs])

/-- What the operation's own handler does with a reply: a walk asks for its next page and ends
unclean, any other operation ends. -/
def readReply (op : Op) : ReplyResult → OpState
  | .waiting => .live op
  | .finished clean => .done op (clean && !op.walk)
  | .nextPage command =>
      if op.walk then .live { op with command := command, sendsCommand := true } else .live op

/-- The handler that is installed runs; an event that has another handler than the one
installed does nothing. -/
def opEvent (op : Op) : OpEvent → OpState × List Act
  | .abandon => (opFail op, [])
  | .handshake h =>
      if op.writer = .handshake then tlsHandshake op h else (.live op, [])
  | .writable n armed =>
      if op.writer = .write then redisWrite op n armed else (.live op, [])
  | .readable r =>
      if op.reader = .preamble then readPreamble op r else (.live op, [])
  | .reply r =>
      if op.reader = .reply then (readReply op r, []) else (.live op, [])

/-- What `ngx_http_cache_turbo_redis_launch` finds: an armed backoff, the allocations of the
preamble, and whether the connection can be opened. -/
structure LaunchEnv where
  backoff : Bool
  room : PreambleRoom
  connected : Bool
  deriving DecidableEq, Repr

/-- The operation on a pooled connection. -/
def opReused (conf : RedisConf) (c : Conn) (walk : Bool) (command : Bytes) : Op :=
  { conf := conf
    conn := c
    walk := walk
    writer := .write
    reader := .reply
    inPreamble := false
    preambleReplies := 0
    preamble := []
    command := command
    sendsCommand := true
    recv := [] }

/-- `ngx_http_cache_turbo_redis_connect` with the preamble: the operation on the fresh connection
`id`, or none when there is no preamble or no connection. -/
def redisConnect (conf : RedisConf) (id : ℕ) (walk : Bool) (command : Bytes) (env : LaunchEnv) :
    Option Op :=
  let start : Op :=
    { conf := conf
      conn := ⟨id, false⟩
      walk := walk
      writer := if conf.tls then .handshake else .write
      reader := if conf.tls then .handshake else .reply
      inPreamble := false
      preambleReplies := 0
      preamble := []
      command := command
      sendsCommand := true
      recv := [] }
  match redisPreamble conf env.room with
  | .error => none
  | .declined => if env.connected then some start else none
  | .ok bytes n =>
      if env.connected then
        some { start with
          inPreamble := true
          preambleReplies := n
          preamble := bytes
          sendsCommand := false }
      else none

/-! ## What an event does -/

/-- The operation of a state. -/
def OpState.op : OpState → Op
  | .live op => op
  | .done op _ => op

/-- **The handlers that go together**: those of the handshake, or, on a connection of the kind
that was asked for, those of the protocol. -/
def Handlers (op : Op) : Prop :=
  (op.writer = .handshake ∧ op.reader = .handshake ∧ op.conf.tls = true) ∨
    (op.writer = .write ∧ op.reader ≠ .handshake ∧ op.conn.ssl = op.conf.tls)

/-- What an event leaves of an operation: the connection and the configuration are the same,
the handlers go together, and a clean end has a connection of the right kind. -/
def Kept (op : Op) (st : OpState) : Prop :=
  st.op.conn.id = op.conn.id ∧ st.op.conf = op.conf ∧
    match st with
    | .live op' => Handlers op'
    | .done op' clean => clean = true → op'.conn.ssl = op'.conf.tls

theorem kept_live {op : Op} (h : Handlers op) : Kept op (.live op) := ⟨rfl, rfl, h⟩

theorem kept_fail (op op' : Op) (hid : op'.conn.id = op.conn.id) (hconf : op'.conf = op.conf) :
    Kept op (opFail op') := ⟨hid, hconf, nofun⟩

/-- **An event keeps an operation's handlers together.** -/
theorem opEvent_kept {op : Op} (h : Handlers op) (e : OpEvent) : Kept op (opEvent op e).1 := by
  cases e with
  | abandon => exact kept_fail op op rfl rfl
  | handshake hs =>
    rw [opEvent]
    by_cases hw : op.writer = .handshake
    · rw [if_pos hw]
      obtain ⟨-, hr, htls⟩ | ⟨hw', -, -⟩ := h
      · cases hs with
        | uncreated => exact kept_fail op op rfl rfl
        | again => exact ⟨rfl, rfl, Or.inl ⟨hw, hr, htls⟩⟩
        | finished t =>
          dsimp only [tlsHandshake]
          by_cases hdone : t.handshaked = false
          · rw [if_pos hdone]
            exact kept_fail _ _ rfl rfl
          rw [if_neg hdone]
          split
          · exact kept_fail _ _ rfl rfl
          · exact ⟨rfl, rfl, Or.inr ⟨rfl, nofun, htls.symm⟩⟩
      · rw [hw] at hw'
        cases hw'
    · rw [if_neg hw]
      exact kept_live h
  | writable n armed =>
    rw [opEvent]
    by_cases hw : op.writer = .write
    · rw [if_pos hw]
      obtain ⟨hw', -, -⟩ | ⟨-, hr, hssl⟩ := h
      · rw [hw] at hw'
        cases hw'
      · unfold redisWrite
        cases hcmd : op.sendsCommand <;> cases armed <;>
          simp only [Bool.not_true, Bool.not_false, if_true, if_false, Bool.false_eq_true]
        · exact kept_fail _ _ rfl rfl
        · split
          · exact ⟨rfl, rfl, Or.inr ⟨hw, hr, hssl⟩⟩
          · exact ⟨rfl, rfl, Or.inr ⟨hw, by dsimp only; split <;> nofun, hssl⟩⟩
        · exact kept_fail _ _ rfl rfl
        · split
          · exact ⟨rfl, rfl, Or.inr ⟨hw, hr, hssl⟩⟩
          · exact ⟨rfl, rfl, Or.inr ⟨hw, by dsimp only; split <;> nofun, hssl⟩⟩
    · rw [if_neg hw]
      exact kept_live h
  | readable r =>
    rw [opEvent]
    by_cases hr : op.reader = .preamble
    · rw [if_pos hr]
      obtain ⟨-, hr', -⟩ | ⟨hw, hr', hssl⟩ := h
      · rw [hr] at hr'
        cases hr'
      · have hlive : ∀ op' : Op, op'.conn = op.conn → op'.conf = op.conf → op'.writer = .write →
            op'.reader = op.reader → Kept op (.live op') := fun op' hc hf hw' hre =>
          ⟨by rw [OpState.op, hc], hf, Or.inr ⟨hw', by rw [hre]; exact hr', by rw [hc, hf, hssl]⟩⟩
        unfold readPreamble
        split
        · exact kept_fail _ _ rfl rfl
        split
        · split
          · exact hlive op rfl rfl hw rfl
          · exact kept_fail _ _ rfl rfl
        · exact kept_fail _ _ rfl rfl
        · dsimp only
          split
          · exact kept_fail _ _ rfl rfl
          split
          · exact kept_fail _ _ rfl rfl
          · exact hlive _ rfl rfl hw rfl
          · exact hlive _ rfl rfl rfl rfl
    · rw [if_neg hr]
      exact kept_live h
  | reply r =>
    rw [opEvent]
    by_cases hr : op.reader = .reply
    · rw [if_pos hr]
      obtain ⟨-, hr', -⟩ | ⟨hw, hr', hssl⟩ := h
      · rw [hr] at hr'
        cases hr'
      · cases r with
        | waiting => exact ⟨rfl, rfl, Or.inr ⟨hw, hr', hssl⟩⟩
        | finished clean => exact ⟨rfl, rfl, fun _ => hssl⟩
        | nextPage command =>
          dsimp only [readReply]
          split
          · exact ⟨rfl, rfl, Or.inr ⟨hw, hr', hssl⟩⟩
          · exact ⟨rfl, rfl, Or.inr ⟨hw, hr', hssl⟩⟩
    · rw [if_neg hr]
      exact kept_live h

/-- A handler of the command reads a whole reply while the preamble is not answered. -/
def ReadsEarly (op : Op) (e : OpEvent) : Prop :=
  op.inPreamble = true ∧ op.reader = .reply ∧
    ∃ r, e = .reply r ∧ r ≠ .waiting ∧ r ≠ .finished false

/-- **Where an operation is**, as the log of its connection has it: past the handshake the
handshake is in the log; during the preamble the buffer is all that was heard, and what is sent
is the preamble; after it the replies are. -/
structure Guard (op : Op) (log : List Act) : Prop where
  shaken : op.writer = .write → op.conf.tls = true →
    ∃ t, Act.shaken t ∈ log ∧ t.Verified op.conf.profile
  waiting : op.inPreamble = true → op.sendsCommand = false ∧
    op.preambleReplies = op.conf.profile.replies ∧ heardBytes log = op.recv
  answered : op.inPreamble = false → Answered op.conf.profile.replies (heardBytes log)

theorem Guard.ready {op : Op} {log : List Act} (h : Guard op log) (hw : op.writer = .write)
    (hpre : op.inPreamble = false) : Ready op.conf.profile log :=
  ⟨h.shaken hw, h.answered hpre⟩

/-- What an event has done with the log: it stays guarded, and the operation is where its new
state says, or has left a ready connection if its end is clean. -/
def Advanced (op : Op) (log : List Act) (r : OpState × List Act) : Prop :=
  Guarded op.conf.profile (r.2 ++ log) ∧
    match r.1 with
    | .live op' => Guard op' (r.2 ++ log)
    | .done _ clean => clean = true → Ready op.conf.profile (r.2 ++ log)

/-- Whatever is no command may be logged. -/
theorem Guarded.cons {p : Profile} {log : List Act} (h : Guarded p log) {a : Act}
    (ha : ∀ bs, a ≠ .command bs) : Guarded p (a :: log) :=
  ⟨fun ⟨bs, hbs, _⟩ => absurd hbs (ha bs), h⟩

/-- The handshake. -/
theorem tlsHandshake_advanced {op : Op} {log : List Act} (hw : op.writer = .handshake)
    (h : Guard op log) (hlog : Guarded op.conf.profile log) (hs : Handshake) :
    Advanced op log (tlsHandshake op hs) := by
  cases hs with
  | uncreated => exact ⟨hlog, nofun⟩
  | again => exact ⟨hlog, fun hw' => absurd (hw.symm.trans hw') nofun, h.waiting, h.answered⟩
  | finished t =>
    have hlog' : Guarded op.conf.profile (.shaken t :: log) := hlog.cons nofun
    dsimp only [tlsHandshake]
    by_cases hdone : t.handshaked = false
    · rw [if_pos hdone]
      exact ⟨hlog', nofun⟩
    rw [if_neg hdone]
    by_cases hbad : op.conf.tlsVerify = true ∧
        (t.verifyOk = false ∨ (op.conf.profile.serverName ≠ [] ∧ t.hostOk = false))
    · rw [if_pos hbad]
      exact ⟨hlog', nofun⟩
    rw [if_neg hbad]
    have hverified : t.Verified op.conf.profile := by
      refine ⟨by simpa using hdone, fun hverify => ?_⟩
      have hgood := not_and.1 hbad hverify
      rw [not_or, not_and] at hgood
      exact ⟨by simpa using hgood.1, fun hname => by simpa using hgood.2 hname⟩
    exact ⟨hlog', fun _ _ => ⟨t, List.mem_cons_self, hverified⟩, h.waiting, h.answered⟩

/-- The writer sends the command on a ready connection only. -/
theorem redisWrite_advanced {op : Op} {log : List Act} (hw : op.writer = .write)
    (h : Guard op log) (hlog : Guarded op.conf.profile log) (n : ℕ) (armed : Bool) :
    Advanced op log (redisWrite op n armed) := by
  have hshaken : ∀ a : Act, op.conf.tls = true →
      ∃ t, Act.shaken t ∈ a :: log ∧ t.Verified op.conf.profile := fun a htls => by
    obtain ⟨t, hmem, ht⟩ := h.shaken hw htls
    exact ⟨t, List.mem_cons_of_mem a hmem, ht⟩
  cases hcmd : op.sendsCommand with
  | false =>
    have hlog' : Guarded op.conf.profile (.preamble (op.preamble.take n) :: log) := hlog.cons nofun
    have hguard : ∀ reader, Guard
        { op with preamble := op.preamble.drop n, reader := reader, sendsCommand := false }
        (.preamble (op.preamble.take n) :: log) := fun reader =>
      ⟨fun _ => hshaken _, fun hp => ⟨rfl, (h.waiting hp).2⟩, h.answered⟩
    unfold redisWrite
    simp only [hcmd, if_false, Bool.false_eq_true]
    cases armed with
    | false => exact ⟨hlog', nofun⟩
    | true =>
      simp only [Bool.not_true, Bool.false_eq_true, if_false]
      split
      · exact ⟨hlog', hguard op.reader⟩
      · exact ⟨hlog', hguard _⟩
  | true =>
    -- what is sent is the command only once the preamble is over
    have hpre : op.inPreamble = false := by
      cases hp : op.inPreamble with
      | false => rfl
      | true => rw [(h.waiting hp).1] at hcmd; cases hcmd
    have hlog' : Guarded op.conf.profile (.command (op.command.take n) :: log) :=
      ⟨fun _ => h.ready hw hpre, hlog⟩
    have hguard : ∀ reader, Guard
        { op with command := op.command.drop n, reader := reader, sendsCommand := true }
        (.command (op.command.take n) :: log) := fun reader =>
      ⟨fun _ => hshaken _, fun hp => absurd (hpre.symm.trans hp) nofun, h.answered⟩
    unfold redisWrite
    simp only [hcmd, if_true]
    cases armed with
    | false => exact ⟨hlog', nofun⟩
    | true =>
      simp only [Bool.not_true, Bool.false_eq_true, if_false]
      split
      · exact ⟨hlog', hguard op.reader⟩
      · exact ⟨hlog', hguard _⟩

/-- The reader of the preamble ends it when all replies are answers. -/
theorem readPreamble_advanced {op : Op} {log : List Act} (hw : op.writer = .write)
    (h : Guard op log) (hlog : Guarded op.conf.profile log) (r : RecvResult) :
    Advanced op log (readPreamble op r) := by
  unfold readPreamble
  split
  · exact ⟨hlog, nofun⟩
  split
  · rename_i armed
    cases armed with
    | false => exact ⟨hlog, nofun⟩
    | true => exact ⟨hlog, h⟩
  · exact ⟨hlog, nofun⟩
  · rename_i data
    dsimp only
    generalize data.take (recvSize - op.recv.length) = bs
    split
    · exact ⟨hlog, nofun⟩
    have hlog' : Guarded op.conf.profile (.heard bs :: log) := hlog.cons nofun
    have hshaken : op.writer = .write → op.conf.tls = true →
        ∃ t, Act.shaken t ∈ Act.heard bs :: log ∧ t.Verified op.conf.profile := fun _ htls => by
      obtain ⟨t, hmem, ht⟩ := h.shaken hw htls
      exact ⟨t, List.mem_cons_of_mem _ hmem, ht⟩
    have hafter : op.inPreamble = false →
        Answered op.conf.profile.replies (heardBytes (.heard bs :: log)) := fun hpre =>
      (h.answered hpre).append bs
    split
    · exact ⟨hlog', nofun⟩
    · refine ⟨hlog', hshaken, fun hpre => ?_, hafter⟩
      obtain ⟨hsend, hreplies, hheard⟩ := h.waiting hpre
      exact ⟨hsend, hreplies, congrArg (· ++ bs) hheard⟩
    · rename_i hscan
      refine ⟨hlog', fun _ => hshaken hw, nofun, fun _ => ?_⟩
      cases hpre : op.inPreamble with
      | false => exact hafter hpre
      | true =>
        obtain ⟨-, hreplies, hheard⟩ := h.waiting hpre
        have hanswered := preambleScan_answered le_rfl hscan
        rw [hreplies, ← hheard] at hanswered
        exact hanswered

/-- The operation's own handler, once the preamble is over. -/
theorem readReply_advanced {op : Op} {log : List Act} (hw : op.writer = .write)
    (h : Guard op log) (hlog : Guarded op.conf.profile log) {r : ReplyResult}
    (hearly : op.inPreamble = true → r = .waiting ∨ r = .finished false) :
    Advanced op log (readReply op r, []) := by
  cases hpre : op.inPreamble with
  | true =>
    obtain rfl | rfl := hearly hpre
    · exact ⟨hlog, h⟩
    · exact ⟨hlog, nofun⟩
  | false =>
    cases r with
    | waiting => exact ⟨hlog, h⟩
    | finished clean => exact ⟨hlog, fun _ => h.ready hw hpre⟩
    | nextPage command =>
      dsimp only [readReply]
      split
      · exact ⟨hlog, h.shaken, fun hp => absurd (hpre.symm.trans hp) nofun, h.answered⟩
      · exact ⟨hlog, h⟩

/-- **An event sends the command on a ready connection only**, unless a whole reply is read
early. -/
theorem opEvent_advanced {op : Op} {log : List Act} (hh : Handlers op) (h : Guard op log)
    (hlog : Guarded op.conf.profile log) {e : OpEvent} (hearly : ¬ ReadsEarly op e) :
    Advanced op log (opEvent op e) := by
  have hwriter : op.reader ≠ .handshake → op.writer = .write := fun hr => by
    obtain ⟨-, hr', -⟩ | ⟨hw, -, -⟩ := hh
    · exact absurd hr' hr
    · exact hw
  have hidle : Advanced op log (.live op, []) := ⟨hlog, h⟩
  cases e with
  | abandon => exact ⟨hlog, nofun⟩
  | handshake hs =>
    rw [opEvent]
    split
    · rename_i hw
      exact tlsHandshake_advanced hw h hlog hs
    · exact hidle
  | writable n armed =>
    rw [opEvent]
    split
    · rename_i hw
      exact redisWrite_advanced hw h hlog n armed
    · exact hidle
  | readable r =>
    rw [opEvent]
    split
    · rename_i hr
      exact readPreamble_advanced (hwriter (by rw [hr]; nofun)) h hlog r
    · exact hidle
  | reply r =>
    rw [opEvent]
    split
    · rename_i hr
      refine readReply_advanced (hwriter (by rw [hr]; nofun)) h hlog fun hpre => ?_
      by_contra hneither
      rw [not_or] at hneither
      exact hearly ⟨hpre, hr, r, rfl, hneither.1, hneither.2⟩
    · exact hidle

/-- A pooled connection goes to an operation past its preamble. -/
theorem opReused_guard {conf : RedisConf} {c : Conn} {log : List Act}
    (h : Ready conf.profile log) (walk : Bool) (command : Bytes) :
    Guard (opReused conf c walk command) log := ⟨fun _ => h.1, nofun, fun _ => h.2⟩

/-- **A fresh connection is at its beginning.** -/
theorem redisConnect_spec {conf : RedisConf} {id : ℕ} {walk : Bool} {command : Bytes}
    {env : LaunchEnv} {op : Op} (h : redisConnect conf id walk command env = some op) :
    op.conf = conf ∧ op.conn.id = id ∧ Handlers op ∧ Guard op [] := by
  have hhandlers : ∀ op' : Op, op'.conf = conf → op'.conn.ssl = false →
      op'.writer = (if conf.tls then .handshake else .write) →
      op'.reader = (if conf.tls then .handshake else .reply) → Handlers op' := by
    intro op' hconf hssl hw hr
    cases htls : conf.tls with
    | true =>
      rw [htls] at hw hr
      exact Or.inl ⟨hw, hr, by rw [hconf, htls]⟩
    | false =>
      rw [htls] at hw hr
      exact Or.inr ⟨hw, by rw [hr]; nofun, by rw [hssl, hconf, htls]⟩
  have hshaken : ∀ op' : Op, op'.conf = conf →
      op'.writer = (if conf.tls then .handshake else .write) → op'.writer = .write →
      op'.conf.tls = true → ∃ t, Act.shaken t ∈ [] ∧ t.Verified op'.conf.profile := by
    intro op' hconf hw hwrite htls
    rw [hconf] at htls
    rw [hw, htls] at hwrite
    cases hwrite
  obtain ⟨hdeclined, hok⟩ := redisPreamble_replies conf env.room
  unfold redisConnect at h
  dsimp only at h
  rcases hpre : redisPreamble conf env.room with _ | _ | ⟨bytes, n⟩
  · rw [hpre] at h
    cases h
  · rw [hpre] at h
    dsimp only at h
    split at h
    · cases h
      refine ⟨rfl, rfl, hhandlers _ rfl rfl rfl rfl, hshaken _ rfl rfl, nofun, fun _ => ?_⟩
      rw [hdeclined hpre]
      exact answered_zero _
    · cases h
  · rw [hpre] at h
    dsimp only at h
    split at h
    · cases h
      exact ⟨rfl, rfl, hhandlers _ rfl rfl rfl rfl, hshaken _ rfl rfl,
        fun _ => ⟨rfl, (hok bytes n hpre).symm, rfl⟩, nofun⟩
    · cases h

end L2
end CacheTurbo
