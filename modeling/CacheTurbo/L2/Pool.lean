/-
# Operations and the pool of connections

A worker with its Redis operations and its keep-alive pool: an operation is
launched on a pooled connection or on a fresh one, its events run, and when it is
done its connection goes to the pool or is closed.  A step is one of these; the runs
are all sequences of steps.

Two things hold after every run (`Owned`): the pool is in order, and every live
connection is one operation's or one slot's.  A third holds while no reply is read
early (`Safe`): the bytes of a command are sent on a connection that is ready.
-/

import CacheTurbo.L2.RedisOp
import CacheTurbo.Lib.Run
import CacheTurbo.Lib.Threads

namespace CacheTurbo
namespace L2

/-! ## The worker -/

/-- The pool and the operations of a worker, with the numbers of the live connections, the
profile that each connection was opened under, its log, and the number of the next one. -/
structure Worker where
  ka : List KaBucket
  ops : List Op
  live : List ℕ
  opened : ℕ → Profile
  log : ℕ → List Act
  next : ℕ

/-- A worker that has done nothing. -/
def Worker.start : Worker :=
  ⟨[], [], [], fun _ => ⟨[], false, false, 0, [], [], [], [], []⟩, fun _ => [], 0⟩

/-- What happens next in a worker. -/
inductive Move
  /-- An operation is launched. -/
  | launch (conf : RedisConf) (walk : Bool) (command : Bytes) (env : LaunchEnv)
  /-- The operation at place `k` has an event. -/
  | event (k : ℕ) (e : OpEvent) (save : SaveEnv)
  /-- The idle connection in slot `j` of bucket `i` times out or is closed by its peer. -/
  | drop (i j : ℕ)
  deriving DecidableEq, Repr

/-- `f`, but `v` at `id`. -/
def putAt {α : Type} (f : ℕ → α) (id : ℕ) (v : α) : ℕ → α := fun k => if k = id then v else f k

@[simp] theorem putAt_self {α : Type} (f : ℕ → α) (id : ℕ) (v : α) : putAt f id v id = v :=
  if_pos rfl

theorem putAt_ne {α : Type} (f : ℕ → α) {id k : ℕ} (h : k ≠ id) (v : α) : putAt f id v k = f k :=
  if_neg h

/-- `ngx_http_cache_turbo_redis_launch`. -/
def launch (crc : Bytes → UInt32) (w : Worker) (conf : RedisConf) (walk : Bool) (command : Bytes)
    (env : LaunchEnv) : Worker :=
  if env.backoff then w
  else
    match kaGet crc w.ka conf with
    | (ka, some c) => { w with ka := ka, ops := opReused conf c walk command :: w.ops }
    | (ka, none) =>
        match redisConnect conf w.next walk command env with
        | none => { w with ka := ka }
        | some op =>
            { w with
              ka := ka
              ops := op :: w.ops
              live := w.next :: w.live
              opened := putAt w.opened w.next conf.profile
              next := w.next + 1 }

/-- The end of `ngx_http_cache_turbo_redis_op_done`: the connection is saved, or closed. -/
def opDone (crc : Bytes → UInt32) (w : Worker) (op : Op) (clean : Bool) (save : SaveEnv) :
    Worker :=
  let saved := kaSave crc w.ka op.conf op.conn clean save
  if saved.2 = some true then { w with ka := saved.1 }
  else { w with ka := saved.1, live := w.live.erase op.conn.id }

/-- The operation at place `k` has an event. -/
def runEvent (crc : Bytes → UInt32) (w : Worker) (k : ℕ) (e : OpEvent) (save : SaveEnv) : Worker :=
  match w.ops[k]? with
  | none => w
  | some op =>
      let r := opEvent op e
      let w := { w with log := putAt w.log op.conn.id (r.2 ++ w.log op.conn.id) }
      match r.1 with
      | .live op' => { w with ops := w.ops.set k op' }
      | .done op' clean => opDone crc { w with ops := w.ops.eraseIdx k } op' clean save

/-- `ngx_http_cache_turbo_redis_ka_close_handler`. -/
def dropIdle (w : Worker) (i j : ℕ) : Worker :=
  match w.ka[i]? with
  | none => w
  | some b =>
      if j ∈ b.cache then
        match kaDrop w.ka i j with
        | (ka, none) => { w with ka := ka }
        | (ka, some c) => { w with ka := ka, live := w.live.erase c.id }
      else w

/-- One move. -/
def move (crc : Bytes → UInt32) (w : Worker) : Move → Worker
  | .launch conf walk command env => launch crc w conf walk command env
  | .event k e save => runEvent crc w k e save
  | .drop i j => dropIdle w i j

/-! ## Who owns a connection -/

/-- The connections that operations and slots hold. -/
def owners (w : Worker) : List ℕ :=
  w.ops.map (fun op => op.conn.id) ++ (poolConns w.ka).map fun c => c.id

/-- **Each live connection has one owner**: the pool is in order, its connections are filed
under the profiles they were opened under, the live connections are those of the operations and
of the slots, each once, and an operation's connection was opened under its own profile. -/
structure Owned (w : Worker) : Prop where
  pool : KaOk w.ka
  filed : Filed w.opened w.ka
  shared : w.live.Perm (owners w)
  nodup : w.live.Nodup
  known : ∀ id ∈ w.live, id < w.next
  own : ∀ op ∈ w.ops, w.opened op.conn.id = op.conf.profile
  handlers : ∀ op ∈ w.ops, Handlers op

/-- **Commands go to ready connections.**  An operation is where the log of its connection says,
an idle connection is ready, and no connection was sent a command before it was. -/
structure Safe (w : Worker) : Prop where
  ops : ∀ op ∈ w.ops, Guard op (w.log op.conn.id)
  idle : ∀ c ∈ poolConns w.ka, Ready (w.opened c.id) (w.log c.id)
  guarded : ∀ id, Guarded (w.opened id) (w.log id)
  blank : ∀ id, w.next ≤ id → w.log id = []

theorem owned_start : Owned Worker.start where
  pool := ⟨fun _ hb => absurd hb List.not_mem_nil, Nat.zero_le _⟩
  filed := fun _ hb => absurd hb List.not_mem_nil
  shared := .refl _
  nodup := .nil
  known := fun _ hid => absurd hid List.not_mem_nil
  own := fun _ hop => absurd hop List.not_mem_nil
  handlers := fun _ hop => absurd hop List.not_mem_nil

theorem safe_start : Safe Worker.start where
  ops := fun _ hop => absurd hop List.not_mem_nil
  idle := fun _ hc => absurd hc List.not_mem_nil
  guarded := fun _ => trivial
  blank := fun _ _ => rfl

/-- What an operation owns, no other one does, nor a slot. -/
theorem Owned.apart {w : Worker} (h : Owned w) {op : Op} {rest : List Op}
    (hops : w.ops.Perm (op :: rest)) :
    (∀ op' ∈ rest, op'.conn.id ≠ op.conn.id) ∧ ∀ c ∈ poolConns w.ka, c.id ≠ op.conn.id := by
  have hnodup : (op.conn.id :: (rest.map (fun o => o.conn.id) ++
      (poolConns w.ka).map fun c => c.id)).Nodup := by
    have hall : (owners w).Nodup := h.shared.nodup_iff.1 h.nodup
    exact ((hops.map fun o => o.conn.id).append_right _).nodup_iff.1 hall
  have hnot := (List.nodup_cons.1 hnodup).1
  refine ⟨fun op' hop' heq => ?_, fun c hc heq => ?_⟩
  · exact hnot (List.mem_append_left _ (List.mem_map.2 ⟨op', hop', heq⟩))
  · exact hnot (List.mem_append_right _ (List.mem_map.2 ⟨c, hc, heq⟩))

/-- The end of an operation. -/
theorem opDone_owned (crc : Bytes → UInt32) {w : Worker} {op : Op} {clean : Bool} {save : SaveEnv}
    (hpool : KaOk w.ka) (hfiled : Filed w.opened w.ka)
    (howners : w.live.Perm (op.conn.id :: owners w)) (hnodup : w.live.Nodup)
    (hknown : ∀ id ∈ w.live, id < w.next) (hopened : w.opened op.conn.id = op.conf.profile)
    (hown : ∀ o ∈ w.ops, w.opened o.conn.id = o.conf.profile)
    (hhandlers : ∀ o ∈ w.ops, Handlers o) (hssl : clean = true → op.conn.ssl = op.conf.tls) :
    Owned (opDone crc w op clean save) := by
  obtain ⟨hka, hfile, hsaved⟩ := kaSave_spec crc hpool hfiled hopened hssl save
  unfold opDone
  dsimp only
  obtain ⟨hkept, hperm⟩ | ⟨hkept, hperm⟩ := hsaved
  · rw [if_pos hkept]
    refine ⟨hka, hfile, ?_, hnodup, hknown, hown, hhandlers⟩
    have hmoved : (op.conn.id :: owners w).Perm
        (w.ops.map (fun o => o.conn.id) ++
          (poolConns (kaSave crc w.ka op.conf op.conn clean save).1).map fun c => c.id) := by
      have hids := hperm.map fun c => c.id
      exact List.perm_middle.symm.trans (hids.symm.append_left _)
    exact howners.trans hmoved
  · rw [if_neg hkept]
    have herase := (howners.erase op.conn.id)
    rw [List.erase_cons_head] at herase
    refine ⟨hka, hfile, ?_, hnodup.erase _, fun id hid => hknown id (List.mem_of_mem_erase hid),
      hown, hhandlers⟩
    exact herase.trans ((hperm.map fun c => c.id).symm.append_left _)

/-- **A launch keeps the owners apart.** -/
theorem launch_owned (crc : Bytes → UInt32) {w : Worker} (h : Owned w) (conf : RedisConf)
    (walk : Bool) (command : Bytes) (env : LaunchEnv) :
    Owned (launch crc w conf walk command env) := by
  unfold launch
  by_cases hbackoff : env.backoff = true
  · rw [if_pos hbackoff]
    exact h
  rw [if_neg hbackoff]
  rcases kaGet_spec crc h.pool h.filed conf with hget | ⟨c, hc, hopened, hssl, hka, hfile, hperm⟩
  · rw [hget]
    dsimp only
    rcases hconnect : redisConnect conf w.next walk command env with _ | op
    · exact h
    · obtain ⟨rfl, hid, hhandlers, -⟩ := redisConnect_spec hconnect
      have hold : ∀ id ∈ w.live, putAt w.opened w.next op.conf.profile id = w.opened id :=
        fun id hid => putAt_ne _ (Nat.ne_of_lt (h.known id hid)) _
      refine ⟨h.pool, fun b hb c hc => ?_, ?_, ?_, fun id hmem => ?_, fun o ho => ?_, fun o ho => ?_⟩
      · have hlive : c.id ∈ w.live := h.shared.symm.subset (List.mem_append_right _
          (List.mem_map.2 ⟨c, List.mem_flatMap.2 ⟨b, hb, hc⟩, rfl⟩))
        show putAt w.opened w.next op.conf.profile c.id = b.profile
        rw [hold _ hlive]
        exact h.filed b hb c hc
      · have hfront := h.shared.cons w.next
        rw [← hid] at hfront ⊢
        exact hfront
      · exact List.nodup_cons.2 ⟨fun hmem => Nat.lt_irrefl _ (h.known _ hmem), h.nodup⟩
      · rcases List.mem_cons.1 hmem with rfl | hmem
        · exact Nat.lt_succ_self _
        · exact Nat.lt_succ_of_lt (h.known id hmem)
      · show putAt w.opened w.next op.conf.profile o.conn.id = o.conf.profile
        rcases List.mem_cons.1 ho with rfl | ho
        · rw [hid, putAt_self]
        · rw [hold _ (h.shared.symm.subset (List.mem_append_left _
            (List.mem_map.2 ⟨o, ho, rfl⟩)))]
          exact h.own o ho
      · rcases List.mem_cons.1 ho with rfl | ho
        · exact hhandlers
        · exact h.handlers o ho
  · rcases hget : kaGet crc w.ka conf with ⟨ka, got⟩
    rw [hget] at hc hka hfile hperm
    obtain rfl : got = some c := hc
    dsimp only at hka hfile hperm ⊢
    refine ⟨hka, hfile, ?_, h.nodup, h.known, fun o ho => ?_, fun o ho => ?_⟩
    · have hmoved : (owners w).Perm (c.id :: (w.ops.map (fun o => o.conn.id) ++
          (poolConns ka).map fun c => c.id)) :=
        ((hperm.map fun c => c.id).append_left _).trans List.perm_middle
      exact h.shared.trans hmoved
    · rcases List.mem_cons.1 ho with rfl | ho
      · exact hopened
      · exact h.own o ho
    · rcases List.mem_cons.1 ho with rfl | ho
      · exact Or.inr ⟨rfl, nofun, hssl⟩
      · exact h.handlers o ho

/-- **An event keeps the owners apart.** -/
theorem runEvent_owned (crc : Bytes → UInt32) {w : Worker} (h : Owned w) (k : ℕ) (e : OpEvent)
    (save : SaveEnv) : Owned (runEvent crc w k e save) := by
  unfold runEvent
  rcases hop : w.ops[k]? with _ | op
  · exact h
  dsimp only
  have hmem : op ∈ w.ops := List.mem_of_getElem? hop
  obtain ⟨rest, hops, hset, herase⟩ := Threads.split_at hop
  have hrest : ∀ o ∈ rest, o ∈ w.ops := fun o ho => hops.symm.subset (List.mem_cons_of_mem op ho)
  obtain ⟨hid, hconf, hkept⟩ := opEvent_kept (h.handlers op hmem) e
  have hown : ∀ op' : Op, op'.conn.id = op.conn.id → op'.conf = op.conf →
      w.opened op'.conn.id = op'.conf.profile := fun op' hid hconf => by
    rw [hid, hconf]
    exact h.own op hmem
  rcases hst : (opEvent op e).1 with op' | ⟨op', clean⟩
  · rw [hst] at hid hconf hkept
    refine ⟨h.pool, h.filed, ?_, h.nodup, h.known, fun o ho => ?_, fun o ho => ?_⟩
    · have hids : (w.ops.map fun o => o.conn.id).Perm ((w.ops.set k op').map fun o => o.conn.id) := by
        have hbefore := hops.map fun o => o.conn.id
        have hafter := (hset op').map fun o => o.conn.id
        rw [List.map_cons] at hbefore hafter
        rw [show op'.conn.id = op.conn.id from hid] at hafter
        exact hbefore.trans hafter.symm
      exact h.shared.trans (hids.append_right _)
    · rcases List.mem_cons.1 ((hset op').subset ho) with rfl | ho
      · exact hown _ hid hconf
      · exact h.own o (hrest o ho)
    · rcases List.mem_cons.1 ((hset op').subset ho) with rfl | ho
      · exact hkept
      · exact h.handlers o (hrest o ho)
  · rw [hst] at hid hconf hkept
    refine opDone_owned crc h.pool h.filed ?_ h.nodup h.known (hown op' hid hconf)
      (fun o ho => h.own o (hrest o (herase.subset ho)))
      (fun o ho => h.handlers o (hrest o (herase.subset ho))) hkept
    have hids : (w.ops.map fun o => o.conn.id).Perm
        (op'.conn.id :: (w.ops.eraseIdx k).map fun o => o.conn.id) := by
      have hbefore := hops.map fun o => o.conn.id
      rw [List.map_cons] at hbefore
      rw [show op'.conn.id = op.conn.id from hid]
      exact hbefore.trans ((herase.map fun o => o.conn.id).symm.cons _)
    exact h.shared.trans (hids.append_right _)

/-- The end of an idle connection. -/
theorem dropIdle_owned {w : Worker} (h : Owned w) (i j : ℕ) : Owned (dropIdle w i j) := by
  unfold dropIdle
  rcases hb : w.ka[i]? with _ | b
  · exact h
  dsimp only
  by_cases hj : j ∈ b.cache
  · rw [if_pos hj]
    obtain ⟨c, hc, hka, hfile, hperm⟩ := kaDrop_spec h.pool h.filed hb hj
    rcases hdrop : kaDrop w.ka i j with ⟨ka, got⟩
    rw [hdrop] at hc hka hfile hperm
    obtain rfl : got = some c := hc
    dsimp only at hka hfile hperm ⊢
    have hmoved : w.live.Perm (c.id :: (w.ops.map (fun o => o.conn.id) ++
        (poolConns ka).map fun c => c.id)) :=
      h.shared.trans (((hperm.map fun c => c.id).append_left _).trans List.perm_middle)
    have herase := hmoved.erase c.id
    rw [List.erase_cons_head] at herase
    exact ⟨hka, hfile, herase, h.nodup.erase _,
      fun id hid => h.known id (List.mem_of_mem_erase hid), h.own, h.handlers⟩
  · rw [if_neg hj]
    exact h

/-- **Every move keeps the owners apart.** -/
theorem move_owned (crc : Bytes → UInt32) {w : Worker} (h : Owned w) (m : Move) :
    Owned (move crc w m) := by
  cases m with
  | launch conf walk command env => exact launch_owned crc h conf walk command env
  | event k e save => exact runEvent_owned crc h k e save
  | drop i j => exact dropIdle_owned h i j

/-! ## What is sent on a connection -/

/-- **The end of an operation** leaves ready connections in the pool. -/
theorem opDone_safe (crc : Bytes → UInt32) {w : Worker} {op : Op} {clean : Bool} {save : SaveEnv}
    (hpool : KaOk w.ka) (hfiled : Filed w.opened w.ka)
    (hopened : w.opened op.conn.id = op.conf.profile)
    (hssl : clean = true → op.conn.ssl = op.conf.tls)
    (hready : clean = true → Ready op.conf.profile (w.log op.conn.id)) (h : Safe w) :
    Safe (opDone crc w op clean save) := by
  obtain ⟨-, -, hsaved⟩ := kaSave_spec crc hpool hfiled hopened hssl save
  unfold opDone
  dsimp only
  obtain ⟨hkept, hperm⟩ | ⟨hkept, hperm⟩ := hsaved
  · rw [if_pos hkept]
    refine ⟨h.ops, fun c hc => ?_, h.guarded, h.blank⟩
    rcases List.mem_cons.1 (hperm.subset hc) with rfl | hc
    · have hclean : clean = true := by
        cases clean with
        | true => rfl
        | false => cases hkept
      show Ready (w.opened op.conn.id) (w.log op.conn.id)
      rw [hopened]
      exact hready hclean
    · exact h.idle c hc
  · rw [if_neg hkept]
    exact ⟨h.ops, fun c hc => h.idle c (hperm.subset hc), h.guarded, h.blank⟩

/-- **A launch sends nothing**, and gives the operation a ready connection or a fresh one. -/
theorem launch_safe (crc : Bytes → UInt32) {w : Worker} (howned : Owned w) (h : Safe w)
    (conf : RedisConf) (walk : Bool) (command : Bytes) (env : LaunchEnv) :
    Safe (launch crc w conf walk command env) := by
  unfold launch
  by_cases hbackoff : env.backoff = true
  · rw [if_pos hbackoff]
    exact h
  rw [if_neg hbackoff]
  rcases kaGet_spec crc howned.pool howned.filed conf with
    hget | ⟨c, hc, hopened, -, -, -, hperm⟩
  · rw [hget]
    dsimp only
    rcases hconnect : redisConnect conf w.next walk command env with _ | op
    · exact h
    · obtain ⟨rfl, hid, -, hguard⟩ := redisConnect_spec hconnect
      have hold : ∀ id, id < w.next → putAt w.opened w.next op.conf.profile id = w.opened id :=
        fun id hid => putAt_ne _ (Nat.ne_of_lt hid) _
      have hlive : ∀ id ∈ owners w, id < w.next := fun id hmem =>
        howned.known id (howned.shared.symm.subset hmem)
      refine ⟨fun o ho => ?_, fun c hc => ?_, fun id => ?_, fun id hnext => ?_⟩
      · rcases List.mem_cons.1 ho with rfl | ho
        · show Guard o (w.log o.conn.id)
          rw [hid, h.blank _ le_rfl]
          exact hguard
        · exact h.ops o ho
      · show Ready (putAt w.opened w.next op.conf.profile c.id) (w.log c.id)
        rw [hold _ (hlive _ (List.mem_append_right _ (List.mem_map.2 ⟨c, hc, rfl⟩)))]
        exact h.idle c hc
      · show Guarded (putAt w.opened w.next op.conf.profile id) (w.log id)
        by_cases hold' : id < w.next
        · rw [hold _ hold']
          exact h.guarded id
        · rw [h.blank id (Nat.not_lt.1 hold')]
          trivial
      · exact h.blank id (Nat.le_of_succ_le hnext)
  · rcases hget : kaGet crc w.ka conf with ⟨ka, got⟩
    rw [hget] at hc hperm
    obtain rfl : got = some c := hc
    dsimp only at hperm ⊢
    refine ⟨fun o ho => ?_, fun d hd => ?_, h.guarded, h.blank⟩
    · rcases List.mem_cons.1 ho with rfl | ho
      · have hready := h.idle c (hperm.symm.subset List.mem_cons_self)
        rw [hopened] at hready
        exact opReused_guard hready walk command
      · exact h.ops o ho
    · exact h.idle d (hperm.symm.subset (List.mem_cons_of_mem c hd))

/-- **An event sends a command on a ready connection only**, unless a whole reply is read
early. -/
theorem runEvent_safe (crc : Bytes → UInt32) {w : Worker} (howned : Owned w) (h : Safe w) {k : ℕ}
    {e : OpEvent} (save : SaveEnv) (hearly : ∀ op, w.ops[k]? = some op → ¬ ReadsEarly op e) :
    Safe (runEvent crc w k e save) := by
  unfold runEvent
  rcases hop : w.ops[k]? with _ | op
  · exact h
  dsimp only
  have hmem : op ∈ w.ops := List.mem_of_getElem? hop
  obtain ⟨rest, hops, hset, herase⟩ := Threads.split_at hop
  have hrest : ∀ o ∈ rest, o ∈ w.ops := fun o ho => hops.symm.subset (List.mem_cons_of_mem op ho)
  obtain ⟨hapartOps, hapartIdle⟩ := howned.apart hops
  obtain ⟨hid, hconf, hkept⟩ := opEvent_kept (howned.handlers op hmem) e
  have hguarded := h.guarded op.conn.id
  rw [howned.own op hmem] at hguarded
  obtain ⟨hlog, hstate⟩ :=
    opEvent_advanced (howned.handlers op hmem) (h.ops op hmem) hguarded (hearly op hop)
  generalize hnew : (opEvent op e).2 ++ w.log op.conn.id = log at hlog hstate ⊢
  -- the logs of the other connections are as they were
  have hothers : ∀ o ∈ rest, Guard o (putAt w.log op.conn.id log o.conn.id) := fun o ho => by
    rw [putAt_ne _ (hapartOps o ho)]
    exact h.ops o (hrest o ho)
  have hidle : ∀ c ∈ poolConns w.ka, Ready (w.opened c.id) (putAt w.log op.conn.id log c.id) :=
    fun c hc => by
      rw [putAt_ne _ (hapartIdle c hc)]
      exact h.idle c hc
  have hall : ∀ id, Guarded (w.opened id) (putAt w.log op.conn.id log id) := fun id => by
    by_cases heq : id = op.conn.id
    · subst heq
      rw [putAt_self, howned.own op hmem]
      exact hlog
    · rw [putAt_ne _ heq]
      exact h.guarded id
  have hblank : ∀ id, w.next ≤ id → putAt w.log op.conn.id log id = [] := fun id hnext => by
    have hlive : op.conn.id ∈ w.live := howned.shared.symm.subset (List.mem_append_left _
      (List.mem_map.2 ⟨op, hmem, rfl⟩))
    have hne : id ≠ op.conn.id := fun heq => Nat.lt_irrefl _ (lt_of_lt_of_le
      (howned.known _ hlive) (heq ▸ hnext))
    rw [putAt_ne _ hne]
    exact h.blank id hnext
  rcases hst : (opEvent op e).1 with op' | ⟨op', clean⟩
  · rw [hst] at hid hstate
    refine ⟨fun o ho => ?_, hidle, hall, hblank⟩
    rcases List.mem_cons.1 ((hset op').subset ho) with rfl | ho
    · show Guard o (putAt w.log op.conn.id log o.conn.id)
      rw [show o.conn.id = op.conn.id from hid, putAt_self]
      exact hstate
    · exact hothers o ho
  · rw [hst] at hid hconf hstate hkept
    have hid' : op'.conn.id = op.conn.id := hid
    have hconf' : op'.conf = op.conf := hconf
    refine opDone_safe crc howned.pool howned.filed ?_ hkept (fun hclean => ?_)
      ⟨fun o ho => hothers o (herase.subset ho), hidle, hall, hblank⟩
    · rw [hid', hconf']
      exact howned.own op hmem
    · show Ready op'.conf.profile (putAt w.log op.conn.id log op'.conn.id)
      rw [hid', hconf', putAt_self]
      exact hstate hclean

/-- The end of an idle connection. -/
theorem dropIdle_safe {w : Worker} (howned : Owned w) (h : Safe w) (i j : ℕ) :
    Safe (dropIdle w i j) := by
  unfold dropIdle
  rcases hb : w.ka[i]? with _ | b
  · exact h
  dsimp only
  by_cases hj : j ∈ b.cache
  · rw [if_pos hj]
    obtain ⟨c, hc, -, -, hperm⟩ := kaDrop_spec howned.pool howned.filed hb hj
    rcases hdrop : kaDrop w.ka i j with ⟨ka, got⟩
    rw [hdrop] at hc hperm
    obtain rfl : got = some c := hc
    exact ⟨h.ops, fun d hd => h.idle d (hperm.symm.subset (List.mem_cons_of_mem c hd)), h.guarded,
      h.blank⟩
  · rw [if_neg hj]
    exact h

/-- The move has the handler of a command read a whole reply while the preamble of its
connection is not answered. -/
def EarlyMove (w : Worker) (m : Move) : Prop :=
  ∃ k e save op, m = .event k e save ∧ w.ops[k]? = some op ∧ ReadsEarly op e

/-- **A move sends a command on a ready connection only**, unless a whole reply is read early. -/
theorem move_safe (crc : Bytes → UInt32) {w : Worker} (howned : Owned w) (h : Safe w) {m : Move}
    (hearly : ¬ EarlyMove w m) : Safe (move crc w m) := by
  cases m with
  | launch conf walk command env => exact launch_safe crc howned h conf walk command env
  | event k e save =>
    exact runEvent_safe crc howned h save fun op hop hreads =>
      hearly ⟨k, e, save, op, rfl, hop, hreads⟩
  | drop i j => exact dropIdle_safe howned h i j

/-! ## Runs -/

/-- The worker after a run. -/
def afterMoves (crc : Bytes → UInt32) (moves : List Move) : Worker :=
  Run.after (move crc) Worker.start moves

theorem owned_after (crc : Bytes → UInt32) (moves : List Move) : Owned (afterMoves crc moves) := by
  have hstep : ∀ w m, Owned w → Owned (move crc w m) := fun w m h => move_owned crc h m
  exact Run.after_invariant hstep owned_start moves

/-- **A run in which no reply is read early** leaves a safe worker. -/
theorem safe_after (crc : Bytes → UInt32) {moves : List Move}
    (hearly : Run.Along (move crc) (fun w m => ¬ EarlyMove w m) Worker.start moves) :
    Safe (afterMoves crc moves) := by
  have hstep : ∀ w m, Owned w ∧ Safe w → ¬ EarlyMove w m →
      Owned (move crc w m) ∧ Safe (move crc w m) := fun w m h hm =>
    ⟨move_owned crc h.1 m, move_safe crc h.1 h.2 hm⟩
  exact (Run.after_of_along hstep ⟨owned_start, safe_start⟩ hearly).2

/-- **No command without a preamble**: a launch whose preamble cannot be built, with no pooled
connection for it, opens nothing. -/
theorem launch_error (crc : Bytes → UInt32) (w : Worker) {conf : RedisConf} (walk : Bool)
    (command : Bytes) {env : LaunchEnv} (hpool : (kaGet crc w.ka conf).2 = none)
    (herror : redisPreamble conf env.room = .error) :
    launch crc w conf walk command env =
      if env.backoff then w else { w with ka := (kaGet crc w.ka conf).1 } := by
  unfold launch
  split
  · rfl
  rcases hget : kaGet crc w.ka conf with ⟨ka, got⟩
  rw [hget] at hpool
  obtain rfl : got = none := hpool
  dsimp only
  unfold redisConnect
  rw [herror]

/-- **The pool and the connections of a worker, after every run.**  A connection is used by an
operation of the profile it was opened under; each live connection is one operation's or one
slot's; the slots of a bucket are cached or free, and the count never exceeds the maximum; a
launch whose preamble cannot be built opens nothing.  If no whole reply is read early in the run,
then the bytes of a command are sent on a connection that is ready, and on no other. -/
theorem connections_safe (crc : Bytes → UInt32) (moves : List Move) :
    let w := afterMoves crc moves
    (∀ op ∈ w.ops, w.opened op.conn.id = op.conf.profile) ∧
      (w.live.Perm (owners w) ∧ w.live.Nodup) ∧
      (∀ b ∈ w.ka, (b.cache ++ b.free).Perm (List.range b.max) ∧ b.items.length = b.max ∧
        b.count = b.cache.length ∧ b.count ≤ b.max) ∧
      (∀ conf walk command env, (kaGet crc w.ka conf).2 = none →
        redisPreamble conf env.room = .error →
          let w' := launch crc w conf walk command env
          w'.ops = w.ops ∧ w'.live = w.live ∧ w'.log = w.log) ∧
      (Run.Along (move crc) (fun w m => ¬ EarlyMove w m) Worker.start moves →
        ∀ id, Guarded (w.opened id) (w.log id)) := by
  intro w
  have howned : Owned w := owned_after crc moves
  refine ⟨howned.own, ⟨howned.shared, howned.nodup⟩, fun b hb => ?_, ?_, fun hearly => ?_⟩
  · have hok := howned.pool.buckets b hb
    exact ⟨hok.slots, hok.items, hok.count, hok.count_le⟩
  · intro conf walk command env hpool herror
    rw [launch_error crc w walk command hpool herror]
    split
    · exact ⟨rfl, rfl, rfl⟩
    · exact ⟨rfl, rfl, rfl⟩
  · exact (safe_after crc hearly).guarded

/-- A server that asks for a password, without TLS. -/
def authConf : RedisConf :=
  ⟨[10, 0, 0, 1], false, false, 0, [], [112], [], [], [], 0, 0⟩

/-- Everything succeeds in a launch. -/
def launchOk : LaunchEnv := ⟨false, ⟨true, true, true, true⟩, true⟩

/-- Nothing is kept. -/
def saveNone : SaveEnv := ⟨true, false, false, false⟩

/-- The preamble is sent and answered, then the command is sent. -/
theorem connections_safe_auth :
    (afterMoves (fun _ => 0) [.launch authConf false [71] launchOk,
        .event 0 (.writable 100 true) saveNone,
        .event 0 (.readable (.data [43, 79, 75, 13, 10])) saveNone,
        .event 0 (.writable 100 true) saveNone]).log 0 =
      [.command [71], .heard [43, 79, 75, 13, 10],
        .preamble (redisEncode [authWord, [112]])] ∧
      Guarded authConf.profile [.command [71], .heard [43, 79, 75, 13, 10],
        .preamble (redisEncode [authWord, [112]])] := by
  have hlog : (afterMoves (fun _ => 0) [.launch authConf false [71] launchOk,
        .event 0 (.writable 100 true) saveNone,
        .event 0 (.readable (.data [43, 79, 75, 13, 10])) saveNone,
        .event 0 (.writable 100 true) saveNone]).log 0 =
      [.command [71], .heard [43, 79, 75, 13, 10],
        .preamble (redisEncode [authWord, [112]])] := by decide
  have hearly : Run.Along (move fun _ => 0) (fun w m => ¬ EarlyMove w m) Worker.start
      [.launch authConf false [71] launchOk,
        .event 0 (.writable 100 true) saveNone,
        .event 0 (.readable (.data [43, 79, 75, 13, 10])) saveNone,
        .event 0 (.writable 100 true) saveNone] := by
    refine ⟨?_, ?_, ?_, ?_, trivial⟩
    all_goals
      rintro ⟨k, e, save, op, hm, -, -, -, r, hr, -⟩
      rw [hr] at hm
      cases hm
  have hguarded := (connections_safe (fun _ => 0) _).2.2.2.2 hearly 0
  rw [hlog] at hguarded
  exact ⟨hlog, hguarded⟩

/-- **A page that comes before the preamble was sent** has the next command of the walk sent
on a connection that never authenticated. -/
theorem not_guarded_early_page :
    ¬ ∀ (crc : Bytes → UInt32) (moves : List Move) (id : ℕ),
      Guarded ((afterMoves crc moves).opened id) ((afterMoves crc moves).log id) := by
  intro h
  have hguarded := h (fun _ => 0) [.launch authConf true [83] launchOk,
    .event 0 (.reply (.nextPage [83])) saveNone, .event 0 (.writable 1 true) saveNone] 0
  have hready := hguarded.1 ⟨[83], rfl, nofun⟩
  exact not_answered_nil Nat.one_pos hready.2

end L2
end CacheTurbo
