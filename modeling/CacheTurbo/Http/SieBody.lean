/-
# The body that takes the place of an error

The body half of serve-on-error: `ngx_http_cache_turbo_body_filter` with its capture, its
forwarding, and `ngx_http_cache_turbo_body_filter_sie_emit`, which hands the snapshot over once
and swallows the chains that come after (`ngx_http_cache_turbo_filters.c`).  The run begins
where `header_filter_try_sie` has put a snapshot in the place of an error.

Behind the filter stands a next one that holds what it is handed and sends any part of it each
time it is called.  nginx's writer asks for more by calls with an empty chain.  The filter
swallows these too, so what the next filter did not send at once it never sends
(`sie_body_iff`).
-/

import CacheTurbo.Lib.Run
import CacheTurbo.Http.CaptureBlob
import CacheTurbo.Http.SieRewrite

namespace CacheTurbo
namespace Http

open Bytes Blob

/-! ## Buffers -/

/-- `ngx_buf_t`; `memory` is `ngx_buf_in_memory`, and the positions count from the beginning
of the block and of the file. -/
structure ChainBuf where
  block : Bytes
  pos : ℕ
  last : ℕ
  memory : Bool
  file : Bytes
  filePos : ℕ
  fileLast : ℕ
  inFile : Bool
  sync : Bool
  lastBuf : Bool
  lastInChain : Bool
  deriving DecidableEq, Repr

/-- What a client gets: bytes, and the end of the response. -/
inductive Piece
  | byte (c : UInt8)
  | finish
  deriving DecidableEq, Repr

/-- The bytes of a buffer that are in memory. -/
def memoryBytes (b : ChainBuf) : Bytes := if b.memory then (b.block.take b.last).drop b.pos else []

/-- What a buffer stands for. -/
def bufPieces (b : ChainBuf) : List Piece :=
  (if b.memory then memoryBytes b
    else if b.inFile then (b.file.take b.fileLast).drop b.filePos else []).map Piece.byte ++
    if b.lastBuf then [.finish] else []

/-- What a chain stands for. -/
def chainPieces (chain : List ChainBuf) : List Piece := chain.flatMap bufPieces

/-- A buffer that is used up, as `sie_consume` and the swallowing of a background request
leave it. -/
def consumeBuf (b : ChainBuf) : ChainBuf :=
  { b with pos := b.last, filePos := b.fileLast, sync := true }

/-! ## The context -/

/-- What the two filters read and write of `ngx_http_cache_turbo_ctx_t`. -/
structure SieCtx where
  sieSnap : Option Bytes
  sieServing : Bool
  sieBodySent : Bool
  sieFlushed : Bool
  sieBody : Bytes
  served : Bool
  captured : Bool
  warm : Bool
  body : CapturedBody

/-- `ngx_http_cache_turbo_header_filter_try_sie`, without the counters and the lock of a cold
miss; a snapshot is armed when there is one. -/
def headerFilterTrySie (env : RestoreEnv) (now : Time) (r : Request) (useStale : ℕ)
    (transportFailure : Bool) (ctx : SieCtx) (out : ResponseOut) : SieCtx × ResponseOut × Rc :=
  match ctx.sieSnap with
  | none => (ctx, out, .declined)
  | some snap =>
      if !ctx.sieServing && useStaleTriggers useStale out.status transportFailure then
        match sieRewriteOut env now r snap out with
        | .rewritten a =>
            ({ ctx with
                sieBody := (snap.drop a.body).take a.bodyLen
                served := true
                sieServing := true }, a.out, .ok)
        | .error => (ctx, out, .error)
        | .declined => (ctx, out, .declined)
      else (ctx, out, .declined)

/-! ## The filter -/

/-- How a call of the filter ends: with the next filter's answer, or with its own. -/
inductive BodyAnswer
  | next
  | ok
  | error
  deriving DecidableEq, Repr

/-- One call of the filter: the context after it, the incoming chain as it is left, and the
chain the next filter was called with. -/
structure BodyStep where
  ctx : SieCtx
  left : List ChainBuf
  passed : Option (List ChainBuf)
  answer : BodyAnswer

/-- The buffer of `sie_emit`. -/
def sieBuf (main : Bool) (body : Bytes) : ChainBuf where
  block := body
  pos := 0
  last := body.length
  memory := decide (body.length > 0)
  file := []
  filePos := 0
  fileLast := 0
  inFile := false
  sync := decide (body.length = 0)
  lastBuf := main
  lastInChain := true

/-- `ngx_http_cache_turbo_body_filter_sie_emit` and the exits of its caller; `room` is
whether the pool has a buffer. -/
def bodyFilterSieEmit (main room : Bool) (ctx : SieCtx) (chain : List ChainBuf) : BodyStep :=
  if ctx.sieBodySent then ⟨ctx, chain.map consumeBuf, none, .ok⟩
  else if !room then ⟨{ ctx with sieBodySent := true }, chain, none, .error⟩
  else
    ⟨{ ctx with sieBodySent := true }, chain.map consumeBuf, some [sieBuf main ctx.sieBody], .next⟩

/-- A buffer with bytes. -/
def bufNonempty (b : ChainBuf) : Bool :=
  (b.memory && decide (b.last > b.pos)) || (b.inFile && decide (b.fileLast > b.filePos))

/-- `ngx_http_cache_turbo_forward_body`: a background request has no client. -/
def forwardBody (ctx : SieCtx) (chain : List ChainBuf) : BodyStep :=
  if !ctx.warm then
    ⟨{ ctx with sieFlushed := ctx.sieFlushed || chain.any bufNonempty }, chain, some chain, .next⟩
  else ⟨ctx, chain.map consumeBuf, none, .ok⟩

/-- A buffer whose bytes are in a file alone. -/
def fileBacked (b : ChainBuf) : Bool :=
  b.inFile && !b.memory && decide (b.fileLast > b.filePos)

/-- `ngx_http_cache_turbo_body_filter_capture` on a chain that may be file-backed, and the
forwarding after it.  What is stored at the last buffer is the business of
`body_filter_store_tail`. -/
def captureAndForward (maxSize : ℕ) (room : Bool) (ctx : SieCtx) (chain : List ChainBuf) :
    BodyStep :=
  match if chain.any fileBacked then none
    else bodyFilterCapture maxSize ctx.body (chain.map memoryBytes) with
  | none => forwardBody { ctx with captured := false, body := .empty } chain
  | some body =>
      if chain.all fun b => memoryBytes b = [] then forwardBody ctx chain
      else if !room then ⟨ctx, chain, none, .error⟩
      else forwardBody { ctx with body := body } chain

/-- `ngx_http_cache_turbo_body_filter`. -/
def bodyFilter (maxSize : ℕ) (main room : Bool) (ctx : SieCtx) (chain : List ChainBuf) :
    BodyStep :=
  if ctx.sieServing then bodyFilterSieEmit main room ctx chain
  else if !ctx.captured || ctx.served then forwardBody ctx chain
  else captureAndForward maxSize room ctx chain

/-! ## Runs -/

/-- The filters behind: what they hold, and what they have sent. -/
structure NextFilter where
  held : List Piece
  wire : List Piece
  deriving DecidableEq, Repr

/-- They take a chain and send `sends` pieces of all they hold, or as many as there are. -/
def NextFilter.take (next : NextFilter) (sends : ℕ) (chain : List ChainBuf) : NextFilter where
  held := (next.held ++ chainPieces chain).drop sends
  wire := next.wire ++ (next.held ++ chainPieces chain).take sends

/-- A call of the filter, with what the pool has and what the next filter would send. -/
structure BodyCall where
  chain : List ChainBuf
  room : Bool
  sends : ℕ
  deriving DecidableEq, Repr

/-- A delivery; `chains` are the chains handed to the next filter so far. -/
structure Delivery where
  ctx : SieCtx
  next : NextFilter
  chains : List (List ChainBuf)

namespace Delivery

/-- What the filter does in a call. -/
def filter (maxSize : ℕ) (main : Bool) (d : Delivery) (call : BodyCall) : BodyStep :=
  bodyFilter maxSize main call.room d.ctx call.chain

/-- A call. -/
def step (maxSize : ℕ) (main : Bool) (d : Delivery) (call : BodyCall) : Delivery :=
  match (d.filter maxSize main call).passed with
  | none => { d with ctx := (d.filter maxSize main call).ctx }
  | some chain =>
      { ctx := (d.filter maxSize main call).ctx
        next := d.next.take call.sends chain
        chains := d.chains ++ [chain] }

end Delivery

/-! ## What a delivery should be -/

/-- A buffer as it came, used up. -/
structure Consumed (b b' : ChainBuf) : Prop where
  block : b'.block = b.block
  last : b'.last = b.last
  file : b'.file = b.file
  fileLast : b'.fileLast = b.fileLast
  memory : b'.pos = b'.last
  inFile : b'.filePos = b'.fileLast

/-- The snapshot is handed over once and nothing else is; the origin's buffers are used up;
and whoever asks for more afterwards is passed on. -/
structure SieDelivered (maxSize : ℕ) (main : Bool) (body : Bytes) (d : Delivery)
    (calls : List BodyCall) : Prop where
  handed : (Run.after (Delivery.step maxSize main) d calls).chains.filter (fun c => c ≠ []) =
    [[sieBuf main body]]
  pieces : (Run.after (Delivery.step maxSize main) d calls).chains.flatMap chainPieces =
    body.map .byte ++ if main then [.finish] else []
  consumed : Run.Along (Delivery.step maxSize main) (fun d call =>
    List.Forall₂ Consumed call.chain (d.filter maxSize main call).left) d calls
  asked : Run.Along (Delivery.step maxSize main) (fun d call =>
    [sieBuf main body] ∈ d.chains → call.chain = [] →
      (d.filter maxSize main call).passed = some []) d calls

theorem consumed_map (chain : List ChainBuf) :
    List.Forall₂ Consumed chain (chain.map consumeBuf) := by
  induction chain with
  | nil => exact .nil
  | cons b chain ih => exact .cons ⟨rfl, rfl, rfl, rfl, rfl, rfl⟩ ih

/-- The buffer of the snapshot stands for its body, and ends the response of a main
request. -/
theorem bufPieces_sieBuf (main : Bool) (body : Bytes) :
    bufPieces (sieBuf main body) = body.map .byte ++ if main then [.finish] else [] := by
  unfold bufPieces memoryBytes sieBuf
  dsimp only
  by_cases hbody : body = []
  · subst hbody
    cases main with
    | true => rfl
    | false => rfl
  · have hpos : body.length > 0 := List.length_pos_iff.2 hbody
    rw [decide_eq_true hpos, if_pos rfl, if_pos rfl, List.drop_zero, List.take_length]

/-! ## The calls -/

/-- The first call hands the snapshot over. -/
theorem filter_first (maxSize : ℕ) (main : Bool) {d : Delivery} (hserving : d.ctx.sieServing = true)
    (hsent : d.ctx.sieBodySent = false) (call : BodyCall) :
    d.filter maxSize main call =
      if call.room then
        ⟨{ d.ctx with sieBodySent := true }, call.chain.map consumeBuf,
          some [sieBuf main d.ctx.sieBody], .next⟩
      else ⟨{ d.ctx with sieBodySent := true }, call.chain, none, .error⟩ := by
  unfold Delivery.filter bodyFilter bodyFilterSieEmit
  rw [if_pos hserving, if_neg (by rw [hsent]; exact Bool.false_ne_true)]
  cases call.room with
  | true => rfl
  | false => rfl

/-- A delivery whose snapshot has been handed over. -/
structure Sent (d : Delivery) : Prop where
  serving : d.ctx.sieServing = true
  sent : d.ctx.sieBodySent = true

/-- Every later call is swallowed, whatever its chain. -/
theorem Sent.filter {d : Delivery} (h : Sent d) (maxSize : ℕ) (main : Bool) (call : BodyCall) :
    d.filter maxSize main call = ⟨d.ctx, call.chain.map consumeBuf, none, .ok⟩ := by
  unfold Delivery.filter bodyFilter bodyFilterSieEmit
  rw [if_pos h.serving, if_pos h.sent]

theorem Sent.step {d : Delivery} (h : Sent d) (maxSize : ℕ) (main : Bool) (call : BodyCall) :
    d.step maxSize main call = d := by
  unfold Delivery.step
  rw [h.filter maxSize main call]

/-- **Nothing reaches the next filter after the snapshot.** -/
theorem Sent.after {d : Delivery} (h : Sent d) (maxSize : ℕ) (main : Bool)
    (calls : List BodyCall) : Run.after (Delivery.step maxSize main) d calls = d := by
  refine Run.after_invariant (P := fun d' => d' = d) (fun d' call hd => ?_) rfl calls
  rw [hd, h.step maxSize main call]

theorem Sent.along {d : Delivery} (h : Sent d) {maxSize : ℕ} {main : Bool}
    {R : Delivery → BodyCall → Prop} (calls : List BodyCall) :
    Run.Along (Delivery.step maxSize main) R d calls ↔ ∀ call ∈ calls, R d call := by
  induction calls with
  | nil => exact iff_of_true trivial nofun
  | cons call calls ih =>
    rw [Run.along_cons, h.step maxSize main call, ih, List.forall_mem_cons]

/-! ## From the header half -/

/-- The delivery when the header half is done. -/
def Delivery.start (ctx : SieCtx) : Delivery := ⟨ctx, ⟨[], []⟩, []⟩

/-- A restore of a stale copy gives the body of the blob. -/
theorem restoreInto_body {env : RestoreEnv} {now : Time} {r : Request} {copy : Bytes}
    {xcache : ServeReason} {out : ResponseOut} {a : Restoration}
    (h : restoreInto env now r copy xcache out = some a) : ∃ v, blobValidate now copy = some v ∧
      (copy.drop a.body).take a.bodyLen = v.body := by
  unfold restoreInto at h
  obtain ⟨v, hv, hrest⟩ := Option.bind_eq_some_iff.1 h
  obtain ⟨base, -, rfl⟩ := Option.map_eq_some_iff.1 hrest
  refine ⟨v, hv, ?_⟩
  rw [blobValidate] at hv
  by_cases hrefused : blobHdrRefused now copy
  · rw [if_pos hrefused] at hv
    cases hv
  · rw [if_neg hrefused] at hv
    obtain ⟨refs, -, rfl⟩ := Option.map_eq_some_iff.1 hv
    rfl

/-- What the header half leaves in the context. -/
theorem headerFilterTrySie_ok {env : RestoreEnv} {now : Time} {r : Request} {useStale : ℕ}
    {transportFailure : Bool} {ctx ctx' : SieCtx} {out out' : ResponseOut}
    (h : headerFilterTrySie env now r useStale transportFailure ctx out = (ctx', out', .ok)) :
    ∃ snap v, ctx.sieSnap = some snap ∧ blobValidate now snap = some v ∧
      ctx' = { ctx with sieBody := v.body, served := true, sieServing := true } := by
  unfold headerFilterTrySie at h
  cases hsnap : ctx.sieSnap with
  | none =>
    rw [hsnap] at h
    cases h
  | some snap =>
    rw [hsnap] at h
    dsimp only at h
    split_ifs at h
    · cases hrewrite : sieRewriteOut env now r snap out with
      | declined =>
        rw [hrewrite] at h
        cases h
      | error =>
        rw [hrewrite] at h
        cases h
      | rewritten a =>
        rw [hrewrite] at h
        obtain ⟨v, hv, hbody⟩ := restoreInto_body (sieRewriteOut_eq hrewrite).2
        obtain ⟨rfl, -⟩ := Prod.mk.inj h
        exact ⟨snap, v, rfl, hv, by rw [hbody]⟩
    · cases h

section FromStart

variable {maxSize : ℕ} {main : Bool} {ctx : SieCtx} {first : BodyCall}

/-- After the first call the snapshot has been handed over, if the pool had a buffer. -/
theorem start_step (maxSize : ℕ) (main : Bool) (hserving : ctx.sieServing = true)
    (hsent : ctx.sieBodySent = false) (hroom : first.room = true) : (Delivery.start ctx).step maxSize main first =
      ⟨{ ctx with sieBodySent := true },
        (⟨[], []⟩ : NextFilter).take first.sends [sieBuf main ctx.sieBody],
        [[sieBuf main ctx.sieBody]]⟩ := by
  have hfilter : (Delivery.start ctx).filter maxSize main first = _ :=
    filter_first maxSize main hserving hsent first
  rw [if_pos hroom] at hfilter
  unfold Delivery.step
  rw [hfilter]
  rfl

/-- Without a buffer nothing is ever handed over. -/
theorem start_step_noRoom (maxSize : ℕ) (main : Bool) (hserving : ctx.sieServing = true)
    (hsent : ctx.sieBodySent = false) (hroom : first.room = false) : (Delivery.start ctx).step maxSize main first =
      ⟨{ ctx with sieBodySent := true }, ⟨[], []⟩, []⟩ := by
  have hfilter : (Delivery.start ctx).filter maxSize main first = _ :=
    filter_first maxSize main hserving hsent first
  rw [if_neg (by rw [hroom]; exact Bool.false_ne_true)] at hfilter
  unfold Delivery.step
  rw [hfilter]
  rfl

/-- With a buffer the delivery fails only those who ask for more. -/
theorem delivered_iff (hserving : ctx.sieServing = true) (hsent : ctx.sieBodySent = false)
    (hroom : first.room = true) (later : List BodyCall) :
    SieDelivered maxSize main ctx.sieBody (.start ctx) (first :: later) ↔
      ∀ call ∈ later, call.chain ≠ [] := by
  have hstep := start_step maxSize main hserving hsent hroom
  have hdone : Sent ((Delivery.start ctx).step maxSize main first) := by
    rw [hstep]
    exact ⟨hserving, rfl⟩
  have hafter : Run.after (Delivery.step maxSize main) (.start ctx) (first :: later) =
      (Delivery.start ctx).step maxSize main first := by
    rw [Run.after_cons, hdone.after maxSize main later]
  have hmem : [sieBuf main ctx.sieBody] ∈ ((Delivery.start ctx).step maxSize main first).chains := by
    rw [hstep]
    exact List.mem_singleton_self _
  constructor
  · intro h call hcall hempty
    have hpassed := (hdone.along later).1 h.asked.2 call hcall hmem hempty
    rw [hdone.filter maxSize main call] at hpassed
    cases hpassed
  · intro hlater
    refine ⟨?_, ?_, ?_, ?_⟩
    · rw [hafter, hstep]
      rfl
    · rw [hafter, hstep, ← bufPieces_sieBuf]
      show chainPieces [sieBuf main ctx.sieBody] ++ [] = _
      rw [List.append_nil, chainPieces, List.flatMap_singleton]
    · refine ⟨?_, (hdone.along later).2 fun call _ => ?_⟩
      · have hfilter : (Delivery.start ctx).filter maxSize main first = _ :=
          filter_first maxSize main hserving hsent first
        show List.Forall₂ Consumed first.chain ((Delivery.start ctx).filter maxSize main first).left
        rw [hfilter, if_pos hroom]
        exact consumed_map first.chain
      · rw [hdone.filter maxSize main call]
        exact consumed_map call.chain
    · refine ⟨fun hin => absurd hin List.not_mem_nil, (hdone.along later).2 fun call hcall => ?_⟩
      exact fun _ hempty => absurd hempty (hlater call hcall)

/-- Without one it fails everybody. -/
theorem not_delivered (hserving : ctx.sieServing = true) (hsent : ctx.sieBodySent = false)
    (hroom : first.room = false) (later : List BodyCall) :
    ¬SieDelivered maxSize main ctx.sieBody (.start ctx) (first :: later) := by
  intro h
  have hstep := start_step_noRoom maxSize main hserving hsent hroom
  have hdone : Sent ((Delivery.start ctx).step maxSize main first) := by
    rw [hstep]
    exact ⟨hserving, rfl⟩
  have hhanded := h.handed
  rw [Run.after_cons, hdone.after maxSize main later, hstep] at hhanded
  cases hhanded

end FromStart

/-- **The body that takes the place of an error.**  The snapshot is delivered as it should be
exactly when the pool has a buffer for it and no call asks for more afterwards; and whatever
calls come, the next filter is never reached again: it holds what it did not send at once. -/
theorem sie_body_iff (maxSize : ℕ) (main : Bool) {env : RestoreEnv} {now : Time} {r : Request}
    {useStale : ℕ} {transportFailure : Bool} {ctx₀ ctx : SieCtx} {out out' : ResponseOut}
    (hsie : headerFilterTrySie env now r useStale transportFailure ctx₀ out = (ctx, out', .ok))
    (hsent : ctx₀.sieBodySent = false) (first : BodyCall) (later : List BodyCall) :
    ∃ snap v, ctx₀.sieSnap = some snap ∧ blobValidate now snap = some v ∧
      (SieDelivered maxSize main v.body (.start ctx) (first :: later) ↔
        first.room = true ∧ ∀ call ∈ later, call.chain ≠ []) ∧
      (first.room = true →
        (Run.after (Delivery.step maxSize main) (.start ctx) (first :: later)).next =
          ⟨(bufPieces (sieBuf main v.body)).drop first.sends,
            (bufPieces (sieBuf main v.body)).take first.sends⟩) := by
  obtain ⟨snap, v, hsnap, hv, hctx⟩ := headerFilterTrySie_ok hsie
  have hserving : ctx.sieServing = true := by rw [hctx]
  have hbody : ctx.sieBody = v.body := by rw [hctx]
  have hunsent : ctx.sieBodySent = false := by rw [hctx, hsent]
  refine ⟨snap, v, hsnap, hv, ?_, fun hroom => ?_⟩
  · rw [← hbody]
    cases hroom : first.room with
    | true =>
      rw [eq_self, true_and]
      exact delivered_iff hserving hunsent hroom later
    | false =>
      exact iff_of_false (not_delivered hserving hunsent hroom later)
        fun h => Bool.false_ne_true h.1
  · have hstep := start_step maxSize main hserving hunsent hroom
    have hdone : Sent ((Delivery.start ctx).step maxSize main first) := by
      rw [hstep]
      exact ⟨hserving, rfl⟩
    rw [Run.after_cons, hdone.after maxSize main later, hstep, hbody]
    show (⟨(chainPieces [sieBuf main v.body]).drop first.sends,
      (chainPieces [sieBuf main v.body]).take first.sends⟩ : NextFilter) = _
    rw [chainPieces, List.flatMap_singleton]

/-! ## A slow client -/

/-- A request with the old page as its snapshot. -/
def armedCtx : SieCtx :=
  { sieSnap := some (taggedPage oldTag), sieServing := false, sieBodySent := false,
    sieFlushed := false, sieBody := [], served := false, captured := false, warm := false,
    body := .empty }

/-- The header half on a bare 503. -/
def servedOverError : SieCtx × ResponseOut × Rc :=
  headerFilterTrySie plainEnv 1100 (bareRequest [47]) useStaleHttp503 false armedCtx bareError

theorem servedOverError_ok :
    headerFilterTrySie plainEnv 1100 (bareRequest [47]) useStaleHttp503 false armedCtx bareError =
      (servedOverError.1, servedOverError.2.1, .ok) := by
  have hok : servedOverError.2.2 = .ok := by decide +kernel
  exact Prod.ext rfl (Prod.ext rfl hok)

/-- The error page `"!"` in one buffer. -/
def errorBuf : ChainBuf where
  block := [33]
  pos := 0
  last := 1
  memory := true
  file := []
  filePos := 0
  fileLast := 0
  inFile := false
  sync := false
  lastBuf := true
  lastInChain := true

/-- It comes while the client takes nothing yet. -/
def errorCall : BodyCall := ⟨[errorBuf], true, 0⟩

/-- The writer asks for more. -/
def writerCall : BodyCall := ⟨[], true, 2⟩

theorem sie_body_iff_writer : ∃ snap v, armedCtx.sieSnap = some snap ∧
    blobValidate 1100 snap = some v ∧
    (SieDelivered 0 true v.body (.start servedOverError.1) [errorCall, writerCall] ↔
      errorCall.room = true ∧ ∀ call ∈ [writerCall], call.chain ≠ []) ∧
    (errorCall.room = true →
      (Run.after (Delivery.step 0 true) (.start servedOverError.1) [errorCall, writerCall]).next =
        ⟨(bufPieces (sieBuf true v.body)).drop errorCall.sends,
          (bufPieces (sieBuf true v.body)).take errorCall.sends⟩) :=
  sie_body_iff 0 true servedOverError_ok rfl errorCall [writerCall]

/-- **The writer's call is swallowed**: the next filter keeps what it holds. -/
theorem writer_swallowed :
    ¬ ∀ (maxSize : ℕ) (main : Bool) (env : RestoreEnv) (now : Time) (r : Request) (useStale : ℕ)
      (transportFailure : Bool) (ctx₀ ctx : SieCtx) (out out' : ResponseOut),
      headerFilterTrySie env now r useStale transportFailure ctx₀ out = (ctx, out', .ok) →
      ctx₀.sieBodySent = false → ∀ (first : BodyCall) (later : List BodyCall),
      first.room = true →
      ∃ snap v, ctx₀.sieSnap = some snap ∧ blobValidate now snap = some v ∧
        SieDelivered maxSize main v.body (.start ctx) (first :: later) := by
  intro hall
  obtain ⟨snap, v, -, -, hdelivered⟩ := hall 0 true plainEnv 1100 (bareRequest [47])
    useStaleHttp503 false armedCtx servedOverError.1 bareError servedOverError.2.1
    servedOverError_ok rfl errorCall [writerCall] rfl
  have hserving : servedOverError.1.sieServing = true := by decide +kernel
  have hunsent : servedOverError.1.sieBodySent = false := by decide +kernel
  have hstep := start_step 0 true hserving hunsent (show errorCall.room = true from rfl)
  have hdone : Sent ((Delivery.start servedOverError.1).step 0 true errorCall) := by
    rw [hstep]
    exact ⟨hserving, rfl⟩
  -- the snapshot's buffer has been handed over, so the writer's call should be passed on
  have hhanded := hdelivered.handed
  rw [Run.after_cons, hdone.after, hstep] at hhanded
  have hmem : [sieBuf true v.body] ∈
      ((Delivery.start servedOverError.1).step 0 true errorCall).chains := by
    have hin : [sieBuf true v.body] ∈
        [[sieBuf true servedOverError.1.sieBody]].filter (fun c => c ≠ []) := by
      rw [hhanded]
      exact List.mem_singleton_self _
    rw [hstep]
    exact (List.mem_filter.1 hin).1
  have hpassed := hdelivered.asked.2.1 hmem rfl
  rw [hdone.filter] at hpassed
  cases hpassed

end Http
end CacheTurbo
