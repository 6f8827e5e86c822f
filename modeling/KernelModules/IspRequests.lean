import KernelModules.Machine
import Mathlib.Data.List.DropRight

/-!
# Requests of an ISP context and the lists they are kept on

A request object is taken from the free list when a packet is accepted. Applying it takes it from
the pending to the wait list, and the hardware's reg update to the active list, where it collects
the buf dones of its outputs; when it has them all it is free again.

The fences and requests carry a history that the code does not have: which signals were sent, which
buf dones came in. It is written and never read.
-/

namespace KernelModules.Isp

/-- `CAM_ISP_CTX_REQ_MAX`. -/
abbrev reqMax : ℕ := 8

/-- `CAM_ISP_CTX_CFG_MAX`. -/
abbrev cfgMax : ℕ := 25

abbrev eAgain : ℤ := -11
abbrev eNomem : ℤ := -12
abbrev eFault : ℤ := -14
abbrev eInval : ℤ := -22
abbrev eBadr : ℤ := -53
abbrev eProto : ℤ := -71

inductive SyncStatus
  | success
  | error
  deriving DecidableEq

/-- An output of a request. Its sync id is `-1` once it has been dealt with. `signals` is what this
driver has signalled, and `elsewhere` is whether somebody else has signalled the object. -/
structure Fence where
  resource : ℕ
  syncId : ℤ
  signals : List SyncStatus := []
  elsewhere : Bool := false

/-- A request object, the `obj`-th of the context. `dones` are the buf dones that came while it was
active, each with whether a bubble had been detected. -/
structure Req where
  obj : ℕ
  requestId : ℕ := 0
  init : Bool := false
  numCfg : ℕ := 0
  fenceMapOut : List Fence := []
  numFenceMapIn : ℕ := 0
  numAcked : ℕ := 0
  bubbleDetected : Bool := false
  bubbleReport : Bool := false
  reapply : Bool := false
  accepted : Bool := false
  completed : Bool := false
  dones : List (ℕ × Bool) := []

/-- The lists of a context and what is kept beside them. A request that has been taken from a list
and put on no other one is `lost`. The context is `wild` once an entry of an empty list has been
used as a request; what happens from then on depends on the memory around it. -/
structure Queues where
  free : List Req
  pending : List Req := []
  wait : List Req := []
  active : List Req := []
  lost : List Req := []
  activeReqCnt : ℤ := 0
  processBubble : Bool := false
  wild : Bool := false

/-- `cam_sync_signal`, with whether it succeeds. It refuses `-1`, and an object that somebody else
has signalled. -/
def Fence.signal (f : Fence) (status : SyncStatus) : Fence × Bool :=
  if f.syncId = -1 ∨ f.elsewhere then (f, false)
  else ({ f with signals := f.signals ++ [status] }, true)

/-- The fences that have not been dealt with are signalled as failed. Some callers mark them as
dealt with. -/
def Fence.fail (reset : Bool) (f : Fence) : Fence :=
  if f.syncId = -1 then f
  else
    let f := (f.signal .error).1
    if reset then { f with syncId := -1 } else f

def Req.fail (reset : Bool) (req : Req) : Req :=
  { req with fenceMapOut := req.fenceMapOut.map (Fence.fail reset) }

/-- The fence of the `j`-th output is acknowledged; a signal that fails does not count. -/
def Req.ackFence (req : Req) (j : ℕ) (f : Fence) (status : SyncStatus) : Req :=
  let r := f.signal status
  if r.2 then
    { req with
      numAcked := req.numAcked + 1
      fenceMapOut := req.fenceMapOut.set j { r.1 with syncId := -1 } }
  else { req with fenceMapOut := req.fenceMapOut.set j r.1 }

/-- One handle of a buf done. The second component is whether it is left for the next request,
because it is not known or has been seen before. -/
def Req.ackHandle (req : Req) (handle : ℕ) : Req × Bool :=
  let req := { req with dones := req.dones ++ [(handle, req.bubbleDetected)] }
  match req.fenceMapOut.findIdx? (·.resource = handle) with
  | none => (req, true)
  | some j =>
    match req.fenceMapOut[j]? with
    | none => (req, true)
    | some f =>
      if f.syncId = -1 then (req, true)
      else if !req.bubbleDetected then (req.ackFence j f .success, false)
      else if !req.bubbleReport then (req.ackFence j f .error, false)
      else ({ req with numAcked := req.numAcked + 1 }, false)

def Req.ackHandles (req : Req) : List ℕ → Req × List ℕ
  | [] => (req, [])
  | handle :: handles =>
    let r := req.ackHandle handle
    let rest := r.1.ackHandles handles
    (rest.1, if r.2 then handle :: rest.2 else rest.2)

/-- Where a request goes that has been handed a buf done. -/
inductive Done
  | unfinished
  | flushed
  | retried
  | completed
  deriving DecidableEq

def Req.done (req : Req) (lastFlushReq : ℕ) : Done :=
  if req.numAcked ≠ req.fenceMapOut.length then .unfinished
  else if req.bubbleDetected && req.bubbleReport then
    if req.requestId ≤ lastFlushReq then .flushed else .retried
  else .completed

/-- `__cam_isp_ctx_handle_buf_done_for_request`, for the request between `before` and `after` on the
active list, once it has been handed the handles. -/
def Queues.bufDoneForRequest (q : Queues) (before after : List Req) (req : Req)
    (lastFlushReq : ℕ) : Queues :=
  let cleared := { req with numAcked := 0, bubbleDetected := false }
  match req.done lastFlushReq with
  | .unfinished => { q with active := before ++ req :: after }
  | .flushed =>
    { q with
      active := before ++ after
      activeReqCnt := q.activeReqCnt - 1
      processBubble := false
      free := q.free ++ [cleared.fail false] }
  | .retried =>
    { q with
      active := before ++ after
      activeReqCnt := q.activeReqCnt - 1
      processBubble := false
      pending := cleared :: q.pending }
  | .completed =>
    { q with
      active := before ++ after
      activeReqCnt := q.activeReqCnt - 1
      free := q.free ++ [{ req with reapply := false, completed := true }] }

/-- The first request that waits becomes active, or is done if it has no outputs. -/
def Queues.regUpd (q : Queues) : Queues :=
  match q.wait with
  | [] => q
  | req :: wait =>
    if req.fenceMapOut.length ≠ 0 then
      { q with wait, active := q.active ++ [req], activeReqCnt := q.activeReqCnt + 1 }
    else { q with wait, free := q.free ++ [req] }

def Queues.regUpdInSof (q : Queues) : Queues :=
  match q.wait with
  | [] => q
  | req :: wait =>
    if req.fenceMapOut.length = req.numAcked then { q with wait, free := q.free ++ [req] }
    else { q with wait, lost := q.lost ++ [req] }

def Req.bubble (req : Req) (linked : Bool) : Req :=
  { req with
    bubbleDetected := true
    reapply := true
    bubbleReport := req.bubbleReport && linked }

/-- It becomes active nevertheless. Not every state machine notes that a bubble is processed. -/
def Queues.reportBubble (q : Queues) (linked notes : Bool) : Queues :=
  match q.wait with
  | [] => q
  | req :: wait =>
    { q with
      wait
      active := q.active ++ [req.bubble linked]
      activeReqCnt := q.activeReqCnt + 1
      processBubble := q.processBubble || (notes && req.bubbleReport && linked) }

/-- The first active request is to be applied once more. -/
def Queues.reapply (q : Queues) : Queues :=
  match q.active with
  | [] => q
  | req :: active =>
    { q with
      active
      activeReqCnt := q.activeReqCnt - 1
      processBubble := false
      pending := { req with numAcked := 0, bubbleDetected := false } :: q.pending }

def Queues.failActive (q : Queues) : Queues :=
  { q with
    active := []
    activeReqCnt := q.activeReqCnt - q.active.length
    free := q.free ++ q.active.map (Req.fail false) }

def failed (l : List Req) : List Req := (l.takeWhile (!·.bubbleReport)).map (Req.fail true)

def kept (l : List Req) : List Req := l.dropWhile (!·.bubbleReport)

/-- The first loops of `__cam_isp_ctx_handle_error`. Once there is a request with bubble recovery,
it and all that follow it on either list are put back. The counter goes down for each request, also
for those that wait. -/
def Queues.errorInLists (q : Queues) : Queues :=
  if kept q.active ≠ [] then
    { q with
      free := q.free ++ failed q.active
      active := []
      wait := []
      activeReqCnt := q.activeReqCnt - q.active.length - q.wait.length
      pending := q.wait ++ (kept q.active ++ q.pending) }
  else
    { q with
      free := q.free ++ failed q.active ++ failed q.wait
      active := []
      wait := []
      activeReqCnt := q.activeReqCnt - q.active.length - q.wait.length
      pending := kept q.wait ++ q.pending }

def errorCount (lastAppliedReqId : ℕ) : List Req → ℕ
  | [] => 0
  | req :: pending =>
    if req.bubbleReport then 0
    else if req.requestId < lastAppliedReqId then errorCount lastAppliedReqId pending + 1
    else 1

def Queues.errorInPending (q : Queues) (lastAppliedReqId : ℕ) : Queues :=
  let n := errorCount lastAppliedReqId q.pending
  { q with
    free := q.free ++ (q.pending.take n).map (Req.fail true)
    pending := q.pending.drop n }

def Queues.handleError (q : Queues) (lastAppliedReqId : ℕ) : Queues :=
  q.errorInLists.errorInPending lastAppliedReqId

def Req.flush (req : Req) : Req := { req.fail true with reapply := false }

/-- `__cam_isp_ctx_flush_req`, of the request with the given id or of all: those that are flushed,
and those that stay. -/
def flushReq (cancel : Option ℕ) (l : List Req) : List Req × List Req :=
  match cancel with
  | none => (l.map Req.flush, [])
  | some id =>
    ((l.find? (·.requestId = id)).toList.map Req.flush, l.eraseP (·.requestId = id))

def Queues.flushPending (q : Queues) (cancel : Option ℕ) : Queues :=
  let r := flushReq cancel q.pending
  { q with pending := r.2, free := q.free ++ r.1 }

def Queues.flushWaitAndActive (q : Queues) : Queues :=
  { q with
    wait := []
    active := []
    free := q.free ++ q.wait.map Req.flush ++ q.active.map Req.flush
    activeReqCnt := 0 }

def Queues.stop (q : Queues) : Queues :=
  { q with
    pending := []
    wait := []
    active := []
    free := q.free ++ (q.pending ++ q.wait ++ q.active).map (Req.fail false)
    activeReqCnt := 0
    processBubble := false }

/-- A packet as the hardware manager has prepared it; `fences` are the outputs with their sync
objects. -/
structure Packet where
  requestId : ℕ
  init : Bool := false
  numCfg : ℕ := 1
  fences : List (ℕ × ℤ) := []
  numFenceMapIn : ℕ := 0

/-- The object is filled in. What it was used for before shows in the two flags that stay. -/
def Req.prepare (req : Req) (packet : Packet) : Req where
  obj := req.obj
  requestId := packet.requestId
  init := packet.init
  numCfg := packet.numCfg
  fenceMapOut := packet.fences.map fun f => { resource := f.1, syncId := f.2 }
  numFenceMapIn := packet.numFenceMapIn
  bubbleReport := req.bubbleReport
  reapply := req.reapply

def enqueueRequestInOrder (pending : List Req) (req : Req) : List Req :=
  pending.rdropWhile (req.requestId < ·.requestId) ++
    req :: pending.rtakeWhile (req.requestId < ·.requestId)

/-- The first packet makes a request of its own, and further ones are merged into that; then the
object is free again. -/
def enqueueInitRequest (pending : List Req) (req : Req) : Except ℤ (List Req × Bool) :=
  match pending with
  | [] => .ok ([req], false)
  | old :: pending =>
    if !old.init then .error eInval
    else if old.fenceMapOut.length ≠ 0 ∨ old.numFenceMapIn ≠ 0 then .error eInval
    else if cfgMax ≤ old.numCfg + req.numCfg then .error eNomem
    else
      .ok ({ old with
        requestId := req.requestId
        numCfg := old.numCfg + req.numCfg
        fenceMapOut := req.fenceMapOut
        numFenceMapIn := req.numFenceMapIn } :: pending, true)

end KernelModules.Isp
