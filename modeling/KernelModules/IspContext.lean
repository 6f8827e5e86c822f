import KernelModules.IspRequests
import Mathlib.Tactic

/-!
# The ISP context

The state machines of a context: one for what the user and the request manager may ask of it, and
inside it, while the context is activated, one of three for the events of the hardware. What is only
told to others is left out.

A handler that takes an entry from a list without looking whether there is one says so in its second
component; `none` is what it gets from an empty list.
-/

namespace KernelModules.Isp

inductive CtxState
  | available
  | acquired
  | ready
  | flushed
  | activated
  deriving DecidableEq

/-- The order of `enum cam_context_state`. -/
def CtxState.rank : CtxState → ℕ
  | .available => 1
  | .acquired => 2
  | .ready => 3
  | .flushed => 4
  | .activated => 5

inductive Substate
  | sof
  | applied
  | epoch
  | bubble
  | bubbleApplied
  | hwError
  | halt
  deriving DecidableEq

/-- Which of the three state machines the resources of the context call for. -/
inductive Kind
  | pix
  | fs2
  | rdi
  deriving DecidableEq

/-- `linked` is whether the callbacks of the request manager are there. -/
structure Ctx where
  q : Queues
  state : CtxState := .available
  substate : Substate := .sof
  kind : Kind := .pix
  rdiOnlyContext : Bool := false
  hwAcquired : Bool := false
  initReceived : Bool := false
  linked : Bool := false
  bubbleFrameCnt : ℕ := 0
  frameId : ℕ := 0
  reportedReqId : ℕ := 0
  lastAppliedReqId : ℕ := 0
  lastFlushReq : ℕ := 0

abbrev Reads := List (Option ℕ)

/-- `list_first_entry` and `list_last_entry`. -/
def firstEntry (l : List Req) : Option ℕ := l.head?.map (·.obj)

def lastEntry (l : List Req) : Option ℕ := l.getLast?.map (·.obj)

/-- `__cam_isp_ctx_handle_buf_done_in_activated_state`. What the first request leaves goes to the
last one on the list, if that is another one. -/
def bufDoneInActivatedState (c : Ctx) (handles : List ℕ) : Ctx × Reads :=
  match c.q.active with
  | [] => (c, [])
  | req :: active =>
    let first := req.ackHandles handles
    let q := c.q.bufDoneForRequest [] active first.1 c.lastFlushReq
    let c := { c with
      q
      bubbleFrameCnt :=
        if first.1.done c.lastFlushReq = .retried then 0 else c.bubbleFrameCnt
      reportedReqId :=
        if first.1.done c.lastFlushReq = .completed then max c.reportedReqId req.requestId
        else c.reportedReqId }
    if first.2 = [] then (c, [])
    else
      match q.active.getLast? with
      | none => ({ c with q := { q with wild := true } }, [none])
      | some next =>
        if next.requestId = req.requestId then (c, [some next.obj])
        else
          let last := next.ackHandles first.2
          ({ c with
            q := q.bufDoneForRequest q.active.dropLast [] last.1 c.lastFlushReq
            bubbleFrameCnt :=
              if last.1.done c.lastFlushReq = .retried then 0 else c.bubbleFrameCnt
            reportedReqId :=
              if last.1.done c.lastFlushReq = .completed then max c.reportedReqId next.requestId
              else c.reportedReqId }, [some next.obj])

def unreported (c : Ctx) : Option Req := c.q.active.find? (c.reportedReqId < ·.requestId)

/-- The request manager is told about the frame, and the user about the first active request that
has not been reported and is in no bubble. -/
def reportSof (c : Ctx) : Ctx :=
  if c.linked ∧ c.q.activeReqCnt ≤ 2 then
    match c.q.active.find? fun req =>
        !req.bubbleDetected && decide (c.reportedReqId < req.requestId) with
    | some req => { c with reportedReqId := req.requestId }
    | none => c
  else c

def notifySofInActivatedState (c : Ctx) : Ctx × Reads :=
  if c.q.processBubble then
    match c.q.active with
    | [] => ({ c with q := { c.q with processBubble := false } }, [])
    | req :: _ =>
      if 1 ≤ c.bubbleFrameCnt ∧ req.bubbleDetected then
        (reportSof { c with q := c.q.reapply, bubbleFrameCnt := 0 }, [])
      else if req.bubbleDetected then
        (reportSof { c with bubbleFrameCnt := c.bubbleFrameCnt + 1 }, [])
      else (reportSof c, [])
  else (reportSof c, [])

def notifyEofInActivatedState (c : Ctx) : Ctx × Reads := (c, [])

def regUpdInEpochBubbleState (c : Ctx) : Ctx × Reads := (c, [])

def regUpdInHwError (c : Ctx) : Ctx × Reads := ({ c with substate := .sof }, [])

def regUpdInAppliedState (c : Ctx) : Ctx × Reads :=
  match c.q.wait with
  | [] => (c, [])
  | _ :: _ => ({ c with q := c.q.regUpd, substate := .epoch }, [])

/-- The id that is looked for is that of an active request or, failing that, of the first one that
waits, of which it is not known whether it is there. -/
def sofInActivatedState (c : Ctx) : Ctx × Reads :=
  ({ c with frameId := c.frameId + 1 },
    if (unreported c).isSome then [] else [firstEntry c.q.wait])

def regUpdInSof (c : Ctx) : Ctx × Reads :=
  if c.state ≠ .activated ∧ 1 < c.frameId then (c, [])
  else ({ c with q := c.q.regUpdInSof }, [])

def epochInApplied (c : Ctx) : Ctx × Reads :=
  match c.q.wait with
  | [] => ({ c with substate := .sof }, [lastEntry c.q.active])
  | req :: _ =>
    let c := { c with q := c.q.reportBubble c.linked true, substate := .bubble }
    if c.reportedReqId < req.requestId ∧ (req.bubbleReport && c.linked) = false then
      ({ c with reportedReqId := req.requestId }, [])
    else (c, [lastEntry c.q.active])

def sofInEpoch (c : Ctx) : Ctx × Reads :=
  ({ c with
    frameId := c.frameId + 1
    substate := if c.q.active = [] then .sof else c.substate }, [lastEntry c.q.active])

def epochInBubbleApplied (c : Ctx) : Ctx × Reads :=
  match c.q.wait with
  | [] => ({ c with substate := .bubble }, [lastEntry c.q.active])
  | req :: _ =>
    let c := { c with q := c.q.reportBubble c.linked true, substate := .bubble }
    ({ c with
      reportedReqId :=
        if (req.bubbleReport && c.linked) = false then max c.reportedReqId req.requestId
        else c.reportedReqId }, [lastEntry c.q.active])

def handleError (c : Ctx) : Ctx × Reads :=
  ({ c with
    q := c.q.handleError c.lastAppliedReqId
    substate := if c.linked then .hwError else c.substate }, [])

def fs2SofInSofState (c : Ctx) : Ctx × Reads :=
  let c := { c with frameId := c.frameId + 1 }
  if c.q.wait = [] ∧ c.linked ∧ c.q.activeReqCnt ≤ 2 then
    match unreported c with
    | some req => ({ c with reportedReqId := req.requestId }, [])
    | none => (c, [])
  else (c, [])

/-- A request id is kept in an `int` for a while. -/
def toInt (n : ℕ) : ℤ := if n % 2 ^ 32 < 2 ^ 31 then (n % 2 ^ 32 : ℕ) else (n % 2 ^ 32 : ℕ) - 2 ^ 32

def fs2BufDone (c : Ctx) (handles : List ℕ) : Ctx × Reads :=
  let r := bufDoneInActivatedState c handles
  let currReqId := toInt ((c.q.active.head?.map (·.requestId)).getD 0)
  let c' :=
    if c.q.activeReqCnt = r.1.q.activeReqCnt + 1 ∧ r.1.q.wait = [] ∧ r.1.q.active = [] then
      { r.1 with
        substate := .sof
        reportedReqId := max r.1.reportedReqId currReqId.toNat }
    else r.1
  (c', firstEntry c.q.active :: r.2)

def fs2RegUpdInSof (c : Ctx) : Ctx × Reads := regUpdInSof c

/-- The search for a request that has not been reported leaves its cursor at the list head when
there is none. -/
def fs2RegUpdInAppliedState (c : Ctx) : Ctx × Reads :=
  match c.q.wait with
  | [] => (c, [])
  | req :: _ =>
    let c := { c with q := c.q.regUpd, substate := .epoch }
    if req.fenceMapOut.length = 1 ∧ c.linked ∧ c.q.activeReqCnt ≤ 2 then
      match unreported c with
      | some req => ({ c with reportedReqId := req.requestId }, [some req.obj])
      | none => (c, [none])
    else (c, [])

def rdiOnlySofInTopState (c : Ctx) : Ctx × Reads :=
  ({ c with
    frameId := c.frameId + 1
    substate := if c.q.active = [] then .sof else c.substate }, [])

def rdiOnlySofInAppliedState (c : Ctx) : Ctx × Reads :=
  ({ c with frameId := c.frameId + 1, substate := .bubbleApplied }, [])

def rdiOnlySofInBubbleApplied (c : Ctx) : Ctx × Reads :=
  let c := { c with frameId := c.frameId + 1 }
  match c.q.wait with
  | [] => ({ c with substate := .sof }, [])
  | req :: _ =>
    ({ c with
      q := c.q.reportBubble c.linked false
      substate := .bubble
      reportedReqId :=
        if (req.bubbleReport && c.linked) = false then max c.reportedReqId req.requestId
        else c.reportedReqId }, [])

def rdiOnlySofInBubbleState (c : Ctx) : Ctx × Reads :=
  ({ c with frameId := c.frameId + 1, q := c.q.failActive, substate := .sof }, [])

/-- Without callbacks the request that is recorded in the end has never been looked up. -/
def rdiOnlyRegUpdInBubbleAppliedState (c : Ctx) : Ctx × Reads :=
  if !c.linked then ({ c with substate := .epoch }, [none])
  else
    match c.q.wait with
    | [] => ({ c with substate := .sof }, [])
    | req :: _ =>
      let requestId := if req.fenceMapOut.length = 0 ∧ req.init then 0 else req.requestId
      ({ c with
        q := c.q.regUpd
        substate := .epoch
        reportedReqId := if requestId ≠ 0 then requestId else c.reportedReqId }, [])

inductive Event
  | error
  | sof
  | regUpdate
  | epoch
  | eof
  | done (handles : List ℕ)
  deriving DecidableEq

/-- `cam_isp_ctx_activated_state_machine_irq`. -/
def pixIrqOps : Substate → Event → Option (Ctx → Ctx × Reads)
  | .sof, .error => handleError
  | .sof, .sof => sofInActivatedState
  | .sof, .regUpdate => regUpdInSof
  | .sof, .epoch => notifySofInActivatedState
  | .sof, .eof => notifyEofInActivatedState
  | .applied, .error => handleError
  | .applied, .sof => sofInActivatedState
  | .applied, .regUpdate => regUpdInAppliedState
  | .applied, .epoch => epochInApplied
  | .applied, .eof => notifyEofInActivatedState
  | .applied, .done handles => some (bufDoneInActivatedState · handles)
  | .epoch, .error => handleError
  | .epoch, .sof => sofInEpoch
  | .epoch, .regUpdate => regUpdInEpochBubbleState
  | .epoch, .epoch => notifySofInActivatedState
  | .epoch, .eof => notifyEofInActivatedState
  | .epoch, .done handles => some (bufDoneInActivatedState · handles)
  | .bubble, .error => handleError
  | .bubble, .sof => sofInActivatedState
  | .bubble, .regUpdate => regUpdInEpochBubbleState
  | .bubble, .epoch => notifySofInActivatedState
  | .bubble, .eof => notifyEofInActivatedState
  | .bubble, .done handles => some (bufDoneInActivatedState · handles)
  | .bubbleApplied, .error => handleError
  | .bubbleApplied, .sof => sofInActivatedState
  | .bubbleApplied, .regUpdate => regUpdInAppliedState
  | .bubbleApplied, .epoch => epochInBubbleApplied
  | .bubbleApplied, .done handles => some (bufDoneInActivatedState · handles)
  | .hwError, .sof => sofInActivatedState
  | .hwError, .regUpdate => regUpdInHwError
  | _, _ => none

/-- `cam_isp_ctx_fs2_state_machine_irq`. -/
def fs2IrqOps : Substate → Event → Option (Ctx → Ctx × Reads)
  | .sof, .error => handleError
  | .sof, .sof => fs2SofInSofState
  | .sof, .regUpdate => fs2RegUpdInSof
  | .sof, .epoch => fs2SofInSofState
  | .sof, .eof => notifyEofInActivatedState
  | .applied, .error => handleError
  | .applied, .sof => sofInActivatedState
  | .applied, .regUpdate => fs2RegUpdInAppliedState
  | .applied, .epoch => epochInApplied
  | .applied, .eof => notifyEofInActivatedState
  | .applied, .done handles => some (fs2BufDone · handles)
  | .epoch, .error => handleError
  | .epoch, .sof => sofInEpoch
  | .epoch, .regUpdate => regUpdInEpochBubbleState
  | .epoch, .epoch => notifySofInActivatedState
  | .epoch, .eof => notifyEofInActivatedState
  | .epoch, .done handles => some (fs2BufDone · handles)
  | .bubble, .error => handleError
  | .bubble, .sof => sofInActivatedState
  | .bubble, .regUpdate => regUpdInEpochBubbleState
  | .bubble, .epoch => notifySofInActivatedState
  | .bubble, .eof => notifyEofInActivatedState
  | .bubble, .done handles => some (bufDoneInActivatedState · handles)
  | .bubbleApplied, .error => handleError
  | .bubbleApplied, .sof => sofInActivatedState
  | .bubbleApplied, .regUpdate => regUpdInAppliedState
  | .bubbleApplied, .epoch => epochInBubbleApplied
  | .bubbleApplied, .done handles => some (bufDoneInActivatedState · handles)
  | .hwError, .sof => sofInActivatedState
  | .hwError, .regUpdate => regUpdInHwError
  | _, _ => none

/-- `cam_isp_ctx_rdi_only_activated_state_machine_irq`. -/
def rdiIrqOps : Substate → Event → Option (Ctx → Ctx × Reads)
  | .sof, .sof => rdiOnlySofInTopState
  | .sof, .regUpdate => regUpdInSof
  | .applied, .error => handleError
  | .applied, .sof => rdiOnlySofInAppliedState
  | .applied, .done handles => some (bufDoneInActivatedState · handles)
  | .epoch, .error => handleError
  | .epoch, .sof => rdiOnlySofInTopState
  | .epoch, .done handles => some (bufDoneInActivatedState · handles)
  | .bubble, .error => handleError
  | .bubble, .sof => rdiOnlySofInBubbleState
  | .bubble, .done handles => some (bufDoneInActivatedState · handles)
  | .bubbleApplied, .error => handleError
  | .bubbleApplied, .sof => rdiOnlySofInBubbleApplied
  | .bubbleApplied, .regUpdate => rdiOnlyRegUpdInBubbleAppliedState
  | .bubbleApplied, .done handles => some (bufDoneInActivatedState · handles)
  | _, _ => none

def irqOps : Kind → Substate → Event → Option (Ctx → Ctx × Reads)
  | .pix => pixIrqOps
  | .fs2 => fs2IrqOps
  | .rdi => rdiIrqOps

/-- `cam_context_handle_hw_event` and `__cam_isp_ctx_handle_irq_in_activated`. -/
def handleHwEvent (c : Ctx) (e : Event) : Ctx × Reads :=
  if c.state = .activated then
    match irqOps c.kind c.substate e with
    | some handler => handler c
    | none => (c, [])
  else (c, [])

def applyOps : Kind → Substate → Option Substate
  | _, .sof => some .applied
  | _, .epoch => some .applied
  | .rdi, _ => none
  | _, .bubble => some .bubbleApplied
  | _, _ => none

structure Apply where
  requestId : ℕ
  reportIfBubble : Bool := true

/-- `hwRc` is what the hardware manager answers. The last component is the id of the request that
is handed to it. -/
def applyReqInActivatedState (c : Ctx) (apply : Apply) (nextState : Substate) (hwRc : ℤ) :
    Ctx × ℤ × Option ℕ :=
  match c.q.pending with
  | [] => (c, eFault, none)
  | req :: pending =>
    if c.q.processBubble then (c, eAgain, none)
    else if req.requestId ≠ apply.requestId then (c, eFault, none)
    else if 2 ≤ c.q.activeReqCnt then (c, eFault, none)
    else
      let req := { req with bubbleReport := apply.reportIfBubble }
      if hwRc ≠ 0 then ({ c with q := { c.q with pending := req :: pending } }, hwRc,
        some req.requestId)
      else
        ({ c with
          q := { c.q with pending, wait := c.q.wait ++ [req] }
          substate := nextState
          lastAppliedReqId := apply.requestId }, 0, some req.requestId)

def applyReq (c : Ctx) (apply : Apply) (hwRc : ℤ) : Ctx × ℤ × Option ℕ :=
  if c.state ≠ .activated then (c, eProto, none)
  else
    match applyOps c.kind c.substate with
    | none => (c, eFault, none)
    | some nextState => applyReqInActivatedState c apply nextState hwRc

/-- How the layers below answer while a packet is configured: whether the packet can be read and
prepared, which sync objects a reference can be taken of, what the request manager says. -/
structure ConfigEnv where
  packetRc : ℤ := 0
  prepareRc : ℤ := 0
  objRef : ℤ → Bool := fun _ => true
  addReqRc : ℤ := 0
  resumeRc : ℤ := 0
  startRc : ℤ := 0

def configDevInTopState (c : Ctx) (packet : Packet) (env : ConfigEnv) : Ctx × ℤ :=
  match c.q.free with
  | [] => (c, eNomem)
  | old :: free =>
    let freeReq (c : Ctx) (req : Req) : Ctx := { c with q := { c.q with free := free ++ [req] } }
    if env.packetRc ≠ 0 then (freeReq c old, env.packetRc)
    else if !packet.init ∧ packet.requestId ≤ c.lastFlushReq then (freeReq c old, eBadr)
    else if env.prepareRc ≠ 0 then (freeReq c old, eFault)
    else
      let req := old.prepare packet
      let accepted := { req with accepted := true }
      if ∃ f ∈ packet.fences, f.2 ≤ 0 ∨ env.objRef f.2 = false then (freeReq c req, eInval)
      else if packet.init then
        if c.state.rank < CtxState.activated.rank then
          let c := { c with initReceived := true }
          match enqueueInitRequest c.q.pending accepted with
          | .error rc => (freeReq c req, rc)
          | .ok (pending, merged) =>
            ({ c with q := { c.q with
              pending
              free := if merged then free ++ [req] else free } }, 0)
        else (freeReq c req, eInval)
      else if c.state ≠ .flushed ∧ CtxState.ready.rank ≤ c.state.rank then
        if env.addReqRc ≠ 0 then (freeReq c req, env.addReqRc)
        else
          ({ c with q := { c.q with
            pending := enqueueRequestInOrder c.q.pending accepted
            free } }, 0)
      else (freeReq c req, eInval)

/-- The first pending request is handed to the hardware. It is moved before that, and when the
hardware fails it goes back to where it was. -/
def startDevInReady (c : Ctx) (hwRc : ℤ) : Ctx × ℤ × Option ℕ :=
  match c.q.pending with
  | [] => (c, eFault, none)
  | req :: pending =>
    if !c.hwAcquired then (c, eFault, none)
    else
      let waits := c.rdiOnlyContext ∨ req.fenceMapOut.length = 0
      let q := { c.q with
        processBubble := false
        activeReqCnt := if waits then 0 else 1 }
      let c := { c with
        lastAppliedReqId := req.requestId
        frameId := 0
        reportedReqId := 0
        bubbleFrameCnt := 0
        substate :=
          if c.rdiOnlyContext then .applied
          else if req.fenceMapOut.length ≠ 0 then .epoch
          else .sof }
      if hwRc ≠ 0 then ({ c with q, state := .ready }, hwRc, some req.requestId)
      else
        ({ c with
          state := .activated
          q := { q with
            pending
            wait := if waits then q.wait ++ [req] else q.wait
            active := if waits then q.active else q.active ++ [req] } }, 0, some req.requestId)

/-- `config_dev` of the state the context is in. -/
def configDev (c : Ctx) (packet : Packet) (env : ConfigEnv) : Ctx × ℤ × Option ℕ :=
  match c.state with
  | .available => (c, eProto, none)
  | .acquired =>
    if !c.hwAcquired then (c, eInval, none)
    else
      let r := configDevInTopState c packet env
      if r.2 = 0 ∧ r.1.linked then ({ r.1 with state := .ready }, 0, none) else (r.1, r.2, none)
  | .flushed =>
    if !c.hwAcquired then (c, eInval, none)
    else
      let r := configDevInTopState c packet env
      if r.2 ≠ 0 ∨ !r.1.initReceived then (r.1, r.2, none)
      else if env.resumeRc ≠ 0 then (r.1, env.resumeRc, none)
      else startDevInReady r.1 env.startRc
  | .ready | .activated =>
    let r := configDevInTopState c packet env
    (r.1, r.2, none)

def startDev (c : Ctx) (hwRc : ℤ) : Ctx × ℤ × Option ℕ :=
  if c.state = .ready then startDevInReady c hwRc else (c, 0, none)

def unlinkInReady (c : Ctx) : Ctx := { c with linked := false, state := .acquired }

/-- `__cam_isp_ctx_stop_dev_in_activated_unlock`; without a command it also unlinks. -/
def stopDevInActivatedUnlock (c : Ctx) (cmd : Bool) : Ctx :=
  let c := { c with
    q := c.q.stop
    substate := .halt
    frameId := 0
    reportedReqId := 0
    bubbleFrameCnt := 0
    lastAppliedReqId := 0 }
  if cmd then c else unlinkInReady c

def stopDev (c : Ctx) : Ctx :=
  let c :=
    if c.state = .flushed ∨ c.state = .activated then
      { stopDevInActivatedUnlock c true with initReceived := false, state := .acquired }
    else c
  { c with lastFlushReq := 0 }

def releaseHwInTopState (c : Ctx) : Ctx :=
  { c with
    hwAcquired := false
    lastFlushReq := 0
    frameId := 0
    reportedReqId := 0
    initReceived := false
    q := { c.q with activeReqCnt := 0 }.flushPending none
    state := .acquired }

def releaseDevInTopState (c : Ctx) : Ctx :=
  let c := if c.hwAcquired then releaseHwInTopState c else c
  { c with
    hwAcquired := false
    linked := false
    lastFlushReq := 0
    frameId := 0
    reportedReqId := 0
    initReceived := false
    rdiOnlyContext := false
    q := { c.q with activeReqCnt := 0 }.flushPending none
    state := .available }

def releaseHw (c : Ctx) : Ctx :=
  match c.state with
  | .available => c
  | .acquired | .ready => releaseHwInTopState c
  | .flushed | .activated => releaseHwInTopState (stopDevInActivatedUnlock c false)

def releaseDev (c : Ctx) : Ctx :=
  match c.state with
  | .available => c
  | .acquired | .ready => releaseDevInTopState c
  | .flushed | .activated => releaseDevInTopState (stopDevInActivatedUnlock c false)

/-- `cancel` is the id of the request to cancel; without one, everything up to `reqId` is
flushed. -/
structure FlushRequest where
  cancel : Option ℕ
  reqId : ℕ := 0

/-- The last flush is kept in 32 bits. -/
def flushReqInTopState (c : Ctx) (flush : FlushRequest) : Ctx × ℤ :=
  let rc := if c.q.pending = [] ∧ flush.cancel ≠ none then eInval else 0
  let c := { c with q := c.q.flushPending flush.cancel }
  let r : Ctx × ℤ :=
    match flush.cancel with
    | some _ => (c, rc)
    | none =>
      if c.state.rank ≤ CtxState.ready.rank then ({ c with state := .acquired }, rc)
      else
        ({ c with
          state := .flushed
          substate := .halt
          lastFlushReq := flush.reqId % 2 ^ 32
          q := c.q.flushWaitAndActive
          initReceived := false }, 0)
  ({ r.1 with bubbleFrameCnt := 0, q := { r.1.q with processBubble := false } }, r.2)

def flushReqInReady (c : Ctx) (flush : FlushRequest) : Ctx × ℤ :=
  let rc := if c.q.pending = [] ∧ flush.cancel ≠ none then eInval else 0
  let c := { c with q := c.q.flushPending flush.cancel }
  ({ c with state := if c.q.pending = [] then .acquired else c.state }, rc)

def crmFlushReq (c : Ctx) (flush : FlushRequest) : Ctx × ℤ :=
  match c.state with
  | .acquired | .activated => flushReqInTopState c flush
  | .ready => flushReqInReady c flush
  | .available | .flushed => (c, eProto)

def crmLink (c : Ctx) : Ctx × ℤ :=
  if c.state = .acquired then
    ({ c with linked := true, state := if c.initReceived then .ready else c.state }, 0)
  else (c, eProto)

def crmUnlink (c : Ctx) : Ctx × ℤ :=
  match c.state with
  | .available => (c, eProto)
  | .acquired => ({ c with linked := false }, 0)
  | .ready | .flushed => (unlinkInReady c, 0)
  | .activated => (unlinkInReady (stopDevInActivatedUnlock c false), 0)

def setKind (c : Ctx) (kind : Kind) : Ctx :=
  { c with
    hwAcquired := true
    kind
    rdiOnlyContext := kind = .rdi || c.rdiOnlyContext }

def allReqs (q : Queues) : List Req := q.free ++ q.pending ++ q.wait ++ q.active ++ q.lost

def initReqList (q : Queues) : List Req :=
  (List.range reqMax).map fun i => ((allReqs q).find? (·.obj = i)).getD { obj := i }

/-- A context that is available is acquired, at once with its hardware or without; it is handed
out with all its lists set up anew. -/
def acquireDev (c : Ctx) (kind : Option Kind) : Ctx × ℤ :=
  if c.state = .available then
    let c := match kind with
      | none => c
      | some kind => setKind c kind
    ({ c with
      state := .acquired
      q := { c.q with
        free := initReqList c.q, pending := [], wait := [], active := [], lost := [] } }, 0)
  else (c, eProto)

/-- Without a kind, the hardware was acquired but its kind could not be queried, and it is
released. -/
def acquireHw (c : Ctx) (kind : Option Kind) : Ctx × ℤ :=
  if c.state = .acquired then
    match kind with
    | some kind => (setKind c kind, 0)
    | none => ({ c with hwAcquired := false }, eFault)
  else (c, eProto)

def Req.mark (syncId : ℤ) (req : Req) : Req :=
  { req with
    fenceMapOut := req.fenceMapOut.map fun f =>
      if f.syncId = syncId ∧ f.signals = [] then { f with elsewhere := true } else f }

def signalElsewhere (q : Queues) (syncId : ℤ) : Queues :=
  { q with
    free := q.free.map (Req.mark syncId)
    pending := q.pending.map (Req.mark syncId)
    wait := q.wait.map (Req.mark syncId)
    active := q.active.map (Req.mark syncId)
    lost := q.lost.map (Req.mark syncId) }

inductive Input
  | acquireDev (kind : Option Kind)
  | acquireHw (kind : Option Kind)
  | releaseHw
  | releaseDev
  | link
  | unlink
  | config (packet : Packet) (env : ConfigEnv)
  | start (hwRc : ℤ)
  | stop
  | flush (flush : FlushRequest)
  | apply (apply : Apply) (hwRc : ℤ)
  | event (e : Event)
  | signal (syncId : ℤ)

/-- A return code, an entry taken from a list, or the id of a request handed to the hardware. -/
inductive Output
  | ret (rc : ℤ)
  | entry (obj : Option ℕ)
  | hwConfig (requestId : ℕ)

def initial : Ctx where
  q := { free := (List.range reqMax).map fun i => { obj := i } }

def handedOut (r : Ctx × ℤ × Option ℕ) : Ctx × List Output :=
  (r.1, r.2.2.toList.map .hwConfig ++ [.ret r.2.1])

def machine : Machine Ctx Input Output where
  step c
    | .acquireDev kind => ((acquireDev c kind).1, [.ret (acquireDev c kind).2])
    | .acquireHw kind => ((acquireHw c kind).1, [.ret (acquireHw c kind).2])
    | .releaseHw => (releaseHw c, [])
    | .releaseDev => (releaseDev c, [])
    | .link => ((crmLink c).1, [.ret (crmLink c).2])
    | .unlink => ((crmUnlink c).1, [.ret (crmUnlink c).2])
    | .config packet env => handedOut (configDev c packet env)
    | .start hwRc => handedOut (startDev c hwRc)
    | .stop => (stopDev c, [])
    | .flush flush => ((crmFlushReq c flush).1, [.ret (crmFlushReq c flush).2])
    | .apply apply hwRc => handedOut (applyReq c apply hwRc)
    | .event e => ((handleHwEvent c e).1, (handleHwEvent c e).2.map .entry)
    | .signal syncId => ({ c with q := signalElsewhere c.q syncId }, [])

end KernelModules.Isp
