import KernelModules.CrmSync

/-!
# The tasks of a link

User space schedules requests; devices add them, report frames and errors. Each of these is one
task on the link's work queue, and the tasks of a link run one after another. The work queue drops
the return codes of its tasks, so only the one of the scheduling call is kept. Watchdog, log and
trace calls are left out.
-/

namespace KernelModules.Crm

/-- What a task meets outside its link: the sync link as it stands, and what the `apply_req` of
each device returns. -/
structure Env where
  syncLink : Option Link := none
  applyRc : ℤ → ℤ := fun _ => 0

def wrap32 (n : ℤ) : ℤ := Int.bmod n (2 ^ 32)

def Link.tblSlot (link : Link) (dev : Device) : TblSlot :=
  (link.tbl dev.pDelay).slot (link.applyData dev.pDelay).idx

def Link.setTblSlot (link : Link) (dev : Device) (slot : TblSlot) : Link :=
  { link with
    tbl := Function.update link.tbl dev.pDelay
      ((link.tbl dev.pDelay).setSlot (link.applyData dev.pDelay).idx slot) }

def skipsNextFrame (link : Link) (trigger : ℕ) (dev : Device) : Bool :=
  (link.tblSlot dev).skipNextFrame ∧ (link.tblSlot dev).devHdl = dev.devHdl ∧
    dev.trigger &&& trigger ≠ 0

def Link.applyEvent (link : Link) (dev : Device) (recover : ℤ) (trigger : ℕ) : Event :=
  .applyReq dev.devHdl (link.applyData dev.pDelay).reqId recover trigger

def skipsDevice (link : Link) (trigger : ℕ) (dev : Device) : Prop :=
  (link.applyData dev.pDelay).skipIdx ≠ 0 ∨ (link.applyData dev.pDelay).reqId < 0 ∨
    dev.trigger &&& trigger = 0
deriving Decidable

/-- The loop over the devices. `done` are the devices passed, the latest first; when a device
fails, it and they are told. -/
def sendLoop (applyRc : ℤ → ℤ) (trigger : ℕ) (done : List Device) (rc : ℤ) :
    List Device → Link → ℤ × Link × List Event × Option Device
  | [], link => (rc, link, [], none)
  | dev :: devs, link =>
    if skipsDevice link trigger dev then sendLoop applyRc trigger (dev :: done) rc devs link
    else
      let slot := link.tblSlot dev
      if slot.devHdl = dev.devHdl ∧ slot.isApplied = true then
        sendLoop applyRc trigger (dev :: done) rc devs
          (link.setTblSlot dev { slot with isApplied := false })
      else
        let recover := (link.inQ.slot (link.applyData dev.pDelay).idx).recover
        let call := link.applyEvent dev recover trigger
        let rc := applyRc dev.devHdl
        if rc < 0 then
          (rc, link,
            call :: (dev :: done).map (.linkErr ·.devHdl (link.applyData dev.pDelay).reqId),
            some dev)
        else
          let r := sendLoop applyRc trigger (dev :: done) rc devs link
          (r.1, r.2.1, call :: r.2.2.1, r.2.2.2)

def sendReq (link : Link) (applyRc : ℤ → ℤ) (trigger : ℕ) :
    ℤ × Link × List Event × Option Device :=
  match link.lDev.find? (skipsNextFrame link trigger) with
  | some dev =>
    let call := link.applyEvent dev 0 trigger
    if applyRc dev.devHdl ≠ 0 then (applyRc dev.devHdl, link, [call], some dev)
    else
      (eAgain,
        link.setTblSlot dev { link.tblSlot dev with skipNextFrame := false, isApplied := true },
        [call], none)
  | none => sendLoop applyRc trigger [] 0 link.lDev link

def leaveMsyncMode (link : Link) : Link :=
  if link.inMsyncMode then { link with inMsyncMode := false, initialSyncReq := -1 } else link

def checkNoSync (link : Link) : ℤ × Link :=
  let r := injectDelay (leaveMsyncMode link) link.inQ.rdIdx
  if r.1 ≠ 0 then r else checkLinkIsReady r.2 link.inQ.rdIdx false

def checkReq (link : Link) (syncLink : Option Link) : ℤ × Link × List Event :=
  match syncLink with
  | none => ((checkNoSync link).1, (checkNoSync link).2, [])
  | some syncLink =>
    if (link.inQ.slot link.inQ.rdIdx).syncMode ≠ syncModeSync then
      ((checkNoSync link).1, (checkNoSync link).2,
        if link.inMsyncMode then [.peer .leaveMsync] else [])
    else if link.isMaster ∨ syncLink.isMaster then
      checkSyncForMslave { link with inMsyncMode := true } syncLink link.inQ.rdIdx
    else checkSyncReqIsReady link syncLink link.inQ.rdIdx

/-- A device that let a flash through has not failed: then `dev` is not set, and there is no
delay to report the request of. -/
def notifyErrorOnLink (link : Link) (dev : Option Device) : List Event :=
  match dev with
  | none => []
  | some dev => [.errorMsg (link.applyData dev.pDelay).reqId]

def resetStep (link : Link) (syncLink : Option Link) : ℕ :=
  match syncLink with
  | none => link.maxDelay.val
  | some syncLink =>
    if link.inMsyncMode ∧ syncLink.isMaster then syncLink.maxDelay.val else link.maxDelay.val

/-- All triggers the link subscribed to have come. -/
def finishReq (link : Link) (syncLink : Option Link) : Link :=
  let idx := link.inQ.rdIdx
  let lastAppliedIdx :=
    if 0 < (link.inQ.slot idx).reqId then some idx else link.inQ.lastAppliedIdx
  let applied :=
    { link with
      triggerMask := 0
      inQ := { setStatus link.inQ idx .reqApplied with lastAppliedIdx := lastAppliedIdx } }
  let reset := resetReqSlot applied (decIdx idx (resetStep link syncLink + 1))
  { reset with openReqCnt := wrap32 (reset.openReqCnt - 1) }

/-- `MAXIMUM_RETRY_ATTEMPTS` is two. -/
def retryReq (link : Link) (dev : Option Device) : Link × List Event :=
  let link :=
    { link with
      inQ := setStatus link.inQ link.inQ.rdIdx .reqPending
      retryCnt := link.retryCnt + 1 }
  if link.retryCnt = 2 then ({ link with retryCnt := 0 }, notifyErrorOnLink link dev)
  else (link, [])

def applyReq (link : Link) (env : Env) (trigger : ℕ) : Link × List Event :=
  let r := sendReq link env.applyRc trigger
  if r.1 < 0 then
    let t := retryReq r.2.1 r.2.2.2
    (t.1, r.2.2.1 ++ t.2)
  else
    let link : Link :=
      { r.2.1 with
        retryCnt := 0
        triggerMask := r.2.1.triggerMask ||| trigger
        state := if r.2.1.state = .err then .ready else r.2.1.state
        syncLinkSofSkip := false }
    (if link.triggerMask = link.subscribeEvent then finishReq link env.syncLink else link, r.2.2.1)

def processReq (link : Link) (env : Env) (trigger sofTimestamp : ℕ) : Link × List Event :=
  if (link.inQ.slot link.inQ.rdIdx).status = .noReq then (link, [])
  else if trigger ≠ sof ∧ trigger ≠ eof then (link, [])
  else if trigger = eof then
    if link.triggerMask &&& sof = 0 then (link, []) else applyReq link env trigger
  else
    let link :=
      { link with prevSofTimestamp := link.sofTimestamp, sofTimestamp := sofTimestamp }
    if link.triggerMask ≠ 0 then (link, [])
    else
      let c := checkReq link env.syncLink
      if c.1 < 0 then
        ({ c.2.1 with inQ := setStatus c.2.1.inQ c.2.1.inQ.rdIdx .reqPending }, c.2.2)
      else
        let a := applyReq c.2.1 env trigger
        (a.1, c.2.2 ++ a.2)

structure TriggerNotify where
  reqId : ℤ
  trigger : ℕ := sof
  sofTimestamp : ℕ := 0

/-- `bubble` is whether the error is `CRM_KMD_ERR_BUBBLE`. -/
structure ErrorNotify where
  reqId : ℤ
  bubble : Bool := true
  trigger : ℕ := sof
  sofTimestamp : ℕ := 0

structure FlushInfo where
  reqId : ℤ
  type : FlushType

structure SchedRequest where
  reqId : ℤ
  bubbleEnable : ℤ := 0
  syncMode : ℤ := 0
  additionalTimeout : ℤ := 0

/-- The low byte of `skip_before_applying` is a delay, `skipNextFrame` the flag above it. -/
structure AddRequest where
  devHdl : ℤ
  reqId : ℤ
  skipBeforeApplying : ℕ := 0

/-- The request whose buffers are done makes its slot free. -/
def resetDoneSlot (link : Link) (n : TriggerNotify) : Link :=
  if n.trigger = sof then
    match findSlotForReq link.inQ n.reqId with
    | none => link
    | some idx =>
      resetReqSlot
        (if link.inQ.lastAppliedIdx = some idx then
          { link with inQ := { link.inQ with lastAppliedIdx := none } }
        else link) idx
  else link

def processTrigger (link : Link) (n : TriggerNotify) (env : Env) : Link × List Event :=
  let link := resetDoneSlot link n
  if link.state = .available ∨ link.state = .idle then (link, [])
  else if (link.inQ.slot link.inQ.rdIdx).status = .reqApplied then
    let c := checkNextReqSlot link
    let link := { c.2 with inQ := { c.2.inQ with rdIdx := incIdx c.2.inQ.rdIdx 1 } }
    if c.1 ≠ 0 then (link, []) else processReq link env n.trigger n.sofTimestamp
  else processReq link env n.trigger n.sofTimestamp

/-- `CAM_REQ_MGR_WATCHDOG_TIMEOUT_MAX` is 50 seconds. -/
def additionalTimeout (timeout : ℤ) : ℤ :=
  if timeout < 0 then 0 else if 50000 < timeout then 50000 else timeout

def schedSlot (r : SchedRequest) : Slot where
  status := .reqAdded
  reqId := r.reqId
  syncMode := r.syncMode
  skipIdx := false
  recover := r.bubbleEnable
  additionalTimeout := additionalTimeout r.additionalTimeout

def ReqQueue.written (q : ReqQueue) (slot : Slot) : ReqQueue :=
  { q.setSlot q.wrIdx slot with wrIdx := incIdx q.wrIdx 1 }

/-- `synced` is whether the link has a sync link. -/
def processSchedReq (link : Link) (r : SchedRequest) (synced : Bool) : Link × List Event :=
  let link :=
    { link with inQ := link.inQ.written (schedSlot r), openReqCnt := wrap32 (link.openReqCnt + 1) }
  if r.syncMode = syncModeSync then
    (if link.initialSyncReq = -1 then { link with initialSyncReq := r.reqId } else link, [])
  else
    ({ link with initialSyncReq := -1 }, if synced then [.peer .initialSyncReq] else [])

/-- A session can force the recovery of bubbles on (`1`) or off (`2`). -/
def bubbleEnable (forceErrRecovery : ℤ) (r : SchedRequest) : ℤ :=
  if forceErrRecovery = 0 then r.bubbleEnable else if forceErrRecovery = 1 then 1 else 0

def scheduleRequest (link : Link) (r : SchedRequest) (forceErrRecovery : ℤ) (synced : Bool) :
    Link × List Event :=
  if r.reqId ≤ link.lastFlushId then (link, [.returned eBadr])
  else
    let t := processSchedReq { link with lastFlushId := 0 }
      { r with bubbleEnable := bubbleEnable forceErrRecovery r } synced
    (t.1, t.2 ++ [.returned 0])

/-- A device that injects a longer delay than the others owns the slot of its table. -/
def addTblSlot (tblSlot : TblSlot) (r : AddRequest) : TblSlot :=
  let tblSlot := { tblSlot with isApplied := false }
  if tblSlot.injectDelay < r.skipBeforeApplying &&& 0xFF then
    { tblSlot with
      injectDelay := r.skipBeforeApplying &&& 0xFF
      devHdl := r.devHdl
      skipNextFrame := r.skipBeforeApplying.testBit 8 || tblSlot.skipNextFrame }
  else tblSlot

def readyTblSlot (tblSlot : TblSlot) (devMask devBit : ℕ) : TblSlot :=
  let map := tblSlot.reqReadyMap ||| 1 <<< devBit
  { tblSlot with reqReadyMap := map, state := if map = devMask then .ready else .pending }

def processAddReq (link : Link) (r : AddRequest) : Link :=
  match link.lDev.find? (·.devHdl = r.devHdl) with
  | none => link
  | some dev =>
    match findSlotForReq link.inQ r.reqId with
    | none => link
    | some idx =>
      let t := link.tbl dev.pDelay
      { link with
        tbl := Function.update link.tbl dev.pDelay
          (t.setSlot idx (readyTblSlot (addTblSlot (t.slot idx) r) t.devMask dev.devBit)) }

/-- A bubble takes the read index back to the request it is about. -/
def bubbleAt (link : Link) (idx : ℕ) (synced : Bool) : Link :=
  let link := tblSetAllSkipCnt link
  let inQ := setStatus { link.inQ with rdIdx := idx } idx .reqAdded
  let inQ :=
    if synced then
      let inQ := inQ.setSlot idx { inQ.slot idx with syncMode := 0 }
      inQ.setSlot (incIdx idx 1) { inQ.slot (incIdx idx 1) with syncMode := 0 }
    else inQ
  { link with inQ := inQ, state := .err, openReqCnt := wrap32 (link.openReqCnt + 1) }

/-- The slot a notified error is recovered at. -/
def recoverIdx (link : Link) (e : ErrorNotify) : Option ℕ :=
  if e.bubble then
    (findSlotForReq link.inQ e.reqId).filter fun idx =>
      (link.inQ.slot idx).recover ≠ 0 ∧
        ((link.inQ.slot idx).status = .reqPending ∨ (link.inQ.slot idx).status = .reqApplied)
  else none

def processError (link : Link) (e : ErrorNotify) (env : Env) : Link × List Event :=
  match recoverIdx link e with
  | none => (link, [])
  | some idx =>
    let events := link.lDev.map (.linkErr ·.devHdl e.reqId)
    let r := processReq (bubbleAt link idx env.syncLink.isSome) env e.trigger e.sofTimestamp
    (r.1, events ++ r.2)

/-- `none` when the request can not be cancelled any more. -/
def cancelReq (link : Link) (reqId : ℤ) : Option Link :=
  match findSlotForReq link.inQ reqId with
  | none => some link
  | some idx =>
    let slot := link.inQ.slot idx
    if slot.status = .reqPending ∨ slot.status = .reqApplied then none
    else
      some { link with
        inQ := inQSkipIdx (link.inQ.setSlot idx { slot with additionalTimeout := 0 }) idx }

/-- The flush id is kept in 32 bits. -/
def processFlushReq (link : Link) (f : FlushInfo) : Link × List Event :=
  let events := link.lDev.map (.flushReq ·.devHdl f.reqId f.type)
  match f.type with
  | .all => (flushReqSlot { link with lastFlushId := (f.reqId % 2 ^ 32).toNat }, events)
  | .cancelReq =>
    match cancelReq link f.reqId with
    | none => (link, [])
    | some link => (link, events)

def processStop (link : Link) : Link := flushReqSlot link

/-- `cam_req_mgr_sync_config`, with the delay of the other link when the links are synced. -/
def syncConfig (link : Link) (peerMaxDelay : Option PipelineDelay) : Link :=
  let link :=
    { link with
      syncLinkSofSkip := false, isMaster := false, inMsyncMode := false, initialSyncReq := -1 }
  match peerMaxDelay with
  | some d =>
    { link with
      isMaster := d < link.maxDelay
      initialSkip := if link.maxDelay < d then true else link.initialSkip }
  | none => { link with initialSkip := true, sofTimestamp := 0 }

/-- `CAM_REQ_MGR_LINK_ACTIVATE` or `CAM_REQ_MGR_LINK_DEACTIVATE`. -/
def linkControl (link : Link) (activate : Bool) : Link :=
  { link with state := if activate then .ready else .idle }

inductive Input
  | schedule (r : SchedRequest) (forceErrRecovery : ℤ) (synced : Bool)
  | addReq (r : AddRequest)
  | trigger (n : TriggerNotify) (env : Env)
  | error (e : ErrorNotify) (env : Env)
  | flush (f : FlushInfo)
  | stop
  | syncConfig (peerMaxDelay : Option PipelineDelay)
  | linkControl (activate : Bool)
  | peer (w : PeerWrite)

def machine : Machine Link Input Event where
  step link
    | .schedule r forceErrRecovery synced => scheduleRequest link r forceErrRecovery synced
    | .addReq r => (processAddReq link r, [])
    | .trigger n env => processTrigger link n env
    | .error e env => processError link e env
    | .flush f => processFlushReq link f
    | .stop => (processStop link, [])
    | .syncConfig peerMaxDelay => (syncConfig link peerMaxDelay, [])
    | .linkControl activate => (linkControl link activate, [])
    | .peer w => (w.apply link, [])

end KernelModules.Crm
