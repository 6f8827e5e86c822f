import KernelModules.CrmLink

/-!
# Readiness of a request across two synced links

The links of a dual camera are processed one at a time. Before a link applies a request in sync
mode it looks at its sync link, which it sees as it stands then. What it writes there is sent to
the sync link as a message.
-/

namespace KernelModules.Crm

/-- `DEFAULT_FRAME_DURATION`, in nanoseconds. -/
abbrev defaultFrameDuration : ℕ := 33333333

inductive FlushType
  | all
  | cancelReq
  deriving DecidableEq

inductive PeerWrite
  | sofSkip
  | initialSkip
  | initialSyncReq
  | leaveMsync
  deriving DecidableEq

/-- The calls a link makes; a message to user space is `errorMsg`. -/
inductive Event
  | applyReq (devHdl requestId reportIfBubble : ℤ) (triggerPoint : ℕ)
  | linkErr (devHdl reqId : ℤ)
  | flushReq (devHdl reqId : ℤ) (type : FlushType)
  | errorMsg (reqId : ℤ)
  | peer (w : PeerWrite)
  | returned (rc : ℤ)
  deriving DecidableEq

def PeerWrite.apply (w : PeerWrite) (link : Link) : Link :=
  match w with
  | .sofSkip => { link with syncLinkSofSkip := false }
  | .initialSkip => { link with initialSkip := false }
  | .initialSyncReq => { link with initialSyncReq := -1 }
  | .leaveMsync => { link with initialSyncReq := -1, inMsyncMode := false }

def sub32 (a b : ℕ) : ℕ := (a + 2 ^ 32 - b) % 2 ^ 32

def sub64 (a b : ℕ) : ℕ := (a + 2 ^ 64 - b) % 2 ^ 64

/-- The request is not the next one of the sync link. -/
def notNext (syncLink : Link) (syncSlotIdx : ℕ) : Prop :=
  (syncLink.inQ.slot syncSlotIdx).status ≠ .reqApplied ∧
    1 ≤ (syncSlotIdx + maxReqSlots - syncLink.inQ.rdIdx) % maxReqSlots ∧
    (syncLink.inQ.slot syncLink.inQ.rdIdx).status ≠ .reqApplied
deriving Decidable

def validateSyncLink (syncLink : Link) (syncSlotIdx : ℕ) : ℤ × List Event :=
  ((checkLinkIsReady syncLink syncSlotIdx true).1,
    if syncLink.initialSkip then [.peer .initialSkip] else [])

/-- The part of the master-slave check that master and slave share. -/
def checkSyncSlot (link syncLink : Link) (syncReqId : ℤ) : ℤ × Link × List Event :=
  if syncLink.initialSyncReq ≠ -1 ∧ syncLink.initialSyncReq ≤ syncReqId then
    match findSlotForReq syncLink.inQ syncReqId with
    | none => (eInval, { link with syncLinkSofSkip := true }, [])
    | some syncSlotIdx =>
      if notNext syncLink syncSlotIdx then (eInval, link, [])
      else
        let r := validateSyncLink syncLink syncSlotIdx
        if r.1 ≠ 0 ∧ (syncLink.inQ.slot syncSlotIdx).status ≠ .reqApplied then
          (r.1, { link with syncLinkSofSkip := true }, r.2)
        else (0, link, r.2)
  else (0, link, [])

def commitSync (link : Link) (idx : ℕ) (events : List Event) : ℤ × Link × List Event :=
  (0, (checkLinkIsReady link idx false).2, events)

/-- Delays and tables of the link itself, for a link in master-slave mode. -/
def checkOwnSlot (link : Link) (idx : ℕ) : ℤ × Link :=
  let r := injectDelay link idx
  if r.1 ≠ 0 then (r.1, { r.2 with syncLinkSofSkip := true })
  else
    let r := checkLinkIsReady r.2 idx true
    if r.1 ≠ 0 then (r.1, { r.2 with syncLinkSofSkip := true }) else (0, r.2)

/-- `syncIdx` is the slot of the request the sync link has to be ready for. -/
def checkMslaveReady (link syncLink : Link) (idx syncIdx : ℕ) : ℤ × Link × List Event :=
  let r := checkOwnSlot link idx
  if r.1 ≠ 0 then (r.1, r.2, [])
  else
    let s := checkSyncSlot r.2 syncLink (link.inQ.slot syncIdx).reqId
    if s.1 ≠ 0 then s else commitSync s.2.1 idx s.2.2

def checkSyncForMslave (link syncLink : Link) (idx : ℕ) : ℤ × Link × List Event :=
  let reqId := (link.inQ.slot idx).reqId
  if syncLink.syncLinkSofSkip then (eAgain, (injectDelay link idx).2, [.peer .sofSkip])
  else if link.inMsyncMode ∧ syncLink.inMsyncMode ∧
      (sub32 link.maxDelay.val syncLink.maxDelay.val : ℤ) <
        reqId - (syncLink.inQ.slot syncLink.inQ.rdIdx).reqId then
    (eInval, link, [])
  else if link.isMaster then
    -- The slave has not started streaming.
    if (injectDelay link idx).1 = 0 ∧ syncLink.initialSkip then
      (eAgain, (injectDelay link idx).2, [])
    else checkMslaveReady link syncLink idx
        (decIdx idx (link.maxDelay.val - syncLink.maxDelay.val))
  else
    checkMslaveReady { link with initialSkip := false } syncLink idx
      (incIdx link.inQ.rdIdx (syncLink.maxDelay.val - link.maxDelay.val))

/-- This frame belongs to one of the sync link that was skipped. -/
def syncFrameSkipped (link syncLink : Link) (syncFrameDuration : ℕ) : Prop :=
  (syncLink.sofTimestamp < link.sofTimestamp ∧ 0 < syncLink.sofTimestamp ∧
      link.sofTimestamp - syncLink.sofTimestamp < syncFrameDuration / 2) ∨
    link.sofTimestamp ≤ syncLink.sofTimestamp
deriving Decidable

def syncFrameDuration (syncLink : Link) : ℕ :=
  if syncLink.prevSofTimestamp ≠ 0 then sub64 syncLink.sofTimestamp syncLink.prevSofTimestamp
  else defaultFrameDuration

def sofTimestampDelta (link syncLink : Link) : ℕ :=
  if syncLink.sofTimestamp ≤ link.sofTimestamp then link.sofTimestamp - syncLink.sofTimestamp
  else syncLink.sofTimestamp - link.sofTimestamp

/-- Two links whose frames coincide have to stand at the same request. -/
def selfCorrect (link syncLink : Link) (idx syncSlotIdx : ℕ) : ℤ × Link × List Event :=
  let reqId := (link.inQ.slot idx).reqId
  let syncRdSlot := syncLink.inQ.slot syncLink.inQ.rdIdx
  if 0 < syncLink.sofTimestamp ∧
      sofTimestampDelta link syncLink < syncFrameDuration syncLink / 5 ∧
      syncRdSlot.syncMode = syncModeSync then
    if syncRdSlot.reqId < reqId then (eAgain, link, [])
    else if reqId < syncRdSlot.reqId then commitSync { link with syncLinkSofSkip := true } idx []
    else if (syncLink.inQ.slot syncSlotIdx).status ≠ .reqApplied then (eAgain, link, [])
    else commitSync link idx []
  else commitSync link idx []

/-- The link has used up its delays, and `rc` says whether there were any. -/
def checkSyncReady (rc : ℤ) (link syncLink : Link) (idx syncSlotIdx : ℕ) :
    ℤ × Link × List Event :=
  if notNext syncLink syncSlotIdx then (eAgain, link, [])
  else
    let r := checkLinkIsReady link idx true
    let s := validateSyncLink syncLink syncSlotIdx
    let ready : Bool := rc = 0 ∧ r.1 = 0
    let syncReady : Bool := s.1 = 0 ∨ (syncLink.inQ.slot syncSlotIdx).status = .reqApplied
    if syncReady ≠ ready then
      (eInval,
        if syncFrameDuration syncLink / 2 < sub64 link.sofTimestamp syncLink.sofTimestamp then
          { r.2 with syncLinkSofSkip := true }
        else r.2,
        s.2)
    else if ready = false then (eInval, r.2, s.2)
    else
      let c := selfCorrect r.2 syncLink idx syncSlotIdx
      (c.1, c.2.1, s.2 ++ c.2.2)

def checkSyncReqIsReady (link syncLink : Link) (idx : ℕ) : ℤ × Link × List Event :=
  if syncLink.initialSkip then
    (eAgain, (injectDelay { link with initialSkip := false } idx).2, [])
  else if link.initialSkip ∧ syncFrameSkipped link syncLink (syncFrameDuration syncLink) then
    (eAgain, (injectDelay { link with initialSkip := false } idx).2, [])
  else if syncLink.syncLinkSofSkip then
    (eAgain, (injectDelay { link with initialSkip := false } idx).2, [.peer .sofSkip])
  else
    let r := injectDelay { link with initialSkip := false } idx
    match findSlotForReq syncLink.inQ (link.inQ.slot idx).reqId with
    | none => (eAgain, r.2, [])
    | some syncSlotIdx => checkSyncReady r.1 r.2 syncLink idx syncSlotIdx

end KernelModules.Crm
