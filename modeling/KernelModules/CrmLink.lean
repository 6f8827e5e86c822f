import KernelModules.Machine
import Mathlib.Data.Nat.Bitwise
import Mathlib.Data.Int.Order.Basic

/-!
# The link of the camera request manager

Requests wait in a ring of slots; next to it every pipeline delay has a table that says which
devices are ready for the request of a slot. At a frame the tables are traversed from the greatest
delay down, each one at an older slot than the one before, and the devices are sent the request of
the slot their table stands at.

A table is named by its pipeline delay: `lTbl` is the chain of tables and `tbl` what each holds. An
index is `none` where the source has `-1`.
-/

namespace KernelModules.Crm

open Function

/-- `MAX_REQ_SLOTS`, for the input queue and for every table. -/
abbrev maxReqSlots : ℕ := 48

/-- `enum cam_pipeline_delay`: the delays below `CAM_PIPELINE_DELAY_MAX`. -/
abbrev PipelineDelay := Fin 3

scoped instance neZero_three : NeZero 3 := ⟨by decide⟩

/-- `CAM_TRIGGER_POINT_SOF`. -/
abbrev sof : ℕ := 1

/-- `CAM_TRIGGER_POINT_EOF`. -/
abbrev eof : ℕ := 2

/-- `CAM_REQ_MGR_SYNC_MODE_SYNC`. -/
abbrev syncModeSync : ℤ := 1

abbrev ePerm : ℤ := -1
abbrev eAgain : ℤ := -11
abbrev eInval : ℤ := -22
abbrev eBadr : ℤ := -53

inductive SlotStatus
  | noReq
  | reqAdded
  | reqPending
  | reqApplied
  deriving DecidableEq

inductive ReqState
  | empty
  | pending
  | ready
  deriving DecidableEq

inductive LinkState
  | available
  | idle
  | ready
  | err
  deriving DecidableEq

structure Slot where
  status : SlotStatus := .noReq
  reqId : ℤ := -1
  skipIdx : Bool := false
  recover : ℤ := 0
  syncMode : ℤ := 0
  additionalTimeout : ℤ := 0

structure ReqQueue where
  slot : ℕ → Slot
  rdIdx : ℕ
  wrIdx : ℕ
  lastAppliedIdx : Option ℕ

structure TblSlot where
  reqReadyMap : ℕ := 0
  state : ReqState := .empty
  injectDelay : ℕ := 0
  devHdl : ℤ := 0
  skipNextFrame : Bool := false
  isApplied : Bool := false

structure ReqTbl where
  devCount : ℕ := 0
  devMask : ℕ := 0
  skipTraverse : ℕ := 0
  pdDelta : ℕ := 0
  slot : ℕ → TblSlot := fun _ => {}

structure Apply where
  idx : ℕ := 0
  reqId : ℤ := 0
  skipIdx : ℤ := 0

/-- A connected device; its table is the one of its `pDelay`. -/
structure Device where
  devHdl : ℤ
  devBit : ℕ
  pDelay : PipelineDelay
  trigger : ℕ

structure Link where
  lDev : List Device := []
  maxDelay : PipelineDelay := 0
  pdMask : ℕ := 0
  subscribeEvent : ℕ := 0
  inQ : ReqQueue
  lTbl : List PipelineDelay := []
  tbl : PipelineDelay → ReqTbl := fun _ => {}
  applyData : PipelineDelay → Apply := fun _ => {}
  state : LinkState := .available
  triggerMask : ℕ := 0
  openReqCnt : ℤ := 0
  lastFlushId : ℕ := 0
  retryCnt : ℕ := 0
  isMaster : Bool := false
  syncLinkSofSkip : Bool := false
  initialSkip : Bool := true
  inMsyncMode : Bool := false
  initialSyncReq : ℤ := -1
  sofTimestamp : ℕ := 0
  prevSofTimestamp : ℕ := 0

def incIdx (val step : ℕ) : ℕ := (val + step) % maxReqSlots

def decIdx (val step : ℕ) : ℕ := if val < step then maxReqSlots + val - step else val - step

theorem incIdx_eq (val step : ℕ) : incIdx val step = (val + step) % 48 := rfl

theorem decIdx_eq (val step : ℕ) :
    decIdx val step = if val < step then 48 + val - step else val - step := rfl

theorem incIdx_lt (val step : ℕ) : incIdx val step < 48 := Nat.mod_lt _ (by decide)

theorem decIdx_lt {val step : ℕ} (h : val < 48) : decIdx val step < 48 := by
  rw [decIdx_eq]
  by_cases hs : val < step
  · rw [if_pos hs]
    omega
  · rw [if_neg hs]
    omega

def ReqQueue.setSlot (q : ReqQueue) (idx : ℕ) (slot : Slot) : ReqQueue :=
  { q with slot := update q.slot idx slot }

def ReqTbl.setSlot (t : ReqTbl) (idx : ℕ) (slot : TblSlot) : ReqTbl :=
  { t with slot := update t.slot idx slot }

def Slot.waiting (slot : Slot) : Bool :=
  slot.status = .reqAdded ∨ slot.status = .reqPending

def setStatus (q : ReqQueue) (idx : ℕ) (status : SlotStatus) : ReqQueue :=
  q.setSlot idx { q.slot idx with status := status }

/-- `__cam_req_mgr_in_q_skip_idx`. -/
def inQSkipIdx (q : ReqQueue) (idx : ℕ) : ReqQueue :=
  q.setSlot idx { q.slot idx with reqId := -1, skipIdx := true, status := .reqAdded }

def resetTblSlot (slot : TblSlot) : TblSlot := { slot with reqReadyMap := 0, state := .empty }

def flushReqSlot (link : Link) : Link :=
  { link with
    inQ := { link.inQ with
      slot := fun _ =>
        { reqId := -1, skipIdx := true, recover := 0, additionalTimeout := 0, syncMode := 0,
          status := .noReq }
      wrIdx := 0
      rdIdx := 0 }
    tbl := fun pd => { link.tbl pd with slot := fun i => resetTblSlot ((link.tbl pd).slot i) } }

/-- A slot that holds a new request, or the one applied last, is left as it is. -/
def resetReqSlot (link : Link) (idx : ℕ) : Link :=
  if (link.inQ.slot idx).status = .reqAdded ∨ link.inQ.lastAppliedIdx = some idx then link
  else
    { link with
      inQ := link.inQ.setSlot idx
        { reqId := -1, skipIdx := false, recover := 0, additionalTimeout := 0, syncMode := 0,
          status := .noReq }
      tbl := fun pd => (link.tbl pd).setSlot idx (resetTblSlot ((link.tbl pd).slot idx)) }

def tblSetAllSkipCnt (link : Link) : Link :=
  match link.lTbl with
  | [] => link
  | maxPd :: _ =>
    { link with tbl := fun pd => { link.tbl pd with skipTraverse := maxPd.val - pd.val } }

def checkForLowerPdDevices (link : Link) : ℤ :=
  if link.lDev.any (·.pDelay < link.maxDelay) then 0 else eAgain

/-- An empty slot behind the one that was applied becomes an idle one when some device still has
to be sent an older request. -/
def checkNextReqSlot (link : Link) : ℤ × Link :=
  let idx := incIdx link.inQ.rdIdx 1
  if (link.inQ.slot idx).status = .noReq then
    let rc := checkForLowerPdDevices link
    if rc ≠ 0 then (rc, link)
    else
      (0, { link with
        inQ := { inQSkipIdx link.inQ idx with wrIdx := incIdx link.inQ.wrIdx 1 } })
  else (0, link)

def findSlotFrom (q : ReqQueue) (reqId : ℤ) : ℕ → ℕ → Option ℕ
  | 0, _ => none
  | n + 1, idx =>
    if (q.slot idx).reqId = reqId then some idx else findSlotFrom q reqId n (decIdx idx 1)

def findSlotForReq (q : ReqQueue) (reqId : ℤ) : Option ℕ :=
  findSlotFrom q reqId maxReqSlots q.rdIdx

/-- The tables from `idx` on, each at the slot it stands at; every delay they still inject is
used up by one. -/
def injectDelayFrom :
    List PipelineDelay → ℕ → (PipelineDelay → ReqTbl) → ℤ × (PipelineDelay → ReqTbl)
  | [], _, tbl => (0, tbl)
  | pd :: next, idx, tbl =>
    let slot := (tbl pd).slot idx
    let tbl' :=
      if 0 < slot.injectDelay then
        update tbl pd
          ((tbl pd).setSlot idx { slot with injectDelay := slot.injectDelay - 1 })
      else tbl
    let r := injectDelayFrom next (decIdx idx (tbl pd).pdDelta) tbl'
    (if 0 < slot.injectDelay then eAgain else r.1, r.2)

def injectDelay (link : Link) (idx : ℕ) : ℤ × Link :=
  let r := injectDelayFrom link.lTbl idx link.tbl
  (r.1, { link with tbl := r.2 })

structure Traverse where
  tbl : PipelineDelay → ReqTbl
  applyData : PipelineDelay → Apply
  result : ℕ

/-- What a table does once all tables behind it are known to be ready. -/
def Traverse.success (inQ : ReqQueue) (validateOnly : Bool) (pd : PipelineDelay) (idx : ℕ)
    (d : Traverse) : Traverse :=
  if validateOnly then { d with result := d.result ||| 1 <<< pd.val }
  else
    { result := d.result ||| 1 <<< pd.val
      applyData := update d.applyData pd
        { d.applyData pd with
          idx := idx
          reqId := if 0 < (d.tbl pd).skipTraverse then -1 else (inQ.slot idx).reqId }
      tbl := update d.tbl pd
        { d.tbl pd with skipTraverse := (d.tbl pd).skipTraverse - 1 } }

def tblReady (inQ : ReqQueue) (tbl : PipelineDelay → ReqTbl) (pd : PipelineDelay) (idx : ℕ) :
    Prop :=
  ((tbl pd).slot idx).state = .ready ∨ (inQ.slot idx).skipIdx = true ∨ 0 < (tbl pd).skipTraverse
deriving Decidable

/-- `none` when some table is not ready; no table has been changed then. -/
def traverse (inQ : ReqQueue) (validateOnly : Bool) :
    List PipelineDelay → ℕ → Traverse → Option Traverse
  | [], _, d => some d
  | pd :: next, idx, d =>
    if tblReady inQ d.tbl pd idx then
      (traverse inQ validateOnly next (decIdx idx (d.tbl pd).pdDelta) d).map
        (Traverse.success inQ validateOnly pd idx)
    else none

def checkLinkIsReady (link : Link) (idx : ℕ) (validateOnly : Bool) : ℤ × Link :=
  let applyData := if validateOnly then link.applyData else fun _ => {}
  let link := { link with applyData := applyData, initialSkip := false }
  if link.lTbl = [] then (eAgain, link)
  else
    match traverse link.inQ validateOnly link.lTbl idx ⟨link.tbl, link.applyData, 0⟩ with
    | some d =>
      (if d.result = link.pdMask then 0 else eAgain,
        { link with tbl := d.tbl, applyData := d.applyData })
    | none => (eAgain, link)

structure DevInfo where
  devHdl : ℤ
  pDelay : PipelineDelay
  trigger : ℕ

def setPdDelta (tbl : PipelineDelay → ReqTbl) (pd : PipelineDelay) (delta : ℕ) :
    PipelineDelay → ReqTbl :=
  update tbl pd { tbl pd with pdDelta := delta }

/-- `__cam_req_mgr_add_tbl_to_link`: the chain runs from the greatest delay to the least. -/
def addTblToLink (new : PipelineDelay) :
    List PipelineDelay → (PipelineDelay → ReqTbl) →
      List PipelineDelay × (PipelineDelay → ReqTbl)
  | [], tbl => ([new], tbl)
  | [pd], tbl =>
    if pd < new then ([new, pd], setPdDelta tbl new (new.val - pd.val))
    else ([pd, new], setPdDelta (setPdDelta tbl new 0) pd (pd.val - new.val))
  | pd :: next :: rest, tbl =>
    if pd < new then (new :: pd :: next :: rest, setPdDelta tbl new (new.val - pd.val))
    else if new < next then
      (pd :: (addTblToLink new (next :: rest) tbl).1, (addTblToLink new (next :: rest) tbl).2)
    else
      (pd :: new :: next :: rest,
        setPdDelta (setPdDelta tbl new (new.val - next.val)) pd (pd.val - new.val))

/-- One round of the loop that gives a device its table. -/
def setupDevice (link : Link) (info : DevInfo) : Link :=
  let pd := info.pDelay
  let link :=
    if link.pdMask.testBit pd then link
    else
      let r := addTblToLink pd link.lTbl (update link.tbl pd {})
      { link with pdMask := link.pdMask ||| 1 <<< pd.val, lTbl := r.1, tbl := r.2 }
  let t := link.tbl pd
  { link with
    lDev := link.lDev ++ [⟨info.devHdl, t.devCount, pd, info.trigger⟩]
    tbl := update link.tbl pd
      { t with devCount := t.devCount + 1, devMask := t.devMask ||| 1 <<< t.devCount }
    maxDelay := if link.maxDelay < pd then pd else link.maxDelay }

/-- The queue is allocated zeroed, so that `last_applied_idx` starts at slot `0`. -/
def setupInQ : ReqQueue where
  slot _ := {}
  rdIdx := 0
  wrIdx := 0
  lastAppliedIdx := some 0

def setupLinkInfo (infos : List DevInfo) : Link :=
  { tblSetAllSkipCnt (infos.foldl setupDevice
      { inQ := setupInQ, subscribeEvent := infos.foldl (fun m info => m ||| info.trigger) 0 })
    with state := .ready }

end KernelModules.Crm
