import KernelModules.Machine
import Mathlib.Tactic

/-!
# The camera sync table

A sync object is a row of a fixed table. Individual objects are signaled by their owner; a group
object merges individual ones, and is signaled when the last of them is. Kernel callbacks and
user payloads wait on a row and are dispatched when it is signaled.

Every call holds the row locks it needs, and is one step here. `cam_sync_close` is not a step of
its own: it signals the active rows, destroys all rows, and then gives the event queue up, which
is `release`.
-/

namespace KernelModules.CamSync

/-- `CAM_SYNC_MAX_OBJS`. -/
abbrev maxObjs : ℤ := 1024

inductive SyncType
  | indv
  | group
  deriving DecidableEq

inductive SyncState
  | invalid
  | active
  | signaledSuccess
  | signaledError
  deriving DecidableEq

inductive Rc
  | ok
  | eInval
  | eNomem
  | eAlready
  | eNoent
  deriving DecidableEq

/-- A callback function and its data; function `0` is the null pointer. -/
structure Callback where
  func : ℕ
  data : ℕ
  deriving DecidableEq

abbrev Payload := ℕ × ℕ

/-- `remaining` and `refCnt` are 32 bits wide; `signaled` is the completion waiters sleep on. -/
structure Row where
  type : SyncType := .indv
  state : SyncState := .invalid
  remaining : ℕ := 0
  refCnt : ℕ := 0
  parentsList : List ℤ := []
  childrenList : List ℤ := []
  callbackList : List Callback := []
  userPayloadList : List Payload := []
  signaled : Bool := false

structure SyncDevice where
  syncTable : ℤ → Row
  bitmap : ℤ → Bool
  eventq : Bool
  openCnt : ℕ
  triggerCbWithoutSwitch : Bool

/-- A callback is queued on the work queue, or run by the caller that registers it. -/
inductive Dispatch
  | workq
  | direct
  deriving DecidableEq

inductive Event
  | callback (via : Dispatch) (cb : Callback) (obj : ℤ) (status : SyncState)
  | userEvent (obj : ℤ) (status : SyncState) (payload : Payload)
  | object (obj : ℤ)
  | returned (rc : Rc)
  deriving DecidableEq

/-- Whether the list nodes for a child of a merge can be allocated. -/
structure Alloc where
  childInfo : ℤ → Bool := fun _ => true
  parentInfo : ℤ → Bool := fun _ => true

inductive CleanType
  | one
  | all

def decr (n : ℕ) : ℕ := (n + (2 ^ 32 - 1)) % 2 ^ 32

def incr (n : ℕ) : ℕ := (n + 1) % 2 ^ 32

def SyncState.isSignaled : SyncState → Bool
  | .signaledSuccess | .signaledError => true
  | _ => false

/-- The states `cam_sync_signal` takes. -/
def signaledStatus (status : ℕ) : Option SyncState :=
  if status = 2 then some .signaledSuccess
  else if status = 3 then some .signaledError
  else none

def cleanupList (type : CleanType) (list : List ℤ) (obj : ℤ) : List ℤ :=
  match type with
  | .one => list.erase obj
  | .all => []

def cleanupChildrenList (row : Row) (type : CleanType) (obj : ℤ) : Row :=
  { row with childrenList := cleanupList type row.childrenList obj }

def cleanupParentsList (row : Row) (type : CleanType) (obj : ℤ) : Row :=
  { row with parentsList := cleanupList type row.parentsList obj }

def updateParentState (row : Row) (newState : SyncState) : Row × Rc :=
  match row.state with
  | .active | .signaledSuccess => ({ row with state := newState }, .ok)
  | .signaledError => (row, .ok)
  | .invalid => (row, .eInval)

namespace SyncDevice

variable (s : SyncDevice)

def setRow (obj : ℤ) (row : Row) : SyncDevice :=
  { s with syncTable := Function.update s.syncTable obj row }

def setBit (idx : ℤ) (b : Bool) : SyncDevice := { s with bitmap := Function.update s.bitmap idx b }

end SyncDevice

/-- The first clear bit among `n` bits from `k` on, or the end of the range. -/
def findFirstZeroBit (bitmap : ℤ → Bool) : ℕ → ℤ → ℤ
  | 0, k => k
  | n + 1, k => if bitmap k then findFirstZeroBit bitmap n (k + 1) else k

def initRow (s : SyncDevice) (idx : ℤ) (type : SyncType) : SyncDevice × Rc :=
  if idx ≤ 0 ∨ maxObjs ≤ idx then (s, .eInval)
  else (s.setRow idx { type := type, state := .active }, .ok)

def create (s : SyncDevice) : SyncDevice × List Event :=
  let idx := findFirstZeroBit s.bitmap 1024 0
  if maxObjs ≤ idx then (s, [.returned .eNomem])
  else
    match initRow (s.setBit idx true) idx .indv with
    | (s, .ok) => (s, [.object idx, .returned .ok])
    | (s, _) => (s.setBit idx false, [.returned .eInval])

def checkValid (s : SyncDevice) (obj : ℤ) : Rc :=
  if maxObjs ≤ obj ∨ obj ≤ 0 then .eInval
  else if !s.bitmap obj then .eInval
  else if (s.syncTable obj).state = .invalid then .eInval
  else .ok

def removeDuplicateArr : List ℤ → List ℤ
  | [] => []
  | a :: arr => arr.foldl (fun kept b => if b ∈ kept then kept else kept ++ [b]) [a]

/-- One turn of the loop over the objects to merge; an error goes to `clean_children_info`. -/
def linkChild (alloc : Alloc) (idx : ℤ) (s : SyncDevice) (obj : ℤ) : SyncDevice × Rc :=
  let child := s.syncTable obj
  let row := s.syncTable idx
  if child.type = .group ∨ child.state = .invalid then (s, .eInval)
  else if child.state = .signaledError then (s.setRow idx { row with state := .signaledError }, .ok)
  else if child.state ≠ .active then (s, .ok)
  else
    let row := { row with remaining := incr row.remaining }
    if !alloc.childInfo obj then (s.setRow idx row, .eNomem)
    else
      let s := s.setRow idx { row with childrenList := row.childrenList ++ [obj] }
      if !alloc.parentInfo obj then (s, .eNomem)
      else
        let child := s.syncTable obj
        (s.setRow obj { child with parentsList := child.parentsList ++ [idx] }, .ok)

/-- The loop itself. `seen` are the objects it is through with, the last one first. -/
def linkChildren (alloc : Alloc) (idx : ℤ) :
    SyncDevice → List ℤ → List ℤ → SyncDevice × List ℤ × Rc
  | s, seen, [] => (s, seen, .ok)
  | s, seen, obj :: objs =>
    match linkChild alloc idx s obj with
    | (s, .ok) => linkChildren alloc idx s (obj :: seen) objs
    | (s, rc) => (s, seen, rc)

def cleanParent (idx : ℤ) (s : SyncDevice) (obj : ℤ) : SyncDevice :=
  s.setRow obj (cleanupParentsList (s.syncTable obj) .one idx)

def cleanChild (idx : ℤ) (s : SyncDevice) (obj : ℤ) : SyncDevice :=
  s.setRow obj (cleanupChildrenList (s.syncTable obj) .one idx)

def initGroupObject (alloc : Alloc) (s : SyncDevice) (idx : ℤ) (objs : List ℤ) :
    SyncDevice × Rc :=
  match linkChildren alloc idx (initRow s idx .group).1 [] objs with
  | (s, _, .ok) =>
    let row := s.syncTable idx
    if row.remaining = 0 then
      (s.setRow idx { row with
        state := if row.state = .signaledError then .signaledError else .signaledSuccess
        signaled := true }, .ok)
    else (s, .ok)
  | (s, seen, rc) =>
    let s := s.setRow idx { s.syncTable idx with state := .invalid }
    let s := seen.foldl (cleanParent idx) s
    (s.setRow idx (cleanupChildrenList (s.syncTable idx) .all 0), rc)

def merge (alloc : Alloc) (s : SyncDevice) (objs : List ℤ) : SyncDevice × List Event :=
  if objs.length ≤ 1 then (s, [.returned .eInval])
  else if (removeDuplicateArr objs).length ≠ objs.length then (s, [.returned .eInval])
  else if objs.any fun obj => checkValid s obj ≠ .ok then (s, [.returned .eInval])
  else
    let idx := findFirstZeroBit s.bitmap 1024 0
    if maxObjs ≤ idx then (s, [.returned .eNomem])
    else
      match initGroupObject alloc (s.setBit idx true) idx objs with
      | (s, .ok) => (s, [.object idx, .returned .ok])
      | (s, _) => (s.setBit idx false, [.returned .eInval])

def registerCallback (alloc : Bool) (s : SyncDevice) (cb : Callback) (obj : ℤ) :
    SyncDevice × List Event :=
  let row := s.syncTable obj
  if maxObjs ≤ obj ∨ obj ≤ 0 ∨ cb.func = 0 then (s, [.returned .eInval])
  else if row.state = .invalid then (s, [.returned .eInval])
  else if !alloc then (s, [.returned .eNomem])
  else if row.state.isSignaled ∧ row.remaining = 0 then
    (s, [.callback (if s.triggerCbWithoutSwitch then .direct else .workq) cb obj row.state,
      .returned .ok])
  else (s.setRow obj { row with callbackList := row.callbackList ++ [cb] }, [.returned .ok])

def deregisterCallback (s : SyncDevice) (cb : Callback) (obj : ℤ) : SyncDevice × List Event :=
  let row := s.syncTable obj
  if maxObjs ≤ obj ∨ obj ≤ 0 then (s, [.returned .eInval])
  else if row.state = .invalid then (s, [.returned .eInval])
  else
    (s.setRow obj { row with callbackList := row.callbackList.filter (· ≠ cb) },
      [.returned (if cb ∈ row.callbackList then .ok else .eNoent)])

def handleRegisterUserPayload (alloc : Bool) (s : SyncDevice) (payload : Payload) (obj : ℤ) :
    SyncDevice × List Event :=
  let row := s.syncTable obj
  if maxObjs ≤ obj ∨ obj ≤ 0 then (s, [.returned .eInval])
  else if !alloc then (s, [.returned .eNomem])
  else if row.state = .invalid then (s, [.returned .eInval])
  else if row.state = .signaledSuccess ∨ row.state = .signaledError then
    (s, [.userEvent obj row.state payload, .returned .ok])
  else if payload ∈ row.userPayloadList then (s, [.returned .eAlready])
  else (s.setRow obj { row with userPayloadList := row.userPayloadList ++ [payload] },
    [.returned .ok])

def handleDeregisterUserPayload (s : SyncDevice) (payload : Payload) (obj : ℤ) :
    SyncDevice × List Event :=
  let row := s.syncTable obj
  if maxObjs ≤ obj ∨ obj ≤ 0 then (s, [.returned .eInval])
  else if row.state = .invalid then (s, [.returned .eInval])
  else
    (s.setRow obj { row with userPayloadList := row.userPayloadList.filter (· ≠ payload) },
      [.returned .ok])

/-- Without an event queue the user payloads stay where they are. -/
def dispatchSignaledCb (s : SyncDevice) (obj : ℤ) (status : SyncState) :
    SyncDevice × List Event :=
  let row := s.syncTable obj
  if row.state = .invalid then (s, [])
  else
    (s.setRow obj { row with
      callbackList := []
      userPayloadList := if s.eventq then [] else row.userPayloadList
      signaled := true },
    row.callbackList.map (fun cb => .callback .workq cb obj status) ++
      if s.eventq then row.userPayloadList.map (.userEvent obj status) else [])

/-- One turn of the loop over the parents of a signaled object. -/
def signalParent (status : SyncState) (r : SyncDevice × List Event) (parent : ℤ) :
    SyncDevice × List Event :=
  let row := r.1.syncTable parent
  match updateParentState { row with remaining := decr row.remaining } status with
  | (row, .ok) =>
    let s := r.1.setRow parent row
    if row.remaining = 0 then
      let d := dispatchSignaledCb s parent row.state
      (d.1, r.2 ++ d.2)
    else (s, r.2)
  | (row, _) => (r.1.setRow parent row, r.2)

/-- The part of `cam_sync_signal` after the last reference is dropped. -/
def signalRow (s : SyncDevice) (obj : ℤ) (status : SyncState) : SyncDevice × List Event :=
  let s := s.setRow obj { s.syncTable obj with state := status }
  let r := dispatchSignaledCb s obj status
  let row := r.1.syncTable obj
  row.parentsList.foldl (signalParent status) (r.1.setRow obj { row with parentsList := [] }, r.2)

def signal (s : SyncDevice) (obj : ℤ) (status : ℕ) : SyncDevice × List Event :=
  let row := s.syncTable obj
  if maxObjs ≤ obj ∨ obj ≤ 0 then (s, [.returned .eInval])
  else if row.state = .invalid then (s, [.returned .eInval])
  else if row.type = .group then (s, [.returned .eInval])
  else if row.state ≠ .active then (s, [.returned .eAlready])
  else
    match signaledStatus status with
    | none => (s, [.returned .eInval])
    | some status =>
      let s := s.setRow obj { row with refCnt := decr row.refCnt }
      if decr row.refCnt ≠ 0 then (s, [.returned .ok])
      else
        let r := signalRow s obj status
        (r.1, r.2 ++ [.returned .ok])

def getObjRef (s : SyncDevice) (obj : ℤ) : SyncDevice × List Event :=
  let row := s.syncTable obj
  if maxObjs ≤ obj ∨ obj ≤ 0 then (s, [.returned .eInval])
  else if row.state ≠ .active then (s, [.returned .eInval])
  else (s.setRow obj { row with refCnt := incr row.refCnt }, [.returned .ok])

def putObjRef (s : SyncDevice) (obj : ℤ) : SyncDevice × List Event :=
  let row := s.syncTable obj
  if maxObjs ≤ obj ∨ obj ≤ 0 then (s, [.returned .eInval])
  else (s.setRow obj { row with refCnt := decr row.refCnt }, [.returned .ok])

def cleanValid (clean : ℤ → SyncDevice → ℤ → SyncDevice) (idx : ℤ) (s : SyncDevice) (obj : ℤ) :
    SyncDevice :=
  if (s.syncTable obj).state = .invalid then s else clean idx s obj

def deinitObject (s : SyncDevice) (idx : ℤ) : SyncDevice × List Event :=
  let row := s.syncTable idx
  if idx ≤ 0 ∨ maxObjs ≤ idx then (s, [.returned .eInval])
  else if row.state = .invalid then (s, [.returned .eInval])
  else
    let s := s.setRow idx { row with
      state := .invalid
      childrenList := row.childrenList.filter (· ≤ 0)
      parentsList := row.parentsList.filter (· ≤ 0) }
    let s := (row.childrenList.filter (0 < ·)).foldl (cleanValid cleanParent idx) s
    let s := (row.parentsList.filter (0 < ·)).foldl (cleanValid cleanChild idx) s
    ((s.setRow idx {}).setBit idx false, [.returned .ok])

def destroy (s : SyncDevice) (obj : ℤ) : SyncDevice × List Event := deinitObject s obj

/-- `fhOpen` is the outcome of `v4l2_fh_open`. -/
def openDev (fhOpen : Bool) (s : SyncDevice) : SyncDevice × List Event :=
  if 1 ≤ s.openCnt then (s, [.returned .eAlready])
  else if fhOpen then ({ s with openCnt := s.openCnt + 1, eventq := true }, [.returned .ok])
  else (s, [.returned .eNomem])

def release (s : SyncDevice) : SyncDevice :=
  { s with openCnt := s.openCnt - 1, eventq := false }

inductive Input
  | create
  | merge (objs : List ℤ) (alloc : Alloc)
  | registerCallback (cb : Callback) (obj : ℤ) (alloc : Bool)
  | deregisterCallback (cb : Callback) (obj : ℤ)
  | registerUserPayload (payload : Payload) (obj : ℤ) (alloc : Bool)
  | deregisterUserPayload (payload : Payload) (obj : ℤ)
  | signal (obj : ℤ) (status : ℕ)
  | getObjRef (obj : ℤ)
  | putObjRef (obj : ℤ)
  | destroy (obj : ℤ)
  | openDev (fhOpen : Bool)
  | release
  | setTriggerCbWithoutSwitch (b : Bool)

/-- Bit `0` is set at probe, so that no object has the id `0`. -/
def initial : SyncDevice where
  syncTable _ := {}
  bitmap idx := idx = 0
  eventq := false
  openCnt := 0
  triggerCbWithoutSwitch := false

def machine : Machine SyncDevice Input Event where
  step s
    | .create => create s
    | .merge objs alloc => merge alloc s objs
    | .registerCallback cb obj alloc => registerCallback alloc s cb obj
    | .deregisterCallback cb obj => deregisterCallback s cb obj
    | .registerUserPayload payload obj alloc => handleRegisterUserPayload alloc s payload obj
    | .deregisterUserPayload payload obj => handleDeregisterUserPayload s payload obj
    | .signal obj status => signal s obj status
    | .getObjRef obj => getObjRef s obj
    | .putObjRef obj => putObjRef s obj
    | .destroy obj => destroy s obj
    | .openDev fhOpen => openDev fhOpen s
    | .release => (release s, [])
    | .setTriggerCbWithoutSwitch b => ({ s with triggerCbWithoutSwitch := b }, [])

/-- Two active objects are merged; the group is signaled with the second of them. -/
example : ((machine.run initial [.create, .create, .merge [1, 2] {}, .getObjRef 1, .getObjRef 2,
    .signal 1 3, .registerCallback ⟨7, 0⟩ 3 true, .signal 2 2]).2.filter
      fun e => e matches .callback ..) = [.callback .workq ⟨7, 0⟩ 3 .signaledError] := by
  decide

end KernelModules.CamSync
