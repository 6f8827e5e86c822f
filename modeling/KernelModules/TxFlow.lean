import KernelModules.Machine
import Mathlib.Tactic

/-!
# The tx flow pools

The tx descriptors are on the free list of the device, on the free list of a flow pool or handed
out. The target maps a pool to a vdev, unmaps it and resizes it; a pool that is unmapped while
descriptors are handed out stays on the list as an invalid pool until they are back. Pools that
are short of descriptors get those that others give up.

Flow control V2 with resize. Every message and every call is one step. Statistics are left out.
-/

namespace KernelModules.TxFlow

scoped instance decidableForallSome {α : Type*} {P : α → Prop} [DecidablePred P] (o : Option α) :
    Decidable (∀ a, o = some a → P a) := inferInstanceAs (Decidable (∀ a ∈ o, P a))

def u8 (n : ℕ) : ℕ := n % 2 ^ 8

def u16 (n : ℕ) : ℕ := n % 2 ^ 16

def u32 (n : ℕ) : ℕ := n % 2 ^ 32

inductive PoolStatus
  | activeUnpaused
  | activePaused
  | nonPrioPaused
  | invalid
  | inactive
  deriving DecidableEq

structure FlowPool where
  flowPoolId : UInt8 := 0
  flowPoolSize : ℕ := 0
  availDesc : ℕ := 0
  deficientDesc : ℕ := 0
  overflowDesc : ℕ := 0
  status : PoolStatus := .activeUnpaused
  memberFlowId : UInt8 := 0
  stopTh : ℕ := 0
  startTh : ℕ := 0
  stopPriorityTh : ℕ := 0
  startPriorityTh : ℕ := 0
  freelist : List ℕ := []
  refCnt : ℤ := 0

inductive NetifAction
  | stopNonPriorityQueue
  | priorityQueueOff
  | stopAllNetifQueue
  | wakeNonPriorityQueue
  | priorityQueueOn
  | wakeAllNetifQueue

inductive NetifReason
  | dataFlowControl
  | dataFlowControlPriority

/-- What `pause_cb` drives: the two bits of `pause_map` that are set for flow control, the priority
queue and the four others, which are always stopped and woken together. -/
structure Adapter where
  flowControl : Bool := false
  flowControlPriority : Bool := false
  hiPrioStopped : Bool := false
  acStopped : Bool := false
  deriving DecidableEq

namespace Adapter

def setReason (a : Adapter) (b : Bool) : NetifReason → Adapter
  | .dataFlowControl => { a with flowControl := b }
  | .dataFlowControlPriority => { a with flowControlPriority := b }

def pauseMap (a : Adapter) : Bool := a.flowControl || a.flowControlPriority

/-- `wlan_hdd_netif_queue_control`. -/
def queueControl (a : Adapter) (action : NetifAction) (reason : NetifReason) : Adapter :=
  match action with
  | .stopAllNetifQueue =>
    (if a.pauseMap then a else { a with hiPrioStopped := true, acStopped := true }).setReason
      true reason
  | .stopNonPriorityQueue =>
    (if a.pauseMap then a else { a with acStopped := true }).setReason true reason
  | .priorityQueueOn => { a.setReason false reason with hiPrioStopped := false }
  | .priorityQueueOff => { a with hiPrioStopped := true }.setReason true reason
  | .wakeAllNetifQueue =>
    let a := a.setReason false reason
    if a.pauseMap then a else { a with hiPrioStopped := false, acStopped := false }
  | .wakeNonPriorityQueue =>
    let a := a.setReason false reason
    if a.pauseMap then a else { a with acStopped := false }

end Adapter

/-- What does not change: the descriptors there are, the thresholds in percent, whether the
management frames go over WMI, and which vdevs there are. The configuration puts the default where
a threshold is out of its range. -/
structure Cfg where
  numDesc : UInt16
  stopQueueTh : ℕ
  startQueueOffset : ℕ
  mgmtOverWmi : Bool
  vdev : UInt8 → Bool
  stopQueueTh_le : stopQueueTh ≤ 50 := by decide
  startQueueOffset_le : startQueueOffset ≤ 30 := by decide

/-- Pools are known by their addresses; an address is not used twice. `inUse` are the descriptors
that are handed out and `freed` the pools that `qdf_mem_free` got. -/
structure Pdev where
  numFree : ℕ
  freelist : List ℕ
  numInvalidBin : ℕ
  flowPoolList : List ℕ
  mgmtPool : Option ℕ
  vdevPool : UInt8 → Option ℕ
  pool : ℕ → FlowPool
  descPool : ℕ → Option ℕ
  queues : UInt8 → Adapter
  fresh : ℕ
  inUse : List ℕ
  freed : List ℕ

namespace Pdev

def modPool (s : Pdev) (p : ℕ) (f : FlowPool → FlowPool) : Pdev :=
  { s with pool := Function.update s.pool p (f (s.pool p)) }

def pauseCb (s : Pdev) (flow : UInt8) (action : NetifAction) (reason : NetifReason) : Pdev :=
  { s with queues := Function.update s.queues flow ((s.queues flow).queueControl action reason) }

end Pdev

/-- `n` times `ol_tx_get_desc_global_pool`, with what is taken put in front of `temp`. -/
def takeGlobalPool : ℕ → Pdev → List ℕ → Pdev × List ℕ
  | 0, s, temp => (s, temp)
  | n + 1, s, temp =>
    match s.freelist with
    -- A null head is dereferenced here; no caller takes more than there are.
    | [] => (s, temp)
    | d :: rest =>
      takeGlobalPool n { s with freelist := rest, numFree := s.numFree - 1 } (d :: temp)

/-- `n` times `ol_tx_get_desc_flow_pool`, with what is taken put in front of `temp`. -/
def takeFlowPool (p : ℕ) : ℕ → Pdev → List ℕ → Pdev × List ℕ
  | 0, s, temp => (s, temp)
  | n + 1, s, temp =>
    match (s.pool p).freelist with
    | [] => (s, temp)
    | d :: rest =>
      takeFlowPool p n
        (s.modPool p fun pool => { pool with freelist := rest, availDesc := pool.availDesc - 1 })
        (d :: temp)

def putDescGlobalPool (s : Pdev) (d : ℕ) : Pdev :=
  { s with freelist := d :: s.freelist, numFree := s.numFree + 1 }

def putDescFlowPool (p : ℕ) (s : Pdev) (d : ℕ) : Pdev :=
  { s.modPool p fun pool =>
      { pool with freelist := d :: pool.freelist, availDesc := pool.availDesc + 1 } with
    descPool := Function.update s.descPool d (some p) }

/-- `tx_desc->pool = pool` for each descriptor of the list. -/
def own (p : ℕ) (s : Pdev) (ds : List ℕ) : Pdev :=
  { s with descPool := fun d => if d ∈ ds then some p else s.descPool d }

def txPriorityTh : ℕ := 80

def maxTsoSegmentDesc : ℕ := 44

def priorityTh (th : ℕ) : ℕ :=
  let t := txPriorityTh * th / 100
  if maxTsoSegmentDesc ≤ t then t - maxTsoSegmentDesc else t

/-- The size and the thresholds that follow from it. -/
def FlowPool.setSize (cfg : Cfg) (size : ℕ) (pool : FlowPool) : FlowPool :=
  let startTh := u16 (u32 ((cfg.stopQueueTh + cfg.startQueueOffset) * size) / 100)
  let stopTh := u16 (u32 (cfg.stopQueueTh * size) / 100)
  { pool with
    flowPoolSize := size
    startTh := startTh
    stopTh := stopTh
    stopPriorityTh := priorityTh stopTh
    startPriorityTh := priorityTh startTh }

/-- `ol_tx_create_flow_pool` after the allocation of the pool, with the address it got. -/
def createFlowPool (cfg : Cfg) (s : Pdev) (id : UInt8) (size : ℕ) : Pdev × ℕ :=
  let p := s.fresh
  let n := if size ≤ s.numFree then size else s.numFree
  let (s, temp) := takeGlobalPool n s []
  let s := own p s temp
  let pool := FlowPool.setSize cfg size { flowPoolId := id, refCnt := 1 }
  ({ s with
      pool := Function.update s.pool p
        { pool with freelist := temp, availDesc := n, deficientDesc := size - n }
      flowPoolList := s.flowPoolList ++ [p]
      fresh := p + 1 }, p)

/-- The second loop of `ol_tx_move_desc_n`: what is left of the list, and how many were put. -/
def fillDeficient (dst : ℕ) : ℕ → Pdev → List ℕ → Pdev × List ℕ × ℕ
  | 0, s, temp => (s, temp, 0)
  | _ + 1, s, [] => (s, [], 0)
  | n + 1, s, d :: temp =>
    if (s.pool dst).deficientDesc = 0 then (s, d :: temp, 0)
    else
      let s := s.modPool dst fun pool => { pool with deficientDesc := pool.deficientDesc - 1 }
      let r := fillDeficient dst n (putDescFlowPool dst s d) temp
      (r.1, r.2.1, r.2.2 + 1)

/-- `ol_tx_move_desc_n`. -/
def moveDescN (src dst n : ℕ) (s : Pdev) : Pdev × ℕ :=
  let (s, temp) := takeFlowPool src n s []
  let (s, temp, count) := fillDeficient dst n s temp
  (temp.foldl (putDescFlowPool src) s, count)

/-- A paused pool that has enough again, after `ol_tx_move_desc_n`. -/
def wakeFromPool (s : Pdev) (dst : ℕ) : Pdev :=
  let pool := s.pool dst
  if pool.status = .activePaused ∧ pool.startTh < pool.availDesc then
    let s := s.pauseCb pool.memberFlowId .priorityQueueOn .dataFlowControlPriority
    let s := s.pauseCb pool.memberFlowId .wakeAllNetifQueue .dataFlowControl
    s.modPool dst fun pool => { pool with status := .activeUnpaused }
  else s

/-- The loop of `ol_tx_distribute_descs_to_deficient_pools` over the rest of the list. -/
def distributeLoop (src : ℕ) : List ℕ → ℕ → Pdev → Pdev
  | [], _, s => s
  | dst :: rest, descCount, s =>
    let deficient := (s.pool dst).deficientDesc
    let r :=
      if deficient = 0 then (s, descCount)
      else
        let r := moveDescN src dst (if descCount < deficient then descCount else deficient) s
        (wakeFromPool r.1 dst, descCount - r.2)
    if r.2 = 0 then r.1 else distributeLoop src rest r.2 r.1

/-- `ol_tx_distribute_descs_to_deficient_pools`. -/
def distributeToDeficientPools (src : ℕ) (s : Pdev) : Pdev :=
  distributeLoop src s.flowPoolList (s.pool src).availDesc s

/-- A paused pool that has enough again, after descriptors of the global pool were put. -/
def wakeFromGlobal (s : Pdev) (dst : ℕ) : Pdev :=
  let pool := s.pool dst
  if pool.status = .activePaused ∧ pool.startTh < pool.availDesc then
    let s := s.pauseCb pool.memberFlowId .wakeAllNetifQueue .dataFlowControl
    s.modPool dst fun pool => { pool with status := .activeUnpaused }
  else s

def FlowPool.Complete (pool : FlowPool) : Prop :=
  pool.status = .invalid ∧ pool.availDesc = pool.flowPoolSize
deriving Decidable

/-- The second loop of `ol_tx_distribute_descs_to_deficient_pools_from_global_pool`, over the rest
of the list, with `temp_list`, `desc_move_count` and `tmp_pool`. -/
def globalLoop : List ℕ → List ℕ → ℕ → Option ℕ → Pdev → Pdev × Option ℕ
  | [], _, _, tmpPool, s => (s, tmpPool)
  | dst :: rest, temp, descMoveCount, tmpPool, s =>
    let deficient := (s.pool dst).deficientDesc
    if deficient = 0 then
      if descMoveCount = 0 then (s, tmpPool) else globalLoop rest temp descMoveCount tmpPool s
    else
      let n := if descMoveCount < deficient then descMoveCount else deficient
      let s := (temp.take n).foldl (putDescFlowPool dst) s
      let tmpPool := if (s.pool dst).Complete then some dst else tmpPool
      let s := wakeFromGlobal s dst
      if descMoveCount - n = 0 then (s, tmpPool)
      else globalLoop rest (temp.drop n) (descMoveCount - n) tmpPool s

/-- `ol_tx_distribute_descs_to_deficient_pools_from_global_pool`, with what
`ol_tx_free_invalid_flow_pool` does. -/
def distributeFromGlobal (freeInvalid : ℕ → Pdev → Pdev) (s : Pdev) : Pdev :=
  let totalDescReq := u16 (s.flowPoolList.map fun p => (s.pool p).deficientDesc).sum
  let n := if totalDescReq ≤ s.numFree then totalDescReq else s.numFree
  let (s, temp) := takeGlobalPool n s []
  if n = 0 then s
  else
    match globalLoop s.flowPoolList temp n none s with
    | (s, some tmpPool) => freeInvalid tmpPool s
    | (s, none) => s

def invalidFlowId : UInt8 := 0xff

/-- What `ol_tx_delete_flow_pool` does before the descriptors go to the global pool. The pool is
off the list. -/
def retirePool (p : ℕ) (force : Bool) (s : Pdev) : Pdev :=
  let pool := s.pool p
  if pool.availDesc = pool.flowPoolSize ∨ force then
    { s.modPool p fun pool =>
        { pool with status := .inactive, freelist := [], availDesc := 0 } with
      freed := s.freed ++ [p] }
  else
    { s.modPool p fun pool =>
        { pool with
          status := .invalid
          freelist := []
          availDesc := 0
          flowPoolSize := u16 (pool.flowPoolSize + 2 ^ 16 - pool.availDesc)
          flowPoolId := invalidFlowId
          refCnt := pool.refCnt + 1 } with
      numInvalidBin := u8 (s.numInvalidBin + 1)
      flowPoolList := s.flowPoolList ++ [p] }

/-- `ol_tx_delete_flow_pool`. -/
def deleteFlowPool (freeInvalid : ℕ → Pdev → Pdev) (p : ℕ) (force : Bool) (s : Pdev) : Pdev :=
  let pool := s.pool p
  let s := retirePool p force s
  let s := (pool.freelist.take pool.availDesc).foldl putDescGlobalPool s
  distributeFromGlobal freeInvalid s

def incPoolRef (p : ℕ) (s : Pdev) : Pdev :=
  s.modPool p fun pool => { pool with refCnt := pool.refCnt + 1 }

/-- `ol_tx_dec_pool_ref`. -/
def decPoolRefWith (freeInvalid : ℕ → Pdev → Pdev) (p : ℕ) (force : Bool) (s : Pdev) : Pdev :=
  let s := s.modPool p fun pool => { pool with refCnt := pool.refCnt - 1 }
  if (s.pool p).refCnt = 0 then
    deleteFlowPool freeInvalid p force { s with flowPoolList := s.flowPoolList.erase p }
  else s

/-- `ol_tx_free_invalid_flow_pool` as deep as the fuel allows. -/
def freeInvalidFuel : ℕ → ℕ → Pdev → Pdev
  | 0, _, s => s
  | fuel + 1, p, s =>
    if (s.pool p).status = .invalid then
      let s := distributeToDeficientPools p s
      let s := s.modPool p fun pool => { pool with flowPoolSize := pool.availDesc }
      decPoolRefWith (freeInvalidFuel fuel) p false
        { s with numInvalidBin := u8 (s.numInvalidBin + 2 ^ 8 - 1) }
    else s

/-- `ol_tx_free_invalid_flow_pool`. Each call inside it is about a list with one pool less. -/
def freeInvalidFlowPool (p : ℕ) (s : Pdev) : Pdev :=
  freeInvalidFuel (s.flowPoolList.length + 1) p s

/-- `ol_tx_dec_pool_ref`, outside of `ol_tx_free_invalid_flow_pool`. -/
def decPoolRef (p : ℕ) (s : Pdev) : Pdev := decPoolRefWith freeInvalidFlowPool p false s

/-- `ol_tx_get_flow_pool`. -/
def getFlowPool (s : Pdev) (id : UInt8) : Option ℕ :=
  s.flowPoolList.find? fun p => (s.pool p).flowPoolId = id

/-- `ol_tx_flow_pool_vdev_map`. -/
def vdevMap (cfg : Cfg) (p : ℕ) (vdev : UInt8) (s : Pdev) : Pdev :=
  if cfg.vdev vdev then
    { s.modPool p fun pool => { pool with memberFlowId := vdev } with
      vdevPool := Function.update s.vdevPool vdev (some p) }
  else s

/-- `ol_tx_flow_pool_vdev_unmap`. -/
def vdevUnmap (cfg : Cfg) (p : ℕ) (vdev : UInt8) (s : Pdev) : Pdev :=
  if cfg.vdev vdev then
    { s.modPool p fun pool => { pool with memberFlowId := invalidFlowId } with
      vdevPool := Function.update s.vdevPool vdev none }
  else s

def flowTypeVdev : UInt8 := 0

/-- The rest of `ol_tx_flow_pool_map_handler` once there is a pool. -/
def mapPool (cfg : Cfg) (flowId flowType : UInt8) (poolCreate : Bool) (p : ℕ) (s : Pdev) : Pdev :=
  if flowType = flowTypeVdev then
    let s := vdevMap cfg p flowId s
    let s := s.pauseCb flowId .priorityQueueOn .dataFlowControlPriority
    s.pauseCb flowId .wakeAllNetifQueue .dataFlowControl
  else if poolCreate then decPoolRef p s
  else s

/-- `ol_tx_flow_pool_map_handler`; `mem` is whether `qdf_mem_malloc` gives a pool. -/
def mapHandler (cfg : Cfg) (flowId flowType id : UInt8) (size : UInt16) (mem : Bool) (s : Pdev) :
    Pdev :=
  match getFlowPool s id with
  | some p => mapPool cfg flowId flowType false p s
  | none =>
    if mem then
      let r := createFlowPool cfg s id size.toNat
      mapPool cfg flowId flowType true r.2 r.1
    else s

/-- `ol_tx_flow_pool_unmap_handler`. -/
def unmapHandler (cfg : Cfg) (flowId flowType id : UInt8) (s : Pdev) : Pdev :=
  match getFlowPool s id with
  | some p => if flowType = flowTypeVdev then decPoolRef p (vdevUnmap cfg p flowId s) else s
  | none => s

/-- `ol_tx_flow_pool_update_queue_state`. -/
def updateQueueState (p : ℕ) (s : Pdev) : Pdev :=
  let pool := s.pool p
  if pool.startTh < pool.availDesc then
    let s := s.modPool p fun pool => { pool with status := .activeUnpaused }
    s.pauseCb pool.memberFlowId .wakeAllNetifQueue .dataFlowControl
  else if pool.availDesc < pool.stopTh ∧ pool.stopPriorityTh ≤ pool.availDesc then
    let s := s.modPool p fun pool => { pool with status := .nonPrioPaused }
    let s := s.pauseCb pool.memberFlowId .stopNonPriorityQueue .dataFlowControl
    s.pauseCb pool.memberFlowId .priorityQueueOn .dataFlowControl
  else if pool.availDesc < pool.stopPriorityTh then
    let s := s.modPool p fun pool => { pool with status := .activePaused }
    s.pauseCb pool.memberFlowId .stopAllNetifQueue .dataFlowControl
  else s

/-- `ol_tx_flow_pool_update`. -/
def FlowPool.update (cfg : Cfg) (size deficientCount overflowCount : ℕ) (pool : FlowPool) :
    FlowPool :=
  let pool := pool.setSize cfg size
  { pool with
    deficientDesc := if deficientCount = 0 then pool.deficientDesc else deficientCount
    overflowDesc := if overflowCount = 0 then pool.overflowDesc else overflowCount }

/-- The reduction in `ol_tx_flow_pool_resize`. -/
def shrink (cfg : Cfg) (p size : ℕ) (s : Pdev) : Pdev :=
  let pool := s.pool p
  let diff := u16 (pool.flowPoolSize - size + pool.overflowDesc)
  let temp := min pool.deficientDesc diff
  let diff := diff - temp
  let moveDescToGlobal :=
    if diff = 0 then 0
    else if diff + pool.startPriorityTh ≤ pool.availDesc then diff
    else if pool.startPriorityTh < pool.availDesc then pool.availDesc - pool.startPriorityTh
    else 0
  let overflowCount :=
    if diff = 0 then 0
    else if diff + pool.startPriorityTh ≤ pool.availDesc then 0
    else if pool.startPriorityTh < pool.availDesc then diff - moveDescToGlobal
    else 0
  let s := s.modPool p fun pool =>
    { pool with overflowDesc := 0, deficientDesc := pool.deficientDesc - temp }
  let (s, tempList) := takeFlowPool p moveDescToGlobal s []
  let s := s.modPool p (FlowPool.update cfg size 0 overflowCount)
  tempList.foldl putDescGlobalPool s

/-- The increase in `ol_tx_flow_pool_resize`. -/
def grow (cfg : Cfg) (p size : ℕ) (s : Pdev) : Pdev :=
  let pool := s.pool p
  let diff := u16 (size - pool.flowPoolSize + pool.deficientDesc)
  let temp := min pool.overflowDesc diff
  let diff := diff - temp
  let s := s.modPool p fun pool =>
    { pool with deficientDesc := 0, overflowDesc := pool.overflowDesc - temp }
  let moveDescFromGlobal := if diff ≤ s.numFree then diff else s.numFree
  let deficientCount := diff - moveDescFromGlobal
  let (s, tempList) := takeGlobalPool moveDescFromGlobal s []
  let s := tempList.foldl (putDescFlowPool p) s
  s.modPool p (FlowPool.update cfg size deficientCount 0)

/-- `ol_tx_flow_pool_resize`. -/
def resizePool (cfg : Cfg) (p size : ℕ) (s : Pdev) : Pdev :=
  let pool := s.pool p
  if pool.flowPoolSize = size then s
  else if size < pool.flowPoolSize then updateQueueState p (shrink cfg p size s)
  else updateQueueState p (grow cfg p size s)

/-- `ol_tx_flow_pool_resize_handler`. -/
def resizeHandler (cfg : Cfg) (id : UInt8) (size : UInt16) (s : Pdev) : Pdev :=
  match getFlowPool s id with
  | some p => decPoolRef p (resizePool cfg p size.toNat (incPoolRef p s))
  | none => s

/-- What taking a descriptor out of the pool does to the queues in `ol_tx_desc_alloc`. -/
def pauseOnAlloc (vdev : UInt8) (p : ℕ) (s : Pdev) : Pdev :=
  let pool := s.pool p
  if pool.availDesc < pool.stopTh ∧ pool.stopPriorityTh ≤ pool.availDesc ∧
      pool.status = .activeUnpaused then
    let s := s.modPool p fun pool => { pool with status := .nonPrioPaused }
    s.pauseCb vdev .stopNonPriorityQueue .dataFlowControl
  else if pool.availDesc < pool.stopPriorityTh ∧ pool.status = .nonPrioPaused then
    let s := s.modPool p fun pool => { pool with status := .activePaused }
    s.pauseCb vdev .priorityQueueOff .dataFlowControlPriority
  else s

/-- `ol_tx_desc_alloc` on a pool that is there. -/
def allocFrom (vdev : UInt8) (p : ℕ) (s : Pdev) : Pdev :=
  if (s.pool p).availDesc = 0 then s
  else
    let (s, ds) := takeFlowPool p 1 s []
    let s := pauseOnAlloc vdev p s
    { s with inUse := s.inUse ++ ds }

/-- `ol_tx_desc_alloc_wrapper`. There is no next state where the pool has been freed. -/
def descAlloc (vdev : UInt8) (mgmt : Bool) (s : Pdev) : Option Pdev :=
  match (if mgmt then s.mgmtPool else s.vdevPool vdev) with
  | none => some s
  | some p => if p ∈ s.flowPoolList then some (allocFrom vdev p s) else none

/-- `ol_tx_update_free_desc_to_pool`, and whether the descriptors are to be distributed. -/
def updateFreeDescToPool (p d : ℕ) (s : Pdev) : Pdev × Bool :=
  if (s.pool p).overflowDesc = 0 then (putDescFlowPool p s d, false)
  else
    ((putDescGlobalPool s d).modPool p fun pool =>
      { pool with overflowDesc := pool.overflowDesc - 1 }, true)

/-- What putting a descriptor does to the queues in `ol_tx_desc_free`. -/
def wakeOnFree (p : ℕ) (s : Pdev) : Pdev :=
  let pool := s.pool p
  match pool.status with
  | .activePaused =>
    if pool.startPriorityTh < pool.availDesc then
      let s := s.pauseCb pool.memberFlowId .priorityQueueOn .dataFlowControlPriority
      s.modPool p fun pool => { pool with status := .nonPrioPaused }
    else s
  | .nonPrioPaused =>
    if pool.startTh < pool.availDesc then
      let s := s.pauseCb pool.memberFlowId .wakeNonPriorityQueue .dataFlowControl
      s.modPool p fun pool => { pool with status := .activeUnpaused }
    else s
  | _ => s

/-- What follows from the status of the pool in `ol_tx_desc_free`. -/
def freeByStatus (p : ℕ) (distribute : Bool) (s : Pdev) : Pdev :=
  if (s.pool p).Complete then freeInvalidFlowPool p s
  else if distribute then distributeFromGlobal freeInvalidFlowPool (wakeOnFree p s)
  else wakeOnFree p s

/-- `ol_tx_desc_free` of a descriptor that is handed out. There is no next state where its pool
has been freed. -/
def descFree (d : ℕ) (s : Pdev) : Option Pdev :=
  match s.descPool d with
  | none => none
  | some p =>
    if p ∈ s.flowPoolList ∧ d ∈ s.inUse then
      let r := updateFreeDescToPool p d { s with inUse := s.inUse.erase d }
      some (freeByStatus p r.2 r.1)
    else none

inductive Event
  | map (flowId flowType id : UInt8) (size : UInt16) (mem : Bool)
  | unmap (flowId flowType id : UInt8)
  | resize (id : UInt8) (size : UInt16)
  | alloc (vdev : UInt8) (mgmt : Bool)
  | free (d : ℕ)

def next (cfg : Cfg) (s : Pdev) : Event → Option Pdev
  | .map flowId flowType id size mem => some (mapHandler cfg flowId flowType id size mem s)
  | .unmap flowId flowType id => some (unmapHandler cfg flowId flowType id s)
  | .resize id size => some (resizeHandler cfg id size s)
  | .alloc vdev mgmt => descAlloc vdev mgmt s
  | .free d => descFree d s

def machine (cfg : Cfg) : Machine (Option Pdev) Event Unit where
  step s e := (s.bind fun s => next cfg s e, [])

def mgmtPoolId : UInt8 := 0xef

def mgmtPoolSize : ℕ := 32

/-- All descriptors in the global pool, as `ol_txrx_pdev_post_attach` links them. -/
def attach (cfg : Cfg) : Pdev where
  numFree := cfg.numDesc.toNat
  freelist := List.range cfg.numDesc.toNat
  numInvalidBin := 0
  flowPoolList := []
  mgmtPool := none
  vdevPool _ := none
  pool _ := {}
  descPool _ := none
  queues _ := {}
  fresh := 0
  inUse := []
  freed := []

/-- `ol_tx_register_flow_control`. -/
def start (cfg : Cfg) : Pdev :=
  if cfg.mgmtOverWmi then attach cfg
  else
    let r := createFlowPool cfg (attach cfg) mgmtPoolId mgmtPoolSize
    { r.1 with mgmtPool := some r.2 }

end KernelModules.TxFlow
