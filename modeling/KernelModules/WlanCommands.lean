import Mathlib.Data.List.Nodup

/-!
# Commands of the WLAN serialization component

A command sits in a node. Each of the two queues of a pdev has its own nodes; a node is in the
pool, in the active list or in the pending list, and one of a non-scan command is linked into
the list of its vdev as well.

The callbacks of the component that issued a command are the environment. Only the one that
activates a command may call back into serialization; the others release what the command holds.
-/

namespace KernelModules.WlanSer

inductive CmdType
  | scan
  | nonscan
  | hddIssueReassocSameAp
  | smeIssueReassocSameAp
  | smeIssueDisassocForHandoff
  | smeIssueAssocToSimilarAp
  | forceIbssLeave
  | smeIssueFtReassoc
  | forceDisassocSta
  | forceDeauthSta
  | performPreAuth
  | wmStatusChange
  | ndpInitReq
  | ndpRespReq
  | ndpDataEndInitReq
  | ndpEndAllReq
  | addts
  | delts
  | tdlsSendMgmt
  | tdlsAddPeer
  | tdlsDelPeer
  | setHwMode
  | nssUpdate
  | setDualMacConfig
  | setAntennaMode
  | vdevDelete
  | vdevStartBss
  | vdevStopBss
  | vdevConnect
  | vdevDisconnect
  | vdevRestart
  | pdevRestart
  | pdevCsaRestart
  | getDisconnectStats
  deriving DecidableEq

/-- `cmd_type < WLAN_SER_CMD_NONSCAN`. -/
def CmdType.isScan : CmdType → Bool
  | .scan => true
  | _ => false

/-- `cmd_type > WLAN_SER_CMD_NONSCAN`. -/
def CmdType.isSpecific : CmdType → Bool
  | .scan => false
  | .nonscan => false
  | _ => true

inductive SerStatus
  | pending
  | active
  | deniedRulesFailed
  | deniedListFull
  | queueDisabled
  | deniedUnspecified
  deriving DecidableEq

inductive CmdStatus
  | inPendingList
  | inActiveList
  | inAllLists
  | markedForActivation
  | notFound
  deriving DecidableEq

/-- `struct wlan_serialization_command`; its default is the one with all bytes zero. -/
structure Cmd (m : ℕ) where
  cmdType : CmdType := .scan
  cmdId : UInt32 := 0
  cmdCb : Bool := false
  isHighPriority : Bool := false
  isBlocking : Bool := false
  queueDisable : Bool := false
  vdev : Option (Fin m) := none

/-- The bits of `cmd_in_use`. -/
structure CmdInUse where
  markedForActivation : Bool := false
  isActive : Bool := false
  activeMarkedForCancel : Bool := false
  activeMarkedForRemoval : Bool := false

structure CommandList (m : ℕ) where
  cmd : Cmd m := {}
  cmdInUse : CmdInUse := {}

structure PdevQueue (m : ℕ) where
  activeList : List ℕ
  pendingList : List ℕ
  cmdPoolList : List ℕ
  cmds : ℕ → CommandList m
  vdevActiveCmdBitmap : BitVec 32
  blockingCmdActive : Bool
  blockingCmdWaiting : UInt16

structure VdevQueue where
  activeList : List ℕ
  pendingList : List ℕ
  queueDisable : Bool

/-- What the build and the vdevs' modes decide. The driver's Kbuild gives every count of vdevs
the value of `CONFIG_WLAN_MAX_VDEVS`, 6 if nothing else is said; the sizes of the pending lists
pass through a `uint8_t`. -/
structure SerConfig (m : ℕ) where
  maxVdevs_le : m ≤ 32
  maxPendingCmds : ℕ
  maxPendingCmds_lt : maxPendingCmds < 256
  vdevMaxPendingCmds : Fin m → ℕ

def defaultConfig : SerConfig 6 where
  maxVdevs_le := by decide
  maxPendingCmds := 24
  maxPendingCmds_lt := by decide
  vdevMaxPendingCmds := fun _ => 4

variable {m : ℕ}

abbrev maxActiveScanCmds : ℕ := 8

abbrev maxPendingScanCmds : ℕ := 24

namespace PdevQueue

variable (q : PdevQueue m)

def cmd (n : ℕ) : Cmd m := (q.cmds n).cmd

/-- `wlan_serialization_get_list_from_pdev_queue`. -/
def list (isActive : Bool) : List ℕ :=
  if isActive then q.activeList else q.pendingList

def setList (isActive : Bool) (queue : List ℕ) : PdevQueue m :=
  if isActive then { q with activeList := queue } else { q with pendingList := queue }

def setCmd (n : ℕ) (cmd : Cmd m) : PdevQueue m :=
  { q with cmds := Function.update q.cmds n { q.cmds n with cmd := cmd } }

def setInUse (n : ℕ) (inUse : CmdInUse) : PdevQueue m :=
  { q with cmds := Function.update q.cmds n { q.cmds n with cmdInUse := inUse } }

def setPool (pool : List ℕ) : PdevQueue m := { q with cmdPoolList := pool }

def setWaiting (waiting : UInt16) : PdevQueue m := { q with blockingCmdWaiting := waiting }

def release (n : ℕ) : PdevQueue m :=
  { q with cmds := Function.update q.cmds n {}, cmdPoolList := q.cmdPoolList ++ [n] }

def init (m poolSize : ℕ) : PdevQueue m where
  activeList := []
  pendingList := []
  cmdPoolList := List.range poolSize
  cmds := fun _ => {}
  vdevActiveCmdBitmap := 0
  blockingCmdActive := false
  blockingCmdWaiting := 0

@[simp] theorem list_true : q.list true = q.activeList := rfl

@[simp] theorem list_false : q.list false = q.pendingList := rfl

theorem list_setList (a b : Bool) (queue : List ℕ) :
    (q.setList a queue).list b = if b = a then queue else q.list b := by
  cases a <;> cases b <;> rfl

@[simp] theorem cmds_setList (a : Bool) (queue : List ℕ) : (q.setList a queue).cmds = q.cmds := by
  cases a <;> rfl

@[simp] theorem pool_setList (a : Bool) (queue : List ℕ) :
    (q.setList a queue).cmdPoolList = q.cmdPoolList := by
  cases a <;> rfl

end PdevQueue

def VdevQueue.list (q : VdevQueue) (isActive : Bool) : List ℕ :=
  if isActive then q.activeList else q.pendingList

def VdevQueue.setList (q : VdevQueue) (isActive : Bool) (queue : List ℕ) : VdevQueue :=
  if isActive then { q with activeList := queue } else { q with pendingList := queue }

@[simp] theorem VdevQueue.list_false (q : VdevQueue) : q.list false = q.pendingList := rfl

theorem VdevQueue.list_setList (q : VdevQueue) (a b : Bool) (queue : List ℕ) :
    (q.setList a queue).list b = if b = a then queue else q.list b := by
  cases a <;> cases b <;> rfl

/-- `WLAN_SER_MATCH_CMD_ID_VDEV`. -/
def CommandList.isMatch (node : CommandList m) (cmd : Cmd m) : Bool :=
  node.cmd.cmdId == cmd.cmdId && node.cmd.cmdType == cmd.cmdType && node.cmd.vdev == cmd.vdev

/-- `wlan_serialization_find_cmd` for a command. -/
def findCmd (cmds : ℕ → CommandList m) (queue : List ℕ) (cmd : Cmd m) : Option ℕ :=
  queue.find? fun n => (cmds n).isMatch cmd

/-- `wlan_serialization_add_cmd_to_queue`; the list is left alone when it is full. -/
def addCmdToQueue (maxSize : ℕ) (cmd : Cmd m) (n : ℕ) (queue : List ℕ) : Option (List ℕ) :=
  if queue.length = maxSize then none
  else if cmd.isHighPriority then some (n :: queue)
  else some (queue ++ [n])

inductive Removal
  | notFound
  | marked (n : ℕ)
  | removed (n : ℕ)

/-- `wlan_serialization_remove_cmd_from_queue`; a command whose activation is under way is only
marked. -/
def removeCmdFromQueue (cmds : ℕ → CommandList m) (queue : List ℕ) (cmd : Cmd m) : Removal :=
  match findCmd cmds queue cmd with
  | none => .notFound
  | some n => if (cmds n).cmdInUse.markedForActivation then .marked n else .removed n

/-- `wlan_serialization_get_cmd_from_queue`. -/
def getCmdFromQueue (queue : List ℕ) : Option ℕ → Option ℕ
  | none => queue.head?
  | some n => (queue.dropWhile (· ≠ n)).tail.head?

namespace PdevQueue

variable (q : PdevQueue m)

/-- `wlan_serialization_remove_cmd_from_pdev_queue`. -/
def removeCmd (cmd : Cmd m) (isActive : Bool) : Removal × PdevQueue m :=
  match removeCmdFromQueue q.cmds (q.list isActive) cmd with
  | .notFound => (.notFound, q)
  | .marked n =>
    (.marked n, q.setInUse n { (q.cmds n).cmdInUse with activeMarkedForRemoval := true })
  | .removed n => (.removed n, q.setList isActive ((q.list isActive).erase n))

/-- `wlan_serialization_add_cmd_to_pdev_queue`. -/
def addCmd (maxSize n : ℕ) (isActive : Bool) : Option (PdevQueue m) :=
  (addCmdToQueue maxSize (q.cmd n) n (q.list isActive)).map (q.setList isActive)

end PdevQueue

/-- The arguments of `wlan_ser_cancel_scan_cmd` and `wlan_ser_cancel_non_scan_cmd`. The commands
of a queue are of the vdevs of its pdev, so a pdev given matches them all. -/
structure CancelArgs (m : ℕ) where
  pdev : Bool
  vdev : Option (Fin m)
  cmd : Option (Cmd m)
  cmdType : CmdType
  attrNonblock : Bool := false

def CancelArgs.isMatch (r : CancelArgs m) (node : CommandList m) : Bool :=
  r.cmd.all (fun cmd => node.cmd.cmdId == cmd.cmdId && node.cmd.cmdType == cmd.cmdType) &&
  r.vdev.all (fun v => node.cmd.vdev == some v) &&
  !(r.cmdType.isSpecific && r.vdev.isSome && node.cmd.cmdType != r.cmdType) &&
  !(r.attrNonblock && node.cmd.isBlocking)

theorem CancelArgs.isMatch_congr (r : CancelArgs m) {node node' : CommandList m}
    (h : node'.cmd = node.cmd) : r.isMatch node' = r.isMatch node := by
  rw [CancelArgs.isMatch, h, CancelArgs.isMatch]

/-- What the loop of the two cancel functions reads and does on its queue. -/
structure CancelOps (σ : Type) where
  queue : σ → List ℕ
  isMatch : σ → ℕ → Bool
  marked : σ → ℕ → Bool
  mark : ℕ → σ → σ
  drop : ℕ → σ → σ
  stopTimer : ℕ → Bool
  isActiveQueue : Bool
  single : Bool

/-- The loop with `qsize` turns left. After a removal it goes on behind `pnode`, the last node
that did not match. -/
def cancelLoop {σ : Type} (o : CancelOps σ) :
    ℕ → Option ℕ → Option ℕ → CmdStatus → σ → CmdStatus × σ
  | 0, _, _, status, s => (status, s)
  | qsize + 1, nnode, pnode, status, s =>
    if o.queue s = [] then (status, s)
    else
      match getCmdFromQueue (o.queue s) nnode with
      | none => (.notFound, s)
      | some n =>
        if o.isMatch s n = false then cancelLoop o qsize (some n) (some n) status s
        else if o.isActiveQueue && o.marked s n then
          cancelLoop o qsize (some n) pnode .markedForActivation (o.mark n s)
        else if o.isActiveQueue && !o.stopTimer n then (.notFound, s)
        else
          let status' : CmdStatus := if o.isActiveQueue then .inActiveList else .inPendingList
          if o.single then (status', o.drop n s)
          else cancelLoop o qsize pnode pnode status' (o.drop n s)

end KernelModules.WlanSer
