import KernelModules.Bitmap
import KernelModules.WlanCommands

/-!
# Non-scan commands

At most one non-scan command of a vdev is active, and a blocking command is active alone on its
pdev. What cannot be active yet is pending, and the command that leaves the active list makes
room for pending ones.

The callback that activates a command is outside. The call of `activateCmd` is then under way,
and so are the lookups of pending commands that wait for it to return.
-/

namespace KernelModules.WlanSer

variable {m : ℕ}

/-- An `activateCmd` under way, with the turns left of the pdev lookups that go on after it, the
innermost first. -/
structure Activation where
  node : ℕ
  lookups : List ℕ

structure NonScan (m : ℕ) where
  pdevQ : PdevQueue m
  vdevQ : Fin m → VdevQueue
  activations : List Activation

/-- `1 << vdev_id`. -/
def vdevBit (v : Fin m) : BitVec 32 := Bitmap.bit 32 v.val

/-- The vdev list of active commands has room for `WLAN_SER_MAX_ACTIVE_CMDS` over
`WLAN_SER_MAX_VDEVS`, which is one. -/
def SerConfig.vdevMaxSize (c : SerConfig m) (v : Fin m) (isActive : Bool) : ℕ :=
  if isActive then 1 else c.vdevMaxPendingCmds v

def SerConfig.pdevMaxSize (c : SerConfig m) (isActive : Bool) : ℕ :=
  if isActive then m else c.maxPendingCmds

def SerConfig.cmdPoolSize (c : SerConfig m) : ℕ := m + c.maxPendingCmds

namespace PdevQueue

variable (q : PdevQueue m)

def vdevCmdActive (n : ℕ) : Bool :=
  (q.cmd n).vdev.any fun v => q.vdevActiveCmdBitmap &&& vdevBit v != 0

def setActive (isBlocking : Bool) (v : Fin m) : PdevQueue m :=
  { q with
    vdevActiveCmdBitmap := q.vdevActiveCmdBitmap ||| vdevBit v
    blockingCmdActive := isBlocking || q.blockingCmdActive }

def clearActive (isBlocking : Bool) (v : Fin m) : PdevQueue m :=
  { q with
    vdevActiveCmdBitmap := q.vdevActiveCmdBitmap &&& ~~~vdevBit v
    blockingCmdActive := !isBlocking && q.blockingCmdActive }

def markForActivation (n : ℕ) : PdevQueue m :=
  q.setInUse n { (q.cmds n).cmdInUse with markedForActivation := true }

/-- `wlan_serialization_is_active_non_scan_cmd_allowed`, which counts a blocking command that
has to wait. The counter is copied into a `uint8_t`. -/
def isActiveNonScanCmdAllowed (cmd : Cmd m) (v : Fin m) : Bool × PdevQueue m :=
  if cmd.isBlocking then
    if q.vdevActiveCmdBitmap ≠ 0 then (false, q.setWaiting (q.blockingCmdWaiting + 1))
    else (true, q)
  else if q.blockingCmdActive || q.blockingCmdWaiting.toUInt8 != 0 then (false, q)
  else (q.vdevActiveCmdBitmap &&& vdevBit v == 0, q)

/-- A pdev lookup with some turns left, on the rest of the pending list. It finds the next
command to activate, and the turns then left. -/
def nextPending : ℕ → List ℕ → Option (ℕ × ℕ)
  | _, [] => none
  | 0, _ :: _ => none
  | qsize + 1, n :: rest =>
    if (q.cmd n).isBlocking && q.vdevActiveCmdBitmap != 0 then none
    else if q.vdevCmdActive n then nextPending qsize rest
    else some (n, qsize)

end PdevQueue

namespace NonScan

variable (c : SerConfig m) (s : NonScan m)

def setPdev (q : PdevQueue m) : NonScan m := { s with pdevQ := q }

def setVdev (v : Fin m) (vq : VdevQueue) : NonScan m :=
  { s with vdevQ := Function.update s.vdevQ v vq }

def awaitActivation (n : ℕ) (lookups : List ℕ) : NonScan m :=
  { s with activations := s.activations ++ [⟨n, lookups⟩] }

def init : NonScan m where
  pdevQ := PdevQueue.init m c.cmdPoolSize
  vdevQ := fun _ => { activeList := [], pendingList := [], queueDisable := false }
  activations := []

/-- `wlan_serialization_add_cmd_to_vdev_queue`. -/
def addCmdToVdevQueue (n : ℕ) (v : Fin m) (isActive : Bool) : Bool × NonScan m :=
  let cmd := s.pdevQ.cmd n
  let vq := { s.vdevQ v with queueDisable := cmd.queueDisable || (s.vdevQ v).queueDisable }
  match addCmdToQueue (c.vdevMaxSize v isActive) cmd n (vq.list isActive) with
  | none => (false, s.setVdev v vq)
  | some queue => (true, s.setVdev v (vq.setList isActive queue))

/-- `wlan_serialization_remove_cmd_from_vdev_queue`. -/
def removeCmdFromVdevQueue (cmd : Cmd m) (isActive : Bool) : Removal × NonScan m :=
  match cmd.vdev with
  | none => (.notFound, s)
  | some v =>
    match removeCmdFromQueue s.pdevQ.cmds ((s.vdevQ v).list isActive) cmd with
    | .notFound => (.notFound, s)
    | .marked n =>
      (.marked n, s.setPdev (s.pdevQ.setInUse n
        { (s.pdevQ.cmds n).cmdInUse with activeMarkedForRemoval := true }))
    | .removed n =>
      (.removed n, s.setVdev v
        ((s.vdevQ v).setList isActive (((s.vdevQ v).list isActive).erase n)))

/-- `wlan_ser_add_non_scan_cmd`; a command that the pdev list has no room for is taken from the
vdev list again. -/
def addNonScanCmd (n : ℕ) (isActive : Bool) : SerStatus × NonScan m :=
  match (s.pdevQ.cmd n).vdev with
  | none => (.deniedUnspecified, s)
  | some v =>
    match s.addCmdToVdevQueue c n v isActive with
    | (false, s₁) => (.deniedListFull, s₁)
    | (true, s₁) =>
      let isBlocking := (s₁.pdevQ.cmd n).isBlocking
      match s₁.pdevQ.addCmd (c.pdevMaxSize isActive) n isActive with
      | none =>
        let s₂ := (s₁.removeCmdFromVdevQueue (s₁.pdevQ.cmd n) isActive).2
        (.deniedListFull,
          if isActive then s₂.setPdev (s₂.pdevQ.setActive isBlocking v) else s₂)
      | some q =>
        if isActive then (.active, s₁.setPdev (q.setActive isBlocking v))
        else (.pending, s₁.setPdev q)

/-- `wlan_ser_remove_non_scan_cmd`. -/
def removeNonScanCmd (cmd : Cmd m) (isActive : Bool) : Removal × NonScan m :=
  match s.removeCmdFromVdevQueue cmd isActive, cmd.vdev with
  | (.removed _, s₁), some v =>
    match s₁.pdevQ.removeCmd cmd isActive with
    | (.removed n, q) =>
      (.removed n, s₁.setPdev (if isActive then q.clearActive (q.cmd n).isBlocking v else q))
    | (_, q) => (.notFound, s₁.setPdev q)
  | (r, s₁), _ => (r, s₁)

/-- One turn of `wlan_ser_move_non_scan_pending_to_active`, up to the activation. -/
def moveCmd (n : ℕ) : Option ℕ × NonScan m :=
  match s.removeNonScanCmd (s.pdevQ.cmd n) false with
  | (.removed k, s₁) =>
    match s₁.addNonScanCmd c k true with
    | (.active, s₂) =>
      let q := s₂.pdevQ.markForActivation k
      (some k, s₂.setPdev
        (if (q.cmd k).isBlocking then q.setWaiting (q.blockingCmdWaiting - 1) else q))
    | (_, s₂) => (none, s₂.setPdev (s₂.pdevQ.setPool (s₂.pdevQ.cmdPoolList ++ [k])))
  | (_, s₁) => (none, s₁)

/-- A pdev lookup; `done` is what follows when it is over, `lookups` are those after it. -/
def pdevLookup (qsize : ℕ) (lookups : List ℕ) (done : NonScan m → NonScan m) : NonScan m :=
  match s.pdevQ.nextPending qsize s.pdevQ.pendingList with
  | none => done s
  | some (n, left) =>
    match s.moveCmd c n with
    | (some k, s₁) => s₁.awaitActivation k (left :: lookups)
    | (none, s₁) => done s₁

def resumeLookups : List ℕ → NonScan m → NonScan m
  | [], s => s
  | qsize :: lookups, s =>
    if s.pdevQ.blockingCmdActive then resumeLookups lookups s
    else s.pdevLookup c qsize lookups (resumeLookups lookups)

/-- `wlan_ser_move_non_scan_pending_to_active`. -/
def moveNonScanPendingToActive (v : Fin m) (blockingCmdRemoved : Bool) (lookups : List ℕ) :
    NonScan m :=
  if !blockingCmdRemoved && s.pdevQ.blockingCmdWaiting == 0 then
    match (s.vdevQ v).pendingList with
    | [] => resumeLookups c lookups s
    | n :: _ =>
      if s.pdevQ.vdevCmdActive n then resumeLookups c lookups s
      else
        match s.moveCmd c n with
        | (some k, s₁) => s₁.awaitActivation k lookups
        | (none, s₁) => resumeLookups c lookups s₁
  else s.pdevLookup c s.pdevQ.pendingList.length lookups (resumeLookups c lookups)

/-- The part of `wlan_ser_cancel_non_scan_cmd` for a command that is cancelled. -/
def dropCmd (isActive : Bool) (n : ℕ) : NonScan m :=
  let cmd := s.pdevQ.cmd n
  match cmd.vdev with
  | none => s
  | some v =>
    let vq := s.vdevQ v
    let q := (s.pdevQ.setList isActive ((s.pdevQ.list isActive).erase n)).release n
    (s.setVdev v (vq.setList isActive ((vq.list isActive).erase n))).setPdev
      (if isActive then q.clearActive cmd.isBlocking v
      else if cmd.isBlocking then q.setWaiting (q.blockingCmdWaiting - 1)
      else q)

def markForCancel (n : ℕ) : NonScan m :=
  s.setPdev (s.pdevQ.setInUse n
    { (s.pdevQ.cmds n).cmdInUse with activeMarkedForCancel := true })

def cancelOps (r : CancelArgs m) (isActive : Bool) (stopTimer : ℕ → Bool) :
    CancelOps (NonScan m) where
  queue s := s.pdevQ.list isActive
  isMatch s n := r.isMatch (s.pdevQ.cmds n)
  marked s n := (s.pdevQ.cmds n).cmdInUse.markedForActivation
  mark n s := s.markForCancel n
  drop n s := s.dropCmd isActive n
  stopTimer := stopTimer
  isActiveQueue := isActive
  single := !r.pdev && r.vdev.isNone

/-- `wlan_ser_cancel_non_scan_cmd`. -/
def cancelNonScanCmd (r : CancelArgs m) (isActive : Bool) (stopTimer : ℕ → Bool) :
    CmdStatus × NonScan m :=
  cancelLoop (cancelOps r isActive stopTimer) (s.pdevQ.list isActive).length none none .notFound s

end NonScan

end KernelModules.WlanSer
