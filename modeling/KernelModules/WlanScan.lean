import KernelModules.WlanCommands

/-!
# Scans

The scans of all the pdevs of a psoc together are limited. A pdev has one list of active and one
of pending scans, the vdevs have none.
-/

namespace KernelModules.WlanSer

variable {m : ℕ}

/-- The scan queue of a pdev, with the nodes whose `activateCmd` is under way. -/
structure Scan (m : ℕ) where
  pdevQ : PdevQueue m
  activations : List ℕ

def scanMaxSize (isActive : Bool) : ℕ := if isActive then maxActiveScanCmds else maxPendingScanCmds

abbrev scanPoolSize : ℕ := maxActiveScanCmds + maxPendingScanCmds

/-- `wlan_serialization_is_active_scan_cmd_allowed`: the scans active on the other pdevs count as
well. -/
def PdevQueue.isActiveScanCmdAllowed (q : PdevQueue m) (maxActiveScans others : ℕ) : Bool :=
  decide (others + q.activeList.length < maxActiveScans)

namespace Scan

variable (s : Scan m)

def setPdev (q : PdevQueue m) : Scan m := { s with pdevQ := q }

def init (m : ℕ) : Scan m where
  pdevQ := PdevQueue.init m scanPoolSize
  activations := []

def awaitActivation (n : ℕ) : Scan m := { s with activations := s.activations ++ [n] }

/-- `wlan_ser_move_scan_pending_to_active`. -/
def moveScanPendingToActive (maxActiveScans others : ℕ) : Scan m :=
  match s.pdevQ.pendingList with
  | [] => s
  | n :: _ =>
    if s.pdevQ.isActiveScanCmdAllowed maxActiveScans others then
      match s.pdevQ.removeCmd (s.pdevQ.cmd n) false with
      | (.removed k, q) =>
        match q.addCmd (scanMaxSize true) k true with
        | some q' =>
          (s.setPdev (q'.setInUse k
            { (q'.cmds k).cmdInUse with markedForActivation := true })).awaitActivation k
        | none => s.setPdev (q.setPool (q.cmdPoolList ++ [k]))
      | (_, q) => s.setPdev q
    else s

/-- The part of `wlan_ser_cancel_scan_cmd` for a command that is cancelled. -/
def dropCmd (isActive : Bool) (n : ℕ) : Scan m :=
  s.setPdev ((s.pdevQ.setList isActive ((s.pdevQ.list isActive).erase n)).release n)

def markForCancel (n : ℕ) : Scan m :=
  s.setPdev (s.pdevQ.setInUse n
    { (s.pdevQ.cmds n).cmdInUse with activeMarkedForCancel := true })

def cancelOps (r : CancelArgs m) (isActive : Bool) (stopTimer : ℕ → Bool) : CancelOps (Scan m) where
  queue s := s.pdevQ.list isActive
  isMatch s n := r.isMatch (s.pdevQ.cmds n)
  marked s n := (s.pdevQ.cmds n).cmdInUse.markedForActivation
  mark n s := s.markForCancel n
  drop n s := s.dropCmd isActive n
  stopTimer := stopTimer
  isActiveQueue := isActive
  single := false

/-- `wlan_ser_cancel_scan_cmd`. -/
def cancelScanCmd (r : CancelArgs m) (isActive : Bool) (stopTimer : ℕ → Bool) :
    CmdStatus × Scan m :=
  cancelLoop (cancelOps r isActive stopTimer) (s.pdevQ.list isActive).length none none .notFound s

end Scan

end KernelModules.WlanSer
