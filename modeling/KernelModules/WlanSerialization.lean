import KernelModules.Machine
import KernelModules.WlanNonScan
import KernelModules.WlanScan
import Mathlib.Algebra.BigOperators.Group.Finset.Basic

/-!
# The WLAN serialization component

A component requests a command, removes it when it is done, or cancels it; a timer removes one that
takes too long. A command becomes active at once, or it is pending until another one leaves the
active list.

The calls on one pdev run one at a time, except that an activation returns some time after it
was started. Whether it succeeded, what the rules say of a request and whether the timer of a
command is there to be stopped comes from outside.
-/

namespace KernelModules.WlanSer

variable {m : ℕ}

/-- `cmd_in_use` when `activateCmd` is back from the callback. -/
def CmdInUse.activated (u : CmdInUse) : CmdInUse :=
  { u with markedForActivation := false, isActive := true }

def activationCancel (cmd : Cmd m) : CancelArgs m where
  pdev := false
  vdev := none
  cmd := some cmd
  cmdType := cmd.cmdType

namespace NonScan

variable (c : SerConfig m) (s : NonScan m)

/-- `wlan_serialization_enqueue_cmd` for a request of a non-scan command. -/
def enqueueCmd (cmd : Cmd m) (v : Fin m) : SerStatus × NonScan m :=
  if (s.vdevQ v).queueDisable then (.queueDisabled, s)
  else
    let allowed := s.pdevQ.isActiveNonScanCmdAllowed cmd v
    let s₁ := s.setPdev allowed.2
    let activeQueue := allowed.1 && (s.vdevQ v).pendingList.isEmpty
    if (findCmd s.pdevQ.cmds ((s.vdevQ v).list activeQueue) cmd).isSome then
      (.deniedUnspecified, s₁)
    else
      match s.pdevQ.cmdPoolList with
      | [] => (.deniedListFull, s₁)
      | n :: pool =>
        match (s₁.setPdev ((s₁.pdevQ.setPool pool).setCmd n cmd)).addNonScanCmd c n
          activeQueue with
        | (.active, s₂) =>
          (.active, (s₂.setPdev (s₂.pdevQ.markForActivation n)).awaitActivation n [])
        | (.pending, s₂) => (.pending, s₂)
        | (status, s₂) => (status, s₂.setPdev (s₂.pdevQ.release n))

/-- `wlan_serialization_dequeue_cmd` for an active command, called with some lookups waiting. -/
def dequeueCmd (cmd : Cmd m) (lookups : List ℕ) : CmdStatus × NonScan m :=
  match s.removeNonScanCmd cmd true with
  | (.notFound, s₁) => (.notFound, resumeLookups c lookups s₁)
  | (.marked _, s₁) => (.markedForActivation, resumeLookups c lookups s₁)
  | (.removed n, s₁) =>
    let bkup := s₁.pdevQ.cmd n
    let s₂ := s₁.setPdev (s₁.pdevQ.release n)
    (.inActiveList,
      match bkup.vdev with
      | none => resumeLookups c lookups s₂
      | some v => s₂.moveNonScanPendingToActive c v bkup.isBlocking lookups)

/-- `wlan_serialization_activate_cmd` from where the callback returned, or the timer did not
start. -/
def activateCmd (a : Activation) (ok : Bool) (stopTimer : ℕ → Bool) : NonScan m :=
  let s₁ := s.setPdev (s.pdevQ.setInUse a.node (s.pdevQ.cmds a.node).cmdInUse.activated)
  let cmd := s.pdevQ.cmd a.node
  if ok = false then (s₁.dequeueCmd c cmd a.lookups).2
  else if (s.pdevQ.cmds a.node).cmdInUse.activeMarkedForRemoval then
    (s₁.dequeueCmd c cmd a.lookups).2
  else if (s.pdevQ.cmds a.node).cmdInUse.activeMarkedForCancel then
    resumeLookups c a.lookups (s₁.cancelNonScanCmd (activationCancel cmd) true stopTimer).2
  else resumeLookups c a.lookups s₁

def activated (i : ℕ) (ok : Bool) (stopTimer : ℕ → Bool) : NonScan m :=
  match s.activations[i]? with
  | none => s
  | some a => { s with activations := s.activations.eraseIdx i }.activateCmd c a ok stopTimer

end NonScan

namespace Scan

variable (maxActiveScans others : ℕ) (s : Scan m)

/-- `wlan_serialization_enqueue_cmd` for a scan. -/
def enqueueCmd (cmd : Cmd m) : SerStatus × Scan m :=
  let q := s.pdevQ
  let activeQueue := q.isActiveScanCmdAllowed maxActiveScans others && q.pendingList.isEmpty
  if (findCmd q.cmds (q.list activeQueue) cmd).isSome then (.deniedUnspecified, s)
  else
    match q.cmdPoolList with
    | [] => (.deniedListFull, s)
    | n :: pool =>
      let q₁ := (q.setPool pool).setCmd n cmd
      match q₁.addCmd (scanMaxSize activeQueue) n activeQueue with
      | none => (.deniedListFull, s.setPdev (q₁.release n))
      | some q₂ =>
        if activeQueue then
          (.active, (s.setPdev (q₂.setInUse n
            { (q₂.cmds n).cmdInUse with markedForActivation := true })).awaitActivation n)
        else (.pending, s.setPdev q₂)

/-- `wlan_serialization_dequeue_cmd` for an active scan. -/
def dequeueCmd (cmd : Cmd m) : CmdStatus × Scan m :=
  match s.pdevQ.removeCmd cmd true with
  | (.notFound, q) => (.notFound, s.setPdev q)
  | (.marked _, q) => (.markedForActivation, s.setPdev q)
  | (.removed n, q) =>
    (.inActiveList, (s.setPdev (q.release n)).moveScanPendingToActive maxActiveScans others)

/-- The cancel of a scan that was marked while `activateCmd` was under way. Its pattern is the command
in the node itself, which is zeroed when the node is dropped. -/
def cancelOwnCmd (n : ℕ) (stopTimer : ℕ → Bool) : CmdStatus × Scan m :=
  cancelLoop { cancelOps (activationCancel (s.pdevQ.cmd n)) true stopTimer with
      isMatch := fun t k => (activationCancel (t.pdevQ.cmd n)).isMatch (t.pdevQ.cmds k) }
    (s.pdevQ.list true).length none none .notFound s

/-- `wlan_serialization_activate_cmd`, as for the non-scan commands. -/
def activateCmd (n : ℕ) (ok : Bool) (stopTimer : ℕ → Bool) : Scan m :=
  let s₁ := s.setPdev (s.pdevQ.setInUse n (s.pdevQ.cmds n).cmdInUse.activated)
  let cmd := s.pdevQ.cmd n
  if ok = false then (s₁.dequeueCmd maxActiveScans others cmd).2
  else if (s.pdevQ.cmds n).cmdInUse.activeMarkedForRemoval then
    (s₁.dequeueCmd maxActiveScans others cmd).2
  else if (s.pdevQ.cmds n).cmdInUse.activeMarkedForCancel then
    (s₁.cancelOwnCmd n stopTimer).2
  else s₁

def activated (i : ℕ) (ok : Bool) (stopTimer : ℕ → Bool) : Scan m :=
  match s.activations[i]? with
  | none => s
  | some n =>
    { s with activations := s.activations.eraseIdx i }.activateCmd maxActiveScans others n ok
      stopTimer

end Scan

structure SerPdev (m : ℕ) where
  scan : Scan m
  nonScan : NonScan m

inductive CancelType
  | singleScan
  | pdevScans
  | vdevScans
  | vdevHostScans
  | pdevNonScanCmd
  | vdevNonScanCmd
  | vdevNonScanCmdType
  | vdevNonScanNbCmd
  | nonScanCmd

/-- `struct wlan_serialization_queued_cmd_info`. -/
structure QueuedCmdInfo (m : ℕ) where
  cmdType : CmdType
  cmdId : UInt32
  vdev : Option (Fin m)

def QueuedCmdInfo.cmd (info : QueuedCmdInfo m) : Cmd m :=
  { cmdType := info.cmdType, cmdId := info.cmdId, vdev := info.vdev }

/-- What `wlan_serialization_find_and_cancel_cmd` passes on for each type of request. -/
def CancelType.args (info : QueuedCmdInfo m) : CancelType → CancelArgs m
  | .singleScan => ⟨false, none, some info.cmd, .scan, false⟩
  | .pdevScans => ⟨true, none, none, .scan, false⟩
  | .vdevScans => ⟨false, info.vdev, none, .scan, false⟩
  | .vdevHostScans => ⟨false, info.vdev, none, .scan, false⟩
  | .nonScanCmd => ⟨false, none, some info.cmd, .nonscan, false⟩
  | .pdevNonScanCmd => ⟨true, none, none, .nonscan, false⟩
  | .vdevNonScanCmd => ⟨false, info.vdev, none, .nonscan, false⟩
  | .vdevNonScanCmdType => ⟨false, info.vdev, none, info.cmdType, false⟩
  | .vdevNonScanNbCmd => ⟨false, info.vdev, none, .nonscan, true⟩

inductive Input (m : ℕ)
  | request (cmd : Cmd m) (rulesPass : Bool)
  | removeCmd (info : QueuedCmdInfo m)
  | timerCb (cmd : Cmd m)
  | cancelRequest (info : QueuedCmdInfo m) (reqType : CancelType) (activeQueue pendingQueue : Bool)
      (stopTimer : ℕ → Bool)
  | nonScanActivated (i : ℕ) (ok : Bool) (stopTimer : ℕ → Bool)
  | scanActivated (i : ℕ) (ok : Bool) (stopTimer : ℕ → Bool)
  | vdevQueueDisable (v : Fin m)
  | purgeAllPdevCmd (stopTimer : ℕ → Bool)
  | purgeAllPendingCmdByVdevId (v : Fin m)
  | purgeAllScanCmdByVdevId (v : Fin m) (stopTimer : ℕ → Bool)

inductive Reply
  | request (status : SerStatus)
  | dequeue (status : CmdStatus)
  | cancel (status : CmdStatus)
  deriving DecidableEq

namespace SerPdev

variable (c : SerConfig m) (maxActiveScans others : ℕ) (s : SerPdev m)

def init : SerPdev m where
  scan := Scan.init m
  nonScan := NonScan.init c

def enqueueCmd (cmd : Cmd m) : SerStatus × SerPdev m :=
  match cmd.vdev with
  | none => (.deniedUnspecified, s)
  | some v =>
    if cmd.cmdCb = false then (.deniedUnspecified, s)
    else if cmd.cmdType.isScan then
      let r := s.scan.enqueueCmd maxActiveScans others cmd
      (r.1, { s with scan := r.2 })
    else
      let r := s.nonScan.enqueueCmd c cmd v
      (r.1, { s with nonScan := r.2 })

/-- `wlan_serialization_request`. -/
def request (cmd : Cmd m) (rulesPass : Bool) : SerStatus × SerPdev m :=
  if cmd.vdev = none then (.deniedUnspecified, s)
  else if rulesPass = false then (.deniedRulesFailed, s)
  else s.enqueueCmd c maxActiveScans others cmd

def dequeueCmd (cmd : Cmd m) : CmdStatus × SerPdev m :=
  if cmd.vdev = none then (.notFound, s)
  else if cmd.cmdType.isScan then
    let r := s.scan.dequeueCmd maxActiveScans others cmd
    (r.1, { s with scan := r.2 })
  else
    let r := s.nonScan.dequeueCmd c cmd []
    (r.1, { s with nonScan := r.2 })

/-- One of the two cancel functions, by the type. -/
def cancelCmd (r : CancelArgs m) (isActive : Bool) (stopTimer : ℕ → Bool) :
    CmdStatus × SerPdev m :=
  if r.cmdType.isScan then
    let x := s.scan.cancelScanCmd r isActive stopTimer
    (x.1, { s with scan := x.2 })
  else
    let x := s.nonScan.cancelNonScanCmd r isActive stopTimer
    (x.1, { s with nonScan := x.2 })

/-- `wlan_serialization_cmd_cancel_handler`. -/
def cmdCancelHandler (r : CancelArgs m) (activeQueue pendingQueue : Bool) (stopTimer : ℕ → Bool) :
    CmdStatus × SerPdev m :=
  let x := if activeQueue then s.cancelCmd r true stopTimer else (.notFound, s)
  let y := if pendingQueue then x.2.cancelCmd r false stopTimer else (.notFound, x.2)
  (if x.1 = .inActiveList ∧ y.1 = .inPendingList then .inAllLists
    else if x.1 = .inActiveList then .inActiveList
    else if y.1 = .inPendingList then .inPendingList
    else .notFound, y.2)

def cancelRequest (info : QueuedCmdInfo m) (reqType : CancelType) (activeQueue pendingQueue : Bool)
    (stopTimer : ℕ → Bool) : CmdStatus × SerPdev m :=
  if info.vdev = none then (.notFound, s)
  else s.cmdCancelHandler (reqType.args info) activeQueue pendingQueue stopTimer

def purge (stopTimer : ℕ → Bool) (calls : List (CancelArgs m × Bool)) : SerPdev m :=
  calls.foldl (fun s x => (s.cancelCmd x.1 x.2 stopTimer).2) s

def vdevQueueDisable (v : Fin m) : SerPdev m :=
  { s with nonScan := s.nonScan.setVdev v { s.nonScan.vdevQ v with queueDisable := true } }

def step : Input m → SerPdev m × List Reply
  | .request cmd rulesPass =>
    let r := s.request c maxActiveScans others cmd rulesPass
    (r.2, [.request r.1])
  | .removeCmd info =>
    let r := s.dequeueCmd c maxActiveScans others info.cmd
    (r.2, [.dequeue r.1])
  | .timerCb cmd =>
    let r := s.dequeueCmd c maxActiveScans others cmd
    (r.2, [.dequeue r.1])
  | .cancelRequest info reqType activeQueue pendingQueue stopTimer =>
    let r := s.cancelRequest info reqType activeQueue pendingQueue stopTimer
    (r.2, [.cancel r.1])
  | .nonScanActivated i ok stopTimer =>
    ({ s with nonScan := s.nonScan.activated c i ok stopTimer }, [])
  | .scanActivated i ok stopTimer =>
    ({ s with scan := s.scan.activated maxActiveScans others i ok stopTimer }, [])
  | .vdevQueueDisable v => (s.vdevQueueDisable v, [])
  | .purgeAllPdevCmd stopTimer =>
    (s.purge stopTimer
      [(⟨true, none, none, .scan, false⟩, false), (⟨true, none, none, .scan, false⟩, true),
        (⟨true, none, none, .nonscan, false⟩, false),
        (⟨true, none, none, .nonscan, false⟩, true)], [])
  | .purgeAllPendingCmdByVdevId v =>
    (s.purge (fun _ => true)
      [(⟨true, some v, none, .scan, false⟩, false),
        (⟨true, some v, none, .nonscan, false⟩, false)], [])
  | .purgeAllScanCmdByVdevId v stopTimer =>
    (s.purge stopTimer
      [(⟨true, some v, none, .scan, false⟩, false),
        (⟨true, some v, none, .scan, false⟩, true)], [])

end SerPdev

/-- The pdevs of a psoc share nothing but the limit on the active scans, which is the same over a
run. A call reaches the pdev its vdev belongs to. -/
def psoc {Pdev : Type} [Fintype Pdev] [DecidableEq Pdev] (c : SerConfig m) (maxActiveScans : ℕ) :
    Machine (Pdev → SerPdev m) (Pdev × Input m) (Pdev × Reply) where
  step s i :=
    let others := ∑ p ∈ Finset.univ.erase i.1, (s p).scan.pdevQ.activeList.length
    let r := (s i.1).step c maxActiveScans others i.2
    (Function.update s i.1 r.1, r.2.map (i.1, ·))

end KernelModules.WlanSer
