import KernelModules.Machine
import KernelModules.Shelves
import Mathlib.Data.List.FinRange

/-!
# The work queue of the camera request manager

Producers take a task from the pool, fill it in and enqueue it at a priority. One work item goes
through the priorities, runs each task and puts it back. The lists change under `lock_bh`. What is
done there are two steps here, before and behind the update of the counter or of the list that comes
second; no other section begins in between, all else may go on.
-/

namespace KernelModules.CrmWorkq

def crmTaskPriorityMax : ℕ := 2

structure Task (Cb Priv Payload : Type*) where
  payload : Payload
  processCb : Option Cb := none
  priv : Option Priv := none
  cancel : Bool := false

/-- A section under the lock, with its first half done. -/
inductive Section (P : Type*) (num : ℕ)
  | getTask (p : P) (task : Fin num)
  | enqueueTask
  | processWorkq (i : ℕ) (task : Fin num)
  | putTask

/-- Where the work function is: before the list of a priority, before the callback of a task of it,
before the task is cleared, before it is put back. -/
inductive Worker (num : ℕ)
  | idle
  | walk (i : ℕ)
  | processTask (i : ℕ) (task : Fin num)
  | clearTask (i : ℕ) (task : Fin num)
  | putTask (i : ℕ) (task : Fin num)

/-- A task as it is enqueued, or as it is run. -/
structure Job (Cb Priv Payload : Type*) (num : ℕ) where
  task : Fin num
  processCb : Option Cb
  priv : Option Priv
  payload : Payload

inductive Event (Cb Priv Payload : Type*) (num : ℕ)
  | accepted (priority : ℕ) (job : Job Cb Priv Payload num)
  | ran (priority : ℕ) (job : Job Cb Priv Payload num)

structure Workq (P Cb Priv Payload : Type*) (num : ℕ) where
  emptyHead : List (Fin num)
  processHead : ℕ → List (Fin num)
  freeCnt : ℤ
  pendingCnt : ℤ
  pool : Fin num → Task Cb Priv Payload
  lockBh : Option (Section P num)
  /-- The work item is pending. -/
  work : Bool
  worker : Worker num
  /-- The tasks that producers have got. -/
  held : P → Option (Fin num)

inductive Input (P Cb Priv Payload : Type*)
  | getTask (p : P)
  | fill (p : P) (processCb : Cb) (payload : Payload)
  | cancel (p : P)
  | enqueueTask (p : P) (priv : Priv) (prio : ℤ)
  /-- The second half of the section. -/
  | unlock
  | startWork
  | walk
  | processTask
  | clearTask
  | putTask

variable {P Cb Priv Payload : Type*} {num : ℕ}

/-- All tasks are put into the empty list. -/
def create (payload : Fin num → Payload) : Workq P Cb Priv Payload num where
  emptyHead := List.finRange num
  processHead _ := []
  freeCnt := num
  pendingCnt := 0
  pool t := { payload := payload t }
  lockBh := none
  work := false
  worker := .idle
  held _ := none

def Task.clear (task : Task Cb Priv Payload) : Task Cb Priv Payload :=
  { task with cancel := false, processCb := none, priv := none }

def job (pool : Fin num → Task Cb Priv Payload) (t : Fin num) : Job Cb Priv Payload num :=
  ⟨t, (pool t).processCb, (pool t).priv, (pool t).payload⟩

namespace Workq

variable (s : Workq P Cb Priv Payload num)

def setTask (t : Fin num) (task : Task Cb Priv Payload) : Workq P Cb Priv Payload num :=
  { s with pool := Function.update s.pool t task }

def getTask (p : P) : Workq P Cb Priv Payload num :=
  match s.emptyHead with
  | [] => s
  | t :: _ => { s with freeCnt := s.freeCnt - 1, lockBh := some (.getTask p t) }

/-- The list part of `cam_req_mgr_workq_put_task`. -/
def putTask (t : Fin num) : Workq P Cb Priv Payload num :=
  { s with emptyHead := s.emptyHead ++ [t], lockBh := some .putTask }

def priority (prio : ℤ) : ℕ :=
  if prio < crmTaskPriorityMax ∧ 0 ≤ prio then prio.toNat else 0

variable [DecidableEq P]

def enqueueTask (p : P) (t : Fin num) (priv : Priv) (prio : ℤ) :
    Workq P Cb Priv Payload num × List (Event Cb Priv Payload num) :=
  let s := { s with held := Function.update s.held p none }
  if (s.pool t).cancel then ((s.setTask t (s.pool t).clear).putTask t, [])
  else
    let s := s.setTask t { s.pool t with priv := some priv }
    let i := priority prio
    ({ s with
        processHead := Function.update s.processHead i (s.processHead i ++ [t])
        lockBh := some .enqueueTask },
      [.accepted i (job s.pool t)])

def unlock : Section P num → Workq P Cb Priv Payload num
  | .getTask p t =>
    { s with
      emptyHead := s.emptyHead.erase t
      held := Function.update s.held p (some t)
      lockBh := none }
  | .enqueueTask => { s with pendingCnt := s.pendingCnt + 1, work := true, lockBh := none }
  | .processWorkq i t =>
    { s with
      processHead := Function.update s.processHead i ((s.processHead i).erase t)
      worker := .processTask i t
      lockBh := none }
  | .putTask => { s with freeCnt := s.freeCnt + 1, lockBh := none }

/-- The worker looks at the list of a priority. -/
def walk (i : ℕ) : Workq P Cb Priv Payload num :=
  if i < crmTaskPriorityMax then
    match s.processHead i with
    | [] => { s with worker := .walk (i + 1) }
    | t :: _ => { s with pendingCnt := s.pendingCnt - 1, lockBh := some (.processWorkq i t) }
  else { s with worker := .idle }

end Workq

variable [DecidableEq P]

/-- An input that does not fit the state changes nothing. -/
def step (s : Workq P Cb Priv Payload num) :
    Input P Cb Priv Payload → Workq P Cb Priv Payload num × List (Event Cb Priv Payload num)
  | .getTask p =>
    match s.lockBh, s.held p with
    | none, none => (s.getTask p, [])
    | _, _ => (s, [])
  | .fill p processCb payload =>
    match s.held p with
    | some t => (s.setTask t { s.pool t with processCb := some processCb, payload := payload }, [])
    | none => (s, [])
  | .cancel p =>
    match s.held p with
    | some t => (s.setTask t { s.pool t with cancel := true }, [])
    | none => (s, [])
  | .enqueueTask p priv prio =>
    match s.lockBh, s.held p with
    | none, some t => s.enqueueTask p t priv prio
    | _, _ => (s, [])
  | .unlock =>
    match s.lockBh with
    | some sec => (s.unlock sec, [])
    | none => (s, [])
  | .startWork =>
    match s.work, s.worker with
    | true, .idle => ({ s with work := false, worker := .walk 0 }, [])
    | _, _ => (s, [])
  | .walk =>
    match s.lockBh, s.worker with
    | none, .walk i => (s.walk i, [])
    | _, _ => (s, [])
  | .processTask =>
    match s.worker with
    | .processTask i t => ({ s with worker := .clearTask i t }, [.ran i (job s.pool t)])
    | _ => (s, [])
  | .clearTask =>
    match s.worker with
    | .clearTask i t => ({ s.setTask t (s.pool t).clear with worker := .putTask i t }, [])
    | _ => (s, [])
  | .putTask =>
    match s.lockBh, s.worker with
    | none, .putTask i t => ({ s.putTask t with worker := .walk i }, [])
    | _, _ => (s, [])

def machine : Machine (Workq P Cb Priv Payload num) (Input P Cb Priv Payload)
    (Event Cb Priv Payload num) where
  step := step

end KernelModules.CrmWorkq
