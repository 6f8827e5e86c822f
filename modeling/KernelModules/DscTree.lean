import KernelModules.Machine
import Mathlib.Tactic

/-!
# The driver state management tree

A driver has psocs and a psoc has vdevs. Each of these nodes carries a transition container and
a counter of operations in flight. Every API runs under the driver lock, so a call is one step;
a call that blocks is a step that queues and, later, the step that grants.

`__dsc_*_wait_for_ops` takes the lock once per visited node and sleeps between two of its
sections, so a waiting thread is part of the state and moves by steps of its own.
-/

namespace KernelModules.Dsc

variable {P V : Type*}

inductive Node (P V : Type*)
  | driver
  | psoc (p : P)
  | vdev (v : V)
  deriving DecidableEq

/-- The child lists of a tree together with the parent pointers, which agree. -/
structure Tree (P V : Type*) where
  psocs : List P
  vdevs : P → List V
  psoc : V → P
  nodup_psocs : psocs.Nodup
  nodup_vdevs : ∀ p, (vdevs p).Nodup
  mem_psocs : ∀ p, p ∈ psocs
  mem_vdevs : ∀ p v, v ∈ vdevs p ↔ psoc v = p

inductive Status
  | success
  | eAgain
  | eInval
  | eNomem
  deriving DecidableEq

/-- A transition some thread asks for, and the list node it waits on. -/
structure Tran where
  thread : ℕ
  desc : String

structure Trans where
  activeDesc : Option String := none
  queue : List Tran := []

/-- `count` is a `uint32_t`; `done` counts the completions of `event` not yet waited for. -/
structure Ops where
  count : ℕ := 0
  done : ℕ := 0

structure Ctx where
  trans : Trans := {}
  ops : Ops := {}

abbrev Nodes (P V : Type*) := Node P V → Ctx

inductive Outcome
  | started (tran : Tran)
  | queued (tran : Tran)
  | granted (tran : Tran)
  | opStarted
  | rejected (status : Status)

abbrev Event (P V : Type*) := Node P V × Outcome

/-- The platform state read by `qdf_is_recovering` and `qdf_is_driver_unloading`. -/
structure Env where
  recovering : Bool := false
  unloading : Bool := false

/-- The contexts during a locked section, and the events emitted so far. -/
structure World (P V : Type*) where
  nodes : Nodes P V
  events : List (Event P V)

def Trans.active (trans : Trans) : Bool := trans.activeDesc.isSome

def Trans.queued (trans : Trans) : Bool := !trans.queue.isEmpty

def Trans.activeOrQueued (trans : Trans) : Bool := trans.active || trans.queued

def Trans.start (trans : Trans) (desc : String) : Trans := { trans with activeDesc := some desc }

def Trans.stop (trans : Trans) : Trans := { trans with activeDesc := none }

def Trans.enqueue (trans : Trans) (tran : Tran) : Trans :=
  { trans with queue := trans.queue ++ [tran] }

section Calls

variable [DecidableEq P] [DecidableEq V] (t : Tree P V)

def Nodes.setTrans (s : Nodes P V) (n : Node P V) (trans : Trans) : Nodes P V :=
  Function.update s n { s n with trans := trans }

def Nodes.setOps (s : Nodes P V) (n : Node P V) (ops : Ops) : Nodes P V :=
  Function.update s n { s n with ops := ops }

/-- Hands the node to its first waiter; says whether there was one. -/
def transTrigger (n : Node P V) (w : World P V) : Bool × World P V :=
  match (w.nodes n).trans.queue with
  | [] => (false, w)
  | tran :: rest =>
    (true, { nodes := w.nodes.setTrans n (Trans.start ⟨(w.nodes n).trans.activeDesc, rest⟩ tran.desc)
             events := w.events ++ [(n, .granted tran)] })

def psocTransActiveDownTree (s : Nodes P V) (p : P) : Bool :=
  (t.vdevs p).any fun v => (s (.vdev v)).trans.active

def driverTransActiveDownTree (s : Nodes P V) : Bool :=
  t.psocs.any fun p => (s (.psoc p)).trans.active || psocTransActiveDownTree t s p

def driverCanTrans (s : Nodes P V) : Bool :=
  !(s .driver).trans.activeOrQueued && !driverTransActiveDownTree t s

def driverCanTrigger (s : Nodes P V) : Bool :=
  !(s .driver).trans.active && !driverTransActiveDownTree t s

/-- True when the trigger was handled, with or without a grant: down-tree nodes are then left
alone. -/
def driverTransTriggerChecked (w : World P V) : Bool × World P V :=
  if !(w.nodes .driver).trans.queued then (false, w)
  else if !driverCanTrigger t w.nodes then (true, w)
  else transTrigger .driver w

def subtreeTrigger (w : World P V) (p : P) : World P V :=
  let r := transTrigger (.psoc p) w
  if r.1 then r.2 else (t.vdevs p).foldl (fun w v => (transTrigger (.vdev v) w).2) r.2

def driverTriggerTrans (w : World P V) : World P V :=
  let r := transTrigger .driver w
  if r.1 then r.2 else t.psocs.foldl (subtreeTrigger t) r.2

def psocCanTrans (s : Nodes P V) (p : P) : Status :=
  if (s .driver).trans.activeOrQueued then .eInval
  else if (s (.psoc p)).trans.activeOrQueued || psocTransActiveDownTree t s p then .eAgain
  else .success

def psocCanTrigger (s : Nodes P V) (p : P) : Bool :=
  !(s .driver).trans.activeOrQueued && !(s (.psoc p)).trans.active &&
    !psocTransActiveDownTree t s p

def psocTransTriggerChecked (p : P) (w : World P V) : Bool × World P V :=
  if (w.nodes (.psoc p)).trans.queue.isEmpty then (false, w)
  else if !psocCanTrigger t w.nodes p then (true, w)
  else transTrigger (.psoc p) w

def psocTriggerTrans (p : P) (w : World P V) : World P V :=
  let r := driverTransTriggerChecked t w
  if r.1 then r.2 else subtreeTrigger t r.2 p

def vdevCanTrans (env : Env) (s : Nodes P V) (v : V) : Status :=
  if (s .driver).trans.activeOrQueued then .eInval
  else if env.recovering then .eInval
  else if (s (.psoc (t.psoc v))).trans.activeOrQueued then
    if env.unloading then .eInval else .eAgain
  else if (s (.vdev v)).trans.activeOrQueued then .eAgain
  else .success

def vdevTriggerTrans (v : V) (w : World P V) : World P V :=
  let r := driverTransTriggerChecked t w
  if r.1 then r.2
  else
    let r := psocTransTriggerChecked t (t.psoc v) r.2
    if r.1 then r.2 else (transTrigger (.vdev v) r.2).2

/-- `can_trans`, which is also `can_op`. -/
def canTrans (env : Env) (s : Nodes P V) : Node P V → Status
  | .driver => if driverCanTrans t s then .success else .eAgain
  | .psoc p => psocCanTrans t s p
  | .vdev v => vdevCanTrans t env s v

def triggerTrans : Node P V → World P V → World P V
  | .driver => driverTriggerTrans t
  | .psoc p => psocTriggerTrans t p
  | .vdev v => vdevTriggerTrans t v

/-- A driver waits whatever the error; a psoc or a vdev is turned away by `E_INVAL`. -/
def waitsOn : Node P V → Status → Bool
  | .driver, _ => true
  | _, status => status != .eInval

def transStart (env : Env) (s : Nodes P V) (n : Node P V) (tran : Tran) :
    Nodes P V × List (Event P V) :=
  match canTrans t env s n with
  | .success => (s.setTrans n ((s n).trans.start tran.desc), [(n, .started tran)])
  | status => (s, [(n, .rejected status)])

def transStartWait (env : Env) (s : Nodes P V) (n : Node P V) (tran : Tran) :
    Nodes P V × List (Event P V) :=
  match canTrans t env s n with
  | .success => (s.setTrans n ((s n).trans.start tran.desc), [(n, .started tran)])
  | status =>
    if waitsOn n status then (s.setTrans n ((s n).trans.enqueue tran), [(n, .queued tran)])
    else (s, [(n, .rejected status)])

def transStop (s : Nodes P V) (n : Node P V) : Nodes P V × List (Event P V) :=
  let w := triggerTrans t n ⟨s.setTrans n (s n).trans.stop, []⟩
  (w.nodes, w.events)

/-- `tracked` is the outcome of the debug build's tracking allocation. -/
def opStart (env : Env) (tracked : Bool) (s : Nodes P V) (n : Node P V) :
    Nodes P V × List (Event P V) :=
  match canTrans t env s n with
  | .success =>
    if tracked then
      (s.setOps n { (s n).ops with count := ((s n).ops.count + 1) % 2 ^ 32 }, [(n, .opStarted)])
    else (s, [(n, .rejected .eNomem)])
  | status => (s, [(n, .rejected status)])

def opStop (s : Nodes P V) (n : Node P V) : Nodes P V :=
  let count := ((s n).ops.count + (2 ^ 32 - 1)) % 2 ^ 32
  s.setOps n { count := count, done := (s n).ops.done + if count = 0 then 1 else 0 }

/-- The nodes a thread inside `wait_for_ops` has still to see at zero; `blocked` while it sleeps
on the event of the first of them. -/
structure Waiting (P V : Type*) where
  todo : List (Node P V) := []
  blocked : Bool := false

/-- A node and, below it, the nodes its `wait_for_ops` goes on to. -/
def waitForOps : Node P V → List (Node P V)
  | .driver => .driver :: t.psocs.flatMap fun p => .psoc p :: (t.vdevs p).map .vdev
  | .psoc p => .psoc p :: (t.vdevs p).map .vdev
  | .vdev v => [.vdev v]

/-- The next step of a waiting thread: it goes to sleep on a busy node, leaves an idle one, and
wakes on a completion. -/
def waitStep (s : Nodes P V) (w : Waiting P V) : Nodes P V × Waiting P V :=
  match w.todo with
  | [] => (s, w)
  | n :: rest =>
    if w.blocked then
      if 0 < (s n).ops.done then
        (s.setOps n { (s n).ops with done := (s n).ops.done - 1 }, { todo := rest })
      else (s, w)
    else if 0 < (s n).ops.count then
      (s.setOps n { (s n).ops with done := 0 }, { w with blocked := true })
    else (s, { todo := rest })

structure State (P V : Type*) where
  nodes : Nodes P V
  waits : ℕ → Waiting P V

inductive Input (P V : Type*)
  | transStart (n : Node P V) (tran : Tran) (env : Env)
  | transStartWait (n : Node P V) (tran : Tran) (env : Env)
  | transStop (n : Node P V)
  | opStart (n : Node P V) (env : Env) (tracked : Bool)
  | opStop (n : Node P V)
  | waitForOps (n : Node P V) (thread : ℕ)
  | wake (thread : ℕ)

def initial : State P V := ⟨fun _ => {}, fun _ => {}⟩

def State.setNodes (s : State P V) (r : Nodes P V × List (Event P V)) :
    State P V × List (Event P V) := ({ s with nodes := r.1 }, r.2)

def machine : Machine (State P V) (Input P V) (Event P V) where
  step s
    | .transStart n tran env => s.setNodes (transStart t env s.nodes n tran)
    | .transStartWait n tran env => s.setNodes (transStartWait t env s.nodes n tran)
    | .transStop n => s.setNodes (transStop t s.nodes n)
    | .opStart n env tracked => s.setNodes (opStart t env tracked s.nodes n)
    | .opStop n => s.setNodes (opStop s.nodes n, [])
    | .waitForOps n thread =>
      ({ s with waits := Function.update s.waits thread { todo := waitForOps t n } }, [])
    | .wake thread =>
      let r := waitStep s.nodes (s.waits thread)
      (⟨r.1, Function.update s.waits thread r.2⟩, [])

end Calls

/-- What the source asserts of its callers: only an active transition is stopped and only an
operation in flight. -/
def Asserted (s : State P V) : Input P V → Prop
  | .transStop n => (s.nodes n).trans.active
  | .opStop n => (s.nodes n).ops.count ≠ 0
  | _ => True

instance (s : State P V) (i : Input P V) : Decidable (Asserted s i) := by
  cases i <;> unfold Asserted <;> infer_instance

end KernelModules.Dsc
