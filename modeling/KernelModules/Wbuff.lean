import KernelModules.Machine
import Mathlib.Tactic

/-!
# Ownership of the wbuff buffers

A module registers with pools of buffers, takes buffers out and puts them back. The owner of a
buffer is told by its scratch word, which holds the slot of the module and of the pool; slots are
used again, and neither the pools nor the number of buffers taken out are reset with that.
-/

namespace KernelModules.Wbuff

def maxModules : ℕ := 4
def maxPools : ℕ := 4
def maxBufferSize : ℕ := 2048

def allocMax : ℕ → ℕ
  | 0 => 256
  | 1 => 128
  | 2 => 64
  | _ => 32

def poolSlotFromLen (len : ℕ) : ℕ :=
  if 0 < len ∧ len ≤ 256 then 0
  else if 256 < len ∧ len ≤ 512 then 1
  else if 512 < len ∧ len ≤ 1024 then 2
  else 3

def lenFromPoolSlot : ℕ → ℕ
  | 0 => 256
  | 1 => 512
  | 2 => 1024
  | 3 => 2048
  | _ => 0

/-- A buffer, with what it was allocated with. `generation` tells the registration that it was
allocated for; the code does not keep it. -/
structure Buf where
  devScratch : ℕ
  len : ℕ
  reserve : ℕ
  align : ℕ
  generation : ℕ
  freed : Bool

structure Mod where
  registered : Bool
  pendingReturns : ℕ
  reserve : ℕ
  align : ℕ
  pool : ℕ → List ℕ
  generation : ℕ

/-- The holder, with the buffers of the system. `held` are the buffers that callers have, buffers
from `fresh` on have not been allocated yet. -/
structure Holder where
  initialized : Bool
  mod : ℕ → Mod
  buf : ℕ → Buf
  fresh : ℕ
  generations : ℕ
  held : List ℕ

structure AllocRequest where
  slot : ℕ
  size : ℕ

def devScratch (mslot pslot : ℕ) : ℕ := (mslot <<< 4) ||| ((pslot <<< 1) ||| 1)

def mslotOf (slotInfo : ℕ) : ℕ := (slotInfo &&& 0xF0) >>> 4

def pslotOf (slotInfo : ℕ) : ℕ := (slotInfo &&& 0xE) >>> 1

namespace Holder

def setMod (s : Holder) (m : ℕ) (f : Mod → Mod) : Holder :=
  { s with mod := Function.update s.mod m (f (s.mod m)) }

def setBuf (s : Holder) (b : ℕ) (f : Buf → Buf) : Holder :=
  { s with buf := Function.update s.buf b (f (s.buf b)) }

def freeModSlot (s : Holder) : Option ℕ :=
  (List.range maxModules).find? fun m => !(s.mod m).registered

def isValidAllocReq (req : List AllocRequest) : Bool :=
  req.all fun r => decide (r.slot ≤ maxPools - 1 ∧ r.size ≤ allocMax r.slot)

/-- `wbuff_prepare_nbuf`, with the new buffer put at the front of its pool. -/
def addBuf (mslot pslot len reserve align : ℕ) (s : Holder) : Holder :=
  { s with
    buf := Function.update s.buf s.fresh
      ⟨devScratch mslot pslot, len, reserve, align, (s.mod mslot).generation, false⟩
    fresh := s.fresh + 1 }.setMod mslot fun mod =>
      { mod with pool := Function.update mod.pool pslot (s.fresh :: mod.pool pslot) }

/-- The loop over the buffers of a pool, `alloc` telling which allocations succeed. -/
def fillPool (alloc : ℕ → Bool) (mslot pslot len reserve align : ℕ) : ℕ → Holder → Holder
  | 0, s => s
  | size + 1, s =>
    let s := fillPool alloc mslot pslot len reserve align size s
    if alloc size then s.addBuf mslot pslot len reserve align else s

def fillPools (alloc : ℕ → ℕ → Bool) (mslot reserve align : ℕ) :
    List AllocRequest → ℕ → Holder → Holder
  | [], _, s => s
  | r :: req, i, s =>
    fillPools alloc mslot reserve align req (i + 1)
      (s.fillPool (alloc i) mslot r.slot (lenFromPoolSlot r.slot) reserve align r.size)

def register (alloc : ℕ → ℕ → Bool) (req : List AllocRequest) (reserve align : ℕ) (s : Holder) :
    Option ℕ × Holder :=
  if ¬s.initialized then (none, s)
  else if req.length = 0 ∨ maxPools < req.length then (none, s)
  else if ¬isValidAllocReq req then (none, s)
  else
    match s.freeModSlot with
    | none => (none, s)
    | some mslot =>
      let s := { s with generations := s.generations + 1 }.setMod mslot fun mod =>
        { mod with registered := true, generation := s.generations }
      let s := s.fillPools alloc mslot reserve align req 0
      (some mslot, s.setMod mslot fun mod => { mod with reserve := reserve, align := align })

def isValidHandle (s : Holder) : Option ℕ → Bool
  | none => false
  | some id => decide (id < maxModules) && (s.mod id).registered

def freePools (mslot : ℕ) (s : Holder) : Holder :=
  { s with
    buf := fun b =>
      if ∃ pslot < maxPools, b ∈ (s.mod mslot).pool pslot then { s.buf b with freed := true }
      else s.buf b }

/-- The buffers are freed, and stay in the pools of the module. -/
def deregister (hdl : Option ℕ) (s : Holder) : Bool × Holder :=
  match hdl with
  | none => (false, s)
  | some mslot =>
    if ¬s.initialized ∨ ¬s.isValidHandle (some mslot) then (false, s)
    else
      (true, (s.freePools mslot).setMod mslot fun mod => { mod with registered := false })

def buffGet (hdl : Option ℕ) (len : ℕ) (s : Holder) : Option ℕ × Holder :=
  match hdl with
  | none => (none, s)
  | some mslot =>
    if ¬s.initialized ∨ ¬s.isValidHandle (some mslot) ∨ len = 0 ∨ maxBufferSize < len then (none, s)
    else
      let pslot := poolSlotFromLen len
      match (s.mod mslot).pool pslot with
      | [] => (none, s)
      | b :: pool =>
        (some b, { s with held := b :: s.held }.setMod mslot fun mod =>
          { mod with
            pool := Function.update mod.pool pslot pool
            pendingReturns := (mod.pendingReturns + 1) % 2 ^ 16 })

/-- A buffer that is handed back to the caller stays with it. -/
def buffPut (b : ℕ) (s : Holder) : Option ℕ × Holder :=
  if ¬s.initialized then (some b, s)
  else
    let slotInfo := (s.buf b).devScratch
    if slotInfo = 0 then (some b, s)
    else
      let mslot := mslotOf slotInfo
      let pslot := pslotOf slotInfo
      if (s.mod mslot).registered then
        (none, { s with held := s.held.erase b }.setMod mslot fun mod =>
          { mod with
            pool := Function.update mod.pool pslot (b :: mod.pool pslot)
            pendingReturns := (mod.pendingReturns + 2 ^ 16 - 1) % 2 ^ 16 })
      else (some b, s)

def callerFree (b : ℕ) (s : Holder) : Holder :=
  { s with held := s.held.erase b }.setBuf b fun buf => { buf with freed := true }

end Holder

inductive Call
  | register (alloc : ℕ → ℕ → Bool) (req : List AllocRequest) (reserve align : ℕ)
  | deregister (hdl : Option ℕ)
  | buffGet (hdl : Option ℕ) (len : ℕ)
  | buffPut (b : ℕ)
  | callerFree (b : ℕ)

inductive Answer
  | handle (mslot : Option ℕ)
  | status (success : Bool)
  | buf (b : Option ℕ)

def wbuff : Machine Holder Call Answer where
  step s
    | .register alloc req reserve align =>
      let r := s.register alloc req reserve align
      (r.2, [.handle r.1])
    | .deregister hdl => ((s.deregister hdl).2, [.status (s.deregister hdl).1])
    | .buffGet hdl len => ((s.buffGet hdl len).2, [.buf (s.buffGet hdl len).1])
    | .buffPut b => ((s.buffPut b).2, [.buf (s.buffPut b).1])
    | .callerFree b => (s.callerFree b, [])

/-- Behind `wbuff_module_init`, with no buffer allocated. -/
def initial : Holder where
  initialized := true
  mod _ := ⟨false, 0, 0, 0, fun _ => [], 0⟩
  buf _ := ⟨0, 0, 0, 0, 0, false⟩
  fresh := 0
  generations := 1
  held := []

def Holder.places (s : Holder) : List ℕ :=
  ((List.range maxModules).flatMap fun m => (List.range maxPools).flatMap (s.mod m).pool) ++ s.held

def Holder.isOf (s : Holder) (m b : ℕ) : Bool :=
  mslotOf (s.buf b).devScratch = m ∧ (s.buf b).generation = (s.mod m).generation

structure Owned (s : Holder) : Prop where
  live : ∀ b ∈ s.places, (s.buf b).freed = false
  once : s.places.Nodup
  sized : ∀ hdl len, ∀ b ∈ (s.buffGet hdl len).1,
    (s.buf b).len = lenFromPoolSlot (poolSlotFromLen len)
  pending : ∀ m < maxModules, (s.mod m).registered →
    (s.mod m).pendingReturns = s.held.countP (s.isOf m)

/-- A module deregisters when its pools are empty, and its slot is used again only when no buffer
is pending there. Callers put back and free what they have, and free only what has come back. -/
def orderly (s : Holder) : Call → Prop
  | .register .. => ∀ m ∈ s.freeModSlot, (s.mod m).pendingReturns = 0
  | .deregister hdl => ∀ m ∈ hdl, s.isValidHandle (some m) → ∀ p < maxPools, (s.mod m).pool p = []
  | .buffGet .. => True
  | .buffPut b => b ∈ s.held ∨ (s.buf b).devScratch = 0
  | .callerFree b => b ∈ s.held ∧ ¬(s.mod (mslotOf (s.buf b).devScratch)).registered

instance decidableOrderly (s : Holder) (call : Call) : Decidable (orderly s call) := by
  cases call <;> unfold orderly <;> infer_instance

end KernelModules.Wbuff
