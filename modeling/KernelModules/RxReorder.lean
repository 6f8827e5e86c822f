import KernelModules.Chains
import KernelModules.Machine
import KernelModules.RingWalk

/-!
# The rx reorder arrays of a peer

Each tid has an array of slots. A slot points at the first and the last of a chain of network
buffers, the MSDUs that wait in it. Without a block-ack session the array is the one slot that the
tid has of its own, and with one it is allocated for it.

The MSDUs of a range of slots are spliced into one chain, which is handed up or freed. What is
handed up is the chain as it is then found, up to its end.
-/

namespace KernelModules.Reorder

open Chains RingWalk

def olTxrxNumExtTids : ℕ := 19

def ieee80211SeqMax : ℕ := 4096

def invalidReorderIndex : ℕ := 0xffff

variable {α : Type*}

structure ArrayElem (α : Type*) where
  head : Option α := none
  tail : Option α := none

/-- Where the pointer to the array leads: to the slot of the tid's own or to allocated memory. -/
inductive ReorderArray (α : Type*)
  | base
  | mem (id size : ℕ) (elems : ℕ → ArrayElem α)

structure RxReorder (α : Type*) where
  winSz : ℕ := 1
  winSzMask : ℕ := 0
  array : ReorderArray α := .base
  base : ArrayElem α := {}

namespace RxReorder

def elem (r : RxReorder α) (idx : ℕ) : ArrayElem α :=
  match r.array with
  | .base => r.base
  | .mem _ _ elems => elems idx

def setElem (r : RxReorder α) (idx : ℕ) (e : ArrayElem α) : RxReorder α :=
  match r.array with
  | .base => { r with base := e }
  | .mem id size elems => { r with array := .mem id size (Function.update elems idx e) }

def arraySize (r : RxReorder α) : ℕ :=
  match r.array with
  | .base => 1
  | .mem _ size _ => size

def clear (r : RxReorder α) (idx : ℕ) : RxReorder α :=
  r.setElem idx {}

end RxReorder

def olRxReorderInit : RxReorder α := {}

structure Peer (α : Type*) where
  tidsRxReorder : ℕ → RxReorder α
  tidsNextRelIdx : ℕ → ℕ
  tidsLastSeq : ℕ → ℕ
  fwPnCheck : Bool

/-- What is behind each buffer, the peer, and how many arrays have been allocated. -/
structure Rx (α : Type*) where
  next : α → Option α
  peer : Peer α
  allocated : ℕ

inductive Event (α : Type*)
  | deliver (msdus : List α)
  | free (msdu : α)
  | freeArray (id : ℕ)

inductive HttRxFlushAction where
  | release | discard

def Rx.setReorder (s : Rx α) (tid : ℕ) (r : RxReorder α) : Rx α :=
  { s with peer.tidsRxReorder := Function.update s.peer.tidsRxReorder tid r }

def Rx.setNextRelIdx (s : Rx α) (tid idx : ℕ) : Rx α :=
  { s with peer.tidsNextRelIdx := Function.update s.peer.tidsNextRelIdx tid (idx % 65536) }

def Rx.setLastSeq (s : Rx α) (tid seq : ℕ) : Rx α :=
  { s with peer.tidsLastSeq := Function.update s.peer.tidsLastSeq tid seq }

section Slots

variable [DecidableEq α]

def olRxReorderStore (s : Rx α) (tid idx : ℕ) (headMsdu tailMsdu : Option α) : Rx α :=
  let r := s.peer.tidsRxReorder tid
  let idx := idx &&& r.winSzMask
  let e := r.elem idx
  match e.head with
  | some _ =>
    { s with next := setNext s.next e.tail headMsdu }.setReorder tid
      (r.setElem idx { e with tail := tailMsdu })
  | none => s.setReorder tid (r.setElem idx ⟨headMsdu, tailMsdu⟩)

/-- The local variables of a walk over the slots. -/
structure Splice (α : Type*) where
  next : α → Option α
  r : RxReorder α
  headMsdu : Option α
  tailMsdu : Option α

/-- The body of the loop in `ol_rx_reorder_release`: what is in the slot goes behind the tail, where
there is one. -/
def releaseElem (s : Splice α) (idx : ℕ) : Option (Splice α) :=
  let e := s.r.elem idx
  if e.head.isSome then
    some { s with next := setNext s.next s.tailMsdu e.head, tailMsdu := e.tail, r := s.r.clear idx }
  else some { s with r := s.r.clear idx }

/-- The body of the loop in `ol_rx_reorder_flush`. -/
def flushElem (s : Splice α) (idx : ℕ) : Option (Splice α) :=
  let e := s.r.elem idx
  if e.head.isSome then
    if s.headMsdu.isNone then
      some { s with headMsdu := e.head, tailMsdu := e.tail, r := s.r.clear idx }
    else
      some { s with
        next := setNext s.next s.tailMsdu e.head
        tailMsdu := e.tail
        r := s.r.clear idx }
  else some s

end Slots

section Functions

variable [DecidableEq α] [Fintype α] (seqNum : α → ℕ)

/-- The chain is ended behind its tail and handed on; its first MSDU gives the last number. -/
def spliced (s : Rx α) (tid : ℕ) (sp : Splice α) (handOn : List α → List (Event α)) :
    Option (Rx α × List (Event α)) :=
  let s := s.setReorder tid sp.r
  match sp.headMsdu with
  | none => some ({ s with next := sp.next }, [])
  | some msdu =>
    let next := setNext sp.next sp.tailMsdu none
    (walk next (Fintype.card α) (some msdu)).map fun msdus =>
      ({ s with next := next }.setLastSeq tid (seqNum msdu), handOn msdus)

def olRxReorderRelease (s : Rx α) (tid idxStart idxEnd : ℕ) : Option (Rx α × List (Event α)) :=
  let s := s.setNextRelIdx tid idxEnd
  let r := s.peer.tidsRxReorder tid
  let idxStart := idxStart &&& r.winSzMask
  let idxEnd := idxEnd &&& r.winSzMask
  let e := r.elem idxStart
  (whileNe r.winSzMask idxEnd releaseElem r.winSzMask ((idxStart + 1) &&& r.winSzMask)
      ⟨s.next, r.clear idxStart, e.head, e.tail⟩).bind
    fun sp => spliced seqNum s tid sp fun msdus => [.deliver msdus]

def olRxReorderFlush (s : Rx α) (tid idxStart idxEnd : ℕ) (action : HttRxFlushAction) :
    Option (Rx α × List (Event α)) :=
  let r := s.peer.tidsRxReorder tid
  -- An end of 0xffff stands for the entire array.
  let s := s.setNextRelIdx tid (if idxEnd = 0xffff then 0 else idxEnd)
  let idxEnd := if idxEnd = 0xffff then idxStart else idxEnd
  let idxStart := idxStart &&& r.winSzMask
  let idxEnd := idxEnd &&& r.winSzMask
  ((flushElem ⟨s.next, r, none, none⟩ idxStart).bind
      (whileNe r.winSzMask idxEnd flushElem r.winSzMask ((idxStart + 1) &&& r.winSzMask))).bind
    fun sp => spliced seqNum s tid sp fun msdus =>
      match action with
      | .release => [.deliver msdus]
      | .discard => msdus.map .free

def olRxReorderPeerCleanup (s : Rx α) : Option (Rx α × List (Event α)) :=
  (List.range olTxrxNumExtTids).foldlM
    (fun (p : Rx α × List (Event α)) tid =>
      (olRxReorderFlush seqNum p.1 tid 0 0 .discard).map fun q => (q.1, p.2 ++ q.2))
    (s, [])

def gLog2ceil : List ℕ :=
  [1, 1, 2] ++ List.replicate 2 4 ++ List.replicate 4 8 ++ List.replicate 8 16 ++
    List.replicate 16 32 ++ List.replicate 32 64

def olRxReorderRoundPwr2 (value : Fin 65) : ℕ :=
  gLog2ceil.getD value 0

def freedArray (r : RxReorder α) : List (Event α) :=
  match r.array with
  | .base => []
  | .mem id _ _ => [.freeArray id]

def olRxAddbaHandler (s : Rx α) (tid : ℕ) (winSz : Fin 65) (failed alloc : Bool) :
    Rx α × List (Event α) :=
  if olTxrxNumExtTids ≤ tid then (s, [])
  else if failed then (s, [])
  else
    let s := s.setLastSeq tid ieee80211SeqMax
    let r := s.peer.tidsRxReorder tid
    let roundPwr2WinSz := olRxReorderRoundPwr2 winSz
    if alloc then
      (({ s with allocated := s.allocated + 1 }.setReorder tid
          { winSz := winSz
            winSzMask := roundPwr2WinSz - 1
            array := .mem s.allocated roundPwr2WinSz fun _ => {}
            base := r.base }).setNextRelIdx tid 0,
        freedArray r)
    else (s, [])

def olRxDelbaHandler (s : Rx α) (tid : ℕ) : Rx α × List (Event α) :=
  if olTxrxNumExtTids ≤ tid then (s, [])
  else
    let s := s.setNextRelIdx tid invalidReorderIndex
    (s.setReorder tid olRxReorderInit, freedArray (s.peer.tidsRxReorder tid))

/-- The frames of the slot are freed, up to the end of the chain. -/
def olRxReorderFlushFrag (s : Rx α) (tid seqNum : ℕ) : Option (Rx α × List (Event α)) :=
  let r := s.peer.tidsRxReorder tid
  let seq := seqNum &&& r.winSzMask
  let e := r.elem seq
  if e.head.isSome then
    (walk s.next (Fintype.card α) e.head).map fun msdus =>
      (s.setReorder tid (r.clear seq), msdus.map .free)
  else some (s, [])

def olRxFlushHandler (isFrag : α → Bool) (s : Rx α) (tid idxStart idxEnd : ℕ)
    (action : HttRxFlushAction) : Option (Rx α × List (Event α)) :=
  if olTxrxNumExtTids ≤ tid then some (s, [])
  else
    let r := s.peer.tidsRxReorder tid
    if (r.elem (idxStart &&& r.winSzMask)).head.any isFrag then olRxReorderFlushFrag s tid idxStart
    else olRxReorderFlush seqNum s tid idxStart idxEnd action

/-- The local variables of `ol_rx_pn_ind_handler`: of the list of failures what is left, and what has
been freed. -/
structure PnWalk (α : Type*) extends Splice α where
  pnIe : List UInt8
  freed : List α

def pnElem (s : PnWalk α) (idx : ℕ) : Option (PnWalk α) :=
  let e := s.r.elem idx
  if e.head.isSome then
    if s.pnIe.head?.any fun i => idx = i.toNat then
      (walkTo s.next e.tail (Fintype.card α) e.head).map fun msdus =>
        { s with pnIe := s.pnIe.tail, freed := s.freed ++ msdus, r := s.r.clear idx }
    else if s.headMsdu.isNone then
      some { s with headMsdu := e.head, tailMsdu := e.tail, r := s.r.clear idx }
    else
      some { s with
        next := setNext s.next s.tailMsdu e.head
        tailMsdu := e.tail
        r := s.r.clear idx }
  else some s

def olRxPnIndHandler (s : Rx α) (tid seqNumStart seqNumEnd : ℕ) (pnIe : List UInt8) :
    Option (Rx α × List (Event α)) :=
  if olTxrxNumExtTids ≤ tid then some (s, [])
  else
    let s := { s with peer.fwPnCheck := true }
    let r := s.peer.tidsRxReorder tid
    let seqNumStart := seqNumStart &&& r.winSzMask
    let seqNumEnd := seqNumEnd &&& r.winSzMask
    ((pnElem ⟨⟨s.next, r, none, none⟩, pnIe, []⟩ seqNumStart).bind
        (whileNe r.winSzMask seqNumEnd pnElem r.winSzMask ((seqNumStart + 1) &&& r.winSzMask))).bind
      fun w =>
        let s := s.setReorder tid w.r
        match w.headMsdu with
        | none => some ({ s with next := w.next }, w.freed.map .free)
        | some msdu =>
          let next := setNext w.next w.tailMsdu none
          (walk next (Fintype.card α) (some msdu)).map fun msdus =>
            ({ s with next := next }, w.freed.map .free ++ [.deliver msdus])

end Functions

end KernelModules.Reorder
