import KernelModules.Machine
import KernelModules.WordRing

/-!
# The rings of a copy engine

A copy engine has a source ring, from which the target takes what the host sends, and a destination
ring, where the host keeps buffers for what the target sends. A send or an enqueue puts its context
at the write index. A completion takes the one at the software index, if the target has got past it:
a cached copy of the target's read index says so, or the byte count in the descriptor. What is left
when the engine is stopped is cancelled or revoked. In fastpath mode the software index of the
source ring follows the target, and the destination ring is filled up.

A call is done under the lock of the indices, and is one step here. Whether the target can be
accessed, and what the register of the read index gives, comes with it.
-/

namespace KernelModules.CopyEngine

open Function

def ceRingDelta (mask fromidx toidx : UInt32) : UInt32 := (toidx - fromidx) &&& mask

def ceRingIdxIncr (mask idx : UInt32) : UInt32 := (idx + 1) &&& mask

def readError : UInt32 := 0xffffffff

def ceSendlistItemCtxt : UInt64 := 0xcecebeef

structure SrcDesc where
  bufferAddr : UInt64
  nbytes : UInt16
  metaData : UInt16
  deriving DecidableEq

structure DestDesc where
  bufferAddr : UInt64
  nbytes : UInt16
  metaData : UInt16
  byteSwap : Bool

/-- A context in the source ring and its descriptor. -/
structure Transfer where
  ctx : UInt64
  desc : SrcDesc
  deriving DecidableEq

/-- A context in the destination ring and the address of its buffer. -/
structure Buffer where
  ctx : UInt64
  bufferAddr : UInt64
  deriving DecidableEq

structure SrcRing where
  swIndex : UInt32
  writeIndex : UInt32
  /-- The cached copy of the read index. -/
  hwIndex : UInt32
  perTransferContext : ℕ → UInt64
  shadow : ℕ → SrcDesc
  desc : ℕ → SrcDesc
  /-- The next descriptor the target takes. -/
  readIndex : UInt32

structure DestRing where
  swIndex : UInt32
  writeIndex : UInt32
  perTransferContext : ℕ → UInt64
  desc : ℕ → DestDesc
  /-- The next descriptor the target fills. -/
  readIndex : UInt32

structure CeState where
  src : SrcRing
  dest : DestRing

/-- A copy engine as it is set up. The rings have a power of two entries, and the target tells
the index from which they are used. -/
structure Engine where
  srcNentries : UInt32
  destNentries : UInt32
  fastpathModeOn : Bool
  httTxData : Bool
  httRxData : Bool
  srcStart : UInt32
  destStart : UInt32
  srcPow : ∃ k, srcNentries.toNat = 2 ^ k
  destPow : ∃ k, destNentries.toNat = 2 ^ k
  srcStart_lt : srcStart.toNat < srcNentries.toNat
  destStart_lt : destStart.toNat < destNentries.toNat

namespace Engine

def srcMask (ce : Engine) : UInt32 := ce.srcNentries - 1

def destMask (ce : Engine) : UInt32 := ce.destNentries - 1

def fastpath (ce : Engine) : Bool := ce.fastpathModeOn && (ce.httTxData || ce.httRxData)

def init (ce : Engine) : CeState where
  src := { swIndex := ce.srcStart, writeIndex := ce.srcStart, hwIndex := ce.srcStart,
           perTransferContext := fun _ => 0, shadow := fun _ => ⟨0, 0, 0⟩, desc := fun _ => ⟨0, 0, 0⟩,
           readIndex := ce.srcStart }
  dest := { swIndex := ce.destStart, writeIndex := ce.destStart, perTransferContext := fun _ => 0,
            desc := fun _ => ⟨0, 0, 0, false⟩, readIndex := ce.destStart }

end Engine

inductive Out
  | sent (t : Transfer)
  | sendDone (t : Transfer)
  | queued (b : Buffer)
  | recvDone (b : Buffer) (nbytes metaData : UInt16) (swapped : Bool)
  | revoked (b : Buffer)
  | status (ok : Bool)
  deriving DecidableEq

structure Res where
  st : CeState
  outs : List Out
  ok : Bool

structure Frag where
  buffer : UInt64
  nbytes : UInt32
  /-- Whether the target can be accessed when it is posted. -/
  access : Bool
  deriving DecidableEq

def dmaAddr (buffer : UInt64) : UInt64 := buffer &&& 0x1fffffffff

def Frag.desc (f : Frag) (transferId : UInt32) : SrcDesc :=
  { bufferAddr := dmaAddr f.buffer, nbytes := f.nbytes.toUInt16, metaData := transferId.toUInt16 }

variable (ce : Engine)

def SrcRing.post (r : SrcRing) (t : Transfer) : SrcRing :=
  let w := r.writeIndex.toNat
  { r with
    shadow := update r.shadow w t.desc
    desc := update r.desc w t.desc
    perTransferContext := update r.perTransferContext w t.ctx
    writeIndex := ceRingIdxIncr ce.srcMask r.writeIndex }

def SrcRing.take (r : SrcRing) : SrcRing :=
  { r with
    perTransferContext := update r.perTransferContext r.swIndex.toNat 0
    swIndex := ceRingIdxIncr ce.srcMask r.swIndex }

def DestRing.take (r : DestRing) : DestRing :=
  { r with
    perTransferContext := update r.perTransferContext r.swIndex.toNat 0
    swIndex := ceRingIdxIncr ce.destMask r.swIndex }

def ceSendNolock (s : CeState) (ctx : UInt64) (f : Frag) (transferId : UInt32) : Res :=
  if f.access = false then ⟨s, [], false⟩
  else if ceRingDelta ce.srcMask s.src.writeIndex (s.src.swIndex - 1) = 0 then ⟨s, [], false⟩
  else
    let t := ⟨ctx, f.desc transferId⟩
    ⟨{ s with src := s.src.post ce t }, [.sent t], true⟩

/-- All fragments but the last, whatever becomes of each. -/
def sendFrags (transferId : UInt32) : CeState → List Frag → CeState × List Out
  | s, [] => (s, [])
  | s, f :: fs =>
    let r := ceSendNolock ce s ceSendlistItemCtxt f transferId
    let rest := sendFrags transferId r.st fs
    (rest.1, r.outs ++ rest.2)

/-- `access` is for the index that fastpath mode reads. -/
def ceSendlistSend (s : CeState) (ctx : UInt64) (frags : List Frag) (last : Frag)
    (transferId : UInt32) (access : Bool) : Res :=
  let s₁ := if ce.fastpathModeOn && ce.httTxData && access then
      { s with src := { s.src with swIndex := s.src.readIndex } }
    else s
  if frags.length + 1 ≤ (ceRingDelta ce.srcMask s₁.src.writeIndex (s₁.src.swIndex - 1)).toNat then
    let most := sendFrags ce transferId s₁ frags
    let r := ceSendNolock ce most.1 ctx last transferId
    ⟨r.st, most.2 ++ r.outs, r.ok⟩
  else ⟨s₁, [], false⟩

def ceRecvBufEnqueue (s : CeState) (ctx buffer : UInt64) (access : Bool) : Res :=
  if access = false then ⟨s, [], false⟩
  else if 0 < ceRingDelta ce.destMask s.dest.writeIndex (s.dest.swIndex - 1) ∨
      (ce.fastpathModeOn && ce.httRxData) = true then
    let w := s.dest.writeIndex
    let next := ceRingIdxIncr ce.destMask w
    let dest := { s.dest with
      desc := update s.dest.desc w.toNat
        { s.dest.desc w.toNat with bufferAddr := dmaAddr buffer, nbytes := 0 }
      perTransferContext := update s.dest.perTransferContext w.toNat ctx
      writeIndex := if next = s.dest.swIndex then w else next }
    ⟨{ s with dest := dest }, [.queued ⟨ctx, dmaAddr buffer⟩], true⟩
  else ⟨s, [], false⟩

def ceCompletedRecvNext (s : CeState) : Res :=
  let i := s.dest.swIndex.toNat
  let d := s.dest.desc i
  if d.nbytes = 0 then ⟨s, [], false⟩
  else
    let dest := { s.dest with desc := update s.dest.desc i { d with nbytes := 0 } }
    ⟨{ s with dest := dest.take ce },
      [.recvDone ⟨s.dest.perTransferContext i, d.bufferAddr⟩ d.nbytes d.metaData d.byteSwap], true⟩

def ceRevokeRecvNext (s : CeState) : Res :=
  if s.dest.writeIndex = s.dest.swIndex then ⟨s, [], false⟩
  else
    let i := s.dest.swIndex.toNat
    ⟨{ s with dest := s.dest.take ce },
      [.revoked ⟨s.dest.perTransferContext i, (s.dest.desc i).bufferAddr⟩], true⟩

def refresh (s : CeState) (err : Bool) : CeState :=
  if s.src.hwIndex = s.src.swIndex then
    { s with src := { s.src with hwIndex := if err then readError else s.src.readIndex } }
  else s

/-- The access to the target begins and ends around the register, if it is read. -/
def ceCompletedSendNext (s : CeState) (accessBegin accessEnd err : Bool) : Res :=
  if s.src.hwIndex = s.src.swIndex ∧ accessBegin = false then ⟨s, [], false⟩
  else if s.src.hwIndex = s.src.swIndex ∧ accessEnd = false then ⟨refresh s err, [], false⟩
  else
    let s₁ := refresh s err
    if s₁.src.hwIndex ≠ s₁.src.swIndex ∧ s₁.src.hwIndex ≠ readError then
      let i := s₁.src.swIndex.toNat
      ⟨{ s₁ with src := s₁.src.take ce },
        [.sendDone ⟨s₁.src.perTransferContext i, s₁.src.shadow i⟩], true⟩
    else ⟨s₁, [], false⟩

def ceCancelSendNext (s : CeState) : Res :=
  if s.src.writeIndex = s.src.swIndex then ⟨s, [], false⟩
  else
    let i := s.src.swIndex.toNat
    ⟨{ s with src := s.src.take ce }, [.sendDone ⟨s.src.perTransferContext i, s.src.desc i⟩], true⟩

def targetTake (s : CeState) : CeState :=
  if s.src.readIndex = s.src.writeIndex then s
  else { s with src := { s.src with readIndex := ceRingIdxIncr ce.srcMask s.src.readIndex } }

/-- The target fills the next buffer, if there is one. -/
def targetFill (s : CeState) (nbytes metaData : UInt16) (swap : Bool) : CeState :=
  if s.dest.readIndex = s.dest.writeIndex then s
  else
    let i := s.dest.readIndex.toNat
    { s with dest := { s.dest with
        desc := update s.dest.desc i
          { s.dest.desc i with nbytes := nbytes, metaData := metaData, byteSwap := swap }
        readIndex := ceRingIdxIncr ce.destMask s.dest.readIndex } }

inductive Event
  | send (ctx : UInt64) (f : Frag) (transferId : UInt32)
  | sendlist (ctx : UInt64) (frags : List Frag) (last : Frag) (transferId : UInt32) (access : Bool)
  | recvBufEnqueue (ctx buffer : UInt64) (access : Bool)
  | targetTake
  | targetFill (nbytes metaData : UInt16) (swap : Bool)
  | completedSendNext (accessBegin accessEnd err : Bool)
  | completedRecvNext
  | cancelSendNext
  | revokeRecvNext
  deriving DecidableEq

def Event.final : Event → Bool
  | .cancelSendNext | .revokeRecvNext => true
  | _ => false

def Res.done (r : Res) : CeState × List Out := (r.st, r.outs ++ [.status r.ok])

def step (s : CeState) : Event → CeState × List Out
  | .send ctx f transferId => (ceSendNolock ce s ctx f transferId).done
  | .sendlist ctx frags last transferId access =>
    (ceSendlistSend ce s ctx frags last transferId access).done
  | .recvBufEnqueue ctx buffer access => (ceRecvBufEnqueue ce s ctx buffer access).done
  | .targetTake => (targetTake ce s, [])
  | .targetFill nbytes metaData swap => (targetFill ce s nbytes metaData swap, [])
  | .completedSendNext accessBegin accessEnd err =>
    (ceCompletedSendNext ce s accessBegin accessEnd err).done
  | .completedRecvNext => (ceCompletedRecvNext ce s).done
  | .cancelSendNext => (ceCancelSendNext ce s).done
  | .revokeRecvNext => (ceRevokeRecvNext ce s).done

def machine : Machine CeState Event Out := ⟨step ce⟩

def SrcRing.transfer (r : SrcRing) (i : ℕ) : Transfer := ⟨r.perTransferContext i, r.shadow i⟩

def DestRing.buffer (r : DestRing) (i : ℕ) : Buffer := ⟨r.perTransferContext i, (r.desc i).bufferAddr⟩

def pendingSends (s : CeState) : List Transfer :=
  WordRing.get s.src.transfer ce.srcNentries.toNat s.src.swIndex.toNat
    (ceRingDelta ce.srcMask s.src.swIndex s.src.writeIndex).toNat

def pendingRecvs (s : CeState) : List Buffer :=
  WordRing.get s.dest.buffer ce.destNentries.toNat s.dest.swIndex.toNat
    (ceRingDelta ce.destMask s.dest.swIndex s.dest.writeIndex).toNat

def Out.sent? : Out → Option Transfer
  | .sent t => some t
  | _ => none

def Out.sendDone? : Out → Option Transfer
  | .sendDone t => some t
  | _ => none

def Out.queued? : Out → Option Buffer
  | .queued b => some b
  | _ => none

def Out.recvDone? : Out → Option Buffer
  | .recvDone b _ _ _ | .revoked b => some b
  | _ => none

end KernelModules.CopyEngine
