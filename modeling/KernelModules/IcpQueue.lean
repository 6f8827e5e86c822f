import KernelModules.Machine
import KernelModules.WordRing

/-!
# The host firmware interface of the camera ICP

The host puts commands into one ring of words and takes messages out of two others; the firmware
does the opposite. All the headers are in one table, the rings are apart from it.

The firmware is the environment. It takes whole commands, and it writes what it likes to the
other rings and moves their write indices.
-/

namespace KernelModules.IcpHfi

abbrev qCmd : ℕ := 0

abbrev qMsg : ℕ := 1

abbrev qDbg : ℕ := 2

/-- `ICP_CMD_Q_SIZE_IN_BYTES`, and so for the other two. -/
abbrev cmdQSizeInBytes : UInt32 := 4096

abbrev msgQSizeInBytes : UInt32 := 4096

abbrev dbgQSizeInBytes : UInt32 := 102400

abbrev maxPktSizeInWords : UInt32 := 25600

abbrev maxPktSizeMsgqInWords : UInt32 := 1024

inductive HfiState
  | deinit
  | init
  | ready
  deriving DecidableEq

inductive Rc
  | ok
  | eInval
  | eNodev
  | eIo

structure HfiQHdr where
  qSize : UInt32
  readIdx : UInt32
  writeIdx : UInt32

structure HfiInfo where
  hfiState : HfiState
  cmdQState : Bool
  msgQState : Bool
  qHdr : ℕ → HfiQHdr
  cmdQ : ℕ → UInt32
  msgQ : ℕ → UInt32
  dbgQ : ℕ → UInt32

structure Message where
  rc : Rc
  msg : List UInt32 := []
  wordsRead : Option UInt32 := none

def HfiInfo.setHdr (hfi : HfiInfo) (qId : ℕ) (q : HfiQHdr) : HfiInfo :=
  { hfi with qHdr := Function.update hfi.qHdr qId q }

/-- `cmd` is what lies behind the pointer to the command. -/
def hfiWriteCmd (g : Option HfiInfo) (cmd : ℕ → UInt32) : Option HfiInfo × Rc :=
  match g with
  | none => (g, .eNodev)
  | some hfi =>
    if hfi.hfiState ≠ .ready ∨ hfi.cmdQState = false then (g, .eNodev)
    else
      let q := hfi.qHdr qCmd
      let sizeInWords := cmd 0 >>> 2
      if sizeInWords = 0 then (g, .eInval)
      else if WordRing.emptySpace q.qSize q.readIdx q.writeIdx ≤ sizeInWords then (g, .eIo)
      else
        let stored := WordRing.store hfi.cmdQ q.qSize q.writeIdx sizeInWords q.writeIdx.toNat cmd
        (some { hfi.setHdr qCmd { q with writeIdx := stored.2 } with cmdQ := stored.1 }, .ok)

/-- The header is that of the queue asked for, the ring that of the messages or else that of the
debug queue. -/
def hfiReadMessage (g : Option HfiInfo) (qId : ℕ) : Option HfiInfo × Message :=
  if qDbg < qId then (g, { rc := .eInval })
  else
    match g with
    | none => (g, { rc := .eNodev })
    | some hfi =>
      if hfi.hfiState ≠ .ready ∨ hfi.msgQState = false then (g, { rc := .eNodev })
      else
        let q := hfi.qHdr qId
        if q.readIdx = q.writeIdx then (g, { rc := .eIo })
        else
          let readQ := if qId = qMsg then hfi.msgQ else hfi.dbgQ
          let sizeUpperBound := if qId = qMsg then maxPktSizeMsgqInWords else maxPktSizeInWords
          let bytes := if qId = qMsg then msgQSizeInBytes else dbgQSizeInBytes
          let sizeInWords :=
            if q.readIdx < q.writeIdx then q.writeIdx - q.readIdx
            else (bytes >>> 2) - (q.readIdx - q.writeIdx)
          if sizeInWords = 0 ∨ sizeUpperBound < sizeInWords then
            (some (hfi.setHdr qId { q with readIdx := q.writeIdx }), { rc := .eIo })
          else
            let ranges := WordRing.ranges q.qSize q.readIdx sizeInWords (q.readIdx.toNat * 4)
            (some (hfi.setHdr qId { q with readIdx := ranges.2 }),
              { rc := .ok
                msg := WordRing.gather readQ ranges.1
                wordsRead := some sizeInWords })

/-- The interface after `cam_hfi_init`; the rings are not cleared. -/
def initialised (cmdQ msgQ dbgQ : ℕ → UInt32) : HfiInfo where
  hfiState := .ready
  cmdQState := true
  msgQState := true
  qHdr qId :=
    let bytes :=
      if qId = qCmd then cmdQSizeInBytes else if qId = qMsg then msgQSizeInBytes else dbgQSizeInBytes
    { qSize := bytes >>> 2, readIdx := 0, writeIdx := 0 }
  cmdQ := cmdQ
  msgQ := msgQ
  dbgQ := dbgQ

/-- The firmware takes the command at the read index, if there is one. -/
def consumeCmd (hfi : HfiInfo) : HfiInfo × Option (List UInt32) :=
  let q := hfi.qHdr qCmd
  if q.readIdx = q.writeIdx then (hfi, none)
  else
    let ranges := WordRing.ranges q.qSize q.readIdx (hfi.cmdQ q.readIdx.toNat >>> 2)
      (q.readIdx.toNat * 4)
    (hfi.setHdr qCmd { q with readIdx := ranges.2 }, some (WordRing.gather hfi.cmdQ ranges.1))

/-- The firmware rewrites the ring of messages or the one of the debug queue. -/
def postMessages (qId : ℕ) (words : ℕ → UInt32) (writeIdx : UInt32) (hfi : HfiInfo) : HfiInfo :=
  let hfi' := hfi.setHdr qId { hfi.qHdr qId with writeIdx := writeIdx }
  if qId = qMsg then { hfi' with msgQ := words } else { hfi' with dbgQ := words }

/-- Messages are in the two rings from the firmware, and it keeps their write indices inside. -/
def Posts (qId : ℕ) (writeIdx : UInt32) : Prop :=
  qId = qMsg ∧ writeIdx < msgQSizeInBytes >>> 2 ∨ qId = qDbg ∧ writeIdx < dbgQSizeInBytes >>> 2
deriving Decidable

inductive Input
  | writeCmd (cmd : ℕ → UInt32)
  | readMessage (qId : ℕ)
  | consume
  | post (qId : ℕ) (words : ℕ → UInt32) (writeIdx : UInt32)

inductive Event
  | wrote (rc : Rc) (content : List UInt32)
  | read (qId : ℕ) (message : Message)
  | consumed (content : List UInt32)

def content (cmd : ℕ → UInt32) : List UInt32 := WordRing.cells cmd 0 (cmd 0 >>> 2).toNat

def machine : Machine (Option HfiInfo) Input Event where
  step g
    | .writeCmd cmd => ((hfiWriteCmd g cmd).1, [.wrote (hfiWriteCmd g cmd).2 (content cmd)])
    | .readMessage qId => ((hfiReadMessage g qId).1, [.read qId (hfiReadMessage g qId).2])
    | .consume =>
      (g.map fun hfi => (consumeCmd hfi).1,
        (g.bind fun hfi => (consumeCmd hfi).2).toList.map .consumed)
    | .post qId words writeIdx => (g.map (postMessages qId words writeIdx), [])

end KernelModules.IcpHfi
