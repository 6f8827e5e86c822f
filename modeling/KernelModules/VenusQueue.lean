import KernelModules.Machine
import KernelModules.WordRing

/-!
# The Venus interface queue

Host and firmware share a queue: a header and an array of 32-bit words. The writer copies a
packet behind the write index and moves it, the reader copies the packet at the read index and
moves that. The first word of a packet is its size in bytes.

The array is addressed by bytes from a base address, as the pointers of the source are; its words
are numbered from the base.
-/

namespace KernelModules.Venus

/-- `VIDC_IFACEQ_VAR_HUGE_PKT_SIZE`, the size of the buffers packets are read to. -/
abbrev varHugePktSize : UInt32 := 12288

/-- `VIDC_IFACEQ_QUEUE_SIZE`. -/
abbrev queueSize : UInt32 := 819200

inductive Rc
  | ok
  | eInval
  | eNoent
  | eNomem
  | eNodata
  | eNotempty
  deriving DecidableEq

structure HfiQueueHeader where
  type : UInt32
  rxReq : UInt32
  txReq : UInt32
  readIdx : UInt32
  writeIdx : UInt32

/-- Address `0` is the null pointer. An array lies within the address space. -/
structure VidcMemAddr where
  alignVirtualAddr : UInt64
  memSize : UInt32
  fits : alignVirtualAddr.toNat + memSize.toNat < 2 ^ 64

structure VidcIfaceQInfo where
  qHdr : Option HfiQueueHeader
  qArray : VidcMemAddr
  words : ℕ → UInt32

abbrev Packet := ℕ → UInt32

/-- The packet a caller gets. `copies` are the byte ranges of the array it is copied from, as
offset and length, and `loads` those read for anything else. -/
structure Reading where
  rc : Rc
  loads : List (ℕ × ℕ) := []
  copies : List (ℕ × ℕ) := []
  packet : List UInt32 := []
  txReqIsSet : Option Bool := none

def setQueueHdrDefaults : HfiQueueHeader where
  type := 0x01010000
  rxReq := 1
  txReq := 0
  readIdx := 0
  writeIdx := 0

/-- `HFI_Q_ID_CTRL_TO_HOST_MSG_Q` is set in the type of the message queue. -/
def HfiQueueHeader.receiveRequest (queue : HfiQueueHeader) : UInt32 :=
  if queue.type &&& 0x01 ≠ 0 then 1 else 0

namespace VidcIfaceQInfo

variable (q : VidcIfaceQInfo)

def sizeInWords : UInt32 := q.qArray.memSize >>> 2

def ptr (idx : UInt32) : UInt64 := q.qArray.alignVirtualAddr + (idx <<< 2).toUInt64

def endPtr : UInt64 := q.qArray.alignVirtualAddr + q.qArray.memSize.toUInt64

end VidcIfaceQInfo

/-- With the outcome comes whether the firmware asked for an interrupt. -/
def writeQueue (q : VidcIfaceQInfo) (packet : Packet) : VidcIfaceQInfo × Rc × Bool :=
  if q.qArray.alignVirtualAddr = 0 then (q, .eInval, false)
  else
    match q.qHdr with
    | none => (q, .eNoent, false)
    | some queue =>
      let packetSizeInWords := packet 0 >>> 2
      if packetSizeInWords = 0 ∨ q.sizeInWords < packetSizeInWords then (q, .eNodata, false)
      else
        let writeIdx := queue.writeIdx
        if WordRing.emptySpace q.sizeInWords queue.readIdx writeIdx ≤ packetSizeInWords then
          ({ q with qHdr := some { queue with txReq := 1 } }, .eNotempty, false)
        else
          let queue := { queue with txReq := 0 }
          if q.ptr writeIdx < q.qArray.alignVirtualAddr ∨ q.endPtr < q.ptr writeIdx then
            ({ q with qHdr := some queue }, .eNodata, false)
          else
            let stored := WordRing.store q.words q.sizeInWords writeIdx packetSizeInWords
              ((writeIdx <<< 2).toNat / 4) packet
            ({ q with qHdr := some { queue with writeIdx := stored.2 }, words := stored.1 },
              .ok, queue.rxReq = 1)

def readQueue (q : VidcIfaceQInfo) : VidcIfaceQInfo × Reading :=
  if q.qArray.alignVirtualAddr = 0 then (q, { rc := .eInval })
  else
    match q.qHdr with
    | none => (q, { rc := .eNomem })
    | some queue =>
      let readIdx := queue.readIdx
      let writeIdx := queue.writeIdx
      if readIdx = writeIdx then
        ({ q with qHdr := some { queue with rxReq := queue.receiveRequest } },
          { rc := .eNodata, txReqIsSet := some false })
      else if q.ptr readIdx < q.qArray.alignVirtualAddr ∨ q.endPtr - 4 < q.ptr readIdx then
        (q, { rc := .eNodata })
      else
        let off := (readIdx <<< 2).toNat
        let packetSizeInWords := q.words (off / 4) >>> 2
        if packetSizeInWords = 0 then (q, { rc := .eNodata, loads := [(off, 4)] })
        else
          let good := packetSizeInWords <<< 2 ≤ varHugePktSize ∧ readIdx ≤ q.sizeInWords
          let ranges := WordRing.ranges q.sizeInWords readIdx packetSizeInWords off
          let copies := if good then ranges.1 else []
          let newReadIdx := if good then ranges.2 else writeIdx
          ({ q with qHdr := some { queue with
            readIdx := newReadIdx
            rxReq := if newReadIdx ≠ writeIdx then 0 else queue.receiveRequest } },
            { rc := if good then .ok else .eNodata
              loads := [(off, 4)]
              copies := copies
              packet := WordRing.gather q.words copies
              txReqIsSet := some (queue.txReq = 1) })

namespace VidcIfaceQInfo

variable (q : VidcIfaceQInfo)

theorem toNat_sizeInWords : q.sizeInWords.toNat = q.qArray.memSize.toNat / 4 :=
  WordRing.toNat_shiftRight_two q.qArray.memSize

theorem sizeInWords_le : q.sizeInWords.toNat < 2 ^ 30 := by
  have := q.qArray.memSize.toNat_lt
  rw [q.toNat_sizeInWords]
  omega

theorem readPtr_ok (hsize : 4 ≤ q.qArray.memSize.toNat) (idx : UInt32) :
    ¬(q.ptr idx < q.qArray.alignVirtualAddr ∨ q.endPtr - 4 < q.ptr idx) ↔
      (idx <<< 2).toNat + 4 ≤ q.qArray.memSize.toNat := by
  have hfits := q.qArray.fits
  have hbase := q.qArray.alignVirtualAddr.toNat_lt
  have hoff := (idx <<< 2).toNat_lt
  have hmem := q.qArray.memSize.toNat_lt
  have hfour : (4 : UInt64).toNat = 4 := rfl
  simp only [ptr, endPtr, UInt64.lt_iff_toNat_lt, UInt64.toNat_add, UInt64.toNat_sub,
    UInt32.toNat_toUInt64, hfour]
  omega

theorem writePtr_ok {idx : UInt32} (hidx : idx.toNat < q.sizeInWords.toNat) :
    ¬(q.ptr idx < q.qArray.alignVirtualAddr ∨ q.endPtr < q.ptr idx) := by
  have hfits := q.qArray.fits
  have hmem := q.qArray.memSize.toNat_lt
  have hsize := q.toNat_sizeInWords
  simp only [ptr, endPtr, UInt64.lt_iff_toNat_lt, UInt64.toNat_add, UInt32.toNat_toUInt64,
    WordRing.toNat_shiftLeft_two]
  omega

end VidcIfaceQInfo

/-- The queue is allocated, with the header `hdr`. -/
structure Allocated (q : VidcIfaceQInfo) (hdr : HfiQueueHeader) : Prop where
  base : q.qArray.alignVirtualAddr ≠ 0
  hdr : q.qHdr = some hdr

section Calls

variable {q : VidcIfaceQInfo} {hdr : HfiQueueHeader}

theorem readQueue_empty (hq : Allocated q hdr) (hidx : hdr.readIdx = hdr.writeIdx) :
    readQueue q = ({ q with qHdr := some { hdr with rxReq := hdr.receiveRequest } },
      { rc := .eNodata, txReqIsSet := some false }) := by
  unfold readQueue
  rw [if_neg hq.base, hq.hdr]
  exact if_pos hidx

theorem readQueue_outside (hq : Allocated q hdr) (hidx : hdr.readIdx ≠ hdr.writeIdx)
    (hsize : 4 ≤ q.qArray.memSize.toNat)
    (hout : q.qArray.memSize.toNat < (hdr.readIdx <<< 2).toNat + 4) :
    readQueue q = (q, { rc := .eNodata }) := by
  have hptr := not_not.mp ((q.readPtr_ok hsize hdr.readIdx).not.mpr (by omega))
  unfold readQueue
  rw [if_neg hq.base, hq.hdr]
  dsimp only
  rw [if_neg hidx, if_pos hptr]

def sizeAt (q : VidcIfaceQInfo) (idx : UInt32) : UInt32 := q.words ((idx <<< 2).toNat / 4) >>> 2

theorem readQueue_zero (hq : Allocated q hdr) (hidx : hdr.readIdx ≠ hdr.writeIdx)
    (hsize : 4 ≤ q.qArray.memSize.toNat)
    (hin : (hdr.readIdx <<< 2).toNat + 4 ≤ q.qArray.memSize.toNat)
    (hzero : sizeAt q hdr.readIdx = 0) :
    readQueue q = (q, { rc := .eNodata, loads := [((hdr.readIdx <<< 2).toNat, 4)] }) := by
  have hptr := (q.readPtr_ok hsize hdr.readIdx).mpr hin
  unfold sizeAt at hzero
  unfold readQueue
  rw [if_neg hq.base, hq.hdr]
  dsimp only
  rw [if_neg hidx, if_neg hptr, if_pos hzero]

def Good (q : VidcIfaceQInfo) (hdr : HfiQueueHeader) : Prop :=
  sizeAt q hdr.readIdx <<< 2 ≤ varHugePktSize ∧ hdr.readIdx ≤ q.sizeInWords
deriving Decidable

theorem readQueue_sized (hq : Allocated q hdr) (hidx : hdr.readIdx ≠ hdr.writeIdx)
    (hsize : 4 ≤ q.qArray.memSize.toNat)
    (hin : (hdr.readIdx <<< 2).toNat + 4 ≤ q.qArray.memSize.toNat)
    (hpos : sizeAt q hdr.readIdx ≠ 0) :
    let ranges := WordRing.ranges q.sizeInWords hdr.readIdx (sizeAt q hdr.readIdx)
      (hdr.readIdx <<< 2).toNat
    let copies := if Good q hdr then ranges.1 else []
    let newReadIdx := if Good q hdr then ranges.2 else hdr.writeIdx
    readQueue q = ({ q with qHdr := some { hdr with
        readIdx := newReadIdx
        rxReq := if newReadIdx ≠ hdr.writeIdx then 0 else hdr.receiveRequest } },
      { rc := if Good q hdr then .ok else .eNodata
        loads := [((hdr.readIdx <<< 2).toNat, 4)]
        copies := copies
        packet := WordRing.gather q.words copies
        txReqIsSet := some (hdr.txReq = 1) }) := by
  have hptr := (q.readPtr_ok hsize hdr.readIdx).mpr hin
  unfold sizeAt at hpos
  intro ranges copies newReadIdx
  unfold readQueue
  rw [if_neg hq.base, hq.hdr]
  dsimp only
  rw [if_neg hidx, if_neg hptr, if_neg hpos]
  rfl

end Calls

end KernelModules.Venus
