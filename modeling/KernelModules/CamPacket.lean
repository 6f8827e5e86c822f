import Mathlib.Data.Int.Notation
import Mathlib.Data.Nat.Notation

/-!
# Packets of the camera driver

User space hands a packet to a device of the camera: a header, and a payload with three arrays at
offsets that the header tells. A command descriptor of the first array names a buffer, and the part
of it that user space has filled. Nothing of a packet or of a buffer can be trusted.

Positions in a packet count bytes from its start, those in a buffer from the start of its mapping.
-/

namespace KernelModules.CamPacket

abbrev Bytes := ℕ → UInt8

def einval : ℤ := 22

def enomem : ℤ := 12

def wordAt (mem : Bytes) (p : ℕ) : UInt32 :=
  (mem p).toUInt32 ||| ((mem (p + 1)).toUInt32 <<< 8) ||| ((mem (p + 2)).toUInt32 <<< 16) |||
    ((mem (p + 3)).toUInt32 <<< 24)

structure CmdBufDesc where
  memHandle : Int32
  offset : UInt32
  size : UInt32
  length : UInt32

structure PatchDesc where
  dstBufHdl : Int32
  dstOffset : UInt32
  srcBufHdl : Int32
  srcOffset : UInt32

def sizeofCmdBufDesc : ℕ := 24

def sizeofBufIoCfg : ℕ := 256

def sizeofPatchDesc : ℕ := 16

structure Packet where
  size : UInt32
  cmdBufOffset : UInt32
  numCmdBuf : UInt32
  ioConfigsOffset : UInt32
  numIoConfigs : UInt32
  patchOffset : UInt32
  numPatches : UInt32
  kmdCmdBufIndex : UInt32
  kmdCmdBufOffset : UInt32
  /-- What lies from the start of the packet on. -/
  bytes : Bytes

/-- `offsetof(struct cam_packet, payload)`. -/
def payload : ℕ := 56

def cmdBufDescAt (mem : Bytes) (p : ℕ) : CmdBufDesc where
  memHandle := (wordAt mem p).toInt32
  offset := wordAt mem (p + 4)
  size := wordAt mem (p + 8)
  length := wordAt mem (p + 12)

def patchDescAt (mem : Bytes) (p : ℕ) : PatchDesc where
  dstBufHdl := (wordAt mem p).toInt32
  dstOffset := wordAt mem (p + 4)
  srcBufHdl := (wordAt mem (p + 8)).toInt32
  srcOffset := wordAt mem (p + 12)

/-- What the memory manager answers: an error, or an address and a length. -/
structure MemMgr where
  getCpuBuf : Int32 → Except ℤ (ℕ × ℕ)
  getIoBuf : Int32 → Int32 → Except ℤ (ℕ × ℕ)
  isSecureBuf : Int32 → Bool

def getCmdMemAddr (mm : MemMgr) (handle : Int32) : Except ℤ (ℕ × ℕ) :=
  match mm.getCpuBuf handle with
  | .error rc => .error rc
  | .ok (kmdBufAddr, len) =>
    if kmdBufAddr ≠ 0 ∧ len ≠ 0 then .ok (kmdBufAddr, len) else .error (-enomem)

def validateCmdDesc (cmdDesc : CmdBufDesc) : ℤ :=
  if cmdDesc.size < cmdDesc.length ∨ cmdDesc.memHandle ≤ 0 then -einval else 0

/-- Sums and products are those of `size_t`. -/
def validatePacket (packet : Packet) (remainLen : UInt64) : ℤ :=
  if remainLen < packet.size.toUInt64 then -einval
  else
    let sumCmdDesc := packet.numCmdBuf.toUInt64 * UInt64.ofNat sizeofCmdBufDesc
    let sumIoCfgs := packet.numIoConfigs.toUInt64 * UInt64.ofNat sizeofBufIoCfg
    let sumPatchDesc := packet.numPatches.toUInt64 * UInt64.ofNat sizeofPatchDesc
    let pktWoPayload := UInt64.ofNat payload
    if packet.size = 0 ∨
        packet.size.toUInt64 < pktWoPayload + packet.cmdBufOffset.toUInt64 + sumCmdDesc ∨
        packet.size.toUInt64 < pktWoPayload + packet.ioConfigsOffset.toUInt64 + sumIoCfgs ∨
        packet.size.toUInt64 < pktWoPayload + packet.patchOffset.toUInt64 + sumPatchDesc then
      -einval
    else 0

structure KmdBufInfo where
  handle : Int32
  cpuAddr : ℕ
  offset : UInt32
  size : UInt32
  usedBytes : UInt32

def Packet.kmdDescPos (packet : Packet) : ℕ :=
  payload + packet.cmdBufOffset.toNat + sizeofCmdBufDesc * packet.kmdCmdBufIndex.toNat

def Packet.kmdDesc (packet : Packet) : CmdBufDesc :=
  cmdBufDescAt packet.bytes packet.kmdDescPos

def getKmdBuffer (mm : MemMgr) (packet : Packet) : Except ℤ KmdBufInfo :=
  if packet.numCmdBuf ≤ packet.kmdCmdBufIndex then .error (-einval)
  else
    let cmdDesc := packet.kmdDesc
    if validateCmdDesc cmdDesc ≠ 0 then .error (validateCmdDesc cmdDesc)
    else
      match getCmdMemAddr mm cmdDesc.memHandle with
      | .error rc => .error rc
      | .ok (cpuAddr, len) =>
        if len ≤ cmdDesc.offset.toNat ∨ len - cmdDesc.offset.toNat < cmdDesc.size.toNat then
          .error (-einval)
        else if len - cmdDesc.offset.toNat ≤ packet.kmdCmdBufOffset.toNat then .error (-einval)
        else
          .ok {
            handle := cmdDesc.memHandle
            -- The address is one of words.
            cpuAddr := cpuAddr +
              4 * (cmdDesc.offset.toNat / 4 + packet.kmdCmdBufOffset.toNat / 4)
            offset := cmdDesc.offset + packet.kmdCmdBufOffset
            size := cmdDesc.size - cmdDesc.length
            usedBytes := 0 }

/-- What a walk over an array of a packet does: what it returns, where it has read words of the
packet and which words of other buffers it has written. -/
structure Walk where
  rc : ℤ
  reads : List ℕ
  writes : List (ℕ × UInt32)

def Packet.patchPos (packet : Packet) (i : ℕ) : ℕ :=
  payload + 4 * (packet.patchOffset.toNat / 4) + sizeofPatchDesc * i

def sizeofPointer : ℕ := 8

/-- The loop over the patches that are left, of which the first one is the `i`-th; `rc` is what the
last call returned. -/
def patchLoop (mm : MemMgr) (packet : Packet) (iommuHdl secMmuHdl : Int32) (rc : ℤ) :
    ℕ → ℕ → Walk
  | _, 0 => ⟨rc, [], []⟩
  | i, left + 1 =>
    let p := packet.patchPos i
    let patch := patchDescAt packet.bytes p
    let hdl := if mm.isSecureBuf patch.srcBufHdl then secMmuHdl else iommuHdl
    match mm.getIoBuf patch.srcBufHdl hdl with
    | .error rc => ⟨rc, [p + 8, p + 8], []⟩
    | .ok (iovaAddr, srcBufSize) =>
      match mm.getCpuBuf patch.dstBufHdl with
      | .error rc => ⟨rc, [p + 8, p + 8, p], []⟩
      | .ok (cpuAddr, dstBufLen) =>
        if cpuAddr = 0 ∨ dstBufLen = 0 then ⟨0, [p + 8, p + 8, p], []⟩
        else if srcBufSize ≤ patch.srcOffset.toNat then
          ⟨-einval, [p + 8, p + 8, p, p + 12], []⟩
        else if dstBufLen < sizeofPointer ∨
            dstBufLen - sizeofPointer < patch.dstOffset.toNat then
          ⟨-einval, [p + 8, p + 8, p, p + 12, p + 4], []⟩
        else
          let rest := patchLoop mm packet iommuHdl secMmuHdl 0 (i + 1) left
          { rest with
            reads := [p + 8, p + 8, p, p + 12, p + 4, p + 4, p + 12] ++ rest.reads
            writes := (cpuAddr + patch.dstOffset.toNat,
              UInt32.ofNat iovaAddr + patch.srcOffset) :: rest.writes }

def processPatches (mm : MemMgr) (packet : Packet) (iommuHdl secMmuHdl : Int32) : Walk :=
  patchLoop mm packet iommuHdl secMmuHdl 0 0 packet.numPatches.toNat

end KernelModules.CamPacket
