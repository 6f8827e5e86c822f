import KernelModules.HtcWire
import KernelModules.Packing

/-!
# Bundles of HTC packets

For a bus that takes few and large transfers packets are copied into bundles. A packet is filled up
to whole credits, and a bundle is sent when the next packet does not fit. On USB the last packet is
not filled up. On SDIO the bundle ends at a block of the bus where there is room for that, and else
a flag in the header of its last packet says that a block of padding follows, which takes one more
credit. The header that SDIO writes into a packet is part of what is copied.
-/

namespace KernelModules.HtcBundle

open HtcWire

inductive Bus
  | usb
  | sdio
  deriving DecidableEq

/-- A packet whose fragments hold the header and the payload, the header in the first of them. -/
structure Packet where
  frags : List (List UInt8)
  actualLength : ℕ
  sendFlags : ℕ
  seqNo : ℕ
  endpoint : ℕ
  header : hdrLength ≤ (frags.headD []).length
  whole : actualLength + hdrLength ≤ frags.flatten.length

def Packet.transferLength (packet : Packet) : ℕ := packet.actualLength + hdrLength

def creditPad (txCreditSize transferLength : ℕ) : ℕ :=
  let creditRemainder := transferLength % txCreditSize
  if creditRemainder ≠ 0 then
    if transferLength < txCreditSize then txCreditSize - transferLength else creditRemainder
  else 0

def flagsSendBundle : ℕ := 1 <<< 1

def flagsPaddingCheck : UInt8 := (1 : UInt8) <<< 4

def minMsgPerBundle : ℕ := 2

def sdioBlockSize : ℤ := 512

section

variable (bus : Bus) (txCreditSize : ℕ)

/-- The header for a bundle. -/
def Packet.bundleHdr (packet : Packet) : List UInt8 :=
  bytesOfWord (sm packet.actualLength FrameHdr.payloadLen |||
      sm (packet.sendFlags ||| flagsSendBundle) FrameHdr.flags |||
      sm packet.endpoint FrameHdr.endpointID) ++
    bytesOfWord (sm packet.seqNo FrameHdr.controlBytes1 |||
      sm (creditPad txCreditSize packet.transferLength) FrameHdr.reserved)

def writeHdr (hdr : List UInt8) : List (List UInt8) → List (List UInt8)
  | [] => []
  | frag :: frags => (hdr ++ frag.drop hdr.length) :: frags

def Packet.bundleFrags (packet : Packet) : List (List UInt8) :=
  match bus with
  | .usb => packet.frags
  | .sdio => writeHdr (packet.bundleHdr txCreditSize) packet.frags

/-- The loop over the fragments, with what is left to copy. -/
def copyFrags : List (List UInt8) → ℕ → Bytes × ℕ → Bytes × ℕ
  | [], _, buffer => buffer
  | frag :: frags, nbytes, buffer =>
    if nbytes = 0 then buffer
    else
      let fragLen := if nbytes < frag.length then nbytes else frag.length
      copyFrags frags (nbytes - fragLen)
        (copy buffer.1 buffer.2 (frag.take fragLen), buffer.2 + fragLen)

structure Open where
  mem : Bytes
  /-- How far the bundle is filled. -/
  pos : ℕ
  /-- Where each packet starts. -/
  frames : List (ℕ × Packet)

structure Bundle where
  mem : Bytes
  dataLen : ℤ
  frames : List (ℕ × Packet)
  /-- The packet whose header tells of padding. -/
  marked : Option ℕ
  sent : Bool

/-- `htc_handle_extra_tx_credit`: where the bundle ends, and the header to mark. -/
def handleExtraTxCredit (o : Open) : ℤ × Option ℕ :=
  match bus, o.frames.getLast? with
  | .sdio, some (lastPktBundleBuffer, lastHtcPkt) =>
    let totDataLen : ℤ := o.pos
    let lastBufLen : ℤ := lastHtcPkt.transferLength
    let firstBufBundledLen := if totDataLen ≠ lastBufLen then totDataLen - txCreditSize else 0
    let freeSpace :=
      if totDataLen ≠ lastBufLen then totDataLen - (firstBufBundledLen + lastBufLen)
      else txCreditSize - totDataLen
    let sdioPad := sdioBlockSize - (firstBufBundledLen + lastBufLen).tmod sdioBlockSize
    if sdioPad ≤ freeSpace then (totDataLen - (freeSpace - sdioPad), none)
    else (totDataLen, some lastPktBundleBuffer)
  | _, _ => (o.pos, none)

def markHeader (mem : Bytes) : Option ℕ → Bytes
  | none => mem
  | some p => copy mem (p + 1) [mem (p + 1) ||| flagsPaddingCheck]

/-- What `htc_send_bundled_netbuf` makes of a bundle. -/
def Open.close (lastCreditPad : ℕ) (sent : Bool) (o : Open) : Bundle :=
  let (bundleEnd, marked) := handleExtraTxCredit bus txCreditSize o
  { mem := markHeader o.mem marked
    dataLen := bundleEnd - lastCreditPad
    frames := o.frames
    marked := marked
    sent := sent }

/-- What the environment decides: what lies in the buffer of a new bundle and whether there is one,
whether the bus takes a bundle, and whether there are credits for padding. Bundles are counted, and
credits are asked for with so many packets left. -/
structure Env where
  stale : ℕ → Bytes
  alloc : ℕ → Bool
  send : ℕ → Bool
  padCreditAvail : ℕ → Bool

structure Issue where
  bundles : List Bundle
  cur : Open
  bundlesSpaceRemaining : ℤ
  lastCreditPad : ℕ
  /-- TxQueue of the endpoint, which gets back the packets of a bundle that is not sent. -/
  txQueue : List Packet

structure Result where
  bundles : List Bundle
  /-- What is left of the queue that was to be sent. -/
  pktQueue : List Packet
  txQueue : List Packet

variable (maxMsgsPerHTCBundle : ℕ) (env : Env)

def Issue.fresh (s : Issue) : Issue :=
  { s with
    cur := ⟨env.stale s.bundles.length, 0, []⟩
    bundlesSpaceRemaining := maxMsgsPerHTCBundle * txCreditSize }

/-- `htc_send_bundled_netbuf`. -/
def Issue.send (s : Issue) : Issue :=
  let sent := env.send s.bundles.length
  { s with
    bundles := s.bundles ++ [s.cur.close bus txCreditSize s.lastCreditPad sent]
    txQueue := if sent then s.txQueue else s.cur.frames.map Prod.snd ++ s.txQueue }

/-- The copy of a packet into the bundle. -/
def Issue.put (s : Issue) (packet : Packet) : Issue :=
  let pad := creditPad txCreditSize packet.transferLength
  let buffer := copyFrags (packet.bundleFrags bus txCreditSize) packet.transferLength
    (s.cur.mem, s.cur.pos)
  { s with
    cur := ⟨buffer.1, buffer.2 + pad, s.cur.frames ++ [(s.cur.pos, packet)]⟩
    bundlesSpaceRemaining := s.bundlesSpaceRemaining - (packet.transferLength + pad : ℕ)
    lastCreditPad := if bus = .usb then pad else s.lastCreditPad }

def Issue.finish (s : Issue) (pktQueue : List Packet) : Result :=
  let s := if s.cur.pos ≠ 0 then s.send bus txCreditSize env else s
  ⟨s.bundles, pktQueue, s.txQueue⟩

/-- The loop of `htc_issue_packets_bundle`. -/
def issueLoop : List Packet → Issue → Result
  | [], s => s.finish bus txCreditSize env []
  | packet :: pktQueue, s =>
    if bus = .sdio ∧ ¬env.padCreditAvail (pktQueue.length + 1) then
      s.finish bus txCreditSize env (packet :: pktQueue)
    else
      let transferLength :=
        packet.transferLength + creditPad txCreditSize packet.transferLength
      if s.bundlesSpaceRemaining < transferLength then
        let s := s.send bus txCreditSize env
        if pktQueue.length + 1 < minMsgPerBundle ∨ ¬env.alloc s.bundles.length then
          ⟨s.bundles, packet :: pktQueue, s.txQueue⟩
        else
          issueLoop pktQueue
            ((s.fresh txCreditSize maxMsgsPerHTCBundle env).put bus txCreditSize packet)
      else issueLoop pktQueue (s.put bus txCreditSize packet)

/-- `htc_issue_packets_bundle`. -/
def issuePacketsBundle (pktQueue txQueue : List Packet) : Result :=
  if ¬env.alloc 0 then ⟨[], pktQueue, txQueue⟩
  else
    issueLoop bus txCreditSize maxMsgsPerHTCBundle env pktQueue
      ⟨[], ⟨env.stale 0, 0, []⟩, maxMsgsPerHTCBundle * txCreditSize, 0, txQueue⟩

end

def weight (txCreditSize : ℕ) (packet : Packet) : ℕ :=
  packet.transferLength + creditPad txCreditSize packet.transferLength

def Packet.frame (bus : Bus) (txCreditSize : ℕ) (packet : Packet) : List UInt8 :=
  (packet.bundleFrags bus txCreditSize).flatten.take packet.transferLength

theorem length_flatten_writeHdr {hdr : List UInt8} {frags : List (List UInt8)}
    (h : hdr.length ≤ (frags.headD []).length) :
    (writeHdr hdr frags).flatten.length = frags.flatten.length := by
  cases frags with
  | nil => rfl
  | cons frag frags =>
    rw [List.headD_cons] at h
    simp only [writeHdr, List.flatten_cons, List.length_append, List.length_drop]
    omega

theorem length_frame (bus : Bus) (txCreditSize : ℕ) (packet : Packet) :
    (packet.frame bus txCreditSize).length = packet.transferLength := by
  have hlen : (packet.bundleFrags bus txCreditSize).flatten.length = packet.frags.flatten.length := by
    cases bus with
    | usb => rfl
    | sdio =>
      rw [Packet.bundleFrags]
      exact length_flatten_writeHdr packet.header
  rw [Packet.frame, List.length_take, hlen]
  exact Nat.min_eq_left packet.whole

theorem copyFrags_eq (frags : List (List UInt8)) (nbytes : ℕ) (buffer : Bytes × ℕ) :
    copyFrags frags nbytes buffer = (copy buffer.1 buffer.2 (frags.flatten.take nbytes),
      buffer.2 + (frags.flatten.take nbytes).length) := by
  induction frags generalizing nbytes buffer with
  | nil => simp [copyFrags, copy_nil]
  | cons frag frags ih =>
    rw [copyFrags]
    by_cases hzero : nbytes = 0
    · simp [hzero, copy_nil]
    · rw [if_neg hzero]
      rw [ih, List.flatten_cons, List.take_append]
      have htake : frag.take (if nbytes < frag.length then nbytes else frag.length) =
          frag.take nbytes := by
        split_ifs with hlt
        · rfl
        · rw [List.take_length, List.take_of_length_le (Nat.le_of_not_lt hlt)]
      have hrest : nbytes - (if nbytes < frag.length then nbytes else frag.length) =
          nbytes - frag.length := by
        split_ifs <;> omega
      have hlen : (if nbytes < frag.length then nbytes else frag.length) =
          (frag.take nbytes).length := by
        rw [List.length_take]
        split_ifs <;> omega
      rw [hrest, htake, hlen]
      simp only [copy_copy, List.length_append, Nat.add_assoc]

end KernelModules.HtcBundle
