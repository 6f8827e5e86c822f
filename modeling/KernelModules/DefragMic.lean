import KernelModules.Michael

/-!
# The MIC of a reassembled frame

`ol_rx_defrag_mic` goes through a chain of buffers. It takes the whole words that are in a buffer,
then a word that begins in one buffer and ends in the next, and at the end what is left of the data
with the padding. What is read is the payload of a buffer, behind the rx descriptor.
-/

namespace KernelModules.DefragMic

open Michael (State)

def rotl (val bits : UInt32) : UInt32 :=
  val <<< bits ||| val >>> (32 - bits)

def rotr (val bits : UInt32) : UInt32 :=
  val >>> bits ||| val <<< (32 - bits)

def xswap (val : UInt32) : UInt32 :=
  (val &&& 0x00ff00ff) <<< 8 ||| (val &&& 0xff00ff00) >>> 8

def getLe32Split (b0 b1 b2 b3 : UInt8) : UInt32 :=
  b0.toUInt32 ||| b1.toUInt32 <<< 8 ||| b2.toUInt32 <<< 16 ||| b3.toUInt32 <<< 24

def putLe32 (v : UInt32) : List UInt8 :=
  [(v &&& 0xff).toUInt8, (v >>> 8 &&& 0xff).toUInt8, (v >>> 16 &&& 0xff).toUInt8,
    (v >>> 24 &&& 0xff).toUInt8]

def michaelBlock (s : State) : State :=
  let r := s.r ^^^ rotl s.l 17
  let l := s.l + r
  let r := r ^^^ xswap l
  let l := l + r
  let r := r ^^^ rotl l 3
  let l := l + r
  let r := r ^^^ rotr l 2
  let l := l + r
  ⟨l, r⟩

/-- `l ^= w` and then the block. -/
def michaelWord (s : State) (w : UInt32) : State :=
  michaelBlock { s with l := s.l ^^^ w }

structure Nbuf where
  rxDesc : List UInt8
  payload : List UInt8
  deriving DecidableEq

inductive Status
  | err | ok
  deriving DecidableEq

/-- The status with the MIC; or something behind the end of a buffer has been read. -/
inductive MicResult
  | done (status : Status) (mic : List UInt8)
  | beyond
  deriving DecidableEq

def ieee80211WepMiclen : ℕ := 8

def field (wh : List UInt8) (offset n : ℕ) : List UInt8 :=
  (List.range n).map fun i => wh.getD (offset + i) 0

def addr1 (wh : List UInt8) : List UInt8 := field wh 4 6
def addr2 (wh : List UInt8) : List UInt8 := field wh 10 6
def addr3 (wh : List UInt8) : List UInt8 := field wh 16 6
def addr4 (wh : List UInt8) : List UInt8 := field wh 24 6

def fc0 (wh : List UInt8) : UInt8 := wh.getD 0 0
def fc1 (wh : List UInt8) : UInt8 := wh.getD 1 0
def qos0 (wh : List UInt8) : UInt8 := wh.getD 24 0

/-- The pseudo header: destination, source, priority and three zeros. -/
def olRxDefragMichdr (wh : List UInt8) : List UInt8 :=
  let dir := fc1 wh &&& 0x03
  let addrs :=
    if dir = 0x00 then addr1 wh ++ addr2 wh
    else if dir = 0x01 then addr3 wh ++ addr2 wh
    else if dir = 0x02 then addr1 wh ++ addr3 wh
    else addr3 wh ++ addr4 wh
  addrs ++ [if fc0 wh &&& 0x80 ≠ 0 then qos0 wh &&& 0x0f else 0, 0, 0, 0]

def michdrSize (wh : List UInt8) : ℕ :=
  if fc1 wh &&& 0x03 = 0x03 then 30 else if fc0 wh &&& 0x80 ≠ 0 then 25 else 22

def words : State → List UInt8 → State
  | s, b0 :: b1 :: b2 :: b3 :: bytes => words (michaelWord s (getLe32Split b0 b1 b2 b3)) bytes
  | s, _ => s

/-- The loop that collects 32-bit blocks: the pointer stands before `data` in the buffer. -/
def collect : State → List UInt8 → ℕ → ℕ → Option (State × List UInt8 × ℕ × ℕ)
  | s, b0 :: b1 :: b2 :: b3 :: data, space, dataLen =>
    if 4 ≤ space then
      collect (michaelWord s (getLe32Split b0 b1 b2 b3)) data (space - 4) (dataLen - 4)
    else some (s, b0 :: b1 :: b2 :: b3 :: data, space, dataLen)
  | s, data, space, dataLen => if 4 ≤ space then none else some (s, data, space, dataLen)

/-- Last block and padding (0x5a, 4..7 x 0). -/
def lastBlock (s : State) (data : List UInt8) (dataLen : ℕ) : MicResult :=
  let finish (w : UInt32) :=
    let s := michaelBlock (michaelWord s w)
    MicResult.done .ok (putLe32 s.l ++ putLe32 s.r)
  match dataLen, data with
  | 0, _ => finish (getLe32Split 0x5a 0 0 0)
  | 1, b0 :: _ => finish (getLe32Split b0 0x5a 0 0)
  | 2, b0 :: b1 :: _ => finish (getLe32Split b0 b1 0x5a 0)
  | 3, b0 :: b1 :: b2 :: _ => finish (getLe32Split b0 b1 b2 0x5a)
  | _, _ => .beyond

/-- The loop over the buffers. -/
def micLoop (s : State) (data : List UInt8) (space dataLen : ℕ) :
    List Nbuf → MicResult
  | [] =>
    let space := if dataLen < space then dataLen else space
    match collect s data space dataLen with
    | none => .beyond
    | some (s, data, _, dataLen) =>
      if dataLen < 4 then lastBlock s data dataLen
      -- There is no next buffer.
      else .done .err []
  | wbuf :: wbufs =>
    let space := if dataLen < space then dataLen else space
    match collect s data space dataLen with
    | none => .beyond
    | some (s, data, space, dataLen) =>
      if dataLen < 4 then lastBlock s data dataLen
      else if space ≠ 0 then
        -- Block straddles buffers, split references.
        if wbuf.payload.length < 4 - space then .done .err []
        else
          match space, data, wbuf.payload with
          | 1, b0 :: _, n0 :: n1 :: n2 :: dataNext =>
            micLoop (michaelWord s (getLe32Split b0 n0 n1 n2)) dataNext
              (wbuf.payload.length - 3) (dataLen - 4) wbufs
          | 2, b0 :: b1 :: _, n0 :: n1 :: dataNext =>
            micLoop (michaelWord s (getLe32Split b0 b1 n0 n1)) dataNext
              (wbuf.payload.length - 2) (dataLen - 4) wbufs
          | 3, b0 :: b1 :: b2 :: _, n0 :: dataNext =>
            micLoop (michaelWord s (getLe32Split b0 b1 b2 n0)) dataNext
              (wbuf.payload.length - 1) (dataLen - 4) wbufs
          | _, _, _ => .beyond
      else micLoop s wbuf.payload wbuf.payload.length dataLen wbufs

def olRxDefragMic (key : Vector UInt8 8) (wbuf : Nbuf) (wbufs : List Nbuf) (off dataLen : UInt16) :
    MicResult :=
  let hdr := olRxDefragMichdr wbuf.payload
  let key := key.toList
  let s : State :=
    ⟨getLe32Split (key.getD 0 0) (key.getD 1 0) (key.getD 2 0) (key.getD 3 0),
      getLe32Split (key.getD 4 0) (key.getD 5 0) (key.getD 6 0) (key.getD 7 0)⟩
  -- Michael MIC pseudo header: DA, SA, 3 x 0, Priority
  let s := words s hdr
  micLoop s (wbuf.payload.drop off.toNat) (wbuf.payload.length - off.toNat) dataLen.toNat wbufs

/-- The status and the buffer as it is left; nothing when something behind it has been read. -/
def olRxFragTkipDemic (key : Vector UInt8 8) (msdu : Nbuf) (hdrlen : UInt16) :
    Option (Status × Nbuf) :=
  let pktlen := msdu.payload.length
  let dataLen := UInt16.ofNat (pktlen - (hdrlen.toNat + ieee80211WepMiclen))
  match olRxDefragMic key msdu [] hdrlen dataLen with
  | .beyond => none
  | .done .err _ => some (.err, msdu)
  | .done .ok mic =>
    let mic0 := msdu.payload.drop (pktlen - ieee80211WepMiclen)
    if mic = mic0 then some (.err, msdu)
    else some (.ok, { msdu with payload := msdu.payload.take (pktlen - ieee80211WepMiclen) })

end KernelModules.DefragMic
