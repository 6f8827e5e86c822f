import KernelModules.Machine
import KernelModules.Batching

/-!
# Flow nodes of rmnet_perf

`rmnet_perf_opt_ingress` looks for the flow node of a packet and hands the packet to the TCP or UDP
helper, which keeps it in the node, or gives out what the node holds first, or gives out the packet
as well. A node that is flushed leaves as one packet with the headers of the first one held and a
GSO size.

Addresses and IP flags of a node are unions: an IPv4 packet writes and compares the first words
only. What is read through `pkt_info->frag_desc` is a part of the packet of its own, as the
pointer is a union with `pkt_info->skb`.
-/

namespace KernelModules.Rmnet

structure In6Addr where
  w0 : UInt32
  w1 : UInt32
  w2 : UInt32
  w3 : UInt32
deriving DecidableEq

/-- The first four bytes of an IPv6 header, or the TTL, TOS and fragment field of IPv4. -/
structure IpFlags where
  b0 : UInt8
  b1 : UInt8
  half : UInt16
deriving DecidableEq

@[ext] structure IpHdr4 where
  tos : UInt8
  id : UInt16
  fragOff : UInt16
  ttl : UInt8
  saddr : UInt32
  daddr : UInt32
  options : List UInt8
deriving DecidableEq

/-- The extension headers stand with the type by which the header before names them. -/
@[ext] structure IpHdr6 where
  firstWord : IpFlags
  hopLimit : UInt8
  saddr : In6Addr
  daddr : In6Addr
  exts : List (UInt8 × List UInt8)
deriving DecidableEq

inductive IpHdr where
  | v4 (h : IpHdr4)
  | v6 (h : IpHdr6)
deriving DecidableEq

@[ext] structure TcpHdr where
  source : UInt16
  dest : UInt16
  seq : UInt32
  ackSeq : UInt32
  res : UInt8
  cwr : Bool
  ece : Bool
  urg : Bool
  ack : Bool
  psh : Bool
  rst : Bool
  syn : Bool
  fin : Bool
  window : UInt16
  urgPtr : UInt16
  options : List UInt8
deriving DecidableEq

structure UdpHdr where
  source : UInt16
  dest : UInt16
deriving DecidableEq

inductive TransHdr where
  | tcp (h : TcpHdr)
  | udp (h : UdpHdr)
deriving DecidableEq

/-- The headers of a packet, apart from lengths and checksums. -/
structure Header where
  ip : IpHdr
  trans : TransHdr
deriving DecidableEq

def ipprotoTcp : UInt8 := 6

def ipprotoUdp : UInt8 := 17

def TransHdr.proto : TransHdr → UInt8
  | .tcp _ => ipprotoTcp
  | .udp _ => ipprotoUdp

def TransHdr.source : TransHdr → UInt16
  | .tcp h => h.source
  | .udp h => h.source

def TransHdr.dest : TransHdr → UInt16
  | .tcp h => h.dest
  | .udp h => h.dest

def TransHdr.len : TransHdr → ℕ
  | .tcp h => 20 + h.options.length
  | .udp _ => 8

def IpHdr.len : IpHdr → ℕ
  | .v4 h => 20 + h.options.length
  | .v6 h => 40 + (h.exts.flatMap Prod.snd).length

/-- The protocol field of IPv4, or the `nexthdr` field of IPv6. -/
def Header.nexthdr (h : Header) : UInt8 :=
  match h.ip with
  | .v4 _ => h.trans.proto
  | .v6 ip6h => (ip6h.exts.head?.map Prod.fst).getD h.trans.proto

inductive Addrs where
  | v4 (saddr daddr : UInt32)
  | v6 (saddr daddr : In6Addr)
deriving DecidableEq

structure Tuple where
  addrs : Addrs
  proto : UInt8
  source : UInt16
  dest : UInt16
deriving DecidableEq

def IpHdr.addrs : IpHdr → Addrs
  | .v4 h => .v4 h.saddr h.daddr
  | .v6 h => .v6 h.saddr h.daddr

def Header.flow (h : Header) : Tuple := ⟨h.ip.addrs, h.trans.proto, h.trans.source, h.trans.dest⟩

/-- What `rmnet_perf_core_compute_flow_hash` puts into the hash. -/
def Header.hashed (h : Header) : Tuple := ⟨h.ip.addrs, h.nexthdr, h.trans.source, h.trans.dest⟩

/-- What is read through `pkt_info->frag_desc`. In the frag mode the headers may stand apart from
the fragment, and `frag_desc->hdr_ptr` is then not the fragment's data. -/
structure FragDesc where
  gsoSize : ℕ
  tcpSeq : Option UInt32
  hdrApart : Bool
deriving DecidableEq

structure PktInfo where
  hdr : Header
  payload : List UInt8
  fragDesc : FragDesc
deriving DecidableEq

abbrev Packet := Header × List UInt8

def PktInfo.packet (p : PktInfo) : Packet := (p.hdr, p.payload)

def Header.len (h : Header) : ℕ := h.ip.len + h.trans.len

/-- A packet given up the stack, with so many bytes of its headers; a GSO size of 0 stands for a
packet that is not segmented. -/
structure Delivered where
  hdr : Header
  hdrLen : ℕ
  payload : List UInt8
  gsoSize : ℕ

inductive OptMode where
  | tcp
  | udp
  | all
  | non
deriving DecidableEq

/-- What the module is set up with: the hash and its bucket, the mode of the core, the limits
given as module parameters, how a header is laid out in bytes, and whether options seem to differ
when those of the first packet are read behind a wrong header length. -/
structure Config where
  hash : Tuple → UInt32
  bucket : UInt32 → Fin 16
  deagMode : Bool
  tcpFlushLimit : ℕ
  udpFlushLimit : ℕ
  bytes : Header → List UInt8
  length_bytes : ∀ h, (bytes h).length = h.len
  misread : PktInfo → TcpHdr → Bool

/-- The counters `num_pkts_held` and `len` are read off the packets held. -/
structure FlowNode where
  index : ℕ
  ipLen : UInt8
  transLen : UInt8
  transProto : UInt8
  srcPort : UInt16
  destPort : UInt16
  saddr : In6Addr
  daddr : In6Addr
  ipFlags : IpFlags
  nextSeq : UInt32
  gsoLen : ℕ
  hashValue : UInt32
  pktList : List PktInfo
deriving DecidableEq

/-- The hash table, the newest node first, and the pool's counter. -/
structure State where
  nodes : List FlowNode
  flowRecycleCounter : UInt16
  optMode : OptMode

def numFlowNodes : ℕ := 50

namespace FlowNode

def len (n : FlowNode) : ℕ := (n.pktList.flatMap PktInfo.payload).length

def hdrLen (n : FlowNode) : ℕ := n.ipLen.toNat + n.transLen.toNat

def fresh (index : ℕ) : FlowNode :=
  ⟨index, 0, 0, 0, 0, 0, ⟨0, 0, 0, 0⟩, ⟨0, 0, 0, 0⟩, ⟨0, 0, 0⟩, 0, 0, 0, []⟩

end FlowNode

def OptMode.optimizes (mode : OptMode) (protocol : UInt8) : Bool :=
  if mode = .all then true
  else if protocol = ipprotoTcp then mode = .tcp
  else if protocol = ipprotoUdp then mode = .udp
  else false

variable (cfg : Config)

def hashKey (p : PktInfo) : UInt32 := cfg.hash p.hdr.hashed

/-- `rmnet_perf_opt_ip_flag_flush` -/
def ipFlagFlush (n : FlowNode) (p : PktInfo) : Bool :=
  match p.hdr.ip with
  | .v4 ip4h =>
    ip4h.ttl ≠ n.ipFlags.b0 ∨ ip4h.tos ≠ n.ipFlags.b1 ∨ ip4h.fragOff ≠ n.ipFlags.half ∨
      ip4h.options ≠ []
  | .v6 ip6h =>
    (ip6h.firstWord.b0 ^^^ n.ipFlags.b0) &&& 0x0f ≠ 0 ∨
      (ip6h.firstWord.b1 ^^^ n.ipFlags.b1) &&& 0xf0 ≠ 0

/-- `rmnet_perf_opt_identify_flow`: an empty node passes with its hash alone. -/
def identifyFlow (n : FlowNode) (p : PktInfo) : Bool :=
  if n.pktList = [] ∧ n.hashValue = hashKey cfg p then true
  else if n.transProto ≠ p.hdr.trans.proto then false
  else
    match p.hdr.ip with
    | .v4 ip4h =>
      n.saddr.w0 = ip4h.saddr ∧ n.daddr.w0 = ip4h.daddr ∧ n.srcPort = p.hdr.trans.source ∧
        n.destPort = p.hdr.trans.dest
    | .v6 ip6h =>
      n.saddr = ip6h.saddr ∧ n.daddr = ip6h.daddr ∧ n.srcPort = p.hdr.trans.source ∧
        n.destPort = p.hdr.trans.dest

def tcpFlagFlush (p : PktInfo) (tp : TcpHdr) : Bool :=
  (p.payload = [] ∧ tp.ack) ∨ tp.cwr ∨ tp.syn ∨ tp.fin ∨ tp.rst ∨ tp.urg ∨ tp.psh

/-- `rmnet_perf_tcp_opt_cmp_options`: the options differ from those of the first packet held. -/
def cmpOptions (n : FlowNode) (tp : TcpHdr) : Bool :=
  match n.pktList.head? with
  | none => false
  | some q =>
    match q.hdr.trans with
    | .tcp flowHeader =>
      if n.ipLen.toNat = q.hdr.ip.len then tp.options ≠ flowHeader.options else cfg.misread q tp
    | .udp _ => false

inductive MergeCheck where
  | mergeSuccess
  | flushSome
  | flushAll
deriving DecidableEq

def gsoLenOf (p : PktInfo) : ℕ :=
  if p.fragDesc.gsoSize ≠ 0 then p.fragDesc.gsoSize else p.payload.length

def tcpSeqOf (p : PktInfo) (tp : TcpHdr) : UInt32 := p.fragDesc.tcpSeq.getD tp.seq

def tcpPktCanBeMerged (n : FlowNode) (p : PktInfo) (tp : TcpHdr) : MergeCheck :=
  if n.nextSeq ≠ tcpSeqOf p tp then .flushAll
  else if cfg.tcpFlushLimit ≤ p.payload.length + n.len then .flushSome
  else if 50 ≤ n.pktList.length then .flushSome
  else if n.gsoLen ≠ gsoLenOf p then .flushSome
  else .mergeSuccess

def udpPktCanBeMerged (n : FlowNode) (p : PktInfo) : MergeCheck :=
  if n.gsoLen ≠ gsoLenOf p then .flushSome
  else if cfg.udpFlushLimit ≤ p.payload.length + n.len then .flushSome
  else if 50 ≤ n.pktList.length then .flushSome
  else .mergeSuccess

/-- `rmnet_perf_opt_update_flow`; of the fragment field the CE and DF bits are kept. -/
def updateFlow (n : FlowNode) (p : PktInfo) : FlowNode :=
  match p.hdr.ip with
  | .v4 iph => { n with ipFlags := ⟨iph.ttl, iph.tos, iph.fragOff &&& 0xc000⟩ }
  | .v6 ip6h => { n with ipFlags := ip6h.firstWord }

/-- What a packet behind the first one adds in the frag mode: headers are pulled by the lengths
of the first packet. -/
def pulled (n : FlowNode) (p : PktInfo) : List UInt8 :=
  if p.fragDesc.hdrApart then p.payload
  else (cfg.bytes p.hdr ++ p.payload).drop n.hdrLen

def subfrags (n : FlowNode) (head : PktInfo) (rest : List PktInfo) : Delivered :=
  ⟨head.hdr, head.hdr.len, head.payload ++ rest.flatMap (pulled cfg n), n.gsoLen⟩

/-- `rmnet_perf_opt_make_flow_skb` and `rmnet_perf_opt_flow_skb_fixup` -/
def flowSkb (n : FlowNode) (head : PktInfo) (rest : List PktInfo) : Delivered :=
  ⟨head.hdr, n.hdrLen, (head :: rest).flatMap PktInfo.payload,
    if rest = [] then 0
    else if n.transProto = ipprotoTcp ∨ n.transProto = ipprotoUdp then n.gsoLen
    else 0⟩

def emptied (n : FlowNode) : FlowNode := { n with pktList := [] }

/-- What `rmnet_perf_opt_flush_single_flow_node` sends; the node is `emptied` by it. -/
def flushed (n : FlowNode) : List Delivered :=
  match n.pktList with
  | [] => []
  | head :: rest => [if cfg.deagMode then flowSkb n head rest else subfrags cfg n head rest]

/-- `rmnet_perf_core_flush_curr_pkt` -/
def flushCurrPkt (p : PktInfo) : Delivered :=
  ⟨p.hdr, p.hdr.len, p.payload, if cfg.deagMode then 0 else p.fragDesc.gsoSize⟩

/-- The flow information copied with the first packet. The transport protocol noted is that of
the IP header. -/
def copyFlow (n : FlowNode) (p : PktInfo) : FlowNode :=
  { n with
    transProto := p.hdr.nexthdr
    srcPort := p.hdr.trans.source
    destPort := p.hdr.trans.dest
    ipLen := .ofNat p.hdr.ip.len
    transLen := .ofNat p.hdr.trans.len
    hashValue := hashKey cfg p
    gsoLen :=
      if ¬cfg.deagMode ∧ p.fragDesc.gsoSize ≠ 0 then p.fragDesc.gsoSize else p.payload.length
    saddr :=
      match p.hdr.ip with
      | .v4 iph => { n.saddr with w0 := iph.saddr }
      | .v6 ip6h => ip6h.saddr
    daddr :=
      match p.hdr.ip with
      | .v4 iph => { n.daddr with w0 := iph.daddr }
      | .v6 ip6h => ip6h.daddr
    nextSeq :=
      match p.hdr.trans with
      | .tcp tp => tcpSeqOf p tp
      | .udp _ => n.nextSeq }

def addPkt (n : FlowNode) (p : PktInfo) : FlowNode :=
  { n with
    pktList := n.pktList ++ [p]
    nextSeq :=
      match p.hdr.trans with
      | .tcp _ => n.nextSeq + UInt32.ofNat p.payload.length
      | .udp _ => n.nextSeq }

/-- `rmnet_perf_opt_insert_pkt_in_flow` -/
def insertPktInFlow (n : FlowNode) (p : PktInfo) (firstPacket : Bool) : FlowNode :=
  addPkt (if firstPacket then copyFlow cfg n p else n) p

def tcpOptIngress (n : FlowNode) (p : PktInfo) (tp : TcpHdr) (flush : Bool) :
    FlowNode × List Delivered :=
  if flush ∨ tcpFlagFlush p tp then
    (emptied (updateFlow n p), flushed cfg (updateFlow n p) ++ [flushCurrPkt cfg p])
  else if n.pktList = [] then (insertPktInFlow cfg n p true, [])
  else
    match tcpPktCanBeMerged cfg n p tp with
    | .flushAll => (emptied n, flushed cfg n ++ [flushCurrPkt cfg p])
    | .flushSome => (insertPktInFlow cfg (emptied n) p true, flushed cfg n)
    | .mergeSuccess =>
      if cmpOptions cfg n tp then (insertPktInFlow cfg (emptied n) p true, flushed cfg n)
      else (insertPktInFlow cfg n p false, [])

def udpOptIngress (n : FlowNode) (p : PktInfo) (flush : Bool) : FlowNode × List Delivered :=
  if flush then
    (emptied (updateFlow n p), flushed cfg (updateFlow n p) ++ [flushCurrPkt cfg p])
  else if n.pktList = [] then (insertPktInFlow cfg n p true, [])
  else
    match udpPktCanBeMerged cfg n p with
    | .mergeSuccess => (insertPktInFlow cfg n p false, [])
    | _ => (insertPktInFlow cfg (emptied n) p true, flushed cfg n)

def optNode (p : PktInfo) (n : FlowNode) : FlowNode × List Delivered :=
  match p.hdr.trans with
  | .tcp tp => tcpOptIngress cfg n p tp (ipFlagFlush n p)
  | .udp _ => udpOptIngress cfg n p (ipFlagFlush n p)

def found (p : PktInfo) (n : FlowNode) : Bool :=
  cfg.bucket n.hashValue = cfg.bucket (hashKey cfg p) ∧ identifyFlow cfg n p

def handlePkt (p : PktInfo) : List FlowNode → Option (List FlowNode × List Delivered)
  | [] => none
  | n :: ns =>
    if found cfg p n then some ((optNode cfg p n).1 :: ns, (optNode cfg p n).2)
    else (handlePkt p ns).map fun r => (n :: r.1, r.2)

/-- `rmnet_perf_opt_get_new_flow_index`: the node, the table without it, and what is flushed. -/
def getNewFlowIndex (s : State) : FlowNode × State × List Delivered :=
  if s.nodes.length < numFlowNodes then (.fresh s.nodes.length, s, [])
  else
    let i := s.flowRecycleCounter.toNat % numFlowNodes
    let s := { s with flowRecycleCounter := s.flowRecycleCounter + 1 }
    match s.nodes.find? fun n => n.index = i with
    | none => (.fresh i, s, [])
    | some n => (emptied n, { s with nodes := s.nodes.erase n }, flushed cfg n)

def addFlow (s : State) (p : PktInfo) : State × List Delivered :=
  let (n, s, out) := getNewFlowIndex cfg s
  ({ s with nodes := updateFlow { n with hashValue := hashKey cfg p } p :: s.nodes }, out)

/-- `rmnet_perf_opt_ingress`; the caller flushes a packet that is not handled. -/
def optIngress (s : State) (p : PktInfo) : State × List Delivered :=
  if s.optMode.optimizes p.hdr.trans.proto then
    match handlePkt cfg p s.nodes with
    | some (nodes, out) => ({ s with nodes := nodes }, out)
    | none =>
      let (s, out) := addFlow cfg s p
      match handlePkt cfg p s.nodes with
      | some (nodes, out') => ({ s with nodes := nodes }, out ++ out')
      | none => (s, out ++ [flushCurrPkt cfg p])
  else (s, [flushCurrPkt cfg p])

/-- The nodes in the order of `hash_for_each`. -/
def hashForEach (nodes : List FlowNode) : List FlowNode :=
  (List.range 16).flatMap fun b => nodes.filter fun n => (cfg.bucket n.hashValue).val = b

/-- The nodes of `order` that are selected are flushed one after the other. -/
def flushWhere (sel : FlowNode → Bool) (order : List FlowNode) (s : State) :
    State × List Delivered :=
  ({ s with nodes := s.nodes.map fun n => if sel n then emptied n else n },
    (order.filter sel).flatMap (flushed cfg))

def flushAllFlowNodes (s : State) : State × List Delivered :=
  flushWhere cfg (fun n => n.pktList ≠ []) (hashForEach cfg s.nodes) s

def flushFlowNodesByProtocol (protocol : UInt8) (s : State) : State × List Delivered :=
  flushWhere cfg (fun n => n.pktList ≠ [] ∧ n.transProto = protocol) (hashForEach cfg s.nodes) s

def flushFlowByHash (hashVal : UInt32) (s : State) : State × List Delivered :=
  flushWhere cfg
    (fun n => cfg.bucket n.hashValue = cfg.bucket hashVal ∧ hashVal = n.hashValue ∧
      n.pktList ≠ []) s.nodes s

def OptMode.parse (val : List Char) : Option OptMode :=
  match val.take 3 with
  | ['t', 'c', 'p'] => some .tcp
  | ['u', 'd', 'p'] => some .udp
  | ['a', 'l', 'l'] => some .all
  | ['n', 'o', 'n'] => some .non
  | _ => none

/-- `rmnet_perf_set_opt_mode` -/
def setOptMode (val : List Char) (s : State) : State × List Delivered :=
  match OptMode.parse val with
  | none => (s, [])
  | some mode =>
    let s' := { s with optMode := mode }
    if s.optMode = mode then (s', [])
    else
      match mode with
      | .all => (s', [])
      | .tcp => flushFlowNodesByProtocol cfg ipprotoUdp s'
      | .udp => flushFlowNodesByProtocol cfg ipprotoTcp s'
      | .non => flushAllFlowNodes cfg s'

inductive Event where
  | ingress (p : PktInfo)
  | flushAll
  | flushByHash (hashVal : UInt32)
  | setMode (val : List Char)

def step (s : State) : Event → State × List Delivered
  | .ingress p => optIngress cfg s p
  | .flushAll => flushAllFlowNodes cfg s
  | .flushByHash hashVal => flushFlowByHash cfg hashVal s
  | .setMode val => setOptMode cfg val s

def machine : Machine State Event Delivered := ⟨step cfg⟩

def init : State := ⟨[], 0, .all⟩

end KernelModules.Rmnet
