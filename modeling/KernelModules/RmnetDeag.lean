import KernelModules.RmnetDissect
import Mathlib.Logic.Function.Basic

/-!
# Taking an aggregated buffer apart

The loop goes from MAP frame to MAP frame. A packet of a frame is given out at once or held in a
flow node. What is given out is copied: a single packet by the length that the MAP header gives, a
flow by the lengths that were found in the packets held.

Which node a packet goes to, and whether it is held, is left open; so are the checksum, the packet
dropper and what the core driver does with a command.
-/

namespace KernelModules.RmnetDeag

def sizeofCsumTrailer : ℕ := 8

/-- Bytes that are copied from the buffer of a packet. -/
structure Copy where
  pkt : PktInfo
  start : ℕ
  len : ℕ

structure PktNode where
  pkt : PktInfo
  headerStart : ℕ
  dataStart : ℕ
  dataLen : UInt16

structure FlowNode where
  ipLen : UInt8
  transLen : UInt8
  pktList : List PktNode

/-- `rmnet_perf_opt_insert_pkt_in_flow`. -/
def insertPktInFlow (n : FlowNode) (p : PktInfo) (firstPacket : Bool) : FlowNode :=
  let headerLen := p.ipLen + p.transLen
  let n := { n with pktList := n.pktList ++ [⟨p, p.iph, p.iph + headerLen.toNat, p.payloadLen⟩] }
  if firstPacket then { n with ipLen := p.ipLen.toUInt8, transLen := p.transLen.toUInt8 } else n

/-- `rmnet_perf_opt_make_flow_skb`, of a node that holds packets. -/
def makeFlowSkb (n : FlowNode) : List Copy :=
  match n.pktList with
  | [] => []
  | first :: rest =>
    ⟨first.pkt, first.headerStart, n.ipLen.toNat + n.transLen.toNat⟩ ::
      (first :: rest).map fun q => ⟨q.pkt, q.dataStart, q.dataLen.toNat⟩

structure State where
  nodes : ℕ → FlowNode
  /-- The packets passed on. -/
  passed : List PktInfo
  copies : List Copy

def State.init : State := ⟨fun _ => ⟨0, 0, []⟩, [], []⟩

namespace State

/-- `rmnet_perf_opt_flush_single_flow_node`. -/
def flushNode (s : State) (i : ℕ) : State :=
  { s with
    nodes := Function.update s.nodes i { s.nodes i with pktList := [] }
    copies := s.copies ++ makeFlowSkb (s.nodes i) }

/-- `rmnet_perf_core_flush_curr_pkt`. -/
def flushCurr (s : State) (p : PktInfo) (packetLen : UInt16) : State :=
  { s with copies := s.copies ++ [⟨p, p.iph, packetLen.toNat⟩] }

def insert (s : State) (i : ℕ) (p : PktInfo) (firstPacket : Bool) : State :=
  { s with nodes := Function.update s.nodes i (insertPktInFlow (s.nodes i) p firstPacket) }

end State

/-- What `rmnet_perf_opt_ingress` makes of a packet. -/
inductive Choice
  | refused
  /-- The node is flushed and the packet after it. -/
  | flushed (i : ℕ)
  /-- The node holds the packet, behind the others or after they are flushed. -/
  | held (i : ℕ) (merge : Bool)

structure Env where
  skipExthdr : SkipExthdr
  hasEndpoint : UInt8 → Bool
  dropped : ℕ → Bool
  csumValid : PktInfo → Bool
  /-- The nodes with the hash of a packet. -/
  byHash : State → PktInfo → List ℕ
  /-- The nodes that are flushed to make room, and what is done with the packet. -/
  opt : State → PktInfo → List ℕ × Choice
  /-- How much `rmnet_map_flow_command` pulls of a DL marker. -/
  flowCommand : Skb → ℕ → Option ℕ
  flowCommand_pulls : ∀ {skb pos n}, flowCommand skb pos = some n → 0 < n ∧ pos + n ≤ skb.len

structure Port where
  ingressMapCksumV4 : Bool
  ingressDlMarker : Bool

/-- The branches of `rmnet_perf_opt_ingress` and of the protocol helpers. -/
def State.optIngress (s : State) (p : PktInfo) (pktLen : UInt16) : Choice → State
  | .refused => s.flushCurr p pktLen
  | .flushed i => (s.flushNode i).flushCurr p (p.ipLen + p.transLen + p.payloadLen)
  | .held i merge =>
    if (s.nodes i).pktList = [] then s.insert i p true
    else if merge then s.insert i p false
    else (s.flushNode i).insert i p true

/-- `rmnet_perf_core_handle_packet_ingress`, at a MAP header. -/
def handlePacketIngress (env : Env) (skb : Skb) (s : State) (maph frameLen trailerLen : ℕ) : State :=
  let pktLen := UInt16.ofNat (frameLen - sizeofMapHeader - trailerLen)
  match dissectPkt env.skipExthdr skb maph pktLen with
  | none => s
  | some d =>
    let p := d.pktInfo
    let s := { s with passed := s.passed ++ [p] }
    if d.skipHash then s.flushCurr p pktLen
    else if d.lenMismatch then ((env.byHash s p).foldl State.flushNode s).flushCurr p pktLen
    else if ¬env.csumValid p then s.flushCurr p pktLen
    else
      let (evicted, choice) := env.opt s p
      (evicted.foldl State.flushNode s).optIngress p pktLen choice

inductive Look
  | out
  | pull (n : ℕ)
  | packet (mapFrameLen : ℕ)

def trailerLen (port : Port) : ℕ := if port.ingressMapCksumV4 then sizeofCsumTrailer else 0

/-- The loop body of `__rmnet_perf_core_deaggregate` up to the packet. -/
def look (port : Port) (env : Env) (skb : Skb) (pos : ℕ) : Look :=
  if skb.len - pos = 0 then .out
  else
    let pktLen := be16 skb.data (pos + 2)
    if pktLen = 0 then .out
    else
      let mapFrameLen := pktLen.toNat + sizeofMapHeader + trailerLen port
      if skb.len - pos < mapFrameLen then .out
      -- The command bit of the MAP header.
      else if skb.data pos &&& 0x80 ≠ 0 then
        if port.ingressDlMarker then
          match env.flowCommand skb pos with
          | some n => .pull n
          | none => .pull mapFrameLen
        else .pull mapFrameLen
      else if ¬env.hasEndpoint (skb.data (pos + 1)) ∨ env.dropped pos then .pull mapFrameLen
      else .packet mapFrameLen

/-- `__rmnet_perf_core_deaggregate`; `none` is a loop that has not ended yet. -/
def deaggregate (port : Port) (env : Env) (skb : Skb) : ℕ → ℕ → State → Option State
  | 0, _, _ => none
  | fuel + 1, pos, s =>
    match look port env skb pos with
    | .out => some s
    | .pull n => deaggregate port env skb fuel (pos + n) s
    | .packet mapFrameLen =>
      deaggregate port env skb fuel (pos + mapFrameLen)
        (handlePacketIngress env skb s pos mapFrameLen (trailerLen port))

/-- A buffer is taken apart, or a node is flushed for some other reason. -/
inductive Event
  | deaggregate (port : Port) (env : Env) (skb : Skb)
  | flush (i : ℕ)

def run (fuel : ℕ) : List Event → State → Option State
  | [], s => some s
  | .deaggregate port env skb :: events, s =>
    match deaggregate port env skb fuel 0 s with
    | none => none
    | some s => run fuel events s
  | .flush i :: events, s => run fuel events (s.flushNode i)

/-- The MAP headers whose packets are taken in, with the lengths of their packets. -/
def frames (port : Port) (env : Env) (skb : Skb) : ℕ → ℕ → List (ℕ × UInt16)
  | 0, _ => []
  | fuel + 1, pos =>
    match look port env skb pos with
    | .out => []
    | .pull n => frames port env skb fuel (pos + n)
    | .packet mapFrameLen =>
      (pos, be16 skb.data (pos + 2)) :: frames port env skb fuel (pos + mapFrameLen)

def Event.len : Event → ℕ
  | .deaggregate _ _ skb => skb.len
  | .flush _ => 0

def Event.HeadersFit : Event → Prop
  | .deaggregate port env skb => ∀ frame ∈ frames port env skb (skb.len + 1) 0,
      RmnetDeag.HeadersFit env.skipExthdr skb frame.1 frame.2
  | .flush _ => True

/-- Every packet passed on lies in its bytes of the buffer, and so does all that is copied. -/
structure State.Inside (s : State) : Prop where
  passed : ∀ p ∈ s.passed, p.Inside
  copies : ∀ c ∈ s.copies, c.pkt ∈ s.passed ∧ c.pkt.iph ≤ c.start ∧
    c.start + c.len ≤ c.pkt.iph + c.pkt.pktLen.toNat

/-- The lengths of a node are no more than those of its first packet, and its packets were passed
on. -/
structure FlowNode.Held (passed : List PktInfo) (n : FlowNode) : Prop where
  mem : ∀ q ∈ n.pktList, q.pkt ∈ passed
  header : ∀ q ∈ n.pktList, q.headerStart = q.pkt.iph
  data : ∀ q ∈ n.pktList, q.dataStart = q.pkt.iph + (q.pkt.ipLen + q.pkt.transLen).toNat ∧
    q.dataLen = q.pkt.payloadLen
  first : ∀ q ∈ n.pktList.head?, n.ipLen.toNat ≤ q.pkt.ipLen.toNat ∧
    n.transLen.toNat ≤ q.pkt.transLen.toNat

def Copy.Follows (passed : List PktInfo) (c : Copy) : Prop :=
  c.pkt ∈ passed ∧ (c.pkt.Inside → c.pkt.iph ≤ c.start ∧
    c.start + c.len ≤ c.pkt.iph + c.pkt.pktLen.toNat)

structure State.Kept (s : State) : Prop where
  nodes : ∀ i, (s.nodes i).Held s.passed
  copies : ∀ c ∈ s.copies, c.Follows s.passed

theorem held_empty (passed : List PktInfo) (ipLen transLen : UInt8) :
    FlowNode.Held passed ⟨ipLen, transLen, []⟩ := ⟨nofun, nofun, nofun, nofun⟩

theorem toNat_add_le (a b : UInt16) : (a + b).toNat ≤ a.toNat + b.toNat := by
  rw [UInt16.toNat_add]
  exact Nat.mod_le _ _

theorem toNat_toUInt8_le (a : UInt16) : a.toUInt8.toNat ≤ a.toNat := by
  rw [UInt16.toNat_toUInt8]
  exact Nat.mod_le _ _

variable {passed : List PktInfo} {n : FlowNode}

theorem FlowNode.Held.follows (h : n.Held passed) : ∀ c ∈ makeFlowSkb n, c.Follows passed := by
  intro c hc
  obtain ⟨hmem, hheader, hdata, hfirst⟩ := h
  rw [makeFlowSkb] at hc
  cases hlist : n.pktList with
  | nil => simp [hlist] at hc
  | cons first rest =>
    rw [hlist] at hc hmem hheader hdata hfirst
    rcases List.mem_cons.mp hc with rfl | hc
    · refine ⟨hmem first List.mem_cons_self, fun hin : first.pkt.Inside => ?_⟩
      obtain ⟨hip, htrans⟩ := hfirst first rfl
      have hstart := hheader first List.mem_cons_self
      have := hin.headers
      dsimp only
      rw [hstart]
      omega
    · obtain ⟨q, hq, rfl⟩ := List.mem_map.mp hc
      refine ⟨hmem q hq, fun hin : q.pkt.Inside => ?_⟩
      obtain ⟨hstart, hlen⟩ := hdata q hq
      have := toNat_add_le q.pkt.ipLen q.pkt.transLen
      have := hin.headers
      dsimp only
      rw [hstart, hlen]
      omega

theorem FlowNode.Held.insert (h : n.Held passed)
    {p : PktInfo} (hp : p ∈ passed) {firstPacket : Bool}
    (hfirst : firstPacket = true ↔ n.pktList = []) :
    (insertPktInFlow n p firstPacket).Held passed := by
  have hlist : (insertPktInFlow n p firstPacket).pktList =
      n.pktList ++ [⟨p, p.iph, p.iph + (p.ipLen + p.transLen).toNat, p.payloadLen⟩] := by
    simp only [insertPktInFlow]
    split_ifs <;> rfl
  have hnew : ∀ q ∈ (insertPktInFlow n p firstPacket).pktList, q ∈ n.pktList ∨
      q = ⟨p, p.iph, p.iph + (p.ipLen + p.transLen).toNat, p.payloadLen⟩ := by
    intro q hq
    rw [hlist] at hq
    exact (List.mem_append.mp hq).imp_right List.mem_singleton.mp
  refine ⟨fun q hq => ?_, fun q hq => ?_, fun q hq => ?_, fun q hq => ?_⟩
  · rcases hnew q hq with hold | rfl
    · exact h.mem q hold
    · exact hp
  · rcases hnew q hq with hold | rfl
    · exact h.header q hold
    · rfl
  · rcases hnew q hq with hold | rfl
    · exact h.data q hold
    · exact ⟨rfl, rfl⟩
  · rw [hlist] at hq
    cases hn : n.pktList with
    | nil =>
      rw [hn] at hq
      cases hq
      simp only [insertPktInFlow, hfirst.mpr hn, reduceIte]
      exact ⟨toNat_toUInt8_le _, toNat_toUInt8_le _⟩
    | cons first rest =>
      have hlater : firstPacket = false := by
        rw [← Bool.not_eq_true, hfirst, hn]
        simp
      rw [hn] at hq
      simp only [insertPktInFlow, hlater]
      exact h.first q (by rw [hn]; exact hq)

namespace State.Kept

variable {s : State}

theorem init : State.init.Kept := ⟨fun _ => held_empty _ _ _, nofun⟩

theorem flushNode (h : s.Kept) (i : ℕ) : (s.flushNode i).Kept where
  nodes j := by
    simp only [State.flushNode, Function.update_apply]
    split_ifs
    · exact held_empty _ _ _
    · exact h.nodes j
  copies c hc := by
    rcases List.mem_append.mp hc with hold | hnew
    · exact h.copies c hold
    · exact (h.nodes i).follows c hnew

theorem flushNodes (h : s.Kept) (is : List ℕ) : (is.foldl State.flushNode s).Kept := by
  induction is generalizing s with
  | nil => exact h
  | cons i is ih => exact ih (h.flushNode i)

variable {p : PktInfo}

theorem flushCurr (h : s.Kept) (hp : p ∈ s.passed) {packetLen : UInt16}
    (hlen : p.Inside → packetLen.toNat ≤ p.pktLen.toNat) : (s.flushCurr p packetLen).Kept where
  nodes := h.nodes
  copies c hc := by
    rcases List.mem_append.mp hc with hold | hnew
    · exact h.copies c hold
    · rw [List.mem_singleton.mp hnew]
      exact ⟨hp, fun hin => ⟨Nat.le_refl _, Nat.add_le_add_left (hlen hin) _⟩⟩

theorem insert (h : s.Kept) (hp : p ∈ s.passed) {i : ℕ} {firstPacket : Bool}
    (hfirst : firstPacket = true ↔ (s.nodes i).pktList = []) : (s.insert i p firstPacket).Kept where
  nodes j := by
    simp only [State.insert, Function.update_apply]
    split_ifs
    · exact (h.nodes i).insert hp hfirst
    · exact h.nodes j
  copies := h.copies

theorem pass (h : s.Kept) (p : PktInfo) : State.Kept { s with passed := s.passed ++ [p] } where
  nodes i := ⟨fun q hq => List.mem_append_left _ ((h.nodes i).mem q hq), (h.nodes i).header,
    (h.nodes i).data, (h.nodes i).first⟩
  copies c hc := ⟨List.mem_append_left _ (h.copies c hc).1, (h.copies c hc).2⟩

theorem optIngress (h : s.Kept) (hp : p ∈ s.passed) (choice : Choice) :
    (s.optIngress p p.pktLen choice).Kept := by
  cases choice with
  | refused => exact h.flushCurr hp fun _ => Nat.le_refl _
  | flushed i =>
    refine (h.flushNode i).flushCurr hp fun hin => ?_
    have := toNat_add_le (p.ipLen + p.transLen) p.payloadLen
    have := toNat_add_le p.ipLen p.transLen
    have := hin.headers
    omega
  | held i merge =>
    simp only [State.optIngress]
    split_ifs with hempty hmerge
    · exact h.insert hp (by simp [hempty])
    · exact h.insert hp (by simp [hempty])
    · exact (h.flushNode i).insert hp (by simp [State.flushNode])

end State.Kept

@[simp] theorem flushNodes_passed (s : State) (is : List ℕ) :
    (is.foldl State.flushNode s).passed = s.passed := by
  induction is generalizing s with
  | nil => rfl
  | cons i is ih => exact ih (s.flushNode i)

theorem optIngress_passed (s : State) (p : PktInfo) (pktLen : UInt16) (choice : Choice) :
    (s.optIngress p pktLen choice).passed = s.passed := by
  cases choice with
  | refused => rfl
  | flushed i => rfl
  | held i merge =>
    simp only [State.optIngress]
    split_ifs <;> rfl

end KernelModules.RmnetDeag
