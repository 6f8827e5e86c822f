import KernelModules.RmnetFlows

/-!
# Segments of a delivered packet

A delivered packet is segmented by its GSO size: the headers are repeated, the TCP sequence
number moves on by the size of a segment and the IPv4 identification by one. A flow node is in
order when its packets are the segments of what it would give out. A node that takes a packet
stays in order as long as the fields nobody compares agree with those of the last packet held.
-/

namespace KernelModules.Rmnet

open Batching

def IpHdr.next : IpHdr → IpHdr
  | .v4 h => .v4 { h with id := h.id + 1 }
  | .v6 h => .v6 h

def TransHdr.next (size : ℕ) : TransHdr → TransHdr
  | .tcp h => .tcp { h with seq := h.seq + UInt32.ofNat size }
  | .udp h => .udp h

def Header.next (size : ℕ) (h : Header) : Header := ⟨h.ip.next, h.trans.next size⟩

/-- What is left of headers that are cut short makes no packet. -/
def Delivered.segments (d : Delivered) : List Packet :=
  if d.hdrLen ≠ d.hdr.len then []
  else if d.gsoSize = 0 then [(d.hdr, d.payload)]
  else chop (Header.next d.gsoSize) d.gsoSize d.payload.length d.hdr d.payload

def handed (out : List Delivered) : List Packet := out.flatMap Delivered.segments

def FlowNode.packets (n : FlowNode) : List Packet := n.pktList.map PktInfo.packet

@[simp] theorem handed_nil : handed [] = [] := rfl

@[simp] theorem handed_append (xs ys : List Delivered) :
    handed (xs ++ ys) = handed xs ++ handed ys := List.flatMap_append

@[simp] theorem handed_singleton (d : Delivered) : handed [d] = d.segments := List.flatMap_singleton ..

@[simp] theorem packets_emptied (n : FlowNode) : (emptied n).packets = [] := rfl

@[simp] theorem packets_addPkt (n : FlowNode) (p : PktInfo) :
    (addPkt n p).packets = n.packets ++ [p.packet] := List.map_append

theorem len_next (size : ℕ) (h : Header) :
    (h.next size).ip.len = h.ip.len ∧ (h.next size).trans.len = h.trans.len := by
  rcases h with ⟨_ | _, _ | _⟩
  all_goals exact ⟨rfl, rfl⟩

theorem segments_of_le {d : Delivered} (hwhole : d.hdrLen = d.hdr.len)
    (h : d.gsoSize = 0 ∨ d.payload.length ≤ d.gsoSize) : d.segments = [(d.hdr, d.payload)] := by
  unfold Delivered.segments
  rw [if_neg (not_not_intro hwhole)]
  split
  · rfl
  · rename_i hne
    exact chop_of_le _ _ (h.resolve_left hne)

/-- The stamps read through `pkt_info->frag_desc` say what the packet itself says. -/
def PktInfo.Described (p : PktInfo) : Prop :=
  gsoLenOf p = p.payload.length ∧
    match p.hdr.trans with
    | .tcp tp => tcpSeqOf p tp = tp.seq
    | .udp _ => True

instance (p : PktInfo) : Decidable p.Described := by
  unfold PktInfo.Described
  cases p.hdr.trans
  all_goals infer_instance

variable {tp : TcpHdr}
variable {p : PktInfo} {n : FlowNode}

theorem PktInfo.Described.seq (h : p.Described)
    (htrans : p.hdr.trans = .tcp tp) : tcpSeqOf p tp = tp.seq := by
  have hseq := h.2
  rw [htrans] at hseq
  exact hseq

theorem PktInfo.Described.stamp (h : p.Described) :
    p.fragDesc.gsoSize = 0 ∨ p.fragDesc.gsoSize = p.payload.length := by
  have hlen := h.1
  unfold gsoLenOf at hlen
  split at hlen
  · exact Or.inr hlen
  · rename_i hzero
    exact Or.inl (Decidable.not_not.mp hzero)

variable (cfg : Config)

theorem segments_flushCurrPkt (h : p.Described) : (flushCurrPkt cfg p).segments = [p.packet] := by
  apply segments_of_le rfl
  change (if cfg.deagMode then 0 else p.fragDesc.gsoSize) = 0 ∨
    p.payload.length ≤ if cfg.deagMode then 0 else p.fragDesc.gsoSize
  split
  · exact Or.inl rfl
  · rcases h.stamp with hzero | hlen
    · exact Or.inl hzero
    · exact Or.inr hlen.ge

/-- The packet passed the checks of the flags at the node. -/
structure Unflagged (n : FlowNode) (p : PktInfo) : Prop where
  ip : ipFlagFlush n p = false
  tcp : ∀ tp, p.hdr.trans = .tcp tp → tcpFlagFlush p tp = false

/-- The header lengths of the packet are noted as they are. -/
def Header.Short (h : Header) : Prop := h.ip.len < 256 ∧ h.trans.len < 256

instance (h : Header) : Decidable h.Short := inferInstanceAs (Decidable (_ ∧ _))

structure FlowNode.InOrder (n : FlowNode) : Prop where
  unflagged : ∀ q ∈ n.pktList, Unflagged n q
  options : ∀ q ∈ n.pktList, ∀ tp, q.hdr.trans = .tcp tp →
    ∃ head tq, n.pktList.head? = some head ∧ head.hdr.trans = .tcp tq ∧ tp.options = tq.options
  size : ∀ q ∈ n.pktList, q.payload.length = n.gsoLen
  noted : ∀ q ∈ n.pktList, n.ipLen = .ofNat q.hdr.ip.len ∧ n.transLen = .ofNat q.hdr.trans.len
  short : cfg.deagMode ∨ 2 ≤ n.pktList.length → ∀ q ∈ n.pktList, q.hdr.Short
  chain : n.pktList.IsChain fun q r => r.hdr = q.hdr.next n.gsoLen
  seq : ∀ q ∈ n.pktList.getLast?, ∀ tp, q.hdr.trans = .tcp tp →
    n.nextSeq = tp.seq + UInt32.ofNat n.gsoLen
  several : 2 ≤ n.pktList.length →
    0 < n.gsoLen ∧ (n.transProto = ipprotoTcp ∨ n.transProto = ipprotoUdp)

theorem inOrder_of_empty (h : n.pktList = []) : n.InOrder cfg := by
  constructor
  all_goals
    rw [h]
    simp

variable {cfg} in
theorem FlowNode.InOrder.ipLen_eq (h : n.InOrder cfg) {q : PktInfo} (hq : q ∈ n.pktList)
    (hshort : q.hdr.Short) : n.ipLen.toNat = q.hdr.ip.len := by
  rw [(h.noted q hq).1, UInt8.toNat_ofNat_of_lt' hshort.1]

variable {cfg} in
theorem FlowNode.InOrder.hdrLen_eq (h : n.InOrder cfg) {q : PktInfo} (hq : q ∈ n.pktList)
    (hshort : q.hdr.Short) : n.hdrLen = q.hdr.len := by
  rw [FlowNode.hdrLen, h.ipLen_eq hq hshort, (h.noted q hq).2, UInt8.toNat_ofNat_of_lt' hshort.2]
  rfl

theorem pulled_eq {q : PktInfo} (h : n.hdrLen = q.hdr.len) : pulled cfg n q = q.payload := by
  unfold pulled
  split
  · rfl
  · rw [h, ← cfg.length_bytes, List.drop_left]

theorem segments_batch {head : PktInfo} {rest : List PktInfo} {size : ℕ} (hsize : 0 < size)
    (hchain : (head :: rest).IsChain fun q r => r.hdr = q.hdr.next size)
    (hlen : ∀ q ∈ head :: rest, q.payload.length = size) :
    Delivered.segments ⟨head.hdr, head.hdr.len, (head :: rest).flatMap PktInfo.payload, size⟩ =
      (head :: rest).map PktInfo.packet := by
  have hlen' : ∀ x ∈ (head :: rest).map PktInfo.packet, x.2.length = size := by
    intro x hx
    obtain ⟨q, hq, rfl⟩ := List.mem_map.mp hx
    exact hlen q hq
  have hfuel := length_le_flatMap hsize hlen'
  have hdata : ((head :: rest).map PktInfo.packet).flatMap Prod.snd =
      (head :: rest).flatMap PktInfo.payload := List.flatMap_map ..
  rw [hdata, List.length_map, List.length_cons] at hfuel
  have hchain' : (head.packet :: rest.map PktInfo.packet).IsChain
      fun x y => y.1 = x.1.next size := by
    rw [← List.map_cons, List.isChain_map]
    exact hchain
  unfold Delivered.segments
  rw [if_neg (not_not_intro rfl), if_neg (Nat.pos_iff_ne_zero.mp hsize), ← hdata]
  apply chop_flatMap hsize hchain' hlen'
  rw [List.length_map, hdata]
  exact Nat.le_of_succ_le hfuel

theorem handed_flushed (h : n.InOrder cfg) : handed (flushed cfg n) = n.packets := by
  unfold flushed FlowNode.packets
  cases hlist : n.pktList with
  | nil => rfl
  | cons head rest =>
    have hmem : ∀ q ∈ head :: rest, q ∈ n.pktList := fun q hq => hlist ▸ hq
    have hfirst := hmem head List.mem_cons_self
    cases rest with
    | nil =>
      have hone : (head :: ([] : List PktInfo)).flatMap PktInfo.payload = head.payload :=
        List.flatMap_singleton ..
      have hsize := h.size head hfirst
      rw [handed_singleton]
      split
      next hdeag =>
        have hwhole := h.hdrLen_eq hfirst (h.short (.inl hdeag) head hfirst)
        unfold flowSkb
        rw [hone, segments_of_le hwhole (Or.inl rfl)]
        rfl
      next =>
        rw [subfrags, List.flatMap_nil, List.append_nil, segments_of_le rfl (Or.inr hsize.le)]
        rfl
    | cons r rs =>
      have hseveral : 2 ≤ n.pktList.length := by
        rw [hlist, List.length_cons, List.length_cons]
        omega
      have hwhole : ∀ q ∈ n.pktList, n.hdrLen = q.hdr.len := fun q hq =>
        h.hdrLen_eq hq (h.short (.inr hseveral) q hq)
      obtain ⟨hpos, hproto⟩ := h.several hseveral
      have hpulled : (r :: rs).flatMap (pulled cfg n) = (r :: rs).flatMap PktInfo.payload :=
        List.flatMap_congr fun q hq => pulled_eq cfg (hwhole q (hmem q (List.mem_cons_of_mem _ hq)))
      have hskb : flowSkb n head (r :: rs) =
          ⟨head.hdr, head.hdr.len, (head :: r :: rs).flatMap PktInfo.payload, n.gsoLen⟩ := by
        unfold flowSkb
        rw [if_neg (List.cons_ne_nil r rs), if_pos hproto, hwhole head hfirst]
      rw [handed_singleton, hskb, subfrags, hpulled, ← List.flatMap_cons, ite_self]
      exact segments_batch hpos (hlist ▸ h.chain) fun q hq => h.size q (hmem q hq)

/-- The fields that are compared nowhere: the IPv4 identification is to follow, and the rest to
stay what it was. -/
def IpHdr.SameUnchecked : IpHdr → IpHdr → Prop
  | .v4 h, .v4 h' => h'.id = h.id + 1
  | .v6 h, .v6 h' =>
    h'.firstWord = h.firstWord ∧ h'.hopLimit = h.hopLimit ∧ h'.exts = h.exts
  | _, _ => True

def TransHdr.SameUnchecked : TransHdr → TransHdr → Prop
  | .tcp h, .tcp h' =>
    h'.ackSeq = h.ackSeq ∧ h'.res = h.res ∧ h'.ece = h.ece ∧ h'.ack = h.ack ∧
      h'.window = h.window ∧ h'.urgPtr = h.urgPtr
  | _, _ => True

def Header.SameUnchecked (h h' : Header) : Prop :=
  h.ip.SameUnchecked h'.ip ∧ h.trans.SameUnchecked h'.trans

instance (h h' : Header) : Decidable (h.SameUnchecked h') := by
  unfold Header.SameUnchecked
  rcases h with ⟨_ | _, _ | _⟩ <;> rcases h' with ⟨_ | _, _ | _⟩
  all_goals
    unfold IpHdr.SameUnchecked TransHdr.SameUnchecked
    infer_instance

/-- The packet goes behind what the node holds. -/
def Merges (n : FlowNode) (p : PktInfo) : Bool :=
  match p.hdr.trans with
  | .tcp tp =>
    n.pktList ≠ [] ∧ ¬(ipFlagFlush n p ∨ tcpFlagFlush p tp) ∧
      tcpPktCanBeMerged cfg n p tp = .mergeSuccess ∧ ¬cmpOptions cfg n tp
  | .udp _ => n.pktList ≠ [] ∧ ¬ipFlagFlush n p ∧ udpPktCanBeMerged cfg n p = .mergeSuccess

/-- The packet is kept, behind what the node holds or in its place. -/
def Stays (n : FlowNode) (p : PktInfo) : Bool :=
  match p.hdr.trans with
  | .tcp tp =>
    ¬(ipFlagFlush n p ∨ tcpFlagFlush p tp) ∧
      (n.pktList = [] ∨ tcpPktCanBeMerged cfg n p tp ≠ .flushAll)
  | .udp _ => ¬ipFlagFlush n p

/-- A packet may go behind what the node holds: it has data, the headers held are short, and the
last one agrees with it where nothing is compared. -/
def Joins (n : FlowNode) (p : PktInfo) : Prop :=
  p.payload ≠ [] ∧ (∀ q ∈ n.pktList, q.hdr.Short) ∧
    ∀ q ∈ n.pktList.getLast?, q.hdr.SameUnchecked p.hdr
deriving Decidable

theorem stays_tcp (htp : p.hdr.trans = .tcp tp) (hflags : ¬(ipFlagFlush n p ∨ tcpFlagFlush p tp))
    (hkept : n.pktList = [] ∨ tcpPktCanBeMerged cfg n p tp ≠ .flushAll) : Stays cfg n p := by
  unfold Stays
  rw [htp]
  exact decide_eq_true ⟨hflags, hkept⟩

variable {cfg} in
theorem merges_tcp {n : FlowNode} {p : PktInfo} {tp : TcpHdr} (htp : p.hdr.trans = .tcp tp) :
    Merges cfg n p ↔ n.pktList ≠ [] ∧ ¬(ipFlagFlush n p ∨ tcpFlagFlush p tp) ∧
      tcpPktCanBeMerged cfg n p tp = .mergeSuccess ∧ ¬cmpOptions cfg n tp := by
  unfold Merges
  rw [htp]
  exact decide_eq_true_iff

variable {cfg} in
theorem merges_udp {n : FlowNode} {p : PktInfo} {up : UdpHdr} (hup : p.hdr.trans = .udp up) :
    Merges cfg n p ↔ n.pktList ≠ [] ∧ ¬ipFlagFlush n p ∧
      udpPktCanBeMerged cfg n p = .mergeSuccess := by
  unfold Merges
  rw [hup]
  exact decide_eq_true_iff

theorem unflagged_tcp (htp : p.hdr.trans = .tcp tp)
    (h : ¬(ipFlagFlush n p ∨ tcpFlagFlush p tp)) : Unflagged n p := by
  obtain ⟨hip, htcp⟩ := not_or.mp h
  refine ⟨Bool.eq_false_iff.mpr hip, fun tq htq => ?_⟩
  rw [htp] at htq
  cases htq
  exact Bool.eq_false_iff.mpr htcp

theorem unflagged_udp {up : UdpHdr} (hup : p.hdr.trans = .udp up)
    (h : ¬ipFlagFlush n p) : Unflagged n p := by
  refine ⟨Bool.eq_false_iff.mpr h, fun tq htq => ?_⟩
  rw [hup] at htq
  cases htq

theorem tcpPktCanBeMerged_spec
    (h : tcpPktCanBeMerged cfg n p tp = .mergeSuccess) :
    n.nextSeq = tcpSeqOf p tp ∧ n.gsoLen = gsoLenOf p := by
  unfold tcpPktCanBeMerged at h
  split_ifs at h with hseq hlimit hfull hlen
  exact ⟨Decidable.not_not.mp hseq, Decidable.not_not.mp hlen⟩

theorem udpPktCanBeMerged_spec
    (h : udpPktCanBeMerged cfg n p = .mergeSuccess) : n.gsoLen = gsoLenOf p := by
  unfold udpPktCanBeMerged at h
  split_ifs at h with hlen
  exact Decidable.not_not.mp hlen

variable {cfg} in
theorem merges_spec {n : FlowNode} {p : PktInfo} (h : Merges cfg n p) :
    n.pktList ≠ [] ∧ Unflagged n p ∧ n.gsoLen = gsoLenOf p := by
  cases htrans : p.hdr.trans with
  | tcp tp =>
    obtain ⟨hheld, hflags, hcan, -⟩ := (merges_tcp htrans).mp h
    exact ⟨hheld, unflagged_tcp htrans hflags, (tcpPktCanBeMerged_spec cfg hcan).2⟩
  | udp up =>
    obtain ⟨hheld, hflags, hcan⟩ := (merges_udp htrans).mp h
    exact ⟨hheld, unflagged_udp htrans hflags, udpPktCanBeMerged_spec cfg hcan⟩

/-- What becomes of a packet at the node that was found: everything is given out, or the node
starts again with the packet, or the packet goes behind the others. -/
theorem optNode_cases (n : FlowNode) (p : PktInfo) :
    (∃ m, m.pktList = [] ∧ optNode cfg p n = (m, flushed cfg n ++ [flushCurrPkt cfg p])) ∨
    (Unflagged n p ∧ Stays cfg n p ∧
      optNode cfg p n = (insertPktInFlow cfg (emptied n) p true, flushed cfg n)) ∨
    (Merges cfg n p ∧ optNode cfg p n = (insertPktInFlow cfg n p false, [])) := by
  have hupdate : flushed cfg (updateFlow n p) = flushed cfg n := by
    unfold updateFlow
    split
    all_goals rfl
  have hempty : n.pktList = [] → emptied n = n ∧ flushed cfg n = [] := by
    intro hnil
    unfold emptied flushed
    rw [hnil]
    cases n
    cases hnil
    exact ⟨rfl, rfl⟩
  unfold optNode
  cases htrans : p.hdr.trans with
  | tcp tp =>
    dsimp only
    unfold tcpOptIngress
    by_cases hflush : ipFlagFlush n p ∨ tcpFlagFlush p tp
    · rw [if_pos hflush, hupdate]
      exact Or.inl ⟨_, rfl, rfl⟩
    · have hplain := unflagged_tcp htrans hflush
      rw [if_neg hflush]
      by_cases hnil : n.pktList = []
      · rw [if_pos hnil, (hempty hnil).1, (hempty hnil).2]
        exact Or.inr (Or.inl ⟨hplain, stays_tcp cfg htrans hflush (.inl hnil), rfl⟩)
      · rw [if_neg hnil]
        have hstays (hcan : tcpPktCanBeMerged cfg n p tp ≠ .flushAll) : Stays cfg n p :=
          stays_tcp cfg htrans hflush (.inr hcan)
        cases hcan : tcpPktCanBeMerged cfg n p tp with
        | flushAll => exact Or.inl ⟨_, rfl, rfl⟩
        | flushSome => exact Or.inr (Or.inl ⟨hplain, hstays (by rw [hcan]; decide), rfl⟩)
        | mergeSuccess =>
          by_cases hopt : cmpOptions cfg n tp
          · rw [if_pos hopt]
            exact Or.inr (Or.inl ⟨hplain, hstays (by rw [hcan]; decide), rfl⟩)
          · rw [if_neg hopt]
            exact Or.inr (Or.inr ⟨(merges_tcp htrans).mpr ⟨hnil, hflush, hcan, hopt⟩, rfl⟩)
  | udp up =>
    unfold udpOptIngress
    by_cases hflush : ipFlagFlush n p
    · rw [if_pos hflush, hupdate]
      exact Or.inl ⟨_, rfl, rfl⟩
    · have hplain := unflagged_udp htrans hflush
      have hstays : Stays cfg n p := by
        unfold Stays
        rw [htrans]
        exact decide_eq_true hflush
      rw [if_neg hflush]
      by_cases hnil : n.pktList = []
      · rw [if_pos hnil, (hempty hnil).1, (hempty hnil).2]
        exact Or.inr (Or.inl ⟨hplain, hstays, rfl⟩)
      · rw [if_neg hnil]
        cases hcan : udpPktCanBeMerged cfg n p with
        | flushAll => exact Or.inr (Or.inl ⟨hplain, hstays, rfl⟩)
        | flushSome => exact Or.inr (Or.inl ⟨hplain, hstays, rfl⟩)
        | mergeSuccess =>
          exact Or.inr (Or.inr ⟨(merges_udp htrans).mpr ⟨hnil, hflush, hcan⟩, rfl⟩)

section Follows

variable {n : FlowNode} {p q : PktInfo}

theorem ip_follows (hq : Unflagged n q) (hp : Unflagged n p)
    (haddrs : q.hdr.ip.addrs = p.hdr.ip.addrs) (hsame : q.hdr.ip.SameUnchecked p.hdr.ip) :
    p.hdr.ip = q.hdr.ip.next := by
  have hqf := hq.ip
  have hpf := hp.ip
  unfold ipFlagFlush at hqf hpf
  cases hqi : q.hdr.ip with
  | v4 h =>
    cases hpi : p.hdr.ip with
    | v4 h' =>
      rw [hqi] at hqf haddrs hsame
      rw [hpi] at hpf haddrs hsame
      simp only [decide_eq_false_iff_not, not_or, ne_eq, Decidable.not_not] at hqf hpf
      obtain ⟨httl, htos, hfrag, hopts⟩ := hqf
      obtain ⟨httl', htos', hfrag', hopts'⟩ := hpf
      have hid : h'.id = h.id + 1 := hsame
      obtain ⟨hs, hd⟩ := Addrs.v4.inj haddrs
      exact congrArg IpHdr.v4 (IpHdr4.ext (htos'.trans htos.symm) hid (hfrag'.trans hfrag.symm)
        (httl'.trans httl.symm) hs.symm hd.symm (hopts'.trans hopts.symm))
    | v6 h' =>
      rw [hqi, hpi] at haddrs
      cases haddrs
  | v6 h =>
    cases hpi : p.hdr.ip with
    | v4 h' =>
      rw [hqi, hpi] at haddrs
      cases haddrs
    | v6 h' =>
      rw [hqi, hpi] at haddrs hsame
      obtain ⟨hs, hd⟩ := Addrs.v6.inj haddrs
      obtain ⟨hword, hhop, hexts⟩ := hsame
      exact congrArg IpHdr.v6 (IpHdr6.ext hword hhop hs.symm hd.symm hexts)

variable {tp : TcpHdr}

theorem tcp_follows {tq : TcpHdr} (hq : tcpFlagFlush q tq = false)
    (hp : tcpFlagFlush p tp = false) (hsource : tq.source = tp.source) (hdest : tq.dest = tp.dest)
    (hopts : tp.options = tq.options) (hsame : (TransHdr.tcp tq).SameUnchecked (.tcp tp))
    {size : ℕ} (hseq : tp.seq = tq.seq + UInt32.ofNat size) :
    TransHdr.tcp tp = (TransHdr.tcp tq).next size := by
  unfold tcpFlagFlush at hq hp
  simp only [decide_eq_false_iff_not, not_or, Bool.not_eq_true] at hq hp
  obtain ⟨-, hcwr, hsyn, hfin, hrst, hurg, hpsh⟩ := hq
  obtain ⟨-, hcwr', hsyn', hfin', hrst', hurg', hpsh'⟩ := hp
  obtain ⟨hack, hres, hece, hackf, hwin, hptr⟩ := hsame
  exact congrArg TransHdr.tcp (TcpHdr.ext hsource.symm hdest.symm hseq hack hres
    (hcwr'.trans hcwr.symm) hece (hurg'.trans hurg.symm) hackf (hpsh'.trans hpsh.symm)
    (hrst'.trans hrst.symm) (hsyn'.trans hsyn.symm) (hfin'.trans hfin.symm) hwin hptr hopts)

/-- A packet that the node merges has the headers of the segment behind the last one held. -/
theorem header_follows {cfg : Config} (hn : n.InOrder cfg) (hlast : q ∈ n.pktList.getLast?)
    (hmerges : Merges cfg n p) (hdesc : p.Described) (hflow : q.hdr.flow = p.hdr.flow)
    (hshort : ∀ r ∈ n.pktList, r.hdr.Short) (hsame : q.hdr.SameUnchecked p.hdr) :
    p.hdr = q.hdr.next n.gsoLen := by
  have hmem : q ∈ n.pktList := List.mem_of_getLast? hlast
  have hqu := hn.unflagged q hmem
  have hpu := (merges_spec hmerges).2.1
  obtain ⟨haddrs, hproto, hsource, hdest⟩ := Tuple.mk.inj hflow
  have hip : p.hdr.ip = q.hdr.ip.next := ip_follows hqu hpu haddrs hsame.1
  have htrans : p.hdr.trans = q.hdr.trans.next n.gsoLen := by
    have hunchecked := hsame.2
    cases hqt : q.hdr.trans with
    | tcp tq =>
      cases hpt : p.hdr.trans with
      | tcp tp =>
        rw [hqt, hpt] at hsource hdest hunchecked
        obtain ⟨-, -, hcan, hopt⟩ := (merges_tcp hpt).mp hmerges
        obtain ⟨head, th, hhead, hth, hopts⟩ := hn.options q hmem tq hqt
        have hseq := (tcpPktCanBeMerged_spec cfg hcan).1
        rw [hdesc.seq hpt, hn.seq q hlast tq hqt] at hseq
        unfold cmpOptions at hopt
        rw [hhead] at hopt
        dsimp only at hopt
        rw [hth] at hopt
        have hfirst : head ∈ n.pktList := List.mem_of_head? hhead
        have hread : n.ipLen.toNat = head.hdr.ip.len := hn.ipLen_eq hfirst (hshort head hfirst)
        have hopts' : tp.options = th.options := by
          simpa [hread] using hopt
        exact tcp_follows (hqu.tcp tq hqt) (hpu.tcp tp hpt) hsource hdest
          (hopts'.trans hopts.symm) hunchecked hseq.symm
      | udp up =>
        rw [hqt, hpt] at hproto
        exact absurd (show ipprotoTcp = ipprotoUdp from hproto) (by decide)
    | udp uq =>
      cases hpt : p.hdr.trans with
      | tcp tp =>
        rw [hqt, hpt] at hproto
        exact absurd (show ipprotoUdp = ipprotoTcp from hproto) (by decide)
      | udp up =>
        rw [hqt, hpt] at hsource hdest
        cases uq
        cases up
        cases hsource
        cases hdest
        rfl
  calc
    p.hdr = ⟨p.hdr.ip, p.hdr.trans⟩ := rfl
    _ = q.hdr.next n.gsoLen := by rw [hip, htrans]; rfl

theorem nextSeq_addPkt (htp : p.hdr.trans = .tcp tp) :
    (addPkt n p).nextSeq = n.nextSeq + UInt32.ofNat p.payload.length := by
  unfold addPkt
  rw [htp]

theorem nextSeq_copyFlow {cfg : Config} (htp : p.hdr.trans = .tcp tp) :
    (copyFlow cfg n p).nextSeq = tcpSeqOf p tp := by
  unfold copyFlow
  rw [htp]

theorem inOrder_first (hnil : n.pktList = []) (hp : Unflagged n p) (hdesc : p.Described)
    (hshort : cfg.deagMode → p.hdr.Short) : (insertPktInFlow cfg n p true).InOrder cfg := by
  have hlist : (insertPktInFlow cfg n p true).pktList = [p] := by
    change n.pktList ++ [p] = [p]
    rw [hnil, List.nil_append]
  have hgso : (insertPktInFlow cfg n p true).gsoLen = p.payload.length := by
    change (if ¬cfg.deagMode ∧ p.fragDesc.gsoSize ≠ 0 then p.fragDesc.gsoSize
      else p.payload.length) = p.payload.length
    split
    · rename_i hstamp
      exact hdesc.stamp.resolve_left hstamp.2
    · rfl
  constructor
  · intro q hq
    rw [hlist, List.mem_singleton] at hq
    subst hq
    exact ⟨hp.ip, hp.tcp⟩
  · intro q hq tp htp
    rw [hlist, List.mem_singleton] at hq
    subst hq
    exact ⟨q, tp, by rw [hlist]; rfl, htp, rfl⟩
  · intro q hq
    rw [hlist, List.mem_singleton] at hq
    rw [hq, hgso]
  · intro q hq
    rw [hlist, List.mem_singleton] at hq
    rw [hq]
    exact ⟨rfl, rfl⟩
  · intro hcond q hq
    rw [hlist, List.mem_singleton] at hq
    rw [hlist, List.length_singleton] at hcond
    rw [hq]
    exact hshort (hcond.resolve_right (by decide))
  · rw [hlist]
    exact List.isChain_singleton p
  · intro q hq tp htp
    rw [hlist, List.getLast?_singleton] at hq
    obtain rfl := Option.some.inj hq
    rw [hgso, ← hdesc.seq htp]
    change (addPkt (copyFlow cfg n p) p).nextSeq = _
    rw [nextSeq_addPkt htp, nextSeq_copyFlow htp]
  · intro htwo
    rw [hlist, List.length_singleton] at htwo
    omega

variable {cfg}

theorem inOrder_merge (hn : n.InOrder cfg) (hmerges : Merges cfg n p) (hdesc : p.Described)
    (hproto : n.transProto = p.hdr.trans.proto) (hpayload : p.payload ≠ [])
    (hshort : ∀ q ∈ n.pktList, q.hdr.Short)
    (hnext : ∀ q ∈ n.pktList.getLast?, p.hdr = q.hdr.next n.gsoLen) :
    (insertPktInFlow cfg n p false).InOrder cfg := by
  obtain ⟨hheld, hplain, hgso⟩ := merges_spec hmerges
  have hsize : p.payload.length = n.gsoLen := (hgso.trans hdesc.1).symm
  have hlist : (insertPktInFlow cfg n p false).pktList = n.pktList ++ [p] := rfl
  have hhead : (n.pktList ++ [p]).head? = n.pktList.head? := by
    rw [List.head?_append_of_ne_nil _ hheld]
  obtain ⟨last, hlast⟩ := Option.isSome_iff_exists.mp (List.getLast?_isSome.mpr hheld)
  have hlastMem : last ∈ n.pktList := List.mem_of_getLast? hlast
  have hpnext := hnext last hlast
  obtain ⟨hip, htrans⟩ := len_next n.gsoLen last.hdr
  rw [← hpnext] at hip htrans
  have hcases : ∀ q ∈ n.pktList ++ [p], q ∈ n.pktList ∨ q = p := by
    intro q hq
    rwa [List.mem_append, List.mem_singleton] at hq
  constructor
  · intro q hq
    rcases hcases q hq with hq | rfl
    · exact ⟨(hn.unflagged q hq).ip, (hn.unflagged q hq).tcp⟩
    · exact ⟨hplain.ip, hplain.tcp⟩
  · intro q hq tp htp
    rw [hlist, hhead]
    rcases hcases q hq with hq | rfl
    · exact hn.options q hq tp htp
    · rw [hpnext] at htp
      cases hlt : last.hdr.trans with
      | tcp tl =>
        obtain ⟨head, th, hfirst, hth, hopts⟩ := hn.options last hlastMem tl hlt
        have htl : TransHdr.next n.gsoLen last.hdr.trans = .tcp tp := htp
        rw [hlt] at htl
        cases htl
        exact ⟨head, th, hfirst, hth, hopts⟩
      | udp ul =>
        have htl : TransHdr.next n.gsoLen last.hdr.trans = .tcp tp := htp
        rw [hlt] at htl
        cases htl
  · intro q hq
    rcases hcases q hq with hq | rfl
    · exact hn.size q hq
    · exact hsize
  · intro q hq
    rcases hcases q hq with hq | rfl
    · exact hn.noted q hq
    · rw [hip, htrans]
      exact hn.noted last hlastMem
  · intro _ q hq
    rcases hcases q hq with hq | rfl
    · exact hshort q hq
    · rw [Header.Short, hip, htrans]
      exact hshort last hlastMem
  · rw [hlist]
    apply List.isChain_append.mpr
    refine ⟨hn.chain, List.isChain_singleton p, ?_⟩
    intro q hq r hr
    cases hr
    exact hnext q hq
  · intro q hq tp htp
    rw [hlist, List.getLast?_concat] at hq
    obtain rfl := Option.some.inj hq
    obtain ⟨-, -, hcan, -⟩ := (merges_tcp htp).mp hmerges
    have hseq := (tcpPktCanBeMerged_spec cfg hcan).1
    rw [hdesc.seq htp] at hseq
    change (addPkt n p).nextSeq = tp.seq + UInt32.ofNat n.gsoLen
    rw [nextSeq_addPkt htp, hseq, hsize]
  · intro _
    have hpos := List.length_pos_of_ne_nil hpayload
    refine ⟨by change 0 < n.gsoLen; omega, ?_⟩
    change n.transProto = ipprotoTcp ∨ n.transProto = ipprotoUdp
    rw [hproto]
    cases p.hdr.trans
    · exact Or.inl rfl
    · exact Or.inr rfl

theorem optNode_spec (hn : n.InOrder cfg) (hdesc : p.Described)
    (hflow : ∀ q ∈ n.pktList, q.hdr.flow = p.hdr.flow)
    (hproto : n.pktList ≠ [] → n.transProto = p.hdr.trans.proto)
    (hstays : cfg.deagMode → Stays cfg n p → p.hdr.Short)
    (hmerge : Merges cfg n p → Joins n p) :
    n.packets ++ [p.packet] = handed (optNode cfg p n).2 ++ (optNode cfg p n).1.packets ∧
      (optNode cfg p n).1.InOrder cfg := by
  have hflushed := handed_flushed cfg hn
  rcases optNode_cases cfg n p with ⟨m, hnil, heq⟩ | ⟨hplain, hstay, heq⟩ | ⟨hmerges, heq⟩
  · rw [heq]
    refine ⟨?_, inOrder_of_empty cfg hnil⟩
    unfold FlowNode.packets at hflushed ⊢
    rw [handed_append, hflushed, handed_singleton, segments_flushCurrPkt cfg hdesc, hnil,
      List.map_nil, List.append_nil]
  · rw [heq]
    refine ⟨?_, inOrder_first cfg rfl ⟨hplain.ip, hplain.tcp⟩ hdesc (hstays · hstay)⟩
    rw [hflushed]
    rfl
  · rw [heq]
    obtain ⟨hpayload, hshort, hsame⟩ := hmerge hmerges
    have hnext : ∀ q ∈ n.pktList.getLast?, p.hdr = q.hdr.next n.gsoLen := fun q hq =>
      header_follows hn hq hmerges hdesc (hflow q (List.mem_of_getLast? hq)) hshort (hsame q hq)
    refine ⟨?_, inOrder_merge hn hmerges hdesc (hproto (merges_spec hmerges).1) hpayload hshort
      hnext⟩
    rw [handed_nil, List.nil_append]
    exact (packets_addPkt n p).symm

end Follows

end KernelModules.Rmnet
