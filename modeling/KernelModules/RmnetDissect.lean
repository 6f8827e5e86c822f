import Mathlib.Data.Int.Notation
import Mathlib.Data.Nat.Notation
import Mathlib.Tactic.SplitIfs

/-!
# The headers of a packet in a MAP frame

Where rmnet_perf takes an aggregated buffer apart itself, it dissects every packet at its place in
the buffer. All lengths of headers come from the packet: the header length of IPv4, the chain of
extension headers of IPv6, the data offset of TCP. The walk over extension headers is the kernel's.

Positions count bytes from the start of the buffer.
-/

namespace KernelModules.RmnetDeag

abbrev Bytes := ℕ → UInt8

def be16 (mem : Bytes) (p : ℕ) : UInt16 := (mem p).toUInt16 <<< 8 ||| (mem (p + 1)).toUInt16

structure Skb where
  data : Bytes
  len : ℕ

def sizeofMapHeader : ℕ := 4

def sizeofIpv6hdr : ℕ := 40

def sizeofFragHdr : ℕ := 8

def sizeofUdphdr : ℕ := 8

def ipprotoTcp : UInt8 := 6

def ipprotoUdp : UInt8 := 17

def nexthdrFragment : UInt8 := 44

/-- `IP_MF | IP_OFFSET`. -/
def ipMfOrOffset : UInt16 := 0x3fff

structure PktInfo where
  skb : Skb
  /-- Where the IP header is. -/
  iph : ℕ
  /-- The length that the MAP header gives. -/
  pktLen : UInt16
  ipProto : UInt8
  ipLen : UInt16
  transProto : UInt8
  transLen : UInt16
  payloadLen : UInt16

/-- What `rmnet_perf_core_dissect_pkt` finds of a packet that is not to be dropped. -/
structure Dissected where
  pktInfo : PktInfo
  skipHash : Bool
  lenMismatch : Bool

/-- `ipv6_skip_exthdr`: a position from the MAP header on, negative for an error, the protocol of
the header there and the fragment field. It takes the position of the MAP header, where it is to
start, and the protocol of the first header. -/
abbrev SkipExthdr := Skb → ℕ → ℕ → UInt8 → ℤ × UInt8 × UInt16

def transHdrLen (mem : Bytes) (p : ℕ) (transProto : UInt8) : Option UInt16 :=
  if transProto = ipprotoTcp then some (UInt16.ofNat ((mem (p + 12) >>> 4).toNat * 4))
  else if transProto = ipprotoUdp then some (UInt16.ofNat sizeofUdphdr)
  else none

/-- The end of `rmnet_perf_core_dissect_pkt`. -/
def PktInfo.done (skb : Skb) (iph : ℕ) (pktLen : UInt16) (ipProto : UInt8)
    (ipLen : UInt16) (transProto : UInt8) (transLen : UInt16) : PktInfo :=
  ⟨skb, iph, pktLen, ipProto, ipLen, transProto, transLen, pktLen - ipLen - transLen⟩

def dissectTrans (skb : Skb) (iph : ℕ) (pktLen : UInt16) (ipProto : UInt8)
    (ipLen : UInt16) (transProto : UInt8) (mismatch : Bool) : Dissected :=
  match transHdrLen skb.data (iph + ipLen.toNat) transProto with
  | some transLen => ⟨.done skb iph pktLen ipProto ipLen transProto transLen, false, mismatch⟩
  | none => ⟨.done skb iph pktLen ipProto ipLen transProto 0, true, mismatch⟩

/-- `rmnet_perf_core_dissect_pkt`, at a MAP header; `none` is a packet to drop. -/
def dissectPkt (skipExthdr : SkipExthdr) (skb : Skb) (maph : ℕ) (pktLen : UInt16) :
    Option Dissected :=
  let offset := sizeofMapHeader
  let iph := maph + offset
  let ipProto := (skb.data iph &&& 0xF0) >>> 4
  if ipProto = 4 then
    if be16 skb.data (iph + 6) &&& ipMfOrOffset ≠ 0 then
      some ⟨.done skb iph pktLen ipProto 0 0 0, true, false⟩
    else
      let ipLen := UInt16.ofNat ((skb.data iph &&& 0x0F).toNat * 4)
      some (dissectTrans skb iph pktLen ipProto ipLen (skb.data (iph + 9))
        (pktLen ≠ be16 skb.data (iph + 2)))
  else if ipProto = 6 then
    let (len, protocol, fragOff) :=
      skipExthdr skb maph (offset + sizeofIpv6hdr) (skb.data (iph + 6))
    if len < 0 then some ⟨.done skb iph pktLen ipProto 0 0 0, true, false⟩
    else
      let len := len - offset
      if fragOff ≠ 0 then
        let len := if protocol = nexthdrFragment then len + sizeofFragHdr else len
        some ⟨.done skb iph pktLen ipProto (UInt16.ofInt len) 0 0, true, false⟩
      else
        some (dissectTrans skb iph pktLen ipProto (UInt16.ofInt len) protocol
          (pktLen ≠ be16 skb.data (iph + 4) + UInt16.ofNat sizeofIpv6hdr))
  else none

/-- The header lengths in the packet add up to no more than its length. -/
def HeadersFit (skipExthdr : SkipExthdr) (skb : Skb) (maph : ℕ) (pktLen : UInt16) : Prop :=
  let iph := maph + sizeofMapHeader
  let version := (skb.data iph &&& 0xF0) >>> 4
  let fits (ipLen : UInt16) (transProto : UInt8) : Prop :=
    ipLen.toNat + ((transHdrLen skb.data (iph + ipLen.toNat) transProto).getD 0).toNat ≤
      pktLen.toNat
  (version = 4 → be16 skb.data (iph + 6) &&& ipMfOrOffset = 0 →
    fits (UInt16.ofNat ((skb.data iph &&& 0x0F).toNat * 4)) (skb.data (iph + 9))) ∧
  (version = 6 → ∀ len protocol fragOff,
    skipExthdr skb maph (sizeofMapHeader + sizeofIpv6hdr) (skb.data (iph + 6)) =
      (len, protocol, fragOff) → 0 ≤ len →
    (fragOff ≠ 0 → (UInt16.ofInt (if protocol = nexthdrFragment then
      len - sizeofMapHeader + sizeofFragHdr else len - sizeofMapHeader)).toNat ≤ pktLen.toNat) ∧
    (fragOff = 0 → fits (UInt16.ofInt (len - sizeofMapHeader)) protocol))

/-- Headers and payload lie in the packet, and the packet in its buffer. -/
structure PktInfo.Inside (p : PktInfo) : Prop where
  headers : p.ipLen.toNat + p.transLen.toNat + p.payloadLen.toNat ≤ p.pktLen.toNat
  exact : p.payloadLen.toNat = p.pktLen.toNat - (p.ipLen.toNat + p.transLen.toNat)
  buffer : p.iph + p.pktLen.toNat ≤ p.skb.len

structure PktInfo.Made (p : PktInfo) (skb : Skb) (maph : ℕ) (pktLen : UInt16) : Prop where
  skb_eq : p.skb = skb
  iph_eq : p.iph = maph + sizeofMapHeader
  pktLen_eq : p.pktLen = pktLen
  payload_eq : p.payloadLen = p.pktLen - p.ipLen - p.transLen

variable {skb : Skb} {maph : ℕ} {pktLen : UInt16}

theorem PktInfo.Made.inside_iff {p : PktInfo}
    (h : p.Made skb maph pktLen) (hbuffer : maph + sizeofMapHeader + pktLen.toNat ≤ skb.len) :
    p.Inside ↔ p.ipLen.toNat + p.transLen.toNat ≤ pktLen.toNat := by
  obtain ⟨rfl, hiph, rfl, hpayload⟩ := h
  constructor
  · intro hin
    have := hin.headers
    omega
  · intro hle
    have hlt := p.pktLen.toNat_lt
    have hexact : p.payloadLen.toNat = p.pktLen.toNat - (p.ipLen.toNat + p.transLen.toNat) := by
      rw [hpayload, UInt16.toNat_sub, UInt16.toNat_sub]
      omega
    exact ⟨by omega, hexact, by omega⟩

theorem made_done (skb : Skb) (maph : ℕ) (pktLen : UInt16) (ipProto : UInt8)
    (ipLen : UInt16) (transProto : UInt8) (transLen : UInt16) :
    (PktInfo.done skb (maph + sizeofMapHeader) pktLen ipProto ipLen transProto transLen).Made
      skb maph pktLen := ⟨rfl, rfl, rfl, rfl⟩

theorem dissectTrans_spec (skb : Skb) (maph : ℕ) (pktLen : UInt16) (ipProto : UInt8)
    (ipLen : UInt16) (transProto : UInt8) (mismatch : Bool) :
    let p := (dissectTrans skb (maph + sizeofMapHeader) pktLen ipProto ipLen transProto
      mismatch).pktInfo
    p.Made skb maph pktLen ∧ p.ipLen = ipLen ∧
      p.transLen = (transHdrLen skb.data (maph + sizeofMapHeader + ipLen.toNat) transProto).getD 0 := by
  simp only [dissectTrans]
  split
  · rename_i hlen
    exact ⟨made_done _ _ _ _ _ _ _, rfl, by rw [hlen]; rfl⟩
  · rename_i hlen
    exact ⟨made_done _ _ _ _ _ _ _, rfl, by rw [hlen]; rfl⟩

theorem dissectPkt_spec {skipExthdr : SkipExthdr}
    {d : Dissected} (h : dissectPkt skipExthdr skb maph pktLen = some d) :
    d.pktInfo.Made skb maph pktLen ∧
      (d.pktInfo.ipLen.toNat + d.pktInfo.transLen.toNat ≤ pktLen.toNat ↔
        HeadersFit skipExthdr skb maph pktLen) := by
  simp only [dissectPkt] at h
  simp only [HeadersFit]
  by_cases h4 : (skb.data (maph + sizeofMapHeader) &&& 0xF0) >>> 4 = 4
  · rw [if_pos h4] at h
    by_cases hfrag : be16 skb.data (maph + sizeofMapHeader + 6) &&& ipMfOrOffset ≠ 0
    · rw [if_pos hfrag] at h
      cases h
      exact ⟨made_done _ _ _ _ _ _ _, by simp [PktInfo.done, h4, hfrag]⟩
    · rw [if_neg hfrag] at h
      cases h
      obtain ⟨hmade, hip, htrans⟩ := dissectTrans_spec skb maph pktLen
        ((skb.data (maph + sizeofMapHeader) &&& 0xF0) >>> 4)
        (UInt16.ofNat ((skb.data (maph + sizeofMapHeader) &&& 0x0F).toNat * 4))
        (skb.data (maph + sizeofMapHeader + 9))
        (decide (pktLen ≠ be16 skb.data (maph + sizeofMapHeader + 2)))
      refine ⟨hmade, ?_⟩
      rw [hip, htrans]
      simp [h4, Decidable.not_not.mp hfrag]
  rw [if_neg h4] at h
  by_cases h6 : (skb.data (maph + sizeofMapHeader) &&& 0xF0) >>> 4 = 6
  · rw [if_pos h6] at h
    generalize hskip : skipExthdr skb maph (sizeofMapHeader + sizeofIpv6hdr)
      (skb.data (maph + sizeofMapHeader + 6)) = found at h ⊢
    obtain ⟨len, protocol, fragOff⟩ := found
    dsimp only at h
    by_cases hneg : len < 0
    · rw [if_pos hneg] at h
      cases h
      exact ⟨made_done _ _ _ _ _ _ _, by simp [PktInfo.done, h6, Int.not_le.mpr hneg]⟩
    rw [if_neg hneg] at h
    by_cases hfrag : fragOff ≠ 0
    · rw [if_pos hfrag] at h
      cases h
      exact ⟨made_done _ _ _ _ _ _ _, by simp [PktInfo.done, h6, Int.not_lt.mp hneg, hfrag]⟩
    · rw [if_neg hfrag] at h
      cases h
      obtain ⟨hmade, hip, htrans⟩ := dissectTrans_spec skb maph pktLen
        ((skb.data (maph + sizeofMapHeader) &&& 0xF0) >>> 4)
        (UInt16.ofInt (len - sizeofMapHeader)) protocol
        (decide (pktLen ≠ be16 skb.data (maph + sizeofMapHeader + 4) +
          UInt16.ofNat sizeofIpv6hdr))
      refine ⟨hmade, ?_⟩
      rw [hip, htrans]
      simp [h6, Int.not_lt.mp hneg, Decidable.not_not.mp hfrag]
  · rw [if_neg h6] at h
    cases h

theorem headersFit_of_none {skipExthdr : SkipExthdr}
    (h : dissectPkt skipExthdr skb maph pktLen = none) :
    HeadersFit skipExthdr skb maph pktLen := by
  simp only [dissectPkt] at h
  by_cases h4 : (skb.data (maph + sizeofMapHeader) &&& 0xF0) >>> 4 = 4
  · rw [if_pos h4] at h
    split_ifs at h
  rw [if_neg h4] at h
  by_cases h6 : (skb.data (maph + sizeofMapHeader) &&& 0xF0) >>> 4 = 6
  · rw [if_pos h6] at h
    split_ifs at h
  · exact ⟨fun h => absurd h h4, fun h => absurd h h6⟩

end KernelModules.RmnetDeag
