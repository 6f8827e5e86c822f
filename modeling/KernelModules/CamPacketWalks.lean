import KernelModules.CamPacket
import Mathlib.Tactic.SplitIfs
import Mathlib.Tactic.Tauto

/-!
# What a checked packet is good for

A packet that was accepted has its arrays inside, at the bytes and at the words that the walks over
them use. The buffer that the kernel fills is checked against the mapping, and not against what user
space has filled.
-/

namespace KernelModules.CamPacket

/-- The array lies inside the packet at its offset, and also at the word below it. -/
structure ArrayInside (packet : Packet) (offset num : UInt32) (sizeof : ℕ) : Prop where
  bytes : payload + offset.toNat + sizeof * num.toNat ≤ packet.size.toNat
  words : payload + 4 * (offset.toNat / 4) + sizeof * num.toNat ≤ packet.size.toNat

structure SafeToWalk (packet : Packet) (remainLen : UInt64) : Prop where
  size : packet.size.toNat ≤ remainLen.toNat
  header : payload ≤ packet.size.toNat
  cmdBufs : ArrayInside packet packet.cmdBufOffset packet.numCmdBuf sizeofCmdBufDesc
  ioConfigs : ArrayInside packet packet.ioConfigsOffset packet.numIoConfigs sizeofBufIoCfg
  patches : ArrayInside packet packet.patchOffset packet.numPatches sizeofPatchDesc
  /-- The walk over the patches reads whole words of the packet. -/
  patchReads : ∀ mm iommuHdl secMmuHdl, ∀ p ∈ (processPatches mm packet iommuHdl secMmuHdl).reads,
    p + 4 ≤ packet.size.toNat
  /-- So does the one for the buffer of the kernel, which has checked the index. -/
  kmdDesc : packet.kmdCmdBufIndex < packet.numCmdBuf →
    packet.kmdDescPos + sizeofCmdBufDesc ≤ packet.size.toNat

section Accepted

variable {packet : Packet}

variable {sizeof : ℕ} {offset num : UInt32}

theorem toNat_sum (offset num : UInt32) (hsizeof : sizeof ≤ 256) :
    (UInt64.ofNat payload + offset.toUInt64 + num.toUInt64 * UInt64.ofNat sizeof).toNat =
      payload + offset.toNat + sizeof * num.toNat := by
  have hoffset := offset.toNat_lt
  have hnum := num.toNat_lt
  have hprod : sizeof * num.toNat ≤ 256 * 2 ^ 32 := Nat.mul_le_mul hsizeof (Nat.le_of_lt hnum)
  have hcomm : num.toNat * sizeof = sizeof * num.toNat := Nat.mul_comm _ _
  simp only [UInt64.toNat_add, UInt64.toNat_mul, UInt32.toNat_toUInt64, UInt64.toNat_ofNat',
    payload]
  have hsmall : sizeof % 2 ^ 64 = sizeof := by omega
  rw [hsmall, hcomm]
  omega

theorem arrayInside_of_sum (hsizeof : sizeof ≤ 256)
    (h : ¬ packet.size.toUInt64 <
      UInt64.ofNat payload + offset.toUInt64 + num.toUInt64 * UInt64.ofNat sizeof) :
    ArrayInside packet offset num sizeof := by
  rw [UInt64.lt_iff_toNat_lt, toNat_sum offset num hsizeof, UInt32.toNat_toUInt64] at h
  have hfloor : 4 * (offset.toNat / 4) ≤ offset.toNat := Nat.mul_div_le _ _
  exact ⟨by omega, by omega⟩

theorem ArrayInside.element
    (h : ArrayInside packet offset num sizeof) {i : ℕ} (hi : i < num.toNat) :
    payload + offset.toNat + sizeof * i + sizeof ≤ packet.size.toNat ∧
      payload + 4 * (offset.toNat / 4) + sizeof * i + sizeof ≤ packet.size.toNat := by
  have hnext : sizeof * i + sizeof ≤ sizeof * num.toNat := by
    rw [← Nat.mul_succ]
    exact Nat.mul_le_mul_left sizeof hi
  have hbytes := h.bytes
  have hwords := h.words
  exact ⟨by omega, by omega⟩

theorem patchLoop_reads (mm : MemMgr) (iommuHdl secMmuHdl : Int32) (rc : ℤ) (i left : ℕ) :
    ∀ q ∈ (patchLoop mm packet iommuHdl secMmuHdl rc i left).reads,
      ∃ j < i + left, ∃ d ≤ 12, q = packet.patchPos j + d := by
  induction left generalizing rc i with
  | zero =>
    intro q hq
    cases hq
  | succ left ih =>
    intro q hq
    have hfirst (h : q = packet.patchPos i + 8 ∨ q = packet.patchPos i ∨
        q = packet.patchPos i + 12 ∨ q = packet.patchPos i + 4) :
        ∃ j < i + (left + 1), ∃ d ≤ 12, q = packet.patchPos j + d := by
      rcases h with h | h | h | h
      · exact ⟨i, by omega, 8, by decide, h⟩
      · exact ⟨i, by omega, 0, by decide, h⟩
      · exact ⟨i, by omega, 12, by decide, h⟩
      · exact ⟨i, by omega, 4, by decide, h⟩
    rw [patchLoop] at hq
    dsimp only at hq
    split at hq
    · simp only [List.mem_cons, List.not_mem_nil] at hq
      exact hfirst (by tauto)
    · split at hq
      · simp only [List.mem_cons, List.not_mem_nil] at hq
        exact hfirst (by tauto)
      · split_ifs at hq
        · simp only [List.mem_cons, List.not_mem_nil] at hq
          exact hfirst (by tauto)
        · simp only [List.mem_cons, List.not_mem_nil] at hq
          exact hfirst (by tauto)
        · simp only [List.mem_cons, List.not_mem_nil] at hq
          exact hfirst (by tauto)
        · rw [List.mem_append] at hq
          rcases hq with hq | hq
          · simp only [List.mem_cons, List.not_mem_nil] at hq
            exact hfirst (by tauto)
          · obtain ⟨j, hj, d, hd, hqj⟩ := ih 0 (i + 1) q hq
            exact ⟨j, by omega, d, hd, hqj⟩

/-- Whatever the header of an accepted packet says, its arrays lie inside, and so does every word
that is read of them. -/
theorem validatePacket_safe (packet : Packet) (remainLen : UInt64)
    (h : validatePacket packet remainLen = 0) : SafeToWalk packet remainLen := by
  unfold validatePacket at h
  dsimp only at h
  split_ifs at h with hsize hsums
  · cases h
  · cases h
  · simp only [not_or] at hsums
    obtain ⟨-, hcmd, hio, hpatch⟩ := hsums
    have hcmdBufs := arrayInside_of_sum (by decide) hcmd
    have hpatches := arrayInside_of_sum (by decide) hpatch
    refine ⟨?_, ?_, hcmdBufs, arrayInside_of_sum (by decide) hio, hpatches, ?_, ?_⟩
    · rw [UInt64.lt_iff_toNat_lt, UInt32.toNat_toUInt64] at hsize
      omega
    · have hbytes := hcmdBufs.bytes
      omega
    · intro mm iommuHdl secMmuHdl q hq
      obtain ⟨j, hj, d, hd, rfl⟩ := patchLoop_reads mm iommuHdl secMmuHdl 0 0 _ q hq
      have hinside := (hpatches.element (i := j) (by omega)).2
      simp only [Packet.patchPos, sizeofPatchDesc] at hinside ⊢
      omega
    · intro hindex
      exact (hcmdBufs.element (UInt32.lt_iff_toNat_lt.mp hindex)).1

/-- A packet of one command descriptor: a buffer of a page, of which user space has filled sixteen
bytes. -/
def oneBuffer (kmdCmdBufOffset : UInt32) : Packet where
  size := 80
  cmdBufOffset := 0
  numCmdBuf := 1
  ioConfigsOffset := 24
  numIoConfigs := 0
  patchOffset := 24
  numPatches := 0
  kmdCmdBufIndex := 0
  kmdCmdBufOffset := kmdCmdBufOffset
  bytes p := if p = 56 then 1 else if p = 65 ∨ p = 68 then 16 else 0

/-- Two elements in each array. -/
def threeArrays : Packet :=
  { oneBuffer 16 with
    size := 648, numCmdBuf := 2, ioConfigsOffset := 48, numIoConfigs := 2, patchOffset := 560
    numPatches := 2 }

theorem threeArrays_safeToWalk : SafeToWalk threeArrays 648 :=
  validatePacket_safe threeArrays 648 (by decide)

end Accepted

/-- The buffer for the kernel lies inside the mapping, behind what user space has filled. -/
structure BehindUser (cpuAddr len : ℕ) (cmdDesc : CmdBufDesc) (kmdBuf : KmdBufInfo) : Prop where
  behind : cpuAddr + cmdDesc.offset.toNat + cmdDesc.length.toNat ≤ kmdBuf.cpuAddr
  inside : kmdBuf.cpuAddr + kmdBuf.size.toNat ≤ cpuAddr + len

/-- The offset of the kernel's part, in whole words, leaves out what user space has filled, and leaves
as much as is free. -/
def KmdOffsetFits (len : ℕ) (cmdDesc : CmdBufDesc) (kmdCmdBufOffset : UInt32) : Prop :=
  let start := 4 * (kmdCmdBufOffset.toNat / 4)
  cmdDesc.length.toNat + cmdDesc.offset.toNat % 4 ≤ start ∧
    start + (cmdDesc.size.toNat - cmdDesc.length.toNat) ≤ len - 4 * (cmdDesc.offset.toNat / 4)

section Kmd

variable {mm : MemMgr} {packet : Packet} {kmdBuf : KmdBufInfo} {cpuAddr len : ℕ}

theorem length_le_size {cmdDesc : CmdBufDesc} (h : validateCmdDesc cmdDesc = 0) :
    cmdDesc.length.toNat ≤ cmdDesc.size.toNat := by
  unfold validateCmdDesc at h
  split_ifs at h with hbad
  · cases h
  · rw [not_or, UInt32.lt_iff_toNat_lt] at hbad
    omega

theorem getKmdBuffer_ok (h : getKmdBuffer mm packet = .ok kmdBuf)
    (hmapped : mm.getCpuBuf packet.kmdDesc.memHandle = .ok (cpuAddr, len)) :
    validateCmdDesc packet.kmdDesc = 0 ∧
      packet.kmdDesc.offset.toNat < len ∧
      packet.kmdCmdBufOffset.toNat < len - packet.kmdDesc.offset.toNat ∧
      kmdBuf.cpuAddr = cpuAddr +
        4 * (packet.kmdDesc.offset.toNat / 4 + packet.kmdCmdBufOffset.toNat / 4) ∧
      kmdBuf.size = packet.kmdDesc.size - packet.kmdDesc.length := by
  unfold getKmdBuffer getCmdMemAddr at h
  dsimp only at h
  rw [hmapped] at h
  split_ifs at h with hindex hdesc
  dsimp only at h
  by_cases hreal : cpuAddr ≠ 0 ∧ len ≠ 0
  · rw [if_pos hreal] at h
    dsimp only at h
    split_ifs at h with hoffset hkmd
    injection h with h
    subst h
    exact ⟨not_not.mp hdesc, by omega, by omega, rfl, rfl⟩
  · rw [if_neg hreal] at h
    cases h

/-- The region that is handed out fits exactly when the offset does, of which only the lower bound of
the rest of the mapping is checked. -/
theorem getKmdBuffer_behindUser_iff (h : getKmdBuffer mm packet = .ok kmdBuf)
    (hmapped : mm.getCpuBuf packet.kmdDesc.memHandle = .ok (cpuAddr, len)) :
    BehindUser cpuAddr len packet.kmdDesc kmdBuf ↔
      KmdOffsetFits len packet.kmdDesc packet.kmdCmdBufOffset := by
  obtain ⟨hdesc, hoffset, hkmd, hcpuAddr, hhanded⟩ := getKmdBuffer_ok h hmapped
  have hlength := length_le_size hdesc
  have hsize : kmdBuf.size.toNat = packet.kmdDesc.size.toNat - packet.kmdDesc.length.toNat := by
    rw [hhanded]
    exact UInt32.toNat_sub_of_le _ _ (UInt32.le_iff_toNat_le.mpr hlength)
  unfold KmdOffsetFits
  constructor
  · rintro ⟨hbehind, hinside⟩
    rw [hsize] at hinside
    omega
  · rintro ⟨hbehind, hinside⟩
    refine ⟨by omega, ?_⟩
    rw [hsize]
    omega

def onePage : MemMgr where
  getCpuBuf _ := .ok (4096, 4096)
  getIoBuf _ _ := .error (-einval)
  isSecureBuf _ := false

theorem oneBuffer_behindUser :
    BehindUser 4096 4096 (oneBuffer 16).kmdDesc ⟨1, 4096 + 16, 16, 4080, 0⟩ :=
  (getKmdBuffer_behindUser_iff (show getKmdBuffer onePage (oneBuffer 16) = _ from rfl) rfl).mpr
    ⟨by decide, by decide⟩

/-- The offset of an accepted packet may be the last word of the mapping. -/
theorem oneBuffer_not_behindUser :
    validatePacket (oneBuffer 4092) 80 = 0 ∧
      ∃ kmdBuf, getKmdBuffer onePage (oneBuffer 4092) = .ok kmdBuf ∧
        ¬ BehindUser 4096 4096 (oneBuffer 4092).kmdDesc kmdBuf := by
  refine ⟨by decide, ⟨1, 4096 + 4092, 4092, 4080, 0⟩, rfl, ?_⟩
  rintro ⟨-, hinside⟩
  revert hinside
  decide

end Kmd

end KernelModules.CamPacket
