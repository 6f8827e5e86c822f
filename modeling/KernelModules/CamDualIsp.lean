import KernelModules.CamPacket
import Mathlib.Tactic

/-!
# The configuration of a dual ISP

User space tells in a buffer how a frame is split between two ISPs: a number of ports, and stripes of
each split, of three planes a port. Before it looks at the stripes of the acquired resources, the
kernel checks that one stripe a port fits.
-/

namespace KernelModules.CamPacket

/-- `CAM_ISP_IFE_OUT_RES_BASE` and `CAM_ISP_IFE_OUT_RES_MAX`. -/
def outResBase : UInt32 := 0x3000

def outResMax : UInt32 := 0x3019

def maxPlanes : UInt32 := 3

/-- `offsetof(struct cam_isp_dual_config, stripes)`. -/
def stripesOffset : ℕ := 24

def sizeofStripe : ℕ := 16

def sizeofDualConfig : ℕ := 40

structure OutRes where
  hwIdx : UInt32
  resId : UInt32

/-- A call: the content of the buffer, `res_list_isp_out[i].hw_res[j]`, which may lie behind the list,
and what the hardware returns for it. -/
structure DualCall where
  buf : Bytes
  cmdDesc : CmdBufDesc
  baseIdx : UInt32
  hwRes : ℕ → ℕ → Option OutRes
  processCmd : ℕ → ℕ → ℤ

namespace DualCall

def start (c : DualCall) : ℕ := 4 * (c.cmdDesc.offset.toNat / 4)

def numPorts (c : DualCall) : UInt32 := wordAt c.buf c.start

def stripe (c : DualCall) (idx : UInt32) : ℕ := c.start + stripesOffset + sizeofStripe * idx.toNat

def portId (c : DualCall) (idx : UInt32) : UInt32 := wordAt c.buf (c.stripe idx + 12)

/-- Which stripe is looked at for a port and a split, if any. -/
def portsPlaneIdx (c : DualCall) (i j : ℕ) : Option UInt32 :=
  match c.hwRes i j with
  | none => none
  | some res =>
    if res.hwIdx ≠ c.baseIdx then none
    else if res.resId < outResBase ∨ outResMax ≤ res.resId then none
    else some (UInt32.ofNat j * (c.numPorts * maxPlanes) + (res.resId &&& 0xFF) * maxPlanes)

/-- The loops over the ports and the splits, with the stripes that are looked at. -/
def stripeLoop (c : DualCall) : ℤ → List (ℕ × ℕ) → ℤ × List UInt32
  | rc, [] => (rc, [])
  | rc, (i, j) :: todo =>
    if outResMax.toNat ≤ i then (-einval, [])
    else
      match c.portsPlaneIdx i j with
      | none => c.stripeLoop rc todo
      | some idx =>
        if c.portId idx = 0 then ((c.stripeLoop rc todo).1, idx :: (c.stripeLoop rc todo).2)
        else if c.processCmd i j ≠ 0 then (c.processCmd i j, [idx])
        else ((c.stripeLoop 0 todo).1, idx :: (c.stripeLoop 0 todo).2)

def ports (c : DualCall) : List (ℕ × ℕ) :=
  (List.range c.numPorts.toNat).flatMap fun i => [(i, 0), (i, 1)]

/-- The size that is checked, in `size_t`. -/
def portsSize (c : DualCall) : UInt64 := c.numPorts.toUInt64 * UInt64.ofNat sizeofStripe

def updateDualConfig (mm : MemMgr) (c : DualCall) : ℤ × List UInt32 :=
  match getCmdMemAddr mm c.cmdDesc.memHandle with
  | .error rc => (rc, [])
  | .ok (_, len) =>
    if len < sizeofDualConfig ∨ len - sizeofDualConfig ≤ c.cmdDesc.offset.toNat then (-einval, [])
    else if len - c.cmdDesc.offset.toNat - stripesOffset < c.portsSize.toNat then (-einval, [])
    else c.stripeLoop 0 c.ports

/-- Every stripe that is looked at lies in the buffer, and the size that is checked is the real
one. -/
def Confined (mm : MemMgr) (c : DualCall) : Prop :=
  c.portsSize.toNat = c.numPorts.toNat * sizeofStripe ∧
    ∀ cpuAddr len, getCmdMemAddr mm c.cmdDesc.memHandle = .ok (cpuAddr, len) →
      ∀ idx ∈ (updateDualConfig mm c).2, c.stripe idx + sizeofStripe ≤ len

def Stops (c : DualCall) (p : ℕ × ℕ) : Prop :=
  outResMax.toNat ≤ p.1 ∨
    ∃ idx, c.portsPlaneIdx p.1 p.2 = some idx ∧ c.portId idx ≠ 0 ∧ c.processCmd p.1 p.2 ≠ 0

def Gets (c : DualCall) (p : ℕ × ℕ) : Prop :=
  ∃ before after, c.ports = before ++ p :: after ∧ (∀ q ∈ before, ¬c.Stops q) ∧
    p.1 < outResMax.toNat

def Checked (c : DualCall) (len : ℕ) : Prop :=
  c.cmdDesc.offset.toNat + sizeofDualConfig < len ∧
    c.cmdDesc.offset.toNat + stripesOffset + sizeofStripe * c.numPorts.toNat ≤ len

variable {c : DualCall} {mm : MemMgr} {idx : UInt32} {rc : ℤ} {l : List (ℕ × ℕ)}

theorem mem_stripeLoop : idx ∈ (c.stripeLoop rc l).2 ↔
    ∃ before p after, l = before ++ p :: after ∧ (∀ q ∈ before, ¬c.Stops q) ∧
      p.1 < outResMax.toNat ∧ c.portsPlaneIdx p.1 p.2 = some idx := by
  induction l generalizing rc with
  | nil => simp [stripeLoop]
  | cons q l ih =>
    obtain ⟨i, j⟩ := q
    -- Either the pair is the one, or the loops go on behind it.
    have hsplit : (∃ before p after, (i, j) :: l = before ++ p :: after ∧
        (∀ q ∈ before, ¬c.Stops q) ∧ p.1 < outResMax.toNat ∧
        c.portsPlaneIdx p.1 p.2 = some idx) ↔
        i < outResMax.toNat ∧ c.portsPlaneIdx i j = some idx ∨
          ¬c.Stops (i, j) ∧ idx ∈ (c.stripeLoop 0 l).2 := by
      rw [ih]
      constructor
      · rintro ⟨before, p, after, heq, hbefore, hp⟩
        cases before with
        | nil =>
          cases heq
          exact .inl hp
        | cons q before =>
          cases heq
          exact .inr ⟨hbefore _ List.mem_cons_self, before, p, after, rfl,
            fun q hq => hbefore q (List.mem_cons_of_mem _ hq), hp⟩
      · rintro (hp | ⟨hstop, before, p, after, rfl, hbefore, hp⟩)
        · exact ⟨[], (i, j), l, rfl, by simp, hp⟩
        · exact ⟨(i, j) :: before, p, after, rfl, List.forall_mem_cons.mpr ⟨hstop, hbefore⟩,
            hp⟩
    have hrc : idx ∈ (c.stripeLoop rc l).2 ↔ idx ∈ (c.stripeLoop 0 l).2 := ih.trans ih.symm
    rw [hsplit, stripeLoop]
    by_cases hi : outResMax.toNat ≤ i
    · simp [hi, Stops, Nat.not_lt.mpr hi]
    · rw [if_neg hi]
      cases hidx : c.portsPlaneIdx i j with
      | none => simp [hrc, Stops, hidx, hi]
      | some idx' =>
        by_cases hport : c.portId idx' = 0
        · simp [hport, hrc, Stops, hidx, hi, Nat.lt_of_not_le hi, @eq_comm _ idx']
        · by_cases hcmd : c.processCmd i j = 0
          all_goals
            simp [hport, hcmd, Stops, hidx, hi, Nat.lt_of_not_le hi, @eq_comm _ idx']

theorem toNat_portsSize : c.portsSize.toNat = c.numPorts.toNat * sizeofStripe := by
  have hlt := c.numPorts.toNat_lt
  rw [portsSize, UInt64.toNat_mul, UInt32.toNat_toUInt64]
  exact Nat.mod_eq_of_lt (by simp [sizeofStripe]; omega)

theorem portsPlaneIdx_eq_some {i j : ℕ} : c.portsPlaneIdx i j = some idx ↔
    ∃ res, c.hwRes i j = some res ∧ res.hwIdx = c.baseIdx ∧ outResBase ≤ res.resId ∧
      res.resId < outResMax ∧
      idx = UInt32.ofNat j * (c.numPorts * maxPlanes) + (res.resId &&& 0xFF) * maxPlanes := by
  unfold portsPlaneIdx
  cases c.hwRes i j with
  | none => simp
  | some res =>
    dsimp only
    split_ifs with hbase hrange
    · simp [hbase]
    · simp only [Option.some.injEq, exists_eq_left', false_iff, not_and]
      rintro - hlow hhigh
      exact absurd hrange (by simp [UInt32.not_lt, UInt32.not_le, hlow, hhigh])
    · rw [not_or, UInt32.not_lt, UInt32.not_le] at hrange
      simp [Decidable.not_not.mp hbase, hrange, eq_comm]

theorem toNat_index {n id : UInt32} (j : ℕ) (hlow : outResBase ≤ id) (hhigh : id < outResMax) :
    (UInt32.ofNat j * (n * maxPlanes) + (id &&& 0xFF) * maxPlanes).toNat =
      (j * (n.toNat * 3) + (id.toNat - outResBase.toNat) * 3) % 2 ^ 32 := by
  have hport : (id &&& 0xFF).toNat = id.toNat - outResBase.toNat := by
    have hand : id.toNat &&& 255 = id.toNat % 2 ^ 8 := Nat.and_two_pow_sub_one_eq_mod id.toNat 8
    rw [UInt32.le_iff_toNat_le] at hlow
    rw [UInt32.lt_iff_toNat_lt] at hhigh
    rw [UInt32.toNat_and]
    change id.toNat &&& 255 = _
    change 0x3000 ≤ id.toNat at hlow
    change id.toNat < 0x3019 at hhigh
    change _ = id.toNat - 0x3000
    omega
  rw [UInt32.toNat_add, UInt32.toNat_mul, UInt32.toNat_mul, UInt32.toNat_mul, hport,
    UInt32.toNat_ofNat']
  simp [maxPlanes, Nat.add_mod, Nat.mul_mod]

/-- The call stays in the buffer just when, for each acquired resource that it gets to, there are as
many stripes in the buffer as its port, its split and the planes ask for. -/
theorem confined_iff (mm : MemMgr) (c : DualCall) : c.Confined mm ↔
    ∀ cpuAddr len, getCmdMemAddr mm c.cmdDesc.memHandle = .ok (cpuAddr, len) → c.Checked len →
      ∀ i j res, c.Gets (i, j) → c.hwRes i j = some res → res.hwIdx = c.baseIdx →
        outResBase ≤ res.resId → res.resId < outResMax →
        (j * (c.numPorts.toNat * 3) + (res.resId.toNat - outResBase.toNat) * 3) % 2 ^ 32 <
          (len - c.start - stripesOffset) / sizeofStripe := by
  refine (and_iff_right toNat_portsSize).trans
    (forall₃_congr fun cpuAddr len hmem => ?_)
  have hstart : c.start ≤ c.cmdDesc.offset.toNat := Nat.mul_div_le _ _
  have hchecked : c.Checked len ↔
      ¬(len < sizeofDualConfig ∨ len - sizeofDualConfig ≤ c.cmdDesc.offset.toNat) ∧
        ¬(len - c.cmdDesc.offset.toNat - stripesOffset < c.numPorts.toNat * sizeofStripe) := by
    unfold Checked sizeofDualConfig stripesOffset sizeofStripe
    omega
  rw [updateDualConfig, hmem, hchecked]
  dsimp only
  rw [toNat_portsSize]
  by_cases hshort : len < sizeofDualConfig ∨ len - sizeofDualConfig ≤ c.cmdDesc.offset.toNat
  · rw [if_pos hshort]
    exact ⟨fun _ h => absurd hshort h.1, fun _ idx hidx => absurd hidx List.not_mem_nil⟩
  rw [if_neg hshort]
  by_cases hsize : len - c.cmdDesc.offset.toNat - stripesOffset < c.numPorts.toNat * sizeofStripe
  · rw [if_pos hsize]
    exact ⟨fun _ h => absurd hsize h.2, fun _ idx hidx => absurd hidx List.not_mem_nil⟩
  · rw [if_neg hsize]
    have hfits : ∀ idx : UInt32, c.stripe idx + sizeofStripe ≤ len ↔
        idx.toNat < (len - c.start - stripesOffset) / sizeofStripe := fun idx => by
      unfold sizeofDualConfig at hshort
      unfold stripe stripesOffset sizeofStripe
      omega
    simp only [mem_stripeLoop, hfits]
    constructor
    · rintro hall - i j res ⟨before, after, heq, hbefore, hi⟩ hres hbase hlow hhigh
      have hidx := hall _ ⟨before, (i, j), after, heq, hbefore, hi,
        portsPlaneIdx_eq_some.mpr ⟨res, hres, hbase, hlow, hhigh, rfl⟩⟩
      rwa [toNat_index j hlow hhigh] at hidx
    · rintro hall idx ⟨before, ⟨i, j⟩, after, heq, hbefore, hi, hidx⟩
      obtain ⟨res, hres, hbase, hlow, hhigh, rfl⟩ := portsPlaneIdx_eq_some.mp hidx
      rw [toNat_index j hlow hhigh]
      exact hall ⟨hshort, hsize⟩ i j res ⟨before, after, heq, hbefore, hi⟩ hres hbase hlow hhigh

def twoPorts : DualCall where
  buf p := if p = 0 then 2 else 0
  cmdDesc := ⟨1, 0, 64, 64⟩
  baseIdx := 0
  hwRes i j := if i = 1 ∧ j = 0 then some ⟨0, outResBase + 1⟩ else none
  processCmd _ _ := 0

theorem twoPorts_not_confined : ¬∀ mm c, Confined mm c := fun hall => by
  have hinside := (hall ⟨fun _ => .ok (4096, 64), fun _ _ => .error (-einval), fun _ => false⟩
    twoPorts).2 4096 64 rfl 3 (by decide)
  exact absurd hinside (by decide)

end DualCall

end KernelModules.CamPacket
