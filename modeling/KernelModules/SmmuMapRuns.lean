import KernelModules.Ledger
import KernelModules.SmmuMaps

/-!
# Mapped buffers over runs

A call that returns 0 has mapped what was asked for and recorded it, and the two counters are the
sums over the recorded buffers, in every run of careful calls: the primitives do what they were
asked once a mapping has been counted, and only scratch buffers are put back as such.
-/

namespace KernelModules.Smmu

open BitAreas Ledger

def ContextBankInfo.mappingSize (cb : ContextBankInfo) : RegionId → UInt64
  | .io => cb.ioMappingSize
  | .shared => cb.sharedMappingSize
  | _ => 0

def lenIn (region : RegionId) (info : DmaBuffInfo) : UInt64 :=
  if info.regionId = region then info.len else 0

def recorded (region : RegionId) (infos : List DmaBuffInfo) : ℕ :=
  total (fun info => (lenIn region info).toNat) infos

/-- The counters are the sums over both lists, as a `size_t` keeps them. -/
def Counted (cb : ContextBankInfo) : Prop :=
  ∀ region, region = .io ∨ region = .shared → (cb.mappingSize region).toNat =
    (recorded region cb.smmuBufList + recorded region cb.smmuBufKernelList) % 2 ^ 64

def Covers (m : BitMap) (addr : ℕ) (len : UInt64) : Prop :=
  ∀ i, (Run.mk addr len.toNat).Has i → m i = true

def requested (buf : Ptr DmaBuf) (len : UInt64) : RegionId → UInt64
  | .shared => len
  | _ =>
    match buf with
    | .ok b => b.size
    | _ => 0

/-- In the bank that a call returned 0 for, what was asked for is mapped and recorded. -/
def Call.Backed (cb : ContextBankInfo) (ret : Ret) : Call → Prop
  | .mapUserIova args ionFd buf _ =>
    Covers cb.mapped ret.paddr ret.len ∧ requested buf args.len args.region ≤ ret.len ∧
      ∃ info ∈ cb.smmuBufList, info.ionFd = ionFd ∧ info.regionId = args.region ∧
        info.paddr = ret.paddr ∧ info.len = ret.len
  | .mapKernelIova args buf _ =>
    Covers cb.mapped ret.paddr ret.len ∧ requested buf args.len args.region ≤ ret.len ∧
      ∃ info ∈ cb.smmuBufKernelList, (∃ b, buf = .ok b ∧ info.buf = some b.id) ∧
        info.regionId = args.region ∧ info.paddr = ret.paddr ∧ info.len = ret.len
  | .getScratchIova _ _ virtLen _ _ =>
    Covers cb.mapped ret.paddr virtLen ∧
      ∃ info ∈ cb.smmuBufList, info.ionFd = scratchFd ∧ info.paddr = ret.paddr ∧
        info.len = virtLen
  | .reserveSecHeap _ buf _ =>
    Covers cb.mapped ret.paddr cb.secheapLen ∧ ret.len = cb.secheapLen ∧
      cb.isSecheapAllocated = true ∧ ∃ b, buf = .ok b ∧ cb.secheapBuf.buf = some b.id
  | _ => True

/-- Once a mapping that is not empty has been made, it is as long as asked for and nothing fails. -/
structure Whole (env : Env) (buf : Ptr DmaBuf) (len : UInt64) (region : RegionId) : Prop where
  shared : region = .shared → env.mapSg ≠ 0 →
    len ≤ env.mapSg ∧ env.kzalloc = true ∧ ∀ t, env.table = .ok t → t.sgl ≠ none
  io : region = .io → ∀ b, buf = .ok b → b.size ≠ 0 → ∀ t a, env.table = .ok t → t.sgl = some a →
    b.size.toNat ≤ t.dmaLen ∧ env.kzalloc = true ∧ a ≠ 0

/-- What the primitives do in a call on the bank, and that a scratch buffer is put back as one. -/
def Call.Careful (cb : ContextBankInfo) : Call → Prop
  | .mapUserIova args ionFd buf env => Whole env (dmaBufGet ionFd buf) args.len args.region
  | .mapKernelIova args buf env => Whole env buf args.len args.region
  | .getScratchIova _ _ virtLen _ env => env.mapSg = virtLen
  | .putScratchIova _ paddr _ => ∀ info,
      cb.smmuBufList.find? (fun e => e.paddr = paddr) = some info → info.ionFd = scratchFd
  | .reserveSecHeap _ buf env =>
    buf ≠ .null ∧ env.attach ≠ .null ∧ env.table ≠ .null ∧ env.mapSg = cb.secheapLen
  | _ => True

variable {cb cb' cb'' : ContextBankInfo} {env : Env} {info : DmaBuffInfo} {ret : Ret}
  {region : RegionId}

structure SameBooks (cb cb' : ContextBankInfo) : Prop where
  user : cb'.smmuBufList = cb.smmuBufList
  kernel : cb'.smmuBufKernelList = cb.smmuBufKernelList
  size : ∀ region, cb'.mappingSize region = cb.mappingSize region

theorem SameBooks.refl (cb : ContextBankInfo) : SameBooks cb cb := ⟨rfl, rfl, fun _ => rfl⟩

theorem SameBooks.trans (h : SameBooks cb cb') (h' : SameBooks cb' cb'') : SameBooks cb cb'' :=
  ⟨h'.user.trans h.user, h'.kernel.trans h.kernel, fun r => (h'.size r).trans (h.size r)⟩

theorem SameBooks.of_eq (huser : cb'.smmuBufList = cb.smmuBufList)
    (hkernel : cb'.smmuBufKernelList = cb.smmuBufKernelList)
    (hio : cb'.ioMappingSize = cb.ioMappingSize)
    (hshared : cb'.sharedMappingSize = cb.sharedMappingSize) : SameBooks cb cb' := by
  refine ⟨huser, hkernel, fun region => ?_⟩
  cases region with
  | io => exact hio
  | shared => exact hshared
  | firmware | scratch | secheap | qdss => rfl

theorem sameBooks_unmap (cb : ContextBankInfo) (env : Env) (iova : ℕ) (len : UInt64) :
    SameBooks cb (cb.unmap env iova len) := .of_eq rfl rfl rfl rfl

theorem sameBooks_mapTable (cb : ContextBankInfo) (t : SgTable) : SameBooks cb (cb.mapTable t) := by
  unfold ContextBankInfo.mapTable
  cases t.sgl with
  | none => exact .refl cb
  | some a => exact .of_eq rfl rfl rfl rfl

theorem sameBooks_unmapTable (cb : ContextBankInfo) (t : SgTable) :
    SameBooks cb (cb.unmapTable t) := by
  unfold ContextBankInfo.unmapTable
  cases t.sgl with
  | none => exact .refl cb
  | some a => exact .of_eq rfl rfl rfl rfl

/-- What a bank keeps: its counters, and that buffers marked as scratch are. -/
structure Kept (cb : ContextBankInfo) : Prop where
  counted : Counted cb
  scratch : ∀ info ∈ cb.smmuBufList, info.ionFd = scratchFd → info.regionId = .scratch

theorem Kept.same (h : Kept cb) (hsame : SameBooks cb cb') : Kept cb' where
  counted region hregion := by
    rw [hsame.size, hsame.user, hsame.kernel]
    exact h.counted region hregion
  scratch info hinfo := h.scratch info (hsame.user ▸ hinfo)

variable {n : UInt64} {paddr iova : ℕ} {rc : ℤ} {dir : MapDir} {virtLen physLen : UInt64} {c : Call}
variable {s : CbSet}

theorem toNat_add_mod {a : UInt64} {t : ℕ} (h : a.toNat = t % 2 ^ 64) :
    (a + n).toNat = (n.toNat + t) % 2 ^ 64 := by
  rw [UInt64.toNat_add]
  omega

theorem toNat_sub_mod {a : UInt64} {t : ℕ} (h : a.toNat = (n.toNat + t) % 2 ^ 64) :
    (a - n).toNat = t % 2 ^ 64 := by
  have hn := n.toNat_lt
  rw [UInt64.toNat_sub]
  omega

theorem recorded_cons (region : RegionId) (info : DmaBuffInfo) (infos : List DmaBuffInfo) :
    recorded region (info :: infos) = (lenIn region info).toNat + recorded region infos :=
  total_cons ..

theorem recorded_eraseP {infos : List DmaBuffInfo} {p : DmaBuffInfo → Bool} (region : RegionId)
    (h : infos.find? p = some info) :
    recorded region infos = (lenIn region info).toNat + recorded region (infos.eraseP p) := by
  induction infos with
  | nil => cases h
  | cons first infos ih =>
    cases hp : p first with
    | true =>
      rw [List.find?_cons_of_pos hp] at h
      cases h
      rw [List.eraseP_cons_of_pos hp, recorded_cons]
    | false =>
      have hneg : ¬p first = true := Bool.eq_false_iff.mp hp
      rw [List.find?_cons_of_neg hneg] at h
      rw [List.eraseP_cons_of_neg hneg, recorded_cons, recorded_cons, ih h]
      omega

structure Joined (info : DmaBuffInfo) (cb cb' : ContextBankInfo) : Prop where
  user : cb'.smmuBufList = cb.smmuBufList
  kernel : cb'.smmuBufKernelList = cb.smmuBufKernelList
  size : ∀ region, region = .io ∨ region = .shared →
    cb'.mappingSize region = cb.mappingSize region + lenIn region info

/-- The outcomes of `map_buffer_validate` when the primitives are whole. -/
inductive Validated (cb cb' : ContextBankInfo) (buf : Ptr DmaBuf) (len : UInt64)
    (region : RegionId) (ret : Ret) : Option DmaBuffInfo → Prop
  | refused (same : SameBooks cb cb') : Validated cb cb' buf len region ret none
  | mapped (info : DmaBuffInfo) (joined : Joined info cb cb')
      (ret_eq : ret = ⟨0, info.paddr, info.len⟩) (region_eq : info.regionId = region)
      (covers : Covers cb'.mapped info.paddr info.len) (long : requested buf len region ≤ info.len)
      (buf_eq : ∃ b, buf = .ok b ∧ info.buf = some b.id) :
      Validated cb cb' buf len region ret (some info)

theorem fillMapping_refused (cb : ContextBankInfo) (env : Env) (b : DmaBuf) (t : SgTable)
    (region : RegionId) (paddr : ℕ) :
    ∃ ret cb', cb.fillMapping env b t region paddr 0 = (ret, cb', none) ∧ SameBooks cb cb' := by
  obtain ⟨errAlloc, heq, herr⟩ : ∃ errAlloc,
      (if region = .shared then cb.unmap env paddr 0 else cb) = errAlloc ∧ SameBooks cb errAlloc := by
    split_ifs
    · exact ⟨_, rfl, sameBooks_unmap cb env paddr 0⟩
    · exact ⟨_, rfl, .refl cb⟩
  unfold ContextBankInfo.fillMapping
  rw [heq]
  split_ifs with hsgl hzalloc hzero
  · exact ⟨_, _, rfl, sameBooks_unmapTable cb t⟩
  · exact ⟨_, _, rfl, herr.trans (sameBooks_unmapTable errAlloc t)⟩
  · exact ⟨_, _, rfl, herr.trans (sameBooks_unmapTable errAlloc t)⟩
  · exact absurd (Or.inr rfl) hzero

variable {b : DmaBuf} {len : UInt64} {ionFd : ℤ} {args : MapArgs} {handle : ℤ}
variable {t : SgTable} {buf : Ptr DmaBuf}

theorem fillMapping_filled {region : RegionId} (hsgl : t.sgl ≠ none) (hzalloc : env.kzalloc = true)
    (hpaddr : paddr ≠ 0)
    (hlen : len ≠ 0) :
    cb.fillMapping env b t region paddr len = (⟨0, paddr, len⟩, cb, some {
      ionFd := 0, buf := some b.id, attach := true, table := some t, regionId := region, paddr, len,
      physLen := 0 }) := by
  unfold ContextBankInfo.fillMapping
  rw [if_neg hsgl, if_neg (by rw [hzalloc]; exact Bool.noConfusion),
    if_neg (not_or.mpr ⟨hpaddr, hlen⟩)]

theorem allocIova_ne_zero {size : UInt64} (h : cb.allocIova env size = .ok iova) : iova ≠ 0 := by
  unfold ContextBankInfo.allocIova at h
  split_ifs at h with _ _ hzero
  cases h
  exact hzero

theorem covers_map (cb : ContextBankInfo) (iova : ℕ) (len : UInt64) :
    Covers (cb.map iova len).mapped iova len := fun _ hi => if_pos hi

theorem covers_mapTable {a : ℕ} (hsgl : t.sgl = some a)
    (hlen : len.toNat ≤ t.dmaLen) : Covers (cb.mapTable t).mapped a len := by
  intro i hi
  unfold ContextBankInfo.mapTable
  rw [hsgl]
  exact if_pos ⟨hi.1, hi.2.trans_le (Nat.add_le_add_left hlen a)⟩

theorem fillMapping_shared
    {info : Option DmaBuffInfo} (hwhole : Whole env (.ok b) len .shared)
    (htable : env.table = .ok t) (hiova : iova ≠ 0) (hsame : SameBooks cb cb'')
    (h : { cb''.map iova env.mapSg with
      sharedMappingSize := cb''.sharedMappingSize + env.mapSg }.fillMapping env b t .shared iova
        env.mapSg = (ret, cb', info)) :
    Validated cb cb' (.ok b) len .shared ret info := by
  by_cases hzero : env.mapSg = 0
  · rw [hzero] at h
    obtain ⟨ret', cb₁, hfill, hsame'⟩ := fillMapping_refused { cb''.map iova 0 with
      sharedMappingSize := cb''.sharedMappingSize + 0 } env b t .shared iova
    have hadd : SameBooks cb'' { cb''.map iova 0 with
        sharedMappingSize := cb''.sharedMappingSize + 0 } :=
      .of_eq rfl rfl rfl (UInt64.add_zero _)
    cases hfill.symm.trans h
    exact .refused ((hsame.trans hadd).trans hsame')
  · obtain ⟨hlen, hzalloc, hsgl⟩ := hwhole.shared rfl hzero
    rw [fillMapping_filled (hsgl t htable) hzalloc hiova hzero] at h
    cases h
    refine .mapped _ ⟨hsame.user, hsame.kernel, ?_⟩ rfl rfl (covers_map cb'' iova env.mapSg) hlen
      ⟨b, rfl, rfl⟩
    rintro region (rfl | rfl)
    · exact (hsame.size .io).trans (UInt64.add_zero _).symm
    · exact congrArg (· + env.mapSg) (hsame.size .shared)

theorem fillMapping_io {a : ℕ}
    {info : Option DmaBuffInfo} (hwhole : Whole env (.ok b) len .io)
    (htable : env.table = .ok t) (hsgl : t.sgl = some a)
    (h : { cb.mapTable t with
      ioMappingSize := (cb.mapTable t).ioMappingSize + b.size }.fillMapping env b t .io a
        b.size = (ret, cb', info)) :
    Validated cb cb' (.ok b) len .io ret info := by
  have hsame := sameBooks_mapTable cb t
  by_cases hzero : b.size = 0
  · rw [hzero] at h
    obtain ⟨ret', cb₁, hfill, hsame'⟩ := fillMapping_refused { cb.mapTable t with
      ioMappingSize := (cb.mapTable t).ioMappingSize + 0 } env b t .io a
    have hadd : SameBooks (cb.mapTable t) { cb.mapTable t with
        ioMappingSize := (cb.mapTable t).ioMappingSize + 0 } :=
      .of_eq rfl rfl (UInt64.add_zero _) rfl
    cases hfill.symm.trans h
    exact .refused ((hsame.trans hadd).trans hsame')
  · obtain ⟨hlen, hzalloc, ha⟩ := hwhole.io rfl b rfl hzero t a htable hsgl
    rw [fillMapping_filled (hsgl ▸ Option.some_ne_none a) hzalloc ha hzero] at h
    cases h
    refine .mapped _ ⟨hsame.user, hsame.kernel, ?_⟩ rfl rfl (covers_mapTable hsgl hlen)
      (UInt64.le_refl _) ⟨b, rfl, rfl⟩
    rintro region (rfl | rfl)
    · exact congrArg (· + b.size) (hsame.size .io)
    · exact (hsame.size .shared).trans (UInt64.add_zero _).symm

theorem mapBufferValidate_validated {region : RegionId}
    {info : Option DmaBuffInfo} (hwhole : Whole env buf len region)
    (h : cb.mapBufferValidate env buf len region = some (ret, cb', info)) :
    Validated cb cb' buf len region ret info := by
  unfold ContextBankInfo.mapBufferValidate at h
  cases buf with
  | null | err =>
    cases h
    exact .refused (.refl cb)
  | ok b =>
    cases hattach : env.attach with
    | null | err =>
      rw [hattach] at h
      cases h
      exact .refused (.refl cb)
    | ok =>
      rw [hattach] at h
      cases region with
      | firmware | scratch | secheap | qdss =>
        cases h
        exact .refused (.refl cb)
      | shared =>
        cases htable : env.table with
        | null | err =>
          rw [htable] at h
          cases h
          exact .refused (.refl cb)
        | ok t =>
          rw [htable] at h
          dsimp only at h
          have htab := sameBooks_mapTable cb t
          by_cases hdomain : (cb.mapTable t).domain = false
          · rw [if_pos hdomain] at h
            cases h
            exact .refused (htab.trans (sameBooks_unmapTable _ t))
          · rw [if_neg hdomain] at h
            cases halloc : (cb.mapTable t).allocIova env len with
            | error rc =>
              rw [halloc] at h
              cases h
              exact .refused (htab.trans (sameBooks_unmapTable _ t))
            | ok iova =>
              rw [halloc] at h
              exact fillMapping_shared hwhole htable (allocIova_ne_zero halloc) htab
                (Option.some.inj h)
      | io =>
        cases htable : env.table with
        | null | err =>
          rw [htable] at h
          cases h
          exact .refused (.refl cb)
        | ok t =>
          rw [htable] at h
          obtain ⟨a, hsgl, hfill⟩ := Option.map_eq_some_iff.mp h
          exact fillMapping_io hwhole htable hsgl hfill

structure Left (info : DmaBuffInfo) (cb cb' : ContextBankInfo) : Prop where
  user : cb'.smmuBufList = cb.smmuBufList
  kernel : cb'.smmuBufKernelList = cb.smmuBufKernelList
  size : ∀ region, region = .io ∨ region = .shared →
    cb'.mappingSize region = cb.mappingSize region - lenIn region info

theorem Left.same (h : Left info cb cb') (hsame : SameBooks cb' cb'') : Left info cb cb'' :=
  ⟨hsame.user.trans h.user, hsame.kernel.trans h.kernel,
    fun region hregion => (hsame.size region).trans (h.size region hregion)⟩

theorem lenIn_self (h : info.regionId = region) : lenIn region info = info.len := if_pos h

theorem lenIn_of_ne (h : info.regionId ≠ region) : lenIn region info = 0 := if_neg h

theorem sub_lenIn_of_ne (n : UInt64) (h : info.regionId ≠ region) : n - lenIn region info = n := by
  rw [lenIn_of_ne h, UInt64.sub_zero]

theorem lenIn_of_scratch (h : info.regionId = .scratch) (hregion : region = .io ∨ region = .shared) :
    lenIn region info = 0 := by
  refine lenIn_of_ne fun heq => ?_
  rcases hregion with rfl | rfl
  · cases h.symm.trans heq
  · cases h.symm.trans heq

theorem SameBooks.joined (h : SameBooks cb cb') (hinfo : info.regionId = .scratch) :
    Joined info cb cb' :=
  ⟨h.user, h.kernel, fun region hregion => by
    rw [lenIn_of_scratch hinfo hregion, h.size, UInt64.add_zero]⟩

theorem SameBooks.left (h : SameBooks cb cb') (hinfo : info.regionId = .scratch) :
    Left info cb cb' :=
  ⟨h.user, h.kernel, fun region hregion => by
    rw [lenIn_of_scratch hinfo hregion, h.size, UInt64.sub_zero]⟩

namespace Kept

variable (h : Kept cb)

include h

theorem joinUser {ionFd : ℤ} (hjoined : Joined info cb cb')
    (hfd : ionFd = scratchFd → info.regionId = .scratch) :
    Kept { cb' with smmuBufList := { info with ionFd } :: cb'.smmuBufList } where
  counted region hregion := by
    have hsize := toNat_add_mod (n := lenIn region info) (h.counted region hregion)
    rw [← hjoined.size region hregion] at hsize
    change (cb'.mappingSize region).toNat = (recorded region ({ info with ionFd } :: _) + _) % _
    rw [hsize, recorded_cons, hjoined.user, hjoined.kernel, Nat.add_assoc]
    rfl
  scratch other hother := by
    rcases List.mem_cons.mp hother with rfl | hother
    · exact hfd
    · exact h.scratch other (hjoined.user ▸ hother)

theorem joinKernel {ionFd : ℤ} (hjoined : Joined info cb cb') :
    Kept { cb' with smmuBufKernelList := { info with ionFd } :: cb'.smmuBufKernelList } where
  counted region hregion := by
    have hsize := toNat_add_mod (n := lenIn region info) (h.counted region hregion)
    rw [← hjoined.size region hregion] at hsize
    change (cb'.mappingSize region).toNat = (_ + recorded region ({ info with ionFd } :: _)) % _
    rw [hsize, recorded_cons, hjoined.user, hjoined.kernel, Nat.add_left_comm]
    rfl
  scratch other hother := h.scratch other (hjoined.user ▸ hother)

variable {p : DmaBuffInfo → Bool}

theorem leaveUser (hleft : Left info cb cb')
    (hfind : cb.smmuBufList.find? p = some info) :
    Kept { cb' with smmuBufList := cb'.smmuBufList.eraseP p } where
  counted region hregion := by
    have hsize := h.counted region hregion
    rw [recorded_eraseP region hfind, Nat.add_assoc] at hsize
    have hsub := toNat_sub_mod hsize
    rw [← hleft.size region hregion] at hsub
    change (cb'.mappingSize region).toNat = _
    rw [hsub, hleft.user, hleft.kernel]
  scratch other hother := h.scratch other (hleft.user ▸ List.mem_of_mem_eraseP hother)

theorem leaveKernel (hleft : Left info cb cb')
    (hfind : cb.smmuBufKernelList.find? p = some info) :
    Kept { cb' with smmuBufKernelList := cb'.smmuBufKernelList.eraseP p } where
  counted region hregion := by
    have hsize := h.counted region hregion
    rw [recorded_eraseP region hfind, Nat.add_left_comm] at hsize
    have hsub := toNat_sub_mod hsize
    rw [← hleft.size region hregion] at hsub
    change (cb'.mappingSize region).toNat = _
    rw [hsub, hleft.user, hleft.kernel]
  scratch other hother := h.scratch other (hleft.user ▸ hother)

end Kept

theorem unmapBuf_left (h : cb.unmapBuf env info = some cb') : Left info cb cb' := by
  unfold ContextBankInfo.unmapBuf at h
  cases hbuf : info.buf with
  | none =>
    rw [hbuf] at h
    cases h
  | some b =>
    cases htable : info.table with
    | none =>
      rw [hbuf, htable] at h
      cases h
    | some t =>
      cases hattach : info.attach with
      | false =>
        rw [hbuf, htable, hattach] at h
        cases h
      | true =>
        rw [hbuf, htable, hattach] at h
        cases h
        refine Left.same ⟨?_, ?_, ?_⟩ (sameBooks_unmapTable _ t)
        · cases info.regionId <;> rfl
        · cases info.regionId <;> rfl
        · rintro region (rfl | rfl)
          · cases hregion : info.regionId with
            | io =>
              rw [lenIn_self hregion]
              rfl
            | firmware | shared | scratch | secheap | qdss =>
              exact (sub_lenIn_of_ne _ (hregion ▸ RegionId.noConfusion)).symm
          · cases hregion : info.regionId with
            | shared =>
              rw [lenIn_self hregion]
              rfl
            | firmware | io | scratch | secheap | qdss =>
              exact (sub_lenIn_of_ne _ (hregion ▸ RegionId.noConfusion)).symm

theorem freeScratchBuffer_same (h : cb.freeScratchBuffer env info = some (rc, cb')) :
    SameBooks cb cb' := by
  obtain ⟨t, -, heq⟩ := Option.map_eq_some_iff.mp h
  have hsame := sameBooks_unmap cb env info.paddr info.len
  dsimp only at heq
  split at heq
  · cases heq
    exact hsame.trans (.of_eq rfl rfl rfl rfl)
  · cases heq
    exact hsame

/-- Buffers that are given up are taken off the counters, and the others stay in the list. -/
theorem cleanBufferList_spec (give : ContextBankInfo → DmaBuffInfo → Option ContextBankInfo)
    (infos : List DmaBuffInfo) (cb : ContextBankInfo) (rest : RegionId → ℕ)
    (hgive : ∀ info ∈ infos, ∀ cb cb', give cb info = some cb' → Left info cb cb')
    (h : ∀ region, region = .io ∨ region = .shared →
      (cb.mappingSize region).toNat = (recorded region infos + rest region) % 2 ^ 64) :
    let r := ContextBankInfo.cleanBufferList give infos cb
    r.1.smmuBufList = cb.smmuBufList ∧ r.1.smmuBufKernelList = cb.smmuBufKernelList ∧
      (∀ info ∈ r.2, info ∈ infos) ∧
      ∀ region, region = .io ∨ region = .shared →
        (r.1.mappingSize region).toNat = (recorded region r.2 + rest region) % 2 ^ 64 := by
  induction infos generalizing cb rest with
  | nil => exact ⟨rfl, rfl, fun _ hinfo => hinfo, h⟩
  | cons info infos ih =>
    have hrest := fun info hinfo => hgive info (List.mem_cons_of_mem _ hinfo)
    unfold ContextBankInfo.cleanBufferList
    cases hinfo : give cb info with
    | some cb' =>
      have hleft := hgive info List.mem_cons_self cb cb' hinfo
      obtain ⟨huser, hkernel, hmem, hsize⟩ := ih cb' rest hrest
        fun region hregion => by
          have hsub := h region hregion
          rw [recorded_cons, Nat.add_assoc] at hsub
          rw [hleft.size region hregion, toNat_sub_mod hsub]
      exact ⟨huser.trans hleft.user, hkernel.trans hleft.kernel,
        fun other hother => List.mem_cons_of_mem _ (hmem other hother), hsize⟩
    | none =>
      obtain ⟨huser, hkernel, hmem, hsize⟩ := ih cb
        (fun region => (lenIn region info).toNat + rest region) hrest
        fun region hregion => by
          rw [h region hregion, recorded_cons, Nat.add_left_comm, Nat.add_assoc]
      refine ⟨huser, hkernel, fun other hother => ?_, fun region hregion => ?_⟩
      · rcases List.mem_cons.mp hother with rfl | hother
        · exact List.mem_cons_self
        · exact List.mem_cons_of_mem _ (hmem other hother)
      · rw [recorded_cons, Nat.add_assoc, Nat.add_left_comm]
        exact hsize region hregion

theorem Kept.cleanUser (h : Kept cb) (env : Env) : Kept (cb.cleanUserBufferList env) := by
  obtain ⟨-, hkernel, hmem, hsize⟩ := cleanBufferList_spec (fun cb info =>
    if info.ionFd = scratchFd then (cb.freeScratchBuffer env info).map Prod.snd
    else cb.unmapBuf env info) cb.smmuBufList cb (fun region => recorded region cb.smmuBufKernelList)
    (fun info hinfo cb₁ cb₂ hgive => by
      split_ifs at hgive with hfd
      · obtain ⟨⟨rc, cb₃⟩, hfree, rfl⟩ := Option.map_eq_some_iff.mp hgive
        exact (freeScratchBuffer_same hfree).left (h.scratch info hinfo hfd)
      · exact unmapBuf_left hgive) h.counted
  refine ⟨fun region hregion => ?_, fun info hinfo => h.scratch info (hmem info hinfo)⟩
  refine (hsize region hregion).trans ?_
  unfold ContextBankInfo.cleanUserBufferList
  rw [hkernel]

theorem Kept.cleanKernel (h : Kept cb) (env : Env) : Kept (cb.cleanKernelBufferList env) := by
  obtain ⟨huser, -, hmem, hsize⟩ := cleanBufferList_spec
    (fun cb info => cb.unmapBuf env info) cb.smmuBufKernelList cb
    (fun region => recorded region cb.smmuBufList)
    (fun info _ cb₁ cb₂ hgive => unmapBuf_left hgive)
    (fun region hregion => Nat.add_comm _ _ ▸ h.counted region hregion)
  refine ⟨fun region hregion => ?_, fun info hinfo => h.scratch info (huser ▸ hinfo)⟩
  refine (hsize region hregion).trans ?_
  unfold ContextBankInfo.cleanKernelBufferList
  rw [huser, Nat.add_comm]

theorem addToList_cases {add : ContextBankInfo → DmaBuffInfo → ContextBankInfo}
    (hwhole : Whole env buf len region)
    (h : cb.addToList env add ionFd buf len region = some (ret, cb')) :
    ret.rc ≠ 0 ∧ SameBooks cb cb' ∨ ∃ info cb₁, cb' = add cb₁ { info with ionFd } ∧
      Validated cb cb₁ buf len region ret (some info) := by
  obtain ⟨⟨ret₁, cb₁, info⟩, hvalid, hadd⟩ := Option.bind_eq_some_iff.mp h
  have hout := mapBufferValidate_validated hwhole hvalid
  dsimp only at hadd
  split_ifs at hadd with hrc
  · cases hout with
    | refused hsame =>
      cases hadd
      exact .inl ⟨hrc, hsame⟩
    | mapped info hjoined hret => exact absurd (congrArg Ret.rc hret) hrc
  · obtain ⟨info', rfl, heq⟩ := Option.map_eq_some_iff.mp hadd
    cases heq
    exact .inr ⟨info', cb₁, rfl, hout⟩

theorem Whole.lenGiven
    (h : Whole env buf args.len args.region) : Whole env buf args.lenGiven args.region := by
  refine ⟨fun hregion => ?_, h.io⟩
  rw [MapArgs.lenGiven, if_pos hregion]
  exact h.shared hregion

theorem requested_lenGiven (buf : Ptr DmaBuf) (args : MapArgs) :
    requested buf args.lenGiven args.region = requested buf args.len args.region := by
  unfold MapArgs.lenGiven
  cases args.region <;> rfl

theorem einval_ne_zero : einval ≠ 0 := by decide

theorem mapIova_cases {found : Option DmaBuffInfo}
    {add : Option (Ret × ContextBankInfo)} (h : cb.mapIova args found add = some (ret, cb')) :
    ret.rc ≠ 0 ∧ cb' = cb ∨ add = some (ret, cb') := by
  unfold ContextBankInfo.mapIova at h
  split_ifs at h
  · cases h
    exact .inl ⟨einval_ne_zero, rfl⟩
  · cases h
    exact .inl ⟨einval_ne_zero, rfl⟩
  · cases h
    exact .inl ⟨einval_ne_zero, rfl⟩
  · cases h
    exact .inl ⟨einval_ne_zero, rfl⟩
  · cases found with
    | some e =>
      cases h
      exact .inl ⟨by change ealready ≠ 0; decide, rfl⟩
    | none => exact .inr h

/-- A call keeps the books and backs what it returns 0 for. -/
structure Honest (c : Call) (cb' : ContextBankInfo) (ret : Ret) : Prop where
  kept : Kept cb'
  backed : ret.rc = 0 → c.Backed cb' ret

theorem Honest.refused {c : Call} (h : Kept cb') (hrc : ret.rc ≠ 0) : Honest c cb' ret :=
  ⟨h, fun hzero => absurd hzero hrc⟩

theorem mapUserIova_honest (h : Kept cb)
    (hcareful : (Call.mapUserIova args ionFd buf env).Careful cb)
    (hcall : cb.mapUserIova env args ionFd buf = some (ret, cb')) :
    Honest (.mapUserIova args ionFd buf env) cb' ret := by
  rcases mapIova_cases hcall with ⟨hrc, rfl⟩ | hadd
  · exact .refused h hrc
  · have hwhole : Whole env (dmaBufGet ionFd buf) args.len args.region := hcareful
    rcases addToList_cases hwhole.lenGiven hadd with ⟨hrc, hsame⟩ | ⟨info, cb₁, rfl, hvalid⟩
    · exact .refused (h.same hsame) hrc
    · cases hvalid with
      | mapped _ hjoined hret hregion hcovers hlong hbuf =>
        obtain ⟨b, hb, -⟩ := hbuf
        have hfd : ¬ionFd < 0 := by
          intro hneg
          rw [dmaBufGet, if_pos hneg] at hb
          cases hb
        rw [requested_lenGiven, dmaBufGet, if_neg hfd] at hlong
        subst hret
        exact ⟨h.joinUser hjoined fun heq => absurd (heq ▸ hfd) (by decide), fun _ =>
          ⟨hcovers, hlong, _, List.mem_cons_self, rfl, hregion, rfl, rfl⟩⟩

theorem mapKernelIova_honest (h : Kept cb)
    (hcareful : (Call.mapKernelIova args buf env).Careful cb)
    (hcall : cb.mapKernelIova env args buf = some (ret, cb')) :
    Honest (.mapKernelIova args buf env) cb' ret := by
  rcases mapIova_cases hcall with ⟨hrc, rfl⟩ | hadd
  · exact .refused h hrc
  · have hwhole : Whole env buf args.len args.region := hcareful
    rcases addToList_cases hwhole.lenGiven hadd with ⟨hrc, hsame⟩ | ⟨info, cb₁, rfl, hvalid⟩
    · exact .refused (h.same hsame) hrc
    · cases hvalid with
      | mapped _ hjoined hret hregion hcovers hlong hbuf =>
        rw [requested_lenGiven] at hlong
        subst hret
        exact ⟨h.joinKernel hjoined, fun _ =>
          ⟨hcovers, hlong, _, List.mem_cons_self, hbuf, hregion, rfl, rfl⟩⟩

theorem unmapUserIova_kept (h : Kept cb) : Kept (cb.unmapUserIova env handle ionFd).2 := by
  unfold ContextBankInfo.unmapUserIova
  by_cases hfd : ionFd < 0
  · rw [if_pos hfd]
    dsimp only [Option.bind_none]
    split_ifs <;> exact h
  · rw [if_neg hfd]
    dsimp only
    split_ifs
    · exact h
    · cases hunmap : (cb.smmuBufList.find? fun e => e.ionFd = ionFd).bind
          fun e => cb.unmapBuf env e with
      | none => exact h
      | some cb₁ =>
        obtain ⟨info, hfind, hleft⟩ := Option.bind_eq_some_iff.mp hunmap
        exact h.leaveUser (unmapBuf_left hleft) hfind

theorem unmapKernelIova_kept {buf : ℕ} (h : Kept cb) :
    Kept (cb.unmapKernelIova env handle buf).2 := by
  unfold ContextBankInfo.unmapKernelIova
  dsimp only
  split_ifs
  · exact h
  · cases hunmap : (cb.smmuBufKernelList.find? fun e => e.buf = some buf).bind
        fun e => cb.unmapBuf env e with
    | none => exact h
    | some cb₁ =>
      obtain ⟨info, hfind, hleft⟩ := Option.bind_eq_some_iff.mp hunmap
      exact h.leaveKernel (unmapBuf_left hleft) hfind

variable {find : BitMap → (size start nr mask : ℕ) → ℕ}

theorem allocScratchVa_error {m : ScratchMapping} {size : ℕ}
    (h : allocScratchVa find m size = .error rc) : rc ≠ 0 := by
  unfold allocScratchVa at h
  dsimp only at h
  split_ifs at h
  · cases h
    decide
  · cases h
    decide

theorem allocScratchBuffer_honest
    (h : Kept cb) (hcareful : env.mapSg = virtLen)
    (hcall : cb.allocScratchBufferAddToList env find virtLen physLen = (ret, cb')) :
    Honest (.getScratchIova handle dir virtLen physLen env) cb' ret := by
  unfold ContextBankInfo.allocScratchBufferAddToList at hcall
  rw [hcareful] at hcall
  cases halloc : allocScratchVa find cb.scratchMap virtLen.toNat with
  | error rc =>
    rw [halloc] at hcall
    dsimp only at hcall
    split_ifs at hcall
    · cases hcall
      exact .refused h (by decide)
    · cases hcall
      exact .refused h einval_ne_zero
    · cases hcall
      exact .refused h (by decide)
    · cases hcall
      exact .refused h (allocScratchVa_error halloc)
  | ok r =>
    have hsame : SameBooks cb ({ cb with scratchMap := r.1 }.map r.2 virtLen) :=
      .of_eq rfl rfl rfl rfl
    have hjoined : Joined {
        ionFd := scratchFd, buf := none, attach := false, table := some ⟨some 0, 0⟩,
        regionId := .scratch, paddr := r.2, len := virtLen, physLen }
        cb ({ cb with scratchMap := r.1 }.map r.2 virtLen) := hsame.joined rfl
    rw [halloc] at hcall
    dsimp only at hcall
    split_ifs at hcall with _ _ _ hshort
    · cases hcall
      exact .refused h (by decide)
    · cases hcall
      exact .refused h einval_ne_zero
    · cases hcall
      exact .refused h (by decide)
    · exact absurd rfl hshort
    · cases hcall
      exact .refused (h.same (hsame.trans (sameBooks_unmap _ env r.2 virtLen))) (by decide)
    · cases hcall
      exact ⟨h.joinUser hjoined fun _ => rfl, fun _ =>
        ⟨covers_map { cb with scratchMap := r.1 } r.2 virtLen, _, List.mem_cons_self, rfl, rfl,
          rfl⟩⟩

theorem getScratchIova_honest (h : Kept cb)
    (hcareful : env.mapSg = virtLen)
    (hcall : cb.getScratchIova env find handle dir virtLen physLen = (ret, cb')) :
    Honest (.getScratchIova handle dir virtLen physLen env) cb' ret := by
  unfold ContextBankInfo.getScratchIova at hcall
  split_ifs at hcall
  on_goal 6 => exact allocScratchBuffer_honest h hcareful hcall
  all_goals
    cases hcall
    exact .refused h einval_ne_zero

theorem putScratchIova_kept (h : Kept cb)
    (hcareful : (Call.putScratchIova handle paddr env).Careful cb) :
    Kept (cb.putScratchIova env handle paddr).2 := by
  unfold ContextBankInfo.putScratchIova
  split_ifs
  · exact h
  · cases hfind : cb.smmuBufList.find? fun e => e.paddr = paddr with
    | none => exact h
    | some info =>
      have hscratch := h.scratch info (List.mem_of_find?_eq_some hfind) (hcareful info hfind)
      dsimp only
      cases hfree : cb.freeScratchBuffer env info with
      | none => exact h
      | some r => exact h.leaveUser ((freeScratchBuffer_same hfree).left hscratch) hfind

theorem ptrErr_err_ne_zero (α : Type) (e : Fin 4095) : (Ptr.err e : Ptr α).ptrErr ≠ 0 := by
  change -((e : ℤ) + 1) ≠ 0
  omega

theorem mapTable_secheap (cb : ContextBankInfo) (t : SgTable) :
    (cb.mapTable t).secheapLen = cb.secheapLen ∧ (cb.mapTable t).secheapBuf = cb.secheapBuf := by
  unfold ContextBankInfo.mapTable
  cases t.sgl with
  | none => exact ⟨rfl, rfl⟩
  | some a => exact ⟨rfl, rfl⟩

theorem reserveSecHeap_honest (h : Kept cb)
    (hcareful : (Call.reserveSecHeap handle buf env).Careful cb)
    (hcall : cb.reserveSecHeap env buf = (ret, cb')) :
    Honest (.reserveSecHeap handle buf env) cb' ret := by
  obtain ⟨hbuf, hattach, htable, hmap⟩ := hcareful
  unfold ContextBankInfo.reserveSecHeap at hcall
  by_cases hsupport : cb.secheapSupport = false
  · rw [if_pos hsupport] at hcall
    cases hcall
    exact .refused h einval_ne_zero
  rw [if_neg hsupport] at hcall
  by_cases hallocated : cb.isSecheapAllocated = true
  · rw [if_pos hallocated] at hcall
    cases hcall
    exact .refused h (by decide)
  rw [if_neg hallocated] at hcall
  cases buf with
  | null => exact absurd rfl hbuf
  | err e =>
    cases hcall
    exact .refused h (ptrErr_err_ne_zero DmaBuf e)
  | ok b =>
    cases ha : env.attach with
    | null => exact absurd ha hattach
    | err e =>
      rw [ha] at hcall
      cases hcall
      exact .refused (h.same (.of_eq rfl rfl rfl rfl)) (ptrErr_err_ne_zero Unit e)
    | ok =>
      cases ht : env.table with
      | null => exact absurd ht htable
      | err e =>
        rw [ha, ht] at hcall
        cases hcall
        exact .refused (h.same (.of_eq rfl rfl rfl rfl)) (ptrErr_err_ne_zero SgTable e)
      | ok t =>
        rw [ha, ht] at hcall
        dsimp only at hcall
        obtain ⟨cb₁, hcb₁⟩ : ∃ cb₁, ({ cb with
          secheapBuf := ⟨some b.id, true, some t⟩ } : ContextBankInfo).mapTable t = cb₁ :=
          ⟨_, rfl⟩
        obtain ⟨hlen, hrecord⟩ := mapTable_secheap
          { cb with secheapBuf := ⟨some b.id, true, some t⟩ } t
        have hset : SameBooks cb { cb with secheapBuf := ⟨some b.id, true, some t⟩ } :=
          .of_eq rfl rfl rfl rfl
        have htab := hset.trans (sameBooks_mapTable _ t)
        rw [hcb₁] at hcall hlen hrecord htab
        have hfull : ¬env.mapSg ≠ (cb₁.map (cb.secheapStart % 2 ^ 32) env.mapSg).secheapLen :=
          not_not.mpr (hmap.trans hlen.symm)
        have hmapped := covers_map cb₁ (cb.secheapStart % 2 ^ 32) env.mapSg
        rw [if_neg hfull] at hcall
        cases hcall
        refine ⟨h.same (htab.trans (.of_eq rfl rfl rfl rfl)), fun _ =>
          ⟨?_, rfl, rfl, b, rfl, ?_⟩⟩
        · change Covers _ _ cb₁.secheapLen
          rw [hlen, ← hmap]
          exact hmapped
        · exact congrArg SecheapBufInfo.buf hrecord

theorem sameBooks_elim (cb : ContextBankInfo) (table : Option SgTable) :
    SameBooks cb (table.elim cb cb.unmapTable) := by
  cases table with
  | none => exact .refl cb
  | some t => exact sameBooks_unmapTable cb t

theorem releaseSecHeap_kept (h : Kept cb) : Kept (cb.releaseSecHeap env).2 := by
  unfold ContextBankInfo.releaseSecHeap
  split_ifs
  · exact h
  · exact h
  · have hunmap := sameBooks_unmap cb env (cb.secheapStart % 2 ^ 32) cb.secheapLen
    have htable := sameBooks_elim (cb.unmap env (cb.secheapStart % 2 ^ 32) cb.secheapLen)
      cb.secheapBuf.table
    exact h.same ((hunmap.trans htable).trans (.of_eq rfl rfl rfl rfl))

theorem destroyHandle_kept (h : Kept cb) : Kept (cb.destroyHandle env handle).2 := by
  have hclean := (h.cleanUser env).cleanKernel env
  unfold ContextBankInfo.destroyHandle
  dsimp only
  split_ifs
  · exact h
  · exact hclean
  · exact hclean.same (.of_eq rfl rfl rfl rfl)
  · exact hclean.same (.of_eq rfl rfl rfl rfl)
  · exact hclean.same (.of_eq rfl rfl rfl rfl)
  · exact hclean.same (.of_eq rfl rfl rfl rfl)
  · exact hclean.same (.of_eq rfl rfl rfl rfl)

theorem ops_kept {attach : Bool} (h : Kept cb) : Kept (cb.ops env handle attach).2 := by
  unfold ContextBankInfo.ops
  split_ifs
  · exact h
  · exact h
  · exact h
  · exact h.same (.of_eq rfl rfl rfl rfl)

theorem createAddHandle_kept {i rand : ℕ} {taken : Bool} (h : Kept cb) :
    Kept (cb.createAddHandle i rand taken).2 := by
  unfold ContextBankInfo.createAddHandle
  split_ifs
  · exact h.same (.of_eq rfl rfl rfl rfl)
  · exact h.same (.of_eq rfl rfl rfl rfl)
  · exact h
  · exact h
  · exact h.same (.of_eq rfl rfl rfl rfl)
  · exact h.same (.of_eq rfl rfl rfl rfl)
  · exact h.same (.of_eq rfl rfl rfl rfl)
  · exact h.same (.of_eq rfl rfl rfl rfl)

theorem kept_of_eq {r : Ret × ContextBankInfo} (h : Kept r.2) (hr : some r = some (ret, cb')) :
    Kept cb' := by
  obtain rfl := Option.some.inj hr
  exact h

theorem onBank_honest {taken : ℤ → Bool} (h : Kept cb) (hcareful : c.Careful cb)
    (hcall : c.onBank find taken cb = some (ret, cb')) : Honest c cb' ret := by
  cases c with
  | mapUserIova args ionFd buf env => exact mapUserIova_honest h hcareful hcall
  | mapKernelIova args buf env => exact mapKernelIova_honest h hcareful hcall
  | getScratchIova handle dir virtLen physLen env =>
    exact getScratchIova_honest h hcareful (Option.some.inj hcall)
  | reserveSecHeap handle buf env =>
    exact reserveSecHeap_honest h hcareful (Option.some.inj hcall)
  | unmapUserIova handle ionFd env =>
    exact ⟨kept_of_eq (unmapUserIova_kept h) hcall, fun _ => trivial⟩
  | unmapKernelIova handle buf env =>
    exact ⟨kept_of_eq (unmapKernelIova_kept h) hcall, fun _ => trivial⟩
  | putScratchIova handle paddr env =>
    exact ⟨kept_of_eq (putScratchIova_kept h hcareful) hcall, fun _ => trivial⟩
  | releaseSecHeap handle env =>
    exact ⟨kept_of_eq (releaseSecHeap_kept h) hcall, fun _ => trivial⟩
  | ops handle attach env =>
    exact ⟨kept_of_eq (ops_kept h) hcall, fun _ => trivial⟩
  | getHandle i rand =>
    exact ⟨kept_of_eq (createAddHandle_kept h) hcall, fun _ => trivial⟩
  | destroyHandle handle env =>
    exact ⟨kept_of_eq (destroyHandle_kept h) hcall, fun _ => trivial⟩

theorem call_honest {s' : CbSet} (h : ∀ i, Kept (s.cbInfo i))
    (hcareful : c.Careful (s.cbInfo c.idx)) (hcall : s.call find c = some (ret, s')) :
    (∀ i, Kept (s'.cbInfo i)) ∧ (ret.rc = 0 → c.Backed (s'.cbInfo c.idx) ret) := by
  unfold CbSet.call at hcall
  split_ifs at hcall with hidx
  · cases hcall
    exact ⟨h, fun hrc => absurd hrc einval_ne_zero⟩
  · obtain ⟨⟨ret', cb'⟩, hbank, heq⟩ := Option.map_eq_some_iff.mp hcall
    cases heq
    have hhonest := onBank_honest (h c.idx) hcareful hbank
    dsimp only
    refine ⟨fun i => ?_, fun hrc => ?_⟩
    · by_cases hi : i = c.idx
      · rw [hi, Function.update_self]
        exact hhonest.kept
      · rw [Function.update_of_ne hi]
        exact h i
    · rw [Function.update_self]
      exact hhonest.backed hrc

structure Fresh (s : CbSet) : Prop where
  user : ∀ i, (s.cbInfo i).smmuBufList = []
  kernel : ∀ i, (s.cbInfo i).smmuBufKernelList = []
  io : ∀ i, (s.cbInfo i).ioMappingSize = 0
  shared : ∀ i, (s.cbInfo i).sharedMappingSize = 0

theorem Fresh.kept (h : Fresh s) (i : ℕ) : Kept (s.cbInfo i) where
  counted region hregion := by
    rw [h.user, h.kernel]
    rcases hregion with rfl | rfl
    · exact congrArg UInt64.toNat (h.io i)
    · exact congrArg UInt64.toNat (h.shared i)
  scratch info hinfo := by
    rw [h.user] at hinfo
    cases hinfo

/-- What is asked of the banks in a state, of which the next call meets a condition. -/
structure SoundBanks (find : BitMap → (size start nr mask : ℕ) → ℕ) (next : Call → Prop)
    (s : CbSet) : Prop where
  counted : ∀ i, Counted (s.cbInfo i)
  backed : ∀ c ret s', next c → s.call find c = some (ret, s') → ret.rc = 0 →
    c.Backed (s'.cbInfo c.idx) ret

def CarefulIn : Option CbSet → Call → Prop
  | none, _ => True
  | some s, c => c.Careful (s.cbInfo c.idx)

/-- The counters are the sums and calls that return 0 have mapped and recorded what they were asked
for, in every state that careful calls lead to. -/
theorem banks_sound {s₀ s : CbSet} (hfresh : Fresh s₀) {calls : List Call}
    (hcareful : (callMachine find).Meets CarefulIn (some s₀) calls)
    (hrun : ((callMachine find).run (some s₀) calls).1 = some s) :
    SoundBanks find (fun c => c.Careful (s.cbInfo c.idx)) s := by
  have hkept := (callMachine find).invariant_of_meets
    (I := fun s => ∀ s₁, s = some s₁ → ∀ i, Kept (s₁.cbInfo i)) (C := CarefulIn)
    (fun s c h hc s₁ hs₁ => by
      cases s with
      | none => cases hs₁
      | some s =>
        cases hcall : s.call find c with
        | none =>
          simp only [callMachine, hcall] at hs₁
          cases hs₁
        | some r =>
          simp only [callMachine, hcall] at hs₁
          cases hs₁
          exact (call_honest (h s rfl) hc hcall).1)
    (fun s₁ hs₁ i => by
      cases hs₁
      exact hfresh.kept i) hcareful s hrun
  exact ⟨fun i => (hkept i).counted, fun c ret s' hc hcall hrc =>
    (call_honest hkept hc hcall).2 hrc⟩

/-- A bank with a secondary heap of a page, as it is set up. -/
def setUpBank : ContextBankInfo where
  handle := handleInit
  attached := true
  domain := true
  isSecure := false
  scratchBufSupport := true
  sharedSupport := true
  secheapSupport := true
  isSecheapAllocated := false
  secheapStart := 0x10A00000
  secheapLen := 4096
  secheapBuf := ⟨none, false, none⟩
  scratchMap := ⟨fun _ => false, 64, 0, 2 ^ 30⟩
  smmuBufList := []
  smmuBufKernelList := []
  secureCount := 0
  isMulClient := false
  deviceCount := 0
  ioMappingSize := 0
  sharedMappingSize := 0
  mapped := fun _ => false

/-- Primitives that do not fail; the IOMMU maps `mapSg` bytes. -/
def plainEnv (mapSg : UInt64) : Env where
  attach := .ok ()
  table := .ok ⟨some 0x20000000, 8192⟩
  vaddr := 0x7400000
  mapSg := mapSg
  unmap := fun _ => 8192
  kzalloc := true
  kzallocTable := true
  sgAlloc := true
  pages := true
  attachDevice := true

theorem fresh_setUp : Fresh ⟨1, fun _ => setUpBank⟩ :=
  ⟨fun _ => rfl, fun _ => rfl, fun _ => rfl, fun _ => rfl⟩

theorem whole_plain (hlen : len ≤ 8192)
    (hbuf : ∀ b, buf = .ok b → b.size ≤ 8192) : Whole (plainEnv 8192) buf len region where
  shared _ _ := ⟨hlen, rfl, fun t ht => by cases ht; exact Option.some_ne_none _⟩
  io _ b hb _ t a ht ha := by
    cases ht
    cases ha
    exact ⟨UInt64.le_iff_toNat_le.mp (hbuf b hb), rfl, by decide⟩

/-- A shared buffer of user space and an IO buffer of the kernel are mapped. -/
theorem banks_sound_twoBuffers :
    ∃ s, ((callMachine firstArea).run (some ⟨1, fun _ => setUpBank⟩)
      [.getHandle 0 7, .mapUserIova ⟨7, .rw, 8192, .shared⟩ 5 (.ok ⟨1, 8192⟩) (plainEnv 8192),
        .mapKernelIova ⟨7, .rw, 0, .io⟩ (.ok ⟨2, 4096⟩) (plainEnv 8192)]).1 = some s ∧
      (s.cbInfo 0).sharedMappingSize = 8192 ∧ (s.cbInfo 0).ioMappingSize = 4096 ∧
      SoundBanks firstArea (fun c => c.Careful (s.cbInfo c.idx)) s := by
  have hmeets : (callMachine firstArea).Meets CarefulIn (some ⟨1, fun _ => setUpBank⟩)
      [.getHandle 0 7, .mapUserIova ⟨7, .rw, 8192, .shared⟩ 5 (.ok ⟨1, 8192⟩) (plainEnv 8192),
        .mapKernelIova ⟨7, .rw, 0, .io⟩ (.ok ⟨2, 4096⟩) (plainEnv 8192)] := by
    refine ⟨trivial, whole_plain (by decide) fun b hb => ?_, whole_plain (by decide) fun b hb => ?_,
      trivial⟩
    · cases hb
      decide
    · cases hb
      decide
  exact ⟨_, rfl, rfl, rfl, banks_sound fresh_setUp hmeets rfl⟩

/-- The IOMMU maps nothing and the secondary heap is reserved all the same. -/
theorem not_banks_sound :
    ¬∀ (find : BitMap → (size start nr mask : ℕ) → ℕ) (s₀ s : CbSet) (calls : List Call),
      Fresh s₀ → ((callMachine find).run (some s₀) calls).1 = some s →
        SoundBanks find (fun _ => True) s := by
  intro hclaim
  have hsound := hclaim firstArea ⟨1, fun _ => setUpBank⟩ _ [] fresh_setUp rfl
  have hbacked := hsound.backed (.reserveSecHeap 7 (.ok ⟨1, 4096⟩) (plainEnv 0)) ⟨0, 0, 0⟩ _ trivial
    rfl rfl
  exact Bool.false_ne_true hbacked.2.2.1

end KernelModules.Smmu
