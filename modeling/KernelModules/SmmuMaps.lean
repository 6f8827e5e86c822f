import KernelModules.SmmuScratch

/-!
# Buffers mapped by the camera SMMU driver

Each context bank keeps the buffers that are mapped through it in a list for user space and one for
the kernel, and counts the bytes mapped in its IO and its shared region. The calls map a buffer,
reserve the secondary heap or take a scratch buffer, and undo it. What `dma_buf`, the IOMMU and the
allocations return is given with each call.

`mapped` is not kept by the driver: it says which addresses the device reaches. The buffers of
secure banks are left out.
-/

namespace KernelModules.Smmu

open BitAreas

def enodev : ℤ := -19
def enospc : ℤ := -28
def eperm : ℤ := -1
def ealready : ℤ := -114

def handleInit : ℤ := -1

/-- `0xDEADBEEF` in an `int`. -/
def scratchFd : ℤ := 0xDEADBEEF - 2 ^ 32

inductive RegionId where
  | firmware | shared | scratch | io | secheap | qdss
deriving DecidableEq

inductive MapDir where
  | read | write | rw | invalid
deriving DecidableEq

/-- A pointer that is null or that carries an error. -/
inductive Ptr (α : Type) where
  | null
  | err (e : Fin 4095)
  | ok (a : α)

/-- `PTR_ERR` of a pointer that `IS_ERR_OR_NULL` holds of. -/
def Ptr.ptrErr {α : Type} : Ptr α → ℤ
  | .err e => -(e + 1)
  | _ => 0

structure DmaBuf where
  id : ℕ
  size : UInt64

/-- The address of the first entry and the bytes that are mapped from there on. -/
structure SgTable where
  sgl : Option ℕ
  dmaLen : ℕ

structure DmaBuffInfo where
  ionFd : ℤ
  buf : Option ℕ
  attach : Bool
  table : Option SgTable
  regionId : RegionId
  paddr : ℕ
  len : UInt64
  physLen : UInt64

structure SecheapBufInfo where
  buf : Option ℕ
  attach : Bool
  table : Option SgTable

structure ContextBankInfo where
  handle : ℤ
  attached : Bool
  domain : Bool
  isSecure : Bool
  scratchBufSupport : Bool
  sharedSupport : Bool
  secheapSupport : Bool
  isSecheapAllocated : Bool
  secheapStart : ℕ
  secheapLen : UInt64
  secheapBuf : SecheapBufInfo
  scratchMap : ScratchMapping
  smmuBufList : List DmaBuffInfo
  smmuBufKernelList : List DmaBuffInfo
  secureCount : ℕ
  isMulClient : Bool
  deviceCount : ℕ
  ioMappingSize : UInt64
  sharedMappingSize : UInt64
  mapped : BitMap

structure CbSet where
  cbNum : ℕ
  cbInfo : ℕ → ContextBankInfo

structure Env where
  attach : Ptr Unit
  table : Ptr SgTable
  vaddr : ℕ
  mapSg : UInt64
  unmap : ℕ → ℕ
  kzalloc : Bool
  kzallocTable : Bool
  sgAlloc : Bool
  pages : Bool
  attachDevice : Bool

structure Ret where
  rc : ℤ
  paddr : ℕ
  len : UInt64

namespace ContextBankInfo

variable (cb : ContextBankInfo) (env : Env)

def map (iova : ℕ) (len : UInt64) : ContextBankInfo :=
  { cb with mapped := set cb.mapped ⟨iova, len.toNat⟩ }

/-- `iommu_unmap` may take off less than it is asked to. -/
def unmap (iova : ℕ) (len : UInt64) : ContextBankInfo :=
  { cb with mapped := clear cb.mapped ⟨iova, min (env.unmap iova) len.toNat⟩ }

def mapTable (t : SgTable) : ContextBankInfo :=
  match t.sgl with
  | some a => { cb with mapped := set cb.mapped ⟨a, t.dmaLen⟩ }
  | none => cb

def unmapTable (t : SgTable) : ContextBankInfo :=
  match t.sgl with
  | some a => { cb with mapped := clear cb.mapped ⟨a, t.dmaLen⟩ }
  | none => cb

def allocIova (size : UInt64) : Except ℤ ℕ :=
  if size = 0 ∨ cb.handle = handleInit then .error einval
  else if cb.sharedSupport = false then .error einval
  else if env.vaddr = 0 then .error enomem
  else .ok env.vaddr

/-- The part of `map_buffer_validate` that the regions share, with the mapping in place. -/
def fillMapping (buf : DmaBuf) (table : SgTable) (region : RegionId) (paddr : ℕ) (len : UInt64) :
    Ret × ContextBankInfo × Option DmaBuffInfo :=
  let errAlloc := if region = .shared then cb.unmap env paddr len else cb
  if table.sgl = none then (⟨einval, paddr, len⟩, cb.unmapTable table, none)
  else if env.kzalloc = false then (⟨enospc, paddr, len⟩, errAlloc.unmapTable table, none)
  else if paddr = 0 ∨ len = 0 then (⟨enospc, paddr, len⟩, errAlloc.unmapTable table, none)
  else (⟨0, paddr, len⟩, cb, some {
    ionFd := 0, buf := some buf.id, attach := true, table := some table, regionId := region, paddr,
    len, physLen := 0 })

/-- A bank without a domain is found while `rc` is still 0. There is no result where the address of
an entry that is not there is read. -/
def mapBufferValidate (buf : Ptr DmaBuf) (len : UInt64) (region : RegionId) :
    Option (Ret × ContextBankInfo × Option DmaBuffInfo) :=
  match buf, env.attach with
  | .ok b, .ok _ =>
    match region, env.table with
    | .shared, .ok t =>
      let cb := cb.mapTable t
      if cb.domain = false then some (⟨0, 0, len⟩, cb.unmapTable t, none)
      else
        match cb.allocIova env len with
        | .error rc => some (⟨rc, 0, len⟩, cb.unmapTable t, none)
        | .ok iova =>
          let cb := cb.map iova env.mapSg
          let cb := { cb with sharedMappingSize := cb.sharedMappingSize + env.mapSg }
          some (cb.fillMapping env b t region iova env.mapSg)
    | .io, .ok t =>
      let cb := cb.mapTable t
      t.sgl.map fun a =>
        { cb with ioMappingSize := cb.ioMappingSize + b.size }.fillMapping env b t region a b.size
    | .shared, p => some (⟨p.ptrErr, 0, len⟩, cb, none)
    | .io, p => some (⟨p.ptrErr, 0, len⟩, cb, none)
    | _, _ => some (⟨einval, 0, len⟩, cb, none)
  | .ok _, p => some (⟨p.ptrErr, 0, len⟩, cb, none)
  | p, _ => some (⟨p.ptrErr, 0, len⟩, cb, none)

/-- A buffer that was not filled in is written to when the return code is 0. -/
def addToList (add : ContextBankInfo → DmaBuffInfo → ContextBankInfo) (ionFd : ℤ)
    (buf : Ptr DmaBuf) (len : UInt64) (region : RegionId) : Option (Ret × ContextBankInfo) :=
  (cb.mapBufferValidate env buf len region).bind fun (ret, cb, info) =>
    if ret.rc ≠ 0 then some (ret, cb)
    else info.map fun info => (ret, add cb { info with ionFd })

def mapBufferAndAddToList (ionFd : ℤ) :=
  cb.addToList env (fun cb info => { cb with smmuBufList := info :: cb.smmuBufList }) ionFd

def mapKernelBufferAndAddToList :=
  cb.addToList env (fun cb info => { cb with smmuBufKernelList := info :: cb.smmuBufKernelList }) (-1)

def unmapBuf (info : DmaBuffInfo) : Option ContextBankInfo :=
  match info.buf, info.table, info.attach with
  | some _, some t, true =>
    let cb :=
      match info.regionId with
      | .shared =>
        { cb.unmap env info.paddr info.len with
          sharedMappingSize := cb.sharedMappingSize - info.len }
      | .io => { cb with ioMappingSize := cb.ioMappingSize - info.len }
      | _ => cb
    some (cb.unmapTable t)
  | _, _, _ => none

end ContextBankInfo

structure MapArgs where
  handle : ℤ
  dir : MapDir
  len : UInt64
  region : RegionId

def MapArgs.lenGiven (args : MapArgs) : UInt64 := if args.region = .shared then args.len else 0

def dmaBufGet (ionFd : ℤ) (buf : Ptr DmaBuf) : Ptr DmaBuf := if ionFd < 0 then .err 8 else buf

def tableIdx (handle : ℤ) : ℕ := (handle / 2 ^ 16 % 2 ^ 16).toNat

namespace ContextBankInfo

variable (cb : ContextBankInfo) (env : Env)

/-- The checks of the two calls that map a buffer. -/
def mapIova (args : MapArgs) (found : Option DmaBuffInfo) (add : Option (Ret × ContextBankInfo)) :
    Option (Ret × ContextBankInfo) :=
  if args.handle = handleInit ∨ args.dir = .invalid then some (⟨einval, 0, args.lenGiven⟩, cb)
  else if cb.isSecure then some (⟨einval, 0, args.lenGiven⟩, cb)
  else if cb.handle ≠ args.handle then some (⟨einval, 0, args.lenGiven⟩, cb)
  else if cb.attached = false then some (⟨einval, 0, args.lenGiven⟩, cb)
  else
    match found with
    | some e => some (⟨ealready, e.paddr, e.len⟩, cb)
    | none => add

def mapUserIova (args : MapArgs) (ionFd : ℤ) (buf : Ptr DmaBuf) : Option (Ret × ContextBankInfo) :=
  cb.mapIova args (cb.smmuBufList.find? fun e => e.ionFd = ionFd)
    (cb.mapBufferAndAddToList env ionFd (dmaBufGet ionFd buf) args.lenGiven args.region)

def mapKernelIova (args : MapArgs) (buf : Ptr DmaBuf) : Option (Ret × ContextBankInfo) :=
  cb.mapIova args
    (match buf with
      | .ok b => cb.smmuBufKernelList.find? fun e => e.buf = some b.id
      | _ => none)
    (cb.mapKernelBufferAndAddToList env buf args.lenGiven args.region)

def unmapUserIova (handle ionFd : ℤ) : Ret × ContextBankInfo :=
  let found := if ionFd < 0 then none else cb.smmuBufList.find? fun e => e.ionFd = ionFd
  if handle = handleInit ∨ cb.isSecure ∨ cb.handle ≠ handle then (⟨einval, 0, 0⟩, cb)
  else
    match found.bind fun e => cb.unmapBuf env e with
    | some cb =>
      (⟨0, 0, 0⟩, { cb with smmuBufList := cb.smmuBufList.eraseP fun e => e.ionFd = ionFd })
    | none => (⟨einval, 0, 0⟩, cb)

def unmapKernelIova (handle : ℤ) (buf : ℕ) : Ret × ContextBankInfo :=
  let found := cb.smmuBufKernelList.find? fun e => e.buf = some buf
  if handle = handleInit ∨ cb.isSecure ∨ cb.handle ≠ handle then (⟨einval, 0, 0⟩, cb)
  else
    match found.bind fun e => cb.unmapBuf env e with
    | some cb =>
      (⟨0, 0, 0⟩,
        { cb with smmuBufKernelList := cb.smmuBufKernelList.eraseP fun e => e.buf = some buf })
    | none => (⟨einval, 0, 0⟩, cb)

variable (find : BitMap → (size start nr mask : ℕ) → ℕ)

/-- When the mapping falls short `rc` is still what the allocation of the addresses returned. -/
def allocScratchBufferAddToList (virtLen physLen : UInt64) : Ret × ContextBankInfo :=
  if env.kzallocTable = false then (⟨enomem, 0, 0⟩, cb)
  else if env.sgAlloc = false then (⟨einval, 0, 0⟩, cb)
  else if env.pages = false then (⟨enomem, 0, 0⟩, cb)
  else
    match allocScratchVa find cb.scratchMap virtLen.toNat with
    | .error rc => (⟨rc, 0, 0⟩, cb)
    | .ok (scratchMap, iova) =>
      let cb := { cb with scratchMap }.map iova env.mapSg
      if env.mapSg ≠ virtLen then (⟨0, 0, 0⟩, cb)
      else if env.kzalloc = false then (⟨enomem, 0, 0⟩, cb.unmap env iova virtLen)
      else (⟨0, iova, virtLen⟩, { cb with smmuBufList := {
        ionFd := scratchFd, buf := none, attach := false, table := some ⟨some 0, 0⟩,
        regionId := .scratch, paddr := iova, len := virtLen, physLen } :: cb.smmuBufList })

def getScratchIova (handle : ℤ) (dir : MapDir) (virtLen physLen : UInt64) : Ret × ContextBankInfo :=
  if virtLen = 0 ∨ physLen = 0 ∨ virtLen < physLen then (⟨einval, 0, 0⟩, cb)
  else if handle = handleInit ∨ dir = .invalid ∨ cb.handle ≠ handle then (⟨einval, 0, 0⟩, cb)
  else if cb.scratchBufSupport = false ∨ cb.attached = false then (⟨einval, 0, 0⟩, cb)
  else if virtLen &&& (4096 - 1) ≠ 0 then (⟨einval, 0, 0⟩, cb)
  else if virtLen &&& (physLen - 1) ≠ 0 then (⟨einval, 0, 0⟩, cb)
  else cb.allocScratchBufferAddToList env find virtLen physLen

/-- A buffer leaves the list also when its addresses are refused. -/
def freeScratchBuffer (info : DmaBuffInfo) : Option (ℤ × ContextBankInfo) :=
  info.table.map fun _ =>
    let cb := cb.unmap env info.paddr info.len
    match freeScratchVa cb.scratchMap info.paddr info.len.toNat with
    | .ok scratchMap => (0, { cb with scratchMap })
    | .error _ => (einval, cb)

def putScratchIova (handle : ℤ) (paddr : ℕ) : Ret × ContextBankInfo :=
  if handle = handleInit ∨ cb.handle ≠ handle ∨ cb.scratchBufSupport = false then
    (⟨einval, 0, 0⟩, cb)
  else
    match cb.smmuBufList.find? fun e => e.paddr = paddr with
    | none => (⟨enodev, 0, 0⟩, cb)
    | some e =>
      match cb.freeScratchBuffer env e with
      | some (rc, cb) =>
        (⟨rc, 0, 0⟩, { cb with smmuBufList := cb.smmuBufList.eraseP fun e => e.paddr = paddr })
      | none => (⟨einval, 0, 0⟩, cb)

/-- Where the mapping falls short `rc` is still 0. -/
def reserveSecHeap (buf : Ptr DmaBuf) : Ret × ContextBankInfo :=
  if cb.secheapSupport = false then (⟨einval, 0, 0⟩, cb)
  else if cb.isSecheapAllocated then (⟨enomem, 0, 0⟩, cb)
  else
    match buf with
    | .ok b =>
      match env.attach with
      | .ok _ =>
        match env.table with
        | .ok t =>
          let iova := cb.secheapStart % 2 ^ 32
          let cb := { cb with secheapBuf := ⟨some b.id, true, some t⟩ }
          let cb := (cb.mapTable t).map iova env.mapSg
          if env.mapSg ≠ cb.secheapLen then (⟨0, 0, 0⟩, cb.unmapTable t)
          else (⟨0, iova, cb.secheapLen⟩, { cb with isSecheapAllocated := true })
        | p => (⟨p.ptrErr, 0, 0⟩, { cb with secheapBuf := ⟨some b.id, true, none⟩ })
      | p =>
        (⟨p.ptrErr, 0, 0⟩, { cb with secheapBuf := ⟨some b.id, false, cb.secheapBuf.table⟩ })
    | p => (⟨p.ptrErr, 0, 0⟩, cb)

def releaseSecHeap : Ret × ContextBankInfo :=
  if cb.secheapSupport = false then (⟨einval, 0, 0⟩, cb)
  else if cb.isSecheapAllocated = false then (⟨enomem, 0, 0⟩, cb)
  else
    let cb := cb.unmap env (cb.secheapStart % 2 ^ 32) cb.secheapLen
    let cb := cb.secheapBuf.table.elim cb cb.unmapTable
    (⟨0, 0, 0⟩, { cb with isSecheapAllocated := false })

/-- The buffers of a list are given up one after the other; what is refused stays. -/
def cleanBufferList (give : ContextBankInfo → DmaBuffInfo → Option ContextBankInfo) :
    List DmaBuffInfo → ContextBankInfo → ContextBankInfo × List DmaBuffInfo
  | [], cb => (cb, [])
  | info :: infos, cb =>
    match give cb info with
    | some cb => cleanBufferList give infos cb
    | none =>
      let r := cleanBufferList give infos cb
      (r.1, info :: r.2)

def cleanUserBufferList : ContextBankInfo :=
  let r := cleanBufferList (fun cb info =>
    if info.ionFd = scratchFd then (cb.freeScratchBuffer env info).map Prod.snd
    else cb.unmapBuf env info) cb.smmuBufList cb
  { r.1 with smmuBufList := r.2 }

def cleanKernelBufferList : ContextBankInfo :=
  let r := cleanBufferList (fun cb info => cb.unmapBuf env info) cb.smmuBufKernelList cb
  { r.1 with smmuBufKernelList := r.2 }

def destroyHandle (handle : ℤ) : Ret × ContextBankInfo :=
  if handle = handleInit ∨ cb.handle ≠ handle then (⟨einval, 0, 0⟩, cb)
  else
    let cb := (cb.cleanUserBufferList env).cleanKernelBufferList env
    if cb.isSecure then
      if cb.secureCount = 0 then (⟨eperm, 0, 0⟩, cb)
      else
        let cb := { cb with secureCount := cb.secureCount - 1 }
        (⟨0, 0, 0⟩, if cb.secureCount = 0 then { cb with handle := handleInit } else cb)
    else if cb.isMulClient ∧ cb.deviceCount ≠ 0 then
      let cb := { cb with deviceCount := cb.deviceCount - 1 }
      (⟨0, 0, 0⟩, if cb.deviceCount = 0 then { cb with handle := handleInit } else cb)
    else (⟨0, 0, 0⟩, { cb with deviceCount := 0, handle := handleInit })

/-- `attach` says which of the two operations is asked for. -/
def ops (handle : ℤ) (attach : Bool) : Ret × ContextBankInfo :=
  if handle = handleInit ∨ cb.handle ≠ handle then (⟨einval, 0, 0⟩, cb)
  else if cb.attached = attach then (⟨ealready, 0, 0⟩, cb)
  else if attach ∧ env.attachDevice = false then (⟨enodev, 0, 0⟩, cb)
  else (⟨0, 0, 0⟩, { cb with attached := attach })

/-- `taken` says that the number drawn for the handle is in use, so that another is to be drawn. -/
def createAddHandle (i rand : ℕ) (taken : Bool) : Ret × ContextBankInfo :=
  if cb.handle ≠ handleInit then
    if cb.isSecure then (⟨0, 0, 0⟩, { cb with secureCount := cb.secureCount + 1 })
    else if cb.isMulClient then (⟨0, 0, 0⟩, { cb with deviceCount := cb.deviceCount + 1 })
    else (⟨ealready, 0, 0⟩, cb)
  else if taken then (⟨ealready, 0, 0⟩, cb)
  else
    (⟨0, 0, 0⟩, { cb with
      handle := i * 2 ^ 16 + rand % 2 ^ 16
      secureCount := if cb.isSecure then cb.secureCount + 1 else cb.secureCount
      deviceCount := if cb.isMulClient then cb.deviceCount + 1 else cb.deviceCount })

end ContextBankInfo

inductive Call where
  | mapUserIova (args : MapArgs) (ionFd : ℤ) (buf : Ptr DmaBuf) (env : Env)
  | mapKernelIova (args : MapArgs) (buf : Ptr DmaBuf) (env : Env)
  | unmapUserIova (handle ionFd : ℤ) (env : Env)
  | unmapKernelIova (handle : ℤ) (buf : ℕ) (env : Env)
  | getScratchIova (handle : ℤ) (dir : MapDir) (virtLen physLen : UInt64) (env : Env)
  | putScratchIova (handle : ℤ) (paddr : ℕ) (env : Env)
  | reserveSecHeap (handle : ℤ) (buf : Ptr DmaBuf) (env : Env)
  | releaseSecHeap (handle : ℤ) (env : Env)
  | ops (handle : ℤ) (attach : Bool) (env : Env)
  | getHandle (i rand : ℕ)
  | destroyHandle (handle : ℤ) (env : Env)

/-- The bank that a call is about. -/
def Call.idx : Call → ℕ
  | .mapUserIova args .. => tableIdx args.handle
  | .mapKernelIova args .. => tableIdx args.handle
  | .unmapUserIova handle .. => tableIdx handle
  | .unmapKernelIova handle .. => tableIdx handle
  | .getScratchIova handle .. => tableIdx handle
  | .putScratchIova handle .. => tableIdx handle
  | .reserveSecHeap handle .. => tableIdx handle
  | .releaseSecHeap handle .. => tableIdx handle
  | .ops handle .. => tableIdx handle
  | .getHandle i _ => i
  | .destroyHandle handle _ => tableIdx handle

variable (find : BitMap → (size start nr mask : ℕ) → ℕ)

def Call.onBank (taken : ℤ → Bool) (cb : ContextBankInfo) : Call → Option (Ret × ContextBankInfo)
  | .mapUserIova args ionFd buf env => cb.mapUserIova env args ionFd buf
  | .mapKernelIova args buf env => cb.mapKernelIova env args buf
  | .unmapUserIova handle ionFd env => some (cb.unmapUserIova env handle ionFd)
  | .unmapKernelIova handle buf env => some (cb.unmapKernelIova env handle buf)
  | .getScratchIova handle dir virtLen physLen env =>
    some (cb.getScratchIova env find handle dir virtLen physLen)
  | .putScratchIova handle paddr env => some (cb.putScratchIova env handle paddr)
  | .reserveSecHeap _ buf env => some (cb.reserveSecHeap env buf)
  | .releaseSecHeap _ env => some (cb.releaseSecHeap env)
  | .ops handle attach env => some (cb.ops env handle attach)
  | .getHandle i rand => some (cb.createAddHandle i rand (taken (i * 2 ^ 16 + rand % 2 ^ 16)))
  | .destroyHandle handle env => some (cb.destroyHandle env handle)

namespace CbSet

variable (s : CbSet)

def handleTaken (handle : ℤ) : Bool :=
  handle = handleInit ∨ ∃ i < s.cbNum, (s.cbInfo i).handle = handle

def call (c : Call) : Option (Ret × CbSet) :=
  if s.cbNum ≤ c.idx then some (⟨einval, 0, 0⟩, s)
  else
    (c.onBank find s.handleTaken (s.cbInfo c.idx)).map fun (ret, cb) =>
      (ret, { s with cbInfo := Function.update s.cbInfo c.idx cb })

end CbSet

def callMachine : Machine (Option CbSet) Call Ret where
  step
    | none, _ => (none, [])
    | some s, c =>
      match s.call find c with
      | some (ret, s) => (some s, [ret])
      | none => (none, [])

end KernelModules.Smmu
