import KernelModules.Memory
import Mathlib.Tactic

/-!
# The command language of a CDM

`cdm_write_*` lay commands out in a buffer of words. `cam_cdm_util_cmd_buf_write` executes a
buffer by writing the registers, and `cam_cdm_util_dump_cmd_buf` and its second version walk over
one. Each of them works out for itself where the next command starts.

Addresses in a buffer count words; where the code counts bytes, so do the definitions. A register
is given by its address, and NULL is zero.
-/

namespace KernelModules.CdmCmd

abbrev Mem := ℕ → ℕ

def einval : ℤ := 22
def enospc : ℤ := 28

def cmdDmi : ℕ := 0x1
def cmdRegCont : ℕ := 0x3
def cmdRegRandom : ℕ := 0x4
def cmdBuffIndirect : ℕ := 0x5
def cmdGenIrq : ℕ := 0x6
def cmdWaitEvent : ℕ := 0x7
def cmdChangeBase : ℕ := 0x8
def cmdPerfCtrl : ℕ := 0x9
def cmdDmi32 : ℕ := 0xa
def cmdDmi64 : ℕ := 0xb
def cmdSwdDmi32 : ℕ := 0xf + 0x64
def cmdSwdDmi64 : ℕ := 0xf + 0x65

/-- `CDMCmdHeaderSizes`, in words. -/
def cmdHeaderSize (command : ℕ) : ℕ :=
  [0, 3, 0, 2, 1, 2, 2, 3, 1, 1, 3, 3, 3, 3, 3].getD command 0

def requiredSizeRegContinuous (numVals : ℕ) : ℕ := cmdHeaderSize cmdRegCont + numVals

def requiredSizeRegRandom (numRegVals : ℕ) : ℕ := cmdHeaderSize cmdRegRandom + 2 * numRegVals

def requiredSizeChangebase : ℕ := cmdHeaderSize cmdChangeBase

def countHeader (cmd count : ℕ) : ℕ := count % 2 ^ 16 + 2 ^ 24 * cmd

def writeRegcontinuous (mem : Mem) (cmdBuffer reg : ℕ) (vals : List ℕ) : Mem × ℕ :=
  (Memory.store mem cmdBuffer (countHeader cmdRegCont vals.length :: reg % 2 ^ 24 :: vals),
    cmdBuffer + cmdHeaderSize cmdRegCont + vals.length)

def regVals (vals : List (ℕ × ℕ)) : List ℕ := vals.flatMap fun regVal => [regVal.1, regVal.2]

def writeRegrandom (mem : Mem) (cmdBuffer : ℕ) (vals : List (ℕ × ℕ)) : Mem × ℕ :=
  (Memory.store mem cmdBuffer (countHeader cmdRegRandom vals.length :: regVals vals),
    cmdBuffer + cmdHeaderSize cmdRegRandom + 2 * vals.length)

def writeChangebase (mem : Mem) (cmdBuffer base : ℕ) : Mem × ℕ :=
  (Memory.store mem cmdBuffer [base % 2 ^ 24 + 2 ^ 24 * cmdChangeBase],
    cmdBuffer + cmdHeaderSize cmdChangeBase)

structure RegMap where
  memBase : ℕ
  memCamBase : ℕ

/-- `cam_cdm_get_ioremap_from_base`. -/
def getIoremapFromBase (baseTable : List (Option RegMap)) (hwBase : ℕ) : Option ℕ :=
  match baseTable with
  | [] => none
  | none :: baseTable => getIoremapFromBase baseTable hwBase
  | some regMap :: baseTable =>
    if regMap.memCamBase = hwBase then some regMap.memBase
    else getIoremapFromBase baseTable hwBase

/-- The loop of `cam_io_memcpy`: the registers that are written, in order. -/
def ioMemcpy (mem : Mem) : ℕ → ℕ → ℕ → List (ℕ × ℕ)
  | _, _, 0 => []
  | dest, src, len + 1 => (dest, mem src) :: ioMemcpy mem (dest + 4) (src + 1) len

/-- What is written and how many bytes of the buffer are used. -/
def regContWrite (mem : Mem) (base cmdBuf cmdBufSize : ℕ) : Option (List (ℕ × ℕ) × ℕ) :=
  if cmdBufSize < cmdHeaderSize cmdRegCont ∨ base = 0 then none
  else
    let count := mem cmdBuf % 2 ^ 16
    if count = 0 ∨ 0x10000 < count ∨ cmdBufSize < count * 4 + cmdHeaderSize cmdRegCont then none
    else
      let offset := mem (cmdBuf + 1) % 2 ^ 24
      some (ioMemcpy mem (base + offset) (cmdBuf + cmdHeaderSize cmdRegCont) count,
        count * 4 + 4 * cmdHeaderSize cmdRegCont)

/-- The loop of `cam_cdm_util_reg_random_write`. -/
def regRandomLoop (mem : Mem) (base : ℕ) : ℕ → ℕ → List (ℕ × ℕ)
  | _, 0 => []
  | data, count + 1 => (base + mem data, mem (data + 1)) :: regRandomLoop mem base (data + 2) count

def regRandomWrite (mem : Mem) (base cmdBuf cmdBufSize : ℕ) : Option (List (ℕ × ℕ) × ℕ) :=
  if base = 0 then none
  else
    let count := mem cmdBuf % 2 ^ 16
    if count = 0 ∨ 0x10000 < count ∨ cmdBufSize < count * (4 * 2) + cmdHeaderSize cmdRegRandom then
      none
    else
      some (regRandomLoop mem base (cmdBuf + cmdHeaderSize cmdRegRandom) count,
        count * (4 * 2) + 4 * cmdHeaderSize cmdRegRandom)

/-- The loops of `cam_cdm_util_swd_dmi_write`: the words go to the registers in turn. -/
def dmiLoop (mem : Mem) (regs : List ℕ) : ℕ → ℕ → List (ℕ × ℕ)
  | _, 0 => []
  | data, count + 1 =>
    (regs.zipIdx.map fun reg => (reg.1, mem (data + reg.2))) ++
      dmiLoop mem regs (data + regs.length) count

def swdDmiWrite (mem : Mem) (cdmCmdType base cmdBuf cmdBufSize : ℕ) :
    Option (List (ℕ × ℕ) × ℕ) :=
  let length := mem cmdBuf % 2 ^ 16
  if cmdBufSize < cmdHeaderSize cmdDmi + length + 1 then none
  else
    let dmi := base + mem (cmdBuf + 2) % 2 ^ 24
    let data := cmdBuf + cmdHeaderSize cmdDmi
    let writes :=
      if cdmCmdType = cmdSwdDmi64 then dmiLoop mem [dmi + 12, dmi + 8] data ((length + 1) / 8)
      else if cdmCmdType = cmdDmi then dmiLoop mem [dmi + 8] data ((length + 1) / 4)
      else dmiLoop mem [dmi + 12] data ((length + 1) / 4)
    some (writes, 4 * cmdHeaderSize cmdDmi + length + 1)

/-- What a run of `cam_cdm_util_cmd_buf_write` returns, the base it leaves, the registers that it
has written and the addresses of the commands it has looked at. -/
structure Executed where
  ret : ℤ
  base : ℕ
  writes : List (ℕ × ℕ)
  visited : List ℕ

/-- What `cam_cdm_util_cmd_buf_write` does with the command at `cmdBuf`: the base it goes on with,
what it writes and the bytes that are used. -/
def execute (baseTable : List (Option RegMap)) (mem : Mem) (base cmdBuf cmdBufSize : ℕ) :
    Option (ℕ × List (ℕ × ℕ) × ℕ) :=
  let cdmCmdType := mem cmdBuf / 2 ^ 24
  if cdmCmdType = cmdRegCont then (regContWrite mem base cmdBuf cmdBufSize).map (base, ·)
  else if cdmCmdType = cmdRegRandom then (regRandomWrite mem base cmdBuf cmdBufSize).map (base, ·)
  else if cdmCmdType = cmdDmi ∨ cdmCmdType = cmdSwdDmi32 ∨ cdmCmdType = cmdSwdDmi64 then
    if base = 0 then none
    else (swdDmiWrite mem cdmCmdType base cmdBuf cmdBufSize).map (base, ·)
  else if cdmCmdType = cmdChangeBase then
    (getIoremapFromBase baseTable (mem cmdBuf % 2 ^ 24)).map (·, [], 4 * requiredSizeChangebase)
  else none

/-- The loop of `cam_cdm_util_cmd_buf_write`; `cmd_buf_size` is an unsigned word. -/
def cmdBufWrite (baseTable : List (Option RegMap)) (mem : Mem) :
    ℕ → ℕ → ℕ → ℕ → Option Executed
  | 0, _, _, _ => none
  | fuel + 1, base, cmdBuf, cmdBufSize =>
    if cmdBufSize = 0 then some ⟨0, base, [], []⟩
    else
      match execute baseTable mem base cmdBuf cmdBufSize with
      | none => some ⟨-einval, base, [], [cmdBuf]⟩
      | some (base, writes, usedBytes) =>
        (cmdBufWrite baseTable mem fuel base (cmdBuf + usedBytes / 4)
          ((cmdBufSize + 2 ^ 32 - usedBytes) % 2 ^ 32)).map fun rest =>
            { rest with writes := writes ++ rest.writes, visited := cmdBuf :: rest.visited }

/-- The loops of `cam_cdm_util_dump_reg_cont_cmd` and `cam_cdm_util_dump_reg_random_cmd` over
items of `size` words, up to the address `bufEnd` of a byte. -/
def dumpItems (size bufEnd : ℕ) : ℕ → ℕ → ℕ
  | _, 0 => 0
  | tempPtr, count + 1 =>
    if bufEnd < 4 * tempPtr then 0 else size + dumpItems size bufEnd (tempPtr + size) count

/-- By how many words the walk goes on from the command at `bufNow`. -/
def dumpCmd (mem : Mem) (bufNow bufEnd : ℕ) : ℕ :=
  let cmd := mem bufNow / 2 ^ 24
  let count := mem bufNow % 2 ^ 16
  if cmd = cmdDmi ∨ cmd = cmdDmi32 ∨ cmd = cmdDmi64 then cmdHeaderSize cmdDmi
  else if cmd = cmdRegCont then
    cmdHeaderSize cmdRegCont + dumpItems 1 bufEnd (bufNow + cmdHeaderSize cmdRegCont) count
  else if cmd = cmdRegRandom then
    cmdHeaderSize cmdRegRandom + dumpItems 2 bufEnd (bufNow + cmdHeaderSize cmdRegRandom) count
  else if cmd = cmdBuffIndirect then cmdHeaderSize cmdBuffIndirect
  else if cmd = cmdGenIrq then cmdHeaderSize cmdGenIrq
  else if cmd = cmdWaitEvent then cmdHeaderSize cmdWaitEvent
  else if cmd = cmdChangeBase then cmdHeaderSize cmdChangeBase
  else if cmd = cmdPerfCtrl then cmdHeaderSize cmdPerfCtrl
  else 1

/-- The loop of `cam_cdm_util_dump_cmd_buf`: the addresses of the commands it has looked at. -/
def dumpCmdBuf (mem : Mem) (bufEnd : ℕ) : ℕ → ℕ → Option (List ℕ)
  | 0, _ => none
  | fuel + 1, bufNow =>
    let next := bufNow + dumpCmd mem bufNow bufEnd
    if 4 * next ≤ bufEnd then (dumpCmdBuf mem bufEnd fuel next).map (bufNow :: ·)
    else some [bufNow]

/-- `struct cam_cdm_cmd_buf_dump_info`, with what has been put into the destination. -/
structure DumpInfo where
  dstOffset : ℕ
  dstMaxSize : ℕ
  dump : List (String × List ℕ)

def dumpHeaderSize : ℕ := 48

/-- Words with their header, if there is room for them. -/
def DumpInfo.put (d : DumpInfo) (tag : String) (ws : List ℕ) : Option DumpInfo :=
  let len := 4 * ws.length + dumpHeaderSize
  if d.dstMaxSize - d.dstOffset < len then none
  else some { d with dstOffset := d.dstOffset + len, dump := d.dump ++ [(tag, ws)] }

def wordsAt (mem : Mem) (p n : ℕ) : List ℕ := (List.range n).map fun i => mem (p + i)

/-- The pairs of `cam_cdm_util_dump_reg_random_cmd_v2`, of which the offsets are masked. -/
def pairsAt (mem : Mem) (p n : ℕ) : List ℕ :=
  (List.range n).flatMap fun i => [mem (p + 2 * i) % 2 ^ 24, mem (p + 2 * i + 1)]

/-- A command that carries `items`, each of `size` words. Without room it is left after its
header. -/
def dumpV2 (d : DumpInfo) (tag : String) (ws : List ℕ) (header items : ℕ) : ℕ × DumpInfo :=
  match d.put tag ws with
  | none => (header, d)
  | some d => (header + items, d)

def dumpCmdV2 (mem : Mem) (bufNow : ℕ) (d : DumpInfo) : ℕ × DumpInfo :=
  let cmd := mem bufNow / 2 ^ 24
  let count := mem bufNow % 2 ^ 16
  if cmd = cmdDmi ∨ cmd = cmdDmi32 ∨ cmd = cmdDmi64 then (cmdHeaderSize cmdDmi, d)
  else if cmd = cmdRegCont then
    dumpV2 d "CDM_REG_CONT:"
      (mem (bufNow + 1) % 2 ^ 24 :: count :: wordsAt mem (bufNow + cmdHeaderSize cmdRegCont) count)
      (cmdHeaderSize cmdRegCont) count
  else if cmd = cmdRegRandom then
    dumpV2 d "CDM_REG_RANDOM:"
      (count :: pairsAt mem (bufNow + cmdHeaderSize cmdRegRandom) count)
      (cmdHeaderSize cmdRegRandom) (2 * count)
  else if cmd = cmdBuffIndirect then (cmdHeaderSize cmdBuffIndirect, d)
  else if cmd = cmdGenIrq then (cmdHeaderSize cmdGenIrq, d)
  else if cmd = cmdWaitEvent then (cmdHeaderSize cmdWaitEvent, d)
  else if cmd = cmdChangeBase then (cmdHeaderSize cmdChangeBase, d)
  else if cmd = cmdPerfCtrl then (cmdHeaderSize cmdPerfCtrl, d)
  else (1, d)

/-- The loop of `cam_cdm_util_dump_cmd_bufs_v2`: what it returns, the addresses of the commands
and the destination. -/
def dumpCmdBufsV2 (mem : Mem) (srcEnd : ℕ) : ℕ → ℕ → DumpInfo → Option (ℤ × List ℕ × DumpInfo)
  | 0, _, _ => none
  | fuel + 1, bufNow, d =>
    if d.dstMaxSize ≤ d.dstOffset then some (-enospc, [], d)
    else
      let next := bufNow + (dumpCmdV2 mem bufNow d).1
      if 4 * next ≤ srcEnd then
        (dumpCmdBufsV2 mem srcEnd fuel next (dumpCmdV2 mem bufNow d).2).map fun r =>
          (r.1, bufNow :: r.2.1, r.2.2)
      else some (0, [bufNow], (dumpCmdV2 mem bufNow d).2)

end KernelModules.CdmCmd
