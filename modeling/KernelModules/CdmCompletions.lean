import KernelModules.CdmFifo

/-!
# Completions of a CDM

A request that asks for it ends with an interrupt that carries its tag. `bl_request_list` has an
entry for each such request; when the interrupt has come, the entries up to the one with its tag
are reported. An interrupt is ignored where its tag is the last one that has come.

The hardware executes the interrupts in order. A work item that comes late carries an older tag,
and one that is lost is as if it had been skipped.
-/

namespace KernelModules.Cdm

/-- `struct cam_cdm_bl_cb_request_entry`, with the number of the submission that added it. -/
structure Entry where
  number : ℕ
  clientHdl : ℕ
  cookie : ℕ
  blTag : ℕ
  deriving DecidableEq

/-- An interrupt that the hardware is to raise. -/
structure Irq where
  number : ℕ
  irqData : ℕ

/-- `struct cam_cdm_bl_fifo`, with the interrupts that have been committed to the hardware. -/
structure BlFifo where
  fifo : Fifo
  blRequestList : List Entry
  lastBlTagDone : ℕ
  irqs : List Irq
  submissions : ℕ

def noTag : ℕ := 0xff

def BlFifo.start : BlFifo := ⟨Fifo.start, [], noTag, [], 0⟩

inductive CbStatus
  | blSuccess
  | hwFlush
  | hwResubmit
  | hwResetDone
  deriving DecidableEq

inductive Report
  | submitted (number : ℕ) (rc : ℤ)
  | reported (entry : Entry) (status : CbStatus)
  deriving DecidableEq

variable (core : Core)

structure Final where
  cmd : BlCmd
  hwVaddr : ℕ
  writeCount : ℤ
  fifo : Fifo

namespace Core

/-- The loop of `submitCmds` up to the final interrupt, or what it returns without one. -/
def cmdsToFinal (req : BlRequest) : List BlCmd → ℤ → ℤ → Fifo → (ℤ × Fifo) ⊕ Final
  | [], rc, _, s => .inl (rc, s)
  | cmd :: rest, _, writeCount, s =>
    if cmd.len = 0 ∧ 0x100000 < cmd.len then .inl (-einval, s)
    else
      match s.beat with
      | (true, s) => .inl (-eagain, s)
      | (false, s) =>
        match core.topUp (rest.length + 1) writeCount s with
        | (none, s) => .inl (-eio, s)
        | (some writeCount, s) =>
          match req.hwVaddr cmd with
          | none => .inl (-einval, s)
          | some hwVaddr =>
            match core.writeCmd req cmd rest hwVaddr writeCount (core.resetTag s) with
            | (none, s) => .inl (-eio, s)
            | (some writeCount, s) =>
              match core.debugGenIrq cmd writeCount s with
              | (none, s) => .inl (-eio, s)
              | (some (rc, writeCount), s) =>
                if rc = 0 ∧ req.flag = 1 ∧ rest = [] then
                  .inr ⟨cmd, hwVaddr, writeCount, s⟩
                else cmdsToFinal req rest rc writeCount s

/-- `submitBl` up to the final interrupt. -/
def toFinal (req : BlRequest) (s : Fifo) : (ℤ × Fifo) ⊕ Final :=
  match s.beat with
  | (true, s) => .inl (-eagain, s)
  | (false, s) =>
    match s.pendingBlRbInFifo with
    | (none, s) => .inl (-eio, s)
    | (some _, s) => core.cmdsToFinal req req.cmd 0 0 s

/-- The tag of the final interrupt: that of the last command, when it goes into its entry. -/
def finalTag (blTag : ℕ) : ℕ :=
  if core.arbitration = .priorityBased then (blTag + 2 ^ 8 - 1) % 2 ^ 8 else blTag

end Core

def BlCmd.lacksCpuBuf (cmd : BlCmd) : Prop := cmd.cpuBuf.1 ≠ 0 ∨ cmd.cpuBuf.2 = 0
deriving Decidable

namespace BlFifo

def add (s : BlFifo) (entry : Entry) : BlFifo :=
  { s with
    blRequestList := s.blRequestList ++ [entry]
    irqs := s.irqs ++ [⟨entry.number, entry.blTag⟩] }

/-- `cam_hw_cdm_submit_gen_irq` adds the entry, and takes it out again where something fails. -/
def genIrq (req : BlRequest) (entry : Entry) (s : BlFifo) : ℤ × BlFifo :=
  match core.submitGenIrq req s.fifo with
  | (rc, fifo) =>
    if rc = 0 then (rc, { s.add entry with fifo := fifo.nextTag })
    else (rc, { s with fifo := fifo })

/-- `cam_hw_cdm_arb_submit_bl` does so, too, but where the buffer is not found. -/
def arbGenIrq (cmd : BlCmd) (hwVaddr : ℕ) (entry : Entry) (s : BlFifo) : ℤ × BlFifo :=
  match core.arbSubmitBl cmd hwVaddr s.fifo with
  | (rc, fifo) =>
    if s.fifo.beat.1 = false ∧ cmd.lacksCpuBuf then
      (rc, { s with fifo := fifo, blRequestList := s.blRequestList ++ [entry] })
    else if rc = 0 then (rc, { s.add entry with fifo := fifo })
    else (rc, { s with fifo := fifo })

def final (req : BlRequest) (f : Final) (entry : Entry) (s : BlFifo) : ℤ × BlFifo :=
  match core.topUp 1 f.writeCount f.fifo with
  | (none, fifo) => (-eio, { s with fifo := fifo })
  | (some _, fifo) =>
    if core.arbitration = .priorityBased then
      arbGenIrq core f.cmd f.hwVaddr entry { s with fifo := fifo }
    else genIrq core req entry { s with fifo := fifo }

/-- `cam_hw_cdm_submit_bl` with its entry in `bl_request_list`. -/
def submitBl (clientHdl cookie : ℕ) (sub : Submission) (s : BlFifo) : ℤ × BlFifo :=
  match core.toFinal sub.req (s.fifo.submitted sub.script) with
  | .inl (rc, fifo) => (rc, { s with fifo := fifo })
  | .inr f => final core sub.req f ⟨s.submissions, clientHdl, cookie, core.finalTag f.fifo.blTag⟩ s

def upToTag (irqData : ℕ) : List Entry → List Entry × List Entry
  | [] => ([], [])
  | entry :: entries =>
    if entry.blTag = irqData then ([entry], entries)
    else (entry :: (upToTag irqData entries).1, (upToTag irqData entries).2)

/-- `cam_hw_cdm_work` for an inline interrupt. -/
def work (irqData : ℕ) (s : BlFifo) : BlFifo × List Report :=
  if irqData = noTag then (s, [])
  else if s.blRequestList = [] then (s, [])
  else if s.lastBlTagDone = irqData then (s, [])
  else
    ({ s with lastBlTagDone := irqData, blRequestList := (upToTag irqData s.blRequestList).2 },
      (upToTag irqData s.blRequestList).1.map (.reported · .blSuccess))

/-- `cam_hw_cdm_reset_cleanup`, `flush` being the client that flushes where the hardware does. -/
def resetCleanup (flush : Option ℕ) (s : BlFifo) : BlFifo × List Report :=
  ({ s with fifo.blTag := 0, lastBlTagDone := noTag, blRequestList := [] },
    s.blRequestList.map fun entry => .reported entry
      (match flush with
      | none => .hwResetDone
      | some handle => if entry.clientHdl = handle then .hwFlush else .hwResubmit))

end BlFifo

/-- A work item comes for the interrupt behind those that are `skipped`. -/
inductive CdmEvent
  | submit (clientHdl cookie : ℕ) (sub : Submission)
  | work (skipped : ℕ)
  | reset (flush : Option ℕ)

def completions : Machine BlFifo CdmEvent Report where
  step s
    | .submit clientHdl cookie sub =>
      match s.submitBl core clientHdl cookie sub with
      | (rc, t) =>
        ({ t with submissions := s.submissions + 1 },
          if sub.req.flag = 1 then [.submitted s.submissions rc] else [])
    | .work skipped =>
      match s.irqs.drop skipped with
      | [] => ({ s with irqs := [] }, [])
      | irq :: irqs => BlFifo.work irq.irqData { s with irqs := irqs }
    | .reset flush => s.resetCleanup flush

variable {core}

end KernelModules.Cdm
