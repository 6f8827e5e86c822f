import KernelModules.Machine
import Mathlib.Tactic

/-!
# Submission to the FIFO of a CDM

`cam_hw_cdm_submit_bl` writes the commands of a request to a hardware FIFO of `bl_depth` entries.
It spends a local budget, `write_count`, and looks at the occupancy of the FIFO only when that
budget is exactly zero. The `fifo_lock` is held throughout, so the hardware alone runs meanwhile.
-/

namespace KernelModules.Cdm

def eio : ℤ := 5
def eagain : ℤ := 11
def enomem : ℤ := 12
def einval : ℤ := 22

inductive Arbitration
  | none
  | roundRobin
  | priorityBased
  | max
  deriving DecidableEq

inductive BlCmdAddrType
  | memHandle
  | hwIova
  | kernelIova

structure Core where
  arbitration : Arbitration
  blDepth : ℕ
  blDepth_lt : blDepth < 2 ^ 32
  genIrqVaddr : ℕ
  requiredSizeGenirq : ℕ

theorem four_lt : 4 < 2 ^ 32 := by decide

/-- A command, with what the memory manager answers for its handle: the address and the length
of the buffer in `cam_mem_get_io_buf`, the result and the address in `cam_mem_get_cpu_buf`. -/
structure BlCmd where
  blAddr : ℕ
  offset : ℕ
  len : ℕ
  enableDebugGenIrq : Bool
  arbitrate : Bool
  ioBuf : Option (ℕ × ℕ)
  cpuBuf : ℤ × ℕ
  deriving DecidableEq

structure BlRequest where
  flag : ℤ
  type : BlCmdAddrType
  genIrqArb : Bool
  cmd : List BlCmd

/-- One access to the hardware, one look at its status or one wait: how many entries the hardware
has removed by then, and whether it fails. -/
structure Beat where
  removed : ℕ
  fails : Bool

/-- An entry of the FIFO: what its base and its length register were written with. -/
structure Bl where
  base : ℕ
  len : ℕ
  deriving DecidableEq

/-- The FIFO and what is to come from the hardware. `commits` are the numbers of free entries
that the commits of a request have found, `faults` counts what has failed meanwhile. -/
structure Fifo where
  entries : List Bl
  staged : Bl
  blTag : ℕ
  script : List Beat
  commits : List ℕ
  faults : ℕ

namespace Fifo

def fault (s : Fifo) (fails : Bool) : Fifo := { s with faults := s.faults + fails.toNat }

def beat (s : Fifo) : Bool × Fifo :=
  match s.script with
  | [] => (false, s)
  | b :: bs =>
    (b.fails, { s with entries := s.entries.drop b.removed, script := bs }.fault b.fails)

/-- `wait_for_completion_timeout` on `bl_complete`. Hardware that does nothing any more lets it
time out. -/
def waitForCompletion (s : Fifo) : Bool × Fifo :=
  match s.script with
  | [] => (true, s.fault true)
  | _ :: _ => s.beat

def enableBlDoneIrq (s : Fifo) : Bool × Fifo :=
  match s.beat with
  | (true, s) => (true, s)
  | (false, s) => s.beat

/-- The wait for an entry to be removed, with the interrupt enabled meanwhile. That it cannot be
disabled again is only reported. -/
def awaitBlDone (s : Fifo) : Bool × Fifo :=
  match s.enableBlDoneIrq with
  | (true, s) => (true, s)
  | (false, s) =>
    match s.waitForCompletion with
    | (timedOut, s) => (timedOut, s.enableBlDoneIrq.2)

def pendingBlRbInFifo (s : Fifo) : Option ℕ × Fifo :=
  match s.beat with
  | (true, s) => (none, s)
  | (false, s) => (some s.entries.length, s)

def blWrite (src len tag : ℕ) (setArb : Bool) (s : Fifo) : Bool × Fifo :=
  match s.beat with
  | (true, s) => (true, s)
  | (false, s) =>
    match { s with staged.base := src % 2 ^ 32 }.beat with
    | (true, s) => (true, s)
    | (false, s) =>
      (false, { s with
        staged.len := (len &&& 0xFFFFF) ||| ((tag &&& 0xFF) <<< 24) |||
          if setArb then 1 <<< 20 else 0 })

end Fifo

variable (core : Core)

namespace Core

def free (s : Fifo) : ℕ := core.blDepth - s.entries.length

def store (s : Fifo) : Fifo :=
  { s with
    entries := if s.entries.length < core.blDepth then s.entries ++ [s.staged] else s.entries
    commits := s.commits ++ [core.free s] }

def commitBlWrite (s : Fifo) : Bool × Fifo :=
  match s.beat with
  | (true, s) => (true, s)
  | (false, s) => (false, core.store s)

/-- The loop of `cam_hw_cdm_wait_for_bl_fifo`, `rc` being what the last turn has left in it. -/
def waitLoop (blCount : ℕ) : ℕ → ℤ → Fifo → ℤ × Fifo
  | 0, rc, s => (rc, s)
  | fuel + 1, rc, s =>
    match s.pendingBlRbInFifo with
    | (none, s) => (-eio, s)
    | (some pendingBl, s) =>
      let available : ℤ := Int.bmod (core.blDepth - pendingBl) (2 ^ 32)
      if available < 0 then (rc, s)
      -- `bl_count` is unsigned, so that the comparison is.
      else if (blCount : ℤ) % 2 ^ 32 < (available - 1) % 2 ^ 32 then (available - 1, s)
      else if available - 1 = 0 then
        match s.awaitBlDone with
        | (true, s) => (-eio, s)
        | (false, s) => waitLoop blCount fuel 1 s
      else (Int.bmod (blCount - (available - 1)) (2 ^ 32), s)

def waitForBlFifo (blCount : ℕ) (s : Fifo) : ℤ × Fifo :=
  core.waitLoop blCount (s.script.length + 1) (-eio) s

/-- The budget is topped up when it is exactly used up, and is not looked at otherwise. -/
def topUp (blCount : ℕ) (writeCount : ℤ) (s : Fifo) : Option ℤ × Fifo :=
  if writeCount = 0 then
    match core.waitForBlFifo blCount s with
    | (writeCount, s) => if writeCount < 0 then (none, s) else (some writeCount, s)
  else (some writeCount, s)

/-- `bl_depth - 1`, of unsigned words. -/
def lastTag : ℕ := if core.blDepth = 0 then 2 ^ 32 - 1 else core.blDepth - 1

def genIrqLen (s : Fifo) : ℕ := core.requiredSizeGenirq * s.blTag

def writeGenIrq (setArb : Bool) (s : Fifo) : Bool × Fifo :=
  s.blWrite (core.genIrqVaddr + 4 * core.genIrqLen s) 
    ((4 * core.requiredSizeGenirq + 2 ^ 32 - 1) % 2 ^ 32) s.blTag setArb

def submitGenIrq (req : BlRequest) (s : Fifo) : ℤ × Fifo :=
  if core.lastTag < s.blTag then (-einval, s)
  else
    match s.beat with
    | (true, s) => (-enomem, s)
    | (false, s) =>
      match core.writeGenIrq req.genIrqArb s with
      | (true, s) => (-eio, s)
      | (false, s) =>
        match core.commitBlWrite s with
        | (true, s) => (-eio, s)
        | (false, s) => (0, s)

def submitDebugGenIrq (s : Fifo) : ℤ × Fifo :=
  match core.writeGenIrq false s with
  | (true, s) => (-eio, s)
  | (false, s) =>
    match core.commitBlWrite s with
    | (true, s) => (-eio, s)
    | (false, s) => (0, s)

def arbSubmitBl (cmd : BlCmd) (hwVaddr : ℕ) (s : Fifo) : ℤ × Fifo :=
  match s.beat with
  | (true, s) => (-enomem, s)
  | (false, s) =>
    if cmd.cpuBuf.1 ≠ 0 ∨ cmd.cpuBuf.2 = 0 then (cmd.cpuBuf.1, s)
    else
      match s.blWrite (hwVaddr + cmd.offset) (cmd.len + 7) ((s.blTag + 2 ^ 32 - 1) % 2 ^ 32) true with
      | (true, s) => (-eio, s)
      | (false, s) =>
        match core.commitBlWrite s with
        | (true, s) => (-eio, s)
        | (false, s) => (0, s)

end Core

def BlRequest.buffer (req : BlRequest) (cmd : BlCmd) : Option (ℕ × ℕ) :=
  match req.type with
  | .memHandle => cmd.ioBuf
  | .hwIova => if cmd.blAddr = 0 then none else some (cmd.blAddr, (cmd.len + cmd.offset) % 2 ^ 32)
  | .kernelIova => none

/-- The address that a command which passes every check is found at. -/
def BlRequest.hwVaddr (req : BlRequest) (cmd : BlCmd) : Option ℕ :=
  match req.buffer cmd with
  | none => none
  | some (hwVaddr, len) =>
    if hwVaddr ≠ 0 ∧ len ≠ 0 ∧ cmd.offset ≤ len then
      if len - cmd.offset < cmd.len then none else some hwVaddr
    else none

def Core.genIrqInSameBl (req : BlRequest) (rest : List BlCmd) : Bool :=
  core.arbitration = .priorityBased ∧ req.flag = 1 ∧ rest = []

def Fifo.nextTag (s : Fifo) : Fifo := { s with blTag := (s.blTag + 1) % 2 ^ 8 }

namespace Core

/-- `bl_tag` starts over behind the last entry but one. -/
def resetTag (s : Fifo) : Fifo :=
  if core.lastTag ≤ s.blTag then { s with blTag := 0 } else s

/-- The write and the commit of a command, each of which is charged to the budget. -/
def writeCmd (req : BlRequest) (cmd : BlCmd) (rest : List BlCmd) (hwVaddr : ℕ) (writeCount : ℤ)
    (s : Fifo) : Option ℤ × Fifo :=
  if core.genIrqInSameBl req rest then (some writeCount, s.nextTag)
  else
    match s.blWrite (hwVaddr + cmd.offset) ((cmd.len + 2 ^ 32 - 1) % 2 ^ 32) s.blTag
        cmd.arbitrate with
    | (true, s) => (none, s)
    | (false, s) =>
      match core.commitBlWrite s with
      | (true, s) => (none, s)
      | (false, s) => (some (writeCount - 1 - 1), s.nextTag)

/-- The debug interrupt of a command. What it returns does not end the loop. -/
def debugGenIrq (cmd : BlCmd) (writeCount : ℤ) (s : Fifo) : Option (ℤ × ℤ) × Fifo :=
  if cmd.enableDebugGenIrq then
    match core.topUp 1 writeCount s with
    | (none, s) => (none, s)
    | (some writeCount, s) =>
      match core.submitDebugGenIrq s with
      | (rc, s) =>
        if rc = 0 then (some (rc, writeCount - 1), core.resetTag s.nextTag)
        else (some (rc, writeCount), core.resetTag s)
  else (some (0, writeCount), s)

def finalGenIrq (req : BlRequest) (cmd : BlCmd) (hwVaddr : ℕ) (writeCount : ℤ) (s : Fifo) :
    ℤ × Fifo :=
  match core.topUp 1 writeCount s with
  | (none, s) => (-eio, s)
  | (some _, s) =>
    if core.arbitration = .priorityBased then core.arbSubmitBl cmd hwVaddr s
    else
      match core.submitGenIrq req s with
      | (rc, s) => (rc, if rc = 0 then s.nextTag else s)

/-- The loop over the commands. -/
def submitCmds (req : BlRequest) : List BlCmd → ℤ → ℤ → Fifo → ℤ × Fifo
  | [], rc, _, s => (rc, s)
  | cmd :: rest, _, writeCount, s =>
    if cmd.len = 0 ∧ 0x100000 < cmd.len then (-einval, s)
    else
      match s.beat with
      | (true, s) => (-eagain, s)
      | (false, s) =>
        match core.topUp (rest.length + 1) writeCount s with
        | (none, s) => (-eio, s)
        | (some writeCount, s) =>
          match req.hwVaddr cmd with
          | none => (-einval, s)
          | some hwVaddr =>
            match core.writeCmd req cmd rest hwVaddr writeCount (core.resetTag s) with
            | (none, s) => (-eio, s)
            | (some writeCount, s) =>
              match core.debugGenIrq cmd writeCount s with
              | (none, s) => (-eio, s)
              | (some (rc, writeCount), s) =>
                if rc = 0 ∧ req.flag = 1 ∧ rest = [] then
                  core.finalGenIrq req cmd hwVaddr writeCount s
                else submitCmds req rest rc writeCount s

/-- `cam_hw_cdm_submit_bl`. -/
def submitBl (req : BlRequest) (s : Fifo) : ℤ × Fifo :=
  match s.beat with
  | (true, s) => (-eagain, s)
  | (false, s) =>
    match s.pendingBlRbInFifo with
    | (none, s) => (-eio, s)
    | (some _, s) => core.submitCmds req req.cmd 0 0 s

end Core

/-- A request, with what the hardware does meanwhile. -/
structure Submission where
  req : BlRequest
  script : List Beat

/-- Nothing is wrong with the request itself: its commands pass their checks, and the memory
manager does not answer -EIO for a buffer. -/
def BlRequest.checked (req : BlRequest) : Prop :=
  ∀ cmd ∈ req.cmd, (req.hwVaddr cmd).isSome ∧ cmd.cpuBuf.1 ≠ -eio
deriving Decidable

/-- What is seen of a request: whether it is `checked`, what it returned, how many entries each
commit found free and how much has failed meanwhile. -/
structure Outcome where
  checked : Bool
  rc : ℤ
  commits : List ℕ
  faults : ℕ

/-- The request has failed although nothing is wrong with it, every access has succeeded and no
wait has timed out: all that is left is that the FIFO was full. -/
def Outcome.refused (o : Outcome) : Prop := o.checked ∧ o.rc = -eio ∧ o.faults = 0
deriving Decidable

def Fifo.start : Fifo := ⟨[], ⟨0, 0⟩, 0, [], [], 0⟩

def Fifo.submitted (s : Fifo) (script : List Beat) : Fifo :=
  { s with script := script, commits := [], faults := 0 }

def cdm : Machine Fifo Submission Outcome where
  step s sub :=
    match core.submitBl sub.req (s.submitted sub.script) with
    | (rc, t) => (t, [⟨sub.req.checked, rc, t.commits, t.faults⟩])

section Drains

variable {s t : Fifo} {r : Bool × Fifo}

/-- `resetTag`, as far as the tag goes. -/
def Core.restart (core : Core) (tag : ℕ) : ℕ := if core.lastTag ≤ tag then 0 else tag

theorem resetTag_eq (core : Core) (s : Fifo) :
    core.resetTag s = { s with blTag := core.restart s.blTag } := by
  unfold Core.resetTag Core.restart
  split
  · rfl
  · rfl

/-- The hardware goes on, and nothing is committed. -/
structure Drains (s t : Fifo) : Prop where
  entries : t.entries.length ≤ s.entries.length
  commits : t.commits = s.commits
  script : t.script <:+ s.script
  faults : s.faults ≤ t.faults
  blTag : t.blTag = s.blTag

/-- What fails meanwhile has been counted. -/
structure Quiet (s : Fifo) (r : Bool × Fifo) : Prop extends Drains s r.2 where
  failed : r.1 = true → s.faults < r.2.faults

namespace Drains

theorem refl (s : Fifo) : Drains s s := ⟨le_rfl, rfl, List.suffix_rfl, le_rfl, rfl⟩

theorem trans {u : Fifo} (h : Drains s t) (h' : Drains t u) : Drains s u where
  entries := h'.entries.trans h.entries
  commits := h'.commits.trans h.commits
  script := h'.script.trans h.script
  faults := h.faults.trans h'.faults
  blTag := h'.blTag.trans h.blTag

theorem free_le (core : Core) (h : Drains s t) : core.free s ≤ core.free t := by
  have he := h.entries
  unfold Core.free
  omega

end Drains

theorem Quiet.after (h : Quiet t r) (hd : Drains s t) : Quiet s r :=
  ⟨hd.trans h.toDrains, fun hr => lt_of_le_of_lt hd.faults (h.failed hr)⟩

theorem quiet_bind {f : Fifo → Bool × Fifo} (hf : ∀ t, Quiet t (f t)) :
    ∀ r, Quiet s r → Quiet s (match r with
      | (true, t) => (true, t)
      | (false, t) => f t)
  | (false, t), h => (hf t).after h.toDrains
  | (true, _), h => h

theorem fault_drains (s : Fifo) (fails : Bool) : Drains s (s.fault fails) :=
  ⟨le_rfl, rfl, List.suffix_rfl, Nat.le_add_right .., rfl⟩

theorem beat_quiet (s : Fifo) : Quiet s s.beat := by
  unfold Fifo.beat
  cases h : s.script with
  | nil => exact ⟨.refl s, fun hr => by cases hr⟩
  | cons b bs =>
    have hremoved : Drains s { s with entries := s.entries.drop b.removed, script := bs } := by
      refine ⟨?_, rfl, ?_, le_rfl, rfl⟩
      · exact (List.length_drop ..).trans_le (Nat.sub_le ..)
      · rw [h]
        exact List.suffix_cons b bs
    refine ⟨hremoved.trans (fault_drains _ b.fails), fun hr => ?_⟩
    change s.faults < s.faults + b.fails.toNat
    rw [show b.fails = true from hr]
    exact Nat.lt_succ_self _

theorem beat_fails (h : s.beat.1 = true) : ∃ b ∈ s.script, b.fails = true := by
  unfold Fifo.beat at h
  cases hs : s.script with
  | nil =>
    rw [hs] at h
    cases h
  | cons b bs =>
    rw [hs] at h
    exact ⟨b, List.mem_cons_self, h⟩

theorem waitForCompletion_quiet (s : Fifo) : Quiet s s.waitForCompletion := by
  unfold Fifo.waitForCompletion
  split
  · exact ⟨fault_drains s true, fun _ => Nat.lt_succ_self _⟩
  · exact beat_quiet s

theorem enableBlDoneIrq_quiet (s : Fifo) : Quiet s s.enableBlDoneIrq :=
  quiet_bind beat_quiet _ (beat_quiet s)

theorem waitForCompletion_script (h : s.waitForCompletion.1 = false) :
    s.waitForCompletion.2.script.length < s.script.length := by
  unfold Fifo.waitForCompletion at h ⊢
  cases hs : s.script with
  | nil =>
    rw [hs] at h
    cases h
  | cons b bs =>
    have hscript : s.beat.2.script = bs := by
      unfold Fifo.beat
      rw [hs]
      rfl
    change s.beat.2.script.length < (b :: bs).length
    rw [hscript, List.length_cons]
    omega

theorem awaitBlDone_quiet (s : Fifo) :
    Quiet s s.awaitBlDone ∧
      (s.awaitBlDone.1 = false → s.awaitBlDone.2.script.length < s.script.length) := by
  have henable := enableBlDoneIrq_quiet s
  unfold Fifo.awaitBlDone
  generalize s.enableBlDoneIrq = r at henable
  rcases r with ⟨_ | _, u⟩
  · have hwait := waitForCompletion_quiet u
    have hless := waitForCompletion_script (s := u)
    change Quiet s (u.waitForCompletion.1, _) ∧ (u.waitForCompletion.1 = false → _)
    have hdisable := (enableBlDoneIrq_quiet u.waitForCompletion.2).toDrains
    refine ⟨⟨henable.trans (hwait.trans hdisable), fun hr => ?_⟩, fun h => ?_⟩
    · calc s.faults ≤ u.faults := henable.faults
        _ < u.waitForCompletion.2.faults := hwait.failed hr
        _ ≤ u.waitForCompletion.2.enableBlDoneIrq.2.faults := hdisable.faults
    · calc u.waitForCompletion.2.enableBlDoneIrq.2.script.length
          ≤ u.waitForCompletion.2.script.length := hdisable.script.length_le
        _ < u.script.length := hless h
        _ ≤ s.script.length := henable.script.length_le
  · exact ⟨henable, fun h => by cases h⟩

theorem pendingBlRbInFifo_spec (s : Fifo) :
    Drains s s.pendingBlRbInFifo.2 ∧
      (s.pendingBlRbInFifo.1 = none → s.faults < s.pendingBlRbInFifo.2.faults) ∧
      ∀ n ∈ s.pendingBlRbInFifo.1, n = s.pendingBlRbInFifo.2.entries.length := by
  have hb := beat_quiet s
  unfold Fifo.pendingBlRbInFifo
  generalize s.beat = r at hb
  rcases r with ⟨_ | _, t⟩
  · refine ⟨hb.toDrains, ?_, fun n hn => (Option.some.inj hn).symm⟩
    intro hnone
    cases hnone
  · refine ⟨hb.toDrains, fun _ => hb.failed rfl, ?_⟩
    intro n hn
    cases hn

theorem blWrite_quiet (src len tag : ℕ) (setArb : Bool) (s : Fifo) :
    Quiet s (s.blWrite src len tag setArb) := by
  refine quiet_bind (fun t => ?_) _ (beat_quiet s)
  have hbase : Drains t { t with staged.base := src % 2 ^ 32 } :=
    ⟨le_rfl, rfl, List.suffix_rfl, le_rfl, rfl⟩
  have hlen : ∀ u : Fifo, ∀ len, Quiet u (false, { u with staged.len := len }) := fun u _ =>
    ⟨⟨le_rfl, rfl, List.suffix_rfl, le_rfl, rfl⟩, fun hr => by cases hr⟩
  exact quiet_bind (fun u => hlen u _) _ ((beat_quiet _).after hbase)

theorem blWrite_fails {src len tag : ℕ} {setArb : Bool}
    (h : (s.blWrite src len tag setArb).1 = true) : ∃ b ∈ s.script, b.fails = true := by
  have hfirst := beat_fails (s := s)
  have hscript := (beat_quiet s).script
  unfold Fifo.blWrite at h
  generalize s.beat = r at h hfirst hscript
  rcases r with ⟨_ | _, t⟩
  · have hsecond := beat_fails (s := { t with staged.base := src % 2 ^ 32 })
    dsimp only at h hsecond
    generalize Fifo.beat { t with staged.base := src % 2 ^ 32 } = r at h hsecond
    rcases r with ⟨_ | _, u⟩
    · cases h
    · obtain ⟨b, hb, hfails⟩ := hsecond rfl
      exact ⟨b, hscript.subset hb, hfails⟩
  · exact hfirst rfl

theorem commitBlWrite_cases (core : Core) (s : Fifo) :
    ∃ t, Drains s t ∧
      (core.commitBlWrite s = (true, t) ∧ s.faults < t.faults ∧ (∃ b ∈ s.script, b.fails = true) ∨
        core.commitBlWrite s = (false, core.store t)) := by
  have hb := beat_quiet s
  have hfails := beat_fails (s := s)
  refine ⟨s.beat.2, hb.toDrains, ?_⟩
  unfold Core.commitBlWrite
  generalize s.beat = r at hb hfails
  rcases r with ⟨_ | _, t⟩
  · exact .inr rfl
  · exact .inl ⟨rfl, hb.failed rfl, hfails rfl⟩

theorem waitLoop_drains (core : Core) (blCount fuel : ℕ) (rc : ℤ) (s : Fifo) :
    Drains s (core.waitLoop blCount fuel rc s).2 := by
  induction fuel generalizing rc s with
  | zero => exact .refl s
  | succ fuel ih =>
    have hread := (pendingBlRbInFifo_spec s).1
    unfold Core.waitLoop
    generalize s.pendingBlRbInFifo = r at hread
    rcases r with ⟨_ | pendingBl, t⟩
    · exact hread
    dsimp only at hread ⊢
    split
    · exact hread
    · split
      · exact hread
      · split
        · have hwait := hread.trans (awaitBlDone_quiet t).1.toDrains
          generalize t.awaitBlDone = r at hwait
          rcases r with ⟨_ | _, u⟩
          · exact hwait.trans (ih 1 u)
          · exact hwait
        · exact hread

theorem topUp_drains (core : Core) (blCount : ℕ) (writeCount : ℤ) (s : Fifo) :
    Drains s (core.topUp blCount writeCount s).2 := by
  have hloop := waitLoop_drains core blCount (s.script.length + 1) (-eio) s
  unfold Core.topUp
  split
  · unfold Core.waitForBlFifo
    generalize core.waitLoop blCount (s.script.length + 1) (-eio) s = r at hloop
    dsimp only
    split
    · exact hloop
    · exact hloop
  · exact .refl s

end Drains

end KernelModules.Cdm
