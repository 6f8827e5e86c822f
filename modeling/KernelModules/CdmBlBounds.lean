import KernelModules.CdmReports
import Mathlib.Data.Nat.Bitwise

/-!
# What a request hands to the hardware

The hardware fetches the bytes that the base and the length of an entry span, and the CPU writes
the interrupt commands into memory itself. `submitBl` is followed once more, with what it programs
and writes on the way.
-/

namespace KernelModules.Cdm

/-- Whose memory is meant: that of a command's handle, or the interrupt buffer of the FIFO. -/
inductive Owner
  | handle (cmd : BlCmd)
  | genIrq
  deriving DecidableEq

/-- The registers have been written for so many bytes, or the CPU writes a word, at a byte of the
buffer. -/
inductive Access
  | bl (owner : Owner) (bytes : ℕ) (staged : Bl)
  | word (owner : Owner) (byte : ℕ)
  deriving DecidableEq

/-- The FIFO and what has been programmed and written so far. -/
structure Traced where
  fifo : Fifo
  accesses : List Access

namespace Traced

variable (core : Core)

def run {α : Type} (f : Fifo → α × Fifo) (s : Traced) : α × Traced :=
  match f s.fifo with
  | (a, fifo) => (a, { s with fifo := fifo })

/-- `cdm_write_genirq`, of two words. -/
def cdmWriteGenirq (owner : Owner) (pCmdBuffer : ℕ) (s : Traced) : Traced :=
  { s with accesses := s.accesses ++ [.word owner pCmdBuffer, .word owner (pCmdBuffer + 4)] }

def blWrite (owner : Owner) (bytes src len tag : ℕ) (setArb : Bool) (s : Traced) : Bool × Traced :=
  match s.fifo.blWrite src len tag setArb with
  | (true, fifo) => (true, { s with fifo := fifo })
  | (false, fifo) => (false, ⟨fifo, s.accesses ++ [.bl owner bytes fifo.staged]⟩)

def writeGenIrq (setArb : Bool) (s : Traced) : Bool × Traced :=
  (s.cdmWriteGenirq .genIrq (4 * core.genIrqLen s.fifo)).blWrite .genIrq
    (4 * core.requiredSizeGenirq) (core.genIrqVaddr + 4 * core.genIrqLen s.fifo)
    ((4 * core.requiredSizeGenirq + 2 ^ 32 - 1) % 2 ^ 32) s.fifo.blTag setArb

def submitGenIrq (req : BlRequest) (s : Traced) : ℤ × Traced :=
  if core.lastTag < s.fifo.blTag then (-einval, s)
  else
    match s.run Fifo.beat with
    | (true, s) => (-enomem, s)
    | (false, s) =>
      match s.writeGenIrq core req.genIrqArb with
      | (true, s) => (-eio, s)
      | (false, s) =>
        match s.run core.commitBlWrite with
        | (true, s) => (-eio, s)
        | (false, s) => (0, s)

def submitDebugGenIrq (s : Traced) : ℤ × Traced :=
  match s.writeGenIrq core false with
  | (true, s) => (-eio, s)
  | (false, s) =>
    match s.run core.commitBlWrite with
    | (true, s) => (-eio, s)
    | (false, s) => (0, s)

/-- The interrupt command goes behind the command, both counted in whole words. -/
def arbSubmitBl (cmd : BlCmd) (hwVaddr : ℕ) (s : Traced) : ℤ × Traced :=
  match s.run Fifo.beat with
  | (true, s) => (-enomem, s)
  | (false, s) =>
    if cmd.cpuBuf.1 ≠ 0 ∨ cmd.cpuBuf.2 = 0 then (cmd.cpuBuf.1, s)
    else
      match (s.cdmWriteGenirq (.handle cmd) (4 * (cmd.offset / 4 + cmd.len / 4))).blWrite (.handle cmd)
          (cmd.len + 8) (hwVaddr + cmd.offset) (cmd.len + 7)
          ((s.fifo.blTag + 2 ^ 32 - 1) % 2 ^ 32) true with
      | (true, s) => (-eio, s)
      | (false, s) =>
        match s.run core.commitBlWrite with
        | (true, s) => (-eio, s)
        | (false, s) => (0, s)

def writeCmd (req : BlRequest) (cmd : BlCmd) (rest : List BlCmd) (hwVaddr : ℕ) (writeCount : ℤ)
    (s : Traced) : Option ℤ × Traced :=
  if core.genIrqInSameBl req rest then (some writeCount, { s with fifo := s.fifo.nextTag })
  else
    match s.blWrite (.handle cmd) cmd.len (hwVaddr + cmd.offset) ((cmd.len + 2 ^ 32 - 1) % 2 ^ 32)
        s.fifo.blTag cmd.arbitrate with
    | (true, s) => (none, s)
    | (false, s) =>
      match s.run core.commitBlWrite with
      | (true, s) => (none, s)
      | (false, s) => (some (writeCount - 1 - 1), { s with fifo := s.fifo.nextTag })

def debugGenIrq (cmd : BlCmd) (writeCount : ℤ) (s : Traced) : Option (ℤ × ℤ) × Traced :=
  if cmd.enableDebugGenIrq then
    match s.run (core.topUp 1 writeCount) with
    | (none, s) => (none, s)
    | (some writeCount, s) =>
      match s.submitDebugGenIrq core with
      | (rc, s) =>
        if rc = 0 then
          (some (rc, writeCount - 1), { s with fifo := core.resetTag s.fifo.nextTag })
        else (some (rc, writeCount), { s with fifo := core.resetTag s.fifo })
  else (some (0, writeCount), s)

def finalGenIrq (req : BlRequest) (cmd : BlCmd) (hwVaddr : ℕ) (writeCount : ℤ) (s : Traced) :
    ℤ × Traced :=
  match s.run (core.topUp 1 writeCount) with
  | (none, s) => (-eio, s)
  | (some _, s) =>
    if core.arbitration = .priorityBased then s.arbSubmitBl core cmd hwVaddr
    else
      match s.submitGenIrq core req with
      | (rc, s) => (rc, if rc = 0 then { s with fifo := s.fifo.nextTag } else s)

def submitCmds (req : BlRequest) : List BlCmd → ℤ → ℤ → Traced → ℤ × Traced
  | [], rc, _, s => (rc, s)
  | cmd :: rest, _, writeCount, s =>
    if cmd.len = 0 ∧ 0x100000 < cmd.len then (-einval, s)
    else
      match s.run Fifo.beat with
      | (true, s) => (-eagain, s)
      | (false, s) =>
        match s.run (core.topUp (rest.length + 1) writeCount) with
        | (none, s) => (-eio, s)
        | (some writeCount, s) =>
          match req.hwVaddr cmd with
          | none => (-einval, s)
          | some hwVaddr =>
            match writeCmd core req cmd rest hwVaddr writeCount
                { s with fifo := core.resetTag s.fifo } with
            | (none, s) => (-eio, s)
            | (some writeCount, s) =>
              match s.debugGenIrq core cmd writeCount with
              | (none, s) => (-eio, s)
              | (some (rc, writeCount), s) =>
                if rc = 0 ∧ req.flag = 1 ∧ rest = [] then
                  s.finalGenIrq core req cmd hwVaddr writeCount
                else submitCmds req rest rc writeCount s

def submitBl (req : BlRequest) (s : Traced) : ℤ × Traced :=
  match s.run Fifo.beat with
  | (true, s) => (-eagain, s)
  | (false, s) =>
    match s.run Fifo.pendingBlRbInFifo with
    | (none, s) => (-eio, s)
    | (some _, s) => submitCmds core req req.cmd 0 0 s

end Traced

namespace Traced

variable {core : Core}

def erase {α : Type} (r : α × Traced) : α × Fifo := (r.1, r.2.fifo)

@[simp] theorem erase_run {α : Type} (f : Fifo → α × Fifo) (s : Traced) :
    erase (s.run f) = f s.fifo := rfl

theorem erase_blWrite (owner : Owner) (bytes src len tag : ℕ) (setArb : Bool) (s : Traced) :
    erase (s.blWrite owner bytes src len tag setArb) = s.fifo.blWrite src len tag setArb := by
  unfold blWrite
  rcases s.fifo.blWrite src len tag setArb with ⟨_ | _, fifo⟩
  · rfl
  · rfl

theorem erase_writeGenIrq (setArb : Bool) (s : Traced) :
    erase (s.writeGenIrq core setArb) = core.writeGenIrq setArb s.fifo :=
  erase_blWrite ..

theorem erase_commit {α : Type} (r : Bool × Traced) (failed failed' done : α) :
    erase (match r with
      | (true, s) => (failed, s)
      | (false, s) =>
        match s.run core.commitBlWrite with
        | (true, s) => (failed', s)
        | (false, s) => (done, s)) =
      match erase r with
      | (true, s) => (failed, s)
      | (false, s) =>
        match core.commitBlWrite s with
        | (true, s) => (failed', s)
        | (false, s) => (done, s) := by
  rcases r with ⟨_ | _, s⟩
  · dsimp only [erase]
    unfold run
    rcases core.commitBlWrite s.fifo with ⟨_ | _, fifo⟩
    · rfl
    · rfl
  · rfl

theorem erase_submitGenIrq (req : BlRequest) (s : Traced) :
    erase (s.submitGenIrq core req) = core.submitGenIrq req s.fifo := by
  unfold submitGenIrq Core.submitGenIrq
  split
  · rfl
  unfold run
  rcases s.fifo.beat with ⟨_ | _, fifo⟩
  · dsimp only
    rw [← erase_writeGenIrq req.genIrqArb { s with fifo := fifo }]
    exact erase_commit ..
  · rfl

theorem erase_submitDebugGenIrq (s : Traced) :
    erase (s.submitDebugGenIrq core) = core.submitDebugGenIrq s.fifo := by
  unfold submitDebugGenIrq Core.submitDebugGenIrq
  rw [← erase_writeGenIrq false s]
  exact erase_commit ..

theorem erase_arbSubmitBl (cmd : BlCmd) (hwVaddr : ℕ) (s : Traced) :
    erase (s.arbSubmitBl core cmd hwVaddr) = core.arbSubmitBl cmd hwVaddr s.fifo := by
  unfold arbSubmitBl Core.arbSubmitBl run
  rcases s.fifo.beat with ⟨_ | _, fifo⟩
  · dsimp only
    split
    · rfl
    · have hwrite := erase_blWrite (.handle cmd) (cmd.len + 8) (hwVaddr + cmd.offset) (cmd.len + 7)
        ((fifo.blTag + 2 ^ 32 - 1) % 2 ^ 32) true
        (cdmWriteGenirq (.handle cmd) (4 * (cmd.offset / 4 + cmd.len / 4)) { s with fifo := fifo })
      change _ = fifo.blWrite .. at hwrite
      rw [← hwrite]
      exact erase_commit ..
  · rfl

theorem erase_writeCmd (req : BlRequest) (cmd : BlCmd) (rest : List BlCmd) (hwVaddr : ℕ)
    (writeCount : ℤ) (s : Traced) :
    erase (s.writeCmd core req cmd rest hwVaddr writeCount) =
      core.writeCmd req cmd rest hwVaddr writeCount s.fifo := by
  unfold writeCmd Core.writeCmd
  split
  · rfl
  rw [← erase_blWrite (.handle cmd) cmd.len]
  generalize s.blWrite (.handle cmd) cmd.len (hwVaddr + cmd.offset) ((cmd.len + 2 ^ 32 - 1) % 2 ^ 32)
    s.fifo.blTag cmd.arbitrate = r
  rcases r with ⟨_ | _, s⟩
  · dsimp only [erase]
    unfold run
    rcases core.commitBlWrite s.fifo with ⟨_ | _, fifo⟩
    · rfl
    · rfl
  · rfl

theorem erase_debugGenIrq (cmd : BlCmd) (writeCount : ℤ) (s : Traced) :
    erase (s.debugGenIrq core cmd writeCount) = core.debugGenIrq cmd writeCount s.fifo := by
  unfold debugGenIrq Core.debugGenIrq
  split
  · unfold run
    rcases core.topUp 1 writeCount s.fifo with ⟨_ | writeCount, fifo⟩
    · rfl
    dsimp only
    have hdebug : erase (submitDebugGenIrq core { s with fifo := fifo }) =
        core.submitDebugGenIrq fifo := erase_submitDebugGenIrq _
    rw [← hdebug]
    rcases submitDebugGenIrq core { s with fifo := fifo } with ⟨rc, s⟩
    change erase (if rc = 0 then _ else _) = if rc = 0 then _ else _
    split
    · rfl
    · rfl
  · rfl

theorem erase_finalGenIrq (req : BlRequest) (cmd : BlCmd) (hwVaddr : ℕ) (writeCount : ℤ)
    (s : Traced) :
    erase (s.finalGenIrq core req cmd hwVaddr writeCount) =
      core.finalGenIrq req cmd hwVaddr writeCount s.fifo := by
  unfold finalGenIrq Core.finalGenIrq run
  rcases core.topUp 1 writeCount s.fifo with ⟨_ | _, fifo⟩
  · rfl
  dsimp only
  split
  · exact erase_arbSubmitBl ..
  · have hfinal : erase (submitGenIrq core req { s with fifo := fifo }) =
        core.submitGenIrq req fifo := erase_submitGenIrq req _
    rw [← hfinal]
    rcases submitGenIrq core req { s with fifo := fifo } with ⟨rc, s⟩
    change erase (rc, if rc = 0 then _ else _) = (rc, if rc = 0 then _ else _)
    split
    · rfl
    · rfl

theorem erase_submitCmds (req : BlRequest) (cmds : List BlCmd) (rc writeCount : ℤ) (s : Traced) :
    erase (submitCmds core req cmds rc writeCount s) =
      core.submitCmds req cmds rc writeCount s.fifo := by
  induction cmds generalizing rc writeCount s with
  | nil => rfl
  | cons cmd rest ih =>
    unfold submitCmds Core.submitCmds
    split
    · rfl
    unfold run
    rcases s.fifo.beat with ⟨_ | _, fifo⟩
    on_goal 2 => rfl
    dsimp only
    rcases core.topUp (rest.length + 1) writeCount fifo with ⟨_ | writeCount, fifo⟩
    · rfl
    cases req.hwVaddr cmd with
    | none => rfl
    | some hwVaddr =>
      dsimp only
      rw [← erase_writeCmd req cmd rest hwVaddr writeCount
        { s with fifo := core.resetTag fifo }]
      generalize writeCmd core req cmd rest hwVaddr writeCount
        { s with fifo := core.resetTag fifo } = r
      rcases r with ⟨_ | writeCount, s⟩
      · rfl
      dsimp only [erase]
      rw [← erase_debugGenIrq cmd writeCount s]
      generalize s.debugGenIrq core cmd writeCount = r
      rcases r with ⟨_ | ⟨rc, writeCount⟩, s⟩
      · rfl
      dsimp only [erase]
      split
      · exact erase_finalGenIrq ..
      · exact ih rc writeCount s

theorem erase_submitBl (req : BlRequest) (s : Traced) :
    erase (s.submitBl core req) = core.submitBl req s.fifo := by
  unfold submitBl Core.submitBl run
  rcases s.fifo.beat with ⟨_ | _, fifo⟩
  on_goal 2 => rfl
  dsimp only
  rcases fifo.pendingBlRbInFifo with ⟨_ | _, fifo⟩
  · rfl
  · exact erase_submitCmds req req.cmd 0 0 { s with fifo := fifo }

end Traced

def Bl.size (b : Bl) : ℕ := b.len % 2 ^ 20 + 1

section Bounds

variable (core : Core)

/-- What is there of a FIFO that a client is given: it has entries, an interrupt command has two
words, and the interrupt buffer has room for one command an entry below the end of the address
space. -/
structure Core.Served : Prop where
  blDepth_pos : 0 < core.blDepth
  requiredSizeGenirq_eq : core.requiredSizeGenirq = 2
  genIrq_le : core.genIrqVaddr + 8 * core.blDepth ≤ 2 ^ 32

def Owner.buffer : Owner → Option (ℕ × ℕ)
  | .handle cmd => cmd.ioBuf
  | .genIrq => some (core.genIrqVaddr, 8 * core.blDepth)

/-- The entry stands for as many bytes as it should, all of them mapped; the word is mapped. -/
def Access.Confined : Access → Prop
  | .bl owner bytes staged =>
    staged.size = bytes ∧ ∃ buf ∈ owner.buffer core,
      buf.1 ≤ staged.base ∧ staged.base + staged.size ≤ buf.1 + buf.2
  | .word owner byte => ∃ buf ∈ owner.buffer core, byte + 4 ≤ buf.2

def Traced.Confined (s : Traced) : Prop := ∀ a ∈ s.accesses, a.Confined core

def BlCmd.FitsAlone (cmd : BlCmd) (buf : ℕ × ℕ) : Prop :=
  0 < cmd.len ∧ cmd.len ≤ 2 ^ 20 ∧ buf.1 + cmd.offset < 2 ^ 32

def BlCmd.FitsWithIrq (cmd : BlCmd) (buf : ℕ × ℕ) : Prop :=
  cmd.lacksCpuBuf ∨
    cmd.len + 8 ≤ 2 ^ 20 ∧ cmd.offset + cmd.len + 8 ≤ buf.2 ∧ buf.1 + cmd.offset < 2 ^ 32

def BlCmd.Fits (req : BlRequest) (cmd : BlCmd) (rest : List BlCmd) : Prop :=
  (∀ buf ∈ cmd.ioBuf,
    if core.genIrqInSameBl req rest then cmd.FitsWithIrq buf else cmd.FitsAlone buf) ∧
  (cmd.enableDebugGenIrq = true → 1 < core.blDepth)

/-- Each of the commands fits, the last one with the final interrupt where that goes into it. -/
def BlRequest.Fits (req : BlRequest) : List BlCmd → Prop
  | [] => True
  | cmd :: rest => cmd.Fits core req rest ∧ Fits req rest

end Bounds

namespace Traced

variable {core : Core} {s t u : Traced} {done : Prop} {p q : Prop}

/-- What is done between two states stays inside the buffers if the condition is met; when it has
been done, it does so only then. -/
structure Meets (core : Core) (s t : Traced) (done p : Prop) : Prop where
  keeps : s.Confined core → p → t.Confined core
  needs : done → t.Confined core → s.Confined core ∧ p

namespace Meets

theorem refl (s : Traced) (done : Prop) : Meets core s s done True :=
  ⟨fun hs _ => hs, fun _ hs => ⟨hs, trivial⟩⟩

variable {done' : Prop}

theorem trans (h : Meets core s t done p) (h' : Meets core t u done' q)
    (hdone : done' → done) : Meets core s u done' (p ∧ q) := by
  refine ⟨fun hs hpq => h'.keeps (h.keeps hs hpq.1) hpq.2, fun hu hc => ?_⟩
  obtain ⟨ht, hq⟩ := h'.needs hu hc
  obtain ⟨hs, hp⟩ := h.needs (hdone hu) ht
  exact ⟨hs, hp, hq⟩

theorem stop (h : Meets core s t done p) (hpq : q → p) (hdone : ¬ done') : Meets core s t done' q :=
  ⟨fun hs hq => h.keeps hs (hpq hq), fun hd => absurd hd hdone⟩

theorem congr (h : Meets core s t done p) (hdone : done' → done) (hpq : p ↔ q) :
    Meets core s t done' q :=
  ⟨fun hs hq => h.keeps hs (hpq.mpr hq), fun hd ht => by
    obtain ⟨hs, hp⟩ := h.needs (hdone hd) ht
    exact ⟨hs, hpq.mp hp⟩⟩

theorem of_fifo (s : Traced) (fifo : Fifo) (done : Prop) :
    Meets core s { s with fifo := fifo } done True :=
  ⟨fun hs _ => hs, fun _ ht => ⟨ht, trivial⟩⟩

theorem of_append {new : List Access} (h : t.accesses = s.accesses ++ new)
    (hnew : (∀ a ∈ new, a.Confined core) ↔ p) (done : Prop) : Meets core s t done p := by
  have hiff : t.Confined core ↔ s.Confined core ∧ p := by
    rw [← hnew]
    simp only [Confined, h, List.mem_append, or_imp, forall_and]
  exact ⟨fun hs hp => hiff.mpr ⟨hs, hp⟩, fun _ ht => hiff.mp ht⟩

end Meets

theorem lenField_mod (len tag : ℕ) (setArb : Bool) :
    ((len &&& 0xFFFFF) ||| ((tag &&& 0xFF) <<< 24) ||| if setArb then 1 <<< 20 else 0) % 2 ^ 20 =
      len % 2 ^ 20 := by
  have hlen : len &&& 0xFFFFF = len % 2 ^ 20 := Nat.and_two_pow_sub_one_eq_mod len 20
  have htag : ((tag &&& 0xFF) <<< 24) % 2 ^ 20 = 0 := by
    rw [Nat.shiftLeft_eq]
    omega
  have harb : (if setArb then 1 <<< 20 else 0) % 2 ^ 20 = 0 := by
    cases setArb <;> rfl
  rw [Nat.or_mod_two_pow, Nat.or_mod_two_pow, htag, harb, hlen, Nat.mod_mod, Nat.or_zero,
    Nat.or_zero]

theorem blWrite_staged {src len tag : ℕ} {setArb : Bool} {f g : Fifo}
    (h : f.blWrite src len tag setArb = (false, g)) :
    g.staged.base = src % 2 ^ 32 ∧ g.staged.len % 2 ^ 20 = len % 2 ^ 20 := by
  have hbase : ∀ f : Fifo, f.beat.2.staged = f.staged := by
    intro f
    unfold Fifo.beat
    cases f.script with
    | nil => rfl
    | cons b bs => rfl
  unfold Fifo.blWrite at h
  generalize f.beat = r at h
  rcases r with ⟨_ | _, f⟩
  · have hsecond := hbase { f with staged.base := src % 2 ^ 32 }
    dsimp only at h hsecond
    generalize Fifo.beat { f with staged.base := src % 2 ^ 32 } = r at h hsecond
    rcases r with ⟨_ | _, f⟩
    · cases h
      exact ⟨congrArg Bl.base hsecond, lenField_mod len tag setArb⟩
    · cases h
  · cases h

theorem run_meets {α : Type} (f : Fifo → α × Fifo) (s : Traced) (done : Prop) :
    Meets core s (s.run f).2 done True :=
  .of_fifo s (f s.fifo).2 done

theorem writeGenIrq_meets (hcore : core.Served) (setArb : Bool) (s : Traced) :
    Meets core s (s.writeGenIrq core setArb).2 True (s.fifo.blTag < core.blDepth) := by
  have hreq := hcore.requiredSizeGenirq_eq
  have hgen := hcore.genIrq_le
  have hwords : (∀ a ∈ [Access.word .genIrq (4 * core.genIrqLen s.fifo),
      .word .genIrq (4 * core.genIrqLen s.fifo + 4)], a.Confined core) ↔
      s.fifo.blTag < core.blDepth := by
    simp only [List.mem_cons, List.not_mem_nil, or_false, forall_eq_or_imp, forall_eq,
      Access.Confined, Owner.buffer, Option.mem_def, Option.some.injEq, exists_eq_left',
      Core.genIrqLen, hreq]
    omega
  unfold writeGenIrq blWrite
  generalize hwrite : Fifo.blWrite .. = r
  rcases r with ⟨_ | _, fifo⟩
  · obtain ⟨hbase, hlen⟩ := blWrite_staged hwrite
    refine .of_append (List.append_assoc ..) ?_ True
    rw [List.forall_mem_append, hwords]
    refine ⟨fun h => h.1, fun h => ⟨h, ?_⟩⟩
    intro a ha
    rw [List.mem_singleton.mp ha]
    rw [hreq] at hlen
    simp only [Access.Confined, Bl.size, Owner.buffer, Option.mem_def, Option.some.injEq,
      exists_eq_left', hbase, hlen, Core.genIrqLen, hreq]
    omega
  · exact .of_append rfl hwords True

theorem submitDebugGenIrq_meets (hcore : core.Served) (s : Traced) :
    Meets core s (s.submitDebugGenIrq core).2 True (s.fifo.blTag < core.blDepth) := by
  have hwrite := writeGenIrq_meets hcore false s
  unfold submitDebugGenIrq
  generalize s.writeGenIrq core false = r at hwrite
  rcases r with ⟨_ | _, t⟩
  · have hcommit : Meets core t (t.run core.commitBlWrite).2 True True := run_meets ..
    have hboth := (hwrite.trans hcommit id).congr id (and_iff_left trivial)
    dsimp only
    generalize t.run core.commitBlWrite = r at hboth
    rcases r with ⟨_ | _, u⟩
    · exact hboth
    · exact hboth
  · exact hwrite

theorem submitGenIrq_meets (hcore : core.Served) (req : BlRequest) (s : Traced) :
    Meets core s (s.submitGenIrq core req).2 True True := by
  have hpos := hcore.blDepth_pos
  have hlast : core.lastTag = core.blDepth - 1 := if_neg (by omega)
  unfold submitGenIrq
  split
  · exact .refl s True
  have hbeat : Meets core s (s.run Fifo.beat).2 True True := run_meets ..
  have htag : (s.run Fifo.beat).2.fifo.blTag = s.fifo.blTag := (beat_quiet s.fifo).blTag
  generalize s.run Fifo.beat = r at hbeat htag
  rcases r with ⟨_ | _, t⟩
  · have hwrite := writeGenIrq_meets hcore req.genIrqArb t
    have hlt : t.fifo.blTag < core.blDepth := by
      dsimp only at htag
      omega
    have hwritten := (hbeat.trans hwrite id).congr id (q := True) (by simp only [hlt, and_self])
    dsimp only
    generalize t.writeGenIrq core req.genIrqArb = r at hwritten
    rcases r with ⟨_ | _, u⟩
    · have hcommit : Meets core u (u.run core.commitBlWrite).2 True True := run_meets ..
      have hboth := (hwritten.trans hcommit id).congr id (and_iff_left trivial)
      dsimp only
      generalize u.run core.commitBlWrite = r at hboth
      rcases r with ⟨_ | _, v⟩
      · exact hboth
      · exact hboth
    · exact hwritten
  · exact hbeat

variable {cmd : BlCmd} {buf : ℕ × ℕ} {req : BlRequest} {writeCount : ℤ}

theorem writeWithIrq_meets (hbuf : cmd.ioBuf = some buf)
    (hoffset : cmd.offset < 2 ^ 32) (hcpu : ¬ cmd.lacksCpuBuf) (tag : ℕ) {s : Traced}
    {r : Bool × Traced}
    (h : (s.cdmWriteGenirq (.handle cmd) (4 * (cmd.offset / 4 + cmd.len / 4))).blWrite
      (.handle cmd) (cmd.len + 8) (buf.1 + cmd.offset) (cmd.len + 7) tag true = r) :
    Meets core s r.2 (r.1 = false) (cmd.FitsWithIrq buf) := by
  have hfits : cmd.FitsWithIrq buf ↔ cmd.len + 8 ≤ 2 ^ 20 ∧
      cmd.offset + cmd.len + 8 ≤ buf.2 ∧ buf.1 + cmd.offset < 2 ^ 32 :=
    or_iff_right hcpu
  subst h
  unfold blWrite
  generalize hwrite : Fifo.blWrite .. = r
  rw [hfits]
  rcases r with ⟨_ | _, fifo⟩
  · obtain ⟨hbase, hlen⟩ := blWrite_staged hwrite
    refine .of_append (List.append_assoc ..) ?_ _
    simp only [List.cons_append, List.nil_append, List.mem_cons, List.not_mem_nil, or_false,
      forall_eq_or_imp, forall_eq, Access.Confined, Bl.size, Owner.buffer, hbuf, Option.mem_def,
      Option.some.injEq, exists_eq_left', hbase, hlen]
    omega
  · refine (Meets.of_append rfl Iff.rfl True).stop (fun hfit => ?_) Bool.noConfusion
    simp only [List.mem_cons, List.not_mem_nil, or_false, forall_eq_or_imp, forall_eq,
      Access.Confined, Owner.buffer, hbuf, Option.mem_def, Option.some.injEq, exists_eq_left']
    omega

theorem arbSubmitBl_meets (hbuf : cmd.ioBuf = some buf)
    (hoffset : cmd.offset < 2 ^ 32) (s : Traced) :
    Meets core s (s.arbSubmitBl core cmd buf.1).2 ((s.arbSubmitBl core cmd buf.1).1 = 0)
      (cmd.FitsWithIrq buf) := by
  have hnomem : -enomem ≠ 0 := by decide
  have hio : -eio ≠ 0 := by decide
  have hbeat : Meets core s (s.run Fifo.beat).2 True True := run_meets ..
  unfold arbSubmitBl
  generalize s.run Fifo.beat = r at hbeat
  rcases r with ⟨_ | _, t⟩
  on_goal 2 => exact hbeat.stop (fun _ => trivial) hnomem
  dsimp only at hbeat ⊢
  split
  next hlacks => exact hbeat.congr (fun _ => trivial) (iff_of_true trivial (.inl hlacks))
  next hcpu =>
      generalize hwrite : blWrite .. = r
      have hwritten := (hbeat.trans (writeWithIrq_meets hbuf hoffset hcpu _ hwrite)
        fun _ => trivial).congr id (and_iff_right trivial)
      rcases r with ⟨_ | _, u⟩
      · have hcommit : Meets core u (u.run core.commitBlWrite).2 True True := run_meets ..
        have hboth := (hwritten.trans hcommit fun _ => rfl).congr id (and_iff_left trivial)
        dsimp only
        generalize u.run core.commitBlWrite = r at hboth
        rcases r with ⟨_ | _, v⟩
        · exact hboth.congr (fun _ => trivial) .rfl
        · exact hboth.stop id hio
      · exact hwritten.stop id hio

variable {rest : List BlCmd} {hwVaddr : ℕ}

theorem writeCmd_meets (hbuf : cmd.ioBuf = some buf) (hoffset : cmd.offset < 2 ^ 32)
    (hlen : cmd.len < 2 ^ 32) (hroom : cmd.offset + cmd.len ≤ buf.2) (s : Traced) :
    Meets core s (s.writeCmd core req cmd rest buf.1 writeCount).2
      ((s.writeCmd core req cmd rest buf.1 writeCount).1 ≠ none)
      (core.genIrqInSameBl req rest = false → cmd.FitsAlone buf) := by
  unfold writeCmd
  split
  next hsame =>
      refine (Meets.of_fifo s _ True).congr (fun _ => trivial) (iff_of_true trivial ?_)
      rw [hsame]
      exact Bool.noConfusion
  next hother =>
      have hfits : (core.genIrqInSameBl req rest = false → cmd.FitsAlone buf) ↔
          cmd.FitsAlone buf := by
        rw [Bool.not_eq_true] at hother
        exact ⟨fun h => h hother, fun h _ => h⟩
      generalize hwrite : blWrite .. = r
      have hwritten : Meets core s r.2 (r.1 = false) (cmd.FitsAlone buf) := by
        subst hwrite
        unfold blWrite
        generalize hwrite : Fifo.blWrite .. = r
        rcases r with ⟨_ | _, fifo⟩
        · obtain ⟨hbase, hfield⟩ := blWrite_staged hwrite
          refine .of_append rfl ?_ _
          simp only [List.mem_cons, List.not_mem_nil, or_false, forall_eq, Access.Confined,
            Bl.size, Owner.buffer, hbuf, Option.mem_def, Option.some.injEq, exists_eq_left', hbase,
            hfield, BlCmd.FitsAlone]
          omega
        · exact ⟨fun hs _ => hs, fun h => by cases h⟩
      rw [hfits]
      rcases r with ⟨_ | _, u⟩
      · have hcommit : Meets core u (u.run core.commitBlWrite).2 True True := run_meets ..
        have hboth := (hwritten.trans hcommit fun _ => rfl).congr id (and_iff_left trivial)
        dsimp only
        generalize u.run core.commitBlWrite = r at hboth
        rcases r with ⟨_ | _, v⟩
        · exact (hboth.trans (.of_fifo v v.fifo.nextTag True) id).congr (fun _ => trivial)
            (and_iff_left trivial)
        · exact hboth.stop id fun h => h rfl
      · exact hwritten.stop id fun h => h rfl

theorem fifo_blTag_writeCmd
    {writeCount' : ℤ}
    (h : s.writeCmd core req cmd rest hwVaddr writeCount = (some writeCount', t)) :
    t.fifo.blTag = (s.fifo.blTag + 1) % 2 ^ 8 := by
  have herase : erase (s.writeCmd core req cmd rest hwVaddr writeCount) = _ :=
    erase_writeCmd req cmd rest hwVaddr writeCount s
  rw [h] at herase
  exact (blTag_writeCmd herase.symm).1

theorem debugGenIrq_meets (hcore : core.Served) (cmd : BlCmd) (writeCount : ℤ) (s : Traced) :
    Meets core s (s.debugGenIrq core cmd writeCount).2
      ((s.debugGenIrq core cmd writeCount).1 ≠ none)
      (cmd.enableDebugGenIrq = true → s.fifo.blTag < core.blDepth) := by
  unfold debugGenIrq
  split
  next hdebug =>
      have htop : Meets core s (s.run (core.topUp 1 writeCount)).2 True True := run_meets ..
      have htag : (s.run (core.topUp 1 writeCount)).2.fifo.blTag = s.fifo.blTag :=
        (topUp_drains core 1 writeCount s.fifo).blTag
      generalize s.run (core.topUp 1 writeCount) = r at htop htag
      rcases r with ⟨_ | writeCount, t⟩
      · exact htop.stop (fun _ => trivial) fun h => h rfl
      dsimp only at htop htag ⊢
      have hirq := htop.trans (submitDebugGenIrq_meets hcore t) id
      rw [htag] at hirq
      have hiff : True ∧ s.fifo.blTag < core.blDepth ↔
          (cmd.enableDebugGenIrq = true → s.fifo.blTag < core.blDepth) := by
        simp only [true_and, hdebug, forall_const]
      generalize t.submitDebugGenIrq core = r at hirq
      rcases r with ⟨rc, u⟩
      split
      · exact (hirq.trans (.of_fifo u _ True) id).congr (fun _ => trivial)
          ((and_iff_left trivial).trans hiff)
      · exact (hirq.trans (.of_fifo u _ True) id).congr (fun _ => trivial)
          ((and_iff_left trivial).trans hiff)
  next hdebug =>
      exact (Meets.refl s True).congr (fun _ => trivial)
        (iff_of_true trivial fun h => absurd h hdebug)

theorem finalGenIrq_meets (hcore : core.Served) (hbuf : cmd.ioBuf = some buf)
    (hoffset : cmd.offset < 2 ^ 32) (s : Traced) :
    Meets core s (s.finalGenIrq core req cmd buf.1 writeCount).2
      ((s.finalGenIrq core req cmd buf.1 writeCount).1 = 0)
      (core.arbitration = .priorityBased → cmd.FitsWithIrq buf) := by
  have hio : -eio ≠ 0 := by decide
  have htop : Meets core s (s.run (core.topUp 1 writeCount)).2 True True := run_meets ..
  unfold finalGenIrq
  generalize s.run (core.topUp 1 writeCount) = r at htop
  rcases r with ⟨_ | _, t⟩
  · exact htop.stop (fun _ => trivial) hio
  dsimp only at htop ⊢
  split
  next harb =>
      refine (htop.trans (arbSubmitBl_meets hbuf hoffset t) fun _ => trivial).congr id ?_
      simp only [true_and, harb, forall_const]
  next harb =>
      have hirq := htop.trans (submitGenIrq_meets hcore req t) id
      have hiff : True ∧ True ↔ (core.arbitration = .priorityBased → cmd.FitsWithIrq buf) :=
        iff_of_true ⟨trivial, trivial⟩ fun h => absurd h harb
      generalize t.submitGenIrq core req = r at hirq
      rcases r with ⟨rc, u⟩
      split
      · exact (hirq.trans (.of_fifo u _ True) id).congr (fun _ => trivial)
          ((and_iff_left trivial).trans hiff)
      · exact hirq.congr (fun _ => trivial) hiff

theorem blTag_next_lt_iff (hcore : core.Served) (fifo : Fifo) :
    ((core.resetTag fifo).blTag + 1) % 2 ^ 8 < core.blDepth ↔ 1 < core.blDepth := by
  have hpos := hcore.blDepth_pos
  have hlast : core.lastTag = core.blDepth - 1 := if_neg (by omega)
  have hmod := Nat.mod_le ((core.resetTag fifo).blTag + 1) (2 ^ 8)
  have htag : (core.resetTag fifo).blTag = 0 ∨ (core.resetTag fifo).blTag + 1 < core.blDepth := by
    unfold Core.resetTag
    split
    · exact .inl rfl
    · omega
  rcases htag with hzero | hlt
  · rw [hzero]
    omega
  · omega

theorem hwVaddr_spec (htype : req.type = .memHandle) (h : req.hwVaddr cmd = some hwVaddr) :
    ∃ buf, cmd.ioBuf = some buf ∧ buf.1 = hwVaddr ∧ cmd.offset + cmd.len ≤ buf.2 := by
  simp only [BlRequest.hwVaddr, BlRequest.buffer, htype] at h
  cases hbuf : cmd.ioBuf with
  | none =>
    rw [hbuf] at h
    cases h
  | some buf =>
    rw [hbuf] at h
    dsimp only at h
    split_ifs at h with hsane hshort
    refine ⟨buf, rfl, Option.some.inj h, ?_⟩
    omega

theorem submitCmds_meets (hcore : core.Served) (htype : req.type = .memHandle)
    {cmds : List BlCmd} (hwords : ∀ cmd ∈ cmds, cmd.offset < 2 ^ 32 ∧ cmd.len < 2 ^ 32)
    (rc writeCount : ℤ) (s : Traced) :
    Meets core s (submitCmds core req cmds rc writeCount s).2
      ((submitCmds core req cmds rc writeCount s).1 = 0) (req.Fits core cmds) := by
  have hio : -eio ≠ 0 := by decide
  have hagain : -eagain ≠ 0 := by decide
  have hinval : -einval ≠ 0 := by decide
  induction cmds generalizing rc writeCount s with
  | nil => exact .refl s _
  | cons cmd rest ih =>
    obtain ⟨⟨hoffset, hlen⟩, hrest⟩ := List.forall_mem_cons.mp hwords
    unfold submitCmds
    by_cases hinvalid : cmd.len = 0 ∧ 0x100000 < cmd.len
    · omega
    rw [if_neg hinvalid]
    have hbeat : Meets core s (s.run Fifo.beat).2 True True := run_meets ..
    generalize s.run Fifo.beat = r at hbeat
    rcases r with ⟨_ | _, t⟩
    on_goal 2 => exact hbeat.stop (fun _ => trivial) hagain
    dsimp only at hbeat ⊢
    have htop := hbeat.trans (run_meets (core.topUp (rest.length + 1) writeCount) t True) id
    generalize t.run (core.topUp (rest.length + 1) writeCount) = r at htop
    rcases r with ⟨_ | writeCount, t⟩
    · exact htop.stop (fun _ => ⟨trivial, trivial⟩) hio
    dsimp only at htop ⊢
    cases hvaddr : req.hwVaddr cmd with
    | none => exact htop.stop (fun _ => ⟨trivial, trivial⟩) hinval
    | some hwVaddr =>
      obtain ⟨buf, hbuf, rfl, hroom⟩ := hwVaddr_spec htype hvaddr
      have hfits : req.Fits core (cmd :: rest) ↔
          ((if core.genIrqInSameBl req rest then cmd.FitsWithIrq buf else cmd.FitsAlone buf) ∧
            (cmd.enableDebugGenIrq = true → 1 < core.blDepth)) ∧ req.Fits core rest := by
        simp only [BlRequest.Fits, BlCmd.Fits, hbuf, Option.mem_def, Option.some.injEq,
          forall_eq']
      rw [hfits]
      have hstart := htop.trans (.of_fifo t (core.resetTag t.fifo) True) id
      have hwrites : Meets core { t with fifo := core.resetTag t.fifo }
          (writeCmd core req cmd rest buf.1 writeCount { t with fifo := core.resetTag t.fifo }).2
          _ _ := writeCmd_meets hbuf hoffset hlen hroom _
      have hwritten := hstart.trans hwrites fun _ => trivial
      dsimp only
      generalize hwrite : writeCmd core req cmd rest buf.1 writeCount
        { t with fifo := core.resetTag t.fifo } = r at hwritten
      rcases r with ⟨_ | writeCount, u⟩
      · refine hwritten.stop (fun h => ⟨⟨⟨trivial, trivial⟩, trivial⟩, fun hsame => ?_⟩) hio
        rw [hsame, if_neg Bool.false_ne_true] at h
        exact h.1.1
      have htag := fifo_blTag_writeCmd hwrite
      have hdebugged := hwritten.trans (debugGenIrq_meets hcore cmd writeCount u)
        fun _ => Option.some_ne_none writeCount
      rw [htag, blTag_next_lt_iff hcore] at hdebugged
      dsimp only
      generalize u.debugGenIrq core cmd writeCount = r at hdebugged
      rcases r with ⟨_ | ⟨rc, writeCount⟩, v⟩
      · refine hdebugged.stop (fun h => ⟨⟨⟨⟨trivial, trivial⟩, trivial⟩, fun hsame => ?_⟩,
          h.1.2⟩) hio
        rw [hsame, if_neg Bool.false_ne_true] at h
        exact h.1.1
      dsimp only at hdebugged ⊢
      split
      next hfinal =>
          obtain ⟨-, hflag, rfl⟩ := hfinal
          refine (hdebugged.trans (finalGenIrq_meets hcore hbuf hoffset v)
            fun _ => Option.some_ne_none _).congr id ?_
          by_cases harb : core.arbitration = .priorityBased
          · have hsame : core.genIrqInSameBl req [] = true := by
              simp only [Core.genIrqInSameBl, harb, hflag, and_self, decide_true]
            simp only [hsame, harb, BlRequest.Fits, and_true, true_and, forall_const,
              Bool.true_eq_false, false_implies, if_true]
            exact and_comm
          · have hsame : core.genIrqInSameBl req [] = false := by
              simp only [Core.genIrqInSameBl, harb, false_and, decide_false]
            simp only [hsame, harb, BlRequest.Fits, and_true, true_and, forall_const,
              false_implies, Bool.false_eq_true, if_false]
      next hmore =>
          have hnext := (hdebugged.trans (ih hrest rc writeCount v)
            fun _ => Option.some_ne_none _)
          cases hsame : core.genIrqInSameBl req rest with
          | true =>
            -- The interrupt belongs into this command, but the one for debugging has failed.
            obtain ⟨-, hflag, rfl⟩ := of_decide_eq_true hsame
            refine hnext.stop (fun h => ?_) fun hzero => hmore ⟨hzero, hflag, rfl⟩
            rw [hsame]
            exact ⟨⟨⟨⟨⟨trivial, trivial⟩, trivial⟩, Bool.noConfusion⟩, h.1.2⟩, trivial⟩
          | false =>
            refine hnext.congr id ?_
            simp only [hsame, true_and, forall_const, Bool.false_eq_true, if_false]

theorem submitBl_meets (hcore : core.Served) (htype : req.type = .memHandle)
    (hwords : ∀ cmd ∈ req.cmd, cmd.offset < 2 ^ 32 ∧ cmd.len < 2 ^ 32) (s : Traced) :
    Meets core s (s.submitBl core req).2 ((s.submitBl core req).1 = 0)
      (req.Fits core req.cmd) := by
  have hio : -eio ≠ 0 := by decide
  have hagain : -eagain ≠ 0 := by decide
  have hbeat : Meets core s (s.run Fifo.beat).2 True True := run_meets ..
  unfold submitBl
  generalize s.run Fifo.beat = r at hbeat
  rcases r with ⟨_ | _, t⟩
  on_goal 2 => exact hbeat.stop (fun _ => trivial) hagain
  dsimp only at hbeat ⊢
  have hread := hbeat.trans (run_meets Fifo.pendingBlRbInFifo t True) id
  generalize t.run Fifo.pendingBlRbInFifo = r at hread
  rcases r with ⟨_ | _, t⟩
  · exact hread.stop (fun _ => ⟨trivial, trivial⟩) hio
  · refine (hread.trans (submitCmds_meets hcore htype hwords 0 0 t) fun _ => trivial).congr id ?_
    simp only [true_and]

end Traced

/-- What a request hands over, and what the CPU writes for it, is inside the buffers when each
command fits; of a request that is accepted this is so only then. -/
theorem handedOver_iff_fits {core : Core} (hcore : core.Served) {req : BlRequest}
    (htype : req.type = .memHandle)
    (hwords : ∀ cmd ∈ req.cmd, cmd.offset < 2 ^ 32 ∧ cmd.len < 2 ^ 32) (fifo : Fifo) :
    (req.Fits core req.cmd → (Traced.submitBl core req ⟨fifo, []⟩).2.Confined core) ∧
      ((Traced.submitBl core req ⟨fifo, []⟩).1 = 0 →
        ((Traced.submitBl core req ⟨fifo, []⟩).2.Confined core ↔ req.Fits core req.cmd)) := by
  have hmeets := Traced.submitBl_meets hcore htype hwords ⟨fifo, []⟩
  have hempty : Traced.Confined core ⟨fifo, []⟩ := fun a ha => by cases ha
  exact ⟨hmeets.keeps hempty,
    fun hrc => ⟨fun hconf => (hmeets.needs hrc hconf).2, hmeets.keeps hempty⟩⟩

def servedCore : Core := ⟨.none, 4, four_lt, 0x1000, 2⟩

def pageRequest (len : ℕ) : BlRequest :=
  ⟨0, .memHandle, false, [⟨1, 0, len, false, false, some (0x10000, 0x1000), (0, 1)⟩]⟩

theorem servedCore_served : servedCore.Served := ⟨by decide, rfl, by decide⟩

theorem wholePage_confined :
    (Traced.submitBl servedCore (pageRequest 0x1000) ⟨Fifo.start, []⟩).1 = 0 ∧
      (Traced.submitBl servedCore (pageRequest 0x1000) ⟨Fifo.start, []⟩).2.Confined servedCore := by
  refine ⟨by decide, (handedOver_iff_fits servedCore_served rfl (by decide) Fifo.start).1 ?_⟩
  refine ⟨⟨?_, by decide⟩, trivial⟩
  rintro buf ⟨rfl⟩
  exact ⟨by decide, by decide, by decide⟩

/-- A command of no bytes passes for one of a megabyte. -/
theorem emptyCmd_overruns :
    (Traced.submitBl servedCore (pageRequest 0) ⟨Fifo.start, []⟩).1 = 0 ∧
      ¬ (Traced.submitBl servedCore (pageRequest 0) ⟨Fifo.start, []⟩).2.Confined servedCore := by
  refine ⟨by decide, fun h => ?_⟩
  obtain ⟨hsize, -⟩ := h (.bl (.handle ⟨1, 0, 0, false, false, some (0x10000, 0x1000), (0, 1)⟩) 0
    ⟨0x10000, 0xFFFFF⟩) (by decide)
  exact absurd hsize (by decide)

end KernelModules.Cdm
