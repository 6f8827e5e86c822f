import KernelModules.CdmCompletions

/-!
# What a CDM reports

The list holds the requests that have been submitted and not yet been reported, in order, as long
as each interrupt is told from the others by its tag: the tag of a request is none that the list
has already, and an interrupt that comes carries another tag than the one before. A submission
that fails where its buffer is not found leaves its entry in the list.
-/

namespace KernelModules.Cdm

open List

def Report.accepted? : Report → Option ℕ
  | .submitted number rc => if rc = 0 then some number else none
  | .reported _ _ => none

def Report.reported? : Report → Option ℕ
  | .submitted _ _ => none
  | .reported entry _ => some entry.number

def acceptedOf (outs : List Report) : List ℕ := outs.filterMap Report.accepted?

def reportedOf (outs : List Report) : List ℕ := outs.filterMap Report.reported?

def BlFifo.Outstanding (s : BlFifo) (number : ℕ) : Prop := number ∈ s.blRequestList.map (·.number)
deriving Decidable

/-- What `bl_tag` may be when the commands have been written, and their interrupts for debugging
with them. One of these may fail, if a register access can; behind the last command that leaves no
final interrupt. -/
def finalTags (core : Core) (mayFail : Bool) : List BlCmd → ℕ → List ℕ
  | [], _ => []
  | cmd :: rest, tag =>
    let written := (core.restart tag + 1) % 2 ^ 8
    let next :=
      if cmd.enableDebugGenIrq then
        core.restart ((written + 1) % 2 ^ 8) ::
          if mayFail ∧ rest ≠ [] then [core.restart written] else []
      else [written]
    if rest = [] then next else next.flatMap (finalTags core mayFail rest)

/-- The tag that the final interrupt is to carry is none of the list, and the buffer of the last
command is found. -/
def soundFinal (core : Core) (s : BlFifo) (sub : Submission) : Prop :=
  (∀ tag ∈ finalTags core (sub.script.any (·.fails)) sub.req.cmd s.fifo.blTag,
      core.finalTag tag ≠ noTag ∧ core.finalTag tag ∉ s.blRequestList.map (·.blTag)) ∧
    (core.arbitration = .priorityBased → ∀ cmd ∈ sub.req.cmd.getLast?, ¬cmd.lacksCpuBuf)
deriving Decidable

/-- The interrupt of a request that is in the list has not the tag of the interrupt before, and
the interrupt of one that is not comes while the list is empty or is ignored. -/
def soundIrq (s : BlFifo) : List Irq → Prop
  | [] => True
  | irq :: _ =>
    if s.Outstanding irq.number then s.lastBlTagDone ≠ irq.irqData
    else s.blRequestList = [] ∨ s.lastBlTagDone = irq.irqData ∨ irq.irqData = noTag

instance (s : BlFifo) (irqs : List Irq) : Decidable (soundIrq s irqs) := by
  cases irqs <;> unfold soundIrq <;> infer_instance

/-- A request has commands and a sound final interrupt, if these pass their checks, and the
interrupt that comes is sound. -/
def sound (core : Core) (s : BlFifo) : CdmEvent → Prop
  | .submit _ _ sub =>
    sub.req.flag = 1 → sub.req.cmd ≠ [] ∧
      ((∀ cmd ∈ sub.req.cmd, (sub.req.hwVaddr cmd).isSome) → soundFinal core s sub)
  | .work skipped => soundIrq s (s.irqs.drop skipped)
  | .reset _ => True

instance (core : Core) (s : BlFifo) (e : CdmEvent) : Decidable (sound core s e) := by
  cases e <;> unfold sound <;> infer_instance

/-- The list holds what has been submitted and not been reported, in order, under distinct tags;
nothing is reported twice, and no failed submission is. -/
structure Exact (core : Core) (outs : List Report) (s : BlFifo) : Prop where
  list : acceptedOf outs = reportedOf outs ++ s.blRequestList.map (·.number)
  distinct : (s.blRequestList.map (·.blTag)).Nodup
  below : s.blRequestList.length + 1 < core.blDepth →
    ∀ entry ∈ s.blRequestList, entry.blTag < core.blDepth
  once : (reportedOf outs).Nodup
  failed : ∀ number rc, .submitted number rc ∈ outs → rc ≠ 0 → number ∉ reportedOf outs

/-- An interrupt reports exactly the requests up to its own, as successful. -/
def ReportsUpTo (core : Core) (s : BlFifo) : CdmEvent → Prop
  | .submit _ _ _ => True
  | .work skipped =>
    match s.irqs.drop skipped with
    | [] => ((completions core).step s (.work skipped)).2 = []
    | irq :: _ =>
      (¬s.Outstanding irq.number → ((completions core).step s (.work skipped)).2 = []) ∧
        ∀ before entry after, s.blRequestList = before ++ entry :: after →
          entry.number = irq.number →
            ((completions core).step s (.work skipped)).2 =
              (before ++ [entry]).map (.reported · .blSuccess)
  | .reset _ => True

variable {core : Core}

theorem restart_lt (hdepth : 0 < core.blDepth) (tag : ℕ) : core.restart tag < core.blDepth := by
  have hlast : core.lastTag = core.blDepth - 1 := if_neg (by omega)
  unfold Core.restart
  split
  · exact hdepth
  · omega

theorem finalTags_le (hdepth : 0 < core.blDepth) (mayFail : Bool) (cmds : List BlCmd) (tag : ℕ) :
    ∀ last ∈ finalTags core mayFail cmds tag, last ≤ core.blDepth := by
  induction cmds generalizing tag with
  | nil => exact forall_mem_nil _
  | cons cmd rest ih =>
    intro last hmem
    rw [finalTags] at hmem
    split at hmem
    · have hwritten := restart_lt hdepth tag
      have hmod := Nat.mod_le (core.restart tag + 1) (2 ^ 8)
      have hnext := restart_lt hdepth (((core.restart tag + 1) % 2 ^ 8 + 1) % 2 ^ 8)
      have hagain := restart_lt hdepth ((core.restart tag + 1) % 2 ^ 8)
      split_ifs at hmem
      all_goals
        simp only [mem_cons, not_mem_nil, or_false] at hmem
        omega
    · obtain ⟨next, -, hlast⟩ := mem_flatMap.mp hmem
      exact ih next last hlast

/-- Without interrupts for debugging the tags run from 1 to `bl_depth - 1`, and start over. -/
theorem finalTags_eq (htwo : 2 ≤ core.blDepth) (hbyte : core.blDepth ≤ 2 ^ 8) (mayFail : Bool)
    {cmds : List BlCmd} (hcmds : cmds ≠ []) (hsilent : ∀ cmd ∈ cmds, ¬cmd.enableDebugGenIrq)
    (tag : ℕ) : finalTags core mayFail cmds tag =
      [(core.restart tag + cmds.length - 1) % (core.blDepth - 1) + 1] := by
  have hlast : core.lastTag = core.blDepth - 1 := if_neg (by omega)
  have hless : ∀ tag, core.restart tag < core.blDepth - 1 := by
    intro tag
    unfold Core.restart
    split <;> omega
  have hover : ∀ tag, tag < core.blDepth - 1 →
      core.restart (tag + 1) = (tag + 1) % (core.blDepth - 1) := by
    intro tag htag
    unfold Core.restart
    split
    · rw [show tag + 1 = core.blDepth - 1 by omega, Nat.mod_self]
    · exact (Nat.mod_eq_of_lt (by omega)).symm
  induction cmds generalizing tag with
  | nil => exact absurd rfl hcmds
  | cons cmd rest ih =>
    have htag := hless tag
    have hwritten : (core.restart tag + 1) % 2 ^ 8 = core.restart tag + 1 :=
      Nat.mod_eq_of_lt (by omega)
    obtain ⟨hcmd, hrest⟩ := forall_mem_cons.mp hsilent
    rw [finalTags, if_neg hcmd, hwritten]
    by_cases hnone : rest = []
    · rw [if_pos hnone, hnone, length_singleton, Nat.add_sub_cancel, Nat.mod_eq_of_lt htag]
    · have hpos := length_pos_of_ne_nil hnone
      rw [if_neg hnone, flatMap_singleton, ih hnone hrest, hover _ htag, length_cons,
        Nat.add_sub_assoc hpos, Nat.mod_add_mod]
      congr 3
      omega

variable {req : BlRequest} {cmd : BlCmd} {writeCount rc : ℤ}

variable {rest : List BlCmd} {hwVaddr : ℕ} {writeCount' : ℤ} {entry : Entry} {e : CdmEvent}

theorem blTag_writeCmd {s t : Fifo}
    (h : core.writeCmd req cmd rest hwVaddr writeCount s = (some writeCount', t)) :
    t.blTag = (s.blTag + 1) % 2 ^ 8 ∧ t.script <:+ s.script := by
  have hnext : ∀ v : Fifo, v.blTag = s.blTag → v.script <:+ s.script →
      v.nextTag.blTag = (s.blTag + 1) % 2 ^ 8 ∧ v.nextTag.script <:+ s.script :=
    fun v hv hscript => ⟨congrArg (fun tag => (tag + 1) % 2 ^ 8) hv, hscript⟩
  unfold Core.writeCmd at h
  split at h
  · cases h
    exact hnext s rfl suffix_rfl
  · have hwrite := blWrite_quiet (hwVaddr + cmd.offset) ((cmd.len + 2 ^ 32 - 1) % 2 ^ 32) s.blTag
      cmd.arbitrate s
    generalize s.blWrite (hwVaddr + cmd.offset) ((cmd.len + 2 ^ 32 - 1) % 2 ^ 32) s.blTag
      cmd.arbitrate = r at h hwrite
    rcases r with ⟨_ | _, v⟩
    · obtain ⟨u, hd, ⟨hcommit, -⟩ | hcommit⟩ := commitBlWrite_cases core v
      · dsimp only at h
        rw [hcommit] at h
        cases h
      · dsimp only at h
        rw [hcommit] at h
        cases h
        have hu := hwrite.toDrains.trans hd
        exact hnext (core.store u) hu.blTag hu.script
    · cases h

theorem blTag_submitDebugGenIrq (core : Core) (s : Fifo) :
    (core.submitDebugGenIrq s).2.blTag = s.blTag ∧
      (core.submitDebugGenIrq s).2.script <:+ s.script ∧
      ((core.submitDebugGenIrq s).1 ≠ 0 → ∃ b ∈ s.script, b.fails = true) := by
  have hwrite := blWrite_quiet (core.genIrqVaddr + 4 * core.genIrqLen s)
    ((4 * core.requiredSizeGenirq + 2 ^ 32 - 1) % 2 ^ 32) s.blTag false s
  have hfails : (core.writeGenIrq false s).1 = true → ∃ b ∈ s.script, b.fails = true :=
    blWrite_fails
  change Quiet s (core.writeGenIrq false s) at hwrite
  unfold Core.submitDebugGenIrq
  generalize core.writeGenIrq false s = r at hwrite hfails
  rcases r with ⟨_ | _, v⟩
  · obtain ⟨u, hd, ⟨hcommit, -, b, hb, hfailed⟩ | hcommit⟩ := commitBlWrite_cases core v
    all_goals
      have hu := hwrite.toDrains.trans hd
      dsimp only
      rw [hcommit]
    · exact ⟨hu.blTag, hu.script, fun _ => ⟨b, hwrite.script.subset hb, hfailed⟩⟩
    · exact ⟨hu.blTag, hu.script, fun hne => absurd rfl hne⟩
  · exact ⟨hwrite.blTag, hwrite.script, fun _ => hfails rfl⟩

theorem blTag_debugGenIrq {s t : Fifo}
    (h : core.debugGenIrq cmd writeCount s = (some (rc, writeCount'), t)) :
    t.script <:+ s.script ∧
      if cmd.enableDebugGenIrq then
        t.blTag = core.restart ((s.blTag + 1) % 2 ^ 8) ∨
          t.blTag = core.restart s.blTag ∧ rc ≠ 0 ∧ ∃ b ∈ s.script, b.fails = true
      else t.blTag = s.blTag := by
  unfold Core.debugGenIrq at h
  split at h
  · next hdebug =>
      rw [if_pos hdebug]
      have htop := topUp_drains core 1 writeCount s
      generalize core.topUp 1 writeCount s = r at h htop
      rcases r with ⟨_ | left, u⟩
      · cases h
      obtain ⟨htag, hscript, hfails⟩ := blTag_submitDebugGenIrq core u
      dsimp only at h htop
      generalize core.submitDebugGenIrq u = r at h htag hscript hfails
      obtain ⟨rc', v⟩ := r
      dsimp only at h htag hscript hfails
      split at h
      · cases h
        rw [resetTag_eq]
        refine ⟨hscript.trans htop.script, .inl ?_⟩
        change core.restart ((v.blTag + 1) % 2 ^ 8) = _
        rw [htag, htop.blTag]
      · next hrc =>
          cases h
          obtain ⟨b, hb, hfailed⟩ := hfails hrc
          rw [resetTag_eq, htag, htop.blTag]
          exact ⟨hscript.trans htop.script, .inr ⟨rfl, hrc, b, htop.script.subset hb, hfailed⟩⟩
  · next hdebug =>
      cases h
      rw [if_neg hdebug]
      exact ⟨suffix_rfl, rfl⟩

/-- What is known of a submission where its final interrupt is due. -/
structure Due (core : Core) (req : BlRequest) (mayFail : Bool) (cmds : List BlCmd) (tag : ℕ)
    (f : Final) : Prop where
  flag : req.flag = 1
  valid : ∀ cmd ∈ cmds, (req.hwVaddr cmd).isSome
  last : f.cmd ∈ cmds.getLast?
  tag : f.fifo.blTag ∈ finalTags core mayFail cmds tag

/-- The tag behind a command and its interrupt for debugging is one of those counted. -/
theorem mem_tagsBehind {mayFail : Bool} {P : Prop} {written tag : ℕ}
    (htag : if cmd.enableDebugGenIrq then tag = core.restart ((written + 1) % 2 ^ 8) ∨
        tag = core.restart written ∧ rc ≠ 0 ∧ P
      else tag = written) (hlast : rest = [] → rc = 0) (hmay : P → mayFail = true) :
    tag ∈ if cmd.enableDebugGenIrq then
        core.restart ((written + 1) % 2 ^ 8) ::
          if mayFail ∧ rest ≠ [] then [core.restart written] else []
      else [written] := by
  split at htag
  · next hon =>
      rw [if_pos hon]
      rcases htag with rfl | ⟨rfl, hne, hfailed⟩
      · exact mem_cons_self
      · rw [if_pos ⟨hmay hfailed, fun hnil => hne (hlast hnil)⟩]
        exact mem_cons_of_mem _ (mem_singleton_self _)
  · next hoff =>
      rw [if_neg hoff, htag]
      exact mem_singleton_self _

theorem cmdsToFinal_spec {mayFail : Bool} {cmds : List BlCmd} {s : Fifo}
    (hfails : ∀ b ∈ s.script, b.fails = true → mayFail = true)
    (hrc : cmds = [] → req.flag = 1 → rc ≠ 0) :
    match core.cmdsToFinal req cmds rc writeCount s with
    | .inl r => req.flag = 1 → r.1 ≠ 0
    | .inr f => Due core req mayFail cmds s.blTag f := by
  have hio : -eio ≠ 0 := by decide
  have hagain : -eagain ≠ 0 := by decide
  have hinval : -einval ≠ 0 := by decide
  induction cmds generalizing rc writeCount s with
  | nil => exact hrc rfl
  | cons cmd rest ih =>
    unfold Core.cmdsToFinal
    by_cases hlen : cmd.len = 0 ∧ 0x100000 < cmd.len
    · omega
    rw [if_neg hlen]
    have hbeat := (beat_quiet s).toDrains
    generalize s.beat = r at hbeat
    rcases r with ⟨_ | _, t⟩
    on_goal 2 => exact fun _ => hagain
    dsimp only
    have htop := hbeat.trans (topUp_drains core (rest.length + 1) writeCount t)
    generalize core.topUp (rest.length + 1) writeCount t = r at htop
    rcases r with ⟨_ | writeCount, u⟩
    · exact fun _ => hio
    cases hvalid : req.hwVaddr cmd with
    | none => exact fun _ => hinval
    | some hwVaddr =>
      dsimp only at htop ⊢
      generalize hwrite : core.writeCmd req cmd rest hwVaddr writeCount (core.resetTag u) = r
      rcases r with ⟨_ | writeCount, v⟩
      · exact fun _ => hio
      obtain ⟨hwritten, hscript⟩ := blTag_writeCmd hwrite
      rw [resetTag_eq] at hwritten hscript
      dsimp only at hwritten hscript
      rw [htop.blTag] at hwritten
      dsimp only
      generalize hdebug : core.debugGenIrq cmd writeCount v = r
      rcases r with ⟨_ | ⟨rc, writeCount⟩, x⟩
      · exact fun _ => hio
      obtain ⟨hscript', htag⟩ := blTag_debugGenIrq hdebug
      rw [hwritten] at htag
      have hmay : (∃ b ∈ v.script, b.fails = true) → mayFail = true := fun ⟨b, hb, hfailed⟩ =>
        hfails b ((hscript.trans htop.script).subset hb) hfailed
      have hvalid' : (req.hwVaddr cmd).isSome := by
        rw [hvalid]
        rfl
      dsimp only
      by_cases hfinal : rc = 0 ∧ req.flag = 1 ∧ rest = []
      · rw [if_pos hfinal]
        obtain ⟨hzero, hflag, rfl⟩ := hfinal
        refine ⟨hflag, fun c hc => mem_singleton.mp hc ▸ hvalid', rfl, ?_⟩
        rw [finalTags, if_pos rfl]
        exact mem_tagsBehind htag (fun _ => hzero) hmay
      · rw [if_neg hfinal]
        have hrest := @ih writeCount rc x
          (fun b hb => hfails b ((hscript'.trans (hscript.trans htop.script)).subset hb))
          fun hlast hflag hzero => hfinal ⟨hzero, hflag, hlast⟩
        generalize core.cmdsToFinal req rest rc writeCount x = r at hrest
        rcases r with r | f
        · exact hrest
        obtain ⟨hflag, hvalids, hlast, hmem⟩ := hrest
        have hne : rest ≠ [] := fun hnil => by
          rw [hnil] at hlast
          cases hlast
        refine ⟨hflag, forall_mem_cons.mpr ⟨hvalid', hvalids⟩, ?_, ?_⟩
        · rw [getLast?_cons_of_ne_nil hne]
          exact hlast
        · rw [finalTags, if_neg hne]
          exact mem_flatMap.mpr
            ⟨x.blTag, mem_tagsBehind htag (fun hnil => absurd hnil hne) hmay, hmem⟩

theorem toFinal_spec (core : Core) (s : Fifo) (hcmd : req.flag = 1 → req.cmd ≠ []) :
    match core.toFinal req s with
    | .inl r => req.flag = 1 → r.1 ≠ 0
    | .inr f => Due core req (s.script.any (·.fails)) req.cmd s.blTag f := by
  have hio : -eio ≠ 0 := by decide
  have hagain : -eagain ≠ 0 := by decide
  have hbeat := (beat_quiet s).toDrains
  unfold Core.toFinal
  generalize s.beat = r at hbeat
  rcases r with ⟨_ | _, t⟩
  on_goal 2 => exact fun _ => hagain
  dsimp only at hbeat ⊢
  have hread := hbeat.trans (pendingBlRbInFifo_spec t).1
  generalize t.pendingBlRbInFifo = r at hread
  rcases r with ⟨_ | _, u⟩
  · exact fun _ => hio
  · rw [← hread.blTag]
    exact cmdsToFinal_spec
      (fun b hb hfails => any_eq_true.mpr ⟨b, hread.script.subset hb, hfails⟩)
      fun hnone hflag => absurd hnone (hcmd hflag)

/-- The list and the interrupts are as they were. -/
structure Unchanged (s t : BlFifo) : Prop where
  list : t.blRequestList = s.blRequestList
  irqs : t.irqs = s.irqs
  last : t.lastBlTagDone = s.lastBlTagDone

/-- The submission has added its entry and its interrupt. -/
structure Joins (core : Core) (s : BlFifo) (entry : Entry) (t : BlFifo) : Prop where
  number : entry.number = s.submissions
  tagged : entry.blTag ≠ noTag
  new : entry.blTag ∉ s.blRequestList.map (·.blTag)
  below : 0 < core.blDepth → entry.blTag < core.blDepth
  list : t.blRequestList = s.blRequestList ++ [entry]
  irqs : t.irqs = s.irqs ++ [⟨entry.number, entry.blTag⟩]
  last : t.lastBlTagDone = s.lastBlTagDone

theorem lastTag_of_submitGenIrq {s : Fifo} (h : (core.submitGenIrq req s).1 = 0) :
    s.blTag ≤ core.lastTag := by
  by_contra hlt
  unfold Core.submitGenIrq at h
  rw [if_pos (by omega)] at h
  exact absurd h (show -einval ≠ 0 by decide)

theorem finalTag_lt (hdepth : 0 < core.blDepth) {tag : ℕ} (hle : tag ≤ core.blDepth)
    (hpriority : core.arbitration = .priorityBased) (htag : core.finalTag tag ≠ noTag) :
    core.finalTag tag < core.blDepth := by
  have heq : core.finalTag tag = (tag + 2 ^ 8 - 1) % 2 ^ 8 := if_pos hpriority
  rw [heq] at htag ⊢
  unfold noTag at htag
  omega

theorem submitBl_cases {s : BlFifo} {clientHdl cookie : ℕ} {sub : Submission}
    (hsound : sound core s (.submit clientHdl cookie sub)) :
    Unchanged s (s.submitBl core clientHdl cookie sub).2 ∧
        (sub.req.flag = 1 → (s.submitBl core clientHdl cookie sub).1 ≠ 0) ∨
      (sub.req.flag = 1 ∧ (s.submitBl core clientHdl cookie sub).1 = 0) ∧
        ∃ entry, Joins core s entry (s.submitBl core clientHdl cookie sub).2 := by
  have hspec := toFinal_spec core (s.fifo.submitted sub.script) fun hflag => (hsound hflag).1
  have hfinal := fun hflag => (hsound hflag).2
  unfold BlFifo.submitBl
  generalize core.toFinal sub.req (s.fifo.submitted sub.script) = r at hspec hfinal
  rcases r with r | f
  · exact .inl ⟨⟨rfl, rfl, rfl⟩, hspec⟩
  obtain ⟨hflag, hvalid, hlast, hmem⟩ := hspec
  obtain ⟨htags, hbuf⟩ := hfinal hflag hvalid
  obtain ⟨htag, hnew⟩ := htags _ hmem
  have hle : 0 < core.blDepth → f.fifo.blTag ≤ core.blDepth := fun hdepth =>
    finalTags_le hdepth _ _ _ _ hmem
  have htop := (topUp_drains core 1 f.writeCount f.fifo).blTag
  have hio : -eio ≠ 0 := by decide
  dsimp only
  unfold BlFifo.final
  generalize core.topUp 1 f.writeCount f.fifo = r at htop
  rcases r with ⟨_ | _, fifo⟩
  · exact .inl ⟨⟨rfl, rfl, rfl⟩, fun _ => hio⟩
  dsimp only at htop ⊢
  by_cases hpriority : core.arbitration = .priorityBased
  · rw [if_pos hpriority]
    unfold BlFifo.arbGenIrq
    dsimp only
    rw [if_neg fun hlacks => hbuf hpriority f.cmd hlast hlacks.2]
    by_cases hrc : (core.arbSubmitBl f.cmd f.hwVaddr fifo).1 = 0
    · rw [if_pos hrc]
      refine .inr ⟨⟨hflag, hrc⟩, _, rfl, htag, hnew, fun hdepth => ?_, rfl, rfl, rfl⟩
      exact finalTag_lt hdepth (hle hdepth) hpriority htag
    · rw [if_neg hrc]
      exact .inl ⟨⟨rfl, rfl, rfl⟩, fun _ => hrc⟩
  · rw [if_neg hpriority]
    unfold BlFifo.genIrq
    dsimp only
    by_cases hrc : (core.submitGenIrq sub.req fifo).1 = 0
    · rw [if_pos hrc]
      refine .inr ⟨⟨hflag, hrc⟩, _, rfl, htag, hnew, fun hdepth => ?_, rfl, rfl, rfl⟩
      have hlast := lastTag_of_submitGenIrq hrc
      have heq : core.lastTag = core.blDepth - 1 := if_neg (by omega)
      have hsame : core.finalTag f.fifo.blTag = f.fifo.blTag := if_neg hpriority
      change core.finalTag f.fifo.blTag < core.blDepth
      omega
    · rw [if_neg hrc]
      exact .inl ⟨⟨rfl, rfl, rfl⟩, fun _ => hrc⟩

theorem upToTag_eq {before after : List Entry}
    (h : entry.blTag ∉ before.map (·.blTag)) :
    BlFifo.upToTag entry.blTag (before ++ entry :: after) = (before ++ [entry], after) := by
  induction before with
  | nil =>
    unfold BlFifo.upToTag
    exact if_pos rfl
  | cons first before ih =>
    rw [map_cons, mem_cons, not_or] at h
    rw [cons_append, BlFifo.upToTag, if_neg (Ne.symm h.1), ih h.2]
    rfl

theorem upToTag_append (irqData : ℕ) (entries : List Entry) :
    (BlFifo.upToTag irqData entries).1 ++ (BlFifo.upToTag irqData entries).2 = entries := by
  induction entries with
  | nil => rfl
  | cons entry entries ih =>
    unfold BlFifo.upToTag
    split
    · rfl
    · exact congrArg (entry :: ·) ih

theorem acceptedOf_append (a b : List Report) : acceptedOf (a ++ b) = acceptedOf a ++ acceptedOf b :=
  filterMap_append

theorem reportedOf_append (a b : List Report) : reportedOf (a ++ b) = reportedOf a ++ reportedOf b :=
  filterMap_append

theorem outputs_reported (entries : List Entry) (status : Entry → CbStatus) :
    acceptedOf (entries.map fun entry => .reported entry (status entry)) = [] ∧
      reportedOf (entries.map fun entry => .reported entry (status entry)) =
        entries.map (·.number) := by
  induction entries with
  | nil => exact ⟨rfl, rfl⟩
  | cons entry entries ih => exact ⟨ih.1, congrArg (entry.number :: ·) ih.2⟩

/-- The list, what is known of the numbers, and the tags of the interrupts. -/
structure Tracked (core : Core) (outs : List Report) (s : BlFifo) : Prop where
  list : acceptedOf outs = reportedOf outs ++ s.blRequestList.map (·.number)
  nodup : (acceptedOf outs).Nodup
  fresh : ∀ number rc, .submitted number rc ∈ outs → number < s.submissions
  failed : ∀ number rc, .submitted number rc ∈ outs → rc ≠ 0 → number ∉ acceptedOf outs
  accepted : ∀ number ∈ acceptedOf outs, number < s.submissions
  distinct : (s.blRequestList.map (·.blTag)).Nodup
  tagged : ∀ entry ∈ s.blRequestList, entry.blTag ≠ noTag
  below : 0 < core.blDepth → ∀ entry ∈ s.blRequestList, entry.blTag < core.blDepth
  irqs : ∀ irq ∈ s.irqs, irq.number < s.submissions ∧
    ∀ entry ∈ s.blRequestList, entry.number = irq.number → entry.blTag = irq.irqData

theorem tracked_start (core : Core) : Tracked core [] BlFifo.start where
  list := rfl
  nodup := nodup_nil
  fresh := fun _ _ hmem => by cases hmem
  failed := fun _ _ hmem => by cases hmem
  accepted := fun _ hmem => by cases hmem
  distinct := nodup_nil
  tagged := fun _ hmem => by cases hmem
  below := fun _ _ hmem => by cases hmem
  irqs := fun _ hmem => by cases hmem

variable {outs : List Report} {s t : BlFifo}

theorem Tracked.exact (h : Tracked core outs s) : Exact core outs s where
  list := h.list
  distinct := h.distinct
  below := fun hlen => h.below (by omega)
  once := by
    have hnodup := h.nodup
    rw [h.list] at hnodup
    exact (nodup_append.mp hnodup).1
  failed := by
    intro number rc hmem hrc hreported
    apply h.failed number rc hmem hrc
    rw [h.list]
    exact mem_append_left _ hreported

/-- Entries leave the list from the front, and are reported. -/
theorem Tracked.reports (h : Tracked core outs s) (gone : List Entry) {left : List Entry}
    (status : Entry → CbStatus) (hlist : s.blRequestList = gone ++ left) (hleft : t.blRequestList = left)
    (hirqs : ∀ irq ∈ t.irqs, irq ∈ s.irqs) (hsubmissions : t.submissions = s.submissions) :
    Tracked core (outs ++ gone.map fun entry => .reported entry (status entry)) t := by
  obtain ⟨hnone, hgone⟩ := outputs_reported gone status
  have hacc : acceptedOf (outs ++ gone.map fun entry => .reported entry (status entry)) =
      acceptedOf outs := by
    rw [acceptedOf_append, hnone, append_nil]
  have hsub : ∀ number rc, .submitted number rc ∈
      outs ++ gone.map (fun entry => Report.reported entry (status entry)) →
        .submitted number rc ∈ outs := by
    intro number rc hmem
    rcases mem_append.mp hmem with hold | hnew
    · exact hold
    · obtain ⟨_, _, heq⟩ := mem_map.mp hnew
      cases heq
  have hkept : ∀ entry ∈ t.blRequestList, entry ∈ s.blRequestList := by
    intro entry hmem
    rw [hlist]
    rw [hleft] at hmem
    exact mem_append_right _ hmem
  have hsublist : t.blRequestList.Sublist s.blRequestList := by
    rw [hlist, hleft]
    exact sublist_append_right gone left
  refine ⟨?_, ?_, ?_, ?_, ?_, ?_, ?_, ?_, ?_⟩
  · rw [hacc, reportedOf_append, hgone, h.list, hlist, hleft, map_append, append_assoc]
  · rw [hacc]
    exact h.nodup
  · intro number rc hmem
    rw [hsubmissions]
    exact h.fresh number rc (hsub number rc hmem)
  · intro number rc hmem hrc
    rw [hacc]
    exact h.failed number rc (hsub number rc hmem) hrc
  · rw [hacc, hsubmissions]
    exact h.accepted
  · exact h.distinct.sublist (hsublist.map _)
  · exact fun entry hmem => h.tagged entry (hkept entry hmem)
  · exact fun hdepth entry hmem => h.below hdepth entry (hkept entry hmem)
  · intro irq hmem
    obtain ⟨hnumber, htags⟩ := h.irqs irq (hirqs irq hmem)
    rw [hsubmissions]
    exact ⟨hnumber, fun entry hentry => htags entry (hkept entry hentry)⟩

theorem Tracked.work (h : Tracked core outs s) (skipped : ℕ) :
    Tracked core (outs ++ ((completions core).step s (.work skipped)).2)
      ((completions core).step s (.work skipped)).1 := by
  change Tracked core (outs ++ (match s.irqs.drop skipped with
    | [] => ({ s with irqs := [] }, [])
    | irq :: irqs => BlFifo.work irq.irqData { s with irqs := irqs }).2) (match s.irqs.drop skipped with
    | [] => ({ s with irqs := [] }, [])
    | irq :: irqs => BlFifo.work irq.irqData { s with irqs := irqs }).1
  have hmem : ∀ irq ∈ s.irqs.drop skipped, irq ∈ s.irqs := fun irq => mem_of_mem_drop
  generalize s.irqs.drop skipped = left at hmem
  rcases left with _ | ⟨irq, irqs⟩
  · exact h.reports [] (fun _ => .blSuccess) rfl rfl (fun _ hnone => by cases hnone) rfl
  · have hrest : ∀ other ∈ irqs, other ∈ s.irqs :=
      fun other hother => hmem other (mem_cons_of_mem _ hother)
    have hnothing : Tracked core (outs ++ []) { s with irqs := irqs } :=
      h.reports [] (fun _ => .blSuccess) rfl rfl hrest rfl
    dsimp only
    unfold BlFifo.work
    split
    · exact hnothing
    · split
      · exact hnothing
      · split
        · exact hnothing
        · exact h.reports _ (fun _ => .blSuccess) (upToTag_append irq.irqData s.blRequestList).symm rfl
            hrest rfl

theorem Tracked.reset (h : Tracked core outs s) (flush : Option ℕ) :
    Tracked core (outs ++ (s.resetCleanup flush).2) (s.resetCleanup flush).1 :=
  h.reports _ _ (append_nil _).symm rfl (fun _ hmem => hmem) rfl

theorem nodup_concat {β : Type*} {l : List β} {b : β} (hl : l.Nodup) (hb : b ∉ l) :
    (l ++ [b]).Nodup := by
  apply nodup_append.mpr
  refine ⟨hl, nodup_singleton b, ?_⟩
  intro a ha c hc heq
  rw [heq, mem_singleton.mp hc] at ha
  exact hb ha

theorem mem_submitted_concat {number n : ℕ} {rc' : ℤ}
    (h : Report.submitted number rc ∈ outs ++ [.submitted n rc']) :
    .submitted number rc ∈ outs ∨ number = n ∧ rc = rc' := by
  rcases mem_append.mp h with hold | hnew
  · exact .inl hold
  · cases mem_singleton.mp hnew
    exact .inr ⟨rfl, rfl⟩

theorem Tracked.unchanged (h : Tracked core outs s) (hs : Unchanged s t)
    (hrc : rc ≠ 0) {new : List Report} (hnew : new = [] ∨ new = [.submitted s.submissions rc]) :
    Tracked core (outs ++ new) { t with submissions := s.submissions + 1 } := by
  have hacc : acceptedOf (outs ++ new) = acceptedOf outs := by
    have hone : acceptedOf [.submitted s.submissions rc] = [] := by
      have hno : Report.accepted? (.submitted s.submissions rc) = none := if_neg hrc
      exact filterMap_cons_none hno
    rw [acceptedOf_append]
    rcases hnew with rfl | rfl
    · exact append_nil _
    · rw [hone, append_nil]
  have hreported : reportedOf (outs ++ new) = reportedOf outs := by
    rw [reportedOf_append]
    rcases hnew with rfl | rfl
    · exact append_nil _
    · exact append_nil _
  have hcases : ∀ number rc, .submitted number rc ∈ outs ++ new →
      .submitted number rc ∈ outs ∨ number = s.submissions := by
    intro number rc hmem
    rcases hnew with rfl | rfl
    · rw [append_nil] at hmem
      exact .inl hmem
    · exact (mem_submitted_concat hmem).imp_right And.left
  refine ⟨?_, ?_, ?_, ?_, ?_, ?_, ?_, ?_, ?_⟩
  · rw [hacc, hreported, hs.list]
    exact h.list
  · rw [hacc]
    exact h.nodup
  · intro number rc hmem
    rcases hcases number rc hmem with hold | rfl
    · exact Nat.lt_succ_of_lt (h.fresh number rc hold)
    · exact Nat.lt_succ_self _
  · intro number rc hmem hne
    rw [hacc]
    rcases hcases number rc hmem with hold | rfl
    · exact h.failed number rc hold hne
    · exact fun haccepted => Nat.lt_irrefl _ (h.accepted _ haccepted)
  · rw [hacc]
    exact fun number hmem => Nat.lt_succ_of_lt (h.accepted number hmem)
  · rw [hs.list]
    exact h.distinct
  · rw [hs.list]
    exact h.tagged
  · rw [hs.list]
    exact h.below
  · rw [hs.irqs, hs.list]
    exact fun irq hmem => ⟨Nat.lt_succ_of_lt (h.irqs irq hmem).1, (h.irqs irq hmem).2⟩

theorem Tracked.joins (h : Tracked core outs s) (hs : Joins core s entry t) :
    Tracked core (outs ++ [.submitted s.submissions 0]) { t with submissions := s.submissions + 1 } := by
  have hacc : acceptedOf (outs ++ [.submitted s.submissions 0]) =
      acceptedOf outs ++ [s.submissions] := acceptedOf_append _ _
  have hreported : reportedOf (outs ++ [.submitted s.submissions 0]) = reportedOf outs := by
    rw [reportedOf_append]
    exact append_nil _
  have hfresh : s.submissions ∉ acceptedOf outs := fun hmem => Nat.lt_irrefl _ (h.accepted _ hmem)
  have hmem : ∀ {P : Entry → Prop}, (∀ e ∈ s.blRequestList, P e) → P entry →
      ∀ e ∈ t.blRequestList, P e := by
    intro P hold hnew e he
    rw [hs.list] at he
    rcases mem_append.mp he with he | he
    · exact hold e he
    · rw [mem_singleton.mp he]
      exact hnew
  refine ⟨?_, ?_, ?_, ?_, ?_, ?_, ?_, ?_, ?_⟩
  · rw [hacc, hreported, hs.list, map_append, map_singleton, hs.number, h.list,
      append_assoc]
  · rw [hacc]
    exact nodup_concat h.nodup hfresh
  · intro number rc hsub
    rcases mem_submitted_concat hsub with hold | ⟨rfl, -⟩
    · exact Nat.lt_succ_of_lt (h.fresh number rc hold)
    · exact Nat.lt_succ_self _
  · intro number rc hsub hne
    rw [hacc]
    rcases mem_submitted_concat hsub with hold | ⟨-, hzero⟩
    · intro hin
      rcases mem_append.mp hin with hin | hin
      · exact h.failed number rc hold hne hin
      · have hlt := h.fresh number rc hold
        rw [mem_singleton.mp hin] at hlt
        exact Nat.lt_irrefl _ hlt
    · exact absurd hzero hne
  · rw [hacc]
    intro number hin
    rcases mem_append.mp hin with hin | hin
    · exact Nat.lt_succ_of_lt (h.accepted number hin)
    · rw [mem_singleton.mp hin]
      exact Nat.lt_succ_self _
  · change (t.blRequestList.map (·.blTag)).Nodup
    rw [hs.list, map_append, map_singleton]
    exact nodup_concat h.distinct hs.new
  · exact hmem h.tagged hs.tagged
  · exact fun hdepth => hmem (h.below hdepth) (hs.below hdepth)
  · intro irq hirq
    change irq ∈ t.irqs at hirq
    rw [hs.irqs] at hirq
    rcases mem_append.mp hirq with hirq | hirq
    · obtain ⟨hlt, htags⟩ := h.irqs irq hirq
      refine ⟨Nat.lt_succ_of_lt hlt, hmem htags fun heq => ?_⟩
      rw [hs.number] at heq
      omega
    · rw [mem_singleton.mp hirq]
      refine ⟨?_, hmem (fun e he heq => ?_) fun _ => rfl⟩
      · rw [hs.number]
        exact Nat.lt_succ_self _
      · have hin : e.number ∈ acceptedOf outs := by
          rw [h.list]
          exact mem_append_right _ (mem_map_of_mem he)
        have hlt := h.accepted _ hin
        rw [heq, hs.number] at hlt
        exact absurd hlt (Nat.lt_irrefl _)

theorem Tracked.step (h : Tracked core outs s) (hsound : sound core s e) :
    Tracked core (outs ++ ((completions core).step s e).2) ((completions core).step s e).1 := by
  cases e with
  | submit clientHdl cookie sub =>
    change Tracked core (outs ++ if sub.req.flag = 1 then
        [.submitted s.submissions (s.submitBl core clientHdl cookie sub).1] else [])
      { (s.submitBl core clientHdl cookie sub).2 with submissions := s.submissions + 1 }
    rcases submitBl_cases hsound with ⟨hs, hrc⟩ | ⟨⟨hflag, hrc⟩, entry, hs⟩
    · by_cases hflag : sub.req.flag = 1
      · rw [if_pos hflag]
        exact h.unchanged hs (hrc hflag) (.inr rfl)
      · rw [if_neg hflag]
        exact h.unchanged hs (show (1 : ℤ) ≠ 0 by decide) (.inl rfl)
    · rw [if_pos hflag, hrc]
      exact h.joins hs
  | work skipped => exact h.work skipped
  | reset flush => exact h.reset flush

theorem reportsUpTo_of_sound (h : Tracked core outs s) (hsound : sound core s e) :
    ReportsUpTo core s e := by
  cases e with
  | submit clientHdl cookie sub => trivial
  | reset flush => trivial
  | work skipped =>
    unfold ReportsUpTo
    unfold sound soundIrq at hsound
    dsimp only at hsound ⊢
    have hin : ∀ irq ∈ s.irqs.drop skipped, irq ∈ s.irqs := fun irq => mem_of_mem_drop
    have hstep : (completions core).step s (.work skipped) = match s.irqs.drop skipped with
      | [] => ({ s with irqs := [] }, [])
      | irq :: irqs => BlFifo.work irq.irqData { s with irqs := irqs } := rfl
    rw [hstep]
    generalize s.irqs.drop skipped = left at hin hsound
    rcases left with _ | ⟨irq, irqs⟩
    · rfl
    dsimp only at hsound ⊢
    refine ⟨fun hgone => ?_, fun before entry after hlist hnumber => ?_⟩
    · rw [if_neg hgone] at hsound
      unfold BlFifo.work
      rcases hsound with hnone | hlast | htag
      · rw [if_pos hnone]
        split
        · rfl
        · rfl
      · rw [if_pos hlast]
        split
        · rfl
        · split
          · rfl
          · rfl
      · rw [if_pos htag]
    · have hentry : entry ∈ s.blRequestList := by
        rw [hlist]
        exact mem_append_right _ mem_cons_self
      have hout : s.Outstanding irq.number := by
        rw [← hnumber]
        exact mem_map_of_mem hentry
      rw [if_pos hout] at hsound
      have htag := (h.irqs irq (hin irq mem_cons_self)).2 entry hentry hnumber
      have hfirst : entry.blTag ∉ before.map (·.blTag) := by
        have hdistinct := h.distinct
        rw [hlist, map_append, map_cons] at hdistinct
        intro hmem
        exact (nodup_append.mp hdistinct).2.2 _ hmem _ mem_cons_self rfl
      have hsome : s.blRequestList ≠ [] := ne_nil_of_mem hentry
      rw [← htag] at hsound ⊢
      unfold BlFifo.work
      rw [if_neg (h.tagged entry hentry), if_neg hsome, if_neg hsound, hlist, upToTag_eq hfirst]

/-- As long as the interrupts are told from one another, the completions are exact. -/
theorem exact_of_sound (core : Core) {events : List CdmEvent}
    (hsound : (completions core).Meets (sound core) BlFifo.start events) :
    Exact core ((completions core).run BlFifo.start events).2
        ((completions core).run BlFifo.start events).1 ∧
      (completions core).Meets (ReportsUpTo core) BlFifo.start events := by
  have htracked := (completions core).history_of_meets (I := fun _ outs s => Tracked core outs s)
    (fun _ _ _ _ h hc => h.step hc) (tracked_start core) hsound
  refine ⟨htracked.exact, ?_⟩
  exact (completions core).meets_of_invariant (I := fun s => ∃ outs, Tracked core outs s)
    (fun s e ⟨outs, h⟩ hc => ⟨_, h.step hc⟩) (fun s e ⟨outs, h⟩ hc => reportsUpTo_of_sound h hc)
    ⟨[], tracked_start core⟩ hsound

def roundRobin : Core := ⟨.roundRobin, 64, by decide, 0x1000, 2⟩

def priority : Core := ⟨.priorityBased, 64, by decide, 0x1000, 2⟩

/-- A request of `n` commands, each in a buffer that `cam_mem_get_cpu_buf` answers `cpuBuf` for,
while the hardware removes what it has. -/
def bufferedCmds (n : ℕ) (cpuBuf : ℤ × ℕ) : Submission :=
  ⟨⟨1, .memHandle, false, replicate n ⟨1, 0, 16, false, false, some (0x100, 16), cpuBuf⟩⟩,
    [⟨64, false⟩]⟩

/-- The interrupts of the first two of three requests come as one, the third request is reset. -/
def mergedIrqs : List CdmEvent :=
  [.submit 1 0 (bufferedCmds 1 (0, 0x200)), .submit 1 1 (bufferedCmds 2 (0, 0x200)),
    .submit 1 2 (bufferedCmds 1 (0, 0x200)), .work 1, .reset none]

theorem mergedIrqs_exact :
    Exact roundRobin ((completions roundRobin).run BlFifo.start mergedIrqs).2
        ((completions roundRobin).run BlFifo.start mergedIrqs).1 ∧
      (completions roundRobin).Meets (ReportsUpTo roundRobin) BlFifo.start mergedIrqs :=
  exact_of_sound roundRobin (by decide)

/-- Without its buffer the request fails and is in the list. On a FIFO of four entries two
requests of two commands have the same tag, and the second one is not reported. -/
theorem unfoundBuffer_not_exact :
    ¬Exact priority
        ((completions priority).run BlFifo.start [.submit 1 0 (bufferedCmds 1 (-einval, 0))]).2
        ((completions priority).run BlFifo.start [.submit 1 0 (bufferedCmds 1 (-einval, 0))]).1 ∧
      ¬(completions { roundRobin with blDepth := 4, blDepth_lt := by decide }).Meets
        (ReportsUpTo { roundRobin with blDepth := 4, blDepth_lt := by decide }) BlFifo.start
        [.submit 1 0 (bufferedCmds 2 (0, 0x200)), .work 0, .submit 1 1 (bufferedCmds 2 (0, 0x200)),
          .work 0] := by
  constructor
  · intro hexact
    have hlist := hexact.list
    revert hlist
    decide
  · intro hmeets
    have hstep := hmeets.2.2.2.1.2 [] ⟨1, 1, 1, 2⟩ []
    revert hstep
    decide

end KernelModules.Cdm
