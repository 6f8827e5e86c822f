import KernelModules.CdmFifo

/-!
# The budget of a submission and the free entries

A look at the FIFO grants a budget: the free entries but one when the commands left are fewer,
and otherwise the commands left over, which bears no relation to what is free. A command is
charged twice, and the FIFO is looked at again only when the budget is exactly zero.

Whatever is granted, a request that commits no more than the entries free at its start finds an
entry for each commit. A look waits until two entries are free; and where a request commits once for
each command and has one too many, it is granted two, which is one command, and looks again.
-/

namespace KernelModules.Cdm

section Condition

variable (core : Core)

/-- How many entries the commands of a request take, up to one that fails its checks. -/
def toCommit (req : BlRequest) : List BlCmd → ℕ
  | [] => 0
  | cmd :: rest =>
    if (req.hwVaddr cmd).isSome then
      (if core.genIrqInSameBl req rest then 0 else 1) + (if cmd.enableDebugGenIrq then 1 else 0) +
        if req.flag = 1 ∧ rest = [] then 1 else toCommit req rest
    else 0

/-- Each command passes its checks and takes one entry: there is no interrupt for debugging, and a
final interrupt goes into the entry of the last command. -/
def Plain (req : BlRequest) (cmds : List BlCmd) : Prop :=
  (req.flag = 1 → core.arbitration = .priorityBased) ∧
    ∀ cmd ∈ cmds, (req.hwVaddr cmd).isSome ∧ ¬cmd.enableDebugGenIrq
deriving Decidable

/-- The FIFO has room when the request starts, and the request takes no more than there is, where
two entries are there for it in any case. -/
def fits (s : Fifo) (sub : Submission) : Prop :=
  (core.blDepth < 2 ^ 31 ∧ sub.req.cmd.length < 2 ^ 31) ∧
    (sub.req.cmd = [] ∨ 0 < core.free s) ∧
    (toCommit core sub.req sub.req.cmd ≤ max (core.free s) 2 ∨
      Plain core sub.req sub.req.cmd ∧ sub.req.cmd.length ≤ max (core.free s) 2 + 1)
deriving Decidable

end Condition

variable {core : Core} {s t : Fifo} {w w' rc : ℤ} {k left v : ℕ} {exact : Prop}
variable {req : BlRequest} {cmd : BlCmd} {rest : List BlCmd} {sub : Submission}

theorem toCommit_pos (core : Core) (rest : List BlCmd) (hvalid : (req.hwVaddr cmd).isSome) :
    0 < toCommit core req (cmd :: rest) := by
  rw [toCommit, if_pos hvalid]
  by_cases hsame : core.genIrqInSameBl req rest = true
  · have hlast : core.arbitration = .priorityBased ∧ req.flag = 1 ∧ rest = [] :=
      of_decide_eq_true hsame
    rw [if_pos hlast.2]
    omega
  · rw [if_neg hsame]
    omega

theorem toCommit_plain {cmds : List BlCmd} (h : Plain core req cmds) :
    toCommit core req cmds = cmds.length := by
  induction cmds with
  | nil => rfl
  | cons cmd rest ih =>
    obtain ⟨hfinal, hcmds⟩ := h
    obtain ⟨⟨hvalid, hdebug⟩, hrest⟩ := List.forall_mem_cons.mp hcmds
    rw [toCommit, if_pos hvalid, if_neg hdebug, List.length_cons]
    by_cases hlast : req.flag = 1 ∧ rest = []
    · have hsame : core.genIrqInSameBl req rest = true := decide_eq_true ⟨hfinal hlast.1, hlast⟩
      rw [if_pos hsame, if_pos hlast, hlast.2]
      rfl
    · have hsame : ¬core.genIrqInSameBl req rest = true := fun hsame =>
        hlast (of_decide_eq_true hsame).2
      rw [if_neg hsame, if_neg hlast, ih ⟨hfinal, hrest⟩]
      omega

theorem cast_free (hle : s.entries.length ≤ core.blDepth) :
    (core.blDepth : ℤ) - s.entries.length = core.free s := by
  unfold Core.free
  omega

theorem free_le_blDepth (core : Core) (s : Fifo) : core.free s ≤ core.blDepth := Nat.sub_le ..

/-- What a look comes back with: two entries are free, and where the commands left are no fewer
than all of them but one, what is left over is granted. -/
structure Granted (core : Core) (k : ℕ) (w : ℤ) (t : Fifo) : Prop where
  two : 2 ≤ core.free t
  leftOver : core.free t ≤ k + 1 → w = k - (core.free t - 1)

theorem waitLoop_spec {fuel : ℕ} (rc : ℤ) (hdepth : core.blDepth < 2 ^ 31) (hk : k < 2 ^ 31)
    (hfuel : s.script.length < fuel) (hle : s.entries.length ≤ core.blDepth) :
    (0 < core.free s → (core.waitLoop k fuel rc s).1 < 0 →
        s.faults < (core.waitLoop k fuel rc s).2.faults) ∧
      (0 ≤ (core.waitLoop k fuel rc s).1 →
        Granted core k (core.waitLoop k fuel rc s).1 (core.waitLoop k fuel rc s).2) := by
  induction fuel generalizing s rc with
  | zero => omega
  | succ fuel ih =>
    obtain ⟨hread, hfailed, hpending⟩ := pendingBlRbInFifo_spec s
    rw [Core.waitLoop]
    rcases hr : s.pendingBlRbInFifo with ⟨_ | pendingBl, t⟩
    · rw [hr] at hread hfailed
      exact ⟨fun _ _ => hfailed rfl, fun h => absurd (by decide : -eio < 0) (not_lt.mpr h)⟩
    rw [hr] at hread hpending
    change Drains s t at hread
    obtain rfl : pendingBl = t.entries.length := hpending pendingBl rfl
    have htle : t.entries.length ≤ core.blDepth := hread.entries.trans hle
    have hfree := free_le_blDepth core t
    have hmono : core.free s ≤ core.free t := hread.free_le core
    have havail : Int.bmod (core.free t : ℤ) (2 ^ 32) = core.free t :=
      Int.bmod_eq_of_le (by omega) (by omega)
    simp only [cast_free htle, havail]
    rw [if_neg (by omega)]
    by_cases hfew : (k : ℤ) % 2 ^ 32 < ((core.free t : ℤ) - 1) % 2 ^ 32
    · rw [if_pos hfew]
      refine ⟨fun hroom hneg => ?_, fun hnonneg => ⟨?_, fun hover => ?_⟩⟩
      all_goals
        dsimp only at *
        omega
    rw [if_neg hfew]
    by_cases hone : (core.free t : ℤ) - 1 = 0
    · rw [if_pos hone]
      obtain ⟨hwait, hless⟩ := awaitBlDone_quiet t
      generalize t.awaitBlDone = r at hwait hless
      rcases r with ⟨_ | _, u⟩
      · have hd := hread.trans hwait.toDrains
        have hscript := hread.script.length_le
        obtain ⟨hfaults, hgranted⟩ := ih (s := u) 1
          (lt_of_lt_of_le (hless rfl) (by omega)) (hd.entries.trans hle)
        refine ⟨fun hroom hneg => ?_, hgranted⟩
        exact lt_of_le_of_lt hd.faults (hfaults (hroom.trans_le (hd.free_le core)) hneg)
      · have hwait' := hwait.after hread
        exact ⟨fun _ _ => hwait'.failed rfl, fun h => absurd (by decide : -eio < 0) (not_lt.mpr h)⟩
    · rw [if_neg hone]
      have hover : Int.bmod ((k : ℤ) - (core.free t - 1)) (2 ^ 32) = k - (core.free t - 1) :=
        Int.bmod_eq_of_le (by omega) (by omega)
      rw [hover]
      have htwo : 2 ≤ core.free t := by omega
      refine ⟨fun _ hneg => ?_, fun _ => ⟨htwo, fun _ => rfl⟩⟩
      dsimp only at hneg
      omega

theorem topUp_spec (hdepth : core.blDepth < 2 ^ 31) (hk : k < 2 ^ 31)
    (hle : s.entries.length ≤ core.blDepth) :
    ((core.topUp k w s).1 = none → 0 < core.free s →
        s.faults < (core.topUp k w s).2.faults) ∧
      ∀ w' ∈ (core.topUp k w s).1, w ≠ 0 ∧ w' = w ∨ Granted core k w' (core.topUp k w s).2 := by
  unfold Core.topUp
  by_cases hw : w = 0
  · rw [if_pos hw]
    obtain ⟨hfaults, hgranted⟩ := waitLoop_spec (-eio) hdepth hk
      (Nat.lt_succ_self s.script.length) hle
    rw [← Core.waitForBlFifo] at hfaults hgranted
    generalize core.waitForBlFifo k s = r at hfaults hgranted
    obtain ⟨left, t⟩ := r
    by_cases hneg : left < 0
    · simp only [if_pos hneg]
      exact ⟨fun _ hroom => hfaults hroom hneg, fun w' hw' => by cases hw'⟩
    · simp only [if_neg hneg]
      refine ⟨fun hnone => (by cases hnone), fun w' hw' => ?_⟩
      obtain rfl := Option.some.inj hw'
      exact .inr (hgranted (not_lt.mp hneg))
  · rw [if_neg hw]
    refine ⟨fun hnone => (by cases hnone), fun w' hw' => ?_⟩
    exact .inl ⟨hw, (Option.some.inj hw').symm⟩

/-- Every commit so far has found a free entry. -/
structure Sound (core : Core) (s : Fifo) : Prop where
  le : s.entries.length ≤ core.blDepth
  free : ∀ n ∈ s.commits, 0 < n

/-- There is room for what is `left` to commit, or the FIFO is looked at next. -/
structure Ready (core : Core) (exact : Prop) (left : ℕ) (w : ℤ) (s : Fifo) : Prop extends
    Sound core s where
  room : left ≤ core.free s ∨ w = 0 ∧ 0 < core.free s ∧
    (left ≤ max (core.free s) 2 ∨ exact ∧ left ≤ max (core.free s) 2 + 1)

/-- There is room for what is `left` to commit, or a command too many and a budget of one. -/
structure Armed (core : Core) (exact : Prop) (left : ℕ) (w : ℤ) (s : Fifo) : Prop extends
    Sound core s where
  room : left ≤ core.free s ∨ exact ∧ 2 ≤ core.free s ∧ left = core.free s + 1 ∧ w = 2

theorem Sound.drains (hs : Sound core s) (h : Drains s t) : Sound core t :=
  ⟨h.entries.trans hs.le, h.commits.symm ▸ hs.free⟩

theorem Ready.drains (hs : Ready core exact left w s) (h : Drains s t) :
    Ready core exact left w t := by
  have hfree := h.free_le core
  refine ⟨hs.toSound.drains h, ?_⟩
  rcases hs.room with hroom | ⟨hw, hpos, hroom | ⟨hexact, hroom⟩⟩
  · exact .inl (by omega)
  · exact .inr ⟨hw, by omega, .inl (by omega)⟩
  · exact .inr ⟨hw, by omega, .inr ⟨hexact, by omega⟩⟩

theorem Armed.drains (hs : Armed core exact left w s) (h : Drains s t) :
    Armed core exact left w t := by
  have hfree := h.free_le core
  refine ⟨hs.toSound.drains h, ?_⟩
  rcases hs.room with hroom | ⟨hexact, htwo, hleft, hw⟩
  · exact .inl (by omega)
  · by_cases hsame : left ≤ core.free t
    · exact .inl hsame
    · exact .inr ⟨hexact, by omega, by omega, hw⟩

/-- The tag does not matter. -/
theorem Ready.tag (hs : Ready core exact left w s) (tag : ℕ) :
    Ready core exact left w { s with blTag := tag } := ⟨⟨hs.le, hs.free⟩, hs.room⟩

theorem Ready.resetTag (hs : Ready core exact left w s) :
    Ready core exact left w (core.resetTag s) := by
  rw [resetTag_eq]
  exact hs.tag _

theorem Armed.resetTag (hs : Armed core exact left w s) :
    Armed core exact left w (core.resetTag s) := by
  rw [resetTag_eq]
  exact ⟨⟨hs.le, hs.free⟩, hs.room⟩

theorem Ready.topUp (hs : Ready core exact left w s) (hdepth : core.blDepth < 2 ^ 31)
    (hk : k < 2 ^ 31) (hasks : exact → k = left) :
    Sound core (core.topUp k w s).2 ∧ s.faults ≤ (core.topUp k w s).2.faults ∧
      ((core.topUp k w s).1 = none → 0 < left → s.faults < (core.topUp k w s).2.faults) ∧
      ∀ w' ∈ (core.topUp k w s).1, Armed core exact left w' (core.topUp k w s).2 := by
  obtain ⟨hnone, hsome⟩ := topUp_spec (w := w) hdepth hk hs.le
  have hd := topUp_drains core k w s
  have hfree := hd.free_le core
  refine ⟨hs.toSound.drains hd, hd.faults, fun hr hpos => hnone hr ?_, fun w' hw' => ?_⟩
  · rcases hs.room with hroom | ⟨-, hroom, -⟩
    · omega
    · exact hroom
  refine ⟨hs.toSound.drains hd, ?_⟩
  rcases hs.room with hroom | ⟨hw, -, hroom⟩
  · exact .inl (by omega)
  rcases hsome w' hw' with ⟨hne, -⟩ | ⟨htwo, hover⟩
  · exact absurd hw hne
  rcases hroom with hroom | ⟨hexact, hroom⟩
  · exact .inl (by omega)
  · by_cases hsame : left ≤ core.free (core.topUp k w s).2
    · exact .inl hsame
    · have hleft : left = core.free (core.topUp k w s).2 + 1 := by omega
      have hall := hasks hexact
      have hgranted := hover (by omega)
      exact .inr ⟨hexact, htwo, hleft, by omega⟩

theorem store_free (hroom : 0 < core.free s) : core.free (core.store s) = core.free s - 1 := by
  have hlt : s.entries.length < core.blDepth := Nat.lt_of_sub_pos hroom
  unfold Core.free Core.store
  rw [if_pos hlt, List.length_append, List.length_singleton]
  omega

theorem Sound.store (hs : Sound core s) (hroom : 0 < core.free s) : Sound core (core.store s) := by
  have hlt : s.entries.length < core.blDepth := Nat.lt_of_sub_pos hroom
  constructor
  · unfold Core.store
    rw [if_pos hlt, List.length_append, List.length_singleton]
    omega
  · intro n hn
    rcases List.mem_append.mp hn with hn | hn
    · exact hs.free n hn
    · rw [List.mem_singleton.mp hn]
      exact hroom

/-- A commit takes a free entry, and pays with the budget where that is what the room is for. -/
theorem Armed.commit (hs : Armed core exact (left + 1) w s) :
    Sound core (core.commitBlWrite s).2 ∧ s.faults ≤ (core.commitBlWrite s).2.faults ∧
      ((core.commitBlWrite s).1 = true → s.faults < (core.commitBlWrite s).2.faults ∧
        Armed core exact (left + 1) w (core.commitBlWrite s).2) ∧
      ((core.commitBlWrite s).1 = false →
        Ready core exact left (w - 2) (core.commitBlWrite s).2 ∧
          (¬exact → left ≤ core.free (core.commitBlWrite s).2)) := by
  obtain ⟨u, hd, ⟨hcommit, hfaults, -⟩ | hcommit⟩ := commitBlWrite_cases core s
  all_goals
    have hu := hs.drains hd
    rw [hcommit]
  · exact ⟨hu.toSound, hd.faults, fun _ => ⟨hfaults, hu⟩, fun hr => by cases hr⟩
  · have hpos : 0 < core.free u := by
      rcases hu.room with hroom | ⟨-, hroom, -⟩ <;> omega
    have hstore := hu.toSound.store hpos
    have hfree := store_free hpos
    refine ⟨hstore, hd.faults, fun hr => (by cases hr), fun _ => ⟨⟨hstore, ?_⟩, fun hnot => ?_⟩⟩
    · rw [hfree]
      rcases hu.room with hroom | ⟨hexact, htwo, hleft, hw⟩
      · exact .inl (by omega)
      · exact .inr ⟨by omega, by omega, .inr ⟨hexact, by omega⟩⟩
    · rcases hu.room with hroom | ⟨hexact, -⟩
      · dsimp only
        omega
      · exact absurd hexact hnot

theorem Armed.writeCmd (cmd : BlCmd) (v : ℕ)
    (hs : Armed core exact (left + if core.genIrqInSameBl req rest then 0 else 1) w s)
    (hlast : core.genIrqInSameBl req rest → exact → left ≤ 1) :
    Sound core (core.writeCmd req cmd rest v w s).2 ∧
      s.faults ≤ (core.writeCmd req cmd rest v w s).2.faults ∧
      ((core.writeCmd req cmd rest v w s).1 = none →
        s.faults < (core.writeCmd req cmd rest v w s).2.faults) ∧
      ∀ w' ∈ (core.writeCmd req cmd rest v w s).1,
        Ready core exact left w' (core.writeCmd req cmd rest v w s).2 := by
  unfold Core.writeCmd
  cases hsame : core.genIrqInSameBl req rest with
  | true =>
    rw [hsame] at hs
    have hroom : left ≤ core.free s := by
      rcases hs.room with hroom | ⟨hexact, htwo, hleft, -⟩
      · exact hroom
      · have hle := hlast hsame hexact
        change left = core.free s + 1 at hleft
        omega
    have hready : ∀ w', Ready core exact left w' s.nextTag := fun w' =>
      ⟨⟨hs.le, hs.free⟩, .inl hroom⟩
    exact ⟨(hready w).toSound, le_rfl, fun hr => (by cases hr), fun w' _ => hready w'⟩
  | false =>
    rw [hsame] at hs
    have hwrite := blWrite_quiet (v + cmd.offset) ((cmd.len + 2 ^ 32 - 1) % 2 ^ 32) s.blTag
      cmd.arbitrate s
    have ht := hs.drains hwrite.toDrains
    generalize s.blWrite _ _ _ _ = r at hwrite ht
    rcases r with ⟨_ | _, t⟩
    · obtain ⟨hsound, hmono, hfailed, hstored⟩ := ht.commit
      have hmono' := hwrite.faults
      dsimp only at hmono'
      dsimp only
      generalize core.commitBlWrite t = r at hsound hmono hfailed hstored
      rcases r with ⟨_ | _, u⟩
      · have hu := (hstored rfl).1.tag ((u.blTag + 1) % 2 ^ 8)
        have hcost : w - 2 = w - 1 - 1 := by omega
        rw [hcost] at hu
        refine ⟨hu.toSound, hmono'.trans hmono, fun hr => (by cases hr), fun w' hw' => ?_⟩
        exact Option.some.inj hw' ▸ hu
      · refine ⟨hsound, hmono'.trans hmono, fun _ => lt_of_le_of_lt hmono' (hfailed rfl).1, ?_⟩
        intro w' hw'
        cases hw'
    · exact ⟨ht.toSound, hwrite.faults, fun _ => hwrite.failed rfl, fun w' hw' => by cases hw'⟩

theorem Armed.submitDebugGenIrq (hs : Armed core exact (left + 1) w s) (hnot : ¬exact) (w' : ℤ) :
    Ready core exact left w' (core.submitDebugGenIrq s).2 ∧
      s.faults ≤ (core.submitDebugGenIrq s).2.faults ∧
      ((core.submitDebugGenIrq s).1 ≠ 0 → s.faults < (core.submitDebugGenIrq s).2.faults) := by
  have hfew : ∀ {t}, Armed core exact (left + 1) w t → Ready core exact left w' t := fun ht => by
    refine ⟨ht.toSound, .inl ?_⟩
    rcases ht.room with hroom | ⟨hexact, -⟩
    · omega
    · exact absurd hexact hnot
  have hwrite := blWrite_quiet (core.genIrqVaddr + 4 * core.genIrqLen s)
    ((4 * core.requiredSizeGenirq + 2 ^ 32 - 1) % 2 ^ 32) s.blTag false s
  change Quiet s (core.writeGenIrq false s) at hwrite
  have ht := hs.drains hwrite.toDrains
  unfold Core.submitDebugGenIrq
  generalize core.writeGenIrq false s = r at hwrite ht
  rcases r with ⟨_ | _, t⟩
  · obtain ⟨hsound, hmono, hfailed, hstored⟩ := ht.commit
    have hmono' := hwrite.faults
    dsimp only at hmono'
    dsimp only
    generalize core.commitBlWrite t = r at hsound hmono hfailed hstored
    rcases r with ⟨_ | _, u⟩
    · exact ⟨⟨hsound, .inl ((hstored rfl).2 hnot)⟩, hmono'.trans hmono, fun hne => absurd rfl hne⟩
    · obtain ⟨hless, harmed⟩ := hfailed rfl
      exact ⟨hfew harmed, hmono'.trans hmono, fun _ => lt_of_le_of_lt hmono' hless⟩
  · exact ⟨hfew ht, hwrite.faults, fun _ => hwrite.failed rfl⟩

theorem Ready.debugGenIrq (hdepth : core.blDepth < 2 ^ 31)
    (hs : Ready core exact (left + if cmd.enableDebugGenIrq then 1 else 0) w s)
    (hnot : cmd.enableDebugGenIrq → ¬exact) :
    Sound core (core.debugGenIrq cmd w s).2 ∧ s.faults ≤ (core.debugGenIrq cmd w s).2.faults ∧
      ((core.debugGenIrq cmd w s).1 = none → s.faults < (core.debugGenIrq cmd w s).2.faults) ∧
      ∀ p ∈ (core.debugGenIrq cmd w s).1,
        Ready core exact left p.2 (core.debugGenIrq cmd w s).2 ∧
          (p.1 ≠ 0 → s.faults < (core.debugGenIrq cmd w s).2.faults) := by
  unfold Core.debugGenIrq
  by_cases hdebug : cmd.enableDebugGenIrq = true
  · rw [if_pos hdebug] at hs ⊢
    obtain ⟨ht, hmono, hnone, harmed⟩ := hs.topUp (k := 1) hdepth (by decide)
      fun hexact => absurd hexact (hnot hdebug)
    generalize core.topUp 1 w s = r at ht hmono hnone harmed
    rcases r with ⟨_ | w', t⟩
    · exact ⟨ht, hmono, fun _ => hnone rfl (Nat.succ_pos left), fun p hp => by cases hp⟩
    · have hu := fun w'' => (harmed w' rfl).submitDebugGenIrq (hnot hdebug) w''
      dsimp only at hmono ⊢
      generalize core.submitDebugGenIrq t = r at hu
      obtain ⟨rc, u⟩ := r
      obtain ⟨-, hmono', hfailed⟩ := hu 0
      dsimp only at hu hmono' hfailed
      have hfaults : ∀ x : Fifo, (core.resetTag x).faults = x.faults := fun x => by
        rw [resetTag_eq]
      by_cases hrc : rc = 0
      · simp only [if_pos hrc]
        have hready := ((hu (w' - 1)).1.tag ((u.blTag + 1) % 2 ^ 8)).resetTag
        have hsame : (core.resetTag u.nextTag).faults = u.faults := hfaults u.nextTag
        refine ⟨hready.toSound, ?_, fun hr => (by cases hr), fun p hp => ?_⟩
        · rw [hsame]
          exact hmono.trans hmono'
        · obtain rfl := Option.some.inj hp
          exact ⟨hready, fun hne => absurd hrc hne⟩
      · simp only [if_neg hrc]
        have hready := (hu w').1.resetTag
        rw [hfaults u]
        refine ⟨hready.toSound, hmono.trans hmono', fun hr => (by cases hr), fun p hp => ?_⟩
        obtain rfl := Option.some.inj hp
        exact ⟨hready, fun _ => lt_of_le_of_lt hmono (hfailed hrc)⟩
  · rw [if_neg hdebug] at hs ⊢
    refine ⟨hs.toSound, le_rfl, fun hr => (by cases hr), fun p hp => ?_⟩
    obtain rfl := Option.some.inj hp
    exact ⟨hs, fun hne => absurd rfl hne⟩

/-- What is known behind the final interrupt: it is reported as failed with -EIO only where
something has failed. -/
structure Ended (core : Core) (found : Prop) (s : Fifo) (r : ℤ × Fifo) : Prop extends
    Sound core r.2 where
  faults : s.faults ≤ r.2.faults
  failed : found → r.1 = -eio → s.faults < r.2.faults

theorem Ended.after {found : Prop} {r : ℤ × Fifo} (h : Ended core found t r)
    (hst : s.faults ≤ t.faults) : Ended core found s r :=
  ⟨h.toSound, hst.trans h.faults, fun hfound hr => lt_of_le_of_lt hst (h.failed hfound hr)⟩

/-- A write and a commit, behind which nothing is left. -/
theorem Armed.writeAndCommit {found : Prop} {r : Bool × Fifo} (hs : Armed core exact 1 w s) :
    Quiet s r → Ended core found s (match r with
      | (true, t) => (-eio, t)
      | (false, t) =>
        match core.commitBlWrite t with
        | (true, t) => (-eio, t)
        | (false, t) => (0, t)) := by
  rcases r with ⟨_ | _, t⟩
  · intro hwrite
    obtain ⟨hsound, hmono, hfailed, -⟩ := (hs.drains hwrite.toDrains).commit
    have hmono' := hwrite.faults
    dsimp only at hmono' ⊢
    generalize core.commitBlWrite t = r at hsound hmono hfailed
    rcases r with ⟨_ | _, u⟩
    · exact ⟨hsound, hmono'.trans hmono, fun _ hr => absurd hr (by decide : (0 : ℤ) ≠ -eio)⟩
    · exact ⟨hsound, hmono'.trans hmono, fun _ _ => lt_of_le_of_lt hmono' (hfailed rfl).1⟩
  · intro hwrite
    exact ⟨(hs.drains hwrite.toDrains).toSound, hwrite.faults, fun _ _ => hwrite.failed rfl⟩

theorem Armed.submitGenIrq (req : BlRequest) (hs : Armed core exact 1 w s) :
    Ended core True s (core.submitGenIrq req s) := by
  unfold Core.submitGenIrq
  split
  · exact ⟨hs.toSound, le_rfl, fun _ hr => absurd hr (by decide : -einval ≠ -eio)⟩
  have hbeat := beat_quiet s
  generalize s.beat = r at hbeat
  rcases r with ⟨_ | _, t⟩
  · have hwrite := blWrite_quiet (core.genIrqVaddr + 4 * core.genIrqLen t)
      ((4 * core.requiredSizeGenirq + 2 ^ 32 - 1) % 2 ^ 32) t.blTag req.genIrqArb t
    exact ((hs.drains hbeat.toDrains).writeAndCommit hwrite).after hbeat.faults
  · exact ⟨hs.toSound.drains hbeat.toDrains, hbeat.faults,
      fun _ hr => absurd hr (by decide : -enomem ≠ -eio)⟩

theorem Armed.arbSubmitBl (hs : Armed core exact 1 w s) :
    Ended core (cmd.cpuBuf.1 ≠ -eio) s (core.arbSubmitBl cmd v s) := by
  unfold Core.arbSubmitBl
  have hbeat := beat_quiet s
  generalize s.beat = r at hbeat
  rcases r with ⟨_ | _, t⟩
  · dsimp only
    split
    · exact ⟨hs.toSound.drains hbeat.toDrains, hbeat.faults, fun hfound hr => absurd hr hfound⟩
    · have hwrite := blWrite_quiet (v + cmd.offset) (cmd.len + 7)
        ((t.blTag + 2 ^ 32 - 1) % 2 ^ 32) true t
      exact ((hs.drains hbeat.toDrains).writeAndCommit hwrite).after hbeat.faults
  · exact ⟨hs.toSound.drains hbeat.toDrains, hbeat.faults,
      fun _ hr => absurd hr (by decide : -enomem ≠ -eio)⟩

theorem Ready.finalGenIrq (req : BlRequest) (cmd : BlCmd) (v : ℕ)
    (hdepth : core.blDepth < 2 ^ 31) (hs : Ready core exact 1 w s) :
    Ended core (cmd.cpuBuf.1 ≠ -eio) s (core.finalGenIrq req cmd v w s) := by
  obtain ⟨ht, hmono, hnone, harmed⟩ := hs.topUp (k := 1) hdepth (by decide) fun _ => rfl
  unfold Core.finalGenIrq
  generalize core.topUp 1 w s = r at ht hmono hnone harmed
  rcases r with ⟨_ | w', t⟩
  · exact ⟨ht, hmono, fun _ _ => hnone rfl one_pos⟩
  have harmed' := harmed w' rfl
  dsimp only
  by_cases hpriority : core.arbitration = .priorityBased
  · rw [if_pos hpriority]
    exact harmed'.arbSubmitBl.after hmono
  · rw [if_neg hpriority]
    obtain ⟨hu, hmono', hfailed⟩ := (harmed'.submitGenIrq req).after hmono
    split
    · exact ⟨⟨hu.le, hu.free⟩, hmono', fun _ hr => hfailed trivial hr⟩
    · exact ⟨hu, hmono', fun _ hr => hfailed trivial hr⟩

theorem Ready.submitCmds {cmds : List BlCmd} (hdepth : core.blDepth < 2 ^ 31)
    (hlen : cmds.length < 2 ^ 31) (hplain : exact → Plain core req cmds)
    (hs : Ready core exact (toCommit core req cmds) w s) (hrc : rc = -eio → 0 < s.faults) :
    Sound core (core.submitCmds req cmds rc w s).2 ∧
      ((∀ cmd ∈ cmds, (req.hwVaddr cmd).isSome ∧ cmd.cpuBuf.1 ≠ -eio) →
        (core.submitCmds req cmds rc w s).1 = -eio →
          0 < (core.submitCmds req cmds rc w s).2.faults) := by
  induction cmds generalizing s w rc with
  | nil => exact ⟨hs.toSound, fun _ => hrc⟩
  | cons cmd rest ih =>
    rw [List.length_cons] at hlen
    have hasks : exact → rest.length + 1 = toCommit core req (cmd :: rest) := fun hexact =>
      (toCommit_plain (hplain hexact)).symm
    unfold Core.submitCmds
    split
    · exact ⟨hs.toSound, fun _ hr => absurd hr (by decide : -einval ≠ -eio)⟩
    have hbeat := beat_quiet s
    generalize s.beat = r at hbeat
    rcases r with ⟨_ | _, t⟩
    on_goal 2 =>
      exact ⟨hs.toSound.drains hbeat.toDrains, fun _ hr => absurd hr (by decide : -eagain ≠ -eio)⟩
    dsimp only
    obtain ⟨ht, hmono, hnone, harmed⟩ := (hs.drains hbeat.toDrains).topUp hdepth hlen hasks
    dsimp only at ht hmono hnone harmed
    generalize core.topUp (rest.length + 1) w t = r at ht hmono hnone harmed
    rcases r with ⟨_ | w', u⟩
    · refine ⟨ht, fun hchecked _ => ?_⟩
      have hpos := toCommit_pos core rest (hchecked cmd List.mem_cons_self).1
      exact Nat.zero_lt_of_lt (hnone rfl hpos)
    cases hvalid : req.hwVaddr cmd with
    | none => exact ⟨ht, fun _ hr => absurd hr (by decide : -einval ≠ -eio)⟩
    | some hwVaddr =>
      have harmed' := harmed w' rfl
      -- What the command takes itself, its interrupt for debugging, and what is behind it.
      have hsplit : toCommit core req (cmd :: rest) =
          ((if req.flag = 1 ∧ rest = [] then 1 else toCommit core req rest) +
            if cmd.enableDebugGenIrq then 1 else 0) +
              if core.genIrqInSameBl req rest then 0 else 1 := by
        rw [toCommit, if_pos (by rw [hvalid]; rfl)]
        omega
      have hdebug : cmd.enableDebugGenIrq → ¬exact := fun hdebug hexact =>
        ((hplain hexact).2 cmd List.mem_cons_self).2 hdebug
      rw [hsplit] at harmed'
      obtain ⟨hwrite, -, hfailed, hready⟩ := harmed'.resetTag.writeCmd cmd hwVaddr
        fun hsame hexact => by
          have hlast : core.arbitration = .priorityBased ∧ req.flag = 1 ∧ rest = [] :=
            of_decide_eq_true hsame
          rw [if_pos hlast.2, if_neg fun h => hdebug h hexact]
      dsimp only
      generalize core.writeCmd req cmd rest hwVaddr w' (core.resetTag u) = r at hwrite hfailed hready
      rcases r with ⟨_ | w₁, v⟩
      · exact ⟨hwrite, fun _ _ => Nat.zero_lt_of_lt (hfailed rfl)⟩
      obtain ⟨hirq, -, hlost, hnext⟩ := (hready w₁ rfl).debugGenIrq hdepth hdebug
      dsimp only
      generalize core.debugGenIrq cmd w₁ v = r at hirq hlost hnext
      rcases r with ⟨_ | ⟨rc, w₂⟩, x⟩
      · exact ⟨hirq, fun _ _ => Nat.zero_lt_of_lt (hlost rfl)⟩
      obtain ⟨hgo, hzero⟩ := hnext (rc, w₂) rfl
      have hrc' : rc = -eio → 0 < x.faults := fun hrc =>
        Nat.zero_lt_of_lt (hzero (by
          dsimp only
          rw [hrc]
          decide))
      dsimp only at hgo ⊢
      by_cases hlast : req.flag = 1 ∧ rest = []
      · rw [if_pos hlast] at hgo
        by_cases hrc : rc = 0
        · rw [if_pos ⟨hrc, hlast⟩]
          have hended := hgo.finalGenIrq req cmd hwVaddr hdepth
          refine ⟨hended.toSound, fun hchecked hr => ?_⟩
          exact Nat.zero_lt_of_lt (hended.failed (hchecked cmd List.mem_cons_self).2 hr)
        · rw [if_neg fun h => hrc h.1, hlast.2]
          exact ⟨hirq, fun _ => hrc'⟩
      · rw [if_neg hlast] at hgo
        rw [if_neg fun h => hlast h.2]
        obtain ⟨hsound, hchecked⟩ := ih (by omega) (fun hexact =>
          ⟨(hplain hexact).1, fun c hc => (hplain hexact).2 c (List.mem_cons_of_mem _ hc)⟩) hgo hrc'
        exact ⟨hsound, fun h => hchecked fun c hc => h c (List.mem_cons_of_mem _ hc)⟩

theorem submitBl_nil (hcmd : req.cmd = [])
    (hs : Sound core s) : Sound core (core.submitBl req s).2 ∧
      ((core.submitBl req s).1 = -eio → s.faults < (core.submitBl req s).2.faults) := by
  unfold Core.submitBl
  have hbeat := beat_quiet s
  generalize s.beat = r at hbeat
  rcases r with ⟨_ | _, t⟩
  on_goal 2 =>
    exact ⟨hs.drains hbeat.toDrains, fun hr => absurd hr (by decide : -eagain ≠ -eio)⟩
  obtain ⟨hread, hnone, -⟩ := pendingBlRbInFifo_spec t
  have hu := hbeat.toDrains.trans hread
  dsimp only at hu ⊢
  generalize t.pendingBlRbInFifo = r at hread hnone hu
  rcases r with ⟨_ | n, u⟩
  · exact ⟨hs.drains hu, fun _ => lt_of_le_of_lt hbeat.faults (hnone rfl)⟩
  · rw [hcmd]
    exact ⟨hs.drains hu, fun hr => absurd hr (by decide : (0 : ℤ) ≠ -eio)⟩

theorem fits_submitBl (hle : s.entries.length ≤ core.blDepth) (hc : fits core s sub) :
    Sound core (core.submitBl sub.req (s.submitted sub.script)).2 ∧
      (sub.req.checked → (core.submitBl sub.req (s.submitted sub.script)).1 = -eio →
        0 < (core.submitBl sub.req (s.submitted sub.script)).2.faults) := by
  obtain ⟨⟨hdepth, hlen⟩, hcmd | hroom, hfits⟩ := hc
  · obtain ⟨hsound, hfaults⟩ := submitBl_nil hcmd
      (⟨hle, fun n hn => by cases hn⟩ : Sound core (s.submitted sub.script))
    exact ⟨hsound, fun _ => hfaults⟩
  have hs : Ready core (Plain core sub.req sub.req.cmd) (toCommit core sub.req sub.req.cmd) 0
      (s.submitted sub.script) := by
    refine ⟨⟨hle, fun n hn => (by cases hn)⟩, .inr ⟨rfl, hroom, ?_⟩⟩
    rcases hfits with hfits | ⟨hplain, hfits⟩
    · exact .inl hfits
    · exact .inr ⟨hplain, (toCommit_plain hplain).trans_le hfits⟩
  unfold Core.submitBl
  have hbeat := beat_quiet (s.submitted sub.script)
  generalize (s.submitted sub.script).beat = r at hbeat
  rcases r with ⟨_ | _, t⟩
  on_goal 2 =>
    exact ⟨hs.toSound.drains hbeat.toDrains,
      fun _ hr => absurd hr (by decide : -eagain ≠ -eio)⟩
  obtain ⟨hread, hnone, -⟩ := pendingBlRbInFifo_spec t
  have hu := hbeat.toDrains.trans hread
  dsimp only at hu ⊢
  generalize t.pendingBlRbInFifo = r at hnone hu
  rcases r with ⟨_ | n, u⟩
  · exact ⟨hs.toSound.drains hu, fun _ _ => Nat.zero_lt_of_lt (hnone rfl)⟩
  · exact (hs.drains hu).submitCmds hdepth hlen id fun hr => absurd hr (by decide : (0 : ℤ) ≠ -eio)

/-- In a run whose requests fit, each commit finds a free entry, and none is refused because the
FIFO is full. -/
theorem free_of_fits (core : Core) (run : List Submission)
    (hm : (cdm core).Meets (fits core) Fifo.start run) :
    ∀ o ∈ ((cdm core).run Fifo.start run).2, (∀ n ∈ o.commits, 0 < n) ∧ ¬o.refused := by
  have hrun := (cdm core).history_of_meets (C := fits core)
    (I := fun _ os s => s.entries.length ≤ core.blDepth ∧
      ∀ o ∈ os, (∀ n ∈ o.commits, 0 < n) ∧ ¬o.refused)
    (s := Fifo.start) ?_ ⟨Nat.zero_le _, fun o ho => by cases ho⟩ hm
  · exact hrun.2
  · rintro - os s sub ⟨hle, hos⟩ hc
    obtain ⟨hsound, hfaults⟩ := fits_submitBl hle hc
    refine ⟨hsound.le, fun o ho => ?_⟩
    rcases List.mem_append.mp ho with ho | ho
    · exact hos o ho
    · rw [show o = _ from List.mem_singleton.mp ho]
      refine ⟨hsound.free, fun ⟨hchecked, hrc, hnone⟩ => ?_⟩
      exact absurd hnone (hfaults (of_decide_eq_true hchecked) hrc).ne'

def smallCore : Core := ⟨.none, 4, four_lt, 0x1000, 3⟩

def plainCmd : BlCmd := ⟨0x100, 0, 16, false, false, none, 0, 0⟩

def plainCmds (n : ℕ) (flag : ℤ) (script : List Beat) : Submission :=
  ⟨⟨flag, .hwIova, false, List.replicate n plainCmd⟩, script⟩

/-- The second request has one command more than there are entries, and waits until the first one
is worked off; the third one asks for a final interrupt. -/
def fittingRun : List Submission :=
  [plainCmds 3 0 [], plainCmds 3 0 (List.replicate 6 ⟨0, false⟩ ++ [⟨3, false⟩]), plainCmds 1 1 []]

theorem fittingRun_free :
    (cdm smallCore).Meets (fits smallCore) Fifo.start fittingRun ∧
      ∀ o ∈ ((cdm smallCore).run Fifo.start fittingRun).2,
        (∀ n ∈ o.commits, 0 < n) ∧ ¬o.refused := by
  have hm : (cdm smallCore).Meets (fits smallCore) Fifo.start fittingRun := by decide
  exact ⟨hm, free_of_fits smallCore fittingRun hm⟩

/-- Twice the depth: the budget of five is charged two at a time and is never zero. -/
theorem twiceDepth_overruns :
    (∃ o ∈ ((cdm smallCore).run Fifo.start [plainCmds 8 0 []]).2, ¬∀ n ∈ o.commits, 0 < n) ∧
      ∃ o ∈ ((cdm smallCore).run Fifo.start [plainCmds 4 0 [], plainCmds 1 0 []]).2, o.refused := by
  decide

end KernelModules.Cdm
