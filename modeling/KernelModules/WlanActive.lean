import KernelModules.WlanBlocking

/-!
# The active commands of a pdev

A vdev has one active non-scan command at most, and a blocking command is active only while no
other one is. The first holds whatever is called. The second depends on the counter: the lookup
in the list of a vdev does not look for other active commands, because it is made only when no
blocking command is counted as waiting.
-/

namespace KernelModules.WlanSer

variable {m : ℕ}

namespace NonScan

variable {c : SerConfig m} {s : NonScan m}

/-- A blocking command is active alone, and the flag says whether one is active. -/
structure Exclusive (s : NonScan m) : Prop where
  alone : ∀ n ∈ s.pdevQ.list true, (s.pdevQ.cmd n).isBlocking = true → s.pdevQ.list true = [n]
  flag : s.pdevQ.blockingCmdActive = true ↔
    ∃ n ∈ s.pdevQ.list true, (s.pdevQ.cmd n).isBlocking = true

namespace Exclusive

theorem of_agree (hs : s.Exclusive) {t : NonScan m} (hlist : t.pdevQ.list true = s.pdevQ.list true)
    (hcmd : ∀ n ∈ s.pdevQ.list true, t.pdevQ.cmd n = s.pdevQ.cmd n)
    (hflag : t.pdevQ.blockingCmdActive = s.pdevQ.blockingCmdActive) : t.Exclusive := by
  constructor
  · intro n hn hb
    rw [hlist] at hn ⊢
    rw [hcmd n hn] at hb
    exact hs.alone n hn hb
  · rw [hflag, hs.flag, hlist]
    constructor
    · rintro ⟨n, hn, hb⟩
      exact ⟨n, hn, by rw [hcmd n hn, hb]⟩
    · rintro ⟨n, hn, hb⟩
      exact ⟨n, hn, by rw [← hcmd n hn, hb]⟩

variable {n : ℕ}

theorem link (hs : s.Exclusive) (v : Fin m) (hfree : s.pdevQ.blockingCmdActive = false)
    (hempty : (s.pdevQ.cmd n).isBlocking = true → s.pdevQ.list true = []) :
    (s.link n v true).Exclusive := by
  have hnone : ∀ k ∈ s.pdevQ.list true, (s.pdevQ.cmd k).isBlocking = false := by
    intro k hk
    rw [← Bool.not_eq_true]
    intro hb
    have hflag := hs.flag.mpr ⟨k, hk, hb⟩
    rw [hfree] at hflag
    cases hflag
  have hlist : (s.link n v true).pdevQ.list true =
      place (s.pdevQ.cmd n) n (s.pdevQ.list true) := rfl
  have hcmd : ∀ k, (s.link n v true).pdevQ.cmd k = s.pdevQ.cmd k := cmd_congr (s.link_cmds ..)
  have hflag : (s.link n v true).pdevQ.blockingCmdActive =
      ((s.pdevQ.cmd n).isBlocking || s.pdevQ.blockingCmdActive) := rfl
  constructor
  · intro k hk hb
    rw [hlist] at hk ⊢
    rw [hcmd] at hb
    rcases mem_place.mp hk with rfl | hk
    · rw [hempty hb, place]
      split <;> rfl
    · rw [hnone k hk] at hb
      cases hb
  · rw [hflag, hfree, Bool.or_false, hlist]
    constructor
    · intro hb
      exact ⟨n, mem_place.mpr (.inl rfl), by rw [hcmd, hb]⟩
    · rintro ⟨k, hk, hb⟩
      rw [hcmd] at hb
      rcases mem_place.mp hk with rfl | hk
      · exact hb
      · rw [hnone k hk] at hb
        cases hb

theorem discard (hs : s.Exclusive) (h : s.WellFormed c []) (v : Fin m)
    (hn : n ∈ s.pdevQ.list true) :
    (s.discard n v true).Exclusive ∧ (s.discard n v true).pdevQ.blockingCmdActive = false := by
  have hlist : (s.discard n v true).pdevQ.list true = (s.pdevQ.list true).erase n := rfl
  have hflag : (s.discard n v true).pdevQ.blockingCmdActive =
      (!(s.pdevQ.cmd n).isBlocking && s.pdevQ.blockingCmdActive) := rfl
  have hother : ∀ k ∈ s.pdevQ.list true, (s.pdevQ.cmd k).isBlocking = true → k = n := by
    intro k hk hb
    rw [hs.alone k hk hb, List.mem_singleton] at hn
    exact hn.symm
  have hfree : (s.discard n v true).pdevQ.blockingCmdActive = false := by
    rw [hflag, ← Bool.not_eq_true, Bool.and_eq_true, hs.flag]
    rintro ⟨hb, k, hk, hkb⟩
    rw [hother k hk hkb] at hkb
    rw [hkb] at hb
    cases hb
  have hnone : ∀ k ∈ (s.pdevQ.list true).erase n,
      ((s.discard n v true).pdevQ.cmd k).isBlocking = false := by
    intro k hk
    have hkn : k ≠ n := ((h.kept.conserved.nodup true).mem_erase_iff.mp hk).1
    have hcmd : (s.discard n v true).pdevQ.cmd k = s.pdevQ.cmd k :=
      PdevQueue.cmd_release_of_ne hkn
    rw [hcmd, ← Bool.not_eq_true]
    exact fun hb => hkn (hother k (List.mem_of_mem_erase hk) hb)
  refine ⟨⟨?_, ?_⟩, hfree⟩
  · intro k hk hb
    rw [hnone k hk] at hb
    cases hb
  · rw [hfree]
    constructor
    · intro hc
      cases hc
    · rintro ⟨k, hk, hb⟩
      rw [hnone k hk] at hb
      cases hb

theorem promote (hs : s.Exclusive) (v : Fin m)
    (hfree : s.pdevQ.blockingCmdActive = false)
    (hempty : (s.pdevQ.cmd n).isBlocking = true → s.pdevQ.list true = []) :
    (s.promote n v).Exclusive := by
  have hunlinked : (s.unlink n v false).Exclusive := hs.of_agree rfl (fun _ _ => rfl) rfl
  have hlinked := hunlinked.link (n := n) v hfree hempty
  have hmarked : (((s.unlink n v false).link n v true).mark n).Exclusive :=
    hlinked.of_agree rfl (fun _ _ => PdevQueue.cmd_setInUse ..) rfl
  rw [NonScan.promote, uncount]
  split
  · exact hmarked.of_agree rfl (fun _ _ => rfl) rfl
  · exact hmarked

end Exclusive

theorem stable_exclusive :
    Stable c (fun s => s.Exclusive ∧ s.Waiting (· ≤ ·))
      (fun s => s.pdevQ.blockingCmdActive = false) := by
  have hwaiting : Stable c (Waiting (· ≤ ·)) (fun _ => True) := stable_waiting (by omega)
  constructor
  · intro s n u hs
    exact ⟨hs.1.of_agree rfl (fun _ _ => PdevQueue.cmd_setInUse ..) rfl,
      hwaiting.setInUse s n u hs.2⟩
  · intro s A hs
    exact ⟨hs.1.of_agree rfl (fun _ _ => rfl) rfl, hwaiting.setActivations s A hs.2⟩
  · intro s n v h hs hn hv
    obtain ⟨hexclusive, hfree⟩ := hs.1.discard h v hn
    exact ⟨⟨hexclusive, (hwaiting.discard s n v h hs.2 hn hv).1⟩, hfree⟩
  · intro s n v h hs hn hv
    refine ⟨?_, hwaiting.cancel s n v h hs.2 hn hv⟩
    have hdiscard : (s.discard n v false).Exclusive := by
      apply hs.1.of_agree (t := s.discard n v false) rfl
      · intro k hk
        apply PdevQueue.cmd_release_of_ne
        rintro rfl
        exact h.kept.conserved.notMem_other hk Bool.false_ne_true hn
      · rfl
    rw [uncount]
    split
    · exact hdiscard.of_agree rfl (fun _ _ => rfl) rfl
    · exact hdiscard
  · intro s n v h hs hfree hn hv hidle hzero
    refine ⟨hs.1.promote v hfree ?_, hwaiting.promote s n v h hs.2 trivial hn hv hidle hzero⟩
    intro hb
    rcases hzero hb with hbitmap | hwait
    · exact h.bitmap_eq_zero_iff.mp hbitmap
    · -- A blocking command is pending, so that the counter is not zero.
      have hpending : 0 < s.blockingPending := List.countP_pos_iff.mpr ⟨n, hn, hb⟩
      have hle : s.blockingPending ≤ s.pdevQ.blockingCmdWaiting.toNat := hs.2
      rw [hwait] at hle
      exact absurd hpending (Nat.not_lt.mpr hle)
  · intro s _ hfree
    exact hfree
  · intro s v b hs
    exact ⟨hs.1.of_agree rfl (fun _ _ => rfl) rfl, hwaiting.setDisable s v b hs.2⟩

/-- What a request finds when no blocking command becomes pending without being counted. -/
def Counts (c : SerConfig m) (s : NonScan m) (cmd : Cmd m) (v : Fin m) : Prop :=
  cmd.isBlocking = true → (s.vdevQ v).queueDisable = false →
    if s.pdevQ.vdevActiveCmdBitmap = 0 then (s.vdevQ v).pendingList = [] ∨ Refused c s cmd v
    else s.pdevQ.blockingCmdWaiting.toNat ≠ 65535
deriving Decidable

theorem counted_exclusive (hs : s.Exclusive) (cmd : Cmd m) : (s.counted cmd).Exclusive := by
  rw [counted]
  split
  · exact hs.of_agree rfl (fun _ _ => rfl) rfl
  · exact hs

theorem fill_exclusive (hs : s.Exclusive) (h : s.WellFormed c []) {n : ℕ} {pool : List ℕ}
    (hpool : s.pdevQ.cmdPoolList = n :: pool) (cmd : Cmd m) : (s.fill n pool cmd).Exclusive := by
  apply hs.of_agree (t := s.fill n pool cmd) rfl
  · intro k hk
    rw [PdevQueue.cmd, h.cmds_fill hpool cmd hk, PdevQueue.cmd]
  · rfl

variable {cmd : Cmd m} {v : Fin m}

theorem enqueueCmd_exclusive (hs : s.Exclusive) (h : s.WellFormed c [])
    (hv : cmd.vdev = some v) : (s.enqueueCmd c cmd v).2.Exclusive := by
  have hpoolEq := (s.counted_lists cmd).2.2.2.1
  have hcounted := counted_exclusive hs cmd
  have hspec := enqueueCmd_spec h hv
  generalize s.enqueueCmd c cmd v = r at hspec ⊢
  cases hspec with
  | disabled => exact hs
  | duplicate => exact hcounted
  | poolEmpty => exact hcounted
  | @listFull n pool _ _ hpool =>
    have hpool' := hpoolEq.trans hpool
    have hfill := fill_exclusive hcounted (h.counted cmd) hpool' cmd
    have hfree : n ∉ ((s.counted cmd).fill n pool cmd).pdevQ.list true :=
      ((h.counted cmd).fill hpool' cmd).kept.conserved.notMem_hand true
    apply hfill.of_agree (t := (((s.counted cmd).fill n pool cmd).disable cmd v).releaseNode n) rfl
    · intro k hk
      apply PdevQueue.cmd_release_of_ne
      rintro rfl
      exact hfree hk
    · rfl
  | @active n pool _ hpool hact =>
    have hallow := (allowed_of_activeQueue hact).1
    have hlinked : ((s.fill n pool cmd).link n v true).Exclusive := by
      apply (fill_exclusive hs h hpool cmd).link v
      · change s.pdevQ.blockingCmdActive = false
        cases hb : cmd.isBlocking with
        | true =>
          have hnil := h.bitmap_eq_zero_iff.mp ((s.allowed_blocking v hb).mp hallow)
          rw [← Bool.not_eq_true, hs.flag, hnil]
          rintro ⟨k, hk, -⟩
          cases hk
        | false => exact ((s.allowed_nonblocking v hb).mp hallow).1
      · rw [cmd_fill_self]
        intro hb
        exact h.bitmap_eq_zero_iff.mp ((s.allowed_blocking v hb).mp hallow)
    exact hlinked.of_agree rfl (fun _ _ => PdevQueue.cmd_setInUse ..) rfl
  | @pending n pool _ _ hpool =>
    have hpool' := hpoolEq.trans hpool
    exact (fill_exclusive hcounted (h.counted cmd) hpool' cmd).of_agree rfl (fun _ _ => rfl) rfl

theorem enqueueCmd_counts (h : s.WellFormed c []) (hs : s.Waiting (· ≤ ·)) (hv : cmd.vdev = some v)
    (hc : Counts c s cmd v) :
    (s.enqueueCmd c cmd v).2.Waiting (· ≤ ·) := by
  cases hoff : (s.vdevQ v).queueDisable with
  | true =>
    rw [enqueueCmd, hoff, if_pos rfl]
    exact hs
  | false =>
    obtain ⟨hpend, hwait⟩ := enqueueCmd_waiting h hv hoff
    have hle : s.blockingPending ≤ s.pdevQ.blockingCmdWaiting.toNat := hs
    change (s.enqueueCmd c cmd v).2.blockingPending ≤ _
    rw [hpend, hwait, waiting_counted]
    cases hb : cmd.isBlocking with
    | false =>
      rw [Bool.false_and, Bool.false_and, Bool.false_and, if_neg Bool.false_ne_true]
      exact hle
    | true =>
      have hc' := hc hb hoff
      by_cases hzero : s.pdevQ.vdevActiveCmdBitmap = 0
      · have hstays : (!s.activeQueue cmd v && !decide (Refused c s cmd v)) = false := by
          rw [if_pos hzero] at hc'
          rcases hc' with hnil | hrefused
          · rw [(activeQueue_blocking hb).mpr ⟨hzero, hnil⟩]
            rfl
          · simp [hrefused]
        rw [Bool.true_and, hstays, hzero]
        simpa using hle
      · rw [if_neg hzero] at hc'
        have hcounts : (true && s.pdevQ.vdevActiveCmdBitmap != 0) = true := by
          rw [Bool.true_and, bne_iff_ne]
          exact hzero
        have hnat : (s.pdevQ.blockingCmdWaiting + 1).toNat =
            s.pdevQ.blockingCmdWaiting.toNat + 1 := by
          rw [UInt16.toNat_add, Nat.mod_eq_of_lt]
          · rfl
          · have := s.pdevQ.blockingCmdWaiting.toNat_lt
            change s.pdevQ.blockingCmdWaiting.toNat + 1 < 2 ^ 16
            omega
        have hone := Bool.toNat_le (true && !s.activeQueue cmd v && !decide (Refused c s cmd v))
        rw [if_pos hcounts, hnat]
        omega

end NonScan

def NonScan.activeOf (s : NonScan m) (v : Fin m) : List ℕ :=
  s.pdevQ.activeList.filter fun n => (s.pdevQ.cmd n).vdev = some v

section Psoc

variable {Pdev : Type} [Fintype Pdev] [DecidableEq Pdev] {c : SerConfig m}

/-- A vdev has one active command at most, which its bit shows, and a blocking command is active
alone, which the flag shows. -/
theorem active_exclusive (maxActiveScans : ℕ) {inputs : List (Pdev × Input m)}
    (hm : (psoc c maxActiveScans).Meets (fun s i => OnRequest (NonScan.Counts c) (s i.1) i.2)
      (fun _ => SerPdev.init c) inputs) (p : Pdev) :
    let s := (((psoc c maxActiveScans).run (fun _ => SerPdev.init c) inputs).1 p).nonScan
    (∀ v : Fin m, s.pdevQ.vdevActiveCmdBitmap.getLsbD v = true ↔ (s.activeOf v).length = 1) ∧
      (∀ v, (s.activeOf v).length ≤ 1) ∧
      (∀ n ∈ s.pdevQ.activeList, (s.pdevQ.cmd n).isBlocking = true → s.pdevQ.activeList = [n]) ∧
      (s.pdevQ.blockingCmdActive = true ↔
        ∃ n ∈ s.pdevQ.activeList, (s.pdevQ.cmd n).isBlocking = true) := by
  intro s
  have hinit : (NonScan.init c).Exclusive ∧ (NonScan.init c).Waiting (· ≤ ·) := by
    refine ⟨⟨?_, ?_⟩, Nat.le_refl 0⟩
    · intro n hn
      cases hn
    · constructor
      · intro hc
        cases hc
      · rintro ⟨n, hn, -⟩
        cases hn
  obtain ⟨hwf, hexclusive, -⟩ := psoc_run_onRequest NonScan.stable_exclusive maxActiveScans
    (fun t cmd v h hs hc hv => ⟨NonScan.enqueueCmd_exclusive hs.1 h hv,
      NonScan.enqueueCmd_counts h hs.2 hv hc⟩) hinit hm p
  have hactive : ∀ v, s.activeOf v = (s.vdevQ v).list true := by
    intro v
    rw [hwf.vdev_list]
    apply List.filter_congr
    intro n _
    rw [NonScan.ofVdev, beq_eq_decide]
  refine ⟨?_, ?_, hexclusive.alone, hexclusive.flag⟩
  · intro v
    have hle := hwf.one_active v
    rw [hwf.bitmap v, hactive]
    constructor
    · rintro ⟨u, hu, hne⟩
      rw [Fin.ext hu] at hne
      exact le_antisymm hle (List.length_pos_of_ne_nil hne)
    · intro hone
      refine ⟨v, rfl, List.ne_nil_of_length_pos ?_⟩
      rw [hone]
      exact Nat.one_pos
  · intro v
    rw [hactive]
    exact hwf.one_active v

end Psoc

theorem active_exclusive_request : let inputs : List (Unit × Input 6) :=
      [((), .request { cmdType := .vdevStartBss, cmdId := 1, cmdCb := true, vdev := some 0 } true),
        ((), .request
          { cmdType := .setHwMode, cmdId := 2, cmdCb := true, isBlocking := true, vdev := some 1 }
          true)]
    let s := (((psoc defaultConfig 8).run (fun _ => SerPdev.init defaultConfig) inputs).1 ()).nonScan
    (∀ v : Fin 6, s.pdevQ.vdevActiveCmdBitmap.getLsbD v = true ↔ (s.activeOf v).length = 1) ∧
      (∀ v, (s.activeOf v).length ≤ 1) ∧
      (∀ n ∈ s.pdevQ.activeList, (s.pdevQ.cmd n).isBlocking = true → s.pdevQ.activeList = [n]) ∧
      (s.pdevQ.blockingCmdActive = true ↔
        ∃ n ∈ s.pdevQ.activeList, (s.pdevQ.cmd n).isBlocking = true) :=
  active_exclusive 8 (by decide +kernel) ()

/-- The cancel leaves a command of vdev 0 behind, so that the blocking command becomes pending
without being counted. The lookup of vdev 0 activates it while a command of vdev 2 is active. -/
theorem not_active_exclusive :
    ¬∀ inputs : List (Unit × Input 6),
      let s := (((psoc defaultConfig 8).run (fun _ => SerPdev.init defaultConfig) inputs).1 ()).nonScan
      ∀ n ∈ s.pdevQ.activeList, (s.pdevQ.cmd n).isBlocking = true → s.pdevQ.activeList = [n] := by
  intro h
  have hrun := h
    [((), .request { cmdType := .vdevStartBss, cmdId := 1, cmdCb := true, vdev := some 0 } true),
      ((), .nonScanActivated 0 true (fun _ => true)),
      ((), .request { cmdType := .vdevStopBss, cmdId := 2, cmdCb := true, vdev := some 0 } true),
      ((), .cancelRequest ⟨.vdevStartBss, 1, some 0⟩ .nonScanCmd true false (fun _ => true)),
      ((), .request
        { cmdType := .setHwMode, cmdId := 3, cmdCb := true, isBlocking := true, vdev := some 0 }
        true),
      ((), .request
        { cmdType := .tdlsAddPeer, cmdId := 4, cmdCb := true, isBlocking := true, vdev := some 1 }
        true),
      ((), .nonScanActivated 0 true (fun _ => true)),
      ((), .removeCmd ⟨.tdlsAddPeer, 4, some 1⟩),
      ((), .nonScanActivated 0 true (fun _ => true)),
      ((), .request { cmdType := .vdevStartBss, cmdId := 5, cmdCb := true, vdev := some 2 } true),
      ((), .nonScanActivated 0 true (fun _ => true)),
      ((), .removeCmd ⟨.vdevStopBss, 2, some 0⟩)]
  revert hrun
  decide +kernel

end KernelModules.WlanSer
