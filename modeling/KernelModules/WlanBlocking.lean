import KernelModules.WlanRuns

/-!
# The counter of waiting blocking commands

A pdev counts the blocking commands in its pending list. The counter moves with the list in every
step but a request: there it is incremented when some command is active, and only after that it
is found out whether the command becomes pending at all.
-/

namespace KernelModules.WlanSer

variable {m : ℕ}

namespace NonScan

variable {c : SerConfig m} {s : NonScan m}

def blockingPending (s : NonScan m) : ℕ :=
  s.pdevQ.pendingList.countP fun n => (s.pdevQ.cmd n).isBlocking

def Refused (c : SerConfig m) (s : NonScan m) (cmd : Cmd m) (v : Fin m) : Prop :=
  (findCmd s.pdevQ.cmds (s.vdevQ v).pendingList cmd).isSome = true ∨ s.pdevQ.cmdPoolList = [] ∨
    s.PendingFull c v

instance (v : Fin m) : Decidable (s.PendingFull c v) := by
  unfold PendingFull
  infer_instance

instance (cmd : Cmd m) (v : Fin m) : Decidable (Refused c s cmd v) := by
  unfold Refused
  infer_instance

variable {t : NonScan m} {a : Bool} {R : ℕ → ℕ → Prop}

theorem blockingPending_congr (hlist : t.pdevQ.list false = s.pdevQ.list false)
    (hcmd : ∀ n ∈ s.pdevQ.list false, t.pdevQ.cmd n = s.pdevQ.cmd n) :
    t.blockingPending = s.blockingPending := by
  change (t.pdevQ.list false).countP _ = (s.pdevQ.list false).countP _
  rw [hlist]
  apply List.countP_congr
  intro n hn
  rw [hcmd n hn]

theorem countP_place (cmd : Cmd m) (n : ℕ) (queue : List ℕ) (p : ℕ → Bool) :
    (place cmd n queue).countP p = queue.countP p + (p n).toNat := by
  cases h : cmd.isHighPriority <;> cases hp : p n <;> simp [place, h, hp, List.countP_append]

theorem blockingPending_link (s : NonScan m) (n : ℕ) (v : Fin m) (a : Bool) :
    (s.link n v a).blockingPending =
      s.blockingPending + (!a && (s.pdevQ.cmd n).isBlocking).toNat := by
  cases a with
  | true => exact blockingPending_congr rfl (fun _ _ => rfl)
  | false => exact countP_place (s.pdevQ.cmd n) n s.pdevQ.pendingList _

variable {n : ℕ} {v : Fin m} {cmd : Cmd m}

theorem blockingPending_unlink (hn : n ∈ s.pdevQ.list a) :
    (s.unlink n v a).blockingPending + (!a && (s.pdevQ.cmd n).isBlocking).toNat =
      s.blockingPending := by
  cases a with
  | true => exact blockingPending_congr rfl (fun _ _ => rfl)
  | false =>
    change (s.pdevQ.pendingList.erase n).countP _ + _ = s.pdevQ.pendingList.countP _
    have hperm := List.perm_cons_erase (show n ∈ s.pdevQ.pendingList from hn)
    rw [hperm.countP_eq, List.countP_cons]
    cases (s.pdevQ.cmd n).isBlocking <;> rfl

theorem blockingPending_discard (h : s.WellFormed c [])
    (hn : n ∈ s.pdevQ.list a) :
    (s.discard n v a).blockingPending + (!a && (s.pdevQ.cmd n).isBlocking).toNat =
      s.blockingPending := by
  rw [← blockingPending_unlink hn (v := v)]
  congr 1
  apply blockingPending_congr (s := s.unlink n v a) (t := s.discard n v a) rfl
  intro k hk
  apply PdevQueue.cmd_release_of_ne
  rintro rfl
  rw [unlink_list] at hk
  split at hk
  next ha =>
    subst a
    exact (h.kept.conserved.nodup false).not_mem_erase hk
  next ha => exact h.kept.conserved.notMem_other hn ha hk

theorem blockingPending_setInUse (s : NonScan m) (n : ℕ) (u : CmdInUse) :
    (s.setInUse n u).blockingPending = s.blockingPending :=
  blockingPending_congr rfl (fun _ _ => PdevQueue.cmd_setInUse ..)

theorem blockingPending_uncount (s : NonScan m) (b : Bool) :
    (s.uncount b).blockingPending = s.blockingPending := by
  cases b <;> rfl

theorem blockingPending_promote (hn : n ∈ s.pdevQ.list false) :
    (s.promote n v).blockingPending + (s.pdevQ.cmd n).isBlocking.toNat = s.blockingPending := by
  have hunlink := blockingPending_unlink (s := s) (v := v) hn
  rw [promote, blockingPending_uncount, mark, blockingPending_setInUse, blockingPending_link]
  simpa using hunlink

theorem blockingPending_fill (h : s.WellFormed c []) {pool : List ℕ}
    (hpool : s.pdevQ.cmdPoolList = n :: pool) (cmd : Cmd m) :
    (s.fill n pool cmd).blockingPending = s.blockingPending := by
  apply blockingPending_congr (s := s) (t := s.fill n pool cmd) rfl
  intro k hk
  rw [PdevQueue.cmd, h.cmds_fill hpool cmd hk, PdevQueue.cmd]

theorem blockingPending_releaseNode (hn : n ∉ s.pdevQ.list false) :
    (s.releaseNode n).blockingPending = s.blockingPending := by
  apply blockingPending_congr (s := s) (t := s.releaseNode n) rfl
  intro k hk
  apply PdevQueue.cmd_release_of_ne
  rintro rfl
  exact hn hk

theorem blockingPending_counted (s : NonScan m) (cmd : Cmd m) :
    (s.counted cmd).blockingPending = s.blockingPending := by
  rw [counted]
  split <;> rfl

theorem WellFormed.blockingPending_le (h : s.WellFormed c []) :
    s.blockingPending ≤ c.cmdPoolSize := by
  have hlength := h.kept.conserved.partitioned.2
  have hcount : s.blockingPending ≤ s.pdevQ.pendingList.length := List.countP_le_length
  omega

theorem waiting_link (s : NonScan m) (n : ℕ) (v : Fin m) (a : Bool) :
    (s.link n v a).pdevQ.blockingCmdWaiting = s.pdevQ.blockingCmdWaiting := by
  cases a <;> rfl

theorem waiting_discard (s : NonScan m) (n : ℕ) (v : Fin m) (a : Bool) :
    (s.discard n v a).pdevQ.blockingCmdWaiting = s.pdevQ.blockingCmdWaiting := by
  cases a <;> rfl

theorem waiting_uncount (s : NonScan m) (b : Bool) :
    (s.uncount b).pdevQ.blockingCmdWaiting =
      if b then s.pdevQ.blockingCmdWaiting - 1 else s.pdevQ.blockingCmdWaiting := by
  cases b <;> rfl

theorem waiting_promote (s : NonScan m) (n : ℕ) (v : Fin m) :
    (s.promote n v).pdevQ.blockingCmdWaiting =
      if (s.pdevQ.cmd n).isBlocking then s.pdevQ.blockingCmdWaiting - 1
      else s.pdevQ.blockingCmdWaiting := by
  rw [promote, waiting_uncount]
  rfl

theorem waiting_counted (s : NonScan m) (cmd : Cmd m) :
    (s.counted cmd).pdevQ.blockingCmdWaiting =
      if cmd.isBlocking && s.pdevQ.vdevActiveCmdBitmap != 0 then s.pdevQ.blockingCmdWaiting + 1
      else s.pdevQ.blockingCmdWaiting := by
  rw [counted]
  split <;> rfl

theorem toNat_sub_one {w : UInt16} (h : 0 < w.toNat) : (w - 1).toNat = w.toNat - 1 := by
  have hle : (1 : UInt16) ≤ w := by
    rw [UInt16.le_iff_toNat_le]
    exact h
  rw [UInt16.toNat_sub_of_le _ _ hle]
  rfl

def Waiting (R : ℕ → ℕ → Prop) (s : NonScan m) : Prop :=
  R s.blockingPending s.pdevQ.blockingCmdWaiting.toNat

theorem Waiting.leave (hR : ∀ a b, R (a + 1) b → 0 < b ∧ R a (b - 1)) {b : Bool} (hs : s.Waiting R)
    (hpend : t.blockingPending + b.toNat = s.blockingPending)
    (hwait : t.pdevQ.blockingCmdWaiting =
      if b then s.pdevQ.blockingCmdWaiting - 1 else s.pdevQ.blockingCmdWaiting) :
    t.Waiting R := by
  rw [Waiting, ← hpend] at hs
  rw [Waiting, hwait]
  cases b with
  | true =>
    obtain ⟨hpos, hR'⟩ := hR _ _ hs
    rw [if_pos rfl, toNat_sub_one hpos]
    exact hR'
  | false =>
    rw [if_neg Bool.false_ne_true]
    exact hs

theorem stable_waiting (hR : ∀ a b, R (a + 1) b → 0 < b ∧ R a (b - 1)) :
    Stable c (Waiting R) (fun _ => True) where
  setInUse s n u hs := by
    rw [Waiting, blockingPending_setInUse]
    exact hs
  setActivations _ _ hs := hs
  discard s n v h hs hn _ := by
    refine ⟨hs.leave hR (b := false) ?_ (waiting_discard s n v true), trivial⟩
    exact blockingPending_discard h hn
  cancel s n v h hs hn _ := by
    apply hs.leave hR (b := (s.pdevQ.cmd n).isBlocking)
    · rw [blockingPending_uncount]
      simpa using blockingPending_discard h hn (v := v)
    · rw [waiting_uncount, waiting_discard]
  promote s n v _ hs _ hn _ _ _ :=
    hs.leave hR (blockingPending_promote hn) (waiting_promote s n v)
  free _ _ _ := trivial
  setDisable _ _ _ hs := hs

theorem duplicate_eq (hpend : s.activeQueue cmd v = false) :
    s.duplicate cmd v = (findCmd s.pdevQ.cmds (s.vdevQ v).pendingList cmd).isSome := by
  rw [duplicate, hpend]
  rfl

theorem activeQueue_blocking (hb : cmd.isBlocking = true) :
    s.activeQueue cmd v = true ↔
      s.pdevQ.vdevActiveCmdBitmap = 0 ∧ (s.vdevQ v).pendingList = [] := by
  rw [activeQueue, Bool.and_eq_true, s.allowed_blocking v hb, List.isEmpty_iff]

theorem blockingPending_disable (s : NonScan m) (cmd : Cmd m) (v : Fin m) :
    (s.disable cmd v).blockingPending = s.blockingPending := rfl

/-- A command that is refused, and one that is active at once, are not pending; the one that is
refused may have been counted all the same. -/
theorem enqueueCmd_waiting (h : s.WellFormed c [])
    (hv : cmd.vdev = some v) (hon : (s.vdevQ v).queueDisable = false) :
    (s.enqueueCmd c cmd v).2.blockingPending =
        s.blockingPending + (cmd.isBlocking && !s.activeQueue cmd v &&
          !decide (Refused c s cmd v)).toNat ∧
      (s.enqueueCmd c cmd v).2.pdevQ.blockingCmdWaiting =
        (s.counted cmd).pdevQ.blockingCmdWaiting := by
  have hpoolEq := (s.counted_lists cmd).2.2.2.1
  have hcounted := h.counted cmd
  have hsame : s.duplicate cmd v = true ∨ s.pdevQ.cmdPoolList = [] ∨ s.PendingFull c v →
      (cmd.isBlocking && !s.activeQueue cmd v && !decide (Refused c s cmd v)).toNat = 0 := by
    intro hno
    cases hact : s.activeQueue cmd v with
    | true => simp
    | false =>
      rw [duplicate_eq hact] at hno
      have hrefused : Refused c s cmd v := hno
      simp [hrefused]
  have hspec := enqueueCmd_spec h hv
  generalize s.enqueueCmd c cmd v = r at hspec ⊢
  cases hspec with
  | disabled hoff =>
    rw [hon] at hoff
    cases hoff
  | duplicate _ hdup =>
    rw [hsame (.inl hdup), blockingPending_counted]
    exact ⟨rfl, rfl⟩
  | poolEmpty _ _ hpool =>
    rw [hsame (.inr (.inl hpool)), blockingPending_counted]
    exact ⟨rfl, rfl⟩
  | @listFull n pool _ _ hpool _ hfull =>
    have hpool' := hpoolEq.trans hpool
    have hn : n ∉ (((s.counted cmd).fill n pool cmd).disable cmd v).pdevQ.list false :=
      (hcounted.fill hpool' cmd).kept.conserved.notMem_hand false
    rw [hsame (.inr (.inr hfull)), blockingPending_releaseNode hn, blockingPending_disable,
      blockingPending_fill hcounted hpool', blockingPending_counted]
    exact ⟨rfl, rfl⟩
  | @active n pool _ hpool hact =>
    rw [counted_of_allowed (allowed_of_activeQueue hact).1, hact]
    change ((s.fill n pool cmd).link n v true |>.mark n).blockingPending = _ ∧ _
    rw [mark, blockingPending_setInUse, blockingPending_link, blockingPending_fill h hpool]
    simp
    rfl
  | @pending n pool _ hdup hpool hpend hroom =>
    have hpool' := hpoolEq.trans hpool
    have haccepted : ¬Refused c s cmd v := by
      rintro (hc | hc | hc)
      · rw [← duplicate_eq hpend, hdup] at hc
        cases hc
      · rw [hpool] at hc
        cases hc
      · exact hroom hc
    rw [blockingPending_link, blockingPending_fill hcounted hpool', blockingPending_counted,
      cmd_fill_self, waiting_link]
    simp [hpend, haccepted]
    rfl

/-- What a request finds when the counter stays right: a blocking command that is counted becomes
pending, and one that becomes pending is counted. -/
def Countable (c : SerConfig m) (s : NonScan m) (cmd : Cmd m) (v : Fin m) : Prop :=
  cmd.isBlocking = true → (s.vdevQ v).queueDisable = false →
    if s.pdevQ.vdevActiveCmdBitmap = 0 then (s.vdevQ v).pendingList = [] ∨ Refused c s cmd v
    else ¬Refused c s cmd v
deriving Decidable

theorem enqueueCmd_waiting_iff (h : s.WellFormed c []) (hs : s.Waiting Eq) (hv : cmd.vdev = some v) :
    (s.enqueueCmd c cmd v).2.Waiting Eq ↔ Countable c s cmd v := by
  cases hoff : (s.vdevQ v).queueDisable with
  | true =>
    rw [enqueueCmd, hoff, if_pos rfl, Countable, hoff]
    simpa using hs
  | false =>
    have hle := h.blockingPending_le
    have hsize : c.cmdPoolSize < 2 ^ 16 - 1 := by
      have := c.maxVdevs_le
      have := c.maxPendingCmds_lt
      rw [SerConfig.cmdPoolSize]
      omega
    obtain ⟨hpend, hwait⟩ := enqueueCmd_waiting h hv hoff
    rw [Waiting] at hs
    rw [Waiting, hpend, hwait, waiting_counted, Countable, hoff]
    cases hb : cmd.isBlocking with
    | false => simpa using hs
    | true =>
      by_cases hzero : s.pdevQ.vdevActiveCmdBitmap = 0
      · have hact := s.activeQueue_blocking (v := v) hb
        by_cases hnil : (s.vdevQ v).pendingList = []
        · have hact' := hact.mpr ⟨hzero, hnil⟩
          simpa [hzero, hnil, hact'] using hs
        · have hact' : s.activeQueue cmd v = false := by
            rw [← Bool.not_eq_true, hact]
            exact fun hc => hnil hc.2
          by_cases hrefused : Refused c s cmd v
          · simpa [hzero, hnil, hact', hrefused] using hs
          · simp [hzero, hnil, hact', hrefused]
            omega
      · have hact' : s.activeQueue cmd v = false := by
          rw [← Bool.not_eq_true, s.activeQueue_blocking hb]
          exact fun hc => hzero hc.1
        have hnat : (s.pdevQ.blockingCmdWaiting + 1).toNat =
            s.pdevQ.blockingCmdWaiting.toNat + 1 := by
          rw [UInt16.toNat_add, Nat.mod_eq_of_lt]
          · rfl
          · change s.pdevQ.blockingCmdWaiting.toNat + 1 < 2 ^ 16
            omega
        have hcounts : (true && s.pdevQ.vdevActiveCmdBitmap != 0) = true := by
          rw [Bool.true_and, bne_iff_ne]
          exact hzero
        rw [if_neg hzero, if_pos hcounts, hnat, hact']
        by_cases hrefused : Refused c s cmd v
        · simp [hrefused]
          omega
        · simp [hrefused]
          omega

end NonScan

open SerPdev (Reaches)

instance (cmd : Cmd m) (rulesPass isScan : Bool) (v : Fin m) :
    Decidable (Reaches cmd rulesPass isScan v) :=
  decidable_of_iff (cmd.vdev = some v ∧ rulesPass = true ∧ cmd.cmdCb = true ∧
    cmd.cmdType.isScan = isScan)
    ⟨fun h => ⟨h.1, h.2.1, h.2.2.1, h.2.2.2⟩, fun h => ⟨h.1, h.2, h.3, h.4⟩⟩

def OnRequest (C : NonScan m → Cmd m → Fin m → Prop) (s : SerPdev m) : Input m → Prop
  | .request cmd rulesPass => ∀ v, Reaches cmd rulesPass false v → C s.nonScan cmd v
  | _ => True

instance (C : NonScan m → Cmd m → Fin m → Prop) [∀ s cmd v, Decidable (C s cmd v)]
    (s : SerPdev m) (i : Input m) : Decidable (OnRequest C s i) := by
  cases i <;> unfold OnRequest <;> infer_instance

section Psoc

variable {Pdev : Type} [Fintype Pdev] [DecidableEq Pdev] {c : SerConfig m}

theorem psoc_run_onRequest {I F : NonScan m → Prop} (hI : NonScan.Stable c I F)
    (maxActiveScans : ℕ) {C : NonScan m → Cmd m → Fin m → Prop}
    (hreq : ∀ (s : NonScan m) cmd v, s.WellFormed c [] → I s → C s cmd v → cmd.vdev = some v →
      I (s.enqueueCmd c cmd v).2)
    (hinit : I (NonScan.init c)) {inputs : List (Pdev × Input m)}
    (hm : (psoc c maxActiveScans).Meets (fun s i => OnRequest C (s i.1) i.2)
      (fun _ => SerPdev.init c) inputs) (p : Pdev) :
    let s := (((psoc c maxActiveScans).run (fun _ => SerPdev.init c) inputs).1 p).nonScan
    s.WellFormed c [] ∧ I s := by
  have hkeeps := psoc_run_keeps hI maxActiveScans (C := OnRequest C)
    (fun s cmd rulesPass v h hs hc hreach => hreq s.nonScan cmd v h hs (hc v hreach) hreach.vdev)
    hinit hm p
  exact ⟨hkeeps.wf.nonScan, hkeeps.nonScan⟩

/-- As long as what is counted becomes pending, and what becomes pending is counted, the counter is
right. -/
theorem blockingCmdWaiting_eq (maxActiveScans : ℕ) {inputs : List (Pdev × Input m)}
    (hm : (psoc c maxActiveScans).Meets (fun s i => OnRequest (NonScan.Countable c) (s i.1) i.2)
      (fun _ => SerPdev.init c) inputs) (p : Pdev) :
    let s := (((psoc c maxActiveScans).run (fun _ => SerPdev.init c) inputs).1 p).nonScan
    s.pdevQ.blockingCmdWaiting.toNat = s.blockingPending ∧
      s.pdevQ.blockingCmdWaiting.toNat ≤ c.cmdPoolSize ∧
      (0 < s.pdevQ.blockingCmdWaiting.toNat →
        ∃ n ∈ s.pdevQ.pendingList, (s.pdevQ.cmd n).isBlocking = true) := by
  intro s
  have hstable : NonScan.Stable c (NonScan.Waiting Eq) (fun _ => True) :=
    NonScan.stable_waiting (by omega)
  obtain ⟨hwf, heq⟩ := psoc_run_onRequest hstable maxActiveScans
    (fun t cmd v h hs hc hv => (NonScan.enqueueCmd_waiting_iff h hs hv).mpr hc) rfl hm p
  have hwait : s.pdevQ.blockingCmdWaiting.toNat = s.blockingPending := heq.symm
  refine ⟨hwait, ?_, ?_⟩
  · rw [hwait]
    exact hwf.blockingPending_le
  · intro hpos
    rw [hwait] at hpos
    exact List.countP_pos_iff.mp hpos

end Psoc

theorem blockingCmdWaiting_eq_request : let inputs : List (Unit × Input 6) :=
      [((), .request { cmdType := .vdevStartBss, cmdId := 1, cmdCb := true, vdev := some 0 } true),
        ((), .request
          { cmdType := .setHwMode, cmdId := 2, cmdCb := true, isBlocking := true, vdev := some 1 }
          true)]
    let s := (((psoc defaultConfig 8).run (fun _ => SerPdev.init defaultConfig) inputs).1 ()).nonScan
    s.pdevQ.blockingCmdWaiting.toNat = s.blockingPending ∧
      s.pdevQ.blockingCmdWaiting.toNat ≤ defaultConfig.cmdPoolSize ∧
      (0 < s.pdevQ.blockingCmdWaiting.toNat →
        ∃ n ∈ s.pdevQ.pendingList, (s.pdevQ.cmd n).isBlocking = true) :=
  blockingCmdWaiting_eq 8 (by decide +kernel) ()

/-- A blocking command that is requested twice is counted twice. -/
theorem not_blockingCmdWaiting_eq :
    ¬∀ inputs : List (Unit × Input 6),
      let s := (((psoc defaultConfig 8).run (fun _ => SerPdev.init defaultConfig) inputs).1 ()).nonScan
      s.pdevQ.blockingCmdWaiting.toNat = s.blockingPending := by
  intro h
  have hrun := h
    [((), .request { cmdType := .vdevStartBss, cmdId := 1, cmdCb := true, vdev := some 0 } true),
      ((), .request
        { cmdType := .setHwMode, cmdId := 2, cmdCb := true, isBlocking := true, vdev := some 1 }
        true),
      ((), .request
        { cmdType := .setHwMode, cmdId := 2, cmdCb := true, isBlocking := true, vdev := some 1 }
        true)]
  revert hrun
  decide +kernel

end KernelModules.WlanSer
