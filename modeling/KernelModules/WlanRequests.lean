import KernelModules.WlanSteps

/-!
# Requests of non-scan commands

A request is refused, or its command becomes active at once, or it becomes pending. Before it is
known which, a blocking command has been counted.
-/

namespace KernelModules.WlanSer.NonScan

variable {m : ℕ} {c : SerConfig m} {s : NonScan m}

def activeQueue (s : NonScan m) (cmd : Cmd m) (v : Fin m) : Bool :=
  (s.pdevQ.isActiveNonScanCmdAllowed cmd v).1 && (s.vdevQ v).pendingList.isEmpty

def duplicate (s : NonScan m) (cmd : Cmd m) (v : Fin m) : Bool :=
  (findCmd s.pdevQ.cmds ((s.vdevQ v).list (s.activeQueue cmd v)) cmd).isSome

def PendingFull (c : SerConfig m) (s : NonScan m) (v : Fin m) : Prop :=
  ((s.vdevQ v).list false).length = c.vdevMaxSize v false ∨
    (s.pdevQ.list false).length = c.pdevMaxSize false

theorem counted_eq (s : NonScan m) (cmd : Cmd m) (v : Fin m) :
    s.setPdev (s.pdevQ.isActiveNonScanCmdAllowed cmd v).2 = s.counted cmd := by
  rw [PdevQueue.isActiveNonScanCmdAllowed, counted]
  cases cmd.isBlocking with
  | true =>
    by_cases hzero : s.pdevQ.vdevActiveCmdBitmap = 0
    · simp [hzero, setPdev]
    · rw [if_pos rfl, if_pos hzero, Bool.true_and, if_pos (bne_iff_ne.mpr hzero)]
  | false =>
    simp only [Bool.false_eq_true, if_false, Bool.false_and]
    split <;> rfl

variable {cmd : Cmd m} {v : Fin m}

theorem allowed_blocking (s : NonScan m) (v : Fin m) (hb : cmd.isBlocking = true) :
    (s.pdevQ.isActiveNonScanCmdAllowed cmd v).1 = true ↔ s.pdevQ.vdevActiveCmdBitmap = 0 := by
  rw [PdevQueue.isActiveNonScanCmdAllowed, if_pos hb]
  split
  next hne => simpa using hne
  next heq => simpa using heq

theorem allowed_nonblocking (s : NonScan m) (v : Fin m)
    (hb : cmd.isBlocking = false) :
    (s.pdevQ.isActiveNonScanCmdAllowed cmd v).1 = true ↔
      s.pdevQ.blockingCmdActive = false ∧ s.pdevQ.blockingCmdWaiting.toUInt8 = 0 ∧
        s.pdevQ.vdevActiveCmdBitmap &&& vdevBit v = 0 := by
  rw [PdevQueue.isActiveNonScanCmdAllowed, hb, if_neg Bool.false_ne_true]
  cases ha : s.pdevQ.blockingCmdActive with
  | true => simp
  | false =>
    by_cases hw : s.pdevQ.blockingCmdWaiting.toUInt8 = 0
    · simp [hw]
    · simp [hw]

theorem counted_of_allowed
    (h : (s.pdevQ.isActiveNonScanCmdAllowed cmd v).1 = true) : s.counted cmd = s := by
  rw [counted]
  cases hb : cmd.isBlocking with
  | true =>
    rw [(s.allowed_blocking v hb).mp h]
    rfl
  | false => rfl

theorem WellFormed.idle_of_allowed (h : s.WellFormed c [])
    (hallow : (s.pdevQ.isActiveNonScanCmdAllowed cmd v).1 = true) :
    (s.vdevQ v).list true = [] := by
  cases hb : cmd.isBlocking with
  | true =>
    have hzero := (s.allowed_blocking v hb).mp hallow
    rw [h.vdev_list, h.bitmap_eq_zero_iff.mp hzero]
    rfl
  | false => exact (h.bit_eq_zero_iff v).mp ((s.allowed_nonblocking v hb).mp hallow).2.2

theorem counted_lists (s : NonScan m) (cmd : Cmd m) :
    (s.counted cmd).vdevQ = s.vdevQ ∧ (s.counted cmd).pdevQ.cmds = s.pdevQ.cmds ∧
      (∀ a, (s.counted cmd).pdevQ.list a = s.pdevQ.list a) ∧
      (s.counted cmd).pdevQ.cmdPoolList = s.pdevQ.cmdPoolList ∧
      (s.counted cmd).activations = s.activations := by
  rw [counted]
  split
  · exact ⟨rfl, rfl, fun _ => rfl, rfl, rfl⟩
  · exact ⟨rfl, rfl, fun _ => rfl, rfl, rfl⟩

theorem findCmd_fill {n : ℕ} {pool queue : List ℕ} {key : Cmd m} (hn : n ∉ queue)
    (h : findCmd s.pdevQ.cmds queue key = none) :
    findCmd (s.fill n pool cmd).pdevQ.cmds queue key = none := by
  rw [findCmd, List.find?_eq_none] at h ⊢
  intro k hk
  have hkn : k ≠ n := by
    rintro rfl
    exact hn hk
  rw [cmds_fill_of_ne pool cmd hkn]
  exact h k hk

inductive Enqueued (c : SerConfig m) (s : NonScan m) (cmd : Cmd m) (v : Fin m) :
    SerStatus × NonScan m → Prop
  | disabled (hoff : (s.vdevQ v).queueDisable = true) : Enqueued c s cmd v (.queueDisabled, s)
  | duplicate (hon : (s.vdevQ v).queueDisable = false) (hdup : s.duplicate cmd v = true) :
      Enqueued c s cmd v (.deniedUnspecified, s.counted cmd)
  | poolEmpty (hon : (s.vdevQ v).queueDisable = false) (hdup : s.duplicate cmd v = false)
      (hpool : s.pdevQ.cmdPoolList = []) : Enqueued c s cmd v (.deniedListFull, s.counted cmd)
  | listFull {n : ℕ} {pool : List ℕ} (hon : (s.vdevQ v).queueDisable = false)
      (hdup : s.duplicate cmd v = false) (hpool : s.pdevQ.cmdPoolList = n :: pool)
      (hpend : s.activeQueue cmd v = false) (hfull : s.PendingFull c v) :
      Enqueued c s cmd v
        (.deniedListFull, (((s.counted cmd).fill n pool cmd).disable cmd v).releaseNode n)
  | active {n : ℕ} {pool : List ℕ} (hon : (s.vdevQ v).queueDisable = false)
      (hpool : s.pdevQ.cmdPoolList = n :: pool) (hact : s.activeQueue cmd v = true) :
      Enqueued c s cmd v
        (.active, (((s.fill n pool cmd).link n v true).mark n).awaitActivation n [])
  | pending {n : ℕ} {pool : List ℕ} (hon : (s.vdevQ v).queueDisable = false)
      (hdup : s.duplicate cmd v = false) (hpool : s.pdevQ.cmdPoolList = n :: pool)
      (hpend : s.activeQueue cmd v = false) (hroom : ¬s.PendingFull c v) :
      Enqueued c s cmd v (.pending, ((s.counted cmd).fill n pool cmd).link n v false)

theorem allowed_of_activeQueue (h : s.activeQueue cmd v = true) :
    (s.pdevQ.isActiveNonScanCmdAllowed cmd v).1 = true ∧ (s.vdevQ v).pendingList = [] := by
  rw [activeQueue, Bool.and_eq_true, List.isEmpty_iff] at h
  exact h

theorem addNonScanCmd_active (h : s.WellFormed c [])
    (hv : cmd.vdev = some v) (hact : s.activeQueue cmd v = true) (n : ℕ) (pool : List ℕ) :
    (s.fill n pool cmd).addNonScanCmd c n true = (.active, (s.fill n pool cmd).link n v true) := by
  have hidle := h.idle_of_allowed (allowed_of_activeQueue hact).1
  rw [addNonScanCmd_eq (v := v)]
  · rfl
  · rw [cmd_fill_self, hv]
  · change ((s.vdevQ v).list true).length ≠ 1
    rw [hidle]
    exact Nat.zero_ne_one
  · exact (h.active_length_lt hidle).ne

theorem addNonScanCmd_pendingFull (h : s.WellFormed c [])
    (hv : cmd.vdev = some v) {n : ℕ} {pool : List ℕ} (hpool : s.pdevQ.cmdPoolList = n :: pool)
    (hdup : findCmd s.pdevQ.cmds ((s.vdevQ v).list false) cmd = none)
    (hfull : s.PendingFull c v) :
    (s.fill n pool cmd).addNonScanCmd c n false =
      (.deniedListFull, (s.fill n pool cmd).disable cmd v) := by
  have hvn : ((s.fill n pool cmd).pdevQ.cmd n).vdev = some v := by rw [cmd_fill_self, hv]
  have hfill := h.fill hpool cmd
  have hcmd := s.cmd_fill_self n pool cmd
  by_cases hvfull : ((s.vdevQ v).list false).length = c.vdevMaxSize v false
  · rw [addNonScanCmd_full _ hvn hvfull, hcmd]
  · rw [addNonScanCmd_pdev_full hfill hvn, hcmd]
    · rw [marked, cmds_fill_self, h.kept.pool_zero n (by rw [hpool]; exact List.mem_cons_self)]
    · rw [hcmd]
      apply findCmd_fill _ hdup
      rw [h.mem_vdev_list]
      exact fun hc => h.kept.conserved.notMem_pool hc.1
        (by rw [hpool]; exact List.mem_cons_self)
    · exact hvfull
    · exact hfull.resolve_left hvfull

theorem addNonScanCmd_pending (s : NonScan m) (hv : cmd.vdev = some v)
    (n : ℕ) (pool : List ℕ) (hroom : ¬s.PendingFull c v) :
    (s.fill n pool cmd).addNonScanCmd c n false = (.pending, (s.fill n pool cmd).link n v false) := by
  rw [addNonScanCmd_eq (v := v)]
  · rfl
  · rw [cmd_fill_self, hv]
  · exact fun hc => hroom (.inl hc)
  · exact fun hc => hroom (.inr hc)

theorem enqueueCmd_spec (h : s.WellFormed c [])
    (hv : cmd.vdev = some v) : Enqueued c s cmd v (s.enqueueCmd c cmd v) := by
  rw [enqueueCmd]
  cases hoff : (s.vdevQ v).queueDisable with
  | true =>
    rw [if_pos rfl]
    exact .disabled hoff
  | false =>
    rw [if_neg Bool.false_ne_true]
    dsimp only
    rw [counted_eq, ← activeQueue, ← duplicate]
    obtain ⟨hvdevQ, hcmds, hlist, hpoolEq, -⟩ := s.counted_lists cmd
    have hcounted := h.counted cmd
    cases hdup : s.duplicate cmd v with
    | true =>
      rw [if_pos rfl]
      exact .duplicate hoff hdup
    | false =>
      rw [if_neg Bool.false_ne_true]
      cases hpool : s.pdevQ.cmdPoolList with
      | nil => exact .poolEmpty hoff hdup hpool
      | cons n pool =>
        dsimp only
        rw [← fill]
        cases hact : s.activeQueue cmd v with
        | true =>
          rw [counted_of_allowed (allowed_of_activeQueue hact).1,
            addNonScanCmd_active h hv hact]
          exact .active hoff hpool hact
        | false =>
          have hnone : findCmd s.pdevQ.cmds ((s.vdevQ v).list false) cmd = none := by
            rw [duplicate, hact] at hdup
            exact Option.not_isSome_iff_eq_none.mp (by rw [hdup]; exact Bool.false_ne_true)
          by_cases hfull : s.PendingFull c v
          · rw [addNonScanCmd_pendingFull hcounted hv (by rw [hpoolEq, hpool])
              (by rw [hvdevQ, hcmds, hnone]) (by rwa [PendingFull, hvdevQ, hlist])]
            exact .listFull hoff hdup hpool hact hfull
          · rw [addNonScanCmd_pending _ hv n pool (by rwa [PendingFull, hvdevQ, hlist])]
            exact .pending hoff hdup hpool hact hfull

theorem WellFormed.enqueueCmd (h : s.WellFormed c [])
    (hv : cmd.vdev = some v) : (s.enqueueCmd c cmd v).2.WellFormed c [] := by
  have hpoolEq := (s.counted_lists cmd).2.2.2.1
  have hspec := enqueueCmd_spec h hv
  generalize s.enqueueCmd c cmd v = r at hspec ⊢
  cases hspec with
  | disabled => exact h
  | duplicate => exact h.counted cmd
  | poolEmpty => exact h.counted cmd
  | listFull _ _ hpool =>
    exact (((h.counted cmd).fill (by rw [hpoolEq, hpool]) cmd).disable cmd v).releaseNode
  | @active n pool _ hpool hact =>
    have hlinked : ((s.fill n pool cmd).link n v true).WellFormed c [] := by
      apply (h.fill hpool cmd).link
      · rw [cmd_fill_self, hv]
      · exact fun hc => absurd hc (Ne.symm Bool.false_ne_true)
      · exact fun _ => h.idle_of_allowed (allowed_of_activeQueue hact).1
    apply hlinked.mark_await (mem_link _ n v true)
    intro hmem
    apply h.kept.conserved.notMem_pool (h.activating_marked n hmem).1
    rw [hpool]
    exact List.mem_cons_self
  | @pending n pool _ _ hpool =>
    apply ((h.counted cmd).fill (by rw [hpoolEq, hpool]) cmd).link
    · rw [cmd_fill_self, hv]
    · intro _
      rw [cmds_fill_self]
      have hzero := h.kept.pool_zero n (by rw [hpool]; exact List.mem_cons_self)
      rw [(s.counted_lists cmd).2.1, hzero]
    · exact fun hc => absurd hc Bool.false_ne_true

end KernelModules.WlanSer.NonScan
