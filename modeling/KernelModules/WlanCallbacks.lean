import KernelModules.WlanScanCancels

/-!
# The callbacks of a cancel

A cancel tells the component that issued a command that it is cancelled, and then that what it
holds is to be released. The calls are kept beside the queues. Every command that is in a list has
a callback, as a request without one is denied.
-/

namespace KernelModules.WlanSer

variable {m : ℕ}

/-- The members of `enum wlan_serialization_cb_reason` that a cancel uses. -/
inductive CbReason
  | cancelCmd
  | releaseMemCmd

structure Callback (m : ℕ) where
  node : ℕ
  cmd : Cmd m
  reason : CbReason

def cancelCallbacks (n : ℕ) (cmd : Cmd m) : List (Callback m) :=
  if cmd.cmdCb then [⟨n, cmd, .cancelCmd⟩, ⟨n, cmd, .releaseMemCmd⟩] else []

/-- The loop with the callbacks that it called. -/
def CancelOps.logged {σ : Type} (o : CancelOps σ) (cmd : σ → ℕ → Cmd m) :
    CancelOps (σ × List (Callback m)) where
  queue x := o.queue x.1
  isMatch x := o.isMatch x.1
  marked x := o.marked x.1
  mark n x := (o.mark n x.1, x.2)
  drop n x := (o.drop n x.1, x.2 ++ cancelCallbacks n (cmd x.1 n))
  stopTimer := o.stopTimer
  isActiveQueue := o.isActiveQueue
  single := o.single

theorem cancelLoop_logged {σ : Type} (o : CancelOps σ) (cmd : σ → ℕ → Cmd m) (qsize : ℕ)
    (nnode pnode : Option ℕ) (status : CmdStatus) (x : σ × List (Callback m)) :
    Prod.map id Prod.fst (cancelLoop (o.logged cmd) qsize nnode pnode status x) =
      cancelLoop o qsize nnode pnode status x.1 := by
  induction qsize generalizing nnode pnode status x with
  | zero => rfl
  | succ qsize ih =>
    rw [cancelLoop, cancelLoop]
    have hqueue : (o.logged cmd).queue x = o.queue x.1 := rfl
    rw [hqueue]
    by_cases hempty : o.queue x.1 = []
    · rw [if_pos hempty, if_pos hempty]
      rfl
    rw [if_neg hempty, if_neg hempty]
    cases getCmdFromQueue (o.queue x.1) nnode with
    | none => rfl
    | some n =>
      change Prod.map id Prod.fst (if o.isMatch x.1 n = false then _
        else if (o.isActiveQueue && o.marked x.1 n) = true then _
        else if (o.isActiveQueue && !o.stopTimer n) = true then _
        else if o.single = true then _ else _) = if o.isMatch x.1 n = false then _
        else if (o.isActiveQueue && o.marked x.1 n) = true then _
        else if (o.isActiveQueue && !o.stopTimer n) = true then _
        else if o.single = true then _ else _
      by_cases hmatch : o.isMatch x.1 n = false
      · rw [if_pos hmatch, if_pos hmatch]
        exact ih _ _ _ x
      rw [if_neg hmatch, if_neg hmatch]
      by_cases hmarked : (o.isActiveQueue && o.marked x.1 n) = true
      · rw [if_pos hmarked, if_pos hmarked]
        exact ih _ _ _ (o.mark n x.1, x.2)
      rw [if_neg hmarked, if_neg hmarked]
      by_cases hstop : (o.isActiveQueue && !o.stopTimer n) = true
      · rw [if_pos hstop, if_pos hstop]
        rfl
      rw [if_neg hstop, if_neg hstop]
      by_cases hsingle : o.single = true
      · rw [if_pos hsingle, if_pos hsingle]
        rfl
      rw [if_neg hsingle, if_neg hsingle]
      exact ih _ _ _ (o.drop n x.1, x.2 ++ cancelCallbacks n (cmd x.1 n))

def Scan.cancelScanCmdLog (s : Scan m) (r : CancelArgs m) (isActive : Bool)
    (stopTimer : ℕ → Bool) : CmdStatus × Scan m × List (Callback m) :=
  cancelLoop ((Scan.cancelOps r isActive stopTimer).logged fun s n => s.pdevQ.cmd n)
    (s.pdevQ.list isActive).length none none .notFound (s, [])

def NonScan.cancelNonScanCmdLog (s : NonScan m) (r : CancelArgs m) (isActive : Bool)
    (stopTimer : ℕ → Bool) : CmdStatus × NonScan m × List (Callback m) :=
  cancelLoop ((NonScan.cancelOps r isActive stopTimer).logged fun s n => s.pdevQ.cmd n)
    (s.pdevQ.list isActive).length none none .notFound (s, [])

namespace SerPdev

variable (s : SerPdev m) (r : CancelArgs m)

def cancelCmdLog (isActive : Bool) (stopTimer : ℕ → Bool) :
    CmdStatus × SerPdev m × List (Callback m) :=
  if r.cmdType.isScan then
    let x := s.scan.cancelScanCmdLog r isActive stopTimer
    (x.1, { s with scan := x.2.1 }, x.2.2)
  else
    let x := s.nonScan.cancelNonScanCmdLog r isActive stopTimer
    (x.1, { s with nonScan := x.2.1 }, x.2.2)

/-- `wlan_serialization_cmd_cancel_handler` with the callbacks that it called. -/
def cmdCancelHandlerLog (activeQueue pendingQueue : Bool) (stopTimer : ℕ → Bool) :
    CmdStatus × SerPdev m × List (Callback m) :=
  let x := if activeQueue then s.cancelCmdLog r true stopTimer else (.notFound, s, [])
  let y := if pendingQueue then x.2.1.cancelCmdLog r false stopTimer else (.notFound, x.2.1, [])
  (if x.1 = .inActiveList ∧ y.1 = .inPendingList then .inAllLists
    else if x.1 = .inActiveList then .inActiveList
    else if y.1 = .inPendingList then .inPendingList
    else .notFound, y.2.1, x.2.2 ++ y.2.2)

theorem cancelCmdLog_eq (isActive : Bool) (stopTimer : ℕ → Bool) :
    Prod.map id Prod.fst (s.cancelCmdLog r isActive stopTimer) =
      s.cancelCmd r isActive stopTimer := by
  rw [cancelCmdLog, cancelCmd]
  split
  · rw [Scan.cancelScanCmd, ← cancelLoop_logged _ (fun s n => s.pdevQ.cmd n) _ _ _ _ (s.scan, [])]
    rfl
  · rw [NonScan.cancelNonScanCmd,
      ← cancelLoop_logged _ (fun s n => s.pdevQ.cmd n) _ _ _ _ (s.nonScan, [])]
    rfl

theorem cmdCancelHandlerLog_eq (activeQueue pendingQueue : Bool) (stopTimer : ℕ → Bool) :
    Prod.map id Prod.fst (s.cmdCancelHandlerLog r activeQueue pendingQueue stopTimer) =
      s.cmdCancelHandler r activeQueue pendingQueue stopTimer := by
  rw [cmdCancelHandler]
  cases activeQueue with
  | true =>
    cases pendingQueue with
    | true => rw [if_pos rfl, if_pos rfl, ← cancelCmdLog_eq, ← cancelCmdLog_eq]; rfl
    | false => rw [if_pos rfl, if_neg Bool.false_ne_true, ← cancelCmdLog_eq]; rfl
  | false =>
    cases pendingQueue with
    | true => rw [if_neg Bool.false_ne_true, if_pos rfl, ← cancelCmdLog_eq]; rfl
    | false => rfl

end SerPdev

def PdevQueue.HasCallbacks (q : PdevQueue m) : Prop := ∀ a, ∀ n ∈ q.list a, (q.cmd n).cmdCb = true

namespace PdevQueue

variable {q q' : PdevQueue m}

theorem HasCallbacks.of_sub (h : q.HasCallbacks)
    (hsub : ∀ a, ∀ n ∈ q'.list a, (∃ b, n ∈ q.list b) ∧ q'.cmd n = q.cmd n) : q'.HasCallbacks := by
  intro a n hn
  obtain ⟨⟨b, hb⟩, hcmd⟩ := hsub a n hn
  rw [hcmd]
  exact h b n hb

theorem HasCallbacks.setInUse (h : q.HasCallbacks) (n : ℕ) (u : CmdInUse) :
    (q.setInUse n u).HasCallbacks :=
  h.of_sub fun a k hk => ⟨⟨a, hk⟩, cmd_setInUse n k u⟩

variable {n : ℕ} {a : Bool} {size : ℕ} {hand : List ℕ}

theorem HasCallbacks.place (h : q.HasCallbacks)
    (hlist : ∀ b, q'.list b = if b = a then WlanSer.place (q.cmd n) n (q.list a) else q.list b)
    (hcmd : ∀ k, q'.cmd k = q.cmd k) (hn : (q.cmd n).cmdCb = true) : q'.HasCallbacks := by
  intro b k hk
  rw [hlist] at hk
  rw [hcmd]
  split at hk
  · rcases mem_place.mp hk with rfl | hk
    · exact hn
    · exact h a k hk
  · exact h b k hk

theorem HasCallbacks.erase (h : q.HasCallbacks)
    (hq : q.Conserved hand size) (hn : n ∈ q.list a)
    (hlist : ∀ b, q'.list b = if b = a then (q.list a).erase n else q.list b)
    (hcmd : ∀ k, k ≠ n → q'.cmd k = q.cmd k) : q'.HasCallbacks := by
  apply h.of_sub
  intro b k hk
  rw [hlist] at hk
  split at hk
  next hb =>
    obtain ⟨hkn, hk'⟩ := (hq.nodup a).mem_erase_iff.mp hk
    exact ⟨⟨a, hk'⟩, hcmd k hkn⟩
  next hb =>
    refine ⟨⟨b, hk⟩, hcmd k ?_⟩
    rintro rfl
    exact hq.notMem_other hn hb hk

theorem HasCallbacks.fill (h : q.HasCallbacks) {pool : List ℕ}
    (hq : q.Conserved hand size) (hpool : q.cmdPoolList = n :: pool) (cmd : Cmd m) :
    ((q.setPool pool).setCmd n cmd).HasCallbacks := by
  apply h.of_sub
  intro a k hk
  refine ⟨⟨a, hk⟩, ?_⟩
  have hkn : k ≠ n := by
    rintro rfl
    apply hq.notMem_pool hk
    rw [hpool]
    exact List.mem_cons_self
  change (Function.update q.cmds n _ k).cmd = _
  rw [Function.update_of_ne hkn, PdevQueue.cmd]

theorem HasCallbacks.release (h : q.HasCallbacks) (hn : ∀ a, n ∉ q.list a) :
    (q.release n).HasCallbacks := by
  apply h.of_sub
  intro a k hk
  refine ⟨⟨a, hk⟩, cmd_release_of_ne ?_⟩
  rintro rfl
  exact hn a hk

end PdevQueue

namespace NonScan

variable {c : SerConfig m} {s : NonScan m}

theorem uncount_queue (s : NonScan m) (b : Bool) :
    (∀ a, (s.uncount b).pdevQ.list a = s.pdevQ.list a) ∧
      (s.uncount b).pdevQ.cmds = s.pdevQ.cmds := by
  rw [uncount]
  split
  · exact ⟨fun _ => rfl, rfl⟩
  · exact ⟨fun _ => rfl, rfl⟩

theorem hasCallbacks_congr {t : NonScan m} (h : s.pdevQ.HasCallbacks)
    (hlist : ∀ a, t.pdevQ.list a = s.pdevQ.list a) (hcmds : t.pdevQ.cmds = s.pdevQ.cmds) :
    t.pdevQ.HasCallbacks := by
  apply h.of_sub
  intro a k hk
  rw [hlist] at hk
  exact ⟨⟨a, hk⟩, cmd_congr hcmds k⟩

variable {n : ℕ}

theorem discard_list (s : NonScan m) (n : ℕ) (v : Fin m) (a b : Bool) :
    (s.discard n v a).pdevQ.list b =
      if b = a then (s.pdevQ.list a).erase n else s.pdevQ.list b :=
  unlink_list s n v a b

theorem discard_cmd_of_ne (s : NonScan m) {k : ℕ} (v : Fin m) (a : Bool) (h : k ≠ n) :
    (s.discard n v a).pdevQ.cmd k = s.pdevQ.cmd k :=
  (PdevQueue.cmd_release_of_ne h).trans (cmd_congr (s.unlink_cmds n v a) k)

theorem hasCallbacks_discard (h : s.WellFormed c []) (hs : s.pdevQ.HasCallbacks) {a : Bool}
    (v : Fin m) (hn : n ∈ s.pdevQ.list a) : (s.discard n v a).pdevQ.HasCallbacks :=
  hs.erase h.kept.conserved hn (discard_list s n v a) fun _ hk => discard_cmd_of_ne s v a hk

theorem hasCallbacks_link (hs : s.pdevQ.HasCallbacks) (hn : (s.pdevQ.cmd n).cmdCb = true)
    (v : Fin m) (a : Bool) : (s.link n v a).pdevQ.HasCallbacks :=
  hs.place (s.link_list n v a) (cmd_congr (s.link_cmds n v a)) hn

theorem stable_hasCallbacks (c : SerConfig m) :
    Stable c (fun s => s.pdevQ.HasCallbacks) (fun _ => True) where
  setInUse _ n u hs := hs.setInUse n u
  setActivations _ _ hs := hs
  discard s n v h hs hn _ := ⟨hasCallbacks_discard h hs v hn, trivial⟩
  cancel s n v h hs hn _ :=
    have hqueue := uncount_queue (s.discard n v false) (s.pdevQ.cmd n).isBlocking
    hasCallbacks_congr (hasCallbacks_discard h hs v hn) hqueue.1 hqueue.2
  promote s n v h hs _ hn _ _ _ := by
    have hunlinked : (s.unlink n v false).pdevQ.HasCallbacks :=
      hs.erase h.kept.conserved hn (s.unlink_list n v false)
        fun k _ => cmd_congr (s.unlink_cmds n v false) k
    have hcb : ((s.unlink n v false).pdevQ.cmd n).cmdCb = true := by
      rw [cmd_congr (s.unlink_cmds n v false)]
      exact hs false n hn
    have hlinked := hasCallbacks_link hunlinked hcb v true
    have hqueue := uncount_queue (((s.unlink n v false).link n v true).mark n)
      (s.pdevQ.cmd n).isBlocking
    exact hasCallbacks_congr (hlinked.setInUse n _) hqueue.1 hqueue.2
  free _ _ _ := trivial
  setDisable _ _ _ hs := hs

theorem enqueueCmd_hasCallbacks (h : s.WellFormed c []) (hs : s.pdevQ.HasCallbacks) {cmd : Cmd m}
    {v : Fin m} (hv : cmd.vdev = some v) (hcb : cmd.cmdCb = true) :
    (s.enqueueCmd c cmd v).2.pdevQ.HasCallbacks := by
  obtain ⟨-, hcmds, hlist, hpoolEq, -⟩ := s.counted_lists cmd
  have hcounted : (s.counted cmd).pdevQ.HasCallbacks := hasCallbacks_congr hs hlist hcmds
  have hwf := h.counted cmd
  have hspec := enqueueCmd_spec h hv
  generalize s.enqueueCmd c cmd v = r at hspec ⊢
  cases hspec with
  | disabled => exact hs
  | duplicate => exact hcounted
  | poolEmpty => exact hcounted
  | @listFull n pool _ _ hpool =>
    have hpool' := hpoolEq.trans hpool
    have hfill := hcounted.fill hwf.kept.conserved hpool' cmd
    have hfree : ∀ a, n ∉ (((s.counted cmd).fill n pool cmd).disable cmd v).pdevQ.list a := by
      intro a hn
      apply hwf.kept.conserved.notMem_pool (a := a) hn
      rw [hpool']
      exact List.mem_cons_self
    exact hfill.release hfree
  | @active n pool _ hpool =>
    have hfill := hs.fill h.kept.conserved hpool cmd
    have hlink := hasCallbacks_link (s := s.fill n pool cmd) hfill
      (by rw [cmd_fill_self, hcb]) v true
    exact hlink.setInUse n _
  | @pending n pool _ _ hpool =>
    have hfill := hcounted.fill hwf.kept.conserved (by rw [hpoolEq, hpool]) cmd
    exact hasCallbacks_link (s := (s.counted cmd).fill n pool cmd) hfill
      (by rw [cmd_fill_self, hcb]) v false

end NonScan

namespace Scan

variable {s : Scan m}

theorem hasCallbacks_activate (hs : s.pdevQ.HasCallbacks) {n : ℕ}
    (hn : (s.pdevQ.cmd n).cmdCb = true) : (s.activate n).pdevQ.HasCallbacks := by
  have hplace : (s.pdevQ.setList true (place (s.pdevQ.cmd n) n (s.pdevQ.list true))).HasCallbacks :=
    hs.place (fun b => s.pdevQ.list_setList true b _) (fun k => PdevQueue.cmd_setList true _ k) hn
  exact hplace.setInUse n _

theorem stable_hasCallbacks (maxActiveScans others : ℕ) :
    Stable (m := m) maxActiveScans others (fun s => s.pdevQ.HasCallbacks) where
  setInUse _ n u hs := hs.setInUse n u
  setActivations _ _ hs := hs
  dropCmd s n a h hs hn :=
    hs.erase h.kept.conserved hn (s.dropCmd_list n a) fun k hk => cmd_dropCmd_of_ne s a hk
  promote s n h hs hn _ := by
    have hcmd : ∀ k, (s.unlink n false).pdevQ.cmd k = s.pdevQ.cmd k :=
      fun k => PdevQueue.cmd_setList false _ k
    have hunlinked : (s.unlink n false).pdevQ.HasCallbacks :=
      hs.erase h.kept.conserved hn (s.unlink_list n false) fun k _ => hcmd k
    apply hasCallbacks_activate hunlinked
    rw [hcmd]
    exact hs false n hn

theorem enqueueCmd_hasCallbacks (h : s.WellFormed) (hs : s.pdevQ.HasCallbacks)
    (maxActiveScans others : ℕ) {cmd : Cmd m} (hcb : cmd.cmdCb = true) :
    (s.enqueueCmd maxActiveScans others cmd).2.pdevQ.HasCallbacks := by
  have hspec := enqueueCmd_spec maxActiveScans others s cmd
  generalize s.enqueueCmd maxActiveScans others cmd = r at hspec ⊢
  have hfill : ∀ {n : ℕ} {pool : List ℕ}, s.pdevQ.cmdPoolList = n :: pool →
      (s.fill n pool cmd).pdevQ.HasCallbacks := fun hpool => hs.fill h.kept.conserved hpool cmd
  have hcmd : ∀ (n : ℕ) (pool : List ℕ), ((s.fill n pool cmd).pdevQ.cmd n).cmdCb = true := by
    intro n pool
    rw [PdevQueue.cmd, cmds_fill_self, hcb]
  cases hspec with
  | duplicate => exact hs
  | poolEmpty => exact hs
  | @listFull n pool _ hpool =>
    have hfree : ∀ a, n ∉ (s.fill n pool cmd).pdevQ.list a := by
      intro a hn
      apply h.kept.conserved.notMem_pool (a := a) hn
      rw [hpool]
      exact List.mem_cons_self
    exact (hfill hpool).release hfree
  | active hpool => exact hasCallbacks_activate (hfill hpool) (hcmd _ _)
  | @pending n pool hpool =>
    exact (hfill hpool).place (fun b => PdevQueue.list_setList _ false b _)
      (fun k => PdevQueue.cmd_setList false _ k) (hcmd n pool)

end Scan

theorem psoc_run_keeps_callbacks {Pdev : Type} [Fintype Pdev] [DecidableEq Pdev] (c : SerConfig m)
    (maxActiveScans : ℕ) (inputs : List (Pdev × Input m)) (p : Pdev) :
    (((psoc c maxActiveScans).run (fun _ => SerPdev.init c) inputs).1 p).Keeps c
      (fun s => s.pdevQ.HasCallbacks) (fun s => s.pdevQ.HasCallbacks) := by
  have hstep : ∀ (s : Pdev → SerPdev m) (i : Pdev × Input m),
      (∀ p, (s p).Keeps c (fun s => s.pdevQ.HasCallbacks) (fun s => s.pdevQ.HasCallbacks)) →
      ∀ p, (((psoc c maxActiveScans).step s i).1 p).Keeps c (fun s => s.pdevQ.HasCallbacks)
        (fun s => s.pdevQ.HasCallbacks) := by
    intro s i hs p
    by_cases hp : p = i.1
    · subst p
      change (Function.update s i.1 _ i.1).Keeps c _ _
      rw [Function.update_self]
      have hkeeps := hs i.1
      apply hkeeps.step (NonScan.stable_hasCallbacks c) (Scan.stable_hasCallbacks maxActiveScans _) i.2
      · intro cmd rulesPass v _ hreach
        exact NonScan.enqueueCmd_hasCallbacks hkeeps.wf.nonScan hkeeps.nonScan hreach.vdev hreach.cmdCb
      · intro cmd rulesPass v _ hreach
        exact Scan.enqueueCmd_hasCallbacks hkeeps.wf.scan hkeeps.scan _ _ hreach.cmdCb
    · change (Function.update s i.1 _ p).Keeps c _ _
      rw [Function.update_of_ne hp]
      exact hs p
  have hnil : ∀ size, (PdevQueue.init m size).HasCallbacks := by
    intro size a n hn
    cases a <;> cases hn
  exact Machine.invariant _ hstep inputs
    (fun _ => ⟨SerPdev.init_wellFormed c, hnil c.cmdPoolSize, hnil scanPoolSize⟩) p

end KernelModules.WlanSer
