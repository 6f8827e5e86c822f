import KernelModules.WlanRequests
import KernelModules.WlanScanNodes

/-!
# Runs of the serialization component

Every call on a pdev keeps what the ways in which its queues change keep, and so does every run
of a psoc for each of its pdevs.
-/

namespace KernelModules.WlanSer

variable {m : ℕ}

structure SerPdev.WellFormed (c : SerConfig m) (s : SerPdev m) : Prop where
  nonScan : s.nonScan.WellFormed c []
  scan : s.scan.WellFormed

/-- The two queues of a pdev with what is kept of each. -/
structure SerPdev.Keeps (c : SerConfig m) (I : NonScan m → Prop) (J : Scan m → Prop)
    (s : SerPdev m) : Prop where
  wf : s.WellFormed c
  nonScan : I s.nonScan
  scan : J s.scan

variable {c : SerConfig m}

theorem NonScan.init_wellFormed (c : SerConfig m) : (NonScan.init c).WellFormed c [] := by
  refine ⟨PdevQueue.init_kept m c.cmdPoolSize, ?_, ?_, ?_, ?_, ?_, List.nodup_nil⟩
  · intro a n hn
    cases a <;> cases hn
  · intro v a
    cases a <;> rfl
  · intro v
    exact Nat.zero_le 1
  · apply Bitmap.Shows.zero
    rintro i ⟨v, -, hne⟩
    exact hne rfl
  · intro n hn
    cases hn

theorem Scan.init_wellFormed (m : ℕ) : (Scan.init m).WellFormed := by
  refine ⟨PdevQueue.init_kept m scanPoolSize, Nat.zero_le _, ?_, List.nodup_nil⟩
  intro n hn
  cases hn

theorem SerPdev.init_wellFormed (c : SerConfig m) : (SerPdev.init c).WellFormed c :=
  ⟨NonScan.init_wellFormed c, Scan.init_wellFormed m⟩

namespace SerPdev

variable {maxActiveScans others : ℕ} {I F : NonScan m → Prop} {J : Scan m → Prop} {s : SerPdev m}

theorem Keeps.setNonScan (h : s.Keeps c I J) {t : NonScan m} (ht : t.WellFormed c [] ∧ I t) :
    SerPdev.Keeps c I J { s with nonScan := t } :=
  ⟨⟨ht.1, h.wf.scan⟩, ht.2, h.scan⟩

theorem Keeps.setScan (h : s.Keeps c I J) {t : Scan m} (ht : t.WellFormed ∧ J t) :
    SerPdev.Keeps c I J { s with scan := t } :=
  ⟨⟨h.wf.nonScan, ht.1⟩, h.nonScan, ht.2⟩

theorem Keeps.cancelCmd (h : s.Keeps c I J) (hI : NonScan.Stable c I F)
    (hJ : Scan.Stable maxActiveScans others J) (r : CancelArgs m) (a : Bool)
    (stopTimer : ℕ → Bool) : (s.cancelCmd r a stopTimer).2.Keeps c I J := by
  rw [SerPdev.cancelCmd]
  split
  · exact h.setScan (hJ.cancelScanCmd h.wf.scan h.scan r a stopTimer)
  · exact h.setNonScan (hI.cancelNonScanCmd h.wf.nonScan h.nonScan r a stopTimer)

theorem Keeps.purge (h : s.Keeps c I J) (hI : NonScan.Stable c I F)
    (hJ : Scan.Stable maxActiveScans others J) (stopTimer : ℕ → Bool)
    (calls : List (CancelArgs m × Bool)) : (s.purge stopTimer calls).Keeps c I J := by
  induction calls generalizing s with
  | nil => exact h
  | cons x calls ih => exact ih (h.cancelCmd hI hJ x.1 x.2 stopTimer)

theorem Keeps.cmdCancelHandler (h : s.Keeps c I J) (hI : NonScan.Stable c I F)
    (hJ : Scan.Stable maxActiveScans others J) (r : CancelArgs m) (activeQueue pendingQueue : Bool)
    (stopTimer : ℕ → Bool) :
    (s.cmdCancelHandler r activeQueue pendingQueue stopTimer).2.Keeps c I J := by
  have hactive : (if activeQueue then s.cancelCmd r true stopTimer
      else (.notFound, s)).2.Keeps c I J := by
    split
    · exact h.cancelCmd hI hJ r true stopTimer
    · exact h
  rw [SerPdev.cmdCancelHandler]
  dsimp only
  split
  · exact hactive.cancelCmd hI hJ r false stopTimer
  · exact hactive

theorem Keeps.dequeueCmd (h : s.Keeps c I J) (hI : NonScan.Stable c I F)
    (hJ : Scan.Stable maxActiveScans others J) (cmd : Cmd m) :
    (s.dequeueCmd c maxActiveScans others cmd).2.Keeps c I J := by
  rw [SerPdev.dequeueCmd]
  split
  · exact h
  · split
    · exact h.setScan (hJ.dequeueCmd h.wf.scan h.scan cmd)
    · exact h.setNonScan (hI.dequeueCmd h.wf.nonScan h.nonScan cmd [])

structure Reaches (cmd : Cmd m) (rulesPass isScan : Bool) (v : Fin m) : Prop where
  vdev : cmd.vdev = some v
  rulesPass : rulesPass = true
  cmdCb : cmd.cmdCb = true
  cmdType : cmd.cmdType.isScan = isScan

/-- A request reaches one of the two queues, or nothing happens. -/
inductive Requested (c : SerConfig m) (maxActiveScans others : ℕ) (s : SerPdev m) (cmd : Cmd m)
    (rulesPass : Bool) : SerStatus × SerPdev m → Prop
  | ignored (status : SerStatus) (hno : ∀ isScan v, ¬Reaches cmd rulesPass isScan v) :
      Requested c maxActiveScans others s cmd rulesPass (status, s)
  | scan (v : Fin m) (hreach : Reaches cmd rulesPass true v) :
      Requested c maxActiveScans others s cmd rulesPass
        ((s.scan.enqueueCmd maxActiveScans others cmd).1,
          { s with scan := (s.scan.enqueueCmd maxActiveScans others cmd).2 })
  | nonScan (v : Fin m) (hreach : Reaches cmd rulesPass false v) :
      Requested c maxActiveScans others s cmd rulesPass
        ((s.nonScan.enqueueCmd c cmd v).1,
          { s with nonScan := (s.nonScan.enqueueCmd c cmd v).2 })

theorem request_spec (c : SerConfig m) (maxActiveScans others : ℕ) (s : SerPdev m) (cmd : Cmd m)
    (rulesPass : Bool) :
    Requested c maxActiveScans others s cmd rulesPass
      (s.request c maxActiveScans others cmd rulesPass) := by
  rw [SerPdev.request]
  cases hv : cmd.vdev with
  | none =>
    rw [if_pos rfl]
    apply Requested.ignored
    intro isScan v hreach
    rw [hreach.vdev] at hv
    cases hv
  | some v =>
    rw [if_neg (Option.some_ne_none v)]
    cases hpass : rulesPass with
    | false =>
      rw [if_pos rfl]
      exact .ignored _ (fun isScan v hreach => Bool.false_ne_true hreach.rulesPass)
    | true =>
      rw [if_neg (Ne.symm Bool.false_ne_true), SerPdev.enqueueCmd, hv]
      dsimp only
      cases hcb : cmd.cmdCb with
      | false =>
        rw [if_pos rfl]
        apply Requested.ignored
        intro isScan v hreach
        rw [hreach.cmdCb] at hcb
        cases hcb
      | true =>
        rw [if_neg (Ne.symm Bool.false_ne_true)]
        cases htype : cmd.cmdType.isScan with
        | true =>
          rw [if_pos rfl]
          exact .scan v ⟨hv, rfl, hcb, htype⟩
        | false =>
          rw [if_neg Bool.false_ne_true]
          exact .nonScan v ⟨hv, rfl, hcb, htype⟩

theorem Keeps.request (h : s.Keeps c I J) {cmd : Cmd m} {rulesPass : Bool}
    (hreq : ∀ v, Reaches cmd rulesPass false v → I (s.nonScan.enqueueCmd c cmd v).2)
    (hscan : ∀ v, Reaches cmd rulesPass true v →
      J (s.scan.enqueueCmd maxActiveScans others cmd).2) :
    (s.request c maxActiveScans others cmd rulesPass).2.Keeps c I J := by
  have hspec := s.request_spec c maxActiveScans others cmd rulesPass
  generalize s.request c maxActiveScans others cmd rulesPass = r at hspec ⊢
  cases hspec with
  | ignored => exact h
  | scan v hreach =>
    exact h.setScan ⟨h.wf.scan.enqueueCmd maxActiveScans others cmd, hscan v hreach⟩
  | nonScan v hreach =>
    exact h.setNonScan ⟨h.wf.nonScan.enqueueCmd hreach.vdev, hreq v hreach⟩

theorem Keeps.step (h : s.Keeps c I J) (hI : NonScan.Stable c I F)
    (hJ : Scan.Stable maxActiveScans others J) (i : Input m)
    (hreq : ∀ cmd rulesPass v, i = .request cmd rulesPass → Reaches cmd rulesPass false v →
      I (s.nonScan.enqueueCmd c cmd v).2)
    (hscan : ∀ cmd rulesPass v, i = .request cmd rulesPass → Reaches cmd rulesPass true v →
      J (s.scan.enqueueCmd maxActiveScans others cmd).2) :
    (s.step c maxActiveScans others i).1.Keeps c I J := by
  cases i with
  | request cmd rulesPass =>
    exact h.request (fun v => hreq cmd rulesPass v rfl) (fun v => hscan cmd rulesPass v rfl)
  | removeCmd info => exact h.dequeueCmd hI hJ info.cmd
  | timerCb cmd => exact h.dequeueCmd hI hJ cmd
  | cancelRequest info reqType activeQueue pendingQueue stopTimer =>
    change (s.cancelRequest info reqType activeQueue pendingQueue stopTimer).2.Keeps c I J
    rw [SerPdev.cancelRequest]
    split
    · exact h
    · exact h.cmdCancelHandler hI hJ _ activeQueue pendingQueue stopTimer
  | nonScanActivated i ok stopTimer =>
    exact h.setNonScan (hI.activated h.wf.nonScan h.nonScan i ok stopTimer)
  | scanActivated i ok stopTimer =>
    exact h.setScan (hJ.activated h.wf.scan h.scan i ok stopTimer)
  | vdevQueueDisable v =>
    refine h.setNonScan ⟨?_, hI.setDisable s.nonScan v true h.nonScan⟩
    have hlist : ∀ u a, (Function.update s.nonScan.vdevQ v
        { s.nonScan.vdevQ v with queueDisable := true } u).list a =
          (s.nonScan.vdevQ u).list a := by
      intro u a
      by_cases hu : u = v
      · subst u
        rw [Function.update_self]
        rfl
      · rw [Function.update_of_ne hu]
    exact h.wf.nonScan.of_agree h.wf.nonScan.kept (fun _ => rfl) hlist rfl (fun _ _ _ => rfl) rfl
      (fun k hk => (h.wf.nonScan.activating_marked k hk).2)
  | purgeAllPdevCmd stopTimer => exact h.purge hI hJ stopTimer _
  | purgeAllPendingCmdByVdevId v => exact h.purge hI hJ _ _
  | purgeAllScanCmdByVdevId v stopTimer => exact h.purge hI hJ stopTimer _

end SerPdev

theorem Scan.stable_true (maxActiveScans others : ℕ) :
    Scan.Stable maxActiveScans others (fun _ : Scan m => True) :=
  ⟨fun _ _ _ _ => trivial, fun _ _ _ => trivial, fun _ _ _ _ _ _ => trivial,
    fun _ _ _ _ _ _ => trivial⟩

theorem NonScan.stable_true (c : SerConfig m) : NonScan.Stable c (fun _ => True) (fun _ => True) :=
  ⟨fun _ _ _ _ => trivial, fun _ _ _ => trivial, fun _ _ _ _ _ _ _ => ⟨trivial, trivial⟩,
    fun _ _ _ _ _ _ _ => trivial, fun _ _ _ _ _ _ _ _ _ _ => trivial, fun _ _ _ => trivial,
    fun _ _ _ _ => trivial⟩

section Psoc

open SerPdev (Reaches)

variable {Pdev : Type} [Fintype Pdev] [DecidableEq Pdev]

theorem psoc_step_keeps {I F : NonScan m → Prop} (hI : NonScan.Stable c I F) (maxActiveScans : ℕ)
    {s : Pdev → SerPdev m} (i : Pdev × Input m)
    (hs : ∀ p, (s p).Keeps c I (fun _ => True))
    (hreq : ∀ cmd rulesPass v, i.2 = .request cmd rulesPass → Reaches cmd rulesPass false v →
      I ((s i.1).nonScan.enqueueCmd c cmd v).2) (p : Pdev) :
    (((psoc c maxActiveScans).step s i).1 p).Keeps c I (fun _ => True) := by
  by_cases hp : p = i.1
  · subst p
    change (Function.update s i.1 _ i.1).Keeps c I (fun _ => True)
    rw [Function.update_self]
    exact (hs i.1).step hI (Scan.stable_true maxActiveScans _) i.2 hreq (fun _ _ _ _ _ => trivial)
  · change (Function.update s i.1 _ p).Keeps c I (fun _ => True)
    rw [Function.update_of_ne hp]
    exact hs p

theorem psoc_run_keeps {I F : NonScan m → Prop} (hI : NonScan.Stable c I F) (maxActiveScans : ℕ)
    {C : SerPdev m → Input m → Prop}
    (hreq : ∀ (s : SerPdev m) cmd rulesPass v, s.nonScan.WellFormed c [] → I s.nonScan →
      C s (.request cmd rulesPass) → Reaches cmd rulesPass false v →
      I (s.nonScan.enqueueCmd c cmd v).2)
    (hinit : I (NonScan.init c)) {inputs : List (Pdev × Input m)}
    (hm : (psoc c maxActiveScans).Meets (fun s i => C (s i.1) i.2) (fun _ => SerPdev.init c) inputs)
    (p : Pdev) :
    ((((psoc c maxActiveScans).run (fun _ => SerPdev.init c) inputs).1 p).Keeps c I
      (fun _ => True)) := by
  refine Machine.invariant_of_meets _ (I := fun s => ∀ p, (s p).Keeps c I (fun _ => True))
    ?_ ?_ hm p
  · intro s i hs hc q
    apply psoc_step_keeps hI maxActiveScans i hs
    intro cmd rulesPass v hi hreach
    rw [hi] at hc
    exact hreq (s i.1) cmd rulesPass v (hs i.1).wf.nonScan (hs i.1).nonScan hc hreach
  · intro q
    exact ⟨SerPdev.init_wellFormed c, hinit, trivial⟩

theorem psoc_run_wellFormed (c : SerConfig m) (maxActiveScans : ℕ) (inputs : List (Pdev × Input m))
    (p : Pdev) :
    (((psoc c maxActiveScans).run (fun _ => SerPdev.init c) inputs).1 p).WellFormed c := by
  have hstep : ∀ (s : Pdev → SerPdev m) (i : Pdev × Input m),
      (∀ p, (s p).Keeps c (fun _ => True) (fun _ => True)) →
      ∀ p, (((psoc c maxActiveScans).step s i).1 p).Keeps c (fun _ => True) (fun _ => True) :=
    fun s i hs => psoc_step_keeps (NonScan.stable_true c) maxActiveScans i hs
      (fun _ _ _ _ _ => trivial)
  have hinit : ∀ _ : Pdev, (SerPdev.init c).Keeps c (fun _ => True) (fun _ => True) :=
    fun _ => ⟨SerPdev.init_wellFormed c, trivial, trivial⟩
  exact (Machine.invariant _ hstep inputs hinit p).wf

def PdevQueue.Partitioned (q : PdevQueue m) (size : ℕ) : Prop :=
  (q.cmdPoolList ++ q.activeList ++ q.pendingList).Perm (List.range size) ∧
    q.cmdPoolList.length + q.activeList.length + q.pendingList.length = size

theorem PdevQueue.Conserved.partitioned {q : PdevQueue m} {size : ℕ}
    (h : q.Conserved [] size) : q.Partitioned size := by
  have hperm : (q.cmdPoolList ++ q.activeList ++ q.pendingList).Perm (List.range size) := by
    rw [List.perm_iff_count]
    intro n
    have hn := h n
    rw [List.count_nil, PdevQueue.list_true, PdevQueue.list_false] at hn
    rw [List.count_append, List.count_append, List.count_range, ← hn]
    omega
  have hlength := hperm.length_eq
  rw [List.length_append, List.length_append, List.length_range] at hlength
  exact ⟨hperm, hlength⟩

/-- Every node of a queue is in one of its three lists, and the lists of a vdev are those of its
pdev with the commands of the other vdevs left out. -/
theorem nodes_conserved (c : SerConfig m) (maxActiveScans : ℕ) (inputs : List (Pdev × Input m))
    (p : Pdev) :
    let s := ((psoc c maxActiveScans).run (fun _ => SerPdev.init c) inputs).1 p
    s.scan.pdevQ.Partitioned scanPoolSize ∧ s.nonScan.pdevQ.Partitioned c.cmdPoolSize ∧
      ∀ v, (s.nonScan.vdevQ v).activeList =
          s.nonScan.pdevQ.activeList.filter (fun n => (s.nonScan.pdevQ.cmd n).vdev = some v) ∧
        (s.nonScan.vdevQ v).pendingList =
          s.nonScan.pdevQ.pendingList.filter (fun n => (s.nonScan.pdevQ.cmd n).vdev = some v) := by
  intro s
  have hwf : s.WellFormed c := psoc_run_wellFormed c maxActiveScans inputs p
  refine ⟨hwf.scan.kept.conserved.partitioned, hwf.nonScan.kept.conserved.partitioned, ?_⟩
  intro v
  have hfilter : ∀ a, (s.nonScan.vdevQ v).list a = (s.nonScan.pdevQ.list a).filter
      (fun n => (s.nonScan.pdevQ.cmd n).vdev = some v) := by
    intro a
    rw [hwf.nonScan.vdev_list]
    apply List.filter_congr
    intro n _
    rw [NonScan.ofVdev, beq_eq_decide]
  exact ⟨hfilter true, hfilter false⟩

end Psoc

end KernelModules.WlanSer
