import KernelModules.WlanSteps

/-!
# Steps of the scans

The scans of a pdev move between the pool and the two lists as the non-scan commands do, only
that no vdev has a list of them.
-/

namespace KernelModules.WlanSer

variable {m : ℕ}

namespace Scan

variable {s : Scan m}

def marked (s : Scan m) (n : ℕ) : Bool := (s.pdevQ.cmds n).cmdInUse.markedForActivation

structure WellFormed (s : Scan m) : Prop where
  kept : s.pdevQ.Kept [] scanPoolSize
  active_le : (s.pdevQ.list true).length ≤ maxActiveScanCmds
  activating_marked : ∀ n ∈ s.activations, n ∈ s.pdevQ.list true ∧ s.marked n = true
  activating_nodup : s.activations.Nodup

def setInUse (s : Scan m) (n : ℕ) (u : CmdInUse) : Scan m := s.setPdev (s.pdevQ.setInUse n u)

def activate (s : Scan m) (n : ℕ) : Scan m :=
  let q := s.pdevQ.setList true (place (s.pdevQ.cmd n) n (s.pdevQ.list true))
  (s.setPdev (q.setInUse n
    { (q.cmds n).cmdInUse with markedForActivation := true })).awaitActivation n

def unlink (s : Scan m) (n : ℕ) (a : Bool) : Scan m :=
  s.setPdev (s.pdevQ.setList a ((s.pdevQ.list a).erase n))

def fill (s : Scan m) (n : ℕ) (pool : List ℕ) (cmd : Cmd m) : Scan m :=
  s.setPdev ((s.pdevQ.setPool pool).setCmd n cmd)

theorem activate_list (s : Scan m) (n : ℕ) (b : Bool) :
    (s.activate n).pdevQ.list b =
      if b = true then place (s.pdevQ.cmd n) n (s.pdevQ.list true) else s.pdevQ.list b := by
  cases b <;> rfl

theorem unlink_list (s : Scan m) (n : ℕ) (a b : Bool) :
    (s.unlink n a).pdevQ.list b =
      if b = a then (s.pdevQ.list a).erase n else s.pdevQ.list b := by
  cases a <;> cases b <;> rfl

theorem dropCmd_list (s : Scan m) (n : ℕ) (a b : Bool) :
    (s.dropCmd a n).pdevQ.list b =
      if b = a then (s.pdevQ.list a).erase n else s.pdevQ.list b := by
  cases a <;> cases b <;> rfl

namespace WellFormed

variable {n : ℕ}

theorem pending_notMem_activations (h : s.WellFormed) (hn : n ∈ s.pdevQ.list false) :
    n ∉ s.activations := fun hmem =>
  h.kept.conserved.notMem_other hn (Ne.symm Bool.false_ne_true) (h.activating_marked n hmem).1

theorem setInUse (h : s.WellFormed) (hn : n ∈ s.pdevQ.list true) {u : CmdInUse}
    (hu : n ∈ s.activations → u.markedForActivation = true) : (s.setInUse n u).WellFormed := by
  refine ⟨h.kept.setInUse hn u, h.active_le, ?_, h.activating_nodup⟩
  intro k hk
  have hold := h.activating_marked k hk
  refine ⟨hold.1, ?_⟩
  by_cases hkn : k = n
  · subst k
    rw [marked, Scan.setInUse, setPdev, PdevQueue.cmds_setInUse_self]
    exact hu hk
  · rw [marked, Scan.setInUse, setPdev, PdevQueue.cmds_setInUse_of_ne u hkn]
    exact hold.2

theorem dropCmd (h : s.WellFormed) {a : Bool} (hn : n ∈ s.pdevQ.list a)
    (hmark : a = true → s.marked n = false) : (s.dropCmd a n).WellFormed := by
  refine ⟨(h.kept.erase hn).release, ?_, ?_, h.activating_nodup⟩
  · rw [dropCmd_list]
    split
    next ha =>
      rw [← ha]
      exact (List.length_erase_le ..).trans h.active_le
    next => exact h.active_le
  · intro k hk
    have hold := h.activating_marked k hk
    have hkn : k ≠ n := by
      rintro rfl
      cases a with
      | true =>
        rw [hmark rfl] at hold
        exact Bool.false_ne_true hold.2
      | false => exact h.pending_notMem_activations hn hk
    refine ⟨?_, ?_⟩
    · rw [dropCmd_list]
      split
      next ha =>
        rw [← ha]
        exact (List.mem_erase_of_ne hkn).mpr hold.1
      next => exact hold.1
    · change ((PdevQueue.release _ n).cmds k).cmdInUse.markedForActivation = true
      rw [PdevQueue.cmds_release_of_ne hkn, PdevQueue.cmds_setList]
      exact hold.2

theorem activate (hkept : s.pdevQ.Kept [n] scanPoolSize)
    (hroom : (s.pdevQ.list true).length < maxActiveScanCmds)
    (hact : ∀ k ∈ s.activations, k ∈ s.pdevQ.list true ∧ s.marked k = true)
    (hnodup : s.activations.Nodup) : (s.activate n).WellFormed := by
  have hinsert := hkept.insert (a := true) (fun hc => absurd hc (Ne.symm Bool.false_ne_true))
    (s.pdevQ.cmd n)
  have hmem : n ∈ (s.pdevQ.setList true (place (s.pdevQ.cmd n) n (s.pdevQ.list true))).list true := by
    rw [PdevQueue.list_setList, if_pos rfl]
    exact mem_place.mpr (.inl rfl)
  have hfree := hkept.conserved.notMem_hand true
  have hmarked : ∀ k, (s.activate n).marked k = if k = n then true else s.marked k := by
    intro k
    by_cases hkn : k = n
    · subst k
      rw [if_pos rfl, marked, Scan.activate]
      change ((PdevQueue.setInUse _ n _).cmds n).cmdInUse.markedForActivation = true
      rw [PdevQueue.cmds_setInUse_self]
    · rw [if_neg hkn, marked, Scan.activate]
      change ((PdevQueue.setInUse _ n _).cmds k).cmdInUse.markedForActivation = _
      rw [PdevQueue.cmds_setInUse_of_ne _ hkn, PdevQueue.cmds_setList, marked]
  refine ⟨hinsert.setInUse hmem _, ?_, ?_, ?_⟩
  · rw [activate_list, if_pos rfl, length_place]
    exact hroom
  · intro k hk
    rw [activate_list, if_pos rfl, hmarked]
    rcases List.mem_append.mp hk with hk | hk
    · refine ⟨mem_place.mpr (.inr (hact k hk).1), ?_⟩
      split
      · rfl
      · exact (hact k hk).2
    · rw [List.mem_singleton.mp hk, if_pos rfl]
      exact ⟨mem_place.mpr (.inl rfl), rfl⟩
  · change (s.activations ++ [n]).Nodup
    rw [List.nodup_append]
    refine ⟨hnodup, List.nodup_singleton n, ?_⟩
    rintro k hk j hj rfl
    rw [List.mem_singleton] at hj
    exact hfree (hj ▸ (hact k hk).1)

theorem promote (h : s.WellFormed) (hn : n ∈ s.pdevQ.list false)
    (hroom : (s.pdevQ.list true).length < maxActiveScanCmds) :
    ((s.unlink n false).activate n).WellFormed := by
  apply activate (h.kept.erase hn)
  · rw [unlink_list, if_neg (Ne.symm Bool.false_ne_true)]
    exact hroom
  · intro k hk
    have hold := h.activating_marked k hk
    rw [unlink_list, if_neg (Ne.symm Bool.false_ne_true)]
    exact hold
  · exact h.activating_nodup

end WellFormed

theorem moveScanPendingToActive_eq (h : s.WellFormed) (maxActiveScans others : ℕ)
    (hroom : (s.pdevQ.list true).length < maxActiveScanCmds) :
    s.moveScanPendingToActive maxActiveScans others =
      match s.pdevQ.pendingList with
      | [] => s
      | n :: _ =>
        if others + (s.pdevQ.list true).length < maxActiveScans then (s.unlink n false).activate n
        else s := by
  rw [moveScanPendingToActive]
  cases hpend : s.pdevQ.pendingList with
  | nil => rfl
  | cons n rest =>
    dsimp only
    have hn : n ∈ s.pdevQ.list false := by
      rw [PdevQueue.list_false, hpend]
      exact List.mem_cons_self
    have hfind : removeCmdFromQueue s.pdevQ.cmds (s.pdevQ.list false) (s.pdevQ.cmd n) =
        .removed n := by
      rw [removeCmdFromQueue, findCmd, PdevQueue.list_false, hpend, List.find?_cons,
        PdevQueue.cmd, CommandList.isMatch_self]
      simp only [h.kept.pending_idle n hn, Bool.false_eq_true, if_false]
    have hlist : (s.pdevQ.setList false ((s.pdevQ.list false).erase n)).list true =
        s.pdevQ.list true := rfl
    rw [PdevQueue.removeCmd, hfind]
    dsimp only
    have hadd : (s.pdevQ.setList false ((s.pdevQ.list false).erase n)).addCmd
        (scanMaxSize true) n true =
          some ((s.pdevQ.setList false ((s.pdevQ.list false).erase n)).setList true
            (place (s.pdevQ.cmd n) n (s.pdevQ.list true))) := by
      rw [PdevQueue.addCmd, addCmdToQueue_eq, PdevQueue.cmd_setList, hlist]
      rw [if_neg (show (s.pdevQ.list true).length ≠ scanMaxSize true from hroom.ne)]
      rfl
    rw [hadd, PdevQueue.isActiveScanCmdAllowed]
    simp only [decide_eq_true_eq]
    rfl

/-- What every step keeps that changes the lists one node at a time. -/
structure Stable (maxActiveScans others : ℕ) (I : Scan m → Prop) : Prop where
  setInUse : ∀ s n u, I s → I (s.setInUse n u)
  setActivations : ∀ s A, I s → I { s with activations := A }
  dropCmd : ∀ s n a, s.WellFormed → I s → n ∈ s.pdevQ.list a → I (s.dropCmd a n)
  promote : ∀ s n, s.WellFormed → I s → n ∈ s.pdevQ.list false →
    others + (s.pdevQ.list true).length < maxActiveScans → I ((s.unlink n false).activate n)

namespace Stable

variable {maxActiveScans others : ℕ} {I : Scan m → Prop}

theorem moveScanPendingToActive (hI : Stable maxActiveScans others I) (h : s.WellFormed) (hs : I s)
    (hroom : (s.pdevQ.list true).length < maxActiveScanCmds) :
    (s.moveScanPendingToActive maxActiveScans others).WellFormed ∧
      I (s.moveScanPendingToActive maxActiveScans others) := by
  rw [moveScanPendingToActive_eq h _ _ hroom]
  cases hpend : s.pdevQ.pendingList with
  | nil => exact ⟨h, hs⟩
  | cons n rest =>
    have hn : n ∈ s.pdevQ.list false := by
      rw [PdevQueue.list_false, hpend]
      exact List.mem_cons_self
    dsimp only
    split
    next hlt => exact ⟨h.promote hn hroom, hI.promote s n h hs hn hlt⟩
    next => exact ⟨h, hs⟩

theorem dequeueCmd (hI : Stable maxActiveScans others I) (h : s.WellFormed) (hs : I s)
    (cmd : Cmd m) :
    (s.dequeueCmd maxActiveScans others cmd).2.WellFormed ∧
      I (s.dequeueCmd maxActiveScans others cmd).2 := by
  rw [Scan.dequeueCmd, PdevQueue.removeCmd]
  cases hr : removeCmdFromQueue s.pdevQ.cmds (s.pdevQ.list true) cmd with
  | notFound => exact ⟨h, hs⟩
  | marked n =>
    obtain ⟨hfind, hmark⟩ := NonScan.removeCmdFromQueue_marked hr
    exact ⟨h.setInUse (findCmd_mem hfind) (fun _ => hmark), hI.setInUse s n _ hs⟩
  | removed n =>
    obtain ⟨hfind, hmark⟩ := NonScan.removeCmdFromQueue_removed hr
    have hn := findCmd_mem hfind
    have hwf := h.dropCmd hn (fun _ => hmark)
    have hroom : ((s.dropCmd true n).pdevQ.list true).length < maxActiveScanCmds := by
      rw [dropCmd_list, if_pos rfl, List.length_erase_of_mem hn]
      have := h.active_le
      have := List.length_pos_of_mem hn
      omega
    exact hI.moveScanPendingToActive hwf (hI.dropCmd s n true h hs hn) hroom

/-- Whatever the loop matches. -/
theorem cancelLoop (hI : Stable maxActiveScans others I) (h : s.WellFormed) (hs : I s)
    (r : CancelArgs m) (a : Bool) (stopTimer : ℕ → Bool) (isMatch : Scan m → ℕ → Bool) (turns : ℕ) :
    let t := (cancelLoop { cancelOps r a stopTimer with isMatch := isMatch } turns none none
      .notFound s).2
    t.WellFormed ∧ I t := by
  apply cancelLoop_invariant (P := fun s => s.WellFormed ∧ I s)
  · rintro t n ⟨ht, hIt⟩ hn ha hmark
    have ha' : a = true := ha
    subst a
    exact ⟨ht.setInUse hn (fun _ => hmark), hI.setInUse t n _ hIt⟩
  · rintro t n ⟨ht, hIt⟩ hn - hmark
    exact ⟨ht.dropCmd hn hmark, hI.dropCmd t n a ht hIt hn⟩
  · exact ⟨h, hs⟩

theorem cancelScanCmd (hI : Stable maxActiveScans others I) (h : s.WellFormed) (hs : I s)
    (r : CancelArgs m) (a : Bool) (stopTimer : ℕ → Bool) :
    (s.cancelScanCmd r a stopTimer).2.WellFormed ∧ I (s.cancelScanCmd r a stopTimer).2 :=
  hI.cancelLoop h hs r a stopTimer _ _

theorem activated (hI : Stable maxActiveScans others I) (h : s.WellFormed) (hs : I s) (i : ℕ)
    (ok : Bool) (stopTimer : ℕ → Bool) :
    (s.activated maxActiveScans others i ok stopTimer).WellFormed ∧
      I (s.activated maxActiveScans others i ok stopTimer) := by
  rw [Scan.activated]
  cases hi : s.activations[i]? with
  | none => exact ⟨h, hs⟩
  | some n =>
    have hmem := List.mem_of_getElem? hi
    have hgone := notMem_eraseIdx h.activating_nodup hi
    have hwf : ({ s with activations := s.activations.eraseIdx i } : Scan m).WellFormed :=
      ⟨h.kept, h.active_le, fun k hk => h.activating_marked k (List.mem_of_mem_eraseIdx hk),
        h.activating_nodup.eraseIdx i⟩
    have hn := (h.activating_marked n hmem).1
    have hback := hwf.setInUse (n := n) (u := (s.pdevQ.cmds n).cmdInUse.activated) hn
      (fun hc => absurd hc hgone)
    have hIback := hI.setInUse _ n (s.pdevQ.cmds n).cmdInUse.activated
      (hI.setActivations s (s.activations.eraseIdx i) hs)
    dsimp only
    rw [activateCmd]
    split
    · exact hI.dequeueCmd hback hIback _
    · split
      · exact hI.dequeueCmd hback hIback _
      · split
        · exact hI.cancelLoop hback hIback (activationCancel _) true stopTimer _ _
        · exact ⟨hback, hIback⟩

end Stable

def activeQueue (maxActiveScans others : ℕ) (s : Scan m) : Bool :=
  s.pdevQ.isActiveScanCmdAllowed maxActiveScans others && s.pdevQ.pendingList.isEmpty

def duplicate (maxActiveScans others : ℕ) (s : Scan m) (cmd : Cmd m) : Bool :=
  (findCmd s.pdevQ.cmds (s.pdevQ.list (s.activeQueue maxActiveScans others)) cmd).isSome

def link (s : Scan m) (n : ℕ) : Scan m :=
  s.setPdev (s.pdevQ.setList false (place (s.pdevQ.cmd n) n (s.pdevQ.list false)))

inductive Enqueued (maxActiveScans others : ℕ) (s : Scan m) (cmd : Cmd m) :
    SerStatus × Scan m → Prop
  | duplicate (hdup : s.duplicate maxActiveScans others cmd = true) :
      Enqueued maxActiveScans others s cmd (.deniedUnspecified, s)
  | poolEmpty (hdup : s.duplicate maxActiveScans others cmd = false)
      (hpool : s.pdevQ.cmdPoolList = []) :
      Enqueued maxActiveScans others s cmd (.deniedListFull, s)
  | listFull {n : ℕ} {pool : List ℕ} (hdup : s.duplicate maxActiveScans others cmd = false)
      (hpool : s.pdevQ.cmdPoolList = n :: pool)
      (hfull : (s.pdevQ.list (s.activeQueue maxActiveScans others)).length =
        scanMaxSize (s.activeQueue maxActiveScans others)) :
      Enqueued maxActiveScans others s cmd
        (.deniedListFull, (s.fill n pool cmd).setPdev ((s.fill n pool cmd).pdevQ.release n))
  | active {n : ℕ} {pool : List ℕ} (hpool : s.pdevQ.cmdPoolList = n :: pool)
      (hact : s.activeQueue maxActiveScans others = true)
      (hroom : (s.pdevQ.list true).length ≠ maxActiveScanCmds) :
      Enqueued maxActiveScans others s cmd (.active, (s.fill n pool cmd).activate n)
  | pending {n : ℕ} {pool : List ℕ} (hpool : s.pdevQ.cmdPoolList = n :: pool)
      (hpend : s.activeQueue maxActiveScans others = false)
      (hroom : (s.pdevQ.list false).length ≠ maxPendingScanCmds) :
      Enqueued maxActiveScans others s cmd (.pending, (s.fill n pool cmd).link n)

theorem cmds_fill_self (s : Scan m) (n : ℕ) (pool : List ℕ) (cmd : Cmd m) :
    (s.fill n pool cmd).pdevQ.cmds n = { s.pdevQ.cmds n with cmd := cmd } :=
  Function.update_self ..

theorem enqueueCmd_spec (maxActiveScans others : ℕ) (s : Scan m) (cmd : Cmd m) :
    Enqueued maxActiveScans others s cmd (s.enqueueCmd maxActiveScans others cmd) := by
  rw [enqueueCmd]
  rw [← activeQueue, ← duplicate]
  cases hdup : s.duplicate maxActiveScans others cmd with
  | true =>
    rw [if_pos rfl]
    exact .duplicate hdup
  | false =>
    rw [if_neg Bool.false_ne_true]
    cases hpool : s.pdevQ.cmdPoolList with
    | nil => exact .poolEmpty hdup hpool
    | cons n pool =>
      have hcmd : (s.fill n pool cmd).pdevQ.cmd n = cmd := by
        rw [PdevQueue.cmd, cmds_fill_self]
      have hfill : (s.pdevQ.setPool pool).setCmd n cmd = (s.fill n pool cmd).pdevQ := rfl
      dsimp only
      rw [hfill, PdevQueue.addCmd, addCmdToQueue_eq]
      by_cases hfull : (s.pdevQ.list (s.activeQueue maxActiveScans others)).length =
          scanMaxSize (s.activeQueue maxActiveScans others)
      · rw [if_pos (show ((s.fill n pool cmd).pdevQ.list _).length = _ from hfull)]
        exact .listFull hdup hpool hfull
      · rw [if_neg (show ((s.fill n pool cmd).pdevQ.list _).length ≠ _ from hfull)]
        cases hact : s.activeQueue maxActiveScans others with
        | true =>
          rw [hact] at hfull
          exact .active hpool hact hfull
        | false =>
          rw [hact] at hfull
          exact .pending hpool hact hfull

theorem WellFormed.enqueueCmd (h : s.WellFormed) (maxActiveScans others : ℕ) (cmd : Cmd m) :
    (s.enqueueCmd maxActiveScans others cmd).2.WellFormed := by
  have hspec := enqueueCmd_spec maxActiveScans others s cmd
  generalize s.enqueueCmd maxActiveScans others cmd = r at hspec ⊢
  have hmarked : ∀ {n : ℕ} {pool : List ℕ}, s.pdevQ.cmdPoolList = n :: pool →
      ∀ k ∈ s.activations, k ∈ s.pdevQ.list true ∧ (s.fill n pool cmd).marked k = true := by
    intro n pool hpool k hk
    have hold := h.activating_marked k hk
    have hkn : k ≠ n := by
      rintro rfl
      apply h.kept.conserved.notMem_pool hold.1
      rw [hpool]
      exact List.mem_cons_self
    refine ⟨hold.1, ?_⟩
    rw [marked]
    change (Function.update s.pdevQ.cmds n _ k).cmdInUse.markedForActivation = true
    rw [Function.update_of_ne hkn]
    exact hold.2
  cases hspec with
  | duplicate => exact h
  | poolEmpty => exact h
  | @listFull n pool _ hpool =>
    refine ⟨(h.kept.take hpool cmd).release, h.active_le, ?_, h.activating_nodup⟩
    intro k hk
    have hold := hmarked hpool k hk
    have hkn : k ≠ n := by
      rintro rfl
      apply h.kept.conserved.notMem_pool hold.1
      rw [hpool]
      exact List.mem_cons_self
    refine ⟨hold.1, ?_⟩
    rw [marked]
    change (((s.fill n pool cmd).pdevQ.release n).cmds k).cmdInUse.markedForActivation = true
    rw [PdevQueue.cmds_release_of_ne hkn]
    exact hold.2
  | active hpool _ hroom =>
    exact WellFormed.activate (h.kept.take hpool cmd) (lt_of_le_of_ne h.active_le hroom)
      (hmarked hpool) h.activating_nodup
  | @pending n pool hpool =>
    have hidle : ((s.fill n pool cmd).pdevQ.cmds n).cmdInUse = {} := by
      rw [cmds_fill_self, h.kept.pool_zero n (by rw [hpool]; exact List.mem_cons_self)]
    have hkept := (h.kept.take hpool cmd).insert (a := false) (fun _ => hidle)
      ((s.fill n pool cmd).pdevQ.cmd n)
    refine ⟨hkept, h.active_le, ?_, h.activating_nodup⟩
    intro k hk
    have hold := hmarked hpool k hk
    refine ⟨hold.1, ?_⟩
    rw [marked]
    change ((PdevQueue.setList _ false _).cmds k).cmdInUse.markedForActivation = true
    rw [PdevQueue.cmds_setList]
    exact hold.2

end Scan

end KernelModules.WlanSer
