import KernelModules.WlanLinks

/-!
# What the functions of the non-scan queues do

In a well-formed state adding a command links it and removing one unlinks it; the command of a
vdev that has no active one can always be moved from the pending to the active lists.
-/

namespace KernelModules.WlanSer.NonScan

open Function

variable {m : ℕ} {c : SerConfig m} {s : NonScan m} {hand : List ℕ}

theorem WellFormed.of_agree (h : s.WellFormed c hand) {t : NonScan m} {hand' : List ℕ}
    (hkept : t.pdevQ.Kept hand' c.cmdPoolSize) (hlist : ∀ a, t.pdevQ.list a = s.pdevQ.list a)
    (hvdev : ∀ v a, (t.vdevQ v).list a = (s.vdevQ v).list a)
    (hbit : t.pdevQ.vdevActiveCmdBitmap = s.pdevQ.vdevActiveCmdBitmap)
    (hcmd : ∀ a, ∀ k ∈ s.pdevQ.list a, t.pdevQ.cmd k = s.pdevQ.cmd k)
    (hact : t.activations = s.activations)
    (hmark : ∀ k ∈ s.activating, t.marked k = true) : t.WellFormed c hand' := by
  constructor
  · exact hkept
  · intro a k hk
    rw [hlist] at hk
    rw [hcmd a k hk]
    exact h.has_vdev a k hk
  · intro v a
    rw [hvdev, hlist, h.vdev_list]
    apply List.filter_congr
    intro k hk
    rw [ofVdev, ofVdev, hcmd a k hk]
  · intro v
    rw [hvdev]
    exact h.one_active v
  · rw [hbit]
    apply h.bitmap.congr
    intro i
    apply exists_congr
    intro v
    rw [hvdev]
  · intro k hk
    have hk' : k ∈ s.activating := by rwa [activating, ← hact]
    rw [hlist]
    exact ⟨(h.activating_marked k hk').1, hmark k hk'⟩
  · rw [activating, hact]
    exact h.activating_nodup

def fill (s : NonScan m) (n : ℕ) (pool : List ℕ) (cmd : Cmd m) : NonScan m :=
  s.setPdev ((s.pdevQ.setPool pool).setCmd n cmd)

def releaseNode (s : NonScan m) (n : ℕ) : NonScan m := s.setPdev (s.pdevQ.release n)

def setInUse (s : NonScan m) (n : ℕ) (u : CmdInUse) : NonScan m :=
  s.setPdev (s.pdevQ.setInUse n u)

def disable (s : NonScan m) (cmd : Cmd m) (v : Fin m) : NonScan m :=
  s.setVdev v { s.vdevQ v with queueDisable := cmd.queueDisable || (s.vdevQ v).queueDisable }

theorem disable_vdev_list (cmd : Cmd m) (v u : Fin m) (a : Bool) :
    ((s.disable cmd v).vdevQ u).list a = (s.vdevQ u).list a := by
  by_cases hu : u = v
  · subst u
    change (update s.vdevQ v _ v).list a = _
    rw [update_self]
    rfl
  · change (update s.vdevQ v _ u).list a = _
    rw [update_of_ne hu]

theorem cmds_fill_self (n : ℕ) (pool : List ℕ) (cmd : Cmd m) :
    (s.fill n pool cmd).pdevQ.cmds n = { s.pdevQ.cmds n with cmd := cmd } :=
  update_self ..

variable {n : ℕ} {cmd : Cmd m} {v : Fin m}

theorem cmds_fill_of_ne {k : ℕ} (pool : List ℕ) (cmd : Cmd m) (h : k ≠ n) :
    (s.fill n pool cmd).pdevQ.cmds k = s.pdevQ.cmds k :=
  update_of_ne h ..

theorem cmd_fill_self (n : ℕ) (pool : List ℕ) (cmd : Cmd m) :
    (s.fill n pool cmd).pdevQ.cmd n = cmd := by
  rw [PdevQueue.cmd, cmds_fill_self]

variable {pool : List ℕ}

theorem WellFormed.cmds_fill (h : s.WellFormed c hand) (hpool : s.pdevQ.cmdPoolList = n :: pool)
    (cmd : Cmd m) {a : Bool} {k : ℕ} (hk : k ∈ s.pdevQ.list a) :
    (s.fill n pool cmd).pdevQ.cmds k = s.pdevQ.cmds k := by
  apply cmds_fill_of_ne
  rintro rfl
  apply h.kept.conserved.notMem_pool hk
  rw [hpool]
  exact List.mem_cons_self

theorem WellFormed.fill (h : s.WellFormed c hand)
    (hpool : s.pdevQ.cmdPoolList = n :: pool) (cmd : Cmd m) :
    (s.fill n pool cmd).WellFormed c (n :: hand) := by
  apply h.of_agree (t := s.fill n pool cmd) (h.kept.take hpool cmd) (fun _ => rfl) (fun _ _ => rfl) rfl
  · intro a k hk
    rw [PdevQueue.cmd, h.cmds_fill hpool cmd hk, PdevQueue.cmd]
  · rfl
  · intro k hk
    have hk' := h.activating_marked k hk
    rw [marked, h.cmds_fill hpool cmd hk'.1]
    exact hk'.2

theorem WellFormed.releaseNode (h : s.WellFormed c (n :: hand)) :
    (s.releaseNode n).WellFormed c hand := by
  have hne : ∀ a, ∀ k ∈ s.pdevQ.list a, k ≠ n := by
    rintro a k hk rfl
    exact h.kept.conserved.notMem_hand a hk
  apply h.of_agree (t := s.releaseNode n) h.kept.release (fun _ => rfl) (fun _ _ => rfl) rfl
  · intro a k hk
    exact PdevQueue.cmd_release_of_ne (hne a k hk)
  · rfl
  · intro k hk
    have hk' := h.activating_marked k hk
    change ((s.pdevQ.release n).cmds k).cmdInUse.markedForActivation = true
    rw [PdevQueue.cmds_release_of_ne (hne true k hk'.1)]
    exact hk'.2

theorem marked_setInUse (n k : ℕ) (u : CmdInUse) :
    (s.setInUse n u).marked k = if k = n then u.markedForActivation else s.marked k := by
  by_cases hk : k = n
  · subst k
    rw [if_pos rfl, marked, setInUse, setPdev, PdevQueue.cmds_setInUse_self]
  · rw [if_neg hk, marked, setInUse, setPdev, PdevQueue.cmds_setInUse_of_ne u hk, marked]

theorem WellFormed.setInUse (h : s.WellFormed c hand) (hn : n ∈ s.pdevQ.list true)
    {u : CmdInUse} (hu : n ∈ s.activating → u.markedForActivation = true) :
    (s.setInUse n u).WellFormed c hand := by
  apply h.of_agree (t := s.setInUse n u) (h.kept.setInUse hn u) (fun _ => rfl) (fun _ _ => rfl) rfl
  · intro a k _
    exact PdevQueue.cmd_setInUse n k u
  · rfl
  · intro k hk
    rw [marked_setInUse]
    split
    next heq => exact hu (heq ▸ hk)
    next => exact (h.activating_marked k hk).2

theorem WellFormed.setWaiting (h : s.WellFormed c hand) (w : UInt16) :
    (s.setPdev (s.pdevQ.setWaiting w)).WellFormed c hand :=
  h.of_agree (h.kept.setWaiting w) (fun _ => rfl) (fun _ _ => rfl) rfl (fun _ _ _ => rfl) rfl
    (fun k hk => (h.activating_marked k hk).2)

theorem WellFormed.disable (h : s.WellFormed c hand) (cmd : Cmd m) (v : Fin m) :
    (s.disable cmd v).WellFormed c hand :=
  h.of_agree h.kept (fun _ => rfl) (fun _ _ => disable_vdev_list ..) rfl (fun _ _ _ => rfl) rfl
    (fun k hk => (h.activating_marked k hk).2)

theorem WellFormed.awaitActivation (h : s.WellFormed c hand) (hn : n ∈ s.pdevQ.list true)
    (hmark : s.marked n = true) (hnew : n ∉ s.activating) (lookups : List ℕ) :
    (s.awaitActivation n lookups).WellFormed c hand := by
  have hacts : (s.awaitActivation n lookups).activating = s.activating ++ [n] := by
    rw [activating, NonScan.awaitActivation, List.map_append, activating]
    rfl
  refine ⟨h.kept, h.has_vdev, h.vdev_list, h.one_active, h.bitmap, ?_, ?_⟩
  · rw [hacts]
    intro k hk
    rcases List.mem_append.mp hk with hk | hk
    · exact h.activating_marked k hk
    · rw [List.mem_singleton.mp hk]
      exact ⟨hn, hmark⟩
  · rw [hacts, List.nodup_append]
    refine ⟨h.activating_nodup, List.nodup_singleton n, ?_⟩
    rintro k hk j hj rfl
    exact hnew (List.mem_singleton.mp hj ▸ hk)

theorem findCmd_vdev_list (h : s.WellFormed c hand)
    (hv : cmd.vdev = some v) (a : Bool) :
    findCmd s.pdevQ.cmds ((s.vdevQ v).list a) cmd =
      findCmd s.pdevQ.cmds (s.pdevQ.list a) cmd := by
  rw [h.vdev_list, findCmd, findCmd, List.find?_filter]
  congr 1
  funext n
  cases hmatch : (s.pdevQ.cmds n).isMatch cmd with
  | false => simp
  | true =>
    have hof : s.ofVdev v n = true := by
      rw [ofVdev, PdevQueue.cmd, CommandList.vdev_of_isMatch hmatch, hv, beq_self_eq_true]
    simp [hof]

theorem removeNonScanCmd_none (cmd : Cmd m) (a : Bool) (hv : cmd.vdev = none) :
    s.removeNonScanCmd cmd a = (.notFound, s) := by
  rw [removeNonScanCmd, removeCmdFromVdevQueue, hv]

theorem removeNonScanCmd_eq (h : s.WellFormed c hand)
    (hv : cmd.vdev = some v) (a : Bool) :
    s.removeNonScanCmd cmd a =
      match removeCmdFromQueue s.pdevQ.cmds (s.pdevQ.list a) cmd with
      | .notFound => (.notFound, s)
      | .marked n =>
        (.marked n, s.setInUse n
          { (s.pdevQ.cmds n).cmdInUse with activeMarkedForRemoval := true })
      | .removed n => (.removed n, s.unlink n v a) := by
  have hsame : removeCmdFromQueue s.pdevQ.cmds ((s.vdevQ v).list a) cmd =
      removeCmdFromQueue s.pdevQ.cmds (s.pdevQ.list a) cmd := by
    rw [removeCmdFromQueue, removeCmdFromQueue, findCmd_vdev_list h hv]
  rw [removeNonScanCmd, removeCmdFromVdevQueue, hv]
  dsimp only
  rw [hsame]
  cases hr : removeCmdFromQueue s.pdevQ.cmds (s.pdevQ.list a) cmd with
  | notFound => rfl
  | marked n => rfl
  | removed n =>
    dsimp only
    have hq : ∀ vq, (s.setVdev v vq).pdevQ = s.pdevQ := fun _ => rfl
    rw [hq, PdevQueue.removeCmd, hr]
    dsimp only
    rw [PdevQueue.cmd_setList]
    rfl

variable {cmds : ℕ → CommandList m} {queue : List ℕ} {a : Bool}

theorem removeCmdFromQueue_removed (h : removeCmdFromQueue cmds queue cmd = .removed n) :
    findCmd cmds queue cmd = some n ∧ (cmds n).cmdInUse.markedForActivation = false := by
  rw [removeCmdFromQueue] at h
  cases hfind : findCmd cmds queue cmd with
  | none =>
    rw [hfind] at h
    cases h
  | some k =>
    rw [hfind] at h
    cases hmark : (cmds k).cmdInUse.markedForActivation with
    | true => simp [hmark] at h
    | false =>
      simp only [hmark, Bool.false_eq_true, if_false, Removal.removed.injEq] at h
      subst n
      exact ⟨rfl, hmark⟩

theorem removeCmdFromQueue_marked (h : removeCmdFromQueue cmds queue cmd = .marked n) :
    findCmd cmds queue cmd = some n ∧ (cmds n).cmdInUse.markedForActivation = true := by
  rw [removeCmdFromQueue] at h
  cases hfind : findCmd cmds queue cmd with
  | none =>
    rw [hfind] at h
    cases h
  | some k =>
    rw [hfind] at h
    cases hmark : (cmds k).cmdInUse.markedForActivation with
    | false => simp [hmark] at h
    | true =>
      simp only [hmark, if_true, Removal.marked.injEq] at h
      subst n
      exact ⟨rfl, hmark⟩

theorem addNonScanCmd_full (s : NonScan m)
    (hv : (s.pdevQ.cmd n).vdev = some v)
    (hfull : ((s.vdevQ v).list a).length = c.vdevMaxSize v a) :
    s.addNonScanCmd c n a = (.deniedListFull, s.disable (s.pdevQ.cmd n) v) := by
  rw [addNonScanCmd, hv]
  dsimp only
  rw [addCmdToVdevQueue, addCmdToQueue_eq]
  have hlist : ∀ b, (VdevQueue.mk (s.vdevQ v).activeList (s.vdevQ v).pendingList b).list a =
      (s.vdevQ v).list a := fun _ => rfl
  rw [hlist, if_pos hfull]
  rfl

theorem addNonScanCmd_eq (s : NonScan m)
    (hv : (s.pdevQ.cmd n).vdev = some v)
    (hvdev : ((s.vdevQ v).list a).length ≠ c.vdevMaxSize v a)
    (hpdev : (s.pdevQ.list a).length ≠ c.pdevMaxSize a) :
    s.addNonScanCmd c n a = (if a then .active else .pending, s.link n v a) := by
  rw [addNonScanCmd, hv]
  dsimp only
  rw [addCmdToVdevQueue, addCmdToQueue_eq]
  have hlist : ∀ b, (VdevQueue.mk (s.vdevQ v).activeList (s.vdevQ v).pendingList b).list a =
      (s.vdevQ v).list a := fun _ => rfl
  rw [hlist, if_neg hvdev]
  dsimp only
  rw [PdevQueue.addCmd, addCmdToQueue_eq]
  have hq : ∀ vq, (s.setVdev v vq).pdevQ = s.pdevQ := fun _ => rfl
  rw [hq, if_neg hpdev, Option.map_some]
  cases a <;> rfl

/-- The pdev list is full: the vdev list is as it was before. -/
theorem addNonScanCmd_pdev_full (h : s.WellFormed c (n :: hand))
    (hv : (s.pdevQ.cmd n).vdev = some v) (hmark : s.marked n = false)
    (hdup : findCmd s.pdevQ.cmds ((s.vdevQ v).list false) (s.pdevQ.cmd n) = none)
    (hvdev : ((s.vdevQ v).list false).length ≠ c.vdevMaxSize v false)
    (hfull : (s.pdevQ.list false).length = c.pdevMaxSize false) :
    s.addNonScanCmd c n false = (.deniedListFull, s.disable (s.pdevQ.cmd n) v) := by
  have hfree : n ∉ (s.vdevQ v).list false := by
    rw [h.mem_vdev_list]
    exact fun hc => h.kept.conserved.notMem_hand false hc.1
  have hself : (s.pdevQ.cmds n).isMatch (s.pdevQ.cmd n) = true := CommandList.isMatch_self _
  have hfind : findCmd s.pdevQ.cmds (place (s.pdevQ.cmd n) n ((s.vdevQ v).list false))
      (s.pdevQ.cmd n) = some n := by
    rw [findCmd] at hdup ⊢
    cases hp : (s.pdevQ.cmd n).isHighPriority with
    | true => rw [place, hp, if_pos rfl, List.find?_cons, hself]
    | false =>
      rw [place, hp, if_neg Bool.false_ne_true, List.find?_append, hdup, List.find?_cons, hself]
      rfl
  have herase : (place (s.pdevQ.cmd n) n ((s.vdevQ v).list false)).erase n =
      (s.vdevQ v).list false := by
    cases hp : (s.pdevQ.cmd n).isHighPriority with
    | true => rw [place, hp, if_pos rfl, List.erase_cons_head]
    | false =>
      rw [place, hp, if_neg Bool.false_ne_true, List.erase_append_right _ hfree,
        List.erase_cons_head, List.append_nil]
  rw [addNonScanCmd, hv]
  dsimp only
  rw [addCmdToVdevQueue, addCmdToQueue_eq]
  have hlist : ∀ b, (VdevQueue.mk (s.vdevQ v).activeList (s.vdevQ v).pendingList b).list false =
      (s.vdevQ v).list false := fun _ => rfl
  rw [hlist, if_neg hvdev]
  dsimp only
  rw [PdevQueue.addCmd, addCmdToQueue_eq]
  have hq : ∀ vq, (s.setVdev v vq).pdevQ = s.pdevQ := fun _ => rfl
  rw [hq, if_pos hfull, Option.map_none]
  rw [removeCmdFromVdevQueue, hv]
  dsimp only
  rw [hq]
  have hself' : ∀ vq, (s.setVdev v vq).vdevQ v = vq := fun _ => update_self ..
  rw [hself', VdevQueue.list_setList, if_pos rfl, removeCmdFromQueue, hfind]
  dsimp only
  rw [marked] at hmark
  rw [hmark]
  simp only [Bool.false_eq_true, if_false]
  rw [herase]
  simp only [setVdev, VdevQueue.setList, update_idem, disable, Bool.false_eq_true, if_false]
  rfl

end KernelModules.WlanSer.NonScan
