import KernelModules.WlanCancels
import KernelModules.WlanMoves

/-!
# Steps of the non-scan commands

Whatever is called, the queues change in a few ways: a request is counted and refused or counted
and linked, an active or a pending command is discarded, a pending command is promoted. A
property that each of them keeps holds of every state.
-/

namespace KernelModules.WlanSer.NonScan

variable {m : ℕ} {c : SerConfig m} {s : NonScan m} {hand : List ℕ}

def discard (s : NonScan m) (n : ℕ) (v : Fin m) (a : Bool) : NonScan m :=
  (s.unlink n v a).releaseNode n

def uncount (s : NonScan m) (isBlocking : Bool) : NonScan m :=
  if isBlocking then s.setPdev (s.pdevQ.setWaiting (s.pdevQ.blockingCmdWaiting - 1)) else s

def counted (s : NonScan m) (cmd : Cmd m) : NonScan m :=
  if cmd.isBlocking && s.pdevQ.vdevActiveCmdBitmap != 0 then
    s.setPdev (s.pdevQ.setWaiting (s.pdevQ.blockingCmdWaiting + 1))
  else s

def mark (s : NonScan m) (n : ℕ) : NonScan m :=
  s.setInUse n { (s.pdevQ.cmds n).cmdInUse with markedForActivation := true }

def promote (s : NonScan m) (n : ℕ) (v : Fin m) : NonScan m :=
  (((s.unlink n v false).link n v true).mark n).uncount (s.pdevQ.cmd n).isBlocking

theorem WellFormed.uncount (h : s.WellFormed c hand) (b : Bool) :
    (s.uncount b).WellFormed c hand := by
  cases b with
  | true => exact h.setWaiting _
  | false => exact h

theorem WellFormed.counted (h : s.WellFormed c hand) (cmd : Cmd m) :
    (s.counted cmd).WellFormed c hand := by
  rw [NonScan.counted]
  split
  · exact h.setWaiting _
  · exact h

variable {n : ℕ} {v : Fin m}

theorem WellFormed.discard (h : s.WellFormed c hand) {a : Bool}
    (hn : n ∈ s.pdevQ.list a) (hv : (s.pdevQ.cmd n).vdev = some v)
    (hmark : a = true → s.marked n = false) : (s.discard n v a).WellFormed c hand :=
  (h.unlink hn hv hmark).releaseNode

theorem WellFormed.mark_await (h : s.WellFormed c hand) (hn : n ∈ s.pdevQ.list true)
    (hnew : n ∉ s.activating) (lookups : List ℕ) :
    ((s.mark n).awaitActivation n lookups).WellFormed c hand := by
  apply (h.setInUse hn (fun _ => rfl)).awaitActivation hn
  · rw [marked_setInUse, if_pos rfl]
  · exact hnew

theorem WellFormed.pending_notMem_activating (h : s.WellFormed c hand)
    (hn : n ∈ s.pdevQ.list false) : n ∉ s.activating := fun hmem =>
  h.kept.conserved.notMem_other hn (Ne.symm Bool.false_ne_true) (h.activating_marked n hmem).1

theorem mem_link (s : NonScan m) (n : ℕ) (v : Fin m) (a : Bool) : n ∈ (s.link n v a).pdevQ.list a := by
  rw [link_list, if_pos rfl]
  exact mem_place.mpr (.inl rfl)

theorem WellFormed.promote (h : s.WellFormed c [])
    (hn : n ∈ s.pdevQ.list false) (hv : (s.pdevQ.cmd n).vdev = some v)
    (hidle : (s.vdevQ v).list true = []) (lookups : List ℕ) :
    ((s.promote n v).awaitActivation n lookups).WellFormed c [] := by
  have hunlinked : (s.unlink n v false).WellFormed c [n] :=
    h.unlink hn hv (fun hc => absurd hc Bool.false_ne_true)
  have hcmds := s.unlink_cmds n v false
  have hlinked : ((s.unlink n v false).link n v true).WellFormed c [] := by
    apply hunlinked.link
    · rw [cmd_congr hcmds, hv]
    · exact fun hc => absurd hc (Ne.symm Bool.false_ne_true)
    · intro _
      rw [unlink_vdev_list, if_neg (fun hc => Bool.false_ne_true hc.2.symm), hidle]
  have hawait := hlinked.mark_await (mem_link _ n v true) (h.pending_notMem_activating hn) lookups
  rw [NonScan.promote]
  cases (s.pdevQ.cmd n).isBlocking with
  | true => exact hawait.setWaiting _
  | false => exact hawait

theorem dropCmd_eq (s : NonScan m) (hv : (s.pdevQ.cmd n).vdev = some v)
    (a : Bool) :
    s.dropCmd a n =
      if a then s.discard n v true
      else (s.discard n v false).uncount (s.pdevQ.cmd n).isBlocking := by
  rw [dropCmd, hv]
  cases a with
  | true => rfl
  | false => cases hb : (s.pdevQ.cmd n).isBlocking <;> simp [uncount] <;> rfl

theorem moveCmd_eq (h : s.WellFormed c [])
    (hfind : findCmd s.pdevQ.cmds (s.pdevQ.list false) (s.pdevQ.cmd n) = some n)
    (hv : (s.pdevQ.cmd n).vdev = some v) (hidle : (s.vdevQ v).list true = []) :
    s.moveCmd c n = (some n, s.promote n v) := by
  have hn := findCmd_mem hfind
  have hunmarked : (s.pdevQ.cmds n).cmdInUse.markedForActivation = false := by
    rw [h.kept.pending_idle n hn]
  have hremove : s.removeNonScanCmd (s.pdevQ.cmd n) false = (.removed n, s.unlink n v false) := by
    rw [removeNonScanCmd_eq h hv, removeCmdFromQueue, hfind]
    simp [hunmarked]
  have hcmds := s.unlink_cmds n v false
  have hadd : (s.unlink n v false).addNonScanCmd c n true =
      (.active, (s.unlink n v false).link n v true) := by
    rw [addNonScanCmd_eq (v := v)]
    · rfl
    · rw [cmd_congr hcmds, hv]
    · rw [unlink_vdev_list, if_neg (fun hc => Bool.false_ne_true hc.2.symm), hidle]
      exact Nat.zero_ne_one
    · rw [unlink_list, if_neg (Ne.symm Bool.false_ne_true)]
      exact (h.active_length_lt hidle).ne
  rw [moveCmd, hremove]
  dsimp only
  rw [hadd]
  dsimp only
  have hb : ∀ u, (((s.unlink n v false).link n v true).pdevQ.setInUse n u).cmd n = s.pdevQ.cmd n := by
    intro u
    rw [PdevQueue.cmd_setInUse, cmd_congr (link_cmds ..), cmd_congr hcmds]
  rw [PdevQueue.markForActivation, hb, promote]
  cases (s.pdevQ.cmd n).isBlocking <;> rfl

theorem nextPending_spec {q : PdevQueue m} {qsize left : ℕ} {queue : List ℕ}
    (h : q.nextPending qsize queue = some (n, left)) :
    n ∈ queue ∧ q.vdevCmdActive n = false ∧
      ((q.cmd n).isBlocking = true → q.vdevActiveCmdBitmap = 0) ∧
      findCmd q.cmds queue (q.cmd n) = some n := by
  induction queue generalizing qsize with
  | nil => cases qsize <;> cases h
  | cons k rest ih =>
    cases qsize with
    | zero => cases h
    | succ qsize =>
      rw [PdevQueue.nextPending] at h
      by_cases hblock : ((q.cmd k).isBlocking && q.vdevActiveCmdBitmap != 0) = true
      · rw [if_pos hblock] at h
        cases h
      · rw [if_neg hblock] at h
        cases hact : q.vdevCmdActive k with
        | true =>
          rw [hact, if_pos rfl] at h
          obtain ⟨hmem, hidle, hzero, hfind⟩ := ih h
          refine ⟨List.mem_cons_of_mem _ hmem, hidle, hzero, ?_⟩
          have hno : (q.cmds k).isMatch (q.cmd n) = false := by
            rw [← Bool.not_eq_true]
            intro hmatch
            have hvdev : (q.cmd k).vdev = (q.cmd n).vdev := CommandList.vdev_of_isMatch hmatch
            rw [PdevQueue.vdevCmdActive, hvdev, ← PdevQueue.vdevCmdActive, hidle] at hact
            cases hact
          rw [findCmd, List.find?_cons, hno]
          exact hfind
        | false =>
          rw [hact, if_neg Bool.false_ne_true] at h
          obtain ⟨rfl, -⟩ := Prod.mk.inj (Option.some.inj h)
          refine ⟨List.mem_cons_self, hact, ?_, ?_⟩
          · intro hb
            rw [hb, Bool.true_and, bne_iff_ne, ne_eq, not_not] at hblock
            exact hblock
          · rw [findCmd, List.find?_cons, PdevQueue.cmd, CommandList.isMatch_self]

/-- What is kept by all the ways in which the queues change. `F` holds when a lookup starts. -/
structure Stable (c : SerConfig m) (I F : NonScan m → Prop) : Prop where
  setInUse : ∀ s n u, I s → I (s.setInUse n u)
  setActivations : ∀ s A, I s → I { s with activations := A }
  discard : ∀ s n v, s.WellFormed c [] → I s → n ∈ s.pdevQ.list true →
    (s.pdevQ.cmd n).vdev = some v → I (s.discard n v true) ∧ F (s.discard n v true)
  cancel : ∀ s n v, s.WellFormed c [] → I s → n ∈ s.pdevQ.list false →
    (s.pdevQ.cmd n).vdev = some v →
    I ((s.discard n v false).uncount (s.pdevQ.cmd n).isBlocking)
  promote : ∀ s n v, s.WellFormed c [] → I s → F s → n ∈ s.pdevQ.list false →
    (s.pdevQ.cmd n).vdev = some v → (s.vdevQ v).list true = [] →
    ((s.pdevQ.cmd n).isBlocking = true →
      s.pdevQ.vdevActiveCmdBitmap = 0 ∨ s.pdevQ.blockingCmdWaiting = 0) → I (s.promote n v)
  free : ∀ s, I s → s.pdevQ.blockingCmdActive = false → F s
  setDisable : ∀ s v b, I s → I (s.setVdev v { s.vdevQ v with queueDisable := b })

namespace Stable

variable {I F : NonScan m → Prop}

theorem pdevLookup (hI : Stable c I F) (h : s.WellFormed c []) (hs : I s) (hF : F s) (qsize : ℕ)
    (lookups : List ℕ) {done : NonScan m → NonScan m}
    (hdone : ∀ t, t.WellFormed c [] → I t → (done t).WellFormed c [] ∧ I (done t)) :
    (s.pdevLookup c qsize lookups done).WellFormed c [] ∧ I (s.pdevLookup c qsize lookups done) := by
  rw [NonScan.pdevLookup]
  cases hnext : s.pdevQ.nextPending qsize s.pdevQ.pendingList with
  | none => exact hdone s h hs
  | some found =>
    obtain ⟨n, left⟩ := found
    obtain ⟨hn, hidle, hzero, hfind⟩ := nextPending_spec hnext
    obtain ⟨v, hv⟩ := Option.ne_none_iff_exists'.mp (h.has_vdev false n hn)
    have hnil : (s.vdevQ v).list true = [] := by
      by_contra hne
      rw [(h.vdevCmdActive_iff hv).mpr hne] at hidle
      cases hidle
    dsimp only
    rw [moveCmd_eq h hfind hv hnil]
    refine ⟨h.promote hn hv hnil _, ?_⟩
    apply hI.setActivations
    exact hI.promote s n v h hs hF hn hv hnil (fun hb => .inl (hzero hb))

theorem resumeLookups (hI : Stable c I F) (lookups : List ℕ) (h : s.WellFormed c []) (hs : I s) :
    (NonScan.resumeLookups c lookups s).WellFormed c [] ∧
      I (NonScan.resumeLookups c lookups s) := by
  induction lookups generalizing s with
  | nil => exact ⟨h, hs⟩
  | cons qsize lookups ih =>
    rw [NonScan.resumeLookups]
    cases hb : s.pdevQ.blockingCmdActive with
    | true =>
      rw [if_pos rfl]
      exact ih h hs
    | false =>
      rw [if_neg Bool.false_ne_true]
      exact hI.pdevLookup h hs (hI.free s hs hb) qsize lookups (fun t ht hIt => ih ht hIt)

theorem moveNonScanPendingToActive (hI : Stable c I F) (h : s.WellFormed c []) (hs : I s)
    (hF : F s) (v : Fin m) (removed : Bool) (lookups : List ℕ) :
    (s.moveNonScanPendingToActive c v removed lookups).WellFormed c [] ∧
      I (s.moveNonScanPendingToActive c v removed lookups) := by
  rw [NonScan.moveNonScanPendingToActive]
  split
  next hcond =>
    have hwait : s.pdevQ.blockingCmdWaiting = 0 := by
      rw [Bool.and_eq_true, beq_iff_eq] at hcond
      exact hcond.2
    cases hpend : (s.vdevQ v).pendingList with
    | nil => exact hI.resumeLookups lookups h hs
    | cons n rest =>
      dsimp only
      split
      next => exact hI.resumeLookups lookups h hs
      next hidle =>
        have hmem : n ∈ (s.vdevQ v).list false := by
          rw [VdevQueue.list_false, hpend]
          exact List.mem_cons_self
        obtain ⟨hn, hv⟩ := h.mem_vdev_list.mp hmem
        have hnil : (s.vdevQ v).list true = [] := by
          by_contra hne
          exact hidle ((h.vdevCmdActive_iff hv).mpr hne)
        have hfind : findCmd s.pdevQ.cmds (s.pdevQ.list false) (s.pdevQ.cmd n) = some n := by
          rw [← findCmd_vdev_list h hv, VdevQueue.list_false, hpend, findCmd, List.find?_cons,
            PdevQueue.cmd, CommandList.isMatch_self]
        rw [moveCmd_eq h hfind hv hnil]
        refine ⟨h.promote hn hv hnil _, ?_⟩
        apply hI.setActivations
        exact hI.promote s n v h hs hF hn hv hnil (fun _ => .inr hwait)
  next =>
    exact hI.pdevLookup h hs hF _ lookups (fun t ht hIt => hI.resumeLookups lookups ht hIt)

theorem dequeueCmd (hI : Stable c I F) (h : s.WellFormed c []) (hs : I s) (cmd : Cmd m)
    (lookups : List ℕ) :
    (s.dequeueCmd c cmd lookups).2.WellFormed c [] ∧ I (s.dequeueCmd c cmd lookups).2 := by
  rw [NonScan.dequeueCmd]
  cases hcv : cmd.vdev with
  | none =>
    rw [removeNonScanCmd_none cmd true hcv]
    exact hI.resumeLookups lookups h hs
  | some v =>
    rw [removeNonScanCmd_eq h hcv]
    cases hr : removeCmdFromQueue s.pdevQ.cmds (s.pdevQ.list true) cmd with
    | notFound => exact hI.resumeLookups lookups h hs
    | marked n =>
      obtain ⟨hfind, hmark⟩ := removeCmdFromQueue_marked hr
      apply hI.resumeLookups lookups
      · exact h.setInUse (findCmd_mem hfind) (fun _ => hmark)
      · exact hI.setInUse s n _ hs
    | removed n =>
      obtain ⟨hfind, hmark⟩ := removeCmdFromQueue_removed hr
      have hn := findCmd_mem hfind
      have hv : (s.pdevQ.cmd n).vdev = some v :=
        (CommandList.vdev_of_isMatch (findCmd_isMatch hfind)).trans hcv
      dsimp only
      rw [cmd_congr (unlink_cmds ..), hv]
      obtain ⟨hkeep, hfree⟩ := hI.discard s n v h hs hn hv
      exact hI.moveNonScanPendingToActive (h.discard hn hv (fun _ => hmark)) hkeep hfree v _
        lookups

end Stable

theorem WellFormed.markForCancel (h : s.WellFormed c []) (hn : n ∈ s.pdevQ.list true)
    (hmark : s.marked n = true) : (s.markForCancel n).WellFormed c [] :=
  h.setInUse hn (fun _ => hmark)

namespace Stable

variable {I F : NonScan m → Prop}

theorem cancelNonScanCmd (hI : Stable c I F) (h : s.WellFormed c []) (hs : I s)
    (r : CancelArgs m) (a : Bool) (stopTimer : ℕ → Bool) :
    (s.cancelNonScanCmd r a stopTimer).2.WellFormed c [] ∧
      I (s.cancelNonScanCmd r a stopTimer).2 := by
  rw [NonScan.cancelNonScanCmd]
  apply cancelLoop_invariant (P := fun s => s.WellFormed c [] ∧ I s)
  · rintro t n ⟨ht, hIt⟩ hn ha hmark
    have ha' : a = true := ha
    subst a
    exact ⟨ht.markForCancel hn hmark, hI.setInUse t n _ hIt⟩
  · rintro t n ⟨ht, hIt⟩ hn - hmark
    obtain ⟨v, hv⟩ := Option.ne_none_iff_exists'.mp (ht.has_vdev a n hn)
    change (t.dropCmd a n).WellFormed c [] ∧ I (t.dropCmd a n)
    rw [dropCmd_eq t hv]
    cases a with
    | true =>
      rw [if_pos rfl]
      exact ⟨ht.discard hn hv hmark, (hI.discard t n v ht hIt hn hv).1⟩
    | false =>
      rw [if_neg Bool.false_ne_true]
      exact ⟨(ht.discard hn hv (fun hc => absurd hc Bool.false_ne_true)).uncount _,
        hI.cancel t n v ht hIt hn hv⟩
  · exact ⟨h, hs⟩

end Stable

theorem WellFormed.eraseActivation (h : s.WellFormed c []) {i : ℕ} {a : Activation}
    (hi : s.activations[i]? = some a) :
    ({ s with activations := s.activations.eraseIdx i } : NonScan m).WellFormed c [] ∧
      a.node ∈ s.pdevQ.list true ∧ a.node ∉ (s.activations.eraseIdx i).map Activation.node := by
  obtain ⟨hlt, hget⟩ := List.getElem?_eq_some_iff.mp hi
  have hsplit : s.activations = s.activations.take i ++ a :: s.activations.drop (i + 1) := by
    rw [← hget, List.getElem_cons_drop, List.take_append_drop]
  have hacts : s.activating = (s.activations.take i).map Activation.node ++
      a.node :: (s.activations.drop (i + 1)).map Activation.node := by
    rw [activating, hsplit, List.map_append, List.map_cons, ← hsplit]
  have herase : (s.activations.eraseIdx i).map Activation.node =
      (s.activations.take i).map Activation.node ++
        (s.activations.drop (i + 1)).map Activation.node := by
    rw [List.eraseIdx_eq_take_drop_succ, List.map_append]
  have hnodup := h.activating_nodup
  rw [hacts] at hnodup
  have hsub : (s.activations.eraseIdx i).map Activation.node ⊆ s.activating := by
    rw [herase, hacts]
    intro k hk
    rcases List.mem_append.mp hk with hk | hk
    · exact List.mem_append_left _ hk
    · exact List.mem_append_right _ (List.mem_cons_of_mem _ hk)
  refine ⟨⟨h.kept, h.has_vdev, h.vdev_list, h.one_active, h.bitmap, ?_, ?_⟩, ?_, ?_⟩
  · intro k hk
    exact h.activating_marked k (hsub hk)
  · change ((s.activations.eraseIdx i).map Activation.node).Nodup
    rw [herase]
    exact hnodup.sublist ((List.Sublist.refl _).append (List.sublist_cons_self ..))
  · apply (h.activating_marked a.node _).1
    rw [hacts]
    exact List.mem_append_right _ List.mem_cons_self
  · rw [herase]
    exact (List.nodup_middle.mp hnodup).notMem

theorem Stable.activated {I F : NonScan m → Prop} (hI : Stable c I F) (h : s.WellFormed c [])
    (hs : I s) (i : ℕ) (ok : Bool) (stopTimer : ℕ → Bool) :
    (s.activated c i ok stopTimer).WellFormed c [] ∧ I (s.activated c i ok stopTimer) := by
  rw [NonScan.activated]
  cases hi : s.activations[i]? with
  | none => exact ⟨h, hs⟩
  | some a =>
    obtain ⟨hwf, hn, hgone⟩ := h.eraseActivation hi
    have hback := hwf.setInUse (n := a.node) (u := (s.pdevQ.cmds a.node).cmdInUse.activated) hn
      (fun hc => absurd hc hgone)
    have hIback := hI.setInUse _ a.node (s.pdevQ.cmds a.node).cmdInUse.activated
      (hI.setActivations s (s.activations.eraseIdx i) hs)
    dsimp only
    rw [activateCmd]
    split
    · exact hI.dequeueCmd hback hIback _ _
    · split
      · exact hI.dequeueCmd hback hIback _ _
      · split
        · obtain ⟨hc, hIc⟩ := hI.cancelNonScanCmd hback hIback (activationCancel _) true stopTimer
          exact hI.resumeLookups _ hc hIc
        · exact hI.resumeLookups _ hback hIback

end KernelModules.WlanSer.NonScan
