import KernelModules.WlanBlocking

/-!
# Requests that are refused

A request that is refused has done some things already: a blocking command has been counted, a
node has been taken from the pool, and the vdev may have been told that its queue is disabled.
Only the node is given back, and it goes to the other end of the pool.
-/

namespace KernelModules.WlanSer

open Function

variable {m : ℕ}

namespace PdevQueue

def SameUpToPool (q q' : PdevQueue m) : Prop :=
  q'.cmdPoolList.Perm q.cmdPoolList ∧ q'.setPool q.cmdPoolList = q

theorem SameUpToPool.refl (q : PdevQueue m) : q.SameUpToPool q := ⟨List.Perm.refl _, rfl⟩

variable {q : PdevQueue m} {hand : List ℕ} {size n : ℕ} {pool : List ℕ}

theorem Conserved.nodup_pool (h : q.Conserved hand size) : q.cmdPoolList.Nodup := by
  rw [List.nodup_iff_count_le_one]
  intro n
  have := h.count_le n
  omega

theorem Kept.take_release
    (h : q.Kept hand size) (hpool : q.cmdPoolList = n :: pool) (cmd : Cmd m) :
    ((q.setPool pool).setCmd n cmd).release n = q.setPool (pool ++ [n]) := by
  have hcmds : update (update q.cmds n { q.cmds n with cmd := cmd }) n {} =
      q.cmds := by
    have hzero : q.cmds n = {} := h.pool_zero n (by rw [hpool]; exact List.mem_cons_self)
    rw [update_idem, ← hzero, update_eq_self]
  rw [PdevQueue.release, PdevQueue.setCmd, PdevQueue.setPool, PdevQueue.setPool]
  rw [hcmds]

theorem append_eq_cons_iff (h : (n :: pool).Nodup) :
    pool ++ [n] = n :: pool ↔ (n :: pool).length = 1 := by
  cases pool with
  | nil => simp
  | cons k pool =>
    have hkn : k ≠ n := by
      rintro rfl
      exact (List.nodup_cons.mp h).1 List.mem_cons_self
    simp [hkn]

end PdevQueue

namespace NonScan

variable {c : SerConfig m} {s : NonScan m}

def Uncounted (s : NonScan m) (cmd : Cmd m) : Prop :=
  cmd.isBlocking = true → s.pdevQ.vdevActiveCmdBitmap = 0

def TakesNode (s : NonScan m) (cmd : Cmd m) (v : Fin m) : Prop :=
  (s.vdevQ v).queueDisable = false ∧ s.duplicate cmd v = false ∧ s.pdevQ.cmdPoolList ≠ []

def Restored (s : NonScan m) (cmd : Cmd m) (v : Fin m) : Prop :=
  ((s.vdevQ v).queueDisable = false → s.Uncounted cmd) ∧
    (s.TakesNode cmd v → cmd.queueDisable = false)

structure SameUpToPool (s t : NonScan m) : Prop where
  pdevQ : s.pdevQ.SameUpToPool t.pdevQ
  vdevQ : t.vdevQ = s.vdevQ
  activations : t.activations = s.activations

theorem SameUpToPool.refl (s : NonScan m) : s.SameUpToPool s := ⟨.refl _, rfl, rfl⟩

theorem counted_waiting_iff (s : NonScan m) (cmd : Cmd m) :
    (s.counted cmd).pdevQ.blockingCmdWaiting = s.pdevQ.blockingCmdWaiting ↔ s.Uncounted cmd := by
  rw [waiting_counted, Uncounted]
  cases hb : cmd.isBlocking with
  | false => simp
  | true =>
    by_cases hzero : s.pdevQ.vdevActiveCmdBitmap = 0
    · simp [hzero]
    · have hcounts : (true && s.pdevQ.vdevActiveCmdBitmap != 0) = true := by
        rw [Bool.true_and, bne_iff_ne]
        exact hzero
      rw [if_pos hcounts]
      constructor
      · intro hw
        simp at hw
      · exact fun hc => absurd (hc rfl) hzero

variable {cmd : Cmd m} {v : Fin m}

theorem counted_of_uncounted (hc : s.Uncounted cmd) : s.counted cmd = s := by
  rw [counted]
  cases hb : cmd.isBlocking with
  | false => rfl
  | true =>
    rw [hc hb]
    rfl

theorem disable_eq_self (v : Fin m) (hc : cmd.queueDisable = false) : s.disable cmd v = s := by
  rw [disable, hc, Bool.false_or, setVdev, update_eq_self]

def afterFull (s : NonScan m) (n : ℕ) (pool : List ℕ) (cmd : Cmd m) (v : Fin m) : NonScan m :=
  (((s.counted cmd).fill n pool cmd).disable cmd v).releaseNode n

theorem afterFull_eq (h : s.WellFormed c []) {n : ℕ} {pool : List ℕ}
    (hpool : s.pdevQ.cmdPoolList = n :: pool) (hc : s.Uncounted cmd)
    (hoff : cmd.queueDisable = false) :
    s.afterFull n pool cmd v = s.setPdev (s.pdevQ.setPool (pool ++ [n])) := by
  rw [afterFull, counted_of_uncounted hc, disable_eq_self v hoff, releaseNode, fill]
  exact congrArg s.setPdev (h.kept.take_release hpool cmd)

theorem queueDisable_afterFull (s : NonScan m) (n : ℕ) (pool : List ℕ)
    (hon : (s.vdevQ v).queueDisable = false) :
    ((s.afterFull n pool cmd v).vdevQ v).queueDisable = cmd.queueDisable := by
  change (update (s.counted cmd).vdevQ v _ v).queueDisable = _
  rw [update_self]
  change (cmd.queueDisable || ((s.counted cmd).vdevQ v).queueDisable) = _
  rw [(s.counted_lists cmd).1, hon, Bool.or_false]

/-- A request that is refused changes nothing, or nothing but the order of the pool, exactly in
these cases. -/
theorem enqueueCmd_denied (h : s.WellFormed c [])
    (hv : cmd.vdev = some v) (hactive : (s.enqueueCmd c cmd v).1 ≠ .active)
    (hpending : (s.enqueueCmd c cmd v).1 ≠ .pending) :
    ((s.enqueueCmd c cmd v).2 = s ↔
        s.Restored cmd v ∧ (s.TakesNode cmd v → s.pdevQ.cmdPoolList.length = 1)) ∧
      (s.SameUpToPool (s.enqueueCmd c cmd v).2 ↔ s.Restored cmd v) := by
  -- Before a node is taken only the counter can have changed.
  have hearly : (s.vdevQ v).queueDisable = false → ¬s.TakesNode cmd v →
      (s.counted cmd = s ↔
        s.Restored cmd v ∧ (s.TakesNode cmd v → s.pdevQ.cmdPoolList.length = 1)) ∧
      (s.SameUpToPool (s.counted cmd) ↔ s.Restored cmd v) := by
    intro hon htakes
    have hrestored : s.Uncounted cmd → s.Restored cmd v :=
      fun hc => ⟨fun _ => hc, fun ht => absurd ht htakes⟩
    refine ⟨⟨?_, ?_⟩, ⟨?_, ?_⟩⟩
    · intro heq
      refine ⟨hrestored ((s.counted_waiting_iff cmd).mp (by rw [heq])), ?_⟩
      exact fun ht => absurd ht htakes
    · exact fun hc => counted_of_uncounted (hc.1.1 hon)
    · intro hsame
      have hw := congrArg PdevQueue.blockingCmdWaiting hsame.pdevQ.2
      exact hrestored ((s.counted_waiting_iff cmd).mp hw)
    · intro hc
      rw [counted_of_uncounted (hc.1 hon)]
      exact SameUpToPool.refl s
  have hspec := enqueueCmd_spec h hv
  generalize s.enqueueCmd c cmd v = r at hspec hactive hpending ⊢
  cases hspec with
  | disabled hoff =>
    have hon : ¬(s.vdevQ v).queueDisable = false := by
      rw [hoff]
      exact Ne.symm Bool.false_ne_true
    have hrestored : s.Restored cmd v :=
      ⟨fun hc => absurd hc hon, fun ht => absurd ht.1 hon⟩
    refine ⟨⟨fun _ => ⟨hrestored, fun ht => absurd ht.1 hon⟩, fun _ => rfl⟩, ?_⟩
    exact ⟨fun _ => hrestored, fun _ => SameUpToPool.refl s⟩
  | duplicate hon hdup =>
    apply hearly hon
    intro ht
    rw [ht.2.1] at hdup
    cases hdup
  | poolEmpty hon _ hpool => exact hearly hon (fun ht => ht.2.2 hpool)
  | @listFull n pool hon hdup hpool _ _ =>
    have htakes : s.TakesNode cmd v := ⟨hon, hdup, by rw [hpool]; exact List.cons_ne_nil n pool⟩
    have hnodup := h.kept.conserved.nodup_pool
    rw [hpool] at hnodup
    change (s.afterFull n pool cmd v = s ↔ _) ∧ (s.SameUpToPool (s.afterFull n pool cmd v) ↔ _)
    have hrestored : (s.afterFull n pool cmd v).pdevQ.blockingCmdWaiting =
        s.pdevQ.blockingCmdWaiting → (s.afterFull n pool cmd v).vdevQ = s.vdevQ →
        s.Restored cmd v := by
      intro hw hq
      refine ⟨fun _ => (s.counted_waiting_iff cmd).mp hw, fun _ => ?_⟩
      rw [← s.queueDisable_afterFull n pool hon, hq, hon]
    refine ⟨⟨?_, ?_⟩, ⟨?_, ?_⟩⟩
    · intro heq
      refine ⟨hrestored (by rw [heq]) (by rw [heq]), fun _ => ?_⟩
      have hp := congrArg (fun t : NonScan m => t.pdevQ.cmdPoolList) heq
      rw [hpool]
      exact (PdevQueue.append_eq_cons_iff hnodup).mp (hp.trans hpool)
    · rintro ⟨hc, hone⟩
      have hlength := hone htakes
      rw [hpool] at hlength
      rw [afterFull_eq h hpool (hc.1 hon) (hc.2 htakes),
        (PdevQueue.append_eq_cons_iff hnodup).mpr hlength, ← hpool]
      rfl
    · intro hsame
      have hw := congrArg PdevQueue.blockingCmdWaiting hsame.pdevQ.2
      exact hrestored hw hsame.vdevQ
    · intro hc
      rw [afterFull_eq h hpool (hc.1 hon) (hc.2 htakes)]
      refine ⟨⟨?_, rfl⟩, rfl, rfl⟩
      rw [hpool]
      exact List.perm_append_singleton n pool
  | active => exact absurd rfl hactive
  | pending => exact absurd rfl hpending

end NonScan

namespace Scan

variable {maxActiveScans others : ℕ} {s : Scan m}

def TakesNode (maxActiveScans others : ℕ) (s : Scan m) (cmd : Cmd m) : Prop :=
  s.duplicate maxActiveScans others cmd = false ∧ s.pdevQ.cmdPoolList ≠ []

structure SameUpToPool (s t : Scan m) : Prop where
  pdevQ : s.pdevQ.SameUpToPool t.pdevQ
  activations : t.activations = s.activations

theorem SameUpToPool.refl (s : Scan m) : s.SameUpToPool s := ⟨.refl _, rfl⟩

theorem enqueueCmd_denied (h : s.WellFormed) {cmd : Cmd m}
    (hactive : (s.enqueueCmd maxActiveScans others cmd).1 ≠ .active)
    (hpending : (s.enqueueCmd maxActiveScans others cmd).1 ≠ .pending) :
    ((s.enqueueCmd maxActiveScans others cmd).2 = s ↔
        (s.TakesNode maxActiveScans others cmd → s.pdevQ.cmdPoolList.length = 1)) ∧
      s.SameUpToPool (s.enqueueCmd maxActiveScans others cmd).2 := by
  have hspec := enqueueCmd_spec maxActiveScans others s cmd
  generalize s.enqueueCmd maxActiveScans others cmd = r at hspec hactive hpending ⊢
  cases hspec with
  | duplicate hdup =>
    refine ⟨⟨fun _ ht => ?_, fun _ => rfl⟩, SameUpToPool.refl s⟩
    rw [ht.1] at hdup
    cases hdup
  | poolEmpty _ hpool =>
    exact ⟨⟨fun _ ht => absurd hpool ht.2, fun _ => rfl⟩, SameUpToPool.refl s⟩
  | @listFull n pool hdup hpool _ =>
    have htakes : s.TakesNode maxActiveScans others cmd :=
      ⟨hdup, by rw [hpool]; exact List.cons_ne_nil n pool⟩
    have hnodup := h.kept.conserved.nodup_pool
    rw [hpool] at hnodup
    have hresult : (s.fill n pool cmd).setPdev ((s.fill n pool cmd).pdevQ.release n) =
        s.setPdev (s.pdevQ.setPool (pool ++ [n])) :=
      congrArg s.setPdev (h.kept.take_release hpool cmd)
    rw [hresult]
    refine ⟨⟨?_, ?_⟩, ⟨⟨?_, rfl⟩, rfl⟩⟩
    · intro heq _
      have hp := congrArg (fun t : Scan m => t.pdevQ.cmdPoolList) heq
      rw [hpool]
      exact (PdevQueue.append_eq_cons_iff hnodup).mp (hp.trans hpool)
    · intro hone
      have hlength := hone htakes
      rw [hpool] at hlength
      rw [(PdevQueue.append_eq_cons_iff hnodup).mpr hlength, ← hpool]
      rfl
    · rw [hpool]
      exact List.perm_append_singleton n pool
  | active => exact absurd rfl hactive
  | pending => exact absurd rfl hpending

end Scan

namespace SerPdev

variable {c : SerConfig m} {maxActiveScans others : ℕ} {s : SerPdev m}

def Restored (s : SerPdev m) (cmd : Cmd m) (rulesPass : Bool) : Prop :=
  ∀ v, Reaches cmd rulesPass false v → s.nonScan.Restored cmd v

/-- A node that the request takes is the only one of its pool. -/
def LastNode (maxActiveScans others : ℕ) (s : SerPdev m) (cmd : Cmd m) (rulesPass : Bool) : Prop :=
  ∀ v,
    (Reaches cmd rulesPass false v → s.nonScan.TakesNode cmd v →
      s.nonScan.pdevQ.cmdPoolList.length = 1) ∧
    (Reaches cmd rulesPass true v → s.scan.TakesNode maxActiveScans others cmd →
      s.scan.pdevQ.cmdPoolList.length = 1)

structure SameUpToPool (s t : SerPdev m) : Prop where
  nonScan : s.nonScan.SameUpToPool t.nonScan
  scan : s.scan.SameUpToPool t.scan

theorem SameUpToPool.refl (s : SerPdev m) : s.SameUpToPool s := ⟨.refl _, .refl _⟩

variable {rulesPass : Bool}

theorem Reaches.vdev_eq {cmd : Cmd m} {a b : Bool} {v u : Fin m}
    (hv : Reaches cmd rulesPass a v) (hu : Reaches cmd rulesPass b u) : u = v ∧ b = a :=
  ⟨Option.some.inj (hu.vdev.symm.trans hv.vdev), hu.cmdType.symm.trans hv.cmdType⟩

theorem request_denied (h : s.WellFormed c) {cmd : Cmd m}
    (hactive : (s.request c maxActiveScans others cmd rulesPass).1 ≠ .active)
    (hpending : (s.request c maxActiveScans others cmd rulesPass).1 ≠ .pending) :
    ((s.request c maxActiveScans others cmd rulesPass).2 = s ↔
        s.Restored cmd rulesPass ∧ s.LastNode maxActiveScans others cmd rulesPass) ∧
      (s.SameUpToPool (s.request c maxActiveScans others cmd rulesPass).2 ↔
        s.Restored cmd rulesPass) := by
  have hspec := s.request_spec c maxActiveScans others cmd rulesPass
  generalize s.request c maxActiveScans others cmd rulesPass = r at hspec hactive hpending ⊢
  cases hspec with
  | ignored status hno =>
    have hrestored : s.Restored cmd rulesPass := fun v hreach => absurd hreach (hno false v)
    have hlast : s.LastNode maxActiveScans others cmd rulesPass := fun v =>
      ⟨fun hreach => absurd hreach (hno false v), fun hreach => absurd hreach (hno true v)⟩
    exact ⟨⟨fun _ => ⟨hrestored, hlast⟩, fun _ => rfl⟩,
      ⟨fun _ => hrestored, fun _ => SameUpToPool.refl s⟩⟩
  | scan v hreach =>
    obtain ⟨heq, hsame⟩ := Scan.enqueueCmd_denied h.scan hactive hpending
    have hrestored : s.Restored cmd rulesPass :=
      fun u hu => absurd (hreach.vdev_eq hu).2 Bool.false_ne_true
    refine ⟨⟨?_, ?_⟩, ⟨fun _ => hrestored, fun _ => ⟨.refl _, hsame⟩⟩⟩
    · intro hs
      refine ⟨hrestored, fun u => ⟨fun hu => absurd (hreach.vdev_eq hu).2 Bool.false_ne_true,
        fun _ => heq.mp (congrArg SerPdev.scan hs)⟩⟩
    · rintro ⟨-, hlast⟩
      rw [heq.mpr ((hlast v).2 hreach)]
  | nonScan v hreach =>
    obtain ⟨heq, hsame⟩ := NonScan.enqueueCmd_denied h.nonScan hreach.vdev hactive hpending
    have hiff : s.Restored cmd rulesPass ↔ s.nonScan.Restored cmd v := by
      constructor
      · exact fun hr => hr v hreach
      · intro hr u hu
        rw [(hreach.vdev_eq hu).1]
        exact hr
    rw [hiff]
    refine ⟨⟨?_, ?_⟩, ⟨fun hs => hsame.mp hs.nonScan, fun hr => ⟨hsame.mpr hr, .refl _⟩⟩⟩
    · intro hs
      obtain ⟨hr, hlast⟩ := heq.mp (congrArg SerPdev.nonScan hs)
      refine ⟨hr, fun u => ⟨fun hu => ?_, fun hu => ?_⟩⟩
      · rw [(hreach.vdev_eq hu).1]
        exact hlast
      · exact absurd (hreach.vdev_eq hu).2 (Ne.symm Bool.false_ne_true)
    · rintro ⟨hr, hlast⟩
      rw [heq.mpr ⟨hr, (hlast v).1 hreach⟩]

end SerPdev

/-- A request that is refused in a reachable state changes nothing, or nothing but the order of a
pool, exactly in these cases. -/
theorem request_denied_iff {Pdev : Type} [Fintype Pdev] [DecidableEq Pdev] (c : SerConfig m)
    (maxActiveScans : ℕ) (inputs : List (Pdev × Input m)) (p : Pdev) (cmd : Cmd m)
    (rulesPass : Bool) (status : SerStatus) (hactive : status ≠ .active)
    (hpending : status ≠ .pending) :
    let s := ((psoc c maxActiveScans).run (fun _ => SerPdev.init c) inputs).1
    let others := ∑ q ∈ Finset.univ.erase p, (s q).scan.pdevQ.activeList.length
    let r := (psoc c maxActiveScans).step s (p, .request cmd rulesPass)
    r.2 = [(p, .request status)] →
      (r.1 = s ↔ (s p).Restored cmd rulesPass ∧
          (s p).LastNode maxActiveScans others cmd rulesPass) ∧
        ((∀ q, (s q).SameUpToPool (r.1 q)) ↔ (s p).Restored cmd rulesPass) := by
  intro s others r hreply
  have hstatus : ((s p).request c maxActiveScans others cmd rulesPass).1 = status := by
    have hr : r.2 = [(p, .request ((s p).request c maxActiveScans others cmd rulesPass).1)] := rfl
    rw [hr] at hreply
    simpa using hreply
  have hstate : r.1 = update s p
      ((s p).request c maxActiveScans others cmd rulesPass).2 := rfl
  rw [← hstatus] at hactive hpending
  obtain ⟨heq, hsame⟩ := SerPdev.request_denied (psoc_run_wellFormed c maxActiveScans inputs p)
    hactive hpending
  rw [hstate]
  refine ⟨?_, ?_⟩
  · rw [update_eq_self_iff]
    exact heq
  · constructor
    · intro hall
      have hp := hall p
      rw [update_self] at hp
      exact hsame.mp hp
    · intro hrestored q
      by_cases hq : q = p
      · subst q
        rw [update_self]
        exact hsame.mpr hrestored
      · rw [update_of_ne hq]
        exact SerPdev.SameUpToPool.refl (s q)

theorem request_denied_iff_duplicate : let inputs : List (Unit × Input 6) :=
      [((), .request { cmdType := .vdevStartBss, cmdId := 1, cmdCb := true, vdev := some 0 } true),
        ((), .request { cmdType := .vdevStopBss, cmdId := 2, cmdCb := true, vdev := some 0 } true)]
    let cmd : Cmd 6 := { cmdType := .vdevStopBss, cmdId := 2, cmdCb := true, vdev := some 0 }
    let s := ((psoc defaultConfig 8).run (fun _ => SerPdev.init defaultConfig) inputs).1
    let others := ∑ q ∈ Finset.univ.erase (), (s q).scan.pdevQ.activeList.length
    let r := (psoc defaultConfig 8).step s ((), .request cmd true)
    (r.1 = s ↔ (s ()).Restored cmd true ∧ (s ()).LastNode 8 others cmd true) ∧
      ((∀ q, (s q).SameUpToPool (r.1 q)) ↔ (s ()).Restored cmd true) :=
  request_denied_iff defaultConfig 8
    [((), .request { cmdType := .vdevStartBss, cmdId := 1, cmdCb := true, vdev := some 0 } true),
      ((), .request { cmdType := .vdevStopBss, cmdId := 2, cmdCb := true, vdev := some 0 } true)] ()
    { cmdType := .vdevStopBss, cmdId := 2, cmdCb := true, vdev := some 0 } true
    .deniedUnspecified (by decide) (by decide) (by decide +kernel)

/-- A blocking command that is refused as a duplicate stays counted. -/
theorem not_request_denied_eq :
    ¬∀ (inputs : List (Unit × Input 6)) (cmd : Cmd 6) (rulesPass : Bool) (status : SerStatus),
      status ≠ .active → status ≠ .pending →
      let s := ((psoc defaultConfig 8).run (fun _ => SerPdev.init defaultConfig) inputs).1
      let r := (psoc defaultConfig 8).step s ((), .request cmd rulesPass)
      r.2 = [((), .request status)] → r.1 = s := by
  intro h
  have heq := h
    [((), .request { cmdType := .vdevStartBss, cmdId := 1, cmdCb := true, vdev := some 0 } true),
      ((), .request
        { cmdType := .setHwMode, cmdId := 2, cmdCb := true, isBlocking := true, vdev := some 1 }
        true)]
    { cmdType := .setHwMode, cmdId := 2, cmdCb := true, isBlocking := true, vdev := some 1 } true
    .deniedUnspecified (by decide) (by decide) (by decide +kernel)
  have hwaiting := congrArg
    (fun s : Unit → SerPdev 6 => (s ()).nonScan.pdevQ.blockingCmdWaiting) heq
  revert hwaiting
  decide +kernel

end KernelModules.WlanSer
