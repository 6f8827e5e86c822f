import KernelModules.WlanCallbacks
import KernelModules.WlanCancelTurns

/-!
# Which commands a cancel reaches

A cancel is to take every pending command that matches out of its lists, to mark those that match
and are under activation, and to leave the others alone. But a cancel for neither a pdev nor a vdev
ends with the first command it takes, and in the active list the turns run out when the loop goes
back to commands under activation, and it ends at a command whose timer is not there.
-/

namespace KernelModules.WlanSer

open List

variable {m : ℕ} {σ : Type} {o : CancelOps σ}

def CommandList.markCancel (node : CommandList m) : CommandList m :=
  { node with cmdInUse := { node.cmdInUse with activeMarkedForCancel := true } }

def CancelAct.callbacks (cmd : ℕ → Cmd m) : CancelAct → List (Callback m)
  | .mark _ => []
  | .drop n => cancelCallbacks n (cmd n)

structure Acted (a : Bool) (acts : List CancelAct) (log : List (Callback m))
    (q q' : PdevQueue m) : Prop where
  list : ∀ b, q'.list b = if b = a then leftBy acts (q.list a) else q.list b
  cmds : ∀ b, ∀ n ∈ q'.list b, q'.cmds n =
    if .mark n ∈ acts then (q.cmds n).markCancel else q.cmds n
  log_eq : log = acts.flatMap (CancelAct.callbacks q.cmd)
  once : ∀ n, acts.count (.drop n) ≤ 1

structure CancelOps.OnQueue (o : CancelOps σ) (r : CancelArgs m) (a : Bool) (size : ℕ)
    (queue : σ → PdevQueue m) (wf : σ → Prop) : Prop where
  kept : ∀ s, wf s → (queue s).Kept [] size
  queue_eq : ∀ s, o.queue s = (queue s).list a
  isMatch_eq : ∀ s n, o.isMatch s n = r.isMatch ((queue s).cmds n)
  marked_eq : ∀ s n, o.marked s n = ((queue s).cmds n).cmdInUse.markedForActivation
  isActiveQueue_eq : o.isActiveQueue = a
  mark_wf : ∀ s n, wf s → n ∈ (queue s).list true →
    ((queue s).cmds n).cmdInUse.markedForActivation = true → wf (o.mark n s)
  mark_queue : ∀ s n, queue (o.mark n s) =
    (queue s).setInUse n { ((queue s).cmds n).cmdInUse with activeMarkedForCancel := true }
  drop_wf : ∀ s n, wf s → n ∈ (queue s).list a →
    (a = true → ((queue s).cmds n).cmdInUse.markedForActivation = false) → wf (o.drop n s)
  drop_list : ∀ s n, wf s → n ∈ (queue s).list a → ∀ b, (queue (o.drop n s)).list b =
    if b = a then ((queue s).list a).erase n else (queue s).list b
  drop_cmds : ∀ s n, wf s → n ∈ (queue s).list a → ∀ k, k ≠ n →
    (queue (o.drop n s)).cmds k = (queue s).cmds k

namespace PdevQueue

variable (q : PdevQueue m)

/-- What the loop does to the queue. -/
def cancelActs (r : CancelArgs m) (single a : Bool) (stopTimer : ℕ → Bool) : List CancelAct :=
  WlanSer.cancelActs single (fun n => r.isMatch (q.cmds n))
    (fun n => a && (q.cmds n).cmdInUse.markedForActivation) (fun n => !a || stopTimer n)
    (q.list a).length [] (q.list a)

end PdevQueue

namespace Acted

variable {a : Bool} {acts : List CancelAct} {log : List (Callback m)} {q q' q'' : PdevQueue m} {n : ℕ}

theorem refl (a : Bool) (q : PdevQueue m) : Acted a [] [] q q := by
  constructor
  · intro b
    split
    next hb => rw [hb, leftBy, filter_eq_self.mpr (fun n _ => by simp)]
    next => rfl
  · intro b n _
    rw [if_neg not_mem_nil]
  · rfl
  · intro n
    exact Nat.zero_le 1

theorem mark (h : Acted a acts log q q') (n : ℕ) :
    Acted a (acts ++ [.mark n]) log q
      (q'.setInUse n { (q'.cmds n).cmdInUse with activeMarkedForCancel := true }) := by
  constructor
  · intro b
    rw [PdevQueue.list_setInUse, h.list, leftBy_mark]
  · intro b k hk
    rw [PdevQueue.list_setInUse] at hk
    have hold := h.cmds b k hk
    by_cases hkn : k = n
    · subst k
      have hmem : CancelAct.mark n ∈ acts ++ [.mark n] := mem_concat_self
      rw [if_pos hmem]
      change Function.update q'.cmds n _ n = _
      rw [Function.update_self, hold]
      split <;> rfl
    · have hiff : CancelAct.mark k ∈ acts ++ [.mark n] ↔ CancelAct.mark k ∈ acts := by simp [hkn]
      rw [PdevQueue.cmds_setInUse_of_ne _ hkn, hold]
      simp only [hiff]
  · rw [flatMap_append, h.log_eq]
    exact (append_nil _).symm
  · intro k
    rw [count_append, count_singleton]
    exact h.once k

theorem cmd_eq (h : Acted a acts log q q') {b : Bool} (hn : n ∈ q'.list b) : q'.cmd n = q.cmd n := by
  rw [PdevQueue.cmd, h.cmds b n hn]
  split <;> rfl

theorem drop (h : Acted a acts log q q') (hnodup : (q.list a).Nodup) (hn : n ∈ q'.list a)
    (hother : ∀ b, b ≠ a → n ∉ q'.list b)
    (hlist : ∀ b, q''.list b = if b = a then (q'.list a).erase n else q'.list b)
    (hcmds : ∀ k, k ≠ n → q''.cmds k = q'.cmds k) :
    Acted a (acts ++ [.drop n]) (log ++ cancelCallbacks n (q'.cmd n)) q q'' := by
  have hleft : q'.list a = leftBy acts (q.list a) := by rw [h.list, if_pos rfl]
  have hnew : CancelAct.drop n ∉ acts := by
    rw [hleft, leftBy, mem_filter, decide_eq_true_eq] at hn
    exact hn.2
  obtain ⟨before, rest, hsplit⟩ := append_of_mem hn
  have hunique : (q'.list a).Nodup := by
    rw [hleft]
    exact hnodup.filter _
  have hgone : (q'.list a).erase n = leftBy (acts ++ [.drop n]) (q.list a) := by
    have hbefore : n ∉ before := by
      rw [hsplit, nodup_append] at hunique
      exact fun hc => hunique.2.2 n hc n mem_cons_self rfl
    rw [leftBy_drop hnodup (hleft.symm.trans hsplit), hsplit, erase_append_right _ hbefore,
      erase_cons_head]
  constructor
  · intro b
    rw [hlist]
    split
    next => exact hgone
    next hb => rw [h.list, if_neg hb]
  · intro b k hk
    have hk' : k ∈ q'.list b ∧ k ≠ n := by
      rw [hlist] at hk
      split at hk
      next hb =>
        subst b
        obtain ⟨hkn, hk'⟩ := hunique.mem_erase_iff.mp hk
        exact ⟨hk', hkn⟩
      next hb =>
        refine ⟨hk, ?_⟩
        rintro rfl
        exact hother b hb hk
    have hiff : CancelAct.mark k ∈ acts ++ [.drop n] ↔ CancelAct.mark k ∈ acts := by simp
    rw [hcmds k hk'.2, h.cmds b k hk'.1]
    simp only [hiff]
  · rw [flatMap_append, h.log_eq, h.cmd_eq hn, flatMap_singleton]
    rfl
  · intro k
    rw [count_append, count_singleton]
    by_cases hk : k = n
    · subst k
      rw [count_eq_zero.mpr hnew]
      simp
    · have hne : (CancelAct.drop n == CancelAct.drop k) = false := by
        rw [beq_eq_false_iff_ne, ne_eq, CancelAct.drop.injEq]
        exact fun hc => hk hc.symm
      rw [hne]
      exact h.once k

end Acted

/-- The loop does to the queue what `cancelActs` says. -/
theorem CancelOps.OnQueue.acted {r : CancelArgs m} {a : Bool} {size : ℕ} {queue : σ → PdevQueue m}
    {wf : σ → Prop} (ho : o.OnQueue r a size queue wf) {s : σ} (hs : wf s) :
    let x := cancelLoop (o.logged fun s n => (queue s).cmd n) ((queue s).list a).length none none
      .notFound (s, [])
    wf x.2.1 ∧ Acted a ((queue s).cancelActs r o.single a o.stopTimer) x.2.2 (queue s)
      (queue x.2.1) := by
  intro x
  have hnodup := (ho.kept s hs).conserved.nodup a
  have hcmd : ∀ {acts : List CancelAct} {y : σ × List (Callback m)} {n : ℕ},
      Acted a acts y.2 (queue s) (queue y.1) → n ∈ (queue y.1).list a →
      r.isMatch ((queue y.1).cmds n) = r.isMatch ((queue s).cmds n) ∧
        ((queue y.1).cmds n).cmdInUse.markedForActivation =
          ((queue s).cmds n).cmdInUse.markedForActivation := by
    intro acts y n hy hn
    refine ⟨r.isMatch_congr (hy.cmd_eq hn), ?_⟩
    rw [hy.cmds a n hn]
    split <;> rfl
  have hloop := cancelLoop_acts (o := o.logged fun s n => (queue s).cmd n)
    (P := fun acts y => wf y.1 ∧ Acted a acts y.2 (queue s) (queue y.1))
    (p := fun n => r.isMatch ((queue s).cmds n))
    (q := fun n => a && ((queue s).cmds n).cmdInUse.markedForActivation) hnodup
    ?_ ?_ ?_ ?_ ?_ ((queue s).list a).length [] [] ((queue s).list a) .notFound
    (s := (s, [])) ⟨hs, Acted.refl a _⟩ (by simp [leftBy])
  · have hact : (o.logged fun s n => (queue s).cmd n).isActiveQueue = a := ho.isActiveQueue_eq
    rw [hact] at hloop
    exact hloop
  · rintro acts y ⟨-, hy⟩
    change o.queue y.1 = _
    rw [ho.queue_eq, hy.list, if_pos rfl]
  · rintro acts y n ⟨-, hy⟩ hn
    change n ∈ o.queue y.1 at hn
    rw [ho.queue_eq] at hn
    change o.isMatch y.1 n = _
    rw [ho.isMatch_eq, (hcmd hy hn).1]
  · rintro acts y n ⟨-, hy⟩ hn
    change n ∈ o.queue y.1 at hn
    rw [ho.queue_eq] at hn
    change (o.isActiveQueue && o.marked y.1 n) = _
    rw [ho.isActiveQueue_eq, ho.marked_eq, (hcmd hy hn).2]
  · rintro acts y n ⟨hwf, hy⟩ hn hq
    change n ∈ o.queue y.1 at hn
    rw [ho.queue_eq] at hn
    rw [Bool.and_eq_true, ← (hcmd hy hn).2] at hq
    rw [hq.1] at hn
    refine ⟨ho.mark_wf y.1 n hwf hn hq.2, ?_⟩
    change Acted a _ y.2 _ (queue (o.mark n y.1))
    rw [ho.mark_queue]
    exact hy.mark n
  · rintro acts y n ⟨hwf, hy⟩ hn hq
    change n ∈ o.queue y.1 at hn
    rw [ho.queue_eq] at hn
    refine ⟨ho.drop_wf y.1 n hwf hn ?_, hy.drop hnodup hn ?_ (ho.drop_list y.1 n hwf hn)
      (ho.drop_cmds y.1 n hwf hn)⟩
    · intro ha
      rw [(hcmd hy hn).2]
      rwa [ha, Bool.true_and] at hq
    · intro b hb
      exact (ho.kept y.1 hwf).conserved.notMem_other hn hb

theorem callbacks_filter {cmd : ℕ → Cmd m} {acts : List CancelAct} {n : ℕ}
    (honce : acts.count (.drop n) ≤ 1) :
    (acts.flatMap (CancelAct.callbacks cmd)).filter (·.node = n) =
      if .drop n ∈ acts then cancelCallbacks n (cmd n) else [] := by
  have hself : ∀ k, (cancelCallbacks k (cmd k)).filter (·.node = n) =
      if k = n then cancelCallbacks k (cmd k) else [] := by
    intro k
    rw [cancelCallbacks]
    split <;> split <;> simp_all
  induction acts with
  | nil => rfl
  | cons act acts ih =>
    rw [flatMap_cons, filter_append]
    cases act with
    | mark k =>
      rw [count_cons_of_ne (fun hc => by cases hc)] at honce
      rw [ih honce, CancelAct.callbacks, filter_nil, nil_append]
      simp only [mem_cons, reduceCtorEq, false_or]
    | drop k =>
      rw [CancelAct.callbacks, hself]
      by_cases hk : k = n
      · subst k
        rw [count_cons_self] at honce
        have hgone : CancelAct.drop n ∉ acts := count_eq_zero.mp (by omega)
        rw [ih (by omega), if_pos rfl, if_neg hgone, if_pos mem_cons_self,
          append_nil]
      · have hne : CancelAct.drop k ≠ CancelAct.drop n :=
          fun hc => hk (CancelAct.drop.inj hc)
        rw [count_cons_of_ne hne] at honce
        rw [if_neg hk, nil_append, ih honce]
        simp only [mem_cons, Ne.symm hne, false_or]

namespace Acted

variable {a : Bool} {acts : List CancelAct} {log : List (Callback m)} {q q' : PdevQueue m} {n : ℕ}

theorem log_filter (h : Acted a acts log q q') (n : ℕ) :
    log.filter (·.node = n) = if .drop n ∈ acts then cancelCallbacks n (q.cmd n) else [] := by
  rw [h.log_eq, callbacks_filter (h.once n)]

end Acted

namespace PdevQueue

variable {q : PdevQueue m} {r : CancelArgs m} {single a : Bool} {stopTimer : ℕ → Bool} {n : ℕ}

theorem drop_mem_cancelActs {asked : Bool}
    (h : .drop n ∈ if asked then q.cancelActs r single a stopTimer else []) :
    n ∈ q.list a ∧ (asked && r.isMatch (q.cmds n)) = true ∧
      (a && (q.cmds n).cmdInUse.markedForActivation) = false := by
  cases asked with
  | false => cases h
  | true => exact cancelActs_spec (fun _ hk => by cases hk) _ h

theorem mark_mem_cancelActs {asked : Bool}
    (h : .mark n ∈ if asked then q.cancelActs r single a stopTimer else []) :
    n ∈ q.list a ∧ (asked && r.isMatch (q.cmds n)) = true := by
  cases asked with
  | false => cases h
  | true =>
    obtain ⟨hn | hn, hmatch, -⟩ := cancelActs_spec (fun _ hk => by cases hk) _ h
    · cases hn
    · exact ⟨hn, hmatch⟩

end PdevQueue

theorem cancelActs_pending (single : Bool) (p : ℕ → Bool) (queue : List ℕ) :
    cancelActs single p (fun _ => false) (fun _ => true) queue.length [] queue =
      ((queue.filter p).take (if single then 1 else queue.length)).map .drop := by
  induction queue with
  | nil => simp [cancelActs]
  | cons n queue ih =>
    rw [length_cons, cancelActs, nil_append, filter_cons, ih]
    cases p n with
    | false =>
      rw [if_pos rfl, if_neg Bool.false_ne_true]
      cases single with
      | true => rfl
      | false =>
        rw [if_neg Bool.false_ne_true, if_neg Bool.false_ne_true,
          take_of_length_le (length_filter_le ..),
          take_of_length_le (Nat.le_succ_of_le (length_filter_le ..))]
    | true =>
      rw [if_neg (Ne.symm Bool.false_ne_true), if_neg Bool.false_ne_true,
        if_neg (Ne.symm Bool.false_ne_true), if_pos rfl]
      cases single with
      | true => rfl
      | false =>
        rw [if_neg Bool.false_ne_true, if_neg Bool.false_ne_true, take_succ_cons,
          map_cons]
        exact congrArg _ ih

theorem Scan.onQueue (r : CancelArgs m) (a : Bool) (stopTimer : ℕ → Bool) :
    (Scan.cancelOps r a stopTimer).OnQueue r a scanPoolSize Scan.pdevQ Scan.WellFormed where
  kept _ hs := hs.kept
  queue_eq _ := rfl
  isMatch_eq _ _ := rfl
  marked_eq _ _ := rfl
  isActiveQueue_eq := rfl
  mark_wf _ _ hs hn hmark := hs.markForCancel hn hmark
  mark_queue _ _ := rfl
  drop_wf _ _ hs hn hmark := hs.dropCmd hn hmark
  drop_list s n _ _ b := s.dropCmd_list n a b
  drop_cmds s n _ _ k hk := by
    change ((s.pdevQ.setList a _).release n).cmds k = _
    rw [PdevQueue.cmds_release_of_ne hk, PdevQueue.cmds_setList]

theorem NonScan.WellFormed.dropCmd {c : SerConfig m} {s : NonScan m} (h : s.WellFormed c []) {n : ℕ}
    {a : Bool} (hn : n ∈ s.pdevQ.list a) (hmark : a = true → s.marked n = false) :
    (s.dropCmd a n).WellFormed c [] := by
  obtain ⟨v, hv⟩ := Option.ne_none_iff_exists'.mp (h.has_vdev a n hn)
  rw [dropCmd_eq s hv]
  cases a with
  | true => exact h.discard hn hv hmark
  | false => exact (h.discard hn hv hmark).uncount _

theorem NonScan.dropCmd_list {c : SerConfig m} {s : NonScan m} (h : s.WellFormed c []) {n : ℕ}
    {a : Bool} (hn : n ∈ s.pdevQ.list a) (b : Bool) :
    (s.dropCmd a n).pdevQ.list b = if b = a then (s.pdevQ.list a).erase n else s.pdevQ.list b := by
  obtain ⟨v, hv⟩ := Option.ne_none_iff_exists'.mp (h.has_vdev a n hn)
  rw [dropCmd_eq s hv]
  cases a with
  | true => exact discard_list s n v true b
  | false =>
    rw [if_neg Bool.false_ne_true, (uncount_queue _ _).1]
    exact discard_list s n v false b

theorem NonScan.dropCmd_cmds_of_ne {c : SerConfig m} {s : NonScan m} (h : s.WellFormed c []) {n k : ℕ}
    {a : Bool} (hn : n ∈ s.pdevQ.list a) (hk : k ≠ n) :
    (s.dropCmd a n).pdevQ.cmds k = s.pdevQ.cmds k := by
  obtain ⟨v, hv⟩ := Option.ne_none_iff_exists'.mp (h.has_vdev a n hn)
  have hdiscard : (s.discard n v a).pdevQ.cmds k = s.pdevQ.cmds k := by
    change ((s.unlink n v a).pdevQ.release n).cmds k = _
    rw [PdevQueue.cmds_release_of_ne hk, unlink_cmds]
  rw [dropCmd_eq s hv]
  cases a with
  | true => exact hdiscard
  | false =>
    rw [if_neg Bool.false_ne_true, (uncount_queue _ _).2]
    exact hdiscard

theorem NonScan.onQueue (c : SerConfig m) (r : CancelArgs m) (a : Bool) (stopTimer : ℕ → Bool) :
    (NonScan.cancelOps r a stopTimer).OnQueue r a c.cmdPoolSize NonScan.pdevQ
      (fun s => s.WellFormed c []) where
  kept _ hs := hs.kept
  queue_eq _ := rfl
  isMatch_eq _ _ := rfl
  marked_eq _ _ := rfl
  isActiveQueue_eq := rfl
  mark_wf _ _ hs hn hmark := hs.markForCancel hn hmark
  mark_queue _ _ := rfl
  drop_wf _ _ hs hn hmark := hs.dropCmd hn hmark
  drop_list _ _ hs hn b := dropCmd_list hs hn b
  drop_cmds _ _ hs hn _ hk := dropCmd_cmds_of_ne hs hn hk

def NonScan.singleCancel (r : CancelArgs m) : Bool := !r.pdev && r.vdev.isNone

def CancelArgs.single (r : CancelArgs m) : Bool := !r.cmdType.isScan && NonScan.singleCancel r

namespace SerPdev

def pdevQ (s : SerPdev m) (isScan : Bool) : PdevQueue m :=
  if isScan then s.scan.pdevQ else s.nonScan.pdevQ

def meant (s : SerPdev m) (r : CancelArgs m) (activeQueue pendingQueue a : Bool) (n : ℕ) : Bool :=
  (if a then activeQueue else pendingQueue) && r.isMatch ((s.pdevQ r.cmdType.isScan).cmds n)

/-- After a cancel each pending command that was meant is in no list, its callback was called to
cancel and to release, and its node is in the pool once; each that was meant and is under
activation is marked; the others are where they were, as they were. -/
structure ReachedAll (s t : SerPdev m) (log : List (Callback m)) (r : CancelArgs m)
    (activeQueue pendingQueue : Bool) : Prop where
  pending : ∀ n ∈ (s.pdevQ r.cmdType.isScan).pendingList,
    s.meant r activeQueue pendingQueue false n = true →
      (∀ a, n ∉ (t.pdevQ r.cmdType.isScan).list a) ∧
      (r.cmdType.isScan = false → ∀ v a, n ∉ (t.nonScan.vdevQ v).list a) ∧
      (t.pdevQ r.cmdType.isScan).cmdPoolList.count n = 1 ∧
      log.filter (·.node = n) = [⟨n, (s.pdevQ r.cmdType.isScan).cmd n, .cancelCmd⟩,
        ⟨n, (s.pdevQ r.cmdType.isScan).cmd n, .releaseMemCmd⟩]
  activating : ∀ n ∈ (s.pdevQ r.cmdType.isScan).activeList,
    s.meant r activeQueue pendingQueue true n = true →
    ((s.pdevQ r.cmdType.isScan).cmds n).cmdInUse.markedForActivation = true →
      n ∈ (t.pdevQ r.cmdType.isScan).activeList ∧
      ((t.pdevQ r.cmdType.isScan).cmds n).cmdInUse.activeMarkedForCancel = true
  others : ∀ a, ((t.pdevQ r.cmdType.isScan).list a).filter
      (fun n => !s.meant r activeQueue pendingQueue a n) =
    ((s.pdevQ r.cmdType.isScan).list a).filter
      fun n => !s.meant r activeQueue pendingQueue a n
  vdev_others : r.cmdType.isScan = false → ∀ v a, ((t.nonScan.vdevQ v).list a).filter
      (fun n => !s.meant r activeQueue pendingQueue a n) =
    ((s.nonScan.vdevQ v).list a).filter
      fun n => !s.meant r activeQueue pendingQueue a n
  untouched : ∀ a, ∀ n ∈ (s.pdevQ r.cmdType.isScan).list a,
    s.meant r activeQueue pendingQueue a n = false →
      (t.pdevQ r.cmdType.isScan).cmds n = (s.pdevQ r.cmdType.isScan).cmds n ∧
      log.filter (·.node = n) = []
  other_queue : if r.cmdType.isScan then t.nonScan = s.nonScan else t.scan = s.scan

/-- Nothing gets in the way of a cancel. For a single command no two pending ones are meant, and
the loop gets to each command under activation that is not marked yet: none of the active commands
before it that are dropped is the only one to be, or has no timer, and as many turns as are spent
on going back are left behind it. -/
structure CancelReaches (s : SerPdev m) (r : CancelArgs m) (activeQueue pendingQueue : Bool)
    (stopTimer : ℕ → Bool) : Prop where
  pending : r.single = true → ((s.pdevQ r.cmdType.isScan).pendingList.filter
    (s.meant r activeQueue pendingQueue false)).length ≤ 1
  activating : ∀ before n after,
    (s.pdevQ r.cmdType.isScan).activeList = before ++ n :: after →
    s.meant r activeQueue pendingQueue true n = true →
    ((s.pdevQ r.cmdType.isScan).cmds n).cmdInUse.markedForActivation = true →
    ((s.pdevQ r.cmdType.isScan).cmds n).cmdInUse.activeMarkedForCancel = false →
      (∀ d ∈ before, s.meant r activeQueue pendingQueue true d = true →
        ((s.pdevQ r.cmdType.isScan).cmds d).cmdInUse.markedForActivation = false →
          stopTimer d = true ∧ r.single = false) ∧
      revisits (s.meant r activeQueue pendingQueue true)
        (fun d => ((s.pdevQ r.cmdType.isScan).cmds d).cmdInUse.markedForActivation) 0 before ≤
          after.length

section Handler

variable {c : SerConfig m} {s : SerPdev m}

theorem cancelCmdLog_acted (h : s.WellFormed c) (r : CancelArgs m) (asked a : Bool)
    (stopTimer : ℕ → Bool) {x : CmdStatus × SerPdev m × List (Callback m)}
    (hx : (if asked then s.cancelCmdLog r a stopTimer else (.notFound, s, [])) = x) :
    x.2.1.WellFormed c ∧
      Acted a (if asked then (s.pdevQ r.cmdType.isScan).cancelActs r r.single a stopTimer else [])
        x.2.2 (s.pdevQ r.cmdType.isScan) (x.2.1.pdevQ r.cmdType.isScan) ∧
      if r.cmdType.isScan then x.2.1.nonScan = s.nonScan else x.2.1.scan = s.scan := by
  subst x
  cases asked with
  | false =>
    refine ⟨h, Acted.refl a _, ?_⟩
    split <;> rfl
  | true =>
    rw [if_pos rfl, if_pos rfl, cancelCmdLog, CancelArgs.single, pdevQ]
    cases hscan : r.cmdType.isScan with
    | true =>
      obtain ⟨hwf, hacted⟩ := (Scan.onQueue r a stopTimer).acted h.scan
      exact ⟨⟨h.nonScan, hwf⟩, hacted, rfl⟩
    | false =>
      obtain ⟨hwf, hacted⟩ := (NonScan.onQueue c r a stopTimer).acted h.nonScan
      exact ⟨⟨hwf, h.scan⟩, hacted, rfl⟩

variable (s) in
/-- What the cancel handler does, `acts` being what is done to each of the two lists. -/
structure Handled (c : SerConfig m) (r : CancelArgs m) (activeQueue pendingQueue : Bool)
    (stopTimer : ℕ → Bool) (acts : Bool → List CancelAct) (t : SerPdev m)
    (log : List (Callback m)) : Prop where
  wf : t.WellFormed c
  list : ∀ a, (t.pdevQ r.cmdType.isScan).list a =
    leftBy (acts a) ((s.pdevQ r.cmdType.isScan).list a)
  cmds : ∀ a, ∀ n ∈ (t.pdevQ r.cmdType.isScan).list a, (t.pdevQ r.cmdType.isScan).cmds n =
    if .mark n ∈ acts true then ((s.pdevQ r.cmdType.isScan).cmds n).markCancel
    else (s.pdevQ r.cmdType.isScan).cmds n
  log : ∀ a, ∀ n ∈ (s.pdevQ r.cmdType.isScan).list a, log.filter (·.node = n) =
    if .drop n ∈ acts a then cancelCallbacks n ((s.pdevQ r.cmdType.isScan).cmd n) else []
  drop : ∀ a n, .drop n ∈ acts a → s.meant r activeQueue pendingQueue a n = true ∧
    (a && ((s.pdevQ r.cmdType.isScan).cmds n).cmdInUse.markedForActivation) = false
  mark : ∀ n, .mark n ∈ acts true → n ∈ (s.pdevQ r.cmdType.isScan).activeList ∧
    s.meant r activeQueue pendingQueue true n = true
  mark_iff : ∀ before n after, (s.pdevQ r.cmdType.isScan).activeList = before ++ n :: after →
    s.meant r activeQueue pendingQueue true n = true →
    ((s.pdevQ r.cmdType.isScan).cmds n).cmdInUse.markedForActivation = true →
      (.mark n ∈ acts true ↔
        (∀ d ∈ before, s.meant r activeQueue pendingQueue true d = true →
          ((s.pdevQ r.cmdType.isScan).cmds d).cmdInUse.markedForActivation = false →
            stopTimer d = true ∧ r.single = false) ∧
        revisits (s.meant r activeQueue pendingQueue true)
          (fun d => ((s.pdevQ r.cmdType.isScan).cmds d).cmdInUse.markedForActivation) 0 before ≤
            after.length)
  drop_iff : ∀ n, .drop n ∈ acts false ↔
    n ∈ ((s.pdevQ r.cmdType.isScan).pendingList.filter
      (s.meant r activeQueue pendingQueue false)).take
        (if r.single then 1 else (s.pdevQ r.cmdType.isScan).pendingList.length)
  other_queue : if r.cmdType.isScan then t.nonScan = s.nonScan else t.scan = s.scan

theorem WellFormed.queue_kept (h : s.WellFormed c) (isScan : Bool) :
    (s.pdevQ isScan).Kept [] (if isScan then scanPoolSize else c.cmdPoolSize) := by
  cases isScan with
  | true => exact h.scan.kept
  | false => exact h.nonScan.kept

theorem cmdCancelHandlerLog_handled (h : s.WellFormed c) (r : CancelArgs m)
    (activeQueue pendingQueue : Bool) (stopTimer : ℕ → Bool) :
    ∃ acts, s.Handled c r activeQueue pendingQueue stopTimer acts
      (s.cmdCancelHandlerLog r activeQueue pendingQueue stopTimer).2.1
      (s.cmdCancelHandlerLog r activeQueue pendingQueue stopTimer).2.2 := by
  rw [cmdCancelHandlerLog]
  generalize hx : (if activeQueue then s.cancelCmdLog r true stopTimer else (.notFound, s, [])) = x
  obtain ⟨hwf₁, hacted₁, hother₁⟩ := s.cancelCmdLog_acted h r activeQueue true stopTimer hx
  generalize hy : (if pendingQueue then x.2.1.cancelCmdLog r false stopTimer
    else (.notFound, x.2.1, [])) = y
  obtain ⟨hwf₂, hacted₂, hother₂⟩ := x.2.1.cancelCmdLog_acted hwf₁ r pendingQueue false stopTimer hy
  generalize hactsA : (if activeQueue then
    (s.pdevQ r.cmdType.isScan).cancelActs r r.single true stopTimer else []) = actsA at hacted₁
  generalize hactsP : (if pendingQueue then
    (x.2.1.pdevQ r.cmdType.isScan).cancelActs r r.single false stopTimer else []) = actsP at hacted₂
  have hconserved := (h.queue_kept r.cmdType.isScan).conserved
  have hmark : ∀ n, .mark n ∈ actsA → n ∈ (s.pdevQ r.cmdType.isScan).activeList ∧
      s.meant r activeQueue pendingQueue true n = true := by
    intro n hn
    rw [← hactsA] at hn
    exact PdevQueue.mark_mem_cancelActs hn
  have hdropA : ∀ n, .drop n ∈ actsA → n ∈ (s.pdevQ r.cmdType.isScan).activeList ∧
      s.meant r activeQueue pendingQueue true n = true ∧
      ((s.pdevQ r.cmdType.isScan).cmds n).cmdInUse.markedForActivation = false := by
    intro n hn
    rw [← hactsA] at hn
    exact PdevQueue.drop_mem_cancelActs hn
  -- the first of the two cancels leaves the pending commands alone
  have hlist₁ : (x.2.1.pdevQ r.cmdType.isScan).list false =
      (s.pdevQ r.cmdType.isScan).list false := by
    rw [hacted₁.list, if_neg Bool.false_ne_true]
  have hcmds₁ : ∀ n ∈ (s.pdevQ r.cmdType.isScan).list false,
      (x.2.1.pdevQ r.cmdType.isScan).cmds n = (s.pdevQ r.cmdType.isScan).cmds n := by
    intro n hn
    have hno : CancelAct.mark n ∉ actsA := fun hc =>
      hconserved.notMem_other hn (Ne.symm Bool.false_ne_true) (hmark n hc).1
    rw [hacted₁.cmds false n (by rwa [hlist₁]), if_neg hno]
  have hactsP' : actsP = (((s.pdevQ r.cmdType.isScan).pendingList.filter
      (s.meant r activeQueue pendingQueue false)).take
        (if r.single then 1 else (s.pdevQ r.cmdType.isScan).pendingList.length)).map .drop := by
    rw [← hactsP]
    cases hask : pendingQueue with
    | false => simp [meant]
    | true =>
      rw [if_pos rfl, PdevQueue.cancelActs, hlist₁]
      simp only [Bool.false_and, Bool.not_false, Bool.true_or]
      rw [cancelActs_pending]
      congr 2
      apply filter_congr
      intro n hn
      rw [meant, if_neg Bool.false_ne_true, Bool.true_and, hcmds₁ n hn]
  have hdrop_iff : ∀ n, .drop n ∈ actsP ↔ n ∈ ((s.pdevQ r.cmdType.isScan).pendingList.filter
      (s.meant r activeQueue pendingQueue false)).take
        (if r.single then 1 else (s.pdevQ r.cmdType.isScan).pendingList.length) := by
    intro n
    rw [hactsP', mem_map]
    simp
  have hmarkP : ∀ n, CancelAct.mark n ∉ actsP := by
    intro n
    rw [hactsP', mem_map]
    rintro ⟨k, -, hk⟩
    cases hk
  have hdropP : ∀ n, .drop n ∈ actsP → n ∈ (s.pdevQ r.cmdType.isScan).pendingList ∧
      s.meant r activeQueue pendingQueue false n = true := by
    intro n hn
    exact mem_filter.mp (mem_of_mem_take ((hdrop_iff n).mp hn))
  refine ⟨fun a => if a then actsA else actsP, hwf₂, ?_, ?_, ?_, ?_, hmark, ?_, hdrop_iff, ?_⟩
  · intro a
    rw [hacted₂.list]
    cases a with
    | true => rw [if_neg (Ne.symm Bool.false_ne_true), hacted₁.list, if_pos rfl, if_pos rfl]
    | false => rw [if_pos rfl, hlist₁, if_neg Bool.false_ne_true]
  · intro a n hn
    have hn₁ : ∃ b, n ∈ (x.2.1.pdevQ r.cmdType.isScan).list b := by
      rw [hacted₂.list] at hn
      split at hn
      · exact ⟨false, (mem_filter.mp hn).1⟩
      · exact ⟨a, hn⟩
    obtain ⟨b, hn₁⟩ := hn₁
    rw [hacted₂.cmds a n hn, if_neg (hmarkP n), hacted₁.cmds b n hn₁, if_pos rfl]
  · intro a n hn
    rw [filter_append, hacted₁.log_filter, hacted₂.log_filter]
    cases a with
    | true =>
      have hno : CancelAct.drop n ∉ actsP := fun hc =>
        hconserved.notMem_other hn Bool.false_ne_true (hdropP n hc).1
      rw [if_neg hno, append_nil, if_pos rfl]
    | false =>
      have hno : CancelAct.drop n ∉ actsA := fun hc =>
        hconserved.notMem_other hn (Ne.symm Bool.false_ne_true) (hdropA n hc).1
      rw [if_neg hno, nil_append, if_neg Bool.false_ne_true, PdevQueue.cmd, hcmds₁ n hn,
        PdevQueue.cmd]
  · intro a n hn
    cases a with
    | true =>
      obtain ⟨-, hmeant, hmarked⟩ := hdropA n hn
      exact ⟨hmeant, hmarked⟩
    | false => exact ⟨(hdropP n hn).2, rfl⟩
  · intro before n after hsplit hmeant hmarked
    rw [if_pos rfl, ← hactsA]
    cases hask : activeQueue with
    | false =>
      rw [meant, hask] at hmeant
      cases hmeant
    | true =>
      have hmatch : s.meant r true pendingQueue true =
          fun n => r.isMatch ((s.pdevQ r.cmdType.isScan).cmds n) := by
        funext k
        rw [meant, if_pos rfl, Bool.true_and]
      have hnodup := hconserved.nodup true
      rw [PdevQueue.list_true, hsplit] at hnodup
      have hbefore : n ∉ before := fun hc =>
        (nodup_append.mp hnodup).2.2 n hc n mem_cons_self rfl
      rw [hask, hmatch] at hmeant
      rw [if_pos rfl, PdevQueue.cancelActs, PdevQueue.list_true, hsplit,
        mark_mem_cancelActs_iff (fun _ hk => by cases hk) not_mem_nil hbefore hmeant hmarked,
        hmatch, length_append, length_cons, length_nil]
      simp only [Bool.true_and, Bool.not_true, Bool.false_or]
      exact and_congr_right fun _ => by omega
  · cases hscan : r.cmdType.isScan with
    | true =>
      rw [hscan] at hother₁ hother₂
      exact hother₂.trans hother₁
    | false =>
      rw [hscan] at hother₁ hother₂
      exact hother₂.trans hother₁

namespace Handled

variable {r : CancelArgs m} {activeQueue pendingQueue : Bool} {stopTimer : ℕ → Bool}
  {acts : Bool → List CancelAct} {t : SerPdev m} {log : List (Callback m)} {n : ℕ} {a : Bool}

theorem mem_list (hd : s.Handled c r activeQueue pendingQueue stopTimer acts t log)
    (hn : n ∈ (s.pdevQ r.cmdType.isScan).list a) :
    n ∈ (t.pdevQ r.cmdType.isScan).list a ↔ .drop n ∉ acts a := by
  rw [hd.list, leftBy, mem_filter, decide_eq_true_eq]
  exact and_iff_right hn

theorem sub (hd : s.Handled c r activeQueue pendingQueue stopTimer acts t log)
    (hn : n ∈ (t.pdevQ r.cmdType.isScan).list a) : n ∈ (s.pdevQ r.cmdType.isScan).list a := by
  rw [hd.list] at hn
  exact (mem_filter.mp hn).1

theorem cmd_eq (hd : s.Handled c r activeQueue pendingQueue stopTimer acts t log)
    (hn : n ∈ (t.pdevQ r.cmdType.isScan).list a) :
    (t.pdevQ r.cmdType.isScan).cmd n = (s.pdevQ r.cmdType.isScan).cmd n := by
  rw [PdevQueue.cmd, hd.cmds a n hn]
  split <;> rfl

theorem gone (hd : s.Handled c r activeQueue pendingQueue stopTimer acts t log)
    (h : s.WellFormed c) (hcb : (s.pdevQ r.cmdType.isScan).HasCallbacks)
    (hn : n ∈ (s.pdevQ r.cmdType.isScan).pendingList) (hdrop : .drop n ∈ acts false) :
    (∀ a, n ∉ (t.pdevQ r.cmdType.isScan).list a) ∧
      (r.cmdType.isScan = false → ∀ v a, n ∉ (t.nonScan.vdevQ v).list a) ∧
      (t.pdevQ r.cmdType.isScan).cmdPoolList.count n = 1 ∧
      log.filter (·.node = n) = [⟨n, (s.pdevQ r.cmdType.isScan).cmd n, .cancelCmd⟩,
        ⟨n, (s.pdevQ r.cmdType.isScan).cmd n, .releaseMemCmd⟩] := by
  have hconserved := (h.queue_kept r.cmdType.isScan).conserved
  have hnot : ∀ a, n ∉ (t.pdevQ r.cmdType.isScan).list a := by
    intro a hmem
    cases a with
    | true => exact hconserved.notMem_other hn (Ne.symm Bool.false_ne_true) (hd.sub hmem)
    | false => exact (hd.mem_list (a := false) hn).mp hmem hdrop
  refine ⟨hnot, ?_, ?_, ?_⟩
  · intro hscan v a hmem
    have hmem' := (hd.wf.nonScan.mem_vdev_list.mp hmem).1
    have hno := hnot a
    rw [pdevQ, hscan, if_neg Bool.false_ne_true] at hno
    exact hno hmem'
  · have hbefore := hconserved n
    have hafter := (hd.wf.queue_kept r.cmdType.isScan).conserved n
    have hpos : 0 < ((s.pdevQ r.cmdType.isScan).list false).count n := count_pos_iff.mpr hn
    have hle := hconserved.count_le n
    rw [count_eq_zero.mpr (hnot true), count_eq_zero.mpr (hnot false)] at hafter
    rw [← hbefore, count_nil] at hafter
    rw [count_nil] at hle
    omega
  · rw [hd.log false n hn, if_pos hdrop, cancelCallbacks, hcb false n hn, if_pos rfl]

theorem kept_others (hd : s.Handled c r activeQueue pendingQueue stopTimer acts t log) (a : Bool) :
    ((t.pdevQ r.cmdType.isScan).list a).filter
        (fun n => !s.meant r activeQueue pendingQueue a n) =
      ((s.pdevQ r.cmdType.isScan).list a).filter
        fun n => !s.meant r activeQueue pendingQueue a n := by
  rw [hd.list, leftBy, filter_filter]
  apply filter_congr
  intro n _
  cases hmeant : s.meant r activeQueue pendingQueue a n with
  | true => rfl
  | false =>
    rw [Bool.not_false, Bool.true_and, decide_eq_true_eq]
    intro hdrop
    rw [(hd.drop a n hdrop).1] at hmeant
    cases hmeant

theorem vdev_others (hd : s.Handled c r activeQueue pendingQueue stopTimer acts t log)
    (h : s.WellFormed c) (hscan : r.cmdType.isScan = false) (v : Fin m) (a : Bool) :
    ((t.nonScan.vdevQ v).list a).filter (fun n => !s.meant r activeQueue pendingQueue a n) =
      ((s.nonScan.vdevQ v).list a).filter
        fun n => !s.meant r activeQueue pendingQueue a n := by
  have hothers := hd.kept_others a
  have hcmd : ∀ n ∈ (t.pdevQ r.cmdType.isScan).list a,
      (t.pdevQ r.cmdType.isScan).cmd n = (s.pdevQ r.cmdType.isScan).cmd n := fun n hn => hd.cmd_eq hn
  rw [pdevQ, pdevQ, hscan, if_neg Bool.false_ne_true, if_neg Bool.false_ne_true] at hothers hcmd
  have hof : (t.nonScan.pdevQ.list a).filter (t.nonScan.ofVdev v) =
      (t.nonScan.pdevQ.list a).filter (s.nonScan.ofVdev v) := by
    apply filter_congr
    intro n hn
    rw [NonScan.ofVdev, hcmd n hn, NonScan.ofVdev]
  rw [hd.wf.nonScan.vdev_list, h.nonScan.vdev_list, hof, filter_comm, hothers,
    filter_comm]

theorem untouched (hd : s.Handled c r activeQueue pendingQueue stopTimer acts t log)
    (h : s.WellFormed c) (hn : n ∈ (s.pdevQ r.cmdType.isScan).list a)
    (hmeant : s.meant r activeQueue pendingQueue a n = false) :
    (t.pdevQ r.cmdType.isScan).cmds n = (s.pdevQ r.cmdType.isScan).cmds n ∧
      log.filter (·.node = n) = [] := by
  have hdrop : CancelAct.drop n ∉ acts a := by
    intro hc
    rw [(hd.drop a n hc).1] at hmeant
    cases hmeant
  have hmark : CancelAct.mark n ∉ acts true := by
    intro hc
    obtain ⟨hactive, hmeant'⟩ := hd.mark n hc
    cases a with
    | true =>
      rw [hmeant'] at hmeant
      cases hmeant
    | false =>
      exact (h.queue_kept r.cmdType.isScan).conserved.notMem_other hn
        (Ne.symm Bool.false_ne_true) hactive
  rw [hd.cmds a n ((hd.mem_list hn).mpr hdrop), if_neg hmark, hd.log a n hn, if_neg hdrop]
  exact ⟨rfl, rfl⟩

theorem marked_iff (hd : s.Handled c r activeQueue pendingQueue stopTimer acts t log)
    (hn : n ∈ (s.pdevQ r.cmdType.isScan).activeList)
    (hmarked : ((s.pdevQ r.cmdType.isScan).cmds n).cmdInUse.markedForActivation = true) :
    n ∈ (t.pdevQ r.cmdType.isScan).activeList ∧
      (((t.pdevQ r.cmdType.isScan).cmds n).cmdInUse.activeMarkedForCancel = true ↔
        .mark n ∈ acts true ∨
          ((s.pdevQ r.cmdType.isScan).cmds n).cmdInUse.activeMarkedForCancel = true) := by
  have hdrop : CancelAct.drop n ∉ acts true := by
    intro hc
    have hno := (hd.drop true n hc).2
    rw [hmarked] at hno
    cases hno
  have hmem := (hd.mem_list (a := true) hn).mpr hdrop
  refine ⟨hmem, ?_⟩
  rw [hd.cmds true n hmem]
  by_cases hmark : CancelAct.mark n ∈ acts true
  · rw [if_pos hmark]
    exact ⟨fun _ => .inl hmark, fun _ => rfl⟩
  · rw [if_neg hmark]
    exact ⟨.inr, fun hc => hc.resolve_left hmark⟩

theorem forall_mem_take_iff {l : List ℕ} (hl : l.Nodup) {k : ℕ} (hk : l.length ≤ k) (single : Bool) :
    (∀ n ∈ l, n ∈ l.take (if single then 1 else k)) ↔ (single = true → l.length ≤ 1) := by
  cases single with
  | false =>
    rw [if_neg Bool.false_ne_true, take_of_length_le hk]
    exact ⟨fun _ hc => absurd hc Bool.false_ne_true, fun _ _ hn => hn⟩
  | true =>
    rw [if_pos rfl]
    match l, hl with
    | [], _ => simp
    | [_], _ => simp
    | n :: k :: l, hl =>
      have hne : k ≠ n := fun hc => (nodup_cons.mp hl).1 (hc ▸ mem_cons_self)
      simp [hne]

theorem reachedAll_iff (hd : s.Handled c r activeQueue pendingQueue stopTimer acts t log)
    (h : s.WellFormed c) (hcb : (s.pdevQ r.cmdType.isScan).HasCallbacks) :
    s.ReachedAll t log r activeQueue pendingQueue ↔
      s.CancelReaches r activeQueue pendingQueue stopTimer := by
  have hconserved := (h.queue_kept r.cmdType.isScan).conserved
  have hpending : (∀ n ∈ (s.pdevQ r.cmdType.isScan).pendingList,
      s.meant r activeQueue pendingQueue false n = true → .drop n ∈ acts false) ↔
        (r.single = true → ((s.pdevQ r.cmdType.isScan).pendingList.filter
          (s.meant r activeQueue pendingQueue false)).length ≤ 1) := by
    have hnodup : (s.pdevQ r.cmdType.isScan).pendingList.Nodup := hconserved.nodup false
    rw [← forall_mem_take_iff (hnodup.filter _) (length_filter_le ..)]
    simp only [hd.drop_iff, mem_filter, and_imp]
  constructor
  · intro hall
    refine ⟨hpending.mp fun n hn hmeant => ?_, ?_⟩
    · by_contra hdrop
      exact (hall.pending n hn hmeant).1 false ((hd.mem_list (a := false) hn).mpr hdrop)
    · intro before n after hsplit hmeant hmarked hfresh
      have hn : n ∈ (s.pdevQ r.cmdType.isScan).activeList := by
        rw [hsplit]
        exact mem_append_right _ mem_cons_self
      rw [← hd.mark_iff before n after hsplit hmeant hmarked]
      apply ((hd.marked_iff hn hmarked).2.mp (hall.activating n hn hmeant hmarked).2).resolve_right
      rw [hfresh]
      exact Bool.false_ne_true
  · intro hreach
    constructor
    · exact fun n hn hmeant => hd.gone h hcb hn (hpending.mpr hreach.pending n hn hmeant)
    · intro n hn hmeant hmarked
      obtain ⟨hstay, hiff⟩ := hd.marked_iff hn hmarked
      refine ⟨hstay, hiff.mpr ?_⟩
      cases hfresh : ((s.pdevQ r.cmdType.isScan).cmds n).cmdInUse.activeMarkedForCancel with
      | true => exact .inr rfl
      | false =>
        obtain ⟨before, after, hsplit⟩ := append_of_mem hn
        exact .inl ((hd.mark_iff before n after hsplit hmeant hmarked).mpr
          (hreach.activating before n after hsplit hmeant hmarked hfresh))
    · exact hd.kept_others
    · exact hd.vdev_others h
    · exact fun a n hn hmeant => hd.untouched h hn hmeant
    · exact hd.other_queue

end Handled

end Handler

end SerPdev

/-- In every state that calls reach, a cancel reaches all that it is meant for just when nothing
gets in its way. -/
theorem psoc_cancel_reachedAll_iff {Pdev : Type} [Fintype Pdev] [DecidableEq Pdev] (c : SerConfig m)
    (maxActiveScans : ℕ) (inputs : List (Pdev × Input m)) (p : Pdev) (r : CancelArgs m)
    (activeQueue pendingQueue : Bool) (stopTimer : ℕ → Bool) :
    let s := ((psoc c maxActiveScans).run (fun _ => SerPdev.init c) inputs).1 p
    let x := s.cmdCancelHandlerLog r activeQueue pendingQueue stopTimer
    s.ReachedAll x.2.1 x.2.2 r activeQueue pendingQueue ↔
      s.CancelReaches r activeQueue pendingQueue stopTimer := by
  intro s x
  have hkeeps := psoc_run_keeps_callbacks c maxActiveScans inputs p
  obtain ⟨acts, hd⟩ := s.cmdCancelHandlerLog_handled hkeeps.wf r activeQueue pendingQueue stopTimer
  apply hd.reachedAll_iff hkeeps.wf
  rw [SerPdev.pdevQ]
  split
  · exact hkeeps.scan
  · exact hkeeps.nonScan

/-- Three commands become active; the second is back from its callback when all are cancelled. The
turns are spent on marking the first twice. -/
theorem not_psoc_cancel_reachedAll :
    ¬ ∀ inputs : List (Unit × Input 6),
      let s := ((psoc defaultConfig 1).run (fun _ => SerPdev.init defaultConfig) inputs).1 ()
      let x := s.cmdCancelHandlerLog ⟨true, none, none, .nonscan, false⟩ true true fun _ => true
      s.ReachedAll x.2.1 x.2.2 ⟨true, none, none, .nonscan, false⟩ true true := by
  intro hall
  have hreached := (hall
    [((), .request { cmdType := .vdevStartBss, cmdId := 1, cmdCb := true, vdev := some 0 } true),
      ((), .request { cmdType := .vdevStartBss, cmdId := 2, cmdCb := true, vdev := some 1 } true),
      ((), .request { cmdType := .vdevStartBss, cmdId := 3, cmdCb := true, vdev := some 2 } true),
      ((), .nonScanActivated 1 true fun _ => true)]).activating 2 (by decide +kernel)
        (by decide +kernel) (by decide +kernel)
  exact absurd hreached.2 (by decide +kernel)

end KernelModules.WlanSer
