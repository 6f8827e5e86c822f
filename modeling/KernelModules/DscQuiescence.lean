import KernelModules.DscExclusion

/-!
# Operations die out under a transition

While a node has an active transition, `can_op` refuses new operations on the node and below it,
so their counters only fall. A thread that went through `wait_for_ops` saw each of them at zero
at some moment, and from then on they stay there until the transition stops.
-/

namespace KernelModules.Dsc

variable {P V : Type*} (t : Tree P V)

/-- `m` is `n` or below it. -/
def Tree.Under (m n : Node P V) : Prop := m = n ∨ t.Ancestor n m

variable {m n : Node P V} {i : Input P V} {is : List (Input P V)}

theorem mem_waitForOps : m ∈ waitForOps t n ↔ t.Under m n := by
  cases n <;> cases m <;>
    simp [waitForOps, Tree.Under, Tree.Ancestor, t.mem_psocs, t.mem_vdevs]

theorem canTrans_under_active {env : Env} {s : Nodes P V} (hn : s.active n)
    (hm : t.Under m n) : canTrans t env s m ≠ .success := by
  intro h
  have halone := (canTrans_success t h).2 n
  rcases hm with rfl | hm
  · rw [halone (Or.inl rfl)] at hn
    exact absurd hn (by decide)
  · rw [halone (Or.inr (Or.inr hm))] at hn
    exact absurd hn (by decide)

variable [DecidableEq P] [DecidableEq V]

@[simp] theorem setTrans_ops (s : Nodes P V) (n : Node P V) (trans : Trans) (m : Node P V) :
    (s.setTrans n trans m).ops = (s m).ops := by
  by_cases h : m = n
  · subst h; simp [Nodes.setTrans]
  · simp [Nodes.setTrans, h]

theorem setOps_ops (s : Nodes P V) (n : Node P V) (ops : Ops) (m : Node P V) :
    (s.setOps n ops m).ops = if m = n then ops else (s m).ops := by
  unfold Nodes.setOps
  by_cases h : m = n
  · subst h; simp
  · simp [h]

theorem transStart_ops (env : Env) (s : Nodes P V) (n : Node P V) (tran : Tran) (m : Node P V) :
    ((transStart t env s n tran).1 m).ops = (s m).ops := by
  unfold transStart
  split <;> simp

theorem transStartWait_ops (env : Env) (s : Nodes P V) (n : Node P V) (tran : Tran)
    (m : Node P V) : ((transStartWait t env s n tran).1 m).ops = (s m).ops := by
  unfold transStartWait
  split
  · simp
  · split <;> simp

theorem transStop_ops (s : Nodes P V) (n m : Node P V) :
    ((transStop t s n).1 m).ops = (s m).ops := by
  rw [transStop_nodes]
  split <;> simp [cleared]

theorem opStart_under_active (env : Env) (tracked : Bool) {s : Nodes P V}
    (hn : s.active n) (hm : t.Under m n) :
    ∃ status, status ≠ .success ∧ opStart t env tracked s m = (s, [(m, .rejected status)]) := by
  refine ⟨canTrans t env s m, canTrans_under_active t hn hm, ?_⟩
  unfold opStart
  split
  · rename_i hc
    exact absurd hc (canTrans_under_active t hn hm)
  · rfl

variable {s : State P V}

theorem active_step (hn : s.nodes.active n)
    (hi : i ≠ .transStop n) : ((machine t).step s i).1.nodes.active n := by
  cases i with
  | transStart k tran env =>
    simp only [machine, State.setNodes, transStart]
    split
    · rw [start_active, hn, Bool.or_true]
    · exact hn
  | transStartWait k tran env =>
    simp only [machine, State.setNodes, transStartWait]
    split
    · rw [start_active, hn, Bool.or_true]
    · split
      · rwa [enqueue_active]
      · exact hn
  | transStop k =>
    have hk : n ≠ k := by rintro rfl; exact hi rfl
    simp only [machine, State.setNodes]
    rw [transStop_active, cleared_active, if_neg hk, hn, Bool.or_true]
  | opStart k env tracked =>
    simp only [machine, State.setNodes, Nodes.active, opStart_trans]
    exact hn
  | opStop k =>
    simp only [machine, State.setNodes, Nodes.active, opStop, setOps_trans]
    exact hn
  | waitForOps k thread => exact hn
  | wake thread =>
    simp only [machine, Nodes.active, waitStep_trans]
    exact hn

theorem waitStep_count (s : Nodes P V) (w : Waiting P V) (m : Node P V) :
    ((waitStep s w).1 m).ops.count = (s m).ops.count := by
  unfold waitStep
  repeat' split
  all_goals simp only [setOps_ops]
  all_goals split_ifs with h <;> simp [h]

theorem opStop_count_le {s : Nodes P V} (hn : (s n).ops.count ≠ 0)
    (m : Node P V) : ((opStop s n) m).ops.count ≤ (s m).ops.count := by
  rw [opStop, setOps_ops]
  by_cases h : m = n
  · rw [if_pos h, h]
    dsimp only
    omega
  · simp [h]

theorem count_step (hn : s.nodes.active n)
    (hm : t.Under m n) (ha : Asserted s i) :
    (((machine t).step s i).1.nodes m).ops.count ≤ (s.nodes m).ops.count := by
  cases i with
  | transStart k tran env => simp [machine, State.setNodes, transStart_ops]
  | transStartWait k tran env => simp [machine, State.setNodes, transStartWait_ops]
  | transStop k => simp [machine, State.setNodes, transStop_ops]
  | opStart k env tracked =>
    simp only [machine, State.setNodes]
    by_cases hkm : m = k
    · subst hkm
      obtain ⟨status, -, h⟩ := opStart_under_active t env tracked hn hm
      simp only [h, Nat.le_refl]
    · unfold opStart
      split
      · split <;> simp [setOps_ops, hkm]
      · exact Nat.le_refl _
  | opStop k => exact opStop_count_le ha m
  | waitForOps k thread => exact Nat.le_refl _
  | wake thread => simp [machine, waitStep_count]

/-- A run that keeps the assertions and does not stop the transition of `n`. -/
abbrev Holding (n : Node P V) (s : State P V) (i : Input P V) : Prop :=
  Asserted s i ∧ i ≠ .transStop n

theorem holding_run
    (hn : s.nodes.active n) (hm : (machine t).Meets (Holding n) s is) :
    ((machine t).run s is).1.nodes.active n :=
  (machine t).invariant_of_meets (I := fun s => s.nodes.active n)
    (fun _ _ hs hi => active_step t hs hi.2) hn hm

theorem count_run (hm : t.Under m n)
    (hn : s.nodes.active n) (hh : (machine t).Meets (Holding n) s is) :
    (((machine t).run s is).1.nodes m).ops.count ≤ (s.nodes m).ops.count :=
  ((machine t).invariant_of_meets
    (I := fun s' => s'.nodes.active n ∧ (s'.nodes m).ops.count ≤ (s.nodes m).ops.count)
    (fun _ _ hs hi => ⟨active_step t hs.1 hi.2, Nat.le_trans (count_step t hs.1 hm hi.1) hs.2⟩)
    ⟨hn, Nat.le_refl _⟩ hh).2

/-- While thread `τ` is inside `wait_for_ops` on `n`: the nodes it is through with are idle, and
a completion of the event it sleeps on means that this node is idle too. -/
structure Watching (n : Node P V) (τ : ℕ) (s : State P V) : Prop where
  active : s.nodes.active n
  idle : ∀ m, t.Under m n → m ∉ (s.waits τ).todo → (s.nodes m).ops.count = 0
  under : ∀ m ∈ (s.waits τ).todo, t.Under m n
  done : (s.waits τ).blocked = true → ∀ m, (s.waits τ).todo.head? = some m →
    0 < (s.nodes m).ops.done → (s.nodes m).ops.count = 0

omit [DecidableEq P] [DecidableEq V] in
/-- Steps of the others: the thread's own record stays, counters below `n` do not rise, and a new
completion comes with a counter at zero. -/
theorem Watching.of_others {n : Node P V} {τ : ℕ} {s s' : State P V} (h : Watching t n τ s)
    (hactive : s'.nodes.active n) (hwaits : s'.waits τ = s.waits τ)
    (hcount : ∀ m, t.Under m n → (s'.nodes m).ops.count ≤ (s.nodes m).ops.count)
    (hdone : ∀ m, t.Under m n → 0 < (s'.nodes m).ops.done →
      0 < (s.nodes m).ops.done ∨ (s'.nodes m).ops.count = 0) : Watching t n τ s' where
  active := hactive
  idle m hm hmem := by
    rw [hwaits] at hmem
    have := hcount m hm
    have := h.idle m hm hmem
    omega
  under m hm := h.under m (hwaits ▸ hm)
  done hb m hhead hd := by
    rw [hwaits] at hb hhead
    have hm : t.Under m n := h.under m (List.mem_of_head? hhead)
    rcases hdone m hm hd with hold | hzero
    · have := hcount m hm
      have := h.done hb m hhead hold
      omega
    · exact hzero

theorem waitStep_done {s : Nodes P V} {w : Waiting P V}
    (h : 0 < ((waitStep s w).1 m).ops.done) : 0 < (s m).ops.done := by
  unfold waitStep at h
  split at h
  · exact h
  · split at h
    · split at h
      · simp only [setOps_ops] at h
        split_ifs at h with hm
        · subst hm; omega
        · exact h
      · exact h
    · split at h
      · simp only [setOps_ops] at h
        split_ifs at h with hm
        · simp at h
        · exact h
      · exact h

theorem Watching.wake {τ : ℕ} (h : Watching t n τ s) :
    Watching t n τ ((machine t).step s (.wake τ)).1 := by
  have hactive : ((machine t).step s (.wake τ)).1.nodes.active n :=
    active_step t h.active (by rintro ⟨⟩)
  have hcount : ∀ m, (((machine t).step s (.wake τ)).1.nodes m).ops.count =
      (s.nodes m).ops.count := fun m => waitStep_count ..
  have hwaits : ((machine t).step s (.wake τ)).1.waits τ = (waitStep s.nodes (s.waits τ)).2 := by
    simp [machine]
  cases htodo : (s.waits τ).todo with
  | nil =>
    apply h.of_others t hactive
    · rw [hwaits, waitStep, htodo]
    · exact fun m _ => Nat.le_of_eq (hcount m)
    · exact fun m _ hd => Or.inl (waitStep_done hd)
  | cons k rest =>
    -- leaving the node `k` for the rest is sound once `k` is known to be idle
    have hleave : (s.nodes k).ops.count = 0 → (waitStep s.nodes (s.waits τ)).2 = { todo := rest } →
        Watching t n τ ((machine t).step s (.wake τ)).1 := by
      intro hk hrest
      refine ⟨hactive, fun m hm hmem => ?_, fun m hm => ?_, fun hb => ?_⟩
      · rw [hwaits, hrest] at hmem
        rw [hcount]
        by_cases hmk : m = k
        · rw [hmk, hk]
        · exact h.idle m hm (by rw [htodo, List.mem_cons]; tauto)
      · rw [hwaits, hrest] at hm
        exact h.under m (by rw [htodo]; exact List.mem_cons_of_mem _ hm)
      · rw [hwaits, hrest] at hb
        exact absurd hb Bool.false_ne_true
    by_cases hb : (s.waits τ).blocked
    · by_cases hd : 0 < (s.nodes k).ops.done
      · apply hleave (h.done hb k (by rw [htodo]; rfl) hd)
        simp only [waitStep, htodo, hb, if_pos hd, if_true]
      · apply h.of_others t hactive
        · rw [hwaits]
          simp only [waitStep, htodo, hb, if_neg hd, if_true]
        · exact fun m _ => Nat.le_of_eq (hcount m)
        · exact fun m _ hd => Or.inl (waitStep_done hd)
    · by_cases hk : 0 < (s.nodes k).ops.count
      · have hstep : (waitStep s.nodes (s.waits τ)) =
            (s.nodes.setOps k { (s.nodes k).ops with done := 0 },
              { s.waits τ with blocked := true }) := by
          simp only [waitStep, htodo, hb, if_pos hk, Bool.false_eq_true, if_false]
        have hrecord : ((machine t).step s (.wake τ)).1.waits τ =
            { s.waits τ with blocked := true } := by rw [hwaits, hstep]
        refine ⟨hactive, fun m hm hmem => ?_, fun m hm => ?_, fun _ m hhead hd => ?_⟩
        · rw [hrecord] at hmem
          rw [hcount]
          exact h.idle m hm hmem
        · rw [hrecord] at hm
          exact h.under m hm
        · rw [hrecord] at hhead
          obtain rfl : k = m := by simpa [htodo] using hhead
          have hzero : (((machine t).step s (.wake τ)).1.nodes k).ops.done = 0 := by
            change ((waitStep s.nodes (s.waits τ)).1 k).ops.done = 0
            rw [hstep, setOps_ops, if_pos rfl]
          omega
      · apply hleave (by omega)
        simp only [waitStep, htodo, hb, if_neg hk, Bool.false_eq_true, if_false]

theorem watching_step {τ : ℕ}
    (h : Watching t n τ s) (hi : Holding n s i) (hτ : ∀ k, i ≠ .waitForOps k τ) :
    Watching t n τ ((machine t).step s i).1 := by
  have hactive := active_step t h.active hi.2
  have hcount := fun m hm => count_step t (m := m) h.active hm hi.1
  cases i with
  | transStart k tran env =>
    exact h.of_others t hactive rfl hcount
      (fun m _ hd => Or.inl (by rwa [← transStart_ops t env s.nodes k tran m]))
  | transStartWait k tran env =>
    exact h.of_others t hactive rfl hcount
      (fun m _ hd => Or.inl (by rwa [← transStartWait_ops t env s.nodes k tran m]))
  | transStop k =>
    exact h.of_others t hactive rfl hcount
      (fun m _ hd => Or.inl (by rwa [← transStop_ops t s.nodes k m]))
  | opStart k env tracked =>
    apply h.of_others t hactive rfl hcount
    intro m hm hd
    left
    simp only [machine, State.setNodes] at hd
    by_cases hmk : m = k
    · subst hmk
      obtain ⟨status, -, hs⟩ :=
        opStart_under_active t env tracked h.active hm
      rwa [hs] at hd
    · unfold opStart at hd
      split at hd
      · split at hd
        · simpa [setOps_ops, hmk] using hd
        · exact hd
      · exact hd
  | opStop k =>
    apply h.of_others t hactive rfl hcount
    intro m _ hd
    simp only [machine, State.setNodes, opStop, setOps_ops] at hd ⊢
    by_cases hmk : m = k
    · simp only [if_pos hmk] at hd ⊢
      split_ifs at hd with hz
      · exact Or.inr hz
      · left; rw [hmk]; omega
    · simp only [if_neg hmk] at hd ⊢
      exact Or.inl hd
  | waitForOps k thread =>
    have hne : τ ≠ thread := by rintro rfl; exact hτ k rfl
    exact h.of_others t hactive (by simp [machine, hne]) hcount (fun m _ hd => Or.inl hd)
  | wake thread =>
    by_cases hne : τ = thread
    · subst hne; exact h.wake t
    · exact h.of_others t hactive (by simp [machine, hne]) hcount
        (fun m _ hd => Or.inl (waitStep_done hd))

/-- Thread `τ` makes no second call of `wait_for_ops` meanwhile. -/
abbrev Attending (n : Node P V) (τ : ℕ) (s : State P V) (i : Input P V) : Prop :=
  Holding n s i ∧ ∀ k, i ≠ .waitForOps k τ

theorem idle_of_waited {τ : ℕ}
    (hn : s.nodes.active n)
    (hm : (machine t).Meets (Attending n τ) ((machine t).step s (.waitForOps n τ)).1 is)
    (hret : (((machine t).run s (.waitForOps n τ :: is)).1.waits τ).todo = []) :
    ((machine t).run s (.waitForOps n τ :: is)).1.nodes.active n ∧
      ∀ m, t.Under m n →
        (((machine t).run s (.waitForOps n τ :: is)).1.nodes m).ops.count = 0 := by
  have hstart : Watching t n τ ((machine t).step s (.waitForOps n τ)).1 := by
    refine ⟨hn, fun m hm hmem => ?_, fun m hm => ?_, fun hb => ?_⟩
    · exact absurd ((mem_waitForOps t).mpr hm) (by simpa [machine] using hmem)
    · exact (mem_waitForOps t).mp (by simpa [machine] using hm)
    · simp [machine] at hb
  have h := (machine t).invariant_of_meets (I := Watching t n τ)
    (fun _ _ hw hi => watching_step t hw hi.1 hi.2) hstart hm
  exact ⟨h.active, fun m hm => h.idle m hm (by
    rw [Machine.run_cons] at hret
    rw [hret]
    exact List.not_mem_nil)⟩

/-- While a node's transition is active, no operation counter at the node or below it rises; once
its `wait_for_ops` has returned, they are all at zero until that transition stops, and every
`op_start` there is rejected. -/
theorem ops_quiesce (s : State P V) (n : Node P V) (hn : s.nodes.active n) :
    (∀ is, (machine t).Meets (Holding n) s is → ∀ m, t.Under m n →
      (((machine t).run s is).1.nodes m).ops.count ≤ (s.nodes m).ops.count) ∧
    ∀ τ is, (machine t).Meets (Attending n τ) ((machine t).step s (.waitForOps n τ)).1 is →
      (((machine t).run s (.waitForOps n τ :: is)).1.waits τ).todo = [] →
      ∀ js, (machine t).Meets (Holding n) ((machine t).run s (.waitForOps n τ :: is)).1 js →
        ∀ m, t.Under m n →
          let s' := ((machine t).run s (.waitForOps n τ :: is ++ js)).1
          (s'.nodes m).ops.count = 0 ∧ ∀ env tracked, ∃ status, status ≠ .success ∧
            (machine t).step s' (.opStart m env tracked) = (s', [(m, .rejected status)]) := by
  refine ⟨fun is hm m hu => count_run t hu hn hm, fun τ is hm hret js hjs m hu => ?_⟩
  obtain ⟨hactive, hidle⟩ := idle_of_waited t hn hm hret
  have hzero := count_run t hu hactive hjs
  have hactive' := holding_run t hactive hjs
  rw [Machine.run_append]
  refine ⟨by rw [hidle m hu] at hzero; exact Nat.le_zero.mp hzero, fun env tracked => ?_⟩
  obtain ⟨status, hne, hs⟩ :=
    opStart_under_active t env tracked hactive' hu
  exact ⟨status, hne, congrArg (State.setNodes _) hs⟩

def busyVdev : State Unit Bool :=
  ((machine twoVdevs).run initial
    [.opStart (.vdev false) {} true, .transStart (.psoc ()) ⟨0, "idle shutdown"⟩ {}]).1

theorem busyVdev_quiesces :
    (((machine twoVdevs).run busyVdev
      [.waitForOps (.psoc ()) 0, .wake 0, .wake 0, .opStop (.vdev false), .wake 0,
        .wake 0]).1.nodes (.vdev false)).ops.count = 0 :=
  ((ops_quiesce twoVdevs busyVdev (.psoc ()) (by decide)).2 0
    [.wake 0, .wake 0, .opStop (.vdev false), .wake 0, .wake 0]
    (by simp [Attending, Holding, Asserted]; decide) (by decide) [] trivial (.vdev false)
    (Or.inr rfl)).1

end KernelModules.Dsc
