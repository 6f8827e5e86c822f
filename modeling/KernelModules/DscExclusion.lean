import KernelModules.DscHandover

/-!
# At most one transition along a branch

A direct start passes `can_trans`, which sees every relative of the node inactive. A handover
passes `can_trigger` or hands over inside the branch the stopped transition held alone. Either
way no node becomes active beside an active ancestor or descendant, and no transition is started
over another one of the same node.
-/

namespace KernelModules.Dsc

variable {P V : Type*} (t : Tree P V)

def Nodes.active (s : Nodes P V) (n : Node P V) : Bool := (s n).trans.active

def Nodes.queued (s : Nodes P V) (n : Node P V) : Bool := (s n).trans.queued

def Exclusive (s : Nodes P V) : Prop := ∀ m n, t.Ancestor m n → s.active m → ¬ s.active n

/-- No relative of `n`, and not `n` itself, has an active transition. -/
def Alone (s : Nodes P V) (n : Node P V) : Prop := ∀ m, t.Related n m → s.active m = false

variable {s : Nodes P V} {m n : Node P V} {p : P} {env : Env}

theorem exclusive_mono {s' : Nodes P V} (h : Exclusive t s)
    (hle : ∀ n, s'.active n → s.active n) : Exclusive t s' :=
  fun m n hmn hm hn => h m n hmn (hle m hm) (hle n hn)

theorem Tree.not_ancestor_self (n : Node P V) : ¬ t.Ancestor n n := by
  cases n <;> simp [Tree.Ancestor]

theorem Exclusive.related (h : Exclusive t s)
    (hr : t.Related m n) (hm : s.active m) (hn : s.active n) : m = n := by
  rcases hr with rfl | hmn | hnm
  · rfl
  · exact absurd hn (h m n hmn hm)
  · exact absurd hm (h n m hnm hn)

theorem psocTransActiveDownTree_eq_false :
    psocTransActiveDownTree t s p = false ↔ ∀ v, t.psoc v = p → s.active (.vdev v) = false := by
  simp only [psocTransActiveDownTree, List.any_eq_false, t.mem_vdevs, Nodes.active,
    Bool.not_eq_true]

theorem driverTransActiveDownTree_eq_false :
    driverTransActiveDownTree t s = false ↔
      (∀ p, s.active (.psoc p) = false) ∧ ∀ v, s.active (.vdev v) = false := by
  simp only [driverTransActiveDownTree, List.any_eq_false, t.mem_psocs, Bool.or_eq_true,
    not_or, Bool.not_eq_true, forall_const, psocTransActiveDownTree_eq_false]
  constructor
  · intro h
    exact ⟨fun p => (h p).1, fun v => (h (t.psoc v)).2 v rfl⟩
  · rintro ⟨hp, hv⟩ p
    exact ⟨hp p, fun v _ => hv v⟩

theorem alone_driver :
    Alone t s .driver ↔ s.active .driver = false ∧ driverTransActiveDownTree t s = false := by
  rw [driverTransActiveDownTree_eq_false]
  constructor
  · intro h
    exact ⟨h _ (t.related_driver _), fun p => h _ (t.related_driver _),
      fun v => h _ (t.related_driver _)⟩
  · rintro ⟨hd, hp, hv⟩ m _
    cases m with
    | driver => exact hd
    | psoc p => exact hp p
    | vdev v => exact hv v

theorem alone_psoc :
    Alone t s (.psoc p) ↔ s.active .driver = false ∧ s.active (.psoc p) = false ∧
      psocTransActiveDownTree t s p = false := by
  rw [psocTransActiveDownTree_eq_false]
  constructor
  · intro h
    refine ⟨h _ (by simp [Tree.Related, Tree.Ancestor]), h _ (Or.inl rfl), fun v hv => h _ ?_⟩
    simp [Tree.Related, Tree.Ancestor, hv]
  · rintro ⟨hd, hp, hv⟩ m hm
    cases m with
    | driver => exact hd
    | psoc q =>
      obtain rfl : p = q := by simpa [Tree.Related, Tree.Ancestor] using hm
      exact hp
    | vdev v => exact hv v (by simpa [Tree.Related, Tree.Ancestor] using hm)

theorem alone_vdev {v : V} :
    Alone t s (.vdev v) ↔ s.active .driver = false ∧ s.active (.psoc (t.psoc v)) = false ∧
      s.active (.vdev v) = false := by
  constructor
  · intro h
    exact ⟨h _ (by simp [Tree.Related, Tree.Ancestor]), h _ (by simp [Tree.Related, Tree.Ancestor]),
      h _ (Or.inl rfl)⟩
  · rintro ⟨hd, hp, hv⟩ m hm
    cases m with
    | driver => exact hd
    | psoc q =>
      obtain rfl : t.psoc v = q := by simpa [Tree.Related, Tree.Ancestor] using hm
      exact hp
    | vdev u =>
      obtain rfl : v = u := by simpa [Tree.Related, Tree.Ancestor] using hm
      exact hv

theorem Trans.activeOrQueued_eq_false {trans : Trans} :
    trans.activeOrQueued = false ↔ trans.active = false ∧ trans.queued = false := by
  simp [Trans.activeOrQueued]

theorem driverCanTrans_iff :
    driverCanTrans t s = true ↔ s.queued .driver = false ∧ Alone t s .driver := by
  simp only [driverCanTrans, Bool.and_eq_true, Bool.not_eq_true', Trans.activeOrQueued_eq_false,
    alone_driver, Nodes.active, Nodes.queued]
  tauto

theorem driverCanTrigger_iff : driverCanTrigger t s = true ↔ Alone t s .driver := by
  simp only [driverCanTrigger, Bool.and_eq_true, Bool.not_eq_true', alone_driver, Nodes.active]

theorem psocCanTrigger_iff :
    psocCanTrigger t s p = true ↔ s.queued .driver = false ∧ Alone t s (.psoc p) := by
  simp only [psocCanTrigger, Bool.and_eq_true, Bool.not_eq_true', Trans.activeOrQueued_eq_false,
    alone_psoc, Nodes.active, Nodes.queued]
  tauto

theorem psocCanTrans_iff :
    psocCanTrans t s p = .success ↔
      s.queued .driver = false ∧ s.queued (.psoc p) = false ∧ Alone t s (.psoc p) := by
  unfold psocCanTrans
  rw [alone_psoc]
  split_ifs with hd hp
  · simp only [false_iff]
    simp only [Trans.activeOrQueued, Bool.or_eq_true] at hd
    rintro ⟨hqd, -, had, -⟩
    rcases hd with h | h <;> simp_all [Nodes.active, Nodes.queued]
  · simp only [false_iff]
    simp only [Trans.activeOrQueued, Bool.or_eq_true] at hp
    rintro ⟨-, hqp, -, hap, hdown⟩
    rcases hp with (h | h) | h <;> simp_all [Nodes.active, Nodes.queued]
  · simp only [Bool.or_eq_true, not_or, Bool.not_eq_true, Trans.activeOrQueued_eq_false] at hd hp
    simp only [true_iff, Nodes.active, Nodes.queued]
    exact ⟨hd.2, hp.1.2, hd.1, hp.1.1, hp.2⟩

theorem vdevCanTrans_success {v : V}
    (h : vdevCanTrans t env s v = .success) :
    s.queued .driver = false ∧ s.queued (.psoc (t.psoc v)) = false ∧ s.queued (.vdev v) = false ∧
      Alone t s (.vdev v) := by
  unfold vdevCanTrans at h
  rw [alone_vdev]
  split_ifs at h with hd hr hp hu hv
  simp only [Bool.not_eq_true, Trans.activeOrQueued_eq_false] at hd hp hv
  exact ⟨hd.2, hp.2, hv.2, hd.1, hp.1, hv.1⟩

theorem canTrans_success
    (h : canTrans t env s n = .success) : s.queued n = false ∧ Alone t s n := by
  cases n with
  | driver =>
    simp only [canTrans, ite_eq_left_iff, reduceCtorEq, imp_false, not_not] at h
    exact (driverCanTrans_iff t).mp h
  | psoc p => exact ((psocCanTrans_iff t).mp h).2
  | vdev v => exact (vdevCanTrans_success t h).2.2

variable [DecidableEq P] [DecidableEq V]

theorem exclusive_update (h : Exclusive t s) (ha : Alone t s n)
    (c : Ctx) : Exclusive t (Function.update s n c) := by
  intro m k hmk hm hk
  by_cases hmn : m = n
  · subst hmn
    have hkm : k ≠ m := by rintro rfl; exact t.not_ancestor_self k hmk
    have := ha k (Or.inr (Or.inl hmk))
    simp_all [Nodes.active]
  · by_cases hkn : k = n
    · subst hkn
      have := ha m (Or.inr (Or.inr hmk))
      simp_all [Nodes.active]
    · simp only [Nodes.active, Function.update_of_ne hmn, Function.update_of_ne hkn] at hm hk
      exact h m k hmk hm hk

theorem cleared_active (s : Nodes P V) (n m : Node P V) :
    (cleared s n).active m = if m = n then false else s.active m := by
  by_cases h : m = n
  · subst h; simp [cleared, Nodes.setTrans, Nodes.active, Trans.stop, Trans.active]
  · simp [cleared, Nodes.setTrans, Nodes.active, h]

theorem cleared_queue (s : Nodes P V) (n m : Node P V) :
    (cleared s n m).trans.queue = (s m).trans.queue := by
  by_cases h : m = n
  · subst h; simp [cleared, Nodes.setTrans, Trans.stop]
  · simp [cleared, Nodes.setTrans, h]

theorem cleared_alone (h : Exclusive t s) (hn : s.active n) : Alone t (cleared s n) n := by
  intro m hm
  rw [cleared_active]
  split_ifs with hmn
  · rfl
  · by_contra hm'
    exact hmn (h.related t hm hn (by simpa using hm')).symm

theorem grants_alone (hn : Alone t s n) (hg : grants t s n m) : Alone t s m := by
  cases n with
  | driver => exact fun k _ => hn k (t.related_driver k)
  | psoc p =>
    cases m with
    | driver =>
      simp only [grants, Bool.and_eq_true] at hg
      exact (driverCanTrigger_iff t).mp hg.2
    | psoc q =>
      obtain rfl : q = p := by
        simp only [grants, Bool.and_eq_true, decide_eq_true_eq] at hg
        exact hg.1.1
      exact hn
    | vdev v =>
      obtain rfl : t.psoc v = p := by
        simp only [grants, Bool.and_eq_true, decide_eq_true_eq] at hg; exact hg.1.1.1
      obtain ⟨hd, hp, hv⟩ := (alone_psoc t).mp hn
      exact (alone_vdev t).mpr ⟨hd, hp, (psocTransActiveDownTree_eq_false t).mp hv v rfl⟩
  | vdev v =>
    cases m with
    | driver =>
      simp only [grants, Bool.and_eq_true] at hg
      exact (driverCanTrigger_iff t).mp hg.2
    | psoc q =>
      simp only [grants, Bool.and_eq_true] at hg
      exact ((psocCanTrigger_iff t).mp hg.2).2
    | vdev u =>
      obtain rfl : u = v := by
        simp only [grants, Bool.and_eq_true, decide_eq_true_eq] at hg; exact hg.1.1.1
      exact hn

theorem grants_apart {k : Node P V} (hm : grants t s n m)
    (hk : grants t s n k) : ¬ t.Ancestor m k := by
  cases n <;> cases m <;> cases k <;>
    simp only [Tree.Ancestor, not_false_eq_true, not_true_eq_false] <;>
    simp only [grants, Bool.and_eq_true, Bool.not_eq_true', decide_eq_true_eq] at hm hk
  all_goals grind

theorem transStop_active (s : Nodes P V) (n m : Node P V) :
    (transStop t s n).1.active m = (grants t (cleared s n) n m || (cleared s n).active m) := by
  unfold Nodes.active
  rw [transStop_nodes]
  split_ifs with hg
  · rw [hg, Bool.true_or]
    exact Ctx.grant_active (grants_queued t hg)
  · simp [hg]

theorem exclusive_transStop (h : Exclusive t s) (hn : s.active n) :
    Exclusive t (transStop t s n).1 := by
  have halone := cleared_alone t h hn
  have hcleared : Exclusive t (cleared s n) := by
    apply exclusive_mono t h
    intro m hm
    rw [cleared_active] at hm
    split_ifs at hm
    exact hm
  intro m k hmk hm hk
  simp only [transStop_active, Bool.or_eq_true] at hm hk
  rcases hm with hm | hm
  · rcases hk with hk | hk
    · exact grants_apart t hm hk hmk
    · simp [grants_alone t halone hm k (Or.inr (Or.inl hmk))] at hk
  · rcases hk with hk | hk
    · simp [grants_alone t halone hk m (Or.inr (Or.inr hmk))] at hm
    · exact hcleared m k hmk hm hk

@[simp] theorem setOps_trans (s : Nodes P V) (n : Node P V) (ops : Ops) (m : Node P V) :
    (s.setOps n ops m).trans = (s m).trans := by
  by_cases h : m = n
  · subst h; simp [Nodes.setOps]
  · simp [Nodes.setOps, h]

theorem opStart_trans (env : Env) (tracked : Bool) (s : Nodes P V) (n m : Node P V) :
    ((opStart t env tracked s n).1 m).trans = (s m).trans := by
  unfold opStart
  split
  · split <;> simp
  · rfl

theorem waitStep_trans (s : Nodes P V) (w : Waiting P V) (m : Node P V) :
    ((waitStep s w).1 m).trans = (s m).trans := by
  unfold waitStep
  repeat' split
  all_goals simp

omit [DecidableEq P] [DecidableEq V] in
theorem exclusive_of_trans {s s' : Nodes P V} (h : Exclusive t s)
    (he : ∀ m, (s' m).trans = (s m).trans) : Exclusive t s' := by
  apply exclusive_mono t h
  intro m hm
  rwa [Nodes.active, he] at hm

theorem exclusive_transStart (h : Exclusive t s) (n : Node P V)
    (tran : Tran) : Exclusive t (transStart t env s n tran).1 := by
  unfold transStart
  split
  · rename_i hc
    exact exclusive_update t h (canTrans_success t hc).2 _
  · exact h

theorem enqueue_active (s : Nodes P V) (n : Node P V) (tran : Tran) (m : Node P V) :
    (s.setTrans n ((s n).trans.enqueue tran)).active m = s.active m := by
  by_cases hm : m = n
  · subst hm; simp [Nodes.active, Nodes.setTrans, Trans.enqueue, Trans.active]
  · simp [Nodes.active, Nodes.setTrans, hm]

theorem exclusive_transStartWait (h : Exclusive t s) (n : Node P V)
    (tran : Tran) : Exclusive t (transStartWait t env s n tran).1 := by
  unfold transStartWait
  split
  · rename_i hc
    exact exclusive_update t h (canTrans_success t hc).2 _
  · split
    · exact exclusive_mono t h (fun m hm => by rwa [enqueue_active] at hm)
    · exact h

theorem exclusive_step (s : State P V) (i : Input P V) (h : Exclusive t s.nodes)
    (ha : Asserted s i) : Exclusive t ((machine t).step s i).1.nodes := by
  cases i with
  | transStart n tran env => exact exclusive_transStart t h n tran
  | transStartWait n tran env => exact exclusive_transStartWait t h n tran
  | transStop n => exact exclusive_transStop t h ha
  | opStart n env tracked => exact exclusive_of_trans t h (opStart_trans t env tracked s.nodes n)
  | opStop n => exact exclusive_of_trans t h (fun m => setOps_trans ..)
  | waitForOps n thread => exact h
  | wake thread => exact exclusive_of_trans t h (waitStep_trans s.nodes _)

omit [DecidableEq P] [DecidableEq V] in
theorem exclusive_initial : Exclusive t (initial : State P V).nodes := by
  intro m n _ hm
  simp [initial, Nodes.active, Trans.active] at hm

def Outcome.begins : Outcome → Bool
  | .started _ => true
  | .granted _ => true
  | _ => false

/-- How often a transition of `n` became active. -/
def begun (n : Node P V) (events : List (Event P V)) : ℕ :=
  (outcomesAt n events).countP Outcome.begins

/-- How often a transition of `n` was stopped. -/
def stopped (n : Node P V) (inputs : List (Input P V)) : ℕ :=
  inputs.countP fun i => match i with | .transStop m => decide (m = n) | _ => false

theorem begun_append (n : Node P V) (es fs : List (Event P V)) :
    begun n (es ++ fs) = begun n es + begun n fs := by
  simp [begun]

theorem begun_singleton (n m : Node P V) (o : Outcome) :
    begun n [(m, o)] = if n = m then o.begins.toNat else 0 := by
  unfold begun
  rw [outcomesAt_singleton]
  split_ifs <;> cases h : o.begins <;> simp [h]

theorem begun_of_handed (c : Ctx) (h : c.trans.queued) : c.handed.countP Outcome.begins = 1 := by
  unfold Ctx.handed
  split
  · simp_all [Trans.queued]
  · simp [Outcome.begins]

theorem start_active (s : Nodes P V) (n : Node P V) (desc : String) (m : Node P V) :
    (s.setTrans n ((s n).trans.start desc)).active m = (decide (m = n) || s.active m) := by
  by_cases h : m = n
  · subst h; simp [Nodes.active, Nodes.setTrans, Trans.start, Trans.active]
  · simp [Nodes.active, Nodes.setTrans, h]

/-- In each step a node begins as many transitions as it needs to account for the stop of one
and for being active afterwards. -/
theorem begun_step (s : State P V) (i : Input P V) (h : Exclusive t s.nodes) (ha : Asserted s i)
    (m : Node P V) :
    begun m ((machine t).step s i).2 + (s.nodes.active m).toNat =
      stopped m [i] + (((machine t).step s i).1.nodes.active m).toNat := by
  have hdirect : ∀ (env : Env) (n : Node P V) (tran : Tran),
      canTrans t env s.nodes n = .success →
      begun m [(n, Outcome.started tran)] + (s.nodes.active m).toNat =
        0 + ((s.nodes.setTrans n ((s.nodes n).trans.start tran.desc)).active m).toNat := by
    intro env n tran hc
    rw [start_active, begun_singleton]
    by_cases hm : m = n
    · subst hm
      simp [(canTrans_success t hc).2 m (Or.inl rfl), Outcome.begins]
    · simp [hm]
  have hquiet : ∀ (n : Node P V) (o : Outcome), o.begins = false → begun m [(n, o)] = 0 := by
    intro n o ho
    rw [begun_singleton, ho]
    split_ifs <;> rfl
  cases i with
  | transStart n tran env =>
    simp only [machine, State.setNodes, transStart, stopped, List.countP_singleton]
    split
    · rename_i hc
      exact hdirect env n tran hc
    · rw [hquiet n _ rfl]; rfl
  | transStartWait n tran env =>
    simp only [machine, State.setNodes, transStartWait, stopped, List.countP_singleton]
    split
    · rename_i hc
      exact hdirect env n tran hc
    · split
      · rw [hquiet n _ rfl, enqueue_active]; rfl
      · rw [hquiet n _ rfl]; rfl
  | transStop n =>
    simp only [machine, State.setNodes, begun, transStop_outcomes, transStop_active, stopped,
      List.countP_singleton, cleared_active, decide_eq_true_eq]
    have hn : s.nodes.active n := ha
    by_cases hg : grants t (cleared s.nodes n) n m
    · have hinactive := grants_alone t (cleared_alone t h hn) hg m (Or.inl rfl)
      rw [cleared_active] at hinactive
      have hq := begun_of_handed _ (grants_queued t hg)
      by_cases hmn : m = n
      · subst hmn; simp [hg, hq, hn]
      · simp only [if_neg hmn] at hinactive
        simp [hg, hq, hinactive, Ne.symm hmn]
    · by_cases hmn : m = n
      · subst hmn; simp [hg, hn]
      · simp [hg, hmn, Ne.symm hmn]
  | opStart n env tracked =>
    have hev : begun m (opStart t env tracked s.nodes n).2 = 0 := by
      unfold opStart
      split
      · split <;> exact hquiet n _ rfl
      · exact hquiet n _ rfl
    simp only [machine, State.setNodes, hev, stopped, Nodes.active, opStart_trans]
    rfl
  | opStop n =>
    simp only [machine, State.setNodes, stopped, Nodes.active, opStop, setOps_trans]
    rfl
  | waitForOps n thread => rfl
  | wake thread =>
    simp only [machine, stopped, Nodes.active, waitStep_trans]
    rfl

/-- In every reachable state each node has at most one active transition, the one its `active`
flag shows, and no node has one while an ancestor or a descendant does. -/
theorem transitions_mutually_exclusive (inputs : List (Input P V))
    (h : (machine t).Meets Asserted initial inputs) :
    (∀ n, begun n ((machine t).run initial inputs).2 =
      stopped n inputs + (((machine t).run initial inputs).1.nodes.active n).toNat) ∧
    ∀ m n, t.Ancestor m n → ¬ (((machine t).run initial inputs).1.nodes.active m ∧
      ((machine t).run initial inputs).1.nodes.active n) := by
  have hinv := (machine t).history_of_meets (C := Asserted) (s := initial)
    (I := fun is es s => Exclusive t s.nodes ∧
      ∀ n, begun n es = stopped n is + (s.nodes.active n).toNat)
    (by
      rintro is es s i ⟨hx, hcount⟩ ha
      refine ⟨exclusive_step t s i hx ha, fun n => ?_⟩
      have hstep := begun_step t s i hx ha n
      have hstopped : stopped n (is ++ [i]) = stopped n is + stopped n [i] := by simp [stopped]
      rw [begun_append, hcount n, hstopped]
      omega)
    ⟨exclusive_initial t, fun n => by simp [begun, stopped, initial, Nodes.active, Trans.active]⟩ h
  exact ⟨hinv.2, fun m n hmn hb => hinv.1 m n hmn hb.1 hb.2⟩

def twoVdevs : Tree Unit Bool where
  psocs := [()]
  vdevs _ := [false, true]
  psoc _ := ()
  nodup_psocs := by decide
  nodup_vdevs _ := by decide
  mem_psocs := by simp
  mem_vdevs := by simp

def handoverToVdevs : List (Input Unit Bool) :=
  [.transStart (.psoc ()) ⟨0, "idle shutdown"⟩ {},
    .transStartWait (.vdev false) ⟨1, "up"⟩ {}, .transStartWait (.vdev true) ⟨2, "down"⟩ {},
    .transStop (.psoc ())]

theorem handoverToVdevs_exclusive :
    begun (.vdev true) ((machine twoVdevs).run initial handoverToVdevs).2 = 1 ∧
    ∀ m n, twoVdevs.Ancestor m n →
      ¬ (((machine twoVdevs).run initial handoverToVdevs).1.nodes.active m ∧
        ((machine twoVdevs).run initial handoverToVdevs).1.nodes.active n) :=
  have h := transitions_mutually_exclusive twoVdevs handoverToVdevs (by decide)
  ⟨(h.1 (.vdev true)).trans (by decide), h.2⟩

end KernelModules.Dsc
