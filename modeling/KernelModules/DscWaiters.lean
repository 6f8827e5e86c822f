import KernelModules.DscExclusion

/-!
# No waiter is forgotten

A waiter is left in its queue for a reason that a later stop removes: a relative of its node is
active, or an ancestor has a waiter of its own, which goes first. `Served` states this for every
node; a call that queues finds such a reason in `can_trans`, and a stop that passes a waiter over
leaves one behind.
-/

namespace KernelModules.Dsc

variable {P V : Type*} (t : Tree P V)

/-- What may keep a waiter of `n` in its queue. -/
def Held (s : Nodes P V) (n : Node P V) : Prop :=
  ¬ Alone t s n ∨ ∃ k, t.Ancestor k n ∧ s.queued k

def Served (s : Nodes P V) : Prop := ∀ n, s.queued n → Held t s n

variable {s : Nodes P V} {m n : Node P V}

theorem not_alone_of_active (hr : t.Related n m) (hm : s.active m) : ¬ Alone t s n := by
  intro h
  rw [h m hr] at hm
  exact absurd hm (by decide)

theorem exists_active_of_not_alone (h : ¬ Alone t s n) : ∃ m, t.Related n m ∧ s.active m := by
  simpa [Alone] using h

/-- The transitions whose stop comes to the waiters of `n`: those of its relatives, whose stop
looks at its queue, and those that hold up a waiting ancestor, whose own stop then does. -/
def Reaches (s : Nodes P V) (m n : Node P V) : Prop :=
  t.Related m n ∨ ∃ k, t.Ancestor k n ∧ s.queued k ∧ t.Related m k

theorem Tree.ancestor_trans {k : Node P V} (hkm : t.Ancestor k m) (hmn : t.Ancestor m n) :
    t.Ancestor k n := by
  cases k <;> cases m <;> cases n <;> simp_all [Tree.Ancestor]

theorem Served.exists_active (h : Served t s) (hn : s.queued n) :
    ∃ m, s.active m ∧ Reaches t s m n := by
  rcases h n hn with halone | ⟨k, hk, hqk⟩
  · obtain ⟨m, hr, hm⟩ := exists_active_of_not_alone t halone
    exact ⟨m, hm, Or.inl (t.related_comm.mp hr)⟩
  · rcases h k hqk with halone | ⟨j, hj, hqj⟩
    · obtain ⟨m, hr, hm⟩ := exists_active_of_not_alone t halone
      exact ⟨m, hm, Or.inr ⟨k, hk, hqk, t.related_comm.mp hr⟩⟩
    · have hjn := t.ancestor_trans hj hk
      -- `j` lies above another node that has an ancestor, so it is the driver
      obtain rfl : j = .driver := by
        cases j <;> cases k <;> cases n <;> simp_all [Tree.Ancestor]
      rcases h .driver hqj with halone | ⟨i, hi, -⟩
      · obtain ⟨m, -, hm⟩ := exists_active_of_not_alone t halone
        exact ⟨m, hm, Or.inr ⟨.driver, hjn, hqj, t.related_comm.mp (t.related_driver m)⟩⟩
      · cases i <;> simp [Tree.Ancestor] at hi

theorem held_of_waitsOn {env : Env}
    (hc : canTrans t env s n ≠ .success) (hw : waitsOn n (canTrans t env s n)) :
    s.queued n ∨ Held t s n := by
  cases n with
  | driver =>
    by_cases hq : s.queued .driver
    · exact Or.inl hq
    · refine Or.inr (Or.inl fun halone => hc ?_)
      have := (driverCanTrans_iff t).mpr ⟨by simpa using hq, halone⟩
      simp [canTrans, this]
  | psoc p =>
    by_cases hq : s.queued (.psoc p)
    · exact Or.inl hq
    · by_cases hqd : s.queued .driver
      · exact Or.inr (Or.inr ⟨.driver, by simp [Tree.Ancestor], hqd⟩)
      · refine Or.inr (Or.inl fun halone => hc ?_)
        exact (psocCanTrans_iff t).mpr ⟨by simpa using hqd, by simpa using hq, halone⟩
  | vdev v =>
    by_cases hq : s.queued (.vdev v)
    · exact Or.inl hq
    · right
      simp only [canTrans, vdevCanTrans] at hc hw
      split_ifs at hc hw with hd hr hp hu hv <;> try simp [waitsOn] at hw
      · simp only [Trans.activeOrQueued, Bool.or_eq_true] at hp
        rcases hp with hp | hp
        · exact Or.inl (not_alone_of_active t (m := .psoc (t.psoc v))
            (by simp [Tree.Related, Tree.Ancestor]) hp)
        · exact Or.inr ⟨.psoc (t.psoc v), rfl, hp⟩
      · simp only [Trans.activeOrQueued, Bool.or_eq_true] at hv
        rcases hv with hv | hv
        · exact Or.inl (not_alone_of_active t (m := .vdev v) (Or.inl rfl) hv)
        · exact absurd hv hq
      · exact absurd rfl hc

theorem Held.mono {s' : Nodes P V} (h : Held t s n)
    (ha : ∀ m, s.active m → s'.active m) (hq : ∀ m, s.queued m → s'.queued m ∨ s'.active m) :
    Held t s' n := by
  rcases h with halone | ⟨k, hk, hqk⟩
  · obtain ⟨m, hr, hm⟩ := exists_active_of_not_alone t halone
    exact Or.inl (not_alone_of_active t hr (ha m hm))
  · rcases hq k hqk with h | h
    · exact Or.inr ⟨k, hk, h⟩
    · exact Or.inl (not_alone_of_active t (Or.inr (Or.inr hk)) h)

/-- A stop that looks at a waiter and does not grant it leaves something that holds it up. -/
theorem held_of_not_grants (hr : t.Related n m)
    (hq : s.queued m) [DecidableEq P] [DecidableEq V] (hg : grants t s n m = false) :
    Held t s m := by
  have hdriver : ∀ k, t.Ancestor .driver k → s.queued .driver → Held t s k :=
    fun k hk hd => Or.inr ⟨.driver, hk, hd⟩
  have hmq : (s m).trans.queued = true := hq
  cases m with
  | driver =>
    cases n with
    | driver => simp [grants, hmq] at hg
    | psoc p =>
      simp only [grants, hmq, Bool.true_and] at hg
      exact Or.inl fun h => by simp [(driverCanTrigger_iff t).mpr h] at hg
    | vdev v =>
      simp only [grants, hmq, Bool.true_and] at hg
      exact Or.inl fun h => by simp [(driverCanTrigger_iff t).mpr h] at hg
  | psoc q =>
    by_cases hd : s.queued .driver
    · exact hdriver _ trivial hd
    have hd' : (s .driver).trans.queued = false := by simpa [Nodes.queued] using hd
    cases n with
    | driver => simp [grants, hmq, hd'] at hg
    | psoc p =>
      obtain rfl : p = q := by simpa [Tree.Related, Tree.Ancestor] using hr
      simp [grants, hmq, hd'] at hg
    | vdev v =>
      obtain rfl : t.psoc v = q := by simpa [Tree.Related, Tree.Ancestor] using hr
      simp only [grants, hmq, hd', decide_true, Bool.not_false, Bool.true_and] at hg
      exact Or.inl fun h => by
        simp [(psocCanTrigger_iff t).mpr ⟨by simpa using hd, h⟩] at hg
  | vdev u =>
    by_cases hd : s.queued .driver
    · exact hdriver _ trivial hd
    have hd' : (s .driver).trans.queued = false := by simpa [Nodes.queued] using hd
    by_cases hp : s.queued (.psoc (t.psoc u))
    · exact Or.inr ⟨.psoc (t.psoc u), rfl, hp⟩
    have hp' : (s (.psoc (t.psoc u))).trans.queued = false := by simpa [Nodes.queued] using hp
    cases n with
    | driver => simp [grants, hmq, hd', hp'] at hg
    | psoc p =>
      obtain rfl : t.psoc u = p := by simpa [Tree.Related, Tree.Ancestor] using hr
      simp [grants, hmq, hd', hp'] at hg
    | vdev v =>
      obtain rfl : v = u := by simpa [Tree.Related, Tree.Ancestor] using hr
      simp [grants, hmq, hd', hp'] at hg

variable [DecidableEq P] [DecidableEq V]

theorem cleared_queued (s : Nodes P V) (n m : Node P V) : (cleared s n).queued m = s.queued m := by
  unfold Nodes.queued Trans.queued
  rw [cleared_queue]

theorem transStop_queued (h : (transStop t s n).1.queued m) : s.queued m := by
  unfold Nodes.queued at h
  rw [transStop_nodes] at h
  split_ifs at h with hg
  · rw [← cleared_queued s n m]
    exact grants_queued t hg
  · rwa [← cleared_queued s n m]

theorem transStop_queued_of_not_grants
    (hg : grants t (cleared s n) n m = false) :
    (transStop t s n).1.queued m = s.queued m := by
  unfold Nodes.queued
  rw [transStop_nodes, hg]
  exact cleared_queued s n m

theorem served_transStop (h : Served t s) : Served t (transStop t s n).1 := by
  intro m hm
  have hqm := transStop_queued t hm
  by_cases hg : grants t (cleared s n) n m
  · exact Or.inl (not_alone_of_active t (Or.inl rfl) (by rw [transStop_active, hg]; rfl))
  have hg' : grants t (cleared s n) n m = false := by simpa using hg
  -- what holds the waiter up once the node is inactive still does after the handover
  have hmono : ∀ k, Held t (cleared s n) k → Held t (transStop t s n).1 k := by
    intro k hk
    apply hk.mono t
    · intro j hj
      rw [transStop_active, hj, Bool.or_true]
    · intro j hj
      by_cases hgj : grants t (cleared s n) n j
      · right; rw [transStop_active, hgj]; rfl
      · left
        rw [transStop_queued_of_not_grants t (by simpa using hgj), ← cleared_queued s n j]
        exact hj
  apply hmono
  by_cases hr : t.Related n m
  · exact held_of_not_grants t hr (by rwa [cleared_queued]) hg'
  · rcases h m hqm with halone | ⟨k, hk, hqk⟩
    · obtain ⟨j, hj, haj⟩ := exists_active_of_not_alone t halone
      have hjn : j ≠ n := by rintro rfl; exact hr (t.related_comm.mp hj)
      exact Or.inl (not_alone_of_active t hj (by rwa [cleared_active, if_neg hjn]))
    · exact Or.inr ⟨k, hk, by rwa [cleared_queued]⟩

theorem start_queued (s : Nodes P V) (n : Node P V) (desc : String) (m : Node P V) :
    (s.setTrans n ((s n).trans.start desc)).queued m = s.queued m := by
  by_cases h : m = n
  · subst h; simp [Nodes.queued, Nodes.setTrans, Trans.start, Trans.queued]
  · simp [Nodes.queued, Nodes.setTrans, h]

theorem served_start (h : Served t s) (n : Node P V) (desc : String) :
    Served t (s.setTrans n ((s n).trans.start desc)) := by
  intro m hm
  rw [start_queued] at hm
  apply (h m hm).mono t
  · intro k hk; rw [start_active, hk, Bool.or_true]
  · intro k hk; left; rwa [start_queued]

theorem enqueue_queued (s : Nodes P V) (n : Node P V) (tran : Tran) (m : Node P V) :
    (s.setTrans n ((s n).trans.enqueue tran)).queued m = (decide (m = n) || s.queued m) := by
  by_cases h : m = n
  · subst h; simp [Nodes.queued, Nodes.setTrans, Trans.enqueue, Trans.queued]
  · simp [Nodes.queued, Nodes.setTrans, h]

theorem served_enqueue (h : Served t s) (tran : Tran)
    (hn : s.queued n ∨ Held t s n) : Served t (s.setTrans n ((s n).trans.enqueue tran)) := by
  intro m hm
  have hheld : Held t s m := by
    rw [enqueue_queued, Bool.or_eq_true, decide_eq_true_eq] at hm
    rcases hm with rfl | hm
    · exact hn.elim (h m) id
    · exact h m hm
  apply hheld.mono t
  · intro k hk; rwa [enqueue_active]
  · intro k hk; left; rw [enqueue_queued, hk, Bool.or_true]

omit [DecidableEq P] [DecidableEq V] in
theorem served_of_trans {s s' : Nodes P V} (h : Served t s)
    (he : ∀ m, (s' m).trans = (s m).trans) : Served t s' := by
  intro m hm
  rw [Nodes.queued, he] at hm
  apply (h m hm).mono t
  · intro k hk; rwa [Nodes.active, he]
  · intro k hk; left; rwa [Nodes.queued, he]

theorem served_step (s : State P V) (i : Input P V) (h : Served t s.nodes) :
    Served t ((machine t).step s i).1.nodes := by
  cases i with
  | transStart n tran env =>
    simp only [machine, State.setNodes, transStart]
    split
    · exact served_start t h n _
    · exact h
  | transStartWait n tran env =>
    simp only [machine, State.setNodes, transStartWait]
    split
    · exact served_start t h n _
    · rename_i hc
      split
      · rename_i hw
        exact served_enqueue t h tran (held_of_waitsOn t hc hw)
      · exact h
  | transStop n => exact served_transStop t h
  | opStart n env tracked => exact served_of_trans t h (opStart_trans t env tracked s.nodes n)
  | opStop n => exact served_of_trans t h (fun m => setOps_trans ..)
  | waitForOps n thread => exact h
  | wake thread => exact served_of_trans t h (waitStep_trans s.nodes _)

def Outcome.wait? : Outcome → Option Tran
  | .queued tran => some tran
  | _ => none

def Outcome.grant? : Outcome → Option Tran
  | .granted tran => some tran
  | _ => none

/-- The waiters queued on `n`, in the order in which they came. -/
def waited (n : Node P V) (events : List (Event P V)) : List Tran :=
  (outcomesAt n events).filterMap Outcome.wait?

/-- The waiters granted on `n`, in the order of the grants. -/
def grantedOn (n : Node P V) (events : List (Event P V)) : List Tran :=
  (outcomesAt n events).filterMap Outcome.grant?

theorem waited_singleton (n m : Node P V) (o : Outcome) :
    waited n [(m, o)] = if n = m then o.wait?.toList else [] := by
  unfold waited
  rw [outcomesAt_singleton]
  split_ifs <;> cases h : o.wait? <;> simp [h]

theorem grantedOn_singleton (n m : Node P V) (o : Outcome) :
    grantedOn n [(m, o)] = if n = m then o.grant?.toList else [] := by
  unfold grantedOn
  rw [outcomesAt_singleton]
  split_ifs <;> cases h : o.grant? <;> simp [h]

/-- A step appends to a queue the waiters it queues and takes from its front those it grants. -/
theorem queue_step (s : State P V) (i : Input P V) (m : Node P V) :
    (s.nodes m).trans.queue ++ waited m ((machine t).step s i).2 =
      grantedOn m ((machine t).step s i).2 ++
        (((machine t).step s i).1.nodes m).trans.queue := by
  have hquiet : ∀ (n : Node P V) (o : Outcome), o.wait? = none → o.grant? = none →
      waited m [(n, o)] = [] ∧ grantedOn m [(n, o)] = [] := by
    intro n o hw hg
    rw [waited_singleton, grantedOn_singleton, hw, hg]
    simp
  have hdirect : ∀ (n : Node P V) (tran : Tran),
      (s.nodes m).trans.queue ++ waited m [(n, Outcome.started tran)] =
        grantedOn m [(n, Outcome.started tran)] ++
          (s.nodes.setTrans n ((s.nodes n).trans.start tran.desc) m).trans.queue := by
    intro n tran
    obtain ⟨hw, hg⟩ := hquiet n (.started tran) rfl rfl
    rw [hw, hg]
    by_cases hm : m = n
    · subst hm; simp [Nodes.setTrans, Trans.start]
    · simp [Nodes.setTrans, hm]
  cases i with
  | transStart n tran env =>
    simp only [machine, State.setNodes, transStart]
    split
    · exact hdirect n tran
    · obtain ⟨hw, hg⟩ := hquiet n (.rejected (canTrans t env s.nodes n)) rfl rfl
      simp [hw, hg]
  | transStartWait n tran env =>
    simp only [machine, State.setNodes, transStartWait]
    split
    · exact hdirect n tran
    · split
      · rw [waited_singleton, grantedOn_singleton]
        by_cases hm : m = n
        · subst hm; simp [Nodes.setTrans, Trans.enqueue, Outcome.wait?, Outcome.grant?]
        · simp [Nodes.setTrans, hm]
      · obtain ⟨hw, hg⟩ := hquiet n (.rejected (canTrans t env s.nodes n)) rfl rfl
        simp [hw, hg]
  | transStop n =>
    simp only [machine, State.setNodes, waited, grantedOn, transStop_outcomes, transStop_nodes]
    split
    · rw [← cleared_queue s.nodes n m]
      unfold Ctx.handed Ctx.grant
      split <;> simp_all [Outcome.wait?, Outcome.grant?]
    · simp [cleared_queue]
  | opStart n env tracked =>
    have hev : waited m (opStart t env tracked s.nodes n).2 = [] ∧
        grantedOn m (opStart t env tracked s.nodes n).2 = [] := by
      unfold opStart
      split
      · split <;> exact hquiet n _ rfl rfl
      · exact hquiet n _ rfl rfl
    simp only [machine, State.setNodes, hev, opStart_trans]
    simp
  | opStop n => simp [machine, State.setNodes, opStop, waited, grantedOn]
  | waitForOps n thread => simp [machine, waited, grantedOn]
  | wake thread => simp [machine, waitStep_trans, waited, grantedOn]

theorem waited_eq (inputs : List (Input P V)) (n : Node P V) :
    waited n ((machine t).run initial inputs).2 =
      grantedOn n ((machine t).run initial inputs).2 ++
        (((machine t).run initial inputs).1.nodes n).trans.queue := by
  induction inputs using List.reverseRecOn with
  | nil => rfl
  | append_singleton inputs i ih =>
    have hstep := queue_step t ((machine t).run initial inputs).1 i n
    have happ : ∀ es fs : List (Event P V), waited n (es ++ fs) = waited n es ++ waited n fs :=
      fun es fs => by simp [waited]
    have happ' : ∀ es fs : List (Event P V),
        grantedOn n (es ++ fs) = grantedOn n es ++ grantedOn n fs :=
      fun es fs => by simp [grantedOn]
    rw [Machine.run_concat]
    rw [happ, happ', ih, List.append_assoc, hstep, List.append_assoc]

theorem transStop_driver_first (hq : s.queued .driver) :
    ((∀ k, k ≠ n → s.active k = false) →
      outcomesAt .driver (transStop t s n).2 = (s .driver).handed) ∧
    ∀ m, m ≠ .driver → outcomesAt m (transStop t s n).2 = [] := by
  have hqd : (cleared s n .driver).trans.queued := by
    rw [← Nodes.queued, cleared_queued]; exact hq
  constructor
  · intro hk
    have halone : Alone t (cleared s n) .driver := by
      intro k _
      rw [cleared_active]
      split_ifs with hkn
      · rfl
      · exact hk k hkn
    have hg : grants t (cleared s n) n .driver = true := by
      cases n <;> simp [grants, hqd, (driverCanTrigger_iff t).mpr halone]
    have hhanded : (cleared s n .driver).handed = (s .driver).handed := by
      unfold Ctx.handed
      rw [cleared_queue]
    rw [transStop_outcomes, if_pos hg, hhanded]
  · intro m hm
    rw [transStop_outcomes]
    cases m with
    | driver => exact absurd rfl hm
    | psoc p => cases n <;> simp [grants, hqd]
    | vdev v => cases n <;> simp [grants, hqd]

/-- No wakeup is lost: a waiter always has an active transition whose stop comes to it, so none
is left queued when nothing is active; waiters of a node are granted in order; and a waiting
driver goes before every psoc and vdev. -/
theorem no_lost_wakeup (inputs : List (Input P V)) :
    let s := ((machine t).run initial inputs).1.nodes
    let events := ((machine t).run initial inputs).2
    (∀ n, s.queued n → ∃ m, s.active m ∧ Reaches t s m n) ∧
    ((∀ m, s.active m = false) → ∀ n, s.queued n = false) ∧
    (∀ n, waited n events = grantedOn n events ++ (s n).trans.queue) ∧
    (∀ n, s.queued .driver →
      ((∀ k, k ≠ n → s.active k = false) →
        outcomesAt .driver (transStop t s n).2 = (s .driver).handed) ∧
      ∀ m, m ≠ .driver → outcomesAt m (transStop t s n).2 = []) := by
  have hserved : Served t ((machine t).run initial inputs).1.nodes :=
    (machine t).invariant (I := fun s => Served t s.nodes) (fun s i hs => served_step t s i hs)
      inputs (fun n hn => by simp [initial, Nodes.queued, Trans.queued] at hn)
  refine ⟨fun n hn => hserved.exists_active t hn, fun hnone n => ?_, waited_eq t inputs,
    fun n hq => transStop_driver_first t hq⟩
  by_contra hn
  obtain ⟨m, hm, -⟩ := hserved.exists_active t (by simpa using hn)
  simp [hnone m] at hm

end KernelModules.Dsc
