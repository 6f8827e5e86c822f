import KernelModules.DscTree
import KernelModules.Sweep

/-!
# What a stop hands over

A stop looks at the waiters of the node, of its ancestors and of its descendants. `grants` says
which of them it grants, in terms of the contexts before the handover, and `look_triggerTrans`
says that the handover does exactly this: a granted node moves its first waiter into the active
transition and emits one event, and every other node is left as it was.
-/

namespace KernelModules.Dsc

variable {P V : Type*}

def Tree.Ancestor (t : Tree P V) : Node P V → Node P V → Prop
  | .driver, .psoc _ => True
  | .driver, .vdev _ => True
  | .psoc p, .vdev v => t.psoc v = p
  | _, _ => False

def Tree.Related (t : Tree P V) (m n : Node P V) : Prop :=
  m = n ∨ t.Ancestor m n ∨ t.Ancestor n m

variable {m n : Node P V} {c : Ctx}

theorem Tree.related_comm (t : Tree P V) : t.Related m n ↔ t.Related n m := by
  unfold Tree.Related
  rw [eq_comm, or_comm (a := t.Ancestor m n)]

theorem Tree.related_driver (t : Tree P V) (n : Node P V) : t.Related .driver n := by
  cases n <;> simp [Tree.Related, Tree.Ancestor]

def Ctx.grant (c : Ctx) : Ctx :=
  match c.trans.queue with
  | [] => c
  | tran :: rest => { c with trans := ⟨some tran.desc, rest⟩ }

def Ctx.handed (c : Ctx) : List Outcome :=
  match c.trans.queue with
  | [] => []
  | tran :: _ => [.granted tran]

@[simp] theorem Ctx.grant_ops (c : Ctx) : c.grant.ops = c.ops := by
  unfold Ctx.grant
  split <;> rfl

theorem Ctx.grant_active (h : c.trans.queued) : c.grant.trans.active := by
  unfold Ctx.grant
  split
  · rename_i hq
    simp [Trans.queued, hq] at h
  · rfl

theorem Ctx.grant_of_not_queued (h : c.trans.queued = false) : c.grant = c ∧ c.handed = [] := by
  have hq : c.trans.queue = [] := by simpa [Trans.queued] using h
  simp [Ctx.grant, Ctx.handed, hq]

variable [DecidableEq P] [DecidableEq V]

/-- The outcomes reported for node `n`. -/
def outcomesAt (n : Node P V) (events : List (Event P V)) : List Outcome :=
  (events.filter fun e => decide (e.1 = n)).map Prod.snd

@[simp] theorem outcomesAt_nil (n : Node P V) : outcomesAt n [] = [] := rfl

@[simp] theorem outcomesAt_append (n : Node P V) (es fs : List (Event P V)) :
    outcomesAt n (es ++ fs) = outcomesAt n es ++ outcomesAt n fs := by
  simp [outcomesAt]

theorem outcomesAt_singleton (n m : Node P V) (o : Outcome) :
    outcomesAt n [(m, o)] = if n = m then [o] else [] := by
  by_cases h : n = m
  · subst h; simp [outcomesAt]
  · simp [outcomesAt, h, Ne.symm h]

def World.look (w : World P V) (n : Node P V) : Ctx × List Outcome :=
  (w.nodes n, outcomesAt n w.events)

@[simp] theorem World.look_fst (w : World P V) (n : Node P V) : (w.look n).1 = w.nodes n := rfl

def grantLook (x : Ctx × List Outcome) : Ctx × List Outcome := (x.1.grant, x.2 ++ x.1.handed)

theorem transTrigger_fst (n : Node P V) (w : World P V) :
    (transTrigger n w).1 = (w.nodes n).trans.queued := by
  unfold transTrigger Trans.queued
  split <;> simp_all

theorem look_transTrigger (n : Node P V) (w : World P V) (k : Node P V) :
    (transTrigger n w).2.look k = if k = n then grantLook (w.look k) else w.look k := by
  unfold transTrigger
  split
  · rename_i hq
    by_cases hk : k = n
    · subst hk
      simp [grantLook, World.look, Ctx.grant, Ctx.handed, hq]
    · rw [if_neg hk]
  · rename_i tran rest hq
    by_cases hk : k = n
    · subst hk
      simp [grantLook, World.look, Ctx.grant, Ctx.handed, hq, Nodes.setTrans, Trans.start,
        outcomesAt_singleton]
    · simp [World.look, Nodes.setTrans, hk, outcomesAt_singleton]

theorem look_of_not_queued {w : World P V} (h : (w.nodes n).trans.queued = false) :
    grantLook (w.look n) = w.look n := by
  obtain ⟨hc, ho⟩ := Ctx.grant_of_not_queued h
  simp [grantLook, World.look, hc, ho]

variable (t : Tree P V)

def vdevOwner : Node P V → Option V
  | .vdev v => some v
  | _ => none

omit [DecidableEq P] [DecidableEq V] in
theorem vdevOwner_eq_some {k : Node P V} {v : V} : vdevOwner k = some v ↔ k = .vdev v := by
  cases k <;> simp [vdevOwner]

def vdevAct (x : Node P V → Ctx × List Outcome) (_ : V) (k : Node P V) : Ctx × List Outcome :=
  grantLook (x k)

theorem look_vdevSweep (p : P) (w : World P V) (k : Node P V) :
    ((t.vdevs p).foldl (fun w v => (transTrigger (.vdev v) w).2) w).look k =
      match k with
      | .vdev v => if t.psoc v = p then grantLook (w.look (.vdev v)) else w.look (.vdev v)
      | _ => w.look k := by
  have hvisit : ∀ (w : World P V) (v : V) (k : Node P V),
      (transTrigger (.vdev v) w).2.look k =
        if vdevOwner k = some v then vdevAct w.look v k else w.look k := by
    intro w v k
    simp only [look_transTrigger, vdevOwner_eq_some, vdevAct]
  cases k with
  | driver => exact Sweep.foldl_of_notMem vdevOwner vdevAct hvisit (by simp [vdevOwner])
  | psoc q => exact Sweep.foldl_of_notMem vdevOwner vdevAct hvisit (by simp [vdevOwner])
  | vdev v =>
    by_cases hv : t.psoc v = p
    · simp only [if_pos hv]
      exact Sweep.foldl_of_mem vdevOwner vdevAct hvisit
        (fun x y _ k hk hxy => congrArg grantLook (hxy k hk))
        (t.nodup_vdevs p) rfl ((t.mem_vdevs p v).mpr hv)
    · simp only [if_neg hv]
      apply Sweep.foldl_of_notMem vdevOwner vdevAct hvisit
      intro u hu huv
      obtain rfl : v = u := Option.some.inj huv
      exact hv ((t.mem_vdevs p v).mp hu)

def psocAct (x : Node P V → Ctx × List Outcome) (p : P) (k : Node P V) : Ctx × List Outcome :=
  if (x (.psoc p)).1.trans.queued then
    match k with
    | .psoc _ => grantLook (x k)
    | _ => x k
  else
    match k with
    | .vdev _ => grantLook (x k)
    | _ => x k

def psocOwner : Node P V → Option P
  | .driver => none
  | .psoc p => some p
  | .vdev v => some (t.psoc v)

theorem look_subtreeTrigger (w : World P V) (p : P) (k : Node P V) :
    (subtreeTrigger t w p).look k =
      if psocOwner t k = some p then psocAct w.look p k else w.look k := by
  unfold subtreeTrigger psocAct
  simp only [transTrigger_fst, World.look_fst]
  by_cases hq : (w.nodes (.psoc p)).trans.queued
  · simp only [hq, if_true, look_transTrigger]
    cases k <;> simp [psocOwner]
  · have hq' : (w.nodes (.psoc p)).trans.queued = false := by simpa using hq
    simp only [hq', Bool.false_eq_true, if_false, look_vdevSweep, look_transTrigger]
    cases k with
    | driver => simp [psocOwner]
    | psoc q =>
      by_cases hqp : q = p
      · subst hqp; simp [psocOwner, look_of_not_queued hq']
      · simp [psocOwner, hqp]
    | vdev v => simp [psocOwner]

theorem look_driverSweep (w : World P V) (k : Node P V) :
    (t.psocs.foldl (subtreeTrigger t) w).look k =
      match psocOwner t k with
      | some p => psocAct w.look p k
      | none => w.look k := by
  cases hk : psocOwner t k with
  | none => exact Sweep.foldl_of_notMem (psocOwner t) psocAct (look_subtreeTrigger t) (by simp [hk])
  | some p =>
    refine Sweep.foldl_of_mem (psocOwner t) psocAct (look_subtreeTrigger t) ?_ t.nodup_psocs hk
      (t.mem_psocs p)
    intro x y a j hj hxy
    have ha : x (.psoc a) = y (.psoc a) := hxy _ rfl
    unfold psocAct
    rw [ha]
    cases j <;> simp [hxy _ hj]

/-- Whether the stop of `n` grants `m`, from the contexts with `n` already inactive. -/
def grants (s : Nodes P V) : Node P V → Node P V → Bool
  | .driver, .driver => (s .driver).trans.queued
  | .driver, .psoc p => !(s .driver).trans.queued && (s (.psoc p)).trans.queued
  | .driver, .vdev v => !(s .driver).trans.queued && !(s (.psoc (t.psoc v))).trans.queued &&
      (s (.vdev v)).trans.queued
  | .psoc p, .psoc q => decide (q = p) && !(s .driver).trans.queued && (s (.psoc q)).trans.queued
  | .psoc p, .vdev v => decide (t.psoc v = p) && !(s .driver).trans.queued &&
      !(s (.psoc p)).trans.queued && (s (.vdev v)).trans.queued
  | .vdev v, .psoc p => decide (p = t.psoc v) && !(s .driver).trans.queued &&
      (s (.psoc p)).trans.queued && psocCanTrigger t s p
  | .vdev v, .vdev u => decide (u = v) && !(s .driver).trans.queued &&
      !(s (.psoc (t.psoc v))).trans.queued && (s (.vdev u)).trans.queued
  | _, .driver => (s .driver).trans.queued && driverCanTrigger t s

theorem grants_queued {s : Nodes P V} (h : grants t s n m) : (s m).trans.queued := by
  cases n <;> cases m <;> simp only [grants, Bool.and_eq_true] at h <;> simp [h]

theorem look_driverTriggerTrans (w : World P V) (m : Node P V) :
    (driverTriggerTrans t w).look m =
      if grants t w.nodes .driver m then grantLook (w.look m) else w.look m := by
  unfold driverTriggerTrans
  simp only [transTrigger_fst]
  by_cases hd : (w.nodes .driver).trans.queued
  · rw [if_pos hd, look_transTrigger]
    cases m <;> simp [grants, hd]
  · have hd' : (w.nodes .driver).trans.queued = false := by simpa using hd
    have hsame : ∀ k, (transTrigger .driver w).2.look k = w.look k := by
      intro k
      rw [look_transTrigger]
      by_cases hk : k = .driver
      · rw [if_pos hk, hk, look_of_not_queued hd']
      · rw [if_neg hk]
    rw [if_neg hd, look_driverSweep, funext hsame]
    cases m with
    | driver => simp [psocOwner, grants, hd']
    | psoc p =>
      by_cases hp : (w.nodes (.psoc p)).trans.queued <;>
        simp [psocOwner, psocAct, grants, hd', hp]
    | vdev v =>
      by_cases hp : (w.nodes (.psoc (t.psoc v))).trans.queued
      · simp [psocOwner, psocAct, grants, hp]
      · by_cases hv : (w.nodes (.vdev v)).trans.queued
        · simp [psocOwner, psocAct, grants, hd', hp, hv]
        · simp [psocOwner, psocAct, grants, hv, look_of_not_queued (w := w) (by simpa using hv)]

theorem driverTransTriggerChecked_eq (w : World P V) :
    driverTransTriggerChecked t w =
      if (w.nodes .driver).trans.queued then
        (true, if driverCanTrigger t w.nodes then (transTrigger .driver w).2 else w)
      else (false, w) := by
  unfold driverTransTriggerChecked
  by_cases hd : (w.nodes .driver).trans.queued
  · by_cases hc : driverCanTrigger t w.nodes
    · have h1 : (transTrigger .driver w).1 = true := by rw [transTrigger_fst, hd]
      simp [hd, hc, Prod.ext_iff, h1]
    · simp [hd, hc]
  · simp [hd]

theorem psocTransTriggerChecked_eq (p : P) (w : World P V) :
    psocTransTriggerChecked t p w =
      if (w.nodes (.psoc p)).trans.queued then
        (true, if psocCanTrigger t w.nodes p then (transTrigger (.psoc p) w).2 else w)
      else (false, w) := by
  unfold psocTransTriggerChecked
  have hempty : (w.nodes (.psoc p)).trans.queue.isEmpty =
      !(w.nodes (.psoc p)).trans.queued := by simp [Trans.queued]
  rw [hempty]
  by_cases hq : (w.nodes (.psoc p)).trans.queued
  · by_cases hc : psocCanTrigger t w.nodes p
    · have h1 : (transTrigger (.psoc p) w).1 = true := by rw [transTrigger_fst, hq]
      simp [hq, hc, Prod.ext_iff, h1]
    · simp [hq, hc]
  · simp [hq]

theorem look_psocTriggerTrans (p : P) (w : World P V) (m : Node P V) :
    (psocTriggerTrans t p w).look m =
      if grants t w.nodes (.psoc p) m then grantLook (w.look m) else w.look m := by
  unfold psocTriggerTrans
  rw [driverTransTriggerChecked_eq]
  by_cases hd : (w.nodes .driver).trans.queued
  · by_cases hc : driverCanTrigger t w.nodes
    · simp only [hd, hc, if_true, look_transTrigger]
      cases m <;> simp [grants, hd, hc]
    · simp only [hd, hc, if_true]
      cases m <;> simp [grants, hd, hc]
  · have hd' : (w.nodes .driver).trans.queued = false := by simpa using hd
    simp only [hd', Bool.false_eq_true, if_false, look_subtreeTrigger]
    cases m with
    | driver => simp [psocOwner, grants, hd']
    | psoc q =>
      by_cases hqp : q = p
      · subst hqp
        by_cases hq : (w.nodes (.psoc q)).trans.queued <;> simp [psocOwner, psocAct, grants, hd', hq]
      · simp [psocOwner, grants, hqp]
    | vdev v =>
      by_cases hv : t.psoc v = p
      · subst hv
        by_cases hq : (w.nodes (.psoc (t.psoc v))).trans.queued
        · simp [psocOwner, psocAct, grants, hq]
        · by_cases hu : (w.nodes (.vdev v)).trans.queued
          · simp [psocOwner, psocAct, grants, hd', hq, hu]
          · simp [psocOwner, psocAct, grants, hu, look_of_not_queued (w := w) (by simpa using hu)]
      · simp [psocOwner, grants, hv]

theorem look_vdevTriggerTrans (v : V) (w : World P V) (m : Node P V) :
    (vdevTriggerTrans t v w).look m =
      if grants t w.nodes (.vdev v) m then grantLook (w.look m) else w.look m := by
  unfold vdevTriggerTrans
  rw [driverTransTriggerChecked_eq]
  by_cases hd : (w.nodes .driver).trans.queued
  · by_cases hc : driverCanTrigger t w.nodes
    · simp only [hd, hc, if_true, look_transTrigger]
      cases m <;> simp [grants, hd, hc]
    · simp only [hd, hc, if_true]
      cases m <;> simp [grants, hd, hc]
  · have hd' : (w.nodes .driver).trans.queued = false := by simpa using hd
    simp only [hd', Bool.false_eq_true, if_false, psocTransTriggerChecked_eq]
    by_cases hq : (w.nodes (.psoc (t.psoc v))).trans.queued
    · by_cases hc : psocCanTrigger t w.nodes (t.psoc v)
      · simp only [hq, hc, if_true, look_transTrigger]
        cases m with
        | driver => simp [grants, hd']
        | psoc q =>
          by_cases hqv : q = t.psoc v
          · subst hqv; simp [grants, hd', hq, hc]
          · simp [grants, hqv]
        | vdev u => simp [grants, hq]
      · simp only [hq, hc, if_true]
        cases m with
        | driver => simp [grants, hd']
        | psoc q =>
          by_cases hqv : q = t.psoc v
          · subst hqv; simp [grants, hc]
          · simp [grants, hqv]
        | vdev u => simp [grants, hq]
    · have hq' : (w.nodes (.psoc (t.psoc v))).trans.queued = false := by simpa using hq
      simp only [hq', Bool.false_eq_true, if_false, look_transTrigger]
      cases m with
      | driver => simp [grants, hd']
      | psoc q =>
        by_cases hqv : q = t.psoc v
        · subst hqv; simp [grants, hq']
        · simp [grants, hqv]
      | vdev u =>
        by_cases huv : u = v
        · subst huv
          by_cases hu : (w.nodes (.vdev u)).trans.queued
          · simp [grants, hd', hq', hu]
          · simp [grants, hu, look_of_not_queued (w := w) (by simpa using hu)]
        · simp [grants, huv]

theorem look_triggerTrans (n : Node P V) (w : World P V) (m : Node P V) :
    (triggerTrans t n w).look m =
      if grants t w.nodes n m then grantLook (w.look m) else w.look m := by
  cases n with
  | driver => exact look_driverTriggerTrans t w m
  | psoc p => exact look_psocTriggerTrans t p w m
  | vdev v => exact look_vdevTriggerTrans t v w m

def cleared (s : Nodes P V) (n : Node P V) : Nodes P V := s.setTrans n (s n).trans.stop

theorem transStop_nodes (s : Nodes P V) (n m : Node P V) :
    (transStop t s n).1 m =
      if grants t (cleared s n) n m then (cleared s n m).grant else cleared s n m := by
  have h := look_triggerTrans t n ⟨cleared s n, []⟩ m
  have h1 := congrArg Prod.fst h
  rw [apply_ite Prod.fst] at h1
  exact h1

theorem transStop_outcomes (s : Nodes P V) (n m : Node P V) :
    outcomesAt m (transStop t s n).2 =
      if grants t (cleared s n) n m then (cleared s n m).handed else [] := by
  have h := look_triggerTrans t n ⟨cleared s n, []⟩ m
  have h2 := congrArg Prod.snd h
  rw [apply_ite Prod.snd] at h2
  exact h2

end KernelModules.Dsc
