import KernelModules.TxFlowSteps

/-!
# The queues of the tx flow pools

Taking descriptors pauses a pool in two stages, and giving them back wakes it in two stages. Both
redistributions and a change of the size look at one of the stages only. Where none of them meets a
pool in a stage it overlooks, a pool with descriptors to spare is never paused, and the queues of
the vdevs that draw from it are open.
-/

namespace KernelModules.TxFlow

open Function

variable {cfg : Cfg} {s t u : Pdev} {p q d n size dst : ℕ}

namespace Adapter

/-- Nothing is stopped that is not stopped in the other. -/
instance : Preorder Adapter :=
  Preorder.lift fun a => (a.flowControl, a.flowControlPriority, a.hiPrioStopped, a.acStopped)

def PriorityOpen (a : Adapter) : Prop :=
  a.flowControlPriority = false ∧ a.hiPrioStopped = false

variable {a b : Adapter}

theorem le_iff : a ≤ b ↔ (a.flowControl ≤ b.flowControl ∧
    a.flowControlPriority ≤ b.flowControlPriority ∧ a.hiPrioStopped ≤ b.hiPrioStopped ∧
    a.acStopped ≤ b.acStopped) := Iff.rfl

theorem eq_of_le (h : a ≤ {}) : a = {} := by
  obtain ⟨hf, hp, hx, hy⟩ := le_iff.mp h
  obtain ⟨f, p, x, y⟩ := a
  rw [mk.injEq]
  exact ⟨Bool.eq_false_of_le_false hf, Bool.eq_false_of_le_false hp,
    Bool.eq_false_of_le_false hx, Bool.eq_false_of_le_false hy⟩

theorem PriorityOpen.of_le (h : a ≤ b) (hb : b.PriorityOpen) : a.PriorityOpen := by
  obtain ⟨_, hp, hx, _⟩ := le_iff.mp h
  obtain ⟨hb₁, hb₂⟩ := hb
  rw [hb₁] at hp
  rw [hb₂] at hx
  exact ⟨Bool.eq_false_of_le_false hp, Bool.eq_false_of_le_false hx⟩

theorem priority_of_le (h : a ≤ b) (hb : b.flowControlPriority = false) :
    a.flowControlPriority = false := by
  have hp := (le_iff.mp h).2.1
  rw [hb] at hp
  exact Bool.eq_false_of_le_false hp

theorem priorityOpen_empty : ({} : Adapter).PriorityOpen := ⟨rfl, rfl⟩

theorem setReason_le (a : Adapter) (reason : NetifReason) : a.setReason false reason ≤ a := by
  cases reason <;> exact ⟨by simp [setReason], by simp [setReason], le_rfl, le_rfl⟩

theorem wakeAll_le (a : Adapter) (reason : NetifReason) :
    a.queueControl .wakeAllNetifQueue reason ≤ a := by
  have h := setReason_le a reason
  unfold queueControl
  dsimp only
  split
  · exact h
  · exact ⟨h.1, h.2.1, Bool.false_le _, Bool.false_le _⟩

theorem wakeNonPriority_le (a : Adapter) (reason : NetifReason) :
    a.queueControl .wakeNonPriorityQueue reason ≤ a := by
  have h := setReason_le a reason
  unfold queueControl
  dsimp only
  split
  · exact h
  · exact ⟨h.1, h.2.1, h.2.2.1, Bool.false_le _⟩

theorem priorityQueueOn_le (a : Adapter) (reason : NetifReason) :
    a.queueControl .priorityQueueOn reason ≤ a := by
  have h := setReason_le a reason
  exact ⟨h.1, h.2.1, Bool.false_le _, h.2.2.2⟩

theorem wakeAll_eq (h : a.flowControlPriority = false) :
    a.queueControl .wakeAllNetifQueue .dataFlowControl = {} := by
  simp [queueControl, setReason, pauseMap, h]

theorem wakeNonPriority_eq (h : a.PriorityOpen) :
    a.queueControl .wakeNonPriorityQueue .dataFlowControl = {} := by
  simp [queueControl, setReason, pauseMap, h.1, h.2]

theorem priorityQueueOn_open (a : Adapter) :
    (a.queueControl .priorityQueueOn .dataFlowControlPriority).PriorityOpen := ⟨rfl, rfl⟩

theorem stopNonPriority_open :
    (queueControl {} .stopNonPriorityQueue .dataFlowControl).PriorityOpen := ⟨rfl, rfl⟩

theorem stopNonPriority_priorityQueueOn_open (h : a.flowControlPriority = false) :
    ((a.queueControl .stopNonPriorityQueue .dataFlowControl).queueControl .priorityQueueOn
      .dataFlowControl).PriorityOpen := by
  unfold queueControl
  dsimp only
  split <;> exact ⟨h, rfl⟩

end Adapter

/-- Whenever a pool has descriptors to spare it is not paused, and nothing is stopped at the vdevs
that draw from it. -/
def Served (s : Pdev) : Prop :=
  ∀ p ∈ s.flowPoolList, (s.pool p).status ≠ .invalid → (s.pool p).startTh < (s.pool p).availDesc →
    (s.pool p).status = .activeUnpaused ∧ ∀ v, s.vdevPool v = some p → s.queues v = {}

/-- How the stage a pool is in fits its thresholds and the queues of its vdevs. Only the last vdev
that was mapped to it is told. -/
structure Staged (s : Pdev) (p : ℕ) : Prop where
  active : (s.pool p).status ≠ .inactive
  le : (s.pool p).stopTh ≤ (s.pool p).startTh
  short : (s.pool p).deficientDesc = 0 ∨ (s.pool p).overflowDesc = 0
  spare : (s.pool p).status ≠ .invalid → (s.pool p).startTh < (s.pool p).availDesc →
    (s.pool p).status = .activeUnpaused
  clear : (s.pool p).status = .activeUnpaused → ∀ v, s.vdevPool v = some p → s.queues v = {}
  opened : (s.pool p).status = .nonPrioPaused → ∀ v, s.vdevPool v = some p →
    (s.queues v).PriorityOpen
  member : (s.pool p).status ≠ .invalid → ∀ v, s.vdevPool v = some p →
    v ≠ (s.pool p).memberFlowId → s.queues v = {}

structure Flowing (s : Pdev) : Prop where
  lt : ∀ v p, s.vdevPool v = some p → p < s.fresh
  staged : ∀ p ∈ s.flowPoolList, Staged s p

theorem Flowing.served (h : Flowing s) : Served s := by
  intro p hp hv hlt
  have hst := h.staged p hp
  have hstatus := hst.spare hv hlt
  exact ⟨hstatus, hst.clear hstatus⟩

/-- What redistribution has to find in a pool that is short: it overlooks the first stage, and the
device also a priority queue that is stopped. -/
def Ready (s : Pdev) (p : ℕ) : Prop :=
  (s.pool p).deficientDesc ≠ 0 → (s.pool p).status ≠ .invalid →
    (s.pool p).status = .activeUnpaused ∨
      (s.pool p).status = .activePaused ∧
        (s.vdevPool (s.pool p).memberFlowId = some p →
          (s.queues (s.pool p).memberFlowId).flowControlPriority = false)
deriving Decidable

structure Alike (a b : FlowPool) : Prop where
  status : b.status = a.status
  startTh : b.startTh = a.startTh
  stopTh : b.stopTh = a.stopTh
  memberFlowId : b.memberFlowId = a.memberFlowId
  overflowDesc : b.overflowDesc ≤ a.overflowDesc
  deficientDesc : b.deficientDesc ≤ a.deficientDesc

theorem Alike.refl (a : FlowPool) : Alike a a := ⟨rfl, rfl, rfl, rfl, le_rfl, le_rfl⟩

theorem Alike.of_eq {a b : FlowPool} (h : b = a) : Alike a b := h ▸ .refl b

theorem Staged.frame (h : Staged s p) (hpool : Alike (s.pool p) (t.pool p))
    (havail : (t.pool p).availDesc ≤ (s.pool p).availDesc ∨
      (s.pool p).status = .activeUnpaused ∨ (s.pool p).status = .invalid)
    (hmap : ∀ v, t.vdevPool v = some p → s.vdevPool v = some p)
    (hqueues : ∀ v, t.vdevPool v = some p → t.queues v ≤ s.queues v) : Staged t p := by
  constructor
  · rw [hpool.status]
    exact h.active
  · rw [hpool.startTh, hpool.stopTh]
    exact h.le
  · have hshort := h.short
    have hle := hpool.deficientDesc
    have hle' := hpool.overflowDesc
    omega
  · rw [hpool.status, hpool.startTh]
    intro hv hlt
    rcases havail with hle | heq | heq
    · exact h.spare hv (hlt.trans_le hle)
    · exact heq
    · exact absurd heq hv
  · rw [hpool.status]
    intro hstatus v hv
    have hle := hqueues v hv
    rw [h.clear hstatus v (hmap v hv)] at hle
    exact Adapter.eq_of_le hle
  · rw [hpool.status]
    intro hstatus v hv
    exact .of_le (hqueues v hv) (h.opened hstatus v (hmap v hv))
  · rw [hpool.status, hpool.memberFlowId]
    intro hstatus v hv hne
    have hle := hqueues v hv
    rw [h.member hstatus v (hmap v hv) hne] at hle
    exact Adapter.eq_of_le hle

theorem Ready.frame (h : Ready s p) (hpool : Alike (s.pool p) (t.pool p))
    (hmap : ∀ v, t.vdevPool v = some p → s.vdevPool v = some p)
    (hqueues : ∀ v, t.queues v ≤ s.queues v) : Ready t p := by
  unfold Ready
  rw [hpool.status, hpool.memberFlowId]
  intro hdef hv
  have hle := hpool.deficientDesc
  rcases h (by omega) hv with heq | ⟨heq, hopen⟩
  · exact .inl heq
  · exact .inr ⟨heq, fun hm => Adapter.priority_of_le (hqueues _) (hopen (hmap _ hm))⟩

def Orderly (s : Pdev) : Prop := Flowing s ∧ ∀ p ∈ s.flowPoolList, Ready s p

/-- A pool that is paused and has descriptors to spare is woken. -/
structure Roused (p : ℕ) (s t : Pdev) : Prop where
  list : t.flowPoolList = s.flowPoolList
  fresh : t.fresh = s.fresh
  vdevPool : t.vdevPool = s.vdevPool
  others : ∀ q ≠ p, t.pool q = s.pool q
  pool : t.pool p = { s.pool p with status := (t.pool p).status }
  status : (t.pool p).status = .activeUnpaused ∧ (s.pool p).status = .activePaused ∨
    (t.pool p).status = (s.pool p).status ∧
      ((s.pool p).status = .activePaused → (s.pool p).availDesc ≤ (s.pool p).startTh)
  queues : ∀ v, t.queues v ≤ s.queues v
  member : (t.pool p).status = .activeUnpaused → (s.pool p).status = .activePaused →
    (s.queues (s.pool p).memberFlowId).flowControlPriority = false →
    t.queues (s.pool p).memberFlowId = {}

variable {w : UInt8} {src : ℕ} {flowId flowType id vdev : UInt8}

theorem queues_update_le {a : Adapter} (h : a ≤ s.queues w) (v : UInt8) :
    update s.queues w a v ≤ s.queues v := by
  rcases eq_or_ne v w with rfl | hne
  · rw [update_self]
    exact h
  · rw [update_of_ne hne]

theorem wakeFromGlobal_roused (s : Pdev) (p : ℕ) : Roused p s (wakeFromGlobal s p) := by
  unfold wakeFromGlobal
  dsimp only
  split
  · next h =>
      refine ⟨rfl, rfl, rfl, fun q hq => modPool_of_ne hq .., ?_, ?_, ?_, ?_⟩
      · rw [modPool_self]
        rfl
      · rw [modPool_self]
        exact .inl ⟨rfl, h.1⟩
      · exact queues_update_le (Adapter.wakeAll_le ..)
      · intro _ _ hprio
        exact (update_self ..).trans (Adapter.wakeAll_eq hprio)
  · next h =>
      exact ⟨rfl, rfl, rfl, fun _ _ => rfl, rfl,
        .inr ⟨rfl, fun hp => not_lt.mp fun hlt => h ⟨hp, hlt⟩⟩, fun _ => le_rfl,
        fun hu hp => absurd (hu.symm.trans hp) (by decide)⟩

theorem wakeFromPool_roused (s : Pdev) (p : ℕ) : Roused p s (wakeFromPool s p) := by
  unfold wakeFromPool
  dsimp only
  split
  · next h =>
      refine ⟨rfl, rfl, rfl, fun q hq => modPool_of_ne hq .., ?_, ?_, ?_, ?_⟩
      · rw [modPool_self]
        rfl
      · rw [modPool_self]
        exact .inl ⟨rfl, h.1⟩
      · intro v
        exact (queues_update_le (s := s.pauseCb ..) (Adapter.wakeAll_le ..) v).trans
          (queues_update_le (Adapter.priorityQueueOn_le ..) v)
      · intro _ _ _
        refine (update_self ..).trans (Adapter.wakeAll_eq ?_)
        change (update s.queues _ _ _).flowControlPriority = false
        rw [update_self]
        exact (Adapter.priorityQueueOn_open _).1
  · next h =>
      exact ⟨rfl, rfl, rfl, fun _ _ => rfl, rfl,
        .inr ⟨rfl, fun hp => not_lt.mp fun hlt => h ⟨hp, hlt⟩⟩, fun _ => le_rfl,
        fun hu hp => absurd (hu.symm.trans hp) (by decide)⟩

structure Refilled (p : ℕ) (s t : Pdev) : Prop where
  list : t.flowPoolList = s.flowPoolList
  fresh : t.fresh = s.fresh
  vdevPool : t.vdevPool = s.vdevPool
  queues : t.queues = s.queues
  alike : ∀ q, Alike (s.pool q) (t.pool q)
  avail : ∀ q ≠ p, (t.pool q).availDesc ≤ (s.pool q).availDesc

/-- A pool that is ready is not paused any more once it has descriptors to spare. -/
theorem Refilled.staged (h : Refilled p s t) (hw : Roused p t u) (hi : Orderly s)
    (hdef : (s.pool p).deficientDesc ≠ 0) (hp : p ∈ s.flowPoolList) : Staged u p := by
  have hs := hi.1.staged p hp
  have ha := h.alike p
  have hready := hi.2 p hp hdef
  have hqueues : ∀ v, u.queues v ≤ s.queues v := fun v => h.queues ▸ hw.queues v
  have hmap : u.vdevPool = s.vdevPool := hw.vdevPool.trans h.vdevPool
  have hstart : (u.pool p).startTh = (s.pool p).startTh := by rw [hw.pool, ha.startTh]
  have hstop : (u.pool p).stopTh = (s.pool p).stopTh := by rw [hw.pool, ha.stopTh]
  have hmember : (u.pool p).memberFlowId = (s.pool p).memberFlowId := by
    rw [hw.pool, ha.memberFlowId]
  have hshort : (u.pool p).deficientDesc = 0 ∨ (u.pool p).overflowDesc = 0 := by
    have hle := ha.deficientDesc
    have hsame := ha.overflowDesc
    have := hs.short
    rw [hw.pool]
    dsimp only
    omega
  have hothers : (s.pool p).status ≠ .invalid → ∀ v, s.vdevPool v = some p →
      v ≠ (s.pool p).memberFlowId → u.queues v = {} := by
    intro hv v hm hne
    have hle := hqueues v
    rw [hs.member hv v hm hne] at hle
    exact Adapter.eq_of_le hle
  rcases hw.status with ⟨hu, ht⟩ | ⟨heq, ht⟩
  · have hpaused := ha.status.symm.trans ht
    have hv : (s.pool p).status ≠ .invalid := by
      rw [hpaused]
      decide
    refine ⟨by rw [hu]; decide, by rw [hstart, hstop]; exact hs.le, hshort, fun _ _ => hu, ?_, ?_,
      ?_⟩
    · intro _ v hm
      rw [hmap] at hm
      rcases eq_or_ne v (s.pool p).memberFlowId with rfl | hne
      · rcases hready hv with hup | ⟨_, hopen⟩
        · exact absurd (hup.symm.trans hpaused) (by decide)
        · have hwoken := hw.member hu ht
          rw [ha.memberFlowId, h.queues] at hwoken
          exact hwoken (hopen hm)
      · exact hothers hv v hm hne
    · intro hstatus
      exact absurd (hu.symm.trans hstatus) (by decide)
    · intro _ v hm hne
      rw [hmap] at hm
      rw [hmember] at hne
      exact hothers hv v hm hne
  · have hsame := heq.trans ha.status
    have havail : (u.pool p).availDesc = (t.pool p).availDesc := by rw [hw.pool]
    refine ⟨by rw [hsame]; exact hs.active, by rw [hstart, hstop]; exact hs.le, hshort, ?_, ?_, ?_,
      ?_⟩
    · rw [hsame, hstart, havail]
      intro hv hlt
      rcases hready hv with hup | ⟨hpaused, _⟩
      · exact hup
      · have hle := ht (ha.status.trans hpaused)
        rw [ha.startTh] at hle
        omega
    · rw [hsame, hmap]
      intro hstatus v hm
      have hle := hqueues v
      rw [hs.clear hstatus v hm] at hle
      exact Adapter.eq_of_le hle
    · rw [hsame, hmap]
      exact fun hstatus v hm => .of_le (hqueues v) (hs.opened hstatus v hm)
    · rw [hsame, hmap, hmember]
      exact hothers

theorem Refilled.orderly (h : Refilled p s t) (hw : Roused p t u) (hi : Orderly s)
    (hdef : (s.pool p).deficientDesc ≠ 0) : Orderly u := by
  have hqueues : ∀ v, u.queues v ≤ s.queues v := fun v => h.queues ▸ hw.queues v
  have hmap : u.vdevPool = s.vdevPool := hw.vdevPool.trans h.vdevPool
  have hlist : u.flowPoolList = s.flowPoolList := hw.list.trans h.list
  have hold : ∀ v q, u.vdevPool v = some q → s.vdevPool v = some q := fun v q hm => by
    rw [hmap] at hm
    exact hm
  refine ⟨⟨?_, ?_⟩, ?_⟩
  · intro v q hm
    rw [hw.fresh, h.fresh]
    exact hi.1.lt v q (hold v q hm)
  · intro q hq
    rw [hlist] at hq
    rcases eq_or_ne q p with rfl | hne
    · exact h.staged hw hi hdef hq
    · have hpool := hw.others q hne
      exact (hi.1.staged q hq).frame (by rw [hpool]; exact h.alike q)
        (.inl (by rw [hpool]; exact h.avail q hne)) (fun v => hold v q) fun v _ => hqueues v
  · intro q hq
    rw [hlist] at hq
    rcases eq_or_ne q p with rfl | hne
    · rcases hw.status with ⟨hu, _⟩ | ⟨heq, _⟩
      · exact fun _ _ => .inl hu
      · have ha := h.alike q
        apply (hi.2 q hq).frame _ (fun v => hold v q) hqueues
        rw [hw.pool]
        exact ⟨heq.trans ha.status, ha.startTh, ha.stopTh, ha.memberFlowId, ha.overflowDesc,
          ha.deficientDesc⟩
    · apply (hi.2 q hq).frame _ (fun v => hold v q) hqueues
      rw [hw.others q hne]
      exact h.alike q

theorem putFlow_refilled (p : ℕ) (ds : List ℕ) (s : Pdev) :
    Refilled p s (ds.foldl (putDescFlowPool p) s) := by
  rw [putFlowPool_eq]
  refine ⟨rfl, rfl, rfl, rfl, ?_, ?_⟩
  · intro q
    rcases eq_or_ne q p with rfl | hne
    · rw [modPool_self]
      exact ⟨rfl, rfl, rfl, rfl, le_rfl, le_rfl⟩
    · rw [modPool_of_ne hne]
      exact .refl _
  · intro q hne
    rw [modPool_of_ne hne]
    rfl

theorem Moved.refilled (h : Moved src p n s t) : Refilled p s t := by
  have hdev := h.kept.device
  refine ⟨by rw [hdev], by rw [hdev], by rw [hdev], h.queues, ?_, ?_⟩
  · intro q
    have hdef := h.deficient q
    have hpool := h.kept.pool q
    refine ⟨h.status q, ?_, ?_, ?_, (h.kept.overflow q).le, by omega⟩ <;> rw [hpool]
  · intro q hne
    have := h.avail q
    rw [if_neg hne] at this
    omega

theorem globalLoop_orderly (rest temp : List ℕ) (n : ℕ) (tmp : Option ℕ) (h : Orderly s) :
    Orderly (globalLoop rest temp n tmp s).1 := by
  induction rest generalizing temp n tmp s with
  | nil => exact h
  | cons dst rest ih =>
    unfold globalLoop
    dsimp only
    split
    · split
      · exact h
      · exact ih temp n tmp h
    · next hdef =>
        generalize (if n < (s.pool dst).deficientDesc then n else (s.pool dst).deficientDesc) = m
        have hu := (putFlow_refilled dst (temp.take m) s).orderly (wakeFromGlobal_roused _ dst) h
          hdef
        split
        · exact hu
        · exact ih _ _ _ hu

theorem Orderly.of_alike (h : Orderly s) (hlist : ∀ q ∈ t.flowPoolList, q ∈ s.flowPoolList)
    (hfresh : t.fresh = s.fresh) (hmap : t.vdevPool = s.vdevPool) (hqueues : t.queues = s.queues)
    (hpool : ∀ q ∈ t.flowPoolList, Alike (s.pool q) (t.pool q) ∧
      ((t.pool q).availDesc ≤ (s.pool q).availDesc ∨
        (s.pool q).status = .activeUnpaused ∨ (s.pool q).status = .invalid)) : Orderly t := by
  have hold : ∀ v q, t.vdevPool v = some q → s.vdevPool v = some q := fun v q hm => by
    rw [hmap] at hm
    exact hm
  have hle : ∀ v, t.queues v ≤ s.queues v := fun v => by rw [hqueues]
  refine ⟨⟨?_, ?_⟩, ?_⟩
  · intro v q hm
    rw [hfresh]
    exact h.1.lt v q (hold v q hm)
  · intro q hq
    obtain ⟨ha, havail⟩ := hpool q hq
    exact (h.1.staged q (hlist q hq)).frame ha havail (fun v => hold v q) fun v _ => hle v
  · intro q hq
    exact (h.2 q (hlist q hq)).frame (hpool q hq).1 (fun v => hold v q) hle

theorem grantAll_orderly (hs : Sound cfg s []) (h : Orderly s) : Orderly (grantAll s).1 := by
  obtain ⟨n, hn⟩ : ∃ n, n =
      if u16 (s.flowPoolList.map fun p => (s.pool p).deficientDesc).sum ≤ s.numFree
      then u16 (s.flowPoolList.map fun p => (s.pool p).deficientDesc).sum else s.numFree := ⟨_, rfl⟩
  have hfree : n ≤ s.freelist.length := by
    rw [← hs.numFree]
    split at hn <;> omega
  unfold grantAll
  dsimp only
  rw [← hn, takeGlobalPool_eq n s [] hfree]
  have htake : ∀ n, Orderly { s with freelist := s.freelist.drop n, numFree := s.numFree - n } :=
    fun _ => h.of_alike (fun _ hq => hq) rfl rfl rfl fun q _ => ⟨.refl _, .inl le_rfl⟩
  split
  · exact htake _
  · exact globalLoop_orderly _ _ _ _ (htake _)

theorem distributeLoop_orderly {rest : List ℕ} (hs : Sound cfg s [])
    (hsrc : src ∈ s.flowPoolList) (hrest : ∀ q ∈ rest, q ∈ s.flowPoolList)
    (hn : n ≤ (s.pool src).availDesc) (h : Orderly s) : Orderly (distributeLoop src rest n s) := by
  induction rest generalizing s n with
  | nil => exact h
  | cons dst rest ih =>
    have hrest' : ∀ q ∈ rest, q ∈ s.flowPoolList := fun q hq =>
      hrest q (List.mem_cons_of_mem _ hq)
    obtain ⟨m, hm⟩ : ∃ m, m =
        if n < (s.pool dst).deficientDesc then n else (s.pool dst).deficientDesc := ⟨_, rfl⟩
    have hle : m ≤ n ∧ m ≤ (s.pool dst).deficientDesc := by split at hm <;> omega
    unfold distributeLoop
    by_cases hdef : (s.pool dst).deficientDesc = 0
    · simp only [if_pos hdef]
      split
      · exact h
      · exact ih hs hsrc hrest' hn h
    · simp only [if_neg hdef, ← hm]
      obtain ⟨hs₁, hcount, hmoved⟩ := moveDescN_spec hs hsrc (hrest dst List.mem_cons_self)
        (hle.1.trans hn) hle.2
      obtain ⟨hs₂, hw⟩ := wakeFromPool_spec hs₁ dst
      have hu := hmoved.refilled.orderly (wakeFromPool_roused _ dst) h hdef
      rw [hcount]
      split
      · exact hu
      · have hlist := hw.kept.list.trans hmoved.kept.list
        apply ih hs₂ (by rw [hlist]; exact hsrc) (fun q hq => by rw [hlist]; exact hrest' q hq) _
          hu
        have havail := hmoved.avail src
        rw [hw.avail]
        split_ifs at havail <;> omega

theorem emptied_orderly (hs : Settled cfg s) (hp : p ∈ s.flowPoolList) (h : Orderly s) :
    Orderly (emptied p s) := by
  have hd : Orderly (distributeToDeficientPools p s) :=
    distributeLoop_orderly hs.sound hp (fun _ hq => hq) le_rfl h
  apply hd.of_alike (t := emptied p s) (fun _ hq => hq) rfl rfl rfl
  intro q _
  rcases eq_or_ne q p with rfl | hne
  · have hself : (emptied q s).pool q = { (distributeToDeficientPools q s).pool q with
        flowPoolSize := ((distributeToDeficientPools q s).pool q).availDesc } :=
      update_self ..
    rw [hself]
    exact ⟨⟨rfl, rfl, rfl, rfl, le_rfl, le_rfl⟩, .inl le_rfl⟩
  · rw [emptied_pool_of_ne hne]
    exact ⟨.refl _, .inl le_rfl⟩

theorem Dropped.flowing (h : Dropped p s t) (hs : Sound cfg s []) (hp : p ∈ s.flowPoolList)
    (hlt : ∀ v q, s.vdevPool v = some q → q < s.fresh)
    (hle : (s.pool p).stopTh ≤ (s.pool p).startTh)
    (hshort : (s.pool p).deficientDesc = 0 ∨ (s.pool p).overflowDesc = 0)
    (hst : ∀ q ∈ s.flowPoolList, q ≠ p → Staged s q) : Flowing t := by
  refine ⟨?_, ?_⟩
  · intro v q hm
    rw [h.vdevPool] at hm
    rw [h.fresh]
    exact hlt v q hm
  · intro q hq
    rcases eq_or_ne q p with rfl | hne
    · cases h with
      | freed _ => exact absurd hq hs.nodup.not_mem_erase
      | kept _ =>
        have hpool : (s.modPool q fun pool => { pool with
            refCnt := pool.refCnt - 1 + 1
            status := .invalid
            freelist := []
            availDesc := 0
            flowPoolSize := u16 (pool.flowPoolSize + 2 ^ 16 - pool.availDesc)
            flowPoolId := invalidFlowId }).pool q = _ := modPool_self ..
        constructor
        · rw [hpool]
          exact fun hv => nomatch hv
        · rw [hpool]
          exact hle
        · rw [hpool]
          exact hshort
        · rw [hpool]
          exact fun hv => absurd rfl hv
        · rw [hpool]
          exact fun hu => nomatch hu
        · rw [hpool]
          exact fun hu => nomatch hu
        · rw [hpool]
          exact fun hv => absurd rfl hv
    · have hpool := h.pool_of_ne hne
      exact (hst q (h.mem_of_mem hp hq) hne).frame (.of_eq hpool)
        (.inl (by rw [hpool])) (fun v hm => by rw [h.vdevPool] at hm; exact hm)
        fun v _ => by rw [h.queues]

theorem Dropped.ready (h : Dropped p s t) (hs : Sound cfg s []) (hp : p ∈ s.flowPoolList)
    (hr : ∀ q ∈ s.flowPoolList, q ≠ p → Ready s q) : ∀ q ∈ t.flowPoolList, Ready t q := by
  intro q hq
  rcases eq_or_ne q p with rfl | hne
  · cases h with
    | freed _ => exact absurd hq hs.nodup.not_mem_erase
    | kept _ =>
      intro _ hv
      exact absurd (by simp [Pdev.modPool]) hv
  · exact (hr q (h.mem_of_mem hp hq) hne).frame (.of_eq (h.pool_of_ne hne))
      (fun v hm => by rw [h.vdevPool] at hm; exact hm) fun v => by rw [h.queues]

theorem dropPool_emptied_orderly (hs : Settled cfg s) (hp : p ∈ s.flowPoolList)
    (h : Orderly s) : Orderly (dropPool p (emptied p s)) := by
  have he := emptied_orderly hs hp h
  have hmem : p ∈ (emptied p s).flowPoolList := by
    rw [emptied_list hs hp]
    exact hp
  have hsound := (emptied_settled hs hp).sound
  have hd := dropPool_cases hsound hmem
  have hst := he.1.staged p hmem
  exact ⟨hd.flowing hsound hmem he.1.lt hst.le hst.short fun q hq _ => he.1.staged q hq,
    hd.ready hsound hmem fun q hq _ => he.2 q hq⟩

theorem serve_orderly (hs : Settled cfg s) (h : Orderly s) :
    Orderly (distributeFromGlobal freeInvalidFlowPool s) :=
  (serve_rule (I := Orderly) (fun _ ht hi => grantAll_orderly ht.sound hi)
    (fun _ ht hi _ hp _ => dropPool_emptied_orderly ht hp hi) hs h).2

theorem freeInvalidFlowPool_orderly (hs : Settled cfg s) (hp : p ∈ s.flowPoolList)
    (h : Orderly s) : Orderly (freeInvalidFlowPool p s) :=
  (freeInvalidFlowPool_rule (I := Orderly) (fun _ ht hi => grantAll_orderly ht.sound hi)
    (fun _ ht hi _ hp _ => dropPool_emptied_orderly ht hp hi) hs h hp).2

theorem decPoolRef_flowing (hs : Settled cfg s) (hp : p ∈ s.flowPoolList)
    (hlt : ∀ v q, s.vdevPool v = some q → q < s.fresh)
    (hle : (s.pool p).stopTh ≤ (s.pool p).startTh)
    (hshort : (s.pool p).deficientDesc = 0 ∨ (s.pool p).overflowDesc = 0)
    (hst : ∀ q ∈ s.flowPoolList, q ≠ p → Staged s q)
    (hc : s.numFree + (s.pool p).availDesc = 0 ∨ ∀ q ∈ s.flowPoolList, q ≠ p → Ready s q) :
    Flowing (decPoolRef p s) := by
  have hd := dropPool_cases hs.sound hp
  have hf := hd.flowing hs.sound hp hlt hle hshort hst
  rw [decPoolRef_eq hs hp]
  rcases hc with hzero | hr
  · rw [serve_eq_self]
    · exact hf
    · left
      rw [hd.numFree]
      exact hzero
  · exact (serve_orderly (dropPool_settled hs hp) ⟨hf, hd.ready hs.sound hp hr⟩).1

/-- Taking a descriptor out of the pool takes it to the next stage. -/
def FlowPool.Stops (pool : FlowPool) : Prop :=
  pool.availDesc ≠ 0 ∧
    (pool.availDesc - 1 < pool.stopTh ∧ pool.stopPriorityTh ≤ pool.availDesc - 1 ∧
        pool.status = .activeUnpaused ∨
      pool.availDesc - 1 < pool.stopPriorityTh ∧ pool.status = .nonPrioPaused)
deriving Decidable

/-- What a message or a call has to find so that whoever is stopped is woken in time. -/
def Heeded (cfg : Cfg) (s : Pdev) : Event → Prop
  -- The vdev that was told so far has to be running when the pool tells another one.
  | .map flowId flowType id _ mem =>
    (∀ p ∈ getFlowPool s id, flowType = flowTypeVdev → cfg.vdev flowId = true →
      (s.pool p).status ≠ .invalid → (s.pool p).memberFlowId ≠ flowId →
      s.vdevPool (s.pool p).memberFlowId = some p → s.queues (s.pool p).memberFlowId = {}) ∧
    (getFlowPool s id = none → mem = true → flowType ≠ flowTypeVdev →
      s.numFree = 0 ∨ ∀ p ∈ s.flowPoolList, Ready s p)
  | .unmap _ flowType id =>
    ∀ p ∈ getFlowPool s id, flowType = flowTypeVdev →
      s.numFree + (s.pool p).availDesc = 0 ∨ ∀ q ∈ s.flowPoolList, q ≠ p → Ready s q
  -- An invalid pool is not to be revived, nor a priority queue to be forgotten.
  | .resize id size =>
    ∀ p ∈ getFlowPool s id, (s.pool p).flowPoolSize ≠ size.toNat →
      (s.pool p).status ≠ .invalid ∧
        (s.vdevPool (s.pool p).memberFlowId = none ∨
          s.vdevPool (s.pool p).memberFlowId = some p ∧
            (s.queues (s.pool p).memberFlowId).flowControlPriority = false)
  -- Who is stopped has to be the one who is woken.
  | .alloc vdev mgmt =>
    ∀ p ∈ (if mgmt then s.mgmtPool else s.vdevPool vdev), (s.pool p).Stops →
      (s.pool p).memberFlowId = vdev ∧ s.vdevPool vdev = some p
  | .free d =>
    ∀ p ∈ s.descPool d,
      ((s.pool p).overflowDesc = 0 → (s.pool p).status = .activePaused →
        (s.pool p).availDesc + 1 ≤ (s.pool p).startTh) ∧
      ((s.pool p).overflowDesc ≠ 0 ∨
          (s.pool p).status = .invalid ∧ (s.pool p).availDesc + 1 = (s.pool p).flowPoolSize →
        ∀ q ∈ s.flowPoolList, Ready s q)

theorem Flowing.of_others (h : Flowing s) (hlist : t.flowPoolList = s.flowPoolList)
    (hfresh : t.fresh = s.fresh) (hlt : ∀ v q, t.vdevPool v = some q → q < s.fresh)
    (hothers : ∀ q ≠ p, t.pool q = s.pool q)
    (hmap : ∀ v, ∀ q ≠ p, t.vdevPool v = some q → s.vdevPool v = some q)
    (hqueues : ∀ v, ∀ q ≠ p, t.vdevPool v = some q → t.queues v ≤ s.queues v)
    (hp : p ∈ s.flowPoolList → Staged t p) : Flowing t := by
  refine ⟨?_, ?_⟩
  · intro v q hm
    rw [hfresh]
    exact hlt v q hm
  · intro q hq
    rw [hlist] at hq
    rcases eq_or_ne q p with rfl | hne
    · exact hp hq
    · exact (h.staged q hq).frame (.of_eq (hothers q hne))
        (.inl (by rw [hothers q hne])) (fun v => hmap v q hne) fun v => hqueues v q hne

theorem reopen_queues (s : Pdev) (v : UInt8) :
    ((s.pauseCb v .priorityQueueOn .dataFlowControlPriority).pauseCb v .wakeAllNetifQueue
      .dataFlowControl) = { s with queues := update s.queues v {} } := by
  have hopen := Adapter.wakeAll_eq (Adapter.priorityQueueOn_open (s.queues v)).1
  simp only [Pdev.pauseCb, update_self, update_idem, hopen]

theorem empty_le (a : Adapter) : {} ≤ a :=
  ⟨Bool.false_le _, Bool.false_le _, Bool.false_le _, Bool.false_le _⟩

theorem Flowing.reopen (h : Flowing s) (v : UInt8) :
    Flowing { s with queues := update s.queues v {} } := by
  refine ⟨h.lt, ?_⟩
  intro q hq
  exact (h.staged q hq).frame (.refl _) (.inl le_rfl) (fun _ => id)
    fun w _ => queues_update_le (empty_le _) w

/-- The vdev that is mapped starts with nothing stopped. -/
theorem mapped_flowing (hs : Settled cfg s) (h : Flowing s)
    (hp : p ∈ s.flowPoolList)
    (hc : cfg.vdev flowId = true → (s.pool p).status ≠ .invalid →
      (s.pool p).memberFlowId ≠ flowId → s.vdevPool (s.pool p).memberFlowId = some p →
      s.queues (s.pool p).memberFlowId = {}) :
    Flowing { vdevMap cfg p flowId s with
      queues := update (vdevMap cfg p flowId s).queues flowId {} } := by
  unfold vdevMap
  split
  · next hvdev =>
      have hold : ∀ {v q}, update s.vdevPool flowId (some p) v = some q →
          v = flowId ∧ q = p ∨ v ≠ flowId ∧ s.vdevPool v = some q := by
        intro v q hv
        rcases eq_or_ne v flowId with rfl | hne
        · rw [update_self] at hv
          exact .inl ⟨rfl, (Option.some.inj hv).symm⟩
        · rw [update_of_ne hne] at hv
          exact .inr ⟨hne, hv⟩
      have hcases : ∀ {P : Adapter → Prop}, P {} → (∀ v, s.vdevPool v = some p → P (s.queues v)) →
          ∀ v, update s.vdevPool flowId (some p) v = some p →
            P (update s.queues flowId {} v) := by
        intro P hempty hP v hv
        rcases hold hv with ⟨rfl, _⟩ | ⟨hne, hv⟩
        · rw [update_self]
          exact hempty
        · rw [update_of_ne hne]
          exact hP v hv
      have hst := h.staged p hp
      refine h.of_others (p := p) ?_ ?_ ?_ ?_ ?_ ?_ ?_
      · rfl
      · rfl
      · intro v q hv
        rcases hold hv with ⟨_, rfl⟩ | ⟨_, hv⟩
        · exact hs.sound.lt q hp
        · exact h.lt v q hv
      · exact fun q hq => update_of_ne hq ..
      · intro v q hne hv
        rcases hold hv with ⟨_, heq⟩ | ⟨_, hv⟩
        · exact absurd heq hne
        · exact hv
      · exact fun v _ _ _ => queues_update_le (empty_le _) v
      · intro _
        have hpool : (s.modPool p fun pool => { pool with memberFlowId := flowId }).pool p =
            { s.pool p with memberFlowId := flowId } := update_self ..
        constructor
        · rw [hpool]
          exact hst.active
        · rw [hpool]
          exact hst.le
        · rw [hpool]
          exact hst.short
        · rw [hpool]
          exact hst.spare
        · rw [hpool]
          exact fun hstatus => hcases (P := fun a => a = {}) rfl (hst.clear hstatus)
        · rw [hpool]
          exact fun hstatus => hcases Adapter.priorityOpen_empty (hst.opened hstatus)
        · rw [hpool]
          intro hv v hvm hne
          rcases hold hvm with ⟨heq, _⟩ | ⟨hne', hvs⟩
          · exact absurd heq hne
          · change update s.queues flowId {} v = {}
            rw [update_of_ne hne']
            rcases eq_or_ne v (s.pool p).memberFlowId with rfl | hmember
            · exact hc hvdev hv hne' hvs
            · exact hst.member hv v hvs hmember
  · exact h.reopen flowId

theorem Created.flowing (hc : Created cfg size s t) (hs : Settled cfg s) (h : Flowing s)
    (hsize : size < 2 ^ 16) : Flowing t := by
  obtain ⟨hmap, hqueues, _, _, hfresh⟩ := hc.rest
  refine ⟨?_, ?_⟩
  · intro v q hm
    rw [hmap] at hm
    rw [hfresh]
    exact Nat.lt_succ_of_lt (h.lt v q hm)
  · intro q hq
    rw [hc.list] at hq
    rcases List.mem_append.mp hq with hq | hq
    · have hpool := hc.pool q fun heq => lt_irrefl _ (heq ▸ hs.sound.lt q hq)
      exact (h.staged q hq).frame (.of_eq hpool) (.inl (by rw [hpool]))
        (fun v => hmap ▸ id) fun v _ => by rw [hqueues]
    · rw [List.mem_singleton.mp hq]
      -- Nobody is mapped to a pool that was not there.
      have hnone : ∀ v, t.vdevPool v ≠ some s.fresh := by
        intro v hm
        rw [hmap] at hm
        exact lt_irrefl _ (h.lt v _ hm)
      exact ⟨by rw [hc.status]; decide, hc.thresholds hsize, .inr hc.overflow,
        fun _ _ => hc.status, fun _ v hm => absurd hm (hnone v),
        fun _ v hm => absurd hm (hnone v), fun _ v hm => absurd hm (hnone v)⟩

theorem mapHandler_flowing {size : UInt16} {mem : Bool}
    (hs : Settled cfg s) (h : Flowing s)
    (hu : Heeded cfg s (.map flowId flowType id size mem)) :
    Flowing (mapHandler cfg flowId flowType id size mem s) := by
  unfold mapHandler
  split
  · next p hid =>
      unfold mapPool
      split
      · next htype =>
          rw [reopen_queues]
          exact mapped_flowing hs h (getFlowPool_mem hid) (hu.1 p hid htype)
      · exact h
  · next hid =>
      split
      · next hmem =>
          obtain ⟨hp, hc⟩ := createFlowPool_spec hs id size.toNat
          have hf := hc.flowing hs h size.toNat_lt
          have hlist : s.fresh ∈ (createFlowPool cfg s id size.toNat).1.flowPoolList := by
            rw [hc.list]
            exact List.mem_append_right _ (List.mem_singleton_self _)
          have hst := hf.staged _ hlist
          dsimp only
          unfold mapPool
          split
          · rw [hp]
            rw [reopen_queues]
            apply mapped_flowing hc.settled hf hlist
            intro _ _ _ hm
            exact hst.clear hc.status _ hm
          · next htype =>
              rw [if_pos rfl, hp]
              apply decPoolRef_flowing hc.settled hlist hf.lt hst.le hst.short
                (fun q hq _ => hf.staged q hq)
              rcases hu.2 hid hmem htype with hzero | hr
              · left
                have := hc.numFree
                omega
              · right
                intro q hmem' hne
                obtain ⟨hmap, hqueues, _⟩ := hc.rest
                rw [hc.list] at hmem'
                rcases List.mem_append.mp hmem' with hmem' | hmem'
                · exact (hr q hmem').frame (.of_eq (hc.pool q hne))
                    (fun v hm => by rw [hmap] at hm; exact hm) fun v => by rw [hqueues]
                · exact absurd (List.mem_singleton.mp hmem') hne
      · exact h

theorem unmapHandler_flowing (hs : Settled cfg s) (h : Flowing s)
    (hu : Heeded cfg s (.unmap flowId flowType id)) :
    Flowing (unmapHandler cfg flowId flowType id s) := by
  unfold unmapHandler
  split
  · next p hid =>
      split
      · next htype =>
          have hp := getFlowPool_mem hid
          have hst := h.staged p hp
          have hc := hu p hid htype
          have hset := vdevUnmap_settled hs p flowId
          obtain ⟨t, ht⟩ : ∃ t, t = vdevUnmap cfg p flowId s := ⟨_, rfl⟩
          have hfields : t.flowPoolList = s.flowPoolList ∧ t.fresh = s.fresh ∧
              t.numFree = s.numFree ∧ t.queues = s.queues ∧ (∀ q ≠ p, t.pool q = s.pool q) ∧
              (∀ v q, t.vdevPool v = some q → s.vdevPool v = some q) ∧
              t.pool p = { s.pool p with memberFlowId := (t.pool p).memberFlowId } := by
            rw [ht]
            unfold vdevUnmap
            split
            · refine ⟨rfl, rfl, rfl, rfl, fun q hq => update_of_ne hq .., ?_, ?_⟩
              · intro v q hm
                change update s.vdevPool flowId none v = some q at hm
                rcases eq_or_ne v flowId with rfl | hne
                · rw [update_self] at hm
                  cases hm
                · rw [update_of_ne hne] at hm
                  exact hm
              · simp [Pdev.modPool]
            · exact ⟨rfl, rfl, rfl, rfl, fun _ _ => rfl, fun _ _ hm => hm, rfl⟩
          rw [← ht] at hset ⊢
          clear ht
          obtain ⟨hlist, hfresh, hnum, hqueues, hothers, hold, hpool⟩ := hfields
          have hpt : p ∈ t.flowPoolList := by
            rw [hlist]
            exact hp
          have hle : (t.pool p).stopTh ≤ (t.pool p).startTh := by
            rw [hpool]
            exact hst.le
          have hshort : (t.pool p).deficientDesc = 0 ∨ (t.pool p).overflowDesc = 0 := by
            rw [hpool]
            exact hst.short
          apply decPoolRef_flowing hset hpt ?_ hle hshort ?_ ?_
          · intro v q hm
            rw [hfresh]
            exact h.lt v q (hold v q hm)
          · intro q hq hne
            rw [hlist] at hq
            exact (h.staged q hq).frame (.of_eq (hothers q hne))
              (.inl (by rw [hothers q hne])) (fun v => hold v q) fun v _ => by rw [hqueues]
          · rcases hc with hzero | hr
            · left
              rw [hnum, hpool]
              exact hzero
            · right
              intro q hq hne
              rw [hlist] at hq
              exact (hr q hq hne).frame (.of_eq (hothers q hne))
                (fun v => hold v q) fun v => by rw [hqueues]
      · exact h
  · exact h

/-- The stage of a pool is changed and one vdev is told. -/
structure Told (p : ℕ) (w : UInt8) (s t : Pdev) : Prop where
  list : t.flowPoolList = s.flowPoolList
  fresh : t.fresh = s.fresh
  vdevPool : t.vdevPool = s.vdevPool
  others : ∀ q ≠ p, t.pool q = s.pool q
  memberFlowId : (t.pool p).memberFlowId = (s.pool p).memberFlowId
  queues : ∀ v ≠ w, t.queues v = s.queues v

theorem Flowing.told (h : Flowing s) (hp : p ∈ s.flowPoolList) (ht : Told p w s t)
    (hw : w = (s.pool p).memberFlowId) (hv : (s.pool p).status ≠ .invalid)
    (hm : s.vdevPool w = none ∨ s.vdevPool w = some p ∨ t.queues w ≤ s.queues w)
    (hactive : (t.pool p).status ≠ .inactive) (hle : (t.pool p).stopTh ≤ (t.pool p).startTh)
    (hshort : (t.pool p).deficientDesc = 0 ∨ (t.pool p).overflowDesc = 0)
    (hspare : (t.pool p).startTh < (t.pool p).availDesc → (t.pool p).status = .activeUnpaused)
    (hclear : s.vdevPool w = some p → (t.pool p).status = .activeUnpaused → t.queues w = {})
    (hopened : s.vdevPool w = some p → (t.pool p).status = .nonPrioPaused →
      (t.queues w).PriorityOpen) : Flowing t := by
  have hmap := ht.vdevPool
  have hothers : ∀ v, s.vdevPool v = some p → v ≠ w → t.queues v = {} := by
    intro v hvp hne
    rw [ht.queues v hne]
    exact (h.staged p hp).member hv v hvp (hw ▸ hne)
  refine h.of_others ht.list ht.fresh ?_ ht.others ?_ ?_ ?_
  · rw [hmap]
    exact h.lt
  · rw [hmap]
    exact fun _ _ _ => id
  · intro v q hne hvq
    rw [hmap] at hvq
    rcases eq_or_ne v w with rfl | hvw
    · rcases hm with hm | hm | hm
      · rw [hm] at hvq
        cases hvq
      · rw [hm] at hvq
        exact absurd (Option.some.inj hvq).symm hne
      · exact hm
    · rw [ht.queues v hvw]
  · intro _
    refine ⟨hactive, hle, hshort, fun _ => hspare, ?_, ?_, ?_⟩
    · rw [hmap]
      intro hs v hvp
      rcases eq_or_ne v w with rfl | hne
      · exact hclear hvp hs
      · exact hothers v hvp hne
    · rw [hmap]
      intro hs v hvp
      rcases eq_or_ne v w with rfl | hne
      · exact hopened hvp hs
      · rw [hothers v hvp hne]
        exact Adapter.priorityOpen_empty
    · rw [hmap, ht.memberFlowId, ← hw]
      exact fun _ v hvp hne => hothers v hvp hne

/-- After a change of the size the stage is set anew, and the vdev that is mapped is told. -/
theorem updateQueueState_flowing (h : Flowing s) (hp : p ∈ s.flowPoolList)
    (hr : Resized p s t) (hqueues : t.queues = s.queues)
    (hstatus : (t.pool p).status = (s.pool p).status)
    (hle : (t.pool p).stopTh ≤ (t.pool p).startTh)
    (hshort : (t.pool p).deficientDesc = 0 ∨ (t.pool p).overflowDesc = 0)
    (hv : (s.pool p).status ≠ .invalid)
    (hm : s.vdevPool (s.pool p).memberFlowId = none ∨
      s.vdevPool (s.pool p).memberFlowId = some p ∧
        (s.queues (s.pool p).memberFlowId).flowControlPriority = false) :
    Flowing (updateQueueState p t) := by
  obtain ⟨w, hw⟩ : ∃ w, w = (s.pool p).memberFlowId := ⟨_, rfl⟩
  have hmember := hr.memberFlowId
  rw [← hw] at hm hmember
  have hst := h.staged p hp
  have hprio : s.vdevPool w = some p → (t.queues w).flowControlPriority = false := by
    rw [hqueues]
    rcases hm with hm | hm
    · intro heq
      rw [hm] at heq
      cases heq
    · exact fun _ => hm.2
  have hset : ∀ status a, status ≠ .inactive →
      ((t.pool p).startTh < (t.pool p).availDesc → status = .activeUnpaused) →
      (s.vdevPool w = some p → status = .activeUnpaused → a = {}) →
      (s.vdevPool w = some p → status = .nonPrioPaused → a.PriorityOpen) →
      Flowing { t.modPool p (fun pool => { pool with status := status }) with
        queues := update t.queues w a } := by
    intro status a hactive hspare hclear hopened
    have hpool : (t.modPool p fun pool => { pool with status := status }).pool p =
        { t.pool p with status := status } := update_self ..
    apply h.told (w := w) hp _ hw hv (hm.imp_right fun hm => .inl hm.1)
    · rw [hpool]
      exact hactive
    · rw [hpool]
      exact hle
    · rw [hpool]
      exact hshort
    · rw [hpool]
      exact hspare
    · dsimp only
      rw [hpool, update_self]
      exact hclear
    · dsimp only
      rw [hpool, update_self]
      exact hopened
    · refine ⟨hr.list, by rw [hr.device]; rfl, by rw [hr.device]; rfl, ?_, ?_, ?_⟩
      · exact fun q hq => (update_of_ne hq ..).trans (hr.others q hq)
      · rw [hpool]
        exact hr.memberFlowId
      · intro v hne
        dsimp only
        rw [update_of_ne hne, hqueues]
  unfold updateQueueState
  dsimp only
  rw [hmember]
  split
  · exact hset .activeUnpaused _ (by decide) (fun _ => rfl)
      (fun hvw _ => Adapter.wakeAll_eq (hprio hvw)) fun _ hs => absurd hs (by decide)
  · next hfew =>
      split
      · have htwo : ∀ u : Pdev, (u.pauseCb w .stopNonPriorityQueue .dataFlowControl).pauseCb w
            .priorityQueueOn .dataFlowControl = { u with
              queues := update u.queues w (((u.queues w).queueControl
                .stopNonPriorityQueue .dataFlowControl).queueControl .priorityQueueOn
                .dataFlowControl) } := by
          intro u
          simp only [Pdev.pauseCb, update_self, update_idem]
        rw [htwo]
        exact hset .nonPrioPaused _ (by decide) (fun hlt => absurd hlt hfew)
          (fun _ hs => absurd hs (by decide))
          fun hvw _ => Adapter.stopNonPriority_priorityQueueOn_open (hprio hvw)
      · split
        · exact hset .activePaused _ (by decide) (fun hlt => absurd hlt hfew)
            (fun _ hs => absurd hs (by decide)) fun _ hs => absurd hs (by decide)
        · have hsame := hset (t.pool p).status (t.queues w) (by rw [hstatus]; exact hst.active)
            (fun hlt => absurd hlt hfew) ?_ ?_
          · simpa [Pdev.modPool] using hsame
          · rw [hstatus, hqueues]
            exact fun hvw hs => hst.clear hs w hvw
          · rw [hstatus, hqueues]
            exact fun hvw hs => hst.opened hs w hvw

theorem Shrunk.short (h : Shrunk cfg p size s t) :
    (t.pool p).deficientDesc = 0 ∨ (t.pool p).overflowDesc = 0 := by
  obtain ⟨hdef, hcases⟩ := h.books _ rfl
  rcases hcases with hc | hc | hc | hc <;> omega

theorem Grown.short (h : Grown cfg p size s t) :
    (t.pool p).deficientDesc = 0 ∨ (t.pool p).overflowDesc = 0 := by
  obtain ⟨hover, hsum⟩ := h.books _ rfl
  have hle := h.le
  omega

theorem resizePool_flowing (hs : Sound cfg s []) (h : Flowing s) (hp : p ∈ s.flowPoolList)
    (hsize : size < 2 ^ 16)
    (hc : (s.pool p).flowPoolSize ≠ size → (s.pool p).status ≠ .invalid ∧
      (s.vdevPool (s.pool p).memberFlowId = none ∨
        s.vdevPool (s.pool p).memberFlowId = some p ∧
          (s.queues (s.pool p).memberFlowId).flowControlPriority = false)) :
    Flowing (resizePool cfg p size s) := by
  unfold resizePool
  dsimp only
  split
  · exact h
  · next hne =>
      obtain ⟨hv, hm⟩ := hc hne
      split
      · have ht := shrink_spec cfg size hs hp
        exact updateQueueState_flowing h hp ht.kept ht.queues ht.status (ht.thresholds hsize) ht.short
          hv hm
      · have ht := grow_spec cfg size hs hp
        exact updateQueueState_flowing h hp ht.kept ht.queues ht.status (ht.thresholds hsize) ht.short
          hv hm

theorem modPool_refCnt_flowing (h : Flowing s) (p : ℕ) (f : ℤ → ℤ) :
    Flowing (s.modPool p fun pool => { pool with refCnt := f pool.refCnt }) := by
  refine ⟨h.lt, ?_⟩
  intro q hq
  refine (h.staged q hq).frame ?_ ?_ (fun _ => id) fun _ _ => le_rfl
  · rcases eq_or_ne q p with rfl | hne
    · rw [modPool_self]
      exact ⟨rfl, rfl, rfl, rfl, le_rfl, le_rfl⟩
    · rw [modPool_of_ne hne]
      exact .refl _
  · left
    rw [modPool_field FlowPool.availDesc]
    split_ifs with heq
    · rw [heq]
    · exact le_rfl

theorem resizeHandler_flowing {size : UInt16} (hs : Settled cfg s) (h : Flowing s)
    (hu : Heeded cfg s (.resize id size)) : Flowing (resizeHandler cfg id size s) := by
  rcases hid : getFlowPool s id with _ | p
  · unfold resizeHandler
    rw [hid]
    exact h
  · have hp := getFlowPool_mem hid
    have hc := hu p hid
    rw [resizeHandler_eq hs hid]
    apply modPool_refCnt_flowing _ p fun n => n - 1
    apply resizePool_flowing (incPoolRef_resized hs.sound p)
      (modPool_refCnt_flowing h p fun n => n + 1) hp size.toNat_lt
    unfold incPoolRef
    rw [modPool_self]
    exact hc

/-- Taking a descriptor may take the pool to the next stage, and tells the vdev that took it. -/
theorem Allocated.flowing (ha : Allocated cfg vdev p s t) (h : Flowing s)
    (hp : p ∈ s.flowPoolList) (hpos : 0 < (s.pool p).availDesc)
    (hc : (s.pool p).Stops → (s.pool p).memberFlowId = vdev ∧ s.vdevPool vdev = some p) :
    Flowing t := by
  obtain ⟨u, huq, hup, hqueues, hpool⟩ := ha.paused
  have hst := h.staged p hp
  have hle := hst.le
  have hmap : t.vdevPool = s.vdevPool := by rw [ha.device]
  have hlist : t.flowPoolList = s.flowPoolList := by rw [ha.device]
  have hfresh : t.fresh = s.fresh := by rw [ha.device]
  have hset : ∀ status action reason, (s.pool p).Stops → status ≠ .inactive →
      status ≠ .activeUnpaused → (s.pool p).status ≠ .invalid →
      t.queues = (u.pauseCb vdev action reason).queues →
      t.pool p = (u.modPool p fun pool => { pool with status := status }).pool p →
      (s.pool p).availDesc - 1 ≤ (s.pool p).startTh →
      (status = .nonPrioPaused → ((s.queues vdev).queueControl action reason).PriorityOpen) →
      Flowing t := by
    intro status action reason hstops hactive hnot hv htq htp hfew hopened
    obtain ⟨hmember, hm⟩ := hc hstops
    rw [modPool_self, hup] at htp
    change t.queues = update u.queues vdev _ at htq
    rw [huq] at htq
    apply h.told (w := vdev) hp _ hmember.symm hv (.inr (.inl hm))
    · rw [htp]
      exact hactive
    · rw [htp]
      exact hle
    · rw [htp]
      exact hst.short
    · rw [htp]
      exact fun hlt => absurd hlt (not_lt.mpr hfew)
    · rw [htp]
      exact fun _ hs => absurd hs hnot
    · rw [htp, htq, update_self]
      exact fun _ => hopened
    · refine ⟨hlist, hfresh, hmap, ha.others, by rw [htp], ?_⟩
      intro v hne
      rw [htq, update_of_ne hne]
  unfold pauseOnAlloc at hqueues hpool
  dsimp only at hqueues hpool
  rw [hup] at hqueues hpool
  split_ifs at hqueues hpool with hone htwo
  · have hstops : (s.pool p).Stops := ⟨hpos.ne', .inl hone⟩
    obtain ⟨hstop, _, hrun⟩ := hone
    dsimp only at hstop hrun
    apply hset .nonPrioPaused _ _ hstops (by decide) (by decide) (by rw [hrun]; decide) hqueues
      hpool (by omega)
    intro _
    rw [hst.clear hrun vdev (hc hstops).2]
    exact Adapter.stopNonPriority_open
  · have hstops : (s.pool p).Stops := ⟨hpos.ne', .inr htwo⟩
    obtain ⟨_, hrun⟩ := htwo
    dsimp only at hrun
    have hv : (s.pool p).status ≠ .invalid := by
      rw [hrun]
      decide
    apply hset .activePaused _ _ hstops (by decide) (by decide) hv hqueues hpool
    · by_contra hlt
      have hup := hst.spare hv (by omega)
      rw [hrun] at hup
      cases hup
    · exact fun hs => absurd hs (by decide)
  · rw [huq] at hqueues
    rw [hup] at hpool
    have hold : ∀ v q, t.vdevPool v = some q → s.vdevPool v = some q := fun v q hm => by
      rw [hmap] at hm
      exact hm
    refine h.of_others hlist hfresh (fun v q hm => h.lt v q (hold v q hm)) ha.others
      (fun v q _ => hold v q) (fun v _ _ _ => by rw [hqueues]) fun _ => hst.frame ?_ (.inl ?_)
        (fun v => hold v p) fun v _ => by rw [hqueues]
    · rw [hpool]
      exact ⟨rfl, rfl, rfl, rfl, le_rfl, le_rfl⟩
    · rw [hpool]
      exact Nat.sub_le ..

theorem descAlloc_flowing {mgmt : Bool} (hs : Settled cfg s) (h : Flowing s)
    (hu : Heeded cfg s (.alloc vdev mgmt)) (ht : descAlloc vdev mgmt s = some t) : Flowing t := by
  unfold descAlloc at ht
  split at ht
  · cases ht
    exact h
  · next p hfrom =>
      split at ht
      · next hp =>
          cases ht
          rcases allocFrom_spec vdev hs hp with ⟨_, heq⟩ | ⟨hpos, ha⟩
          · rw [heq]
            exact h
          · exact ha.flowing h hp hpos (hu p hfrom)
      · cases ht

theorem Returned.alike (h : Returned cfg p d s t) (q : ℕ) : Alike (s.pool q) (t.pool q) := by
  rcases eq_or_ne q p with rfl | hne
  · rcases h.books with ⟨_, _, hpool⟩ | ⟨_, _, hpool⟩
    · rw [hpool]
      exact ⟨rfl, rfl, rfl, rfl, le_rfl, le_rfl⟩
    · rw [hpool]
      exact ⟨rfl, rfl, rfl, rfl, Nat.sub_le .., le_rfl⟩
  · rw [h.others q hne]
    exact .refl _

/-- A descriptor that comes back takes the pool back by a stage if that is due. -/
theorem Returned.woken (hr : Returned cfg p d s t) (h : Flowing s) (hp : p ∈ s.flowPoolList)
    (hc : (s.pool p).status = .activePaused → (t.pool p).availDesc ≤ (s.pool p).startTh) :
    Flowing (wakeOnFree p t) := by
  have hst := h.staged p hp
  have ha := hr.alike p
  have hlist := hr.list
  have hfresh : t.fresh = s.fresh := by rw [hr.device]
  have hmap : t.vdevPool = s.vdevPool := by rw [hr.device]
  have hqueues : t.queues = s.queues := by rw [hr.device]
  obtain ⟨w, hw⟩ : ∃ w, w = (s.pool p).memberFlowId := ⟨_, rfl⟩
  have hmember := ha.memberFlowId
  rw [← hw] at hmember
  have hle := ha.overflowDesc
  have hle' := ha.deficientDesc
  have hth : (t.pool p).stopTh ≤ (t.pool p).startTh := by
    rw [ha.stopTh, ha.startTh]
    exact hst.le
  have hshort : (t.pool p).deficientDesc = 0 ∨ (t.pool p).overflowDesc = 0 := by
    have := hst.short
    omega
  have hset : ∀ status action reason, status ≠ .inactive → (s.pool p).status ≠ .invalid →
      (t.queues w).queueControl action reason ≤ t.queues w →
      ((t.pool p).startTh < (t.pool p).availDesc → status = .activeUnpaused) →
      (s.vdevPool w = some p → status = .activeUnpaused →
        (t.queues w).queueControl action reason = {}) →
      (s.vdevPool w = some p → status = .nonPrioPaused →
        ((t.queues w).queueControl action reason).PriorityOpen) →
      Flowing ((t.pauseCb w action reason).modPool p fun pool =>
        { pool with status := status }) := by
    intro status action reason hactive hv hless hspare hclear hopened
    have hpool : ((t.pauseCb w action reason).modPool p fun pool =>
        { pool with status := status }).pool p = { t.pool p with status := status } :=
      update_self ..
    have hself : ((t.pauseCb w action reason).modPool p fun pool =>
        { pool with status := status }).queues w = (t.queues w).queueControl action reason :=
      update_self ..
    apply h.told (w := w) hp _ hw hv (.inr (.inr (by rw [hself, ← hqueues]; exact hless)))
    · rw [hpool]
      exact hactive
    · rw [hpool]
      exact hth
    · rw [hpool]
      exact hshort
    · rw [hpool]
      exact hspare
    · rw [hpool, hself]
      exact hclear
    · rw [hpool, hself]
      exact hopened
    · refine ⟨hlist, hfresh, hmap, ?_, ?_, ?_⟩
      · exact fun q hq => (modPool_of_ne hq ..).trans (hr.others q hq)
      · rw [hpool]
        exact ha.memberFlowId
      · intro v hne
        refine (update_of_ne hne ..).trans ?_
        rw [hqueues]
  have hsame : ((s.pool p).status ≠ .invalid → (t.pool p).startTh < (t.pool p).availDesc →
      (s.pool p).status = .activeUnpaused) → Flowing t := by
    intro hspare
    refine h.of_others hlist hfresh ?_ hr.others ?_ ?_ ?_
    · rw [hmap]
      exact h.lt
    · rw [hmap]
      exact fun _ _ _ => id
    · exact fun v _ _ _ => by rw [hqueues]
    · intro _
      refine ⟨by rw [ha.status]; exact hst.active, hth, hshort, ?_, ?_, ?_, ?_⟩
      · rw [ha.status]
        exact hspare
      · rw [ha.status, hmap, hqueues]
        exact hst.clear
      · rw [ha.status, hmap, hqueues]
        exact hst.opened
      · rw [ha.status, ha.memberFlowId, hmap, hqueues]
        exact hst.member
  have hstatus := ha.status
  have hstart := ha.startTh
  unfold wakeOnFree
  dsimp only
  rw [hmember]
  split
  · next hpaused =>
      have hs := hstatus.symm.trans hpaused
      have hfew := hc hs
      rw [← hstart] at hfew
      split
      · exact hset .nonPrioPaused _ _ (by decide) (by rw [hs]; decide)
          (Adapter.priorityQueueOn_le ..) (fun hlt => absurd hlt (not_lt.mpr hfew))
          (fun _ hu => absurd hu (by decide)) fun _ _ => Adapter.priorityQueueOn_open _
      · exact hsame fun _ hlt => absurd hlt (not_lt.mpr hfew)
  · next hpaused =>
      have hs := hstatus.symm.trans hpaused
      split
      · apply hset .activeUnpaused _ _ (by decide) (by rw [hs]; decide)
          (Adapter.wakeNonPriority_le ..) (fun _ => rfl) _ fun _ hu => absurd hu (by decide)
        intro hm _
        have hopen := hst.opened hs w hm
        rw [← hqueues] at hopen
        exact Adapter.wakeNonPriority_eq hopen
      · next hfew => exact hsame fun _ hlt => absurd hlt hfew
  · next hnot hnot' =>
      apply hsame
      intro hv _
      rw [hstatus] at hnot hnot'
      have hactive := hst.active
      rcases hcase : (s.pool p).status with _ | _ | _ | _ | _
      · rfl
      · exact absurd hcase hnot
      · exact absurd hcase hnot'
      · exact absurd hcase hv
      · exact absurd hcase hactive

theorem wakeOnFree_frame (hs : Settled cfg s) (p : ℕ) (hq : q ≠ p) (h : Ready s q) :
    Ready (wakeOnFree p s) q := by
  obtain ⟨_, hdev, hothers, _⟩ := wakeOnFree_spec hs p
  have hmap : (wakeOnFree p s).vdevPool = s.vdevPool := by rw [hdev]
  apply h.frame (.of_eq (hothers q hq)) (fun v => hmap ▸ id)
  intro v
  unfold wakeOnFree
  dsimp only
  split
  · split
    · exact queues_update_le (Adapter.priorityQueueOn_le ..) v
    · exact le_rfl
  · split
    · exact queues_update_le (Adapter.wakeNonPriority_le ..) v
    · exact le_rfl
  · exact le_rfl

theorem descFree_flowing (hs : Settled cfg s) (h : Flowing s) (hu : Heeded cfg s (.free d))
    (ht : descFree d s = some t) : Flowing t := by
  obtain ⟨p, u, hp, _, howner, hr, rfl⟩ := descFree_spec hs ht
  obtain ⟨hfew, hready⟩ := hu p howner
  have hst := h.staged p hp
  have hlist := hr.list
  have hup : p ∈ u.flowPoolList := by
    rw [hlist]
    exact hp
  have hmap : u.vdevPool = s.vdevPool := by rw [hr.device]
  have hqueues : u.queues = s.queues := by rw [hr.device]
  have hreadyu : (∀ q ∈ s.flowPoolList, Ready s q) → ∀ q ∈ u.flowPoolList, Ready u q := by
    intro hall q hq
    rw [hlist] at hq
    exact (hall q hq).frame (hr.alike q) (fun v => hmap ▸ id)
      fun v => by rw [hqueues]
  have hwoken : Flowing (wakeOnFree p u) := by
    apply hr.woken h hp
    intro hpaused
    rcases hr.books with ⟨hover, _, hpool⟩ | ⟨_, _, hpool⟩
    · rw [hpool]
      exact hfew hover hpaused
    · rw [hpool]
      by_contra hlt
      have hup := hst.spare (by rw [hpaused]; decide) (not_le.mp hlt)
      rw [hpaused] at hup
      cases hup
  unfold freeByStatus
  split
  · next hcomplete =>
      obtain ⟨hinv, hfull⟩ := hcomplete
      obtain ⟨_, _, _, _, hnone, _⟩ := wakeOnFree_spec hr.settled p
      rw [hnone hinv] at hwoken
      refine (freeInvalidFlowPool_orderly hr.settled hup ⟨hwoken, hreadyu (hready ?_)⟩).1
      rcases hr.books with ⟨_, _, hpool⟩ | ⟨hover, _, _⟩
      · rw [hpool] at hinv hfull
        exact .inr ⟨hinv, hfull⟩
      · exact .inl hover
  · split
    · next hflag =>
        have hover : (s.pool p).overflowDesc ≠ 0 := by simpa using hflag
        obtain ⟨hset, hdev, _, hpool, _⟩ := wakeOnFree_spec hr.settled p
        refine (serve_orderly hset ⟨hwoken, ?_⟩).1
        intro q hq
        rcases eq_or_ne q p with rfl | hne
        -- A pool that has too many descriptors is not short.
        · intro hdef
          have hle := (hr.alike q).deficientDesc
          have := hst.short
          rw [hpool] at hdef
          dsimp only at hdef
          omega
        · rw [hdev] at hq
          exact wakeOnFree_frame hr.settled p hne (hreadyu (hready (.inl hover)) q hq)
    · exact hwoken

theorem next_flowing {e : Event} (hs : Settled cfg s) (h : Flowing s) (hu : Heeded cfg s e)
    (ht : next cfg s e = some t) : Flowing t := by
  cases e with
  | map flowId flowType id size mem =>
    cases ht
    exact mapHandler_flowing hs h hu
  | unmap flowId flowType id =>
    cases ht
    exact unmapHandler_flowing hs h hu
  | resize id size =>
    cases ht
    exact resizeHandler_flowing hs h hu
  | alloc vdev mgmt => exact descAlloc_flowing hs h hu ht
  | free d => exact descFree_flowing hs h hu ht

theorem start_flowing (cfg : Cfg) : Flowing (start cfg) := by
  have hattach : Flowing (attach cfg) := by
    constructor
    · intro v p hm
      cases hm
    · intro p hp
      cases hp
  unfold start
  split
  · exact hattach
  · have hc := (createFlowPool_spec (attach_settled cfg) mgmtPoolId mgmtPoolSize).2
    have hf := hc.flowing (attach_settled cfg) hattach (by decide)
    refine ⟨hf.lt, ?_⟩
    intro p hp
    have hst := hf.staged p hp
    exact ⟨hst.active, hst.le, hst.short, hst.spare, hst.clear, hst.opened, hst.member⟩

/-- In every run whose steps are heeded no pool stays paused with descriptors to spare, and nothing
stays stopped at its vdevs. -/
theorem heeded_served (cfg : Cfg) (es : List Event) (t : Pdev)
    (hm : (machine cfg).Meets (fun o e => ∀ s, o = some s → Heeded cfg s e) (some (start cfg)) es)
    (ht : ((machine cfg).run (some (start cfg)) es).1 = some t) : Served t :=
  (run_rule (I := Flowing) (start_flowing cfg)
    (fun _ _ _ hs h hu ht => next_flowing hs h hu ht) hm ht).2.served

instance (cfg : Cfg) (s : Pdev) (e : Event) : Decidable (Heeded cfg s e) := by
  rcases e with _ | _ | _ | _ | _ <;> unfold Heeded <;> infer_instance

def eightDesc : Cfg where
  numDesc := 8
  stopQueueTh := 50
  startQueueOffset := 30
  mgmtOverWmi := true
  vdev v := v < 4

def pauseRun : List Event :=
  [.map 0 0 1 4 true, .alloc 0 false, .alloc 0 false, .alloc 0 false, .alloc 0 false,
    .free 3, .free 2, .free 1, .free 0]

theorem heeded_served_pauseRun : ∃ t,
    ((machine eightDesc).run (some (start eightDesc)) pauseRun).1 = some t ∧ Served t := by
  refine ⟨_, rfl, heeded_served eightDesc pauseRun _ ?_ rfl⟩
  have hm : (machine eightDesc).Meets (fun o e => ∀ s ∈ o, Heeded eightDesc s e)
      (some (start eightDesc)) pauseRun := by decide
  exact hm

/-- The second pool is in the first stage when the device gives it what the first pool had, and
stays in it. -/
theorem not_served : ¬ ∀ es t, ((machine eightDesc).run (some (start eightDesc)) es).1 = some t →
    Served t := by
  intro h
  have hs := h [.map 0 0 1 4 true, .map 1 0 2 8 true, .alloc 1 false, .unmap 0 0 1] _ rfl 1
    (by decide) (by decide) (by decide)
  exact absurd hs.1 (by decide)

end KernelModules.TxFlow
