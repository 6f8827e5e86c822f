import KernelModules.TxFlowRelease

/-!
# The steps of the tx flow pools

What each message and each call does to the books of the pools, and that after each of them the
device is settled again.
-/

namespace KernelModules.TxFlow

open Function

variable {cfg : Cfg} {s t : Pdev} {p q d n size : ℕ}

variable {I : Pdev → Prop} {id : UInt8}

theorem freeInvalidFlowPool_rule
    (hgrant : ∀ s, Settled cfg s → I s → I (grantAll s).1)
    (hdrop : ∀ s, Settled cfg s → I s → ∀ p ∈ s.flowPoolList, (s.pool p).status = .invalid →
      I (dropPool p (emptied p s)))
    (h : Settled cfg s) (hi : I s) (hp : p ∈ s.flowPoolList) :
    Settled cfg (freeInvalidFlowPool p s) ∧ I (freeInvalidFlowPool p s) :=
  freeInvalidFuel_rule hgrant hdrop _ h hi hp

theorem serve_rule
    (hgrant : ∀ s, Settled cfg s → I s → I (grantAll s).1)
    (hdrop : ∀ s, Settled cfg s → I s → ∀ p ∈ s.flowPoolList, (s.pool p).status = .invalid →
      I (dropPool p (emptied p s)))
    (h : Settled cfg s) (hi : I s) :
    Settled cfg (distributeFromGlobal freeInvalidFlowPool s) ∧
      I (distributeFromGlobal freeInvalidFlowPool s) :=
  distributeFromGlobal_rule hgrant
    (fun _ ht hit _ hq => freeInvalidFlowPool_rule hgrant hdrop ht hit hq) h hi

theorem serve_settled (h : Settled cfg s) :
    Settled cfg (distributeFromGlobal freeInvalidFlowPool s) :=
  (serve_rule (I := fun _ => True) (fun _ _ _ => trivial) (fun _ _ _ _ _ _ => trivial) h
    trivial).1

theorem serve_eq_self (f : ℕ → Pdev → Pdev)
    (h : s.numFree = 0 ∨ ∀ p ∈ s.flowPoolList, (s.pool p).deficientDesc = 0) :
    distributeFromGlobal f s = s := by
  rw [distributeFromGlobal_eq, grantAll_eq_self h]

theorem freeInvalidFlowPool_settled (h : Settled cfg s) (hp : p ∈ s.flowPoolList) :
    Settled cfg (freeInvalidFlowPool p s) :=
  (freeInvalidFlowPool_rule (I := fun _ => True) (fun _ _ _ => trivial)
    (fun _ _ _ _ _ _ => trivial) h trivial hp).1

theorem decPoolRef_eq (h : Settled cfg s) (hp : p ∈ s.flowPoolList) :
    decPoolRef p s = distributeFromGlobal freeInvalidFlowPool (dropPool p s) :=
  decPoolRefWith_eq _ (h.ref p hp)

theorem dropPool_settled (h : Settled cfg s) (hp : p ∈ s.flowPoolList) :
    Settled cfg (dropPool p s) := (dropPool_cases h.sound hp).settled h hp

theorem decPoolRef_settled (h : Settled cfg s) (hp : p ∈ s.flowPoolList) :
    Settled cfg (decPoolRef p s) := by
  rw [decPoolRef_eq h hp]
  exact serve_settled (dropPool_settled h hp)

theorem getFlowPool_mem (h : getFlowPool s id = some p) : p ∈ s.flowPoolList :=
  List.mem_of_find?_eq_some h

theorem vdevMap_settled (h : Settled cfg s) (p : ℕ) (vdev : UInt8) :
    Settled cfg (vdevMap cfg p vdev s) := by
  unfold vdevMap
  split
  · have hs := h.sound.modPool (p := p) (f := fun pool => { pool with memberFlowId := vdev })
      rfl rfl
    refine ⟨⟨hs.nodup, hs.lt, hs.numFree, hs.avail, hs.place, hs.owner, hs.user⟩, ?_⟩
    intro q hq
    simp only [modPool_field FlowPool.refCnt]
    split_ifs with heq
    · exact heq ▸ h.ref q hq
    · exact h.ref q hq
  · exact h

theorem vdevUnmap_settled (h : Settled cfg s) (p : ℕ) (vdev : UInt8) :
    Settled cfg (vdevUnmap cfg p vdev s) := by
  unfold vdevUnmap
  split
  · have hs := h.sound.modPool (p := p)
      (f := fun pool => { pool with memberFlowId := invalidFlowId }) rfl rfl
    refine ⟨⟨hs.nodup, hs.lt, hs.numFree, hs.avail, hs.place, hs.owner, hs.user⟩, ?_⟩
    intro q hq
    simp only [modPool_field FlowPool.refCnt]
    split_ifs with heq
    · exact heq ▸ h.ref q hq
    · exact h.ref q hq
  · exact h

theorem Settled.pauseCb (h : Settled cfg s) (flow : UInt8) (action : NetifAction)
    (reason : NetifReason) : Settled cfg (s.pauseCb flow action reason) :=
  ⟨h.sound.pauseCb flow action reason, h.ref⟩

theorem vdevUnmap_list (p : ℕ) (vdev : UInt8) (s : Pdev) :
    (vdevUnmap cfg p vdev s).flowPoolList = s.flowPoolList := by
  unfold vdevUnmap
  split <;> rfl

theorem setSize_le (cfg : Cfg) (hsize : size < 2 ^ 16) (pool : FlowPool) :
    (pool.setSize cfg size).stopTh ≤ (pool.setSize cfg size).startTh := by
  have hstop := cfg.stopQueueTh_le
  have hoffset := cfg.startQueueOffset_le
  have hmul : cfg.stopQueueTh * size ≤ (cfg.stopQueueTh + cfg.startQueueOffset) * size :=
    Nat.mul_le_mul_right size (Nat.le_add_right ..)
  have hmax : (cfg.stopQueueTh + cfg.startQueueOffset) * size ≤ 80 * size :=
    Nat.mul_le_mul_right size (by omega)
  have hmod : ∀ a, a ≤ 80 * size → u16 (u32 a / 100) = a / 100 := by
    intro a ha
    unfold u16 u32
    omega
  unfold FlowPool.setSize
  rw [hmod _ hmax, hmod _ (hmul.trans hmax)]
  exact Nat.div_le_div_right hmul

theorem update_le (cfg : Cfg) (hsize : size < 2 ^ 16) (deficientCount overflowCount : ℕ)
    (pool : FlowPool) :
    (pool.update cfg size deficientCount overflowCount).stopTh ≤
      (pool.update cfg size deficientCount overflowCount).startTh := setSize_le cfg hsize pool

/-- A new pool takes what is free, as far as its size goes. -/
structure Created (cfg : Cfg) (size : ℕ) (s t : Pdev) : Prop where
  settled : Settled cfg t
  list : t.flowPoolList = s.flowPoolList ++ [s.fresh]
  pool : ∀ q ≠ s.fresh, t.pool q = s.pool q
  inUse : t.inUse = s.inUse
  handedOut : ∀ q, out t q = out s q
  ownOut : out t s.fresh = 0
  avail : (t.pool s.fresh).availDesc + (t.pool s.fresh).deficientDesc = size
  full : size ≤ s.numFree → (t.pool s.fresh).deficientDesc = 0
  overflow : (t.pool s.fresh).overflowDesc = 0
  thresholds : size < 2 ^ 16 → (t.pool s.fresh).stopTh ≤ (t.pool s.fresh).startTh
  size : (t.pool s.fresh).flowPoolSize = size
  status : (t.pool s.fresh).status = .activeUnpaused
  numFree : t.numFree + (t.pool s.fresh).availDesc = s.numFree
  rest : t.vdevPool = s.vdevPool ∧ t.queues = s.queues ∧ t.freed = s.freed ∧
    t.numInvalidBin = s.numInvalidBin ∧ t.fresh = s.fresh + 1

theorem createFlowPool_spec (h : Settled cfg s) (id : UInt8) (size : ℕ) :
    (createFlowPool cfg s id size).2 = s.fresh ∧
      Created cfg size s (createFlowPool cfg s id size).1 := by
  have hsound := h.sound
  obtain ⟨n, hn⟩ : ∃ n, n = if size ≤ s.numFree then size else s.numFree := ⟨_, rfl⟩
  have hle : n ≤ size ∧ n ≤ s.numFree := by split at hn <;> omega
  have hlen : n ≤ s.freelist.length := by
    have := hsound.numFree
    omega
  have htake := hsound.takeGlobal n
  have hcount : ((s.freelist.take n).reverse).length = n := by
    simp only [List.length_reverse, List.length_take]
    omega
  unfold createFlowPool
  dsimp only
  rw [← hn, takeGlobalPool_eq n s [] hlen]
  simp only [List.append_nil] at htake ⊢
  generalize (s.freelist.take n).reverse = ds at htake hcount ⊢
  have hfresh : s.fresh ∉ s.flowPoolList := fun hmem => lt_irrefl _ (hsound.lt _ hmem)
  have hne : ∀ q ∈ s.flowPoolList, q ≠ s.fresh := fun q hq heq => hfresh (heq ▸ hq)
  have hnot : ∀ d ∈ s.inUse, d ∉ ds := fun d hd hmem => htake.not_mem_inUse hmem hd
  have hout : ∀ q, (s.inUse.countP fun d => (if d ∈ ds then some s.fresh else s.descPool d) =
      some q) = out s q := by
    intro q
    apply List.countP_congr
    intro d hd
    rw [if_neg (hnot d hd)]
  have hzero : out s s.fresh = 0 := by
    apply List.countP_eq_zero.mpr
    intro d hd
    obtain ⟨q, hq, hlt⟩ := hsound.user d hd
    rw [hq]
    simp only [decide_eq_true_eq, Option.some.injEq]
    omega
  refine ⟨trivial, ⟨⟨?_, ?_, ?_, ?_, ?_, ?_, ?_⟩, ?_⟩, rfl, fun q hq => update_of_ne hq ..,
    rfl, hout, (hout _).trans hzero, ?_, ?_, ?_, ?_, ?_, ?_, ?_, rfl, rfl, rfl, rfl, rfl⟩
  · apply List.nodup_append.mpr
    refine ⟨hsound.nodup, List.nodup_singleton _, ?_⟩
    intro a ha b hb
    rw [List.mem_singleton.mp hb]
    exact hne a ha
  · intro q hq
    rcases List.mem_append.mp hq with hq | hq
    · exact Nat.lt_succ_of_lt (hsound.lt q hq)
    · rw [List.mem_singleton.mp hq]
      exact Nat.lt_succ_self _
  · simp only [own, List.length_drop, hsound.numFree]
  · intro q hq
    rcases List.mem_append.mp hq with hq | hq
    · simp only [update_of_ne (hne q hq), own]
      exact hsound.avail q hq
    · rw [List.mem_singleton.mp hq]
      simp only [update_self, hcount]
  · intro d
    have htotal : Ledger.total (fun q => ((update s.pool s.fresh
        { FlowPool.setSize cfg size { flowPoolId := id, refCnt := 1 } with
          freelist := ds, availDesc := n, deficientDesc := size - n } q).freelist.count d))
        s.flowPoolList = Ledger.total (fun q => (s.pool q).freelist.count d) s.flowPoolList :=
      Ledger.total_congr fun q hq => by rw [update_of_ne (hne q hq)]
    have hplace := htake.place d
    rw [← hplace]
    simp only [places, own, Ledger.total_concat, update_self, htotal, List.count_nil]
    omega
  · intro q hq d hd
    rcases List.mem_append.mp hq with hq | hq
    · simp only [update_of_ne (hne q hq), own] at hd ⊢
      rw [if_neg fun hmem => htake.not_mem_freelist hq hmem hd]
      exact hsound.owner q hq d hd
    · rw [List.mem_singleton.mp hq] at hd ⊢
      simp only [update_self] at hd
      simp only [own, if_pos hd]
  · intro d hd
    simp only [own, if_neg (hnot d hd)]
    obtain ⟨q, hq, hlt⟩ := hsound.user d hd
    exact ⟨q, hq, Nat.lt_succ_of_lt hlt⟩
  · intro q hq
    rcases List.mem_append.mp hq with hq | hq
    · simp only [update_of_ne (hne q hq), own]
      exact h.ref q hq
    · rw [List.mem_singleton.mp hq]
      simp only [update_self, FlowPool.setSize]
  · simp only [update_self]
    omega
  · intro hfull
    rw [if_pos hfull] at hn
    simp only [update_self]
    omega
  · simp only [update_self, FlowPool.setSize]
  · intro hsize
    simp only [update_self]
    exact setSize_le cfg hsize { flowPoolId := id, refCnt := 1 }
  · simp only [update_self, FlowPool.setSize]
  · simp only [update_self, FlowPool.setSize]
  · simp only [update_self, own]
    omega

structure Resized (p : ℕ) (s t : Pdev) : Prop where
  device : t = { s with
    numFree := t.numFree
    freelist := t.freelist
    pool := t.pool
    descPool := t.descPool
    queues := t.queues }
  others : ∀ q ≠ p, t.pool q = s.pool q
  owner : ∀ d ∈ s.inUse, t.descPool d = s.descPool d
  flowPoolId : (t.pool p).flowPoolId = (s.pool p).flowPoolId
  memberFlowId : (t.pool p).memberFlowId = (s.pool p).memberFlowId
  refCnt : (t.pool p).refCnt = (s.pool p).refCnt

namespace Resized

theorem refl (p : ℕ) (s : Pdev) : Resized p s s :=
  ⟨rfl, fun _ _ => rfl, fun _ _ => rfl, rfl, rfl, rfl⟩

theorem list (h : Resized p s t) : t.flowPoolList = s.flowPoolList := by rw [h.device]

theorem inUse (h : Resized p s t) : t.inUse = s.inUse := by rw [h.device]

theorem trans {u : Pdev} (h : Resized p s t) (h' : Resized p t u) : Resized p s u := by
  refine ⟨?_, ?_, ?_, ?_, ?_, ?_⟩
  · have hd := h'.device
    rw [h.device] at hd
    exact hd
  · intro q hq
    rw [h'.others q hq, h.others q hq]
  · intro d hd
    rw [h'.owner d (by rw [h.inUse]; exact hd), h.owner d hd]
  · rw [h'.flowPoolId, h.flowPoolId]
  · rw [h'.memberFlowId, h.memberFlowId]
  · rw [h'.refCnt, h.refCnt]

theorem out (h : Resized p s t) (q : ℕ) : out t q = out s q := by
  unfold TxFlow.out
  rw [h.inUse]
  apply List.countP_congr
  intro d hd
  rw [h.owner d hd]

theorem modPool (p : ℕ) (s : Pdev) {f : FlowPool → FlowPool}
    (hid : (f (s.pool p)).flowPoolId = (s.pool p).flowPoolId)
    (hmember : (f (s.pool p)).memberFlowId = (s.pool p).memberFlowId)
    (href : (f (s.pool p)).refCnt = (s.pool p).refCnt) : Resized p s (s.modPool p f) := by
  refine ⟨rfl, fun q hq => modPool_of_ne hq s f, fun _ _ => rfl, ?_, ?_, ?_⟩
  · rw [modPool_self, hid]
  · rw [modPool_self, hmember]
  · rw [modPool_self, href]

theorem pauseCb (p : ℕ) (s : Pdev) (flow : UInt8) (action : NetifAction)
    (reason : NetifReason) : Resized p s (s.pauseCb flow action reason) :=
  ⟨rfl, fun _ _ => rfl, fun _ _ => rfl, rfl, rfl, rfl⟩

end Resized

/-- What a reduction does to the books, by how many descriptors the pool has to give up. -/
structure Shrunk (cfg : Cfg) (p size : ℕ) (s t : Pdev) : Prop where
  sound : Sound cfg t []
  kept : Resized p s t
  queues : t.queues = s.queues
  status : (t.pool p).status = (s.pool p).status
  newSize : (t.pool p).flowPoolSize = size
  thresholds : size < 2 ^ 16 → (t.pool p).stopTh ≤ (t.pool p).startTh
  numFree : t.numFree + (t.pool p).availDesc = s.numFree + (s.pool p).availDesc
  books : ∀ diff, diff = u16 ((s.pool p).flowPoolSize - size + (s.pool p).overflowDesc) →
    (t.pool p).deficientDesc = (s.pool p).deficientDesc - diff ∧
    (diff ≤ (s.pool p).deficientDesc ∧ (t.pool p).availDesc = (s.pool p).availDesc ∧
        (t.pool p).overflowDesc = 0 ∨
      (s.pool p).deficientDesc < diff ∧
        diff - (s.pool p).deficientDesc + (s.pool p).startPriorityTh ≤ (s.pool p).availDesc ∧
        (t.pool p).availDesc + (diff - (s.pool p).deficientDesc) = (s.pool p).availDesc ∧
        (t.pool p).overflowDesc = 0 ∨
      (s.pool p).deficientDesc < diff ∧ (s.pool p).startPriorityTh < (s.pool p).availDesc ∧
        (t.pool p).availDesc = (s.pool p).startPriorityTh ∧
        (t.pool p).overflowDesc + ((s.pool p).availDesc - (s.pool p).startPriorityTh) =
          diff - (s.pool p).deficientDesc ∨
      (s.pool p).deficientDesc < diff ∧ (s.pool p).availDesc ≤ (s.pool p).startPriorityTh ∧
        (t.pool p).availDesc = (s.pool p).availDesc ∧ (t.pool p).overflowDesc = 0)

/-- A pool gives `m` descriptors to the device and is changed by `g`, which is not about its free
list. -/
structure GivenBack (cfg : Cfg) (p m : ℕ) (g : FlowPool → FlowPool) (s t : Pdev) : Prop where
  sound : Sound cfg t []
  device : t = { s with
    numFree := s.numFree + m
    freelist := t.freelist
    pool := t.pool }
  others : ∀ q ≠ p, t.pool q = s.pool q
  pool : t.pool p = g { s.pool p with
    freelist := (s.pool p).freelist.drop m, availDesc := (s.pool p).availDesc - m }

theorem giveBack_spec (h : Sound cfg s []) (hp : p ∈ s.flowPoolList) {m : ℕ}
    (hm : m ≤ (s.pool p).availDesc) {g : FlowPool → FlowPool}
    (hfree : ∀ pool, (g pool).freelist = pool.freelist)
    (havail : ∀ pool, (g pool).availDesc = pool.availDesc) :
    GivenBack cfg p m g s
      ((takeFlowPool p m s []).2.foldl putDescGlobalPool
        ((takeFlowPool p m s []).1.modPool p g)) := by
  have hlen := h.avail p hp
  have hsize : ((s.pool p).freelist.take m).reverse.length = m := by
    simp only [List.length_reverse, List.length_take]
    omega
  have htake := h.takeFlow hp m
  have hput := (htake.modPool (p := p) (f := g) (hfree _) (havail _)).putGlobal
  rw [takeFlowPool_eq p m s [] (by omega)]
  rw [List.append_nil, putGlobalPool_eq]
  refine ⟨hput, ?_, ?_, ?_⟩
  · rw [hsize]
    rfl
  · intro q hq
    rw [modPool_of_ne hq, modPool_of_ne hq]
  · rw [modPool_self, modPool_self]

theorem shrink_spec (cfg : Cfg) (size : ℕ) (h : Sound cfg s []) (hp : p ∈ s.flowPoolList) :
    Shrunk cfg p size s (shrink cfg p size s) := by
  obtain ⟨diff, hdiff⟩ : ∃ diff,
      diff = u16 ((s.pool p).flowPoolSize - size + (s.pool p).overflowDesc) := ⟨_, rfl⟩
  obtain ⟨d, hd⟩ : ∃ d, d = diff - min (s.pool p).deficientDesc diff := ⟨_, rfl⟩
  obtain ⟨m, hm⟩ : ∃ m, m =
      if d = 0 then 0
      else if d + (s.pool p).startPriorityTh ≤ (s.pool p).availDesc then d
      else if (s.pool p).startPriorityTh < (s.pool p).availDesc then
        (s.pool p).availDesc - (s.pool p).startPriorityTh
      else 0 := ⟨_, rfl⟩
  obtain ⟨o, ho⟩ : ∃ o, o =
      if d = 0 then 0
      else if d + (s.pool p).startPriorityTh ≤ (s.pool p).availDesc then 0
      else if (s.pool p).startPriorityTh < (s.pool p).availDesc then d - m
      else 0 := ⟨_, rfl⟩
  have hle : m ≤ (s.pool p).availDesc := by split_ifs at hm <;> omega
  obtain ⟨s₁, hs₁⟩ : ∃ s₁, s₁ = s.modPool p fun pool =>
      { pool with
        overflowDesc := 0
        deficientDesc := pool.deficientDesc - min (s.pool p).deficientDesc diff } := ⟨_, rfl⟩
  have hshrink : shrink cfg p size s = (takeFlowPool p m s₁ []).2.foldl putDescGlobalPool
      ((takeFlowPool p m s₁ []).1.modPool p (FlowPool.update cfg size 0 o)) := by
    unfold shrink
    dsimp only
    rw [← hdiff, ← hd, ← hm, ← ho, ← hs₁]
  have hsound₁ : Sound cfg s₁ [] := by
    rw [hs₁]
    exact h.modPool rfl rfl
  have hp₁ : s₁.pool p = { s.pool p with
      overflowDesc := 0
      deficientDesc := (s.pool p).deficientDesc - min (s.pool p).deficientDesc diff } := by
    rw [hs₁, modPool_self]
  have hkept₁ : Resized p s s₁ := by
    rw [hs₁]
    exact .modPool p s rfl rfl rfl
  have hlist₁ : p ∈ s₁.flowPoolList := by
    rw [hkept₁.list]
    exact hp
  have hfree₁ : s₁.numFree = s.numFree ∧ s₁.queues = s.queues := by
    rw [hs₁]
    exact ⟨rfl, rfl⟩
  have hgiven := giveBack_spec (m := m) (g := FlowPool.update cfg size 0 o) hsound₁ hlist₁
    (by rw [hp₁]; exact hle) (fun _ => rfl) (fun _ => rfl)
  rw [hshrink]
  generalize (takeFlowPool p m s₁ []).2.foldl putDescGlobalPool
    ((takeFlowPool p m s₁ []).1.modPool p (FlowPool.update cfg size 0 o)) = t at hgiven ⊢
  have hpool := hgiven.pool
  rw [hp₁] at hpool
  constructor
  · exact hgiven.sound
  · refine hkept₁.trans ⟨?_, hgiven.others, ?_, ?_, ?_, ?_⟩
    · rw [hgiven.device]
    · intro d _
      rw [hgiven.device]
    · rw [hpool, hp₁]
      rfl
    · rw [hpool, hp₁]
      rfl
    · rw [hpool, hp₁]
      rfl
  · rw [hgiven.device, hfree₁.2]
  · rw [hpool]
    rfl
  · rw [hpool]
    rfl
  · rw [hpool]
    exact fun hsize => update_le cfg hsize ..
  · rw [hpool, hgiven.device, hfree₁.1]
    simp only [FlowPool.update, FlowPool.setSize]
    omega
  · intro diff' hdiff'
    rw [← hdiff] at hdiff'
    subst hdiff'
    rw [hpool]
    simp only [FlowPool.update, FlowPool.setSize, if_true]
    refine ⟨by omega, ?_⟩
    clear hgiven hpool hkept₁ hsound₁ hshrink
    have hoverflow : (if o = 0 then 0 else o) = o := by
      split_ifs with hnil
      · exact hnil.symm
      · rfl
    rw [hoverflow]
    -- Whether the deficiency takes it all, and if not, how far above the priority line the pool is.
    by_cases hnone : diff' ≤ (s.pool p).deficientDesc
    · have hzero : d = 0 := by omega
      rw [if_pos hzero] at hm ho
      exact .inl ⟨hnone, by omega, ho⟩
    · have hrest : d = diff' - (s.pool p).deficientDesc := by omega
      have hsome : d ≠ 0 := by omega
      rw [if_neg hsome] at hm ho
      by_cases hroom : d + (s.pool p).startPriorityTh ≤ (s.pool p).availDesc
      · rw [if_pos hroom] at hm ho
        exact .inr (.inl ⟨by omega, by omega, by omega, ho⟩)
      · rw [if_neg hroom] at hm ho
        by_cases hline : (s.pool p).startPriorityTh < (s.pool p).availDesc
        · rw [if_pos hline] at hm ho
          exact .inr (.inr (.inl ⟨by omega, hline, by omega, by omega⟩))
        · rw [if_neg hline] at hm ho
          exact .inr (.inr (.inr ⟨by omega, by omega, by omega, ho⟩))

structure Grown (cfg : Cfg) (p size : ℕ) (s t : Pdev) : Prop where
  sound : Sound cfg t []
  kept : Resized p s t
  queues : t.queues = s.queues
  status : (t.pool p).status = (s.pool p).status
  newSize : (t.pool p).flowPoolSize = size
  thresholds : size < 2 ^ 16 → (t.pool p).stopTh ≤ (t.pool p).startTh
  le : (s.pool p).availDesc ≤ (t.pool p).availDesc
  books : ∀ diff, diff = u16 (size - (s.pool p).flowPoolSize + (s.pool p).deficientDesc) →
    (t.pool p).overflowDesc = (s.pool p).overflowDesc - diff ∧
    (t.pool p).availDesc + (t.pool p).deficientDesc =
      (s.pool p).availDesc + (diff - (s.pool p).overflowDesc)

theorem grow_spec (cfg : Cfg) (size : ℕ) (h : Sound cfg s []) (hp : p ∈ s.flowPoolList) :
    Grown cfg p size s (grow cfg p size s) := by
  obtain ⟨diff, hdiff⟩ : ∃ diff,
      diff = u16 (size - (s.pool p).flowPoolSize + (s.pool p).deficientDesc) := ⟨_, rfl⟩
  obtain ⟨d, hd⟩ : ∃ d, d = diff - min (s.pool p).overflowDesc diff := ⟨_, rfl⟩
  obtain ⟨m, hm⟩ : ∃ m, m = if d ≤ s.numFree then d else s.numFree := ⟨_, rfl⟩
  have hle : m ≤ d ∧ m ≤ s.numFree := by split_ifs at hm <;> omega
  obtain ⟨s₁, hs₁⟩ : ∃ s₁, s₁ = s.modPool p fun pool =>
      { pool with
        deficientDesc := 0
        overflowDesc := pool.overflowDesc - min (s.pool p).overflowDesc diff } := ⟨_, rfl⟩
  have hfree₁ : s₁.numFree = s.numFree ∧ s₁.queues = s.queues := by
    rw [hs₁]
    exact ⟨rfl, rfl⟩
  have hgrow : grow cfg p size s =
      ((takeGlobalPool m s₁ []).2.foldl (putDescFlowPool p) (takeGlobalPool m s₁ []).1).modPool p
        (FlowPool.update cfg size (d - m) 0) := by
    unfold grow
    dsimp only
    rw [← hdiff, ← hd, ← hs₁, hfree₁.1, ← hm]
  have hsound₁ : Sound cfg s₁ [] := by
    rw [hs₁]
    exact h.modPool rfl rfl
  have hp₁ : s₁.pool p = { s.pool p with
      deficientDesc := 0
      overflowDesc := (s.pool p).overflowDesc - min (s.pool p).overflowDesc diff } := by
    rw [hs₁, modPool_self]
  have hkept₁ : Resized p s s₁ := by
    rw [hs₁]
    exact .modPool p s rfl rfl rfl
  have hlist₁ : p ∈ s₁.flowPoolList := by
    rw [hkept₁.list]
    exact hp
  have hlen : m ≤ s₁.freelist.length := by
    have := hsound₁.numFree
    rw [hfree₁.1] at this
    omega
  have htake := hsound₁.takeGlobal m
  have hsize : (s₁.freelist.take m).reverse.length = m := by
    simp only [List.length_reverse, List.length_take]
    omega
  have hput := (htake.putFlow (p := p) hlist₁).modPool (p := p)
    (f := FlowPool.update cfg size (d - m) 0) rfl rfl
  have hown := fun d hd => htake.not_mem_inUse (d := d) (List.mem_append_left _ hd)
  rw [hgrow, takeGlobalPool_eq m s₁ [] hlen]
  rw [List.append_nil, putFlowPool_eq]
  have hpool : ((((own p { s₁ with
      freelist := s₁.freelist.drop m, numFree := s₁.numFree - m }
      (s₁.freelist.take m).reverse).modPool p fun pool => { pool with
        freelist := (s₁.freelist.take m).reverse.reverse ++ pool.freelist
        availDesc := pool.availDesc + (s₁.freelist.take m).reverse.length }).modPool p
      (FlowPool.update cfg size (d - m) 0)).pool p) =
      FlowPool.update cfg size (d - m) 0 { s.pool p with
        deficientDesc := 0
        overflowDesc := (s.pool p).overflowDesc - min (s.pool p).overflowDesc diff
        freelist := (s₁.freelist.take m).reverse.reverse ++ (s.pool p).freelist
        availDesc := (s.pool p).availDesc + m } := by
    rw [modPool_self, modPool_self, own_pool, hsize]
    rw [hp₁]
  constructor
  · exact hput
  · refine hkept₁.trans ⟨rfl, ?_, ?_, ?_, ?_, ?_⟩
    · intro q hq
      rw [modPool_of_ne hq, modPool_of_ne hq]
      rfl
    · intro e he
      have hnot : e ∉ (s₁.freelist.take m).reverse := fun hmem => hown e hmem he
      change (if e ∈ _ then some p else s₁.descPool e) = _
      rw [if_neg hnot]
    · rw [hpool, hp₁]
      rfl
    · rw [hpool, hp₁]
      rfl
    · rw [hpool, hp₁]
      rfl
  · rw [← hfree₁.2]
    rfl
  · rw [hpool]
    rfl
  · rw [hpool]
    rfl
  · rw [hpool]
    exact fun hsize => update_le cfg hsize ..
  · rw [hpool]
    exact Nat.le_add_right ..
  · intro diff' hdiff'
    rw [← hdiff] at hdiff'
    subst hdiff'
    rw [hpool]
    simp only [FlowPool.update, FlowPool.setSize, if_true]
    refine ⟨by omega, ?_⟩
    split_ifs <;> omega

theorem updateQueueState_spec (h : Sound cfg s []) (p : ℕ) :
    Sound cfg (updateQueueState p s) [] ∧ Resized p s (updateQueueState p s) ∧
      (updateQueueState p s).pool p =
        { s.pool p with status := ((updateQueueState p s).pool p).status } := by
  have hmod : ∀ status, Sound cfg (s.modPool p fun pool => { pool with status := status }) [] ∧
      Resized p s (s.modPool p fun pool => { pool with status := status }) := fun status =>
    ⟨h.modPool rfl rfl, .modPool p s rfl rfl rfl⟩
  unfold updateQueueState
  dsimp only
  split
  · obtain ⟨hs, hr⟩ := hmod .activeUnpaused
    refine ⟨hs.pauseCb .., hr.trans (.pauseCb ..), ?_⟩
    simp [Pdev.pauseCb, Pdev.modPool]
  · split
    · obtain ⟨hs, hr⟩ := hmod .nonPrioPaused
      refine ⟨(hs.pauseCb ..).pauseCb .., (hr.trans (.pauseCb ..)).trans (.pauseCb ..), ?_⟩
      simp [Pdev.pauseCb, Pdev.modPool]
    · split
      · obtain ⟨hs, hr⟩ := hmod .activePaused
        refine ⟨hs.pauseCb .., hr.trans (.pauseCb ..), ?_⟩
        simp [Pdev.pauseCb, Pdev.modPool]
      · exact ⟨h, .refl p s, rfl⟩

theorem resizePool_spec (cfg : Cfg) (size : ℕ) (h : Sound cfg s []) (hp : p ∈ s.flowPoolList) :
    Sound cfg (resizePool cfg p size s) [] ∧ Resized p s (resizePool cfg p size s) := by
  unfold resizePool
  dsimp only
  split
  · exact ⟨h, .refl p s⟩
  · split
    · have hs := shrink_spec cfg size h hp
      obtain ⟨hq, hr, _⟩ := updateQueueState_spec hs.sound p
      exact ⟨hq, hs.kept.trans hr⟩
    · have hs := grow_spec cfg size h hp
      obtain ⟨hq, hr, _⟩ := updateQueueState_spec hs.sound p
      exact ⟨hq, hs.kept.trans hr⟩

theorem incPoolRef_resized (h : Sound cfg s []) (p : ℕ) : Sound cfg (incPoolRef p s) [] :=
  h.modPool rfl rfl

theorem resizeHandler_eq {size : UInt16} (h : Settled cfg s)
    (hid : getFlowPool s id = some p) :
    resizeHandler cfg id size s =
      (resizePool cfg p size.toNat (incPoolRef p s)).modPool p fun pool =>
        { pool with refCnt := pool.refCnt - 1 } := by
  have hp := getFlowPool_mem hid
  obtain ⟨_, hr⟩ := resizePool_spec cfg size.toNat (incPoolRef_resized h.sound p)
    (p := p) hp
  have href : ((resizePool cfg p size.toNat (incPoolRef p s)).pool p).refCnt = 2 := by
    rw [hr.refCnt]
    unfold incPoolRef
    rw [modPool_self, h.ref p hp]
    rfl
  unfold resizeHandler
  rw [hid]
  unfold decPoolRef decPoolRefWith
  simp only [modPool_self, href]
  rfl

theorem resizeHandler_settled (id : UInt8) (size : UInt16) (h : Settled cfg s) :
    Settled cfg (resizeHandler cfg id size s) := by
  rcases hid : getFlowPool s id with _ | p
  · unfold resizeHandler
    rw [hid]
    exact h
  · have hp := getFlowPool_mem hid
    obtain ⟨hs, hr⟩ := resizePool_spec cfg size.toNat (incPoolRef_resized h.sound p)
      (p := p) hp
    rw [resizeHandler_eq h hid]
    refine ⟨hs.modPool rfl rfl, ?_⟩
    intro q hq
    change q ∈ (resizePool cfg p size.toNat (incPoolRef p s)).flowPoolList at hq
    rw [hr.list] at hq
    rcases eq_or_ne q p with rfl | hne
    · rw [modPool_self]
      change ((resizePool cfg q size.toNat (incPoolRef q s)).pool q).refCnt - 1 = 1
      rw [hr.refCnt]
      unfold incPoolRef
      rw [modPool_self]
      change (s.pool q).refCnt + 1 - 1 = 1
      rw [h.ref q hq]
      rfl
    · rw [modPool_of_ne hne, hr.others q hne]
      unfold incPoolRef
      rw [modPool_of_ne hne]
      exact h.ref q hq

theorem pauseOnAlloc_spec (vdev : UInt8) (p : ℕ) (s : Pdev) :
    pauseOnAlloc vdev p s = { s with
      pool := (pauseOnAlloc vdev p s).pool, queues := (pauseOnAlloc vdev p s).queues } ∧
      (∀ q ≠ p, (pauseOnAlloc vdev p s).pool q = s.pool q) ∧
      (pauseOnAlloc vdev p s).pool p =
        { s.pool p with status := ((pauseOnAlloc vdev p s).pool p).status } := by
  unfold pauseOnAlloc
  dsimp only
  split
  · refine ⟨rfl, fun q hq => update_of_ne hq .., ?_⟩
    simp [Pdev.pauseCb, Pdev.modPool]
  · split
    · refine ⟨rfl, fun q hq => update_of_ne hq .., ?_⟩
      simp [Pdev.pauseCb, Pdev.modPool]
    · exact ⟨rfl, fun _ _ => rfl, rfl⟩

/-- A descriptor goes from the pool to the caller. -/
structure Allocated (cfg : Cfg) (vdev : UInt8) (p : ℕ) (s t : Pdev) : Prop where
  settled : Settled cfg t
  device : t = { s with pool := t.pool, queues := t.queues, inUse := t.inUse }
  others : ∀ q ≠ p, t.pool q = s.pool q
  pool : t.pool p = { s.pool p with
    availDesc := (s.pool p).availDesc - 1
    freelist := (s.pool p).freelist.drop 1
    status := (t.pool p).status }
  handedOut : ∀ q, out t q = out s q + if q = p then 1 else 0
  paused : ∃ u, u.queues = s.queues ∧ u.pool p = { s.pool p with
      availDesc := (s.pool p).availDesc - 1, freelist := (s.pool p).freelist.drop 1 } ∧
    t.queues = (pauseOnAlloc vdev p u).queues ∧ t.pool p = (pauseOnAlloc vdev p u).pool p

theorem allocFrom_spec (vdev : UInt8) (h : Settled cfg s) (hp : p ∈ s.flowPoolList) :
    (s.pool p).availDesc = 0 ∧ allocFrom vdev p s = s ∨
      0 < (s.pool p).availDesc ∧ Allocated cfg vdev p s (allocFrom vdev p s) := by
  have hsound := h.sound
  have hlen := hsound.avail p hp
  by_cases hzero : (s.pool p).availDesc = 0
  · left
    unfold allocFrom
    exact ⟨hzero, if_pos hzero⟩
  · right
    obtain ⟨d, hd⟩ : ∃ d, (s.pool p).freelist.take 1 = [d] := by
      rcases hl : (s.pool p).freelist with _ | ⟨d, rest⟩
      · rw [hl] at hlen
        exact absurd hlen hzero
      · exact ⟨d, rfl⟩
    have hmem : d ∈ (s.pool p).freelist := by
      apply List.mem_of_mem_take (i := 1)
      rw [hd]
      exact List.mem_singleton_self d
    have htake := hsound.takeFlow hp 1
    rw [hd] at htake
    obtain ⟨u, hu⟩ : ∃ u, u = s.modPool p fun pool =>
        { pool with freelist := pool.freelist.drop 1, availDesc := pool.availDesc - 1 } :=
      ⟨_, rfl⟩
    rw [← hu] at htake
    have hup : u.pool p = { s.pool p with
        availDesc := (s.pool p).availDesc - 1, freelist := (s.pool p).freelist.drop 1 } := by
      rw [hu, modPool_self]
    have halloc : allocFrom vdev p s =
        { pauseOnAlloc vdev p u with inUse := (pauseOnAlloc vdev p u).inUse ++ [d] } := by
      unfold allocFrom
      rw [if_neg hzero, takeFlowPool_eq p 1 s [] (by omega), hd, ← hu]
      rfl
    obtain ⟨hdev, hothers, hpool⟩ := pauseOnAlloc_spec vdev p u
    have hdev' : pauseOnAlloc vdev p u = { s with
        pool := (pauseOnAlloc vdev p u).pool, queues := (pauseOnAlloc vdev p u).queues } := by
      rw [hu] at hdev ⊢
      exact hdev
    have hothers' : ∀ q ≠ p, (pauseOnAlloc vdev p u).pool q = s.pool q := by
      intro q hq
      rw [hothers q hq, hu, modPool_of_ne hq]
    rw [hup] at hpool
    refine ⟨Nat.pos_of_ne_zero hzero, ?_⟩
    have hpaused : ∃ v, v.queues = s.queues ∧ v.pool p = { s.pool p with
        availDesc := (s.pool p).availDesc - 1, freelist := (s.pool p).freelist.drop 1 } ∧
        (pauseOnAlloc vdev p u).queues = (pauseOnAlloc vdev p v).queues ∧
        (pauseOnAlloc vdev p u).pool p = (pauseOnAlloc vdev p v).pool p :=
      ⟨u, by rw [hu]; rfl, hup, rfl, rfl⟩
    rw [halloc]
    generalize pauseOnAlloc vdev p u = t at hdev' hothers' hpool hpaused ⊢
    have howner := hsound.owner p hp d hmem
    have hfields : t.flowPoolList = s.flowPoolList ∧ t.fresh = s.fresh ∧ t.numFree = s.numFree ∧
        t.freelist = s.freelist ∧ t.descPool = s.descPool ∧ t.inUse = s.inUse := by
      rw [hdev']
      exact ⟨rfl, rfl, rfl, rfl, rfl, rfl⟩
    obtain ⟨hlist, hfresh, hnum, hfree, hdesc, huse⟩ := hfields
    refine ⟨⟨⟨?_, ?_, ?_, ?_, ?_, ?_, ?_⟩, ?_⟩, ?_, hothers', ?_, ?_, hpaused⟩
    · exact hlist ▸ hsound.nodup
    · intro q hq
      rw [hfresh]
      exact hsound.lt q (hlist ▸ hq)
    · exact hnum.trans (hsound.numFree.trans (congrArg List.length hfree.symm))
    · intro q hq
      rcases eq_or_ne q p with rfl | hne
      · change (t.pool q).availDesc = (t.pool q).freelist.length
        rw [hpool]
        simp only [List.length_drop]
        omega
      · change (t.pool q).availDesc = (t.pool q).freelist.length
        rw [hothers' q hne]
        exact hsound.avail q (hlist ▸ hq)
    · intro e
      have htotal := Ledger.total_of_ne (f := fun q => (s.pool q).freelist.count e)
        (g := fun q => (t.pool q).freelist.count e) hsound.nodup hp
        fun q _ hne => by rw [hothers' q hne]
      have hsplit := Ledger.count_take_add_drop e 1 (s.pool p).freelist
      have hpfree : (t.pool p).freelist = (s.pool p).freelist.drop 1 := by rw [hpool]
      rw [hd] at hsplit
      simp only [hpfree] at htotal
      rw [← hsound.place e]
      simp only [places, hlist, hfree, huse, List.count_append, List.count_nil]
      omega
    · intro q hq e he
      change t.descPool e = some q
      rw [hdesc]
      rcases eq_or_ne q p with rfl | hne
      · change e ∈ (t.pool q).freelist at he
        rw [hpool] at he
        exact hsound.owner q hp e (List.mem_of_mem_drop he)
      · change e ∈ (t.pool q).freelist at he
        rw [hothers' q hne] at he
        exact hsound.owner q (hlist ▸ hq) e he
    · intro e he
      change ∃ q, t.descPool e = some q ∧ q < t.fresh
      rw [hdesc, hfresh]
      rcases List.mem_append.mp he with he | he
      · exact hsound.user e (huse ▸ he)
      · rw [List.mem_singleton.mp he]
        exact ⟨p, howner, hsound.lt p hp⟩
    · intro q hq
      change (t.pool q).refCnt = 1
      rcases eq_or_ne q p with rfl | hne
      · rw [hpool]
        exact h.ref q hp
      · rw [hothers' q hne]
        exact h.ref q (hlist ▸ hq)
    · rw [hdev']
    · exact hpool
    · intro q
      unfold out
      rw [hdesc, huse, List.countP_append, List.countP_singleton, howner]
      rcases eq_or_ne q p with rfl | hne
      · simp only [decide_true, if_true]
      · simp only [Option.some.injEq, hne, hne.symm, decide_false, if_false, Bool.false_eq_true]

/-- A descriptor comes back, to the pool or to the device if the pool has too many. -/
structure Returned (cfg : Cfg) (p d : ℕ) (s t : Pdev) : Prop where
  settled : Settled cfg t
  device : t = { s with
    numFree := t.numFree, freelist := t.freelist, pool := t.pool, inUse := s.inUse.erase d }
  others : ∀ q ≠ p, t.pool q = s.pool q
  handedOut : ∀ q, out t q + (if q = p then 1 else 0) = out s q
  books : (s.pool p).overflowDesc = 0 ∧ t.numFree = s.numFree ∧
      t.pool p = { s.pool p with
        availDesc := (s.pool p).availDesc + 1, freelist := d :: (s.pool p).freelist } ∨
    (s.pool p).overflowDesc ≠ 0 ∧ t.numFree = s.numFree + 1 ∧
      t.pool p = { s.pool p with overflowDesc := (s.pool p).overflowDesc - 1 }

theorem sound_erase (h : Sound cfg s []) (hd : d ∈ s.inUse) :
    Sound cfg { s with inUse := s.inUse.erase d } [d] := by
  refine ⟨h.nodup, h.lt, h.numFree, h.avail, ?_, h.owner, ?_⟩
  · intro e
    have hpos := List.count_pos_iff.mpr hd
    rw [← h.place e]
    simp only [places, List.count_erase, List.count_nil]
    rcases eq_or_ne e d with rfl | hne
    · simp only [List.count_singleton_self, beq_self_eq_true, if_true]
      omega
    · rw [List.count_singleton, beq_eq_false_iff_ne.mpr hne.symm]
      simp
  · intro e he
    exact h.user e (List.mem_of_mem_erase he)

theorem returned_spec (h : Settled cfg s) (hp : p ∈ s.flowPoolList) (hd : d ∈ s.inUse)
    (howner : s.descPool d = some p) :
    Returned cfg p d s (updateFreeDescToPool p d { s with inUse := s.inUse.erase d }).1 ∧
      (updateFreeDescToPool p d { s with inUse := s.inUse.erase d }).2 =
        !decide ((s.pool p).overflowDesc = 0) := by
  have hsound := sound_erase h.sound hd
  have hout : ∀ q, (s.inUse.erase d).countP (fun e => s.descPool e = some q) +
      (if q = p then 1 else 0) = out s q := by
    intro q
    unfold out
    have herase := (List.perm_cons_erase hd).countP_eq fun e => s.descPool e = some q
    rw [List.countP_cons, howner] at herase
    rcases eq_or_ne q p with rfl | hne
    · simpa using herase.symm
    · simpa [hne, hne.symm] using herase.symm
  unfold updateFreeDescToPool
  by_cases hover : (s.pool p).overflowDesc = 0
  · rw [if_pos hover]
    refine ⟨?_, by simp [hover]⟩
    have hput : Sound cfg ([d].foldl (putDescFlowPool p) { s with inUse := s.inUse.erase d }) [] :=
      sound_putFlow hsound hp
    have hdesc : update s.descPool d (some p) = s.descPool := by
      rw [← howner, update_eq_self]
    have hself : (putDescFlowPool p { s with inUse := s.inUse.erase d } d).pool p =
        { s.pool p with
          availDesc := (s.pool p).availDesc + 1, freelist := d :: (s.pool p).freelist } :=
      update_self ..
    have hothers : ∀ q ≠ p, (putDescFlowPool p { s with inUse := s.inUse.erase d } d).pool q =
        s.pool q := fun q hq => update_of_ne hq ..
    refine ⟨⟨hput, ?_⟩, ?_, hothers, ?_, .inl ⟨hover, rfl, hself⟩⟩
    · intro q hq
      rcases eq_or_ne q p with rfl | hne
      · rw [hself]
        exact h.ref q hp
      · rw [hothers q hne]
        exact h.ref q hq
    · simp only [putDescFlowPool, hdesc]
      rfl
    · intro q
      unfold out putDescFlowPool
      rw [hdesc]
      exact hout q
  · rw [if_neg hover]
    refine ⟨?_, by simp [hover]⟩
    have hstack : Sound cfg { s with inUse := s.inUse.erase d } ([d] ++ []) := hsound
    have hput := hstack.putGlobal.modPool (p := p)
      (f := fun pool => { pool with overflowDesc := pool.overflowDesc - 1 }) rfl rfl
    have hself : ((putDescGlobalPool { s with inUse := s.inUse.erase d } d).modPool p fun pool =>
        { pool with overflowDesc := pool.overflowDesc - 1 }).pool p =
        { s.pool p with overflowDesc := (s.pool p).overflowDesc - 1 } := modPool_self ..
    have hothers : ∀ q ≠ p, ((putDescGlobalPool { s with inUse := s.inUse.erase d } d).modPool p
        fun pool => { pool with overflowDesc := pool.overflowDesc - 1 }).pool q = s.pool q :=
      fun q hq => modPool_of_ne hq ..
    refine ⟨⟨hput, ?_⟩, rfl, hothers, hout, .inr ⟨hover, rfl, hself⟩⟩
    intro q hq
    rcases eq_or_ne q p with rfl | hne
    · rw [hself]
      exact h.ref q hp
    · rw [hothers q hne]
      exact h.ref q hq

theorem wakeOnFree_spec (h : Settled cfg s) (p : ℕ) :
    Settled cfg (wakeOnFree p s) ∧
      wakeOnFree p s = { s with
        pool := (wakeOnFree p s).pool, queues := (wakeOnFree p s).queues } ∧
      (∀ q ≠ p, (wakeOnFree p s).pool q = s.pool q) ∧
      (wakeOnFree p s).pool p = { s.pool p with status := ((wakeOnFree p s).pool p).status } ∧
      ((s.pool p).status = .invalid → wakeOnFree p s = s) ∧
      ((s.pool p).status ≠ .invalid → ((wakeOnFree p s).pool p).status ≠ .invalid) := by
  have hmod : ∀ status, Settled cfg (s.modPool p fun pool => { pool with status := status }) := by
    intro status
    refine ⟨h.sound.modPool rfl rfl, ?_⟩
    intro q hq
    simp only [modPool_field FlowPool.refCnt]
    split_ifs with heq
    · exact heq ▸ h.ref q hq
    · exact h.ref q hq
  unfold wakeOnFree
  dsimp only
  split
  · next hstatus =>
      split
      · refine ⟨(hmod .nonPrioPaused).pauseCb .., rfl, fun q hq => update_of_ne hq .., ?_,
          ?_, ?_⟩
        · simp [Pdev.pauseCb, Pdev.modPool]
        · simp [hstatus]
        · simp [Pdev.pauseCb, Pdev.modPool]
      · exact ⟨h, rfl, fun _ _ => rfl, rfl, fun _ => rfl, id⟩
  · next hstatus =>
      split
      · refine ⟨(hmod .activeUnpaused).pauseCb .., rfl, fun q hq => update_of_ne hq .., ?_,
          ?_, ?_⟩
        · simp [Pdev.pauseCb, Pdev.modPool]
        · simp [hstatus]
        · simp [Pdev.pauseCb, Pdev.modPool]
      · exact ⟨h, rfl, fun _ _ => rfl, rfl, fun _ => rfl, id⟩
  · exact ⟨h, rfl, fun _ _ => rfl, rfl, fun _ => rfl, id⟩

theorem descFree_spec (h : Settled cfg s) (ht : descFree d s = some t) :
    ∃ p u, p ∈ s.flowPoolList ∧ d ∈ s.inUse ∧ s.descPool d = some p ∧ Returned cfg p d s u ∧
      t = freeByStatus p (!decide ((s.pool p).overflowDesc = 0)) u := by
  unfold descFree at ht
  rcases howner : s.descPool d with _ | p
  · rw [howner] at ht
    cases ht
  · rw [howner] at ht
    dsimp only at ht
    split at ht
    · next hmem =>
        obtain ⟨hr, hflag⟩ := returned_spec h hmem.1 hmem.2 howner
        rw [hflag] at ht
        cases ht
        exact ⟨p, _, hmem.1, hmem.2, rfl, hr, rfl⟩
    · cases ht

theorem Returned.list (h : Returned cfg p d s t) : t.flowPoolList = s.flowPoolList := by
  rw [h.device]

theorem freeByStatus_settled (h : Settled cfg s) (hp : p ∈ s.flowPoolList) (b : Bool) :
    Settled cfg (freeByStatus p b s) := by
  have hwake := (wakeOnFree_spec h p).1
  unfold freeByStatus
  split
  · exact freeInvalidFlowPool_settled h hp
  · split
    · exact serve_settled hwake
    · exact hwake

theorem mapHandler_settled (flowId flowType id : UInt8) (size : UInt16) (mem : Bool)
    (h : Settled cfg s) : Settled cfg (mapHandler cfg flowId flowType id size mem s) := by
  have hmap : ∀ {p u}, Settled cfg u → Settled cfg
      (((vdevMap cfg p flowId u).pauseCb flowId .priorityQueueOn .dataFlowControlPriority).pauseCb
        flowId .wakeAllNetifQueue .dataFlowControl) := fun hu =>
    ((vdevMap_settled hu _ flowId).pauseCb ..).pauseCb ..
  unfold mapHandler
  split
  · unfold mapPool
    split
    · exact hmap h
    · exact h
  · split
    · obtain ⟨hp, hc⟩ := createFlowPool_spec h id size.toNat
      unfold mapPool
      split
      · exact hmap hc.settled
      · rw [if_pos rfl, hp]
        apply decPoolRef_settled hc.settled
        rw [hc.list]
        exact List.mem_append_right _ (List.mem_singleton_self _)
    · exact h

theorem unmapHandler_settled (flowId flowType id : UInt8) (h : Settled cfg s) :
    Settled cfg (unmapHandler cfg flowId flowType id s) := by
  unfold unmapHandler
  split
  · next hid =>
      split
      · apply decPoolRef_settled (vdevUnmap_settled h _ flowId)
        rw [vdevUnmap_list]
        exact getFlowPool_mem hid
      · exact h
  · exact h

theorem next_settled {e : Event} (h : Settled cfg s) (ht : next cfg s e = some t) :
    Settled cfg t := by
  cases e with
  | map flowId flowType id size mem =>
    cases ht
    exact mapHandler_settled flowId flowType id size mem h
  | unmap flowId flowType id =>
    cases ht
    exact unmapHandler_settled flowId flowType id h
  | resize id size =>
    cases ht
    exact resizeHandler_settled id size h
  | alloc vdev mgmt =>
    simp only [next, descAlloc] at ht
    split at ht
    · cases ht
      exact h
    · split at ht
      · next hp =>
          cases ht
          rcases allocFrom_spec vdev h hp with ⟨_, heq⟩ | ⟨_, ha⟩
          · rw [heq]
            exact h
          · exact ha.settled
      · cases ht
  | free d =>
    obtain ⟨p, u, hp, _, _, hr, rfl⟩ := descFree_spec h ht
    exact freeByStatus_settled hr.settled (by rw [hr.list]; exact hp) _

theorem attach_settled (cfg : Cfg) : Settled cfg (attach cfg) := by
  have hnone : ∀ {P : ℕ → Prop}, ∀ p ∈ (attach cfg).flowPoolList, P p := fun _ hp => nomatch hp
  refine ⟨⟨List.nodup_nil, hnone, ?_, hnone, ?_, hnone, fun _ hd => nomatch hd⟩, hnone⟩
  · simp only [attach, List.length_range]
  · intro d
    simp only [places, attach, Ledger.total_nil, List.count_nil, Nat.add_zero]
    rw [List.nodup_range.count]
    simp only [List.mem_range]

theorem start_settled (cfg : Cfg) : Settled cfg (start cfg) := by
  unfold start
  split
  · exact attach_settled cfg
  · have hc := (createFlowPool_spec (attach_settled cfg) mgmtPoolId mgmtPoolSize).2.settled
    exact ⟨⟨hc.sound.nodup, hc.sound.lt, hc.sound.numFree, hc.sound.avail, hc.sound.place,
      hc.sound.owner, hc.sound.user⟩, hc.ref⟩

theorem run_rule {C : Pdev → Event → Prop} (hstart : I (start cfg))
    (hstep : ∀ s t e, Settled cfg s → I s → C s e → next cfg s e = some t → I t)
    {es : List Event}
    (hm : (machine cfg).Meets (fun o e => ∀ s, o = some s → C s e) (some (start cfg)) es)
    (ht : ((machine cfg).run (some (start cfg)) es).1 = some t) : Settled cfg t ∧ I t := by
  have hinv := (machine cfg).invariant_of_meets
    (I := fun o => ∀ s, o = some s → Settled cfg s ∧ I s)
    (C := fun o e => ∀ s, o = some s → C s e) ?_ ?_ hm
  · exact hinv t ht
  · intro o e ho hc u hu
    rcases o with _ | s
    · cases hu
    · obtain ⟨hs, hi⟩ := ho s rfl
      exact ⟨next_settled hs hu, hstep s u e hs hi (hc s rfl) hu⟩
  · intro s hs
    cases hs
    exact ⟨start_settled cfg, hstart⟩

end KernelModules.TxFlow
