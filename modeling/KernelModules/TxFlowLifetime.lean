import KernelModules.TxFlowBooks

/-!
# The life of a tx flow pool

A pool has one reference, whoever draws from it, and the count of its descriptors alone says
whether some are still handed out. Where each pool has one vdev at a time and its books are plain
when it is given up, no vdev keeps a pool that is freed, and a pool is freed once and in time.
-/

namespace KernelModules.TxFlow

open Function

variable {cfg : Cfg} {s t u : Pdev} {p q d n size : ℕ} {v w : UInt8}

def invalids (s : Pdev) : ℕ := s.flowPoolList.countP fun p => (s.pool p).status = .invalid

/-- Every pool that a vdev points to is there; a pool is freed once, with none of its descriptors
handed out; the invalid pools are counted; every descriptor is on the list of the device, on that
of a pool that is there, or handed out. -/
structure Alive (cfg : Cfg) (s : Pdev) : Prop where
  mapped : ∀ v p, s.vdevPool v = some p → p ∈ s.flowPoolList ∧ p ∉ s.freed
  once : s.freed.Nodup
  idle : ∀ p ∈ s.freed, p ∉ s.flowPoolList ∧ out s p = 0
  bin : s.numInvalidBin = u8 (invalids s)
  place : ∀ d, places s [] d = if d < cfg.numDesc.toNat then 1 else 0

/-- An invalid pool waits for descriptors, and for no others than those that are handed out. -/
structure Pending (s : Pdev) (p : ℕ) : Prop where
  deficient : (s.pool p).deficientDesc = 0
  lt : (s.pool p).availDesc < (s.pool p).flowPoolSize
  balanced : Balanced s p
  surplus : (s.pool p).availDesc = 0 ∨ (s.pool p).overflowDesc = 0

theorem Pending.out_pos (h : Pending s p) : 0 < out s p := by
  have hlt := h.lt
  have hdef := h.deficient
  have hbal := h.balanced
  unfold Balanced at hbal
  omega

structure Lasting (cfg : Cfg) (s : Pdev) : Prop where
  mapped : ∀ v p, s.vdevPool v = some p →
    p ∈ s.flowPoolList ∧ (s.pool p).status ≠ .invalid ∧ cfg.vdev v = true
  once : s.freed.Nodup
  idle : ∀ p ∈ s.freed, p ∉ s.flowPoolList ∧ p < s.fresh ∧ out s p = 0
  pending : ∀ p ∈ s.flowPoolList, (s.pool p).status = .invalid → Pending s p
  bin : s.numInvalidBin = u8 (invalids s)

theorem Lasting.alive (h : Lasting cfg s) (hs : Sound cfg s []) : Alive cfg s := by
  refine ⟨?_, h.once, ?_, h.bin, hs.place⟩
  · intro v p hm
    obtain ⟨hp, _⟩ := h.mapped v p hm
    exact ⟨hp, fun hf => (h.idle p hf).1 hp⟩
  · intro p hf
    obtain ⟨hp, _, hout⟩ := h.idle p hf
    exact ⟨hp, hout⟩

def Attached (s : Pdev) (p : ℕ) : Prop :=
  p ∈ s.freed ∨ p ∈ s.flowPoolList ∧
    ((s.pool p).status = .invalid ∨ ∃ v, s.vdevPool v = some p)

theorem Attached.freed (h : Attached s p) (hl : Lasting cfg s) (hnone : ∀ v, s.vdevPool v ≠ some p)
    (hout : out s p = 0) : p ∈ s.freed := by
  rcases h with hf | ⟨hp, hinv | ⟨v, hm⟩⟩
  · exact hf
  · have := (hl.pending p hp hinv).out_pos
    omega
  · exact absurd hm (hnone v)

/-- No pool is given up or freed, and none is revived. -/
structure Standing (s t : Pdev) : Prop where
  list : t.flowPoolList = s.flowPoolList
  fresh : t.fresh = s.fresh
  freed : t.freed = s.freed
  bin : t.numInvalidBin = s.numInvalidBin
  invalid : ∀ q ∈ s.flowPoolList, (t.pool q).status = .invalid ↔ (s.pool q).status = .invalid

theorem Standing.invalids (h : Standing s t) : invalids t = invalids s := by
  unfold TxFlow.invalids
  rw [h.list]
  apply List.countP_congr
  intro q hq
  rw [decide_eq_true_iff, decide_eq_true_iff]
  exact h.invalid q hq

theorem Lasting.standing (h : Lasting cfg s) (hk : Standing s t)
    (hmap : ∀ v q, t.vdevPool v = some q →
      q ∈ s.flowPoolList ∧ (s.pool q).status ≠ .invalid ∧ cfg.vdev v = true)
    (hout : ∀ q ∈ s.freed, out t q = 0)
    (hpend : ∀ q ∈ s.flowPoolList, (s.pool q).status = .invalid → Pending t q) :
    Lasting cfg t := by
  refine ⟨?_, ?_, ?_, ?_, ?_⟩
  · intro v q hm
    obtain ⟨hq, hv, hvdev⟩ := hmap v q hm
    rw [hk.list]
    exact ⟨hq, fun heq => hv ((hk.invalid q hq).mp heq), hvdev⟩
  · rw [hk.freed]
    exact h.once
  · intro q hq
    rw [hk.freed] at hq
    obtain ⟨hlist, hlt, _⟩ := h.idle q hq
    rw [hk.list, hk.fresh]
    exact ⟨hlist, hlt, hout q hq⟩
  · intro q hq hinv
    rw [hk.list] at hq
    exact hpend q hq ((hk.invalid q hq).mp hinv)
  · rw [hk.bin, hk.invalids]
    exact h.bin

theorem Standing.attached (h : Standing s t)
    (hmap : ∀ v, s.vdevPool v = some p → ∃ w, t.vdevPool w = some p) (ha : Attached s p) :
    Attached t p := by
  unfold Attached
  rw [h.freed, h.list]
  rcases ha with hf | ⟨hp, hinv | ⟨v, hm⟩⟩
  · exact .inl hf
  · exact .inr ⟨hp, .inl ((h.invalid p hp).mpr hinv)⟩
  · exact .inr ⟨hp, .inr (hmap v hm)⟩

theorem Pending.congr (h : Pending s p)
    (havail : (t.pool p).availDesc = (s.pool p).availDesc)
    (hdef : (t.pool p).deficientDesc = (s.pool p).deficientDesc)
    (hover : (t.pool p).overflowDesc = (s.pool p).overflowDesc)
    (hsize : (t.pool p).flowPoolSize = (s.pool p).flowPoolSize) (hout : out t p = out s p) :
    Pending t p := by
  refine ⟨hdef.trans h.deficient, by rw [havail, hsize]; exact h.lt, ?_, ?_⟩
  · have hbal := h.balanced
    unfold Balanced at hbal ⊢
    rw [havail, hdef, hover, hsize, hout]
    exact hbal
  · rw [havail, hover]
    exact h.surplus

theorem Redistributed.standing (h : Redistributed s t)
    (hbin : t.numInvalidBin = s.numInvalidBin) : Standing s t := by
  have hdev := h.device
  exact ⟨h.list, by rw [hdev], by rw [hdev], hbin, fun q _ => h.invalid_iff q⟩

theorem Granted.lasting (hg : Granted s t) (h : Lasting cfg s) : Lasting cfg t := by
  have hk := hg.kept
  have hdev := hk.device
  apply h.standing (hk.standing (by rw [hdev]))
  · intro v q hm
    rw [hdev] at hm
    exact h.mapped v q hm
  · intro q hq
    rw [hk.out]
    exact (h.idle q hq).2.2
  · intro q hq hinv
    have hp := h.pending q hq hinv
    exact hp.congr (hg.avail q hp.deficient) (hg.deficient q) (hk.overflow q) (hk.size q)
      (hk.out q)

theorem Granted.attached (hg : Granted s t) (ha : Attached s p) : Attached t p := by
  have hdev := hg.kept.device
  apply (hg.kept.standing (by rw [hdev])).attached _ ha
  intro v hm
  rw [hdev]
  exact ⟨v, hm⟩

theorem Lasting.serve_eq (h : Lasting cfg s) (hs : Settled cfg s) (f : ℕ → Pdev → Pdev) :
    distributeFromGlobal f s = (grantAll s).1 := by
  obtain ⟨_, _, htmp⟩ := grantAll_spec hs.sound
  rw [distributeFromGlobal_eq]
  rcases htmp with heq | ⟨q, hq, _, hinv, hdef⟩
  · rw [heq]
  · exact absurd (h.pending q hq hinv).deficient hdef

theorem Lasting.serve (h : Lasting cfg s) (hs : Settled cfg s) (f : ℕ → Pdev → Pdev) :
    Lasting cfg (distributeFromGlobal f s) ∧
      ∀ p, Attached s p → Attached (distributeFromGlobal f s) p := by
  obtain ⟨_, hg, _⟩ := grantAll_spec hs.sound
  rw [h.serve_eq hs]
  exact ⟨hg.lasting h, fun p => hg.attached⟩

def invalidsBut (s : Pdev) (p : ℕ) : ℕ :=
  (s.flowPoolList.erase p).countP fun q => (s.pool q).status = .invalid

theorem invalids_eq (hp : p ∈ s.flowPoolList) :
    invalids s = invalidsBut s p + if (s.pool p).status = .invalid then 1 else 0 := by
  have hperm := (List.perm_cons_erase hp).countP_eq fun q =>
    decide ((s.pool q).status = PoolStatus.invalid)
  unfold invalids invalidsBut
  rw [hperm, List.countP_cons]
  simp only [decide_eq_true_eq]

theorem invalidsBut_of_dropped (h : Dropped p s t) (hnodup : s.flowPoolList.Nodup) :
    (s.flowPoolList.erase p).countP (fun q => (t.pool q).status = .invalid) = invalidsBut s p := by
  apply List.countP_congr
  intro q hq
  have hne : q ≠ p := fun heq => hnodup.not_mem_erase (heq ▸ hq)
  rw [h.pool_of_ne hne]

theorem u8_succ (n : ℕ) : u8 (u8 n + 1) = u8 (n + 1) := by
  unfold u8
  omega

theorem u8_pred (n : ℕ) : u8 (u8 (n + 1) + 2 ^ 8 - 1) = u8 n := by
  unfold u8
  omega

/-- A pool without a vdev is freed if nothing of it is handed out, and waits otherwise. -/
theorem lasting_of_dropped (h : Dropped p s t) (hs : Settled cfg s) (hp : p ∈ s.flowPoolList)
    (hmap : ∀ v q, s.vdevPool v = some q →
      q ≠ p ∧ q ∈ s.flowPoolList ∧ (s.pool q).status ≠ .invalid ∧ cfg.vdev v = true)
    (honce : s.freed.Nodup)
    (hidle : ∀ q ∈ s.freed, q ∉ s.flowPoolList ∧ q < s.fresh ∧ out s q = 0)
    (hpend : ∀ q ∈ s.flowPoolList, q ≠ p → (s.pool q).status = .invalid → Pending s q)
    (hbin : s.numInvalidBin = u8 (invalidsBut s p))
    (hfree : (s.pool p).availDesc = (s.pool p).flowPoolSize → out s p = 0)
    (hkeep : (s.pool p).availDesc ≠ (s.pool p).flowPoolSize →
      (s.pool p).deficientDesc = 0 ∧ (s.pool p).availDesc < (s.pool p).flowPoolSize ∧
        Balanced s p) : Lasting cfg t := by
  have hsound := hs.sound
  have hinvalids := invalidsBut_of_dropped h hsound.nodup
  have hmap' : ∀ v q, t.vdevPool v = some q →
      q ∈ t.flowPoolList ∧ (t.pool q).status ≠ .invalid ∧ cfg.vdev v = true := by
    intro v q hm
    rw [h.vdevPool] at hm
    obtain ⟨hne, hq, hv, hvdev⟩ := hmap v q hm
    rw [h.pool_of_ne hne]
    exact ⟨h.mem_of_ne hq hne, hv, hvdev⟩
  have hpend' : ∀ q ∈ t.flowPoolList, q ≠ p → (t.pool q).status = .invalid → Pending t q := by
    intro q hq hne hinv
    have hpool := h.pool_of_ne hne
    rw [hpool] at hinv
    exact (hpend q (h.mem_of_mem hp hq) hne hinv).congr (by rw [hpool]) (by rw [hpool])
      (by rw [hpool]) (by rw [hpool]) (h.out q)
  have howned := owned_le hsound hp
  have hout := h.out
  have hlist := h.mem_of_mem hp (q := p)
  cases h with
  | freed heq =>
    refine ⟨hmap', ?_, ?_, ?_, ?_⟩
    · apply List.nodup_append.mpr
      refine ⟨honce, List.nodup_singleton p, ?_⟩
      intro a ha b hb hab
      rw [List.mem_singleton.mp hb] at hab
      exact (hidle a ha).1 (hab ▸ hp)
    · intro q hq
      rw [hout]
      rcases List.mem_append.mp hq with hq | hq
      · obtain ⟨hnot, hlt, hzero⟩ := hidle q hq
        exact ⟨fun hmem => hnot (List.mem_of_mem_erase hmem), hlt, hzero⟩
      · rw [List.mem_singleton.mp hq]
        exact ⟨hsound.nodup.not_mem_erase, hsound.lt p hp, hfree heq⟩
    · intro q hq
      apply hpend' q hq
      rintro rfl
      exact hsound.nodup.not_mem_erase hq
    · exact hbin.trans (congrArg u8 hinvalids.symm)
  | kept hne =>
    obtain ⟨hdef, hlt, hbal⟩ := hkeep hne
    have hself := modPool_self s p fun pool =>
      { pool with
        refCnt := pool.refCnt - 1 + 1
        status := .invalid
        freelist := []
        availDesc := 0
        flowPoolSize := u16 (pool.flowPoolSize + 2 ^ 16 - pool.availDesc)
        flowPoolId := invalidFlowId }
    refine ⟨hmap', honce, ?_, ?_, ?_⟩
    · intro q hq
      obtain ⟨hnot, hltq, hzero⟩ := hidle q hq
      rw [hout]
      refine ⟨?_, hltq, hzero⟩
      intro hmem
      rcases List.mem_append.mp hmem with hmem | hmem
      · exact hnot (List.mem_of_mem_erase hmem)
      · exact hnot (List.mem_singleton.mp hmem ▸ hp)
    · intro q hq hinv
      rcases eq_or_ne q p with rfl | hqp
      · unfold Balanced at hbal
        have hsize : u16 ((s.pool q).flowPoolSize + 2 ^ 16 - (s.pool q).availDesc) =
            (s.pool q).flowPoolSize - (s.pool q).availDesc := by
          unfold u16
          omega
        have hbal' := hout q
        constructor
        · rw [hself]
          exact hdef
        · rw [hself]
          dsimp only
          omega
        · unfold Balanced
          rw [hbal']
          rw [hself]
          dsimp only
          omega
        · left
          rw [hself]
      · exact hpend' q hq hqp hinv
    · unfold invalids
      dsimp only at hinvalids ⊢
      rw [List.countP_append, hinvalids, List.countP_singleton, hself, hbin, u8_succ]
      simp

theorem attached_of_dropped (h : Dropped p s t) (ha : Attached s q) : q = p ∨ Attached t q := by
  rcases eq_or_ne q p with rfl | hne
  · exact .inl rfl
  · right
    have hpool := h.pool_of_ne hne
    rcases ha with hf | ⟨hq, ha⟩
    · left
      cases h with
      | freed _ => exact List.mem_append_left _ hf
      | kept _ => exact hf
    · right
      rw [hpool, h.vdevPool]
      exact ⟨h.mem_of_ne hq hne, ha⟩

theorem dropped_attached (h : Dropped p s t) : Attached t p := by
  cases h with
  | freed _ => exact .inl (List.mem_append_right _ (List.mem_singleton_self p))
  | kept _ =>
    refine .inr ⟨List.mem_append_right _ (List.mem_singleton_self p), .inl ?_⟩
    rw [modPool_self]

theorem decPoolRef_lasting (hs : Settled cfg s) (h : Lasting cfg s) (hp : p ∈ s.flowPoolList)
    (hv : (s.pool p).status ≠ .invalid) (hnone : ∀ v, s.vdevPool v ≠ some p)
    (hbal : Balanced s p) (hdef : (s.pool p).deficientDesc = 0)
    (hc : (s.pool p).overflowDesc = 0 ∨ (s.pool p).availDesc < (s.pool p).flowPoolSize) :
    Lasting cfg (decPoolRef p s) ∧
      ∀ q, (q = p ∨ Attached s q) → Attached (decPoolRef p s) q := by
  have hd := dropPool_cases hs.sound hp
  have hset := dropPool_settled hs hp
  have hbooks := hbal
  unfold Balanced at hbooks
  have hl : Lasting cfg (dropPool p s) := by
    apply lasting_of_dropped hd hs hp _ h.once h.idle (fun q hq _ => h.pending q hq)
    · rw [h.bin, invalids_eq hp, if_neg hv, Nat.add_zero]
    · intro heq
      omega
    · exact fun hne => ⟨hdef, by omega, hbal⟩
    · intro v q hm
      exact ⟨fun heq => hnone v (heq ▸ hm), h.mapped v q hm⟩
  obtain ⟨hserve, hatt⟩ := hl.serve hset freeInvalidFlowPool
  rw [decPoolRef_eq hs hp]
  refine ⟨hserve, ?_⟩
  rintro q (rfl | ha)
  · exact hatt q (dropped_attached hd)
  · rcases attached_of_dropped hd ha with rfl | ha
    · exact hatt q (dropped_attached hd)
    · exact hatt q ha

/-- An invalid pool that has all its descriptors back is freed. -/
theorem freeInvalidFlowPool_lasting (hs : Settled cfg s) (hp : p ∈ s.flowPoolList)
    (hinv : (s.pool p).status = .invalid)
    (hmap : ∀ v q, s.vdevPool v = some q →
      q ∈ s.flowPoolList ∧ (s.pool q).status ≠ .invalid ∧ cfg.vdev v = true)
    (honce : s.freed.Nodup)
    (hidle : ∀ q ∈ s.freed, q ∉ s.flowPoolList ∧ q < s.fresh ∧ out s q = 0)
    (hpend : ∀ q ∈ s.flowPoolList, q ≠ p → (s.pool q).status = .invalid → Pending s q)
    (hbin : s.numInvalidBin = u8 (invalids s)) (hout : out s p = 0) :
    Lasting cfg (freeInvalidFlowPool p s) ∧
      ∀ q, Attached s q → Attached (freeInvalidFlowPool p s) q := by
  obtain ⟨_, hdealt⟩ := distributeToDeficientPools_spec hs.sound hp
  have hk := hdealt.kept
  have hdev := hk.device
  have hlist := emptied_list hs hp
  have hset := emptied_settled hs hp
  have hmem : p ∈ (emptied p s).flowPoolList := by
    rw [hlist]
    exact hp
  have hd := dropPool_cases hset.sound hmem
  have hstatus : ∀ q, ((emptied p s).pool q).status = .invalid ↔
      (s.pool q).status = .invalid := by
    intro q
    rw [← hk.invalid_iff q]
    unfold emptied
    rw [modPool_field FlowPool.status]
    split_ifs with heq
    · rw [heq]
    · exact Iff.rfl
  have hmapeq : (emptied p s).vdevPool = s.vdevPool :=
    (show (emptied p s).vdevPool = (distributeToDeficientPools p s).vdevPool from rfl).trans
      (by rw [hdev])
  have hfreed : (emptied p s).freed = s.freed :=
    (show (emptied p s).freed = (distributeToDeficientPools p s).freed from rfl).trans
      (by rw [hdev])
  have hfresh : (emptied p s).fresh = s.fresh :=
    (show (emptied p s).fresh = (distributeToDeficientPools p s).fresh from rfl).trans
      (by rw [hdev])
  have houts := emptied_out hs hp
  have hl : Lasting cfg (dropPool p (emptied p s)) := by
    apply lasting_of_dropped hd hset hmem
    · intro v q hm
      rw [hmapeq] at hm
      obtain ⟨hq, hv, hvdev⟩ := hmap v q hm
      refine ⟨fun heq => hv (heq ▸ hinv), ?_, fun heq => hv ((hstatus q).mp heq), hvdev⟩
      rw [hlist]
      exact hq
    · rw [hfreed]
      exact honce
    · intro q hq
      rw [hfreed] at hq
      rw [hlist, hfresh, houts]
      exact hidle q hq
    · intro q hq hne hiq
      rw [hlist] at hq
      have hpq := hpend q hq hne ((hstatus q).mp hiq)
      have hzero := hpq.deficient
      have hle := hdealt.deficient q
      have hsum := hdealt.sum q hne
      have hpool := emptied_pool_of_ne (s := s) hne
      apply hpq.congr _ _ _ _ (houts q)
      · rw [hpool]
        omega
      · rw [hpool]
        omega
      · rw [hpool]
        exact hk.overflow q
      · rw [hpool]
        exact hk.size q
    · have hbut : invalidsBut (emptied p s) p = invalidsBut s p := by
        unfold invalidsBut
        rw [hlist]
        apply List.countP_congr
        intro q _
        rw [decide_eq_true_iff, decide_eq_true_iff]
        exact hstatus q
      rw [hbut]
      change u8 (s.numInvalidBin + 2 ^ 8 - 1) = _
      rw [hbin, invalids_eq hp, if_pos hinv]
      exact u8_pred _
    · intro _
      rw [houts]
      exact hout
    · exact fun hne => absurd (emptied_size p s) hne
  obtain ⟨hserve, hatt⟩ := hl.serve (dropPool_emptied_settled hs hp)
    (freeInvalidFuel s.flowPoolList.length)
  unfold freeInvalidFlowPool
  rw [freeInvalidFuel_succ hs hp hinv]
  refine ⟨hserve, ?_⟩
  intro q ha
  have hae : Attached (emptied p s) q := by
    unfold Attached at ha ⊢
    rw [hfreed, hlist, hstatus, hmapeq]
    exact ha
  rcases attached_of_dropped hd hae with rfl | ha
  · exact hatt q (dropped_attached hd)
  · exact hatt q ha

/-- What a message has to find so that no pool is given up too early or too late: a pool has one
vdev at a time, which gives it up with all its descriptors on its list or handed out, and is left
alone then. -/
def Sole (cfg : Cfg) (s : Pdev) : Event → Prop
  | .map flowId flowType id size mem =>
    (∀ p ∈ getFlowPool s id, flowType = flowTypeVdev → cfg.vdev flowId = true →
      (s.pool p).status ≠ .invalid ∧ ∀ q ∈ s.vdevPool flowId, q = p) ∧
    (getFlowPool s id = none → mem = true →
      (flowType = flowTypeVdev → cfg.vdev flowId = true → s.vdevPool flowId = none) ∧
        (flowType ≠ flowTypeVdev → size.toNat ≤ s.numFree))
  | .unmap flowId flowType id =>
    ∀ p ∈ getFlowPool s id, flowType = flowTypeVdev →
      (s.pool p).status ≠ .invalid ∧ (∀ v, s.vdevPool v = some p → v = flowId) ∧
        (∀ q ∈ s.vdevPool flowId, q = p) ∧ Balanced s p ∧ (s.pool p).deficientDesc = 0 ∧
        ((s.pool p).overflowDesc = 0 ∨ (s.pool p).availDesc < (s.pool p).flowPoolSize)
  | .resize id size =>
    ∀ p ∈ getFlowPool s id, (s.pool p).flowPoolSize ≠ size.toNat → (s.pool p).status ≠ .invalid
  | .alloc _ _ => True
  | .free _ => True

def Keeps (cfg : Cfg) (s t : Pdev) : Prop :=
  Lasting cfg t ∧ ∀ p, Attached s p → Attached t p

theorem Lasting.keeps_self (h : Lasting cfg s) : Keeps cfg s s := ⟨h, fun _ => id⟩

theorem Keeps.trans (h : Keeps cfg s t) (h' : Keeps cfg t u) : Keeps cfg s u :=
  ⟨h'.1, fun p ha => h'.2 p (h.2 p ha)⟩

theorem Lasting.keeps (h : Lasting cfg s) (hk : Standing s t) (hmap : t.vdevPool = s.vdevPool)
    (hout : ∀ q ∈ s.freed, out t q = 0)
    (hpend : ∀ q ∈ s.flowPoolList, (s.pool q).status = .invalid → Pending t q) :
    Keeps cfg s t := by
  refine ⟨h.standing hk ?_ hout hpend, fun p => hk.attached ?_⟩
  · rw [hmap]
    exact h.mapped
  · rw [hmap]
    exact fun v hm => ⟨v, hm⟩

theorem mapped_keeps (h : Lasting cfg s) (hp : p ∈ s.flowPoolList)
    (hc : cfg.vdev v = true → (s.pool p).status ≠ .invalid ∧ ∀ q ∈ s.vdevPool v, q = p)
    (queues : UInt8 → Adapter) :
    Keeps cfg s { vdevMap cfg p v s with queues := queues } := by
  unfold vdevMap
  split
  · next hvdev =>
      obtain ⟨hv, hold⟩ := hc hvdev
      have hk : Standing s { s.modPool p fun pool => { pool with memberFlowId := v } with
          vdevPool := update s.vdevPool v (some p), queues := queues } := by
        refine ⟨rfl, rfl, rfl, rfl, ?_⟩
        intro q _
        rw [modPool_field FlowPool.status]
        split_ifs with heq
        · rw [heq]
        · exact Iff.rfl
      refine ⟨h.standing hk ?_ (fun q hq => (h.idle q hq).2.2) ?_, fun q => hk.attached ?_⟩
      · intro w q hm
        dsimp only at hm
        rcases eq_or_ne w v with rfl | hne
        · rw [update_self] at hm
          cases hm
          exact ⟨hp, hv, hvdev⟩
        · rw [update_of_ne hne] at hm
          exact h.mapped w q hm
      · intro q hq hinv
        have hne : q ≠ p := fun heq => hv (heq ▸ hinv)
        have hpool : (s.modPool p fun pool => { pool with memberFlowId := v }).pool q =
            s.pool q := modPool_of_ne hne ..
        refine (h.pending q hq hinv).congr ?_ ?_ ?_ ?_ rfl
        · rw [hpool]
        · rw [hpool]
        · rw [hpool]
        · rw [hpool]
      · intro w hm
        rcases eq_or_ne w v with rfl | hne
        · refine ⟨w, ?_⟩
          dsimp only
          rw [update_self, hold q hm]
        · refine ⟨w, ?_⟩
          dsimp only
          rw [update_of_ne hne]
          exact hm
  · exact h.keeps ⟨rfl, rfl, rfl, rfl, fun _ _ => Iff.rfl⟩ rfl (fun q hq => (h.idle q hq).2.2)
      fun q hq hinv => (h.pending q hq hinv).congr rfl rfl rfl rfl rfl

theorem Created.keeps (hc : Created cfg size s t) (hs : Settled cfg s) (h : Lasting cfg s) :
    Keeps cfg s t := by
  obtain ⟨hmap, _, hfreed, hbin, hfresh⟩ := hc.rest
  have hne : ∀ q ∈ s.flowPoolList, q ≠ s.fresh := fun q hq heq =>
    lt_irrefl _ (heq ▸ hs.sound.lt q hq)
  have hmem : ∀ q, q ∈ t.flowPoolList ↔ q ∈ s.flowPoolList ∨ q = s.fresh := by
    intro q
    rw [hc.list, List.mem_append, List.mem_singleton]
  refine ⟨⟨?_, ?_, ?_, ?_, ?_⟩, ?_⟩
  · intro v q hm
    rw [hmap] at hm
    obtain ⟨hq, hv, hvdev⟩ := h.mapped v q hm
    rw [hc.pool q (hne q hq)]
    exact ⟨(hmem q).mpr (.inl hq), hv, hvdev⟩
  · rw [hfreed]
    exact h.once
  · intro q hq
    rw [hfreed] at hq
    obtain ⟨hnot, hlt, hout⟩ := h.idle q hq
    rw [hc.handedOut, hfresh]
    refine ⟨?_, Nat.lt_succ_of_lt hlt, hout⟩
    intro hq
    rcases (hmem q).mp hq with hq | heq
    · exact hnot hq
    · exact lt_irrefl _ (heq ▸ hlt)
  · intro q hq hinv
    rcases (hmem q).mp hq with hq | rfl
    · have hpool := hc.pool q (hne q hq)
      rw [hpool] at hinv
      exact (h.pending q hq hinv).congr (by rw [hpool]) (by rw [hpool]) (by rw [hpool])
        (by rw [hpool]) (hc.handedOut q)
    · rw [hc.status] at hinv
      cases hinv
  · have hcount : invalids t = invalids s := by
      unfold invalids
      rw [hc.list, List.countP_append, List.countP_singleton, hc.status]
      have hsame : s.flowPoolList.countP (fun q => (t.pool q).status = .invalid) =
          s.flowPoolList.countP fun q => (s.pool q).status = .invalid := by
        apply List.countP_congr
        intro q hq
        rw [hc.pool q (hne q hq)]
      rw [hsame]
      rfl
    rw [hbin, hcount]
    exact h.bin
  · intro q ha
    unfold Attached at ha ⊢
    rw [hfreed, hmap]
    rcases ha with hf | ⟨hq, ha⟩
    · exact .inl hf
    · right
      rw [hc.pool q (hne q hq)]
      exact ⟨(hmem q).mpr (.inl hq), ha⟩

variable {flowId flowType id : UInt8}

theorem mapHandler_keeps {size : UInt16} {mem : Bool}
    (hs : Settled cfg s) (h : Lasting cfg s)
    (hu : Sole cfg s (.map flowId flowType id size mem)) :
    Keeps cfg s (mapHandler cfg flowId flowType id size mem s) := by
  unfold mapHandler
  split
  · next p hid =>
      unfold mapPool
      split
      · next htype => exact mapped_keeps h (getFlowPool_mem hid) (hu.1 p hid htype) _
      · exact h.keeps_self
  · next hid =>
      split
      · next hmem =>
          obtain ⟨hp, hc⟩ := createFlowPool_spec hs id size.toNat
          obtain ⟨hnew, hfull⟩ := hu.2 hid hmem
          have hk := hc.keeps hs h
          have hlist : s.fresh ∈ (createFlowPool cfg s id size.toNat).1.flowPoolList := by
            rw [hc.list]
            exact List.mem_append_right _ (List.mem_singleton_self _)
          have hv : ((createFlowPool cfg s id size.toNat).1.pool s.fresh).status ≠ .invalid := by
            rw [hc.status]
            decide
          dsimp only
          unfold mapPool
          split
          · next htype =>
              rw [hp]
              refine hk.trans (mapped_keeps hk.1 hlist ?_ _)
              intro hvdev
              refine ⟨hv, ?_⟩
              intro q hq
              rw [hc.rest.1, hnew htype hvdev] at hq
              cases hq
          · next htype =>
              rw [if_pos rfl, hp]
              have hnone : ∀ v, (createFlowPool cfg s id size.toNat).1.vdevPool v ≠
                  some s.fresh := by
                intro v hm
                rw [hc.rest.1] at hm
                exact lt_irrefl _ (hs.sound.lt _ (h.mapped v _ hm).1)
              have hbal : Balanced (createFlowPool cfg s id size.toNat).1 s.fresh := by
                have := hc.avail
                unfold Balanced
                rw [hc.ownOut, hc.size, hc.overflow]
                omega
              obtain ⟨hl, ha⟩ := decPoolRef_lasting hc.settled hk.1 hlist hv hnone hbal
                (hc.full (hfull htype)) (.inl hc.overflow)
              exact ⟨hl, fun q hq => ha q (.inr (hk.2 q hq))⟩
      · exact h.keeps_self

theorem unmapHandler_keeps (hs : Settled cfg s) (h : Lasting cfg s)
    (hu : Sole cfg s (.unmap flowId flowType id)) :
    Keeps cfg s (unmapHandler cfg flowId flowType id s) := by
  unfold unmapHandler
  split
  · next p hid =>
      split
      · next htype =>
          have hp := getFlowPool_mem hid
          obtain ⟨hv, hsole, hown, hbal, hdef, hc⟩ := hu p hid htype
          have hset := vdevUnmap_settled hs p flowId
          have hbooks := vdevUnmap_books cfg p flowId s
          obtain ⟨havail, hdefs, hover, hsize⟩ := hbooks.books p
          obtain ⟨t, ht⟩ : ∃ t, t = vdevUnmap cfg p flowId s := ⟨_, rfl⟩
          have hfields : Standing s t ∧ t.vdevPool flowId = none ∧
              ∀ v ≠ flowId, t.vdevPool v = s.vdevPool v := by
            rw [ht]
            unfold vdevUnmap
            split
            · refine ⟨⟨rfl, rfl, rfl, rfl, ?_⟩, update_self ..,
                fun v hne => update_of_ne hne ..⟩
              intro q _
              rw [modPool_field FlowPool.status]
              split_ifs with heq
              · rw [heq]
              · exact Iff.rfl
            · next hvdev =>
                refine ⟨⟨rfl, rfl, rfl, rfl, fun _ _ => Iff.rfl⟩, ?_, fun _ _ => rfl⟩
                rcases hm : s.vdevPool flowId with _ | q
                · rfl
                · exact absurd (h.mapped flowId q hm).2.2 hvdev
          rw [← ht] at hset hbooks havail hdefs hover hsize ⊢
          clear ht
          obtain ⟨hk, hnone, hmap⟩ := hfields
          have hlast : Lasting cfg t := by
            apply h.standing hk
            · intro v q hm
              rcases eq_or_ne v flowId with rfl | hne
              · rw [hnone] at hm
                cases hm
              · rw [hmap v hne] at hm
                exact h.mapped v q hm
            · intro q hq
              rw [hbooks.handedOut]
              exact (h.idle q hq).2.2
            · intro q hq hinv
              obtain ⟨h₁, h₂, h₃, h₄⟩ := hbooks.books q
              exact (h.pending q hq hinv).congr h₁ h₂ h₃ h₄ (hbooks.handedOut q)
          have hpt : p ∈ t.flowPoolList := by
            rw [hk.list]
            exact hp
          have hvt : (t.pool p).status ≠ .invalid := fun heq => hv ((hk.invalid p hp).mp heq)
          have hnot : ∀ v, t.vdevPool v ≠ some p := by
            intro v hm
            rcases eq_or_ne v flowId with rfl | hne
            · rw [hnone] at hm
              cases hm
            · rw [hmap v hne] at hm
              exact hne (hsole v hm)
          have hbalt : Balanced t p := by
            unfold Balanced at hbal ⊢
            rw [havail, hdefs, hover, hsize, hbooks.handedOut]
            exact hbal
          obtain ⟨hl, ha⟩ := decPoolRef_lasting hset hlast hpt hvt hnot hbalt (hdefs.trans hdef)
            (by rw [hover, havail, hsize]; exact hc)
          refine ⟨hl, ?_⟩
          intro q hq
          apply ha q
          rcases eq_or_ne q p with rfl | hne
          · exact .inl rfl
          · right
            apply hk.attached _ hq
            intro v hm
            refine ⟨v, ?_⟩
            rw [hmap v, hm]
            rintro rfl
            exact hne (hown q hm)
      · exact h.keeps_self
  · exact h.keeps_self

theorem refCnt_keeps (h : Lasting cfg s) (p : ℕ) (f : ℤ → ℤ) :
    Keeps cfg s (s.modPool p fun pool => { pool with refCnt := f pool.refCnt }) := by
  have hpool : ∀ q, (s.modPool p fun pool => { pool with refCnt := f pool.refCnt }).pool q =
      { s.pool q with refCnt := ((s.modPool p fun pool =>
        { pool with refCnt := f pool.refCnt }).pool q).refCnt } := by
    intro q
    rcases eq_or_ne q p with rfl | hne
    · rw [modPool_self]
    · rw [modPool_of_ne hne]
  refine h.keeps ⟨rfl, rfl, rfl, rfl, ?_⟩ rfl (fun q hq => (h.idle q hq).2.2) ?_
  · intro q _
    rw [hpool]
  · intro q hq hinv
    exact (h.pending q hq hinv).congr (by rw [hpool]) (by rw [hpool]) (by rw [hpool])
      (by rw [hpool]) rfl

theorem updateQueueState_valid (hv : (s.pool p).status ≠ .invalid) :
    ((updateQueueState p s).pool p).status ≠ .invalid := by
  have hset : ∀ status, status ≠ .invalid →
      ((s.modPool p fun pool => { pool with status := status }).pool p).status ≠ .invalid := by
    intro status hne
    rw [modPool_self]
    exact hne
  unfold updateQueueState
  dsimp only
  split
  · exact hset .activeUnpaused (by decide)
  · split
    · exact hset .nonPrioPaused (by decide)
    · split
      · exact hset .activePaused (by decide)
      · exact hv

theorem resizePool_keeps (h : Lasting cfg s) (hs : Sound cfg s []) (hp : p ∈ s.flowPoolList)
    (hc : (s.pool p).flowPoolSize ≠ size → (s.pool p).status ≠ .invalid) :
    Keeps cfg s (resizePool cfg p size s) := by
  obtain ⟨_, hr⟩ := resizePool_spec cfg size hs hp
  by_cases hsize : (s.pool p).flowPoolSize = size
  · have hsame : resizePool cfg p size s = s := by
      unfold resizePool
      exact if_pos hsize
    rw [hsame]
    exact h.keeps_self
  · have hv := hc hsize
    have hvt : ((resizePool cfg p size s).pool p).status ≠ .invalid := by
      unfold resizePool
      rw [if_neg hsize]
      split
      · apply updateQueueState_valid
        rw [(shrink_spec cfg size hs hp).status]
        exact hv
      · apply updateQueueState_valid
        rw [(grow_spec cfg size hs hp).status]
        exact hv
    have hdev := hr.device
    refine h.keeps ⟨hr.list, by rw [hdev], by rw [hdev], by rw [hdev], ?_⟩ (by rw [hdev]) ?_ ?_
    · intro q _
      rcases eq_or_ne q p with rfl | hne
      · exact iff_of_false hvt hv
      · rw [hr.others q hne]
    · intro q hq
      rw [hr.out]
      exact (h.idle q hq).2.2
    · intro q hq hinv
      have hne : q ≠ p := fun heq => hv (heq ▸ hinv)
      have hpool := hr.others q hne
      exact (h.pending q hq hinv).congr (by rw [hpool]) (by rw [hpool]) (by rw [hpool])
        (by rw [hpool]) (hr.out q)

theorem resizeHandler_keeps {size : UInt16} (hs : Settled cfg s)
    (h : Lasting cfg s) (hu : Sole cfg s (.resize id size)) :
    Keeps cfg s (resizeHandler cfg id size s) := by
  rcases hid : getFlowPool s id with _ | p
  · unfold resizeHandler
    rw [hid]
    exact h.keeps_self
  · have hp := getFlowPool_mem hid
    have hc := hu p hid
    have hinc : Keeps cfg s (incPoolRef p s) := refCnt_keeps h p fun n => n + 1
    have hres : Keeps cfg (incPoolRef p s) (resizePool cfg p size.toNat (incPoolRef p s)) := by
      apply resizePool_keeps hinc.1 (incPoolRef_resized hs.sound p) hp
      unfold incPoolRef
      rw [modPool_self]
      exact hc
    rw [resizeHandler_eq hs hid]
    exact (hinc.trans hres).trans (refCnt_keeps hres.1 p fun n => n - 1)

theorem Allocated.keeps (ha : Allocated cfg v p s t) (h : Lasting cfg s)
    (hp : p ∈ s.flowPoolList) (hpos : 0 < (s.pool p).availDesc) : Keeps cfg s t := by
  have hdev := ha.device
  refine h.keeps ⟨by rw [hdev], by rw [hdev], by rw [hdev], by rw [hdev], ?_⟩ (by rw [hdev]) ?_ ?_
  · intro q _
    rcases eq_or_ne q p with rfl | hne
    · exact ha.invalid_iff
    · rw [ha.others q hne]
  · intro q hq
    obtain ⟨hnot, _, hout⟩ := h.idle q hq
    have hne : q ≠ p := fun heq => hnot (heq ▸ hp)
    rw [ha.handedOut, if_neg hne]
    exact hout
  · intro q hq hinv
    have hpend := h.pending q hq hinv
    have hout := ha.handedOut q
    rcases eq_or_ne q p with rfl | hne
    · have hlt := hpend.lt
      have hbal := hpend.balanced
      have hsurplus := hpend.surplus
      rw [if_pos rfl] at hout
      unfold Balanced at hbal
      refine ⟨by rw [ha.pool]; exact hpend.deficient, ?_, ?_, ?_⟩
      · rw [ha.pool]
        dsimp only
        omega
      · unfold Balanced
        rw [ha.pool, hout]
        dsimp only
        omega
      · rw [ha.pool]
        dsimp only
        omega
    · rw [if_neg hne] at hout
      have hpool := ha.others q hne
      exact hpend.congr (by rw [hpool]) (by rw [hpool]) (by rw [hpool]) (by rw [hpool]) hout

theorem descAlloc_keeps {mgmt : Bool} (hs : Settled cfg s) (h : Lasting cfg s)
    (ht : descAlloc v mgmt s = some t) : Keeps cfg s t := by
  unfold descAlloc at ht
  split at ht
  · cases ht
    exact h.keeps_self
  · split at ht
    · next hp =>
        cases ht
        rcases allocFrom_spec v hs hp with ⟨_, heq⟩ | ⟨hpos, ha⟩
        · rw [heq]
          exact h.keeps_self
        · exact ha.keeps h hp hpos
    · cases ht

theorem Returned.standing (hr : Returned cfg p d s t) : Standing s t := by
  have hdev := hr.device
  refine ⟨hr.list, by rw [hdev], by rw [hdev], by rw [hdev], ?_⟩
  intro q _
  rw [(hr.pool_eq q).1]

theorem Returned.pending (hr : Returned cfg p d s t) (h : Lasting cfg s)
    (hq : q ∈ s.flowPoolList) (hne : q ≠ p) (hinv : (s.pool q).status = .invalid) :
    Pending t q := by
  have hout := hr.handedOut q
  rw [if_neg hne, Nat.add_zero] at hout
  have hpool := hr.others q hne
  exact (h.pending q hq hinv).congr (by rw [hpool]) (by rw [hpool]) (by rw [hpool])
    (by rw [hpool]) hout

theorem Returned.pending_self (hr : Returned cfg p d s t) (hpend : Pending s p)
    (hc : (t.pool p).availDesc ≠ (t.pool p).flowPoolSize) : Pending t p := by
  have hout := hr.handedOut p
  have hlt := hpend.lt
  have hbal := hpend.balanced
  have hsurplus := hpend.surplus
  rw [if_pos rfl] at hout
  unfold Balanced at hbal
  rcases hr.books with ⟨hover, _, hpool⟩ | ⟨hover, _, hpool⟩
  · rw [hpool] at hc
    dsimp only at hc
    refine ⟨by rw [hpool]; exact hpend.deficient, ?_, ?_, ?_⟩
    · rw [hpool]
      dsimp only
      omega
    · unfold Balanced
      rw [hpool]
      dsimp only
      omega
    · rw [hpool]
      exact .inr hover
  · refine ⟨by rw [hpool]; exact hpend.deficient, by rw [hpool]; exact hlt, ?_, ?_⟩
    · unfold Balanced
      rw [hpool]
      dsimp only
      omega
    · rw [hpool]
      dsimp only
      omega

theorem wakeOnFree_keeps (hs : Settled cfg s) (h : Lasting cfg s) (p : ℕ) :
    Keeps cfg s (wakeOnFree p s) := by
  have hbooks := wakeOnFree_books hs p
  obtain ⟨_, hdev, hothers, _, _, hvalid⟩ := wakeOnFree_spec hs p
  refine h.keeps ⟨by rw [hdev], by rw [hdev], by rw [hdev], by rw [hdev], ?_⟩ (by rw [hdev]) ?_ ?_
  · intro q _
    refine ⟨?_, hbooks.invalid q⟩
    intro hinv
    rcases eq_or_ne q p with rfl | hne
    · exact by_contra fun hv => hvalid hv hinv
    · rw [hothers q hne] at hinv
      exact hinv
  · intro q hq
    rw [hbooks.handedOut]
    exact (h.idle q hq).2.2
  · intro q hq hinv
    obtain ⟨h₁, h₂, h₃, h₄⟩ := hbooks.books q
    exact (h.pending q hq hinv).congr h₁ h₂ h₃ h₄ (hbooks.handedOut q)

theorem descFree_keeps (hs : Settled cfg s) (h : Lasting cfg s) (ht : descFree d s = some t) :
    Keeps cfg s t := by
  obtain ⟨p, u, hp, _, _, hr, rfl⟩ := descFree_spec hs ht
  have hk := hr.standing
  have hdev := hr.device
  have hmap : u.vdevPool = s.vdevPool := by rw [hdev]
  have hup : p ∈ u.flowPoolList := by
    rw [hk.list]
    exact hp
  have hidle : ∀ q ∈ s.freed, out u q = 0 := by
    intro q hq
    have := hr.handedOut q
    have := (h.idle q hq).2.2
    omega
  unfold freeByStatus
  split
  · next hcomplete =>
      obtain ⟨hinv, hfull⟩ := hcomplete
      have hinvs := (hk.invalid p hp).mp hinv
      have hpend := h.pending p hp hinvs
      -- The last descriptor that was missing is back.
      have hout : out u p = 0 := by
        have hout := hr.handedOut p
        have hlt := hpend.lt
        have hdef := hpend.deficient
        have hbal := hpend.balanced
        rw [if_pos rfl] at hout
        unfold Balanced at hbal
        rcases hr.books with ⟨hover, _, hpool⟩ | ⟨_, _, hpool⟩
        · rw [hpool] at hfull
          dsimp only at hfull
          omega
        · rw [hpool] at hfull
          dsimp only at hfull
          omega
      have hfree : Keeps cfg u (freeInvalidFlowPool p u) := by
        apply freeInvalidFlowPool_lasting hr.settled hup hinv
        · intro v q hm
          rw [hmap] at hm
          obtain ⟨hq, hv, hvdev⟩ := h.mapped v q hm
          rw [hk.list]
          exact ⟨hq, fun heq => hv ((hk.invalid q hq).mp heq), hvdev⟩
        · rw [hk.freed]
          exact h.once
        · intro q hq
          rw [hk.freed] at hq
          obtain ⟨hnot, hlt, _⟩ := h.idle q hq
          rw [hk.list, hk.fresh]
          exact ⟨hnot, hlt, hidle q hq⟩
        · intro q hq hne hiq
          rw [hk.list] at hq
          exact hr.pending h hq hne ((hk.invalid q hq).mp hiq)
        · rw [hk.bin, hk.invalids]
          exact h.bin
        · exact hout
      refine ⟨hfree.1, fun q hq => hfree.2 q (hk.attached ?_ hq)⟩
      rw [hmap]
      exact fun v hm => ⟨v, hm⟩
  · next hcomplete =>
      have hku : Keeps cfg s u := by
        apply h.keeps hk hmap hidle
        intro q hq hinv
        rcases eq_or_ne q p with rfl | hne
        · apply hr.pending_self (h.pending q hq hinv)
          exact fun hfull => hcomplete ⟨(hk.invalid q hq).mpr hinv, hfull⟩
        · exact hr.pending h hq hne hinv
      have hkw := hku.trans (wakeOnFree_keeps hr.settled hku.1 p)
      split
      · exact hkw.trans (hkw.1.serve (wakeOnFree_spec hr.settled p).1 freeInvalidFlowPool)
      · exact hkw

theorem next_keeps {e : Event} (hs : Settled cfg s) (h : Lasting cfg s) (hu : Sole cfg s e)
    (ht : next cfg s e = some t) : Keeps cfg s t := by
  cases e with
  | map flowId flowType id size mem =>
    cases ht
    exact mapHandler_keeps hs h hu
  | unmap flowId flowType id =>
    cases ht
    exact unmapHandler_keeps hs h hu
  | resize id size =>
    cases ht
    exact resizeHandler_keeps hs h hu
  | alloc vdev mgmt => exact descAlloc_keeps hs h ht
  | free d => exact descFree_keeps hs h ht

theorem start_lasting (cfg : Cfg) : Lasting cfg (start cfg) := by
  have hattach : Lasting cfg (attach cfg) := by
    refine ⟨?_, List.nodup_nil, ?_, ?_, rfl⟩
    · intro v p hm
      cases hm
    · intro p hp
      cases hp
    · intro p hp
      cases hp
  unfold start
  split
  · exact hattach
  · have hc := (createFlowPool_spec (attach_settled cfg) mgmtPoolId mgmtPoolSize).2
    have hl := (hc.keeps (attach_settled cfg) hattach).1
    refine ⟨hl.mapped, hl.once, hl.idle, ?_, hl.bin⟩
    intro p hp hinv
    exact (hl.pending p hp hinv).congr rfl rfl rfl rfl rfl

theorem run_keeps {es : List Event} (hs : Settled cfg s) (h : Lasting cfg s)
    (hm : (machine cfg).Meets (fun o e => ∀ s, o = some s → Sole cfg s e) (some s) es)
    (ht : ((machine cfg).run (some s) es).1 = some t) : Settled cfg t ∧ Keeps cfg s t := by
  induction es generalizing s with
  | nil =>
    cases ht
    exact ⟨hs, h.keeps_self⟩
  | cons e es ih =>
    obtain ⟨hc, hm⟩ := hm
    rw [Machine.run_cons] at ht
    rcases hn : next cfg s e with _ | u
    · have hnone : ∀ es, ((machine cfg).run none es).1 = none := by
        intro es
        induction es with
        | nil => rfl
        | cons e es ih => exact ih
      change ((machine cfg).run (next cfg s e) es).1 = some t at ht
      rw [hn, hnone] at ht
      cases ht
    · change ((machine cfg).run (next cfg s e) es).1 = some t at ht
      change (machine cfg).Meets _ (next cfg s e) es at hm
      rw [hn] at ht hm
      have hk := next_keeps hs h (hc s rfl) hn
      obtain ⟨htset, htk⟩ := ih (next_settled hs hn) hk.1 hm ht
      exact ⟨htset, hk.trans htk⟩

/-- In a run whose steps find what they have to find no vdev has a pool that is freed, a pool is
freed once and with nothing of it handed out, and one that some vdev had is freed as soon as no vdev
has it and all its descriptors are back. -/
theorem sole_alive (cfg : Cfg) (es fs : List Event) (s t : Pdev)
    (hm : (machine cfg).Meets (fun o e => ∀ s, o = some s → Sole cfg s e) (some (start cfg))
      (es ++ fs))
    (hs : ((machine cfg).run (some (start cfg)) es).1 = some s)
    (ht : ((machine cfg).run (some s) fs).1 = some t) :
    Alive cfg t ∧ ∀ v p, s.vdevPool v = some p → (∀ w, t.vdevPool w ≠ some p) → out t p = 0 →
      p ∈ t.freed := by
  obtain ⟨hme, hmf⟩ := ((machine cfg).meets_append _ _ es fs).mp hm
  obtain ⟨hset, hl, _⟩ := run_keeps (start_settled cfg) (start_lasting cfg) hme hs
  rw [hs] at hmf
  obtain ⟨hset', hl', hatt⟩ := run_keeps hset hl hmf ht
  refine ⟨hl'.alive hset'.sound, ?_⟩
  intro v p hv hnone hout
  have ha : Attached s p := .inr ⟨(hl.mapped v p hv).1, .inr ⟨v, hv⟩⟩
  exact (hatt p ha).freed hl' hnone hout

/-- A pool that is unmapped while one of its descriptors is handed out is freed when that is
back. -/
theorem sole_alive_freed : ∃ s t,
    ((machine tenDesc).run (some (start tenDesc)) [.map 0 0 1 4 true, .alloc 0 false]).1 = some s ∧
      ((machine tenDesc).run (some s) [.unmap 0 0 1, .free 3]).1 = some t ∧
      Alive tenDesc t ∧ 0 ∈ t.freed := by
  have hm : (machine tenDesc).Meets (fun o e => ∀ s, o = some s → Sole tenDesc s e)
      (some (start tenDesc)) ([.map 0 0 1 4 true, .alloc 0 false] ++ [.unmap 0 0 1, .free 3]) := by
    refine ⟨?_, fun _ _ => trivial, ?_, fun _ _ => trivial, trivial⟩
    · intro s hs
      cases hs
      refine ⟨fun p hp => ?_, fun _ _ => ⟨fun _ _ => rfl, fun hne => absurd rfl hne⟩⟩
      cases hp
    · intro s hs
      cases hs
      intro p hp _
      have hzero : p = 0 := (Option.some.inj hp).symm
      subst hzero
      refine ⟨by decide, ?_, by decide, by decide, by decide, by decide⟩
      intro v hv
      by_contra hne
      change update (fun _ => none) 0 (some 0) v = some 0 at hv
      rw [update_of_ne hne] at hv
      cases hv
  obtain ⟨halive, hfreed⟩ := sole_alive tenDesc [.map 0 0 1 4 true, .alloc 0 false]
    [.unmap 0 0 1, .free 3] _ _ hm rfl rfl
  refine ⟨_, _, rfl, rfl, halive, hfreed 0 0 rfl ?_ rfl⟩
  intro w hw
  change update (update (fun _ => none) 0 (some 0)) 0 none w = some 0 at hw
  rw [update_idem] at hw
  rcases eq_or_ne w 0 with rfl | hne
  · cases hw
  · rw [update_of_ne hne] at hw
    cases hw

/-- A pool that two vdevs have is freed when one of them gives it up. -/
theorem not_alive : ¬ ∀ es t, ((machine tenDesc).run (some (start tenDesc)) es).1 = some t →
    Alive tenDesc t := by
  intro h
  have hm := (h [.map 0 0 1 4 true, .map 1 0 1 4 true, .unmap 0 0 1] _ rfl).mapped 1 0 rfl
  exact absurd hm.1 (by decide)

end KernelModules.TxFlow
