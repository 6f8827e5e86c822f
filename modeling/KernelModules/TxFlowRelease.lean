import KernelModules.TxFlowMoves

/-!
# Giving up a tx flow pool

A pool whose last reference is dropped gives its descriptors to the device and is freed, or stays
as an invalid pool. The device then serves the pools that are short, and an invalid pool that is
complete by that gives up its descriptors in turn. Each of these calls frees a pool, so that they
come to an end; what each part of one call preserves they all preserve.
-/

namespace KernelModules.TxFlow

variable {cfg : Cfg} {s t : Pdev} {p q n k : ℕ}

/-- Between two steps nothing is on the stack, and each pool on the list has one reference. -/
structure Settled (cfg : Cfg) (s : Pdev) : Prop where
  sound : Sound cfg s []
  ref : ∀ p ∈ s.flowPoolList, (s.pool p).refCnt = 1

theorem Settled.of_redistributed (h : Settled cfg s) (hs : Sound cfg t [])
    (hk : Redistributed s t) : Settled cfg t := by
  refine ⟨hs, ?_⟩
  intro p hp
  rw [hk.list] at hp
  rw [hk.refCnt]
  exact h.ref p hp

/-- `ol_tx_distribute_descs_to_deficient_pools_from_global_pool` up to the call of
`ol_tx_free_invalid_flow_pool`. -/
def grantAll (s : Pdev) : Pdev × Option ℕ :=
  let totalDescReq := u16 (s.flowPoolList.map fun p => (s.pool p).deficientDesc).sum
  let n := if totalDescReq ≤ s.numFree then totalDescReq else s.numFree
  let (s, temp) := takeGlobalPool n s []
  if n = 0 then (s, none) else globalLoop s.flowPoolList temp n none s

theorem distributeFromGlobal_eq (f : ℕ → Pdev → Pdev) (s : Pdev) :
    distributeFromGlobal f s =
      match (grantAll s).2 with
      | some p => f p (grantAll s).1
      | none => (grantAll s).1 := by
  obtain ⟨n, hn⟩ : ∃ n, n =
      if u16 (s.flowPoolList.map fun p => (s.pool p).deficientDesc).sum ≤ s.numFree
      then u16 (s.flowPoolList.map fun p => (s.pool p).deficientDesc).sum else s.numFree := ⟨_, rfl⟩
  unfold distributeFromGlobal grantAll
  dsimp only
  rw [← hn]
  by_cases hzero : n = 0
  · simp only [if_pos hzero]
  · simp only [if_neg hzero]
    rcases globalLoop _ _ n none _ with ⟨t, _ | p⟩ <;> rfl

theorem grantAll_eq_self (h : s.numFree = 0 ∨ ∀ p ∈ s.flowPoolList, (s.pool p).deficientDesc = 0) :
    grantAll s = (s, none) := by
  have hzero : (if u16 (s.flowPoolList.map fun p => (s.pool p).deficientDesc).sum ≤ s.numFree
      then u16 (s.flowPoolList.map fun p => (s.pool p).deficientDesc).sum else s.numFree) = 0 := by
    rcases h with h | h
    · split <;> omega
    · have htotal : (s.flowPoolList.map fun p => (s.pool p).deficientDesc).sum = 0 :=
        Ledger.total_eq_zero h
      rw [htotal]
      rfl
  unfold grantAll
  dsimp only
  rw [hzero]
  rfl

theorem grantAll_spec (h : Sound cfg s []) :
    Sound cfg (grantAll s).1 [] ∧ Granted s (grantAll s).1 ∧
      ((grantAll s).2 = none ∨ ∃ p ∈ s.flowPoolList, (grantAll s).2 = some p ∧
        (s.pool p).status = .invalid ∧ (s.pool p).deficientDesc ≠ 0) := by
  obtain ⟨n, hn⟩ : ∃ n, n =
      if u16 (s.flowPoolList.map fun p => (s.pool p).deficientDesc).sum ≤ s.numFree
      then u16 (s.flowPoolList.map fun p => (s.pool p).deficientDesc).sum else s.numFree := ⟨_, rfl⟩
  have hfree : n ≤ s.numFree := by split at hn <;> omega
  have htotal : n ≤ Ledger.total (fun p => (s.pool p).deficientDesc) s.flowPoolList := by
    have hmod : u16 (s.flowPoolList.map fun p => (s.pool p).deficientDesc).sum ≤
        (s.flowPoolList.map fun p => (s.pool p).deficientDesc).sum := Nat.mod_le ..
    unfold Ledger.total
    split at hn <;> omega
  have hlen : n ≤ s.freelist.length := by
    have := h.numFree
    omega
  have htake := h.takeGlobal n
  have hgrant : Granted s { s with
      freelist := s.freelist.drop n, numFree := s.numFree - n } :=
    ⟨.takeGlobal s n, fun _ => rfl, fun _ _ => rfl, fun _ => le_rfl⟩
  unfold grantAll
  dsimp only
  rw [← hn, takeGlobalPool_eq n s [] hlen]
  split
  · next hzero =>
      subst hzero
      exact ⟨htake, hgrant, .inl rfl⟩
  · have hcount : ((s.freelist.take n).reverse ++ []).length = n := by
      simp only [List.append_nil, List.length_reverse, List.length_take]
      omega
    obtain ⟨hs, hg, htmp⟩ := globalLoop_spec none htake (fun _ hq => hq) hcount htotal
    exact ⟨hs, hgrant.trans hg, htmp⟩

/-- `ol_tx_dec_pool_ref` with the last reference, up to where the device serves the others. -/
def dropPool (p : ℕ) (s : Pdev) : Pdev :=
  ((s.pool p).freelist.take (s.pool p).availDesc).foldl putDescGlobalPool
    (retirePool p false
      { s.modPool p fun pool => { pool with refCnt := pool.refCnt - 1 } with
        flowPoolList := s.flowPoolList.erase p })

theorem decPoolRefWith_eq (f : ℕ → Pdev → Pdev) (h : (s.pool p).refCnt = 1) :
    decPoolRefWith f p false s = distributeFromGlobal f (dropPool p s) := by
  unfold decPoolRefWith deleteFlowPool dropPool
  simp [h, Pdev.modPool]

/-- What `dropPool` comes to: the pool is freed, or it stays at the end of the list. -/
inductive Dropped (p : ℕ) (s : Pdev) : Pdev → Prop
  | freed (heq : (s.pool p).availDesc = (s.pool p).flowPoolSize) :
      Dropped p s { s.modPool p fun pool =>
          { pool with
            refCnt := pool.refCnt - 1, status := .inactive, freelist := [], availDesc := 0 } with
        freelist := (s.pool p).freelist.reverse ++ s.freelist
        numFree := s.numFree + (s.pool p).availDesc
        flowPoolList := s.flowPoolList.erase p
        freed := s.freed ++ [p] }
  | kept (hne : (s.pool p).availDesc ≠ (s.pool p).flowPoolSize) :
      Dropped p s { s.modPool p fun pool =>
          { pool with
            refCnt := pool.refCnt - 1 + 1
            status := .invalid
            freelist := []
            availDesc := 0
            flowPoolSize := u16 (pool.flowPoolSize + 2 ^ 16 - pool.availDesc)
            flowPoolId := invalidFlowId } with
        freelist := (s.pool p).freelist.reverse ++ s.freelist
        numFree := s.numFree + (s.pool p).availDesc
        numInvalidBin := u8 (s.numInvalidBin + 1)
        flowPoolList := s.flowPoolList.erase p ++ [p] }

theorem dropPool_cases (h : Sound cfg s []) (hp : p ∈ s.flowPoolList) :
    Dropped p s (dropPool p s) := by
  have hlen := h.avail p hp
  unfold dropPool
  rw [List.take_of_length_le hlen.ge, putGlobalPool_eq, ← hlen]
  by_cases heq : (s.pool p).availDesc = (s.pool p).flowPoolSize
  · have hd := Dropped.freed (s := s) (p := p) heq
    unfold retirePool
    simpa [heq, Pdev.modPool] using hd
  · have hd := Dropped.kept (s := s) (p := p) heq
    unfold retirePool
    simpa [heq, Pdev.modPool] using hd

namespace Dropped

theorem pool_of_ne (h : Dropped p s t) (hne : q ≠ p) : t.pool q = s.pool q := by
  cases h <;> exact Function.update_of_ne hne ..

theorem inUse (h : Dropped p s t) : t.inUse = s.inUse := by cases h <;> rfl

theorem descPool (h : Dropped p s t) : t.descPool = s.descPool := by cases h <;> rfl

theorem vdevPool (h : Dropped p s t) : t.vdevPool = s.vdevPool := by cases h <;> rfl

theorem queues (h : Dropped p s t) : t.queues = s.queues := by cases h <;> rfl

theorem fresh (h : Dropped p s t) : t.fresh = s.fresh := by cases h <;> rfl

theorem numFree (h : Dropped p s t) : t.numFree = s.numFree + (s.pool p).availDesc := by
  cases h <;> rfl

theorem freelist (h : Dropped p s t) : t.freelist = (s.pool p).freelist.reverse ++ s.freelist := by
  cases h <;> rfl

theorem out (h : Dropped p s t) (q : ℕ) : out t q = out s q := by
  unfold TxFlow.out
  rw [h.inUse, h.descPool]

theorem empty (h : Dropped p s t) : (t.pool p).freelist = [] ∧ (t.pool p).availDesc = 0 := by
  cases h <;> simp [Pdev.modPool]

theorem nodup (h : Dropped p s t) (hnodup : s.flowPoolList.Nodup) : t.flowPoolList.Nodup := by
  cases h with
  | freed _ => exact hnodup.erase p
  | kept _ =>
    apply List.nodup_append.mpr
    refine ⟨hnodup.erase p, List.nodup_singleton p, ?_⟩
    intro a ha b hb heq
    rw [List.mem_singleton.mp hb] at heq
    exact hnodup.not_mem_erase (heq ▸ ha)

theorem mem_of_mem (h : Dropped p s t) (hp : p ∈ s.flowPoolList) (hq : q ∈ t.flowPoolList) :
    q ∈ s.flowPoolList := by
  cases h with
  | freed _ => exact List.mem_of_mem_erase hq
  | kept _ =>
    rcases List.mem_append.mp hq with hq | hq
    · exact List.mem_of_mem_erase hq
    · rw [List.mem_singleton.mp hq]
      exact hp

theorem mem_of_ne (h : Dropped p s t) (hq : q ∈ s.flowPoolList) (hne : q ≠ p) :
    q ∈ t.flowPoolList := by
  cases h with
  | freed _ => exact (List.mem_erase_of_ne hne).mpr hq
  | kept _ => exact List.mem_append_left _ ((List.mem_erase_of_ne hne).mpr hq)

theorem total (h : Dropped p s t) (hp : p ∈ s.flowPoolList) (hnodup : s.flowPoolList.Nodup)
    (f : FlowPool → ℕ) (hf : f (t.pool p) = 0) :
    Ledger.total (fun q => f (t.pool q)) t.flowPoolList + f (s.pool p) =
      Ledger.total (fun q => f (s.pool q)) s.flowPoolList := by
  have herase : Ledger.total (fun q => f (t.pool q)) (s.flowPoolList.erase p) =
      Ledger.total (fun q => f (s.pool q)) (s.flowPoolList.erase p) :=
    Ledger.total_congr fun q hq => by
      rw [h.pool_of_ne (fun heq => hnodup.not_mem_erase (heq ▸ hq))]
  have hlist : Ledger.total (fun q => f (t.pool q)) t.flowPoolList =
      Ledger.total (fun q => f (t.pool q)) (s.flowPoolList.erase p) := by
    cases h with
    | freed _ => rfl
    | kept _ =>
      change Ledger.total _ (_ ++ [p]) = _
      rw [Ledger.total_concat, hf, Nat.add_zero]
  rw [hlist, herase]
  exact Ledger.total_erase (f := fun q => f (s.pool q)) hp

theorem settled (h : Dropped p s t) (hs : Settled cfg s) (hp : p ∈ s.flowPoolList) :
    Settled cfg t := by
  have hsound := hs.sound
  refine ⟨⟨h.nodup hsound.nodup, ?_, ?_, ?_, ?_, ?_, ?_⟩, ?_⟩
  · intro q hq
    rw [h.fresh]
    exact hsound.lt q (h.mem_of_mem hp hq)
  · rw [h.numFree, h.freelist, List.length_append, List.length_reverse, ← hsound.numFree,
      ← hsound.avail p hp, Nat.add_comm]
  · intro q hq
    rcases eq_or_ne q p with rfl | hne
    · rw [h.empty.1, h.empty.2]
      rfl
    · rw [h.pool_of_ne hne]
      exact hsound.avail q (h.mem_of_mem hp hq)
  · intro d
    have htotal := h.total hp hsound.nodup (fun pool => pool.freelist.count d)
      (by rw [h.empty.1]; rfl)
    rw [← hsound.place d]
    simp only [places, h.freelist, h.inUse, List.count_append, List.count_reverse]
    omega
  · intro q hq d hd
    rcases eq_or_ne q p with rfl | hne
    · rw [h.empty.1] at hd
      cases hd
    · rw [h.pool_of_ne hne] at hd
      rw [h.descPool]
      exact hsound.owner q (h.mem_of_mem hp hq) d hd
  · rw [h.inUse, h.descPool, h.fresh]
    exact hsound.user
  · intro q hq
    rcases eq_or_ne q p with rfl | hne
    · cases h with
      | freed _ => exact absurd hq hsound.nodup.not_mem_erase
      | kept _ =>
        simp only [Pdev.modPool, Function.update_self]
        have := hs.ref q hp
        omega
    · rw [h.pool_of_ne hne]
      exact hs.ref q (h.mem_of_mem hp hq)

end Dropped

/-- `ol_tx_free_invalid_flow_pool` up to where it drops the reference. -/
def emptied (p : ℕ) (s : Pdev) : Pdev :=
  { (distributeToDeficientPools p s).modPool p fun pool =>
      { pool with flowPoolSize := pool.availDesc } with
    numInvalidBin := u8 (s.numInvalidBin + 2 ^ 8 - 1) }

theorem distributeToDeficientPools_spec (h : Sound cfg s []) (hp : p ∈ s.flowPoolList) :
    Sound cfg (distributeToDeficientPools p s) [] ∧
      Dealt p s.flowPoolList (s.pool p).availDesc s (distributeToDeficientPools p s) :=
  distributeLoop_spec h hp (fun _ hq => hq) le_rfl

theorem emptied_settled (h : Settled cfg s) (hp : p ∈ s.flowPoolList) :
    Settled cfg (emptied p s) := by
  obtain ⟨hs, hd⟩ := distributeToDeficientPools_spec h.sound hp
  have hsound := hs.modPool (p := p)
    (f := fun pool => { pool with flowPoolSize := pool.availDesc }) rfl rfl
  refine ⟨⟨hsound.nodup, hsound.lt, hsound.numFree, hsound.avail, hsound.place, hsound.owner,
    hsound.user⟩, ?_⟩
  intro q hq
  change q ∈ (distributeToDeficientPools p s).flowPoolList at hq
  rw [hd.kept.list] at hq
  have href := (hd.kept.refCnt q).trans (h.ref q hq)
  unfold emptied
  simp only [modPool_field FlowPool.refCnt]
  split_ifs with heq
  · subst heq
    exact href
  · exact href

theorem emptied_list (h : Settled cfg s) (hp : p ∈ s.flowPoolList) :
    (emptied p s).flowPoolList = s.flowPoolList :=
  (distributeToDeficientPools_spec h.sound hp).2.kept.list

theorem emptied_size (p : ℕ) (s : Pdev) :
    ((emptied p s).pool p).availDesc = ((emptied p s).pool p).flowPoolSize := by
  simp [emptied, Pdev.modPool]

theorem emptied_out (h : Settled cfg s) (hp : p ∈ s.flowPoolList) (q : ℕ) :
    out (emptied p s) q = out s q :=
  (distributeToDeficientPools_spec h.sound hp).2.kept.out q

theorem emptied_pool_of_ne (hne : q ≠ p) (s : Pdev) :
    (emptied p s).pool q = (distributeToDeficientPools p s).pool q := Function.update_of_ne hne ..

theorem freeInvalidFuel_succ (h : Settled cfg s) (hp : p ∈ s.flowPoolList)
    (hinv : (s.pool p).status = .invalid) (k : ℕ) :
    freeInvalidFuel (k + 1) p s =
      distributeFromGlobal (freeInvalidFuel k) (dropPool p (emptied p s)) := by
  obtain ⟨_, hd⟩ := distributeToDeficientPools_spec h.sound hp
  have hbin : (distributeToDeficientPools p s).numInvalidBin = s.numInvalidBin := by
    rw [hd.kept.device]
  have href := (emptied_settled h hp).ref p (by rw [emptied_list h hp]; exact hp)
  unfold freeInvalidFuel
  rw [if_pos hinv, ← decPoolRefWith_eq _ href]
  simp only [emptied, ← hbin]
  rfl

theorem dropPool_emptied_settled (h : Settled cfg s) (hp : p ∈ s.flowPoolList) :
    Settled cfg (dropPool p (emptied p s)) := by
  have hmem : p ∈ (emptied p s).flowPoolList := by
    rw [emptied_list h hp]
    exact hp
  have he := emptied_settled h hp
  exact (dropPool_cases he.sound hmem).settled he hmem

theorem distributeFromGlobal_rule {I : Pdev → Prop} {f : ℕ → Pdev → Pdev}
    (hgrant : ∀ s, Settled cfg s → I s → I (grantAll s).1)
    (hfree : ∀ s, Settled cfg s → I s → ∀ p ∈ s.flowPoolList, Settled cfg (f p s) ∧ I (f p s))
    (h : Settled cfg s) (hi : I s) :
    Settled cfg (distributeFromGlobal f s) ∧ I (distributeFromGlobal f s) := by
  obtain ⟨hs, hg, htmp⟩ := grantAll_spec h.sound
  have hset := h.of_redistributed hs hg.kept
  have hi' := hgrant s h hi
  rw [distributeFromGlobal_eq]
  rcases htmp with heq | ⟨p, hp, heq, _⟩
  · rw [heq]
    exact ⟨hset, hi'⟩
  · rw [heq]
    exact hfree _ hset hi' p (by rw [hg.kept.list]; exact hp)

theorem freeInvalidFuel_rule {I : Pdev → Prop}
    (hgrant : ∀ s, Settled cfg s → I s → I (grantAll s).1)
    (hdrop : ∀ s, Settled cfg s → I s → ∀ p ∈ s.flowPoolList, (s.pool p).status = .invalid →
      I (dropPool p (emptied p s)))
    (k : ℕ) (h : Settled cfg s) (hi : I s) (hp : p ∈ s.flowPoolList) :
    Settled cfg (freeInvalidFuel k p s) ∧ I (freeInvalidFuel k p s) := by
  induction k generalizing s p with
  | zero => exact ⟨h, hi⟩
  | succ k ih =>
    by_cases hinv : (s.pool p).status = .invalid
    · rw [freeInvalidFuel_succ h hp hinv]
      exact distributeFromGlobal_rule hgrant (fun t ht hit q hq => ih ht hit hq)
        (dropPool_emptied_settled h hp) (hdrop s h hi p hp hinv)
    · unfold freeInvalidFuel
      rw [if_neg hinv]
      exact ⟨h, hi⟩

end KernelModules.TxFlow
