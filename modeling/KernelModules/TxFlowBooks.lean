import KernelModules.TxFlowSteps

/-!
# The books of the tx flow pools

What a pool has, what is handed out of it and what it is short of make up its size and what it has
too much. The device that serves the pools that are short does not write down what they get, and a
reduction that finds too few free descriptors forgets what it could not take. Where neither
happens, the books of every pool that is not invalid stay balanced.
-/

namespace KernelModules.TxFlow

variable {cfg : Cfg} {s t : Pdev} {p q d size : ℕ}

def Balanced (s : Pdev) (p : ℕ) : Prop :=
  (s.pool p).availDesc + out s p + (s.pool p).deficientDesc =
    (s.pool p).flowPoolSize + (s.pool p).overflowDesc
deriving Decidable

/-- Every descriptor is in one place, the counters are the lengths of the lists, and the books of
each pool that is not invalid are balanced. -/
structure Conserved (cfg : Cfg) (s : Pdev) : Prop where
  place : ∀ d, places s [] d = if d < cfg.numDesc.toNat then 1 else 0
  numFree : s.numFree = s.freelist.length
  avail : ∀ p ∈ s.flowPoolList, (s.pool p).availDesc = (s.pool p).freelist.length
  balanced : ∀ p ∈ s.flowPoolList, (s.pool p).status ≠ .invalid → Balanced s p

/-- What the books need from step to step: nobody is short and has too much at once. -/
structure Booked (s : Pdev) : Prop where
  balanced : ∀ p ∈ s.flowPoolList, (s.pool p).status ≠ .invalid → Balanced s p
  short : ∀ p ∈ s.flowPoolList, (s.pool p).deficientDesc = 0 ∨ (s.pool p).overflowDesc = 0
  bound : ∀ p ∈ s.flowPoolList, (s.pool p).flowPoolSize < 2 ^ 16

def Quiet (s : Pdev) : Prop :=
  ∀ p ∈ s.flowPoolList, (s.pool p).status ≠ .invalid → (s.pool p).deficientDesc = 0
deriving Decidable

theorem owned_le (h : Sound cfg s []) (hp : p ∈ s.flowPoolList) :
    (s.pool p).availDesc + out s p < 2 ^ 16 := by
  have hnodup : ((s.pool p).freelist ++ s.inUse).Nodup := by
    apply List.nodup_iff_count_le_one.mpr
    intro d
    have hle := h.places_le d
    have := Ledger.le_total (f := fun p => (s.pool p).freelist.count d) hp
    rw [List.count_append]
    unfold places at hle
    omega
  have hsub : ((s.pool p).freelist ++ s.inUse) ⊆ List.range cfg.numDesc.toNat := by
    intro d hd
    rw [List.mem_range]
    by_contra hlt
    have hplace := h.place d
    have hpos := List.count_pos_iff.mpr hd
    have := Ledger.le_total (f := fun p => (s.pool p).freelist.count d) hp
    rw [List.count_append] at hpos
    rw [if_neg hlt] at hplace
    unfold places at hplace
    omega
  have hlen := (List.subperm_of_subset hnodup hsub).length_le
  have hout : out s p ≤ s.inUse.length := List.countP_le_length
  have havail := h.avail p hp
  have hnum := cfg.numDesc.toNat_lt
  rw [List.length_append, List.length_range] at hlen
  omega

theorem Granted.booked (h : Granted s t) (hb : Booked s) (hq : Quiet s) : Booked t ∧ Quiet t := by
  have hk := h.kept
  refine ⟨⟨?_, ?_, ?_⟩, ?_⟩
  · intro p hp hv
    rw [hk.list] at hp
    have hv' : (s.pool p).status ≠ .invalid := fun heq => hv ((hk.invalid_iff p).mpr heq)
    have hzero := hq p hp hv'
    have := hb.balanced p hp hv'
    unfold Balanced at this ⊢
    rw [h.avail p hzero, h.deficient, hk.out, hk.size, hk.overflow]
    exact this
  · intro p hp
    rw [hk.list] at hp
    rw [h.deficient, hk.overflow]
    exact hb.short p hp
  · intro p hp
    rw [hk.list] at hp
    rw [hk.size]
    exact hb.bound p hp
  · intro p hp hv
    rw [hk.list] at hp
    rw [h.deficient]
    exact hq p hp fun heq => hv ((hk.invalid_iff p).mpr heq)

theorem Dropped.booked (h : Dropped p s t) (hp : p ∈ s.flowPoolList) (hs : Sound cfg s [])
    (hb : ∀ q ∈ s.flowPoolList, q ≠ p → (s.pool q).status ≠ .invalid → Balanced s q)
    (hshort : ∀ q ∈ s.flowPoolList, (s.pool q).deficientDesc = 0 ∨ (s.pool q).overflowDesc = 0)
    (hbound : ∀ q ∈ s.flowPoolList, (s.pool q).flowPoolSize < 2 ^ 16) : Booked t := by
  refine ⟨?_, ?_, ?_⟩
  · intro q hq hv
    have hne : q ≠ p := by
      rintro rfl
      cases h with
      | freed _ => exact hs.nodup.not_mem_erase hq
      | kept _ => simp [Pdev.modPool] at hv
    have := hb q (h.mem_of_mem hp hq) hne (by rw [← h.pool_of_ne hne]; exact hv)
    unfold Balanced at this ⊢
    rw [h.pool_of_ne hne, h.out]
    exact this
  · intro q hq
    rcases eq_or_ne q p with rfl | hne
    · have := hshort q hp
      cases h <;> simpa [Pdev.modPool] using this
    · rw [h.pool_of_ne hne]
      exact hshort q (h.mem_of_mem hp hq)
  · intro q hq
    rcases eq_or_ne q p with rfl | hne
    · cases h with
      | freed _ => exact absurd hq hs.nodup.not_mem_erase
      | kept _ =>
        simp only [Pdev.modPool, Function.update_self]
        exact Nat.mod_lt _ (by decide)
    · rw [h.pool_of_ne hne]
      exact hbound q (h.mem_of_mem hp hq)

theorem Dropped.quiet (h : Dropped p s t) (hp : p ∈ s.flowPoolList) (hs : Sound cfg s [])
    (hq : ∀ q ∈ s.flowPoolList, q ≠ p → (s.pool q).status ≠ .invalid →
      (s.pool q).deficientDesc = 0) : Quiet t := by
  intro q hmem hv
  have hne : q ≠ p := by
    rintro rfl
    cases h with
    | freed _ => exact hs.nodup.not_mem_erase hmem
    | kept _ => simp [Pdev.modPool] at hv
  rw [h.pool_of_ne hne] at hv ⊢
  exact hq q (h.mem_of_mem hp hmem) hne hv

theorem booked_dropPool_emptied (h : Settled cfg s) (hp : p ∈ s.flowPoolList) (hb : Booked s) :
    Booked (dropPool p (emptied p s)) := by
  obtain ⟨_, hd⟩ := distributeToDeficientPools_spec h.sound hp
  have hk := hd.kept
  have he := emptied_settled h hp
  have hlist := emptied_list h hp
  have hmem : p ∈ (emptied p s).flowPoolList := by
    rw [hlist]
    exact hp
  have hdef : ∀ q, ((emptied p s).pool q).deficientDesc ≤ (s.pool q).deficientDesc ∧
      ((emptied p s).pool q).overflowDesc = (s.pool q).overflowDesc := by
    intro q
    refine ⟨?_, ?_⟩
    · unfold emptied
      simp only [modPool_field FlowPool.deficientDesc]
      split_ifs with heq
      · exact heq ▸ hd.deficient q
      · exact hd.deficient q
    · unfold emptied
      simp only [modPool_field FlowPool.overflowDesc]
      split_ifs with heq
      · exact heq ▸ hk.overflow q
      · exact hk.overflow q
  apply (dropPool_cases he.sound hmem).booked hmem he.sound
  · intro q hq hne hv
    rw [hlist] at hq
    rw [emptied_pool_of_ne hne] at hv
    have := hb.balanced q hq fun heq => hv ((hk.invalid_iff q).mpr heq)
    have hsum := hd.sum q hne
    unfold Balanced at this ⊢
    rw [emptied_pool_of_ne hne, emptied_out h hp, hk.size, hk.overflow]
    omega
  · intro q hq
    rw [hlist] at hq
    have := hb.short q hq
    have := hdef q
    omega
  · intro q hq
    rcases eq_or_ne q p with rfl | hne
    · rw [← emptied_size]
      have := owned_le he.sound hmem
      omega
    · rw [hlist] at hq
      rw [emptied_pool_of_ne hne, hk.size]
      exact hb.bound q hq

theorem quiet_dropPool_emptied (h : Settled cfg s) (hp : p ∈ s.flowPoolList) (hq : Quiet s) :
    Quiet (dropPool p (emptied p s)) := by
  obtain ⟨_, hd⟩ := distributeToDeficientPools_spec h.sound hp
  have hlist := emptied_list h hp
  have hmem : p ∈ (emptied p s).flowPoolList := by
    rw [hlist]
    exact hp
  have hsound := (emptied_settled h hp).sound
  apply (dropPool_cases hsound hmem).quiet hmem hsound
  intro q hq' hne hv
  rw [hlist] at hq'
  rw [emptied_pool_of_ne hne] at hv ⊢
  have := hq q hq' fun heq => hv ((hd.kept.invalid_iff q).mpr heq)
  have := hd.deficient q
  omega

theorem serve_booked (h : Settled cfg s) (hb : Booked s) (hq : Quiet s) :
    Booked (distributeFromGlobal freeInvalidFlowPool s) :=
  (serve_rule (I := fun s => Booked s ∧ Quiet s)
    (fun _ ht hi => (grantAll_spec ht.sound).2.1.booked hi.1 hi.2)
    (fun _ ht hi _ hp _ => ⟨booked_dropPool_emptied ht hp hi.1, quiet_dropPool_emptied ht hp hi.2⟩)
    h ⟨hb, hq⟩).2.1

/-- When an invalid pool is freed there is nothing to give, or nobody who is short goes on to ask
the device. -/
def FreedWell (s : Pdev) (p : ℕ) : Prop :=
  Quiet s ∨ s.numFree = 0 ∧ (s.pool p).deficientDesc = 0 ∨
    Ledger.total (fun q => (s.pool q).deficientDesc) s.flowPoolList ≤ (s.pool p).availDesc

theorem freeInvalidFlowPool_booked (h : Settled cfg s) (hp : p ∈ s.flowPoolList) (hb : Booked s)
    (hw : FreedWell s p) : Booked (freeInvalidFlowPool p s) := by
  by_cases hinv : (s.pool p).status = .invalid
  · rcases hw with hq | hw
    · exact (freeInvalidFlowPool_rule (I := fun s => Booked s ∧ Quiet s)
        (fun _ ht hi => (grantAll_spec ht.sound).2.1.booked hi.1 hi.2)
        (fun _ ht hi _ hp _ =>
          ⟨booked_dropPool_emptied ht hp hi.1, quiet_dropPool_emptied ht hp hi.2⟩)
        h ⟨hb, hq⟩ hp).2.1
    · obtain ⟨_, hd⟩ := distributeToDeficientPools_spec h.sound hp
      have hlist := emptied_list h hp
      have hmem : p ∈ (emptied p s).flowPoolList := by
        rw [hlist]
        exact hp
      have hcases := dropPool_cases (emptied_settled h hp).sound hmem
      have hnum : (emptied p s).numFree = s.numFree := hd.numFree
      have havail : ((emptied p s).pool p).availDesc =
          ((distributeToDeficientPools p s).pool p).availDesc := by
        simp [emptied, Pdev.modPool]
      unfold freeInvalidFlowPool
      rw [freeInvalidFuel_succ h hp hinv, serve_eq_self]
      · exact booked_dropPool_emptied h hp hb
      · have hall : (∀ q ∈ s.flowPoolList,
            ((distributeToDeficientPools p s).pool q).deficientDesc = 0) →
            ∀ q ∈ (dropPool p (emptied p s)).flowPoolList,
              ((dropPool p (emptied p s)).pool q).deficientDesc = 0 := by
          intro hzero q hq
          have hne : q ≠ p := by
            rintro rfl
            generalize dropPool q (emptied q s) = t at hcases hq
            cases hcases with
            | freed _ => exact (emptied_settled h hp).sound.nodup.not_mem_erase hq
            | kept hne => exact hne (emptied_size q s)
          have hq' := hcases.mem_of_mem hmem hq
          rw [hlist] at hq'
          rw [hcases.pool_of_ne hne, emptied_pool_of_ne hne]
          exact hzero q hq'
        rcases hw with ⟨hfree, hzero⟩ | hle
        · rcases hd.done with hzero' | hexact
          · exact .inr (hall hzero')
          · left
            have := hexact hzero
            rw [hcases.numFree, hnum, havail]
            omega
        · exact .inr (hall (hd.covered hle))
  · unfold freeInvalidFlowPool freeInvalidFuel
    rw [if_neg hinv]
    exact hb

/-- Where the books are not written in: no pool is freed and no descriptor moves. -/
structure SameBooks (s t : Pdev) : Prop where
  list : t.flowPoolList = s.flowPoolList
  handedOut : ∀ q, out t q = out s q
  books : ∀ q, (t.pool q).availDesc = (s.pool q).availDesc ∧
    (t.pool q).deficientDesc = (s.pool q).deficientDesc ∧
    (t.pool q).overflowDesc = (s.pool q).overflowDesc ∧
    (t.pool q).flowPoolSize = (s.pool q).flowPoolSize
  invalid : ∀ q, (s.pool q).status = .invalid → (t.pool q).status = .invalid

theorem SameBooks.booked (h : SameBooks s t) (hb : Booked s) : Booked t := by
  refine ⟨?_, ?_, ?_⟩
  · intro p hp hv
    obtain ⟨h₁, h₂, h₃, h₄⟩ := h.books p
    have := hb.balanced p (h.list ▸ hp) fun heq => hv (h.invalid p heq)
    unfold Balanced at this ⊢
    rw [h₁, h₂, h₃, h₄, h.handedOut]
    exact this
  · intro p hp
    obtain ⟨_, h₂, h₃, _⟩ := h.books p
    rw [h₂, h₃]
    exact hb.short p (h.list ▸ hp)
  · intro p hp
    rw [(h.books p).2.2.2]
    exact hb.bound p (h.list ▸ hp)

theorem SameBooks.quiet (h : SameBooks s t) (hq : Quiet s) : Quiet t := by
  intro p hp hv
  rw [(h.books p).2.1]
  exact hq p (h.list ▸ hp) fun heq => hv (h.invalid p heq)

theorem SameBooks.pauseCb (h : SameBooks s t) (flow : UInt8) (action : NetifAction)
    (reason : NetifReason) : SameBooks s (t.pauseCb flow action reason) :=
  ⟨h.list, h.handedOut, h.books, h.invalid⟩

theorem modPool_books (s : Pdev) (p : ℕ) {f : FlowPool → FlowPool}
    (hf : f (s.pool p) = { s.pool p with
      memberFlowId := (f (s.pool p)).memberFlowId, refCnt := (f (s.pool p)).refCnt }) :
    SameBooks s (s.modPool p f) := by
  refine ⟨rfl, fun _ => rfl, ?_, ?_⟩
  · intro q
    rcases eq_or_ne q p with rfl | hne
    · rw [modPool_self, hf]
      exact ⟨rfl, rfl, rfl, rfl⟩
    · rw [modPool_of_ne hne]
      exact ⟨rfl, rfl, rfl, rfl⟩
  · intro q hq
    rcases eq_or_ne q p with rfl | hne
    · rw [modPool_self, hf]
      exact hq
    · rw [modPool_of_ne hne]
      exact hq

theorem vdevMap_books (p : ℕ) (vdev : UInt8) (s : Pdev) : SameBooks s (vdevMap cfg p vdev s) := by
  unfold vdevMap
  split
  · have h := modPool_books s p (f := fun pool => { pool with memberFlowId := vdev }) rfl
    exact ⟨h.list, h.handedOut, h.books, h.invalid⟩
  · exact ⟨rfl, fun _ => rfl, fun _ => ⟨rfl, rfl, rfl, rfl⟩, fun _ => id⟩

theorem vdevUnmap_books (cfg : Cfg) (p : ℕ) (vdev : UInt8) (s : Pdev) :
    SameBooks s (vdevUnmap cfg p vdev s) := by
  unfold vdevUnmap
  split
  · have h := modPool_books s p (f := fun pool => { pool with memberFlowId := invalidFlowId }) rfl
    exact ⟨h.list, h.handedOut, h.books, h.invalid⟩
  · exact ⟨rfl, fun _ => rfl, fun _ => ⟨rfl, rfl, rfl, rfl⟩, fun _ => id⟩

theorem wakeOnFree_books (h : Settled cfg s) (p : ℕ) : SameBooks s (wakeOnFree p s) := by
  obtain ⟨_, hdev, hothers, hpool, hinv, _⟩ := wakeOnFree_spec h p
  refine ⟨by rw [hdev], ?_, ?_, ?_⟩
  · intro q
    unfold out
    rw [hdev]
  · intro q
    rcases eq_or_ne q p with rfl | hne
    · rw [hpool]
      exact ⟨rfl, rfl, rfl, rfl⟩
    · rw [hothers q hne]
      exact ⟨rfl, rfl, rfl, rfl⟩
  · intro q hq
    rcases eq_or_ne q p with rfl | hne
    · rw [hinv hq]
      exact hq
    · rw [hothers q hne]
      exact hq

/-- What a message or a call has to find so that the books stay right. -/
def Undisturbed (s : Pdev) : Event → Prop
  -- A pool that is created and given up at once: the device serves those that are short.
  | .map _ flowType id _ mem =>
    getFlowPool s id = none → mem = true → flowType ≠ flowTypeVdev → s.numFree = 0 ∨ Quiet s
  | .unmap _ flowType id =>
    ∀ p, getFlowPool s id = some p → flowType = flowTypeVdev →
      s.numFree + (s.pool p).availDesc = 0 ∨
        ∀ q ∈ s.flowPoolList, q ≠ p → (s.pool q).status ≠ .invalid →
          (s.pool q).deficientDesc = 0
  | .resize id size =>
    ∀ p, getFlowPool s id = some p →
      ((s.pool p).flowPoolSize ≠ size.toNat → (s.pool p).status = .invalid → Balanced s p) ∧
        (size.toNat < (s.pool p).flowPoolSize →
          (s.pool p).availDesc + out s p ≤ size.toNat ∨
            (s.pool p).startPriorityTh < (s.pool p).availDesc)
  | .alloc _ _ => True
  | .free d =>
    ∀ p, s.descPool d = some p →
      ((s.pool p).overflowDesc ≠ 0 → Quiet s) ∧
        ((s.pool p).overflowDesc = 0 → (s.pool p).status = .invalid →
          (s.pool p).availDesc + 1 = (s.pool p).flowPoolSize →
          Quiet s ∨ s.numFree = 0 ∧ (s.pool p).deficientDesc = 0 ∨
            Ledger.total (fun q => (s.pool q).deficientDesc) s.flowPoolList ≤
              (s.pool p).availDesc + 1)

instance (s : Pdev) (e : Event) : Decidable (Undisturbed s e) := by
  cases e <;> unfold Undisturbed <;> infer_instance

theorem decPoolRef_booked (h : Settled cfg s) (hp : p ∈ s.flowPoolList)
    (hb : ∀ q ∈ s.flowPoolList, q ≠ p → (s.pool q).status ≠ .invalid → Balanced s q)
    (hshort : ∀ q ∈ s.flowPoolList, (s.pool q).deficientDesc = 0 ∨ (s.pool q).overflowDesc = 0)
    (hbound : ∀ q ∈ s.flowPoolList, (s.pool q).flowPoolSize < 2 ^ 16)
    (hc : s.numFree + (s.pool p).availDesc = 0 ∨
      ∀ q ∈ s.flowPoolList, q ≠ p → (s.pool q).status ≠ .invalid →
        (s.pool q).deficientDesc = 0) : Booked (decPoolRef p s) := by
  have hd := dropPool_cases h.sound hp
  have hbooked := hd.booked hp h.sound hb hshort hbound
  rw [decPoolRef_eq h hp]
  rcases hc with hzero | hq
  · rw [serve_eq_self]
    · exact hbooked
    · left
      rw [hd.numFree]
      exact hzero
  · exact serve_booked (dropPool_settled h hp) hbooked (hd.quiet hp h.sound hq)

/-- The books of the other pools stay as they are. -/
theorem Booked.of_others (hb : Booked s) (hmem : ∀ q ∈ t.flowPoolList, q ≠ p → q ∈ s.flowPoolList)
    (hothers : ∀ q ≠ p, t.pool q = s.pool q ∧ out t q = out s q)
    (hbal : (t.pool p).status ≠ .invalid → p ∈ t.flowPoolList → Balanced t p)
    (hshort : p ∈ t.flowPoolList → (t.pool p).deficientDesc = 0 ∨ (t.pool p).overflowDesc = 0)
    (hbound : p ∈ t.flowPoolList → (t.pool p).flowPoolSize < 2 ^ 16) : Booked t := by
  refine ⟨?_, ?_, ?_⟩
  · intro q hq hv
    rcases eq_or_ne q p with rfl | hne
    · exact hbal hv hq
    · obtain ⟨hpool, hout⟩ := hothers q hne
      rw [hpool] at hv
      have := hb.balanced q (hmem q hq hne) hv
      unfold Balanced at this ⊢
      rwa [hpool, hout]
  · intro q hq
    rcases eq_or_ne q p with rfl | hne
    · exact hshort hq
    · rw [(hothers q hne).1]
      exact hb.short q (hmem q hq hne)
  · intro q hq
    rcases eq_or_ne q p with rfl | hne
    · exact hbound hq
    · rw [(hothers q hne).1]
      exact hb.bound q (hmem q hq hne)

theorem Created.booked (h : Created cfg size s t) (hb : Booked s) (hsize : size < 2 ^ 16) :
    Booked t := by
  refine hb.of_others (p := s.fresh) (fun q hq hne => ?_)
    (fun q hne => ⟨h.pool q hne, h.handedOut q⟩) (fun _ _ => ?_) (fun _ => .inr h.overflow)
    fun _ => h.size ▸ hsize
  · rw [h.list] at hq
    exact (List.mem_append.mp hq).resolve_right fun heq => hne (List.mem_singleton.mp heq)
  · unfold Balanced
    rw [h.ownOut, h.overflow, h.size]
    have := h.avail
    omega

theorem Resized.booked (h : Resized p s t) (hb : Booked s) (hbal : Balanced t p)
    (hshort : (t.pool p).deficientDesc = 0 ∨ (t.pool p).overflowDesc = 0)
    (hbound : (t.pool p).flowPoolSize < 2 ^ 16) : Booked t :=
  hb.of_others (fun _ hq _ => h.list ▸ hq) (fun q hne => ⟨h.others q hne, h.out q⟩)
    (fun _ _ => hbal) (fun _ => hshort) fun _ => hbound

theorem Shrunk.booked (h : Shrunk cfg p size s t) (hs : Sound cfg s []) (hb : Booked s)
    (hp : p ∈ s.flowPoolList) (hlt : size < (s.pool p).flowPoolSize) (hbal : Balanced s p)
    (hc : (s.pool p).availDesc + out s p ≤ size ∨
      (s.pool p).startPriorityTh < (s.pool p).availDesc) :
    Balanced t p ∧ ((t.pool p).deficientDesc = 0 ∨ (t.pool p).overflowDesc = 0) := by
  have howned := owned_le hs hp
  have hshort := hb.short p hp
  have hbound := hb.bound p hp
  have hout := h.kept.out p
  unfold Balanced at hbal ⊢
  -- What the pool has to give up is no more than it has, so that nothing wraps.
  have hdiff : u16 ((s.pool p).flowPoolSize - size + (s.pool p).overflowDesc) =
      (s.pool p).flowPoolSize - size + (s.pool p).overflowDesc := Nat.mod_eq_of_lt (by omega)
  obtain ⟨hdef, hcases⟩ := h.books _ hdiff.symm
  rw [h.newSize, hout]
  rcases hcases with hc | hc | hc | hc <;> omega

theorem Grown.booked (h : Grown cfg p size s t) (hb : Booked s) (hp : p ∈ s.flowPoolList)
    (hlt : (s.pool p).flowPoolSize < size) (hsize : size < 2 ^ 16) (hbal : Balanced s p) :
    Balanced t p ∧ ((t.pool p).deficientDesc = 0 ∨ (t.pool p).overflowDesc = 0) := by
  have hshort := hb.short p hp
  have hout := h.kept.out p
  have hle := h.le
  unfold Balanced at hbal ⊢
  have hdiff : u16 (size - (s.pool p).flowPoolSize + (s.pool p).deficientDesc) =
      size - (s.pool p).flowPoolSize + (s.pool p).deficientDesc := Nat.mod_eq_of_lt (by omega)
  obtain ⟨hover, hsum⟩ := h.books _ hdiff.symm
  rw [h.newSize, hout]
  constructor <;> omega

theorem resizePool_booked (h : Sound cfg s []) (hb : Booked s) (hp : p ∈ s.flowPoolList)
    (hsize : size < 2 ^ 16) (hbal : (s.pool p).flowPoolSize ≠ size → Balanced s p)
    (hc : size < (s.pool p).flowPoolSize → (s.pool p).availDesc + out s p ≤ size ∨
      (s.pool p).startPriorityTh < (s.pool p).availDesc) :
    Booked (resizePool cfg p size s) := by
  have hqueue : ∀ t, Sound cfg t [] → Resized p s t → Balanced t p →
      ((t.pool p).deficientDesc = 0 ∨ (t.pool p).overflowDesc = 0) →
      (t.pool p).flowPoolSize < 2 ^ 16 → Booked (updateQueueState p t) := by
    intro t ht hk htbal hshort hbound
    obtain ⟨_, hr, hpool⟩ := updateQueueState_spec ht p
    have hout := hr.out p
    apply (hk.trans hr).booked hb
    · unfold Balanced at htbal ⊢
      rw [hpool, hout]
      exact htbal
    · rw [hpool]
      exact hshort
    · rw [hpool]
      exact hbound
  unfold resizePool
  dsimp only
  split
  · exact hb
  · next hne =>
      split
      · next hlt =>
          have hs := shrink_spec cfg size h hp
          obtain ⟨hbal', hshort⟩ := hs.booked h hb hp hlt (hbal hne) (hc hlt)
          exact hqueue _ hs.sound hs.kept hbal' hshort (by rw [hs.newSize]; exact hsize)
      · next hge =>
          have hg := grow_spec cfg size h hp
          have hlt : (s.pool p).flowPoolSize < size := by omega
          obtain ⟨hbal', hshort⟩ := hg.booked hb hp hlt hsize (hbal hne)
          exact hqueue _ hg.sound hg.kept hbal' hshort (by rw [hg.newSize]; exact hsize)

variable {id vdev : UInt8}

theorem resizeHandler_booked {size : UInt16} (h : Settled cfg s) (hb : Booked s)
    (hu : Undisturbed s (.resize id size)) : Booked (resizeHandler cfg id size s) := by
  rcases hid : getFlowPool s id with _ | p
  · unfold resizeHandler
    rw [hid]
    exact hb
  · obtain ⟨hbal, hc⟩ := hu p hid
    have hp := getFlowPool_mem hid
    have href := modPool_books s p (f := fun pool => { pool with refCnt := pool.refCnt + 1 }) rfl
    obtain ⟨havail, hdef, hover, hsize⟩ := href.books p
    have hout := href.handedOut p
    rw [resizeHandler_eq h hid]
    apply (modPool_books _ p rfl).booked
    apply resizePool_booked (incPoolRef_resized h.sound p) (href.booked hb) hp size.toNat_lt
    · intro hne
      unfold incPoolRef at hne ⊢
      rw [hsize] at hne
      have hs : Balanced s p := by
        by_cases hinv : (s.pool p).status = .invalid
        · exact hbal hne hinv
        · exact hb.balanced p hp hinv
      unfold Balanced at hs ⊢
      rw [havail, hdef, hover, hsize, hout]
      exact hs
    · unfold incPoolRef
      rw [modPool_self, hout]
      exact hc

theorem pauseOnAlloc_invalid_iff (vdev : UInt8) (p : ℕ) (s : Pdev) :
    ((pauseOnAlloc vdev p s).pool p).status = .invalid ↔ (s.pool p).status = .invalid := by
  unfold pauseOnAlloc
  dsimp only
  split
  · next h => simp [Pdev.pauseCb, h.2.2]
  · split
    · next h => simp [Pdev.pauseCb, h.2]
    · exact Iff.rfl

theorem Allocated.invalid_iff (h : Allocated cfg vdev p s t) :
    (t.pool p).status = .invalid ↔ (s.pool p).status = .invalid := by
  obtain ⟨u, _, hpool, _, heq⟩ := h.paused
  rw [heq, pauseOnAlloc_invalid_iff, hpool]

theorem Allocated.booked (h : Allocated cfg vdev p s t) (hb : Booked s)
    (hpos : 0 < (s.pool p).availDesc) : Booked t := by
  have hlist : t.flowPoolList = s.flowPoolList := by rw [h.device]
  have hothers (q : ℕ) (hne : q ≠ p) : t.pool q = s.pool q ∧ out t q = out s q := by
    have hout := h.handedOut q
    rw [if_neg hne] at hout
    exact ⟨h.others q hne, hout⟩
  refine hb.of_others (fun q hq _ => hlist ▸ hq) hothers (fun hv hp => ?_) (fun hp => ?_)
    fun hp => ?_
  · have := hb.balanced p (hlist ▸ hp) fun heq => hv (h.invalid_iff.mpr heq)
    have hout := h.handedOut p
    rw [if_pos rfl] at hout
    unfold Balanced at this ⊢
    rw [h.pool, hout]
    dsimp only
    omega
  · rw [h.pool]
    exact hb.short p (hlist ▸ hp)
  · rw [h.pool]
    exact hb.bound p (hlist ▸ hp)

theorem descAlloc_booked {mgmt : Bool} (h : Settled cfg s) (hb : Booked s)
    (ht : descAlloc vdev mgmt s = some t) : Booked t := by
  unfold descAlloc at ht
  split at ht
  · cases ht
    exact hb
  · split at ht
    · next hp =>
        cases ht
        rcases allocFrom_spec vdev h hp with ⟨_, heq⟩ | ⟨hpos, ha⟩
        · rw [heq]
          exact hb
        · exact ha.booked hb hpos
    · cases ht

theorem Returned.booked (h : Returned cfg p d s t) (hb : Booked s) : Booked t := by
  have hlist := h.list
  have hbooks : (t.pool p).status = (s.pool p).status ∧
      (t.pool p).deficientDesc = (s.pool p).deficientDesc ∧
      (t.pool p).flowPoolSize = (s.pool p).flowPoolSize ∧
      (t.pool p).overflowDesc ≤ (s.pool p).overflowDesc ∧
      (t.pool p).availDesc + (s.pool p).overflowDesc =
        (s.pool p).availDesc + (t.pool p).overflowDesc + 1 := by
    rcases h.books with ⟨hover, _, hpool⟩ | ⟨hover, _, hpool⟩
    · rw [hpool]
      refine ⟨rfl, rfl, rfl, le_rfl, ?_⟩
      dsimp only
      omega
    · rw [hpool]
      refine ⟨rfl, rfl, rfl, Nat.sub_le .., ?_⟩
      dsimp only
      omega
  obtain ⟨hstatus, hdef, hsize, hle, havail⟩ := hbooks
  have hothers (q : ℕ) (hne : q ≠ p) : t.pool q = s.pool q ∧ out t q = out s q := by
    have hout := h.handedOut q
    rw [if_neg hne] at hout
    exact ⟨h.others q hne, by omega⟩
  refine hb.of_others (fun q hq _ => hlist ▸ hq) hothers (fun hv hp => ?_) (fun hp => ?_)
    fun hp => ?_
  · rw [hstatus] at hv
    have := hb.balanced p (hlist ▸ hp) hv
    have hout := h.handedOut p
    rw [if_pos rfl] at hout
    unfold Balanced at this ⊢
    omega
  · have := hb.short p (hlist ▸ hp)
    omega
  · rw [hsize]
    exact hb.bound p (hlist ▸ hp)

theorem Returned.pool_eq (h : Returned cfg p d s t) (q : ℕ) :
    (t.pool q).status = (s.pool q).status ∧
      (t.pool q).deficientDesc = (s.pool q).deficientDesc ∧
      (t.pool q).flowPoolSize = (s.pool q).flowPoolSize := by
  rcases eq_or_ne q p with rfl | hne
  · rcases h.books with ⟨_, _, hpool⟩ | ⟨_, _, hpool⟩ <;> rw [hpool] <;> exact ⟨rfl, rfl, rfl⟩
  · rw [h.others q hne]
    exact ⟨rfl, rfl, rfl⟩

theorem Returned.quiet (h : Returned cfg p d s t) (hq : Quiet s) : Quiet t := by
  intro q hmem hv
  obtain ⟨hstatus, hdef, _⟩ := h.pool_eq q
  rw [h.list] at hmem
  rw [hstatus] at hv
  rw [hdef]
  exact hq q hmem hv

theorem descFree_booked (h : Settled cfg s) (hb : Booked s) (hu : Undisturbed s (.free d))
    (ht : descFree d s = some t) : Booked t := by
  obtain ⟨p, u, hp, _, howner, hr, rfl⟩ := descFree_spec h ht
  obtain ⟨hquiet, hwell⟩ := hu p howner
  have hub := hr.booked hb
  have hup : p ∈ u.flowPoolList := by
    rw [hr.list]
    exact hp
  have hwake := wakeOnFree_books hr.settled p
  unfold freeByStatus
  split
  · next hcomplete =>
      apply freeInvalidFlowPool_booked hr.settled hup hub
      obtain ⟨hstatus, hdef, hsize⟩ := hr.pool_eq p
      obtain ⟨hinv, hfull⟩ := hcomplete
      rw [hstatus] at hinv
      rw [hsize] at hfull
      rcases hr.books with ⟨hover, hnum, hpool⟩ | ⟨hover, _, _⟩
      · have havail : (u.pool p).availDesc = (s.pool p).availDesc + 1 := by rw [hpool]
        rw [havail] at hfull
        rcases hwell hover hinv hfull with hq | ⟨hfree, hzero⟩ | hle
        · exact .inl (hr.quiet hq)
        · right
          left
          exact ⟨hnum.trans hfree, hdef.trans hzero⟩
        · right
          right
          have htotal : Ledger.total (fun q => (u.pool q).deficientDesc) u.flowPoolList =
              Ledger.total (fun q => (s.pool q).deficientDesc) s.flowPoolList := by
            rw [hr.list]
            exact Ledger.total_congr fun q _ => (hr.pool_eq q).2.1
          rw [htotal, havail]
          exact hle
      · exact .inl (hr.quiet (hquiet hover))
  · split
    · next hflag =>
        have hover : (s.pool p).overflowDesc ≠ 0 := by simpa using hflag
        exact serve_booked (wakeOnFree_spec hr.settled p).1 (hwake.booked hub)
          (hwake.quiet (hr.quiet (hquiet hover)))
    · exact hwake.booked hub

theorem mapHandler_booked {flowId flowType : UInt8} {size : UInt16} {mem : Bool}
    (h : Settled cfg s) (hb : Booked s) (hu : Undisturbed s (.map flowId flowType id size mem)) :
    Booked (mapHandler cfg flowId flowType id size mem s) := by
  have hmap : ∀ {p u}, Booked u → Booked
      (((vdevMap cfg p flowId u).pauseCb flowId .priorityQueueOn .dataFlowControlPriority).pauseCb
        flowId .wakeAllNetifQueue .dataFlowControl) := fun {p u} hub =>
    (((vdevMap_books p flowId u).pauseCb ..).pauseCb ..).booked hub
  unfold mapHandler
  split
  · unfold mapPool
    split
    · exact hmap hb
    · exact hb
  · next hid =>
      split
      · next hmem =>
          obtain ⟨hp, hc⟩ := createFlowPool_spec h id size.toNat
          have hcb := hc.booked hb size.toNat_lt
          have hlist : s.fresh ∈ (createFlowPool cfg s id size.toNat).1.flowPoolList := by
            rw [hc.list]
            exact List.mem_append_right _ (List.mem_singleton_self _)
          unfold mapPool
          split
          · exact hmap hcb
          · next htype =>
              rw [if_pos rfl, hp]
              apply decPoolRef_booked hc.settled hlist (fun q hq _ => hcb.balanced q hq)
                hcb.short hcb.bound
              rcases hu hid hmem htype with hzero | hq
              · left
                have := hc.numFree
                omega
              · right
                intro q hmem' hne hv
                rw [hc.list] at hmem'
                rcases List.mem_append.mp hmem' with hmem' | hmem'
                · rw [hc.pool q hne] at hv ⊢
                  exact hq q hmem' hv
                · exact absurd (List.mem_singleton.mp hmem') hne
      · exact hb

theorem unmapHandler_booked {flowId flowType : UInt8} (h : Settled cfg s) (hb : Booked s)
    (hu : Undisturbed s (.unmap flowId flowType id)) :
    Booked (unmapHandler cfg flowId flowType id s) := by
  unfold unmapHandler
  split
  · next p hid =>
      split
      · next htype =>
          have hk := vdevUnmap_books cfg p flowId s
          have hset := vdevUnmap_settled h p flowId
          have hub := hk.booked hb
          have hp : p ∈ (vdevUnmap cfg p flowId s).flowPoolList := by
            rw [hk.list]
            exact getFlowPool_mem hid
          apply decPoolRef_booked hset hp (fun q hq _ => hub.balanced q hq) hub.short hub.bound
          have hnum : (vdevUnmap cfg p flowId s).numFree = s.numFree := by
            unfold vdevUnmap
            split <;> rfl
          rcases hu p hid htype with hzero | hq
          · left
            rw [hnum, (hk.books p).1]
            exact hzero
          · right
            intro q hmem hne hv
            rw [(hk.books q).2.1]
            rw [hk.list] at hmem
            exact hq q hmem hne fun heq => hv (hk.invalid q heq)
      · exact hb
  · exact hb

theorem next_booked {e : Event} (h : Settled cfg s) (hb : Booked s) (hu : Undisturbed s e)
    (ht : next cfg s e = some t) : Booked t := by
  cases e with
  | map flowId flowType id size mem =>
    cases ht
    exact mapHandler_booked h hb hu
  | unmap flowId flowType id =>
    cases ht
    exact unmapHandler_booked h hb hu
  | resize id size =>
    cases ht
    exact resizeHandler_booked h hb hu
  | alloc vdev mgmt => exact descAlloc_booked h hb ht
  | free d => exact descFree_booked h hb hu ht

theorem start_booked (cfg : Cfg) : Booked (start cfg) := by
  have hnone : ∀ {P : ℕ → Prop}, ∀ p ∈ (attach cfg).flowPoolList, P p := fun _ hp => nomatch hp
  have hattach : Booked (attach cfg) := ⟨hnone, hnone, hnone⟩
  unfold start
  split
  · exact hattach
  · have hc := (createFlowPool_spec (attach_settled cfg) mgmtPoolId mgmtPoolSize).2
    have hb := hc.booked hattach (by decide)
    exact ⟨hb.balanced, hb.short, hb.bound⟩

/-- In every run whose steps find what they have to find the descriptors are conserved. -/
theorem undisturbed_conserved (cfg : Cfg) (es : List Event) (t : Pdev)
    (hm : (machine cfg).Meets (fun o e => ∀ s, o = some s → Undisturbed s e) (some (start cfg)) es)
    (ht : ((machine cfg).run (some (start cfg)) es).1 = some t) : Conserved cfg t := by
  obtain ⟨hs, hb⟩ := run_rule (I := Booked) (start_booked cfg)
    (fun _ _ _ hs hb hu ht => next_booked hs hb hu ht) hm ht
  have hsound := hs.sound
  exact ⟨hsound.place, hsound.numFree, hsound.avail, hb.balanced⟩

def tenDesc : Cfg where
  numDesc := 10
  stopQueueTh := 15
  startQueueOffset := 10
  mgmtOverWmi := true
  vdev v := v < 4

def resizeRun : List Event :=
  [.map 0 0 1 4 true, .alloc 0 false, .resize 1 6, .resize 1 3, .unmap 0 0 1, .free 3]

theorem undisturbed_conserved_resizeRun : ∃ t,
    ((machine tenDesc).run (some (start tenDesc)) resizeRun).1 = some t ∧ Conserved tenDesc t := by
  refine ⟨_, rfl, undisturbed_conserved tenDesc resizeRun _ ?_ rfl⟩
  have hm : (machine tenDesc).Meets (fun o e => ∀ s ∈ o, Undisturbed s e) (some (start tenDesc))
      resizeRun := by decide
  exact hm

/-- The second pool is short of four and gets the four that the first one gave up, and is then
written down as short of four more. -/
theorem not_conserved : ¬ ∀ es t, ((machine tenDesc).run (some (start tenDesc)) es).1 = some t →
    Conserved tenDesc t := by
  intro h
  have hbal := (h [.map 0 0 1 8 true, .map 1 0 2 6 true, .unmap 0 0 1] _ rfl).balanced 1
    (by decide) (by decide)
  revert hbal
  decide

end KernelModules.TxFlow
