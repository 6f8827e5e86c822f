import KernelModules.TxFlow
import KernelModules.Ledger

/-!
# Where the tx descriptors are

Descriptors are moved in loops over a list on the stack. What each loop does in one piece, and
that a descriptor stays in one place: on the list of the device, on that of a pool, handed out or
on the list on the stack.
-/

namespace KernelModules.TxFlow

open List

variable {cfg : Cfg} {s t : Pdev} {p q d n : ℕ} {temp ds : List ℕ}

@[simp] theorem modPool_self (s : Pdev) (p : ℕ) (f : FlowPool → FlowPool) :
    (s.modPool p f).pool p = f (s.pool p) := Function.update_self ..

theorem modPool_of_ne (h : q ≠ p) (s : Pdev) (f : FlowPool → FlowPool) :
    (s.modPool p f).pool q = s.pool q := Function.update_of_ne h ..

theorem modPool_field {α : Type*} (φ : FlowPool → α) (s : Pdev) (p q : ℕ)
    (f : FlowPool → FlowPool) :
    φ ((s.modPool p f).pool q) = if q = p then φ (f (s.pool p)) else φ (s.pool q) := by
  rcases eq_or_ne q p with rfl | hne
  · rw [modPool_self, if_pos rfl]
  · rw [modPool_of_ne hne, if_neg hne]

@[simp] theorem own_pool (p : ℕ) (s : Pdev) (ds : List ℕ) : (own p s ds).pool = s.pool := rfl

theorem modPool_modPool (s : Pdev) (p : ℕ) (f g : FlowPool → FlowPool) :
    (s.modPool p f).modPool p g = s.modPool p fun pool => g (f pool) := by
  simp only [Pdev.modPool, Function.update_self, Function.update_idem]

theorem takeGlobalPool_eq (n : ℕ) (s : Pdev) (temp : List ℕ) (h : n ≤ s.freelist.length) :
    takeGlobalPool n s temp =
      ({ s with freelist := s.freelist.drop n, numFree := s.numFree - n },
        (s.freelist.take n).reverse ++ temp) := by
  induction n generalizing s temp with
  | zero => rfl
  | succ n ih =>
    rcases hl : s.freelist with _ | ⟨d, rest⟩
    · rw [hl] at h
      simp at h
    · rw [hl] at h
      simp only [takeGlobalPool, hl]
      rw [ih _ _ (by simpa using h)]
      simp only [drop_succ_cons, take_succ_cons, reverse_cons, append_assoc,
        singleton_append, Nat.sub_sub, Nat.add_comm 1 n]

theorem takeFlowPool_eq (p n : ℕ) (s : Pdev) (temp : List ℕ)
    (h : n ≤ (s.pool p).freelist.length) :
    takeFlowPool p n s temp =
      (s.modPool p fun pool =>
        { pool with freelist := pool.freelist.drop n, availDesc := pool.availDesc - n },
        ((s.pool p).freelist.take n).reverse ++ temp) := by
  induction n generalizing s temp with
  | zero => simp [takeFlowPool, Pdev.modPool]
  | succ n ih =>
    rcases hl : (s.pool p).freelist with _ | ⟨d, rest⟩
    · rw [hl] at h
      simp at h
    · rw [hl] at h
      simp only [takeFlowPool, hl]
      rw [ih _ _ (by simpa using h), modPool_modPool]
      simp only [modPool_self, take_succ_cons, reverse_cons, append_assoc,
        singleton_append, Prod.mk.injEq, and_true]
      simp only [Pdev.modPool, hl, drop_succ_cons, Nat.sub_sub, Nat.add_comm 1 n]

theorem putGlobalPool_eq (ds : List ℕ) (s : Pdev) :
    ds.foldl putDescGlobalPool s =
      { s with freelist := ds.reverse ++ s.freelist, numFree := s.numFree + ds.length } := by
  induction ds generalizing s with
  | nil => rfl
  | cons d ds ih =>
    rw [foldl_cons, ih]
    simp only [putDescGlobalPool, reverse_cons, append_assoc, singleton_append,
      length_cons, Nat.add_comm ds.length 1, Nat.add_assoc]

theorem own_own (p : ℕ) (s : Pdev) (as bs : List ℕ) :
    own p (own p s as) bs = own p s (as ++ bs) := by
  simp only [own, mem_append]
  congr 1
  funext d
  by_cases h : d ∈ bs <;> simp [h]

theorem putFlowPool_eq (p : ℕ) (ds : List ℕ) (s : Pdev) :
    ds.foldl (putDescFlowPool p) s =
      (own p s ds).modPool p fun pool =>
        { pool with
          freelist := ds.reverse ++ pool.freelist
          availDesc := pool.availDesc + ds.length } := by
  induction ds generalizing s with
  | nil => simp [own, Pdev.modPool]
  | cons d ds ih =>
    have hd : putDescFlowPool p s d = (own p s [d]).modPool p fun pool =>
        { pool with freelist := d :: pool.freelist, availDesc := pool.availDesc + 1 } := by
      simp only [putDescFlowPool, own, Pdev.modPool, mem_singleton]
      congr 1
      funext e
      rcases eq_or_ne e d with rfl | h
      · simp
      · simp [h]
    have hown : ∀ f, own p ((own p s [d]).modPool p f) ds = (own p s (d :: ds)).modPool p f := by
      intro f
      have happend := own_own p s [d] ds
      rw [singleton_append] at happend
      rw [← happend]
      rfl
    rw [foldl_cons, ih, hd, hown, modPool_modPool]
    simp only [reverse_cons, append_assoc, singleton_append, length_cons,
      Nat.add_comm ds.length 1, Nat.add_assoc]

theorem fillDeficient_eq (q n : ℕ) (s : Pdev) (temp : List ℕ)
    (h : n ≤ (s.pool q).deficientDesc) (hlen : n ≤ temp.length) :
    fillDeficient q n s temp =
      (((temp.take n).foldl (putDescFlowPool q) s).modPool q fun pool =>
        { pool with deficientDesc := pool.deficientDesc - n }, temp.drop n, n) := by
  induction n generalizing s temp with
  | zero => simp [fillDeficient, Pdev.modPool]
  | succ n ih =>
    rcases temp with _ | ⟨d, temp⟩
    · simp at hlen
    · rw [fillDeficient, if_neg (by omega)]
      have hpool : (putDescFlowPool q (s.modPool q fun pool =>
          { pool with deficientDesc := pool.deficientDesc - 1 }) d).pool q =
          { s.pool q with
            deficientDesc := (s.pool q).deficientDesc - 1
            freelist := d :: (s.pool q).freelist
            availDesc := (s.pool q).availDesc + 1 } := by
        simp [putDescFlowPool]
      simp only
      rw [ih _ _ (by rw [hpool]; simp only; omega) (by simpa using hlen)]
      simp only [take_succ_cons, foldl_cons, drop_succ_cons, Prod.mk.injEq,
        and_true]
      rw [putFlowPool_eq, putFlowPool_eq, modPool_modPool, modPool_modPool]
      simp only [putDescFlowPool, own, Pdev.modPool, Function.update_self, Function.update_idem,
        Nat.sub_sub, Nat.add_comm 1 n]

def places (s : Pdev) (temp : List ℕ) (d : ℕ) : ℕ :=
  s.freelist.count d + Ledger.total (fun p => (s.pool p).freelist.count d) s.flowPoolList +
    s.inUse.count d + temp.count d

def out (s : Pdev) (p : ℕ) : ℕ := s.inUse.countP fun d => s.descPool d = some p

structure Sound (cfg : Cfg) (s : Pdev) (temp : List ℕ) : Prop where
  nodup : s.flowPoolList.Nodup
  lt : ∀ p ∈ s.flowPoolList, p < s.fresh
  numFree : s.numFree = s.freelist.length
  avail : ∀ p ∈ s.flowPoolList, (s.pool p).availDesc = (s.pool p).freelist.length
  place : ∀ d, places s temp d = if d < cfg.numDesc.toNat then 1 else 0
  owner : ∀ p ∈ s.flowPoolList, ∀ d ∈ (s.pool p).freelist, s.descPool d = some p
  user : ∀ d ∈ s.inUse, ∃ p, s.descPool d = some p ∧ p < s.fresh

namespace Sound

theorem places_le (h : Sound cfg s temp) (d : ℕ) : places s temp d ≤ 1 := by
  rw [h.place]
  split <;> omega

theorem not_mem_freelist (h : Sound cfg s temp) (hp : p ∈ s.flowPoolList) (hd : d ∈ temp) :
    d ∉ (s.pool p).freelist := by
  intro hmem
  have hle := h.places_le d
  have htemp := count_pos_iff.mpr hd
  have hpos := Ledger.total_pos (f := fun p => (s.pool p).freelist.count d) hp
    (count_pos_iff.mpr hmem)
  unfold places at hle
  omega

theorem not_mem_inUse (h : Sound cfg s temp) (hd : d ∈ temp) : d ∉ s.inUse := by
  intro hmem
  have hle := h.places_le d
  have htemp := count_pos_iff.mpr hd
  have hpos := count_pos_iff.mpr hmem
  unfold places at hle
  omega

theorem takeGlobal (h : Sound cfg s temp) (n : ℕ) :
    Sound cfg { s with freelist := s.freelist.drop n, numFree := s.numFree - n }
      ((s.freelist.take n).reverse ++ temp) := by
  refine ⟨h.nodup, h.lt, ?_, h.avail, ?_, h.owner, h.user⟩
  · rw [length_drop, h.numFree]
  · intro d
    have hsplit := Ledger.count_take_add_drop d n s.freelist
    rw [← h.place d]
    simp only [places, count_append, count_reverse]
    omega

theorem takeFlow (h : Sound cfg s temp) (hp : p ∈ s.flowPoolList) (n : ℕ) :
    Sound cfg (s.modPool p fun pool =>
      { pool with freelist := pool.freelist.drop n, availDesc := pool.availDesc - n })
      (((s.pool p).freelist.take n).reverse ++ temp) := by
  refine ⟨h.nodup, h.lt, h.numFree, ?_, ?_, ?_, h.user⟩
  · intro q hq
    rcases eq_or_ne q p with rfl | hne
    · simp only [modPool_self, length_drop, h.avail q hq]
    · rw [modPool_of_ne hne]
      exact h.avail q hq
  · intro d
    have htotal := Ledger.total_of_ne (f := fun q => (s.pool q).freelist.count d)
      (g := fun q => ((s.modPool p fun pool => { pool with
        freelist := pool.freelist.drop n, availDesc := pool.availDesc - n }).pool q).freelist.count d)
      h.nodup hp fun q _ hne => by rw [modPool_of_ne hne]
    have hsplit := Ledger.count_take_add_drop d n (s.pool p).freelist
    simp only [modPool_self] at htotal
    rw [← h.place d]
    simp only [places, count_append, count_reverse]
    change s.freelist.count d + Ledger.total _ s.flowPoolList + s.inUse.count d + _ = _
    omega
  · intro q hq d hd
    rcases eq_or_ne q p with rfl | hne
    · rw [modPool_self] at hd
      exact h.owner q hq d (mem_of_mem_drop hd)
    · rw [modPool_of_ne hne] at hd
      exact h.owner q hq d hd

theorem putGlobal (h : Sound cfg s (ds ++ temp)) :
    Sound cfg { s with freelist := ds.reverse ++ s.freelist, numFree := s.numFree + ds.length }
      temp := by
  refine ⟨h.nodup, h.lt, ?_, h.avail, ?_, h.owner, h.user⟩
  · simp only [length_append, length_reverse, h.numFree, Nat.add_comm]
  · intro d
    rw [← h.place d]
    simp only [places, count_append, count_reverse]
    omega

theorem putFlow (h : Sound cfg s (ds ++ temp)) (hp : p ∈ s.flowPoolList) :
    Sound cfg ((own p s ds).modPool p fun pool =>
      { pool with
        freelist := ds.reverse ++ pool.freelist
        availDesc := pool.availDesc + ds.length }) temp := by
  refine ⟨h.nodup, h.lt, h.numFree, ?_, ?_, ?_, ?_⟩
  · intro q hq
    rcases eq_or_ne q p with rfl | hne
    · have hq' := h.avail q hq
      simp only [modPool_self, length_append, length_reverse]
      change (s.pool q).availDesc + _ = _ + (s.pool q).freelist.length
      omega
    · rw [modPool_of_ne hne]
      exact h.avail q hq
  · intro d
    have htotal := Ledger.total_of_ne (f := fun q => (s.pool q).freelist.count d)
      (g := fun q => (((own p s ds).modPool p fun pool => { pool with
        freelist := ds.reverse ++ pool.freelist
        availDesc := pool.availDesc + ds.length }).pool q).freelist.count d)
      h.nodup hp fun q _ hne => by rw [modPool_of_ne hne]; rfl
    simp only [modPool_self, count_append, count_reverse] at htotal
    change _ = _ + (_ + (s.pool p).freelist.count d) at htotal
    rw [← h.place d]
    simp only [places, count_append]
    change s.freelist.count d + Ledger.total _ s.flowPoolList + s.inUse.count d + _ = _
    omega
  · intro q hq d hd
    rcases eq_or_ne q p with rfl | hne
    · rw [modPool_self] at hd
      change (if d ∈ ds then some q else s.descPool d) = some q
      rcases mem_append.mp hd with hd | hd
      · rw [if_pos (mem_reverse.mp hd)]
      · rw [h.owner q hq d hd, ite_self]
    · rw [modPool_of_ne hne] at hd
      have hnot : d ∉ ds := fun hmem =>
        h.not_mem_freelist hq (mem_append_left _ hmem) hd
      change (if d ∈ ds then some p else s.descPool d) = some q
      rw [if_neg hnot]
      exact h.owner q hq d hd
  · intro d hd
    have hnot : d ∉ ds := fun hmem => h.not_mem_inUse (mem_append_left _ hmem) hd
    change ∃ q, (if d ∈ ds then some p else s.descPool d) = some q ∧ q < s.fresh
    rw [if_neg hnot]
    exact h.user d hd

theorem modPool (h : Sound cfg s temp) {f : FlowPool → FlowPool}
    (hfree : (f (s.pool p)).freelist = (s.pool p).freelist)
    (havail : (f (s.pool p)).availDesc = (s.pool p).availDesc) :
    Sound cfg (s.modPool p f) temp := by
  have hkeep : ∀ q, ((s.modPool p f).pool q).freelist = (s.pool q).freelist ∧
      ((s.modPool p f).pool q).availDesc = (s.pool q).availDesc := by
    intro q
    rcases eq_or_ne q p with rfl | hne
    · simp only [modPool_self, hfree, havail, and_self]
    · simp only [modPool_of_ne hne, and_self]
  refine ⟨h.nodup, h.lt, h.numFree, ?_, ?_, ?_, h.user⟩
  · intro q hq
    rw [(hkeep q).1, (hkeep q).2]
    exact h.avail q hq
  · intro d
    rw [← h.place d]
    simp only [places, (hkeep _).1]
    rfl
  · intro q hq d hd
    rw [(hkeep q).1] at hd
    exact h.owner q hq d hd

theorem pauseCb (h : Sound cfg s temp) (flow : UInt8) (action : NetifAction)
    (reason : NetifReason) : Sound cfg (s.pauseCb flow action reason) temp :=
  ⟨h.nodup, h.lt, h.numFree, h.avail, h.place, h.owner, h.user⟩

end Sound

/-- What does not change when descriptors go from one list to another. -/
structure Redistributed (s t : Pdev) : Prop where
  device : t = { s with
    numFree := t.numFree
    freelist := t.freelist
    pool := t.pool
    descPool := t.descPool
    queues := t.queues }
  pool : ∀ q, t.pool q = { s.pool q with
    availDesc := (t.pool q).availDesc
    deficientDesc := (t.pool q).deficientDesc
    status := (t.pool q).status
    freelist := (t.pool q).freelist }
  owner : ∀ d ∈ s.inUse, t.descPool d = s.descPool d
  status : ∀ q, (t.pool q).status = (s.pool q).status ∨
    (s.pool q).status = .activePaused ∧ (t.pool q).status = .activeUnpaused

namespace Redistributed

theorem refl (s : Pdev) : Redistributed s s :=
  ⟨rfl, fun _ => rfl, fun _ _ => rfl, fun _ => .inl rfl⟩

theorem list (h : Redistributed s t) : t.flowPoolList = s.flowPoolList := by rw [h.device]

theorem inUse (h : Redistributed s t) : t.inUse = s.inUse := by rw [h.device]

theorem trans {u : Pdev} (h : Redistributed s t) (h' : Redistributed t u) : Redistributed s u := by
  refine ⟨?_, ?_, ?_, ?_⟩
  · have hd := h'.device
    rw [h.device] at hd
    exact hd
  · intro q
    have hq := h'.pool q
    rw [h.pool q] at hq
    exact hq
  · intro d hd
    rw [h'.owner d (by rw [h.inUse]; exact hd), h.owner d hd]
  · intro q
    rcases h.status q with heq | ⟨hs, ht⟩
    · rw [← heq]
      exact h'.status q
    · rcases h'.status q with heq | ⟨hs', _⟩
      · exact .inr ⟨hs, heq.trans ht⟩
      · rw [ht] at hs'
        cases hs'

theorem out (h : Redistributed s t) (p : ℕ) : out t p = out s p := by
  unfold TxFlow.out
  rw [h.inUse]
  apply countP_congr
  intro d hd
  rw [h.owner d hd]

theorem size (h : Redistributed s t) (q : ℕ) :
    (t.pool q).flowPoolSize = (s.pool q).flowPoolSize := by rw [h.pool q]

theorem overflow (h : Redistributed s t) (q : ℕ) :
    (t.pool q).overflowDesc = (s.pool q).overflowDesc := by rw [h.pool q]

theorem refCnt (h : Redistributed s t) (q : ℕ) :
    (t.pool q).refCnt = (s.pool q).refCnt := by rw [h.pool q]

theorem invalid_iff (h : Redistributed s t) (q : ℕ) :
    (t.pool q).status = .invalid ↔ (s.pool q).status = .invalid := by
  rcases h.status q with heq | ⟨hs, ht⟩
  · rw [heq]
  · simp only [hs, ht, reduceCtorEq]

theorem modPool (s : Pdev) (p : ℕ) {f : FlowPool → FlowPool}
    (hshape : f (s.pool p) = { s.pool p with
      availDesc := (f (s.pool p)).availDesc
      deficientDesc := (f (s.pool p)).deficientDesc
      status := (f (s.pool p)).status
      freelist := (f (s.pool p)).freelist })
    (hstatus : (f (s.pool p)).status = (s.pool p).status ∨
      (s.pool p).status = .activePaused ∧ (f (s.pool p)).status = .activeUnpaused) :
    Redistributed s (s.modPool p f) := by
  refine ⟨rfl, ?_, fun _ _ => rfl, ?_⟩
  · intro q
    rcases eq_or_ne q p with rfl | hne
    · rw [modPool_self]
      exact hshape
    · rw [modPool_of_ne hne]
  · intro q
    rcases eq_or_ne q p with rfl | hne
    · rw [modPool_self]
      exact hstatus
    · exact .inl (by rw [modPool_of_ne hne])

theorem pauseCb (s : Pdev) (flow : UInt8) (action : NetifAction) (reason : NetifReason) :
    Redistributed s (s.pauseCb flow action reason) :=
  ⟨rfl, fun _ => rfl, fun _ _ => rfl, fun _ => .inl rfl⟩

theorem own (p : ℕ) (h : Sound cfg s (ds ++ temp)) : Redistributed s (own p s ds) := by
  refine ⟨rfl, fun _ => rfl, ?_, fun _ => .inl rfl⟩
  intro d hd
  have hnot : d ∉ ds := fun hmem => h.not_mem_inUse (mem_append_left _ hmem) hd
  change (if d ∈ ds then some p else s.descPool d) = s.descPool d
  rw [if_neg hnot]

theorem takeGlobal (s : Pdev) (n : ℕ) :
    Redistributed s { s with freelist := s.freelist.drop n, numFree := s.numFree - n } :=
  ⟨rfl, fun _ => rfl, fun _ _ => rfl, fun _ => .inl rfl⟩

end Redistributed

theorem moveDescN_eq (src dst n : ℕ) (s : Pdev) (hn : n ≤ (s.pool src).freelist.length)
    (hd : n ≤ (s.pool dst).deficientDesc) :
    moveDescN src dst n s =
      (((own dst (s.modPool src fun pool =>
          { pool with freelist := pool.freelist.drop n, availDesc := pool.availDesc - n })
          ((s.pool src).freelist.take n).reverse).modPool dst fun pool =>
        { pool with
          freelist := (s.pool src).freelist.take n ++ pool.freelist
          availDesc := pool.availDesc + n }).modPool dst fun pool =>
        { pool with deficientDesc := pool.deficientDesc - n }, n) := by
  have hlen : ((s.pool src).freelist.take n).reverse.length = n := by
    simp only [length_reverse, length_take, Nat.min_eq_left hn]
  have hshort : ((s.modPool src fun pool => { pool with
      freelist := pool.freelist.drop n, availDesc := pool.availDesc - n }).pool dst).deficientDesc =
      (s.pool dst).deficientDesc := by
    rcases eq_or_ne dst src with rfl | hne
    · rw [modPool_self]
    · rw [modPool_of_ne hne]
  unfold moveDescN
  rw [takeFlowPool_eq src n s [] hn]
  simp only [append_nil]
  rw [fillDeficient_eq _ _ _ _ (by rw [hshort]; exact hd) (by omega)]
  rw [take_of_length_le (by omega), drop_of_length_le (by omega)]
  simp only [foldl_nil]
  rw [putFlowPool_eq, hlen, reverse_reverse]

/-- What `ol_tx_move_desc_n` does for a pool that is short by `n` at least. -/
structure Moved (src dst n : ℕ) (s t : Pdev) : Prop where
  kept : Redistributed s t
  queues : t.queues = s.queues
  numFree : t.numFree = s.numFree
  status : ∀ q, (t.pool q).status = (s.pool q).status
  deficient : ∀ q, (t.pool q).deficientDesc + (if q = dst then n else 0) =
    (s.pool q).deficientDesc
  avail : ∀ q, (t.pool q).availDesc + (if q = src then n else 0) =
    (s.pool q).availDesc + if q = dst then n else 0

variable {src : ℕ} {rest : List ℕ}

theorem moveDescN_spec {dst : ℕ} (h : Sound cfg s []) (hsrc : src ∈ s.flowPoolList)
    (hdst : dst ∈ s.flowPoolList) (hn : n ≤ (s.pool src).availDesc)
    (hd : n ≤ (s.pool dst).deficientDesc) :
    Sound cfg (moveDescN src dst n s).1 [] ∧ (moveDescN src dst n s).2 = n ∧
      Moved src dst n s (moveDescN src dst n s).1 := by
  have hlen := h.avail src hsrc
  have hsize : ((s.pool src).freelist.take n).length = n := by
    rw [length_take]
    omega
  rw [moveDescN_eq src dst n s (by omega) hd]
  have htake := h.takeFlow hsrc n
  have hput := htake.putFlow (p := dst) hdst
  simp only [reverse_reverse, length_reverse, hsize] at hput
  dsimp only
  refine ⟨?_, rfl, ?_⟩
  · exact hput.modPool rfl rfl
  constructor
  · have h₁ : Redistributed s (s.modPool src fun pool =>
        { pool with freelist := pool.freelist.drop n, availDesc := pool.availDesc - n }) :=
      .modPool s src rfl (.inl rfl)
    have h₂ := h₁.trans (.own dst htake)
    have h₃ := h₂.trans (.modPool _ dst (f := fun pool => { pool with
      freelist := (s.pool src).freelist.take n ++ pool.freelist
      availDesc := pool.availDesc + n }) rfl (.inl rfl))
    exact h₃.trans (.modPool _ dst rfl (.inl rfl))
  · rfl
  · rfl
  · intro q
    simp only [modPool_field FlowPool.status, own_pool]
    split_ifs <;> subst_vars <;> rfl
  · intro q
    simp only [modPool_field FlowPool.deficientDesc, own_pool]
    split_ifs <;> subst_vars <;> omega
  · intro q
    simp only [modPool_field FlowPool.availDesc, own_pool]
    split_ifs <;> subst_vars <;> omega

structure Woken (s t : Pdev) : Prop where
  kept : Redistributed s t
  numFree : t.numFree = s.numFree
  pool : ∀ q, t.pool q = { s.pool q with status := (t.pool q).status }

theorem Woken.refl (s : Pdev) : Woken s s := ⟨.refl s, rfl, fun _ => rfl⟩

theorem Woken.avail (h : Woken s t) (q : ℕ) : (t.pool q).availDesc = (s.pool q).availDesc := by
  rw [h.pool q]

theorem Woken.deficient (h : Woken s t) (q : ℕ) :
    (t.pool q).deficientDesc = (s.pool q).deficientDesc := by
  rw [h.pool q]

theorem unpause_woken (h : (s.pool p).status = .activePaused) :
    Woken s (s.modPool p fun pool => { pool with status := .activeUnpaused }) := by
  refine ⟨.modPool s p rfl (.inr ⟨h, rfl⟩), rfl, ?_⟩
  intro q
  rcases eq_or_ne q p with rfl | hne
  · simp only [modPool_self]
  · rw [modPool_of_ne hne]

theorem Woken.pauseCb (h : Woken s t) (flow : UInt8) (action : NetifAction)
    (reason : NetifReason) : Woken s (t.pauseCb flow action reason) :=
  ⟨h.kept.trans (.pauseCb t flow action reason), h.numFree, h.pool⟩

theorem wakeFromPool_spec (h : Sound cfg s temp) (dst : ℕ) :
    Sound cfg (wakeFromPool s dst) temp ∧ Woken s (wakeFromPool s dst) := by
  unfold wakeFromPool
  dsimp only
  split
  · next hp =>
      refine ⟨Sound.modPool (s := (s.pauseCb _ _ _).pauseCb _ _ _) ((h.pauseCb ..).pauseCb ..)
        rfl rfl, ?_⟩
      exact ((unpause_woken hp.1).pauseCb ..).pauseCb ..
  · exact ⟨h, .refl s⟩

theorem wakeFromGlobal_spec (h : Sound cfg s temp) (dst : ℕ) :
    Sound cfg (wakeFromGlobal s dst) temp ∧ Woken s (wakeFromGlobal s dst) := by
  unfold wakeFromGlobal
  dsimp only
  split
  · next hp =>
      refine ⟨Sound.modPool (s := s.pauseCb _ _ _) (h.pauseCb ..) rfl rfl, ?_⟩
      exact (unpause_woken hp.1).pauseCb ..
  · exact ⟨h, .refl s⟩

/-- What a pool gives to those of `rest` that are short, with `n` descriptors at hand. -/
structure Dealt (src : ℕ) (rest : List ℕ) (n : ℕ) (s t : Pdev) : Prop where
  kept : Redistributed s t
  numFree : t.numFree = s.numFree
  sum : ∀ q ≠ src, (t.pool q).availDesc + (t.pool q).deficientDesc =
    (s.pool q).availDesc + (s.pool q).deficientDesc
  deficient : ∀ q, (t.pool q).deficientDesc ≤ (s.pool q).deficientDesc
  avail : (t.pool src).availDesc ≤ (s.pool src).availDesc
  least : (s.pool src).availDesc ≤ (t.pool src).availDesc + n
  covered : Ledger.total (fun q => (s.pool q).deficientDesc) rest ≤ n →
    ∀ q ∈ rest, (t.pool q).deficientDesc = 0
  done : (∀ q ∈ rest, (t.pool q).deficientDesc = 0) ∨
    ((s.pool src).deficientDesc = 0 → (t.pool src).availDesc + n = (s.pool src).availDesc)

theorem Dealt.stop (src : ℕ) (rest : List ℕ) (s : Pdev) : Dealt src rest 0 s s := by
  refine ⟨.refl s, rfl, fun _ _ => rfl, fun _ => le_rfl, le_rfl, le_rfl, ?_, ?_⟩
  · intro hle q hq
    have := Ledger.le_total (f := fun q => (s.pool q).deficientDesc) hq
    omega
  · exact .inr fun _ => rfl

/-- One pool that is short gets `n`, and the rest what is left. -/
theorem Dealt.cons {dst m : ℕ} {s₁ s₂ : Pdev} (hm : Moved src dst n s s₁)
    (hw : Woken s₁ s₂) (hd : (s.pool dst).deficientDesc ≠ 0)
    (hmin : n = m ∧ m ≤ (s.pool dst).deficientDesc ∨ n ≤ m ∧ n = (s.pool dst).deficientDesc)
    (h : Dealt src rest (m - n) s₂ t) : Dealt src (dst :: rest) m s t := by
  have hdef : ∀ q, (s₂.pool q).deficientDesc + (if q = dst then n else 0) =
      (s.pool q).deficientDesc := fun q => by rw [hw.deficient, hm.deficient]
  have havail : ∀ q, (s₂.pool q).availDesc + (if q = src then n else 0) =
      (s.pool q).availDesc + if q = dst then n else 0 := fun q => by rw [hw.avail, hm.avail]
  have hself := hdef dst
  rw [if_pos rfl] at hself
  constructor
  · exact hm.kept.trans (hw.kept.trans h.kept)
  · rw [h.numFree, hw.numFree, hm.numFree]
  · intro q hq
    have h₁ := hdef q
    have h₂ := havail q
    have h₃ := h.sum q hq
    rw [if_neg hq] at h₂
    split_ifs at h₁ h₂ <;> omega
  · intro q
    have h₁ := hdef q
    have h₂ := h.deficient q
    omega
  · have h₁ := havail src
    have h₂ := h.avail
    rw [if_pos rfl] at h₁
    split_ifs at h₁ <;> omega
  · have h₁ := havail src
    have h₂ := h.least
    rw [if_pos rfl] at h₁
    omega
  · intro hle q hq
    rw [Ledger.total_cons] at hle
    have hrest : Ledger.total (fun q => (s₂.pool q).deficientDesc) rest ≤
        Ledger.total (fun q => (s.pool q).deficientDesc) rest := by
      apply sum_le_sum
      intro q _
      have := hdef q
      omega
    rcases mem_cons.mp hq with rfl | hq
    · have := h.deficient q
      omega
    · exact h.covered (by omega) q hq
  · rcases h.done with hall | hsome
    · rcases hmin with ⟨heq, hle⟩ | ⟨hle, heq⟩
      · right
        intro hzero
        have hne : src ≠ dst := by
          rintro rfl
          exact hd hzero
        have h₁ := havail src
        rw [if_pos rfl, if_neg hne] at h₁
        have h₂ := h.avail
        have h₃ := h.least
        omega
      · left
        intro q hq
        rcases mem_cons.mp hq with rfl | hq
        · have := h.deficient q
          omega
        · exact hall q hq
    · right
      intro hzero
      have hne : src ≠ dst := by
        rintro rfl
        exact hd hzero
      have h₁ := havail src
      have h₂ := hdef src
      rw [if_pos rfl, if_neg hne] at h₁
      rw [if_neg hne] at h₂
      have := hsome (by omega)
      omega

theorem distributeLoop_spec (h : Sound cfg s [])
    (hsrc : src ∈ s.flowPoolList) (hrest : ∀ q ∈ rest, q ∈ s.flowPoolList)
    (hn : n ≤ (s.pool src).availDesc) :
    Sound cfg (distributeLoop src rest n s) [] ∧
      Dealt src rest n s (distributeLoop src rest n s) := by
  induction rest generalizing s n with
  | nil =>
    refine ⟨h, .refl s, rfl, fun _ _ => rfl, fun _ => le_rfl, le_rfl, Nat.le_add_right .., ?_, ?_⟩
    · exact fun _ q hq => nomatch hq
    · exact .inl fun q hq => nomatch hq
  | cons dst rest ih =>
    have hdst := hrest dst mem_cons_self
    have hrest' : ∀ q ∈ rest, q ∈ s.flowPoolList := fun q hq =>
      hrest q (mem_cons_of_mem _ hq)
    unfold distributeLoop
    dsimp only
    by_cases hd : (s.pool dst).deficientDesc = 0
    · rw [if_pos hd]
      dsimp only
      split
      · next hzero =>
          subst hzero
          exact ⟨h, .stop ..⟩
      · obtain ⟨hs, hdealt⟩ := ih h hsrc hrest' hn
        refine ⟨hs, hdealt.kept, hdealt.numFree, hdealt.sum, hdealt.deficient, hdealt.avail,
          hdealt.least, ?_, ?_⟩
        · intro hle q hq
          rw [Ledger.total_cons, hd, Nat.zero_add] at hle
          rcases mem_cons.mp hq with rfl | hq
          · have := hdealt.deficient q
            omega
          · exact hdealt.covered hle q hq
        · rcases hdealt.done with hall | hsome
          · left
            intro q hq
            rcases mem_cons.mp hq with rfl | hq
            · have := hdealt.deficient q
              omega
            · exact hall q hq
          · exact .inr hsome
    · rw [if_neg hd]
      dsimp only
      obtain ⟨k, hk⟩ : ∃ k, k = if n < (s.pool dst).deficientDesc then n
        else (s.pool dst).deficientDesc := ⟨_, rfl⟩
      have hmin : k = n ∧ n ≤ (s.pool dst).deficientDesc ∨
          k ≤ n ∧ k = (s.pool dst).deficientDesc := by split at hk <;> omega
      rw [← hk]
      obtain ⟨hs₁, hcount, hm⟩ := moveDescN_spec h hsrc hdst (by omega : k ≤ _) (by omega)
      obtain ⟨hs₂, hw⟩ := wakeFromPool_spec hs₁ dst
      have hkept := hm.kept.trans hw.kept
      have havail := hm.avail src
      rw [if_pos rfl, ← hw.avail] at havail
      rw [hcount]
      split
      · next hzero =>
          refine ⟨hs₂, Dealt.cons hm hw hd hmin ?_⟩
          rw [hzero]
          exact .stop ..
      · obtain ⟨hs, hdealt⟩ := ih hs₂ (by rw [hkept.list]; exact hsrc)
          (by rw [hkept.list]; exact hrest') (by omega : n - k ≤ _)
        exact ⟨hs, Dealt.cons hm hw hd hmin hdealt⟩

/-- What descriptors of the global pool do to the pools: those that are short get some, and are as
short as before. -/
structure Granted (s t : Pdev) : Prop where
  kept : Redistributed s t
  deficient : ∀ q, (t.pool q).deficientDesc = (s.pool q).deficientDesc
  avail : ∀ q, (s.pool q).deficientDesc = 0 → (t.pool q).availDesc = (s.pool q).availDesc
  le : ∀ q, (s.pool q).availDesc ≤ (t.pool q).availDesc

theorem Granted.refl (s : Pdev) : Granted s s :=
  ⟨.refl s, fun _ => rfl, fun _ _ => rfl, fun _ => le_rfl⟩

theorem Granted.trans {u : Pdev} (h : Granted s t) (h' : Granted t u) : Granted s u := by
  refine ⟨h.kept.trans h'.kept, ?_, ?_, ?_⟩
  · intro q
    rw [h'.deficient, h.deficient]
  · intro q hq
    rw [h'.avail q (by rw [h.deficient]; exact hq), h.avail q hq]
  · exact fun q => (h.le q).trans (h'.le q)

theorem Woken.granted (h : Woken s t) : Granted s t :=
  ⟨h.kept, h.deficient, fun q _ => h.avail q, fun q => (h.avail q).ge⟩

theorem granted_putFlow (h : Sound cfg s (ds ++ temp)) (hd : (s.pool p).deficientDesc ≠ 0) :
    Granted s (ds.foldl (putDescFlowPool p) s) := by
  rw [putFlowPool_eq]
  refine ⟨(Redistributed.own p h).trans (.modPool _ p rfl (.inl rfl)), ?_, ?_, ?_⟩
  · intro q
    simp only [modPool_field FlowPool.deficientDesc, own_pool]
    split_ifs <;> subst_vars <;> rfl
  · intro q hq
    rw [modPool_of_ne, own_pool]
    rintro rfl
    exact hd hq
  · intro q
    simp only [modPool_field FlowPool.availDesc, own_pool]
    split_ifs <;> subst_vars <;> omega

theorem sound_putFlow (h : Sound cfg s (ds ++ temp)) (hp : p ∈ s.flowPoolList) :
    Sound cfg (ds.foldl (putDescFlowPool p) s) temp := by
  rw [putFlowPool_eq]
  exact h.putFlow hp

theorem globalLoop_spec (tmp : Option ℕ) (h : Sound cfg s temp)
    (hrest : ∀ q ∈ rest, q ∈ s.flowPoolList) (hlen : temp.length = n)
    (hn : n ≤ Ledger.total (fun q => (s.pool q).deficientDesc) rest) :
    Sound cfg (globalLoop rest temp n tmp s).1 [] ∧ Granted s (globalLoop rest temp n tmp s).1 ∧
      ((globalLoop rest temp n tmp s).2 = tmp ∨ ∃ p ∈ s.flowPoolList,
        (globalLoop rest temp n tmp s).2 = some p ∧ (s.pool p).status = .invalid ∧
        (s.pool p).deficientDesc ≠ 0) := by
  induction rest generalizing s temp n tmp with
  | nil =>
    rw [Ledger.total_nil] at hn
    have hempty : temp = [] := length_eq_zero_iff.mp (by omega)
    subst hempty
    exact ⟨h, .refl s, .inl rfl⟩
  | cons dst rest ih =>
    have hdst := hrest dst mem_cons_self
    have hrest' : ∀ q ∈ rest, q ∈ s.flowPoolList := fun q hq =>
      hrest q (mem_cons_of_mem _ hq)
    rw [Ledger.total_cons] at hn
    unfold globalLoop
    dsimp only
    by_cases hd : (s.pool dst).deficientDesc = 0
    · rw [if_pos hd]
      split
      · next hzero =>
          have hempty : temp = [] := length_eq_zero_iff.mp (by omega)
          subst hempty
          exact ⟨h, .refl s, .inl rfl⟩
      · exact ih tmp h hrest' hlen (by omega)
    · rw [if_neg hd]
      obtain ⟨k, hk⟩ : ∃ k, k = if n < (s.pool dst).deficientDesc then n
        else (s.pool dst).deficientDesc := ⟨_, rfl⟩
      have hmin : k = n ∧ n ≤ (s.pool dst).deficientDesc ∨
          k ≤ n ∧ k = (s.pool dst).deficientDesc := by split at hk <;> omega
      rw [← hk]
      have hsplit : Sound cfg s (temp.take k ++ temp.drop k) := by
        rw [take_append_drop]
        exact h
      have hs₁ := sound_putFlow hsplit hdst
      have hg₁ := granted_putFlow hsplit hd
      generalize (temp.take k).foldl (putDescFlowPool dst) s = s₁ at hs₁ hg₁ ⊢
      obtain ⟨hs₂, hw⟩ := wakeFromGlobal_spec hs₁ dst
      have hg := hg₁.trans hw.granted
      generalize wakeFromGlobal s₁ dst = s₂ at hs₂ hw hg ⊢
      have hdrop : (temp.drop k).length = n - k := by
        rw [length_drop, hlen]
      have htmp : (if (s₁.pool dst).Complete then some dst else tmp) = tmp ∨
          ∃ p ∈ s.flowPoolList, (if (s₁.pool dst).Complete then some dst else tmp) = some p ∧
            (s.pool p).status = .invalid ∧ (s.pool p).deficientDesc ≠ 0 := by
        split
        · next hc => exact .inr ⟨dst, hdst, rfl, (hg₁.kept.invalid_iff dst).mp hc.1, hd⟩
        · exact .inl rfl
      split
      · next hzero =>
          have hempty : temp.drop k = [] := length_eq_zero_iff.mp (by omega)
          rw [hempty] at hs₂
          exact ⟨hs₂, hg, htmp⟩
      · have hrest₂ : ∀ q ∈ rest, q ∈ s₂.flowPoolList := by
          rw [hg.kept.list]
          exact hrest'
        have htotal : Ledger.total (fun q => (s₂.pool q).deficientDesc) rest =
            Ledger.total (fun q => (s.pool q).deficientDesc) rest :=
          Ledger.total_congr fun q _ => hg.deficient q
        obtain ⟨hs, hg', htmp'⟩ := ih (if (s₁.pool dst).Complete then some dst else tmp)
          hs₂ hrest₂ hdrop (by omega)
        refine ⟨hs, hg.trans hg', ?_⟩
        rcases htmp' with heq | ⟨p, hp, heq, hinv, hshort⟩
        · rw [heq]
          exact htmp
        · rw [hg.kept.list] at hp
          exact .inr ⟨p, hp, heq, (hg.kept.invalid_iff p).mp hinv, by
            rw [← hg.deficient]
            exact hshort⟩

end KernelModules.TxFlow
