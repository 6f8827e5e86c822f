import KernelModules.Wbuff

/-!
# Who has the wbuff buffers

Where a module deregisters with empty pools only, and a slot is used again only when no buffer is
pending there, a slot says whose buffer it is: what is held of a slot belongs to the module that
is registered there, and is what `pending_returns` counts.
-/

namespace KernelModules.Wbuff

open Function

variable {s t : Holder} {m p b : ℕ}

theorem mslotOf_devScratch (hm : m < maxModules) (hp : p < maxPools) :
    mslotOf (devScratch m p) = m := by
  unfold maxModules at hm
  unfold maxPools at hp
  interval_cases m <;> interval_cases p <;> rfl

theorem pslotOf_devScratch (hm : m < maxModules) (hp : p < maxPools) :
    pslotOf (devScratch m p) = p := by
  unfold maxModules at hm
  unfold maxPools at hp
  interval_cases m <;> interval_cases p <;> rfl

theorem devScratch_ne_zero (hm : m < maxModules) (hp : p < maxPools) : devScratch m p ≠ 0 := by
  unfold maxModules at hm
  unfold maxPools at hp
  interval_cases m <;> interval_cases p <;> decide

def poolSize (pool : ℕ → List ℕ) : ℕ :=
  (pool 0).length + (pool 1).length + (pool 2).length + (pool 3).length

theorem poolSize_update (pool : ℕ → List ℕ) (hp : p < maxPools) (q : List ℕ) :
    poolSize (update pool p q) + (pool p).length = poolSize pool + q.length := by
  unfold maxPools at hp
  unfold poolSize
  interval_cases p <;> simp <;> omega

namespace Holder

def slotOf (s : Holder) (b : ℕ) : ℕ := mslotOf (s.buf b).devScratch

def heldOf (s : Holder) (m : ℕ) : ℕ := s.held.countP fun b => s.slotOf b = m

def pooled (s : Holder) (m : ℕ) : ℕ := poolSize (s.mod m).pool

@[simp] theorem setMod_mod_self (s : Holder) (m : ℕ) (f : Mod → Mod) :
    (s.setMod m f).mod m = f (s.mod m) := update_self ..

theorem setMod_mod_of_ne {m' : ℕ} (h : m' ≠ m) (s : Holder) (f : Mod → Mod) :
    (s.setMod m f).mod m' = s.mod m' := update_of_ne h ..

end Holder

/-- A buffer that is in use: what its scratch word says is true of it. -/
structure Live (s : Holder) (b : ℕ) : Prop where
  lt : b < s.fresh
  freed : (s.buf b).freed = false
  scratch : (s.buf b).devScratch ≠ 0
  mslot : s.slotOf b < maxModules
  pslot : pslotOf (s.buf b).devScratch < maxPools
  len : (s.buf b).len = lenFromPoolSlot (pslotOf (s.buf b).devScratch)
  generation : (s.mod (s.slotOf b)).registered →
    (s.buf b).generation = (s.mod (s.slotOf b)).generation

structure Sound (s : Holder) : Prop where
  pool : ∀ m p, ∀ b ∈ (s.mod m).pool p, Live s b ∧ s.slotOf b = m ∧
    pslotOf (s.buf b).devScratch = p ∧ (s.mod m).registered ∧ b ∉ s.held
  poolNodup : ∀ m p, ((s.mod m).pool p).Nodup
  held : ∀ b ∈ s.held, Live s b
  heldNodup : s.held.Nodup
  pending : ∀ m, (s.mod m).registered → (s.mod m).pendingReturns = s.heldOf m
  late : ∀ m, ¬(s.mod m).registered → s.heldOf m ≤ (s.mod m).pendingReturns

def Bounded (s : Holder) : Prop := ∀ m, s.pooled m + s.heldOf m ≤ 1024

theorem Live.congr (h : Live s b) (hfresh : s.fresh ≤ t.fresh) (hbuf : t.buf b = s.buf b)
    (hmod : (t.mod (s.slotOf b)).registered → (s.mod (s.slotOf b)).registered ∧
      (t.mod (s.slotOf b)).generation = (s.mod (s.slotOf b)).generation) : Live t b := by
  have hslot : t.slotOf b = s.slotOf b := by
    unfold Holder.slotOf
    rw [hbuf]
  refine ⟨h.lt.trans_le hfresh, ?_, ?_, ?_, ?_, ?_, ?_⟩
  · rw [hbuf]
    exact h.freed
  · rw [hbuf]
    exact h.scratch
  · rw [hslot]
    exact h.mslot
  · rw [hbuf]
    exact h.pslot
  · rw [hbuf]
    exact h.len
  · rw [hslot, hbuf]
    intro hreg
    obtain ⟨hreg', hgen⟩ := hmod hreg
    rw [hgen]
    exact h.generation hreg'

def SameModules (s t : Holder) : Prop :=
  ∀ m, (t.mod m).registered = (s.mod m).registered ∧ (t.mod m).generation = (s.mod m).generation

theorem SameModules.live (h : SameModules s t) (hb : Live s b) (hfresh : s.fresh ≤ t.fresh)
    (hbuf : t.buf b = s.buf b) : Live t b :=
  hb.congr hfresh hbuf fun hreg => ⟨(h _).1 ▸ hreg, (h _).2⟩

theorem setMod_sameModules {f : Mod → Mod} (hreg : (f (s.mod m)).registered = (s.mod m).registered)
    (hgen : (f (s.mod m)).generation = (s.mod m).generation) : SameModules s (s.setMod m f) := by
  intro m'
  by_cases hm : m' = m
  · subst hm
    rw [Holder.setMod_mod_self]
    exact ⟨hreg, hgen⟩
  · rw [Holder.setMod_mod_of_ne hm]
    exact ⟨rfl, rfl⟩

theorem heldOf_congr (hheld : t.held = s.held) (hbuf : ∀ b ∈ s.held, t.buf b = s.buf b) (m : ℕ) :
    t.heldOf m = s.heldOf m := by
  unfold Holder.heldOf
  rw [hheld]
  apply List.countP_congr
  intro b hb
  unfold Holder.slotOf
  rw [hbuf b hb]

theorem Sound.pool_empty (hs : Sound s) (hreg : ¬(s.mod m).registered) (p : ℕ) :
    (s.mod m).pool p = [] :=
  List.eq_nil_iff_forall_not_mem.mpr fun b hb => hreg (hs.pool m p b hb).2.2.2.1

theorem Sound.of_places (hs : Sound s) (hmods : SameModules s t) (hfresh : t.fresh = s.fresh)
    (hbuf : t.buf = s.buf)
    (hpool : ∀ m p, ∀ x ∈ (t.mod m).pool p, (x ∈ (s.mod m).pool p ∨ x ∈ s.held ∧ s.slotOf x = m ∧
      pslotOf (s.buf x).devScratch = p ∧ (s.mod m).registered) ∧ x ∉ t.held)
    (hnodup : ∀ m p, ((t.mod m).pool p).Nodup)
    (hheld : ∀ x ∈ t.held, x ∈ s.held ∨ ∃ m p, x ∈ (s.mod m).pool p) (hheldNodup : t.held.Nodup)
    (hpending : ∀ m, (s.mod m).registered → (t.mod m).pendingReturns = t.heldOf m)
    (hlate : ∀ m, ¬(s.mod m).registered → t.heldOf m ≤ (t.mod m).pendingReturns) : Sound t := by
  have hlive : ∀ x, Live s x → Live t x := fun x hx =>
    hmods.live hx hfresh.ge (congrFun hbuf x)
  have hslot : ∀ x, t.slotOf x = s.slotOf x := fun x => by
    unfold Holder.slotOf
    rw [hbuf]
  refine ⟨fun m p x hx => ?_, hnodup, fun x hx => ?_, hheldNodup, fun m hreg => ?_,
    fun m hreg => ?_⟩
  · obtain ⟨hfrom, hnot⟩ := hpool m p x hx
    rw [hslot, hbuf, (hmods m).1]
    rcases hfrom with hin | ⟨hin, hm, hp, hreg⟩
    · obtain ⟨hx, hm, hp, hreg, -⟩ := hs.pool m p x hin
      exact ⟨hlive x hx, hm, hp, hreg, hnot⟩
    · exact ⟨hlive x (hs.held x hin), hm, hp, hreg, hnot⟩
  · rcases hheld x hx with hin | ⟨m, p, hin⟩
    · exact hlive x (hs.held x hin)
    · exact hlive x (hs.pool m p x hin).1
  · exact hpending m ((hmods m).1 ▸ hreg)
  · exact hlate m ((hmods m).1 ▸ hreg)

def Mod.taken (p : ℕ) (pool : List ℕ) (mod : Mod) : Mod :=
  { mod with
    pool := update mod.pool p pool
    pendingReturns := (mod.pendingReturns + 1) % 2 ^ 16 }

def Holder.take (s : Holder) (m p b : ℕ) (pool : List ℕ) : Holder :=
  { s with held := b :: s.held }.setMod m (Mod.taken p pool)

theorem take_heldOf (s : Holder) (m p b : ℕ) (pool : List ℕ) (m' : ℕ) :
    (s.take m p b pool).heldOf m' = s.heldOf m' + if s.slotOf b = m' then 1 else 0 := by
  change (b :: s.held).countP _ = s.held.countP _ + _
  rw [List.countP_cons]
  simp only [decide_eq_true_eq]
  rfl

variable {pool : List ℕ} {m' x len reserve align : ℕ}

theorem take_mod_of_ne (h : m' ≠ m) :
    (s.take m p b pool).mod m' = s.mod m' := Holder.setMod_mod_of_ne h ..

theorem take_pending (s : Holder) (m p b : ℕ) (pool : List ℕ) :
    ((s.take m p b pool).mod m).pendingReturns = ((s.mod m).pendingReturns + 1) % 2 ^ 16 := by
  unfold Holder.take
  rw [Holder.setMod_mod_self]
  rfl

theorem take_pool (s : Holder) (m p b : ℕ) (pool : List ℕ) (m' : ℕ) :
    ((s.take m p b pool).mod m').pool = (if m' = m then update (s.mod m).pool p pool
      else (s.mod m').pool) := by
  unfold Holder.take
  split
  next h => rw [h, Holder.setMod_mod_self]; rfl
  next h => rw [Holder.setMod_mod_of_ne h]

variable {p' n k : ℕ}

theorem mem_take_pool (hs : Sound s)
    (hp : (s.mod m).pool p = b :: pool) (hx : x ∈ ((s.take m p b pool).mod m').pool p') :
    x ∈ (s.mod m').pool p' ∧ x ≠ b := by
  obtain ⟨-, hbm, hbp, -, -⟩ := hs.pool m p b (by rw [hp]; exact List.mem_cons_self)
  rw [take_pool] at hx
  by_cases hm : m' = m
  · rw [if_pos hm] at hx
    subst hm
    by_cases hp' : p' = p
    · subst hp'
      rw [update_self] at hx
      have hnodup := hs.poolNodup m' p'
      rw [hp] at hnodup ⊢
      exact ⟨List.mem_cons_of_mem b hx, fun h => (List.nodup_cons.mp hnodup).1 (h ▸ hx)⟩
    · rw [update_of_ne hp'] at hx
      exact ⟨hx, fun h => hp' (((hs.pool m' p' x hx).2.2.1).symm.trans (h ▸ hbp))⟩
  · rw [if_neg hm] at hx
    exact ⟨hx, fun h => hm (((hs.pool m' p' x hx).2.1).symm.trans (h ▸ hbm))⟩

theorem Sound.take (hs : Sound s) (hbounded : Bounded s)
    (hp : (s.mod m).pool p = b :: pool) : Sound (s.take m p b pool) := by
  have hb : b ∈ (s.mod m).pool p := by
    rw [hp]
    exact List.mem_cons_self
  obtain ⟨hlive, hbm, hbp, hreg, hbheld⟩ := hs.pool m p b hb
  have hpooled : 1 ≤ s.pooled m := by
    have hlen : 1 ≤ ((s.mod m).pool p).length := by
      rw [hp, List.length_cons]
      omega
    have hp4 : p < maxPools := hbp ▸ hlive.pslot
    unfold maxPools at hp4
    unfold Holder.pooled poolSize
    interval_cases p <;> omega
  apply hs.of_places (t := s.take m p b pool) (setMod_sameModules rfl rfl) rfl rfl
  · intro m' p' x hx
    obtain ⟨hin, hne⟩ := mem_take_pool hs hp hx
    exact ⟨.inl hin, fun h => (hs.pool m' p' x hin).2.2.2.2 ((List.mem_cons.mp h).resolve_left hne)⟩
  · intro m' p'
    rw [take_pool]
    split
    next hm =>
        by_cases hp' : p' = p
        · subst hp'
          rw [update_self]
          have hnodup := hs.poolNodup m p'
          rw [hp] at hnodup
          exact (List.nodup_cons.mp hnodup).2
        · rw [update_of_ne hp']
          exact hs.poolNodup m p'
    next => exact hs.poolNodup m' p'
  · intro x hx
    rcases List.mem_cons.mp hx with rfl | hx
    · exact .inr ⟨m, p, hb⟩
    · exact .inl hx
  · exact List.nodup_cons.mpr ⟨hbheld, hs.heldNodup⟩
  · intro m' hreg'
    rw [take_heldOf, hbm]
    have hpending := hs.pending m' hreg'
    by_cases hm : m' = m
    · subst hm
      have hle := hbounded m'
      rw [take_pending, if_pos rfl]
      omega
    · rw [take_mod_of_ne hm, if_neg (Ne.symm hm)]
      exact hpending
  · intro m' hreg'
    have hm : m' ≠ m := fun h => hreg' (h ▸ hreg)
    rw [take_heldOf, hbm, if_neg (Ne.symm hm), take_mod_of_ne hm]
    exact hs.late m' hreg'

theorem Bounded.take (hbounded : Bounded s) (hs : Sound s)
    (hp : (s.mod m).pool p = b :: pool) : Bounded (s.take m p b pool) := by
  obtain ⟨hlive, hbm, hbp, -, -⟩ := hs.pool m p b (by rw [hp]; exact List.mem_cons_self)
  intro m'
  rw [take_heldOf, hbm, Holder.pooled, take_pool]
  have hle := hbounded m'
  by_cases hm : m' = m
  · subst hm
    have hsize := poolSize_update (s.mod m').pool (hbp ▸ hlive.pslot) pool
    rw [hp, List.length_cons] at hsize
    unfold Holder.pooled at hle
    rw [if_pos rfl, if_pos rfl]
    omega
  · rw [if_neg hm, if_neg (Ne.symm hm)]
    exact hle

theorem Holder.buffGet_cases (s : Holder) (hdl : Option ℕ) (len : ℕ) :
    s.buffGet hdl len = (none, s) ∨ ∃ m b pool, (s.mod m).pool (poolSlotFromLen len) = b :: pool ∧
      s.buffGet hdl len = (some b, s.take m (poolSlotFromLen len) b pool) := by
  unfold Holder.buffGet
  cases hdl with
  | none => exact .inl rfl
  | some m =>
    dsimp only
    split
    · exact .inl rfl
    cases hpool : (s.mod m).pool (poolSlotFromLen len) with
    | nil => exact .inl rfl
    | cons b pool => exact .inr ⟨m, b, pool, hpool, rfl⟩

def Holder.putBack (s : Holder) (b : ℕ) : Holder :=
  { s with held := s.held.erase b }.setMod (s.slotOf b) fun mod =>
    { mod with
      pool := update mod.pool (pslotOf (s.buf b).devScratch)
        (b :: mod.pool (pslotOf (s.buf b).devScratch))
      pendingReturns := (mod.pendingReturns + 2 ^ 16 - 1) % 2 ^ 16 }

theorem heldOf_erase (hb : b ∈ s.held) (m : ℕ) :
    s.heldOf m = { s with held := s.held.erase b }.heldOf m + if s.slotOf b = m then 1 else 0 := by
  unfold Holder.heldOf
  rw [(List.perm_cons_erase hb).countP_eq, List.countP_cons]
  simp only [decide_eq_true_eq]
  rfl

theorem putBack_heldOf (hb : b ∈ s.held) (m : ℕ) :
    s.heldOf m = (s.putBack b).heldOf m + if s.slotOf b = m then 1 else 0 := heldOf_erase hb m

theorem putBack_mod_of_ne (h : m ≠ s.slotOf b) : (s.putBack b).mod m = s.mod m :=
  Holder.setMod_mod_of_ne h ..

theorem putBack_pending (s : Holder) (b : ℕ) : ((s.putBack b).mod (s.slotOf b)).pendingReturns =
    ((s.mod (s.slotOf b)).pendingReturns + 2 ^ 16 - 1) % 2 ^ 16 := by
  unfold Holder.putBack
  rw [Holder.setMod_mod_self]

theorem putBack_pool (s : Holder) (b m : ℕ) :
    ((s.putBack b).mod m).pool = (if m = s.slotOf b then
      update (s.mod m).pool (pslotOf (s.buf b).devScratch)
        (b :: (s.mod m).pool (pslotOf (s.buf b).devScratch))
      else (s.mod m).pool) := by
  unfold Holder.putBack
  split
  next h =>
      subst h
      rw [Holder.setMod_mod_self]
  next h => rw [Holder.setMod_mod_of_ne h]

theorem mem_putBack_pool (hx : x ∈ ((s.putBack b).mod m).pool p) :
    x ∈ (s.mod m).pool p ∨ x = b ∧ s.slotOf b = m ∧ pslotOf (s.buf b).devScratch = p := by
  rw [putBack_pool] at hx
  by_cases hm : m = s.slotOf b
  · rw [if_pos hm] at hx
    by_cases hp : p = pslotOf (s.buf b).devScratch
    · subst hp
      rw [update_self] at hx
      rcases List.mem_cons.mp hx with rfl | hx
      · exact .inr ⟨rfl, hm.symm, rfl⟩
      · exact .inl hx
    · rw [update_of_ne hp] at hx
      exact .inl hx
  · rw [if_neg hm] at hx
    exact .inl hx

theorem Sound.putBack (hs : Sound s) (hbounded : Bounded s) (hb : b ∈ s.held)
    (hreg : (s.mod (s.slotOf b)).registered) : Sound (s.putBack b) := by
  have hout : ∀ m p, b ∉ (s.mod m).pool p := fun m p h => (hs.pool m p b h).2.2.2.2 hb
  apply hs.of_places (t := s.putBack b) (setMod_sameModules rfl rfl) rfl rfl
  · intro m p x hx
    rcases mem_putBack_pool hx with hin | ⟨rfl, hm, hp⟩
    · refine ⟨.inl hin, fun h => ?_⟩
      exact (hs.pool m p x hin).2.2.2.2 (List.mem_of_mem_erase h)
    · exact ⟨.inr ⟨hb, hm, hp, hm ▸ hreg⟩, hs.heldNodup.not_mem_erase⟩
  · intro m p
    rw [putBack_pool]
    split
    next hm =>
        by_cases hp : p = pslotOf (s.buf b).devScratch
        · subst hp
          rw [update_self]
          exact List.nodup_cons.mpr ⟨hout m _, hs.poolNodup m _⟩
        · rw [update_of_ne hp]
          exact hs.poolNodup m p
    next => exact hs.poolNodup m p
  · exact fun x hx => .inl (List.mem_of_mem_erase hx)
  · exact hs.heldNodup.erase b
  · intro m hreg'
    have hheld := putBack_heldOf hb m
    have hpending := hs.pending m hreg'
    have hle := hbounded m
    by_cases hm : m = s.slotOf b
    · subst hm
      rw [if_pos rfl] at hheld
      rw [putBack_pending]
      omega
    · rw [if_neg (Ne.symm hm)] at hheld
      rw [putBack_mod_of_ne hm]
      omega
  · intro m hreg'
    have hm : m ≠ s.slotOf b := fun h => hreg' (h ▸ hreg)
    have hheld := putBack_heldOf hb m
    have hlate := hs.late m hreg'
    rw [if_neg (Ne.symm hm)] at hheld
    rw [putBack_mod_of_ne hm]
    omega

theorem Bounded.putBack (hbounded : Bounded s) (hs : Sound s) (hb : b ∈ s.held) :
    Bounded (s.putBack b) := by
  intro m
  have hheld := putBack_heldOf hb m
  have hle := hbounded m
  rw [Holder.pooled, putBack_pool]
  unfold Holder.pooled at hle
  by_cases hm : m = s.slotOf b
  · rw [if_pos hm]
    rw [if_pos hm.symm] at hheld
    have hsize := poolSize_update (s.mod m).pool (hs.held b hb).pslot
      (b :: (s.mod m).pool (pslotOf (s.buf b).devScratch))
    rw [List.length_cons] at hsize
    omega
  · rw [if_neg hm]
    rw [if_neg (Ne.symm hm)] at hheld
    omega

theorem Holder.buffPut_cases (s : Holder) (b : ℕ) :
    s.buffPut b = (some b, s) ∨ (s.buf b).devScratch ≠ 0 ∧
      (s.mod (s.slotOf b)).registered ∧ s.buffPut b = (none, s.putBack b) := by
  unfold Holder.buffPut
  split
  · exact .inl rfl
  dsimp only
  split
  · exact .inl rfl
  next hscratch =>
      split
      next hreg => exact .inr ⟨hscratch, hreg, rfl⟩
      next => exact .inl rfl

theorem callerFree_buf_of_ne (h : x ≠ b) : (s.callerFree b).buf x = s.buf x :=
  update_of_ne h ..

theorem callerFree_buf (s : Holder) (b : ℕ) :
    (s.callerFree b).buf b = { s.buf b with freed := true } := update_self ..

theorem callerFree_slotOf (s : Holder) (b x : ℕ) : (s.callerFree b).slotOf x = s.slotOf x := by
  unfold Holder.slotOf
  by_cases hx : x = b
  · rw [hx, callerFree_buf]
  · rw [callerFree_buf_of_ne hx]

theorem callerFree_heldOf (hb : b ∈ s.held) (m : ℕ) :
    s.heldOf m = (s.callerFree b).heldOf m + if s.slotOf b = m then 1 else 0 := by
  rw [heldOf_erase hb]
  unfold Holder.heldOf
  simp only [callerFree_slotOf]
  rfl

theorem Sound.callerFree (hs : Sound s) (hb : b ∈ s.held)
    (hreg : ¬(s.mod (s.slotOf b)).registered) : Sound (s.callerFree b) := by
  have hlive : ∀ x ≠ b, Live s x → Live (s.callerFree b) x := fun x hx h =>
    h.congr le_rfl (callerFree_buf_of_ne hx) fun hr => ⟨hr, rfl⟩
  refine ⟨fun m p x hx => ?_, hs.poolNodup, fun x hx => ?_, hs.heldNodup.erase b, fun m hr => ?_,
    fun m hr => ?_⟩
  · obtain ⟨hx', hm, hp, hr, hnot⟩ := hs.pool m p x hx
    have hne : x ≠ b := fun h => hnot (h ▸ hb)
    rw [callerFree_slotOf, callerFree_buf_of_ne hne]
    exact ⟨hlive x hne hx', hm, hp, hr, fun h => hnot (List.mem_of_mem_erase h)⟩
  · have hne : x ≠ b := fun h => hs.heldNodup.not_mem_erase (h ▸ hx)
    exact hlive x hne (hs.held x (List.mem_of_mem_erase hx))
  · have hm : s.slotOf b ≠ m := fun h => hreg (h ▸ hr)
    have hheld := callerFree_heldOf hb m
    rw [if_neg hm] at hheld
    exact (hs.pending m hr).trans hheld
  · have hheld := callerFree_heldOf hb m
    have hlate := hs.late m hr
    change _ ≤ (s.mod m).pendingReturns
    omega

theorem Bounded.callerFree (hbounded : Bounded s) (hb : b ∈ s.held) : Bounded (s.callerFree b) := by
  intro m
  have hheld := callerFree_heldOf hb m
  have hle := hbounded m
  change s.pooled m + _ ≤ 1024
  omega

theorem freePools_eq (hpool : ∀ p < maxPools, (s.mod m).pool p = []) : s.freePools m = s := by
  unfold Holder.freePools
  congr 1
  funext b
  apply if_neg
  rintro ⟨p, hp, hb⟩
  rw [hpool p hp] at hb
  cases hb

def Holder.unregister (s : Holder) (m : ℕ) : Holder :=
  s.setMod m fun mod => { mod with registered := false }

theorem unregister_registered (h : ((s.unregister m).mod m').registered = true) :
    m' ≠ m ∧ (s.unregister m).mod m' = s.mod m' := by
  have hm : m' ≠ m := by
    rintro rfl
    unfold Holder.unregister at h
    rw [Holder.setMod_mod_self] at h
    cases h
  exact ⟨hm, Holder.setMod_mod_of_ne hm ..⟩

theorem unregister_pool (s : Holder) (m m' : ℕ) :
    ((s.unregister m).mod m').pool = (s.mod m').pool := by
  unfold Holder.unregister
  by_cases hm : m' = m
  · subst hm
    rw [Holder.setMod_mod_self]
  · rw [Holder.setMod_mod_of_ne hm]

theorem Sound.unregister (hs : Sound s) (hpool : ∀ p < maxPools, (s.mod m).pool p = []) :
    Sound (s.unregister m) := by
  have hlive : ∀ x, Live s x → Live (s.unregister m) x := fun x hx =>
    hx.congr le_rfl rfl fun hr => by
      have hm := (unregister_registered hr).2
      rw [hm] at hr ⊢
      exact ⟨hr, rfl⟩
  refine ⟨fun m' p x hx => ?_, fun m' p => ?_, fun x hx => hlive x (hs.held x hx), hs.heldNodup,
    fun m' hr => ?_, fun m' hr => ?_⟩
  · rw [unregister_pool] at hx
    obtain ⟨hx', hm, hp, hr, hnot⟩ := hs.pool m' p x hx
    have hne : m' ≠ m := by
      rintro rfl
      rw [hpool p (hp ▸ hx'.pslot)] at hx
      cases hx
    refine ⟨hlive x hx', hm, hp, ?_, hnot⟩
    unfold Holder.unregister
    rw [Holder.setMod_mod_of_ne hne]
    exact hr
  · rw [unregister_pool]
    exact hs.poolNodup m' p
  · have hm := (unregister_registered hr).2
    rw [hm] at hr ⊢
    exact hs.pending m' hr
  · by_cases hm : m' = m
    · subst hm
      have hpending : ((s.unregister m').mod m').pendingReturns = (s.mod m').pendingReturns := by
        unfold Holder.unregister
        rw [Holder.setMod_mod_self]
      rw [hpending]
      change s.heldOf m' ≤ _
      by_cases hr' : (s.mod m').registered = true
      · exact (hs.pending m' hr').ge
      · exact hs.late m' hr'
    · unfold Holder.unregister at hr ⊢
      rw [Holder.setMod_mod_of_ne hm] at hr ⊢
      exact hs.late m' hr

theorem Bounded.unregister (hbounded : Bounded s) : Bounded (s.unregister m) := by
  intro m'
  rw [Holder.pooled, unregister_pool]
  exact hbounded m'

theorem Holder.deregister_cases (s : Holder) (hdl : Option ℕ) :
    s.deregister hdl = (false, s) ∨ ∃ m, hdl = some m ∧ s.isValidHandle (some m) ∧
      s.deregister hdl = (true, (s.freePools m).unregister m) := by
  unfold Holder.deregister
  cases hdl with
  | none => exact .inl rfl
  | some m =>
    dsimp only
    split
    · exact .inl rfl
    next h =>
        have hvalid : s.isValidHandle (some m) = true := by
          by_contra hv
          exact h (.inr hv)
        exact .inr ⟨m, rfl, hvalid, rfl⟩

theorem addBuf_mod_of_ne (h : m' ≠ m) :
    (s.addBuf m p len reserve align).mod m' = s.mod m' := Holder.setMod_mod_of_ne h ..

theorem addBuf_mod (s : Holder) (m p len reserve align : ℕ) :
    (s.addBuf m p len reserve align).mod m =
      { s.mod m with pool := update (s.mod m).pool p (s.fresh :: (s.mod m).pool p) } :=
  Holder.setMod_mod_self ..

theorem addBuf_sameModules (s : Holder) (m p len reserve align : ℕ) :
    SameModules s (s.addBuf m p len reserve align) := by
  intro m'
  by_cases hm : m' = m
  · subst hm
    rw [addBuf_mod]
    exact ⟨rfl, rfl⟩
  · rw [addBuf_mod_of_ne hm]
    exact ⟨rfl, rfl⟩

theorem addBuf_buf_of_lt (h : x < s.fresh) :
    (s.addBuf m p len reserve align).buf x = s.buf x := update_of_ne h.ne ..

theorem addBuf_buf_fresh (s : Holder) (m p len reserve align : ℕ) :
    (s.addBuf m p len reserve align).buf s.fresh =
      ⟨devScratch m p, len, reserve, align, (s.mod m).generation, false⟩ := update_self ..

theorem addBuf_heldOf (hs : Sound s) (m p len reserve align m' : ℕ) :
    (s.addBuf m p len reserve align).heldOf m' = s.heldOf m' :=
  heldOf_congr (s := s) (t := s.addBuf m p len reserve align) rfl
    (fun b hb => addBuf_buf_of_lt (hs.held b hb).lt) m'

theorem mem_addBuf_pool
    (hx : x ∈ ((s.addBuf m p len reserve align).mod m').pool p') :
    x ∈ (s.mod m').pool p' ∨ x = s.fresh ∧ m' = m ∧ p' = p := by
  by_cases hm : m' = m
  · subst hm
    rw [addBuf_mod] at hx
    change x ∈ update (s.mod m').pool p _ p' at hx
    by_cases hp : p' = p
    · subst hp
      rw [update_self] at hx
      rcases List.mem_cons.mp hx with rfl | hx
      · exact .inr ⟨rfl, rfl, rfl⟩
      · exact .inl hx
    · rw [update_of_ne hp] at hx
      exact .inl hx
  · rw [addBuf_mod_of_ne hm] at hx
    exact .inl hx

theorem Sound.addBuf (hs : Sound s) (hm : m < maxModules) (hp : p < maxPools)
    (hreg : (s.mod m).registered) (reserve align : ℕ) :
    Sound (s.addBuf m p (lenFromPoolSlot p) reserve align) := by
  have hmods := addBuf_sameModules s m p (lenFromPoolSlot p) reserve align
  have hlive : ∀ x, Live s x → Live (s.addBuf m p (lenFromPoolSlot p) reserve align) x :=
    fun x hx => hmods.live hx (Nat.le_succ _) (addBuf_buf_of_lt hx.lt)
  have hnew := addBuf_buf_fresh s m p (lenFromPoolSlot p) reserve align
  have hslot : (s.addBuf m p (lenFromPoolSlot p) reserve align).slotOf s.fresh = m := by
    unfold Holder.slotOf
    rw [hnew]
    exact mslotOf_devScratch hm hp
  refine ⟨fun m' p' x hx => ?_, fun m' p' => ?_, fun x hx => hlive x (hs.held x hx), hs.heldNodup,
    fun m' hr => ?_, fun m' hr => ?_⟩
  · rcases mem_addBuf_pool hx with hin | ⟨rfl, rfl, rfl⟩
    · obtain ⟨hx', hxm, hxp, hr, hnot⟩ := hs.pool m' p' x hin
      unfold Holder.slotOf
      rw [addBuf_buf_of_lt hx'.lt, (hmods m').1]
      exact ⟨hlive x hx', hxm, hxp, hr, hnot⟩
    · refine ⟨⟨Nat.lt_succ_self _, ?_, ?_, ?_, ?_, ?_, ?_⟩, hslot, ?_, ?_, fun h => ?_⟩
      · rw [hnew]
      · rw [hnew]
        exact devScratch_ne_zero hm hp
      · rw [hslot]
        exact hm
      · rw [hnew]
        exact (pslotOf_devScratch hm hp).trans_lt hp
      · rw [hnew]
        exact congrArg lenFromPoolSlot (pslotOf_devScratch hm hp).symm
      · rw [hslot, hnew]
        exact fun _ => ((hmods m').2).symm
      · rw [hnew]
        exact pslotOf_devScratch hm hp
      · rw [(hmods m').1]
        exact hreg
      · exact absurd (hs.held s.fresh h).lt (lt_irrefl _)
  · by_cases hm' : m' = m
    · subst hm'
      rw [addBuf_mod]
      change (update (s.mod m').pool p _ p').Nodup
      by_cases hp' : p' = p
      · subst hp'
        rw [update_self]
        refine List.nodup_cons.mpr ⟨fun h => ?_, hs.poolNodup m' p'⟩
        exact absurd (hs.pool m' p' s.fresh h).1.lt (lt_irrefl _)
      · rw [update_of_ne hp']
        exact hs.poolNodup m' p'
    · rw [addBuf_mod_of_ne hm']
      exact hs.poolNodup m' p'
  · have hpending : ((s.addBuf m p (lenFromPoolSlot p) reserve align).mod m').pendingReturns =
        (s.mod m').pendingReturns := by
      by_cases hm' : m' = m
      · subst hm'
        rw [addBuf_mod]
      · rw [addBuf_mod_of_ne hm']
    rw [addBuf_heldOf hs, hpending]
    exact hs.pending m' ((hmods m').1 ▸ hr)
  · have hr' : ¬(s.mod m').registered = true := (hmods m').1 ▸ hr
    have hm' : m' ≠ m := fun h => hr' (h ▸ hreg)
    rw [addBuf_heldOf hs, addBuf_mod_of_ne hm']
    exact hs.late m' hr'

/-- Filling the pools of a module leaves the others and the held buffers alone. -/
structure Fills (m n : ℕ) (s t : Holder) : Prop where
  sound : Sound t
  mods : SameModules s t
  heldOf : ∀ m', t.heldOf m' = s.heldOf m'
  others : ∀ m' ≠ m, t.pooled m' = s.pooled m'
  pooled : t.pooled m ≤ s.pooled m + n

theorem Fills.refl (hs : Sound s) (m : ℕ) : Fills m 0 s s :=
  ⟨hs, fun _ => ⟨rfl, rfl⟩, fun _ => rfl, fun _ _ => rfl, le_rfl⟩

theorem Fills.trans {u : Holder} (h : Fills m n s t) (h' : Fills m k t u) :
    Fills m (n + k) s u where
  sound := h'.sound
  mods m' := ⟨(h'.mods m').1.trans (h.mods m').1, (h'.mods m').2.trans (h.mods m').2⟩
  heldOf m' := (h'.heldOf m').trans (h.heldOf m')
  others m' hm := (h'.others m' hm).trans (h.others m' hm)
  pooled := by
    have hn := h.pooled
    have hk := h'.pooled
    omega

theorem Fills.mono (h : Fills m n s t) (hle : n ≤ k) : Fills m k s t :=
  { h with pooled := h.pooled.trans (by omega) }

theorem addBuf_fills (hs : Sound s) (hm : m < maxModules) (hp : p < maxPools)
    (hreg : (s.mod m).registered) (reserve align : ℕ) :
    Fills m 1 s (s.addBuf m p (lenFromPoolSlot p) reserve align) where
  sound := hs.addBuf hm hp hreg reserve align
  mods := addBuf_sameModules s m p (lenFromPoolSlot p) reserve align
  heldOf m' := addBuf_heldOf hs ..
  others m' hm' := by rw [Holder.pooled, addBuf_mod_of_ne hm']; rfl
  pooled := by
    have hsize := poolSize_update (s.mod m).pool hp (s.fresh :: (s.mod m).pool p)
    rw [List.length_cons] at hsize
    rw [Holder.pooled, addBuf_mod]
    unfold Holder.pooled
    change poolSize (update _ _ _) ≤ _
    omega

theorem fillPool_fills (hs : Sound s) (hm : m < maxModules) (hp : p < maxPools)
    (hreg : (s.mod m).registered) (alloc : ℕ → Bool) (reserve align size : ℕ) :
    Fills m size s (s.fillPool alloc m p (lenFromPoolSlot p) reserve align size) := by
  induction size with
  | zero => exact .refl hs m
  | succ size ih =>
    unfold Holder.fillPool
    split
    · exact ih.trans (addBuf_fills ih.sound hm hp ((ih.mods m).1 ▸ hreg) reserve align)
    · exact ih.mono (Nat.le_succ size)

theorem allocMax_le (slot : ℕ) : allocMax slot ≤ 256 := by
  unfold allocMax
  split <;> omega

theorem fillPools_fills (hs : Sound s) (hm : m < maxModules) (hreg : (s.mod m).registered)
    (alloc : ℕ → ℕ → Bool) (reserve align : ℕ) {req : List AllocRequest}
    (hreq : Holder.isValidAllocReq req) (i : ℕ) :
    Fills m (256 * req.length) s (s.fillPools alloc m reserve align req i) := by
  induction req generalizing s i with
  | nil => exact .refl hs m
  | cons r req ih =>
    unfold Holder.isValidAllocReq at hreq
    rw [List.all_cons, Bool.and_eq_true, decide_eq_true_eq] at hreq
    obtain ⟨⟨hslot, hsize⟩, hrest⟩ := hreq
    have hfirst := fillPool_fills hs hm (show r.slot < maxPools by unfold maxPools at hslot ⊢; omega)
      hreg (alloc i) reserve align r.size
    have hnext := ih hfirst.sound ((hfirst.mods m).1 ▸ hreg) hrest (i + 1)
    have hmax := allocMax_le r.slot
    refine (hfirst.trans hnext).mono ?_
    rw [List.length_cons]
    omega

def Holder.claim (s : Holder) (m : ℕ) : Holder :=
  { s with generations := s.generations + 1 }.setMod m fun mod =>
    { mod with registered := true, generation := s.generations }

theorem claim_mod_of_ne (h : m' ≠ m) : (s.claim m).mod m' = s.mod m' :=
  Holder.setMod_mod_of_ne h ..

theorem claim_mod (s : Holder) (m : ℕ) :
    (s.claim m).mod m = { s.mod m with registered := true, generation := s.generations } :=
  Holder.setMod_mod_self ..

theorem Sound.claim (hs : Sound s) (hreg : ¬(s.mod m).registered)
    (hpending : (s.mod m).pendingReturns = 0) : Sound (s.claim m) := by
  have hzero : s.heldOf m = 0 := Nat.le_zero.mp (hpending ▸ hs.late m hreg)
  have hslot : ∀ x ∈ s.held, s.slotOf x ≠ m := fun x hx h => by
    have hpos : 0 < s.heldOf m :=
      List.countP_pos_iff.mpr ⟨x, hx, decide_eq_true h⟩
    omega
  have hlive : ∀ x, s.slotOf x ≠ m → Live s x → Live (s.claim m) x := fun x hne hx =>
    hx.congr le_rfl rfl fun hr => by
      rw [claim_mod_of_ne hne] at hr ⊢
      exact ⟨hr, rfl⟩
  have hpool : ∀ m' p, ((s.claim m).mod m').pool p = (s.mod m').pool p := fun m' p => by
    by_cases hm : m' = m
    · subst hm
      rw [claim_mod]
    · rw [claim_mod_of_ne hm]
  refine ⟨fun m' p x hx => ?_, fun m' p => ?_, fun x hx => hlive x (hslot x hx) (hs.held x hx),
    hs.heldNodup, fun m' hr => ?_, fun m' hr => ?_⟩
  · rw [hpool] at hx
    obtain ⟨hx', hm, hp, hr, hnot⟩ := hs.pool m' p x hx
    have hne : m' ≠ m := fun h => hreg (h ▸ hr)
    refine ⟨hlive x (hm ▸ hne) hx', hm, hp, ?_, hnot⟩
    rw [claim_mod_of_ne hne]
    exact hr
  · rw [hpool]
    exact hs.poolNodup m' p
  · by_cases hm : m' = m
    · subst hm
      rw [claim_mod]
      exact hpending.trans hzero.symm
    · rw [claim_mod_of_ne hm] at hr ⊢
      exact hs.pending m' hr
  · have hm : m' ≠ m := by
      rintro rfl
      rw [claim_mod] at hr
      exact hr rfl
    rw [claim_mod_of_ne hm] at hr ⊢
    exact hs.late m' hr

theorem Holder.register_cases (s : Holder) (alloc : ℕ → ℕ → Bool) (req : List AllocRequest)
    (reserve align : ℕ) :
    s.register alloc req reserve align = (none, s) ∨
      ∃ m, s.freeModSlot = some m ∧ req.length ≤ maxPools ∧ isValidAllocReq req ∧
        s.register alloc req reserve align =
          (some m, ((s.claim m).fillPools alloc m reserve align req 0).setMod m
            fun mod => { mod with reserve := reserve, align := align }) := by
  unfold Holder.register
  split
  · exact .inl rfl
  split
  · exact .inl rfl
  next hlen =>
      split
      · exact .inl rfl
      next hvalid =>
          cases hslot : s.freeModSlot with
          | none => exact .inl rfl
          | some m =>
            refine .inr ⟨m, rfl, ?_, not_not.mp hvalid, rfl⟩
            omega

theorem freeModSlot_spec (h : s.freeModSlot = some m) : m < maxModules ∧ ¬(s.mod m).registered := by
  refine ⟨List.mem_range.mp (List.mem_of_find?_eq_some h), fun hreg => ?_⟩
  have hfree := List.find?_some h
  rw [hreg] at hfree
  cases hfree

theorem Sound.setReserve (hs : Sound s) (m reserve align : ℕ) :
    Sound (s.setMod m fun mod => { mod with reserve := reserve, align := align }) ∧
      (Bounded s → Bounded (s.setMod m fun mod => { mod with reserve := reserve, align := align })) := by
  have hmods : SameModules s
      (s.setMod m fun mod => { mod with reserve := reserve, align := align }) :=
    setMod_sameModules rfl rfl
  have hmod : ∀ m', ((s.setMod m fun mod => { mod with reserve := reserve, align := align }).mod
      m').pool = (s.mod m').pool ∧
        ((s.setMod m fun mod => { mod with reserve := reserve, align := align }).mod
          m').pendingReturns = (s.mod m').pendingReturns := fun m' => by
    by_cases hm : m' = m
    · subst hm
      rw [Holder.setMod_mod_self]
      exact ⟨rfl, rfl⟩
    · rw [Holder.setMod_mod_of_ne hm]
      exact ⟨rfl, rfl⟩
  constructor
  · apply hs.of_places hmods rfl rfl
    · intro m' p x hx
      rw [(hmod m').1] at hx
      exact ⟨.inl hx, (hs.pool m' p x hx).2.2.2.2⟩
    · intro m' p
      rw [(hmod m').1]
      exact hs.poolNodup m' p
    · exact fun x hx => .inl hx
    · exact hs.heldNodup
    · intro m' hr
      rw [(hmod m').2]
      exact hs.pending m' hr
    · intro m' hr
      rw [(hmod m').2]
      exact hs.late m' hr
  · intro hbounded m'
    rw [Holder.pooled, (hmod m').1]
    exact hbounded m'

theorem orderly_sound {call : Call} (hs : Sound s ∧ Bounded s) (hc : orderly s call) :
    Sound (wbuff.step s call).1 ∧ Bounded (wbuff.step s call).1 := by
  obtain ⟨hsound, hbounded⟩ := hs
  cases call with
  | register alloc req reserve align =>
    change Sound (s.register alloc req reserve align).2 ∧
      Bounded (s.register alloc req reserve align).2
    rcases s.register_cases alloc req reserve align with h | ⟨m, hslot, hlen, hvalid, h⟩
    · rw [h]
      exact ⟨hsound, hbounded⟩
    rw [h]
    obtain ⟨hm, hreg⟩ := freeModSlot_spec hslot
    have hpending : (s.mod m).pendingReturns = 0 := hc m hslot
    have hclaim := hsound.claim hreg hpending
    have hfills := fillPools_fills hclaim hm (by rw [claim_mod]) alloc reserve align hvalid 0
    obtain ⟨hset, hsetBounded⟩ := hfills.sound.setReserve m reserve align
    refine ⟨hset, hsetBounded fun m' => ?_⟩
    rw [hfills.heldOf]
    change _ + s.heldOf m' ≤ 1024
    by_cases hm' : m' = m
    · -- Nothing is pooled or held of the slot before.
      subst hm'
      have hpooled := hfills.pooled
      have hempty : (s.claim m').pooled m' = 0 := by
        unfold Holder.pooled poolSize
        rw [claim_mod]
        simp only [hsound.pool_empty hreg, List.length_nil]
      have hlate := hsound.late m' hreg
      unfold maxPools at hlen
      omega
    · rw [hfills.others m' hm', Holder.pooled, claim_mod_of_ne hm']
      exact hbounded m'
  | deregister hdl =>
    change Sound (s.deregister hdl).2 ∧ Bounded (s.deregister hdl).2
    rcases s.deregister_cases hdl with h | ⟨m, rfl, hvalid, h⟩
    · rw [h]
      exact ⟨hsound, hbounded⟩
    · have hempty := hc m rfl hvalid
      rw [h, freePools_eq hempty]
      exact ⟨hsound.unregister hempty, hbounded.unregister⟩
  | buffGet hdl len =>
    change Sound (s.buffGet hdl len).2 ∧ Bounded (s.buffGet hdl len).2
    rcases s.buffGet_cases hdl len with h | ⟨m, b, pool, hpool, h⟩
    · rw [h]
      exact ⟨hsound, hbounded⟩
    · rw [h]
      exact ⟨hsound.take hbounded hpool, hbounded.take hsound hpool⟩
  | buffPut b =>
    change Sound (s.buffPut b).2 ∧ Bounded (s.buffPut b).2
    rcases s.buffPut_cases b with h | ⟨hscratch, hreg, h⟩
    · rw [h]
      exact ⟨hsound, hbounded⟩
    · rw [h]
      have hb : b ∈ s.held := hc.resolve_right hscratch
      exact ⟨hsound.putBack hbounded hb hreg, hbounded.putBack hsound hb⟩
  | callerFree b => exact ⟨hsound.callerFree hc.1 hc.2, hbounded.callerFree hc.1⟩

theorem sound_initial : Sound initial ∧ Bounded initial := by
  refine ⟨⟨fun m p b hb => ?_, fun m p => List.nodup_nil, fun b hb => ?_, List.nodup_nil,
    fun m hr => ?_, fun m hr => le_rfl⟩, fun m => Nat.zero_le 1024⟩
  · cases hb
  · cases hb
  · cases hr

theorem Sound.mem_places (hs : Sound s) (hb : b ∈ s.places) :
    Live s b ∧ ((∃ m p, b ∈ (s.mod m).pool p) ∨ b ∈ s.held) := by
  rcases List.mem_append.mp hb with hb | hb
  · obtain ⟨m, -, hb⟩ := List.mem_flatMap.mp hb
    obtain ⟨p, -, hb⟩ := List.mem_flatMap.mp hb
    exact ⟨(hs.pool m p b hb).1, .inl ⟨m, p, hb⟩⟩
  · exact ⟨hs.held b hb, .inr hb⟩

theorem Sound.places_nodup (hs : Sound s) : s.places.Nodup := by
  refine List.nodup_append'.mpr ⟨?_, hs.heldNodup, fun b hb hheld => ?_⟩
  · refine List.nodup_flatMap.mpr ⟨fun m _ => List.nodup_flatMap.mpr
      ⟨fun p _ => hs.poolNodup m p, ?_⟩, ?_⟩
    · refine List.nodup_range.imp fun {p q} hpq b hp hq => ?_
      exact hpq ((hs.pool m p b hp).2.2.1.symm.trans (hs.pool m q b hq).2.2.1)
    · refine List.nodup_range.imp fun {m n} hmn b hm hn => ?_
      obtain ⟨p, -, hm⟩ := List.mem_flatMap.mp hm
      obtain ⟨q, -, hn⟩ := List.mem_flatMap.mp hn
      exact hmn ((hs.pool m p b hm).2.1.symm.trans (hs.pool n q b hn).2.1)
  · obtain ⟨m, -, hb⟩ := List.mem_flatMap.mp hb
    obtain ⟨p, -, hb⟩ := List.mem_flatMap.mp hb
    exact (hs.pool m p b hb).2.2.2.2 hheld

theorem Sound.owned (hs : Sound s) : Owned s where
  live b hb := (hs.mem_places hb).1.freed
  once := hs.places_nodup
  sized hdl len b hb := by
    rcases s.buffGet_cases hdl len with h | ⟨m, b', pool, hpool, h⟩
    · rw [h] at hb
      cases hb
    · rw [h] at hb
      obtain rfl : b' = b := Option.some.inj hb
      obtain ⟨hlive, -, hp, -, -⟩ := hs.pool m (poolSlotFromLen len) b' (by
        rw [hpool]
        exact List.mem_cons_self)
      rw [hlive.len, hp]
  pending m _ hr := by
    rw [hs.pending m hr]
    apply List.countP_congr
    intro b hb
    unfold Holder.isOf
    rw [decide_eq_true_eq, decide_eq_true_eq]
    constructor
    · intro hslot
      refine ⟨hslot, ?_⟩
      have hgen := (hs.held b hb).generation
      rw [hslot] at hgen
      exact hgen hr
    · exact fun h => h.1

/-- In a run whose calls are orderly every buffer has one owner. -/
theorem owned_of_orderly (run : List Call) (hm : wbuff.Meets orderly initial run) :
    Owned (wbuff.run initial run).1 :=
  (wbuff.invariant_of_meets (C := orderly) (I := fun s => Sound s ∧ Bounded s)
    (fun _ _ hs hc => orderly_sound hs hc) sound_initial hm).1.owned

def twoBuffers : Call := .register (fun _ _ => true) [⟨0, 2⟩] 64 4

def orderlyRun : List Call :=
  [twoBuffers, .buffGet (some 0) 100, .buffGet (some 0) 200, .buffPut 1, .buffGet (some 0) 100,
    .deregister (some 0), .buffPut 0, .callerFree 0]

theorem orderlyRun_owned :
    Owned (wbuff.run initial orderlyRun).1 ∧ (wbuff.run initial orderlyRun).1.held = [1] := by
  have hm : wbuff.Meets orderly initial orderlyRun := by decide
  exact ⟨owned_of_orderly orderlyRun hm, by decide⟩

/-- The pools keep the buffers that their module has freed, and the next module in the slot is
given one of them. -/
theorem reregistered_freed :
    ¬Owned (wbuff.run initial [twoBuffers, .deregister (some 0)]).1 ∧
      ∃ b ∈ ((wbuff.run initial [twoBuffers, .deregister (some 0), twoBuffers,
        .buffGet (some 0) 100, .buffGet (some 0) 100]).1.buffGet (some 0) 100).1,
        ((wbuff.run initial [twoBuffers, .deregister (some 0)]).1.buf b).freed = true := by
  refine ⟨fun h => ?_, 1, by decide, by decide⟩
  have hlive := h.live 1 (by decide)
  revert hlive
  decide

end KernelModules.Wbuff
