import KernelModules.CrmRequests

/-!
# The ring of slots and its write index

The write index is not checked against the read index. As long as nothing is scheduled into a
full ring, the slots that wait lie between the two, and the slot that is written next is free.
Every open request then has a slot that waits for it.
-/

namespace KernelModules.Crm

open List

def distance (i j : ℕ) : ℕ := (i + 48 - j) % 48

def Ahead (q : ReqQueue) (i : ℕ) : Prop := distance i q.rdIdx < distance q.wrIdx q.rdIdx
deriving Decidable

def NoneWaiting (q : ReqQueue) : Prop := ∀ i < 48, (q.slot i).waiting = false

instance (q : ReqQueue) : Decidable (NoneWaiting q) :=
  inferInstanceAs (Decidable (∀ i < 48, (q.slot i).waiting = false))

theorem distance_from {a b c : ℕ} (ha : a < 48) (hb : b < 48) (hc : c < 48) :
    distance a b = (distance a c + 48 - distance b c) % 48 := by
  have h : ∀ {x : ℕ}, x < 48 → distance x c = if c ≤ x then x - c else x + 48 - c := by
    intro x hx
    unfold distance
    by_cases hcx : c ≤ x
    · rw [if_pos hcx]
      omega
    · rw [if_neg hcx]
      omega
  rw [h ha, h hb]
  unfold distance
  split <;> split <;> omega

theorem distance_lt (i j : ℕ) : distance i j < 48 := Nat.mod_lt _ (by decide)

variable {i j : ℕ} {slot : Slot} {q q' : ReqQueue} {cnt cnt' : ℤ} {link : Link} {ids : List ℤ}

theorem distance_pos (hi : i < 48) (hj : j < 48) (h : i ≠ j) : 0 < distance i j := by
  unfold distance
  omega

theorem distance_self : distance i i = 0 := by
  unfold distance
  omega

theorem distance_inc (hi : i < 48) (hj : j < 48) (h : i ≠ j) :
    distance i (incIdx j 1) + 1 = distance i j := by
  unfold distance
  rw [incIdx_eq]
  omega

theorem distance_inc_self (hj : j < 48) : distance j (incIdx j 1) = 47 := by
  unfold distance
  rw [incIdx_eq]
  omega

theorem distance_inc_left (hi : i < 48) (hj : j < 48) (h : incIdx i 1 ≠ j) :
    distance (incIdx i 1) j = distance i j + 1 := by
  rw [incIdx_eq] at h
  unfold distance
  rw [incIdx_eq]
  omega

variable {step : ℕ} {n : TriggerNotify} {idx : ℕ} {synced : Bool}

theorem distance_decIdx (hj : j < 48) (hs : step ≤ 2) : 45 ≤ distance (decIdx j (step + 1)) j := by
  unfold distance
  rw [decIdx_eq]
  split <;> omega

/-- The slots that wait lie between the two indices. Equal indices say nothing: the ring is empty
or full. The slots that were put off are not about to be freed. -/
structure Ring (q : ReqQueue) : Prop where
  rd : q.rdIdx < 48
  wr : q.wrIdx < 48
  unnamed : ∀ i < 48, (q.slot i).status = .noReq → (q.slot i).reqId = -1
  ahead : q.wrIdx ≠ q.rdIdx → ∀ i < 48, (q.slot i).waiting = true → Ahead q i
  pending : ∀ i < 48, (q.slot i).status = .reqPending → distance i q.rdIdx < 45

theorem not_waiting_of_applied (h : slot.status = .reqApplied) : slot.waiting ≠ true := by
  simp [Slot.waiting, h]

/-- `q'` has the slots of `q`, but some are empty, and the one at the read index may wait. -/
structure Relaxed (q q' : ReqQueue) : Prop where
  rdIdx : q'.rdIdx = q.rdIdx
  wrIdx : q'.wrIdx = q.wrIdx
  unnamed : ∀ i, (q'.slot i).status = .noReq →
    q'.slot i = q.slot i ∨ (q'.slot i).reqId = -1
  waiting : ∀ i, (q'.slot i).waiting = true → (q.slot i).waiting = true ∨ i = q.rdIdx
  pending : ∀ i, (q'.slot i).status = .reqPending →
    (q.slot i).status = .reqPending ∨ i = q.rdIdx

theorem Ring.relaxed (h : Ring q) (r : Relaxed q q') : Ring q' where
  rd := by
    rw [r.rdIdx]
    exact h.rd
  wr := by
    rw [r.wrIdx]
    exact h.wr
  unnamed i hi hs := by
    rcases r.unnamed i hs with he | hid
    · rw [he] at hs ⊢
      exact h.unnamed i hi hs
    · exact hid
  ahead hne i hi hw := by
    rw [r.rdIdx, r.wrIdx] at hne
    unfold Ahead
    rw [r.rdIdx, r.wrIdx]
    rcases r.waiting i hw with hw | rfl
    · exact h.ahead hne i hi hw
    · rw [distance_self]
      exact distance_pos h.wr h.rd hne
  pending i hi hs := by
    rw [r.rdIdx]
    rcases r.pending i hs with hs | rfl
    · exact h.pending i hi hs
    · rw [distance_self]
      decide

theorem relaxed_freed (q : ReqQueue) (k : ℕ) : Relaxed q (q.freed k) where
  rdIdx := freed_rdIdx ..
  wrIdx := freed_wrIdx ..
  unnamed i _ := by
    rcases freed_slot q k i with he | ⟨-, -, he⟩
    · exact .inl he
    · rw [he]
      exact .inr rfl
  waiting i hw := by
    rcases freed_slot q k i with he | ⟨-, -, he⟩
    · rw [he] at hw
      exact .inl hw
    · rw [he] at hw
      cases hw
  pending i hs := by
    rcases freed_slot q k i with he | ⟨-, -, he⟩
    · rw [he] at hs
      exact .inl hs
    · rw [he] at hs
      cases hs

theorem relaxed_setRd (q : ReqQueue) (hs : slot.status ≠ .noReq) :
    Relaxed q (q.setSlot q.rdIdx slot) where
  rdIdx := rfl
  wrIdx := rfl
  unnamed i hi := by
    by_cases he : i = q.rdIdx
    · rw [he, setSlot_slot_self] at hi
      exact absurd hi hs
    · exact .inl (setSlot_slot_of_ne he)
  waiting i hw := by
    by_cases he : i = q.rdIdx
    · exact .inr he
    · rw [setSlot_slot_of_ne he] at hw
      exact .inl hw
  pending i hp := by
    by_cases he : i = q.rdIdx
    · exact .inr he
    · rw [setSlot_slot_of_ne he] at hp
      exact .inl hp

theorem Ring.setLast (h : Ring q) (last : Option ℕ) :
    Ring { q with lastAppliedIdx := last } := ⟨h.rd, h.wr, h.unnamed, h.ahead, h.pending⟩

theorem Ring.applied {q : ReqQueue} (h : Ring q) : Ring q.applied :=
  (h.relaxed (relaxed_setRd q SlotStatus.noConfusion)).setLast _

theorem Ring.processed (h : Ring q) (p : Processed q cnt q' cnt') : Ring q' := by
  cases p with
  | kept => exact h
  | postponed => exact h.relaxed (relaxed_setRd q SlotStatus.noConfusion)
  | applied => exact h.applied.relaxed (relaxed_freed ..)

theorem Ring.done (h : Ring link.inQ) (d : Done link n q) : Ring q := by
  cases d with
  | none => exact h
  | freed => exact (h.setLast _).relaxed (relaxed_freed ..)

theorem Ring.advanced (h : Ring q) (ha : (q.slot q.rdIdx).status = .reqApplied) :
    Ring q.advanced where
  rd := incIdx_lt ..
  wr := h.wr
  unnamed := h.unnamed
  ahead hne i hi hw := by
    have hi' : i ≠ q.rdIdx := by
      rintro rfl
      exact not_waiting_of_applied ha hw
    have hdi := distance_inc hi h.rd hi'
    change distance i (incIdx q.rdIdx 1) < distance q.wrIdx (incIdx q.rdIdx 1)
    by_cases he : q.wrIdx = q.rdIdx
    · rw [he, distance_inc_self h.rd]
      have := distance_lt i q.rdIdx
      omega
    · have hdw := distance_inc h.wr h.rd he
      have hlt : distance i q.rdIdx < distance q.wrIdx q.rdIdx := h.ahead he i hi hw
      omega
  pending i hi hs := by
    have hi' : i ≠ q.rdIdx := by
      intro he
      rw [he] at hs
      exact absurd (hs.symm.trans ha) SlotStatus.noConfusion
    have hdi := distance_inc hi h.rd hi'
    have hlt := h.pending i hi hs
    change distance i (incIdx q.rdIdx 1) < 45
    omega

theorem Ring.idled (h : Ring q) (ha : (q.slot q.rdIdx).status = .reqApplied) :
    Ring q.idled where
  rd := incIdx_lt ..
  wr := incIdx_lt ..
  unnamed i hi hs := by
    change ((q.setSlot (incIdx q.rdIdx 1) _).slot i).status = _ at hs
    change ((q.setSlot (incIdx q.rdIdx 1) _).slot i).reqId = _
    rw [setSlot_slot] at hs ⊢
    by_cases he : i = incIdx q.rdIdx 1
    · rw [if_pos he]
    · rw [if_neg he] at hs ⊢
      exact h.unnamed i hi hs
  ahead hne i hi hw := by
    change incIdx q.wrIdx 1 ≠ incIdx q.rdIdx 1 at hne
    change ((q.setSlot (incIdx q.rdIdx 1) _).slot i).waiting = true at hw
    change distance i (incIdx q.rdIdx 1) < distance (incIdx q.wrIdx 1) (incIdx q.rdIdx 1)
    have hne' : q.wrIdx ≠ q.rdIdx := fun he => hne (congrArg (incIdx · 1) he)
    by_cases he : i = incIdx q.rdIdx 1
    · rw [he, distance_self]
      exact distance_pos (incIdx_lt ..) (incIdx_lt ..) hne
    · rw [setSlot_slot_of_ne he] at hw
      have hi' : i ≠ q.rdIdx := by
        rintro rfl
        exact not_waiting_of_applied ha hw
      have hdi := distance_inc hi h.rd hi'
      have hdw := distance_inc h.wr h.rd hne'
      have hlt : distance i q.rdIdx < distance q.wrIdx q.rdIdx := h.ahead hne' i hi hw
      rw [distance_inc_left h.wr (incIdx_lt ..) hne]
      omega
  pending i hi hs := by
    change ((q.setSlot (incIdx q.rdIdx 1) _).slot i).status = _ at hs
    by_cases he : i = incIdx q.rdIdx 1
    · rw [he, setSlot_slot_self] at hs
      cases hs
    · rw [setSlot_slot_of_ne he] at hs
      exact (h.advanced ha).pending i hi hs

theorem Ring.written (h : Ring q) (hs : slot.status = .reqAdded)
    (hfull : q.wrIdx = q.rdIdx → NoneWaiting q) : Ring (q.written slot) where
  rd := h.rd
  wr := incIdx_lt ..
  unnamed i hi hn := by
    change ((q.setSlot q.wrIdx slot).slot i).status = _ at hn
    change ((q.setSlot q.wrIdx slot).slot i).reqId = _
    by_cases he : i = q.wrIdx
    · rw [he, setSlot_slot_self, hs] at hn
      cases hn
    · rw [setSlot_slot_of_ne he] at hn ⊢
      exact h.unnamed i hi hn
  ahead hne i hi hw := by
    change incIdx q.wrIdx 1 ≠ q.rdIdx at hne
    change ((q.setSlot q.wrIdx slot).slot i).waiting = true at hw
    change distance i q.rdIdx < distance (incIdx q.wrIdx 1) q.rdIdx
    rw [distance_inc_left h.wr h.rd hne]
    by_cases he : i = q.wrIdx
    · rw [he]
      omega
    · rw [setSlot_slot_of_ne he] at hw
      by_cases hr : q.wrIdx = q.rdIdx
      · rw [hfull hr i hi] at hw
        cases hw
      · have hlt : distance i q.rdIdx < distance q.wrIdx q.rdIdx := h.ahead hr i hi hw
        omega
  pending i hi hp := by
    change ((q.setSlot q.wrIdx slot).slot i).status = _ at hp
    by_cases he : i = q.wrIdx
    · rw [he, setSlot_slot_self, hs] at hp
      cases hp
    · rw [setSlot_slot_of_ne he] at hp
      exact h.pending i hi hp

theorem Ring.wrIdx_not_waiting (h : Ring q)
    (hfull : q.wrIdx = q.rdIdx → NoneWaiting q) : (q.slot q.wrIdx).waiting = false := by
  by_cases he : q.wrIdx = q.rdIdx
  · exact hfull he q.wrIdx h.wr
  · refine Bool.eq_false_iff.mpr fun hw => ?_
    exact Nat.lt_irrefl _ (h.ahead he q.wrIdx h.wr hw)

/-- A slot the queue can be taken back to: not one ahead of the read index, and such that the
slots that were put off stay clear of those that are freed. -/
def Behind (q : ReqQueue) (idx : ℕ) : Prop :=
  (idx = q.rdIdx ∨ (¬ Ahead q idx ∧ (q.wrIdx = q.rdIdx → NoneWaiting q))) ∧
    ∀ i < 48, (q.slot i).status = .reqPending → distance i idx < 45

instance (q : ReqQueue) (idx : ℕ) : Decidable (Behind q idx) :=
  inferInstanceAs (Decidable ((_ ∨ _ ∧ _) ∧ ∀ i < 48, _ → _))

theorem Ring.rewound (h : Ring q) (hidx : idx < 48) (hb : Behind q idx)
    (synced : Bool) : Ring (q.rewound idx synced) where
  rd := by
    rw [(rewound_rdIdx ..).1]
    exact hidx
  wr := by
    rw [(rewound_rdIdx ..).2]
    exact h.wr
  unnamed i hi hs := by
    obtain ⟨hst, hid, -⟩ := rewound_slot q idx synced i
    rw [hst] at hs
    by_cases he : i = idx
    · rw [if_pos he] at hs
      cases hs
    · rw [if_neg he] at hs
      rw [hid]
      exact h.unnamed i hi hs
  ahead hne i hi hwait := by
    rw [(rewound_rdIdx ..).1, (rewound_rdIdx ..).2] at hne
    unfold Ahead
    rw [(rewound_rdIdx ..).1, (rewound_rdIdx ..).2]
    by_cases he : i = idx
    · rw [he, distance_self]
      exact distance_pos h.wr hidx hne
    have hw : (q.slot i).waiting = true := by
      rw [waiting_iff] at hwait ⊢
      rwa [(rewound_slot q idx synced i).1, if_neg he] at hwait
    rcases hb.1 with rfl | ⟨hna, hfull⟩
    · exact h.ahead hne i hi hw
    by_cases hr : q.wrIdx = q.rdIdx
    · rw [hfull hr i hi] at hw
      cases hw
    -- Going round from the read index: the slot, the write index, the slot taken back to.
    · have hlt : distance i q.rdIdx < distance q.wrIdx q.rdIdx := h.ahead hr i hi hw
      have hle : distance q.wrIdx q.rdIdx ≤ distance idx q.rdIdx := Nat.le_of_not_lt hna
      have hpos := distance_pos h.wr hidx hne
      have hl := distance_lt idx q.rdIdx
      rw [distance_from h.wr hidx h.rd] at hpos ⊢
      rw [distance_from hi hidx h.rd]
      omega
  pending i hi hs := by
    rw [(rewound_rdIdx ..).1]
    rw [(rewound_slot q idx synced i).1] at hs
    by_cases he : i = idx
    · rw [if_pos he] at hs
      cases hs
    · rw [if_neg he] at hs
      exact hb.2 i hi hs

theorem Ring.cancelled {q : ReqQueue} (h : Ring q) {idx : ℕ}
    (hs : (q.slot idx).status = .reqAdded) : Ring (q.cancelled idx) := by
  have hslot : ∀ i, i ≠ idx → (q.cancelled idx).slot i = q.slot i := by
    intro i hi
    exact (setSlot_slot_of_ne hi).trans (setSlot_slot_of_ne hi)
  have hidx : ((q.cancelled idx).slot idx).status = .reqAdded :=
    congrArg Slot.status (setSlot_slot_self ..)
  refine h.relaxed ⟨rfl, rfl, fun i hi => ?_, fun i hi => ?_, fun i hi => ?_⟩
  · by_cases he : i = idx
    · rw [he, hidx] at hi
      cases hi
    · exact .inl (hslot i he)
  · by_cases he : i = idx
    · rw [he]
      exact .inl (waiting_iff.mpr (.inl hs))
    · rw [hslot i he] at hi
      exact .inl hi
  · by_cases he : i = idx
    · rw [he, hidx] at hi
      cases hi
    · rw [hslot i he] at hi
      exact .inl hi

theorem Ring.flushed (q : ReqQueue) : Ring q.flushed where
  rd := Nat.zero_lt_succ _
  wr := Nat.zero_lt_succ _
  unnamed _ _ _ := rfl
  ahead h := absurd rfl h
  pending _ _ h := by cases h

theorem Ring.applied_freed (h : Ring q) (hs : step ≤ 2) :
    openIds (q.applied.freed (decIdx q.rdIdx (step + 1))) ~ openIds q.applied := by
  have hk : decIdx q.rdIdx (step + 1) < 48 := decIdx_lt h.rd
  refine openIds_freed hk fun hp => ?_
  have hlt := h.applied.pending _ hk hp
  have hge := distance_decIdx h.rd hs
  exact absurd (Nat.lt_of_lt_of_le hlt hge) (Nat.lt_irrefl _)

theorem Processed.covers {b : ReqQueue}
    (p : Processed q cnt q' cnt') (hr : Ring q) (hids : ids <+~ openIds q)
    (hb : (b.slot q.rdIdx).openId = (q.slot q.rdIdx).openId) :
    ids.diff (appliedId b q').toList <+~ openIds q' := by
  cases p with
  | kept =>
    have hnone : appliedId b q = none := by
      unfold appliedId
      by_cases ha : (q.slot q.rdIdx).status = .reqApplied
      · rw [if_pos ha, hb]
        exact openId_eq_none_of_applied ha
      · exact if_neg ha
    rw [hnone]
    exact hids
  | postponed =>
    have hnone : appliedId b q.postponed = none := by
      refine if_neg fun ha => ?_
      have hs : (q.postponed.slot q.rdIdx).status = .reqPending :=
        congrArg Slot.status (setSlot_slot_self ..)
      exact absurd (hs.symm.trans ha) SlotStatus.noConfusion
    rw [hnone]
    exact hids.trans (openIds_subperm_postponed hr.rd)
  | applied _ step hs =>
    have hid : appliedId b (q.applied.freed (decIdx q.rdIdx (step + 1))) =
        (q.slot q.rdIdx).openId := by
      unfold appliedId
      rw [freed_rdIdx]
      exact (if_pos (applied_freed_status q hs)).trans hb
    rw [hid]
    refine Subperm.trans ?_ (hr.applied_freed hs).symm.subperm
    have happ := hids.trans (openIds_applied hr.rd).subperm
    cases ho : (q.slot q.rdIdx).openId with
    | none =>
      rw [ho] at happ
      exact happ
    | some id =>
      rw [ho] at happ
      simp only [Option.toList_some, List.diff_cons, List.diff_nil]
      have he := happ.erase id
      simpa using he

theorem Done.openIds_perm
    (hr : link.inQ.rdIdx < 48) (d : Done link n q)
    (hc : n.trigger = sof → ∀ i ∈ findSlotForReq link.inQ n.reqId,
      (link.inQ.slot i).status ≠ .reqPending) :
    openIds q ~ openIds link.inQ ∧ ∀ i, (q.slot i).openId = (link.inQ.slot i).openId := by
  cases d with
  | none => exact ⟨Perm.refl _, fun _ => rfl⟩
  | @freed idx hs hf last =>
    have hidx := (findSlotForReq_spec hr hf).1
    have hp := hc hs idx hf
    refine ⟨openIds_freed hidx hp, fun i => ?_⟩
    rcases freed_slot { link.inQ with lastAppliedIdx := last } idx i with he | ⟨rfl, hna, he⟩
    · rw [he]
    · rw [he]
      have hna : (link.inQ.slot i).status ≠ .reqAdded := hna
      have hw : (link.inQ.slot i).waiting ≠ true := by
        rw [Ne, waiting_iff]
        exact fun h => h.elim hna hp
      exact (if_neg fun h => hw h.1).symm

theorem Triggered.covers {b : ReqQueue} {lower : Prop}
    (t : Triggered lower q cnt q' cnt') (hr : Ring q) (hids : ids <+~ openIds q)
    (hb : ∀ i, (b.slot i).openId = (q.slot i).openId) :
    Ring q' ∧ ids.diff (appliedId b q').toList <+~ openIds q' := by
  cases t with
  | ignored =>
    have hkept : Processed q cnt q cnt := .kept
    exact ⟨hr, hkept.covers hr hids (hb _)⟩
  | stays _ p => exact ⟨hr.processed p, p.covers hr hids (hb _)⟩
  | halts h =>
    have hkept : Processed q.advanced cnt q.advanced cnt := .kept
    exact ⟨hr.advanced h, hkept.covers (hr.advanced h) hids (hb _)⟩
  | moves h _ p =>
    exact ⟨(hr.advanced h).processed p, p.covers (hr.advanced h) hids (hb _)⟩
  | idles h hn _ p =>
    refine ⟨(hr.idled h).processed p, p.covers (hr.idled h)
      (hids.trans (openIds_idled hn).symm.subperm) ?_⟩
    refine (hb _).trans ?_
    change (q.slot (incIdx q.rdIdx 1)).openId =
      ((q.setSlot (incIdx q.rdIdx 1) _).slot (incIdx q.rdIdx 1)).openId
    rw [setSlot_slot_self, openId_eq_none_of_noReq hn]
    rfl

/-- A request that is taken back is open again, unless it is applied at once. -/
theorem Processed.covers_rewound {b : ReqQueue} (p : Processed (b.rewound idx synced) cnt q' cnt')
    (hb : Ring b)
    (hidx : idx < 48) (hbehind : Behind b idx)
    (hs : (b.slot idx).status = .reqPending ∨ (b.slot idx).status = .reqApplied)
    (hids : ids <+~ openIds b) :
    (reopenedId b q').toList ++ ids.diff (appliedId b q').toList <+~ openIds q' := by
  have hr := hb.rewound hidx hbehind synced
  have hrd := (rewound_rdIdx b idx synced).1
  have hrd' : q'.rdIdx = idx := p.rdIdx_eq.1.trans hrd
  rcases hs with hs | hs
  · have hreopened : reopenedId b q' = none := by
      unfold reopenedId
      rw [hrd', hs]
      rfl
    have hsame : (b.slot idx).openId = ((b.rewound idx synced).slot idx).openId := by
      rw [rewound_openId]
      change _ = ((b.setSlot idx _).slot idx).openId
      rw [setSlot_slot_self]
      simp [Slot.openId, Slot.waiting, hs]
    have hperm : openIds (b.rewound idx synced) ~ openIds b := by
      rw [openIds_rewound]
      refine openIds_setSlot_same hidx ?_
      simp [Slot.openId, Slot.waiting, hs]
    rw [hreopened]
    refine p.covers hr (hids.trans hperm.symm.subperm) ?_
    rw [hrd]
    exact hsame
  · have happlied : appliedId b q' = none := by
      unfold appliedId
      rw [hrd', openId_eq_none_of_applied hs]
      exact ite_self _
    have hreopened : reopenedId b q' = (q'.slot idx).openId := by
      unfold reopenedId
      rw [hrd']
      exact if_pos hs
    have hopens : openIds (b.rewound idx synced) ~
        ((b.rewound idx synced).slot idx).openId.toList ++ openIds b := by
      rw [openIds_rewound, rewound_openId]
      change _ ~ ((b.setSlot idx _).slot idx).openId.toList ++ _
      rw [setSlot_slot_self]
      exact openIds_setSlot_opens _ hidx (openId_eq_none_of_applied hs)
    have hcov : ((b.rewound idx synced).slot idx).openId.toList ++ ids <+~
        openIds (b.rewound idx synced) :=
      ((List.subperm_append_left _).mpr hids).trans hopens.symm.subperm
    have hwait : ((b.rewound idx synced).slot idx).waiting = true := by
      rw [waiting_iff, (rewound_slot b idx synced idx).1, if_pos rfl]
      exact .inl rfl
    rw [happlied, hreopened]
    generalize b.rewound idx synced = q at *
    subst hrd
    cases p with
    | kept => exact hcov
    | postponed =>
      have hopen : (q.postponed.slot q.rdIdx).openId = (q.slot q.rdIdx).openId := by
        change ((q.setSlot q.rdIdx _).slot q.rdIdx).openId = _
        rw [setSlot_slot_self]
        unfold Slot.openId
        rw [hwait]
        rfl
      rw [hopen]
      exact hcov.trans (openIds_postponed hr.rd hwait).symm.subperm
    | applied _ step hstep =>
      rw [openId_eq_none_of_applied (applied_freed_status q hstep)]
      have hrest := hcov.trans (openIds_applied hr.rd).subperm
      rw [List.subperm_append_left] at hrest
      exact hrest.trans (hr.applied_freed hstep).symm.subperm

/-- The steps that keep the slots that wait between the two indices. -/
def KeepsRing (link : Link) : Input → Prop
  | .schedule r _ _ =>
    link.lastFlushId < r.reqId → link.inQ.wrIdx = link.inQ.rdIdx → NoneWaiting link.inQ
  | .trigger n _ =>
    n.trigger = sof → ∀ i ∈ findSlotForReq link.inQ n.reqId, (link.inQ.slot i).status ≠ .reqPending
  | .error e _ => ∀ idx ∈ recoverIdx link e, Behind link.inQ idx
  | .flush f => f.type = .cancelReq → f.reqId ≠ -1
  | _ => True

instance (link : Link) (input : Input) : Decidable (KeepsRing link input) := by
  cases input <;> unfold KeepsRing <;> infer_instance

def WritesFreeSlot (link : Link) : Input → Prop
  | .schedule r _ _ =>
    link.lastFlushId < r.reqId → (link.inQ.slot link.inQ.wrIdx).waiting = false
  | _ => True

instance (link : Link) (input : Input) : Decidable (WritesFreeSlot link input) := by
  cases input <;> unfold WritesFreeSlot <;> infer_instance

def Covered (p : Link × List ℤ) : Prop := Ring p.1.inQ ∧ p.2 <+~ openIds p.1.inQ

theorem covered_schedule {r : SchedRequest} {f : ℤ}
    (h : Covered (link, ids)) (hc : KeepsRing link (.schedule r f synced)) :
    Covered ((machine.monitored outstanding).step (link, ids) (.schedule r f synced)).1 := by
  by_cases ha : r.reqId ≤ link.lastFlushId
  · have hlink := scheduleRequest_refused f synced ha
    have hids : outstanding ids link (.schedule r f synced) (scheduleRequest link r f synced) =
        ids := if_pos ha
    change Covered ((scheduleRequest link r f synced).1,
      outstanding ids link (.schedule r f synced) (scheduleRequest link r f synced))
    rw [hids, hlink]
    exact h
  · have hids : outstanding ids link (.schedule r f synced) (scheduleRequest link r f synced) =
        r.reqId :: ids := if_neg ha
    change Covered ((scheduleRequest link r f synced).1,
      outstanding ids link (.schedule r f synced) (scheduleRequest link r f synced))
    rw [hids]
    unfold Covered
    rw [(scheduleRequest_accepted f synced ha).1]
    have hfull := hc (not_le.mp ha)
    have hfree := h.1.wrIdx_not_waiting hfull
    have hnone : (link.inQ.slot link.inQ.wrIdx).openId = none := by
      simp [Slot.openId, hfree]
    have hopens := openIds_setSlot_opens
      (schedSlot { r with bubbleEnable := bubbleEnable f r }) h.1.wr hnone
    exact ⟨h.1.written rfl hfull, ((List.subperm_cons _).mpr h.2).trans hopens.symm.subperm⟩

theorem Ring.added_of_found {reqId : ℤ} (h : Ring q) (hid : reqId ≠ -1)
    (hi : findSlotForReq q reqId = some idx)
    (hs : ¬ ((q.slot idx).status = .reqPending ∨ (q.slot idx).status = .reqApplied)) :
    (q.slot idx).status = .reqAdded := by
  have hspec := findSlotForReq_spec h.rd hi
  cases hst : (q.slot idx).status with
  | noReq => exact absurd (hspec.2.symm.trans (h.unnamed idx hspec.1 hst)) hid
  | reqAdded => rfl
  | reqPending => exact absurd (.inl hst) hs
  | reqApplied => exact absurd (.inr hst) hs

theorem covered_flush {f : FlushInfo} (h : Covered (link, ids))
    (hc : KeepsRing link (.flush f)) :
    Covered ((machine.monitored outstanding).step (link, ids) (.flush f)).1 := by
  change Covered ((processFlushReq link f).1, outstanding ids link (.flush f) _)
  obtain ⟨hf, -⟩ := processFlushReq_flushed link f
  unfold Covered outstanding
  dsimp only
  generalize (processFlushReq link f).1.inQ = q at hf ⊢
  cases hf with
  | all ht =>
    rw [ht]
    exact ⟨Ring.flushed _, List.nil_subperm⟩
  | kept ht hk =>
    have hnone : cancelledId link.inQ f.reqId = none := by
      unfold cancelledId
      cases hi : findSlotForReq link.inQ f.reqId with
      | none => rfl
      | some idx =>
        refine if_neg fun hs => ?_
        rcases hk idx hi with h | h
        · exact absurd (hs.symm.trans h) SlotStatus.noConfusion
        · exact absurd (hs.symm.trans h) SlotStatus.noConfusion
    rw [ht, hnone]
    exact h
  | @cancelled idx ht hi hs =>
    have hspec := findSlotForReq_spec h.1.rd hi
    have hadded := h.1.added_of_found (hc ht) hi hs
    have hid : cancelledId link.inQ f.reqId = (link.inQ.slot idx).openId := by
      unfold cancelledId
      rw [hi]
      exact if_pos hadded
    have hcloses : openIds link.inQ ~
        (link.inQ.slot idx).openId.toList ++ openIds (link.inQ.cancelled idx) := by
      have h₁ : openIds (link.inQ.setSlot idx { link.inQ.slot idx with additionalTimeout := 0 }) ~
          openIds link.inQ := openIds_setSlot_same hspec.1 rfl
      have h₂ := openIds_setSlot_closes
        (link.inQ.setSlot idx { link.inQ.slot idx with additionalTimeout := 0 }) hspec.1
        (openId_eq_none_of_skip (rfl : ({ link.inQ.slot idx with
          additionalTimeout := 0
          reqId := -1
          skipIdx := true
          status := .reqAdded } : Slot).skipIdx = true))
      rw [setSlot_slot_self] at h₂
      have h₃ := h₁.symm.trans h₂
      unfold ReqQueue.cancelled inQSkipIdx
      rw [setSlot_slot_self]
      exact h₃
    rw [ht, hid]
    refine ⟨h.1.cancelled hadded, ?_⟩
    have hids := h.2.trans hcloses.subperm
    cases ho : (link.inQ.slot idx).openId with
    | none =>
      rw [ho] at hids
      exact hids
    | some id =>
      rw [ho] at hids
      simp only [Option.toList_some, List.diff_cons, List.diff_nil]
      simpa using hids.erase id

theorem covered_held {link' : Link} (h : Covered (link, ids))
    (hq : link'.inQ = link.inQ) : Covered (link', ids) := by
  unfold Covered at h ⊢
  dsimp only at h ⊢
  rw [hq]
  exact h

theorem covered_step {p : Link × List ℤ} {input : Input} (h : Covered p)
    (hc : KeepsRing p.1 input) : Covered ((machine.monitored outstanding).step p input).1 := by
  obtain ⟨link, ids⟩ := p
  cases input with
  | schedule r f synced => exact covered_schedule h hc
  | addReq r => exact covered_held h (processAddReq_held link r).inQ
  | trigger n env =>
    obtain ⟨hd, -⟩ := resetDoneSlot_done link n
    obtain ⟨hperm, hopen⟩ := hd.openIds_perm h.1.rd hc
    exact (processTrigger_triggered link n env).covers (h.1.done hd)
      (h.2.trans hperm.symm.subperm) fun i => (hopen i).symm
  | error e env =>
    rcases processError_processed link e env with ⟨-, heq⟩ | ⟨idx, hsome, hp⟩
    · change Covered ((processError link e env).1,
        outstanding ids link (.error e env) (processError link e env))
      rw [heq, outstanding_error_self]
      exact h
    · obtain ⟨hidx, hs⟩ := recoverIdx_spec h.1.rd hsome
      have hbehind := hc idx hsome
      exact ⟨(h.1.rewound hidx hbehind _).processed hp,
        hp.covers_rewound h.1 hidx hbehind hs h.2⟩
  | flush f => exact covered_flush h hc
  | stop => exact ⟨Ring.flushed _, List.nil_subperm⟩
  | syncConfig d => exact covered_held h (syncConfig_inQ link d).1
  | linkControl a => exact covered_held h rfl
  | peer w => exact covered_held h (peerWrite_held w link).inQ

theorem ring_setup (infos : List DevInfo) : Ring (setupLinkInfo infos).inQ := by
  rw [(setupLinkInfo_inQ infos).1]
  exact ⟨by decide, by decide, fun _ _ _ => rfl, fun h => absurd rfl h, fun _ _ h => by cases h⟩

end KernelModules.Crm
