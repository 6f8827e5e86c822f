import KernelModules.CrmQueue
import Mathlib.Data.List.Perm.Subperm

/-!
# The requests that are open on a link

A request is open from the moment it is scheduled until it is applied, cancelled or flushed. A
bubble that takes a request back opens it again. The requests open by what has happened so far are
compared with the slots of the queue that wait for a request.
-/

namespace KernelModules.Crm

open List

def Slot.openId (slot : Slot) : Option ℤ :=
  if slot.waiting = true ∧ slot.skipIdx = false then some slot.reqId else none

def openIds (q : ReqQueue) : List ℤ := (List.range 48).filterMap fun i => (q.slot i).openId

variable {slot : Slot} {k : ℕ} {q : ReqQueue}

theorem waiting_iff :
    slot.waiting = true ↔ slot.status = .reqAdded ∨ slot.status = .reqPending := by
  simp only [Slot.waiting, decide_eq_true_eq]

theorem openId_eq_none_of_noReq (h : slot.status = .noReq) : slot.openId = none := by
  have hw : slot.waiting = false := by simp [Slot.waiting, h]
  simp [Slot.openId, hw]

theorem openId_eq_none_of_applied (h : slot.status = .reqApplied) : slot.openId = none := by
  have hw : slot.waiting = false := by simp [Slot.waiting, h]
  simp [Slot.openId, hw]

theorem openId_eq_none_of_skip (h : slot.skipIdx = true) : slot.openId = none := by
  simp [Slot.openId, h]

theorem openId_eq_some (hw : slot.waiting = true) (hs : slot.skipIdx = false) :
    slot.openId = some slot.reqId := by
  simp [Slot.openId, hw, hs]

theorem eq_of_openId_eq_some {id : ℤ} (h : slot.openId = some id) :
    slot.waiting = true ∧ slot.skipIdx = false ∧ slot.reqId = id := by
  unfold Slot.openId at h
  by_cases hw : slot.waiting = true ∧ slot.skipIdx = false
  · rw [if_pos hw] at h
    exact ⟨hw.1, hw.2, Option.some.inj h⟩
  · rw [if_neg hw] at h
    cases h

theorem filterMap_cons_perm {α β : Type*} (f : α → Option β) (a : α) (l : List α) :
    (a :: l).filterMap f = (f a).toList ++ l.filterMap f := by
  cases h : f a with
  | none => simp [h]
  | some b => simp [h]

theorem openIds_setSlot (q : ReqQueue) (hk : k < 48) :
    ∃ rest, openIds q ~ (q.slot k).openId.toList ++ rest ∧
      ∀ slot, openIds (q.setSlot k slot) ~ slot.openId.toList ++ rest := by
  have hsplit : List.range 48 ~ k :: (List.range 48).erase k :=
    List.perm_cons_erase (List.mem_range.mpr hk)
  refine ⟨((List.range 48).erase k).filterMap fun i => (q.slot i).openId, ?_, fun slot => ?_⟩
  · have h := hsplit.filterMap fun i => (q.slot i).openId
    rwa [filterMap_cons_perm] at h
  · have h := hsplit.filterMap fun i => ((q.setSlot k slot).slot i).openId
    rw [filterMap_cons_perm, setSlot_slot_self] at h
    have hrest : ((List.range 48).erase k).filterMap
        (fun i => ((q.setSlot k slot).slot i).openId) =
        ((List.range 48).erase k).filterMap fun i => (q.slot i).openId := by
      apply List.filterMap_congr
      intro i hi
      rw [setSlot_slot_of_ne (List.nodup_range.mem_erase_iff.mp hi).1]
    rwa [hrest] at h

theorem openIds_setSlot_same (hk : k < 48)
    (h : slot.openId = (q.slot k).openId) : openIds (q.setSlot k slot) ~ openIds q := by
  obtain ⟨rest, hq, hs⟩ := openIds_setSlot q hk
  have hs := hs slot
  rw [h] at hs
  exact hs.trans hq.symm

theorem openIds_setSlot_opens (slot : Slot) (hk : k < 48)
    (h : (q.slot k).openId = none) :
    openIds (q.setSlot k slot) ~ slot.openId.toList ++ openIds q := by
  obtain ⟨rest, hq, hs⟩ := openIds_setSlot q hk
  rw [h] at hq
  exact (hs slot).trans (hq.symm.append_left _)

theorem openIds_setSlot_closes (q : ReqQueue) (hk : k < 48)
    (h : slot.openId = none) :
    openIds q ~ (q.slot k).openId.toList ++ openIds (q.setSlot k slot) := by
  obtain ⟨rest, hq, hs⟩ := openIds_setSlot q hk
  have hs := hs slot
  rw [h] at hs
  exact hq.trans (hs.symm.append_left _)

@[simp] theorem openId_empty : ({} : Slot).openId = none := rfl

theorem openIds_freed_subperm (q : ReqQueue) (hk : k < 48) : openIds (q.freed k) <+~ openIds q := by
  unfold ReqQueue.freed
  by_cases h : (q.slot k).status = .reqAdded ∨ q.lastAppliedIdx = some k
  · rw [if_pos h]
  · rw [if_neg h]
    have hc := openIds_setSlot_closes q hk openId_empty
    exact (List.sublist_append_right _ _).subperm.trans hc.symm.subperm

theorem openIds_freed (hk : k < 48)
    (h : (q.slot k).status ≠ .reqPending) : openIds (q.freed k) ~ openIds q := by
  unfold ReqQueue.freed
  by_cases ha : (q.slot k).status = .reqAdded ∨ q.lastAppliedIdx = some k
  · rw [if_pos ha]
  · rw [if_neg ha]
    have hnone : (q.slot k).openId = none := by
      cases hs : (q.slot k).status with
      | noReq => exact openId_eq_none_of_noReq hs
      | reqAdded => exact absurd (.inl hs) ha
      | reqPending => exact absurd hs h
      | reqApplied => exact openId_eq_none_of_applied hs
    exact openIds_setSlot_same hk (openId_empty.trans hnone.symm)

theorem openIds_idled (h : (q.slot (incIdx q.rdIdx 1)).status = .noReq) :
    openIds q.idled ~ openIds q :=
  openIds_setSlot_same (incIdx_lt ..)
    ((openId_eq_none_of_skip rfl).trans (openId_eq_none_of_noReq h).symm)

theorem openIds_applied (hr : q.rdIdx < 48) :
    openIds q ~ (q.slot q.rdIdx).openId.toList ++ openIds q.applied :=
  openIds_setSlot_closes q hr (openId_eq_none_of_applied rfl)

theorem openIds_postponed (hr : q.rdIdx < 48)
    (hw : (q.slot q.rdIdx).waiting = true) : openIds q.postponed ~ openIds q := by
  have hw' : ({ q.slot q.rdIdx with status := .reqPending } : Slot).waiting = true := rfl
  refine openIds_setSlot_same hr ?_
  unfold Slot.openId
  rw [hw, hw']

theorem openIds_subperm_postponed (hr : q.rdIdx < 48) : openIds q <+~ openIds q.postponed := by
  by_cases hw : (q.slot q.rdIdx).waiting = true
  · exact (openIds_postponed hr hw).symm.subperm
  · have ho : (q.slot q.rdIdx).openId = none := if_neg fun hc => hw hc.1
    have hs := openIds_setSlot_opens { q.slot q.rdIdx with status := .reqPending } hr ho
    exact (List.sublist_append_right _ _).subperm.trans hs.symm.subperm

theorem rewound_slot (q : ReqQueue) (idx : ℕ) (synced : Bool) (i : ℕ) :
    ((q.rewound idx synced).slot i).status =
        (if i = idx then .reqAdded else (q.slot i).status) ∧
      ((q.rewound idx synced).slot i).reqId = (q.slot i).reqId ∧
      ((q.rewound idx synced).slot i).skipIdx = (q.slot i).skipIdx := by
  unfold ReqQueue.rewound setStatus
  cases synced with
  | false =>
    rw [if_neg Bool.false_ne_true, setSlot_slot]
    by_cases hi : i = idx
    · subst hi
      simp only [↓reduceIte, and_self]
    · simp only [hi, ↓reduceIte, and_self]
  | true =>
    rw [if_pos rfl]
    simp only [setSlot_slot]
    by_cases hi : i = idx
    · subst hi
      by_cases hn : i = incIdx i 1
      · simp only [← hn, ↓reduceIte, and_self]
      · simp only [hn, ↓reduceIte, and_self]
    · by_cases hn : i = incIdx idx 1
      · have hne : incIdx idx 1 ≠ idx := fun he => hi (hn.trans he)
        simp only [hn, hne, ↓reduceIte, and_self]
      · simp only [hi, hn, ↓reduceIte, and_self]

theorem rewound_rdIdx (q : ReqQueue) (idx : ℕ) (synced : Bool) :
    (q.rewound idx synced).rdIdx = idx ∧ (q.rewound idx synced).wrIdx = q.wrIdx := by
  unfold ReqQueue.rewound
  cases synced <;> exact ⟨rfl, rfl⟩

theorem openId_congr {a b : Slot} (hs : a.status = b.status) (hr : a.reqId = b.reqId)
    (hk : a.skipIdx = b.skipIdx) : a.openId = b.openId := by
  unfold Slot.openId Slot.waiting
  rw [hs, hr, hk]

theorem rewound_openId (q : ReqQueue) (idx : ℕ) (synced : Bool) (i : ℕ) :
    ((q.rewound idx synced).slot i).openId = ((setStatus q idx .reqAdded).slot i).openId := by
  obtain ⟨hs, hr, hk⟩ := rewound_slot q idx synced i
  unfold setStatus
  rw [setSlot_slot]
  by_cases hi : i = idx
  · subst hi
    rw [if_pos rfl] at hs ⊢
    exact openId_congr hs hr hk
  · rw [if_neg hi] at hs ⊢
    exact openId_congr hs hr hk

theorem openIds_rewound (q : ReqQueue) (idx : ℕ) (synced : Bool) :
    openIds (q.rewound idx synced) = openIds (setStatus q idx .reqAdded) := by
  unfold openIds
  simp only [rewound_openId]

def appliedId (q q' : ReqQueue) : Option ℤ :=
  if (q'.slot q'.rdIdx).status = .reqApplied then (q.slot q'.rdIdx).openId else none

def reopenedId (q q' : ReqQueue) : Option ℤ :=
  if (q.slot q'.rdIdx).status = .reqApplied then (q'.slot q'.rdIdx).openId else none

def cancelledId (q : ReqQueue) (reqId : ℤ) : Option ℤ :=
  (findSlotForReq q reqId).bind fun idx =>
    if (q.slot idx).status = .reqAdded then (q.slot idx).openId else none

/-- The requests open after a step. -/
def outstanding (ids : List ℤ) (link : Link) (input : Input) (r : Link × List Event) : List ℤ :=
  match input with
  | .schedule req _ _ => if req.reqId ≤ link.lastFlushId then ids else req.reqId :: ids
  | .trigger .. => ids.diff (appliedId link.inQ r.1.inQ).toList
  | .error .. =>
    (reopenedId link.inQ r.1.inQ).toList ++ ids.diff (appliedId link.inQ r.1.inQ).toList
  | .flush f =>
    match f.type with
    | .all => []
    | .cancelReq => ids.diff (cancelledId link.inQ f.reqId).toList
  | .stop => []
  | _ => ids

theorem findSlotFrom_spec (q : ReqQueue) (reqId : ℤ) (n idx i : ℕ) (hidx : idx < 48)
    (h : findSlotFrom q reqId n idx = some i) : i < 48 ∧ (q.slot i).reqId = reqId := by
  induction n generalizing idx with
  | zero => cases h
  | succ n ih =>
    rw [findSlotFrom] at h
    by_cases hid : (q.slot idx).reqId = reqId
    · rw [if_pos hid] at h
      obtain rfl := Option.some.inj h
      exact ⟨hidx, hid⟩
    · rw [if_neg hid] at h
      exact ih _ (decIdx_lt hidx) h

theorem findSlotForReq_spec {reqId : ℤ} {i : ℕ} (hr : q.rdIdx < 48)
    (h : findSlotForReq q reqId = some i) : i < 48 ∧ (q.slot i).reqId = reqId :=
  findSlotFrom_spec q reqId _ _ i hr h

theorem recoverIdx_spec {link : Link} {e : ErrorNotify} {idx : ℕ} (hr : link.inQ.rdIdx < 48)
    (h : recoverIdx link e = some idx) :
    idx < 48 ∧ ((link.inQ.slot idx).status = .reqPending ∨
      (link.inQ.slot idx).status = .reqApplied) := by
  unfold recoverIdx at h
  by_cases hb : e.bubble = true
  · rw [if_pos hb, Option.filter_eq_some_iff] at h
    obtain ⟨hf, hs⟩ := h
    exact ⟨(findSlotForReq_spec hr hf).1, (of_decide_eq_true hs).2⟩
  · rw [if_neg hb] at h
    cases h

theorem appliedId_self (q : ReqQueue) : appliedId q q = none := by
  unfold appliedId
  by_cases h : (q.slot q.rdIdx).status = .reqApplied
  · rw [if_pos h]
    exact openId_eq_none_of_applied h
  · exact if_neg h

theorem reopenedId_self (q : ReqQueue) : reopenedId q q = none := appliedId_self q

theorem outstanding_error_self (ids : List ℤ) (link : Link) (e : ErrorNotify) (env : Env) :
    outstanding ids link (.error e env) (link, []) = ids := by
  change (reopenedId link.inQ link.inQ).toList ++
    ids.diff (appliedId link.inQ link.inQ).toList = ids
  rw [appliedId_self, reopenedId_self]
  rfl

theorem Processed.rdIdx_eq {q' : ReqQueue} {cnt cnt' : ℤ} (h : Processed q cnt q' cnt') :
    q'.rdIdx = q.rdIdx ∧ q'.wrIdx = q.wrIdx := by
  cases h with
  | kept => exact ⟨rfl, rfl⟩
  | postponed => exact ⟨rfl, rfl⟩
  | applied => exact ⟨freed_rdIdx .., freed_wrIdx ..⟩

theorem Done.rdIdx_eq {link : Link} {n : TriggerNotify} (h : Done link n q) :
    q.rdIdx = link.inQ.rdIdx ∧ q.wrIdx = link.inQ.wrIdx := by
  cases h with
  | none => exact ⟨rfl, rfl⟩
  | freed => exact ⟨freed_rdIdx .., freed_wrIdx ..⟩

theorem decIdx_ne (i step : ℕ) (h : step ≤ 2) : decIdx i (step + 1) ≠ i := by
  rw [decIdx_eq]
  split <;> omega

theorem applied_freed_status (q : ReqQueue) {step : ℕ} (hs : step ≤ 2) :
    ((q.applied.freed (decIdx q.rdIdx (step + 1))).slot q.rdIdx).status = .reqApplied := by
  rcases freed_slot q.applied (decIdx q.rdIdx (step + 1)) q.rdIdx with h | ⟨h, -⟩
  · rw [h]
    exact congrArg Slot.status (setSlot_slot_self ..)
  · exact absurd h.symm (decIdx_ne _ _ hs)

end KernelModules.Crm
