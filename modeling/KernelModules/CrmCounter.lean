import KernelModules.CrmRequests

/-!
# The counter of open requests

`open_req_cnt` is increased when a request is scheduled and when a bubble takes one back, and
decreased when the slot at the read index is applied. It counts the open requests as long as the
slots that are applied hold open requests; idle and cancelled slots do not, and a flush does not
touch the counter at all.
-/

namespace KernelModules.Crm

open List

theorem wrap32_eq {n : ℤ} (h : -(2 ^ 31) ≤ n) (h' : n < 2 ^ 31) : wrap32 n = n :=
  Int.bmod_eq_of_le_mul_two (by omega) (by omega)

theorem waiting_of_status {slot : Slot} (hn : slot.status ≠ .noReq)
    (ha : slot.status ≠ .reqApplied) : slot.waiting = true := by
  rw [waiting_iff]
  cases hs : slot.status with
  | noReq => exact absurd hs hn
  | reqAdded => exact .inl rfl
  | reqPending => exact .inr rfl
  | reqApplied => exact absurd hs ha

/-- A counter that counts the requests `ids`, which have all slots that wait in `q`. -/
structure Counts (q : ReqQueue) (cnt : ℤ) (ids : List ℤ) : Prop where
  cnt : cnt = ids.length
  bound : ids.length < 2 ^ 31
  open_sub : openIds q <+~ ids

variable {q q' : ReqQueue} {cnt cnt' : ℤ} {ids : List ℤ} {link : Link} {env : Env}

variable {b : ReqQueue} {idx : ℕ} {synced : Bool} {link' : Link} {p : Link × List ℤ} {input : Input}

/-- Processing a slot that holds an open request, or none. -/
theorem Processed.counts
    (p : Processed q cnt q' cnt') (hr : q.rdIdx < 48) (h : Counts q cnt ids)
    (hslot : (q.slot q.rdIdx).status ≠ .noReq → ∃ id, (q.slot q.rdIdx).openId = some id ∧
      (b.slot q.rdIdx).openId = some id) :
    Counts q' cnt' (ids.diff (appliedId b q').toList) := by
  cases p with
  | kept =>
    have hnone : appliedId b q = none := by
      refine if_neg fun ha => ?_
      obtain ⟨id, hid, -⟩ := hslot (by rw [ha]; exact SlotStatus.noConfusion)
      rw [openId_eq_none_of_applied ha] at hid
      cases hid
    rw [hnone]
    exact h
  | postponed hn =>
    have hnone : appliedId b q.postponed = none := by
      refine if_neg fun ha => ?_
      have hs : (q.postponed.slot q.rdIdx).status = .reqPending :=
        congrArg Slot.status (setSlot_slot_self ..)
      exact absurd (hs.symm.trans ha) SlotStatus.noConfusion
    obtain ⟨id, hid, -⟩ := hslot hn
    have hw := (eq_of_openId_eq_some hid).1
    rw [hnone]
    exact ⟨h.cnt, h.bound, (openIds_postponed hr hw).subperm.trans h.open_sub⟩
  | applied hn step hs =>
    obtain ⟨id, hid, hb⟩ := hslot hn
    have happlied : appliedId b (q.applied.freed (decIdx q.rdIdx (step + 1))) = some id := by
      unfold appliedId
      rw [freed_rdIdx]
      exact (if_pos (applied_freed_status q hs)).trans hb
    have hsub : id :: openIds q.applied <+~ ids := by
      have hp := openIds_applied hr
      rw [hid] at hp
      exact hp.symm.subperm.trans h.open_sub
    have hmem : id ∈ ids := hsub.subset List.mem_cons_self
    have hlen := List.length_erase_of_mem hmem
    have hpos := List.length_pos_of_mem hmem
    have hcnt := h.cnt
    have hbound := h.bound
    rw [happlied]
    simp only [Option.toList_some, List.diff_cons, List.diff_nil]
    refine ⟨?_, by omega, ?_⟩
    · rw [wrap32_eq (by omega) (by omega)]
      omega
    · have he := hsub.erase id
      rw [List.erase_cons_head] at he
      exact (openIds_freed_subperm _ (decIdx_lt hr)).trans he

/-- The steps that only apply slots of open requests, and flush or cancel none. A trigger that fills an
empty slot for an idle frame is none of them, even if the frame is then put off. -/
def KeepsCount (link : Link) : Input → Prop
  | .schedule .. => link.openReqCnt < 2 ^ 31 - 1
  | .trigger n _ =>
    let rd := link.inQ.slot link.inQ.rdIdx
    let next := link.inQ.slot (incIdx link.inQ.rdIdx 1)
    if rd.status = .reqApplied then
      (next.waiting = true ∧ next.skipIdx = false ∧ next.reqId ≠ n.reqId) ∨
        (next.status = .noReq ∧ ¬ LowerPd link)
    else rd.waiting = true → rd.skipIdx = false
  | .error e _ =>
    ∀ idx ∈ recoverIdx link e, (link.inQ.slot idx).status = .reqApplied ∧
      (link.inQ.slot idx).skipIdx = false ∧ link.openReqCnt < 2 ^ 31 - 1
  | .flush f =>
    match f.type with
    | .all => link.openReqCnt = 0
    | .cancelReq => cancelledId link.inQ f.reqId = none
  | .stop => link.openReqCnt = 0
  | _ => True

instance (link : Link) (input : Input) : Decidable (KeepsCount link input) := by
  rcases input with _ | _ | _ | _ | ⟨_, _ | _⟩ <;> unfold KeepsCount <;> infer_instance

structure Counted (p : Link × List ℤ) : Prop where
  rd : p.1.inQ.rdIdx < 48
  wr : p.1.inQ.wrIdx < 48
  counts : Counts p.1.inQ p.1.openReqCnt p.2

variable {n : TriggerNotify}

theorem Done.slot_cases (d : Done link n q)
    (hr : link.inQ.rdIdx < 48) (i : ℕ) :
    q.slot i = link.inQ.slot i ∨
      ((link.inQ.slot i).reqId = n.reqId ∧ (q.slot i).status = .noReq) := by
  cases d with
  | none => exact .inl rfl
  | @freed idx _ hf last =>
    rcases freed_slot { link.inQ with lastAppliedIdx := last } idx i with he | ⟨rfl, -, he⟩
    · exact .inl he
    · exact .inr ⟨(findSlotForReq_spec hr hf).2, by rw [he]⟩

theorem Done.openIds_subperm
    (d : Done link n q) (hr : link.inQ.rdIdx < 48) : openIds q <+~ openIds link.inQ := by
  cases d with
  | none => exact Subperm.refl _
  | freed _ hf => exact openIds_freed_subperm _ (findSlotForReq_spec hr hf).1

theorem counts_trigger (h : Counted (link, ids))
    (hc : KeepsCount link (.trigger n env)) (d : Done link n q)
    (t : Triggered (LowerPd link) q link.openReqCnt q' cnt') :
    q'.rdIdx < 48 ∧ q'.wrIdx < 48 ∧ Counts q' cnt' (ids.diff (appliedId link.inQ q').toList) := by
  have hcounts : Counts q link.openReqCnt ids :=
    ⟨h.counts.cnt, h.counts.bound, (d.openIds_subperm h.rd).trans h.counts.open_sub⟩
  obtain ⟨hrd, hwr⟩ := d.rdIdx_eq
  have hslot := d.slot_cases h.rd
  have hrd' : q.rdIdx < 48 := by
    rw [hrd]
    exact h.rd
  have hwr' : q.wrIdx < 48 := by
    rw [hwr]
    exact h.wr
  -- A slot that is not empty is the one of the link before the step.
  have hsame : ∀ i, (q.slot i).status ≠ .noReq → q.slot i = link.inQ.slot i := fun i hn =>
    (hslot i).resolve_right fun hr => hn hr.2
  have hc' : KeepsCount link (.trigger n env) := hc
  unfold KeepsCount at hc'
  dsimp only at hc'
  cases t with
  | ignored =>
    refine ⟨hrd', hwr', ?_⟩
    have hnone : appliedId link.inQ q = none := by
      unfold appliedId
      by_cases ha : (q.slot q.rdIdx).status = .reqApplied
      · have hn : (q.slot q.rdIdx).status ≠ .noReq := by
          rw [ha]
          exact SlotStatus.noConfusion
        rw [if_pos ha, ← hsame _ hn]
        exact openId_eq_none_of_applied ha
      · exact if_neg ha
    rw [hnone]
    exact hcounts
  | stays ha p =>
    refine ⟨p.rdIdx_eq.1 ▸ hrd', p.rdIdx_eq.2 ▸ hwr', p.counts hrd' hcounts fun hn => ?_⟩
    have he := hsame _ hn
    have hw := waiting_of_status hn ha
    rw [he, hrd] at ha hw
    rw [if_neg ha] at hc'
    have hid := openId_eq_some hw (hc' hw)
    refine ⟨_, ?_, by rw [hrd]; exact hid⟩
    rw [he, hrd]
    exact hid
  | halts ha hn =>
    refine ⟨incIdx_lt .., hwr', ?_⟩
    have hnone : appliedId link.inQ q.advanced = none := by
      refine if_neg fun hap => ?_
      exact absurd (hn.symm.trans hap) SlotStatus.noConfusion
    rw [hnone]
    exact ⟨hcounts.cnt, hcounts.bound, hcounts.open_sub⟩
  | moves ha hn p =>
    have hcur := hsame q.rdIdx (by rw [ha]; exact SlotStatus.noConfusion)
    rw [hcur, hrd] at ha
    rw [if_pos ha] at hc'
    refine ⟨p.rdIdx_eq.1 ▸ incIdx_lt .., p.rdIdx_eq.2 ▸ hwr',
      p.counts (incIdx_lt ..) ⟨hcounts.cnt, hcounts.bound, hcounts.open_sub⟩ ?_⟩
    intro _
    have he := hsame _ hn
    rcases hc' with ⟨hw, hs, -⟩ | ⟨hno, -⟩
    · have hid := openId_eq_some hw hs
      refine ⟨(link.inQ.slot (incIdx link.inQ.rdIdx 1)).reqId, ?_, ?_⟩
      · change (q.slot (incIdx q.rdIdx 1)).openId = _
        rw [he, hrd]
        exact hid
      · change (link.inQ.slot (incIdx q.rdIdx 1)).openId = _
        rw [hrd]
        exact hid
    · rw [he, hrd] at hn
      exact absurd hno hn
  | idles ha hn hl =>
    have hcur := hsame q.rdIdx (by rw [ha]; exact SlotStatus.noConfusion)
    rw [hcur, hrd] at ha
    rw [if_pos ha] at hc'
    rcases hc' with ⟨hw, -, hne⟩ | ⟨-, hnl⟩
    · rw [hrd] at hn
      rcases hslot (incIdx link.inQ.rdIdx 1) with he | ⟨hid, -⟩
      · rw [he] at hn
        rw [waiting_iff] at hw
        rw [hn] at hw
        rcases hw with hw | hw <;> cases hw
      · exact absurd hid hne
    · exact absurd hl hnl

theorem counts_error
    (hidx : idx < 48) (h : Counts b cnt ids) (hcnt : cnt < 2 ^ 31 - 1)
    (ha : (b.slot idx).status = .reqApplied) (hs : (b.slot idx).skipIdx = false)
    (p : Processed (b.rewound idx synced) (wrap32 (cnt + 1)) q' cnt') :
    Counts q' cnt' ((reopenedId b q').toList ++ ids.diff (appliedId b q').toList) := by
  have hrd := (rewound_rdIdx b idx synced).1
  have hrd' : q'.rdIdx = idx := p.rdIdx_eq.1.trans hrd
  have hopen : ((b.rewound idx synced).slot idx).openId = some (b.slot idx).reqId := by
    rw [rewound_openId]
    change ((b.setSlot idx _).slot idx).openId = _
    rw [setSlot_slot_self]
    exact openId_eq_some rfl hs
  have hcount := h.cnt
  have hwrap : wrap32 (cnt + 1) = cnt + 1 := wrap32_eq (by omega) (by omega)
  -- The request is open while its slot is processed again.
  have hq : Counts (b.rewound idx synced) (cnt + 1) ((b.slot idx).reqId :: ids) := by
    refine ⟨?_, ?_, ?_⟩
    · rw [List.length_cons]
      omega
    · rw [List.length_cons]
      omega
    · rw [openIds_rewound]
      have hop := openIds_setSlot_opens { b.slot idx with status := .reqAdded } hidx
        (openId_eq_none_of_applied ha)
      have hid : ({ b.slot idx with status := .reqAdded } : Slot).openId =
          some (b.slot idx).reqId := openId_eq_some rfl hs
      rw [hid] at hop
      exact hop.subperm.trans ((List.subperm_cons _).mpr h.open_sub)
  rw [hwrap] at p
  have hp := p.counts (b := b.rewound idx synced) (by rw [hrd]; exact hidx) hq fun _ =>
    ⟨_, by rw [hrd]; exact hopen, by rw [hrd]; exact hopen⟩
  have happlied : appliedId b q' = none := by
    unfold appliedId
    rw [hrd', openId_eq_none_of_applied ha]
    exact ite_self _
  have hreopened : reopenedId b q' = (q'.slot idx).openId := by
    unfold reopenedId
    rw [hrd']
    exact if_pos ha
  rw [happlied, hreopened]
  have hlast : appliedId (b.rewound idx synced) q' =
      if (q'.slot idx).status = .reqApplied then some (b.slot idx).reqId else none := by
    unfold appliedId
    rw [hrd', hopen]
  rw [hlast] at hp
  by_cases hap : (q'.slot idx).status = .reqApplied
  · rw [if_pos hap] at hp
    simp only [Option.toList_some, List.diff_cons, List.diff_nil, List.erase_cons_head] at hp
    rw [openId_eq_none_of_applied hap]
    exact hp
  · rw [if_neg hap] at hp
    have hstill : (q'.slot idx).openId = some (b.slot idx).reqId := by
      generalize b.rewound idx synced = q at *
      subst hrd
      cases p with
      | kept => exact hopen
      | postponed =>
        obtain ⟨-, hsk, hid⟩ := eq_of_openId_eq_some hopen
        change ((q.setSlot q.rdIdx _).slot q.rdIdx).openId = _
        rw [setSlot_slot_self, ← hid]
        exact openId_eq_some rfl hsk
      | applied _ step hstep => exact absurd (applied_freed_status q hstep) hap
    rw [hstill]
    exact hp

theorem openIds_flushed (q : ReqQueue) : openIds q.flushed = [] := by
  unfold openIds
  rw [List.filterMap_eq_nil_iff]
  exact fun i _ => rfl

theorem counted_flushed (h : Counted (link, []))
    (hq : link'.inQ = link.inQ.flushed) (hcnt : link'.openReqCnt = link.openReqCnt) : Counted
    (link', []) := by
  refine ⟨?_, ?_, ?_⟩
  · rw [hq]
    exact Nat.zero_lt_succ _
  · rw [hq]
    exact Nat.zero_lt_succ _
  · rw [hq, hcnt]
    exact ⟨h.counts.cnt, h.counts.bound, by rw [openIds_flushed]⟩

theorem Counted.ids_eq_nil (h : Counted (link, ids)) (h0 : link.openReqCnt = 0) : ids = [] := by
  have hc := h.counts.cnt
  dsimp only at hc
  rw [h0] at hc
  exact List.length_eq_zero_iff.mp (by omega)

theorem counted_schedule {r : SchedRequest} {f : ℤ}
    (h : Counted (link, ids)) (hc : KeepsCount link (.schedule r f synced)) :
    Counted ((machine.monitored outstanding).step (link, ids) (.schedule r f synced)).1 := by
  change Counted ((scheduleRequest link r f synced).1,
    outstanding ids link (.schedule r f synced) (scheduleRequest link r f synced))
  by_cases ha : r.reqId ≤ link.lastFlushId
  · have hids : outstanding ids link (.schedule r f synced) (scheduleRequest link r f synced) =
        ids := if_pos ha
    rw [hids, scheduleRequest_refused f synced ha]
    exact h
  · have hids : outstanding ids link (.schedule r f synced) (scheduleRequest link r f synced) =
        r.reqId :: ids := if_neg ha
    obtain ⟨hq, hcnt⟩ := scheduleRequest_accepted f synced ha
    have hlen := h.counts.cnt
    change link.openReqCnt < 2 ^ 31 - 1 at hc
    dsimp only at hlen
    have hwrap : wrap32 (link.openReqCnt + 1) = link.openReqCnt + 1 :=
      wrap32_eq (by omega) (by omega)
    rw [hids]
    refine ⟨?_, ?_, ?_⟩
    · rw [hq]
      exact h.rd
    · rw [hq]
      exact incIdx_lt ..
    · rw [hq, hcnt, hwrap]
      refine ⟨?_, ?_, ?_⟩
      · rw [List.length_cons]
        omega
      · rw [List.length_cons]
        omega
      · -- The slot that is written over may have held an open request.
        obtain ⟨rest, hold, hnew⟩ := openIds_setSlot link.inQ h.wr
        have hrest : rest <+~ ids :=
          (List.sublist_append_right _ _).subperm.trans (hold.symm.subperm.trans h.counts.open_sub)
        exact (hnew (schedSlot { r with bubbleEnable := bubbleEnable f r })).subperm.trans
          ((List.subperm_cons _).mpr hrest)

theorem counted_held (h : Counted (link, ids))
    (hq : link'.inQ = link.inQ) (hcnt : link'.openReqCnt = link.openReqCnt) :
    Counted (link', ids) := by
  obtain ⟨h₁, h₂, h₃⟩ := h
  dsimp only at h₁ h₂ h₃
  refine ⟨?_, ?_, ?_⟩
  · rw [hq]
    exact h₁
  · rw [hq]
    exact h₂
  · rw [hq, hcnt]
    exact h₃

theorem openIds_cancelled (hidx : idx < 48)
    (h : (q.slot idx).openId = none) : openIds (q.cancelled idx) ~ openIds q := by
  have h₁ : openIds (q.setSlot idx { q.slot idx with additionalTimeout := 0 }) ~ openIds q :=
    openIds_setSlot_same hidx rfl
  refine Perm.trans (openIds_setSlot_same hidx ?_) h₁
  rw [setSlot_slot_self]
  exact (openId_eq_none_of_skip rfl).trans h.symm

theorem counted_flush {f : FlushInfo} (h : Counted (link, ids))
    (hc : KeepsCount link (.flush f)) :
    Counted ((machine.monitored outstanding).step (link, ids) (.flush f)).1 := by
  change Counted ((processFlushReq link f).1, outstanding ids link (.flush f) _)
  obtain ⟨hf, hcnt⟩ := processFlushReq_flushed link f
  unfold KeepsCount at hc
  unfold outstanding
  dsimp only at hc ⊢
  cases ht : f.type with
  | all =>
    rw [ht] at hc
    dsimp only at hc ⊢
    have hnil := h.ids_eq_nil hc
    subst hnil
    generalize hq : (processFlushReq link f).1.inQ = q at hf
    cases hf with
    | all => exact counted_flushed h hq hcnt
    | kept ht' => exact absurd (ht.symm.trans ht') FlushType.noConfusion
    | cancelled ht' => exact absurd (ht.symm.trans ht') FlushType.noConfusion
  | cancelReq =>
    rw [ht] at hc
    dsimp only at hc ⊢
    rw [hc]
    change Counted (_, ids)
    generalize hq : (processFlushReq link f).1.inQ = q at hf
    cases hf with
    | all ht' => exact absurd (ht.symm.trans ht') FlushType.noConfusion
    | kept => exact counted_held h hq hcnt
    | @cancelled idx _ hi hs =>
      have hidx := (findSlotForReq_spec h.rd hi).1
      have hnone : (link.inQ.slot idx).openId = none := by
        unfold cancelledId at hc
        rw [hi] at hc
        by_cases hst : (link.inQ.slot idx).status = .reqAdded
        · exact (if_pos hst).symm.trans hc
        · cases hst' : (link.inQ.slot idx).status with
          | noReq => exact openId_eq_none_of_noReq hst'
          | reqAdded => exact absurd hst' hst
          | reqPending => exact absurd (.inl hst') hs
          | reqApplied => exact absurd (.inr hst') hs
      refine ⟨?_, ?_, ?_⟩
      · rw [hq]
        exact h.rd
      · rw [hq]
        exact h.wr
      · rw [hq, hcnt]
        exact ⟨h.counts.cnt, h.counts.bound,
          (openIds_cancelled hidx hnone).subperm.trans h.counts.open_sub⟩

theorem counted_error {e : ErrorNotify}
    (h : Counted (link, ids)) (hc : KeepsCount link (.error e env)) :
    Counted ((machine.monitored outstanding).step (link, ids) (.error e env)).1 := by
  change Counted ((processError link e env).1,
    outstanding ids link (.error e env) (processError link e env))
  rcases processError_processed link e env with ⟨-, heq⟩ | ⟨idx, hsome, hp⟩
  · rw [heq, outstanding_error_self]
    exact h
  · obtain ⟨hidx, -⟩ := recoverIdx_spec h.rd hsome
    obtain ⟨ha, hs, hcnt⟩ := hc idx hsome
    have hrd := (rewound_rdIdx link.inQ idx env.syncLink.isSome).1
    have hwr := (rewound_rdIdx link.inQ idx env.syncLink.isSome).2
    refine ⟨?_, ?_, counts_error hidx h.counts hcnt ha hs hp⟩
    · rw [hp.rdIdx_eq.1, hrd]
      exact hidx
    · rw [hp.rdIdx_eq.2, hwr]
      exact h.wr

theorem counted_step (h : Counted p)
    (hc : KeepsCount p.1 input) : Counted ((machine.monitored outstanding).step p input).1 := by
  obtain ⟨link, ids⟩ := p
  cases input with
  | schedule r f synced => exact counted_schedule h hc
  | addReq r =>
    exact counted_held h (processAddReq_held link r).inQ (processAddReq_held link r).openReqCnt
  | trigger n env =>
    obtain ⟨h₁, h₂, h₃⟩ := counts_trigger h hc (resetDoneSlot_done link n).1
      (processTrigger_triggered link n env)
    exact ⟨h₁, h₂, h₃⟩
  | error e env => exact counted_error h hc
  | flush f => exact counted_flush h hc
  | stop =>
    have hnil := h.ids_eq_nil hc
    subst hnil
    exact counted_flushed h rfl rfl
  | syncConfig d => exact counted_held h (syncConfig_inQ link d).1 (syncConfig_inQ link d).2
  | linkControl a => exact counted_held h rfl rfl
  | peer w =>
    exact counted_held h (peerWrite_held w link).inQ (peerWrite_held w link).openReqCnt

def Blank (q : ReqQueue) : Prop :=
  ∀ i, (q.slot i).status ≠ .reqApplied ∧ (q.slot i).openId = none

theorem blank_flushed (q : ReqQueue) : Blank q.flushed :=
  fun _ => ⟨SlotStatus.noConfusion, rfl⟩

theorem Blank.done (h : Blank link.inQ) (d : Done link n q) : Blank q := by
  intro i
  cases d with
  | none => exact h i
  | @freed idx _ _ last =>
    rcases freed_slot { link.inQ with lastAppliedIdx := last } idx i with he | ⟨-, -, he⟩
    · rw [he]
      exact h i
    · rw [he]
      exact ⟨SlotStatus.noConfusion, rfl⟩

theorem Blank.triggered (h : Blank link.inQ) (hr : link.inQ.rdIdx < 48)
    (hc : KeepsCount link (.trigger n env)) (d : Done link n q)
    (t : Triggered (LowerPd link) q cnt q' cnt') : Blank q' := by
  have hq := h.done d
  have hempty : (q.slot q.rdIdx).status = .noReq := by
    by_contra hn
    have he := (d.slot_cases hr q.rdIdx).resolve_right fun hs => hn hs.2
    rw [d.rdIdx_eq.1] at he hn
    have ha := (h link.inQ.rdIdx).1
    rw [he] at hn
    have hw := waiting_of_status hn ha
    unfold KeepsCount at hc
    dsimp only at hc
    rw [if_neg ha] at hc
    have hid := openId_eq_some hw (hc hw)
    rw [(h link.inQ.rdIdx).2] at hid
    cases hid
  have hna : ∀ {s : SlotStatus}, s ≠ .noReq → (q.slot q.rdIdx).status ≠ s := by
    intro s hs he
    exact hs (he.symm.trans hempty)
  cases t with
  | ignored => exact hq
  | stays _ p =>
    cases p with
    | kept => exact hq
    | postponed hn => exact absurd hempty hn
    | applied hn => exact absurd hempty hn
  | halts ha => exact absurd ha (hna SlotStatus.noConfusion)
  | moves ha => exact absurd ha (hna SlotStatus.noConfusion)
  | idles ha => exact absurd ha (hna SlotStatus.noConfusion)

theorem Blank.cancelled {q : ReqQueue} (h : Blank q) (idx : ℕ) : Blank (q.cancelled idx) := by
  intro i
  change ((ReqQueue.setSlot _ idx _).slot i).status ≠ _ ∧
    ((ReqQueue.setSlot _ idx _).slot i).openId = none
  by_cases hi : i = idx
  · rw [hi, setSlot_slot_self]
    exact ⟨SlotStatus.noConfusion, openId_eq_none_of_skip rfl⟩
  · rw [setSlot_slot_of_ne hi, setSlot_slot_of_ne hi]
    exact h i

def Input.schedules : Input → Bool
  | .schedule .. => true
  | _ => false

def Cleared (p : Link × List ℤ) : Prop := p.1.inQ.rdIdx < 48 ∧ p.2 = [] ∧ Blank p.1.inQ

theorem cleared_step (h : Cleared p)
    (hc : KeepsCount p.1 input ∧ input.schedules = false) :
    Cleared ((machine.monitored outstanding).step p input).1 := by
  obtain ⟨link, ids⟩ := p
  obtain ⟨hr, hids, hb⟩ := h
  obtain ⟨hc, hns⟩ := hc
  dsimp only at hr hids hb hc
  subst hids
  have hheld : ∀ {link' : Link}, link'.inQ = link.inQ → Cleared (link', []) := by
    intro link' hq
    unfold Cleared
    rw [hq]
    exact ⟨hr, rfl, hb⟩
  cases input with
  | schedule => cases hns
  | addReq r => exact hheld (processAddReq_held link r).inQ
  | trigger n env =>
    have t := processTrigger_triggered link n env
    have d := (resetDoneSlot_done link n).1
    refine ⟨?_, List.nil_diff _, hb.triggered hr hc d t⟩
    change (processTrigger link n env).1.inQ.rdIdx < 48
    generalize (processTrigger link n env).1.inQ = q' at t
    generalize (processTrigger link n env).1.openReqCnt = cnt' at t
    have hrd := d.rdIdx_eq.1
    cases t with
    | ignored => exact hrd ▸ hr
    | stays _ p => exact p.rdIdx_eq.1 ▸ hrd ▸ hr
    | halts => exact incIdx_lt ..
    | moves _ _ p => exact p.rdIdx_eq.1 ▸ incIdx_lt ..
    | idles _ _ _ p => exact p.rdIdx_eq.1 ▸ incIdx_lt ..
  | error e env =>
    have hnone : recoverIdx link e = none := by
      cases hi : recoverIdx link e with
      | none => rfl
      | some idx => exact absurd (hc idx hi).1 (hb idx).1
    have heq : processError link e env = (link, []) := by
      unfold processError
      rw [hnone]
    change Cleared ((processError link e env).1,
      outstanding [] link (.error e env) (processError link e env))
    rw [heq, outstanding_error_self]
    exact ⟨hr, rfl, hb⟩
  | flush f =>
    change Cleared ((processFlushReq link f).1, outstanding [] link (.flush f) _)
    have hids : outstanding [] link (.flush f) (processFlushReq link f) = [] := by
      unfold outstanding
      dsimp only
      cases f.type with
      | all => rfl
      | cancelReq => exact List.nil_diff _
    obtain ⟨hf, -⟩ := processFlushReq_flushed link f
    refine ⟨?_, hids, ?_⟩
    · change (processFlushReq link f).1.inQ.rdIdx < 48
      generalize (processFlushReq link f).1.inQ = q at hf
      cases hf with
      | all => exact Nat.zero_lt_succ _
      | kept => exact hr
      | cancelled => exact hr
    · change Blank (processFlushReq link f).1.inQ
      generalize (processFlushReq link f).1.inQ = q at hf
      cases hf with
      | all => exact blank_flushed _
      | kept => exact hb
      | cancelled => exact hb.cancelled _
  | stop => exact ⟨Nat.zero_lt_succ _, rfl, blank_flushed _⟩
  | syncConfig d => exact hheld (syncConfig_inQ link d).1
  | linkControl a => exact hheld rfl
  | peer w => exact hheld (peerWrite_held w link).inQ

theorem counted_setup (infos : List DevInfo) : Counted (setupLinkInfo infos, []) := by
  obtain ⟨hq, hcnt, -⟩ := setupLinkInfo_inQ infos
  refine ⟨?_, ?_, ?_⟩
  · rw [hq]
    exact Nat.zero_lt_succ _
  · rw [hq]
    exact Nat.zero_lt_succ _
  · dsimp only
    rw [hq, hcnt]
    exact ⟨rfl, by decide, List.nil_subperm⟩

theorem cleared_flush_all (link : Link) (ids : List ℤ) {f : FlushInfo} (hf : f.type = .all) :
    Cleared ((machine.monitored outstanding).step (link, ids) (.flush f)).1 := by
  change Cleared ((processFlushReq link f).1, outstanding ids link (.flush f) _)
  unfold processFlushReq outstanding
  dsimp only
  rw [hf]
  exact ⟨Nat.zero_lt_succ _, rfl, blank_flushed _⟩

/-- The counter is the number of requests that are open; it is never below zero, and it is zero
after a flush of all requests until the next one is scheduled. -/
theorem open_req_cnt_counts (infos : List DevInfo) (is : List Input)
    (h : machine.Meets KeepsCount (setupLinkInfo infos) is) :
    (machine.run (setupLinkInfo infos) is).1.openReqCnt =
        ((machine.monitored outstanding).run (setupLinkInfo infos, []) is).1.2.length ∧
      0 ≤ (machine.run (setupLinkInfo infos) is).1.openReqCnt ∧
      ∀ js f ks, is = js ++ .flush f :: ks → f.type = .all → (∀ i ∈ ks, i.schedules = false) →
        (machine.run (setupLinkInfo infos) is).1.openReqCnt = 0 := by
  have hm := (machine.monitored_meets outstanding KeepsCount (setupLinkInfo infos, []) is).mpr h
  have hrun := Machine.invariant_of_meets _ (fun p i => counted_step) (counted_setup infos) hm
  have hlink := (machine.monitored_run outstanding (setupLinkInfo infos, []) is).1
  have hcnt := hrun.counts.cnt
  rw [hlink] at hcnt
  refine ⟨hcnt, by rw [hcnt]; exact Int.natCast_nonneg _, ?_⟩
  intro js f ks hsplit hf hks
  have hnil : ((machine.monitored outstanding).run (setupLinkInfo infos, []) is).1.2 = [] := by
    rw [hsplit, Machine.meets_append, Machine.meets_cons] at hm
    rw [hsplit, Machine.run_append, Machine.run_cons]
    have hcl := Machine.invariant_of_meets _ (fun p i => cleared_step)
      (cleared_flush_all _ _ hf)
      (Machine.Meets.and _ hm.2.2 (Machine.meets_of_forall _ _ hks))
    exact hcl.2.1
  rw [hcnt, hnil]
  rfl

/-- A request is applied, taken back by a bubble and applied again; then all is flushed. -/
def recoveredRun : List Input :=
  [.schedule { reqId := 1, bubbleEnable := 1 } 0 false, .addReq { devHdl := 10, reqId := 1 },
    .trigger { reqId := 0 } {}, .error { reqId := 1, trigger := 0 } {}, .trigger { reqId := 0 } {},
    .flush ⟨1, .all⟩, .trigger { reqId := 0 } {}]

theorem recoveredRun_counts :
    (machine.run (setupLinkInfo [⟨10, 2, 1⟩]) recoveredRun).1.openReqCnt =
        ((machine.monitored outstanding).run
          (setupLinkInfo [⟨10, 2, 1⟩], []) recoveredRun).1.2.length ∧
      0 ≤ (machine.run (setupLinkInfo [⟨10, 2, 1⟩]) recoveredRun).1.openReqCnt ∧
      ∀ js f ks, recoveredRun = js ++ .flush f :: ks → f.type = .all →
        (∀ i ∈ ks, i.schedules = false) →
        (machine.run (setupLinkInfo [⟨10, 2, 1⟩]) recoveredRun).1.openReqCnt = 0 :=
  open_req_cnt_counts [⟨10, 2, 1⟩] recoveredRun (by decide +kernel)

def idleRun : List Input :=
  [.schedule { reqId := 1 } 0 false, .addReq { devHdl := 10, reqId := 1 },
    .addReq { devHdl := 11, reqId := 1 }, .trigger { reqId := 0 } {}, .trigger { reqId := 0 } {}]

/-- The idle frame takes the counter below zero. -/
theorem idle_frame_counts_below_zero :
    ¬ ∀ (infos : List DevInfo) (is : List Input),
      (machine.run (setupLinkInfo infos) is).1.openReqCnt =
          ((machine.monitored outstanding).run (setupLinkInfo infos, []) is).1.2.length ∧
        0 ≤ (machine.run (setupLinkInfo infos) is).1.openReqCnt ∧
        ∀ js f ks, is = js ++ .flush f :: ks → f.type = .all → (∀ i ∈ ks, i.schedules = false) →
          (machine.run (setupLinkInfo infos) is).1.openReqCnt = 0 := by
  intro h
  have hneg : (machine.run (setupLinkInfo [⟨10, 2, 1⟩, ⟨11, 1, 1⟩]) idleRun).1.openReqCnt = -1 := by
    decide +kernel
  have hpos := (h [⟨10, 2, 1⟩, ⟨11, 1, 1⟩] idleRun).2.1
  omega

end KernelModules.Crm
