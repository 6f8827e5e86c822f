import KernelModules.CrmAlike
import Mathlib.Tactic

/-!
# What a link remembers across a flush

Flushing all requests empties the slots of the queue and of the tables, but leaves what a table
slot injects, what the tables still skip, and the triggers that have come. Two links that agree
on these make the same calls after a flush, whatever else their pasts were.
-/

namespace KernelModules.Crm

variable {synced : Prop} {s t : Link}

variable {s' t' : Link} {slot : Slot} {a b : TblSlot}

theorem Alike.congr (h : Alike synced s t) (hs : SameWiring s s')
    (ht : SameWiring t t') (inQ : QueueAlike s'.inQ t'.inQ) (tbls : TblsAlike s'.tbl t'.tbl)
    (triggerMask : t'.triggerMask = s'.triggerMask) (inactive : t'.inactive ↔ s'.inactive)
    (lastFlushId : t'.lastFlushId = s'.lastFlushId) (sync : synced → SyncAgree s' t') :
    Alike synced s' t' :=
  ⟨hs.wired h.wired, (hs.symm.trans h.wiring).trans ht, inQ, tbls, triggerMask, inactive,
    lastFlushId, sync⟩

variable {q q' : ReqQueue} {idx : ℕ}

theorem Unapplied.setSlot (h : Unapplied q)
    (hs : slot.status = .noReq ∨ (slot.status ≠ .reqApplied ∧ 0 < slot.reqId)) (idx : ℕ) :
    Unapplied (q.setSlot idx slot) := by
  intro i
  rw [setSlot_slot]
  split
  · exact hs
  · exact h i

theorem QueueAlike.setSlot (h : QueueAlike q q') (idx : ℕ)
    (hskip : slot.skipIdx = true → slot.reqId < 0)
    (hlast : Unapplied q → slot.status = .noReq ∨ (slot.status ≠ .reqApplied ∧ 0 < slot.reqId)) :
    QueueAlike (q.setSlot idx slot) (q'.setSlot idx slot) where
  slot := by
    unfold ReqQueue.setSlot
    rw [h.slot]
  rdIdx := h.rdIdx
  wrIdx := h.wrIdx
  last := h.last.imp_right fun hu => hu.setSlot (hlast hu) idx
  skipped i := by
    rw [setSlot_slot]
    split
    · exact hskip
    · exact h.skipped i

theorem QueueAlike.setStatus (h : QueueAlike q q')
    {status : SlotStatus} (hs : status ≠ .reqApplied) (hn : (q.slot idx).status ≠ .noReq) :
    QueueAlike (setStatus q idx status) (setStatus q' idx status) := by
  unfold Crm.setStatus
  rw [h.slot]
  exact h.setSlot idx (h.skipped idx) fun hu => .inr ⟨hs, ((hu idx).resolve_left hn).2⟩

theorem QueueAlike.setRdIdx (h : QueueAlike q q') (rdIdx : ℕ) :
    QueueAlike { q with rdIdx := rdIdx } { q' with rdIdx := rdIdx } :=
  ⟨h.slot, rfl, h.wrIdx, h.last, h.skipped⟩

theorem QueueAlike.applied {q q' : ReqQueue} (h : QueueAlike q q')
    (hn : (q.slot q.rdIdx).status ≠ .noReq) :
    QueueAlike q.applied q'.applied ∧ q'.applied.lastAppliedIdx = q.applied.lastAppliedIdx := by
  have hlast : q'.applied.lastAppliedIdx = q.applied.lastAppliedIdx := by
    change (if 0 < (q'.slot q'.rdIdx).reqId then some q'.rdIdx else q'.lastAppliedIdx) =
      if 0 < (q.slot q.rdIdx).reqId then some q.rdIdx else q.lastAppliedIdx
    rw [h.slot, h.rdIdx]
    rcases h.last with hl | hu
    · rw [hl]
    · rw [if_pos ((hu _).resolve_left hn).2, if_pos ((hu _).resolve_left hn).2]
  refine ⟨⟨?_, h.rdIdx, h.wrIdx, .inl hlast, fun i => ?_⟩, hlast⟩
  · change Function.update q'.slot q'.rdIdx _ = Function.update q.slot q.rdIdx _
    rw [h.slot, h.rdIdx]
  · change ((q.setSlot q.rdIdx _).slot i).skipIdx = true → ((q.setSlot q.rdIdx _).slot i).reqId < 0
    rw [setSlot_slot]
    split
    · exact h.skipped q.rdIdx
    · exact h.skipped i

theorem QueueAlike.freed {q q' : ReqQueue} (h : QueueAlike q q') {idx : ℕ}
    (hl : q'.lastAppliedIdx = some idx ↔ q.lastAppliedIdx = some idx) :
    QueueAlike (q.freed idx) (q'.freed idx) := by
  unfold ReqQueue.freed
  rw [h.slot]
  simp only [hl]
  split
  · exact h
  · exact h.setSlot idx (fun hc => by cases hc) fun _ => .inl rfl

theorem findSlotFrom_congr (h : q'.slot = q.slot) (reqId : ℤ) (n idx : ℕ) :
    findSlotFrom q' reqId n idx = findSlotFrom q reqId n idx := by
  induction n generalizing idx with
  | zero => rfl
  | succ n ih => rw [findSlotFrom, findSlotFrom, h, ih]

theorem QueueAlike.findSlot (h : QueueAlike q q') (reqId : ℤ) :
    findSlotForReq q' reqId = findSlotForReq q reqId := by
  unfold findSlotForReq
  rw [h.rdIdx]
  exact findSlotFrom_congr h.slot ..

theorem SlotAlike.reset (h : SlotAlike a b) : SlotAlike (resetTblSlot a) (resetTblSlot b) :=
  ⟨rfl, rfl, h.injectDelay, h.skipNextFrame, h.devHdl, fun hc => absurd rfl hc⟩

theorem reset_slot (tbl : PipelineDelay → ReqTbl) (idx : ℕ) (pd : PipelineDelay) (i : ℕ) :
    ((tbl pd).setSlot idx (resetTblSlot ((tbl pd).slot idx))).slot i =
      if i = idx then resetTblSlot ((tbl pd).slot i) else (tbl pd).slot i := by
  rw [setSlot_slot_tbl]
  split
  · rename_i he
    rw [he]
  · rfl

theorem resetReqSlot_resumed (h : Resumed synced s t) {idx : ℕ}
    (hl : t.inQ.lastAppliedIdx = some idx ↔ s.inQ.lastAppliedIdx = some idx) :
    Resumed synced (resetReqSlot s idx) (resetReqSlot t idx) := by
  have hq := h.inQ.freed hl
  have hs := resetReqSlot_wiring s idx
  have ht := resetReqSlot_wiring t idx
  rw [← resetReqSlot_inQ, ← resetReqSlot_inQ] at hq
  unfold resetReqSlot at hq hs ht ⊢
  rw [h.inQ.slot] at hq ht ⊢
  simp only [hl] at hq ht ⊢
  split at hq
  · rename_i hc
    rw [if_pos hc, if_pos hc]
    exact h
  · rename_i hc
    rw [if_neg hc] at hs ht
    rw [if_neg hc, if_neg hc]
    refine ⟨h.toAlike.congr hs ht hq ⟨(hs.shape.symm.trans h.wiring.shape).trans ht.shape,
      h.tbls.skipTraverse, fun pd i => ?_⟩ h.triggerMask h.inactive h.lastFlushId
      fun hsync => ⟨(h.sync hsync).isMaster, (h.sync hsync).initialSkip,
        (h.sync hsync).inMsyncMode⟩, fun hm => (h.sent hm).congr rfl rfl rfl fun pd i hpd => ?_⟩
    · rw [reset_slot, reset_slot]
      split
      · exact (h.tbls.slot pd i).reset
      · exact h.tbls.slot pd i
    · rw [reset_slot, reset_slot]
      split
      · exact hpd
      · exact hpd

theorem Sendable.frame (h : Sendable s t) (hdev : s'.lDev = s.lDev)
    (hs : s'.applyData = s.applyData) (ht : t'.applyData = t.applyData) (hst : s'.tbl = s.tbl)
    (htt : t'.tbl = t.tbl) : Sendable s' t' := by
  refine h.congr hdev hs ht fun pd i hpd => ?_
  rw [hst, htt]
  exact hpd

theorem resetStep_alike (h : Alike synced s t) (syncLink : Option Link)
    (hs : syncLink.isSome = true → synced) : resetStep t syncLink = resetStep s syncLink := by
  unfold resetStep
  cases syncLink with
  | none =>
    rw [h.wiring.maxDelay]
  | some l =>
    rw [(h.sync (hs rfl)).inMsyncMode, h.wiring.maxDelay]

theorem Alike.setOther (h : Alike synced s t) {cnt cnt' req req' : ℤ} {retry retry' : ℕ}
    {skip skip' : Bool} {frame frame' prev prev' : ℕ} :
    Alike synced
      { s with
        openReqCnt := cnt, retryCnt := retry, syncLinkSofSkip := skip, initialSyncReq := req
        sofTimestamp := frame, prevSofTimestamp := prev }
      { t with
        openReqCnt := cnt', retryCnt := retry', syncLinkSofSkip := skip', initialSyncReq := req'
        sofTimestamp := frame', prevSofTimestamp := prev' } :=
  h.congr ⟨rfl, rfl, rfl, rfl, rfl, SameShape.refl _⟩ ⟨rfl, rfl, rfl, rfl, rfl, SameShape.refl _⟩
    h.inQ h.tbls h.triggerMask h.inactive h.lastFlushId fun hsync => ⟨(h.sync hsync).isMaster,
      (h.sync hsync).initialSkip, (h.sync hsync).inMsyncMode⟩

theorem Alike.setInQ (h : Alike synced s t) (hq : QueueAlike q q') :
    Alike synced { s with inQ := q } { t with inQ := q' } :=
  h.congr ⟨rfl, rfl, rfl, rfl, rfl, SameShape.refl _⟩ ⟨rfl, rfl, rfl, rfl, rfl, SameShape.refl _⟩
    hq h.tbls h.triggerMask h.inactive h.lastFlushId fun hsync => ⟨(h.sync hsync).isMaster,
      (h.sync hsync).initialSkip, (h.sync hsync).inMsyncMode⟩

theorem Alike.setTriggerMask (h : Alike synced s t) (mask : ℕ) {state state' : LinkState}
    (hstate : (state' = .available ∨ state' = .idle) ↔ (state = .available ∨ state = .idle)) :
    Alike synced { s with triggerMask := mask, state := state }
      { t with triggerMask := mask, state := state' } :=
  h.congr ⟨rfl, rfl, rfl, rfl, rfl, SameShape.refl _⟩ ⟨rfl, rfl, rfl, rfl, rfl, SameShape.refl _⟩
    h.inQ h.tbls rfl hstate h.lastFlushId fun hsync => ⟨(h.sync hsync).isMaster,
      (h.sync hsync).initialSkip, (h.sync hsync).inMsyncMode⟩

theorem finishReq_resumed (h : Alike synced s t) (syncLink : Option Link)
    (hs : syncLink.isSome = true → synced) (hn : (s.inQ.slot s.inQ.rdIdx).status ≠ .noReq) :
    Resumed synced (finishReq s syncLink) (finishReq t syncLink) := by
  obtain ⟨hq, hlast⟩ := h.inQ.applied hn
  have happlied : Resumed synced { s with triggerMask := 0, inQ := s.inQ.applied }
      { t with triggerMask := 0, inQ := t.inQ.applied } :=
    ⟨(h.setInQ hq).setTriggerMask 0 h.inactive, fun hm => absurd (Nat.zero_and _) hm⟩
  have hidx : decIdx t.inQ.rdIdx (resetStep t syncLink + 1) =
      decIdx s.inQ.rdIdx (resetStep s syncLink + 1) := by
    rw [h.inQ.rdIdx, resetStep_alike h syncLink hs]
  have hreset := @resetReqSlot_resumed _ _ _ happlied
    (decIdx s.inQ.rdIdx (resetStep s syncLink + 1)) (by rw [← hlast])
  unfold finishReq
  dsimp only
  rw [hidx]
  exact ⟨hreset.setOther, fun hm => (hreset.sent hm).frame rfl rfl rfl rfl rfl⟩

theorem retryReq_resumed (h : Resumed synced s t) (hsent : Sendable s t) (dev : Option Device)
    (hn : (s.inQ.slot s.inQ.rdIdx).status ≠ .noReq) :
    Resumed synced (retryReq s dev).1 (retryReq t dev).1 := by
  have hq : QueueAlike s.inQ.postponed t.inQ.postponed := by
    unfold ReqQueue.postponed
    rw [h.inQ.rdIdx]
    exact h.inQ.setStatus SlotStatus.noConfusion hn
  have hret : ∀ link : Link, ∃ cnt, (retryReq link dev).1 =
      { link with inQ := link.inQ.postponed, retryCnt := cnt } := by
    intro link
    unfold retryReq
    dsimp only
    split
    · exact ⟨_, rfl⟩
    · exact ⟨_, rfl⟩
  obtain ⟨cnt, hs⟩ := hret s
  obtain ⟨cnt', ht⟩ := hret t
  rw [hs, ht]
  exact ⟨(h.setInQ hq).setOther, fun _ => hsent.frame rfl rfl rfl rfl rfl⟩

def calls (events : List Event) : List Event :=
  events.filter fun
    | .errorMsg _ => false
    | _ => true

@[simp] theorem calls_append (a b : List Event) : calls (a ++ b) = calls a ++ calls b :=
  List.filter_append ..

theorem calls_retryReq (link : Link) (dev : Option Device) : calls (retryReq link dev).2 = [] := by
  unfold retryReq
  dsimp only
  split
  · cases dev <;> rfl
  · rfl

theorem finished_resumed (h : Alike synced s t) (hsent : Sendable s t) (syncLink : Option Link)
    (hs : syncLink.isSome = true → synced) (hn : (s.inQ.slot s.inQ.rdIdx).status ≠ .noReq) :
    Resumed synced (if s.triggerMask = s.subscribeEvent then finishReq s syncLink else s)
      (if t.triggerMask = t.subscribeEvent then finishReq t syncLink else t) := by
  rw [h.triggerMask, h.wiring.subscribeEvent]
  split
  · exact finishReq_resumed h syncLink hs hn
  · exact ⟨h, fun _ => hsent⟩

theorem applyReq_resumed (h : Alike synced s t) (hsent : Sendable s t) (env : Env)
    (hs : env.syncLink.isSome = true → synced) (trigger : ℕ)
    (hn : (s.inQ.slot s.inQ.rdIdx).status ≠ .noReq) :
    Resumed synced (applyReq s env trigger).1 (applyReq t env trigger).1 ∧
      calls (applyReq t env trigger).2 = calls (applyReq s env trigger).2 := by
  obtain ⟨hrc, hev, ha, hsent'⟩ := sendReq_alike h hsent env.applyRc trigger
  have hheld := (sendReq_held s env.applyRc trigger).inQ
  rw [← hheld] at hn
  unfold applyReq
  dsimp only
  rw [hrc, hev]
  split
  · refine ⟨retryReq_resumed ⟨ha, fun _ => hsent'⟩ hsent' _ hn, ?_⟩
    rw [calls_append, calls_append, calls_retryReq, calls_retryReq]
  · have hstate : ∀ link : Link, ((if link.state = .err then LinkState.ready else link.state) =
        .available ∨ (if link.state = .err then LinkState.ready else link.state) = .idle) ↔
        link.inactive := by
      intro link
      unfold Link.inactive
      cases link.state <;> simp
    have hmask := (ha.setTriggerMask ((sendReq s env.applyRc trigger).2.1.triggerMask ||| trigger)
      ((hstate _).trans (ha.inactive.trans (hstate _).symm)))
    rw [ha.triggerMask]
    exact ⟨finished_resumed hmask.setOther (hsent'.frame rfl rfl rfl rfl rfl) env.syncLink hs hn,
      rfl⟩

theorem frame_resumed (h : Checking synced s t) (hsent : s.triggerMask &&& sof ≠ 0 → Sendable s t)
    (env : Env) (hs : env.syncLink.isSome = true → synced)
    (hn : (s.inQ.slot s.inQ.rdIdx).status ≠ .noReq) :
    let frame : Link → Link × List Event := fun link =>
      if link.triggerMask ≠ 0 then (link, [])
      else
        let c := checkReq link env.syncLink
        if c.1 < 0 then
          ({ c.2.1 with inQ := setStatus c.2.1.inQ c.2.1.inQ.rdIdx .reqPending }, c.2.2)
        else
          let a := applyReq c.2.1 env sof
          (a.1, c.2.2 ++ a.2)
    Resumed synced (frame s).1 (frame t).1 ∧ calls (frame t).2 = calls (frame s).2 := by
  have hc := checkReq_alike h env.syncLink hs
  have hheld := checkReq_held s env.syncLink
  rw [← hheld.inQ] at hn
  dsimp only
  by_cases hm : s.triggerMask = 0
  · have hm' : t.triggerMask = 0 := h.triggerMask.trans hm
    rw [if_neg (not_not.mpr hm), if_neg (not_not.mpr hm'), hc.rc, hc.events]
    split
    · refine ⟨⟨hc.checking.toAlike.setInQ ?_, fun hsof => ?_⟩, rfl⟩
      · rw [hc.checking.inQ.rdIdx]
        exact hc.checking.inQ.setStatus SlotStatus.noConfusion hn
      · change (checkReq s env.syncLink).2.1.triggerMask &&& sof ≠ 0 at hsof
        rw [hheld.triggerMask, hm] at hsof
        exact absurd (Nat.zero_and _) hsof
    · rename_i hrc
      obtain ⟨ha, hcalls⟩ := applyReq_resumed hc.checking.toAlike (hc.sent hrc) env hs sof hn
      rw [calls_append, calls_append, hcalls]
      exact ⟨ha, rfl⟩
  · have hm' : t.triggerMask ≠ 0 := fun he => hm (h.triggerMask.symm.trans he)
    rw [if_pos hm, if_pos hm']
    exact ⟨⟨h.toAlike, hsent⟩, rfl⟩

theorem processReq_resumed (h : Resumed synced s t) (env : Env)
    (hs : env.syncLink.isSome = true → synced) (trigger sofTimestamp : ℕ) :
    Resumed synced (processReq s env trigger sofTimestamp).1
        (processReq t env trigger sofTimestamp).1 ∧
      calls (processReq t env trigger sofTimestamp).2 =
        calls (processReq s env trigger sofTimestamp).2 := by
  have hslot : (t.inQ.slot t.inQ.rdIdx).status = (s.inQ.slot s.inQ.rdIdx).status := by
    rw [h.inQ.slot, h.inQ.rdIdx]
  unfold processReq
  rw [hslot]
  by_cases hn : (s.inQ.slot s.inQ.rdIdx).status = .noReq
  · rw [if_pos hn, if_pos hn]
    exact ⟨h, rfl⟩
  rw [if_neg hn, if_neg hn]
  by_cases hother : trigger ≠ sof ∧ trigger ≠ eof
  · rw [if_pos hother, if_pos hother]
    exact ⟨h, rfl⟩
  rw [if_neg hother, if_neg hother]
  by_cases heof : trigger = eof
  · rw [if_pos heof, if_pos heof, h.triggerMask]
    split
    · exact ⟨h, rfl⟩
    · rename_i hm
      exact applyReq_resumed h.toAlike (h.sent hm) env hs trigger hn
  · have hsof : trigger = sof := by
      by_contra hne
      exact hother ⟨hne, heof⟩
    have hframe : Checking synced
        { s with prevSofTimestamp := s.sofTimestamp, sofTimestamp := sofTimestamp }
        { t with prevSofTimestamp := t.sofTimestamp, sofTimestamp := sofTimestamp } :=
      ⟨h.toAlike.setOther, rfl⟩
    rw [if_neg heof, if_neg heof, hsof]
    exact frame_resumed hframe (fun hm => (h.sent hm).frame rfl rfl rfl rfl rfl) env hs hn

theorem resetDoneSlot_resumed (h : Resumed synced s t) (n : TriggerNotify) :
    Resumed synced (resetDoneSlot s n) (resetDoneSlot t n) := by
  unfold resetDoneSlot
  rw [h.inQ.findSlot]
  split
  · split
    · exact h
    · rename_i idx hf
      let drop : Option ℕ → Option ℕ := fun last => if last = some idx then none else last
      have hdrop : ∀ link : Link, (if link.inQ.lastAppliedIdx = some idx then
          { link with inQ := { link.inQ with lastAppliedIdx := none } } else link) =
          { link with inQ := { link.inQ with lastAppliedIdx := drop link.inQ.lastAppliedIdx } } := by
        intro link
        dsimp only [drop]
        split <;> rfl
      have hnone : ∀ last : Option ℕ, drop last ≠ some idx := by
        intro last
        dsimp only [drop]
        split
        · exact fun hc => by cases hc
        · assumption
      have hdropped : Resumed synced
          { s with inQ := { s.inQ with lastAppliedIdx := drop s.inQ.lastAppliedIdx } }
          { t with inQ := { t.inQ with lastAppliedIdx := drop t.inQ.lastAppliedIdx } } :=
        ⟨h.setInQ ⟨h.inQ.slot, h.inQ.rdIdx, h.inQ.wrIdx, h.inQ.last.imp_left (congrArg drop),
          h.inQ.skipped⟩, fun hm => (h.sent hm).frame rfl rfl rfl rfl rfl⟩
      rw [hdrop, hdrop]
      exact resetReqSlot_resumed hdropped (iff_of_false (hnone _) (hnone _))
  · exact h

theorem checkNextReqSlot_resumed (h : Resumed synced s t)
    (ha : (s.inQ.slot s.inQ.rdIdx).status = .reqApplied) :
    (checkNextReqSlot t).1 = (checkNextReqSlot s).1 ∧
      Resumed synced (checkNextReqSlot s).2 (checkNextReqSlot t).2 := by
  have hlower : checkForLowerPdDevices t = checkForLowerPdDevices s := by
    unfold checkForLowerPdDevices
    rw [h.wiring.lDev, h.wiring.maxDelay]
  -- Something has been applied since the flush.
  have hnot : ¬ Unapplied s.inQ := by
    intro hu
    rcases hu s.inQ.rdIdx with hn | hn
    · exact absurd (hn.symm.trans ha) SlotStatus.noConfusion
    · exact hn.1 ha
  unfold checkNextReqSlot
  dsimp only
  rw [hlower, h.inQ.slot, h.inQ.rdIdx]
  split
  · split
    · exact ⟨rfl, h⟩
    · refine ⟨rfl, h.setInQ ?_, fun hm => (h.sent hm).frame rfl rfl rfl rfl rfl⟩
      have hidle : ({ s.inQ.slot (incIdx s.inQ.rdIdx 1) with
          reqId := -1, skipIdx := true, status := .reqAdded } : Slot).reqId < 0 :=
        (by decide : (-1 : ℤ) < 0)
      have hq := h.inQ.setSlot (incIdx s.inQ.rdIdx 1) (fun _ => hidle) fun hu => absurd hu hnot
      unfold inQSkipIdx
      rw [h.inQ.slot, h.inQ.wrIdx]
      exact ⟨hq.slot, hq.rdIdx, rfl, hq.last, hq.skipped⟩
  · exact ⟨rfl, h⟩

theorem processTrigger_resumed (h : Resumed synced s t) (n : TriggerNotify) (env : Env)
    (hs : env.syncLink.isSome = true → synced) :
    Resumed synced (processTrigger s n env).1 (processTrigger t n env).1 ∧
      calls (processTrigger t n env).2 = calls (processTrigger s n env).2 := by
  have hd := resetDoneSlot_resumed h n
  unfold processTrigger
  generalize resetDoneSlot s n = a at hd ⊢
  generalize resetDoneSlot t n = b at hd ⊢
  have hinactive : (b.state = .available ∨ b.state = .idle) ↔
      (a.state = .available ∨ a.state = .idle) := hd.inactive
  simp only [hinactive]
  split
  · exact ⟨hd, rfl⟩
  rw [hd.inQ.slot, hd.inQ.rdIdx]
  split
  · rename_i ha
    obtain ⟨hrc, hnext⟩ := checkNextReqSlot_resumed hd ha
    have hmoved : Resumed synced
        { (checkNextReqSlot a).2 with inQ := (checkNextReqSlot a).2.inQ.advanced }
        { (checkNextReqSlot b).2 with inQ := (checkNextReqSlot b).2.inQ.advanced } := by
      refine ⟨hnext.setInQ ?_, fun hm => (hnext.sent hm).frame rfl rfl rfl rfl rfl⟩
      unfold ReqQueue.advanced
      rw [hnext.inQ.rdIdx]
      exact hnext.inQ.setRdIdx _
    rw [hrc]
    split
    · exact ⟨hmoved, rfl⟩
    · exact processReq_resumed hmoved env hs ..
  · exact processReq_resumed hd env hs ..

theorem SlotAlike.added (h : SlotAlike a b) (r : AddRequest) (devMask devBit : ℕ) :
    SlotAlike (readyTblSlot (addTblSlot a r) devMask devBit)
        (readyTblSlot (addTblSlot b r) devMask devBit) ∧
      AppliedAgree (readyTblSlot (addTblSlot a r) devMask devBit)
        (readyTblSlot (addTblSlot b r) devMask devBit) := by
  have hadd : SlotAlike (addTblSlot a r) (addTblSlot b r) ∧
      AppliedAgree (addTblSlot a r) (addTblSlot b r) := by
    have hnone : ∀ x y : TblSlot, x.isApplied = false → y.isApplied = false → AppliedAgree x y :=
      fun x y hx hy => ⟨hy.trans hx.symm, fun hc => by rw [hx] at hc; cases hc⟩
    unfold addTblSlot
    dsimp only
    rw [h.injectDelay]
    split
    · exact ⟨⟨h.reqReadyMap, h.state, rfl, congrArg (_ || ·) h.skipNextFrame, fun _ => rfl,
        fun _ => hnone _ _ rfl rfl⟩, hnone _ _ rfl rfl⟩
    · exact ⟨⟨h.reqReadyMap, h.state, rfl, h.skipNextFrame, h.devHdl,
        fun _ => hnone _ _ rfl rfl⟩, hnone _ _ rfl rfl⟩
  obtain ⟨hs, ha⟩ := hadd
  unfold readyTblSlot
  rw [hs.reqReadyMap]
  exact ⟨⟨rfl, rfl, hs.injectDelay, hs.skipNextFrame, hs.devHdl, fun _ => ha⟩, ha⟩

theorem processAddReq_resumed (h : Resumed synced s t) (r : AddRequest) :
    Resumed synced (processAddReq s r) (processAddReq t r) := by
  have hfind : t.lDev.find? (·.devHdl = r.devHdl) = s.lDev.find? (·.devHdl = r.devHdl) := by
    rw [h.wiring.lDev]
  unfold processAddReq
  cases hdev : s.lDev.find? (·.devHdl = r.devHdl) with
  | none =>
    rw [hfind.trans hdev]
    exact h
  | some dev =>
    rw [hfind.trans hdev]
    cases hidx : findSlotForReq s.inQ r.reqId with
    | none =>
      rw [(h.inQ.findSlot _).trans hidx]
      exact h
    | some idx =>
      rw [(h.inQ.findSlot _).trans hidx]
      obtain ⟨hs, ha⟩ := (h.tbls.slot dev.pDelay idx).added r (s.tbl dev.pDelay).devMask dev.devBit
      dsimp only
      rw [h.wiring.shape.devMask]
      exact ⟨h.checked (setTbl_shape ..) (h.tbls.set _ _ hs)
        fun hsync => ⟨(h.sync hsync).initialSkip, (h.sync hsync).inMsyncMode⟩,
        fun hm => (h.sent hm).congr rfl rfl rfl fun pd i hpd => hpd.set ha⟩

theorem scheduleRequest_resumed (h : Resumed synced s t) (r : SchedRequest) (f : ℤ)
    (linked : Bool) :
    Resumed synced (scheduleRequest s r f linked).1 (scheduleRequest t r f linked).1 ∧
      (scheduleRequest t r f linked).2 = (scheduleRequest s r f linked).2 := by
  unfold scheduleRequest
  rw [h.lastFlushId]
  split
  · exact ⟨h, rfl⟩
  · rename_i hid
    -- Ids up to the last one flushed are refused, so that every request has a positive id.
    have hpos : 0 < r.reqId := lt_of_le_of_lt (Int.natCast_nonneg _) (not_le.mp hid)
    have hq : QueueAlike
        (s.inQ.written (schedSlot { r with bubbleEnable := bubbleEnable f r }))
        (t.inQ.written (schedSlot { r with bubbleEnable := bubbleEnable f r })) := by
      have hset := h.inQ.setSlot s.inQ.wrIdx
        (fun hc : (schedSlot { r with bubbleEnable := bubbleEnable f r }).skipIdx = true =>
          absurd hc Bool.false_ne_true) fun _ => .inr ⟨SlotStatus.noConfusion, hpos⟩
      unfold ReqQueue.written
      rw [h.inQ.wrIdx]
      exact ⟨hset.slot, hset.rdIdx, rfl, hset.last, hset.skipped⟩
    have hset : ∀ (cnt cnt' req req' : ℤ), Resumed synced
        { s with
          inQ := s.inQ.written (schedSlot { r with bubbleEnable := bubbleEnable f r })
          openReqCnt := cnt, lastFlushId := 0, initialSyncReq := req }
        { t with
          inQ := t.inQ.written (schedSlot { r with bubbleEnable := bubbleEnable f r })
          openReqCnt := cnt', lastFlushId := 0, initialSyncReq := req' } :=
      fun _ _ _ _ => ⟨h.toAlike.congr ⟨rfl, rfl, rfl, rfl, rfl, SameShape.refl _⟩
        ⟨rfl, rfl, rfl, rfl, rfl, SameShape.refl _⟩ hq h.tbls h.triggerMask h.inactive rfl
        fun hsync => ⟨(h.sync hsync).isMaster, (h.sync hsync).initialSkip,
          (h.sync hsync).inMsyncMode⟩, fun hm => (h.sent hm).frame rfl rfl rfl rfl rfl⟩
    unfold processSchedReq
    dsimp only
    split
    · refine ⟨?_, rfl⟩
      split
      · split
        · exact hset ..
        · exact hset ..
      · split
        · exact hset ..
        · exact hset ..
    · exact ⟨hset .., rfl⟩

theorem QueueAlike.rewound (h : QueueAlike q q')
    (hs : (q.slot idx).status = .reqPending ∨ (q.slot idx).status = .reqApplied) (linked : Bool) :
    QueueAlike (q.rewound idx linked) (q'.rewound idx linked) where
  slot := by
    unfold ReqQueue.rewound Crm.setStatus ReqQueue.setSlot
    rw [h.slot]
    cases linked <;> rfl
  rdIdx := by rw [(rewound_rdIdx ..).1, (rewound_rdIdx ..).1]
  wrIdx := by rw [(rewound_rdIdx ..).2, (rewound_rdIdx ..).2, h.wrIdx]
  last := by
    have hlast : ∀ q : ReqQueue, (q.rewound idx linked).lastAppliedIdx = q.lastAppliedIdx := by
      intro q
      cases linked <;> rfl
    rw [hlast, hlast]
    refine h.last.imp_right fun hu i => ?_
    obtain ⟨hst, hid, -⟩ := rewound_slot q idx linked i
    rw [hst, hid]
    by_cases hi : i = idx
    · rw [if_pos hi, hi]
      refine .inr ⟨SlotStatus.noConfusion, ((hu idx).resolve_left fun hn => ?_).2⟩
      rw [hn] at hs
      rcases hs with hs | hs <;> cases hs
    · rw [if_neg hi]
      exact hu i
  skipped i := by
    obtain ⟨-, hid, hskip⟩ := rewound_slot q idx linked i
    rw [hid, hskip]
    exact h.skipped i

def skipCnt (link : Link) (pd : PipelineDelay) : ℕ :=
  match link.lTbl with
  | [] => (link.tbl pd).skipTraverse
  | maxPd :: _ => maxPd.val - pd.val

theorem tblSetAllSkipCnt_eq (link : Link) :
    tblSetAllSkipCnt link =
      { link with tbl := fun pd => { link.tbl pd with skipTraverse := skipCnt link pd } } := by
  unfold tblSetAllSkipCnt
  split
  · rename_i hl
    have hcnt : ∀ pd, skipCnt link pd = (link.tbl pd).skipTraverse := by
      intro pd
      unfold skipCnt
      rw [hl]
    simp only [hcnt]
  · rename_i maxPd rest hl
    have hcnt : ∀ pd, skipCnt link pd = maxPd.val - pd.val := by
      intro pd
      unfold skipCnt
      rw [hl]
    simp only [hcnt]

theorem bubbleAt_resumed (h : Resumed synced s t) (linked : Bool)
    (hs : (s.inQ.slot idx).status = .reqPending ∨ (s.inQ.slot idx).status = .reqApplied) :
    Resumed synced (bubbleAt s idx linked) (bubbleAt t idx linked) := by
  have hshape : ∀ link : Link, SameShape link.tbl
      fun pd => { link.tbl pd with skipTraverse := skipCnt link pd } :=
    fun _ => ⟨fun _ => rfl, fun _ => rfl, fun _ => rfl⟩
  have htbls : TblsAlike (fun pd => { s.tbl pd with skipTraverse := skipCnt s pd })
      fun pd => { t.tbl pd with skipTraverse := skipCnt t pd } := by
    refine ⟨((hshape s).symm.trans h.wiring.shape).trans (hshape t), fun pd => ?_, h.tbls.slot⟩
    unfold skipCnt
    rw [h.wiring.lTbl, h.tbls.skipTraverse]
  unfold bubbleAt
  rw [tblSetAllSkipCnt_eq, tblSetAllSkipCnt_eq]
  exact ⟨h.toAlike.congr ⟨rfl, rfl, rfl, rfl, rfl, hshape s⟩ ⟨rfl, rfl, rfl, rfl, rfl, hshape t⟩
    (h.inQ.rewound hs linked) htbls h.triggerMask Iff.rfl h.lastFlushId fun hsync =>
      ⟨(h.sync hsync).isMaster, (h.sync hsync).initialSkip, (h.sync hsync).inMsyncMode⟩,
    fun hm => (h.sent hm).congr rfl rfl rfl fun _ _ hpd => hpd⟩

theorem processError_resumed (h : Resumed synced s t) (e : ErrorNotify) (env : Env)
    (hs : env.syncLink.isSome = true → synced) :
    Resumed synced (processError s e env).1 (processError t e env).1 ∧
      calls (processError t e env).2 = calls (processError s e env).2 := by
  have hrec : recoverIdx t e = recoverIdx s e := by
    unfold recoverIdx
    rw [h.inQ.findSlot, h.inQ.slot]
  unfold processError
  rw [hrec]
  cases hidx : recoverIdx s e with
  | none => exact ⟨h, rfl⟩
  | some idx =>
    have hstatus : (s.inQ.slot idx).status = .reqPending ∨
        (s.inQ.slot idx).status = .reqApplied := by
      unfold recoverIdx at hidx
      split at hidx
      · exact (of_decide_eq_true (Option.filter_eq_some_iff.mp hidx).2).2
      · cases hidx
    have hb := bubbleAt_resumed h env.syncLink.isSome hstatus
    obtain ⟨hp, hc⟩ := processReq_resumed hb env hs e.trigger e.sofTimestamp
    rw [calls_append, calls_append, hc, h.wiring.lDev]
    exact ⟨hp, rfl⟩

theorem flushReqSlot_wiring (link : Link) : SameWiring link (flushReqSlot link) :=
  ⟨rfl, rfl, rfl, rfl, rfl, fun _ => rfl, fun _ => rfl, fun _ => rfl⟩

theorem queueAlike_flushed (q q' : ReqQueue) : QueueAlike q.flushed q'.flushed :=
  ⟨rfl, rfl, rfl, .inr fun _ => .inl rfl, fun _ _ => (by decide : (-1 : ℤ) < 0)⟩

theorem flushReqSlot_resumed (h : Resumed synced s t) :
    Resumed synced (flushReqSlot s) (flushReqSlot t) :=
  ⟨h.toAlike.congr (flushReqSlot_wiring s) (flushReqSlot_wiring t) (queueAlike_flushed ..)
    ⟨((flushReqSlot_wiring s).shape.symm.trans h.wiring.shape).trans (flushReqSlot_wiring t).shape,
      h.tbls.skipTraverse, fun pd i => (h.tbls.slot pd i).reset⟩ h.triggerMask h.inactive
    h.lastFlushId fun hsync => ⟨(h.sync hsync).isMaster, (h.sync hsync).initialSkip,
      (h.sync hsync).inMsyncMode⟩, fun hm => (h.sent hm).congr rfl rfl rfl fun _ _ hpd => hpd⟩

def Input.looksAtSyncLink : Input → Bool
  | .trigger _ env => env.syncLink.isSome
  | .error _ env => env.syncLink.isSome
  | _ => false

def Input.cancels : Input → Bool
  | .flush f => f.type = .cancelReq
  | _ => false

theorem step_resumed (s t : Link) (input : Input) (h : Resumed synced s t)
    (hc : (input.looksAtSyncLink = true → synced) ∧ input.cancels = false) :
    Resumed synced (machine.step s input).1 (machine.step t input).1 ∧
      calls (machine.step t input).2 = calls (machine.step s input).2 := by
  cases input with
  | schedule r f linked =>
    obtain ⟨hs, hev⟩ := scheduleRequest_resumed h r f linked
    exact ⟨hs, congrArg calls hev⟩
  | addReq r => exact ⟨processAddReq_resumed h r, rfl⟩
  | trigger n env => exact processTrigger_resumed h n env hc.1
  | error e env => exact processError_resumed h e env hc.1
  | flush f =>
    have hf : f.type = .all := by
      cases hf : f.type with
      | all => rfl
      | cancelReq => exact absurd hf (of_decide_eq_false hc.2)
    have hid : Resumed synced { s with lastFlushId := (f.reqId % 2 ^ 32).toNat }
        { t with lastFlushId := (f.reqId % 2 ^ 32).toNat } :=
      ⟨h.toAlike.congr ⟨rfl, rfl, rfl, rfl, rfl, SameShape.refl _⟩
        ⟨rfl, rfl, rfl, rfl, rfl, SameShape.refl _⟩ h.inQ h.tbls h.triggerMask h.inactive rfl
        fun hsync => ⟨(h.sync hsync).isMaster, (h.sync hsync).initialSkip,
          (h.sync hsync).inMsyncMode⟩, fun hm => (h.sent hm).frame rfl rfl rfl rfl rfl⟩
    simp only [machine, processFlushReq, hf]
    refine ⟨flushReqSlot_resumed hid, ?_⟩
    rw [h.wiring.lDev]
  | stop => exact ⟨flushReqSlot_resumed h, rfl⟩
  | syncConfig peerMaxDelay =>
    have hset : ∀ (m : Bool) (i i' : Bool) (frame frame' : ℕ), (synced → i' = i) → Resumed synced
        { s with
          syncLinkSofSkip := false, isMaster := m, inMsyncMode := false, initialSyncReq := -1
          initialSkip := i, sofTimestamp := frame }
        { t with
          syncLinkSofSkip := false, isMaster := m, inMsyncMode := false, initialSyncReq := -1
          initialSkip := i', sofTimestamp := frame' } :=
      fun m i i' frame frame' hi => ⟨h.toAlike.congr ⟨rfl, rfl, rfl, rfl, rfl, SameShape.refl _⟩
        ⟨rfl, rfl, rfl, rfl, rfl, SameShape.refl _⟩ h.inQ h.tbls h.triggerMask h.inactive
        h.lastFlushId fun hsync => ⟨rfl, hi hsync, rfl⟩,
        fun hm => (h.sent hm).frame rfl rfl rfl rfl rfl⟩
    simp only [machine, syncConfig]
    cases peerMaxDelay with
    | none => exact ⟨hset _ _ _ _ _ fun _ => rfl, trivial⟩
    | some d =>
      dsimp only
      have hmaster : (decide (d < t.maxDelay)) = decide (d < s.maxDelay) := by
        rw [h.wiring.maxDelay]
      rw [hmaster]
      refine ⟨hset _ _ _ _ _ fun hsync => ?_, trivial⟩
      rw [h.wiring.maxDelay, (h.sync hsync).initialSkip]
  | linkControl activate =>
    refine ⟨⟨h.toAlike.congr ⟨rfl, rfl, rfl, rfl, rfl, SameShape.refl _⟩
      ⟨rfl, rfl, rfl, rfl, rfl, SameShape.refl _⟩ h.inQ h.tbls h.triggerMask ?_ h.lastFlushId
      fun hsync => ⟨(h.sync hsync).isMaster, (h.sync hsync).initialSkip,
        (h.sync hsync).inMsyncMode⟩, fun hm => (h.sent hm).frame rfl rfl rfl rfl rfl⟩, rfl⟩
    exact Iff.rfl
  | peer w =>
    have hset : ∀ (i i' m m' : Bool) (skip skip' : Bool) (req req' : ℤ), (synced → i' = i ∧ m' = m) →
        Resumed synced
          { s with
            syncLinkSofSkip := skip, initialSkip := i, inMsyncMode := m, initialSyncReq := req }
          { t with
            syncLinkSofSkip := skip', initialSkip := i', inMsyncMode := m', initialSyncReq := req' } :=
      fun i i' m m' skip skip' req req' hs => ⟨h.toAlike.checked (SameShape.refl _) h.tbls hs,
        fun hm => (h.sent hm).frame rfl rfl rfl rfl rfl⟩
    have hflags : synced → t.initialSkip = s.initialSkip ∧ t.inMsyncMode = s.inMsyncMode :=
      fun hsync => ⟨(h.sync hsync).initialSkip, (h.sync hsync).inMsyncMode⟩
    cases w with
    | sofSkip => exact ⟨hset _ _ _ _ _ _ _ _ hflags, rfl⟩
    | initialSkip => exact ⟨hset _ _ _ _ _ _ _ _ fun hsync => ⟨rfl, (hflags hsync).2⟩, rfl⟩
    | initialSyncReq => exact ⟨hset _ _ _ _ _ _ _ _ hflags, rfl⟩
    | leaveMsync => exact ⟨hset _ _ _ _ _ _ _ _ fun hsync => ⟨(hflags hsync).1, rfl⟩, rfl⟩

structure LeftoversAgree (synced : Prop) (s t : Link) : Prop where
  triggerMask : t.triggerMask = s.triggerMask
  inactive : t.inactive ↔ s.inactive
  skipTraverse : ∀ pd, (t.tbl pd).skipTraverse = (s.tbl pd).skipTraverse
  injectDelay : ∀ pd i, ((t.tbl pd).slot i).injectDelay = ((s.tbl pd).slot i).injectDelay
  skipNextFrame : ∀ pd i, ((t.tbl pd).slot i).skipNextFrame = ((s.tbl pd).slot i).skipNextFrame
  devHdl : ∀ pd i, ((s.tbl pd).slot i).skipNextFrame = true →
    ((t.tbl pd).slot i).devHdl = ((s.tbl pd).slot i).devHdl
  sent : s.triggerMask &&& sof ≠ 0 → Sendable s t
  sync : synced → SyncAgree s t

theorem LeftoversAgree.resumed (h : LeftoversAgree synced s t) (wired : Wired s)
    (wiring : SameWiring s t) {f : FlushInfo} (hf : f.type = .all) :
    Resumed synced (processFlushReq s f).1 (processFlushReq t f).1 := by
  have hflush : ∀ link : Link, (processFlushReq link f).1 =
      flushReqSlot { link with lastFlushId := (f.reqId % 2 ^ 32).toNat } := by
    intro link
    unfold processFlushReq
    rw [hf]
  rw [hflush, hflush]
  have hs := flushReqSlot_wiring { s with lastFlushId := (f.reqId % 2 ^ 32).toNat }
  have ht := flushReqSlot_wiring { t with lastFlushId := (f.reqId % 2 ^ 32).toNat }
  have hwired : Wired { s with lastFlushId := (f.reqId % 2 ^ 32).toNat } :=
    @SameWiring.wired s _ ⟨rfl, rfl, rfl, rfl, rfl, SameShape.refl _⟩ wired
  have hwiring : SameWiring { s with lastFlushId := (f.reqId % 2 ^ 32).toNat }
      { t with lastFlushId := (f.reqId % 2 ^ 32).toNat } :=
    ⟨wiring.lDev, wiring.maxDelay, wiring.pdMask, wiring.subscribeEvent, wiring.lTbl, wiring.shape⟩
  refine ⟨⟨hs.wired hwired, (hs.symm.trans hwiring).trans ht, queueAlike_flushed .., ?_,
    h.triggerMask, h.inactive, rfl, fun hsync => ?_⟩, fun hm => ?_⟩
  · refine ⟨(hs.shape.symm.trans hwiring.shape).trans ht.shape, h.skipTraverse, fun pd i => ?_⟩
    exact ⟨rfl, rfl, h.injectDelay pd i, h.skipNextFrame pd i, h.devHdl pd i,
      fun hc => absurd rfl hc⟩
  · exact ⟨(h.sync hsync).isMaster, (h.sync hsync).initialSkip, (h.sync hsync).inMsyncMode⟩
  · exact (h.sent hm).congr rfl rfl rfl fun _ _ hpd => hpd

/-- Whatever happened to a link before all its requests are flushed, what it is asked afterwards
decides the calls it makes in each step, as long as what the flush leaves behind is the same. -/
theorem flush_forgets (infos : List DevInfo) (before before' after : List Input) (f : FlushInfo)
    (hf : f.type = .all)
    (hl : LeftoversAgree (∃ i ∈ after, i.looksAtSyncLink = true)
      (machine.run (setupLinkInfo infos) before).1 (machine.run (setupLinkInfo infos) before').1)
    (hc : ∀ i ∈ after, i.cancels = false) :
    (machine.trace (machine.run (setupLinkInfo infos) (before' ++ [.flush f])).1 after).map calls =
      (machine.trace (machine.run (setupLinkInfo infos) (before ++ [.flush f])).1 after).map
        calls := by
  have hwiring := (run_wiring (setupLinkInfo infos) before).symm.trans
    (run_wiring (setupLinkInfo infos) before')
  have hstart := hl.resumed (wired_run infos before) hwiring hf
  rw [Machine.run_concat, Machine.run_concat]
  exact Machine.trace_eq_of_simulation _ step_resumed hstart fun i hi =>
    ⟨fun hlooks => ⟨i, hi, hlooks⟩, hc i hi⟩

def twoDevices : List DevInfo := [⟨10, 2, sof⟩, ⟨11, 1, sof⟩]

/-- A request that both devices add, and a frame. -/
def frame (reqId bubbleEnable : ℤ) : List Input :=
  [.schedule { reqId, bubbleEnable } 0 false, .addReq { devHdl := 10, reqId },
    .addReq { devHdl := 11, reqId }, .trigger { reqId := 0 } {}]

/-- Which request was applied before the flush makes no difference. -/
theorem applied_forgotten :
    (machine.trace (machine.run (setupLinkInfo twoDevices)
        (frame 2 1 ++ [.flush ⟨3, .all⟩])).1 (frame 4 0)).map calls =
      (machine.trace (machine.run (setupLinkInfo twoDevices)
        (frame 1 0 ++ [.flush ⟨3, .all⟩])).1 (frame 4 0)).map calls :=
  flush_forgets twoDevices (frame 1 0) (frame 2 1) (frame 4 0) ⟨3, .all⟩ rfl
    ⟨by decide +kernel, iff_of_false (by decide +kernel) (by decide +kernel), by decide +kernel,
      fun _ _ => rfl, fun _ _ => rfl, fun _ _ _ => rfl, fun hm => absurd (by decide +kernel) hm,
      fun _ => ⟨rfl, rfl, rfl⟩⟩ (by decide)

/-- A delay injected for a request that is flushed holds up the next request in its slot. -/
theorem flushed_delay_remains :
    (machine.trace (machine.run (setupLinkInfo twoDevices)
        ([.schedule { reqId := 1 } 0 false, .addReq ⟨10, 1, 1⟩] ++ [.flush ⟨1, .all⟩])).1
          (frame 2 0)).map calls ≠
      (machine.trace (machine.run (setupLinkInfo twoDevices)
        ([] ++ [.flush ⟨1, .all⟩])).1 (frame 2 0)).map calls := by
  decide +kernel

end KernelModules.Crm
