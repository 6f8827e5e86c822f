import KernelModules.CrmTasks

/-!
# What the tasks do to the input queue

Checking and sending a request changes the tables and some flags, never the queue. So a task
changes the queue by a few operations only: the read index moves on, a slot is freed, and the slot
at the read index is put off to a later frame or is applied.
-/

namespace KernelModules.Crm

def ReqQueue.freed (q : ReqQueue) (idx : ℕ) : ReqQueue :=
  if (q.slot idx).status = .reqAdded ∨ q.lastAppliedIdx = some idx then q
  else q.setSlot idx {}

def ReqQueue.applied (q : ReqQueue) : ReqQueue :=
  { setStatus q q.rdIdx .reqApplied with
    lastAppliedIdx := if 0 < (q.slot q.rdIdx).reqId then some q.rdIdx else q.lastAppliedIdx }

def ReqQueue.postponed (q : ReqQueue) : ReqQueue := setStatus q q.rdIdx .reqPending

def ReqQueue.advanced (q : ReqQueue) : ReqQueue := { q with rdIdx := incIdx q.rdIdx 1 }

def ReqQueue.idled (q : ReqQueue) : ReqQueue :=
  { inQSkipIdx q (incIdx q.rdIdx 1) with
    wrIdx := incIdx q.wrIdx 1
    rdIdx := incIdx q.rdIdx 1 }

theorem setSlot_slot (q : ReqQueue) (i j : ℕ) (s : Slot) :
    (q.setSlot i s).slot j = if j = i then s else q.slot j := by
  simp only [ReqQueue.setSlot, Function.update_apply]

@[simp] theorem setSlot_slot_self (q : ReqQueue) (i : ℕ) (s : Slot) :
    (q.setSlot i s).slot i = s := by
  rw [setSlot_slot, if_pos rfl]

theorem setSlot_slot_of_ne {q : ReqQueue} {i j : ℕ} {s : Slot} (h : j ≠ i) :
    (q.setSlot i s).slot j = q.slot j := by
  rw [setSlot_slot, if_neg h]

@[simp] theorem freed_rdIdx (q : ReqQueue) (i : ℕ) : (q.freed i).rdIdx = q.rdIdx := by
  unfold ReqQueue.freed
  split <;> rfl

@[simp] theorem freed_wrIdx (q : ReqQueue) (i : ℕ) : (q.freed i).wrIdx = q.wrIdx := by
  unfold ReqQueue.freed
  split <;> rfl

theorem freed_slot (q : ReqQueue) (i j : ℕ) :
    (q.freed i).slot j = q.slot j ∨
      (j = i ∧ (q.slot j).status ≠ .reqAdded ∧ (q.freed i).slot j = {}) := by
  unfold ReqQueue.freed
  by_cases h : (q.slot i).status = .reqAdded ∨ q.lastAppliedIdx = some i
  · rw [if_pos h]
    exact .inl rfl
  · rw [if_neg h, setSlot_slot]
    by_cases hj : j = i
    · subst hj
      exact .inr ⟨rfl, fun ha => h (.inl ha), if_pos rfl⟩
    · exact .inl (if_neg hj)

@[simp] theorem resetReqSlot_inQ (link : Link) (i : ℕ) :
    (resetReqSlot link i).inQ = link.inQ.freed i := by
  unfold resetReqSlot ReqQueue.freed
  split <;> rfl

@[simp] theorem resetReqSlot_openReqCnt (link : Link) (i : ℕ) :
    (resetReqSlot link i).openReqCnt = link.openReqCnt := by
  unfold resetReqSlot
  split <;> rfl

/-- The tables are laid out in the same way. -/
structure SameShape (tbl tbl' : PipelineDelay → ReqTbl) : Prop where
  devCount : ∀ pd, (tbl' pd).devCount = (tbl pd).devCount
  devMask : ∀ pd, (tbl' pd).devMask = (tbl pd).devMask
  pdDelta : ∀ pd, (tbl' pd).pdDelta = (tbl pd).pdDelta

theorem SameShape.refl (tbl : PipelineDelay → ReqTbl) : SameShape tbl tbl :=
  ⟨fun _ => rfl, fun _ => rfl, fun _ => rfl⟩

theorem SameShape.symm {a b : PipelineDelay → ReqTbl} (h : SameShape a b) : SameShape b a :=
  ⟨fun pd => (h.devCount pd).symm, fun pd => (h.devMask pd).symm, fun pd => (h.pdDelta pd).symm⟩

theorem SameShape.trans {a b c : PipelineDelay → ReqTbl} (h : SameShape a b) (k : SameShape b c) :
    SameShape a c :=
  ⟨fun pd => (k.devCount pd).trans (h.devCount pd), fun pd => (k.devMask pd).trans (h.devMask pd),
    fun pd => (k.pdDelta pd).trans (h.pdDelta pd)⟩

theorem SameShape.update {tbl : PipelineDelay → ReqTbl} {pd : PipelineDelay} {t : ReqTbl}
    (hc : t.devCount = (tbl pd).devCount) (hm : t.devMask = (tbl pd).devMask)
    (hd : t.pdDelta = (tbl pd).pdDelta) : SameShape tbl (Function.update tbl pd t) := by
  have h : ∀ i, (Function.update tbl pd t i).devCount = (tbl i).devCount ∧
      (Function.update tbl pd t i).devMask = (tbl i).devMask ∧
      (Function.update tbl pd t i).pdDelta = (tbl i).pdDelta := by
    intro i
    by_cases hi : i = pd
    · rw [hi, Function.update_self]
      exact ⟨hc, hm, hd⟩
    · rw [Function.update_of_ne hi]
      exact ⟨rfl, rfl, rfl⟩
  exact ⟨fun i => (h i).1, fun i => (h i).2.1, fun i => (h i).2.2⟩

theorem injectDelayFrom_shape (pds : List PipelineDelay) (idx : ℕ) (tbl : PipelineDelay → ReqTbl) :
    SameShape tbl (injectDelayFrom pds idx tbl).2 := by
  induction pds generalizing idx tbl with
  | nil => exact SameShape.refl tbl
  | cons pd next ih =>
    rw [injectDelayFrom]
    split
    · refine SameShape.trans ?_ (ih ..)
      exact SameShape.update rfl rfl rfl
    · exact ih ..

theorem Traverse.success_shape (inQ : ReqQueue) (validateOnly : Bool) (pd : PipelineDelay)
    (idx : ℕ) (d : Traverse) : SameShape d.tbl (d.success inQ validateOnly pd idx).tbl := by
  unfold Traverse.success
  split
  · exact SameShape.refl _
  · exact SameShape.update rfl rfl rfl

theorem traverse_shape (inQ : ReqQueue) (validateOnly : Bool) (pds : List PipelineDelay) (idx : ℕ)
    (d d' : Traverse) (h : traverse inQ validateOnly pds idx d = some d') :
    SameShape d.tbl d'.tbl := by
  induction pds generalizing idx d' with
  | nil =>
    obtain rfl := Option.some.inj h
    exact SameShape.refl _
  | cons pd next ih =>
    rw [traverse] at h
    by_cases hr : tblReady inQ d.tbl pd idx
    · rw [if_pos hr, Option.map_eq_some_iff] at h
      obtain ⟨d₁, h₁, rfl⟩ := h
      exact (ih _ d₁ h₁).trans (Traverse.success_shape ..)
    · rw [if_neg hr] at h
      cases h

/-- `link'` is `link` with other slots in its tables, other data to apply, and other flags
towards the sync link. -/
structure Held (link link' : Link) : Prop where
  inQ : link'.inQ = link.inQ
  openReqCnt : link'.openReqCnt = link.openReqCnt
  lDev : link'.lDev = link.lDev
  maxDelay : link'.maxDelay = link.maxDelay
  subscribeEvent : link'.subscribeEvent = link.subscribeEvent
  triggerMask : link'.triggerMask = link.triggerMask
  state : link'.state = link.state
  isMaster : link'.isMaster = link.isMaster
  lTbl : link'.lTbl = link.lTbl
  lastFlushId : link'.lastFlushId = link.lastFlushId
  pdMask : link'.pdMask = link.pdMask
  shape : SameShape link.tbl link'.tbl

theorem Held.refl (link : Link) : Held link link :=
  ⟨rfl, rfl, rfl, rfl, rfl, rfl, rfl, rfl, rfl, rfl, rfl, SameShape.refl _⟩

theorem Held.trans {a b c : Link} (h : Held a b) (k : Held b c) : Held a c :=
  ⟨k.inQ.trans h.inQ, k.openReqCnt.trans h.openReqCnt, k.lDev.trans h.lDev,
    k.maxDelay.trans h.maxDelay, k.subscribeEvent.trans h.subscribeEvent,
    k.triggerMask.trans h.triggerMask, k.state.trans h.state, k.isMaster.trans h.isMaster,
    k.lTbl.trans h.lTbl, k.lastFlushId.trans h.lastFlushId, k.pdMask.trans h.pdMask,
    h.shape.trans k.shape⟩

theorem Held.setTbl (link : Link) {tbl : PipelineDelay → ReqTbl}
    {applyData : PipelineDelay → Apply} {initial : Bool} (h : SameShape link.tbl tbl) :
    Held link { link with tbl := tbl, applyData := applyData, initialSkip := initial } :=
  ⟨rfl, rfl, rfl, rfl, rfl, rfl, rfl, rfl, rfl, rfl, rfl, h⟩

theorem Held.setFlags (link : Link) (applyData : PipelineDelay → Apply)
    (skip initial msync : Bool) (req : ℤ) :
    Held link { link with
      applyData := applyData
      syncLinkSofSkip := skip
      initialSkip := initial
      inMsyncMode := msync
      initialSyncReq := req } :=
  ⟨rfl, rfl, rfl, rfl, rfl, rfl, rfl, rfl, rfl, rfl, rfl, SameShape.refl _⟩

theorem injectDelay_held (link : Link) (idx : ℕ) : Held link (injectDelay link idx).2 :=
  Held.setTbl link (injectDelayFrom_shape ..)

theorem checkLinkIsReady_held (link : Link) (idx : ℕ) (validateOnly : Bool) :
    Held link (checkLinkIsReady link idx validateOnly).2 := by
  unfold checkLinkIsReady
  by_cases h : link.lTbl = []
  · rw [if_pos h]
    exact Held.setFlags ..
  · rw [if_neg h]
    cases ht : traverse link.inQ validateOnly link.lTbl idx
        ⟨link.tbl, if validateOnly then link.applyData else fun _ => {}, 0⟩ with
    | none => exact Held.setFlags ..
    | some d => exact Held.setTbl link (traverse_shape _ _ _ _ _ _ ht)

theorem checkOwnSlot_held (link : Link) (idx : ℕ) : Held link (checkOwnSlot link idx).2 := by
  have hi := injectDelay_held link idx
  unfold checkOwnSlot
  by_cases h : (injectDelay link idx).1 ≠ 0
  · rw [if_pos h]
    exact hi.trans (Held.setFlags ..)
  · rw [if_neg h]
    have hc := hi.trans (checkLinkIsReady_held (injectDelay link idx).2 idx true)
    by_cases hr : (checkLinkIsReady (injectDelay link idx).2 idx true).1 ≠ 0
    · rw [if_pos hr]
      exact hc.trans (Held.setFlags ..)
    · rw [if_neg hr]
      exact hc

theorem checkSyncSlot_held (link syncLink : Link) (syncReqId : ℤ) :
    Held link (checkSyncSlot link syncLink syncReqId).2.1 := by
  unfold checkSyncSlot
  split
  · split
    · exact Held.setFlags ..
    · split
      · exact Held.refl link
      · dsimp only
        split
        · exact Held.setFlags ..
        · exact Held.refl link
  · exact Held.refl link

theorem commitSync_held (link : Link) (idx : ℕ) (events : List Event) :
    Held link (commitSync link idx events).2.1 :=
  checkLinkIsReady_held link idx false

theorem checkMslaveReady_held (link syncLink : Link) (idx syncIdx : ℕ) :
    Held link (checkMslaveReady link syncLink idx syncIdx).2.1 := by
  have hown := checkOwnSlot_held link idx
  unfold checkMslaveReady
  dsimp only
  split
  · exact hown
  have hsync := hown.trans (checkSyncSlot_held _ syncLink (link.inQ.slot syncIdx).reqId)
  split
  · exact hsync
  · exact hsync.trans (commitSync_held _ idx _)

theorem checkSyncForMslave_held (link syncLink : Link) (idx : ℕ) :
    Held link (checkSyncForMslave link syncLink idx).2.1 := by
  unfold checkSyncForMslave
  dsimp only
  split
  · exact injectDelay_held link idx
  split
  · exact Held.refl link
  split
  · split
    · exact injectDelay_held link idx
    · exact checkMslaveReady_held ..
  · exact (Held.setFlags ..).trans (checkMslaveReady_held ..)

theorem selfCorrect_held (link syncLink : Link) (idx syncSlotIdx : ℕ) :
    Held link (selfCorrect link syncLink idx syncSlotIdx).2.1 := by
  unfold selfCorrect
  dsimp only
  split
  · split
    · exact Held.refl link
    split
    · exact (Held.setFlags ..).trans (commitSync_held _ idx _)
    split
    · exact Held.refl link
    · exact commitSync_held link idx _
  · exact commitSync_held link idx _

theorem checkSyncReady_held (rc : ℤ) (link syncLink : Link) (idx syncSlotIdx : ℕ) :
    Held link (checkSyncReady rc link syncLink idx syncSlotIdx).2.1 := by
  have hc := checkLinkIsReady_held link idx true
  unfold checkSyncReady
  dsimp only
  split
  · exact Held.refl link
  split
  · split
    · exact hc.trans (Held.setFlags ..)
    · exact hc
  split
  · exact hc
  · exact hc.trans (selfCorrect_held _ syncLink idx syncSlotIdx)

theorem checkSyncReqIsReady_held (link syncLink : Link) (idx : ℕ) :
    Held link (checkSyncReqIsReady link syncLink idx).2.1 := by
  have hi : Held link (injectDelay { link with initialSkip := false } idx).2 :=
    (Held.setFlags ..).trans (injectDelay_held _ idx)
  unfold checkSyncReqIsReady
  split
  · exact hi
  split
  · exact hi
  split
  · exact hi
  split
  · exact hi
  · exact hi.trans (checkSyncReady_held ..)

theorem leaveMsyncMode_held (link : Link) : Held link (leaveMsyncMode link) := by
  unfold leaveMsyncMode
  split
  · exact Held.setFlags ..
  · exact Held.refl link

theorem checkNoSync_held (link : Link) : Held link (checkNoSync link).2 := by
  have hi := (leaveMsyncMode_held link).trans (injectDelay_held _ link.inQ.rdIdx)
  unfold checkNoSync
  dsimp only
  split
  · exact hi
  · exact hi.trans (checkLinkIsReady_held ..)

theorem checkReq_held (link : Link) (syncLink : Option Link) :
    Held link (checkReq link syncLink).2.1 := by
  cases syncLink with
  | none => exact checkNoSync_held link
  | some syncLink =>
    unfold checkReq
    dsimp only
    split
    · exact checkNoSync_held link
    split
    · exact (Held.setFlags ..).trans (checkSyncForMslave_held ..)
    · exact checkSyncReqIsReady_held ..

theorem setTblSlot_held (link : Link) (dev : Device) (slot : TblSlot) :
    Held link (link.setTblSlot dev slot) :=
  Held.setTbl link (SameShape.update rfl rfl rfl)

theorem sendLoop_held (applyRc : ℤ → ℤ) (trigger : ℕ) (devs done : List Device) (rc : ℤ)
    (link : Link) : Held link (sendLoop applyRc trigger done rc devs link).2.1 := by
  induction devs generalizing done rc link with
  | nil => exact Held.refl link
  | cons dev devs ih =>
    rw [sendLoop]
    dsimp only
    split
    · exact ih ..
    split
    · exact (setTblSlot_held ..).trans (ih ..)
    split
    · exact Held.refl link
    · exact ih ..

theorem sendReq_held (link : Link) (applyRc : ℤ → ℤ) (trigger : ℕ) :
    Held link (sendReq link applyRc trigger).2.1 := by
  unfold sendReq
  split
  · split
    · exact Held.refl link
    · exact setTblSlot_held ..
  · exact sendLoop_held ..

/-- Nothing has happened to the slot at the read index, or it has been put off, or applied. -/
inductive Processed (q : ReqQueue) (cnt : ℤ) : ReqQueue → ℤ → Prop
  | kept : Processed q cnt q cnt
  | postponed (h : (q.slot q.rdIdx).status ≠ .noReq) : Processed q cnt q.postponed cnt
  | applied (h : (q.slot q.rdIdx).status ≠ .noReq) (step : ℕ) (hs : step ≤ 2) :
      Processed q cnt (q.applied.freed (decIdx q.rdIdx (step + 1)))
        (wrap32 (cnt - 1))

theorem resetStep_le (link : Link) (syncLink : Option Link) : resetStep link syncLink ≤ 2 := by
  unfold resetStep
  split
  · exact Nat.le_of_lt_succ link.maxDelay.isLt
  · rename_i s
    split
    · exact Nat.le_of_lt_succ s.maxDelay.isLt
    · exact Nat.le_of_lt_succ link.maxDelay.isLt

theorem finishReq_inQ (link : Link) (syncLink : Option Link) :
    (finishReq link syncLink).inQ =
      link.inQ.applied.freed (decIdx link.inQ.rdIdx (resetStep link syncLink + 1)) := by
  rw [finishReq, resetReqSlot_inQ]
  rfl

theorem finishReq_openReqCnt (link : Link) (syncLink : Option Link) :
    (finishReq link syncLink).openReqCnt = wrap32 (link.openReqCnt - 1) := by
  rw [finishReq, resetReqSlot_openReqCnt]

theorem retryReq_inQ (link : Link) (dev : Option Device) :
    (retryReq link dev).1.inQ = link.inQ.postponed ∧
      (retryReq link dev).1.openReqCnt = link.openReqCnt := by
  unfold retryReq
  dsimp only
  split <;> exact ⟨rfl, rfl⟩

theorem applyReq_processed (link : Link) (env : Env) (trigger : ℕ)
    (h : (link.inQ.slot link.inQ.rdIdx).status ≠ .noReq) :
    Processed link.inQ link.openReqCnt (applyReq link env trigger).1.inQ
      (applyReq link env trigger).1.openReqCnt := by
  have hs := sendReq_held link env.applyRc trigger
  unfold applyReq
  dsimp only
  split
  · rw [(retryReq_inQ _ _).1, (retryReq_inQ _ _).2, hs.inQ, hs.openReqCnt]
    exact .postponed h
  split
  · rw [finishReq_inQ, finishReq_openReqCnt]
    rw [hs.inQ, hs.openReqCnt]
    exact .applied h _ (resetStep_le ..)
  · rw [hs.inQ, hs.openReqCnt]
    exact .kept

theorem processReq_processed (link : Link) (env : Env) (trigger sofTimestamp : ℕ) :
    Processed link.inQ link.openReqCnt (processReq link env trigger sofTimestamp).1.inQ
      (processReq link env trigger sofTimestamp).1.openReqCnt := by
  unfold processReq
  by_cases h : (link.inQ.slot link.inQ.rdIdx).status = .noReq
  · rw [if_pos h]
    exact .kept
  rw [if_neg h]
  split
  · exact .kept
  split
  · split
    · exact .kept
    · exact applyReq_processed link env trigger h
  dsimp only
  split
  · exact .kept
  have hc := checkReq_held
    { link with prevSofTimestamp := link.sofTimestamp, sofTimestamp := sofTimestamp } env.syncLink
  split
  · rw [hc.inQ, hc.openReqCnt]
    exact .postponed h
  · have ha := applyReq_processed
      (checkReq { link with prevSofTimestamp := link.sofTimestamp, sofTimestamp := sofTimestamp }
        env.syncLink).2.1 env trigger
    rw [hc.inQ, hc.openReqCnt] at ha
    exact ha h

/-- The slot whose request has its buffers done is freed, even when it was applied last. -/
inductive Done (link : Link) (n : TriggerNotify) : ReqQueue → Prop
  | none : Done link n link.inQ
  | freed {idx : ℕ} (hs : n.trigger = sof) (hf : findSlotForReq link.inQ n.reqId = some idx)
      (last : Option ℕ) : Done link n (ReqQueue.freed { link.inQ with lastAppliedIdx := last } idx)

theorem resetDoneSlot_done (link : Link) (n : TriggerNotify) :
    Done link n (resetDoneSlot link n).inQ ∧
      (resetDoneSlot link n).openReqCnt = link.openReqCnt ∧
      (resetDoneSlot link n).lDev = link.lDev ∧
      (resetDoneSlot link n).maxDelay = link.maxDelay := by
  unfold resetDoneSlot
  split
  · rename_i hs
    split
    · exact ⟨.none, rfl, rfl, rfl⟩
    · rename_i idx hf
      have hfields : ∀ l : Link, (resetReqSlot l idx).lDev = l.lDev ∧
          (resetReqSlot l idx).maxDelay = l.maxDelay := by
        intro l
        unfold resetReqSlot
        split <;> exact ⟨rfl, rfl⟩
      rw [resetReqSlot_inQ, resetReqSlot_openReqCnt, (hfields _).1, (hfields _).2]
      split
      · exact ⟨.freed hs hf none, rfl, rfl, rfl⟩
      · exact ⟨.freed hs hf link.inQ.lastAppliedIdx, rfl, rfl, rfl⟩
  · exact ⟨.none, rfl, rfl, rfl⟩

/-- The read index moves on from an applied slot, and the queue is processed where it arrives
unless there is nothing to do there. -/
inductive Triggered (lower : Prop) (q : ReqQueue) (cnt : ℤ) : ReqQueue → ℤ → Prop
  | ignored : Triggered lower q cnt q cnt
  | stays {q' : ReqQueue} {cnt' : ℤ} (h : (q.slot q.rdIdx).status ≠ .reqApplied)
      (p : Processed q cnt q' cnt') : Triggered lower q cnt q' cnt'
  | halts (h : (q.slot q.rdIdx).status = .reqApplied)
      (hn : (q.slot (incIdx q.rdIdx 1)).status = .noReq) (hl : ¬ lower) :
      Triggered lower q cnt q.advanced cnt
  | moves {q' : ReqQueue} {cnt' : ℤ} (h : (q.slot q.rdIdx).status = .reqApplied)
      (hn : (q.slot (incIdx q.rdIdx 1)).status ≠ .noReq)
      (p : Processed q.advanced cnt q' cnt') : Triggered lower q cnt q' cnt'
  | idles {q' : ReqQueue} {cnt' : ℤ} (h : (q.slot q.rdIdx).status = .reqApplied)
      (hn : (q.slot (incIdx q.rdIdx 1)).status = .noReq) (hl : lower)
      (p : Processed q.idled cnt q' cnt') : Triggered lower q cnt q' cnt'

def LowerPd (link : Link) : Prop := checkForLowerPdDevices link = 0
deriving Decidable

theorem processTrigger_triggered (link : Link) (n : TriggerNotify) (env : Env) :
    Triggered (LowerPd link) (resetDoneSlot link n).inQ link.openReqCnt
      (processTrigger link n env).1.inQ (processTrigger link n env).1.openReqCnt := by
  obtain ⟨-, hcnt, hdev, hmax⟩ := resetDoneSlot_done link n
  have hlower : checkForLowerPdDevices (resetDoneSlot link n) = checkForLowerPdDevices link := by
    rw [checkForLowerPdDevices, checkForLowerPdDevices, hdev, hmax]
  rw [← hcnt]
  unfold processTrigger LowerPd
  rw [← hlower]
  generalize resetDoneSlot link n = l
  dsimp only
  split
  · exact .ignored
  by_cases ha : (l.inQ.slot l.inQ.rdIdx).status = .reqApplied
  · rw [if_pos ha, checkNextReqSlot]
    by_cases hn : (l.inQ.slot (incIdx l.inQ.rdIdx 1)).status = .noReq
    · rw [if_pos hn]
      by_cases hl : checkForLowerPdDevices l = 0
      · rw [if_neg (not_not.mpr hl), if_neg (not_not.mpr rfl)]
        exact .idles ha hn hl
          (processReq_processed { l with inQ := l.inQ.idled } env n.trigger n.sofTimestamp)
      · rw [if_pos hl, if_pos hl]
        exact .halts ha hn hl
    · rw [if_neg hn, if_neg (not_not.mpr rfl)]
      exact .moves ha hn
        (processReq_processed { l with inQ := l.inQ.advanced } env n.trigger n.sofTimestamp)
  · rw [if_neg ha]
    exact .stays ha (processReq_processed ..)

/-- The queue a bubble is recovered on. -/
def ReqQueue.rewound (q : ReqQueue) (idx : ℕ) (synced : Bool) : ReqQueue :=
  let q := setStatus { q with rdIdx := idx } idx .reqAdded
  if synced then
    let q := q.setSlot idx { q.slot idx with syncMode := 0 }
    q.setSlot (incIdx idx 1) { q.slot (incIdx idx 1) with syncMode := 0 }
  else q

theorem tblSetAllSkipCnt_held (link : Link) : Held link (tblSetAllSkipCnt link) := by
  unfold tblSetAllSkipCnt
  split
  · exact Held.refl link
  · exact Held.setTbl link ⟨fun _ => rfl, fun _ => rfl, fun _ => rfl⟩

theorem bubbleAt_inQ (link : Link) (idx : ℕ) (synced : Bool) :
    (bubbleAt link idx synced).inQ = link.inQ.rewound idx synced ∧
      (bubbleAt link idx synced).openReqCnt = wrap32 (link.openReqCnt + 1) := by
  have h := tblSetAllSkipCnt_held link
  unfold bubbleAt ReqQueue.rewound
  dsimp only
  rw [h.inQ, h.openReqCnt]
  exact ⟨rfl, rfl⟩

theorem processError_processed (link : Link) (e : ErrorNotify) (env : Env) :
    (recoverIdx link e = none ∧ processError link e env = (link, [])) ∨
      ∃ idx, recoverIdx link e = some idx ∧
        Processed (link.inQ.rewound idx env.syncLink.isSome) (wrap32 (link.openReqCnt + 1))
          (processError link e env).1.inQ (processError link e env).1.openReqCnt := by
  unfold processError
  cases h : recoverIdx link e with
  | none => exact .inl ⟨rfl, rfl⟩
  | some idx =>
    refine .inr ⟨idx, rfl, ?_⟩
    have hp := processReq_processed (bubbleAt link idx env.syncLink.isSome) env e.trigger
      e.sofTimestamp
    rw [(bubbleAt_inQ ..).1, (bubbleAt_inQ ..).2] at hp
    exact hp

def ReqQueue.flushed (q : ReqQueue) : ReqQueue :=
  { q with slot := fun _ => { skipIdx := true }, wrIdx := 0, rdIdx := 0 }

variable {link : Link} {r : SchedRequest}

theorem scheduleRequest_refused (f : ℤ) (synced : Bool)
    (h : r.reqId ≤ link.lastFlushId) : (scheduleRequest link r f synced).1 = link := by
  unfold scheduleRequest
  rw [if_pos h]

theorem scheduleRequest_accepted (f : ℤ) (synced : Bool)
    (h : ¬ r.reqId ≤ link.lastFlushId) :
    (scheduleRequest link r f synced).1.inQ =
        link.inQ.written (schedSlot { r with bubbleEnable := bubbleEnable f r }) ∧
      (scheduleRequest link r f synced).1.openReqCnt = wrap32 (link.openReqCnt + 1) := by
  unfold scheduleRequest processSchedReq
  rw [if_neg h]
  dsimp only
  split
  · split <;> exact ⟨rfl, rfl⟩
  · exact ⟨rfl, rfl⟩

theorem processAddReq_held (link : Link) (r : AddRequest) : Held link (processAddReq link r) := by
  unfold processAddReq
  split
  · exact Held.refl link
  split
  · exact Held.refl link
  · exact Held.setTbl link (SameShape.update rfl rfl rfl)

theorem peerWrite_held (w : PeerWrite) (link : Link) : Held link (w.apply link) := by
  cases w <;> exact Held.setFlags ..

theorem syncConfig_inQ (link : Link) (peerMaxDelay : Option PipelineDelay) :
    (syncConfig link peerMaxDelay).inQ = link.inQ ∧
      (syncConfig link peerMaxDelay).openReqCnt = link.openReqCnt := by
  cases peerMaxDelay <;> exact ⟨rfl, rfl⟩

theorem setupLinkInfo_inQ (infos : List DevInfo) :
    (setupLinkInfo infos).inQ = setupInQ ∧ (setupLinkInfo infos).openReqCnt = 0 ∧
      (setupLinkInfo infos).lastFlushId = 0 := by
  have hfold : ∀ (is : List DevInfo) (l : Link), (is.foldl setupDevice l).inQ = l.inQ ∧
      (is.foldl setupDevice l).openReqCnt = l.openReqCnt ∧
      (is.foldl setupDevice l).lastFlushId = l.lastFlushId := by
    intro is
    induction is with
    | nil => exact fun l => ⟨rfl, rfl, rfl⟩
    | cons i is ih =>
      intro l
      have hd : (setupDevice l i).inQ = l.inQ ∧ (setupDevice l i).openReqCnt = l.openReqCnt ∧
          (setupDevice l i).lastFlushId = l.lastFlushId := by
        unfold setupDevice
        dsimp only
        split <;> exact ⟨rfl, rfl, rfl⟩
      obtain ⟨h₁, h₂, h₃⟩ := ih (setupDevice l i)
      exact ⟨h₁.trans hd.1, h₂.trans hd.2.1, h₃.trans hd.2.2⟩
  obtain ⟨h₁, h₂, h₃⟩ := hfold infos
    { inQ := setupInQ, subscribeEvent := infos.foldl (fun m info => m ||| info.trigger) 0 }
  have hs := tblSetAllSkipCnt_held (infos.foldl setupDevice
    { inQ := setupInQ, subscribeEvent := infos.foldl (fun m info => m ||| info.trigger) 0 })
  exact ⟨hs.inQ.trans h₁, hs.openReqCnt.trans h₂, hs.lastFlushId.trans h₃⟩

def ReqQueue.cancelled (q : ReqQueue) (idx : ℕ) : ReqQueue :=
  inQSkipIdx (q.setSlot idx { q.slot idx with additionalTimeout := 0 }) idx

/-- Everything is flushed, or the request is cancelled, or there is none that could be. -/
inductive Flushed (link : Link) (f : FlushInfo) : ReqQueue → Prop
  | all (h : f.type = .all) : Flushed link f link.inQ.flushed
  | kept (h : f.type = .cancelReq) (hk : ∀ idx, findSlotForReq link.inQ f.reqId = some idx →
      (link.inQ.slot idx).status = .reqPending ∨ (link.inQ.slot idx).status = .reqApplied) :
      Flushed link f link.inQ
  | cancelled {idx : ℕ} (h : f.type = .cancelReq)
      (hf : findSlotForReq link.inQ f.reqId = some idx)
      (hs : ¬ ((link.inQ.slot idx).status = .reqPending ∨
        (link.inQ.slot idx).status = .reqApplied)) :
      Flushed link f (link.inQ.cancelled idx)

theorem processFlushReq_flushed (link : Link) (f : FlushInfo) :
    Flushed link f (processFlushReq link f).1.inQ ∧
      (processFlushReq link f).1.openReqCnt = link.openReqCnt := by
  unfold processFlushReq cancelReq
  cases ht : f.type with
  | all => exact ⟨.all ht, rfl⟩
  | cancelReq =>
    cases hf : findSlotForReq link.inQ f.reqId with
    | none =>
      refine ⟨.kept ht fun idx hi => ?_, rfl⟩
      rw [hf] at hi
      cases hi
    | some idx =>
      dsimp only
      by_cases hs : (link.inQ.slot idx).status = .reqPending ∨
          (link.inQ.slot idx).status = .reqApplied
      · rw [if_pos hs]
        refine ⟨.kept ht fun i hi => ?_, rfl⟩
        rw [hf] at hi
        obtain rfl := Option.some.inj hi
        exact hs
      · rw [if_neg hs]
        exact ⟨.cancelled ht hf hs, rfl⟩

end KernelModules.Crm
