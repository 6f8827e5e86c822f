import KernelModules.CrmRing
import KernelModules.CrmWiring

/-!
# The read index reaches every slot that waits

The read index stops for good at an empty slot. As long as none lies between it and a slot that
waits, each frame whose devices are all ready applies the next slot, so that the request is reached
after as many such frames as its slot lies ahead.
-/

namespace KernelModules.Crm

open List

variable {q q' : ReqQueue} {cnt cnt' : ℤ} {link : Link} {n : TriggerNotify} {env : Env}
  {i idx : ℕ} {req : ℤ}

/-- No slot from the read index up to slot `i` is empty. The last three slots of the ring are about
to be freed, and hold nothing but what waits. -/
def Filled (q : ReqQueue) (i : ℕ) : Prop :=
  ∀ j < 48, distance j q.rdIdx < distance i q.rdIdx →
    (q.slot j).status ≠ .noReq ∧ (45 ≤ distance j q.rdIdx → (q.slot j).waiting = true)

instance (q : ReqQueue) (i : ℕ) : Decidable (Filled q i) :=
  inferInstanceAs (Decidable (∀ j < 48, _ → _))

/-- The request waits in slot `i`, and the read index can reach it. -/
structure Queued (i : ℕ) (req : ℤ) (q : ReqQueue) : Prop where
  openId : (q.slot i).openId = some req
  filled : Filled q i

theorem not_noReq_of_waiting {slot : Slot} (h : slot.waiting = true) : slot.status ≠ .noReq := by
  rcases waiting_iff.mp h with hs | hs <;> rw [hs] <;> exact SlotStatus.noConfusion

theorem Queued.waiting (h : Queued i req q) : (q.slot i).waiting = true :=
  (eq_of_openId_eq_some h.openId).1

theorem Queued.ne_rdIdx (h : Queued i req q) (ha : (q.slot q.rdIdx).status = .reqApplied) :
    i ≠ q.rdIdx := by
  rintro rfl
  exact not_waiting_of_applied ha h.waiting

theorem Queued.congr (h : Queued i req q) (hrd : q'.rdIdx = q.rdIdx)
    (ho : (q'.slot i).openId = (q.slot i).openId)
    (hs : ∀ j < 48, distance j q.rdIdx < distance i q.rdIdx →
      (q'.slot j).status = (q.slot j).status ∨ (q'.slot j).status = .reqAdded ∨
        j = q.rdIdx ∧ (q'.slot j).status ≠ .noReq) : Queued i req q' := by
  refine ⟨ho.trans h.openId, fun j hj hlt => ?_⟩
  rw [hrd] at hlt ⊢
  obtain ⟨hne, hlast⟩ := h.filled j hj hlt
  rw [waiting_iff] at hlast ⊢
  rcases hs j hj hlt with he | he | ⟨rfl, he⟩
  · rw [he]
    exact ⟨hne, hlast⟩
  · rw [he]
    exact ⟨SlotStatus.noConfusion, fun _ => .inl rfl⟩
  · rw [distance_self]
    exact ⟨he, fun h45 => absurd h45 (by decide)⟩

theorem incIdx_ne (i : ℕ) : incIdx i 1 ≠ i := by
  rw [incIdx_eq]
  omega

/-- Each table of the chain is ready for the slot it stands at, which no device delays or keeps
others from. -/
def ChainReady (inQ : ReqQueue) (tbl : PipelineDelay → ReqTbl) : List PipelineDelay → ℕ → Prop
  | [], _ => True
  | pd :: next, idx =>
    (((tbl pd).slot idx).injectDelay = 0 ∧ ((tbl pd).slot idx).skipNextFrame = false ∧
      tblReady inQ tbl pd idx) ∧ ChainReady inQ tbl next (decIdx idx (tbl pd).pdDelta)

instance decidableChainReady (inQ : ReqQueue) (tbl : PipelineDelay → ReqTbl) :
    ∀ l idx, Decidable (ChainReady inQ tbl l idx)
  | [], _ => isTrue trivial
  | pd :: next, idx =>
    have := decidableChainReady inQ tbl next (decIdx idx (tbl pd).pdDelta)
    inferInstanceAs (Decidable (_ ∧ ChainReady inQ tbl next _))

/-- The devices take the request of a slot at this trigger, the last one the link waits for. An
end of frame sends what the start of the frame has found ready. -/
def CanApply (link : Link) (env : Env) (trigger idx : ℕ) : Prop :=
  link.triggerMask ||| trigger = link.subscribeEvent ∧
    (∀ dev ∈ link.lDev, 0 ≤ env.applyRc dev.devHdl) ∧
    ((trigger = sof ∧ link.triggerMask = 0 ∧
        (env.syncLink.isNone ∨ (link.inQ.slot idx).syncMode ≠ syncModeSync) ∧
        link.lTbl ≠ [] ∧ ChainReady link.inQ link.tbl link.lTbl idx) ∨
      (trigger = eof ∧ link.triggerMask &&& sof ≠ 0 ∧
        ∀ dev ∈ link.lDev, (link.tblSlot dev).skipNextFrame = false))
deriving Decidable

/-- The slot the next trigger is for. -/
def ReqQueue.due (q : ReqQueue) : ℕ :=
  if (q.slot q.rdIdx).status = .reqApplied then incIdx q.rdIdx 1 else q.rdIdx

/-- A trigger at which the devices take the request that is due, once the slot of the buffers that
are done is free. -/
def Completes (link : Link) : Input → Prop
  | .trigger n env =>
    let link := resetDoneSlot link n
    (link.state = .ready ∨ link.state = .err) ∧ CanApply link env n.trigger link.inQ.due
  | _ => False

instance (link : Link) (input : Input) : Decidable (Completes link input) := by
  rcases input with _ | _ | _ | _ | _ | _ | _ | _ | _ <;> unfold Completes <;> infer_instance

theorem ChainReady.setRd {inQ : ReqQueue} {tbl : PipelineDelay → ReqTbl} {l : List PipelineDelay}
    (h : ChainReady inQ tbl l idx) (rd : ℕ) : ChainReady { inQ with rdIdx := rd } tbl l idx := by
  induction l generalizing idx with
  | nil => trivial
  | cons pd next ih => exact ⟨h.1, ih h.2⟩

theorem injectDelayFrom_ready {inQ : ReqQueue} {tbl : PipelineDelay → ReqTbl}
    {l : List PipelineDelay} (h : ChainReady inQ tbl l idx) : injectDelayFrom l idx tbl = (0, tbl) := by
  induction l generalizing idx with
  | nil => rfl
  | cons pd next ih =>
    obtain ⟨⟨hinject, -⟩, hnext⟩ := h
    have hz : ¬ 0 < ((tbl pd).slot idx).injectDelay := Nat.not_lt.mpr hinject.le
    rw [injectDelayFrom]
    rw [if_neg hz, if_neg hz, ih hnext]

theorem traverse_ready {inQ : ReqQueue} {l : List PipelineDelay} {d : Traverse}
    (h : ChainReady inQ d.tbl l idx) : ∃ d', traverse inQ false l idx d = some d' ∧
      (∀ b, d'.result.testBit b = true ↔ d.result.testBit b = true ∨ ∃ p ∈ l, p.val = b) ∧
      (∀ pd, (d'.tbl pd).slot = (d.tbl pd).slot) ∧
      ∀ p ∈ l, ((d.tbl p).slot (d'.applyData p).idx).skipNextFrame = false := by
  induction l generalizing idx with
  | nil => exact ⟨d, rfl, by simp, fun _ => rfl, fun p hp => absurd hp List.not_mem_nil⟩
  | cons pd next ih =>
    obtain ⟨⟨-, hskip, hready⟩, hnext⟩ := h
    obtain ⟨d', heq, hbits, hslots, hskips⟩ := ih hnext
    refine ⟨d'.success inQ false pd idx, ?_, fun b => ?_, fun p => ?_, fun p hp => ?_⟩
    · rw [traverse, if_pos hready, heq, Option.map_some]
    · change (d'.result ||| 1 <<< pd.val).testBit b = true ↔ _
      rw [testBit_or_bit, hbits]
      simp only [List.mem_cons, exists_eq_or_imp, eq_comm (b := b)]
      rw [or_assoc, or_comm (b := b = pd.val)]
    · change (Function.update d'.tbl pd _ p).slot = _
      by_cases he : p = pd
      · rw [he, Function.update_self]
        exact hslots pd
      · rw [Function.update_of_ne he]
        exact hslots p
    · change ((d.tbl p).slot (Function.update d'.applyData pd _ p).idx).skipNextFrame = false
      by_cases he : p = pd
      · rw [he, Function.update_self]
        exact hskip
      · rw [Function.update_of_ne he]
        exact hskips p ((List.mem_cons.mp hp).resolve_left he)

theorem checkLinkIsReady_ready (hw : Wired link) (hmask : link.pdMask < 2 ^ 3)
    (hne : link.lTbl ≠ []) (h : ChainReady link.inQ link.tbl link.lTbl idx) :
    (checkLinkIsReady link idx false).1 = 0 ∧
      ∀ dev ∈ link.lDev,
        ((checkLinkIsReady link idx false).2.tblSlot dev).skipNextFrame = false := by
  obtain ⟨d', heq, hbits, hslots, hskips⟩ :=
    traverse_ready (d := ⟨link.tbl, fun _ => {}, 0⟩) h
  have hresult : d'.result = link.pdMask := by
    refine Nat.eq_of_testBit_eq fun b => Bool.eq_iff_iff.mpr ?_
    rw [hbits]
    simp only [Nat.zero_testBit, Bool.false_eq_true, false_or]
    by_cases hb : b < 3
    · rw [show b = (⟨b, hb⟩ : PipelineDelay).val from rfl, hw.pdMask]
      exact ⟨fun ⟨p, hp, he⟩ => Fin.ext he ▸ hp, fun hp => ⟨_, hp, rfl⟩⟩
    · have hlt := hmask.trans_le (Nat.pow_le_pow_right Nat.two_pos (Nat.not_lt.mp hb))
      rw [Nat.testBit_lt_two_pow hlt]
      refine iff_of_false (fun ⟨p, _, he⟩ => hb (he ▸ p.isLt)) Bool.false_ne_true
  unfold checkLinkIsReady
  dsimp only
  rw [if_neg hne]
  simp only [Bool.false_eq_true, if_false, heq, hresult, if_true]
  refine ⟨trivial, fun dev hdev => ?_⟩
  have hskip := hskips dev.pDelay (hw.mem dev hdev)
  change (((d'.tbl dev.pDelay).slot (d'.applyData dev.pDelay).idx).skipNextFrame) = false
  rw [hslots]
  exact hskip

theorem checkNoSync_ready (hw : Wired link) (hmask : link.pdMask < 2 ^ 3)
    (hne : link.lTbl ≠ []) (h : ChainReady link.inQ link.tbl link.lTbl link.inQ.rdIdx) :
    (checkNoSync link).1 = 0 ∧
      ∀ dev ∈ link.lDev, ((checkNoSync link).2.tblSlot dev).skipNextFrame = false := by
  have hleave : ∃ msync req, leaveMsyncMode link =
      { link with inMsyncMode := msync, initialSyncReq := req } := by
    unfold leaveMsyncMode
    split
    · exact ⟨_, _, rfl⟩
    · exact ⟨link.inMsyncMode, link.initialSyncReq, rfl⟩
  obtain ⟨msync, req, hleave⟩ := hleave
  have hw' := (leaveMsyncMode_held link).sameWiring.wired hw
  unfold checkNoSync
  rw [hleave] at hw' ⊢
  have hinject : injectDelay { link with inMsyncMode := msync, initialSyncReq := req }
      link.inQ.rdIdx = (0, { link with inMsyncMode := msync, initialSyncReq := req }) := by
    unfold injectDelay
    dsimp only
    rw [injectDelayFrom_ready h]
  rw [hinject]
  exact checkLinkIsReady_ready hw' hmask hne h

theorem checkReq_ready (hw : Wired link) (hmask : link.pdMask < 2 ^ 3)
    (hsync : env.syncLink.isNone ∨ (link.inQ.slot link.inQ.rdIdx).syncMode ≠ syncModeSync)
    (hne : link.lTbl ≠ []) (h : ChainReady link.inQ link.tbl link.lTbl link.inQ.rdIdx) :
    (checkReq link env.syncLink).1 = 0 ∧
      ∀ dev ∈ link.lDev, ((checkReq link env.syncLink).2.1.tblSlot dev).skipNextFrame = false := by
  have hcheck := checkNoSync_ready hw hmask hne h
  cases hl : env.syncLink with
  | none => exact hcheck
  | some syncLink =>
    rw [hl] at hsync
    have hmode := hsync.resolve_left Bool.false_ne_true
    unfold checkReq
    dsimp only
    rw [if_pos hmode]
    exact hcheck

theorem sendLoop_ready {applyRc : ℤ → ℤ} {trigger : ℕ} {devs done : List Device} {rc : ℤ}
    (h : ∀ dev ∈ devs, 0 ≤ applyRc dev.devHdl) (hrc : 0 ≤ rc) :
    0 ≤ (sendLoop applyRc trigger done rc devs link).1 := by
  induction devs generalizing done rc link with
  | nil => exact hrc
  | cons dev devs ih =>
    obtain ⟨hdev, hdevs⟩ := List.forall_mem_cons.mp h
    rw [sendLoop]
    dsimp only
    split
    · exact ih hdevs hrc
    split
    · exact ih hdevs hrc
    · rw [if_neg (Int.not_lt.mpr hdev)]
      exact ih hdevs hdev

theorem applyReq_ready {trigger : ℕ} (hmask : link.triggerMask ||| trigger = link.subscribeEvent)
    (hrc : ∀ dev ∈ link.lDev, 0 ≤ env.applyRc dev.devHdl)
    (hskip : ∀ dev ∈ link.lDev, (link.tblSlot dev).skipNextFrame = false) :
    ∃ step ≤ 2, (applyReq link env trigger).1.inQ =
      link.inQ.applied.freed (decIdx link.inQ.rdIdx (step + 1)) := by
  have hsend : 0 ≤ (sendReq link env.applyRc trigger).1 := by
    have hnone : link.lDev.find? (skipsNextFrame link trigger) = none := by
      refine List.find?_eq_none.mpr fun dev hdev => ?_
      unfold skipsNextFrame
      rw [hskip dev hdev]
      simp
    unfold sendReq
    rw [hnone]
    exact sendLoop_ready hrc le_rfl
  have hheld := sendReq_held link env.applyRc trigger
  unfold applyReq
  dsimp only
  rw [if_neg (Int.not_lt.mpr hsend), hheld.triggerMask, hheld.subscribeEvent, if_pos hmask,
    finishReq_inQ, hheld.inQ]
  exact ⟨_, resetStep_le .., rfl⟩

theorem processReq_ready {trigger sofTimestamp : ℕ} (hw : Wired link)
    (hmask : link.pdMask < 2 ^ 3) (hq : (link.inQ.slot link.inQ.rdIdx).status ≠ .noReq)
    (h : CanApply link env trigger link.inQ.rdIdx) :
    ∃ step ≤ 2, (processReq link env trigger sofTimestamp).1.inQ =
      link.inQ.applied.freed (decIdx link.inQ.rdIdx (step + 1)) := by
  obtain ⟨hsub, hrc, hsof | heof⟩ := h
  · obtain ⟨rfl, hzero, hsync, hne, hready⟩ := hsof
    have hsame : SameWiring link { link with
        prevSofTimestamp := link.sofTimestamp, sofTimestamp := sofTimestamp } :=
      ⟨rfl, rfl, rfl, rfl, rfl, SameShape.refl _⟩
    obtain ⟨hrc₀, hskip⟩ := checkReq_ready (hsame.wired hw) hmask hsync hne hready
    have hheld := checkReq_held { link with
      prevSofTimestamp := link.sofTimestamp, sofTimestamp := sofTimestamp } env.syncLink
    unfold processReq
    rw [if_neg hq, if_neg (by simp), if_neg (by decide)]
    dsimp only
    rw [if_neg (not_not.mpr hzero), if_neg (hrc₀ ▸ Int.lt_irrefl 0)]
    generalize checkReq { link with
      prevSofTimestamp := link.sofTimestamp, sofTimestamp := sofTimestamp } env.syncLink = c
      at hheld hskip ⊢
    rw [← hheld.lDev] at hrc hskip
    rw [← hheld.triggerMask, ← hheld.subscribeEvent] at hsub
    have happly := applyReq_ready hsub hrc hskip
    rwa [hheld.inQ] at happly
  · obtain ⟨rfl, hsof, hskip⟩ := heof
    unfold processReq
    rw [if_neg hq, if_neg (by simp), if_pos rfl, if_neg hsof]
    exact applyReq_ready hsub hrc hskip

/-- The slot the next trigger is for holds a request. -/
theorem Queued.due_held (h : Queued i req q) (hrd : q.rdIdx < 48) (hi : i < 48) :
    (q.slot q.due).status ≠ .noReq := by
  have hwaits : ∀ j, j = i → (q.slot j).status ≠ .noReq := by
    rintro j rfl
    exact not_noReq_of_waiting h.waiting
  unfold ReqQueue.due
  by_cases ha : (q.slot q.rdIdx).status = .reqApplied
  · rw [if_pos ha]
    have hinc : incIdx q.rdIdx 1 < 48 := incIdx_lt ..
    by_cases he : incIdx q.rdIdx 1 = i
    · exact hwaits _ he
    · refine (h.filled _ hinc ?_).1
      have hd := distance_inc hi hrd (h.ne_rdIdx ha)
      have hone := distance_inc hinc hrd (incIdx_ne q.rdIdx)
      rw [distance_self] at hone
      have hpos := distance_pos hi hinc (Ne.symm he)
      omega
  · rw [if_neg ha]
    by_cases he : q.rdIdx = i
    · exact hwaits _ he
    · refine (h.filled _ hrd ?_).1
      rw [distance_self]
      exact distance_pos hi hrd (Ne.symm he)

theorem resetDoneSlot_wiring (link : Link) (n : TriggerNotify) :
    SameWiring link (resetDoneSlot link n) := by
  unfold resetDoneSlot
  split
  · split
    · exact SameWiring.refl link
    · refine SameWiring.trans ?_ (resetReqSlot_wiring ..)
      split
      · exact ⟨rfl, rfl, rfl, rfl, rfl, SameShape.refl _⟩
      · exact SameWiring.refl link
  · exact SameWiring.refl link

theorem processTrigger_completes (hw : Wired link) (hmask : link.pdMask < 2 ^ 3)
    (hq : ((resetDoneSlot link n).inQ.slot (resetDoneSlot link n).inQ.due).status ≠ .noReq)
    (h : Completes link (.trigger n env)) :
    (processTrigger link n env).1.inQ.rdIdx = (resetDoneSlot link n).inQ.due ∧
      ((processTrigger link n env).1.inQ.slot (resetDoneSlot link n).inQ.due).status =
        .reqApplied := by
  have hsame := resetDoneSlot_wiring link n
  have hw' := hsame.wired hw
  rw [← hsame.pdMask] at hmask
  dsimp only [Completes] at h
  unfold processTrigger
  generalize resetDoneSlot link n = l at h hq hw' hmask ⊢
  obtain ⟨hstate, hcan⟩ := h
  have happlied : ∀ (l' : Link), (∃ step ≤ 2, l'.inQ =
      { l.inQ with rdIdx := l.inQ.due }.applied.freed (decIdx l.inQ.due (step + 1))) →
        l'.inQ.rdIdx = l.inQ.due ∧ (l'.inQ.slot l.inQ.due).status = .reqApplied := by
    rintro l' ⟨step, hs, heq⟩
    rw [heq, freed_rdIdx]
    exact ⟨rfl, applied_freed_status { l.inQ with rdIdx := l.inQ.due } hs⟩
  dsimp only
  have hrunning : ¬ (l.state = .available ∨ l.state = .idle) := by
    rcases hstate with hs | hs <;> simp [hs]
  rw [if_neg hrunning]
  by_cases ha : (l.inQ.slot l.inQ.rdIdx).status = .reqApplied
  · have hdue : l.inQ.due = incIdx l.inQ.rdIdx 1 := if_pos ha
    have hnext : checkNextReqSlot l = (0, l) := by
      unfold checkNextReqSlot
      rw [hdue] at hq
      exact if_neg hq
    have hsame' : SameWiring l { l with inQ := { l.inQ with rdIdx := l.inQ.due } } :=
      ⟨rfl, rfl, rfl, rfl, rfl, SameShape.refl _⟩
    have hcan' : CanApply { l with inQ := { l.inQ with rdIdx := l.inQ.due } } env n.trigger
        l.inQ.due :=
      ⟨hcan.1, hcan.2.1, hcan.2.2.imp_left fun ⟨hs, hm, hsync, hne, hready⟩ =>
        ⟨hs, hm, hsync, hne, hready.setRd _⟩⟩
    rw [if_pos ha, hnext, if_neg (not_not.mpr rfl), ← hdue]
    exact happlied _ (processReq_ready (hsame'.wired hw') hmask hq hcan')
  · have hdue : l.inQ.due = l.inQ.rdIdx := if_neg ha
    rw [if_neg ha]
    rw [hdue] at happlied hq hcan ⊢
    exact happlied _ (processReq_ready hw' hmask hq hcan)

/-- How many requests are applied until the one in slot `i` is. -/
def ReqQueue.turns (q : ReqQueue) (i : ℕ) : ℕ :=
  distance i q.rdIdx + if (q.slot q.rdIdx).status = .reqApplied then 0 else 1

theorem turns_le (q : ReqQueue) (i : ℕ) : q.turns i ≤ distance i q.rdIdx + 1 := by
  unfold ReqQueue.turns
  split <;> omega

theorem turns_of_applied (ha : (q.slot q.rdIdx).status = .reqApplied) :
    q.turns i = distance i q.rdIdx := by
  unfold ReqQueue.turns
  rw [if_pos ha]
  rfl

theorem turns_of_not_applied (ha : (q.slot q.rdIdx).status ≠ .reqApplied) :
    q.turns i = distance i q.rdIdx + 1 := by
  unfold ReqQueue.turns
  rw [if_neg ha]

theorem turns_pos (hr : Ring q) (hi : i < 48) (hw : (q.slot i).waiting = true) : 0 < q.turns i := by
  by_cases ha : (q.slot q.rdIdx).status = .reqApplied
  · rw [turns_of_applied ha]
    refine distance_pos hi hr.rd ?_
    rintro rfl
    exact not_waiting_of_applied ha hw
  · rw [turns_of_not_applied ha]
    omega

/-- The request in slot `i` has been applied at the read index. -/
def AppliedAt (q : ReqQueue) (i : ℕ) (req : ℤ) : Prop :=
  q.rdIdx = i ∧ (q.slot i).status = .reqApplied ∧ (q.slot i).reqId = req

theorem Processed.queued (p : Processed q cnt q' cnt') (hr : Ring q) (h : Queued i req q) :
    AppliedAt q' i req ∨ Queued i req q' := by
  obtain ⟨hw, hskip, hreq⟩ := eq_of_openId_eq_some h.openId
  cases p with
  | kept => exact .inr h
  | postponed =>
    refine .inr (h.congr rfl ?_ fun j _ _ => ?_)
    · change ((q.setSlot q.rdIdx _).slot i).openId = _
      rw [setSlot_slot]
      split
      next he =>
        rw [he] at hw hskip ⊢
        rw [openId_eq_some hw hskip]
        exact openId_eq_some rfl hskip
      next => rfl
    · change ((q.setSlot q.rdIdx _).slot j).status = _ ∨ _ ∨
        j = q.rdIdx ∧ ((q.setSlot q.rdIdx _).slot j).status ≠ _
      rw [setSlot_slot]
      split
      next he => exact .inr (.inr ⟨he, SlotStatus.noConfusion⟩)
      next => exact .inl rfl
  | applied _ step hs =>
    have hk : decIdx q.rdIdx (step + 1) < 48 := decIdx_lt hr.rd
    have hge : 45 ≤ distance (decIdx q.rdIdx (step + 1)) q.rdIdx := distance_decIdx hr.rd hs
    have hsame : ∀ j, j ≠ q.rdIdx → q.applied.slot j = q.slot j := fun j => setSlot_slot_of_ne
    -- The slot that is freed does not wait: one that was put off lies nearer.
    have hfreed : ∀ j, j ≠ q.rdIdx → (j = decIdx q.rdIdx (step + 1) → (q.slot j).waiting = true) →
        (q.applied.freed (decIdx q.rdIdx (step + 1))).slot j = q.slot j := by
      intro j hj hwait
      rcases freed_slot q.applied (decIdx q.rdIdx (step + 1)) j with heq | ⟨he, hna, -⟩
      · rw [heq, hsame j hj]
      · rw [hsame j hj] at hna
        have hp := (waiting_iff.mp (hwait he)).resolve_left hna
        rw [he] at hp
        exact absurd (hr.pending _ hk hp) (Nat.not_lt.mpr hge)
    by_cases he : i = q.rdIdx
    · refine .inl ⟨(freed_rdIdx ..).trans he.symm, ?_, ?_⟩
      · rw [he]
        exact applied_freed_status q hs
      · rcases freed_slot q.applied (decIdx q.rdIdx (step + 1)) i with heq | ⟨h, -⟩
        · rw [heq, he]
          rw [he] at hreq
          exact (congrArg Slot.reqId (setSlot_slot_self ..)).trans hreq
        · exact absurd (h.symm.trans he) (decIdx_ne _ _ hs)
    · refine .inr (h.congr (freed_rdIdx ..) ?_ fun j _ hlt => ?_)
      · rw [hfreed i he fun _ => hw]
      · by_cases hj : j = q.rdIdx
        · refine .inr (.inr ⟨hj, ?_⟩)
          rw [hj, applied_freed_status q hs]
          exact SlotStatus.noConfusion
        · refine .inl (congrArg Slot.status (hfreed j hj ?_))
          rintro rfl
          exact (h.filled _ hk hlt).2 hge

theorem Queued.advanced (h : Queued i req q) (hr : Ring q) (hi : i < 48)
    (ha : (q.slot q.rdIdx).status = .reqApplied) : Queued i req q.advanced := by
  refine ⟨h.openId, fun j hj hlt => ?_⟩
  change distance j (incIdx q.rdIdx 1) < distance i (incIdx q.rdIdx 1) at hlt
  change (q.slot j).status ≠ .noReq ∧
    (45 ≤ distance j (incIdx q.rdIdx 1) → (q.slot j).waiting = true)
  have hdi := distance_inc hi hr.rd (h.ne_rdIdx ha)
  have hli := distance_lt i q.rdIdx
  have hj' : j ≠ q.rdIdx := by
    rintro rfl
    rw [distance_inc_self hr.rd] at hlt
    omega
  have hdj := distance_inc hj hr.rd hj'
  obtain ⟨hne, hlast⟩ := h.filled j hj (by omega)
  exact ⟨hne, fun h45 => hlast (by omega)⟩

theorem Triggered.queued {lower : Prop} (t : Triggered lower q cnt q' cnt') (hr : Ring q)
    (hi : i < 48) (h : Queued i req q) :
    AppliedAt q' i req ∨ (Queued i req q' ∧ q'.turns i ≤ q.turns i) := by
  have hdue := h.due_held hr.rd hi
  have hnext : (q.slot q.rdIdx).status = .reqApplied →
      (q.slot (incIdx q.rdIdx 1)).status ≠ .noReq := by
    intro ha
    rwa [ReqQueue.due, if_pos ha] at hdue
  cases t with
  | ignored => exact .inr ⟨h, le_rfl⟩
  | stays ha p =>
    refine (p.queued hr h).imp_right fun h' => ⟨h', ?_⟩
    have hle := turns_le q' i
    rwa [p.rdIdx_eq.1, ← turns_of_not_applied ha] at hle
  | halts ha hn => exact absurd hn (hnext ha)
  | moves ha _ p =>
    refine (p.queued (hr.advanced ha) (h.advanced hr hi ha)).imp_right fun h' => ⟨h', ?_⟩
    have hle := turns_le q' i
    rw [p.rdIdx_eq.1] at hle
    rw [turns_of_applied ha, ← distance_inc hi hr.rd (h.ne_rdIdx ha)]
    exact hle
  | idles ha hn => exact absurd hn (hnext ha)

theorem turns_congr (hrd : q'.rdIdx = q.rdIdx)
    (hs : (q'.slot q.rdIdx).status = .reqApplied ↔ (q.slot q.rdIdx).status = .reqApplied) :
    q'.turns i = q.turns i := by
  unfold ReqQueue.turns
  rw [hrd, ite_congr (propext hs) (fun _ => rfl) fun _ => rfl]

/-- The steps that leave the slots up to slot `i` alone: no bubble takes the queue back, and a
request whose buffers are done lies behind. -/
def KeepsMoving (i : ℕ) (link : Link) : Input → Prop
  | .trigger n _ =>
    n.trigger = sof → ∀ k ∈ findSlotForReq link.inQ n.reqId,
      (link.inQ.slot k).status = .reqApplied → distance i link.inQ.rdIdx ≤ distance k link.inQ.rdIdx
  | .error e _ => recoverIdx link e = none
  | _ => True

instance (i : ℕ) (link : Link) (input : Input) : Decidable (KeepsMoving i link input) := by
  rcases input with _ | _ | _ | _ | _ | _ | _ | _ | _ <;> unfold KeepsMoving <;> infer_instance

def KeepsOn (i : ℕ) (link : Link) (input : Input) : Prop :=
  KeepsRing link input ∧ KeepsMoving i link input
deriving Decidable

/-- The request in slot `i` is applied, cancelled or flushed at this step. -/
def Settles (i : ℕ) (req : ℤ) (link : Link) : Input → Prop
  | .trigger n env => AppliedAt (processTrigger link n env).1.inQ i req
  | .flush f => f.type = .all ∨ f.type = .cancelReq ∧ findSlotForReq link.inQ f.reqId = some i
  | .stop => True
  | _ => False

structure Waits (i : ℕ) (req : ℤ) (link : Link) : Prop where
  ring : Ring link.inQ
  wired : Wired link
  pdMask : link.pdMask < 2 ^ 3
  queued : Queued i req link.inQ

/-- Freeing the slot of the buffers that are done does not touch the slots up to slot `i`. -/
theorem Queued.done (h : Queued i req link.inQ) (hr : Ring link.inQ) (hi : i < 48)
    (d : Done link n q) (hc : KeepsOn i link (.trigger n env)) :
    Queued i req q ∧ q.turns i = link.inQ.turns i := by
  cases d with
  | none => exact ⟨h, rfl⟩
  | @freed k hs hf last =>
    have hk := (findSlotForReq_spec hr.rd hf).1
    have hp := hc.1 hs k hf
    have hmoving := hc.2 hs k hf
    have hslot : ∀ j, (link.inQ.slot j).status ≠ .noReq →
        (j = k → (link.inQ.slot j).status = .reqApplied →
          distance j link.inQ.rdIdx < distance i link.inQ.rdIdx) →
        (ReqQueue.freed { link.inQ with lastAppliedIdx := last } k).slot j = link.inQ.slot j := by
      intro j hne hbefore
      rcases freed_slot { link.inQ with lastAppliedIdx := last } k j with heq | ⟨rfl, hna, -⟩
      · exact heq
      · cases hst : (link.inQ.slot j).status with
        | noReq => exact absurd hst hne
        | reqAdded => exact absurd hst hna
        | reqPending => exact absurd hst hp
        | reqApplied => exact absurd (hbefore rfl hst) (Nat.not_lt.mpr (hmoving hst))
    have hi' := hslot i (not_noReq_of_waiting h.waiting) fun _ ha =>
      absurd h.waiting (not_waiting_of_applied ha)
    refine ⟨h.congr (freed_rdIdx ..) (congrArg Slot.openId hi') fun j hj hlt => ?_, ?_⟩
    · exact .inl (congrArg Slot.status (hslot j (h.filled j hj hlt).1 fun _ _ => hlt))
    · refine turns_congr (freed_rdIdx ..) ?_
      by_cases he : link.inQ.rdIdx = i
      · rw [he, hi']
      · have hlt : distance link.inQ.rdIdx link.inQ.rdIdx < distance i link.inQ.rdIdx := by
          rw [distance_self]
          exact distance_pos hi hr.rd (Ne.symm he)
        rw [hslot _ (h.filled _ hr.rd hlt).1 fun _ _ => hlt]

theorem cancelled_status {q : ReqQueue} (hs : (q.slot idx).status = .reqAdded) (j : ℕ) :
    ((q.cancelled idx).slot j).status = (q.slot j).status := by
  by_cases hj : j = idx
  · rw [hj, hs]
    exact congrArg Slot.status (setSlot_slot_self ..)
  · have hslot : (q.cancelled idx).slot j = q.slot j :=
      (setSlot_slot_of_ne hj).trans (setSlot_slot_of_ne hj)
    rw [hslot]

theorem Waits.trigger (hi : i < 48) (h : Waits i req link) (hc : KeepsOn i link (.trigger n env)) :
    AppliedAt (processTrigger link n env).1.inQ i req ∨
      (Queued i req (processTrigger link n env).1.inQ ∧
        (processTrigger link n env).1.inQ.turns i +
          (if Completes link (.trigger n env) then 1 else 0) ≤ link.inQ.turns i) := by
  have hd := (resetDoneSlot_done link n).1
  have hr := h.ring.done hd
  obtain ⟨hq, hturns⟩ := h.queued.done h.ring hi hd hc
  rw [← hturns]
  rcases (processTrigger_triggered link n env).queued hr hi hq with ha | ⟨hq', hle⟩
  · exact .inl ha
  refine .inr ⟨hq', ?_⟩
  by_cases hcomp : Completes link (.trigger n env)
  · obtain ⟨hrd, ha⟩ := processTrigger_completes h.wired h.pdMask (hq.due_held hr.rd hi) hcomp
    rw [if_pos hcomp, turns_of_applied (hrd.symm ▸ ha), hrd]
    unfold ReqQueue.due
    by_cases happ : ((resetDoneSlot link n).inQ.slot (resetDoneSlot link n).inQ.rdIdx).status =
        .reqApplied
    · rw [if_pos happ, turns_of_applied happ, distance_inc hi hr.rd (hq.ne_rdIdx happ)]
    · rw [if_neg happ, turns_of_not_applied happ]
  · rw [if_neg hcomp]
    exact hle

/-- The slot that is written is not that of the request, nor one before it. -/
theorem Waits.schedule {r : SchedRequest} {f : ℤ} {synced : Bool} (hi : i < 48)
    (h : Waits i req link) (hc : KeepsOn i link (.schedule r f synced)) :
    Queued i req (scheduleRequest link r f synced).1.inQ ∧
      (scheduleRequest link r f synced).1.inQ.turns i ≤ link.inQ.turns i := by
  by_cases ha : r.reqId ≤ link.lastFlushId
  · rw [congrArg Link.inQ (scheduleRequest_refused f synced ha)]
    exact ⟨h.queued, le_rfl⟩
  have hfull := hc.1 (not_le.mp ha)
  have hwr := h.ring.wrIdx_not_waiting hfull
  rw [(scheduleRequest_accepted f synced ha).1]
  generalize hslot : schedSlot { r with bubbleEnable := bubbleEnable f r } = slot
  have hother : ∀ j, j ≠ link.inQ.wrIdx → (link.inQ.written slot).slot j = link.inQ.slot j :=
    fun j hj => setSlot_slot_of_ne hj
  have hi' : i ≠ link.inQ.wrIdx := by
    intro he
    have hw := h.queued.waiting
    rw [he, hwr] at hw
    cases hw
  have hne : link.inQ.rdIdx ≠ link.inQ.wrIdx := by
    intro he
    have hw := h.queued.waiting
    rw [hfull he.symm i hi] at hw
    cases hw
  have hturns : (link.inQ.written slot).turns i = link.inQ.turns i :=
    turns_congr rfl (by rw [hother _ hne])
  refine ⟨h.queued.congr rfl (by rw [hother i hi']) fun j _ _ => ?_, hturns.le⟩
  by_cases he : j = link.inQ.wrIdx
  · refine .inr (.inl ?_)
    rw [he, ← hslot]
    exact congrArg Slot.status (setSlot_slot_self ..)
  · exact .inl (congrArg Slot.status (hother j he))

/-- A request that waits is settled, or it waits on and is no farther away; it is nearer after a
frame whose devices have taken a request. -/
theorem Waits.queue_step {input : Input} (hi : i < 48) (h : Waits i req link)
    (hc : KeepsOn i link input) :
    Settles i req link input ∨ (Queued i req (machine.step link input).1.inQ ∧
      (machine.step link input).1.inQ.turns i + (if Completes link input then 1 else 0) ≤
        link.inQ.turns i) := by
  have hsame : ∀ link' : Link, link'.inQ = link.inQ →
      Queued i req link'.inQ ∧ link'.inQ.turns i + 0 ≤ link.inQ.turns i := by
    intro link' heq
    rw [heq]
    exact ⟨h.queued, le_rfl⟩
  cases input with
  | schedule r f synced => exact .inr (h.schedule hi hc)
  | addReq r => exact .inr (hsame _ (processAddReq_held link r).inQ)
  | trigger n env => exact h.trigger hi hc
  | error e env =>
    refine .inr (hsame _ ?_)
    rcases processError_processed link e env with ⟨-, heq⟩ | ⟨idx, hsome, -⟩
    · exact congrArg (fun r : Link × List Event => r.1.inQ) heq
    · rw [hc.2] at hsome
      cases hsome
  | flush f =>
    change (f.type = .all ∨ f.type = .cancelReq ∧ findSlotForReq link.inQ f.reqId = some i) ∨
      (Queued i req (processFlushReq link f).1.inQ ∧
        (processFlushReq link f).1.inQ.turns i + 0 ≤ _)
    obtain ⟨hf, -⟩ := processFlushReq_flushed link f
    generalize (processFlushReq link f).1.inQ = q at hf ⊢
    cases hf with
    | all ht => exact .inl (.inl ht)
    | kept => exact .inr (hsame link rfl)
    | @cancelled idx ht hf hs =>
      have hst := cancelled_status (h.ring.added_of_found (hc.1 ht) hf hs)
      by_cases he : i = idx
      · exact .inl (.inr ⟨ht, hf.trans (congrArg some he.symm)⟩)
      · have hslot : (link.inQ.cancelled idx).slot i = link.inQ.slot i :=
          (setSlot_slot_of_ne he).trans (setSlot_slot_of_ne he)
        have hturns : (link.inQ.cancelled idx).turns i = link.inQ.turns i :=
          turns_congr rfl (by rw [hst])
        exact .inr ⟨h.queued.congr rfl (by rw [hslot]) fun j _ _ => .inl (hst j), hturns.le⟩
  | stop => exact .inl trivial
  | syncConfig d => exact .inr (hsame _ (syncConfig_inQ link d).1)
  | linkControl a => exact .inr (hsame _ rfl)
  | peer w => exact .inr (hsame _ (peerWrite_held w link).inQ)

theorem Waits.step {input : Input} (hi : i < 48) (h : Waits i req link)
    (hc : KeepsOn i link input) :
    Settles i req link input ∨ (Waits i req (machine.step link input).1 ∧
      (machine.step link input).1.inQ.turns i + (if Completes link input then 1 else 0) ≤
        link.inQ.turns i) := by
  have hcov : Covered (link, []) := ⟨h.ring, List.nil_subperm⟩
  have hwiring := step_wiring link input
  refine (h.queue_step hi hc).imp_right fun ⟨hq, hle⟩ => ⟨⟨?_, hwiring.wired h.wired, ?_, hq⟩, hle⟩
  · exact (covered_step hcov hc.1).1
  · exact hwiring.pdMask.trans_lt h.pdMask

theorem pdMask_setup (infos : List DevInfo) : (setupLinkInfo infos).pdMask < 2 ^ 3 := by
  have hfold : ∀ (is : List DevInfo) (l : Link), l.pdMask < 2 ^ 3 →
      (is.foldl setupDevice l).pdMask < 2 ^ 3 := by
    intro is
    induction is with
    | nil => exact fun l hl => hl
    | cons info is ih =>
      refine fun l hl => ih _ ?_
      have hbit : 1 <<< info.pDelay.val < 2 ^ 3 := by
        rw [Nat.one_shiftLeft]
        exact Nat.pow_lt_pow_right (by decide) info.pDelay.isLt
      unfold setupDevice
      dsimp only
      split
      · exact hl
      · exact Nat.or_lt_two_pow hl hbit
  have hs := tblSetAllSkipCnt_held (infos.foldl setupDevice
    { inQ := setupInQ, subscribeEvent := infos.foldl (fun m info => m ||| info.trigger) 0 })
  refine (hs.pdMask.trans_lt ?_)
  exact hfold infos _ (Nat.two_pow_pos 3)

/-- In a run that never schedules into a full ring no request is written over another one that
waits, and every request that has been accepted and not applied, cancelled or flushed since has
a slot of its own that waits for it. The slot lies ahead of the read index. As long as no slot
before it is empty and no bubble takes the queue back, the request is applied, cancelled or flushed
within as many frames whose devices take a request as there are slots to go. -/
theorem requests_kept (infos : List DevInfo) (is : List Input)
    (h : machine.Meets KeepsRing (setupLinkInfo infos) is) :
    let link := (machine.run (setupLinkInfo infos) is).1
    machine.Meets WritesFreeSlot (setupLinkInfo infos) is ∧
      ((machine.monitored outstanding).run (setupLinkInfo infos, []) is).1.2 <+~
        openIds link.inQ ∧
      ∀ i < 48, ∀ req, (link.inQ.slot i).openId = some req →
        (link.inQ.wrIdx ≠ link.inQ.rdIdx → Ahead link.inQ i) ∧
          (Filled link.inQ i → ∀ js, machine.Meets (KeepsOn i) link js →
            link.inQ.turns i ≤ machine.count Completes link js →
              machine.Occurs (Settles i req) link js) := by
  have hinit : Covered (setupLinkInfo infos, []) := ⟨ring_setup infos, List.nil_subperm⟩
  have hm := (machine.monitored_meets outstanding KeepsRing (setupLinkInfo infos, []) is).mpr h
  have hrun := Machine.invariant_of_meets _ (fun p i => covered_step) hinit hm
  unfold Covered at hrun
  rw [(machine.monitored_run outstanding (setupLinkInfo infos, []) is).1] at hrun
  obtain ⟨hr, hids⟩ := hrun
  refine ⟨?_, hids, fun i hi req ho => ⟨fun hne => ?_, fun hf js hjs hle => ?_⟩⟩
  · rw [← machine.monitored_meets outstanding WritesFreeSlot (setupLinkInfo infos, []) is]
    refine Machine.meets_of_invariant _ (fun p i => covered_step) (fun p i hp hc => ?_) hinit hm
    cases i with
    | schedule r f synced => exact fun ha => hp.1.wrIdx_not_waiting (hc ha)
    | _ => trivial
  · exact hr.ahead hne i hi (eq_of_openId_eq_some ho).1
  · have hmask := (run_wiring (setupLinkInfo infos) is).pdMask.trans_lt (pdMask_setup infos)
    have hwaits : Waits i req (machine.run (setupLinkInfo infos) is).1 :=
      ⟨hr, wired_run infos is, hmask, ho, hf⟩
    exact machine.occurs_of_count (fun l => l.inQ.turns i) (fun l input hl hc => hl.step hi hc)
      (fun l hl => turns_pos hl.ring hi hl.queued.waiting) hwaits hjs hle

/-- Two requests are applied, the second is taken back by a bubble, and a third is cancelled. -/
def bubbleRun : List Input :=
  [.schedule { reqId := 1 } 0 false, .addReq { devHdl := 10, reqId := 1 },
    .trigger { reqId := 0 } {}, .schedule { reqId := 2, bubbleEnable := 1 } 0 false,
    .addReq { devHdl := 10, reqId := 2 }, .trigger { reqId := 0 } {},
    .schedule { reqId := 3 } 0 false, .error { reqId := 2, trigger := 0 } {},
    .flush ⟨3, .cancelReq⟩, .schedule { reqId := 4 } 0 false]

/-- The device adds request 4, and three frames follow. -/
def framesRun : List Input :=
  [.addReq { devHdl := 10, reqId := 4 }, .trigger { reqId := 1 } {}, .trigger { reqId := 1 } {},
    .trigger { reqId := 2 } {}]

theorem bubbleRun_requests_kept :
    let link := (machine.run (setupLinkInfo [⟨10, 2, 1⟩]) bubbleRun).1
    machine.Meets WritesFreeSlot (setupLinkInfo [⟨10, 2, 1⟩]) bubbleRun ∧
      ((machine.monitored outstanding).run (setupLinkInfo [⟨10, 2, 1⟩], []) bubbleRun).1.2 <+~
        openIds link.inQ ∧
      machine.Occurs (Settles 3 4) link framesRun :=
  have h := requests_kept [⟨10, 2, 1⟩] bubbleRun (by decide +kernel)
  ⟨h.1, h.2.1, (h.2.2 3 (by decide) 4 (by decide +kernel)).2 (by decide +kernel) framesRun
    (by decide +kernel) (by decide +kernel)⟩

example : ((machine.monitored outstanding).run (setupLinkInfo [⟨10, 2, 1⟩], []) bubbleRun).1.2 =
    [4, 2] := by decide +kernel

def requestsAhead (n : ℕ) : List Input :=
  (List.range n).map fun i => .schedule { reqId := (i : ℤ) + 1 } 0 false

/-- Request 49 is written over request 1, which then waits in no slot any more. -/
theorem full_ring_overwritten :
    ¬ ∀ (infos : List DevInfo) (is : List Input),
      machine.Meets WritesFreeSlot (setupLinkInfo infos) is ∧
        ((machine.monitored outstanding).run (setupLinkInfo infos, []) is).1.2 <+~
          openIds (machine.run (setupLinkInfo infos) is).1.inQ := by
  intro h
  have hw := (h [⟨10, 2, 1⟩] (requestsAhead 49)).1
  exact absurd hw (by decide +kernel)

end KernelModules.Crm
