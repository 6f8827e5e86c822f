import KernelModules.IspContext

/-!
# What the steps of a context do to its lists

The handlers of the three state machines come down to a few moves. A property of the lists that
each operation keeps, under what is asked of the steps that are critical for it, holds along runs.
-/

namespace KernelModules.Isp

variable {c : Ctx} {q : Queues} {req : Req} {e : Event} {i : Input}

def handled (c : Ctx) (e : Event) : Prop := (irqOps c.kind c.substate e).isSome = true

/-- The substates in which an epoch is a start of frame for the request manager, and bubbles are
looked after. -/
def epochNotifiesSof : Kind → Substate → Bool
  | .pix, .sof => true
  | .pix, .epoch => true
  | .pix, .bubble => true
  | .fs2, .epoch => true
  | .fs2, .bubble => true
  | _, _ => false

/-- An epoch puts the first active request back, after a frame has passed since its bubble. -/
structure Reapplies (c : Ctx) : Prop where
  notifies : epochNotifiesSof c.kind c.substate = true
  processBubble : c.q.processBubble = true
  frame : 1 ≤ c.bubbleFrameCnt
  detected : ∃ req ∈ c.q.active.head?, req.bubbleDetected = true

inductive EventMove (c : Ctx) : Event → Queues → Prop
  | same (e : Event) : EventMove c e c.q
  | error (h : handled c .error) : EventMove c .error (c.q.handleError c.lastAppliedReqId)
  | regUpd : EventMove c .regUpdate c.q.regUpd
  | regUpdInSof (h : c.substate = .sof) : EventMove c .regUpdate c.q.regUpdInSof
  | reportBubble (e : Event) (notes : Bool) (h : c.kind = .rdi → notes = false) :
      EventMove c e (c.q.reportBubble c.linked notes)
  | noBubble (h : c.q.active = []) : EventMove c .epoch { c.q with processBubble := false }
  | reapply (h : Reapplies c) : EventMove c .epoch c.q.reapply
  | failActive (h : c.kind = .rdi) : EventMove c .sof c.q.failActive
  | bufDone (handles : List ℕ) (h : handled c (.done handles)) :
      EventMove c (.done handles) (bufDoneInActivatedState c handles).1.q

theorem regUpdInAppliedState_q (c : Ctx) : (regUpdInAppliedState c).1.q = c.q.regUpd := by
  unfold regUpdInAppliedState Queues.regUpd
  cases c.q.wait <;> rfl

theorem fs2RegUpdInAppliedState_q (c : Ctx) : (fs2RegUpdInAppliedState c).1.q = c.q.regUpd := by
  unfold fs2RegUpdInAppliedState
  cases hw : c.q.wait with
  | nil =>
    unfold Queues.regUpd
    rw [hw]
  | cons req wait =>
    dsimp only
    split
    · split <;> rfl
    · rfl

theorem epochInApplied_q (c : Ctx) : (epochInApplied c).1.q = c.q.reportBubble c.linked true := by
  unfold epochInApplied
  cases hw : c.q.wait with
  | nil =>
    unfold Queues.reportBubble
    rw [hw]
  | cons req wait =>
    dsimp only
    split <;> rfl

theorem epochInBubbleApplied_q (c : Ctx) :
    (epochInBubbleApplied c).1.q = c.q.reportBubble c.linked true := by
  unfold epochInBubbleApplied Queues.reportBubble
  cases c.q.wait <;> rfl

theorem rdiOnlySofInBubbleApplied_q (c : Ctx) :
    (rdiOnlySofInBubbleApplied c).1.q = c.q.reportBubble c.linked false := by
  unfold rdiOnlySofInBubbleApplied Queues.reportBubble
  dsimp only
  cases c.q.wait <;> rfl

theorem rdiOnlyRegUpdInBubbleAppliedState_q (c : Ctx) :
    (rdiOnlyRegUpdInBubbleAppliedState c).1.q = c.q ∨
      (rdiOnlyRegUpdInBubbleAppliedState c).1.q = c.q.regUpd := by
  unfold rdiOnlyRegUpdInBubbleAppliedState
  split
  · exact .inl rfl
  split
  · exact .inl rfl
  · exact .inr rfl

theorem fs2SofInSofState_q (c : Ctx) : (fs2SofInSofState c).1.q = c.q := by
  unfold fs2SofInSofState
  dsimp only
  split
  · split <;> rfl
  · rfl

theorem fs2BufDone_q (c : Ctx) (handles : List ℕ) :
    (fs2BufDone c handles).1.q = (bufDoneInActivatedState c handles).1.q := by
  unfold fs2BufDone
  dsimp only
  split <;> rfl

theorem regUpdInSof_move (h : c.substate = .sof) : EventMove c .regUpdate (regUpdInSof c).1.q := by
  unfold regUpdInSof
  split
  · exact .same _
  · exact .regUpdInSof h

theorem reportSof_q (c : Ctx) : (reportSof c).q = c.q := by
  unfold reportSof
  split
  · split <;> rfl
  · rfl

theorem notifySof_move (h : epochNotifiesSof c.kind c.substate = true) :
    EventMove c .epoch (notifySofInActivatedState c).1.q := by
  unfold notifySofInActivatedState
  split
  · next hb =>
    split
    · next ha => exact .noBubble ha
    · next req active ha =>
      split
      · next hcnt =>
        rw [reportSof_q]
        exact .reapply ⟨h, hb, hcnt.1, req, by simp [ha], hcnt.2⟩
      split
      · rw [reportSof_q]
        exact .same _
      · rw [reportSof_q]
        exact .same _
  · rw [reportSof_q]
    exact .same _

variable {handler : Ctx → Ctx × Reads}

theorem handled_of_irqOps (h : irqOps c.kind c.substate e = some handler) : handled c e := by
  unfold handled
  rw [h]
  rfl

theorem irqOps_move (h : irqOps c.kind c.substate e = some handler) :
    EventMove c e (handler c).1.q := by
  have hh : handled c e := handled_of_irqOps h
  cases hk : c.kind
  all_goals
    rw [hk] at h
    unfold irqOps at h
    dsimp only at h
  case' pix => unfold pixIrqOps at h
  case' fs2 => unfold fs2IrqOps at h
  case' rdi => unfold rdiIrqOps at h
  all_goals
    split at h
  all_goals first
    | contradiction
    | (obtain rfl := Option.some.inj h
       first
       | exact .same _
       | exact .error hh
       | exact regUpdInSof_move ‹_›
       | exact .failActive hk
       | (rw [fs2SofInSofState_q]; exact .same _)
       | (rw [regUpdInAppliedState_q]; exact .regUpd)
       | (rw [fs2RegUpdInAppliedState_q]; exact .regUpd)
       | (rw [epochInApplied_q]; exact .reportBubble _ _ (by simp [hk]))
       | (rw [epochInBubbleApplied_q]; exact .reportBubble _ _ (by simp [hk]))
       | (rw [rdiOnlySofInBubbleApplied_q]; exact .reportBubble _ _ fun _ => rfl)
       | exact .bufDone _ hh
       | (rw [fs2BufDone_q]; exact .bufDone _ hh)
       | exact notifySof_move (by rw [hk, ‹c.substate = _›]; rfl)
       | (rcases rdiOnlyRegUpdInBubbleAppliedState_q c with hq | hq
          · rw [hq]; exact .same _
          · rw [hq]; exact .regUpd))

theorem event_move (c : Ctx) (e : Event) : EventMove c e (handleHwEvent c e).1.q := by
  unfold handleHwEvent
  split
  · cases hops : irqOps c.kind c.substate e with
    | none => exact .same _
    | some handler => exact irqOps_move hops
  · exact .same _

structure SameTop (c c' : Ctx) : Prop where
  state : c'.state = c.state
  linked : c'.linked = c.linked
  hwAcquired : c'.hwAcquired = c.hwAcquired
  kind : c'.kind = c.kind
  rdiOnlyContext : c'.rdiOnlyContext = c.rdiOnlyContext

theorem SameTop.refl (c : Ctx) : SameTop c c := ⟨rfl, rfl, rfl, rfl, rfl⟩

theorem reportSof_top (c : Ctx) : SameTop c (reportSof c) := by
  unfold reportSof
  split
  · split
    · exact ⟨rfl, rfl, rfl, rfl, rfl⟩
    · exact .refl c
  · exact .refl c

theorem notifySof_top (c : Ctx) : SameTop c (notifySofInActivatedState c).1 := by
  have hreport : ∀ c' : Ctx, SameTop c c' → SameTop c (reportSof c') := by
    intro c' h
    have hr := reportSof_top c'
    exact ⟨hr.state.trans h.state, hr.linked.trans h.linked, hr.hwAcquired.trans h.hwAcquired,
      hr.kind.trans h.kind, hr.rdiOnlyContext.trans h.rdiOnlyContext⟩
  unfold notifySofInActivatedState
  split
  · split
    · exact ⟨rfl, rfl, rfl, rfl, rfl⟩
    split
    · exact hreport _ ⟨rfl, rfl, rfl, rfl, rfl⟩
    split
    · exact hreport _ ⟨rfl, rfl, rfl, rfl, rfl⟩
    · exact hreport _ (.refl c)
  · exact hreport _ (.refl c)

theorem bufDone_top (c : Ctx) (handles : List ℕ) :
    SameTop c (bufDoneInActivatedState c handles).1 := by
  unfold bufDoneInActivatedState
  split
  · exact .refl c
  · dsimp only
    repeat' split
    all_goals exact ⟨rfl, rfl, rfl, rfl, rfl⟩

theorem fs2BufDone_top (c : Ctx) (handles : List ℕ) : SameTop c (fs2BufDone c handles).1 := by
  have h := bufDone_top c handles
  unfold fs2BufDone
  dsimp only
  split
  · exact ⟨h.state, h.linked, h.hwAcquired, h.kind, h.rdiOnlyContext⟩
  · exact h

theorem irqOps_top {k : Kind} {sub : Substate}
    (h : irqOps k sub e = some handler) (c : Ctx) : SameTop c (handler c).1 := by
  unfold irqOps pixIrqOps fs2IrqOps rdiIrqOps at h
  split at h
  all_goals
    split at h
    all_goals first
      | contradiction
      | (obtain rfl := Option.some.inj h
         first
         | exact .refl c
         | exact ⟨rfl, rfl, rfl, rfl, rfl⟩
         | exact notifySof_top c
         | exact bufDone_top c _
         | exact fs2BufDone_top c _
         | (unfold regUpdInSof; split <;> exact ⟨rfl, rfl, rfl, rfl, rfl⟩)
         | (unfold fs2RegUpdInSof regUpdInSof; split <;> exact ⟨rfl, rfl, rfl, rfl, rfl⟩)
         | (unfold regUpdInAppliedState; split <;> exact ⟨rfl, rfl, rfl, rfl, rfl⟩)
         | (unfold epochInBubbleApplied; split <;> exact ⟨rfl, rfl, rfl, rfl, rfl⟩)
         | (unfold rdiOnlySofInBubbleApplied; dsimp only; split <;> exact ⟨rfl, rfl, rfl, rfl, rfl⟩)
         | (unfold epochInApplied; split <;> [skip; (dsimp only; split)] <;>
              exact ⟨rfl, rfl, rfl, rfl, rfl⟩)
         | (unfold fs2SofInSofState; dsimp only; split <;> [split; skip] <;>
              exact ⟨rfl, rfl, rfl, rfl, rfl⟩)
         | (unfold rdiOnlyRegUpdInBubbleAppliedState; split <;> [skip; split] <;>
              exact ⟨rfl, rfl, rfl, rfl, rfl⟩)
         | (unfold fs2RegUpdInAppliedState; split
            · exact .refl c
            · dsimp only
              split <;> [split; skip] <;> exact ⟨rfl, rfl, rfl, rfl, rfl⟩))

theorem event_top (c : Ctx) (e : Event) : SameTop c (handleHwEvent c e).1 := by
  unfold handleHwEvent
  split
  · split
    · next handler hops => exact irqOps_top hops c
    · exact .refl c
  · exact .refl c

def Req.accept (req : Req) (packet : Packet) : Req := { req.prepare packet with accepted := true }

def Req.merge (req : Req) (packet : Packet) : Req :=
  { req with
    requestId := packet.requestId
    numCfg := req.numCfg + packet.numCfg
    fenceMapOut := packet.fences.map fun f => { resource := f.1, syncId := f.2 }
    numFenceMapIn := packet.numFenceMapIn }

inductive ConfigMove (c : Ctx) (packet : Packet) : Queues → Prop
  | same : ConfigMove c packet c.q
  | untouched {old : Req} {free : List Req} (h : c.q.free = old :: free) :
      ConfigMove c packet { c.q with free := free ++ [old] }
  | refused {old : Req} {free : List Req} (h : c.q.free = old :: free) :
      ConfigMove c packet { c.q with free := free ++ [old.prepare packet] }
  | first {old : Req} {free : List Req} (h : c.q.free = old :: free) (hi : packet.init = true)
      (hst : c.state ≠ .activated) (hp : c.q.pending = []) (hf : ∀ f ∈ packet.fences, 0 < f.2) :
      ConfigMove c packet { c.q with free, pending := [old.accept packet] }
  | merged {old req : Req} {free pending : List Req} (h : c.q.free = old :: free)
      (hi : packet.init = true) (hst : c.state ≠ .activated) (hp : c.q.pending = req :: pending)
      (hno : req.fenceMapOut.length = 0) (hf : ∀ f ∈ packet.fences, 0 < f.2) :
      ConfigMove c packet
        { c.q with free := free ++ [old.prepare packet], pending := req.merge packet :: pending }
  | update {old : Req} {free : List Req} (h : c.q.free = old :: free) (hi : packet.init = false)
      (hf : ∀ f ∈ packet.fences, 0 < f.2) :
      ConfigMove c packet
        { c.q with free, pending := enqueueRequestInOrder c.q.pending (old.accept packet) }

theorem config_move (c : Ctx) (packet : Packet) (env : ConfigEnv) :
    ConfigMove c packet (configDevInTopState c packet env).1.q := by
  unfold configDevInTopState
  cases hfree : c.q.free with
  | nil => exact .same
  | cons old free =>
    dsimp only
    split
    · exact .untouched hfree
    split
    · exact .untouched hfree
    split
    · exact .untouched hfree
    split
    · exact .refused hfree
    next hrefs =>
    have hf : ∀ f ∈ packet.fences, 0 < f.2 := by
      intro f hmem
      by_contra hle
      exact hrefs ⟨f, hmem, .inl (Int.not_lt.mp hle)⟩
    split
    · next hi =>
      split
      · next hrank =>
        have hst : c.state ≠ .activated := by
          rintro h
          rw [h] at hrank
          exact absurd hrank (lt_irrefl _)
        split
        · exact .refused hfree
        next l merged heq =>
        unfold enqueueInitRequest at heq
        split at heq
        · next hp =>
          obtain ⟨rfl, rfl⟩ := Prod.mk.inj (Except.ok.inj heq)
          exact .first hfree hi hst hp hf
        next req pending hp =>
        split at heq
        · contradiction
        split at heq
        · contradiction
        next hno =>
        split at heq
        · contradiction
        have hno : req.fenceMapOut.length = 0 := by
          by_contra h
          exact hno (.inl h)
        obtain ⟨rfl, rfl⟩ := Prod.mk.inj (Except.ok.inj heq)
        exact .merged hfree hi hst hp hno hf
      · exact .refused hfree
    · next hi =>
      split
      · split
        · exact .refused hfree
        · exact .update hfree (Bool.eq_false_iff.mpr hi) hf
      · exact .refused hfree

theorem configDevInTopState_top (c : Ctx) (packet : Packet) (env : ConfigEnv) :
    SameTop c (configDevInTopState c packet env).1 := by
  unfold configDevInTopState
  split
  · exact .refl c
  · dsimp only
    repeat' split
    all_goals exact ⟨rfl, rfl, rfl, rfl, rfl⟩

theorem ConfigMove.wait_active {packet : Packet} {q' : Queues} (h : ConfigMove c packet q') :
    q'.wait = c.q.wait ∧ q'.active = c.q.active := by
  cases h <;> exact ⟨rfl, rfl⟩

/-- What a start does to the lists, given that no request waits or is active. The request is
handed to the hardware whether that fails or not. -/
inductive StartMove (c : Ctx) (hwRc : ℤ) : Ctx → Prop
  | refused : StartMove c hwRc c
  | failed {req : Req} {pending : List Req} {c' : Ctx} (hp : c.q.pending = req :: pending)
      (hw : c.hwAcquired = true) (hrc : hwRc ≠ 0) (hs : c'.state = .ready)
      (hl : c'.linked = c.linked)
      (hq : c'.q = { c.q with
        processBubble := false
        activeReqCnt := if c.rdiOnlyContext ∨ req.fenceMapOut.length = 0 then 0 else 1 }) :
      StartMove c hwRc c'
  | waits {req : Req} {pending : List Req} {c' : Ctx} (hp : c.q.pending = req :: pending)
      (hs : c'.state = .activated) (hl : c'.linked = c.linked)
      (hq : c'.q = { c.q with
        processBubble := false
        activeReqCnt := 0
        pending
        wait := c.q.wait ++ [req] }) : StartMove c hwRc c'
  | runs {req : Req} {pending : List Req} {c' : Ctx} (hp : c.q.pending = req :: pending)
      (hs : c'.state = .activated) (hl : c'.linked = c.linked)
      (hq : c'.q = { c.q with
        processBubble := false
        activeReqCnt := 1
        pending
        active := c.q.active ++ [req] }) : StartMove c hwRc c'

theorem start_move (c : Ctx) (hwRc : ℤ) : StartMove c hwRc (startDevInReady c hwRc).1 := by
  unfold startDevInReady
  split
  · exact .refused
  · next req pending hp =>
    split
    · exact .refused
    next hw =>
    dsimp only
    split
    · next hrc => exact .failed hp (by simpa using hw) hrc rfl rfl rfl
    · by_cases hwaits : c.rdiOnlyContext ∨ req.fenceMapOut.length = 0
      · refine .waits hp rfl rfl ?_
        simp only [if_pos hwaits]
      · refine .runs hp rfl rfl ?_
        simp only [if_neg hwaits]

inductive ApplyMove (q : Queues) (apply : Apply) : Queues → Prop
  | same : ApplyMove q apply q
  | failed {req : Req} {pending : List Req} (hp : q.pending = req :: pending)
      (hb : q.processBubble = false) (hid : req.requestId = apply.requestId)
      (hcnt : q.activeReqCnt < 2) :
      ApplyMove q apply
        { q with pending := { req with bubbleReport := apply.reportIfBubble } :: pending }
  | applied {req : Req} {pending : List Req} (hp : q.pending = req :: pending)
      (hb : q.processBubble = false) (hid : req.requestId = apply.requestId)
      (hcnt : q.activeReqCnt < 2) :
      ApplyMove q apply { q with
        pending, wait := q.wait ++ [{ req with bubbleReport := apply.reportIfBubble }] }

theorem apply_move (c : Ctx) (apply : Apply) (nextState : Substate) (hwRc : ℤ) :
    ApplyMove c.q apply (applyReqInActivatedState c apply nextState hwRc).1.q := by
  unfold applyReqInActivatedState
  split
  · exact .same
  next req pending hp =>
  split
  · exact .same
  next hb =>
  split
  · exact .same
  next hid =>
  split
  · exact .same
  next hcnt =>
  split
  · exact .failed hp (Bool.eq_false_iff.mpr hb) (not_not.mp hid) (Int.not_le.mp hcnt)
  · exact .applied hp (Bool.eq_false_iff.mpr hb) (not_not.mp hid) (Int.not_le.mp hcnt)

theorem applyReqInActivatedState_top (c : Ctx) (apply : Apply) (nextState : Substate) (hwRc : ℤ) :
    SameTop c (applyReqInActivatedState c apply nextState hwRc).1 := by
  unfold applyReqInActivatedState
  split
  · exact .refl c
  split
  · exact .refl c
  split
  · exact .refl c
  split
  · exact .refl c
  split
  · exact ⟨rfl, rfl, rfl, rfl, rfl⟩
  · exact ⟨rfl, rfl, rfl, rfl, rfl⟩

theorem applyReq_top (c : Ctx) (apply : Apply) (hwRc : ℤ) :
    SameTop c (applyReq c apply hwRc).1 := by
  unfold applyReq
  split
  · exact .refl c
  split
  · exact .refl c
  · exact applyReqInActivatedState_top ..

/-- Requests wait and are active only while the context is activated, and it is linked from the
ready state on. -/
structure Settled (c : Ctx) : Prop where
  idle : c.state ≠ .activated → c.q.wait = [] ∧ c.q.active = []
  available : c.state = .available → c.q.pending = []
  linked : CtxState.ready.rank ≤ c.state.rank → c.linked = true

theorem Settled.of_acquired (hs : c.state = .acquired) (hw : c.q.wait = []) (ha : c.q.active = []) :
    Settled c where
  idle _ := ⟨hw, ha⟩
  available h := by simp [hs] at h
  linked h := by simp [hs, CtxState.rank] at h

theorem Settled.of_activated (hs : c.state = .activated) (hl : c.linked = true) : Settled c where
  idle h := absurd hs h
  available h := by simp [hs] at h
  linked _ := hl

theorem Settled.of_ready (hs : c.state = .ready) (hw : c.q.wait = []) (ha : c.q.active = [])
    (hl : c.linked = true) : Settled c where
  idle _ := ⟨hw, ha⟩
  available h := by simp [hs] at h
  linked _ := hl

theorem Settled.of_top {c' : Ctx} (h : Settled c) (ht : SameTop c c')
    (hw : c'.q.wait = c.q.wait) (ha : c'.q.active = c.q.active)
    (hp : c.state = .available → c'.q.pending = []) : Settled c' where
  idle hs := by
    rw [hw, ha]
    exact h.idle (ht.state ▸ hs)
  available hs := hp (ht.state ▸ hs)
  linked hs := by
    rw [ht.linked]
    exact h.linked (ht.state ▸ hs)

theorem Settled.start (h : Settled c) (hwRc : ℤ) (hs : CtxState.ready.rank ≤ c.state.rank)
    (hne : c.state ≠ .activated) : Settled (startDevInReady c hwRc).1 := by
  obtain ⟨hw, ha⟩ := h.idle hne
  have hl := h.linked hs
  have hm := start_move c hwRc
  generalize (startDevInReady c hwRc).1 = c' at hm ⊢
  cases hm with
  | refused => exact h
  | failed hp hacq hrc hs' hl' hq =>
    refine .of_ready hs' ?_ ?_ (hl'.trans hl)
    · rw [hq]
      exact hw
    · rw [hq]
      exact ha
  | waits hp hs' hl' hq => exact .of_activated hs' (hl'.trans hl)
  | runs hp hs' hl' hq => exact .of_activated hs' (hl'.trans hl)

theorem Settled.config (h : Settled c) (packet : Packet) (env : ConfigEnv)
    (hs : c.state ≠ .available) : Settled (configDevInTopState c packet env).1 := by
  obtain ⟨hw, ha⟩ := (config_move c packet env).wait_active
  exact h.of_top (configDevInTopState_top c packet env) hw ha fun h => absurd h hs

theorem Settled.configDev (h : Settled c) (packet : Packet) (env : ConfigEnv) :
    Settled (configDev c packet env).1 := by
  have htop := configDevInTopState_top c packet env
  unfold Isp.configDev
  cases hs : c.state with
  | available => exact h
  | acquired =>
    have hconf := h.config packet env (by simp [hs])
    have hstate := htop.state.trans hs
    dsimp only
    split
    · exact h
    split
    · next hready =>
      obtain ⟨hw, ha⟩ := hconf.idle (by simp [hstate])
      exact .of_ready rfl hw ha hready.2
    · exact hconf
  | ready => exact h.config packet env (by simp [hs])
  | activated => exact h.config packet env (by simp [hs])
  | flushed =>
    have hconf := h.config packet env (by simp [hs])
    have hstate := htop.state.trans hs
    dsimp only
    split
    · exact h
    split
    · exact hconf
    split
    · exact hconf
    · exact hconf.start env.startRc (by simp [hstate, CtxState.rank]) (by simp [hstate])

theorem settled_releaseHwInTopState (hw : c.q.wait = []) (ha : c.q.active = []) :
    Settled (releaseHwInTopState c) := .of_acquired rfl hw ha

theorem settled_releaseDevInTopState (hw : c.q.wait = []) (ha : c.q.active = []) :
    Settled (releaseDevInTopState c) := by
  have hlists : (releaseDevInTopState c).q.wait = [] ∧ (releaseDevInTopState c).q.active = [] := by
    unfold releaseDevInTopState
    split
    · exact ⟨hw, ha⟩
    · exact ⟨hw, ha⟩
  exact ⟨fun _ => hlists, fun _ => rfl, fun h => by simp [releaseDevInTopState, CtxState.rank] at h⟩

theorem Settled.releaseHw (h : Settled c) : Settled (releaseHw c) := by
  unfold Isp.releaseHw
  cases hs : c.state with
  | available => exact h
  | acquired =>
    obtain ⟨hw, ha⟩ := h.idle (by simp [hs])
    exact settled_releaseHwInTopState hw ha
  | ready =>
    obtain ⟨hw, ha⟩ := h.idle (by simp [hs])
    exact settled_releaseHwInTopState hw ha
  | flushed => exact settled_releaseHwInTopState rfl rfl
  | activated => exact settled_releaseHwInTopState rfl rfl

theorem Settled.releaseDev (h : Settled c) : Settled (releaseDev c) := by
  unfold Isp.releaseDev
  cases hs : c.state with
  | available => exact h
  | acquired =>
    obtain ⟨hw, ha⟩ := h.idle (by simp [hs])
    exact settled_releaseDevInTopState hw ha
  | ready =>
    obtain ⟨hw, ha⟩ := h.idle (by simp [hs])
    exact settled_releaseDevInTopState hw ha
  | flushed => exact settled_releaseDevInTopState rfl rfl
  | activated => exact settled_releaseDevInTopState rfl rfl

theorem Settled.crmFlushReq (h : Settled c) (flush : FlushRequest) :
    Settled (crmFlushReq c flush).1 := by
  have htop : CtxState.ready.rank ≤ c.state.rank → c.linked = true := h.linked
  unfold Isp.crmFlushReq
  cases hs : c.state with
  | available => exact h
  | flushed => exact h
  | acquired =>
    obtain ⟨hw, ha⟩ := h.idle (by simp [hs])
    unfold flushReqInTopState
    rw [hs]
    cases flush.cancel with
    | none => exact .of_acquired rfl hw ha
    | some id => exact .of_acquired rfl hw ha
  | activated =>
    have hl := htop (by simp [hs, CtxState.rank])
    unfold flushReqInTopState
    rw [hs]
    cases flush.cancel with
    | none => exact ⟨fun _ => ⟨rfl, rfl⟩, fun h => CtxState.noConfusion h, fun _ => hl⟩
    | some id => exact .of_activated rfl hl
  | ready =>
    obtain ⟨hw, ha⟩ := h.idle (by simp [hs])
    unfold flushReqInReady
    dsimp only
    split
    · exact .of_acquired rfl hw ha
    · exact .of_ready hs hw ha (htop (by simp [hs, CtxState.rank]))

theorem Settled.crmUnlink (h : Settled c) : Settled (crmUnlink c).1 := by
  unfold Isp.crmUnlink
  cases hs : c.state with
  | available => exact h
  | acquired =>
    obtain ⟨hw, ha⟩ := h.idle (by simp [hs])
    exact .of_acquired rfl hw ha
  | ready =>
    obtain ⟨hw, ha⟩ := h.idle (by simp [hs])
    exact .of_acquired rfl hw ha
  | flushed =>
    obtain ⟨hw, ha⟩ := h.idle (by simp [hs])
    exact .of_acquired rfl hw ha
  | activated => exact .of_acquired rfl rfl rfl

theorem Settled.step (h : Settled c) (i : Input) : Settled (machine.step c i).1 := by
  cases i with
  | acquireDev kind =>
    change Settled (acquireDev c kind).1
    unfold acquireDev
    split
    · exact .of_acquired rfl rfl rfl
    · exact h
  | acquireHw kind =>
    change Settled (acquireHw c kind).1
    unfold acquireHw
    split
    · next hs =>
      obtain ⟨hw, ha⟩ := h.idle (by simp [hs])
      cases kind with
      | none => exact .of_acquired hs hw ha
      | some kind => exact .of_acquired hs hw ha
    · exact h
  | releaseHw => exact h.releaseHw
  | releaseDev => exact h.releaseDev
  | link =>
    change Settled (crmLink c).1
    unfold crmLink
    split
    · next hs =>
      obtain ⟨hw, ha⟩ := h.idle (by simp [hs])
      split
      · exact .of_ready rfl hw ha rfl
      · exact .of_acquired hs hw ha
    · exact h
  | unlink => exact h.crmUnlink
  | config packet env => exact h.configDev packet env
  | start hwRc =>
    change Settled (startDev c hwRc).1
    unfold startDev
    split
    · next hs => exact h.start hwRc (by simp [hs, CtxState.rank]) (by simp [hs])
    · exact h
  | stop =>
    change Settled (stopDev c)
    unfold stopDev
    split
    · exact .of_acquired rfl rfl rfl
    · exact ⟨h.idle, h.available, h.linked⟩
  | flush flush => exact h.crmFlushReq flush
  | apply apply hwRc =>
    change Settled (applyReq c apply hwRc).1
    by_cases hs : c.state = .activated
    · have htop := applyReq_top c apply hwRc
      exact .of_activated (htop.state.trans hs)
        (htop.linked.trans (h.linked (by simp [hs, CtxState.rank])))
    · have hc : (applyReq c apply hwRc).1 = c := by
        unfold applyReq
        rw [if_pos hs]
      rwa [hc]
  | event e =>
    change Settled (handleHwEvent c e).1
    by_cases hs : c.state = .activated
    · have htop := event_top c e
      exact .of_activated (htop.state.trans hs)
        (htop.linked.trans (h.linked (by simp [hs, CtxState.rank])))
    · have hc : (handleHwEvent c e).1 = c := by
        unfold handleHwEvent
        rw [if_neg hs]
      rwa [hc]
  | signal syncId =>
    refine ⟨fun hs => ?_, fun hs => ?_, h.linked⟩
    · obtain ⟨hw, ha⟩ := h.idle hs
      simp [machine, signalElsewhere, hw, ha]
    · simp [machine, signalElsewhere, h.available hs]

theorem settled_initial : Settled initial :=
  ⟨fun _ => ⟨rfl, rfl⟩, fun _ => rfl, fun h => by simp [initial, CtxState.rank] at h⟩

theorem settled_run (is : List Input) : Settled (machine.run initial is).1 :=
  machine.invariant (fun _ i h => h.step i) is settled_initial

structure Conds where
  config : Ctx → Packet → Prop := fun _ _ => True
  start : Ctx → ℤ → Prop := fun _ _ => True
  apply : Ctx → Apply → Prop := fun _ _ => True
  event : Ctx → Event → Prop := fun _ _ => True

def restarts (c : Ctx) (packet : Packet) (env : ConfigEnv) : Prop :=
  c.state = .flushed ∧ c.hwAcquired = true ∧ (configDevInTopState c packet env).2 = 0 ∧
    (configDevInTopState c packet env).1.initReceived = true ∧ env.resumeRc = 0

def Conds.Step (K : Conds) (c : Ctx) : Input → Prop
  | .config packet env => K.config c packet ∧
      (restarts c packet env → K.start (configDevInTopState c packet env).1 env.startRc)
  | .start hwRc => c.state = .ready → K.start c hwRc
  | .apply apply _ => c.state = .activated → (applyOps c.kind c.substate).isSome → K.apply c apply
  | .event e => c.state = .activated → K.event c e
  | _ => True

theorem Conds.Step.mono {K L : Conds} {c : Ctx} {i : Input} (h : K.Step c i)
    (hconfig : ∀ c packet, K.config c packet → L.config c packet)
    (hstart : ∀ c hwRc, K.start c hwRc → L.start c hwRc)
    (happly : ∀ c apply, K.apply c apply → L.apply c apply)
    (hevent : ∀ c e, K.event c e → L.event c e) : L.Step c i := by
  cases i with
  | config packet env => exact ⟨hconfig _ _ h.1, fun hr => hstart _ _ (h.2 hr)⟩
  | start hwRc => exact fun hs => hstart _ _ (h hs)
  | apply apply hwRc => exact fun hs ho => happly _ _ (h hs ho)
  | event e => exact fun hs => hevent _ _ (h hs)
  | _ => trivial

/-- Each operation keeps the property, if the condition on it holds. -/
structure Kept (K : Conds) (P : Queues → Prop) : Prop where
  config {c : Ctx} {packet : Packet} {q' : Queues} :
    Settled c → ConfigMove c packet q' → K.config c packet → P c.q → P q'
  start {c c' : Ctx} {hwRc : ℤ} : StartMove c hwRc c' → c.q.wait = [] → c.q.active = [] →
    K.start c hwRc → P c.q → P c'.q
  apply {c : Ctx} {apply : Apply} {q' : Queues} :
    ApplyMove c.q apply q' → K.apply c apply → P c.q → P q'
  event {c : Ctx} {e : Event} {q' : Queues} : EventMove c e q' → K.event c e → P c.q → P q'
  flushPending {q : Queues} (cancel : Option ℕ) : P q → P (q.flushPending cancel)
  flushWaitAndActive {q : Queues} :
    P q → P { q.flushWaitAndActive with processBubble := false }
  noBubble {q : Queues} : P q → P { q with processBubble := false }
  release {q : Queues} : q.active = [] → P q → P { q with activeReqCnt := 0 }
  stop {q : Queues} : P q → P q.stop
  setup {q : Queues} : q.pending = [] → q.wait = [] → q.active = [] → P q →
    P { q with free := initReqList q, pending := [], wait := [], active := [], lost := [] }
  signal {q : Queues} (syncId : ℤ) : P q → P (signalElsewhere q syncId)

variable {K : Conds} {P : Queues → Prop}

theorem Kept.configDev (hK : Kept K P) (hs : Settled c) {packet : Packet} {env : ConfigEnv}
    (hc : K.config c packet) (hr : restarts c packet env →
      K.start (configDevInTopState c packet env).1 env.startRc) (h : P c.q) :
    P (configDev c packet env).1.q := by
  have hconf := hK.config hs (config_move c packet env) hc h
  unfold Isp.configDev
  cases hst : c.state with
  | available => exact h
  | ready => exact hconf
  | activated => exact hconf
  | acquired =>
    dsimp only
    split
    · exact h
    split
    · exact hconf
    · exact hconf
  | flushed =>
    obtain ⟨hw, ha⟩ := hs.idle (by simp [hst])
    obtain ⟨hw', ha'⟩ := (config_move c packet env).wait_active
    dsimp only
    split
    · exact h
    next hacq =>
    split
    · exact hconf
    next hok =>
    split
    · exact hconf
    next hres =>
    have hrestarts : restarts c packet env := by
      refine ⟨hst, by simpa using hacq, ?_, ?_, not_not.mp hres⟩
      · by_contra hne
        exact hok (.inl hne)
      · by_contra hne
        exact hok (.inr (by simpa using hne))
    exact hK.start (start_move ..) (hw'.trans hw) (ha'.trans ha) (hr hrestarts) hconf

theorem Kept.releaseHwInTopState (hK : Kept K P) (ha : c.q.active = []) (h : P c.q) :
    P (releaseHwInTopState c).q := hK.flushPending none (hK.release ha h)

theorem Kept.releaseDevInTopState (hK : Kept K P) (ha : c.q.active = []) (h : P c.q) :
    P (releaseDevInTopState c).q := by
  unfold Isp.releaseDevInTopState
  split
  · exact hK.flushPending none (hK.release ha (hK.releaseHwInTopState ha h))
  · exact hK.flushPending none (hK.release ha h)

theorem Kept.stopDev (hK : Kept K P) {c : Ctx} (cmd : Bool) (h : P c.q) :
    P (stopDevInActivatedUnlock c cmd).q := by
  unfold stopDevInActivatedUnlock
  split
  · exact hK.stop h
  · exact hK.stop h

theorem stopDev_active (c : Ctx) (cmd : Bool) : (stopDevInActivatedUnlock c cmd).q.active = [] := by
  unfold stopDevInActivatedUnlock
  split <;> rfl

theorem Kept.crmFlushReq (hK : Kept K P) (flush : FlushRequest) (h : P c.q) :
    P (crmFlushReq c flush).1.q := by
  have hflush := hK.flushPending flush.cancel h
  have htop : P (flushReqInTopState c flush).1.q := by
    unfold flushReqInTopState
    dsimp only
    split
    · exact hK.noBubble hflush
    split
    · exact hK.noBubble hflush
    · exact hK.flushWaitAndActive hflush
  unfold Isp.crmFlushReq
  split
  · exact htop
  · exact htop
  · exact hflush
  · exact h
  · exact h

/-- What each operation keeps, a step keeps. -/
theorem Kept.step (hK : Kept K P) (hs : Settled c) (hi : K.Step c i) (h : P c.q) :
    P (machine.step c i).1.q := by
  have hidle : c.state ≠ .activated → c.q.active = [] := fun hne => (hs.idle hne).2
  cases i with
  | acquireDev kind =>
    change P (acquireDev c kind).1.q
    unfold acquireDev
    split
    · next hst =>
      obtain ⟨hw, ha⟩ := hs.idle (by simp [hst])
      have hsetup := hK.setup (hs.available hst) hw ha h
      cases kind with
      | none => exact hsetup
      | some kind => exact hsetup
    · exact h
  | acquireHw kind =>
    change P (acquireHw c kind).1.q
    unfold acquireHw
    split
    · cases kind with
      | none => exact h
      | some kind => exact h
    · exact h
  | releaseHw =>
    change P (releaseHw c).q
    unfold Isp.releaseHw
    cases hst : c.state with
    | available => exact h
    | acquired => exact hK.releaseHwInTopState (hidle (by simp [hst])) h
    | ready => exact hK.releaseHwInTopState (hidle (by simp [hst])) h
    | flushed => exact hK.releaseHwInTopState (stopDev_active ..) (hK.stopDev false h)
    | activated => exact hK.releaseHwInTopState (stopDev_active ..) (hK.stopDev false h)
  | releaseDev =>
    change P (releaseDev c).q
    unfold Isp.releaseDev
    cases hst : c.state with
    | available => exact h
    | acquired => exact hK.releaseDevInTopState (hidle (by simp [hst])) h
    | ready => exact hK.releaseDevInTopState (hidle (by simp [hst])) h
    | flushed => exact hK.releaseDevInTopState (stopDev_active ..) (hK.stopDev false h)
    | activated => exact hK.releaseDevInTopState (stopDev_active ..) (hK.stopDev false h)
  | link =>
    change P (crmLink c).1.q
    unfold crmLink
    split
    · exact h
    · exact h
  | unlink =>
    change P (crmUnlink c).1.q
    unfold Isp.crmUnlink
    split
    · exact h
    · exact h
    · exact h
    · exact h
    · exact hK.stopDev false h
  | config packet env => exact hK.configDev hs hi.1 hi.2 h
  | start hwRc =>
    change P (startDev c hwRc).1.q
    unfold startDev
    split
    · next hst =>
      obtain ⟨hw, ha⟩ := hs.idle (by simp [hst])
      exact hK.start (start_move ..) hw ha (hi hst) h
    · exact h
  | stop =>
    change P (Isp.stopDev c).q
    unfold Isp.stopDev
    split
    · exact hK.stopDev true h
    · exact h
  | flush flush => exact hK.crmFlushReq flush h
  | apply apply hwRc =>
    change P (applyReq c apply hwRc).1.q
    unfold applyReq
    split
    · exact h
    next hst =>
    split
    · exact h
    · next hops =>
      exact hK.apply (apply_move ..) (hi (not_not.mp hst) (by simp [hops])) h
  | event e =>
    by_cases hst : c.state = .activated
    · exact hK.event (event_move c e) (hi hst) h
    · have hc : (machine.step c (.event e)).1 = c := by
        change (handleHwEvent c e).1 = c
        unfold handleHwEvent
        rw [if_neg hst]
      rwa [hc]
  | signal syncId => exact hK.signal syncId h

theorem Kept.run (hK : Kept K P) (h : P initial.q) {is : List Input}
    (hm : machine.Meets K.Step initial is) :
    Settled (machine.run initial is).1 ∧ P (machine.run initial is).1.q := by
  refine machine.invariant_of_meets (I := fun c => Settled c ∧ P c.q) (fun c i hc hi => ?_)
    ⟨settled_initial, h⟩ hm
  exact ⟨hc.1.step i, hK.step hc.1 hi hc.2⟩

theorem ackFence_same (req : Req) (j : ℕ) (f : Fence) (status : SyncStatus) :
    (req.ackFence j f status).obj = req.obj ∧
      (req.ackFence j f status).requestId = req.requestId := by
  unfold Req.ackFence
  dsimp only
  split <;> exact ⟨rfl, rfl⟩

theorem ackHandle_same (req : Req) (handle : ℕ) : (req.ackHandle handle).1.obj = req.obj ∧
    (req.ackHandle handle).1.requestId = req.requestId := by
  unfold Req.ackHandle
  dsimp only
  split
  · exact ⟨rfl, rfl⟩
  split
  · exact ⟨rfl, rfl⟩
  split
  · exact ⟨rfl, rfl⟩
  split
  · exact ackFence_same ..
  split
  · exact ackFence_same ..
  · exact ⟨rfl, rfl⟩

theorem ackHandles_same (req : Req) (handles : List ℕ) : (req.ackHandles handles).1.obj = req.obj ∧
    (req.ackHandles handles).1.requestId = req.requestId := by
  induction handles generalizing req with
  | nil => exact ⟨rfl, rfl⟩
  | cons handle handles ih =>
    obtain ⟨hobj, hid⟩ := ackHandle_same req handle
    exact ⟨(ih _).1.trans hobj, (ih _).2.trans hid⟩

/-- The only active request is finished by a buf done that also names handles it does not have or
has had already. These are looked for in an entry of an empty list. -/
def RunsOut (c : Ctx) (handles : List ℕ) : Prop :=
  ∃ req, c.q.active = [req] ∧ (req.ackHandles handles).1.done c.lastFlushReq ≠ .unfinished ∧
    (req.ackHandles handles).2 ≠ []

theorem bufDoneForRequest_active (q : Queues) (before after : List Req) (req : Req)
    (lastFlushReq : ℕ) :
    (q.bufDoneForRequest before after req lastFlushReq).active =
      if req.done lastFlushReq = .unfinished then before ++ req :: after else before ++ after := by
  unfold Queues.bufDoneForRequest
  cases req.done lastFlushReq <;> rfl

/-- A buf done hands these handles to a request that is active between others. That is the first
one, and then the last one with what the first has left. -/
inductive Handed (c : Ctx) (handles : List ℕ) :
    Queues → List Req → Req → List Req → List ℕ → Prop
  | first {req : Req} {active : List Req} (ha : c.q.active = req :: active) :
      Handed c handles c.q [] req active handles
  | next {req next : Req} {active before : List Req} (ha : c.q.active = req :: active)
      (hleft : (req.ackHandles handles).2 ≠ [])
      (hb : (c.q.bufDoneForRequest [] active (req.ackHandles handles).1 c.lastFlushReq).active =
        before ++ [next]) (hid : next.requestId ≠ req.requestId) :
      Handed c handles
        (c.q.bufDoneForRequest [] active (req.ackHandles handles).1 c.lastFlushReq)
        before next [] (req.ackHandles handles).2

theorem Handed.active {q : Queues} {before after : List Req} {req : Req} {handles left : List ℕ}
    (h : Handed c handles q before req after left) : q.active = before ++ req :: after := by
  cases h with
  | first ha => exact ha
  | next ha hleft hb hid => exact hb

theorem bufDone_kept {P : Queues → Prop} {handles : List ℕ} (h : P c.q) (hr : ¬ RunsOut c handles)
    (hdone : ∀ {q : Queues} {before after : List Req} {req : Req} {left : List ℕ},
      Handed c handles q before req after left → P q →
        P (q.bufDoneForRequest before after (req.ackHandles left).1 c.lastFlushReq)) :
    P (bufDoneInActivatedState c handles).1.q := by
  unfold bufDoneInActivatedState
  cases ha : c.q.active with
  | nil => exact h
  | cons req active =>
    have hfirst := hdone (.first ha) h
    dsimp only
    split
    · exact hfirst
    next hleft =>
    split
    · next hnone =>
      have hempty := List.getLast?_eq_none_iff.mp hnone
      rw [bufDoneForRequest_active] at hempty
      split at hempty
      · exact absurd hempty (by simp)
      · next hfin =>
        rw [List.nil_append] at hempty
        exact absurd ⟨req, by rw [ha, hempty], hfin, hleft⟩ hr
    next next hlast =>
    split
    · exact hfirst
    · next hid =>
      refine hdone (.next ha hleft ?_ hid) hfirst
      rw [List.dropLast_append_getLast? next hlast]

end KernelModules.Isp
