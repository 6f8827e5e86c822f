import KernelModules.IspAcks
import KernelModules.IspTurns

/-!
# What a bubble leaves behind

A request that is put back is to be as new: its flag is cleared, and it has been acknowledged as
often as outputs of it have been dealt with. An error puts requests back as they are, and a request
that has lost an output to an earlier attempt is put back as if it had not.
-/

namespace KernelModules.Isp

open List

variable {c : Ctx} {q q' : Queues} {req : Req}

/-- No bubble shows in a request that is to be applied or waits, or in the context when none is
looked after; and few requests run. -/
structure Recovered (q : Queues) : Prop where
  clean : ∀ req ∈ q.pending ++ q.wait, Clean req
  waiting : q.wait.length ≤ 1
  running : q.active.length ≤ 2
  bubble : q.processBubble = true → ∃ req ∈ q.active, req.recovers

/-- What keeps the lists so: an active request in no bubble has been acknowledged as often as
outputs of it have been dealt with, and the active requests are counted at least. -/
structure Tidy (q : Queues) : Prop extends Recovered q where
  acked : ∀ req ∈ q.active, ¬ req.recovers → req.numAcked = reset req
  room : q.active.length + q.wait.length ≤ 2
  counted : (q.active.length : ℤ) ≤ q.activeReqCnt

theorem Recovered.clean_tail (h : Recovered q) {wait : List Req} (hw : q.wait = req :: wait) :
    ∀ r ∈ q.pending ++ wait, Clean r := by
  intro r hr
  refine h.clean r ?_
  rw [hw]
  rcases mem_append.mp hr with hp | hr
  · exact mem_append_left _ hp
  · exact mem_append_right _ (mem_cons_of_mem _ hr)

/-- The first request that waits goes to the active ones. -/
theorem Tidy.toActive (h : Tidy q) {wait : List Req} (hw : q.wait = req :: wait) {new : Req}
    (hnew : new.numAcked = reset new) (hpending : q'.pending = q.pending) (hw' : q'.wait = wait)
    (ha : q'.active = q.active ++ [new]) (hcnt : q'.activeReqCnt = q.activeReqCnt + 1)
    (hb : q'.processBubble = true → q.processBubble = true ∨ new.recovers) : Tidy q' := by
  have hroom := h.room
  have hwaiting := h.waiting
  have hcounted := h.counted
  rw [hw, length_cons] at hroom hwaiting
  have hlen : q'.active.length = q.active.length + 1 := by
    rw [ha, length_append, length_singleton]
  refine ⟨⟨?_, ?_, ?_, fun hbubble => ?_⟩, fun r hr hno => ?_, ?_, ?_⟩
  · rw [hpending, hw']
    exact h.clean_tail hw
  · rw [hw']
    omega
  · omega
  · rw [ha]
    rcases hb hbubble with hold | hrec
    · obtain ⟨r, hr, hrec⟩ := h.bubble hold
      exact ⟨r, mem_append_left _ hr, hrec⟩
    · exact ⟨new, by simp, hrec⟩
  · rw [ha] at hr
    rcases mem_append.mp hr with hr | hr
    · exact h.acked r hr hno
    · obtain rfl := mem_singleton.mp hr
      exact hnew
  · rw [hw']
    omega
  · omega

theorem Tidy.regUpd (h : Tidy q) : Tidy q.regUpd := by
  unfold Queues.regUpd
  cases hw : q.wait with
  | nil => exact h
  | cons req wait =>
    have hroom := h.room
    have hwaiting := h.waiting
    rw [hw, length_cons] at hroom hwaiting
    have hreq := h.clean req (by simp [hw])
    dsimp only
    split
    · exact h.toActive hw hreq.acked rfl rfl rfl rfl .inl
    · refine ⟨⟨h.clean_tail hw, ?_, h.running, h.bubble⟩, h.acked, ?_, h.counted⟩
      · dsimp only
        omega
      · dsimp only
        omega

theorem Tidy.regUpdInSof (h : Tidy q) : Tidy q.regUpdInSof := by
  unfold Queues.regUpdInSof
  cases hw : q.wait with
  | nil => exact h
  | cons req wait =>
    have hroom := h.room
    have hwaiting := h.waiting
    rw [hw, length_cons] at hroom hwaiting
    have hclean := h.clean_tail hw
    dsimp only
    split
    · refine ⟨⟨hclean, ?_, h.running, h.bubble⟩, h.acked, ?_, h.counted⟩
      · dsimp only
        omega
      · dsimp only
        omega
    · refine ⟨⟨hclean, ?_, h.running, h.bubble⟩, h.acked, ?_, h.counted⟩
      · dsimp only
        omega
      · dsimp only
        omega

theorem Tidy.reportBubble (h : Tidy q) (linked notes : Bool) :
    Tidy (q.reportBubble linked notes) := by
  unfold Queues.reportBubble
  cases hw : q.wait with
  | nil => exact h
  | cons req wait =>
    have hreq := h.clean req (by simp [hw])
    have hacked : (req.bubble linked).numAcked = reset (req.bubble linked) := hreq.acked
    refine h.toActive hw hacked rfl rfl rfl rfl fun hb => ?_
    refine ((Bool.or_eq_true _ _).mp hb).imp_right fun hb => ?_
    -- the context notes a bubble just when it is that of a request to be looked after
    simp only [Bool.and_eq_true] at hb
    simp [Req.recovers, Req.bubble, hb.1.2, hb.2]

theorem clean_cleared (hreset : reset req = 0) :
    Clean { req with numAcked := 0, bubbleDetected := false } := ⟨rfl, hreset.symm⟩

theorem Tidy.reapply (h : Tidy q) (hreset : ∀ req ∈ q.active.head?, reset req = 0) :
    Tidy q.reapply := by
  unfold Queues.reapply
  cases ha : q.active with
  | nil => exact h
  | cons req active =>
    have hroom := h.room
    have hcounted := h.counted
    rw [ha, length_cons] at hroom hcounted
    refine ⟨⟨fun r hr => ?_, h.waiting, ?_, fun hb => absurd hb (by simp)⟩, fun r hr hno => ?_, ?_,
      ?_⟩
    · rcases mem_cons.mp hr with rfl | hr
      · exact clean_cleared (hreset req (by simp [ha]))
      · exact h.clean r hr
    · dsimp only
      omega
    · exact h.acked r (by rw [ha]; exact mem_cons_of_mem _ hr) hno
    · dsimp only
      omega
    · dsimp only
      omega

theorem Tidy.handleError (h : Tidy q) (hkept : ∀ req ∈ kept q.active, req.bubbleDetected = false)
    (hcounted : (q.active.length + q.wait.length : ℤ) ≤ q.activeReqCnt) (lastAppliedReqId : ℕ) :
    Tidy (q.handleError lastAppliedReqId) := by
  -- an active request whose bubble is looked after would be put back with it
  have hbubble : q.processBubble = false := by
    by_contra hne
    obtain ⟨req, hreq, hrec⟩ := h.bubble (by simpa using hne)
    have hmem : req ∈ kept q.active := by
      rw [← takeWhile_append_dropWhile (l := q.active) (p := (!·.bubbleReport))] at hreq
      rcases mem_append.mp hreq with hlow | hhigh
      · have := mem_takeWhile_imp hlow
        simp [hrec.2] at this
      · exact hhigh
    have hd := hkept req hmem
    rw [hrec.1] at hd
    contradiction
  have hactive : ∀ req ∈ kept q.active, Clean req := by
    intro req hreq
    have hd := hkept req hreq
    refine ⟨hd, h.acked req ((kept_suffix q.active).subset hreq) fun hrec => ?_⟩
    rw [hrec.1] at hd
    contradiction
  have hlists : Tidy q.errorInLists := by
    unfold Queues.errorInLists
    split
    · refine ⟨⟨fun r hr => ?_, by simp, by simp, fun hb => ?_⟩, by simp, by simp, ?_⟩
      · simp only [append_nil, mem_append] at hr
        rcases hr with hr | hr | hr
        · exact h.clean r (mem_append_right _ hr)
        · exact hactive r hr
        · exact h.clean r (mem_append_left _ hr)
      · rw [hbubble] at hb
        contradiction
      · simp only [length_nil]
        omega
    · refine ⟨⟨fun r hr => ?_, by simp, by simp, fun hb => ?_⟩, by simp, by simp, ?_⟩
      · simp only [append_nil, mem_append] at hr
        rcases hr with hr | hr
        · exact h.clean r (mem_append_right _ ((kept_suffix q.wait).subset hr))
        · exact h.clean r (mem_append_left _ hr)
      · rw [hbubble] at hb
        contradiction
      · simp only [length_nil]
        omega
  refine ⟨⟨fun r hr => ?_, hlists.waiting, hlists.running, hlists.bubble⟩, hlists.acked,
    hlists.room, hlists.counted⟩
  refine hlists.clean r ?_
  rcases mem_append.mp hr with hr | hr
  · exact mem_append_left _ (mem_of_mem_drop hr)
  · exact mem_append_right _ hr

theorem Tidy.bufDoneForRequest (h : Tidy q) {before after : List Req} {old : Req}
    (ha : q.active = before ++ old :: after) (handles : List ℕ) (lastFlushReq : ℕ)
    (hback : (old.ackHandles handles).1.done lastFlushReq = .retried → reset old = 0) :
    Tidy (q.bufDoneForRequest before after (old.ackHandles handles).1 lastFlushReq) := by
  have hroom := h.room
  have hcounted := h.counted
  rw [ha, length_append, length_cons] at hroom hcounted
  have hacked := ackHandles_acked (h.acked old (by simp [ha])) handles
  have hothers : ∀ r ∈ before ++ after, ¬ r.recovers → r.numAcked = reset r := fun r hr =>
    h.acked r (by
      rw [ha]
      simp only [mem_append, mem_cons] at hr ⊢
      tauto)
  have hrec := recovers_ackHandles old handles
  unfold Queues.bufDoneForRequest
  cases hdone : (old.ackHandles handles).1.done lastFlushReq with
  | unfinished =>
    refine ⟨⟨h.clean, h.waiting, ?_, fun hb => ?_⟩, fun r hr hno => ?_, ?_, ?_⟩
    · simp only [length_append, length_cons]
      omega
    · obtain ⟨r, hr, hr'⟩ := h.bubble hb
      rw [ha] at hr
      simp only [mem_append, mem_cons] at hr ⊢
      rcases hr with hr | rfl | hr
      · exact ⟨r, .inl hr, hr'⟩
      · exact ⟨_, .inr (.inl rfl), hrec.mpr hr'⟩
      · exact ⟨r, .inr (.inr hr), hr'⟩
    · simp only [mem_append, mem_cons] at hr
      rcases hr with hr | rfl | hr
      · exact hothers r (mem_append_left _ hr) hno
      · exact hacked hno
      · exact hothers r (mem_append_right _ hr) hno
    · simp only [length_append, length_cons]
      omega
    · simp only [length_append, length_cons]
      omega
  | flushed =>
    refine ⟨⟨h.clean, h.waiting, ?_, fun hb => absurd hb (by simp)⟩, hothers, ?_, ?_⟩
    · simp only [length_append]
      omega
    · simp only [length_append]
      omega
    · simp only [length_append]
      omega
  | retried =>
    refine ⟨⟨fun r hr => ?_, h.waiting, ?_, fun hb => absurd hb (by simp)⟩, hothers, ?_, ?_⟩
    · rcases mem_cons.mp hr with rfl | hr
      · refine clean_cleared ?_
        have hrecovers : old.recovers := by
          by_contra hno
          have hno' := fun hb => hno (hrec.mp hb)
          unfold Req.done at hdone
          split at hdone
          · contradiction
          split at hdone
          · next hb => exact hno' (by simpa [Req.recovers] using hb)
          · contradiction
        unfold reset
        rw [ackHandles_reset hrecovers]
        exact hback hdone
      · exact h.clean r hr
    · simp only [length_append]
      omega
    · simp only [length_append]
      omega
    · simp only [length_append]
      omega
  | completed =>
    refine ⟨⟨h.clean, h.waiting, ?_, fun hb => ?_⟩, hothers, ?_, ?_⟩
    · simp only [length_append]
      omega
    · -- the request whose bubble is looked after is another one
      obtain ⟨r, hr, hr'⟩ := h.bubble hb
      rw [ha] at hr
      simp only [mem_append, mem_cons] at hr ⊢
      rcases hr with hr | rfl | hr
      · exact ⟨r, .inl hr, hr'⟩
      · have hrec' := hrec.mpr hr'
        unfold Req.done at hdone
        split at hdone
        · contradiction
        split at hdone
        · split at hdone <;> contradiction
        · next hno => exact absurd hrec' (by simpa [Req.recovers] using hno)
      · exact ⟨r, .inr hr, hr'⟩
    · simp only [length_append]
      omega
    · simp only [length_append]
      omega

variable {packet : Packet}

theorem reset_fences (hf : ∀ f ∈ packet.fences, 0 < f.2) {req : Req}
    (hreq : req.fenceMapOut = packet.fences.map fun f => { resource := f.1, syncId := f.2 }) :
    reset req = 0 := by
  refine countP_eq_zero.mpr fun f hmem => ?_
  rw [hreq] at hmem
  obtain ⟨g, hg, rfl⟩ := mem_map.mp hmem
  have := hf g hg
  simp only [decide_eq_true_eq]
  omega

theorem clean_accept (old : Req) (hf : ∀ f ∈ packet.fences, 0 < f.2) :
    Clean (old.accept packet) := ⟨rfl, (reset_fences hf rfl).symm⟩

theorem Tidy.of_pending (h : Tidy q) (hclean : ∀ req ∈ q'.pending, Clean req)
    (hw : q'.wait = q.wait) (ha : q'.active = q.active) (hcnt : q'.activeReqCnt = q.activeReqCnt)
    (hb : q'.processBubble = true → q.processBubble = true) : Tidy q' := by
  refine ⟨⟨fun r hr => ?_, ?_, ?_, fun hb' => ?_⟩, ?_, ?_, ?_⟩
  · rcases mem_append.mp hr with hr | hr
    · exact hclean r hr
    · exact h.clean r (mem_append_right _ (hw ▸ hr))
  · exact hw ▸ h.waiting
  · exact ha ▸ h.running
  · exact ha ▸ h.bubble (hb hb')
  · exact ha ▸ h.acked
  · rw [ha, hw]
    exact h.room
  · rw [ha, hcnt]
    exact h.counted

theorem Tidy.config (hm : ConfigMove c packet q') (h : Tidy c.q) : Tidy q' := by
  have hpending : ∀ req ∈ c.q.pending, Clean req := fun req hreq =>
    h.clean req (mem_append_left _ hreq)
  cases hm with
  | same => exact h
  | untouched hfree => exact h.of_pending hpending rfl rfl rfl fun hb => hb
  | refused hfree => exact h.of_pending hpending rfl rfl rfl fun hb => hb
  | @first old free hfree hi hst hp hf =>
    refine h.of_pending (fun r hr => ?_) rfl rfl rfl fun hb => hb
    obtain rfl := mem_singleton.mp hr
    exact clean_accept old hf
  | @merged old req free pending hfree hi hst hp hno hf =>
    refine h.of_pending (fun r hr => ?_) rfl rfl rfl fun hb => hb
    have hreq := hpending req (by simp [hp])
    rcases mem_cons.mp hr with rfl | hr
    · -- it had no outputs, so nothing of it has been acknowledged
      have hnil := eq_nil_of_length_eq_zero hno
      have hacked := hreq.acked
      rw [reset, hnil] at hacked
      exact ⟨hreq.detected, hacked.trans (reset_fences hf rfl).symm⟩
    · exact hpending r (by simp [hp, hr])
  | @update old free hfree hi hf =>
    refine h.of_pending (fun r hr => ?_) rfl rfl rfl fun hb => hb
    have hl := rdropWhile_append_rtakeWhile (l := c.q.pending)
      (p := ((old.accept packet).requestId < ·.requestId))
    dsimp only [enqueueRequestInOrder] at hr
    simp only [mem_append, mem_cons] at hr
    rcases hr with hr | rfl | hr
    · exact hpending r (hl ▸ mem_append_left _ hr)
    · exact clean_accept old hf
    · exact hpending r (hl ▸ mem_append_right _ hr)

theorem Tidy.start {c' : Ctx} {hwRc : ℤ} (hm : StartMove c hwRc c') (hw : c.q.wait = [])
    (ha : c.q.active = []) (h : Tidy c.q) : Tidy c'.q := by
  cases hm with
  | refused => exact h
  | failed hp hacq hrc hs hl hq =>
    rw [hq]
    refine ⟨⟨h.clean, h.waiting, h.running, fun hb => absurd hb (by simp)⟩, h.acked, h.room, ?_⟩
    rw [ha]
    split
    · simp
    · simp
  | @waits req pending c' hp hs hl hq =>
    rw [hq]
    refine ⟨⟨fun r hr => h.clean r ?_, by simp [hw], by simp [ha], fun hb => absurd hb (by simp)⟩,
      ?_, by simp [hw, ha], by simp [ha]⟩
    · rw [hp]
      simp only [hw, nil_append, mem_append, mem_cons, not_mem_nil,
        or_false] at hr ⊢
      tauto
    · rw [ha]
      simp
  | @runs req pending c' hp hs hl hq =>
    have hreq := h.clean req (by simp [hp])
    rw [hq]
    refine ⟨⟨fun r hr => h.clean r ?_, by simp [hw], by simp [ha], fun hb => absurd hb (by simp)⟩,
      fun r hr hno => ?_, by simp [hw, ha], by simp [ha]⟩
    · rw [hp]
      simp only [hw, append_nil, mem_cons] at hr ⊢
      exact .inr hr
    · simp only [ha, nil_append, mem_singleton] at hr
      obtain rfl := hr
      exact hreq.acked

theorem Tidy.apply {apply : Apply} (hm : ApplyMove q apply q')
    (hc : q.processBubble = false → (∃ req ∈ q.pending.head?, req.requestId = apply.requestId) →
      q.activeReqCnt < 2 → q.wait = []) (h : Tidy q) : Tidy q' := by
  cases hm with
  | same => exact h
  | @failed req pending hp hb hid hcnt =>
    have hreq := h.clean req (by simp [hp])
    refine h.of_pending (fun r hr => ?_) rfl rfl rfl fun hb => hb
    rcases mem_cons.mp hr with rfl | hr
    · exact ⟨hreq.detected, hreq.acked⟩
    · exact h.clean r (by simp [hp, hr])
  | @applied req pending hp hb hid hcnt =>
    have hreq := h.clean req (by simp [hp])
    have hw := hc hb ⟨req, by simp [hp], hid⟩ hcnt
    have hcounted := h.counted
    refine ⟨⟨fun r hr => ?_, by simp [hw], h.running, h.bubble⟩, h.acked, ?_, hcounted⟩
    · simp only [hw, nil_append, mem_append, mem_singleton] at hr
      rcases hr with hr | rfl
      · exact h.clean r (by simp [hp, hr])
      · exact ⟨hreq.detected, hreq.acked⟩
    · simp only [hw, nil_append, length_singleton]
      omega

theorem Tidy.signal (h : Tidy q) (syncId : ℤ) : Tidy (signalElsewhere q syncId) := by
  have hreset : ∀ req : Req, reset (req.mark syncId) = reset req := by
    intro req
    unfold reset Req.mark
    rw [countP_map]
    refine countP_congr fun f hmem => ?_
    simp only [Function.comp_apply]
    split <;> rfl
  refine ⟨⟨fun r hr => ?_, ?_, ?_, fun hb => ?_⟩, fun r hr hno => ?_, ?_, ?_⟩
  · simp only [signalElsewhere, ← map_append] at hr
    obtain ⟨req, hreq, rfl⟩ := mem_map.mp hr
    have hclean := h.clean req hreq
    exact ⟨hclean.detected, hclean.acked.trans (hreset req).symm⟩
  · simp only [signalElsewhere, length_map]
    exact h.waiting
  · simp only [signalElsewhere, length_map]
    exact h.running
  · obtain ⟨req, hreq, hrec⟩ := h.bubble hb
    exact ⟨req.mark syncId, mem_map_of_mem hreq, hrec⟩
  · simp only [signalElsewhere] at hr
    obtain ⟨req, hreq, rfl⟩ := mem_map.mp hr
    exact (h.acked req hreq hno).trans (hreset req).symm
  · simp only [signalElsewhere, length_map]
    exact h.room
  · simp only [signalElsewhere, length_map]
    exact h.counted

theorem kind_step (hs : c.state = .activated) (i : Input) : (machine.step c i).1.kind = c.kind := by
  cases i with
  | acquireDev kind =>
    have hne : ¬ c.state = .available := by simp [hs]
    change (acquireDev c kind).1.kind = c.kind
    unfold acquireDev
    rw [if_neg hne]
  | acquireHw kind =>
    have hne : ¬ c.state = .acquired := by simp [hs]
    change (acquireHw c kind).1.kind = c.kind
    unfold acquireHw
    rw [if_neg hne]
  | releaseHw =>
    change (releaseHw c).kind = c.kind
    rw [releaseHw, hs]
    rfl
  | releaseDev =>
    change (releaseDev c).kind = c.kind
    rw [releaseDev, hs]
    dsimp only [releaseDevInTopState]
    split <;> rfl
  | link =>
    change (crmLink c).1.kind = c.kind
    rw [crmLink, if_neg (by simp [hs])]
  | unlink =>
    change (crmUnlink c).1.kind = c.kind
    rw [crmUnlink, hs]
    rfl
  | config packet env =>
    change (configDev c packet env).1.kind = c.kind
    rw [configDev, hs]
    exact (configDevInTopState_top c packet env).kind
  | start hwRc =>
    change (startDev c hwRc).1.kind = c.kind
    rw [startDev, if_neg (by simp [hs])]
  | stop =>
    change (stopDev c).kind = c.kind
    rw [stopDev, if_pos (.inr hs)]
    rfl
  | flush flush =>
    change (crmFlushReq c flush).1.kind = c.kind
    rw [crmFlushReq, hs]
    dsimp only [flushReqInTopState]
    split
    · rfl
    · split <;> rfl
  | apply apply hwRc => exact (applyReq_top c apply hwRc).kind
  | event e => exact (event_top c e).kind
  | signal syncId => rfl

def Calm (c : Ctx) : Prop := c.state = .activated → c.kind = .rdi → c.q.processBubble = false

theorem bufDoneForRequest_calm (h : q.processBubble = false) (before after : List Req) (req : Req)
    (lastFlushReq : ℕ) :
    (q.bufDoneForRequest before after req lastFlushReq).processBubble = false := by
  unfold Queues.bufDoneForRequest
  split
  · exact h
  · rfl
  · rfl
  · exact h

theorem bufDone_calm (h : c.q.processBubble = false) (handles : List ℕ) :
    (bufDoneInActivatedState c handles).1.q.processBubble = false := by
  unfold bufDoneInActivatedState
  split
  · exact h
  next req active ha =>
  have hfirst := bufDoneForRequest_calm h [] active (req.ackHandles handles).1 c.lastFlushReq
  dsimp only
  split
  · exact hfirst
  split
  · exact hfirst
  split
  · exact hfirst
  · exact bufDoneForRequest_calm hfirst ..

theorem calm_kept : Kept { event := fun c _ => c.kind = .rdi } (·.processBubble = false) where
  config _ hm _ h := by cases hm <;> exact h
  start hm _ _ _ h := by
    cases hm with
    | refused => exact h
    | failed hp hacq hrc hs hl hq => rw [hq]
    | waits hp hs hl hq => rw [hq]
    | runs hp hs hl hq => rw [hq]
  apply hm _ h := by cases hm <;> exact h
  event := by
    intro c e q' hm hk h
    cases hm with
    | same => exact h
    | error =>
      unfold Queues.handleError Queues.errorInPending Queues.errorInLists
      split <;> exact h
    | regUpd =>
      unfold Queues.regUpd
      split
      · exact h
      · split <;> exact h
    | regUpdInSof =>
      unfold Queues.regUpdInSof
      split
      · exact h
      · split <;> exact h
    | reportBubble e notes hnotes =>
      rw [hnotes hk]
      unfold Queues.reportBubble
      split
      · exact h
      · simp [h]
    | noBubble => rfl
    | reapply =>
      unfold Queues.reapply
      split
      · exact h
      · rfl
    | failActive => exact h
    | bufDone handles => exact bufDone_calm h handles
  flushPending _ h := h
  flushWaitAndActive _ := rfl
  noBubble _ := rfl
  release _ h := h
  stop _ := rfl
  setup _ _ _ h := h
  signal _ h := h

theorem Calm.step (h : Calm c) (hs : Settled c) (i : Input) : Calm (machine.step c i).1 := by
  intro hs' hk
  by_cases hact : c.state = .activated
  · rw [kind_step hact] at hk
    refine calm_kept.step hs ?_ (h hact hk)
    cases i with
    | config packet env => exact ⟨trivial, fun _ => trivial⟩
    | start hwRc => exact fun _ => trivial
    | apply apply hwRc => exact fun _ _ => trivial
    | event e => exact fun _ => hk
    | _ => trivial
  · rcases starts_or_applies c i with ⟨c₀, hwRc, hst⟩ | ⟨apply, hwRc, rfl⟩ | hq
    · have hne : c₀.state ≠ .activated := by
        rcases hst.start with rfl | ⟨packet, env, rfl, rfl⟩
        · exact hact
        · rw [(configDevInTopState_top c packet env).state]
          exact hact
      have hm := start_move c₀ hwRc
      rw [hst.step] at hs' ⊢
      change (startDevInReady c₀ hwRc).1.state = _ at hs'
      change (startDevInReady c₀ hwRc).1.q.processBubble = false
      generalize (startDevInReady c₀ hwRc).1 = c' at hm hs' ⊢
      cases hm with
      | refused => exact absurd hs' hne
      | failed hp hacq hrc hready hl hq =>
        rw [hready] at hs'
        contradiction
      | waits hp hs hl hq => rw [hq]
      | runs hp hs hl hq => rw [hq]
    · exact absurd ((applyReq_top c apply hwRc).state.symm.trans hs') hact
    · exact absurd hs' (hq.idle hact)

/-- A request is applied only when none waits. From the first request with bubble recovery on, no
active request is in a bubble when an error is handled, and those that wait are counted as well. A
request is put back after its bubble only if no output of it has been dealt with. And no buf done
runs out of requests. -/
def recoverable : Conds where
  apply c apply := c.q.processBubble = false →
    (∃ req ∈ c.q.pending.head?, req.requestId = apply.requestId) → c.q.activeReqCnt < 2 →
      c.q.wait = []
  event c
    | .error => handled c .error → (∀ req ∈ kept c.q.active, req.bubbleDetected = false) ∧
      (c.q.active.length + c.q.wait.length : ℤ) ≤ c.q.activeReqCnt
    | .epoch => Reapplies c → ∀ req ∈ c.q.active.head?, reset req = 0
    | .done handles => handled c (.done handles) → ¬ RunsOut c handles ∧
      ∀ {q before req after left}, Handed c handles q before req after left →
        (req.ackHandles left).1.done c.lastFlushReq = .retried → reset req = 0
    | _ => True

theorem tidy_kept :
    Kept
      { recoverable with
        event := fun c e => recoverable.event c e ∧ (c.kind = .rdi → c.q.processBubble = false) }
      Tidy where
  config _ hm _ h := h.config hm
  start hm hw ha _ h := h.start hm hw ha
  apply hm hc h := h.apply hm hc
  event := by
    intro c e q' hm hc h
    cases hm with
    | same => exact h
    | error hh => exact h.handleError (hc.1 hh).1 (hc.1 hh).2 _
    | regUpd => exact h.regUpd
    | regUpdInSof => exact h.regUpdInSof
    | reportBubble => exact h.reportBubble ..
    | noBubble =>
      exact ⟨⟨h.clean, h.waiting, h.running, fun hb => absurd hb (by simp)⟩, h.acked, h.room,
        h.counted⟩
    | reapply hr => exact h.reapply (hc.1 hr)
    | failActive hk =>
      have hroom := h.room
      refine ⟨⟨h.clean, h.waiting, by simp [Queues.failActive], fun hb => ?_⟩,
        by simp [Queues.failActive], ?_, ?_⟩
      · have hcalm := hc.2 hk
        rw [show c.q.failActive.processBubble = c.q.processBubble from rfl, hcalm] at hb
        contradiction
      · simp only [Queues.failActive, length_nil]
        omega
      · have := h.counted
        simp only [Queues.failActive, length_nil]
        omega
    | bufDone handles hh =>
      refine bufDone_kept h (hc.1 hh).1 fun hd h => ?_
      exact h.bufDoneForRequest hd.active _ _ ((hc.1 hh).2 hd)
  flushPending cancel h := by
    refine h.of_pending (fun r hr => ?_) rfl rfl rfl fun hb => hb
    refine h.clean r (mem_append_left _ ?_)
    cases cancel with
    | none => exact absurd hr (by simp [Queues.flushPending, flushReq])
    | some id => exact eraseP_sublist.subset hr
  flushWaitAndActive h := by
    refine ⟨⟨fun r hr => h.clean r (mem_append_left _ ?_), by simp [Queues.flushWaitAndActive],
      by simp [Queues.flushWaitAndActive], fun hb => absurd hb (by simp)⟩,
      by simp [Queues.flushWaitAndActive], by simp [Queues.flushWaitAndActive],
      by simp [Queues.flushWaitAndActive]⟩
    simpa [Queues.flushWaitAndActive] using hr
  noBubble h := ⟨⟨h.clean, h.waiting, h.running, fun hb => absurd hb (by simp)⟩, h.acked, h.room,
    h.counted⟩
  release ha h := ⟨⟨h.clean, h.waiting, h.running, h.bubble⟩, h.acked, h.room, by simp [ha]⟩
  stop h := ⟨⟨by simp [Queues.stop], by simp [Queues.stop], by simp [Queues.stop],
    fun hb => absurd hb (by simp [Queues.stop])⟩, by simp [Queues.stop], by simp [Queues.stop],
    by simp [Queues.stop]⟩
  setup hp hw ha h := by
    refine ⟨⟨by simp, by simp, by simp, fun hb => ?_⟩, by simp, by simp, ?_⟩
    · obtain ⟨r, hr, -⟩ := h.bubble hb
      rw [ha] at hr
      contradiction
    · have hcounted := h.counted
      rw [ha] at hcounted
      exact hcounted
  signal syncId h := h.signal syncId

theorem tidy_initial : Tidy initial.q := by
  refine ⟨⟨?_, ?_, ?_, ?_⟩, ?_, ?_, ?_⟩ <;> simp [initial]

theorem tidy_run {is : List Input} (hm : machine.Meets recoverable.Step initial is) :
    Tidy (machine.run initial is).1.q := by
  refine (machine.invariant_of_meets (I := fun c => Settled c ∧ Calm c ∧ Tidy c.q)
    (fun c i hc hi => ?_) ⟨settled_initial, fun h => by simp [initial] at h, tidy_initial⟩ hm).2.2
  obtain ⟨hs, hcalm, htidy⟩ := hc
  refine ⟨hs.step i, hcalm.step hs i, tidy_kept.step hs ?_ htidy⟩
  cases i with
  | event e => exact fun hact => ⟨hi hact, hcalm hact⟩
  | _ => exact hi

/-- It completes whenever all its buf dones have come, each on its own or several at once. -/
def Completes (req : Req) : Prop :=
  (req.fenceMapOut.map (·.resource)).Nodup → (∀ f ∈ req.fenceMapOut, f.elsewhere = false) →
    ∀ dones : List (List ℕ), (∀ f ∈ req.fenceMapOut, f.resource ∈ dones.flatten) →
      ∀ lastFlushReq, (req.ackAll dones).done lastFlushReq = .completed

theorem processBubble_of_again {apply : Apply} (h : (applyReq c apply 0).2.1 = eAgain) :
    c.q.processBubble = true := by
  have hproto : eProto ≠ eAgain := by decide
  have hfault : eFault ≠ eAgain := by decide
  have hok : (0 : ℤ) ≠ eAgain := by decide
  unfold applyReq applyReqInActivatedState at h
  split at h
  · exact absurd h hproto
  split at h
  · exact absurd h hfault
  split at h
  · exact absurd h hfault
  split at h
  · next hb => exact hb
  split at h
  · exact absurd h hfault
  split at h
  · exact absurd h hfault
  · exact absurd h hok

/-- As long as the critical steps go well, nothing is left of a bubble that is over: what is to be
applied again completes when its buf dones come, and an apply is put off only for a request whose
bubble is looked after. -/
theorem recovered_of_recoverable {is : List Input}
    (hm : machine.Meets recoverable.Step initial is) :
    Recovered (machine.run initial is).1.q ∧
      (∀ req ∈ (machine.run initial is).1.q.pending ++ (machine.run initial is).1.q.wait,
        Completes req) ∧
      ∀ apply, (applyReq (machine.run initial is).1 apply 0).2.1 = eAgain →
        ∃ req ∈ (machine.run initial is).1.q.active, req.recovers := by
  have h := tidy_run hm
  refine ⟨h.toRecovered, fun req hreq hres hf dones hall lastFlushReq => ?_, fun apply hrc => ?_⟩
  · rw [ackAll_eq]
    exact (h.clean req hreq).completes hres hf hall lastFlushReq
  · exact h.bubble (processBubble_of_again hrc)

theorem reappliedRun_recovered : Recovered (machine.run initial reappliedRun).1.q := by
  have hm : machine.Meets recoverable.Step initial reappliedRun :=
    ⟨trivial, trivial, ⟨trivial, fun _ => trivial⟩, fun _ => trivial, fun _ => trivial,
      fun _ => trivial, ⟨trivial, fun _ => trivial⟩, ⟨trivial, fun _ => trivial⟩,
      fun _ _ _ _ _ => by decide, fun _ hr => absurd hr.notifies (by decide),
      fun _ _ req hreq => by
        cases hreq
        rfl,
      fun _ _ req hreq => by
        cases hreq
        rfl,
      fun _ _ _ _ _ => by decide, trivial⟩
  exact (recovered_of_recoverable hm).1

/-- A second request misses its reg update, and then an error comes. -/
def errorInBubble : List Input :=
  [.acquireDev (some .pix), .link, .config { requestId := 1, init := true } {}, .start 0,
    .event .sof, .event .regUpdate, .config { requestId := 2, fences := [(3, 7)] } {},
    .apply { requestId := 2 } 0, .event .epoch, .event .error]

/-- It is to be applied again, but still in its bubble. -/
theorem errorInBubble_stale :
    ¬ ∀ is : List Input, (machine.run initial is).1.state = .activated →
      Recovered (machine.run initial is).1.q := by
  intro h
  have hclean := (h errorInBubble (by decide)).clean
  have hdetected : ∀ req ∈ (machine.run initial errorInBubble).1.q.pending,
      req.bubbleDetected = false := fun req hreq =>
    (hclean req (mem_append_left _ hreq)).detected
  revert hdetected
  decide

end KernelModules.Isp
