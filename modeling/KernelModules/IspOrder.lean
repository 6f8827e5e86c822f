import KernelModules.IspMoves

/-!
# The order of requests

Requests are to be applied in the order of their ids, and those that are put back are to come
before all later ones. Four steps put requests back at the head of the pending list. They are right
as long as nothing else is waiting or active behind what they put back.
-/

namespace KernelModules.Isp

open List

variable {c : Ctx} {q q' : Queues} {req : Req} {passed : List ℕ} {id : ℕ}

def runningIds (q : Queues) : List ℕ := (q.active ++ q.wait).map (·.requestId)

def pendingIds (q : Queues) : List ℕ := q.pending.map (·.requestId)

/-- The ids ascend along the pending list, and they are larger than those of all requests that wait
or are active. -/
structure Ordered (q : Queues) : Prop where
  ascending : (runningIds q ++ pendingIds q).Pairwise (· < ·)
  tame : q.wild = false

theorem Ordered.pending (h : Ordered q) : (pendingIds q).Pairwise (· < ·) :=
  (pairwise_append.mp h.ascending).2.1

theorem Ordered.running_lt (h : Ordered q) {id id' : ℕ} (hr : id ∈ runningIds q)
    (hp : id' ∈ pendingIds q) : id < id' :=
  (pairwise_append.mp h.ascending).2.2 id hr id' hp

/-- Ids that have been handed to the hardware. The pending ones among the others are larger. -/
structure Known (passed : List ℕ) (q : Queues) : Prop where
  running : ∀ id ∈ runningIds q, id ∈ passed
  pending : ∀ id ∈ pendingIds q, id ∈ passed ∨ ∀ id' ∈ passed, id' < id

/-- Requests leave the lists, but none is put back. -/
structure Forward (q q' : Queues) : Prop where
  running : (runningIds q').Sublist (runningIds q)
  pending : (pendingIds q').Sublist (pendingIds q)
  tame : q'.wild = q.wild

theorem Forward.refl (q : Queues) : Forward q q := ⟨.refl _, .refl _, rfl⟩

theorem Ordered.forward (h : Ordered q) (hf : Forward q q') : Ordered q' where
  ascending := h.ascending.sublist (hf.running.append hf.pending)
  tame := hf.tame.trans h.tame

theorem Known.forward (h : Known passed q) (hf : Forward q q') : Known passed q' where
  running id hid := h.running id (hf.running.subset hid)
  pending id hid := h.pending id (hf.pending.subset hid)

theorem Known.back (h : Known passed q)
    (hr : ∀ id ∈ runningIds q', id ∈ runningIds q)
    (hp : ∀ id ∈ pendingIds q', id ∈ runningIds q ∨ id ∈ pendingIds q) : Known passed q' where
  running id hid := h.running id (hr id hid)
  pending id hid := by
    rcases hp id hid with hrun | hpend
    · exact .inl (h.running id hrun)
    · exact h.pending id hpend

theorem forward_regUpd (q : Queues) : Forward q q.regUpd ∧ Forward q q.regUpdInSof := by
  unfold Queues.regUpd Queues.regUpdInSof
  cases hw : q.wait with
  | nil => exact ⟨.refl q, .refl q⟩
  | cons req wait =>
    dsimp only
    constructor
    all_goals
      split
      all_goals
        refine ⟨?_, .refl _, rfl⟩
        simp [runningIds, hw]

theorem forward_reportBubble (q : Queues) (linked notes : Bool) :
    Forward q (q.reportBubble linked notes) := by
  unfold Queues.reportBubble
  cases hw : q.wait with
  | nil => exact .refl q
  | cons req wait =>
    refine ⟨?_, .refl _, rfl⟩
    simp [runningIds, hw, Req.bubble]

theorem forward_failActive (q : Queues) : Forward q q.failActive := by
  refine ⟨?_, .refl _, rfl⟩
  simp [runningIds, Queues.failActive]

theorem forward_flushPending (q : Queues) (cancel : Option ℕ) :
    Forward q (q.flushPending cancel) := by
  refine ⟨.refl _, ?_, rfl⟩
  cases cancel with
  | none => exact nil_sublist _
  | some id => exact eraseP_sublist.map _

theorem forward_signal (q : Queues) (syncId : ℤ) : Forward q (signalElsewhere q syncId) := by
  have hids : ∀ l : List Req, (l.map (Req.mark syncId)).map (·.requestId) =
      l.map (·.requestId) := by
    intro l
    rw [map_map]
    rfl
  refine ⟨?_, ?_, rfl⟩
  · simp only [runningIds, signalElsewhere, map_append, hids]
    exact .refl _
  · simp only [pendingIds, signalElsewhere, hids]
    exact .refl _

variable {before after : List Req} {old : Req} {lastFlushReq : ℕ} {l : List Req}

theorem bufDoneForRequest_forward
    (ha : q.active = before ++ old :: after) (ho : req.requestId = old.requestId)
    (hd : req.done lastFlushReq ≠ .retried) :
    Forward q (q.bufDoneForRequest before after req lastFlushReq) := by
  have hleaves : Forward q { q with active := before ++ after } := by
    refine ⟨?_, .refl _, rfl⟩
    simp [runningIds, ha]
  unfold Queues.bufDoneForRequest
  cases hdone : req.done lastFlushReq with
  | unfinished =>
    refine ⟨?_, .refl _, rfl⟩
    simp [runningIds, ha, ho]
  | flushed => exact ⟨hleaves.running, hleaves.pending, rfl⟩
  | retried => exact absurd hdone hd
  | completed => exact ⟨hleaves.running, hleaves.pending, rfl⟩

theorem bufDoneForRequest_retried (q : Queues) (before after : List Req)
    (hd : req.done lastFlushReq = .retried) :
    runningIds (q.bufDoneForRequest before after req lastFlushReq) =
        (before ++ after ++ q.wait).map (·.requestId) ∧
      pendingIds (q.bufDoneForRequest before after req lastFlushReq) =
        req.requestId :: pendingIds q ∧
      (q.bufDoneForRequest before after req lastFlushReq).wild = q.wild := by
  unfold Queues.bufDoneForRequest
  rw [hd]
  exact ⟨rfl, rfl, rfl⟩

theorem Ordered.bufDoneForRequest (h : Ordered q)
    (ha : q.active = before ++ old :: after) (ho : req.requestId = old.requestId)
    (hlast : req.done lastFlushReq = .retried → after = [] ∧ q.wait = []) :
    Ordered (q.bufDoneForRequest before after req lastFlushReq) := by
  by_cases hd : req.done lastFlushReq = .retried
  · obtain ⟨hafter, hwait⟩ := hlast hd
    obtain ⟨hr, hp, hw⟩ := bufDoneForRequest_retried q before after hd
    refine ⟨?_, hw.trans h.tame⟩
    have hasc := h.ascending
    rw [runningIds, ha, hafter, hwait] at hasc
    rw [hr, hp, hafter, hwait, ho]
    simpa using hasc
  · exact h.forward (bufDoneForRequest_forward ha ho hd)

theorem Known.bufDoneForRequest (h : Known passed q)
    (ha : q.active = before ++ old :: after) (ho : req.requestId = old.requestId)
    (lastFlushReq : ℕ) : Known passed (q.bufDoneForRequest before after req lastFlushReq) := by
  by_cases hd : req.done lastFlushReq = .retried
  · obtain ⟨hr, hp, -⟩ := bufDoneForRequest_retried q before after hd
    have hrun : runningIds q = (before ++ old :: after ++ q.wait).map (·.requestId) := by
      rw [runningIds, ha]
    refine h.back (fun id hid => ?_) fun id hid => ?_
    · rw [hr] at hid
      rw [hrun]
      simp only [map_append, map_cons, mem_append, mem_cons] at hid ⊢
      tauto
    · rw [hp, ho] at hid
      rcases mem_cons.mp hid with rfl | hpend
      · exact .inl (by rw [hrun]; simp)
      · exact .inr hpend
  · exact h.forward (bufDoneForRequest_forward ha ho hd)

theorem Ordered.reapply (h : Ordered q) (hlast : q.active.length ≤ 1) (hw : q.wait = []) :
    Ordered q.reapply := by
  unfold Queues.reapply
  cases ha : q.active with
  | nil => exact h
  | cons req active =>
    rw [ha, length_cons] at hlast
    have hactive : active = [] := eq_nil_of_length_eq_zero (by omega)
    have hasc := h.ascending
    rw [runningIds, ha, hactive, hw] at hasc
    refine ⟨?_, h.tame⟩
    simpa [runningIds, pendingIds, hactive, hw] using hasc

theorem Known.reapply (h : Known passed q) : Known passed q.reapply := by
  unfold Queues.reapply
  cases ha : q.active with
  | nil => exact h
  | cons req active =>
    refine h.back (fun id hid => ?_) fun id hid => ?_
    · simp only [runningIds, ha, cons_append, map_cons] at hid ⊢
      exact mem_cons_of_mem _ hid
    · simp only [pendingIds, map_cons, mem_cons] at hid
      rcases hid with rfl | hpend
      · exact .inl (by simp [runningIds, ha])
      · exact .inr hpend

theorem kept_suffix (l : List Req) : kept l <:+ l := dropWhile_suffix _

variable {lastAppliedReqId : ℕ} {packet : Packet}

theorem length_le_errorCount (rest : List Req)
    (hreport : ∀ req ∈ l, req.bubbleReport = false)
    (hid : ∀ req ∈ l.dropLast, req.requestId < lastAppliedReqId) :
    l.length ≤ errorCount lastAppliedReqId (l ++ rest) := by
  induction l with
  | nil => exact Nat.zero_le _
  | cons req l ih =>
    have hreq := hreport req mem_cons_self
    rw [cons_append, errorCount, if_neg (by simp [hreq])]
    cases l with
    | nil =>
      split
      · simp
      · simp
    | cons next l =>
      rw [dropLast_cons_cons] at hid
      rw [if_pos (hid req mem_cons_self)]
      have := ih (fun r hr => hreport r (mem_cons_of_mem _ hr))
        fun r hr => hid r (mem_cons_of_mem _ hr)
      simp only [length_cons] at this ⊢
      omega

/-- The requests that wait are failed with those before them, when a request with bubble recovery is
active. -/
theorem Ordered.handleError (h : Ordered q)
    (hw : (∃ req ∈ q.active, req.bubbleReport = true) →
      (∀ req ∈ q.wait, req.bubbleReport = false) ∧
        ∀ req ∈ q.wait.dropLast, req.requestId < lastAppliedReqId) :
    Ordered (q.handleError lastAppliedReqId) := by
  have hasc := h.ascending
  rw [runningIds, pendingIds, ← map_append, append_assoc, pairwise_map] at hasc
  -- whatever is left is found in this order among all requests
  have hsub : (q.handleError lastAppliedReqId).pending.Sublist
      (q.active ++ (q.wait ++ q.pending)) := by
    unfold Queues.handleError Queues.errorInPending Queues.errorInLists
    dsimp only
    split
    · next hkept =>
      have hfound : ∃ req ∈ q.active, req.bubbleReport = true := by
        obtain ⟨req, rest, hcons⟩ := exists_cons_of_ne_nil hkept
        refine ⟨req, (kept_suffix q.active).subset (by simp [hcons]), ?_⟩
        have hhead := head_dropWhile_not (fun req : Req => !req.bubbleReport)
          (by exact hkept : dropWhile _ q.active ≠ [])
        have hreq : req = (kept q.active).head hkept := by simp [hcons]
        rw [hreq]
        simpa [kept] using hhead
      obtain ⟨hreport, hid⟩ := hw hfound
      have hle := length_le_errorCount (kept q.active ++ q.pending) hreport hid
      rw [drop_append, drop_eq_nil_of_le hle, nil_append]
      refine (drop_sublist _ _).trans ?_
      exact (kept_suffix q.active).sublist.append (sublist_append_right _ _)
    · refine (drop_sublist _ _).trans ?_
      refine .trans ?_ (sublist_append_right _ _)
      exact (kept_suffix q.wait).sublist.append (.refl _)
  have hrun : runningIds (q.handleError lastAppliedReqId) = [] := by
    unfold Queues.handleError Queues.errorInPending Queues.errorInLists
    split <;> rfl
  refine ⟨?_, ?_⟩
  · rw [hrun, nil_append, pendingIds, pairwise_map]
    exact hasc.sublist hsub
  · unfold Queues.handleError Queues.errorInPending Queues.errorInLists
    split <;> exact h.tame

theorem Known.handleError (h : Known passed q) (lastAppliedReqId : ℕ) :
    Known passed (q.handleError lastAppliedReqId) := by
  refine h.back (fun id hid => ?_) fun id hid => ?_
  · unfold Queues.handleError Queues.errorInPending Queues.errorInLists at hid
    dsimp only at hid
    split at hid
    · contradiction
    · contradiction
  · have hmem : id ∈ (q.wait ++ (q.active ++ q.pending)).map (·.requestId) := by
      obtain ⟨req, hreq, rfl⟩ := mem_map.mp hid
      refine mem_map_of_mem ?_
      unfold Queues.handleError Queues.errorInPending Queues.errorInLists at hreq
      dsimp only at hreq
      have hactive := (kept_suffix q.active).subset
      have hwait := (kept_suffix q.wait).subset
      split at hreq
      · have := mem_of_mem_drop hreq
        simp only [mem_append] at this ⊢
        rcases this with hmem | hmem | hmem
        · exact .inl hmem
        · exact .inr (.inl (hactive hmem))
        · exact .inr (.inr hmem)
      · have := mem_of_mem_drop hreq
        simp only [mem_append] at this ⊢
        rcases this with hmem | hmem
        · exact .inl (hwait hmem)
        · exact .inr (.inr hmem)
    simp only [runningIds, pendingIds, map_append, mem_append] at hmem ⊢
    tauto

theorem le_of_mem_rdropWhile (hl : (l.map (·.requestId)).Pairwise (· < ·))
    (hreq : req ∈ l.rdropWhile (id < ·.requestId)) : req.requestId ≤ id := by
  induction l using reverseRecOn with
  | nil => exact absurd hreq (by simp)
  | append_singleton l last ih =>
    rw [map_append, pairwise_append] at hl
    by_cases hlast : id < last.requestId
    · rw [rdropWhile_concat_pos _ _ _ (by simpa using hlast)] at hreq
      exact ih hl.1 hreq
    · rw [rdropWhile_concat_neg _ _ _ (by simpa using hlast)] at hreq
      rcases mem_append.mp hreq with hmem | hmem
      · have hlt := hl.2.2 _ (mem_map_of_mem hmem) last.requestId (by simp)
        omega
      · obtain rfl := mem_singleton.mp hmem
        omega

theorem mem_enqueueRequestInOrder :
    id ∈ (enqueueRequestInOrder l req).map (·.requestId) ↔
      id = req.requestId ∨ id ∈ l.map (·.requestId) := by
  have hl := rdropWhile_append_rtakeWhile (l := l) (p := (req.requestId < ·.requestId))
  conv_rhs => rw [← hl]
  unfold enqueueRequestInOrder
  simp only [map_append, map_cons, mem_append, mem_cons]
  tauto

theorem enqueueRequestInOrder_ascending
    (hl : (l.map (·.requestId)).Pairwise (· < ·)) (hnew : req.requestId ∉ l.map (·.requestId)) :
    ((enqueueRequestInOrder l req).map (·.requestId)).Pairwise (· < ·) := by
  have happ := rdropWhile_append_rtakeWhile (l := l) (p := (req.requestId < ·.requestId))
  have hbelow : ∀ r ∈ l.rdropWhile (req.requestId < ·.requestId),
      r.requestId < req.requestId := by
    intro r hr
    have hle := le_of_mem_rdropWhile hl hr
    have hmem : r ∈ l := by
      rw [← happ]
      exact mem_append_left _ hr
    have hne : r.requestId ≠ req.requestId := by
      rintro heq
      exact hnew (heq ▸ mem_map_of_mem hmem)
    omega
  have habove : ∀ r ∈ l.rtakeWhile (req.requestId < ·.requestId),
      req.requestId < r.requestId := by
    intro r hr
    simpa using mem_rtakeWhile_imp hr
  have hparts := hl
  rw [← happ, map_append, pairwise_append] at hparts
  obtain ⟨hdrop, htake, hcross⟩ := hparts
  rw [enqueueRequestInOrder, map_append, map_cons, pairwise_append]
  refine ⟨hdrop, pairwise_cons.mpr ⟨?_, htake⟩, ?_⟩
  · intro id hid
    obtain ⟨r, hr, rfl⟩ := mem_map.mp hid
    exact habove r hr
  · intro id hid id' hid'
    rcases mem_cons.mp hid' with rfl | hmem
    · obtain ⟨r, hr, rfl⟩ := mem_map.mp hid
      exact hbelow r hr
    · exact hcross id hid id' hmem

theorem Settled.runningIds (h : Settled c) (hs : c.state ≠ .activated) : runningIds c.q = [] := by
  obtain ⟨hw, ha⟩ := h.idle hs
  rw [Isp.runningIds, hw, ha]
  rfl

/-- Before the start, a packet merged into the first request has a smaller id than the pending
updates. An update has an id that is not pending and larger than all that have been `passed` by. -/
def inTurn (passed : List ℕ) (c : Ctx) (packet : Packet) : Prop :=
  if packet.init then
    c.state ≠ .activated → ∀ req ∈ c.q.pending.tail, packet.requestId < req.requestId
  else packet.requestId ∉ pendingIds c.q ∧ ∀ id ∈ passed, id < packet.requestId
deriving Decidable

theorem Ordered.config (hs : Settled c) (hm : ConfigMove c packet q')
    (hc : inTurn (runningIds c.q) c packet) (h : Ordered c.q) : Ordered q' := by
  have hasc := h.ascending
  cases hm with
  | same => exact h
  | untouched hfree => exact ⟨hasc, h.tame⟩
  | refused hfree => exact ⟨hasc, h.tame⟩
  | first hfree hi hst hp hf =>
    refine ⟨?_, h.tame⟩
    have hrun := hs.runningIds hst
    simp only [runningIds] at hrun ⊢
    rw [hrun]
    simp [pendingIds]
  | @merged old req free pending hfree hi hst hp hno hf =>
    refine ⟨?_, h.tame⟩
    have hrun := hs.runningIds hst
    rw [inTurn, if_pos hi, hp] at hc
    have htail := h.pending
    rw [pendingIds, hp, map_cons, pairwise_cons] at htail
    simp only [runningIds] at hrun ⊢
    rw [hrun, nil_append, pendingIds, map_cons, pairwise_cons]
    refine ⟨?_, htail.2⟩
    intro id hid
    obtain ⟨r, hr, rfl⟩ := mem_map.mp hid
    exact hc hst r hr
  | @update old free hfree hi hf =>
    rw [inTurn, if_neg (by simp [hi])] at hc
    obtain ⟨hnew, hlarger⟩ := hc
    have hid : (old.accept packet).requestId = packet.requestId := rfl
    refine ⟨?_, h.tame⟩
    refine pairwise_append.mpr ⟨(pairwise_append.mp hasc).1, ?_, ?_⟩
    · exact enqueueRequestInOrder_ascending h.pending (hid ▸ hnew)
    · intro id hrun id' hpend
      rcases mem_enqueueRequestInOrder.mp hpend with rfl | hpend
      · exact hlarger id hrun
      · exact h.running_lt hrun hpend

theorem Known.config (hm : ConfigMove c packet q') (hst : c.state = .activated)
    (hc : inTurn passed c packet) (h : Known passed c.q) : Known passed q' := by
  cases hm with
  | same => exact h
  | untouched hfree => exact ⟨h.running, h.pending⟩
  | refused hfree => exact ⟨h.running, h.pending⟩
  | first hfree hi hne => exact absurd hst hne
  | merged hfree hi hne => exact absurd hst hne
  | @update old free hfree hi hf =>
    rw [inTurn, if_neg (by simp [hi])] at hc
    refine ⟨h.running, fun id hpend => ?_⟩
    rcases mem_enqueueRequestInOrder.mp hpend with rfl | hpend
    · exact .inr hc.2
    · exact h.pending id hpend

theorem Ordered.start {c' : Ctx} {hwRc : ℤ} (hm : StartMove c hwRc c') (hw : c.q.wait = [])
    (ha : c.q.active = []) (h : Ordered c.q) : Ordered c'.q := by
  have hasc := h.ascending
  cases hm with
  | refused => exact h
  | failed hp hacq hrc hs hl hq =>
    rw [hq]
    exact ⟨hasc, h.tame⟩
  | waits hp hs hl hq =>
    rw [hq]
    refine ⟨?_, h.tame⟩
    simpa [runningIds, pendingIds, hw, ha, hp] using hasc
  | runs hp hs hl hq =>
    rw [hq]
    refine ⟨?_, h.tame⟩
    simpa [runningIds, pendingIds, hw, ha, hp] using hasc

theorem Ordered.apply {apply : Apply} (hm : ApplyMove q apply q') (h : Ordered q) : Ordered q' := by
  have hasc := h.ascending
  cases hm with
  | same => exact h
  | failed hp =>
    refine ⟨?_, h.tame⟩
    simpa [runningIds, pendingIds, hp] using hasc
  | applied hp =>
    refine ⟨?_, h.tame⟩
    simpa [runningIds, pendingIds, hp] using hasc

/-- What a step that puts requests back finds: an error that finds an active request with bubble
recovery gives up all that wait; a request that is put back after its bubble is the last one that
runs; and no buf done runs out of requests. -/
def orderly (c : Ctx) : Event → Prop
  | .error => handled c .error → (∃ req ∈ c.q.active, req.bubbleReport = true) →
      (∀ req ∈ c.q.wait, req.bubbleReport = false) ∧
        ∀ req ∈ c.q.wait.dropLast, req.requestId < c.lastAppliedReqId
  | .epoch => Reapplies c → c.q.active.length ≤ 1 ∧ c.q.wait = []
  | .done handles => handled c (.done handles) → ¬ RunsOut c handles ∧
      ∀ {q before req after left}, Handed c handles q before req after left →
        (req.ackHandles left).1.done c.lastFlushReq = .retried → after = [] ∧ q.wait = []
  | _ => True

theorem ordered_kept :
    Kept { config := fun c => inTurn (runningIds c.q) c, event := orderly } Ordered where
  config hs hm hc h := h.config hs hm hc
  start hm hw ha _ h := h.start hm hw ha
  apply hm _ h := h.apply hm
  event := by
    intro c e q' hm hc h
    cases hm with
    | same => exact h
    | error hh => exact h.handleError (hc hh)
    | regUpd => exact h.forward (forward_regUpd _).1
    | regUpdInSof => exact h.forward (forward_regUpd _).2
    | reportBubble => exact h.forward (forward_reportBubble ..)
    | noBubble => exact ⟨h.ascending, h.tame⟩
    | reapply hr => exact h.reapply (hc hr).1 (hc hr).2
    | failActive => exact h.forward (forward_failActive _)
    | bufDone handles hh =>
      refine bufDone_kept h (hc hh).1 fun hd h => ?_
      exact h.bufDoneForRequest hd.active (ackHandles_same ..).2 ((hc hh).2 hd)
  flushPending cancel h := h.forward (forward_flushPending _ cancel)
  flushWaitAndActive h := h.forward ⟨nil_sublist _, .refl _, rfl⟩
  noBubble h := ⟨h.ascending, h.tame⟩
  release _ h := ⟨h.ascending, h.tame⟩
  stop h := h.forward ⟨nil_sublist _, nil_sublist _, rfl⟩
  setup _ _ _ h := h.forward ⟨nil_sublist _, nil_sublist _, rfl⟩
  signal syncId h := h.forward (forward_signal _ syncId)

theorem known_kept (passed : List ℕ) :
    Kept
      { config := fun c packet => c.state = .activated ∧ inTurn passed c packet
        start := fun _ _ => False
        apply := fun _ _ => False
        event := orderly }
      (Known passed) where
  config _ hm hc h := h.config hm hc.1 hc.2
  start _ _ _ hc := hc.elim
  apply _ hc := hc.elim
  event := by
    intro c e q' hm hc h
    cases hm with
    | same => exact h
    | error hh => exact h.handleError _
    | regUpd => exact h.forward (forward_regUpd _).1
    | regUpdInSof => exact h.forward (forward_regUpd _).2
    | reportBubble => exact h.forward (forward_reportBubble ..)
    | noBubble => exact ⟨h.running, h.pending⟩
    | reapply hr => exact h.reapply
    | failActive => exact h.forward (forward_failActive _)
    | bufDone handles hh =>
      refine bufDone_kept h (hc hh).1 fun hd h => ?_
      exact h.bufDoneForRequest hd.active (ackHandles_same ..).2 _
  flushPending cancel h := h.forward (forward_flushPending _ cancel)
  flushWaitAndActive h := h.forward ⟨nil_sublist _, .refl _, rfl⟩
  noBubble h := ⟨h.running, h.pending⟩
  release _ h := ⟨h.running, h.pending⟩
  stop h := h.forward ⟨nil_sublist _, nil_sublist _, rfl⟩
  setup _ _ _ h := h.forward ⟨nil_sublist _, nil_sublist _, rfl⟩
  signal syncId h := h.forward (forward_signal _ syncId)

end KernelModules.Isp
