import KernelModules.HtcQueues

/-!
# Credits of an HTC endpoint

The credits of a packet are taken when it is pulled. They are given back where `hif_send_head`
fails, for all packets that are left, but not where the padding credit is missing, the header is
missing or the buffer is not mapped.
-/

namespace KernelModules.Htc

def Output.sent? : Output → Option Packet
  | .sent packet => some packet
  | _ => none

def sentOf (outs : List Output) : List Packet := outs.filterMap Output.sent?

def Event.reported : Event → ℤ
  | .creditRpt credits => credits.toNat
  | _ => 0

def reported (events : List Event) : ℤ := (events.map Event.reported).sum

/-- `htc_issue_packets` does not fail in front of `hif_send_head` while it has packets. -/
def reclaims (ep : Endpoint) (s : State) : Event → Prop
  | .issue env => s.phase = .issuing → s.sendQueue ≠ [] →
      (ep.hasPaddingCredit = true → env.padding = true) ∧
        (ep.creditFlow = true → env.hdr = true ∧ env.mapped = true)
  | _ => True

/-- The credits are what they were and what was reported, less what HIF has taken and what the
draining thread has pulled; never negative. No packet in TxQueue holds a credit, and outside of
`htc_issue_packets` none is held. -/
structure Conserved (txCredits : ℤ) (events : List Event) (outs : List Output) (s : State) : Prop where
  nonneg : 0 ≤ s.txCredits
  sum : s.txCredits = txCredits + reported events - used (sentOf outs) - used s.sendQueue
  empty : s.phase ≠ .issuing → s.sendQueue = []

theorem used_cons (packet : Packet) (packets : List Packet) :
    used (packet :: packets) = packet.creditsUsed + used packets := List.sum_cons

theorem used_append (a b : List Packet) : used (a ++ b) = used a + used b := by
  unfold used
  rw [List.map_append, List.sum_append]

theorem sentOf_append (a b : List Output) : sentOf (a ++ b) = sentOf a ++ sentOf b :=
  List.filterMap_append

theorem reported_concat (events : List Event) (e : Event) :
    reported (events ++ [e]) = reported events + e.reported := by
  unfold reported
  rw [List.map_append, List.sum_append, List.map_singleton, List.sum_singleton]

theorem used_nonneg (packets : List Packet) : 0 ≤ used packets := by
  induction packets with
  | nil => exact Int.le_refl 0
  | cons packet packets ih =>
    rw [used_cons]
    omega

variable {ep : Endpoint}

variable {credits : ℤ} {e : Event} {s' : State}

theorem pullCreditBased_credits (pm : List Bool) (queue : List Packet)
    (hcredits : 0 ≤ credits) :
    (pullCreditBased ep pm credits queue).2.1 + used (pullCreditBased ep pm credits queue).1 = credits ∧
      0 ≤ (pullCreditBased ep pm credits queue).2.1 := by
  induction queue generalizing pm credits with
  | nil => exact ⟨Int.add_zero _, hcredits⟩
  | cons packet queue ih =>
    unfold pullCreditBased
    dsimp only
    split
    · exact ⟨Int.add_zero _, hcredits⟩
    · split
      · exact ⟨Int.add_zero _, hcredits⟩
      · next hroom =>
          have hleft : 0 ≤ credits - creditsRequired ep packet := by
            by_cases hzero : ep.isEndpoint0 = true
            · have hnone : creditsRequired ep packet = 0 := if_pos hzero
              omega
            · have hle : ¬credits < creditsRequired ep packet := fun hlt => hroom ⟨hzero, hlt⟩
              omega
          obtain ⟨hsum, hnonneg⟩ := ih pm.tail hleft
          refine ⟨?_, hnonneg⟩
          rw [used_cons]
          dsimp only
          omega

theorem used_pullResources (pm : List Bool) (resources : ℤ) (queue : List Packet) :
    used (pullResources pm resources queue).1 = 0 := by
  induction queue generalizing pm resources with
  | nil => rfl
  | cons packet queue ih =>
    unfold pullResources
    split
    · rfl
    · split
      · rfl
      · rw [used_cons, ih]
        rfl

theorem pullPackets_credits (ep : Endpoint) (pm : List Bool) (resources : ℤ) (queue : List Packet)
    (hcredits : 0 ≤ credits) :
    (pullPackets ep pm resources credits queue).2.1 +
        used (pullPackets ep pm resources credits queue).1 = credits ∧
      0 ≤ (pullPackets ep pm resources credits queue).2.1 := by
  have hqueue : ∀ pm queue, (pullQueue ep pm resources credits queue).2.1 +
      used (pullQueue ep pm resources credits queue).1 = credits ∧
        0 ≤ (pullQueue ep pm resources credits queue).2.1 := by
    intro pm queue
    unfold pullQueue
    split
    · exact pullCreditBased_credits pm queue hcredits
    · rw [used_pullResources]
      exact ⟨Int.add_zero _, hcredits⟩
  unfold pullPackets
  split
  · exact hqueue pm queue
  · exact hqueue [] _

structure Undisturbed (s s' : State) : Prop where
  txCredits : s'.txCredits = s.txCredits
  sendQueue : s'.sendQueue = s.sendQueue
  phase : s.phase = .issuing → s'.phase = .issuing

theorem Undisturbed.refl (s : State) : Undisturbed s s := ⟨rfl, rfl, id⟩

theorem Undisturbed.trans {s t u : State} (h : Undisturbed s t) (h' : Undisturbed t u) :
    Undisturbed s u where
  txCredits := h'.txCredits.trans h.txCredits
  sendQueue := h'.sendQueue.trans h.sendQueue
  phase := fun hphase => h'.phase (h.phase hphase)

theorem enter_undisturbed (s : State) : Undisturbed s (enter s) := by
  unfold enter
  split
  · next hidle =>
      refine ⟨rfl, rfl, fun hissuing => ?_⟩
      rw [hidle] at hissuing
      cases hissuing
  · exact Undisturbed.refl s

theorem enqueue_undisturbed (s : State) (packet : Packet) : Undisturbed s (enqueue s packet) := by
  unfold enqueue
  split
  · exact ⟨rfl, rfl, id⟩
  · exact ⟨rfl, rfl, id⟩

theorem sent_sendPacketCompletion (ep : Endpoint) (s : State) (packet : Packet) (status : Status) :
    (sendPacketCompletion ep s packet status).sent? = none := by
  rcases sendPacketCompletion_cases ep s packet status with h | h
  all_goals
    rw [h]
    rfl

theorem sentOf_refused (ep : Endpoint) (s : State) (packet : Packet) (status : Status) :
    sentOf [.accepted packet, sendPacketCompletion ep s packet status] = [] :=
  List.filterMap_cons_none (sent_sendPacketCompletion ep s packet status)

theorem sendPkt_undisturbed (ep : Endpoint) (s : State) (packet : Packet) (env : SendEnv) :
    Undisturbed s (sendPkt ep s packet env).1 ∧ sentOf (sendPkt ep s packet env).2 = [] := by
  unfold sendPkt
  split
  · exact ⟨Undisturbed.refl s, rfl⟩
  · dsimp only
    have hseq : Undisturbed s { s with seqNo := (s.seqNo + 1) % 256 } := ⟨rfl, rfl, id⟩
    split
    · exact ⟨hseq, rfl⟩
    · split
      · exact ⟨hseq, sentOf_refused ..⟩
      · exact ⟨(hseq.trans (enqueue_undisturbed _ _)).trans (enter_undisturbed _), rfl⟩

theorem complete_undisturbed (ep : Endpoint) (s : State) (nbuf : ℕ) :
    Undisturbed s (complete ep s nbuf).1 ∧ sentOf (complete ep s nbuf).2 = [] := by
  unfold complete
  dsimp only
  split
  · refine ⟨?_, rfl⟩
    split
    · exact enter_undisturbed s
    · exact Undisturbed.refl s
  · refine ⟨?_, List.filterMap_cons_none (sent_sendPacketCompletion ..)⟩
    have hlookup : Undisturbed s
        { s with lookupQueue := s.lookupQueue.eraseP (·.nbuf = nbuf) } := ⟨rfl, rfl, id⟩
    split
    · exact hlookup.trans (enter_undisturbed _)
    · exact hlookup

theorem sentOf_map {f : Packet → Output} (hf : ∀ packet, (f packet).sent? = none)
    (queue : List Packet) : sentOf (queue.map f) = [] := by
  unfold sentOf
  rw [List.filterMap_map]
  exact List.filterMap_eq_nil_iff.mpr fun packet _ => hf packet

theorem sentOf_flush (ep : Endpoint) (s : State) : sentOf (flush ep s).2 = [] :=
  sentOf_map (fun _ => sent_sendPacketCompletion ..) s.txQueue

theorem sentOf_flushLookup (ep : Endpoint) (s : State) (callEpCallback : Bool) :
    sentOf (flushLookup ep s callEpCallback).2 = [] := by
  apply sentOf_map
  intro packet
  split
  · exact sent_sendPacketCompletion ..
  · rfl

variable {txCredits : ℤ} {events : List Event} {outs : List Output} {s : State}

theorem conserved_start (hcredits : 0 ≤ txCredits) :
    Conserved txCredits [] [] (State.start txCredits) where
  nonneg := hcredits
  sum := by simp [State.start, reported, sentOf, used]
  empty := fun _ => rfl

theorem Conserved.undisturbed (h : Conserved txCredits events outs s) {new : List Output}
    (hs : Undisturbed s s') (hnew : sentOf new = [])
    (he : e.reported = 0) : Conserved txCredits (events ++ [e]) (outs ++ new) s' where
  nonneg := by
    rw [hs.txCredits]
    exact h.nonneg
  sum := by
    have hsum := h.sum
    rw [hs.txCredits, hs.sendQueue, reported_concat, sentOf_append, hnew, List.append_nil]
    omega
  empty := by
    intro hphase
    rw [hs.sendQueue]
    exact h.empty fun hissuing => hphase (hs.phase hissuing)

theorem Conserved.moved (h : Conserved txCredits events outs s)
    (he : e.reported = 0) (hnonneg : 0 ≤ s'.txCredits)
    (hsum : s'.txCredits + used s'.sendQueue = s.txCredits + used s.sendQueue)
    (hempty : s'.phase ≠ .issuing → s'.sendQueue = []) :
    Conserved txCredits (events ++ [e]) (outs ++ []) s' where
  nonneg := hnonneg
  sum := by
    have hbefore := h.sum
    rw [reported_concat, List.append_nil]
    omega
  empty := hempty

theorem Conserved.pull (h : Conserved txCredits events outs s) (pm : List Bool) (resources : ℤ) :
    Conserved txCredits (events ++ [.pull pm resources]) (outs ++ [])
      (pull ep s pm resources) := by
  generalize hs' : Htc.pull ep s pm resources = s'
  have hcases : Pulled ep s pm resources s' := hs' ▸ pull_cases ep s pm resources
  cases hcases with
  | stay => exact h.moved rfl h.nonneg rfl h.empty
  | done hphase => exact h.moved rfl h.nonneg rfl fun _ => sendQueue_of_pulling s h.empty hphase
  | packets hphase hr =>
    obtain ⟨hsum, hnonneg⟩ := pullPackets_credits ep pm resources s.txQueue h.nonneg
    rw [← hr] at hsum hnonneg
    have hnone : used [] = 0 := rfl
    apply h.moved rfl hnonneg
    · rw [sendQueue_of_pulling s h.empty hphase]
      dsimp only
      omega
    · intro hnot
      by_contra hsome
      exact hnot (if_neg hsome)

theorem Conserved.issue (h : Conserved txCredits events outs s) {env : IssueEnv}
    (hreclaims : reclaims ep s (.issue env)) :
    Conserved txCredits (events ++ [.issue env]) (outs ++ (issue ep s env).2)
      (issue ep s env).1 := by
  have hok : ∀ packet rest, s.phase = .issuing → s.sendQueue = packet :: rest →
      (ep.hasPaddingCredit = true → env.padding = true) ∧
        (ep.creditFlow = true → env.hdr = true ∧ env.mapped = true) := by
    intro packet rest hphase hqueue
    apply hreclaims hphase
    rw [hqueue]
    exact List.cons_ne_nil _ _
  have hnone : used [] = 0 := rfl
  generalize hr : Htc.issue ep s env = r
  have hcases : Issued ep s env r := hr ▸ issue_cases ep s env
  cases hcases with
  | stay => exact h.moved rfl h.nonneg rfl h.empty
  | padding hphase hmissing =>
    have hqueue : s.sendQueue = [] := by
      by_contra hsome
      exact hmissing.2 ((hreclaims hphase hsome).1 hmissing.1)
    have hsame : used (putBack s).sendQueue = used s.sendQueue := by
      rw [hqueue]
      rfl
    exact h.moved rfl h.nonneg (congrArg (s.txCredits + ·) hsame) fun _ => rfl
  | done hphase hqueue => exact h.moved rfl h.nonneg rfl fun _ => hqueue
  | header hphase hqueue hpad hmissing =>
    exact absurd ((hok _ _ hphase hqueue).2 hmissing.1).1 hmissing.2
  | mapping hphase hqueue hpad hmissing =>
    exact absurd ((hok _ _ hphase hqueue).2 hmissing.1).2 hmissing.2
  | @sent packet rest hphase hqueue =>
    have hsum := h.sum
    refine ⟨h.nonneg, ?_, fun hnot => absurd hphase hnot⟩
    have hone : used (sentOf [.sent packet]) = packet.creditsUsed := Int.add_zero _
    rw [hqueue, used_cons] at hsum
    rw [reported_concat, sentOf_append, used_append, hone]
    dsimp only [Event.reported]
    omega
  | refused hphase =>
    have hused := used_nonneg s.sendQueue
    have hnonneg := h.nonneg
    apply h.moved rfl
    · dsimp only [putBack]
      omega
    · dsimp only [putBack]
      omega
    · exact fun _ => rfl

theorem Conserved.creditRpt (h : Conserved txCredits events outs s) (credits : UInt8) :
    Conserved txCredits (events ++ [.creditRpt credits]) outs (creditRpt s credits) := by
  have hreport : Conserved txCredits (events ++ [.creditRpt credits]) outs
      { s with txCredits := s.txCredits + credits.toNat } := by
    refine ⟨?_, ?_, h.empty⟩
    · have hnonneg := h.nonneg
      dsimp only
      omega
    · have hsum := h.sum
      rw [reported_concat]
      dsimp only [Event.reported]
      omega
  have hstep : ∀ s', Undisturbed { s with txCredits := s.txCredits + credits.toNat } s' →
      Conserved txCredits (events ++ [.creditRpt credits]) outs s' := by
    intro s' hs
    refine ⟨?_, ?_, ?_⟩
    · rw [hs.txCredits]
      exact hreport.nonneg
    · rw [hs.txCredits, hs.sendQueue]
      exact hreport.sum
    · intro hphase
      rw [hs.sendQueue]
      exact hreport.empty fun hissuing => hphase (hs.phase hissuing)
  unfold Htc.creditRpt
  dsimp only
  split
  · exact hstep _ (enter_undisturbed _)
  · exact hstep _ (Undisturbed.refl _)

theorem Conserved.step (h : Conserved txCredits events outs s)
    (hreclaims : reclaims ep s e) :
    Conserved txCredits (events ++ [e]) (outs ++ ((htc ep).step s e).2) ((htc ep).step s e).1 := by
  cases e with
  | send packet env =>
    obtain ⟨hs, hnew⟩ := sendPkt_undisturbed ep s packet env
    exact h.undisturbed hs hnew rfl
  | trySend => exact h.undisturbed (enter_undisturbed s) rfl rfl
  | pull pm resources => exact h.pull pm resources
  | issue env => exact h.issue hreclaims
  | complete nbuf =>
    obtain ⟨hs, hnew⟩ := complete_undisturbed ep s nbuf
    exact h.undisturbed hs hnew rfl
  | creditRpt credits =>
    change Conserved _ _ (outs ++ []) _
    rw [List.append_nil]
    exact h.creditRpt credits
  | flush => exact h.undisturbed ⟨rfl, rfl, id⟩ (sentOf_flush ep s) rfl
  | flushLookup callEpCallback =>
    exact h.undisturbed ⟨rfl, rfl, id⟩ (sentOf_flushLookup ep s callEpCallback) rfl
  | setNodrop nodrop => exact h.undisturbed ⟨rfl, rfl, id⟩ rfl rfl
  | targetStatus connected => exact h.undisturbed ⟨rfl, rfl, id⟩ rfl rfl

def creditEndpoint : Endpoint where
  creditFlow := true
  isEndpoint0 := false
  wmiControl := false
  txCreditSize := 1792
  txCreditsPerMaxMsg := 1
  maxTxQueueDepth := 8
  hasSendFull := false
  hasTxComplete := true
  hasPaddingCredit := false
  asyncUpdate := false

def shortPacket (nbuf : ℕ) : Packet where
  nbuf := nbuf
  actualLength := 64
  autoPm := false
  numFrags := 1
  seqNo := 0
  creditsUsed := 0
  needCreditUpdate := false

def sendOk (nbuf : ℕ) : Event := .send (shortPacket nbuf) ⟨true, true, true, false⟩

/-- As long as `htc_issue_packets` only fails in `hif_send_head`, no credit is lost. -/
theorem conserved_of_reclaims (ep : Endpoint) {txCredits : ℤ} (hcredits : 0 ≤ txCredits)
    {events : List Event} (hreclaims : (htc ep).Meets (reclaims ep) (State.start txCredits) events) :
    Conserved txCredits events ((htc ep).run (State.start txCredits) events).2
      ((htc ep).run (State.start txCredits) events).1 :=
  (htc ep).history_of_meets (fun _ _ _ _ h hc => h.step hc) (conserved_start hcredits) hreclaims

def hifFull : List Event :=
  [sendOk 1, sendOk 2, .pull [] 0, .issue ⟨true, true, true, true⟩, .issue ⟨true, true, true, false⟩,
    .creditRpt 1]

theorem hifFull_conserved :
    Conserved 2 hifFull ((htc creditEndpoint).run (State.start 2) hifFull).2
      ((htc creditEndpoint).run (State.start 2) hifFull).1 :=
  conserved_of_reclaims creditEndpoint (by decide) (by
    refine ⟨trivial, trivial, trivial, ?_, ?_, trivial, trivial⟩ <;>
      exact fun _ _ => ⟨by decide, by decide⟩)

/-- The packet whose buffer is not mapped is in TxQueue again, and its credit is gone. -/
theorem unmapped_not_conserved :
    ¬Conserved 1 [sendOk 1, .pull [] 0, .issue ⟨true, true, false, true⟩]
      ((htc creditEndpoint).run (State.start 1)
        [sendOk 1, .pull [] 0, .issue ⟨true, true, false, true⟩]).2
      ((htc creditEndpoint).run (State.start 1)
        [sendOk 1, .pull [] 0, .issue ⟨true, true, false, true⟩]).1 := by
  intro hconserved
  have hsum := hconserved.sum
  revert hsum
  decide

end KernelModules.Htc
