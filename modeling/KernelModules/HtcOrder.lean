import KernelModules.HtcCredits

/-!
# Packets of an HTC endpoint

Every packet that `htc_send_pkt` accepts is in TxQueue, with the draining thread, in TxLookupQueue
or released, and it is so once. Without packets for power management and without packets that must
not be dropped, HIF gets the packets in the order in which they were accepted.
-/

namespace KernelModules.Htc

open List

def ids (packets : List Packet) : List ℕ := packets.map (·.nbuf)

def Output.accepted? : Output → Option Packet
  | .accepted packet => some packet
  | _ => none

def Output.completed? : Output → Option Packet
  | .completed packet _ => some packet
  | _ => none

def Output.released? : Output → Option Packet
  | .completed packet _ => some packet
  | .freed packet => some packet
  | _ => none

def acceptedOf (outs : List Output) : List Packet := outs.filterMap Output.accepted?

def completedOf (outs : List Output) : List Packet := outs.filterMap Output.completed?

def releasedOf (outs : List Output) : List Packet := outs.filterMap Output.released?

/-- `htc_issue_packets` finds room for the header of each packet that it takes. -/
def findsHeader (ep : Endpoint) (s : State) : Event → Prop
  | .issue env => s.phase = .issuing → s.sendQueue ≠ [] →
      (ep.hasPaddingCredit = true → env.padding = true) → ep.creditFlow = true → env.hdr = true
  | _ => True

/-- A packet that the event releases gets its callback. -/
def callsBack (ep : Endpoint) (s : State) : Event → Prop
  | .send _ env => env.hdr → (ep.creditFlow ∨ env.mapped) → 0 < overflow ep s → ep.hasSendFull →
      ¬env.keep → s.answers ep
  | .complete nbuf => (∃ packet ∈ s.lookupQueue, packet.nbuf = nbuf) → s.answers ep
  | .flush => s.txQueue ≠ [] → s.answers ep
  | .flushLookup callEpCallback => s.lookupQueue ≠ [] → callEpCallback ∧ s.answers ep
  | _ => True

instance (ep : Endpoint) (s : State) (e : Event) : Decidable (callsBack ep s e) := by
  cases e <;> unfold callsBack <;> infer_instance

/-- Each packet is in one place, and the draining thread holds none outside of
`htc_issue_packets`. -/
structure Placed (outs : List Output) (s : State) : Prop where
  once : ∀ nbuf, (ids (acceptedOf outs)).count nbuf =
    (ids s.txQueue).count nbuf + (ids s.sendQueue).count nbuf + (ids s.lookupQueue).count nbuf +
      (ids (releasedOf outs)).count nbuf
  empty : s.phase ≠ .issuing → s.sendQueue = []

def Event.plain : Event → Prop
  | .send packet _ => packet.autoPm = false
  | .setNodrop nodrop => nodrop = false
  | _ => True

instance (e : Event) : Decidable e.plain := by
  cases e <;> unfold Event.plain <;> infer_instance

def SentInOrder (outs : List Output) : Prop :=
  (ids (sentOf outs)).Sublist (ids (acceptedOf outs))

theorem ids_append (a b : List Packet) : ids (a ++ b) = ids a ++ ids b := map_append

theorem count_ids_cons (packet : Packet) (packets : List Packet) (nbuf : ℕ) :
    (ids (packet :: packets)).count nbuf =
      (ids [packet]).count nbuf + (ids packets).count nbuf := by
  unfold ids
  rw [map_cons, count_cons, map_singleton, count_singleton]
  omega

theorem acceptedOf_append (a b : List Output) :
    acceptedOf (a ++ b) = acceptedOf a ++ acceptedOf b := filterMap_append

theorem releasedOf_append (a b : List Output) :
    releasedOf (a ++ b) = releasedOf a ++ releasedOf b := filterMap_append

theorem released_sendPacketCompletion (ep : Endpoint) (s : State) (packet : Packet)
    (status : Status) : (sendPacketCompletion ep s packet status).released? = some packet ∧
      (sendPacketCompletion ep s packet status).accepted? = none := by
  rcases sendPacketCompletion_cases ep s packet status with h | h
  all_goals
    rw [h]
    exact ⟨rfl, rfl⟩

theorem releasedOf_map {f : Packet → Output}
    (hf : ∀ packet, (f packet).released? = some packet ∧ (f packet).accepted? = none)
    (queue : List Packet) : releasedOf (queue.map f) = queue ∧ acceptedOf (queue.map f) = [] := by
  unfold releasedOf acceptedOf
  rw [filterMap_map, filterMap_map]
  refine ⟨?_, filterMap_eq_nil_iff.mpr fun packet _ => (hf packet).2⟩
  have hsome : Output.released? ∘ f = some := funext fun packet => (hf packet).1
  rw [hsome, filterMap_some]

variable {ep : Endpoint} {β : Type*}

section Pull

variable (ep) (f : Packet → β) (hf : ∀ packet creditsUsed needCreditUpdate,
  f { packet with creditsUsed := creditsUsed, needCreditUpdate := needCreditUpdate } = f packet)
include hf

theorem map_pullCreditBased (pm : List Bool) (credits : ℤ) (queue : List Packet) :
    (pullCreditBased ep pm credits queue).1.map f ++
      (pullCreditBased ep pm credits queue).2.2.map f = queue.map f := by
  induction queue generalizing pm credits with
  | nil => rfl
  | cons packet queue ih =>
    unfold pullCreditBased
    dsimp only
    split
    · rfl
    · split
      · rfl
      · have hrest := ih pm.tail (credits - creditsRequired ep packet)
        rw [map_cons, cons_append, hrest, hf, map_cons]

theorem map_pullResources (pm : List Bool) (resources : ℤ) (queue : List Packet) :
    (pullResources pm resources queue).1.map f ++ (pullResources pm resources queue).2.map f =
      queue.map f := by
  induction queue generalizing pm resources with
  | nil => rfl
  | cons packet queue ih =>
    unfold pullResources
    split
    · rfl
    · split
      · rfl
      · have hrest := ih pm.tail (resources - packet.numFrags)
        rw [map_cons, cons_append, hrest, hf, map_cons]

theorem map_pullQueue (pm : List Bool) (resources credits : ℤ) (queue : List Packet) :
    (pullQueue ep pm resources credits queue).1.map f ++
      (pullQueue ep pm resources credits queue).2.2.map f = queue.map f := by
  unfold pullQueue
  split
  · exact map_pullCreditBased ep f hf pm credits queue
  · exact map_pullResources f hf pm resources queue

theorem map_pullPackets (pm : List Bool) (resources credits : ℤ) {queue : List Packet}
    (hplain : ∀ packet ∈ queue, packet.autoPm = false) :
    (pullPackets ep pm resources credits queue).1.map f ++
      (pullPackets ep pm resources credits queue).2.2.map f = queue.map f := by
  have hnone : pmPackets ep queue = [] := by
    unfold pmPackets
    split
    · apply filter_eq_nil_iff.mpr
      intro packet hmem hpm
      rw [hplain packet hmem] at hpm
      cases hpm
    · rfl
  unfold pullPackets
  rw [if_pos hnone]
  exact map_pullQueue ep f hf pm resources credits queue

end Pull

theorem count_pullPackets (ep : Endpoint) (pm : List Bool) (resources credits : ℤ)
    (queue : List Packet) (nbuf : ℕ) :
    (ids (pullPackets ep pm resources credits queue).1).count nbuf +
        (ids (pullPackets ep pm resources credits queue).2.2).count nbuf =
      (ids queue).count nbuf := by
  have hqueue : ∀ pm queue, (ids (pullQueue ep pm resources credits queue).1).count nbuf +
      (ids (pullQueue ep pm resources credits queue).2.2).count nbuf = (ids queue).count nbuf := by
    intro pm queue
    have hids := map_pullQueue ep (·.nbuf) (fun _ _ _ => rfl) pm resources credits queue
    rw [← count_append]
    exact congrArg (count nbuf) hids
  unfold pullPackets
  split
  · exact hqueue pm queue
  · next hsome =>
      have hpm : pmPackets ep queue = queue.filter (·.autoPm) := by
        unfold pmPackets at hsome ⊢
        split
        · rfl
        · next hcontrol => exact absurd (if_neg hcontrol) hsome
      have hfilter : (ids (queue.filter (·.autoPm) ++ queue.filter (!·.autoPm))).count nbuf =
          (ids queue).count nbuf :=
        ((queue.filter_append_perm Packet.autoPm).map Packet.nbuf).count_eq nbuf
      rw [ids_append, count_append] at hfilter
      have hpulled := hqueue [] (pmPackets ep queue)
      rw [hpm] at hpulled ⊢
      dsimp only
      rw [ids_append, count_append]
      omega

variable {queue : List Packet} {s' : State} {new : List Output} {packet : Packet} {e : Event}
variable {events : List Event}

variable {outs : List Output} {s : State}

theorem placed_start (txCredits : ℤ) : Placed [] (State.start txCredits) where
  once := fun _ => rfl
  empty := fun _ => rfl

theorem Placed.moved (h : Placed outs s)
    (hmoved : ∀ nbuf, (ids s'.txQueue).count nbuf + (ids s'.sendQueue).count nbuf +
        (ids s'.lookupQueue).count nbuf + (ids (releasedOf new)).count nbuf =
      (ids s.txQueue).count nbuf + (ids s.sendQueue).count nbuf +
        (ids s.lookupQueue).count nbuf + (ids (acceptedOf new)).count nbuf)
    (hempty : s'.phase ≠ .issuing → s'.sendQueue = []) : Placed (outs ++ new) s' where
  once := by
    intro nbuf
    have hbefore := h.once nbuf
    have hstep := hmoved nbuf
    rw [acceptedOf_append, releasedOf_append, ids_append, ids_append, count_append,
      count_append]
    omega
  empty := hempty

theorem txQueue_enter (s : State) :
    (enter s).txQueue = s.txQueue ∧ (enter s).lookupQueue = s.lookupQueue := by
  unfold enter
  split
  · exact ⟨rfl, rfl⟩
  · exact ⟨rfl, rfl⟩

theorem Placed.enter (h : Placed outs s) : Placed outs (enter s) := by
  obtain ⟨htx, hlookup⟩ := txQueue_enter s
  have hs := enter_undisturbed s
  refine ⟨?_, ?_⟩
  · intro nbuf
    rw [htx, hlookup, hs.sendQueue]
    exact h.once nbuf
  · intro hphase
    rw [hs.sendQueue]
    exact h.empty fun hissuing => hphase (hs.phase hissuing)

theorem Placed.sendPkt (h : Placed outs s) (packet : Packet) (env : SendEnv) :
    Placed (outs ++ (sendPkt ep s packet env).2) (sendPkt ep s packet env).1 := by
  unfold Htc.sendPkt
  split
  · exact h.moved (fun _ => rfl) h.empty
  · dsimp only
    split
    · exact h.moved (fun _ => rfl) h.empty
    · split
      · rcases sendPacketCompletion_cases ep { s with seqNo := (s.seqNo + 1) % 256 }
          { packet with seqNo := s.seqNo } (if env.stopping then .canceled else .resources)
          with hout | hout
        all_goals
          rw [hout]
          exact h.moved (fun _ => rfl) h.empty
      · refine Placed.enter (h.moved (fun nbuf => ?_) ?_)
        · unfold enqueue
          split
          · dsimp only
            rw [count_ids_cons]
            change _ + _ + _ + _ + 0 = _ + _ + _ + (ids [{ packet with seqNo := s.seqNo }]).count nbuf
            omega
          · dsimp only
            rw [ids_append, count_append]
            change _ + _ + _ + _ + 0 = _ + _ + _ + (ids [{ packet with seqNo := s.seqNo }]).count nbuf
            omega
        · have hs := enqueue_undisturbed { s with seqNo := (s.seqNo + 1) % 256 }
            { packet with seqNo := s.seqNo }
          intro hphase
          rw [hs.sendQueue]
          exact h.empty fun hissuing => hphase (hs.phase hissuing)

theorem Placed.pull (h : Placed outs s) (pm : List Bool) (resources : ℤ) :
    Placed outs (pull ep s pm resources) := by
  generalize hs' : Htc.pull ep s pm resources = s'
  have hcases : Pulled ep s pm resources s' := hs' ▸ pull_cases ep s pm resources
  cases hcases with
  | stay => exact h
  | done hphase => exact ⟨h.once, fun _ => sendQueue_of_pulling s h.empty hphase⟩
  | packets hphase hr =>
    refine ⟨?_, ?_⟩
    · intro nbuf
      have hbefore := h.once nbuf
      have hpull := count_pullPackets ep pm resources s.txCredits s.txQueue nbuf
      rw [← hr] at hpull
      rw [sendQueue_of_pulling s h.empty hphase] at hbefore
      have hnone : (ids []).count nbuf = 0 := rfl
      dsimp only
      omega
    · intro hnot
      by_contra hsome
      exact hnot (if_neg hsome)

theorem Placed.issue (h : Placed outs s) {env : IssueEnv}
    (hheader : findsHeader ep s (.issue env)) :
    Placed (outs ++ (issue ep s env).2) (issue ep s env).1 := by
  have hback : ∀ credits, Placed (outs ++ []) (putBack { s with txCredits := credits }) := by
    intro credits
    refine h.moved (fun nbuf => ?_) fun _ => rfl
    dsimp only [putBack]
    rw [ids_append, count_append]
    change _ + 0 + _ + 0 = _ + _ + _ + 0
    omega
  generalize hr : Htc.issue ep s env = r
  have hcases : Issued ep s env r := hr ▸ issue_cases ep s env
  cases hcases with
  | stay => exact h.moved (fun _ => rfl) h.empty
  | padding => exact hback s.txCredits
  | done hphase hqueue => exact h.moved (fun _ => rfl) fun _ => hqueue
  | header hphase hqueue hpad hmissing =>
    have hhdr := hheader hphase (by rw [hqueue]; exact cons_ne_nil _ _) hpad
    exact absurd (hhdr hmissing.1) hmissing.2
  | mapping => exact hback s.txCredits
  | @sent packet rest hphase hqueue =>
    refine h.moved (fun nbuf => ?_) fun hnot => absurd hphase hnot
    dsimp only
    rw [hqueue, ids_append, count_append, count_ids_cons packet rest]
    change _ + _ + _ + 0 = _ + _ + _ + 0
    omega
  | refused => exact hback (s.txCredits + used s.sendQueue)

theorem count_eraseP_find {nbuf : ℕ}
    (hfind : queue.find? (·.nbuf = nbuf) = some packet) (n : ℕ) :
    (ids (queue.eraseP (·.nbuf = nbuf))).count n + (ids [packet]).count n =
      (ids queue).count n := by
  obtain ⟨hp, before, after, rfl, hno⟩ := find?_eq_some_iff_append.mp hfind
  rw [eraseP_append_right _ fun p hmem hp => by simpa [hp] using hno p hmem,
    eraseP_cons_of_pos (p := fun packet : Packet => packet.nbuf = nbuf) hp, ids_append,
    ids_append, count_append, count_append, count_ids_cons packet after]
  omega

theorem Placed.complete (h : Placed outs s) (nbuf : ℕ) :
    Placed (outs ++ (complete ep s nbuf).2) (complete ep s nbuf).1 := by
  unfold Htc.complete
  dsimp only
  split
  · rw [append_nil]
    split
    · exact h.enter
    · exact h
  · next packet hfind =>
      have herased : ∀ out : Output, releasedOf [out] = [packet] ∧ acceptedOf [out] = [] →
          Placed (outs ++ [out])
            { s with lookupQueue := s.lookupQueue.eraseP (·.nbuf = nbuf) } := by
        intro out hout
        refine h.moved (fun n => ?_) h.empty
        have herase := count_eraseP_find hfind n
        rw [hout.1, hout.2]
        change _ + _ + _ + (ids [packet]).count n = _ + _ + _ + 0
        dsimp only
        omega
      have hout := releasedOf_map (fun packet => released_sendPacketCompletion ep
        { s with lookupQueue := s.lookupQueue.eraseP (·.nbuf = nbuf) } packet .success) [packet]
      split
      · exact (herased _ hout).enter
      · exact herased _ hout

theorem Placed.creditRpt (h : Placed outs s) (credits : UInt8) :
    Placed outs (creditRpt s credits) := by
  have hcredits : Placed outs { s with txCredits := s.txCredits + credits.toNat } :=
    ⟨h.once, h.empty⟩
  unfold Htc.creditRpt
  dsimp only
  split
  · exact hcredits.enter
  · exact hcredits

theorem Placed.flush (h : Placed outs s) : Placed (outs ++ (flush ep s).2) (flush ep s).1 := by
  obtain ⟨hreleased, haccepted⟩ :=
    releasedOf_map (fun packet => released_sendPacketCompletion ep s packet .canceled) s.txQueue
  refine h.moved (fun nbuf => ?_) h.empty
  unfold Htc.flush
  rw [hreleased, haccepted]
  change 0 + (ids s.sendQueue).count nbuf + (ids s.lookupQueue).count nbuf + _ = _ + _ + _ + 0
  omega

theorem Placed.flushLookup (h : Placed outs s) (callEpCallback : Bool) :
    Placed (outs ++ (flushLookup ep s callEpCallback).2) (flushLookup ep s callEpCallback).1 := by
  have hout : ∀ packet, (if callEpCallback then sendPacketCompletion ep s packet .canceled
        else .freed packet).released? = some packet ∧
      (if callEpCallback then sendPacketCompletion ep s packet .canceled
        else .freed packet).accepted? = none := by
    intro packet
    split
    · exact released_sendPacketCompletion ep s packet .canceled
    · exact ⟨rfl, rfl⟩
  obtain ⟨hreleased, haccepted⟩ := releasedOf_map hout s.lookupQueue
  refine h.moved (fun nbuf => ?_) h.empty
  unfold Htc.flushLookup
  rw [hreleased, haccepted]
  change _ + _ + 0 + _ = _ + _ + _ + 0
  dsimp only
  omega

theorem Placed.step (h : Placed outs s) (hheader : findsHeader ep s e) :
    Placed (outs ++ ((htc ep).step s e).2) ((htc ep).step s e).1 := by
  cases e with
  | send packet env => exact h.sendPkt packet env
  | trySend =>
    change Placed (outs ++ []) _
    rw [append_nil]
    exact h.enter
  | pull pm resources =>
    change Placed (outs ++ []) _
    rw [append_nil]
    exact h.pull pm resources
  | issue env => exact h.issue hheader
  | complete nbuf => exact h.complete nbuf
  | creditRpt credits =>
    change Placed (outs ++ []) _
    rw [append_nil]
    exact h.creditRpt credits
  | flush => exact h.flush
  | flushLookup callEpCallback => exact h.flushLookup callEpCallback
  | setNodrop nodrop => exact h.moved (fun _ => rfl) h.empty
  | targetStatus connected => exact h.moved (fun _ => rfl) h.empty

theorem placed_of_findsHeader (ep : Endpoint) (txCredits : ℤ)
    (hheader : (htc ep).Meets (findsHeader ep) (State.start txCredits) events) :
    Placed ((htc ep).run (State.start txCredits) events).2
      ((htc ep).run (State.start txCredits) events).1 :=
  (htc ep).history_of_meets (I := fun _ outs s => Placed outs s)
    (fun _ _ _ _ h hc => h.step hc) (placed_start txCredits) hheader

/-- What HIF has, what the draining thread holds and TxQueue, behind one another, are in the order
of acceptance. -/
structure Ordered (outs : List Output) (s : State) : Prop where
  sublist : (ids (sentOf outs) ++ (ids s.sendQueue ++ ids s.txQueue)).Sublist (ids (acceptedOf outs))
  plain : ∀ packet ∈ s.sendQueue ++ s.txQueue, packet.autoPm = false
  nodrop : s.nodrop = false
  empty : s.phase ≠ .issuing → s.sendQueue = []

theorem ordered_start (txCredits : ℤ) : Ordered [] (State.start txCredits) where
  sublist := List.Sublist.slnil
  plain := fun _ hmem => by cases hmem
  nodrop := rfl
  empty := fun _ => rfl

theorem Ordered.kept (h : Ordered outs s)
    (hnew : sentOf new = []) (hqueues : (s'.sendQueue ++ s'.txQueue).Sublist (s.sendQueue ++ s.txQueue))
    (hnodrop : s'.nodrop = false) (hempty : s'.phase ≠ .issuing → s'.sendQueue = []) :
    Ordered (outs ++ new) s' where
  sublist := by
    have hids : (ids s'.sendQueue ++ ids s'.txQueue).Sublist (ids s.sendQueue ++ ids s.txQueue) := by
      rw [← ids_append, ← ids_append]
      exact hqueues.map _
    rw [sentOf_append, hnew, append_nil, acceptedOf_append, ids_append]
    apply List.Sublist.trans _ (sublist_append_left _ _)
    exact List.Sublist.trans ((List.Sublist.refl _).append hids) h.sublist
  plain := fun packet hmem => h.plain packet (hqueues.subset hmem)
  nodrop := hnodrop
  empty := hempty

theorem Ordered.undisturbed (h : Ordered outs s) (hs : Undisturbed s s')
    (htx : s'.txQueue = s.txQueue) (hnodrop : s'.nodrop = s.nodrop) : Ordered outs s' where
  sublist := by
    rw [hs.sendQueue, htx]
    exact h.sublist
  plain := by
    rw [hs.sendQueue, htx]
    exact h.plain
  nodrop := hnodrop.trans h.nodrop
  empty := by
    intro hphase
    rw [hs.sendQueue]
    exact h.empty fun hissuing => hphase (hs.phase hissuing)

theorem nodrop_enter (s : State) : (enter s).nodrop = s.nodrop := by
  unfold enter
  split
  · rfl
  · rfl

theorem Ordered.enter (h : Ordered outs s) : Ordered outs (enter s) :=
  h.undisturbed (enter_undisturbed s) (txQueue_enter s).1 (nodrop_enter s)

theorem Ordered.sendPkt (h : Ordered outs s) (hplain : packet.autoPm = false)
    (env : SendEnv) : Ordered (outs ++ (sendPkt ep s packet env).2) (sendPkt ep s packet env).1 := by
  unfold Htc.sendPkt
  split
  · exact h.kept rfl (List.Sublist.refl _) h.nodrop h.empty
  · dsimp only
    split
    · exact h.kept rfl (List.Sublist.refl _) h.nodrop h.empty
    · split
      · exact h.kept (sentOf_refused ..) (List.Sublist.refl _) h.nodrop h.empty
      · apply Ordered.enter
        unfold enqueue
        rw [if_neg (by rw [h.nodrop]; decide)]
        refine ⟨?_, ?_, h.nodrop, h.empty⟩
        · rw [sentOf_append, acceptedOf_append, ids_append, ids_append, ids_append]
          have hlonger := h.sublist.append (List.Sublist.refl (ids [{ packet with seqNo := s.seqNo }]))
          rw [append_assoc, append_assoc] at hlonger
          change (ids (sentOf outs) ++ [] ++ _).Sublist _
          rw [append_nil]
          exact hlonger
        · intro other hmem
          rw [← append_assoc] at hmem
          rcases mem_append.mp hmem with hold | hnew
          · exact h.plain other hold
          · rw [mem_singleton.mp hnew]
            exact hplain

theorem Ordered.pull (h : Ordered outs s) (pm : List Bool) (resources : ℤ) :
    Ordered outs (pull ep s pm resources) := by
  generalize hs' : Htc.pull ep s pm resources = s'
  have hcases : Pulled ep s pm resources s' := hs' ▸ pull_cases ep s pm resources
  cases hcases with
  | stay => exact h
  | done hphase => exact ⟨h.sublist, h.plain, h.nodrop, fun _ => sendQueue_of_pulling s h.empty hphase⟩
  | packets hphase hr =>
    have hplain : ∀ packet ∈ s.txQueue, packet.autoPm = false := by
      intro packet hmem
      exact h.plain packet (mem_append_right _ hmem)
    have hids := map_pullPackets ep (·.nbuf) (fun _ _ _ => rfl) pm resources
      s.txCredits hplain
    have hpm := map_pullPackets ep (·.autoPm) (fun _ _ _ => rfl) pm resources
      s.txCredits hplain
    rw [← hr] at hids hpm
    refine ⟨?_, ?_, h.nodrop, ?_⟩
    · have hbefore := h.sublist
      rw [sendQueue_of_pulling s h.empty hphase] at hbefore
      unfold ids at hbefore ⊢
      rw [hids]
      exact hbefore
    · intro packet hmem
      have hmap := mem_map_of_mem (f := fun packet : Packet => packet.autoPm) hmem
      rw [map_append, hpm] at hmap
      obtain ⟨other, hother, heq⟩ := mem_map.mp hmap
      rw [← heq]
      exact hplain other hother
    · intro hnot
      by_contra hsome
      exact hnot (if_neg hsome)

theorem Ordered.issue (h : Ordered outs s) (env : IssueEnv) :
    Ordered (outs ++ (issue ep s env).2) (issue ep s env).1 := by
  have hback : ∀ credits, Ordered (outs ++ []) (putBack { s with txCredits := credits }) := by
    intro credits
    exact h.kept rfl (List.Sublist.refl _) h.nodrop fun _ => rfl
  have hshorter : ∀ packet rest, s.sendQueue = packet :: rest →
      (rest ++ s.txQueue).Sublist (s.sendQueue ++ s.txQueue) := by
    intro packet rest hqueue
    rw [hqueue]
    exact sublist_cons_self _ _
  generalize hr : Htc.issue ep s env = r
  have hcases : Issued ep s env r := hr ▸ issue_cases ep s env
  cases hcases with
  | stay => exact h.kept rfl (List.Sublist.refl _) h.nodrop h.empty
  | padding => exact hback s.txCredits
  | done hphase hqueue => exact h.kept rfl (List.Sublist.refl _) h.nodrop fun _ => hqueue
  | header hphase hqueue => exact h.kept rfl (hshorter _ _ hqueue) h.nodrop fun _ => rfl
  | mapping => exact hback s.txCredits
  | @sent packet rest hphase hqueue =>
    refine ⟨?_, ?_, h.nodrop, fun hnot => absurd hphase hnot⟩
    · have hbefore := h.sublist
      rw [hqueue] at hbefore
      rw [sentOf_append, ids_append, acceptedOf_append, ids_append, append_assoc]
      exact List.Sublist.trans hbefore (sublist_append_left _ _)
    · intro other hmem
      exact h.plain other ((hshorter _ _ hqueue).subset hmem)
  | refused => exact hback (s.txCredits + used s.sendQueue)

theorem Ordered.complete (h : Ordered outs s) (nbuf : ℕ) :
    Ordered (outs ++ (complete ep s nbuf).2) (complete ep s nbuf).1 := by
  unfold Htc.complete
  dsimp only
  split
  · rw [append_nil]
    split
    · exact h.enter
    · exact h
  · next packet hfind =>
      have herased : Ordered (outs ++ [sendPacketCompletion ep
            { s with lookupQueue := s.lookupQueue.eraseP (·.nbuf = nbuf) } packet .success])
          { s with lookupQueue := s.lookupQueue.eraseP (·.nbuf = nbuf) } :=
        h.kept (filterMap_cons_none (sent_sendPacketCompletion ..)) (List.Sublist.refl _)
          h.nodrop h.empty
      split
      · exact herased.enter
      · exact herased

theorem Ordered.creditRpt (h : Ordered outs s) (credits : UInt8) :
    Ordered outs (creditRpt s credits) := by
  have hcredits : Ordered outs { s with txCredits := s.txCredits + credits.toNat } :=
    ⟨h.sublist, h.plain, h.nodrop, h.empty⟩
  unfold Htc.creditRpt
  dsimp only
  split
  · exact hcredits.enter
  · exact hcredits

theorem Ordered.flush (h : Ordered outs s) : Ordered (outs ++ (flush ep s).2) (flush ep s).1 :=
  h.kept (sentOf_flush ep s) ((List.Sublist.refl _).append (nil_sublist _)) h.nodrop h.empty

theorem Ordered.step (h : Ordered outs s) (hplain : e.plain) :
    Ordered (outs ++ ((htc ep).step s e).2) ((htc ep).step s e).1 := by
  cases e with
  | send packet env => exact h.sendPkt hplain env
  | trySend =>
    change Ordered (outs ++ []) _
    rw [append_nil]
    exact h.enter
  | pull pm resources =>
    change Ordered (outs ++ []) _
    rw [append_nil]
    exact h.pull pm resources
  | issue env => exact h.issue env
  | complete nbuf => exact h.complete nbuf
  | creditRpt credits =>
    change Ordered (outs ++ []) _
    rw [append_nil]
    exact h.creditRpt credits
  | flush => exact h.flush
  | flushLookup callEpCallback =>
    exact h.kept (sentOf_flushLookup ep s callEpCallback) (List.Sublist.refl _) h.nodrop h.empty
  | setNodrop nodrop => exact h.kept rfl (List.Sublist.refl _) hplain h.empty
  | targetStatus connected => exact h.kept rfl (List.Sublist.refl _) h.nodrop h.empty

theorem ordered_of_plain (ep : Endpoint) (txCredits : ℤ)
    (hplain : ∀ e ∈ events, e.plain) :
    Ordered ((htc ep).run (State.start txCredits) events).2
      ((htc ep).run (State.start txCredits) events).1 :=
  (htc ep).history_of_meets (C := fun _ e => e.plain) (I := fun _ outs s => Ordered outs s)
    (fun _ _ _ _ h hc => h.step hc) (ordered_start txCredits)
    ((htc ep).meets_of_forall (State.start txCredits) hplain)

theorem called_sendPacketCompletion (hanswers : s.answers ep) (packet : Packet) (status : Status) :
    (sendPacketCompletion ep s packet status).completed? =
      (sendPacketCompletion ep s packet status).released? := by
  unfold sendPacketCompletion
  rw [if_pos hanswers]
  rfl

theorem called_step (hcalls : callsBack ep s e) :
    ∀ out ∈ ((htc ep).step s e).2, out.completed? = out.released? := by
  cases e with
  | send packet env =>
    change ∀ out ∈ (sendPkt ep s packet env).2, _
    unfold sendPkt
    split
    · exact forall_mem_nil _
    · next hhdr =>
        dsimp only
        split
        · exact forall_mem_nil _
        · next hmapped =>
            split
            · next hfull =>
                have hanswers := hcalls (not_not.mp hhdr) (by grind) hfull.1 hfull.2.1 hfull.2.2
                intro out hout
                rcases mem_cons.mp hout with rfl | hout
                · rfl
                · rw [mem_singleton.mp hout]
                  exact called_sendPacketCompletion hanswers _ _
            · intro out hout
              rw [mem_singleton.mp hout]
              rfl
  | issue env =>
    intro out hout
    change out ∈ (issue ep s env).2 at hout
    have hcases := issue_cases ep s env
    generalize Htc.issue ep s env = r at hcases hout
    cases hcases with
    | sent hphase hqueue =>
      rw [mem_singleton.mp hout]
      rfl
    | _ => cases hout
  | complete nbuf =>
    change ∀ out ∈ (complete ep s nbuf).2, _
    unfold complete
    dsimp only
    split
    · exact forall_mem_nil _
    · next packet hfind =>
        intro out hout
        rw [mem_singleton.mp hout]
        have hmem := mem_of_find?_eq_some hfind
        exact called_sendPacketCompletion (s := { s with lookupQueue := _ })
          (hcalls ⟨packet, hmem, by simpa using find?_some hfind⟩) packet .success
  | flush =>
    intro out hout
    obtain ⟨packet, hmem, rfl⟩ := mem_map.mp hout
    exact called_sendPacketCompletion (hcalls (ne_nil_of_mem hmem)) packet .canceled
  | flushLookup callEpCallback =>
    intro out hout
    obtain ⟨packet, hmem, rfl⟩ := mem_map.mp hout
    obtain ⟨hcall, hanswers⟩ := hcalls (ne_nil_of_mem hmem)
    rw [if_pos hcall]
    exact called_sendPacketCompletion hanswers packet .canceled
  | _ => exact forall_mem_nil _

theorem completedOf_of_callsBack (ep : Endpoint) (txCredits : ℤ)
    (hcalls : (htc ep).Meets (callsBack ep) (State.start txCredits) events) :
    completedOf ((htc ep).run (State.start txCredits) events).2 =
      releasedOf ((htc ep).run (State.start txCredits) events).2 := by
  apply filterMap_congr
  refine (htc ep).history_of_meets (C := callsBack ep)
    (I := fun _ outs _ => ∀ out ∈ outs, out.completed? = out.released?) ?_
    (forall_mem_nil _) hcalls
  intro _ outs s e h hc
  exact forall_mem_append.mpr ⟨h, called_step hc⟩

/-- As long as there is room for the headers, no packet is lost or doubled, every one that is
released gets its callback where the callbacks can be called, and plain packets go to HIF in the
order in which they were accepted. -/
theorem placed_and_inOrder (ep : Endpoint) (txCredits : ℤ) {events : List Event}
    (hheader : (htc ep).Meets (findsHeader ep) (State.start txCredits) events) :
    Placed ((htc ep).run (State.start txCredits) events).2
        ((htc ep).run (State.start txCredits) events).1 ∧
      ((htc ep).Meets (callsBack ep) (State.start txCredits) events →
        completedOf ((htc ep).run (State.start txCredits) events).2 =
          releasedOf ((htc ep).run (State.start txCredits) events).2) ∧
      ((∀ e ∈ events, e.plain) →
        SentInOrder ((htc ep).run (State.start txCredits) events).2) := by
  refine ⟨placed_of_findsHeader ep txCredits hheader, completedOf_of_callsBack ep txCredits,
    fun hplain => ?_⟩
  have hsublist := (ordered_of_plain ep txCredits hplain).sublist
  exact List.Sublist.trans (sublist_append_left _ _) hsublist

/-- Of two packets the second is put back and flushed, behind the completion of the first. -/
def answered : List Event := hifFull ++ [.complete 1, .flush]

theorem answered_placed :
    Placed ((htc creditEndpoint).run (State.start 2) answered).2
        ((htc creditEndpoint).run (State.start 2) answered).1 ∧
      completedOf ((htc creditEndpoint).run (State.start 2) answered).2 =
        releasedOf ((htc creditEndpoint).run (State.start 2) answered).2 ∧
      SentInOrder ((htc creditEndpoint).run (State.start 2) answered).2 := by
  have hrun := @placed_and_inOrder creditEndpoint 2 answered (by
    refine ⟨trivial, trivial, trivial, ?_, ?_, trivial, trivial, trivial, trivial⟩
    all_goals exact fun _ _ _ _ => rfl)
  exact ⟨hrun.1, hrun.2.1 (by decide), hrun.2.2 (by decide)⟩

/-- Without room for its header a packet is gone from every queue, and nobody completes it. -/
theorem headerless_not_placed :
    ¬Placed ((htc creditEndpoint).run (State.start 1)
        [sendOk 1, .pull [] 0, .issue ⟨true, false, true, true⟩]).2
      ((htc creditEndpoint).run (State.start 1)
        [sendOk 1, .pull [] 0, .issue ⟨true, false, true, true⟩]).1 := by
  intro hplaced
  have honce := hplaced.once 1
  revert honce
  decide

end KernelModules.Htc
