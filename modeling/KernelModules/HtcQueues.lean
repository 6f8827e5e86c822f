import KernelModules.Machine
import Mathlib.Tactic

/-!
# The queues of an HTC endpoint

`htc_send_pkt` puts a packet into TxQueue. One thread at a time drains the queue: it pulls packets
into a queue of its own, as far as the credits or the resources allow, and issues them one by one;
a packet that is issued waits in TxLookupQueue for its completion. What is left after a failure
goes back to the head of TxQueue. Where the target is not connected, or no callback is wanted, a
packet is freed in place of its completion.

A step is what the code does from one release of the lock to the next. Bundling is for USB and
SDIO and is left out; of the mapping of the buffers only the failures are kept.
-/

namespace KernelModules.Htc

structure Endpoint where
  creditFlow : Bool
  isEndpoint0 : Bool
  wmiControl : Bool
  txCreditSize : ℕ
  txCreditsPerMaxMsg : ℤ
  maxTxQueueDepth : ℤ
  hasSendFull : Bool
  hasTxComplete : Bool
  hasPaddingCredit : Bool
  asyncUpdate : Bool

structure Packet where
  nbuf : ℕ
  actualLength : ℕ
  autoPm : Bool
  numFrags : ℤ
  seqNo : ℕ
  creditsUsed : ℕ
  needCreditUpdate : Bool

inductive Phase
  | idle
  | pulling
  | issuing
  deriving DecidableEq

structure State where
  txQueue : List Packet
  sendQueue : List Packet
  lookupQueue : List Packet
  txCredits : ℤ
  seqNo : ℕ
  nodrop : Bool
  connected : Bool
  phase : Phase

def State.start (txCredits : ℤ) : State := ⟨[], [], [], txCredits, 0, false, true, .idle⟩

inductive Status
  | success
  | canceled
  | resources

inductive Output
  | accepted (packet : Packet)
  | sent (packet : Packet)
  | completed (packet : Packet) (status : Status)
  | freed (packet : Packet)

/-- `EpTxComplete` is called for a packet that is completed. -/
def State.answers (ep : Endpoint) (s : State) : Prop :=
  s.connected = true ∧ ep.hasTxComplete = true
deriving Decidable

/-- `send_packet_completion`. -/
def sendPacketCompletion (ep : Endpoint) (s : State) (packet : Packet) (status : Status) :
    Output :=
  if s.answers ep then .completed packet status else .freed packet

/-- `htc_try_send` from the test of TxProcessCount on. -/
def enter (s : State) : State := if s.phase = .idle then { s with phase := .pulling } else s

def enqueue (s : State) (packet : Packet) : State :=
  if s.nodrop then { s with txQueue := packet :: s.txQueue, nodrop := false }
  else { s with txQueue := s.txQueue ++ [packet] }

def overflow (ep : Endpoint) (s : State) : ℤ :=
  if ep.maxTxQueueDepth ≤ s.txQueue.length then 1 else s.txQueue.length + 1 - ep.maxTxQueueDepth

/-- What the environment decides in `htc_send_pkt`: whether there is room for the header, whether
the buffer is mapped, and whether EpSendFull keeps the packet. -/
structure SendEnv where
  hdr : Bool
  mapped : Bool
  keep : Bool
  stopping : Bool

/-- `htc_send_pkt`. -/
def sendPkt (ep : Endpoint) (s : State) (packet : Packet) (env : SendEnv) : State × List Output :=
  if ¬env.hdr then (s, [])
  else
    let packet := { packet with seqNo := s.seqNo }
    let s := { s with seqNo := (s.seqNo + 1) % 256 }
    if ¬ep.creditFlow ∧ ¬env.mapped then (s, [])
    else if 0 < overflow ep s ∧ ep.hasSendFull ∧ ¬env.keep then
      (s, [.accepted packet,
        sendPacketCompletion ep s packet (if env.stopping then .canceled else .resources)])
    else (enter (enqueue s packet), [.accepted packet])

def hdrLength : ℕ := 8

def creditsRequired (ep : Endpoint) (packet : Packet) : ℕ :=
  let transferLength := packet.actualLength + hdrLength
  if ep.isEndpoint0 then 0
  else if transferLength ≤ ep.txCreditSize then 1
  else transferLength / ep.txCreditSize + if transferLength % ep.txCreditSize ≠ 0 then 1 else 0

/-- The loop of `get_htc_send_packets_credit_based`, with the results of `hif_pm_runtime_get`: what
is pulled, the credits and what is left. -/
def pullCreditBased (ep : Endpoint) : List Bool → ℤ → List Packet → List Packet × ℤ × List Packet
  | _, credits, [] => ([], credits, [])
  | pm, credits, packet :: queue =>
    let required := creditsRequired ep packet
    if pm.headD true = false then ([], credits, packet :: queue)
    else if ¬ep.isEndpoint0 ∧ credits < required then ([], credits, packet :: queue)
    else
      let left := credits - required
      let packet := { packet with
        creditsUsed := required
        needCreditUpdate := ¬ep.isEndpoint0 ∧ left ≤ ep.txCreditsPerMaxMsg }
      let r := pullCreditBased ep pm.tail left queue
      (packet :: r.1, r.2)

/-- The loop of `get_htc_send_packets`. -/
def pullResources : List Bool → ℤ → List Packet → List Packet × List Packet
  | _, _, [] => ([], [])
  | pm, resources, packet :: queue =>
    if resources ≤ 0 then ([], packet :: queue)
    else if pm.headD true = false then ([], packet :: queue)
    else
      let packet := { packet with creditsUsed := 0, needCreditUpdate := false }
      let r := pullResources pm.tail (resources - packet.numFrags) queue
      (packet :: r.1, r.2)

/-- The two, with credits or with resources. -/
def pullQueue (ep : Endpoint) (pm : List Bool) (resources credits : ℤ) (queue : List Packet) :
    List Packet × ℤ × List Packet :=
  if ep.creditFlow then pullCreditBased ep pm credits queue
  else
    let r := pullResources pm resources queue
    (r.1, credits, r.2)

/-- `extract_htc_pm_packets`. -/
def pmPackets (ep : Endpoint) (queue : List Packet) : List Packet :=
  if ep.wmiControl then queue.filter (·.autoPm) else []

/-- Packets for power management are pulled alone, without `hif_pm_runtime_get`, and those that
are left go to the head of TxQueue. -/
def pullPackets (ep : Endpoint) (pm : List Bool) (resources credits : ℤ) (queue : List Packet) :
    List Packet × ℤ × List Packet :=
  if pmPackets ep queue = [] then pullQueue ep pm resources credits queue
  else
    let r := pullQueue ep [] resources credits (pmPackets ep queue)
    (r.1, r.2.1, r.2.2 ++ queue.filter (!·.autoPm))

/-- One round of the loop of `htc_try_send` up to `htc_issue_packets`. -/
def pull (ep : Endpoint) (s : State) (pm : List Bool) (resources : ℤ) : State :=
  if s.phase ≠ .pulling then s
  else if s.txQueue = [] then { s with phase := .idle }
  else if ep.asyncUpdate ∧ ¬ep.creditFlow ∧ resources = 0 then { s with phase := .idle }
  else
    let r := pullPackets ep pm resources s.txCredits s.txQueue
    { s with
      sendQueue := r.1
      txCredits := r.2.1
      txQueue := r.2.2
      phase := if r.1 = [] then .idle else .issuing }

/-- What the environment decides for one packet in `htc_issue_packets`. -/
structure IssueEnv where
  padding : Bool
  hdr : Bool
  mapped : Bool
  hif : Bool

/-- `htc_issue_packets` fails, and what is in its queue goes back to the head of TxQueue. -/
def putBack (s : State) : State :=
  { s with txQueue := s.sendQueue ++ s.txQueue, sendQueue := [], phase := .idle }

def used (packets : List Packet) : ℤ := (packets.map fun packet => (packet.creditsUsed : ℤ)).sum

/-- One round of the loop of `htc_issue_packets`. Without a header the packet that is taken is in
no queue any more. -/
def issue (ep : Endpoint) (s : State) (env : IssueEnv) : State × List Output :=
  if s.phase ≠ .issuing then (s, [])
  else if ep.hasPaddingCredit ∧ ¬env.padding then (putBack s, [])
  else
    match s.sendQueue with
    | [] => ({ s with phase := .pulling }, [])
    | packet :: rest =>
      if ep.creditFlow ∧ ¬env.hdr then (putBack { s with sendQueue := rest }, [])
      else if ep.creditFlow ∧ ¬env.mapped then (putBack s, [])
      else if env.hif then
        ({ s with sendQueue := rest, lookupQueue := s.lookupQueue ++ [packet] }, [.sent packet])
      else (putBack { s with txCredits := s.txCredits + used s.sendQueue }, [])

/-- `htc_tx_completion_handler`. -/
def complete (ep : Endpoint) (s : State) (nbuf : ℕ) : State × List Output :=
  let again := ¬ep.creditFlow ∧ (s.phase = .idle ∨ ¬ep.asyncUpdate)
  match s.lookupQueue.find? (·.nbuf = nbuf) with
  | none => (if again then enter s else s, [])
  | some packet =>
    let s := { s with lookupQueue := s.lookupQueue.eraseP (·.nbuf = nbuf) }
    (if again then enter s else s, [sendPacketCompletion ep s packet .success])

/-- One entry of `htc_process_credit_rpt` for the endpoint. -/
def creditRpt (s : State) (credits : UInt8) : State :=
  let s := { s with txCredits := s.txCredits + credits.toNat }
  if s.txCredits ≠ 0 ∧ s.txQueue ≠ [] then enter s else s

/-- `htc_flush_endpoint_tx`. -/
def flush (ep : Endpoint) (s : State) : State × List Output :=
  ({ s with txQueue := [] }, s.txQueue.map (sendPacketCompletion ep s · .canceled))

/-- `htc_flush_endpoint_txlookupQ`. -/
def flushLookup (ep : Endpoint) (s : State) (callEpCallback : Bool) : State × List Output :=
  ({ s with lookupQueue := [] },
    s.lookupQueue.map fun packet =>
      if callEpCallback then sendPacketCompletion ep s packet .canceled else .freed packet)

inductive Event
  | send (packet : Packet) (env : SendEnv)
  | trySend
  | pull (pm : List Bool) (resources : ℤ)
  | issue (env : IssueEnv)
  | complete (nbuf : ℕ)
  | creditRpt (credits : UInt8)
  | flush
  | flushLookup (callEpCallback : Bool)
  | setNodrop (nodrop : Bool)
  | targetStatus (connected : Bool)

def htc (ep : Endpoint) : Machine State Event Output where
  step s
    | .send packet env => sendPkt ep s packet env
    | .trySend => (enter s, [])
    | .pull pm resources => (pull ep s pm resources, [])
    | .issue env => issue ep s env
    | .complete nbuf => complete ep s nbuf
    | .creditRpt credits => (creditRpt s credits, [])
    | .flush => flush ep s
    | .flushLookup callEpCallback => flushLookup ep s callEpCallback
    | .setNodrop nodrop => ({ s with nodrop := nodrop }, [])
    | .targetStatus connected => ({ s with connected := connected }, [])

inductive Pulled (ep : Endpoint) (s : State) (pm : List Bool) (resources : ℤ) : State → Prop
  | stay : Pulled ep s pm resources s
  | done (hphase : s.phase = .pulling) : Pulled ep s pm resources { s with phase := .idle }
  | packets {r : List Packet × ℤ × List Packet} (hphase : s.phase = .pulling)
      (hr : r = pullPackets ep pm resources s.txCredits s.txQueue) :
      Pulled ep s pm resources { s with
        sendQueue := r.1
        txCredits := r.2.1
        txQueue := r.2.2
        phase := if r.1 = [] then .idle else .issuing }

theorem sendPacketCompletion_cases (ep : Endpoint) (s : State) (packet : Packet) (status : Status) :
    sendPacketCompletion ep s packet status = .completed packet status ∨
      sendPacketCompletion ep s packet status = .freed packet := by
  unfold sendPacketCompletion
  split
  · exact Or.inl rfl
  · exact Or.inr rfl

theorem sendQueue_of_pulling (s : State) (hempty : s.phase ≠ .issuing → s.sendQueue = [])
    (hpulling : s.phase = .pulling) : s.sendQueue = [] := by
  apply hempty
  rw [hpulling]
  intro hne
  cases hne

theorem pull_cases (ep : Endpoint) (s : State) (pm : List Bool) (resources : ℤ) :
    Pulled ep s pm resources (pull ep s pm resources) := by
  unfold pull
  split
  · exact .stay
  · next hphase =>
      have hpulling : s.phase = .pulling := not_not.mp hphase
      split
      · exact .done hpulling
      · split
        · exact .done hpulling
        · exact .packets hpulling rfl

inductive Issued (ep : Endpoint) (s : State) (env : IssueEnv) : State × List Output → Prop
  | stay : Issued ep s env (s, [])
  | padding (hphase : s.phase = .issuing) (h : ep.hasPaddingCredit ∧ ¬env.padding) :
      Issued ep s env (putBack s, [])
  | done (hphase : s.phase = .issuing) (hqueue : s.sendQueue = []) :
      Issued ep s env ({ s with phase := .pulling }, [])
  | header {packet : Packet} {rest : List Packet} (hphase : s.phase = .issuing)
      (hqueue : s.sendQueue = packet :: rest) (hpad : ep.hasPaddingCredit → env.padding)
      (h : ep.creditFlow ∧ ¬env.hdr) : Issued ep s env (putBack { s with sendQueue := rest }, [])
  | mapping {packet : Packet} {rest : List Packet} (hphase : s.phase = .issuing)
      (hqueue : s.sendQueue = packet :: rest) (hpad : ep.hasPaddingCredit → env.padding)
      (h : ep.creditFlow ∧ ¬env.mapped) : Issued ep s env (putBack s, [])
  | sent {packet : Packet} {rest : List Packet} (hphase : s.phase = .issuing)
      (hqueue : s.sendQueue = packet :: rest) :
      Issued ep s env
        ({ s with sendQueue := rest, lookupQueue := s.lookupQueue ++ [packet] }, [.sent packet])
  | refused (hphase : s.phase = .issuing) :
      Issued ep s env (putBack { s with txCredits := s.txCredits + used s.sendQueue }, [])

theorem issue_cases (ep : Endpoint) (s : State) (env : IssueEnv) : Issued ep s env (issue ep s env) := by
  unfold issue
  split
  · exact .stay
  · next hphase =>
      have hissuing : s.phase = .issuing := not_not.mp hphase
      split
      · next hpadding => exact .padding hissuing hpadding
      · next hpadding =>
          have hpad : ep.hasPaddingCredit → env.padding := by
            intro hhas
            by_contra hmissing
            exact hpadding ⟨hhas, hmissing⟩
          split
          · next hqueue => exact .done hissuing hqueue
          · next packet rest hqueue =>
              split
              · next hhdr => exact .header hissuing hqueue hpad hhdr
              · split
                · next hmapped => exact .mapping hissuing hqueue hpad hmapped
                · split
                  · exact .sent hissuing hqueue
                  · exact .refused hissuing

end KernelModules.Htc
