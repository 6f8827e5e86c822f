import KernelModules.Machine
import KernelModules.OlTxSched
import KernelModules.Sweep

/-!
# Runs of the transmit scheduler

Every call keeps the books, but for those that free a paused queue, whose pauses stay while its flag
goes, those that pause a queue whose count of pauses is full, and the free of the queues of a virtual
device that hold frames, which uses other identifiers than the frames had.
-/

namespace KernelModules.OlTx

open Ledger Rosters

/-- The calls, each under the lock. A discard of all gives the lock up before it flushes what the
scheduler does not hold. -/
inductive Event
  | enqueue (specs : Cat → Specs) (discard : Option ℕ) (txq : TxqId) (desc : TxDesc)
  | sched (env : Env)
  | peerTidPause (peer : ℕ) (tid : Fin 18)
  | peerTidUnpause (env : Env) (peer : ℕ) (tid : Fin 18)
  | peerPause (peer : ℕ)
  | peerPauseButNoMgmtQ (peer : ℕ)
  | peerUnpause (env : Env) (peer : ℕ)
  | peerUnpauseButNoMgmtQ (env : Env) (peer : ℕ)
  | vdevPause (peers : PeerList) (pauseType : PauseType)
  | vdevUnpause (env : Env) (peers : PeerList) (pauseType : PauseType)
  | queueDiscard (specs : Cat → Specs) (flushAll : Bool) (num : ℕ)
  | queueFlush (vdevs : List (ℕ × PeerList))
  | vdevFlush (vdev : ℕ) (peers : PeerList)
  | peerTxQueueFree (peer : ℕ)
  | vdevTxQueueFree (vdev : ℕ)

def step (p : Pdev) : Event → Pdev
  | .enqueue specs discard txq desc => enqueue specs discard p txq desc
  | .sched env => (sched env p).2
  | .peerTidPause peer tid => peerTidPauseBase p peer tid
  | .peerTidUnpause env peer tid => (peerTidUnpauseBase env p peer tid).2
  | .peerPause peer => pauseTids p peer allTids
  | .peerPauseButNoMgmtQ peer => pauseTids p peer noMgmtTids
  | .peerUnpause env peer => (unpauseTids env p peer allTids).2
  | .peerUnpauseButNoMgmtQ env peer => (unpauseTids env p peer noMgmtTids).2
  | .vdevPause peers pauseType => vdevPause p peers pauseType
  | .vdevUnpause env peers pauseType => (vdevUnpause env p peers pauseType).2
  | .queueDiscard specs flushAll num => queueDiscard specs flushAll num p
  | .queueFlush vdevs => queueFlush p vdevs
  | .vdevFlush vdev peers => vdevFlush p vdev peers
  | .peerTxQueueFree peer => peerTxQueueFree p peer
  | .vdevTxQueueFree vdev => vdevTxQueueFree p vdev

def machine : Machine Pdev Event Unit where
  step p e := (step p e, [])

def Room (p : Pdev) (peer : ℕ) (tid : Fin 18) : Prop :=
  (p.txq (.peer peer tid)).pausedTotal ≠ 255
deriving Decidable

def Flushable (p : Pdev) (peer : ℕ) : Prop :=
  ∀ tid, (p.txq (.peer peer tid)).frms ≠ 0 → (p.txq (.peer peer tid)).pausedTotal = 0

/-- No queue that the call frees is paused, no queue that it pauses has a full count, and it does
not free the queues of a virtual device that hold frames as `ol_txrx_vdev_tx_queue_free` does. -/
def Clear (p : Pdev) : Event → Prop
  | .peerTidPause peer tid => Room p peer tid
  | .peerPause peer => ∀ tid ∈ allTids, Room p peer tid
  | .peerPauseButNoMgmtQ peer => ∀ tid ∈ noMgmtTids, Room p peer tid
  | .vdevPause peers pauseType =>
    ∀ peer ∈ peers.peers.filter pauseType.covers, ∀ tid ∈ allTids, Room p peer.id tid
  | .queueFlush vdevs => ∀ v ∈ vdevs, ∀ peer ∈ v.2.peers, Flushable p peer.id
  | .vdevFlush _ peers => ∀ peer ∈ peers.peers, Flushable p peer.id
  | .peerTxQueueFree peer => ∀ tid, (p.txq (.peer peer tid)).pausedTotal = 0
  | .vdevTxQueueFree vdev => ∀ k, (p.txq (.vdev vdev k)).frms = 0
  | _ => True

instance (p : Pdev) (peer : ℕ) : Decidable (Flushable p peer) :=
  inferInstanceAs (Decidable (∀ _ : Fin 18, _ → _))

instance (p : Pdev) (vdev : ℕ) : Decidable (∀ k, (p.txq (.vdev vdev k)).frms = 0) :=
  decidable_of_iff
    ((p.txq (.vdev vdev .mcastBcast)).frms = 0 ∧ (p.txq (.vdev vdev .defaultMgmt)).frms = 0)
    ⟨fun hand k => by cases k <;> simp only [hand], fun hall => ⟨hall _, hall _⟩⟩

instance decidableClear (p : Pdev) (e : Event) : Decidable (Clear p e) := by
  cases e <;> unfold Clear <;> infer_instance

/-- Each queue is paused just while it has pauses, and is linked in its category, once, just while
it is not paused and holds frames; each category counts the frames and bytes of the queues that it
links and is active just while it links any; and no frame was sent from a queue with pauses. -/
structure Accounted (p : Pdev) : Prop where
  paused : ∀ q, (p.txq q).flag = .paused ↔ 0 < (p.txq q).pausedTotal
  linked : ∀ q c, (p.categories c).head.count q =
    if c = q.category ∧ (p.txq q).flag ≠ .paused ∧ (p.txq q).head ≠ [] then 1 else 0
  frms : ∀ c, (p.categories c).frms = total (fun q => (p.txq q).frms) (p.categories c).head
  bytes : ∀ c, (p.categories c).bytes = total (fun q => (p.txq q).bytes) (p.categories c).head
  active : ∀ c, (p.categories c).active = true ↔ (p.categories c).head ≠ []
  held : ∀ q, (p.txq q).frms = (p.txq q).head.length ∧ (p.txq q).bytes = bytesOf (p.txq q).head
  sent : ∀ e ∈ p.sent, e.pausedTotal = 0

section

variable {p : Pdev} {q : TxqId} {tid : ℕ}

theorem Txq.Ok.active_iff {t : Txq} (h : t.Ok) :
    t.flag = .active ↔ t.flag ≠ .paused ∧ t.head ≠ [] := by
  have hzero : t.flag ≠ .paused ↔ t.pausedTotal = 0 := by
    rw [Ne, h.paused, Nat.not_lt, Nat.le_zero]
  rw [h.active, h.frms, List.length_pos_iff, hzero]

theorem Inv.accounted (h : Inv p) : Accounted p where
  paused q := (h.ok q).paused
  linked q c := by
    have hiff : q ∈ (p.categories c).head ↔
        c = q.category ∧ (p.txq q).flag ≠ .paused ∧ (p.txq q).head ≠ [] := by
      rw [(h.fair c).mem, (h.ok q).active_iff, eq_comm]
    by_cases hmem : q ∈ (p.categories c).head
    · rw [if_pos (hiff.mp hmem)]
      exact List.count_eq_one_of_mem (h.fair c).lists.nodup hmem
    · rw [if_neg fun hand => hmem (hiff.mpr hand)]
      exact List.count_eq_zero.mpr hmem
  frms c := (h.fair c).frms
  bytes c := (h.fair c).bytes
  active c := (h.fair c).active
  held q := ⟨(h.ok q).frms, (h.ok q).bytes⟩
  sent := h.sent

theorem queueFree_other {b : TxqId} (hb : b ≠ q) : (queueFree p q tid).txq b = p.txq b := by
  unfold queueFree
  split_ifs <;> exact Function.update_of_ne hb ..

theorem queueFree_self : ((queueFree p q tid).txq q).frms = 0 := by
  unfold queueFree
  rw [setTxq_txq, Function.update_self]

variable {peer : ℕ} {tids : List (Fin 18)}

theorem peerTidPauseBase_other {b : TxqId} {tid : Fin 18} (hb : b ≠ .peer peer tid) :
    (peerTidPauseBase p peer tid).txq b = p.txq b := by
  unfold peerTidPauseBase
  dsimp only
  split_ifs
  · exact (Function.update_of_ne hb ..).trans (Function.update_of_ne hb ..)
  · exact (Function.update_of_ne hb ..).trans (Function.update_of_ne hb ..)
  · exact Function.update_of_ne hb ..

theorem pauseTids_other {b : TxqId}
    (hb : ∀ tid, b ≠ .peer peer tid) : (pauseTids p peer tids).txq b = p.txq b :=
  List.foldlRecOn (motive := fun p' : Pdev => p'.txq b = p.txq b) tids _ rfl fun _ heq tid _ =>
    (peerTidPauseBase_other (hb tid)).trans heq

theorem Inv.pauseTids (h : Inv p) (peer : ℕ) (hnodup : tids.Nodup)
    (hroom : ∀ tid ∈ tids, Room p peer tid) : Inv (pauseTids p peer tids) := by
  refine Sweep.foldl_of_ready (R := fun p tid => Room p peer tid)
    (fun p tid hp hr => hp.peerTidPauseBase peer tid hr) (fun p tid b hne hr => ?_) hnodup h hroom
  have hb : TxqId.peer peer b ≠ .peer peer tid := fun heq => hne (TxqId.peer.inj heq).2
  rw [Room, peerTidPauseBase_other hb]
  exact hr

theorem allTids_nodup : allTids.Nodup := List.nodup_finRange 18

theorem Inv.vdevPause (h : Inv p) (peers : PeerList) (pauseType : PauseType)
    (hroom : ∀ peer ∈ peers.peers.filter pauseType.covers, ∀ tid ∈ allTids, Room p peer.id tid) :
    Inv (vdevPause p peers pauseType) := by
  have hnodup : ((peers.peers.filter pauseType.covers).map Peer.id).Nodup :=
    peers.nodup.sublist (List.filter_sublist.map Peer.id)
  have hfold : OlTx.vdevPause p peers pauseType =
      ((peers.peers.filter pauseType.covers).map Peer.id).foldl
        (fun p peer => OlTx.pauseTids p peer allTids) p := by
    rw [OlTx.vdevPause, List.foldl_map]
  rw [hfold]
  refine Sweep.foldl_of_ready (R := fun p peer => ∀ tid ∈ allTids, Room p peer tid)
    (fun p peer hp hr => hp.pauseTids peer allTids_nodup hr) (fun p peer b hne hr tid htid => ?_)
    hnodup h fun peer hpeer => ?_
  · have hb : ∀ t, TxqId.peer b tid ≠ .peer peer t := fun t heq => hne (TxqId.peer.inj heq).1
    rw [Room, pauseTids_other hb]
    exact hr tid htid
  · obtain ⟨x, hx, rfl⟩ := List.mem_map.mp hpeer
    exact hroom x hx

theorem Inv.unpauseTids (h : Inv p) (env : Env) (peer : ℕ) (tids : List (Fin 18)) :
    Inv (unpauseTids env p peer tids).2 :=
  List.foldlRecOn (motive := fun s : Env × Pdev => Inv s.2) tids _ h fun s hs tid _ =>
    hs.peerTidUnpauseBase s.1 peer tid

theorem Inv.vdevUnpause (h : Inv p) (env : Env) (peers : PeerList) (pauseType : PauseType) :
    Inv (vdevUnpause env p peers pauseType).2 :=
  List.foldlRecOn (motive := fun s : Env × Pdev => Inv s.2) _ _ h fun s hs peer _ =>
    hs.unpauseTids s.1 peer.id allTids

theorem flushable_queueFree {b : ℕ} (tid : Fin 18) (t : ℕ) (h : Flushable p b) :
    Flushable (queueFree p (.peer peer tid) t) b := by
  intro tid'
  by_cases hb : TxqId.peer b tid' = .peer peer tid
  · rw [hb, queueFree_self]
    exact fun hne => absurd rfl hne
  · rw [queueFree_other hb]
    exact h tid'

/-- What a flush keeps: the books are right, and of these peers no paused queue holds frames. -/
def Flushing (on : ℕ → Prop) (p : Pdev) : Prop :=
  Inv p ∧ ∀ peer, on peer → Flushable p peer

variable {on : ℕ → Prop}

theorem Flushing.flushPeer (h : Flushing on p) (hon : on peer) :
    Flushing on (flushPeer p peer) := by
  refine List.foldlRecOn (motive := Flushing on) allTids _ h fun p hp tid _ => ?_
  split_ifs with hfrms
  · exact ⟨hp.1.queueFree (hp.2 peer hon tid hfrms) fun _ => rfl,
      fun b hb => flushable_queueFree tid _ (hp.2 b hb)⟩
  · exact hp

theorem Flushing.flushPeers {peers : List Peer} (h : Flushing on p)
    (hon : ∀ peer ∈ peers, on peer.id) (fuel : ℕ) : Flushing on (flushPeers peers fuel p) := by
  induction fuel generalizing p with
  | zero => exact h
  | succ fuel ih =>
    unfold OlTx.flushPeers
    dsimp only
    obtain ⟨batch, hbatch⟩ : ∃ batch, batch = (peers.filter fun peer =>
      allTids.any fun tid => (p.txq (.peer peer.id tid)).frms ≠ 0).take 10 := ⟨_, rfl⟩
    have hsub : ∀ peer ∈ batch, peer ∈ peers := fun peer hpeer =>
      List.mem_of_mem_filter (List.mem_of_mem_take (hbatch ▸ hpeer))
    have hfold : Flushing on (batch.foldl (fun p peer => OlTx.flushPeer p peer.id) p) :=
      List.foldlRecOn (motive := Flushing on) batch _ h fun p hp peer hpeer =>
        hp.flushPeer (hon peer (hsub peer hpeer))
    rw [← hbatch]
    split_ifs
    · exact ih hfold
    · exact hfold

theorem Flushing.vdevFlush (h : Flushing on p) (vdev : ℕ) (peers : PeerList)
    (hon : ∀ peer ∈ peers.peers, on peer.id) : Flushing on (vdevFlush p vdev peers) := by
  have hfree : ∀ (p : Pdev) (k : VdevTxq), Flushing on p →
      Flushing on (queueFree p (.vdev vdev k) (TxqId.vdev vdev k).extTid) := fun p k hp =>
    ⟨hp.1.queueFree (hp.1.vdev vdev k) fun _ => rfl, fun b hb tid => by
      rw [queueFree_other (fun heq => TxqId.noConfusion heq)]
      exact hp.2 b hb tid⟩
  exact (hfree _ .defaultMgmt (hfree p .mcastBcast h)).flushPeers hon _

theorem Inv.queueFlush (h : Inv p) (vdevs : List (ℕ × PeerList))
    (hclear : ∀ v ∈ vdevs, ∀ peer ∈ v.2.peers, Flushable p peer.id) : Inv (queueFlush p vdevs) := by
  have hstart : Flushing (fun b => ∃ v ∈ vdevs, ∃ peer ∈ v.2.peers, peer.id = b) p := by
    refine ⟨h, ?_⟩
    rintro b ⟨v, hv, peer, hpeer, rfl⟩
    exact hclear v hv peer hpeer
  exact (List.foldlRecOn (motive := Flushing _) vdevs _ hstart fun p hp v hv =>
    hp.vdevFlush v.1 v.2 fun peer hpeer => ⟨v, hv, peer, hpeer, rfl⟩).1

theorem Inv.vdevFlush (h : Inv p) (vdev : ℕ) (peers : PeerList)
    (hclear : ∀ peer ∈ peers.peers, Flushable p peer.id) : Inv (vdevFlush p vdev peers) := by
  have hstart : Flushing (fun b => ∃ peer ∈ peers.peers, peer.id = b) p := by
    refine ⟨h, ?_⟩
    rintro b ⟨peer, hpeer, rfl⟩
    exact hclear peer hpeer
  exact (hstart.vdevFlush vdev peers fun peer hpeer => ⟨peer, hpeer, rfl⟩).1

theorem Inv.peerTxQueueFree (h : Inv p) (peer : ℕ)
    (hclear : ∀ tid, (p.txq (.peer peer tid)).pausedTotal = 0) : Inv (peerTxQueueFree p peer) := by
  refine Sweep.foldl_of_ready
    (R := fun (p : Pdev) (tid : Fin 18) => (p.txq (.peer peer tid)).pausedTotal = 0)
    (fun p tid hp hr => hp.queueFree hr fun _ => rfl) (fun p tid b hne hr => ?_) allTids_nodup h
    fun tid _ => hclear tid
  rw [queueFree_other fun heq => hne (TxqId.peer.inj heq).2]
  exact hr

theorem Inv.vdevTxQueueFree (h : Inv p) (vdev : ℕ)
    (hclear : ∀ k, (p.txq (.vdev vdev k)).frms = 0) : Inv (vdevTxQueueFree p vdev) := by
  have hidle : ∀ (p : Pdev) (k : VdevTxq) (t : ℕ), Inv p → (p.txq (.vdev vdev k)).frms = 0 →
      Inv (OlTx.queueFree p (.vdev vdev k) t) := fun p k t hp hnone =>
    hp.queueFree (hp.vdev vdev k) fun ha => absurd hnone (hp.pos _ ha).ne'
  refine hidle _ .defaultMgmt _ (hidle p .mcastBcast _ h (hclear _)) ?_
  rw [queueFree_other fun heq => VdevTxq.noConfusion (TxqId.vdev.inj heq).2]
  exact hclear _

theorem Inv.step {e : Event} (h : Inv p) (hc : Clear p e) : Inv (step p e) := by
  cases e with
  | enqueue specs discard txq desc => exact h.enqueue specs discard txq desc
  | sched env => exact h.sched env
  | peerTidPause peer tid => exact h.peerTidPauseBase peer tid hc
  | peerTidUnpause env peer tid => exact h.peerTidUnpauseBase env peer tid
  | peerPause peer => exact h.pauseTids peer allTids_nodup hc
  | peerPauseButNoMgmtQ peer => exact h.pauseTids peer (allTids_nodup.filter _) hc
  | peerUnpause env peer => exact h.unpauseTids env peer allTids
  | peerUnpauseButNoMgmtQ env peer => exact h.unpauseTids env peer noMgmtTids
  | vdevPause peers pauseType => exact h.vdevPause peers pauseType hc
  | vdevUnpause env peers pauseType => exact h.vdevUnpause env peers pauseType
  | queueDiscard specs flushAll num => exact h.queueDiscard specs flushAll num
  | queueFlush vdevs => exact h.queueFlush vdevs hc
  | vdevFlush vdev peers => exact h.vdevFlush vdev peers hc
  | peerTxQueueFree peer => exact h.peerTxQueueFree peer hc
  | vdevTxQueueFree vdev => exact h.vdevTxQueueFree vdev hc

end

/-- In a run whose steps are clear, the books are right in the state reached, and so in each state
on the way. -/
theorem accounted_of_clear (specs : Cat → Specs) (es : List Event)
    (h : machine.Meets Clear (init specs) es) : Accounted (machine.run (init specs) es).1 :=
  (machine.invariant_of_meets (fun _ _ => Inv.step) (Inv.init specs) h).accounted

def pausedFlush : List Event :=
  [.enqueue (fun _ => ⟨1, 1, 4, 0, 1⟩) none (.peer 0 0) ⟨100, 1⟩, .peerTidPause 0 0,
    .vdevFlush 0 ⟨[⟨0, false⟩], List.nodup_singleton 0⟩]

theorem pausedFlush_not_accounted :
    ¬∀ (specs : Cat → Specs) (es : List Event),
      Accounted (machine.run (init specs) es).1 := by
  intro h
  have hpaused := (h (fun _ => ⟨1, 1, 4, 0, 1⟩) pausedFlush).paused (.peer 0 0)
  revert hpaused
  decide +kernel

/-- The pause is taken back, and its frame sent, before the flush. -/
theorem unpausedFlush_accounted :
    Accounted (machine.run (init fun _ => ⟨1, 1, 4, 0, 1⟩)
      [.enqueue (fun _ => ⟨1, 1, 4, 0, 1⟩) none (.peer 0 0) ⟨100, 1⟩, .peerTidPause 0 0,
        .peerTidUnpause ⟨fun _ => ⟨1, 1, 4, 0, 1⟩, 8, fun _ => none, fun _ => 0, fun _ => none⟩ 0 0,
        .vdevFlush 0 ⟨[⟨0, false⟩], List.nodup_singleton 0⟩]).1 :=
  accounted_of_clear _ _ (by decide +kernel)

end KernelModules.OlTx
