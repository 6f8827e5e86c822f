import Mathlib.Tactic

/-!
# Queues and categories of the high-latency transmit scheduler

Each peer has a queue for every traffic identifier and each virtual device has two of its own. A
queue that holds frames and is not paused is linked in the list of a category, which counts its
frames and bytes. The scheduler takes frames from a queue of a category that the weighted round
robin picks; congestion control discards them.

The credits, the group credits, the limits of slow peers and the weights of the categories are given
to each call. The pool of descriptors has a 16 bit size, so the counters of frames and bytes are
unbounded here; the count of pauses has its 8 bits.
-/

namespace KernelModules.OlTx

scoped instance neZero_eighteen : NeZero 18 := ⟨by decide⟩

inductive VdevTxq
  | mcastBcast
  | defaultMgmt
  deriving DecidableEq

inductive TxqId
  | peer (peer : ℕ) (tid : Fin 18)
  | vdev (vdev : ℕ) (txq : VdevTxq)
  deriving DecidableEq

inductive Cat
  | be | bk | vi | vo | nonQosData | ucastMgmt | mcastData | mcastMgmt
  deriving DecidableEq

def Cat.all : List Cat := [.be, .bk, .vi, .vo, .nonQosData, .ucastMgmt, .mcastData, .mcastMgmt]

def nonQosTid : ℕ := 16
def mgmtTid : ℕ := 17
def numTids : ℕ := 18

/-- `TXRX_TID_TO_WMM_AC`. -/
def tidToWmmAc (tid : ℕ) : Cat :=
  if tid / 2 = 3 then .vo
  else if tid / 2 = 2 then .vi
  else if (tid ^^^ (tid / 2)) % 2 = 1 then .bk
  else .be

def tidToAc (tid : ℕ) : Cat :=
  if tid < 16 then tidToWmmAc tid
  else if tid = nonQosTid then .nonQosData
  else if tid = mgmtTid then .ucastMgmt
  else if tid = numTids then .mcastData
  else .mcastMgmt

def TxqId.extTid : TxqId → ℕ
  | .peer _ tid => tid
  | .vdev _ .mcastBcast => nonQosTid
  | .vdev _ .defaultMgmt => mgmtTid

def TxqId.category (q : TxqId) : Cat := tidToAc q.extTid

inductive QueueStatus
  | empty
  | active
  | paused
  deriving DecidableEq

structure TxDesc where
  len : ℕ
  credit : ℕ

def bytesOf (descs : List TxDesc) : ℕ := (descs.map TxDesc.len).sum
def creditOf (descs : List TxDesc) : ℕ := (descs.map TxDesc.credit).sum

structure Txq where
  pausedTotal : ℕ
  frms : ℕ
  bytes : ℕ
  head : List TxDesc
  flag : QueueStatus

def Txq.init : Txq := ⟨0, 0, 0, [], .empty⟩

structure Specs where
  wrrSkipWeight : ℤ
  creditThreshold : ℕ
  sendLimit : ℕ
  creditReserve : ℕ
  discardWeight : ℤ

structure Category where
  wrrCount : ℤ
  frms : ℤ
  bytes : ℤ
  head : List TxqId
  active : Bool

/-- A frame handed to the target, with the queue it left and the pauses that queue was under. -/
structure Sent where
  txq : TxqId
  desc : TxDesc
  pausedTotal : ℕ

structure Pdev where
  txq : TxqId → Txq
  categories : Cat → Category
  order : List Cat
  index : ℕ
  sent : List Sent

/-- What other code decides: the credits, the groups that share them, the limits of the peers that
are held back, and the weights. -/
structure Env where
  specs : Cat → Specs
  targetTxCredit : ℤ
  group : TxqId → Option ℕ
  groupCredit : ℕ → ℤ
  txLimit : ℕ → Option ℕ

def init (specs : Cat → Specs) : Pdev where
  txq _ := Txq.init
  categories c := ⟨(specs c).wrrSkipWeight - 1, 0, 0, [], false⟩
  order := Cat.all
  index := 0
  sent := []

def Pdev.setTxq (p : Pdev) (q : TxqId) (t : Txq) : Pdev :=
  { p with txq := Function.update p.txq q t }

def Pdev.setCategory (p : Pdev) (c : Cat) (cat : Category) : Pdev :=
  { p with categories := Function.update p.categories c cat }

section

variable (p : Pdev) (q : TxqId) (t : Txq) (c : Cat) (cat : Category)

@[simp] theorem setTxq_txq : (p.setTxq q t).txq = Function.update p.txq q t := rfl
@[simp] theorem setTxq_categories : (p.setTxq q t).categories = p.categories := rfl
@[simp] theorem setTxq_sent : (p.setTxq q t).sent = p.sent := rfl
@[simp] theorem setCategory_txq : (p.setCategory c cat).txq = p.txq := rfl
@[simp] theorem setCategory_categories :
    (p.setCategory c cat).categories = Function.update p.categories c cat := rfl

end

/-- The loop of `ol_tx_dequeue`. -/
def takeFrms : ℕ → ℕ → ℕ → List TxDesc → List TxDesc
  | 0, _, _, _ => []
  | _ + 1, _, _, [] => []
  | n + 1, credit, creditSum, d :: ds =>
    if creditSum + d.credit > credit then []
    else d :: takeFrms n credit (creditSum + d.credit) ds

def dequeue (t : Txq) (maxFrames credit : ℕ) : Txq × List TxDesc :=
  let taken := takeFrms (min t.frms maxFrames) credit 0 t.head
  let frms := t.frms - taken.length
  ({ t with
      head := t.head.drop taken.length
      frms := frms
      bytes := t.bytes - bytesOf taken
      -- a paused queue remains paused, regardless of whether it has frames
      flag := if frms = 0 ∧ t.flag = .active then .empty else t.flag }, taken)

def tailqRemove (q : TxqId) (categories : Cat → Category) : Cat → Category :=
  fun c => { categories c with head := (categories c).head.erase q }

def txqEnqueue (p : Pdev) (q : TxqId) (tid : ℕ) (frms bytes : ℕ) : Pdev :=
  let c := tidToAc tid
  let cat := { p.categories c with
    frms := (p.categories c).frms + frms
    bytes := (p.categories c).bytes + bytes }
  if (p.txq q).flag ≠ .active then
    p.setCategory c { cat with head := cat.head ++ [q], active := true }
  else p.setCategory c cat

def txqDeactivate (p : Pdev) (q : TxqId) (tid : ℕ) : Pdev :=
  let c := tidToAc tid
  let p := { p with categories := tailqRemove q p.categories }
  let cat := { p.categories c with
    frms := (p.categories c).frms - (p.txq q).frms
    bytes := (p.categories c).bytes - (p.txq q).bytes }
  p.setCategory c { cat with active := if cat.frms = 0 then false else cat.active }

def txqDiscard (p : Pdev) (q : TxqId) (c : Cat) (frames bytes : ℕ) : Pdev :=
  let p := if (p.txq q).frms = 0 then { p with categories := tailqRemove q p.categories } else p
  let cat := { p.categories c with
    frms := (p.categories c).frms - frames
    bytes := (p.categories c).bytes - bytes }
  p.setCategory c { cat with active := if cat.frms = 0 then false else cat.active }

def rotateOrderListTail (order : List Cat) (idx : ℕ) : List Cat :=
  match order[idx]? with
  | none => order
  | some value => order.eraseIdx idx ++ [value]

/-- The weighted round robin: which category has its turn, and where in the order. Each round but
the last passes an inactive category or raises the count of an active one. -/
def pickCategory (specs : Cat → Specs) : ℕ → Pdev → ℕ → Pdev × Option (ℕ × Cat)
  | 0, p, _ => (p, none)
  | fuel + 1, p, index =>
    match p.order[index]? with
    | none => (p, none)
    | some c =>
      let cat := p.categories c
      if cat.active = false then pickCategory specs fuel p (index + 1)
      else
        let p := p.setCategory c { cat with wrrCount := cat.wrrCount + 1 }
        if cat.wrrCount + 1 < (specs c).wrrSkipWeight then
          pickCategory specs fuel { p with order := rotateOrderListTail p.order index } index
        else (p, some (index, c))

def pickFuel (specs : Cat → Specs) (p : Pdev) : ℕ :=
  p.order.length + 1 +
    (Cat.all.map fun c => ((specs c).wrrSkipWeight - (p.categories c).wrrCount).toNat).sum

def groupCreditLimit (env : Env) (q : TxqId) (credit : ℕ) : ℕ :=
  match env.group q with
  | none => credit
  | some g => (min (credit : ℤ) (env.groupCredit g)).toNat

def groupCreditUpdate (env : Env) (q : TxqId) (credit : ℤ) : Env :=
  match env.group q with
  | none => env
  | some g => { env with
      groupCredit := Function.update env.groupCredit g (env.groupCredit g + credit) }

def peerTxLimit (env : Env) : TxqId → Option ℕ
  | .peer peer _ => env.txLimit peer
  | .vdev _ _ => none

def badPeerDequeueCheck (env : Env) (q : TxqId) (maxFrames : ℕ) : ℕ :=
  match peerTxLimit env q with
  | none => maxFrames
  | some limit => min limit maxFrames

def badPeerUpdateTxLimit (env : Env) (q : TxqId) (maxFrames frames : ℕ) : Env :=
  match q, peerTxLimit env q with
  | .peer peer _, some limit =>
    if limit < maxFrames then
      { env with txLimit := Function.update env.txLimit peer (some (limit - frames)) }
    else env
  | _, _ => env

/-- The queue at the front of the list sends what the credit allows. -/
def serveTxq (env : Env) (p : Pdev) (c : Cat) (q : TxqId) (rest : List TxqId) (credit : ℕ) :
    Env × Pdev × ℕ :=
  let sendLimit := (env.specs c).sendLimit
  let served := dequeue (p.txq q) (badPeerDequeueCheck env q sendLimit)
    (credit - (env.specs c).creditReserve)
  let taken := served.2
  let used := creditOf taken
  let cat := { p.categories c with
    frms := (p.categories c).frms - taken.length
    bytes := (p.categories c).bytes - bytesOf taken }
  let cat :=
    if 0 < served.1.frms then { cat with head := rest ++ [q] }
    else { cat with head := rest, active := if cat.frms = 0 then false else cat.active }
  (groupCreditUpdate (badPeerUpdateTxLimit env q sendLimit taken.length) q (-used),
    { (p.setTxq q served.1).setCategory c cat with
      sent := p.sent ++ taken.map fun d => ⟨q, d, (p.txq q).pausedTotal⟩ },
    used)

/-- The loop over the list of the category. A queue whose group is out of credit goes to the back,
until the first such queue comes round. -/
def serveCategory (c : Cat) (credit : ℕ) : ℕ → Option TxqId → Env → Pdev → Env × Pdev × ℕ
  | 0, _, env, p => (env, p, 0)
  | fuel + 1, firstTxq, env, p =>
    match (p.categories c).head with
    | [] => (env, p, 0)
    | q :: rest =>
      let limited := groupCreditLimit env q credit
      if limited > (env.specs c).creditReserve then serveTxq env p c q rest limited
      else if firstTxq ≠ some q then
        serveCategory c credit fuel (some (firstTxq.getD q)) env
          (p.setCategory c { p.categories c with head := rest ++ [q] })
      else (env, p, 0)

def selectBatch (env : Env) (p : Pdev) (credit : ℕ) : Env × Pdev × ℕ :=
  match pickCategory env.specs (pickFuel env.specs p) p p.index with
  | (p, none) => (env, p, 0)
  | (p, some (index, c)) =>
    if credit < (env.specs c).creditThreshold then
      -- restore the count, since the category was not serviced after all
      (env, p.setCategory c { p.categories c with wrrCount := (p.categories c).wrrCount - 1 }, 0)
    else
      let p := p.setCategory c { p.categories c with wrrCount := 0 }
      let p := { p with order := rotateOrderListTail p.order index, index := index }
      serveCategory c credit ((p.categories c).head.length + 1) none env p

def schedLoop : ℕ → Env → Pdev → Env × Pdev
  | 0, env, p => (env, p)
  | fuel + 1, env, p =>
    if env.targetTxCredit ≤ 0 then (env, p)
    else
      let batch := selectBatch env p env.targetTxCredit.toNat
      let env := { batch.1 with targetTxCredit := batch.1.targetTxCredit - batch.2.2 }
      if batch.2.2 = 0 then (env, batch.2.1) else schedLoop fuel env batch.2.1

def sched (env : Env) (p : Pdev) : Env × Pdev :=
  schedLoop env.targetTxCredit.toNat env { p with index := 0 }

def discardSelectCategory (specs : Cat → Specs) (p : Pdev) : Cat :=
  (Cat.all.foldl (fun (best : ℤ × Cat) c =>
    let score := (p.categories c).frms * (specs c).discardWeight
    if best.1 = 0 ∨ score > best.1 then (score, c) else best) (0, .be)).2

def discardSelectTxq (txq : TxqId → Txq) (txQueues : List TxqId) : Option TxqId :=
  (txQueues.foldl (fun (best : ℕ × Option TxqId) q =>
    if (txq q).frms > best.1 then ((txq q).frms, some q) else best) (0, none)).2

def discardQuantum : ℕ := 10

def discardFrms (force : Bool) (queued frms : ℕ) : ℕ :=
  if force then frms
  else
    let frms := min frms discardQuantum
    if queued > 1 ∧ frms ≥ queued / 2 then queued / 2 else frms

def discardSelect (specs : Cat → Specs) (p : Pdev) (frms : ℕ) (force : Bool) : Pdev × ℕ :=
  let c := discardSelectCategory specs p
  match discardSelectTxq p.txq (p.categories c).head with
  | none => (p, 0)
  | some q =>
    let dropped := dequeue (p.txq q) (discardFrms force (p.txq q).frms frms) 10000
    (txqDiscard (p.setTxq q dropped.1) q c dropped.2.length (bytesOf dropped.2),
      dropped.2.length)

def discardLoop (specs : Cat → Specs) (force : Bool) : ℕ → ℕ → Pdev → Pdev
  | 0, _, p => p
  | fuel + 1, num, p =>
    if num = 0 then p
    else
      let round := discardSelect specs p num force
      if round.2 = 0 then round.1 else discardLoop specs force fuel (num - round.2) round.1

/-- `ol_tx_queue_discard`, up to where it gives up the lock. -/
def queueDiscard (specs : Cat → Specs) (flushAll : Bool) (num : ℕ) (p : Pdev) : Pdev :=
  discardLoop specs flushAll num num p

/-- What `ol_tx_enqueue` does under the lock. -/
def enqueueTxq (p : Pdev) (q : TxqId) (d : TxDesc) : Pdev :=
  let t := p.txq q
  let p := p.setTxq q { t with head := t.head ++ [d], frms := t.frms + 1, bytes := t.bytes + d.len }
  if t.flag ≠ .paused then
    let p := txqEnqueue p q q.extTid 1 d.len
    p.setTxq q { p.txq q with flag := .active }
  else p

def enqueue (specs : Cat → Specs) (discard : Option ℕ) (p : Pdev) (q : TxqId) (d : TxDesc) :
    Pdev :=
  match discard with
  | none => enqueueTxq p q d
  | some num => enqueueTxq (queueDiscard specs false num p) q d

def queueFree (p : Pdev) (q : TxqId) (tid : ℕ) : Pdev :=
  let p := if (p.txq q).flag = .active then txqDeactivate p q tid else p
  let t := p.txq q
  p.setTxq q { t with
    frms := 0, bytes := t.bytes - bytesOf (t.head.take t.frms), head := [], flag := .empty }

def peerTidPauseBase (p : Pdev) (peer : ℕ) (tid : Fin 18) : Pdev :=
  let q := TxqId.peer peer tid
  let p' := p.setTxq q { p.txq q with pausedTotal := ((p.txq q).pausedTotal + 1) % 256 }
  if (p.txq q).pausedTotal = 0 then
    let p' := if (p'.txq q).flag = .active then txqDeactivate p' q tid else p'
    p'.setTxq q { p'.txq q with flag := .paused }
  else p'

def peerTidUnpauseBase (env : Env) (p : Pdev) (peer : ℕ) (tid : Fin 18) : Env × Pdev :=
  let q := TxqId.peer peer tid
  let t := p.txq q
  if t.pausedTotal = 0 then (env, p)
  else
    let p := p.setTxq q { t with pausedTotal := t.pausedTotal - 1 }
    if t.pausedTotal = 1 then
      if t.frms = 0 then (env, p.setTxq q { p.txq q with flag := .empty })
      else
        let p := txqEnqueue p q tid t.frms t.bytes
        sched env (p.setTxq q { p.txq q with flag := .active })
    else (env, p)

structure Peer where
  id : ℕ
  /-- A direct-link peer that may go off channel. -/
  tdlsOffchan : Bool

/-- The peers of a virtual device, each once. -/
structure PeerList where
  peers : List Peer
  nodup : (peers.map Peer.id).Nodup

def allTids : List (Fin 18) := List.finRange 18

def noMgmtTids : List (Fin 18) := allTids.filter fun tid => (tid : ℕ) < mgmtTid

inductive PauseType
  | chop
  | chopTdlsOffchan
  | other

def PauseType.covers : PauseType → Peer → Bool
  | .chop, peer => !peer.tdlsOffchan
  | .chopTdlsOffchan, peer => peer.tdlsOffchan
  | .other, _ => true

def pauseTids (p : Pdev) (peer : ℕ) (tids : List (Fin 18)) : Pdev :=
  tids.foldl (fun p tid => peerTidPauseBase p peer tid) p

def unpauseTids (env : Env) (p : Pdev) (peer : ℕ) (tids : List (Fin 18)) : Env × Pdev :=
  tids.foldl (fun s tid => peerTidUnpauseBase s.1 s.2 peer tid) (env, p)

def vdevPause (p : Pdev) (peers : PeerList) (pauseType : PauseType) : Pdev :=
  (peers.peers.filter pauseType.covers).foldl (fun p peer => pauseTids p peer.id allTids) p

def vdevUnpause (env : Env) (p : Pdev) (peers : PeerList) (pauseType : PauseType) : Env × Pdev :=
  (peers.peers.filter pauseType.covers).foldl
    (fun s peer => unpauseTids s.1 s.2 peer.id allTids) (env, p)

def peerTxQueueFree (p : Pdev) (peer : ℕ) : Pdev :=
  allTids.foldl (fun p tid => queueFree p (.peer peer tid) tid) p

def vdevTxQueueFree (p : Pdev) (vdev : ℕ) : Pdev :=
  queueFree (queueFree p (.vdev vdev .mcastBcast) numTids) (.vdev vdev .defaultMgmt) (1 + numTids)

def flushPeer (p : Pdev) (peer : ℕ) : Pdev :=
  allTids.foldl (fun p tid =>
    if (p.txq (.peer peer tid)).frms ≠ 0 then queueFree p (.peer peer tid) tid else p) p

/-- Ten peers at a time. -/
def flushPeers (peers : List Peer) : ℕ → Pdev → Pdev
  | 0, p => p
  | fuel + 1, p =>
    let batch := (peers.filter fun peer =>
      allTids.any fun tid => (p.txq (.peer peer.id tid)).frms ≠ 0).take 10
    let p := batch.foldl (fun p peer => flushPeer p peer.id) p
    if batch.length ≥ 10 then flushPeers peers fuel p else p

def vdevFlush (p : Pdev) (vdev : ℕ) (peers : PeerList) : Pdev :=
  flushPeers peers.peers (peers.peers.length + 1)
    (queueFree (queueFree p (.vdev vdev .mcastBcast) nonQosTid) (.vdev vdev .defaultMgmt) mgmtTid)

def queueFlush (p : Pdev) (vdevs : List (ℕ × PeerList)) : Pdev :=
  vdevs.foldl (fun p v => vdevFlush p v.1 v.2) p

end KernelModules.OlTx
