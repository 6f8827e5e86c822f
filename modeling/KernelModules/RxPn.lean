import KernelModules.Chains
import Mathlib.Data.Fintype.Card

/-!
# The rx PN check in the host

A list of MPDUs comes in as one chain of MSDUs. Each MPDU that is encrypted has a packet number,
which is compared with the last one that has been accepted for the tid. The MSDUs of a replayed MPDU
are freed, and the others are linked up again.
-/

namespace KernelModules.RxPn

open Chains

inductive WlanOpMode
  | unknown | ap | ibss | sta | monitor | ocb | ndi
  deriving DecidableEq

inductive HttSecType
  | none | wep128 | wep104 | wep40 | tkip | tkipNomic | aesCcmp | wapi | aesCcmp256 | aesGcmp
  | aesGcmp256
  deriving DecidableEq

/-- The two words of the union; the shorter numbers are its low bits. -/
structure HttRxPn where
  pn128 : UInt64 × UInt64

def HttRxPn.pn24 (pn : HttRxPn) : UInt32 :=
  pn.pn128.1.toUInt32

def HttRxPn.pn48 (pn : HttRxPn) : UInt64 :=
  pn.pn128.1

inductive RxPnCmp
  | cmp24 | cmp48 | wapiCmp

def olRxPnCmp24 (newPn oldPn : HttRxPn) : Bool :=
  newPn.pn24 &&& 0xffffff ≤ oldPn.pn24 &&& 0xffffff

def olRxPnCmp48 (newPn oldPn : HttRxPn) : Bool :=
  newPn.pn48 &&& 0xffffffffffff ≤ oldPn.pn48 &&& 0xffffffffffff

def olRxPnWapiCmp (newPn oldPn : HttRxPn) (isUnicast : Bool) (opmode : WlanOpMode) : Bool :=
  let pnIsReplay :=
    if newPn.pn128.2 = oldPn.pn128.2 then decide (newPn.pn128.1 ≤ oldPn.pn128.1)
    else decide (newPn.pn128.2 < oldPn.pn128.2)
  if isUnicast then
    if opmode = .ap then pnIsReplay || decide (newPn.pn128.1 &&& 1 ≠ 0)
    else pnIsReplay || decide (newPn.pn128.1 &&& 1 ≠ 1)
  else pnIsReplay

def RxPnCmp.eval (newPn oldPn : HttRxPn) (isUnicast : Bool) (opmode : WlanOpMode) : RxPnCmp → Bool
  | .cmp24 => olRxPnCmp24 newPn oldPn
  | .cmp48 => olRxPnCmp48 newPn oldPn
  | .wapiCmp => olRxPnWapiCmp newPn oldPn isUnicast opmode

/-- How the numbers of a cipher are compared; where there is no comparison the length is zero. -/
structure RxPnEntry where
  cmp : Option RxPnCmp := none
  len : ℕ := 0

def rxPnAttach : HttSecType → RxPnEntry
  | .tkip | .tkipNomic | .aesCcmp => ⟨some .cmp48, 48⟩
  | .wapi => ⟨some .wapiCmp, 128⟩
  | _ => {}

structure Pdev where
  rxPn : HttSecType → RxPnEntry

structure Vdev where
  opmode : WlanOpMode

structure Peer where
  fwPnCheck : Bool
  /-- For unicast and for multicast. -/
  security : Bool → HttSecType
  tidsLastPn : ℕ → HttRxPn
  tidsLastPnValid : ℕ → Bool
  tidsRekeyFlag : ℕ → Bool

/-- What is read from the descriptor of an MSDU; the packet number for a length. -/
structure RxDesc where
  isWlanMcast : Bool
  completesMpdu : Bool
  isEncrypted : Bool
  pn : ℕ → HttRxPn

section Functions

variable {α : Type*} [DecidableEq α]

def mpduTail (next : α → Option α) (desc : α → RxDesc) : ℕ → α → Option α
  | 0, _ => none
  | n + 1, msdu =>
    if (desc msdu).completesMpdu then some msdu
    else (next msdu).bind (mpduTail next desc n)

structure Check (α : Type*) where
  next : α → Option α
  outListHead : Option α
  outListTail : Option α
  lastPnValid : Bool
  peer : Peer
  freed : List α

def Check.addMpduToList (s : Check α) (mpdu mpduTail : α) : Check α :=
  match s.outListHead with
  | none => { s with outListHead := some mpdu, outListTail := some mpduTail }
  | some _ =>
    { s with next := setNext s.next s.outListTail (some mpdu), outListTail := some mpduTail }

def Check.remember (s : Check α) (tid : ℕ) (newPn : HttRxPn) : Check α :=
  { s with peer.tidsLastPn := Function.update s.peer.tidsLastPn tid newPn }

variable [Fintype α] (pdev : Pdev) (vdev : Vdev) (tid : ℕ) (desc : α → RxDesc) (mcast : Bool)

/-- The body of the loop, for the MPDU with these MSDUs at its ends. -/
def checkMpdu (s : Check α) (mpdu mpduTail : α) : Option (Check α) :=
  let rxDesc := desc mpdu
  if !rxDesc.isEncrypted then some (s.addMpduToList mpdu mpduTail)
  else
    let secType := s.peer.security mcast
    let newPn := rxDesc.pn (pdev.rxPn secType).len
    let lastPn := s.peer.tidsLastPn tid
    let pnIsReplay :=
      if s.lastPnValid then (pdev.rxPn secType).cmp.any (·.eval newPn lastPn (!mcast) vdev.opmode)
      else false
    let s :=
      if s.lastPnValid then s
      else
        { s with
          lastPnValid := true
          peer.tidsLastPnValid := Function.update s.peer.tidsLastPnValid tid true }
    if pnIsReplay then
      (walkTo s.next (some mpduTail) (Fintype.card α) (some mpdu)).map fun msdus =>
        { s with freed := s.freed ++ msdus }
    else
      let s := s.addMpduToList mpdu mpduTail
      if secType = .wapi ∧ s.peer.tidsRekeyFlag tid ∧ !mcast then
        some { s with peer.tidsRekeyFlag := Function.update s.peer.tidsRekeyFlag tid false }
      else some (s.remember tid newPn)

def checkLoop : ℕ → Option α → Check α → Option (Check α)
  | _, none, s => some s
  | 0, some _, _ => none
  | n + 1, some mpdu, s =>
    (mpduTail s.next desc (Fintype.card α) mpdu).bind fun mpduTail =>
      let nextMpdu := s.next mpduTail
      (checkMpdu pdev vdev tid desc mcast s mpdu mpduTail).bind (checkLoop n nextMpdu)

/-- What is returned is the head of a list; the links, the peer and what has been freed go with
it. -/
structure Outcome (α : Type*) where
  outList : Option α
  next : α → Option α
  freed : List α

def olRxPnCheckBase (peer : Peer) (next : α → Option α) (msduList : α) :
    Option (Outcome α × Peer) :=
  if peer.fwPnCheck ∨ vdev.opmode = .ibss then some (⟨some msduList, next, []⟩, peer)
  else
    let mcast := (desc msduList).isWlanMcast
    if (pdev.rxPn (peer.security mcast)).len = 0 then some (⟨some msduList, next, []⟩, peer)
    else
      (checkLoop pdev vdev tid desc mcast (Fintype.card α) (some msduList)
        ⟨next, none, none, peer.tidsLastPnValid tid, peer, []⟩).map fun s =>
          (⟨s.outListHead, setNext s.next s.outListTail none, s.freed⟩, s.peer)

end Functions

end KernelModules.RxPn
