import KernelModules.Machine
import Mathlib.Tactic

/-!
# Integrity of broadcast management frames

`wlan_crypto_add_mmie` counts the frames of a key in six bytes, the lowest one first, and puts
the count (the IPN) and a MIC at the end of the frame. `wlan_crypto_is_mmie_valid` compares the
count with that of the frame accepted last by `qdf_mem_cmp`, which starts with the lowest byte.
-/

namespace KernelModules.Bip

abbrev Bytes := List UInt8

def elemidMmie : UInt8 := 76
def maxKeyidx : ℕ := 4
def maxIgtkKeyidx : ℕ := 2
def hdrLen : ℕ := 24

inductive Cipher
  | aesCmac
  | aesCmac256
  | aesGmac
  | aesGmac256
  | other
  deriving DecidableEq

abbrev Mac := Cipher → Bytes → Bytes → Bytes → Vector UInt8 16

structure Key where
  keyix : ℕ
  keyval : Bytes
  keytsc : Vector UInt8 6
  keyrsc : Vector UInt8 6

structure CompPriv where
  igtkKeyType : Cipher
  defIgtkTxKeyid : ℕ
  igtkKey : ℕ → Option Key

def CompPriv.setKey (priv : CompPriv) (i : ℕ) (key : Key) : CompPriv :=
  { priv with igtkKey := fun j => if j = i then some key else priv.igtkKey j }

structure Mgmt where
  hdr : Vector UInt8 24
  body : Bytes

def leValue : Bytes → ℕ
  | [] => 0
  | b :: bs => b.toNat + 256 * leValue bs

/-- `qdf_mem_cmp`. -/
def memCmp : Bytes → Bytes → Ordering
  | a :: as, b :: bs => if a < b then .lt else if b < a then .gt else memCmp as bs
  | _, _ => .eq

/-- `pn[i]++` up to the first byte that does not become zero. -/
def incBytes : Bytes → Bytes
  | [] => []
  | b :: bs => if b + 1 ≠ 0 then (b + 1) :: bs else 0 :: incBytes bs

@[simp] theorem length_incBytes (pn : Bytes) : (incBytes pn).length = pn.length := by
  induction pn with
  | nil => rfl
  | cons b bs ih =>
    unfold incBytes
    split
    · rfl
    · rw [List.length_cons, List.length_cons, ih]

def incPn (pn : Vector UInt8 6) : Vector UInt8 6 :=
  ⟨(incBytes pn.toList).toArray, by simp⟩

def micLen (type : Cipher) : ℕ := if type = .aesCmac then 8 else 16

/-- `FC(masked) || A1 || A2 || A3`, of a frame. -/
def aad (frame : Bytes) : Bytes :=
  frame.getD 0 0 :: (frame.getD 1 0 &&& ~~~(0x08 ||| 0x10 ||| 0x20)) :: (frame.drop 4).take 18

/-- `A2 || PN`, the PN turned around. -/
def nonce (frame : Bytes) (pn : Vector UInt8 6) : Bytes :=
  (frame.drop 10).take 6 ++ pn.toList.reverse

def mic (mac : Mac) (type : Cipher) (keyval frame : Bytes) (pn : Vector UInt8 6) (data : Bytes)
    : Option Bytes :=
  match type with
  | .aesCmac => some (mac .aesCmac keyval [] data).toList
  | .aesCmac256 => some (mac .aesCmac256 keyval [] data).toList
  | .aesGmac => some (mac .aesGmac keyval (nonce frame pn) data).toList
  | .aesGmac256 => some (mac .aesGmac256 keyval (nonce frame pn) data).toList
  | .other => none

def mmieHead (type : Cipher) (keyix : ℕ) (pn : Vector UInt8 6) : Bytes :=
  [elemidMmie, if micLen type = 8 then 16 else 24, UInt8.ofNat keyix, UInt8.ofNat (keyix / 256)] ++
    pn.toList

def protectedData (type : Cipher) (frame body : Bytes) : Bytes :=
  aad frame ++ body ++ List.replicate (micLen type) 0

/-- `wlan_crypto_add_mmie`: the frame with its MMIE, and the key with its count advanced. -/
def addMmie (mac : Mac) (alloc : Bool) (priv : CompPriv) (mgmt : Mgmt) : Option Bytes × CompPriv :=
  if maxIgtkKeyidx ≤ priv.defIgtkTxKeyid then (none, priv)
  else
    match priv.igtkKey priv.defIgtkTxKeyid with
    | none => (none, priv)
    | some key =>
      let pn := incPn key.keytsc
      let priv := priv.setKey priv.defIgtkTxKeyid { key with keytsc := pn }
      if ¬alloc then (none, priv)
      else
        let frame := mgmt.hdr.toList ++ mgmt.body ++ mmieHead priv.igtkKeyType key.keyix pn
        match mic mac priv.igtkKeyType key.keyval frame pn
            (protectedData priv.igtkKeyType frame (frame.drop hdrLen)) with
        | none => (none, priv)
        | some mic => (some (frame ++ mic.take (micLen priv.igtkKeyType)), priv)

def mmieOf (type : Cipher) (frame : Bytes) : Bytes := frame.drop (frame.length - (10 + micLen type))

def keyIdOf (mmie : Bytes) : ℕ := (mmie.getD 2 0).toNat + 256 * (mmie.getD 3 0).toNat

def ipnOf (mmie : Bytes) : Vector UInt8 6 := .ofFn fun i => mmie.getD (4 + i) 0

/-- The MIC in the frame is that of the key. The length of a frame is kept in 16 bits. -/
def micMatches (mac : Mac) (type : Cipher) (keyval frame : Bytes) : Bool :=
  let mmie := mmieOf type frame
  let body := (frame.drop hdrLen).take (frame.length % 2 ^ 16 - hdrLen)
  match mic mac type keyval frame (ipnOf mmie)
      (protectedData type frame (body.take (body.length - micLen type))) with
  | none => false
  | some mic => mic.take (micLen type) = (mmie.drop 10).take (micLen type)

/-- `wlan_crypto_is_mmie_valid`, of the bytes from `frm` to `efrm`. -/
def isMmieValid (mac : Mac) (alloc : Bool) (priv : CompPriv) (frame : Bytes) : Bool × CompPriv :=
  if frame.length < hdrLen then (false, priv)
  else
    let mmie := mmieOf priv.igtkKeyType frame
    if mmie.getD 0 0 ≠ elemidMmie then (false, priv)
    else if maxKeyidx + maxIgtkKeyidx ≤ keyIdOf mmie ∨ keyIdOf mmie < maxKeyidx then (false, priv)
    else
      match priv.igtkKey (keyIdOf mmie - maxKeyidx) with
      | none => (false, priv)
      | some key =>
        if memCmp (ipnOf mmie).toList key.keyrsc.toList ≠ .gt then (false, priv)
        else if ¬alloc then (false, priv)
        else if ¬micMatches mac priv.igtkKeyType key.keyval frame then (false, priv)
        else (true, priv.setKey (keyIdOf mmie - maxKeyidx) { key with keyrsc := ipnOf mmie })

/-- A sender and a receiver, with the frames produced and the IPNs accepted so far, the latest
first. -/
structure Link where
  sender : CompPriv
  receiver : CompPriv
  produced : List Bytes
  accepted : List ℕ

inductive Event
  | send (mgmt : Mgmt) (alloc : Bool)
  | arrive (frame : Bytes) (alloc : Bool)

def ipnValue (type : Cipher) (frame : Bytes) : ℕ := leValue (ipnOf (mmieOf type frame)).toList

/-- The verdict on a frame is the output. -/
def link (mac : Mac) : Machine Link Event Bool where
  step s
    | .send mgmt alloc =>
      match addMmie mac alloc s.sender mgmt with
      | (none, sender) => ({ s with sender := sender }, [])
      | (some frame, sender) =>
        ({ s with sender := sender, produced := frame :: s.produced }, [])
    | .arrive frame alloc =>
      match isMmieValid mac alloc s.receiver frame with
      | (false, receiver) => ({ s with receiver := receiver }, [false])
      | (true, receiver) =>
        ({ s with
          receiver := receiver
          accepted := ipnValue s.receiver.igtkKeyType frame :: s.accepted }, [true])

/-- One key, for both sides; nothing has been received. -/
def Link.start (type : Cipher) (keyid : ℕ) (keyval : Bytes) (keytsc keytsc' : Vector UInt8 6) :
    Link where
  sender := ⟨type, keyid, fun i =>
    if i = keyid then some ⟨maxKeyidx + keyid, keyval, keytsc, .replicate 6 0⟩ else none⟩
  receiver := ⟨type, keyid, fun i =>
    if i = keyid then some ⟨maxKeyidx + keyid, keyval, keytsc', .replicate 6 0⟩ else none⟩
  produced := []
  accepted := []

/-- A frame of the sender with an IPN above all that have been accepted is accepted, one that is not
above the last accepted is rejected, and the receiver does not change when it rejects. -/
def Judged (mac : Mac) (s : Link) : Event → Prop
  | .send .. => True
  | .arrive frame alloc =>
    (frame ∈ s.produced → (∀ n ∈ s.accepted, n < ipnValue s.receiver.igtkKeyType frame) →
      (isMmieValid mac alloc s.receiver frame).1 = true) ∧
    (ipnValue s.receiver.igtkKeyType frame ≤ s.accepted.headD 0 →
      (isMmieValid mac alloc s.receiver frame).1 = false) ∧
    ((isMmieValid mac alloc s.receiver frame).1 = false →
      (isMmieValid mac alloc s.receiver frame).2 = s.receiver)

def OrderedAlike (a b : Vector UInt8 6) : Prop :=
  memCmp a.toList b.toList = memCmp a.toList.reverse b.toList.reverse
deriving Decidable

/-- An arriving frame that is checked and whose MIC is right has an IPN ordered like that of its
key; a frame of the sender is short enough, is not dropped for lack of memory, and has not the IPN
zero before anything is accepted. -/
def plain (mac : Mac) (s : Link) : Event → Prop
  | .send .. => True
  | .arrive frame alloc =>
    (∀ key ∈ s.receiver.igtkKey (keyIdOf (mmieOf s.receiver.igtkKeyType frame) - maxKeyidx),
      alloc = true → micMatches mac s.receiver.igtkKeyType key.keyval frame = true →
        OrderedAlike (ipnOf (mmieOf s.receiver.igtkKeyType frame)) key.keyrsc) ∧
    (frame ∈ s.produced → frame.length < 2 ^ 16 ∧ alloc = true ∧
      (s.accepted = [] → ipnValue s.receiver.igtkKeyType frame ≠ 0))

end KernelModules.Bip
