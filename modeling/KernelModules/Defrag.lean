import KernelModules.Machine
import Mathlib.Data.List.Sort

/-!
# Reassembly of fragments

`ol_rx_reorder_store_frag` keeps the fragments of one MPDU in the slot of a tid, as a list with a
pointer to its tail, and hands the list to `ol_rx_defrag` when it is complete. A fragment above the
tail goes behind it; any other one goes behind the first fragment that is not below it. The wait
list of the timeout is left out.
-/

namespace KernelModules.Defrag

/-- A buffer with the fields of its 802.11 header. -/
structure Frag where
  nbuf : ℕ
  fc1 : UInt8
  seq : UInt16
  addr1 : Vector UInt8 6
  addr2 : Vector UInt8 6
  deriving DecidableEq

def Frag.fragno (frag : Frag) : ℕ := (frag.seq &&& 0x000f).toNat

def Frag.rxseq (frag : Frag) : ℕ := (frag.seq >>> 4).toNat

def Frag.moreFrag (frag : Frag) : Bool := frag.fc1 &&& 0x04 ≠ 0

/-- The list that `head` leads to, and the fragment that `tail` points at. -/
structure Slot where
  frags : List Frag
  tail : Option Frag

def Slot.empty : Slot := ⟨[], none⟩

inductive Output
  | defrag (frags : List Frag)
  | free (frag : Frag)

/-- `qdf_nbuf_set_next(node, frag)`, where `frag` is the last of the list. -/
def setLast (node frag : Frag) : List Frag → List Frag
  | [] => []
  | cur :: rest => if cur = node then [cur, frag] else cur :: setLast node frag rest

def insertBehind (frag : Frag) : List Frag → List Frag
  | [] => []
  | cur :: rest =>
    if cur.fragno < frag.fragno then cur :: insertBehind frag rest else cur :: frag :: rest

def inSequence : ℕ → List Frag → Bool
  | _, [] => true
  | count, next :: rest => next.fragno = count && inSequence (count + 1) rest

def allPresent (slot : Slot) : Bool :=
  slot.tail.any (!·.moreFrag) && inSequence 1 slot.frags.tail

/-- `ol_rx_fraglist_insert`: the slot, what is freed, and `all_frag_present`. -/
def fraglistInsert (slot : Slot) (frag : Frag) : Slot × List Output × Bool :=
  match slot.tail with
  | none => (⟨[frag], some frag⟩, [], false)
  | some last =>
    if last.fragno < frag.fragno then
      let slot := ⟨setLast last frag slot.frags, some frag⟩
      (slot, [], allPresent slot)
    else if (slot.frags.find? fun cur => frag.fragno ≤ cur.fragno).any (·.fragno = frag.fragno) then
      (slot, [.free frag], false)
    else
      let slot := ⟨insertBehind frag slot.frags, some last⟩
      (slot, [], allPresent slot)

def mismatch (slot : Slot) (frag : Frag) : Bool :=
  slot.frags.head?.any fun head =>
    frag.rxseq ≠ head.rxseq || frag.addr1 ≠ head.addr1 || frag.addr2 ≠ head.addr2

/-- `ol_rx_reorder_store_frag`. -/
def storeFrag (slot : Slot) (frag : Frag) : Slot × List Output :=
  if ¬frag.moreFrag ∧ frag.fragno = 0 ∧ slot.frags = [] then (.empty, [.defrag [frag]])
  else
    let dropped := if mismatch slot frag then slot.frags.map Output.free else []
    let slot := if mismatch slot frag then .empty else slot
    match fraglistInsert slot frag with
    | (slot, freed, true) => (.empty, dropped ++ freed ++ [.defrag slot.frags])
    | (slot, freed, false) => (slot, dropped ++ freed)

def store : Machine Slot Frag Output where
  step := storeFrag

/-- An MPDU in fragments from 0 to the last. -/
structure Mpdu where
  seq : ℕ
  addr1 : Vector UInt8 6
  addr2 : Vector UInt8 6
  last : ℕ

structure Mpdu.Has (m : Mpdu) (frag : Frag) : Prop where
  rxseq : frag.rxseq = m.seq
  addr1 : frag.addr1 = m.addr1
  addr2 : frag.addr2 = m.addr2
  fragno : frag.fragno ≤ m.last
  moreFrag : frag.moreFrag = decide (frag.fragno ≠ m.last)

def fragnos (frags : List Frag) : List ℕ := frags.map Frag.fragno

def Mpdu.Complete (m : Mpdu) (arrived : List Frag) : Prop := ∀ i ≤ m.last, i ∈ fragnos arrived
deriving Decidable

def duplicates (arrived : List Frag) : List Frag → List Frag
  | [] => []
  | frag :: rest =>
    if frag.fragno ∈ fragnos arrived then frag :: duplicates (frag :: arrived) rest
    else duplicates (frag :: arrived) rest

def Output.freed? : Output → Option Frag
  | .free frag => some frag
  | .defrag _ => none

def Output.handed? : Output → Option (List ℕ)
  | .defrag frags => some (fragnos frags)
  | .free _ => none

/-- The list in the slot is ascending at all times; the list from 0 to the last fragment is handed
over when all have arrived, and at no other time; each duplicate is freed once. -/
structure Reassembled (m : Mpdu) (frags : List Frag) : Prop where
  ascending : ∀ arrived rest, frags = arrived ++ rest →
    (fragnos (store.run .empty arrived).1.frags).Pairwise (· < ·)
  handed : ∀ arrived frag rest, frags = arrived ++ frag :: rest →
    (store.step (store.run .empty arrived).1 frag).2.filterMap Output.handed? =
      if m.Complete (arrived ++ [frag]) ∧ ¬m.Complete arrived then [List.range (m.last + 1)] else []
  freed : (store.run .empty frags).2.filterMap Output.freed? = duplicates [] frags

/-- No fragment arrives behind a larger one, unless it is a duplicate, and none when all have
arrived. -/
def InOrder (m : Mpdu) (frags : List Frag) : Prop :=
  ∀ arrived frag rest, frags = arrived ++ frag :: rest →
    ¬m.Complete arrived ∧
      (frag.fragno ∉ fragnos arrived → ∀ i ∈ fragnos arrived, i < frag.fragno)

end KernelModules.Defrag
