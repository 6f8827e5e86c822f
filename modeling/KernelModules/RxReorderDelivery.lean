import KernelModules.RxReorderSlots

/-!
# Handing on a range of slots

The release and the flush hand on a range of slots, from the first place up to the last one, which
is not part of it; it is the whole window when both are the same place. The flush hands on all that
the slots of the range hold. The release starts its chain with the first slot, and when there is
nothing in it, then what the other slots of the range hold gets lost.
-/

namespace KernelModules.Reorder

open Chains RingWalk

variable {α : Type*} {s s' : Rx α} {tid idxStart idxEnd : ℕ} {c : ℕ → List α}
  {kept done ws : List ℕ}

/-- The slots in `done` are empty, and only the links of what was in the slots `kept` have been
written. -/
structure Emptied (s : Rx α) (tid : ℕ) (c : ℕ → List α) (kept done : List ℕ) (s' : Rx α) :
    Prop where
  slots : Holds s'.next (s'.peer.tidsRxReorder tid) (cleared c done)
  array : SameArray (s.peer.tidsRxReorder tid) (s'.peer.tidsRxReorder tid)
  others : ∀ t ≠ tid, s'.peer.tidsRxReorder t = s.peer.tidsRxReorder t
  frame : ∀ a ∉ kept.flatMap c, s'.next a = s.next a
  allocated : s'.allocated = s.allocated

theorem Emptied.of_setNextRelIdx {i : ℕ} (h : Emptied (s.setNextRelIdx tid i) tid c kept done s') :
    Emptied s tid c kept done s' :=
  ⟨h.slots, h.array, h.others, h.frame, h.allocated⟩

def RxReorder.range (r : RxReorder α) (idxStart idxEnd : ℕ) : List ℕ :=
  places (r.winSzMask + 1) (idxStart &&& r.winSzMask) (idxEnd &&& r.winSzMask)

def flushEnd (idxStart idxEnd : ℕ) : ℕ :=
  if idxEnd = 0xffff then idxStart else idxEnd

/-- What the slots hold is handed up in one list, and they are empty then. -/
def Delivers (s : Rx α) (tid : ℕ) (c : ℕ → List α) (ws : List ℕ)
    (result : Option (Rx α × List (Event α))) : Prop :=
  ∃ s', result = some (s', if ws.flatMap c = [] then [] else [.deliver (ws.flatMap c)]) ∧
    Emptied s tid c ws ws s'

theorem not_delivers_of_nil (hlost : ws.flatMap c ≠ []) : ¬Delivers s tid c ws (some (s', [])) := by
  rintro ⟨s'', heq, -⟩
  rw [if_neg hlost] at heq
  cases heq

section Range

variable {r : RxReorder α}

theorem RxReorder.Sized.mask_le (hr : r.Sized) (i : ℕ) : i &&& r.winSzMask ≤ r.winSzMask := by
  obtain ⟨k, hk⟩ := hr.pow
  exact and_mask_le hk i

theorem RxReorder.le_of_mem_range {i : ℕ} (hi : i ∈ r.range idxStart idxEnd) : i ≤ r.winSzMask :=
  Nat.le_of_lt_succ (lt_of_mem_places (Nat.succ_pos _) hi)

theorem RxReorder.Sized.nodup_range (hr : r.Sized) : (r.range idxStart idxEnd).Nodup :=
  nodup_places (Nat.lt_succ_of_le (hr.mask_le _)) (Nat.lt_succ_of_le (hr.mask_le _))

theorem RxReorder.Sized.range_eq_cons (hr : r.Sized) : r.range idxStart idxEnd =
    (idxStart &&& r.winSzMask) :: (r.range idxStart idxEnd).tail := by
  obtain ⟨k, hk⟩ := hr.pow
  rw [RxReorder.range, places_cons hk (hr.mask_le _) (hr.mask_le _)]
  rfl

end Range

section Ending

variable {r : RxReorder α} {next : α → Option α} {sp : Splice α}

theorem Spliced.nodup_chain (h : Spliced next r c kept done sp) (hc : Apart (r.winSzMask + 1) c) :
    (kept.flatMap c).Nodup :=
  hc.nodup_flatMap h.keptNodup fun i hi => Nat.lt_succ_of_le (h.doneLe i (h.keptDone i hi))

variable [DecidableEq α]

theorem Spliced.setNext_end (h : Spliced next r c kept done sp) {a : α}
    (ha : a ∉ kept.flatMap c) : setNext sp.next sp.tailMsdu none a = sp.next a := by
  apply setNext_of_notMem
  rintro b hb rfl
  rw [h.chain.tail_eq] at hb
  exact ha (List.mem_of_getLast? hb)

theorem Spliced.walk_end [Fintype α] (h : Spliced next r c kept done sp)
    (hc : Apart (r.winSzMask + 1) c) :
    walk (setNext sp.next sp.tailMsdu none) (Fintype.card α) sp.headMsdu =
      some (kept.flatMap c) := by
  have hnodup := h.nodup_chain hc
  rw [h.chain.head_eq, h.chain.tail_eq]
  apply walk_of_linked
  · exact h.chain.linked.setNext_last hnodup none
  · intro a ha
    rw [ha]
    exact Function.update_self ..
  · exact hnodup.length_le_card

theorem Spliced.slots_end (h : Spliced next r c kept done sp) (hc : Apart (r.winSzMask + 1) c) :
    Holds (setNext sp.next sp.tailMsdu none) sp.r (cleared c done) := by
  intro i hi
  apply (h.slots i hi).congr
  intro a ha
  apply h.setNext_end
  unfold cleared at ha
  split_ifs at ha with hdone
  · cases ha
  · rw [h.array.winSzMask] at hi
    exact hc.notMem_flatMap (fun k hk => Nat.lt_succ_of_le (h.doneLe k (h.keptDone k hk)))
      (Nat.lt_succ_of_le hi) (fun hk => hdone (h.keptDone i hk)) ha

theorem Spliced.emptied (h : Spliced s.next (s.peer.tidsRxReorder tid) c kept done sp)
    (hc : Apart ((s.peer.tidsRxReorder tid).winSzMask + 1) c)
    (hnext : s'.next = setNext sp.next sp.tailMsdu none)
    (hpeer : s'.peer.tidsRxReorder = Function.update s.peer.tidsRxReorder tid sp.r)
    (halloc : s'.allocated = s.allocated) : Emptied s tid c kept done s' where
  slots := by
    rw [hnext, hpeer, Function.update_self]
    exact h.slots_end hc
  array := by
    rw [hpeer, Function.update_self]
    exact h.array
  others t ht := by
    rw [hpeer, Function.update_of_ne ht]
  frame a ha := by
    rw [hnext, h.setNext_end ha]
    exact h.frame a ha
  allocated := halloc

theorem spliced_of_none [Fintype α] (seqNum : α → ℕ) {handOn : List α → List (Event α)}
    (h : sp.headMsdu = none) :
    spliced seqNum s tid sp handOn = some ({ s.setReorder tid sp.r with next := sp.next }, []) := by
  rw [spliced, h]

theorem Spliced.spliced_eq [Fintype α] (h : Spliced s.next (s.peer.tidsRxReorder tid) c kept done sp)
    (hc : Apart ((s.peer.tidsRxReorder tid).winSzMask + 1) c) (seqNum : α → ℕ)
    (handOn : List α → List (Event α)) :
    ∃ s', spliced seqNum s tid sp handOn =
        some (s', if kept.flatMap c = [] then [] else handOn (kept.flatMap c)) ∧
      Emptied s tid c kept done s' := by
  have hwalk := h.walk_end hc
  cases hhead : sp.headMsdu with
  | none =>
    have hchain := h.chain
    rw [hhead] at hchain
    have hnil := hchain.eq_nil
    have htail : sp.tailMsdu = none := by rw [hchain.tail_eq, hnil, List.getLast?_nil]
    rw [spliced_of_none seqNum hhead, if_pos hnil]
    refine ⟨_, rfl, h.emptied hc ?_ rfl rfl⟩
    rw [htail]
    rfl
  | some msdu =>
    have hchain := h.chain
    rw [hhead] at hchain hwalk
    rw [spliced, hhead, if_neg hchain.ne_nil]
    dsimp only
    rw [hwalk]
    exact ⟨_, rfl, h.emptied hc rfl rfl rfl⟩

end Ending

section Functions

variable [DecidableEq α] [Fintype α] (seqNum : α → ℕ)
variable {r : RxReorder α}

theorem olRxReorderFlush_eq (hreorder : s.peer.tidsRxReorder tid = r)
    (hr : r.Sized) (hslots : Holds s.next r c) (hc : Apart (r.winSzMask + 1) c)
    (action : HttRxFlushAction) :
    ∃ s', olRxReorderFlush seqNum s tid idxStart idxEnd action =
        some (s', if (r.range idxStart (flushEnd idxStart idxEnd)).flatMap c = [] then [] else
          match action with
          | .release => [.deliver ((r.range idxStart (flushEnd idxStart idxEnd)).flatMap c)]
          | .discard => ((r.range idxStart (flushEnd idxStart idxEnd)).flatMap c).map .free) ∧
      Emptied s tid c (r.range idxStart (flushEnd idxStart idxEnd))
        (r.range idxStart (flushEnd idxStart idxEnd)) s' := by
  subst r
  obtain ⟨k, hk⟩ := hr.pow
  have hws : ((s.peer.tidsRxReorder tid).range idxStart (flushEnd idxStart idxEnd)).Nodup :=
    hr.nodup_range
  obtain ⟨sp, hloop, hsp⟩ := foldlM_flushElem hr hc
    ((s.peer.tidsRxReorder tid).range idxStart (flushEnd idxStart idxEnd)) (spliced_start hslots)
    hws fun i => RxReorder.le_of_mem_range
  rw [List.nil_append] at hsp
  rw [RxReorder.range, ← doWhile_eq hk flushElem (hr.mask_le _) (hr.mask_le _)] at hloop
  obtain ⟨s', hs', hemptied⟩ := Spliced.spliced_eq (s := s.setNextRelIdx tid
    (if idxEnd = 0xffff then 0 else idxEnd)) hsp hc seqNum fun msdus =>
      match action with
      | .release => [.deliver msdus]
      | .discard => msdus.map .free
  refine ⟨s', ?_, hemptied.of_setNextRelIdx⟩
  unfold olRxReorderFlush
  exact (congrArg (Option.bind · _) hloop).trans hs'

theorem olRxReorderRelease_delivers (hreorder : s.peer.tidsRxReorder tid = r)
    (hr : r.Sized) (hslots : Holds s.next r c) (hc : Apart (r.winSzMask + 1) c)
    (hbegun : c (idxStart &&& r.winSzMask) ≠ [] ∨ ∀ i ∈ r.range idxStart idxEnd, c i = []) :
    Delivers s tid c (r.range idxStart idxEnd) (olRxReorderRelease seqNum s tid idxStart idxEnd) := by
  subst r
  obtain ⟨k, hk⟩ := hr.pow
  have hfirst := (spliced_start hslots).begin hr (hr.mask_le idxStart) (List.not_mem_nil) rfl
  have hws : ([] ++ (s.peer.tidsRxReorder tid).range idxStart idxEnd).Nodup := hr.nodup_range
  have hrest : ∀ i ∈ ((s.peer.tidsRxReorder tid).range idxStart idxEnd).tail,
      i ∈ (s.peer.tidsRxReorder tid).range idxStart idxEnd := fun i => List.mem_of_mem_tail
  rw [hr.range_eq_cons, List.append_cons] at hws
  obtain ⟨sp, hloop, hsp⟩ := foldlM_releaseElem hr hc _ hfirst hws
    (fun i hi => RxReorder.le_of_mem_range (hrest i hi))
    (hbegun.imp (by simp) fun hall i hi => hall i (hrest i hi))
  rw [← List.append_cons, List.nil_append, ← hr.range_eq_cons] at hsp
  rw [RxReorder.range, ← whileNe_next_eq hk releaseElem (hr.mask_le _) (hr.mask_le _)] at hloop
  obtain ⟨s', hs', hemptied⟩ := Spliced.spliced_eq (s := s.setNextRelIdx tid idxEnd) hsp hc seqNum
    fun msdus => [.deliver msdus]
  refine ⟨s', ?_, hemptied.of_setNextRelIdx⟩
  unfold olRxReorderRelease
  exact (congrArg (Option.bind · _) hloop).trans hs'

theorem olRxReorderRelease_of_nil (hreorder : s.peer.tidsRxReorder tid = r)
    (hr : r.Sized) (hslots : Holds s.next r c) (hnil : c (idxStart &&& r.winSzMask) = []) :
    ∃ s', olRxReorderRelease seqNum s tid idxStart idxEnd = some (s', []) := by
  subst r
  obtain ⟨k, hk⟩ := hr.pow
  have hslot := hslots _ (hr.mask_le idxStart)
  rw [hnil] at hslot
  obtain ⟨sp, hloop, hsp⟩ := foldlM_releaseElem_none (s := ⟨s.next,
    (s.peer.tidsRxReorder tid).clear (idxStart &&& (s.peer.tidsRxReorder tid).winSzMask), _, _⟩)
    ((s.peer.tidsRxReorder tid).range idxStart idxEnd).tail hslot.head_eq
  rw [RxReorder.range, ← whileNe_next_eq hk releaseElem (hr.mask_le _) (hr.mask_le _)] at hloop
  unfold olRxReorderRelease
  exact ⟨_, (congrArg (Option.bind · _) hloop).trans (spliced_of_none seqNum hsp)⟩

theorem release_and_flush_deliver_iff (hr : (s.peer.tidsRxReorder tid).Sized)
    (hslots : Holds s.next (s.peer.tidsRxReorder tid) c)
    (hc : Apart ((s.peer.tidsRxReorder tid).winSzMask + 1) c) :
    (Delivers s tid c ((s.peer.tidsRxReorder tid).range idxStart idxEnd)
        (olRxReorderRelease seqNum s tid idxStart idxEnd) ∧
      Delivers s tid c ((s.peer.tidsRxReorder tid).range idxStart (flushEnd idxStart idxEnd))
        (olRxReorderFlush seqNum s tid idxStart idxEnd .release)) ↔
      (c (idxStart &&& (s.peer.tidsRxReorder tid).winSzMask) ≠ [] ∨
        ∀ i ∈ (s.peer.tidsRxReorder tid).range idxStart idxEnd, c i = []) := by
  constructor
  · rintro ⟨hrelease, -⟩
    rw [or_iff_not_imp_left, not_not]
    intro hnil
    obtain ⟨s', hs'⟩ : ∃ s', olRxReorderRelease seqNum s tid idxStart idxEnd = some (s', []) :=
      olRxReorderRelease_of_nil seqNum rfl hr hslots hnil
    rw [hs'] at hrelease
    by_contra hlost
    rw [← List.flatMap_eq_nil_iff] at hlost
    exact not_delivers_of_nil hlost hrelease
  · intro hbegun
    exact ⟨olRxReorderRelease_delivers seqNum rfl hr hslots hc hbegun,
      olRxReorderFlush_eq seqNum rfl hr hslots hc .release⟩

end Functions

/-- A window of four slots, with two MSDUs in the second one and one in the last. -/
def behindHole : Rx (Fin 3) where
  next a := if a = 0 then some 1 else none
  peer :=
    { tidsRxReorder := fun _ =>
        { winSz := 4
          winSzMask := 3
          array := .mem 0 4 fun i =>
            if i = 1 then ⟨some 0, some 1⟩ else if i = 3 then ⟨some 2, some 2⟩ else {} }
      tidsNextRelIdx := fun _ => 0
      tidsLastSeq := fun _ => ieee80211SeqMax
      fwPnCheck := false }
  allocated := 1

def behindHoleSlots (i : ℕ) : List (Fin 3) :=
  if i = 1 then [0, 1] else if i = 3 then [2] else []

theorem behindHole_sized : (behindHole.peer.tidsRxReorder 0).Sized :=
  ⟨rfl, 2, rfl⟩

theorem behindHole_holds :
    Holds behindHole.next (behindHole.peer.tidsRxReorder 0) behindHoleSlots := by
  intro i hi
  have hcases : i = 0 ∨ i = 1 ∨ i = 2 ∨ i = 3 := by
    change i ≤ 3 at hi
    omega
  rcases hcases with rfl | rfl | rfl | rfl
  · exact segment_nil
  · exact ⟨rfl, rfl, linked_cons_cons.mpr ⟨rfl, linked_singleton 1⟩⟩
  · exact segment_nil
  · exact ⟨rfl, rfl, linked_singleton 2⟩

theorem behindHole_apart : Apart 4 behindHoleSlots := by
  constructor
  · decide
  · intro i hi j hj hij a
    unfold behindHoleSlots
    split_ifs <;> simp_all
    omega

theorem release_and_flush_deliver_behindHole :
    Delivers behindHole 0 behindHoleSlots [1, 2, 3]
        (olRxReorderRelease (fun _ => 7) behindHole 0 1 0) ∧
      Delivers behindHole 0 behindHoleSlots [1, 2, 3]
        (olRxReorderFlush (fun _ => 7) behindHole 0 1 0 .release) :=
  (release_and_flush_deliver_iff (fun _ => 7) behindHole_sized behindHole_holds
    behindHole_apart).mpr (.inl (by decide))

theorem release_loses_behindHole :
    (behindHole.peer.tidsRxReorder 0).Sized ∧
      Holds behindHole.next (behindHole.peer.tidsRxReorder 0) behindHoleSlots ∧
      Apart 4 behindHoleSlots ∧
      ¬Delivers behindHole 0 behindHoleSlots [0, 1, 2, 3]
        (olRxReorderRelease (fun _ => 7) behindHole 0 0 0) := by
  refine ⟨behindHole_sized, behindHole_holds, behindHole_apart, ?_⟩
  obtain ⟨s', hs'⟩ : ∃ s', olRxReorderRelease (fun _ => 7) behindHole 0 0 0 = some (s', []) :=
    olRxReorderRelease_of_nil _ rfl behindHole_sized behindHole_holds rfl
  rw [hs']
  exact not_delivers_of_nil (by decide)

end KernelModules.Reorder
