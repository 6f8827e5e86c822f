import KernelModules.RxReorderPn
import KernelModules.Shelves

/-!
# The books of the rx reorder arrays

What the slots of all tids hold together, and what each operation does to it: a store adds the MSDUs
that come in, a walk over a range takes out what its slots held. An array may be replaced when there
is nothing in its slots.
-/

namespace KernelModules.Reorder

open Chains RingWalk Shelves Function

variable {α : Type*} {s s' : Rx α} {tid idx : ℕ} {c c' : ℕ → ℕ → List α} {kept done : List ℕ}
  {l : List α}

def tids : List ℕ :=
  List.range olTxrxNumExtTids

def Rx.slots (s : Rx α) (tid : ℕ) : List ℕ :=
  List.range ((s.peer.tidsRxReorder tid).winSzMask + 1)

def Rx.heldBy (s : Rx α) (c : ℕ → ℕ → List α) (tid : ℕ) : List α :=
  (s.slots tid).flatMap (c tid)

def Rx.held (s : Rx α) (c : ℕ → ℕ → List α) : List α :=
  tids.flatMap (s.heldBy c)

/-- The slots of all tids hold these lists, each of them ended, and no MSDU is in two places. -/
structure Books (s : Rx α) (c : ℕ → ℕ → List α) : Prop where
  sized : ∀ tid ∈ tids, (s.peer.tidsRxReorder tid).Sized
  winSz : ∀ tid ∈ tids,
    (s.peer.tidsRxReorder tid).winSz ≤ (s.peer.tidsRxReorder tid).winSzMask + 1
  slots : ∀ tid ∈ tids, Holds s.next (s.peer.tidsRxReorder tid) (c tid)
  ended : ∀ tid ∈ tids, ∀ i ∈ s.slots tid, ∀ a ∈ (c tid i).getLast?, s.next a = none
  nodup : (s.held c).Nodup

theorem Rx.setReorder_self (r : RxReorder α) : (s.setReorder tid r).peer.tidsRxReorder tid = r :=
  update_self ..

theorem mem_tids : tid ∈ tids ↔ tid < olTxrxNumExtTids :=
  List.mem_range

theorem Rx.mem_slots : idx ∈ s.slots tid ↔ idx ≤ (s.peer.tidsRxReorder tid).winSzMask := by
  rw [Rx.slots, List.mem_range, Nat.lt_succ_iff]

theorem Rx.held_perm (htid : tid ∈ tids)
    (hothers : ∀ t ∈ tids, t ≠ tid → s'.heldBy c' t = s.heldBy c t)
    (hperm : (s.heldBy c tid).Perm (s'.heldBy c' tid ++ l)) :
    (s.held c).Perm (s'.held c' ++ l) := by
  have hupdate : s'.held c' = tids.flatMap (update (s.heldBy c) tid (s'.heldBy c' tid)) := by
    apply flatMap_congr
    intro t ht
    rcases eq_or_ne t tid with rfl | hne
    · rw [update_self]
    · rw [update_of_ne hne, hothers t ht hne]
  have hreplaced : (s'.held c' ++ s.heldBy c tid).Perm (s.held c ++ s'.heldBy c' tid) := by
    rw [hupdate]
    exact perm_update List.nodup_range htid _
  rw [← List.perm_append_right_iff (s'.heldBy c' tid), List.append_assoc]
  calc (s.held c ++ s'.heldBy c' tid).Perm (s'.held c' ++ s.heldBy c tid) := hreplaced.symm
    _ |>.Perm (s'.held c' ++ (s'.heldBy c' tid ++ l)) := hperm.append_left _
    _ |>.Perm (s'.held c' ++ (l ++ s'.heldBy c' tid)) := List.perm_append_comm.append_left _

namespace Books

theorem nodup_tid (h : Books s c) (htid : tid ∈ tids) : (s.heldBy c tid).Nodup :=
  nodup_of_mem h.nodup htid

theorem apart (h : Books s c) (htid : tid ∈ tids) :
    Apart ((s.peer.tidsRxReorder tid).winSzMask + 1) (c tid) where
  nodup _ hi := nodup_of_mem (h.nodup_tid htid) (List.mem_range.mpr hi)
  disjoint _ hi _ hj hij _ hai haj :=
    hij (eq_of_mem (h.nodup_tid htid) (List.mem_range.mpr hi) (List.mem_range.mpr hj) hai haj)

theorem tid_eq_of_mem {t i j : ℕ} {a : α} (h : Books s c) (htid : tid ∈ tids) (ht : t ∈ tids)
    (hi : i ∈ s.slots tid) (hj : j ∈ s.slots t) (hai : a ∈ c tid i) (haj : a ∈ c t j) : tid = t :=
  eq_of_mem h.nodup htid ht (mem_flatMap_of_mem hi hai) (mem_flatMap_of_mem hj haj)

/-- One tid holds other MSDUs, and no link of the others has been written. -/
theorem of_others {cs : ℕ → List α} (h : Books s c) (htid : tid ∈ tids)
    (hothers : ∀ t ≠ tid, s'.peer.tidsRxReorder t = s.peer.tidsRxReorder t)
    (hsized : (s'.peer.tidsRxReorder tid).Sized)
    (hwin : (s'.peer.tidsRxReorder tid).winSz ≤ (s'.peer.tidsRxReorder tid).winSzMask + 1)
    (hholds : Holds s'.next (s'.peer.tidsRxReorder tid) cs)
    (hframe : ∀ t ∈ tids, t ≠ tid → ∀ i ∈ s.slots t, ∀ a ∈ c t i, s'.next a = s.next a)
    (hended : ∀ i ∈ s'.slots tid, ∀ a ∈ (cs i).getLast?, s'.next a = none)
    (hnodup : (s'.held (update c tid cs)).Nodup) : Books s' (update c tid cs) := by
  refine ⟨fun t ht => ?_, fun t ht => ?_, fun t ht => ?_, fun t ht i hi a ha => ?_, hnodup⟩
  all_goals rcases eq_or_ne t tid with rfl | hne
  · exact hsized
  · rw [hothers t hne]
    exact h.sized t ht
  · exact hwin
  · rw [hothers t hne]
    exact h.winSz t ht
  · rw [update_self]
    exact hholds
  · rw [update_of_ne hne, hothers t hne]
    intro i hi
    exact (h.slots t ht i hi).congr (hframe t ht hne i (Rx.mem_slots.mpr hi))
  · rw [update_self] at ha
    exact hended i hi a ha
  · rw [update_of_ne hne] at ha
    rw [Rx.slots, hothers t hne] at hi
    rw [hframe t ht hne i hi a (List.mem_of_getLast? ha)]
    exact h.ended t ht i hi a ha

/-- What the slots that have been gone by held is taken out. -/
theorem emptied (h : Books s c) (htid : tid ∈ tids) (he : Emptied s tid (c tid) kept done s')
    (hdone : done.Nodup) (hsub : done ⊆ s.slots tid) (hkept : kept ⊆ done) :
    Books s' (update c tid (cleared (c tid) done)) ∧
      (s.held c).Perm
        (s'.held (update c tid (cleared (c tid) done)) ++ done.flatMap (c tid)) := by
  have hslots (t : ℕ) : s'.slots t = s.slots t := by
    rcases eq_or_ne t tid with rfl | hne
    · rw [Rx.slots, he.array.winSzMask, Rx.slots]
    · rw [Rx.slots, he.others t hne, Rx.slots]
  have hperm : (s.held c).Perm
      (s'.held (update c tid (cleared (c tid) done)) ++ done.flatMap (c tid)) := by
    apply Rx.held_perm htid
    · intro t _ hne
      rw [Rx.heldBy, update_of_ne hne, hslots, Rx.heldBy]
    · rw [Rx.heldBy, Rx.heldBy, update_self, hslots]
      exact perm_clear List.nodup_range hdone hsub
  -- Only links of MSDUs that have been taken out are written.
  have hframe {t i : ℕ} {a : α} (ht : t ∈ tids) (hi : i ∈ s.slots t) (ha : a ∈ c t i)
      (hnew : t = tid → i ∉ done) : s'.next a = s.next a := by
    apply he.frame
    intro hmem
    obtain ⟨j, hj, haj⟩ := List.mem_flatMap.mp hmem
    have hjs : j ∈ s.slots tid := hsub (hkept hj)
    obtain rfl : tid = t := h.tid_eq_of_mem htid ht hjs hi haj ha
    obtain rfl : j = i := eq_of_mem (h.nodup_tid htid) hjs hi haj ha
    exact hnew rfl (hkept hj)
  have hwin := h.winSz tid htid
  rw [← he.array.winSz, ← he.array.winSzMask] at hwin
  refine ⟨h.of_others htid he.others (he.array.sized (h.sized tid htid)) hwin he.slots
    (fun t ht hne i hi a ha => hframe ht hi ha fun heq => absurd heq hne) ?_
    (List.nodup_append.mp (hperm.nodup_iff.mp h.nodup)).1, hperm⟩
  intro i hi a ha
  rw [hslots] at hi
  rw [cleared] at ha
  split_ifs at ha with hmem
  · cases ha
  · rw [hframe htid hi (List.mem_of_getLast? ha) fun _ => hmem]
    exact h.ended tid htid i hi a ha

end Books

/-- The list has gone behind what the slot held, and only the links of that have been written. -/
structure Stored (s : Rx α) (tid idx : ℕ) (c : ℕ → List α) (l : List α) (s' : Rx α) : Prop where
  slots : Holds s'.next (s'.peer.tidsRxReorder tid) (update c idx (c idx ++ l))
  array : SameArray (s.peer.tidsRxReorder tid) (s'.peer.tidsRxReorder tid)
  others : ∀ t ≠ tid, s'.peer.tidsRxReorder t = s.peer.tidsRxReorder t
  frame : ∀ a ∉ c idx, s'.next a = s.next a
  allocated : s'.allocated = s.allocated

section Storing

variable {r : RxReorder α} {cs : ℕ → List α}

theorem holds_setElem {next next' : α → Option α} {e : ArrayElem α} (hr : r.Sized)
    (hslots : Holds next r cs) (hidx : idx ≤ r.winSzMask) (he : Segment next' e.head e.tail l)
    (hsame : ∀ j ≤ r.winSzMask, j ≠ idx → ∀ a ∈ cs j, next' a = next a) :
    Holds next' (r.setElem idx e) (update cs idx l) := by
  intro j hj
  rw [(sameArray_setElem r idx e).winSzMask] at hj
  rw [hr.elem_setElem hidx hj, update_apply]
  split_ifs with hji
  · exact he
  · exact (hslots j hj).congr (hsame j hj hji)

theorem olRxReorderStore_stored [DecidableEq α] (hr : (s.peer.tidsRxReorder tid).Sized)
    (hslots : Holds s.next (s.peer.tidsRxReorder tid) cs)
    (hc : Apart ((s.peer.tidsRxReorder tid).winSzMask + 1) cs) (hlinked : Linked s.next l)
    (hne : l ≠ [])
    (hnodup : (cs (idx &&& (s.peer.tidsRxReorder tid).winSzMask) ++ l).Nodup) :
    Stored s tid (idx &&& (s.peer.tidsRxReorder tid).winSzMask) cs l
      (olRxReorderStore s tid idx l.head? l.getLast?) := by
  have hidx := hr.mask_le idx
  have hnew : Segment s.next l.head? l.getLast? l := ⟨rfl, rfl, hlinked⟩
  have hslot := hslots _ hidx
  unfold olRxReorderStore
  dsimp only
  cases helem : ((s.peer.tidsRxReorder tid).elem
      (idx &&& (s.peer.tidsRxReorder tid).winSzMask)).head with
  | none =>
    rw [helem] at hslot
    refine ⟨?_, ?_, fun t ht => update_of_ne ht .., fun a _ => rfl, rfl⟩
    · rw [hslot.eq_nil, List.nil_append]
      rw [Rx.setReorder_self]
      exact holds_setElem hr hslots hidx hnew fun _ _ _ _ _ => rfl
    · rw [Rx.setReorder_self]
      exact sameArray_setElem ..
  | some a =>
    rw [helem] at hslot
    have hframe {b : α} (hb : b ∉ cs (idx &&& (s.peer.tidsRxReorder tid).winSzMask)) :
        setNext s.next ((s.peer.tidsRxReorder tid).elem
          (idx &&& (s.peer.tidsRxReorder tid).winSzMask)).tail l.head? b = s.next b := by
      apply setNext_of_notMem
      rintro d hd rfl
      rw [hslot.tail_eq] at hd
      exact hb (List.mem_of_getLast? hd)
    refine ⟨?_, ?_, fun t ht => update_of_ne ht .., fun _ hb => hframe hb, rfl⟩
    · rw [Rx.setReorder_self]
      refine holds_setElem hr hslots hidx (hslot.join hnew hslot.ne_nil hne hnodup) ?_
      intro j hj hji b hb
      apply hframe
      exact hc.disjoint j (Nat.lt_succ_of_le hj) _ (Nat.lt_succ_of_le hidx) hji b hb
    · rw [Rx.setReorder_self]
      exact sameArray_setElem ..

end Storing

namespace Books

theorem relink (h : Books s c) {next' : α → Option α} (hsame : ∀ a ∈ s.held c, next' a = s.next a) :
    Books { s with next := next' } c := by
  have hmem {t i : ℕ} {a : α} (ht : t ∈ tids) (hi : i ∈ s.slots t) (ha : a ∈ c t i) :
      a ∈ s.held c := mem_flatMap_of_mem ht (mem_flatMap_of_mem hi ha)
  refine ⟨h.sized, h.winSz, ?_, ?_, h.nodup⟩
  · intro t ht i hi
    exact (h.slots t ht i hi).congr fun a ha => hsame a (hmem ht (Rx.mem_slots.mpr hi) ha)
  · intro t ht i hi a ha
    exact (hsame a (hmem ht hi (List.mem_of_getLast? ha))).trans (h.ended t ht i hi a ha)

/-- What comes in is added. -/
theorem stored (h : Books s c) (htid : tid ∈ tids) (hidx : idx ∈ s.slots tid)
    (hl : l.Nodup) (hnew : ∀ a ∈ l, a ∉ s.held c) (hne : l ≠ [])
    (hend : ∀ a ∈ l.getLast?, s.next a = none) (hs : Stored s tid idx (c tid) l s') :
    Books s' (update c tid (update (c tid) idx (c tid idx ++ l))) ∧
      (s'.held (update c tid (update (c tid) idx (c tid idx ++ l)))).Perm
        (s.held c ++ l) := by
  have hslots (t : ℕ) : s'.slots t = s.slots t := by
    rcases eq_or_ne t tid with rfl | hne
    · rw [Rx.slots, hs.array.winSzMask, Rx.slots]
    · rw [Rx.slots, hs.others t hne, Rx.slots]
  have hperm : (s'.held (update c tid (update (c tid) idx (c tid idx ++ l)))).Perm
      (s.held c ++ l) := by
    apply Rx.held_perm htid
    · intro t _ hne
      rw [Rx.heldBy, Rx.heldBy, update_of_ne hne, hslots]
    · rw [Rx.heldBy, Rx.heldBy, update_self, hslots]
      have hone := perm_update (f := c tid) List.nodup_range hidx (c tid idx ++ l)
      rw [← List.perm_append_right_iff (c tid idx), List.append_assoc]
      exact hone.trans (List.perm_append_comm.append_left _)
  have hframe {t i : ℕ} {a : α} (ht : t ∈ tids) (hi : i ∈ s.slots t) (ha : a ∈ c t i)
      (hother : t = tid → i ≠ idx) : s'.next a = s.next a := by
    apply hs.frame
    intro haj
    obtain rfl : tid = t := h.tid_eq_of_mem htid ht hidx hi haj ha
    exact hother rfl (eq_of_mem (h.nodup_tid htid) hi hidx ha haj)
  have hwin := h.winSz tid htid
  rw [← hs.array.winSz, ← hs.array.winSzMask] at hwin
  refine ⟨h.of_others htid hs.others (hs.array.sized (h.sized tid htid)) hwin hs.slots
    (fun t ht hne i hi a ha => hframe ht hi ha fun heq => absurd heq hne) ?_ ?_, hperm⟩
  · intro i hi a ha
    rw [hslots] at hi
    rcases eq_or_ne i idx with rfl | hother
    · rw [update_self, List.getLast?_append_of_ne_nil _ hne] at ha
      have hnotin : a ∉ c tid i := fun hmem =>
        hnew a (List.mem_of_getLast? ha) (mem_flatMap_of_mem htid (mem_flatMap_of_mem hi hmem))
      rw [hs.frame a hnotin]
      exact hend a ha
    · rw [update_of_ne hother] at ha
      rw [hframe htid hi (List.mem_of_getLast? ha) fun _ => hother]
      exact h.ended tid htid i hi a ha
  · rw [hperm.nodup_iff]
    exact List.nodup_append.mpr ⟨h.nodup, hl, fun a ha b hb hab => hnew b hb (hab ▸ ha)⟩

theorem replaced {r : RxReorder α} (h : Books s c) (htid : tid ∈ tids)
    (hempty : ∀ i ∈ s.slots tid, c tid i = []) (hnext : s'.next = s.next)
    (hreorder : s'.peer.tidsRxReorder = update s.peer.tidsRxReorder tid r) (hr : r.Sized)
    (hwin : r.winSz ≤ r.winSzMask + 1) (hnothing : ∀ i ≤ r.winSzMask, r.elem i = {}) :
    Books s' (update c tid fun _ => []) ∧
      s'.held (update c tid fun _ => []) = s.held c := by
  have hself : s'.peer.tidsRxReorder tid = r := by
    rw [hreorder, update_self]
  have hothers {t : ℕ} (hne : t ≠ tid) :
      s'.peer.tidsRxReorder t = s.peer.tidsRxReorder t := by
    rw [hreorder, update_of_ne hne]
  have hheld : s'.held (update c tid fun _ => []) = s.held c := by
    apply flatMap_congr
    intro t _
    rcases eq_or_ne t tid with rfl | hne
    · have hold : s.heldBy c t = [] := List.flatMap_eq_nil_iff.mpr hempty
      rw [hold, Rx.heldBy, update_self]
      exact List.flatMap_eq_nil_iff.mpr fun _ _ => rfl
    · rw [Rx.heldBy, Rx.slots, update_of_ne hne, hothers hne]
      rfl
  refine ⟨h.of_others htid (fun t hne => hothers hne) (hself ▸ hr) (hself ▸ hwin) ?_
    (fun t _ _ i _ a _ => by rw [hnext]) (fun i _ a ha => by cases ha) (hheld ▸ h.nodup), hheld⟩
  intro i hi
  rw [hself] at hi ⊢
  rw [hnothing i hi]
  exact segment_nil

end Books

end KernelModules.Reorder
