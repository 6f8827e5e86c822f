import KernelModules.RxReorderBooks

/-!
# What the operations move

Each operation on the reorder arrays takes the MSDUs that come in into the slots, and those that it
takes out of them it hands up or frees. The two handlers that replace an array do not look at its
slots, and a release loses what a range holds behind an empty first slot.
-/

namespace KernelModules.Reorder

open Chains RingWalk Shelves Function

variable {α : Type*} {s s' s₁ : Rx α} {tid idx idxStart idxEnd : ℕ} {c c' c₁ : ℕ → ℕ → List α}
  {events events' : List (Event α)} {l l' : List α}

def Event.arrays : Event α → List ℕ
  | .freeArray id => [id]
  | _ => []

def RxReorder.arrays (r : RxReorder α) : List ℕ :=
  (freedArray r).flatMap Event.arrays

def Rx.inUse (s : Rx α) : List ℕ :=
  tids.flatMap fun tid => (s.peer.tidsRxReorder tid).arrays

def gone (events : List (Event α)) : List α :=
  events.flatMap Event.delivered ++ events.flatMap Event.freed

/-- What one operation does to the books: the MSDUs that it takes in are added, and those that it
hands up or frees are taken out. -/
structure Moved (s : Rx α) (c : ℕ → ℕ → List α) (new : List α) (s' : Rx α)
    (c' : ℕ → ℕ → List α) (events : List (Event α)) : Prop where
  books : Books s' c'
  msdus : (s.held c ++ new).Perm (s'.held c' ++ gone events)
  memory : ∀ ids, (List.range s.allocated).Perm (s.inUse ++ ids) →
    (List.range s'.allocated).Perm (s'.inUse ++ (ids ++ events.flatMap Event.arrays))

theorem gone_append : (gone (events ++ events')).Perm (gone events ++ gone events') := by
  simp only [gone, List.flatMap_append, List.append_assoc]
  apply List.Perm.append_left
  rw [← List.append_assoc, ← List.append_assoc]
  exact List.perm_append_comm.append_right _

theorem gone_deliver : gone [.deliver l] = l := by
  simp [gone, Event.delivered, Event.freed]

theorem gone_free : gone (l.map Event.free) = l := by
  rw [gone, flatMap_delivered_free, flatMap_freed_free, List.nil_append]

theorem arrays_free : (l.map Event.free).flatMap Event.arrays = [] := by
  induction l with
  | nil => rfl
  | cons a l ih => exact ih

theorem gone_freedArray (r : RxReorder α) : gone (freedArray r) = [] := by
  unfold freedArray
  cases r.array with
  | base => rfl
  | mem id size elems => rfl

theorem Moved.refl (h : Books s c) : Moved s c [] s c [] where
  books := h
  msdus := by
    rw [List.append_nil]
    exact (List.append_nil _).symm ▸ .refl _
  memory ids hids := by
    rw [List.flatMap_nil, List.append_nil]
    exact hids

theorem Moved.of_same (h : Moved s c l s₁ c₁ events) (hnext : s'.next = s₁.next)
    (hreorder : s'.peer.tidsRxReorder = s₁.peer.tidsRxReorder)
    (hallocated : s'.allocated = s₁.allocated) : Moved s c l s' c₁ events := by
  have hslots : s'.slots = s₁.slots := by
    funext t
    rw [Rx.slots, hreorder, Rx.slots]
  have hheld : s'.held c₁ = s₁.held c₁ := by
    unfold Rx.held Rx.heldBy
    rw [hslots]
  have hinUse : s'.inUse = s₁.inUse := by
    rw [Rx.inUse, hreorder, Rx.inUse]
  refine ⟨⟨?_, ?_, ?_, ?_, ?_⟩, ?_, ?_⟩
  · rw [hreorder]
    exact h.books.sized
  · rw [hreorder]
    exact h.books.winSz
  · rw [hreorder, hnext]
    exact h.books.slots
  · rw [hslots, hnext]
    exact h.books.ended
  · rw [hheld]
    exact h.books.nodup
  · rw [hheld]
    exact h.msdus
  · rw [hinUse, hallocated]
    exact h.memory

theorem Moved.trans (h : Moved s c l s₁ c₁ events) (h' : Moved s₁ c₁ l' s' c' events') :
    Moved s c (l ++ l') s' c' (events ++ events') where
  books := h'.books
  msdus := by
    calc (s.held c ++ (l ++ l')).Perm (s.held c ++ l ++ l') := by rw [List.append_assoc]
      _ |>.Perm (s₁.held c₁ ++ gone events ++ l') := h.msdus.append_right l'
      _ |>.Perm (s₁.held c₁ ++ l' ++ gone events) := by
          rw [List.append_assoc, List.append_assoc]
          exact List.perm_append_comm.append_left _
      _ |>.Perm (s'.held c' ++ gone events' ++ gone events) := h'.msdus.append_right _
      _ |>.Perm (s'.held c' ++ gone (events ++ events')) := by
          rw [List.append_assoc]
          exact (List.perm_append_comm.trans gone_append.symm).append_left _
  memory ids hids := by
    rw [List.flatMap_append, ← List.append_assoc ids]
    exact h'.memory _ (h.memory ids hids)

theorem Rx.inUse_of_sameArray
    (harray : SameArray (s.peer.tidsRxReorder tid) (s'.peer.tidsRxReorder tid))
    (hothers : ∀ t ≠ tid, s'.peer.tidsRxReorder t = s.peer.tidsRxReorder t) :
    s'.inUse = s.inUse := by
  apply flatMap_congr
  intro t _
  rcases eq_or_ne t tid with rfl | hne
  · rw [RxReorder.arrays, harray.freedArray, RxReorder.arrays]
  · rw [hothers t hne]

theorem Books.moved_emptied (h : Books s c) (kept done : List ℕ) (htid : tid ∈ tids)
    (he : Emptied s tid (c tid) kept done s') (hdone : done.Nodup) (hsub : done ⊆ s.slots tid)
    (hkept : kept ⊆ done) (hgone : (gone events).Perm (done.flatMap (c tid)))
    (harrays : events.flatMap Event.arrays = []) :
    Moved s c [] s' (update c tid (cleared (c tid) done)) events where
  books := (h.emptied htid he hdone hsub hkept).1
  msdus := by
    rw [List.append_nil]
    exact (h.emptied htid he hdone hsub hkept).2.trans (hgone.symm.append_left _)
  memory ids hids := by
    have hinUse : s'.inUse = s.inUse := Rx.inUse_of_sameArray he.array he.others
    rw [harrays, List.append_nil, he.allocated, hinUse]
    exact hids

theorem Books.moved_replaced {r : RxReorder α} (h : Books s c) (htid : tid ∈ tids)
    (hempty : ∀ i ∈ s.slots tid, c tid i = []) (hnext : s'.next = s.next)
    (hreorder : s'.peer.tidsRxReorder = update s.peer.tidsRxReorder tid r) (hr : r.Sized)
    (hwin : r.winSz ≤ r.winSzMask + 1) (hnothing : ∀ i ≤ r.winSzMask, r.elem i = {})
    (hmemory : (List.range s'.allocated).Perm
      (List.range s.allocated ++ r.arrays)) :
    Moved s c [] s' (update c tid fun _ => [])
      (freedArray (s.peer.tidsRxReorder tid)) := by
  obtain ⟨hbooks, hheld⟩ := h.replaced htid hempty hnext hreorder hr hwin hnothing
  refine ⟨hbooks, ?_, ?_⟩
  · rw [hheld, gone_freedArray]
  · intro ids hids
    have hreplaced : (s'.inUse ++ (s.peer.tidsRxReorder tid).arrays).Perm (s.inUse ++ r.arrays) := by
      have hupdate : s'.inUse = tids.flatMap
          (update (fun t => (s.peer.tidsRxReorder t).arrays) tid r.arrays) := by
        apply flatMap_congr
        intro t _
        rw [hreorder]
        rcases eq_or_ne t tid with rfl | hne
        · rw [update_self, update_self]
        · rw [update_of_ne hne, update_of_ne hne]
      rw [hupdate]
      exact perm_update List.nodup_range htid r.arrays
    calc (List.range s'.allocated).Perm (List.range s.allocated ++ r.arrays) := hmemory
      _ |>.Perm (s.inUse ++ ids ++ r.arrays) := hids.append_right _
      _ |>.Perm (s.inUse ++ r.arrays ++ ids) := by
          rw [List.append_assoc, List.append_assoc]
          exact List.perm_append_comm.append_left _
      _ |>.Perm (s'.inUse ++ (s.peer.tidsRxReorder tid).arrays ++ ids) :=
          hreplaced.symm.append_right _
      _ |>.Perm (s'.inUse ++ (ids ++ (s.peer.tidsRxReorder tid).arrays)) := by
          rw [List.append_assoc]
          exact List.perm_append_comm.append_left _

theorem le_olRxReorderRoundPwr2 : ∀ winSz : Fin 65, (winSz : ℕ) ≤ olRxReorderRoundPwr2 winSz ∧
    ∃ k < 7, olRxReorderRoundPwr2 winSz = 2 ^ k := by
  decide

theorem olRxAddbaHandler_moved (h : Books s c) (winSz : Fin 65) {failed alloc : Bool}
    (hempty : tid ∈ tids → failed = false → alloc = true → ∀ i ∈ s.slots tid, c tid i = []) :
    ∃ c', Moved s c [] (olRxAddbaHandler s tid winSz failed alloc).1 c'
      (olRxAddbaHandler s tid winSz failed alloc).2 := by
  unfold olRxAddbaHandler
  split_ifs with htid hfailed halloc
  · exact ⟨c, .refl h⟩
  · exact ⟨c, .refl h⟩
  · have htid : tid ∈ tids := mem_tids.mpr (Nat.lt_of_not_le htid)
    obtain ⟨hle, k, -, hk⟩ := le_olRxReorderRoundPwr2 winSz
    have hmask : olRxReorderRoundPwr2 winSz - 1 + 1 = 2 ^ k := by
      rw [hk]
      exact Nat.sub_add_cancel Nat.one_le_two_pow
    refine ⟨_, h.moved_replaced htid (hempty htid (by simpa using hfailed) halloc) rfl rfl ?_ ?_ ?_
      ?_⟩
    · exact ⟨hk.trans hmask.symm, k, hmask⟩
    · exact hle.trans_eq (hk.trans hmask.symm)
    · intro i _
      rfl
    · change (List.range (s.allocated + 1)).Perm _
      rw [List.range_succ]
      exact .refl _
  · exact ⟨c, (Moved.refl h).of_same rfl rfl rfl⟩

theorem olRxDelbaHandler_moved (h : Books s c)
    (hempty : tid ∈ tids → ∀ i ∈ s.slots tid, c tid i = []) :
    ∃ c', Moved s c [] (olRxDelbaHandler s tid).1 c' (olRxDelbaHandler s tid).2 := by
  unfold olRxDelbaHandler
  split_ifs with htid
  · exact ⟨c, .refl h⟩
  · have htid : tid ∈ tids := mem_tids.mpr (Nat.lt_of_not_le htid)
    refine ⟨_, h.moved_replaced htid (hempty htid) rfl rfl ⟨rfl, 0, rfl⟩ (Nat.le_refl 1) ?_ ?_⟩
    · intro i _
      rfl
    · exact (List.append_nil (List.range s.allocated)).symm ▸ .refl _

theorem olRxReorderFlushFrag_moved [Fintype α] (h : Books s c) (htid : tid ∈ tids) (seq : ℕ) :
    ∃ s' c' events, olRxReorderFlushFrag s tid seq = some (s', events) ∧
      Moved s c [] s' c' events := by
  have hidx := (h.sized tid htid).mask_le seq
  have hslot := h.slots tid htid _ hidx
  unfold olRxReorderFlushFrag
  dsimp only
  split_ifs with hsome
  · have hmem : seq &&& (s.peer.tidsRxReorder tid).winSzMask ∈ s.slots tid := Rx.mem_slots.mpr hidx
    have hnodup := nodup_of_mem (h.nodup_tid htid) hmem
    rw [hslot.head_eq, walk_of_linked hslot.linked (h.ended tid htid _ hmem) hnodup.length_le_card]
    refine ⟨_, _, _, rfl, h.moved_emptied [] [seq &&& (s.peer.tidsRxReorder tid).winSzMask] htid ?_
      (List.nodup_singleton _) ?_ (List.nil_subset _) ?_ arrays_free⟩
    · refine ⟨?_, ?_, fun t ht => update_of_ne ht .., fun _ _ => rfl, rfl⟩
      · rw [Rx.setReorder_self, cleared_singleton]
        exact holds_setElem (h.sized tid htid) (h.slots tid htid) hidx segment_nil
          fun _ _ _ _ _ => rfl
      · rw [Rx.setReorder_self]
        exact sameArray_setElem ..
    · exact List.cons_subset.mpr ⟨hmem, List.nil_subset _⟩
    · rw [gone_free, List.flatMap_singleton]
  · exact ⟨s, c, [], rfl, .refl h⟩

section Operations

variable [DecidableEq α]

def storeMsdus (s : Rx α) (tid idx : ℕ) (msdus : List α) : Rx α :=
  olRxReorderStore { s with next := link s.next none msdus } tid idx msdus.head? msdus.getLast?

theorem storeMsdus_moved (h : Books s c) (htid : tid ∈ tids) (hne : l ≠ []) (hl : l.Nodup)
    (hnew : ∀ a ∈ l, a ∉ s.held c) : ∃ c', Moved s c l (storeMsdus s tid idx l) c' [] := by
  have hidx : idx &&& (s.peer.tidsRxReorder tid).winSzMask ∈ s.slots tid :=
    Rx.mem_slots.mpr ((h.sized tid htid).mask_le idx)
  have hlinked : Books { s with next := link s.next none l } c :=
    h.relink fun a ha => link_of_notMem fun hal => hnew a hal ha
  have hnodup : (c tid (idx &&& (s.peer.tidsRxReorder tid).winSzMask) ++ l).Nodup := by
    refine List.nodup_append.mpr ⟨nodup_of_mem (h.nodup_tid htid) hidx, hl, ?_⟩
    rintro a ha b hb rfl
    exact hnew a hb (mem_flatMap_of_mem htid (mem_flatMap_of_mem hidx ha))
  have hstored := olRxReorderStore_stored (s := { s with next := link s.next none l })
    (h.sized tid htid) (hlinked.slots tid htid) (hlinked.apart htid) (linked_link hl) hne hnodup
  obtain ⟨hbooks, hperm⟩ := hlinked.stored htid hidx hl hnew hne
    (fun a ha => link_getLast hl ha) hstored
  refine ⟨_, hbooks, ?_, ?_⟩
  · exact hperm.symm.trans ((List.append_nil _).symm ▸ .refl _)
  · intro ids hids
    have hinUse : (storeMsdus s tid idx l).inUse = s.inUse :=
      Rx.inUse_of_sameArray hstored.array hstored.others
    have hallocated : (storeMsdus s tid idx l).allocated = s.allocated := hstored.allocated
    rw [hinUse, hallocated, List.flatMap_nil, List.append_nil]
    exact hids

variable [Fintype α] (seqNum : α → ℕ)

theorem olRxReorderRelease_moved (h : Books s c) (htid : tid ∈ tids)
    (hbegun : c tid (idxStart &&& (s.peer.tidsRxReorder tid).winSzMask) ≠ [] ∨
      ∀ i ∈ (s.peer.tidsRxReorder tid).range idxStart idxEnd, c tid i = []) :
    ∃ s' c' events, olRxReorderRelease seqNum s tid idxStart idxEnd = some (s', events) ∧
      Moved s c [] s' c' events := by
  obtain ⟨s', heq, he⟩ := olRxReorderRelease_delivers seqNum rfl (h.sized tid htid)
    (h.slots tid htid) (h.apart htid) hbegun
  refine ⟨s', _, _, heq, h.moved_emptied _ _ htid he (h.sized tid htid).nodup_range ?_
    (List.Subset.refl _) ?_ ?_⟩
  · exact fun i hi => Rx.mem_slots.mpr (RxReorder.le_of_mem_range hi)
  · split_ifs with hnil
    · rw [hnil]
      exact .refl _
    · rw [gone_deliver]
  · split_ifs
    · rfl
    · rfl

theorem olRxReorderFlush_moved (h : Books s c) (htid : tid ∈ tids) (action : HttRxFlushAction) :
    ∃ s' c' events, olRxReorderFlush seqNum s tid idxStart idxEnd action = some (s', events) ∧
      Moved s c [] s' c' events := by
  obtain ⟨s', heq, he⟩ := olRxReorderFlush_eq seqNum rfl (h.sized tid htid) (h.slots tid htid)
    (h.apart htid) action
  refine ⟨s', _, _, heq, h.moved_emptied _ _ htid he (h.sized tid htid).nodup_range ?_
    (List.Subset.refl _) ?_ ?_⟩
  · exact fun i hi => Rx.mem_slots.mpr (RxReorder.le_of_mem_range hi)
  · split_ifs with hnil
    · rw [hnil]
      exact .refl _
    · cases action with
      | release => rw [gone_deliver]
      | discard => rw [gone_free]
  · split_ifs
    · rfl
    · cases action with
      | release => rfl
      | discard => exact arrays_free

theorem olRxPnIndHandler_moved (h : Books s c) (pnIe : List UInt8) :
    ∃ s' c' events, olRxPnIndHandler s tid idxStart idxEnd pnIe = some (s', events) ∧
      Moved s c [] s' c' events := by
  by_cases htid : olTxrxNumExtTids ≤ tid
  · refine ⟨s, c, [], ?_, .refl h⟩
    rw [olRxPnIndHandler, if_pos htid]
  · have hlt := Nat.lt_of_not_le htid
    have htid : tid ∈ tids := mem_tids.mpr hlt
    obtain ⟨s', heq, he⟩ := olRxPnIndHandler_eq pnIe hlt (h.sized tid htid) (h.slots tid htid)
      (h.apart htid) rfl
    refine ⟨s', _, _, heq, h.moved_emptied _ _ htid he (h.sized tid htid).nodup_range ?_ ?_ ?_ ?_⟩
    · exact fun i hi => Rx.mem_slots.mpr (RxReorder.le_of_mem_range hi)
    · exact fun i hi => passed_append_caught_perm.subset (List.mem_append_left _ hi)
    · rw [gone, flatMap_delivered_filteredEvents, flatMap_freed_filteredEvents,
        ← List.flatMap_append]
      exact passed_append_caught_perm.flatMap_right _
    · rw [filteredEvents, List.flatMap_append, arrays_free]
      split_ifs
      · rfl
      · rfl

theorem olRxFlushHandler_moved (h : Books s c) (isFrag : α → Bool) (action : HttRxFlushAction) :
    ∃ s' c' events,
      olRxFlushHandler seqNum isFrag s tid idxStart idxEnd action = some (s', events) ∧
        Moved s c [] s' c' events := by
  unfold olRxFlushHandler
  dsimp only
  split_ifs with htid
  · exact ⟨s, c, [], rfl, .refl h⟩
  · exact olRxReorderFlushFrag_moved h (mem_tids.mpr (Nat.lt_of_not_le htid)) idxStart
  · exact olRxReorderFlush_moved seqNum h (mem_tids.mpr (Nat.lt_of_not_le htid)) action

theorem olRxReorderPeerCleanup_moved (h : Books s c) :
    ∃ s' c' events, olRxReorderPeerCleanup seqNum s = some (s', events) ∧
      Moved s c [] s' c' events := by
  -- The tids that are still to be flushed.
  have hrest (ts : List ℕ) (hts : ts ⊆ tids) : ∀ s₁ c₁ events, Moved s c [] s₁ c₁ events →
      ∃ s' c' events', ts.foldlM
          (fun (p : Rx α × List (Event α)) tid =>
            (olRxReorderFlush seqNum p.1 tid 0 0 .discard).map fun q => (q.1, p.2 ++ q.2))
          (s₁, events) = some (s', events') ∧ Moved s c [] s' c' events' := by
    induction ts with
    | nil => exact fun s₁ c₁ events h₁ => ⟨s₁, c₁, events, rfl, h₁⟩
    | cons t ts ih =>
      intro s₁ c₁ events h₁
      obtain ⟨s₂, c₂, events₂, heq, h₂⟩ : ∃ s₂ c₂ events₂,
          olRxReorderFlush seqNum s₁ t 0 0 .discard = some (s₂, events₂) ∧
            Moved s₁ c₁ [] s₂ c₂ events₂ :=
        olRxReorderFlush_moved seqNum h₁.books (hts List.mem_cons_self) .discard
      obtain ⟨s', c', events', heq', h'⟩ := ih (fun u hu => hts (List.mem_cons_of_mem t hu)) s₂ c₂
        (events ++ events₂) (h₁.trans h₂)
      refine ⟨s', c', events', ?_, h'⟩
      rw [List.foldlM_cons, heq]
      exact heq'
  exact hrest tids (List.Subset.refl _) s c [] (.refl h)

end Operations

end KernelModules.Reorder
