import KernelModules.RxReorderDelivery

/-!
# The MPDUs that fail the target's PN check

The target names the slots whose MPDUs have failed. The walk over the range has a cursor into that
list, which moves on when the slot under it comes up with something in it. An entry that does not
come up stops the cursor, and what the entries behind it name is handed up.
-/

namespace KernelModules.Reorder

open Chains RingWalk

variable {α : Type*} {s s' : Rx α} {tid seqNumStart seqNumEnd : ℕ} {c : ℕ → List α}
  {kept done ws : List ℕ} {pnIe : List UInt8} {i : ℕ}

def Event.delivered : Event α → List α
  | .deliver msdus => msdus
  | _ => []

def Event.freed : Event α → List α
  | .free msdu => [msdu]
  | _ => []

def Named (pnIe : List UInt8) (i : ℕ) : Prop :=
  i ∈ pnIe.map UInt8.toNat

instance (pnIe : List UInt8) : DecidablePred (Named pnIe) :=
  fun i => inferInstanceAs (Decidable (i ∈ pnIe.map UInt8.toNat))

/-- The MSDUs in the named slots are freed, the others are handed up in the order of the slots. -/
def Filters (s : Rx α) (tid : ℕ) (c : ℕ → List α) (ws : List ℕ) (pnIe : List UInt8)
    (result : Option (Rx α × List (Event α))) : Prop :=
  ∃ s' events, result = some (s', events) ∧
    events.flatMap Event.delivered = (ws.filter (¬Named pnIe ·)).flatMap c ∧
    (events.flatMap Event.freed).Perm ((ws.filter (Named pnIe ·)).flatMap c) ∧
    Emptied s tid c (ws.filter (¬Named pnIe ·)) ws s'

theorem flatMap_delivered_free (l : List α) : (l.map Event.free).flatMap Event.delivered = [] := by
  induction l with
  | nil => rfl
  | cons a l ih => exact ih

theorem flatMap_freed_free (l : List α) : (l.map Event.free).flatMap Event.freed = l := by
  induction l with
  | nil => rfl
  | cons a l ih => exact congrArg (a :: ·) ih

def filteredEvents [DecidableEq α] (freed delivered : List α) : List (Event α) :=
  freed.map .free ++ if delivered = [] then [] else [.deliver delivered]

theorem flatMap_freed_filteredEvents [DecidableEq α] (freed delivered : List α) :
    (filteredEvents freed delivered).flatMap Event.freed = freed := by
  rw [filteredEvents, List.flatMap_append, flatMap_freed_free]
  split_ifs
  · exact List.append_nil freed
  · exact List.append_nil freed

theorem flatMap_delivered_filteredEvents [DecidableEq α] (freed delivered : List α) :
    (filteredEvents freed delivered).flatMap Event.delivered = delivered := by
  rw [filteredEvents, List.flatMap_append, flatMap_delivered_free, List.nil_append]
  split_ifs with h
  · rw [h]
    rfl
  · exact List.append_nil delivered

def caught (c : ℕ → List α) : List ℕ → List UInt8 → List ℕ
  | [], _ => []
  | i :: ws, pnIe =>
    if c i ≠ [] ∧ pnIe.head?.any (fun e => i = e.toNat) then i :: caught c ws pnIe.tail
    else caught c ws pnIe

def passed (c : ℕ → List α) : List ℕ → List UInt8 → List ℕ
  | [], _ => []
  | i :: ws, pnIe =>
    if c i ≠ [] ∧ pnIe.head?.any (fun e => i = e.toNat) then passed c ws pnIe.tail
    else i :: passed c ws pnIe

def named (c : ℕ → List α) (ws : List ℕ) (pnIe : List UInt8) : List ℕ :=
  ws.filter fun i => c i ≠ [] ∧ Named pnIe i

theorem caught_prefix : caught c ws pnIe <+: pnIe.map UInt8.toNat := by
  induction ws generalizing pnIe with
  | nil => exact List.nil_prefix
  | cons i ws ih =>
    rw [caught]
    split_ifs with h
    · cases pnIe with
      | nil => cases h.2
      | cons e pnIe =>
        have hi : i = e.toNat := by simpa using h.2
        rw [hi, List.map_cons, List.tail_cons]
        exact (List.prefix_cons_inj e.toNat).mpr ih
    · exact ih

theorem caught_sublist : (caught c ws pnIe).Sublist ws := by
  induction ws generalizing pnIe with
  | nil => exact .slnil
  | cons i ws ih =>
    rw [caught]
    split_ifs
    · exact ih.cons_cons i
    · exact ih.cons i

theorem ne_nil_of_mem_caught (h : i ∈ caught c ws pnIe) : c i ≠ [] := by
  induction ws generalizing pnIe with
  | nil => cases h
  | cons j ws ih =>
    rw [caught] at h
    split_ifs at h with hj
    · rcases List.mem_cons.mp h with rfl | h
      · exact hj.1
      · exact ih h
    · exact ih h

theorem named_of_mem_caught (h : i ∈ caught c ws pnIe) : Named pnIe i :=
  caught_prefix.subset h

theorem caught_eq_named (hws : ws.Nodup) (hinit : named c ws pnIe <+: pnIe.map UInt8.toNat) :
    caught c ws pnIe = named c ws pnIe := by
  induction ws generalizing pnIe with
  | nil => rfl
  | cons i ws ih =>
    obtain ⟨hi, hws⟩ := List.nodup_cons.mp hws
    by_cases hnamed : c i ≠ [] ∧ Named pnIe i
    · have hcons : named c (i :: ws) pnIe = i :: named c ws pnIe :=
        List.filter_cons_of_pos (by simpa using hnamed)
      rw [hcons] at hinit ⊢
      cases pnIe with
      | nil => cases hnamed.2
      | cons e pnIe =>
        obtain ⟨heq, htail⟩ := List.cons_prefix_cons.mp hinit
        -- The slot does not come up a second time.
        have hrest : named c ws (e :: pnIe) = named c ws pnIe := by
          apply List.filter_congr
          intro j hj
          have hne : j ≠ e.toNat := by
            rintro rfl
            rw [heq] at hi
            exact hi hj
          simp [Named, hne]
        rw [hrest] at htail ⊢
        rw [caught, if_pos ⟨hnamed.1, by simpa using heq⟩, List.tail_cons, ih hws htail]
    · have hcons : named c (i :: ws) pnIe = named c ws pnIe :=
        List.filter_cons_of_neg (by simpa using hnamed)
      rw [hcons] at hinit ⊢
      rw [caught, if_neg, ih hws hinit]
      rintro ⟨hne, hhead⟩
      cases pnIe with
      | nil => cases hhead
      | cons e pnIe =>
        have heq : i = e.toNat := by simpa using hhead
        exact hnamed ⟨hne, by simp [Named, heq]⟩

theorem passed_append_caught_perm : (passed c ws pnIe ++ caught c ws pnIe).Perm ws := by
  induction ws generalizing pnIe with
  | nil => exact .refl _
  | cons i ws ih =>
    rw [caught, passed]
    split_ifs
    · exact List.perm_middle.trans (ih.cons i)
    · exact ih.cons i

theorem mem_caught_or_passed (h : i ∈ ws) : i ∈ caught c ws pnIe ∨ i ∈ passed c ws pnIe := by
  rw [← passed_append_caught_perm.mem_iff, List.mem_append] at h
  exact h.symm

theorem passed_eq (hws : ws.Nodup) :
    passed c ws pnIe = ws.filter fun i => i ∉ caught c ws pnIe := by
  induction ws generalizing pnIe with
  | nil => rfl
  | cons i ws ih =>
    obtain ⟨hi, hws⟩ := List.nodup_cons.mp hws
    rw [caught, passed]
    split_ifs
    · rw [List.filter_cons_of_neg (by simp), ih hws]
      apply List.filter_congr
      intro j hj
      have hne : j ≠ i := fun heq => hi (heq ▸ hj)
      simp [hne]
    · have hcaught : i ∉ caught c ws pnIe := fun hmem => hi (caught_sublist.subset hmem)
      rw [List.filter_cons_of_pos (by simpa using hcaught), ih hws]

theorem flatMap_filter_congr {p q : ℕ → Prop} [DecidablePred p] [DecidablePred q]
    (h : ∀ i ∈ ws, c i ≠ [] → (p i ↔ q i)) :
    (ws.filter fun i => p i).flatMap c = (ws.filter fun i => q i).flatMap c := by
  induction ws with
  | nil => rfl
  | cons i ws ih =>
    have hrest := ih fun j hj => h j (List.mem_cons_of_mem i hj)
    by_cases hnil : c i = []
    · by_cases hp : p i <;> by_cases hq : q i <;> simp [hp, hq, hnil, hrest]
    · have hi := h i List.mem_cons_self hnil
      by_cases hp : p i
      · have hq := hi.mp hp
        simp [hp, hq, hrest]
      · have hq : ¬q i := fun hq => hp (hi.mpr hq)
        simp [hp, hq, hrest]

section Walk

variable [DecidableEq α] [Fintype α] {r : RxReorder α} {next : α → Option α} {w : PnWalk α}

theorem pnElem_of_caught (h : Spliced next r c kept done w.toSplice) (hr : r.Sized)
    (hc : Apart (r.winSzMask + 1) c) (hi : i ≤ r.winSzMask) (hnew : i ∉ done)
    (hcaught : c i ≠ [] ∧ w.pnIe.head?.any (fun e => i = e.toNat)) :
    ∃ w', pnElem w i = some w' ∧ Spliced next r c kept (done ++ [i]) w'.toSplice ∧
      w'.freed = w.freed ++ c i ∧ w'.pnIe = w.pnIe.tail := by
  have hslot := h.elem hi hnew
  have hnodup := hc.nodup i (Nat.lt_succ_of_le hi)
  have hwalk := walkTo_of_linked hslot.linked hcaught.1 hnodup hnodup.length_le_card
  rw [← hslot.head_eq, ← hslot.tail_eq] at hwalk
  have hsome : (w.r.elem i).head.isSome = true := by
    rw [hslot.head_eq, List.isSome_head?]
    simpa using hcaught.1
  refine ⟨{ w with pnIe := w.pnIe.tail, freed := w.freed ++ c i, r := w.r.clear i }, ?_,
    h.drop hr hi, rfl, rfl⟩
  rw [pnElem, if_pos hsome, if_pos hcaught.2, hwalk]
  rfl

theorem pnElem_of_passed (h : Spliced next r c kept done w.toSplice) (hr : r.Sized)
    (hc : Apart (r.winSzMask + 1) c) (hi : i ≤ r.winSzMask) (hnew : i ∉ done)
    (hpassed : ¬(c i ≠ [] ∧ w.pnIe.head?.any (fun e => i = e.toNat))) :
    ∃ w', pnElem w i = some w' ∧ Spliced next r c (kept ++ [i]) (done ++ [i]) w'.toSplice ∧
      w'.freed = w.freed ∧ w'.pnIe = w.pnIe := by
  have hslot := h.elem hi hnew
  unfold pnElem
  dsimp only
  cases helem : (w.r.elem i).head with
  | none =>
    rw [helem] at hslot
    exact ⟨w, rfl, (h.skip hi hslot.eq_nil).keep_empty hslot.eq_nil (h.new hnew), rfl, rfl⟩
  | some a =>
    have hne : c i ≠ [] := by
      rw [helem] at hslot
      exact hslot.ne_nil
    have hhead : ¬w.pnIe.head?.any (fun e => i = e.toNat) := fun hany => hpassed ⟨hne, hany⟩
    rw [if_pos Option.isSome_some, if_neg hhead]
    cases hstart : w.headMsdu with
    | none =>
      refine ⟨{ w with
        headMsdu := some a
        tailMsdu := (w.r.elem i).tail
        r := w.r.clear i }, rfl, ?_, rfl, rfl⟩
      have hbegin := h.begin hr hi hnew hstart
      rw [helem] at hbegin
      exact hbegin
    | some b =>
      refine ⟨{ w with
        next := setNext w.next w.tailMsdu (some a)
        tailMsdu := (w.r.elem i).tail
        r := w.r.clear i }, ?_, ?_, rfl, rfl⟩
      · rw [if_neg (by simp), ← hstart]
      · have hjoin := h.join hr hc hi hnew (by simp [hstart]) (by simp [helem])
        rw [helem] at hjoin
        exact hjoin

theorem foldlM_pnElem (hr : r.Sized) (hc : Apart (r.winSzMask + 1) c) (ws : List ℕ)
    (h : Spliced next r c kept done w.toSplice) (hws : (done ++ ws).Nodup)
    (hle : ∀ i ∈ ws, i ≤ r.winSzMask) :
    ∃ w', ws.foldlM pnElem w = some w' ∧
      Spliced next r c (kept ++ passed c ws w.pnIe) (done ++ ws) w'.toSplice ∧
      w'.freed = w.freed ++ (caught c ws w.pnIe).flatMap c := by
  induction ws generalizing kept done w with
  | nil => exact ⟨w, rfl, by simpa [passed] using h, (List.append_nil w.freed).symm⟩
  | cons i ws ih =>
    have hi : i ≤ r.winSzMask := hle i List.mem_cons_self
    have hnew : i ∉ done := by
      intro hmem
      exact (List.nodup_append.mp hws).2.2 i hmem i List.mem_cons_self rfl
    have hle : ∀ j ∈ ws, j ≤ r.winSzMask := fun j hj => hle j (List.mem_cons_of_mem i hj)
    rw [List.append_cons] at hws ⊢
    rw [caught, passed]
    split_ifs with hcaught
    · obtain ⟨w₁, hstep, hw₁, hfreed, hrest⟩ := pnElem_of_caught h hr hc hi hnew hcaught
      obtain ⟨w', hloop, hw', hfreed'⟩ := ih hw₁ hws hle
      rw [hrest] at hw' hfreed'
      refine ⟨w', ?_, hw', ?_⟩
      · rw [List.foldlM_cons, hstep]
        exact hloop
      · rw [hfreed', hfreed, List.flatMap_cons, List.append_assoc]
    · obtain ⟨w₁, hstep, hw₁, hfreed, hrest⟩ := pnElem_of_passed h hr hc hi hnew hcaught
      obtain ⟨w', hloop, hw', hfreed'⟩ := ih hw₁ hws hle
      rw [hrest] at hw' hfreed'
      refine ⟨w', ?_, ?_, ?_⟩
      · rw [List.foldlM_cons, hstep]
        exact hloop
      · rw [List.append_cons]
        exact hw'
      · rw [hfreed', hfreed]

variable (pnIe) in
theorem olRxPnIndHandler_eq (htid : tid < olTxrxNumExtTids)
    (hr : (s.peer.tidsRxReorder tid).Sized) (hslots : Holds s.next (s.peer.tidsRxReorder tid) c)
    (hc : Apart ((s.peer.tidsRxReorder tid).winSzMask + 1) c)
    (hws : (s.peer.tidsRxReorder tid).range seqNumStart seqNumEnd = ws) :
    ∃ s', olRxPnIndHandler s tid seqNumStart seqNumEnd pnIe =
        some (s', filteredEvents ((caught c ws pnIe).flatMap c) ((passed c ws pnIe).flatMap c)) ∧
      Emptied s tid c (passed c ws pnIe) ws s' := by
  obtain ⟨k, hk⟩ := hr.pow
  have hnodup : ([] ++ ws).Nodup := by
    rw [← hws]
    exact hr.nodup_range
  obtain ⟨w, hloop, hw, hfreed⟩ := foldlM_pnElem (w := ⟨⟨s.next, _, none, none⟩, pnIe, []⟩) hr hc ws
    (spliced_start hslots) hnodup (by rw [← hws]; exact fun i => RxReorder.le_of_mem_range)
  rw [List.nil_append] at hw hfreed
  have hchain := hw.chain
  have hwalk := hw.walk_end hc
  rw [← hws, RxReorder.range, ← doWhile_eq hk pnElem (hr.mask_le _) (hr.mask_le _)] at hloop
  let checked : Rx α := { s with peer.fwPnCheck := true }.setReorder tid w.r
  unfold olRxPnIndHandler
  rw [if_neg (by omega)]
  cases hhead : w.headMsdu with
  | none =>
    rw [hhead] at hchain
    have hnil := hchain.eq_nil
    have htail : w.tailMsdu = none := by rw [hchain.tail_eq, hnil, List.getLast?_nil]
    refine ⟨{ checked with next := w.next }, (congrArg (Option.bind · _) hloop).trans ?_, ?_⟩
    · rw [filteredEvents, hnil, if_pos rfl, List.append_nil, ← hfreed]
      simp only [Option.bind_some, hhead]
      rfl
    · refine hw.emptied hc ?_ rfl rfl
      rw [htail]
      rfl
  | some msdu =>
    rw [hhead] at hchain hwalk
    refine ⟨{ checked with next := setNext w.next w.tailMsdu none },
      (congrArg (Option.bind · _) hloop).trans ?_, ?_⟩
    · rw [filteredEvents, if_neg hchain.ne_nil, ← hfreed]
      simp only [Option.bind_some, hhead, hwalk]
      rfl
    · exact hw.emptied hc rfl rfl rfl

end Walk

theorem Emptied.of_flatMap_eq {kept' : List ℕ} (h : Emptied s tid c kept done s')
    (heq : kept.flatMap c = kept'.flatMap c) : Emptied s tid c kept' done s' := by
  refine ⟨h.slots, h.array, h.others, ?_, h.allocated⟩
  rw [← heq]
  exact h.frame

theorem flatMap_passed (hws : ws.Nodup) (hnamed : caught c ws pnIe = named c ws pnIe) :
    (passed c ws pnIe).flatMap c = (ws.filter (¬Named pnIe ·)).flatMap c := by
  rw [passed_eq hws, hnamed]
  apply flatMap_filter_congr
  intro i hi hne
  simp [named, hi, hne]

theorem flatMap_named : (named c ws pnIe).flatMap c = (ws.filter (Named pnIe ·)).flatMap c := by
  apply flatMap_filter_congr
  intro i _ hne
  exact and_iff_right hne

theorem caught_eq_named_of_passed {n : ℕ} (hc : Apart n c) (hws : ws.Nodup)
    (hlt : ∀ i ∈ ws, i < n)
    (hpassed : (passed c ws pnIe).flatMap c = (ws.filter (¬Named pnIe ·)).flatMap c) :
    caught c ws pnIe = named c ws pnIe := by
  have hsub : (caught c ws pnIe).Sublist (named c ws pnIe) := by
    have hself : named c (caught c ws pnIe) pnIe = caught c ws pnIe := by
      apply List.filter_eq_self.mpr
      intro i hi
      simpa using ⟨ne_nil_of_mem_caught hi, named_of_mem_caught hi⟩
    rw [← hself]
    exact caught_sublist.filter _
  apply hsub.eq_of_length_le
  apply List.Subperm.length_le
  apply List.subperm_of_subset (hws.filter _)
  intro i hi
  obtain ⟨hmem, hnamed⟩ := List.mem_filter.mp hi
  obtain ⟨hne, hnamed⟩ : c i ≠ [] ∧ Named pnIe i := by simpa using hnamed
  refine (mem_caught_or_passed hmem).resolve_right fun hpass => ?_
  obtain ⟨a, ha⟩ := List.exists_mem_of_ne_nil _ hne
  have hlet : a ∈ (passed c ws pnIe).flatMap c := List.mem_flatMap.mpr ⟨i, hpass, ha⟩
  rw [hpassed] at hlet
  obtain ⟨j, hj, haj⟩ := List.mem_flatMap.mp hlet
  obtain ⟨hmemj, hnot⟩ := List.mem_filter.mp hj
  have hij : i ≠ j := by
    rintro rfl
    simp [hnamed] at hnot
  exact hc.disjoint i (hlt i hmem) j (hlt j hmemj) hij a ha haj

section Handler

variable [DecidableEq α] [Fintype α]

theorem Filters.flatMap_passed (htid : tid < olTxrxNumExtTids)
    (hr : (s.peer.tidsRxReorder tid).Sized) (hslots : Holds s.next (s.peer.tidsRxReorder tid) c)
    (hc : Apart ((s.peer.tidsRxReorder tid).winSzMask + 1) c)
    (hws : (s.peer.tidsRxReorder tid).range seqNumStart seqNumEnd = ws)
    (h : Filters s tid c ws pnIe (olRxPnIndHandler s tid seqNumStart seqNumEnd pnIe)) :
    (passed c ws pnIe).flatMap c = (ws.filter (¬Named pnIe ·)).flatMap c := by
  obtain ⟨s', heq, -⟩ := olRxPnIndHandler_eq pnIe htid hr hslots hc hws
  obtain ⟨s'', events, hresult, hdelivered, -, -⟩ := h
  obtain ⟨rfl, rfl⟩ : s' = s'' ∧ _ = events := by
    simpa using heq.symm.trans hresult
  rwa [flatMap_delivered_filteredEvents] at hdelivered

theorem pn_ind_filters_iff (htid : tid < olTxrxNumExtTids)
    (hr : (s.peer.tidsRxReorder tid).Sized) (hslots : Holds s.next (s.peer.tidsRxReorder tid) c)
    (hc : Apart ((s.peer.tidsRxReorder tid).winSzMask + 1) c) :
    Filters s tid c ((s.peer.tidsRxReorder tid).range seqNumStart seqNumEnd) pnIe
        (olRxPnIndHandler s tid seqNumStart seqNumEnd pnIe) ↔
      named c ((s.peer.tidsRxReorder tid).range seqNumStart seqNumEnd) pnIe <+:
        pnIe.map UInt8.toNat := by
  have hws : ((s.peer.tidsRxReorder tid).range seqNumStart seqNumEnd).Nodup := hr.nodup_range
  constructor
  · intro hfilters
    rw [← caught_eq_named_of_passed hc hws
      (fun i hi => Nat.lt_succ_of_le (RxReorder.le_of_mem_range hi))
      (hfilters.flatMap_passed htid hr hslots hc rfl)]
    exact caught_prefix
  · intro hinit
    obtain ⟨s', heq, hemptied⟩ := olRxPnIndHandler_eq pnIe htid hr hslots hc rfl
    have hnamed := caught_eq_named hws hinit
    have hpassed := flatMap_passed hws hnamed
    refine ⟨s', _, heq, ?_, ?_, hemptied.of_flatMap_eq hpassed⟩
    · rw [flatMap_delivered_filteredEvents, hpassed]
    · rw [flatMap_freed_filteredEvents, hnamed, flatMap_named]

end Handler

theorem pn_ind_filters_behindHole :
    Filters behindHole 0 behindHoleSlots [0, 1, 2, 3] [1] (olRxPnIndHandler behindHole 0 0 0 [1]) :=
  (pn_ind_filters_iff (by decide) behindHole_sized behindHole_holds behindHole_apart).mpr
    (by decide)

/-- The slot that is named first has nothing in it, and the cursor stays with it. -/
theorem pn_ind_delivers_failed :
    (behindHole.peer.tidsRxReorder 0).Sized ∧
      Holds behindHole.next (behindHole.peer.tidsRxReorder 0) behindHoleSlots ∧
      Apart 4 behindHoleSlots ∧
      ¬Filters behindHole 0 behindHoleSlots [0, 1, 2, 3] [0, 1]
        (olRxPnIndHandler behindHole 0 0 0 [0, 1]) := by
  refine ⟨behindHole_sized, behindHole_holds, behindHole_apart, ?_⟩
  intro hfilters
  have hpassed := hfilters.flatMap_passed (by decide) behindHole_sized behindHole_holds
    behindHole_apart rfl
  revert hpassed
  decide

end KernelModules.Reorder
