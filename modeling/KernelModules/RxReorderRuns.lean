import KernelModules.RxReorderSessions

/-!
# Block-ack sessions

Runs of the operations on the reorder arrays of a peer, block-ack sessions that come and go
included. As long as arrays are replaced with nothing in their slots and releases begin with
something, each MSDU that has been stored is in one slot, or has been handed up, or freed.
-/

namespace KernelModules.Reorder

open Chains RingWalk Shelves

variable {α : Type*}

inductive Input (α : Type*)
  | addba (tid : ℕ) (winSz : Fin 65) (failed alloc : Bool)
  | delba (tid : ℕ)
  | store (tid : Fin olTxrxNumExtTids) (idx : ℕ) (msdu : α) (rest : List α)
  | release (tid : Fin olTxrxNumExtTids) (idxStart idxEnd : ℕ)
  | flush (tid : Fin olTxrxNumExtTids) (idxStart idxEnd : ℕ) (action : HttRxFlushAction)
  | flushInd (tid idxStart idxEnd : ℕ) (action : HttRxFlushAction)
  | pnInd (tid seqNumStart seqNumEnd : ℕ) (pnIe : List UInt8)
  | cleanup

def Input.stored : Input α → List α
  | .store _ _ msdu rest => msdu :: rest
  | _ => []

section Machine

variable [DecidableEq α] [Fintype α]

def handle (seqNum : α → ℕ) (isFrag : α → Bool) (s : Rx α) :
    Input α → Option (Rx α × List (Event α))
  | .addba tid winSz failed alloc => some (olRxAddbaHandler s tid winSz failed alloc)
  | .delba tid => some (olRxDelbaHandler s tid)
  | .store tid idx msdu rest => some (storeMsdus s tid idx (msdu :: rest), [])
  | .release tid idxStart idxEnd => olRxReorderRelease seqNum s tid idxStart idxEnd
  | .flush tid idxStart idxEnd action => olRxReorderFlush seqNum s tid idxStart idxEnd action
  | .flushInd tid idxStart idxEnd action =>
    olRxFlushHandler seqNum isFrag s tid idxStart idxEnd action
  | .pnInd tid seqNumStart seqNumEnd pnIe => olRxPnIndHandler s tid seqNumStart seqNumEnd pnIe
  | .cleanup => olRxReorderPeerCleanup seqNum s

/-- There is no state any more when a chain has been followed without coming to its end. -/
def sessions (seqNum : α → ℕ) (isFrag : α → Bool) :
    Machine (Option (Rx α)) (Input α) (Event α) where
  step
    | some s, input =>
      match handle seqNum isFrag s input with
      | some (s', events) => (some s', events)
      | none => (none, [])
    | none, _ => (none, [])

def Rx.slotMsdus (s : Rx α) (tid i : ℕ) : List α :=
  let e := (s.peer.tidsRxReorder tid).elem i
  (walkTo s.next e.tail (Fintype.card α) e.head).getD []

def Rx.buffered (s : Rx α) : List α :=
  s.held s.slotMsdus

def Fresh : Option (Rx α) → Input α → Prop
  | some s, .store _ _ msdu rest => (msdu :: rest).Nodup ∧ ∀ a ∈ msdu :: rest, a ∉ s.buffered
  | _, _ => True

/-- Each array has the slots that its mask tells, a power of two and enough for the window. What has
been stored is in one slot, or has been handed up, or freed, and an array that has been allocated is
in use or has been freed. -/
structure Conserved (stored : List α) (s : Rx α) (events : List (Event α)) : Prop where
  sized : ∀ tid < olTxrxNumExtTids, (s.peer.tidsRxReorder tid).Sized
  winSz : ∀ tid < olTxrxNumExtTids,
    (s.peer.tidsRxReorder tid).winSz ≤ (s.peer.tidsRxReorder tid).winSzMask + 1
  msdus : stored.Perm (s.buffered ++ gone events)
  nodup : s.buffered.Nodup
  arrays : (List.range s.allocated).Perm (s.inUse ++ events.flatMap Event.arrays)

end Machine

def Rx.slotEmpty (s : Rx α) (tid i : ℕ) : Prop :=
  ((s.peer.tidsRxReorder tid).elem i).head = none

/-- Arrays are replaced with nothing in their slots, and a release that finds nothing in its first
slot finds nothing at all. -/
def Keeps : Option (Rx α) → Input α → Prop
  | some s, .addba tid _ failed alloc =>
    tid < olTxrxNumExtTids → failed = false → alloc = true → ∀ i ∈ s.slots tid, s.slotEmpty tid i
  | some s, .delba tid => tid < olTxrxNumExtTids → ∀ i ∈ s.slots tid, s.slotEmpty tid i
  | some s, .release tid idxStart idxEnd =>
    s.slotEmpty tid (idxStart &&& (s.peer.tidsRxReorder tid).winSzMask) →
      ∀ i ∈ (s.peer.tidsRxReorder tid).range idxStart idxEnd, s.slotEmpty tid i
  | _, _ => True

/-- No session has begun, and nothing has been stored. -/
structure Initial (s : Rx α) : Prop where
  reorder : ∀ tid < olTxrxNumExtTids, s.peer.tidsRxReorder tid = olRxReorderInit
  allocated : s.allocated = 0

section Books

variable {s s' : Rx α} {tid i : ℕ} {c : ℕ → ℕ → List α}

theorem Books.slotEmpty_iff (h : Books s c) (htid : tid ∈ tids) (hi : i ∈ s.slots tid) :
    s.slotEmpty tid i ↔ c tid i = [] := by
  have hslot := h.slots tid htid i (Rx.mem_slots.mp hi)
  rw [Rx.slotEmpty, hslot.head_eq, List.head?_eq_none_iff]

theorem books_initial (h : Initial s) : Books s fun _ _ => [] where
  sized tid htid := by
    rw [h.reorder tid (mem_tids.mp htid)]
    exact ⟨rfl, 0, rfl⟩
  winSz tid htid := by
    rw [h.reorder tid (mem_tids.mp htid)]
    exact Nat.le_refl 1
  slots tid htid := by
    rw [h.reorder tid (mem_tids.mp htid)]
    exact fun _ _ => segment_nil
  ended _ _ _ _ _ ha := by cases ha
  nodup := by
    have hnil : s.held (fun _ _ => []) = [] :=
      List.flatMap_eq_nil_iff.mpr fun _ _ => List.flatMap_eq_nil_iff.mpr fun _ _ => rfl
    rw [hnil]
    exact List.nodup_nil

variable [DecidableEq α] [Fintype α]

theorem Books.buffered_eq (h : Books s c) : s.buffered = s.held c := by
  apply flatMap_congr
  intro tid htid
  apply flatMap_congr
  intro i hi
  have hslot := h.slots tid htid i (Rx.mem_slots.mp hi)
  have hnodup := nodup_of_mem (h.nodup_tid htid) hi
  rw [Rx.slotMsdus, hslot.head_eq, hslot.tail_eq]
  cases hc : c tid i with
  | nil => simp [walkTo]
  | cons a l =>
    rw [← hc, walkTo_of_linked hslot.linked (by simp [hc]) hnodup hnodup.length_le_card]
    rfl

theorem handle_moved (seqNum : α → ℕ) (isFrag : α → Bool) (h : Books s c) (input : Input α)
    (hfresh : Fresh (some s) input) (hkeeps : Keeps (some s) input) :
    ∃ s' c' events, handle seqNum isFrag s input = some (s', events) ∧
      Moved s c input.stored s' c' events := by
  cases input with
  | addba tid winSz failed alloc =>
    obtain ⟨c', h'⟩ := olRxAddbaHandler_moved h winSz
      fun htid hfailed halloc i hi =>
        (h.slotEmpty_iff htid hi).mp (hkeeps (mem_tids.mp htid) hfailed halloc i hi)
    exact ⟨_, c', _, rfl, h'⟩
  | delba tid =>
    obtain ⟨c', h'⟩ := olRxDelbaHandler_moved h
      fun htid i hi => (h.slotEmpty_iff htid hi).mp (hkeeps (mem_tids.mp htid) i hi)
    exact ⟨_, c', _, rfl, h'⟩
  | store tid idx msdu rest =>
    obtain ⟨hnodup, hnew⟩ := hfresh
    rw [h.buffered_eq] at hnew
    obtain ⟨c', h'⟩ := storeMsdus_moved h (mem_tids.mpr tid.isLt) (List.cons_ne_nil msdu rest)
      hnodup hnew
    exact ⟨_, c', _, rfl, h'⟩
  | release tid idxStart idxEnd =>
    have htid : (tid : ℕ) ∈ tids := mem_tids.mpr tid.isLt
    have hfirst : idxStart &&& (s.peer.tidsRxReorder tid).winSzMask ∈ s.slots tid :=
      Rx.mem_slots.mpr ((h.sized tid htid).mask_le idxStart)
    apply olRxReorderRelease_moved seqNum h htid
    rw [or_iff_not_imp_left, not_not]
    intro hnil j hj
    have hslot : j ∈ s.slots tid := Rx.mem_slots.mpr (RxReorder.le_of_mem_range hj)
    exact (h.slotEmpty_iff htid hslot).mp (hkeeps ((h.slotEmpty_iff htid hfirst).mpr hnil) j hj)
  | flush tid idxStart idxEnd action =>
    exact olRxReorderFlush_moved seqNum h (mem_tids.mpr tid.isLt) action
  | flushInd tid idxStart idxEnd action => exact olRxFlushHandler_moved seqNum h isFrag action
  | pnInd tid seqNumStart seqNumEnd pnIe => exact olRxPnIndHandler_moved h pnIe
  | cleanup => exact olRxReorderPeerCleanup_moved seqNum h

theorem run_moved (seqNum : α → ℕ) (isFrag : α → Bool) (h : Books s c) {inputs : List (Input α)}
    (hfresh : (sessions seqNum isFrag).Meets Fresh (some s) inputs)
    (hkeeps : (sessions seqNum isFrag).Meets Keeps (some s) inputs) :
    ∃ s' c', ((sessions seqNum isFrag).run (some s) inputs).1 = some s' ∧
      Moved s c (inputs.flatMap Input.stored) s' c'
        ((sessions seqNum isFrag).run (some s) inputs).2 := by
  refine Machine.history_of_meets (C := fun o i => Fresh o i ∧ Keeps o i)
    (I := fun inputs events o =>
      ∃ s' c', o = some s' ∧ Moved s c (inputs.flatMap Input.stored) s' c' events)
    _ ?_ ⟨s, c, rfl, .refl h⟩ (hfresh.and _ hkeeps)
  rintro inputs events _ input ⟨s₁, c₁, rfl, h₁⟩ ⟨hfresh, hkeeps⟩
  obtain ⟨s', c', events', heq, h'⟩ := handle_moved seqNum isFrag h₁.books input hfresh hkeeps
  have hstep : (sessions seqNum isFrag).step (some s₁) input = (some s', events') := by
    simp only [sessions, heq]
  rw [hstep, List.flatMap_append, List.flatMap_singleton]
  exact ⟨s', c', rfl, h₁.trans h'⟩

theorem sessions_conserve (seqNum : α → ℕ) (isFrag : α → Bool) (hinitial : Initial s)
    {inputs : List (Input α)} (hfresh : (sessions seqNum isFrag).Meets Fresh (some s) inputs)
    (hkeeps : (sessions seqNum isFrag).Meets Keeps (some s) inputs) :
    ∃ s', ((sessions seqNum isFrag).run (some s) inputs).1 = some s' ∧
      Conserved (inputs.flatMap Input.stored) s'
        ((sessions seqNum isFrag).run (some s) inputs).2 := by
  have hbooks := books_initial hinitial
  obtain ⟨s', c', heq, h'⟩ := run_moved seqNum isFrag hbooks hfresh hkeeps
  have hbuffered := h'.books.buffered_eq
  have hheld : s.held (fun _ _ => []) = [] :=
    List.flatMap_eq_nil_iff.mpr fun _ _ => List.flatMap_eq_nil_iff.mpr fun _ _ => rfl
  have hinUse : s.inUse = [] := by
    apply List.flatMap_eq_nil_iff.mpr
    intro t ht
    rw [hinitial.reorder t (mem_tids.mp ht)]
    rfl
  refine ⟨s', heq, fun t ht => h'.books.sized t (mem_tids.mpr ht),
    fun t ht => h'.books.winSz t (mem_tids.mpr ht), ?_, ?_, ?_⟩
  · have hmsdus := h'.msdus
    rwa [hheld, List.nil_append, ← hbuffered] at hmsdus
  · rw [hbuffered]
    exact h'.books.nodup
  · have hmemory := h'.memory []
    rw [hinitial.allocated, hinUse, List.nil_append] at hmemory
    exact hmemory (.refl _)

end Books

def noSession : Rx (Fin 1) where
  next _ := none
  peer :=
    { tidsRxReorder := fun _ => olRxReorderInit
      tidsNextRelIdx := fun _ => invalidReorderIndex
      tidsLastSeq := fun _ => ieee80211SeqMax
      fwPnCheck := false }
  allocated := 0

def firstTid : Fin olTxrxNumExtTids := ⟨0, by decide⟩

theorem noSession_initial : Initial noSession :=
  ⟨fun _ _ => rfl, rfl⟩

theorem noSession_fresh : Fresh (some noSession) (.store firstTid 0 0 []) :=
  ⟨by decide, by decide⟩

theorem sessions_conserve_noSession :
    ∃ s', ((sessions (fun _ => 7) (fun _ => false)).run (some noSession)
        [.store firstTid 0 0 [], .flush firstTid 0 0 .release, .addba 0 8 false true,
          .delba 0]).1 = some s' ∧
      Conserved [0] s' ((sessions (fun _ => 7) (fun _ => false)).run (some noSession)
        [.store firstTid 0 0 [], .flush firstTid 0 0 .release, .addba 0 8 false true,
          .delba 0]).2 :=
  sessions_conserve _ _ noSession_initial ⟨noSession_fresh, trivial, trivial, trivial, trivial⟩
    ⟨trivial, trivial, fun _ _ _ _ _ => rfl, fun _ _ _ => rfl, trivial⟩

/-- An MSDU waits behind a hole when its session is given up. -/
def waitingMsdu : List (Input (Fin 1)) := [.addba 0 8 false true, .store firstTid 2 0 [], .delba 0]

theorem delba_leaves_msdu :
    Initial noSession ∧
      (sessions (fun _ => 7) (fun _ => false)).Meets Fresh (some noSession) waitingMsdu ∧
      ¬∃ s', ((sessions (fun _ => 7) (fun _ => false)).run (some noSession) waitingMsdu).1 =
          some s' ∧
        Conserved [0] s'
          ((sessions (fun _ => 7) (fun _ => false)).run (some noSession) waitingMsdu).2 := by
  refine ⟨noSession_initial, ⟨trivial, ⟨by decide, by decide⟩, trivial, trivial⟩, ?_⟩
  rintro ⟨s', heq, h⟩
  cases heq
  exact absurd h.msdus.length_eq (by decide)

end KernelModules.Reorder
