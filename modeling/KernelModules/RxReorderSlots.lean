import KernelModules.RxReorder

/-!
# What the slots of a reorder array hold

Each slot holds a list of MSDUs, and no MSDU is in two places. The walks over the slots splice the
lists of the slots that they have come by into one chain and leave those slots empty. Only the
links of MSDUs in that chain are written.
-/

namespace KernelModules.Reorder

open Chains RingWalk

variable {α : Type*} {next : α → Option α} {r r' : RxReorder α} {c : ℕ → List α} {i j : ℕ}

/-- As many slots as the mask tells, a power of two. -/
structure RxReorder.Sized (r : RxReorder α) : Prop where
  size : r.arraySize = r.winSzMask + 1
  pow : ∃ k, r.winSzMask + 1 = 2 ^ k

/-- The array is still the same one, whatever is in its slots. -/
structure SameArray (r r' : RxReorder α) : Prop where
  winSz : r'.winSz = r.winSz
  winSzMask : r'.winSzMask = r.winSzMask
  arraySize : r'.arraySize = r.arraySize
  freedArray : freedArray r' = freedArray r

theorem SameArray.refl (r : RxReorder α) : SameArray r r :=
  ⟨rfl, rfl, rfl, rfl⟩

theorem SameArray.trans {r'' : RxReorder α} (h : SameArray r r') (h' : SameArray r' r'') :
    SameArray r r'' :=
  ⟨h'.winSz.trans h.winSz, h'.winSzMask.trans h.winSzMask, h'.arraySize.trans h.arraySize,
    h'.freedArray.trans h.freedArray⟩

theorem SameArray.sized (h : SameArray r r') (hr : r.Sized) : r'.Sized := by
  refine ⟨?_, ?_⟩
  · rw [h.arraySize, h.winSzMask, hr.size]
  · rw [h.winSzMask]
    exact hr.pow

theorem sameArray_setElem (r : RxReorder α) (i : ℕ) (e : ArrayElem α) :
    SameArray r (r.setElem i e) := by
  obtain ⟨winSz, mask, array, base⟩ := r
  cases array with
  | base => exact ⟨rfl, rfl, rfl, rfl⟩
  | mem id size elems => exact ⟨rfl, rfl, rfl, rfl⟩

theorem RxReorder.Sized.elem_setElem (hr : r.Sized) (hi : i ≤ r.winSzMask) (hj : j ≤ r.winSzMask)
    (e : ArrayElem α) : (r.setElem i e).elem j = if j = i then e else r.elem j := by
  obtain ⟨winSz, mask, array, base⟩ := r
  cases array with
  | base =>
    -- There is only one slot.
    have hsize : 1 = mask + 1 := hr.size
    have hi : i ≤ mask := hi
    have hj : j ≤ mask := hj
    rw [if_pos (by omega)]
    rfl
  | mem id size elems =>
    change Function.update elems i e j = _
    rw [Function.update_apply]
    rfl

def Holds (next : α → Option α) (r : RxReorder α) (c : ℕ → List α) : Prop :=
  ∀ i ≤ r.winSzMask, Segment next (r.elem i).head (r.elem i).tail (c i)

/-- No MSDU is twice in the first `n` slots. -/
structure Apart (n : ℕ) (c : ℕ → List α) : Prop where
  nodup : ∀ i < n, (c i).Nodup
  disjoint : ∀ i < n, ∀ j < n, i ≠ j → ∀ a ∈ c i, a ∉ c j

def cleared (c : ℕ → List α) (done : List ℕ) (i : ℕ) : List α :=
  if i ∈ done then [] else c i

theorem cleared_nil : cleared c [] = c := by
  funext i
  simp [cleared]

theorem cleared_singleton (i : ℕ) : cleared c [i] = Function.update c i [] := by
  funext j
  simp [cleared, Function.update_apply]

theorem cleared_concat_self (done : List ℕ) (i : ℕ) : cleared c (done ++ [i]) i = [] := by
  simp [cleared]

theorem cleared_concat_of_ne {done : List ℕ} (h : j ≠ i) :
    cleared c (done ++ [i]) j = cleared c done j := by
  simp [cleared, h]

theorem Apart.nodup_flatMap {n : ℕ} (h : Apart n c) {ws : List ℕ} (hws : ws.Nodup)
    (hlt : ∀ i ∈ ws, i < n) : (ws.flatMap c).Nodup := by
  rw [List.nodup_flatMap]
  refine ⟨fun i hi => h.nodup i (hlt i hi), ?_⟩
  apply hws.imp_of_mem
  intro i j hi hj hij a hai haj
  exact h.disjoint i (hlt i hi) j (hlt j hj) hij a hai haj

theorem Apart.notMem_flatMap {n : ℕ} (h : Apart n c) {ws : List ℕ} (hlt : ∀ i ∈ ws, i < n)
    (hj : j < n) (hnot : j ∉ ws) {a : α} (ha : a ∈ c j) : a ∉ ws.flatMap c := by
  intro hmem
  obtain ⟨i, hi, hai⟩ := List.mem_flatMap.mp hmem
  have hij : i ≠ j := by
    rintro rfl
    exact hnot hi
  exact h.disjoint i (hlt i hi) j hj hij a hai ha

/-- Where a walk that started from `next` and `r` has come to: it has been by the slots `done`, and
the chain it has is what was in those of them that it kept. -/
structure Spliced (next : α → Option α) (r : RxReorder α) (c : ℕ → List α) (kept done : List ℕ)
    (s : Splice α) : Prop where
  chain : Segment s.next s.headMsdu s.tailMsdu (kept.flatMap c)
  slots : Holds s.next s.r (cleared c done)
  array : SameArray r s.r
  frame : ∀ a ∉ kept.flatMap c, s.next a = next a
  keptDone : ∀ i ∈ kept, i ∈ done
  keptNodup : kept.Nodup
  doneLe : ∀ i ∈ done, i ≤ r.winSzMask

section Steps

variable {kept done : List ℕ} {s : Splice α}

theorem spliced_start (h : Holds next r c) : Spliced next r c [] [] ⟨next, r, none, none⟩ where
  chain := segment_nil
  slots := by
    rw [cleared_nil]
    exact h
  array := .refl r
  frame _ _ := rfl
  keptDone := by simp
  keptNodup := List.nodup_nil
  doneLe := by simp

theorem Spliced.elem (h : Spliced next r c kept done s) (hi : i ≤ r.winSzMask) (hnew : i ∉ done) :
    Segment s.next (s.r.elem i).head (s.r.elem i).tail (c i) := by
  have hslot := h.slots i (by rw [h.array.winSzMask]; exact hi)
  rwa [cleared, if_neg hnew] at hslot

theorem Spliced.slots_clear (h : Spliced next r c kept done s) (hr : r.Sized)
    (hi : i ≤ r.winSzMask) {next' : α → Option α}
    (hsame : ∀ j ≤ r.winSzMask, j ∉ done → j ≠ i → ∀ a ∈ c j, next' a = s.next a) :
    Holds next' (s.r.clear i) (cleared c (done ++ [i])) := by
  intro j hj
  have hmask : (s.r.clear i).winSzMask = r.winSzMask :=
    (sameArray_setElem s.r i {}).winSzMask.trans h.array.winSzMask
  rw [hmask] at hj
  have hle {j : ℕ} (hj : j ≤ r.winSzMask) : j ≤ s.r.winSzMask := by
    rw [h.array.winSzMask]
    exact hj
  rw [RxReorder.clear, (h.array.sized hr).elem_setElem (hle hi) (hle hj)]
  by_cases hji : j = i
  · subst j
    rw [if_pos rfl, cleared_concat_self]
    exact segment_nil
  · rw [if_neg hji, cleared_concat_of_ne hji]
    apply (h.slots j (hle hj)).congr
    intro a ha
    unfold cleared at ha
    split_ifs at ha with hdone
    · cases ha
    · exact hsame j hj hdone hji a ha

theorem Spliced.done_concat_le (h : Spliced next r c kept done s) (hi : i ≤ r.winSzMask) :
    ∀ j ∈ done ++ [i], j ≤ r.winSzMask := by
  intro j hj
  rcases List.mem_append.mp hj with hj | hj
  · exact h.doneLe j hj
  · rw [List.mem_singleton.mp hj]
    exact hi

theorem Spliced.drop (h : Spliced next r c kept done s) (hr : r.Sized) (hi : i ≤ r.winSzMask) :
    Spliced next r c kept (done ++ [i]) { s with r := s.r.clear i } where
  chain := h.chain
  slots := h.slots_clear hr hi fun _ _ _ _ _ _ => rfl
  array := h.array.trans (sameArray_setElem s.r i {})
  frame := h.frame
  keptDone j hj := List.mem_append_left _ (h.keptDone j hj)
  keptNodup := h.keptNodup
  doneLe := h.done_concat_le hi

theorem flatMap_concat (c : ℕ → List α) (kept : List ℕ) (i : ℕ) :
    (kept ++ [i]).flatMap c = kept.flatMap c ++ c i := by
  simp

theorem Spliced.keep_empty (h : Spliced next r c kept (done ++ [i]) s) (hempty : c i = [])
    (hnew : i ∉ kept) : Spliced next r c (kept ++ [i]) (done ++ [i]) s := by
  have hsame : (kept ++ [i]).flatMap c = kept.flatMap c := by
    rw [flatMap_concat, hempty, List.append_nil]
  refine ⟨?_, h.slots, h.array, ?_, ?_, ?_, h.doneLe⟩
  · rw [hsame]
    exact h.chain
  · rw [hsame]
    exact h.frame
  · intro j hj
    rcases List.mem_append.mp hj with hj | hj
    · exact h.keptDone j hj
    · exact List.mem_append_right _ hj
  · exact List.nodup_append.mpr ⟨h.keptNodup, List.nodup_singleton i, by
      intro j hj k hk hjk
      rw [hjk, List.mem_singleton.mp hk] at hj
      exact hnew hj⟩

theorem Spliced.skip (h : Spliced next r c kept done s) (hi : i ≤ r.winSzMask)
    (hempty : c i = []) : Spliced next r c kept (done ++ [i]) s := by
  refine ⟨h.chain, ?_, h.array, h.frame, fun j hj => List.mem_append_left _ (h.keptDone j hj),
    h.keptNodup, h.done_concat_le hi⟩
  intro j hj
  have hslot := h.slots j hj
  by_cases hji : j = i
  · subst j
    rw [cleared_concat_self]
    unfold cleared at hslot
    rwa [hempty, ite_self] at hslot
  · rwa [cleared_concat_of_ne hji]

theorem Spliced.new (h : Spliced next r c kept done s) (hnew : i ∉ done) : i ∉ kept :=
  fun hi => hnew (h.keptDone i hi)

theorem Spliced.nodup_concat (h : Spliced next r c kept done s) (hnew : i ∉ done) :
    (kept ++ [i]).Nodup := by
  refine List.nodup_append.mpr ⟨h.keptNodup, List.nodup_singleton i, ?_⟩
  intro j hj k hk hjk
  rw [hjk, List.mem_singleton.mp hk] at hj
  exact h.new hnew hj

theorem Spliced.kept_concat_lt (h : Spliced next r c kept done s) (hi : i ≤ r.winSzMask) :
    ∀ j ∈ kept ++ [i], j < r.winSzMask + 1 := by
  intro j hj
  rcases List.mem_append.mp hj with hj | hj
  · exact Nat.lt_succ_of_le (h.doneLe j (h.keptDone j hj))
  · rw [List.mem_singleton.mp hj]
    exact Nat.lt_succ_of_le hi

theorem Spliced.keptDone_concat (h : Spliced next r c kept done s) :
    ∀ j ∈ kept ++ [i], j ∈ done ++ [i] := by
  intro j hj
  rcases List.mem_append.mp hj with hj | hj
  · exact List.mem_append_left _ (h.keptDone j hj)
  · exact List.mem_append_right _ hj

theorem Spliced.begin (h : Spliced next r c kept done s) (hr : r.Sized) (hi : i ≤ r.winSzMask)
    (hnew : i ∉ done) (hhead : s.headMsdu = none) :
    Spliced next r c (kept ++ [i]) (done ++ [i])
      { s with
        headMsdu := (s.r.elem i).head
        tailMsdu := (s.r.elem i).tail
        r := s.r.clear i } := by
  have hchain := h.chain
  rw [hhead] at hchain
  have hnil : kept.flatMap c = [] := hchain.eq_nil
  have hsame : (kept ++ [i]).flatMap c = c i := by
    rw [flatMap_concat, hnil, List.nil_append]
  refine ⟨?_, (h.drop hr hi).slots, (h.drop hr hi).array, ?_, h.keptDone_concat,
    h.nodup_concat hnew, h.done_concat_le hi⟩
  · rw [hsame]
    exact h.elem hi hnew
  · intro a _
    apply h.frame
    rw [hnil]
    exact List.not_mem_nil

theorem Spliced.join [DecidableEq α] (h : Spliced next r c kept done s) (hr : r.Sized)
    (hc : Apart (r.winSzMask + 1) c) (hi : i ≤ r.winSzMask) (hnew : i ∉ done)
    (hhead : s.headMsdu ≠ none) (helem : (s.r.elem i).head ≠ none) :
    Spliced next r c (kept ++ [i]) (done ++ [i])
      { s with
        next := setNext s.next s.tailMsdu (s.r.elem i).head
        tailMsdu := (s.r.elem i).tail
        r := s.r.clear i } := by
  have hslot := h.elem hi hnew
  have hne : kept.flatMap c ≠ [] := by
    intro hnil
    apply hhead
    rw [h.chain.head_eq, hnil, List.head?_nil]
  have hnei : c i ≠ [] := by
    intro hnil
    apply helem
    rw [hslot.head_eq, hnil, List.head?_nil]
  have hnodup : (kept.flatMap c ++ c i).Nodup := by
    rw [← flatMap_concat]
    exact hc.nodup_flatMap (h.nodup_concat hnew) (h.kept_concat_lt hi)
  -- Only the link of the last MSDU of the chain is written.
  have hwritten {a : α} (ha : a ∉ kept.flatMap c) :
      setNext s.next s.tailMsdu (s.r.elem i).head a = s.next a := by
    apply setNext_of_notMem
    rintro b hb rfl
    rw [h.chain.tail_eq] at hb
    exact ha (List.mem_of_getLast? hb)
  refine ⟨?_, ?_, (h.drop hr hi).array, ?_, h.keptDone_concat, h.nodup_concat hnew,
    h.done_concat_le hi⟩
  · rw [flatMap_concat]
    exact h.chain.join hslot hne hnei hnodup
  · apply h.slots_clear hr hi
    intro j hj hdone _ a ha
    apply hwritten
    exact hc.notMem_flatMap (fun k hk => Nat.lt_succ_of_le (h.doneLe k (h.keptDone k hk)))
      (Nat.lt_succ_of_le hj) (fun hk => hdone (h.keptDone j hk)) ha
  · intro a ha
    rw [flatMap_concat, List.mem_append, not_or] at ha
    exact (hwritten ha.1).trans (h.frame a ha.1)

end Steps

section Loops

variable [DecidableEq α] {done : List ℕ} {s : Splice α}

theorem flushElem_spec (h : Spliced next r c done done s) (hr : r.Sized)
    (hc : Apart (r.winSzMask + 1) c) (hi : i ≤ r.winSzMask) (hnew : i ∉ done) :
    ∃ s', flushElem s i = some s' ∧ Spliced next r c (done ++ [i]) (done ++ [i]) s' := by
  have hslot := h.elem hi hnew
  unfold flushElem
  dsimp only
  cases helem : (s.r.elem i).head with
  | none =>
    rw [helem] at hslot
    exact ⟨s, rfl, (h.skip hi hslot.eq_nil).keep_empty hslot.eq_nil hnew⟩
  | some a =>
    cases hhead : s.headMsdu with
    | none =>
      refine ⟨_, rfl, ?_⟩
      rw [← helem]
      exact h.begin hr hi hnew hhead
    | some b =>
      refine ⟨_, rfl, ?_⟩
      have hjoin := h.join hr hc hi hnew (by simp [hhead]) (by simp [helem])
      rw [helem, hhead] at hjoin
      exact hjoin

theorem foldlM_flushElem (hr : r.Sized) (hc : Apart (r.winSzMask + 1) c) (ws : List ℕ)
    (h : Spliced next r c done done s) (hws : (done ++ ws).Nodup)
    (hle : ∀ i ∈ ws, i ≤ r.winSzMask) :
    ∃ s', ws.foldlM flushElem s = some s' ∧
      Spliced next r c (done ++ ws) (done ++ ws) s' := by
  induction ws generalizing done s with
  | nil => exact ⟨s, rfl, by rwa [List.append_nil]⟩
  | cons i ws ih =>
    have hnew : i ∉ done := by
      intro hi
      exact (List.nodup_append.mp hws).2.2 i hi i List.mem_cons_self rfl
    obtain ⟨s₁, hstep, hs₁⟩ := flushElem_spec h hr hc (hle i List.mem_cons_self) hnew
    rw [List.append_cons] at hws ⊢
    obtain ⟨s', hrest, hs'⟩ := ih hs₁ hws fun j hj => hle j (List.mem_cons_of_mem i hj)
    refine ⟨s', ?_, hs'⟩
    rw [List.foldlM_cons, hstep]
    exact hrest

theorem releaseElem_spec (h : Spliced next r c done done s) (hr : r.Sized)
    (hc : Apart (r.winSzMask + 1) c) (hi : i ≤ r.winSzMask) (hnew : i ∉ done)
    (hbegun : done.flatMap c ≠ [] ∨ c i = []) :
    ∃ s', releaseElem s i = some s' ∧ Spliced next r c (done ++ [i]) (done ++ [i]) s' := by
  have hslot := h.elem hi hnew
  unfold releaseElem
  dsimp only
  cases helem : (s.r.elem i).head with
  | none =>
    rw [helem] at hslot
    exact ⟨_, rfl, (h.drop hr hi).keep_empty hslot.eq_nil hnew⟩
  | some a =>
    rw [helem] at hslot
    have hhead : s.headMsdu ≠ none := by
      intro hnone
      have hchain := h.chain
      rw [hnone] at hchain
      rcases hbegun with hne | hnil
      · exact hne hchain.eq_nil
      · exact hslot.ne_nil hnil
    refine ⟨_, rfl, ?_⟩
    have hjoin := h.join hr hc hi hnew hhead (by simp [helem])
    rw [helem] at hjoin
    exact hjoin

theorem foldlM_releaseElem (hr : r.Sized) (hc : Apart (r.winSzMask + 1) c) (ws : List ℕ)
    (h : Spliced next r c done done s) (hws : (done ++ ws).Nodup)
    (hle : ∀ i ∈ ws, i ≤ r.winSzMask)
    (hbegun : done.flatMap c ≠ [] ∨ ∀ i ∈ ws, c i = []) :
    ∃ s', ws.foldlM releaseElem s = some s' ∧
      Spliced next r c (done ++ ws) (done ++ ws) s' := by
  induction ws generalizing done s with
  | nil => exact ⟨s, rfl, by rwa [List.append_nil]⟩
  | cons i ws ih =>
    have hnew : i ∉ done := by
      intro hi
      exact (List.nodup_append.mp hws).2.2 i hi i List.mem_cons_self rfl
    have hfirst : done.flatMap c ≠ [] ∨ c i = [] :=
      hbegun.imp_right fun hall => hall i List.mem_cons_self
    obtain ⟨s₁, hstep, hs₁⟩ := releaseElem_spec h hr hc (hle i List.mem_cons_self) hnew hfirst
    have hnext : (done ++ [i]).flatMap c ≠ [] ∨ ∀ j ∈ ws, c j = [] := by
      refine hbegun.imp (fun hne hnil => hne ?_) fun hall j hj =>
        hall j (List.mem_cons_of_mem i hj)
      rw [flatMap_concat] at hnil
      exact (List.append_eq_nil_iff.mp hnil).1
    rw [List.append_cons] at hws ⊢
    obtain ⟨s', hrest, hs'⟩ := ih hs₁ hws (fun j hj => hle j (List.mem_cons_of_mem i hj)) hnext
    refine ⟨s', ?_, hs'⟩
    rw [List.foldlM_cons, hstep]
    exact hrest

theorem foldlM_releaseElem_none (ws : List ℕ) (hhead : s.headMsdu = none) :
    ∃ s', ws.foldlM releaseElem s = some s' ∧ s'.headMsdu = none := by
  induction ws generalizing s with
  | nil => exact ⟨s, rfl, hhead⟩
  | cons i ws ih =>
    obtain ⟨s₁, hstep, hs₁⟩ : ∃ s₁, releaseElem s i = some s₁ ∧ s₁.headMsdu = none := by
      unfold releaseElem
      dsimp only
      split_ifs
      · exact ⟨_, rfl, hhead⟩
      · exact ⟨_, rfl, hhead⟩
    obtain ⟨s', hrest, hs'⟩ := ih hs₁
    refine ⟨s', ?_, hs'⟩
    rw [List.foldlM_cons, hstep]
    exact hrest

end Loops

end KernelModules.Reorder
