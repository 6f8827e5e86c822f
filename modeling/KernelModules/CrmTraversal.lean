import KernelModules.CrmWiring
import Mathlib.Tactic

/-!
# Traversing the tables

`__cam_req_mgr_traverse` goes down the chain of tables. What it has found out comes with it on the
way down, and only on the way back, when all tables behind a table are known to be ready, does the
table take its part.

Each table is looked at as many slots behind the first one as its delay is less than the greatest.
-/

namespace KernelModules.Crm

open Function

structure TraverseResult where
  reqId : ℤ := 0
  pd : ℕ := 0
  maskedValue : ℕ := 0

/-- `struct cam_req_mgr_traverse`, and what it points to. -/
structure TraverseData where
  idx : ℕ
  tbl : PipelineDelay → ReqTbl
  applyData : PipelineDelay → Apply
  result : ℕ := 0
  resultData : TraverseResult := {}

def setSuccessBit (ret : ℕ) (pd : PipelineDelay) : ℕ := ret ||| 1 <<< pd.val

def setFailureBit (ret : ℕ) (pd : PipelineDelay) : ℕ := Nat.ldiff ret (1 <<< pd.val)

/-- The branch of a table behind which all tables are ready. -/
def TraverseData.succeed (d : TraverseData) (inQ : ReqQueue) (validateOnly : Bool)
    (pd : PipelineDelay) (currIdx : ℕ) : TraverseData :=
  let d := { d with result := setSuccessBit d.result pd }
  if validateOnly then d
  else
    { d with
      applyData := update d.applyData pd
        { d.applyData pd with
          idx := currIdx
          reqId := if 0 < (d.tbl pd).skipTraverse then -1 else (inQ.slot currIdx).reqId }
      tbl := update d.tbl pd
        { d.tbl pd with skipTraverse := (d.tbl pd).skipTraverse - 1 } }

/-- The branch of a table that is not ready. -/
def TraverseData.fail (d : TraverseData) (inQ : ReqQueue) (pd : PipelineDelay) (currIdx : ℕ) :
    TraverseData :=
  { d with
    resultData :=
      { reqId := (inQ.slot currIdx).reqId
        pd := pd.val
        maskedValue := (d.tbl pd).devMask &&& ((d.tbl pd).slot currIdx).reqReadyMap }
    result := setFailureBit d.result pd }

/-- `__cam_req_mgr_traverse` from a table on. -/
def traverseTables (inQ : ReqQueue) (validateOnly : Bool) :
    List PipelineDelay → TraverseData → ℤ × TraverseData
  | [], d => (eInval, { d with result := 0 })
  | pd :: next, d =>
    if tblReady inQ d.tbl pd d.idx then
      let r :=
        if next = [] then (0, d)
        else
          traverseTables inQ validateOnly next { d with idx := decIdx d.idx (d.tbl pd).pdDelta }
      if 0 ≤ r.1 then (0, r.2.succeed inQ validateOnly pd d.idx) else r
    else (eAgain, d.fail inQ pd d.idx)

/-- What `__cam_req_mgr_check_link_is_ready` starts from. -/
def traverseStart (link : Link) (idx : ℕ) (validateOnly : Bool) : TraverseData where
  idx := idx
  tbl := link.tbl
  applyData := if validateOnly then link.applyData else fun _ => {}

section Tables

variable {inQ : ReqQueue} {validateOnly : Bool} {pd : PipelineDelay} {next : List PipelineDelay}
  {d : TraverseData}

theorem traverseTables_notReady (h : ¬ tblReady inQ d.tbl pd d.idx) :
    traverseTables inQ validateOnly (pd :: next) d = (eAgain, d.fail inQ pd d.idx) := by
  rw [traverseTables, if_neg h]

theorem traverseTables_last (h : tblReady inQ d.tbl pd d.idx) :
    traverseTables inQ validateOnly [pd] d = (0, d.succeed inQ validateOnly pd d.idx) := by
  rw [traverseTables, if_pos h, if_pos rfl]
  rfl

theorem traverseTables_next (h : tblReady inQ d.tbl pd d.idx) (hnext : next ≠ []) :
    traverseTables inQ validateOnly (pd :: next) d =
      let r := traverseTables inQ validateOnly next
        { d with idx := decIdx d.idx (d.tbl pd).pdDelta }
      if 0 ≤ r.1 then (0, r.2.succeed inQ validateOnly pd d.idx) else r := by
  rw [traverseTables, if_pos h, if_neg hnext]

theorem traverseTables_outcome (inQ : ReqQueue) (validateOnly : Bool) (l : List PipelineDelay)
    (d : TraverseData) :
    (traverseTables inQ validateOnly l d).1 = 0 ∨
      ((traverseTables inQ validateOnly l d).1 < 0 ∧
        (traverseTables inQ validateOnly l d).2.tbl = d.tbl ∧
        (traverseTables inQ validateOnly l d).2.applyData = d.applyData) := by
  induction l generalizing d with
  | nil => exact .inr ⟨show eInval < 0 by decide, rfl, rfl⟩
  | cons pd next ih =>
    by_cases hready : tblReady inQ d.tbl pd d.idx
    · by_cases hnext : next = []
      · subst hnext
        rw [traverseTables_last hready]
        exact .inl rfl
      · rw [traverseTables_next hready hnext]
        dsimp only
        split_ifs with hrc
        · exact .inl rfl
        · rcases ih { d with idx := decIdx d.idx (d.tbl pd).pdDelta } with hzero | hfailed
          · exact absurd hzero.ge hrc
          · exact .inr hfailed
    · rw [traverseTables_notReady hready]
      exact .inr ⟨show eAgain < 0 by decide, rfl, rfl⟩

theorem traverseTables_validateOnly (l : List PipelineDelay) (d : TraverseData) :
    (traverseTables inQ true l d).2.tbl = d.tbl ∧
      (traverseTables inQ true l d).2.applyData = d.applyData := by
  induction l generalizing d with
  | nil => exact ⟨rfl, rfl⟩
  | cons pd next ih =>
    by_cases hready : tblReady inQ d.tbl pd d.idx
    · by_cases hnext : next = []
      · subst hnext
        rw [traverseTables_last hready]
        exact ⟨rfl, rfl⟩
      · rw [traverseTables_next hready hnext]
        dsimp only
        split_ifs
        · exact ih { d with idx := decIdx d.idx (d.tbl pd).pdDelta }
        · exact ih { d with idx := decIdx d.idx (d.tbl pd).pdDelta }
    · rw [traverseTables_notReady hready]
      exact ⟨rfl, rfl⟩

end Tables

variable {val idx : ℕ} {p : PipelineDelay} {pds : List PipelineDelay}

theorem decIdx_eq_mod {step : ℕ} (hval : val < 48) (hstep : step ≤ 48) :
    decIdx val step = (val + 48 - step) % 48 := by
  rw [decIdx_eq]
  split_ifs
  · rw [Nat.mod_eq_of_lt (by omega)]
    omega
  · omega

theorem decIdx_decIdx {a b : ℕ} (hval : val < 48) (hab : a + b ≤ 48) :
    decIdx (decIdx val a) b = decIdx val (a + b) := by
  rw [decIdx_eq_mod (decIdx_lt hval) (by omega), decIdx_eq_mod hval (by omega),
    decIdx_eq_mod hval hab]
  omega

variable {pd : PipelineDelay} {next : List PipelineDelay}

theorem decIdx_pd {next : PipelineDelay} (hidx : idx < 48) (hnext : next < pd)
    (hp : p ≤ next) :
    decIdx (decIdx idx (pd.val - next.val)) (next.val - p.val) = decIdx idx (pd.val - p.val) := by
  have hpd := pd.isLt
  rw [Fin.lt_def] at hnext
  rw [Fin.le_def] at hp
  rw [decIdx_decIdx hidx (by omega)]
  congr 1
  omega

section Chain

variable {inQ : ReqQueue} {validateOnly : Bool}
variable {pd : PipelineDelay} {next : List PipelineDelay}

/-- The traversal succeeds exactly if every table of the chain is ready where it is looked at. -/
theorem traverseTables_ready {d : TraverseData}
    (hspaced : Spaced d.tbl (pd :: next)) (hidx : d.idx < 48) :
    (traverseTables inQ validateOnly (pd :: next) d).1 = 0 ↔
      ∀ p ∈ pd :: next, tblReady inQ d.tbl p (decIdx d.idx (pd.val - p.val)) := by
  have hself : decIdx d.idx (pd.val - pd.val) = d.idx := by
    rw [Nat.sub_self, decIdx_eq_mod hidx (Nat.zero_le _)]
    omega
  induction next generalizing pd d with
  | nil =>
    by_cases hready : tblReady inQ d.tbl pd d.idx
    · rw [traverseTables_last hready]
      refine ⟨fun _ p hp => ?_, fun _ => rfl⟩
      obtain rfl := List.mem_singleton.mp hp
      rwa [hself]
    · rw [traverseTables_notReady hready]
      refine ⟨fun h => absurd h (show eAgain ≠ 0 by decide), fun h => absurd ?_ hready⟩
      have hpd := h pd (List.mem_singleton_self pd)
      rwa [hself] at hpd
  | cons n rest ih =>
    obtain ⟨hdelta, hlt, hrest⟩ := hspaced
    by_cases hready : tblReady inQ d.tbl pd d.idx
    · rw [traverseTables_next hready (List.cons_ne_nil n rest)]
      have hidx' : decIdx d.idx (d.tbl pd).pdDelta < 48 := decIdx_lt hidx
      have hih := ih (d := { d with idx := decIdx d.idx (d.tbl pd).pdDelta }) hrest hidx' (by
        rw [Nat.sub_self, decIdx_eq_mod hidx' (Nat.zero_le _)]
        dsimp only
        omega)
      have hplaces : (∀ p ∈ n :: rest, tblReady inQ d.tbl p
            (decIdx (decIdx d.idx (d.tbl pd).pdDelta) (n.val - p.val))) ↔
          ∀ p ∈ pd :: n :: rest, tblReady inQ d.tbl p (decIdx d.idx (pd.val - p.val)) := by
        have hle : ∀ p ∈ n :: rest, p ≤ n := by
          intro p hp
          rcases List.mem_cons.mp hp with rfl | hp
          · exact le_refl _
          · exact (hrest.head_lt p hp).le
        rw [List.forall_mem_cons (a := pd), hself, and_iff_right hready]
        refine forall₂_congr fun p hp => ?_
        rw [hdelta, decIdx_pd hidx hlt (hle p hp)]
      refine Iff.trans ?_ (hih.trans hplaces)
      dsimp only
      split_ifs with hrc
      · refine ⟨fun _ => ?_, fun _ => rfl⟩
        rcases traverseTables_outcome inQ validateOnly (n :: rest)
          { d with idx := decIdx d.idx (d.tbl pd).pdDelta } with hzero | ⟨hneg, -⟩
        · exact hzero
        · exact absurd hrc (not_le.mpr hneg)
      · exact Iff.rfl
    · rw [traverseTables_notReady hready]
      refine ⟨fun h => absurd h (show eAgain ≠ 0 by decide), fun h => absurd ?_ hready⟩
      have hpd := h pd List.mem_cons_self
      rwa [hself] at hpd

/-- What a traversal that succeeds has done with the tables of a chain, each of them looked at in its
place, and with no others. -/
structure Succeeded (inQ : ReqQueue) (validateOnly : Bool) (l : List PipelineDelay)
    (place : PipelineDelay → ℕ) (d r : TraverseData) : Prop where
  result : ∀ i, r.result.testBit i = true ↔ d.result.testBit i = true ∨ ∃ p ∈ l, p.val = i
  applied : validateOnly = false → ∀ p ∈ l,
    r.applyData p =
        { d.applyData p with
          idx := place p
          reqId := if 0 < (d.tbl p).skipTraverse then -1 else (inQ.slot (place p)).reqId } ∧
      r.tbl p = { d.tbl p with skipTraverse := (d.tbl p).skipTraverse - 1 }
  others : ∀ p, p ∉ l → r.applyData p = d.applyData p ∧ r.tbl p = d.tbl p

theorem Succeeded.none (inQ : ReqQueue) (validateOnly : Bool) (place : PipelineDelay → ℕ)
    (d : TraverseData) : Succeeded inQ validateOnly [] place d d where
  result i := by simp
  applied _ p hp := absurd hp List.not_mem_nil
  others _ _ := ⟨rfl, rfl⟩

theorem Succeeded.cons {l : List PipelineDelay} {place place' : PipelineDelay → ℕ}
    {d r : TraverseData} {pd : PipelineDelay} {idx : ℕ} (h : Succeeded inQ validateOnly l place' d r)
    (hpd : pd ∉ l) (hplace : ∀ p ∈ l, place' p = place p) (hidx : place pd = idx) :
    Succeeded inQ validateOnly (pd :: l) place d (r.succeed inQ validateOnly pd idx) := by
  have hresult : (r.succeed inQ validateOnly pd idx).result = setSuccessBit r.result pd := by
    unfold TraverseData.succeed
    split_ifs <;> rfl
  refine ⟨fun i => ?_, fun hrun p hp => ?_, fun p hp => ?_⟩
  · rw [hresult, setSuccessBit, testBit_or_bit, h.result i]
    simp only [List.mem_cons, exists_eq_or_imp, eq_comm (b := i)]
    rw [or_assoc, or_comm (b := i = pd.val)]
  · subst hrun
    unfold TraverseData.succeed
    obtain ⟨happly, htbl⟩ := h.others pd hpd
    rcases List.mem_cons.mp hp with rfl | hp
    · rw [if_neg (by decide)]
      dsimp only
      rw [update_self, update_self, happly, htbl, hidx]
      exact ⟨rfl, rfl⟩
    · have hne : p ≠ pd := fun he => hpd (he ▸ hp)
      rw [if_neg (by decide)]
      dsimp only
      rw [update_of_ne hne, update_of_ne hne, ← hplace p hp]
      exact h.applied rfl p hp
  · rw [List.mem_cons, not_or] at hp
    have hothers := h.others p hp.2
    unfold TraverseData.succeed
    by_cases hv : validateOnly = true
    · rw [if_pos hv]
      exact hothers
    · rw [if_neg hv]
      dsimp only
      rw [update_of_ne hp.1, update_of_ne hp.1]
      exact hothers

theorem traverseTables_succeeded {d : TraverseData}
    (hspaced : Spaced d.tbl (pd :: next)) (hidx : d.idx < 48)
    (hrc : (traverseTables inQ validateOnly (pd :: next) d).1 = 0) :
    Succeeded inQ validateOnly (pd :: next) (fun p => decIdx d.idx (pd.val - p.val)) d
      (traverseTables inQ validateOnly (pd :: next) d).2 := by
  have hself : decIdx d.idx (pd.val - pd.val) = d.idx := by
    rw [Nat.sub_self, decIdx_eq_mod hidx (Nat.zero_le _)]
    omega
  induction next generalizing pd d with
  | nil =>
    have hready := (traverseTables_ready hspaced hidx).mp hrc pd (List.mem_singleton_self pd)
    rw [hself] at hready
    rw [traverseTables_last hready]
    exact (Succeeded.none inQ validateOnly (fun p => decIdx d.idx (pd.val - p.val)) d).cons
      List.not_mem_nil (fun p hp => absurd hp List.not_mem_nil) hself
  | cons n rest ih =>
    have hready := (traverseTables_ready hspaced hidx).mp hrc pd List.mem_cons_self
    rw [hself] at hready
    have hnotin : pd ∉ n :: rest := fun hmem => lt_irrefl _ (hspaced.head_lt pd hmem)
    obtain ⟨hdelta, hlt, hrest⟩ := hspaced
    rw [traverseTables_next hready (List.cons_ne_nil n rest)] at hrc ⊢
    have hidx' : decIdx d.idx (d.tbl pd).pdDelta < 48 := decIdx_lt hidx
    dsimp only at hrc ⊢
    rcases traverseTables_outcome inQ validateOnly (n :: rest)
      { d with idx := decIdx d.idx (d.tbl pd).pdDelta } with hzero | ⟨hneg, -⟩
    · rw [if_pos hzero.ge]
      have hih := ih (d := { d with idx := decIdx d.idx (d.tbl pd).pdDelta }) hrest hidx' hzero (by
        rw [Nat.sub_self, decIdx_eq_mod hidx' (Nat.zero_le _)]
        dsimp only
        omega)
      refine Succeeded.cons ⟨hih.result, hih.applied, hih.others⟩ hnotin (fun p hp => ?_) hself
      have hle : p ≤ n := by
        rcases List.mem_cons.mp hp with rfl | hp
        · exact le_refl _
        · exact (hrest.head_lt p hp).le
      rw [hdelta, decIdx_pd hidx hlt hle]
    · rw [if_neg (not_le.mpr hneg)] at hrc
      exact absurd hrc hneg.ne

end Chain

theorem traverse_eq_tables {inQ : ReqQueue} {validateOnly : Bool} {l : List PipelineDelay}
    (hl : l ≠ []) (d : TraverseData) :
    traverse inQ validateOnly l d.idx ⟨d.tbl, d.applyData, d.result⟩ =
      let r := traverseTables inQ validateOnly l d
      if r.1 = 0 then some ⟨r.2.tbl, r.2.applyData, r.2.result⟩ else none := by
  have hsucceed (pd : PipelineDelay) (idx : ℕ) (d : TraverseData) :
      Traverse.success inQ validateOnly pd idx ⟨d.tbl, d.applyData, d.result⟩ =
        ⟨(d.succeed inQ validateOnly pd idx).tbl, (d.succeed inQ validateOnly pd idx).applyData,
          (d.succeed inQ validateOnly pd idx).result⟩ := by
    unfold Traverse.success TraverseData.succeed setSuccessBit
    dsimp only
    split_ifs <;> rfl
  induction l generalizing d with
  | nil => exact absurd rfl hl
  | cons pd next ih =>
    rw [traverse]
    by_cases hready : tblReady inQ d.tbl pd d.idx
    · rw [if_pos hready]
      by_cases hnext : next = []
      · subst hnext
        rw [traverseTables_last hready, traverse, Option.map_some, hsucceed, if_pos rfl]
      · rw [traverseTables_next hready hnext]
        have hih := ih hnext { d with idx := decIdx d.idx (d.tbl pd).pdDelta }
        dsimp only at hih
        rw [hih]
        rcases traverseTables_outcome inQ validateOnly next
          { d with idx := decIdx d.idx (d.tbl pd).pdDelta } with hzero | ⟨hneg, -⟩
        · rw [if_pos hzero, if_pos hzero.ge, if_pos rfl, Option.map_some, hsucceed]
        · rw [if_neg hneg.ne, if_neg (not_le.mpr hneg), if_neg hneg.ne]
          rfl
    · rw [if_neg hready, traverseTables_notReady hready, if_neg (show eAgain ≠ 0 by decide)]

theorem checkLinkIsReady_eq_tables (link : Link) (idx : ℕ) (validateOnly : Bool) :
    checkLinkIsReady link idx validateOnly =
      let r := traverseTables link.inQ validateOnly link.lTbl (traverseStart link idx validateOnly)
      (if r.1 = 0 ∧ r.2.result = link.pdMask then 0 else eAgain,
        { link with initialSkip := false, tbl := r.2.tbl, applyData := r.2.applyData }) := by
  unfold checkLinkIsReady
  dsimp only
  by_cases hl : link.lTbl = []
  · rw [if_pos hl, hl, traverseTables]
    rfl
  · rw [if_neg hl]
    have htraverse : traverse link.inQ validateOnly link.lTbl idx
        ⟨link.tbl, if validateOnly then link.applyData else fun _ => {}, 0⟩ = _ :=
      traverse_eq_tables hl (traverseStart link idx validateOnly)
    rw [htraverse]
    rcases traverseTables_outcome link.inQ validateOnly link.lTbl
      (traverseStart link idx validateOnly) with hzero | ⟨hneg, htbl, happly⟩
    · rw [if_pos hzero]
      simp only [hzero, true_and]
    · have hfailed : ¬ ((traverseTables link.inQ validateOnly link.lTbl
          (traverseStart link idx validateOnly)).1 = 0 ∧
            (traverseTables link.inQ validateOnly link.lTbl
              (traverseStart link idx validateOnly)).2.result = link.pdMask) :=
        fun h => hneg.ne h.1
      rw [if_neg hneg.ne, if_neg hfailed, htbl, happly]
      rfl

def addTbls (pds : List PipelineDelay) : List PipelineDelay × (PipelineDelay → ReqTbl) :=
  pds.foldl (fun r pd => addTblToLink pd r.1 (update r.2 pd {})) ([], fun _ => {})

/-- The link has the tables of these delays. What is in them does not matter. -/
structure HasTbls (link : Link) (pds : List PipelineDelay) : Prop where
  nodup : pds.Nodup
  lTbl : link.lTbl = (addTbls pds).1
  pdDelta : ∀ pd, (link.tbl pd).pdDelta = ((addTbls pds).2 pd).pdDelta
  pdMask : link.pdMask = pds.foldl (fun m pd => m ||| 1 <<< pd.val) 0

theorem addTbls_concat (pds : List PipelineDelay) (pd : PipelineDelay) :
    addTbls (pds ++ [pd]) =
      addTblToLink pd (addTbls pds).1 (update (addTbls pds).2 pd {}) := by
  unfold addTbls
  rw [List.foldl_append]
  rfl

theorem mem_addTbls : p ∈ (addTbls pds).1 ↔ p ∈ pds := by
  induction pds using List.reverseRecOn with
  | nil => exact Iff.rfl
  | append_singleton pds pd ih =>
    rw [addTbls_concat, mem_addTblToLink, ih, List.mem_append, List.mem_singleton, or_comm]

theorem spaced_addTbls (h : pds.Nodup) : Spaced (addTbls pds).2 (addTbls pds).1 := by
  induction pds using List.reverseRecOn with
  | nil => trivial
  | append_singleton pds pd ih =>
    obtain ⟨hnodup, -, hdisjoint⟩ := List.nodup_append.mp h
    have hnew : pd ∉ (addTbls pds).1 := fun hmem =>
      hdisjoint pd (mem_addTbls.mp hmem) pd (List.mem_singleton_self pd) rfl
    rw [addTbls_concat]
    refine (Spaced.addTbl (Spaced.congr (fun p hp => ?_) (ih hnodup)) hnew).1
    have hne : p ≠ pd := fun he => hnew (he ▸ hp)
    rw [update_of_ne hne]

theorem testBit_pdMask (pds : List PipelineDelay) (i : ℕ) :
    (pds.foldl (fun m pd => m ||| 1 <<< pd.val) 0).testBit i = true ↔ ∃ p ∈ pds, p.val = i := by
  induction pds using List.reverseRecOn with
  | nil => simp
  | append_singleton pds pd ih =>
    rw [List.foldl_append, List.foldl_cons, List.foldl_nil, testBit_or_bit, ih]
    simp only [List.mem_append, List.mem_singleton, or_and_right, exists_or, exists_eq_left,
      eq_comm (b := i)]

def maxPd (l : List PipelineDelay) : PipelineDelay := l.foldr max 0

theorem maxPd_of_spaced {tbl : PipelineDelay → ReqTbl} (h : Spaced tbl (pd :: next)) : maxPd
    (pd :: next) = pd := by
  have hle : ∀ l : List PipelineDelay, (∀ p ∈ l, p < pd) → l.foldr max 0 ≤ pd := by
    intro l hl
    induction l with
    | nil => exact Fin.zero_le pd
    | cons p l ih =>
      exact max_le (hl p List.mem_cons_self).le
        (ih fun q hq => hl q (List.mem_cons_of_mem p hq))
  exact max_eq_left (hle next h.head_lt)

def slotOf (link : Link) (idx : ℕ) (pd : PipelineDelay) : ℕ :=
  (idx + maxReqSlots - ((maxPd link.lTbl).val - pd.val)) % maxReqSlots

theorem slotOf_eq {link : Link}
    (hchain : link.lTbl = pd :: next) (hspaced : Spaced link.tbl (pd :: next))
    (hidx : idx < maxReqSlots) (p : PipelineDelay) :
    slotOf link idx p = decIdx idx (pd.val - p.val) := by
  unfold slotOf
  rw [hchain, maxPd_of_spaced hspaced, decIdx_eq_mod hidx (by omega)]

/-- What the traversal for a slot does with the tables of a link. -/
structure Traverses (link : Link) (idx : ℕ) (validateOnly : Bool) (r : ℤ × TraverseData) :
    Prop where
  ready : r.1 = 0 ↔
    link.lTbl ≠ [] ∧ ∀ pd ∈ link.lTbl, tblReady link.inQ link.tbl pd (slotOf link idx pd)
  result : r.1 = 0 → r.2.result = link.pdMask
  applied : r.1 = 0 → validateOnly = false → ∀ pd ∈ link.lTbl,
    r.2.applyData pd =
        { idx := slotOf link idx pd
          reqId :=
            if 0 < (link.tbl pd).skipTraverse then -1
            else (link.inQ.slot (slotOf link idx pd)).reqId } ∧
      r.2.tbl pd = { link.tbl pd with skipTraverse := (link.tbl pd).skipTraverse - 1 }
  untouched : r.1 ≠ 0 ∨ validateOnly = true →
    r.2.tbl = link.tbl ∧ r.2.applyData = (traverseStart link idx validateOnly).applyData

/-- However a link is set up, and whatever is in its tables and slots, the traversal finds out
whether all tables are ready, and it takes something only then. -/
theorem traverse_link {link : Link} {pds : List PipelineDelay} (hlink : HasTbls link pds) {idx : ℕ}
    (hidx : idx < maxReqSlots) (validateOnly : Bool) :
    Traverses link idx validateOnly
      (traverseTables link.inQ validateOnly link.lTbl (traverseStart link idx validateOnly)) := by
  have hspaced : Spaced link.tbl link.lTbl := by
    rw [hlink.lTbl]
    exact Spaced.congr (fun pd _ => hlink.pdDelta pd) (spaced_addTbls hlink.nodup)
  have huntouched : ∀ r : ℤ × TraverseData,
      r = traverseTables link.inQ validateOnly link.lTbl (traverseStart link idx validateOnly) →
      r.1 ≠ 0 ∨ validateOnly = true →
        r.2.tbl = link.tbl ∧ r.2.applyData = (traverseStart link idx validateOnly).applyData := by
    rintro r rfl (hrc | rfl)
    · rcases traverseTables_outcome link.inQ validateOnly link.lTbl
        (traverseStart link idx validateOnly) with hzero | hfailed
      · exact absurd hzero hrc
      · exact hfailed.2
    · exact traverseTables_validateOnly link.lTbl (traverseStart link idx true)
  refine ⟨?_, ?_, ?_, huntouched _ rfl⟩
  · cases hchain : link.lTbl with
    | nil =>
      rw [traverseTables]
      exact ⟨fun h => absurd h (show eInval ≠ 0 by decide), fun h => absurd rfl h.1⟩
    | cons pd next =>
      rw [hchain] at hspaced
      rw [traverseTables_ready hspaced hidx, and_iff_right (List.cons_ne_nil pd next)]
      refine forall₂_congr fun p _ => ?_
      rw [slotOf_eq hchain hspaced hidx p]
      exact Iff.rfl
  · intro hrc
    refine Nat.eq_of_testBit_eq fun i => Bool.eq_iff_iff.mpr ?_
    rw [hlink.pdMask, testBit_pdMask]
    cases hchain : link.lTbl with
    | nil =>
      rw [hchain, traverseTables] at hrc
      exact absurd hrc (show eInval ≠ 0 by decide)
    | cons pd next =>
      rw [hchain] at hspaced hrc
      rw [(traverseTables_succeeded hspaced hidx hrc).result i, ← hchain, hlink.lTbl]
      simp only [traverseStart, Nat.zero_testBit, Bool.false_eq_true, false_or, mem_addTbls]
  · intro hrc hrun p hp
    cases hchain : link.lTbl with
    | nil =>
      rw [hchain] at hp
      exact absurd hp List.not_mem_nil
    | cons pd next =>
      rw [hchain] at hspaced hrc hp
      rw [slotOf_eq hchain hspaced hidx p]
      have happlied := (traverseTables_succeeded hspaced hidx hrc).applied hrun p hp
      subst hrun
      exact happlied

/-- A link of two delays, of which each table is ready where it is looked at for slot `0`. -/
def twoDelays : Link where
  inQ := { slot := fun i => { reqId := i }, rdIdx := 0, wrIdx := 0, lastAppliedIdx := none }
  lTbl := [2, 0]
  tbl pd :=
    { pdDelta := if pd = 2 then 2 else 0
      slot := fun i => { state := if i = (46 + pd.val) % 48 then .ready else .empty } }
  pdMask := 5

theorem twoDelays_traverses :
    Traverses twoDelays 0 false
      (traverseTables twoDelays.inQ false twoDelays.lTbl (traverseStart twoDelays 0 false)) :=
  have hlink : HasTbls twoDelays [0, 2] := ⟨by decide, rfl, by decide, rfl⟩
  traverse_link hlink (by decide) false

/-- A link without devices has no table that is not ready, and is refused. -/
theorem noTbls_refused :
    ∃ link : Link, HasTbls link [] ∧
      (∀ pd ∈ link.lTbl, tblReady link.inQ link.tbl pd (slotOf link 0 pd)) ∧
      (traverseTables link.inQ false link.lTbl (traverseStart link 0 false)).1 ≠ 0 :=
  ⟨{ inQ := setupInQ }, ⟨by decide, rfl, fun _ => rfl, rfl⟩,
    fun _ hpd => absurd hpd List.not_mem_nil, by decide⟩

end KernelModules.Crm
