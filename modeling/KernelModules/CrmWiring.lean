import KernelModules.CrmQueue
import Mathlib.Order.Fin.Basic

/-!
# How the tables of a link are wired up

Setting up a link gives every device a bit in the table of its delay, and chains the tables from
the greatest delay down. No task changes the wiring afterwards.
-/

namespace KernelModules.Crm

open Function

def Spaced (tbl : PipelineDelay → ReqTbl) : List PipelineDelay → Prop
  | [] => True
  | [_] => True
  | pd :: next :: rest =>
    (tbl pd).pdDelta = pd.val - next.val ∧ next < pd ∧ Spaced tbl (next :: rest)

variable {tbl : PipelineDelay → ReqTbl} {l : List PipelineDelay} {pd : PipelineDelay} {link : Link}

theorem Spaced.congr {tbl' : PipelineDelay → ReqTbl}
    (h : ∀ pd ∈ l, (tbl' pd).pdDelta = (tbl pd).pdDelta) (hs : Spaced tbl l) : Spaced tbl' l := by
  induction l with
  | nil => trivial
  | cons pd rest ih =>
    cases rest with
    | nil => trivial
    | cons next rest =>
      refine ⟨?_, hs.2.1, ih (fun p hp => h p (List.mem_cons_of_mem _ hp)) hs.2.2⟩
      rw [h pd List.mem_cons_self]
      exact hs.1

theorem setPdDelta_self (tbl : PipelineDelay → ReqTbl) (pd : PipelineDelay) (delta : ℕ) :
    (setPdDelta tbl pd delta pd).pdDelta = delta := by
  unfold setPdDelta
  rw [update_self]

variable {i new : PipelineDelay} {a b : Link}

theorem setPdDelta_of_ne {delta : ℕ}
    (h : i ≠ pd) : setPdDelta tbl pd delta i = tbl i := update_of_ne h _ _

theorem setPdDelta_rest (tbl : PipelineDelay → ReqTbl) (pd i : PipelineDelay) (delta : ℕ) :
    { setPdDelta tbl pd delta i with pdDelta := 0 } = { tbl i with pdDelta := 0 } := by
  by_cases h : i = pd
  · subst h
    unfold setPdDelta
    rw [update_self]
  · rw [setPdDelta_of_ne h]

theorem addTblToLink_rest (new : PipelineDelay) (l : List PipelineDelay)
    (tbl : PipelineDelay → ReqTbl) (i : PipelineDelay) :
    { (addTblToLink new l tbl).2 i with pdDelta := 0 } = { tbl i with pdDelta := 0 } := by
  induction l with
  | nil => rfl
  | cons pd rest ih =>
    cases rest with
    | nil =>
      rw [addTblToLink]
      split
      · exact setPdDelta_rest ..
      · exact (setPdDelta_rest ..).trans (setPdDelta_rest ..)
    | cons next rest =>
      rw [addTblToLink]
      split
      · exact setPdDelta_rest ..
      split
      · exact ih
      · exact (setPdDelta_rest ..).trans (setPdDelta_rest ..)

theorem mem_addTblToLink (new : PipelineDelay) (l : List PipelineDelay)
    (tbl : PipelineDelay → ReqTbl) (pd : PipelineDelay) :
    pd ∈ (addTblToLink new l tbl).1 ↔ pd = new ∨ pd ∈ l := by
  induction l with
  | nil => simp [addTblToLink]
  | cons head rest ih =>
    cases rest with
    | nil =>
      rw [addTblToLink]
      split
      · simp only [List.mem_cons]
      · simp only [List.mem_cons, List.not_mem_nil, or_false]
        exact or_comm
    | cons next rest =>
      rw [addTblToLink]
      split
      · simp only [List.mem_cons]
      split
      · rw [List.mem_cons, ih, List.mem_cons (b := head)]
        exact or_left_comm
      · rw [List.mem_cons, List.mem_cons, List.mem_cons (b := head)]
        exact or_left_comm

theorem addTblToLink_ne (hn : i ≠ new) (hl : i ∉ l) : (addTblToLink new l tbl).2 i = tbl i := by
  induction l with
  | nil => rfl
  | cons pd rest ih =>
    have hpd : i ≠ pd := fun h => hl (h ▸ List.mem_cons_self)
    cases rest with
    | nil =>
      rw [addTblToLink]
      split
      · exact setPdDelta_of_ne hn
      · exact (setPdDelta_of_ne hpd).trans (setPdDelta_of_ne hn)
    | cons next rest =>
      rw [addTblToLink]
      split
      · exact setPdDelta_of_ne hn
      split
      · exact ih fun h => hl (List.mem_cons_of_mem _ h)
      · exact (setPdDelta_of_ne hpd).trans (setPdDelta_of_ne hn)

theorem Spaced.head_lt (h : Spaced tbl (pd :: l)) : ∀ i ∈ l, i < pd := by
  induction l generalizing pd with
  | nil => exact fun i hi => absurd hi List.not_mem_nil
  | cons next rest ih =>
    intro i hi
    rcases List.mem_cons.mp hi with rfl | hi
    · exact h.2.1
    · exact (ih h.2.2 i hi).trans h.2.1

/-- A new table goes in front of the first one with a smaller delay. -/
theorem Spaced.addTbl (h : Spaced tbl l) (hn : new ∉ l) :
    Spaced (addTblToLink new l tbl).2 (addTblToLink new l tbl).1 ∧
      (∀ pd, l.head? = some pd → ¬ pd < new → (addTblToLink new l tbl).1.head? = some pd) := by
  induction l with
  | nil => exact ⟨trivial, fun pd hpd => by cases hpd⟩
  | cons pd rest ih =>
    have hne : new ≠ pd := fun he => hn (he ▸ List.mem_cons_self)
    cases rest with
    | nil =>
      rw [addTblToLink]
      by_cases hlt : pd < new
      · rw [if_pos hlt]
        refine ⟨⟨setPdDelta_self .., hlt, trivial⟩, fun p hp hnl => ?_⟩
        obtain rfl := Option.some.inj hp
        exact absurd hlt hnl
      · rw [if_neg hlt]
        have hlt' : new < pd := lt_of_le_of_ne (not_lt.mp hlt) hne
        exact ⟨⟨setPdDelta_self .., hlt', trivial⟩, fun p hp _ => hp⟩
    | cons next rest =>
      have hne' : new ≠ next :=
        fun he => hn (he ▸ List.mem_cons_of_mem _ List.mem_cons_self)
      rw [addTblToLink]
      by_cases hlt : pd < new
      · rw [if_pos hlt]
        refine ⟨⟨setPdDelta_self .., hlt, ?_⟩, fun p hp hnl => ?_⟩
        · refine Spaced.congr (fun p hp => ?_) h
          have hpn : p ≠ new := by
            rintro rfl
            exact hn hp
          dsimp only
          rw [setPdDelta_of_ne hpn]
        · obtain rfl := Option.some.inj hp
          exact absurd hlt hnl
      rw [if_neg hlt]
      have hlt' : new < pd := lt_of_le_of_ne (not_lt.mp hlt) hne
      by_cases hnext : new < next
      · rw [if_pos hnext]
        obtain ⟨hs, hhead⟩ := ih h.2.2 fun hm => hn (List.mem_cons_of_mem _ hm)
        have hhead := hhead next rfl (not_lt.mpr hnext.le)
        have hpd : pd ∉ next :: rest := fun hm => lt_irrefl _ (h.head_lt pd hm)
        refine ⟨?_, fun p hp _ => hp⟩
        cases hl : (addTblToLink new (next :: rest) tbl).1 with
        | nil =>
          rw [hl] at hhead
          cases hhead
        | cons x xs =>
          rw [hl] at hhead hs
          obtain rfl := Option.some.inj hhead
          refine ⟨?_, h.2.1, hs⟩
          rw [addTblToLink_ne (Ne.symm hne) hpd]
          exact h.1
      · rw [if_neg hnext]
        have hnext' : next < new := lt_of_le_of_ne (not_lt.mp hnext) hne'.symm
        refine ⟨⟨setPdDelta_self .., hlt', ?_, hnext', ?_⟩, fun p hp _ => hp⟩
        · dsimp only
          rw [setPdDelta_of_ne hne, setPdDelta_self]
        · refine Spaced.congr (fun p hp => ?_) h.2.2
          have hpn : p ≠ new := fun he => hn (he ▸ List.mem_cons_of_mem _ hp)
          have hpp : p ≠ pd := fun he => lt_irrefl _ (h.head_lt pd (he ▸ hp))
          dsimp only
          rw [setPdDelta_of_ne hpp, setPdDelta_of_ne hpn]

theorem addTblToLink_head (new : PipelineDelay) (l : List PipelineDelay)
    (tbl : PipelineDelay → ReqTbl) :
    (addTblToLink new l tbl).1.head?.getD 0 = max (l.head?.getD 0) new := by
  cases l with
  | nil => exact (max_eq_right (Fin.zero_le _)).symm
  | cons pd rest =>
    have hhead : (addTblToLink new (pd :: rest) tbl).1.head?.getD 0 =
        if pd < new then new else pd := by
      cases rest with
      | nil =>
        rw [addTblToLink]
        split <;> rfl
      | cons next rest =>
        rw [addTblToLink]
        split
        · rfl
        split <;> rfl
    rw [hhead]
    change _ = max pd new
    by_cases h : pd < new
    · rw [if_pos h, max_eq_right h.le]
    · rw [if_neg h, max_eq_left (not_lt.mp h)]

/-- Every device has a bit of its own in the table of its delay, and the tables that have devices
make up the chain. -/
structure Wired (link : Link) : Prop where
  spaced : Spaced link.tbl link.lTbl
  head : link.lTbl.head?.getD 0 = link.maxDelay
  pdMask : ∀ pd : PipelineDelay, link.pdMask.testBit pd.val = true ↔ pd ∈ link.lTbl
  mem : ∀ dev ∈ link.lDev, dev.pDelay ∈ link.lTbl
  devMask : ∀ pd b, (link.tbl pd).devMask.testBit b = true ↔ b < (link.tbl pd).devCount
  devBit : ∀ dev ∈ link.lDev, dev.devBit < (link.tbl dev.pDelay).devCount
  distinct : link.lDev.Pairwise fun a b => a.pDelay = b.pDelay → a.devBit ≠ b.devBit

theorem testBit_or_bit (m i b : ℕ) :
    (m ||| 1 <<< i).testBit b = true ↔ m.testBit b = true ∨ b = i := by
  rw [Nat.testBit_or, Nat.one_shiftLeft, Nat.testBit_two_pow, Bool.or_eq_true, decide_eq_true_eq,
    eq_comm (a := i)]

/-- The table of a new delay is put into the chain. -/
def withTbl (link : Link) (pd : PipelineDelay) : Link :=
  let r := addTblToLink pd link.lTbl (update link.tbl pd {})
  { link with
    pdMask := link.pdMask ||| 1 <<< pd.val
    lTbl := r.1
    tbl := r.2
    maxDelay := max link.maxDelay pd }

theorem withTbl_tbl (link : Link) (pd i : PipelineDelay) :
    { (withTbl link pd).tbl i with pdDelta := 0 } =
      { update link.tbl pd {} i with pdDelta := 0 } :=
  addTblToLink_rest ..

theorem Wired.withTbl (h : Wired link) (hpd : pd ∉ link.lTbl) : Wired (withTbl link pd) := by
  have htbl := withTbl_tbl link pd
  have hdev : ∀ dev ∈ link.lDev, dev.pDelay ≠ pd := by
    intro dev hd he
    exact hpd (he ▸ h.mem dev hd)
  constructor
  · refine (Spaced.addTbl ?_ hpd).1
    refine Spaced.congr (fun p hp => ?_) h.spaced
    have hne : p ≠ pd := by
      rintro rfl
      exact hpd hp
    rw [update_of_ne hne]
  · exact (addTblToLink_head ..).trans (congrArg (max · pd) h.head)
  · intro p
    refine (testBit_or_bit ..).trans (Iff.trans ?_ (mem_addTblToLink ..).symm)
    rw [h.pdMask p, Fin.val_inj, or_comm]
  · exact fun dev hd => (mem_addTblToLink ..).mpr (.inr (h.mem dev hd))
  · intro p b
    have hp := congrArg ReqTbl.devMask (htbl p)
    have hc := congrArg ReqTbl.devCount (htbl p)
    dsimp only at hp hc
    rw [hp, hc]
    by_cases he : p = pd
    · subst he
      rw [update_self]
      simp only [Nat.zero_testBit, Bool.false_eq_true, Nat.not_lt_zero]
    · rw [update_of_ne he]
      exact h.devMask p b
  · intro dev hd
    have hc := congrArg ReqTbl.devCount (htbl dev.pDelay)
    dsimp only at hc
    rw [hc, update_of_ne (hdev dev hd)]
    exact h.devBit dev hd
  · exact h.distinct

/-- A device is given the next bit of its table. -/
def withDev (link : Link) (info : DevInfo) : Link :=
  let t := link.tbl info.pDelay
  { link with
    lDev := link.lDev ++ [⟨info.devHdl, t.devCount, info.pDelay, info.trigger⟩]
    tbl := update link.tbl info.pDelay
      { t with devCount := t.devCount + 1, devMask := t.devMask ||| 1 <<< t.devCount } }

theorem withDev_tbl (link : Link) (info : DevInfo) (pd : PipelineDelay) :
    (withDev link info).tbl pd =
      if pd = info.pDelay then
        { link.tbl pd with
          devCount := (link.tbl pd).devCount + 1
          devMask := (link.tbl pd).devMask ||| 1 <<< (link.tbl pd).devCount }
      else link.tbl pd := by
  refine (update_apply ..).trans ?_
  split
  · rename_i h
    rw [h]
  · rfl

theorem withDev_devCount (link : Link) (info : DevInfo) (pd : PipelineDelay) :
    ((withDev link info).tbl pd).devCount =
      (link.tbl pd).devCount + if pd = info.pDelay then 1 else 0 := by
  rw [withDev_tbl]
  split <;> rfl

theorem Wired.withDev (h : Wired link) {info : DevInfo}
    (hm : info.pDelay ∈ link.lTbl) : Wired (withDev link info) := by
  constructor
  · refine Spaced.congr (fun pd _ => ?_) h.spaced
    rw [withDev_tbl]
    split <;> rfl
  · exact h.head
  · exact h.pdMask
  · intro dev hd
    rcases List.mem_append.mp hd with hd | hd
    · exact h.mem dev hd
    · rw [List.mem_singleton.mp hd]
      exact hm
  · intro pd b
    rw [withDev_tbl]
    split
    · dsimp only
      rw [testBit_or_bit, h.devMask]
      omega
    · exact h.devMask pd b
  · intro dev hd
    rw [withDev_devCount]
    rcases List.mem_append.mp hd with hd | hd
    · have := h.devBit dev hd
      omega
    · rw [List.mem_singleton.mp hd, if_pos rfl]
      exact Nat.lt_succ_self _
  · refine List.pairwise_append.mpr ⟨h.distinct, List.pairwise_singleton .., ?_⟩
    intro a ha b hb hp
    rw [List.mem_singleton.mp hb] at hp ⊢
    have hlt := h.devBit a ha
    rw [hp] at hlt
    exact Nat.ne_of_lt hlt

theorem Wired.le_maxDelay (h : Wired link) (hm : pd ∈ link.lTbl) : pd ≤ link.maxDelay := by
  have hs := h.spaced
  rw [← h.head]
  cases hl : link.lTbl with
  | nil =>
    rw [hl] at hm
    cases hm
  | cons head rest =>
    rw [hl] at hm hs
    rcases List.mem_cons.mp hm with rfl | hm
    · exact le_rfl
    · exact (hs.head_lt pd hm).le

theorem setupDevice_eq (h : Wired link) (info : DevInfo) :
    setupDevice link info =
      if info.pDelay ∈ link.lTbl then withDev link info
      else withDev (withTbl link info.pDelay) info := by
  unfold setupDevice
  dsimp only
  by_cases hm : info.pDelay ∈ link.lTbl
  · rw [if_pos hm, if_pos ((h.pdMask _).mpr hm), if_neg (not_lt.mpr (h.le_maxDelay hm))]
    rfl
  · rw [if_neg hm, if_neg fun hc => hm ((h.pdMask _).mp hc)]
    unfold withDev withTbl
    congr 1
    by_cases hlt : link.maxDelay < info.pDelay
    · rw [if_pos hlt, max_eq_right hlt.le]
    · rw [if_neg hlt, max_eq_left (not_lt.mp hlt)]

theorem Wired.setupDevice (h : Wired link) (info : DevInfo) : Wired (setupDevice link info) := by
  rw [setupDevice_eq h]
  by_cases hm : info.pDelay ∈ link.lTbl
  · rw [if_pos hm]
    exact h.withDev hm
  · rw [if_neg hm]
    exact (h.withTbl hm).withDev ((mem_addTblToLink ..).mpr (.inl rfl))

theorem Wired.setupDevices (h : Wired link) (infos : List DevInfo) :
    Wired (infos.foldl Crm.setupDevice link) := by
  induction infos generalizing link with
  | nil => exact h
  | cons info infos ih => exact ih (h.setupDevice info)

structure SameWiring (link link' : Link) : Prop where
  lDev : link'.lDev = link.lDev
  maxDelay : link'.maxDelay = link.maxDelay
  pdMask : link'.pdMask = link.pdMask
  subscribeEvent : link'.subscribeEvent = link.subscribeEvent
  lTbl : link'.lTbl = link.lTbl
  shape : SameShape link.tbl link'.tbl

theorem SameWiring.refl (link : Link) : SameWiring link link :=
  ⟨rfl, rfl, rfl, rfl, rfl, SameShape.refl _⟩

theorem SameWiring.symm (h : SameWiring a b) : SameWiring b a :=
  ⟨h.lDev.symm, h.maxDelay.symm, h.pdMask.symm, h.subscribeEvent.symm, h.lTbl.symm, h.shape.symm⟩

theorem SameWiring.trans {c : Link} (h : SameWiring a b) (k : SameWiring b c) : SameWiring a c :=
  ⟨k.lDev.trans h.lDev, k.maxDelay.trans h.maxDelay, k.pdMask.trans h.pdMask,
    k.subscribeEvent.trans h.subscribeEvent, k.lTbl.trans h.lTbl, h.shape.trans k.shape⟩

theorem SameWiring.wired {link link' : Link} (h : SameWiring link link') (w : Wired link) :
    Wired link' := by
  constructor
  · rw [h.lTbl]
    exact Spaced.congr (fun pd _ => h.shape.pdDelta pd) w.spaced
  · rw [h.lTbl, h.maxDelay]
    exact w.head
  · intro pd
    rw [h.pdMask, h.lTbl]
    exact w.pdMask pd
  · rw [h.lDev, h.lTbl]
    exact w.mem
  · intro pd b
    rw [h.shape.devMask, h.shape.devCount]
    exact w.devMask pd b
  · intro dev hd
    rw [h.lDev] at hd
    rw [h.shape.devCount]
    exact w.devBit dev hd
  · rw [h.lDev]
    exact w.distinct

theorem Held.sameWiring {link' : Link} (h : Held link link') : SameWiring link link' :=
  ⟨h.lDev, h.maxDelay, h.pdMask, h.subscribeEvent, h.lTbl, h.shape⟩

theorem resetReqSlot_wiring (link : Link) (idx : ℕ) : SameWiring link (resetReqSlot link idx) := by
  unfold resetReqSlot
  split
  · exact SameWiring.refl link
  · exact ⟨rfl, rfl, rfl, rfl, rfl, fun _ => rfl, fun _ => rfl, fun _ => rfl⟩

theorem finishReq_wiring (link : Link) (syncLink : Option Link) :
    SameWiring link (finishReq link syncLink) := by
  have h := resetReqSlot_wiring
    { link with
      triggerMask := 0
      inQ := link.inQ.applied }
    (decIdx link.inQ.rdIdx (resetStep link syncLink + 1))
  exact ⟨h.lDev, h.maxDelay, h.pdMask, h.subscribeEvent, h.lTbl, h.shape⟩

theorem applyReq_wiring (link : Link) (env : Env) (trigger : ℕ) :
    SameWiring link (applyReq link env trigger).1 := by
  have h := (sendReq_held link env.applyRc trigger).sameWiring
  have hset : ∀ (l : Link) (cnt mask : ℕ) (state : LinkState) (skip : Bool), SameWiring l
      { l with retryCnt := cnt, triggerMask := mask, state := state, syncLinkSofSkip := skip } :=
    fun _ _ _ _ _ => ⟨rfl, rfl, rfl, rfl, rfl, SameShape.refl _⟩
  unfold applyReq
  dsimp only
  split
  · refine h.trans ?_
    unfold retryReq
    dsimp only
    split <;> exact ⟨rfl, rfl, rfl, rfl, rfl, SameShape.refl _⟩
  · split
    · exact (h.trans (hset ..)).trans (finishReq_wiring ..)
    · exact h.trans (hset ..)

theorem processReq_wiring (link : Link) (env : Env) (trigger sofTimestamp : ℕ) :
    SameWiring link (processReq link env trigger sofTimestamp).1 := by
  have hsof : SameWiring link
      { link with prevSofTimestamp := link.sofTimestamp, sofTimestamp := sofTimestamp } :=
    ⟨rfl, rfl, rfl, rfl, rfl, SameShape.refl _⟩
  unfold processReq
  split
  · exact SameWiring.refl link
  split
  · exact SameWiring.refl link
  split
  · split
    · exact SameWiring.refl link
    · exact applyReq_wiring ..
  dsimp only
  split
  · exact hsof
  have hc := hsof.trans (checkReq_held
    { link with prevSofTimestamp := link.sofTimestamp, sofTimestamp := sofTimestamp }
    env.syncLink).sameWiring
  split
  · exact ⟨hc.lDev, hc.maxDelay, hc.pdMask, hc.subscribeEvent, hc.lTbl, hc.shape⟩
  · exact hc.trans (applyReq_wiring ..)

theorem processTrigger_wiring (link : Link) (n : TriggerNotify) (env : Env) :
    SameWiring link (processTrigger link n env).1 := by
  have hq : ∀ (l : Link) (q : ReqQueue), SameWiring l { l with inQ := q } :=
    fun _ _ => ⟨rfl, rfl, rfl, rfl, rfl, SameShape.refl _⟩
  have hdone : SameWiring link (resetDoneSlot link n) := by
    unfold resetDoneSlot
    split
    · split
      · exact SameWiring.refl link
      · split
        · exact (hq ..).trans (resetReqSlot_wiring ..)
        · exact resetReqSlot_wiring ..
    · exact SameWiring.refl link
  refine hdone.trans ?_
  unfold processTrigger
  generalize resetDoneSlot link n = l
  dsimp only
  split
  · exact SameWiring.refl l
  split
  · have hnext : SameWiring l (checkNextReqSlot l).2 := by
      unfold checkNextReqSlot
      dsimp only
      split
      · split
        · exact SameWiring.refl l
        · exact hq ..
      · exact SameWiring.refl l
    split
    · exact hnext.trans (hq ..)
    · exact (hnext.trans (hq ..)).trans (processReq_wiring ..)
  · exact processReq_wiring ..

theorem step_wiring (link : Link) (input : Input) : SameWiring link (machine.step link input).1 := by
  have hset : ∀ (l : Link) (q : ReqQueue) (cnt : ℤ) (state : LinkState) (id : ℕ) (req : ℤ),
      SameWiring l { l with
        inQ := q, openReqCnt := cnt, state := state, lastFlushId := id, initialSyncReq := req } :=
    fun _ _ _ _ _ _ => ⟨rfl, rfl, rfl, rfl, rfl, SameShape.refl _⟩
  cases input with
  | schedule r f synced =>
    simp only [machine, scheduleRequest, processSchedReq]
    split
    · exact SameWiring.refl link
    split
    · split <;> exact hset ..
    · exact hset ..
  | addReq r => exact (processAddReq_held link r).sameWiring
  | trigger n env => exact processTrigger_wiring ..
  | error e env =>
    simp only [machine, processError]
    split
    · exact SameWiring.refl link
    · refine SameWiring.trans ?_ (processReq_wiring ..)
      exact (tblSetAllSkipCnt_held link).sameWiring.trans (hset ..)
  | flush f =>
    simp only [machine, processFlushReq, cancelReq]
    cases f.type with
    | all => exact ⟨rfl, rfl, rfl, rfl, rfl, fun _ => rfl, fun _ => rfl, fun _ => rfl⟩
    | cancelReq =>
      cases findSlotForReq link.inQ f.reqId with
      | none => exact SameWiring.refl link
      | some idx =>
        by_cases hs : (link.inQ.slot idx).status = .reqPending ∨
            (link.inQ.slot idx).status = .reqApplied
        · dsimp only
          rw [if_pos hs]
          exact SameWiring.refl link
        · dsimp only
          rw [if_neg hs]
          exact hset link (link.inQ.cancelled idx) ..
  | stop => exact ⟨rfl, rfl, rfl, rfl, rfl, fun _ => rfl, fun _ => rfl, fun _ => rfl⟩
  | syncConfig peerMaxDelay =>
    cases peerMaxDelay <;> exact ⟨rfl, rfl, rfl, rfl, rfl, SameShape.refl _⟩
  | linkControl activate => exact ⟨rfl, rfl, rfl, rfl, rfl, SameShape.refl _⟩
  | peer w => exact (peerWrite_held w link).sameWiring

theorem run_wiring (link : Link) (inputs : List Input) :
    SameWiring link (machine.run link inputs).1 := by
  refine machine.invariant (I := SameWiring link) (fun l input h => ?_) inputs (SameWiring.refl link)
  exact h.trans (step_wiring l input)

theorem wired_setupLinkInfo (infos : List DevInfo) : Wired (setupLinkInfo infos) := by
  have h₀ : Wired { inQ := setupInQ, subscribeEvent := infos.foldl (fun m i => m ||| i.trigger) 0 } := by
    constructor
    · trivial
    · rfl
    · intro pd
      simp only [Nat.zero_testBit, Bool.false_eq_true, List.not_mem_nil]
    · exact fun dev hd => absurd hd List.not_mem_nil
    · intro pd b
      simp only [Nat.zero_testBit, Bool.false_eq_true, Nat.not_lt_zero]
    · exact fun dev hd => absurd hd List.not_mem_nil
    · exact List.Pairwise.nil
  have h := ((tblSetAllSkipCnt_held _).sameWiring).wired (h₀.setupDevices infos)
  exact ⟨h.spaced, h.head, h.pdMask, h.mem, h.devMask, h.devBit, h.distinct⟩

theorem wired_run (infos : List DevInfo) (inputs : List Input) :
    Wired (machine.run (setupLinkInfo infos) inputs).1 :=
  (run_wiring ..).wired (wired_setupLinkInfo infos)

theorem devCount_setupDevices (link : Link) (infos : List DevInfo) (pd : PipelineDelay) :
    ((infos.foldl setupDevice link).tbl pd).devCount ≤
      (link.tbl pd).devCount + infos.countP (pd = ·.pDelay) := by
  induction infos generalizing link with
  | nil => exact le_rfl
  | cons info infos ih =>
    have hstep : ((setupDevice link info).tbl pd).devCount ≤
        (link.tbl pd).devCount + if pd = info.pDelay then 1 else 0 := by
      have htbl := congrArg ReqTbl.devCount (withTbl_tbl link info.pDelay pd)
      unfold setupDevice
      dsimp only at htbl ⊢
      split
      · exact (withDev_devCount link info pd).le
      · refine (withDev_devCount (withTbl link info.pDelay) info pd).trans_le ?_
        rw [htbl, update_apply]
        split <;> simp
    have hrest := ih (setupDevice link info)
    rw [List.countP_cons]
    simp only [decide_eq_true_eq, List.foldl_cons]
    omega

/-- In every run each device has a bit of its own in the mask of a table of the chain. A mask has 32
bits, so that no more devices may have the same delay. -/
theorem devices_apart (infos : List DevInfo) (hfew : ∀ pd, infos.countP (pd = ·.pDelay) ≤ 32)
    (inputs : List Input) :
    let link := (machine.run (setupLinkInfo infos) inputs).1
    (∀ dev ∈ link.lDev, dev.pDelay ∈ link.lTbl ∧ dev.devBit < 32 ∧
        (link.tbl dev.pDelay).devMask.testBit dev.devBit = true) ∧
      link.lDev.Pairwise fun a b => a.pDelay = b.pDelay → a.devBit ≠ b.devBit := by
  have h := wired_run infos inputs
  refine ⟨fun dev hdev => ⟨h.mem dev hdev, ?_, ?_⟩, h.distinct⟩
  · refine (h.devBit dev hdev).trans_le ?_
    rw [(run_wiring ..).shape.devCount]
    exact ((tblSetAllSkipCnt_held _).shape.devCount _).trans_le
      ((devCount_setupDevices ..).trans ((zero_add _).trans_le (hfew _)))
  · exact (h.devMask _ _).mpr (h.devBit dev hdev)

theorem devices_apart_two :
    (setupLinkInfo [⟨10, 2, sof⟩, ⟨11, 2, sof⟩]).lDev.Pairwise fun a b =>
      a.pDelay = b.pDelay → a.devBit ≠ b.devBit :=
  (devices_apart [⟨10, 2, sof⟩, ⟨11, 2, sof⟩] (by decide) []).2

end KernelModules.Crm
