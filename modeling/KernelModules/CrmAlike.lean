import KernelModules.CrmRequests
import KernelModules.CrmWiring
import Mathlib.Data.List.Find

/-!
# Links that go on in the same way

Two links with the same devices go on in the same way when they hold the same requests, and their
tables agree on what is read of them. A slot of a table that no device has added to is dead:
whether its device was let through is only read once all devices of the table have added a
request.

Checking a request and sending it keep two such links alike, and make the same calls.
-/

namespace KernelModules.Crm

open Function

def AppliedAgree (a b : TblSlot) : Prop :=
  b.isApplied = a.isApplied ∧ (a.isApplied = true → b.devHdl = a.devHdl)

structure SlotAlike (a b : TblSlot) : Prop where
  reqReadyMap : b.reqReadyMap = a.reqReadyMap
  state : b.state = a.state
  injectDelay : b.injectDelay = a.injectDelay
  skipNextFrame : b.skipNextFrame = a.skipNextFrame
  devHdl : a.skipNextFrame = true → b.devHdl = a.devHdl
  live : a.state ≠ .empty → AppliedAgree a b

structure TblsAlike (a b : PipelineDelay → ReqTbl) : Prop where
  shape : SameShape a b
  skipTraverse : ∀ pd, (b pd).skipTraverse = (a pd).skipTraverse
  slot : ∀ pd i, SlotAlike ((a pd).slot i) ((b pd).slot i)

def Unapplied (q : ReqQueue) : Prop :=
  ∀ i, (q.slot i).status = .noReq ∨
    ((q.slot i).status ≠ .reqApplied ∧ 0 < (q.slot i).reqId)

structure QueueAlike (q q' : ReqQueue) : Prop where
  slot : q'.slot = q.slot
  rdIdx : q'.rdIdx = q.rdIdx
  wrIdx : q'.wrIdx = q.wrIdx
  last : q'.lastAppliedIdx = q.lastAppliedIdx ∨ Unapplied q
  skipped : ∀ i, (q.slot i).skipIdx = true → (q.slot i).reqId < 0

structure SyncAgree (s t : Link) : Prop where
  isMaster : t.isMaster = s.isMaster
  initialSkip : t.initialSkip = s.initialSkip
  inMsyncMode : t.inMsyncMode = s.inMsyncMode

def Link.inactive (link : Link) : Prop := link.state = .available ∨ link.state = .idle
deriving Decidable

def Sendable (s t : Link) : Prop :=
  ∀ dev ∈ s.lDev, t.applyData dev.pDelay = s.applyData dev.pDelay ∧
    (0 ≤ (s.applyData dev.pDelay).reqId → AppliedAgree (s.tblSlot dev) (t.tblSlot dev))

/-- `synced` is whether the links have sync links. -/
structure Alike (synced : Prop) (s t : Link) : Prop where
  wired : Wired s
  wiring : SameWiring s t
  inQ : QueueAlike s.inQ t.inQ
  tbls : TblsAlike s.tbl t.tbl
  triggerMask : t.triggerMask = s.triggerMask
  inactive : t.inactive ↔ s.inactive
  lastFlushId : t.lastFlushId = s.lastFlushId
  sync : synced → SyncAgree s t

/-- What was picked up at the start of a frame is sent again at its end. -/
structure Resumed (synced : Prop) (s t : Link) : Prop extends Alike synced s t where
  sent : s.triggerMask &&& sof ≠ 0 → Sendable s t

theorem TblsAlike.update {a b : PipelineDelay → ReqTbl} (h : TblsAlike a b) {pd : PipelineDelay}
    {t t' : ReqTbl} (hs : SameShape (update a pd t) (update b pd t'))
    (hk : t'.skipTraverse = t.skipTraverse) (ht : ∀ i, SlotAlike (t.slot i) (t'.slot i)) :
    TblsAlike (update a pd t) (update b pd t') := by
  refine ⟨hs, fun p => ?_, fun p i => ?_⟩
  · by_cases hp : p = pd
    · rw [hp, update_self, update_self, hk]
    · rw [update_of_ne hp, update_of_ne hp, h.skipTraverse]
  · by_cases hp : p = pd
    · rw [hp, update_self, update_self]
      exact ht i
    · rw [update_of_ne hp, update_of_ne hp]
      exact h.slot p i

theorem setSlot_slot_tbl (t : ReqTbl) (idx i : ℕ) (slot : TblSlot) :
    (t.setSlot idx slot).slot i = if i = idx then slot else t.slot i := by
  simp only [ReqTbl.setSlot, update_apply]

def setTbl (tbl : PipelineDelay → ReqTbl) (pd : PipelineDelay) (idx : ℕ) (slot : TblSlot) :
    PipelineDelay → ReqTbl :=
  update tbl pd ((tbl pd).setSlot idx slot)

theorem setTbl_slot (tbl : PipelineDelay → ReqTbl) (pd p : PipelineDelay) (idx i : ℕ)
    (slot : TblSlot) :
    (setTbl tbl pd idx slot p).slot i = if p = pd ∧ i = idx then slot else (tbl p).slot i := by
  unfold setTbl
  by_cases hp : p = pd
  · subst hp
    rw [update_self, setSlot_slot_tbl]
    simp only [true_and]
  · rw [update_of_ne hp, if_neg fun h => hp h.1]

theorem setTbl_shape (tbl : PipelineDelay → ReqTbl) (pd : PipelineDelay) (idx : ℕ)
    (slot : TblSlot) : SameShape tbl (setTbl tbl pd idx slot) := SameShape.update rfl rfl rfl

variable {a b : PipelineDelay → ReqTbl} {x y : PipelineDelay → Apply}

theorem TblsAlike.set (h : TblsAlike a b) (pd : PipelineDelay)
    (idx : ℕ) {x y : TblSlot} (hs : SlotAlike x y) :
    TblsAlike (setTbl a pd idx x) (setTbl b pd idx y) := by
  refine h.update ?_ (h.skipTraverse pd) fun i => ?_
  · exact ((setTbl_shape a pd idx x).symm.trans h.shape).trans (setTbl_shape b pd idx y)
  · rw [setSlot_slot_tbl, setSlot_slot_tbl]
    split
    · exact hs
    · exact h.slot pd i

variable {pd : PipelineDelay} {idx : ℕ} {q q' : ReqQueue} {pds : List PipelineDelay}
variable {skip skip' initial initial' msync msync' : Bool} {req req' : ℤ}

theorem AppliedAgree.set {p : PipelineDelay} {i : ℕ}
    {x y : TblSlot} (h : AppliedAgree ((a p).slot i) ((b p).slot i)) (hs : AppliedAgree x y) :
    AppliedAgree ((setTbl a pd idx x p).slot i) ((setTbl b pd idx y p).slot i) := by
  rw [setTbl_slot, setTbl_slot]
  split
  · exact hs
  · exact h

theorem injectDelayFrom_alike (pds : List PipelineDelay) (idx : ℕ) (h : TblsAlike a b) :
    (injectDelayFrom pds idx b).1 = (injectDelayFrom pds idx a).1 ∧
      TblsAlike (injectDelayFrom pds idx a).2 (injectDelayFrom pds idx b).2 := by
  induction pds generalizing idx a b with
  | nil => exact ⟨rfl, h⟩
  | cons pd next ih =>
    have hs := h.slot pd idx
    rw [injectDelayFrom, injectDelayFrom, hs.injectDelay, h.shape.pdDelta]
    by_cases hd : 0 < ((a pd).slot idx).injectDelay
    · simp only [if_pos hd]
      obtain ⟨-, ht⟩ := ih (decIdx idx (a pd).pdDelta) (h.set pd idx
        (x := { (a pd).slot idx with injectDelay := ((a pd).slot idx).injectDelay - 1 })
        (y := { (b pd).slot idx with injectDelay := ((a pd).slot idx).injectDelay - 1 })
        ⟨hs.reqReadyMap, hs.state, rfl, hs.skipNextFrame, hs.devHdl, hs.live⟩)
      exact ⟨trivial, ht⟩
    · simp only [if_neg hd]
      exact ih _ h

theorem tblReady_alike (hq : q'.slot = q.slot)
    (h : TblsAlike a b) (pd : PipelineDelay) (idx : ℕ) :
    tblReady q' b pd idx ↔ tblReady q a pd idx := by
  unfold tblReady
  rw [(h.slot pd idx).state, h.skipTraverse, hq]

variable {v : Bool} {d₀ d : Traverse} {link : Link} {dev : Device}

theorem traverse_tbl_of_notMem (h : traverse q v pds idx d₀ = some d)
    (hpd : pd ∉ pds) : d.tbl pd = d₀.tbl pd ∧ d.applyData pd = d₀.applyData pd := by
  induction pds generalizing idx d with
  | nil =>
    obtain rfl := Option.some.inj h
    exact ⟨rfl, rfl⟩
  | cons p next ih =>
    rw [List.mem_cons, not_or] at hpd
    rw [traverse] at h
    by_cases hr : tblReady q d₀.tbl p idx
    · rw [if_pos hr, Option.map_eq_some_iff] at h
      obtain ⟨d₁, h₁, rfl⟩ := h
      obtain ⟨ht, ha⟩ := ih h₁ hpd.2
      unfold Traverse.success
      split
      · exact ⟨ht, ha⟩
      · dsimp only
        rw [update_of_ne hpd.1, update_of_ne hpd.1]
        exact ⟨ht, ha⟩
    · rw [if_neg hr] at h
      cases h

/-- The traversals agree, and so do the slots of the requests that were picked up. -/
structure PickedAlike (pds : List PipelineDelay) (d d' : Traverse) : Prop where
  result : d'.result = d.result
  tbls : TblsAlike d.tbl d'.tbl
  applyData : d'.applyData = d.applyData
  applied : ∀ pd ∈ pds, 0 ≤ (d.applyData pd).reqId →
    AppliedAgree ((d.tbl pd).slot (d.applyData pd).idx) ((d'.tbl pd).slot (d.applyData pd).idx)

theorem PickedAlike.success {d' : Traverse} (h : PickedAlike pds d d') (hq : QueueAlike q q')
    (hpd : pd ∉ pds) (hr : tblReady q d.tbl pd idx) :
    PickedAlike (pd :: pds) (d.success q false pd idx) (d'.success q' false pd idx) := by
  have hskip := h.tbls.skipTraverse pd
  refine ⟨?_, ?_, ?_, fun p hp hid => ?_⟩
  · exact congrArg (· ||| 1 <<< pd.val) h.result
  · refine h.tbls.update ?_ (congrArg (· - 1) hskip) (h.tbls.slot pd)
    have hs : ∀ tbl : PipelineDelay → ReqTbl, SameShape tbl
        (update tbl pd { tbl pd with skipTraverse := (tbl pd).skipTraverse - 1 }) :=
      fun _ => SameShape.update rfl rfl rfl
    exact ((hs d.tbl).symm.trans h.tbls.shape).trans (hs d'.tbl)
  · change update d'.applyData pd _ = update d.applyData pd _
    rw [h.applyData, hskip, hq.slot]
  · change 0 ≤ (update d.applyData pd _ p).reqId at hid
    change AppliedAgree ((update d.tbl pd _ p).slot (update d.applyData pd _ p).idx)
      ((update d'.tbl pd _ p).slot (update d.applyData pd _ p).idx)
    by_cases he : p = pd
    · subst he
      rw [update_self] at hid
      rw [update_self, update_self, update_self]
      dsimp only at hid ⊢
      by_cases hs : 0 < (d.tbl p).skipTraverse
      · rw [if_pos hs] at hid
        exact absurd hid (by decide)
      · rw [if_neg hs] at hid
        refine (h.tbls.slot p idx).live ?_
        -- The slot holds a request and nothing is skipped, so that all devices have added it.
        rcases hr with hr | hr | hr
        · rw [hr]
          exact ReqState.noConfusion
        · exact absurd (hq.skipped idx hr) (not_lt.mpr hid)
        · exact absurd hr hs
    · rw [update_of_ne he] at hid
      rw [update_of_ne he, update_of_ne he, update_of_ne he]
      exact h.applied p ((List.mem_cons.mp hp).resolve_left he) hid

theorem traverse_alike (hq : QueueAlike q q')
    (hnd : pds.Nodup) (idx : ℕ) {d₀' : Traverse} (h : PickedAlike [] d₀ d₀') :
    Option.Rel (PickedAlike pds) (traverse q false pds idx d₀)
      (traverse q' false pds idx d₀') := by
  induction pds generalizing idx with
  | nil => exact .some h
  | cons pd next ih =>
    obtain ⟨hpd, hnd⟩ := List.nodup_cons.mp hnd
    have ih := ih hnd (decIdx idx (d₀.tbl pd).pdDelta)
    rw [traverse, traverse, h.tbls.shape.pdDelta]
    by_cases hr : tblReady q d₀.tbl pd idx
    · rw [if_pos hr, if_pos ((tblReady_alike hq.slot h.tbls pd idx).mpr hr)]
      cases ht : traverse q false next (decIdx idx (d₀.tbl pd).pdDelta) d₀ with
      | none =>
        rw [ht] at ih
        cases ht' : traverse q' false next (decIdx idx (d₀.tbl pd).pdDelta) d₀' with
        | none => exact .none
        | some d' =>
          rw [ht'] at ih
          cases ih
      | some d =>
        rw [ht] at ih
        cases ht' : traverse q' false next (decIdx idx (d₀.tbl pd).pdDelta) d₀' with
        | none =>
          rw [ht'] at ih
          cases ih
        | some d' =>
          rw [ht'] at ih
          cases ih with
          | some hd =>
            refine .some (hd.success hq hpd ?_)
            unfold tblReady
            rw [(traverse_tbl_of_notMem ht hpd).1]
            exact hr
    · rw [if_neg hr, if_neg fun hc => hr ((tblReady_alike hq.slot h.tbls pd idx).mp hc)]
      exact .none

theorem traverse_validateOnly (q : ReqQueue) (pds : List PipelineDelay) (idx : ℕ)
    (d : Traverse) (applyData : PipelineDelay → Apply) :
    traverse q true pds idx d = (traverse q false pds idx { d with applyData := applyData }).map
      fun d' => { d with result := d'.result } := by
  induction pds generalizing idx with
  | nil => rfl
  | cons pd next ih =>
    rw [traverse, traverse]
    split
    · rw [ih, Option.map_map, Option.map_map]
      rfl
    · rfl

theorem checkLinkIsReady_validateOnly (link : Link) (idx : ℕ) :
    checkLinkIsReady link idx true =
      ((checkLinkIsReady link idx false).1, { link with initialSkip := false }) := by
  unfold checkLinkIsReady
  by_cases hl : link.lTbl = []
  · rw [if_pos hl, if_pos hl]
    rfl
  · rw [if_neg hl, if_neg hl, if_pos rfl, if_neg Bool.false_ne_true,
      traverse_validateOnly _ _ _ _ fun _ => {}]
    cases traverse link.inQ false link.lTbl idx ⟨link.tbl, fun _ => {}, 0⟩ <;> rfl

theorem Spaced.nodup {tbl : PipelineDelay → ReqTbl} {l : List PipelineDelay} (h : Spaced tbl l) :
    l.Nodup := by
  induction l with
  | nil => exact List.nodup_nil
  | cons pd rest ih =>
    refine List.nodup_cons.mpr ⟨fun hm => lt_irrefl _ (h.head_lt pd hm), ?_⟩
    cases rest with
    | nil => exact List.nodup_nil
    | cons next rest => exact ih h.2.2

variable {synced : Prop} {s t : Link}

/-- During a check the links have seen the same frame. -/
structure Checking (synced : Prop) (s t : Link) : Prop extends Alike synced s t where
  sofTimestamp : t.sofTimestamp = s.sofTimestamp

theorem Alike.checked (h : Alike synced s t)
    (ha : SameShape s.tbl a) (ht : TblsAlike a b)
    (hs : synced → initial' = initial ∧ msync' = msync) :
    Alike synced
      { s with
        tbl := a, applyData := x, syncLinkSofSkip := skip, initialSkip := initial
        inMsyncMode := msync, initialSyncReq := req }
      { t with
        tbl := b, applyData := y, syncLinkSofSkip := skip', initialSkip := initial'
        inMsyncMode := msync', initialSyncReq := req' } where
  wired := @SameWiring.wired s _ ⟨rfl, rfl, rfl, rfl, rfl, ha⟩ h.wired
  wiring := ⟨h.wiring.lDev, h.wiring.maxDelay, h.wiring.pdMask, h.wiring.subscribeEvent,
    h.wiring.lTbl, ht.shape⟩
  inQ := h.inQ
  tbls := ht
  triggerMask := h.triggerMask
  inactive := h.inactive
  lastFlushId := h.lastFlushId
  sync hsync := ⟨(h.sync hsync).isMaster, (hs hsync).1, (hs hsync).2⟩

theorem Checking.checked (h : Checking synced s t)
    (ha : SameShape s.tbl a) (ht : TblsAlike a b)
    (hs : synced → initial' = initial ∧ msync' = msync) :
    Checking synced
      { s with
        tbl := a, applyData := x, syncLinkSofSkip := skip, initialSkip := initial
        inMsyncMode := msync, initialSyncReq := req }
      { t with
        tbl := b, applyData := y, syncLinkSofSkip := skip', initialSkip := initial'
        inMsyncMode := msync', initialSyncReq := req' } :=
  ⟨h.toAlike.checked ha ht hs, h.sofTimestamp⟩

theorem Checking.setFlags (h : Checking synced s t)
    (hs : synced → initial' = initial ∧ msync' = msync) :
    Checking synced
      { s with
        applyData := x, syncLinkSofSkip := skip, initialSkip := initial
        inMsyncMode := msync, initialSyncReq := req }
      { t with
        applyData := y, syncLinkSofSkip := skip', initialSkip := initial'
        inMsyncMode := msync', initialSyncReq := req' } :=
  h.checked (SameShape.refl _) h.tbls hs

theorem Checking.flags (h : Checking synced s t) (hs : synced) :
    t.initialSkip = s.initialSkip ∧ t.inMsyncMode = s.inMsyncMode :=
  ⟨(h.sync hs).initialSkip, (h.sync hs).inMsyncMode⟩

theorem injectDelay_alike (h : Checking synced s t) (idx : ℕ) :
    (injectDelay t idx).1 = (injectDelay s idx).1 ∧
      Checking synced (injectDelay s idx).2 (injectDelay t idx).2 := by
  obtain ⟨hrc, ht⟩ := injectDelayFrom_alike s.lTbl idx h.tbls
  have hl : injectDelayFrom t.lTbl idx t.tbl = injectDelayFrom s.lTbl idx t.tbl := by
    rw [h.wiring.lTbl]
  rw [← hl] at hrc ht
  exact ⟨hrc, h.checked (injectDelayFrom_shape ..) ht h.flags⟩

theorem injectDelay_neg (h : (injectDelay link idx).1 ≠ 0) : (injectDelay link idx).1 < 0 := by
  have hfrom : ∀ (pds : List PipelineDelay) (idx : ℕ) (tbl : PipelineDelay → ReqTbl),
      (injectDelayFrom pds idx tbl).1 = 0 ∨ (injectDelayFrom pds idx tbl).1 = eAgain := by
    intro pds
    induction pds with
    | nil => exact fun _ _ => .inl rfl
    | cons pd next ih =>
      intro idx tbl
      rw [injectDelayFrom]
      split
      · exact .inr rfl
      · exact ih ..
  rcases hfrom link.lTbl idx link.tbl with h₀ | h₀
  · exact absurd h₀ h
  · change (injectDelayFrom link.lTbl idx link.tbl).1 < 0
    rw [h₀]
    decide

theorem checkLinkIsReady_neg
    (h : (checkLinkIsReady link idx v).1 ≠ 0) : (checkLinkIsReady link idx v).1 < 0 := by
  have hrc : (checkLinkIsReady link idx v).1 = 0 ∨ (checkLinkIsReady link idx v).1 = eAgain := by
    unfold checkLinkIsReady
    dsimp only
    split
    · exact .inr rfl
    split
    · split
      · exact .inl rfl
      · exact .inr rfl
    · exact .inr rfl
  rw [hrc.resolve_left h]
  decide

theorem checkLinkIsReady_sofSkip (link : Link) (idx : ℕ) (v skip : Bool) :
    (checkLinkIsReady { link with syncLinkSofSkip := skip } idx v).1 =
      (checkLinkIsReady link idx v).1 := by
  unfold checkLinkIsReady
  dsimp only
  split
  · rfl
  · split <;> rfl

/-- What is picked up when the link is ready can be sent. -/
theorem checkLinkIsReady_alike (h : Checking synced s t) (idx : ℕ) :
    (checkLinkIsReady t idx false).1 = (checkLinkIsReady s idx false).1 ∧
      Checking synced (checkLinkIsReady s idx false).2 (checkLinkIsReady t idx false).2 ∧
      ((checkLinkIsReady s idx false).1 = 0 →
        Sendable (checkLinkIsReady s idx false).2 (checkLinkIsReady t idx false).2) := by
  have hpicked : PickedAlike [] ⟨s.tbl, fun _ => {}, 0⟩ ⟨t.tbl, fun _ => {}, 0⟩ :=
    ⟨rfl, h.tbls, rfl, fun pd hpd => absurd hpd List.not_mem_nil⟩
  have htrav : Option.Rel (PickedAlike s.lTbl)
      (traverse s.inQ false s.lTbl idx ⟨s.tbl, fun _ => {}, 0⟩)
      (traverse t.inQ false t.lTbl idx ⟨t.tbl, fun _ => {}, 0⟩) := by
    rw [h.wiring.lTbl]
    exact traverse_alike h.inQ h.wired.spaced.nodup idx hpicked
  have hkept : ∀ rc : ℤ, rc ≠ 0 → (rc = rc ∧ Checking synced
      { s with applyData := fun _ => {}, initialSkip := false }
      { t with applyData := fun _ => {}, initialSkip := false } ∧
      (rc = 0 → Sendable { s with applyData := fun _ => {}, initialSkip := false }
        { t with applyData := fun _ => {}, initialSkip := false })) :=
    fun rc hrc => ⟨rfl, h.setFlags fun hs => ⟨rfl, (h.flags hs).2⟩, fun h₀ => absurd h₀ hrc⟩
  unfold checkLinkIsReady
  by_cases hl : s.lTbl = []
  · have hl' : t.lTbl = [] := h.wiring.lTbl.trans hl
    rw [if_pos hl, if_pos hl']
    exact hkept eAgain (by decide)
  have hl' : t.lTbl ≠ [] := fun he => hl (h.wiring.lTbl.symm.trans he)
  rw [if_neg hl, if_neg hl', if_neg Bool.false_ne_true, if_neg Bool.false_ne_true]
  cases ht : traverse s.inQ false s.lTbl idx ⟨s.tbl, fun _ => {}, 0⟩ with
  | none =>
    rw [ht] at htrav
    cases ht' : traverse t.inQ false t.lTbl idx ⟨t.tbl, fun _ => {}, 0⟩ with
    | none => exact hkept eAgain (by decide)
    | some d' =>
      rw [ht'] at htrav
      cases htrav
  | some d =>
    rw [ht] at htrav
    cases ht' : traverse t.inQ false t.lTbl idx ⟨t.tbl, fun _ => {}, 0⟩ with
    | none =>
      rw [ht'] at htrav
      cases htrav
    | some d' =>
      rw [ht'] at htrav
      cases htrav with
      | some hd =>
        refine ⟨?_, ?_, fun _ dev hdev => ⟨?_, fun hid => ?_⟩⟩
        · dsimp only
          rw [hd.result, h.wiring.pdMask]
        · exact h.checked (traverse_shape _ _ _ _ _ _ ht) hd.tbls
            fun hs => ⟨rfl, (h.flags hs).2⟩
        · exact congrFun hd.applyData _
        · have ha := hd.applied dev.pDelay (h.wired.mem dev hdev) hid
          unfold Link.tblSlot
          dsimp only
          rw [hd.applyData]
          exact ha

/-- Two checks come out alike, and what they let pass can be sent. -/
structure ChecksAlike (synced : Prop) (r r' : ℤ × Link × List Event) : Prop where
  rc : r'.1 = r.1
  events : r'.2.2 = r.2.2
  checking : Checking synced r.2.1 r'.2.1
  sent : ¬ r.1 < 0 → Sendable r.2.1 r'.2.1

theorem eAgain_neg : eAgain < 0 := by decide

theorem eInval_neg : eInval < 0 := by decide

theorem ChecksAlike.refused {rc : ℤ} (hrc : rc < 0) (h : Checking synced s t)
    (events : List Event) : ChecksAlike synced (rc, s, events) (rc, t, events) :=
  ⟨rfl, rfl, h, fun h₀ => absurd hrc h₀⟩

theorem commitSync_alike (h : Checking synced s t)
    (hrc : (checkLinkIsReady s idx false).1 = 0) (events : List Event) :
    ChecksAlike synced (commitSync s idx events) (commitSync t idx events) := by
  obtain ⟨-, hc, hsent⟩ := checkLinkIsReady_alike h idx
  exact ⟨rfl, rfl, hc, fun _ => hsent hrc⟩

theorem ready_of_validated (h : (checkLinkIsReady s idx true).1 = 0) (skip : Bool) :
    (checkLinkIsReady { (checkLinkIsReady s idx true).2 with syncLinkSofSkip := skip } idx
      false).1 = 0 := by
  rw [checkLinkIsReady_sofSkip]
  rw [checkLinkIsReady_validateOnly] at h ⊢
  exact h

theorem validate_alike (h : Checking synced s t) (idx : ℕ) :
    (checkLinkIsReady t idx true).1 = (checkLinkIsReady s idx true).1 ∧
      Checking synced (checkLinkIsReady s idx true).2 (checkLinkIsReady t idx true).2 := by
  rw [checkLinkIsReady_validateOnly, checkLinkIsReady_validateOnly]
  exact ⟨(checkLinkIsReady_alike h idx).1, h.setFlags fun hs => ⟨rfl, (h.flags hs).2⟩⟩

theorem Checking.setSofSkip (h : Checking synced s t) (skip : Bool) :
    Checking synced { s with syncLinkSofSkip := skip } { t with syncLinkSofSkip := skip } :=
  h.setFlags h.flags

theorem checkOwnSlot_alike (h : Checking synced s t) (idx : ℕ) :
    (checkOwnSlot t idx).1 = (checkOwnSlot s idx).1 ∧
      Checking synced (checkOwnSlot s idx).2 (checkOwnSlot t idx).2 := by
  obtain ⟨hrc, hc⟩ := injectDelay_alike h idx
  obtain ⟨hrc', hc'⟩ := validate_alike hc idx
  unfold checkOwnSlot
  dsimp only
  rw [hrc, hrc']
  split
  · exact ⟨rfl, hc.setSofSkip true⟩
  split
  · exact ⟨rfl, hc'.setSofSkip true⟩
  · exact ⟨rfl, hc'⟩

theorem checkOwnSlot_spec (link : Link) (idx : ℕ) :
    (checkOwnSlot link idx).1 < 0 ∨ ((checkOwnSlot link idx).1 = 0 ∧
      (checkLinkIsReady (checkOwnSlot link idx).2 idx false).1 = 0) := by
  unfold checkOwnSlot
  by_cases hd : (injectDelay link idx).1 ≠ 0
  · rw [if_pos hd]
    exact .inl (injectDelay_neg hd)
  rw [if_neg hd]
  by_cases hr : (checkLinkIsReady (injectDelay link idx).2 idx true).1 ≠ 0
  · rw [if_pos hr]
    exact .inl (checkLinkIsReady_neg hr)
  · rw [if_neg hr]
    exact .inr ⟨rfl, ready_of_validated (not_not.mp hr) _⟩

theorem checkSyncSlot_alike (h : Checking synced s t) (syncLink : Link) (syncReqId : ℤ) :
    (checkSyncSlot t syncLink syncReqId).1 = (checkSyncSlot s syncLink syncReqId).1 ∧
      (checkSyncSlot t syncLink syncReqId).2.2 = (checkSyncSlot s syncLink syncReqId).2.2 ∧
      Checking synced (checkSyncSlot s syncLink syncReqId).2.1
        (checkSyncSlot t syncLink syncReqId).2.1 := by
  unfold checkSyncSlot
  split
  · split
    · exact ⟨rfl, rfl, h.setSofSkip true⟩
    split
    · exact ⟨rfl, rfl, h⟩
    dsimp only
    split
    · exact ⟨rfl, rfl, h.setSofSkip true⟩
    · exact ⟨rfl, rfl, h⟩
  · exact ⟨rfl, rfl, h⟩

theorem checkSyncSlot_spec (link syncLink : Link) (syncReqId : ℤ) :
    (checkSyncSlot link syncLink syncReqId).1 < 0 ∨
      ((checkSyncSlot link syncLink syncReqId).1 = 0 ∧
        (checkSyncSlot link syncLink syncReqId).2.1 = link) := by
  unfold checkSyncSlot
  split
  · split
    · exact .inl eInval_neg
    split
    · exact .inl eInval_neg
    dsimp only
    split
    · rename_i hr
      exact .inl (checkLinkIsReady_neg hr.1)
    · exact .inr ⟨rfl, rfl⟩
  · exact .inr ⟨rfl, rfl⟩

theorem checkMslaveReady_alike (h : Checking synced s t) (syncLink : Link) (idx syncIdx : ℕ) :
    ChecksAlike synced (checkMslaveReady s syncLink idx syncIdx)
      (checkMslaveReady t syncLink idx syncIdx) := by
  obtain ⟨hrc, hc⟩ := checkOwnSlot_alike h idx
  obtain ⟨hrc', hev, hc'⟩ := checkSyncSlot_alike hc syncLink (s.inQ.slot syncIdx).reqId
  unfold checkMslaveReady
  dsimp only
  rw [hrc, h.inQ.slot]
  rcases checkOwnSlot_spec s idx with hneg | ⟨hown, hready⟩
  · rw [if_pos hneg.ne, if_pos hneg.ne]
    exact .refused hneg hc []
  rw [hown, if_neg (not_not.mpr rfl), if_neg (not_not.mpr rfl), hrc']
  rcases checkSyncSlot_spec (checkOwnSlot s idx).2 syncLink (s.inQ.slot syncIdx).reqId with
    hneg | ⟨hsync, hlink⟩
  · rw [if_pos hneg.ne, if_pos hneg.ne]
    exact ⟨hrc', hev, hc', fun h₀ => absurd hneg h₀⟩
  · rw [hsync, if_neg (not_not.mpr rfl), if_neg (not_not.mpr rfl), hev]
    refine commitSync_alike hc' ?_ _
    rw [hlink]
    exact hready

theorem checkSyncForMslave_alike (h : Checking synced s t) (hs : synced) (syncLink : Link)
    (idx : ℕ) :
    ChecksAlike synced (checkSyncForMslave s syncLink idx) (checkSyncForMslave t syncLink idx) := by
  obtain ⟨hrc, hc⟩ := injectDelay_alike h idx
  have hslave : Checking synced { s with initialSkip := false } { t with initialSkip := false } :=
    h.setFlags fun hs => ⟨rfl, (h.flags hs).2⟩
  unfold checkSyncForMslave
  dsimp only
  generalize ({ s with initialSkip := false } : Link) = s₁ at hslave ⊢
  generalize ({ t with initialSkip := false } : Link) = t₁ at hslave ⊢
  rw [h.inQ.slot, h.wiring.maxDelay, (h.flags hs).2, (h.sync hs).isMaster, hrc, h.inQ.rdIdx]
  split
  · exact .refused eAgain_neg hc _
  split
  · exact .refused eInval_neg h _
  split
  · split
    · exact .refused eAgain_neg hc _
    · exact checkMslaveReady_alike h ..
  · exact checkMslaveReady_alike hslave ..

theorem selfCorrect_alike (h : Checking synced s t)
    (hrc : ∀ skip, (checkLinkIsReady { s with syncLinkSofSkip := skip } idx false).1 = 0)
    (syncLink : Link) (syncSlotIdx : ℕ) :
    ChecksAlike synced (selfCorrect s syncLink idx syncSlotIdx)
      (selfCorrect t syncLink idx syncSlotIdx) := by
  have hdelta : sofTimestampDelta t syncLink = sofTimestampDelta s syncLink := by
    unfold sofTimestampDelta
    rw [h.sofTimestamp]
  have hcommit := commitSync_alike h (hrc s.syncLinkSofSkip) []
  have hskip := commitSync_alike (h.setSofSkip true) (hrc true) []
  unfold selfCorrect
  dsimp only
  generalize commitSync { t with syncLinkSofSkip := true } idx [] = r at hskip ⊢
  rw [hdelta, h.inQ.slot]
  split
  · split
    · exact .refused eAgain_neg h []
    split
    · exact hskip
    split
    · exact .refused eAgain_neg h []
    · exact hcommit
  · exact hcommit

theorem checkSyncReady_alike (h : Checking synced s t) (rc : ℤ) (syncLink : Link)
    (idx syncSlotIdx : ℕ) :
    ChecksAlike synced (checkSyncReady rc s syncLink idx syncSlotIdx)
      (checkSyncReady rc t syncLink idx syncSlotIdx) := by
  obtain ⟨hrc, hc⟩ := validate_alike h idx
  unfold checkSyncReady
  dsimp only
  rw [hrc, h.sofTimestamp]
  split
  · exact .refused eAgain_neg h []
  split
  · split
    · exact .refused eInval_neg (hc.setSofSkip true) _
    · exact .refused eInval_neg hc _
  split
  · exact .refused eInval_neg hc _
  · rename_i hready
    have hrc₀ : (checkLinkIsReady s idx true).1 = 0 := by
      by_contra hne
      exact hready (decide_eq_false fun h₀ => hne h₀.2)
    have hself := selfCorrect_alike hc (ready_of_validated hrc₀) syncLink syncSlotIdx
    exact ⟨hself.rc, congrArg (_ ++ ·) hself.events, hself.checking, hself.sent⟩

theorem checkSyncReqIsReady_alike (h : Checking synced s t) (hs : synced) (syncLink : Link)
    (idx : ℕ) :
    ChecksAlike synced (checkSyncReqIsReady s syncLink idx) (checkSyncReqIsReady t syncLink idx) := by
  have hflag : Checking synced { s with initialSkip := false } { t with initialSkip := false } :=
    h.setFlags fun hs => ⟨rfl, (h.flags hs).2⟩
  obtain ⟨hrc, hc⟩ := injectDelay_alike hflag idx
  have hskipped : syncFrameSkipped t syncLink (syncFrameDuration syncLink) ↔
      syncFrameSkipped s syncLink (syncFrameDuration syncLink) := by
    unfold syncFrameSkipped
    rw [h.sofTimestamp]
  unfold checkSyncReqIsReady
  dsimp only
  generalize ({ s with initialSkip := false } : Link) = s₁ at hrc hc ⊢
  generalize ({ t with initialSkip := false } : Link) = t₁ at hrc hc ⊢
  rw [(h.flags hs).1, h.inQ.slot, hrc]
  simp only [hskipped]
  split
  · exact .refused eAgain_neg hc []
  split
  · exact .refused eAgain_neg hc []
  split
  · exact .refused eAgain_neg hc _
  split
  · exact .refused eAgain_neg hc []
  · exact checkSyncReady_alike hc ..

theorem leaveMsyncMode_alike (h : Checking synced s t) :
    Checking synced (leaveMsyncMode s) (leaveMsyncMode t) := by
  have hmsync : ∀ link : Link, leaveMsyncMode link =
      { link with
        inMsyncMode := false
        initialSyncReq := if link.inMsyncMode then -1 else link.initialSyncReq } := by
    intro link
    unfold leaveMsyncMode
    cases hm : link.inMsyncMode with
    | false =>
      rw [if_neg Bool.false_ne_true, if_neg Bool.false_ne_true, ← hm]
    | true => rfl
  rw [hmsync, hmsync]
  exact h.setFlags fun hs => ⟨(h.flags hs).1, rfl⟩

theorem checkNoSync_alike (h : Checking synced s t) (events : List Event) :
    ChecksAlike synced ((checkNoSync s).1, (checkNoSync s).2, events)
      ((checkNoSync t).1, (checkNoSync t).2, events) := by
  obtain ⟨hrc, hc⟩ := injectDelay_alike (leaveMsyncMode_alike h) s.inQ.rdIdx
  obtain ⟨hrc', hc', hsent⟩ := checkLinkIsReady_alike hc s.inQ.rdIdx
  unfold checkNoSync
  dsimp only
  rw [h.inQ.rdIdx, hrc]
  by_cases hd : (injectDelay (leaveMsyncMode s) s.inQ.rdIdx).1 ≠ 0
  · rw [if_pos hd, if_pos hd]
    exact ⟨hrc, rfl, hc, fun h₀ => absurd (injectDelay_neg hd) h₀⟩
  · rw [if_neg hd, if_neg hd]
    refine ⟨hrc', rfl, hc', fun h₀ => hsent ?_⟩
    by_contra hne
    exact h₀ (checkLinkIsReady_neg hne)

theorem checkReq_alike (h : Checking synced s t) (syncLink : Option Link)
    (hs : syncLink.isSome = true → synced) :
    ChecksAlike synced (checkReq s syncLink) (checkReq t syncLink) := by
  cases syncLink with
  | none => exact checkNoSync_alike h []
  | some syncLink =>
    have hs := hs rfl
    have hmsync : Checking synced { s with inMsyncMode := true } { t with inMsyncMode := true } :=
      h.setFlags fun hs => ⟨(h.flags hs).1, rfl⟩
    unfold checkReq
    dsimp only
    generalize ({ s with inMsyncMode := true } : Link) = s₁ at hmsync ⊢
    generalize ({ t with inMsyncMode := true } : Link) = t₁ at hmsync ⊢
    rw [h.inQ.slot, h.inQ.rdIdx, (h.flags hs).2, (h.sync hs).isMaster]
    split
    · exact checkNoSync_alike h _
    split
    · exact checkSyncForMslave_alike hmsync hs ..
    · exact checkSyncReqIsReady_alike h hs ..

theorem Sendable.congr {s' t' : Link} (h : Sendable s t) (hdev : s'.lDev = s.lDev)
    (hs : s'.applyData = s.applyData) (ht : t'.applyData = t.applyData)
    (hslot : ∀ pd i, AppliedAgree ((s.tbl pd).slot i) ((t.tbl pd).slot i) →
      AppliedAgree ((s'.tbl pd).slot i) ((t'.tbl pd).slot i)) : Sendable s' t' := by
  intro dev hd
  rw [hdev] at hd
  obtain ⟨he, ha⟩ := h dev hd
  unfold Link.tblSlot at ha ⊢
  rw [hs, ht]
  refine ⟨he, fun hid => ?_⟩
  have ha := ha hid
  rw [he] at ha ⊢
  exact hslot _ _ ha

theorem SlotAlike.setApplied {a b : TblSlot} (h : SlotAlike a b) {applied : Bool}
    (hs : skip' = skip) (hk : skip = true → b.devHdl = a.devHdl)
    (ha : applied = true → b.devHdl = a.devHdl) :
    SlotAlike { a with skipNextFrame := skip, isApplied := applied }
        { b with skipNextFrame := skip', isApplied := applied } ∧
      AppliedAgree { a with skipNextFrame := skip, isApplied := applied }
        { b with skipNextFrame := skip', isApplied := applied } :=
  ⟨⟨h.reqReadyMap, h.state, h.injectDelay, hs, hk, fun _ => ⟨rfl, ha⟩⟩, rfl, ha⟩

theorem setTblSlot_alike (h : Alike synced s t) (hsent : Sendable s t)
    (hdev : dev ∈ s.lDev) {x y : TblSlot} (hs : SlotAlike x y) (ha : AppliedAgree x y) :
    Alike synced (s.setTblSlot dev x) (t.setTblSlot dev y) ∧
      Sendable (s.setTblSlot dev x) (t.setTblSlot dev y) := by
  have hidx : (t.applyData dev.pDelay).idx = (s.applyData dev.pDelay).idx :=
    congrArg Apply.idx (hsent dev hdev).1
  unfold Link.setTblSlot
  rw [hidx]
  constructor
  · exact h.checked (setTbl_shape ..) (h.tbls.set _ _ hs)
      fun hs => ⟨(h.sync hs).initialSkip, (h.sync hs).inMsyncMode⟩
  · exact hsent.congr rfl rfl rfl fun pd i hpd => hpd.set ha

theorem Sendable.slot (hsent : Sendable s t) (h : Alike synced s t)
    (hdev : dev ∈ s.lDev) : SlotAlike (s.tblSlot dev) (t.tblSlot dev) := by
  unfold Link.tblSlot
  rw [(hsent dev hdev).1]
  exact h.tbls.slot ..

theorem sendLoop_alike (applyRc : ℤ → ℤ) (trigger : ℕ) (devs done : List Device) (rc : ℤ)
    (h : Alike synced s t) (hsent : Sendable s t) (hdevs : ∀ dev ∈ devs, dev ∈ s.lDev) :
    let r := sendLoop applyRc trigger done rc devs s
    let r' := sendLoop applyRc trigger done rc devs t
    r'.1 = r.1 ∧ r'.2.2 = r.2.2 ∧ Alike synced r.2.1 r'.2.1 ∧ Sendable r.2.1 r'.2.1 := by
  induction devs generalizing done rc s t with
  | nil => exact ⟨rfl, rfl, h, hsent⟩
  | cons dev devs ih =>
    have hdev := hdevs dev List.mem_cons_self
    have hrest : ∀ d ∈ devs, d ∈ s.lDev := fun d hd => hdevs d (List.mem_cons_of_mem _ hd)
    have happly := (hsent dev hdev).1
    have hskip : skipsDevice t trigger dev ↔ skipsDevice s trigger dev := by
      unfold skipsDevice
      rw [happly]
    rw [sendLoop, sendLoop]
    by_cases hsk : skipsDevice s trigger dev
    · rw [if_pos hsk, if_pos (hskip.mpr hsk)]
      exact ih _ _ h hsent hrest
    rw [if_neg hsk, if_neg fun hc => hsk (hskip.mp hc)]
    have hid : 0 ≤ (s.applyData dev.pDelay).reqId := by
      by_contra hneg
      exact hsk (.inr (.inl (not_le.mp hneg)))
    have hagree := (hsent dev hdev).2 hid
    have hslot := hsent.slot h hdev
    have hlet : ((t.tblSlot dev).devHdl = dev.devHdl ∧ (t.tblSlot dev).isApplied = true) ↔
        ((s.tblSlot dev).devHdl = dev.devHdl ∧ (s.tblSlot dev).isApplied = true) := by
      rw [hagree.1]
      refine and_congr_left fun ha => ?_
      rw [hagree.2 ha]
    dsimp only
    by_cases hl : (s.tblSlot dev).devHdl = dev.devHdl ∧ (s.tblSlot dev).isApplied = true
    · rw [if_pos hl, if_pos (hlet.mpr hl)]
      obtain ⟨hset, happlied⟩ := hslot.setApplied hslot.skipNextFrame hslot.devHdl
        (fun hc : false = true => Bool.noConfusion hc)
      obtain ⟨h', hsent'⟩ := setTblSlot_alike h hsent hdev hset happlied
      exact ih _ _ h' hsent' hrest
    rw [if_neg hl, if_neg fun hc => hl (hlet.mp hc)]
    have hcall : t.applyEvent dev ((t.inQ.slot (t.applyData dev.pDelay).idx).recover) trigger =
        s.applyEvent dev ((s.inQ.slot (s.applyData dev.pDelay).idx).recover) trigger := by
      unfold Link.applyEvent
      rw [happly, h.inQ.slot]
    rw [hcall, happly]
    split
    · exact ⟨rfl, rfl, h, hsent⟩
    · obtain ⟨h₁, h₂, h₃, h₄⟩ := ih (dev :: done) (applyRc dev.devHdl) h hsent hrest
      rw [h₂]
      exact ⟨h₁, rfl, h₃, h₄⟩

theorem sendReq_alike (h : Alike synced s t) (hsent : Sendable s t) (applyRc : ℤ → ℤ)
    (trigger : ℕ) :
    let r := sendReq s applyRc trigger
    let r' := sendReq t applyRc trigger
    r'.1 = r.1 ∧ r'.2.2 = r.2.2 ∧ Alike synced r.2.1 r'.2.1 ∧ Sendable r.2.1 r'.2.1 := by
  have hskips : ∀ dev ∈ s.lDev, skipsNextFrame t trigger dev = skipsNextFrame s trigger dev := by
    intro dev hdev
    have hslot := hsent.slot h hdev
    unfold skipsNextFrame
    rw [hslot.skipNextFrame]
    refine decide_eq_decide.mpr (and_congr_right fun hs => ?_)
    rw [hslot.devHdl hs]
  unfold sendReq
  rw [h.wiring.lDev, List.find?_congr hskips]
  cases hf : s.lDev.find? (skipsNextFrame s trigger) with
  | none => exact sendLoop_alike applyRc trigger _ _ _ h hsent fun _ hd => hd
  | some dev =>
    have hdev := List.mem_of_find?_eq_some hf
    have hslot := hsent.slot h hdev
    have hcall : t.applyEvent dev 0 trigger = s.applyEvent dev 0 trigger := by
      unfold Link.applyEvent
      rw [(hsent dev hdev).1]
    have hnext : skipsNextFrame s trigger dev = true := List.find?_some hf
    have hnext := (of_decide_eq_true hnext).1
    obtain ⟨hset, happlied⟩ := hslot.setApplied rfl
      (fun hc : false = true => Bool.noConfusion hc) fun _ : true = true => hslot.devHdl hnext
    dsimp only
    rw [hcall]
    split
    · exact ⟨rfl, rfl, h, hsent⟩
    · obtain ⟨h', hsent'⟩ := setTblSlot_alike h hsent hdev hset happlied
      exact ⟨rfl, rfl, h', hsent'⟩

end KernelModules.Crm
