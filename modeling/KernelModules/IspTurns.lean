import KernelModules.IspOrder

/-!
# Requests are handed to the hardware in turn

Given the order of the lists, whatever is handed to the hardware is new and larger than all before
it, or is handed to it again; and what has been put back goes before all that is later.
-/

namespace KernelModules.Isp

variable {c : Ctx} {passed : List ℕ} {id : ℕ}

def Output.handed : Output → Option ℕ
  | .hwConfig requestId => some requestId
  | _ => none

theorem mem_handed {os : List Output} : id ∈ os.filterMap Output.handed ↔ .hwConfig id ∈ os := by
  simp only [List.mem_filterMap]
  constructor
  · rintro ⟨o, ho, heq⟩
    cases o with
    | hwConfig requestId =>
      obtain rfl := Option.some.inj heq
      exact ho
    | ret rc => contradiction
    | entry obj => contradiction
  · exact fun h => ⟨_, h, rfl⟩

def track (passed : List ℕ) (_ : Ctx) (_ : Input) (r : Ctx × List Output) : List ℕ :=
  if r.1.state = .activated then passed ++ r.2.filterMap Output.handed else []

theorem filterMap_handedOut (r : Ctx × ℤ × Option ℕ) :
    (handedOut r).2.filterMap Output.handed = r.2.2.toList := by
  obtain ⟨c', rc, hwConfig⟩ := r
  cases hwConfig <;> rfl

/-- A step that starts the hardware, from the state in which it does. -/
structure Starts (c : Ctx) (i : Input) (c₀ : Ctx) (hwRc : ℤ) : Prop where
  idle : c.state ≠ .activated
  step : machine.step c i = handedOut (startDevInReady c₀ hwRc)
  start : c₀ = c ∨ ∃ packet env, i = .config packet env ∧
    c₀ = (configDevInTopState c packet env).1

/-- A step that hands nothing to the hardware and does not activate the context. -/
structure Quiet (c : Ctx) (i : Input) : Prop where
  apply : ∀ apply hwRc, i ≠ .apply apply hwRc
  handed : (machine.step c i).2.filterMap Output.handed = []
  idle : c.state ≠ .activated → (machine.step c i).1.state ≠ .activated

theorem config_starts_or_quiet (c : Ctx) (packet : Packet) (env : ConfigEnv) :
    (∃ c₀, Starts c (.config packet env) c₀ env.startRc) ∨ Quiet c (.config packet env) := by
  have htop := (configDevInTopState_top c packet env).state
  have hstep : machine.step c (.config packet env) = handedOut (configDev c packet env) := rfl
  have hquiet : ∀ c' rc, machine.step c (.config packet env) = handedOut (c', rc, none) →
      (c.state ≠ .activated → c'.state ≠ .activated) → Quiet c (.config packet env) := by
    intro c' rc h hidle
    refine ⟨nofun, ?_, ?_⟩
    · rw [h]
      rfl
    · rw [h]
      exact hidle
  have hconf : c.state ≠ .activated → (configDevInTopState c packet env).1.state ≠ .activated :=
    fun hne hs => hne (htop.symm.trans hs)
  unfold configDev at hstep
  cases hs : c.state with
  | available =>
    rw [hs] at hstep
    exact .inr (hquiet _ _ hstep fun hne => hne)
  | ready =>
    rw [hs] at hstep
    exact .inr (hquiet _ _ hstep hconf)
  | activated =>
    rw [hs] at hstep
    exact .inr (hquiet _ _ hstep hconf)
  | acquired =>
    rw [hs] at hstep
    dsimp only at hstep
    split at hstep
    · exact .inr (hquiet _ _ hstep fun hne => hne)
    split at hstep
    · exact .inr (hquiet _ _ hstep fun _ => by simp)
    · exact .inr (hquiet _ _ hstep hconf)
  | flushed =>
    rw [hs] at hstep
    dsimp only at hstep
    split at hstep
    · exact .inr (hquiet _ _ hstep fun hne => hne)
    split at hstep
    · exact .inr (hquiet _ _ hstep hconf)
    split at hstep
    · exact .inr (hquiet _ _ hstep hconf)
    · exact .inl ⟨_, by simp [hs], hstep, .inr ⟨packet, env, rfl, rfl⟩⟩

/-- Only a start and an apply hand something to the hardware, and only a start activates. -/
theorem starts_or_applies (c : Ctx) (i : Input) :
    (∃ c₀ hwRc, Starts c i c₀ hwRc) ∨ (∃ apply hwRc, i = .apply apply hwRc) ∨
      Quiet c i := by
  cases i with
  | apply apply hwRc => exact .inr (.inl ⟨apply, hwRc, rfl⟩)
  | start hwRc =>
    by_cases hs : c.state = .ready
    · refine .inl ⟨c, hwRc, by simp [hs], ?_, .inl rfl⟩
      change handedOut (startDev c hwRc) = _
      rw [startDev, if_pos hs]
    · refine .inr (.inr ?_)
      have hstep : machine.step c (.start hwRc) = (c, [.ret 0]) := by
        change handedOut (startDev c hwRc) = _
        rw [startDev, if_neg hs]
        rfl
      refine ⟨by simp, ?_, fun hne => ?_⟩
      · rw [hstep]
        rfl
      · rwa [hstep]
  | config packet env =>
    rcases config_starts_or_quiet c packet env with ⟨c₀, hstarts⟩ | hquiet
    · exact .inl ⟨c₀, env.startRc, hstarts⟩
    · exact .inr (.inr hquiet)
  | acquireDev kind =>
    refine .inr (.inr ⟨by simp, rfl, fun hne => ?_⟩)
    change (acquireDev c kind).1.state ≠ .activated
    unfold acquireDev
    split
    · simp
    · exact hne
  | acquireHw kind =>
    refine .inr (.inr ⟨by simp, rfl, fun hne => ?_⟩)
    change (acquireHw c kind).1.state ≠ .activated
    unfold acquireHw
    split
    · cases kind with
      | none => exact hne
      | some kind => exact hne
    · exact hne
  | releaseHw =>
    refine .inr (.inr ⟨by simp, rfl, fun hne => ?_⟩)
    change (releaseHw c).state ≠ .activated
    unfold releaseHw
    split
    · exact hne
    all_goals simp [releaseHwInTopState]
  | releaseDev =>
    refine .inr (.inr ⟨by simp, rfl, fun hne => ?_⟩)
    change (releaseDev c).state ≠ .activated
    unfold releaseDev
    split
    · exact hne
    all_goals simp [releaseDevInTopState]
  | link =>
    refine .inr (.inr ⟨by simp, rfl, fun hne => ?_⟩)
    change (crmLink c).1.state ≠ .activated
    unfold crmLink
    split
    · split
      · simp
      · exact hne
    · exact hne
  | unlink =>
    refine .inr (.inr ⟨by simp, rfl, fun hne => ?_⟩)
    change (crmUnlink c).1.state ≠ .activated
    unfold crmUnlink
    split
    · exact hne
    · exact hne
    all_goals simp [unlinkInReady, stopDevInActivatedUnlock]
  | stop =>
    refine .inr (.inr ⟨by simp, rfl, fun hne => ?_⟩)
    change (stopDev c).state ≠ .activated
    unfold stopDev
    split
    · simp
    · exact hne
  | flush flush =>
    refine .inr (.inr ⟨by simp, rfl, fun hne => ?_⟩)
    change (crmFlushReq c flush).1.state ≠ .activated
    unfold crmFlushReq flushReqInTopState flushReqInReady
    dsimp only
    split
    · cases flush.cancel with
      | none => simp [‹c.state = .acquired›, CtxState.rank]
      | some id => exact hne
    · exact absurd ‹c.state = .activated› hne
    · split
      · simp
      · exact hne
    · exact hne
    · exact hne
  | event e =>
    refine .inr (.inr ⟨by simp, ?_, fun hne hs => hne ((event_top c e).state.symm.trans hs)⟩)
    change ((handleHwEvent c e).2.map Output.entry).filterMap Output.handed = []
    rw [List.filterMap_map]
    exact List.filterMap_eq_nil_iff.mpr fun _ _ => rfl
  | signal syncId => exact .inr (.inr ⟨by simp, rfl, fun hne => hne⟩)

theorem start_handed (hwRc : ℤ) (hrun : runningIds c.q = []) :
    ((startDevInReady c hwRc).2.2 = none ∧ (startDevInReady c hwRc).1 = c) ∨
      ∃ id ids, pendingIds c.q = id :: ids ∧ (startDevInReady c hwRc).2.2 = some id ∧
        (((startDevInReady c hwRc).1.state = .ready ∧
            pendingIds (startDevInReady c hwRc).1.q = id :: ids) ∨
          (runningIds (startDevInReady c hwRc).1.q = [id] ∧
            pendingIds (startDevInReady c hwRc).1.q = ids)) := by
  obtain ⟨ha, hw⟩ := List.append_eq_nil_iff.mp (List.map_eq_nil_iff.mp hrun)
  unfold startDevInReady
  split
  · exact .inl ⟨rfl, rfl⟩
  next req pending hp =>
  have hids : pendingIds c.q = req.requestId :: pending.map (·.requestId) := by
    rw [pendingIds, hp]
    rfl
  split
  · exact .inl ⟨rfl, rfl⟩
  dsimp only
  split
  · exact .inr ⟨_, _, hids, rfl, .inl ⟨rfl, hids⟩⟩
  · refine .inr ⟨_, _, hids, rfl, .inr ⟨?_, rfl⟩⟩
    simp only [runningIds, ha, hw]
    by_cases hwaits : c.rdiOnlyContext ∨ req.fenceMapOut.length = 0
    · rw [if_pos hwaits, if_pos hwaits]
      rfl
    · rw [if_neg hwaits, if_neg hwaits]
      rfl

theorem apply_handed (c : Ctx) (apply : Apply) (hwRc : ℤ) :
    ((applyReq c apply hwRc).2.2 = none ∧ (applyReq c apply hwRc).1.q = c.q) ∨
      ∃ id ids, pendingIds c.q = id :: ids ∧ (applyReq c apply hwRc).2.2 = some id ∧
        ((runningIds (applyReq c apply hwRc).1.q = runningIds c.q ∧
            pendingIds (applyReq c apply hwRc).1.q = id :: ids) ∨
          (runningIds (applyReq c apply hwRc).1.q = runningIds c.q ++ [id] ∧
            pendingIds (applyReq c apply hwRc).1.q = ids)) := by
  unfold applyReq
  split
  · exact .inl ⟨rfl, rfl⟩
  split
  · exact .inl ⟨rfl, rfl⟩
  unfold applyReqInActivatedState
  split
  · exact .inl ⟨rfl, rfl⟩
  next req pending hp =>
  have hids : pendingIds c.q = req.requestId :: pending.map (·.requestId) := by
    rw [pendingIds, hp]
    rfl
  split
  · exact .inl ⟨rfl, rfl⟩
  split
  · exact .inl ⟨rfl, rfl⟩
  split
  · exact .inl ⟨rfl, rfl⟩
  split
  · exact .inr ⟨_, _, hids, rfl, .inl ⟨rfl, rfl⟩⟩
  · refine .inr ⟨_, _, hids, rfl, .inr ⟨?_, rfl⟩⟩
    simp [runningIds]

def Submits (p : Ctx × List ℕ) : Input → Prop
  | .config packet _ => inTurn p.2 p.1 packet
  | _ => True

def InTurn (p : Ctx × List ℕ) : Input → Prop
  | .config packet _ => inTurn p.2 p.1 packet
  | .event e => p.1.state = .activated → orderly p.1 e
  | _ => True

structure Tracked (p : Ctx × List ℕ) : Prop where
  settled : Settled p.1
  ordered : Ordered p.1.q
  known : Known p.2 p.1.q
  idle : p.1.state ≠ .activated → p.2 = []

theorem tracked_initial : Tracked (initial, []) where
  settled := settled_initial
  ordered := ⟨List.Pairwise.nil, rfl⟩
  known := ⟨fun _ h => (List.not_mem_nil h).elim, fun _ h => (List.not_mem_nil h).elim⟩
  idle _ := rfl

variable {p : Ctx × List ℕ} {i : Input}

theorem inTurn_running {packet : Packet} (h : Known passed c.q) (hc : inTurn passed c packet) :
    inTurn (runningIds c.q) c packet := by
  unfold inTurn at hc ⊢
  split
  · next hi => rwa [if_pos hi] at hc
  · next hi =>
    rw [if_neg hi] at hc
    exact ⟨hc.1, fun id hid => hc.2 id (h.running id hid)⟩

theorem Tracked.ordered_step (h : Tracked p) (hc : InTurn p i) :
    Ordered (machine.step p.1 i).1.q := by
  refine ordered_kept.step h.settled ?_ h.ordered
  cases i with
  | config packet env => exact ⟨inTurn_running h.known hc, fun _ => trivial⟩
  | event e => exact hc
  | start hwRc => exact fun _ => trivial
  | apply apply hwRc => exact fun _ _ => trivial
  | _ => trivial

theorem Tracked.starts (h : Tracked p) (hc : InTurn p i) {c₀ : Ctx} {hwRc : ℤ}
    (hs : Starts p.1 i c₀ hwRc) :
    Ordered c₀.q ∧ runningIds c₀.q = [] ∧ c₀.state ≠ .activated := by
  have hrun := h.settled.runningIds hs.idle
  rcases hs.start with rfl | ⟨packet, env, rfl, rfl⟩
  · exact ⟨h.ordered, hrun, hs.idle⟩
  · have hm := config_move p.1 packet env
    refine ⟨h.ordered.config h.settled hm (inTurn_running h.known hc), ?_, ?_⟩
    · obtain ⟨hw, ha⟩ := hm.wait_active
      rwa [runningIds, hw, ha]
    · rw [(configDevInTopState_top p.1 packet env).state]
      exact hs.idle

theorem Tracked.known_step (h : Tracked p) (hc : InTurn p i)
    (hs' : (machine.step p.1 i).1.state = .activated) :
    Known (p.2 ++ (machine.step p.1 i).2.filterMap Output.handed) (machine.step p.1 i).1.q := by
  rcases starts_or_applies p.1 i with ⟨c₀, hwRc, hs⟩ | ⟨apply, hwRc, rfl⟩ | hq
  · obtain ⟨hord, hrun, hne⟩ := h.starts hc hs
    rw [hs.step] at hs' ⊢
    change (startDevInReady c₀ hwRc).1.state = _ at hs'
    rcases start_handed hwRc hrun with ⟨-, hsame⟩ |
      ⟨id, ids, hids, hout, ⟨hready, -⟩ | ⟨hrun', hpend'⟩⟩
    · rw [hsame] at hs'
      exact absurd hs' hne
    · rw [hready] at hs'
      contradiction
    · have hpairs := hord.pending
      rw [hids, List.pairwise_cons] at hpairs
      rw [filterMap_handedOut, hout, h.idle hs.idle, List.nil_append]
      refine ⟨fun id' hid' => ?_, fun id' hid' => .inr fun id'' hid'' => ?_⟩
      · change id' ∈ runningIds (startDevInReady c₀ hwRc).1.q at hid'
        rw [hrun'] at hid'
        exact hid'
      · change id' ∈ pendingIds (startDevInReady c₀ hwRc).1.q at hid'
        rw [hpend'] at hid'
        obtain rfl := List.mem_singleton.mp hid''
        exact hpairs.1 id' hid'
  · have hstep : machine.step p.1 (.apply apply hwRc) =
      handedOut (applyReq p.1 apply hwRc) := rfl
    rw [hstep, filterMap_handedOut]
    change Known _ (applyReq p.1 apply hwRc).1.q
    rcases apply_handed p.1 apply hwRc with ⟨hnone, hsame⟩ | ⟨id, ids, hids, hout, hcase⟩
    · rw [hnone, hsame]
      simpa using h.known
    · have hpairs := h.ordered.pending
      rw [hids, List.pairwise_cons] at hpairs
      rw [hout]
      have hlater : ∀ id' ∈ ids, id' ∈ p.2 ++ [id] ∨ ∀ id'' ∈ p.2 ++ [id], id'' < id' := by
        intro id' hid'
        rcases h.known.pending id' (by rw [hids]; exact List.mem_cons_of_mem _ hid') with hk | hk
        · exact .inl (List.mem_append_left _ hk)
        · refine .inr fun id'' hid'' => ?_
          rcases List.mem_append.mp hid'' with hmem | hmem
          · exact hk id'' hmem
          · obtain rfl := List.mem_singleton.mp hmem
            exact hpairs.1 id' hid'
      rcases hcase with ⟨hrun', hpend'⟩ | ⟨hrun', hpend'⟩
      · refine ⟨fun id' hid' => ?_, fun id' hid' => ?_⟩
        · rw [hrun'] at hid'
          exact List.mem_append_left _ (h.known.running id' hid')
        · rw [hpend'] at hid'
          rcases List.mem_cons.mp hid' with rfl | hmem
          · exact .inl (List.mem_append_right _ (List.mem_singleton_self _))
          · exact hlater id' hmem
      · refine ⟨fun id' hid' => ?_, fun id' hid' => ?_⟩
        · rw [hrun'] at hid'
          rcases List.mem_append.mp hid' with hmem | hmem
          · exact List.mem_append_left _ (h.known.running id' hmem)
          · exact List.mem_append_right _ hmem
        · rw [hpend'] at hid'
          exact hlater id' hid'
  · rw [hq.handed, List.append_nil]
    have hs : p.1.state = .activated := by
      by_contra hne
      exact hq.idle hne hs'
    refine (known_kept p.2).step h.settled ?_ h.known
    cases i with
    | config packet env =>
      refine ⟨⟨hs, hc⟩, fun hr => ?_⟩
      have hflushed := hr.1
      rw [hs] at hflushed
      contradiction
    | event e => exact hc
    | start hwRc =>
      rintro hready
      rw [hs] at hready
      contradiction
    | apply apply hwRc => exact absurd rfl (hq.apply apply hwRc)
    | _ => trivial

theorem Tracked.step (h : Tracked p) (hc : InTurn p i) :
    Tracked ((machine.monitored track).step p i).1 where
  settled := h.settled.step i
  ordered := h.ordered_step hc
  known := by
    by_cases hs' : (machine.step p.1 i).1.state = .activated
    · rw [Machine.monitored_step, track, if_pos hs']
      exact h.known_step hc hs'
    · have hrun := (h.settled.step i).runningIds hs'
      rw [Machine.monitored_step, track, if_neg hs']
      refine ⟨fun id hid => ?_, fun id hid => .inr fun _ hnil => (List.not_mem_nil hnil).elim⟩
      rw [hrun] at hid
      exact hid
  idle hs' := if_neg hs'

/-- What is handed to the hardware after `passed` is new and larger than all of it, or has been
handed out before; and nothing that is pending comes before it. -/
structure Next (passed : List ℕ) (q : Queues) (id : ℕ) : Prop where
  new : id ∈ passed ∨ ∀ id' ∈ passed, id' < id
  first : ∀ id' ∈ pendingIds q, id ≤ id'

theorem Tracked.next (h : Tracked p) (hc : InTurn p i) (hid : .hwConfig id ∈ (machine.step p.1 i).2) :
    Next p.2 (machine.step p.1 i).1.q id := by
  have hmem := mem_handed.mpr hid
  have hfirst : ∀ {ids : List ℕ}, (id :: ids).Pairwise (· < ·) →
      ∀ id' ∈ id :: ids, id ≤ id' := by
    intro ids hpairs id' hid'
    rcases List.mem_cons.mp hid' with rfl | hmem
    · exact le_refl _
    · exact Nat.le_of_lt ((List.pairwise_cons.mp hpairs).1 id' hmem)
  rcases starts_or_applies p.1 i with ⟨c₀, hwRc, hs⟩ | ⟨apply, hwRc, rfl⟩ | hq
  · obtain ⟨hord, hrun, hne⟩ := h.starts hc hs
    rw [hs.step, filterMap_handedOut] at hmem
    rcases start_handed hwRc hrun with ⟨hnone, -⟩ | ⟨id₀, ids, hids, hout, hcase⟩
    · rw [hnone] at hmem
      contradiction
    · rw [hout] at hmem
      obtain rfl := List.mem_singleton.mp hmem
      have hpairs := hord.pending
      rw [hids] at hpairs
      refine ⟨.inr fun id' hid' => ?_, fun id' hid' => hfirst hpairs id' ?_⟩
      · rw [h.idle hs.idle] at hid'
        contradiction
      · rw [hs.step] at hid'
        change id' ∈ pendingIds (startDevInReady c₀ hwRc).1.q at hid'
        rcases hcase with ⟨-, hpend⟩ | ⟨-, hpend⟩
        · rwa [hpend] at hid'
        · rw [hpend] at hid'
          exact List.mem_cons_of_mem _ hid'
  · have hstep : machine.step p.1 (.apply apply hwRc) =
      handedOut (applyReq p.1 apply hwRc) := rfl
    rw [hstep, filterMap_handedOut] at hmem
    rcases apply_handed p.1 apply hwRc with ⟨hnone, -⟩ | ⟨id₀, ids, hids, hout, hcase⟩
    · rw [hnone] at hmem
      contradiction
    · rw [hout] at hmem
      obtain rfl := List.mem_singleton.mp hmem
      have hpairs := h.ordered.pending
      rw [hids] at hpairs
      refine ⟨h.known.pending id (by rw [hids]; exact List.mem_cons_self),
        fun id' hid' => hfirst hpairs id' ?_⟩
      change id' ∈ pendingIds (applyReq p.1 apply hwRc).1.q at hid'
      rcases hcase with ⟨-, hpend⟩ | ⟨-, hpend⟩
      · rwa [hpend] at hid'
      · rw [hpend] at hid'
        exact List.mem_cons_of_mem _ hid'
  · rw [hq.handed] at hmem
    contradiction

/-- As long as updates come in turn and what is put back is the last to run, the requests stay in
order, and whatever is handed to the hardware is the next in turn. -/
theorem ordered_of_inTurn {is : List Input}
    (hm : (machine.monitored track).Meets InTurn (initial, []) is) :
    Ordered (machine.run initial is).1.q ∧
      ∀ before i after, is = before ++ i :: after →
        ∀ id, .hwConfig id ∈ (machine.step (machine.run initial before).1 i).2 →
          Next ((machine.monitored track).run (initial, []) before).1.2
            (machine.step (machine.run initial before).1 i).1.q id := by
  have hrun : ∀ is, (machine.monitored track).Meets InTurn (initial, []) is →
      Tracked ((machine.monitored track).run (initial, []) is).1 := fun is hm =>
    (machine.monitored track).invariant_of_meets (fun _ _ h hc => h.step hc) tracked_initial hm
  have hfst : ∀ is, ((machine.monitored track).run (initial, []) is).1.1 =
      (machine.run initial is).1 := fun is => (machine.monitored_run track (initial, []) is).1
  refine ⟨hfst is ▸ (hrun is hm).ordered, ?_⟩
  rintro before i after rfl id hid
  rw [Machine.meets_append] at hm
  have htracked := hrun before hm.1
  rw [← hfst before] at hid ⊢
  exact htracked.next hm.2.1 hid

/-- A second request misses its reg update. Two frames later it is put back, and applied again. -/
def reappliedRun : List Input :=
  [.acquireDev (some .pix), .link, .config { requestId := 1, init := true } {}, .start 0,
    .event .sof, .event .regUpdate, .config { requestId := 2, fences := [(3, 7)] } {},
    .config { requestId := 3, fences := [(3, 8)] } {}, .apply { requestId := 2 } 0,
    .event .epoch, .event .epoch, .event .epoch, .apply { requestId := 2 } 0]

theorem reappliedRun_ordered : Ordered (machine.run initial reappliedRun).1.q := by
  have hm : (machine.monitored track).Meets InTurn (initial, []) reappliedRun :=
    ⟨trivial, trivial, (by decide : inTurn _ _ _), trivial, fun _ => trivial, fun _ => trivial,
      (by decide : inTurn _ _ _), (by decide : inTurn _ _ _), trivial,
      fun _ hr => absurd hr.notifies (by decide), fun _ _ => by decide, fun _ _ => by decide,
      trivial, trivial⟩
  exact (ordered_of_inTurn hm).1

/-- A second request is active and a third one waits, when an error comes. -/
def errorWhileWaiting : List Input :=
  [.acquireDev (some .pix), .link, .config { requestId := 1, init := true } {}, .start 0,
    .event .sof, .event .regUpdate, .config { requestId := 2, fences := [(3, 7)] } {},
    .config { requestId := 3, fences := [(3, 8)] } {}, .apply { requestId := 2 } 0,
    .event .regUpdate, .event .epoch, .apply { requestId := 3 } 0, .event .error]

/-- Both are pending again, but the third one comes first. -/
theorem errorWhileWaiting_reversed :
    ¬ ∀ is : List Input, (machine.monitored track).Meets Submits (initial, []) is →
      Ordered (machine.run initial is).1.q := by
  intro h
  have hasc := (h errorWhileWaiting ⟨trivial, trivial, (by decide : inTurn _ _ _), trivial,
    trivial, trivial, (by decide : inTurn _ _ _), (by decide : inTurn _ _ _), trivial, trivial,
    trivial, trivial, trivial, trivial⟩).ascending
  revert hasc
  decide

end KernelModules.Isp
