import KernelModules.SyncCompletion

/-!
# References to a sync object

Whoever is going to signal an object takes a reference first, and a signal gives it back; a
reference that is not needed is put back instead. Only a signal looks whether it gave back the
last reference, and then the object is signaled.

Seen from its users an object is the number of references held and how it was signaled. Here the
row of an object is shown to go along with that, among any other calls.
-/

namespace KernelModules.CamSync

inductive RefOp
  | get
  | put
  | signal (state : SyncState)
  deriving DecidableEq

structure Fence where
  held : ℕ := 0
  outcome : Option SyncState := none

def Fence.step (f : Fence) : RefOp → Fence
  | .get => if f.outcome = none then { f with held := f.held + 1 } else f
  | .put => { f with held := f.held - 1 }
  | .signal state =>
    if f.outcome = none then
      { held := f.held - 1, outcome := if f.held = 1 then some state else none }
    else f

def Fence.state (f : Fence) : SyncState := f.outcome.getD .active

def RefOp.outcome : RefOp → Option SyncState
  | .signal state => some state
  | _ => none

def gets (ops : List RefOp) : ℕ := ops.countP (· = .get)

def releases (ops : List RefOp) : ℕ := ops.countP (· ≠ .get)

theorem gets_concat (ops : List RefOp) (op : RefOp) :
    gets (ops ++ [op]) = gets ops + if op = .get then 1 else 0 := by
  simp [gets, List.countP_append, List.countP_singleton]

theorem releases_concat (ops : List RefOp) (op : RefOp) :
    releases (ops ++ [op]) = releases ops + if op = .get then 0 else 1 := by
  by_cases hop : op = .get
  · simp [releases, List.countP_append, hop]
  · simp [releases, List.countP_append, hop]

def Outstanding (ops : List RefOp) : Prop :=
  ∀ taken, taken <+: ops → taken ≠ [] → releases taken < gets taken

variable {ops : List RefOp}

theorem Outstanding.releases_le (hout : Outstanding ops) : releases ops ≤ gets ops := by
  by_cases hnil : ops = []
  · simp [hnil, releases]
  · exact (hout ops List.prefix_rfl hnil).le

theorem foldl_outstanding (ops : List RefOp) (hout : Outstanding ops) :
    ops.foldl Fence.step {} = ⟨gets ops - releases ops, none⟩ := by
  induction ops using List.reverseRecOn with
  | nil => rfl
  | append_singleton ops op ih =>
    have hops : Outstanding ops := fun taken htaken =>
      hout taken (htaken.trans (List.prefix_append ..))
    have hle := hops.releases_le
    have hlast := hout (ops ++ [op]) List.prefix_rfl (by simp)
    rw [gets_concat, releases_concat] at hlast ⊢
    rw [List.foldl_append, ih hops, List.foldl_cons, List.foldl_nil]
    cases op with
    | get =>
      simp only [Fence.step, if_pos, Fence.mk.injEq, and_true]
      omega
    | put =>
      simp only [Fence.step, reduceCtorEq, if_false, Fence.mk.injEq, and_true]
      omega
    | signal state =>
      simp only [reduceCtorEq, if_false] at hlast
      have hmore : gets ops - releases ops ≠ 1 := by omega
      simp only [Fence.step, if_pos, if_neg hmore, reduceCtorEq, if_false, Fence.mk.injEq,
        and_true]
      omega

theorem foldl_release {op : RefOp} (hout : Outstanding ops)
    (hlast : gets ops = releases ops + 1) (hop : op ≠ .get) :
    (ops ++ [op]).foldl Fence.step {} = ⟨0, op.outcome⟩ := by
  have hone : gets ops - releases ops = 1 := by omega
  rw [List.foldl_append, foldl_outstanding ops hout, hone]
  cases op with
  | get => exact absurd rfl hop
  | put => rfl
  | signal state => rfl

/-- A signal with a status that is not taken keeps its reference. -/
def Input.refOp (obj : ℤ) : Input → Option RefOp
  | .getObjRef o => if o = obj then some .get else none
  | .putObjRef o => if o = obj then some .put else none
  | .signal o status => if o = obj then (signaledStatus status).map .signal else none
  | _ => none

def countRefs (obj : ℤ) (f : Fence) (_ : SyncDevice) (i : Input) (_ : SyncDevice × List Event) :
    Fence :=
  (i.refOp obj).elim f f.step

/-- Who gives a reference back holds one. The object stays, its callbacks are not taken back,
and the references held fit the counter. -/
def Matched (obj : ℤ) (f : Fence) : Input → Prop
  | .getObjRef o => o = obj → f.held + 1 < 2 ^ 31
  | .putObjRef o => o = obj → 0 < f.held
  | .signal o _ => o = obj → 0 < f.held
  | .deregisterCallback _ o => o ≠ obj
  | .destroy o => o ≠ obj
  | _ => True

instance (obj : ℤ) (f : Fence) (i : Input) : Decidable (Matched obj f i) := by
  rcases i with _ | _ | _ | _ | _ | _ | _ | _ | _ | _ | _ | _ | _ <;> unfold Matched <;>
    infer_instance

abbrev counted (obj : ℤ) : Machine (SyncDevice × Fence) Input Event :=
  machine.monitored (countRefs obj)

theorem counted_run (obj : ℤ) (p : SyncDevice × Fence) (is : List Input) :
    ((counted obj).run p is).1.2 = (is.filterMap (Input.refOp obj)).foldl Fence.step p.2 := by
  induction is generalizing p with
  | nil => rfl
  | cons i is ih =>
    rw [Machine.run_cons]
    rw [ih]
    cases h : i.refOp obj with
    | none => simp [countRefs, h]
    | some op => simp [countRefs, h]

/-- The part of the row of an object that its users count on is kept, and no callback of it is
dispatched. -/
structure Untouched (obj : ℤ) (s : SyncDevice) (r : SyncDevice × List Event) : Prop where
  type : (r.1.syncTable obj).type = (s.syncTable obj).type
  state : (r.1.syncTable obj).state = (s.syncTable obj).state
  refCnt : (r.1.syncTable obj).refCnt = (s.syncTable obj).refCnt
  remaining : (r.1.syncTable obj).remaining = (s.syncTable obj).remaining
  callbacks : (r.1.syncTable obj).callbackList = (s.syncTable obj).callbackList
  events : callbacksAt obj r.2 = []

theorem untouched_of_row {obj : ℤ} {s : SyncDevice} {r : SyncDevice × List Event}
    (hrow : r.1.syncTable obj = s.syncTable obj) (hevents : callbacksAt obj r.2 = []) :
    Untouched obj s r := by
  refine ⟨?_, ?_, ?_, ?_, ?_, hevents⟩ <;> rw [hrow]

theorem untouched_refl (obj : ℤ) (s : SyncDevice) (rc : Rc) :
    Untouched obj s (s, [.returned rc]) := untouched_of_row rfl rfl

theorem untouched_setRow {obj o : ℤ} (s : SyncDevice) (row : Row) {es : List Event}
    (ho : o ≠ obj) (hes : callbacksAt obj es = []) : Untouched obj s (s.setRow o row, es) := by
  refine untouched_of_row ?_ hes
  rw [setRow_syncTable, if_neg (Ne.symm ho)]

section Steps

variable {obj : ℤ} {s : SyncDevice} {h : History}

theorem ne_of_free (hlive : (s.syncTable obj).state ≠ .invalid) {idx : ℤ}
    (hfree : (s.syncTable idx).state = .invalid) : obj ≠ idx := by
  rintro rfl
  exact hlive hfree

theorem untouched_create (hacc : Accounted s h) (hlive : (s.syncTable obj).state ≠ .invalid) :
    Untouched obj s (create s) := by
  rcases create_eq hacc.zero with hc | ⟨idx, hf, hc⟩
  · rw [hc]
    exact untouched_refl obj s _
  · rw [hc]
    have hne := ne_of_free hlive (hacc.free idx hf.free)
    exact untouched_of_row (by simp [hne]) rfl

theorem untouched_merge (hacc : Accounted s h) (hlive : (s.syncTable obj).state ≠ .invalid)
    (alloc : Alloc) (objs : List ℤ) : Untouched obj s (merge alloc s objs) := by
  rcases merge_cases alloc hacc.zero
    (fun k idx hidx => hacc.notMem_parents (hacc.free idx hidx) k) objs with
    ⟨rc, hc⟩ | ⟨idx, s', hf, -, -, -, ⟨hm, -, hc⟩ | ⟨hu, -, hc⟩⟩
  · rw [hc]
    exact untouched_refl obj s _
  · rw [hc]
    have hrow := hm.others obj (ne_of_free hlive (hacc.free idx hf.free))
    have href : (linkedRow s idx objs obj).refCnt = (s.syncTable obj).refCnt := by
      unfold linkedRow
      split <;> rfl
    exact ⟨by rw [hrow, linkedRow_type], by rw [hrow, linkedRow_state], by rw [hrow, href],
      by rw [hrow, linkedRow_remaining], by rw [hrow, linkedRow_callbacks], rfl⟩
  · rw [hc]
    exact untouched_of_row (hu.others obj (ne_of_free hlive (hacc.free idx hf.free))) rfl

variable {o : ℤ}

theorem untouched_registerCallback {cb : Callback} {alloc : Bool}
    (hr : (Input.registerCallback cb o alloc).registers obj = none) :
    Untouched obj s (registerCallback alloc s cb o) := by
  have hquiet : Quiet obj [] s (registerCallback alloc s cb o) := quiet_registerCallback hr
  refine ⟨hquiet.type, hquiet.state, ?_, hquiet.remaining, hquiet.callbacks, hquiet.events⟩
  unfold registerCallback
  dsimp only
  split_ifs <;> try rfl
  rw [setRow_syncTable]
  split
  · rename_i he
    rw [he]
  · rfl

theorem untouched_deregisterCallback (cb : Callback) (ho : o ≠ obj) :
    Untouched obj s (deregisterCallback s cb o) := by
  unfold deregisterCallback
  dsimp only
  split_ifs
  · exact untouched_refl obj s _
  · exact untouched_refl obj s _
  · exact untouched_setRow s _ ho rfl
  · exact untouched_setRow s _ ho rfl

theorem untouched_setPayload (o : ℤ) (payloads : List Payload) (rc : Rc) :
    Untouched obj s
      (s.setRow o { s.syncTable o with userPayloadList := payloads }, [.returned rc]) := by
  by_cases ho : o = obj
  · subst ho
    constructor <;> simp [callbacksAt, Event.callbackAt]
  · exact untouched_setRow s _ ho rfl

theorem untouched_registerUserPayload (alloc : Bool) (payload : Payload) (o : ℤ) :
    Untouched obj s (handleRegisterUserPayload alloc s payload o) := by
  unfold handleRegisterUserPayload
  dsimp only
  split_ifs
  · exact untouched_refl obj s _
  · exact untouched_refl obj s _
  · exact untouched_refl obj s _
  · exact untouched_of_row rfl rfl
  · exact untouched_refl obj s _
  · exact untouched_setPayload ..

theorem untouched_deregisterUserPayload (payload : Payload) (o : ℤ) :
    Untouched obj s (handleDeregisterUserPayload s payload o) := by
  unfold handleDeregisterUserPayload
  dsimp only
  split_ifs
  · exact untouched_refl obj s _
  · exact untouched_refl obj s _
  · exact untouched_setPayload ..

theorem untouched_signal (hacc : Accounted s h) (hindv : (s.syncTable obj).type = .indv)
    {status : ℕ} (hr : (Input.signal o status).refOp obj = none) :
    Untouched obj s (signal s o status) := by
  have hkept : o ≠ obj ∨ signaledStatus status = none := by
    by_cases ho : o = obj
    · simpa [Input.refOp, ho] using hr
    · exact .inl ho
  by_cases ho : o = obj
  · have hstatus := hkept.resolve_left (not_not.mpr ho)
    unfold signal
    rw [hstatus]
    dsimp only
    split_ifs
    · exact untouched_refl obj s _
    · exact untouched_refl obj s _
    · exact untouched_refl obj s _
    · exact untouched_refl obj s _
    · exact untouched_refl obj s _
  · rcases signal_cases s o status with ⟨rc, hc⟩ | ⟨-, hc⟩ | ⟨state, hsig⟩
    · rw [hc]
      exact untouched_refl obj s _
    · rw [hc]
      exact untouched_setRow s _ ho rfl
    · have hnot := hacc.notMem_of_indv hindv o
      rw [signal_eq hsig (hacc.nodup_parents o) hacc.parents_valid]
      refine untouched_of_row (signaledDevice_other state (Ne.symm ho) hnot) ?_
      rw [callbacksAt_signaled ho (hacc.nodup_parents o), if_neg fun hc => hnot hc.1]

theorem untouched_destroy (hacc : Accounted s h) (ho : o ≠ obj) :
    Untouched obj s (destroy s o) := by
  unfold destroy
  by_cases hvalid : (s.syncTable o).state = .invalid
  · rw [deinitObject_of_invalid fun hc => hc.2.2 hvalid]
    exact untouched_refl obj s _
  · rw [hacc.deinitObject hvalid]
    have hrow : (destroyedDevice s o).syncTable obj = unlinkedRow s o obj := if_neg (Ne.symm ho)
    exact ⟨by rw [hrow]; rfl, by rw [hrow]; rfl, by rw [hrow]; rfl, by rw [hrow]; rfl,
      by rw [hrow]; rfl, rfl⟩

theorem untouched_step (hacc : Accounted s h) (hindv : (s.syncTable obj).type = .indv)
    (hlive : (s.syncTable obj).state ≠ .invalid) {f : Fence} {i : Input} (hm : Matched obj f i)
    (hop : i.refOp obj = none) (hr : i.registers obj = none) :
    Untouched obj s (machine.step s i) := by
  cases i with
  | create => exact untouched_create hacc hlive
  | merge objs alloc => exact untouched_merge hacc hlive alloc objs
  | registerCallback cb o alloc => exact untouched_registerCallback hr
  | deregisterCallback cb o => exact untouched_deregisterCallback cb hm
  | registerUserPayload payload o alloc => exact untouched_registerUserPayload alloc payload o
  | deregisterUserPayload payload o => exact untouched_deregisterUserPayload payload o
  | signal o status => exact untouched_signal hacc hindv hop
  | getObjRef o =>
    have ho : o ≠ obj := fun he => by simp [Input.refOp, he] at hop
    simp only [machine, getObjRef]
    split_ifs
    · exact untouched_refl obj s _
    · exact untouched_refl obj s _
    · exact untouched_setRow s _ ho rfl
  | putObjRef o =>
    have ho : o ≠ obj := fun he => by simp [Input.refOp, he] at hop
    simp only [machine, putObjRef]
    split_ifs
    · exact untouched_refl obj s _
    · exact untouched_setRow s _ ho rfl
  | destroy o => exact untouched_destroy hacc hm
  | openDev fhOpen =>
    simp only [machine, openDev]
    split_ifs
    · exact untouched_refl obj s _
    · exact untouched_of_row rfl rfl
    · exact untouched_refl obj s _
  | release => exact untouched_of_row rfl rfl
  | setTriggerCbWithoutSwitch b => exact untouched_of_row rfl rfl

end Steps

structure Referenced (obj : ℤ) (is : List Input) (es : List Event) (p : SyncDevice × Fence) :
    Prop where
  accounted : ∃ h, Accounted p.1 h
  type : (p.1.syncTable obj).type = .indv
  state : (p.1.syncTable obj).state = p.2.state
  refCnt : (p.1.syncTable obj).refCnt = p.2.held
  small : p.2.held < 2 ^ 31
  remaining : (p.1.syncTable obj).remaining = 0
  signaled : ∀ state ∈ p.2.outcome, state.isSignaled = true ∧ p.2.held = 0
  callbacks : (p.1.syncTable obj).callbackList =
    if p.2.outcome = none then registered obj is else []
  dispatched : callbacksAt obj es =
    p.2.outcome.elim [] fun state => (registered obj is).map (·, state)

namespace Referenced

variable {obj : ℤ} {is : List Input} {es : List Event} {s : SyncDevice} {f : Fence}

theorem live (hs : Referenced obj is es (s, f)) : (s.syncTable obj).state ≠ .invalid := by
  rw [hs.state]
  cases hf : f.outcome with
  | none => simp [Fence.state, hf]
  | some state =>
    have hsignaled := (hs.signaled state hf).1
    rintro h
    simp only [Fence.state, hf, Option.getD_some] at h
    rw [h] at hsignaled
    cases hsignaled

theorem active (hs : Referenced obj is es (s, f)) (hf : f.outcome = none) :
    (s.syncTable obj).state = .active := by
  rw [hs.state, Fence.state, hf, Option.getD_none]

theorem outcome_of_held (hs : Referenced obj is es (s, f)) (hheld : 0 < f.held) :
    f.outcome = none := by
  cases hf : f.outcome with
  | none => rfl
  | some state =>
    have hzero : f.held = 0 := (hs.signaled state hf).2
    omega

theorem range (hs : Referenced obj is es (s, f)) : 0 < obj ∧ obj < maxObjs := by
  obtain ⟨h, hacc⟩ := hs.accounted
  exact hacc.range obj hs.live

variable {i : Input}

theorem of_untouched (hs : Referenced obj is es (s, f)) {r : SyncDevice × List Event}
    (hacc : ∃ h, Accounted r.1 h) (hu : Untouched obj s r) (hr : i.registers obj = none) :
    Referenced obj (is ++ [i]) (es ++ r.2) (r.1, f) := by
  have hregistered : registered obj (is ++ [i]) = registered obj is := by
    rw [registered_concat, hr, Option.toList_none, List.append_nil]
  refine ⟨hacc, ?_, ?_, ?_, hs.small, ?_, hs.signaled, ?_, ?_⟩
  · rw [hu.type, hs.type]
  · rw [hu.state, hs.state]
  · rw [hu.refCnt, hs.refCnt]
  · rw [hu.remaining, hs.remaining]
  · rw [hu.callbacks, hs.callbacks, hregistered]
  · rw [callbacksAt_append, hs.dispatched, hu.events, List.append_nil, hregistered]

theorem callbackRegistered (hs : Referenced obj is es (s, f)) {cb : Callback}
    (hcb : cb.func ≠ 0) :
    Referenced obj (is ++ [.registerCallback cb obj true])
      (es ++ (registerCallback true s cb obj).2) ((registerCallback true s cb obj).1, f) := by
  obtain ⟨h, hacc⟩ := hs.accounted
  have hrange := hs.range
  have hregistered : registered obj (is ++ [.registerCallback cb obj true]) =
      registered obj is ++ [cb] := by
    rw [registered_concat]
    simp [Input.registers, hcb]
  have hstate := hs.state
  unfold registerCallback
  rw [if_neg (by simp only [hcb, or_false]; omega), if_neg hs.live, if_neg (by decide)]
  cases hf : f.outcome with
  | some state =>
    have hsignaled := (hs.signaled state hf).1
    have heq : (s.syncTable obj).state = state := by
      rw [hstate, Fence.state, hf, Option.getD_some]
    rw [if_pos ⟨by rw [heq]; exact hsignaled, hs.remaining⟩]
    refine ⟨⟨h, hacc⟩, hs.type, hs.state, hs.refCnt, hs.small, hs.remaining, hs.signaled, ?_, ?_⟩
    · rw [hs.callbacks]
      simp [hf]
    · rw [callbacksAt_append, hs.dispatched, hf, hregistered, heq]
      simp [callbacksAt, Event.callbackAt]
  | none =>
    rw [if_neg (by rw [hs.active hf]; simp [SyncState.isSignaled])]
    have hsame := sameLinks_setRow s obj { s.syncTable obj with
      callbackList := (s.syncTable obj).callbackList ++ [cb] } ⟨rfl, rfl, rfl, rfl, rfl⟩
    refine ⟨⟨h, hacc.of_sameLinks hsame⟩, ?_, ?_, ?_, hs.small, ?_, hs.signaled, ?_, ?_⟩
    · rw [hsame.type, hs.type]
    · rw [hsame.state, hs.state]
    · rw [setRow_syncTable, if_pos rfl, hs.refCnt]
    · rw [hsame.remaining, hs.remaining]
    · rw [setRow_syncTable, if_pos rfl, if_pos hf, hregistered, hs.callbacks, if_pos hf]
    · rw [callbacksAt_append, hs.dispatched, hf]
      rfl

theorem of_refCnt (hs : Referenced obj is es (s, f)) {n held : ℕ}
    (hn : n = held) (hsmall : held < 2 ^ 31) (hf : f.outcome = none)
    (hr : i.registers obj = none) :
    Referenced obj (is ++ [i]) (es ++ [.returned .ok])
      (s.setRow obj { s.syncTable obj with refCnt := n }, { f with held := held }) := by
  obtain ⟨h, hacc⟩ := hs.accounted
  have hsame := sameLinks_setRow s obj { s.syncTable obj with refCnt := n }
    ⟨rfl, rfl, rfl, rfl, rfl⟩
  have hregistered : registered obj (is ++ [i]) = registered obj is := by
    rw [registered_concat, hr, Option.toList_none, List.append_nil]
  refine ⟨⟨h, hacc.of_sameLinks hsame⟩, ?_, ?_, ?_, hsmall, ?_, fun state hstate => ?_, ?_, ?_⟩
  · rw [hsame.type, hs.type]
  · rw [hsame.state]
    exact hs.state
  · rw [setRow_syncTable, if_pos rfl]
    exact hn
  · rw [hsame.remaining, hs.remaining]
  · exact absurd (hf.symm.trans hstate) (by simp)
  · rw [setRow_syncTable, if_pos rfl, hs.callbacks, hregistered]
  · rw [callbacksAt_append, hs.dispatched, hregistered]
    exact List.append_nil _

theorem decr_held (hs : Referenced obj is es (s, f)) (hheld : 0 < f.held) :
    decr (s.syncTable obj).refCnt = f.held - 1 := by
  have hsmall := hs.small
  have hcnt := hs.refCnt
  dsimp only at hsmall hcnt
  rw [decr_of_pos (by omega) (by omega), hcnt]

theorem get (hs : Referenced obj is es (s, f)) (hheld : f.held + 1 < 2 ^ 31) :
    Referenced obj (is ++ [.getObjRef obj]) (es ++ (getObjRef s obj).2)
      ((getObjRef s obj).1, f.step .get) := by
  have hrange := hs.range
  unfold getObjRef
  rw [if_neg (by omega)]
  by_cases hf : f.outcome = none
  · have hcnt := hs.refCnt
    dsimp only at hcnt
    rw [if_neg (not_not.mpr (hs.active hf)), Fence.step, if_pos hf]
    refine hs.of_refCnt ?_ hheld hf rfl
    rw [incr, hcnt, Nat.mod_eq_of_lt (by omega)]
  · have hstate : (s.syncTable obj).state ≠ .active := by
      obtain ⟨state, hf⟩ := Option.ne_none_iff_exists'.mp hf
      have hsignaled := (hs.signaled state hf).1
      rw [hs.state, Fence.state, hf, Option.getD_some]
      rintro rfl
      cases hsignaled
    rw [if_pos hstate, Fence.step, if_neg hf]
    exact hs.of_untouched hs.accounted (untouched_refl obj s _) rfl

theorem put (hs : Referenced obj is es (s, f)) (hheld : 0 < f.held) :
    Referenced obj (is ++ [.putObjRef obj]) (es ++ (putObjRef s obj).2)
      ((putObjRef s obj).1, f.step .put) := by
  have hrange := hs.range
  have hsmall := hs.small
  dsimp only at hsmall
  unfold putObjRef
  rw [if_neg (by omega)]
  exact hs.of_refCnt (hs.decr_held hheld) (by omega) (hs.outcome_of_held hheld) rfl

variable {status : ℕ} {state : SyncState}

theorem signaledLast (hs : Referenced obj is es (s, f))
    (hsig : Signals s obj status state) (hf : f.outcome = none) :
    Referenced obj (is ++ [.signal obj status]) (es ++ (signal s obj status).2)
      ((signal s obj status).1, ⟨0, some state⟩) := by
  obtain ⟨h, hacc⟩ := hs.accounted
  have hacc' : Accounted (machine.step s (.signal obj status)).1 _ := accounted_step s h _ hacc
  have hself := signaledDevice_self s obj state
  have hregistered : registered obj (is ++ [.signal obj status]) = registered obj is := by
    rw [registered_concat]
    simp [Input.registers]
  have hwaiting : (s.syncTable obj).callbackList = registered obj is := by
    rw [hs.callbacks, if_pos hf]
  have hparents : callbacksAt obj ((s.syncTable obj).parentsList.flatMap fun p =>
      (s.syncTable p).parentEvents s.eventq p state) = [] := by
    refine (filterMap_flatMap_of_owner (hacc.nodup_parents obj) fun p _ hp => ?_).trans
      (if_neg fun hm => (hacc.parents_valid obj hm).1 rfl)
    unfold Row.parentEvents
    split
    · exact (callbacksAt_dispatched ..).trans (if_neg hp)
    · rfl
  have hevents : callbacksAt obj (signaledEvents s obj state) =
      (registered obj is).map (·, state) := by
    rw [signaledEvents, callbacksAt_append, callbacksAt_append, hparents,
      callbacksAt_dispatched, if_pos rfl, hwaiting, List.append_nil]
    exact List.append_nil _
  have hsignal := signal_eq hsig (hacc.nodup_parents obj) hacc.parents_valid
  refine ⟨⟨_, hacc'⟩, ?_, ?_, ?_, Nat.two_pow_pos 31, ?_, fun state' hstate => ?_, ?_, ?_⟩
  · rw [hsignal, hself]
    exact hs.type
  · rw [hsignal, hself]
    rfl
  · rw [hsignal, hself]
  · rw [hsignal, hself]
    exact hs.remaining
  · cases hstate
    exact ⟨signaledStatus_isSignaled hsig.status, rfl⟩
  · rw [hsignal, hself]
    rfl
  · rw [callbacksAt_append, hs.dispatched, hf, hsignal, hevents, hregistered]
    rfl

theorem signal (hs : Referenced obj is es (s, f))
    (hstatus : signaledStatus status = some state) (hheld : 0 < f.held) :
    Referenced obj (is ++ [.signal obj status]) (es ++ (signal s obj status).2)
      ((signal s obj status).1, f.step (.signal state)) := by
  have hrange := hs.range
  have hf := hs.outcome_of_held hheld
  have hactive := hs.active hf
  have htype : (s.syncTable obj).type = .indv := hs.type
  have hdecr := hs.decr_held hheld
  rw [Fence.step, if_pos hf]
  by_cases hlast : f.held = 1
  · have hsig : Signals s obj status state :=
      ⟨hrange.1, hrange.2, htype, hactive, hstatus, by omega⟩
    rw [if_pos hlast, hlast]
    exact hs.signaledLast hsig hf
  · have hsmall := hs.small
    dsimp only at hsmall
    have hmore : CamSync.signal s obj status =
        (s.setRow obj { s.syncTable obj with refCnt := f.held - 1 }, [.returned .ok]) := by
      unfold CamSync.signal
      rw [if_neg (by omega), if_neg (by simp [hactive]), if_neg (by simp [htype]),
        if_neg (not_not.mpr hactive), hstatus]
      dsimp only
      rw [if_pos (by omega), hdecr]
    rw [if_neg hlast, hmore, ← hf]
    exact hs.of_refCnt rfl (by omega) hf rfl

theorem step (hs : Referenced obj is es (s, f)) (hm : Matched obj f i) :
    Referenced obj (is ++ [i]) (es ++ (machine.step s i).2)
      ((counted obj).step (s, f) i).1 := by
  obtain ⟨h, hacc⟩ := hs.accounted
  have hacc' : ∃ h, Accounted (machine.step s i).1 h := ⟨_, accounted_step s h i hacc⟩
  have hquiet : i.refOp obj = none → i.registers obj = none →
      Referenced obj (is ++ [i]) (es ++ (machine.step s i).2)
        ((counted obj).step (s, f) i).1 := fun hop hr => by
    rw [Machine.monitored_step, countRefs, hop]
    exact hs.of_untouched hacc' (untouched_step hacc hs.type hs.live hm hop hr) hr
  cases hr : i.registers obj with
  | some cb =>
    cases i with
    | registerCallback cb' o alloc =>
      simp only [Input.registers, Option.ite_none_right_eq_some, Option.some.injEq] at hr
      obtain ⟨⟨rfl, hcb, rfl⟩, rfl⟩ := hr
      exact hs.callbackRegistered hcb
    | _ => simp [Input.registers] at hr
  | none =>
    cases hop : i.refOp obj with
    | none => exact hquiet hop hr
    | some op =>
      rw [Machine.monitored_step, countRefs, hop]
      cases i with
      | getObjRef o =>
        obtain ⟨rfl, rfl⟩ : o = obj ∧ .get = op := by simpa [Input.refOp] using hop
        exact hs.get (hm rfl)
      | putObjRef o =>
        obtain ⟨rfl, rfl⟩ : o = obj ∧ .put = op := by simpa [Input.refOp] using hop
        exact hs.put (hm rfl)
      | signal o status =>
        obtain ⟨rfl, state, hstatus, rfl⟩ :
            o = obj ∧ ∃ state, signaledStatus status = some state ∧ .signal state = op := by
          simpa [Input.refOp] using hop
        exact hs.signal hstatus (hm rfl)
      | _ => simp [Input.refOp] at hop

theorem created {s : SyncDevice} {h : History} (hacc : Accounted s h)
    (hcreate : .object obj ∈ (create s).2) : Referenced obj [] [] ((create s).1, {}) := by
  have hacc' : Accounted (machine.step s .create).1 _ := accounted_step s h .create hacc
  change Accounted (create s).1 _ at hacc'
  rcases create_eq hacc.zero with hc | ⟨idx, -, hc⟩
  · rw [hc] at hcreate
    simp at hcreate
  · rw [hc] at hcreate hacc' ⊢
    obtain rfl : obj = idx := by simpa using hcreate
    refine ⟨⟨_, hacc'⟩, ?_, ?_, ?_, Nat.two_pow_pos 31, ?_, fun state hstate => ?_, ?_, rfl⟩
    · simp
    · simp [Fence.state]
    · simp
    · simp
    · cases hstate
    · simp [registered]

end Referenced

/-- Let everybody who puts or signals an object hold a reference. Its counter is the number of
references held. It is signaled by the signal that gives back the last one, and by nothing else, and
then its callbacks are dispatched, once each. With a reference held all the time until then, only
the call that gave it back decides. -/
theorem reference_counting (past : List Input) (obj : ℤ)
    (hcreate : .object obj ∈ (machine.step (machine.run initial past).1 .create).2)
    (is : List Input)
    (hmatched : (counted obj).Meets (fun p i => Matched obj p.2 i)
      ((machine.step (machine.run initial past).1 .create).1, {}) is) :
    let s := (machine.step (machine.run initial past).1 .create).1
    let ops := is.filterMap (Input.refOp obj)
    let f := ops.foldl Fence.step {}
    let r := machine.run s is
    (r.1.syncTable obj).refCnt = f.held ∧ f.held < 2 ^ 31 ∧
    (r.1.syncTable obj).state = f.state ∧
    callbacksAt obj r.2 = (f.outcome.elim [] fun state => (registered obj is).map (·, state)) ∧
    ∀ before last, ops = before ++ [last] → Outstanding before → last ≠ .get →
      gets before = releases before + 1 → f = ⟨0, last.outcome⟩ := by
  intro s ops f r
  obtain ⟨h, hacc⟩ := accounted_reachable past
  have hstart : Referenced obj [] [] (s, {}) := Referenced.created hacc hcreate
  have hdone := (counted obj).history_of_meets (C := fun p i => Matched obj p.2 i)
    (I := fun is es p => Referenced obj is es p) (fun _ _ _ _ hs hi => hs.step hi) hstart hmatched
  have hfence : ((counted obj).run (s, {}) is).1.2 = f := counted_run obj (s, {}) is
  have hrun := machine.monitored_run (countRefs obj) (s, {}) is
  have hdispatched := hdone.dispatched
  have hsmall := hdone.small
  have hstate := hdone.state
  have hcnt := hdone.refCnt
  rw [hrun.1, hfence] at hcnt hstate
  rw [hfence] at hsmall
  rw [hrun.2, hfence] at hdispatched
  refine ⟨hcnt, hsmall, hstate, hdispatched, fun before last hops hout hlast hone => ?_⟩
  change (is.filterMap (Input.refOp obj)).foldl Fence.step {} = _
  rw [show is.filterMap (Input.refOp obj) = before ++ [last] from hops]
  exact foldl_release hout hone hlast

/-- Three references are given back by a signal, a put and a signal; one callback comes late. -/
theorem reference_counting_of_three :
    let is := [.getObjRef 1, .getObjRef 1, .registerCallback ⟨7, 0⟩ 1 true, .signal 1 3,
      .getObjRef 1, .putObjRef 1, .signal 1 2, .registerCallback ⟨8, 0⟩ 1 true]
    let r := machine.run (machine.step (machine.run initial []).1 .create).1 is
    (r.1.syncTable 1).refCnt = 0 ∧ (r.1.syncTable 1).state = .signaledSuccess ∧
      callbacksAt 1 r.2 = [(⟨7, 0⟩, .signaledSuccess), (⟨8, 0⟩, .signaledSuccess)] := by
  intro is r
  have h := reference_counting [] 1 (by decide) is (by decide)
  exact ⟨h.1, h.2.2.1, h.2.2.2.1⟩

/-- The creator signals a new object without a reference, as if it had one from the start. -/
theorem reference_counting_fails :
    let s := (machine.run initial [.create, .registerCallback ⟨7, 0⟩ 1 true, .signal 1 2]).1
    ¬ ((s.syncTable 1).state.isSignaled = true ∧ (s.syncTable 1).callbackList = []) ∧
      (s.syncTable 1).refCnt = 2 ^ 32 - 1 := by
  decide

end KernelModules.CamSync
