import KernelModules.SyncCompletion

/-!
# Closing the device

The last close signals every active object with an error, waits for the callbacks, and destroys
what is left in the table. A signal of an object with more than one reference only drops one, and
a group is only signaled through its children; so some rows are destroyed while somebody waits.
-/

namespace KernelModules.CamSync

def objsFrom (obj : ℤ) (n : ℕ) : List ℤ := (List.range n).map fun i : ℕ => obj + i

def tableObjs : List ℤ := objsFrom 1 1023

/-- `CAM_SYNC_STATE_SIGNALED_ERROR`. -/
abbrev statusError : ℕ := 3

def closeSignal (r : SyncDevice × List Event) (obj : ℤ) : SyncDevice × List Event :=
  if (r.1.syncTable obj).state = .active then
    let t := signal r.1 obj statusError
    (t.1, r.2 ++ t.2)
  else r

def closeDestroy (r : SyncDevice × List Event) (obj : ℤ) : SyncDevice × List Event :=
  if (r.1.syncTable obj).state ≠ .invalid then
    let t := destroy r.1 obj
    (t.1, r.2 ++ t.2)
  else r

/-- The table when the work queue has been flushed and the first object is about to be
destroyed. -/
def closeSignalAll (s : SyncDevice) : SyncDevice × List Event := tableObjs.foldl closeSignal (s, [])

def Event.rc : Event → Option Rc
  | .returned rc => some rc
  | _ => none

/-- The return code is the one of the last call that was made. -/
def close (s : SyncDevice) : SyncDevice × List Event :=
  let s := { s with openCnt := s.openCnt - 1 }
  let r := if s.openCnt = 0 then tableObjs.foldl closeDestroy (closeSignalAll s) else (s, [])
  ({ r.1 with eventq := false },
    r.2 ++ [.returned ((r.2.filterMap Event.rc).getLast?.getD .ok)])

def Row.Served (row : Row) : Prop := row.callbackList = [] ∧ row.signaled = true

def closing (s : SyncDevice) : SyncDevice := { s with openCnt := s.openCnt - 1 }

/-- Every callback on a row is dispatched with an error, and no row is destroyed while somebody
waits on it; in the end all rows are destroyed. -/
structure LeavesNoWaiter (s : SyncDevice) : Prop where
  dispatched : ∀ obj, (s.syncTable obj).state ≠ .invalid →
    callbacksAt obj (close s).2 = (s.syncTable obj).callbackList.map (·, .signaledError)
  served : ∀ before obj after, tableObjs = before ++ obj :: after →
    let row := (before.foldl closeDestroy (closeSignalAll (closing s))).1.syncTable obj
    row.state ≠ .invalid → row.Served
  destroyed : ∀ obj, ((close s).1.syncTable obj).state = .invalid

/-- Active objects have one reference left, and groups count active children only. -/
structure Closable (s : SyncDevice) : Prop where
  lastRef : ∀ obj, (s.syncTable obj).type = .indv → (s.syncTable obj).state = .active →
    (s.syncTable obj).refCnt = 1
  counted : ∀ g, LiveGroup s g → (s.syncTable g).remaining = pending s g

def Row.Done (row : Row) : Prop := row.state.isSignaled = true ∧ row.remaining = 0

/-- A row that is done has told everybody, and only a row that is done has. -/
structure Row.Sound (row : Row) : Prop where
  signaled : row.signaled = true ↔ row.Done
  callbacks : row.Done → row.callbackList = []
  indv : row.type = .indv → row.remaining = 0
  group : row.type = .group → row.state = .active → 0 < row.remaining
  refCnt : row.refCnt < 2 ^ 32

def Sound (s : SyncDevice) : Prop :=
  ∀ k, (s.syncTable k).state ≠ .invalid → (s.syncTable k).Sound

variable {s : SyncDevice}

theorem Row.sound_new : ({ state := .active } : Row).Sound where
  signaled := ⟨fun h => absurd h Bool.false_ne_true, fun h => absurd h.1 Bool.false_ne_true⟩
  callbacks _ := rfl
  indv _ := rfl
  group h := by cases h
  refCnt := by decide

variable {row : Row} {k : ℤ} {state : SyncState} {h : History}

theorem Row.Sound.setOther (h : row.Sound) (parents children : List ℤ)
    (payloads : List Payload) {refCnt : ℕ} (href : refCnt < 2 ^ 32) :
    ({ row with
      refCnt := refCnt
      parentsList := parents
      childrenList := children
      userPayloadList := payloads } : Row).Sound :=
  ⟨h.signaled, h.callbacks, h.indv, h.group, href⟩

theorem Row.Sound.linked {s : SyncDevice} (h : (s.syncTable k).Sound) (idx : ℤ)
    (objs : List ℤ) : (linkedRow s idx objs k).Sound := by
  unfold linkedRow
  split
  · exact h.setOther _ _ _ h.refCnt
  · exact h

theorem Row.sound_group (s : SyncDevice) (objs : List ℤ) : (groupRow s objs).Sound := by
  have hactive : (groupRow s objs).state = .active → activeObjs s objs ≠ [] := by
    unfold groupRow
    intro h
    split_ifs at h with he hn
    exact hn
  have hstate : activeObjs s objs = [] → (groupRow s objs).state.isSignaled = true := by
    unfold groupRow
    intro hn
    rw [if_pos hn]
    split <;> rfl
  have hempty : (groupRow s objs).remaining = 0 ↔ activeObjs s objs = [] := List.length_eq_zero_iff
  constructor
  · rw [Row.Done, hempty]
    exact List.isEmpty_iff.trans ⟨fun hn => ⟨hstate hn, hn⟩, fun h => h.2⟩
  · exact fun _ => rfl
  · intro h
    cases h
  · exact fun _ h => List.length_pos_iff.mpr (hactive h)
  · exact Nat.two_pow_pos 32

theorem Row.Sound.selfSignaled (h : row.Sound) (hindv : row.type = .indv)
    (eventq : Bool) (hstate : state.isSignaled = true) :
    ({ row.selfSignaled eventq state with refCnt := 0 } : Row).Sound where
  signaled := ⟨fun _ => ⟨hstate, h.indv hindv⟩, fun _ => rfl⟩
  callbacks _ := rfl
  indv _ := h.indv hindv
  group hg := by
    have : SyncType.indv = .group := hindv.symm.trans hg
    cases this
  refCnt := Nat.two_pow_pos 32

theorem Row.joined_isSignaled (row : Row) (h : state.isSignaled = true) :
    (row.joined state).isSignaled = true := by
  unfold Row.joined
  split
  · rfl
  · exact h

theorem Row.Sound.parentSignaled (h : row.Sound) (hgroup : row.type = .group)
    (hpos : 0 < row.remaining) (eventq : Bool)
    (hstate : state.isSignaled = true) : (row.parentSignaled eventq state).Sound := by
  have hjoined := row.joined_isSignaled hstate
  have hnot : row.signaled = false := by
    by_contra hs
    obtain ⟨-, hzero⟩ := h.signaled.mp (Bool.eq_true_of_not_eq_false hs)
    omega
  have hdone : (row.parentSignaled eventq state).Done ↔ decr row.remaining = 0 :=
    ⟨fun hd => hd.2, fun hz => ⟨hjoined, hz⟩⟩
  constructor
  · rw [hdone]
    simp only [Row.parentSignaled, hnot]
    split
    · exact iff_of_true rfl ‹_›
    · exact iff_of_false Bool.false_ne_true ‹_›
  · intro hd
    have hzero := hdone.mp hd
    simp only [Row.parentSignaled, if_pos hzero]
  · intro hi
    have : SyncType.group = .indv := hgroup.symm.trans hi
    cases this
  · intro _ ha
    rw [Row.parentSignaled_state] at ha
    rw [ha] at hjoined
    cases hjoined
  · exact h.refCnt

theorem Row.Sound.added (h : row.Sound) (hnot : ¬ row.Done) (cb : Callback) :
    ({ row with callbackList := row.callbackList ++ [cb] } : Row).Sound :=
  ⟨h.signaled, fun hd => absurd hd hnot, h.indv, h.group, h.refCnt⟩

theorem Row.Sound.removed (h : row.Sound) (cb : Callback) :
    ({ row with callbackList := row.callbackList.filter (· ≠ cb) } : Row).Sound :=
  ⟨h.signaled, fun hd => by rw [h.callbacks hd]; rfl, h.indv, h.group, h.refCnt⟩

variable {obj : ℤ} {r : SyncDevice × List Event}

theorem Sound.setRow (hs : Sound s) (h : row.state ≠ .invalid → row.Sound) :
    Sound (s.setRow obj row) := by
  intro k
  rw [setRow_syncTable]
  by_cases hk : k = obj
  · rw [if_pos hk]
    exact h
  · rw [if_neg hk]
    exact hs k

theorem incr_lt (n : ℕ) : incr n < 2 ^ 32 := Nat.mod_lt _ (Nat.two_pow_pos 32)

variable {status n : ℕ} {objs : List ℤ}

theorem Sound.signaledDevice (hs : Sound s) (hacc : Accounted s h) (hsig : Signals s obj status state) :
    Sound (CamSync.signaledDevice s obj state) := by
  have hstate := signaledStatus_isSignaled hsig.status
  intro k hk
  by_cases hobj : k = obj
  · subst hobj
    rw [signaledDevice_self]
    have hvalid : (s.syncTable k).state ≠ .invalid := by
      rw [hsig.active]
      exact SyncState.noConfusion
    exact (hs k hvalid).selfSignaled hsig.type s.eventq hstate
  · by_cases hp : k ∈ (s.syncTable obj).parentsList
    · have hcar := hacc.carries obj k hp
      rw [signaledDevice_parent state hobj hp]
      exact (hs k hcar.group.2).parentSignaled hcar.group.1 (hacc.remaining_pos hp) s.eventq hstate
    · rw [signaledDevice_other state hobj hp] at hk ⊢
      exact hs k hk

theorem Sound.destroyedDevice (hs : Sound s) (obj : ℤ) : Sound (CamSync.destroyedDevice s obj) := by
  intro k hk
  by_cases hobj : k = obj
  · have hblank : (CamSync.destroyedDevice s obj).syncTable k = {} := if_pos hobj
    rw [hblank] at hk
    exact absurd rfl hk
  · have hrow : (CamSync.destroyedDevice s obj).syncTable k = unlinkedRow s obj k := if_neg hobj
    rw [hrow] at hk ⊢
    have hrow := hs k hk
    exact hrow.setOther _ _ _ hrow.refCnt

theorem sound_step (hacc : Accounted s h) (hs : Sound s) (i : Input) :
    Sound (machine.step s i).1 := by
  have hset : ∀ (obj : ℤ) (payloads : List Payload) {refCnt : ℕ},
      ((s.syncTable obj).state ≠ .invalid → refCnt < 2 ^ 32) →
      Sound (s.setRow obj { s.syncTable obj with
        refCnt := refCnt, userPayloadList := payloads }) := fun obj payloads _ href =>
    hs.setRow fun hvalid => (hs obj hvalid).setOther _ _ _ (href hvalid)
  cases i with
  | create =>
    simp only [machine]
    rcases create_eq hacc.zero with hc | ⟨idx, hf, hc⟩
    · rw [hc]
      exact hs
    · rw [hc]
      exact Sound.setRow hs fun _ => Row.sound_new
  | merge objs alloc =>
    simp only [machine]
    rcases merge_cases alloc hacc.zero
      (fun k idx hidx => hacc.notMem_parents (hacc.free idx hidx) k) objs with
      ⟨rc, hc⟩ | ⟨idx, s', -, -, -, -, ⟨hm, -, hc⟩ | ⟨hu, -, hc⟩⟩
    · rw [hc]
      exact hs
    · rw [hc]
      intro k hk
      by_cases hidx : k = idx
      · rw [hidx, hm.group]
        exact Row.sound_group s objs
      · rw [hm.others k hidx, linkedRow_state] at hk
        rw [hm.others k hidx]
        exact (hs k hk).linked idx objs
    · rw [hc]
      intro k hk
      have hidx : k ≠ idx := fun h => hk (h ▸ hu.state)
      rw [hu.others k hidx] at hk ⊢
      exact hs k hk
  | registerCallback cb obj alloc =>
    simp only [machine, registerCallback]
    split_ifs with h₁ h₂ h₃ h₄ h₅
    all_goals first
      | exact hs
      | exact hs.setRow fun hvalid => (hs obj hvalid).added h₄ cb
  | deregisterCallback cb obj =>
    simp only [machine, deregisterCallback]
    split_ifs
    all_goals first
      | exact hs
      | exact hs.setRow fun hvalid => (hs obj hvalid).removed cb
  | registerUserPayload payload obj alloc =>
    simp only [machine, handleRegisterUserPayload]
    split_ifs
    all_goals first
      | exact hs
      | exact hset obj _ fun hvalid => (hs obj hvalid).refCnt
  | deregisterUserPayload payload obj =>
    simp only [machine, handleDeregisterUserPayload]
    split_ifs
    all_goals first
      | exact hs
      | exact hset obj _ fun hvalid => (hs obj hvalid).refCnt
  | signal obj status =>
    simp only [machine]
    rcases signal_cases s obj status with ⟨rc, hc⟩ | ⟨-, hc⟩ | ⟨state, hsig⟩
    · rw [hc]
      exact hs
    · rw [hc]
      exact hset obj _ fun _ => decr_lt _
    · rw [signal_eq hsig (hacc.nodup_parents obj) hacc.parents_valid]
      exact hs.signaledDevice hacc hsig
  | getObjRef obj =>
    simp only [machine, getObjRef]
    split_ifs
    all_goals first
      | exact hs
      | exact hset obj _ fun _ => incr_lt _
  | putObjRef obj =>
    simp only [machine, putObjRef]
    split_ifs
    all_goals first
      | exact hs
      | exact hset obj _ fun _ => decr_lt _
  | destroy obj =>
    simp only [machine, destroy]
    by_cases hvalid : (s.syncTable obj).state = .invalid
    · rw [deinitObject_of_invalid fun h => h.2.2 hvalid]
      exact hs
    · rw [hacc.deinitObject hvalid]
      exact hs.destroyedDevice obj
  | openDev fhOpen =>
    simp only [machine, openDev]
    split_ifs <;> exact hs
  | release => exact hs
  | setTriggerCbWithoutSwitch b => exact hs

theorem mem_objsFrom : k ∈ objsFrom obj n ↔ obj ≤ k ∧ k < obj + n := by
  unfold objsFrom
  rw [List.mem_map]
  constructor
  · rintro ⟨i, hi, rfl⟩
    rw [List.mem_range] at hi
    omega
  · rintro ⟨hle, hlt⟩
    refine ⟨(k - obj).toNat, List.mem_range.mpr (by omega), by omega⟩

theorem nodup_objsFrom (obj : ℤ) (n : ℕ) : (objsFrom obj n).Nodup := by
  apply List.nodup_range.map
  intro i j hij
  dsimp only at hij
  omega

theorem mem_tableObjs : k ∈ tableObjs ↔ 0 < k ∧ k < maxObjs := by
  have h : k ∈ tableObjs ↔ 1 ≤ k ∧ k < 1 + (1023 : ℕ) := mem_objsFrom
  rw [h]
  change _ ↔ 0 < k ∧ k < 1024
  omega

theorem nodup_tableObjs : tableObjs.Nodup := nodup_objsFrom 1 1023

attribute [local irreducible] tableObjs

theorem decr_eq_zero (h : n < 2 ^ 32) : decr n = 0 ↔ n = 1 := by
  unfold decr
  omega

theorem signal_active (hrow : (s.syncTable obj).Sound)
    (hactive : (s.syncTable obj).state = .active) (hpos : 0 < obj) (hlt : obj < maxObjs) :
    ((s.syncTable obj).type = .group ∧ signal s obj statusError = (s, [.returned .eInval])) ∨
    ((s.syncTable obj).type = .indv ∧ (s.syncTable obj).refCnt ≠ 1 ∧
      signal s obj statusError = (s.setRow obj { s.syncTable obj with
        refCnt := decr (s.syncTable obj).refCnt }, [.returned .ok])) ∨
    ((s.syncTable obj).refCnt = 1 ∧ Signals s obj statusError .signaledError) := by
  have hrange : ¬ (maxObjs ≤ obj ∨ obj ≤ 0) := by omega
  have hvalid : ¬ (s.syncTable obj).state = .invalid := by
    rw [hactive]
    exact SyncState.noConfusion
  cases htype : (s.syncTable obj).type with
  | group =>
    refine .inl ⟨rfl, ?_⟩
    unfold signal
    rw [if_neg hrange, if_neg hvalid, if_pos htype]
  | indv =>
    right
    by_cases href : (s.syncTable obj).refCnt = 1
    · exact .inr ⟨href, hpos, hlt, htype, hactive, rfl, (decr_eq_zero hrow.refCnt).mpr href⟩
    · refine .inl ⟨rfl, href, ?_⟩
      have hdecr : decr (s.syncTable obj).refCnt ≠ 0 :=
        fun h => href ((decr_eq_zero hrow.refCnt).mp h)
      have hgroup : ¬ (s.syncTable obj).type = .group := by
        rw [htype]
        exact SyncType.noConfusion
      have hstatus : signaledStatus statusError = some .signaledError := rfl
      unfold signal
      rw [if_neg hrange, if_neg hvalid, if_neg hgroup, if_neg (not_not.mpr hactive), hstatus]
      dsimp only
      rw [if_pos hdecr]

theorem joined_error (row : Row) : row.joined .signaledError = .signaledError := by
  unfold Row.joined
  split <;> rfl

theorem callbacksAt_self
    (hobj : ∀ p ∈ (s.syncTable obj).parentsList, p ≠ obj) :
    callbacksAt obj (signaledEvents s obj state) =
      (s.syncTable obj).callbackList.map (·, state) := by
  have hparents : callbacksAt obj ((s.syncTable obj).parentsList.flatMap fun p =>
      (s.syncTable p).parentEvents s.eventq p state) = [] := by
    rw [callbacksAt, List.filterMap_flatMap, List.flatMap_eq_nil_iff]
    intro p hp
    unfold Row.parentEvents
    split
    · exact (callbacksAt_dispatched ..).trans (if_neg (hobj p hp))
    · rfl
  unfold signaledEvents
  rw [callbacksAt_append, callbacksAt_append, hparents, callbacksAt_dispatched, if_pos rfl]
  simp [callbacksAt, Event.callbackAt]

theorem callbacksAt_signaledDevice (hacc : Accounted s h)
    (hsig : Signals s obj status .signaledError) (k : ℤ) :
    callbacksAt k (signaledEvents s obj .signaledError) ++
        ((signaledDevice s obj .signaledError).syncTable k).callbackList.map (·, .signaledError) =
      (s.syncTable k).callbackList.map (·, .signaledError) := by
  by_cases hobj : k = obj
  · subst hobj
    rw [callbacksAt_self fun p hp => (hacc.parents_valid p hp).1, signaledDevice_self]
    exact List.append_nil _
  rw [callbacksAt_signaled (Ne.symm hobj) (hacc.nodup_parents obj), joined_error]
  by_cases hp : k ∈ (s.syncTable obj).parentsList
  · rw [signaledDevice_parent _ hobj hp]
    by_cases hz : decr (s.syncTable k).remaining = 0
    · rw [if_pos ⟨hp, hz⟩]
      simp only [Row.parentSignaled, if_pos hz, List.map_nil, List.append_nil]
    · rw [if_neg fun h => hz h.2]
      simp only [Row.parentSignaled, if_neg hz, List.nil_append]
  · rw [signaledDevice_other _ hobj hp, if_neg fun h => hp h.1, List.nil_append]

/-- The table after the first loop went through `done`. -/
structure Signaling (s₀ : SyncDevice) (lost : ℤ → ℕ) (done : List ℤ)
    (r : SyncDevice × List Event) : Prop where
  accounted : ∃ h, Accounted r.1 h ∧ h.lost = lost
  sound : Sound r.1
  type : ∀ k, (r.1.syncTable k).type = (s₀.syncTable k).type
  valid : ∀ k, (r.1.syncTable k).state = .invalid ↔ (s₀.syncTable k).state = .invalid
  active : ∀ k, (s₀.syncTable k).type = .indv → ((r.1.syncTable k).state = .active ↔
    (s₀.syncTable k).state = .active ∧ ¬ (k ∈ done ∧ (s₀.syncTable k).refCnt = 1))
  refCnt : ∀ k, k ∉ done → (s₀.syncTable k).type = .indv →
    (r.1.syncTable k).refCnt = (s₀.syncTable k).refCnt
  callbacks : ∀ k, callbacksAt k r.2 ++
      (r.1.syncTable k).callbackList.map (·, .signaledError) =
    (s₀.syncTable k).callbackList.map (·, .signaledError)

section FirstLoop

variable {s₀ : SyncDevice} {lost : ℤ → ℕ} {done : List ℤ} {r : SyncDevice × List Event} {obj : ℤ}

theorem Signaling.notMem (hr : Signaling s₀ lost done r) (hobj : obj ∉ done)
    (hindv : (s₀.syncTable obj).type = .indv) :
    (r.1.syncTable obj).state = .active ↔ (s₀.syncTable obj).state = .active := by
  rw [hr.active obj hindv]
  exact ⟨fun h => h.1, fun h => ⟨h, fun hd => hobj hd.1⟩⟩

theorem Signaling.pass (hr : Signaling s₀ lost done r) (obj : ℤ) (rc : List Event)
    (hrc : ∀ k, callbacksAt k rc = [])
    (hobj : (s₀.syncTable obj).type = .indv → (s₀.syncTable obj).state = .active →
      (s₀.syncTable obj).refCnt ≠ 1) :
    Signaling s₀ lost (done ++ [obj]) (r.1, r.2 ++ rc) := by
  refine ⟨hr.accounted, hr.sound, hr.type, hr.valid, fun k hindv => ?_, fun k hk => ?_, fun k => ?_⟩
  · rw [hr.active k hindv, List.mem_append, List.mem_singleton]
    refine and_congr_right fun hactive => not_congr (and_congr_left fun href => ?_)
    refine ⟨fun h => .inl h, fun h => h.resolve_right ?_⟩
    rintro rfl
    exact hobj hindv hactive href
  · exact hr.refCnt k fun hd => hk (List.mem_append_left _ hd)
  · rw [callbacksAt_append, hrc, List.append_nil]
    exact hr.callbacks k

theorem Signaling.dropRef (hr : Signaling s₀ lost done r)
    (hobj : (s₀.syncTable obj).refCnt ≠ 1) :
    Signaling s₀ lost (done ++ [obj]) (r.1.setRow obj { r.1.syncTable obj with
      refCnt := decr (r.1.syncTable obj).refCnt }, r.2 ++ [.returned .ok]) := by
  obtain ⟨h, hacc, hlost⟩ := hr.accounted
  have hsame := sameLinks_setRow r.1 obj { r.1.syncTable obj with
    refCnt := decr (r.1.syncTable obj).refCnt } ⟨rfl, rfl, rfl, rfl, rfl⟩
  have hpass := hr.pass obj [.returned .ok] (fun _ => rfl) fun _ _ => hobj
  constructor
  · exact ⟨h, hacc.of_sameLinks hsame, hlost⟩
  · exact hr.sound.setRow fun hvalid => (hr.sound obj hvalid).setOther _ _ _ (decr_lt _)
  · exact fun k => (hsame.type k).trans (hr.type k)
  · intro k
    rw [hsame.state]
    exact hr.valid k
  · intro k hindv
    rw [hsame.state]
    exact hpass.active k hindv
  · intro k hk hindv
    have hne : k ≠ obj := fun h => hk (List.mem_append_right _ (List.mem_singleton.mpr h))
    rw [setRow_syncTable, if_neg hne]
    exact hpass.refCnt k hk hindv
  · intro k
    rw [← hpass.callbacks k, setRow_syncTable]
    by_cases hk : k = obj
    · rw [if_pos hk, hk]
    · rw [if_neg hk]

theorem signaledDevice_indv {h : History} (hacc : Accounted s h) (state : SyncState) {k : ℤ}
    (hk : k ≠ obj) (hindv : (s.syncTable k).type = .indv) :
    (signaledDevice s obj state).syncTable k = s.syncTable k :=
  signaledDevice_other state hk (hacc.notMem_of_indv hindv obj)

theorem Signaling.signaled (hr : Signaling s₀ lost done r) (hobj : obj ∉ done)
    (hsig : Signals r.1 obj statusError .signaledError) (href : (r.1.syncTable obj).refCnt = 1) :
    Signaling s₀ lost (done ++ [obj]) (signaledDevice r.1 obj .signaledError,
      r.2 ++ signaledEvents r.1 obj .signaledError) := by
  obtain ⟨h, hacc, hlost⟩ := hr.accounted
  have hindv : (s₀.syncTable obj).type = .indv := (hr.type obj).symm.trans hsig.type
  have hvalid : (r.1.syncTable obj).state ≠ .invalid := by
    rw [hsig.active]
    exact SyncState.noConfusion
  have hcalls := callbacksAt_signaledDevice hacc hsig
  constructor
  · exact ⟨{ h with released := fun g =>
      if g ∈ (r.1.syncTable obj).parentsList then obj :: h.released g else h.released g },
      hacc.signaled hsig rfl fun _ => rfl, hlost⟩
  · exact hr.sound.signaledDevice hacc hsig
  · exact fun k => (signaledDevice_type _).trans (hr.type k)
  · intro k
    rw [← hr.valid k]
    refine ⟨signaledDevice_invalid _ SyncState.noConfusion, fun hk => ?_⟩
    have hne : k ≠ obj := fun h => hvalid (h ▸ hk)
    have hp : k ∉ (r.1.syncTable obj).parentsList := fun hp => (hacc.parents_valid k hp).2 hk
    rw [signaledDevice_other _ hne hp]
    exact hk
  · intro k hk
    rw [List.mem_append, List.mem_singleton]
    by_cases hko : k = obj
    · rw [hko, signaledDevice_self]
      refine iff_of_false SyncState.noConfusion fun hn => hn.2 ⟨.inr rfl, ?_⟩
      rw [← hr.refCnt obj hobj hindv]
      exact href
    · rw [signaledDevice_indv hacc _ hko ((hr.type k).trans hk), hr.active k hk]
      simp only [hko, or_false]
  · intro k hk hindv
    have hne : k ≠ obj := fun h => hk (List.mem_append_right _ (List.mem_singleton.mpr h))
    rw [signaledDevice_indv hacc _ hne ((hr.type k).trans hindv)]
    exact hr.refCnt k (fun hd => hk (List.mem_append_left _ hd)) hindv
  · intro k
    rw [callbacksAt_append, List.append_assoc, hcalls]
    exact hr.callbacks k

theorem Signaling.step (hr : Signaling s₀ lost done r) (hobj : obj ∉ done) (hpos : 0 < obj)
    (hlt : obj < maxObjs) : Signaling s₀ lost (done ++ [obj]) (closeSignal r obj) := by
  have hnil := fun h => hr.pass obj [] (fun _ => rfl) h
  unfold closeSignal
  by_cases hactive : (r.1.syncTable obj).state = .active
  · rw [if_pos hactive]
    have hvalid : (r.1.syncTable obj).state ≠ .invalid := by
      rw [hactive]
      exact SyncState.noConfusion
    rcases signal_active (hr.sound obj hvalid) hactive hpos hlt with
      ⟨hgroup, hc⟩ | ⟨hindv, href, hc⟩ | ⟨href, hsig⟩
    · rw [hc]
      refine hr.pass _ _ (fun _ => rfl) fun hindv => ?_
      rw [hr.type obj, hindv] at hgroup
      cases hgroup
    · rw [hc]
      rw [hr.type obj] at hindv
      rw [hr.refCnt obj hobj hindv] at href
      exact hr.dropRef href
    · obtain ⟨h, hacc, -⟩ := hr.accounted
      rw [signal_eq hsig (hacc.nodup_parents obj) hacc.parents_valid]
      exact hr.signaled hobj hsig href
  · rw [if_neg hactive]
    rw [List.append_nil] at hnil
    refine hnil fun hindv ha => absurd ((hr.notMem hobj hindv).mpr ha) hactive

theorem Signaling.loop (objs : List ℤ) (hr : Signaling s₀ lost done r)
    (hnodup : (done ++ objs).Nodup) (hrange : ∀ obj ∈ objs, 0 < obj ∧ obj < maxObjs) :
    Signaling s₀ lost (done ++ objs) (objs.foldl closeSignal r) := by
  induction objs generalizing done r with
  | nil =>
    rw [List.append_nil]
    exact hr
  | cons obj objs ih =>
    have hobj : obj ∉ done := by
      intro hd
      exact (List.nodup_append.mp hnodup).2.2 obj hd obj List.mem_cons_self rfl
    have hin := hrange obj List.mem_cons_self
    have hstep := hr.step hobj hin.1 hin.2
    rw [List.append_cons] at hnodup ⊢
    exact ih hstep hnodup fun k hk => hrange k (List.mem_cons_of_mem _ hk)

end FirstLoop

theorem signaling_closeSignalAll (hacc : Accounted s h) (hs : Sound s) :
    Signaling s h.lost tableObjs (closeSignalAll s) := by
  have hstart : Signaling s h.lost [] (s, []) :=
    ⟨⟨h, hacc, rfl⟩, hs, fun _ => rfl, fun _ => Iff.rfl, fun k _ => by simp, fun _ _ _ => rfl,
      fun _ => rfl⟩
  exact hstart.loop tableObjs nodup_tableObjs fun k => mem_tableObjs.mp

/-- The table after the second loop went through `done`. -/
structure Destroying (s₁ : SyncDevice) (es : List Event) (done : List ℤ)
    (r : SyncDevice × List Event) : Prop where
  accounted : ∃ h, Accounted r.1 h
  left : ∀ k, k ∉ done → (r.1.syncTable k).state = (s₁.syncTable k).state ∧
    (r.1.syncTable k).callbackList = (s₁.syncTable k).callbackList ∧
    (r.1.syncTable k).signaled = (s₁.syncTable k).signaled
  gone : ∀ k ∈ done, (r.1.syncTable k).state = .invalid
  events : ∀ k, callbacksAt k r.2 = callbacksAt k es

section SecondLoop

variable {s₁ : SyncDevice} {es : List Event} {done : List ℤ} {r : SyncDevice × List Event} {obj : ℤ}

theorem Destroying.step (hr : Destroying s₁ es done r) :
    Destroying s₁ es (done ++ [obj]) (closeDestroy r obj) := by
  obtain ⟨h, hacc⟩ := hr.accounted
  have hmem : ∀ k, k ∈ done ++ [obj] ↔ k ∈ done ∨ k = obj := by simp
  unfold closeDestroy
  by_cases hvalid : (r.1.syncTable obj).state = .invalid
  · rw [if_neg (not_not.mpr hvalid)]
    refine ⟨hr.accounted, fun k hk => hr.left k fun hd => hk ((hmem k).mpr (.inl hd)),
      fun k hk => ?_, hr.events⟩
    rcases (hmem k).mp hk with hd | rfl
    · exact hr.gone k hd
    · exact hvalid
  · rw [if_pos hvalid, destroy, hacc.deinitObject hvalid]
    have hrow : ∀ k, k ≠ obj → (destroyedDevice r.1 obj).syncTable k = unlinkedRow r.1 obj k :=
      fun k hk => if_neg hk
    have hself : (destroyedDevice r.1 obj).syncTable obj = {} := if_pos rfl
    have hacc' := accounted_step r.1 h (.destroy obj) hacc
    simp only [machine, destroy, hacc.deinitObject hvalid] at hacc'
    refine ⟨⟨_, hacc'⟩, fun k hk => ?_, fun k hk => ?_, fun k => ?_⟩
    · rw [hmem, not_or] at hk
      rw [hrow k hk.2]
      exact hr.left k hk.1
    · by_cases hko : k = obj
      · rw [hko, hself]
      · rw [hrow k hko]
        exact hr.gone k (((hmem k).mp hk).resolve_right hko)
    · rw [callbacksAt_append, hr.events]
      exact List.append_nil _

theorem Destroying.loop (objs : List ℤ) (hr : Destroying s₁ es done r) :
    Destroying s₁ es (done ++ objs) (objs.foldl closeDestroy r) := by
  induction objs generalizing done r with
  | nil =>
    rw [List.append_nil]
    exact hr
  | cons obj objs ih =>
    rw [List.append_cons]
    exact ih hr.step

end SecondLoop

theorem destroying_start (hacc : Accounted s h) (es : List Event) : Destroying s es [] (s, es) :=
  ⟨⟨h, hacc⟩, fun _ _ => ⟨rfl, rfl, rfl⟩, fun _ hk => absurd hk List.not_mem_nil, fun _ => rfl⟩

theorem Accounted.closing (hacc : Accounted s h) : Accounted (CamSync.closing s) h :=
  hacc.of_sameLinks ⟨rfl, fun _ => rfl, fun _ => rfl, fun _ => rfl, fun _ => rfl, fun _ => rfl⟩

theorem close_last (hlast : s.openCnt = 1) :
    callbacksAt k (close s).2 =
      callbacksAt k (tableObjs.foldl closeDestroy (closeSignalAll (closing s))).2 ∧
    (close s).1.syncTable =
      (tableObjs.foldl closeDestroy (closeSignalAll (closing s))).1.syncTable := by
  have hzero : s.openCnt - 1 = 0 := by omega
  unfold close
  dsimp only
  rw [if_pos hzero, callbacksAt_append]
  exact ⟨List.append_nil _, rfl⟩

theorem served_iff (h : row.Sound) : row.Served ↔ row.Done := by
  unfold Row.Served
  rw [h.signaled]
  exact ⟨fun hs => hs.2, fun hd => ⟨h.callbacks hd, hd⟩⟩

/-- Nobody is left waiting by the first loop if and only if the table can be closed. -/
theorem done_iff_closable (hacc : Accounted s h) (hr : Signaling s h.lost tableObjs r) :
    (∀ k, (s.syncTable k).state ≠ .invalid → (r.1.syncTable k).Done) ↔ Closable s := by
  obtain ⟨h', hacc', hlost⟩ := hr.accounted
  constructor
  · intro hdone
    have hindv : ∀ k, (s.syncTable k).type = .indv → (s.syncTable k).state = .active →
        (r.1.syncTable k).state ≠ .active := by
      intro k _ hactive ha
      have hd := hdone k (by rw [hactive]; exact SyncState.noConfusion)
      have hsignaled := hd.1
      rw [ha] at hsignaled
      cases hsignaled
    constructor
    · intro obj hi hactive
      by_contra href
      exact hindv obj hi hactive ((hr.active obj hi).mpr ⟨hactive, fun hd => href hd.2⟩)
    · intro g hg
      have hzero := (hdone g hg.2).2
      have hlive : LiveGroup r.1 g := by
        rw [LiveGroup, hr.type g, Ne, hr.valid g]
        exact hg
      have hcount := hacc'.count g hlive
      have hcount₀ := hacc.count g hg
      rw [hlost] at hcount
      omega
  · intro hclosable k hvalid
    have hvalid' : (r.1.syncTable k).state ≠ .invalid := fun h => hvalid ((hr.valid k).mp h)
    have hnone : ∀ c, (r.1.syncTable c).type = .indv → (r.1.syncTable c).state ≠ .active := by
      intro c hc ha
      rw [hr.type] at hc
      have hact := (hr.active c hc).mp ha
      have hvalidc : (s.syncTable c).state ≠ .invalid := by
        rw [hact.1]
        exact SyncState.noConfusion
      exact hact.2 ⟨mem_tableObjs.mpr (hacc.range c hvalidc), hclosable.lastRef c hc hact.1⟩
    have hremaining : (r.1.syncTable k).remaining = 0 := by
      cases htype : (r.1.syncTable k).type with
      | indv => exact (hr.sound k hvalid').indv htype
      | group =>
        have hlive : LiveGroup r.1 k := ⟨htype, hvalid'⟩
        have hpending : pending r.1 k = 0 := by
          unfold pending
          rw [List.countP_eq_zero]
          intro c _ hc
          have hcar := of_decide_eq_true hc
          exact hnone c (hacc'.carries c k hcar.2).indv hcar.1
        have hlive₀ : LiveGroup s k := ⟨(hr.type k).symm.trans htype, hvalid⟩
        have hcount := hacc'.count k hlive
        have hcount₀ := hacc.count k hlive₀
        have hequal := hclosable.counted k hlive₀
        rw [hlost] at hcount
        omega
    have hactive : (r.1.syncTable k).state ≠ .active := by
      intro ha
      cases htype : (r.1.syncTable k).type with
      | indv => exact hnone k htype ha
      | group =>
        have hpos := (hr.sound k hvalid').group htype ha
        omega
    refine ⟨?_, hremaining⟩
    cases hstate : (r.1.syncTable k).state with
    | invalid => exact absurd hstate hvalid'
    | active => exact absurd hstate hactive
    | signaledSuccess => rfl
    | signaledError => rfl

theorem served_when_destroyed (hnodup : objs.Nodup) (hacc : Accounted r.1 h) (hs : Sound r.1)
    (hobjs : ∀ k, (r.1.syncTable k).state ≠ .invalid → k ∈ objs) :
    (∀ before obj after, objs = before ++ obj :: after →
      ((before.foldl closeDestroy r).1.syncTable obj).state ≠ .invalid →
        ((before.foldl closeDestroy r).1.syncTable obj).Served) ↔
      ∀ k, (r.1.syncTable k).state ≠ .invalid → (r.1.syncTable k).Done := by
  have hleft : ∀ before obj after, objs = before ++ obj :: after →
      ((before.foldl closeDestroy r).1.syncTable obj).state = (r.1.syncTable obj).state ∧
        (((before.foldl closeDestroy r).1.syncTable obj).Served ↔
          (r.1.syncTable obj).Served) := by
    intro before obj after hsplit
    rw [hsplit] at hnodup
    have hobj : obj ∉ before := fun hb =>
      (List.nodup_append.mp hnodup).2.2 obj hb obj List.mem_cons_self rfl
    obtain ⟨hstate, hcalls, hsignaled⟩ := ((destroying_start hacc r.2).loop before).left obj hobj
    unfold Row.Served
    rw [hcalls, hsignaled]
    exact ⟨hstate, Iff.rfl⟩
  constructor
  · intro hserved k hvalid
    obtain ⟨before, after, hsplit⟩ := List.append_of_mem (hobjs k hvalid)
    obtain ⟨hstate, hiff⟩ := hleft before k after hsplit
    rw [← hstate] at hvalid
    have hrow := hserved before k after hsplit hvalid
    rw [hstate] at hvalid
    exact (served_iff (hs k hvalid)).mp (hiff.mp hrow)
  · intro hdone before obj after hsplit hvalid
    obtain ⟨hstate, hiff⟩ := hleft before obj after hsplit
    rw [hstate] at hvalid
    exact hiff.mpr ((served_iff (hs obj hvalid)).mpr (hdone obj hvalid))

theorem all_destroyed
    (hacc : Accounted r.1 h) (hobjs : ∀ k, (r.1.syncTable k).state ≠ .invalid → k ∈ objs) (k : ℤ) :
    ((objs.foldl closeDestroy r).1.syncTable k).state = .invalid ∧
      callbacksAt k (objs.foldl closeDestroy r).2 = callbacksAt k r.2 := by
  have hall := (destroying_start hacc r.2).loop objs
  refine ⟨?_, hall.events k⟩
  by_cases hk : k ∈ objs
  · exact hall.gone k hk
  · rw [(hall.left k hk).1]
    by_contra hvalid
    exact hk (hobjs k hvalid)

theorem leavesNoWaiter_iff (hacc : Accounted s h) (hs : Sound s)
    (hlast : s.openCnt = 1) : LeavesNoWaiter s ↔ Closable s := by
  have hacc₀ := hacc.closing
  have hr : Signaling (closing s) h.lost tableObjs (closeSignalAll (closing s)) :=
    signaling_closeSignalAll hacc₀ hs
  obtain ⟨h', hacc', -⟩ := hr.accounted
  have hvalid : ∀ k, ((closeSignalAll (closing s)).1.syncTable k).state ≠ .invalid ↔
      (s.syncTable k).state ≠ .invalid := fun k => not_congr (hr.valid k)
  have hobjs : ∀ k, ((closeSignalAll (closing s)).1.syncTable k).state ≠ .invalid →
      k ∈ tableObjs := fun k hk => mem_tableObjs.mpr (hacc'.range k hk)
  have hserved := served_when_destroyed nodup_tableObjs hacc' hr.sound hobjs
  have hclosable : Closable (closing s) ↔ Closable s :=
    ⟨fun h => ⟨h.1, h.2⟩, fun h => ⟨h.1, h.2⟩⟩
  rw [← hclosable, ← done_iff_closable hacc₀ hr]
  constructor
  · intro hleaves k hk
    exact hserved.mp hleaves.served k ((hvalid k).mpr hk)
  · intro hdone
    have hdone' := fun k hk => hdone k ((hvalid k).mp hk)
    constructor
    · intro k hk
      have hcalls := hr.callbacks k
      have hrow := (hr.sound k ((hvalid k).mpr hk)).callbacks (hdone k hk)
      rw [hrow, List.map_nil, List.append_nil] at hcalls
      rw [(close_last hlast).1, (all_destroyed hacc' hobjs k).2]
      exact hcalls
    · exact hserved.mpr hdone'
    · intro k
      rw [(close_last (k := k) hlast).2]
      exact (all_destroyed hacc' hobjs k).1

theorem sound_reachable (is : List Input) :
    ∃ h, Accounted (machine.run initial is).1 h ∧ Sound (machine.run initial is).1 := by
  have hrun := (machine.monitored_run History.note (initial, {}) is).1
  have hinv := watched.invariant (I := fun p => Accounted p.1 p.2 ∧ Sound p.1)
    (fun p i hp => ⟨accounted_step p.1 p.2 i hp.1, sound_step hp.1 hp.2 i⟩) is
    (s := (initial, {})) ⟨accounted_initial, fun k hk => absurd rfl hk⟩
  exact ⟨_, hrun ▸ hinv⟩

/-- The last close of a reachable table leaves nobody waiting if and only if every active object
has one reference left and no group counts a child that was destroyed. -/
theorem close_leaves_no_waiter (is : List Input) (hlast : (machine.run initial is).1.openCnt = 1) :
    LeavesNoWaiter (machine.run initial is).1 ↔ Closable (machine.run initial is).1 := by
  obtain ⟨h, hacc, hs⟩ := sound_reachable is
  exact leavesNoWaiter_iff hacc hs hlast

theorem closable_of_table (is : List Input)
    (h : ∀ obj ∈ tableObjs, let s := (machine.run initial is).1
      ((s.syncTable obj).type = .indv → (s.syncTable obj).state = .active →
        (s.syncTable obj).refCnt = 1) ∧
      ((s.syncTable obj).type = .group → (s.syncTable obj).remaining = pending s obj)) :
    Closable (machine.run initial is).1 := by
  obtain ⟨history, hacc, -⟩ := sound_reachable is
  have hmem : ∀ obj, ((machine.run initial is).1.syncTable obj).state ≠ .invalid →
      obj ∈ tableObjs := fun obj hobj => mem_tableObjs.mpr (hacc.range obj hobj)
  constructor
  · intro obj hindv hactive
    have hvalid : ((machine.run initial is).1.syncTable obj).state ≠ .invalid := by
      rw [hactive]
      exact SyncState.noConfusion
    exact (h obj (hmem obj hvalid)).1 hindv hactive
  · intro g hg
    exact (h g (hmem g hg.2)).2 hg.1

def mergedAndWaiting : List Input :=
  [.openDev true, .create, .create, .merge [1, 2] {}, .getObjRef 1, .getObjRef 2,
    .registerCallback ⟨5, 0⟩ 3 true]

theorem mergedAndWaiting_served : LeavesNoWaiter (machine.run initial mergedAndWaiting).1 :=
  (close_leaves_no_waiter mergedAndWaiting (by decide)).mpr
    (closable_of_table mergedAndWaiting (by decide +kernel))

def unreferenced : List Input := [.openDev true, .create, .registerCallback ⟨5, 0⟩ 1 true]

/-- The signal of the close drops a reference that is not there, and the callback is freed with
the row. -/
theorem unreferenced_dropped :
    ¬ ∀ is : List Input, (machine.run initial is).1.openCnt = 1 →
      LeavesNoWaiter (machine.run initial is).1 := by
  intro h
  obtain ⟨history, hacc, hs⟩ := sound_reachable unreferenced
  have hlast : (machine.run initial unreferenced).1.openCnt = 1 := by decide
  have hclosable := (leavesNoWaiter_iff hacc hs hlast).mp (h unreferenced hlast)
  have href := hclosable.lastRef 1 (by decide) (by decide)
  revert href
  decide

end KernelModules.CamSync
