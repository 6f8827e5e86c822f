import KernelModules.SyncCompletion

/-!
# User payloads beside kernel callbacks

A kernel callback is dispatched at its registration only when the object is signaled and has no
child left to wait for. The user payload path asks for the signaled state alone. On a group that
has seen some of its children but not all, the state says signaled already: there the user event
goes out early, with a status that may still change. Everywhere else the two paths agree.
-/

namespace KernelModules.CamSync

def Event.userEventAt (g : ℤ) : Event → Option (Payload × SyncState)
  | .userEvent obj status payload => if obj = g then some (payload, status) else none
  | _ => none

/-- The user events for `g`, with their status, in order. -/
def userEventsAt (g : ℤ) (es : List Event) : List (Payload × SyncState) :=
  es.filterMap (Event.userEventAt g)

def signals (later : List (ℤ × ℕ)) : List Input := later.map fun p => .signal p.1 p.2

/-- Both are registered on `g`, with nothing in between. -/
def registerBoth (cb : Callback) (payload : Payload) (g : ℤ) : List Input :=
  [.registerCallback cb g true, .registerUserPayload payload g true]

/-- In one step the user event and the callback go out together and with the same status, and
that only once no child is left and with the status the group keeps. -/
def Agree (cb : Callback) (payload : Payload) (g : ℤ) (r : SyncDevice × List Event) : Prop :=
  ∀ status,
    ((cb, status) ∈ callbacksAt g r.2 ↔ (payload, status) ∈ userEventsAt g r.2) ∧
    ((payload, status) ∈ userEventsAt g r.2 → (r.1.syncTable g).remaining = 0 ∧
      ∀ later, ((machine.run r.1 (signals later)).1.syncTable g).state = status)

/-- The registration agrees, and so does every signal after it; an error of a child that carries
the group is the state of the group from then on. -/
def PathsAgree (s : SyncDevice) (cb : Callback) (payload : Payload) (g : ℤ) : Prop :=
  Agree cb payload g (machine.run s (registerBoth cb payload g)) ∧
  ∀ later obj status,
    let s' := (machine.run (machine.run s (registerBoth cb payload g)).1 (signals later)).1
    Agree cb payload g (signal s' obj status) ∧
    (Signals s' obj status .signaledError → g ∈ (s'.syncTable obj).parentsList → ∀ later',
      ((machine.run (signal s' obj status).1 (signals later')).1.syncTable g).state =
        .signaledError)

theorem userEventsAt_dispatched (eventq : Bool) (g obj : ℤ) (status : SyncState) (row : Row) :
    userEventsAt g (row.dispatched eventq obj status) =
      if obj = g ∧ eventq = true then row.userPayloadList.map (·, status) else [] := by
  unfold userEventsAt Row.dispatched
  rw [List.filterMap_append]
  have hcallbacks : (row.callbackList.map fun cb => Event.callback .workq cb obj status).filterMap
      (Event.userEventAt g) = [] := by
    rw [List.filterMap_map, List.filterMap_eq_nil_iff]
    exact fun _ _ => rfl
  rw [hcallbacks, List.nil_append]
  cases eventq with
  | false => simp
  | true =>
    rw [if_pos rfl, List.filterMap_map]
    by_cases h : obj = g
    · rw [if_pos ⟨h, rfl⟩, ← List.filterMap_eq_map]
      refine List.filterMap_congr fun payload _ => ?_
      simp [Event.userEventAt, h]
    · rw [if_neg fun hb => h hb.1, List.filterMap_eq_nil_iff]
      intro payload _
      simp [Event.userEventAt, h]

variable {state : SyncState}
variable {s : SyncDevice} {g : ℤ}

theorem userEventsAt_signaled {obj : ℤ} (hg : obj ≠ g)
    (hnodup : (s.syncTable obj).parentsList.Nodup) (heventq : s.eventq = true) :
    userEventsAt g (signaledEvents s obj state) =
      if g ∈ (s.syncTable obj).parentsList ∧ decr (s.syncTable g).remaining = 0 then
        (s.syncTable g).userPayloadList.map (·, (s.syncTable g).joined state)
      else [] := by
  have hsigned := filterMap_signaledEvents (φ := Event.userEventAt g) state hg hnodup rfl
    fun p status row hp =>
      (userEventsAt_dispatched s.eventq g p status row).trans (if_neg fun h => hp h.1)
  have hself := userEventsAt_dispatched s.eventq g g ((s.syncTable g).joined state) (s.syncTable g)
  rw [if_pos ⟨rfl, heventq⟩, userEventsAt] at hself
  rw [userEventsAt, hsigned, hself]

/-- A step leaves the row of `g` and shows nothing of it. -/
structure Unseen (g : ℤ) (s : SyncDevice) (r : SyncDevice × List Event) : Prop where
  row : r.1.syncTable g = s.syncTable g
  callbacks : callbacksAt g r.2 = []
  userEvents : userEventsAt g r.2 = []

variable {h : History} {payload : Payload}

theorem signal_eventq (hs : Accounted s h) (obj : ℤ) (status : ℕ) :
    (signal s obj status).1.eventq = s.eventq := by
  rcases signal_cases s obj status with ⟨rc, hc⟩ | ⟨-, hc⟩ | ⟨state, hsig⟩
  · rw [hc]
  · rw [hc]
    rfl
  · rw [signal_eq hsig (hs.nodup_parents obj) hs.parents_valid]
    rfl

theorem signal_group (hs : Accounted s h)
    (hg : LiveGroup s g) (heventq : s.eventq = true) (obj : ℤ) (status : ℕ) :
    Unseen g s (signal s obj status) ∨
    ∃ state, Signals s obj status state ∧ g ∈ (s.syncTable obj).parentsList ∧ obj ≠ g ∧
      signal s obj status = (signaledDevice s obj state, signaledEvents s obj state) := by
  have hne : (s.syncTable obj).type = .indv → obj ≠ g := by
    rintro htype rfl
    have hgroup := hg.1
    rw [htype] at hgroup
    cases hgroup
  rcases signal_cases s obj status with ⟨rc, hc⟩ | ⟨htype, hc⟩ | ⟨state, hsig⟩
  · rw [hc]
    exact Or.inl ⟨rfl, rfl, rfl⟩
  · rw [hc]
    refine Or.inl ⟨?_, rfl, rfl⟩
    rw [setRow_syncTable, if_neg (Ne.symm (hne htype))]
  · have hobj := hne hsig.type
    have hnodup := hs.nodup_parents obj
    have hc := signal_eq hsig hnodup hs.parents_valid
    by_cases hmem : g ∈ (s.syncTable obj).parentsList
    · exact Or.inr ⟨state, hsig, hmem, hobj, hc⟩
    · rw [hc]
      refine Or.inl ⟨signaledDevice_other state (Ne.symm hobj) hmem, ?_, ?_⟩
      · rw [callbacksAt_signaled hobj hnodup, if_neg fun h => hmem h.1]
      · rw [userEventsAt_signaled hobj hnodup heventq, if_neg fun h => hmem h.1]

theorem signals_cons (p : ℤ × ℕ) (later : List (ℤ × ℕ)) (s : SyncDevice) :
    (machine.run s (signals (p :: later))).1 =
      (machine.run (signal s p.1 p.2).1 (signals later)).1 := rfl

theorem signals_invariant {I : SyncDevice → Prop}
    (hstep : ∀ s obj status, I s → I (signal s obj status).1)
    (later : List (ℤ × ℕ)) (hs : I s) : I (machine.run s (signals later)).1 := by
  induction later generalizing s with
  | nil => exact hs
  | cons p later ih =>
    rw [signals_cons]
    exact ih (hstep s p.1 p.2 hs)

/-- A live group of a reachable table, while the device is open. -/
structure Watched (g : ℤ) (s : SyncDevice) : Prop where
  accounted : ∃ h, Accounted s h
  live : LiveGroup s g
  eventq : s.eventq = true

theorem Watched.signal (hs : Watched g s) (obj : ℤ) (status : ℕ) :
    Watched g (CamSync.signal s obj status).1 := by
  obtain ⟨h, hacc⟩ := hs.accounted
  refine ⟨⟨_, accounted_step s h (.signal obj status) hacc⟩, ?_, ?_⟩
  · rcases signal_group hacc hs.live hs.eventq obj status with hu | ⟨state, hsig, hmem, hobj, hc⟩
    · rw [LiveGroup, hu.row]
      exact hs.live
    · rw [LiveGroup, hc, signaledDevice_parent state (Ne.symm hobj) hmem]
      exact ⟨hs.live.1, Row.joined_ne_invalid _ hsig.ne_invalid.1⟩
  · rw [signal_eventq hacc, hs.eventq]

/-- A group without children to wait for has its last state. -/
structure Settled (g : ℤ) (state : SyncState) (s : SyncDevice) : Prop extends Watched g s where
  remaining : (s.syncTable g).remaining = 0
  state : (s.syncTable g).state = state

theorem Settled.unseen (hs : Settled g state s)
    (obj : ℤ) (status : ℕ) : Unseen g s (CamSync.signal s obj status) := by
  obtain ⟨h, hacc⟩ := hs.accounted
  rcases signal_group hacc hs.live hs.eventq obj status with hu | ⟨_, -, hmem, -, -⟩
  · exact hu
  · have hpos := hacc.remaining_pos hmem
    have hzero := hs.remaining
    omega

theorem Settled.signal (hs : Settled g state s)
    (obj : ℤ) (status : ℕ) : Settled g state (CamSync.signal s obj status).1 := by
  refine ⟨hs.toWatched.signal obj status, ?_, ?_⟩
  · rw [(hs.unseen obj status).row, hs.remaining]
  · rw [(hs.unseen obj status).row, hs.state]

theorem Settled.run (hs : Settled g state s)
    (later : List (ℤ × ℕ)) : Settled g state (machine.run s (signals later)).1 :=
  signals_invariant (fun _ obj status h => h.signal obj status) later hs

theorem failed_signal (hs : Watched g s)
    (hstate : (s.syncTable g).state = .signaledError) (obj : ℤ) (status : ℕ) :
    ((signal s obj status).1.syncTable g).state = .signaledError := by
  obtain ⟨h, hacc⟩ := hs.accounted
  rcases signal_group hacc hs.live hs.eventq obj status with hu | ⟨state, -, hmem, hobj, hc⟩
  · rw [hu.row, hstate]
  · rw [hc, signaledDevice_parent state (Ne.symm hobj) hmem, Row.parentSignaled_state, Row.joined,
      if_pos hstate]

theorem failed_run (hs : Watched g s)
    (hstate : (s.syncTable g).state = .signaledError) (later : List (ℤ × ℕ)) :
    ((machine.run s (signals later)).1.syncTable g).state = .signaledError :=
  (signals_invariant (I := fun s => Watched g s ∧ (s.syncTable g).state = .signaledError)
    (fun _ obj status h => ⟨h.1.signal obj status, failed_signal h.1 h.2 obj status⟩)
    later ⟨hs, hstate⟩).2

theorem agree_of_unseen {cb : Callback}
    {r : SyncDevice × List Event} (hcallbacks : callbacksAt g r.2 = [])
    (hevents : userEventsAt g r.2 = []) : Agree cb payload g r := by
  intro status
  rw [hcallbacks, hevents]
  simp

structure Held (cb : Callback) (payload : Payload) (g : ℤ) (s : SyncDevice) : Prop
    extends Watched g s where
  callback : cb ∈ (s.syncTable g).callbackList
  payload : payload ∈ (s.syncTable g).userPayloadList

theorem mem_map_status {β : Type*} {l : List β} {a : β} (ha : a ∈ l) {state' : SyncState} :
    (a, state') ∈ l.map (·, state) ↔ state = state' := by
  rw [List.mem_map]
  constructor
  · rintro ⟨_, -, h⟩
    exact (Prod.mk.inj h).2
  · rintro rfl
    exact ⟨a, ha, rfl⟩

theorem Held.signal {cb : Callback}
    (hs : Held cb payload g s) (obj : ℤ) (status : ℕ) :
    Agree cb payload g (CamSync.signal s obj status) ∧
      (Held cb payload g (CamSync.signal s obj status).1 ∨
        ∃ state, Settled g state (CamSync.signal s obj status).1) := by
  obtain ⟨h, hacc⟩ := hs.accounted
  have hwatched := hs.toWatched.signal obj status
  rcases signal_group hacc hs.live hs.eventq obj status with hu | ⟨state, hsig, hmem, hobj, hc⟩
  · refine ⟨agree_of_unseen hu.callbacks hu.userEvents, Or.inl ⟨hwatched, ?_, ?_⟩⟩
    · rw [hu.row]
      exact hs.callback
    · rw [hu.row]
      exact hs.payload
  · have hnodup := hacc.nodup_parents obj
    have hrow := signaledDevice_parent (s := s) state (Ne.symm hobj) hmem
    rw [hc] at hwatched ⊢
    by_cases hlast : decr (s.syncTable g).remaining = 0
    · have hsettled : Settled g ((s.syncTable g).joined state) (signaledDevice s obj state) :=
        ⟨hwatched, by rw [hrow]; exact hlast, by rw [hrow]; rfl⟩
      refine ⟨fun status' => ?_, Or.inr ⟨_, hsettled⟩⟩
      rw [callbacksAt_signaled hobj hnodup, userEventsAt_signaled hobj hnodup hs.eventq,
        if_pos ⟨hmem, hlast⟩, if_pos ⟨hmem, hlast⟩]
      rw [mem_map_status hs.callback, mem_map_status hs.payload]
      refine ⟨Iff.rfl, fun hevent => ⟨hsettled.remaining, fun later => ?_⟩⟩
      rw [(hsettled.run later).state, hevent]
    · refine ⟨agree_of_unseen ?_ ?_, Or.inl ⟨hwatched, ?_, ?_⟩⟩
      · rw [callbacksAt_signaled hobj hnodup, if_neg fun h => hlast h.2]
      · rw [userEventsAt_signaled hobj hnodup hs.eventq, if_neg fun h => hlast h.2]
      · rw [hrow]
        simpa [Row.parentSignaled, hlast] using hs.callback
      · rw [hrow]
        simpa [Row.parentSignaled, hlast] using hs.payload

theorem registerBoth_eq (s : SyncDevice) (cb : Callback) (payload : Payload) (g : ℤ) :
    machine.run s (registerBoth cb payload g) =
      ((handleRegisterUserPayload true (registerCallback true s cb g).1 payload g).1,
        (registerCallback true s cb g).2 ++
          (handleRegisterUserPayload true (registerCallback true s cb g).1 payload g).2) := by
  simp only [registerBoth, Machine.run_cons, Machine.run_nil, List.append_nil, machine]

section Registration

variable {cb : Callback} {g : ℤ} {s : SyncDevice}

theorem Watched.registerCallback_of_complete (hs : Watched g s) (hcb : cb.func ≠ 0)
    (hsignaled : (s.syncTable g).state.isSignaled = true) (hzero : (s.syncTable g).remaining = 0) :
    ∃ via, registerCallback true s cb g =
      (s, [.callback via cb g (s.syncTable g).state, .returned .ok]) := by
  obtain ⟨h, hacc⟩ := hs.accounted
  have hrange := hacc.range g hs.live.2
  refine ⟨if s.triggerCbWithoutSwitch then .direct else .workq, ?_⟩
  unfold registerCallback
  rw [if_neg (by simp only [hcb, or_false]; omega), if_neg hs.live.2, if_neg (by decide),
    if_pos ⟨hsignaled, hzero⟩]

theorem Watched.registerCallback_of_waiting (hs : Watched g s) (hcb : cb.func ≠ 0)
    (hwaiting : ¬ ((s.syncTable g).state.isSignaled = true ∧ (s.syncTable g).remaining = 0)) :
    registerCallback true s cb g = (s.setRow g { s.syncTable g with
      callbackList := (s.syncTable g).callbackList ++ [cb] }, [.returned .ok]) := by
  obtain ⟨h, hacc⟩ := hs.accounted
  have hrange := hacc.range g hs.live.2
  unfold registerCallback
  rw [if_neg (by simp only [hcb, or_false]; omega), if_neg hs.live.2, if_neg (by decide),
    if_neg hwaiting]

theorem Watched.register_of_signaled (payload : Payload) (hs : Watched g s)
    (hsignaled : (s.syncTable g).state.isSignaled = true) :
    handleRegisterUserPayload true s payload g =
      (s, [.userEvent g (s.syncTable g).state payload, .returned .ok]) := by
  obtain ⟨h, hacc⟩ := hs.accounted
  have hrange := hacc.range g hs.live.2
  unfold handleRegisterUserPayload
  rw [if_neg (by omega), if_neg (by decide), if_neg hs.live.2, if_pos]
  cases hstate : (s.syncTable g).state <;> simp [hstate, SyncState.isSignaled] at hsignaled ⊢

theorem Watched.register_of_waiting (payload : Payload) (hs : Watched g s)
    (hwaiting : (s.syncTable g).state.isSignaled ≠ true) :
    ∃ rc row, handleRegisterUserPayload true s payload g = (s.setRow g row, [.returned rc]) ∧
      payload ∈ row.userPayloadList ∧ row.callbackList = (s.syncTable g).callbackList := by
  obtain ⟨h, hacc⟩ := hs.accounted
  have hrange := hacc.range g hs.live.2
  have hstate : ¬ ((s.syncTable g).state = .signaledSuccess ∨
      (s.syncTable g).state = .signaledError) := by
    rintro (hstate | hstate) <;> exact hwaiting (by rw [hstate]; rfl)
  unfold handleRegisterUserPayload
  rw [if_neg (by omega), if_neg (by decide), if_neg hs.live.2, if_neg hstate]
  by_cases hmem : payload ∈ (s.syncTable g).userPayloadList
  · refine ⟨.eAlready, s.syncTable g, ?_, hmem, rfl⟩
    rw [if_pos hmem, SyncDevice.setRow, Function.update_eq_self]
  · exact ⟨.ok, _, if_neg hmem, by simp, rfl⟩

theorem Watched.of_apart {r : SyncDevice × List Event} (hs : Watched g s)
    (hlinks : SameLinks s r.1) (heventq : r.1.eventq = s.eventq) : Watched g r.1 := by
  obtain ⟨h, hacc⟩ := hs.accounted
  refine ⟨⟨h, hacc.of_sameLinks hlinks⟩, ?_, heventq.trans hs.eventq⟩
  rw [LiveGroup, hlinks.type, hlinks.state]
  exact hs.live

/-- After the registrations both wait, or the group was complete; and they agree. -/
theorem Watched.registered (payload : Payload) (hs : Watched g s) (hcb : cb.func ≠ 0)
    (hnot : ¬ ((s.syncTable g).state.isSignaled = true ∧ (s.syncTable g).remaining ≠ 0)) :
    Agree cb payload g (machine.run s (registerBoth cb payload g)) ∧
      (Held cb payload g (machine.run s (registerBoth cb payload g)).1 ∨
        ∃ state, Settled g state (machine.run s (registerBoth cb payload g)).1) := by
  by_cases hsignaled : (s.syncTable g).state.isSignaled = true
  · have hzero : (s.syncTable g).remaining = 0 := by
      by_contra hne
      exact hnot ⟨hsignaled, hne⟩
    have hsettled : Settled g (s.syncTable g).state s := ⟨hs, hzero, rfl⟩
    obtain ⟨via, hc⟩ := hs.registerCallback_of_complete hcb hsignaled hzero
    rw [registerBoth_eq, hc]
    rw [hs.register_of_signaled payload hsignaled]
    refine ⟨fun status => ?_, Or.inr ⟨_, hsettled⟩⟩
    have hcallback : callbacksAt g ([.callback via cb g (s.syncTable g).state, .returned .ok] ++
        [.userEvent g (s.syncTable g).state payload, .returned .ok]) =
          [cb].map (·, (s.syncTable g).state) := by
      simp [callbacksAt, Event.callbackAt]
    have hevent : userEventsAt g ([.callback via cb g (s.syncTable g).state, .returned .ok] ++
        [.userEvent g (s.syncTable g).state payload, .returned .ok]) =
          [payload].map (·, (s.syncTable g).state) := by
      simp [userEventsAt, List.filterMap_cons, Event.userEventAt]
    rw [hcallback, hevent, mem_map_status (List.mem_singleton.mpr rfl),
      mem_map_status (List.mem_singleton.mpr rfl)]
    refine ⟨Iff.rfl, fun heq => ⟨hzero, fun later => ?_⟩⟩
    rw [(hsettled.run later).state, heq]
  · have hc := hs.registerCallback_of_waiting hcb fun h => hsignaled h.1
    have hs₁ : Watched g (registerCallback true s cb g).1 := by
      refine hs.of_apart (registerCallback_sameLinks true s cb g) ?_
      rw [hc]
      rfl
    have hwaiting : ((registerCallback true s cb g).1.syncTable g).state.isSignaled ≠ true := by
      rw [(registerCallback_sameLinks true s cb g).state]
      exact hsignaled
    obtain ⟨rc, row, hp, hpayload, hcallbacks⟩ := hs₁.register_of_waiting payload hwaiting
    have hs₂ := hs₁.of_apart (handleRegisterUserPayload_apart true _ payload g).links
      (by rw [hp]; rfl)
    rw [registerBoth_eq]
    refine ⟨agree_of_unseen ?_ ?_, Or.inl ⟨hs₂, ?_, ?_⟩⟩
    · rw [hp, hc]
      rfl
    · rw [hp, hc]
      rfl
    · rw [hp, setRow_syncTable, if_pos rfl, hcallbacks, hc, setRow_syncTable, if_pos rfl]
      simp
    · rw [hp, setRow_syncTable, if_pos rfl]
      exact hpayload

end Registration

/-- On a live group of a reachable table, with the device open, a user payload and a callback
registered together go out together and with the last status of the group, under every
continuation of signals, if and only if the group was not signaled with children left. -/
theorem payload_agrees_iff (past : List Input) (cb : Callback) (payload : Payload) (g : ℤ)
    (hlive : LiveGroup (machine.run initial past).1 g)
    (hopen : (machine.run initial past).1.eventq = true) (hcb : cb.func ≠ 0) :
    PathsAgree (machine.run initial past).1 cb payload g ↔
      ¬ (((machine.run initial past).1.syncTable g).state.isSignaled = true ∧
        ((machine.run initial past).1.syncTable g).remaining ≠ 0) := by
  have hs : Watched g (machine.run initial past).1 := ⟨accounted_reachable past, hlive, hopen⟩
  generalize (machine.run initial past).1 = s at hs
  constructor
  · rintro ⟨hagree, -⟩ ⟨hsignaled, hne⟩
    have hc := hs.registerCallback_of_waiting hcb fun h => hne h.2
    have hs₁ : Watched g (registerCallback true s cb g).1 := by
      refine hs.of_apart (registerCallback_sameLinks true s cb g) ?_
      rw [hc]
      rfl
    have hstate := (registerCallback_sameLinks true s cb g).state g
    have hp := hs₁.register_of_signaled payload (by rw [hstate]; exact hsignaled)
    rw [registerBoth_eq, hp, hstate, hc] at hagree
    have hevent := ((hagree (s.syncTable g).state).1).mpr
      (by simp [userEventsAt, Event.userEventAt])
    simp [callbacksAt, Event.callbackAt] at hevent
  · intro hnot
    obtain ⟨hagree, hstart⟩ := hs.registered payload hcb hnot
    refine ⟨hagree, fun later obj status => ?_⟩
    have hlater := signals_invariant (I := fun s => Held cb payload g s ∨ ∃ state, Settled g state s)
      (fun s obj status h => h.elim (fun hheld => (hheld.signal obj status).2)
        fun h => Or.inr (h.imp fun _ hsettled => hsettled.signal obj status)) later hstart
    generalize (machine.run (machine.run s (registerBoth cb payload g)).1 (signals later)).1 = s'
      at hlater
    have hwatched : Watched g s' := hlater.elim (·.toWatched) fun h => h.elim fun _ h => h.toWatched
    refine ⟨?_, fun hsig hmem later' => ?_⟩
    · rcases hlater with hheld | ⟨state, hsettled⟩
      · exact (hheld.signal obj status).1
      · exact agree_of_unseen (hsettled.unseen obj status).callbacks
          (hsettled.unseen obj status).userEvents
    · obtain ⟨h, hacc⟩ := hwatched.accounted
      refine failed_run (hwatched.signal obj status) ?_ later'
      rw [signal_eq hsig (hacc.nodup_parents obj) hacc.parents_valid,
        signaledDevice_parent _ (Ne.symm (fun h => (hacc.parents_valid g hmem).1 h.symm)) hmem]
      simp [Row.joined]

def mergeOfTwo : List Input :=
  [.openDev true, .create, .create, .merge [1, 2] {}, .getObjRef 1, .getObjRef 2]

theorem mergeOfTwo_agrees : PathsAgree (machine.run initial mergeOfTwo).1 ⟨5, 0⟩ (8, 9) 3 :=
  (payload_agrees_iff mergeOfTwo ⟨5, 0⟩ (8, 9) 3 ⟨by decide, by decide⟩ (by decide)
    (by decide)).mpr (by decide)

/-- The first child is signaled before the registration: the user event goes out at once and the
callback waits for the second child. -/
theorem early_user_event :
    LiveGroup (machine.run initial (mergeOfTwo ++ [.signal 1 2])).1 3 ∧
      ¬ PathsAgree (machine.run initial (mergeOfTwo ++ [.signal 1 2])).1 ⟨5, 0⟩ (8, 9) 3 := by
  refine ⟨⟨by decide, by decide⟩, fun h => ?_⟩
  have hagree := (h.1 .signaledSuccess).1
  exact absurd (hagree.mpr (by decide)) (by decide)

end KernelModules.CamSync
