import KernelModules.SyncGroups

/-!
# Group completion

From its merge on, a group is followed through a run in which its children are signaled, each
once and by its last reference, among any other calls that neither destroy the group or one of
its children nor take a callback back. Its callbacks are held until the last child is signaled,
then all are dispatched, and later ones at once, with an error if some child has one.
-/

namespace KernelModules.CamSync

def Event.callbackAt (g : ℤ) : Event → Option (Callback × SyncState)
  | .callback _ cb obj status => if obj = g then some (cb, status) else none
  | _ => none

/-- The callbacks dispatched for `g`, with the status passed, in order. -/
def callbacksAt (g : ℤ) (es : List Event) : List (Callback × SyncState) :=
  es.filterMap (Event.callbackAt g)

def Input.registers (g : ℤ) : Input → Option Callback
  | .registerCallback cb obj alloc => if obj = g ∧ cb.func ≠ 0 ∧ alloc = true then some cb else none
  | _ => none

/-- The callbacks registered on `g`, in order. -/
def registered (g : ℤ) (is : List Input) : List Callback := is.filterMap (Input.registers g)

def Input.signals (c : ℤ) : Input → Option ℕ
  | .signal obj status => if obj = c then some status else none
  | _ => none

/-- The status values `c` was signaled with, in order. -/
def signalsOf (c : ℤ) (is : List Input) : List ℕ := is.filterMap (Input.signals c)

/-- The children of the group `g` are signaled while active, through their last reference and
with a status `cam_sync_signal` takes; nothing of the group is destroyed or taken back. -/
def Scheduled (g : ℤ) (objs : List ℤ) (s : SyncDevice) : Input → Prop
  | .signal obj status => obj ∈ objs →
      (s.syncTable obj).state = .active ∧ (s.syncTable obj).refCnt = 1 ∧
        (signaledStatus status).isSome = true
  | .deregisterCallback _ obj => obj ≠ g
  | .destroy obj => obj ≠ g ∧ obj ∉ objs
  | _ => True

instance (g : ℤ) (objs : List ℤ) (s : SyncDevice) (i : Input) :
    Decidable (Scheduled g objs s i) := by
  cases i <;> unfold Scheduled <;> infer_instance

/-- The state of a child that was in `state` before the run. -/
def outcome (state : SyncState) (c : ℤ) (is : List Input) : SyncState :=
  if signalsOf c is = [] then state
  else if 3 ∈ signalsOf c is then .signaledError
  else .signaledSuccess

theorem callbacksAt_append (g : ℤ) (es es' : List Event) :
    callbacksAt g (es ++ es') = callbacksAt g es ++ callbacksAt g es' := List.filterMap_append ..

theorem registered_concat (g : ℤ) (is : List Input) (i : Input) :
    registered g (is ++ [i]) = registered g is ++ (i.registers g).toList := by
  rw [registered, List.filterMap_append]
  cases h : i.registers g <;> simp [registered, h]

theorem signalsOf_concat (c : ℤ) (is : List Input) (i : Input) :
    signalsOf c (is ++ [i]) = signalsOf c is ++ (i.signals c).toList := by
  rw [signalsOf, List.filterMap_append]
  cases h : i.signals c <;> simp [signalsOf, h]

variable {state : SyncState} {c : ℤ} {r : SyncDevice × List Event}
variable {is : List Input} {g : ℤ} {s : SyncDevice} {objs : List ℤ}

theorem outcome_concat_of_none {i : Input}
    (h : i.signals c = none) : outcome state c (is ++ [i]) = outcome state c is := by
  unfold outcome
  rw [signalsOf_concat, h, Option.toList_none, List.append_nil]

theorem outcome_eq_active
    (h : outcome state c is = .active) : signalsOf c is = [] ∧ state = .active := by
  unfold outcome at h
  split_ifs at h with hnone
  exact ⟨hnone, h⟩

theorem outcome_concat_of_active {status : ℕ}
    {state' : SyncState} (hactive : outcome state c is = .active)
    (hstatus : signaledStatus status = some state') :
    outcome state c (is ++ [.signal c status]) = state' := by
  have hnone := (outcome_eq_active hactive).1
  unfold signaledStatus at hstatus
  unfold outcome
  rw [signalsOf_concat, hnone]
  split_ifs at hstatus with h2 h3
  · cases hstatus
    simp [Input.signals, h2]
  · cases hstatus
    simp [Input.signals, h3]

theorem filterMap_flatMap_of_owner {β : Type*} {φ : Event → Option β} {l : List ℤ}
    {f : ℤ → List Event} (hnodup : l.Nodup)
    (hf : ∀ p ∈ l, p ≠ g → (f p).filterMap φ = []) :
    (l.flatMap f).filterMap φ = if g ∈ l then (f g).filterMap φ else [] := by
  induction l with
  | nil => simp
  | cons p l ih =>
    rw [List.nodup_cons] at hnodup
    have ih := ih hnodup.2 fun q hq => hf q (List.mem_cons_of_mem _ hq)
    rw [List.flatMap_cons, List.filterMap_append, ih]
    by_cases hp : p = g
    · rw [← hp, if_neg hnodup.1, if_pos List.mem_cons_self, List.append_nil]
    · rw [hf p List.mem_cons_self hp, List.nil_append]
      simp only [List.mem_cons, Ne.symm hp, false_or]

theorem filterMap_signaledEvents {β : Type*} {φ : Event → Option β} {obj : ℤ}
    (state : SyncState) (hg : obj ≠ g) (hnodup : (s.syncTable obj).parentsList.Nodup)
    (hreturned : φ (.returned .ok) = none)
    (hother : ∀ p status row, p ≠ g → (Row.dispatched s.eventq p status row).filterMap φ = []) :
    (signaledEvents s obj state).filterMap φ =
      if g ∈ (s.syncTable obj).parentsList ∧ decr (s.syncTable g).remaining = 0 then
        ((s.syncTable g).dispatched s.eventq g ((s.syncTable g).joined state)).filterMap φ
      else [] := by
  have hflat := filterMap_flatMap_of_owner (φ := φ) (g := g)
    (f := fun p => (s.syncTable p).parentEvents s.eventq p state) hnodup fun p _ hp => by
      unfold Row.parentEvents
      split
      · exact hother p _ _ hp
      · rfl
  unfold signaledEvents
  rw [List.filterMap_append, List.filterMap_append, hother obj state _ hg, hflat]
  have hlast : [Event.returned .ok].filterMap φ = [] := by simp [hreturned]
  rw [hlast, List.nil_append, List.append_nil]
  by_cases hmem : g ∈ (s.syncTable obj).parentsList
  · by_cases hdecr : decr (s.syncTable g).remaining = 0
    · rw [if_pos hmem, if_pos ⟨hmem, hdecr⟩, Row.parentEvents, if_pos hdecr]
    · rw [if_pos hmem, if_neg fun h => hdecr h.2, Row.parentEvents, if_neg hdecr]
      rfl
  · rw [if_neg hmem, if_neg fun h => hmem h.1]

theorem callbacksAt_dispatched (eventq : Bool) (g obj : ℤ) (status : SyncState) (row : Row) :
    callbacksAt g (row.dispatched eventq obj status) =
      if obj = g then row.callbackList.map (·, status) else [] := by
  unfold callbacksAt Row.dispatched
  rw [List.filterMap_append, List.filterMap_map]
  have huser : (if eventq then row.userPayloadList.map (Event.userEvent obj status) else []).filterMap
      (Event.callbackAt g) = [] := by
    split
    · rw [List.filterMap_map, List.filterMap_eq_nil_iff]
      exact fun _ _ => rfl
    · rfl
  rw [huser, List.append_nil]
  by_cases h : obj = g
  · rw [if_pos h, ← List.filterMap_eq_map]
    refine List.filterMap_congr fun cb _ => ?_
    simp [Event.callbackAt, h]
  · rw [if_neg h, List.filterMap_eq_nil_iff]
    intro cb _
    simp [Event.callbackAt, h]

theorem callbacksAt_signaled {obj : ℤ} (hg : obj ≠ g)
    (hnodup : (s.syncTable obj).parentsList.Nodup) :
    callbacksAt g (signaledEvents s obj state) =
      if g ∈ (s.syncTable obj).parentsList ∧ decr (s.syncTable g).remaining = 0 then
        (s.syncTable g).callbackList.map (·, (s.syncTable g).joined state)
      else [] := by
  have hsigned := filterMap_signaledEvents (φ := Event.callbackAt g) state hg hnodup rfl
    fun p status row hp => (callbacksAt_dispatched s.eventq g p status row).trans (if_neg hp)
  have hself := callbacksAt_dispatched s.eventq g g ((s.syncTable g).joined state) (s.syncTable g)
  rw [if_pos rfl, callbacksAt] at hself
  rw [callbacksAt, hsigned, hself]

def groupStatus (s : SyncDevice) (objs : List ℤ) : SyncState :=
  if AnyError s objs then .signaledError else .signaledSuccess

/-- The group `g` of `objs` after `is`, with the events `es` so far; `before` are the states of
its children when it was merged. -/
structure Completing (g : ℤ) (objs : List ℤ) (before : ℤ → SyncState) (is : List Input)
    (es : List Event) (s : SyncDevice) : Prop where
  accounted : ∃ h, Accounted s h
  nodup : objs.Nodup
  live : LiveGroup s g
  child : ∀ c ∈ objs, Mergeable s c ∧ (s.syncTable c).state = outcome (before c) c is
  once : ∀ c ∈ objs, signalsOf c is ≠ [] → before c = .active
  carried : ∀ c, g ∈ (s.syncTable c).parentsList ↔ c ∈ activeObjs s objs
  remaining : (s.syncTable g).remaining = (activeObjs s objs).length
  state : (s.syncTable g).state = .signaledError ↔ AnyError s objs
  complete : activeObjs s objs = [] → (s.syncTable g).state.isSignaled = true
  callbacks : (s.syncTable g).callbackList =
    if activeObjs s objs = [] then [] else registered g is
  dispatched : callbacksAt g es =
    if activeObjs s objs = [] then (registered g is).map (·, groupStatus s objs) else []

/-- A step that does not show on the group. -/
structure Quiet (g : ℤ) (objs : List ℤ) (s : SyncDevice) (r : SyncDevice × List Event) :
    Prop where
  type : (r.1.syncTable g).type = (s.syncTable g).type
  state : (r.1.syncTable g).state = (s.syncTable g).state
  remaining : (r.1.syncTable g).remaining = (s.syncTable g).remaining
  callbacks : (r.1.syncTable g).callbackList = (s.syncTable g).callbackList
  child : ∀ c ∈ objs, (r.1.syncTable c).type = (s.syncTable c).type ∧
    (r.1.syncTable c).state = (s.syncTable c).state
  carried : ∀ c, g ∈ (r.1.syncTable c).parentsList ↔ g ∈ (s.syncTable c).parentsList
  events : callbacksAt g r.2 = []

theorem Completing.quiet {before : ℤ → SyncState}
    {es : List Event} (hs : Completing g objs before is es s) {i : Input} (hq : Quiet g objs s r)
    (hacc : ∃ h, Accounted r.1 h)
    (hregisters : i.registers g = none) (hsignals : ∀ c ∈ objs, i.signals c = none) :
    Completing g objs before (is ++ [i]) (es ++ r.2) r.1 := by
  have hstate : ∀ c ∈ objs, (r.1.syncTable c).state = (s.syncTable c).state :=
    fun c hc => (hq.child c hc).2
  have hactive : activeObjs r.1 objs = activeObjs s objs := activeObjs_congr _ hstate
  have herror : AnyError r.1 objs ↔ AnyError s objs := anyError_congr _ hstate
  have hregistered : registered g (is ++ [i]) = registered g is := by
    rw [registered_concat, hregisters, Option.toList_none, List.append_nil]
  refine ⟨hacc, hs.nodup, ?_, fun c hc => ⟨?_, ?_⟩, fun c hc => ?_, fun c => ?_, ?_, ?_, fun h => ?_,
    ?_, ?_⟩
  · rw [LiveGroup, hq.type, hq.state]
    exact hs.live
  · rw [Mergeable, (hq.child c hc).1, (hq.child c hc).2]
    exact (hs.child c hc).1
  · rw [hstate c hc, (hs.child c hc).2, outcome_concat_of_none (hsignals c hc)]
  · rw [signalsOf_concat, hsignals c hc, Option.toList_none, List.append_nil]
    exact hs.once c hc
  · rw [hq.carried, hs.carried, hactive]
  · rw [hq.remaining, hs.remaining, hactive]
  · rw [hq.state, hs.state, herror]
  · rw [hq.state]
    exact hs.complete (hactive ▸ h)
  · rw [hq.callbacks, hs.callbacks, hactive, hregistered]
  · rw [callbacksAt_append, hq.events, List.append_nil, hs.dispatched, hactive, hregistered]
    simp only [groupStatus, herror]

theorem quiet_of_sameLinks (h : SameLinks s r.1)
    (hcallbacks : (r.1.syncTable g).callbackList = (s.syncTable g).callbackList)
    (hevents : callbacksAt g r.2 = []) : Quiet g objs s r where
  type := h.type g
  state := h.state g
  remaining := h.remaining g
  callbacks := hcallbacks
  child c _ := ⟨h.type c, h.state c⟩
  carried c := by rw [h.parents]
  events := hevents

theorem Apart.quiet (h : Apart s r) : Quiet g objs s r := by
  refine quiet_of_sameLinks h.links (h.callbacks g) (List.filterMap_eq_nil_iff.mpr fun e he => ?_)
  cases e with
  | callback via cb obj status => exact absurd he (h.events via cb obj status)
  | userEvent obj status payload => rfl
  | object obj => rfl
  | returned rc => rfl

theorem quiet_of_others
    {idx : ℤ} (hg : g ≠ idx) (hobjs : idx ∉ objs)
    (hothers : ∀ k, k ≠ idx → r.1.syncTable k = s.syncTable k)
    (hnew : g ∉ (r.1.syncTable idx).parentsList) (hold : g ∉ (s.syncTable idx).parentsList)
    (hevents : callbacksAt g r.2 = []) : Quiet g objs s r where
  type := by rw [hothers g hg]
  state := by rw [hothers g hg]
  remaining := by rw [hothers g hg]
  callbacks := by rw [hothers g hg]
  child c hc := by
    rw [hothers c fun h => hobjs (h ▸ hc)]
    exact ⟨rfl, rfl⟩
  carried c := by
    by_cases hc : c = idx
    · rw [hc]
      exact iff_of_false hnew hold
    · rw [hothers c hc]
  events := hevents

section Steps

variable {g : ℤ} {objs : List ℤ} {before : ℤ → SyncState} {is : List Input} {es : List Event}
  {s : SyncDevice}

theorem Completing.ne_of_free (hs : Completing g objs before is es s) {idx : ℤ}
    (hfree : (s.syncTable idx).state = .invalid) : g ≠ idx ∧ idx ∉ objs := by
  constructor
  · rintro rfl
    exact hs.live.2 hfree
  · exact fun h => (hs.child idx h).1.2 hfree

theorem Completing.notMem_of_notMem (hs : Completing g objs before is es s) {c : ℤ}
    (hc : c ∉ objs) : g ∉ (s.syncTable c).parentsList := fun h =>
  hc (mem_activeObjs.mp ((hs.carried c).mp h)).1

theorem Completing.quiet_create (hs : Completing g objs before is es s) :
    Quiet g objs s (create s) := by
  obtain ⟨h, hacc⟩ := hs.accounted
  rcases create_eq hacc.zero with hc | ⟨idx, hf, hc⟩
  · rw [hc]
    exact (apart_refl s _).quiet
  · rw [hc]
    obtain ⟨hg, hobjs⟩ := hs.ne_of_free (hacc.free idx hf.free)
    exact quiet_of_others hg hobjs (fun k hk => by simp [hk]) (by simp)
      (hs.notMem_of_notMem hobjs) rfl

theorem linkedRow_callbacks (s : SyncDevice) (idx : ℤ) (objs : List ℤ) (k : ℤ) :
    (linkedRow s idx objs k).callbackList = (s.syncTable k).callbackList := by
  unfold linkedRow
  split <;> rfl

theorem Completing.quiet_merge (hs : Completing g objs before is es s) (alloc : Alloc)
    (objs' : List ℤ) : Quiet g objs s (merge alloc s objs') := by
  obtain ⟨h, hacc⟩ := hs.accounted
  rcases merge_cases alloc hacc.zero
    (fun k idx hidx => hacc.notMem_parents (hacc.free idx hidx) k) objs' with
    ⟨rc, hc⟩ | ⟨idx, s', hf, -, -, -, ⟨hm, -, hc⟩ | ⟨hu, -, hc⟩⟩
  · rw [hc]
    exact (apart_refl s _).quiet
  · rw [hc]
    obtain ⟨hg, hobjs⟩ := hs.ne_of_free (hacc.free idx hf.free)
    have hne : ∀ c ∈ objs, c ≠ idx := fun c hc h => hobjs (h ▸ hc)
    have hrow := hm.others g hg
    refine ⟨?_, ?_, ?_, ?_, fun c hc => ?_, fun c => ?_, rfl⟩
    · rw [hrow, linkedRow_type]
    · rw [hrow, linkedRow_state]
    · rw [hrow, linkedRow_remaining]
    · rw [hrow, linkedRow_callbacks]
    · rw [hm.others c (hne c hc), linkedRow_type, linkedRow_state]
      exact ⟨rfl, rfl⟩
    · by_cases hc : c = idx
      · rw [hc, hm.group]
        exact iff_of_false List.not_mem_nil (hs.notMem_of_notMem hobjs)
      · rw [hm.others c hc, mem_linkedRow_parents]
        simp [hg]
  · rw [hc]
    obtain ⟨hg, hobjs⟩ := hs.ne_of_free (hacc.free idx hf.free)
    refine quiet_of_others hg hobjs hu.others ?_ (hs.notMem_of_notMem hobjs) rfl
    rw [hu.parents]
    exact List.not_mem_nil

variable {obj : ℤ}

theorem Completing.quiet_destroy (hs : Completing g objs before is es s)
    (hg : obj ≠ g) (hobj : obj ∉ objs) : Quiet g objs s (destroy s obj) := by
  obtain ⟨h, hacc⟩ := hs.accounted
  unfold destroy
  by_cases hvalid : (s.syncTable obj).state = .invalid
  · rw [deinitObject_of_invalid fun h => h.2.2 hvalid]
    exact (apart_refl s _).quiet
  · rw [hacc.deinitObject hvalid]
    have hother : ∀ k, k ≠ obj → (destroyedDevice s obj).syncTable k = unlinkedRow s obj k :=
      fun k hk => if_neg hk
    have hrow := hother g (Ne.symm hg)
    refine ⟨by rw [hrow]; rfl, by rw [hrow]; rfl, by rw [hrow]; rfl, by rw [hrow]; rfl,
      fun c hc => ?_, fun c => ?_, rfl⟩
    · rw [hother c fun h => hobj (h ▸ hc)]
      exact ⟨rfl, rfl⟩
    · by_cases hc : c = obj
      · rw [hc]
        exact iff_of_false (by simp [destroyedDevice]) (hs.notMem_of_notMem hobj)
      · rw [hother c hc]
        simp only [unlinkedRow]
        split
        · exact List.mem_erase_of_ne (Ne.symm hg)
        · exact Iff.rfl

theorem Completing.quiet_deregister (cb : Callback) (hobj : obj ≠ g) :
    Quiet g objs s (deregisterCallback s cb obj) := by
  refine quiet_of_sameLinks (deregisterCallback_sameLinks s cb obj) ?_ ?_
  · unfold deregisterCallback
    dsimp only
    split_ifs <;> simp [Ne.symm hobj]
  · unfold deregisterCallback
    dsimp only
    split_ifs <;> rfl

theorem quiet_registerCallback {cb : Callback} {alloc : Bool}
    (h : (Input.registerCallback cb obj alloc).registers g = none) :
    Quiet g objs s (registerCallback alloc s cb obj) := by
  have hne : obj ≠ g ∨ cb.func = 0 ∨ alloc = false := by
    simp only [Input.registers, ite_eq_right_iff, reduceCtorEq] at h
    by_contra hall
    simp only [not_or, ne_eq, not_not, Bool.not_eq_false] at hall
    exact h hall
  refine quiet_of_sameLinks (registerCallback_sameLinks alloc s cb obj) ?_ ?_
  · unfold registerCallback
    dsimp only
    split_ifs with h₁ h₂ h₃ h₄ <;> try rfl
    have hobj : g ≠ obj := by
      rcases hne with hne | hne | hne
      · exact Ne.symm hne
      · exact absurd (Or.inr (Or.inr hne)) h₁
      · exact absurd (by rw [hne]; rfl) h₃
    simp [hobj]
  · unfold registerCallback
    dsimp only
    split_ifs with h₁ h₂ h₃ h₄ h₅ <;> try rfl
    all_goals
      have hobj : obj ≠ g := by
        rcases hne with hne | hne | hne
        · exact hne
        · exact absurd (Or.inr (Or.inr hne)) h₁
        · exact absurd (by rw [hne]; rfl) h₃
      simp [callbacksAt, Event.callbackAt, hobj]

theorem Completing.quiet_signal (hs : Completing g objs before is es s)
    (hobj : obj ∉ objs) (status : ℕ) : Quiet g objs s (signal s obj status) := by
  obtain ⟨h, hacc⟩ := hs.accounted
  rcases signal_cases s obj status with ⟨rc, hc⟩ | ⟨-, hc⟩ | ⟨state, hsig⟩
  · rw [hc]
    exact (apart_refl s _).quiet
  · have hapart := apart_setRow s obj { s.syncTable obj with
      refCnt := decr (s.syncTable obj).refCnt } .ok ⟨rfl, rfl, rfl, rfl, rfl⟩ rfl
    rw [hc]
    exact hapart.quiet
  · rw [signal_eq hsig (hacc.nodup_parents obj) hacc.parents_valid]
    have hnot := hs.notMem_of_notMem hobj
    have hg : g ≠ obj := by
      rintro rfl
      have hgroup := hs.live.1
      rw [hsig.type] at hgroup
      cases hgroup
    have hrow := signaledDevice_other state hg hnot
    refine ⟨by rw [hrow], by rw [hrow], by rw [hrow], by rw [hrow], fun c hc => ?_, fun c => ?_, ?_⟩
    · rw [signaledDevice_other state (show c ≠ obj from fun h => hobj (h ▸ hc))
        (hacc.notMem_of_indv (hs.child c hc).1.1 obj)]
      exact ⟨rfl, rfl⟩
    · rw [signaledDevice_parents]
      by_cases hc : c = obj
      · rw [if_pos hc, hc]
        exact iff_of_false List.not_mem_nil hnot
      · rw [if_neg hc]
    · rw [callbacksAt_signaled (Ne.symm hg) (hacc.nodup_parents obj), if_neg fun h => hnot h.1]

theorem Completing.remaining_eq_zero (hs : Completing g objs before is es s) :
    (s.syncTable g).remaining = 0 ↔ activeObjs s objs = [] := by
  rw [hs.remaining, List.length_eq_zero_iff]

theorem Completing.state_eq (hs : Completing g objs before is es s)
    (hactive : activeObjs s objs = []) : (s.syncTable g).state = groupStatus s objs := by
  have hsignaled := hs.complete hactive
  unfold groupStatus
  by_cases he : AnyError s objs
  · rw [if_pos he, hs.state.mpr he]
  · rw [if_neg he]
    cases hstate : (s.syncTable g).state with
    | signaledSuccess => rfl
    | signaledError => exact absurd (hs.state.mp hstate) he
    | active => rw [hstate] at hsignaled; cases hsignaled
    | invalid => rw [hstate] at hsignaled; cases hsignaled

theorem Completing.callbackRegistered (hs : Completing g objs before is es s) {cb : Callback}
    (hcb : cb.func ≠ 0) :
    Completing g objs before (is ++ [.registerCallback cb g true])
      (es ++ (registerCallback true s cb g).2) (registerCallback true s cb g).1 := by
  obtain ⟨h, hacc⟩ := hs.accounted
  have hrange := hacc.range g hs.live.2
  have hregistered : registered g (is ++ [.registerCallback cb g true]) =
      registered g is ++ [cb] := by
    rw [registered_concat]
    simp [Input.registers, hcb]
  have houtcome : ∀ c, outcome (before c) c (is ++ [.registerCallback cb g true]) =
      outcome (before c) c is := fun c => outcome_concat_of_none rfl
  have honce : ∀ c ∈ objs, signalsOf c (is ++ [.registerCallback cb g true]) ≠ [] →
      before c = .active := fun c hc => by
    rw [signalsOf_concat]
    simpa [Input.signals] using hs.once c hc
  have hdone : (s.syncTable g).state.isSignaled = true ∧ (s.syncTable g).remaining = 0 ↔
      activeObjs s objs = [] := by
    rw [hs.remaining_eq_zero]
    exact ⟨fun h => h.2, fun h => ⟨hs.complete h, h⟩⟩
  unfold registerCallback
  rw [if_neg (by simp only [hcb, or_false]; omega), if_neg hs.live.2, if_neg (by decide)]
  by_cases hactive : activeObjs s objs = []
  · rw [if_pos (hdone.mpr hactive)]
    refine ⟨hs.accounted, hs.nodup, hs.live, fun c hc => ?_, honce, hs.carried, hs.remaining,
      hs.state, hs.complete, ?_, ?_⟩
    · rw [houtcome]
      exact hs.child c hc
    · rw [hs.callbacks, if_pos hactive, if_pos hactive]
    · rw [callbacksAt_append, hs.dispatched, if_pos hactive, if_pos hactive, hregistered,
        List.map_append, hs.state_eq hactive]
      simp [callbacksAt, Event.callbackAt]
  · rw [if_neg (hdone.not.mpr hactive)]
    have hsame := sameLinks_setRow s g { s.syncTable g with
      callbackList := (s.syncTable g).callbackList ++ [cb] } ⟨rfl, rfl, rfl, rfl, rfl⟩
    have hobjs := activeObjs_congr objs fun c _ => hsame.state c
    have herror := anyError_congr objs fun c _ => hsame.state c
    refine ⟨⟨h, hacc.of_sameLinks hsame⟩, hs.nodup, ?_, fun c hc => ⟨?_, ?_⟩, honce, fun c => ?_,
      ?_, ?_, fun h => ?_, ?_, ?_⟩
    · rw [LiveGroup, hsame.type, hsame.state]
      exact hs.live
    · rw [Mergeable, hsame.type, hsame.state]
      exact (hs.child c hc).1
    · rw [hsame.state, houtcome]
      exact (hs.child c hc).2
    · rw [hsame.parents, hobjs]
      exact hs.carried c
    · rw [hsame.remaining, hobjs]
      exact hs.remaining
    · rw [hsame.state, herror]
      exact hs.state
    · exact absurd (hobjs ▸ h) hactive
    · rw [hobjs, if_neg hactive, hregistered, setRow_syncTable, if_pos rfl, hs.callbacks,
        if_neg hactive]
    · rw [hobjs, if_neg hactive, callbacksAt_append, hs.dispatched, if_neg hactive]
      rfl

/-- The signal of one of the children. -/
theorem Completing.childSignaled (hs : Completing g objs before is es s)
    (hobj : obj ∈ objs) {status : ℕ} {state : SyncState} (hsig : Signals s obj status state) :
    Completing g objs before (is ++ [.signal obj status])
      (es ++ signaledEvents s obj state) (signaledDevice s obj state) := by
  obtain ⟨h, hacc⟩ := hs.accounted
  obtain ⟨hne, hne'⟩ := hsig.ne_invalid
  have hsignaled := signaledStatus_isSignaled hsig.status
  have hmem : obj ∈ activeObjs s objs := mem_activeObjs.mpr ⟨hobj, hsig.active⟩
  have hparent : g ∈ (s.syncTable obj).parentsList := (hs.carried obj).mpr hmem
  have hg : g ≠ obj := (hacc.parents_valid g hparent).1
  have hrow := signaledDevice_parent state hg hparent
  have hself := signaledDevice_self s obj state
  have hchild : ∀ c ∈ objs, c ≠ obj →
      (signaledDevice s obj state).syncTable c = s.syncTable c := fun c hc hco =>
    signaledDevice_other state hco (hacc.notMem_of_indv (hs.child c hc).1.1 obj)
  have hactive : ∀ c, c ∈ activeObjs (signaledDevice s obj state) objs ↔
      c ≠ obj ∧ c ∈ activeObjs s objs := by
    intro c
    rw [mem_activeObjs, mem_activeObjs]
    by_cases hc : c = obj
    · simp [hc, hself, Row.selfSignaled, hne']
    · by_cases hco : c ∈ objs
      · simp [hc, hco, hchild c hco hc]
      · simp [hco]
  have hlength : (activeObjs s objs).length =
      (activeObjs (signaledDevice s obj state) objs).length + 1 := by
    simp only [activeObjs, ← List.countP_eq_length_filter]
    refine countP_of_leaves hs.nodup hobj (by simp [hsig.active])
      (by simp [hself, Row.selfSignaled, hne']) fun c hc hco => ?_
    rw [hchild c hc hco]
  have hsmall := hacc.small g hs.live.2
  have hremaining : decr (s.syncTable g).remaining =
      (activeObjs (signaledDevice s obj state) objs).length := by
    rw [decr_of_pos (by rw [hs.remaining]; omega) hsmall, hs.remaining]
    omega
  have herror : AnyError (signaledDevice s obj state) objs ↔
      AnyError s objs ∨ state = .signaledError := by
    constructor
    · rintro ⟨c, hc, hstate⟩
      by_cases hco : c = obj
      · rw [hco, hself] at hstate
        exact Or.inr hstate
      · rw [hchild c hc hco] at hstate
        exact Or.inl ⟨c, hc, hstate⟩
    · rintro (⟨c, hc, hstate⟩ | hstate)
      · refine ⟨c, hc, ?_⟩
        rw [hchild c hc]
        · exact hstate
        · rintro rfl
          rw [hsig.active] at hstate
          cases hstate
      · exact ⟨obj, hobj, by rw [hself]; exact hstate⟩
  have hjoined : (s.syncTable g).joined state =
      groupStatus (signaledDevice s obj state) objs := by
    unfold Row.joined groupStatus
    by_cases he : AnyError s objs
    · rw [if_pos (hs.state.mpr he), if_pos (herror.mpr (Or.inl he))]
    · rw [if_neg (fun h => he (hs.state.mp h))]
      cases hstate : state with
      | signaledError => rw [if_pos (hstate ▸ herror.mpr (Or.inr hstate))]
      | signaledSuccess =>
        rw [if_neg]
        rw [← hstate, herror]
        simp [he, hstate]
      | active => exact absurd hstate hne'
      | invalid => exact absurd hstate hne
  have hempty : activeObjs (signaledDevice s obj state) objs = [] ↔
      decr (s.syncTable g).remaining = 0 := by
    rw [hremaining, List.length_eq_zero_iff]
  have hsome : activeObjs s objs ≠ [] := List.ne_nil_of_mem hmem
  have hbefore : outcome (before obj) obj is = .active := by
    rw [← (hs.child obj hobj).2, hsig.active]
  have hregistered : registered g (is ++ [.signal obj status]) =
      registered g is := by
    rw [registered_concat]
    simp [Input.registers]
  have hacc' : Accounted (signaledDevice s obj state) { h with released := fun g =>
      if g ∈ (s.syncTable obj).parentsList then obj :: h.released g else h.released g } :=
    hacc.signaled hsig rfl fun _ => rfl
  refine ⟨⟨_, hacc'⟩, hs.nodup, ⟨?_, ?_⟩, fun c hc => ⟨⟨?_, ?_⟩, ?_⟩, fun c hc => ?_, fun c => ?_,
      ?_, ?_, fun _ => ?_, ?_, ?_⟩
  · rw [hrow]
    exact hs.live.1
  · rw [hrow]
    exact Row.joined_ne_invalid _ hne
  · rw [signaledDevice_type]
    exact (hs.child c hc).1.1
  · by_cases hco : c = obj
    · rw [hco, hself]
      exact hne
    · rw [hchild c hc hco]
      exact (hs.child c hc).1.2
  · by_cases hco : c = obj
    · rw [hco, outcome_concat_of_active hbefore hsig.status, hself]
      rfl
    · rw [outcome_concat_of_none (by simp [Input.signals, Ne.symm hco]), hchild c hc hco]
      exact (hs.child c hc).2
  · by_cases hco : c = obj
    · exact fun _ => hco ▸ (outcome_eq_active hbefore).2
    · rw [signalsOf_concat]
      simpa [Input.signals, Ne.symm hco] using hs.once c hc
  · rw [signaledDevice_parents, hactive]
    by_cases hco : c = obj
    · simp [hco]
    · rw [if_neg hco, hs.carried]
      simp [hco]
  · rw [hrow]
    exact hremaining
  · rw [hrow, Row.parentSignaled_state, hjoined]
    simp [groupStatus]
  · rw [hrow, Row.parentSignaled_state, hjoined]
    unfold groupStatus
    split <;> rfl
  · rw [hrow]
    simp only [Row.parentSignaled, hempty, hregistered, hs.callbacks, if_neg hsome]
  · rw [callbacksAt_append, hs.dispatched, if_neg hsome, List.nil_append,
      callbacksAt_signaled (Ne.symm hg) (hacc.nodup_parents obj), hs.callbacks, if_neg hsome,
      hregistered, hjoined]
    simp only [hparent, true_and, hempty]

theorem Completing.step (hs : Completing g objs before is es s) {i : Input}
    (hi : Scheduled g objs s i) :
    Completing g objs before (is ++ [i]) (es ++ (machine.step s i).2) (machine.step s i).1 := by
  obtain ⟨h, hacc⟩ := hs.accounted
  have hacc' : ∃ h, Accounted (machine.step s i).1 h := ⟨_, accounted_step s h i hacc⟩
  have hquiet : ∀ {i : Input}, (∃ h, Accounted (machine.step s i).1 h) →
      Quiet g objs s (machine.step s i) → i.registers g = none →
      (∀ c ∈ objs, i.signals c = none) →
      Completing g objs before (is ++ [i]) (es ++ (machine.step s i).2) (machine.step s i).1 :=
    fun hacc hq hr hc => hs.quiet hq hacc hr hc
  cases i with
  | create => exact hquiet hacc' hs.quiet_create rfl fun _ _ => rfl
  | merge objs' alloc => exact hquiet hacc' (hs.quiet_merge alloc objs') rfl fun _ _ => rfl
  | registerCallback cb obj alloc =>
    by_cases hr : (Input.registerCallback cb obj alloc).registers g = none
    · exact hquiet hacc' (quiet_registerCallback hr) hr fun _ _ => rfl
    · obtain ⟨rfl, hcb, rfl⟩ : obj = g ∧ cb.func ≠ 0 ∧ alloc = true := by
        simpa [Input.registers] using hr
      exact hs.callbackRegistered hcb
  | deregisterCallback cb obj =>
    exact hquiet hacc' (Completing.quiet_deregister cb hi) rfl fun _ _ => rfl
  | registerUserPayload payload obj alloc =>
    exact hquiet hacc' (handleRegisterUserPayload_apart ..).quiet rfl fun _ _ => rfl
  | deregisterUserPayload payload obj =>
    exact hquiet hacc' (handleDeregisterUserPayload_apart ..).quiet rfl fun _ _ => rfl
  | signal obj status =>
    by_cases hobj : obj ∈ objs
    · obtain ⟨hactive, href, hstatus⟩ := hi hobj
      obtain ⟨state, hstate⟩ := Option.isSome_iff_exists.mp hstatus
      have hrange := hacc.range obj (by simp [hactive])
      have hsig : Signals s obj status state :=
        ⟨hrange.1, hrange.2, (hs.child obj hobj).1.1, hactive, hstate, by rw [href]; rfl⟩
      have hstep : machine.step s (.signal obj status) =
          (signaledDevice s obj state, signaledEvents s obj state) :=
        signal_eq hsig (hacc.nodup_parents obj) hacc.parents_valid
      rw [hstep]
      exact hs.childSignaled hobj hsig
    · refine hquiet hacc' (hs.quiet_signal hobj status) rfl fun c hc => ?_
      have hne : obj ≠ c := fun h => hobj (h ▸ hc)
      simp [Input.signals, hne]
  | getObjRef obj => exact hquiet hacc' (getObjRef_apart s obj).quiet rfl fun _ _ => rfl
  | putObjRef obj => exact hquiet hacc' (putObjRef_apart s obj).quiet rfl fun _ _ => rfl
  | destroy obj => exact hquiet hacc' (hs.quiet_destroy hi.1 hi.2) rfl fun _ _ => rfl
  | openDev fhOpen => exact hquiet hacc' (openDev_apart fhOpen s).quiet rfl fun _ _ => rfl
  | release =>
    refine hquiet hacc' (quiet_of_sameLinks ?_ rfl rfl) rfl fun _ _ => rfl
    exact ⟨rfl, fun _ => rfl, fun _ => rfl, fun _ => rfl, fun _ => rfl, fun _ => rfl⟩
  | setTriggerCbWithoutSwitch b =>
    refine hquiet hacc' (quiet_of_sameLinks ?_ rfl rfl) rfl fun _ _ => rfl
    exact ⟨rfl, fun _ => rfl, fun _ => rfl, fun _ => rfl, fun _ => rfl, fun _ => rfl⟩

end Steps

theorem Completing.merged {s s' : SyncDevice} {h : History} {g : ℤ} {objs : List ℤ}
    (hacc : Accounted s h) (hacc' : ∃ h, Accounted s' h) (hnodup : objs.Nodup)
    (hidx : g ∉ objs) (hfree : (s.syncTable g).state = .invalid) (hm : Merged s objs g s') :
    Completing g objs (fun c => (s.syncTable c).state) [] [] s' := by
  have hne : ∀ c ∈ objs, c ≠ g := fun c hc h => hidx (h ▸ hc)
  have hstate : ∀ c ∈ objs, (s'.syncTable c).state = (s.syncTable c).state := fun c hc => by
    rw [hm.others c (hne c hc), linkedRow_state]
  have hactive := activeObjs_congr _ hstate
  have herror := anyError_congr _ hstate
  refine ⟨hacc', hnodup, ?_, fun c hc => ⟨?_, hstate c hc⟩, fun c _ h => absurd rfl h, fun c => ?_,
    ?_, ?_, fun hnone => ?_, ?_, ?_⟩
  · rw [LiveGroup, hm.group]
    exact ⟨rfl, groupRow_state s objs⟩
  · rw [Mergeable, hm.others c (hne c hc), linkedRow_type, linkedRow_state]
    exact hm.mergeable c hc
  · rw [hactive]
    by_cases hc : c = g
    · rw [hc, hm.group, mem_activeObjs]
      simp [groupRow, hidx]
    · rw [hm.others c hc, mem_linkedRow_parents]
      simp [hacc.notMem_parents hfree c]
  · rw [hactive, hm.group]
    rfl
  · rw [herror, hm.group]
    simp only [groupRow]
    split_ifs with he hnone <;> simp [he]
  · rw [hactive] at hnone
    rw [hm.group]
    simp only [groupRow, hnone, if_true]
    split <;> rfl
  · rw [hm.group]
    simp [groupRow, registered]
  · simp [callbacksAt, registered]

/-- A run that signals the children of a merged group once each dispatches no callback before the
last one, and from then on all that were registered, once each and with an error if some child was
ever signaled with one. -/
theorem group_completion (past : List Input) (objs : List ℤ) (alloc : Alloc) (g : ℤ)
    (hmerge : .object g ∈ (machine.step (machine.run initial past).1 (.merge objs alloc)).2)
    (is : List Input)
    (hscheduled : machine.Meets (Scheduled g objs)
      (machine.step (machine.run initial past).1 (.merge objs alloc)).1 is) :
    let s := (machine.run initial past).1
    callbacksAt g (machine.run (machine.step s (.merge objs alloc)).1 is).2 =
      if ∃ c ∈ objs, (s.syncTable c).state = .active ∧ signalsOf c is = [] then []
      else (registered g is).map (·,
        if ∃ c ∈ objs, (s.syncTable c).state = .signaledError ∨ 3 ∈ signalsOf c is then
          .signaledError
        else .signaledSuccess) := by
  intro s
  obtain ⟨h, hacc⟩ := accounted_reachable past
  have hacc' : ∃ h, Accounted (machine.step s (.merge objs alloc)).1 h :=
    ⟨_, accounted_step s h _ hacc⟩
  have hobject : .object g ∈ (merge alloc s objs).2 := hmerge
  have hstart : Completing g objs (fun c => (s.syncTable c).state) [] []
      (machine.step s (.merge objs alloc)).1 := by
    rcases merge_cases alloc hacc.zero
      (fun k idx hidx => hacc.notMem_parents (hacc.free idx hidx) k) objs with
      ⟨rc, hc⟩ | ⟨idx, s', hf, hnodup, hidx, -, ⟨hm, -, hc⟩ | ⟨-, -, hc⟩⟩
    · rw [hc] at hobject
      simp at hobject
    · rw [hc] at hobject
      obtain rfl : g = idx := by simpa using hobject
      have hstep : machine.step s (.merge objs alloc) = (s', [.object g, .returned .ok]) := hc
      rw [hstep] at hacc' ⊢
      exact Completing.merged hacc hacc' hnodup hidx (hacc.free g hf.free) hm
    · rw [hc] at hobject
      simp at hobject
  have hdone := machine.history_of_meets (C := Scheduled g objs)
    (I := fun is es s' => Completing g objs (fun c => (s.syncTable c).state) is es s')
    (fun _ _ _ _ hs hi => hs.step hi) hstart hscheduled
  have hpending : (∃ c ∈ objs, (s.syncTable c).state = .active ∧ signalsOf c is = []) ↔
      activeObjs (machine.run (machine.step s (.merge objs alloc)).1 is).1 objs ≠ [] := by
    rw [ne_eq, List.eq_nil_iff_forall_not_mem]
    simp only [not_forall, not_not]
    refine exists_congr fun c => ?_
    rw [mem_activeObjs]
    refine and_congr_right fun hc => ?_
    rw [(hdone.child c hc).2]
    refine ⟨fun h => ?_, fun h => (outcome_eq_active h).symm⟩
    rw [outcome, if_pos h.2, h.1]
  have hfailed : (∃ c ∈ objs, (s.syncTable c).state = .signaledError ∨ 3 ∈ signalsOf c is) ↔
      AnyError (machine.run (machine.step s (.merge objs alloc)).1 is).1 objs := by
    refine exists_congr fun c => and_congr_right fun hc => ?_
    rw [(hdone.child c hc).2, outcome]
    by_cases hnone : signalsOf c is = []
    · simp [hnone]
    · have hbefore := hdone.once c hc hnone
      rw [if_neg hnone, hbefore]
      by_cases h3 : 3 ∈ signalsOf c is <;> simp [h3]
  rw [hdone.dispatched]
  by_cases hp : ∃ c ∈ objs, (s.syncTable c).state = .active ∧ signalsOf c is = []
  · rw [if_pos hp, if_neg (hpending.mp hp)]
  · rw [if_neg hp, if_pos (not_not.mp (hpending.not.mp hp))]
    simp only [groupStatus, hfailed]

/-- One child is signaled before the merge, another one with an error after it; a callback waits for
the third, a later one does not. -/
theorem merge_of_three_completes :
    callbacksAt 4 (machine.run
      (machine.run initial [.create, .create, .create, .getObjRef 1, .getObjRef 2, .getObjRef 3,
        .signal 1 2, .merge [1, 2, 3] {}]).1
      [.registerCallback ⟨5, 0⟩ 4 true, .signal 3 3, .signal 2 2,
        .registerCallback ⟨6, 1⟩ 4 true]).2 =
      [(⟨5, 0⟩, .signaledError), (⟨6, 1⟩, .signaledError)] :=
  group_completion [.create, .create, .create, .getObjRef 1, .getObjRef 2, .getObjRef 3,
    .signal 1 2] [1, 2, 3] {} 4 (by decide)
    [.registerCallback ⟨5, 0⟩ 4 true, .signal 3 3, .signal 2 2, .registerCallback ⟨6, 1⟩ 4 true]
    (by decide)

end KernelModules.CamSync
