import KernelModules.SyncGroups

/-!
# A merge that fails

When a merge fails it takes the links back that it has made so far, and it gives up the row that it
has tried. That row is free again; its counters are left as they are.
-/

namespace KernelModules.CamSync

def Childless (s : SyncDevice) : Prop :=
  ∀ k, (s.syncTable k).state = .invalid → (s.syncTable k).childrenList = []

variable {s s' : SyncDevice}

theorem Childless.of_sameLinks (hs : Childless s) (hsame : SameLinks s s') : Childless s' := by
  intro k hk
  rw [hsame.children]
  exact hs k (by rwa [← hsame.state])

theorem linkedRow_childrenList (s : SyncDevice) (idx : ℤ) (objs : List ℤ) (k : ℤ) :
    (linkedRow s idx objs k).childrenList = (s.syncTable k).childrenList := by
  unfold linkedRow
  split <;> rfl

theorem Childless.merged {s s' : SyncDevice} {objs : List ℤ} {idx : ℤ} (hs : Childless s)
    (hm : Merged s objs idx s') : Childless s' := by
  intro k hk
  by_cases hidx : k = idx
  · rw [hidx, hm.group] at hk
    exact absurd hk (groupRow_state s objs)
  · rw [hm.others k hidx, linkedRow_state] at hk
    rw [hm.others k hidx, linkedRow_childrenList]
    exact hs k hk

theorem Childless.unmerged {idx : ℤ} (hs : Childless s)
    (hu : Unmerged s idx s') : Childless s' := by
  intro k hk
  by_cases hidx : k = idx
  · rw [hidx]
    exact hu.children
  · rw [hu.others k hidx] at hk ⊢
    exact hs k hk

theorem Childless.destroyed {obj : ℤ} (hs : Childless s) : Childless (destroyedDevice s obj) := by
  intro k hk
  by_cases hobj : k = obj
  · simp only [destroyedDevice, if_pos hobj]
  · simp only [destroyedDevice, if_neg hobj, unlinkedRow] at hk ⊢
    simp only [hs k hk, List.erase_nil, ite_self]

theorem childless_step {h : History} (hs : Accounted s h) (hc : Childless s)
    (i : Input) : Childless (machine.step s i).1 := by
  cases i with
  | create =>
    simp only [machine]
    rcases create_eq hs.zero with he | ⟨idx, hf, he⟩
    · rw [he]
      exact hc
    · rw [he]
      intro k hk
      by_cases hidx : k = idx
      · simp [hidx] at hk
      · simp only [setRow_syncTable, if_neg hidx, setBit_syncTable] at hk ⊢
        exact hc k hk
  | merge objs alloc =>
    simp only [machine]
    rcases merge_cases alloc hs.zero (fun k idx hidx => hs.notMem_parents (hs.free idx hidx) k)
      objs with ⟨rc, he⟩ | ⟨idx, s', -, -, -, -, ⟨hm, -, he⟩ | ⟨hu, -, he⟩⟩
    · rw [he]
      exact hc
    · rw [he]
      exact hc.merged hm
    · rw [he]
      exact hc.unmerged hu
  | signal obj status =>
    simp only [machine]
    rcases signal_cases s obj status with ⟨rc, he⟩ | ⟨-, he⟩ | ⟨state, hsig⟩
    · rw [he]
      exact hc
    · rw [he]
      exact hc.of_sameLinks (sameLinks_setRow s obj _ ⟨rfl, rfl, rfl, rfl, rfl⟩)
    · rw [signal_eq hsig (hs.nodup_parents obj) hs.parents_valid]
      intro k hk
      rw [signaledDevice_children]
      exact hc k (signaledDevice_invalid _ hsig.ne_invalid.1 hk)
  | destroy obj =>
    simp only [machine, destroy]
    by_cases hvalid : (s.syncTable obj).state = .invalid
    · rw [deinitObject_of_invalid (fun h => h.2.2 hvalid)]
      exact hc
    · rw [hs.deinitObject hvalid]
      exact hc.destroyed
  | registerCallback cb obj alloc => exact hc.of_sameLinks (registerCallback_sameLinks ..)
  | deregisterCallback cb obj => exact hc.of_sameLinks (deregisterCallback_sameLinks ..)
  | registerUserPayload payload obj alloc =>
    exact hc.of_sameLinks (handleRegisterUserPayload_apart ..).links
  | deregisterUserPayload payload obj =>
    exact hc.of_sameLinks (handleDeregisterUserPayload_apart ..).links
  | getObjRef obj => exact hc.of_sameLinks (getObjRef_apart ..).links
  | putObjRef obj => exact hc.of_sameLinks (putObjRef_apart ..).links
  | openDev fhOpen => exact hc.of_sameLinks (openDev_apart ..).links
  | release => exact hc
  | setTriggerCbWithoutSwitch b => exact hc

theorem childless_reachable (is : List Input) : Childless (machine.run initial is).1 := by
  have hrun : Accounted (watched.run (initial, {}) is).1.1 (watched.run (initial, {}) is).1.2 ∧
      Childless (watched.run (initial, {}) is).1.1 :=
    watched.invariant (I := fun p => Accounted p.1 p.2 ∧ Childless p.1)
      (fun p i hp => ⟨accounted_step p.1 p.2 i hp.1, childless_step hp.1 hp.2 i⟩) is
      ⟨accounted_initial, fun _ _ => rfl⟩
  rw [← (machine.monitored_run History.note (initial, {}) is).1]
  exact hrun.2

/-- The links and the states of all rows are the same, and so is all of the rows in use. -/
structure RolledBack (s s' : SyncDevice) : Prop where
  bitmap : s'.bitmap = s.bitmap
  used : ∀ k, s.bitmap k = true → s'.syncTable k = s.syncTable k
  parents : ∀ k, (s'.syncTable k).parentsList = (s.syncTable k).parentsList
  children : ∀ k, (s'.syncTable k).childrenList = (s.syncTable k).childrenList
  state : ∀ k, (s'.syncTable k).state = (s.syncTable k).state

theorem merge_rolledBack (is : List Input) (objs : List ℤ) (alloc : Alloc)
    (h : Event.returned .ok ∉ (merge alloc (machine.run initial is).1 objs).2) :
    RolledBack (machine.run initial is).1 (merge alloc (machine.run initial is).1 objs).1 := by
  obtain ⟨history, hs⟩ := accounted_reachable is
  have hchildless := childless_reachable is
  generalize (machine.run initial is).1 = s at h hs hchildless ⊢
  rcases merge_cases alloc hs.zero (fun k idx hidx => hs.notMem_parents (hs.free idx hidx) k)
    objs with ⟨rc, he⟩ | ⟨idx, s', hf, -, -, -, ⟨hm, -, he⟩ | ⟨hu, hbitmap, he⟩⟩
  · rw [he]
    exact ⟨rfl, fun _ _ => rfl, fun _ => rfl, fun _ => rfl, fun _ => rfl⟩
  · rw [he] at h
    exact absurd (List.mem_cons_of_mem _ (List.mem_singleton_self _)) h
  · rw [he]
    have hinvalid := hs.free idx hf.free
    have hparents := hs.parents_eq_nil (c := idx) (by rw [hinvalid]; decide)
    have hsame (k : ℤ) (hk : k ≠ idx) : s'.syncTable k = s.syncTable k := hu.others k hk
    refine ⟨hbitmap, fun k hk => hsame k ?_, fun k => ?_, fun k => ?_, fun k => ?_⟩
    · rintro rfl
      rw [hf.free] at hk
      cases hk
    · by_cases hk : k = idx
      · rw [hk, hparents]
        exact hu.parents
      · rw [hsame k hk]
    · by_cases hk : k = idx
      · rw [hk, hchildless idx hinvalid]
        exact hu.children
      · rw [hsame k hk]
    · by_cases hk : k = idx
      · rw [hk, hinvalid]
        exact hu.state
      · rw [hsame k hk]

def oneLink : Alloc := { parentInfo := fun obj => obj = 1 }

theorem merge_rolledBack_twoObjs :
    RolledBack (machine.run initial [.create, .create]).1
      (merge oneLink (machine.run initial [.create, .create]).1 [1, 2]).1 :=
  merge_rolledBack [.create, .create] [1, 2] oneLink (by decide)

/-- The row that was tried still counts both children. -/
theorem merge_leaves_count :
    Event.returned .eInval ∈ (merge oneLink (machine.run initial [.create, .create]).1 [1, 2]).2 ∧
      ((merge oneLink (machine.run initial [.create, .create]).1 [1, 2]).1.syncTable 3).remaining ≠
        ((machine.run initial [.create, .create]).1.syncTable 3).remaining := by
  decide

end KernelModules.CamSync
