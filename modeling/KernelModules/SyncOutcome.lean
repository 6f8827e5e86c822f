import KernelModules.SyncClose

/-!
# The outcome of an object is final

An object is done once it is signaled and counts no child any more. From then on nothing but its
destruction changes its state, and nobody waits for it.
-/

namespace KernelModules.CamSync

variable {s : SyncDevice} {h : History} {obj : ℤ} {i : Input}

theorem Row.Done.ne_invalid {row : Row} (h : row.Done) : row.state ≠ .invalid := by
  intro hinvalid
  simp [Row.Done, hinvalid, SyncState.isSignaled] at h

theorem done_step (hacc : Accounted s h) (hdone : (s.syncTable obj).Done)
    (hne : i ≠ .destroy obj) :
    ((machine.step s i).1.syncTable obj).state = (s.syncTable obj).state ∧
      ((machine.step s i).1.syncTable obj).remaining = (s.syncTable obj).remaining := by
  have hsame {s' : SyncDevice} (hs : SameLinks s s') :
      (s'.syncTable obj).state = (s.syncTable obj).state ∧
        (s'.syncTable obj).remaining = (s.syncTable obj).remaining :=
    ⟨hs.state obj, hs.remaining obj⟩
  have hfresh {idx : ℤ} (hf : Fresh s idx) : obj ≠ idx := by
    rintro rfl
    exact hdone.ne_invalid (hacc.free obj hf.free)
  cases i with
  | create =>
    simp only [machine]
    rcases create_eq hacc.zero with hc | ⟨idx, hf, hc⟩
    · simp [hc]
    · simp [hc, hfresh hf]
  | merge objs alloc =>
    simp only [machine]
    rcases merge_cases alloc hacc.zero
      (fun k idx hidx => hacc.notMem_parents (hacc.free idx hidx) k) objs with
      ⟨rc, hc⟩ | ⟨idx, s', hf, -, -, -, ⟨hm, -, hc⟩ | ⟨hu, -, hc⟩⟩
    · simp [hc]
    · simp only [hc, hm.others obj (hfresh hf), linkedRow_state, linkedRow_remaining, and_self]
    · simp [hc, hu.others obj (hfresh hf)]
  | signal o status =>
    simp only [machine]
    rcases signal_cases s o status with ⟨rc, hc⟩ | ⟨-, hc⟩ | ⟨state, hsig⟩
    · simp [hc]
    · rw [hc]
      exact hsame (sameLinks_setRow s o _ ⟨rfl, rfl, rfl, rfl, rfl⟩)
    · rw [signal_eq hsig (hacc.nodup_parents o) hacc.parents_valid]
      have ho : obj ≠ o := by
        rintro rfl
        simp [Row.Done, hsig.active, SyncState.isSignaled] at hdone
      have hp : obj ∉ (s.syncTable o).parentsList := fun hp =>
        (hacc.remaining_pos hp).ne' hdone.2
      rw [signaledDevice_other state ho hp]
      exact ⟨rfl, rfl⟩
  | destroy o =>
    have ho : obj ≠ o := fun heq => hne (heq ▸ rfl)
    simp only [machine, destroy]
    by_cases hvalid : (s.syncTable o).state = .invalid
    · rw [deinitObject_of_invalid fun h => h.2.2 hvalid]
      exact ⟨rfl, rfl⟩
    · simp [hacc.deinitObject hvalid, destroyedDevice, unlinkedRow, ho]
  | registerCallback cb o alloc => exact hsame (registerCallback_sameLinks ..)
  | deregisterCallback cb o => exact hsame (deregisterCallback_sameLinks ..)
  | registerUserPayload payload o alloc => exact hsame (handleRegisterUserPayload_apart ..).links
  | deregisterUserPayload payload o => exact hsame (handleDeregisterUserPayload_apart ..).links
  | getObjRef o => exact hsame (getObjRef_apart ..).links
  | putObjRef o => exact hsame (putObjRef_apart ..).links
  | openDev fhOpen => exact hsame (openDev_apart ..).links
  | release | setTriggerCbWithoutSwitch b => exact ⟨rfl, rfl⟩

/-- An object that is done has its outcome, and nobody waiting, until it is destroyed. -/
theorem outcome_final (is js : List Input)
    (hdone : ((machine.run initial is).1.syncTable obj).Done) (hkept : .destroy obj ∉ js) :
    ((machine.run initial (is ++ js)).1.syncTable obj).state =
        ((machine.run initial is).1.syncTable obj).state ∧
      ((machine.run initial (is ++ js)).1.syncTable obj).Served := by
  suffices hrun : ((machine.run initial (is ++ js)).1.syncTable obj).state =
      ((machine.run initial is).1.syncTable obj).state ∧
      ((machine.run initial (is ++ js)).1.syncTable obj).Done by
    obtain ⟨h, -, hs⟩ := sound_reachable (is ++ js)
    exact ⟨hrun.1, (served_iff (hs obj hrun.2.ne_invalid)).mpr hrun.2⟩
  induction js using List.reverseRecOn with
  | nil => simpa using hdone
  | append_singleton js i ih =>
    simp only [List.mem_append, List.mem_singleton, not_or] at hkept
    obtain ⟨hstate, hlast⟩ := ih hkept.1
    obtain ⟨h, hacc⟩ := accounted_reachable (is ++ js)
    have hstep := done_step hacc hlast (Ne.symm hkept.2)
    rw [← List.append_assoc, Machine.run_concat, Row.Done, hstep.1, hstep.2]
    exact ⟨hstate, hlast⟩

def failedObject : List Input := [.create, .getObjRef 1, .signal 1 3]

/-- The object is signaled with an error; a second signal, with success, comes too late. -/
theorem outcome_final_failed :
    ((machine.run initial (failedObject ++ [.signal 1 2])).1.syncTable 1).state = .signaledError ∧
      ((machine.run initial (failedObject ++ [.signal 1 2])).1.syncTable 1).Served := by
  have hdone : ((machine.run initial failedObject).1.syncTable 1).Done := by
    unfold Row.Done
    decide
  have hfinal := outcome_final failedObject [.signal 1 2] hdone (by simp)
  exact ⟨hfinal.1.trans (by decide), hfinal.2⟩

end KernelModules.CamSync
