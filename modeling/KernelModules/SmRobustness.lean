import KernelModules.SmEngine

/-!
# What the WLAN state machine engine can be asked for

The table that a state machine is created on is checked along the parents only. A transition also
goes along the initial substates, starts from a state that nothing has checked, and is not over
when the target is refused.
-/

namespace KernelModules.SmEngine

variable (table : Table) (numStates : UInt8)

def parentOf (s : UInt8) : List UInt8 :=
  if (table s).parentState = stateNone then [] else [(table s).parentState]

/-- The entries that `wlan_sm_transition_to` looks up, those whose names are printed among them.
Nothing is looked up when the call is refused. -/
def lookups (sm : Sm) (state : UInt8) : Option (List UInt8) :=
  if sm.inStateTransition then some []
  else if state = stateNone ∨ maxStates ≤ state ∨ numStates ≤ state then some []
  else
    match ancestors table sm.curState, substates table state with
    | some up, some down =>
      some (sm.curState :: parentOf table sm.curState ++ state :: parentOf table state ++ up ++ down)
    | _, _ => none

def transitions : Machine Sm UInt8 Call where
  step sm t := (transitionTo table numStates sm t).getD (sm, [])

/-- The call ends, stays within the table and leaves the engine free and in a state of the table; a
call that is refused leaves the state alone. -/
def Robust (sm : Sm) (t : UInt8) : Prop :=
  ∃ sm' calls places, transitionTo table numStates sm t = some (sm', calls) ∧
    lookups table numStates sm t = some places ∧ (∀ s ∈ places, s < numStates) ∧
    sm'.curState < numStates ∧ sm'.inStateTransition = false ∧
    (¬ Valid numStates t → sm'.curState = sm.curState)

def Rooted (s : UInt8) : Prop :=
  s < numStates ∧ ∃ up, ancestors table s = some up ∧ ∀ x ∈ up, x < numStates

def Enterable (s : UInt8) : Prop :=
  (∀ x ∈ parentOf table s, x < numStates) ∧
    ∃ down, substates table s = some down ∧ ∀ x ∈ down, x < numStates

def endOf (s : UInt8) : UInt8 :=
  ((substates table s).getD []).getLastD s

def leftStates (init : UInt8) (run : List UInt8) : List UInt8 :=
  (init :: run.map (endOf table)).dropLast

variable {table numStates}

section Walk

variable {next : UInt8 → UInt8} {n : ℕ} {s : UInt8} {l : List UInt8}

theorem walk_head (h : walk next n s = some l) (hs : s ≠ stateNone) : s ∈ l := by
  cases l with
  | nil => exact absurd (stateNone_of_walk_nil h) hs
  | cons x l =>
    obtain ⟨rfl, -⟩ := walk_cons h
    exact List.mem_cons_self

theorem walk_second (h : walk next n s = some l) (hs : s ≠ stateNone)
    (hnext : next s ≠ stateNone) : next s ∈ l := by
  cases l with
  | nil => exact absurd (stateNone_of_walk_nil h) hs
  | cons x l =>
    obtain ⟨rfl, -, k, -, hl⟩ := walk_cons h
    exact List.mem_cons_of_mem _ (walk_head hl hnext)

end Walk

variable {alloc : Bool} {init : UInt8} {sm : Sm} {t : UInt8}

theorem refused {sm : Sm} {t : UInt8} (hfree : sm.inStateTransition = false)
    (ht : ¬ Valid numStates t) :
    transitionTo table numStates sm t = some ({ sm with inStateTransition := true }, []) := by
  have hrefused : t = stateNone ∨ maxStates ≤ t ∨ numStates ≤ t := by
    by_contra hnot
    simp only [not_or, UInt8.not_le] at hnot
    exact ht ⟨hnot.1, hnot.2.1, hnot.2.2⟩
  rw [transitionTo, if_neg (by simp [hfree]), if_pos hrefused]

theorem lookups_of_valid (table : Table)
    (hfree : sm.inStateTransition = false) (ht : Valid numStates t) :
    lookups table numStates sm t =
      match ancestors table sm.curState, substates table t with
      | some up, some down =>
        some (sm.curState :: parentOf table sm.curState ++ t :: parentOf table t ++ up ++ down)
      | _, _ => none := by
  obtain ⟨hnone, hmax, hnum⟩ := ht
  have hvalid : ¬(t = stateNone ∨ maxStates ≤ t ∨ numStates ≤ t) := by
    simp only [not_or, UInt8.not_le]
    exact ⟨hnone, hmax, hnum⟩
  rw [lookups, if_neg (by simp [hfree]), if_neg hvalid]

theorem endOf_eq {down : List UInt8} (ht : t ≠ stateNone)
    (h : substates table t = some down) (d : UInt8) : down.getLastD d = endOf table t := by
  rw [endOf, h, substates_ne_nil ht h d]
  rfl

theorem endOf_mem {down : List UInt8} (ht : t ≠ stateNone)
    (h : substates table t = some down) : endOf table t ∈ down := by
  rw [← endOf_eq ht h t]
  cases down with
  | nil => exact absurd (stateNone_of_walk_nil h) ht
  | cons x l =>
    rw [List.getLastD_eq_getLast?, List.getLast?_eq_some_getLast (List.cons_ne_nil x l)]
    exact List.getLast_mem ..

theorem step_of_valid (hfree : sm.inStateTransition = false)
    (ht : Valid numStates t) (hroot : Rooted table numStates sm.curState)
    (henter : Enterable table numStates t) :
    ∃ calls, transitionTo table numStates sm t = some (⟨endOf table t, false⟩, calls) := by
  obtain ⟨-, up, hup, -⟩ := hroot
  obtain ⟨-, down, hdown, -⟩ := henter
  have hstep := transitionTo_of_valid table hfree ht
  simp only [hup, hdown] at hstep
  rw [endOf_eq ht.1 hdown, hfree] at hstep
  exact ⟨_, hstep⟩

/-- A call is robust when its target is valid and can be entered and the state it starts from can be
left. -/
theorem robust_iff (hfree : sm.inStateTransition = false) :
    Robust table numStates sm t ↔
      Valid numStates t ∧ Enterable table numStates t ∧ Rooted table numStates sm.curState := by
  constructor
  · rintro ⟨sm', calls, places, hstep, hplaces, hinside, hcur, hclear, -⟩
    have ht : Valid numStates t := by
      by_contra ht
      rw [refused hfree ht] at hstep
      obtain ⟨rfl, -⟩ := Prod.mk.inj (Option.some.inj hstep)
      cases hclear
    rw [lookups_of_valid table hfree ht] at hplaces
    split at hplaces
    · rename_i up down hup hdown
      obtain rfl := Option.some.inj hplaces
      refine ⟨ht, ⟨fun x hx => hinside x ?_, down, hdown, fun x hx => hinside x ?_⟩,
        hinside _ ?_, up, hup, fun x hx => hinside x ?_⟩
      · simp [hx]
      · simp [hx]
      · simp
      · simp [hx]
    · cases hplaces
  · rintro ⟨ht, henter, hroot⟩
    obtain ⟨calls, hstep⟩ := step_of_valid hfree ht hroot henter
    obtain ⟨hcur, up, hup, hupin⟩ := hroot
    obtain ⟨hparent, down, hdown, hdownin⟩ := henter
    have hplaces := lookups_of_valid table hfree ht
    simp only [hup, hdown] at hplaces
    refine ⟨_, calls, _, hstep, hplaces, ?_, hdownin _ (endOf_mem ht.1 hdown), rfl,
      fun hnot => absurd ht hnot⟩
    have hcurNone : sm.curState ≠ stateNone := by
      intro hnone
      have hle : numStates.toNat < 256 := numStates.toNat_lt
      have hlt : sm.curState.toNat < numStates.toNat := hcur
      rw [hnone] at hlt
      change 255 < numStates.toNat at hlt
      omega
    have hself : ∀ x ∈ parentOf table sm.curState, x < numStates := by
      intro x hx
      unfold parentOf at hx
      split_ifs at hx with hnone
      · cases hx
      · obtain rfl := List.mem_singleton.mp hx
        exact hupin _ (walk_second hup hcurNone hnone)
    intro s hs
    simp only [List.cons_append, List.mem_cons, List.mem_append, or_assoc] at hs
    rcases hs with rfl | hs | rfl | hs | hs | hs
    · exact hcur
    · exact hself s hs
    · exact ht.2.2
    · exact hparent s hs
    · exact hupin s hs
    · exact hdownin s hs

theorem meets_robust_iff {run : List UInt8} (hfree : sm.inStateTransition = false) :
    (transitions table numStates).Meets (Robust table numStates) sm run ↔
      (∀ t ∈ run, Valid numStates t ∧ Enterable table numStates t) ∧
        ∀ s ∈ leftStates table sm.curState run, Rooted table numStates s := by
  induction run generalizing sm with
  | nil => simp [leftStates]
  | cons t run ih =>
    have hleft : leftStates table sm.curState (t :: run) =
        sm.curState :: leftStates table (endOf table t) run := by
      simp [leftStates]
    rw [Machine.meets_cons, robust_iff hfree, List.forall_mem_cons, hleft, List.forall_mem_cons]
    constructor
    · rintro ⟨⟨ht, henter, hroot⟩, hrest⟩
      obtain ⟨calls, hstep⟩ := step_of_valid hfree ht hroot henter
      have hnext : ((transitions table numStates).step sm t).1 = ⟨endOf table t, false⟩ := by
        simp [transitions, hstep]
      rw [hnext, ih rfl] at hrest
      exact ⟨⟨⟨ht, henter⟩, hrest.1⟩, hroot, hrest.2⟩
    · rintro ⟨⟨⟨ht, henter⟩, hall⟩, hroot, hrest⟩
      obtain ⟨calls, hstep⟩ := step_of_valid hfree ht hroot henter
      have hnext : ((transitions table numStates).step sm t).1 = ⟨endOf table t, false⟩ := by
        simp [transitions, hstep]
      rw [hnext, ih rfl]
      exact ⟨⟨ht, henter, hroot⟩, hall, hrest⟩

/-- From its creation on, every call of a run is robust if and only if every target is valid and can
be entered and every state left on the way can be left. -/
theorem robust_run_iff {alloc : Bool} {init : UInt8} {sm : Sm}
    (hc : create table alloc init numStates = some sm) (run : List UInt8) :
    (transitions table numStates).Meets (Robust table numStates) sm run ↔
      (∀ t ∈ run, Valid numStates t ∧ Enterable table numStates t) ∧
        ∀ s ∈ leftStates table init run, Rooted table numStates s := by
  obtain rfl := eq_of_create hc
  exact meets_robust_iff rfl

theorem robust_run_iff_twoSubstates :
    create twoSubstates true 3 4 = some ⟨3, false⟩ ∧
      ((transitions twoSubstates 4).Meets (Robust twoSubstates 4) ⟨3, false⟩ [0, 3] ↔
        (∀ t ∈ [0, 3], Valid 4 t ∧ Enterable twoSubstates 4 t) ∧
          ∀ s ∈ leftStates twoSubstates 3 [0, 3], Rooted twoSubstates 4 s) := by
  have hc : create twoSubstates true 3 4 = some ⟨3, false⟩ := by decide
  exact ⟨hc, robust_run_iff hc [0, 3]⟩

/-- The engine is not free again after it has been asked for a state that there is not. -/
theorem refused_blocks :
    create twoSubstates true 3 4 = some ⟨3, false⟩ ∧
      ¬(transitions twoSubstates 4).Meets (Robust twoSubstates 4) ⟨3, false⟩ [4, 0] ∧
      ((transitions twoSubstates 4).run ⟨3, false⟩ [4, 0]).1 = ⟨3, true⟩ := by
  refine ⟨by decide, ?_, by decide⟩
  rintro ⟨⟨sm', calls, places, hstep, -, -, -, hclear, -⟩, -⟩
  have hrefused : transitionTo twoSubstates 4 ⟨3, false⟩ 4 = some (⟨3, true⟩, []) := by decide
  obtain ⟨rfl, -⟩ := Prod.mk.inj (Option.some.inj (hrefused.symm.trans hstep))
  cases hclear

end KernelModules.SmEngine
