import KernelModules.Machine
import Mathlib.Data.UInt

/-!
# The WLAN state machine engine

`wlan_sm_transition_to` leaves the current state and all of its parents, and enters the target
and the initial substates below it. The parents of the target are not entered, so that what has
been entered is the new state with its ancestors only for targets whose way down is the way up
from where it ends.
-/

namespace KernelModules.SmEngine

def stateNone : UInt8 := 255
def maxStates : UInt8 := 200

/-- An entry of the table. Of the callbacks only matters here whether there is one. -/
structure StateInfo where
  state : UInt8
  parentState : UInt8
  initialSubstate : UInt8
  hasSubstates : Bool
  smEntry : Bool
  smExit : Bool

abbrev Table := UInt8 → StateInfo

structure Sm where
  curState : UInt8
  inStateTransition : Bool
  deriving DecidableEq

/-- A state that is left or entered, and whether a callback of it runs. -/
inductive Call
  | exit (s : UInt8) (callback : Bool)
  | entry (s : UInt8) (callback : Bool)
  deriving DecidableEq

/-- The states from one on, up to `WLAN_SM_ENGINE_STATE_NONE`. A walk that has not ended by then
does not end. -/
def walk (next : UInt8 → UInt8) : ℕ → UInt8 → Option (List UInt8)
  | 0, s => if s = stateNone then some [] else none
  | n + 1, s => if s = stateNone then some [] else (walk next n (next s)).map (s :: ·)

variable (table : Table)

def ancestors (s : UInt8) : Option (List UInt8) := walk (fun s => (table s).parentState) 255 s

def substates (s : UInt8) : Option (List UInt8) := walk (fun s => (table s).initialSubstate) 255 s

/-- `wlan_sm_transition_to`; nothing when one of its loops does not end. A target that is not
valid leaves `in_state_transition` set. -/
def transitionTo (numStates : UInt8) (sm : Sm) (state : UInt8) : Option (Sm × List Call) :=
  if sm.inStateTransition then some (sm, [])
  else if state = stateNone ∨ maxStates ≤ state ∨ numStates ≤ state then
    some ({ sm with inStateTransition := true }, [])
  else
    match ancestors table sm.curState, substates table state with
    | some up, some down =>
      some ({ sm with curState := down.getLastD sm.curState },
        up.map (fun s => .exit s (table s).smExit) ++
          down.map (fun s => .entry s (table s).smEntry))
    | _, _ => none

/-- The walk up from a state in `wlan_sm_validate_state_info`. -/
def endsAtRoot : ℕ → List UInt8 → UInt8 → Bool
  | 0, _, _ => false
  | n + 1, visited, state =>
    if state = stateNone then true
    else if state ∈ visited then false
    else
      let next := (table state).parentState
      if next ≠ stateNone ∧ ¬(table next).hasSubstates then false
      else endsAtRoot n (state :: visited) next

def validateStateInfo (i : UInt8) : Bool :=
  if maxStates ≤ (table i).state ∨ (table i).state ≠ i then false
  else endsAtRoot table 256 [] (table i).state

def create (alloc : Bool) (initState numStates : UInt8) : Option Sm :=
  if maxStates < numStates then none
  else if ∀ i < numStates.toNat, validateStateInfo table (UInt8.ofNat i) then
    if alloc then some ⟨initState, false⟩ else none
  else none

def Call.apply (entered : Finset UInt8) : Call → Finset UInt8
  | exit s _ => entered.erase s
  | entry s _ => insert s entered

def applyAll (entered : Finset UInt8) (calls : List Call) : Finset UInt8 :=
  calls.foldl Call.apply entered

/-- No exit callback runs for a state that is not entered, no entry callback for one that is. -/
def Call.Fits (entered : Finset UInt8) : Call → Prop
  | exit s callback => callback = true → s ∈ entered
  | entry s callback => callback = true → s ∉ entered

def AllFit : Finset UInt8 → List Call → Prop
  | _, [] => True
  | entered, c :: cs => c.Fits entered ∧ AllFit (c.apply entered) cs

def engine (numStates : UInt8) : Machine (Sm × Finset UInt8) UInt8 Call where
  step p t :=
    match transitionTo table numStates p.1 t with
    | some (sm, calls) => ((sm, applyAll p.2 calls), calls)
    | none => (p, [])

/-- The transition comes to an end, its callbacks fit, and exactly the new state and its
ancestors are entered behind it. -/
def Balanced (numStates : UInt8) (p : Sm × Finset UInt8) (t : UInt8) : Prop :=
  ∃ sm calls up, transitionTo table numStates p.1 t = some (sm, calls) ∧ AllFit p.2 calls ∧
    ancestors table sm.curState = some up ∧ applyAll p.2 calls = up.toFinset

def Valid (numStates t : UInt8) : Prop := t ≠ stateNone ∧ t < maxStates ∧ t < numStates
deriving Decidable

/-- The way down the initial substates of a state consists of the state that it ends in and the
ancestors of that. -/
def Levelled (t : UInt8) : Prop :=
  ∃ down up, substates table t = some down ∧ ancestors table (down.getLastD t) = some up ∧
    down.toFinset = up.toFinset

def Quiet (s : UInt8) : Prop :=
  ∃ up, ancestors table s = some up ∧ ∀ s ∈ up, (table s).smExit = false

def Level (p : Sm × Finset UInt8) : Prop :=
  p.1.inStateTransition = false ∧
    ∃ up, ancestors table p.1.curState = some up ∧ p.2 = up.toFinset

variable {table : Table} {numStates : UInt8}

section Walk

variable {next : UInt8 → UInt8} {n m : ℕ} {s x : UInt8} {l l' : List UInt8}

theorem stateNone_of_walk_nil (h : walk next n s = some []) : s = stateNone := by
  by_contra hs
  cases n with
  | zero =>
    rw [walk, if_neg hs] at h
    cases h
  | succ n =>
    rw [walk, if_neg hs] at h
    obtain ⟨_, -, hl⟩ := Option.map_eq_some_iff.mp h
    cases hl

theorem walk_cons (h : walk next n s = some (x :: l)) :
    x = s ∧ s ≠ stateNone ∧ ∃ k, n = k + 1 ∧ walk next k (next s) = some l := by
  cases n with
  | zero =>
    unfold walk at h
    split at h <;> cases h
  | succ n =>
    unfold walk at h
    split at h
    next => cases h
    next hs =>
        obtain ⟨l₁, hl₁, hl⟩ := Option.map_eq_some_iff.mp h
        obtain ⟨rfl, rfl⟩ := List.cons.inj hl
        exact ⟨rfl, hs, n, rfl, hl₁⟩

theorem walk_unique (h : walk next n s = some l) (h' : walk next m s = some l') : l = l' := by
  induction l generalizing n m s l' with
  | nil =>
    have hs := stateNone_of_walk_nil h
    cases l' with
    | nil => rfl
    | cons x l' => exact absurd hs (walk_cons h').2.1
  | cons x l ih =>
    obtain ⟨rfl, hs, k, -, hl⟩ := walk_cons h
    cases l' with
    | nil => exact absurd (stateNone_of_walk_nil h') hs
    | cons y l' =>
      obtain ⟨rfl, -, k', -, hl'⟩ := walk_cons h'
      rw [ih hl hl']

theorem walk_suffix (h : walk next n s = some l) (hx : x ∈ l) :
    ∃ k l₁, walk next k x = some l₁ ∧ l₁.length ≤ l.length := by
  induction l generalizing n s with
  | nil => cases hx
  | cons y l ih =>
    obtain ⟨rfl, -, k, -, hl⟩ := walk_cons h
    rcases List.mem_cons.mp hx with rfl | hx
    · exact ⟨n, x :: l, h, le_rfl⟩
    · obtain ⟨k', l₁, hl₁, hle⟩ := ih hl hx
      refine ⟨k', l₁, hl₁, ?_⟩
      rw [List.length_cons]
      omega

theorem walk_nodup (h : walk next n s = some l) : l.Nodup := by
  induction l generalizing n s with
  | nil => exact List.nodup_nil
  | cons y l ih =>
    obtain ⟨rfl, -, k, -, hl⟩ := walk_cons h
    refine List.nodup_cons.mpr ⟨fun hmem => ?_, ih hl⟩
    -- A second visit would have the same way left as the first one.
    obtain ⟨k', l₁, hl₁, hle⟩ := walk_suffix hl hmem
    rw [walk_unique hl₁ h, List.length_cons] at hle
    omega

end Walk

theorem applyAll_append (entered : Finset UInt8) (cs ds : List Call) :
    applyAll entered (cs ++ ds) = applyAll (applyAll entered cs) ds := List.foldl_append ..

variable {entered : Finset UInt8} {up down : List UInt8} {sm : Sm} {t init : UInt8}

theorem allFit_append {cs ds : List Call} :
    AllFit entered (cs ++ ds) ↔ AllFit entered cs ∧ AllFit (applyAll entered cs) ds := by
  induction cs generalizing entered with
  | nil => exact ⟨fun h => ⟨trivial, h⟩, fun h => h.2⟩
  | cons c cs ih => rw [List.cons_append, AllFit, AllFit, ih, and_assoc]; rfl

theorem applyAll_exits (f : UInt8 → Bool) (up : List UInt8) (entered : Finset UInt8) :
    applyAll entered (up.map fun s => .exit s (f s)) = entered \ up.toFinset := by
  induction up generalizing entered with
  | nil => rw [List.toFinset_nil, Finset.sdiff_empty]; rfl
  | cons s up ih =>
    change applyAll (entered.erase s) _ = _
    rw [ih, List.toFinset_cons, Finset.sdiff_insert, Finset.erase_sdiff_comm]

theorem allFit_exits (f : UInt8 → Bool) (hup : up.Nodup)
    (entered : Finset UInt8) :
    AllFit entered (up.map fun s => .exit s (f s)) ↔ ∀ s ∈ up, f s = true → s ∈ entered := by
  induction up generalizing entered with
  | nil => exact ⟨fun _ _ hs => (List.not_mem_nil hs).elim, fun _ => trivial⟩
  | cons s up ih =>
    obtain ⟨hs, hup⟩ := List.nodup_cons.mp hup
    change (f s = true → s ∈ entered) ∧ AllFit (entered.erase s) _ ↔ _
    rw [ih hup, List.forall_mem_cons]
    refine and_congr_right fun _ => forall₂_congr fun x hx => ?_
    rw [Finset.mem_erase]
    exact ⟨fun h hf => (h hf).2, fun h hf => ⟨fun hxs => hs (hxs ▸ hx), h hf⟩⟩

theorem applyAll_entries (f : UInt8 → Bool) (down : List UInt8) (entered : Finset UInt8) :
    applyAll entered (down.map fun s => .entry s (f s)) = entered ∪ down.toFinset := by
  induction down generalizing entered with
  | nil => rw [List.toFinset_nil, Finset.union_empty]; rfl
  | cons s down ih =>
    change applyAll (insert s entered) _ = _
    rw [ih, List.toFinset_cons, Finset.union_insert, Finset.insert_union]

theorem allFit_entries (f : UInt8 → Bool) (hdown : down.Nodup) (hnew : ∀ s ∈ down, s ∉ entered) :
    AllFit entered (down.map fun s => .entry s (f s)) := by
  induction down generalizing entered with
  | nil => trivial
  | cons s down ih =>
    obtain ⟨hs, hdown⟩ := List.nodup_cons.mp hdown
    refine ⟨fun _ => hnew s List.mem_cons_self, ih hdown fun x hx => ?_⟩
    change x ∉ insert s entered
    rw [Finset.mem_insert]
    rintro (rfl | hmem)
    · exact hs hx
    · exact hnew x (List.mem_cons_of_mem s hx) hmem

theorem transitionTo_of_valid (table : Table)
    (hfree : sm.inStateTransition = false)
    (ht : Valid numStates t) :
    transitionTo table numStates sm t =
      match ancestors table sm.curState, substates table t with
      | some up, some down =>
        some ({ sm with curState := down.getLastD sm.curState },
          up.map (fun s => .exit s (table s).smExit) ++
            down.map (fun s => .entry s (table s).smEntry))
      | _, _ => none := by
  obtain ⟨hnone, hmax, hnum⟩ := ht
  have hvalid : ¬(t = stateNone ∨ maxStates ≤ t ∨ numStates ≤ t) := by
    rintro (h | h | h)
    · exact hnone h
    · exact absurd hmax (UInt8.not_lt.mpr h)
    · exact absurd hnum (UInt8.not_lt.mpr h)
  rw [transitionTo, if_neg (by rw [hfree]; exact Bool.false_ne_true), if_neg hvalid]

theorem substates_ne_nil (ht : t ≠ stateNone)
    (h : substates table t = some down) (d : UInt8) : down.getLastD d = down.getLastD t := by
  cases down with
  | nil => exact absurd (stateNone_of_walk_nil h) ht
  | cons x l => rw [List.getLastD_cons, List.getLastD_cons]

variable {p : Sm × Finset UInt8}

/-- Where nothing but the current state and its ancestors is entered, a transition balances if
it is to a levelled state and runs no exit callback too many. -/
theorem balanced_iff
    (hfree : p.1.inStateTransition = false) (hup : ancestors table p.1.curState = some up)
    (hsub : p.2 ⊆ up.toFinset) (ht : Valid numStates t) :
    Balanced table numStates p t ↔
      (∀ s ∈ up, (table s).smExit = true → s ∈ p.2) ∧ Levelled table t := by
  have hstep := transitionTo_of_valid table hfree ht
  rw [hup] at hstep
  cases hdown : substates table t with
  | none =>
    rw [hdown] at hstep
    constructor
    · rintro ⟨sm, calls, _, heq, -⟩
      rw [hstep] at heq
      cases heq
    · rintro ⟨-, down, _, heq, -⟩
      rw [hdown] at heq
      cases heq
  | some down =>
    rw [hdown] at hstep
    have hempty : p.2 \ up.toFinset = ∅ := Finset.sdiff_eq_empty_iff_subset.mpr hsub
    have hfit : AllFit p.2 (up.map (fun s => Call.exit s (table s).smExit) ++
        down.map (fun s => .entry s (table s).smEntry)) ↔
          ∀ s ∈ up, (table s).smExit = true → s ∈ p.2 := by
      rw [allFit_append, allFit_exits _ (walk_nodup hup), applyAll_exits, hempty]
      exact and_iff_left (allFit_entries _ (walk_nodup hdown) fun s _ => Finset.notMem_empty s)
    have hentered : applyAll p.2 (up.map (fun s => Call.exit s (table s).smExit) ++
        down.map (fun s => .entry s (table s).smEntry)) = down.toFinset := by
      rw [applyAll_append, applyAll_exits, hempty, applyAll_entries, Finset.empty_union]
    have hlast := substates_ne_nil ht.1 hdown p.1.curState
    constructor
    · rintro ⟨sm, calls, up', heq, hfits, hup', hall⟩
      obtain ⟨rfl, rfl⟩ := Prod.mk.inj (Option.some.inj (hstep.symm.trans heq))
      rw [hentered] at hall
      change ancestors table (down.getLastD p.1.curState) = some up' at hup'
      rw [hlast] at hup'
      exact ⟨hfit.mp hfits, down, up', hdown, hup', hall⟩
    · rintro ⟨hexit, down', up', hdown', hup', hall⟩
      obtain rfl := Option.some.inj (hdown.symm.trans hdown')
      rw [← hlast] at hup'
      exact ⟨_, _, up', hstep, hfit.mpr hexit, hup', hentered.trans hall⟩

theorem Balanced.level
    (hfree : p.1.inStateTransition = false) (ht : Valid numStates t)
    (h : Balanced table numStates p t) : Level table ((engine table numStates).step p t).1 := by
  obtain ⟨sm, calls, up, heq, -, hup, hall⟩ := h
  have hstep : ((engine table numStates).step p t).1 = (sm, applyAll p.2 calls) := by
    unfold engine
    dsimp only
    rw [heq]
  rw [hstep]
  refine ⟨?_, up, hup, hall⟩
  rw [transitionTo_of_valid table hfree ht] at heq
  split at heq
  · obtain ⟨rfl, -⟩ := Prod.mk.inj (Option.some.inj heq)
    exact hfree
  · cases heq

theorem Level.balanced_iff (hp : Level table p)
    (ht : Valid numStates t) : Balanced table numStates p t ↔ Levelled table t := by
  obtain ⟨hfree, up, hup, hall⟩ := hp
  rw [SmEngine.balanced_iff hfree hup hall.subset ht]
  exact and_iff_right fun s hs _ => hall ▸ List.mem_toFinset.mpr hs

theorem Level.meets_iff {run : List UInt8} (hp : Level table p)
    (hrun : ∀ t ∈ run, Valid numStates t) :
    (engine table numStates).Meets (Balanced table numStates) p run ↔
      ∀ t ∈ run, Levelled table t := by
  induction run generalizing p with
  | nil => exact ⟨fun _ _ ht => (List.not_mem_nil ht).elim, fun _ => trivial⟩
  | cons t run ih =>
    have ht := hrun t List.mem_cons_self
    have hrest := fun x hx => hrun x (List.mem_cons_of_mem t hx)
    rw [Machine.meets_cons, List.forall_mem_cons, hp.balanced_iff ht]
    refine and_congr_right fun hlevelled => ih ?_ hrest
    exact ((hp.balanced_iff ht).mpr hlevelled).level hp.1 ht

theorem balanced_start_iff (ht : Valid numStates t) :
    Balanced table numStates (⟨init, false⟩, ∅) t ↔ Quiet table init ∧ Levelled table t := by
  cases hup : ancestors table init with
  | none =>
    have hfree : (⟨init, false⟩ : Sm).inStateTransition = false := rfl
    have hstep := transitionTo_of_valid table hfree ht
    rw [hup] at hstep
    constructor
    · rintro ⟨sm, calls, _, heq, -⟩
      rw [hstep] at heq
      cases heq
    · rintro ⟨⟨up, heq, -⟩, -⟩
      rw [hup] at heq
      cases heq
  | some up =>
    rw [balanced_iff rfl hup (Finset.empty_subset _) ht]
    refine and_congr_left fun _ => ⟨fun h => ⟨up, hup, fun s hs => ?_⟩, ?_⟩
    · exact Bool.eq_false_iff.mpr fun hexit => Finset.notMem_empty s (h s hs hexit)
    · rintro ⟨up', hup', hquiet⟩ s hs hexit
      obtain rfl := Option.some.inj (hup.symm.trans hup')
      rw [hquiet s hs] at hexit
      cases hexit

theorem eq_of_create {alloc : Bool}
    (h : create table alloc init numStates = some sm) : sm = ⟨init, false⟩ := by
  unfold create at h
  split_ifs at h
  exact (Option.some.inj h).symm

/-- From its creation on, every transition of a run balances if and only if every target is
levelled and, unless there is no transition, nothing runs when the initial state is left. -/
theorem balanced_iff_levelled {table : Table} {numStates init : UInt8} {alloc : Bool} {sm : Sm}
    {run : List UInt8} (hc : create table alloc init numStates = some sm)
    (hrun : ∀ t ∈ run, Valid numStates t) :
    (engine table numStates).Meets (Balanced table numStates) (sm, ∅) run ↔
      (∀ t ∈ run, Levelled table t) ∧ (run = [] ∨ Quiet table init) := by
  obtain rfl := eq_of_create hc
  cases run with
  | nil =>
    exact ⟨fun _ => ⟨fun _ ht => (List.not_mem_nil ht).elim, .inl rfl⟩, fun _ => trivial⟩
  | cons t run =>
    have ht := hrun t List.mem_cons_self
    have hrest := fun x hx => hrun x (List.mem_cons_of_mem t hx)
    rw [Machine.meets_cons, List.forall_mem_cons]
    constructor
    · rintro ⟨hfirst, hmeets⟩
      obtain ⟨hquiet, hlevelled⟩ := (balanced_start_iff ht).mp hfirst
      exact ⟨⟨hlevelled, ((hfirst.level rfl ht).meets_iff hrest).mp hmeets⟩, .inr hquiet⟩
    · rintro ⟨⟨hlevelled, hall⟩, hnil | hquiet⟩
      · cases hnil
      · have hfirst := (balanced_start_iff ht).mpr ⟨hquiet, hlevelled⟩
        exact ⟨hfirst, ((hfirst.level rfl ht).meets_iff hrest).mpr hall⟩

def twoSubstates : Table := fun s =>
  if s = 0 then ⟨0, stateNone, 1, true, true, true⟩
  else if s = 3 then ⟨3, stateNone, stateNone, false, true, false⟩
  else ⟨s, 0, stateNone, false, true, true⟩

theorem topLevel_balanced :
    (engine twoSubstates 4).Meets (Balanced twoSubstates 4) (⟨3, false⟩, ∅) [0, 3, 0] ∧
      create twoSubstates true 3 4 = some ⟨3, false⟩ := by
  have hc : create twoSubstates true 3 4 = some ⟨3, false⟩ := by decide
  have hrun : ∀ t ∈ [0, 3, 0], Valid 4 t := by decide +kernel
  have hzero : Levelled twoSubstates 0 := ⟨[0, 1], [1, 0], by decide, by decide, by decide⟩
  have hthree : Levelled twoSubstates 3 := ⟨[3], [3], by decide, by decide, by decide⟩
  have hlevelled : ∀ t ∈ [0, 3, 0], Levelled twoSubstates t := by
    intro t ht
    rcases List.mem_cons.mp ht with rfl | ht
    · exact hzero
    rcases List.mem_pair.mp ht with rfl | rfl
    · exact hthree
    · exact hzero
  refine ⟨(balanced_iff_levelled hc hrun).mpr ⟨hlevelled, .inr ⟨[3], by decide, by decide +kernel⟩⟩, hc⟩

/-- From the initial substate to its sibling: the parent is left and not entered again. -/
theorem sibling_unbalanced :
    create twoSubstates true 3 4 = some ⟨3, false⟩ ∧ (∀ t ∈ [0, 2], Valid 4 t) ∧
      ¬(engine twoSubstates 4).Meets (Balanced twoSubstates 4) (⟨3, false⟩, ∅) [0, 2] := by
  refine ⟨by decide, by decide +kernel, ?_⟩
  rintro ⟨-, ⟨sm, calls, up, hstep, -, hup, hall⟩, -⟩
  have hcalls : transitionTo twoSubstates 4 ⟨1, false⟩ 2 =
      some (⟨2, false⟩, [.exit 1 true, .exit 0 true, .entry 2 true]) := by decide
  obtain ⟨rfl, rfl⟩ := Prod.mk.inj (Option.some.inj (hcalls.symm.trans hstep))
  have hpath : ancestors twoSubstates 2 = some [2, 0] := by decide
  obtain rfl := Option.some.inj (hpath.symm.trans hup)
  revert hall
  decide

end KernelModules.SmEngine
