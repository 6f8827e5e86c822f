import KernelModules.CrmWorkqPlaces

/-!
# No task is lost

What each step keeps every run keeps. Left to itself the worker comes to an end, and then all that
has been accepted has run.
-/

namespace KernelModules.CrmWorkq

open Shelves (Sorted)

variable {P Cb Priv Payload : Type*} {num : ℕ} {s : Workq P Cb Priv Payload num} [DecidableEq P]

theorem Workq.Inv.keeps_step (h : s.Inv) (input : Input P Cb Priv Payload) :
    s.Keeps (step s input) := by
  unfold step
  cases input with
  | getTask p =>
    dsimp only
    split
    next hlock hheld => exact h.getTask hlock hheld
    next => exact h.keeps_self
  | fill p processCb payload =>
    dsimp only
    split
    next t hheld => exact h.setTask _ (h.of_held hheld).1 (h.of_held hheld).2
    next => exact h.keeps_self
  | cancel p =>
    dsimp only
    split
    next t hheld => exact h.setTask _ (h.of_held hheld).1 (h.of_held hheld).2
    next => exact h.keeps_self
  | enqueueTask p priv prio =>
    dsimp only
    split
    next t hlock hheld => exact h.enqueueTask hlock hheld priv prio
    next => exact h.keeps_self
  | unlock =>
    dsimp only
    split
    next sec hlock => exact h.unlock hlock
    next => exact h.keeps_self
  | startWork =>
    dsimp only
    split
    next hwork hworker => exact h.startWork hworker
    next => exact h.keeps_self
  | walk =>
    dsimp only
    split
    next i hlock hworker => exact h.walk hlock hworker
    next => exact h.keeps_self
  | processTask =>
    dsimp only
    split
    next i t hworker => exact h.processTask hworker
    next => exact h.keeps_self
  | clearTask =>
    dsimp only
    split
    next i t hworker => exact h.clearTask hworker
    next => exact h.keeps_self
  | putTask =>
    dsimp only
    split
    next i t hlock hworker => exact h.putTask hlock hworker
    next => exact h.keeps_self

variable (payload : Fin num → Payload) (inputs : List (Input P Cb Priv Payload))

theorem run_inv (hs : s.Inv) : (machine.run s inputs).1.Inv :=
  machine.invariant (fun _ input h => (h.keeps_step input).inv) inputs hs

theorem accepted_eq (i : ℕ) :
    (machine.run (create payload : Workq P Cb Priv Payload num) inputs).2.filterMap (acceptedAt i) =
      (machine.run (create payload) inputs).2.filterMap (ranAt i) ++
        (machine.run (create payload) inputs).1.waiting i := by
  have hmeets : machine.Meets (fun _ _ => True)
      (create payload : Workq P Cb Priv Payload num) inputs :=
    machine.meets_of_forall _ fun _ _ => trivial
  obtain ⟨held, ⟨hheld, -⟩, heq⟩ := machine.fifo_of_meets (acceptedAt i) (ranAt i)
    (I := fun held (s : Workq P Cb Priv Payload num) => held = s.waiting i ∧ s.Inv)
    (fun s input held h _ => ⟨_, ⟨rfl, (h.2.keeps_step input).inv⟩,
      h.1 ▸ (h.2.keeps_step input).waiting i⟩)
    ⟨rfl, Workq.Inv.create payload⟩ hmeets
  rw [hheld] at heq
  exact heq

/-- The worker can go on, or the section under way can be left. -/
def WorkerMoves (s : Workq P Cb Priv Payload num) : Input P Cb Priv Payload → Prop
  | .unlock => s.lockBh ≠ none
  | .startWork => s.work = true ∧ s.worker = .idle
  | .walk => s.lockBh = none ∧ ∃ i, s.worker = .walk i
  | .processTask => ∃ i t, s.worker = .processTask i t
  | .clearTask => ∃ i t, s.worker = .clearTask i t
  | .putTask => s.lockBh = none ∧ ∃ i t, s.worker = .putTask i t
  | _ => False

def lockCost : Option (Section P num) → ℕ
  | some (.processWorkq ..) => 0
  | none => 1
  | some (.getTask ..) => 2
  | some .putTask => 3
  | some .enqueueTask => 6

def Worker.cost : Worker num → ℕ
  | .idle => 0
  | .walk i => crmTaskPriorityMax - i + 1
  | .processTask i _ => crmTaskPriorityMax - i + 6
  | .clearTask i _ => crmTaskPriorityMax - i + 5
  | .putTask i _ => crmTaskPriorityMax - i + 4

def Workq.cost (s : Workq P Cb Priv Payload num) : ℕ :=
  8 * s.processed.length + s.worker.cost + 4 * s.work.toNat + lockCost s.lockBh

theorem Workq.Inv.cost_unlock (h : s.Inv) {sec : Section P num} (hlock : s.lockBh = some sec) :
    (s.unlock sec).cost < s.cost := by
  cases sec with
  | getTask p t =>
    simp only [Workq.cost, Workq.unlock, hlock, lockCost, processed]
    omega
  | putTask =>
    simp only [Workq.cost, Workq.unlock, hlock, lockCost, processed]
    omega
  | enqueueTask =>
    have hwork := Bool.toNat_le s.work
    simp only [Workq.cost, Workq.unlock, hlock, lockCost, processed, Bool.toNat_true]
    omega
  | processWorkq i t =>
    have hholds := h.holds
    rw [hlock] at hholds
    obtain ⟨hi, hworker, rest, hlist⟩ := hholds
    have herase : (s.processHead i).erase t = rest := by rw [hlist, List.erase_cons_head]
    have hlength := length_processed_update (s := s) hi rest
    rw [hlist, List.length_cons] at hlength
    simp only [Workq.cost, Workq.unlock, hlock, hworker, lockCost, Worker.cost, herase]
    simp only [Workq.processed] at hlength ⊢
    omega

theorem Workq.Inv.cost_step (h : s.Inv) {input : Input P Cb Priv Payload}
    (hmove : WorkerMoves s input) : (step s input).1.cost < s.cost := by
  cases input with
  | unlock =>
    cases hlock : s.lockBh with
    | none => exact absurd hlock hmove
    | some sec =>
      simp only [step, hlock]
      exact h.cost_unlock hlock
  | startWork =>
    obtain ⟨hwork, hworker⟩ := hmove
    simp [step, hwork, hworker, Workq.cost, Workq.processed, Worker.cost, crmTaskPriorityMax]
  | walk =>
    obtain ⟨hlock, i, hworker⟩ := hmove
    simp only [step, hlock, hworker, Workq.walk]
    split_ifs with hi
    · split
      · simp only [Workq.cost, Workq.processed, hlock, hworker, Worker.cost]
        omega
      · simp only [Workq.cost, Workq.processed, hlock, hworker, lockCost]
        omega
    · simp only [Workq.cost, Workq.processed, hlock, hworker, Worker.cost]
      omega
  | processTask =>
    obtain ⟨i, t, hworker⟩ := hmove
    simp [step, hworker, Workq.cost, Workq.processed, Worker.cost]
  | clearTask =>
    obtain ⟨i, t, hworker⟩ := hmove
    simp [step, hworker, Workq.cost, Workq.processed, Workq.setTask, Worker.cost]
  | putTask =>
    obtain ⟨hlock, i, t, hworker⟩ := hmove
    simp only [step, hlock, hworker, Workq.cost, Workq.processed, Workq.putTask, Worker.cost,
      lockCost]
    omega
  | _ => cases hmove

theorem length_le_cost (hs : s.Inv) {moves : List (Input P Cb Priv Payload)}
    (hmoves : machine.Meets WorkerMoves s moves) : moves.length ≤ s.cost := by
  induction moves generalizing s with
  | nil => exact Nat.zero_le _
  | cons input moves ih =>
    have hrest := ih (hs.keeps_step input).inv hmoves.2
    exact Nat.succ_le_of_lt (Nat.lt_of_le_of_lt hrest (hs.cost_step hmoves.1))

/-- Nothing is under way, and nothing waits. -/
structure Workq.Quiet (s : Workq P Cb Priv Payload num) : Prop where
  lockBh : s.lockBh = none
  work : s.work = false
  worker : s.worker = .idle
  waiting : ∀ i < crmTaskPriorityMax, s.waiting i = []

omit [DecidableEq P] in
/-- When it cannot go on, it has come to the end. -/
theorem Workq.Inv.quiet (h : s.Inv)
    (hstuck : ∀ input : Input P Cb Priv Payload, ¬ WorkerMoves s input) : s.Quiet := by
  have hlock : s.lockBh = none := by
    by_contra hlock
    exact hstuck .unlock hlock
  have hworker : s.worker = .idle := by
    cases hworker : s.worker with
    | idle => rfl
    | walk i => exact (hstuck .walk ⟨hlock, i, hworker⟩).elim
    | processTask i t => exact (hstuck .processTask ⟨i, t, hworker⟩).elim
    | clearTask i t => exact (hstuck .clearTask ⟨i, t, hworker⟩).elim
    | putTask i t => exact (hstuck .putTask ⟨hlock, i, t, hworker⟩).elim
  have hwork : s.work = false := by
    by_contra hwork
    exact hstuck .startWork ⟨Bool.eq_true_of_not_eq_false hwork, hworker⟩
  refine ⟨hlock, hwork, hworker, fun i hi => ?_⟩
  have hlist : s.processHead i = [] := by
    by_contra hlist
    have hvisited := h.visited i hi hlist
    rw [hlock, hwork, hworker] at hvisited
    simp [Worker.visits] at hvisited
  simp [Workq.waiting, hworker, hlist]

/-- The pass goes past a list only when it finds it empty. -/
theorem Workq.Inv.visits_step (h : s.Inv) {i : ℕ} (hi : i < crmTaskPriorityMax)
    (hvisits : s.worker.visits i) (input : Input P Cb Priv Payload) :
    (step s input).1.worker.visits i ∨
      input = .walk ∧ s.lockBh = none ∧ s.worker = .walk i ∧ s.processHead i = [] := by
  unfold step
  cases input with
  | walk =>
    dsimp only
    split
    next j hlock hworker =>
      rw [hworker] at hvisits
      unfold Workq.walk
      split_ifs with hj
      · split
        next hlist =>
          rcases Nat.eq_or_lt_of_le hvisits with rfl | hlt
          · exact Or.inr ⟨rfl, hlock, hworker, hlist⟩
          · exact Or.inl hlt
        next =>
          left
          rw [hworker]
          exact hvisits
      · exact absurd (Nat.lt_of_le_of_lt hvisits hi) hj
    next => exact Or.inl hvisits
  | unlock =>
    left
    dsimp only
    split
    next sec hlock =>
      cases sec with
      | processWorkq j t =>
        have hholds := h.holds
        rw [hlock] at hholds
        rw [hholds.2.1] at hvisits
        exact hvisits
      | _ => exact hvisits
    next => exact hvisits
  | getTask p =>
    left
    dsimp only
    split
    · unfold Workq.getTask
      split <;> exact hvisits
    · exact hvisits
  | enqueueTask p priv prio =>
    left
    dsimp only
    split
    · unfold Workq.enqueueTask
      dsimp only
      split_ifs <;> exact hvisits
    · exact hvisits
  | startWork =>
    left
    dsimp only
    split
    · exact Nat.zero_le i
    · exact hvisits
  | fill p processCb payload =>
    left
    dsimp only
    split <;> exact hvisits
  | cancel p =>
    left
    dsimp only
    split <;> exact hvisits
  | processTask =>
    left
    dsimp only
    split
    next j t hworker =>
      rw [hworker] at hvisits
      exact hvisits
    next => exact hvisits
  | clearTask =>
    left
    dsimp only
    split
    next j t hworker =>
      rw [hworker] at hvisits
      exact hvisits
    next => exact hvisits
  | putTask =>
    left
    dsimp only
    split
    next j t hlock hworker =>
      rw [hworker] at hvisits
      exact hvisits
    next => exact hvisits

/-- What holds behind a run: `events` is what the run has accepted and run. -/
structure Workq.LosesNoTask (s : Workq P Cb Priv Payload num)
    (events : List (Event Cb Priv Payload num)) : Prop where
  /-- Every task is in one place, once. -/
  sorted : Sorted s.content
  counters : s.lockBh = none →
    s.freeCnt = s.emptyHead.length ∧ s.pendingCnt = s.processed.length
  /-- A list that is not empty is looked at in this pass or in the next one. -/
  visited : s.lockBh = none → ∀ i < crmTaskPriorityMax, s.processHead i ≠ [] →
    s.work = true ∨ s.worker.visits i
  passes : ∀ i < crmTaskPriorityMax, s.worker.visits i → ∀ input : Input P Cb Priv Payload,
    (step s input).1.worker.visits i ∨
      input = .walk ∧ s.lockBh = none ∧ s.worker = .walk i ∧ s.processHead i = []
  /-- What is accepted runs once, in order and as it was accepted, or still waits. -/
  inOrder : ∀ i, events.filterMap (acceptedAt i) = events.filterMap (ranAt i) ++ s.waiting i
  /-- A task that can be handed out has run as often as it was accepted. -/
  finished : ∀ t ∈ s.emptyHead, ∀ i,
    (events.filterMap (acceptedAt i)).filter (fun job => job.task = t) =
      (events.filterMap (ranAt i)).filter (fun job => job.task = t)
  /-- The worker comes to an end, and then all that was accepted has run. -/
  drains : ∃ bound, ∀ moves, machine.Meets WorkerMoves s moves →
    moves.length ≤ bound ∧
      ((∀ input, ¬ WorkerMoves (machine.run s moves).1 input) →
        (machine.run s moves).1.Quiet ∧ ∀ i < crmTaskPriorityMax,
          (events ++ (machine.run s moves).2).filterMap (acceptedAt i) =
            (events ++ (machine.run s moves).2).filterMap (ranAt i))

omit [DecidableEq P] in
/-- A free task does not wait. -/
theorem Workq.Inv.waiting_free (h : s.Inv) {t : Fin num} (ht : t ∈ s.emptyHead) (i : ℕ) :
    (s.waiting i).filter (fun job => job.task = t) = [] := by
  have hempty : t ∈ s.content (.emptyList : Place P) := ht
  have hlist : t ∉ s.processHead i := by
    intro hlist
    have hprocess : t ∈ s.content (.processList i : Place P) := hlist
    cases h.sorted.eq hempty hprocess
  have hrun (j : ℕ) : s.worker ≠ .processTask j t := by
    intro hworker
    have hrunning : t ∈ s.content (.running : Place P) := by simp [content, hworker, Worker.task]
    cases h.sorted.eq hempty hrunning
  refine List.filter_eq_nil_iff.mpr fun jb hjb htask => ?_
  have htask : jb.task = t := of_decide_eq_true htask
  unfold Workq.waiting at hjb
  rcases List.mem_append.mp hjb with hfirst | hrest
  · cases hworker : s.worker with
    | processTask j u =>
      rw [hworker] at hfirst
      dsimp only at hfirst
      split_ifs at hfirst
      · rw [List.mem_singleton] at hfirst
        exact hrun j (hworker.trans (by rw [← htask, hfirst]; rfl))
      · cases hfirst
    | _ =>
      rw [hworker] at hfirst
      cases hfirst
  · obtain ⟨u, hu, rfl⟩ := List.mem_map.mp hrest
    exact hlist (htask ▸ hu)

theorem run_loses_no_task :
    (machine.run (create payload : Workq P Cb Priv Payload num) inputs).1.LosesNoTask
      (machine.run (create payload) inputs).2 := by
  have hinv : (machine.run (create payload : Workq P Cb Priv Payload num) inputs).1.Inv :=
    run_inv inputs (Workq.Inv.create payload)
  have horder := accepted_eq payload inputs
  refine
    { sorted := hinv.sorted
      counters := fun hlock => ?_
      visited := fun hlock i hi hne => ?_
      passes := fun i hi hvisits input => hinv.visits_step hi hvisits input
      inOrder := horder
      finished := fun t ht i => ?_
      drains := ⟨_, fun moves hmoves => ⟨length_le_cost hinv hmoves, fun hstuck => ?_⟩⟩ }
  · have hfree := hinv.freeCnt
    have hpending := hinv.pendingCnt
    rw [hlock] at hfree hpending
    exact ⟨(Int.add_zero _).symm.trans hfree, (Int.add_zero _).symm.trans hpending⟩
  · have hvisited := hinv.visited i hi hne
    rw [hlock] at hvisited
    exact hvisited.imp_right fun h => h.resolve_right (by simp)
  · rw [horder i, List.filter_append, hinv.waiting_free ht i, List.append_nil]
  · have hquiet := (run_inv moves hinv).quiet hstuck
    refine ⟨hquiet, fun i hi => ?_⟩
    have hall := accepted_eq payload (inputs ++ moves) i
    rw [machine.run_append] at hall
    rw [hall, hquiet.waiting i hi, List.append_nil]

end KernelModules.CrmWorkq
