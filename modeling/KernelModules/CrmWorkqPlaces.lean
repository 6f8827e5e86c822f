import KernelModules.CrmWorkq

/-!
# Every task in one place

A task is in the empty list, in the list of a priority, with a producer or with the worker. Each
half of a section moves one task at most, and the counters are behind the lists by one while a
section is under way. What has been accepted waits in its list, unchanged, in order.
-/

namespace KernelModules.CrmWorkq

open Function

open Shelves (Sorted)

variable {P Cb Priv Payload : Type*} {num : ℕ} {s : Workq P Cb Priv Payload num}
  {p : P} {t : Fin num} {rest : List (Fin num)} {i : ℕ}

inductive Place (P : Type*)
  | emptyList
  | processList (i : ℕ)
  | held (p : P)
  | running

def Worker.task : Worker num → Option (Fin num)
  | .processTask _ t | .clearTask _ t | .putTask _ t => some t
  | _ => none

def Worker.visits (i : ℕ) : Worker num → Prop
  | .idle => False
  | .walk j | .processTask j _ | .clearTask j _ | .putTask j _ => j ≤ i

theorem priority_lt (prio : ℤ) : Workq.priority prio < crmTaskPriorityMax := by
  unfold Workq.priority
  split_ifs with h
  · exact (Int.toNat_lt h.2).mpr h.1
  · decide

def Workq.content (s : Workq P Cb Priv Payload num) : Place P → List (Fin num)
  | .emptyList => s.emptyHead
  | .processList i => s.processHead i
  | .held p => (s.held p).toList
  | .running => s.worker.task.toList

/-- The task that a section under way is about is still where it was. -/
def Workq.Holds (s : Workq P Cb Priv Payload num) : Option (Section P num) → Prop
  | some (.getTask p t) => s.held p = none ∧ ∃ rest, s.emptyHead = t :: rest
  | some (.processWorkq i t) =>
    i < crmTaskPriorityMax ∧ s.worker = .walk i ∧ ∃ rest, s.processHead i = t :: rest
  | _ => True

/-- How far `free_cnt` is behind. -/
def freeDue : Option (Section P num) → ℤ
  | some (.getTask ..) | some .putTask => 1
  | _ => 0

/-- How far `pending_cnt` is behind. -/
def pendingDue : Option (Section P num) → ℤ
  | some .enqueueTask | some (.processWorkq ..) => 1
  | _ => 0

def Workq.processed (s : Workq P Cb Priv Payload num) : List (Fin num) :=
  (List.range crmTaskPriorityMax).flatMap s.processHead

structure Workq.Inv (s : Workq P Cb Priv Payload num) : Prop where
  sorted : Sorted s.content
  holds : s.Holds s.lockBh
  freeCnt : s.freeCnt + freeDue s.lockBh = s.emptyHead.length
  pendingCnt : s.pendingCnt + pendingDue s.lockBh = s.processed.length
  visited : ∀ i < crmTaskPriorityMax, s.processHead i ≠ [] →
    s.work = true ∨ s.worker.visits i ∨ s.lockBh = some .enqueueTask

def Workq.waiting (s : Workq P Cb Priv Payload num) (i : ℕ) : List (Job Cb Priv Payload num) :=
  (match s.worker with
    | .processTask j t => if j = i then [job s.pool t] else []
    | _ => []) ++ (s.processHead i).map (job s.pool)

def acceptedAt (i : ℕ) : Event Cb Priv Payload num → Option (Job Cb Priv Payload num)
  | .accepted j job => if j = i then some job else none
  | .ran .. => none

def ranAt (i : ℕ) : Event Cb Priv Payload num → Option (Job Cb Priv Payload num)
  | .ran j job => if j = i then some job else none
  | .accepted .. => none

/-- What a step leaves: the invariant, and no job lost or got ahead of another. -/
structure Workq.Keeps (s : Workq P Cb Priv Payload num)
    (r : Workq P Cb Priv Payload num × List (Event Cb Priv Payload num)) : Prop where
  inv : r.1.Inv
  waiting : ∀ i, s.waiting i ++ r.2.filterMap (acceptedAt i) =
    r.2.filterMap (ranAt i) ++ r.1.waiting i

namespace Workq.Inv

theorem create (payload : Fin num → Payload) :
    (create payload : Workq P Cb Priv Payload num).Inv where
  sorted := by
    refine ⟨fun a => ?_, fun t => ⟨.emptyList, List.mem_finRange t, fun a ha => ?_⟩⟩
    · cases a with
      | emptyList => exact List.nodup_finRange num
      | _ => exact List.nodup_nil
    · cases a with
      | emptyList => rfl
      | _ => cases ha
  holds := trivial
  freeCnt := by simp [CrmWorkq.create, freeDue]
  pendingCnt := rfl
  visited i _ h := absurd rfl h

theorem keeps_of_eq (h : s.Inv) {s' : Workq P Cb Priv Payload num}
    (hempty : s'.emptyHead = s.emptyHead) (hprocess : s'.processHead = s.processHead)
    (hpool : s'.pool = s.pool) (hworker : s'.worker = s.worker) (hheld : s'.held = s.held)
    (hholds : s'.Holds s'.lockBh)
    (hfree : s'.freeCnt + freeDue s'.lockBh = s.freeCnt + freeDue s.lockBh)
    (hpending : s'.pendingCnt + pendingDue s'.lockBh = s.pendingCnt + pendingDue s.lockBh)
    (hwork : s.work = true ∨ s.lockBh = some .enqueueTask →
      s'.work = true ∨ s'.lockBh = some .enqueueTask) :
    s.Keeps (s', []) where
  inv :=
    { sorted := by
        have hcontent : s'.content = s.content := by
          funext a
          cases a <;> simp only [content, hempty, hprocess, hheld, hworker]
        rw [hcontent]
        exact h.sorted
      holds := hholds
      freeCnt := hfree.trans (h.freeCnt.trans (by rw [hempty]))
      pendingCnt := hpending.trans (h.pendingCnt.trans (by simp only [processed, hprocess]))
      visited i hi hne := by
        rw [hprocess] at hne
        rw [hworker]
        have := h.visited i hi hne
        tauto }
  waiting i := by
    simp only [List.filterMap_nil, List.append_nil, List.nil_append, Workq.waiting, hprocess, hworker,
      hpool]

theorem length_processed_update (hi : i < crmTaskPriorityMax) (l : List (Fin num)) :
    ((List.range crmTaskPriorityMax).flatMap (update s.processHead i l)).length +
      (s.processHead i).length = s.processed.length + l.length := by
  have hperm := Shelves.perm_update (f := s.processHead) List.nodup_range (List.mem_range.mpr hi) l
  rw [processed, ← List.length_append, ← List.length_append]
  exact hperm.length_eq

theorem keeps_self (h : s.Inv) : s.Keeps (s, []) :=
  h.keeps_of_eq rfl rfl rfl rfl rfl h.holds rfl rfl id

theorem getTask (h : s.Inv) (hlock : s.lockBh = none) (hheld : s.held p = none) :
    s.Keeps (s.getTask p, []) := by
  unfold Workq.getTask
  split
  next => exact h.keeps_self
  next t rest hempty =>
    refine h.keeps_of_eq rfl rfl rfl rfl rfl ⟨hheld, rest, hempty⟩ ?_ ?_ ?_
    · simp [hlock, freeDue]
    · simp [hlock, pendingDue]
    · simp [hlock]

theorem lockBh_ne (h : s.Inv) (hworker : ∀ i, s.worker ≠ .walk i) (i : ℕ) (t : Fin num) :
    s.lockBh ≠ some (.processWorkq i t) := by
  intro hlock
  have hholds := h.holds
  rw [hlock] at hholds
  exact hworker i hholds.2.1

theorem inv_worker (h : s.Inv) {worker : Worker num} {work : Bool}
    (htask : worker.task = s.worker.task) (hlock : ∀ i t, s.lockBh ≠ some (.processWorkq i t))
    (hvisits : ∀ j < crmTaskPriorityMax, s.processHead j ≠ [] →
      s.work = true ∨ s.worker.visits j → work = true ∨ worker.visits j) :
    { s with work := work, worker := worker }.Inv where
  sorted := by
    have hcontent : { s with work := work, worker := worker }.content = s.content := by
      funext a
      cases a with
      | running => simp only [content, htask]
      | _ => rfl
    rw [hcontent]
    exact h.sorted
  holds := by
    have hholds := h.holds
    revert hholds
    cases hsec : s.lockBh with
    | none => exact id
    | some sec =>
      cases sec with
      | processWorkq i t => exact absurd hsec (hlock i t)
      | _ => exact id
  freeCnt := h.freeCnt
  pendingCnt := h.pendingCnt
  visited j hj hne := by
    rcases h.visited j hj hne with hwork | hvisit | hsec
    · exact (hvisits j hj hne (Or.inl hwork)).imp_right Or.inl
    · exact (hvisits j hj hne (Or.inr hvisit)).imp_right Or.inl
    · exact Or.inr (Or.inr hsec)

theorem startWork (h : s.Inv) (hworker : s.worker = .idle) :
    s.Keeps ({ s with work := false, worker := .walk 0 }, []) where
  inv := h.inv_worker (by rw [hworker]; rfl) (h.lockBh_ne (by simp [hworker]))
    fun j _ _ _ => Or.inr (Nat.zero_le j)
  waiting i := by simp [Workq.waiting, hworker]

theorem walk (h : s.Inv) (hlock : s.lockBh = none) (hworker : s.worker = .walk i) :
    s.Keeps (s.walk i, []) := by
  have hsec (j : ℕ) (t : Fin num) : s.lockBh ≠ some (.processWorkq j t) := by simp [hlock]
  unfold Workq.walk
  split_ifs with hi
  · split
    next hlist =>
      refine ⟨h.inv_worker (by rw [hworker]; rfl) hsec fun j _ hne => Or.imp_right fun hvisit => ?_,
        fun j => by simp [Workq.waiting, hworker]⟩
      rw [hworker] at hvisit
      have hji : j ≠ i := fun heq => hne (heq ▸ hlist)
      exact Nat.lt_of_le_of_ne hvisit hji.symm
    next t rest hlist =>
      refine h.keeps_of_eq rfl rfl rfl rfl rfl ⟨hi, hworker, rest, hlist⟩ ?_ ?_ ?_
      · simp [hlock, freeDue]
      · simp [hlock, pendingDue]
      · simp [hlock]
  · refine ⟨h.inv_worker (by rw [hworker]; rfl) hsec fun j hj _ => Or.imp_right fun hvisit => ?_,
      fun j => by simp [Workq.waiting, hworker]⟩
    rw [hworker] at hvisit
    exact hi (Nat.lt_of_le_of_lt hvisit hj)

theorem processTask (h : s.Inv) (hworker : s.worker = .processTask i t) :
    s.Keeps ({ s with worker := .clearTask i t }, [.ran i (job s.pool t)]) where
  inv := h.inv_worker (by rw [hworker]; rfl) (h.lockBh_ne (by simp [hworker]))
    fun j _ _ => by rw [hworker]; exact id
  waiting j := by
    by_cases hij : i = j
    · simp [Workq.waiting, hworker, List.filterMap_cons, acceptedAt, ranAt, hij]
    · simp [Workq.waiting, hworker, List.filterMap_cons, acceptedAt, ranAt, hij]

theorem waiting_setTask (task : Task Cb Priv Payload) (hrun : ∀ j, s.worker ≠ .processTask j t)
    (hlist : t ∉ s.processHead i) : (s.setTask t task).waiting i = s.waiting i := by
  have hjob (u : Fin num) (hu : u ≠ t) : job (s.setTask t task).pool u = job s.pool u := by
    simp only [job, Workq.setTask, update_of_ne hu]
  have hmap : (s.processHead i).map (job (s.setTask t task).pool) = (s.processHead i).map (job s.pool) :=
    List.map_congr_left fun u hu => hjob u fun heq => hlist (heq ▸ hu)
  have hworker : (s.setTask t task).worker = s.worker := rfl
  unfold Workq.waiting
  rw [hworker]
  cases hs : s.worker with
  | processTask j u =>
    dsimp only
    rw [hjob u fun heq => hrun j (heq ▸ hs)]
    exact congrArg _ hmap
  | _ => exact hmap

theorem setTask (h : s.Inv) (task : Task Cb Priv Payload) (hrun : ∀ j, s.worker ≠ .processTask j t)
    (hlist : ∀ i, t ∉ s.processHead i) : s.Keeps (s.setTask t task, []) where
  inv := ⟨h.sorted, h.holds, h.freeCnt, h.pendingCnt, h.visited⟩
  waiting i := by
    rw [waiting_setTask task hrun (hlist i)]
    exact List.append_nil _

theorem of_held (h : s.Inv) (hheld : s.held p = some t) :
    (∀ j, s.worker ≠ .processTask j t) ∧ ∀ i, t ∉ s.processHead i := by
  have hmem : t ∈ s.content (.held p) := by simp [content, hheld]
  constructor
  · intro j hworker
    have hrun : t ∈ s.content (.running : Place P) := by simp [content, hworker, Worker.task]
    cases h.sorted.eq hmem hrun
  · intro i hlist
    have hprocess : t ∈ s.content (.processList i : Place P) := hlist
    cases h.sorted.eq hmem hprocess

theorem of_running (h : s.Inv) (htask : s.worker.task = some t) (i : ℕ) : t ∉ s.processHead i := by
  intro hlist
  have hrun : t ∈ s.content (.running : Place P) := by simp [content, htask]
  have hprocess : t ∈ s.content (.processList i : Place P) := hlist
  cases h.sorted.eq hrun hprocess

theorem clearTask (h : s.Inv) (hworker : s.worker = .clearTask i t) :
    s.Keeps ({ s.setTask t (s.pool t).clear with worker := .putTask i t }, []) := by
  have hset := h.setTask (s.pool t).clear (t := t) (by simp [hworker])
    (h.of_running (by rw [hworker]; rfl))
  refine ⟨hset.inv.inv_worker ?_ (h.lockBh_ne (by simp [hworker])) ?_, fun j => ?_⟩
  · change _ = s.worker.task
    rw [hworker]
    rfl
  · intro j _ _
    change _ ∨ s.worker.visits j → _
    rw [hworker]
    exact id
  · rw [hset.waiting j]
    simp [Workq.waiting, Workq.setTask, hworker]

theorem putTask (h : s.Inv) (hlock : s.lockBh = none) (hworker : s.worker = .putTask i t) :
    s.Keeps ({ s.putTask t with worker := .walk i }, []) where
  inv :=
    { sorted := by
        refine h.sorted.move (i := .running) (j := .emptyList) (x := t) (by simp) ?_ rfl ?_
        · simp [content, hworker, Worker.task]
        · intro a ha ha'
          cases a with
          | emptyList => exact absurd rfl ha'
          | running => exact absurd rfl ha
          | _ => rfl
      holds := trivial
      freeCnt := by
        have hfree := h.freeCnt
        rw [hlock] at hfree
        simp only [Workq.putTask, freeDue, List.length_append, List.length_singleton] at hfree ⊢
        omega
      pendingCnt := by
        have hpending := h.pendingCnt
        rw [hlock] at hpending
        exact hpending
      visited j hj hne := by
        have hvisited := h.visited j hj hne
        rw [hlock, hworker] at hvisited
        exact hvisited.imp_right fun h => Or.inl (h.resolve_right (by simp)) }
  waiting j := by simp [Workq.waiting, Workq.putTask, hworker]

variable [DecidableEq P]

theorem unlock (h : s.Inv) {sec : Section P num} (hlock : s.lockBh = some sec) :
    s.Keeps (s.unlock sec, []) := by
  have hholds := h.holds
  have hfree := h.freeCnt
  have hpending := h.pendingCnt
  rw [hlock] at hholds hfree hpending
  cases sec with
  | enqueueTask =>
    refine h.keeps_of_eq rfl rfl rfl rfl rfl trivial ?_ ?_ ?_
    · simp [Workq.unlock, hlock, freeDue]
    · simp [Workq.unlock, hlock, pendingDue]
    · exact fun _ => Or.inl rfl
  | putTask =>
    refine h.keeps_of_eq rfl rfl rfl rfl rfl trivial ?_ ?_ ?_
    · simp [Workq.unlock, hlock, freeDue]
    · simp [Workq.unlock, hlock, pendingDue]
    · exact fun hwork => Or.inl (hwork.resolve_right (by simp [hlock]))
  | getTask p t =>
    obtain ⟨hheld, rest, hempty⟩ := hholds
    have herase : s.emptyHead.erase t = rest := by rw [hempty, List.erase_cons_head]
    constructor
    · constructor
      · refine h.sorted.move (i := .emptyList) (j := .held p) (x := t) (by simp) ?_ ?_ ?_
        · simp only [content, Workq.unlock, herase]
          exact hempty
        · simp [content, Workq.unlock, hheld]
        · intro a ha ha'
          cases a with
          | emptyList => exact absurd rfl ha
          | held q =>
            have hqp : q ≠ p := fun heq => ha' (heq ▸ rfl)
            simp only [content, Workq.unlock, update_of_ne hqp]
          | _ => rfl
      · trivial
      · simp only [hempty, List.length_cons, freeDue] at hfree
        simp only [Workq.unlock, herase, freeDue]
        omega
      · exact hpending
      · intro i hi hne
        have := h.visited i hi hne
        rw [hlock] at this
        simpa [Workq.unlock] using this
    · intro i
      simp only [List.filterMap_nil, List.append_nil, List.nil_append]
      rfl
  | processWorkq i t =>
    obtain ⟨hi, hworker, rest, hlist⟩ := hholds
    have herase : (s.processHead i).erase t = rest := by rw [hlist, List.erase_cons_head]
    constructor
    · constructor
      · refine h.sorted.move (i := .processList i) (j := .running) (x := t) (by simp) ?_ ?_ ?_
        · simp only [content, Workq.unlock, herase, update_self]
          exact hlist
        · simp [content, Workq.unlock, hworker, Worker.task]
        · intro a ha ha'
          cases a with
          | running => exact absurd rfl ha'
          | processList j =>
            have hji : j ≠ i := fun heq => ha (heq ▸ rfl)
            simp only [content, Workq.unlock, update_of_ne hji]
          | _ => rfl
      · trivial
      · exact hfree
      · have hlength := length_processed_update (s := s) hi rest
        rw [hlist, List.length_cons] at hlength
        simp only [pendingDue] at hpending
        simp only [Workq.unlock, herase, processed, pendingDue]
        omega
      · intro j hj hne
        by_cases hji : j = i
        · exact Or.inr (Or.inl hji.ge)
        · have hlist' : s.processHead j ≠ [] := by
            simpa only [Workq.unlock, update_of_ne hji] using hne
          have hvisited := h.visited j hj hlist'
          rw [hlock, hworker] at hvisited
          exact hvisited.imp_right fun h => Or.inl (h.resolve_right (by simp))
    · intro j
      simp only [List.filterMap_nil, List.append_nil, List.nil_append]
      by_cases hji : j = i
      · subst hji
        simp [Workq.waiting, Workq.unlock, hworker, hlist]
      · simp [Workq.waiting, Workq.unlock, hworker, hji, Ne.symm hji]

theorem enqueueTask (h : s.Inv) (hlock : s.lockBh = none) (hheld : s.held p = some t) (priv : Priv)
    (prio : ℤ) : s.Keeps (s.enqueueTask p t priv prio) := by
  obtain ⟨hrun, hlist⟩ := h.of_held hheld
  have hfree := h.freeCnt
  have hpending := h.pendingCnt
  rw [hlock] at hfree hpending
  have hgone (q : P) (hq : q ≠ p) : update s.held p none q = s.held q :=
    update_of_ne hq ..
  unfold Workq.enqueueTask
  dsimp only
  split_ifs with hcancel
  · constructor
    · constructor
      · refine h.sorted.move (i := .held p) (j := .emptyList) (x := t) (by simp) ?_ rfl ?_
        · simp [content, Workq.putTask, Workq.setTask, hheld]
        · intro a ha ha'
          cases a with
          | emptyList => exact absurd rfl ha'
          | held q =>
            have hq : q ≠ p := fun heq => ha (heq ▸ rfl)
            exact congrArg Option.toList (hgone q hq)
          | _ => rfl
      · trivial
      · simp only [Workq.putTask, Workq.setTask, freeDue, List.length_append,
          List.length_singleton] at hfree ⊢
        omega
      · exact hpending
      · intro j hj hne
        have hvisited := h.visited j hj hne
        rw [hlock] at hvisited
        exact hvisited.imp_right fun h => Or.inl (h.resolve_right (by simp))
    · intro j
      exact (List.append_nil _).trans (waiting_setTask _ hrun (hlist j)).symm
  · have hlength := length_processed_update (s := s) (priority_lt prio)
      (s.processHead (priority prio) ++ [t])
    rw [List.length_append, List.length_singleton] at hlength
    constructor
    · constructor
      · refine h.sorted.move (i := .held p) (j := .processList (priority prio)) (x := t) (by simp) ?_
          ?_ ?_
        · simp [content, Workq.setTask, hheld]
        · simp only [content, Workq.setTask, update_self]
        · intro a ha ha'
          cases a with
          | held q =>
            have hq : q ≠ p := fun heq => ha (heq ▸ rfl)
            exact congrArg Option.toList (hgone q hq)
          | processList j =>
            have hj : j ≠ priority prio := fun heq => ha' (heq ▸ rfl)
            simp only [content, Workq.setTask, update_of_ne hj]
          | _ => rfl
      · trivial
      · exact hfree
      · simp only [pendingDue] at hpending ⊢
        simp only [Workq.setTask, processed]
        omega
      · exact fun j _ _ => Or.inr (Or.inr rfl)
    · intro j
      have hset := waiting_setTask { s.pool t with priv := some priv } hrun (hlist j)
      rw [← hset]
      by_cases hj : priority prio = j
      · simp [Workq.waiting, Workq.setTask, List.filterMap_cons, acceptedAt, ranAt, hj]
      · simp [Workq.waiting, Workq.setTask, List.filterMap_cons, acceptedAt, ranAt, hj,
          update_of_ne (Ne.symm hj)]

end Workq.Inv

end KernelModules.CrmWorkq
