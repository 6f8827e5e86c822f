import KernelModules.WlanScanCancels
import Mathlib.Tactic

/-!
# The limit on the active scans

No more scans are active on the pdevs of a psoc than the limit allows. That a scan waits only
while the limit is reached needs more: of the ways in which an active scan ends only its removal
activates another one, and only one that is pending on the same pdev.
-/

namespace KernelModules.WlanSer

variable {m : ℕ}

def Removal.isRemoved : Removal → Bool
  | .removed _ => true
  | _ => false

namespace Scan

variable {maxActiveScans others : ℕ} {elsewhere : Prop} {s t : Scan m}

/-- How many scans are active, and that no scan waits, here or elsewhere, while fewer are active
than allowed. -/
structure Busy (maxActiveScans others : ℕ) (elsewhere : Prop) (s : Scan m) : Prop where
  le : others + (s.pdevQ.list true).length ≤ maxActiveScans
  eq_of_waiting : elsewhere ∨ s.pdevQ.list false ≠ [] →
    others + (s.pdevQ.list true).length = maxActiveScans

theorem Busy.of_lists (hs : s.Busy maxActiveScans others elsewhere)
    (hactive : (t.pdevQ.list true).length = (s.pdevQ.list true).length)
    (hpending : t.pdevQ.list false ≠ [] → s.pdevQ.list false ≠ []) :
    t.Busy maxActiveScans others elsewhere := by
  constructor
  · rw [hactive]
    exact hs.le
  · rw [hactive]
    exact fun hw => hs.eq_of_waiting (hw.imp id hpending)

theorem stable_limit (maxActiveScans others : ℕ) :
    Stable maxActiveScans others
      (fun s : Scan m => others + (s.pdevQ.list true).length ≤ maxActiveScans) where
  setInUse _ _ _ hs := hs
  setActivations _ _ hs := hs
  dropCmd s n a _ hs _ := by
    rw [dropCmd_list]
    split
    next ha =>
      have hle := List.length_erase_le (a := n) (l := s.pdevQ.list a)
      rw [← ha] at hle ⊢
      omega
    next => exact hs
  promote s n _ _ _ hroom := by
    rw [activate_list, if_pos rfl, length_place, unlink_list,
      if_neg (Ne.symm Bool.false_ne_true)]
    omega

theorem activeQueue_iff :
    s.activeQueue maxActiveScans others = true ↔
      others + (s.pdevQ.list true).length < maxActiveScans ∧ s.pdevQ.list false = [] := by
  rw [activeQueue, Bool.and_eq_true, PdevQueue.isActiveScanCmdAllowed, decide_eq_true_eq,
    List.isEmpty_iff]
  rfl

theorem enqueueCmd_le (hs : others + (s.pdevQ.list true).length ≤ maxActiveScans) (cmd : Cmd m) :
    others + ((s.enqueueCmd maxActiveScans others cmd).2.pdevQ.list true).length ≤
      maxActiveScans := by
  have hspec := enqueueCmd_spec maxActiveScans others s cmd
  generalize s.enqueueCmd maxActiveScans others cmd = r at hspec ⊢
  cases hspec with
  | duplicate => exact hs
  | poolEmpty => exact hs
  | listFull => exact hs
  | @active n pool _ hact =>
    have hroom := (activeQueue_iff.mp hact).1
    have hlist : (s.fill n pool cmd).pdevQ.list true = s.pdevQ.list true := rfl
    rw [activate_list, if_pos rfl, length_place, hlist]
    omega
  | pending => exact hs

theorem Busy.enqueueCmd (hs : s.Busy maxActiveScans others elsewhere) (cmd : Cmd m) :
    (s.enqueueCmd maxActiveScans others cmd).2.Busy maxActiveScans others elsewhere := by
  refine ⟨enqueueCmd_le hs.le cmd, ?_⟩
  have hspec := enqueueCmd_spec maxActiveScans others s cmd
  generalize s.enqueueCmd maxActiveScans others cmd = r at hspec ⊢
  cases hspec with
  | duplicate => exact hs.eq_of_waiting
  | poolEmpty => exact hs.eq_of_waiting
  | listFull => exact hs.eq_of_waiting
  | active _ hact =>
    -- Nothing is pending while another scan may be active.
    obtain ⟨hroom, -⟩ := activeQueue_iff.mp hact
    intro hw
    have heq := hs.eq_of_waiting hw
    omega
  | pending _ hpend =>
    intro _
    change others + (s.pdevQ.list true).length = maxActiveScans
    have hle := hs.le
    by_cases hnil : s.pdevQ.list false = []
    · have hno : ¬others + (s.pdevQ.list true).length < maxActiveScans := by
        intro hroom
        rw [activeQueue_iff.mpr ⟨hroom, hnil⟩] at hpend
        cases hpend
      omega
    · exact hs.eq_of_waiting (.inr hnil)

/-- When the command is there to be removed, and a scan is pending elsewhere, then one is pending
here as well. -/
def Refills (elsewhere : Prop) (s : Scan m) (cmd : Cmd m) : Prop :=
  (removeCmdFromQueue s.pdevQ.cmds (s.pdevQ.list true) cmd).isRemoved = true → elsewhere →
    s.pdevQ.list false ≠ []

instance [Decidable elsewhere] (cmd : Cmd m) : Decidable (s.Refills elsewhere cmd) :=
  inferInstanceAs (Decidable (_ → _ → _))

theorem Busy.dequeueCmd (hs : s.Busy maxActiveScans others elsewhere) (h : s.WellFormed)
    {cmd : Cmd m} (hc : s.Refills elsewhere cmd) :
    (s.dequeueCmd maxActiveScans others cmd).2.Busy maxActiveScans others elsewhere := by
  rw [Scan.dequeueCmd, PdevQueue.removeCmd]
  rw [Refills] at hc
  cases hr : removeCmdFromQueue s.pdevQ.cmds (s.pdevQ.list true) cmd with
  | notFound => exact hs
  | marked n => exact hs.of_lists (t := s.setInUse n _) rfl id
  | removed n =>
    rw [hr] at hc
    have hrefills : elsewhere → s.pdevQ.list false ≠ [] := hc rfl
    obtain ⟨hfind, hmark⟩ := NonScan.removeCmdFromQueue_removed hr
    have hn := findCmd_mem hfind
    have hpos := List.length_pos_of_mem hn
    have hwf := h.dropCmd hn (fun _ => hmark)
    have hlength : ((s.dropCmd true n).pdevQ.list true).length =
        (s.pdevQ.list true).length - 1 := by
      rw [dropCmd_list, if_pos rfl, List.length_erase_of_mem hn]
    have hroom : ((s.dropCmd true n).pdevQ.list true).length < maxActiveScanCmds := by
      have := h.active_le
      omega
    have hle := hs.le
    change ((s.dropCmd true n).moveScanPendingToActive maxActiveScans others).Busy _ _ _
    rw [moveScanPendingToActive_eq hwf _ _ hroom]
    cases hpend : s.pdevQ.list false with
    | nil =>
      have hnil : (s.dropCmd true n).pdevQ.pendingList = [] := hpend
      rw [hnil]
      refine ⟨?_, ?_⟩
      · rw [hlength]
        omega
      · rintro (he | hne)
        · exact absurd hpend (hrefills he)
        · exact absurd hpend hne
    | cons k rest =>
      have hcons : (s.dropCmd true n).pdevQ.pendingList = k :: rest := hpend
      have heq := hs.eq_of_waiting (.inr (by rw [hpend]; exact List.cons_ne_nil k rest))
      have hmoved : others + ((((s.dropCmd true n).unlink k false).activate k).pdevQ.list
          true).length = maxActiveScans := by
        rw [activate_list, if_pos rfl, length_place, unlink_list,
          if_neg (Ne.symm Bool.false_ne_true), hlength]
        omega
      rw [hcons]
      dsimp only
      rw [if_pos (by rw [hlength]; omega)]
      exact ⟨hmoved.le, fun _ => hmoved⟩

/-- The cancels drop no active scan, or they leave none pending anywhere. -/
def CancelsRight (elsewhere : Prop) (s : Scan m) (calls : List (CancelArgs m × Bool))
    (stopTimer : ℕ → Bool) : Prop :=
  (∀ x ∈ calls, x.2 = true → s.sparedBy x.1 stopTimer = true) ∨
    ¬elsewhere ∧ (s.pdevQ.list false = [] ∨
      ∃ x ∈ calls, x.2 = false ∧ ∀ n ∈ s.pdevQ.list false, x.1.isMatch (s.pdevQ.cmds n) = true)

instance [Decidable elsewhere] (calls : List (CancelArgs m × Bool)) (stopTimer : ℕ → Bool) :
    Decidable (s.CancelsRight elsewhere calls stopTimer) :=
  inferInstanceAs (Decidable (_ ∨ _))

theorem cancelAll_le (h : s.WellFormed)
    (hs : others + (s.pdevQ.list true).length ≤ maxActiveScans) (stopTimer : ℕ → Bool)
    (calls : List (CancelArgs m × Bool)) :
    others + ((s.cancelAll stopTimer calls).pdevQ.list true).length ≤ maxActiveScans := by
  induction calls generalizing s with
  | nil => exact hs
  | cons x calls ih =>
    obtain ⟨hwf, hle⟩ := (stable_limit maxActiveScans others).cancelScanCmd h hs x.1 x.2 stopTimer
    exact ih hwf hle

variable {stopTimer : ℕ → Bool} {i : ℕ}

theorem Busy.cancelAll (hs : s.Busy maxActiveScans others elsewhere) (h : s.WellFormed)
    {calls : List (CancelArgs m × Bool)}
    (hc : s.CancelsRight elsewhere calls stopTimer) :
    (s.cancelAll stopTimer calls).Busy maxActiveScans others elsewhere := by
  have hshrinks := (Shrinks.refl s).cancelAll h stopTimer calls
  rcases hc with hspare | ⟨hno, hnil⟩
  · have hspares := (Spares.refl s).cancelAll h hspare
    apply hs.of_lists
    · rw [hspares.active]
    · intro hne hempty
      have hsub := hshrinks.sub
      rw [hempty] at hsub
      exact hne (List.subset_nil.mp hsub)
  · have hgone : (s.cancelAll stopTimer calls).pdevQ.list false = [] := by
      rcases hnil with hempty | hall
      · have hsub := hshrinks.sub
        rw [hempty] at hsub
        exact List.subset_nil.mp hsub
      · exact cancelAll_pending_nil (Shrinks.refl s) h stopTimer hall
    refine ⟨cancelAll_le h hs.le stopTimer calls, ?_⟩
    rintro (he | hne)
    · exact absurd he hno
    · exact absurd hgone hne

theorem Busy.cancelOwnCmd (hs : s.Busy maxActiveScans others elsewhere) (h : s.WellFormed) {n : ℕ}
    (hn : n ∈ s.pdevQ.list true)
    (hc : s.CancelsRight elsewhere [(activationCancel (s.pdevQ.cmd n), true)] stopTimer) :
    (s.cancelOwnCmd n stopTimer).2.Busy maxActiveScans others elsewhere := by
  have hpending := cancelOwnCmd_pending s n stopTimer
  rcases hc with hspare | ⟨hno, hnil⟩
  · have hspares := Spares.cancelOwnCmd h hn (hspare _ List.mem_cons_self rfl)
    exact hs.of_lists (by rw [hspares.active]) fun hne => hpending ▸ hne
  · have hempty : s.pdevQ.list false = [] := by
      rcases hnil with hempty | ⟨x, hx, hpend, -⟩
      · exact hempty
      · obtain rfl := List.mem_singleton.mp hx
        cases hpend
    refine ⟨((stable_limit maxActiveScans others).cancelLoop h hs.le _ true stopTimer _ _).2, ?_⟩
    rw [hpending, hempty]
    rintro (he | hne)
    · exact absurd he hno
    · exact absurd rfl hne

/-- The state in which `activateCmd` goes on after the callback. -/
def returned (s : Scan m) (i n : ℕ) : Scan m :=
  ({ s with activations := s.activations.eraseIdx i } : Scan m).setInUse n
    (s.pdevQ.cmds n).cmdInUse.activated

def ReturnsRight (elsewhere : Prop) (s : Scan m) (i : ℕ) (ok : Bool) (stopTimer : ℕ → Bool) :
    Prop :=
  match s.activations[i]? with
  | none => True
  | some n =>
    if ok = false ∨ (s.pdevQ.cmds n).cmdInUse.activeMarkedForRemoval = true then
      (s.returned i n).Refills elsewhere (s.pdevQ.cmd n)
    else if (s.pdevQ.cmds n).cmdInUse.activeMarkedForCancel then
      (s.returned i n).CancelsRight elsewhere [(activationCancel (s.pdevQ.cmd n), true)] stopTimer
    else True

instance [Decidable elsewhere] (i : ℕ) (ok : Bool) (stopTimer : ℕ → Bool) :
    Decidable (s.ReturnsRight elsewhere i ok stopTimer) := by
  unfold ReturnsRight
  split <;> infer_instance

theorem WellFormed.returned (h : s.WellFormed) {n : ℕ} (hi : s.activations[i]? = some n) :
    (s.returned i n).WellFormed := by
  have hmem := List.mem_of_getElem? hi
  have hwf : ({ s with activations := s.activations.eraseIdx i } : Scan m).WellFormed :=
    ⟨h.kept, h.active_le, fun k hk => h.activating_marked k (List.mem_of_mem_eraseIdx hk),
      h.activating_nodup.eraseIdx i⟩
  exact hwf.setInUse (h.activating_marked n hmem).1
    (fun hc => absurd hc (notMem_eraseIdx h.activating_nodup hi))

theorem Busy.activated (hs : s.Busy maxActiveScans others elsewhere) (h : s.WellFormed)
    {ok : Bool} (hc : s.ReturnsRight elsewhere i ok stopTimer) :
    (s.activated maxActiveScans others i ok stopTimer).Busy maxActiveScans others elsewhere := by
  rw [Scan.activated]
  rw [ReturnsRight] at hc
  cases hi : s.activations[i]? with
  | none => exact hs
  | some n =>
    rw [hi] at hc
    dsimp only at hc ⊢
    have hwf := h.returned hi
    have hback : (s.returned i n).Busy maxActiveScans others elsewhere :=
      hs.of_lists rfl id
    rw [activateCmd]
    split
    next hok =>
      rw [if_pos (.inl hok)] at hc
      exact hback.dequeueCmd hwf hc
    next hok =>
      split
      next hremove =>
        rw [if_pos (.inr hremove)] at hc
        exact hback.dequeueCmd hwf hc
      next hremove =>
        rw [if_neg (not_or.mpr ⟨hok, hremove⟩)] at hc
        split
        next hcancel =>
          have hcancel' : (s.pdevQ.cmds n).cmdInUse.activeMarkedForCancel = true := hcancel
          rw [if_pos hcancel'] at hc
          have hcmd : (s.returned i n).pdevQ.cmd n = s.pdevQ.cmd n := PdevQueue.cmd_setInUse ..
          rw [← hcmd] at hc
          exact hback.cancelOwnCmd hwf (h.activating_marked n (List.mem_of_getElem? hi)).1 hc
        next => exact hback

end Scan

/-- The cancels a call consists of. -/
def Input.cancels : Input m → List (CancelArgs m × Bool)
  | .cancelRequest info reqType activeQueue pendingQueue _ =>
    if info.vdev = none then []
    else (if activeQueue then [(reqType.args info, true)] else []) ++
      if pendingQueue then [(reqType.args info, false)] else []
  | .purgeAllPdevCmd _ =>
    [(⟨true, none, none, .scan, false⟩, false), (⟨true, none, none, .scan, false⟩, true),
      (⟨true, none, none, .nonscan, false⟩, false), (⟨true, none, none, .nonscan, false⟩, true)]
  | .purgeAllPendingCmdByVdevId v =>
    [(⟨true, some v, none, .scan, false⟩, false), (⟨true, some v, none, .nonscan, false⟩, false)]
  | .purgeAllScanCmdByVdevId v _ =>
    [(⟨true, some v, none, .scan, false⟩, false), (⟨true, some v, none, .scan, false⟩, true)]
  | _ => []

def Input.stopTimer : Input m → ℕ → Bool
  | .cancelRequest _ _ _ _ stopTimer => stopTimer
  | .purgeAllPdevCmd stopTimer => stopTimer
  | .purgeAllScanCmdByVdevId _ stopTimer => stopTimer
  | _ => fun _ => true

namespace SerPdev

variable {c : SerConfig m} {maxActiveScans others : ℕ} {elsewhere : Prop} {s : SerPdev m}

theorem purge_scan (s : SerPdev m) (stopTimer : ℕ → Bool) (calls : List (CancelArgs m × Bool)) :
    (s.purge stopTimer calls).scan =
      s.scan.cancelAll stopTimer (calls.filter fun x => x.1.cmdType.isScan) := by
  induction calls generalizing s with
  | nil => rfl
  | cons x calls ih =>
    change ((s.cancelCmd x.1 x.2 stopTimer).2.purge stopTimer calls).scan = _
    rw [ih, List.filter_cons, SerPdev.cancelCmd]
    cases x.1.cmdType.isScan with
    | true => rfl
    | false => rfl

theorem cancelRequest_eq (s : SerPdev m) (info : QueuedCmdInfo m) (reqType : CancelType)
    (activeQueue pendingQueue : Bool) (stopTimer : ℕ → Bool) :
    (s.cancelRequest info reqType activeQueue pendingQueue stopTimer).2 =
      s.purge stopTimer
        (Input.cancels (.cancelRequest info reqType activeQueue pendingQueue stopTimer)) := by
  rw [SerPdev.cancelRequest, Input.cancels]
  split
  · rfl
  · cases activeQueue <;> cases pendingQueue <;> rfl

/-- What a call finds when no scan waits after it while fewer are active than allowed. -/
def SlotsRefilled (elsewhere : Prop) (s : SerPdev m) : Input m → Prop
  | .request _ _ => True
  | .removeCmd info =>
    info.vdev ≠ none → info.cmdType.isScan = true → s.scan.Refills elsewhere info.cmd
  | .timerCb cmd => cmd.vdev ≠ none → cmd.cmdType.isScan = true → s.scan.Refills elsewhere cmd
  | .nonScanActivated _ _ _ => True
  | .scanActivated i ok stopTimer => s.scan.ReturnsRight elsewhere i ok stopTimer
  | .vdevQueueDisable _ => True
  | i =>
    s.scan.CancelsRight elsewhere (i.cancels.filter fun x => x.1.cmdType.isScan) i.stopTimer

instance [Decidable elsewhere] (i : Input m) : Decidable (s.SlotsRefilled elsewhere i) := by
  rcases i with _ | _ | _ | _ | _ | _ | _ | _ | _ | _ <;> unfold SlotsRefilled <;> infer_instance

theorem dequeueCmd_busy (hs : s.scan.Busy maxActiveScans others elsewhere) (h : s.scan.WellFormed)
    {cmd : Cmd m}
    (hc : cmd.vdev ≠ none → cmd.cmdType.isScan = true → s.scan.Refills elsewhere cmd) :
    (s.dequeueCmd c maxActiveScans others cmd).2.scan.Busy maxActiveScans others elsewhere := by
  rw [SerPdev.dequeueCmd]
  split
  · exact hs
  next hv =>
    split
    next htype => exact hs.dequeueCmd h (hc hv htype)
    next => exact hs

theorem purge_busy (hs : s.scan.Busy maxActiveScans others elsewhere) (h : s.scan.WellFormed)
    {stopTimer : ℕ → Bool} {calls : List (CancelArgs m × Bool)}
    (hc : s.scan.CancelsRight elsewhere (calls.filter fun x => x.1.cmdType.isScan) stopTimer) :
    (s.purge stopTimer calls).scan.Busy maxActiveScans others elsewhere := by
  rw [purge_scan]
  exact hs.cancelAll h hc

theorem step_busy (hs : s.scan.Busy maxActiveScans others elsewhere) (h : s.scan.WellFormed)
    {i : Input m} (hc : s.SlotsRefilled elsewhere i) :
    (s.step c maxActiveScans others i).1.scan.Busy maxActiveScans others elsewhere := by
  cases i with
  | request cmd rulesPass =>
    change (s.request c maxActiveScans others cmd rulesPass).2.scan.Busy _ _ _
    have hspec := s.request_spec c maxActiveScans others cmd rulesPass
    generalize s.request c maxActiveScans others cmd rulesPass = r at hspec ⊢
    cases hspec with
    | ignored => exact hs
    | scan => exact hs.enqueueCmd cmd
    | nonScan => exact hs
  | removeCmd info => exact dequeueCmd_busy hs h hc
  | timerCb cmd => exact dequeueCmd_busy hs h hc
  | cancelRequest info reqType activeQueue pendingQueue stopTimer =>
    change (s.cancelRequest info reqType activeQueue pendingQueue stopTimer).2.scan.Busy _ _ _
    rw [cancelRequest_eq]
    exact purge_busy hs h hc
  | nonScanActivated i ok stopTimer => exact hs
  | scanActivated i ok stopTimer => exact hs.activated h hc
  | vdevQueueDisable v => exact hs
  | purgeAllPdevCmd stopTimer => exact purge_busy hs h hc
  | purgeAllPendingCmdByVdevId v => exact purge_busy hs h hc
  | purgeAllScanCmdByVdevId v stopTimer => exact purge_busy hs h hc

end SerPdev

section Psoc

variable {Pdev : Type} [Fintype Pdev] [DecidableEq Pdev] {c : SerConfig m} {maxActiveScans : ℕ}

def othersActive (s : Pdev → SerPdev m) (p : Pdev) : ℕ :=
  ∑ q ∈ Finset.univ.erase p, (s q).scan.pdevQ.activeList.length

def WaitsElsewhere (s : Pdev → SerPdev m) (p : Pdev) : Prop :=
  ∃ q, q ≠ p ∧ (s q).scan.pdevQ.pendingList ≠ []

instance (s : Pdev → SerPdev m) (p : Pdev) : Decidable (WaitsElsewhere s p) :=
  inferInstanceAs (Decidable (∃ _, _))

def activeScans (s : Pdev → SerPdev m) : ℕ := ∑ p, (s p).scan.pdevQ.activeList.length

theorem othersActive_add (s : Pdev → SerPdev m) (p : Pdev) :
    othersActive s p + ((s p).scan.pdevQ.list true).length = activeScans s :=
  Finset.sum_erase_add Finset.univ (fun q => (s q).scan.pdevQ.activeList.length) (Finset.mem_univ p)

theorem busy_iff (s : Pdev → SerPdev m) (p : Pdev) :
    (s p).scan.Busy maxActiveScans (othersActive s p) (WaitsElsewhere s p) ↔
      activeScans s ≤ maxActiveScans ∧
        ((∃ q, (s q).scan.pdevQ.pendingList ≠ []) → activeScans s = maxActiveScans) := by
  have hsome : WaitsElsewhere s p ∨ (s p).scan.pdevQ.list false ≠ [] ↔
      ∃ q, (s q).scan.pdevQ.pendingList ≠ [] := by
    constructor
    · rintro (⟨q, -, hq⟩ | hp)
      · exact ⟨q, hq⟩
      · exact ⟨p, hp⟩
    · rintro ⟨q, hq⟩
      by_cases hqp : q = p
      · subst q
        exact .inr hq
      · exact .inl ⟨q, hqp, hq⟩
  constructor
  · intro hs
    refine ⟨?_, ?_⟩
    · rw [← othersActive_add s p]
      exact hs.le
    · intro hw
      rw [← othersActive_add s p]
      exact hs.eq_of_waiting (hsome.mpr hw)
  · rintro ⟨hle, heq⟩
    refine ⟨?_, ?_⟩
    · rw [othersActive_add]
      exact hle
    · intro hw
      rw [othersActive_add]
      exact heq (hsome.mp hw)

variable (c maxActiveScans) in
/-- A step changes only the pdev that is called. -/
theorem psoc_step_others (s : Pdev → SerPdev m) (i : Pdev × Input m) :
    othersActive ((psoc c maxActiveScans).step s i).1 i.1 = othersActive s i.1 ∧
      (WaitsElsewhere ((psoc c maxActiveScans).step s i).1 i.1 ↔ WaitsElsewhere s i.1) := by
  have hsame : ∀ q, q ≠ i.1 → ((psoc c maxActiveScans).step s i).1 q = s q :=
    fun q hq => Function.update_of_ne hq ..
  constructor
  · apply Finset.sum_congr rfl
    intro q hq
    rw [hsame q (Finset.ne_of_mem_erase hq)]
  · apply exists_congr
    intro q
    apply and_congr_right
    intro hq
    rw [hsame q hq]

theorem psoc_step_self (s : Pdev → SerPdev m) (i : Pdev × Input m) :
    ((psoc c maxActiveScans).step s i).1 i.1 =
      ((s i.1).step c maxActiveScans (othersActive s i.1) i.2).1 :=
  Function.update_self ..

theorem psoc_step_active_le {s : Pdev → SerPdev m} (hwf : ∀ p, (s p).WellFormed c)
    (hs : activeScans s ≤ maxActiveScans) (i : Pdev × Input m) :
    activeScans ((psoc c maxActiveScans).step s i).1 ≤ maxActiveScans := by
  rw [← othersActive_add _ i.1] at hs
  rw [← othersActive_add _ i.1, (psoc_step_others c maxActiveScans s i).1, psoc_step_self]
  have hkeeps : (s i.1).Keeps c (fun _ => True)
      (fun t => othersActive s i.1 + (t.pdevQ.list true).length ≤ maxActiveScans) :=
    ⟨hwf i.1, trivial, hs⟩
  exact (hkeeps.step (NonScan.stable_true c) (Scan.stable_limit maxActiveScans _) i.2
    (fun _ _ _ _ _ => trivial) (fun cmd _ _ _ _ => Scan.enqueueCmd_le hs cmd)).scan

theorem psoc_step_wellFormed {s : Pdev → SerPdev m} (hwf : ∀ p, (s p).WellFormed c)
    (i : Pdev × Input m) (p : Pdev) : (((psoc c maxActiveScans).step s i).1 p).WellFormed c :=
  (psoc_step_keeps (NonScan.stable_true c) maxActiveScans i (fun q => ⟨hwf q, trivial, trivial⟩)
    (fun _ _ _ _ _ => trivial) p).wf

/-- No more scans are active than allowed, and as long as every slot that is freed is filled again
where a scan waits for it, none waits while fewer are active. -/
theorem activeScans_full (c : SerConfig m) (maxActiveScans : ℕ) (inputs : List (Pdev × Input m)) :
    let s := ((psoc c maxActiveScans).run (fun _ => SerPdev.init c) inputs).1
    activeScans s ≤ maxActiveScans ∧
      ((psoc c maxActiveScans).Meets
          (fun s i => (s i.1).SlotsRefilled (WaitsElsewhere s i.1) i.2)
          (fun _ => SerPdev.init c) inputs →
        (∃ p, (s p).scan.pdevQ.pendingList ≠ []) → activeScans s = maxActiveScans) := by
  intro s
  have hzero : activeScans (fun _ : Pdev => SerPdev.init c) = 0 := Finset.sum_eq_zero (fun _ _ => rfl)
  have hle : (∀ p, (s p).WellFormed c) ∧ activeScans s ≤ maxActiveScans := by
    apply Machine.invariant _ (I := fun s : Pdev → SerPdev m =>
      (∀ p, (s p).WellFormed c) ∧ activeScans s ≤ maxActiveScans)
    · intro t i ht
      exact ⟨psoc_step_wellFormed ht.1 i, psoc_step_active_le ht.1 ht.2 i⟩
    · exact ⟨fun _ => SerPdev.init_wellFormed c, by rw [hzero]; exact Nat.zero_le _⟩
  refine ⟨hle.2, fun hm => ?_⟩
  have hbusy : (∀ p, (s p).WellFormed c) ∧ activeScans s ≤ maxActiveScans ∧
      ((∃ p, (s p).scan.pdevQ.pendingList ≠ []) → activeScans s = maxActiveScans) := by
    refine Machine.invariant_of_meets _ (I := fun s : Pdev → SerPdev m =>
      (∀ p, (s p).WellFormed c) ∧ activeScans s ≤ maxActiveScans ∧
        ((∃ p, (s p).scan.pdevQ.pendingList ≠ []) → activeScans s = maxActiveScans)) ?_ ?_ hm
    · intro t i ht hc
      refine ⟨psoc_step_wellFormed ht.1 i, ?_⟩
      obtain ⟨hothers, helse⟩ := psoc_step_others c maxActiveScans t i
      rw [← busy_iff _ i.1, hothers, propext helse, psoc_step_self]
      exact SerPdev.step_busy ((busy_iff t i.1).mpr ht.2) (ht.1 i.1).scan hc
    · refine ⟨fun _ => SerPdev.init_wellFormed c, by rw [hzero]; exact Nat.zero_le _, ?_⟩
      rintro ⟨p, hp⟩
      exact absurd rfl hp
  exact hbusy.2.2

end Psoc

theorem activeScans_full_removed :
    let scan : UInt32 → Input 6 := fun i =>
      .request { cmdType := .scan, cmdId := i, cmdCb := true, vdev := some 0 } true
    let inputs : List (Fin 2 × Input 6) :=
      [(0, scan 1), (0, .scanActivated 0 true (fun _ => true)), (0, scan 2), (0, scan 3),
        (0, .removeCmd ⟨.scan, 1, some 0⟩)]
    activeScans ((psoc defaultConfig 1).run (fun _ => SerPdev.init defaultConfig) inputs).1 = 1 :=
  (activeScans_full defaultConfig 1 _).2 (by decide +kernel) ⟨0, by decide +kernel⟩

/-- A scan that is cancelled frees a slot for nothing. -/
theorem not_activeScans_full :
    ¬∀ inputs : List (Unit × Input 6),
      let s := ((psoc defaultConfig 1).run (fun _ => SerPdev.init defaultConfig) inputs).1
      (∃ p, (s p).scan.pdevQ.pendingList ≠ []) → activeScans s = 1 := by
  intro h
  have hrun := h
    [((), .request { cmdType := .scan, cmdId := 1, cmdCb := true, vdev := some 0 } true),
      ((), .scanActivated 0 true (fun _ => true)),
      ((), .request { cmdType := .scan, cmdId := 2, cmdCb := true, vdev := some 0 } true),
      ((), .cancelRequest ⟨.scan, 1, some 0⟩ .singleScan true false (fun _ => true))]
  revert hrun
  decide +kernel

end KernelModules.WlanSer
