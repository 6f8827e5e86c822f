import KernelModules.WlanRuns

/-!
# What a cancel of scans does to the two lists

A cancel takes commands out of one list and puts nothing in. Two cases are needed: a cancel in the
pending list that every command of the list matches leaves nothing, and one in the active list
leaves it alone when the first command it could drop has no timer to stop.
-/

namespace KernelModules.WlanSer

variable {m : ℕ}

namespace Scan

variable {s t : Scan m}

variable {n k : ℕ} {stopTimer : ℕ → Bool} {calls : List (CancelArgs m × Bool)}

theorem cmd_dropCmd_of_ne (s : Scan m) (a : Bool) (h : k ≠ n) :
    (s.dropCmd a n).pdevQ.cmd k = s.pdevQ.cmd k := by
  rw [Scan.dropCmd, setPdev, PdevQueue.cmd_release_of_ne h, PdevQueue.cmd_setList]

theorem marked_dropCmd_of_ne (s : Scan m) (a : Bool) (h : k ≠ n) :
    (s.dropCmd a n).marked k = s.marked k := by
  rw [marked, Scan.dropCmd, setPdev, PdevQueue.cmds_release_of_ne h, PdevQueue.cmds_setList, marked]

theorem marked_markForCancel (s : Scan m) (n k : ℕ) : (s.markForCancel n).marked k = s.marked k := by
  by_cases hk : k = n
  · subst k
    rw [marked, markForCancel, setPdev, PdevQueue.cmds_setInUse_self, marked]
  · rw [marked, markForCancel, setPdev, PdevQueue.cmds_setInUse_of_ne _ hk, marked]

/-- Every scan pending afterwards was pending before. -/
structure Shrinks (s t : Scan m) : Prop where
  sub : t.pdevQ.list false ⊆ s.pdevQ.list false
  cmd : ∀ n ∈ t.pdevQ.list false, t.pdevQ.cmd n = s.pdevQ.cmd n

/-- The active scans are what they were before. -/
structure Spares (s t : Scan m) : Prop where
  active : t.pdevQ.list true = s.pdevQ.list true
  cmd : ∀ n ∈ s.pdevQ.list true, t.pdevQ.cmd n = s.pdevQ.cmd n
  marked : ∀ n ∈ s.pdevQ.list true, t.marked n = s.marked n

theorem WellFormed.markForCancel (h : s.WellFormed) (hn : n ∈ s.pdevQ.list true)
    (hmark : s.marked n = true) : (s.markForCancel n).WellFormed :=
  h.setInUse hn (fun _ => hmark)

theorem WellFormed.cancelScanCmd (h : s.WellFormed) (r : CancelArgs m) (a : Bool)
    (stopTimer : ℕ → Bool) : (s.cancelScanCmd r a stopTimer).2.WellFormed :=
  ((stable_true 0 0).cancelScanCmd h trivial r a stopTimer).1

theorem Shrinks.refl (s : Scan m) : s.Shrinks s := ⟨List.Subset.refl _, fun _ _ => rfl⟩

theorem Spares.refl (s : Scan m) : s.Spares s := ⟨rfl, fun _ _ => rfl, fun _ _ => rfl⟩

theorem Shrinks.cancelScanCmd (hs : s.Shrinks t) (h : t.WellFormed) (r : CancelArgs m) (a : Bool)
    (stopTimer : ℕ → Bool) : s.Shrinks (t.cancelScanCmd r a stopTimer).2 := by
  rw [Scan.cancelScanCmd]
  apply And.right (a := (cancelLoop _ _ none none _ t).2.WellFormed)
  apply cancelLoop_invariant (P := fun t => t.WellFormed ∧ s.Shrinks t)
  · rintro t n ⟨ht, hst⟩ hn ha hmark
    have ha' : a = true := ha
    subst a
    exact ⟨ht.markForCancel hn hmark, hst.sub,
      fun k hk => (PdevQueue.cmd_setInUse ..).trans (hst.cmd k hk)⟩
  · rintro t n ⟨ht, hst⟩ hn - hmark
    have hn' : n ∈ t.pdevQ.list a := hn
    have hlist := t.dropCmd_list n a false
    have hmem : ∀ k ∈ (t.dropCmd a n).pdevQ.list false, k ∈ t.pdevQ.list false ∧ k ≠ n := by
      intro k hk
      rw [hlist] at hk
      split at hk
      next ha =>
        rw [← ha] at hk
        have hk' := (ht.kept.conserved.nodup false).mem_erase_iff.mp hk
        exact ⟨hk'.2, hk'.1⟩
      next ha =>
        refine ⟨hk, ?_⟩
        rintro rfl
        exact ht.kept.conserved.notMem_other hn' ha hk
    refine ⟨ht.dropCmd hn hmark, fun k hk => hst.sub (hmem k hk).1, ?_⟩
    intro k hk
    change (t.dropCmd a n).pdevQ.cmd k = _
    rw [cmd_dropCmd_of_ne t a (hmem k hk).2, hst.cmd k (hmem k hk).1]
  · exact ⟨h, hs⟩

theorem Spares.cancelScanCmd_pending (hs : s.Spares t) (h : t.WellFormed) (r : CancelArgs m)
    (stopTimer : ℕ → Bool) : s.Spares (t.cancelScanCmd r false stopTimer).2 := by
  rw [Scan.cancelScanCmd]
  apply And.right (a := (cancelLoop _ _ none none _ t).2.WellFormed)
  apply cancelLoop_invariant (P := fun t => t.WellFormed ∧ s.Spares t)
  · rintro t n - - hc
    cases hc
  · rintro t n ⟨ht, hst⟩ hn - hmark
    have hne : ∀ k ∈ s.pdevQ.list true, k ≠ n := by
      rintro k hk rfl
      rw [← hst.active] at hk
      exact ht.kept.conserved.notMem_other hk Bool.false_ne_true hn
    refine ⟨ht.dropCmd hn hmark, hst.active, fun k hk => ?_, fun k hk => ?_⟩
    · exact (cmd_dropCmd_of_ne t false (hne k hk)).trans (hst.cmd k hk)
    · exact (marked_dropCmd_of_ne t false (hne k hk)).trans (hst.marked k hk)
  · exact ⟨h, hs⟩

/-- The first scan that a cancel in the active list could drop, if there is one, has no timer to
stop. -/
def sparedBy (s : Scan m) (r : CancelArgs m) (stopTimer : ℕ → Bool) : Bool :=
  ((s.pdevQ.list true).find? fun n => r.isMatch (s.pdevQ.cmds n) && !s.marked n).all
    fun n => !stopTimer n

/-- The patterns may be read off the scans that are spared. -/
theorem Spares.cancelLoop_active (hs : s.Spares t) (h : t.WellFormed) {r : CancelArgs m}
    (hspare : s.sparedBy r stopTimer = true) {isMatch : Scan m → ℕ → Bool}
    (hmatch : ∀ u, s.Spares u → ∀ n ∈ s.pdevQ.list true,
      isMatch u n = r.isMatch (s.pdevQ.cmds n)) (turns : ℕ) :
    s.Spares (cancelLoop { cancelOps r true stopTimer with isMatch := isMatch } turns none none
      .notFound t).2 := by
  refine cancelLoop_spared (o := { cancelOps r true stopTimer with isMatch := isMatch })
    (P := s.Spares) (p := fun n => r.isMatch (s.pdevQ.cmds n)) (q := s.marked) rfl ?_
    (fun u hu => hu.active) (fun u n hu hn => hmatch u hu n hn) (fun u n hu hn => hu.marked n hn)
    (fun u n hu => ?_) turns [] _ rfl hspare none _ hs
  · rw [← hs.active]
    exact h.kept.conserved.nodup true
  · exact ⟨hu.active, fun k hk => (PdevQueue.cmd_setInUse ..).trans (hu.cmd k hk),
      fun k hk => (marked_markForCancel u n k).trans (hu.marked k hk)⟩

theorem Spares.cancelScanCmd_active (hs : s.Spares t) (h : t.WellFormed) {r : CancelArgs m}
    (hspare : s.sparedBy r stopTimer = true) :
    s.Spares (t.cancelScanCmd r true stopTimer).2 :=
  hs.cancelLoop_active h hspare (fun _ hu n hn => r.isMatch_congr (hu.cmd n hn)) _

theorem Spares.cancelOwnCmd (h : s.WellFormed) (hn : n ∈ s.pdevQ.list true)
    (hspare : s.sparedBy (activationCancel (s.pdevQ.cmd n)) stopTimer = true) :
    s.Spares (s.cancelOwnCmd n stopTimer).2 := by
  refine (Spares.refl s).cancelLoop_active h hspare (fun u hu k hk => ?_) _
  rw [hu.cmd n hn]
  exact CancelArgs.isMatch_congr _ (hu.cmd k hk)

theorem cancelOwnCmd_pending (s : Scan m) (n : ℕ) (stopTimer : ℕ → Bool) :
    (s.cancelOwnCmd n stopTimer).2.pdevQ.list false = s.pdevQ.list false := by
  refine cancelLoop_invariant (P := fun t : Scan m => t.pdevQ.list false = s.pdevQ.list false)
    (fun t k ht _ _ _ => ht) (fun t k ht _ _ _ => ?_) _ _ _ _ rfl
  exact (t.dropCmd_list k true false).trans ht

theorem cancelScanCmd_pending (h : s.WellFormed) (r : CancelArgs m) (stopTimer : ℕ → Bool) :
    (s.cancelScanCmd r false stopTimer).2.pdevQ.list false =
      (s.pdevQ.list false).filter fun n => !r.isMatch (s.pdevQ.cmds n) := by
  rw [Scan.cancelScanCmd]
  have hleft := cancelLoop_pending (o := cancelOps r false stopTimer)
    (P := fun queue (t : Scan m) => t.WellFormed ∧ t.pdevQ.list false = queue ∧
      ∀ n ∈ queue, t.pdevQ.cmd n = s.pdevQ.cmd n)
    (p := fun n => r.isMatch (s.pdevQ.cmds n)) rfl (fun queue t ht => ht.2.1)
    (fun queue t ht => by rw [← ht.2.1]; exact ht.1.kept.conserved.nodup false)
    (fun queue t n ht hn => r.isMatch_congr (ht.2.2 n hn)) ?_ [] _ .notFound
    (s := s) ⟨h, rfl, fun _ _ => rfl⟩
  · exact hleft.2.1
  · rintro queue t n ⟨ht, hlist, hcmd⟩ hn -
    have hnodup := ht.kept.conserved.nodup false
    rw [hlist] at hnodup
    rw [← hlist] at hn
    refine ⟨ht.dropCmd hn (fun hc => absurd hc Bool.false_ne_true), ?_, ?_⟩
    · change (t.dropCmd false n).pdevQ.list false = queue.erase n
      rw [dropCmd_list, if_pos rfl, hlist]
    · intro k hk
      have hk' := hnodup.mem_erase_iff.mp hk
      exact (cmd_dropCmd_of_ne t false hk'.1).trans (hcmd k hk'.2)

def cancelAll (s : Scan m) (stopTimer : ℕ → Bool) (calls : List (CancelArgs m × Bool)) : Scan m :=
  calls.foldl (fun s x => (s.cancelScanCmd x.1 x.2 stopTimer).2) s

theorem Shrinks.cancelAll (hs : s.Shrinks t) (h : t.WellFormed) (stopTimer : ℕ → Bool)
    (calls : List (CancelArgs m × Bool)) : s.Shrinks (t.cancelAll stopTimer calls) := by
  induction calls generalizing t with
  | nil => exact hs
  | cons x calls ih =>
    exact ih (hs.cancelScanCmd h x.1 x.2 stopTimer) (h.cancelScanCmd x.1 x.2 stopTimer)

theorem Spares.cancelAll (hs : s.Spares t) (h : t.WellFormed)
    (hspare : ∀ x ∈ calls, x.2 = true → s.sparedBy x.1 stopTimer = true) :
    s.Spares (t.cancelAll stopTimer calls) := by
  induction calls generalizing t with
  | nil => exact hs
  | cons x calls ih =>
    apply ih _ (h.cancelScanCmd x.1 x.2 stopTimer)
    · exact fun y hy => hspare y (List.mem_cons_of_mem _ hy)
    · cases hx : x.2 with
      | true => exact hs.cancelScanCmd_active h (hspare x List.mem_cons_self hx)
      | false => exact hs.cancelScanCmd_pending h x.1 stopTimer

theorem cancelAll_pending_nil (hs : s.Shrinks t) (h : t.WellFormed) (stopTimer : ℕ → Bool)
    (hall : ∃ x ∈ calls, x.2 = false ∧
      ∀ n ∈ s.pdevQ.list false, x.1.isMatch (s.pdevQ.cmds n) = true) :
    (t.cancelAll stopTimer calls).pdevQ.list false = [] := by
  induction calls generalizing t with
  | nil =>
    obtain ⟨x, hx, -⟩ := hall
    cases hx
  | cons y calls ih =>
    obtain ⟨x, hx, hpend, hmatch⟩ := hall
    have hwf := h.cancelScanCmd y.1 y.2 stopTimer
    rcases List.mem_cons.mp hx with rfl | hx
    · have hnil : (t.cancelScanCmd x.1 x.2 stopTimer).2.pdevQ.list false = [] := by
        rw [hpend, cancelScanCmd_pending h, List.filter_eq_nil_iff]
        intro n hn
        rw [x.1.isMatch_congr (hs.cmd n hn), hmatch n (hs.sub hn)]
        exact Bool.false_ne_true
      have hsub := ((Shrinks.refl _).cancelAll hwf stopTimer calls).sub
      rw [hnil] at hsub
      exact List.subset_nil.mp hsub
    · exact ih (hs.cancelScanCmd h y.1 y.2 stopTimer) hwf ⟨x, hx, hpend, hmatch⟩

end Scan

end KernelModules.WlanSer
