import KernelModules.IspMoves

/-!
# Requests that handlers take from empty lists

Some handlers take the first or the last entry of a list without looking whether there is one, and
compare the pointer with null afterwards, which it never is.
-/

namespace KernelModules.Isp

variable {c : Ctx}

def Found (c : Ctx) (obj : Option ℕ) : Prop :=
  ∃ req, (req ∈ c.q.free ∨ req ∈ c.q.pending ∨ req ∈ c.q.wait ∨ req ∈ c.q.active) ∧
    obj = some req.obj

def AllFound (c : Ctx) (reads : Reads) : Prop := ∀ obj ∈ reads, Found c obj

/-- The lists on which the handler of an event relies are not empty: at the start of a frame there
is an active request that has not been reported, or one that waits; in the epoch substate an active
one; at an epoch for which a request should have been applied, one of either. FS2, where it reports
with the reg update, needs one that has not been reported. A buf done does not run out of requests.
-/
def FoundedAt (k : Kind) (sub : Substate) (c : Ctx) : Event → Prop
  | .sof =>
    match k, sub with
    | .rdi, _ => True
    | .fs2, .sof => True
    | _, .halt => True
    | _, .epoch => c.q.active ≠ []
    | _, _ => (unreported c).isSome ∨ c.q.wait ≠ []
  | .epoch =>
    match k, sub with
    | .rdi, _ => True
    | _, .applied => c.q.wait ≠ [] ∨ c.q.active ≠ []
    | _, .bubbleApplied => c.q.wait ≠ [] ∨ c.q.active ≠ []
    | _, _ => True
  | .regUpdate =>
    match k, sub with
    | .fs2, .applied => ∀ req ∈ c.q.wait.head?, req.fenceMapOut.length = 1 →
        c.q.activeReqCnt ≤ 1 → ∃ r ∈ c.q.active ++ [req], c.reportedReqId < r.requestId
    | _, _ => True
  | .done handles =>
    match k, sub with
    | .fs2, .applied => c.q.active ≠ [] ∧ ¬ RunsOut c handles
    | .fs2, .epoch => c.q.active ≠ [] ∧ ¬ RunsOut c handles
    | _, .sof => True
    | _, .hwError => True
    | _, .halt => True
    | _, _ => ¬ RunsOut c handles
  | .error => True
  | .eof => True

def Founded (c : Ctx) (e : Event) : Prop :=
  c.state = .activated → FoundedAt c.kind c.substate c e

theorem allFound_nil : AllFound c [] ↔ True := by simp [AllFound]

theorem allFound_of_nil {reads : Reads} (h : reads = []) : AllFound c reads ↔ True := by
  rw [h]
  exact allFound_nil

theorem not_found_none : ¬ Found c none := by
  rintro ⟨req, -, h⟩
  exact nomatch h

theorem found_first_wait : Found c (firstEntry c.q.wait) ↔ c.q.wait ≠ [] := by
  cases hw : c.q.wait with
  | nil => exact iff_of_false not_found_none (by simp)
  | cons req wait => exact iff_of_true ⟨req, by simp [hw], rfl⟩ (by simp)

theorem found_first_active : Found c (firstEntry c.q.active) ↔ c.q.active ≠ [] := by
  cases ha : c.q.active with
  | nil => exact iff_of_false not_found_none (by simp)
  | cons req active => exact iff_of_true ⟨req, by simp [ha], rfl⟩ (by simp)

theorem found_last_active : Found c (lastEntry c.q.active) ↔ c.q.active ≠ [] := by
  cases hl : c.q.active.getLast? with
  | none =>
    have ha := List.getLast?_eq_none_iff.mp hl
    refine iff_of_false ?_ (by simp [ha])
    rw [lastEntry, hl]
    exact not_found_none
  | some req =>
    have hmem := List.mem_of_getLast? hl
    refine iff_of_true ⟨req, .inr (.inr (.inr hmem)), by rw [lastEntry, hl]; rfl⟩ ?_
    exact List.ne_nil_of_mem hmem

theorem sofInActivatedState_found :
    AllFound c (sofInActivatedState c).2 ↔ (unreported c).isSome ∨ c.q.wait ≠ [] := by
  unfold sofInActivatedState
  by_cases h : (unreported c).isSome = true
  · rw [if_pos h]
    exact iff_of_true (allFound_nil.mpr trivial) (.inl h)
  · rw [if_neg h]
    simp [AllFound, found_first_wait, h]

theorem sofInEpoch_found : AllFound c (sofInEpoch c).2 ↔ c.q.active ≠ [] := by
  simp [AllFound, sofInEpoch, found_last_active]

theorem found_last_reportBubble {req : Req} {wait : List Req} (hw : c.q.wait = req :: wait)
    (linked notes : Bool) : Found c (lastEntry (c.q.reportBubble linked notes).active) := by
  refine ⟨req, .inr (.inr (.inl (by simp [hw]))), ?_⟩
  simp [Queues.reportBubble, hw, lastEntry, Req.bubble]

theorem epochInApplied_found :
    AllFound c (epochInApplied c).2 ↔ c.q.wait ≠ [] ∨ c.q.active ≠ [] := by
  unfold epochInApplied
  cases hw : c.q.wait with
  | nil => simp [AllFound, found_last_active]
  | cons req wait =>
    refine iff_of_true ?_ (.inl (by simp))
    dsimp only
    split
    · exact allFound_nil.mpr trivial
    · intro obj hobj
      rw [List.mem_singleton.mp hobj]
      exact found_last_reportBubble hw ..

theorem epochInBubbleApplied_found :
    AllFound c (epochInBubbleApplied c).2 ↔ c.q.wait ≠ [] ∨ c.q.active ≠ [] := by
  unfold epochInBubbleApplied
  cases hw : c.q.wait with
  | nil => simp [AllFound, found_last_active]
  | cons req wait =>
    refine iff_of_true ?_ (.inl (by simp))
    intro obj hobj
    rw [List.mem_singleton.mp hobj]
    exact found_last_reportBubble hw ..

theorem notifySof_reads (c : Ctx) : (notifySofInActivatedState c).2 = [] := by
  unfold notifySofInActivatedState
  split
  · split
    · rfl
    split
    · rfl
    split
    · rfl
    · rfl
  · rfl

theorem regUpdInSof_reads (c : Ctx) : (regUpdInSof c).2 = [] := by
  unfold regUpdInSof
  split <;> rfl

theorem regUpdInAppliedState_reads (c : Ctx) : (regUpdInAppliedState c).2 = [] := by
  unfold regUpdInAppliedState
  split <;> rfl

theorem fs2SofInSofState_reads (c : Ctx) : (fs2SofInSofState c).2 = [] := by
  unfold fs2SofInSofState
  dsimp only
  split
  · split <;> rfl
  · rfl

theorem rdiOnlySofInBubbleApplied_reads (c : Ctx) : (rdiOnlySofInBubbleApplied c).2 = [] := by
  unfold rdiOnlySofInBubbleApplied
  dsimp only
  split <;> rfl

theorem rdiOnlyRegUpdInBubbleAppliedState_reads (hl : c.linked = true) :
    (rdiOnlyRegUpdInBubbleAppliedState c).2 = [] := by
  unfold rdiOnlyRegUpdInBubbleAppliedState
  rw [if_neg (by simp [hl])]
  split <;> rfl

theorem fs2RegUpdInAppliedState_found (hl : c.linked = true) :
    AllFound c (fs2RegUpdInAppliedState c).2 ↔ ∀ req ∈ c.q.wait.head?,
      req.fenceMapOut.length = 1 → c.q.activeReqCnt ≤ 1 →
        ∃ r ∈ c.q.active ++ [req], c.reportedReqId < r.requestId := by
  unfold fs2RegUpdInAppliedState
  cases hw : c.q.wait with
  | nil => simp [AllFound]
  | cons req wait =>
    dsimp only
    have hhead : (∀ r ∈ (req :: wait).head?, r.fenceMapOut.length = 1 → c.q.activeReqCnt ≤ 1 →
        ∃ s ∈ c.q.active ++ [r], c.reportedReqId < s.requestId) ↔
        (req.fenceMapOut.length = 1 → c.q.activeReqCnt ≤ 1 →
          ∃ s ∈ c.q.active ++ [req], c.reportedReqId < s.requestId) := by simp
    rw [hhead]
    by_cases hone : req.fenceMapOut.length = 1
    swap
    · rw [if_neg fun h => hone h.1]
      exact iff_of_true (allFound_nil.mpr trivial) fun h => absurd h hone
    have hq : c.q.regUpd = { c.q with
        wait, active := c.q.active ++ [req], activeReqCnt := c.q.activeReqCnt + 1 } := by
      unfold Queues.regUpd
      rw [hw]
      dsimp only
      rw [if_pos (by omega)]
    rw [hq]
    by_cases hcnt : c.q.activeReqCnt ≤ 1
    swap
    · rw [if_neg fun h => hcnt (by have hle := h.2.2; dsimp only at hle; omega)]
      exact iff_of_true (allFound_nil.mpr trivial) fun _ h => absurd h hcnt
    rw [if_pos ⟨hone, hl, by dsimp only; omega⟩]
    unfold unreported
    cases hfind : (c.q.active ++ [req]).find? (c.reportedReqId < ·.requestId) with
    | none =>
      have hall := List.find?_eq_none.mp hfind
      refine iff_of_false (fun h => not_found_none (h none (List.mem_singleton_self _))) ?_
      intro h
      obtain ⟨r, hmem, hlt⟩ := h hone hcnt
      exact hall r hmem (by simpa using hlt)
    | some r =>
      have hmem := List.mem_of_find?_eq_some hfind
      have hlt := List.find?_some hfind
      refine iff_of_true ?_ fun _ _ => ⟨r, hmem, by simpa using hlt⟩
      intro obj hobj
      rw [List.mem_singleton.mp hobj]
      rcases List.mem_append.mp hmem with hmem | hmem
      · exact ⟨r, .inr (.inr (.inr hmem)), rfl⟩
      · rw [List.mem_singleton.mp hmem]
        exact ⟨req, .inr (.inr (.inl (by simp [hw]))), rfl⟩

theorem bufDone_found (handles : List ℕ) :
    AllFound c (bufDoneInActivatedState c handles).2 ↔ ¬ RunsOut c handles := by
  unfold bufDoneInActivatedState
  cases ha : c.q.active with
  | nil =>
    refine iff_of_true (allFound_nil.mpr trivial) ?_
    rintro ⟨req, hreq, -⟩
    rw [ha] at hreq
    exact nomatch hreq
  | cons req active =>
    dsimp only
    by_cases hleft : (req.ackHandles handles).2 = []
    · rw [if_pos hleft]
      refine iff_of_true (allFound_nil.mpr trivial) ?_
      rintro ⟨r, hr, -, hne⟩
      rw [ha, List.cons.injEq] at hr
      rw [← hr.1] at hne
      exact hne hleft
    rw [if_neg hleft]
    cases hlast : (c.q.bufDoneForRequest [] active (req.ackHandles handles).1
        c.lastFlushReq).active.getLast? with
    | none =>
      have hempty := List.getLast?_eq_none_iff.mp hlast
      rw [bufDoneForRequest_active] at hempty
      refine iff_of_false (fun h => not_found_none (h none (List.mem_singleton_self _))) ?_
      rw [not_not]
      split at hempty
      · exact absurd hempty (by simp)
      · next hfin =>
        rw [List.nil_append] at hempty
        exact ⟨req, by rw [ha, hempty], hfin, hleft⟩
    | some next =>
      have hmem := List.mem_of_getLast? hlast
      rw [bufDoneForRequest_active, List.nil_append, List.nil_append] at hmem
      have hfound : Found c (some next.obj) := by
        split at hmem
        · rcases List.mem_cons.mp hmem with heq | hmem
          · refine ⟨req, .inr (.inr (.inr (by simp [ha]))), ?_⟩
            rw [heq, (ackHandles_same ..).1]
          · exact ⟨next, .inr (.inr (.inr (by simp [ha, hmem]))), rfl⟩
        · exact ⟨next, .inr (.inr (.inr (by simp [ha, hmem]))), rfl⟩
      refine iff_of_true ?_ ?_
      · intro obj hobj
        dsimp only at hobj
        split at hobj
        · rwa [List.mem_singleton.mp hobj]
        · rwa [List.mem_singleton.mp hobj]
      · rintro ⟨r, hr, hfin, -⟩
        rw [ha, List.cons.injEq] at hr
        rw [← hr.1] at hfin
        rw [if_neg hfin, hr.2] at hmem
        exact nomatch hmem

theorem fs2BufDone_found (handles : List ℕ) :
    AllFound c (fs2BufDone c handles).2 ↔ c.q.active ≠ [] ∧ ¬ RunsOut c handles := by
  have hsplit : AllFound c (fs2BufDone c handles).2 ↔
      Found c (firstEntry c.q.active) ∧ AllFound c (bufDoneInActivatedState c handles).2 := by
    simp [AllFound, fs2BufDone]
  rw [hsplit, found_first_active, bufDone_found]

def readsAt (k : Kind) (sub : Substate) (c : Ctx) (e : Event) : Reads :=
  match irqOps k sub e with
  | some handler => (handler c).2
  | none => []

theorem readsAt_found (hl : c.linked = true) (k : Kind) (sub : Substate) (e : Event) :
    AllFound c (readsAt k sub c e) ↔ FoundedAt k sub c e := by
  cases k <;> cases sub <;> cases e
  all_goals first
    | exact allFound_nil
    | exact sofInActivatedState_found
    | exact sofInEpoch_found
    | exact epochInApplied_found
    | exact epochInBubbleApplied_found
    | exact bufDone_found _
    | exact fs2BufDone_found _
    | exact fs2RegUpdInAppliedState_found hl
    | exact allFound_of_nil (notifySof_reads c)
    | exact allFound_of_nil (regUpdInSof_reads c)
    | exact allFound_of_nil (regUpdInAppliedState_reads c)
    | exact allFound_of_nil (fs2SofInSofState_reads c)
    | exact allFound_of_nil (rdiOnlySofInBubbleApplied_reads c)
    | exact allFound_of_nil (rdiOnlyRegUpdInBubbleAppliedState_reads hl)

/-- In every state a context can reach, the handler of an event takes only requests that are on a
list, exactly if the lists it relies on are not empty. -/
theorem event_found_iff (is : List Input) (e : Event) :
    AllFound (machine.run initial is).1 (handleHwEvent (machine.run initial is).1 e).2 ↔
      Founded (machine.run initial is).1 e := by
  have hs : Settled (machine.run initial is).1 :=
    machine.invariant (fun c i h => h.step i) is settled_initial
  generalize (machine.run initial is).1 = c at hs ⊢
  unfold handleHwEvent Founded
  by_cases hst : c.state = .activated
  · have hl := hs.linked (by simp [hst, CtxState.rank])
    have h := readsAt_found hl c.kind c.substate e
    rw [if_pos hst, imp_iff_right hst, ← h, readsAt]
    cases irqOps c.kind c.substate e <;> rfl
  · rw [if_neg hst]
    exact iff_of_true (allFound_nil.mpr trivial) fun h => absurd h hst

def firstBufDone : List Input :=
  [.acquireDev (some .pix), .link,
    .config { requestId := 1, init := true, fences := [(3, 7)] } {}, .start 0, .event (.done [3])]

/-- The next frame looks at the last active request, and there is none. -/
theorem sof_without_request : ¬ ∀ (is : List Input) (e : Event),
    AllFound (machine.run initial is).1 (handleHwEvent (machine.run initial is).1 e).2 := by
  intro h
  exact not_found_none (h firstBufDone .sof none (by decide))

end KernelModules.Isp
