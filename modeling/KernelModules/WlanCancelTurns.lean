import KernelModules.WlanCancels

/-!
# How far the loop that cancels gets

The loop has one turn for each command of the queue. A command under activation is marked and the
place behind which the loop goes on is not moved, so that the next drop sends the loop back to it;
these turns are then missing at the end.
-/

namespace KernelModules.WlanSer

inductive CancelAct
  | mark (n : ℕ)
  | drop (n : ℕ)
  deriving DecidableEq

/-- What the loop does, `passed` being the commands under activation that it would go back to. -/
def cancelActs (single : Bool) (p q stop : ℕ → Bool) : ℕ → List ℕ → List ℕ → List CancelAct
  | 0, _, _ => []
  | _ + 1, _, [] => []
  | turns + 1, passed, n :: rest =>
    if p n = false then cancelActs single p q stop turns [] rest
    else if q n then .mark n :: cancelActs single p q stop turns (passed ++ [n]) rest
    else if stop n = false then []
    else if single then [.drop n]
    else .drop n :: cancelActs single p q stop turns [] (passed ++ rest)

def leftBy (acts : List CancelAct) (queue : List ℕ) : List ℕ :=
  queue.filter fun n => CancelAct.drop n ∉ acts

/-- The turns that are spent on commands under activation for a second time, `run` being the number
of those that the loop would go back to. -/
def revisits (p q : ℕ → Bool) : ℕ → List ℕ → ℕ
  | _, [] => 0
  | run, n :: rest =>
    if p n = false then revisits p q 0 rest
    else if q n then revisits p q (run + 1) rest
    else run + revisits p q run rest

section Acts

variable {single : Bool} {p q stop : ℕ → Bool} {turns : ℕ} {passed rest before after : List ℕ}
  {n : ℕ}

theorem cancelActs_spec (h : ∀ k ∈ passed, p k = true ∧ q k = true) :
    ∀ act ∈ cancelActs single p q stop turns passed rest, match act with
      | .mark n => (n ∈ passed ∨ n ∈ rest) ∧ p n = true ∧ q n = true
      | .drop n => n ∈ rest ∧ p n = true ∧ q n = false := by
  induction turns generalizing passed rest with
  | zero => exact fun act hact => by cases hact
  | succ turns ih =>
    cases rest with
    | nil => exact fun act hact => by cases hact
    | cons n rest =>
      intro act hact
      rw [cancelActs] at hact
      cases hp : p n with
      | false =>
        rw [if_pos hp] at hact
        have hrest := @ih [] _ (fun k hk => by cases hk) act hact
        cases act with
        | mark k =>
          obtain ⟨hk | hk, hpq⟩ := hrest
          · cases hk
          · exact ⟨.inr (List.mem_cons_of_mem _ hk), hpq⟩
        | drop k => exact ⟨List.mem_cons_of_mem _ hrest.1, hrest.2⟩
      | true =>
        rw [hp, if_neg (Ne.symm Bool.false_ne_true)] at hact
        cases hq : q n with
        | true =>
          rw [if_pos hq, List.mem_cons] at hact
          have hpassed : ∀ k ∈ passed ++ [n], p k = true ∧ q k = true := by
            intro k hk
            rcases List.mem_append.mp hk with hk | hk
            · exact h k hk
            · rw [List.mem_singleton.mp hk]
              exact ⟨hp, hq⟩
          rcases hact with rfl | hact
          · exact ⟨.inr List.mem_cons_self, hp, hq⟩
          · have hrest := ih hpassed act hact
            cases act with
            | mark k =>
              refine ⟨?_, hrest.2⟩
              rcases hrest.1 with hk | hk
              · rw [List.mem_append, List.mem_singleton] at hk
                rcases hk with hk | rfl
                · exact .inl hk
                · exact .inr List.mem_cons_self
              · exact .inr (List.mem_cons_of_mem _ hk)
            | drop k => exact ⟨List.mem_cons_of_mem _ hrest.1, hrest.2⟩
        | false =>
          rw [hq, if_neg Bool.false_ne_true] at hact
          split at hact
          · cases hact
          split at hact
          · rw [List.mem_singleton.mp hact]
            exact ⟨List.mem_cons_self, hp, hq⟩
          rcases List.mem_cons.mp hact with rfl | hact
          · exact ⟨List.mem_cons_self, hp, hq⟩
          have hrest := @ih [] _ (fun k hk => by cases hk) act hact
          cases act with
          | mark k =>
            obtain ⟨hk | hk, hpq⟩ := hrest
            · cases hk
            · rcases List.mem_append.mp hk with hk | hk
              · exact ⟨.inl hk, hpq⟩
              · exact ⟨.inr (List.mem_cons_of_mem _ hk), hpq⟩
          | drop k =>
            obtain ⟨hk, hpk, hqk⟩ := hrest
            rcases List.mem_append.mp hk with hk | hk
            · rw [(h k hk).2] at hqk
              cases hqk
            · exact ⟨List.mem_cons_of_mem _ hk, hpk, hqk⟩

theorem cancelActs_passed (h : ∀ k ∈ passed, p k = true ∧ q k = true) (again : List ℕ) :
    cancelActs single p q stop turns again (passed ++ rest) =
      if passed.length ≤ turns then
        passed.map .mark ++ cancelActs single p q stop (turns - passed.length) (again ++ passed) rest
      else (passed.take turns).map .mark := by
  induction passed generalizing turns again with
  | nil => simp
  | cons k passed ih =>
    cases turns with
    | zero => simp [cancelActs]
    | succ turns =>
      obtain ⟨⟨hp, hq⟩, hpassed⟩ := List.forall_mem_cons.mp h
      rw [List.cons_append, cancelActs, hp, hq, if_neg (Ne.symm Bool.false_ne_true), if_pos rfl,
        ih hpassed]
      by_cases hle : passed.length ≤ turns
      · have hle' : (k :: passed).length ≤ turns + 1 := Nat.succ_le_succ hle
        rw [if_pos hle, if_pos hle']
        simp
      · have hgt : ¬ (k :: passed).length ≤ turns + 1 := fun h => hle (Nat.le_of_succ_le_succ h)
        rw [if_neg hle, if_neg hgt]
        simp

/-- A command under activation is marked when the loop gets to it. -/
theorem mark_mem_cancelActs_iff (hpassed : ∀ k ∈ passed, p k = true ∧ q k = true)
    (hn : n ∉ passed) (hbefore : n ∉ before) (hp : p n = true) (hq : q n = true) :
    .mark n ∈ cancelActs single p q stop turns passed (before ++ n :: after) ↔
      (∀ d ∈ before, p d = true → q d = false → stop d = true ∧ single = false) ∧
        before.length + revisits p q passed.length before < turns := by
  induction before generalizing turns passed with
  | nil =>
    cases turns with
    | zero => simp [cancelActs]
    | succ turns => simp [cancelActs, hp, hq, revisits]
  | cons d before ih =>
    rw [List.mem_cons, not_or] at hbefore
    obtain ⟨hnd, hnb⟩ := hbefore
    cases turns with
    | zero => simp [cancelActs]
    | succ turns =>
      rw [List.cons_append, cancelActs, revisits, List.length_cons, List.forall_mem_cons]
      cases hpd : p d with
      | false =>
        rw [if_pos rfl, if_pos rfl, ih (fun k hk => by cases hk) (List.not_mem_nil) hnb,
          List.length_nil]
        simp only [Bool.false_eq_true, false_implies, true_and]
        exact and_congr_right fun _ => by omega
      | true =>
        rw [if_neg (Ne.symm Bool.false_ne_true), if_neg (Ne.symm Bool.false_ne_true)]
        cases hqd : q d with
        | true =>
          have hpassed' : ∀ k ∈ passed ++ [d], p k = true ∧ q k = true := by
            intro k hk
            rcases List.mem_append.mp hk with hk | hk
            · exact hpassed k hk
            · rw [List.mem_singleton.mp hk]
              exact ⟨hpd, hqd⟩
          have hn' : n ∉ passed ++ [d] := by
            rw [List.mem_append, List.mem_singleton]
            exact not_or.mpr ⟨hn, hnd⟩
          rw [if_pos rfl, if_pos rfl, List.mem_cons, ih hpassed' hn' hnb, List.length_append]
          simp only [CancelAct.mark.injEq, hnd, false_or, Bool.true_eq_false, false_implies,
            forall_const, true_and, List.length_singleton]
          exact and_congr_right fun _ => by omega
        | false =>
          rw [if_neg Bool.false_ne_true, if_neg Bool.false_ne_true]
          cases hstop : stop d with
          | false => simp
          | true =>
            cases hsingle : single with
            | true => simp
            | false =>
              rw [if_neg (Ne.symm Bool.false_ne_true), if_neg Bool.false_ne_true,
                cancelActs_passed hpassed, List.nil_append, List.mem_cons]
              rw [hsingle] at ih
              split
              next hle =>
                  rw [List.mem_append, ih hpassed hn hnb]
                  simp only [reduceCtorEq, false_or, List.mem_map, CancelAct.mark.injEq,
                    exists_eq_right, hn, and_true, forall_const, true_and]
                  exact and_congr_right fun _ => by omega
              next hgt =>
                  have hno : CancelAct.mark n ∉ (passed.take turns).map CancelAct.mark := by
                    simp only [List.mem_map, CancelAct.mark.injEq, exists_eq_right]
                    exact fun hk => hn (List.mem_of_mem_take hk)
                  simp only [reduceCtorEq, false_or, hno, false_iff, not_and]
                  omega

end Acts

theorem leftBy_mark (acts : List CancelAct) (n : ℕ) (queue : List ℕ) :
    leftBy (acts ++ [.mark n]) queue = leftBy acts queue := by
  simp [leftBy]

theorem leftBy_drop {acts : List CancelAct} {n : ℕ} {queue before rest : List ℕ}
    (hnodup : queue.Nodup) (h : leftBy acts queue = before ++ n :: rest) :
    leftBy (acts ++ [.drop n]) queue = before ++ rest := by
  have hfilter : leftBy (acts ++ [.drop n]) queue = (leftBy acts queue).filter (· != n) := by
    unfold leftBy
    rw [List.filter_filter]
    apply List.filter_congr
    intro k _
    rw [Bool.eq_iff_iff]
    simp [and_comm]
  have hleft : (leftBy acts queue).Nodup := hnodup.filter _
  rw [h] at hleft
  rw [hfilter, h, ← List.Nodup.erase_eq_filter hleft]
  have hbefore : n ∉ before := by
    intro hn
    exact (List.nodup_append.mp hleft).2.2 n hn n List.mem_cons_self rfl
  rw [List.erase_append_right _ hbefore, List.erase_cons_head]

/-- The loop does what `cancelActs` says, one thing after the other. -/
theorem cancelLoop_acts {σ : Type} {o : CancelOps σ} {P : List CancelAct → σ → Prop}
    {p q : ℕ → Bool} {queue : List ℕ} (hnodup : queue.Nodup)
    (hqueue : ∀ acts s, P acts s → o.queue s = leftBy acts queue)
    (hp : ∀ acts s n, P acts s → n ∈ o.queue s → o.isMatch s n = p n)
    (hq : ∀ acts s n, P acts s → n ∈ o.queue s → (o.isActiveQueue && o.marked s n) = q n)
    (hmark : ∀ acts s n, P acts s → n ∈ o.queue s → q n = true →
      P (acts ++ [.mark n]) (o.mark n s))
    (hdrop : ∀ acts s n, P acts s → n ∈ o.queue s → q n = false →
      P (acts ++ [.drop n]) (o.drop n s))
    (turns : ℕ) {acts : List CancelAct} (before passed rest : List ℕ) (status : CmdStatus) {s : σ}
    (hs : P acts s) (hleft : leftBy acts queue = before ++ passed ++ rest) :
    P (acts ++ cancelActs o.single p q (fun n => !o.isActiveQueue || o.stopTimer n) turns passed
        rest)
      (cancelLoop o turns (before ++ passed).getLast? before.getLast? status s).2 := by
  induction turns generalizing acts before passed rest status s with
  | zero =>
    rw [cancelActs, List.append_nil]
    exact hs
  | succ turns ih =>
    have hunique : (before ++ passed ++ rest).Nodup := by
      rw [← hleft]
      exact hnodup.filter _
    rw [cancelLoop, getCmdFromQueue_eq, hqueue _ s hs, hleft, restOfQueue_getLast hunique]
    cases rest with
    | nil =>
      rw [cancelActs, List.append_nil]
      split <;> exact hs
    | cons n rest =>
      have hmem : n ∈ o.queue s := by
        rw [hqueue _ s hs, hleft]
        exact List.mem_append_right _ List.mem_cons_self
      have hne : before ++ passed ++ n :: rest ≠ [] :=
        List.append_ne_nil_of_right_ne_nil _ (List.cons_ne_nil n rest)
      rw [if_neg hne, List.head?_cons, cancelActs]
      dsimp only
      rw [hp _ s n hs hmem, hq _ s n hs hmem]
      cases hpn : p n with
      | false =>
        have hlast : (before ++ passed ++ [n] ++ []).getLast? = some n := by simp
        have hlast' : (before ++ passed ++ [n]).getLast? = some n := List.getLast?_concat
        have hrest := ih (before ++ passed ++ [n]) [] rest status hs (by rw [hleft]; simp)
        rw [hlast, hlast'] at hrest
        rw [if_pos rfl, if_pos rfl]
        exact hrest
      | true =>
        rw [if_neg (Ne.symm Bool.false_ne_true), if_neg (Ne.symm Bool.false_ne_true)]
        cases hqn : q n with
        | true =>
          have hlast : (before ++ (passed ++ [n])).getLast? = some n := by
            rw [← List.append_assoc, List.getLast?_concat]
          have hrest := ih before (passed ++ [n]) rest .markedForActivation
            (hmark _ s n hs hmem hqn) (by rw [leftBy_mark, hleft]; simp)
          rw [hlast, List.append_assoc, List.singleton_append] at hrest
          rw [if_pos rfl, if_pos rfl]
          exact hrest
        | false =>
          have hgone := hdrop _ s n hs hmem hqn
          rw [if_neg Bool.false_ne_true, if_neg Bool.false_ne_true]
          cases hstop : (!o.isActiveQueue || o.stopTimer n) with
          | false =>
            have hfails : (o.isActiveQueue && !o.stopTimer n) = true := by
              rw [← Bool.not_inj_iff, Bool.not_and, Bool.not_not, hstop, Bool.not_true]
            rw [if_pos rfl, hfails, if_pos rfl, List.append_nil]
            exact hs
          | true =>
            have hstops : (o.isActiveQueue && !o.stopTimer n) = false := by
              rw [← Bool.not_inj_iff, Bool.not_and, Bool.not_not, hstop, Bool.not_false]
            rw [if_neg (Ne.symm Bool.false_ne_true), hstops, if_neg Bool.false_ne_true]
            cases hsingle : o.single with
            | true =>
              rw [if_pos rfl, if_pos rfl]
              exact hgone
            | false =>
              have hleft' := leftBy_drop hnodup hleft
              rw [List.append_assoc] at hleft'
              have hrest := ih before [] (passed ++ rest)
                (if o.isActiveQueue then .inActiveList else .inPendingList) hgone
                (by rw [hleft']; simp)
              rw [List.append_nil, hsingle, List.append_assoc,
                List.singleton_append] at hrest
              rw [if_neg Bool.false_ne_true, if_neg Bool.false_ne_true]
              exact hrest

end KernelModules.WlanSer
