import KernelModules.WlanCommands

/-!
# The loop that cancels commands

The loop walks along a queue and drops the commands that match. In a pending list it drops all of
them, or the first one when a single command is cancelled. In the active list a command whose
activation is under way is only marked, and the loop ends at the first command whose timer is not
there to be stopped.
-/

namespace KernelModules.WlanSer

variable {σ : Type} {o : CancelOps σ}

variable {n : ℕ} {s : σ} {rest : List ℕ} {p : ℕ → Bool}

theorem getCmdFromQueue_mem {queue : List ℕ} {at? : Option ℕ}
    (h : getCmdFromQueue queue at? = some n) : n ∈ queue := by
  cases at? with
  | none => exact List.mem_of_mem_head? h
  | some k =>
    have hmem := List.mem_of_mem_tail (List.mem_of_mem_head? h)
    exact (List.dropWhile_suffix _).subset hmem

theorem cancelLoop_invariant {P : σ → Prop}
    (hmark : ∀ s n, P s → n ∈ o.queue s → o.isActiveQueue = true → o.marked s n = true →
      P (o.mark n s))
    (hdrop : ∀ s n, P s → n ∈ o.queue s → o.isMatch s n = true →
      (o.isActiveQueue = true → o.marked s n = false) → P (o.drop n s))
    (qsize : ℕ) (nnode pnode : Option ℕ) (status : CmdStatus) (hs : P s) :
    P (cancelLoop o qsize nnode pnode status s).2 := by
  induction qsize generalizing nnode pnode status s with
  | zero => exact hs
  | succ qsize ih =>
    rw [cancelLoop]
    split
    · exact hs
    · cases hget : getCmdFromQueue (o.queue s) nnode with
      | none => exact hs
      | some n =>
        have hn := getCmdFromQueue_mem hget
        dsimp only
        cases hm : o.isMatch s n with
        | false =>
          rw [if_pos rfl]
          exact ih _ _ _ hs
        | true =>
          rw [if_neg (Ne.symm Bool.false_ne_true)]
          cases ha : o.isActiveQueue with
          | true =>
            cases hk : o.marked s n with
            | true =>
              rw [Bool.and_self, if_pos rfl]
              exact ih _ _ _ (hmark s n hs hn ha hk)
            | false =>
              have hd := hdrop s n hs hn hm (fun _ => hk)
              rw [Bool.and_false, if_neg Bool.false_ne_true]
              split
              · exact hs
              · split
                · exact hd
                · exact ih _ _ _ hd
          | false =>
            have hd := hdrop s n hs hn hm (fun hc => by rw [ha] at hc; cases hc)
            rw [Bool.false_and, if_neg Bool.false_ne_true, Bool.false_and,
              if_neg Bool.false_ne_true]
            split
            · exact hd
            · exact ih _ _ _ hd

def restOfQueue (queue : List ℕ) : Option ℕ → List ℕ
  | none => queue
  | some n => (queue.dropWhile (· ≠ n)).tail

theorem getCmdFromQueue_eq (queue : List ℕ) (nnode : Option ℕ) :
    getCmdFromQueue queue nnode = (restOfQueue queue nnode).head? := by
  cases nnode <;> rfl

variable {P : List ℕ → σ → Prop} {before : List ℕ}

theorem restOfQueue_append (h : (before ++ n :: rest).Nodup) :
    restOfQueue (before ++ n :: rest) (some n) = rest := by
  have hnew : ∀ k ∈ before, decide (k ≠ n) = true := by
    intro k hk
    rw [List.nodup_append] at h
    rw [decide_eq_true_eq]
    exact h.2.2 k hk n List.mem_cons_self
  rw [restOfQueue, List.dropWhile_append_of_pos hnew, List.dropWhile_cons]
  simp

theorem restOfQueue_getLast (h : (before ++ rest).Nodup) :
    restOfQueue (before ++ rest) before.getLast? = rest := by
  rcases List.eq_nil_or_concat before with rfl | ⟨before, n, rfl⟩
  · rfl
  · rw [List.concat_eq_append, List.append_assoc] at h
    rw [List.concat_eq_append, List.getLast?_concat, List.append_assoc]
    exact restOfQueue_append h

/-- Where the first command that the loop could drop has no timer to stop, it drops none. -/
theorem cancelLoop_spared {P : σ → Prop} {queue : List ℕ} {q : ℕ → Bool}
    (hactive : o.isActiveQueue = true) (hnodup : queue.Nodup)
    (hqueue : ∀ s, P s → o.queue s = queue)
    (hp : ∀ s n, P s → n ∈ queue → o.isMatch s n = p n)
    (hmarked : ∀ s n, P s → n ∈ queue → o.marked s n = q n)
    (hmark : ∀ s n, P s → P (o.mark n s)) (turns : ℕ) (before rest : List ℕ)
    (hrest : before ++ rest = queue)
    (hspare : (rest.find? fun n => p n && !q n).all (fun n => !o.stopTimer n) = true)
    (pnode : Option ℕ) (status : CmdStatus) (hs : P s) :
    P (cancelLoop o turns before.getLast? pnode status s).2 := by
  induction turns generalizing before rest pnode status s with
  | zero => exact hs
  | succ turns ih =>
    subst hrest
    rw [cancelLoop, hqueue s hs, getCmdFromQueue_eq, restOfQueue_getLast hnodup]
    cases rest with
    | nil => split <;> exact hs
    | cons n rest =>
      have hmem : n ∈ before ++ n :: rest := List.mem_append_right _ List.mem_cons_self
      have hnext : before ++ [n] ++ rest = before ++ n :: rest := by simp
      have hlast : (before ++ [n]).getLast? = some n := List.getLast?_concat
      rw [if_neg (List.ne_nil_of_mem hmem), List.head?_cons]
      dsimp only
      rw [hp s n hs hmem, hmarked s n hs hmem, hactive]
      rw [List.find?_cons] at hspare
      cases hpn : p n with
      | false =>
        rw [hpn] at hspare
        rw [if_pos rfl, ← hlast]
        exact ih _ _ hnext hspare _ _ hs
      | true =>
        rw [if_neg (Ne.symm Bool.false_ne_true)]
        cases hqn : q n with
        | true =>
          rw [hpn, hqn] at hspare
          rw [Bool.and_self, if_pos rfl, ← hlast]
          exact ih _ _ hnext hspare _ _ (hmark s n hs)
        | false =>
          rw [hpn, hqn] at hspare
          have hstop : o.stopTimer n = false := by simpa using hspare
          rw [Bool.and_false, if_neg Bool.false_ne_true, hstop, Bool.not_false, Bool.and_self,
            if_pos rfl]
          exact hs

def leftPending (single : Bool) (p : ℕ → Bool) (queue : List ℕ) : List ℕ :=
  if single then queue.eraseP p else queue.filter (fun n => !p n)

theorem leftPending_cons_of_neg (single : Bool) (queue : List ℕ)
    (h : p n = false) : leftPending single p (n :: queue) = n :: leftPending single p queue := by
  cases single <;> simp [leftPending, h]

/-- The commands before the place of the loop do not match; behind it those that match are
dropped. -/
theorem cancelLoop_pending
    (hpending : o.isActiveQueue = false) (hqueue : ∀ queue s, P queue s → o.queue s = queue)
    (hnodup : ∀ queue s, P queue s → queue.Nodup)
    (hp : ∀ queue s n, P queue s → n ∈ queue → o.isMatch s n = p n)
    (hdrop : ∀ queue s n, P queue s → n ∈ queue → p n = true → P (queue.erase n) (o.drop n s))
    (before rest : List ℕ) (status : CmdStatus) (hs : P (before ++ rest) s) :
    P (before ++ leftPending o.single p rest)
      (cancelLoop o rest.length before.getLast? before.getLast? status s).2 := by
  induction rest generalizing before status s with
  | nil =>
    have hnil : leftPending o.single p [] = [] := by
      rw [leftPending]
      split <;> rfl
    rw [hnil]
    exact hs
  | cons n rest ih =>
    have hmem : n ∈ before ++ n :: rest := List.mem_append_right _ List.mem_cons_self
    have hunique := hnodup _ s hs
    rw [List.length_cons, cancelLoop, hqueue _ s hs, if_neg (List.ne_nil_of_mem hmem),
      getCmdFromQueue_eq, restOfQueue_getLast hunique, List.head?_cons]
    dsimp only
    rw [hp _ s n hs hmem]
    cases hpn : p n with
    | false =>
      have hlast : (before ++ [n]).getLast? = some n := List.getLast?_concat
      have happend : before ++ n :: rest = (before ++ [n]) ++ rest := by
        rw [List.append_assoc, List.singleton_append]
      rw [happend] at hs
      have hnext := ih (before ++ [n]) status hs
      rw [hlast, List.append_assoc, List.singleton_append] at hnext
      rw [if_pos rfl, leftPending_cons_of_neg _ _ hpn]
      exact hnext
    | true =>
      have hbefore : n ∉ before := by
        intro hn
        exact (List.nodup_append.mp hunique).2.2 n hn n List.mem_cons_self rfl
      have hgone := hdrop _ s n hs hmem hpn
      rw [List.erase_append_right _ hbefore, List.erase_cons_head] at hgone
      rw [if_neg (Ne.symm Bool.false_ne_true), hpending, Bool.false_and,
        if_neg Bool.false_ne_true, Bool.false_and, if_neg Bool.false_ne_true]
      cases hsingle : o.single with
      | true =>
        rw [if_pos rfl, leftPending, if_pos rfl, List.eraseP_cons_of_pos hpn]
        exact hgone
      | false =>
        have hleft : leftPending false p (n :: rest) = leftPending false p rest := by
          simp [leftPending, hpn]
        have hnext := ih _ CmdStatus.inPendingList hgone
        rw [hsingle] at hnext
        rw [if_neg Bool.false_ne_true, hleft]
        exact hnext

end KernelModules.WlanSer
