import KernelModules.WlanSerialization

/-!
# The nodes of a pdev queue

A step takes a node out of one list and puts it into another, and in between holds it in hand.
Four moves are enough: a node is taken from the pool and given a command, is put into a list, is
taken from a list, and goes back to the pool. Nothing else changes a list.
-/

namespace KernelModules.WlanSer

variable {m : ℕ}

/-- Where `addCmdToQueue` puts a command. -/
def place (cmd : Cmd m) (n : ℕ) (queue : List ℕ) : List ℕ :=
  if cmd.isHighPriority then n :: queue else queue ++ [n]

variable {cmd : Cmd m} {n : ℕ} {queue : List ℕ}

theorem mem_place {k : ℕ} : k ∈ place cmd n queue ↔ k = n ∨ k ∈ queue := by
  cases h : cmd.isHighPriority <;> simp [place, h, or_comm]

theorem count_place (cmd : Cmd m) (n k : ℕ) (queue : List ℕ) :
    (place cmd n queue).count k = queue.count k + if n = k then 1 else 0 := by
  cases h : cmd.isHighPriority <;>
    simp [place, h, List.count_cons, List.count_append]

theorem length_place (cmd : Cmd m) (n : ℕ) (queue : List ℕ) :
    (place cmd n queue).length = queue.length + 1 := by
  cases h : cmd.isHighPriority <;> simp [place, h]

theorem filter_place (cmd : Cmd m) (n : ℕ) (queue : List ℕ) (p : ℕ → Bool) :
    (place cmd n queue).filter p =
      if p n then place cmd n (queue.filter p) else queue.filter p := by
  cases h : cmd.isHighPriority <;> cases hp : p n <;> simp [place, h, hp, List.filter_append]

theorem addCmdToQueue_eq (maxSize : ℕ) (cmd : Cmd m) (n : ℕ) (queue : List ℕ) :
    addCmdToQueue maxSize cmd n queue =
      if queue.length = maxSize then none else some (place cmd n queue) := by
  cases h : cmd.isHighPriority <;> simp [addCmdToQueue, place, h]

variable {cmds : ℕ → CommandList m}

theorem findCmd_mem (h : findCmd cmds queue cmd = some n) : n ∈ queue :=
  List.mem_of_find?_eq_some h

theorem findCmd_isMatch (h : findCmd cmds queue cmd = some n) : (cmds n).isMatch cmd = true :=
  List.find?_some (p := fun n => (cmds n).isMatch cmd) h

theorem CommandList.vdev_of_isMatch {node : CommandList m}
    (h : node.isMatch cmd = true) : node.cmd.vdev = cmd.vdev := by
  simp only [CommandList.isMatch, Bool.and_eq_true, beq_iff_eq] at h
  exact h.2

theorem CommandList.isMatch_self (node : CommandList m) : node.isMatch node.cmd = true := by
  simp [CommandList.isMatch]

theorem notMem_eraseIdx {α : Type} {l : List α} {i : ℕ} {a : α} (h : l.Nodup)
    (hi : l[i]? = some a) : a ∉ l.eraseIdx i := by
  rw [List.mem_eraseIdx_iff_getElem?]
  rintro ⟨j, hji, hj⟩
  have hlt := (List.getElem?_eq_some_iff.mp hj).1
  exact hji ((List.getElem?_inj hlt h).mp (hj.trans hi.symm))

namespace PdevQueue

/-- The nodes in hand and the three lists, each node below `size` in one place. -/
def Conserved (q : PdevQueue m) (hand : List ℕ) (size : ℕ) : Prop :=
  ∀ n, hand.count n + q.cmdPoolList.count n + (q.list true).count n + (q.list false).count n =
    if n < size then 1 else 0

structure Kept (q : PdevQueue m) (hand : List ℕ) (size : ℕ) : Prop where
  conserved : q.Conserved hand size
  pool_zero : ∀ n ∈ q.cmdPoolList, q.cmds n = {}
  pending_idle : ∀ n ∈ q.list false, (q.cmds n).cmdInUse = {}

variable {q : PdevQueue m} {hand : List ℕ} {size : ℕ}

theorem Conserved.count_le (h : q.Conserved hand size) (n : ℕ) :
    hand.count n + q.cmdPoolList.count n + (q.list true).count n + (q.list false).count n ≤ 1 := by
  rw [h n]
  split <;> omega

theorem Conserved.nodup (h : q.Conserved hand size) (a : Bool) : (q.list a).Nodup := by
  rw [List.nodup_iff_count_le_one]
  intro n
  have := h.count_le n
  cases a <;> omega

variable {n : ℕ} {a : Bool} {k : ℕ}

theorem Conserved.count_hand (h : q.Conserved (n :: hand) size) :
    hand.count n = 0 ∧ q.cmdPoolList.count n = 0 ∧ ∀ a, (q.list a).count n = 0 := by
  have hle := h.count_le n
  rw [List.count_cons_self] at hle
  refine ⟨by omega, by omega, ?_⟩
  intro a
  cases a <;> omega

theorem Conserved.count_mem (h : q.Conserved hand size) (hn : n ∈ q.list a) :
    hand.count n = 0 ∧ q.cmdPoolList.count n = 0 ∧ (q.list (!a)).count n = 0 := by
  have hle := h.count_le n
  have hpos := List.count_pos_iff.mpr hn
  cases a with
  | true =>
    rw [Bool.not_true]
    omega
  | false =>
    rw [Bool.not_false]
    omega

theorem Conserved.notMem_hand (h : q.Conserved (n :: hand) size) (a : Bool) : n ∉ q.list a :=
  List.count_eq_zero.mp (h.count_hand.2.2 a)

theorem Conserved.notMem_other {b : Bool} (h : q.Conserved hand size)
    (hn : n ∈ q.list a) (hab : b ≠ a) : n ∉ q.list b := by
  have hcount := (h.count_mem hn).2.2
  have hb : b = !a := Bool.eq_not_of_ne hab
  rw [← hb] at hcount
  exact List.count_eq_zero.mp hcount

theorem Conserved.notMem_pool (h : q.Conserved hand size) (hn : n ∈ q.list a) : n ∉ q.cmdPoolList :=
  List.count_eq_zero.mp (h.count_mem hn).2.1

theorem cmds_setInUse_of_ne (u : CmdInUse) (h : k ≠ n) : (q.setInUse n u).cmds k = q.cmds k :=
  Function.update_of_ne h ..

@[simp] theorem cmds_setInUse_self (n : ℕ) (u : CmdInUse) :
    (q.setInUse n u).cmds n = { q.cmds n with cmdInUse := u } :=
  Function.update_self ..

@[simp] theorem cmd_setInUse (n k : ℕ) (u : CmdInUse) : (q.setInUse n u).cmd k = q.cmd k := by
  by_cases h : k = n
  · subst k
    simp [cmd]
  · rw [cmd, cmds_setInUse_of_ne u h, cmd]

@[simp] theorem list_setInUse (n : ℕ) (u : CmdInUse) (a : Bool) :
    (q.setInUse n u).list a = q.list a := rfl

theorem cmds_release_of_ne (h : k ≠ n) : (q.release n).cmds k = q.cmds k :=
  Function.update_of_ne h ..

@[simp] theorem cmds_release_self (n : ℕ) : (q.release n).cmds n = {} := Function.update_self ..

theorem cmd_release_of_ne (h : k ≠ n) : (q.release n).cmd k = q.cmd k := by
  rw [cmd, cmds_release_of_ne h, cmd]

@[simp] theorem cmd_setList (a : Bool) (queue : List ℕ) (n : ℕ) :
    (q.setList a queue).cmd n = q.cmd n := by
  rw [cmd, cmds_setList, cmd]

theorem Kept.take (h : q.Kept hand size) {pool : List ℕ} (hpool : q.cmdPoolList = n :: pool)
    (cmd : Cmd m) : ((q.setPool pool).setCmd n cmd).Kept (n :: hand) size := by
  have hcount := h.conserved
  have hn := hcount.count_le n
  rw [hpool, List.count_cons_self] at hn
  have hother : ∀ k, k ≠ n → ((q.setPool pool).setCmd n cmd).cmds k = q.cmds k :=
    fun k hk => Function.update_of_ne hk ..
  constructor
  · intro k
    have hk := hcount k
    rw [hpool, List.count_cons] at hk
    change (n :: hand).count k + pool.count k + (q.list true).count k + (q.list false).count k = _
    rw [List.count_cons]
    omega
  · intro k hk
    have hne : k ≠ n := by
      intro hkn
      subst k
      have := List.count_pos_iff.mpr hk
      change 0 < pool.count n at this
      omega
    rw [hother k hne]
    exact h.pool_zero k (by rw [hpool]; exact List.mem_cons_of_mem _ hk)
  · intro k hk
    have hne : k ≠ n := by
      intro hkn
      subst k
      have := List.count_pos_iff.mpr hk
      change 0 < (q.list false).count n at this
      omega
    rw [hother k hne]
    exact h.pending_idle k hk

theorem Kept.insert (h : q.Kept (n :: hand) size)
    (hidle : a = false → (q.cmds n).cmdInUse = {}) (cmd : Cmd m) :
    (q.setList a (place cmd n (q.list a))).Kept hand size := by
  constructor
  · intro k
    have hk := h.conserved k
    rw [List.count_cons] at hk
    rw [pool_setList, list_setList, list_setList]
    cases a with
    | true =>
      simp only [if_true, Bool.false_eq_true, if_false, count_place]
      simp only [beq_iff_eq] at hk
      omega
    | false =>
      simp only [if_true, Bool.true_eq_false, if_false, count_place]
      simp only [beq_iff_eq] at hk
      omega
  · intro k hk
    rw [pool_setList] at hk
    rw [cmds_setList]
    exact h.pool_zero k hk
  · intro k hk
    rw [cmds_setList]
    cases a with
    | true =>
      rw [list_setList, if_neg Bool.false_ne_true] at hk
      exact h.pending_idle k hk
    | false =>
      rw [list_setList, if_pos rfl] at hk
      rcases mem_place.mp hk with rfl | hk
      · exact hidle rfl
      · exact h.pending_idle k hk

theorem Kept.erase (h : q.Kept hand size) (hn : n ∈ q.list a) :
    (q.setList a ((q.list a).erase n)).Kept (n :: hand) size := by
  have hpos := List.count_pos_iff.mpr hn
  constructor
  · intro k
    have hk := h.conserved k
    rw [pool_setList, list_setList, list_setList, List.count_cons]
    by_cases hkn : n = k
    · subst k
      cases a with
      | true =>
        simp only [if_true, Bool.false_eq_true, if_false, List.count_erase_self, beq_self_eq_true]
        omega
      | false =>
        simp only [if_true, Bool.true_eq_false, if_false, List.count_erase_self, beq_self_eq_true]
        omega
    · have hne : (n == k) = false := by simp [hkn]
      cases a with
      | true =>
        simp only [if_true, Bool.false_eq_true, if_false, hne,
          List.count_erase_of_ne (Ne.symm hkn)]
        omega
      | false =>
        simp only [if_true, Bool.true_eq_false, Bool.false_eq_true, if_false, hne,
          List.count_erase_of_ne (Ne.symm hkn)]
        omega
  · intro k hk
    rw [pool_setList] at hk
    rw [cmds_setList]
    exact h.pool_zero k hk
  · intro k hk
    rw [cmds_setList]
    apply h.pending_idle
    rw [list_setList] at hk
    split at hk
    · subst a
      exact List.mem_of_mem_erase hk
    · exact hk

theorem Kept.release (h : q.Kept (n :: hand) size) : (q.release n).Kept hand size := by
  have hfree := h.conserved.count_hand
  constructor
  · intro k
    have hk := h.conserved k
    rw [List.count_cons] at hk
    change hand.count k + (q.cmdPoolList ++ [n]).count k + (q.list true).count k +
      (q.list false).count k = _
    rw [List.count_append, List.count_singleton]
    omega
  · intro k hk
    change k ∈ q.cmdPoolList ++ [n] at hk
    by_cases hkn : k = n
    · subst k
      exact cmds_release_self n
    · rw [cmds_release_of_ne hkn]
      have hmem : k ∈ q.cmdPoolList := by simpa [hkn] using hk
      exact h.pool_zero k hmem
  · intro k hk
    have hkn : k ≠ n := by
      intro hkn
      subst k
      exact h.conserved.notMem_hand false hk
    rw [cmds_release_of_ne hkn]
    exact h.pending_idle k hk

theorem Kept.setInUse (h : q.Kept hand size) (hn : n ∈ q.list true) (u : CmdInUse) :
    (q.setInUse n u).Kept hand size := by
  constructor
  · exact h.conserved
  · intro k hk
    have hkn : k ≠ n := by
      intro hkn
      subst k
      exact h.conserved.notMem_pool hn hk
    rw [cmds_setInUse_of_ne u hkn]
    exact h.pool_zero k hk
  · intro k hk
    have hkn : k ≠ n := by
      intro hkn
      subst k
      exact h.conserved.notMem_other hn Bool.false_ne_true hk
    rw [cmds_setInUse_of_ne u hkn]
    exact h.pending_idle k hk

theorem init_kept (m size : ℕ) : (init m size).Kept [] size := by
  constructor
  · intro n
    simp [init, List.count_range]
  · intro n _
    rfl
  · intro n hn
    cases hn

end PdevQueue

end KernelModules.WlanSer
