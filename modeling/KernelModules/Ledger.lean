import Mathlib.Algebra.Order.BigOperators.Group.List
import Mathlib.Tactic.Linarith

/-!
# Ledgers

A ledger is a list of accounts, each with a balance. What one account gains or loses the total
gains or loses; what is moved from one account to another leaves it as it is.
-/

namespace Ledger

variable {α β : Type*}

def total (f : α → ℕ) (l : List α) : ℕ := (l.map f).sum

variable {f g : α → ℕ} {l : List α} {a b : α}

@[simp] theorem total_nil (f : α → ℕ) : total f [] = 0 := rfl

@[simp] theorem total_cons (f : α → ℕ) (a : α) (l : List α) :
    total f (a :: l) = f a + total f l := by
  simp only [total, List.map_cons, List.sum_cons]

theorem total_append (f : α → ℕ) (l m : List α) : total f (l ++ m) = total f l + total f m := by
  simp only [total, List.map_append, List.sum_append]

theorem total_concat (f : α → ℕ) (l : List α) (a : α) : total f (l ++ [a]) = total f l + f a := by
  simp only [total_append, total_cons, total_nil, Nat.add_zero]

theorem total_congr (h : ∀ a ∈ l, g a = f a) : total g l = total f l := by
  unfold total
  rw [List.map_congr_left h]

theorem le_total (h : a ∈ l) : f a ≤ total f l :=
  List.le_sum_of_mem (List.mem_map_of_mem h)

theorem total_eq_zero (h : ∀ a ∈ l, f a = 0) : total f l = 0 := by
  induction l with
  | nil => rfl
  | cons a l ih =>
    rw [total_cons, h a List.mem_cons_self, ih fun b hb => h b (List.mem_cons_of_mem _ hb)]

theorem total_pos (h : a ∈ l) (hpos : 0 < f a) : 0 < total f l := hpos.trans_le (le_total h)

theorem total_of_ne (hnodup : l.Nodup) (h : a ∈ l) (hne : ∀ b ∈ l, b ≠ a → g b = f b) :
    total g l + f a = total f l + g a := by
  induction l with
  | nil => cases h
  | cons c l ih =>
    obtain ⟨hc, hl⟩ := List.nodup_cons.mp hnodup
    rw [total_cons, total_cons]
    rcases List.mem_cons.mp h with rfl | ha
    · have hrest : total g l = total f l :=
        total_congr fun b hb => hne b (List.mem_cons_of_mem _ hb) fun heq => hc (heq ▸ hb)
      omega
    · have hhead : g c = f c := hne c List.mem_cons_self fun heq => hc (heq ▸ ha)
      have := ih hl ha fun b hb => hne b (List.mem_cons_of_mem _ hb)
      omega

theorem total_erase [DecidableEq α] (h : a ∈ l) : total f (l.erase a) + f a = total f l := by
  induction l with
  | nil => cases h
  | cons c l ih =>
    rcases eq_or_ne c a with rfl | hne
    · rw [List.erase_cons_head, total_cons, Nat.add_comm]
    · have ha : a ∈ l := by
        rcases List.mem_cons.mp h with heq | ha
        · exact absurd heq.symm hne
        · exact ha
      have := ih ha
      rw [List.erase_cons_tail (by simpa using hne), total_cons, total_cons]
      omega

theorem total_eraseIdx {i : ℕ} (h : l[i]? = some a) : total f (l.eraseIdx i) + f a = total f l := by
  induction l generalizing i with
  | nil => cases h
  | cons c l ih =>
    cases i with
    | zero =>
      cases h
      rw [List.eraseIdx_cons_zero, total_cons, Nat.add_comm]
    | succ i =>
      have := ih h
      rw [List.eraseIdx_cons_succ, total_cons, total_cons]
      omega

theorem total_set {i : ℕ} (h : l[i]? = some a) (b : α) :
    total f (l.set i b) = total f (l.eraseIdx i) + f b := by
  induction l generalizing i with
  | nil => cases h
  | cons c l ih =>
    cases i with
    | zero => rw [List.set_cons_zero, List.eraseIdx_cons_zero, total_cons, Nat.add_comm]
    | succ i =>
      have := ih h
      rw [List.set_cons_succ, List.eraseIdx_cons_succ, total_cons, total_cons]
      omega

theorem total_set_add {i : ℕ} (h : l[i]? = some a) (b : α) :
    total f (l.set i b) + f a = total f l + f b := by
  have hset := total_set (f := f) h b
  have herase := total_eraseIdx (f := f) h
  omega

theorem total_add_le {i : ℕ} (h : l[i]? = some a) (hle : ∀ b, g b ≤ f b) :
    total g l + f a ≤ total f l + g a := by
  have hf := total_eraseIdx (f := f) h
  have hg := total_eraseIdx (f := g) h
  have hrest : total g (l.eraseIdx i) ≤ total f (l.eraseIdx i) :=
    List.sum_le_sum fun b _ => hle b
  omega

theorem count_take_add_drop [DecidableEq β] (x : β) (n : ℕ) (m : List β) :
    (m.take n).count x + (m.drop n).count x = m.count x := by
  rw [← List.count_append, List.take_append_drop]

end Ledger
