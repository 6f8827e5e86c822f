import Mathlib.Data.List.Nodup

/-!
# Cursors into a list that others change

A cursor stands at an element of a list without repetitions, or before its first one. What is
ahead of it is asked for again at each step, so that elements may come and go between two steps,
as long as the one the cursor stands at is kept.
-/

namespace ListCursor

variable {α : Type*} [DecidableEq α] {l l' l₁ l₂ : List α} {p : α → Bool} {cur : Option α}
  {a b c d n : α}

/-- What comes after the first `c`. -/
def rest (c : α) (l : List α) : List α := l.drop (l.idxOf c + 1)

def ahead (l : List α) : Option α → List α
  | none => l
  | some c => rest c l

/-- The first element ahead of the cursor that satisfies `p`. -/
def next (p : α → Bool) (l : List α) (cur : Option α) : Option α := (ahead l cur).find? p

/-- `n` is put before the first `d`. -/
def insertBefore (d n : α) : List α → List α
  | [] => []
  | a :: l => if a = d then n :: a :: l else a :: insertBefore d n l

@[simp] theorem ahead_none (l : List α) : ahead l none = l := rfl

@[simp] theorem ahead_some (l : List α) (c : α) : ahead l (some c) = rest c l := rfl

theorem rest_cons_self (a : α) (l : List α) : rest a (a :: l) = l := by
  unfold rest
  rw [List.idxOf_cons_self]
  rfl

theorem rest_cons_of_ne (h : a ≠ c) (l : List α) : rest c (a :: l) = rest c l := by
  unfold rest
  rw [List.idxOf_cons_ne l h]
  rfl

theorem rest_append_cons (h : c ∉ l₁) (l₂ : List α) : rest c (l₁ ++ c :: l₂) = l₂ := by
  induction l₁ with
  | nil => exact rest_cons_self c l₂
  | cons a l₁ ih =>
    obtain ⟨hne, hl⟩ := List.ne_and_not_mem_of_not_mem_cons h
    rw [List.cons_append, rest_cons_of_ne (Ne.symm hne), ih hl]

theorem rest_suffix (c : α) (l : List α) : rest c l <:+ l := List.drop_suffix ..

theorem ahead_suffix (l : List α) (cur : Option α) : ahead l cur <:+ l := by
  cases cur with
  | none => exact List.suffix_refl l
  | some c => exact rest_suffix c l

theorem self_notMem_rest (hnodup : l.Nodup) (hc : c ∈ l) : c ∉ rest c l := by
  obtain ⟨l₁, l₂, rfl, hnot⟩ := List.eq_append_cons_of_mem hc
  rw [rest_append_cons hnot]
  have htail := (List.nodup_append.mp hnodup).2.1
  exact (List.nodup_cons.mp htail).1

theorem mem_rest_iff_of_sublist (h : l.Sublist l') (hnodup : l'.Nodup) (hc : c ∈ l) (hn : n ∈ l) :
    n ∈ rest c l' ↔ n ∈ rest c l := by
  induction h with
  | slnil => cases hc
  | cons a h ih =>
    obtain ⟨ha, hl⟩ := List.nodup_cons.mp hnodup
    have hne : a ≠ c := fun heq => ha (heq ▸ h.subset hc)
    rw [rest_cons_of_ne hne]
    exact ih hl hc hn
  | @cons_cons l₁ l₂ a h ih =>
    obtain ⟨ha, hl⟩ := List.nodup_cons.mp hnodup
    have ha₁ : a ∉ l₁ := fun hmem => ha (h.subset hmem)
    rcases eq_or_ne a c with rfl | hne
    · rw [rest_cons_self, rest_cons_self]
      rcases List.mem_cons.mp hn with rfl | hmem
      · exact iff_of_false ha ha₁
      · exact iff_of_true (h.subset hmem) hmem
    · rw [rest_cons_of_ne hne, rest_cons_of_ne hne]
      have hc₁ : c ∈ l₁ := List.mem_of_ne_of_mem (Ne.symm hne) hc
      rcases List.mem_cons.mp hn with rfl | hmem
      · exact iff_of_false (fun hin => ha ((rest_suffix c l₂).subset hin))
          fun hin => ha₁ ((rest_suffix c l₁).subset hin)
      · exact ih hl hc₁ hmem

theorem next_eq_none (h : next p l cur = none) (hp : p n) : n ∉ ahead l cur :=
  fun hmem => List.find?_eq_none.mp h n hmem hp

theorem next_mem (h : next p l cur = some a) : a ∈ ahead l cur := List.mem_of_find?_eq_some h

theorem next_satisfies (h : next p l cur = some a) : p a := List.find?_some h

theorem mem_of_next (h : next p l cur = some a) : a ∈ l := (ahead_suffix l cur).subset (next_mem h)

theorem mem_ahead_iff_of_next (hnodup : l.Nodup) (h : next p l cur = some a) (hp : p n) :
    n ∈ ahead l cur ↔ n = a ∨ n ∈ rest a l := by
  obtain ⟨_, l₁, l₂, hsplit, hskip⟩ := List.find?_eq_some_iff_append.mp h
  obtain ⟨pre, hpre⟩ := ahead_suffix l cur
  have hl : l = (pre ++ l₁) ++ a :: l₂ := by rw [← hpre, hsplit, List.append_assoc]
  have hnot : a ∉ pre ++ l₁ := by
    rw [hl] at hnodup
    intro hmem
    exact (List.nodup_append.mp hnodup).2.2 a hmem a List.mem_cons_self rfl
  have hrest : rest a l = l₂ := by rw [hl, rest_append_cons hnot]
  rw [hsplit, hrest, List.mem_append, List.mem_cons]
  constructor
  · rintro (hmem | hmem)
    · have := hskip n hmem
      rw [hp] at this
      cases this
    · exact hmem
  · exact .inr

theorem insertBefore_perm (h : d ∈ l) (a : α) : (insertBefore d a l).Perm (a :: l) := by
  induction l with
  | nil => cases h
  | cons b l ih =>
    unfold insertBefore
    split
    · exact List.Perm.refl _
    · rename_i hne
      have hd : d ∈ l := List.mem_of_ne_of_mem (Ne.symm hne) h
      exact ((ih hd).cons b).trans (List.Perm.swap a b l)

theorem sublist_insertBefore (d a : α) (l : List α) : l.Sublist (insertBefore d a l) := by
  induction l with
  | nil => exact List.Sublist.slnil
  | cons b l ih =>
    unfold insertBefore
    split
    · exact List.sublist_cons_self ..
    · exact ih.cons_cons b

end ListCursor
