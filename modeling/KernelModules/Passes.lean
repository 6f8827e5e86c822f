import Mathlib.Data.List.FinRange

/-!
# Passes over a table

A table is worked on by a list of passes, one after the other. What every pass keeps is kept by all
of them together; what is to be said of each pass is said of the table that reaches it.

A pass that walks the table in place and decides by nothing that it writes acts on every entry at
once.
-/

namespace Passes

variable {σ : Type*}

def runAll (fs : List (σ → σ)) (s : σ) : σ :=
  fs.foldl (fun s f => f s) s

def Each (R : σ → σ → Prop) : List (σ → σ) → σ → Prop
  | [], _ => True
  | f :: fs, s => R s (f s) ∧ Each R fs (f s)

@[simp] theorem runAll_nil (s : σ) : runAll [] s = s := rfl

@[simp] theorem runAll_cons (f : σ → σ) (fs : List (σ → σ)) (s : σ) :
    runAll (f :: fs) s = runAll fs (f s) := rfl

theorem runAll_append (fs gs : List (σ → σ)) (s : σ) :
    runAll (fs ++ gs) s = runAll gs (runAll fs s) := by
  simp only [runAll, List.foldl_append]

variable {fs : List (σ → σ)} {s : σ}

variable {I : σ → Prop} {R : σ → σ → Prop}

theorem runAll_keeps (hkeeps : ∀ f ∈ fs, ∀ s, I s → I (f s)) (h : I s) : I (runAll fs s) := by
  induction fs generalizing s with
  | nil => exact h
  | cons f fs ih =>
    apply ih (fun g hg => hkeeps g (List.mem_cons_of_mem _ hg))
    exact hkeeps f List.mem_cons_self s h

theorem each_append {gs : List (σ → σ)} :
    Each R (fs ++ gs) s ↔ Each R fs s ∧ Each R gs (runAll fs s) := by
  induction fs generalizing s with
  | nil => simp [Each]
  | cons f fs ih => simp only [List.cons_append, Each, ih, runAll_cons, and_assoc]

theorem each_of_keeps
    (hkeeps : ∀ f ∈ fs, ∀ s, I s → I (f s)) (hpass : ∀ f ∈ fs, ∀ s, I s → R s (f s))
    (h : I s) : Each R fs s := by
  induction fs generalizing s with
  | nil => trivial
  | cons f fs ih =>
    have hf := List.mem_cons_self (a := f) (l := fs)
    refine ⟨hpass f hf s h, ?_⟩
    apply ih (fun g hg => hkeeps g (List.mem_cons_of_mem _ hg))
      (fun g hg => hpass g (List.mem_cons_of_mem _ hg))
    exact hkeeps f hf s h

section InPlace

variable {κ α : Type*} [DecidableEq κ]

def inPlace (c : (κ → α) → κ → Bool) (f : α → α) (ks : List κ) (t : κ → α) : κ → α :=
  ks.foldl (fun t k => if c t k then Function.update t k (f (t k)) else t) t

theorem inPlace_apply {c : (κ → α) → κ → Bool} {f : α → α}
    (hc : ∀ t j k, c (Function.update t j (f (t j))) k = c t k) {ks : List κ} (hks : ks.Nodup)
    (t : κ → α) (k : κ) : inPlace c f ks t k = if k ∈ ks ∧ c t k then f (t k) else t k := by
  induction ks generalizing t with
  | nil => simp [inPlace]
  | cons j ks ih =>
    rw [List.nodup_cons] at hks
    have hrest := ih hks.2 (if c t j then Function.update t j (f (t j)) else t)
    have hsame : c (if c t j then Function.update t j (f (t j)) else t) k = c t k := by
      split_ifs
      · exact hc t j k
      · rfl
    rw [hsame] at hrest
    simp only [inPlace, List.foldl_cons] at hrest ⊢
    rw [hrest]
    by_cases hkj : k = j
    · subst k
      by_cases hcj : c t j <;> simp [hcj, hks.1]
    · by_cases hcj : c t j <;> simp [hcj, hkj]

end InPlace

end Passes
