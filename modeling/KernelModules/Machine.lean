import Mathlib.Data.List.Induction

/-!
# Machines driven by a list of inputs

A machine takes one input at a time, moves to a new state and emits outputs. Runs are lists of
inputs. An invariant is proved for one step and carried along a run, either for every input or
for the runs each of whose steps meets a condition on the state and the input.

A monitor runs beside a machine: it sees every step and changes nothing, so that a property of
the past can be stated as a property of the pair.
-/

/-- A deterministic machine. Everything the environment decides is part of the input. -/
structure Machine (σ ι ο : Type*) where
  step : σ → ι → σ × List ο

namespace Machine

variable {σ ι ο γ : Type*} (M : Machine σ ι ο)

def run : σ → List ι → σ × List ο
  | s, [] => (s, [])
  | s, i :: is => ((run (M.step s i).1 is).1, (M.step s i).2 ++ (run (M.step s i).1 is).2)

/-- Each step of the run meets `C` in the state it is taken from. -/
def Meets (C : σ → ι → Prop) : σ → List ι → Prop
  | _, [] => True
  | s, i :: is => C s i ∧ Meets C (M.step s i).1 is

@[simp] theorem run_nil (s : σ) : M.run s [] = (s, []) := rfl

theorem run_cons (s : σ) (i : ι) (is : List ι) :
    M.run s (i :: is) =
      ((M.run (M.step s i).1 is).1, (M.step s i).2 ++ (M.run (M.step s i).1 is).2) := rfl

@[simp] theorem meets_nil (C : σ → ι → Prop) (s : σ) : M.Meets C s [] := trivial

@[simp] theorem meets_cons (C : σ → ι → Prop) (s : σ) (i : ι) (is : List ι) :
    M.Meets C s (i :: is) ↔ C s i ∧ M.Meets C (M.step s i).1 is := Iff.rfl

instance decidableMeets (C : σ → ι → Prop) [∀ s i, Decidable (C s i)] :
    ∀ s is, Decidable (M.Meets C s is)
  | _, [] => isTrue trivial
  | s, i :: is =>
    have := decidableMeets C (M.step s i).1 is
    inferInstanceAs (Decidable (C s i ∧ M.Meets C (M.step s i).1 is))

theorem run_append (s : σ) (is js : List ι) :
    M.run s (is ++ js) =
      ((M.run (M.run s is).1 js).1, (M.run s is).2 ++ (M.run (M.run s is).1 js).2) := by
  induction is generalizing s with
  | nil => rfl
  | cons i is ih => simp only [List.cons_append, run_cons, ih, List.append_assoc]

theorem run_concat (s : σ) (is : List ι) (i : ι) :
    M.run s (is ++ [i]) =
      ((M.step (M.run s is).1 i).1, (M.run s is).2 ++ (M.step (M.run s is).1 i).2) := by
  rw [run_append, run_cons]
  simp only [run_nil, List.append_nil]

theorem meets_append (C : σ → ι → Prop) (s : σ) (is js : List ι) :
    M.Meets C s (is ++ js) ↔ M.Meets C s is ∧ M.Meets C (M.run s is).1 js := by
  induction is generalizing s with
  | nil => simp
  | cons i is ih => simp only [List.cons_append, meets_cons, ih, run_cons, and_assoc]

variable {D : σ → ι → Prop} {s : σ} {is : List ι}
variable {C : σ → ι → Prop} {I : σ → Prop}

theorem Meets.mono (h : ∀ s i, C s i → D s i) (hm : M.Meets C s is) : M.Meets D s is := by
  induction is generalizing s with
  | nil => trivial
  | cons i is ih => exact ⟨h s i hm.1, ih hm.2⟩

theorem Meets.and (hc : M.Meets C s is)
    (hd : M.Meets D s is) : M.Meets (fun s i => C s i ∧ D s i) s is := by
  induction is generalizing s with
  | nil => trivial
  | cons i is ih => exact ⟨⟨hc.1, hd.1⟩, ih hc.2 hd.2⟩

theorem meets_of_forall {P : ι → Prop} (s : σ) (h : ∀ i ∈ is, P i) :
    M.Meets (fun _ i => P i) s is := by
  induction is generalizing s with
  | nil => trivial
  | cons i is ih =>
    exact ⟨h i List.mem_cons_self, ih _ fun j hj => h j (List.mem_cons_of_mem _ hj)⟩

theorem invariant_of_meets
    (hstep : ∀ s i, I s → C s i → I (M.step s i).1)
    (hs : I s) (hm : M.Meets C s is) : I (M.run s is).1 := by
  induction is generalizing s with
  | nil => exact hs
  | cons i is ih => exact ih (hstep s i hs hm.1) hm.2

theorem history_of_meets {I : List ι → List ο → σ → Prop}
    (hstep : ∀ is os s i, I is os s → C s i → I (is ++ [i]) (os ++ (M.step s i).2) (M.step s i).1)
    (hs : I [] [] s) (hm : M.Meets C s is) :
    I is (M.run s is).2 (M.run s is).1 := by
  induction is using List.reverseRecOn with
  | nil => exact hs
  | append_singleton is i ih =>
    rw [meets_append] at hm
    rw [run_concat]
    exact hstep _ _ _ i (ih hm.1) hm.2.1

theorem invariant (hstep : ∀ s i, I s → I (M.step s i).1)
    (is : List ι) (hs : I s) : I (M.run s is).1 := by
  induction is generalizing s with
  | nil => exact hs
  | cons i is ih => exact ih (hstep s i hs)

theorem meets_of_invariant
    (hstep : ∀ s i, I s → C s i → I (M.step s i).1) (hd : ∀ s i, I s → C s i → D s i) (hs : I s)
    (hm : M.Meets C s is) : M.Meets D s is := by
  induction is generalizing s with
  | nil => trivial
  | cons i is ih => exact ⟨hd s i hs hm.1, ih (hstep s i hs hm.1) hm.2⟩

theorem fifo_of_meets {β : Type*} {I : List β → σ → Prop}
    (ins outs : ο → Option β)
    (hstep : ∀ s i held, I held s → C s i → ∃ held', I held' (M.step s i).1 ∧
      held ++ (M.step s i).2.filterMap ins = (M.step s i).2.filterMap outs ++ held')
    {held : List β} (hs : I held s) (hm : M.Meets C s is) :
    ∃ held', I held' (M.run s is).1 ∧
      held ++ (M.run s is).2.filterMap ins = (M.run s is).2.filterMap outs ++ held' := by
  induction is generalizing s held with
  | nil => exact ⟨held, hs, List.append_nil held⟩
  | cons i is ih =>
    obtain ⟨held₁, hs₁, heq₁⟩ := hstep s i held hs hm.1
    obtain ⟨held₂, hs₂, heq₂⟩ := ih hs₁ hm.2
    refine ⟨held₂, hs₂, ?_⟩
    rw [run_cons, List.filterMap_append, List.filterMap_append, ← List.append_assoc, heq₁,
      List.append_assoc, heq₂, List.append_assoc]

/-- Some step of the run is a `P`. -/
def Occurs (P : σ → ι → Prop) : σ → List ι → Prop
  | _, [] => False
  | s, i :: is => P s i ∨ Occurs P (M.step s i).1 is

/-- How many steps of the run are a `D`. -/
def count (D : σ → ι → Prop) [∀ s i, Decidable (D s i)] : σ → List ι → ℕ
  | _, [] => 0
  | s, i :: is => count D (M.step s i).1 is + if D s i then 1 else 0

/-- A measure that no step raises and every `D` lowers runs out, unless a `P` comes first. -/
theorem occurs_of_count {P : σ → ι → Prop} [∀ s i, Decidable (D s i)] (μ : σ → ℕ)
    (hstep : ∀ s i, I s → C s i → P s i ∨
      (I (M.step s i).1 ∧ μ (M.step s i).1 + (if D s i then 1 else 0) ≤ μ s))
    (hpos : ∀ s, I s → 0 < μ s) (hs : I s) (hm : M.Meets C s is) (hle : μ s ≤ M.count D s is) :
    M.Occurs P s is := by
  induction is generalizing s with
  | nil => exact absurd hle (Nat.not_le.mpr (hpos s hs))
  | cons i is ih =>
    rcases hstep s i hs hm.1 with hp | ⟨hs', hμ⟩
    · exact .inl hp
    · refine .inr (ih hs' hm.2 ?_)
      rw [count] at hle
      omega

def trace : σ → List ι → List (List ο)
  | _, [] => []
  | s, i :: is => (M.step s i).2 :: trace (M.step s i).1 is

theorem trace_cons (s : σ) (i : ι) (is : List ι) :
    M.trace s (i :: is) = (M.step s i).2 :: M.trace (M.step s i).1 is := rfl

theorem trace_eq_of_simulation {α : Type*} {obs : List ο → α} {C : ι → Prop} {R : σ → σ → Prop}
    (hstep : ∀ s t i, R s t → C i →
      R (M.step s i).1 (M.step t i).1 ∧ obs (M.step t i).2 = obs (M.step s i).2)
    {t : σ} (hr : R s t) (hc : ∀ i ∈ is, C i) :
    (M.trace t is).map obs = (M.trace s is).map obs := by
  induction is generalizing s t with
  | nil => rfl
  | cons i is ih =>
    obtain ⟨hr', ho⟩ := hstep s t i hr (hc i List.mem_cons_self)
    have htail := ih hr' fun j hj => hc j (List.mem_cons_of_mem _ hj)
    rw [trace_cons, trace_cons, List.map_cons, List.map_cons, ho, htail]

def monitored (upd : γ → σ → ι → σ × List ο → γ) : Machine (σ × γ) ι ο where
  step p i := (((M.step p.1 i).1, upd p.2 p.1 i (M.step p.1 i)), (M.step p.1 i).2)

@[simp] theorem monitored_step (upd : γ → σ → ι → σ × List ο → γ) (p : σ × γ) (i : ι) :
    (M.monitored upd).step p i =
      (((M.step p.1 i).1, upd p.2 p.1 i (M.step p.1 i)), (M.step p.1 i).2) := rfl

theorem monitored_run (upd : γ → σ → ι → σ × List ο → γ) (p : σ × γ) (is : List ι) :
    ((M.monitored upd).run p is).1.1 = (M.run p.1 is).1 ∧
      ((M.monitored upd).run p is).2 = (M.run p.1 is).2 := by
  induction is generalizing p with
  | nil => exact ⟨rfl, rfl⟩
  | cons i is ih =>
    obtain ⟨hs, ho⟩ := ih ((M.monitored upd).step p i).1
    exact ⟨hs, congrArg ((M.step p.1 i).2 ++ ·) ho⟩

theorem monitored_meets (upd : γ → σ → ι → σ × List ο → γ) (C : σ → ι → Prop) (p : σ × γ)
    (is : List ι) :
    (M.monitored upd).Meets (fun p i => C p.1 i) p is ↔ M.Meets C p.1 is := by
  induction is generalizing p with
  | nil => exact Iff.rfl
  | cons i is ih =>
    rw [meets_cons, meets_cons, ih]
    exact Iff.rfl

end Machine
