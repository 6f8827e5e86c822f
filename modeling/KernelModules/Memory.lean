import Mathlib.Logic.Function.Basic
import Mathlib.Data.Nat.Notation

/-!
# Words in a memory

A memory gives a word for each address. A list of words is stored from an address on, and is read
back there as long as nothing is stored over it.
-/

namespace Memory

open Function

variable {α : Type*}

/-- The memory holds the words from `p` on. -/
def Holds (mem : ℕ → α) : ℕ → List α → Prop
  | _, [] => True
  | p, w :: ws => mem p = w ∧ Holds mem (p + 1) ws

def store (mem : ℕ → α) : ℕ → List α → ℕ → α
  | _, [] => mem
  | p, w :: ws => store (update mem p w) (p + 1) ws

variable {mem mem' : ℕ → α} {p q : ℕ} {a b ws : List α}

theorem holds_append : Holds mem p (a ++ b) ↔ Holds mem p a ∧ Holds mem (p + a.length) b := by
  induction a generalizing p with
  | nil => exact Iff.symm (and_iff_right trivial)
  | cons w a ih =>
    rw [List.cons_append, List.length_cons, Nat.add_comm a.length, ← Nat.add_assoc]
    change mem p = w ∧ Holds mem (p + 1) (a ++ b) ↔ (mem p = w ∧ Holds mem (p + 1) a) ∧ _
    rw [ih, and_assoc]

theorem store_of_lt (mem : ℕ → α) (ws : List α) (hq : q < p) : store mem p ws q = mem q := by
  induction ws generalizing mem p with
  | nil => rfl
  | cons w ws ih =>
    have hrest := ih (update mem p w) (Nat.lt_succ_of_lt hq)
    exact hrest.trans (update_of_ne (Nat.ne_of_lt hq) w mem)

theorem store_of_ge (mem : ℕ → α) (ws : List α) (hq : p + ws.length ≤ q) :
    store mem p ws q = mem q := by
  induction ws generalizing mem p with
  | nil => rfl
  | cons w ws ih =>
    rw [List.length_cons] at hq
    have hlater : p + 1 + ws.length ≤ q := by omega
    have hne : q ≠ p := by omega
    exact (ih (update mem p w) hlater).trans (update_of_ne hne w mem)

theorem holds_store (mem : ℕ → α) (p : ℕ) (ws : List α) : Holds (store mem p ws) p ws := by
  induction ws generalizing mem p with
  | nil => trivial
  | cons w ws ih =>
    have hkept := store_of_lt (update mem p w) ws (Nat.lt_succ_self p)
    exact ⟨hkept.trans (update_self p w mem), ih _ _⟩

theorem Holds.congr (h : Holds mem p ws) (hsame : ∀ q < p + ws.length, p ≤ q → mem' q = mem q) :
    Holds mem' p ws := by
  induction ws generalizing p with
  | nil => trivial
  | cons w ws ih =>
    rw [List.length_cons] at hsame
    refine ⟨(hsame p (by omega) (Nat.le_refl p)).trans h.1, ih h.2 fun q hq hle => ?_⟩
    exact hsame q (by omega) (by omega)

end Memory
