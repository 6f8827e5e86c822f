import Mathlib.Algebra.GroupWithZero.Divisibility
import Mathlib.Data.List.Basic

/-!
# Filling batches of one capacity in order

Items come in order. Each goes behind the one before it if the batch has room for it, and else at
the start of a new batch. An item that is longer than the capacity has a batch to itself.

If positions have to be multiples of some number, an item whose weight is no multiple of it has to
be the last of its batch, and this is all that is needed.
-/

namespace Packing

variable {α : Type*} (w : α → ℕ) (capacity : ℕ)

def start (used : ℕ) (x : α) : ℕ := if used + w x ≤ capacity then used else 0

def place : ℕ → List α → List (ℕ × α)
  | _, [] => []
  | used, x :: xs => (start w capacity used x, x) :: place (start w capacity used x + w x) xs

def fill : ℕ → List α → ℕ
  | used, [] => used
  | used, x :: xs => fill (start w capacity used x + w x) xs

/-- An item whose weight is no multiple of `d` has no item behind it in its batch. -/
def RaggedLast (d : ℕ) : ℕ → List α → Prop
  | used, x :: y :: rest =>
    (¬d ∣ w x → capacity < start w capacity used x + w x + w y) ∧
      RaggedLast d (start w capacity used x + w x) (y :: rest)
  | _, _ => True

variable {w capacity}

variable {used : ℕ} {x : α} {d : ℕ}

theorem start_of_lt (h : capacity < used + w x) :
    start w capacity used x = 0 := if_neg (Nat.not_le_of_lt h)

theorem start_of_le (h : used + w x ≤ capacity) : start w capacity used x = used := if_pos h

@[simp] theorem start_zero (x : α) : start w capacity 0 x = 0 := ite_self 0

theorem dvd_start (h : d ∣ used) (x : α) : d ∣ start w capacity used x := by
  unfold start
  split_ifs
  · exact h
  · exact Nat.dvd_zero d

theorem place_append (used : ℕ) (xs ys : List α) :
    place w capacity used (xs ++ ys) =
      place w capacity used xs ++ place w capacity (fill w capacity used xs) ys := by
  induction xs generalizing used with
  | nil => rfl
  | cons x xs ih => rw [List.cons_append, place, ih, place, fill, List.cons_append]

theorem place_concat (used : ℕ) (xs : List α) (x : α) :
    place w capacity used (xs ++ [x]) =
      place w capacity used xs ++ [(start w capacity (fill w capacity used xs) x, x)] :=
  place_append used xs [x]

theorem fill_concat (used : ℕ) (xs : List α) (x : α) :
    fill w capacity used (xs ++ [x]) =
      start w capacity (fill w capacity used xs) x + w x := by
  induction xs generalizing used with
  | nil => rfl
  | cons y ys ih => rw [List.cons_append, fill, ih, fill]

theorem map_snd_place (used : ℕ) (xs : List α) : (place w capacity used xs).map Prod.snd = xs := by
  induction xs generalizing used with
  | nil => rfl
  | cons x xs ih => rw [place, List.map_cons, ih]

theorem place_of_lt (xs : List α) (h : capacity < used + w x) :
    place w capacity used (x :: xs) = place w capacity 0 (x :: xs) := by
  rw [place, place, start_of_lt h, start_zero]

theorem raggedLast_of_lt (xs : List α) (h : capacity < used + w x) :
    RaggedLast w capacity d used (x :: xs) ↔ RaggedLast w capacity d 0 (x :: xs) := by
  cases xs with
  | nil => exact Iff.rfl
  | cons y rest => rw [RaggedLast, RaggedLast, start_of_lt h, start_zero]

theorem dvd_place_iff (hused : d ∣ used) (xs : List α) :
    (∀ item ∈ place w capacity used xs, d ∣ item.1) ↔ RaggedLast w capacity d used xs := by
  induction xs generalizing used with
  | nil => simp [place, RaggedLast]
  | cons x xs ih =>
    have hstart : d ∣ start w capacity used x := dvd_start hused x
    rw [place, List.forall_mem_cons]
    cases xs with
    | nil => simp [place, RaggedLast, hstart]
    | cons y rest =>
      rw [RaggedLast, and_iff_right hstart]
      by_cases hx : d ∣ w x
      · rw [ih (Nat.dvd_add hstart hx), and_iff_right (fun h => absurd hx h)]
      · have hend : ¬d ∣ start w capacity used x + w x :=
          fun h => hx ((Nat.dvd_add_right hstart).mp h)
        by_cases hfit : start w capacity used x + w x + w y ≤ capacity
        · constructor
          · intro h
            refine absurd (h _ List.mem_cons_self) ?_
            rw [start_of_le hfit]
            exact hend
          · intro h
            exact absurd (h.1 hx) (Nat.not_lt_of_le hfit)
        · have hfit := Nat.lt_of_not_le hfit
          rw [place_of_lt rest hfit, raggedLast_of_lt rest hfit, ih (Nat.dvd_zero d),
            and_iff_right (fun _ => hfit)]

theorem raggedLast_of_append (hused : d ∣ used) {xs ys : List α}
    (h : RaggedLast w capacity d used (xs ++ ys)) : RaggedLast w capacity d used xs := by
  rw [← dvd_place_iff hused, place_append] at h
  exact (dvd_place_iff hused xs).mp fun item hitem => h item (List.mem_append_left _ hitem)

theorem raggedLast_concat (hused : d ∣ used) {xs : List α}
    (h : RaggedLast w capacity d used xs) (hover : capacity < fill w capacity used xs + w x) :
    RaggedLast w capacity d used (xs ++ [x]) := by
  rw [← dvd_place_iff hused] at h ⊢
  rw [place_concat, start_of_lt hover]
  intro item hitem
  rcases List.mem_append.mp hitem with hold | hnew
  · exact h item hold
  · rw [List.mem_singleton.mp hnew]
    exact Nat.dvd_zero d

end Packing
