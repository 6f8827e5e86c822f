import Mathlib.Data.Nat.Basic

/-!
# A word as a set of small numbers

A bitmap says of each index below the width of the word whether it is in the set. An index is
put in, taken out and tested with the word that has only its bit.
-/

namespace Bitmap

variable {w : ℕ}

def bit (w i : ℕ) : BitVec w := 1#w <<< i

def Shows (b : BitVec w) (P : ℕ → Prop) : Prop := ∀ i, b.getLsbD i = true ↔ P i

theorem getLsbD_bit (i j : ℕ) : (bit w i).getLsbD j = (decide (i < w) && decide (i = j)) := by
  rw [bit, ← BitVec.twoPow_eq, BitVec.getLsbD_twoPow]

theorem and_bit_eq_zero {b : BitVec w} {i : ℕ} : b &&& bit w i = 0 ↔ b.getLsbD i = false := by
  constructor
  · intro h
    have hi := congrArg (fun x => x.getLsbD i) h
    simp only [BitVec.getLsbD_and, getLsbD_bit, BitVec.ofNat_eq_ofNat, BitVec.getLsbD_zero] at hi
    by_cases hw : i < w
    · simpa [hw] using hi
    · exact BitVec.getLsbD_of_ge _ _ (by omega)
  · intro h
    apply BitVec.eq_of_getLsbD_eq
    intro j hj
    simp only [BitVec.getLsbD_and, getLsbD_bit, BitVec.ofNat_eq_ofNat, BitVec.getLsbD_zero]
    by_cases hij : i = j
    · subst j
      rw [h, Bool.false_and]
    · simp [hij]

namespace Shows

variable {b : BitVec w} {P Q : ℕ → Prop}

theorem zero (h : ∀ i, ¬P i) : Shows (0 : BitVec w) P := by
  intro i
  simp [h i]

theorem eq_zero_iff (h : Shows b P) : b = 0 ↔ ∀ i, ¬P i := by
  constructor
  · intro hb i hi
    have := (h i).mpr hi
    simp [hb] at this
  · intro hP
    apply BitVec.eq_of_getLsbD_eq
    intro i _
    have hi : b.getLsbD i ≠ true := fun hb => hP i ((h i).mp hb)
    simpa using hi

theorem and_bit_eq_zero_iff (h : Shows b P) (i : ℕ) : b &&& bit w i = 0 ↔ ¬P i := by
  rw [and_bit_eq_zero, ← h i, Bool.not_eq_true]

theorem congr (h : Shows b P) (hPQ : ∀ i, P i ↔ Q i) : Shows b Q :=
  fun i => (h i).trans (hPQ i)

theorem or_bit (h : Shows b P) {i : ℕ} (hi : i < w) : Shows (b ||| bit w i) fun j => j = i ∨ P j := by
  intro j
  rw [BitVec.getLsbD_or, getLsbD_bit, Bool.or_eq_true, h j]
  simp only [hi, decide_true, Bool.true_and, decide_eq_true_eq]
  rw [or_comm, eq_comm]

theorem xor_bit (h : Shows b P) {i : ℕ} (hi : i < w) :
    Shows (b ^^^ bit w i) fun j => if j = i then ¬P j else P j := by
  intro j
  rw [BitVec.getLsbD_xor, getLsbD_bit]
  by_cases hij : i = j
  · subst j
    simp [hi, ← h i]
  · simp [hi, hij, Ne.symm hij, h j]

theorem and_not_bit (h : Shows b P) (i : ℕ) : Shows (b &&& ~~~bit w i) fun j => j ≠ i ∧ P j := by
  intro j
  rw [BitVec.getLsbD_and, BitVec.getLsbD_not, getLsbD_bit, Bool.and_eq_true, h j]
  by_cases hj : j < w
  · by_cases hij : i = j
    · subst j
      simp [hj]
    · simp [hj, hij, Ne.symm hij]
  · have hP : ¬P j := by
      rw [← h j, BitVec.getLsbD_of_ge _ _ (by omega)]
      exact Bool.false_ne_true
    simp [hP]

end Shows

end Bitmap
