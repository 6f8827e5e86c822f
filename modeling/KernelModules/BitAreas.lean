import Mathlib.Tactic

/-!
# Areas of a bit map

A bit map says of each bit whether it is set, and runs of bits are set and cleared as a whole. A map
is tiled by the runs of some owners when these are pairwise apart and the set bits are the ones they
cover. An owner whose run is clear may then join, and an owner may leave with its run.

An area is a run of clear bits that starts at a multiple of an alignment. A search is known by what
it finds: the first area, or something past the map when there is none.
-/

namespace BitAreas

abbrev BitMap := ℕ → Bool

structure Run where
  start : ℕ
  count : ℕ

namespace Run

def Has (r : Run) (i : ℕ) : Prop := r.start ≤ i ∧ i < r.start + r.count
deriving Decidable

def Apart (r r' : Run) : Prop := ∀ i, r.Has i → ¬r'.Has i

theorem Apart.symm {r r' : Run} (h : Apart r r') : Apart r' r := fun i hi' hi => h i hi hi'

end Run

def set (m : BitMap) (r : Run) : BitMap := fun i => if r.Has i then true else m i

def clear (m : BitMap) (r : Run) : BitMap := fun i => if r.Has i then false else m i

variable {r : Run} {i : ℕ}
variable {m : BitMap}

theorem set_eq_true_iff : set m r i = true ↔ r.Has i ∨ m i = true := by
  unfold set
  split_ifs with hi
  · exact iff_of_true rfl (Or.inl hi)
  · exact (or_iff_right hi).symm

theorem clear_eq_false_iff : clear m r i = false ↔ m i = false ∨ r.Has i := by
  unfold clear
  split_ifs with hi
  · exact iff_of_true rfl (Or.inr hi)
  · exact (or_iff_left hi).symm

theorem clear_eq_true_iff : clear m r i = true ↔ m i = true ∧ ¬r.Has i := by
  rw [← Bool.not_eq_false, clear_eq_false_iff, not_or, Bool.not_eq_false]

variable {α : Type*}

structure Tiled (run : α → Run) (m : BitMap) (owners : List α) : Prop where
  apart : owners.Pairwise fun a b => (run a).Apart (run b)
  covers : ∀ i, m i = true ↔ ∃ a ∈ owners, (run a).Has i

namespace Tiled

variable {run : α → Run} {m : BitMap} {owners : List α} {a : α}

theorem nil (run : α → Run) : Tiled run (fun _ => false) [] where
  apart := .nil
  covers i := by simp

theorem clear_iff (h : Tiled run m owners) {i : ℕ} :
    m i = false ↔ ∀ a ∈ owners, ¬(run a).Has i := by
  rw [← Bool.not_eq_true, h.covers]
  simp only [not_exists, not_and]

theorem join (h : Tiled run m owners) (hclear : ∀ i, (run a).Has i → m i = false) :
    Tiled run (set m (run a)) (a :: owners) where
  apart := List.pairwise_cons.mpr
    ⟨fun b hb i hi => h.clear_iff.mp (hclear i hi) b hb, h.apart⟩
  covers i := by
    rw [set_eq_true_iff, h.covers]
    simp only [List.mem_cons, exists_eq_or_imp]

theorem leave [DecidableEq α] (h : Tiled run m owners) (ha : a ∈ owners) :
    Tiled run (clear m (run a)) (owners.erase a) := by
  have hperm := List.perm_cons_erase ha
  obtain ⟨hothers, hrest⟩ := List.pairwise_cons.mp
    ((hperm.pairwise_iff fun hab => Run.Apart.symm hab).mp h.apart)
  refine ⟨hrest, fun i => ?_⟩
  rw [clear_eq_true_iff, h.covers]
  constructor
  · rintro ⟨⟨b, hb, hi⟩, hnot⟩
    rcases List.mem_cons.mp (hperm.mem_iff.mp hb) with rfl | hb
    · exact absurd hi hnot
    · exact ⟨b, hb, hi⟩
  · rintro ⟨b, hb, hi⟩
    exact ⟨⟨b, List.mem_of_mem_erase hb, hi⟩, fun hi' => hothers b hb i hi' hi⟩

end Tiled

structure Area (m : BitMap) (size nr align start : ℕ) : Prop where
  aligned : align ∣ start
  inside : start + nr ≤ size
  clear : ∀ i, (Run.mk start nr).Has i → m i = false

/-- What a search for an area does, whose mask is one less than a power of two. -/
structure Search (find : BitMap → (size start nr mask : ℕ) → ℕ) : Prop where
  area : ∀ m size nr k, 0 < nr → find m size 0 nr (2 ^ k - 1) ≤ size →
    Area m size nr (2 ^ k) (find m size 0 nr (2 ^ k - 1))
  first : ∀ m size nr k start, 0 < nr → Area m size nr (2 ^ k) start →
    find m size 0 nr (2 ^ k - 1) ≤ start
  bound : ∀ m size nr k, 0 < nr → find m size 0 nr (2 ^ k - 1) ≤ size + (2 ^ k - 1) + nr

theorem Area.mono {size size' nr align start : ℕ} (h : Area m size nr align start)
    (hsize : size ≤ size') : Area m size' nr align start :=
  ⟨h.aligned, h.inside.trans hsize, h.clear⟩

instance (m : BitMap) (size nr align start : ℕ) : Decidable (Area m size nr align start) :=
  decidable_of_iff (align ∣ start ∧ start + nr ≤ size ∧
      ∀ i < start + nr, start ≤ i → m i = false)
    ⟨fun ⟨haligned, hinside, hclear⟩ => ⟨haligned, hinside, fun i hi => hclear i hi.2 hi.1⟩,
      fun h => ⟨h.aligned, h.inside, fun i hi hstart => h.clear i ⟨hstart, hi⟩⟩⟩

def firstArea (m : BitMap) (size start nr mask : ℕ) : ℕ :=
  ((List.range (size + 1)).find? fun i => start ≤ i ∧ Area m size nr (mask + 1) i).getD (size + nr)

theorem firstArea_cases (m : BitMap) (size nr k : ℕ) :
    Area m size nr (2 ^ k) (firstArea m size 0 nr (2 ^ k - 1)) ∧
        (∀ i, Area m size nr (2 ^ k) i → firstArea m size 0 nr (2 ^ k - 1) ≤ i) ∨
      firstArea m size 0 nr (2 ^ k - 1) = size + nr ∧ ∀ i, ¬Area m size nr (2 ^ k) i := by
  have hmask : 2 ^ k - 1 + 1 = 2 ^ k := Nat.sub_add_cancel (Nat.one_le_two_pow)
  unfold firstArea
  rw [hmask]
  cases hfind : (List.range (size + 1)).find? fun i => 0 ≤ i ∧ Area m size nr (2 ^ k) i with
  | some i =>
    obtain ⟨harea, -, hbefore⟩ := List.find?_range_eq_some.mp hfind
    refine .inl ⟨(of_decide_eq_true harea).2, fun j hj => not_lt.mp fun hlt => ?_⟩
    have hnot := hbefore j hlt
    rw [decide_eq_true (And.intro (Nat.zero_le j) hj)] at hnot
    exact Bool.false_ne_true hnot
  | none =>
    refine .inr ⟨rfl, fun j hj => ?_⟩
    have hnot := List.find?_range_eq_none.mp hfind j
      (Nat.lt_succ_of_le ((Nat.le_add_right j nr).trans hj.inside))
    rw [decide_eq_true (And.intro (Nat.zero_le j) hj)] at hnot
    exact Bool.false_ne_true hnot

theorem search_firstArea : Search fun m size start nr mask => firstArea m size start nr mask where
  area m size nr k hnr hfound := by
    rcases firstArea_cases m size nr k with ⟨harea, -⟩ | ⟨hnone, -⟩
    · exact harea
    · omega
  first m size nr k i _ hi := by
    rcases firstArea_cases m size nr k with ⟨-, hfirst⟩ | ⟨-, hnone⟩
    · exact hfirst i hi
    · exact absurd hi (hnone i)
  bound m size nr k _ := by
    rcases firstArea_cases m size nr k with ⟨harea, -⟩ | ⟨hnone, -⟩
    · have hinside := harea.inside
      omega
    · omega

end BitAreas
