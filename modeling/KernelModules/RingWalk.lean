import Mathlib.Tactic

/-!
# Walks around a ring

A ring has a power of two places, and a step goes to the next place through a mask. A walk visits
the place it starts from, and goes on until it comes to the place it must not visit; when that is
where it started, it goes all the way around.
-/

namespace RingWalk

variable {σ : Type*} {k mask idx first last n : ℕ}

/-- The loop over the places from one on, up to the one that ends it; nothing when that is not
reached in as many steps. -/
def whileNe (mask last : ℕ) (body : σ → ℕ → Option σ) : ℕ → ℕ → σ → Option σ
  | 0, idx, s => if idx = last then some s else none
  | n + 1, idx, s =>
    if idx = last then some s
    else (body s idx).bind (whileNe mask last body n ((idx + 1) &&& mask))

def distance (size idx last : ℕ) : ℕ :=
  if idx ≤ last then last - idx else last + size - idx

def places (size first last : ℕ) : List ℕ :=
  (List.range (if first = last then size else distance size first last)).map
    fun i => (first + i) % size

theorem and_mask (hmask : mask + 1 = 2 ^ k) (i : ℕ) : i &&& mask = i % (mask + 1) := by
  obtain rfl : mask = 2 ^ k - 1 := by omega
  rw [Nat.and_two_pow_sub_one_eq_mod, hmask]

theorem and_mask_le (hmask : mask + 1 = 2 ^ k) (i : ℕ) : i &&& mask ≤ mask := by
  rw [and_mask hmask]
  exact Nat.le_of_lt_succ (Nat.mod_lt _ (Nat.succ_pos mask))

theorem add_mod_of_lt {size i j : ℕ} (hi : i < size) (hj : j < size) :
    (i + j) % size = if i + j < size then i + j else i + j - size := by
  split_ifs with h
  · exact Nat.mod_eq_of_lt h
  · rw [Nat.mod_eq_sub_mod (by omega)]
    exact Nat.mod_eq_of_lt (by omega)

theorem map_range_succ (hmask : mask + 1 = 2 ^ k) (hidx : idx ≤ mask) (d : ℕ) :
    ((List.range (d + 1)).map fun i => (idx + i) % (mask + 1)) =
      idx :: (List.range d).map fun i => (((idx + 1) &&& mask) + i) % (mask + 1) := by
  have hlt : idx < mask + 1 := Nat.lt_succ_of_le hidx
  rw [List.range_succ_eq_map, List.map_cons, List.map_map, Nat.add_zero, Nat.mod_eq_of_lt hlt,
    and_mask hmask]
  congr 2
  funext i
  rw [Nat.mod_add_mod]
  change (idx + (i + 1)) % (mask + 1) = (idx + 1 + i) % (mask + 1)
  congr 1
  omega

theorem whileNe_eq (hmask : mask + 1 = 2 ^ k) (body : σ → ℕ → Option σ) (hlast : last ≤ mask)
    (hidx : idx ≤ mask) (hn : distance (mask + 1) idx last ≤ n) (s : σ) :
    whileNe mask last body n idx s =
      ((List.range (distance (mask + 1) idx last)).map fun i => (idx + i) % (mask + 1)).foldlM
        body s := by
  induction n generalizing idx s with
  | zero =>
    have heq : idx = last := by
      unfold distance at hn
      split_ifs at hn <;> omega
    have hzero : distance (mask + 1) idx last = 0 := Nat.le_zero.mp hn
    rw [whileNe, if_pos heq, hzero]
    rfl
  | succ n ih =>
    rw [whileNe]
    by_cases heq : idx = last
    · have hzero : distance (mask + 1) idx last = 0 := by
        unfold distance
        split_ifs <;> omega
      rw [if_pos heq, hzero]
      rfl
    · have hstep : (idx + 1) &&& mask = if idx = mask then 0 else idx + 1 := by
        rw [and_mask hmask]
        split_ifs with h
        · rw [h, Nat.mod_self]
        · exact Nat.mod_eq_of_lt (by omega)
      have hle : (idx + 1) &&& mask ≤ mask := and_mask_le hmask _
      have hdist : distance (mask + 1) idx last =
          distance (mask + 1) ((idx + 1) &&& mask) last + 1 := by
        rw [hstep]
        unfold distance
        split_ifs <;> omega
      rw [if_neg heq, hdist, map_range_succ hmask hidx, List.foldlM_cons]
      change (body s idx).bind _ = (body s idx).bind _
      congr 1
      funext t
      exact ih hle (by omega) t

theorem places_cons (hmask : mask + 1 = 2 ^ k) (hfirst : first ≤ mask) (hlast : last ≤ mask) :
    places (mask + 1) first last = first ::
      (List.range (distance (mask + 1) ((first + 1) &&& mask) last)).map
        fun i => (((first + 1) &&& mask) + i) % (mask + 1) := by
  have hstep : (first + 1) &&& mask = if first = mask then 0 else first + 1 := by
    rw [and_mask hmask]
    split_ifs with h
    · rw [h, Nat.mod_self]
    · exact Nat.mod_eq_of_lt (by omega)
  have hcount : (if first = last then mask + 1 else distance (mask + 1) first last) =
      distance (mask + 1) ((first + 1) &&& mask) last + 1 := by
    rw [hstep]
    unfold distance
    split_ifs <;> omega
  rw [places, hcount, map_range_succ hmask hfirst]

theorem whileNe_next_eq (hmask : mask + 1 = 2 ^ k) (body : σ → ℕ → Option σ)
    (hfirst : first ≤ mask) (hlast : last ≤ mask) (s : σ) :
    whileNe mask last body mask ((first + 1) &&& mask) s =
      (places (mask + 1) first last).tail.foldlM body s := by
  have hle : (first + 1) &&& mask ≤ mask := and_mask_le hmask _
  have hfuel : distance (mask + 1) ((first + 1) &&& mask) last ≤ mask := by
    unfold distance
    split_ifs with h
    · omega
    · have hnext : (first + 1) &&& mask ≤ mask := hle
      omega
  rw [places_cons hmask hfirst hlast, List.tail_cons]
  exact whileNe_eq hmask body hlast hle hfuel s

theorem doWhile_eq (hmask : mask + 1 = 2 ^ k) (body : σ → ℕ → Option σ) (hfirst : first ≤ mask)
    (hlast : last ≤ mask) (s : σ) :
    (body s first).bind (whileNe mask last body mask ((first + 1) &&& mask)) =
      (places (mask + 1) first last).foldlM body s := by
  have hrest := fun t => whileNe_next_eq hmask body hfirst hlast t
  rw [places_cons hmask hfirst hlast, List.tail_cons] at hrest
  rw [places_cons hmask hfirst hlast, List.foldlM_cons]
  change (body s first).bind _ = (body s first).bind _
  congr 1
  funext t
  exact hrest t

theorem lt_of_mem_places {size i : ℕ} (hsize : 0 < size) (h : i ∈ places size first last) :
    i < size := by
  obtain ⟨j, -, rfl⟩ := List.mem_map.mp h
  exact Nat.mod_lt _ hsize

theorem nodup_places {size : ℕ} (hfirst : first < size) (hlast : last < size) :
    (places size first last).Nodup := by
  have hcount : (if first = last then size else distance size first last) ≤ size := by
    unfold distance
    split_ifs <;> omega
  apply List.Nodup.map_on _ List.nodup_range
  intro i hi j hj hij
  rw [List.mem_range] at hi hj
  rw [add_mod_of_lt hfirst (by omega), add_mod_of_lt hfirst (by omega)] at hij
  split_ifs at hij <;> omega

end RingWalk
