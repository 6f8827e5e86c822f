import Mathlib.Data.UInt

/-!
# A ring of cells between two indices

A ring of `n` cells holds the list of the cells from its read index up to its write index. A
writer copies at the write index and moves it, a reader copies at the read index and moves it,
each in two parts when the end of the ring is reached. One cell at least stays free, so that
equal indices mean an empty ring.

The last part is for code that keeps indices and lengths in 32 bits and copies words by bytes.
-/

namespace WordRing

variable {α : Type*}

/-- `len` cells from `off` on. -/
def cells (mem : ℕ → α) (off len : ℕ) : List α := (List.range len).map fun k => mem (off + k)

/-- `memcpy` of `len` cells of `src` to `off`. -/
def copy (mem : ℕ → α) (off : ℕ) (src : ℕ → α) (len : ℕ) : ℕ → α := fun k =>
  if off ≤ k ∧ k < off + len then src (k - off) else mem k

def wrap (n i : ℕ) : ℕ := if i < n then i else i - n

def put (mem : ℕ → α) (n w : ℕ) (src : ℕ → α) (len : ℕ) : ℕ → α :=
  if w + len < n then copy mem w src len
  else copy (copy mem w src (n - w)) 0 (fun k => src (n - w + k)) (w + len - n)

def get (mem : ℕ → α) (n r len : ℕ) : List α :=
  if r + len < n then cells mem r len else cells mem r (n - r) ++ cells mem 0 (r + len - n)

def free (n r w : ℕ) : ℕ := if r ≤ w then n - (w - r) else r - w

@[simp] theorem length_cells (mem : ℕ → α) (off len : ℕ) : (cells mem off len).length = len := by
  simp [cells]

theorem getElem?_cells (mem : ℕ → α) (off len k : ℕ) :
    (cells mem off len)[k]? = if k < len then some (mem (off + k)) else none := by
  by_cases hk : k < len
  · simp [cells, hk]
  · simp [cells, hk]

variable {i k : ℕ} {src : ℕ → α}
variable {n len : ℕ} {mem : ℕ → α}

theorem wrap_lt (hi : i < n + n) : wrap n i < n := by
  unfold wrap
  split <;> omega

theorem wrap_of_lt (hi : i < n) : wrap n i = i := if_pos hi

theorem wrap_wrap_add (hi : i + k < n + n) : wrap n (wrap n i + k) = wrap n (i + k) := by
  unfold wrap
  split_ifs <;> omega

theorem put_new {w : ℕ} (hw : w < n) (hlen : len ≤ n)
    (hk : k < len) : put mem n w src len (wrap n (w + k)) = src k := by
  unfold put wrap
  split_ifs with hend hlt
  · rw [copy, if_pos (by omega)]
    congr 1
    omega
  · omega
  · rw [copy, if_neg (by omega), copy, if_pos (by omega)]
    congr 1
    omega
  · rw [copy, if_pos (by omega)]
    congr 1
    omega

theorem put_old {w : ℕ} (hk : len ≤ k)
    (hkn : k < n) : put mem n w src len (wrap n (w + k)) = mem (wrap n (w + k)) := by
  unfold put wrap
  split_ifs with hend hlt
  · rw [copy, if_neg (by omega)]
  · rw [copy, if_neg (by omega)]
  · rw [copy, if_neg (by omega), copy, if_neg (by omega)]
  · rw [copy, if_neg (by omega), copy, if_neg (by omega)]

theorem getElem?_get {r : ℕ} (hr : r < n) :
    (get mem n r len)[k]? = if k < len then some (mem (wrap n (r + k))) else none := by
  unfold get wrap
  by_cases hend : r + len < n
  · rw [if_pos hend, getElem?_cells]
    by_cases hk : k < len
    · rw [if_pos hk, if_pos hk, if_pos (by omega)]
    · rw [if_neg hk, if_neg hk]
  · rw [if_neg hend, List.getElem?_append, length_cells, getElem?_cells, getElem?_cells]
    by_cases hfirst : k < n - r
    · rw [if_pos hfirst, if_pos hfirst, if_pos (by omega), if_pos (by omega)]
    · rw [if_neg hfirst]
      by_cases hk : k < len
      · rw [if_pos (by omega), if_pos hk, if_neg (by omega)]
        congr 2
        omega
      · rw [if_neg (by omega), if_neg hk]

theorem length_get {r : ℕ} (hr : r < n) : (get mem n r len).length = len := by
  unfold get
  split_ifs
  · exact length_cells ..
  · rw [List.length_append, length_cells, length_cells]
    omega

structure Holds (mem : ℕ → α) (n r w : ℕ) (ws : List α) : Prop where
  read_lt : r < n
  write_eq : w = wrap n (r + ws.length)
  room : ws.length < n
  word : ∀ k, k < ws.length → some (mem (wrap n (r + k))) = ws[k]?

namespace Holds

variable {mem : ℕ → α} {n r w : ℕ} {ws : List α}

theorem nil (hr : r < n) : Holds mem n r r [] where
  read_lt := hr
  write_eq := (wrap_of_lt (by simpa using hr)).symm
  room := by simp only [List.length_nil]; omega
  word k hk := absurd hk (Nat.not_lt_zero k)

theorem write_lt (h : Holds mem n r w ws) : w < n := by
  have hr := h.read_lt
  have hroom := h.room
  rw [h.write_eq]
  exact wrap_lt (by omega)

theorem free_eq (h : Holds mem n r w ws) : free n r w = n - ws.length := by
  have hr := h.read_lt
  have hroom := h.room
  have hw := h.write_eq
  unfold wrap at hw
  unfold free
  split_ifs at hw ⊢ <;> omega

theorem eq_iff (h : Holds mem n r w ws) : r = w ↔ ws = [] := by
  have hr := h.read_lt
  have hroom := h.room
  have hw := h.write_eq
  unfold wrap at hw
  rw [← List.length_eq_zero_iff]
  split_ifs at hw <;> omega

theorem append (h : Holds mem n r w ws) (src : ℕ → α) {len : ℕ} (hroom : ws.length + len < n) :
    Holds (put mem n w src len) n r (wrap n (w + len)) (ws ++ cells src 0 len) := by
  have hr := h.read_lt
  have hw := h.write_lt
  refine ⟨hr, ?_, ?_, fun k hk => ?_⟩
  · rw [h.write_eq, List.length_append, length_cells, wrap_wrap_add (by omega), Nat.add_assoc]
  · rw [List.length_append, length_cells]
    exact hroom
  · rw [List.length_append, length_cells] at hk
    by_cases hold : k < ws.length
    · rw [List.getElem?_append_left hold, ← h.word k hold]
      -- seen from the write index the old words come after the new ones
      have hpos : wrap n (w + (n - ws.length + k)) = wrap n (r + k) := by
        have hwrite := h.write_eq
        unfold wrap at hwrite ⊢
        split_ifs at hwrite ⊢ <;> omega
      rw [← hpos, put_old (by omega) (by omega)]
    · rw [List.getElem?_append_right (by omega), getElem?_cells, if_pos (by omega)]
      have hpos : wrap n (r + k) = wrap n (w + (k - ws.length)) := by
        rw [h.write_eq, wrap_wrap_add (by omega)]
        congr 1
        omega
      rw [hpos, put_new hw (by omega) (by omega), Nat.zero_add]

variable {us vs : List α} {a : α}

theorem get_left (h : Holds mem n r w (us ++ vs)) : get mem n r us.length = us := by
  refine List.ext_getElem? fun k => ?_
  rw [getElem?_get h.read_lt]
  by_cases hk : k < us.length
  · rw [if_pos hk, h.word k (by rw [List.length_append]; omega), List.getElem?_append_left hk]
  · rw [if_neg hk, List.getElem?_eq_none (by omega)]

theorem drop_left (h : Holds mem n r w (us ++ vs)) : Holds mem n (wrap n (r + us.length)) w vs := by
  have hr := h.read_lt
  have hroom := h.room
  rw [List.length_append] at hroom
  refine ⟨wrap_lt (by omega), ?_, by omega, fun k hk => ?_⟩
  · rw [h.write_eq, List.length_append, wrap_wrap_add (by omega), Nat.add_assoc]
  · rw [wrap_wrap_add (by omega), Nat.add_assoc,
      h.word (us.length + k) (by rw [List.length_append]; omega),
      List.getElem?_append_right (by omega), Nat.add_sub_cancel_left]

theorem push (h : Holds mem n r w ws) (a : α) (hroom : ws.length + 1 < n) :
    Holds (Function.update mem w a) n r (wrap n (w + 1)) (ws ++ [a]) := by
  have hw := h.write_lt
  have hput : put mem n w (fun _ => a) 1 = Function.update mem w a := by
    funext k
    rw [Function.update_apply]
    unfold put copy
    by_cases hend : w + 1 < n
    · rw [if_pos hend]
      split_ifs <;> first | rfl | omega
    · rw [if_neg hend]
      split_ifs <;> first | rfl | omega
  have happend := h.append (fun _ => a) hroom
  rw [hput] at happend
  exact happend

theorem pop (h : Holds mem n r w (a :: ws)) (b : α) :
    Holds (Function.update mem r b) n (wrap n (r + 1)) w ws := by
  have hr := h.read_lt
  have hroom := h.room
  rw [List.length_cons] at hroom
  have hcons : Holds mem n r w ([a] ++ ws) := h
  have hrest : Holds mem n (wrap n (r + 1)) w ws := drop_left hcons
  refine ⟨hrest.read_lt, hrest.write_eq, hrest.room, ?_⟩
  intro k hk
  have hne : wrap n (wrap n (r + 1) + k) ≠ r := by
    unfold wrap
    split_ifs <;> omega
  rw [Function.update_of_ne hne]
  exact hrest.word k hk

theorem head (h : Holds mem n r w (a :: ws)) : mem r = a := by
  have hword := h.word 0 (by rw [List.length_cons]; omega)
  rw [Nat.add_zero, wrap_of_lt h.read_lt] at hword
  simpa using hword

end Holds

/-- The cells from `r` up to `w`. -/
def distance (n r w : ℕ) : ℕ := if r ≤ w then w - r else n - r + w

section Distance

variable {mem : ℕ → α} {n r w h : ℕ} {ws : List α}

@[simp] theorem distance_self (n r : ℕ) : distance n r r = 0 := by
  unfold distance
  rw [if_pos le_rfl, Nat.sub_self]

theorem distance_eq_zero (hr : r < n) : distance n r w = 0 ↔ r = w := by
  unfold distance
  split_ifs <;> omega

theorem distance_lt (hr : r < n) (hw : w < n) : distance n r w < n := by
  unfold distance
  split_ifs <;> omega

theorem Holds.distance_eq (hh : Holds mem n r w ws) : distance n r w = ws.length := by
  have hr := hh.read_lt
  have hroom := hh.room
  have hw := hh.write_eq
  unfold wrap at hw
  unfold distance
  split_ifs at hw ⊢ <;> omega

theorem distance_succ_left (hr : r < n) (hw : w < n) (hne : r ≠ w) :
    distance n (wrap n (r + 1)) w + 1 = distance n r w := by
  unfold distance wrap
  split_ifs <;> omega

theorem distance_inj {v : ℕ} (hr : r < n) (hv : v < n) (hw : w < n)
    (heq : distance n r v = distance n r w) : v = w := by
  unfold distance at heq
  split_ifs at heq <;> omega

theorem distance_succ_right (hr : r < n) (hw : w < n) (hlt : distance n r w + 1 < n) :
    distance n r (wrap n (w + 1)) = distance n r w + 1 := by
  unfold distance at hlt
  unfold distance wrap
  split_ifs at hlt ⊢ <;> omega

variable {j : ℕ}

theorem Holds.getElem?_distance (hh : Holds mem n r w ws) (hj : j < n)
    (hlt : distance n r j < ws.length) : ws[distance n r j]? = some (mem j) := by
  have hr := hh.read_lt
  have hpos : wrap n (r + distance n r j) = j := by
    unfold wrap distance
    split_ifs <;> omega
  rw [← hh.word _ hlt, hpos]

theorem Holds.get_eq (hh : Holds mem n r w ws) : get mem n r ws.length = ws := by
  have hleft : Holds mem n r w (ws ++ []) := by rwa [List.append_nil]
  exact hleft.get_left

/-- Either something comes in behind, or the first thing goes out. -/
inductive Moved (n r : ℕ) (ws : List α) (r' : ℕ) (ws' ins outs : List α) : Prop
  | pushed (hr : r' = r) (hws : ws' = ws ++ ins) (houts : outs = [])
  | popped (a : α) (hr : r' = wrap n (r + 1)) (hws : ws = a :: ws') (hins : ins = [])
      (houts : outs = [a])

variable {mem' : ℕ → α} {r' w' : ℕ} {ws' ins outs : List α}

theorem Moved.refl (n r : ℕ) (ws : List α) : Moved n r ws r ws [] [] :=
  .pushed rfl (List.append_nil ws).symm rfl

theorem Moved.append_eq (h : Moved n r ws r' ws' ins outs) : ws ++ ins = outs ++ ws' := by
  cases h with
  | pushed hr hws houts => rw [houts, hws, List.nil_append]
  | popped a hr hws hins houts => rw [hws, hins, houts, List.append_nil, List.singleton_append]

theorem Moved.kept (h : Moved n r ws r' ws' ins outs) (hh : Holds mem n r w ws)
    (hh' : Holds mem' n r' w' ws') (hj : j < n) (hlt : distance n r j < ws.length) :
    (distance n r' j < ws'.length ∧ mem' j = mem j) ∨ mem j ∈ outs := by
  have hword := hh.getElem?_distance hj hlt
  cases h with
  | pushed hr hws houts =>
    subst hr
    have hlt' : distance n r' j < ws'.length := by
      rw [hws, List.length_append]
      omega
    have hword' := hh'.getElem?_distance hj hlt'
    rw [hws, List.getElem?_append_left hlt, hword] at hword'
    exact .inl ⟨hlt', (Option.some.inj hword').symm⟩
  | popped a hr hws hins houts =>
    by_cases hzero : r = j
    · subst hzero
      rw [hws, distance_self] at hword
      rw [houts, ← Option.some.inj hword]
      exact .inr (List.mem_singleton.mpr rfl)
    · have hdist := distance_succ_left hh.read_lt hj hzero
      rw [← hr] at hdist
      have hlt' : distance n r' j < ws'.length := by
        rw [hws, List.length_cons] at hlt
        omega
      have hword' := hh'.getElem?_distance hj hlt'
      rw [hws, ← hdist, List.getElem?_cons_succ, hword'] at hword
      exact .inl ⟨hlt', Option.some.inj hword⟩

end Distance

theorem toNat_shiftRight_two (a : UInt32) : (a >>> 2).toNat = a.toNat / 4 := by
  simp [UInt32.toNat_shiftRight, Nat.shiftRight_eq_div_pow]

theorem toNat_shiftLeft_two (a : UInt32) : (a <<< 2).toNat = a.toNat * 4 % 2 ^ 32 := by
  simp [UInt32.toNat_shiftLeft, Nat.shiftLeft_eq]

def emptySpace (n r w : UInt32) : UInt32 := if r ≤ w then n - (w - r) else r - w

/-- The copy of a writer: `len` cells to `off`, the cell of its index `w`, and on to the start of
the ring when the end is reached. With it comes the index after it. -/
def store (mem : ℕ → α) (n w len : UInt32) (off : ℕ) (src : ℕ → α) : (ℕ → α) × UInt32 :=
  let next := w + len
  if next < n then (copy mem off src len.toNat, next)
  else
    let next := next - n
    let first := len - next
    (copy (copy mem off src first.toNat) 0 (fun k => src (first.toNat + k)) next.toNat, next)

/-- The byte ranges a reader copies, as offset and length: `len` words from the byte `off` of its
index `r` on. With them comes the index after them. -/
def ranges (n r len : UInt32) (off : ℕ) : List (ℕ × ℕ) × UInt32 :=
  let next := r + len
  if next < n then ([(off, (len <<< 2).toNat)], next)
  else
    let next := next - n
    ([(off, ((len - next) <<< 2).toNat), (0, (next <<< 2).toNat)], next)

def gather (mem : ℕ → α) (rs : List (ℕ × ℕ)) : List α :=
  rs.flatMap fun range => cells mem (range.1 / 4) (range.2 / 4)

section Indices

variable {n r w len : UInt32}

theorem toNat_emptySpace (hr : r.toNat < n.toNat) (hw : w.toNat < n.toNat) :
    (emptySpace n r w).toNat = free n.toNat r.toNat w.toNat := by
  have hn := n.toNat_lt
  unfold emptySpace free
  simp only [UInt32.le_iff_toNat_le]
  split_ifs
  · rw [UInt32.toNat_sub, UInt32.toNat_sub]
    omega
  · rw [UInt32.toNat_sub]
    omega

theorem store_eq (mem src : ℕ → α) (hn : n.toNat < 2 ^ 31) (hw : w.toNat < n.toNat)
    (hlen : len.toNat ≤ n.toNat) :
    (store mem n w len w.toNat src).1 = put mem n.toNat w.toNat src len.toNat ∧
      (store mem n w len w.toNat src).2.toNat = wrap n.toNat (w.toNat + len.toNat) := by
  have hadd : (w + len).toNat = w.toNat + len.toNat := by
    rw [UInt32.toNat_add]
    omega
  unfold store put wrap
  dsimp only
  by_cases hend : w + len < n
  · rw [if_pos hend]
    rw [UInt32.lt_iff_toNat_lt, hadd] at hend
    rw [if_pos hend, if_pos hend]
    exact ⟨rfl, hadd⟩
  · rw [if_neg hend]
    rw [UInt32.lt_iff_toNat_lt, hadd] at hend
    have hnext : (w + len - n).toNat = w.toNat + len.toNat - n.toNat := by
      rw [UInt32.toNat_sub, hadd]
      omega
    have hfirst : (len - (w + len - n)).toNat = n.toNat - w.toNat := by
      rw [UInt32.toNat_sub, hnext]
      omega
    rw [if_neg hend, if_neg hend]
    rw [hnext, hfirst]
    exact ⟨rfl, rfl⟩

theorem ranges_next (off : ℕ) (hn : n.toNat < 2 ^ 30) (hr : r.toNat < n.toNat)
    (hlen : len.toNat ≤ n.toNat) :
    (ranges n r len off).2.toNat = wrap n.toNat (r.toNat + len.toNat) := by
  unfold ranges wrap
  simp only [UInt32.lt_iff_toNat_lt, UInt32.toNat_add]
  split_ifs
  · rw [UInt32.toNat_add]
    omega
  · omega
  · omega
  · rw [UInt32.toNat_sub, UInt32.toNat_add]
    omega

theorem ranges_inside (hn : n.toNat < 2 ^ 30) (hr : r.toNat < n.toNat)
    (hlen : len.toNat ≤ n.toNat) :
    ∀ range ∈ (ranges n r len (r.toNat * 4)).1, range.1 + range.2 ≤ n.toNat * 4 := by
  unfold ranges
  simp only [UInt32.lt_iff_toNat_lt, UInt32.toNat_add]
  split_ifs
  · simp only [List.mem_singleton, forall_eq, toNat_shiftLeft_two]
    omega
  · simp only [List.mem_cons, List.not_mem_nil, or_false, forall_eq_or_imp, forall_eq,
      toNat_shiftLeft_two, UInt32.toNat_sub, UInt32.toNat_add]
    omega

theorem gather_ranges (mem : ℕ → α) (hn : n.toNat < 2 ^ 30) (hr : r.toNat < n.toNat)
    (hlen : len.toNat ≤ n.toNat) :
    gather mem (ranges n r len (r.toNat * 4)).1 = get mem n.toNat r.toNat len.toNat := by
  unfold gather ranges get
  simp only [UInt32.lt_iff_toNat_lt, UInt32.toNat_add]
  split_ifs
  · have hwords : (len <<< 2).toNat / 4 = len.toNat := by
      rw [toNat_shiftLeft_two]
      omega
    rw [List.flatMap_singleton, hwords, Nat.mul_div_cancel _ (by omega)]
  · omega
  · omega
  · have hnext : (r + len - n).toNat = r.toNat + len.toNat - n.toNat := by
      rw [UInt32.toNat_sub, UInt32.toNat_add]
      omega
    have hfirst : (len - (r + len - n)).toNat = n.toNat - r.toNat := by
      rw [UInt32.toNat_sub, hnext]
      omega
    have hwords₁ : ((len - (r + len - n)) <<< 2).toNat / 4 = n.toNat - r.toNat := by
      rw [toNat_shiftLeft_two, hfirst]
      omega
    have hwords₂ : ((r + len - n) <<< 2).toNat / 4 = r.toNat + len.toNat - n.toNat := by
      rw [toNat_shiftLeft_two, hnext]
      omega
    simp only [List.flatMap_cons, List.flatMap_nil, List.append_nil, Nat.zero_div,
      Nat.mul_div_cancel _ (show 0 < 4 by omega), hwords₁, hwords₂]

/-! Where the number of cells is a power of two, an index is brought back by a mask. -/

variable {k : ℕ}

theorem toNat_and_mask (hn : n.toNat = 2 ^ k) (a : UInt32) :
    (a &&& (n - 1)).toNat = a.toNat % n.toNat := by
  have hpos : 0 < 2 ^ k := Nat.two_pow_pos k
  have hlt := n.toNat_lt
  have hmask : (n - 1).toNat = 2 ^ k - 1 := by
    rw [UInt32.toNat_sub, UInt32.toNat_one]
    omega
  rw [UInt32.toNat_and, hmask, Nat.and_two_pow_sub_one_eq_mod, hn]

theorem exists_mul_eq (hn : n.toNat = 2 ^ k) :
    ∃ m, 2 ^ 32 = n.toNat * (m + 1) ∧ n.toNat ≤ 2 ^ 31 := by
  have hlt := n.toNat_lt
  have hk : k < 32 := by
    by_contra hle
    have : 2 ^ 32 ≤ 2 ^ k := Nat.pow_le_pow_right (by omega) (by omega)
    omega
  refine ⟨2 ^ (32 - k) - 1, ?_, ?_⟩
  · have hpos : 0 < 2 ^ (32 - k) := Nat.two_pow_pos _
    rw [Nat.sub_add_cancel hpos, hn, ← Nat.pow_add]
    congr 1
    omega
  · rw [hn]
    exact Nat.pow_le_pow_right (by omega) (by omega)

theorem toNat_succ_and (hn : n.toNat = 2 ^ k) (hw : w.toNat < n.toNat) :
    ((w + 1) &&& (n - 1)).toNat = wrap n.toNat (w.toNat + 1) := by
  obtain ⟨m, _, hle⟩ := exists_mul_eq hn
  have hadd : (w + 1).toNat = w.toNat + 1 := by
    rw [UInt32.toNat_add, UInt32.toNat_one]
    omega
  rw [toNat_and_mask hn, hadd]
  unfold wrap
  split
  · rename_i hlt
    exact Nat.mod_eq_of_lt hlt
  · rename_i hge
    have heq : w.toNat + 1 = n.toNat := by omega
    rw [heq, Nat.mod_self, Nat.sub_self]

theorem toNat_and_eq {x q : ℕ} {a : UInt32} (hn : n.toNat = 2 ^ k) (hx : x < n.toNat)
    (ha : a.toNat = x + n.toNat * q) : (a &&& (n - 1)).toNat = x := by
  rw [toNat_and_mask hn, ha, Nat.add_mul_mod_self_left, Nat.mod_eq_of_lt hx]

theorem toNat_sub_and (hn : n.toNat = 2 ^ k) (hr : r.toNat < n.toNat)
    (hw : w.toNat < n.toNat) : ((w - r) &&& (n - 1)).toNat = distance n.toNat r.toNat w.toNat := by
  obtain ⟨m, hm, _⟩ := exists_mul_eq hn
  have hlt := distance_lt hr hw
  rw [Nat.mul_succ] at hm
  by_cases hle : r.toNat ≤ w.toNat
  · apply toNat_and_eq (q := 0) hn hlt
    unfold distance
    rw [if_pos hle, UInt32.toNat_sub]
    omega
  · apply toNat_and_eq (q := m) hn hlt
    unfold distance
    rw [if_neg hle, UInt32.toNat_sub]
    omega

theorem toNat_room (hn : n.toNat = 2 ^ k) (hr : r.toNat < n.toNat)
    (hw : w.toNat < n.toNat) :
    ((r - 1 - w) &&& (n - 1)).toNat = n.toNat - 1 - distance n.toNat r.toNat w.toNat := by
  obtain ⟨m, hm, _⟩ := exists_mul_eq hn
  have hlt := distance_lt hr hw
  rw [Nat.mul_succ] at hm
  have hpred : (r - 1).toNat = if r.toNat = 0 then 2 ^ 32 - 1 else r.toNat - 1 := by
    have := r.toNat_lt
    rw [UInt32.toNat_sub, UInt32.toNat_one]
    split <;> omega
  have hsub : (r - 1 - w).toNat = if w.toNat < r.toNat then r.toNat - 1 - w.toNat
      else 2 ^ 32 + r.toNat - 1 - w.toNat := by
    rw [UInt32.toNat_sub, hpred]
    split_ifs <;> omega
  by_cases hle : r.toNat ≤ w.toNat
  · apply toNat_and_eq (q := m) hn (by omega)
    unfold distance
    rw [hsub, if_pos hle, if_neg (by omega)]
    omega
  · apply toNat_and_eq (q := 0) hn (by omega)
    unfold distance
    rw [hsub, if_neg hle, if_pos (by omega)]
    omega

end Indices

end WordRing
