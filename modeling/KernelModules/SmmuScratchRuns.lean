import KernelModules.SmmuScratch

/-!
# The scratch region over runs

The map is tiled by the runs of units of the ranges handed out, each of which was placed in the
region and in the map. A careful allocation joins such a range, and a free takes off the run that
the allocation set, so the region is sound in every state that careful steps lead to. On a region
of whole words below 4 GiB every step is careful.
-/

namespace KernelModules.Smmu

open BitAreas

variable {find : BitMap → (size start nr mask : ℕ) → ℕ} {base size order bits len : ℕ}
  {s : Scratch} {r : Range}

theorem unit_pos (order : ℕ) : 0 < unit order := Nat.two_pow_pos _

theorem need_pos (order len : ℕ) : 0 < need order len := Nat.succ_pos _

theorem lt_two_pow_fls64 (n : ℕ) : n < 2 ^ fls64 n := by
  unfold fls64
  split_ifs with hn
  · rw [hn]
    exact Nat.one_pos
  · exact Nat.lt_log2_self

theorem le_two_pow_getOrder (hpos : 0 < len) : len ≤ 2 ^ getOrder len * 4096 := by
  have hlt := lt_two_pow_fls64 ((len - 1) / 2 ^ 12)
  rw [getOrder, if_neg hpos.ne', Nat.shiftRight_eq_div_pow]
  generalize 2 ^ fls64 ((len - 1) / 2 ^ 12) = p at hlt
  omega

theorem len_le (hpos : 0 < len) (haligned : getOrder len ≤ order + 30) :
    len / 4096 ≤ 2 ^ 30 * 2 ^ order := by
  have hpow : 2 ^ getOrder len ≤ 2 ^ 30 * 2 ^ order := by
    rw [← Nat.pow_add, Nat.add_comm 30]
    exact Nat.pow_le_pow_right (by omega) haligned
  exact (Nat.div_le_of_le_mul (Nat.mul_comm _ _ ▸ le_two_pow_getOrder hpos)).trans hpow

theorem need_le (hpos : 0 < len) (haligned : getOrder len ≤ order + 30) :
    need order len ≤ 2 ^ 30 + 1 := by
  refine Nat.succ_le_succ (Nat.lt_succ_iff.mp ((Nat.div_lt_iff_lt_mul (Nat.two_pow_pos order)).mpr ?_))
  have hlen := len_le hpos haligned
  have hone := Nat.two_pow_pos order
  rw [Nat.succ_mul]
  omega

theorem count_eq (hshift : order < 20) (hneed : need order len ≤ 2 ^ 30 + 1) :
    ((((len >>> 12) + (1 <<< order) - 1) % 2 ^ 64) >>> order) % 2 ^ 32 + 1 = need order len := by
  have hpow : 2 ^ order ≤ 2 ^ 19 := Nat.pow_le_pow_right (by omega) (by omega)
  have hpos := Nat.two_pow_pos order
  have hunits : (len / 4096 + 2 ^ order - 1) / 2 ^ order < 2 ^ 30 + 1 := hneed
  have hlt := (Nat.div_lt_iff_lt_mul hpos).mp hunits
  have hle : (2 ^ 30 + 1) * 2 ^ order ≤ (2 ^ 30 + 1) * 2 ^ 19 := Nat.mul_le_mul_left _ hpow
  rw [Nat.shiftRight_eq_div_pow, Nat.shiftRight_eq_div_pow, Nat.one_shiftLeft]
  change ((len / 4096 + 2 ^ order - 1) % 2 ^ 64 / 2 ^ order) % 2 ^ 32 + 1 = _
  have hwide : (len / 4096 + 2 ^ order - 1) % 2 ^ 64 = len / 4096 + 2 ^ order - 1 :=
    Nat.mod_eq_of_lt (by omega)
  rw [hwide, Nat.mod_eq_of_lt (by omega)]
  rfl

theorem pageAlign_eq (hpages : 4096 ∣ len) (hlen : len < 2 ^ 63) : pageAlign len = len := by
  unfold pageAlign
  omega

theorem allocAlign_eq :
    (if order < getOrder len then (1 <<< (getOrder len - order)) - 1 else 0) =
      alignment order len - 1 := by
  unfold alignment
  split_ifs with horder
  · rw [Nat.one_shiftLeft]
  · rw [Nat.sub_eq_zero_of_le (not_lt.mp horder), Nat.pow_zero]

variable {a i : ℕ}

theorem mem_extent_iff (ha : base ≤ a) :
    a ∈ extent order (base + i * unit order) len ↔
      (Run.mk i (need order len)).Has ((a - base) / unit order) := by
  have hpos := unit_pos order
  unfold extent Run.Has
  dsimp only
  rw [Set.mem_Ico, Nat.le_div_iff_mul_le hpos, Nat.div_lt_iff_lt_mul hpos, Nat.add_mul]
  omega

/-- Where a range lies that was handed out. -/
structure Placed (base size order bits : ℕ) (r : Range) (i : ℕ) : Prop where
  addr_eq : r.addr = base + i * unit order
  inRegion : i + need order r.len ≤ size / unit order
  inMap : i + need order r.len ≤ bits
  fits : base + (i + need order r.len) * unit order ≤ 2 ^ 64
  need_le : need order r.len ≤ 2 ^ 30 + 1
  shift : order < 20
  short : bits < 2 ^ 31

namespace Fits

variable (h : Fits base size order s len)

include h

theorem need_le : need order len ≤ 2 ^ 30 + 1 := Smmu.need_le h.pos h.aligned

theorem allocCount_eq :
    ((((pageAlign len >>> 12) + (1 <<< order) - 1) % 2 ^ 64) >>> order) % 2 ^ 32 + 1 =
      need order len := by
  have hlen : len < 2 ^ 63 := by
    have hle := len_le h.pos h.aligned
    have hpow : 2 ^ order ≤ 2 ^ 19 := Nat.pow_le_pow_right (by omega) (Nat.le_of_lt_succ h.shift)
    omega
  rw [pageAlign_eq h.pages hlen]
  exact count_eq h.shift h.need_le

theorem alignment_le : alignment order len ≤ 2 ^ 30 :=
  Nat.pow_le_pow_right (by omega) (Nat.sub_le_iff_le_add'.mpr h.aligned)

end Fits

/-- The first area is handed out, or there is none. -/
theorem allocScratchVa_cases (hfind : Search find) (horder : s.mapping.order = order)
    (hbase : s.mapping.base = base) (h : Fits base size order s len) :
    (∃ i, Area s.mapping.bitmap s.mapping.bits (need order len) (alignment order len) i ∧
        Placed base size order s.mapping.bits ⟨base + i * unit order, len⟩ i ∧
        allocScratchVa find s.mapping len = .ok
          ({ s.mapping with bitmap := set s.mapping.bitmap ⟨i, need order len⟩ },
            base + i * unit order)) ∨
      (∀ i, ¬Area s.mapping.bitmap s.mapping.bits (need order len) (alignment order len) i) ∧
        allocScratchVa find s.mapping len = .error enomem := by
  subst horder hbase
  have hneed := h.need_le
  have hcount : need s.mapping.order len % 2 ^ 32 = need s.mapping.order len :=
    Nat.mod_eq_of_lt (by omega)
  have halign := h.alignment_le
  have hshort := h.short
  have hbound : find s.mapping.bitmap s.mapping.bits 0 (need s.mapping.order len)
      (alignment s.mapping.order len - 1) ≤
        s.mapping.bits + (alignment s.mapping.order len - 1) + need s.mapping.order len :=
    hfind.bound _ _ _ _ (need_pos _ _)
  have harea : find s.mapping.bitmap s.mapping.bits 0 (need s.mapping.order len)
      (alignment s.mapping.order len - 1) ≤ s.mapping.bits →
        Area s.mapping.bitmap s.mapping.bits (need s.mapping.order len)
          (alignment s.mapping.order len) (find s.mapping.bitmap s.mapping.bits 0
            (need s.mapping.order len) (alignment s.mapping.order len - 1)) :=
    hfind.area _ _ _ _ (need_pos _ _)
  have hfirst : ∀ i, Area s.mapping.bitmap s.mapping.bits (need s.mapping.order len)
      (alignment s.mapping.order len) i → find s.mapping.bitmap s.mapping.bits 0
        (need s.mapping.order len) (alignment s.mapping.order len - 1) ≤ i :=
    fun i hi => hfind.first _ _ _ _ i (need_pos _ _) hi
  unfold allocScratchVa
  dsimp only
  rw [h.allocCount_eq, allocAlign_eq, hcount]
  generalize find s.mapping.bitmap s.mapping.bits 0 (need s.mapping.order len)
    (alignment s.mapping.order len - 1) = start at hbound harea hfirst ⊢
  have hstart : start % 2 ^ 32 = start := Nat.mod_eq_of_lt (by omega)
  rw [hstart]
  by_cases hfound : start ≤ s.mapping.bits
  · have hat := harea hfound
    obtain ⟨j, hj, hlow, hend⟩ := h.place start (hat.mono (le_max_right _ _))
    have hle : start ≤ j := hfirst j (hj.mono (min_le_right _ _))
    have hmul : start * unit s.mapping.order ≤ j * unit s.mapping.order := Nat.mul_le_mul_right _ hle
    have hmulEnd : (start + need s.mapping.order len) * unit s.mapping.order ≤
        (j + need s.mapping.order len) * unit s.mapping.order :=
      Nat.mul_le_mul_right _ (Nat.add_le_add_right hle _)
    have hinside := hj.inside
    refine .inl ⟨start, hat, ⟨rfl, ?_, hat.inside, ?_, hneed, h.shift, hshort⟩, ?_⟩
    · exact (Nat.add_le_add_right hle _).trans (hinside.trans (min_le_left _ _))
    · exact (Nat.add_le_add_left hmulEnd _).trans hend
    · have hshl : start <<< (s.mapping.order + 12) = start * unit s.mapping.order :=
        Nat.shiftLeft_eq _ _
      have hguard := Nat.mul_pos (need_pos s.mapping.order len) (unit_pos s.mapping.order)
      rw [Nat.add_mul] at hmulEnd
      rw [if_neg (not_lt.mpr hfound), hshl, Nat.mod_eq_of_lt (hmul.trans_lt hlow),
        Nat.mod_eq_of_lt (by omega)]
  · refine .inr ⟨fun i hi => hfound ((hfirst i hi).trans ?_),
      if_pos (not_le.mp hfound)⟩
    exact (Nat.le_add_right _ _).trans hi.inside

theorem freeScratchVa_eq {mapping : ScratchMapping}
    (h : Placed mapping.base size mapping.order mapping.bits r i) (haddr : r.addr ≠ 0) :
    freeScratchVa mapping r.addr r.len = .ok
      { mapping with bitmap := clear mapping.bitmap ⟨i, need mapping.order r.len⟩ } := by
  have hneed := h.need_le
  have hend := h.fits
  have hmap := h.inMap
  have hshort := h.short
  have hpos := need_pos mapping.order r.len
  have hguard := Nat.mul_pos hpos (unit_pos mapping.order)
  have hcount := count_eq h.shift hneed
  rw [Nat.add_mul] at hend
  have hstart : (((r.addr + 2 ^ 64 - mapping.base) % 2 ^ 64) >>> (mapping.order + 12)) % 2 ^ 32 = i := by
    have hoff : (r.addr + 2 ^ 64 - mapping.base) % 2 ^ 64 = i * unit mapping.order := by
      rw [h.addr_eq]
      omega
    rw [hoff, Nat.shiftRight_eq_div_pow]
    change i * unit mapping.order / unit mapping.order % 2 ^ 32 = i
    rw [Nat.mul_div_cancel _ (unit_pos _)]
    exact Nat.mod_eq_of_lt (by omega)
  unfold freeScratchVa
  rw [if_neg haddr, hstart, hcount, if_neg (by omega), Nat.mod_eq_of_lt (by omega)]

def runOf (base order : ℕ) (r : Range) : Run := ⟨(r.addr - base) / unit order, need order r.len⟩

structure Inv (base size order bits : ℕ) (s : Scratch) : Prop where
  base_eq : s.mapping.base = base
  order_eq : s.mapping.order = order
  bits_eq : s.mapping.bits = bits
  tiled : Tiled (runOf base order) s.mapping.bitmap s.handed
  placed : ∀ r ∈ s.handed, ∃ i, Placed base size order bits r i

theorem Placed.runOf_eq (h : Placed base size order bits r i) :
    runOf base order r = ⟨i, need order r.len⟩ := by
  rw [runOf, h.addr_eq, Nat.add_sub_cancel_left, Nat.mul_div_cancel _ (unit_pos order)]

theorem Placed.mem_bytes_iff (h : Placed base size order bits r i) (ha : base ≤ a) :
    a ∈ r.bytes order ↔ (runOf base order r).Has ((a - base) / unit order) := by
  rw [h.runOf_eq, Range.bytes, h.addr_eq]
  exact mem_extent_iff ha

theorem Placed.bytes_subset (h : Placed base size order bits r i) :
    r.bytes order ⊆ Set.Ico base (base + size) := by
  have hunits := (Nat.mul_le_mul_right _ h.inRegion).trans (Nat.div_mul_le_self _ _)
  rw [Nat.add_mul] at hunits
  rw [Range.bytes, extent, h.addr_eq]
  exact Set.Ico_subset_Ico (Nat.le_add_right _ _) (by omega)

namespace Inv

theorem initScratchMap {kzalloc : Bool} {mapping : ScratchMapping}
    (h : initScratchMap kzalloc base size order = .ok mapping) :
    Inv base size order mapping.bits ⟨mapping, []⟩ := by
  unfold Smmu.initScratchMap at h
  dsimp only at h
  split_ifs at h
  cases h
  exact ⟨rfl, rfl, rfl, .nil _, fun r hr => absurd hr List.not_mem_nil⟩

theorem alloc (hfind : Search find) (h : Inv base size order bits s)
    (hfits : Fits base size order s len) :
    Inv base size order bits (step find s (.alloc len)) := by
  unfold step
  dsimp only
  rcases allocScratchVa_cases hfind h.order_eq h.base_eq hfits with
    ⟨i, harea, hplaced, hok⟩ | ⟨-, herror⟩
  · rw [hok]
    have hrun := hplaced.runOf_eq
    refine ⟨h.base_eq, h.order_eq, h.bits_eq, ?_, fun r hr => ?_⟩
    · have hjoin := h.tiled.join (a := ⟨base + i * unit order, len⟩) fun j hj =>
        harea.clear j (hrun ▸ hj)
      rwa [hrun] at hjoin
    · rcases List.mem_cons.mp hr with rfl | hr
      · exact ⟨i, h.bits_eq ▸ hplaced⟩
      · exact h.placed r hr
  · rw [herror]
    exact h

theorem freeScratchVa_eq (h : Inv base size order bits s) (hr : r ∈ s.handed) (haddr : r.addr ≠ 0) :
    freeScratchVa s.mapping r.addr r.len =
      .ok { s.mapping with bitmap := clear s.mapping.bitmap (runOf base order r) } := by
  obtain ⟨i, hplaced⟩ := h.placed r hr
  rw [hplaced.runOf_eq]
  obtain ⟨rfl, rfl, rfl⟩ := And.intro h.base_eq (And.intro h.order_eq h.bits_eq)
  exact Smmu.freeScratchVa_eq hplaced haddr

theorem free (h : Inv base size order bits s) (haddr : r ∈ s.handed → r.addr ≠ 0) :
    Inv base size order bits (step find s (.free r)) := by
  unfold step
  dsimp only
  split_ifs with hr
  · rw [h.freeScratchVa_eq hr (haddr hr)]
    exact ⟨h.base_eq, h.order_eq, h.bits_eq, h.tiled.leave hr,
      fun r' hr' => h.placed r' (List.mem_of_mem_erase hr')⟩
  · exact h

theorem step (hfind : Search find) {i : Input} (h : Inv base size order bits s)
    (hcareful : Careful base size order s i) : Inv base size order bits (step find s i) := by
  cases i with
  | alloc len => exact h.alloc hfind hcareful
  | free r => exact h.free hcareful

variable {a : ℕ}

theorem available_iff (h : Inv base size order bits s) (ha : base ≤ a) :
    s.mapping.Available a ↔ ∀ r ∈ s.handed, a ∉ r.bytes order := by
  unfold ScratchMapping.Available
  rw [h.base_eq, h.order_eq, h.tiled.clear_iff]
  refine forall₂_congr fun r hr => ?_
  obtain ⟨i, hplaced⟩ := h.placed r hr
  exact not_congr (hplaced.mem_bytes_iff ha).symm

theorem disjoint (h : Inv base size order bits s) :
    s.handed.Pairwise fun r r' => Disjoint (r.bytes order) (r'.bytes order) := by
  refine h.tiled.apart.imp_of_mem fun {r r'} hr hr' hapart => Set.disjoint_left.mpr fun a ha ha' => ?_
  obtain ⟨i, hplaced⟩ := h.placed r hr
  obtain ⟨i', hplaced'⟩ := h.placed r' hr'
  have hbase := (hplaced.bytes_subset ha).1
  exact hapart _ ((hplaced.mem_bytes_iff hbase).mp ha) ((hplaced'.mem_bytes_iff hbase).mp ha')

theorem area_of_disjoint (h : Inv base size order bits s)
    (hinside : extent order a len ⊆ Set.Ico base (base + size))
    (haligned : alignment order len * unit order ∣ a - base)
    (hfree : ∀ r ∈ s.handed, Disjoint (extent order a len) (r.bytes order)) :
    Area s.mapping.bitmap (size / unit order) (need order len) (alignment order len)
      ((a - base) / unit order) := by
  have hpos := unit_pos order
  have hguard := Nat.mul_pos (need_pos order len) hpos
  obtain ⟨hbase, hend⟩ := (Set.Ico_subset_Ico_iff (Nat.lt_add_of_pos_right hguard)).mp hinside
  obtain ⟨q, hq⟩ := haligned
  have hdiv : (a - base) / unit order = alignment order len * q := by
    rw [hq, Nat.mul_right_comm, Nat.mul_div_cancel _ hpos]
  have haddr : a = base + alignment order len * q * unit order := by
    rw [Nat.mul_right_comm] at hq
    omega
  refine ⟨⟨q, hdiv⟩, ?_, fun j hj => h.tiled.clear_iff.mpr fun r hr hhas => ?_⟩
  · rw [Nat.le_div_iff_mul_le hpos, Nat.add_mul, hdiv]
    omega
  · obtain ⟨i, hplaced⟩ := h.placed r hr
    have hj' : (base + j * unit order - base) / unit order = j := by
      rw [Nat.add_sub_cancel_left, Nat.mul_div_cancel _ hpos]
    have hle := Nat.le_add_right base (j * unit order)
    have hin : base + j * unit order ∈ extent order a len := by
      rw [haddr, mem_extent_iff hle, hj', ← hdiv]
      exact hj
    have hin' : base + j * unit order ∈ r.bytes order := by
      rw [hplaced.mem_bytes_iff hle, hj']
      exact hhas
    exact Set.disjoint_left.mp (hfree r hr) hin hin'

theorem sound (hfind : Search find) (h : Inv base size order bits s) :
    Sound find base size order (Careful base size order s) s where
  disjoint := h.disjoint
  inside r hr := by
    obtain ⟨i, hplaced⟩ := h.placed r hr
    exact hplaced.bytes_subset
  available a ha := h.available_iff ha
  frees r hr haddr := by
    obtain ⟨i, hplaced⟩ := h.placed r hr
    refine ⟨_, h.freeScratchVa_eq hr (haddr hr), fun a ha => ?_⟩
    unfold ScratchMapping.Available
    rw [clear_eq_false_iff, h.base_eq, h.order_eq, hplaced.mem_bytes_iff ha]
  fails len e hfits herror a hinside haligned := by
    rcases allocScratchVa_cases hfind h.order_eq h.base_eq hfits with ⟨i, -, -, hok⟩ | ⟨hnone, -⟩
    · cases hok ▸ herror
    · by_contra hfree
      simp only [not_exists, not_and, not_not] at hfree
      have harea := h.area_of_disjoint hinside haligned hfree
      obtain ⟨j, hj, -, -⟩ := hfits.place _ (harea.mono (le_max_left _ _))
      exact hnone j (hj.mono (min_le_right _ _))

end Inv

/-- A region of whole words of the map below 4 GiB. -/
structure WordRegion (base size order : ℕ) : Prop where
  words : 64 ∣ size / unit order
  below : size / unit order * unit order ≤ 2 ^ 32
  base_ne_zero : base ≠ 0
  top : base + size ≤ 2 ^ 64

/-- Lengths whose alignment the code computes in an `int`. -/
def Ordinary (order : ℕ) : Input → Prop
  | .alloc len => 0 < len ∧ 4096 ∣ len ∧ getOrder len ≤ order + 30
  | .free _ => True

namespace WordRegion

variable (h : WordRegion base size order)

include h

theorem units_le : size / unit order ≤ 2 ^ 20 := by
  have hunit : 2 ^ 12 ≤ unit order := Nat.pow_le_pow_right (by omega) (Nat.le_add_left ..)
  have hmul := (Nat.mul_le_mul_left (size / unit order) hunit).trans h.below
  omega

variable {kzalloc : Bool} {mapping : ScratchMapping}

theorem initScratchMap
    (hinit : initScratchMap kzalloc base size order = .ok mapping) :
    mapping.bits = size / unit order ∧ order < 20 := by
  have hunits := h.units_le
  have hwords := h.words
  have hbelow := h.below
  have hcount : (size >>> (12 + order)) % 2 ^ 32 = size / unit order := by
    rw [Nat.shiftRight_eq_div_pow, Nat.add_comm]
    exact Nat.mod_eq_of_lt (hunits.trans_lt (by omega))
  unfold Smmu.initScratchMap at hinit
  dsimp only at hinit
  rw [hcount] at hinit
  split_ifs at hinit with hzero
  cases hinit
  refine ⟨?_, ?_⟩
  · dsimp only
    omega
  · by_contra horder
    have hunit : 2 ^ 32 ≤ unit order := Nat.pow_le_pow_right (by omega) (by omega)
    have hmul := (Nat.mul_le_mul_right _ (show 2 ≤ size / unit order by omega)).trans hbelow
    omega

theorem careful (hshift : order < 20) (hs : Inv base size order (size / unit order) s) {i : Input}
    (hi : Ordinary order i) : Careful base size order s i := by
  have hunits := h.units_le
  cases i with
  | alloc len =>
    refine ⟨hi.1, hi.2.1, hshift, hi.2.2, hs.bits_eq ▸ by omega, fun i harea => ?_⟩
    rw [hs.bits_eq, max_self] at harea
    have hend := (Nat.mul_le_mul_right (unit order) harea.inside)
    have hguard := Nat.mul_pos (need_pos order len) (unit_pos order)
    have hsize := Nat.div_mul_le_self size (unit order)
    have hbelow := h.below
    have htop := h.top
    refine ⟨i, ?_, ?_, ?_⟩
    · rwa [hs.bits_eq, min_self]
    · rw [Nat.add_mul] at hend
      omega
    · omega
  | free r =>
    intro hr
    obtain ⟨j, hplaced⟩ := hs.placed r hr
    have hbase := h.base_ne_zero
    rw [hplaced.addr_eq]
    omega

theorem meets (hfind : Search find)
    (hinit : Smmu.initScratchMap kzalloc base size order = .ok mapping) {inputs : List Input}
    (hinputs : ∀ i ∈ inputs, Ordinary order i) :
    (machine find).Meets (Careful base size order) ⟨mapping, []⟩ inputs := by
  obtain ⟨hbits, hshift⟩ := h.initScratchMap hinit
  exact (machine find).meets_of_invariant (I := Inv base size order (size / unit order))
    (fun _ _ hs hi => hs.step hfind (h.careful hshift hs hi))
    (fun _ _ hs hi => h.careful hshift hs hi) (hbits ▸ .initScratchMap hinit)
    ((machine find).meets_of_forall _ hinputs)

end WordRegion

/-- The region is sound in every state that careful allocations and frees lead to. -/
theorem scratch_sound (hfind : Search find) {kzalloc : Bool} {mapping : ScratchMapping}
    (hinit : initScratchMap kzalloc base size order = .ok mapping) {inputs : List Input}
    (hcareful : (machine find).Meets (Careful base size order) ⟨mapping, []⟩ inputs) :
    let s := ((machine find).run ⟨mapping, []⟩ inputs).1
    Sound find base size order (Careful base size order s) s :=
  ((machine find).invariant_of_meets (I := Inv base size order mapping.bits)
    (fun _ _ h hstep => h.step hfind hstep) (.initScratchMap hinit) hcareful).sound hfind

/-- Two ranges of 64 pages, of which the first was freed. -/
theorem scratch_sound_twoRanges :
    let s := ((machine firstArea).run ⟨⟨fun _ => false, 64, 0, 2 ^ 30⟩, []⟩
      [.alloc 8192, .alloc 4096, .free ⟨2 ^ 30, 8192⟩]).1
    s.handed = [⟨2 ^ 30 + 3 * 4096, 4096⟩] ∧
      Sound firstArea (2 ^ 30) (64 * 4096) 0 (Careful (2 ^ 30) (64 * 4096) 0 s) s := by
  have hinit : initScratchMap true (2 ^ 30) (64 * 4096) 0 =
      .ok ⟨fun _ => false, 64, 0, 2 ^ 30⟩ := rfl
  have hregion : WordRegion (2 ^ 30) (64 * 4096) 0 := ⟨by decide, by decide, by decide, by decide⟩
  refine ⟨by decide, scratch_sound search_firstArea hinit (hregion.meets search_firstArea hinit ?_)⟩
  intro i hi
  simp only [List.mem_cons, List.not_mem_nil, or_false] at hi
  rcases hi with rfl | rfl | rfl
  · exact ⟨by decide, by decide, by decide⟩
  · exact ⟨by decide, by decide, by decide⟩
  · trivial

/-- The map of a region of one page has the bits of a word. -/
theorem not_scratch_sound :
    ¬∀ (find : BitMap → (size start nr mask : ℕ) → ℕ), Search find →
      ∀ kzalloc base size order mapping, initScratchMap kzalloc base size order = .ok mapping →
        ∀ inputs, (∀ i ∈ inputs, Input.Legal i) →
          let s := ((machine find).run ⟨mapping, []⟩ inputs).1
          Sound find base size order Input.Legal s := by
  intro hclaim
  have hsound := hclaim firstArea search_firstArea true (2 ^ 30) 4096 0 _ rfl [.alloc 8192]
    (by
      intro i hi
      rw [List.mem_singleton.mp hi]
      exact ⟨by decide, by decide⟩)
  have hin : 2 ^ 30 + 4096 ∈ (Range.mk (2 ^ 30) 8192).bytes 0 := ⟨by decide, by decide⟩
  have hout := (hsound.inside ⟨2 ^ 30, 8192⟩ (by decide) hin).2
  omega

end KernelModules.Smmu
