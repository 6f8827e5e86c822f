import KernelModules.FlexMem

/-!
# The items of a pool are slots of its segments

No two segments share memory, and a bitmap shows the slots of its segment that are live. The record
in front of a segment keeps the first slot of one from being the end of another, where a free would
find the wrong segment; the segment without such a record is the first that a free looks at.
-/

namespace KernelModules.FlexMem

open Bitmap

variable {n : ℕ} {seg t : Segment} {pre post segs : List Segment} {s : State}
variable {i : ℕ}

theorem mem_memory_of_slot (hi : i < 32)
    (haddr : seg.dynamic = true → seg.addr ≤ seg.bytes) {a : ℕ} (hlow : seg.slot n i ≤ a)
    (hhigh : a < seg.slot n i + n) : a ∈ seg.memory n := by
  have hlt : (i + 1) * n ≤ 32 * n := Nat.mul_le_mul_right n hi
  rw [Nat.add_mul] at hlt
  have hbytes : seg.bytes ≤ a := (Nat.le_add_right ..).trans hlow
  unfold Segment.slot at hhigh
  constructor
  · split_ifs with hdyn
    · exact (haddr hdyn).trans hbytes
    · exact hbytes
  · omega

theorem slot_mem_memory (hn : 0 < n) (hi : i < 32)
    (haddr : seg.dynamic = true → seg.addr ≤ seg.bytes) : seg.slot n i ∈ seg.memory n :=
  mem_memory_of_slot hi haddr le_rfl (Nat.lt_add_of_pos_right hn)

/-- How the segments lie: one without a record, and behind it those with one. -/
structure Laid (n : ℕ) (segs : List Segment) : Prop where
  head : segs.head?.map (·.dynamic) = some false
  tail : ∀ seg ∈ segs.tail, seg.dynamic = true ∧ seg.bytes = seg.addr + sizeofSegment
  apart : segs.Pairwise fun a b => Disjoint (a.memory n) (b.memory n)

namespace Laid

theorem addr_le (h : Laid n segs) (hseg : seg ∈ segs) (hdyn : seg.dynamic = true) :
    seg.addr ≤ seg.bytes := by
  cases segs with
  | nil => cases hseg
  | cons head rest =>
    rcases List.mem_cons.mp hseg with rfl | hrest
    · have hhead := h.head
      simp [hdyn] at hhead
    · exact (h.tail seg hrest).2 ▸ Nat.le_add_right ..

variable {i : ℕ}

theorem slot_mem (h : Laid n segs) (hn : 0 < n) (hseg : seg ∈ segs) (hi : i < 32) :
    seg.slot n i ∈ seg.memory n := slot_mem_memory hn hi (h.addr_le hseg)

theorem eq_of_mem (h : Laid n segs) (hseg : seg ∈ segs) (ht : t ∈ segs) {a : ℕ}
    (ha : a ∈ seg.memory n) (ha' : a ∈ t.memory n) : seg = t := by
  by_contra hne
  have : Std.Symm fun a b : Segment => Disjoint (a.memory n) (b.memory n) := ⟨fun _ _ hd => hd.symm⟩
  exact Set.disjoint_left.mp (h.apart.forall hseg ht hne) ha ha'

theorem ne_of_mem (h : Laid n (pre ++ seg :: post)) (hn : 0 < n) (ht : t ∈ pre ++ post) :
    t ≠ seg := by
  rintro rfl
  have hapart := List.pairwise_append.mp h.apart
  have hmem := h.slot_mem hn (by simp : t ∈ pre ++ t :: post) (by decide : 0 < 32)
  have hdisj : Disjoint (t.memory n) (t.memory n) := by
    rcases List.mem_append.mp ht with ht | ht
    · exact hapart.2.2 t ht t List.mem_cons_self
    · exact (List.pairwise_cons.mp hapart.2.1).1 t ht
  exact Set.disjoint_left.mp hdisj hmem hmem

theorem slot_inj (h : Laid n segs) (hn : 0 < n) (hseg : seg ∈ segs) (ht : t ∈ segs) {j : ℕ}
    (hi : i < 32) (hj : j < 32) : seg.slot n i = t.slot n j ↔ seg = t ∧ i = j := by
  refine ⟨fun heq => ?_, fun ⟨hst, hij⟩ => hst ▸ hij ▸ rfl⟩
  have hst := h.eq_of_mem hseg ht (h.slot_mem hn hseg hi) (heq ▸ h.slot_mem hn ht hj)
  subst t
  exact ⟨rfl, Nat.eq_of_mul_eq_mul_right hn (Nat.add_left_cancel heq)⟩

theorem flip (h : Laid n (pre ++ seg :: post)) (i : ℕ) :
    Laid n (pre ++ seg.flip i :: post) where
  head := by cases pre <;> exact h.head
  tail t ht := by
    cases pre with
    | nil => exact h.tail t ht
    | cons head pre =>
      rcases List.mem_append.mp ht with ht | ht
      · exact h.tail t (List.mem_append_left _ ht)
      · rcases List.mem_cons.mp ht with rfl | ht
        · exact h.tail seg (by simp)
        · exact h.tail t (by simp [ht])
  apart := by simpa [List.pairwise_append, Segment.memory, Segment.flip] using h.apart

theorem remove (h : Laid n (pre ++ seg :: post)) (hdyn : seg.dynamic = true) :
    Laid n (pre ++ post) := by
  cases pre with
  | nil => simpa [hdyn] using h.head
  | cons head pre =>
    have hsub : List.Sublist (pre ++ post) (pre ++ seg :: post) :=
      (List.Sublist.refl pre).append (List.sublist_cons_self seg post)
    exact ⟨h.head, fun t ht => h.tail t (hsub.subset ht), h.apart.sublist (hsub.cons_cons head)⟩

theorem insert (h : Laid n segs) (hdyn : seg.dynamic = true)
    (hbytes : seg.bytes = seg.addr + sizeofSegment)
    (hapart : ∀ t ∈ segs, Disjoint (seg.memory n) (t.memory n)) : Laid n (segs ++ [seg]) := by
  cases segs with
  | nil => cases h.head
  | cons head rest =>
    refine ⟨h.head, fun t ht => ?_, ?_⟩
    · rcases List.mem_append.mp ht with ht | ht
      · exact h.tail t ht
      · exact List.mem_singleton.mp ht ▸ ⟨hdyn, hbytes⟩
    · refine List.pairwise_append.mpr ⟨h.apart, List.pairwise_singleton .., fun a ha b hb => ?_⟩
      exact List.mem_singleton.mp hb ▸ (hapart a ha).symm

theorem passed (h : Laid n (pre ++ seg :: post)) (hn : 0 < n) (hi : i < 32) :
    ∀ t ∈ pre, seg.slot n i < t.bytes ∨ t.bytes + n * 32 < seg.slot n i := by
  intro t ht
  by_contra hin
  rw [not_or, not_lt, not_lt] at hin
  have hmem : t ∈ pre ++ seg :: post := List.mem_append_left _ ht
  have hseg : seg ∈ pre ++ seg :: post := by simp
  have hdisj := (List.pairwise_append.mp h.apart).2.2 t ht seg List.mem_cons_self
  have hslot := h.slot_mem hn hseg hi
  have hlow := h.addr_le hmem
  rcases eq_or_lt_of_le hin.2 with hend | hlt
  · -- The byte before the slot is still behind the start of the record.
    cases pre with
    | nil => cases ht
    | cons head pre =>
      obtain ⟨hdyn, hbytes⟩ := h.tail seg (by simp)
      have hsize : 1 ≤ sizeofSegment := by decide
      have hback : seg.slot n i - 1 ∈ seg.memory n := by
        have hle : seg.bytes ≤ seg.slot n i := Nat.le_add_right ..
        have hlast := hslot.2
        unfold Segment.memory
        rw [if_pos hdyn]
        exact ⟨by omega, by omega⟩
      refine Set.disjoint_left.mp hdisj ?_ hback
      unfold Segment.memory
      constructor
      · split_ifs with htdyn
        · have := hlow htdyn
          omega
        · omega
      · omega
  · refine Set.disjoint_left.mp hdisj ⟨?_, hlt⟩ hslot
    split_ifs with htdyn
    · exact (hlow htdyn).trans hin.1
    · exact hin.1

end Laid

structure Inv (s : State) : Prop where
  pos : 0 < s.pool.itemSize.toNat
  laid : Laid s.pool.itemSize.toNat s.pool.segList
  count : s.pool.segList.length = s.pool.count + 1
  nodup : s.live.Nodup
  slots : ∀ p ∈ s.live, ∃ seg ∈ s.pool.segList, ∃ i < 32, p = seg.slot s.pool.itemSize.toNat i
  shows : ∀ seg ∈ s.pool.segList,
    Shows seg.usedBitmap fun i => i < 32 ∧ seg.slot s.pool.itemSize.toNat i ∈ s.live

def Idle (s : State) (p : ℕ) : Prop :=
  ∃ seg ∈ s.pool.segList, ∃ i < 32, p = seg.slot s.pool.itemSize.toNat i ∧ p ∉ s.live

/-- What an allocation without a new segment and a free without a release have done: a bit of a
segment is flipped, and the item of that bit is live if it was not and the other way round. -/
theorem Inv.flip (h : Inv s) (hl : s.pool.segList = pre ++ seg :: post) (hi : i < 32)
    {live : List ℕ} (hnodup : live.Nodup)
    (hlive : ∀ p, p ∈ live ↔ if p = seg.slot s.pool.itemSize.toNat i then p ∉ s.live
      else p ∈ s.live) :
    Inv ⟨{ s.pool with segList := pre ++ seg.flip i :: post }, live⟩ := by
  have hseg : seg ∈ s.pool.segList := hl ▸ (by simp)
  have hslot : ∀ t ∈ s.pool.segList, t = seg ∨ t ∈ pre ++ post := fun t ht => by
    rw [hl] at ht
    simp only [List.mem_append, List.mem_cons] at ht ⊢
    tauto
  have hold : ∀ t ∈ pre ++ post, t ∈ s.pool.segList ∧ t ≠ seg := fun t ht => by
    refine ⟨?_, (hl ▸ h.laid).ne_of_mem h.pos ht⟩
    rw [hl]
    simp only [List.mem_append, List.mem_cons] at ht ⊢
    tauto
  refine ⟨h.pos, (hl ▸ h.laid).flip i, ?_, hnodup, fun p hp => ?_, fun t ht => ?_⟩
  · have hcount := h.count
    rw [hl] at hcount
    simpa using hcount
  · rcases (em (p = seg.slot s.pool.itemSize.toNat i)) with heq | hne
    · exact ⟨seg.flip i, by simp, i, hi, heq⟩
    · obtain ⟨t, ht, j, hj, rfl⟩ := h.slots p (by simpa [hne] using (hlive p).mp hp)
      rcases hslot t ht with rfl | ht
      · exact ⟨t.flip i, by simp, j, hj, rfl⟩
      · refine ⟨t, ?_, j, hj, rfl⟩
        simp only [List.mem_append, List.mem_cons] at ht ⊢
        tauto
  · have hcases : t = seg.flip i ∨ t ∈ pre ++ post := by
      simp only [List.mem_append, List.mem_cons] at ht ⊢
      tauto
    rcases hcases with rfl | ht
    · refine ((h.shows seg hseg).xor_bit hi).congr fun j => ?_
      change _ ↔ j < 32 ∧ seg.slot s.pool.itemSize.toNat j ∈ live
      rw [hlive]
      by_cases hij : j = i
      · simp [hij, hi]
      · by_cases hj : j < 32
        · rw [if_neg hij, if_neg fun heq => hij ((h.laid.slot_inj h.pos hseg hseg hj hi).mp heq).2]
        · simp [hij, hj]
    · obtain ⟨hin, hne⟩ := hold t ht
      refine (h.shows t hin).congr fun j => and_congr_right fun hj => ?_
      rw [hlive, if_neg fun heq => hne ((h.laid.slot_inj h.pos hin hseg hj hi).mp heq).1]

variable {addr : ℕ} {talloc : Option ℕ}

theorem Inv.insert (h : Inv s)
    (hapart : ∀ seg ∈ s.pool.segList, Disjoint ((newSegment addr).memory s.pool.itemSize.toNat)
      (seg.memory s.pool.itemSize.toNat)) :
    Inv { s with pool := s.pool.insertBack (newSegment addr) } where
  pos := h.pos
  laid := h.laid.insert rfl rfl hapart
  count := by simp [Pool.insertBack, h.count]
  nodup := h.nodup
  slots p hp := by
    obtain ⟨t, ht, i, hi, rfl⟩ := h.slots p hp
    exact ⟨t, List.mem_append_left _ ht, i, hi, rfl⟩
  shows t ht := by
    rcases List.mem_append.mp ht with ht | ht
    · exact h.shows t ht
    · rw [List.mem_singleton.mp ht]
      refine .zero fun i ⟨hi, hlive⟩ => ?_
      obtain ⟨t, ht, j, hj, heq⟩ := h.slots _ hlive
      exact Set.disjoint_left.mp (hapart t ht)
        (slot_mem_memory h.pos hi fun _ => Nat.le_add_right ..) (heq ▸ h.laid.slot_mem h.pos ht hj)

variable {p : ℕ}

theorem Inv.free_cases (h : Inv s) (hp : p ∈ s.live) :
    ∃ pre seg post i, i < 32 ∧ s.pool.segList = pre ++ seg :: post ∧
      p = seg.slot s.pool.itemSize.toNat i ∧
      (s.pool.free p = { s.pool with segList := pre ++ seg.flip i :: post } ∨
        (seg.flip i).usedBitmap = 0 ∧ seg.dynamic = true ∧
          s.pool.reductionLimit.toNat < s.pool.count ∧
          s.pool.free p =
            { s.pool with segList := pre ++ post, count := s.pool.count - 1 }) := by
  obtain ⟨seg, hseg, i, hi, rfl⟩ := h.slots p hp
  obtain ⟨pre, post, hl⟩ := List.append_of_mem hseg
  refine ⟨pre, seg, post, i, hi, hl, rfl, ?_⟩
  have hhigh : i * s.pool.itemSize.toNat ≤ s.pool.itemSize.toNat * 32 :=
    Nat.mul_comm 32 _ ▸ Nat.mul_le_mul_right _ hi.le
  have hloop := freeLoop_eq post (s.pool.reductionLimit.toNat < s.pool.count)
    ((hl ▸ h.laid).passed h.pos hi) (Nat.le_add_right _ _) (Nat.add_le_add_left hhigh seg.bytes)
  rw [Nat.add_sub_cancel_left, Nat.mul_div_cancel _ h.pos, ← hl] at hloop
  unfold Pool.free Segment.slot
  rw [hloop]
  split_ifs with hrel
  · exact Or.inr ⟨hrel.1, hrel.2.1, by simpa using hrel.2.2, rfl⟩
  · exact Or.inl rfl

theorem mem_erase_iff (h : Inv s) {q : ℕ} (hp : p ∈ s.live) :
    q ∈ s.live.erase p ↔ if q = p then q ∉ s.live else q ∈ s.live := by
  rw [h.nodup.mem_erase_iff]
  split_ifs with heq <;> simp [heq, hp]

theorem Inv.free (h : Inv s) (hp : p ∈ s.live) : Inv (step s (.free p)).1 := by
  obtain ⟨pre, seg, post, i, hi, hl, rfl, heq | ⟨hzero, hdyn, hlimit, heq⟩⟩ := h.free_cases hp
  · change Inv ⟨s.pool.free _, _⟩
    rw [heq]
    exact h.flip hl hi (h.nodup.erase _) fun q => mem_erase_iff h hp
  · -- The segment has no live item left, so it is no slot that goes.
    have hflip := h.flip hl hi (h.nodup.erase _) fun q => mem_erase_iff h hp
    have hcount := h.count
    have hnone := ((hflip.shows (seg.flip i) (by simp)).eq_zero_iff).mp hzero
    rw [hl] at hcount
    simp only [List.length_append, List.length_cons] at hcount
    change Inv ⟨s.pool.free _, _⟩
    rw [heq]
    refine ⟨h.pos, (hl ▸ h.laid).remove hdyn, ?_, hflip.nodup, fun q hq => ?_, fun t ht => ?_⟩
    · change (pre ++ post).length = s.pool.count - 1 + 1
      rw [List.length_append]
      omega
    · obtain ⟨t, ht, j, hj, rfl⟩ := hflip.slots q hq
      simp only [List.mem_append, List.mem_cons] at ht
      rcases ht with ht | rfl | ht
      · exact ⟨t, List.mem_append_left _ ht, j, hj, rfl⟩
      · exact absurd ⟨hj, hq⟩ (hnone j)
      · exact ⟨t, List.mem_append_right _ ht, j, hj, rfl⟩
    · apply hflip.shows t
      simp only [List.mem_append, List.mem_cons] at ht ⊢
      tauto

theorem Inv.alloc_cases (h : Inv s) (talloc : Option ℕ) :
    (∃ pre seg post i, i < 32 ∧ s.pool.segList = pre ++ seg :: post ∧
      seg.slot s.pool.itemSize.toNat i ∉ s.live ∧
      s.pool.alloc talloc = ({ s.pool with segList := pre ++ seg.flip i :: post },
        some (seg.slot s.pool.itemSize.toNat i))) ∨
      (∀ p, ¬Idle s p) ∧ s.pool.alloc talloc = match talloc with
        | none => (s.pool, none)
        | some addr =>
          (s.pool.insertBack ((newSegment addr).flip 0), some (newSegment addr).bytes) := by
  unfold Pool.alloc
  rcases allocLoop_cases s.pool.itemSize.toNat s.pool.segList with
    ⟨heq, hall⟩ | ⟨pre, seg, post, i, hl, hffz, heq⟩
  · right
    rw [heq]
    refine ⟨fun p ⟨seg, hseg, i, hi, hp, hlive⟩ => hlive ?_, ?_⟩
    · exact hp ▸ ((h.shows seg hseg i).mp (ffz_none (hall seg hseg) hi)).2
    · have hone : (1 : BitVec 32) = 0 ^^^ bit 32 0 := by decide
      cases talloc with
      | none => rfl
      | some addr => exact congrArg (fun b => (s.pool.insertBack { newSegment addr with
          usedBitmap := b }, some (newSegment addr).bytes)) hone
  · left
    obtain ⟨hi, hclear⟩ := ffz_some hffz
    rw [heq]
    refine ⟨pre, seg, post, i, hi, hl, fun hlive => ?_, rfl⟩
    have hset := (h.shows seg (by simp [hl]) i).mpr ⟨hi, hlive⟩
    simp [hset] at hclear

theorem Inv.handed (h : Inv s) (hl : s.pool.segList = pre ++ seg :: post) (hi : i < 32)
    (hnew : seg.slot s.pool.itemSize.toNat i ∉ s.live) :
    Inv ⟨{ s.pool with segList := pre ++ seg.flip i :: post },
      seg.slot s.pool.itemSize.toNat i :: s.live⟩ := by
  refine h.flip hl hi (List.nodup_cons.mpr ⟨hnew, h.nodup⟩) fun q => ?_
  rw [List.mem_cons]
  split_ifs with heq
  · simp [heq, hnew]
  · simp [heq]

theorem Inv.step (h : Inv s) {i : Input} (hi : i.Legal s) : Inv (step s i).1 := by
  cases i with
  | segAlloc talloc =>
    cases talloc with
    | none => exact h
    | some addr => exact h.insert (hi addr rfl)
  | alloc talloc =>
    change Inv ⟨(s.pool.alloc talloc).1, (s.pool.alloc talloc).2.toList ++ s.live⟩
    rcases h.alloc_cases talloc with ⟨pre, seg, post, i, hi, hl, hnew, heq⟩ | ⟨-, heq⟩
    · rw [heq]
      exact h.handed hl hi hnew
    · rw [heq]
      cases talloc with
      | none => exact h
      | some addr =>
        have hins := h.insert (hi addr rfl)
        have hshows := hins.shows (newSegment addr) (List.mem_append_right _ (by simp)) 0
        have hnew : (newSegment addr).slot s.pool.itemSize.toNat 0 ∉ s.live := fun hlive => by
          simpa [newSegment] using hshows.mpr ⟨by decide, hlive⟩
        have hinv := hins.handed rfl (by decide) hnew
        rwa [Segment.slot, Nat.zero_mul, Nat.add_zero] at hinv
  | free p => exact h.free hi

theorem Inv.length_live (h : Inv s) : s.live.length ≤ 32 * s.pool.segList.length := by
  have hsub : s.live ⊆ s.pool.segList.flatMap fun seg =>
      (List.range 32).map (seg.slot s.pool.itemSize.toNat) := fun p hp => by
    obtain ⟨seg, hseg, i, hi, rfl⟩ := h.slots p hp
    exact List.mem_flatMap.mpr ⟨seg, hseg, List.mem_map_of_mem (List.mem_range.mpr hi)⟩
  have hle := (List.subperm_of_subset h.nodup hsub).length_le
  simpa [List.length_flatMap, Nat.mul_comm] using hle

theorem Regained.cons (hlegal : Input.Legal s (.alloc talloc))
    (h : Regained (step s (.alloc talloc)).1 p) : Regained s p := by
  obtain ⟨answers, hm, hlast⟩ := h
  refine ⟨talloc :: answers, ⟨hlegal, hm⟩, ?_⟩
  rw [List.map_cons, Machine.run_cons, List.getLast?_append]
  exact congrArg (Option.or · _) hlast

theorem Regained.of_eq (hlegal : Input.Legal s (.alloc talloc))
    (h : (s.pool.alloc talloc).2 = some p) : Regained s p :=
  ⟨[talloc], ⟨hlegal, trivial⟩, congrArg some h⟩

theorem legal_none : Input.Legal s (.alloc none) := fun _ hmem => by cases hmem

theorem mem_flip (ht : t ∈ pre ++ seg :: post) :
    ∃ t' ∈ pre ++ seg.flip i :: post, t'.slot n = t.slot n := by
  simp only [List.mem_append, List.mem_cons] at ht
  rcases ht with ht | rfl | ht
  · exact ⟨t, by simp [ht], rfl⟩
  · exact ⟨t.flip i, by simp, rfl⟩
  · exact ⟨t, by simp [ht], rfl⟩

theorem Inv.regained (h : Inv s) (hp : Idle s p) : Regained s p := by
  induction hk : 32 * s.pool.segList.length - s.live.length using Nat.strong_induction_on
    generalizing s with
  | _ k ih =>
    rcases h.alloc_cases none with ⟨pre, seg, post, i, hi, hl, hnew, heq⟩ | ⟨hnone, -⟩
    · by_cases hsame : seg.slot s.pool.itemSize.toNat i = p
      · exact .of_eq legal_none (heq ▸ congrArg some hsame)
      · have hinv := h.handed hl hi hnew
        have hle := hinv.length_live
        refine .cons legal_none ?_
        change Regained ⟨(s.pool.alloc none).1, (s.pool.alloc none).2.toList ++ s.live⟩ p
        rw [heq]
        refine ih _ ?_ hinv ?_ rfl
        · rw [hl] at hk
          simp only [List.length_append, List.length_cons, Option.toList_some,
            List.length_nil] at hk hle ⊢
          omega
        · obtain ⟨t, ht, j, hj, rfl, hlive⟩ := hp
          obtain ⟨t', ht', hslot⟩ := mem_flip (n := s.pool.itemSize.toNat) (i := i) (hl ▸ ht)
          refine ⟨t', ht', j, hj, (congrFun hslot j).symm, fun hmem => ?_⟩
          exact (List.mem_cons.mp hmem).elim (fun heq => hsame heq.symm) hlive
    · exact absurd hp (hnone p)

/-- A segment that is gone may come back once the others are full. -/
theorem Inv.regained_fresh (h : Inv s)
    (hapart : ∀ seg ∈ s.pool.segList, Disjoint ((newSegment addr).memory s.pool.itemSize.toNat)
      (seg.memory s.pool.itemSize.toNat)) {j : ℕ} (hj : j < 32) :
    Regained s ((newSegment addr).slot s.pool.itemSize.toNat j) := by
  induction hk : 32 * s.pool.segList.length - s.live.length using Nat.strong_induction_on
    generalizing s with
  | _ k ih =>
    rcases h.alloc_cases none with ⟨pre, seg, post, i, hi, hl, hnew, heq⟩ | ⟨hnone, -⟩
    · have hinv := h.handed hl hi hnew
      have hle := hinv.length_live
      refine .cons legal_none ?_
      change Regained ⟨(s.pool.alloc none).1, (s.pool.alloc none).2.toList ++ s.live⟩ _
      rw [heq]
      refine ih _ ?_ hinv (fun t ht => ?_) rfl
      · rw [hl] at hk
        simp only [List.length_append, List.length_cons, Option.toList_some,
          List.length_nil] at hk hle ⊢
        omega
      · simp only [List.mem_append, List.mem_cons] at ht
        rw [hl] at hapart
        rcases ht with ht | rfl | ht
        · exact hapart t (by simp [ht])
        · exact hapart seg (by simp)
        · exact hapart t (by simp [ht])
    · have hlegal : Input.Legal s (.alloc (some addr)) := fun a ha => Option.some.inj ha ▸ hapart
      have heq := (h.alloc_cases (some addr)).resolve_left fun ⟨pre, seg, post, i, hi, hl, hnew, _⟩ =>
        hnone _ ⟨seg, hl ▸ by simp, i, hi, rfl, hnew⟩
      have hinv := h.step hlegal
      change Inv ⟨(s.pool.alloc (some addr)).1, (s.pool.alloc (some addr)).2.toList ++ s.live⟩ at hinv
      rw [heq.2] at hinv
      rcases Nat.eq_zero_or_pos j with rfl | hpos
      · exact .of_eq hlegal (by rw [heq.2, Segment.slot, Nat.zero_mul, Nat.add_zero])
      · refine .cons hlegal ?_
        change Regained ⟨(s.pool.alloc (some addr)).1, (s.pool.alloc (some addr)).2.toList ++ s.live⟩ _
        rw [heq.2]
        have hmem : (newSegment addr).flip 0 ∈ s.pool.segList ++ [(newSegment addr).flip 0] := by simp
        refine hinv.regained ⟨_, hmem, j, hj, rfl, fun hlive => ?_⟩
        have hshows := (hinv.shows _ hmem j).mpr ⟨hj, hlive⟩
        revert hshows
        simp [Segment.flip, newSegment, getLsbD_bit, hpos.ne]

theorem Inv.sound (h : Inv s) : Sound s where
  distinct := by
    refine h.nodup.imp_of_mem fun {p q} hp hq hne => Set.disjoint_left.mpr fun a ha ha' => hne ?_
    obtain ⟨seg, hseg, i, hi, rfl⟩ := h.slots p hp
    obtain ⟨t, ht, j, hj, rfl⟩ := h.slots q hq
    obtain rfl := h.laid.eq_of_mem hseg ht (mem_memory_of_slot hi (h.laid.addr_le hseg) ha.1 ha.2)
      (mem_memory_of_slot hj (h.laid.addr_le ht) ha'.1 ha'.2)
    have hdiv : ∀ k, seg.slot s.pool.itemSize.toNat k ≤ a →
        a < seg.slot s.pool.itemSize.toNat k + s.pool.itemSize.toNat →
        (a - seg.bytes) / s.pool.itemSize.toNat = k := fun k hlow hhigh => by
      unfold Segment.slot at hlow hhigh
      rw [Nat.div_eq_iff h.pos]
      omega
    rw [← hdiv i ha.1 ha.2, ← hdiv j ha'.1 ha'.2]
  slots := h.slots
  bitmaps seg hseg i hi := (h.shows seg hseg i).trans (and_iff_right hi)
  again p hp := by
    have hinv := h.free hp
    obtain ⟨pre, seg, post, i, hi, hl, rfl, heq | ⟨-, hdyn, -, heq⟩⟩ := h.free_cases hp
    · refine hinv.regained ⟨seg.flip i, ?_, i, hi, ?_, h.nodup.not_mem_erase⟩
      · change _ ∈ (s.pool.free _).segList
        simp [heq]
      · change _ = (seg.flip i).slot (s.pool.free _).itemSize.toNat i
        rw [heq]
        rfl
    · have hpre : pre ≠ [] := by
        rintro rfl
        have hhead := h.laid.head
        simp [hl, hdyn] at hhead
      obtain ⟨head, pre, rfl⟩ := List.exists_cons_of_ne_nil hpre
      have hbytes := (h.laid.tail seg (by simp [hl])).2
      have hmemory : (newSegment seg.addr).memory s.pool.itemSize.toNat =
          seg.memory s.pool.itemSize.toNat := by simp [Segment.memory, hdyn, newSegment, hbytes]
      have hslot : (newSegment seg.addr).slot s.pool.itemSize.toNat i =
          seg.slot s.pool.itemSize.toNat i := by simp [Segment.slot, newSegment, hbytes]
      refine hslot ▸ hinv.regained_fresh (fun t ht => ?_) hi
      change t ∈ (s.pool.free _).segList at ht
      change Disjoint ((newSegment seg.addr).memory s.pool.itemSize.toNat) _
      rw [heq] at ht
      rw [hmemory]
      have hapart := List.pairwise_append.mp (hl ▸ h.laid.apart)
      rcases List.mem_append.mp ht with ht | ht
      · exact (hapart.2.2 t ht seg List.mem_cons_self).symm
      · exact (List.pairwise_cons.mp hapart.2.1).1 t ht
  release i hlegal seg hseg := by
    dsimp only
    intro hgone
    have hstay : ∀ segList : List Segment, seg.bytes ∈ segList.map (·.bytes) →
        (FlexMem.step s i).1.pool.segList = segList → False := fun _ hmem heq =>
      hgone (by rwa [Pool.Has, heq])
    have hkept : ∀ {pre t post} (i : ℕ), s.pool.segList = pre ++ t :: post →
        seg.bytes ∈ (pre ++ t.flip i :: post).map (·.bytes) := fun i hl => by
      have hmem := List.mem_map_of_mem (f := fun t : Segment => t.bytes) hseg
      rw [hl] at hmem
      simpa [Segment.flip] using hmem
    cases i with
    | segAlloc talloc =>
      cases talloc with
      | none => exact (hstay _ (List.mem_map_of_mem hseg) rfl).elim
      | some addr => exact (hstay _ (List.mem_map_of_mem (List.mem_append_left _ hseg)) rfl).elim
    | alloc talloc =>
      rcases h.alloc_cases talloc with ⟨pre, t, post, i, -, hl, -, heq⟩ | ⟨-, heq⟩
      · exact (hstay _ (hkept i hl) (congrArg (·.1.segList) heq)).elim
      · cases talloc with
        | none => exact (hstay _ (List.mem_map_of_mem hseg) (congrArg (·.1.segList) heq)).elim
        | some addr => exact (hstay _ (List.mem_map_of_mem (List.mem_append_left _ hseg))
            (congrArg (·.1.segList) heq)).elim
    | free p =>
      have hinv := h.free hlegal
      obtain ⟨pre, t, post, i, hi, hl, rfl, heq | ⟨-, hdyn, hlimit, heq⟩⟩ := h.free_cases hlegal
      · exact (hstay _ (hkept i hl) (congrArg (·.segList) heq)).elim
      · have hsegs : (FlexMem.step s (.free (t.slot s.pool.itemSize.toNat i))).1.pool.segList =
            pre ++ post := congrArg (·.segList) heq
        have hcount := h.count
        rw [hl] at hcount hseg
        simp only [List.length_append, List.length_cons] at hcount
        refine ⟨fun q hq hmem => ?_, ?_⟩
        · obtain ⟨t', ht', j, hj, rfl⟩ := hinv.slots q hq
          rw [hsegs] at ht'
          have hin : t' ∈ pre ++ t :: post := by
            simp only [List.mem_append, List.mem_cons] at ht' ⊢
            tauto
          have hslot := (hl ▸ h.laid).slot_mem h.pos hin hj
          obtain rfl := (hl ▸ h.laid).eq_of_mem hin hseg hslot hmem
          exact hstay _ (List.mem_map_of_mem ht') hsegs
        · rw [hsegs, List.length_append]
          omega

theorem inv_definePool {head headBytes : ℕ} {sizeOfItem rmLimit : UInt16} (hpos : sizeOfItem ≠ 0) :
    Inv ⟨definePool head headBytes sizeOfItem rmLimit, []⟩ where
  pos := Nat.pos_of_ne_zero fun h => hpos (UInt16.toNat_inj.mp h)
  laid := ⟨rfl, (by simp [definePool]), List.pairwise_singleton ..⟩
  count := rfl
  nodup := .nil
  slots _ h := by cases h
  shows seg hseg := by
    rw [List.mem_singleton.mp hseg]
    exact .zero fun i h => by cases h.2

/-- A pool is sound after the turns of its initialisation, and allocations and frees in any order. -/
theorem flexMem_sound (head headBytes : ℕ) {sizeOfItem : UInt16} (rmLimit : UInt16)
    (hpos : sizeOfItem ≠ 0) {inputs : List Input}
    (hlegal : machine.Meets (fun s i => i.Legal s)
      ⟨definePool head headBytes sizeOfItem rmLimit, []⟩ inputs) :
    Sound (machine.run ⟨definePool head headBytes sizeOfItem rmLimit, []⟩ inputs).1 :=
  (machine.invariant_of_meets (I := Inv) (fun _ _ h hi => h.step hi) (inv_definePool hpos)
    hlegal).sound

theorem meets_none (n : ℕ) (s : State) :
    machine.Meets (fun s i => i.Legal s) s (List.replicate n (.alloc none)) := by
  induction n generalizing s with
  | zero => trivial
  | succ n ih => exact ⟨legal_none, ih _⟩

/-- All items of the first segment, and one of a segment that is got for it and released again. -/
def nextSegment : List Input :=
  List.replicate 32 (.alloc none) ++ [.alloc (some 5000), .free (5000 + sizeofSegment), .free 1000]

theorem flexMem_sound_nextSegment :
    let s := (machine.run ⟨definePool 0 1000 8 0, []⟩ nextSegment).1
    s.pool.segList.length = 1 ∧ s.live.length = 31 ∧ Sound s := by
  refine ⟨by decide +kernel, by decide +kernel, flexMem_sound 0 1000 0 (by decide) ?_⟩
  refine (machine.meets_append ..).mpr ⟨meets_none .., ?_, ?_, ?_, trivial⟩
  · intro addr haddr seg hseg
    obtain rfl := Option.some.inj haddr
    have hfirst : seg = ⟨0, false, BitVec.allOnes 32, 1000⟩ := List.mem_singleton.mp hseg
    rw [hfirst]
    exact Set.Ico_disjoint_Ico.mpr (by decide)
  · change 5000 + sizeofSegment ∈ _
    decide +kernel
  · change 1000 ∈ _
    decide +kernel

end KernelModules.FlexMem
