import KernelModules.Defrag

/-!
# When the fragments of an MPDU are reassembled

A fragment above the tail keeps the list ascending, and a duplicate is found at the first fragment
that is not below it. Any other fragment goes behind a larger one. So the fragments of an MPDU are
reassembled exactly when they arrive in ascending order, duplicates aside.
-/

namespace KernelModules.Defrag

open List

variable {frags : List Frag}

theorem setLast_append {node : Frag} (h : node ∉ frags) (frag : Frag) :
    setLast node frag (frags ++ [node]) = frags ++ [node, frag] := by
  induction frags with
  | nil => exact if_pos rfl
  | cons cur rest ih =>
    have hcur : cur ≠ node := fun heq => h (heq ▸ mem_cons_self)
    have hrest := ih fun hmem => h (mem_cons_of_mem _ hmem)
    rw [cons_append, setLast, if_neg hcur, hrest, cons_append]

variable {frag : Frag}

theorem mem_setLast {node g : Frag} (h : g ∈ setLast node frag frags) : g = frag ∨ g ∈ frags := by
  induction frags with
  | nil => cases h
  | cons cur rest ih =>
    unfold setLast at h
    split at h
    · rcases mem_pair.mp h with rfl | rfl
      · exact .inr mem_cons_self
      · exact .inl rfl
    · rcases mem_cons.mp h with rfl | hrest
      · exact .inr mem_cons_self
      · exact (ih hrest).imp_right (mem_cons_of_mem _)

theorem mem_insertBehind {g : Frag} (h : g ∈ insertBehind frag frags) : g = frag ∨ g ∈ frags := by
  induction frags with
  | nil => cases h
  | cons cur rest ih =>
    unfold insertBehind at h
    split at h
    · rcases mem_cons.mp h with rfl | hrest
      · exact .inr mem_cons_self
      · exact (ih hrest).imp_right (mem_cons_of_mem _)
    · rcases mem_cons.mp h with rfl | hrest
      · exact .inr mem_cons_self
      · exact (mem_cons.mp hrest).imp_right (mem_cons_of_mem _)

theorem insertBehind_not_ascending
    (hnew : frag.fragno ∉ fragnos frags) (hlarger : ∃ g ∈ frags, frag.fragno < g.fragno) :
    ¬(fragnos (insertBehind frag frags)).Pairwise (· < ·) := by
  induction frags with
  | nil =>
    obtain ⟨g, hg, -⟩ := hlarger
    cases hg
  | cons cur rest ih =>
    intro hasc
    have hne : frag.fragno ≠ cur.fragno := fun heq => hnew (heq ▸ mem_cons_self)
    unfold insertBehind at hasc
    split at hasc
    · next hlt =>
        obtain ⟨g, hg, hgt⟩ := hlarger
        have hrest : g ∈ rest := by
          rcases mem_cons.mp hg with rfl | hrest
          · omega
          · exact hrest
        exact ih (fun hmem => hnew (mem_cons_of_mem _ hmem)) ⟨g, hrest, hgt⟩
          (pairwise_cons.mp hasc).2
    · have hlt := (pairwise_cons.mp hasc).1 frag.fragno mem_cons_self
      omega

theorem find_of_mem {i : ℕ} (hasc : (fragnos frags).Pairwise (· < ·))
    (hmem : i ∈ fragnos frags) : (frags.find? fun cur => i ≤ cur.fragno).any (·.fragno = i) = true := by
  induction frags with
  | nil => cases hmem
  | cons cur rest ih =>
    obtain ⟨hhead, hrest⟩ := pairwise_cons.mp hasc
    rcases mem_cons.mp hmem with rfl | hmem
    · have hpos : decide (cur.fragno ≤ cur.fragno) = true := decide_eq_true (Nat.le_refl _)
      rw [find?_cons, hpos]
      exact decide_eq_true rfl
    · have hlt : cur.fragno < i := hhead i hmem
      have hneg : decide (i ≤ cur.fragno) = false := decide_eq_false (by omega)
      rw [find?_cons, hneg]
      exact ih hrest hmem

theorem find_of_not_mem {i : ℕ} (hnew : i ∉ fragnos frags) :
    (frags.find? fun cur => i ≤ cur.fragno).any (·.fragno = i) = false := by
  cases hfind : frags.find? fun cur => i ≤ cur.fragno with
  | none => rfl
  | some g =>
    apply decide_eq_false
    intro heq
    exact hnew (mem_map.mpr ⟨g, mem_of_find?_eq_some hfind, heq⟩)

theorem inSequence_iff {count : ℕ} :
    inSequence count frags = true ↔ fragnos frags = range' count frags.length := by
  induction frags generalizing count with
  | nil => exact iff_of_true rfl rfl
  | cons next rest ih =>
    unfold inSequence
    rw [Bool.and_eq_true, decide_eq_true_iff, ih, length_cons, range'_succ]
    exact cons_eq_cons.symm

section Mpdu

variable {m : Mpdu}

theorem fragnos_append (frags : List Frag) (frag : Frag) :
    fragnos (frags ++ [frag]) = fragnos frags ++ [frag.fragno] := map_append

/-- The fragments of the MPDU that have arrived are in the slot, in order. -/
structure Stored (m : Mpdu) (arrived : List Frag) (slot : Slot) : Prop where
  mem_iff : ∀ i, i ∈ fragnos slot.frags ↔ i ∈ fragnos arrived
  ascending : (fragnos slot.frags).Pairwise (· < ·)
  tail_eq : slot.tail = slot.frags.getLast?
  has : ∀ frag ∈ slot.frags, m.Has frag

theorem stored_empty (m : Mpdu) : Stored m [] .empty where
  mem_iff := fun _ => Iff.rfl
  ascending := .nil
  tail_eq := rfl
  has := fun _ h => by cases h

variable {frags : List Frag}

theorem complete_iff (hasc : (fragnos frags).Pairwise (· < ·))
    (hhas : ∀ frag ∈ frags, m.Has frag) :
    m.Complete frags ↔ fragnos frags = range (m.last + 1) := by
  constructor
  · intro hall
    apply hasc.eq_of_mem_iff pairwise_lt_range
    intro i
    rw [mem_range]
    constructor
    · intro hi
      obtain ⟨frag, hmem, rfl⟩ := mem_map.mp hi
      have hle := (hhas frag hmem).fragno
      omega
    · intro hi
      exact hall i (by omega)
  · intro heq i hi
    rw [heq, mem_range]
    omega

variable {arrived : List Frag} {frag : Frag}

theorem complete_congr
    (h : ∀ i, i ∈ fragnos frags ↔ i ∈ fragnos arrived) : m.Complete frags ↔ m.Complete arrived :=
  forall_congr' fun i => imp_congr Iff.rfl (h i)

theorem allPresent_iff {head : Frag}
    (hasc : (fragnos (head :: frags ++ [frag])).Pairwise (· < ·))
    (hhas : ∀ g ∈ head :: frags ++ [frag], m.Has g) :
    allPresent ⟨head :: frags ++ [frag], some frag⟩ = true ↔ m.Complete (head :: frags ++ [frag]) := by
  have hmore := (hhas frag (mem_append_right _ (mem_singleton_self _))).moreFrag
  have hlen : (frags ++ [frag]).length = frags.length + 1 := length_append
  rw [complete_iff hasc hhas]
  unfold allPresent
  dsimp only [Option.any_some, cons_append, tail_cons]
  rw [Bool.and_eq_true, inSequence_iff, hlen, hmore, Bool.not_eq_true', decide_eq_false_iff_not,
    not_not]
  change (frag.fragno = m.last ∧ fragnos (frags ++ [frag]) = _) ↔
    head.fragno :: fragnos (frags ++ [frag]) = _
  have hhead := (pairwise_cons.mp hasc).1
  change ∀ i ∈ fragnos (frags ++ [frag]), head.fragno < i at hhead
  have hrange : ∀ k, range (k + 1) = 0 :: range' 1 k := fun k => by
    rw [range_eq_range', range'_succ]
  have hlast : fragnos (frags ++ [frag]) = range' 1 (frags.length + 1) →
      frag.fragno = frags.length + 1 := by
    intro heq
    rw [fragnos_append, range'_concat] at heq
    have htail := append_inj_right' heq rfl
    have hval := (cons.inj htail).1
    omega
  constructor
  · rintro ⟨hmax, heq⟩
    have hone : 1 ∈ fragnos (frags ++ [frag]) := by
      rw [heq, mem_range'_1]
      omega
    have hzero : head.fragno = 0 := by
      have := hhead 1 hone
      omega
    rw [← hmax, hlast heq, hrange, hzero, heq]
  · intro heq
    rw [hrange] at heq
    have hrest := (cons.inj heq).2
    have hcount : frags.length + 1 = m.last := by
      have := congrArg length hrest
      rw [fragnos, length_map, length_range', hlen] at this
      exact this
    rw [← hcount] at hrest ⊢
    exact ⟨hlast hrest, hrest⟩

section Arrival

variable {arrived : List Frag} {slot : Slot} {frag : Frag}

theorem mismatch_eq_false (hslot : ∀ g ∈ slot.frags, m.Has g) (hfrag : m.Has frag) :
    mismatch slot frag = false := by
  unfold mismatch
  cases hhead : slot.frags.head? with
  | none => rfl
  | some head =>
    have hhas := hslot head (mem_of_head? hhead)
    rw [Option.any_some, hfrag.rxseq, hhas.rxseq, hfrag.addr1, hhas.addr1, hfrag.addr2, hhas.addr2]
    simp only [ne_eq, not_true_eq_false, decide_false, Bool.or_self]

theorem storeFrag_insert (hslot : ∀ g ∈ slot.frags, m.Has g) (hfrag : m.Has frag)
    (hslow : ¬(¬frag.moreFrag ∧ frag.fragno = 0 ∧ slot.frags = [])) : storeFrag slot frag =
      match fraglistInsert slot frag with
      | (slot, freed, true) => (.empty, freed ++ [.defrag slot.frags])
      | (slot, freed, false) => (slot, freed) := by
  unfold storeFrag
  rw [if_neg hslow, mismatch_eq_false hslot hfrag]
  rfl

theorem storeFrag_of_ne_nil (hstored : Stored m arrived slot) (hfrag : m.Has frag)
    (hne : slot.frags ≠ []) : storeFrag slot frag =
      match fraglistInsert slot frag with
      | (slot, freed, true) => (.empty, freed ++ [.defrag slot.frags])
      | (slot, freed, false) => (slot, freed) :=
  storeFrag_insert hstored.has hfrag fun h => hne h.2.2

theorem Stored.exists_last (hstored : Stored m arrived slot) (hne : slot.frags ≠ []) :
    ∃ init last, slot.frags = init ++ [last] ∧ slot.tail = some last ∧
      ∀ i ∈ fragnos slot.frags, i ≤ last.fragno := by
  obtain ⟨last, hlast⟩ := Option.ne_none_iff_exists'.mp (mt getLast?_eq_none_iff.mp hne)
  obtain ⟨init, hinit⟩ := getLast?_eq_some_iff.mp hlast
  refine ⟨init, last, hinit, hstored.tail_eq.trans hlast, fun i hi => ?_⟩
  have hasc := hstored.ascending
  rw [hinit, fragnos_append] at hasc hi
  rcases mem_append.mp hi with hi | hi
  · exact Nat.le_of_lt ((pairwise_append.mp hasc).2.2 i hi _ (mem_singleton_self _))
  · exact Nat.le_of_eq (mem_singleton.mp hi)

theorem Stored.frags_ne_nil (hstored : Stored m arrived slot) {i : ℕ} (h : i ∈ fragnos arrived) :
    slot.frags ≠ [] := by
  intro hnil
  have hmem := (hstored.mem_iff i).mpr h
  rw [hnil] at hmem
  cases hmem

theorem storeFrag_duplicate (hstored : Stored m arrived slot) (hfrag : m.Has frag)
    (hdup : frag.fragno ∈ fragnos arrived) : storeFrag slot frag = (slot, [.free frag]) := by
  have hne := hstored.frags_ne_nil hdup
  obtain ⟨init, last, -, htail, hle⟩ := hstored.exists_last hne
  have hmem := (hstored.mem_iff _).mpr hdup
  have hlast := hle _ hmem
  rw [storeFrag_of_ne_nil hstored hfrag hne]
  unfold fraglistInsert
  rw [htail]
  dsimp only
  rw [if_neg (by omega), if_pos (find_of_mem hstored.ascending hmem)]

theorem storeFrag_first (hstored : Stored m arrived slot) (hfrag : m.Has frag)
    (hnil : slot.frags = []) : storeFrag slot frag =
      if m.Complete (arrived ++ [frag]) then (.empty, [.defrag [frag]])
      else (⟨[frag], some frag⟩, []) := by
  have harr : arrived = [] := by
    apply eq_nil_iff_forall_not_mem.mpr
    intro g hg
    exact hstored.frags_ne_nil (mem_map_of_mem hg) hnil
  have htail : slot.tail = none := by
    rw [hstored.tail_eq, hnil]
    rfl
  have hmore := hfrag.moreFrag
  have hle := hfrag.fragno
  have hone : m.Complete (arrived ++ [frag]) ↔ ¬frag.moreFrag ∧ frag.fragno = 0 := by
    rw [harr, hmore, decide_eq_true_iff, not_not]
    constructor
    · intro hall
      have hzero := mem_singleton.mp (hall 0 (Nat.zero_le _))
      have hlast := mem_singleton.mp (hall m.last (Nat.le_refl _))
      omega
    · rintro ⟨hlast, hzero⟩ i hi
      apply mem_singleton.mpr
      omega
  by_cases hfast : ¬frag.moreFrag ∧ frag.fragno = 0
  · unfold storeFrag
    rw [if_pos (hone.mpr hfast), if_pos ⟨hfast.1, hfast.2, hnil⟩]
  · rw [if_neg (fun h => hfast (hone.mp h)),
      storeFrag_insert hstored.has hfrag (fun h => hfast ⟨h.1, h.2.1⟩)]
    unfold fraglistInsert
    rw [htail]

theorem Stored.append (hstored : Stored m arrived slot) (hfrag : m.Has frag)
    (habove : ∀ i ∈ fragnos arrived, i < frag.fragno) :
    Stored m (arrived ++ [frag]) ⟨slot.frags ++ [frag], some frag⟩ where
  mem_iff := by
    intro i
    rw [fragnos_append, fragnos_append, mem_append, mem_append, hstored.mem_iff]
  ascending := by
    rw [fragnos_append]
    apply pairwise_append.mpr
    refine ⟨hstored.ascending, pairwise_singleton .., fun i hi j hj => ?_⟩
    rw [mem_singleton.mp hj]
    exact habove i ((hstored.mem_iff i).mp hi)
  tail_eq := (getLast?_concat ..).symm
  has := by
    intro g hg
    rcases mem_append.mp hg with hg | hg
    · exact hstored.has g hg
    · rw [mem_singleton.mp hg]
      exact hfrag

theorem storeFrag_above (hstored : Stored m arrived slot) (hfrag : m.Has frag)
    (hne : slot.frags ≠ []) (habove : ∀ i ∈ fragnos arrived, i < frag.fragno) :
    storeFrag slot frag =
      if m.Complete (arrived ++ [frag]) then (.empty, [.defrag (slot.frags ++ [frag])])
      else (⟨slot.frags ++ [frag], some frag⟩, []) := by
  have happend := hstored.append hfrag habove
  obtain ⟨init, last, hinit, htail, -⟩ := hstored.exists_last hne
  have hmem : last ∈ slot.frags := by
    rw [hinit]
    exact mem_append_right _ (mem_singleton_self _)
  have hlt := habove _ ((hstored.mem_iff _).mp (mem_map_of_mem hmem))
  have hnew : last ∉ init := by
    intro hin
    have hasc := hstored.ascending
    rw [hinit, fragnos_append] at hasc
    have hself := (pairwise_append.mp hasc).2.2 _ (mem_map_of_mem hin) _
      (mem_singleton_self _)
    omega
  have hset : setLast last frag slot.frags = slot.frags ++ [frag] := by
    rw [hinit, setLast_append hnew, append_assoc]
    rfl
  have hall : allPresent ⟨slot.frags ++ [frag], some frag⟩ = true ↔ m.Complete (arrived ++ [frag]) := by
    have hasc := happend.ascending
    have hhas := happend.has
    have hcongr := complete_congr (m := m) happend.mem_iff
    revert hasc hhas hcongr
    cases hfrags : slot.frags with
    | nil => exact absurd hfrags hne
    | cons head rest =>
      intro hasc hhas hcongr
      exact (allPresent_iff hasc hhas).trans hcongr
  rw [storeFrag_of_ne_nil hstored hfrag hne]
  unfold fraglistInsert
  rw [htail]
  dsimp only
  rw [if_pos hlt, hset]
  by_cases hcomplete : m.Complete (arrived ++ [frag])
  · rw [if_pos hcomplete, hall.mpr hcomplete]
    rfl
  · rw [if_neg hcomplete, Bool.eq_false_iff.mpr fun h => hcomplete (hall.mp h)]

theorem storeFrag_next (hstored : Stored m arrived slot) (hfrag : m.Has frag)
    (habove : ∀ i ∈ fragnos arrived, i < frag.fragno) :
    storeFrag slot frag =
      if m.Complete (arrived ++ [frag]) then (.empty, [.defrag (slot.frags ++ [frag])])
      else (⟨slot.frags ++ [frag], some frag⟩, []) := by
  by_cases hnil : slot.frags = []
  · rw [hnil]
    exact storeFrag_first hstored hfrag hnil
  · exact storeFrag_above hstored hfrag hnil habove

theorem storeFrag_below (hstored : Stored m arrived slot) (hfrag : m.Has frag)
    (hnew : frag.fragno ∉ fragnos arrived) (hbelow : ∃ i ∈ fragnos arrived, frag.fragno < i) :
    ¬(fragnos (storeFrag slot frag).1.frags).Pairwise (· < ·) ∨
      ∃ frags, ¬(fragnos frags).Pairwise (· < ·) ∧ (storeFrag slot frag).2 = [.defrag frags] := by
  obtain ⟨i, hi, hlt⟩ := hbelow
  have hne := hstored.frags_ne_nil hi
  obtain ⟨init, last, -, htail, hle⟩ := hstored.exists_last hne
  have hmem := (hstored.mem_iff i).mpr hi
  have hmax := hle i hmem
  have hnew' : frag.fragno ∉ fragnos slot.frags := fun h => hnew ((hstored.mem_iff _).mp h)
  have hlarger : ∃ g ∈ slot.frags, frag.fragno < g.fragno := by
    obtain ⟨g, hg, rfl⟩ := mem_map.mp hmem
    exact ⟨g, hg, hlt⟩
  have hnot := insertBehind_not_ascending hnew' hlarger
  rw [storeFrag_of_ne_nil hstored hfrag hne]
  unfold fraglistInsert
  rw [htail]
  dsimp only
  rw [if_neg (by omega), find_of_not_mem hnew', if_neg Bool.false_ne_true]
  cases hall : allPresent ⟨insertBehind frag slot.frags, some last⟩ with
  | true => exact .inr ⟨_, hnot, rfl⟩
  | false => exact .inl hnot

theorem fraglistInsert_spec (slot : Slot) (frag : Frag) :
    (∀ g ∈ (fraglistInsert slot frag).1.frags, g = frag ∨ g ∈ slot.frags) ∧
      ((fraglistInsert slot frag).2.1.filterMap Output.freed?).length ≤ 1 := by
  unfold fraglistInsert
  split
  · exact ⟨fun g hg => .inl (mem_singleton.mp hg), Nat.zero_le _⟩
  · split
    · exact ⟨fun g hg => mem_setLast hg, Nat.zero_le _⟩
    · split
      · exact ⟨fun g hg => .inr hg, Nat.le_refl _⟩
      · exact ⟨fun g hg => mem_insertBehind hg, Nat.zero_le _⟩

theorem storeFrag_spec (hslot : ∀ g ∈ slot.frags, m.Has g) (hfrag : m.Has frag) :
    (∀ g ∈ (storeFrag slot frag).1.frags, m.Has g) ∧
      ((storeFrag slot frag).2.filterMap Output.freed?).length ≤ 1 := by
  have hnone : ∀ g ∈ Slot.empty.frags, m.Has g := forall_mem_nil _
  by_cases hfast : ¬frag.moreFrag ∧ frag.fragno = 0 ∧ slot.frags = []
  · unfold storeFrag
    rw [if_pos hfast]
    exact ⟨hnone, Nat.zero_le _⟩
  · rw [storeFrag_insert hslot hfrag hfast]
    obtain ⟨hmem, hlen⟩ := fraglistInsert_spec slot frag
    generalize fraglistInsert slot frag = r at hmem hlen
    rcases r with ⟨slot', freed, all⟩
    cases all with
    | true =>
      refine ⟨hnone, ?_⟩
      rw [filterMap_append, length_append]
      exact hlen
    | false =>
      refine ⟨fun g hg => ?_, hlen⟩
      rcases hmem g hg with rfl | hg
      · exact hfrag
      · exact hslot g hg

end Arrival

theorem duplicates_append (before frags rest : List Frag) :
    duplicates before (frags ++ rest) =
      duplicates before frags ++ duplicates (frags.reverse ++ before) rest := by
  induction frags generalizing before with
  | nil => rfl
  | cons frag frags ih =>
    have hrev : (frag :: frags).reverse ++ before = frags.reverse ++ frag :: before := by
      rw [reverse_cons, append_assoc]
      rfl
    rw [cons_append, duplicates, duplicates, ih, hrev]
    split
    · rfl
    · rfl

theorem duplicates_of_mem {before : List Frag}
    (h : ∀ frag ∈ frags, frag.fragno ∈ fragnos before) : duplicates before frags = frags := by
  induction frags generalizing before with
  | nil => rfl
  | cons frag frags ih =>
    have hrest : ∀ g ∈ frags, g.fragno ∈ fragnos (frag :: before) := fun g hg =>
      mem_cons_of_mem frag.fragno (h g (mem_cons_of_mem _ hg))
    rw [duplicates, if_pos (h frag mem_cons_self), ih hrest]

theorem mem_fragnos_reverse {i : ℕ} : i ∈ fragnos (frags.reverse ++ []) ↔ i ∈ fragnos frags := by
  unfold fragnos
  rw [append_nil, map_reverse, mem_reverse]

theorem duplicates_concat (frags : List Frag) (frag : Frag) :
    duplicates [] (frags ++ [frag]) =
      duplicates [] frags ++ if frag.fragno ∈ fragnos frags then [frag] else [] := by
  rw [duplicates_append, duplicates]
  simp only [mem_fragnos_reverse]
  split
  · rfl
  · rfl

theorem inOrder_nil : InOrder m [] := by
  intro arrived frag rest heq
  cases arrived <;> cases heq

theorem inOrder_concat (frags : List Frag) (frag : Frag) :
    InOrder m (frags ++ [frag]) ↔ InOrder m frags ∧ ¬m.Complete frags ∧
      (frag.fragno ∉ fragnos frags → ∀ i ∈ fragnos frags, i < frag.fragno) := by
  constructor
  · intro h
    refine ⟨fun arrived g rest heq => h arrived g (rest ++ [frag]) ?_, h frags frag [] rfl⟩
    rw [heq, append_assoc]
    rfl
  · rintro ⟨h, hlast⟩ arrived g rest heq
    rcases eq_nil_or_concat rest with rfl | ⟨rest, g', rfl⟩
    · obtain ⟨rfl, hg⟩ := append_inj' heq rfl
      obtain rfl := (cons.inj hg).1
      exact hlast
    · have heq' : frags ++ [frag] = (arrived ++ g :: rest) ++ [g'] := by
        rw [heq, concat_eq_append, append_assoc, cons_append]
      exact h arrived g rest (append_inj' heq' rfl).1

theorem fragnos_concat_of_mem (h : frag.fragno ∈ fragnos frags)
    (i : ℕ) : i ∈ fragnos (frags ++ [frag]) ↔ i ∈ fragnos frags := by
  rw [fragnos_append, mem_append, mem_singleton, or_iff_left_of_imp]
  rintro rfl
  exact h

/-- Where the fragments arrive in order, those that are not duplicates are in the slot until they
are complete. -/
structure Kept (m : Mpdu) (frags : List Frag) : Prop where
  stored : ¬m.Complete frags → Stored m frags (store.run .empty frags).1
  taken : m.Complete frags → (store.run .empty frags).1 = .empty
  freed : (store.run .empty frags).2.filterMap Output.freed? = duplicates [] frags

theorem kept_nil (m : Mpdu) : Kept m [] where
  stored := fun _ => stored_empty m
  taken := fun _ => rfl
  freed := rfl

/-- What the next fragment in order does. -/
theorem kept_step (h : Kept m frags) (hfrag : m.Has frag)
    (hopen : ¬m.Complete frags)
    (horder : frag.fragno ∉ fragnos frags → ∀ i ∈ fragnos frags, i < frag.fragno) :
    Kept m (frags ++ [frag]) ∧
      (store.step (store.run .empty frags).1 frag).2.filterMap Output.handed? =
        if m.Complete (frags ++ [frag]) then [range (m.last + 1)] else [] := by
  have hstored := h.stored hopen
  have hrun := store.run_concat .empty frags frag
  have hdups := duplicates_concat frags frag
  change store.run .empty (frags ++ [frag]) = ((storeFrag _ frag).1, _ ++ (storeFrag _ frag).2) at hrun
  change _ ∧ (storeFrag _ frag).2.filterMap Output.handed? = _
  by_cases hdup : frag.fragno ∈ fragnos frags
  · have hcongr := complete_congr (m := m) (fragnos_concat_of_mem hdup)
    rw [storeFrag_duplicate hstored hfrag hdup] at hrun ⊢
    rw [if_pos hdup] at hdups
    rw [if_neg (fun hall => hopen (hcongr.mp hall))]
    refine ⟨⟨fun _ => ?_, fun hall => absurd (hcongr.mp hall) hopen, ?_⟩, rfl⟩
    · rw [hrun]
      exact { hstored with
        mem_iff := fun i => (hstored.mem_iff i).trans (fragnos_concat_of_mem hdup i).symm }
    · rw [hrun, filterMap_append, h.freed, hdups]
      rfl
  · have happend := hstored.append hfrag (horder hdup)
    rw [storeFrag_next hstored hfrag (horder hdup)] at hrun ⊢
    rw [if_neg hdup, append_nil] at hdups
    by_cases hall : m.Complete (frags ++ [frag])
    · rw [if_pos hall] at hrun ⊢
      refine ⟨⟨absurd hall, fun _ => ?_, ?_⟩, ?_⟩
      · rw [hrun]
      · rw [hrun, filterMap_append, h.freed, hdups]
        exact append_nil _
      · have hlist := (complete_iff happend.ascending happend.has).mp
          ((complete_congr happend.mem_iff).mpr hall)
        rw [if_pos hall, ← hlist]
        rfl
    · rw [if_neg hall] at hrun ⊢
      refine ⟨⟨fun _ => ?_, fun h => absurd h hall, ?_⟩, ?_⟩
      · rw [hrun]
        exact happend
      · rw [hrun, filterMap_append, h.freed, hdups]
        exact append_nil _
      · rw [if_neg hall]
        rfl

theorem kept_of_inOrder (hhas : ∀ frag ∈ frags, m.Has frag)
    (h : InOrder m frags) : Kept m frags := by
  induction frags using reverseRecOn with
  | nil => exact kept_nil m
  | append_singleton frags frag ih =>
    obtain ⟨hinit, hopen, horder⟩ := (inOrder_concat frags frag).mp h
    have hkept := ih (fun g hg => hhas g (mem_append_left _ hg)) hinit
    have hfrag := hhas frag (mem_append_right _ (mem_singleton_self _))
    exact (kept_step hkept hfrag hopen horder).1

theorem inOrder_of_append {rest : List Frag} (h : InOrder m frags)
    (heq : frags = arrived ++ rest) : InOrder m arrived := by
  intro arrived' frag rest' heq'
  apply h arrived' frag (rest' ++ rest)
  rw [heq, heq', append_assoc, cons_append]

theorem reassembled_of_inOrder (hhas : ∀ frag ∈ frags, m.Has frag)
    (h : InOrder m frags) : Reassembled m frags where
  ascending := by
    rintro arrived rest heq
    have hkept := kept_of_inOrder (fun g hg => hhas g (heq ▸ mem_append_left _ hg))
      (inOrder_of_append h heq)
    by_cases hall : m.Complete arrived
    · rw [hkept.taken hall]
      exact .nil
    · exact (hkept.stored hall).ascending
  handed := by
    intro arrived frag rest heq
    have hkept := kept_of_inOrder (fun g hg => hhas g (heq ▸ mem_append_left _ hg))
      (inOrder_of_append h heq)
    have hfrag := hhas frag (heq ▸ mem_append_right _ mem_cons_self)
    obtain ⟨hopen, horder⟩ := h arrived frag rest heq
    rw [(kept_step hkept hfrag hopen horder).2]
    simp only [hopen, not_false_eq_true, and_true]
  freed := (kept_of_inOrder hhas h).freed

theorem length_freed_run {slot : Slot} (hslot : ∀ g ∈ slot.frags, m.Has g)
    (hhas : ∀ frag ∈ frags, m.Has frag) :
    ((store.run slot frags).2.filterMap Output.freed?).length ≤ frags.length := by
  induction frags generalizing slot with
  | nil => exact Nat.le_refl _
  | cons frag frags ih =>
    obtain ⟨hslot', hone⟩ := storeFrag_spec hslot (hhas frag mem_cons_self)
    have hrest := ih hslot' fun g hg => hhas g (mem_cons_of_mem _ hg)
    rw [Machine.run_cons, filterMap_append, length_append, length_cons]
    change ((storeFrag slot frag).2.filterMap Output.freed?).length + _ ≤ _
    change ((store.run (storeFrag slot frag).1 frags).2.filterMap Output.freed?).length ≤ _ at hrest
    change _ + ((store.run (storeFrag slot frag).1 frags).2.filterMap Output.freed?).length ≤ _
    omega

theorem not_complete_of_freed {rest : List Frag}
    (hkept : Kept m arrived) (hhas : ∀ g ∈ arrived ++ frag :: rest, m.Has g)
    (hfreed : (store.run .empty (arrived ++ frag :: rest)).2.filterMap Output.freed? =
      duplicates [] (arrived ++ frag :: rest)) : ¬m.Complete arrived := by
  intro hall
  have hfrag := hhas frag (mem_append_right _ mem_cons_self)
  have hnone : ∀ g ∈ Slot.empty.frags, m.Has g := forall_mem_nil _
  have hdups : ∀ g ∈ frag :: rest, g.fragno ∈ fragnos (arrived.reverse ++ []) := fun g hg =>
    mem_fragnos_reverse.mpr (hall _ (hhas g (mem_append_right _ hg)).fragno)
  have hfirst : (storeFrag .empty frag).2.filterMap Output.freed? = [] := by
    by_cases hfast : ¬frag.moreFrag ∧ frag.fragno = 0 ∧ Slot.empty.frags = []
    · unfold storeFrag
      rw [if_pos hfast]
      rfl
    · rw [storeFrag_insert hnone hfrag hfast]
      rfl
  have hrest := length_freed_run (storeFrag_spec hnone hfrag).1 fun g hg =>
    hhas g (mem_append_right _ (mem_cons_of_mem frag hg))
  rw [duplicates_append, duplicates_of_mem hdups, Machine.run_append, filterMap_append,
    hkept.freed, hkept.taken hall, Machine.run_cons, filterMap_append] at hfreed
  have heq := congrArg length (append_cancel_left hfreed)
  change ((storeFrag .empty frag).2.filterMap Output.freed? ++ _).length = _ at heq
  rw [hfirst, nil_append, length_cons] at heq
  change ((store.run (storeFrag .empty frag).1 rest).2.filterMap Output.freed?).length = _ at heq
  omega

theorem above_of_ascending (hkept : Kept m arrived)
    (hfrag : m.Has frag) (hopen : ¬m.Complete arrived)
    (hasc : (fragnos (store.run .empty (arrived ++ [frag])).1.frags).Pairwise (· < ·))
    (hhanded : (store.step (store.run .empty arrived).1 frag).2.filterMap Output.handed? =
      if m.Complete (arrived ++ [frag]) ∧ ¬m.Complete arrived then [range (m.last + 1)] else [])
    (hnew : frag.fragno ∉ fragnos arrived) : ∀ i ∈ fragnos arrived, i < frag.fragno := by
  by_contra hbelow
  have hlarger : ∃ i ∈ fragnos arrived, frag.fragno < i := by
    simp only [not_forall, Nat.not_lt] at hbelow
    obtain ⟨i, hi, hle⟩ := hbelow
    have hne : frag.fragno ≠ i := fun heq => hnew (heq ▸ hi)
    exact ⟨i, hi, by omega⟩
  rw [Machine.run_concat] at hasc
  change (storeFrag _ frag).2.filterMap Output.handed? = _ at hhanded
  rcases storeFrag_below (hkept.stored hopen) hfrag hnew hlarger with hnot | ⟨frags, hnot, hout⟩
  · exact hnot hasc
  · rw [hout] at hhanded
    change [fragnos frags] = _ at hhanded
    split at hhanded
    · apply hnot
      rw [(cons.inj hhanded).1]
      exact pairwise_lt_range
    · cases hhanded

theorem inOrder_of_reassembled (hhas : ∀ frag ∈ frags, m.Has frag)
    (h : Reassembled m frags) : InOrder m frags := by
  have hinit : ∀ arrived rest, frags = arrived ++ rest → InOrder m arrived := by
    intro arrived
    induction arrived using reverseRecOn with
    | nil => exact fun _ _ => inOrder_nil
    | append_singleton arrived frag ih =>
      intro rest heq
      have heq' : frags = arrived ++ frag :: rest := by
        rw [heq, append_assoc]
        rfl
      have hin := ih _ heq'
      have hkept := kept_of_inOrder (fun g hg => hhas g (heq' ▸ mem_append_left _ hg)) hin
      have hfrag := hhas frag (heq' ▸ mem_append_right _ mem_cons_self)
      have hopen : ¬m.Complete arrived :=
        not_complete_of_freed hkept (heq' ▸ hhas) (heq' ▸ h.freed)
      exact (inOrder_concat arrived frag).mpr ⟨hin, hopen,
        above_of_ascending hkept hfrag hopen (h.ascending _ rest heq) (h.handed _ _ rest heq')⟩
  exact hinit frags [] (append_nil frags).symm

/-- The fragments of an MPDU are reassembled exactly when they arrive in ascending order, apart
from duplicates, and nothing arrives behind the last one that was missing. -/
theorem reassembled_iff_inOrder {frags : List Frag} (hhas : ∀ frag ∈ frags, m.Has frag) :
    Reassembled m frags ↔ InOrder m frags :=
  ⟨inOrder_of_reassembled hhas, reassembled_of_inOrder hhas⟩

end Mpdu

def twoFrags : Mpdu := ⟨0, .replicate 6 0, .replicate 6 0, 1⟩

def firstFrag : Frag := ⟨0, 0x04, 0, .replicate 6 0, .replicate 6 0⟩

def secondFrag : Frag := ⟨1, 0, 1, .replicate 6 0, .replicate 6 0⟩

theorem twoFrags_has : ∀ frag ∈ [firstFrag, secondFrag], twoFrags.Has frag := by
  intro frag hfrag
  rcases mem_pair.mp hfrag with rfl | rfl
  · exact ⟨rfl, rfl, rfl, by decide, by decide⟩
  · exact ⟨rfl, rfl, rfl, by decide, by decide⟩

theorem twoFrags_reassembled : Reassembled twoFrags [firstFrag, secondFrag] := by
  apply (reassembled_iff_inOrder twoFrags_has).mpr
  apply (inOrder_concat [firstFrag] secondFrag).mpr
  exact ⟨(inOrder_concat [] firstFrag).mpr ⟨inOrder_nil, by decide, by decide⟩, by decide, by decide⟩

/-- The second fragment arrives first: the slot holds 1, 0 and the list is never handed over. -/
theorem turned_not_reassembled : (∀ frag ∈ [secondFrag, firstFrag], twoFrags.Has frag) ∧
    ¬Reassembled twoFrags [secondFrag, firstFrag] := by
  refine ⟨fun frag hfrag => twoFrags_has frag (mem_reverse.mp hfrag), fun h => ?_⟩
  have hasc := h.ascending [secondFrag, firstFrag] [] rfl
  revert hasc
  decide

end KernelModules.Defrag
