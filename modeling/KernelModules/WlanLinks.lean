import KernelModules.WlanNodes
import Mathlib.Data.Fintype.Card

/-!
# The lists of the vdevs

A node of a non-scan command is in a list of the pdev and in the same list of its vdev. To link
it and to unlink it change both, and the bit of the vdev with them when the list is the active
one.

`WellFormed` holds of every state of the non-scan commands that steps reach, whatever the
components ask for.
-/

namespace KernelModules.WlanSer

variable {m : ℕ}

namespace PdevQueue

variable (q : PdevQueue m)

variable {size : ℕ}
variable {hand : List ℕ}

theorem Kept.setActive {q : PdevQueue m} (h : q.Kept hand size)
    (b : Bool) (v : Fin m) : (q.setActive b v).Kept hand size :=
  ⟨h.conserved, h.pool_zero, h.pending_idle⟩

theorem Kept.clearActive {q : PdevQueue m} (h : q.Kept hand size)
    (b : Bool) (v : Fin m) : (q.clearActive b v).Kept hand size :=
  ⟨h.conserved, h.pool_zero, h.pending_idle⟩

theorem Kept.setWaiting {q : PdevQueue m} (h : q.Kept hand size)
    (w : UInt16) : (q.setWaiting w).Kept hand size :=
  ⟨h.conserved, h.pool_zero, h.pending_idle⟩

end PdevQueue

namespace NonScan

def ofVdev (s : NonScan m) (v : Fin m) (n : ℕ) : Bool := (s.pdevQ.cmd n).vdev == some v

def marked (s : NonScan m) (n : ℕ) : Bool := (s.pdevQ.cmds n).cmdInUse.markedForActivation

def activating (s : NonScan m) : List ℕ := s.activations.map Activation.node

structure WellFormed (c : SerConfig m) (s : NonScan m) (hand : List ℕ) : Prop where
  kept : s.pdevQ.Kept hand c.cmdPoolSize
  has_vdev : ∀ a, ∀ n ∈ s.pdevQ.list a, (s.pdevQ.cmd n).vdev ≠ none
  vdev_list : ∀ v a, (s.vdevQ v).list a = (s.pdevQ.list a).filter (s.ofVdev v)
  one_active : ∀ v, ((s.vdevQ v).list true).length ≤ 1
  bitmap : Bitmap.Shows s.pdevQ.vdevActiveCmdBitmap fun i =>
    ∃ v : Fin m, v.val = i ∧ (s.vdevQ v).list true ≠ []
  activating_marked : ∀ n ∈ s.activating, n ∈ s.pdevQ.list true ∧ s.marked n = true
  activating_nodup : s.activating.Nodup

variable {c : SerConfig m} {s : NonScan m} {hand : List ℕ}

namespace WellFormed

variable {v : Fin m} {n : ℕ}

theorem mem_vdev_list (h : s.WellFormed c hand) {a : Bool} :
    n ∈ (s.vdevQ v).list a ↔ n ∈ s.pdevQ.list a ∧ (s.pdevQ.cmd n).vdev = some v := by
  rw [h.vdev_list, List.mem_filter, ofVdev, beq_iff_eq]

theorem bit_eq_zero_iff (h : s.WellFormed c hand) (v : Fin m) :
    s.pdevQ.vdevActiveCmdBitmap &&& vdevBit v = 0 ↔ (s.vdevQ v).list true = [] := by
  rw [vdevBit, h.bitmap.and_bit_eq_zero_iff]
  constructor
  · intro hno
    by_contra hne
    exact hno ⟨v, rfl, hne⟩
  · rintro hnil ⟨u, hu, hne⟩
    rw [Fin.ext hu] at hne
    exact hne hnil

theorem bitmap_eq_zero_iff (h : s.WellFormed c hand) :
    s.pdevQ.vdevActiveCmdBitmap = 0 ↔ s.pdevQ.list true = [] := by
  rw [h.bitmap.eq_zero_iff]
  constructor
  · intro hno
    rw [List.eq_nil_iff_forall_not_mem]
    intro n hn
    obtain ⟨v, hv⟩ := Option.ne_none_iff_exists'.mp (h.has_vdev true n hn)
    have hmem : n ∈ (s.vdevQ v).list true := h.mem_vdev_list.mpr ⟨hn, hv⟩
    exact hno v.val ⟨v, rfl, List.ne_nil_of_mem hmem⟩
  · rintro hnil i ⟨v, -, hne⟩
    rw [h.vdev_list, hnil] at hne
    exact hne rfl

theorem vdevCmdActive_iff (h : s.WellFormed c hand)
    (hv : (s.pdevQ.cmd n).vdev = some v) :
    s.pdevQ.vdevCmdActive n = true ↔ (s.vdevQ v).list true ≠ [] := by
  rw [PdevQueue.vdevCmdActive, hv, Option.any_some, bne_iff_ne, ne_eq]
  exact not_congr (h.bit_eq_zero_iff v)

theorem eq_of_vdev_eq (h : s.WellFormed c hand) {k : ℕ} (hn : n ∈ s.pdevQ.list true)
    (hk : k ∈ s.pdevQ.list true) (hv : (s.pdevQ.cmd n).vdev = (s.pdevQ.cmd k).vdev) : n = k := by
  obtain ⟨v, hnv⟩ := Option.ne_none_iff_exists'.mp (h.has_vdev true n hn)
  have hmemn : n ∈ (s.vdevQ v).list true := h.mem_vdev_list.mpr ⟨hn, hnv⟩
  have hmemk : k ∈ (s.vdevQ v).list true := h.mem_vdev_list.mpr ⟨hk, hv ▸ hnv⟩
  obtain ⟨x, hx⟩ | hnil := Nat.lt_or_ge 0 ((s.vdevQ v).list true).length |>.imp
    (fun hpos => List.length_eq_one_iff.mp (le_antisymm (h.one_active v) hpos)) id
  · rw [hx, List.mem_singleton] at hmemn hmemk
    rw [hmemn, hmemk]
  · rw [List.eq_nil_of_length_eq_zero (Nat.le_zero.mp hnil)] at hmemn
    cases hmemn

theorem active_length_lt (h : s.WellFormed c hand) (hv : (s.vdevQ v).list true = []) :
    (s.pdevQ.list true).length < m := by
  have hnodup : ((s.pdevQ.list true).map fun n => (s.pdevQ.cmd n).vdev).Nodup := by
    apply List.Nodup.map_on
    · intro n hn k hk hnk
      exact h.eq_of_vdev_eq hn hk hnk
    · exact h.kept.conserved.nodup true
  have hsub : ((s.pdevQ.list true).map fun n => (s.pdevQ.cmd n).vdev).toFinset ⊆
      (Finset.univ.erase v).image some := by
    intro x hx
    obtain ⟨n, hn, rfl⟩ := List.mem_map.mp (List.mem_toFinset.mp hx)
    obtain ⟨u, hu⟩ := Option.ne_none_iff_exists'.mp (h.has_vdev true n hn)
    have hmem : n ∈ (s.vdevQ u).list true := h.mem_vdev_list.mpr ⟨hn, hu⟩
    have hne : u ≠ v := by
      rintro rfl
      rw [hv] at hmem
      cases hmem
    rw [hu]
    exact Finset.mem_image_of_mem some (Finset.mem_erase.mpr ⟨hne, Finset.mem_univ u⟩)
  have hcard := Finset.card_le_card hsub
  rw [List.toFinset_card_of_nodup hnodup, List.length_map] at hcard
  have himage := Finset.card_image_le (s := Finset.univ.erase v) (f := some)
  rw [Finset.card_erase_of_mem (Finset.mem_univ v), Finset.card_univ, Fintype.card_fin] at himage
  have hpos : 0 < m := Nat.lt_of_le_of_lt (Nat.zero_le _) v.isLt
  omega

end WellFormed

def link (s : NonScan m) (n : ℕ) (v : Fin m) (a : Bool) : NonScan m :=
  let cmd := s.pdevQ.cmd n
  let vq := { s.vdevQ v with queueDisable := cmd.queueDisable || (s.vdevQ v).queueDisable }
  let q := s.pdevQ.setList a (place cmd n (s.pdevQ.list a))
  (s.setVdev v (vq.setList a (place cmd n (vq.list a)))).setPdev
    (if a then q.setActive cmd.isBlocking v else q)

def unlink (s : NonScan m) (n : ℕ) (v : Fin m) (a : Bool) : NonScan m :=
  let q := s.pdevQ.setList a ((s.pdevQ.list a).erase n)
  (s.setVdev v ((s.vdevQ v).setList a (((s.vdevQ v).list a).erase n))).setPdev
    (if a then q.clearActive (s.pdevQ.cmd n).isBlocking v else q)

variable (s) in
theorem link_cmds (n : ℕ) (v : Fin m) (a : Bool) : (s.link n v a).pdevQ.cmds = s.pdevQ.cmds := by
  cases a <;> rfl

variable (s) in
theorem unlink_cmds (n : ℕ) (v : Fin m) (a : Bool) :
    (s.unlink n v a).pdevQ.cmds = s.pdevQ.cmds := by
  cases a <;> rfl

variable (s) in
theorem link_list (n : ℕ) (v : Fin m) (a b : Bool) :
    (s.link n v a).pdevQ.list b =
      if b = a then place (s.pdevQ.cmd n) n (s.pdevQ.list a) else s.pdevQ.list b := by
  cases a <;> cases b <;> rfl

variable (s) in
theorem unlink_list (n : ℕ) (v : Fin m) (a b : Bool) :
    (s.unlink n v a).pdevQ.list b =
      if b = a then (s.pdevQ.list a).erase n else s.pdevQ.list b := by
  cases a <;> cases b <;> rfl

variable (s) in
theorem update_vdev_list (v u : Fin m) (a b : Bool) (l : List ℕ) {q : VdevQueue}
    (hq : q.list b = (s.vdevQ v).list b) :
    (Function.update s.vdevQ v (q.setList a l) u).list b =
      if u = v ∧ b = a then l else (s.vdevQ u).list b := by
  by_cases hu : u = v
  · subst u
    rw [Function.update_self, VdevQueue.list_setList, hq]
    simp
  · rw [Function.update_of_ne hu, if_neg (fun hc => hu hc.1)]

variable (s) in
theorem link_vdev_list (n : ℕ) (v u : Fin m) (a b : Bool) :
    ((s.link n v a).vdevQ u).list b =
      if u = v ∧ b = a then place (s.pdevQ.cmd n) n ((s.vdevQ v).list a)
      else (s.vdevQ u).list b :=
  s.update_vdev_list v u a b _ (by cases b <;> rfl)

variable (s) in
theorem unlink_vdev_list (n : ℕ) (v u : Fin m) (a b : Bool) :
    ((s.unlink n v a).vdevQ u).list b =
      if u = v ∧ b = a then ((s.vdevQ v).list a).erase n else (s.vdevQ u).list b :=
  s.update_vdev_list v u a b _ rfl

variable {t : NonScan m} {n : ℕ} {v : Fin m} {a : Bool}

theorem cmd_congr {s : NonScan m} (h : t.pdevQ.cmds = s.pdevQ.cmds) (n : ℕ) :
    t.pdevQ.cmd n = s.pdevQ.cmd n := by
  rw [PdevQueue.cmd, h, PdevQueue.cmd]

theorem ofVdev_congr {s : NonScan m} (h : t.pdevQ.cmds = s.pdevQ.cmds) (v : Fin m) :
    t.ofVdev v = s.ofVdev v := by
  funext n
  rw [ofVdev, cmd_congr h, ofVdev]

theorem marked_congr {s : NonScan m} (h : t.pdevQ.cmds = s.pdevQ.cmds) (n : ℕ) :
    t.marked n = s.marked n := by
  rw [marked, h, marked]

theorem WellFormed.link (h : s.WellFormed c (n :: hand))
    (hv : (s.pdevQ.cmd n).vdev = some v)
    (hidle : a = false → (s.pdevQ.cmds n).cmdInUse = {})
    (hroom : a = true → (s.vdevQ v).list true = []) : (s.link n v a).WellFormed c hand := by
  have hcmds := s.link_cmds n v a
  have hfree : ∀ b, n ∉ s.pdevQ.list b := h.kept.conserved.notMem_hand
  constructor
  · have hkept := h.kept.insert hidle (s.pdevQ.cmd n)
    cases a with
    | true => exact hkept.setActive _ _
    | false => exact hkept
  · intro b k hk
    rw [cmd_congr hcmds]
    rw [link_list] at hk
    split at hk
    · rcases mem_place.mp hk with rfl | hk
      · rw [hv]
        exact Option.some_ne_none v
      · exact h.has_vdev a k hk
    · exact h.has_vdev b k hk
  · intro u b
    rw [ofVdev_congr hcmds, link_list, link_vdev_list]
    by_cases hb : b = a
    · subst b
      rw [if_pos rfl, filter_place]
      by_cases hu : u = v
      · subst u
        have hof : s.ofVdev v n = true := by rw [ofVdev, hv, beq_self_eq_true]
        rw [if_pos ⟨rfl, rfl⟩, if_pos hof, h.vdev_list]
      · have hof : s.ofVdev u n = false := by
          rw [ofVdev, hv, beq_eq_false_iff_ne]
          exact fun heq => hu (Option.some.inj heq).symm
        rw [if_neg (fun hc => hu hc.1), hof, if_neg Bool.false_ne_true, h.vdev_list]
    · rw [if_neg hb, if_neg (fun hc => hb hc.2), h.vdev_list]
  · intro u
    rw [link_vdev_list]
    split
    next hc =>
      have ha : a = true := hc.2.symm
      subst a
      rw [length_place, hroom rfl, List.length_nil]
    next => exact h.one_active u
  · cases a with
    | true =>
      apply (h.bitmap.or_bit (i := v.val) (by have := c.maxVdevs_le; omega)).congr
      intro i
      constructor
      · rintro (rfl | ⟨u, hu, hne⟩)
        · refine ⟨v, rfl, ?_⟩
          rw [link_vdev_list, if_pos ⟨rfl, rfl⟩]
          exact List.ne_nil_of_mem (mem_place.mpr (.inl rfl))
        · refine ⟨u, hu, ?_⟩
          rw [link_vdev_list]
          split
          · exact List.ne_nil_of_mem (mem_place.mpr (.inl rfl))
          · exact hne
      · rintro ⟨u, hu, hne⟩
        by_cases huv : u = v
        · exact .inl (by rw [← hu, huv])
        · rw [link_vdev_list, if_neg (fun hc => huv hc.1)] at hne
          exact .inr ⟨u, hu, hne⟩
    | false =>
      apply h.bitmap.congr
      intro i
      apply exists_congr
      intro u
      rw [link_vdev_list, if_neg (fun hc => Bool.false_ne_true hc.2.symm)]
  · intro k hk
    have hold := h.activating_marked k hk
    refine ⟨?_, ?_⟩
    · rw [link_list]
      split
      next hc =>
        rw [hc] at hold
        exact mem_place.mpr (.inr hold.1)
      next => exact hold.1
    · rw [marked_congr hcmds]
      exact hold.2
  · exact h.activating_nodup

theorem WellFormed.unlink (h : s.WellFormed c hand)
    (hn : n ∈ s.pdevQ.list a) (hv : (s.pdevQ.cmd n).vdev = some v)
    (hmark : a = true → s.marked n = false) : (s.unlink n v a).WellFormed c (n :: hand) := by
  have hcmds := s.unlink_cmds n v a
  have hmem : n ∈ (s.vdevQ v).list a := h.mem_vdev_list.mpr ⟨hn, hv⟩
  have hgone : a = true → ((s.vdevQ v).list true).erase n = [] := by
    intro ha
    subst a
    obtain ⟨x, hx⟩ := List.length_eq_one_iff.mp
      (le_antisymm (h.one_active v) (List.length_pos_of_mem hmem))
    rw [hx, List.mem_singleton] at hmem
    rw [hx, hmem, List.erase_cons_head]
  constructor
  · have hkept := h.kept.erase hn
    cases a with
    | true => exact hkept.clearActive _ _
    | false => exact hkept
  · intro b k hk
    rw [cmd_congr hcmds]
    rw [unlink_list] at hk
    split at hk
    · exact h.has_vdev a k (List.mem_of_mem_erase hk)
    · exact h.has_vdev b k hk
  · intro u b
    rw [ofVdev_congr hcmds, unlink_list, unlink_vdev_list]
    by_cases hb : b = a
    · subst b
      rw [if_pos rfl, ← List.erase_filter, ← h.vdev_list]
      by_cases hu : u = v
      · subst u
        rw [if_pos ⟨rfl, rfl⟩]
      · rw [if_neg (fun hc => hu hc.1), List.erase_of_not_mem]
        intro hnu
        have hvu := (h.mem_vdev_list.mp hnu).2
        rw [hv] at hvu
        exact hu (Option.some.inj hvu).symm
    · rw [if_neg hb, if_neg (fun hc => hb hc.2), h.vdev_list]
  · intro u
    rw [unlink_vdev_list]
    split
    next hc =>
      have ha : a = true := hc.2.symm
      subst a
      rw [hgone rfl, List.length_nil]
      omega
    next => exact h.one_active u
  · cases a with
    | true =>
      apply (h.bitmap.and_not_bit v.val).congr
      intro i
      constructor
      · rintro ⟨hi, u, hu, hne⟩
        refine ⟨u, hu, ?_⟩
        have huv : u ≠ v := fun heq => hi (by rw [← hu, heq])
        rwa [unlink_vdev_list, if_neg (fun hc => huv hc.1)]
      · rintro ⟨u, hu, hne⟩
        by_cases huv : u = v
        · rw [unlink_vdev_list, if_pos ⟨huv, rfl⟩] at hne
          exact absurd (hgone rfl) hne
        · rw [unlink_vdev_list, if_neg (fun hc => huv hc.1)] at hne
          exact ⟨fun hi => huv (Fin.ext (hu.trans hi)), u, hu, hne⟩
    | false =>
      apply h.bitmap.congr
      intro i
      apply exists_congr
      intro u
      rw [unlink_vdev_list, if_neg (fun hc => Bool.false_ne_true hc.2.symm)]
  · intro k hk
    have hold := h.activating_marked k hk
    refine ⟨?_, ?_⟩
    · rw [unlink_list]
      split
      next hc =>
        have ha : a = true := hc.symm
        have hkn : k ≠ n := by
          rintro rfl
          rw [hmark ha] at hold
          exact Bool.false_ne_true hold.2
        rw [ha]
        exact (List.mem_erase_of_ne hkn).mpr hold.1
      next => exact hold.1
    · rw [marked_congr hcmds]
      exact hold.2
  · exact h.activating_nodup

end NonScan

end KernelModules.WlanSer
