import Mathlib.Data.List.Nodup

/-!
# Things on shelves

Each shelf of a list holds a list of things. When what one shelf holds is replaced, the shelves
together lose what it held and gain what it holds then; when shelves are cleared they lose what
those held. With no thing in two places, a thing is on one shelf only.
-/

namespace Shelves

open Function

variable {ι β : Type*} {shelves done : List ι} {f g : ι → List β} {i j : ι} {x : β}

theorem flatMap_congr (h : ∀ i ∈ shelves, g i = f i) : shelves.flatMap g = shelves.flatMap f := by
  induction shelves with
  | nil => rfl
  | cons i shelves ih =>
    rw [List.flatMap_cons, List.flatMap_cons, h i List.mem_cons_self,
      ih fun j hj => h j (List.mem_cons_of_mem i hj)]

theorem mem_flatMap_of_mem (hi : i ∈ shelves) (hx : x ∈ f i) : x ∈ shelves.flatMap f :=
  List.mem_flatMap.mpr ⟨i, hi, hx⟩

theorem nodup_of_mem (h : (shelves.flatMap f).Nodup) (hi : i ∈ shelves) : (f i).Nodup :=
  (List.nodup_flatMap.mp h).1 i hi

theorem eq_of_mem (h : (shelves.flatMap f).Nodup) (hi : i ∈ shelves) (hj : j ∈ shelves)
    (hxi : x ∈ f i) (hxj : x ∈ f j) : i = j := by
  induction shelves with
  | nil => cases hi
  | cons k shelves ih =>
    rw [List.flatMap_cons] at h
    obtain ⟨-, hrest, hdisj⟩ := List.nodup_append.mp h
    rcases List.mem_cons.mp hi with rfl | htail
    · rcases List.mem_cons.mp hj with rfl | htail'
      · rfl
      · exact absurd rfl (hdisj x hxi x (mem_flatMap_of_mem htail' hxj))
    · rcases List.mem_cons.mp hj with rfl | htail'
      · exact absurd rfl (hdisj x hxj x (mem_flatMap_of_mem htail hxi))
      · exact ih hrest htail htail'

theorem perm_update [DecidableEq ι] (hnodup : shelves.Nodup) (hi : i ∈ shelves) (y : List β) :
    (shelves.flatMap (update f i y) ++ f i).Perm (shelves.flatMap f ++ y) := by
  induction shelves with
  | nil => cases hi
  | cons j shelves ih =>
    obtain ⟨hj, hnodup⟩ := List.nodup_cons.mp hnodup
    rw [List.flatMap_cons, List.flatMap_cons]
    rcases List.mem_cons.mp hi with rfl | hi
    · have hrest : shelves.flatMap (update f i y) = shelves.flatMap f :=
        flatMap_congr fun k hk => update_of_ne (fun heq : k = i => hj (heq ▸ hk)) ..
      rw [update_self, hrest]
      calc (y ++ shelves.flatMap f ++ f i).Perm (f i ++ (y ++ shelves.flatMap f)) :=
            List.perm_append_comm
        _ |>.Perm (f i ++ (shelves.flatMap f ++ y)) := List.perm_append_comm.append_left _
        _ |>.Perm (f i ++ shelves.flatMap f ++ y) := by rw [List.append_assoc]
    · have hne : j ≠ i := fun heq => hj (heq ▸ hi)
      rw [update_of_ne hne, List.append_assoc, List.append_assoc]
      exact (ih hnodup hi).append_left _

theorem perm_clear [DecidableEq ι] (hnodup : shelves.Nodup) (hdone : done.Nodup)
    (hsub : done ⊆ shelves) :
    (shelves.flatMap f).Perm
      (shelves.flatMap (fun i => if i ∈ done then [] else f i) ++ done.flatMap f) := by
  induction done with
  | nil => simp
  | cons j done ih =>
    obtain ⟨hj, hdone⟩ := List.nodup_cons.mp hdone
    have hmem : j ∈ shelves := hsub List.mem_cons_self
    have hrest := ih hdone fun k hk => hsub (List.mem_cons_of_mem j hk)
    have hupdate : (fun i => if i ∈ j :: done then [] else f i) =
        update (fun i => if i ∈ done then [] else f i) j [] := by
      funext k
      rw [update_apply]
      by_cases hk : k = j
      · simp [hk]
      · simp [hk]
    have hone := perm_update (f := fun i => if i ∈ done then [] else f i) hnodup hmem []
    rw [if_neg hj, List.append_nil] at hone
    rw [hupdate, List.flatMap_cons, ← List.append_assoc]
    exact hrest.trans (hone.symm.append_right _)

def Sorted (f : ι → List β) : Prop :=
  (∀ i, (f i).Nodup) ∧ ∀ x, ∃! i, x ∈ f i

theorem Sorted.eq (h : Sorted f) (hi : x ∈ f i) (hj : x ∈ f j) : i = j :=
  (h.2 x).unique hi hj

theorem Sorted.move (h : Sorted f) (hne : i ≠ j) (hi : f i = x :: g i) (hj : g j = f j ++ [x])
    (hrest : ∀ k, k ≠ i → k ≠ j → g k = f k) : Sorted g := by
  have hxi : x ∈ f i := hi ▸ List.mem_cons_self
  have hxj : x ∉ f j := fun hmem => hne (h.eq hxi hmem)
  obtain ⟨hxg, hgi⟩ := List.nodup_cons.mp (hi ▸ h.1 i)
  have hmem (y : β) (hy : y ≠ x) (k : ι) : y ∈ g k ↔ y ∈ f k := by
    by_cases hki : k = i
    · rw [hki, hi, List.mem_cons, or_iff_right hy]
    · by_cases hkj : k = j
      · rw [hkj, hj, List.mem_append, List.mem_singleton, or_iff_left hy]
      · rw [hrest k hki hkj]
  refine ⟨fun k => ?_, fun y => ?_⟩
  · by_cases hki : k = i
    · exact hki ▸ hgi
    · by_cases hkj : k = j
      · rw [hkj, hj]
        exact List.nodup_append.mpr ⟨h.1 j, List.nodup_singleton x, fun y hy z hz heq =>
          hxj (List.mem_singleton.mp hz ▸ heq ▸ hy)⟩
      · exact hrest k hki hkj ▸ h.1 k
  · by_cases hy : y = x
    · subst hy
      refine ⟨j, ?_, fun k hk => ?_⟩
      · change y ∈ g j
        rw [hj]
        exact List.mem_append_right _ (List.mem_singleton.mpr rfl)
      · by_contra hkj
        have hki : k ≠ i := fun heq => hxg (heq ▸ hk)
        exact hki (h.eq (hrest k hki hkj ▸ hk) hxi)
    · simp only [hmem y hy]
      exact h.2 y

end Shelves
