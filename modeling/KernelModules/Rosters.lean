import KernelModules.Ledger
import Mathlib.Data.List.Nodup

/-!
# Rosters

A roster lists the members of a group, each once. When one thing joins, leaves or stays, the list
of the new group and what its members hold together follow from those of the old one.
-/

namespace Rosters

open Ledger

variable {α : Type*} {on on' : α → Prop} {f g : α → ℕ} {l l' : List α} {a : α}

structure Lists (on : α → Prop) (l : List α) : Prop where
  nodup : l.Nodup
  mem : ∀ a, a ∈ l ↔ on a

theorem Lists.join (h : Lists on l) (ha : ¬on a) (ha' : on' a)
    (hne : ∀ b, b ≠ a → (on' b ↔ on b)) : Lists on' (l ++ [a]) := by
  have hnot : a ∉ l := fun hmem => ha ((h.mem a).mp hmem)
  refine ⟨List.nodup_append.mpr ⟨h.nodup, List.nodup_singleton a, ?_⟩, fun b => ?_⟩
  · intro b hb c hc heq
    exact hnot (List.mem_singleton.mp hc ▸ heq ▸ hb)
  · rw [List.mem_append, List.mem_singleton]
    by_cases hb : b = a
    · exact iff_of_true (Or.inr hb) (hb ▸ ha')
    · rw [or_iff_left hb, h.mem, hne b hb]

theorem Lists.leave [DecidableEq α] (h : Lists on l) (ha' : ¬on' a)
    (hne : ∀ b, b ≠ a → (on' b ↔ on b)) : Lists on' (l.erase a) := by
  refine ⟨h.nodup.erase a, fun b => ?_⟩
  rw [h.nodup.mem_erase_iff, h.mem]
  by_cases hb : b = a
  · exact iff_of_false (fun hand => hand.1 hb) (hb ▸ ha')
  · rw [hne b hb]
    exact and_iff_right hb

theorem Lists.stay (h : Lists on l) (hl : l'.Perm l) (hon : ∀ b, on' b ↔ on b) : Lists on' l' :=
  ⟨hl.nodup_iff.mpr h.nodup, fun b => by rw [hl.mem_iff, h.mem, hon b]⟩

theorem total_join (ha : a ∉ l) (hne : ∀ b, b ≠ a → g b = f b) :
    total g (l ++ [a]) = total f l + g a := by
  rw [total_concat, total_congr fun b hb => hne b fun heq => ha (heq ▸ hb)]

theorem total_leave [DecidableEq α] (hl : l.Nodup) (ha : a ∈ l) (hne : ∀ b, b ≠ a → g b = f b) :
    total g (l.erase a) + f a = total f l := by
  rw [total_congr fun b hb => hne b (hl.mem_erase_iff.mp hb).1]
  exact total_erase ha

theorem total_away (ha : a ∉ l) (hne : ∀ b, b ≠ a → g b = f b) : total g l = total f l :=
  total_congr fun b hb => hne b fun heq => ha (heq ▸ hb)

theorem total_perm (hl : l'.Perm l) : total f l' = total f l := (hl.map f).sum_eq

theorem total_eq_zero_iff (hpos : ∀ b ∈ l, 0 < f b) : total f l = 0 ↔ l = [] := by
  cases l with
  | nil => exact iff_of_true rfl rfl
  | cons b l =>
    have hb : 0 < total f (b :: l) := total_pos List.mem_cons_self
      (hpos b List.mem_cons_self)
    exact iff_of_false (Nat.ne_of_gt hb) (List.cons_ne_nil b l)

end Rosters
