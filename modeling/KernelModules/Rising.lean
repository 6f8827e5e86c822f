import Mathlib.Tactic

/-!
# Keeping what rises

A filter over items of which some carry a key. It keeps those without one, and of the others each
whose key is above the last that it has kept. Over a sequence of batches it keeps what it would keep
of all of them in one.
-/

namespace Rising

variable {μ κ : Type*} [LinearOrder κ] (key : μ → Option κ) {last : Option κ} {m : μ}
  {items items' : List μ}

def Passes (last : Option κ) (m : μ) : Prop :=
  ∀ k ∈ key m, ∀ l ∈ last, l < k
deriving Decidable

def lastKey : Option κ → List μ → Option κ
  | last, [] => last
  | last, m :: items =>
    if Passes key last m then lastKey ((key m).or last) items else lastKey last items

def kept : Option κ → List μ → List μ
  | _, [] => []
  | last, m :: items =>
    if Passes key last m then m :: kept ((key m).or last) items else kept last items

def rejected : Option κ → List μ → List μ
  | _, [] => []
  | last, m :: items =>
    if Passes key last m then rejected ((key m).or last) items else m :: rejected last items

theorem kept_sublist : (kept key last items).Sublist items := by
  induction items generalizing last with
  | nil => exact .slnil
  | cons m items ih =>
    rw [kept]
    split_ifs
    · exact ih.cons_cons m
    · exact ih.cons m

theorem rejected_sublist : (rejected key last items).Sublist items := by
  induction items generalizing last with
  | nil => exact .slnil
  | cons m items ih =>
    rw [rejected]
    split_ifs
    · exact ih.cons m
    · exact ih.cons_cons m

theorem kept_append : kept key last (items ++ items') =
    kept key last items ++ kept key (lastKey key last items) items' := by
  induction items generalizing last with
  | nil => rfl
  | cons m items ih =>
    rw [List.cons_append, kept, kept, lastKey]
    split_ifs
    · rw [ih, List.cons_append]
    · exact ih

theorem pairwise_kept : (last.toList ++ (kept key last items).filterMap key).Pairwise (· < ·) := by
  induction items generalizing last with
  | nil => cases last <;> simp [kept]
  | cons m items ih =>
    rw [kept]
    split_ifs with hpass
    · cases hkey : key m with
      | none =>
        rw [List.filterMap_cons_none hkey]
        exact ih
      | some k =>
        rw [List.filterMap_cons_some hkey]
        have hrest : ((some k).toList ++
            (kept key (some k) items).filterMap key).Pairwise (· < ·) := ih
        rw [Option.toList_some, List.singleton_append] at hrest
        cases last with
        | none => exact hrest
        | some l =>
          have hlk : l < k := hpass k hkey l rfl
          rw [Option.toList_some, List.singleton_append, List.pairwise_cons]
          refine ⟨fun x hx => ?_, hrest⟩
          rcases List.mem_cons.mp hx with rfl | hx
          · exact hlk
          · exact lt_trans hlk (List.rel_of_pairwise_cons hrest hx)
    · exact ih

end Rising
