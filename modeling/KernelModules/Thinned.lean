import Mathlib.Data.List.Basic

/-!
# Lists that are walked, changed and thinned out

A walk of a list drops some of its elements and replaces the others in place. What it may do to one
element is a relation for those that stay and a predicate for those that go.
-/

/-- `l'` is `l` with each element replaced by one in relation to it, or dropped. -/
inductive Thinned {α β : Type*} (R : α → β → Prop) (D : α → Prop) : List α → List β → Prop
  | nil : Thinned R D [] []
  | keep {a : α} {b : β} {l : List α} {l' : List β} (hab : R a b) (h : Thinned R D l l') :
      Thinned R D (a :: l) (b :: l')
  | drop {a : α} {l : List α} {l' : List β} (ha : D a) (h : Thinned R D l l') :
      Thinned R D (a :: l) l'

namespace Thinned

variable {α β γ : Type*} {R : α → β → Prop} {D : α → Prop} {l : List α} {l' : List β}

theorem refl {S : α → α → Prop} (hS : ∀ a, S a a) (l : List α) : Thinned S D l l := by
  induction l with
  | nil => exact .nil
  | cons a l ih => exact .keep (hS a) ih

theorem mono {R' : α → β → Prop} {D' : α → Prop} (hR : ∀ a b, R a b → R' a b)
    (hD : ∀ a, D a → D' a) (h : Thinned R D l l') : Thinned R' D' l l' := by
  induction h with
  | nil => exact .nil
  | keep hab _ ih => exact .keep (hR _ _ hab) ih
  | drop ha _ ih => exact .drop (hD _ ha) ih

theorem trans {S : β → γ → Prop} {E : β → Prop} {T : α → γ → Prop} {F : α → Prop}
    {l'' : List γ} (hT : ∀ a b c, R a b → S b c → T a c) (hF : ∀ a b, R a b → E b → F a)
    (hD : ∀ a, D a → F a) (h : Thinned R D l l') (h' : Thinned S E l' l'') :
    Thinned T F l l'' := by
  induction h generalizing l'' with
  | nil =>
    cases h'
    exact .nil
  | keep hab _ ih =>
    cases h' with
    | keep hbc h' => exact .keep (hT _ _ _ hab hbc) (ih h')
    | drop hb h' => exact .drop (hF _ _ hab hb) (ih h')
  | drop ha _ ih => exact .drop (hD _ ha) (ih h')

theorem exists_of_mem (h : Thinned R D l l') {b : β} (hb : b ∈ l') : ∃ a ∈ l, R a b := by
  induction h with
  | nil => cases hb
  | @keep a b' l l' hab _ ih =>
    rcases List.mem_cons.mp hb with rfl | hb
    · exact ⟨a, List.mem_cons_self, hab⟩
    · obtain ⟨c, hc, hcb⟩ := ih hb
      exact ⟨c, List.mem_cons_of_mem _ hc, hcb⟩
  | drop _ _ ih =>
    obtain ⟨c, hc, hcb⟩ := ih hb
    exact ⟨c, List.mem_cons_of_mem _ hc, hcb⟩

theorem map_sublist {f : α → γ} {g : β → γ} (hf : ∀ a b, R a b → g b = f a)
    (h : Thinned R D l l') : (l'.map g).Sublist (l.map f) := by
  induction h with
  | nil => exact List.Sublist.refl _
  | keep hab _ ih =>
    rw [List.map_cons, List.map_cons, hf _ _ hab]
    exact ih.cons_cons _
  | drop _ _ ih => exact ih.cons _

theorem length_le (h : Thinned R D l l') : l'.length ≤ l.length := by
  induction h with
  | nil => exact Nat.le_refl _
  | keep _ _ ih => exact Nat.succ_le_succ ih
  | drop _ _ ih => exact Nat.le_succ_of_le ih

end Thinned
