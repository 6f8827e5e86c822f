import Mathlib.Logic.Function.Basic

/-!
# Circular doubly linked lists

Every node has a node before and a node behind it, and a list is the way round from an anchor back
to the anchor. Taking a node out and putting one in front of the anchor write a few of the links;
what is said here is which list is there afterwards.
-/

namespace LinkedRing

open Function

variable {α : Type*} {a b c n p q : α} {l l₁ l₂ : List α}

structure Links (α : Type*) where
  next : α → α
  prev : α → α

namespace Links

section Paths

variable {r r' : Links α}

/-- Both ways between `a` and `b`, the nodes in between are those of the list. -/
def Path (r : Links α) : α → List α → α → Prop
  | a, [], b => r.next a = b ∧ r.prev b = a
  | a, c :: l, b => (r.next a = c ∧ r.prev c = a) ∧ Path r c l b

instance decidablePath [DecidableEq α] (r : Links α) :
    (a : α) → (l : List α) → (b : α) → Decidable (r.Path a l b)
  | a, [], b => inferInstanceAs (Decidable (r.next a = b ∧ r.prev b = a))
  | a, c :: l, b =>
    have := decidablePath r c l b
    inferInstanceAs (Decidable ((r.next a = c ∧ r.prev c = a) ∧ r.Path c l b))

/-- The list round the anchor, no node of which is there twice. -/
structure Around (r : Links α) (a : α) (l : List α) : Prop where
  path : r.Path a l a
  nodup : (a :: l).Nodup

theorem path_append_cons : r.Path a (l₁ ++ c :: l₂) b ↔ r.Path a l₁ c ∧ r.Path c l₂ b := by
  induction l₁ generalizing a with
  | nil => exact Iff.rfl
  | cons d l₁ ih =>
    have hrest := @ih d
    constructor
    · rintro ⟨hd, hpath⟩
      obtain ⟨hleft, hright⟩ := hrest.mp hpath
      exact ⟨⟨hd, hleft⟩, hright⟩
    · rintro ⟨⟨hd, hleft⟩, hright⟩
      exact ⟨hd, hrest.mpr ⟨hleft, hright⟩⟩

theorem Path.next_eq (h : r.Path a l b) : r.next a = l.head?.getD b := by
  cases l with
  | nil => exact h.1
  | cons c l => exact h.1.1

theorem Path.prev_mem (h : r.Path a l b) : r.prev b ∈ a :: l := by
  induction l generalizing a with
  | nil => exact List.mem_singleton.mpr h.2
  | cons c l ih => exact List.mem_cons_of_mem a (ih h.2)

theorem Path.congr (h : r.Path a l b) (hnext : ∀ x ∈ a :: l, r'.next x = r.next x)
    (hprev : ∀ x ∈ b :: l, r'.prev x = r.prev x) : r'.Path a l b := by
  induction l generalizing a with
  | nil =>
    refine ⟨?_, ?_⟩
    · rw [hnext a List.mem_cons_self]
      exact h.1
    · rw [hprev b List.mem_cons_self]
      exact h.2
  | cons c l ih =>
    refine ⟨⟨?_, ?_⟩, ih h.2 ?_ ?_⟩
    · rw [hnext a List.mem_cons_self]
      exact h.1.1
    · rw [hprev c (List.mem_cons_of_mem b List.mem_cons_self)]
      exact h.1.2
    · intro x hx
      exact hnext x (List.mem_cons_of_mem a hx)
    · intro x hx
      refine hprev x ?_
      rcases List.mem_cons.mp hx with rfl | hx
      · exact List.mem_cons_self
      · exact List.mem_cons_of_mem b (List.mem_cons_of_mem c hx)

theorem Around.next_anchor (h : r.Around a l) : r.next a = l.head?.getD a := h.path.next_eq

theorem Around.next_of_mem (h : r.Around a (l₁ ++ n :: l₂)) : r.next n = l₂.head?.getD a :=
  (path_append_cons.mp h.path).2.next_eq

theorem Around.next_anchor_eq_iff (h : r.Around a l) : r.next a = a ↔ l = [] := by
  rw [h.next_anchor]
  cases l with
  | nil => exact iff_of_true rfl rfl
  | cons c l =>
    refine iff_of_false (fun heq => ?_) (List.cons_ne_nil c l)
    exact (List.nodup_cons.mp h.nodup).1 (heq ▸ List.mem_cons_self)

end Paths

variable [DecidableEq α] {r : Links α}

/-- `q` comes right behind `p`. -/
def join (p q : α) (r : Links α) : Links α :=
  ⟨update r.next p q, update r.prev q p⟩

def unlink (n : α) (r : Links α) : Links α := join n n (join (r.prev n) (r.next n) r)

def insertLast (a n : α) (r : Links α) : Links α := join n a (join (r.prev a) n r)

theorem Path.join (h : r.Path a l b) (hp : p ∉ a :: l) (hq : q ∉ b :: l) :
    (r.join p q).Path a l b := by
  refine h.congr ?_ ?_
  · intro x hx
    exact update_of_ne (fun heq : x = p => hp (heq ▸ hx)) ..
  · intro x hx
    exact update_of_ne (fun heq : x = q => hq (heq ▸ hx)) ..

theorem Path.join_last (h : r.Path a l b) (hnodup : (a :: l).Nodup) (hq : q ∉ l) :
    (r.join (r.prev b) q).Path a l q := by
  induction l generalizing a with
  | nil =>
    have hprev : r.prev b = a := h.2
    rw [hprev]
    exact ⟨update_self .., update_self ..⟩
  | cons c l ih =>
    obtain ⟨hcq, hql⟩ := List.ne_and_not_mem_of_not_mem_cons hq
    obtain ⟨ha, htail⟩ := List.nodup_cons.mp hnodup
    have hne : a ≠ r.prev b := fun heq => ha (heq ▸ h.2.prev_mem)
    refine ⟨⟨?_, ?_⟩, ih h.2 htail hql⟩
    · exact (update_of_ne hne ..).trans h.1.1
    · exact (update_of_ne (Ne.symm hcq) ..).trans h.1.2

theorem Around.unlink (h : r.Around a (l₁ ++ n :: l₂)) : (r.unlink n).Around a (l₁ ++ l₂) := by
  have hperm : (a :: (l₁ ++ n :: l₂)).Perm (n :: a :: (l₁ ++ l₂)) :=
    (List.perm_middle.cons a).trans (List.Perm.swap ..)
  obtain ⟨hn, hnodup⟩ := List.nodup_cons.mp (hperm.nodup_iff.mp h.nodup)
  obtain ⟨hleft, hright⟩ := path_append_cons.mp h.path
  have hal₁ : (a :: l₁).Nodup :=
    hnodup.sublist ((List.sublist_append_left l₁ l₂).cons_cons a)
  have hjoined : (r.join (r.prev n) (r.next n)).Path a (l₁ ++ l₂) a := by
    cases l₂ with
    | nil =>
      rw [List.append_nil, hright.next_eq]
      exact hleft.join_last hal₁ (List.nodup_cons.mp hal₁).1
    | cons c l₂ =>
      rw [hright.next_eq]
      obtain ⟨ha, hboth⟩ := List.nodup_cons.mp hnodup
      obtain ⟨-, hcl₂, hdisj⟩ := List.nodup_append.mp hboth
      have hc : c ∉ l₁ := fun hmem => hdisj c hmem c List.mem_cons_self rfl
      have hca : c ∉ a :: l₂ := by
        intro hmem
        rcases List.mem_cons.mp hmem with rfl | hmem
        · exact ha (List.mem_append_right l₁ List.mem_cons_self)
        · exact (List.nodup_cons.mp hcl₂).1 hmem
      have hprev : r.prev n ∉ c :: l₂ := by
        intro hmem
        rcases List.mem_cons.mp hleft.prev_mem with heq | hmem₁
        · exact ha (List.mem_append_right l₁ (heq ▸ hmem))
        · exact hdisj _ hmem₁ _ hmem rfl
      exact path_append_cons.mpr ⟨hleft.join_last hal₁ hc, hright.2.join hprev hca⟩
  exact ⟨hjoined.join hn hn, hnodup⟩

theorem Around.insertLast (h : r.Around a l) (hn : n ∉ a :: l) :
    (r.insertLast a n).Around a (l ++ [n]) := by
  obtain ⟨hna, hnl⟩ := List.ne_and_not_mem_of_not_mem_cons hn
  have hal : a ∉ l := (List.nodup_cons.mp h.nodup).1
  have hleft : (r.join (r.prev a) n).Path a l n := h.path.join_last h.nodup hnl
  have hanl : a ∉ n :: l := List.not_mem_cons_of_ne_of_not_mem (Ne.symm hna) hal
  have hlast : ((r.join (r.prev a) n).join n a).Path n [] a :=
    ⟨update_self .., update_self ..⟩
  refine ⟨path_append_cons.mpr ⟨hleft.join hn hanl, hlast⟩, ?_⟩
  have hperm : (a :: (l ++ [n])).Perm (n :: a :: l) :=
    ((List.perm_append_singleton n l).cons a).trans (List.Perm.swap ..)
  exact hperm.nodup_iff.mpr (List.nodup_cons.mpr ⟨hn, h.nodup⟩)

end Links

end LinkedRing
