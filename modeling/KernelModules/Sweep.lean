import Mathlib.Data.List.Nodup

/-!
# Sweeps over a list of owners

A loop visits the members of a list in turn. When each visit changes only the keys of the member
it visits, and reads only those, the whole loop acts on each key once and the order of the list
does not show in the result.

`look` is what can be seen of the swept state at a key.
-/

namespace Sweep

variable {ω α κ χ : Type*} {look : ω → κ → χ} {visit : ω → α → ω} (owner : κ → Option α)
  (act : (κ → χ) → α → κ → χ)

variable {l : List α} {w : ω}

theorem foldl_of_notMem [DecidableEq α]
    (hvisit : ∀ w a k, look (visit w a) k = if owner k = some a then act (look w) a k else look w k)
    {k : κ} (hk : ∀ a ∈ l, owner k ≠ some a) :
    look (l.foldl visit w) k = look w k := by
  induction l generalizing w with
  | nil => rfl
  | cons b l ih =>
    rw [List.foldl_cons, ih (fun a ha => hk a (List.mem_cons_of_mem _ ha)), hvisit,
      if_neg (hk b List.mem_cons_self)]

theorem foldl_of_mem [DecidableEq α]
    (hvisit : ∀ w a k, look (visit w a) k = if owner k = some a then act (look w) a k else look w k)
    (hact : ∀ x y a k, owner k = some a → (∀ j, owner j = some a → x j = y j) →
      act x a k = act y a k) (hl : l.Nodup) {k : κ} {a : α} (hk : owner k = some a) (ha : a ∈ l) :
    look (l.foldl visit w) k = act (look w) a k := by
  induction l generalizing w with
  | nil => cases ha
  | cons b l ih =>
    rw [List.nodup_cons] at hl
    rw [List.foldl_cons]
    by_cases hab : a = b
    · subst b
      rw [foldl_of_notMem owner act hvisit (fun c hc hkc => ?_), hvisit, if_pos hk]
      obtain rfl : a = c := Option.some.inj (hk.symm.trans hkc)
      exact hl.1 hc
    · rw [ih hl.2 ((List.mem_cons.mp ha).resolve_left hab)]
      apply hact _ _ _ _ hk
      intro j hj
      rw [hvisit, if_neg (fun h => hab (Option.some.inj (hj.symm.trans h)))]

theorem foldl_of_ready {I : ω → Prop} {R : ω → α → Prop}
    (hstep : ∀ w a, I w → R w a → I (visit w a))
    (hrest : ∀ w a b, b ≠ a → R w b → R (visit w a) b) (hl : l.Nodup)
    (hI : I w) (hR : ∀ a ∈ l, R w a) : I (l.foldl visit w) := by
  induction l generalizing w with
  | nil => exact hI
  | cons a l ih =>
    obtain ⟨ha, hl⟩ := List.nodup_cons.mp hl
    exact ih hl (hstep w a hI (hR a List.mem_cons_self)) fun b hb =>
      hrest w a b (fun heq => ha (heq ▸ hb)) (hR b (List.mem_cons_of_mem a hb))

end Sweep
