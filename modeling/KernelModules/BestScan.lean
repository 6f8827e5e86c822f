import Mathlib.Order.Basic

/-!
# Scans that keep the best entry seen so far

A scan goes over keyed entries from the left and keeps one of them. A rule says whether the key of
the next entry takes the place of the key that is kept; a key that belongs to no entry stands for
none at the start. The rule is right for the keys of a list if it follows their rank there.
-/

namespace BestScan

variable {ι κ τ : Type*} (takes : κ → κ → Bool)

def scan : Option ι × κ → List (ι × κ) → Option ι × κ
  | acc, [] => acc
  | acc, (i, k) :: ps => scan (if takes k acc.2 then (some i, k) else acc) ps

def Follows [Preorder τ] (rank : κ → τ) (S : κ → Prop) : Prop :=
  ∀ a b, S a → S b → (takes a b = true → rank a ≤ rank b) ∧ (takes a b = false → rank b ≤ rank a)

variable {takes}

variable {ps : List (ι × κ)} {i : ι}

theorem scan_mem {acc : Option ι × κ}
    (h : (scan takes acc ps).1 = some i) : acc.1 = some i ∨ ∃ p ∈ ps, p.1 = i := by
  induction ps generalizing acc with
  | nil => exact .inl h
  | cons p ps ih =>
    rcases ih h with hacc | ⟨q, hq, hqi⟩
    · split_ifs at hacc with ht
      · exact .inr ⟨p, List.mem_cons_self, Option.some.inj hacc⟩
      · exact .inl hacc
    · exact .inr ⟨q, List.mem_cons_of_mem _ hq, hqi⟩

variable [Preorder τ] {rank : κ → τ} {S : κ → Prop}

theorem scan_of_kept {k : κ} (hrule : Follows takes rank S)
    (hk : S k) (hps : ∀ p ∈ ps, S p.2) :
    ∃ p ∈ (i, k) :: ps, scan takes (some i, k) ps = (some p.1, p.2) ∧
      rank p.2 ≤ rank k ∧ ∀ q ∈ ps, rank p.2 ≤ rank q.2 := by
  induction ps generalizing i k with
  | nil => exact ⟨(i, k), List.mem_cons_self, rfl, le_refl _, by simp⟩
  | cons p ps ih =>
    obtain ⟨i', k'⟩ := p
    have hk' : S k' := hps _ List.mem_cons_self
    have hrest (q : ι × κ) (hq : q ∈ ps) : S q.2 := hps q (List.mem_cons_of_mem _ hq)
    cases ht : takes k' k with
    | true =>
      have hle : rank k' ≤ rank k := (hrule k' k hk' hk).1 ht
      obtain ⟨p, hp, hscan, hpk, hpq⟩ := ih (i := i') hk' hrest
      refine ⟨p, List.mem_cons_of_mem _ hp, ?_, le_trans hpk hle, ?_⟩
      · simpa [scan, ht] using hscan
      · intro q hq
        rcases List.mem_cons.mp hq with rfl | hq
        · exact hpk
        · exact hpq q hq
    | false =>
      have hle : rank k ≤ rank k' := (hrule k' k hk' hk).2 ht
      obtain ⟨p, hp, hscan, hpk, hpq⟩ := ih (i := i) hk hrest
      refine ⟨p, ?_, ?_, hpk, ?_⟩
      · rcases List.mem_cons.mp hp with rfl | hp
        · exact List.mem_cons_self
        · exact List.mem_cons_of_mem _ (List.mem_cons_of_mem _ hp)
      · simpa [scan, ht] using hscan
      · intro q hq
        rcases List.mem_cons.mp hq with rfl | hq
        · exact le_trans hpk hle
        · exact hpq q hq

theorem scan_best (ps : List (ι × κ)) {z : κ} (hne : ps ≠ []) (hrule : Follows takes rank S)
    (hps : ∀ p ∈ ps, S p.2) (hstart : ∀ p ∈ ps, takes p.2 z = true) :
    ∃ p ∈ ps, scan takes (none, z) ps = (some p.1, p.2) ∧ ∀ q ∈ ps, rank p.2 ≤ rank q.2 := by
  cases ps with
  | nil => exact absurd rfl hne
  | cons p ps =>
    obtain ⟨i, k⟩ := p
    have hk : S k := hps _ List.mem_cons_self
    obtain ⟨p, hp, hscan, hpk, hpq⟩ :=
      scan_of_kept (i := i) hrule hk fun q hq => hps q (List.mem_cons_of_mem _ hq)
    have hfirst : takes k z = true := hstart (i, k) List.mem_cons_self
    refine ⟨p, hp, ?_, ?_⟩
    · simpa [scan, hfirst] using hscan
    · intro q hq
      rcases List.mem_cons.mp hq with rfl | hq
      · exact hpk
      · exact hpq q hq

end BestScan
