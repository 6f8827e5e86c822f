import Mathlib.Data.List.Chain

/-!
# Items held in batches, one key to a batch

Items are gathered in holders before they are given out. Two holders are apart when no item of
the one has the key of an item of the other. While all holders are apart, what is held for a
key does not depend on the order in which the holders are read, and the items of each key keep
their order.

A batch that is given out has one header and the data of all its items. It is chopped again
into pieces of a given size, and the header moves on from piece to piece.
-/

namespace Batching

section Holders

variable {α β κ : Type*} (content : α → List β) (key : β → κ)

def Apart (a b : α) : Prop := ∀ x ∈ content a, ∀ y ∈ content b, key x ≠ key y

variable {content key} in
theorem Apart.symm {a b : α} (h : Apart content key a b) : Apart content key b a :=
  fun x hx y hy heq => h y hy x hx heq.symm

variable {content key} in
theorem apart_of_empty {a b : α} (h : content a = []) : Apart content key a b := by
  intro x hx
  rw [h] at hx
  cases hx

section

variable {content key}

variable {as bs : List α}

theorem pairwise_perm (hperm : as.Perm bs)
    (hapart : as.Pairwise (Apart content key)) : bs.Pairwise (Apart content key) :=
  hperm.pairwise hapart fun h => h.symm

theorem pairwise_replace {a a' : α} {x : β}
    (hkey : ∀ y ∈ content a', key y = key x)
    (hothers : ∀ b ∈ as ++ bs, ∀ y ∈ content b, key y ≠ key x)
    (hapart : (as ++ a :: bs).Pairwise (Apart content key)) :
    (as ++ a' :: bs).Pairwise (Apart content key) := by
  obtain ⟨has, hbs, hab⟩ := List.pairwise_append.mp hapart
  apply List.pairwise_append.mpr
  refine ⟨has, List.pairwise_cons.mpr ⟨?_, hbs.of_cons⟩, ?_⟩
  · intro b hb y hy z hz heq
    apply hothers b (List.mem_append_right _ hb) z hz
    rw [← heq, hkey y hy]
  · intro b hb c hc
    rcases List.mem_cons.mp hc with rfl | hc
    · intro y hy z hz heq
      apply hothers b (List.mem_append_left _ hb) y hy
      rw [heq, hkey z hz]
    · exact hab b hb c (List.mem_cons_of_mem _ hc)

theorem pairwise_release {sel : α → Bool} {clear : α → α}
    (hclear : ∀ a, content (clear a) = []) (hapart : as.Pairwise (Apart content key)) :
    (as.map fun a => if sel a then clear a else a).Pairwise (Apart content key) := by
  apply hapart.map
  intro a b hab
  by_cases ha : sel a
  · apply apart_of_empty
    simp [ha, hclear]
  · by_cases hb : sel b
    · apply Apart.symm
      apply apart_of_empty
      simp [hb, hclear]
    · simpa [ha, hb] using hab

end

variable [DecidableEq κ]

def select (k : κ) (items : List β) : List β := items.filter fun x => key x = k

def held (k : κ) (holders : List α) : List β := select key k (holders.flatMap content)

@[simp] theorem select_nil (k : κ) : select key k [] = [] := rfl

@[simp] theorem select_append (k : κ) (xs ys : List β) :
    select key k (xs ++ ys) = select key k xs ++ select key k ys := List.filter_append xs ys

variable {key} in
theorem select_none {k : κ} {items : List β} (h : ∀ x ∈ items, key x ≠ k) :
    select key k items = [] :=
  List.filter_eq_nil_iff.mpr fun x hx heq => h x hx (of_decide_eq_true heq)

variable {key} in
theorem key_of_mem_select {k : κ} {items : List β} {x : β} (h : x ∈ select key k items) :
    x ∈ items ∧ key x = k := ⟨List.mem_of_mem_filter h, by simpa using List.of_mem_filter h⟩

@[simp] theorem held_append (k : κ) (as bs : List α) :
    held content key k (as ++ bs) = held content key k as ++ held content key k bs := by
  unfold held
  rw [List.flatMap_append, select_append]

@[simp] theorem held_cons (k : κ) (a : α) (as : List α) :
    held content key k (a :: as) = select key k (content a) ++ held content key k as := by
  unfold held
  rw [List.flatMap_cons, select_append]

variable {content key}

theorem held_eq_nil {k : κ} {holders : List α}
    (h : ∀ a ∈ holders, ∀ x ∈ content a, key x ≠ k) : held content key k holders = [] := by
  apply select_none
  intro x hx
  obtain ⟨a, ha, hxa⟩ := List.mem_flatMap.mp hx
  exact h a ha x hxa

variable {a : α} {as bs : List α}

theorem select_comm {b : α} (h : Apart content key a b) (k : κ) :
    select key k (content a) ++ select key k (content b) =
      select key k (content b) ++ select key k (content a) := by
  by_cases hb : select key k (content b) = []
  · rw [hb, List.nil_append, List.append_nil]
  · obtain ⟨y, hy⟩ := List.exists_mem_of_ne_nil _ hb
    obtain ⟨hyb, hyk⟩ := key_of_mem_select hy
    have ha : select key k (content a) = [] :=
      select_none fun x hx heq => h x hx y hyb (heq.trans hyk.symm)
    rw [ha, List.nil_append, List.append_nil]

theorem held_perm (hperm : as.Perm bs)
    (hapart : as.Pairwise (Apart content key)) (k : κ) :
    held content key k as = held content key k bs := by
  induction hperm with
  | nil => rfl
  | cons a _ ih => rw [held_cons, held_cons, ih hapart.of_cons]
  | swap a b as =>
    have hab : Apart content key b a := (List.pairwise_cons.mp hapart).1 a List.mem_cons_self
    simp only [held_cons, ← List.append_assoc]
    rw [select_comm hab k]
  | trans h₁ _ ih₁ ih₂ => rw [ih₁ hapart, ih₂ (pairwise_perm h₁ hapart)]

theorem held_replace {a' : α} {x : β} {out : List β}
    (hkept : content a ++ [x] = out ++ content a') (hkey : ∀ y ∈ content a, key y = key x)
    (hothers : ∀ b ∈ as ++ bs, ∀ y ∈ content b, key y ≠ key x) (k : κ) :
    held content key k (as ++ a :: bs) ++ select key k [x] =
      select key k out ++ held content key k (as ++ a' :: bs) := by
  have hone : select key k (content a) ++ select key k [x] =
      select key k out ++ select key k (content a') := by
    rw [← select_append, hkept, select_append]
  simp only [held_append, held_cons]
  by_cases hk : k = key x
  · have has : held content key k as = [] :=
      held_eq_nil fun b hb y hy => hk ▸ hothers b (List.mem_append_left _ hb) y hy
    have hbs : held content key k bs = [] :=
      held_eq_nil fun b hb y hy => hk ▸ hothers b (List.mem_append_right _ hb) y hy
    simpa only [has, hbs, List.nil_append, List.append_nil] using hone
  · have hx : select key k [x] = [] := by
      apply select_none
      intro y hy
      rw [List.mem_singleton.mp hy]
      exact Ne.symm hk
    have ha : select key k (content a) = [] :=
      select_none fun y hy heq => hk (heq.symm.trans (hkey y hy))
    rw [ha, hx, List.append_nil] at hone
    obtain ⟨hout, ha'⟩ := List.append_eq_nil_iff.mp hone.symm
    rw [ha, hx, hout, ha', List.append_nil, List.nil_append, List.nil_append]

theorem held_release {order : List α} {sel : α → Bool} {clear : α → α}
    (hclear : ∀ a, content (clear a) = []) (hperm : order.Perm as)
    (hapart : as.Pairwise (Apart content key)) (k : κ) :
    held content key k as = held content key k (order.filter sel) ++
      held content key k (as.map fun a => if sel a then clear a else a) := by
  have hrest : held content key k (as.map fun a => if sel a then clear a else a) =
      held content key k (as.filter fun a => !sel a) := by
    clear hperm hapart
    induction as with
    | nil => rfl
    | cons a as ih =>
      rw [List.map_cons, held_cons, ih]
      by_cases hsel : sel a
      · simp [hsel, hclear]
      · simp [hsel]
  have hsel : held content key k (order.filter sel) = held content key k (as.filter sel) := by
    apply held_perm (hperm.filter sel)
    exact (pairwise_perm hperm.symm hapart).filter sel
  rw [hrest, hsel, ← held_append]
  exact held_perm (List.filter_append_perm sel as).symm hapart k

end Holders

theorem flatMap_class_perm {α : Type*} (cls : α → ℕ) (as : List α) (n : ℕ) :
    ((List.range n).flatMap fun c => as.filter fun a => cls a = c).Perm
      (as.filter fun a => cls a < n) := by
  induction n with
  | zero => simp
  | succ n ih =>
    rw [List.range_succ, List.flatMap_append, List.flatMap_singleton]
    apply (ih.append_right _).trans
    have hlow : as.filter (fun a => cls a < n) =
        (as.filter fun a => cls a < n + 1).filter fun a => cls a < n := by
      rw [List.filter_filter]
      apply List.filter_congr
      intro a _
      have hiff : cls a < n ↔ cls a < n ∧ cls a < n + 1 := by omega
      rw [← Bool.decide_and]
      exact decide_eq_decide.mpr hiff
    have htop : as.filter (fun a => cls a = n) =
        (as.filter fun a => cls a < n + 1).filter fun a => !decide (cls a < n) := by
      rw [List.filter_filter]
      apply List.filter_congr
      intro a _
      have hiff : cls a = n ↔ ¬cls a < n ∧ cls a < n + 1 := by omega
      rw [← decide_not, ← Bool.decide_and]
      exact decide_eq_decide.mpr hiff
    rw [hlow, htop]
    exact List.filter_append_perm _ _

section Chopping

variable {η β : Type*} (next : η → η) (size : ℕ)

def chop : ℕ → η → List β → List (η × List β)
  | 0, h, data => [(h, data)]
  | fuel + 1, h, data =>
    if data.length ≤ size then [(h, data)]
    else (h, data.take size) :: chop fuel (next h) (data.drop size)

variable {fuel : ℕ} {xs : List (η × List β)}

theorem chop_of_le {h : η} {data : List β} (hle : data.length ≤ size) :
    chop next size fuel h data = [(h, data)] := by
  cases fuel with
  | zero => rfl
  | succ fuel => exact if_pos hle

variable {next size}

theorem chop_flatMap (hsize : 0 < size) {x : η × List β}
    (hchain : (x :: xs).IsChain fun y z => z.1 = next y.1)
    (hlen : ∀ y ∈ x :: xs, y.2.length = size) (hfuel : xs.length ≤ fuel) :
    chop next size fuel x.1 ((x :: xs).flatMap Prod.snd) = x :: xs := by
  induction xs generalizing x fuel with
  | nil =>
    have hx := hlen x List.mem_cons_self
    rw [List.flatMap_singleton]
    exact chop_of_le next size (by omega)
  | cons y ys ih =>
    obtain ⟨hnext, hrest⟩ := List.isChain_cons_cons.mp hchain
    have hx := hlen x List.mem_cons_self
    have hy := hlen y (by simp)
    cases fuel with
    | zero => cases hfuel
    | succ fuel =>
      have hih : chop next size fuel y.1 ((y :: ys).flatMap Prod.snd) = y :: ys := by
        apply ih hrest (fun z hz => hlen z (List.mem_cons_of_mem _ hz))
        exact Nat.le_of_succ_le_succ hfuel
      have hlong : ¬((x :: y :: ys).flatMap Prod.snd).length ≤ size := by
        simp only [List.flatMap_cons, List.length_append]
        omega
      rw [chop, if_neg hlong, List.flatMap_cons, ← hx, List.take_left, List.drop_left, hx,
        ← hnext, hih]

theorem length_le_flatMap (hsize : 0 < size)
    (hlen : ∀ x ∈ xs, x.2.length = size) : xs.length ≤ (xs.flatMap Prod.snd).length := by
  induction xs with
  | nil => exact Nat.le_refl _
  | cons x xs ih =>
    have hx := hlen x List.mem_cons_self
    have hxs := ih fun y hy => hlen y (List.mem_cons_of_mem _ hy)
    rw [List.length_cons, List.flatMap_cons, List.length_append]
    omega

end Chopping

end Batching
