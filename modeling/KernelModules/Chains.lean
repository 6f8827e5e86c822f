import Mathlib.Data.List.Chain

/-!
# Singly linked chains

A node has at most one node behind it. A list of nodes is linked when each of them has the next one
of the list behind it. A segment is a linked list with pointers to its first and its last node; what
is behind the last node is open.

Writing what is behind a node changes nothing for a list that does not go on from it.
-/

namespace Chains

open Function

variable {α : Type*} {next next' : α → Option α} {head tail head' tail' : Option α} {a b : α}
  {l l' : List α}

def Linked (next : α → Option α) (l : List α) : Prop :=
  l.IsChain fun a b => next a = some b

structure Segment (next : α → Option α) (head tail : Option α) (l : List α) : Prop where
  head_eq : head = l.head?
  tail_eq : tail = l.getLast?
  linked : Linked next l

/-- A linked list with nothing behind its last node. -/
structure Terminated (next : α → Option α) (l : List α) : Prop where
  linked : Linked next l
  ended : ∀ a ∈ l.getLast?, next a = none

theorem linked_nil : Linked next [] := .nil

theorem linked_singleton (a : α) : Linked next [a] := .singleton a

theorem linked_cons_cons : Linked next (a :: b :: l) ↔ next a = some b ∧ Linked next (b :: l) :=
  List.isChain_cons_cons

theorem linked_append : Linked next (l ++ l') ↔
    Linked next l ∧ Linked next l' ∧ ∀ a ∈ l.getLast?, ∀ b ∈ l'.head?, next a = some b :=
  List.isChain_append

theorem Terminated.append (h : Terminated next (l ++ l')) :
    Linked next l ∧ (∀ a ∈ l.getLast?, next a = l'.head?) ∧ Terminated next l' := by
  obtain ⟨hl, hl', hbetween⟩ := linked_append.mp h.linked
  refine ⟨hl, ?_, hl', ?_⟩
  · intro a ha
    cases l' with
    | nil =>
      rw [List.append_nil] at h
      exact h.ended a ha
    | cons b l' => exact hbetween a ha b rfl
  · intro a ha
    have hne : l' ≠ [] := by
      rintro rfl
      cases ha
    exact h.ended a (by rwa [List.getLast?_append_of_ne_nil l hne])

theorem segment_nil : Segment next none none ([] : List α) :=
  ⟨rfl, rfl, linked_nil⟩

theorem Segment.eq_nil (h : Segment next none tail l) : l = [] :=
  List.head?_eq_none_iff.mp h.head_eq.symm

theorem Segment.ne_nil (h : Segment next (some a) tail l) : l ≠ [] := by
  rintro rfl
  cases h.head_eq

theorem Linked.congr (h : Linked next l) (hsame : ∀ a ∈ l.dropLast, next' a = next a) :
    Linked next' l := by
  induction l with
  | nil => exact linked_nil
  | cons a l ih =>
    cases l with
    | nil => exact linked_singleton a
    | cons b l =>
      obtain ⟨hab, hl⟩ := linked_cons_cons.mp h
      have ha : next' a = next a := hsame a (by simp)
      refine linked_cons_cons.mpr ⟨ha.trans hab, ih hl fun c hc => hsame c ?_⟩
      rw [List.dropLast_cons_cons]
      exact List.mem_cons_of_mem a hc

theorem Segment.congr (h : Segment next head tail l) (hsame : ∀ a ∈ l, next' a = next a) :
    Segment next' head tail l :=
  ⟨h.head_eq, h.tail_eq, h.linked.congr fun a ha => hsame a (List.dropLast_subset _ ha)⟩

section Writing

variable [DecidableEq α]

def setNext (next : α → Option α) (p : Option α) (q : Option α) : α → Option α :=
  match p with
  | none => next
  | some a => update next a q

theorem setNext_of_notMem {p q : Option α} (h : ∀ b ∈ p, b ≠ a) : setNext next p q a = next a := by
  cases p with
  | none => rfl
  | some b => exact update_of_ne (h b rfl).symm ..

theorem Linked.setNext_last (h : Linked next l) (hl : l.Nodup) (q : Option α) :
    Linked (setNext next l.getLast? q) l := by
  apply h.congr
  intro a ha
  apply setNext_of_notMem
  intro b hb hab
  subst b
  obtain ⟨l', rfl⟩ := List.getLast?_eq_some_iff.mp hb
  rw [List.dropLast_concat] at ha
  exact (List.nodup_append.mp hl).2.2 a ha a (List.mem_singleton_self a) rfl

theorem Segment.join (h : Segment next head tail l) (h' : Segment next head' tail' l')
    (hl : l ≠ []) (hl' : l' ≠ []) (hnodup : (l ++ l').Nodup) :
    Segment (setNext next tail head') head tail' (l ++ l') := by
  obtain ⟨hnl, hnl', hdisj⟩ := List.nodup_append.mp hnodup
  refine ⟨?_, ?_, linked_append.mpr ⟨?_, ?_, ?_⟩⟩
  · rw [h.head_eq, List.head?_append_of_ne_nil l hl]
  · rw [h'.tail_eq, List.getLast?_append_of_ne_nil l hl']
  · rw [h.tail_eq]
    exact h.linked.setNext_last hnl head'
  · apply h'.linked.congr
    intro a ha
    apply setNext_of_notMem
    intro b hb hab
    rw [h.tail_eq] at hb
    exact hdisj b (List.mem_of_getLast? hb) a (List.dropLast_subset _ ha) hab
  · intro a ha b hb
    rw [h.tail_eq, ha, h'.head_eq, hb]
    exact update_self ..

/-- The list is written as a chain, with `after` behind its last node. -/
def link (next : α → Option α) (after : Option α) : List α → α → Option α
  | [] => next
  | [a] => update next a after
  | a :: b :: l => update (link next after (b :: l)) a (some b)

variable {after : Option α}

theorem link_of_notMem (h : a ∉ l) : link next after l a = next a := by
  induction l with
  | nil => rfl
  | cons c l ih =>
    rw [List.mem_cons, not_or] at h
    cases l with
    | nil => exact update_of_ne h.1 ..
    | cons d l =>
      rw [link, update_of_ne h.1]
      exact ih h.2

theorem linked_link (h : l.Nodup) : Linked (link next after l) l := by
  induction l with
  | nil => exact linked_nil
  | cons a l ih =>
    cases l with
    | nil => exact linked_singleton a
    | cons b l =>
      obtain ⟨ha, hl⟩ := List.nodup_cons.mp h
      rw [link]
      refine linked_cons_cons.mpr ⟨update_self .., (ih hl).congr ?_⟩
      intro c hc
      apply update_of_ne
      rintro rfl
      exact ha (List.dropLast_subset _ hc)

theorem link_getLast (h : l.Nodup) (ha : a ∈ l.getLast?) : link next after l a = after := by
  induction l with
  | nil => cases ha
  | cons c l ih =>
    cases l with
    | nil =>
      obtain rfl : c = a := Option.some.inj ha
      exact update_self ..
    | cons d l =>
      obtain ⟨hc, hl⟩ := List.nodup_cons.mp h
      rw [List.getLast?_cons_cons] at ha
      have hne : a ≠ c := by
        rintro rfl
        exact hc (List.mem_of_getLast? ha)
      rw [link, update_of_ne hne]
      exact ih hl ha

end Writing

/-- The nodes from a pointer on, up to the end of the chain; nothing when that is not reached in as
many steps. -/
def walk (next : α → Option α) : ℕ → Option α → Option (List α)
  | _, none => some []
  | 0, some _ => none
  | n + 1, some a => (walk next n (next a)).map (a :: ·)

/-- The nodes from one node on, up to the given one. -/
def walkTo [DecidableEq α] (next : α → Option α) (last : Option α) : ℕ → Option α → Option (List α)
  | _, none => none
  | 0, some _ => none
  | n + 1, some a =>
    if last = some a then some [a] else (walkTo next last n (next a)).map (a :: ·)

variable {n : ℕ}

theorem walk_of_linked (h : Linked next l) (hend : ∀ a ∈ l.getLast?, next a = none)
    (hn : l.length ≤ n) : walk next n l.head? = some l := by
  induction l generalizing n with
  | nil => cases n <;> rfl
  | cons a l ih =>
    cases n with
    | zero => cases hn
    | succ n =>
      cases l with
      | nil =>
        have ha : next a = none := hend a rfl
        rw [List.head?_cons, walk, ha]
        cases n <;> rfl
      | cons b l =>
        obtain ⟨hab, hl⟩ := linked_cons_cons.mp h
        have hrest := ih hl (by simpa using hend) (Nat.le_of_succ_le_succ hn)
        rw [List.head?_cons, walk, hab]
        rw [List.head?_cons] at hrest
        rw [hrest]
        rfl

theorem walkTo_of_linked [DecidableEq α] (h : Linked next l) (hl : l ≠ [])
    (hnodup : l.Nodup) (hn : l.length ≤ n) : walkTo next l.getLast? n l.head? = some l := by
  induction l generalizing n with
  | nil => exact absurd rfl hl
  | cons a l ih =>
    cases n with
    | zero => cases hn
    | succ n =>
      cases l with
      | nil => simp [walkTo]
      | cons b l =>
        obtain ⟨hab, hrest⟩ := linked_cons_cons.mp h
        obtain ⟨ha, hnodup⟩ := List.nodup_cons.mp hnodup
        have hlast : (a :: b :: l).getLast? = (b :: l).getLast? := List.getLast?_cons_cons ..
        have hne : (b :: l).getLast? ≠ some a := fun heq => ha (List.mem_of_getLast? heq)
        have hwalk := ih hrest (List.cons_ne_nil b l) hnodup (Nat.le_of_succ_le_succ hn)
        rw [List.head?_cons, walkTo, hlast, if_neg hne, hab]
        rw [List.head?_cons] at hwalk
        rw [hwalk]
        rfl

end Chains
