import KernelModules.LinkedRing
import KernelModules.RejectList

/-!
# The walk over the candidates of a scan

The candidates are linked through nodes of their own. A node is looked at, and then stays, is moved
behind the last one, or is taken out and freed. What comes next is asked for before that, and the
walk ends after as many steps as there were nodes.

The nodes already moved are behind those still to be looked at, so what the walk goes on to is the
rest of the original list; the number of steps keeps it from going on into the moved ones.
-/

namespace KernelModules.BlmScan

open LinkedRing
open KernelModules.RejectList hiding blmFilterBssid

abbrev Node := ℕ

inductive Block where
  | entry (n : Node)
  | node (n : Node)
  deriving DecidableEq

/-- The list as it lies in memory, and what has been freed so far. -/
structure ScanList where
  anchor : Node
  links : Links Node
  count : BitVec 32
  entry : Node → ScanEntry
  freed : List Block

namespace ScanList

def listEmpty (s : ScanList) : Bool := decide (s.links.next s.anchor = s.anchor)

def qdfListPeekFront (s : ScanList) : Option Node :=
  if s.listEmpty then none else some (s.links.next s.anchor)

def qdfListPeekNext (s : ScanList) (n : Node) : Option Node :=
  if s.listEmpty then none
  else if s.links.next n = s.anchor then none
  else some (s.links.next n)

def qdfListRemoveNode (s : ScanList) (n : Node) : ScanList :=
  if s.listEmpty then s
  else { s with links := s.links.unlink n, count := s.count - 1 }

def qdfListInsertBack (s : ScanList) (n : Node) : ScanList :=
  { s with links := s.links.insertLast s.anchor n, count := s.count + 1 }

def free (s : ScanList) (b : Block) : ScanList := { s with freed := s.freed ++ [b] }

def clearScore (s : ScanList) (n : Node) : ScanList :=
  { s with entry := Function.update s.entry n { s.entry n with bssScore := 0 } }

/-- The memory holds a list of these nodes, and the count is their number. -/
structure Holds (s : ScanList) (nodes : List Node) : Prop where
  around : s.links.Around s.anchor nodes
  count_eq : s.count.toNat = nodes.length

end ScanList

open ScanList

def blmModifyScanList (s : ScanList) (n : Node) : BssidAction → ScanList
  | .removeFromList => ((s.qdfListRemoveNode n).free (.entry n)).free (.node n)
  | .moveAtLast => ((s.qdfListRemoveNode n).qdfListInsertBack n).clearScore n
  | .nop => s

structure Walk where
  list : ScanList
  db : RejectDb
  /-- The nodes looked at so far. -/
  seen : List Node

section Calls

variable (clk : ℕ → Time) (cfg : BlmConfig) (env : ℕ → Env)

/-- The node is asked for its successor before it is moved or freed. -/
def filterLoop : ℕ → Option Node → Walk → Walk
  | 0, _, w => w
  | _ + 1, none, w => w
  | size + 1, some cur, w =>
    let next := w.list.qdfListPeekNext cur
    let r := blmActionOnBssid clk cfg (env w.seen.length) (w.list.entry cur) w.db
    filterLoop size next ⟨blmModifyScanList w.list cur r.1, r.2, w.seen ++ [cur]⟩

/-- `env` is what the system gives the call for each of the nodes it looks at. -/
def blmFilterBssid (s : ScanList) (db : RejectDb) : QdfStatus × Walk :=
  if s.count = 0 then (.eEmpty, ⟨s, db, []⟩)
  else (.success, filterLoop clk cfg env s.count.toNat s.qdfListPeekFront ⟨s, db, []⟩)

/-- What is decided on each candidate in its turn, and the reject list afterwards. -/
def decisions (entry : Node → ScanEntry) : List Node → ℕ → RejectDb →
    List (Node × BssidAction) × RejectDb
  | [], _, db => ([], db)
  | n :: ns, i, db =>
    let r := blmActionOnBssid clk cfg (env i) (entry n) db
    let rs := decisions entry ns (i + 1) r.2
    ((n, r.1) :: rs.1, rs.2)

end Calls

def taking (a : BssidAction) (ds : List (Node × BssidAction)) : List Node :=
  (ds.filter fun d => d.2 = a).map Prod.fst

def blocks (n : Node) : List Block := [.entry n, .node n]

/-- The list after the candidates of `ds` have been looked at and those of `rest` have not. -/
structure Sorted (s₀ s : ScanList) (ds : List (Node × BssidAction)) (rest : List Node) : Prop where
  anchor_eq : s.anchor = s₀.anchor
  holds : s.Holds (taking .nop ds ++ (rest ++ taking .moveAtLast ds))
  freed_eq : s.freed = s₀.freed ++ (taking .removeFromList ds).flatMap blocks
  entry_eq : ∀ n, s.entry n =
    if n ∈ taking .moveAtLast ds then { s₀.entry n with bssScore := 0 } else s₀.entry n

section Lists

variable {s s₀ : ScanList} {l l₁ l₂ nodes rest : List Node} {n : Node}
  {ds : List (Node × BssidAction)} {a b : BssidAction}

theorem taking_append_singleton :
    taking a (ds ++ [(n, b)]) = if b = a then taking a ds ++ [n] else taking a ds := by
  unfold taking
  rw [List.filter_append, List.map_append]
  split_ifs with h
  · rw [List.filter_cons_of_pos (by simpa using h)]
    rfl
  · rw [List.filter_cons_of_neg (by simpa using h)]
    exact List.append_nil _

theorem taking_cons :
    taking a ((n, b) :: ds) = if b = a then n :: taking a ds else taking a ds := by
  unfold taking
  rw [List.filter_cons]
  split_ifs with h h' h'
  · rfl
  · exact absurd (by simpa using h) h'
  · exact absurd (by simpa using h') h
  · rfl

theorem taking_perm (ds : List (Node × BssidAction)) :
    (taking .nop ds ++ taking .moveAtLast ds ++ taking .removeFromList ds).Perm
      (ds.map Prod.fst) := by
  induction ds with
  | nil => exact List.Perm.refl []
  | cons d ds ih =>
    obtain ⟨n, b⟩ := d
    rw [taking_cons, taking_cons, taking_cons, List.map_cons]
    cases b with
    | nop => exact ih.cons n
    | moveAtLast =>
      rw [List.append_assoc] at ih ⊢
      exact List.perm_middle.trans (ih.cons n)
    | removeFromList => exact List.perm_middle.trans (ih.cons n)

theorem ScanList.Holds.listEmpty_iff (h : s.Holds l) : s.listEmpty ↔ l = [] := by
  unfold ScanList.listEmpty
  rw [decide_eq_true_iff]
  exact h.around.next_anchor_eq_iff

theorem ScanList.Holds.peekFront (h : s.Holds l) : s.qdfListPeekFront = l.head? := by
  unfold ScanList.qdfListPeekFront
  cases l with
  | nil => rw [if_pos (h.listEmpty_iff.mpr rfl), List.head?_nil]
  | cons c l =>
    rw [if_neg (fun hempty => List.cons_ne_nil c l (h.listEmpty_iff.mp hempty)),
      h.around.next_anchor]
    rfl

theorem ScanList.Holds.peekNext (h : s.Holds (l₁ ++ n :: l₂)) : s.qdfListPeekNext n = l₂.head? := by
  unfold ScanList.qdfListPeekNext
  have hne : l₁ ++ n :: l₂ ≠ [] := List.append_ne_nil_of_right_ne_nil _ (List.cons_ne_nil n l₂)
  rw [if_neg (fun hempty => hne (h.listEmpty_iff.mp hempty)), h.around.next_of_mem]
  cases l₂ with
  | nil => exact if_pos rfl
  | cons c l₂ =>
    have hc : c ≠ s.anchor := by
      rintro rfl
      refine (List.nodup_cons.mp h.around.nodup).1 (List.mem_append_right l₁ ?_)
      exact List.mem_cons_of_mem n List.mem_cons_self
    exact if_neg hc

theorem ScanList.Holds.removeNode (h : s.Holds (l₁ ++ n :: l₂)) :
    s.qdfListRemoveNode n = { s with links := s.links.unlink n, count := s.count - 1 } ∧
      (s.qdfListRemoveNode n).Holds (l₁ ++ l₂) := by
  have hne : l₁ ++ n :: l₂ ≠ [] := List.append_ne_nil_of_right_ne_nil _ (List.cons_ne_nil n l₂)
  have hremove : s.qdfListRemoveNode n =
      { s with links := s.links.unlink n, count := s.count - 1 } :=
    if_neg fun hempty => hne (h.listEmpty_iff.mp hempty)
  refine ⟨hremove, ?_⟩
  rw [hremove]
  refine ⟨h.around.unlink, ?_⟩
  have hcount := h.count_eq
  rw [List.length_append, List.length_cons] at hcount
  change (s.count - 1).toNat = (l₁ ++ l₂).length
  rw [List.length_append]
  bv_omega

theorem ScanList.Holds.moveNode (h : s.Holds (l₁ ++ n :: l₂)) :
    ((s.qdfListRemoveNode n).qdfListInsertBack n).Holds (l₁ ++ l₂ ++ [n]) := by
  obtain ⟨hremove, hholds⟩ := h.removeNode
  have hperm : (s.anchor :: (l₁ ++ n :: l₂)).Perm (n :: s.anchor :: (l₁ ++ l₂)) :=
    (List.perm_middle.cons s.anchor).trans (List.Perm.swap ..)
  obtain ⟨hn, -⟩ := List.nodup_cons.mp (hperm.nodup_iff.mp h.around.nodup)
  have hanchor : (s.qdfListRemoveNode n).anchor = s.anchor := by rw [hremove]
  refine ⟨hholds.around.insertLast (by rwa [hanchor]), ?_⟩
  have hcount := h.count_eq
  have hback : ((s.qdfListRemoveNode n).qdfListInsertBack n).count = s.count := by
    rw [hremove]
    exact BitVec.sub_add_cancel s.count 1
  rw [hback, hcount]
  simp only [List.length_append, List.length_cons, List.length_nil]
  omega

theorem Sorted.entry_of_mem (h : Sorted s₀ s ds (n :: rest)) : s.entry n = s₀.entry n := by
  rw [h.entry_eq, if_neg]
  intro hmem
  have hnodup := (List.nodup_append.mp (List.nodup_cons.mp h.holds.around.nodup).2).2.1
  exact (List.nodup_cons.mp hnodup).1 (List.mem_append_right rest hmem)

theorem Sorted.entry_of_moved (h : Sorted s₀ s ds rest) (hn : n ∈ taking .moveAtLast ds) :
    s.entry n = { s₀.entry n with bssScore := 0 } := by
  rw [h.entry_eq, if_pos hn]

theorem Sorted.entry_of_stayed (h : Sorted s₀ s ds rest) (hn : n ∈ taking .nop ds) :
    s.entry n = s₀.entry n := by
  rw [h.entry_eq, if_neg]
  intro hmem
  have hdisjoint := (List.nodup_append.mp (List.nodup_cons.mp h.holds.around.nodup).2).2.2
  exact hdisjoint n hn n (List.mem_append_right rest hmem) rfl

/-- One candidate more has been looked at. -/
theorem Sorted.modify (h : Sorted s₀ s ds (n :: rest)) (a : BssidAction) :
    Sorted s₀ (blmModifyScanList s n a) (ds ++ [(n, a)]) rest := by
  obtain ⟨hanchor, hholds, hfreed, hentry⟩ := h
  have hentry_n := Sorted.entry_of_mem ⟨hanchor, hholds, hfreed, hentry⟩
  have hremove := hholds.removeNode.1
  cases a with
  | nop =>
    constructor
    · exact hanchor
    · rw [taking_append_singleton, taking_append_singleton, if_pos rfl, if_neg (by decide),
        List.append_assoc]
      exact hholds
    · rw [taking_append_singleton, if_neg (by decide)]
      exact hfreed
    · rw [taking_append_singleton, if_neg (by decide)]
      exact hentry
  | removeFromList =>
    constructor
    · change (s.qdfListRemoveNode n).anchor = s₀.anchor
      rw [hremove]
      exact hanchor
    · rw [taking_append_singleton, taking_append_singleton, if_neg (by decide),
        if_neg (by decide)]
      have hleft := hholds.removeNode.2
      exact ⟨hleft.around, hleft.count_eq⟩
    · rw [taking_append_singleton, if_pos rfl, List.flatMap_append, ← List.append_assoc,
        ← hfreed]
      change (s.qdfListRemoveNode n).freed ++ [.entry n] ++ [.node n] = _
      rw [hremove, List.append_assoc]
      rfl
    · rw [taking_append_singleton, if_neg (by decide)]
      change ∀ m, (s.qdfListRemoveNode n).entry m = _
      rw [hremove]
      exact hentry
  | moveAtLast =>
    constructor
    · change (s.qdfListRemoveNode n).anchor = s₀.anchor
      rw [hremove]
      exact hanchor
    · rw [taking_append_singleton, taking_append_singleton, if_neg (by decide), if_pos rfl]
      have hlist : taking .nop ds ++ (rest ++ (taking .moveAtLast ds ++ [n])) =
          taking .nop ds ++ (rest ++ taking .moveAtLast ds) ++ [n] := by
        rw [List.append_assoc, List.append_assoc]
      have hmoved := hholds.moveNode
      rw [hlist]
      exact ⟨hmoved.around, hmoved.count_eq⟩
    · rw [taking_append_singleton, if_neg (by decide)]
      change (s.qdfListRemoveNode n).freed = _
      rw [hremove]
      exact hfreed
    · intro m
      rw [taking_append_singleton, if_pos rfl]
      change Function.update (s.qdfListRemoveNode n).entry n
        { (s.qdfListRemoveNode n).entry n with bssScore := 0 } m = _
      rw [hremove]
      by_cases hm : m = n
      · subst hm
        have hmem : m ∈ taking .moveAtLast ds ++ [m] :=
          List.mem_append_right _ (List.mem_singleton.mpr rfl)
        rw [Function.update_self, if_pos hmem]
        exact congrArg (fun e : ScanEntry => { e with bssScore := 0 }) hentry_n
      · have hiff : m ∈ taking .moveAtLast ds ++ [n] ↔ m ∈ taking .moveAtLast ds := by
          rw [List.mem_append, List.mem_singleton, or_iff_left hm]
        rw [Function.update_of_ne hm]
        simp only [hiff]
        exact hentry m

end Lists

section Walks

variable {clk : ℕ → Time} {cfg : BlmConfig} {env : ℕ → Env} {s₀ : ScanList} {rest : List Node}

theorem filterLoop_sorted {ds : List (Node × BssidAction)} {cur : Option Node} {w : Walk}
    (h : Sorted s₀ w.list ds rest) (hcur : rest = [] ∨ cur = rest.head?) :
    Sorted s₀ (filterLoop clk cfg env rest.length cur w).list
        (ds ++ (decisions clk cfg env s₀.entry rest w.seen.length w.db).1) [] ∧
      (filterLoop clk cfg env rest.length cur w).db =
        (decisions clk cfg env s₀.entry rest w.seen.length w.db).2 ∧
      (filterLoop clk cfg env rest.length cur w).seen = w.seen ++ rest := by
  induction rest generalizing ds cur w with
  | nil =>
    rw [show decisions clk cfg env s₀.entry [] w.seen.length w.db = ([], w.db) from rfl,
      List.append_nil, List.append_nil]
    exact ⟨h, rfl, rfl⟩
  | cons n rest ih =>
    obtain rfl : cur = some n := hcur.resolve_left (List.cons_ne_nil n rest)
    have hentry := h.entry_of_mem
    have hnext : w.list.qdfListPeekNext n = (rest ++ taking .moveAtLast ds).head? :=
      h.holds.peekNext
    have hgo : rest = [] ∨ w.list.qdfListPeekNext n = rest.head? := by
      cases rest with
      | nil => exact .inl rfl
      | cons c rest => exact .inr hnext
    have hstep := ih (w := ⟨blmModifyScanList w.list n
      (blmActionOnBssid clk cfg (env w.seen.length) (w.list.entry n) w.db).1,
      (blmActionOnBssid clk cfg (env w.seen.length) (w.list.entry n) w.db).2,
      w.seen ++ [n]⟩) (h.modify _) hgo
    rw [List.append_assoc, List.length_append, hentry, List.append_assoc] at hstep
    unfold filterLoop decisions
    dsimp only [List.length_cons]
    rw [hentry]
    exact hstep

variable (clk cfg env) in
theorem decisions_fst (entry : Node → ScanEntry) (nodes : List Node) (i : ℕ) (db : RejectDb) :
    (decisions clk cfg env entry nodes i db).1.map Prod.fst = nodes := by
  induction nodes generalizing i db with
  | nil => rfl
  | cons n nodes ih => exact congrArg (n :: ·) (ih (i + 1) _)

theorem nodup_blocks {l : List Node} (h : l.Nodup) : (l.flatMap blocks).Nodup := by
  induction l with
  | nil => exact List.nodup_nil
  | cons n l ih =>
    obtain ⟨hn, hl⟩ := List.nodup_cons.mp h
    rw [List.flatMap_cons]
    refine List.nodup_append.mpr ⟨by simp [blocks], ih hl, ?_⟩
    rintro b hb b' hb' rfl
    obtain ⟨m, hm, hbm⟩ := List.mem_flatMap.mp hb'
    have hmn : m = n := by
      unfold blocks at hb hbm
      cases b <;> simp_all
    exact hn (hmn ▸ hm)

variable (clk cfg env) in
theorem blmFilterBssid_sorted {s : ScanList} {nodes : List Node} (h : s.Holds nodes)
    (db : RejectDb) :
    Sorted s (blmFilterBssid clk cfg env s db).2.list
        (decisions clk cfg env s.entry nodes 0 db).1 [] ∧
      (blmFilterBssid clk cfg env s db).2.db = (decisions clk cfg env s.entry nodes 0 db).2 ∧
      (blmFilterBssid clk cfg env s db).2.seen = nodes := by
  have hstart : Sorted s s [] nodes := by
    constructor
    · rfl
    · rw [show taking .moveAtLast [] = [] from rfl, List.append_nil]
      exact h
    · exact (List.append_nil _).symm
    · exact fun n => (if_neg List.not_mem_nil).symm
  unfold blmFilterBssid
  split_ifs with hzero
  · have hlen : nodes.length = 0 := by
      rw [← h.count_eq, hzero]
      rfl
    obtain rfl := List.eq_nil_of_length_eq_zero hlen
    exact ⟨hstart, rfl, rfl⟩
  · rw [h.count_eq, h.peekFront]
    exact filterLoop_sorted (w := ⟨s, db, []⟩) hstart (.inr rfl)

/-- The candidates nothing is done with come first, those to be avoided behind them with a score of
zero, and the others have been freed: each group in the order of the list, every candidate looked at
once and in one of the groups. -/
theorem blmFilterBssid_partition (clk : ℕ → Time) (cfg : BlmConfig) (env : ℕ → Env) (s : ScanList)
    (nodes : List Node) (h : s.Holds nodes) (db : RejectDb) :
    let ds := (decisions clk cfg env s.entry nodes 0 db).1
    let r := blmFilterBssid clk cfg env s db
    r.2.list.Holds (taking .nop ds ++ taking .moveAtLast ds) ∧
      (∀ n ∈ taking .nop ds, r.2.list.entry n = s.entry n) ∧
      (∀ n ∈ taking .moveAtLast ds, r.2.list.entry n = { s.entry n with bssScore := 0 }) ∧
      r.2.list.freed = s.freed ++ (taking .removeFromList ds).flatMap blocks ∧
      ((taking .removeFromList ds).flatMap blocks).Nodup ∧
      nodes.Nodup ∧ r.2.seen = nodes ∧
      (taking .nop ds ++ taking .moveAtLast ds ++ taking .removeFromList ds).Perm nodes ∧
      r.2.db = (decisions clk cfg env s.entry nodes 0 db).2 := by
  intro ds r
  obtain ⟨hsorted, hdb, hseen⟩ :=
    blmFilterBssid_sorted clk cfg env h db
  have hnodes : nodes.Nodup := (List.nodup_cons.mp h.around.nodup).2
  have hperm : (taking .nop ds ++ taking .moveAtLast ds ++ taking .removeFromList ds).Perm nodes :=
    decisions_fst clk cfg env s.entry nodes 0 db ▸ taking_perm ds
  have hgone := (List.nodup_append.mp (hperm.nodup_iff.mpr hnodes)).2.1
  exact ⟨hsorted.holds, fun n hn => hsorted.entry_of_stayed hn,
    fun n hn => hsorted.entry_of_moved hn, hsorted.freed_eq, nodup_blocks hgone, hnodes, hseen,
    hperm, hdb⟩

/-- Of three candidates the first is to be avoided and the second is blacklisted. -/
theorem blmFilterBssid_partition_three :
    let cfg : BlmConfig := ⟨5, 10, 30, 3, by decide, by decide, by decide, by decide⟩
    let s : ScanList := ⟨0, ⟨fun n => (n + 1) % 4, fun n => (n + 3) % 4⟩, 3,
      fun n => ⟨BitVec.ofNat 48 n, -60, 100⟩, []⟩
    let db : RejectDb := ⟨[{ bssid := 2, userspaceBlacklist := true },
      { bssid := 1, userspaceAvoidlist := true }], 0⟩
    let r := blmFilterBssid (fun _ => 0) cfg (fun _ => ⟨true, .success, false, true, true⟩) s db
    r.2.list.Holds [3, 1] ∧ r.2.list.freed = [.entry 2, .node 2] ∧ r.2.seen = [1, 2, 3] := by
  intro cfg s db
  obtain ⟨hholds, -, -, hfreed, -, -, hseen, -⟩ :=
    blmFilterBssid_partition (fun _ => 0) cfg (fun _ => ⟨true, .success, false, true, true⟩) s
      [1, 2, 3] ⟨⟨by decide, by decide⟩, rfl⟩ db
  have hds : (decisions (fun _ => 0) cfg (fun _ => ⟨true, .success, false, true, true⟩) s.entry
      [1, 2, 3] 0 db).1 = [(1, .moveAtLast), (2, .removeFromList), (3, .nop)] := by
    decide +kernel
  have hfreed_two : s.freed ++ (taking .removeFromList
      [(1, .moveAtLast), (2, .removeFromList), (3, .nop)]).flatMap blocks =
      [.entry 2, .node 2] := by
    decide
  rw [hds] at hholds hfreed
  rw [hfreed_two] at hfreed
  exact ⟨hholds, hfreed, hseen⟩

end Walks

section Entries

variable {clk : ℕ → Time} {cfg : BlmConfig} {env : ℕ → Env}

def visits (entry : Node → ScanEntry) (env : ℕ → Env) : List Node → ℕ → List (ScanEntry × Env)
  | [], _ => []
  | n :: ns, i => (entry n, env i) :: visits entry env ns (i + 1)

variable (clk cfg env) in
theorem filterScanList_visits (entry : Node → ScanEntry) (nodes : List Node)
    (moved : List ScanEntry) (i : ℕ) (db : RejectDb) :
    filterScanList clk cfg (visits entry env nodes i) moved db =
      ((taking .nop (decisions clk cfg env entry nodes i db).1).map entry ++
          (moved ++ (taking .moveAtLast (decisions clk cfg env entry nodes i db).1).map
            fun n => { entry n with bssScore := 0 }),
        (decisions clk cfg env entry nodes i db).2) := by
  induction nodes generalizing moved i db with
  | nil => simp [visits, filterScanList, decisions, taking]
  | cons n nodes ih =>
    unfold visits filterScanList decisions
    dsimp only
    rw [taking_cons, taking_cons]
    cases (blmActionOnBssid clk cfg (env i) (entry n) db).1 with
    | nop =>
      rw [ih]
      rfl
    | removeFromList => exact ih ..
    | moveAtLast =>
      dsimp only
      rw [ih, List.append_assoc]
      rfl

/-- The walk over the nodes filters the entries as the walk over a list of them does. -/
theorem blmFilterBssid_refines {s : ScanList} {nodes : List Node} (h : s.Holds nodes)
    (db : RejectDb) :
    let r := blmFilterBssid clk cfg env s db
    let a := RejectList.blmFilterBssid clk cfg (visits s.entry env nodes 0) db
    ∃ left, r.2.list.Holds left ∧ r.1 = a.1 ∧ left.map r.2.list.entry = a.2.1 ∧ r.2.db = a.2.2 := by
  intro r a
  obtain ⟨hsorted, hdb, -⟩ :=
    blmFilterBssid_sorted clk cfg env h db
  have hfilter := filterScanList_visits clk cfg env s.entry nodes [] 0 db
  have hentries : (taking .nop (decisions clk cfg env s.entry nodes 0 db).1 ++
      ([] ++ taking .moveAtLast (decisions clk cfg env s.entry nodes 0 db).1)).map r.2.list.entry =
      (filterScanList clk cfg (visits s.entry env nodes 0) [] db).1 := by
    rw [hfilter, List.map_append]
    exact congrArg₂ (· ++ ·) (List.map_congr_left fun n hn => hsorted.entry_of_stayed hn)
      (List.map_congr_left fun n hn => hsorted.entry_of_moved hn)
  have hempty : visits s.entry env nodes 0 = [] ↔ s.count = 0 := by
    have hcount : s.count = 0 ↔ nodes.length = 0 := by
      rw [← h.count_eq, BitVec.toNat_eq]
      exact Iff.rfl
    rw [hcount, List.length_eq_zero_iff]
    cases nodes with
    | nil => exact iff_of_true rfl rfl
    | cons n nodes => exact iff_of_false (List.cons_ne_nil _ _) (List.cons_ne_nil n nodes)
  have hstatus : r.1 = a.1 := by
    change (blmFilterBssid clk cfg env s db).1 = (RejectList.blmFilterBssid clk cfg _ db).1
    unfold blmFilterBssid RejectList.blmFilterBssid
    by_cases hzero : s.count = 0
    · rw [if_pos hzero, if_pos (hempty.mpr hzero)]
    · rw [if_neg hzero, if_neg (fun hnil => hzero (hempty.mp hnil))]
  have ha : a.2 = filterScanList clk cfg (visits s.entry env nodes 0) [] db := by
    change (RejectList.blmFilterBssid clk cfg _ db).2 = _
    unfold RejectList.blmFilterBssid
    split_ifs with hnil
    · rw [hnil]
      rfl
    · rfl
  refine ⟨_, hsorted.holds, hstatus, ?_, ?_⟩
  · rw [ha]
    exact hentries
  · rw [ha, hfilter]
    exact hdb

/-- Of two candidates the first is to be avoided. -/
theorem blmFilterBssid_refines_two :
    let cfg : BlmConfig := ⟨5, 10, 30, 3, by decide, by decide, by decide, by decide⟩
    let s : ScanList := ⟨0, ⟨fun n => (n + 1) % 3, fun n => (n + 2) % 3⟩, 2,
      fun n => ⟨BitVec.ofNat 48 n, -60, 100⟩, []⟩
    let r := blmFilterBssid (fun _ => 0) cfg (fun _ => ⟨true, .success, false, true, true⟩) s
      ⟨[{ bssid := 1, userspaceAvoidlist := true }], 0⟩
    ∃ left, r.2.list.Holds left ∧
      (left.map r.2.list.entry).map ScanEntry.bssScore = [100, 0] := by
  intro cfg s r
  obtain ⟨left, hholds, -, hentries, -⟩ := @blmFilterBssid_refines (fun _ => 0) cfg
    (fun _ => ⟨true, .success, false, true, true⟩) s [1, 2] ⟨⟨by decide, by decide⟩, rfl⟩
    ⟨[{ bssid := 1, userspaceAvoidlist := true }], 0⟩
  exact ⟨left, hholds, hentries ▸ by decide +kernel⟩

end Entries

end KernelModules.BlmScan
