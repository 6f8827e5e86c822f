import KernelModules.ScanCacheSteps

/-!
# The life of a scan entry

Every reference is counted in every state, whatever the order in which the callers take their
steps. A node is linked as long as it has one and freed with the last, and who iterates from one
list to another is returned every node in between that stays valid, once.
-/

namespace KernelModules.ScanCache

variable {s s' : St} {p p' : Proc} {os : List Ret} {n i t g : ℕ}

def St.holders (s : St) (n : ℕ) : ℕ := Ledger.total (fun p => p.holds.count n) s.procs

def St.others (s : St) (t n : ℕ) : ℕ :=
  Ledger.total (fun p => p.holds.count n) (s.procs.eraseIdx t)

/-- Every reference has its holder or is that of the cookie; a node is linked in the list of its
hash as long as it has one; the linked nodes are counted; a node is freed once, with no reference
left, and by nobody who holds it. -/
structure Accurate (s : St) : Prop where
  refs : ∀ n, (s.db.node n).refCnt = (if s.db.valid n then 1 else 0) + s.holders n
  linked : ∀ n i, n ∈ s.db.scanHashTbl i ↔ i = s.db.hash n ∧ 0 < (s.db.node n).refCnt
  nodup : ∀ i, (s.db.scanHashTbl i).Nodup
  entries : s.db.numEntries =
    Ledger.total (fun i => (s.db.scanHashTbl i).length) (List.range scanHashSize)
  once : s.db.freed.Nodup
  freed : ∀ n, n ∈ s.db.freed ↔ n < s.db.fresh ∧ (s.db.node n).refCnt = 0
  unheld : ∀ n ∈ s.db.freed, s.holders n = 0

def ReturnsValid (s : St) : Prop :=
  ∀ i, ∀ r ∈ (machine.step s i).2,
    s.db.valid r.2 = true ∧ (machine.step s i).1.db.valid r.2 = true

/-- Who iterates from the start of one list to the start of another is returned each node in
between that is valid all the time, once. -/
def ReturnsOnce (s : St) (is : List Event) : Prop :=
  ∀ t p p' a b n, s.procs[t]? = some p → (machine.run s is).1.procs[t]? = some p' →
    p'.stage = p.stage → p.cursor = some ⟨a, none⟩ → p'.cursor = some ⟨b, none⟩ →
    s.db.valid n = true → (machine.run s is).1.db.valid n = true →
    a ≤ s.db.hash n → s.db.hash n < b → (machine.run s is).2.count (t, n) = 1

structure Held (s : St) : Prop where
  sound : Sound s.db s.holders []
  placed : ∀ p ∈ s.procs, Placed s.db p

theorem Held.accurate (h : Held s) : Accurate s := by
  obtain ⟨⟨htidy, hcounted⟩, _⟩ := h
  have href : ∀ n, (s.db.node n).refCnt = (if s.db.valid n then 1 else 0) + s.holders n := hcounted
  refine ⟨href, htidy.linked, htidy.nodup, htidy.entries, htidy.once, htidy.freed, ?_⟩
  intro n hn
  have hzero := ((htidy.freed n).mp hn).2
  have := href n
  omega

theorem holders_eq (hp : s.procs[t]? = some p) (n : ℕ) :
    s.holders n = s.others t n + p.holds.count n :=
  (Ledger.total_eraseIdx (f := fun p : Proc => p.holds.count n) hp).symm

theorem holders_set (hp : s.procs[t]? = some p) (db : ScanDb) (q : Proc) (n : ℕ) :
    St.holders ⟨db, s.procs.set t q⟩ n = s.others t n + q.holds.count n :=
  Ledger.total_set (f := fun p : Proc => p.holds.count n) hp q

theorem Held.sound_of_get (h : Held s) (hp : s.procs[t]? = some p) :
    Sound s.db (s.others t) p.holds := by
  refine ⟨h.sound.tidy, ?_⟩
  intro n
  have hcounted := h.sound.counted n
  have hholders := holders_eq hp n
  rw [List.count_nil] at hcounted
  omega

theorem Held.stepped (h : Held s) (hp : s.procs[t]? = some p) (b : Bool) :
    Stepped s.db (s.others t) p (procStep s.db b p) :=
  procStep_stepped (h.sound_of_get hp) (h.placed p (List.mem_of_getElem? hp)) b

theorem Held.mem_lt (h : Held s) (hp : p ∈ s.procs) (hn : n ∈ p.holds) : n < s.db.fresh := by
  obtain ⟨t, ht⟩ := List.mem_iff_getElem?.mp hp
  exact (h.sound_of_get ht).held_lt hn

theorem Held.turn (h : Held s) (hp : s.procs[t]? = some p) (b : Bool) :
    Held ⟨(procStep s.db b p).db, s.procs.set t (procStep s.db b p).proc⟩ := by
  have hst := h.stepped hp b
  refine ⟨⟨hst.sound.tidy, ?_⟩, ?_⟩
  · intro n
    have hcounted := hst.sound.counted n
    rw [holders_set hp, List.count_nil]
    dsimp only
    omega
  · intro q hq
    rcases List.mem_or_eq_of_mem_set hq with hmem | rfl
    · exact (h.placed q hmem).evolves (fun n hn => h.mem_lt hmem hn) hst.evolves
    · exact hst.placed

theorem begin_holds (k : Call) : k.begin.holds = [] := by
  cases k <;> rfl

theorem begin_placed (k : Call) (db : ScanDb) : Placed db k.begin := by
  cases k <;> exact fun n hn => (Option.not_mem_none n hn).elim

theorem Held.call (h : Held s) (k : Call) : Held { s with procs := s.procs ++ [k.begin] } := by
  refine ⟨⟨h.sound.tidy, ?_⟩, ?_⟩
  · intro n
    have hcounted := h.sound.counted n
    have hholders : St.holders { s with procs := s.procs ++ [k.begin] } n = s.holders n := by
      unfold St.holders
      rw [Ledger.total_concat, begin_holds, List.count_nil, Nat.add_zero]
    rw [hholders]
    exact hcounted
  · intro q hq
    rcases List.mem_append.mp hq with hmem | hnew
    · exact h.placed q hmem
    · rw [List.mem_singleton.mp hnew]
      exact begin_placed k s.db

theorem step_of_none (hp : s.procs[t]? = none) (b : Bool) :
    machine.step s (.step t b) = (s, []) := by
  change St.step s (.step t b) = (s, [])
  simp only [St.step, hp]

theorem step_of_some (hp : s.procs[t]? = some p) (b : Bool) :
    machine.step s (.step t b) =
      (⟨(procStep s.db b p).db, s.procs.set t (procStep s.db b p).proc⟩,
        (procStep s.db b p).ret.toList.map (t, ·)) := by
  change St.step s (.step t b) = _
  simp only [St.step, hp]

theorem Held.step (h : Held s) (i : Event) : Held (machine.step s i).1 := by
  cases i with
  | call k => exact h.call k
  | step t b =>
    cases hp : s.procs[t]? with
    | none =>
      rw [step_of_none hp]
      exact h
    | some p =>
      rw [step_of_some hp]
      exact h.turn hp b

theorem Held.returnsValid (h : Held s) : ReturnsValid s := by
  intro i r hr
  cases i with
  | call k => cases hr
  | step t b =>
    cases hp : s.procs[t]? with
    | none =>
      rw [step_of_none hp] at hr
      cases hr
    | some p =>
      rw [step_of_some hp] at hr ⊢
      obtain ⟨n, hn, rfl⟩ := List.mem_map.mp hr
      exact (h.stepped hp b).valid n (Option.mem_toList.mp hn)

theorem held_init : Held init := by
  refine ⟨⟨⟨?_, ?_, ?_, ?_, ?_, ?_⟩, ?_⟩, ?_⟩
  · exact fun n i => iff_of_false List.not_mem_nil fun hand => lt_irrefl 0 hand.2
  · exact fun _ => List.nodup_nil
  · rfl
  · exact List.nodup_nil
  · exact fun n => iff_of_false List.not_mem_nil fun hand => Nat.not_lt_zero n hand.1
  · exact fun _ _ => rfl
  · exact fun _ => rfl
  · exact fun p hp => absurd hp List.not_mem_nil

theorem held_run (is : List Event) : Held (machine.run init is).1 :=
  machine.invariant (fun _ i h => h.step i) is held_init

/-- A node that is valid was returned unless it is still before the cursor. -/
structure Serving (t g n i : ℕ) (os : List Ret) (s : St) : Prop where
  held : Held s
  lt : n < s.db.fresh
  hash : s.db.hash n = i
  proc : ∃ p, s.procs[t]? = some p ∧ g ≤ p.stage ∧
    (p.stage = g → s.db.valid n = true → ∀ c, p.cursor = some c →
      (Ahead s.db c n → os.count (t, n) = 0) ∧ (¬Ahead s.db c n → os.count (t, n) = 1))

theorem count_ret (t n : ℕ) (ret : Option ℕ) :
    (ret.toList.map (t, ·)).count (t, n) = if ret = some n then 1 else 0 := by
  cases ret with
  | none => rfl
  | some m =>
    rw [Option.toList_some, List.map_singleton, List.count_singleton]
    simp

theorem count_ret_of_ne {u : ℕ} (h : u ≠ t) (n : ℕ) (ret : Option ℕ) :
    (ret.toList.map (u, ·)).count (t, n) = 0 := by
  apply List.count_eq_zero.mpr
  intro hmem
  obtain ⟨m, _, heq⟩ := List.mem_map.mp hmem
  exact h (congrArg Prod.fst heq)

theorem cursor_of_stage {c' : Cursor} (hc : p'.cursor = some c') (h : p'.stage = p.stage) :
    ∃ c, p.cursor = some c := by
  cases p with
  | walk k c ph => exact ⟨c, rfl⟩
  | lookup addr c => exact ⟨c, rfl⟩
  | find e c => exact ⟨c, rfl⟩
  | oldest e dup old c ph => exact ⟨c, rfl⟩
  | found e dup => cases p' <;> cases hc <;> cases h
  | add e dup => cases p' <;> cases hc <;> cases h
  | done => cases p' <;> cases hc <;> cases h

theorem Serving.own (h : Serving t g n i os s) (b : Bool) :
    Serving t g n i (os ++ (machine.step s (.step t b)).2) (machine.step s (.step t b)).1 := by
  obtain ⟨hheld, hlt, hhash, p, hp, hg, hserve⟩ := h
  have hst := hheld.stepped hp b
  have hnew := hheld.step (.step t b)
  rw [step_of_some hp] at hnew ⊢
  have hget : (s.procs.set t (procStep s.db b p).proc)[t]? = some (procStep s.db b p).proc := by
    rw [List.getElem?_set_self (List.getElem?_eq_some_iff.mp hp).1]
  refine ⟨hnew, hlt.trans_le hst.evolves.fresh, (hst.evolves.hash n hlt).trans hhash, _, hget,
    hg.trans hst.stage, ?_⟩
  intro hstage hv c' hc'
  have hpg : p.stage = g := by
    have := hst.stage
    omega
  obtain ⟨c, hc⟩ := cursor_of_stage hc' (hstage.trans hpg.symm)
  obtain ⟨hiff, hret⟩ := hst.passes c c' hc hc' (hstage.trans hpg.symm) n hlt hv
  obtain ⟨hzero, hone⟩ := hserve hpg (hst.evolves.valid n hlt hv) c hc
  rw [List.count_append, count_ret]
  constructor
  · intro hahead
    rw [hzero (hiff.mpr (.inr hahead)), if_neg fun heq => hret heq hahead]
  · intro hnot
    split
    · rename_i heq
      rw [hzero (hiff.mpr (.inl heq))]
    · rename_i hne
      rw [hone fun hahead => (hiff.mp hahead).elim hne hnot]

theorem Serving.other {u : ℕ} (h : Serving t g n i os s) (hu : u ≠ t) (b : Bool) :
    Serving t g n i (os ++ (machine.step s (.step u b)).2) (machine.step s (.step u b)).1 := by
  obtain ⟨hheld, hlt, hhash, p, hp, hg, hserve⟩ := h
  cases hq : s.procs[u]? with
  | none =>
    rw [step_of_none hq, List.append_nil]
    exact ⟨hheld, hlt, hhash, p, hp, hg, hserve⟩
  | some q =>
    have hst := hheld.stepped hq b
    have hnew := hheld.step (.step u b)
    rw [step_of_some hq] at hnew ⊢
    have hget : (s.procs.set u (procStep s.db b q).proc)[t]? = some p := by
      rw [List.getElem?_set_ne hu, hp]
    refine ⟨hnew, hlt.trans_le hst.evolves.fresh, (hst.evolves.hash n hlt).trans hhash, p, hget, hg, ?_⟩
    intro hstage hv c hc
    have hpasses : Passes s.db c (procStep s.db b q).db c none := by
      have hsound : Sound (procStep s.db b q).db _ p.holds := hnew.sound_of_get hget
      apply hst.evolves.passes (hheld.sound_of_get hp) hsound
      intro m hm
      have hmem := cursor_subset_holds hc m hm
      exact ⟨(hheld.placed p (List.mem_of_getElem? hp)).cursor hc m hm, hmem, hmem⟩
    have hiff : Ahead s.db c n ↔ Ahead (procStep s.db b q).db c n := by
      rw [(hpasses n hlt hv).1]
      exact or_iff_right (by simp)
    obtain ⟨hzero, hone⟩ := hserve hstage (hst.evolves.valid n hlt hv) c hc
    rw [List.count_append, count_ret_of_ne hu, Nat.add_zero]
    exact ⟨fun hahead => hzero (hiff.mpr hahead), fun hnot => hone fun hahead => hnot (hiff.mp hahead)⟩

theorem Serving.step (h : Serving t g n i os s) (ev : Event) :
    Serving t g n i (os ++ (machine.step s ev).2) (machine.step s ev).1 := by
  cases ev with
  | call k =>
    obtain ⟨hheld, hlt, hhash, p, hp, hg, hserve⟩ := h
    refine ⟨hheld.call k, hlt, hhash, p, ?_, hg, ?_⟩
    · exact List.getElem?_append_left (List.getElem?_eq_some_iff.mp hp).1 ▸ hp
    · rw [show (machine.step s (.call k)).2 = [] from rfl, List.append_nil]
      exact hserve
  | step u b =>
    rcases eq_or_ne u t with rfl | hu
    · exact h.own b
    · exact h.other hu b

theorem Held.returnsOnce (h : Held s) (is : List Event) : ReturnsOnce s is := by
  intro t p p' a b n hp hp' hstage hc hc' hv hv' ha hb
  have hpos := h.sound.counted.pos_of_valid hv
  have hlt := h.sound.tidy.lt_fresh hpos
  have hstart : Serving t p.stage n (s.db.hash n) [] s := by
    refine ⟨h, hlt, rfl, p, hp, le_rfl, ?_⟩
    intro _ _ c hc₁
    rw [hc] at hc₁
    cases hc₁
    refine ⟨fun _ => rfl, fun hnot => absurd ?_ hnot⟩
    exact (ahead_start (h.sound.tidy.mem hpos) a).mpr ha
  have hend : Serving t p.stage n (s.db.hash n) (machine.run s is).2 (machine.run s is).1 := by
    apply machine.history_of_meets (C := fun _ _ => True)
      (I := fun _ os s' => Serving t p.stage n (s.db.hash n) os s') _ hstart
      (machine.meets_of_forall s fun _ _ => trivial)
    exact fun _ _ _ i hserve _ => hserve.step i
  obtain ⟨hheld, _, hhash, q, hq, _, hserve⟩ := hend
  rw [hp'] at hq
  cases hq
  apply (hserve hstage hv' _ hc').2
  rw [ahead_start (hheld.sound.linked_of_valid hv'), hhash]
  omega

/-- Whatever the interleaving, the references and the lists are in order, iterators return valid
nodes only, and a complete iteration returns those that stay valid once. -/
theorem lifetime (is : List Event) : Accurate (machine.run init is).1 ∧
    ReturnsValid (machine.run init is).1 ∧
    ∀ js, ReturnsOnce (machine.run init is).1 js := by
  have h := held_run is
  exact ⟨h.accurate, h.returnsValid, h.returnsOnce⟩

/-- An entry is added, then looked up by a caller that goes on to the end of the list. -/
example : (machine.run init
    [.call (.addUpdateEntry ⟨fun _ => 0⟩), .step 0 false, .step 0 false, .step 0 false, .step 0 false,
      .call (.updateMlmeInfo fun _ => 0), .step 1 false, .step 1 false]).2 = [(1, 0)] := by decide

end KernelModules.ScanCache
