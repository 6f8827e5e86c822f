import KernelModules.ScanCacheOrder

/-!
# The callers of the scan cache

What a caller does in one step keeps the references of all the others, whatever it holds itself,
and moves its own cursor over one valid node at most.
-/

namespace KernelModules.ScanCache

variable {db db' db₁ : ScanDb} {w w' : ℕ → ℕ} {held l : List ℕ} {e : ScanEntry} {dup old : Option ℕ}
  {c c' : Cursor} {p : Proc} {r : Turn} {k : Walk} {ph : WalkPhase} {addr : MacAddr} {n m i : ℕ}
  {b : Bool}

/-- The node at the cursor is on the list that is iterated, the duplicate on that of the entry. The
oldest node is given back by the time the next one is taken. -/
def Placed (db : ScanDb) : Proc → Prop
  | .walk _ c _ | .lookup _ c => ∀ n ∈ c.cur, db.hash n = c.hash
  | .find e c => ∀ n ∈ c.cur, db.hash n = c.hash ∧ c.hash = scanGetHash e.bssid
  | .found e dup | .add e dup => ∀ d ∈ dup, db.hash d = scanGetHash e.bssid
  | .oldest e dup old c ph =>
    (∀ n ∈ c.cur, db.hash n = c.hash) ∧ (∀ d ∈ dup, db.hash d = scanGetHash e.bssid) ∧
      (ph = .take → old = none)
  | .done => True

theorem Placed.cursor (h : Placed db p) (hc : p.cursor = some c) : ∀ n ∈ c.cur, db.hash n = c.hash := by
  cases p with
  | walk k c₁ ph =>
    cases hc
    exact h
  | lookup addr c₁ =>
    cases hc
    exact h
  | find e c₁ =>
    cases hc
    exact fun n hn => (h n hn).1
  | oldest e dup old c₁ ph =>
    cases hc
    exact h.1
  | found e dup => cases hc
  | add e dup => cases hc
  | done => cases hc

theorem cursor_subset_holds (hc : p.cursor = some c) : ∀ n ∈ c.cur, n ∈ p.holds := by
  intro n hn
  have hmem := Option.mem_toList.mpr hn
  cases p with
  | walk k c₁ ph =>
    cases hc
    exact hmem
  | lookup addr c₁ =>
    cases hc
    exact hmem
  | find e c₁ =>
    cases hc
    exact hmem
  | oldest e dup old c₁ ph =>
    cases hc
    exact List.mem_append_left _ hmem
  | found e dup => cases hc
  | add e dup => cases hc
  | done => cases hc

theorem Placed.evolves (h : Placed db p) (hlt : ∀ n ∈ p.holds, n < db.fresh)
    (hev : Evolves db db') : Placed db' p := by
  have hkeep : ∀ n ∈ p.holds, db'.hash n = db.hash n := fun n hn => hev.hash n (hlt n hn)
  cases p with
  | walk k c ph =>
    intro n hn
    rw [hkeep n (Option.mem_toList.mpr hn)]
    exact h n hn
  | lookup addr c =>
    intro n hn
    rw [hkeep n (Option.mem_toList.mpr hn)]
    exact h n hn
  | find e c =>
    intro n hn
    rw [hkeep n (Option.mem_toList.mpr hn)]
    exact h n hn
  | found e dup =>
    intro n hn
    rw [hkeep n (Option.mem_toList.mpr hn)]
    exact h n hn
  | add e dup =>
    intro n hn
    rw [hkeep n (Option.mem_toList.mpr hn)]
    exact h n hn
  | oldest e dup old c ph =>
    obtain ⟨hcur, hdup, htake⟩ := h
    refine ⟨?_, ?_, htake⟩
    · intro n hn
      rw [hkeep n (List.mem_append_left _ (Option.mem_toList.mpr hn))]
      exact hcur n hn
    · intro n hn
      rw [hkeep n (List.mem_append_right _
        (List.mem_append_right _ (Option.mem_toList.mpr hn)))]
      exact hdup n hn
  | done => trivial

/-- Of the nodes that stay valid, those before the cursor are the one that is returned and those
that are before it then. -/
def Passes (db : ScanDb) (c : Cursor) (db' : ScanDb) (c' : Cursor) (ret : Option ℕ) : Prop :=
  ∀ n < db.fresh, db'.valid n = true →
    (Ahead db c n ↔ ret = some n ∨ Ahead db' c' n) ∧ (ret = some n → ¬Ahead db' c' n)

/-- What a step of a caller keeps, where `w` counts the references of the others. -/
structure Stepped (db : ScanDb) (w : ℕ → ℕ) (p : Proc) (r : Turn) : Prop where
  sound : Sound r.db w r.proc.holds
  evolves : Evolves db r.db
  placed : Placed r.db r.proc
  stage : p.stage ≤ r.proc.stage
  valid : ∀ n ∈ r.ret, db.valid n = true ∧ r.db.valid n = true
  passes : ∀ c c', p.cursor = some c → r.proc.cursor = some c' → r.proc.stage = p.stage →
    Passes db c r.db c' r.ret

theorem Sound.held_lt (h : Sound db w held) (hmem : n ∈ held) : n < db.fresh :=
  h.tidy.lt_fresh (h.counted.pos_of_mem hmem)

theorem Evolves.passes (h : Evolves db db') (hs : Sound db w held) (hs' : Sound db' w' l)
    (hcur : ∀ n ∈ c.cur, db.hash n = c.hash ∧ n ∈ held ∧ n ∈ l) : Passes db c db' c none := by
  intro n hn hv
  have hpos := hs'.counted.pos_of_valid hv
  have hiff : Ahead db' c n ↔ Ahead db c n := by
    apply h.ahead_iff hs.tidy hs'.tidy hpos hn
    intro m hm
    obtain ⟨hhash, hheld, hl⟩ := hcur m hm
    have hmem := hs.linked_of_mem hheld
    have hmem' := hs'.linked_of_mem hl
    rw [h.hash m (hs.held_lt hheld), hhash] at hmem'
    rw [hhash] at hmem
    exact ⟨hmem, hmem'⟩
  refine ⟨?_, fun heq => absurd heq (by simp)⟩
  rw [hiff]
  exact (or_iff_right (by simp)).symm

theorem Stepped.of_same (hs : Sound db w p.holds) (hp : Placed db p) (hsound : Sound r.db w r.proc.holds)
    (hev : Evolves db r.db) (hplaced : Placed r.db r.proc) (hcursor : r.proc.cursor = p.cursor)
    (hstage : r.proc.stage = p.stage) (hret : r.ret = none) : Stepped db w p r := by
  refine ⟨hsound, hev, hplaced, hstage.ge, ?_, ?_⟩
  · intro n hn
    rw [hret] at hn
    cases hn
  · intro c c' hc hc' _
    have heq : c' = c := by
      rw [hcursor, hc] at hc'
      exact (Option.some.inj hc').symm
    rw [hret, heq]
    rw [heq] at hc'
    apply hev.passes hs hsound
    intro n hn
    exact ⟨hp.cursor hc n hn, cursor_subset_holds hc n hn, cursor_subset_holds hc' n hn⟩

theorem Stepped.of_leave (hsound : Sound r.db w r.proc.holds) (hev : Evolves db r.db)
    (hplaced : Placed r.db r.proc) (hstage : p.stage < r.proc.stage) (hret : r.ret = none) :
    Stepped db w p r := by
  refine ⟨hsound, hev, hplaced, hstage.le, ?_, ?_⟩
  · intro n hn
    rw [hret] at hn
    cases hn
  · intro c c' _ _ heq
    omega

/-- A step to the next node, or to the next list. -/
theorem Stepped.of_advance {proc : Cursor → Proc} (hs : Sound db w p.holds)
    (hholds : p.holds = c.cur.toList ++ l) (hcursor : p.cursor = some c)
    (hproc : ∀ c', (proc c').holds = c'.cur.toList ++ l ∧ (proc c').cursor = some c' ∧
      (proc c').stage = p.stage)
    (hplaced : ∀ db' c', Evolves db db' → (∀ n ∈ c'.cur, db'.hash n = c'.hash ∧ c'.hash = c.hash) →
      Placed db' (proc c')) : Stepped db w p (advance db c proc) := by
  rw [hholds] at hs
  obtain ⟨hsound, hev, hvalid⟩ := hs.getNextNode c.hash
  obtain ⟨db₁, ret, heq⟩ : ∃ db₁ ret, getNextNode db c.hash c.cur = (db₁, ret) := ⟨_, _, rfl⟩
  unfold advance
  rw [heq] at hsound hev hvalid ⊢
  cases hnext : getNextValidNode db c.hash c.cur with
  | none =>
    rw [getNextNode_of_none hnext] at heq
    cases heq
    rw [hnext] at hsound
    obtain ⟨hh, hc, hstage⟩ := hproc ⟨c.hash + 1, none⟩
    refine ⟨?_, hev, hplaced _ _ hev fun n hn => (Option.not_mem_none n hn).elim, hstage.ge, ?_, ?_⟩
    · rw [hh]
      exact hsound
    · exact fun n hn => (Option.not_mem_none n hn).elim
    · intro c₁ c₂ hc₁ hc₂ _ n _ hv
      rw [hcursor] at hc₁
      rw [hc] at hc₂
      cases hc₁
      cases hc₂
      refine ⟨?_, fun hnone => absurd hnone (by simp)⟩
      rw [ahead_iff_of_end hs hsound hev hvalid hnext hv]
      exact (or_iff_right (by simp)).symm
  | some m =>
    rw [getNextNode_of_some hnext] at heq
    cases heq
    rw [hnext] at hsound
    obtain ⟨hh, hc, hstage⟩ := hproc ⟨c.hash, some m⟩
    have hm := getNextValidNode_valid hnext
    have hmem : m ∈ db.scanHashTbl c.hash := ListCursor.mem_of_next hnext
    have hlt := hs.tidy.lt_fresh (hs.counted.pos_of_valid hm)
    have hhash : db.hash m = c.hash := ((hs.tidy.linked m c.hash).mp hmem).1.symm
    refine ⟨?_, hev, hplaced _ _ hev ?_, hstage.ge, ?_, ?_⟩
    · rw [hh]
      exact hsound
    · intro n hn
      cases hn
      exact ⟨(hev.hash m hlt).trans hhash, rfl⟩
    · intro n hn
      cases hn
      exact ⟨hm, (hvalid m).trans hm⟩
    · intro c₁ c₂ hc₁ hc₂ _ n _ hv
      rw [hcursor] at hc₁
      rw [hc] at hc₂
      cases hc₁
      cases hc₂
      have hiff := ahead_iff_of_next hs hsound hev hvalid hnext hv
      refine ⟨?_, ?_⟩
      · rw [hiff, Option.some.injEq, eq_comm]
      · rintro hret hahead
        cases hret
        have hself := ListCursor.self_notMem_rest (hsound.tidy.nodup c.hash)
          (hhash ▸ (hev.hash m hlt) ▸ hsound.linked_of_valid hv)
        rcases hahead with hgt | ⟨_, hrest⟩
        · rw [hev.hash m hlt, hhash] at hgt
          exact lt_irrefl _ hgt
        · exact hself hrest

theorem walkStep_stepped (hs : Sound db w (Proc.walk k c ph).holds) (hp : Placed db (.walk k c ph))
    (b : Bool) : Stepped db w (.walk k c ph) (walkStep db k c ph b) := by
  have hnext : ∀ ph', Stepped db w (.walk k c ph) (advance db c (.walk k · ph')) := by
    intro ph'
    apply Stepped.of_advance hs (List.append_nil _).symm rfl
    · exact fun c' => ⟨(List.append_nil _).symm, rfl, rfl⟩
    · exact fun _ _ _ h n hn => (h n hn).1
  obtain ⟨i, cur⟩ := c
  cases cur with
  | none =>
    by_cases hi : i < scanHashSize
    · have heq : walkStep db k ⟨i, none⟩ ph b = advance db ⟨i, none⟩ (.walk k · k.first) := if_pos hi
      rw [heq]
      exact hnext k.first
    · have heq : walkStep db k ⟨i, none⟩ ph b = ⟨db, .done, none⟩ := if_neg hi
      rw [heq]
      exact Stepped.of_leave hs (Evolves.refl db) trivial (Nat.succ_pos 3) rfl
  | some n =>
    have hmem : n ∈ (Proc.walk k ⟨i, some n⟩ ph).holds := List.mem_singleton.mpr rfl
    cases ph with
    | size =>
      have hlinked := hs.linked_of_mem hmem
      rw [hp n rfl] at hlinked
      have hne : (db.scanHashTbl i).length ≠ 0 := (List.length_pos_of_mem hlinked).ne'
      have heq : walkStep db k ⟨i, some n⟩ .size b = ⟨db, .walk k ⟨i, some n⟩ .body, none⟩ :=
        if_neg hne
      rw [heq]
      exact Stepped.of_same hs hp hs (Evolves.refl db) hp rfl rfl rfl
    | body =>
      unfold walkStep
      dsimp only
      split
      · have hev := Evolves.entryDel hs n
        exact Stepped.of_same hs hp (hs.entryDel n) hev
          (hp.evolves (fun m hm => hs.held_lt hm) hev) rfl rfl rfl
      · split
        · exact Stepped.of_leave hs.putRef (Evolves.putRef hs.tidy n) trivial (Nat.succ_pos 3) rfl
        · exact Stepped.of_same hs hp hs (Evolves.refl db) hp rfl rfl rfl
    | next => exact hnext .body

theorem lookupStep_stepped (hs : Sound db w (Proc.lookup addr c).holds)
    (hp : Placed db (.lookup addr c)) (b : Bool) :
    Stepped db w (.lookup addr c) (lookupStep db addr c b) := by
  have hnext : Stepped db w (.lookup addr c) (advance db c (.lookup addr ·)) := by
    apply Stepped.of_advance hs (List.append_nil _).symm rfl
    · exact fun c' => ⟨(List.append_nil _).symm, rfl, rfl⟩
    · exact fun _ _ _ h n hn => (h n hn).1
  obtain ⟨i, cur⟩ := c
  cases cur with
  | none =>
    unfold lookupStep
    dsimp only
    split
    · exact hnext
    · exact Stepped.of_leave hs (Evolves.refl db) trivial (Nat.succ_pos 3) rfl
  | some n =>
    cases b with
    | false => exact hnext
    | true => exact Stepped.of_leave hs.putRef (Evolves.putRef hs.tidy n) trivial (Nat.succ_pos 3) rfl

theorem findStep_stepped (hs : Sound db w (Proc.find e c).holds) (hp : Placed db (.find e c))
    (b : Bool) : Stepped db w (.find e c) (findStep db e c b) := by
  have hnext (hc : c.hash = scanGetHash e.bssid) :
      Stepped db w (.find e c) (advance db c (.find e ·)) := by
    apply Stepped.of_advance hs (List.append_nil _).symm rfl
    · exact fun c' => ⟨(List.append_nil _).symm, rfl, rfl⟩
    · exact fun _ _ _ h n hn =>
        ⟨(h n hn).1, (h n hn).1.symm.trans ((h n hn).1.trans ((h n hn).2.trans hc))⟩
  obtain ⟨i, cur⟩ := c
  cases cur with
  | none =>
    unfold findStep
    dsimp only
    split
    · rename_i hi
      exact hnext hi
    · exact Stepped.of_leave hs (Evolves.refl db)
        (fun n hn => (Option.not_mem_none n hn).elim) Nat.one_pos rfl
  | some n =>
    obtain ⟨hhash, hi⟩ := hp n rfl
    cases b with
    | false => exact hnext hi
    | true =>
      refine Stepped.of_leave hs (Evolves.refl db) ?_ Nat.one_pos rfl
      intro m hm
      cases hm
      exact hhash.trans hi

theorem foundStep_stepped (hs : Sound db w (Proc.found e dup).holds)
    (hp : Placed db (.found e dup)) : Stepped db w (.found e dup) (foundStep db e dup) := by
  unfold foundStep
  split
  · refine Stepped.of_leave hs (Evolves.refl db) ⟨?_, hp, fun _ => rfl⟩ (by decide : 1 < 2) rfl
    exact fun n hn => (Option.not_mem_none n hn).elim
  · exact Stepped.of_leave hs (Evolves.refl db) hp (by decide : 1 < 3) rfl

theorem oldestStep_stepped {ph : OldestPhase} (hs : Sound db w (Proc.oldest e dup old c ph).holds)
    (hp : Placed db (.oldest e dup old c ph)) (b : Bool) :
    Stepped db w (.oldest e dup old c ph) (oldestStep db e dup old c ph b) := by
  have hlt : ∀ n ∈ (Proc.oldest e dup old c ph).holds, n < db.fresh := fun n hn => hs.held_lt hn
  have hnext : Stepped db w (.oldest e dup old c ph)
      (advance db c (.oldest e dup old · .compare)) := by
    apply Stepped.of_advance hs rfl rfl
    · exact fun c' => ⟨rfl, rfl, rfl⟩
    · intro db' c' hev hc
      exact ⟨fun n hn => (hc n hn).1, (hp.evolves hlt hev).2.1, fun heq => by cases heq⟩
  obtain ⟨i, cur⟩ := c
  cases cur with
  | none =>
    by_cases hi : i < scanHashSize
    · have heq : oldestStep db e dup old ⟨i, none⟩ ph b =
          advance db ⟨i, none⟩ (.oldest e dup old · .compare) := if_pos hi
      rw [heq]
      exact hnext
    · cases old with
      | none =>
        have heq : oldestStep db e dup none ⟨i, none⟩ ph b = ⟨db, .add e dup, none⟩ := if_neg hi
        rw [heq]
        exact Stepped.of_leave hs (Evolves.refl db) hp.2.1 (Nat.lt_succ_self 2) rfl
      | some o =>
        have heq : oldestStep db e dup (some o) ⟨i, none⟩ ph b =
            ⟨scanEntryPutRef (scanEntryDel db o) o, .add e dup, none⟩ := if_neg hi
        have hdel := hs.entryDel o
        have hev := (Evolves.entryDel hs o).trans (Evolves.putRef hdel.tidy o) hs.tidy hdel.tidy
          hdel.putRef.tidy
        rw [heq]
        exact Stepped.of_leave hdel.putRef hev (hp.evolves hlt hev).2.1 (Nat.lt_succ_self 2) rfl
  | some n =>
    obtain ⟨hcur, hdup, htake⟩ := hp
    cases ph with
    | compare =>
      cases old with
      | none =>
        exact Stepped.of_same hs ⟨hcur, hdup, htake⟩ hs (Evolves.refl db)
          ⟨hcur, hdup, fun _ => rfl⟩ rfl rfl rfl
      | some o =>
        cases b with
        | false =>
          exact Stepped.of_same hs ⟨hcur, hdup, htake⟩ hs (Evolves.refl db)
            ⟨hcur, hdup, fun heq => by cases heq⟩ rfl rfl rfl
        | true =>
          have hput := (hs.perm (List.Perm.swap n o dup.toList)).putRef
          have hev := Evolves.putRef hs.tidy o
          have hmem : ∀ m ∈ n :: dup.toList, m ∈ n :: o :: dup.toList := fun m hm =>
            (List.sublist_cons_self o dup.toList).cons_cons n |>.subset hm
          have hp' : Placed db (.oldest e dup none ⟨i, some n⟩ .take) :=
            ⟨hcur, hdup, fun _ => rfl⟩
          exact Stepped.of_same hs ⟨hcur, hdup, htake⟩ hput hev
            (hp'.evolves (fun m hm => hlt m (hmem m hm)) hev) rfl rfl rfl
    | take =>
      cases htake rfl
      have hn : n ∈ (Proc.oldest e dup none ⟨i, some n⟩ .take).holds := List.mem_cons_self
      have hpos := hs.counted.pos_of_mem hn
      have hev := Evolves.getRef db hpos
      have hp' : Placed db (.oldest e dup none ⟨i, some n⟩ .next) :=
        ⟨hcur, hdup, fun heq => by cases heq⟩
      obtain ⟨hcur', hdup', _⟩ := hp'.evolves hlt hev
      exact Stepped.of_same hs ⟨hcur, hdup, htake⟩ (hs.getRef hpos) hev
        ⟨hcur', hdup', fun heq => by cases heq⟩ rfl rfl rfl
    | next => exact hnext

theorem addStep_stepped (hs : Sound db w (Proc.add e dup).holds) (hp : Placed db (.add e dup))
    (b : Bool) : Stepped db w (.add e dup) (addStep db e dup b) := by
  have hlinked : ∀ d ∈ dup, d ∈ db.scanHashTbl (scanGetHash e.bssid) := by
    intro d hd
    rw [← hp d hd]
    exact hs.linked_of_mem (Option.mem_toList.mpr hd)
  have hadd := hs.add hlinked
  have hev := Evolves.add hs.tidy hlinked
  cases dup with
  | none =>
    cases b with
    | false => exact Stepped.of_leave hadd hev trivial (Nat.lt_succ_self 3) rfl
    | true => exact Stepped.of_leave hs (Evolves.refl db) trivial (Nat.lt_succ_self 3) rfl
  | some d =>
    cases b with
    | false =>
      have hdel := hadd.entryDel d
      have hev' := (Evolves.entryDel hadd d).trans (Evolves.putRef hdel.tidy d) hadd.tidy
        hdel.tidy hdel.putRef.tidy
      exact Stepped.of_leave hdel.putRef (hev.trans hev' hs.tidy hadd.tidy hdel.putRef.tidy)
        trivial (Nat.lt_succ_self 3) rfl
    | true =>
      exact Stepped.of_leave hs.putRef (Evolves.putRef hs.tidy d) trivial (Nat.lt_succ_self 3) rfl

theorem procStep_stepped (hs : Sound db w p.holds) (hp : Placed db p) (b : Bool) :
    Stepped db w p (procStep db b p) := by
  cases p with
  | walk k c ph => exact walkStep_stepped hs hp b
  | lookup addr c => exact lookupStep_stepped hs hp b
  | find e c => exact findStep_stepped hs hp b
  | found e dup => exact foundStep_stepped hs hp
  | oldest e dup old c ph => exact oldestStep_stepped hs hp b
  | add e dup => exact addStep_stepped hs hp b
  | done => exact Stepped.of_same hs hp hs (Evolves.refl db) hp rfl rfl rfl

end KernelModules.ScanCache
