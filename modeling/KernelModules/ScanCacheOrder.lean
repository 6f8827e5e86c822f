import KernelModules.ScanCacheDb

/-!
# The order of the scan cache

Nodes are added at some place and taken out at another, but two nodes that stay linked stay in
their order. So it is for a caller that stands at one of them always the same nodes that it has
before it.
-/

namespace KernelModules.ScanCache

variable {db db₁ db₂ : ScanDb} {w : ℕ → ℕ} {held held' : List ℕ} {e : ScanEntry}
  {dup cur : Option ℕ} {c : Cursor} {n m i : ℕ}

structure Sound (db : ScanDb) (w : ℕ → ℕ) (held : List ℕ) : Prop where
  tidy : Tidy db
  counted : Counted db w held

theorem Sound.perm (h : Sound db w held) (hperm : held'.Perm held) : Sound db w held' :=
  ⟨h.tidy, h.counted.perm hperm⟩

theorem Sound.getRef (h : Sound db w held) (hpos : 0 < (db.node n).refCnt) :
    Sound (scanEntryGetRef db n) w (n :: held) := ⟨h.tidy.getRef hpos, h.counted.getRef n⟩

theorem Sound.putRef (h : Sound db w (n :: held)) : Sound (scanEntryPutRef db n) w held :=
  ⟨h.tidy.putRef n, h.counted.putRef⟩

theorem Sound.entryDel (h : Sound db w held) (n : ℕ) : Sound (scanEntryDel db n) w held :=
  ⟨h.tidy.entryDel n, h.counted.entryDel n⟩

theorem Sound.add (h : Sound db w held)
    (hdup : ∀ d ∈ dup, d ∈ db.scanHashTbl (scanGetHash e.bssid)) :
    Sound (addScanNode db e dup) w held := ⟨h.tidy.add hdup, h.counted.add h.tidy⟩

theorem Sound.linked_of_valid (h : Sound db w held) (hv : db.valid n = true) :
    n ∈ db.scanHashTbl (db.hash n) := h.tidy.mem (h.counted.pos_of_valid hv)

theorem Sound.linked_of_mem (h : Sound db w held) (hmem : n ∈ held) :
    n ∈ db.scanHashTbl (db.hash n) := h.tidy.mem (h.counted.pos_of_mem hmem)

/-- A node keeps its entry, does not become valid or linked again, and keeps its place among those
that stay linked. -/
structure Evolves (db db' : ScanDb) : Prop where
  fresh : db.fresh ≤ db'.fresh
  hash : ∀ n < db.fresh, db'.hash n = db.hash n
  valid : ∀ n < db.fresh, db'.valid n = true → db.valid n = true
  linked : ∀ n < db.fresh, 0 < (db'.node n).refCnt → 0 < (db.node n).refCnt
  order : ∀ i n m, n ∈ db.scanHashTbl i → n ∈ db'.scanHashTbl i → m ∈ db.scanHashTbl i →
    m ∈ db'.scanHashTbl i →
    (m ∈ ListCursor.rest n (db'.scanHashTbl i) ↔ m ∈ ListCursor.rest n (db.scanHashTbl i))

theorem Evolves.refl (db : ScanDb) : Evolves db db :=
  ⟨le_rfl, fun _ _ => rfl, fun _ _ h => h, fun _ _ h => h, fun _ _ _ _ _ _ _ => Iff.rfl⟩

theorem Evolves.mem (h : Evolves db db₁) (h₁ : Evolves db₁ db₂) (ht : Tidy db) (ht₁ : Tidy db₁)
    (ht₂ : Tidy db₂) (hn : n ∈ db.scanHashTbl i) (hn₂ : n ∈ db₂.scanHashTbl i) :
    n ∈ db₁.scanHashTbl i := by
  obtain ⟨hi, hpos⟩ := (ht.linked n i).mp hn
  obtain ⟨_, hpos₂⟩ := (ht₂.linked n i).mp hn₂
  have hlt := ht.lt_fresh hpos
  apply (ht₁.linked n i).mpr
  refine ⟨?_, h₁.linked n (hlt.trans_le h.fresh) hpos₂⟩
  rw [h.hash n hlt]
  exact hi

theorem Evolves.trans (h : Evolves db db₁) (h₁ : Evolves db₁ db₂) (ht : Tidy db) (ht₁ : Tidy db₁)
    (ht₂ : Tidy db₂) : Evolves db db₂ := by
  refine ⟨h.fresh.trans h₁.fresh, ?_, ?_, ?_, ?_⟩
  · intro n hn
    rw [h₁.hash n (hn.trans_le h.fresh), h.hash n hn]
  · intro n hn hv
    exact h.valid n hn (h₁.valid n (hn.trans_le h.fresh) hv)
  · intro n hn hpos
    exact h.linked n hn (h₁.linked n (hn.trans_le h.fresh) hpos)
  · intro i n m hn hn₂ hm hm₂
    have hn₁ := h.mem h₁ ht ht₁ ht₂ hn hn₂
    have hm₁ := h.mem h₁ ht ht₁ ht₂ hm hm₂
    exact (h₁.order i n m hn₁ hn₂ hm₁ hm₂).trans (h.order i n m hn hn₁ hm hm₁)

theorem Evolves.getRef (db : ScanDb) (hpos : 0 < (db.node n).refCnt) :
    Evolves db (scanEntryGetRef db n) := by
  refine ⟨le_rfl, ?_, ?_, ?_, fun _ _ _ _ _ _ _ => Iff.rfl⟩
  · intro m _
    exact getRef_hash db n m
  · intro m _ hv
    rwa [getRef_valid] at hv
  · intro m _ hm
    rw [getRef_refCnt] at hm
    split at hm
    · rename_i heq
      rwa [heq]
    · exact hm

theorem Evolves.setCookie (db : ScanDb) (n : ℕ) : Evolves db (db.setCookie n 0) := by
  refine ⟨le_rfl, ?_, ?_, ?_, fun _ _ _ _ _ _ _ => Iff.rfl⟩
  · intro m _
    exact setCookie_hash ..
  · intro m _ hv
    rw [setCookie_valid, Bool.and_eq_true] at hv
    exact hv.1
  · intro m _ hm
    rwa [setCookie_refCnt] at hm

theorem putRef_sublist (h : Tidy db) (n i : ℕ) :
    ((scanEntryPutRef db n).scanHashTbl i).Sublist (db.scanHashTbl i) := by
  unfold scanEntryPutRef
  split
  · exact List.Sublist.refl _
  · split
    · rename_i hpos hone
      rw [hone, delScanNodeFromDb_eq h (by omega)]
      change (Function.update db.scanHashTbl (db.hash n) _ i).Sublist (db.scanHashTbl i)
      rw [Function.update_apply]
      split
      · rename_i heq
        rw [heq]
        exact List.erase_sublist
      · exact List.Sublist.refl _
    · exact List.Sublist.refl _

theorem Evolves.putRef (h : Tidy db) (n : ℕ) : Evolves db (scanEntryPutRef db n) := by
  refine ⟨(putRef_fresh db n).ge, ?_, ?_, ?_, ?_⟩
  · intro m _
    exact putRef_hash db n m
  · intro m _ hv
    rwa [putRef_valid] at hv
  · intro m _ hm
    rw [putRef_refCnt] at hm
    split at hm
    · rename_i heq
      rw [heq]
      omega
    · exact hm
  · intro i n' m _ hn _ hm
    exact (ListCursor.mem_rest_iff_of_sublist (putRef_sublist h n i) (h.nodup i) hn hm).symm

theorem Evolves.entryDel (h : Sound db w held) (n : ℕ) : Evolves db (scanEntryDel db n) := by
  cases hv : db.valid n with
  | false =>
    rw [entryDel_of_not_valid hv]
    exact Evolves.refl db
  | true =>
    have hc := h.tidy.setCookie n 0
    rw [entryDel_of_valid hv (h.counted.pos_of_valid hv)]
    exact (Evolves.setCookie db n).trans (Evolves.putRef hc n) h.tidy hc (hc.putRef n)

theorem Evolves.add (h : Tidy db) (hdup : ∀ d ∈ dup, d ∈ db.scanHashTbl (scanGetHash e.bssid)) :
    Evolves db (addScanNode db e dup) := by
  have hfresh : (addScanNode db e dup).fresh = db.fresh + 1 := by rw [addScanNode_eq]
  refine ⟨by omega, ?_, ?_, ?_, ?_⟩
  · intro m hm
    rw [addScanNode_hash, if_neg (by omega)]
  · intro m hm hv
    rwa [addScanNode_valid, if_neg (by omega)] at hv
  · intro m hm hpos
    rwa [addScanNode_refCnt, if_neg (by omega)] at hpos
  · intro i n m hn _ hm _
    have hsub : (db.scanHashTbl i).Sublist ((addScanNode db e dup).scanHashTbl i) := by
      rw [addScanNode_eq]
      change (db.scanHashTbl i).Sublist (Function.update db.scanHashTbl _ _ i)
      rw [Function.update_apply]
      split
      · rename_i heq
        rw [heq]
        exact sublist_inserted ..
      · exact List.Sublist.refl _
    exact ListCursor.mem_rest_iff_of_sublist hsub ((h.add hdup).nodup i) hn hm

theorem getNextValidNode_valid (h : getNextValidNode db i cur = some n) : db.valid n = true :=
  ListCursor.next_satisfies h

def putCur (db : ScanDb) : Option ℕ → ScanDb
  | none => db
  | some c => scanEntryPutRef db c

theorem getNextNode_of_none (h : getNextValidNode db i cur = none) :
    getNextNode db i cur = (putCur db cur, none) := by
  unfold getNextNode
  rw [h]
  cases cur <;> rfl

theorem getNextNode_of_some (h : getNextValidNode db i cur = some n) :
    getNextNode db i cur = (scanEntryGetRef (putCur db cur) n, some n) := by
  unfold getNextNode
  rw [h]
  cases cur <;> rfl

theorem Sound.putCur (h : Sound db w (cur.toList ++ held)) : Sound (putCur db cur) w held ∧
    Evolves db (putCur db cur) ∧ ∀ n, (putCur db cur).valid n = db.valid n := by
  cases cur with
  | none => exact ⟨h, Evolves.refl db, fun _ => rfl⟩
  | some c => exact ⟨h.putRef, Evolves.putRef h.tidy c, putRef_valid db c⟩

theorem Sound.getNextNode (h : Sound db w (cur.toList ++ held)) (i : ℕ) :
    Sound (getNextNode db i cur).1 w ((getNextValidNode db i cur).toList ++ held) ∧
      Evolves db (getNextNode db i cur).1 ∧ ∀ n, (getNextNode db i cur).1.valid n = db.valid n := by
  obtain ⟨hs, hev, hvalid⟩ := h.putCur
  cases hnext : getNextValidNode db i cur with
  | none =>
    rw [getNextNode_of_none hnext]
    exact ⟨hs, hev, hvalid⟩
  | some n =>
    rw [getNextNode_of_some hnext]
    have hv : (ScanCache.putCur db cur).valid n = true := by
      rw [hvalid]
      exact getNextValidNode_valid hnext
    have hpos := hs.counted.pos_of_valid hv
    have hget := hs.getRef hpos
    refine ⟨hget, hev.trans (Evolves.getRef _ hpos) h.tidy hs.tidy hget.tidy, ?_⟩
    intro m
    exact (getRef_valid _ n m).trans (hvalid m)

def Ahead (db : ScanDb) (c : Cursor) (n : ℕ) : Prop :=
  c.hash < db.hash n ∨ c.hash = db.hash n ∧ n ∈ ListCursor.ahead (db.scanHashTbl c.hash) c.cur

theorem ahead_start (h : n ∈ db.scanHashTbl (db.hash n)) (i : ℕ) :
    Ahead db ⟨i, none⟩ n ↔ i ≤ db.hash n := by
  unfold Ahead
  rw [ListCursor.ahead_none]
  constructor
  · rintro (hlt | ⟨heq, _⟩)
    · exact hlt.le
    · exact heq.le
  · intro hle
    rcases hle.lt_or_eq with hlt | rfl
    · exact .inl hlt
    · exact .inr ⟨rfl, h⟩

theorem Evolves.ahead_iff (h : Evolves db db₁) (ht : Tidy db) (ht₁ : Tidy db₁)
    (hn : 0 < (db₁.node n).refCnt) (hlt : n < db.fresh)
    (hcur : ∀ m ∈ c.cur, m ∈ db.scanHashTbl c.hash ∧ m ∈ db₁.scanHashTbl c.hash) :
    Ahead db₁ c n ↔ Ahead db c n := by
  have hn₁ := ht₁.mem hn
  have hn₀ := ht.mem (h.linked n hlt hn)
  have hhash := h.hash n hlt
  unfold Ahead
  rw [hhash] at hn₁ ⊢
  apply or_congr_right
  apply and_congr_right
  intro heq
  rw [← heq] at hn₁ hn₀
  cases hc : c.cur with
  | none => exact iff_of_true hn₁ hn₀
  | some m =>
    obtain ⟨hm₀, hm₁⟩ := hcur m hc
    exact h.order c.hash m n hm₀ hm₁ hn₀ hn₁

theorem ahead_iff_of_next (h : Sound db w held) (h₁ : Sound db₁ w held') (hev : Evolves db db₁)
    (hvalid : ∀ n, db₁.valid n = db.valid n) (hnext : getNextValidNode db c.hash c.cur = some m)
    (hn : db₁.valid n = true) :
    Ahead db c n ↔ n = m ∨ Ahead db₁ ⟨c.hash, some m⟩ n := by
  have hm := getNextValidNode_valid hnext
  have hn₀ : db.valid n = true := (hvalid n).symm.trans hn
  have hm₀ : m ∈ db.scanHashTbl c.hash := ListCursor.mem_of_next hnext
  obtain ⟨hmhash, _⟩ := (h.tidy.linked m c.hash).mp hm₀
  have hlt := h.tidy.lt_fresh (h.counted.pos_of_valid hn₀)
  have hltm := h.tidy.lt_fresh (h.counted.pos_of_valid hm)
  have hl₀ := h.linked_of_valid hn₀
  have hl₁ := h₁.linked_of_valid hn
  have hm₁ := h₁.linked_of_valid ((hvalid m).trans hm)
  rw [hev.hash m hltm, ← hmhash] at hm₁
  rw [hev.hash n hlt] at hl₁
  have hahead := ListCursor.mem_ahead_iff_of_next (h.tidy.nodup c.hash) hnext hn₀
  unfold Ahead
  rw [hev.hash n hlt]
  rcases Nat.lt_trichotomy c.hash (db.hash n) with hgt | heq | hle
  · exact iff_of_true (.inl hgt) (.inr (.inl hgt))
  · rw [← heq] at hl₀ hl₁
    have horder := hev.order c.hash m n hm₀ hm₁ hl₀ hl₁
    rw [← heq, ListCursor.ahead_some]
    simp only [lt_irrefl, false_or, true_and]
    rw [hahead, horder]
  · have hne : n ≠ m := by
      rintro rfl
      omega
    apply iff_of_false
    · omega
    · rintro (heq | hgt | ⟨heq, _⟩)
      · exact hne heq
      · exact absurd hgt (by simp only; omega)
      · exact absurd heq (by simp only; omega)

theorem ahead_iff_of_end (h : Sound db w held) (h₁ : Sound db₁ w held') (hev : Evolves db db₁)
    (hvalid : ∀ n, db₁.valid n = db.valid n) (hnext : getNextValidNode db c.hash c.cur = none)
    (hn : db₁.valid n = true) : Ahead db c n ↔ Ahead db₁ ⟨c.hash + 1, none⟩ n := by
  have hn₀ : db.valid n = true := (hvalid n).symm.trans hn
  have hlt := h.tidy.lt_fresh (h.counted.pos_of_valid hn₀)
  rw [ahead_start (h₁.linked_of_valid hn), hev.hash n hlt]
  have hnot := ListCursor.next_eq_none hnext hn₀
  unfold Ahead
  constructor
  · rintro (hgt | ⟨_, hmem⟩)
    · exact hgt
    · exact absurd hmem hnot
  · exact .inl

end KernelModules.ScanCache
