import KernelModules.Ledger
import KernelModules.ScanCache

/-!
# The references of the scan cache

What each operation under the lock does to the nodes, to the lists and to the count of the
entries, for any number of references that others hold.
-/

namespace KernelModules.ScanCache

open Function

variable {db : ScanDb} {w : ℕ → ℕ} {held held' : List ℕ} {e : ScanEntry} {dup : Option ℕ}
  {n m i : ℕ}

@[simp] theorem setRefCnt_node (db : ScanDb) (n r m : ℕ) :
    ((db.setRefCnt n r).node m) = if m = n then { db.node n with refCnt := r } else db.node m := by
  unfold ScanDb.setRefCnt
  exact update_apply ..

@[simp] theorem setRefCnt_hash (db : ScanDb) (n r m : ℕ) :
    (db.setRefCnt n r).hash m = db.hash m := by
  unfold ScanDb.hash
  rw [setRefCnt_node]
  split <;> simp_all

@[simp] theorem setRefCnt_valid (db : ScanDb) (n r m : ℕ) :
    (db.setRefCnt n r).valid m = db.valid m := by
  unfold ScanDb.valid
  rw [setRefCnt_node]
  split <;> simp_all

theorem delScanNode_node (db : ScanDb) (i n : ℕ) : (delScanNode db i n).node = db.node := by
  unfold delScanNode
  split <;> rfl

theorem delScanNode_fresh (db : ScanDb) (i n : ℕ) : (delScanNode db i n).fresh = db.fresh := by
  unfold delScanNode
  split <;> rfl

theorem putRef_node (db : ScanDb) (n m : ℕ) : (scanEntryPutRef db n).node m =
    if m = n then { db.node n with refCnt := (db.node n).refCnt - 1 } else db.node m := by
  unfold scanEntryPutRef
  split
  · rename_i hzero
    split
    · rename_i heq
      rw [heq, hzero, Nat.zero_sub, ← hzero]
    · rfl
  · split
    · unfold delScanNodeFromDb
      rw [delScanNode_node, setRefCnt_node]
    · rw [setRefCnt_node]

theorem putRef_refCnt (db : ScanDb) (n m : ℕ) : ((scanEntryPutRef db n).node m).refCnt =
    if m = n then (db.node n).refCnt - 1 else (db.node m).refCnt := by
  rw [putRef_node]
  split <;> rfl

@[simp] theorem putRef_entry (db : ScanDb) (n m : ℕ) :
    ((scanEntryPutRef db n).node m).entry = (db.node m).entry := by
  rw [putRef_node]
  split <;> simp_all

@[simp] theorem putRef_hash (db : ScanDb) (n m : ℕ) :
    (scanEntryPutRef db n).hash m = db.hash m := by
  unfold ScanDb.hash
  rw [putRef_entry]

@[simp] theorem putRef_valid (db : ScanDb) (n m : ℕ) :
    (scanEntryPutRef db n).valid m = db.valid m := by
  unfold ScanDb.valid
  rw [putRef_node]
  split <;> simp_all

@[simp] theorem putRef_fresh (db : ScanDb) (n : ℕ) : (scanEntryPutRef db n).fresh = db.fresh := by
  unfold scanEntryPutRef
  split
  · rfl
  · split
    · exact delScanNode_fresh ..
    · rfl

theorem getRef_refCnt (db : ScanDb) (n m : ℕ) : ((scanEntryGetRef db n).node m).refCnt =
    if m = n then (db.node n).refCnt + 1 else (db.node m).refCnt := by
  unfold scanEntryGetRef
  rw [setRefCnt_node]
  split <;> rfl

@[simp] theorem getRef_hash (db : ScanDb) (n m : ℕ) :
    (scanEntryGetRef db n).hash m = db.hash m := setRefCnt_hash ..

@[simp] theorem getRef_valid (db : ScanDb) (n m : ℕ) :
    (scanEntryGetRef db n).valid m = db.valid m := setRefCnt_valid ..

@[simp] theorem setCookie_node (db : ScanDb) (n m : ℕ) (k : UInt32) :
    ((db.setCookie n k).node m) = if m = n then { db.node n with cookie := k } else db.node m := by
  unfold ScanDb.setCookie
  exact update_apply ..

@[simp] theorem setCookie_refCnt (db : ScanDb) (n m : ℕ) (k : UInt32) :
    ((db.setCookie n k).node m).refCnt = (db.node m).refCnt := by
  rw [setCookie_node]
  split <;> simp_all

@[simp] theorem setCookie_hash (db : ScanDb) (n m : ℕ) (k : UInt32) :
    (db.setCookie n k).hash m = db.hash m := by
  unfold ScanDb.hash
  rw [setCookie_node]
  split <;> simp_all

theorem setCookie_valid (db : ScanDb) (n m : ℕ) :
    (db.setCookie n 0).valid m = (db.valid m && m != n) := by
  unfold ScanDb.valid
  rw [setCookie_node]
  split
  · rename_i heq
    subst heq
    simp [scanNodeActiveCookie]
  · simp_all

theorem entryDel_of_not_valid (h : db.valid n = false) : scanEntryDel db n = db := by
  unfold scanEntryDel
  have hne : (db.node n).cookie ≠ scanNodeActiveCookie := by
    unfold ScanDb.valid at h
    simpa using h
  rw [if_pos hne]

theorem entryDel_of_valid (h : db.valid n = true) (hpos : 0 < (db.node n).refCnt) :
    scanEntryDel db n = scanEntryPutRef (db.setCookie n 0) n := by
  unfold scanEntryDel
  have heq : (db.node n).cookie = scanNodeActiveCookie := by
    unfold ScanDb.valid at h
    simpa using h
  have hne : (db.node n).refCnt ≠ 0 := by omega
  rw [if_neg (not_not.mpr heq), if_neg hne]

/-- A node is on the list of its hash as long as it has a reference; the entries are counted; a
node is freed once, when its last reference is gone. -/
structure Tidy (db : ScanDb) : Prop where
  linked : ∀ n i, n ∈ db.scanHashTbl i ↔ i = db.hash n ∧ 0 < (db.node n).refCnt
  nodup : ∀ i, (db.scanHashTbl i).Nodup
  entries : db.numEntries =
    Ledger.total (fun i => (db.scanHashTbl i).length) (List.range scanHashSize)
  once : db.freed.Nodup
  freed : ∀ n, n ∈ db.freed ↔ n < db.fresh ∧ (db.node n).refCnt = 0
  unborn : ∀ n, db.fresh ≤ n → (db.node n).refCnt = 0

theorem hash_lt (db : ScanDb) (n : ℕ) : db.hash n < scanHashSize :=
  Nat.mod_lt _ (by decide)

theorem Tidy.mem (h : Tidy db) (hpos : 0 < (db.node n).refCnt) :
    n ∈ db.scanHashTbl (db.hash n) := (h.linked n _).mpr ⟨rfl, hpos⟩

theorem Tidy.lt_fresh (h : Tidy db) (hpos : 0 < (db.node n).refCnt) : n < db.fresh := by
  by_contra hle
  have := h.unborn n (Nat.le_of_not_lt hle)
  omega

theorem total_setList (tbl : ℕ → List ℕ) (l : List ℕ) (hi : i < scanHashSize) :
    Ledger.total (fun j => (update tbl i l j).length) (List.range scanHashSize)
        + (tbl i).length =
      Ledger.total (fun j => (tbl j).length) (List.range scanHashSize) + l.length := by
  have htotal := Ledger.total_of_ne (f := fun j => (tbl j).length)
    (g := fun j => (update tbl i l j).length) List.nodup_range (List.mem_range.mpr hi)
    fun j _ hne => by rw [update_of_ne hne]
  rw [update_self] at htotal
  exact htotal

theorem Tidy.congr (h : Tidy db) (db' : ScanDb) (htbl : db'.scanHashTbl = db.scanHashTbl)
    (hentries : db'.numEntries = db.numEntries) (hfresh : db'.fresh = db.fresh)
    (hfreed : db'.freed = db.freed) (hhash : ∀ n, db'.hash n = db.hash n)
    (href : ∀ n, 0 < (db'.node n).refCnt ↔ 0 < (db.node n).refCnt) : Tidy db' := by
  have hzero : ∀ n, (db'.node n).refCnt = 0 ↔ (db.node n).refCnt = 0 := by
    intro n
    have := href n
    omega
  refine ⟨?_, ?_, ?_, ?_, ?_, ?_⟩
  · intro n i
    rw [htbl, hhash, href]
    exact h.linked n i
  · rw [htbl]
    exact h.nodup
  · rw [htbl, hentries]
    exact h.entries
  · rw [hfreed]
    exact h.once
  · intro n
    rw [hfreed, hfresh, hzero]
    exact h.freed n
  · intro n hle
    rw [hfresh] at hle
    exact (hzero n).mpr (h.unborn n hle)

theorem Tidy.setRefCnt (h : Tidy db) {r : ℕ} (hpos : 0 < (db.node n).refCnt) (hr : 0 < r) :
    Tidy (db.setRefCnt n r) := by
  apply h.congr (db.setRefCnt n r) rfl rfl rfl rfl (setRefCnt_hash db n r)
  intro m
  rw [setRefCnt_node]
  split
  · rename_i heq
    subst heq
    exact iff_of_true hr hpos
  · rfl

theorem Tidy.getRef (h : Tidy db) (hpos : 0 < (db.node n).refCnt) :
    Tidy (scanEntryGetRef db n) := h.setRefCnt hpos (Nat.succ_pos _)

theorem Tidy.setCookie (h : Tidy db) (n : ℕ) (k : UInt32) : Tidy (db.setCookie n k) := by
  apply h.congr (db.setCookie n k) rfl rfl rfl rfl
  · intro m
    exact setCookie_hash ..
  · intro m
    rw [setCookie_refCnt]

theorem delScanNodeFromDb_eq (h : Tidy db) (hone : (db.node n).refCnt = 1) :
    delScanNodeFromDb (db.setRefCnt n 0) n =
      { db.setRefCnt n 0 with
        scanHashTbl := update db.scanHashTbl (db.hash n)
          ((db.scanHashTbl (db.hash n)).erase n)
        freed := n :: db.freed
        numEntries := db.numEntries - 1 } := by
  have hmem : n ∈ db.scanHashTbl (db.hash n) := h.mem (by omega)
  have hne : (db.setRefCnt n 0).scanHashTbl (db.hash n) ≠ [] := List.ne_nil_of_mem hmem
  unfold delScanNodeFromDb delScanNode
  rw [setRefCnt_hash, if_neg hne]
  rfl

theorem Tidy.del (h : Tidy db) (hone : (db.node n).refCnt = 1) :
    Tidy (delScanNodeFromDb (db.setRefCnt n 0) n) := by
  rw [delScanNodeFromDb_eq h hone]
  have hmem : n ∈ db.scanHashTbl (db.hash n) := h.mem (by omega)
  have hlt : n < db.fresh := h.lt_fresh (by omega)
  have hnode : ∀ m, ((db.setRefCnt n 0).node m).refCnt = 0 ↔ m = n ∨ (db.node m).refCnt = 0 := by
    intro m
    rw [setRefCnt_node]
    split
    · rename_i heq
      exact iff_of_true rfl (.inl heq)
    · rename_i hne
      exact (or_iff_right hne).symm
  refine ⟨?_, ?_, ?_, ?_, ?_, ?_⟩
  · intro m i
    change m ∈ update db.scanHashTbl (db.hash n) _ i ↔
      i = (db.setRefCnt n 0).hash m ∧ 0 < ((db.setRefCnt n 0).node m).refCnt
    have hpos := hnode m
    have hlinked := h.linked m i
    rw [setRefCnt_hash, update_apply]
    split
    · rename_i heq
      rw [List.Nodup.mem_erase_iff (h.nodup _), ← heq, hlinked]
      omega
    · rename_i hne
      rw [hlinked]
      rcases eq_or_ne m n with rfl | hm
      · exact iff_of_false (fun hand => hne hand.1) fun hand => hne hand.1
      · omega
  · intro i
    change (update db.scanHashTbl (db.hash n) _ i).Nodup
    rw [update_apply]
    split
    · exact (h.nodup _).erase n
    · exact h.nodup i
  · change db.numEntries - 1 = Ledger.total (fun j => (update db.scanHashTbl (db.hash n)
      ((db.scanHashTbl (db.hash n)).erase n) j).length) (List.range scanHashSize)
    have htotal := total_setList db.scanHashTbl ((db.scanHashTbl (db.hash n)).erase n) (hash_lt db n)
    have hlen := List.length_erase_of_mem hmem
    have hpos := List.length_pos_of_mem hmem
    have hentries := h.entries
    omega
  · change (n :: db.freed).Nodup
    apply List.nodup_cons.mpr
    refine ⟨?_, h.once⟩
    intro hf
    have := ((h.freed n).mp hf).2
    omega
  · intro m
    change m ∈ n :: db.freed ↔ m < db.fresh ∧ ((db.setRefCnt n 0).node m).refCnt = 0
    rw [List.mem_cons, hnode, h.freed]
    constructor
    · rintro (rfl | ⟨hm, hzero⟩)
      · exact ⟨hlt, .inl rfl⟩
      · exact ⟨hm, .inr hzero⟩
    · rintro ⟨hm, rfl | hzero⟩
      · exact .inl rfl
      · exact .inr ⟨hm, hzero⟩
  · intro m hle
    exact (hnode m).mpr (.inr (h.unborn m hle))

theorem Tidy.putRef (h : Tidy db) (n : ℕ) : Tidy (scanEntryPutRef db n) := by
  unfold scanEntryPutRef
  split
  · exact h
  · split
    · rename_i hpos hone
      rw [hone]
      exact h.del (by omega)
    · rename_i hpos hone
      exact h.setRefCnt (by omega) (by omega)

theorem Tidy.entryDel (h : Tidy db) (n : ℕ) : Tidy (scanEntryDel db n) := by
  unfold scanEntryDel
  split
  · exact h
  · split
    · exact h
    · exact (h.setCookie n 0).putRef n

def inserted (l : List ℕ) (n : ℕ) : Option ℕ → List ℕ
  | none => l ++ [n]
  | some d => ListCursor.insertBefore d n l

theorem inserted_perm {l : List ℕ} (h : ∀ d ∈ dup, d ∈ l) (n : ℕ) :
    (inserted l n dup).Perm (n :: l) := by
  cases dup with
  | none => exact List.perm_append_singleton n l
  | some d => exact ListCursor.insertBefore_perm (h d rfl) n

theorem sublist_inserted (l : List ℕ) (n : ℕ) (dup : Option ℕ) : l.Sublist (inserted l n dup) := by
  cases dup with
  | none => exact List.sublist_append_left l [n]
  | some d => exact ListCursor.sublist_insertBefore d n l

theorem addScanNode_eq (db : ScanDb) (e : ScanEntry) (dup : Option ℕ) : addScanNode db e dup =
    { numEntries := db.numEntries + 1
      scanHashTbl := update db.scanHashTbl (scanGetHash e.bssid)
        (inserted (db.scanHashTbl (scanGetHash e.bssid)) db.fresh dup)
      node := update db.node db.fresh ⟨e, 1, scanNodeActiveCookie⟩
      fresh := db.fresh + 1
      freed := db.freed } := by
  unfold addScanNode scanEntryGetRef ScanDb.setRefCnt
  simp only [update_self, update_idem]
  cases dup <;> rfl

theorem addScanNode_node (db : ScanDb) (e : ScanEntry) (dup : Option ℕ) (m : ℕ) :
    (addScanNode db e dup).node m =
      if m = db.fresh then ⟨e, 1, scanNodeActiveCookie⟩ else db.node m := by
  rw [addScanNode_eq]
  exact update_apply ..

theorem addScanNode_hash (db : ScanDb) (e : ScanEntry) (dup : Option ℕ) (m : ℕ) :
    (addScanNode db e dup).hash m = if m = db.fresh then scanGetHash e.bssid else db.hash m := by
  unfold ScanDb.hash
  rw [addScanNode_node]
  split <;> rfl

theorem addScanNode_valid (db : ScanDb) (e : ScanEntry) (dup : Option ℕ) (m : ℕ) :
    (addScanNode db e dup).valid m = if m = db.fresh then true else db.valid m := by
  unfold ScanDb.valid
  rw [addScanNode_node]
  split
  · exact beq_self_eq_true _
  · rfl

theorem addScanNode_refCnt (db : ScanDb) (e : ScanEntry) (dup : Option ℕ) (m : ℕ) :
    ((addScanNode db e dup).node m).refCnt = if m = db.fresh then 1 else (db.node m).refCnt := by
  rw [addScanNode_node]
  split <;> rfl

theorem Tidy.add (h : Tidy db) (hdup : ∀ d ∈ dup, d ∈ db.scanHashTbl (scanGetHash e.bssid)) :
    Tidy (addScanNode db e dup) := by
  obtain ⟨i, hi⟩ : ∃ i, i = scanGetHash e.bssid := ⟨_, rfl⟩
  have hperm := inserted_perm hdup db.fresh
  have hnew : ∀ j, db.fresh ∉ db.scanHashTbl j := by
    intro j hmem
    have := h.unborn db.fresh le_rfl
    have := ((h.linked db.fresh j).mp hmem).2
    omega
  have htbl : (addScanNode db e dup).scanHashTbl =
      update db.scanHashTbl i (inserted (db.scanHashTbl i) db.fresh dup) := by
    rw [addScanNode_eq, hi]
  have hfresh : (addScanNode db e dup).fresh = db.fresh + 1 := by rw [addScanNode_eq]
  have hfreed : (addScanNode db e dup).freed = db.freed := by rw [addScanNode_eq]
  rw [← hi] at hperm
  refine ⟨?_, ?_, ?_, ?_, ?_, ?_⟩
  · intro m j
    rw [htbl, update_apply, addScanNode_hash, addScanNode_refCnt, ← hi]
    have hlinked := h.linked m j
    split
    · rename_i hj
      rw [hperm.mem_iff, List.mem_cons, ← hj, hlinked]
      split
      · rename_i hm
        exact iff_of_true (.inl hm) ⟨rfl, Nat.one_pos⟩
      · rename_i hm
        exact or_iff_right hm
    · rename_i hj
      split
      · rename_i hm
        rw [hm]
        exact iff_of_false (hnew j) fun hand => hj hand.1
      · exact hlinked
  · intro j
    rw [htbl, update_apply]
    split
    · exact hperm.nodup_iff.mpr (List.nodup_cons.mpr ⟨hnew i, h.nodup i⟩)
    · exact h.nodup j
  · have hlt : i < scanHashSize := by
      rw [hi]
      exact Nat.mod_lt _ (by decide)
    have htotal := total_setList db.scanHashTbl (inserted (db.scanHashTbl i) db.fresh dup) hlt
    have hlen : (inserted (db.scanHashTbl i) db.fresh dup).length =
        (db.scanHashTbl i).length + 1 := hperm.length_eq
    have hentries := h.entries
    have hnum : (addScanNode db e dup).numEntries = db.numEntries + 1 := by rw [addScanNode_eq]
    rw [htbl, hnum]
    omega
  · rw [hfreed]
    exact h.once
  · intro m
    rw [hfreed, hfresh, h.freed, addScanNode_refCnt]
    have := h.unborn m
    split
    · omega
    · omega
  · intro m hle
    rw [hfresh] at hle
    rw [addScanNode_refCnt, if_neg (by omega)]
    exact h.unborn m (by omega)

/-- One reference for the cookie, and those of the holders: `w` of others, and `held`. -/
def Counted (db : ScanDb) (w : ℕ → ℕ) (held : List ℕ) : Prop :=
  ∀ n, (db.node n).refCnt = (if db.valid n then 1 else 0) + w n + held.count n

theorem Counted.perm (h : Counted db w held) (hperm : held'.Perm held) : Counted db w held' := by
  intro n
  rw [hperm.count_eq]
  exact h n

theorem Counted.pos_of_mem (h : Counted db w held) (hmem : n ∈ held) : 0 < (db.node n).refCnt := by
  have hn := h n
  have := List.count_pos_iff.mpr hmem
  omega

theorem Counted.pos_of_valid (h : Counted db w held) (hv : db.valid n = true) :
    0 < (db.node n).refCnt := by
  have hn := h n
  rw [if_pos hv] at hn
  omega

theorem count_cons_of_ne (h : m ≠ n) : (n :: held).count m = held.count m :=
  List.count_cons_of_ne (Ne.symm h)

theorem Counted.getRef (h : Counted db w held) (n : ℕ) :
    Counted (scanEntryGetRef db n) w (n :: held) := by
  intro m
  have hm := h m
  rw [getRef_refCnt, getRef_valid]
  split
  · rename_i heq
    subst heq
    rw [List.count_cons_self]
    omega
  · rename_i hne
    rw [count_cons_of_ne hne]
    exact hm

theorem Counted.putRef (h : Counted db w (n :: held)) : Counted (scanEntryPutRef db n) w held := by
  intro m
  have hm := h m
  rw [putRef_refCnt, putRef_valid]
  split
  · rename_i heq
    subst heq
    rw [List.count_cons_self] at hm
    omega
  · rename_i hne
    rw [count_cons_of_ne hne] at hm
    exact hm

theorem Counted.setCookie (h : Counted db w held) (hv : db.valid n = true) :
    Counted (db.setCookie n 0) w (n :: held) := by
  intro m
  have hm := h m
  rw [setCookie_refCnt, setCookie_valid]
  rcases eq_or_ne m n with rfl | hne
  · rw [if_pos hv] at hm
    rw [List.count_cons_self, bne_self_eq_false, Bool.and_false, if_neg Bool.false_ne_true]
    omega
  · rw [count_cons_of_ne hne, bne_iff_ne.mpr hne, Bool.and_true]
    exact hm

theorem Counted.entryDel (h : Counted db w held) (n : ℕ) : Counted (scanEntryDel db n) w held := by
  cases hv : db.valid n with
  | false =>
    rw [entryDel_of_not_valid hv]
    exact h
  | true =>
    rw [entryDel_of_valid hv (h.pos_of_valid hv)]
    exact (h.setCookie hv).putRef

theorem Counted.add (h : Counted db w held) (ht : Tidy db) :
    Counted (addScanNode db e dup) w held := by
  intro m
  have hm := h m
  rw [addScanNode_refCnt, addScanNode_valid]
  split
  · rename_i heq
    have := ht.unborn m heq.ge
    rw [if_pos rfl]
    omega
  · exact hm

end KernelModules.ScanCache
