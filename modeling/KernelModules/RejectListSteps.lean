import KernelModules.RejectListRemoval

/-!
# What the calls keep

No call leaves two entries of one BSSID or more entries than there is room for. A new entry is put
in behind a complete walk over the list: no entry of its BSSID was met, and every entry left has a
flag, hence a BSSID that is not zero.
-/

namespace KernelModules.RejectList

section Modify

variable {cfg : BlmConfig} {ap : RejectApInfo} {clk : ℕ → Time} {n : ℕ} {e : RejectAp}

variable (ap e) in
theorem markAvoided_stamp (t : Time) (type : RejectApType) :
    (markAvoided ap t e).stamp type = e.stamp type ∨ (markAvoided ap t e).stamp type = t := by
  unfold markAvoided
  split
  · cases type <;> simp [RejectAp.stamp]
  · cases type <;> simp [RejectAp.stamp]
  · exact .inl rfl

theorem clearAvoided_bssid : (clearAvoided ap e).bssid = e.bssid := by
  unfold clearAvoided
  split <;> rfl

variable (cfg ap clk n e) in
theorem blmModifyEntry_tick : n ≤ (blmModifyEntry cfg ap clk n e).2 := by
  unfold blmModifyEntry blmHandleAvoidList blmHandleBlacklist blmHandleRssiRejectList
  split <;> dsimp only
  · split_ifs <;> exact Nat.le_add_right _ _
  · split_ifs <;> exact Nat.le_add_right _ _
  · exact Nat.le_add_right _ _
  · exact Nat.le_add_right _ _
  · exact le_refl n
  · exact le_refl n

variable (cfg ap clk n e) in
theorem blmModifyEntry_stamp (type : RejectApType) :
    (blmModifyEntry cfg ap clk n e).1.stamp type = e.stamp type ∨
      (blmModifyEntry cfg ap clk n e).1.stamp type = clk n := by
  have hmark := markAvoided_stamp ap e (clk n) type
  have havoid : (blmHandleAvoidList cfg ap clk n e).1.stamp type = e.stamp type ∨
      (blmHandleAvoidList cfg ap clk n e).1.stamp type = clk n := by
    unfold blmHandleAvoidList
    dsimp only
    split_ifs
    · cases type with
      | driverBlacklist => exact .inr rfl
      | _ => exact hmark
    · exact hmark
  unfold blmModifyEntry
  split
  · exact havoid
  · exact havoid
  · cases type <;> simp [blmHandleBlacklist, RejectAp.stamp]
  · unfold blmHandleRssiRejectList
    split_ifs <;> cases type <;> simp [RejectAp.stamp]
  · exact .inl rfl
  · exact .inl rfl

theorem blmModifyEntry_fresh {now : Time} (hn : (clk n).toNat ≤ now.toNat) (h : Fresh now e) :
    Fresh now (blmModifyEntry cfg ap clk n e).1 := by
  intro type
  rcases blmModifyEntry_stamp cfg ap clk n e type with
    hs | hs
  · rw [hs]
    exact h type
  · rw [hs]
    exact hn

variable (cfg clk n) in
/-- The entry is given the BSSID, unless the type is none that can be added. -/
theorem blmModifyEntry_bssid (h : e.rssiRejectList → e.bssid = ap.bssid) :
    (blmModifyEntry cfg ap clk n e).1.bssid = ap.bssid ∨ (blmModifyEntry cfg ap clk n e).1 = e := by
  have havoid : (blmHandleAvoidList cfg ap clk n e).1.bssid = ap.bssid := by
    unfold blmHandleAvoidList
    dsimp only
    split_ifs
    · exact clearAvoided_bssid
    · rfl
  unfold blmModifyEntry
  split
  · exact .inl havoid
  · exact .inl havoid
  · exact .inl rfl
  · unfold blmHandleRssiRejectList
    split_ifs with hr
    · exact .inl (h hr)
    · exact .inl rfl
  · exact .inr rfl
  · exact .inr rfl

end Modify

section Walks

variable {clk : ℕ → Time} {cfg : BlmConfig} {ap : RejectApInfo} {l : List RejectAp} {n : ℕ}

theorem sweep_missed (h : (sweep clk cfg ap l n).found = false) :
    n ≤ (sweep clk cfg ap l n).tick ∧
      Aged clk cfg n (sweep clk cfg ap l n).tick l (sweep clk cfg ap l n).list ∧
      ∀ e ∈ (sweep clk cfg ap l n).list, e.cleared = false ∧ e.bssid ≠ ap.bssid := by
  induction l generalizing n with
  | nil => exact ⟨le_refl n, .nil, by simp [sweep]⟩
  | cons e es ih =>
    unfold sweep at h ⊢
    dsimp only at h ⊢
    split_ifs at h ⊢ with hc hb
    · obtain ⟨hle, haged, hothers⟩ := ih h
      refine ⟨by omega, .drop ⟨_, AgedTo.single (le_refl n) (by omega), hc⟩ ?_, hothers⟩
      exact haged.mono (by omega) (le_refl _)
    · obtain ⟨hle, haged, hothers⟩ := ih h
      refine ⟨le_trans (Nat.le_succ n) hle, .keep (AgedTo.single (le_refl n) ?_) ?_, ?_⟩
      · exact lt_of_lt_of_le (Nat.lt_succ_self n) hle
      · exact haged.mono (by omega) (le_refl _)
      · intro e' he'
        rcases List.mem_cons.mp he' with rfl | he'
        · exact ⟨by simpa using hc, hb⟩
        · exact hothers e' he'

variable (cfg ap l) in
/-- Found or not, the entries are kept or dropped. -/
theorem sweep_keeps (hclk : NonDecreasing clk) {m : ℕ} (hm : (sweep clk cfg ap l n).tick ≤ m) :
    n ≤ (sweep clk cfg ap l n).tick ∧
      Thinned (Keeps (clk m)) (fun _ => True) l (sweep clk cfg ap l n).list := by
  induction l generalizing n with
  | nil => exact ⟨le_refl n, .nil⟩
  | cons e es ih =>
    unfold sweep at hm ⊢
    dsimp only at hm ⊢
    split_ifs at hm ⊢ with hc hb
    · obtain ⟨hle, hkeeps⟩ := ih hm
      exact ⟨by omega, .drop trivial hkeeps⟩
    · have htick := blmModifyEntry_tick cfg ap clk (n + 1) (blmUpdateApInfo cfg none (clk n) e)
      dsimp only at hm ⊢
      have hup : Keeps (clk m) e (blmUpdateApInfo cfg none (clk n) e) :=
        blmUpdateApInfo_keeps (hclk n m (by omega))
      refine ⟨by omega, .keep ⟨?_, ?_, ?_⟩ (Thinned.refl (Keeps.refl _) es)⟩
      · rcases blmModifyEntry_bssid cfg clk (n + 1) (fun _ => hb) with hmod | hmod
        · rw [hmod, ← hb, hup.bssid]
        · rw [hmod, hup.bssid]
      · exact fun he => absurd (hup.cleared he) hc
      · exact fun hf => blmModifyEntry_fresh (hclk (n + 1) m (by omega)) (hup.fresh hf)
    · obtain ⟨hle, hkeeps⟩ := ih hm
      have hle : n + 1 ≤ (sweep clk cfg ap es (n + 1)).tick := hle
      have hm : (sweep clk cfg ap es (n + 1)).tick ≤ m := hm
      refine ⟨le_trans (Nat.le_succ n) hle, .keep ?_ hkeeps⟩
      exact blmUpdateApInfo_keeps (hclk n m (by omega))

theorem Tidy.concat {now : Time} {e : RejectAp} (h : Tidy now l) (hroom : l.length < maxBadApListSize)
    (hothers : ∀ a ∈ l, a.cleared = false ∧ a.bssid ≠ ap.bssid) (hap : ap.bssid ≠ 0)
    (he : e.bssid = ap.bssid ∨ e = {}) (hf : Fresh now e) : Tidy now (l ++ [e]) := by
  have hnew : ∀ a ∈ l, a.bssid ≠ e.bssid := by
    intro a ha heq
    rcases he with he | rfl
    · exact (hothers a ha).2 (heq.trans he)
    · have hc := h.zero a ha heq
      rw [(hothers a ha).1] at hc
      cases hc
  refine ⟨?_, ?_, ?_, ?_⟩
  · rw [List.map_append, List.map_cons, List.map_nil]
    apply List.nodup_append'.mpr
    refine ⟨h.nodup, List.nodup_singleton _, ?_⟩
    intro b hb hb'
    obtain ⟨a, ha, rfl⟩ := List.mem_map.mp hb
    exact hnew a ha (List.mem_singleton.mp hb')
  · rw [List.length_append, List.length_singleton]
    exact hroom
  · intro a ha
    rcases List.mem_append.mp ha with ha | ha
    · exact h.fresh a ha
    · rw [List.mem_singleton.mp ha]
      exact hf
  · intro a ha hz
    rcases List.mem_append.mp ha with ha | ha
    · exact h.zero a ha hz
    · rw [List.mem_singleton.mp ha] at hz ⊢
      rcases he with he | rfl
      · exact absurd (he.symm.trans hz) hap
      · rfl

variable (clk cfg n) in
theorem makeRoom_sublist (h : l.length ≤ maxBadApListSize) :
    n ≤ (makeRoom clk cfg l n).2 ∧ ∀ l', (makeRoom clk cfg l n).1 = some l' →
      l'.Sublist l ∧ l'.length < maxBadApListSize := by
  unfold makeRoom
  split_ifs with hfull
  · rw [← hfull]
    exact tryDeleteInOrder_sublist removalOrder l n
  · refine ⟨le_refl n, ?_⟩
    intro l' hl'
    rw [← Option.some.inj hl']
    exact ⟨List.Sublist.refl l, lt_of_le_of_ne h hfull⟩

end Walks

section Calls

variable {clk : ℕ → Time} {cfg : BlmConfig} {db : RejectDb}

def RejectDb.InOrder (clk : ℕ → Time) (db : RejectDb) : Prop := Tidy (clk db.tick) db.rejectApList

theorem blmSendRejectApListToFw_inOrder (hclk : NonDecreasing clk) (env : Env)
    (h : db.InOrder clk) : (blmSendRejectApListToFw clk cfg env db).1.InOrder clk := by
  obtain ⟨hle, haged⟩ := blmSendRejectApListToFw_aged clk cfg env db
  exact Tidy.aged hclk hle h haged

theorem insertEntry_inOrder {ap : RejectApInfo} {l : List RejectAp} {n : ℕ}
    (hclk : NonDecreasing clk) (env : Env) (h : Tidy (clk n) l) (hroom : l.length < maxBadApListSize)
    (hothers : ∀ a ∈ l, a.cleared = false ∧ a.bssid ≠ ap.bssid) (hap : ap.bssid ≠ 0) :
    (insertEntry clk cfg env ap l n).2.1.InOrder clk := by
  unfold insertEntry
  split_ifs with hnode
  · exact h
  · have hlate := hclk _ _ (blmModifyEntry_tick cfg ap clk n {})
    apply blmSendRejectApListToFw_inOrder hclk
    apply Tidy.concat (h.mono hlate) hroom hothers hap
    · exact blmModifyEntry_bssid cfg clk n (by simp)
    · exact blmModifyEntry_fresh hlate (fresh_blank _)

variable (cfg) in
theorem blmAddBssidToRejectList_inOrder (hclk : NonDecreasing clk) (env : Env)
    (ap : RejectApInfo) (h : db.InOrder clk) :
    (blmAddBssidToRejectList clk cfg env ap db).2.1.InOrder clk := by
  unfold blmAddBssidToRejectList
  dsimp only
  split_ifs with hatt haddr hlock hfound
  · exact h
  · exact h
  · exact h
  · obtain ⟨hle, hkeeps⟩ := sweep_keeps cfg ap db.rejectApList hclk (le_refl _)
    apply blmSendRejectApListToFw_inOrder hclk
    exact (Tidy.mono h (hclk _ _ hle)).thinned hkeeps
  · have hmissed := sweep_missed (Bool.eq_false_iff.mpr hfound)
    obtain ⟨hle, haged, hothers⟩ := hmissed
    generalize sweep clk cfg ap db.rejectApList db.tick = s at *
    have hs : Tidy (clk s.tick) s.list := Tidy.aged hclk hle h haged
    obtain ⟨hle', hroom⟩ :=
      makeRoom_sublist clk cfg s.tick hs.length_le
    cases hr : makeRoom clk cfg s.list s.tick with
    | mk r m =>
      rw [hr] at hle' hroom
      have hs' : Tidy (clk m) s.list := hs.mono (hclk _ _ hle')
      cases r with
      | none => exact hs'
      | some l =>
        obtain ⟨hsub, hlt⟩ := hroom l rfl
        have hl : Tidy (clk m) l := hs'.sublist hsub
        have hap : ap.bssid ≠ 0 := by
          intro hz
          exact haddr (by simp [isMacaddrZero, hz])
        exact insertEntry_inOrder hclk env hl hlt (fun a ha => hothers a (hsub.mem ha)) hap

variable (clk) in
theorem blmClearUserspaceBlacklistInfo_inOrder (env : Env) (h : db.InOrder clk) :
    (blmClearUserspaceBlacklistInfo env db).InOrder clk := by
  have hthin (l : List RejectAp) : Thinned (Keeps (clk db.tick)) (fun _ => True) l
      (l.filterMap clearUserspaceBlacklist) := by
    induction l with
    | nil => exact .nil
    | cons e es ih =>
      cases he : clearUserspaceBlacklist e with
      | none =>
        rw [List.filterMap_cons_none he]
        exact .drop trivial ih
      | some e' =>
        rw [List.filterMap_cons_some he]
        exact .keep (clearUserspaceBlacklist_keeps he) ih
  unfold blmClearUserspaceBlacklistInfo
  split_ifs
  · exact h
  · exact Tidy.thinned h (hthin _)

theorem addBlacklisted_inOrder (hclk : NonDecreasing clk) (as : List (MacAddr × Env))
    (h : db.InOrder clk) : (addBlacklisted clk cfg as db).2.1.InOrder clk := by
  induction as generalizing db with
  | nil => exact h
  | cons a as ih =>
    have hadd := blmAddBssidToRejectList_inOrder cfg hclk a.2
      ⟨a.1, {}, .userspaceBlacklist, .userspaceBl, .addedByDriver⟩ h
    unfold addBlacklisted
    dsimp only
    split_ifs
    · exact hadd
    · exact ih hadd

theorem blmAddUserspaceBlackList_inOrder (hclk : NonDecreasing clk) (clear send : Env)
    (as : List (MacAddr × Env)) (h : db.InOrder clk) :
    (blmAddUserspaceBlackList clk cfg clear send as db).2.1.InOrder clk := by
  have hclear := blmClearUserspaceBlacklistInfo_inOrder clk clear h
  unfold blmAddUserspaceBlackList
  split_ifs
  · exact h
  · exact hclear
  · exact addBlacklisted_inOrder hclk as (blmSendRejectApListToFw_inOrder hclk send hclear)

variable (cfg) in
theorem actOnBssid_keeps (hclk : NonDecreasing clk) (scan : ScanEntry) (l : List RejectAp)
    (n : ℕ) :
    n ≤ (actOnBssid clk cfg scan l n).2.2 ∧
      Thinned (Keeps (clk (actOnBssid clk cfg scan l n).2.2)) (fun _ => True) l
        (actOnBssid clk cfg scan l n).2.1 := by
  induction l with
  | nil => exact ⟨le_refl n, .nil⟩
  | cons e es ih =>
    unfold actOnBssid
    split_ifs with hb
    · refine ⟨Nat.le_succ n, ?_⟩
      unfold blmPruneOldEntriesAndGetAction
      dsimp only
      split_ifs with hc
      · exact .drop trivial (Thinned.refl (Keeps.refl _) es)
      · refine .keep ?_ (Thinned.refl (Keeps.refl _) es)
        exact blmUpdateApInfo_keeps (hclk _ _ (Nat.le_succ n))
    · exact ⟨ih.1, .keep (Keeps.refl _ e) ih.2⟩

variable (cfg) in
theorem blmActionOnBssid_inOrder (hclk : NonDecreasing clk) (env : Env) (scan : ScanEntry)
    (h : db.InOrder clk) : (blmActionOnBssid clk cfg env scan db).2.InOrder clk := by
  obtain ⟨hle, hkeeps⟩ := actOnBssid_keeps cfg hclk scan db.rejectApList db.tick
  unfold blmActionOnBssid
  split_ifs
  · exact h
  · exact (Tidy.mono h (hclk _ _ hle)).thinned hkeeps

theorem filterScanList_inOrder (hclk : NonDecreasing clk) (ss : List (ScanEntry × Env))
    (moved : List ScanEntry) (h : db.InOrder clk) :
    (filterScanList clk cfg ss moved db).2.InOrder clk := by
  induction ss generalizing moved db with
  | nil => exact h
  | cons s ss ih =>
    have hact := blmActionOnBssid_inOrder cfg hclk s.2 s.1 h
    unfold filterScanList
    dsimp only
    split
    · exact ih moved hact
    · exact ih _ hact
    · exact ih moved hact

theorem blmFilterBssid_inOrder (hclk : NonDecreasing clk) (ss : List (ScanEntry × Env))
    (h : db.InOrder clk) : (blmFilterBssid clk cfg ss db).2.2.InOrder clk := by
  unfold blmFilterBssid
  split_ifs
  · exact h
  · exact filterScanList_inOrder hclk ss [] h

theorem blmGetBssidRejectList_inOrder (hclk : NonDecreasing clk) (env : Env) (max : BitVec 8)
    (type : RejectApType) (h : db.InOrder clk) :
    (blmGetBssidRejectList clk cfg env max type db).2.InOrder clk := by
  obtain ⟨hle, haged⟩ :=
    blmFillRejectList_aged clk cfg type max.toNat db.rejectApList [] db.tick
  unfold blmGetBssidRejectList
  split_ifs
  · exact h
  · exact Tidy.aged hclk hle h haged

theorem connectParams_tick (con : ConnectionState) (n : ℕ) (e : RejectAp) :
    n ≤ (connectParams clk cfg con n e).2 := by
  cases con <;> exact Nat.le_add_right _ _

variable (cfg) in
theorem updateConnect_keeps (hclk : NonDecreasing clk) (bssid : MacAddr) (con : ConnectionState)
    (l : List RejectAp) (n : ℕ) :
    n ≤ (updateConnect clk cfg bssid con l n).tick ∧
      Thinned (Keeps (clk (updateConnect clk cfg bssid con l n).tick)) (fun _ => True) l
        (updateConnect clk cfg bssid con l n).list := by
  induction l with
  | nil => exact ⟨le_refl n, .nil⟩
  | cons e es ih =>
    unfold updateConnect
    dsimp only
    split_ifs with hb
    · refine ⟨connectParams_tick con n e, ?_⟩
      cases hc : (connectParams clk cfg con n e).1 with
      | none => exact .drop trivial (Thinned.refl (Keeps.refl _) es)
      | some e' =>
        exact .keep (connectParams_keeps hclk (le_refl _) hc) (Thinned.refl (Keeps.refl _) es)
    · exact ⟨ih.1, .keep (Keeps.refl _ e) ih.2⟩

theorem blmUpdateBssidConnectParams_inOrder (hclk : NonDecreasing clk) (env : Env)
    (bssid : MacAddr) (con : ConnectionState) (h : db.InOrder clk) :
    (blmUpdateBssidConnectParams clk cfg env bssid con db).1.InOrder clk := by
  obtain ⟨hle, hkeeps⟩ := updateConnect_keeps cfg hclk bssid con db.rejectApList db.tick
  have hupdated := (Tidy.mono h (hclk _ _ hle)).thinned hkeeps
  unfold blmUpdateBssidConnectParams
  dsimp only
  split_ifs
  · exact h
  · exact blmSendRejectApListToFw_inOrder hclk env hupdated
  · exact hupdated

theorem step_inOrder (hclk : NonDecreasing clk) (ev : Event) (h : db.InOrder clk) :
    ((machine clk cfg).step db ev).1.InOrder clk := by
  cases ev with
  | addBssid env ap => exact blmAddBssidToRejectList_inOrder cfg hclk env ap h
  | clearUserspace env => exact blmClearUserspaceBlacklistInfo_inOrder clk env h
  | addUserspaceBlackList clear send as =>
    exact blmAddUserspaceBlackList_inOrder hclk clear send as h
  | actionOnBssid env scan => exact blmActionOnBssid_inOrder cfg hclk env scan h
  | filterBssid ss => exact blmFilterBssid_inOrder hclk ss h
  | getRejectList env max type => exact blmGetBssidRejectList_inOrder hclk env max type h
  | updateConnectParams env bssid con =>
    exact blmUpdateBssidConnectParams_inOrder hclk env bssid con h
  | updateToFw env =>
    change (blmUpdateRejectApListToFw clk cfg env db).1.InOrder clk
    unfold blmUpdateRejectApListToFw
    split_ifs
    · exact h
    · exact blmSendRejectApListToFw_inOrder hclk env h
  | flush env =>
    change (blmFlushRejectApList env db).InOrder clk
    unfold blmFlushRejectApList
    split_ifs
    · exact h
    · exact tidy_nil _

theorem after_inOrder (hclk : NonDecreasing clk) (es : List Event) :
    (after clk cfg es).InOrder clk :=
  (machine clk cfg).invariant (fun _ ev h => step_inOrder hclk ev h) es (tidy_nil _)

end Calls

end KernelModules.RejectList
