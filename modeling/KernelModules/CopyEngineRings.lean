import KernelModules.CopyEngine

/-!
# What the calls of a copy engine do to its rings

For each call: what it leaves in the ring, what comes in and what goes out. A ring that is not
one of the data path in fastpath mode is never taken for an empty one when it is full.
-/

namespace KernelModules.CopyEngine

open WordRing (Holds Moved wrap distance)

variable {ce : Engine} {s : CeState} {r : SrcRing} {q : DestRing} {t : Transfer}
  {ts ts' : List Transfer} {bs bs' : List Buffer} {n i j w : UInt32} {f : Frag}
  {ctx buffer : UInt64} {transferId : UInt32} {access : Bool}

theorem toNat_incr (hn : ∃ k, n.toNat = 2 ^ k) (hi : i.toNat < n.toNat) :
    (ceRingIdxIncr (n - 1) i).toNat = wrap n.toNat (i.toNat + 1) := by
  obtain ⟨k, hk⟩ := hn
  exact WordRing.toNat_succ_and hk hi

theorem toNat_delta (hn : ∃ k, n.toNat = 2 ^ k) (hi : i.toNat < n.toNat) (hj : j.toNat < n.toNat) :
    (ceRingDelta (n - 1) i j).toNat = distance n.toNat i.toNat j.toNat := by
  obtain ⟨k, hk⟩ := hn
  exact WordRing.toNat_sub_and hk hi hj

theorem toNat_room (hn : ∃ k, n.toNat = 2 ^ k) (hi : i.toNat < n.toNat) (hw : w.toNat < n.toNat) :
    (ceRingDelta (n - 1) w (i - 1)).toNat =
      n.toNat - 1 - distance n.toNat i.toNat w.toNat := by
  obtain ⟨k, hk⟩ := hn
  exact WordRing.toNat_room hk hi hw

/-- The transfers from the software index up to the write index, in the descriptors of the ring
and in their copies. -/
structure SrcHolds (ce : Engine) (r : SrcRing) (ts : List Transfer) : Prop where
  shadow : Holds r.transfer ce.srcNentries.toNat r.swIndex.toNat r.writeIndex.toNat ts
  desc : Holds (fun i => Transfer.mk (r.perTransferContext i) (r.desc i)) ce.srcNentries.toNat
    r.swIndex.toNat r.writeIndex.toNat ts

/-- The target is between the two indices, and so is what the host knows of it, unless it has
read an error. -/
structure SrcOrdered (ce : Engine) (r : SrcRing) : Prop where
  lt : r.readIndex.toNat < ce.srcNentries.toNat
  read : distance ce.srcNentries.toNat r.swIndex.toNat r.readIndex.toNat ≤
    distance ce.srcNentries.toNat r.swIndex.toNat r.writeIndex.toNat
  cached : r.hwIndex = readError ∨ r.hwIndex.toNat < ce.srcNentries.toNat ∧
    distance ce.srcNentries.toNat r.swIndex.toNat r.hwIndex.toNat ≤
      distance ce.srcNentries.toNat r.swIndex.toNat r.readIndex.toNat

theorem SrcHolds.room_eq (h : SrcHolds ce r ts) :
    (ceRingDelta ce.srcMask r.writeIndex (r.swIndex - 1)).toNat =
      ce.srcNentries.toNat - 1 - ts.length := by
  have hroom := toNat_room ce.srcPow h.shadow.read_lt h.shadow.write_lt
  rw [h.shadow.distance_eq] at hroom
  exact hroom

theorem SrcHolds.post (h : SrcHolds ce r ts) (hroom : ts.length + 1 < ce.srcNentries.toNat)
    (t : Transfer) : SrcHolds ce (r.post ce t) (ts ++ [t]) := by
  have hincr : (ceRingIdxIncr ce.srcMask r.writeIndex).toNat = _ :=
    toNat_incr ce.srcPow h.shadow.write_lt
  have hshadow := h.shadow.push t hroom
  have hdesc := h.desc.push t hroom
  have hs : (r.post ce t).transfer = Function.update r.transfer r.writeIndex.toNat t := by
    funext k
    unfold SrcRing.transfer SrcRing.post
    simp only [Function.update_apply]
    split <;> rfl
  have hd : (fun k => Transfer.mk ((r.post ce t).perTransferContext k) ((r.post ce t).desc k)) =
      Function.update (fun k => Transfer.mk (r.perTransferContext k) (r.desc k))
        r.writeIndex.toNat t := by
    funext k
    unfold SrcRing.post
    simp only [Function.update_apply]
    split <;> rfl
  rw [← hincr, ← hs] at hshadow
  rw [← hincr, ← hd] at hdesc
  exact ⟨hshadow, hdesc⟩

theorem SrcHolds.take (h : SrcHolds ce r (t :: ts)) :
    SrcHolds ce (r.take ce) ts ∧
      (r.take ce).swIndex.toNat = wrap ce.srcNentries.toNat (r.swIndex.toNat + 1) := by
  have hincr : (ceRingIdxIncr ce.srcMask r.swIndex).toNat = _ :=
    toNat_incr ce.srcPow h.shadow.read_lt
  have hshadow := h.shadow.pop ⟨0, r.shadow r.swIndex.toNat⟩
  have hdesc := h.desc.pop ⟨0, r.desc r.swIndex.toNat⟩
  have hs : (r.take ce).transfer =
      Function.update r.transfer r.swIndex.toNat ⟨0, r.shadow r.swIndex.toNat⟩ := by
    funext k
    unfold SrcRing.transfer SrcRing.take
    simp only [Function.update_apply]
    split
    · rename_i heq
      rw [heq]
    · rfl
  have hd : (fun k => Transfer.mk ((r.take ce).perTransferContext k) ((r.take ce).desc k)) =
      Function.update (fun k => Transfer.mk (r.perTransferContext k) (r.desc k)) r.swIndex.toNat
        ⟨0, r.desc r.swIndex.toNat⟩ := by
    funext k
    unfold SrcRing.take
    simp only [Function.update_apply]
    split
    · rename_i heq
      rw [heq]
    · rfl
  rw [← hincr, ← hs] at hshadow
  rw [← hincr, ← hd] at hdesc
  exact ⟨⟨hshadow, hdesc⟩, hincr⟩

theorem SrcOrdered.post (h : SrcOrdered ce r) (hh : SrcHolds ce r ts)
    (hroom : ts.length + 1 < ce.srcNentries.toNat) (t : Transfer) : SrcOrdered ce (r.post ce t) := by
  have hdist := (hh.post hroom t).shadow.distance_eq
  have hold := hh.shadow.distance_eq
  rw [List.length_append, List.length_singleton] at hdist
  refine ⟨h.lt, ?_, h.cached⟩
  have hread := h.read
  change distance ce.srcNentries.toNat r.swIndex.toNat r.readIndex.toNat ≤ _
  omega

theorem SrcOrdered.take (h : SrcOrdered ce r) (hh : SrcHolds ce r (t :: ts))
    (hne : r.hwIndex ≠ r.swIndex) (herr : r.hwIndex ≠ readError) : SrcOrdered ce (r.take ce) := by
  obtain ⟨hlt, hread, hcached⟩ := h
  obtain ⟨hhw, hle⟩ := hcached.resolve_left herr
  have hsw := hh.shadow.read_lt
  have hw := hh.shadow.write_lt
  have hhwne : r.swIndex.toNat ≠ r.hwIndex.toNat := fun heq => hne (UInt32.toNat_inj.mp heq).symm
  have hpos : distance ce.srcNentries.toNat r.swIndex.toNat r.hwIndex.toNat ≠ 0 :=
    fun hzero => hhwne ((WordRing.distance_eq_zero hsw).mp hzero)
  have hreadne : r.swIndex.toNat ≠ r.readIndex.toNat := by
    intro heq
    have := (WordRing.distance_eq_zero (w := r.readIndex.toNat) hsw).mpr heq
    omega
  have hwritene : r.swIndex.toNat ≠ r.writeIndex.toNat := by
    intro heq
    have := (WordRing.distance_eq_zero (w := r.writeIndex.toNat) hsw).mpr heq
    omega
  have hhwdist := WordRing.distance_succ_left hsw hhw hhwne
  have hreaddist := WordRing.distance_succ_left hsw hlt hreadne
  have hwritedist := WordRing.distance_succ_left hsw hw hwritene
  rw [← hh.take.2] at hhwdist hreaddist hwritedist
  refine ⟨hlt, ?_, .inr ⟨hhw, ?_⟩⟩
  · change distance _ (r.take ce).swIndex.toNat r.readIndex.toNat ≤
      distance _ (r.take ce).swIndex.toNat r.writeIndex.toNat
    omega
  · change distance _ (r.take ce).swIndex.toNat r.hwIndex.toNat ≤
      distance _ (r.take ce).swIndex.toNat r.readIndex.toNat
    omega

/-- A call that puts `new` into the source ring. -/
structure Posted (ce : Engine) (s s' : CeState) (ts new : List Transfer) (outs : List Out) :
    Prop where
  holds : SrcHolds ce s'.src (ts ++ new)
  ordered : SrcOrdered ce s.src → SrcOrdered ce s'.src
  swIndex : s'.src.swIndex = s.src.swIndex
  dest : s'.dest = s.dest
  outs : outs = new.map .sent

theorem Posted.refl (h : SrcHolds ce s.src ts) : Posted ce s s ts [] [] :=
  ⟨by rwa [List.append_nil], id, rfl, rfl, rfl⟩

theorem Posted.trans {s₁ s₂ : CeState} {new₁ new₂ : List Transfer} {os₁ os₂ : List Out}
    (h₁ : Posted ce s s₁ ts new₁ os₁) (h₂ : Posted ce s₁ s₂ (ts ++ new₁) new₂ os₂) :
    Posted ce s s₂ ts (new₁ ++ new₂) (os₁ ++ os₂) := by
  refine ⟨?_, h₂.ordered ∘ h₁.ordered, h₂.swIndex.trans h₁.swIndex, h₂.dest.trans h₁.dest, ?_⟩
  · rw [← List.append_assoc]
    exact h₂.holds
  · rw [h₁.outs, h₂.outs, List.map_append]

theorem ceSendNolock_of_full (h : SrcHolds ce s.src ts)
    (hfull : ¬ts.length + 1 < ce.srcNentries.toNat) :
    ceSendNolock ce s ctx f transferId = ⟨s, [], false⟩ := by
  have hroom := h.room_eq
  have hzero : ceRingDelta ce.srcMask s.src.writeIndex (s.src.swIndex - 1) = 0 := by
    apply UInt32.toNat_inj.mp
    rw [hroom, UInt32.toNat_zero]
    omega
  unfold ceSendNolock
  rw [if_pos hzero, ite_self]

theorem ceSendNolock_of_room (h : SrcHolds ce s.src ts)
    (hroom : ts.length + 1 < ce.srcNentries.toNat) (hf : f.access = true) :
    ceSendNolock ce s ctx f transferId =
      ⟨{ s with src := s.src.post ce ⟨ctx, f.desc transferId⟩ },
        [.sent ⟨ctx, f.desc transferId⟩], true⟩ := by
  have heq := h.room_eq
  have hpos : ceRingDelta ce.srcMask s.src.writeIndex (s.src.swIndex - 1) ≠ 0 := by
    intro hzero
    rw [hzero, UInt32.toNat_zero] at heq
    omega
  unfold ceSendNolock
  rw [if_neg (by rw [hf]; decide), if_neg hpos]

theorem posted_post (h : SrcHolds ce s.src ts) (hroom : ts.length + 1 < ce.srcNentries.toNat)
    (t : Transfer) : Posted ce s { s with src := s.src.post ce t } ts [t] [.sent t] :=
  ⟨h.post hroom t, fun ho => ho.post h hroom t, rfl, rfl, rfl⟩

theorem ceSendNolock_posted (h : SrcHolds ce s.src ts) (ctx : UInt64) (f : Frag)
    (transferId : UInt32) :
    ∃ new, Posted ce s (ceSendNolock ce s ctx f transferId).st ts new
      (ceSendNolock ce s ctx f transferId).outs := by
  by_cases hroom : ts.length + 1 < ce.srcNentries.toNat
  · cases hf : f.access with
    | false =>
      refine ⟨[], ?_⟩
      unfold ceSendNolock
      rw [if_pos hf]
      exact Posted.refl h
    | true =>
      refine ⟨[⟨ctx, f.desc transferId⟩], ?_⟩
      rw [ceSendNolock_of_room h hroom hf]
      exact posted_post h hroom _
  · refine ⟨[], ?_⟩
    rw [ceSendNolock_of_full h hroom]
    exact Posted.refl h

theorem sendFrags_posted (h : SrcHolds ce s.src ts) (transferId : UInt32) (fs : List Frag) :
    ∃ new, Posted ce s (sendFrags ce transferId s fs).1 ts new (sendFrags ce transferId s fs).2 := by
  induction fs generalizing s ts with
  | nil => exact ⟨[], Posted.refl h⟩
  | cons f fs ih =>
    obtain ⟨new₁, h₁⟩ := ceSendNolock_posted h ceSendlistItemCtxt f transferId
    obtain ⟨new₂, h₂⟩ := ih h₁.holds
    exact ⟨new₁ ++ new₂, h₁.trans h₂⟩

def sendlistTransfers (ctx : UInt64) (frags : List Frag) (last : Frag) (transferId : UInt32) :
    List Transfer :=
  frags.map (fun f => ⟨ceSendlistItemCtxt, f.desc transferId⟩) ++ [⟨ctx, last.desc transferId⟩]

theorem sendFrags_whole (h : SrcHolds ce s.src ts) (transferId : UInt32) {fs : List Frag}
    (hroom : ts.length + fs.length < ce.srcNentries.toNat) (hf : ∀ f ∈ fs, f.access = true) :
    Posted ce s (sendFrags ce transferId s fs).1 ts
      (fs.map fun f => ⟨ceSendlistItemCtxt, f.desc transferId⟩)
      (sendFrags ce transferId s fs).2 := by
  induction fs generalizing s ts with
  | nil => exact Posted.refl h
  | cons f fs ih =>
    rw [List.length_cons] at hroom
    have heq : ceSendNolock ce s ceSendlistItemCtxt f transferId = _ :=
      ceSendNolock_of_room h (by omega) (hf f List.mem_cons_self)
    have h₁ := posted_post h (by omega) ⟨ceSendlistItemCtxt, f.desc transferId⟩
    have h₂ := ih h₁.holds (by rw [List.length_append, List.length_singleton]; omega)
      fun g hg => hf g (List.mem_cons_of_mem _ hg)
    unfold sendFrags
    rw [heq]
    exact h₁.trans h₂

theorem plain_tx (hplain : ce.fastpath = false) :
    (ce.fastpathModeOn && ce.httTxData && access) = false := by
  unfold Engine.fastpath at hplain
  cases hf : ce.fastpathModeOn <;> cases ht : ce.httTxData <;> simp_all

variable {frags : List Frag}

variable {last : Frag} {s' : CeState}

theorem ceSendlistSend_of_full (hplain : ce.fastpath = false) (h : SrcHolds ce s.src ts)
    (hfull : ¬ts.length + (frags.length + 1) < ce.srcNentries.toNat) :
    ceSendlistSend ce s ctx frags last transferId access = ⟨s, [], false⟩ := by
  have hlt := h.shadow.room
  have hroom := h.room_eq
  have hneg : ¬frags.length + 1 ≤
      (ceRingDelta ce.srcMask s.src.writeIndex (s.src.swIndex - 1)).toNat := by omega
  unfold ceSendlistSend
  rw [plain_tx hplain, if_neg Bool.false_ne_true]
  exact if_neg hneg

theorem ceSendlistSend_of_room (hplain : ce.fastpath = false) (h : SrcHolds ce s.src ts) (last : Frag)
    (hroom : ts.length + (frags.length + 1) < ce.srcNentries.toNat) :
    ceSendlistSend ce s ctx frags last transferId access =
      ⟨(ceSendNolock ce (sendFrags ce transferId s frags).1 ctx last transferId).st,
        (sendFrags ce transferId s frags).2 ++
          (ceSendNolock ce (sendFrags ce transferId s frags).1 ctx last transferId).outs,
        (ceSendNolock ce (sendFrags ce transferId s frags).1 ctx last transferId).ok⟩ := by
  have heq := h.room_eq
  have hpos : frags.length + 1 ≤
      (ceRingDelta ce.srcMask s.src.writeIndex (s.src.swIndex - 1)).toNat := by omega
  unfold ceSendlistSend
  rw [plain_tx hplain, if_neg Bool.false_ne_true]
  exact if_pos hpos

theorem ceSendlistSend_posted (hplain : ce.fastpath = false) (h : SrcHolds ce s.src ts)
    (ctx : UInt64) (frags : List Frag) (last : Frag) (transferId : UInt32) (access : Bool) :
    ∃ new, Posted ce s (ceSendlistSend ce s ctx frags last transferId access).st ts new
      (ceSendlistSend ce s ctx frags last transferId access).outs := by
  by_cases hroom : ts.length + (frags.length + 1) < ce.srcNentries.toNat
  · rw [ceSendlistSend_of_room hplain h last hroom]
    obtain ⟨new₁, h₁⟩ := sendFrags_posted h transferId frags
    obtain ⟨new₂, h₂⟩ := ceSendNolock_posted h₁.holds ctx last transferId
    exact ⟨new₁ ++ new₂, h₁.trans h₂⟩
  · rw [ceSendlistSend_of_full hplain h hroom]
    exact ⟨[], Posted.refl h⟩

theorem ceSendlistSend_whole (hplain : ce.fastpath = false) (h : SrcHolds ce s.src ts)
    (ctx : UInt64) (transferId : UInt32) (access : Bool)
    (hf : ∀ f ∈ frags, f.access = true) (hl : last.access = true) :
    (ceSendlistSend ce s ctx frags last transferId access).ok = true ∧
        (ceSendlistSend ce s ctx frags last transferId access).outs =
          (sendlistTransfers ctx frags last transferId).map .sent ∨
      ceSendlistSend ce s ctx frags last transferId access = ⟨s, [], false⟩ := by
  by_cases hroom : ts.length + (frags.length + 1) < ce.srcNentries.toNat
  · left
    have h₁ := sendFrags_whole h transferId (by omega) hf
    have heq : ceSendNolock ce (sendFrags ce transferId s frags).1 ctx last transferId = _ :=
      ceSendNolock_of_room h₁.holds (by rw [List.length_append, List.length_map]; omega) hl
    rw [ceSendlistSend_of_room hplain h last hroom, heq, h₁.outs]
    refine ⟨rfl, ?_⟩
    unfold sendlistTransfers
    rw [List.map_append]
    rfl
  · exact .inr (ceSendlistSend_of_full hplain h hroom)

theorem SrcHolds.refresh (h : SrcHolds ce s.src ts) (err : Bool) :
    SrcHolds ce (refresh s err).src ts := by
  unfold CopyEngine.refresh
  split
  · exact ⟨h.shadow, h.desc⟩
  · exact h

theorem SrcOrdered.refresh (h : SrcOrdered ce s.src) (err : Bool) :
    SrcOrdered ce (refresh s err).src := by
  unfold CopyEngine.refresh
  split
  · cases err with
    | false => exact ⟨h.lt, h.read, .inr ⟨h.lt, le_rfl⟩⟩
    | true => exact ⟨h.lt, h.read, .inl rfl⟩
  · exact h

theorem refresh_dest (s : CeState) (err : Bool) : (refresh s err).dest = s.dest := by
  unfold refresh
  split <;> rfl

theorem refresh_swIndex (s : CeState) (err : Bool) :
    (refresh s err).src.swIndex = s.src.swIndex := by
  unfold refresh
  split <;> rfl

theorem SrcOrdered.ne_nil (h : SrcOrdered ce r) (hh : SrcHolds ce r ts)
    (hne : r.hwIndex ≠ r.swIndex) (herr : r.hwIndex ≠ readError) : ts ≠ [] := by
  obtain ⟨_, hread, hcached⟩ := h
  obtain ⟨_, hle⟩ := hcached.resolve_left herr
  have hdist := hh.shadow.distance_eq
  rintro rfl
  rw [List.length_nil] at hdist
  apply hne
  apply UInt32.toNat_inj.mp
  exact ((WordRing.distance_eq_zero hh.shadow.read_lt).mp (by omega)).symm

/-- A call that gives back nothing, or the first transfer. -/
structure Taken (ce : Engine) (s s' : CeState) (ts ts' done : List Transfer) (outs : List Out) :
    Prop where
  holds : SrcHolds ce s'.src ts'
  moved : Moved ce.srcNentries.toNat s.src.swIndex.toNat ts s'.src.swIndex.toNat ts' [] done
  dest : s'.dest = s.dest
  outs : outs = done.map .sendDone

theorem Taken.refl (h : SrcHolds ce s'.src ts)
    (hsw : s'.src.swIndex = s.src.swIndex) (hdest : s'.dest = s.dest) :
    Taken ce s s' ts ts [] [] := by
  refine ⟨h, ?_, hdest, rfl⟩
  rw [hsw]
  exact Moved.refl _ _ _

theorem Taken.take (h : SrcHolds ce r (t :: ts)) (hsw : r.swIndex = s.src.swIndex)
    (hsrc : s'.src = r.take ce) (hdest : s'.dest = s.dest) :
    Taken ce s s' (t :: ts) ts [t] [.sendDone t] := by
  obtain ⟨hholds, hwrap⟩ := h.take
  refine ⟨?_, .popped t ?_ rfl rfl rfl, hdest, rfl⟩
  · rw [hsrc]
    exact hholds
  · rw [hsrc, hwrap, hsw]

theorem ceCompletedSendNext_taken (h : SrcHolds ce s.src ts) (ho : SrcOrdered ce s.src)
    (accessBegin accessEnd err : Bool) :
    ∃ ts' done, Taken ce s (ceCompletedSendNext ce s accessBegin accessEnd err).st ts ts' done
        (ceCompletedSendNext ce s accessBegin accessEnd err).outs ∧
      SrcOrdered ce (ceCompletedSendNext ce s accessBegin accessEnd err).st.src := by
  have hr := h.refresh err
  have hor := ho.refresh err
  have hrefl : Taken ce s (refresh s err) ts ts [] [] :=
    Taken.refl hr (refresh_swIndex s err) (refresh_dest s err)
  unfold ceCompletedSendNext
  split
  · exact ⟨ts, [], Taken.refl h rfl rfl, ho⟩
  · split
    · exact ⟨ts, [], hrefl, hor⟩
    · dsimp only
      split
      · rename_i hdone
        obtain ⟨hne, herr⟩ := hdone
        cases ts with
        | nil => exact absurd rfl (hor.ne_nil hr hne herr)
        | cons t ts =>
          have hhead : (refresh s err).src.transfer (refresh s err).src.swIndex.toNat = t :=
            hr.shadow.head
          refine ⟨ts, [t], ?_, hor.take hr hne herr⟩
          unfold SrcRing.transfer at hhead
          rw [hhead]
          exact Taken.take hr (refresh_swIndex s err) rfl (refresh_dest s err)
      · exact ⟨ts, [], hrefl, hor⟩

theorem ceCancelSendNext_taken (h : SrcHolds ce s.src ts) :
    ∃ ts' done, Taken ce s (ceCancelSendNext ce s).st ts ts' done (ceCancelSendNext ce s).outs ∧
      ts' = ts.tail := by
  unfold ceCancelSendNext
  cases ts with
  | nil =>
    have heq : s.src.writeIndex = s.src.swIndex :=
      (UInt32.toNat_inj.mp (h.shadow.eq_iff.mpr rfl)).symm
    rw [if_pos heq]
    exact ⟨[], [], Taken.refl h rfl rfl, rfl⟩
  | cons t ts =>
    have hne : s.src.writeIndex ≠ s.src.swIndex := by
      intro heq
      have hnil := h.shadow.eq_iff.mp (congrArg UInt32.toNat heq.symm)
      cases hnil
    have hhead : Transfer.mk (s.src.perTransferContext s.src.swIndex.toNat)
      (s.src.desc s.src.swIndex.toNat) = t := h.desc.head
    rw [if_neg hne]
    dsimp only
    rw [hhead]
    exact ⟨ts, [t], Taken.take h rfl rfl rfl, rfl⟩

theorem targetTake_src (h : SrcHolds ce s.src ts) :
    SrcHolds ce (targetTake ce s).src ts ∧ (targetTake ce s).src.swIndex = s.src.swIndex ∧
      (targetTake ce s).dest = s.dest := by
  unfold targetTake
  split
  · exact ⟨h, rfl, rfl⟩
  · exact ⟨⟨h.shadow, h.desc⟩, rfl, rfl⟩

theorem SrcOrdered.targetTake (h : SrcOrdered ce s.src) (hh : SrcHolds ce s.src ts) :
    SrcOrdered ce (targetTake ce s).src := by
  unfold CopyEngine.targetTake
  split
  · exact h
  · rename_i hne
    obtain ⟨hlt, hread, hcached⟩ := h
    have hsw := hh.shadow.read_lt
    have hw := hh.shadow.write_lt
    have hincr : (ceRingIdxIncr ce.srcMask s.src.readIndex).toNat = _ := toNat_incr ce.srcPow hlt
    have hdistne : distance ce.srcNentries.toNat s.src.swIndex.toNat s.src.readIndex.toNat ≠
        distance ce.srcNentries.toNat s.src.swIndex.toNat s.src.writeIndex.toNat :=
      fun heq => hne (UInt32.toNat_inj.mp (WordRing.distance_inj hsw hlt hw heq))
    have hwlt := WordRing.distance_lt hsw hw
    have hsucc := WordRing.distance_succ_right hsw hlt (by omega)
    rw [← hincr] at hsucc
    refine ⟨?_, ?_, ?_⟩
    · change (ceRingIdxIncr ce.srcMask s.src.readIndex).toNat < _
      rw [hincr]
      exact WordRing.wrap_lt (by omega)
    · change distance _ s.src.swIndex.toNat (ceRingIdxIncr ce.srcMask s.src.readIndex).toNat ≤
        distance _ s.src.swIndex.toNat s.src.writeIndex.toNat
      omega
    · have hmono : distance ce.srcNentries.toNat s.src.swIndex.toNat s.src.readIndex.toNat ≤
          distance ce.srcNentries.toNat s.src.swIndex.toNat
            (ceRingIdxIncr ce.srcMask s.src.readIndex).toNat := by omega
      apply hcached.imp_right
      exact fun hcached => ⟨hcached.1, hcached.2.trans hmono⟩

def DestHolds (ce : Engine) (q : DestRing) (bs : List Buffer) : Prop :=
  Holds q.buffer ce.destNentries.toNat q.swIndex.toNat q.writeIndex.toNat bs

/-- The target is between the two indices, and a byte count is found behind it only. -/
structure DestOrdered (ce : Engine) (q : DestRing) : Prop where
  lt : q.readIndex.toNat < ce.destNentries.toNat
  read : distance ce.destNentries.toNat q.swIndex.toNat q.readIndex.toNat ≤
    distance ce.destNentries.toNat q.swIndex.toNat q.writeIndex.toNat
  filled : ∀ k < ce.destNentries.toNat, (q.desc k).nbytes ≠ 0 →
    distance ce.destNentries.toNat q.swIndex.toNat k <
      distance ce.destNentries.toNat q.swIndex.toNat q.readIndex.toNat

theorem plain_rx (hplain : ce.fastpath = false) : (ce.fastpathModeOn && ce.httRxData) = false := by
  unfold Engine.fastpath at hplain
  cases hf : ce.fastpathModeOn <;> cases ht : ce.httRxData <;> simp_all

theorem DestHolds.room_eq (h : DestHolds ce q bs) :
    (ceRingDelta ce.destMask q.writeIndex (q.swIndex - 1)).toNat =
      ce.destNentries.toNat - 1 - bs.length := by
  have hroom := toNat_room ce.destPow h.read_lt h.write_lt
  rw [h.distance_eq] at hroom
  exact hroom

structure Received (ce : Engine) (s s' : CeState) (bs bs' new done : List Buffer)
    (outs : List Out) : Prop where
  holds : DestHolds ce s'.dest bs'
  moved : Moved ce.destNentries.toNat s.dest.swIndex.toNat bs s'.dest.swIndex.toNat bs' new done
  src : s'.src = s.src
  queued : outs.filterMap Out.queued? = new
  recvDone : outs.filterMap Out.recvDone? = done
  sent : outs.filterMap Out.sent? = []
  sendDone : outs.filterMap Out.sendDone? = []

theorem Received.refl (h : DestHolds ce s.dest bs) : Received ce s s bs bs [] [] [] :=
  ⟨h, Moved.refl _ _ _, rfl, rfl, rfl, rfl, rfl⟩

theorem DestHolds.post (h : DestHolds ce q bs) (hroom : bs.length + 1 < ce.destNentries.toNat)
    (b : Buffer) (d : DestDesc) (hd : d.bufferAddr = b.bufferAddr) :
    DestHolds ce { q with
      desc := Function.update q.desc q.writeIndex.toNat d
      perTransferContext := Function.update q.perTransferContext q.writeIndex.toNat b.ctx
      writeIndex := ceRingIdxIncr ce.destMask q.writeIndex } (bs ++ [b]) := by
  have hincr : (ceRingIdxIncr ce.destMask q.writeIndex).toNat = _ :=
    toNat_incr ce.destPow h.write_lt
  have hpush := h.push b hroom
  rw [← hincr] at hpush
  refine cast (congrArg (fun mem => Holds mem _ _ _ _) ?_) hpush
  funext k
  unfold DestRing.buffer
  simp only [Function.update_apply]
  split
  · rw [hd]
  · rfl

theorem ceRecvBufEnqueue_received (hplain : ce.fastpath = false) (h : DestHolds ce s.dest bs)
    (ho : DestOrdered ce s.dest) (ctx buffer : UInt64) (access : Bool) :
    ∃ bs' new, Received ce s (ceRecvBufEnqueue ce s ctx buffer access).st bs bs' new []
        (ceRecvBufEnqueue ce s ctx buffer access).outs ∧
      DestOrdered ce (ceRecvBufEnqueue ce s ctx buffer access).st.dest := by
  have hroom := h.room_eq
  unfold ceRecvBufEnqueue
  split
  · exact ⟨bs, [], Received.refl h, ho⟩
  · rw [plain_rx hplain]
    split
    · rename_i hpos
      have hlt : bs.length + 1 < ce.destNentries.toNat := by
        have hpos' := hpos.resolve_right Bool.false_ne_true
        rw [UInt32.lt_iff_toNat_lt, hroom, UInt32.toNat_zero] at hpos'
        omega
      have hincr : (ceRingIdxIncr ce.destMask s.dest.writeIndex).toNat = _ :=
        toNat_incr ce.destPow h.write_lt
      have hpost := h.post hlt ⟨ctx, dmaAddr buffer⟩
        { s.dest.desc s.dest.writeIndex.toNat with bufferAddr := dmaAddr buffer, nbytes := 0 } rfl
      have hne : ceRingIdxIncr ce.destMask s.dest.writeIndex ≠ s.dest.swIndex := by
        intro heq
        have hnil := hpost.eq_iff.mp (congrArg UInt32.toNat heq.symm)
        exact List.append_ne_nil_of_right_ne_nil _ (List.cons_ne_nil _ _) hnil
      dsimp only
      rw [if_neg hne]
      refine ⟨bs ++ [⟨ctx, dmaAddr buffer⟩], [⟨ctx, dmaAddr buffer⟩],
        ⟨hpost, .pushed rfl rfl rfl, rfl, rfl, rfl, rfl, rfl⟩, ho.lt, ?_, ?_⟩
      · have hdist : distance ce.destNentries.toNat s.dest.swIndex.toNat
            (ceRingIdxIncr ce.destMask s.dest.writeIndex).toNat = _ := hpost.distance_eq
        have hold := h.distance_eq
        rw [List.length_append] at hdist
        have hmono : distance ce.destNentries.toNat s.dest.swIndex.toNat s.dest.writeIndex.toNat ≤
            distance ce.destNentries.toNat s.dest.swIndex.toNat
              (ceRingIdxIncr ce.destMask s.dest.writeIndex).toNat := by omega
        exact ho.read.trans hmono
      · intro k hk hbytes
        apply ho.filled k hk
        change (Function.update s.dest.desc s.dest.writeIndex.toNat _ k).nbytes ≠ 0 at hbytes
        rw [Function.update_apply] at hbytes
        split at hbytes
        · exact absurd rfl hbytes
        · exact hbytes
    · exact ⟨bs, [], Received.refl h, ho⟩

theorem DestHolds.take {b : Buffer} (h : DestHolds ce q (b :: bs)) (desc : ℕ → DestDesc)
    (haddr : ∀ k, (desc k).bufferAddr = (q.desc k).bufferAddr) :
    DestHolds ce (DestRing.take ce { q with desc := desc }) bs ∧
      (DestRing.take ce { q with desc := desc }).swIndex.toNat =
        wrap ce.destNentries.toNat (q.swIndex.toNat + 1) := by
  have hincr : (ceRingIdxIncr ce.destMask q.swIndex).toNat = _ :=
    toNat_incr ce.destPow h.read_lt
  have hpop := h.pop ⟨0, (q.desc q.swIndex.toNat).bufferAddr⟩
  rw [← hincr] at hpop
  refine ⟨cast (congrArg (fun mem => Holds mem _ _ _ _) ?_) hpop, hincr⟩
  funext k
  unfold DestRing.buffer DestRing.take
  simp only [Function.update_apply]
  split
  · rename_i heq
    rw [heq, haddr]
  · rw [haddr]

theorem ceCompletedRecvNext_received (h : DestHolds ce s.dest bs) (ho : DestOrdered ce s.dest) :
    ∃ bs' done, Received ce s (ceCompletedRecvNext ce s).st bs bs' [] done
        (ceCompletedRecvNext ce s).outs ∧
      DestOrdered ce (ceCompletedRecvNext ce s).st.dest := by
  unfold ceCompletedRecvNext
  dsimp only
  split
  · exact ⟨bs, [], Received.refl h, ho⟩
  · rename_i hbytes
    obtain ⟨hlt, hread, hfilled⟩ := ho
    have hsw : s.dest.swIndex.toNat < ce.destNentries.toNat := h.read_lt
    have hw : s.dest.writeIndex.toNat < ce.destNentries.toNat := h.write_lt
    have hpos := hfilled _ hsw hbytes
    rw [WordRing.distance_self] at hpos
    have hreadne : s.dest.swIndex.toNat ≠ s.dest.readIndex.toNat := by
      intro heq
      have := (WordRing.distance_eq_zero (w := s.dest.readIndex.toNat) hsw).mpr heq
      omega
    have hwritene : s.dest.swIndex.toNat ≠ s.dest.writeIndex.toNat := by
      intro heq
      have := (WordRing.distance_eq_zero (w := s.dest.writeIndex.toNat) hsw).mpr heq
      omega
    cases bs with
    | nil => exact absurd (h.eq_iff.mpr rfl) hwritene
    | cons b bs =>
      have hhead : s.dest.buffer s.dest.swIndex.toNat = b := h.head
      obtain ⟨desc, hdesc⟩ : ∃ desc, desc = Function.update s.dest.desc s.dest.swIndex.toNat
        { s.dest.desc s.dest.swIndex.toNat with nbytes := 0 } := ⟨_, rfl⟩
      have haddr : ∀ k, (desc k).bufferAddr = (s.dest.desc k).bufferAddr := by
        intro k
        rw [hdesc, Function.update_apply]
        split
        · rename_i heq
          rw [heq]
        · rfl
      obtain ⟨hholds, hwrap⟩ := h.take desc haddr
      unfold DestRing.buffer at hhead
      rw [hhead, ← hdesc]
      refine ⟨bs, [b], ⟨hholds, .popped b hwrap rfl rfl rfl, rfl, rfl, rfl, rfl, rfl⟩, hlt, ?_, ?_⟩
      · have hreaddist := WordRing.distance_succ_left hsw hlt hreadne
        have hwritedist := WordRing.distance_succ_left hsw hw hwritene
        have hle : distance ce.destNentries.toNat
              (wrap ce.destNentries.toNat (s.dest.swIndex.toNat + 1)) s.dest.readIndex.toNat ≤
            distance ce.destNentries.toNat
              (wrap ce.destNentries.toNat (s.dest.swIndex.toNat + 1)) s.dest.writeIndex.toNat := by
          omega
        rw [← hwrap] at hle
        exact hle
      · intro k hk hk'
        change (desc k).nbytes ≠ 0 at hk'
        rw [hdesc, Function.update_apply] at hk'
        split at hk'
        · exact absurd rfl hk'
        · rename_i hne
          have hold := hfilled k hk hk'
          have hkdist := WordRing.distance_succ_left hsw hk (Ne.symm hne)
          have hreaddist := WordRing.distance_succ_left hsw hlt hreadne
          have hlt' : distance ce.destNentries.toNat
                (wrap ce.destNentries.toNat (s.dest.swIndex.toNat + 1)) k <
              distance ce.destNentries.toNat
                (wrap ce.destNentries.toNat (s.dest.swIndex.toNat + 1)) s.dest.readIndex.toNat := by
            omega
          rw [← hwrap] at hlt'
          exact hlt'

theorem ceRevokeRecvNext_received (h : DestHolds ce s.dest bs) :
    ∃ done, Received ce s (ceRevokeRecvNext ce s).st bs bs.tail [] done
      (ceRevokeRecvNext ce s).outs := by
  unfold ceRevokeRecvNext
  cases bs with
  | nil =>
    have heq : s.dest.writeIndex = s.dest.swIndex :=
      (UInt32.toNat_inj.mp (h.eq_iff.mpr rfl)).symm
    rw [if_pos heq]
    exact ⟨[], Received.refl h⟩
  | cons b bs =>
    have hne : s.dest.writeIndex ≠ s.dest.swIndex := by
      intro heq
      have hnil := h.eq_iff.mp (congrArg UInt32.toNat heq.symm)
      cases hnil
    have hhead : s.dest.buffer s.dest.swIndex.toNat = b := h.head
    obtain ⟨hholds, hwrap⟩ := h.take s.dest.desc fun _ => rfl
    unfold DestRing.buffer at hhead
    rw [if_neg hne]
    dsimp only
    rw [hhead]
    exact ⟨[b], hholds, .popped b hwrap rfl rfl rfl, rfl, rfl, rfl, rfl, rfl⟩

theorem targetFill_dest (h : DestHolds ce s.dest bs) (nbytes metaData : UInt16) (swap : Bool) :
    DestHolds ce (targetFill ce s nbytes metaData swap).dest bs ∧
      (targetFill ce s nbytes metaData swap).dest.swIndex = s.dest.swIndex := by
  unfold targetFill
  split
  · exact ⟨h, rfl⟩
  · refine ⟨cast (congrArg (fun mem => Holds mem _ _ _ _) ?_) h, rfl⟩
    funext k
    unfold DestRing.buffer
    simp only [Function.update_apply]
    split
    · rename_i heq
      rw [heq]
    · rfl

theorem targetFill_src (s : CeState) (nbytes metaData : UInt16) (swap : Bool) :
    (targetFill ce s nbytes metaData swap).src = s.src := by
  unfold targetFill
  split <;> rfl

theorem DestOrdered.targetFill (h : DestOrdered ce s.dest) (hh : DestHolds ce s.dest bs)
    (nbytes metaData : UInt16) (swap : Bool) :
    DestOrdered ce (targetFill ce s nbytes metaData swap).dest := by
  unfold CopyEngine.targetFill
  split
  · exact h
  · rename_i hne
    obtain ⟨hlt, hread, hfilled⟩ := h
    have hsw : s.dest.swIndex.toNat < ce.destNentries.toNat := hh.read_lt
    have hw : s.dest.writeIndex.toNat < ce.destNentries.toNat := hh.write_lt
    have hincr : (ceRingIdxIncr ce.destMask s.dest.readIndex).toNat = _ := toNat_incr ce.destPow hlt
    have hdistne : distance ce.destNentries.toNat s.dest.swIndex.toNat s.dest.readIndex.toNat ≠
        distance ce.destNentries.toNat s.dest.swIndex.toNat s.dest.writeIndex.toNat :=
      fun heq => hne (UInt32.toNat_inj.mp (WordRing.distance_inj hsw hlt hw heq))
    have hwlt := WordRing.distance_lt hsw hw
    have hsucc := WordRing.distance_succ_right hsw hlt (by omega)
    rw [← hincr] at hsucc
    refine ⟨?_, ?_, ?_⟩
    · change (ceRingIdxIncr ce.destMask s.dest.readIndex).toNat < _
      rw [hincr]
      exact WordRing.wrap_lt (by omega)
    · change distance _ s.dest.swIndex.toNat (ceRingIdxIncr ce.destMask s.dest.readIndex).toNat ≤
        distance _ s.dest.swIndex.toNat s.dest.writeIndex.toNat
      omega
    · intro k hk hbytes
      change distance _ s.dest.swIndex.toNat k <
        distance _ s.dest.swIndex.toNat (ceRingIdxIncr ce.destMask s.dest.readIndex).toNat
      change (Function.update s.dest.desc s.dest.readIndex.toNat _ k).nbytes ≠ 0 at hbytes
      rw [Function.update_apply] at hbytes
      split at hbytes
      · rename_i heq
        rw [heq]
        omega
      · have := hfilled k hk hbytes
        omega

end KernelModules.CopyEngine
