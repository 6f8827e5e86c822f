import KernelModules.OlTxBooks

/-!
# What the scheduler takes from a queue

A batch and a discard take frames from the front of one queue that its category links. The queue
stays linked while it holds frames. All else that the scheduler does is to turn the lists round.
-/

namespace KernelModules.OlTx

open Ledger Rosters Function

theorem takeFrms_isPrefixOf (n credit creditSum : ℕ) (l : List TxDesc) :
    takeFrms n credit creditSum l ++ l.drop (takeFrms n credit creditSum l).length = l := by
  induction n generalizing creditSum l with
  | zero => rfl
  | succ n ih =>
    cases l with
    | nil => rfl
    | cons d l =>
      unfold takeFrms
      split_ifs
      · rfl
      · rw [List.length_cons, List.drop_succ_cons, List.cons_append, ih]

theorem bytesOf_append (l m : List TxDesc) : bytesOf (l ++ m) = bytesOf l + bytesOf m := by
  rw [bytesOf, bytesOf, bytesOf, List.map_append, List.sum_append]

/-- A queue that is active gives up frames and stays so while it has others. -/
structure Dequeued (t t' : Txq) (taken : List TxDesc) : Prop where
  ok : t'.Ok
  frms : t'.frms + taken.length = t.frms
  bytes : t'.bytes + bytesOf taken = t.bytes
  pausedTotal : t'.pausedTotal = t.pausedTotal
  active : t'.flag = .active ↔ 0 < t'.frms

theorem dequeue_spec {t : Txq} (h : t.Ok) (ha : t.flag = .active) (maxFrames credit : ℕ) :
    Dequeued t (dequeue t maxFrames credit).1 (dequeue t maxFrames credit).2 := by
  obtain ⟨taken, htaken⟩ : ∃ taken, taken = takeFrms (min t.frms maxFrames) credit 0 t.head :=
    ⟨_, rfl⟩
  have hsplit : taken ++ t.head.drop taken.length = t.head :=
    htaken ▸ takeFrms_isPrefixOf (min t.frms maxFrames) credit 0 t.head
  have hlen : (t.head.drop taken.length).length = t.frms - taken.length := by
    rw [List.length_drop, h.frms]
  have hle : taken.length ≤ t.frms := by
    rw [h.frms, ← congrArg List.length hsplit, List.length_append]
    omega
  have hbytes : t.bytes = bytesOf taken + bytesOf (t.head.drop taken.length) := by
    rw [h.bytes, ← bytesOf_append, hsplit]
  have hzero := (h.active.mp ha).1
  unfold dequeue
  rw [← htaken]
  dsimp only
  rw [ha]
  by_cases hnone : t.frms - taken.length = 0
  · rw [if_pos ⟨hnone, rfl⟩]
    refine ⟨⟨?_, ?_, hlen.symm, ?_, h.lt⟩, ?_, ?_, rfl, ?_⟩
    · exact iff_of_false QueueStatus.noConfusion fun hpos => hpos.ne' hzero
    · exact iff_of_false QueueStatus.noConfusion fun hand => hand.2.ne' hnone
    · dsimp only
      omega
    · dsimp only
      omega
    · dsimp only
      omega
    · exact iff_of_false QueueStatus.noConfusion fun hpos => hpos.ne' hnone
  · rw [if_neg fun hand => hnone hand.1]
    refine ⟨⟨?_, ?_, hlen.symm, ?_, h.lt⟩, ?_, ?_, rfl, ?_⟩
    · exact iff_of_false QueueStatus.noConfusion fun hpos => hpos.ne' hzero
    · exact iff_of_true rfl ⟨hzero, Nat.pos_of_ne_zero hnone⟩
    · dsimp only
      omega
    · dsimp only
      omega
    · dsimp only
      omega
    · exact iff_of_true rfl (Nat.pos_of_ne_zero hnone)

section

variable {p : Pdev} {q : TxqId} {c : Cat}

/-- What a batch does to the queues: a linked queue gives up frames from its front. -/
structure Served (p p' : Pdev) (c : Cat) (q : TxqId) (taken : List TxDesc) : Prop where
  linked : Links p.txq c q
  dequeued : Dequeued (p.txq q) (p'.txq q) taken
  head : (p.txq q).head = taken ++ (p'.txq q).head
  other : ∀ b, b ≠ q → p'.txq b = p.txq b
  sent : p'.sent = p.sent ++ taken.map fun d => ⟨q, d, (p.txq q).pausedTotal⟩

variable {rest : List TxqId}

theorem Books.links (h : Books p) (hhead : (p.categories c).head = q :: rest) :
    Links p.txq c q := ((h.fair c).lists.mem q).mp (hhead ▸ List.mem_cons_self)

theorem Books.serveTxq_served (h : Books p) (env : Env) (credit : ℕ)
    (hhead : (p.categories c).head = q :: rest) :
    Served p (serveTxq env p c q rest credit).2.1 c q
      (takeFrms (min (p.txq q).frms (badPeerDequeueCheck env q (env.specs c).sendLimit))
        (credit - (env.specs c).creditReserve) 0 (p.txq q).head) := by
  have hlink := h.links hhead
  have hspec := dequeue_spec (h.ok q) hlink.2
    (badPeerDequeueCheck env q (env.specs c).sendLimit) (credit - (env.specs c).creditReserve)
  have htxq : (serveTxq env p c q rest credit).2.1.txq = update p.txq q
      (dequeue (p.txq q) (badPeerDequeueCheck env q (env.specs c).sendLimit)
        (credit - (env.specs c).creditReserve)).1 := rfl
  refine ⟨hlink, ?_, ?_, ?_, rfl⟩
  · rw [htxq, update_self]
    exact hspec
  · rw [htxq, update_self]
    exact (takeFrms_isPrefixOf ..).symm
  · intro b hb
    rw [htxq, update_of_ne hb]

theorem Books.serveTxq (h : Books p) (env : Env) (credit : ℕ)
    (hhead : (p.categories c).head = q :: rest) : Books (serveTxq env p c q rest credit).2.1 := by
  obtain ⟨hc, ha⟩ := h.links hhead
  unfold OlTx.serveTxq
  dsimp only
  obtain ⟨served, hserved⟩ : ∃ served, served = dequeue (p.txq q)
    (badPeerDequeueCheck env q (env.specs c).sendLimit)
    (credit - (env.specs c).creditReserve) := ⟨_, rfl⟩
  have hspec : Dequeued (p.txq q) served.1 served.2 := hserved ▸ dequeue_spec (h.ok q) ha ..
  rw [← hserved]
  refine h.change (q := q) rfl hspec.ok (fun b hb => ?_) ?_
  · exact update_of_ne (hc ▸ hb) ..
  · rw [setCategory_categories, hc, update_self]
    have hfrms := hspec.frms
    have hbytes := hspec.bytes
    by_cases hpos : 0 < served.1.frms
    · rw [if_pos hpos]
      refine (h.fair c).stay ⟨hc, ha⟩ (hspec.active.mpr hpos) ?_ ?_ ?_ rfl
      · rw [hhead]
        exact List.perm_append_singleton q rest
      · dsimp only
        omega
      · dsimp only
        omega
    · have hnil : bytesOf served.1.head = 0 := by
        rw [List.length_eq_zero_iff.mp (hspec.ok.frms.symm.trans (by omega))]
        rfl
      have hbytes0 := hspec.ok.bytes
      rw [if_neg hpos]
      refine (h.fair c).leave ⟨hc, ha⟩ (fun hact => hpos (hspec.active.mp hact)) h.pos ?_ ?_ ?_ rfl
      · rw [hhead, List.erase_cons_head]
      · dsimp only
        omega
      · dsimp only
        omega

theorem Inv.serveTxq (h : Inv p) (env : Env) (credit : ℕ)
    (hhead : (p.categories c).head = q :: rest) : Inv (serveTxq env p c q rest credit).2.1 := by
  have hbooks := h.books.serveTxq env credit hhead
  have hserved := h.books.serveTxq_served env credit hhead
  have hzero := ((h.ok q).active.mp hserved.linked.2).1
  refine ⟨hbooks.ok, fun v k => ?_, hbooks.fair, fun e he => ?_⟩
  · by_cases hb : TxqId.vdev v k = q
    · rw [hb, hserved.dequeued.pausedTotal, hzero]
    · rw [hserved.other _ hb]
      exact h.vdev v k
  · rw [hserved.sent] at he
    rcases List.mem_append.mp he with hold | hnew
    · exact h.sent e hold
    · obtain ⟨d, -, rfl⟩ := List.mem_map.mp hnew
      exact hzero

theorem Inv.serveCategory (h : Inv p) (credit fuel : ℕ) (firstTxq : Option TxqId) (env : Env) :
    Inv (serveCategory c credit fuel firstTxq env p).2.1 := by
  induction fuel generalizing p firstTxq with
  | zero => exact h
  | succ fuel ih =>
    unfold OlTx.serveCategory
    split
    · exact h
    next q rest hhead =>
      dsimp only
      split_ifs
      · exact h.serveTxq env _ hhead
      · refine ih (h.setCategory ((h.fair c).perm ?_)) _
        rw [hhead]
        exact List.perm_append_singleton q rest
      · exact h

theorem Inv.setWrrCount (h : Inv p) (c : Cat) (wrrCount : ℤ) :
    Inv (p.setCategory c { p.categories c with wrrCount := wrrCount }) :=
  h.setCategory ((h.fair c).congr rfl rfl rfl rfl)

theorem Inv.setOrder (h : Inv p) (order : List Cat) (index : ℕ) :
    Inv { p with order := order, index := index } := ⟨h.ok, h.vdev, h.fair, h.sent⟩

theorem Inv.pickCategory (h : Inv p) (specs : Cat → Specs) (fuel index : ℕ) :
    Inv (pickCategory specs fuel p index).1 := by
  induction fuel generalizing p index with
  | zero => exact h
  | succ fuel ih =>
    unfold OlTx.pickCategory
    split
    · exact h
    next c hc =>
      dsimp only
      split_ifs
      · exact ih h _
      · exact ih ((h.setWrrCount c _).setOrder _ p.index) _
      · exact h.setWrrCount c _

theorem Inv.selectBatch (h : Inv p) (env : Env) (credit : ℕ) :
    Inv (selectBatch env p credit).2.1 := by
  have hpick := h.pickCategory env.specs (pickFuel env.specs p) p.index
  unfold OlTx.selectBatch
  split
  next p' heq =>
    rw [heq] at hpick
    exact hpick
  next p' index c heq =>
    rw [heq] at hpick
    split_ifs
    · exact hpick.setWrrCount c _
    · exact ((hpick.setWrrCount c 0).setOrder _ index).serveCategory credit _ none env

theorem Inv.schedLoop (h : Inv p) (fuel : ℕ) (env : Env) : Inv (schedLoop fuel env p).2 := by
  induction fuel generalizing p env with
  | zero => exact h
  | succ fuel ih =>
    unfold OlTx.schedLoop
    dsimp only
    split_ifs
    · exact h
    · exact h.selectBatch env _
    · exact ih (h.selectBatch env _) _

theorem Inv.sched (h : Inv p) (env : Env) : Inv (sched env p).2 :=
  (h.setOrder p.order 0).schedLoop _ env

theorem rotateOrderListTail_length (order : List Cat) (idx : ℕ) :
    (rotateOrderListTail order idx).length = order.length := by
  unfold rotateOrderListTail
  split
  · rfl
  next value heq =>
    have hlt : idx < order.length := (List.getElem?_eq_some_iff.mp heq).1
    rw [List.length_append, List.length_eraseIdx_of_lt hlt, List.length_singleton]
    omega

theorem Cat.mem_all (c : Cat) : c ∈ Cat.all := by cases c <;> decide

def passes (specs : Cat → Specs) (p : Pdev) : ℕ :=
  total (fun c => ((specs c).wrrSkipWeight - (p.categories c).wrrCount).toNat) Cat.all

theorem passes_lt {specs : Cat → Specs} (cat : Category)
    (hskip : (p.categories c).wrrCount + 1 < (specs c).wrrSkipWeight)
    (hcat : cat.wrrCount = (p.categories c).wrrCount + 1) :
    passes specs (p.setCategory c cat) < passes specs p := by
  have hnodup : Cat.all.Nodup := by decide
  have hsum := total_of_ne
    (f := fun b => ((specs b).wrrSkipWeight - (p.categories b).wrrCount).toNat)
    (g := fun b => ((specs b).wrrSkipWeight - (update p.categories c cat b).wrrCount).toNat)
    hnodup c.mem_all fun b _ hb => by rw [update_of_ne hb]
  rw [update_self, hcat] at hsum
  unfold passes
  rw [setCategory_categories]
  omega

theorem pickCategory_fuel (specs : Cat → Specs) (fuel index : ℕ)
    (h : p.order.length - index + passes specs p < fuel) :
    pickCategory specs (fuel + 1) p index = pickCategory specs fuel p index := by
  induction fuel generalizing p index with
  | zero => omega
  | succ fuel ih =>
    conv_lhs => rw [OlTx.pickCategory]
    conv_rhs => rw [OlTx.pickCategory]
    cases hc : p.order[index]? with
    | none => rfl
    | some c =>
      have hlt : index < p.order.length := (List.getElem?_eq_some_iff.mp hc).1
      dsimp only
      split_ifs with hactive hskip
      · exact ih (index + 1) (by omega)
      · refine ih index ?_
        have hpass := passes_lt ⟨(p.categories c).wrrCount + 1, (p.categories c).frms,
          (p.categories c).bytes, (p.categories c).head, (p.categories c).active⟩ hskip rfl
        rw [rotateOrderListTail_length]
        change p.order.length - index + passes specs (p.setCategory c _) < fuel
        exact (Nat.add_lt_add_left hpass _).trans_le (Nat.le_of_lt_succ h)
      · rfl

theorem serveCategory_fuel_some (credit fuel : ℕ) (env : Env) {a b : List TxqId}
    (hhead : (p.categories c).head = a ++ q :: b) (h : a.length < fuel) :
    serveCategory c credit (fuel + 1) (some q) env p =
      serveCategory c credit fuel (some q) env p := by
  induction fuel generalizing p a b with
  | zero => omega
  | succ fuel ih =>
    conv_lhs => rw [OlTx.serveCategory]
    conv_rhs => rw [OlTx.serveCategory]
    cases a with
    | nil =>
      rw [hhead]
      dsimp only [List.nil_append]
      rw [if_neg (not_not_intro (rfl : some q = some q)),
        if_neg (not_not_intro (rfl : some q = some q))]
    | cons x a =>
      rw [hhead]
      dsimp only [List.cons_append, Option.getD_some]
      rw [ih (a := a) (b := b ++ [x])]
      · rw [setCategory_categories, update_self, List.append_assoc, List.cons_append]
      · exact Nat.lt_of_succ_lt_succ h

theorem serveCategory_fuel (credit fuel : ℕ) (env : Env)
    (h : (p.categories c).head.length < fuel) :
    serveCategory c credit (fuel + 1) none env p = serveCategory c credit fuel none env p := by
  cases fuel with
  | zero => omega
  | succ fuel =>
    conv_lhs => rw [OlTx.serveCategory]
    conv_rhs => rw [OlTx.serveCategory]
    cases hhead : (p.categories c).head with
    | nil => rfl
    | cons q rest =>
      rw [hhead] at h
      dsimp only [Option.getD_none]
      rw [serveCategory_fuel_some (a := rest) (b := [])]
      · rw [setCategory_categories, update_self]
      · exact Nat.lt_of_succ_lt_succ h

theorem serveTxq_target (env : Env) (rest : List TxqId) (credit : ℕ) :
    (serveTxq env p c q rest credit).1.targetTxCredit = env.targetTxCredit := by
  unfold OlTx.serveTxq groupCreditUpdate badPeerUpdateTxLimit
  dsimp only
  repeat' split
  all_goals rfl

theorem serveCategory_target (credit fuel : ℕ) (firstTxq : Option TxqId) (env : Env) :
    (serveCategory c credit fuel firstTxq env p).1.targetTxCredit = env.targetTxCredit := by
  induction fuel generalizing p firstTxq with
  | zero => rfl
  | succ fuel ih =>
    unfold OlTx.serveCategory
    split
    · rfl
    · dsimp only
      split_ifs
      · exact serveTxq_target ..
      · exact ih _
      · rfl

theorem selectBatch_target (env : Env) (credit : ℕ) :
    (selectBatch env p credit).1.targetTxCredit = env.targetTxCredit := by
  unfold OlTx.selectBatch
  split
  · rfl
  · split_ifs
    · rfl
    · exact serveCategory_target ..

theorem schedLoop_fuel (fuel : ℕ) (env : Env) (h : env.targetTxCredit.toNat ≤ fuel) :
    schedLoop (fuel + 1) env p = schedLoop fuel env p := by
  induction fuel generalizing p env with
  | zero =>
    rw [OlTx.schedLoop, OlTx.schedLoop, if_pos (Int.toNat_eq_zero.mp (Nat.le_zero.mp h))]
  | succ fuel ih =>
    conv_lhs => rw [OlTx.schedLoop]
    conv_rhs => rw [OlTx.schedLoop]
    dsimp only
    split_ifs with hnone hused
    · rfl
    · rfl
    · refine ih _ ?_
      dsimp only
      rw [selectBatch_target]
      omega

theorem discardSelectTxq_mem {txq : TxqId → Txq} {l : List TxqId}
    (h : discardSelectTxq txq l = some q) : q ∈ l := by
  have hfold : ∀ (best : ℕ × Option TxqId) (l : List TxqId),
      (l.foldl (fun best b => if (txq b).frms > best.1 then ((txq b).frms, some b) else best)
        best).2 = some q → q ∈ l ∨ best.2 = some q := by
    intro best l
    induction l generalizing best with
    | nil => exact Or.inr
    | cons b l ih =>
      rw [List.foldl_cons]
      intro hq
      rcases ih _ hq with hmem | hbest
      · exact Or.inl (List.mem_cons_of_mem b hmem)
      · split_ifs at hbest
        · exact Or.inl (Option.some.inj hbest ▸ List.mem_cons_self)
        · exact Or.inr hbest
  rcases hfold (0, none) l h with hmem | hnone
  · exact hmem
  · cases hnone

theorem Inv.discardSelect (h : Inv p) (specs : Cat → Specs) (frms : ℕ) (force : Bool) :
    Inv (discardSelect specs p frms force).1 := by
  unfold OlTx.discardSelect
  obtain ⟨c, hc⟩ : ∃ c, c = discardSelectCategory specs p := ⟨_, rfl⟩
  rw [← hc]
  dsimp only
  split
  · exact h
  next q hq =>
    have hlink : Links p.txq c q := ((h.fair c).lists.mem q).mp (discardSelectTxq_mem hq)
    obtain ⟨hcat, ha⟩ := hlink
    have hzero := ((h.ok q).active.mp ha).1
    obtain ⟨dropped, hdropped⟩ : ∃ dropped, dropped = dequeue (p.txq q)
      (discardFrms force (p.txq q).frms frms) 10000 := ⟨_, rfl⟩
    have hspec : Dequeued (p.txq q) dropped.1 dropped.2 :=
      hdropped ▸ dequeue_spec (h.ok q) ha ..
    have hfrms := hspec.frms
    have hbytes := hspec.bytes
    rw [← hdropped]
    unfold txqDiscard
    rw [setTxq_txq, update_self]
    by_cases hnone : dropped.1.frms = 0
    · have hnil : bytesOf dropped.1.head = 0 := by
        rw [List.length_eq_zero_iff.mp (hspec.ok.frms.symm.trans hnone)]
        rfl
      have hbytes0 := hspec.ok.bytes
      rw [if_pos hnone]
      refine h.change (q := q) rfl hspec.ok (fun v k _ => hspec.pausedTotal.trans hzero)
        (fun b hb => ?_) ?_ h.sent
      · exact (update_of_ne (hcat ▸ hb) ..).trans (h.tailqRemove_of_ne hb)
      · rw [hcat, setCategory_categories, update_self]
        refine (h.fair c).leave ⟨hcat, ha⟩
          (fun hact => (hspec.active.mp hact).ne' hnone) h.pos rfl ?_ ?_ rfl
        · change (p.categories c).frms - _ = _
          omega
        · change (p.categories c).bytes - _ = _
          omega
    · have hpos : 0 < dropped.1.frms := Nat.pos_of_ne_zero hnone
      rw [if_neg hnone]
      refine h.change (q := q) rfl hspec.ok (fun v k _ => hspec.pausedTotal.trans hzero)
        (fun b hb => update_of_ne (hcat ▸ hb) ..) ?_ h.sent
      rw [hcat, setCategory_categories, update_self]
      refine (h.fair c).stay ⟨hcat, ha⟩ (hspec.active.mpr hpos) (.refl _) ?_ ?_ ?_
      · change (p.categories c).frms - _ = _
        omega
      · change (p.categories c).bytes - _ = _
        omega
      · -- the queue still counts, so the category does not come down to zero
        have hle : (p.txq q).frms ≤ total (fun b => (p.txq b).frms) (p.categories c).head :=
          Ledger.le_total (f := fun b => (p.txq b).frms) (discardSelectTxq_mem hq)
        have hsum := (h.fair c).frms
        refine if_neg fun hzero' => ?_
        change (p.categories c).frms - _ = 0 at hzero'
        omega

theorem Inv.discardLoop (h : Inv p) (specs : Cat → Specs) (force : Bool) (fuel num : ℕ) :
    Inv (discardLoop specs force fuel num p) := by
  induction fuel generalizing p num with
  | zero => exact h
  | succ fuel ih =>
    unfold OlTx.discardLoop
    dsimp only
    split_ifs
    · exact h
    · exact h.discardSelect specs num force
    · exact ih (h.discardSelect specs num force) _

theorem Inv.queueDiscard (h : Inv p) (specs : Cat → Specs) (flushAll : Bool) (num : ℕ) :
    Inv (queueDiscard specs flushAll num p) := h.discardLoop specs flushAll num num

theorem Inv.enqueue (h : Inv p) (specs : Cat → Specs) (discard : Option ℕ) (q : TxqId)
    (d : TxDesc) : Inv (enqueue specs discard p q d) := by
  cases discard with
  | none => exact h.enqueueTxq q d
  | some num => exact (h.queueDiscard specs false num).enqueueTxq q d

/-- A pause is taken back; with the last one, a queue that holds frames is linked again and the
scheduler runs. -/
theorem Inv.peerTidUnpauseBase (h : Inv p) (env : Env) (peer : ℕ) (tid : Fin 18) :
    Inv (peerTidUnpauseBase env p peer tid).2 := by
  obtain ⟨q, hq⟩ : ∃ q, q = TxqId.peer peer tid := ⟨_, rfl⟩
  have hok := h.ok q
  have htid : tidToAc tid = q.category := by rw [hq]; rfl
  unfold OlTx.peerTidUnpauseBase
  simp only [← hq]
  by_cases hzero : (p.txq q).pausedTotal = 0
  · rw [if_pos hzero]
    exact h
  · have hpaused : (p.txq q).flag = .paused := hok.paused.mpr (Nat.pos_of_ne_zero hzero)
    have hna : (p.txq q).flag ≠ .active := hpaused ▸ QueueStatus.noConfusion
    have hlt := hok.lt
    rw [if_neg hzero]
    by_cases hone : (p.txq q).pausedTotal = 1
    · rw [if_pos hone]
      by_cases hnone : (p.txq q).frms = 0
      · rw [if_pos hnone, setTxq_setTxq, setTxq_txq, update_self]
        refine h.away hna QueueStatus.noConfusion ?_ fun v k _ => Nat.sub_eq_zero_of_le hone.le
        refine ⟨iff_of_false QueueStatus.noConfusion fun hpos => ?_,
          iff_of_false QueueStatus.noConfusion fun hand => hand.2.ne' hnone, hok.frms, hok.bytes,
          by dsimp only; omega⟩
        dsimp only at hpos
        omega
      · rw [if_neg hnone]
        refine Inv.sched ?_ env
        have hnew : Txq.Ok { p.txq q with
            pausedTotal := (p.txq q).pausedTotal - 1, flag := .active } := by
          refine ⟨iff_of_false QueueStatus.noConfusion fun hpos => ?_, iff_of_true rfl
            ⟨Nat.sub_eq_zero_of_le hone.le, Nat.pos_of_ne_zero hnone⟩, hok.frms, hok.bytes,
            by dsimp only; omega⟩
          dsimp only at hpos
          omega
        refine h.change (q := q) ?_ hnew (fun v k _ => Nat.sub_eq_zero_of_le hone.le)
          (fun c hc => ?_) ?_ ?_
        · simp only [setTxq_txq, txqEnqueue_txq, update_idem, update_self]
        · rw [setTxq_categories, txqEnqueue_other _ _ (htid ▸ hc), setTxq_categories]
        · rw [setTxq_categories, ← htid, txqEnqueue_own, setTxq_txq, update_self,
            if_pos hna, setTxq_categories]
          exact (h.fair _).join hna htid.symm rfl rfl rfl rfl rfl
        · rw [setTxq_sent, txqEnqueue_sent, setTxq_sent]
          exact h.sent
    · rw [if_neg hone]
      refine h.away hna hna ?_ fun v k heq => absurd (heq.symm.trans hq) TxqId.noConfusion
      refine ⟨iff_of_true hpaused ?_, iff_of_false hna fun hand => ?_, hok.frms, hok.bytes,
        by dsimp only; omega⟩
      · dsimp only
        omega
      · have := hand.1
        dsimp only at this
        omega

end

end KernelModules.OlTx
