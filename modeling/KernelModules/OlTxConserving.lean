import KernelModules.OlTxSched

/-!
# The round robin leaves no credit unused

To pick a category, inactive ones are passed for the rest of the run, and an active one whose turn
has not come goes to the end of the order with its count raised. A run goes on until a batch uses no
credit: then no category is active, or the one that has its turn needs more than is left. Group
credits and the limits of slow peers may stop a batch too, so a run is looked at without them.
-/

namespace KernelModules.OlTx

open Ledger Rosters Function

theorem rotateOrderListTail_perm (order : List Cat) (idx : ℕ) :
    (rotateOrderListTail order idx).Perm order := by
  unfold rotateOrderListTail
  split
  · exact List.Perm.refl order
  next value heq =>
    obtain ⟨hlt, rfl⟩ := List.getElem?_eq_some_iff.mp heq
    exact (List.perm_append_singleton _ _).trans (List.getElem_cons_eraseIdx_perm hlt)

theorem take_rotateOrderListTail (order : List Cat) (idx : ℕ) :
    (rotateOrderListTail order idx).take idx = order.take idx := by
  unfold rotateOrderListTail
  split
  · rfl
  next value heq =>
    have hlt : idx < order.length := (List.getElem?_eq_some_iff.mp heq).1
    have hlen : (order.take idx).length = idx := List.length_take_of_le hlt.le
    rw [List.eraseIdx_eq_take_drop_succ, List.append_assoc, List.take_append_of_le_length hlen.ge,
      List.take_of_length_le hlen.le]

/-- Only the counts and the order have changed. -/
structure Turned (p p' : Pdev) : Prop where
  txq : p'.txq = p.txq
  sent : p'.sent = p.sent
  index : p'.index = p.index
  order : p'.order.Perm p.order
  category : ∀ c, ∃ wrrCount, p'.categories c = { p.categories c with wrrCount := wrrCount }

/-- The categories at the places before `index` have nothing to send. -/
def Passed (p : Pdev) (index : ℕ) : Prop :=
  ∀ c ∈ p.order.take index, (p.categories c).active = false

section

variable {p p' p'' : Pdev} {c : Cat} {q : TxqId} {specs : Cat → Specs} {env : Env}

theorem Turned.refl (p : Pdev) : Turned p p := ⟨rfl, rfl, rfl, .refl _, fun _ => ⟨_, rfl⟩⟩

theorem Turned.trans (h : Turned p p') (h' : Turned p' p'') : Turned p p'' := by
  refine ⟨h'.txq.trans h.txq, h'.sent.trans h.sent, h'.index.trans h.index,
    h'.order.trans h.order, fun c => ?_⟩
  obtain ⟨m, hm⟩ := h.category c
  obtain ⟨n, hn⟩ := h'.category c
  exact ⟨n, by rw [hn, hm]⟩

theorem Turned.active (h : Turned p p') (c : Cat) :
    (p'.categories c).active = (p.categories c).active := by
  obtain ⟨n, hn⟩ := h.category c
  rw [hn]

theorem Turned.books (h : Turned p p') (hp : Books p) : Books p' := by
  refine ⟨fun q => h.txq ▸ hp.ok q, fun c => ?_⟩
  obtain ⟨n, hn⟩ := h.category c
  rw [hn, h.txq]
  exact (hp.fair c).congr rfl rfl rfl rfl

theorem turned_setWrrCount (p : Pdev) (c : Cat) (n : ℤ) :
    Turned p (p.setCategory c { p.categories c with wrrCount := n }) := by
  refine ⟨rfl, rfl, rfl, .refl _, fun b => ?_⟩
  by_cases hb : b = c
  · exact ⟨n, by rw [hb, setCategory_categories, update_self]⟩
  · exact ⟨_, by rw [setCategory_categories, update_of_ne hb]⟩

theorem turned_rotate (p : Pdev) (idx : ℕ) :
    Turned p { p with order := rotateOrderListTail p.order idx } :=
  ⟨rfl, rfl, rfl, rotateOrderListTail_perm p.order idx, fun _ => ⟨_, rfl⟩⟩

theorem Passed.turned {index : ℕ} (h : Passed p index) (ht : Turned p p')
    (htake : p'.order.take index = p.order.take index) : Passed p' index := by
  intro c hc
  rw [ht.active]
  exact h c (htake ▸ hc)

/-- Either no category from the index on is active, or one is picked whose turn it is. What is passed
stays passed. -/
theorem pickCategory_spec {fuel k : ℕ}
    (h : p.order.length - k + passes specs p < fuel) :
    ∃ p', Turned p p' ∧
      (pickCategory specs fuel p k = (p', none) ∧
          (Passed p k → Passed p' p'.order.length) ∨
        ∃ i c, pickCategory specs fuel p k = (p', some (i, c)) ∧ p'.order[i]? = some c ∧
          (p'.categories c).active = true ∧ (Passed p k → Passed p' i)) := by
  induction fuel generalizing p k with
  | zero => omega
  | succ fuel ih =>
    unfold OlTx.pickCategory
    cases hc : p.order[k]? with
    | none =>
      refine ⟨p, .refl p, .inl ⟨rfl, fun hpassed c hc' => hpassed c ?_⟩⟩
      rw [List.take_of_length_le (List.getElem?_eq_none_iff.mp hc)]
      rwa [List.take_length] at hc'
    | some c =>
      have hlt : k < p.order.length := (List.getElem?_eq_some_iff.mp hc).1
      have hraised := turned_setWrrCount p c ((p.categories c).wrrCount + 1)
      dsimp only
      by_cases hactive : (p.categories c).active = false
      · rw [if_pos hactive]
        have hpassed (h : Passed p k) : Passed p (k + 1) := by
          intro b hb
          rw [List.take_add_one, hc] at hb
          rcases List.mem_append.mp hb with hb | hb
          · exact h b hb
          · rw [List.mem_singleton.mp hb]
            exact hactive
        obtain ⟨p', ht, ⟨heq, hall⟩ | ⟨i, b, heq, hb, hact, hbefore⟩⟩ :=
          ih (p := p) (k := k + 1) (by omega)
        · exact ⟨p', ht, .inl ⟨heq, fun h => hall (hpassed h)⟩⟩
        · exact ⟨p', ht, .inr ⟨i, b, heq, hb, hact, fun h => hbefore (hpassed h)⟩⟩
      · rw [if_neg hactive]
        by_cases hskip : (p.categories c).wrrCount + 1 < (specs c).wrrSkipWeight
        · rw [if_pos hskip]
          have hturned := hraised.trans (turned_rotate _ k)
          have hpassed (h : Passed p k) := h.turned hturned (take_rotateOrderListTail ..)
          have hpass := passes_lt (p := p) { p.categories c with
            wrrCount := (p.categories c).wrrCount + 1 } hskip rfl
          obtain ⟨p', ht, ⟨heq, hall⟩ | ⟨i, b, heq, hb, hact, hbefore⟩⟩ := ih (k := k)
            (p := { p.setCategory c { p.categories c with
              wrrCount := (p.categories c).wrrCount + 1 } with
              order := rotateOrderListTail p.order k })
            (by
              rw [rotateOrderListTail_length]
              exact (Nat.add_lt_add_left hpass _).trans_le (Nat.le_of_lt_succ h))
          · exact ⟨p', hturned.trans ht, .inl ⟨heq, fun h => hall (hpassed h)⟩⟩
          · exact ⟨p', hturned.trans ht,
              .inr ⟨i, b, heq, hb, hact, fun h => hbefore (hpassed h)⟩⟩
        · rw [if_neg hskip]
          refine ⟨_, hraised, .inr ⟨k, c, rfl, hc, ?_, fun h => h.turned hraised rfl⟩⟩
          rw [hraised.active]
          exact Bool.eq_true_of_not_eq_false hactive

theorem pickFuel_enough (specs : Cat → Specs) (p : Pdev) (index : ℕ) :
    p.order.length - index + passes specs p < pickFuel specs p := by
  have hsum : pickFuel specs p = p.order.length + 1 + passes specs p := rfl
  omega

/-- The outcome of a batch: nothing was taken, or frames from the front of one linked queue. -/
structure Drawn (p : Pdev) (credit : ℕ) (r : Pdev × ℕ) : Prop where
  books : Books r.1
  order : r.1.order.Perm p.order
  used_le : r.2 ≤ credit
  taken : r.1.txq = p.txq ∧ r.1.sent = p.sent ∧ r.2 = 0 ∨
    ∃ c q taken, Served p r.1 c q taken ∧ r.2 = creditOf taken

variable {credit : ℕ}

theorem Drawn.of_same {r : Pdev × ℕ} (h : Drawn p' credit r) (htxq : p'.txq = p.txq)
    (hsent : p'.sent = p.sent) (horder : p'.order.Perm p.order) : Drawn p credit r := by
  refine ⟨h.books, h.order.trans horder, h.used_le, ?_⟩
  rcases h.taken with ⟨htxq', hsent', hused⟩ | ⟨c, q, taken, hserved, hused⟩
  · exact .inl ⟨htxq'.trans htxq, hsent'.trans hsent, hused⟩
  · obtain ⟨hlinked, hdequeued, hhead, hother, hsent'⟩ := hserved
    rw [htxq] at hlinked hdequeued hhead hother hsent'
    rw [hsent] at hsent'
    exact .inr ⟨c, q, taken, ⟨hlinked, hdequeued, hhead, hother, hsent'⟩, hused⟩

theorem Books.drawn_self (h : Books p) (credit : ℕ) : Drawn p credit (p, 0) :=
  ⟨h, .refl _, Nat.zero_le _, .inl ⟨rfl, rfl, rfl⟩⟩

theorem creditOf_cons (d : TxDesc) (ds : List TxDesc) :
    creditOf (d :: ds) = d.credit + creditOf ds := List.sum_cons

theorem creditOf_takeFrms_le (n : ℕ) {creditSum : ℕ} (l : List TxDesc)
    (h : creditSum ≤ credit) : creditSum + creditOf (takeFrms n credit creditSum l) ≤ credit := by
  induction n generalizing creditSum l with
  | zero => exact h
  | succ n ih =>
    cases l with
    | nil => exact h
    | cons d l =>
      unfold takeFrms
      split_ifs with hover
      · exact h
      · rw [creditOf_cons, ← Nat.add_assoc]
        exact ih l (not_lt.mp hover)

theorem groupCreditLimit_le (env : Env) (q : TxqId) (credit : ℕ) :
    groupCreditLimit env q credit ≤ credit := by
  unfold groupCreditLimit
  split
  · exact le_refl credit
  · rw [Int.toNat_le]
    exact min_le_left _ _

variable {rest : List TxqId} {s s' : Env × Pdev}

theorem Books.serveTxq_drawn (h : Books p) (env : Env) {limited : ℕ}
    (hhead : (p.categories c).head = q :: rest) (hlimited : limited ≤ credit) :
    Drawn p credit (OlTx.serveTxq env p c q rest limited).2 := by
  refine ⟨h.serveTxq env limited hhead, .refl _, ?_,
    .inr ⟨c, q, _, h.serveTxq_served env limited hhead, rfl⟩⟩
  have hle := creditOf_takeFrms_le (min (p.txq q).frms
    (badPeerDequeueCheck env q (env.specs c).sendLimit)) (p.txq q).head
    (Nat.zero_le (limited - (env.specs c).creditReserve))
  change creditOf _ ≤ credit
  exact (Nat.zero_add _ ▸ hle).trans ((Nat.sub_le _ _).trans hlimited)

theorem Books.rotate (h : Books p) (hhead : (p.categories c).head = q :: rest) :
    Books (p.setCategory c { p.categories c with head := rest ++ [q] }) := by
  refine h.setCategory ((h.fair c).perm ?_)
  rw [hhead]
  exact List.perm_append_singleton q rest

theorem Books.serveCategory_drawn (h : Books p) (credit fuel : ℕ) (firstTxq : Option TxqId)
    (env : Env) : Drawn p credit (OlTx.serveCategory c credit fuel firstTxq env p).2 := by
  induction fuel generalizing p firstTxq with
  | zero => exact h.drawn_self credit
  | succ fuel ih =>
    unfold OlTx.serveCategory
    split
    · exact h.drawn_self credit
    next q rest hhead =>
      dsimp only
      split_ifs
      · exact h.serveTxq_drawn env hhead (groupCreditLimit_le ..)
      · exact (ih (h.rotate hhead) _).of_same rfl rfl (.refl _)
      · exact h.drawn_self credit

def reset (p : Pdev) (i : ℕ) (c : Cat) : Pdev :=
  { p.setCategory c { p.categories c with wrrCount := 0 } with
    order := rotateOrderListTail p.order i
    index := i }

theorem reset_same (p : Pdev) (i : ℕ) (c b : Cat) :
    ∃ wrrCount, (reset p i c).categories b = { p.categories b with wrrCount := wrrCount } :=
  (turned_setWrrCount p c 0).category b

theorem reset_books (h : Books p) (i : ℕ) (c : Cat) : Books (reset p i c) := by
  have hbooks := (turned_setWrrCount p c 0).books h
  exact ⟨hbooks.ok, hbooks.fair⟩

theorem Books.selectBatch_drawn (h : Books p) (env : Env) (credit : ℕ) :
    Drawn p credit (selectBatch env p credit).2 := by
  obtain ⟨p', hturned, hresult⟩ := pickCategory_spec (pickFuel_enough env.specs p p.index)
  have hbooks := hturned.books h
  unfold OlTx.selectBatch
  rcases hresult with ⟨heq, -⟩ | ⟨i, c, heq, -, -, -⟩
  · rw [heq]
    exact (hbooks.drawn_self credit).of_same hturned.txq hturned.sent hturned.order
  · rw [heq]
    dsimp only
    split_ifs
    · have hback := turned_setWrrCount p' c ((p'.categories c).wrrCount - 1)
      exact ((hback.books hbooks).drawn_self credit).of_same hturned.txq hturned.sent hturned.order
    · have hserved := (reset_books hbooks i c).serveCategory_drawn (c := c) credit
        (((reset p' i c).categories c).head.length + 1) none env
      exact hserved.of_same hturned.txq hturned.sent
        ((rotateOrderListTail_perm p'.order i).trans hturned.order)

/-- No queue is in a group and no peer is held back. -/
structure Alone (env : Env) : Prop where
  group : ∀ q, env.group q = none
  txLimit : ∀ peer, env.txLimit peer = none

/-- `htt_tx_msdu_credit` is one for each frame. -/
def OneCredit (p : Pdev) : Prop := ∀ q, ∀ d ∈ (p.txq q).head, d.credit = 1

def Turn (specs : Cat → Specs) (p : Pdev) (c : Cat) : Prop :=
  ∃ p' i, pickCategory specs (pickFuel specs p) p p.index = (p', some (i, c))

def Needs (s : Specs) (credit : ℤ) : Prop := credit < s.creditThreshold ∨ credit ≤ s.creditReserve

/-- The state between two batches of a run. -/
structure Ready (p : Pdev) : Prop where
  books : Books p
  order : p.order.Perm Cat.all
  passed : Passed p p.index
  one : OneCredit p

theorem Alone.peerTxLimit (h : Alone env) (q : TxqId) : peerTxLimit env q = none := by
  cases q with
  | peer peer tid => exact h.txLimit peer
  | vdev vdev txq => rfl

variable (p c q) in
theorem Alone.serveTxq_env (h : Alone env) (rest : List TxqId) (credit : ℕ) :
    (serveTxq env p c q rest credit).1 = env := by
  have hpeer (maxFrames frames : ℕ) : badPeerUpdateTxLimit env q maxFrames frames = env := by
    unfold badPeerUpdateTxLimit
    rw [h.peerTxLimit]
    cases q <;> rfl
  unfold OlTx.serveTxq groupCreditUpdate
  dsimp only
  rw [hpeer, h.group]

theorem Alone.groupCreditLimit (h : Alone env) (q : TxqId) (credit : ℕ) :
    groupCreditLimit env q credit = credit := by
  unfold OlTx.groupCreditLimit
  rw [h.group]

theorem Alone.serveTxq_used (h : Alone env) (hp : Books p) (hone : OneCredit p)
    (hlimit : 0 < (env.specs c).sendLimit)
    (hhead : (p.categories c).head = q :: rest) (hcredit : (env.specs c).creditReserve < credit) :
    0 < (serveTxq env p c q rest credit).2.2 := by
  have hlink := hp.links hhead
  have hpos : 0 < (p.txq q).frms := hp.pos q hlink.2
  have hcheck : badPeerDequeueCheck env q (env.specs c).sendLimit = (env.specs c).sendLimit := by
    unfold badPeerDequeueCheck
    rw [h.peerTxLimit]
  change 0 < creditOf (takeFrms (min (p.txq q).frms (badPeerDequeueCheck env q
    (env.specs c).sendLimit)) (credit - (env.specs c).creditReserve) 0 (p.txq q).head)
  rw [hcheck]
  obtain ⟨n, hn⟩ : ∃ n, min (p.txq q).frms (env.specs c).sendLimit = n + 1 :=
    Nat.exists_eq_add_one.mpr (lt_min hpos hlimit)
  have hlen := (hp.ok q).frms
  have hcredit_q := hone q
  rw [hn]
  cases hq : (p.txq q).head with
  | nil =>
    rw [hq, List.length_nil] at hlen
    omega
  | cons d ds =>
    have hd : d.credit = 1 := hcredit_q d (hq ▸ List.mem_cons_self)
    unfold takeFrms
    rw [if_neg (by omega), creditOf_cons]
    omega

theorem Alone.serveCategory_starved (h : Alone env)
    (hcredit : credit ≤ (env.specs c).creditReserve) (fuel : ℕ) (firstTxq : Option TxqId) :
    (serveCategory c credit fuel firstTxq env p).1 = env ∧
      (serveCategory c credit fuel firstTxq env p).2.2 = 0 ∧
      ∀ b, ((serveCategory c credit fuel firstTxq env p).2.1.categories b).active =
        (p.categories b).active := by
  induction fuel generalizing p firstTxq with
  | zero => exact ⟨rfl, rfl, fun _ => rfl⟩
  | succ fuel ih =>
    unfold OlTx.serveCategory
    split
    · exact ⟨rfl, rfl, fun _ => rfl⟩
    next q rest hhead =>
      rw [h.groupCreditLimit, if_neg (not_lt.mpr hcredit)]
      split_ifs
      · obtain ⟨henv, hused, hactive⟩ := ih
          (p := p.setCategory c { p.categories c with head := rest ++ [q] })
          (some (firstTxq.getD q))
        refine ⟨henv, hused, fun b => (hactive b).trans ?_⟩
        by_cases hb : b = c
        · rw [hb, setCategory_categories, update_self]
        · rw [setCategory_categories, update_of_ne hb]
      · exact ⟨rfl, rfl, fun _ => rfl⟩

theorem OneCredit.drawn {r : Pdev × ℕ} (h : OneCredit p) (hr : Drawn p credit r) :
    OneCredit r.1 := by
  intro q d hd
  rcases hr.taken with ⟨htxq, -, -⟩ | ⟨c, b, taken, hserved, -⟩
  · rw [htxq] at hd
    exact h q d hd
  · by_cases hq : q = b
    · subst hq
      exact h q d (hserved.head ▸ List.mem_append_right taken hd)
    · rw [hserved.other q hq] at hd
      exact h q d hd

/-- A batch uses credit, or there is nothing to send, or the category that has its turn needs more
credit. -/
theorem Ready.selectBatch (hp : Ready p) (henv : Alone env)
    (hlimit : ∀ c, 0 < (env.specs c).sendLimit) (credit : ℕ) :
    (selectBatch env p credit).1 = env ∧
      (0 < (selectBatch env p credit).2.2 ∧ Ready (selectBatch env p credit).2.1 ∨
        (selectBatch env p credit).2.2 = 0 ∧
          ((∀ c, ((selectBatch env p credit).2.1.categories c).active = false) ∨
            ∃ c, Turn env.specs p c ∧
              ((selectBatch env p credit).2.1.categories c).active = true ∧
              Needs (env.specs c) credit)) := by
  obtain ⟨p', hturned, hresult⟩ := pickCategory_spec (pickFuel_enough env.specs p p.index)
  have hbooks := hturned.books hp.books
  have hdrawn := hp.books.selectBatch_drawn env credit
  rcases hresult with ⟨heq, hall⟩ | ⟨i, c, heq, hi, hactive, hbefore⟩
  · unfold OlTx.selectBatch
    rw [heq]
    refine ⟨rfl, .inr ⟨rfl, .inl fun c => hall hp.passed c ?_⟩⟩
    rw [List.take_length]
    exact (hturned.order.trans hp.order).mem_iff.mpr c.mem_all
  · have hturn : Turn env.specs p c := ⟨p', i, heq⟩
    have hone : OneCredit (OlTx.selectBatch env p credit).2.1 := hp.one.drawn hdrawn
    have horder := hdrawn.order.trans hp.order
    have hbooks' := hdrawn.books
    have hbatch : OlTx.selectBatch env p credit =
        if credit < (env.specs c).creditThreshold then
          (env, p'.setCategory c { p'.categories c with
            wrrCount := (p'.categories c).wrrCount - 1 }, 0)
        else serveCategory c credit (((reset p' i c).categories c).head.length + 1) none env
          (reset p' i c) := by
      unfold OlTx.selectBatch
      rw [heq]
      rfl
    by_cases hthreshold : credit < (env.specs c).creditThreshold
    · rw [if_pos hthreshold] at hbatch
      rw [hbatch]
      refine ⟨rfl, .inr ⟨rfl, .inr ⟨c, hturn, ?_, .inl (by exact_mod_cast hthreshold)⟩⟩⟩
      rw [(turned_setWrrCount p' c _).active]
      exact hactive
    · rw [if_neg hthreshold] at hbatch
      have hactive' : ((reset p' i c).categories c).active = true := by
        obtain ⟨n, hn⟩ := reset_same p' i c c
        rw [hn]
        exact hactive
      by_cases hreserve : credit ≤ (env.specs c).creditReserve
      · obtain ⟨henv', hused, hsame⟩ := henv.serveCategory_starved (p := reset p' i c) hreserve
          (((reset p' i c).categories c).head.length + 1) none
        rw [hbatch]
        refine ⟨henv', .inr ⟨hused, .inr ⟨c, hturn, (hsame c).trans hactive', .inr ?_⟩⟩⟩
        exact_mod_cast hreserve
      · have hmore : (env.specs c).creditReserve < credit := not_le.mp hreserve
        have hreset := reset_books hbooks i c
        have hne := (hreset.fair c).active.mp hactive'
        obtain ⟨q, rest, hhead⟩ := List.exists_cons_of_ne_nil hne
        have hone' : OneCredit (reset p' i c) := by
          intro b d hd
          exact hp.one b d (hturned.txq ▸ hd)
        have hserve : OlTx.selectBatch env p credit =
            OlTx.serveTxq env (reset p' i c) c q rest credit := by
          rw [hbatch, OlTx.serveCategory, hhead]
          dsimp only
          rw [henv.groupCreditLimit, if_pos hmore]
        have hused := henv.serveTxq_used hreset hone' (hlimit c) hhead hmore
        rw [← hserve] at hused
        refine ⟨?_, .inl ⟨hused, hbooks', horder, ?_, hone⟩⟩
        · rw [hserve]
          exact henv.serveTxq_env ..
        · rw [hserve]
          intro b hb
          have hb' : b ∈ p'.order.take i := by
            rw [← take_rotateOrderListTail]
            exact hb
          have hinactive := hbefore hp.passed b hb'
          have hbc : b ≠ c := fun heq => by
            rw [heq, hactive] at hinactive
            cases hinactive
          have hother : (OlTx.serveTxq env (reset p' i c) c q rest credit).2.1.categories b =
              (reset p' i c).categories b := update_of_ne hbc ..
          obtain ⟨n, hn⟩ := reset_same p' i c b
          rw [hother, hn]
          exact hinactive

def batched (s : Env × Pdev) : Env × Pdev :=
  let batch := OlTx.selectBatch s.1 s.2 s.1.targetTxCredit.toNat
  ({ batch.1 with targetTxCredit := batch.1.targetTxCredit - batch.2.2 }, batch.2.1)

def batchCredits (s : Env × Pdev) : ℕ :=
  (OlTx.selectBatch s.1 s.2 s.1.targetTxCredit.toNat).2.2

def BatchStep (s s' : Env × Pdev) : Prop :=
  0 < s.1.targetTxCredit ∧ batchCredits s ≠ 0 ∧ s' = batched s

def Ends (s r : Env × Pdev) : Prop :=
  s.1.targetTxCredit ≤ 0 ∧ r = s ∨
    0 < s.1.targetTxCredit ∧ batchCredits s = 0 ∧ r = batched s

theorem schedLoop_succ (fuel : ℕ) (s : Env × Pdev) :
    schedLoop (fuel + 1) s.1 s.2 =
      if s.1.targetTxCredit ≤ 0 then s
      else if batchCredits s = 0 then batched s
      else schedLoop fuel (batched s).1 (batched s).2 := rfl

open Relation in
theorem schedLoop_run (fuel : ℕ) (s : Env × Pdev) (h : s.1.targetTxCredit.toNat ≤ fuel) :
    ∃ s₁, ReflTransGen BatchStep s s₁ ∧ Ends s₁ (schedLoop fuel s.1 s.2) := by
  induction fuel generalizing s with
  | zero =>
    have hnone : s.1.targetTxCredit ≤ 0 := Int.toNat_eq_zero.mp (Nat.le_zero.mp h)
    exact ⟨s, .refl, .inl ⟨hnone, rfl⟩⟩
  | succ fuel ih =>
    rw [schedLoop_succ]
    by_cases hnone : s.1.targetTxCredit ≤ 0
    · rw [if_pos hnone]
      exact ⟨s, .refl, .inl ⟨hnone, rfl⟩⟩
    · have hpos : 0 < s.1.targetTxCredit := not_le.mp hnone
      rw [if_neg hnone]
      by_cases hused : batchCredits s = 0
      · rw [if_pos hused]
        exact ⟨s, .refl, .inr ⟨hpos, hused, rfl⟩⟩
      · rw [if_neg hused]
        have htarget : (batched s).1.targetTxCredit = s.1.targetTxCredit - batchCredits s := by
          change (OlTx.selectBatch s.1 s.2 s.1.targetTxCredit.toNat).1.targetTxCredit - _ = _
          rw [selectBatch_target]
          rfl
        obtain ⟨s₁, hsteps, hends⟩ := ih (batched s) (by omega)
        exact ⟨s₁, .head ⟨hpos, hused, rfl⟩ hsteps, hends⟩

/-- What holds between the batches of a run without groups and slow peers. -/
structure Going (specs : Cat → Specs) (s : Env × Pdev) : Prop where
  alone : Alone s.1
  specs_eq : s.1.specs = specs
  ready : Ready s.2

theorem Going.step (h : Going specs s) (hlimit : ∀ c, 0 < (specs c).sendLimit)
    (hstep : BatchStep s s') : Going specs s' := by
  obtain ⟨-, hused, rfl⟩ := hstep
  have hlimit_s : ∀ c, 0 < (s.1.specs c).sendLimit := by
    rw [h.specs_eq]
    exact hlimit
  obtain ⟨henv, hready | ⟨hnone, -⟩⟩ :=
    h.ready.selectBatch h.alone hlimit_s s.1.targetTxCredit.toNat
  · unfold batched
    dsimp only
    rw [henv]
    exact ⟨⟨h.alone.group, h.alone.txLimit⟩, h.specs_eq, hready.2⟩
  · exact absurd hnone hused

theorem Going.run (h : Going specs s) (hlimit : ∀ c, 0 < (specs c).sendLimit)
    (hsteps : Relation.ReflTransGen BatchStep s s') : Going specs s' := by
  induction hsteps with
  | refl => exact h
  | tail _ hstep ih => exact ih.step hlimit hstep

theorem Ready.turn (h : Ready p) (specs : Cat → Specs) {credit : ℤ} (hcredit : credit ≤ 0) :
    (∀ c, (p.categories c).active = false) ∨
      ∃ c, Turn specs p c ∧ (p.categories c).active = true ∧ Needs (specs c) credit := by
  obtain ⟨p', hturned, ⟨-, hall⟩ | ⟨i, c, heq, -, hactive, -⟩⟩ :=
    pickCategory_spec (pickFuel_enough specs p p.index)
  · left
    intro c
    rw [← hturned.active]
    refine hall h.passed c ?_
    rw [List.take_length]
    exact (hturned.order.trans h.order).mem_iff.mpr c.mem_all
  · rw [hturned.active] at hactive
    exact .inr ⟨c, ⟨p', i, heq⟩, hactive, .inr (hcredit.trans (Int.natCast_nonneg _))⟩

theorem Going.ends {r : Env × Pdev} (h : Going specs s) (hlimit : ∀ c, 0 < (specs c).sendLimit)
    (hends : Ends s r) :
    (∀ c, (r.2.categories c).active = false) ∨
      ∃ c, Turn specs s.2 c ∧ (r.2.categories c).active = true ∧
        Needs (specs c) r.1.targetTxCredit := by
  rcases hends with ⟨hnone, rfl⟩ | ⟨hpos, hused, rfl⟩
  · exact h.ready.turn specs hnone
  · have hlimit_s : ∀ c, 0 < (s.1.specs c).sendLimit := by
      rw [h.specs_eq]
      exact hlimit
    obtain ⟨henv, ⟨hsome, -⟩ | ⟨-, hresult⟩⟩ :=
      h.ready.selectBatch h.alone hlimit_s s.1.targetTxCredit.toNat
    · exact absurd hused hsome.ne'
    · have htarget : (batched s).1.targetTxCredit = (s.1.targetTxCredit.toNat : ℤ) := by
        change (OlTx.selectBatch s.1 s.2 s.1.targetTxCredit.toNat).1.targetTxCredit -
          (batchCredits s : ℤ) = _
        rw [henv, hused]
        omega
      rw [htarget, ← h.specs_eq]
      simp only [batched]
      exact hresult

/-- The loops of a batch and of a run come to their end: more rounds than they have make no
difference. -/
structure LoopsEnd (env : Env) (p : Pdev) : Prop where
  pick : ∀ n, pickCategory env.specs (pickFuel env.specs p + n) p p.index =
    pickCategory env.specs (pickFuel env.specs p) p p.index
  serve : ∀ n c credit p', serveCategory c credit ((p'.categories c).head.length + 1 + n) none env
    p' = serveCategory c credit ((p'.categories c).head.length + 1) none env p'
  run : ∀ n, schedLoop (env.targetTxCredit.toNat + n) env { p with index := 0 } = sched env p

theorem loopsEnd (env : Env) (p : Pdev) : LoopsEnd env p := by
  constructor
  · intro n
    induction n with
    | zero => rfl
    | succ n ih =>
      have hfuel := pickFuel_enough env.specs p p.index
      rw [← ih]
      exact pickCategory_fuel env.specs (pickFuel env.specs p + n) p.index (by omega)
  · intro n c credit p'
    induction n with
    | zero => rfl
    | succ n ih =>
      have hfuel : (p'.categories c).head.length < (p'.categories c).head.length + 1 + n := by
        omega
      rw [← ih]
      exact serveCategory_fuel credit ((p'.categories c).head.length + 1 + n) env hfuel
  · intro n
    induction n with
    | zero => rfl
    | succ n ih =>
      have hfuel : env.targetTxCredit.toNat ≤ env.targetTxCredit.toNat + n := Nat.le_add_right _ _
      rw [← ih]
      exact schedLoop_fuel (env.targetTxCredit.toNat + n) env hfuel

/-- The weighted round robin comes to its end, keeps the order a permutation of the categories,
takes frames from the front of one linked queue and uses no more credit than it is given. Where each
category may send a frame, a run without groups and slow peers leaves no category active, or one
that has its turn and needs more credit than is left. -/
theorem sched_conserves (p : Pdev) (h : Books p) (horder : p.order.Perm Cat.all) (env : Env) :
    LoopsEnd env p ∧
      (∀ credit, (selectBatch env p credit).2.1.order.Perm Cat.all ∧
        (selectBatch env p credit).2.2 ≤ credit ∧
        ((selectBatch env p credit).2.1.txq = p.txq ∧
            (selectBatch env p credit).2.1.sent = p.sent ∧ (selectBatch env p credit).2.2 = 0 ∨
          ∃ c q taken, Served p (selectBatch env p credit).2.1 c q taken ∧
            (selectBatch env p credit).2.2 = creditOf taken)) ∧
      (Alone env → OneCredit p → (∀ c, 0 < (env.specs c).sendLimit) →
        ∃ s₁, Relation.ReflTransGen BatchStep (env, { p with index := 0 }) s₁ ∧
          Ends s₁ (sched env p) ∧
          ((∀ c, ((sched env p).2.categories c).active = false) ∨
            ∃ c, Turn env.specs s₁.2 c ∧ ((sched env p).2.categories c).active = true ∧
              Needs (env.specs c) (sched env p).1.targetTxCredit)) := by
  refine ⟨loopsEnd env p, fun credit => ?_, fun henv hone hlimit => ?_⟩
  · have hdrawn := h.selectBatch_drawn env credit
    exact ⟨hdrawn.order.trans horder, hdrawn.used_le, hdrawn.taken⟩
  · have hready : Ready { p with index := 0 } := ⟨⟨h.ok, h.fair⟩, horder,
      fun c hc => absurd hc (by rw [List.take_zero]; exact List.not_mem_nil), hone⟩
    obtain ⟨s₁, hsteps, hends⟩ := schedLoop_run env.targetTxCredit.toNat
      (env, { p with index := 0 }) (le_refl _)
    have hgoing : Going env.specs s₁ :=
      Going.run (s := (env, { p with index := 0 })) ⟨henv, rfl, hready⟩ hlimit hsteps
    exact ⟨s₁, hsteps, hends, hgoing.ends hlimit hends⟩

/-- The weights that the driver comes with, for an SDIO target or another. Those of the first four
categories can be set by the configuration file, which is not checked. -/
def wrrAdvSpecs (sdio : Bool) : Cat → Specs
  | .vo => if sdio then ⟨1, 17, 24, 0, 1⟩ else ⟨1, 16, 24, 0, 1⟩
  | .vi => if sdio then ⟨3, 17, 16, 1, 4⟩ else ⟨3, 16, 16, 1, 4⟩
  | .be => if sdio then ⟨10, 17, 16, 1, 8⟩ else ⟨10, 12, 12, 1, 8⟩
  | .bk => ⟨12, 6, 6, 1, 8⟩
  | .nonQosData => if sdio then ⟨10, 17, 16, 1, 8⟩ else ⟨12, 6, 4, 1, 8⟩
  | .ucastMgmt => ⟨1, 1, 4, 0, 1⟩
  | .mcastData => if sdio then ⟨10, 17, 4, 1, 4⟩ else ⟨10, 16, 4, 1, 4⟩
  | .mcastMgmt => ⟨1, 1, 4, 0, 1⟩

theorem wrrAdvSpecs_sendLimit (sdio : Bool) (c : Cat) : 0 < (wrrAdvSpecs sdio c).sendLimit := by
  cases sdio <;> cases c <;> decide

def oneFrame (specs : Cat → Specs) : Pdev := enqueueTxq (init specs) (.peer 0 0) ⟨100, 1⟩

theorem oneFrame_books (specs : Cat → Specs) : Books (oneFrame specs) :=
  ((Inv.init specs).enqueueTxq _ _).books

theorem oneFrame_oneCredit (specs : Cat → Specs) : OneCredit (oneFrame specs) := by
  intro b d hd
  by_cases hb : b = .peer 0 0
  · subst hb
    exact congrArg TxDesc.credit (List.mem_singleton.mp hd)
  · unfold oneFrame OlTx.enqueueTxq at hd
    have hempty : ((init specs).txq (.peer 0 0)).flag ≠ .paused := QueueStatus.noConfusion
    rw [if_pos hempty] at hd
    simp only [setTxq_txq, txqEnqueue_txq, update_of_ne hb] at hd
    exact absurd hd List.not_mem_nil

def aloneWith (specs : Cat → Specs) (credit : ℤ) : Env :=
  ⟨specs, credit, fun _ => none, fun _ => 0, fun _ => none⟩

/-- With a send limit of zero from the configuration file, a category stays active however much
credit is left. -/
theorem not_sched_conserves :
    let specs : Cat → Specs := update (wrrAdvSpecs false) .be ⟨10, 12, 0, 1, 8⟩
    let p := oneFrame specs
    let env := aloneWith specs 100
    Books p ∧ p.order.Perm Cat.all ∧ (∀ c, 0 < (specs c).wrrSkipWeight) ∧ Alone env ∧
      OneCredit p ∧
      ¬ ((∀ c, ((sched env p).2.categories c).active = false) ∨
        ∃ c, ((sched env p).2.categories c).active = true ∧
          Needs (specs c) (sched env p).1.targetTxCredit) := by
  intro specs p env
  refine ⟨oneFrame_books specs, .refl _, fun c => ?_, ⟨fun _ => rfl, fun _ => rfl⟩,
    oneFrame_oneCredit specs, ?_⟩
  · cases c <;> decide
  · have hcredit : (sched env p).1.targetTxCredit = 100 := by decide
    rintro (hnone | ⟨c, hactive, hneeds⟩)
    · exact absurd (hnone .be) (by decide)
    · rw [hcredit] at hneeds
      revert hneeds
      cases c <;> unfold Needs <;> decide

/-- The frame is sent by a run that has credit for it. -/
theorem sched_conserves_oneFrame :
    (∀ c, ((sched (aloneWith (wrrAdvSpecs false) 100) (oneFrame (wrrAdvSpecs false))).2.categories
        c).active = false) ∨
      ∃ c, ((sched (aloneWith (wrrAdvSpecs false) 100) (oneFrame (wrrAdvSpecs false))).2.categories
          c).active = true ∧
        Needs (wrrAdvSpecs false c)
          (sched (aloneWith (wrrAdvSpecs false) 100)
            (oneFrame (wrrAdvSpecs false))).1.targetTxCredit := by
  obtain ⟨-, -, hrun⟩ := sched_conserves (oneFrame (wrrAdvSpecs false)) (oneFrame_books _) (.refl _)
    (aloneWith (wrrAdvSpecs false) 100)
  obtain ⟨s₁, -, -, hnone | ⟨c, -, hactive, hneeds⟩⟩ := hrun ⟨fun _ => rfl, fun _ => rfl⟩
    (oneFrame_oneCredit _) (wrrAdvSpecs_sendLimit false)
  · exact .inl hnone
  · exact .inr ⟨c, hactive, hneeds⟩

end

end KernelModules.OlTx
