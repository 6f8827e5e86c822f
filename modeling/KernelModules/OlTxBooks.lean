import KernelModules.OlTxQueue
import KernelModules.Rosters

/-!
# The books of the transmit scheduler

A queue keeps the number and the bytes of its frames, is paused while it has pauses, and is active
when it holds frames and is not paused. A category lists its active queues and what they hold
together. Each call changes one queue, which joins the list, leaves it, stays in it or was not there.
-/

namespace KernelModules.OlTx

open Ledger Rosters Function

structure Txq.Ok (t : Txq) : Prop where
  paused : t.flag = .paused ↔ 0 < t.pausedTotal
  active : t.flag = .active ↔ t.pausedTotal = 0 ∧ 0 < t.frms
  frms : t.frms = t.head.length
  bytes : t.bytes = bytesOf t.head
  lt : t.pausedTotal < 256

theorem Txq.Ok.init : Txq.init.Ok := by
  constructor <;> simp [Txq.init, bytesOf]

def Links (txq : TxqId → Txq) (c : Cat) (q : TxqId) : Prop :=
  q.category = c ∧ (txq q).flag = .active

/-- The category links those queues and counts what they hold. -/
structure Fair (txq : TxqId → Txq) (c : Cat) (cat : Category) : Prop where
  lists : Lists (Links txq c) cat.head
  frms : cat.frms = total (fun q => (txq q).frms) cat.head
  bytes : cat.bytes = total (fun q => (txq q).bytes) cat.head
  active : cat.active = true ↔ cat.head ≠ []

section

variable {txq : TxqId → Txq} {c : Cat} {cat cat' : Category} {q : TxqId} {t : Txq}

theorem frms_update_of_ne (txq : TxqId → Txq) (t : Txq) (b : TxqId) (hb : b ≠ q) :
    (update txq q t b).frms = (txq b).frms := by rw [update_of_ne hb]

theorem bytes_update_of_ne (txq : TxqId → Txq) (t : Txq) (b : TxqId) (hb : b ≠ q) :
    (update txq q t b).bytes = (txq b).bytes := by rw [update_of_ne hb]

theorem links_update_of_ne (b : TxqId) (hb : b ≠ q) :
    Links (update txq q t) c b ↔ Links txq c b := by
  rw [Links, Links, update_of_ne hb]

theorem links_update_self :
    Links (update txq q t) c q ↔ q.category = c ∧ t.flag = .active := by
  rw [Links, update_self]

theorem Fair.congr (h : Fair txq c cat) (hhead : cat'.head = cat.head) (hfrms : cat'.frms = cat.frms)
    (hbytes : cat'.bytes = cat.bytes) (hactive : cat'.active = cat.active) : Fair txq c cat' :=
  ⟨hhead ▸ h.lists, by rw [hhead, hfrms, h.frms], by rw [hhead, hbytes, h.bytes],
    by rw [hhead, hactive, h.active]⟩

theorem Fair.mem (h : Fair txq c cat) : q ∈ cat.head ↔ q.category = c ∧ (txq q).flag = .active :=
  h.lists.mem q

theorem Fair.away (h : Fair txq c cat) (hq : ¬Links txq c q)
    (ht : ¬(q.category = c ∧ t.flag = .active)) : Fair (update txq q t) c cat := by
  have hnot : q ∉ cat.head := fun hmem => hq ((h.lists.mem q).mp hmem)
  refine ⟨h.lists.stay (.refl _) fun b => ?_, ?_, ?_, h.active⟩
  · by_cases hb : b = q
    · rw [hb]
      exact iff_of_false (fun hl => ht (links_update_self.mp hl)) hq
    · exact links_update_of_ne b hb
  · rw [h.frms, total_away hnot (frms_update_of_ne txq t)]
  · rw [h.bytes, total_away hnot (bytes_update_of_ne txq t)]

theorem Fair.join (h : Fair txq c cat) (hq : (txq q).flag ≠ .active) (hc : q.category = c)
    (ht : t.flag = .active) (hhead : cat'.head = cat.head ++ [q])
    (hfrms : cat'.frms = cat.frms + t.frms) (hbytes : cat'.bytes = cat.bytes + t.bytes)
    (hactive : cat'.active = true) : Fair (update txq q t) c cat' := by
  have hnot : q ∉ cat.head := fun hmem => hq (h.mem.mp hmem).2
  refine ⟨?_, ?_, ?_, ?_⟩
  · rw [hhead]
    exact h.lists.join (fun hl => hq hl.2) (links_update_self.mpr ⟨hc, ht⟩) links_update_of_ne
  · rw [hhead, hfrms, h.frms, total_join hnot (frms_update_of_ne txq t), update_self,
      Nat.cast_add]
  · rw [hhead, hbytes, h.bytes, total_join hnot (bytes_update_of_ne txq t), update_self,
      Nat.cast_add]
  · rw [hhead]
    exact iff_of_true hactive (List.append_ne_nil_of_right_ne_nil _ (List.cons_ne_nil q []))

theorem Fair.leave (h : Fair txq c cat) (hq : Links txq c q) (ht : t.flag ≠ .active)
    (hpos : ∀ b, (txq b).flag = .active → 0 < (txq b).frms) (hhead : cat'.head = cat.head.erase q)
    (hfrms : cat'.frms = cat.frms - (txq q).frms) (hbytes : cat'.bytes = cat.bytes - (txq q).bytes)
    (hactive : cat'.active = if cat'.frms = 0 then false else cat.active) :
    Fair (update txq q t) c cat' := by
  have hmem : q ∈ cat.head := (h.lists.mem q).mpr hq
  have hlists : Lists (Links (update txq q t) c) cat'.head := by
    rw [hhead]
    exact h.lists.leave (fun hl => ht (links_update_self.mp hl).2) links_update_of_ne
  have hsum : cat'.frms = total (fun b => (update txq q t b).frms) cat'.head := by
    have hrest := total_leave h.lists.nodup hmem (frms_update_of_ne txq t)
    rw [hhead, hfrms, h.frms]
    omega
  refine ⟨hlists, hsum, ?_, ?_⟩
  · have hrest := total_leave h.lists.nodup hmem (bytes_update_of_ne txq t)
    rw [hhead, hbytes, h.bytes]
    omega
  · have hnil : cat'.frms = 0 ↔ cat'.head = [] := by
      rw [hsum, Int.natCast_eq_zero]
      refine total_eq_zero_iff fun b hb => ?_
      have hlink := (hlists.mem b).mp hb
      have hne : b ≠ q := fun heq => ht (links_update_self.mp (heq ▸ hlink)).2
      rw [frms_update_of_ne txq t b hne]
      exact hpos b ((links_update_of_ne b hne).mp hlink).2
    have hwas : cat.active = true := h.active.mpr (List.ne_nil_of_mem hmem)
    rw [hactive, hwas, Ne, ← hnil]
    split_ifs with hzero
    · exact iff_of_false not_false fun hne => hne hzero
    · exact iff_of_true rfl hzero

theorem Fair.stay (h : Fair txq c cat) (hq : Links txq c q) (ht : t.flag = .active)
    (hhead : cat'.head.Perm cat.head)
    (hfrms : cat'.frms = cat.frms - (txq q).frms + t.frms)
    (hbytes : cat'.bytes = cat.bytes - (txq q).bytes + t.bytes)
    (hactive : cat'.active = cat.active) : Fair (update txq q t) c cat' := by
  have hmem : q ∈ cat.head := (h.lists.mem q).mpr hq
  refine ⟨h.lists.stay hhead fun b => ?_, ?_, ?_, ?_⟩
  · by_cases hb : b = q
    · rw [hb]
      exact iff_of_true (links_update_self.mpr ⟨hq.1, ht⟩) hq
    · exact links_update_of_ne b hb
  · have hrest := total_of_ne h.lists.nodup hmem fun b _ => frms_update_of_ne txq t b
    rw [update_self] at hrest
    rw [total_perm hhead, hfrms, h.frms]
    omega
  · have hrest := total_of_ne h.lists.nodup hmem fun b _ =>
      bytes_update_of_ne txq t b
    rw [update_self] at hrest
    rw [total_perm hhead, hbytes, h.bytes]
    omega
  · rw [hactive, h.active, Ne, Ne, ← List.length_eq_zero_iff, ← List.length_eq_zero_iff,
      hhead.length_eq]

theorem Fair.perm (h : Fair txq c cat) {l : List TxqId} (hl : l.Perm cat.head) :
    Fair txq c { cat with head := l } := by
  refine ⟨h.lists.stay hl fun b => Iff.rfl, ?_, ?_, ?_⟩
  · rw [total_perm hl]
    exact h.frms
  · rw [total_perm hl]
    exact h.bytes
  · change cat.active = true ↔ l ≠ []
    rw [h.active, Ne, Ne, ← List.length_eq_zero_iff, ← List.length_eq_zero_iff, hl.length_eq]

end

/-- The books of all queues and categories are right. -/
structure Books (p : Pdev) : Prop where
  ok : ∀ q, (p.txq q).Ok
  fair : ∀ c, Fair p.txq c (p.categories c)

/-- The books of all queues and categories are right, and what was sent came from queues without
pauses. Only the queues of peers are ever paused. -/
structure Inv (p : Pdev) : Prop where
  ok : ∀ q, (p.txq q).Ok
  vdev : ∀ v k, (p.txq (.vdev v k)).pausedTotal = 0
  fair : ∀ c, Fair p.txq c (p.categories c)
  sent : ∀ e ∈ p.sent, e.pausedTotal = 0

theorem Inv.init (specs : Cat → Specs) : Inv (init specs) where
  ok _ := Txq.Ok.init
  vdev _ _ := rfl
  fair _ := ⟨⟨List.nodup_nil, fun _ => iff_of_false List.not_mem_nil
    fun hl => QueueStatus.noConfusion hl.2⟩, rfl, rfl,
    iff_of_false Bool.false_ne_true fun hne => hne rfl⟩
  sent _ he := absurd he List.not_mem_nil

section

variable {p p' : Pdev} {q : TxqId} {t : Txq} {tid : ℕ}

theorem Inv.books (h : Inv p) : Books p := ⟨h.ok, h.fair⟩

theorem Books.pos (h : Books p) (b : TxqId) (hb : (p.txq b).flag = .active) :
    0 < (p.txq b).frms := ((h.ok b).active.mp hb).2

theorem Inv.pos (h : Inv p) (b : TxqId) (hb : (p.txq b).flag = .active) : 0 < (p.txq b).frms :=
  h.books.pos b hb

theorem Books.change (h : Books p) (htxq : p'.txq = update p.txq q t) (ht : t.Ok)
    (hother : ∀ c, c ≠ q.category → p'.categories c = p.categories c)
    (hown : Fair (update p.txq q t) q.category (p'.categories q.category)) :
    Books p' where
  ok b := by
    rw [htxq]
    by_cases hb : b = q
    · rw [hb, update_self]
      exact ht
    · rw [update_of_ne hb]
      exact h.ok b
  fair c := by
    rw [htxq]
    by_cases hc : c = q.category
    · rw [hc]
      exact hown
    · rw [hother c hc]
      exact (h.fair c).away (fun hl => hc hl.1.symm) fun hand => hc hand.1.symm

theorem Inv.change (h : Inv p) (htxq : p'.txq = update p.txq q t) (ht : t.Ok)
    (hv : ∀ v k, q = .vdev v k → t.pausedTotal = 0)
    (hother : ∀ c, c ≠ q.category → p'.categories c = p.categories c)
    (hown : Fair (update p.txq q t) q.category (p'.categories q.category))
    (hsent : ∀ e ∈ p'.sent, e.pausedTotal = 0) : Inv p' where
  ok := (h.books.change htxq ht hother hown).ok
  fair := (h.books.change htxq ht hother hown).fair
  vdev v k := by
    rw [htxq]
    by_cases hb : TxqId.vdev v k = q
    · rw [hb, update_self]
      exact hv v k hb.symm
    · rw [update_of_ne hb]
      exact h.vdev v k
  sent := hsent

theorem Inv.away (h : Inv p) (hq : (p.txq q).flag ≠ .active) (hflag : t.flag ≠ .active)
    (ht : t.Ok) (hv : ∀ v k, q = .vdev v k → t.pausedTotal = 0) : Inv (p.setTxq q t) :=
  h.change rfl ht hv (fun _ _ => rfl)
    ((h.fair q.category).away (fun hl => hq hl.2) fun hand => hflag hand.2) h.sent

theorem Books.setCategory (h : Books p) {c : Cat} {cat : Category} (hcat : Fair p.txq c cat) :
    Books (p.setCategory c cat) where
  ok := h.ok
  fair b := by
    rw [setCategory_txq, setCategory_categories]
    by_cases hb : b = c
    · rw [hb, update_self]
      exact hcat
    · rw [update_of_ne hb]
      exact h.fair b

theorem Inv.setCategory (h : Inv p) {c : Cat} {cat : Category}
    (hcat : Fair p.txq c cat) : Inv (p.setCategory c cat) where
  ok := h.ok
  vdev := h.vdev
  fair := (h.books.setCategory hcat).fair
  sent := h.sent

theorem Inv.tailqRemove_of_ne (h : Inv p) {c : Cat} (hc : c ≠ q.category) :
    tailqRemove q p.categories c = p.categories c := by
  have hnot : q ∉ (p.categories c).head := fun hmem => hc ((h.fair c).mem.mp hmem).1.symm
  rw [tailqRemove, List.erase_of_not_mem hnot]

theorem txqEnqueue_txq (frms bytes : ℕ) : (txqEnqueue p q tid frms bytes).txq = p.txq := by
  unfold txqEnqueue
  split_ifs <;> rfl

theorem txqEnqueue_sent (frms bytes : ℕ) : (txqEnqueue p q tid frms bytes).sent = p.sent := by
  unfold txqEnqueue
  split_ifs <;> rfl

theorem txqEnqueue_other {c : Cat} (frms bytes : ℕ) (hc : c ≠ tidToAc tid) :
    (txqEnqueue p q tid frms bytes).categories c = p.categories c := by
  unfold txqEnqueue
  split_ifs <;> exact update_of_ne hc ..

theorem txqEnqueue_own (frms bytes : ℕ) :
    (txqEnqueue p q tid frms bytes).categories (tidToAc tid) =
      if (p.txq q).flag ≠ .active then
        { p.categories (tidToAc tid) with
          frms := (p.categories (tidToAc tid)).frms + frms
          bytes := (p.categories (tidToAc tid)).bytes + bytes
          head := (p.categories (tidToAc tid)).head ++ [q]
          active := true }
      else
        { p.categories (tidToAc tid) with
          frms := (p.categories (tidToAc tid)).frms + frms
          bytes := (p.categories (tidToAc tid)).bytes + bytes } := by
  unfold txqEnqueue
  split_ifs <;> exact update_self ..

/-- A frame joins a queue; the queue joins its category, unless it is paused or was there. -/
theorem Inv.enqueueTxq (h : Inv p) (q : TxqId) (d : TxDesc) : Inv (enqueueTxq p q d) := by
  obtain ⟨t, ht⟩ : ∃ t, t = p.txq q := ⟨_, rfl⟩
  have hok : t.Ok := ht ▸ h.ok q
  have hv : ∀ v k, q = .vdev v k → t.pausedTotal = 0 := by
    rintro v k rfl
    exact ht ▸ h.vdev v k
  have hframes : t.frms + 1 = (t.head ++ [d]).length := by
    rw [List.length_append, hok.frms, List.length_singleton]
  have hbytes : t.bytes + d.len = bytesOf (t.head ++ [d]) := by
    rw [hok.bytes, bytesOf, bytesOf, List.map_append, List.sum_append, List.map_singleton,
      List.sum_singleton]
  unfold OlTx.enqueueTxq
  rw [← ht]
  by_cases hp : t.flag = .paused
  · rw [if_neg (not_not_intro hp)]
    refine h.away (ht ▸ hp ▸ QueueStatus.noConfusion) (hp ▸ QueueStatus.noConfusion) ?_ hv
    refine ⟨hok.paused, ?_, hframes, hbytes, hok.lt⟩
    exact iff_of_false (hp ▸ QueueStatus.noConfusion) fun hand =>
      (hok.paused.mp hp).ne' hand.1
  · have hzero : t.pausedTotal = 0 := Nat.eq_zero_of_not_pos fun hpos => hp (hok.paused.mpr hpos)
    have hok' : (⟨t.pausedTotal, t.frms + 1, t.bytes + d.len, t.head ++ [d], .active⟩ : Txq).Ok :=
      ⟨iff_of_false QueueStatus.noConfusion fun hpos => hpos.ne' hzero,
        iff_of_true rfl ⟨hzero, Nat.succ_pos _⟩, hframes, hbytes, hok.lt⟩
    rw [if_pos hp]
    refine h.change (q := q) ?_ hok' hv (fun c hc => ?_) ?_ ?_
    · simp only [setTxq_txq, txqEnqueue_txq, update_idem, update_self]
    · rw [setTxq_categories, txqEnqueue_other _ _ hc, setTxq_categories]
    · rw [setTxq_categories]
      change Fair _ _ ((txqEnqueue _ q q.extTid 1 d.len).categories (tidToAc q.extTid))
      rw [txqEnqueue_own, setTxq_txq, update_self, setTxq_categories]
      change Fair _ (tidToAc q.extTid) (if t.flag ≠ .active then _ else _)
      by_cases ha : t.flag = .active
      · rw [if_neg (not_not_intro ha)]
        refine (h.fair _).stay ⟨rfl, ht ▸ ha⟩ rfl (.refl _) ?_ ?_ rfl
        · rw [← ht]
          push_cast
          omega
        · rw [← ht]
          push_cast
          omega
      · have hnone : t.frms = 0 := Nat.eq_zero_of_not_pos fun hpos =>
          ha (hok.active.mpr ⟨hzero, hpos⟩)
        have hbytes0 : t.bytes = 0 := by
          rw [hok.bytes, List.length_eq_zero_iff.mp (hok.frms.symm.trans hnone)]
          rfl
        rw [if_pos ha]
        refine (h.fair _).join (ht ▸ ha) rfl rfl rfl ?_ ?_ rfl
        · rw [hnone]
        · rw [hbytes0, Nat.zero_add]
    · rw [setTxq_sent, txqEnqueue_sent, setTxq_sent]
      exact h.sent

theorem txqDeactivate_txq : (txqDeactivate p q tid).txq = p.txq := rfl

theorem Inv.deactivate (h : Inv p) (t' : Txq) (hq : (p.txq q).flag = .active)
    (hfrms : t'.frms = (p.txq q).frms) (hbytes : t'.bytes = (p.txq q).bytes)
    (htid : tidToAc tid = q.category) (ht : t.Ok) (hflag : t.flag ≠ .active)
    (hv : ∀ v k, q = .vdev v k → t.pausedTotal = 0) :
    Inv ((txqDeactivate (p.setTxq q t') q tid).setTxq q t) := by
  refine h.change (q := q) ?_ ht hv (fun c hc => ?_) ?_ h.sent
  · rw [setTxq_txq, txqDeactivate_txq, setTxq_txq, update_idem]
  · unfold txqDeactivate
    rw [setTxq_categories, setCategory_categories, update_of_ne (htid ▸ hc)]
    exact h.tailqRemove_of_ne hc
  · unfold txqDeactivate
    rw [setTxq_categories, setCategory_categories, htid, update_self]
    refine (h.fair _).leave ⟨rfl, hq⟩ hflag h.pos rfl ?_ ?_ rfl
    · rw [setTxq_txq, update_self, hfrms]
      rfl
    · rw [setTxq_txq, update_self, hbytes]
      rfl

theorem setTxq_self : p.setTxq q (p.txq q) = p := by
  unfold Pdev.setTxq
  rw [update_eq_self]

theorem setTxq_setTxq (t' : Txq) : (p.setTxq q t').setTxq q t = p.setTxq q t := by
  unfold Pdev.setTxq
  rw [update_idem]

theorem Inv.queueFree (h : Inv p) (hzero : (p.txq q).pausedTotal = 0)
    (htid : (p.txq q).flag = .active → tidToAc tid = q.category) : Inv (queueFree p q tid) := by
  have hok := h.ok q
  have hcut : (p.txq q).bytes - bytesOf ((p.txq q).head.take (p.txq q).frms) = 0 := by
    rw [hok.frms, List.take_length, hok.bytes, Nat.sub_self]
  have hnew : Txq.Ok ⟨(p.txq q).pausedTotal, 0,
      (p.txq q).bytes - bytesOf ((p.txq q).head.take (p.txq q).frms), [], .empty⟩ :=
    ⟨iff_of_false QueueStatus.noConfusion fun hpos => hpos.ne' hzero,
      iff_of_false QueueStatus.noConfusion fun hand => Nat.lt_irrefl 0 hand.2, rfl, hcut, hok.lt⟩
  unfold OlTx.queueFree
  by_cases ha : (p.txq q).flag = .active
  · rw [if_pos ha]
    have hleft := h.deactivate (p.txq q) ha rfl rfl (htid ha) hnew
      QueueStatus.noConfusion fun _ _ _ => hzero
    rw [setTxq_self] at hleft
    exact hleft
  · rw [if_neg ha]
    exact h.away ha QueueStatus.noConfusion hnew fun _ _ _ => hzero

theorem Inv.peerTidPauseBase (h : Inv p) (peer : ℕ) (tid : Fin 18)
    (hroom : (p.txq (.peer peer tid)).pausedTotal ≠ 255) :
    Inv (peerTidPauseBase p peer tid) := by
  obtain ⟨q, hq⟩ : ∃ q, q = TxqId.peer peer tid := ⟨_, rfl⟩
  have hok := h.ok q
  have hv : ∀ v k, q = .vdev v k → ((p.txq q).pausedTotal + 1) % 256 = 0 := by
    rintro v k rfl
    exact TxqId.noConfusion hq
  have hmod : ((p.txq q).pausedTotal + 1) % 256 = (p.txq q).pausedTotal + 1 := by
    have := hok.lt
    rw [hq] at this ⊢
    omega
  have hnew : Txq.Ok { p.txq q with
      pausedTotal := ((p.txq q).pausedTotal + 1) % 256, flag := .paused } := by
    refine ⟨iff_of_true rfl ?_, iff_of_false QueueStatus.noConfusion fun hand => ?_, hok.frms,
      hok.bytes, Nat.mod_lt _ (by omega)⟩
    · rw [hmod]
      exact Nat.succ_pos _
    · rw [hmod] at hand
      exact Nat.succ_ne_zero _ hand.1
  simp only [OlTx.peerTidPauseBase, ← hq, setTxq_txq, update_self]
  by_cases hzero : (p.txq q).pausedTotal = 0
  · rw [if_pos hzero]
    by_cases ha : (p.txq q).flag = .active
    · rw [if_pos ha, txqDeactivate_txq, setTxq_txq, update_self]
      exact h.deactivate _ ha rfl rfl (by rw [hq]; rfl) hnew QueueStatus.noConfusion hv
    · rw [if_neg ha, setTxq_setTxq, setTxq_txq, update_self]
      exact h.away ha QueueStatus.noConfusion hnew hv
  · rw [if_neg hzero]
    have hflag : (p.txq q).flag = .paused := hok.paused.mpr (Nat.pos_of_ne_zero hzero)
    have hna : (p.txq q).flag ≠ .active := hflag ▸ QueueStatus.noConfusion
    rw [← hflag] at hnew
    exact h.away hna hna hnew hv

end

end KernelModules.OlTx
