import KernelModules.IspAccounting
import KernelModules.IspAcks

/-!
# The fences of the outputs

Whoever waits for an output waits for its fence. It is to be signalled once, by the time the
request is free again, and as a success only if the output was written outside of a bubble.
-/

namespace KernelModules.Isp

open List

variable {c : Ctx} {q q' : Queues} {req : Req} {f : Fence}

def Fence.times (f : Fence) : ℕ := f.signals.length + if f.elsewhere then 1 else 0

/-- A request whose outputs are still owed. Those that have been dealt with were signalled when
their buf done came. -/
structure Owed (req : Req) : Prop where
  accepted : req.accepted = true
  completed : req.completed = false
  opened : ∀ f ∈ req.fenceMapOut, f.syncId ≠ -1 → f.signals = []
  dealt : ∀ f ∈ req.fenceMapOut, f.syncId = -1 → f.signals.length = 1 ∧ f.elsewhere = false
  truthful : ∀ f ∈ req.fenceMapOut, .success ∈ f.signals → (f.resource, false) ∈ req.dones
  acked : ∀ f ∈ req.fenceMapOut, f.syncId = -1 → ∃ bubble, (f.resource, bubble) ∈ req.dones

structure Returned (req : Req) : Prop where
  atMost : ∀ f ∈ req.fenceMapOut, f.times ≤ 1
  once : req.accepted = true → ∀ f ∈ req.fenceMapOut, f.times = 1
  truthful : ∀ f ∈ req.fenceMapOut, .success ∈ f.signals → (f.resource, false) ∈ req.dones
  acked : req.completed = true →
    ∀ f ∈ req.fenceMapOut, ∃ bubble, (f.resource, bubble) ∈ req.dones

/-- No more outputs of a request have been acknowledged than dealt with, unless its bubble is looked
after; and every request can be found. -/
structure Truthful (q : Queues) : Prop where
  waits : ∀ req ∈ q.pending ++ q.wait, Owed req ∧ req.numAcked ≤ reset req
  active : ∀ req ∈ q.active, Owed req ∧ (¬ req.recovers → req.numAcked ≤ reset req)
  free : ∀ req ∈ q.free, Returned req
  lost : q.lost = []

theorem Owed.times (h : Owed req) (hf : f ∈ req.fenceMapOut) : f.times ≤ 1 := by
  unfold Fence.times
  by_cases ho : f.syncId = -1
  · obtain ⟨hlen, helse⟩ := h.dealt f hf ho
    rw [hlen, helse]
    rfl
  · rw [h.opened f hf ho]
    split
    · simp
    · simp

theorem fail_times (h : Owed req) (hf : f ∈ req.fenceMapOut) (b : Bool) :
    (f.fail b).times = 1 ∧ (f.fail b).resource = f.resource ∧
      (.success ∈ (f.fail b).signals → .success ∈ f.signals) := by
  unfold Fence.fail
  split
  · next ho =>
    obtain ⟨hlen, helse⟩ := h.dealt f hf ho
    refine ⟨?_, rfl, fun hs => hs⟩
    rw [Fence.times, hlen, helse]
    rfl
  · next ho =>
    have hnil := h.opened f hf ho
    cases helse : f.elsewhere with
    | false =>
      rw [signal_of_open _ ho helse]
      split
      · simp [Fence.times, hnil, helse]
      · simp [Fence.times, hnil, helse]
    | true =>
      rw [signal_of_elsewhere _ helse]
      split
      · simp [Fence.times, hnil, helse]
      · simp [Fence.times, hnil, helse]

theorem Owed.fail (h : Owed req) (b : Bool) : Returned (req.fail b) where
  atMost f hf := by
    obtain ⟨f', hf', rfl⟩ := mem_map.mp hf
    exact (fail_times h hf' b).1.le
  once _ f hf := by
    obtain ⟨f', hf', rfl⟩ := mem_map.mp hf
    exact (fail_times h hf' b).1
  truthful f hf hs := by
    obtain ⟨f', hf', rfl⟩ := mem_map.mp hf
    obtain ⟨-, hres, hsucc⟩ := fail_times h hf' b
    rw [hres]
    exact h.truthful f' hf' (hsucc hs)
  acked hc := by
    have hno := h.completed
    rw [show (req.fail b).completed = req.completed from rfl, hno] at hc
    contradiction

theorem Owed.flush (h : Owed req) : Returned req.flush :=
  ⟨(h.fail true).atMost, (h.fail true).once, (h.fail true).truthful, (h.fail true).acked⟩

theorem Owed.finish (h : Owed req) (hall : ∀ f ∈ req.fenceMapOut, f.syncId = -1) (b b' : Bool) :
    Returned { req with reapply := b, completed := b' } where
  atMost f hf := h.times hf
  once _ f hf := by
    obtain ⟨hlen, helse⟩ := h.dealt f hf (hall f hf)
    rw [Fence.times, hlen, helse]
    rfl
  truthful := h.truthful
  acked _ f hf := h.acked f hf (hall f hf)

theorem all_reset (hacked : req.numAcked ≤ reset req)
    (hlen : req.fenceMapOut.length = req.numAcked) : ∀ f ∈ req.fenceMapOut, f.syncId = -1 := by
  have hle : reset req ≤ req.fenceMapOut.length := countP_le_length
  have hall := countP_eq_length.mp (show reset req = req.fenceMapOut.length by omega)
  exact fun f hf => by simpa using hall f hf

theorem Acks.owed {handle : ℕ} {req' : Req} (hacks : Acks req handle req') (h : Owed req) :
    Owed req' := by
  have hnoted : Owed (req.note handle) :=
    ⟨h.accepted, h.completed, h.opened, h.dealt,
      fun f hf hs => mem_append_left _ (h.truthful f hf hs), fun f hf ho => by
        obtain ⟨bubble, hb⟩ := h.acked f hf ho
        exact ⟨bubble, mem_append_left _ hb⟩⟩
  cases hacks with
  | noted => exact hnoted
  | ignored hb =>
    exact ⟨hnoted.accepted, hnoted.completed, hnoted.opened, hnoted.dealt, hnoted.truthful,
      hnoted.acked⟩
  | @signalled j f status hj hres ho hf hstatus hb =>
    have hmem := mem_of_getElem? hj
    have hnil := h.opened f hmem ho
    have hnew : (f.resource, req.bubbleDetected) ∈ (req.note handle).dones := by
      rw [hres]
      exact mem_append_right _ (mem_singleton_self _)
    refine ⟨h.accepted, h.completed, fun f' hf' ho' => ?_, fun f' hf' ho' => ?_,
      fun f' hf' hs => ?_, fun f' hf' ho' => ?_⟩
    · rcases mem_or_eq_of_mem_set hf' with hold | rfl
      · exact h.opened f' hold ho'
      · exact absurd rfl ho'
    · rcases mem_or_eq_of_mem_set hf' with hold | rfl
      · exact h.dealt f' hold ho'
      · exact ⟨by simp [hnil], hf⟩
    · rcases mem_or_eq_of_mem_set hf' with hold | rfl
      · exact hnoted.truthful f' hold hs
      · simp only [hnil, nil_append, mem_singleton] at hs
        rw [hstatus hs.symm] at hnew
        exact hnew
    · rcases mem_or_eq_of_mem_set hf' with hold | rfl
      · exact hnoted.acked f' hold ho'
      · exact ⟨_, hnew⟩

theorem ackHandles_owed (h : Owed req) (hacked : ¬ req.recovers → req.numAcked ≤ reset req)
    (handles : List ℕ) :
    Owed (req.ackHandles handles).1 ∧ (¬ (req.ackHandles handles).1.recovers →
      (req.ackHandles handles).1.numAcked ≤ reset (req.ackHandles handles).1) := by
  refine ackHandles_induct (P := fun req => Owed req ∧ (¬ req.recovers →
    req.numAcked ≤ reset req)) ?_ ⟨h, hacked⟩ handles
  intro req handle req' hacks h
  refine ⟨hacks.owed h.1, fun hb => ?_⟩
  cases hacks with
  | noted => exact h.2 hb
  | ignored hb' => exact absurd hb' hb
  | signalled hj hres ho hf hstatus hb' =>
    have hle := h.2 hb'
    unfold reset at hle ⊢
    dsimp only
    rw [countP_set_open hj ho]
    · omega
    · rfl

theorem Truthful.bufDoneForRequest (h : Truthful q) {before after : List Req} {old : Req}
    (ha : q.active = before ++ old :: after) (handles : List ℕ) (lastFlushReq : ℕ) :
    Truthful (q.bufDoneForRequest before after (old.ackHandles handles).1 lastFlushReq) := by
  obtain ⟨hold, hacked⟩ := h.active old (by simp [ha])
  obtain ⟨howed, hacked⟩ := ackHandles_owed hold hacked handles
  generalize (old.ackHandles handles).1 = req at howed hacked
  have hothers : ∀ r ∈ before ++ after, Owed r ∧ (¬ r.recovers → r.numAcked ≤ reset r) :=
    fun r hr => h.active r (by
      rw [ha]
      simp only [mem_append, mem_cons] at hr ⊢
      tauto)
  have hcleared : Owed { req with numAcked := 0, bubbleDetected := false } :=
    ⟨howed.accepted, howed.completed, howed.opened, howed.dealt, howed.truthful, howed.acked⟩
  unfold Queues.bufDoneForRequest
  cases hdone : req.done lastFlushReq with
  | unfinished =>
    refine ⟨h.waits, fun r hr => ?_, h.free, h.lost⟩
    simp only [mem_append, mem_cons] at hr
    rcases hr with hr | rfl | hr
    · exact hothers r (mem_append_left _ hr)
    · exact ⟨howed, hacked⟩
    · exact hothers r (mem_append_right _ hr)
  | flushed =>
    refine ⟨h.waits, hothers, fun r hr => ?_, h.lost⟩
    rcases mem_append.mp hr with hr | hr
    · exact h.free r hr
    · obtain rfl := mem_singleton.mp hr
      exact hcleared.fail false
  | retried =>
    refine ⟨fun r hr => ?_, hothers, h.free, h.lost⟩
    rcases mem_cons.mp hr with rfl | hr
    · exact ⟨hcleared, Nat.zero_le _⟩
    · exact h.waits r hr
  | completed =>
    refine ⟨h.waits, hothers, fun r hr => ?_, h.lost⟩
    rcases mem_append.mp hr with hr | hr
    · exact h.free r hr
    · obtain rfl := mem_singleton.mp hr
      unfold Req.done at hdone
      split at hdone
      · contradiction
      next hall =>
      split at hdone
      · split at hdone <;> contradiction
      next hno =>
      have hle := hacked fun hb => hno (by simpa [Req.recovers] using hb)
      exact howed.finish (all_reset hle (not_not.mp hall).symm) false true

theorem Truthful.wait_head (h : Truthful q) {wait : List Req} (hw : q.wait = req :: wait) :
    (Owed req ∧ req.numAcked ≤ reset req) ∧
      ∀ r ∈ q.pending ++ wait, Owed r ∧ r.numAcked ≤ reset r := by
  refine ⟨h.waits req (by simp [hw]), fun r hr => h.waits r ?_⟩
  rw [hw]
  rcases mem_append.mp hr with hp | hr
  · exact mem_append_left _ hp
  · exact mem_append_right _ (mem_cons_of_mem _ hr)

theorem Truthful.active_append (h : Truthful q) (hreq : Owed req)
    (hacked : req.numAcked ≤ reset req) :
    ∀ r ∈ q.active ++ [req], Owed r ∧ (¬ r.recovers → r.numAcked ≤ reset r) := by
  intro r hr
  rcases mem_append.mp hr with hr | hr
  · exact h.active r hr
  · obtain rfl := mem_singleton.mp hr
    exact ⟨hreq, fun _ => hacked⟩

variable {l : List Req} {packet : Packet}

theorem Truthful.free_append (h : Truthful q) (hl : ∀ req ∈ l, Returned req) :
    ∀ r ∈ q.free ++ l, Returned r := by
  intro r hr
  rcases mem_append.mp hr with hr | hr
  · exact h.free r hr
  · exact hl r hr

theorem Truthful.regUpd (h : Truthful q) : Truthful q.regUpd := by
  unfold Queues.regUpd
  cases hw : q.wait with
  | nil => exact h
  | cons req wait =>
    obtain ⟨⟨hreq, hacked⟩, hrest⟩ := h.wait_head hw
    dsimp only
    split
    · exact ⟨hrest, h.active_append hreq hacked, h.free, h.lost⟩
    · next hno =>
      refine ⟨hrest, h.active, h.free_append fun r hr => ?_, h.lost⟩
      obtain rfl := mem_singleton.mp hr
      have hnil := eq_nil_of_length_eq_zero (not_not.mp hno)
      exact hreq.finish (fun f hf => by simp [hnil] at hf) r.reapply r.completed

theorem Truthful.regUpdInSof (h : Truthful q)
    (hreq : ∀ req ∈ q.wait.head?, req.fenceMapOut.length = req.numAcked) :
    Truthful q.regUpdInSof := by
  unfold Queues.regUpdInSof
  cases hw : q.wait with
  | nil => exact h
  | cons req wait =>
    obtain ⟨⟨howed, hacked⟩, hrest⟩ := h.wait_head hw
    have hlen := hreq req (by simp [hw])
    dsimp only
    rw [if_pos hlen]
    refine ⟨hrest, h.active, h.free_append fun r hr => ?_, h.lost⟩
    obtain rfl := mem_singleton.mp hr
    exact howed.finish (all_reset hacked hlen) r.reapply r.completed

theorem Truthful.reportBubble (h : Truthful q) (linked notes : Bool) :
    Truthful (q.reportBubble linked notes) := by
  unfold Queues.reportBubble
  cases hw : q.wait with
  | nil => exact h
  | cons req wait =>
    obtain ⟨⟨hreq, hacked⟩, hrest⟩ := h.wait_head hw
    have hbubble : Owed (req.bubble linked) :=
      ⟨hreq.accepted, hreq.completed, hreq.opened, hreq.dealt, hreq.truthful, hreq.acked⟩
    exact ⟨hrest, h.active_append hbubble hacked, h.free, h.lost⟩

theorem Truthful.reapply (h : Truthful q) : Truthful q.reapply := by
  unfold Queues.reapply
  cases ha : q.active with
  | nil => exact h
  | cons req active =>
    have hreq := (h.active req (by simp [ha])).1
    refine ⟨fun r hr => ?_, fun r hr => h.active r ?_, h.free, h.lost⟩
    · rcases mem_cons.mp hr with rfl | hr
      · exact ⟨⟨hreq.accepted, hreq.completed, hreq.opened, hreq.dealt, hreq.truthful,
          hreq.acked⟩, Nat.zero_le _⟩
      · exact h.waits r hr
    · rw [ha]
      exact mem_cons_of_mem _ hr

theorem returned_map_fail (hl : ∀ req ∈ l, Owed req) (b : Bool) :
    ∀ req ∈ l.map (Req.fail b), Returned req := by
  intro req hreq
  obtain ⟨r, hr, rfl⟩ := mem_map.mp hreq
  exact (hl r hr).fail b

theorem returned_map_flush (hl : ∀ req ∈ l, Owed req) : ∀ req ∈ l.map Req.flush, Returned req := by
  intro req hreq
  obtain ⟨r, hr, rfl⟩ := mem_map.mp hreq
  exact (hl r hr).flush

theorem Truthful.failActive (h : Truthful q) : Truthful q.failActive :=
  ⟨h.waits, fun _ hr => (not_mem_nil hr).elim,
    h.free_append (returned_map_fail (fun r hr => (h.active r hr).1) false), h.lost⟩

theorem returned_failed (hl : ∀ req ∈ l, Owed req) : ∀ req ∈ failed l, Returned req :=
  returned_map_fail (fun req hreq => hl req (takeWhile_subset _ hreq)) true

theorem Truthful.handleError (h : Truthful q)
    (hkept : ∀ req ∈ kept q.active, req.numAcked ≤ reset req) (lastAppliedReqId : ℕ) :
    Truthful (q.handleError lastAppliedReqId) := by
  have hactive : ∀ req ∈ kept q.active, Owed req ∧ req.numAcked ≤ reset req := fun req hreq =>
    ⟨(h.active req (dropWhile_subset _ hreq)).1, hkept req hreq⟩
  have hfailed := returned_failed fun req hreq => (h.active req hreq).1
  have hlists : Truthful q.errorInLists := by
    unfold Queues.errorInLists
    split
    · refine ⟨fun r hr => ?_, fun _ hr => (not_mem_nil hr).elim, h.free_append hfailed,
        h.lost⟩
      simp only [append_nil, mem_append] at hr
      rcases hr with hr | hr | hr
      · exact h.waits r (mem_append_right _ hr)
      · exact hactive r hr
      · exact h.waits r (mem_append_left _ hr)
    · refine ⟨fun r hr => ?_, fun _ hr => (not_mem_nil hr).elim, fun r hr => ?_, h.lost⟩
      · simp only [append_nil, mem_append] at hr
        rcases hr with hr | hr
        · exact h.waits r (mem_append_right _ (dropWhile_subset _ hr))
        · exact h.waits r (mem_append_left _ hr)
      · rcases mem_append.mp hr with hr | hr
        · exact h.free_append hfailed r hr
        · exact returned_failed (fun req hreq =>
            (h.waits req (mem_append_right _ hreq)).1) r hr
  refine ⟨fun r hr => hlists.waits r ?_, hlists.active,
    hlists.free_append (returned_map_fail (fun r hr => ?_) true), hlists.lost⟩
  · rcases mem_append.mp hr with hr | hr
    · exact mem_append_left _ (mem_of_mem_drop hr)
    · exact mem_append_right _ hr
  · exact (hlists.waits r (mem_append_left _ (mem_of_mem_take hr))).1

theorem owed_accept (old : Req) (hf : ∀ f ∈ packet.fences, 0 < f.2) : Owed (old.accept packet) := by
  have hopen : ∀ f ∈ (old.accept packet).fenceMapOut, f.syncId ≠ -1 ∧ f.signals = [] := by
    intro f hmem
    obtain ⟨g, hg, rfl⟩ := mem_map.mp hmem
    have hpos := hf g hg
    refine ⟨?_, rfl⟩
    dsimp only
    omega
  refine ⟨rfl, rfl, fun f hmem _ => (hopen f hmem).2, fun f hmem ho => ?_, fun f hmem hs => ?_,
    fun f hmem ho => ?_⟩
  · exact absurd ho (hopen f hmem).1
  · rw [(hopen f hmem).2] at hs
    contradiction
  · exact absurd ho (hopen f hmem).1

theorem owed_merge (h : Owed req) (hf : ∀ f ∈ packet.fences, 0 < f.2) :
    Owed (req.merge packet) := by
  have hnew := owed_accept req hf
  exact ⟨h.accepted, h.completed, hnew.opened, hnew.dealt, fun f hmem hs => by
    obtain ⟨g, -, rfl⟩ := mem_map.mp hmem
    contradiction, fun f hmem ho => by
    obtain ⟨bubble, hb⟩ := hnew.acked f hmem ho
    contradiction⟩

theorem returned_prepare (old : Req) (packet : Packet) : Returned (old.prepare packet) where
  atMost f hf := by
    obtain ⟨g, -, rfl⟩ := mem_map.mp hf
    simp [Fence.times]
  once h := by contradiction
  truthful f hf hs := by
    obtain ⟨g, -, rfl⟩ := mem_map.mp hf
    contradiction
  acked h := by contradiction

theorem Truthful.config (hm : ConfigMove c packet q') (h : Truthful c.q) : Truthful q' := by
  have hpending : ∀ req ∈ c.q.pending, Owed req ∧ req.numAcked ≤ reset req := fun req hreq =>
    h.waits req (mem_append_left _ hreq)
  have hwait : ∀ req ∈ c.q.wait, Owed req ∧ req.numAcked ≤ reset req := fun req hreq =>
    h.waits req (mem_append_right _ hreq)
  have hfree : ∀ {old free}, c.q.free = old :: free → ∀ req ∈ free, Returned req :=
    fun hf req hreq => h.free req (by rw [hf]; exact mem_cons_of_mem _ hreq)
  have hput : ∀ {old free} (back : Req), c.q.free = old :: free → Returned back →
      ∀ req ∈ free ++ [back], Returned req := by
    intro old free back hf hback req hreq
    rcases mem_append.mp hreq with hreq | hreq
    · exact hfree hf req hreq
    · obtain rfl := mem_singleton.mp hreq
      exact hback
  cases hm with
  | same => exact h
  | @untouched old free hf =>
    exact ⟨h.waits, h.active, hput old hf (h.free old (by simp [hf])), h.lost⟩
  | @refused old free hf =>
    exact ⟨h.waits, h.active, hput _ hf (returned_prepare old packet), h.lost⟩
  | @first old free hf hi hst hp hpos =>
    refine ⟨fun r hr => ?_, h.active, hfree hf, h.lost⟩
    rcases mem_append.mp hr with hr | hr
    · obtain rfl := mem_singleton.mp hr
      exact ⟨owed_accept old hpos, Nat.zero_le _⟩
    · exact hwait r hr
  | @merged old req free pending hf hi hst hp hno hpos =>
    refine ⟨fun r hr => ?_, h.active, hput _ hf (returned_prepare old packet), h.lost⟩
    obtain ⟨hreq, hacked⟩ := hpending req (by simp [hp])
    rcases mem_append.mp hr with hr | hr
    · rcases mem_cons.mp hr with rfl | hr
      · -- it had no outputs, so nothing of it has been acknowledged
        have hnil := eq_nil_of_length_eq_zero hno
        rw [reset, hnil] at hacked
        exact ⟨owed_merge hreq hpos, hacked.trans (Nat.zero_le _)⟩
      · exact hpending r (by simp [hp, hr])
    · exact hwait r hr
  | @update old free hf hi hpos =>
    refine ⟨fun r hr => ?_, h.active, hfree hf, h.lost⟩
    have hl := rdropWhile_append_rtakeWhile (l := c.q.pending)
      (p := ((old.accept packet).requestId < ·.requestId))
    dsimp only [enqueueRequestInOrder] at hr
    simp only [mem_append, mem_cons] at hr
    rcases hr with (hr | rfl | hr) | hr
    · exact hpending r (hl ▸ mem_append_left _ hr)
    · exact ⟨owed_accept old hpos, Nat.zero_le _⟩
    · exact hpending r (hl ▸ mem_append_right _ hr)
    · exact hwait r hr

theorem Truthful.start {c' : Ctx} {hwRc : ℤ} (hm : StartMove c hwRc c') (h : Truthful c.q) :
    Truthful c'.q := by
  cases hm with
  | refused => exact h
  | failed hp hacq hrc hs hl hq =>
    rw [hq]
    exact ⟨h.waits, h.active, h.free, h.lost⟩
  | @waits req pending c' hp hs hl hq =>
    rw [hq]
    refine ⟨fun r hr => h.waits r ?_, h.active, h.free, h.lost⟩
    rw [hp]
    simp only [mem_append, mem_cons, not_mem_nil, or_false] at hr ⊢
    tauto
  | @runs req pending c' hp hs hl hq =>
    obtain ⟨hreq, hacked⟩ := h.waits req (by simp [hp])
    rw [hq]
    refine ⟨fun r hr => h.waits r ?_, h.active_append hreq hacked, h.free, h.lost⟩
    rw [hp]
    exact mem_cons_of_mem _ hr

theorem Truthful.apply {apply : Apply} (hm : ApplyMove q apply q') (h : Truthful q) :
    Truthful q' := by
  have hreport : ∀ {req pending}, q.pending = req :: pending →
      Owed { req with bubbleReport := apply.reportIfBubble } ∧
        req.numAcked ≤ reset req := by
    intro req pending hp
    obtain ⟨hreq, hacked⟩ := h.waits req (by simp [hp])
    exact ⟨⟨hreq.accepted, hreq.completed, hreq.opened, hreq.dealt, hreq.truthful, hreq.acked⟩,
      hacked⟩
  cases hm with
  | same => exact h
  | @failed req pending hp =>
    refine ⟨fun r hr => ?_, h.active, h.free, h.lost⟩
    rcases mem_cons.mp hr with rfl | hr
    · exact hreport hp
    · exact h.waits r (by rw [hp]; exact mem_cons_of_mem _ hr)
  | @applied req pending hp =>
    refine ⟨fun r hr => ?_, h.active, h.free, h.lost⟩
    simp only [mem_append, mem_singleton] at hr
    rcases hr with hr | hr | rfl
    · exact h.waits r (by simp [hp, hr])
    · exact h.waits r (mem_append_right _ hr)
    · exact hreport hp

theorem Truthful.flushPending (h : Truthful q) (cancel : Option ℕ) :
    Truthful (q.flushPending cancel) := by
  have hpending : ∀ req ∈ q.pending, Owed req := fun req hreq =>
    (h.waits req (mem_append_left _ hreq)).1
  refine ⟨fun r hr => h.waits r ?_, h.active, h.free_append ?_, h.lost⟩
  · rcases mem_append.mp hr with hr | hr
    · refine mem_append_left _ ?_
      cases cancel with
      | none => contradiction
      | some id => exact eraseP_sublist.subset hr
    · exact mem_append_right _ hr
  · cases cancel with
    | none => exact returned_map_flush hpending
    | some id =>
      refine returned_map_flush fun req hreq => hpending req ?_
      exact mem_of_find?_eq_some (Option.mem_toList.mp hreq)

theorem Truthful.flushWaitAndActive (h : Truthful q) :
    Truthful { q.flushWaitAndActive with processBubble := false } := by
  refine ⟨fun r hr => h.waits r ?_, fun _ hr => (not_mem_nil hr).elim, fun r hr => ?_, h.lost⟩
  · exact mem_append_left _ (by simpa [Queues.flushWaitAndActive] using hr)
  · rcases mem_append.mp hr with hr | hr
    · exact h.free_append (returned_map_flush fun req hreq =>
        (h.waits req (mem_append_right _ hreq)).1) r hr
    · exact returned_map_flush (fun req hreq => (h.active req hreq).1) r hr

theorem Truthful.stop (h : Truthful q) : Truthful q.stop := by
  refine ⟨fun _ hr => (not_mem_nil hr).elim, fun _ hr => (not_mem_nil hr).elim,
    h.free_append (returned_map_fail (fun r hr => ?_) false), h.lost⟩
  rcases mem_append.mp hr with hr | hr
  · exact (h.waits r hr).1
  · exact (h.active r hr).1

theorem Truthful.setup (h : Truthful q) (hp : q.pending = []) (hw : q.wait = [])
    (ha : q.active = []) :
    Truthful { q with
      free := initReqList q, pending := [], wait := [], active := [], lost := [] } := by
  refine ⟨fun _ hr => (not_mem_nil hr).elim, fun _ hr => (not_mem_nil hr).elim,
    fun r hr => ?_, rfl⟩
  obtain ⟨i, -, rfl⟩ := mem_map.mp hr
  cases hfind : (allReqs q).find? (·.obj = i) with
  | none =>
    exact ⟨fun _ hf => (not_mem_nil hf).elim, fun h => by contradiction,
      fun _ hf => (not_mem_nil hf).elim, fun h => by contradiction⟩
  | some req =>
    have hmem := mem_of_find?_eq_some hfind
    simp only [allReqs, hp, hw, ha, h.lost, append_nil] at hmem
    exact h.free req hmem

theorem mem_mark {syncId : ℤ} (hf : f ∈ (req.mark syncId).fenceMapOut) :
    ∃ f₀ ∈ req.fenceMapOut, f = f₀ ∨ (f₀.signals = [] ∧ f = { f₀ with elsewhere := true }) := by
  obtain ⟨f₀, hf₀, rfl⟩ := mem_map.mp hf
  refine ⟨f₀, hf₀, ?_⟩
  split
  · next hcond => exact .inr ⟨hcond.2, rfl⟩
  · exact .inl rfl

theorem Owed.mark (h : Owed req) (syncId : ℤ) : Owed (req.mark syncId) := by
  refine ⟨h.accepted, h.completed, fun f hf ho => ?_, fun f hf ho => ?_, fun f hf hs => ?_,
    fun f hf ho => ?_⟩
  · obtain ⟨f₀, hf₀, rfl | ⟨hnil, rfl⟩⟩ := mem_mark hf
    · exact h.opened f hf₀ ho
    · exact hnil
  · obtain ⟨f₀, hf₀, rfl | ⟨hnil, rfl⟩⟩ := mem_mark hf
    · exact h.dealt f hf₀ ho
    · -- it has been signalled already
      have hlen := (h.dealt f₀ hf₀ ho).1
      rw [hnil] at hlen
      contradiction
  · obtain ⟨f₀, hf₀, rfl | ⟨hnil, rfl⟩⟩ := mem_mark hf
    · exact h.truthful f hf₀ hs
    · exact h.truthful f₀ hf₀ hs
  · obtain ⟨f₀, hf₀, rfl | ⟨hnil, rfl⟩⟩ := mem_mark hf
    · exact h.acked f hf₀ ho
    · exact h.acked f₀ hf₀ ho

theorem Returned.mark (h : Returned req) (syncId : ℤ) : Returned (req.mark syncId) := by
  refine ⟨fun f hf => ?_, fun hacc f hf => ?_, fun f hf hs => ?_, fun hc f hf => ?_⟩
  · obtain ⟨f₀, hf₀, rfl | ⟨hnil, rfl⟩⟩ := mem_mark hf
    · exact h.atMost f hf₀
    · simp [Fence.times, hnil]
  · obtain ⟨f₀, hf₀, rfl | ⟨hnil, rfl⟩⟩ := mem_mark hf
    · exact h.once hacc f hf₀
    · simp [Fence.times, hnil]
  · obtain ⟨f₀, hf₀, rfl | ⟨hnil, rfl⟩⟩ := mem_mark hf
    · exact h.truthful f hf₀ hs
    · exact h.truthful f₀ hf₀ hs
  · obtain ⟨f₀, hf₀, rfl | ⟨hnil, rfl⟩⟩ := mem_mark hf
    · exact h.acked hc f hf₀
    · exact h.acked hc f₀ hf₀

theorem reset_mark (req : Req) (syncId : ℤ) : reset (req.mark syncId) = reset req := by
  unfold reset Req.mark
  rw [countP_map]
  refine countP_congr fun f hmem => ?_
  simp only [Function.comp_apply]
  split <;> rfl

theorem Truthful.signal (h : Truthful q) (syncId : ℤ) : Truthful (signalElsewhere q syncId) := by
  refine ⟨fun r hr => ?_, fun r hr => ?_, fun r hr => ?_, ?_⟩
  · simp only [signalElsewhere, ← map_append] at hr
    obtain ⟨req, hreq, rfl⟩ := mem_map.mp hr
    rw [reset_mark]
    exact ⟨(h.waits req hreq).1.mark syncId, (h.waits req hreq).2⟩
  · obtain ⟨req, hreq, rfl⟩ := mem_map.mp hr
    rw [reset_mark]
    exact ⟨(h.active req hreq).1.mark syncId, (h.active req hreq).2⟩
  · obtain ⟨req, hreq, rfl⟩ := mem_map.mp hr
    exact (h.free req hreq).mark syncId
  · simp only [signalElsewhere, h.lost, map_nil]

/-- When an error is handled, no more outputs of the active requests that are put back have been
acknowledged than dealt with. In the SOF substate a reg update finds a request without open outputs,
if any; and no buf done runs out of requests. -/
def acknowledges : Conds where
  event c
    | .error => handled c .error → ∀ req ∈ kept c.q.active, req.numAcked ≤ reset req
    | .regUpdate => c.substate = .sof →
      ∀ req ∈ c.q.wait.head?, req.fenceMapOut.length = req.numAcked
    | .done handles => handled c (.done handles) → ¬ RunsOut c handles
    | _ => True

theorem truthful_kept : Kept acknowledges Truthful where
  config _ hm _ h := h.config hm
  start hm _ _ _ h := h.start hm
  apply hm _ h := h.apply hm
  event := by
    intro c e q' hm hc h
    cases hm with
    | same => exact h
    | error hh => exact h.handleError (hc hh) _
    | regUpd => exact h.regUpd
    | regUpdInSof hs => exact h.regUpdInSof (hc hs)
    | reportBubble => exact h.reportBubble ..
    | noBubble => exact ⟨h.waits, h.active, h.free, h.lost⟩
    | reapply => exact h.reapply
    | failActive => exact h.failActive
    | bufDone handles hh =>
      exact bufDone_kept h (hc hh) fun hd h => h.bufDoneForRequest hd.active _ _
  flushPending cancel h := h.flushPending cancel
  flushWaitAndActive h := h.flushWaitAndActive
  noBubble h := ⟨h.waits, h.active, h.free, h.lost⟩
  release _ h := ⟨h.waits, h.active, h.free, h.lost⟩
  stop h := h.stop
  setup hp hw ha h := h.setup hp hw ha
  signal syncId h := h.signal syncId

theorem truthful_initial : Truthful initial.q := by
  refine ⟨fun _ hr => (not_mem_nil hr).elim, fun _ hr => (not_mem_nil hr).elim,
    fun r hr => ?_, rfl⟩
  obtain ⟨i, -, rfl⟩ := mem_map.mp hr
  exact ⟨fun _ hf => (not_mem_nil hf).elim, fun h => by contradiction,
    fun _ hf => (not_mem_nil hf).elim, fun h => by contradiction⟩

/-- The fences of a request that is free, having been accepted, have been signalled once, and those
of others once at most; a success means that the output was written outside of a bubble, and to have
completed that each was. Every object is on one list, and all are free after the release. -/
structure Signalled (c : Ctx) : Prop where
  once : ∀ req ∈ c.q.free, req.accepted = true → ∀ f ∈ req.fenceMapOut, f.times = 1
  atMost : ∀ req ∈ allReqs c.q, ∀ f ∈ req.fenceMapOut, f.times ≤ 1
  truthful : ∀ req ∈ allReqs c.q, ∀ f ∈ req.fenceMapOut, .success ∈ f.signals →
    (f.resource, false) ∈ req.dones
  completed : ∀ req ∈ c.q.free, req.completed = true →
    ∀ f ∈ req.fenceMapOut, ∃ bubble, (f.resource, bubble) ∈ req.dones
  accepted : ∀ req ∈ c.q.pending ++ c.q.wait ++ c.q.active, req.accepted = true
  onLists : ∀ a, held c.q.free a + held c.q.pending a + held c.q.wait a + held c.q.active a =
    if a < reqMax then 1 else 0
  released : c.state = .available → ∀ a < reqMax, held c.q.free a = 1

theorem Truthful.signalled (h : Truthful c.q) (hs : Settled c) (hl : OnLists c.q) :
    Signalled c where
  once req hreq := (h.free req hreq).once
  atMost req hreq f hf := by
    simp only [allReqs, h.lost, append_nil, mem_append] at hreq
    rcases hreq with ((hreq | hreq) | hreq) | hreq
    · exact (h.free req hreq).atMost f hf
    · exact (h.waits req (mem_append_left _ hreq)).1.times hf
    · exact (h.waits req (mem_append_right _ hreq)).1.times hf
    · exact (h.active req hreq).1.times hf
  truthful req hreq := by
    simp only [allReqs, h.lost, append_nil, mem_append] at hreq
    rcases hreq with ((hreq | hreq) | hreq) | hreq
    · exact (h.free req hreq).truthful
    · exact (h.waits req (mem_append_left _ hreq)).1.truthful
    · exact (h.waits req (mem_append_right _ hreq)).1.truthful
    · exact (h.active req hreq).1.truthful
  completed req hreq := (h.free req hreq).acked
  accepted req hreq := by
    rcases mem_append.mp hreq with hreq | hreq
    · exact (h.waits req hreq).1.accepted
    · exact (h.active req hreq).1.accepted
  onLists := hl.once
  released hst a ha := by
    obtain ⟨hw, hact⟩ := hs.idle (by simp [hst])
    have honce := hl.once a
    rw [hs.available hst, hw, hact, if_pos ha] at honce
    exact honce

/-- As long as the critical steps go well, every fence is signalled once and truthfully. -/
theorem signalled_of_acknowledges {is : List Input}
    (hm : machine.Meets acknowledges.Step initial is) : Signalled (machine.run initial is).1 := by
  obtain ⟨hs, htruth⟩ := truthful_kept.run truthful_initial hm
  exact htruth.signalled hs (onLists_of_meets (K := acknowledges) (fun _ h => h) (fun _ _ h => h) hm)

def stoppedRun : List Input :=
  [.acquireDev (some .pix), .link,
    .config { requestId := 1, init := true, fences := [(3, 7), (4, 8)] } {}, .start 0,
    .event (.done [3]), .stop, .releaseDev]

theorem stoppedRun_signalled : Signalled (machine.run initial stoppedRun).1 := by
  have hm : machine.Meets acknowledges.Step initial stoppedRun :=
    ⟨trivial, trivial, ⟨trivial, fun _ => trivial⟩, fun _ => trivial,
      fun _ _ ⟨req, hreq, hdone, _⟩ => by
        cases hreq
        exact hdone (by decide), trivial, trivial, trivial⟩
  exact signalled_of_acknowledges hm

/-- A second request with two outputs is in a bubble when one of them is written. An error puts it
back with that counted; applied again without bubble recovery, it completes with the other. -/
def countedInBubble : List Input :=
  [.acquireDev (some .pix), .link, .config { requestId := 1, init := true } {}, .start 0,
    .event .sof, .event .regUpdate,
    .config { requestId := 2, fences := [(3, 7), (4, 8)] } {}, .apply { requestId := 2 } 0,
    .event .epoch, .event (.done [3]), .event .error, .event .sof, .event .regUpdate,
    .event .epoch, .apply { requestId := 2, reportIfBubble := false } 0, .event .regUpdate,
    .event (.done [4])]

/-- Then it is free, and nobody has signalled the first one. -/
theorem countedInBubble_unsignalled :
    ¬ ∀ is : List Input, Signalled (machine.run initial is).1 := by
  intro h
  have honce := (h countedInBubble).once
  revert honce
  decide

end KernelModules.Isp
