import KernelModules.CopyEngineRings

/-!
# Copy engines lose nothing

What a send or an enqueue accepts is given back once, in order, by a completion or when the
engine is stopped. It is so for every engine but those of the data path in fastpath mode. The
index that the host has cached stays in order as long as no error is read and nothing cancelled,
and a sendlist is posted as a whole where the target stays accessible.
-/

namespace KernelModules.CopyEngine

open WordRing (Holds Moved wrap distance)

variable {ce : Engine} {s s' : CeState} {ts ts' new done : List Transfer}
  {bs bs' newb doneb : List Buffer} {os : List Out} {i : Event}

/-- Every accepted context has been given back, in order, or is in the ring, and one entry of
the ring is free. -/
structure Lossless (ce : Engine) (s : CeState) (os : List Out) : Prop where
  sends : os.filterMap Out.sent? = os.filterMap Out.sendDone? ++ pendingSends ce s
  recvs : os.filterMap Out.queued? = os.filterMap Out.recvDone? ++ pendingRecvs ce s
  sendRoom : (pendingSends ce s).length ≤ ce.srcNentries.toNat - 1
  recvRoom : (pendingRecvs ce s).length ≤ ce.destNentries.toNat - 1

/-- From the software index on, the index that is cached comes before that of the target, if it
is one, and that of the target before the write index. -/
structure InOrder (ce : Engine) (s : CeState) : Prop where
  cached : s.src.hwIndex = readError ∨
    ceRingDelta ce.srcMask s.src.swIndex s.src.hwIndex ≤
      ceRingDelta ce.srcMask s.src.swIndex s.src.readIndex
  src : ceRingDelta ce.srcMask s.src.swIndex s.src.readIndex ≤
    ceRingDelta ce.srcMask s.src.swIndex s.src.writeIndex
  dest : ceRingDelta ce.destMask s.dest.swIndex s.dest.readIndex ≤
    ceRingDelta ce.destMask s.dest.swIndex s.dest.writeIndex

def srcOutstanding (ce : Engine) (s : CeState) (k : UInt32) : Prop :=
  ceRingDelta ce.srcMask s.src.swIndex k < ceRingDelta ce.srcMask s.src.swIndex s.src.writeIndex

def destOutstanding (ce : Engine) (s : CeState) (k : UInt32) : Prop :=
  ceRingDelta ce.destMask s.dest.swIndex k <
    ceRingDelta ce.destMask s.dest.swIndex s.dest.writeIndex

/-- A slot keeps what it holds until it is given back. -/
structure Keeps (ce : Engine) (s : CeState) (i : Event) : Prop where
  src : ∀ k, k < ce.srcNentries → srcOutstanding ce s k →
    srcOutstanding ce (step ce s i).1 k ∧
        (step ce s i).1.src.transfer k.toNat = s.src.transfer k.toNat ∨
      s.src.transfer k.toNat ∈ (step ce s i).2.filterMap Out.sendDone?
  dest : ∀ k, k < ce.destNentries → destOutstanding ce s k →
    destOutstanding ce (step ce s i).1 k ∧
        (step ce s i).1.dest.buffer k.toNat = s.dest.buffer k.toNat ∨
      s.dest.buffer k.toNat ∈ (step ce s i).2.filterMap Out.recvDone?

/-- A sendlist that finds the target accessible throughout is accepted and posted, or neither. -/
def Whole (ce : Engine) (s : CeState) : Prop :=
  ∀ ctx frags last transferId access, (∀ f ∈ frags ++ [last], f.access = true) →
    (step ce s (.sendlist ctx frags last transferId access)).2 =
        (sendlistTransfers ctx frags last transferId).map .sent ++ [.status true] ∨
      step ce s (.sendlist ctx frags last transferId access) = (s, [.status false])

structure Sound (ce : Engine) (s : CeState) (ts : List Transfer) (bs : List Buffer) : Prop where
  src : SrcHolds ce s.src ts
  dest : DestHolds ce s.dest bs

structure Ordered (ce : Engine) (s : CeState) : Prop where
  src : SrcOrdered ce s.src
  dest : DestOrdered ce s.dest

structure Turned (ce : Engine) (s s' : CeState) (os : List Out) (ts ts' : List Transfer)
    (bs bs' : List Buffer) : Prop where
  sound : Sound ce s' ts' bs'
  sends : Moved ce.srcNentries.toNat s.src.swIndex.toNat ts s'.src.swIndex.toNat ts'
    (os.filterMap Out.sent?) (os.filterMap Out.sendDone?)
  recvs : Moved ce.destNentries.toNat s.dest.swIndex.toNat bs s'.dest.swIndex.toNat bs'
    (os.filterMap Out.queued?) (os.filterMap Out.recvDone?)

theorem filterMap_map_some {α β γ : Type*} (f : α → β) (g : β → Option γ) (h : α → γ)
    (hg : ∀ a, g (f a) = some (h a)) (l : List α) : (l.map f).filterMap g = l.map h := by
  induction l with
  | nil => rfl
  | cons a l ih => rw [List.map_cons, List.filterMap_cons_some (hg a), ih, List.map_cons]

theorem filterMap_map_none {α β γ : Type*} (f : α → β) (g : β → Option γ)
    (hg : ∀ a, g (f a) = none) (l : List α) : (l.map f).filterMap g = [] := by
  induction l with
  | nil => rfl
  | cons a l ih => rw [List.map_cons, List.filterMap_cons_none (hg a), ih]

theorem filterMap_status {γ : Type*} (g : Out → Option γ) (hg : ∀ ok, g (.status ok) = none)
    (os : List Out) (ok : Bool) : (os ++ [Out.status ok]).filterMap g = os.filterMap g := by
  rw [List.filterMap_append, List.filterMap_cons_none (hg ok), List.filterMap_nil, List.append_nil]

theorem Turned.status (h : Turned ce s s' os ts ts' bs bs') (ok : Bool) :
    Turned ce s s' (os ++ [.status ok]) ts ts' bs bs' := by
  refine ⟨h.sound, ?_, ?_⟩
  · rw [filterMap_status Out.sent? (fun _ => rfl), filterMap_status Out.sendDone? (fun _ => rfl)]
    exact h.sends
  · rw [filterMap_status Out.queued? (fun _ => rfl), filterMap_status Out.recvDone? (fun _ => rfl)]
    exact h.recvs

theorem Posted.turned (h : Posted ce s s' ts new os) (hd : DestHolds ce s.dest bs) :
    Turned ce s s' os ts (ts ++ new) bs bs := by
  obtain ⟨hholds, _, hsw, hdest, houts⟩ := h
  refine ⟨⟨hholds, hdest ▸ hd⟩, ?_, ?_⟩
  · rw [houts, filterMap_map_some Out.sent Out.sent? id (fun _ => rfl), List.map_id,
      filterMap_map_none Out.sent Out.sendDone? (fun _ => rfl), hsw]
    exact .pushed rfl rfl rfl
  · rw [houts, filterMap_map_none Out.sent Out.queued? (fun _ => rfl),
      filterMap_map_none Out.sent Out.recvDone? (fun _ => rfl), hdest]
    exact Moved.refl _ _ _

theorem Taken.turned (h : Taken ce s s' ts ts' done os) (hd : DestHolds ce s.dest bs) :
    Turned ce s s' os ts ts' bs bs := by
  obtain ⟨hholds, hmoved, hdest, houts⟩ := h
  refine ⟨⟨hholds, hdest ▸ hd⟩, ?_, ?_⟩
  · rw [houts, filterMap_map_none Out.sendDone Out.sent? (fun _ => rfl),
      filterMap_map_some Out.sendDone Out.sendDone? id (fun _ => rfl), List.map_id]
    exact hmoved
  · rw [houts, filterMap_map_none Out.sendDone Out.queued? (fun _ => rfl),
      filterMap_map_none Out.sendDone Out.recvDone? (fun _ => rfl), hdest]
    exact Moved.refl _ _ _

theorem Received.turned (h : Received ce s s' bs bs' newb doneb os) (hs : SrcHolds ce s.src ts) :
    Turned ce s s' os ts ts bs bs' := by
  obtain ⟨hholds, hmoved, hsrc, hqueued, hrecv, hsent, hdone⟩ := h
  refine ⟨⟨hsrc ▸ hs, hholds⟩, ?_, ?_⟩
  · rw [hsent, hdone, hsrc]
    exact Moved.refl _ _ _
  · rw [hqueued, hrecv]
    exact hmoved

theorem step_turned (hplain : ce.fastpath = false) (h : Sound ce s ts bs) (ho : Ordered ce s)
    (hi : i.final = false) :
    ∃ ts' bs', Turned ce s (step ce s i).1 (step ce s i).2 ts ts' bs bs' ∧
      Ordered ce (step ce s i).1 := by
  obtain ⟨hsrc, hdest⟩ := h
  cases i with
  | send ctx f transferId =>
    obtain ⟨new, hpost⟩ := ceSendNolock_posted hsrc ctx f transferId
    exact ⟨_, _, (hpost.turned hdest).status _, hpost.ordered ho.src, hpost.dest ▸ ho.dest⟩
  | sendlist ctx frags last transferId access =>
    obtain ⟨new, hpost⟩ := ceSendlistSend_posted hplain hsrc ctx frags last transferId access
    exact ⟨_, _, (hpost.turned hdest).status _, hpost.ordered ho.src, hpost.dest ▸ ho.dest⟩
  | recvBufEnqueue ctx buffer access =>
    obtain ⟨bs', new, hrecv, hord⟩ :=
      ceRecvBufEnqueue_received hplain hdest ho.dest ctx buffer access
    exact ⟨_, _, (hrecv.turned hsrc).status _, hrecv.src ▸ ho.src, hord⟩
  | targetTake =>
    obtain ⟨hholds, hsw, hdest'⟩ := targetTake_src hsrc
    refine ⟨ts, bs, ⟨⟨hholds, hdest' ▸ hdest⟩, ?_, ?_⟩, ho.src.targetTake hsrc, hdest' ▸ ho.dest⟩
    · exact hsw ▸ Moved.refl _ _ _
    · exact hdest' ▸ Moved.refl _ _ _
  | targetFill nbytes metaData swap =>
    obtain ⟨hholds, hsw⟩ := targetFill_dest hdest nbytes metaData swap
    have hsrc' : (targetFill ce s nbytes metaData swap).src = s.src := targetFill_src ..
    refine ⟨ts, bs, ⟨⟨?_, hholds⟩, ?_, ?_⟩, ?_, ho.dest.targetFill hdest nbytes metaData swap⟩
    · exact hsrc' ▸ hsrc
    · exact hsrc' ▸ Moved.refl _ _ _
    · exact hsw ▸ Moved.refl _ _ _
    · exact hsrc' ▸ ho.src
  | completedSendNext accessBegin accessEnd err =>
    obtain ⟨ts', done, htaken, hord⟩ :=
      ceCompletedSendNext_taken hsrc ho.src accessBegin accessEnd err
    exact ⟨_, _, (htaken.turned hdest).status _, hord, htaken.dest ▸ ho.dest⟩
  | completedRecvNext =>
    obtain ⟨bs', done, hrecv, hord⟩ := ceCompletedRecvNext_received hdest ho.dest
    exact ⟨_, _, (hrecv.turned hsrc).status _, hrecv.src ▸ ho.src, hord⟩
  | cancelSendNext => cases hi
  | revokeRecvNext => cases hi

theorem final_turned (h : Sound ce s ts bs) (hi : i.final = true) :
    Turned ce s (step ce s i).1 (step ce s i).2 ts (if i = .cancelSendNext then ts.tail else ts)
      bs (if i = .revokeRecvNext then bs.tail else bs) := by
  obtain ⟨hsrc, hdest⟩ := h
  cases i with
  | cancelSendNext =>
    obtain ⟨ts', done, htaken, rfl⟩ := ceCancelSendNext_taken hsrc
    rw [if_pos rfl, if_neg (by decide)]
    exact (htaken.turned hdest).status _
  | revokeRecvNext =>
    obtain ⟨done, hrecv⟩ := ceRevokeRecvNext_received hdest
    rw [if_neg (by decide), if_pos rfl]
    exact (hrecv.turned hsrc).status _
  | send ctx f transferId => cases hi
  | sendlist ctx frags last transferId access => cases hi
  | recvBufEnqueue ctx buffer access => cases hi
  | targetTake => cases hi
  | targetFill nbytes metaData swap => cases hi
  | completedSendNext accessBegin accessEnd err => cases hi
  | completedRecvNext => cases hi

variable {k : UInt32}

theorem toNat_srcDelta (h : SrcHolds ce s.src ts) (hk : k < ce.srcNentries) :
    (ceRingDelta ce.srcMask s.src.swIndex k).toNat =
      distance ce.srcNentries.toNat s.src.swIndex.toNat k.toNat :=
  toNat_delta ce.srcPow h.shadow.read_lt (UInt32.lt_iff_toNat_lt.mp hk)

theorem toNat_destDelta (h : DestHolds ce s.dest bs) (hk : k < ce.destNentries) :
    (ceRingDelta ce.destMask s.dest.swIndex k).toNat =
      distance ce.destNentries.toNat s.dest.swIndex.toNat k.toNat :=
  toNat_delta ce.destPow h.read_lt (UInt32.lt_iff_toNat_lt.mp hk)

theorem SrcHolds.delta_write (h : SrcHolds ce s.src ts) :
    (ceRingDelta ce.srcMask s.src.swIndex s.src.writeIndex).toNat = ts.length := by
  rw [toNat_srcDelta h (UInt32.lt_iff_toNat_lt.mpr h.shadow.write_lt), h.shadow.distance_eq]

theorem DestHolds.delta_write (h : DestHolds ce s.dest bs) :
    (ceRingDelta ce.destMask s.dest.swIndex s.dest.writeIndex).toNat = bs.length := by
  have hw : s.dest.writeIndex < ce.destNentries := UInt32.lt_iff_toNat_lt.mpr h.write_lt
  rw [toNat_destDelta h hw, h.distance_eq]

theorem Sound.pendingSends_eq (h : Sound ce s ts bs) : pendingSends ce s = ts := by
  unfold pendingSends
  rw [h.src.delta_write]
  exact h.src.shadow.get_eq

theorem Sound.pendingRecvs_eq (h : Sound ce s ts bs) : pendingRecvs ce s = bs := by
  unfold pendingRecvs
  rw [h.dest.delta_write]
  exact h.dest.get_eq

theorem Sound.inOrder (h : Sound ce s ts bs) (ho : Ordered ce s) : InOrder ce s := by
  obtain ⟨⟨hlt, hread, hcached⟩, hdlt, hdread, _⟩ := ho
  have hw := h.src.shadow.write_lt
  have hdw : s.dest.writeIndex.toNat < ce.destNentries.toNat := h.dest.write_lt
  refine ⟨?_, ?_, ?_⟩
  · apply hcached.imp_right
    rintro ⟨hhw, hle⟩
    rw [UInt32.le_iff_toNat_le, toNat_srcDelta h.src (UInt32.lt_iff_toNat_lt.mpr hhw),
      toNat_srcDelta h.src (UInt32.lt_iff_toNat_lt.mpr hlt)]
    exact hle
  · rw [UInt32.le_iff_toNat_le, toNat_srcDelta h.src (UInt32.lt_iff_toNat_lt.mpr hlt),
      toNat_srcDelta h.src (UInt32.lt_iff_toNat_lt.mpr hw)]
    exact hread
  · rw [UInt32.le_iff_toNat_le, toNat_destDelta h.dest (UInt32.lt_iff_toNat_lt.mpr hdlt),
      toNat_destDelta h.dest (UInt32.lt_iff_toNat_lt.mpr hdw)]
    exact hdread

theorem srcOutstanding_iff (h : SrcHolds ce s.src ts) (hk : k < ce.srcNentries) :
    srcOutstanding ce s k ↔
      distance ce.srcNentries.toNat s.src.swIndex.toNat k.toNat < ts.length := by
  unfold srcOutstanding
  rw [UInt32.lt_iff_toNat_lt, toNat_srcDelta h hk, h.delta_write]

theorem destOutstanding_iff (h : DestHolds ce s.dest bs) (hk : k < ce.destNentries) :
    destOutstanding ce s k ↔
      distance ce.destNentries.toNat s.dest.swIndex.toNat k.toNat < bs.length := by
  unfold destOutstanding
  rw [UInt32.lt_iff_toNat_lt, toNat_destDelta h hk, h.delta_write]

theorem Turned.keeps (h : Sound ce s ts bs)
    (ht : Turned ce s (step ce s i).1 (step ce s i).2 ts ts' bs bs') : Keeps ce s i := by
  constructor
  · intro k hk hout
    rw [srcOutstanding_iff h.src hk] at hout
    rw [srcOutstanding_iff ht.sound.src hk]
    exact ht.sends.kept h.src.shadow ht.sound.src.shadow (UInt32.lt_iff_toNat_lt.mp hk) hout
  · intro k hk hout
    rw [destOutstanding_iff h.dest hk] at hout
    rw [destOutstanding_iff ht.sound.dest hk]
    exact ht.recvs.kept h.dest ht.sound.dest (UInt32.lt_iff_toNat_lt.mp hk) hout

theorem Sound.whole (hplain : ce.fastpath = false) (h : Sound ce s ts bs) : Whole ce s := by
  intro ctx frags last transferId access hf
  have hfrags : ∀ f ∈ frags, f.access = true := fun f hmem => hf f (List.mem_append_left _ hmem)
  have hlast := hf last (List.mem_append_right _ (List.mem_singleton.mpr rfl))
  rcases ceSendlistSend_whole hplain h.src ctx transferId access hfrags hlast with ⟨hok, houts⟩ | heq
  · left
    change _ ++ [Out.status _] = _
    rw [hok, houts]
  · right
    change Res.done _ = _
    rw [heq]
    rfl

structure Account (ce : Engine) (s : CeState) (os : List Out) (ts : List Transfer)
    (bs : List Buffer) : Prop where
  sound : Sound ce s ts bs
  sends : os.filterMap Out.sent? = os.filterMap Out.sendDone? ++ ts
  recvs : os.filterMap Out.queued? = os.filterMap Out.recvDone? ++ bs

theorem Account.turned {os₁ : List Out} (h : Account ce s os ts bs)
    (ht : Turned ce s s' os₁ ts ts' bs bs') : Account ce s' (os ++ os₁) ts' bs' := by
  refine ⟨ht.sound, ?_, ?_⟩
  · rw [List.filterMap_append, List.filterMap_append, h.sends, List.append_assoc,
      ht.sends.append_eq, List.append_assoc]
  · rw [List.filterMap_append, List.filterMap_append, h.recvs, List.append_assoc,
      ht.recvs.append_eq, List.append_assoc]

theorem Account.noLoss (h : Account ce s os ts bs) : Lossless ce s os := by
  have hsends := h.sound.src.shadow.room
  have hrecvs : bs.length < ce.destNentries.toNat := h.sound.dest.room
  refine ⟨?_, ?_, ?_, ?_⟩
  · rw [h.sound.pendingSends_eq, h.sends]
  · rw [h.sound.pendingRecvs_eq, h.recvs]
  · rw [h.sound.pendingSends_eq]
    omega
  · rw [h.sound.pendingRecvs_eq]
    omega

theorem account_init (ce : Engine) : Account ce ce.init [] [] [] :=
  ⟨⟨⟨Holds.nil ce.srcStart_lt, Holds.nil ce.srcStart_lt⟩, Holds.nil ce.destStart_lt⟩, rfl, rfl⟩

theorem ordered_init (ce : Engine) : Ordered ce ce.init := by
  refine ⟨⟨ce.srcStart_lt, le_rfl, .inr ⟨ce.srcStart_lt, le_rfl⟩⟩, ce.destStart_lt, le_rfl, ?_⟩
  exact fun _ _ hne => absurd rfl hne

theorem account_run (hplain : ce.fastpath = false) {is : List Event}
    (his : ∀ i ∈ is, i.final = false) :
    ∃ ts bs, Account ce ((machine ce).run ce.init is).1 ((machine ce).run ce.init is).2 ts bs ∧
      Ordered ce ((machine ce).run ce.init is).1 := by
  apply (machine ce).history_of_meets (C := fun _ i => i.final = false)
    (I := fun _ os s => ∃ ts bs, Account ce s os ts bs ∧ Ordered ce s)
    _ ⟨[], [], account_init ce, ordered_init ce⟩ ((machine ce).meets_of_forall _ his)
  rintro _ os s i ⟨ts, bs, hacc, hord⟩ hi
  obtain ⟨ts', bs', ht, hord'⟩ := step_turned hplain hacc.sound hord hi
  exact ⟨ts', bs', hacc.turned ht, hord'⟩

theorem account_final (h : Account ce s os ts bs) {fs : List Event}
    (hfs : ∀ i ∈ fs, i.final = true) :
    Account ce ((machine ce).run s fs).1 (os ++ ((machine ce).run s fs).2)
      (ts.drop (fs.count .cancelSendNext)) (bs.drop (fs.count .revokeRecvNext)) := by
  induction fs generalizing s os ts bs with
  | nil =>
    rw [Machine.run_nil, List.append_nil]
    exact h
  | cons i fs ih =>
    have ht := final_turned h.sound (hfs i List.mem_cons_self)
    have hrest := ih (h.turned ht) fun j hj => hfs j (List.mem_cons_of_mem _ hj)
    rw [Machine.run_cons, ← List.append_assoc]
    have hdrop : ∀ {α : Type} (e : Event) (l : List α),
        (if i = e then l.tail else l).drop (fs.count e) = l.drop ((i :: fs).count e) := by
      intro α e l
      rw [List.count_cons]
      split
      · rename_i heq
        rw [if_pos (by simpa using heq), ← List.drop_one, List.drop_drop, Nat.add_comm]
      · rename_i hne
        rw [if_neg (by simpa using hne), Nat.add_zero]
    rw [hdrop, hdrop] at hrest
    exact hrest

/-- Outside the data path of fastpath mode the rings are in order until the engine is stopped, keep
every slot until it is given back, and give back all that they accept, in order; as many calls at
the end as there are contexts left give them all back. -/
theorem lossless (ce : Engine) (hplain : ce.fastpath = false) (is fs : List Event)
    (his : ∀ i ∈ is, i.final = false) (hfs : ∀ i ∈ fs, i.final = true) :
    InOrder ce ((machine ce).run ce.init is).1 ∧ Whole ce ((machine ce).run ce.init is).1 ∧
      (∀ i, Keeps ce ((machine ce).run ce.init is).1 i) ∧
      (∀ i, i.final = true → Keeps ce ((machine ce).run ce.init (is ++ fs)).1 i) ∧
      Lossless ce ((machine ce).run ce.init (is ++ fs)).1
        ((machine ce).run ce.init (is ++ fs)).2 ∧
      ((pendingSends ce ((machine ce).run ce.init is).1).length ≤ fs.count .cancelSendNext →
        pendingSends ce ((machine ce).run ce.init (is ++ fs)).1 = []) ∧
      ((pendingRecvs ce ((machine ce).run ce.init is).1).length ≤ fs.count .revokeRecvNext →
        pendingRecvs ce ((machine ce).run ce.init (is ++ fs)).1 = []) := by
  obtain ⟨ts, bs, hacc, hord⟩ := account_run hplain his
  have hend := account_final hacc hfs
  rw [Machine.run_append]
  refine ⟨hacc.sound.inOrder hord, hacc.sound.whole hplain, ?_, ?_, hend.noLoss, ?_, ?_⟩
  · intro i
    cases hi : i.final with
    | false =>
      obtain ⟨ts', bs', ht, _⟩ := step_turned hplain hacc.sound hord hi
      exact ht.keeps hacc.sound
    | true => exact (final_turned hacc.sound hi).keeps hacc.sound
  · intro i hi
    exact (final_turned hend.sound hi).keeps hend.sound
  · rw [hacc.sound.pendingSends_eq, hend.sound.pendingSends_eq]
    exact List.drop_eq_nil_of_le
  · rw [hacc.sound.pendingRecvs_eq, hend.sound.pendingRecvs_eq]
    exact List.drop_eq_nil_of_le

/-- Four entries in each ring, for the data that is sent in fastpath mode or not. -/
def smallEngine (fast : Bool) : Engine where
  srcNentries := 4
  destNentries := 4
  fastpathModeOn := fast
  httTxData := fast
  httRxData := false
  srcStart := 0
  destStart := 0
  srcPow := ⟨2, rfl⟩
  destPow := ⟨2, rfl⟩
  srcStart_lt := by decide
  destStart_lt := by decide

def smallFrag (access : Bool) : Frag := ⟨0x1000, 64, access⟩

def smallCalls : List Event :=
  [.send 1 (smallFrag true) 7, .sendlist 2 [smallFrag true] (smallFrag true) 8 true,
    .recvBufEnqueue 3 0x2000 true, .targetTake, .targetFill 10 9 false,
    .completedSendNext true true false, .completedRecvNext]

theorem lossless_small : Lossless (smallEngine false)
    ((machine (smallEngine false)).run (smallEngine false).init
      (smallCalls ++ [.cancelSendNext, .cancelSendNext])).1
    ((machine (smallEngine false)).run (smallEngine false).init
      (smallCalls ++ [.cancelSendNext, .cancelSendNext])).2 :=
  (lossless (smallEngine false) rfl smallCalls [.cancelSendNext, .cancelSendNext] (by decide)
    (by decide)).2.2.2.2.1

/-- In fastpath mode the software index of the data path follows the target, over a context that
was not given back. Elsewhere an error value is kept as the index of the target, a cancellation
passes that index, and a sendlist may lose the target half way. -/
theorem not_lossless :
    ¬Lossless (smallEngine true)
        ((machine (smallEngine true)).run (smallEngine true).init
          [.sendlist 1 [] (smallFrag true) 7 true, .targetTake,
            .sendlist 2 [] (smallFrag true) 8 true]).1
        ((machine (smallEngine true)).run (smallEngine true).init
          [.sendlist 1 [] (smallFrag true) 7 true, .targetTake,
            .sendlist 2 [] (smallFrag true) 8 true]).2 ∧
      (let src := ((machine (smallEngine false)).run (smallEngine false).init
          [.send 1 (smallFrag true) 7, .send 2 (smallFrag true) 7,
            .completedSendNext true true true]).1.src;
        ¬ceRingDelta 3 src.swIndex src.hwIndex ≤ ceRingDelta 3 src.swIndex src.writeIndex ∧
          src.hwIndex = readError) ∧
      (let src := ((machine (smallEngine false)).run (smallEngine false).init
          [.send 1 (smallFrag true) 7, .cancelSendNext]).1.src;
        ¬ceRingDelta 3 src.swIndex src.hwIndex ≤ ceRingDelta 3 src.swIndex src.writeIndex) ∧
      ((machine (smallEngine false)).run (smallEngine false).init
          [.sendlist 2 [smallFrag true] (smallFrag false) 8 true]).2 =
        [.sent ⟨ceSendlistItemCtxt, (smallFrag true).desc 8⟩, .status false] := by
  refine ⟨?_, ?_, ?_, ?_⟩
  · intro h
    exact absurd h.sends (by decide)
  · decide
  · decide
  · decide

end KernelModules.CopyEngine
