import KernelModules.IcpQueue

/-!
# The rings of the ICP carry words in order

Between the indices of the command ring are the words of the commands accepted and not yet
taken, in order. What is read from one of the other rings is all that lies between its indices.
-/

namespace KernelModules.IcpHfi

def between (words : ℕ → UInt32) (q : HfiQHdr) : List UInt32 :=
  WordRing.get words q.qSize.toNat q.readIdx.toNat
    (q.qSize.toNat - WordRing.free q.qSize.toNat q.readIdx.toNat q.writeIdx.toNat)

def HfiInfo.ring (hfi : HfiInfo) (qId : ℕ) : ℕ → UInt32 := if qId = qMsg then hfi.msgQ else hfi.dbgQ

def Event.accepted : Event → Option (List UInt32)
  | .wrote .ok content => some content
  | _ => none

def Event.consumed? : Event → Option (List UInt32)
  | .consumed content => some content
  | _ => none

def accepted (es : List Event) : List (List UInt32) := es.filterMap Event.accepted

def consumed (es : List Event) : List (List UInt32) := es.filterMap Event.consumed?

def Framed (content : List UInt32) : Prop :=
  ∃ size rest, content = size :: rest ∧ (size >>> 2).toNat = content.length

/-- The interface is ready and its command ring holds the commands `held`. -/
structure Streams (held : List (List UInt32)) (hfi : HfiInfo) : Prop where
  ready : hfi.hfiState = .ready
  cmdQState : hfi.cmdQState = true
  msgQState : hfi.msgQState = true
  framed : ∀ content ∈ held, Framed content
  cmdSize : (hfi.qHdr qCmd).qSize = 1024
  holds : WordRing.Holds hfi.cmdQ 1024 (hfi.qHdr qCmd).readIdx.toNat
    (hfi.qHdr qCmd).writeIdx.toNat held.flatten
  msgSize : (hfi.qHdr qMsg).qSize = 1024
  dbgSize : (hfi.qHdr qDbg).qSize = 25600
  inside : ∀ qId, qId = qMsg ∨ qId = qDbg → (hfi.qHdr qId).readIdx < (hfi.qHdr qId).qSize ∧
    (hfi.qHdr qId).writeIdx < (hfi.qHdr qId).qSize

/-- The two rings from the firmware are left as they are, and what the host knows of the rest. -/
structure Aside (hfi hfi' : HfiInfo) : Prop where
  hfiState : hfi'.hfiState = hfi.hfiState
  cmdQState : hfi'.cmdQState = hfi.cmdQState
  msgQState : hfi'.msgQState = hfi.msgQState
  cmdSize : (hfi'.qHdr qCmd).qSize = (hfi.qHdr qCmd).qSize
  msg : hfi'.qHdr qMsg = hfi.qHdr qMsg
  dbg : hfi'.qHdr qDbg = hfi.qHdr qDbg

variable {hfi : HfiInfo} {held : List (List UInt32)}

theorem aside_setCmd {q : HfiQHdr} (words : ℕ → UInt32)
    (hsize : q.qSize = (hfi.qHdr qCmd).qSize) :
    Aside hfi { hfi.setHdr qCmd q with cmdQ := words } := by
  refine ⟨rfl, rfl, rfl, ?_, rfl, rfl⟩
  simpa [HfiInfo.setHdr] using hsize

section Commands

variable {held : List (List UInt32)} {hfi : HfiInfo}

theorem Streams.of_cmd (hs : Streams held hfi) {hfi' : HfiInfo} (ha : Aside hfi hfi')
    {held' : List (List UInt32)} (hframed : ∀ content ∈ held', Framed content)
    (hholds : WordRing.Holds hfi'.cmdQ 1024 (hfi'.qHdr qCmd).readIdx.toNat
      (hfi'.qHdr qCmd).writeIdx.toNat held'.flatten) : Streams held' hfi' where
  ready := ha.hfiState.trans hs.ready
  cmdQState := ha.cmdQState.trans hs.cmdQState
  msgQState := ha.msgQState.trans hs.msgQState
  framed := hframed
  cmdSize := ha.cmdSize.trans hs.cmdSize
  holds := hholds
  msgSize := by rw [ha.msg, hs.msgSize]
  dbgSize := by rw [ha.dbg, hs.dbgSize]
  inside qId hqId := by
    rcases hqId with rfl | rfl
    · rw [ha.msg]
      exact hs.inside qMsg (Or.inl rfl)
    · rw [ha.dbg]
      exact hs.inside qDbg (Or.inr rfl)

theorem length_content (cmd : ℕ → UInt32) : (content cmd).length = (cmd 0 >>> 2).toNat :=
  WordRing.length_cells ..

variable {cmd : ℕ → UInt32}

theorem framed_content (hsize : cmd 0 >>> 2 ≠ 0) : Framed (content cmd) := by
  have hlen := length_content cmd
  have hpos : (cmd 0 >>> 2).toNat ≠ 0 := fun h => hsize (UInt32.toNat_inj.mp h)
  cases hc : content cmd with
  | nil =>
    rw [hc, List.length_nil] at hlen
    omega
  | cons size rest =>
    have hfirst : (content cmd)[0]? = some (cmd 0) := by
      rw [content, WordRing.getElem?_cells, if_pos (by omega)]
    rw [hc] at hfirst hlen
    obtain rfl : size = cmd 0 := by simpa using hfirst
    exact ⟨cmd 0, rest, rfl, hlen.symm⟩

def Fits (held : List (List UInt32)) (cmd : ℕ → UInt32) : Prop :=
  held.flatten.length + (cmd 0 >>> 2).toNat < 1024

theorem hfiWriteCmd_rejected (hs : Streams held hfi)
    (h : cmd 0 >>> 2 = 0 ∨ ¬Fits held cmd) :
    (hfiWriteCmd (some hfi) cmd).1 = some hfi ∧ (hfiWriteCmd (some hfi) cmd).2 ≠ .ok := by
  have hroom := hs.holds.room
  have hspace := hs.holds.free_eq
  have hsize : (1024 : UInt32).toNat = 1024 := rfl
  have hread := hs.holds.read_lt
  have hwrite := hs.holds.write_lt
  rw [← hsize] at hread hwrite hspace
  rw [← WordRing.toNat_emptySpace hread hwrite, hsize] at hspace
  unfold hfiWriteCmd
  dsimp only
  rw [if_neg (by rw [hs.ready, hs.cmdQState]; simp), hs.cmdSize]
  by_cases hzero : cmd 0 >>> 2 = 0
  · rw [if_pos hzero]
    exact ⟨rfl, by simp⟩
  · have hfull := h.resolve_left hzero
    unfold Fits at hfull
    rw [if_neg hzero, if_pos (by rw [UInt32.le_iff_toNat_le, hspace]; omega)]
    exact ⟨rfl, by simp⟩

theorem hfiWriteCmd_accepted (hs : Streams held hfi) (hsize : cmd 0 >>> 2 ≠ 0)
    (hfits : Fits held cmd) :
    (hfiWriteCmd (some hfi) cmd).2 = .ok ∧
      ∃ hfi', (hfiWriteCmd (some hfi) cmd).1 = some hfi' ∧ Streams (held ++ [content cmd]) hfi' := by
  have hnum : (1024 : UInt32).toNat = 1024 := rfl
  have hread := hs.holds.read_lt
  have hwrite := hs.holds.write_lt
  have hspace := hs.holds.free_eq
  have happend := hs.holds.append cmd hfits
  rw [← content] at happend
  unfold Fits at hfits
  rw [← hnum] at hread hwrite hspace
  rw [← WordRing.toNat_emptySpace hread hwrite, hnum] at hspace
  have hstore := WordRing.store_eq hfi.cmdQ cmd (n := 1024) (by omega) hwrite
    (show (cmd 0 >>> 2).toNat ≤ (1024 : UInt32).toNat by omega)
  rw [hnum] at hstore
  rw [← hstore.1, ← hstore.2] at happend
  unfold hfiWriteCmd
  dsimp only
  rw [if_neg (by rw [hs.ready, hs.cmdQState]; simp), hs.cmdSize, if_neg hsize,
    if_neg (by rw [UInt32.le_iff_toNat_le, hspace]; omega)]
  refine ⟨rfl, _, rfl, hs.of_cmd (aside_setCmd _ hs.cmdSize.symm) ?_ ?_⟩
  · intro c hc
    rcases List.mem_append.mp hc with hold | hnew
    · exact hs.framed c hold
    · exact List.mem_singleton.mp hnew ▸ framed_content hsize
  · rw [List.flatten_append, List.flatten_singleton]
    simpa [HfiInfo.setHdr] using happend

theorem consumeCmd_nil (hs : Streams [] hfi) : consumeCmd hfi = (hfi, none) := by
  have hidx := UInt32.toNat_inj.mp (hs.holds.eq_iff.mpr rfl)
  exact if_pos hidx

theorem consumeCmd_cons {cmd : List UInt32} (hs : Streams (cmd :: held) hfi) :
    (consumeCmd hfi).2 = some cmd ∧ Streams held (consumeCmd hfi).1 := by
  obtain ⟨size, rest, hcmd, hsize⟩ := hs.framed cmd List.mem_cons_self
  have hnum : (1024 : UInt32).toNat = 1024 := rfl
  have hholds := hs.holds
  rw [List.flatten_cons] at hholds
  have hread := hholds.read_lt
  have hroom := hholds.room
  rw [List.length_append] at hroom
  have hidx : (hfi.qHdr qCmd).readIdx ≠ (hfi.qHdr qCmd).writeIdx := fun h => by
    have hnil := hholds.eq_iff.mp (congrArg UInt32.toNat h)
    rw [hcmd] at hnil
    cases hnil
  have hfirst : hfi.cmdQ (hfi.qHdr qCmd).readIdx.toNat = size := by
    have hhead := hholds
    rw [hcmd] at hhead
    exact hhead.head
  have hnext := WordRing.ranges_next ((hfi.qHdr qCmd).readIdx.toNat * 4) (n := 1024) (by omega)
    (hnum ▸ hread) (show (size >>> 2).toNat ≤ (1024 : UInt32).toNat by omega)
  have hwords := WordRing.gather_ranges hfi.cmdQ (n := 1024) (by omega)
    (hnum ▸ hread) (show (size >>> 2).toNat ≤ (1024 : UInt32).toNat by omega)
  rw [hnum, hsize] at hnext hwords
  unfold consumeCmd
  rw [if_neg hidx, hs.cmdSize, hfirst]
  refine ⟨congrArg some (hwords.trans hholds.get_left),
    hs.of_cmd (aside_setCmd hfi.cmdQ hs.cmdSize.symm)
      (fun c hc => hs.framed c (List.mem_cons_of_mem _ hc)) ?_⟩
  have hdrop := hholds.drop_left
  rw [← hnext] at hdrop
  simpa [HfiInfo.setHdr] using hdrop

end Commands

section Messages

variable {held : List (List UInt32)} {hfi : HfiInfo} {qId : ℕ}

theorem Streams.ringSize (hs : Streams held hfi) (hqId : qId = qMsg ∨ qId = qDbg) :
    (hfi.qHdr qId).qSize =
        (if qId = qMsg then msgQSizeInBytes else dbgQSizeInBytes) >>> 2 ∧
      (hfi.qHdr qId).qSize = (if qId = qMsg then maxPktSizeMsgqInWords else maxPktSizeInWords) ∧
      (hfi.qHdr qId).qSize.toNat < 2 ^ 30 := by
  rcases hqId with rfl | rfl
  · rw [hs.msgSize]
    decide
  · rw [hs.dbgSize]
    decide

/-- All that lies between the indices is read, and nothing is left. -/
theorem hfiReadMessage_all (hs : Streams held hfi) (hqId : qId = qMsg ∨ qId = qDbg)
    (hidx : (hfi.qHdr qId).readIdx ≠ (hfi.qHdr qId).writeIdx) :
    ∃ size, hfiReadMessage (some hfi) qId =
      (some (hfi.setHdr qId { hfi.qHdr qId with readIdx := (hfi.qHdr qId).writeIdx }),
        { rc := .ok, msg := between (hfi.ring qId) (hfi.qHdr qId), wordsRead := some size }) ∧
      size.toNat = (between (hfi.ring qId) (hfi.qHdr qId)).length := by
  obtain ⟨hbytes, hbound, hsmall⟩ := hs.ringSize hqId
  obtain ⟨hread, hwrite⟩ := hs.inside qId hqId
  have hne := UInt32.toNat_inj.not.mpr hidx
  rw [UInt32.lt_iff_toNat_lt] at hread hwrite
  set q := hfi.qHdr qId
  set size : UInt32 :=
    if q.readIdx < q.writeIdx then q.writeIdx - q.readIdx else q.qSize - (q.readIdx - q.writeIdx)
    with hsize
  have hsizeNat : size.toNat =
      q.qSize.toNat - WordRing.free q.qSize.toNat q.readIdx.toNat q.writeIdx.toNat := by
    rw [hsize, WordRing.free]
    simp only [UInt32.lt_iff_toNat_lt]
    split_ifs
    · rw [UInt32.toNat_sub]
      omega
    · omega
    · omega
    · rw [UInt32.toNat_sub, UInt32.toNat_sub]
      omega
  have hbounds : 0 < size.toNat ∧ size.toNat ≤ q.qSize.toNat := by
    rw [hsizeNat, WordRing.free]
    split_ifs <;> omega
  have hnext : (WordRing.ranges q.qSize q.readIdx size (q.readIdx.toNat * 4)).2 = q.writeIdx := by
    rw [← UInt32.toNat_inj, WordRing.ranges_next _ hsmall hread hbounds.2, hsizeNat, WordRing.free,
      WordRing.wrap]
    split_ifs <;> omega
  have hwords := WordRing.gather_ranges (hfi.ring qId) hsmall hread hbounds.2
  rw [hsizeNat] at hwords
  refine ⟨size, ?_, ?_⟩
  · have hqle : ¬qDbg < qId := by rcases hqId with rfl | rfl <;> decide
    unfold hfiReadMessage
    dsimp only
    rw [if_neg hqle, if_neg (by rw [hs.ready, hs.msgQState]; simp), if_neg hidx, ← hbytes, ← hbound,
      ← hsize, if_neg, hnext]
    · exact congrArg _ (congrArg (fun msg => Message.mk .ok msg (some size)) hwords)
    · rw [← UInt32.toNat_inj, UInt32.lt_iff_toNat_lt, UInt32.toNat_zero]
      omega
  · rw [between, WordRing.length_get hread, hsizeNat]

theorem Streams.of_msg (hs : Streams held hfi) (hqId : qId = qMsg ∨ qId = qDbg) (q : HfiQHdr)
    (hsize : q.qSize = (hfi.qHdr qId).qSize) (hread : q.readIdx < q.qSize)
    (hwrite : q.writeIdx < q.qSize) (msgQ dbgQ : ℕ → UInt32) :
    Streams held { hfi.setHdr qId q with msgQ := msgQ, dbgQ := dbgQ } := by
  have hcmd : qCmd ≠ qId := by rcases hqId with rfl | rfl <;> decide
  refine ⟨hs.ready, hs.cmdQState, hs.msgQState, hs.framed, ?_, ?_, ?_, ?_, fun k hk => ?_⟩
  · simpa [HfiInfo.setHdr, hcmd] using hs.cmdSize
  · simpa [HfiInfo.setHdr, hcmd] using hs.holds
  · rcases hqId with rfl | rfl
    · simpa [HfiInfo.setHdr] using hsize.trans hs.msgSize
    · simpa [HfiInfo.setHdr] using hs.msgSize
  · rcases hqId with rfl | rfl
    · simpa [HfiInfo.setHdr] using hs.dbgSize
    · simpa [HfiInfo.setHdr] using hsize.trans hs.dbgSize
  · by_cases hkq : k = qId
    · simpa [HfiInfo.setHdr, hkq] using ⟨hread, hwrite⟩
    · simpa [HfiInfo.setHdr, hkq] using hs.inside k hk

theorem Streams.read (hs : Streams held hfi) (hqId : qId ≠ qCmd) :
    ∃ hfi', (hfiReadMessage (some hfi) qId).1 = some hfi' ∧ Streams held hfi' := by
  by_cases hrange : qDbg < qId
  · exact ⟨hfi, by rw [hfiReadMessage, if_pos hrange], hs⟩
  have hmsg : qId = 1 ∨ qId = 2 := by
    change ¬2 < qId at hrange
    change qId ≠ 0 at hqId
    omega
  by_cases hidx : (hfi.qHdr qId).readIdx = (hfi.qHdr qId).writeIdx
  · refine ⟨hfi, ?_, hs⟩
    unfold hfiReadMessage
    dsimp only
    rw [if_neg hrange, if_neg (by rw [hs.ready, hs.msgQState]; simp), if_pos hidx]
  · obtain ⟨size, hread, -⟩ := hfiReadMessage_all hs hmsg hidx
    have hwrite := (hs.inside qId hmsg).2
    rw [hread]
    exact ⟨_, rfl, hs.of_msg hmsg { hfi.qHdr qId with readIdx := (hfi.qHdr qId).writeIdx } rfl
      hwrite hwrite hfi.msgQ hfi.dbgQ⟩

theorem Streams.post (hs : Streams held hfi) (words : ℕ → UInt32) {writeIdx : UInt32}
    (hposts : Posts qId writeIdx) : Streams held (postMessages qId words writeIdx hfi) := by
  have hmsg : qId = qMsg ∨ qId = qDbg := hposts.imp And.left And.left
  have hwrite : writeIdx < (hfi.qHdr qId).qSize := by
    rw [(hs.ringSize hmsg).1]
    rcases hposts with ⟨rfl, hlt⟩ | ⟨rfl, hlt⟩
    · exact hlt
    · exact hlt
  have hpost := hs.of_msg hmsg { hfi.qHdr qId with writeIdx := writeIdx } rfl
    (hs.inside qId hmsg).1 hwrite
  unfold postMessages
  split_ifs
  · exact hpost words hfi.dbgQ
  · exact hpost hfi.msgQ words

end Messages

def Proper : Input → Prop
  | .readMessage qId => qId ≠ qCmd
  | .post qId _ writeIdx => Posts qId writeIdx
  | _ => True

instance : DecidablePred Proper := fun i => by
  cases i <;> unfold Proper <;> infer_instance

theorem Streams.step (hs : Streams held hfi)
    {i : Input} (hi : Proper i) :
    ∃ held' hfi', (machine.step (some hfi) i).1 = some hfi' ∧ Streams held' hfi' ∧
      held ++ accepted (machine.step (some hfi) i).2 =
        consumed (machine.step (some hfi) i).2 ++ held' := by
  cases i with
  | writeCmd cmd =>
    by_cases hok : cmd 0 >>> 2 ≠ 0 ∧ Fits held cmd
    · obtain ⟨hrc, hfi', hstep, hs'⟩ := hfiWriteCmd_accepted hs hok.1 hok.2
      refine ⟨_, hfi', hstep, hs', ?_⟩
      simp [machine, accepted, consumed, Event.accepted, Event.consumed?, hrc]
    · have hnot : cmd 0 >>> 2 = 0 ∨ ¬Fits held cmd := by
        rwa [not_and_or, ne_eq, not_not] at hok
      obtain ⟨hstep, hrc⟩ := hfiWriteCmd_rejected hs hnot
      refine ⟨held, hfi, hstep, hs, ?_⟩
      simp [machine, accepted, consumed, Event.accepted, Event.consumed?, hrc]
  | readMessage qId =>
    obtain ⟨hfi', hstep, hs'⟩ := hs.read hi
    exact ⟨held, hfi', hstep, hs', List.append_nil held⟩
  | consume =>
    cases held with
    | nil =>
      have hnone := consumeCmd_nil hs
      refine ⟨[], hfi, ?_, hs, ?_⟩
      · simp [machine, hnone]
      · simp [machine, accepted, consumed, hnone]
    | cons cmd held =>
      obtain ⟨hsome, hs'⟩ := consumeCmd_cons hs
      refine ⟨held, _, rfl, hs', ?_⟩
      simp [machine, accepted, consumed, Event.accepted, Event.consumed?, hsome]
  | post qId words writeIdx =>
    refine ⟨held, _, rfl, hs.post words hi, ?_⟩
    simp [machine, accepted, consumed]

theorem streams_initialised (cmdQ msgQ dbgQ : ℕ → UInt32) :
    Streams [] (initialised cmdQ msgQ dbgQ) := by
  have hcmd : cmdQSizeInBytes >>> 2 = 1024 := by decide
  have hdbg : dbgQSizeInBytes >>> 2 = 25600 := by decide
  have hpos : (0 : UInt32) < 1024 ∧ (0 : UInt32) < 25600 := by decide
  refine ⟨rfl, rfl, rfl, by simp, hcmd, WordRing.Holds.nil (Nat.zero_lt_succ _), hcmd, hdbg,
    fun qId hqId => ?_⟩
  rcases hqId with rfl | rfl
  · change (0 : UInt32) < msgQSizeInBytes >>> 2 ∧ (0 : UInt32) < msgQSizeInBytes >>> 2
    exact ⟨hcmd ▸ hpos.1, hcmd ▸ hpos.1⟩
  · change (0 : UInt32) < dbgQSizeInBytes >>> 2 ∧ (0 : UInt32) < dbgQSizeInBytes >>> 2
    exact ⟨hdbg ▸ hpos.2, hdbg ▸ hpos.2⟩

theorem Streams.between_eq (hs : Streams held hfi) :
    between hfi.cmdQ (hfi.qHdr qCmd) = held.flatten := by
  have hnum : (1024 : UInt32).toNat = 1024 := rfl
  have hroom := hs.holds.room
  have hget := hs.holds
  rw [← List.append_nil held.flatten] at hget
  rw [between, hs.cmdSize, hnum, hs.holds.free_eq]
  rw [show 1024 - (1024 - held.flatten.length) = held.flatten.length by omega]
  exact hget.get_left

/-- The commands accepted are the ones taken followed by those whose words lie between the indices,
which are equal when there is none. A command is accepted if it has a size and its words fit with
one cell to spare. A read of a message ring that is not empty returns its words and leaves it empty.
-/
theorem rings_carry_words (cmdQ msgQ dbgQ : ℕ → UInt32) (is : List Input)
    (hproper : ∀ i ∈ is, Proper i) :
    let r := machine.run (some (initialised cmdQ msgQ dbgQ)) is
    ∃ hfi held, r.1 = some hfi ∧ accepted r.2 = consumed r.2 ++ held ∧
      between hfi.cmdQ (hfi.qHdr qCmd) = held.flatten ∧
      ((hfi.qHdr qCmd).readIdx = (hfi.qHdr qCmd).writeIdx ↔ held = []) ∧
      (∀ cmd, (hfiWriteCmd r.1 cmd).2 = .ok ↔ cmd 0 >>> 2 ≠ 0 ∧
        (between hfi.cmdQ (hfi.qHdr qCmd)).length + (cmd 0 >>> 2).toNat < 1024) ∧
      ∀ qId, qId = qMsg ∨ qId = qDbg → (hfi.qHdr qId).readIdx ≠ (hfi.qHdr qId).writeIdx →
        (hfiReadMessage r.1 qId).2.rc = .ok ∧
        (hfiReadMessage r.1 qId).2.msg = between (hfi.ring qId) (hfi.qHdr qId) ∧
        (hfiReadMessage r.1 qId).2.wordsRead.map UInt32.toNat =
          some (between (hfi.ring qId) (hfi.qHdr qId)).length ∧
        (hfiReadMessage r.1 qId).1.map (fun hfi' => hfi'.qHdr qId) =
          some { hfi.qHdr qId with readIdx := (hfi.qHdr qId).writeIdx } := by
  intro r
  obtain ⟨held, ⟨hfi, hrun, hs⟩, heq⟩ := machine.fifo_of_meets Event.accepted Event.consumed?
    (C := fun _ i => Proper i) (I := fun held g => ∃ hfi, g = some hfi ∧ Streams held hfi)
    (fun g i held hg hi => by
      obtain ⟨hfi, rfl, hs⟩ := hg
      obtain ⟨held', hfi', hstep, hs', heq⟩ := hs.step hi
      exact ⟨held', ⟨hfi', hstep, hs'⟩, heq⟩)
    ⟨_, rfl, streams_initialised cmdQ msgQ dbgQ⟩ (machine.meets_of_forall _ hproper)
  have hr : r.1 = some hfi := hrun
  have hbetween := hs.between_eq
  refine ⟨hfi, held, hr, heq, hbetween, ?_, fun cmd => ?_, fun qId hqId hidx => ?_⟩
  · rw [← UInt32.toNat_inj, hs.holds.eq_iff, List.flatten_eq_nil_iff]
    refine ⟨fun h => List.eq_nil_iff_forall_not_mem.mpr fun cmd hcmd => ?_, fun h => by simp [h]⟩
    obtain ⟨size, rest, hcons, -⟩ := hs.framed cmd hcmd
    rw [h cmd hcmd] at hcons
    cases hcons
  · rw [hr, hbetween]
    by_cases hok : cmd 0 >>> 2 ≠ 0 ∧ Fits held cmd
    · exact iff_of_true (hfiWriteCmd_accepted hs hok.1 hok.2).1 hok
    · have hnot : cmd 0 >>> 2 = 0 ∨ ¬Fits held cmd := by
        rwa [not_and_or, ne_eq, not_not] at hok
      exact iff_of_false (hfiWriteCmd_rejected hs hnot).2 hok
  · obtain ⟨size, hread, hsize⟩ := hfiReadMessage_all hs hqId hidx
    rw [hr, hread]
    refine ⟨rfl, rfl, congrArg some hsize, ?_⟩
    simp [HfiInfo.setHdr]

/-- The firmware posts around the end of the message ring while a command is still waiting. -/
theorem rings_carry_words_of_two :
    let init : ℕ → UInt32 := fun k => [8, 70].getD k 0
    let ping : ℕ → UInt32 := fun k => [12, 71, 72].getD k 0
    let is := [.writeCmd init, .writeCmd ping, .consume, .post qMsg (fun k => [1, 2].getD k 9) 1023,
      .readMessage qMsg, .post qMsg (fun k => [1, 2].getD k 9) 2]
    let r := machine.run (some (initialised (fun _ => 0) (fun _ => 0) fun _ => 0)) is
    ∃ hfi held, r.1 = some hfi ∧ [[8, 70], [12, 71, 72]] = [[8, 70]] ++ held ∧
      between hfi.cmdQ (hfi.qHdr qCmd) = held.flatten ∧
      (hfiReadMessage r.1 qMsg).2.msg = [9, 1, 2] := by
  intro init ping is r
  obtain ⟨hfi, held, hr, heq, hbetween, -, -, -⟩ := rings_carry_words (fun _ => 0) (fun _ => 0)
    (fun _ => 0) is (by decide)
  refine ⟨hfi, held, hr, ?_, hbetween, by decide +kernel⟩
  have hacc : accepted r.2 = [[8, 70], [12, 71, 72]] := by decide +kernel
  have hcon : consumed r.2 = [[8, 70]] := by decide +kernel
  rw [← hacc, ← hcon]
  exact heq

end KernelModules.IcpHfi
