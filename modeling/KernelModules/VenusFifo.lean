import KernelModules.VenusQueue

/-!
# The Venus queue is a queue of packets

A writer and a reader take turns in any order on a queue that starts empty. Between the indices
lie the packets written and not yet read, one behind the other, whether they reach around the end
of the array or not.
-/

namespace KernelModules.Venus

def Packet.content (packet : Packet) : List UInt32 :=
  WordRing.cells packet 0 (packet 0 >>> 2).toNat

def Packet.WellFormed (packet : Packet) : Prop :=
  packet 0 ≠ 0 ∧ packet 0 % 4 = 0 ∧ packet 0 ≤ varHugePktSize
deriving Decidable

inductive Input
  | write (packet : Packet)
  | read

inductive Event
  | wrote (rc : Rc) (content : List UInt32)
  | read (rc : Rc) (content : List UInt32)
  deriving DecidableEq

def machine : Machine VidcIfaceQInfo Input Event where
  step q
    | .write packet =>
      ((writeQueue q packet).1, [.wrote (writeQueue q packet).2.1 packet.content])
    | .read => ((readQueue q).1, [.read (readQueue q).2.rc (readQueue q).2.packet])

/-- A queue after `__interface_queues_init`, of the type given; the array is not cleared. -/
def initialised (qArray : VidcMemAddr) (words : ℕ → UInt32) (type : UInt32) : VidcIfaceQInfo where
  qHdr := some { setQueueHdrDefaults with type := setQueueHdrDefaults.type ||| type }
  qArray := qArray
  words := words

def Event.accepted : Event → Option (List UInt32)
  | .wrote .ok content => some content
  | _ => none

def Event.delivered : Event → Option (List UInt32)
  | .read .ok content => some content
  | _ => none

def accepted (es : List Event) : List (List UInt32) := es.filterMap Event.accepted

def delivered (es : List Event) : List (List UInt32) := es.filterMap Event.delivered

def Framed (content : List UInt32) : Prop :=
  ∃ size rest, content = size :: rest ∧ size.toNat = 4 * content.length ∧ size ≤ varHugePktSize

/-- The queue holds the packets `ps`. -/
structure Fifo (ps : List (List UInt32)) (q : VidcIfaceQInfo) : Prop where
  base : q.qArray.alignVirtualAddr ≠ 0
  framed : ∀ content ∈ ps, Framed content
  holds : ∃ hdr, q.qHdr = some hdr ∧ WordRing.Holds q.words q.sizeInWords.toNat
    hdr.readIdx.toNat hdr.writeIdx.toNat ps.flatten

theorem length_content (packet : Packet) : packet.content.length = (packet 0).toNat / 4 := by
  rw [Packet.content, WordRing.length_cells, WordRing.toNat_shiftRight_two]

theorem Packet.WellFormed.framed {packet : Packet} (hp : packet.WellFormed) :
    Framed packet.content := by
  obtain ⟨hzero, hfour, hle⟩ := hp
  have hlen := length_content packet
  have hmod : (packet 0).toNat % 4 = 0 := by
    simpa using congrArg UInt32.toNat hfour
  have hpos : (packet 0).toNat ≠ 0 := fun h => hzero (UInt32.toNat_inj.mp h)
  cases hc : packet.content with
  | nil =>
    rw [hc, List.length_nil] at hlen
    omega
  | cons size rest =>
    have hfirst : packet.content[0]? = some (packet 0) := by
      rw [Packet.content, WordRing.getElem?_cells, WordRing.toNat_shiftRight_two, if_pos (by omega)]
    rw [hc] at hfirst hlen
    obtain rfl : size = packet 0 := by simpa using hfirst
    exact ⟨packet 0, rest, rfl, by omega, hle⟩

/-- A call that leaves the array and the indices alone. -/
structure Unmoved (q q' : VidcIfaceQInfo) : Prop where
  qArray : q'.qArray = q.qArray
  words : q'.words = q.words
  hdr : ∀ hdr, q.qHdr = some hdr → ∃ hdr', q'.qHdr = some hdr' ∧
    hdr'.readIdx = hdr.readIdx ∧ hdr'.writeIdx = hdr.writeIdx

theorem Unmoved.refl (q : VidcIfaceQInfo) : Unmoved q q := ⟨rfl, rfl, fun hdr h => ⟨hdr, h, rfl, rfl⟩⟩

variable {q : VidcIfaceQInfo} {ps : List (List UInt32)}

theorem unmoved_setHdr {hdr hdr' : HfiQueueHeader} (h : q.qHdr = some hdr)
    (hread : hdr'.readIdx = hdr.readIdx) (hwrite : hdr'.writeIdx = hdr.writeIdx) :
    Unmoved q { q with qHdr := some hdr' } := by
  refine ⟨rfl, rfl, fun hdr₀ h₀ => ⟨hdr', rfl, ?_⟩⟩
  obtain rfl : hdr = hdr₀ := Option.some.inj (h.symm.trans h₀)
  exact ⟨hread, hwrite⟩

theorem Fifo.of_unmoved {q' : VidcIfaceQInfo} (hq : Fifo ps q) (h : Unmoved q q') : Fifo ps q' := by
  obtain ⟨hdr, hhdr, hholds⟩ := hq.holds
  obtain ⟨hdr', hhdr', hread, hwrite⟩ := h.hdr hdr hhdr
  refine ⟨by rw [h.qArray]; exact hq.base, hq.framed, hdr', hhdr', ?_⟩
  rw [VidcIfaceQInfo.sizeInWords, h.qArray, h.words, hread, hwrite]
  exact hholds

theorem writeQueue_rejected {packet : Packet}
    (h : (writeQueue q packet).2.1 ≠ .ok) : Unmoved q (writeQueue q packet).1 := by
  unfold writeQueue at h ⊢
  by_cases hbase : q.qArray.alignVirtualAddr = 0
  · rw [if_pos hbase]
    exact .refl q
  rw [if_neg hbase] at h ⊢
  cases hhdr : q.qHdr with
  | none => exact .refl q
  | some hdr =>
    rw [hhdr] at h
    dsimp only at h ⊢
    split_ifs at h ⊢
    · exact .refl q
    · exact unmoved_setHdr hhdr rfl rfl
    · exact unmoved_setHdr hhdr rfl rfl
    · exact absurd rfl h

section Write

variable {ps : List (List UInt32)} {q : VidcIfaceQInfo} {packet : Packet}

def Fits (ps : List (List UInt32)) (q : VidcIfaceQInfo) (packet : Packet) : Prop :=
  ps.flatten.length + packet.content.length < q.sizeInWords.toNat

theorem writeQueue_full (hq : Fifo ps q) (hfull : ¬Fits ps q packet) :
    (writeQueue q packet).2.1 ≠ .ok := by
  obtain ⟨hdr, hhdr, hholds⟩ := hq.holds
  have hroom := hholds.room
  have hspace := WordRing.toNat_emptySpace hholds.read_lt hholds.write_lt
  rw [hholds.free_eq] at hspace
  have hlen := length_content packet
  have hshort : WordRing.emptySpace q.sizeInWords hdr.readIdx hdr.writeIdx ≤ packet 0 >>> 2 := by
    rw [UInt32.le_iff_toNat_le, hspace, WordRing.toNat_shiftRight_two, ← hlen]
    unfold Fits at hfull
    omega
  unfold writeQueue
  rw [if_neg hq.base, hhdr]
  dsimp only
  rw [if_pos hshort]
  split_ifs <;> simp

/-- The packet is put behind the others. -/
theorem writeQueue_room (hq : Fifo ps q) (hp : packet.WellFormed) (hfits : Fits ps q packet) :
    (writeQueue q packet).2.1 = .ok ∧ Fifo (ps ++ [packet.content]) (writeQueue q packet).1 := by
  obtain ⟨hdr, hhdr, hholds⟩ := hq.holds
  have hwrite := hholds.write_lt
  have hroom := hholds.room
  have hle := q.sizeInWords_le
  have hspace := WordRing.toNat_emptySpace hholds.read_lt hwrite
  rw [hholds.free_eq] at hspace
  have hlen := length_content packet
  unfold Fits at hfits
  set size := packet 0 >>> 2 with hsize
  have htoNat : size.toNat = packet.content.length := by rw [hlen, hsize, WordRing.toNat_shiftRight_two]
  have hpos : 0 < packet.content.length := by
    obtain ⟨a, rest, hcontent, -, -⟩ := hp.framed
    rw [hcontent, List.length_cons]
    omega
  have hvalid : ¬(size = 0 ∨ q.sizeInWords < size) := by
    rw [← UInt32.toNat_inj, UInt32.lt_iff_toNat_lt, UInt32.toNat_zero]
    omega
  have hempty : ¬WordRing.emptySpace q.sizeInWords hdr.readIdx hdr.writeIdx ≤ size := by
    rw [UInt32.le_iff_toNat_le, hspace]
    omega
  have hoff : (hdr.writeIdx <<< 2).toNat / 4 = hdr.writeIdx.toNat := by
    rw [WordRing.toNat_shiftLeft_two]
    omega
  have happend := hholds.append packet (show ps.flatten.length + size.toNat < q.sizeInWords.toNat by
    omega)
  have hstore := WordRing.store_eq q.words packet (by omega) hwrite
    (show size.toNat ≤ q.sizeInWords.toNat by omega)
  have hcontent : (ps ++ [packet.content]).flatten =
      ps.flatten ++ WordRing.cells packet 0 size.toNat := by
    rw [List.flatten_append, List.flatten_singleton]
    rfl
  have hframed : ∀ content ∈ ps ++ [packet.content], Framed content := by
    intro content hmem
    rcases List.mem_append.mp hmem with hold | hnew
    · exact hq.framed content hold
    · exact List.mem_singleton.mp hnew ▸ hp.framed
  rw [← hcontent, ← hstore.1, ← hstore.2] at happend
  unfold writeQueue
  rw [if_neg hq.base, hhdr]
  dsimp only
  rw [← hsize, if_neg hvalid, if_neg hempty, if_neg (q.writePtr_ok hwrite), hoff]
  exact ⟨rfl, hq.base, hframed, _, rfl, happend⟩

end Write

section Read

variable {ps : List (List UInt32)} {q : VidcIfaceQInfo} {content : List UInt32}

theorem readQueue_nil (hq : Fifo [] q) : (readQueue q).2.rc ≠ .ok ∧ Fifo [] (readQueue q).1 := by
  obtain ⟨hdr, hhdr, hholds⟩ := hq.holds
  have hidx := UInt32.toNat_inj.mp (hholds.eq_iff.mpr rfl)
  rw [readQueue_empty ⟨hq.base, hhdr⟩ hidx]
  refine ⟨by simp, hq.of_unmoved (unmoved_setHdr hhdr rfl rfl)⟩

/-- The first packet is taken. -/
theorem readQueue_cons (hq : Fifo (content :: ps) q) :
    (readQueue q).2.rc = .ok ∧ (readQueue q).2.packet = content ∧ Fifo ps (readQueue q).1 := by
  obtain ⟨hdr, hhdr, hholds⟩ := hq.holds
  obtain ⟨size, rest, hcontent, hsize, hhuge⟩ := hq.framed content List.mem_cons_self
  have hread := hholds.read_lt
  have hroom := hholds.room
  have hle := q.sizeInWords_le
  have hmem := q.toNat_sizeInWords
  have hheld : (content :: ps).flatten = content ++ ps.flatten := List.flatten_cons
  rw [hheld] at hholds hroom
  have hlen : content.length ≤ q.sizeInWords.toNat := by
    rw [List.length_append] at hroom
    omega
  have hpos : 0 < content.length := by rw [hcontent, List.length_cons]; omega
  have hidx : hdr.readIdx ≠ hdr.writeIdx := fun h => by
    have hnil := hholds.eq_iff.mp (congrArg UInt32.toNat h)
    rw [hcontent] at hnil
    cases hnil
  have hfirst : q.words hdr.readIdx.toNat = size := by
    have hhead := hholds
    rw [hcontent] at hhead
    exact hhead.head
  have hoff : (hdr.readIdx <<< 2).toNat = hdr.readIdx.toNat * 4 := by
    rw [WordRing.toNat_shiftLeft_two]
    omega
  have hsizeAt : (sizeAt q hdr.readIdx).toNat = content.length := by
    rw [sizeAt, hoff, Nat.mul_div_cancel _ (by omega), hfirst, WordRing.toNat_shiftRight_two]
    omega
  have hgood : Good q hdr := by
    rw [Good, UInt32.le_iff_toNat_le, UInt32.le_iff_toNat_le, WordRing.toNat_shiftLeft_two, hsizeAt]
    rw [UInt32.le_iff_toNat_le] at hhuge
    omega
  have hranges := WordRing.ranges_next (hdr.readIdx <<< 2).toNat hle hread (hsizeAt.trans_le hlen)
  have hwords := WordRing.gather_ranges q.words hle hread (hsizeAt.trans_le hlen)
  rw [hsizeAt] at hranges hwords
  rw [← hoff] at hwords
  rw [readQueue_sized ⟨hq.base, hhdr⟩ hidx (by omega) (by omega) (by
    rw [ne_eq, ← UInt32.toNat_inj, hsizeAt, UInt32.toNat_zero]; omega)]
  simp only [if_pos hgood]
  refine ⟨trivial, hwords.trans hholds.get_left, hq.base,
    fun c hc => hq.framed c (List.mem_cons_of_mem _ hc), _, rfl, ?_⟩
  rw [hranges]
  exact hholds.drop_left

end Read

theorem qArray_writeQueue (q : VidcIfaceQInfo) (packet : Packet) :
    (writeQueue q packet).1.qArray = q.qArray := by
  unfold writeQueue
  split_ifs
  · rfl
  cases q.qHdr with
  | none => rfl
  | some hdr =>
    dsimp only
    split_ifs <;> rfl

theorem qArray_readQueue (q : VidcIfaceQInfo) : (readQueue q).1.qArray = q.qArray := by
  unfold readQueue
  split_ifs
  · rfl
  cases q.qHdr with
  | none => rfl
  | some hdr =>
    dsimp only
    split_ifs <;> rfl

theorem qArray_step (q : VidcIfaceQInfo) (i : Input) : (machine.step q i).1.qArray = q.qArray := by
  cases i with
  | write packet => exact qArray_writeQueue q packet
  | read => exact qArray_readQueue q

theorem Fifo.step (hq : Fifo ps q) {i : Input}
    (hi : ∀ packet, i = .write packet → packet.WellFormed) :
    ∃ ps', Fifo ps' (machine.step q i).1 ∧
      ps ++ accepted (machine.step q i).2 = delivered (machine.step q i).2 ++ ps' := by
  cases i with
  | write packet =>
    by_cases hfits : Fits ps q packet
    · obtain ⟨hok, hfifo⟩ := writeQueue_room hq (hi packet rfl) hfits
      refine ⟨_, hfifo, ?_⟩
      simp [machine, accepted, delivered, Event.accepted, Event.delivered, hok]
    · have hnot := writeQueue_full hq hfits
      refine ⟨ps, hq.of_unmoved (writeQueue_rejected hnot), ?_⟩
      simp [machine, accepted, delivered, Event.accepted, Event.delivered, hnot]
  | read =>
    cases ps with
    | nil =>
      obtain ⟨hnot, hfifo⟩ := readQueue_nil hq
      refine ⟨[], hfifo, ?_⟩
      simp [machine, accepted, delivered, Event.accepted, Event.delivered, hnot]
    | cons content ps =>
      obtain ⟨hok, hcontent, hfifo⟩ := readQueue_cons hq
      refine ⟨ps, hfifo, ?_⟩
      simp [machine, accepted, delivered, Event.accepted, Event.delivered, hok, hcontent]

theorem fifo_initialised {qArray : VidcMemAddr} (hbase : qArray.alignVirtualAddr ≠ 0)
    (hsize : 4 ≤ qArray.memSize) (words : ℕ → UInt32) (type : UInt32) :
    Fifo [] (initialised qArray words type) := by
  refine ⟨hbase, by simp, _, rfl, WordRing.Holds.nil ?_⟩
  rw [VidcIfaceQInfo.toNat_sizeInWords]
  rw [UInt32.le_iff_toNat_le] at hsize
  have hfour : (4 : UInt32).toNat = 4 := rfl
  exact Nat.div_pos (hfour ▸ hsize) (by omega)

/-- On a queue that starts empty the packets read are the first ones of those written. The indices
stay inside; they are equal when every packet written was read, and a read succeeds when they are
not. A write that is turned down leaves the queue as it is. -/
theorem queue_is_fifo (qArray : VidcMemAddr) (hbase : qArray.alignVirtualAddr ≠ 0)
    (hsize : 4 ≤ qArray.memSize) (words : ℕ → UInt32) (type : UInt32) (is : List Input)
    (hwrites : ∀ packet, .write packet ∈ is → packet.WellFormed) :
    let r := machine.run (initialised qArray words type) is
    delivered r.2 <+: accepted r.2 ∧
    (∃ hdr, r.1.qHdr = some hdr ∧ hdr.readIdx < qArray.memSize >>> 2 ∧
      hdr.writeIdx < qArray.memSize >>> 2 ∧
      (hdr.readIdx = hdr.writeIdx ↔ delivered r.2 = accepted r.2)) ∧
    ((readQueue r.1).2.rc = .ok ↔ delivered r.2 ≠ accepted r.2) ∧
    ∀ packet, (writeQueue r.1 packet).2.1 ≠ .ok → Unmoved r.1 (writeQueue r.1 packet).1 := by
  intro r
  have hmeets : machine.Meets (fun _ i => ∀ packet, i = .write packet → packet.WellFormed)
      (initialised qArray words type) is :=
    machine.meets_of_forall _ fun i hi packet h => hwrites packet (h ▸ hi)
  have hstart := fifo_initialised hbase hsize words type
  obtain ⟨unread, ⟨hfifo, harray⟩, heq⟩ := machine.fifo_of_meets Event.accepted Event.delivered
    (I := fun ps q => Fifo ps q ∧ q.qArray = qArray) (fun q i ps hq hi => by
      obtain ⟨ps', hq', heq⟩ := hq.1.step hi
      exact ⟨ps', ⟨hq', (qArray_step q i).trans hq.2⟩, heq⟩) ⟨hstart, rfl⟩ hmeets
  have hunread : accepted r.2 = delivered r.2 ++ unread := heq
  have hnil : unread = [] ↔ delivered r.2 = accepted r.2 := by
    rw [hunread, List.self_eq_append_right]
  obtain ⟨hdr, hhdr, hholds⟩ := hfifo.holds
  have hread := hholds.read_lt
  have hwrite := hholds.write_lt
  rw [VidcIfaceQInfo.sizeInWords, harray, ← UInt32.lt_iff_toNat_lt] at hread hwrite
  have hflat : unread.flatten = [] ↔ unread = [] := by
    refine ⟨fun h => ?_, fun h => by rw [h, List.flatten_nil]⟩
    rw [List.flatten_eq_nil_iff] at h
    refine List.eq_nil_iff_forall_not_mem.mpr fun content hc => ?_
    obtain ⟨size, rest, hcontent, -⟩ := hfifo.framed content hc
    rw [h content hc] at hcontent
    cases hcontent
  refine ⟨hunread ▸ List.prefix_append .., ⟨hdr, hhdr, hread, hwrite, ?_⟩, ?_,
    fun packet h => writeQueue_rejected h⟩
  · rw [← UInt32.toNat_inj, hholds.eq_iff, hflat, hnil]
  · rw [ne_eq, ← hnil]
    cases unread with
    | nil => exact iff_of_false (readQueue_nil hfifo).1 (by simp)
    | cons content ps => exact iff_of_true (readQueue_cons hfifo).1 (by simp)

/-- An array of four words: the second packet reaches around its end, and a third one finds no
room. -/
theorem queue_of_four_words :
    let first : Packet := fun k => [8, 70].getD k 0
    let second : Packet := fun k => [12, 71, 72].getD k 0
    let r := machine.run (initialised ⟨4096, 16, by decide⟩ (fun _ => 0) 1)
      [.write first, .read, .write second, .write first, .read]
    delivered r.2 <+: accepted r.2 ∧ accepted r.2 = [[8, 70], [12, 71, 72]] ∧
      r.2.getLast? = some (.read .ok [12, 71, 72]) := by
  intro first second r
  refine ⟨(queue_is_fifo ⟨4096, 16, by decide⟩ (by decide) (by decide) (fun _ => 0) 1
    [.write first, .read, .write second, .write first, .read] ?_).1, by decide +kernel,
    by decide +kernel⟩
  simp only [List.mem_cons, Input.write.injEq, reduceCtorEq, List.not_mem_nil, or_false, false_or]
  rintro packet (rfl | rfl | rfl) <;> decide

end KernelModules.Venus
