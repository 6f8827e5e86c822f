import KernelModules.VenusFifo

/-!
# The Venus reader against any firmware

Indices, sizes and words of the queue may be anything. The reader never reads outside the array
or writes outside its buffer. A packet that is too large, or starts outside the array, is
dropped with all there is; the size of a packet is not compared with what lies between the
indices, and a packet longer than that carries the read index past the write index.
-/

namespace KernelModules.Venus

def unread (q : VidcIfaceQInfo) (hdr : HfiQueueHeader) : ℕ :=
  q.sizeInWords.toNat -
    WordRing.free q.sizeInWords.toNat hdr.readIdx.toNat hdr.writeIdx.toNat

def Stuck (q : VidcIfaceQInfo) (hdr : HfiQueueHeader) : Prop :=
  q.qArray.memSize.toNat < (hdr.readIdx <<< 2).toNat + 4 ∨ sizeAt q hdr.readIdx = 0
deriving Decidable

def Fitting (q : VidcIfaceQInfo) : Prop :=
  ∀ hdr, q.qHdr = some hdr → hdr.readIdx ≠ hdr.writeIdx →
    (sizeAt q hdr.readIdx).toNat ≤ unread q hdr

def drain : ℕ → VidcIfaceQInfo → Option (VidcIfaceQInfo × List (List UInt32))
  | 0, _ => none
  | fuel + 1, q =>
    let r := readQueue q
    if r.2.rc = .ok then (drain fuel r.1).map fun d => (d.1, r.2.packet :: d.2)
    else some (r.1, [])

section Reader

variable {q : VidcIfaceQInfo} {hdr : HfiQueueHeader}

/-- A packet is taken: it lies in the array, and the read index moves behind it. -/
structure Takes (q : VidcIfaceQInfo) (hdr : HfiQueueHeader) (r : VidcIfaceQInfo × Reading) :
    Prop where
  read_lt : hdr.readIdx.toNat < q.sizeInWords.toNat
  rc : r.2.rc = .ok
  pos : 0 < (sizeAt q hdr.readIdx).toNat
  huge : 4 * (sizeAt q hdr.readIdx).toNat ≤ varHugePktSize.toNat
  loads : r.2.loads = [((hdr.readIdx <<< 2).toNat, 4)]
  copies : r.2.copies = (WordRing.ranges q.sizeInWords hdr.readIdx (sizeAt q hdr.readIdx)
    (hdr.readIdx.toNat * 4)).1
  packet : r.2.packet = WordRing.get q.words q.sizeInWords.toNat hdr.readIdx.toNat
    (sizeAt q hdr.readIdx).toNat
  kept : r.1.words = q.words ∧ r.1.qArray = q.qArray
  hdr : ∃ hdr', r.1.qHdr = some hdr' ∧ hdr'.writeIdx = hdr.writeIdx ∧
    hdr'.readIdx.toNat = WordRing.wrap q.sizeInWords.toNat
      (hdr.readIdx.toNat + (sizeAt q hdr.readIdx).toNat)

structure Fails (q : VidcIfaceQInfo) (hdr : HfiQueueHeader) (r : VidcIfaceQInfo × Reading) :
    Prop where
  rc : r.2.rc = .eNodata
  loads : ∀ range ∈ r.2.loads, range.1 + range.2 ≤ q.qArray.memSize.toNat
  copies : r.2.copies = []
  packet : r.2.packet = []
  kept : r.1.words = q.words ∧ r.1.qArray = q.qArray
  hdr : ∃ hdr', r.1.qHdr = some hdr' ∧ hdr'.writeIdx = hdr.writeIdx ∧
    hdr'.readIdx = if Stuck q hdr then hdr.readIdx else hdr.writeIdx

theorem huge_le_size (hsize : varHugePktSize ≤ q.qArray.memSize) :
    varHugePktSize.toNat / 4 ≤ q.sizeInWords.toNat ∧ 4 ≤ q.qArray.memSize.toNat := by
  have htoNat : varHugePktSize.toNat = 12288 := rfl
  rw [UInt32.le_iff_toNat_le, htoNat] at hsize
  rw [q.toNat_sizeInWords, htoNat]
  omega

theorem readQueue_takes (hq : Allocated q hdr) (hsize : varHugePktSize ≤ q.qArray.memSize)
    (hidx : hdr.readIdx ≠ hdr.writeIdx) (hstuck : ¬Stuck q hdr) (hgood : Good q hdr) :
    Takes q hdr (readQueue q) := by
  obtain ⟨hin, hpos⟩ := not_or.mp hstuck
  obtain ⟨hwords, hfour⟩ := huge_le_size hsize
  have hnum := q.toNat_sizeInWords
  have hle := q.sizeInWords_le
  have hhuge := hgood.1
  have hstart := hgood.2
  have htoNat : varHugePktSize.toNat = 12288 := rfl
  have hmul : (sizeAt q hdr.readIdx).toNat * 4 < 2 ^ 32 := by
    rw [sizeAt, WordRing.toNat_shiftRight_two]
    have := (q.words ((hdr.readIdx <<< 2).toNat / 4)).toNat_lt
    omega
  rw [UInt32.le_iff_toNat_le, WordRing.toNat_shiftLeft_two, Nat.mod_eq_of_lt hmul] at hhuge
  rw [UInt32.le_iff_toNat_le] at hstart
  have hread : hdr.readIdx.toNat < q.sizeInWords.toNat := by
    rw [WordRing.toNat_shiftLeft_two] at hin
    omega
  have hlen : (sizeAt q hdr.readIdx).toNat ≤ q.sizeInWords.toNat := by omega
  have hne : 0 < (sizeAt q hdr.readIdx).toNat := by
    rw [← UInt32.toNat_inj, UInt32.toNat_zero] at hpos
    omega
  have hoff : (hdr.readIdx <<< 2).toNat = hdr.readIdx.toNat * 4 := by
    rw [WordRing.toNat_shiftLeft_two]
    omega
  have hsized := readQueue_sized hq hidx hfour (by omega) hpos
  rw [hoff] at hsized
  rw [hsized]
  simp only [if_pos hgood]
  exact ⟨hread, rfl, hne, by omega, by rw [hoff], rfl, WordRing.gather_ranges _ hle hread hlen,
    ⟨rfl, rfl⟩, _, rfl, rfl, WordRing.ranges_next _ hle hread hlen⟩

theorem readQueue_fails (hq : Allocated q hdr) (hsize : varHugePktSize ≤ q.qArray.memSize)
    (h : hdr.readIdx = hdr.writeIdx ∨ Stuck q hdr ∨ ¬Good q hdr) :
    Fails q hdr (readQueue q) := by
  obtain ⟨-, hfour⟩ := huge_le_size hsize
  by_cases hidx : hdr.readIdx = hdr.writeIdx
  · rw [readQueue_empty hq hidx]
    refine ⟨rfl, by simp, rfl, rfl, ⟨rfl, rfl⟩, _, rfl, rfl, ?_⟩
    rw [← hidx, ite_self]
  by_cases hout : q.qArray.memSize.toNat < (hdr.readIdx <<< 2).toNat + 4
  · rw [readQueue_outside hq hidx hfour hout]
    exact ⟨rfl, by simp, rfl, rfl, ⟨rfl, rfl⟩, hdr, hq.hdr, rfl, (if_pos (Or.inl hout)).symm⟩
  have hin : (hdr.readIdx <<< 2).toNat + 4 ≤ q.qArray.memSize.toNat := by omega
  by_cases hzero : sizeAt q hdr.readIdx = 0
  · rw [readQueue_zero hq hidx hfour hin hzero]
    exact ⟨rfl, by simpa using hin, rfl, rfl, ⟨rfl, rfl⟩, hdr, hq.hdr, rfl,
      (if_pos (Or.inr hzero)).symm⟩
  · have hstuck : ¬Stuck q hdr := not_or.mpr ⟨hout, hzero⟩
    have hbad : ¬Good q hdr := (h.resolve_left hidx).resolve_left hstuck
    rw [readQueue_sized hq hidx hfour hin hzero]
    simp only [if_neg hbad]
    exact ⟨rfl, by simpa using hin, rfl, rfl, ⟨rfl, rfl⟩, _, rfl, rfl, (if_neg hstuck).symm⟩

variable {r : VidcIfaceQInfo × Reading}

theorem Takes.unread (h : Takes q hdr r)
    (hsize : varHugePktSize ≤ q.qArray.memSize) (hwrite : hdr.writeIdx < q.sizeInWords)
    {hdr' : HfiQueueHeader} (hhdr : r.1.qHdr = some hdr') :
    if (sizeAt q hdr.readIdx).toNat ≤ unread q hdr then
      unread r.1 hdr' + (sizeAt q hdr.readIdx).toNat = unread q hdr
    else unread q hdr ≤ unread r.1 hdr' := by
  obtain ⟨hdr₁, hhdr₁, hw, hr⟩ := h.hdr
  obtain rfl : hdr₁ = hdr' := Option.some.inj (hhdr₁.symm.trans hhdr)
  obtain ⟨hwords, -⟩ := huge_le_size hsize
  have hread := h.read_lt
  have hhuge := h.huge
  have hpos := h.pos
  rw [UInt32.lt_iff_toNat_lt] at hwrite
  have hsame : r.1.sizeInWords = q.sizeInWords := by
    rw [VidcIfaceQInfo.sizeInWords, h.kept.2, VidcIfaceQInfo.sizeInWords]
  unfold Venus.unread WordRing.free
  rw [hsame, hw, hr]
  unfold WordRing.wrap
  split_ifs <;> omega

theorem Takes.length (h : Takes q hdr r) : r.2.packet.length = (sizeAt q hdr.readIdx).toNat := by
  rw [h.packet, WordRing.length_get h.read_lt]

theorem Takes.inside (h : Takes q hdr r)
    (hsize : varHugePktSize ≤ q.qArray.memSize) :
    ∀ range ∈ r.2.loads ++ r.2.copies, range.1 + range.2 ≤ q.qArray.memSize.toNat := by
  obtain ⟨hwords, -⟩ := huge_le_size hsize
  have hread := h.read_lt
  have hhuge := h.huge
  have hnum := q.toNat_sizeInWords
  intro range hrange
  rcases List.mem_append.mp hrange with hload | hcopy
  · rw [h.loads, List.mem_singleton] at hload
    subst hload
    rw [WordRing.toNat_shiftLeft_two]
    omega
  · rw [h.copies] at hcopy
    have := WordRing.ranges_inside q.sizeInWords_le hread (by omega) range hcopy
    omega

end Reader

variable {q : VidcIfaceQInfo} {hdr : HfiQueueHeader}

theorem drain_isSome (hq : Allocated q hdr)
    (hsize : varHugePktSize ≤ q.qArray.memSize) (hwrite : hdr.writeIdx < q.sizeInWords) {fuel : ℕ}
    (hfuel : unread q hdr < fuel)
    (hfit : machine.Meets (fun q _ => Fitting q) q (List.replicate fuel .read)) :
    (drain fuel q).isSome = true := by
  induction fuel generalizing q hdr with
  | zero => exact absurd hfuel (Nat.not_lt_zero _)
  | succ fuel ih =>
    rw [List.replicate_succ, Machine.meets_cons] at hfit
    unfold drain
    by_cases hfails : hdr.readIdx = hdr.writeIdx ∨ Stuck q hdr ∨ ¬Good q hdr
    · have h := readQueue_fails hq hsize hfails
      rw [if_neg (by rw [h.rc]; simp)]
      rfl
    · obtain ⟨hidx, hrest⟩ := not_or.mp hfails
      obtain ⟨hstuck, hgood⟩ := not_or.mp hrest
      have h := readQueue_takes hq hsize hidx hstuck (not_not.mp hgood)
      obtain ⟨hdr', hhdr', hw, -⟩ := h.hdr
      have hless := h.unread hsize hwrite hhdr'
      rw [if_pos (hfit.1 hdr hq.hdr hidx)] at hless
      have hpos := h.pos
      have hsame : (readQueue q).1.sizeInWords = q.sizeInWords := by
        rw [VidcIfaceQInfo.sizeInWords, h.kept.2, VidcIfaceQInfo.sizeInWords]
      rw [if_pos h.rc, Option.isSome_map]
      exact ih ⟨by rw [h.kept.2]; exact hq.base, hhdr'⟩ (by rw [h.kept.2]; exact hsize)
        (by rw [hw, hsame]; exact hwrite) (by omega) hfit.2

/-- Whatever the firmware wrote, a call reads inside the array and copies no more than the buffer
takes. A packet that is taken leaves less between the indices exactly when it is no longer than what
was there; a call that fails leaves the read index, or puts it at the write index. The loop of a
reader ends when no packet is longer than what lies between the indices. -/
theorem reader_robust {q : VidcIfaceQInfo} {hdr : HfiQueueHeader} (hq : Allocated q hdr)
    (hsize : varHugePktSize ≤ q.qArray.memSize) :
    let r := readQueue q
    (∀ range ∈ r.2.loads ++ r.2.copies, range.1 + range.2 ≤ q.qArray.memSize.toNat) ∧
    4 * r.2.packet.length ≤ varHugePktSize.toNat ∧
    (r.2.rc = .ok ↔ hdr.readIdx ≠ hdr.writeIdx ∧ ¬Stuck q hdr ∧ Good q hdr) ∧
    (∃ hdr', r.1.qHdr = some hdr' ∧ hdr'.writeIdx = hdr.writeIdx ∧
      if r.2.rc = .ok then
        0 < r.2.packet.length ∧ hdr'.readIdx < q.sizeInWords ∧
        hdr'.readIdx.toNat =
          WordRing.wrap q.sizeInWords.toNat (hdr.readIdx.toNat + r.2.packet.length) ∧
        (hdr.writeIdx < q.sizeInWords →
          if r.2.packet.length ≤ unread q hdr then
            unread r.1 hdr' + r.2.packet.length = unread q hdr
          else unread q hdr ≤ unread r.1 hdr')
      else
        r.2.rc = .eNodata ∧ r.2.packet = [] ∧
        hdr'.readIdx = if Stuck q hdr then hdr.readIdx else hdr.writeIdx) ∧
    (hdr.writeIdx < q.sizeInWords →
      machine.Meets (fun q _ => Fitting q) q (List.replicate (unread q hdr + 1) .read) →
      (drain (unread q hdr + 1) q).isSome = true) := by
  intro r
  by_cases hfails : hdr.readIdx = hdr.writeIdx ∨ Stuck q hdr ∨ ¬Good q hdr
  · have h : Fails q hdr r := readQueue_fails hq hsize hfails
    obtain ⟨hdr', hhdr', hw, hr⟩ := h.hdr
    have hnot : r.2.rc ≠ .ok := by rw [h.rc]; simp
    refine ⟨?_, ?_, iff_of_false hnot fun hall => ?_, ⟨hdr', hhdr', hw, ?_⟩,
      fun hwrite hfit => drain_isSome hq hsize hwrite (Nat.lt_succ_self _) hfit⟩
    · rw [h.copies, List.append_nil]
      exact h.loads
    · rw [h.packet]
      exact Nat.zero_le _
    · rcases hfails with hidx | hstuck | hbad
      · exact hall.1 hidx
      · exact hall.2.1 hstuck
      · exact hbad hall.2.2
    · rw [if_neg hnot]
      exact ⟨h.rc, h.packet, hr⟩
  · obtain ⟨hidx, hrest⟩ := not_or.mp hfails
    obtain ⟨hstuck, hgood⟩ := not_or.mp hrest
    have h : Takes q hdr r := readQueue_takes hq hsize hidx hstuck (not_not.mp hgood)
    obtain ⟨hdr', hhdr', hw, hr⟩ := h.hdr
    obtain ⟨hwords, -⟩ := huge_le_size hsize
    have hlen := h.length
    have hread := h.read_lt
    have hhuge := h.huge
    refine ⟨h.inside hsize, by rw [hlen]; exact h.huge,
      iff_of_true h.rc ⟨hidx, hstuck, not_not.mp hgood⟩, ⟨hdr', hhdr', hw, ?_⟩,
      fun hwrite hfit => drain_isSome hq hsize hwrite (Nat.lt_succ_self _) hfit⟩
    rw [if_pos h.rc, hlen]
    refine ⟨h.pos, ?_, hr, fun hwrite => h.unread hsize hwrite hhdr'⟩
    rw [UInt32.lt_iff_toNat_lt, hr]
    exact WordRing.wrap_lt (by omega)

def pairs (hdr : HfiQueueHeader) : VidcIfaceQInfo where
  qHdr := some hdr
  qArray := ⟨4096, queueSize, by decide⟩
  words _ := 8

theorem sizeInWords_pairs (hdr : HfiQueueHeader) : (pairs hdr).sizeInWords.toNat = 204800 := by
  have hnum : (queueSize >>> 2).toNat = 204800 := by decide
  exact hnum

theorem sizeAt_pairs (hdr : HfiQueueHeader) (idx : UInt32) : sizeAt (pairs hdr) idx = 2 := by
  have hnum : (8 : UInt32) >>> 2 = 2 := by decide
  exact hnum

theorem allocated_pairs (hdr : HfiQueueHeader) : Allocated (pairs hdr) hdr where
  base := by
    have hnum : (4096 : UInt64) ≠ 0 := by decide
    exact hnum
  hdr := rfl

theorem huge_le_pairs (hdr : HfiQueueHeader) : varHugePktSize ≤ (pairs hdr).qArray.memSize := by
  have hnum : varHugePktSize ≤ queueSize := by decide
  exact hnum

theorem pairs_takes (hread : hdr.readIdx.toNat < 204800) (hidx : hdr.readIdx ≠ hdr.writeIdx) :
    Takes (pairs hdr) hdr (readQueue (pairs hdr)) := by
  have hmem : (pairs hdr).qArray.memSize.toNat = 819200 := rfl
  refine readQueue_takes (allocated_pairs hdr) (huge_le_pairs hdr) hidx (not_or.mpr ⟨?_, ?_⟩)
    ⟨?_, ?_⟩
  · rw [WordRing.toNat_shiftLeft_two, hmem]
    omega
  · rw [sizeAt_pairs]
    decide
  · rw [sizeAt_pairs]
    decide
  · rw [UInt32.le_iff_toNat_le, sizeInWords_pairs]
    omega

theorem readQueue_pairs (hdr : HfiQueueHeader) (hread : hdr.readIdx.toNat < 204800)
    (hidx : hdr.readIdx ≠ hdr.writeIdx) :
    ∃ hdr', (readQueue (pairs hdr)).1 = pairs hdr' ∧ (readQueue (pairs hdr)).2.rc = .ok ∧
      hdr'.writeIdx = hdr.writeIdx ∧
      hdr'.readIdx.toNat = WordRing.wrap 204800 (hdr.readIdx.toNat + 2) := by
  have h := pairs_takes hread hidx
  obtain ⟨hdr', hhdr', hw, hr⟩ := h.hdr
  rw [sizeInWords_pairs, sizeAt_pairs] at hr
  refine ⟨hdr', ?_, h.rc, hw, hr⟩
  have hkept := h.kept
  generalize (readQueue (pairs hdr)).1 = q at hhdr' hkept ⊢
  cases q
  simp only at hhdr' hkept
  rw [hhdr', hkept.1, hkept.2]
  rfl

theorem step_read (q : VidcIfaceQInfo) : (machine.step q .read).1 = (readQueue q).1 := rfl

theorem fitting_of_empty (hhdr : q.qHdr = some hdr)
    (hidx : hdr.readIdx = hdr.writeIdx) : Fitting q := fun hdr' hhdr' hne => by
  obtain rfl : hdr = hdr' := Option.some.inj (hhdr.symm.trans hhdr')
  exact absurd hidx hne

def onePacket : HfiQueueHeader := { setQueueHdrDefaults with writeIdx := 2 }

theorem unread_onePacket : unread (pairs onePacket) onePacket = 2 := by decide +kernel

theorem fitting_onePacket : Fitting (pairs onePacket) := by
  rintro hdr hhdr -
  obtain rfl : onePacket = hdr := Option.some.inj hhdr
  rw [unread_onePacket, sizeAt_pairs]
  decide

theorem reader_robust_onePacket : (drain 3 (pairs onePacket)).isSome = true := by
  obtain ⟨hdr, hpairs, -, hw, hr⟩ := readQueue_pairs onePacket (by decide) (by decide)
  have hidx : hdr.readIdx = hdr.writeIdx := by
    rw [← UInt32.toNat_inj, hr, hw]
    rfl
  have hlast := readQueue_empty (allocated_pairs hdr) hidx
  have hends := (reader_robust (allocated_pairs onePacket) (huge_le_pairs onePacket)).2.2.2.2
    (by decide +kernel)
  rw [unread_onePacket] at hends
  apply hends
  simp only [List.replicate_succ, List.replicate_zero, Machine.meets_cons, Machine.meets_nil,
    and_true, step_read, hpairs, hlast]
  exact ⟨fitting_onePacket, fitting_of_empty rfl hidx, fitting_of_empty rfl hidx⟩

/-- The write index is odd, and the reader moves it by two: the packet at the end goes past the
write index, and the loop goes on around the array for ever. -/
theorem reader_robust_fails :
    let q := pairs { setQueueHdrDefaults with writeIdx := 1 }
    (∀ fuel, drain fuel q = none) ∧ (readQueue q).1.qHdr.map (·.readIdx) = some 2 := by
  refine ⟨fun fuel => ?_, by decide +kernel⟩
  have hloop : ∀ fuel hdr, hdr.writeIdx = 1 → hdr.readIdx.toNat < 204800 →
      hdr.readIdx.toNat % 2 = 0 → drain fuel (pairs hdr) = none := by
    intro fuel
    induction fuel with
    | zero => exact fun _ _ _ _ => rfl
    | succ fuel ih =>
      intro hdr hwrite hread heven
      have hidx : hdr.readIdx ≠ hdr.writeIdx := by
        rw [hwrite, ne_eq, ← UInt32.toNat_inj, UInt32.toNat_one]
        omega
      obtain ⟨hdr', hpairs, hrc, hw, hr⟩ := readQueue_pairs hdr hread hidx
      have hlt := WordRing.wrap_lt (n := 204800) (i := hdr.readIdx.toNat + 2) (by omega)
      have heven' : hdr'.readIdx.toNat % 2 = 0 := by
        rw [hr, WordRing.wrap]
        split <;> omega
      unfold drain
      rw [if_pos hrc, hpairs, ih hdr' (hw.trans hwrite) (hr ▸ hlt) heven', Option.map_none]
  exact hloop fuel _ rfl (by decide) (by decide)

end KernelModules.Venus
