import KernelModules.HtcBundling

/-!
# Runs of the bundling loop

What the loop has taken of the queue lies in its bundles as filling batches in order places it. So
every packet starts at a credit just when no packet that ends between credits has another behind it
in its bundle.
-/

namespace KernelModules.HtcBundleRuns

open HtcWire HtcBundle HtcBundling Packing

/-- The packets that are taken lie in bundles, each in one, in the order of the queue and unchanged;
each starts at a credit; and no bundle is longer than its buffer. -/
structure Bundled (bus : Bus) (txCreditSize maxMsgsPerHTCBundle : ℕ) (queue : List Packet)
    (r : Result) : Prop where
  inOrder : (r.bundles.flatMap Bundle.frames).map Prod.snd ++ r.pktQueue = queue
  aligned : ∀ b ∈ r.bundles, ∀ f ∈ b.frames, txCreditSize ∣ f.1
  copied : ∀ b ∈ r.bundles, ∀ f ∈ b.frames,
    bytesAt b.mem f.1 f.2.transferLength = expected bus txCreditSize b f ∧
      (f.1 + f.2.transferLength : ℤ) ≤ b.dataLen
  bounded : ∀ b ∈ r.bundles, b.dataLen ≤ (maxMsgsPerHTCBundle * txCreditSize : ℕ)

section

variable {bus : Bus} {txCreditSize maxMsgsPerHTCBundle : ℕ} {env : Env} {queue : List Packet}

/-- What holds of the bundles when so much of the queue is taken. -/
structure Taken (bus : Bus) (txCreditSize maxMsgsPerHTCBundle : ℕ) (queue taken : List Packet)
    (bundles : List Bundle) (frames : List (ℕ × Packet)) : Prop where
  placed : bundles.flatMap Bundle.frames ++ frames =
    place (weight txCreditSize) (maxMsgsPerHTCBundle * txCreditSize) 0 taken
  closed : ∀ b ∈ bundles, Closed bus txCreditSize (maxMsgsPerHTCBundle * txCreditSize) b
  /-- A packet that is filled up beyond the buffer is taken only when another follows. -/
  oversize : ∀ packet ∈ taken,
    weight txCreditSize packet ≤ maxMsgsPerHTCBundle * txCreditSize ∨ packet ∈ queue.dropLast

structure Issued (bus : Bus) (txCreditSize maxMsgsPerHTCBundle : ℕ) (queue taken : List Packet)
    (s : Issue) : Prop where
  bundles : Taken bus txCreditSize maxMsgsPerHTCBundle queue taken s.bundles s.cur.frames
  pos : s.cur.pos = fill (weight txCreditSize) (maxMsgsPerHTCBundle * txCreditSize) 0 taken
  space : s.bundlesSpaceRemaining = maxMsgsPerHTCBundle * txCreditSize - s.cur.pos
  cur : Filled bus txCreditSize s.cur
  roomy : Roomy (maxMsgsPerHTCBundle * txCreditSize) s.cur
  pad : s.lastCreditPad = lastPad bus txCreditSize s.cur.frames

theorem put_cur (s : Issue) (packet : Packet) :
    (s.put bus txCreditSize packet).cur = ⟨copy s.cur.mem s.cur.pos (packet.frame bus txCreditSize),
      s.cur.pos + weight txCreditSize packet, s.cur.frames ++ [(s.cur.pos, packet)]⟩ := by
  simp only [Issue.put, copyFrags_eq]
  have hlen : (List.take packet.transferLength
      (packet.bundleFrags bus txCreditSize).flatten).length = packet.transferLength :=
    length_frame bus txCreditSize packet
  rw [hlen, Nat.add_assoc]
  rfl

variable {s : Issue} {taken rest : List Packet}

theorem put_pad (packet : Packet) (h : bus = .sdio → s.lastCreditPad = 0) :
    (s.put bus txCreditSize packet).lastCreditPad =
      lastPad bus txCreditSize (s.cur.frames ++ [(s.cur.pos, packet)]) := by
  cases bus with
  | usb => simp [Issue.put, lastPad]
  | sdio => exact h rfl

namespace Issued

variable {taken : List Packet} {s : Issue}

theorem start (queue txQueue : List Packet) :
    Issued bus txCreditSize maxMsgsPerHTCBundle queue []
      ⟨[], ⟨env.stale 0, 0, []⟩, maxMsgsPerHTCBundle * txCreditSize, 0, txQueue⟩ where
  bundles := ⟨rfl, nofun, nofun⟩
  pos := rfl
  space := by simp
  cur := filled_empty _
  roomy := .inl (Nat.zero_le _)
  pad := by cases bus <;> rfl

theorem mem_taken (h : Issued bus txCreditSize maxMsgsPerHTCBundle queue taken s)
    {f : ℕ × Packet} (hf : f ∈ s.cur.frames) : f.2 ∈ taken := by
  have hplaced : f ∈ place (weight txCreditSize) (maxMsgsPerHTCBundle * txCreditSize) 0 taken := by
    rw [← h.bundles.placed]
    exact List.mem_append_right _ hf
  have htaken : (place (weight txCreditSize) (maxMsgsPerHTCBundle * txCreditSize) 0 taken).map
      Prod.snd = taken := map_snd_place 0 taken
  rw [← htaken]
  exact List.mem_map_of_mem hplaced

theorem send (h : Issued bus txCreditSize maxMsgsPerHTCBundle queue taken s) (env : Env)
    (hfit : ∀ packet ∈ taken, packet.transferLength ≤ maxMsgsPerHTCBundle * txCreditSize) :
    Taken bus txCreditSize maxMsgsPerHTCBundle queue taken
      (s.send bus txCreditSize env).bundles [] where
  placed := by
    rw [← h.bundles.placed]
    simp [Issue.send, Open.close]
  closed b hb := by
    rcases List.mem_append.mp hb with hold | hnew
    · exact h.bundles.closed b hold
    · rw [List.mem_singleton.mp hnew, h.pad]
      exact h.cur.close_closed h.roomy (fun f hf => hfit f.2 (h.mem_taken hf)) _
  oversize := h.bundles.oversize

theorem put (h : Issued bus txCreditSize maxMsgsPerHTCBundle queue taken s) {packet : Packet}
    (hspace : s.cur.pos + weight txCreditSize packet ≤ maxMsgsPerHTCBundle * txCreditSize) :
    Issued bus txCreditSize maxMsgsPerHTCBundle queue (taken ++ [packet])
      (s.put bus txCreditSize packet) := by
  have hstart := h.pos ▸ start_of_le hspace
  refine ⟨⟨?_, h.bundles.closed, ?_⟩, ?_, ?_, ?_, ?_, ?_⟩
  · rw [put_cur, place_concat, hstart, ← h.bundles.placed, ← h.pos, List.append_assoc]
    rfl
  · intro p hp
    rcases List.mem_append.mp hp with hold | hnew
    · exact h.bundles.oversize p hold
    · rw [List.mem_singleton.mp hnew]
      exact .inl (Nat.le_trans (Nat.le_add_left _ _) hspace)
  · rw [put_cur, fill_concat, hstart, h.pos]
  · have := h.space
    rw [put_cur]
    simp only [Issue.put, weight] at *
    omega
  · rw [put_cur]
    exact h.cur.put packet
  · rw [put_cur]
    exact .inl hspace
  · rw [put_cur]
    refine put_pad packet fun hbus => ?_
    rw [h.pad, hbus]
    rfl

theorem putFresh (h : Issued bus txCreditSize maxMsgsPerHTCBundle queue taken s) (env : Env)
    {packet : Packet}
    (hfit : ∀ packet ∈ taken, packet.transferLength ≤ maxMsgsPerHTCBundle * txCreditSize)
    (hspace : maxMsgsPerHTCBundle * txCreditSize < s.cur.pos + weight txCreditSize packet)
    (hlast : packet ∈ queue.dropLast) :
    Issued bus txCreditSize maxMsgsPerHTCBundle queue (taken ++ [packet])
      (((s.send bus txCreditSize env).fresh txCreditSize maxMsgsPerHTCBundle env).put bus
        txCreditSize packet) := by
  have hstart := h.pos ▸ start_of_lt hspace
  have hsent := h.send env hfit
  refine ⟨⟨?_, hsent.closed, ?_⟩, ?_, ?_, ?_, ?_, ?_⟩
  · rw [put_cur, place_concat, hstart, ← hsent.placed, List.append_nil]
    rfl
  · intro p hp
    rcases List.mem_append.mp hp with hold | hnew
    · exact h.bundles.oversize p hold
    · rw [List.mem_singleton.mp hnew]
      exact .inr hlast
  · rw [put_cur, fill_concat, hstart]
    rfl
  · rw [put_cur]
    simp only [Issue.put, Issue.fresh, weight]
    omega
  · rw [put_cur]
    exact (filled_empty _).put packet
  · rw [put_cur]
    exact .inr ⟨packet, rfl⟩
  · rw [put_cur]
    refine put_pad packet fun hbus => ?_
    rw [show ((s.send bus txCreditSize env).fresh txCreditSize maxMsgsPerHTCBundle
      env).lastCreditPad = s.lastCreditPad from rfl, h.pad, hbus]
    rfl

end Issued

structure Ends (bus : Bus) (txCreditSize maxMsgsPerHTCBundle : ℕ) (queue : List Packet)
    (r : Result) (taken : List Packet) : Prop where
  split : taken ++ r.pktQueue = queue
  bundles : Taken bus txCreditSize maxMsgsPerHTCBundle queue taken r.bundles []

theorem finish_ends
    (h : Issued bus txCreditSize maxMsgsPerHTCBundle queue taken s) (hsplit : taken ++ rest = queue)
    (hfit : ∀ packet ∈ taken, packet.transferLength ≤ maxMsgsPerHTCBundle * txCreditSize) :
    Ends bus txCreditSize maxMsgsPerHTCBundle queue (s.finish bus txCreditSize env rest) taken := by
  refine ⟨hsplit, ?_⟩
  simp only [Issue.finish]
  split_ifs with hpos
  · exact h.send env hfit
  · have hbundles := h.bundles
    rw [h.cur.frames_eq_nil (not_not.mp hpos)] at hbundles
    exact hbundles

/-- The loop takes a first part of the queue. If nothing keeps it from going on it leaves at most
the last packet, and that one only if it does not fit the last bundle. -/
theorem issueLoop_ends
    (h : Issued bus txCreditSize maxMsgsPerHTCBundle queue taken s) (hsplit : taken ++ rest = queue)
    (hfit : ∀ packet ∈ queue, packet.transferLength ≤ maxMsgsPerHTCBundle * txCreditSize) :
    ∃ taken', Ends bus txCreditSize maxMsgsPerHTCBundle queue
        (issueLoop bus txCreditSize maxMsgsPerHTCBundle env rest s) taken' ∧
      ((∀ n, env.alloc n) → (∀ n, env.padCreditAvail n) → taken' = queue ∨
        ∃ packet, queue = taken' ++ [packet] ∧ maxMsgsPerHTCBundle * txCreditSize <
          fill (weight txCreditSize) (maxMsgsPerHTCBundle * txCreditSize) 0 taken' +
            weight txCreditSize packet) := by
  induction rest generalizing taken s with
  | nil =>
    have hfits := fun packet hp => hfit packet (hsplit ▸ List.mem_append_left _ hp)
    refine ⟨taken, finish_ends h hsplit hfits, fun _ _ => .inl ?_⟩
    rw [← hsplit, List.append_nil]
  | cons packet rest ih =>
    have hfits := fun packet hp => hfit packet (hsplit ▸ List.mem_append_left _ hp)
    have hsplit' : (taken ++ [packet]) ++ rest = queue := by
      rw [List.append_assoc]
      exact hsplit
    have hroom := h.space
    rw [issueLoop]
    by_cases hcredit : bus = .sdio ∧ ¬env.padCreditAvail (rest.length + 1)
    · rw [if_pos hcredit]
      exact ⟨taken, finish_ends h hsplit hfits, fun _ hall => absurd (hall _) hcredit.2⟩
    rw [if_neg hcredit]
    by_cases hspace : s.bundlesSpaceRemaining < weight txCreditSize packet
    · have hover : maxMsgsPerHTCBundle * txCreditSize < s.cur.pos + weight txCreditSize packet := by
        omega
      rw [weight] at hspace
      simp only [if_pos hspace]
      split_ifs with hstop
      · refine ⟨taken, ⟨hsplit, h.send env hfits⟩, fun halloc _ => .inr ⟨packet, ?_, ?_⟩⟩
        · have hnil : rest = [] := by
            rcases hstop with hshort | hnone
            · exact List.eq_nil_of_length_eq_zero (by simp only [minMsgPerBundle] at hshort; omega)
            · exact absurd (halloc _) hnone
          rw [← hsplit, hnil]
        · rw [← h.pos]
          exact hover
      · have hrest : rest ≠ [] := by
          rintro rfl
          exact hstop (.inl (by decide))
        refine ih (h.putFresh env hfits hover ?_) hsplit'
        rw [← hsplit, List.dropLast_append_of_ne_nil (by simp), List.dropLast_cons_of_ne_nil hrest]
        exact List.mem_append_right _ List.mem_cons_self
    · rw [weight] at hspace
      simp only [if_neg hspace]
      refine ih (h.put ?_) hsplit'
      rw [weight]
      omega

theorem Ends.inOrder {r : Result}
    (h : Ends bus txCreditSize maxMsgsPerHTCBundle queue r taken) :
    (r.bundles.flatMap Bundle.frames).map Prod.snd ++ r.pktQueue = queue := by
  have hplaced := h.bundles.placed
  rw [List.append_nil] at hplaced
  rw [hplaced, map_snd_place, h.split]

theorem Ends.dvd_iff {r : Result}
    (h : Ends bus txCreditSize maxMsgsPerHTCBundle queue r taken) :
    (∀ b ∈ r.bundles, ∀ f ∈ b.frames, txCreditSize ∣ f.1) ↔
      RaggedLast (weight txCreditSize) (maxMsgsPerHTCBundle * txCreditSize) txCreditSize 0 taken := by
  have hplaced := h.bundles.placed
  rw [List.append_nil] at hplaced
  rw [← dvd_place_iff (Nat.dvd_zero _), ← hplaced]
  simp only [List.mem_flatMap]
  exact ⟨fun hb f ⟨b, hmem, hf⟩ => hb b hmem f hf, fun hf b hmem f hfm => hf f ⟨b, hmem, hfm⟩⟩

end

variable {txCreditSize maxMsgsPerHTCBundle : ℕ} {queue : List Packet}

theorem issuePacketsBundle_ends (bus : Bus) (env : Env) (txQueue : List Packet)
    (hfit : ∀ packet ∈ queue, packet.transferLength ≤ maxMsgsPerHTCBundle * txCreditSize) :
    ∃ taken, Ends bus txCreditSize maxMsgsPerHTCBundle queue
        (issuePacketsBundle bus txCreditSize maxMsgsPerHTCBundle env queue txQueue) taken ∧
      ((∀ n, env.alloc n) → (∀ n, env.padCreditAvail n) → taken = queue ∨
        ∃ packet, queue = taken ++ [packet] ∧ maxMsgsPerHTCBundle * txCreditSize <
          fill (weight txCreditSize) (maxMsgsPerHTCBundle * txCreditSize) 0 taken +
            weight txCreditSize packet) := by
  rw [issuePacketsBundle]
  by_cases halloc : env.alloc 0
  · rw [if_neg (not_not.mpr halloc)]
    exact issueLoop_ends (.start queue txQueue) rfl hfit
  · rw [if_pos halloc]
    exact ⟨[], ⟨rfl, rfl, nofun, nofun⟩, fun hall _ => absurd (hall 0) halloc⟩

def Env.clear : Env := ⟨fun _ _ => 0, fun _ => true, fun _ => true, fun _ => true⟩

theorem Ends.mem_bundle {bus : Bus} {taken : List Packet}
    {r : Result} (h : Ends bus txCreditSize maxMsgsPerHTCBundle queue r taken) {packet : Packet} :
    packet ∈ taken ↔ ∃ b ∈ r.bundles, ∃ f ∈ b.frames, f.2 = packet := by
  have hplaced := h.bundles.placed
  have htaken : (place (weight txCreditSize) (maxMsgsPerHTCBundle * txCreditSize) 0 taken).map
      Prod.snd = taken := map_snd_place 0 taken
  rw [← hplaced, List.append_nil] at htaken
  rw [← htaken]
  simp only [List.mem_map, List.mem_flatMap]
  exact ⟨fun ⟨f, ⟨b, hb, hf⟩, hp⟩ => ⟨b, hb, f, hf, hp⟩, fun ⟨b, hb, f, hf, hp⟩ => ⟨f, ⟨b, hb, hf⟩, hp⟩⟩

/-- The bytes from the start of a packet of `length` bytes to the next one. -/
def span (txCreditSize length : ℕ) : ℕ :=
  if length < txCreditSize then txCreditSize else length + length % txCreditSize

/-- The packet is longer than a credit, and not of whole half credits. -/
def EndsBetween (txCreditSize length : ℕ) : Prop :=
  txCreditSize < length ∧ ¬txCreditSize ∣ 2 * length

/-- Of packets of these lengths, placed in order in bundles of `capacity` bytes, none that ends
between credits has room for the next one behind it. -/
def NoneBehind (txCreditSize capacity : ℕ) : ℕ → List ℕ → Prop
  | used, length :: next :: rest =>
    let behind := (if used + span txCreditSize length ≤ capacity then used else 0) +
      span txCreditSize length
    (EndsBetween txCreditSize length → capacity < behind + span txCreditSize next) ∧
      NoneBehind txCreditSize capacity behind (next :: rest)
  | _, _ => True

theorem weight_eq (txCreditSize : ℕ) (packet : Packet) :
    weight txCreditSize packet = span txCreditSize packet.transferLength := by
  have hpos := transferLength_pos packet
  by_cases hlt : packet.transferLength < txCreditSize
  · rw [weight_of_lt hlt, span, if_pos hlt]
  · rw [weight, creditPad, span, if_neg hlt, if_neg hlt]
    split_ifs with hwhole
    · rfl
    · rw [not_not.mp hwhole]

theorem not_dvd_weight_iff (txCreditSize : ℕ) (packet : Packet) :
    ¬txCreditSize ∣ weight txCreditSize packet ↔
      EndsBetween txCreditSize packet.transferLength := by
  rw [weight_eq, span, EndsBetween]
  generalize packet.transferLength = length
  by_cases hlt : length < txCreditSize
  · rw [if_pos hlt]
    exact iff_of_false (not_not_intro dvd_rfl) fun h => by omega
  · have htwice : 2 * length =
        txCreditSize * (length / txCreditSize) + (length + length % txCreditSize) := by
      have := Nat.div_add_mod length txCreditSize
      omega
    rw [if_neg hlt, htwice, Nat.dvd_add_right (dvd_mul_right ..)]
    refine (and_iff_right_of_imp fun hne => ?_).symm
    apply lt_of_le_of_ne (Nat.le_of_not_lt hlt)
    rintro rfl
    exact hne (by rw [Nat.mod_self, Nat.add_zero])

theorem raggedLast_iff {txCreditSize capacity used : ℕ} {queue : List Packet} :
    RaggedLast (weight txCreditSize) capacity txCreditSize used queue ↔
      NoneBehind txCreditSize capacity used (queue.map Packet.transferLength) := by
  induction queue generalizing used with
  | nil => exact Iff.rfl
  | cons packet queue ih =>
    cases queue with
    | nil => exact Iff.rfl
    | cons next rest =>
      rw [RaggedLast, not_dvd_weight_iff, ih, start]
      simp only [weight_eq]
      rfl

/-- Exactly then every packet starts at a credit, and no bundle is too long. -/
theorem bundled_iff (bus : Bus) {txCreditSize maxMsgsPerHTCBundle : ℕ} {queue : List Packet}
    (txQueue : List Packet)
    (hfit : ∀ packet ∈ queue, packet.transferLength ≤ maxMsgsPerHTCBundle * txCreditSize) :
    (∀ env, Bundled bus txCreditSize maxMsgsPerHTCBundle queue
      (issuePacketsBundle bus txCreditSize maxMsgsPerHTCBundle env queue txQueue)) ↔
      NoneBehind txCreditSize (maxMsgsPerHTCBundle * txCreditSize) 0
        (queue.map Packet.transferLength) ∧
      (bus = .sdio → ∀ packet ∈ queue.dropLast,
        span txCreditSize packet.transferLength ≤ maxMsgsPerHTCBundle * txCreditSize) := by
  rw [← raggedLast_iff]
  simp only [← weight_eq]
  constructor
  · intro h
    have hbundled := h Env.clear
    obtain ⟨taken, hends, hgreedy⟩ := issuePacketsBundle_ends bus Env.clear txQueue hfit
    have hragged := hends.dvd_iff.mp hbundled.aligned
    have hgreedy := hgreedy (fun _ => rfl) (fun _ => rfl)
    refine ⟨?_, fun hbus packet hpacket => ?_⟩
    · rcases hgreedy with rfl | ⟨packet, rfl, hover⟩
      · exact hragged
      · exact raggedLast_concat (Nat.dvd_zero _) hragged hover
    · have htaken : packet ∈ taken := by
        rcases hgreedy with rfl | ⟨last, rfl, -⟩
        · exact List.dropLast_subset _ hpacket
        · rwa [List.dropLast_concat] at hpacket
      obtain ⟨b, hb, f, hf, rfl⟩ := hends.mem_bundle.mp htaken
      by_contra hbig
      have hroom := hfit f.2 (List.dropLast_subset _ hpacket)
      have hcredit : txCreditSize ≤ maxMsgsPerHTCBundle * txCreditSize := by
        apply Nat.le_mul_of_pos_left
        apply Nat.pos_of_ne_zero
        rintro rfl
        have := transferLength_pos f.2
        omega
      have hlong := (hends.bundles.closed b hb).oversize hbus hcredit f hf (Nat.lt_of_not_le hbig)
      have := hbundled.bounded b hb
      omega
  · rintro ⟨hragged, hsmall⟩ env
    obtain ⟨taken, hends, -⟩ := issuePacketsBundle_ends bus env txQueue hfit
    have hclosed := hends.bundles.closed
    refine ⟨hends.inOrder, ?_, fun b hb f hf => ⟨(hclosed b hb).copied f hf,
      (hclosed b hb).inside f hf⟩, fun b hb => ?_⟩
    · rw [← hends.split] at hragged
      exact hends.dvd_iff.mpr (raggedLast_of_append (Nat.dvd_zero _) hragged)
    · rcases (hclosed b hb).bounded with hle | ⟨hbus, packet, hframes, hbig⟩
      · exact hle
      · have htaken : packet ∈ taken :=
          hends.mem_bundle.mpr ⟨b, hb, (0, packet), by simp [hframes], rfl⟩
        rcases hends.bundles.oversize packet htaken with hle | hlast
        · omega
        · have := hsmall hbus packet hlast
          omega

/-- A packet of 20 bytes and one of 16. -/
def longThenShort : List Packet :=
  [{ frags := [List.replicate 8 1, List.replicate 12 2], actualLength := 12, sendFlags := 0,
     seqNo := 0, endpoint := 1, header := by decide, whole := by decide },
   { frags := [List.replicate 8 3, List.replicate 8 4], actualLength := 8, sendFlags := 0,
     seqNo := 1, endpoint := 1, header := by decide, whole := by decide }]

theorem longThenShort_fit :
    (∀ packet ∈ longThenShort, packet.transferLength ≤ 4 * 16) ∧
      ((∀ env, Bundled .usb 16 4 longThenShort
        (issuePacketsBundle .usb 16 4 env longThenShort [])) ↔
        NoneBehind 16 (4 * 16) 0 [20, 16] ∧
        (Bus.usb = .sdio → ∀ packet ∈ longThenShort.dropLast,
          span 16 packet.transferLength ≤ 4 * 16)) :=
  ⟨by decide, bundled_iff .usb [] (by decide)⟩

/-- With credits of 16 bytes the second packet starts at byte 24 of the bundle. -/
theorem longThenShort_not_bundled :
    (issuePacketsBundle .usb 16 4 Env.clear longThenShort []).bundles.map
        (fun b => b.frames.map Prod.fst) = [[0, 24]] ∧
      ¬Bundled .usb 16 4 longThenShort
        (issuePacketsBundle .usb 16 4 Env.clear longThenShort []) := by
  have hstarts : (issuePacketsBundle .usb 16 4 Env.clear longThenShort []).bundles.map
      (fun b => b.frames.map Prod.fst) = [[0, 24]] := by decide +kernel
  refine ⟨hstarts, fun h => ?_⟩
  have haligned : ∀ starts ∈ (issuePacketsBundle .usb 16 4 Env.clear longThenShort []).bundles.map
      (fun b => b.frames.map Prod.fst), ∀ p ∈ starts, 16 ∣ p := by
    intro starts hstarts p hp
    obtain ⟨b, hb, rfl⟩ := List.mem_map.mp hstarts
    obtain ⟨f, hf, rfl⟩ := List.mem_map.mp hp
    exact h.aligned b hb f hf
  rw [hstarts] at haligned
  exact absurd (haligned [0, 24] List.mem_cons_self 24 (by simp)) (by decide)

end KernelModules.HtcBundleRuns
