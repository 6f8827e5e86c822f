import KernelModules.HtcBundle

/-!
# Where the packets of a bundle go

The loop places the packets as filling batches in order does, whatever the environment decides: the
packets it takes are a first part of the queue. Each bundle holds its packets one behind the other
and unchanged. A packet is filled up to whole credits if it is shorter than a credit, and else by
as much as it exceeds whole credits, so the next packet need not start at a credit.
-/

namespace KernelModules.HtcBundling

open HtcWire HtcBundle Packing

theorem transferLength_pos (packet : Packet) : 0 < packet.transferLength :=
  Nat.lt_of_lt_of_le (by decide) (Nat.le_add_left hdrLength packet.actualLength)

theorem transferLength_le_weight (txCreditSize : ℕ) (packet : Packet) :
    packet.transferLength ≤ weight txCreditSize packet := Nat.le_add_right _ _

theorem weight_pos (txCreditSize : ℕ) (packet : Packet) : 0 < weight txCreditSize packet :=
  Nat.lt_of_lt_of_le (transferLength_pos packet) (transferLength_le_weight txCreditSize packet)

theorem weight_of_lt {txCreditSize : ℕ} {packet : Packet}
    (h : packet.transferLength < txCreditSize) : weight txCreditSize packet = txCreditSize := by
  have hpos := transferLength_pos packet
  have hmod := Nat.mod_eq_of_lt h
  simp only [weight, creditPad]
  rw [if_pos (by omega), if_pos h]
  omega

section

variable (bus : Bus) (txCreditSize : ℕ)

def framesEnd (frames : List (ℕ × Packet)) : ℕ :=
  match frames.getLast? with
  | none => 0
  | some f => f.1 + weight txCreditSize f.2

def lastPad (frames : List (ℕ × Packet)) : ℕ :=
  match bus, frames.getLast? with
  | .usb, some f => creditPad txCreditSize f.2.transferLength
  | _, _ => 0

/-- The packets lie one behind the other, as they are to be copied. -/
structure Filled (o : Open) : Prop where
  ends : o.pos = framesEnd txCreditSize o.frames
  inside : ∀ f ∈ o.frames, f.1 + weight txCreditSize f.2 ≤ o.pos
  apart : o.frames.Pairwise fun f g => f.1 + weight txCreditSize f.2 ≤ g.1
  bytes : ∀ f ∈ o.frames,
    bytesAt o.mem f.1 f.2.transferLength = f.2.frame bus txCreditSize

def Roomy (capacity : ℕ) (o : Open) : Prop := o.pos ≤ capacity ∨ ∃ packet, o.frames = [(0, packet)]

end

variable {bus : Bus} {txCreditSize : ℕ}

theorem filled_empty (mem : Bytes) : Filled bus txCreditSize ⟨mem, 0, []⟩ where
  ends := rfl
  inside _ hf := nomatch hf
  apart := .nil
  bytes _ hf := nomatch hf

namespace Filled

variable {o : Open}

theorem frames_eq_nil (h : Filled bus txCreditSize o) (hpos : o.pos = 0) : o.frames = [] := by
  rcases List.eq_nil_or_concat' o.frames with hnil | ⟨init, f, hframes⟩
  · exact hnil
  · have hin := h.inside f (by simp [hframes])
    have := weight_pos txCreditSize f.2
    omega

theorem put {mem : Bytes} {pos : ℕ} {frames : List (ℕ × Packet)}
    (h : Filled bus txCreditSize ⟨mem, pos, frames⟩) (packet : Packet) :
    Filled bus txCreditSize ⟨copy mem pos (packet.frame bus txCreditSize),
      pos + weight txCreditSize packet, frames ++ [(pos, packet)]⟩ where
  ends := by simp [framesEnd]
  inside f hf := by
    rcases List.mem_append.mp hf with hold | hnew
    · exact Nat.le_trans (h.inside f hold) (Nat.le_add_right _ _)
    · rw [List.mem_singleton.mp hnew]
  apart := by
    refine List.pairwise_append.mpr ⟨h.apart, List.pairwise_singleton _ _, fun f hf g hg => ?_⟩
    rw [List.mem_singleton.mp hg]
    exact h.inside f hf
  bytes f hf := by
    rcases List.mem_append.mp hf with hold | hnew
    · rw [← h.bytes f hold]
      apply bytesAt_copy_of_le
      exact Nat.le_trans (Nat.add_le_add_left (transferLength_le_weight _ _) _) (h.inside f hold)
    · rw [List.mem_singleton.mp hnew, ← length_frame bus txCreditSize packet]
      exact bytesAt_copy _ _ _

end Filled

def expected (bus : Bus) (txCreditSize : ℕ) (b : Bundle) (f : ℕ × Packet) : List UInt8 :=
  let bytes := f.2.frame bus txCreditSize
  if b.marked = some f.1 then bytes.modify 1 (· ||| flagsPaddingCheck) else bytes

theorem handleExtraTxCredit_usb (o : Open) :
    handleExtraTxCredit .usb txCreditSize o = ((o.pos : ℤ), none) := rfl

theorem handleExtraTxCredit_sdio {o : Open} (h : Filled .sdio txCreditSize o)
    {init : List (ℕ × Packet)} {f : ℕ × Packet} (hframes : o.frames = init ++ [f]) :
    (f.2.transferLength < txCreditSize ∧ ∃ bundleEnd : ℤ,
      handleExtraTxCredit .sdio txCreditSize o = (bundleEnd, none) ∧
      f.1 + f.2.transferLength ≤ bundleEnd ∧ bundleEnd ≤ o.pos) ∨
    handleExtraTxCredit .sdio txCreditSize o = ((o.pos : ℤ), some f.1) := by
  have hlast : o.frames.getLast? = some f := by simp [hframes]
  have hpos : o.pos = f.1 + weight txCreditSize f.2 := by
    rw [h.ends, framesEnd, hlast]
  have hweight := transferLength_le_weight txCreditSize f.2
  simp only [handleExtraTxCredit, hlast]
  have hblock : ∀ x : ℤ, 0 < sdioBlockSize - x.tmod sdioBlockSize := by
    intro x
    have := Int.tmod_lt_of_pos x (show 0 < sdioBlockSize by decide)
    omega
  split_ifs with hfirst hpad hpad
  · -- There is room for padding only behind a packet that is shorter than a credit.
    have hblock := hblock (o.pos - txCreditSize + f.2.transferLength)
    have hshort : f.2.transferLength < txCreditSize := by omega
    rw [weight_of_lt hshort] at hpos
    exact .inl ⟨hshort, _, rfl, by omega, by omega⟩
  · exact .inr rfl
  · have hblock := hblock (0 + f.2.transferLength)
    have hshort : f.2.transferLength < txCreditSize := by omega
    rw [weight_of_lt hshort] at hpos
    omega
  · exact .inr rfl

theorem markHeader_flags (mem : Bytes) (p n : ℕ) :
    bytesAt (markHeader mem (some p)) p n =
      (bytesAt mem p n).modify 1 (· ||| flagsPaddingCheck) := by
  apply List.ext_getElem (by simp)
  intro i hi hi'
  rw [length_bytesAt] at hi
  rw [getElem_bytesAt, List.getElem_modify, getElem_bytesAt, markHeader, copy]
  by_cases h1 : 1 = i
  · subst h1
    simp
  · rw [if_neg (by simp only [List.length_singleton]; omega), if_neg h1]

/-- The bytes of a bundle end with the bytes of its last packet, or behind them. -/
structure Closed (bus : Bus) (txCreditSize capacity : ℕ) (b : Bundle) : Prop where
  copied : ∀ f ∈ b.frames,
    bytesAt b.mem f.1 f.2.transferLength = expected bus txCreditSize b f
  inside : ∀ f ∈ b.frames, (f.1 + f.2.transferLength : ℤ) ≤ b.dataLen
  /-- A bundle longer than its buffer has one packet, on SDIO. -/
  bounded : b.dataLen ≤ capacity ∨
    bus = .sdio ∧ ∃ packet, b.frames = [(0, packet)] ∧ capacity < weight txCreditSize packet
  /-- A packet that is filled up beyond the buffer makes its bundle too long, on SDIO. -/
  oversize : bus = .sdio → txCreditSize ≤ capacity → ∀ f ∈ b.frames,
    capacity < weight txCreditSize f.2 → capacity < b.dataLen

namespace Filled

variable {o : Open}

variable {init : List (ℕ × Packet)} {f : ℕ × Packet}

theorem before_last (h : Filled bus txCreditSize o) {g : ℕ × Packet}
    (hframes : o.frames = init ++ [f]) (hg : g ∈ init) :
    g.1 + weight txCreditSize g.2 ≤ f.1 := by
  have hapart := h.apart
  rw [hframes] at hapart
  exact (List.pairwise_append.mp hapart).2.2 g hg f (List.mem_singleton_self f)

theorem close_copied (h : Filled bus txCreditSize o) (pad : ℕ) (sent : Bool) :
    ∀ f ∈ o.frames, bytesAt (o.close bus txCreditSize pad sent).mem f.1 f.2.transferLength =
      expected bus txCreditSize (o.close bus txCreditSize pad sent) f := by
  intro g hg
  have hbytes := h.bytes g hg
  cases bus with
  | usb => exact hbytes
  | sdio =>
    obtain ⟨init, f, hframes⟩ := (List.eq_nil_or_concat' o.frames).resolve_left
      (List.ne_nil_of_mem hg)
    rw [Open.close]
    rcases handleExtraTxCredit_sdio h hframes with ⟨-, bundleEnd, hextra, -⟩ | hextra
    · rw [hextra]
      exact hbytes
    · rw [hextra, expected]
      rw [hframes] at hg
      rcases List.mem_append.mp hg with hinit | hlast
      · have hbefore := h.before_last hframes hinit
        have hweight := transferLength_le_weight txCreditSize g.2
        have hpos := weight_pos txCreditSize g.2
        rw [if_neg (fun heq => by have := Option.some.inj heq; omega), ← hbytes]
        exact bytesAt_copy_of_le (by omega)
      · rw [List.mem_singleton.mp hlast] at hbytes ⊢
        rw [if_pos rfl, markHeader_flags, hbytes]

theorem close_dataLen (h : Filled bus txCreditSize o) (hframes : o.frames = init ++ [f]) (sent : Bool) :
    let dataLen := (o.close bus txCreditSize (lastPad bus txCreditSize o.frames) sent).dataLen
    f.1 + f.2.transferLength ≤ dataLen ∧ dataLen ≤ o.pos ∧
      (bus = .usb → dataLen = f.1 + f.2.transferLength) ∧
      (bus = .sdio → txCreditSize ≤ f.2.transferLength → dataLen = o.pos) := by
  have hlast : o.frames.getLast? = some f := by simp [hframes]
  have hpos : o.pos = f.1 + weight txCreditSize f.2 := by
    rw [h.ends, framesEnd, hlast]
  have hweight := transferLength_le_weight txCreditSize f.2
  cases bus with
  | usb =>
    have hpad : lastPad .usb txCreditSize o.frames = creditPad txCreditSize f.2.transferLength := by
      simp only [lastPad, hlast]
    simp only [Open.close, handleExtraTxCredit_usb, hpad]
    simp only [weight] at hpos
    refine ⟨by omega, by omega, fun _ => by omega, nofun⟩
  | sdio =>
    have hpad : lastPad .sdio txCreditSize o.frames = 0 := rfl
    simp only [Open.close, hpad]
    rcases handleExtraTxCredit_sdio h hframes with ⟨hshort, bundleEnd, hextra, hlo, hhi⟩ | hextra
    · rw [hextra]
      exact ⟨by simpa using hlo, by simpa using hhi, nofun, fun _ hlong => by omega⟩
    · rw [hextra]
      refine ⟨by omega, by omega, nofun, fun _ _ => by omega⟩

theorem close_closed (h : Filled bus txCreditSize o) {capacity : ℕ} (hroomy : Roomy capacity o)
    (hfit : ∀ f ∈ o.frames, f.2.transferLength ≤ capacity) (sent : Bool) :
    Closed bus txCreditSize capacity
      (o.close bus txCreditSize (lastPad bus txCreditSize o.frames) sent) := by
  have hcopied := h.close_copied (lastPad bus txCreditSize o.frames) sent
  rcases List.eq_nil_or_concat' o.frames with hnil | ⟨init, f, hframes⟩
  · have hend : (o.close bus txCreditSize (lastPad bus txCreditSize o.frames) sent).dataLen = 0 := by
      have hpos : o.pos = 0 := by rw [h.ends, hnil]; rfl
      cases bus <;> simp [Open.close, handleExtraTxCredit, lastPad, hnil, hpos]
    have hnone : ∀ f, f ∉ o.frames := fun f hf => by simp [hnil] at hf
    exact ⟨hcopied, fun f hf => absurd hf (hnone f), .inl (by omega),
      fun _ _ f hf => absurd hf (hnone f)⟩
  obtain ⟨hlo, hhi, husb, hsdio⟩ := h.close_dataLen hframes sent
  have hf : f ∈ o.frames := by simp [hframes]
  have hpos : o.pos = f.1 + weight txCreditSize f.2 := by
    rw [h.ends, framesEnd]
    simp [hframes]
  refine ⟨hcopied, fun g hg => ?_, ?_, fun hbus hcredit g hg hbig => ?_⟩
  · change g ∈ o.frames at hg
    rw [hframes] at hg
    rcases List.mem_append.mp hg with hinit | hlast
    · have hbefore := h.before_last hframes hinit
      have hweight := transferLength_le_weight txCreditSize g.2
      omega
    · rw [List.mem_singleton.mp hlast]
      exact hlo
  · rcases hroomy with hroom | ⟨packet, hsingle⟩
    · exact .inl (by omega)
    · obtain rfl : f = (0, packet) := by
        rw [hsingle] at hf
        exact List.mem_singleton.mp hf
      dsimp only at hpos
      cases bus with
      | usb =>
        have := hfit _ hf
        have := husb rfl
        exact .inl (by omega)
      | sdio =>
        by_cases hbig : capacity < weight txCreditSize packet
        · exact .inr ⟨rfl, packet, hsingle, hbig⟩
        · exact .inl (by omega)
  · change g ∈ o.frames at hg
    have hin := h.inside g hg
    rcases hroomy with hroom | ⟨packet, hsingle⟩
    · omega
    · obtain rfl : f = (0, packet) := by
        rw [hsingle] at hf
        exact List.mem_singleton.mp hf
      obtain rfl : g = (0, packet) := by
        rw [hsingle] at hg
        exact List.mem_singleton.mp hg
      dsimp only at hpos hbig
      have hlong : txCreditSize ≤ packet.transferLength := by
        by_contra hshort
        rw [weight_of_lt (Nat.lt_of_not_le hshort)] at hbig
        omega
      have := hsdio hbus hlong
      omega

end Filled

end KernelModules.HtcBundling
