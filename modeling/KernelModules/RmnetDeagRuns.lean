import KernelModules.RmnetDeag

/-!
# Buffers taken apart

The loop ends, and hands on the packets of the MAP frames of a buffer one after the other. Nothing
compares the lengths of their headers with the length of the packet: everything stays inside the
packets just when the headers in every packet fit.
-/

namespace KernelModules.RmnetDeag

variable {s : State}

theorem handlePacketIngress_of_none {env : Env} {skb : Skb}
    {maph frameLen trailerLen : ℕ}
    (h : dissectPkt env.skipExthdr skb maph
      (UInt16.ofNat (frameLen - sizeofMapHeader - trailerLen)) = none) :
    handlePacketIngress env skb s maph frameLen trailerLen = s := by
  simp only [handlePacketIngress, h]

theorem handlePacketIngress_of_some {env : Env} {skb : Skb} (hkept : s.Kept)
    {maph frameLen trailerLen : ℕ} {d : Dissected}
    (h : dissectPkt env.skipExthdr skb maph
      (UInt16.ofNat (frameLen - sizeofMapHeader - trailerLen)) = some d) :
    (handlePacketIngress env skb s maph frameLen trailerLen).Kept ∧
      (handlePacketIngress env skb s maph frameLen trailerLen).passed = s.passed ++ [d.pktInfo] := by
  have hpktLen := (dissectPkt_spec h).1.pktLen_eq
  have hpass := hkept.pass d.pktInfo
  have hmem : d.pktInfo ∈ s.passed ++ [d.pktInfo] := by simp
  rw [← hpktLen] at h
  simp only [handlePacketIngress, ← hpktLen, h]
  have hflushed : ∀ is : List ℕ, d.pktInfo ∈
      (is.foldl State.flushNode { s with passed := s.passed ++ [d.pktInfo] }).passed := by
    intro is
    rw [flushNodes_passed]
    exact hmem
  split_ifs
  · exact ⟨hpass.flushCurr hmem fun _ => Nat.le_refl _, rfl⟩
  · refine ⟨(hpass.flushNodes _).flushCurr (hflushed _) fun _ => Nat.le_refl _, ?_⟩
    exact flushNodes_passed _ _
  · refine ⟨(hpass.flushNodes _).optIngress (hflushed _) _, ?_⟩
    rw [optIngress_passed, flushNodes_passed]
  · exact ⟨hpass.flushCurr hmem fun _ => Nat.le_refl _, rfl⟩

section

variable (port : Port) (env : Env) (skb : Skb)

def takeIn (s : State) (frame : ℕ × UInt16) : State :=
  handlePacketIngress env skb s frame.1 (frame.2.toNat + sizeofMapHeader + trailerLen port)
    (trailerLen port)

theorem look_spec (pos : ℕ) :
    match look port env skb pos with
    | .out => True
    | .pull n => 0 < n ∧ pos + n ≤ skb.len
    | .packet mapFrameLen =>
      mapFrameLen = (be16 skb.data (pos + 2)).toNat + sizeofMapHeader + trailerLen port ∧
        pos + mapFrameLen ≤ skb.len := by
  have hsize : 0 < sizeofMapHeader := by decide
  simp only [look]
  by_cases hend : skb.len - pos = 0
  · simp [hend]
  by_cases hempty : be16 skb.data (pos + 2) = 0
  · simp [hend, hempty]
  by_cases hshort : skb.len - pos <
      (be16 skb.data (pos + 2)).toNat + sizeofMapHeader + trailerLen port
  · simp [hend, hempty, hshort]
  rw [if_neg hend, if_neg hempty, if_neg hshort]
  split_ifs
  · cases hcommand : env.flowCommand skb pos with
    | none => exact ⟨by omega, by omega⟩
    | some n => exact env.flowCommand_pulls hcommand
  · exact ⟨by omega, by omega⟩
  · exact ⟨by omega, by omega⟩
  · exact ⟨rfl, by omega⟩

variable {port env skb}

theorem deaggregate_eq {fuel fuel' pos : ℕ} (s : State) (hfuel : skb.len - pos < fuel)
    (hfuel' : skb.len - pos < fuel') :
    deaggregate port env skb fuel pos s =
      some ((frames port env skb fuel' pos).foldl (takeIn port env skb) s) := by
  induction fuel generalizing fuel' pos s with
  | zero => omega
  | succ fuel ih =>
    obtain ⟨fuel', rfl⟩ : ∃ n, fuel' = n + 1 := ⟨fuel' - 1, by omega⟩
    have hlook := look_spec port env skb pos
    rw [deaggregate, frames]
    cases hl : look port env skb pos with
    | out => rfl
    | pull n =>
      rw [hl] at hlook
      exact ih s (by omega) (by omega)
    | packet mapFrameLen =>
      rw [hl] at hlook
      obtain ⟨hlen, hin⟩ := hlook
      have hsize : 0 < sizeofMapHeader := by decide
      rw [List.foldl_cons, ← ih _ (by omega) (by omega), takeIn, hlen]

variable {frame : ℕ × UInt16}

theorem frames_inside {fuel pos : ℕ}
    (h : frame ∈ frames port env skb fuel pos) :
    frame.1 + sizeofMapHeader + frame.2.toNat ≤ skb.len := by
  induction fuel generalizing pos with
  | zero => simp [frames] at h
  | succ fuel ih =>
    have hlook := look_spec port env skb pos
    rw [frames] at h
    cases hl : look port env skb pos with
    | out => simp [hl] at h
    | pull n =>
      rw [hl] at h
      exact ih h
    | packet mapFrameLen =>
      rw [hl] at h hlook
      obtain ⟨hlen, hin⟩ := hlook
      rcases List.mem_cons.mp h with rfl | hrest
      · dsimp only
        omega
      · exact ih hrest

variable (port env)

theorem takeIn_spec {s : State} (hkept : s.Kept)
    (hframe : frame.1 + sizeofMapHeader + frame.2.toNat ≤ skb.len) :
    (takeIn port env skb s frame).Kept ∧
      ((∀ p ∈ (takeIn port env skb s frame).passed, p.Inside) ↔
        (∀ p ∈ s.passed, p.Inside) ∧ HeadersFit env.skipExthdr skb frame.1 frame.2) := by
  have hlen : UInt16.ofNat (frame.2.toNat + sizeofMapHeader + trailerLen port - sizeofMapHeader -
      trailerLen port) = frame.2 := by
    rw [show frame.2.toNat + sizeofMapHeader + trailerLen port - sizeofMapHeader -
      trailerLen port = frame.2.toNat by omega, UInt16.ofNat_toNat]
  cases hd : dissectPkt env.skipExthdr skb frame.1 frame.2 with
  | none =>
    rw [takeIn, handlePacketIngress_of_none (by rw [hlen]; exact hd)]
    exact ⟨hkept, by simp [headersFit_of_none hd]⟩
  | some d =>
    obtain ⟨hkept', hpassed⟩ := handlePacketIngress_of_some hkept
      (show dissectPkt env.skipExthdr skb frame.1 (UInt16.ofNat (frame.2.toNat +
        sizeofMapHeader + trailerLen port - sizeofMapHeader - trailerLen port)) = some d by
        rw [hlen]; exact hd)
    obtain ⟨hmade, hfit⟩ := dissectPkt_spec hd
    refine ⟨hkept', ?_⟩
    rw [takeIn, hpassed, List.forall_mem_append, List.forall_mem_singleton,
      hmade.inside_iff hframe, hfit]

theorem foldl_takeIn_spec {s : State} (hkept : s.Kept) {fs : List (ℕ × UInt16)}
    (hfs : ∀ frame ∈ fs, frame.1 + sizeofMapHeader + frame.2.toNat ≤ skb.len) :
    (fs.foldl (takeIn port env skb) s).Kept ∧
      ((∀ p ∈ (fs.foldl (takeIn port env skb) s).passed, p.Inside) ↔
        (∀ p ∈ s.passed, p.Inside) ∧
          ∀ frame ∈ fs, HeadersFit env.skipExthdr skb frame.1 frame.2) := by
  induction fs generalizing s with
  | nil => simp [hkept]
  | cons frame fs ih =>
    obtain ⟨hhead, hrest⟩ := List.forall_mem_cons.mp hfs
    obtain ⟨hkept', hinside⟩ := takeIn_spec port env hkept hhead
    obtain ⟨hkept'', hinside'⟩ := ih hkept' hrest
    refine ⟨hkept'', hinside'.trans ?_⟩
    rw [hinside, List.forall_mem_cons, and_assoc]

end

theorem run_spec {fuel : ℕ} {events : List Event} (hkept : s.Kept)
    (hfuel : ∀ e ∈ events, e.len < fuel) :
    ∃ s', run fuel events s = some s' ∧ s'.Kept ∧
      ((∀ p ∈ s'.passed, p.Inside) ↔
        (∀ p ∈ s.passed, p.Inside) ∧ ∀ e ∈ events, e.HeadersFit) := by
  induction events generalizing s with
  | nil => exact ⟨s, rfl, hkept, by simp⟩
  | cons e events ih =>
    obtain ⟨hhead, hrest⟩ := List.forall_mem_cons.mp hfuel
    cases e with
    | deaggregate port env skb =>
      have hframes : ∀ frame ∈ frames port env skb (skb.len + 1) 0,
          frame.1 + sizeofMapHeader + frame.2.toNat ≤ skb.len := fun _ => frames_inside
      obtain ⟨hkept', hinside⟩ := foldl_takeIn_spec port env hkept hframes
      obtain ⟨s', hrun, hkept'', hinside'⟩ := ih hkept' hrest
      refine ⟨s', ?_, hkept'', hinside'.trans ?_⟩
      · rw [run, deaggregate_eq s (show skb.len - 0 < fuel from hhead)
          (show skb.len - 0 < skb.len + 1 by omega)]
        exact hrun
      · rw [hinside, List.forall_mem_cons, and_assoc]
        rfl
    | flush i =>
      obtain ⟨s', hrun, hkept', hinside⟩ := ih (hkept.flushNode i) hrest
      exact ⟨s', hrun, hkept', hinside.trans (by simp [State.flushNode, Event.HeadersFit])⟩

theorem exists_fuel (events : List Event) : ∃ fuel, ∀ e ∈ events, e.len < fuel := by
  induction events with
  | nil => exact ⟨0, nofun⟩
  | cons e events ih =>
    obtain ⟨fuel, hfuel⟩ := ih
    refine ⟨e.len + 1 + fuel, List.forall_mem_cons.mpr ⟨by omega, fun e' he' => ?_⟩⟩
    have := hfuel e' he'
    omega

/-- Every loop ends, and all that is passed on or copied lies in its packet, if the headers in the
packets fit, and only then. -/
theorem run_inside_iff (events : List Event) :
    (∀ fuel, (∀ e ∈ events, e.len < fuel) → ∃ s, run fuel events .init = some s ∧ s.Inside) ↔
      ∀ e ∈ events, e.HeadersFit := by
  constructor
  · intro h
    obtain ⟨fuel, hfuel⟩ := exists_fuel events
    obtain ⟨s, hrun, hinside⟩ := h fuel hfuel
    obtain ⟨s', hrun', -, hiff⟩ := run_spec State.Kept.init hfuel
    rw [hrun] at hrun'
    cases hrun'
    exact (hiff.mp hinside.passed).2
  · intro h fuel hfuel
    obtain ⟨s, hrun, hkept, hiff⟩ := run_spec State.Kept.init hfuel
    have hpassed := hiff.mpr ⟨nofun, h⟩
    refine ⟨s, hrun, hpassed, fun c hc => ?_⟩
    obtain ⟨hmem, hcopy⟩ := hkept.copies c hc
    exact ⟨hmem, hcopy (hpassed c.pkt hmem)⟩

def longDataOffset : Skb where
  data p := [0, 1, 0, 40, 0x45, 0, 0, 40, 0, 0, 0x40, 0, 64, 6, 0, 0, 10, 0, 0, 1, 10, 0, 0, 2,
    0, 80, 0, 80, 0, 0, 0, 0, 0, 0, 0, 0, 0xf0, 0x10, 0, 0, 0, 0, 0, 0].getD p 0
  len := 44

def holdAll : Env where
  skipExthdr _ _ _ _ := (-1, 0, 0)
  hasEndpoint _ := true
  dropped _ := false
  csumValid _ := true
  byHash _ _ := []
  opt _ _ := ([], .held 0 true)
  flowCommand _ _ := none
  flowCommand_pulls h := nomatch h

def longDataOffsetEvents : List Event := [.deaggregate ⟨false, false⟩ holdAll longDataOffset, .flush 0]

/-- The length of the payload wraps, and the flush copies that much. -/
theorem longDataOffset_not_inside :
    (run 45 longDataOffsetEvents .init).map (fun s =>
        (s.passed.map fun p => (p.pktLen, p.payloadLen), s.copies.map fun c => (c.start, c.len))) =
      some ([(40, 65496)], [(4, 80), (84, 65496)]) ∧
      ¬∃ s, run 45 longDataOffsetEvents .init = some s ∧ s.Inside := by
  have hrun : (run 45 longDataOffsetEvents .init).map (fun s =>
      (s.passed.map fun p => (p.pktLen, p.payloadLen), s.copies.map fun c => (c.start, c.len))) =
        some ([(40, 65496)], [(4, 80), (84, 65496)]) := by decide +kernel
  refine ⟨hrun, ?_⟩
  rintro ⟨s, hs, hinside⟩
  rw [hs] at hrun
  have hpassed : s.passed.map (fun p => (p.pktLen, p.payloadLen)) = [(40, 65496)] :=
    congrArg Prod.fst (Option.some.inj hrun)
  have hmem : ((40, 65496) : UInt16 × UInt16) ∈
      s.passed.map fun p => (p.pktLen, p.payloadLen) := by
    rw [hpassed]
    exact List.mem_cons_self
  obtain ⟨p, hp, hlens⟩ := List.mem_map.mp hmem
  obtain ⟨hpktLen, hpayloadLen⟩ := Prod.mk.inj hlens
  have hheaders := (hinside.passed p hp).headers
  rw [hpktLen, hpayloadLen] at hheaders
  have h40 : (40 : UInt16).toNat = 40 := rfl
  have h65496 : (65496 : UInt16).toNat = 65496 := rfl
  omega

end KernelModules.RmnetDeag
