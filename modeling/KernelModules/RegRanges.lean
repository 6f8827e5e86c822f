import KernelModules.RegForms
import KernelModules.RegChannelMap
import Mathlib.Tactic

/-!
# How exact the limits of the range are

Of a range only the first channel above its low end and the last one below its high end are looked
for. Those two are cut where they stick out, and what lies between them is taken to be inside. This
comes out right if no channel between them sticks out with its smallest width, and one that sticks
out with its largest is one of the two.

Edges are computed in 32 bits, as the limits are.
-/

namespace KernelModules.RegChannels

structure FreqRange where
  low : UInt32
  high : UInt32

namespace RegulatoryChannel

def Enabled (c : RegulatoryChannel) : Prop :=
  c.state ≠ .disable ∧ c.hasFlag regulatoryChanDisabled = false
deriving Decidable

def centre (c : RegulatoryChannel) : ℕ := c.centerFreq.toNat

def halfMin (c : RegulatoryChannel) : ℕ := c.minBw.toNat / 2

def halfMax (c : RegulatoryChannel) : ℕ := c.maxBw.toNat / 2

end RegulatoryChannel

def FreqRange.Has (r : FreqRange) (c : RegulatoryChannel) (half : ℕ) : Prop :=
  r.low.toNat + half ≤ c.centre ∧ c.centre + half ≤ r.high.toNat
deriving Decidable

section Exact

variable {b : Bool}

/-- What the restriction of `l` to two ranges should be. -/
structure RangesExact (l l' : ChanList b) (r2g r5g : FreqRange) : Prop where
  kept : ∀ k, (l k).Enabled →
    ((l' k).Enabled ↔ r2g.Has (l k) (l k).halfMin ∨ r5g.Has (l k) (l k).halfMin)
  narrow : ∀ k, (l' k).Enabled → (l' k).maxBw ≤ 20 →
    ∃ r, (r = r2g ∨ r = r5g) ∧ r.Has (l' k) (l' k).halfMin ∧ r.Has (l' k) (l' k).halfMax
  /-- A range that is the wrong way round or has no channel in it enables none. -/
  useless : ∀ r r', (r = r2g ∧ r' = r5g ∨ r = r5g ∧ r' = r2g) →
    (r.high < r.low ∨ ∀ k, ¬ r.Has (l k) (l k).halfMin) →
      ∀ k, (l' k).Enabled → r'.Has (l k) (l k).halfMin

/-- Not behind the channel there is one above the low end, and not before it one below the high
end. -/
def Spanned (l : ChanList b) (r : FreqRange) (k : Fin (numChannels b)) : Prop :=
  (∃ j ≤ k, r.low ≤ (l j).lowEdge) ∧ ∃ j, k ≤ j ∧ (l j).highEdge ≤ r.high

def FirstAbove (l : ChanList b) (low : UInt32) (k : Fin (numChannels b)) : Prop :=
  low ≤ (l k).lowEdge ∧ ∀ j < k, ¬ low ≤ (l j).lowEdge

def LastBelow (l : ChanList b) (high : UInt32) (k : Fin (numChannels b)) : Prop :=
  (l k).highEdge ≤ high ∧ ∀ j, k < j → ¬ (l j).highEdge ≤ high

variable (l : ChanList b) (r2g r5g : FreqRange) (k : Fin (numChannels b))

/-- The low end of a range is `d` away, the channel is the first above it, and its lower edge is no
negative frequency. -/
def LowEndAt (d : ℕ) : Prop :=
  (l k).halfMax ≤ (l k).centre ∧
    ∃ r, (r = r2g ∨ r = r5g) ∧ FirstAbove l r.low k ∧ (l k).centre = r.low.toNat + d

/-- The high end of a range is `d` away, the channel is the last below it, and its upper edge, or
what a low end leaves of it, is a number of 32 bits. -/
def HighEndAt (d : ℕ) : Prop :=
  ((l k).centre + (l k).halfMax < 2 ^ 32 ∨
      ∃ d', LowEndAt l r2g r5g k d' ∧ (l k).centre + d' < 2 ^ 32) ∧
    ∃ r, (r = r2g ∨ r = r5g) ∧ LastBelow l r.high k ∧ r.high.toNat = (l k).centre + d

/-- The largest half width is no more than `x`, or the channel is cut at an end no more than `x`
away. -/
def Reaches (x : ℕ) : Prop :=
  (l k).halfMax ≤ x ∨ ∃ d ≤ x, LowEndAt l r2g r5g k d ∨ HighEndAt l r2g r5g k d

structure Regular : Prop where
  inside : ∀ k, (l k).Enabled → Spanned l r2g k ∨ Spanned l r5g k →
    r2g.Has (l k) (l k).halfMin ∨ r5g.Has (l k) (l k).halfMin
  reaches : ∀ k, (l k).Enabled → (l k).maxBw ≤ 20 →
    r2g.Has (l k) (l k).halfMin ∨ r5g.Has (l k) (l k).halfMin →
      ∃ r, (r = r2g ∨ r = r5g) ∧ r.Has (l k) (l k).halfMin ∧
        Reaches l r2g r5g k ((l k).centre - r.low.toNat) ∧
        Reaches l r2g r5g k (r.high.toNat - (l k).centre)

end Exact

section Limits

variable {b : Bool} {l : ChanList b} {k : Fin (numChannels b)} {low high : UInt32} {r : FreqRange}

theorem find?_eq_some_iff_of_pairwise {α : Type*} {R : α → α → Prop} {as : List α} {p : α → Bool}
    {a : α} (hlist : as.Pairwise R) (hasymm : ∀ x y, R x y → ¬ R y x) (ha : a ∈ as) :
    as.find? p = some a ↔ p a ∧ ∀ x ∈ as, R x a → ¬ p x := by
  obtain ⟨before, behind, rfl⟩ := List.append_of_mem ha
  obtain ⟨-, hbehind, hbefore⟩ := List.pairwise_append.mp hlist
  rw [List.find?_eq_some_iff_append]
  refine and_congr_right fun _ => ⟨?_, ?_⟩
  · rintro ⟨as₁, as₂, heq, hnot⟩ x hx hxa
    rw [heq] at hx hlist
    rcases List.mem_append.mp hx with hx | hx
    · simpa using hnot x hx
    · rcases List.mem_cons.mp hx with rfl | hx
      · exact absurd hxa (hasymm x x hxa)
      · have hax := (List.pairwise_cons.mp (List.pairwise_append.mp hlist).2.1).1 x hx
        exact absurd hxa (hasymm a x hax)
  · intro hnot
    refine ⟨before, behind, rfl, fun x hx => ?_⟩
    have hxa := hbefore x hx a List.mem_cons_self
    simpa using hnot x (List.mem_append_left _ hx) hxa

theorem lowLimit_eq_some_iff : lowLimit l low = some k ↔ FirstAbove l low k := by
  unfold lowLimit FirstAbove
  rw [find?_eq_some_iff_of_pairwise (List.pairwise_lt_finRange _) (fun _ _ => lt_asymm)
    (List.mem_finRange k)]
  simp only [decide_eq_true_iff, List.mem_finRange, true_implies]

theorem highLimit_eq_some_iff : highLimit l high = some k ↔ LastBelow l high k := by
  unfold highLimit LastBelow
  have hlist : (List.finRange (numChannels b)).reverse.Pairwise (fun i j => j < i) :=
    List.pairwise_reverse.mpr (List.pairwise_lt_finRange _)
  rw [find?_eq_some_iff_of_pairwise hlist (fun _ _ => lt_asymm)
    (List.mem_reverse.mpr (List.mem_finRange k))]
  simp only [decide_eq_true_iff, List.mem_reverse, List.mem_finRange, true_implies]

theorem exists_lowLimit_le_iff :
    (∃ i ≤ k, lowLimit l low = some i) ↔ ∃ j ≤ k, low ≤ (l j).lowEdge := by
  constructor
  · rintro ⟨i, hik, hfind⟩
    exact ⟨i, hik, (lowLimit_eq_some_iff.mp hfind).1⟩
  · rintro ⟨j, hjk, hj⟩
    cases hfind : lowLimit l low with
    | none =>
      have hnone := List.find?_eq_none.mp hfind j (List.mem_finRange j)
      exact absurd (decide_eq_true hj) hnone
    | some i =>
      refine ⟨i, ?_, rfl⟩
      refine le_trans (not_lt.mp fun hji => ?_) hjk
      exact (lowLimit_eq_some_iff.mp hfind).2 j hji hj

theorem exists_highLimit_ge_iff :
    (∃ i, k ≤ i ∧ highLimit l high = some i) ↔ ∃ j, k ≤ j ∧ (l j).highEdge ≤ high := by
  constructor
  · rintro ⟨i, hik, hfind⟩
    exact ⟨i, hik, (highLimit_eq_some_iff.mp hfind).1⟩
  · rintro ⟨j, hjk, hj⟩
    cases hfind : highLimit l high with
    | none =>
      have hnone := List.find?_eq_none.mp hfind j (List.mem_reverse.mpr (List.mem_finRange j))
      exact absurd (decide_eq_true hj) hnone
    | some i =>
      refine ⟨i, ?_, rfl⟩
      refine le_trans hjk (not_lt.mp fun hij => ?_)
      exact (highLimit_eq_some_iff.mp hfind).2 j hij hj

theorem between_limits_iff : between (lowLimit l r.low) (highLimit l r.high) k ↔ Spanned l r k := by
  unfold Spanned
  rw [← exists_lowLimit_le_iff, ← exists_highLimit_ge_iff]
  unfold between
  cases lowLimit l r.low with
  | none => simp
  | some i =>
    cases highLimit l r.high with
    | none => simp
    | some j => simp

end Limits

section Cuts

open RegulatoryChannel

variable {b : Bool} {l : ChanList b} {k : Fin (numChannels b)} {c d : RegulatoryChannel}
  {low high : UInt32} {r2g r5g : FreqRange} {P : ℕ → Prop}

/-- The channel `d` is what has become of `c`, and `P` are the bounds on its half width. -/
structure Cut (c d : RegulatoryChannel) (P : ℕ → Prop) : Prop where
  tuned : Tuned c d
  narrow : d.maxBw ≤ 20
  half : ∀ x, d.halfMax ≤ x ↔ P x

theorem toNat_half (bw : UInt16) : (bw / 2).toUInt32.toNat = bw.toNat / 2 := by
  rw [UInt16.toNat_toUInt32, UInt16.toNat_div]
  rfl

theorem halfMax_le (h : c.maxBw ≤ 20) : c.halfMax ≤ 10 := by
  have hle : c.maxBw.toNat ≤ 20 := UInt16.le_iff_toNat_le.mp h
  unfold halfMax
  omega

theorem toNat_lower (bw : UInt16) (h : bw.toNat / 2 ≤ c.centre) :
    (c.centerFreq - (bw / 2).toUInt32).toNat = c.centre - bw.toNat / 2 := by
  have hle : (bw / 2).toUInt32 ≤ c.centerFreq := by
    rw [UInt32.le_iff_toNat_le, toNat_half]
    exact h
  rw [UInt32.toNat_sub_of_le _ _ hle, toNat_half]
  rfl

theorem toNat_upper (bw : UInt16) (h : c.centre + bw.toNat / 2 < 2 ^ 32) :
    (c.centerFreq + (bw / 2).toUInt32).toNat = c.centre + bw.toNat / 2 := by
  rw [UInt32.toNat_add, toNat_half]
  exact Nat.mod_eq_of_lt h

theorem limitBw_cut (room : UInt32) (hbw : c.maxBw ≤ 20) (hmin : c.halfMin ≤ room.toNat)
    (hroom : room.toNat < c.halfMax) :
    (limitBw c room).maxBw ≤ 20 ∧ (limitBw c room).halfMax = room.toNat := by
  have hmax := halfMax_le hbw
  have htwice : (room * 2).toUInt16.toNat = 2 * room.toNat := by
    rw [UInt32.toNat_toUInt16, UInt32.toNat_mul]
    change room.toNat * 2 % 2 ^ 32 % 2 ^ 16 = _
    omega
  have hmin_half : c.minBw.toNat / 2 ≤ room.toNat := hmin
  unfold limitBw halfMax
  dsimp only
  rw [if_pos hbw]
  split_ifs with hlt
  · have hless : (room * 2).toUInt16.toNat < c.minBw.toNat := UInt16.lt_iff_toNat_lt.mp hlt
    rw [htwice] at hless
    refine ⟨UInt16.le_iff_toNat_le.mpr ?_, ?_⟩
    · change c.minBw.toNat ≤ 20
      omega
    · omega
  · refine ⟨UInt16.le_iff_toNat_le.mpr ?_, ?_⟩
    · rw [htwice]
      change 2 * room.toNat ≤ 20
      omega
    · rw [htwice]
      omega

/-- A cut to the `r` MHz on one side takes effect unless the edge on that side is not within
`k` MHz, where it wraps around. -/
theorem Cut.limit {room : UInt32} {r k : ℕ} {out : Prop} [Decidable out] (h : Cut c d P)
    (hroom : room.toNat = r) (hmin : c.halfMin ≤ r)
    (hout : out ↔ d.halfMax ≤ k ∧ r < d.halfMax) :
    Cut c (if out then limitBw d room else d) fun x => P x ∨ P k ∧ r ≤ x := by
  have hhalfMin : d.halfMin = c.halfMin :=
    congrArg (fun bw : UInt16 => bw.toNat / 2) h.tuned.same.minBw
  split_ifs with hcut
  · obtain ⟨hk, hless⟩ := hout.mp hcut
    obtain ⟨hbw, hhalf⟩ := limitBw_cut room h.narrow (by omega) (hroom ▸ hless)
    refine ⟨h.tuned.trans (limitBw_tuned d _), hbw, fun x => ?_⟩
    rw [hhalf, hroom, ← h.half, ← h.half]
    omega
  · rw [hout] at hcut
    refine ⟨h.tuned, h.narrow, fun x => ?_⟩
    rw [← h.half, ← h.half]
    omega

theorem cutLow_cut (h : Cut c d P) (hmin : low.toNat + c.halfMin ≤ c.centre) :
    Cut c (cutLow low d) fun x => P x ∨ P c.centre ∧ c.centre - low.toNat ≤ x := by
  have hcentre : d.centre = c.centre := congrArg UInt32.toNat h.tuned.same.centerFreq
  have hlow : low.toNat ≤ d.centre := by omega
  have hmax := halfMax_le h.narrow
  refine h.limit ?_ (by omega) ?_
  · rw [← hcentre]
    exact UInt32.toNat_sub_of_le _ _ (UInt32.le_iff_toNat_le.mpr hlow)
  by_cases hwrap : d.halfMax ≤ d.centre
  · rw [UInt32.lt_iff_toNat_lt, toNat_lower d.maxBw hwrap]
    change d.centre - d.halfMax < low.toNat ↔ _
    omega
  · rw [UInt32.lt_iff_toNat_lt, UInt32.toNat_sub, toNat_half]
    change (2 ^ 32 - d.halfMax + d.centre) % 2 ^ 32 < low.toNat ↔ _
    omega

theorem cutHigh_cut (h : Cut c d P) (hmin : c.centre + c.halfMin ≤ high.toNat) :
    Cut c (cutHigh high d) fun x =>
      P x ∨ P (2 ^ 32 - 1 - c.centre) ∧ high.toNat - c.centre ≤ x := by
  have hcentre : d.centre = c.centre := congrArg UInt32.toNat h.tuned.same.centerFreq
  have hhigh : d.centre ≤ high.toNat := by omega
  have hmax := halfMax_le h.narrow
  have hbound : high.toNat < 2 ^ 32 := high.toNat_lt
  refine h.limit ?_ (by omega) ?_
  · rw [← hcentre]
    exact UInt32.toNat_sub_of_le _ _ (UInt32.le_iff_toNat_le.mpr hhigh)
  by_cases hwrap : d.centre + d.halfMax < 2 ^ 32
  · rw [UInt32.lt_iff_toNat_lt, toNat_upper d.maxBw hwrap]
    change high.toNat < d.centre + d.halfMax ↔ _
    omega
  · rw [UInt32.lt_iff_toNat_lt, UInt32.toNat_add, toNat_half]
    change high.toNat < (d.centre + d.halfMax) % 2 ^ 32 ↔ _
    omega

variable {P' : ℕ → Prop}

theorem Cut.ite {Q : Prop} [Decidable Q] {f : RegulatoryChannel → RegulatoryChannel}
    (h : Cut c d P) (hf : Q → Cut c (f d) fun x => P x ∨ P' x) :
    Cut c (if Q then f d else d) fun x => P x ∨ Q ∧ P' x := by
  split_ifs with hQ
  · obtain ⟨htuned, hnarrow, hhalf⟩ := hf hQ
    refine ⟨htuned, hnarrow, fun x => ?_⟩
    rw [hhalf, and_iff_right hQ]
  · obtain ⟨htuned, hnarrow, hhalf⟩ := h
    refine ⟨htuned, hnarrow, fun x => ?_⟩
    rw [hhalf, or_iff_left fun hlast => hQ hlast.1]

theorem lowEdge_of_limit (hmin : (l k).halfMin ≤ (l k).centre) (h : FirstAbove l low k) :
    low.toNat + (l k).halfMin ≤ (l k).centre := by
  have hedge : low.toNat ≤ ((l k).centerFreq - ((l k).minBw / 2).toUInt32).toNat :=
    UInt32.le_iff_toNat_le.mp h.1
  rw [toNat_lower _ hmin] at hedge
  change low.toNat ≤ (l k).centre - (l k).halfMin at hedge
  omega

theorem highEdge_of_limit (hmin : (l k).centre + (l k).halfMin < 2 ^ 32)
    (h : LastBelow l high k) : (l k).centre + (l k).halfMin ≤ high.toNat := by
  have hedge : ((l k).centerFreq + ((l k).minBw / 2).toUInt32).toNat ≤ high.toNat :=
    UInt32.le_iff_toNat_le.mp h.1
  rw [toNat_upper _ hmin] at hedge
  exact hedge

theorem Cut.congr (h : Cut c d P) (hP : ∀ x, P x ↔ P' x) : Cut c d P' :=
  ⟨h.tuned, h.narrow, fun x => (h.half x).trans (hP x)⟩

variable (r2g r5g) in
/-- At the low ends a channel is cut to what they say. -/
theorem cutLow_ends (hbw : (l k).maxBw ≤ 20) (hlower : (l k).halfMin ≤ (l k).centre) :
    let c := if lowLimit l r2g.low = some k then cutLow r2g.low (l k) else l k
    Cut (l k) (if lowLimit l r5g.low = some k then cutLow r5g.low c else c) fun x =>
      (l k).halfMax ≤ x ∨ ∃ d ≤ x, LowEndAt l r2g r5g k d := by
  have hend {low : UInt32} (hfind : lowLimit l low = some k) :
      low.toNat + (l k).halfMin ≤ (l k).centre :=
    lowEdge_of_limit hlower (lowLimit_eq_some_iff.mp hfind)
  have hstart : Cut (l k) (l k) ((l k).halfMax ≤ ·) := ⟨Tuned.refl _, hbw, fun _ => Iff.rfl⟩
  have h1 := hstart.ite (Q := lowLimit l r2g.low = some k) (f := cutLow r2g.low) fun hfind =>
    cutLow_cut hstart (hend hfind)
  have h2 := h1.ite (Q := lowLimit l r5g.low = some k) (f := cutLow r5g.low) fun hfind =>
    cutLow_cut h1 (hend hfind)
  refine h2.congr fun x => ⟨?_, ?_⟩
  · rintro ((hx | ⟨hfind, hwrap, hx⟩) | ⟨hfind, hbefore, hx⟩)
    · exact .inl hx
    · have hle := hend hfind
      exact .inr ⟨_, hx, hwrap, r2g, .inl rfl, lowLimit_eq_some_iff.mp hfind, by omega⟩
    · have hle := hend hfind
      have hwrap : (l k).halfMax ≤ (l k).centre := by
        rcases hbefore with hwrap | ⟨-, hwrap, -⟩
        · exact hwrap
        · exact hwrap
      exact .inr ⟨_, hx, hwrap, r5g, .inr rfl, lowLimit_eq_some_iff.mp hfind, by omega⟩
  · rintro (hx | ⟨d, hd, hwrap, r, rfl | rfl, hfirst, heq⟩)
    · exact .inl (.inl hx)
    · exact .inl (.inr ⟨lowLimit_eq_some_iff.mpr hfirst, hwrap, by omega⟩)
    · exact .inr ⟨lowLimit_eq_some_iff.mpr hfirst, .inl hwrap, by omega⟩

/-- A channel with a range to be in is cut to what its largest width and the ends say. -/
theorem cutAt_cut (hbw : (l k).maxBw ≤ 20)
    (hin : r2g.Has (l k) (l k).halfMin ∨ r5g.Has (l k) (l k).halfMin) :
    Cut (l k) (cutAt l r2g.low r2g.high r5g.low r5g.high k (l k)) (Reaches l r2g r5g k) := by
  have hlower : (l k).halfMin ≤ (l k).centre := by
    rcases hin with hhas | hhas
    · exact le_trans (Nat.le_add_left _ _) hhas.1
    · exact le_trans (Nat.le_add_left _ _) hhas.1
  have hupper : (l k).centre + (l k).halfMin < 2 ^ 32 := by
    rcases hin with hhas | hhas
    · exact lt_of_le_of_lt hhas.2 r2g.high.toNat_lt
    · exact lt_of_le_of_lt hhas.2 r5g.high.toNat_lt
  have hend {high : UInt32} (hfind : highLimit l high = some k) :
      (l k).centre + (l k).halfMin ≤ high.toNat :=
    highEdge_of_limit hupper (highLimit_eq_some_iff.mp hfind)
  have hdist {high : UInt32} (hfind : highLimit l high = some k) :
      high.toNat = (l k).centre + (high.toNat - (l k).centre) :=
    (Nat.add_sub_of_le (le_trans (Nat.le_add_right _ _) (hend hfind))).symm
  have h2 := cutLow_ends r2g r5g hbw hlower
  have h3 := h2.ite (Q := highLimit l r2g.high = some k) (f := cutHigh r2g.high) fun hfind =>
    cutHigh_cut h2 (hend hfind)
  have h4 := h3.ite (Q := highLimit l r5g.high = some k) (f := cutHigh r5g.high) fun hfind =>
    cutHigh_cut h3 (hend hfind)
  have hcentre : (l k).centre < 2 ^ 32 := (l k).centerFreq.toNat_lt
  have hwrap_iff : ((l k).halfMax ≤ 2 ^ 32 - 1 - (l k).centre ∨
      ∃ d ≤ 2 ^ 32 - 1 - (l k).centre, LowEndAt l r2g r5g k d) ↔
      ((l k).centre + (l k).halfMax < 2 ^ 32 ∨
        ∃ d, LowEndAt l r2g r5g k d ∧ (l k).centre + d < 2 ^ 32) := by
    refine or_congr (by omega) (exists_congr fun d => ?_)
    rw [and_comm]
    exact and_congr_right fun _ => by omega
  refine h4.congr fun x => ⟨?_, ?_⟩
  · rintro (((hx | ⟨d, hd, hlow⟩) | ⟨hfind, hwrap, hx⟩) | ⟨hfind, hbefore, hx⟩)
    · exact .inl hx
    · exact .inr ⟨d, hd, .inl hlow⟩
    · exact .inr ⟨_, hx, .inr ⟨hwrap_iff.mp hwrap, r2g, .inl rfl, highLimit_eq_some_iff.mp hfind,
        hdist hfind⟩⟩
    · have hwrap : (l k).halfMax ≤ 2 ^ 32 - 1 - (l k).centre ∨
          ∃ d ≤ 2 ^ 32 - 1 - (l k).centre, LowEndAt l r2g r5g k d := by
        rcases hbefore with hwrap | ⟨-, hwrap, -⟩
        · exact hwrap
        · exact hwrap
      exact .inr ⟨_, hx, .inr ⟨hwrap_iff.mp hwrap, r5g, .inr rfl, highLimit_eq_some_iff.mp hfind,
        hdist hfind⟩⟩
  · rintro (hx | ⟨d, hd, hlow | ⟨hwrap, r, rfl | rfl, hlast, heq⟩⟩)
    · exact .inl (.inl (.inl hx))
    · exact .inl (.inl (.inr ⟨d, hd, hlow⟩))
    · exact .inl (.inr ⟨highLimit_eq_some_iff.mpr hlast, hwrap_iff.mpr hwrap, by omega⟩)
    · exact .inr ⟨highLimit_eq_some_iff.mpr hlast, .inl (hwrap_iff.mpr hwrap), by omega⟩

theorem wide_limitBw (h : 20 < c.maxBw) (room : UInt32) : 20 < (limitBw c room).maxBw := by
  have hbw : (if c.maxBw ≤ 20 then (room * 2).toUInt16 else c.maxBw) = c.maxBw :=
    if_neg (UInt16.not_le.mpr h)
  unfold limitBw
  dsimp only
  rw [hbw]
  split_ifs with hlt
  · exact UInt16.lt_trans h hlt
  · exact h

theorem wide_cutAt (h : 20 < (l k).maxBw) (low2g high2g low5g high5g : UInt32) :
    20 < (cutAt l low2g high2g low5g high5g k (l k)).maxBw := by
  have hlow (low : UInt32) {c : RegulatoryChannel} (hc : 20 < c.maxBw) :
      20 < (cutLow low c).maxBw := by
    unfold cutLow
    split_ifs
    · exact wide_limitBw hc _
    · exact hc
  have hhigh (high : UInt32) {c : RegulatoryChannel} (hc : 20 < c.maxBw) :
      20 < (cutHigh high c).maxBw := by
    unfold cutHigh
    split_ifs
    · exact wide_limitBw hc _
    · exact hc
  have hite {Q : Prop} [Decidable Q] {f : RegulatoryChannel → RegulatoryChannel}
      {c : RegulatoryChannel} (hc : 20 < c.maxBw) (hf : 20 < (f c).maxBw) :
      20 < (if Q then f c else c).maxBw := by
    split_ifs
    · exact hf
    · exact hc
  have h1 := hite (Q := lowLimit l low2g = some k) h (hlow low2g h)
  have h2 := hite (Q := lowLimit l low5g = some k) h1 (hlow low5g h1)
  have h3 := hite (Q := highLimit l high2g = some k) h2 (hhigh high2g h2)
  exact hite (Q := highLimit l high5g = some k) h3 (hhigh high5g h3)

end Cuts

section Exactness

open RegulatoryChannel

variable {b : Bool} (l : ChanList b) (r2g r5g : FreqRange)

def restricted : ChanList b :=
  regModifyChanListForFreqRange l r2g.low r2g.high r5g.low r5g.high

variable {l r2g r5g} {k : Fin (numChannels b)}

theorem regChanInRange_iff :
    regChanInRange l r2g.low r2g.high r5g.low r5g.high k ↔ Spanned l r2g k ∨ Spanned l r5g k := by
  unfold regChanInRange
  rw [Bool.or_eq_true, between_limits_iff, between_limits_iff]

theorem cutAt_tuned (low2g high2g low5g high5g : UInt32) :
    Tuned (l k) (cutAt l low2g high2g low5g high5g k (l k)) := by
  rw [cutAt_eq]
  exact ⟨⟨rfl, rfl, rfl, rfl, rfl⟩, rfl, rfl⟩

theorem Spanned.of_has {r : FreqRange} (h : r.Has (l k) (l k).halfMin) : Spanned l r k := by
  have hlow : r.low ≤ (l k).lowEdge := by
    rw [UInt32.le_iff_toNat_le]
    unfold lowEdge
    rw [toNat_lower _ (le_trans (Nat.le_add_left _ _) h.1)]
    change r.low.toNat ≤ (l k).centre - (l k).halfMin
    have hle := h.1
    omega
  have hhigh : (l k).highEdge ≤ r.high := by
    rw [UInt32.le_iff_toNat_le]
    unfold highEdge
    rw [toNat_upper _ (lt_of_le_of_lt h.2 r.high.toNat_lt)]
    exact h.2
  exact ⟨⟨k, le_refl k, hlow⟩, k, le_refl k, hhigh⟩

theorem enabled_restricted_iff :
    (restricted l r2g r5g k).Enabled ↔
      (l k).Enabled ∧ (Spanned l r2g k ∨ Spanned l r5g k) := by
  unfold restricted
  rw [regModifyChanListForFreqRange_cuts, ← regChanInRange_iff]
  have htuned : Tuned (l k) (cutAt l r2g.low r2g.high r5g.low r5g.high k (l k)) := cutAt_tuned ..
  split_ifs with hin
  · unfold Enabled hasFlag
    rw [htuned.state, htuned.flags]
    exact ⟨fun h => ⟨h, hin⟩, fun h => h.1⟩
  · exact iff_of_false (fun h => h.1 rfl) fun h => hin h.2

theorem restricted_of_spanned (h : Spanned l r2g k ∨ Spanned l r5g k) :
    restricted l r2g r5g k = cutAt l r2g.low r2g.high r5g.low r5g.high k (l k) := by
  unfold restricted
  rw [regModifyChanListForFreqRange_cuts, if_pos (regChanInRange_iff.mpr h)]

variable {c d : RegulatoryChannel}

theorem Cut.has_halfMin_iff {P : ℕ → Prop} (h : Cut c d P)
    (r : FreqRange) : r.Has d d.halfMin ↔ r.Has c c.halfMin := by
  unfold FreqRange.Has centre halfMin
  rw [h.tuned.same.centerFreq, h.tuned.same.minBw]

theorem Cut.has_halfMax_iff {P : ℕ → Prop} {r : FreqRange}
    (h : Cut c d P) (hin : r.Has c c.halfMin) :
    r.Has d d.halfMax ↔ P (c.centre - r.low.toNat) ∧ P (r.high.toNat - c.centre) := by
  have hcentre : d.centre = c.centre := congrArg UInt32.toNat h.tuned.same.centerFreq
  have hlow := hin.1
  have hhigh := hin.2
  rw [← h.half, ← h.half]
  unfold FreqRange.Has
  rw [hcentre]
  omega

/-- The restriction is exact for the regular lists and for no others. -/
theorem regModifyChanListForFreqRange_exact_iff (l : ChanList b) (r2g r5g : FreqRange) :
    RangesExact l (regModifyChanListForFreqRange l r2g.low r2g.high r5g.low r5g.high) r2g r5g ↔
      Regular l r2g r5g := by
  change RangesExact l (restricted l r2g r5g) r2g r5g ↔ _
  constructor
  · intro h
    constructor
    · intro k hk hspan
      exact (h.kept k hk).mp (enabled_restricted_iff.mpr ⟨hk, hspan⟩)
    · intro k hk hbw hin
      have hspan : Spanned l r2g k ∨ Spanned l r5g k := hin.imp Spanned.of_has Spanned.of_has
      have hcut := cutAt_cut hbw hin
      rw [← restricted_of_spanned hspan] at hcut
      obtain ⟨r, hr, hmin, hmax⟩ :=
        h.narrow k (enabled_restricted_iff.mpr ⟨hk, hspan⟩) hcut.narrow
      have hmin_l := (hcut.has_halfMin_iff r).mp hmin
      obtain ⟨hlow, hhigh⟩ := (hcut.has_halfMax_iff hmin_l).mp hmax
      exact ⟨r, hr, hmin_l, hlow, hhigh⟩
  · intro h
    have hkept (k : Fin (numChannels b)) (hk : (l k).Enabled) :
        (restricted l r2g r5g k).Enabled ↔
          r2g.Has (l k) (l k).halfMin ∨ r5g.Has (l k) (l k).halfMin := by
      rw [enabled_restricted_iff, and_iff_right hk]
      exact ⟨h.inside k hk, Or.imp Spanned.of_has Spanned.of_has⟩
    constructor
    · exact hkept
    · intro k hk hbw
      obtain ⟨hk_l, hspan⟩ := enabled_restricted_iff.mp hk
      have hin := h.inside k hk_l hspan
      have hbw_l : (l k).maxBw ≤ 20 := by
        rw [restricted_of_spanned hspan] at hbw
        exact UInt16.not_lt.mp fun hwide => UInt16.not_lt.mpr hbw (wide_cutAt hwide ..)
      have hcut := cutAt_cut hbw_l hin
      rw [← restricted_of_spanned hspan] at hcut
      obtain ⟨r, hr, hmin, hlow, hhigh⟩ := h.reaches k hk_l hbw_l hin
      exact ⟨r, hr, (hcut.has_halfMin_iff r).mpr hmin,
        (hcut.has_halfMax_iff hmin).mpr ⟨hlow, hhigh⟩⟩
    · intro r r' hr hempty k hk
      have hnot : ¬ r.Has (l k) (l k).halfMin := by
        rcases hempty with hturned | hnone
        · rintro ⟨hlow, hhigh⟩
          have hlt := UInt32.lt_iff_toNat_lt.mp hturned
          omega
        · exact hnone k
      have hin := (hkept k (enabled_restricted_iff.mp hk).1).mp hk
      rcases hr with ⟨rfl, rfl⟩ | ⟨rfl, rfl⟩
      · exact hin.resolve_left hnot
      · exact hin.resolve_right hnot

def japaneseList : ChanList false := fun k =>
  let entry := channelMap (b := false) false .mkk k
  ⟨entry.centerFreq, entry.chanNum, .enable, 0, 20, entry.minBw, entry.maxBw, 0, false⟩

/-- With the limits that the driver comes with, the channel at 4920 MHz keeps a width of 20 MHz that
begins below the range: the first channel above the low end is the one at 4917 MHz. -/
theorem not_japaneseList_exact :
    (∀ i j, i < j → (japaneseList i).centerFreq < (japaneseList j).centerFreq) ∧
      (∀ k, (japaneseList k).minBw ≤ (japaneseList k).maxBw) ∧
      ¬ RangesExact japaneseList (regModifyChanListForFreqRange japaneseList 2312 2732 4912 5930)
        ⟨2312, 2732⟩ ⟨4912, 5930⟩ := by
  refine ⟨by decide +kernel, by decide +kernel, fun h => ?_⟩
  obtain ⟨r, hr, -, hmax⟩ := h.narrow ⟨17, by decide⟩ (by decide +kernel) (by decide +kernel)
  rcases hr with rfl | rfl
  · exact absurd hmax (by decide +kernel)
  · exact absurd hmax (by decide +kernel)

end Exactness

end KernelModules.RegChannels
