import KernelModules.BssScore

/-!
# The bounds of a candidate's score

Between two thresholds the percentage for an RSSI goes down in equal steps, whose size is rounded.
A step too far ends below zero, where the comparison with the lower percentage, which is unsigned,
does not notice it. Without that, each term is no more than its weight.
-/

namespace KernelModules.BssScore

/-- The thresholds, the percentages and the bucket sizes are in order. -/
structure RssiCfgScore.Ordered (p : RssiCfgScore) : Prop where
  best_le : p.bestRssiThreshold ≤ p.goodRssiThreshold
  good_le : p.goodRssiThreshold ≤ p.badRssiThreshold
  pcnt_le : p.badRssiPcnt ≤ p.goodRssiPcnt
  goodPcnt_le : p.goodRssiPcnt ≤ 100
  goodBucket_pos : 0 < p.goodRssiBucketSize
  badBucket_pos : 0 < p.badRssiBucketSize

/-- The thresholds and the bucket size are small enough for differences of eight bits. -/
structure RssiCfgScore.Small (p : RssiCfgScore) : Prop where
  bad_le : p.badRssiThreshold ≤ 126
  pref_le : p.rssiPref5gRssiThresh ≤ 127
  badBucket_le : p.badRssiBucketSize ≤ 127

/-- The steps from one threshold to the next, which are rounded, do not lead below zero. -/
def Unrounded (high low highPcnt lowPcnt bucketSize : ℤ) : Prop :=
  let numSlot := (high - low) / bucketSize + 1
  low < high →
    (highPcnt - lowPcnt + numSlot / 2) / numSlot * ((high - low - 1) / bucketSize + 1) ≤ highPcnt

def RssiCfgScore.Unrounded (p : RssiCfgScore) : Prop :=
  BssScore.Unrounded p.best p.good 100 p.goodRssiPcnt.toNat p.goodRssiBucketSize.toNat ∧
    BssScore.Unrounded p.good p.bad p.goodRssiPcnt.toNat p.badRssiPcnt.toNat
      p.badRssiBucketSize.toNat

/-- A percentage, which is not less for a larger RSSI. -/
structure Graded (pcnt : ℤ → ℤ) : Prop where
  bounds : ∀ rssi : Int8, 0 ≤ pcnt rssi.toInt ∧ pcnt rssi.toInt ≤ 100
  mono : ∀ rssi rssi' : Int8, rssi.toInt ≤ rssi'.toInt → pcnt rssi.toInt ≤ pcnt rssi'.toInt

/-- Every score is between zero and the maximum. -/
def Bounded (cfg : ScoringConfig) : Prop :=
  ∀ entry env pclChanWeight, 0 ≤ (calculateBssScore cfg entry env pclChanWeight).1 ∧
    (calculateBssScore cfg entry env pclChanWeight).1 ≤ 10000

/-- No candidate of the hint comes behind another one. -/
def HintFirst (l : List Candidate) : Prop := l.Pairwise fun c d => d.hint → c.hint

structure Sound (cfg : ScoringConfig) : Prop where
  rssi : Graded cfg.rssiScore.rssiPcnt
  prorated : Graded cfg.rssiScore.proratedPcntByRssi
  bounded : Bounded cfg
  hintFirst : ∀ cs, (∀ c ∈ cs, c.entry.bssScore = 0) → HintFirst (scanList cfg cs)

variable {x : ℤ} {w : UInt8} {c d : Candidate} {l : List Candidate}

theorem int8_eq (h : -128 ≤ x) (h' : x < 128) : int8 x = x := by
  unfold int8
  rw [Int.bmod_eq_of_le] <;> omega

theorem int32_eq (h : -2 ^ 31 ≤ x) (h' : x < 2 ^ 31) : int32 x = x := by
  unfold int32
  rw [Int.bmod_eq_of_le] <;> omega

theorem uint32_eq (h : 0 ≤ x) (h' : x < 2 ^ 32) : uint32 x = x :=
  Int.emod_eq_of_lt h h'

/-- Two thresholds with their percentages, close enough for the slots to be counted. -/
structure Window (high low highPcnt lowPcnt bucketSize : ℤ) : Prop where
  le : low ≤ high
  width : high - low ≤ 126
  nonneg : 0 ≤ lowPcnt
  pcnt_le : lowPcnt ≤ highPcnt
  le_hundred : highPcnt ≤ 100
  bucket_pos : 0 < bucketSize

/-- The percentage before the comparison with the lower one. -/
def stepped (high low highPcnt lowPcnt bucketSize rssi : ℤ) : ℤ :=
  let numSlot := (high - low) / bucketSize + 1
  highPcnt - (highPcnt - lowPcnt + numSlot / 2) / numSlot * ((high - rssi) / bucketSize + 1)

theorem div_bounds {b : ℤ} (hb : 0 < b) {y : ℤ} (hx : 0 ≤ x) (hxy : x ≤ y) :
    0 ≤ x / b ∧ x / b ≤ y / b ∧ y / b ≤ y :=
  ⟨Int.ediv_nonneg hx hb.le, Int.ediv_le_ediv hb hxy, Int.ediv_le_self _ (hx.trans hxy)⟩

namespace Window

variable {high low highPcnt lowPcnt bucketSize rssi rssi' : ℤ}
  (h : Window high low highPcnt lowPcnt bucketSize)

include h

theorem slotSize_bounds : let numSlot := (high - low) / bucketSize + 1
    let slotSize := (highPcnt - lowPcnt + numSlot / 2) / numSlot
    0 < numSlot ∧ numSlot ≤ 127 ∧ 0 ≤ slotSize ∧ slotSize ≤ 100 ∧
      slotSize * numSlot ≤ highPcnt - lowPcnt + numSlot / 2 := by
  obtain ⟨hle, hwidth, hnonneg, hpcnt, hhundred, hb⟩ := h
  obtain ⟨hn, -, hn'⟩ := div_bounds hb (x := high - low) (by omega) le_rfl
  generalize (high - low) / bucketSize = n at *
  refine ⟨by omega, by omega, Int.ediv_nonneg (by omega) (by omega), ?_,
    Int.ediv_mul_le _ (by omega)⟩
  exact Int.ediv_le_of_le_mul (by omega) (by omega)

theorem slot_eq (hr : low ≤ rssi) (hr' : rssi ≤ high) :
    getRssiPcntForSlot high low highPcnt lowPcnt bucketSize rssi =
      let s := stepped high low highPcnt lowPcnt bucketSize rssi
      if s < 0 then s else max lowPcnt s := by
  obtain ⟨hslot, hslot', hpos, hhundred, hsize⟩ := h.slotSize_bounds
  obtain ⟨hle, hwidth, hlow, hpcnt, hhigh, hb⟩ := h
  obtain ⟨hk, hkn, -⟩ := div_bounds hb (x := high - rssi) (y := high - low) (by omega) (by omega)
  have hindex : (high - rssi) / bucketSize + 1 ≤ (high - low) / bucketSize + 1 := by omega
  have hone : 0 < (high - rssi) / bucketSize + 1 := by omega
  unfold stepped getRssiPcntForSlot
  rw [uint32_eq (x := high - low) (by omega) (by omega)]
  generalize (high - low) / bucketSize + 1 = numSlot at *
  dsimp only
  rw [int8_eq (x := numSlot) (by omega) (by omega), Int.tdiv_eq_ediv_of_nonneg (by omega),
    uint32_eq (x := highPcnt - lowPcnt) (by omega) (by omega),
    uint32_eq (x := highPcnt - lowPcnt + numSlot / 2) (by omega) (by omega),
    uint32_eq (x := numSlot) (by omega) (by omega)]
  generalize (highPcnt - lowPcnt + numSlot / 2) / numSlot = slotSize at *
  have hmul := Int.mul_le_mul_of_nonneg_left hindex hpos
  have hsteps := Int.mul_nonneg hpos hone.le
  rw [int8_eq (x := slotSize) (by omega) (by omega),
    int8_eq (x := high - rssi) (by omega) (by omega),
    uint32_eq (x := high - rssi) (by omega) (by omega)]
  generalize (high - rssi) / bucketSize + 1 = slotIndex at *
  rw [int8_eq (x := slotIndex) (by omega) (by omega)]
  -- Before the comparison the steps have led as far as half the number of slots below it.
  generalize slotSize * slotIndex = steps at *
  rw [int8_eq (x := highPcnt - steps) (by omega) (by omega),
    int8_eq (x := lowPcnt) (by omega) (by omega)]
  unfold uint32
  split_ifs <;> omega

theorem stepped_mono (hle : rssi ≤ rssi') :
    stepped high low highPcnt lowPcnt bucketSize rssi ≤
      stepped high low highPcnt lowPcnt bucketSize rssi' := by
  obtain ⟨-, -, hpos, -⟩ := h.slotSize_bounds
  have hdiv : (high - rssi') / bucketSize ≤ (high - rssi) / bucketSize :=
    Int.ediv_le_ediv h.bucket_pos (by omega)
  have hmul := Int.mul_le_mul_of_nonneg_left
    (show (high - rssi') / bucketSize + 1 ≤ (high - rssi) / bucketSize + 1 by omega) hpos
  unfold stepped
  dsimp only at hmul ⊢
  omega

theorem stepped_le (hr : rssi ≤ high) :
    stepped high low highPcnt lowPcnt bucketSize rssi ≤ highPcnt := by
  obtain ⟨-, -, hpos, -⟩ := h.slotSize_bounds
  have hdiv : 0 ≤ (high - rssi) / bucketSize := Int.ediv_nonneg (by omega) h.bucket_pos.le
  have hmul := Int.mul_nonneg hpos (show 0 ≤ (high - rssi) / bucketSize + 1 by omega)
  unfold stepped
  dsimp only at hmul ⊢
  omega

theorem unrounded_iff : Unrounded high low highPcnt lowPcnt bucketSize ↔
    ∀ rssi, low < rssi → rssi ≤ high →
      0 ≤ getRssiPcntForSlot high low highPcnt lowPcnt bucketSize rssi := by
  have hlast (hlt : low < high) : 0 ≤ stepped high low highPcnt lowPcnt bucketSize (low + 1) ↔
      Unrounded high low highPcnt lowPcnt bucketSize := by
    unfold stepped Unrounded
    rw [show high - (low + 1) = high - low - 1 by omega]
    simp only [hlt, true_imp_iff, Int.sub_nonneg]
  constructor
  · intro hu rssi hr hr'
    have hstep := (hlast (by omega)).mpr hu
    have hmono := h.stepped_mono (show low + 1 ≤ rssi by omega)
    rw [h.slot_eq (by omega) hr']
    dsimp only
    split_ifs <;> omega
  · intro hall hlt
    have hzero := hall (low + 1) (by omega) (by omega)
    rw [h.slot_eq (by omega) (by omega)] at hzero
    refine (hlast hlt).mp ?_ hlt
    dsimp only at hzero
    split_ifs at hzero <;> omega

theorem slot_bounds (hu : Unrounded high low highPcnt lowPcnt bucketSize) (hr : low < rssi)
    (hr' : rssi ≤ high) :
    lowPcnt ≤ getRssiPcntForSlot high low highPcnt lowPcnt bucketSize rssi ∧
      getRssiPcntForSlot high low highPcnt lowPcnt bucketSize rssi ≤ highPcnt := by
  have hzero := h.unrounded_iff.mp hu rssi hr hr'
  have hle := h.stepped_le hr'
  have hpcnt := h.pcnt_le
  rw [h.slot_eq hr.le hr'] at hzero ⊢
  dsimp only at hzero ⊢
  split_ifs at hzero ⊢ <;> omega

theorem slot_mono (hr : low < rssi) (hle : rssi ≤ rssi') (hr' : rssi' ≤ high) :
    getRssiPcntForSlot high low highPcnt lowPcnt bucketSize rssi ≤
      getRssiPcntForSlot high low highPcnt lowPcnt bucketSize rssi' := by
  have hmono := h.stepped_mono hle
  have hnonneg := h.nonneg
  rw [h.slot_eq hr.le (hle.trans hr'), h.slot_eq (by omega) hr']
  dsimp only
  split_ifs <;> omega

end Window

theorem RssiCfgScore.Small.pref5g_eq {p : RssiCfgScore} (hs : p.Small) :
    p.pref5g = -p.rssiPref5gRssiThresh.toNat := by
  have hsmall : p.rssiPref5gRssiThresh.toNat ≤ 127 := hs.pref_le
  exact int8_eq (by omega) (by omega)

namespace RssiCfgScore

variable {p : RssiCfgScore} (h : p.Ordered) (hs : p.Small)

include h hs

theorem thresholds : p.best = -p.bestRssiThreshold.toNat ∧ p.good = -p.goodRssiThreshold.toNat ∧
    p.bad = -p.badRssiThreshold.toNat ∧ p.bad ≤ p.good ∧ p.good ≤ p.best ∧ -126 ≤ p.bad := by
  have hbest : p.bestRssiThreshold.toNat ≤ p.goodRssiThreshold.toNat := h.best_le
  have hgood : p.goodRssiThreshold.toNat ≤ p.badRssiThreshold.toNat := h.good_le
  have hbad : p.badRssiThreshold.toNat ≤ 126 := hs.bad_le
  unfold best good bad
  rw [int32_eq (by omega) (by omega), int32_eq (by omega) (by omega),
    int32_eq (by omega) (by omega)]
  omega

theorem first : Window p.best p.good 100 p.goodRssiPcnt.toNat p.goodRssiBucketSize.toNat := by
  obtain ⟨hbest, hgood, -, hle, hle', hlow⟩ := thresholds h hs
  have hpcnt : p.goodRssiPcnt.toNat ≤ 100 := h.goodPcnt_le
  have hbucket : 0 < p.goodRssiBucketSize.toNat := h.goodBucket_pos
  exact ⟨hle', by omega, by omega, by omega, le_rfl, by omega⟩

theorem second :
    Window p.good p.bad p.goodRssiPcnt.toNat p.badRssiPcnt.toNat p.badRssiBucketSize.toNat := by
  obtain ⟨-, hgood, hbad, hle, -, hlow⟩ := thresholds h hs
  have hpcnt : p.badRssiPcnt.toNat ≤ p.goodRssiPcnt.toNat := h.pcnt_le
  have hpcnt' : p.goodRssiPcnt.toNat ≤ 100 := h.goodPcnt_le
  have hbucket : 0 < p.badRssiBucketSize.toNat := h.badBucket_pos
  exact ⟨hle, by omega, by omega, by omega, by omega, by omega⟩

theorem unrounded_of_graded (hg : Graded p.rssiPcnt) : p.Unrounded := by
  obtain ⟨hbest, -, -, hle, hle', hlow⟩ := thresholds h hs
  have hint (rssi : ℤ) (hr : p.bad < rssi) (hr' : rssi ≤ p.best) : 0 ≤ p.betweenPcnt rssi := by
    have heq : (Int8.ofInt rssi).toInt = rssi := Int8.toInt_ofInt_of_le (by omega) (by omega)
    have hzero := (hg.bounds (Int8.ofInt rssi)).1
    rwa [heq, rssiPcnt, if_neg (by omega), if_neg (by omega)] at hzero
  constructor
  · refine (first h hs).unrounded_iff.mpr fun rssi hr hr' => ?_
    have hzero := hint rssi (by omega) hr'
    rwa [betweenPcnt, if_pos hr] at hzero
  · refine (second h hs).unrounded_iff.mpr fun rssi hr hr' => ?_
    have hzero := hint rssi hr (by omega)
    rwa [betweenPcnt, if_neg (by omega)] at hzero

theorem betweenPcnt_bounds (hu : p.Unrounded) (rssi : ℤ) (hr : p.bad < rssi)
    (hr' : rssi ≤ p.best) :
    p.badRssiPcnt.toNat ≤ p.betweenPcnt rssi ∧ p.betweenPcnt rssi ≤ 100 ∧
      (p.good < rssi → p.goodRssiPcnt.toNat ≤ p.betweenPcnt rssi) ∧
      (rssi ≤ p.good → p.betweenPcnt rssi ≤ p.goodRssiPcnt.toNat) := by
  have hpcnt := (second h hs).pcnt_le
  have hpcnt' := (first h hs).pcnt_le
  unfold betweenPcnt
  split_ifs with hgood
  · have hbounds := (first h hs).slot_bounds hu.1 hgood hr'
    exact ⟨by omega, hbounds.2, fun _ => hbounds.1, fun _ => by omega⟩
  · have hbounds := (second h hs).slot_bounds hu.2 hr (by omega)
    exact ⟨hbounds.1, by omega, fun _ => by omega, fun _ => hbounds.2⟩

theorem graded_rssiPcnt (hu : p.Unrounded) : Graded p.rssiPcnt := by
  have hpcnt := (second h hs).pcnt_le
  have hpcnt' := (first h hs).pcnt_le
  have hbad := (second h hs).nonneg
  have hbounds (rssi : ℤ) : p.badRssiPcnt.toNat ≤ p.rssiPcnt rssi ∧ p.rssiPcnt rssi ≤ 100 := by
    unfold rssiPcnt
    split_ifs with hbest hle
    · omega
    · omega
    · obtain ⟨hlow, hhigh, -⟩ := betweenPcnt_bounds h hs hu _ (not_le.mp hle) (not_lt.mp hbest)
      exact ⟨hlow, hhigh⟩
  refine ⟨fun rssi => ?_, fun rssi rssi' hle => ?_⟩
  · have := hbounds rssi.toInt
    omega
  · generalize rssi.toInt = r at *
    generalize rssi'.toInt = r' at *
    by_cases hbest : p.best < r'
    · have := hbounds r
      rw [rssiPcnt.eq_def p r', if_pos hbest]
      exact this.2
    · by_cases hlow : r ≤ p.bad
      · have := hbounds r'
        rw [rssiPcnt.eq_def p r, if_neg (by omega), if_pos hlow]
        exact this.1
      · obtain ⟨-, -, -, hr⟩ := betweenPcnt_bounds h hs hu r (by omega) (by omega)
        obtain ⟨-, -, hr', -⟩ := betweenPcnt_bounds h hs hu r' (by omega) (by omega)
        rw [rssiPcnt, if_neg (by omega), if_neg hlow, rssiPcnt, if_neg hbest, if_neg (by omega)]
        by_cases hgood : p.good < r
        · rw [betweenPcnt, if_pos hgood, betweenPcnt, if_pos (by omega)]
          exact (first h hs).slot_mono hgood hle (by omega)
        · by_cases hgood' : p.good < r'
          · exact (hr (by omega)).trans (hr' hgood')
          · rw [betweenPcnt, if_neg hgood, betweenPcnt, if_neg hgood']
            exact (second h hs).slot_mono (by omega) hle (by omega)

theorem isSameBucket_eq {rssi : ℤ} (hpref : p.pref5g ≤ rssi) (hr : rssi ≤ p.good) :
    p.isSameBucket rssi = decide ((p.good - rssi) / p.badRssiBucketSize.toNat =
      (p.good - p.pref5g) / p.badRssiBucketSize.toNat) := by
  obtain ⟨-, hgood, -, hle, -, hlow⟩ := thresholds h hs
  have hsmall : p.rssiPref5gRssiThresh.toNat ≤ 127 := hs.pref_le
  have hbucket : p.badRssiBucketSize.toNat ≤ 127 := hs.badBucket_le
  have hpref5g := hs.pref5g_eq
  unfold isSameBucket
  rw [int8_eq (x := p.good) (by omega) (by omega),
    int8_eq (x := p.badRssiBucketSize.toNat) (by omega) (by omega),
    int8_eq (x := p.good - rssi) (by omega) (by omega),
    int8_eq (x := p.good - p.pref5g) (by omega) (by omega),
    Int.tdiv_eq_ediv_of_nonneg (by omega), Int.tdiv_eq_ediv_of_nonneg (by omega)]
  rfl

theorem graded_proratedPcntByRssi (hu : p.Unrounded) : Graded p.proratedPcntByRssi := by
  have hpcnt := (second h hs).le_hundred
  have hbad := (second h hs).nonneg
  have hbounds (rssi : ℤ) : 0 ≤ p.proratedPcntByRssi rssi ∧ p.proratedPcntByRssi rssi ≤ 100 := by
    unfold proratedPcntByRssi
    split_ifs with hgood _ hle
    · omega
    · omega
    · omega
    · have := (second h hs).slot_bounds hu.2 (not_le.mp hle) (not_lt.mp hgood)
      omega
  refine ⟨fun rssi => hbounds _, fun rssi rssi' hle => ?_⟩
  generalize rssi.toInt = r at *
  generalize rssi'.toInt = r' at *
  by_cases hgood : p.good < r'
  · rw [proratedPcntByRssi.eq_def p r', if_pos hgood]
    exact (hbounds r).2
  · have hzero := (hbounds r').1
    rw [proratedPcntByRssi.eq_def p r, if_neg (by omega)]
    split_ifs with hoff hlow
    · exact hzero
    · exact hzero
    · -- The better RSSI is not behind the bucket of the preference either.
      obtain ⟨hother, hpref⟩ : p.isSameBucket r = false ∧ p.pref5g ≤ r := by simpa using hoff
      have hother' : p.isSameBucket r' = false := by
        rw [isSameBucket_eq h hs hpref (by omega), decide_eq_false_iff_not] at hother
        rw [isSameBucket_eq h hs (by omega) (by omega), decide_eq_false_iff_not]
        intro heq
        obtain ⟨-, hdiv, -⟩ := div_bounds (second h hs).bucket_pos (x := p.good - r')
          (y := p.good - r) (by omega) (by omega)
        obtain ⟨-, hdiv', -⟩ := div_bounds (second h hs).bucket_pos (x := p.good - r)
          (y := p.good - p.pref5g) (by omega) (by omega)
        omega
      have hon : ¬(p.isSameBucket r' || decide (r' < p.pref5g)) = true := by
        simp only [hother', Bool.false_or, decide_eq_true_eq]
        omega
      rw [proratedPcntByRssi, if_neg hgood, if_neg hon, if_neg (by omega)]
      exact (second h hs).slot_mono (by omega) hle (by omega)

end RssiCfgScore

def Within (most : ℕ) (score : ℤ) : Prop := 0 ≤ score ∧ score ≤ most

theorem within_zero (most : ℕ) : Within most 0 := ⟨le_rfl, by omega⟩

theorem within_mul {pcnt : ℤ} {t : ℕ} (h : 0 ≤ pcnt) (h' : pcnt ≤ t) :
    Within (w.toNat * t) (w.toNat * pcnt) := by
  refine ⟨Int.mul_nonneg (by omega) h, ?_⟩
  rw [Nat.cast_mul]
  exact Int.mul_le_mul_of_nonneg_left h' (by omega)

theorem within_div {pcnt pcnt' top : ℕ} (h : pcnt ≤ 100) (h' : pcnt' ≤ top) :
    Within (w.toNat * top) (pcnt * pcnt' * w.toNat / 100) := by
  have hmul := Nat.mul_le_mul_right w.toNat (Nat.mul_le_mul h h')
  have hdiv : pcnt * pcnt' * w.toNat / 100 ≤ w.toNat * top := by
    rw [Nat.mul_comm w.toNat]
    exact Nat.div_le_of_le_mul (by rwa [← Nat.mul_assoc])
  exact ⟨Int.natCast_nonneg (pcnt * pcnt' * w.toNat / 100), by exact_mod_cast hdiv⟩

/-- The largest of the four percentages of a word. -/
def PerIndex.top (p : PerIndex) : ℕ :=
  max (max (p 0).toNat (p 1).toNat) (max (p 2).toNat (p 3).toNat)

theorem PerIndex.le_top (p : PerIndex) {i : ℕ} (hi : i < 4) : (p i).toNat ≤ p.top := by
  unfold top
  interval_cases i <;> omega

theorem top_limitMax (p : PerIndex) : (limitMaxPerIndexScore p).top ≤ 100 := by
  have hle (i : ℕ) (hi : i < 4) : (limitMaxPerIndexScore p i).toNat ≤ 100 := by
    unfold limitMaxPerIndexScore
    split_ifs with hover
    · exact le_rfl
    · exact Nat.not_lt.mp fun hlt => hover ⟨hi, hlt⟩
  exact max_le (max_le (hle 0 (by decide)) (hle 1 (by decide)))
    (max_le (hle 2 (by decide)) (hle 3 (by decide)))

/-- The largest percentage of the slots, if there are any. -/
def PerSlotScoring.top (s : PerSlotScoring) : ℕ :=
  if s.numSlot = 0 then 0
  else max (max s.scorePcnt3To0.top s.scorePcnt7To4.top)
    (max s.scorePcnt11To8.top s.scorePcnt15To12.top)

theorem PerSlotScoring.top_limitMax (s : PerSlotScoring) : s.limitMax.top ≤ 100 := by
  unfold top
  split_ifs
  · exact Nat.zero_le _
  · exact max_le (max_le (BssScore.top_limitMax _) (BssScore.top_limitMax _))
      (max_le (BssScore.top_limitMax _) (BssScore.top_limitMax _))

theorem within_getScoreForIndex {s : PerSlotScoring} (hs : s.numSlot ≠ 0) {index : ℕ}
    (hi : index ≤ 15) (w : UInt8) : Within (w.toNat * s.top) (getScoreForIndex index w s) := by
  have hle {p : PerIndex} {i : ℕ} (hp : p.top ≤ s.top) (hi : i < 4) : ((p i).toNat : ℤ) ≤ s.top :=
    Int.ofNat_le.mpr ((p.le_top hi).trans hp)
  have htop : s.top = max (max s.scorePcnt3To0.top s.scorePcnt7To4.top)
    (max s.scorePcnt11To8.top s.scorePcnt15To12.top) := if_neg hs
  unfold getScoreForIndex
  split_ifs
  · exact within_mul (by omega) (hle (by omega) (by omega))
  · exact within_mul (by omega) (hle (by omega) (by omega))
  · exact within_mul (by omega) (hle (by omega) (by omega))
  · exact within_mul (by omega) (hle (by omega) (by omega))

theorem within_calculatePclScore (pcl w : UInt8) :
    Within (w.toNat * 100) (calculatePclScore pcl w) := by
  have hpcl : pcl.toNat < 256 := pcl.toNat_lt
  unfold calculatePclScore Within
  dsimp only
  split_ifs <;> omega

theorem calculateRssiScore_eq {p : RssiCfgScore} {rssi : ℤ} (h : 0 ≤ p.rssiPcnt rssi)
    (h' : p.rssiPcnt rssi ≤ 100) (w : UInt8) :
    p.calculateRssiScore rssi w = w.toNat * p.rssiPcnt rssi := by
  have hw : w.toNat < 256 := w.toNat_lt
  have hmul := within_mul (w := w) (t := 100) h h'
  unfold Within at hmul
  unfold RssiCfgScore.rssiPcnt at h h' hmul ⊢
  unfold RssiCfgScore.calculateRssiScore
  dsimp only
  split_ifs at * with hbest hbad
  · omega
  · rw [Int.mul_assoc, uint32_eq (by omega) (by omega), Int.mul_ediv_cancel_left _ (by omega),
      int32_eq (by omega) (by omega)]
  · rw [Int.mul_assoc, Int.mul_tdiv_cancel_left _ (by omega)]

section Sum

variable (cfg : ScoringConfig) (entry : Entry) {proratedPcnt : ℕ}

theorem within_capsScore (h : proratedPcnt ≤ 100) (can has : Bool) (w : UInt8) :
    Within (if can then w.toNat * 100 else 0) (capsScore proratedPcnt (can && has) w) := by
  unfold capsScore
  cases can
  · exact within_zero _
  · cases has
    · exact within_zero _
    · rw [Int.mul_comm]
      exact within_mul (by omega) (by omega)

theorem within_calculateBandwidthScore (h : proratedPcnt ≤ 100) :
    Within (cfg.weightCfg.chanWidthWeightage.toNat * cfg.bandwidthWeightPerIndex.top)
      (calculateBandwidthScore cfg entry proratedPcnt) := by
  have hindex : entry.phyWidth.index < 4 := by cases entry.phyWidth <;> decide
  unfold calculateBandwidthScore
  refine within_div h ?_
  split_ifs <;> exact PerIndex.le_top _ (by omega)

theorem within_calculateNssScore (h : proratedPcnt ≤ 100) (staNss : UInt8) :
    Within (cfg.weightCfg.nssWeightage.toNat * cfg.nssWeightPerIndex.top)
      (calculateNssScore cfg entry proratedPcnt staNss) := by
  unfold calculateNssScore
  dsimp only
  rw [Int.mul_comm _ (proratedPcnt : ℤ), Int.mul_comm cfg.weightCfg.nssWeightage.toNat,
    ← Int.mul_assoc]
  refine within_div h (PerIndex.le_top _ ?_)
  split_ifs <;> decide

theorem within_calculateCongestionScore :
    Within (cfg.weightCfg.channelCongestionWeightage.toNat * cfg.espQbssScoring.top)
      (calculateCongestionScore cfg entry) := by
  have hslots : cfg.espQbssScoring.slots ≤ 15 := Nat.min_le_right ..
  unfold calculateCongestionScore
  dsimp only
  split_ifs with hs
  · exact within_zero _
  · exact within_getScoreForIndex hs hslots _
  · exact within_getScoreForIndex hs (Nat.zero_le 15) _
  · exact within_getScoreForIndex hs ((Nat.min_le_right ..).trans hslots) _

theorem within_calculateOceWanScore :
    Within (cfg.weightCfg.oceWanWeightage.toNat * cfg.oceWanScoring.top)
      (calculateOceWanScore cfg entry) := by
  have hslots : cfg.oceWanScoring.slots ≤ 15 := Nat.min_le_right ..
  unfold calculateOceWanScore
  dsimp only
  split_ifs with hs
  · exact within_zero _
  · split
    · exact within_getScoreForIndex hs ((Nat.min_le_right ..).trans hslots) _
    · split_ifs
      · exact within_zero _
      · exact within_getScoreForIndex hs ((Nat.min_le_right ..).trans hslots) _

theorem within_bandScore :
    Within (cfg.weightCfg.chanBandWeightage.toNat * cfg.bandWeightPerIndex.top)
      (bandScore cfg entry) := by
  have hmul (i : ℕ) (hi : i < 4) := within_mul (w := cfg.weightCfg.chanBandWeightage) (by omega)
    (Int.ofNat_le.mpr (cfg.bandWeightPerIndex.le_top hi))
  unfold bandScore
  split_ifs
  · exact hmul 1 (by omega)
  · exact within_zero _
  · exact hmul 0 (by omega)
  · exact within_zero _

theorem within_beamformeeScore :
    Within (if isVht cfg entry then cfg.weightCfg.beamformingCapWeightage.toNat * 100 else 0)
      (beamformeeScore cfg entry) := by
  unfold beamformeeScore
  cases isVht cfg entry
  · exact within_zero _
  · rw [if_pos rfl]
    split_ifs
    · exact ⟨by omega, by omega⟩
    · exact within_zero _

theorem isVht_le (n : ℕ) :
    (if isVht cfg entry then n else 0) ≤ if cfg.vhtCap || cfg.vht24GCap then n else 0 := by
  unfold isVht
  cases cfg.vhtCap <;> cases cfg.vht24GCap <;> cases entry.is24GHz <;> simp

/-- The weights of all terms. -/
def ScoringConfig.weights (cfg : ScoringConfig) : ℕ :=
  cfg.weightCfg.totalWeight + cfg.weightCfg.heCapsWeightage.toNat

/-- The most that the terms can add up to: nothing for what the station cannot do, and no more than
the largest percentage of each table. -/
def ScoringConfig.reach (cfg : ScoringConfig) : ℕ :=
  let w := cfg.weightCfg
  w.rssiWeightage.toNat * 100 + w.pclWeightage.toNat * 100 +
    (if cfg.htCap then w.htCapsWeightage.toNat * 100 else 0) +
    (if cfg.vhtCap || cfg.vht24GCap then w.vhtCapsWeightage.toNat * 100 else 0) +
    (if cfg.vhtCap || cfg.vht24GCap then w.beamformingCapWeightage.toNat * 100 else 0) +
    (if cfg.heCap then w.heCapsWeightage.toNat * 100 else 0) +
    w.chanWidthWeightage.toNat * cfg.bandwidthWeightPerIndex.top +
    w.nssWeightage.toNat * cfg.nssWeightPerIndex.top +
    w.chanBandWeightage.toNat * cfg.bandWeightPerIndex.top +
    w.channelCongestionWeightage.toNat * cfg.espQbssScoring.top +
    w.oceWanWeightage.toNat * cfg.oceWanScoring.top

theorem reach_le (hbw : cfg.bandwidthWeightPerIndex.top ≤ 100)
    (hnss : cfg.nssWeightPerIndex.top ≤ 100) (hband : cfg.bandWeightPerIndex.top ≤ 100)
    (hesp : cfg.espQbssScoring.top ≤ 100) (hoce : cfg.oceWanScoring.top ≤ 100) :
    cfg.reach ≤ 100 * cfg.weights := by
  have hmul (w : UInt8) {top : ℕ} (h : top ≤ 100) := Nat.mul_le_mul_left w.toNat h
  have hif (c : Bool) (n : ℕ) : (if c then n else 0) ≤ n := by cases c <;> simp
  unfold ScoringConfig.reach ScoringConfig.weights WeightConfig.totalWeight
  generalize cfg.weightCfg = w
  have hwidth := hmul w.chanWidthWeightage hbw
  have hstreams := hmul w.nssWeightage hnss
  have hband' := hmul w.chanBandWeightage hband
  have hesp' := hmul w.channelCongestionWeightage hesp
  have hoce' := hmul w.oceWanWeightage hoce
  have hht := hif cfg.htCap (w.htCapsWeightage.toNat * 100)
  have hvht := hif (cfg.vhtCap || cfg.vht24GCap) (w.vhtCapsWeightage.toNat * 100)
  have hbf := hif (cfg.vhtCap || cfg.vht24GCap) (w.beamformingCapWeightage.toNat * 100)
  have hhe := hif cfg.heCap (w.heCapsWeightage.toNat * 100)
  dsimp only
  omega

theorem sumOfScores_bounds (hr : Graded cfg.rssiScore.rssiPcnt)
    (hp : Graded cfg.rssiScore.proratedPcntByRssi) (env : Env) (pcl : UInt8) :
    0 ≤ sumOfScores cfg entry env pcl ∧ sumOfScores cfg entry env pcl ≤ cfg.reach := by
  obtain ⟨hrssi, hrssi'⟩ := hr.bounds entry.rssiRaw
  obtain ⟨hpro, hpro'⟩ := hp.bounds entry.rssiRaw
  have hterm := within_mul (w := cfg.weightCfg.rssiWeightage) (t := 100) hrssi hrssi'
  rw [← calculateRssiScore_eq hrssi hrssi'] at hterm
  unfold sumOfScores
  dsimp only
  generalize hpcnt : (cfg.rssiScore.proratedPcntByRssi entry.rssiRaw.toInt % 2 ^ 8).toNat = pcnt
  have hle : pcnt ≤ 100 := by omega
  have hpcl := within_calculatePclScore pcl cfg.weightCfg.pclWeightage
  have hht := within_capsScore hle cfg.htCap entry.htcap cfg.weightCfg.htCapsWeightage
  have hvht := within_capsScore hle (isVht cfg entry) entry.vhtcap
    cfg.weightCfg.vhtCapsWeightage
  have hhe := within_capsScore hle cfg.heCap entry.hecap cfg.weightCfg.heCapsWeightage
  have hbw := within_calculateBandwidthScore cfg entry hle
  have hbf := within_beamformeeScore cfg entry
  have hcong := within_calculateCongestionScore cfg entry
  have hband := within_bandScore cfg entry
  have hoce := within_calculateOceWanScore cfg entry
  have hnss := within_calculateNssScore cfg entry hle (getStaNss cfg env)
  have hvht' := isVht_le cfg entry (cfg.weightCfg.vhtCapsWeightage.toNat * 100)
  have hbf' := isVht_le cfg entry (cfg.weightCfg.beamformingCapWeightage.toNat * 100)
  unfold Within at *
  unfold ScoringConfig.reach
  dsimp only
  by_cases hpct : getCongestionPct entry < 75
  · rw [if_pos hpct]
    omega
  · rw [if_neg hpct]
    omega

end Sum

/-- A candidate of the hint has the maximum, and the others have less. -/
def Candidate.Placed (c : Candidate) : Prop :=
  if c.hint then c.entry.bssScore = 10000 else c.entry.bssScore < 10000

theorem isBetterBss_placed (hc : c.Placed) (hd : d.Placed)
    (hne : c.hint ≠ d.hint) : isBetterBss c.entry d.entry = c.hint := by
  unfold Candidate.Placed at hc hd
  unfold isBetterBss
  cases hhint : c.hint <;> cases hhint' : d.hint <;> simp_all
  omega

theorem mem_listInsertSorted : d ∈ listInsertSorted c l ↔ d = c ∨ d ∈ l := by
  induction l with
  | nil => exact List.mem_cons
  | cons cur l ih =>
    unfold listInsertSorted
    split_ifs
    · exact List.mem_cons
    · rw [List.mem_cons, ih, List.mem_cons, or_left_comm]

theorem hintFirst_insert (hc : c.Placed)
    (hl : ∀ d ∈ l, d.Placed) (h : HintFirst l) : HintFirst (listInsertSorted c l) := by
  induction l with
  | nil => exact List.pairwise_singleton _ _
  | cons cur l ih =>
    obtain ⟨hcur, hl⟩ := List.forall_mem_cons.mp hl
    obtain ⟨hhead, htail⟩ := List.pairwise_cons.mp h
    unfold listInsertSorted
    split_ifs with hbetter
    · refine List.pairwise_cons.mpr ⟨fun d hd hhint => ?_, h⟩
      -- The candidate at the head is the hint's if any is, and then the new one is as well.
      have hheadHint : cur.hint = true := by
        rcases List.mem_cons.mp hd with rfl | hd
        · exact hhint
        · exact hhead d hd hhint
      by_contra hnot
      exact hnot ((isBetterBss_placed hc hcur (by rwa [hheadHint])).symm.trans hbetter)
    · refine List.pairwise_cons.mpr ⟨fun d hd hhint => ?_, ih hl htail⟩
      rcases mem_listInsertSorted.mp hd with rfl | hd
      · by_contra hnot
        have hhint' := isBetterBss_placed hc hcur fun heq => hnot (heq ▸ hhint)
        exact hbetter (hhint'.trans hhint)
      · exact hhead d hd hhint

variable {cfg : ScoringConfig}

theorem hintFirst_scanList {cs : List Candidate}
    (h : ∀ c ∈ cs, (c.scored cfg).Placed) : HintFirst (scanList cfg cs) := by
  suffices hfold : ∀ l, (∀ d ∈ l, d.Placed) → HintFirst l →
      HintFirst (cs.foldl (fun l c => listInsertSorted (c.scored cfg) l) l) from
    hfold [] (List.forall_mem_nil _) .nil
  induction cs with
  | nil => exact fun l _ hl => hl
  | cons c cs ih =>
    obtain ⟨hc, hcs⟩ := List.forall_mem_cons.mp h
    refine fun l hplaced hl => ih hcs _ (fun d hd => ?_) (hintFirst_insert hc hplaced hl)
    rcases mem_listInsertSorted.mp hd with rfl | hd
    · exact hc
    · exact hplaced d hd

section Sound

variable {cfg : ScoringConfig} (hr : Graded cfg.rssiScore.rssiPcnt)
  (hp : Graded cfg.rssiScore.proratedPcntByRssi)

include hr hp

theorem calculateBssScore_bounds (hreach : cfg.reach ≤ 10000) (entry : Entry) (env : Env)
    (pcl : UInt8) : let r := calculateBssScore cfg entry env pcl
    0 ≤ r.1 ∧ r.1 ≤ cfg.reach ∧ r.2.bssScore ≤ max entry.bssScore cfg.reach := by
  obtain ⟨hlow, hhigh⟩ := sumOfScores_bounds cfg entry hr hp env pcl
  unfold calculateBssScore
  split_ifs
  · dsimp only
    rw [int32_eq (by omega) (by omega), uint32_eq (by omega) (by omega)]
    omega
  · exact ⟨le_rfl, by omega, Nat.le_max_left ..⟩

theorem placed_scored (hreach : cfg.reach < 10000) {c : Candidate} (hc : c.entry.bssScore = 0) :
    (c.scored cfg).Placed := by
  have hbounds := calculateBssScore_bounds hr hp hreach.le c.entry c.env c.pclChanWeight
  unfold Candidate.Placed Candidate.scored
  split_ifs
  · rfl
  · dsimp only at hbounds ⊢
    omega

end Sound

/-- All capabilities are on, and the tables give the full percentage where an entry may lie. -/
structure Full (cfg : ScoringConfig) : Prop where
  htCap : cfg.htCap = true
  vhtCap : cfg.vhtCap = true
  heCap : cfg.heCap = true
  cbMode : cfg.cbMode5G ≠ 0
  bandwidth : cfg.bandwidthWeightPerIndex 3 = 100
  nss : cfg.nssWeightPerIndex 0 = 100
  band : cfg.bandWeightPerIndex 1 = 100
  espSlots : cfg.espQbssScoring.numSlot ≠ 0
  esp : cfg.espQbssScoring.scorePcnt3To0 0 = 100
  oceSlots : cfg.oceWanScoring.numSlot ≠ 0
  oce : cfg.oceWanScoring.scorePcnt3To0 0 = 100

def bestEntry : Entry := ⟨false, true, .mhz160, 127, true, true, true, true, 0, 0, 1, none, 0⟩

def bestEnv : Env := ⟨true, true, true, false⟩

theorem sumOfScores_bestEntry (h : Full cfg) (hbest : cfg.rssiScore.best ≤ 0)
    (hgood : cfg.rssiScore.good ≤ 0) (hpref : cfg.rssiScore.pref5g ≤ 0) :
    sumOfScores cfg bestEntry bestEnv 255 = 100 * cfg.weights := by
  obtain ⟨hht, hvht, hhe, hcb, hbw, hnss, hband, hesp, hesp', hoce, hoce'⟩ := h
  have hrssi : bestEntry.rssiRaw.toInt = 127 := rfl
  have hpro : cfg.rssiScore.proratedPcntByRssi 127 = 100 := if_pos (by omega)
  have hvht' : isVht cfg bestEntry = true := hvht
  have hpct : getCongestionPct bestEntry = 0 := rfl
  have hprefers : prefers5G cfg bestEntry = true := by
    have hlt : int8 (-cfg.rssiScore.goodRssiThreshold.toNat) < 128 := Int.bmod_lt (by decide)
    simp only [prefers5G, sameBucketBelowGood, hrssi]
    rw [decide_eq_true (by omega), decide_eq_false (by omega)]
    rfl
  have hterm : cfg.rssiScore.calculateRssiScore 127 cfg.weightCfg.rssiWeightage =
      100 * cfg.weightCfg.rssiWeightage.toNat := if_pos (by omega)
  have hpcl : calculatePclScore 255 cfg.weightCfg.pclWeightage =
      cfg.weightCfg.pclWeightage.toNat * 100 := by
    simp [calculatePclScore]
  have hwidth : calculateBandwidthScore cfg bestEntry 100 =
      100 * 100 * cfg.weightCfg.chanWidthWeightage.toNat / 100 := by
    simp [calculateBandwidthScore, isVht, hht, hvht, hcb, hbw, bestEntry, PhyWidth.index]
  have hstreams : calculateNssScore cfg bestEntry 100 1 =
      cfg.weightCfg.nssWeightage.toNat * 100 * 100 / 100 := by
    simp [calculateNssScore, hnss, bestEntry]
  have hcong : calculateCongestionScore cfg bestEntry =
      cfg.weightCfg.channelCongestionWeightage.toNat * 100 := by
    simp only [calculateCongestionScore, hpct, hrssi]
    rw [if_neg hesp, if_neg (by omega), if_pos trivial, hesp']
    rfl
  have hwan : calculateOceWanScore cfg bestEntry = cfg.weightCfg.oceWanWeightage.toNat * 100 := by
    simp [calculateOceWanScore, hoce, bestEntry, getScoreForIndex, hoce']
  have hone : getStaNss cfg bestEnv = 1 := rfl
  simp only [sumOfScores, hrssi, hpro, show ((100 : ℤ) % 2 ^ 8).toNat = 100 from rfl, hone, hterm,
    hpcl, hwidth, hstreams, hcong, hwan, hpct, hht, hhe, hvht', beamformeeScore, bandScore,
    hprefers, hband, capsScore, ScoringConfig.weights, WeightConfig.totalWeight]
  simp [bestEntry]
  omega

theorem totalWeight_validate (cfg : ScoringConfig) :
    (validateScoringConfig cfg).weightCfg.totalWeight ≤ 100 := by
  unfold validateScoringConfig
  split_ifs with hover
  · exact show 75 ≤ 100 by decide
  · exact Nat.not_lt.mp hover

/-- The best entry gets all of the weights: with 100 of them it has the maximum as well, and a
better RSSI than the hint. -/
theorem weights_lt_of_sound (h : Full cfg)
    (htotal : cfg.weightCfg.totalWeight ≤ 100) (hbest : cfg.rssiScore.best ≤ 0)
    (hgood : cfg.rssiScore.good ≤ 0) (hpref : cfg.rssiScore.pref5g ≤ 0) (hsound : Sound cfg) :
    cfg.weights < 100 := by
  have hsum := sumOfScores_bestEntry h hbest hgood hpref
  have hhe := cfg.weightCfg.heCapsWeightage.toNat_lt
  have hw : cfg.weights ≤ 100 + 255 := by
    unfold ScoringConfig.weights
    omega
  have hle := (hsound.bounded bestEntry bestEnv 255).2
  change int32 (sumOfScores ..) ≤ 10000 at hle
  rw [hsum, int32_eq (by omega) (by omega)] at hle
  by_contra hge
  let hint : Candidate := ⟨{ bestEntry with rssiRaw := 0 }, true, 0, bestEnv⟩
  let other : Candidate := ⟨bestEntry, false, 255, bestEnv⟩
  have hscore : (other.scored cfg).entry = { bestEntry with
      bssScore := (uint32 (int32 (sumOfScores cfg bestEntry bestEnv 255))).toNat } := rfl
  rw [hsum, int32_eq (by omega) (by omega), uint32_eq (by omega) (by omega),
    show (100 * (cfg.weights : ℤ)).toNat = 10000 by omega] at hscore
  have hbetter : isBetterBss (other.scored cfg).entry (hint.scored cfg).entry = true := by
    rw [hscore]
    simp [isBetterBss, Candidate.scored, hint, bestEntry]
  have hlist : scanList cfg [hint, other] = [other.scored cfg, hint.scored cfg] := if_pos hbetter
  have hfirst := hsound.hintFirst [hint, other] (by simp [hint, other, bestEntry])
  rw [hlist] at hfirst
  exact Bool.false_ne_true ((List.pairwise_cons.mp hfirst).1 _ (List.mem_singleton_self _) rfl)

/-- Percentages that are not rounded below zero, and terms that are limited together, make the scores
sound. -/
theorem bssScore_sound (given : ScoringConfig) (hordered : given.rssiScore.Ordered)
    (hsmall : given.rssiScore.Small) :
    let cfg := validateScoringConfig given
    (Sound cfg → cfg.rssiScore.Unrounded) ∧ cfg.reach ≤ 100 * cfg.weights ∧
      (cfg.rssiScore.Unrounded → Graded cfg.rssiScore.rssiPcnt ∧
        Graded cfg.rssiScore.proratedPcntByRssi ∧ (cfg.reach ≤ 10000 → Bounded cfg)) ∧
      (cfg.rssiScore.Unrounded → cfg.reach < 10000 → Sound cfg) ∧
      (Full cfg → (Sound cfg ↔ cfg.rssiScore.Unrounded ∧ cfg.weights < 100)) := by
  intro cfg
  have hr : cfg.rssiScore.Unrounded → Graded cfg.rssiScore.rssiPcnt :=
    RssiCfgScore.graded_rssiPcnt hordered hsmall
  have hp : cfg.rssiScore.Unrounded → Graded cfg.rssiScore.proratedPcntByRssi :=
    RssiCfgScore.graded_proratedPcntByRssi hordered hsmall
  have hle : cfg.reach ≤ 100 * cfg.weights :=
    reach_le cfg (top_limitMax _) (top_limitMax _) (top_limitMax _)
      given.espQbssScoring.top_limitMax given.oceWanScoring.top_limitMax
  have hbounded (hu : cfg.rssiScore.Unrounded) (hreach : cfg.reach ≤ 10000) : Bounded cfg := by
    intro entry env pcl
    obtain ⟨hlow, hhigh, -⟩ := calculateBssScore_bounds (hr hu) (hp hu) hreach entry env pcl
    exact ⟨hlow, by omega⟩
  have hsound (hu : cfg.rssiScore.Unrounded) (hreach : cfg.reach < 10000) : Sound cfg :=
    ⟨hr hu, hp hu, hbounded hu hreach.le, fun cs hfresh => hintFirst_scanList fun c hc =>
      placed_scored (hr hu) (hp hu) hreach (hfresh c hc)⟩
  have hunrounded (h : Sound cfg) : cfg.rssiScore.Unrounded :=
    RssiCfgScore.unrounded_of_graded hordered hsmall h.rssi
  refine ⟨hunrounded, hle, fun hu => ⟨hr hu, hp hu, hbounded hu⟩, hsound,
    fun hfull => ⟨fun h => ⟨hunrounded h, ?_⟩, fun h => hsound h.1 (by omega)⟩⟩
  obtain ⟨hbest, hgood, -⟩ := RssiCfgScore.thresholds hordered hsmall
  have hpref := hsmall.pref5g_eq
  exact weights_lt_of_sound hfull (totalWeight_validate given) (hbest.trans_le (by omega))
    (hgood.trans_le (by omega)) (hpref.trans_le (by omega)) h

def defaultRssi : RssiCfgScore := ⟨55, 70, 80, 80, 25, 5, 5, 76⟩

theorem ordered_defaultRssi : defaultRssi.Ordered :=
  ⟨by decide, by decide, by decide, by decide, by decide, by decide⟩

theorem small_defaultRssi : defaultRssi.Small := ⟨by decide, by decide, by decide⟩

/-- The default thresholds, and tables in which all percentages are full. -/
def withWeights (w : WeightConfig) : ScoringConfig :=
  let full : PerIndex := fun _ => 100
  let slots : PerSlotScoring := ⟨0, full, full, full, full⟩
  ⟨w, defaultRssi, slots, slots, full, full, full, 0, 0, 1, 1, true, true, true, true⟩

theorem bssScore_sound_default :
    Sound (validateScoringConfig (withWeights ⟨20, 2, 1, 2, 17, 2, 16, 2, 10, 5, 2⟩)) := by
  refine (bssScore_sound _ ordered_defaultRssi small_defaultRssi).2.2.2.1 ⟨?_, ?_⟩ (by decide)
  · intro _
    decide
  · intro _
    decide

/-- All of the score is given for the RSSI, and as much again for the HE capabilities. -/
theorem heavyHe_not_sound :
    ¬∀ given : ScoringConfig, given.rssiScore.Ordered → Sound (validateScoringConfig given) := by
  intro hall
  have hbounds := (hall (withWeights ⟨100, 0, 0, 100, 0, 0, 0, 0, 0, 0, 0⟩)
    ordered_defaultRssi).bounded
    ⟨false, true, .mhz80, -40, true, true, true, false, 0, 0, 1, none, 0⟩
    ⟨true, true, false, false⟩ 0
  exact absurd hbounds.2 (by decide)

end KernelModules.BssScore
