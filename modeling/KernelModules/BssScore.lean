import Mathlib.Tactic

/-!
# The score of a connection candidate

`scm_calculate_bss_score` adds up one term for each weight of the scoring configuration, and the
candidates are sorted by the sum. Beforehand `scm_validate_scoring_config` limits the percentages
and the sum of the weights, in which it leaves out the weight of the HE capabilities. Thresholds
are configured as positive numbers and negated; what is assigned to an `int8_t` or compared with a
`uint32_t` is converted.
-/

namespace KernelModules.BssScore

def int8 (x : ℤ) : ℤ := x.bmod (2 ^ 8)

def int32 (x : ℤ) : ℤ := x.bmod (2 ^ 32)

def uint32 (x : ℤ) : ℤ := x % 2 ^ 32

/-- Four percentages of eight bits, packed into a word. -/
abbrev PerIndex := ℕ → UInt8

structure WeightConfig where
  rssiWeightage : UInt8
  htCapsWeightage : UInt8
  vhtCapsWeightage : UInt8
  heCapsWeightage : UInt8
  chanWidthWeightage : UInt8
  chanBandWeightage : UInt8
  nssWeightage : UInt8
  beamformingCapWeightage : UInt8
  pclWeightage : UInt8
  channelCongestionWeightage : UInt8
  oceWanWeightage : UInt8

structure RssiCfgScore where
  bestRssiThreshold : UInt32
  goodRssiThreshold : UInt32
  badRssiThreshold : UInt32
  goodRssiPcnt : UInt32
  badRssiPcnt : UInt32
  goodRssiBucketSize : UInt32
  badRssiBucketSize : UInt32
  rssiPref5gRssiThresh : UInt32

structure PerSlotScoring where
  numSlot : UInt32
  scorePcnt3To0 : PerIndex
  scorePcnt7To4 : PerIndex
  scorePcnt11To8 : PerIndex
  scorePcnt15To12 : PerIndex

structure ScoringConfig where
  weightCfg : WeightConfig
  rssiScore : RssiCfgScore
  espQbssScoring : PerSlotScoring
  oceWanScoring : PerSlotScoring
  bandwidthWeightPerIndex : PerIndex
  nssWeightPerIndex : PerIndex
  bandWeightPerIndex : PerIndex
  cbMode24G : UInt8
  cbMode5G : UInt8
  vdevNss24g : UInt8
  vdevNss5g : UInt8
  htCap : Bool
  vhtCap : Bool
  heCap : Bool
  vht24GCap : Bool

def limitMaxPerIndexScore (w : PerIndex) : PerIndex :=
  fun i => if i < 4 ∧ 100 < w i then 100 else w i

def WeightConfig.totalWeight (w : WeightConfig) : ℕ :=
  w.rssiWeightage.toNat + w.htCapsWeightage.toNat + w.vhtCapsWeightage.toNat +
    w.chanWidthWeightage.toNat + w.chanBandWeightage.toNat + w.nssWeightage.toNat +
    w.beamformingCapWeightage.toNat + w.pclWeightage.toNat +
    w.channelCongestionWeightage.toNat + w.oceWanWeightage.toNat

def PerSlotScoring.limitMax (s : PerSlotScoring) : PerSlotScoring where
  numSlot := s.numSlot
  scorePcnt3To0 := limitMaxPerIndexScore s.scorePcnt3To0
  scorePcnt7To4 := limitMaxPerIndexScore s.scorePcnt7To4
  scorePcnt11To8 := limitMaxPerIndexScore s.scorePcnt11To8
  scorePcnt15To12 := limitMaxPerIndexScore s.scorePcnt15To12

/-- The defaults; that of the HE capabilities is not among them. -/
def WeightConfig.fallback (w : WeightConfig) : WeightConfig :=
  ⟨20, 2, 1, w.heCapsWeightage, 17, 2, 16, 2, 10, 5, 0⟩

def validateScoringConfig (cfg : ScoringConfig) : ScoringConfig :=
  { cfg with
    weightCfg := if 100 < cfg.weightCfg.totalWeight then cfg.weightCfg.fallback else cfg.weightCfg
    bandwidthWeightPerIndex := limitMaxPerIndexScore cfg.bandwidthWeightPerIndex
    nssWeightPerIndex := limitMaxPerIndexScore cfg.nssWeightPerIndex
    bandWeightPerIndex := limitMaxPerIndexScore cfg.bandWeightPerIndex
    espQbssScoring := cfg.espQbssScoring.limitMax
    oceWanScoring := cfg.oceWanScoring.limitMax }

/-- `scm_get_rssi_pcnt_for_slot`. -/
def getRssiPcntForSlot (high low highPcnt lowPcnt bucketSize rssi : ℤ) : ℤ :=
  let numSlot := int8 (uint32 (high - low) / bucketSize + 1)
  let slotSize := int8 (uint32 (uint32 (highPcnt - lowPcnt) + numSlot.tdiv 2) / uint32 numSlot)
  let rssiDiff := int8 (high - rssi)
  let slotIndex := int8 (uint32 rssiDiff / bucketSize + 1)
  let rssiPcnt := int8 (highPcnt - slotSize * slotIndex)
  if uint32 rssiPcnt < lowPcnt then int8 lowPcnt else rssiPcnt

namespace RssiCfgScore

variable (p : RssiCfgScore)

def best : ℤ := int32 (-p.bestRssiThreshold.toNat)

def good : ℤ := int32 (-p.goodRssiThreshold.toNat)

def bad : ℤ := int32 (-p.badRssiThreshold.toNat)

def pref5g : ℤ := int8 (-p.rssiPref5gRssiThresh.toNat)

/-- Between the best threshold and the good one, or between the good one and the bad one. -/
def betweenPcnt (rssi : ℤ) : ℤ :=
  if p.good < rssi then
    getRssiPcntForSlot p.best p.good 100 p.goodRssiPcnt.toNat p.goodRssiBucketSize.toNat rssi
  else
    getRssiPcntForSlot p.good p.bad p.goodRssiPcnt.toNat p.badRssiPcnt.toNat
      p.badRssiBucketSize.toNat rssi

/-- The percentage of the weight that an RSSI gets. -/
def rssiPcnt (rssi : ℤ) : ℤ :=
  if p.best < rssi then 100
  else if rssi ≤ p.bad then p.badRssiPcnt.toNat
  else p.betweenPcnt rssi

/-- `scm_calculate_rssi_score`. -/
def calculateRssiScore (rssi : ℤ) (rssiWeightage : UInt8) : ℤ :=
  let totalRssiScore : ℤ := 100 * rssiWeightage.toNat
  if p.best < rssi then totalRssiScore
  else if rssi ≤ p.bad then int32 (uint32 (totalRssiScore * p.badRssiPcnt.toNat) / 100)
  else (totalRssiScore * p.betweenPcnt rssi).tdiv 100

/-- `scm_rssi_is_same_bucket`, for the preference of 5 GHz. -/
def isSameBucket (rssi : ℤ) : Bool :=
  (int8 (int8 p.good - rssi)).tdiv (int8 p.badRssiBucketSize.toNat) ==
    (int8 (int8 p.good - p.pref5g)).tdiv (int8 p.badRssiBucketSize.toNat)

/-- `scm_roam_calculate_prorated_pcnt_by_rssi`. -/
def proratedPcntByRssi (rssi : ℤ) : ℤ :=
  if p.good < rssi then 100
  else if p.isSameBucket rssi || rssi < p.pref5g then 0
  else if rssi ≤ p.bad then 0
  else
    getRssiPcntForSlot p.good p.bad p.goodRssiPcnt.toNat p.badRssiPcnt.toNat
      p.badRssiBucketSize.toNat rssi

end RssiCfgScore

/-- The widest channel that the PHY mode of an access point stands for. -/
inductive PhyWidth
  | mhz20 | mhz40 | mhz80 | mhz160

def PhyWidth.index : PhyWidth → ℕ
  | mhz20 => 0
  | mhz40 => 1
  | mhz80 => 2
  | mhz160 => 3

/-- The members of a scan entry that are looked at. The band is what the regulatory component says
of the frequency, and the capacity that of the reduced WAN metrics, if there are any. -/
structure Entry where
  is24GHz : Bool
  is5GHz : Bool
  phyWidth : PhyWidth
  rssiRaw : Int8
  htcap : Bool
  vhtcap : Bool
  hecap : Bool
  suBeamFormer : Bool
  airTimeFraction : UInt8
  qbssChanLoad : UInt8
  nss : UInt8
  downlinkAvCap : Option (Fin 16)
  bssScore : ℕ

/-- What is there when a score is calculated; `oneStream` if the policy manager allows a single
stream in another band, and `is24GHzCh` as the channel number says. -/
structure Env where
  scanObj : Bool
  pdev : Bool
  oneStream : Bool
  is24GHzCh : Bool

def calculatePclScore (pclChanWeight pclWeightage : UInt8) : ℤ :=
  let pclScore : ℤ :=
    if pclChanWeight = 0 then 0 else pclWeightage.toNat - (255 - pclChanWeight.toNat) / 20
  (if pclScore < 0 then 0 else pclScore) * 100

/-- A number of slots beyond 15 is replaced in the configuration, before it is used. -/
def PerSlotScoring.slots (s : PerSlotScoring) : ℕ := min s.numSlot.toNat 15

def getScoreForIndex (index : ℕ) (weightage : UInt8) (s : PerSlotScoring) : ℤ :=
  weightage.toNat *
    if index ≤ 3 then (s.scorePcnt3To0 index).toNat
    else if index ≤ 7 then (s.scorePcnt7To4 (index - 4)).toNat
    else if index ≤ 11 then (s.scorePcnt11To8 (index - 8)).toNat
    else (s.scorePcnt15To12 (index - 12)).toNat

def getCongestionPct (entry : Entry) : ℕ :=
  if entry.airTimeFraction ≠ 0 then 100 - entry.airTimeFraction.toNat * 100 / 255
  else if entry.qbssChanLoad ≠ 0 then entry.qbssChanLoad.toNat * 100 / 255
  else 0

section Terms

variable (cfg : ScoringConfig) (entry : Entry) (proratedPcnt : ℕ)

def isVht : Bool := if entry.is24GHz then cfg.vht24GCap else cfg.vhtCap

def calculateBandwidthScore : ℤ :=
  let cbmode : UInt8 :=
    if entry.is24GHz then cfg.cbMode24G else if cfg.vhtCap then cfg.cbMode5G else 0
  let htIndex := if !cfg.htCap && decide (0 < entry.phyWidth.index) then 0 else entry.phyWidth.index
  let chWidthIndex := if !isVht cfg entry && decide (1 < htIndex) then 1 else htIndex
  let score := if cbmode ≠ 0 ∧ 0 < chWidthIndex then cfg.bandwidthWeightPerIndex chWidthIndex
    else cfg.bandwidthWeightPerIndex 0
  proratedPcnt * score.toNat * cfg.weightCfg.chanWidthWeightage.toNat / 100

def calculateCongestionScore : ℤ :=
  let s := cfg.espQbssScoring
  let weightage := cfg.weightCfg.channelCongestionWeightage
  if s.numSlot = 0 then 0
  else if entry.rssiRaw.toInt ≤ cfg.rssiScore.good then getScoreForIndex s.slots weightage s
  else if getCongestionPct entry = 0 then weightage.toNat * (s.scorePcnt3To0 0).toNat
  else getScoreForIndex (min (getCongestionPct entry / (100 / s.slots) + 1) s.slots) weightage s

def calculateOceWanScore : ℤ :=
  let s := cfg.oceWanScoring
  let weightage := cfg.weightCfg.oceWanWeightage
  if s.numSlot = 0 then 0
  else match entry.downlinkAvCap with
    | none => getScoreForIndex (min 0 s.slots) weightage s
    | some cap =>
      if cap = 0 then 0 else getScoreForIndex (min (cap / (15 / s.slots)) s.slots) weightage s

def getStaNss (env : Env) : UInt8 :=
  if env.oneStream then 1 else if env.is24GHzCh then cfg.vdevNss24g else cfg.vdevNss5g

def calculateNssScore (staNss : UInt8) : ℤ :=
  let nss := if staNss < entry.nss then staNss else entry.nss
  let scorePct := cfg.nssWeightPerIndex
    (if nss = 4 then 3 else if nss = 3 then 2 else if nss = 2 then 1 else 0)
  cfg.weightCfg.nssWeightage.toNat * scorePct.toNat * proratedPcnt / 100

def sameBucketBelowGood : Bool :=
  decide (entry.rssiRaw.toInt < int8 (-cfg.rssiScore.goodRssiThreshold.toNat)) &&
    cfg.rssiScore.isSameBucket entry.rssiRaw.toInt

/-- The RSSI is in favour of 5 GHz. -/
def prefers5G : Bool :=
  decide (cfg.rssiScore.pref5g < entry.rssiRaw.toInt) && !sameBucketBelowGood cfg entry

def beamformeeScore : ℤ :=
  if isVht cfg entry && (entry.vhtcap && entry.suBeamFormer) && prefers5G cfg entry then
    100 * cfg.weightCfg.beamformingCapWeightage.toNat
  else 0

def bandScore : ℤ :=
  let weightage : ℤ := cfg.weightCfg.chanBandWeightage.toNat
  if prefers5G cfg entry then
    if entry.is5GHz then weightage * (cfg.bandWeightPerIndex 1).toNat else 0
  else if entry.is24GHz then weightage * (cfg.bandWeightPerIndex 0).toNat
  else 0

def capsScore (cap : Bool) (weightage : UInt8) : ℤ :=
  if cap then proratedPcnt * weightage.toNat else 0

/-- The sum of the terms. -/
def sumOfScores (env : Env) (pclChanWeight : UInt8) : ℤ :=
  let w := cfg.weightCfg
  let rssi := entry.rssiRaw.toInt
  let proratedPcnt := (cfg.rssiScore.proratedPcntByRssi rssi % 2 ^ 8).toNat
  cfg.rssiScore.calculateRssiScore rssi w.rssiWeightage +
    calculatePclScore pclChanWeight w.pclWeightage +
    capsScore proratedPcnt (cfg.htCap && entry.htcap) w.htCapsWeightage +
    capsScore proratedPcnt (isVht cfg entry && entry.vhtcap) w.vhtCapsWeightage +
    capsScore proratedPcnt (cfg.heCap && entry.hecap) w.heCapsWeightage +
    calculateBandwidthScore cfg entry proratedPcnt +
    beamformeeScore cfg entry +
    calculateCongestionScore cfg entry +
    (if getCongestionPct entry < 75 then bandScore cfg entry + calculateOceWanScore cfg entry
      else 0) +
    calculateNssScore cfg entry proratedPcnt (getStaNss cfg env)

/-- The score is returned, and kept as an unsigned number unless something is missing. -/
def calculateBssScore (env : Env) (pclChanWeight : UInt8) : ℤ × Entry :=
  if env.scanObj && env.pdev then
    let score := int32 (sumOfScores cfg entry env pclChanWeight)
    (score, { entry with bssScore := (uint32 score).toNat })
  else (0, entry)

end Terms

/-- `hint` if the BSSID is the one of the hint, which has priority. -/
structure Candidate where
  entry : Entry
  hint : Bool
  pclChanWeight : UInt8
  env : Env

def isBetterBss (bss₁ bss₂ : Entry) : Bool :=
  decide (bss₂.bssScore < bss₁.bssScore) ||
    (bss₁.bssScore == bss₂.bssScore && decide (bss₂.rssiRaw.toInt < bss₁.rssiRaw.toInt))

def Candidate.scored (cfg : ScoringConfig) (c : Candidate) : Candidate :=
  { c with
    entry :=
      if c.hint then { c.entry with bssScore := 10000 }
      else (calculateBssScore cfg c.entry c.env c.pclChanWeight).2 }

/-- The loop of `scm_list_insert_sorted`. -/
def listInsertSorted (c : Candidate) : List Candidate → List Candidate
  | [] => [c]
  | cur :: l =>
    if isBetterBss c.entry cur.entry then c :: cur :: l else cur :: listInsertSorted c l

/-- The list of the candidates that a filter has let pass. -/
def scanList (cfg : ScoringConfig) (cs : List Candidate) : List Candidate :=
  cs.foldl (fun l c => listInsertSorted (c.scored cfg) l) []

end KernelModules.BssScore
