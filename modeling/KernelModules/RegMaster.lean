import KernelModules.RegChannelMap

/-!
# Taking over a country

The firmware reports the rules of a country, and the master list is built anew from them. What the
rules say nothing about is not written.
-/

namespace KernelModules.RegChannels

variable {b : Bool}

inductive QdfStatus where
  | success | eFailure | eFault | eInval
  deriving DecidableEq

inductive CountrySrc where
  | unknown | query | core | driver | userspace | ieee80211d
  deriving DecidableEq

inductive CcSettingCode where
  | pass | currentAlpha2NotFound | initAlpha2NotFound | changeNotAllowed | noMemory | fail

abbrev Alpha2 := UInt8 × UInt8

structure CurRegRule where
  startFreq : UInt16
  endFreq : UInt16
  maxBw : UInt16
  regPower : UInt8
  antGain : UInt8
  flags : BitVec 16

def CurRegRule.hasFlag (r : CurRegRule) (flag : BitVec 32) : Bool :=
  r.flags.setWidth 32 &&& flag != 0

structure CurRegulatoryInfo where
  statusCode : CcSettingCode
  numPhy : UInt8
  phyId : UInt8
  regDmnPair : UInt16
  alpha2 : Alpha2
  dfsRegion : DfsReg
  minBw2g : UInt32
  maxBw2g : UInt32
  minBw5g : UInt32
  maxBw5g : UInt32
  regRules2g : List CurRegRule
  regRules5g : List CurRegRule

structure TxOps where
  pdevAttached : Bool
  setCountryCode : QdfStatus
  sendCtlInfo : QdfStatus

/-- The private object of the chip, as far as it concerns one phy. -/
structure PsocPrivObj (b : Bool) where
  masChanList : ChanList b
  dfsRegion : DfsReg
  regDmnPair : UInt16
  chanListRecvd : Bool
  numPhy : UInt8
  curCountry : Alpha2
  offloadEnabled : Bool
  ccSrc : CountrySrc
  newUserCtryPending : Bool
  newInitCtryPending : Bool
  new11dCtryPending : Bool
  worldCountryPending : Bool
  retainNolAcrossRegdmnUpdate : Bool

def regulatoryChanRadar : BitVec 32 := BitVec.twoPow 32 3

def regulatoryChanNoOfdm : BitVec 32 := BitVec.twoPow 32 6

def regUpdateMaxBwPerRule (rules : List CurRegRule) (maxBw : UInt16) : List CurRegRule :=
  rules.map fun r => { r with maxBw := min r.maxBw maxBw }

def jointBw (maxBw bw bw' : UInt16) : UInt16 :=
  UInt16.ofNat (min maxBw.toNat (bw.toNat + bw'.toNat))

/-- The loop is at the rule `r`, which may have been widened before. -/
def autoBwCorrection (maxBw : UInt16) (r : CurRegRule) : List CurRegRule → List CurRegRule
  | [] => [r]
  | r' :: rules =>
    if r.endFreq = r'.startFreq then
      let newBw := jointBw maxBw r.maxBw r'.maxBw
      { r with maxBw := newBw } :: autoBwCorrection maxBw { r' with maxBw := newBw } rules
    else r :: autoBwCorrection maxBw r' rules

def regDoAutoBwCorrection (maxBw : UInt16) : List CurRegRule → List CurRegRule
  | [] => []
  | r :: rules => autoBwCorrection maxBw r rules

def CurRegRule.spans (r : CurRegRule) (centerFreq : UInt32) (bw : UInt16) : Bool :=
  decide (r.startFreq.toUInt32 ≤ centerFreq - bw.toUInt32 / 2 ∧
    centerFreq + bw.toUInt32 / 2 ≤ r.endFreq.toUInt32)

/-- The bandwidths that are tried: no map has a width below 2, so that five of them are enough for
the 20 that the loop starts with. -/
def bandwidths (maxBw minBw : UInt16) : List UInt16 :=
  [maxBw, maxBw / 2, maxBw / 4, maxBw / 8, maxBw / 16].takeWhile fun bw => decide (minBw ≤ bw)

def regFindRule (rules : List CurRegRule) (centerFreq : UInt32) (bws : List UInt16) :
    Option (CurRegRule × UInt16) :=
  bws.findSome? fun bw => (rules.find? fun r => r.spans centerFreq bw).map fun r => (r, bw)

def markChannel (mark : BitVec 32) (c : RegulatoryChannel) : RegulatoryChannel :=
  { c with chanFlags := c.chanFlags ||| mark }

def regFillChannelInfo (r : CurRegRule) (minBw : UInt16) (c : RegulatoryChannel) :
    RegulatoryChannel :=
  let c := { c with
    chanFlags := c.chanFlags &&& ~~~regulatoryChanDisabled
    txPower := r.regPower.toUInt32
    antGain := r.antGain
    state := .enable }
  let c := if r.hasFlag regulatoryChanNoIr then
    { markChannel regulatoryChanNoIr c with state := .dfs } else c
  let c := if r.hasFlag regulatoryChanRadar then
    { markChannel regulatoryChanRadar c with state := .dfs } else c
  let c := if r.hasFlag regulatoryChanIndoorOnly then markChannel regulatoryChanIndoorOnly c else c
  let c := if r.hasFlag regulatoryChanNoOfdm then markChannel regulatoryChanNoOfdm c else c
  let c : RegulatoryChannel := { c with minBw := minBw }
  if c.maxBw = 20 then { c with maxBw := r.maxBw } else c

/-- One turn of the loop over a band; `wide` says that the band has no channels below 20 MHz. -/
def populateChannel (wide : Bool) (rules : List CurRegRule) (minRegBw : UInt16) (m : ChanMap)
    (c : RegulatoryChannel) : RegulatoryChannel :=
  if m.chanNum = invalidChannelNum then c
  else
    let minBw := max minRegBw m.minBw
    match regFindRule rules c.centerFreq (bandwidths (min 20 m.maxBw) minBw) with
    | none => c
    | some (r, bw) =>
      let c := regFillChannelInfo r minBw { c with maxBw := bw }
      if wide && decide (c.maxBw < 20) then c.disable else c

def regPopulateBandChannels (startChan endChan : ℕ) (rules : List CurRegRule) (minRegBw : UInt16)
    (map : Fin (numChannels b) → ChanMap) (masChanList : ChanList b) : ChanList b :=
  fun k =>
    if startChan ≤ k ∧ k ≤ endChan then
      populateChannel (decide (startChan = min24GhzChannel)) rules minRegBw (map k) (masChanList k)
    else masChanList k

def min49GhzChannel : ℕ := 14

def max49GhzChannel : ℕ := 55

def min6GhzChannel : ℕ := 97

def max6GhzChannel : ℕ := 155

def regPopulate6gBandChannels (rules : List CurRegRule) (minRegBw : UInt16)
    (map : Fin (numChannels b) → ChanMap) (masChanList : ChanList b) : ChanList b :=
  if b then regPopulateBandChannels min6GhzChannel max6GhzChannel rules minRegBw map masChanList
  else masChanList

def CurRegulatoryInfo.rules2g (info : CurRegulatoryInfo) : List CurRegRule :=
  regUpdateMaxBwPerRule info.regRules2g info.maxBw2g.toUInt16

def CurRegulatoryInfo.rules5g (info : CurRegulatoryInfo) : List CurRegRule :=
  regDoAutoBwCorrection info.maxBw5g.toUInt16
    (regUpdateMaxBwPerRule info.regRules5g info.maxBw5g.toUInt16)

def resetChannel (retainNol : Bool) (m : ChanMap) (c : RegulatoryChannel) : RegulatoryChannel :=
  { c with
    chanNum := m.chanNum
    centerFreq := m.centerFreq
    chanFlags := regulatoryChanDisabled
    state := .disable
    nolChan := if retainNol then c.nolChan else false }

def populateMasChanList (info : CurRegulatoryInfo) (map : Fin (numChannels b) → ChanMap)
    (masChanList : ChanList b) : ChanList b :=
  let masChanList :=
    if info.rules2g = [] then masChanList
    else regPopulateBandChannels min24GhzChannel max24GhzChannel info.rules2g
      info.minBw2g.toUInt16 map masChanList
  if info.rules5g = [] then masChanList
  else
    let minBw5g := info.minBw5g.toUInt16
    let masChanList := regPopulateBandChannels min5GhzChannel max5GhzChannel info.rules5g minBw5g
      map masChanList
    let masChanList := regPopulateBandChannels min49GhzChannel max49GhzChannel info.rules5g minBw5g
      map masChanList
    regPopulate6gBandChannels info.rules5g minBw5g map masChanList

namespace PsocPrivObj

def regIgnoreDefaultCountry (soc : PsocPrivObj b) : Bool :=
  soc.offloadEnabled && decide (soc.ccSrc ≠ .unknown) &&
    !(soc.newUserCtryPending || soc.newInitCtryPending || soc.new11dCtryPending ||
      soc.worldCountryPending)

def regResetCtryPendingHints (soc : PsocPrivObj b) : PsocPrivObj b :=
  if soc.offloadEnabled then
    { soc with
      newUserCtryPending := false
      newInitCtryPending := false
      new11dCtryPending := false
      worldCountryPending := false }
  else soc

def regSetCurrCountry (ops : TxOps) (info : CurRegulatoryInfo) (soc : PsocPrivObj b) :
    QdfStatus × PsocPrivObj b :=
  if info.numPhy.toNat ≠ info.phyId.toNat + 1 ∨ soc.curCountry = info.alpha2 then (.success, soc)
  else
    let soc :=
      if soc.ccSrc = .userspace then { soc with newUserCtryPending := true }
      else if soc.ccSrc = .ieee80211d then { soc with new11dCtryPending := true }
      else { soc with worldCountryPending := true }
    match ops.setCountryCode with
    | .success => (.success, soc)
    | status => (status, soc.regResetCtryPendingHints)

def regIsWorldAlpha2 (alpha2 : Alpha2) : Bool :=
  decide (alpha2 = (48, 48))

/-- Who asked for the country. -/
def settleCountry (info : CurRegulatoryInfo) (soc : PsocPrivObj b) : PsocPrivObj b :=
  if soc.newUserCtryPending then { soc with newUserCtryPending := false, ccSrc := .userspace }
  else if soc.newInitCtryPending then
    { soc with newInitCtryPending := false, ccSrc := .userspace }
  else if soc.new11dCtryPending then
    { soc with new11dCtryPending := false, ccSrc := .ieee80211d }
  else if soc.worldCountryPending then { soc with worldCountryPending := false, ccSrc := .core }
  else
    let soc :=
      if soc.ccSrc = .unknown ∧ soc.numPhy.toNat = info.phyId.toNat + 1 then
        { soc with ccSrc := .driver }
      else soc
    if soc.ccSrc = .driver ∧ regIsWorldAlpha2 info.alpha2 = true then { soc with ccSrc := .core }
    else soc

def maxRegRules : ℕ := 10

/-- The report once it is not ignored and names a country. -/
def takeOver (featureDsrc : Bool) (ops : TxOps) (info : CurRegulatoryInfo) (soc : PsocPrivObj b) :
    QdfStatus × PsocPrivObj b :=
  let map := channelMap featureDsrc info.dfsRegion
  let soc := { soc with
    masChanList := fun k =>
      resetChannel soc.retainNolAcrossRegdmnUpdate (map k) (soc.masChanList k)
    numPhy := info.numPhy
    dfsRegion := info.dfsRegion
    regDmnPair := info.regDmnPair
    curCountry := info.alpha2 }
  if maxRegRules < info.regRules5g.length + info.regRules2g.length then (.eFailure, soc)
  else
    let soc := { soc with
      masChanList := populateMasChanList info map soc.masChanList
      chanListRecvd := true }
    match if soc.offloadEnabled then .success else ops.sendCtlInfo with
    | .success => (.success, soc.settleCountry info)
    | status => (status, soc)

def process (featureDsrc : Bool) (ops : TxOps) (info : CurRegulatoryInfo) (soc : PsocPrivObj b) :
    QdfStatus × PsocPrivObj b :=
  match info.statusCode with
  | .pass => soc.takeOver featureDsrc ops info
  | .currentAlpha2NotFound =>
    if ops.pdevAttached then
      { soc with
        newUserCtryPending := false
        new11dCtryPending := false
        worldCountryPending := true }.takeOver featureDsrc ops info
    else (.eFailure, soc)
  | _ => (.eFailure, soc)

/-- At a restart of the chip the reports are ignored, and the country in use is asked for again. -/
def regProcessMasterChanList (featureDsrc : Bool) (ops : TxOps) (info : CurRegulatoryInfo)
    (soc : PsocPrivObj b) : QdfStatus × PsocPrivObj b :=
  if soc.regIgnoreDefaultCountry then
    match soc.regSetCurrCountry ops info with
    | (.success, soc) => (.success, soc)
    | (_, soc) => soc.process featureDsrc ops info
  else soc.process featureDsrc ops info

/-- Zeroed memory, with every channel disabled. -/
def created (b : Bool) : PsocPrivObj b where
  masChanList _ :=
    { centerFreq := 0
      chanNum := 0
      state := .disable
      chanFlags := regulatoryChanDisabled
      txPower := 0
      minBw := 0
      maxBw := 0
      antGain := 0
      nolChan := false }
  dfsRegion := .uninit
  regDmnPair := 0
  chanListRecvd := false
  numPhy := 0
  curCountry := (0, 0)
  offloadEnabled := false
  ccSrc := .unknown
  newUserCtryPending := false
  newInitCtryPending := false
  new11dCtryPending := false
  worldCountryPending := false
  retainNolAcrossRegdmnUpdate := false

end PsocPrivObj

inductive Event (b : Bool) where
  | report (ops : TxOps) (info : CurRegulatoryInfo)
  /-- The rest of the driver may write all of the object but its master list, where it marks the
  channels on which radar was heard. -/
  | elsewhere (soc : PsocPrivObj b) (nolChan : Fin (numChannels b) → Bool)

namespace PsocPrivObj

def step (featureDsrc : Bool) (soc : PsocPrivObj b) : Event b → PsocPrivObj b
  | .report ops info => (soc.regProcessMasterChanList featureDsrc ops info).2
  | .elsewhere soc' nolChan =>
    { soc' with masChanList := fun k => { soc.masChanList k with nolChan := nolChan k } }

def after (featureDsrc : Bool) (es : List (Event b)) : PsocPrivObj b :=
  es.foldl (step featureDsrc) (created b)

end PsocPrivObj

structure Build where
  featureDsrc : Bool
  disableJpCh144 : Bool
  dmnId5gOf : UInt16 → Option ℕ

def mkk17Mkkc : UInt16 := 0xE1

def first5Ghz (b : Bool) : Fin (numChannels b) :=
  ⟨min5GhzChannel, by cases b <;> decide⟩

def last5Ghz (b : Bool) : Fin (numChannels b) :=
  ⟨max5GhzChannel, by cases b <;> decide⟩

namespace PdevPrivObj

def regInitPdevMasChanList (B : Build) (soc : PsocPrivObj b) (p : PdevPrivObj b) :
    PdevPrivObj b :=
  { p with
    masChanList := soc.masChanList
    dmnId5g := B.dmnId5gOf soc.regDmnPair
    regMin5GhzChNum := (channelMap B.featureDsrc soc.dfsRegion (first5Ghz b)).chanNum
    regMax5GhzChNum := (channelMap B.featureDsrc soc.dfsRegion (last5Ghz b)).chanNum }

def regModifyChanListForJapan (B : Build) (regDmnPair : UInt16) (p : PdevPrivObj b) :
    PdevPrivObj b :=
  if B.disableJpCh144 && decide (regDmnPair = mkk17Mkkc) then { p with enChan144 := false } else p

def regPropagateMasChanListToPdev (B : Build) (soc : PsocPrivObj b) (p : PdevPrivObj b) :
    PdevPrivObj b :=
  (p.regInitPdevMasChanList B soc).regModifyChanListForJapan B soc.regDmnPair

end PdevPrivObj

end KernelModules.RegChannels
