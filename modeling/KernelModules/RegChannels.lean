import KernelModules.Passes

/-!
# The regulatory channel list

The list in use is computed from the master list by a sequence of filters. What a channel may do is
kept twice, in its state and in its flags. Most of the filters take channels out and leave the rest
alone; two of them make channels passive.

A filter that reads and writes one channel at a time is given by what it makes of the channel at
each place.
-/

namespace KernelModules.RegChannels

inductive ChannelState where
  | disable | passive | dfs | enable | invalid
  deriving DecidableEq

inductive BandInfo where
  | all | band2G | band5G | unknown
  deriving DecidableEq

def regulatoryChanDisabled : BitVec 32 := BitVec.twoPow 32 0

def regulatoryChanNoIr : BitVec 32 := BitVec.twoPow 32 1

def regulatoryChanIndoorOnly : BitVec 32 := BitVec.twoPow 32 9

structure RegulatoryChannel where
  centerFreq : UInt32
  chanNum : UInt8
  state : ChannelState
  chanFlags : BitVec 32
  txPower : UInt32
  minBw : UInt16
  maxBw : UInt16
  antGain : UInt8
  nolChan : Bool
  deriving DecidableEq

namespace RegulatoryChannel

def hasFlag (c : RegulatoryChannel) (flag : BitVec 32) : Bool :=
  flag &&& c.chanFlags != 0

def disable (c : RegulatoryChannel) : RegulatoryChannel :=
  { c with state := .disable, chanFlags := c.chanFlags ||| regulatoryChanDisabled }

def makePassive (c : RegulatoryChannel) : RegulatoryChannel :=
  { c with state := .dfs, chanFlags := c.chanFlags ||| regulatoryChanNoIr }

end RegulatoryChannel

def numChannels (band6GHz : Bool) : ℕ :=
  if band6GHz then 156 else 97

def min24GhzChannel : ℕ := 0

def max24GhzChannel : ℕ := 13

def min5GhzChannel : ℕ := 56

def max5GhzChannel : ℕ := 96

def minUnii1BandChannel : ℕ := 56

def maxUnii1BandChannel : ℕ := 59

def minUnii2aBandChannel : ℕ := 60

def maxUnii2aBandChannel : ℕ := 63

abbrev ChanList (band6GHz : Bool) := Fin (numChannels band6GHz) → RegulatoryChannel

/-- The private object of a radio, with what is read of the map of channels and of the tables of
regulatory domains. -/
structure PdevPrivObj (band6GHz : Bool) where
  masChanList : ChanList band6GHz
  /-- As many of the cached channels as are filled in. -/
  cacheDisableChanList : List RegulatoryChannel
  disableCachedChannels : Bool
  unii5gBitmap : BitVec 8
  range2gLow : UInt32
  range2gHigh : UInt32
  range5gLow : UInt32
  range5gHigh : UInt32
  dfsEnabled : Bool
  setFccChannel : Bool
  bandCapability : BandInfo
  indoorChanEnabled : Bool
  enChan144 : Bool
  forceSscDisableIndoorChannel : Bool
  sapState : Bool
  /-- The 5 GHz domain, when the current one is found. -/
  dmnId5g : Option ℕ
  /-- Unset when the object of the chip is missing. -/
  enableSrdChanInMasterMode : Option Bool
  regMin5GhzChNum : UInt8
  regMax5GhzChNum : UInt8

section Limits

variable {b : Bool}

def RegulatoryChannel.lowEdge (c : RegulatoryChannel) : UInt32 :=
  c.centerFreq - (c.minBw / 2).toUInt32

def RegulatoryChannel.highEdge (c : RegulatoryChannel) : UInt32 :=
  c.centerFreq + (c.minBw / 2).toUInt32

def lowLimit (chanList : ChanList b) (lowFreq : UInt32) : Option (Fin (numChannels b)) :=
  (List.finRange (numChannels b)).find? fun k => decide (lowFreq ≤ (chanList k).lowEdge)

def highLimit (chanList : ChanList b) (highFreq : UInt32) : Option (Fin (numChannels b)) :=
  (List.finRange (numChannels b)).reverse.find? fun k => decide ((chanList k).highEdge ≤ highFreq)

def limitBw (c : RegulatoryChannel) (room : UInt32) : RegulatoryChannel :=
  let maxBw := if c.maxBw ≤ 20 then (room * 2).toUInt16 else c.maxBw
  { c with maxBw := if maxBw < c.minBw then c.minBw else maxBw }

def regFindLowLimitChanEnum (chanList : ChanList b) (lowFreq : UInt32) :
    ChanList b × Option (Fin (numChannels b)) :=
  match lowLimit chanList lowFreq with
  | none => (chanList, none)
  | some k =>
    let c := chanList k
    if c.centerFreq - (c.maxBw / 2).toUInt32 < lowFreq then
      (Function.update chanList k (limitBw c (c.centerFreq - lowFreq)), some k)
    else (chanList, some k)

def regFindHighLimitChanEnum (chanList : ChanList b) (highFreq : UInt32) :
    ChanList b × Option (Fin (numChannels b)) :=
  match highLimit chanList highFreq with
  | none => (chanList, none)
  | some k =>
    let c := chanList k
    if highFreq < c.centerFreq + (c.maxBw / 2).toUInt32 then
      (Function.update chanList k (limitBw c (highFreq - c.centerFreq)), some k)
    else (chanList, some k)

def between (low high : Option (Fin (numChannels b))) (k : Fin (numChannels b)) : Bool :=
  match low, high with
  | some low, some high => decide (low ≤ k ∧ k ≤ high)
  | _, _ => false

def regModifyChanListForFreqRange (chanList : ChanList b)
    (lowFreq2g highFreq2g lowFreq5g highFreq5g : UInt32) : ChanList b :=
  let (chanList, lowLimit2g) := regFindLowLimitChanEnum chanList lowFreq2g
  let (chanList, lowLimit5g) := regFindLowLimitChanEnum chanList lowFreq5g
  let (chanList, highLimit2g) := regFindHighLimitChanEnum chanList highFreq2g
  let (chanList, highLimit5g) := regFindHighLimitChanEnum chanList highFreq5g
  fun k =>
    if between lowLimit2g highLimit2g k || between lowLimit5g highLimit5g k then chanList k
    else (chanList k).disable

def regChanInRange (chanList : ChanList b) (lowFreq2g highFreq2g lowFreq5g highFreq5g : UInt32)
    (k : Fin (numChannels b)) : Bool :=
  between (lowLimit chanList lowFreq2g) (highLimit chanList highFreq2g) k ||
    between (lowLimit chanList lowFreq5g) (highLimit chanList highFreq5g) k

end Limits

section Filters

variable {b : Bool}

def disableWhere (c : Fin (numChannels b) → RegulatoryChannel → Bool) (chanList : ChanList b) :
    ChanList b :=
  fun k => if c k (chanList k) then (chanList k).disable else chanList k

def regModifyChanListForDfsChannels (chanList : ChanList b) (dfsEnabled : Bool) : ChanList b :=
  if dfsEnabled then chanList else disableWhere (fun _ c => decide (c.state = .dfs)) chanList

def disableFromTo (first last : ℕ) : ChanList b → ChanList b :=
  disableWhere fun k _ => decide (first ≤ k ∧ k ≤ last)

def regModifyChanListForBand (chanList : ChanList b) (bandVal : BandInfo) : ChanList b :=
  let chanList :=
    if bandVal = .band2G then disableFromTo min5GhzChannel max5GhzChannel chanList else chanList
  if bandVal = .band5G then disableFromTo min24GhzChannel max24GhzChannel chanList else chanList

def regIsRegUniiBand1Set (uniiBitmap : BitVec 8) : Bool :=
  uniiBitmap.getLsbD 0

def regIsRegUniiBand2aSet (uniiBitmap : BitVec 8) : Bool :=
  uniiBitmap.getLsbD 1

def regIs5gEnum (k : ℕ) : Bool :=
  decide (min5GhzChannel ≤ k ∧ k ≤ max5GhzChannel)

def regRemoveUniiChanFromChanList (chanList : ChanList b) (startEnum endEnum : ℕ) : ChanList b :=
  if regIs5gEnum startEnum && regIs5gEnum endEnum then disableFromTo startEnum endEnum chanList
  else chanList

def regModifyDisableChanListForUnii1AndUnii2a (chanList : ChanList b) (uniiBitmap : BitVec 8) :
    ChanList b :=
  let chanList :=
    if regIsRegUniiBand1Set uniiBitmap then
      regRemoveUniiChanFromChanList chanList minUnii1BandChannel maxUnii1BandChannel
    else chanList
  if regIsRegUniiBand2aSet uniiBitmap then
    regRemoveUniiChanFromChanList chanList minUnii2aBandChannel maxUnii2aBandChannel
  else chanList

def regModifyChanListForNolList : ChanList b → ChanList b :=
  disableWhere fun _ c => c.nolChan

/-- The channels for indoor use only become passive, whatever they were, and then may be taken
out. -/
def regModifyChanListForIndoorChannels (p : PdevPrivObj b) (chanList : ChanList b) : ChanList b :=
  let chanList :=
    if p.indoorChanEnabled then chanList
    else fun k =>
      if (chanList k).hasFlag regulatoryChanIndoorOnly then (chanList k).makePassive else chanList k
  if p.forceSscDisableIndoorChannel && p.sapState then
    disableWhere (fun _ c => c.hasFlag regulatoryChanIndoorOnly) chanList
  else chanList

def chan12CentFreq : UInt32 := 2467

def chan13CentFreq : UInt32 := 2472

def chan144CentFreq : UInt32 := 5720

def maxPwrFccChan12 : UInt32 := 8

def maxPwrFccChan13 : UInt32 := 2

def regModifyChanListForFccChannel (chanList : ChanList b) (setFccChannel : Bool) : ChanList b :=
  if setFccChannel then
    fun k =>
      let c := chanList k
      if c.centerFreq = chan12CentFreq then { c with txPower := maxPwrFccChan12 }
      else if c.centerFreq = chan13CentFreq then { c with txPower := maxPwrFccChan13 }
      else c
  else chanList

def regModifyChanListForChan144 (chanList : ChanList b) (enChan144 : Bool) : ChanList b :=
  if enChan144 then chanList
  else disableWhere (fun _ c => decide (c.centerFreq = chan144CentFreq)) chanList

def regModifyChanListForCachedChannels (p : PdevPrivObj b) (chanList : ChanList b) : ChanList b :=
  if p.disableCachedChannels then
    p.cacheDisableChanList.foldl
      (fun chanList cached => disableWhere (fun _ c => decide (cached.chanNum = c.chanNum)) chanList)
      chanList
  else chanList

def etsi13 (b : Bool) : ℕ :=
  if b then 23 else 20

def regIsEtsi13Regdmn (p : PdevPrivObj b) : Bool :=
  match p.dmnId5g with
  | none => false
  | some dmn => decide (dmn = etsi13 b)

def regIsEtsi13SrdChanAllowedMasterMode (p : PdevPrivObj b) : Bool :=
  match p.enableSrdChanInMasterMode with
  | none => true
  | some enabled => enabled && regIsEtsi13Regdmn p

/-- The first channel in range that bears the number. -/
def regChanToFreq (p : PdevPrivObj b) (chanList : ChanList b) (chanNum : UInt8) : UInt32 :=
  if chanNum = 0 then 0
  else
    match (List.finRange (numChannels b)).find? fun k =>
        decide ((chanList k).chanNum = chanNum) &&
          regChanInRange chanList p.range2gLow p.range2gHigh p.range5gLow p.range5gHigh k with
    | none => 0
    | some k => (chanList k).centerFreq

def regEtsi13SrdStartFreq : UInt32 := 5745

def regEtsi13SrdEndFreq : UInt32 := 5865

def regIsEtsi13SrdChan (p : PdevPrivObj b) (chanList : ChanList b) (chan : UInt8) : Bool :=
  decide (p.regMin5GhzChNum ≤ chan ∧ chan ≤ p.regMax5GhzChNum) &&
    (let freq := regChanToFreq p chanList chan
     decide (regEtsi13SrdStartFreq ≤ freq ∧ freq ≤ regEtsi13SrdEndFreq)) &&
    regIsEtsi13Regdmn p

def isLiveSrdChan (p : PdevPrivObj b) (chanList : ChanList b) (k : Fin (numChannels b)) : Bool :=
  !(chanList k).hasFlag regulatoryChanDisabled &&
    regIsEtsi13SrdChan p chanList (chanList k).chanNum

def regModifyChanListForSrdChannels (p : PdevPrivObj b) (chanList : ChanList b) : ChanList b :=
  if !regIsEtsi13Regdmn p then chanList
  else if regIsEtsi13SrdChanAllowedMasterMode p then chanList
  else
    Passes.inPlace (isLiveSrdChan p) RegulatoryChannel.makePassive
      (List.finRange (numChannels b)) chanList

def regComputePdevCurrentChanList (p : PdevPrivObj b) : ChanList b :=
  let curChanList := p.masChanList
  let curChanList := regModifyChanListForFreqRange curChanList p.range2gLow p.range2gHigh
    p.range5gLow p.range5gHigh
  let curChanList := regModifyChanListForBand curChanList p.bandCapability
  let curChanList := regModifyDisableChanListForUnii1AndUnii2a curChanList p.unii5gBitmap
  let curChanList := regModifyChanListForDfsChannels curChanList p.dfsEnabled
  let curChanList := regModifyChanListForNolList curChanList
  let curChanList := regModifyChanListForIndoorChannels p curChanList
  let curChanList := regModifyChanListForFccChannel curChanList p.setFccChannel
  let curChanList := regModifyChanListForChan144 curChanList p.enChan144
  let curChanList := regModifyChanListForCachedChannels p curChanList
  regModifyChanListForSrdChannels p curChanList

end Filters

end KernelModules.RegChannels
