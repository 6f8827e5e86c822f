import KernelModules.RegFilters

/-!
# What the channel filters make of a channel

Each filter has a condition on which it acts. The channel of the list in use is the one of the master
list, with its width cut at the limits of the range, and then disabled, made passive or left alone
as the conditions say.
-/

namespace KernelModules.RegChannels

open RegulatoryChannel

variable {b : Bool}

section Forms

open Classical

noncomputable def offWhen (P : Prop) (c : RegulatoryChannel) : RegulatoryChannel :=
  if P then c.disable else c

noncomputable def passiveWhen (P : Prop) (c : RegulatoryChannel) : RegulatoryChannel :=
  if P then c.makePassive else c

variable {P Q : Prop} {c : RegulatoryChannel}

theorem offWhen_of (h : P) : offWhen P c = c.disable := if_pos h

theorem offWhen_of_not (h : ¬ P) : offWhen P c = c := if_neg h

theorem passiveWhen_of (h : P) : passiveWhen P c = c.makePassive := if_pos h

theorem passiveWhen_of_not (h : ¬ P) : passiveWhen P c = c := if_neg h

@[simp] theorem offWhen_true : offWhen True c = c.disable := if_pos trivial

@[simp] theorem offWhen_false : offWhen False c = c := if_neg id

@[simp] theorem passiveWhen_true : passiveWhen True c = c.makePassive := if_pos trivial

@[simp] theorem passiveWhen_false : passiveWhen False c = c := if_neg id

@[simp] theorem disable_disable (c : RegulatoryChannel) : c.disable.disable = c.disable := by
  simp only [disable, BitVec.or_assoc, BitVec.or_self]

theorem offWhen_offWhen (P Q : Prop) (c : RegulatoryChannel) :
    offWhen Q (offWhen P c) = offWhen (P ∨ Q) c := by
  by_cases hp : P
  · by_cases hq : Q
    · simp [offWhen, hp, hq]
    · simp [offWhen, hp, hq]
  · simp [offWhen, hp]

theorem offWhen_offWhen_congr {R : Prop} (h : ¬ P → (Q ↔ R)) :
    offWhen Q (offWhen P c) = offWhen (P ∨ R) c := by
  rw [offWhen_offWhen]
  by_cases hp : P
  · simp [offWhen, hp]
  · simp [offWhen, hp, h hp]

theorem ite_offWhen {h : Prop} [Decidable h] {f : ChanList b → ChanList b} {l : ChanList b}
    {k : Fin (numChannels b)} (hf : f l k = offWhen P (l k)) :
    (if h then f l else l) k = offWhen (h ∧ P) (l k) := by
  split_ifs with hh
  · simp [offWhen, hh, hf]
  · simp [offWhen, hh]

theorem offWhen_same (P : Prop) (c : RegulatoryChannel) : SameChannel c (offWhen P c) := by
  by_cases hp : P
  · rw [offWhen_of hp]
    exact (restricts_disable c).same
  · rw [offWhen_of_not hp]
    exact .refl c

theorem passiveWhen_same (P : Prop) (c : RegulatoryChannel) : SameChannel c (passiveWhen P c) := by
  by_cases hp : P
  · rw [passiveWhen_of hp]
    exact ⟨rfl, rfl, rfl, rfl, makePassive_indoor c⟩
  · rw [passiveWhen_of_not hp]
    exact .refl c

end Forms

section Limits

def RegulatoryChannel.withMaxBw (c : RegulatoryChannel) (m : UInt16) : RegulatoryChannel :=
  { c with maxBw := m }

@[simp] theorem withMaxBw_centerFreq (c : RegulatoryChannel) (m : UInt16) :
    (c.withMaxBw m).centerFreq = c.centerFreq := rfl

@[simp] theorem withMaxBw_state (c : RegulatoryChannel) (m : UInt16) :
    (c.withMaxBw m).state = c.state := rfl

@[simp] theorem withMaxBw_hasFlag (c : RegulatoryChannel) (m : UInt16) (flag : BitVec 32) :
    (c.withMaxBw m).hasFlag flag = c.hasFlag flag := rfl

theorem withMaxBw_eq_iff {c d : RegulatoryChannel} (h : c.maxBw = d.maxBw) (m m' : UInt16) :
    c.withMaxBw m = d.withMaxBw m' ↔ m = m' ∧ c = d := by
  constructor
  · intro heq
    refine ⟨congrArg RegulatoryChannel.maxBw heq, ?_⟩
    have hback := congrArg (fun e : RegulatoryChannel => e.withMaxBw c.maxBw) heq
    change c = d.withMaxBw c.maxBw at hback
    rw [h] at hback
    exact hback
  · intro ⟨hm, hcd⟩
    rw [hm, hcd]

def cutLow (lowFreq : UInt32) (c : RegulatoryChannel) : RegulatoryChannel :=
  if c.centerFreq - (c.maxBw / 2).toUInt32 < lowFreq then limitBw c (c.centerFreq - lowFreq) else c

def cutHigh (highFreq : UInt32) (c : RegulatoryChannel) : RegulatoryChannel :=
  if highFreq < c.centerFreq + (c.maxBw / 2).toUInt32 then limitBw c (highFreq - c.centerFreq)
  else c

/-- The channel is cut at every limit that was found to be it, one after the other. -/
def cutAt (l : ChanList b) (low2g high2g low5g high5g : UInt32) (k : Fin (numChannels b))
    (c : RegulatoryChannel) : RegulatoryChannel :=
  let c := if lowLimit l low2g = some k then cutLow low2g c else c
  let c := if lowLimit l low5g = some k then cutLow low5g c else c
  let c := if highLimit l high2g = some k then cutHigh high2g c else c
  if highLimit l high5g = some k then cutHigh high5g c else c

/-- The cuts at the limits of a radio. -/
def cut (p : PdevPrivObj b) (k : Fin (numChannels b)) (c : RegulatoryChannel) :
    RegulatoryChannel :=
  let c := if lowLimit p.masChanList p.range2gLow = some k then cutLow p.range2gLow c else c
  let c := if lowLimit p.masChanList p.range5gLow = some k then cutLow p.range5gLow c else c
  let c := if highLimit p.masChanList p.range2gHigh = some k then cutHigh p.range2gHigh c else c
  if highLimit p.masChanList p.range5gHigh = some k then cutHigh p.range5gHigh c else c

theorem regFindLowLimitChanEnum_apply (l : ChanList b) (lowFreq : UInt32)
    (k : Fin (numChannels b)) :
    (regFindLowLimitChanEnum l lowFreq).1 k =
      if lowLimit l lowFreq = some k then cutLow lowFreq (l k) else l k := by
  unfold regFindLowLimitChanEnum cutLow
  cases lowLimit l lowFreq with
  | none => simp
  | some j =>
    by_cases hjk : j = k
    · subst j
      dsimp only
      split_ifs <;> simp_all
    · have hkj : k ≠ j := fun h => hjk h.symm
      dsimp only
      split_ifs <;> simp_all

theorem regFindHighLimitChanEnum_apply (l : ChanList b) (highFreq : UInt32)
    (k : Fin (numChannels b)) :
    (regFindHighLimitChanEnum l highFreq).1 k =
      if highLimit l highFreq = some k then cutHigh highFreq (l k) else l k := by
  unfold regFindHighLimitChanEnum cutHigh
  cases highLimit l highFreq with
  | none => simp
  | some j =>
    by_cases hjk : j = k
    · subst j
      dsimp only
      split_ifs <;> simp_all
    · have hkj : k ≠ j := fun h => hjk h.symm
      dsimp only
      split_ifs <;> simp_all

theorem regModifyChanListForFreqRange_cuts (l : ChanList b) (low2g high2g low5g high5g : UInt32)
    (k : Fin (numChannels b)) :
    regModifyChanListForFreqRange l low2g high2g low5g high5g k =
      if regChanInRange l low2g high2g low5g high5g k then
        cutAt l low2g high2g low5g high5g k (l k)
      else (cutAt l low2g high2g low5g high5g k (l k)).disable := by
  obtain ⟨h1, hlow2g⟩ := regFindLowLimitChanEnum_spec l low2g
  have hcut1 := regFindLowLimitChanEnum_apply l low2g k
  generalize hfind1 : regFindLowLimitChanEnum l low2g = r1 at h1 hlow2g hcut1
  obtain ⟨h2, hlow5g⟩ := regFindLowLimitChanEnum_spec r1.1 low5g
  have hcut2 := regFindLowLimitChanEnum_apply r1.1 low5g k
  generalize hfind2 : regFindLowLimitChanEnum r1.1 low5g = r2 at h2 hlow5g hcut2
  obtain ⟨h3, hhigh2g⟩ := regFindHighLimitChanEnum_spec r2.1 high2g
  have hcut3 := regFindHighLimitChanEnum_apply r2.1 high2g k
  generalize hfind3 : regFindHighLimitChanEnum r2.1 high2g = r3 at h3 hhigh2g hcut3
  obtain ⟨h4, hhigh5g⟩ := regFindHighLimitChanEnum_spec r3.1 high5g
  have hcut4 := regFindHighLimitChanEnum_apply r3.1 high5g k
  generalize hfind4 : regFindHighLimitChanEnum r3.1 high5g = r4 at h4 hhigh5g hcut4
  have h12 (k : Fin (numChannels b)) : Tuned (l k) (r2.1 k) := (h1 k).trans (h2 k)
  have h13 (k : Fin (numChannels b)) : Tuned (l k) (r3.1 k) := (h12 k).trans (h3 k)
  rw [lowLimit_congr fun k => (h1 k).same] at hlow5g hcut2
  rw [highLimit_congr fun k => (h12 k).same] at hhigh2g hcut3
  rw [highLimit_congr fun k => (h13 k).same] at hhigh5g hcut4
  have hcut : r4.1 k = cutAt l low2g high2g low5g high5g k (l k) := by
    rw [hcut4, hcut3, hcut2, hcut1]
    rfl
  have hrange : regChanInRange l low2g high2g low5g high5g k =
      (between r1.2 r3.2 k || between r2.2 r4.2 k) := by
    rw [hlow2g, hlow5g, hhigh2g, hhigh5g]
    rfl
  rw [← hcut, hrange, regModifyChanListForFreqRange]
  simp only [hfind1, hfind2, hfind3, hfind4]

theorem regModifyChanListForFreqRange_apply (p : PdevPrivObj b) (k : Fin (numChannels b)) :
    regModifyChanListForFreqRange p.masChanList p.range2gLow p.range2gHigh p.range5gLow
        p.range5gHigh k = offWhen (OutOfRange p k) (cut p k (p.masChanList k)) := by
  rw [regModifyChanListForFreqRange_cuts]
  by_cases hin : regChanInRange p.masChanList p.range2gLow p.range2gHigh p.range5gLow
    p.range5gHigh k = true
  · rw [if_pos hin, offWhen_of_not (by simp [OutOfRange, hin])]
    rfl
  · rw [if_neg hin, offWhen_of (by simpa [OutOfRange] using hin)]
    rfl

theorem cutLow_eq (lowFreq : UInt32) (c : RegulatoryChannel) :
    ∃ m, cutLow lowFreq c = c.withMaxBw m := by
  unfold cutLow
  split_ifs
  · exact ⟨_, rfl⟩
  · exact ⟨c.maxBw, rfl⟩

theorem cutHigh_eq (highFreq : UInt32) (c : RegulatoryChannel) :
    ∃ m, cutHigh highFreq c = c.withMaxBw m := by
  unfold cutHigh
  split_ifs
  · exact ⟨_, rfl⟩
  · exact ⟨c.maxBw, rfl⟩

theorem cutAt_eq (l : ChanList b) (low2g high2g low5g high5g : UInt32) (k : Fin (numChannels b))
    (c : RegulatoryChannel) :
    cutAt l low2g high2g low5g high5g k c =
      c.withMaxBw (cutAt l low2g high2g low5g high5g k c).maxBw := by
  have hite {P : Prop} [Decidable P] {f : RegulatoryChannel → RegulatoryChannel}
      (hf : ∀ c, ∃ m, f c = c.withMaxBw m) (d : RegulatoryChannel) (hd : ∃ m, d = c.withMaxBw m) :
      ∃ m, (if P then f d else d) = c.withMaxBw m := by
    obtain ⟨m, rfl⟩ := hd
    split_ifs
    · obtain ⟨m', hm'⟩ := hf (c.withMaxBw m)
      exact ⟨m', hm'⟩
    · exact ⟨m, rfl⟩
  have hcut : ∃ m, cutAt l low2g high2g low5g high5g k c = c.withMaxBw m :=
    hite (cutHigh_eq _) _ (hite (cutHigh_eq _) _ (hite (cutLow_eq _) _
      (hite (cutLow_eq _) c ⟨c.maxBw, rfl⟩)))
  obtain ⟨m, hm⟩ := hcut
  rw [hm]
  rfl

theorem cut_eq (p : PdevPrivObj b) (k : Fin (numChannels b)) (c : RegulatoryChannel) :
    cut p k c = c.withMaxBw (cut p k c).maxBw := cutAt_eq ..

end Limits

section Filters

variable (l : ChanList b) (k : Fin (numChannels b))

theorem disableWhere_apply (c : Fin (numChannels b) → RegulatoryChannel → Bool) :
    disableWhere c l k = offWhen (c k (l k) = true) (l k) := by
  unfold disableWhere offWhen
  split_ifs <;> rfl

theorem disableFromTo_apply (first last : ℕ) :
    disableFromTo first last l k = offWhen (first ≤ k ∧ k ≤ last) (l k) := by
  rw [disableFromTo, disableWhere_apply, decide_eq_true_eq]

theorem regModifyChanListForBand_apply (p : PdevPrivObj b) :
    regModifyChanListForBand l p.bandCapability k = offWhen (OutOfBand p k) (l k) := by
  rw [regModifyChanListForBand, ite_offWhen (disableFromTo_apply _ k _ _),
    ite_offWhen (disableFromTo_apply l k _ _), offWhen_offWhen]
  rfl

theorem regRemoveUniiChanFromChanList_apply {first last : ℕ}
    (h : (regIs5gEnum first && regIs5gEnum last) = true) :
    regRemoveUniiChanFromChanList l first last k = offWhen (first ≤ k ∧ k ≤ last) (l k) := by
  unfold regRemoveUniiChanFromChanList
  rw [if_pos h, disableFromTo_apply]

theorem regModifyDisableChanListForUnii1AndUnii2a_apply (p : PdevPrivObj b) :
    regModifyDisableChanListForUnii1AndUnii2a l p.unii5gBitmap k =
      offWhen (InUniiRemoved p k) (l k) := by
  have h1 := ite_offWhen (h := regIsRegUniiBand1Set p.unii5gBitmap = true)
    (f := fun l => regRemoveUniiChanFromChanList l minUnii1BandChannel maxUnii1BandChannel)
    (regRemoveUniiChanFromChanList_apply l k (by decide))
  have h2 (l : ChanList b) := ite_offWhen (h := regIsRegUniiBand2aSet p.unii5gBitmap = true)
    (f := fun l => regRemoveUniiChanFromChanList l minUnii2aBandChannel maxUnii2aBandChannel)
    (regRemoveUniiChanFromChanList_apply l k (by decide))
  rw [regModifyDisableChanListForUnii1AndUnii2a, h2, h1, offWhen_offWhen]
  rfl

theorem regModifyChanListForDfsChannels_apply (dfsEnabled : Bool) :
    regModifyChanListForDfsChannels l dfsEnabled k =
      offWhen (dfsEnabled = false ∧ (l k).state = .dfs) (l k) := by
  unfold regModifyChanListForDfsChannels
  cases dfsEnabled with
  | false => simp [disableWhere_apply]
  | true => simp [offWhen]

theorem regModifyChanListForNolList_apply :
    regModifyChanListForNolList l k = offWhen ((l k).nolChan = true) (l k) :=
  disableWhere_apply l k _

def IndoorPassive (p : PdevPrivObj b) (c : RegulatoryChannel) : Prop :=
  p.indoorChanEnabled = false ∧ c.hasFlag regulatoryChanIndoorOnly = true

def IndoorOff (p : PdevPrivObj b) (c : RegulatoryChannel) : Prop :=
  p.forceSscDisableIndoorChannel = true ∧ p.sapState = true ∧
    c.hasFlag regulatoryChanIndoorOnly = true

theorem regModifyChanListForIndoorChannels_apply (p : PdevPrivObj b) :
    regModifyChanListForIndoorChannels p l k =
      offWhen (IndoorOff p (l k)) (passiveWhen (IndoorPassive p (l k)) (l k)) := by
  unfold regModifyChanListForIndoorChannels IndoorOff IndoorPassive offWhen passiveWhen disableWhere
  cases p.indoorChanEnabled <;> cases p.forceSscDisableIndoorChannel <;> cases p.sapState <;>
    cases hindoor : (l k).hasFlag regulatoryChanIndoorOnly <;> simp [hindoor]

def capPower (setFccChannel : Bool) (c : RegulatoryChannel) : RegulatoryChannel :=
  if setFccChannel then
    if c.centerFreq = chan12CentFreq then { c with txPower := maxPwrFccChan12 }
    else if c.centerFreq = chan13CentFreq then { c with txPower := maxPwrFccChan13 }
    else c
  else c

theorem regModifyChanListForFccChannel_apply (setFccChannel : Bool) :
    regModifyChanListForFccChannel l setFccChannel k = capPower setFccChannel (l k) := by
  unfold regModifyChanListForFccChannel capPower
  cases setFccChannel <;> rfl

theorem capPower_offWhen (setFccChannel : Bool) (P : Prop) (c : RegulatoryChannel) :
    capPower setFccChannel (offWhen P c) = offWhen P (capPower setFccChannel c) := by
  unfold capPower offWhen disable
  split_ifs <;> simp_all

theorem capPower_same (setFccChannel : Bool) (c : RegulatoryChannel) :
    SameChannel c (capPower setFccChannel c) := by
  unfold capPower
  split_ifs <;> exact ⟨rfl, rfl, rfl, rfl, rfl⟩

theorem regModifyChanListForChan144_apply (enChan144 : Bool) :
    regModifyChanListForChan144 l enChan144 k =
      offWhen (enChan144 = false ∧ (l k).centerFreq = chan144CentFreq) (l k) := by
  unfold regModifyChanListForChan144
  cases enChan144 with
  | false => simp [disableWhere_apply]
  | true => simp [offWhen]

theorem foldl_cached_apply (cache : List RegulatoryChannel) :
    cache.foldl (fun l cached =>
        disableWhere (fun _ c => decide (cached.chanNum = c.chanNum)) l) l k =
      offWhen (∃ cached ∈ cache, cached.chanNum = (l k).chanNum) (l k) := by
  induction cache generalizing l with
  | nil => simp [offWhen]
  | cons cached cache ih =>
    rw [List.foldl_cons, ih, disableWhere_apply, (offWhen_same _ _).chanNum, offWhen_offWhen]
    simp

theorem regModifyChanListForCachedChannels_apply (p : PdevPrivObj b) :
    regModifyChanListForCachedChannels p l k =
      offWhen (p.disableCachedChannels = true ∧
        ∃ cached ∈ p.cacheDisableChanList, cached.chanNum = (l k).chanNum) (l k) := by
  unfold regModifyChanListForCachedChannels
  split_ifs with hdisable
  · rw [foldl_cached_apply]
    simp [hdisable]
  · simp [offWhen, hdisable]

def SrdPassive (p : PdevPrivObj b) (chanNum : UInt8) : Prop :=
  regIsEtsi13Regdmn p = true ∧ regIsEtsi13SrdChanAllowedMasterMode p = false ∧
    regIsEtsi13SrdChan p l chanNum = true

theorem regModifyChanListForSrdChannels_apply (p : PdevPrivObj b) :
    regModifyChanListForSrdChannels p l k =
      passiveWhen ((l k).hasFlag regulatoryChanDisabled = false ∧
        SrdPassive l p (l k).chanNum) (l k) := by
  unfold regModifyChanListForSrdChannels SrdPassive
  split_ifs with hetsi hallowed
  · rw [passiveWhen_of_not]
    intro h
    simp [h.2.1] at hetsi
  · rw [passiveWhen_of_not]
    intro h
    simp [h.2.2.1] at hallowed
  · rw [Passes.inPlace_apply (fun l j k => isLiveSrdChan_makePassive l k p j)
      (List.nodup_finRange _)]
    have hetsi : regIsEtsi13Regdmn p = true := by simpa using hetsi
    have hallowed : regIsEtsi13SrdChanAllowedMasterMode p = false := by simpa using hallowed
    unfold passiveWhen
    congr 1
    simp [isLiveSrdChan, hetsi, hallowed]

theorem SrdPassive.congr {l l' : ChanList b} {p : PdevPrivObj b} {chanNum : UInt8}
    (h : ∀ k, SameChannel (l k) (l' k)) : SrdPassive l' p chanNum ↔ SrdPassive l p chanNum := by
  simp only [SrdPassive, regIsEtsi13SrdChan, regChanToFreq_congr h]

end Filters

section All

variable (p : PdevPrivObj b) (k : Fin (numChannels b))

def EarlyOff (c : RegulatoryChannel) : Prop :=
  OutOfBand p k ∨ InUniiRemoved p k ∨ (p.dfsEnabled = false ∧ c.state = .dfs) ∨ c.nolChan = true

def LateOff (c : RegulatoryChannel) : Prop :=
  IndoorOff p c ∨ (p.enChan144 = false ∧ c.centerFreq = chan144CentFreq) ∨
    (p.disableCachedChannels = true ∧
      ∃ cached ∈ p.cacheDisableChanList, cached.chanNum = c.chanNum)

/-- The channel before the filter for short range channels; `P` says that it is out of range. -/
noncomputable def shaped (P : Prop) (c : RegulatoryChannel) : RegulatoryChannel :=
  offWhen (LateOff p c) (capPower p.setFccChannel
    (passiveWhen (IndoorPassive p c) (offWhen (P ∨ EarlyOff p k c) c)))

theorem shaped_same (P : Prop) (c : RegulatoryChannel) : SameChannel c (shaped p k P c) :=
  (((offWhen_same _ c).trans (passiveWhen_same _ _)).trans (capPower_same _ _)).trans
    (offWhen_same _ _)

theorem offWhen_withMaxBw (P : Prop) (c : RegulatoryChannel) (m : UInt16) :
    offWhen P (c.withMaxBw m) = (offWhen P c).withMaxBw m := by
  unfold offWhen
  split_ifs <;> rfl

theorem passiveWhen_withMaxBw (P : Prop) (c : RegulatoryChannel) (m : UInt16) :
    passiveWhen P (c.withMaxBw m) = (passiveWhen P c).withMaxBw m := by
  unfold passiveWhen
  split_ifs <;> rfl

theorem capPower_withMaxBw (setFccChannel : Bool) (c : RegulatoryChannel) (m : UInt16) :
    capPower setFccChannel (c.withMaxBw m) = (capPower setFccChannel c).withMaxBw m := by
  unfold capPower
  rw [withMaxBw_centerFreq]
  split_ifs <;> rfl

theorem shaped_withMaxBw (P : Prop) (c : RegulatoryChannel) (m : UInt16) :
    shaped p k P (c.withMaxBw m) = (shaped p k P c).withMaxBw m := by
  unfold shaped
  rw [offWhen_withMaxBw, passiveWhen_withMaxBw, capPower_withMaxBw, offWhen_withMaxBw]
  rfl

def beforeSrd : ChanList b :=
  regModifyChanListForCachedChannels p <| (regModifyChanListForChan144 · p.enChan144) <|
    (regModifyChanListForFccChannel · p.setFccChannel) <|
      regModifyChanListForIndoorChannels p (beforeIndoor p)

theorem regComputePdevCurrentChanList_eq_srd :
    regComputePdevCurrentChanList p = regModifyChanListForSrdChannels p (beforeSrd p) := rfl

theorem cut_same (c : RegulatoryChannel) : SameChannel c (cut p k c) := by
  rw [cut_eq]
  exact ⟨rfl, rfl, rfl, rfl, rfl⟩

theorem cut_state (c : RegulatoryChannel) : (cut p k c).state = c.state := by
  rw [cut_eq, withMaxBw_state]

theorem beforeIndoor_apply :
    beforeIndoor p k = offWhen (OutOfRange p k ∨ EarlyOff p k (p.masChanList k))
      (cut p k (p.masChanList k)) := by
  have hsame := cut_same p k (p.masChanList k)
  have hstate := cut_state p k (p.masChanList k)
  obtain ⟨l1, hl1⟩ : ∃ l, l = regModifyChanListForFreqRange p.masChanList p.range2gLow p.range2gHigh
    p.range5gLow p.range5gHigh := ⟨_, rfl⟩
  obtain ⟨l2, hl2⟩ : ∃ l, l = regModifyChanListForBand l1 p.bandCapability := ⟨_, rfl⟩
  obtain ⟨l3, hl3⟩ : ∃ l, l = regModifyDisableChanListForUnii1AndUnii2a l2 p.unii5gBitmap :=
    ⟨_, rfl⟩
  obtain ⟨l4, hl4⟩ : ∃ l, l = regModifyChanListForDfsChannels l3 p.dfsEnabled := ⟨_, rfl⟩
  have hlast : beforeIndoor p = regModifyChanListForNolList l4 := by
    rw [hl4, hl3, hl2, hl1]
    rfl
  have h1 : l1 k = offWhen (OutOfRange p k) (cut p k (p.masChanList k)) := by
    rw [hl1, regModifyChanListForFreqRange_apply]
  have h3 : l3 k = offWhen (OutOfRange p k ∨ OutOfBand p k ∨ InUniiRemoved p k)
      (cut p k (p.masChanList k)) := by
    rw [hl3, regModifyDisableChanListForUnii1AndUnii2a_apply, hl2, regModifyChanListForBand_apply,
      h1, offWhen_offWhen, offWhen_offWhen]
  have h4 : l4 k = offWhen ((OutOfRange p k ∨ OutOfBand p k ∨ InUniiRemoved p k) ∨
      (p.dfsEnabled = false ∧ (p.masChanList k).state = .dfs)) (cut p k (p.masChanList k)) := by
    rw [hl4, regModifyChanListForDfsChannels_apply, h3]
    apply offWhen_offWhen_congr
    intro hlive
    rw [offWhen_of_not hlive, hstate]
  rw [hlast, regModifyChanListForNolList_apply, h4, offWhen_offWhen, (offWhen_same _ _).nolChan,
    hsame.nolChan]
  congr 1
  simp only [EarlyOff, or_assoc]

theorem beforeSrd_apply :
    beforeSrd p k = shaped p k (OutOfRange p k) (cut p k (p.masChanList k)) := by
  have hsame := cut_same p k (p.masChanList k)
  have hstate := cut_state p k (p.masChanList k)
  obtain ⟨l6, hl6⟩ : ∃ l, l = regModifyChanListForIndoorChannels p (beforeIndoor p) := ⟨_, rfl⟩
  obtain ⟨l8, hl8⟩ : ∃ l, l = regModifyChanListForChan144
    (regModifyChanListForFccChannel l6 p.setFccChannel) p.enChan144 := ⟨_, rfl⟩
  have hlast : beforeSrd p = regModifyChanListForCachedChannels p l8 := by
    rw [hl8, hl6]
    rfl
  have hearly : EarlyOff p k (p.masChanList k) = EarlyOff p k (cut p k (p.masChanList k)) := by
    simp only [EarlyOff, hstate, hsame.nolChan]
  have hindoor := offWhen_same (OutOfRange p k ∨ EarlyOff p k (cut p k (p.masChanList k)))
    (cut p k (p.masChanList k))
  have hpassive := hindoor.trans (passiveWhen_same
    (IndoorPassive p (cut p k (p.masChanList k))) _)
  have hpower := hpassive.trans (capPower_same p.setFccChannel _)
  have h6 : l6 k = offWhen (IndoorOff p (cut p k (p.masChanList k)))
      (passiveWhen (IndoorPassive p (cut p k (p.masChanList k)))
        (offWhen (OutOfRange p k ∨ EarlyOff p k (cut p k (p.masChanList k)))
          (cut p k (p.masChanList k)))) := by
    rw [hl6, regModifyChanListForIndoorChannels_apply, beforeIndoor_apply, hearly]
    simp only [IndoorOff, IndoorPassive, hindoor.indoor]
  rw [hlast, regModifyChanListForCachedChannels_apply, hl8, regModifyChanListForChan144_apply,
    regModifyChanListForFccChannel_apply, h6, capPower_offWhen]
  simp only [offWhen_offWhen, (offWhen_same _ _).chanNum, (offWhen_same _ _).centerFreq,
    hpower.chanNum, hpower.centerFreq]
  rw [shaped]
  congr 1
  simp only [LateOff, or_assoc]

theorem regComputePdevCurrentChanList_apply :
    regComputePdevCurrentChanList p k =
      passiveWhen ((shaped p k (OutOfRange p k) (cut p k (p.masChanList k))).hasFlag
            regulatoryChanDisabled = false ∧
          SrdPassive p.masChanList p (p.masChanList k).chanNum)
        (shaped p k (OutOfRange p k) (cut p k (p.masChanList k))) := by
  have hsame (j : Fin (numChannels b)) : SameChannel (p.masChanList j) (beforeSrd p j) := by
    rw [beforeSrd_apply]
    exact (cut_same p j _).trans (shaped_same p j _ _)
  rw [regComputePdevCurrentChanList_eq_srd, regModifyChanListForSrdChannels_apply,
    SrdPassive.congr hsame, (hsame k).chanNum, beforeSrd_apply]

variable {k} {c : RegulatoryChannel} (P : Prop)

theorem offWhen_disabled {Q : Prop} {d : RegulatoryChannel} :
    (offWhen Q d).hasFlag regulatoryChanDisabled = true ↔
      d.hasFlag regulatoryChanDisabled = true ∨ Q := by
  by_cases hq : Q
  · simp [hq]
  · simp [hq]

theorem passiveWhen_disabled {Q : Prop} {d : RegulatoryChannel} :
    (passiveWhen Q d).hasFlag regulatoryChanDisabled = d.hasFlag regulatoryChanDisabled := by
  by_cases hq : Q
  · simp [passiveWhen_of hq]
  · simp [passiveWhen_of_not hq]

theorem capPower_tuned (setFccChannel : Bool) (d : RegulatoryChannel) :
    Tuned d (capPower setFccChannel d) := by
  refine ⟨capPower_same setFccChannel d, ?_, ?_⟩ <;> unfold capPower <;> split_ifs <;> rfl

theorem shaped_disabled :
    (shaped p k P c).hasFlag regulatoryChanDisabled = true ↔
      (c.hasFlag regulatoryChanDisabled = true ∨ P ∨ EarlyOff p k c) ∨ LateOff p c := by
  rw [shaped, offWhen_disabled]
  simp only [hasFlag, (capPower_tuned _ _).flags]
  rw [← hasFlag, passiveWhen_disabled, offWhen_disabled]
  rfl

theorem shaped_state_disable :
    (shaped p k P c).state = .disable ↔
      LateOff p c ∨ (¬ IndoorPassive p c ∧ (c.state = .disable ∨ P ∨ EarlyOff p k c)) := by
  rw [shaped]
  by_cases hlate : LateOff p c
  · simp [hlate]
  · rw [offWhen_of_not hlate, (capPower_tuned _ _).state]
    by_cases hindoor : IndoorPassive p c
    · simp [hlate, hindoor]
    · rw [passiveWhen_of_not hindoor]
      by_cases hoff : P ∨ EarlyOff p k c
      · simp [hlate, hindoor, hoff]
      · simp only [offWhen_of_not hoff, hlate, hindoor]
        tauto

theorem or_twoPow_eq_self {x : BitVec 32} {i : ℕ} (h : BitVec.twoPow 32 i &&& x ≠ 0) :
    x ||| BitVec.twoPow 32 i = x := by
  have hbit : x.getLsbD i = true := by
    rw [BitVec.twoPow_and] at h
    by_contra hoff
    simp [hoff] at h
  apply BitVec.eq_of_getLsbD_eq
  intro j hj
  rw [BitVec.getLsbD_or, BitVec.getLsbD_twoPow]
  by_cases hij : i = j
  · subst j
    simp [hbit]
  · simp [hij]

theorem disable_eq_self (hc : c.Agrees) (h : c.hasFlag regulatoryChanDisabled = true) :
    c.disable = c := by
  have hstate : c.state = .disable := hc.mpr h
  have hflags : c.chanFlags ||| regulatoryChanDisabled = c.chanFlags :=
    or_twoPow_eq_self (by simpa [hasFlag, regulatoryChanDisabled] using h)
  unfold disable
  rw [← hstate, hflags]

theorem makePassive_eq_self_iff :
    c.makePassive = c ↔ c.state = .dfs ∧ c.hasFlag regulatoryChanNoIr = true := by
  constructor
  · intro h
    have hflags : c.chanFlags ||| regulatoryChanNoIr = c.chanFlags :=
      congrArg RegulatoryChannel.chanFlags h
    refine ⟨(congrArg RegulatoryChannel.state h).symm, ?_⟩
    have hbit : c.chanFlags.getLsbD 1 = true := by
      rw [← hflags]
      simp [regulatoryChanNoIr]
    have hne : BitVec.twoPow 32 1 ≠ 0 := by decide
    simpa [hasFlag, regulatoryChanNoIr, BitVec.twoPow_and, hbit] using hne
  · rintro ⟨hstate, hflag⟩
    have hflags : c.chanFlags ||| regulatoryChanNoIr = c.chanFlags :=
      or_twoPow_eq_self (by simpa [hasFlag, regulatoryChanNoIr] using hflag)
    unfold makePassive
    rw [← hstate, hflags]

/-- The channel is disabled in the master list, or a filter other than the range disables it. -/
def ExcludedElsewhere (k : Fin (numChannels b)) (c : RegulatoryChannel) : Prop :=
  c.hasFlag regulatoryChanDisabled = true ∨ EarlyOff p k c ∨ LateOff p c

theorem disable_makePassive_disable (c : RegulatoryChannel) :
    c.disable.makePassive.disable = c.makePassive.disable := by
  simp only [disable, makePassive, BitVec.or_assoc]
  rw [BitVec.or_comm regulatoryChanNoIr, ← BitVec.or_assoc regulatoryChanDisabled,
    BitVec.or_self]

theorem ExcludedElsewhere.shaped_eq (h : ExcludedElsewhere p k c) (hc : c.Agrees) (Q : Prop) :
    shaped p k P c = shaped p k Q c := by
  unfold shaped
  by_cases hlate : LateOff p c
  · have hforget (R : Prop) : (passiveWhen (IndoorPassive p c) (offWhen R c)).disable =
        (passiveWhen (IndoorPassive p c) c).disable := by
      by_cases hindoor : IndoorPassive p c <;> by_cases hr : R <;>
        simp [hindoor, hr, disable_makePassive_disable]
    have hpower (d : RegulatoryChannel) :
        (capPower p.setFccChannel d).disable = capPower p.setFccChannel d.disable := by
      simpa using (capPower_offWhen p.setFccChannel True d).symm
    rw [offWhen_of hlate, offWhen_of hlate, hpower, hpower, hforget, hforget]
  · by_cases hearly : EarlyOff p k c
    · simp [hearly]
    · have hoff : c.hasFlag regulatoryChanDisabled = true := by
        rcases h with h | h | h
        · exact h
        · exact absurd h hearly
        · exact absurd h hlate
      have hself : ∀ R : Prop, offWhen R c = c := by
        intro R
        by_cases hr : R
        · simp [hr, disable_eq_self hc hoff]
        · simp [hr]
      rw [hself, hself]

end All

end KernelModules.RegChannels
