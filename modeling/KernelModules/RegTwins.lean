import KernelModules.RegForms
import KernelModules.RegMaster

/-!
# Two histories of one country

The rules write every field of a channel that they span, and nothing but the state, the flags and
the number of any other. So two histories that end with the same report can differ in the widths that
earlier countries left behind, and those are read when the limits of the range are looked for.
-/

namespace KernelModules.RegChannels

open RegulatoryChannel

variable {b : Bool}

def SameUnlessDisabled (c d : RegulatoryChannel) : Prop :=
  (c.state = .disable ↔ d.state = .disable) ∧ (c.state ≠ .disable → d = c)

/-- The channel is disabled and nothing brings it back. -/
structure Dead (c : RegulatoryChannel) : Prop where
  disabled : c.hasFlag regulatoryChanDisabled = true
  state : c.state = .disable
  indoor : c.hasFlag regulatoryChanIndoorOnly = false

def AlreadyPassive (p : PdevPrivObj b) (c : RegulatoryChannel) : Prop :=
  IndoorPassive p c ∨ (c.state = .dfs ∧ c.hasFlag regulatoryChanNoIr = true)

/-- The limits of the range and the short range channels are read off two lists. For the channels that
the rules span, `ruled`, it makes no difference to what comes of them. -/
structure Harmless (ruled : Fin (numChannels b) → Option RegulatoryChannel)
    (p p' : PdevPrivObj b) : Prop where
  range : ∀ k c, ruled k = some c → ¬ ExcludedElsewhere p k c → (OutOfRange p k ↔ OutOfRange p' k)
  width : ∀ k c, ruled k = some c →
    (¬ ExcludedElsewhere p k c ∧ ¬ OutOfRange p k) ∨ (IndoorPassive p c ∧ ¬ LateOff p c) →
    (cut p k c).maxBw = (cut p' k c).maxBw
  srd : ∀ k c, ruled k = some c → ¬ ExcludedElsewhere p k c → ¬ OutOfRange p k →
    ¬ AlreadyPassive p c →
    (SrdPassive p.masChanList p c.chanNum ↔ SrdPassive p'.masChanList p' c.chanNum)

section Lists

variable {p : PdevPrivObj b} {l l' : ChanList b} {k : Fin (numChannels b)} {c : RegulatoryChannel}

theorem Dead.stays (h : Dead (p.masChanList k)) :
    (regComputePdevCurrentChanList p k).state = .disable := by
  rw [regComputePdevCurrentChanList_apply]
  generalize hc : p.masChanList k = c at h
  have hcut := cut_eq p k c
  have hflag : (shaped p k (OutOfRange p k) (cut p k c)).hasFlag regulatoryChanDisabled = true := by
    rw [shaped_disabled, hcut]
    exact .inl (.inl h.disabled)
  rw [passiveWhen_of_not (by simp [hflag]), shaped_state_disable]
  right
  rw [hcut]
  refine ⟨fun hindoor => ?_, .inl h.state⟩
  have hnot := hindoor.2
  change c.hasFlag regulatoryChanIndoorOnly = true at hnot
  rw [h.indoor] at hnot
  cases hnot

variable {d e : RegulatoryChannel} {p' : PdevPrivObj b}
variable {ruled : Fin (numChannels b) → Option RegulatoryChannel}

theorem SameUnlessDisabled.eq (h : SameUnlessDisabled d e)
    (hlive : d.state ≠ .disable ∨ e.state ≠ .disable) : e = d := by
  apply h.2
  rcases hlive with hd | he
  · exact hd
  · exact fun hd => he (h.1.mp hd)

theorem sameUnlessDisabled_iff_eq (hd : d.state ≠ .disable)
    (he : e.state ≠ .disable) : SameUnlessDisabled d e ↔ e = d :=
  ⟨fun h => h.eq (.inl hd), fun h => ⟨by simp [hd, he], fun _ => h⟩⟩

theorem sameUnlessDisabled_withMaxBw (d : RegulatoryChannel) (m m' : UInt16) :
    SameUnlessDisabled (d.withMaxBw m) (d.withMaxBw m') ↔ (d.state ≠ .disable → m = m') := by
  constructor
  · intro h hstate
    exact (congrArg RegulatoryChannel.maxBw (h.2 hstate)).symm
  · intro h
    refine ⟨Iff.rfl, fun hstate => ?_⟩
    rw [h hstate]

theorem passiveWhen_eq_iff (d : RegulatoryChannel) (m m' : UInt16) (S S' : Prop) :
    passiveWhen S' (d.withMaxBw m') = passiveWhen S (d.withMaxBw m) ↔
      m = m' ∧ (¬ d.makePassive = d → (S ↔ S')) := by
  have hkeeps (T : Prop) : (passiveWhen T d).maxBw = d.maxBw := by
    by_cases ht : T
    · simp only [ht, passiveWhen_true, makePassive]
    · simp only [ht, passiveWhen_false]
  rw [passiveWhen_withMaxBw, passiveWhen_withMaxBw, withMaxBw_eq_iff ((hkeeps S').trans (hkeeps S).symm)]
  by_cases hs : S <;> by_cases hs' : S' <;>
    simp only [hs, hs', passiveWhen_true, passiveWhen_false, eq_comm (a := m)] <;> tauto

theorem shaped_makePassive (h : ¬ ExcludedElsewhere p k c) :
    (shaped p k False c).makePassive = shaped p k False c ↔ AlreadyPassive p c := by
  simp only [ExcludedElsewhere, not_or] at h
  obtain ⟨-, hearly, hlate⟩ := h
  rw [makePassive_eq_self_iff, shaped, offWhen_of_not hlate, (capPower_tuned _ _).state]
  simp only [hasFlag, (capPower_tuned _ _).flags]
  rw [← hasFlag, offWhen_of_not (by simpa using hearly), AlreadyPassive]
  by_cases hindoor : IndoorPassive p c
  · have hflag := (makePassive_eq_self_iff (c := c.makePassive)).mp
      (by simp only [makePassive, BitVec.or_assoc, BitVec.or_self])
    simpa [hindoor] using hflag.2
  · simp [hindoor]

theorem ExcludedElsewhere.hasFlag (h : ExcludedElsewhere p k c) (P : Prop) :
    (shaped p k P c).hasFlag regulatoryChanDisabled = true := by
  rw [shaped_disabled]
  unfold ExcludedElsewhere at h
  tauto

theorem ExcludedElsewhere.state_iff (h : ExcludedElsewhere p k c) (hc : c.Agrees) (P : Prop) :
    (shaped p k P c).state ≠ .disable ↔ IndoorPassive p c ∧ ¬ LateOff p c := by
  have hstate := hc
  unfold Agrees at hstate
  unfold ExcludedElsewhere at h
  rw [ne_eq, shaped_state_disable]
  tauto

theorem hasFlag_iff_of_not_elsewhere (h : ¬ ExcludedElsewhere p k c) (P : Prop) (m : UInt16) :
    ((shaped p k P c).withMaxBw m).hasFlag regulatoryChanDisabled = true ↔ P := by
  rw [withMaxBw_hasFlag, shaped_disabled]
  unfold ExcludedElsewhere at h
  tauto

theorem state_iff_of_not_elsewhere (h : ¬ ExcludedElsewhere p k c) (hc : c.Agrees) (P : Prop) :
    (shaped p k P c).state = .disable ↔ ¬ IndoorPassive p c ∧ P := by
  have hlive := hc
  unfold Agrees at hlive
  unfold ExcludedElsewhere at h
  rw [shaped_state_disable]
  tauto

theorem live_of_not_elsewhere (h : ¬ ExcludedElsewhere p k c) (hc : c.Agrees) (m : UInt16)
    (T : Prop) : (passiveWhen T ((shaped p k False c).withMaxBw m)).state ≠ .disable := by
  by_cases ht : T
  · simp [ht]
  · simp [ht, state_iff_of_not_elsewhere h hc]

theorem range_iff_of_same (h : ¬ ExcludedElsewhere p k c) (hc : c.Agrees) {O O' S S' : Prop}
    {m m' : UInt16} (hsame : SameUnlessDisabled (passiveWhen S ((shaped p k O c).withMaxBw m))
      (passiveWhen S' ((shaped p k O' c).withMaxBw m'))) : O ↔ O' := by
  have hlive (m : UInt16) (T : Prop) := live_of_not_elsewhere h hc m T
  by_contra hne
  have hflags (heq : passiveWhen S' ((shaped p k O' c).withMaxBw m') =
      passiveWhen S ((shaped p k O c).withMaxBw m)) : False := by
    have hflag := congrArg (fun d : RegulatoryChannel => d.hasFlag regulatoryChanDisabled = true) heq
    simp only [passiveWhen_disabled, hasFlag_iff_of_not_elsewhere h, eq_iff_iff] at hflag
    exact hne hflag.symm
  by_cases hO : O
  · have hO' : ¬ O' := fun hO' => hne (iff_of_true hO hO')
    exact hflags (hsame.eq (.inr (by simpa only [hO'] using hlive m' S')))
  · exact hflags (hsame.eq (.inl (by simpa only [hO] using hlive m S)))

/-- A channel that the rules span comes to the same in both lists exactly when what is read off them
makes no difference to it. -/
theorem ruled_iff (hc : c.Agrees) (hl : p.masChanList k = c) (hl' : l' k = c)
    (hp' : p' = { p with masChanList := l' }) :
    SameUnlessDisabled (regComputePdevCurrentChanList p k) (regComputePdevCurrentChanList p' k) ↔
      (¬ ExcludedElsewhere p k c → (OutOfRange p k ↔ OutOfRange p' k)) ∧
      ((¬ ExcludedElsewhere p k c ∧ ¬ OutOfRange p k) ∨ (IndoorPassive p c ∧ ¬ LateOff p c) →
        (cut p k c).maxBw = (cut p' k c).maxBw) ∧
      (¬ ExcludedElsewhere p k c → ¬ OutOfRange p k → ¬ AlreadyPassive p c →
        (SrdPassive p.masChanList p c.chanNum ↔ SrdPassive p'.masChanList p' c.chanNum)) := by
  have hmas' : p'.masChanList k = c := by
    rw [hp']
    exact hl'
  have hshaped : shaped p' k = shaped p k := by
    subst p'
    rfl
  rw [regComputePdevCurrentChanList_apply, regComputePdevCurrentChanList_apply, hl, hmas',
    cut_eq p k c, cut_eq p' k c, hshaped, shaped_withMaxBw, shaped_withMaxBw]
  generalize (cut p k c).maxBw = m
  generalize (cut p' k c).maxBw = m'
  generalize SrdPassive p.masChanList p c.chanNum = S
  generalize SrdPassive p'.masChanList p' c.chanNum = S'
  generalize OutOfRange p k = O
  generalize OutOfRange p' k = O'
  by_cases hout : ExcludedElsewhere p k c
  · have hflag := hout.hasFlag O
    rw [hout.shaped_eq p O' hc O, passiveWhen_of_not (by simp [hflag]),
      passiveWhen_of_not (by simp [hflag]), sameUnlessDisabled_withMaxBw, hout.state_iff hc]
    tauto
  · have hlate : ¬ LateOff p c := fun h => hout (.inr (.inr h))
    by_cases hrange : O ↔ O'
    · rw [← propext hrange]
      by_cases hO : O
      · have hoff (n : UInt16) := (hasFlag_iff_of_not_elsewhere hout True n).mpr trivial
        simp only [hO]
        rw [passiveWhen_of_not (by simp [hoff m]), passiveWhen_of_not (by simp [hoff m']),
          sameUnlessDisabled_withMaxBw, ne_eq, state_iff_of_not_elsewhere hout hc]
        tauto
      · have hon (n : UInt16) : ((shaped p k False c).withMaxBw n).hasFlag
            regulatoryChanDisabled = false := by
          simpa using mt (hasFlag_iff_of_not_elsewhere hout False n).mp id
        simp only [hO]
        rw [sameUnlessDisabled_iff_eq (live_of_not_elsewhere hout hc m _)
          (live_of_not_elsewhere hout hc m' _), passiveWhen_eq_iff, shaped_makePassive hout]
        simp only [hon]
        tauto
    · exact iff_of_false (fun h => hrange (range_iff_of_same hout hc h))
        fun h => hrange (h.1 hout)

theorem Dead.same (h : Dead (p.masChanList k)) (h' : Dead (p'.masChanList k)) :
    SameUnlessDisabled (regComputePdevCurrentChanList p k) (regComputePdevCurrentChanList p' k) := by
  simp [SameUnlessDisabled, h.stays, h'.stays]

theorem harmless_iff (hp' : p' = { p with masChanList := l' })
    (hruled : ∀ k c, ruled k = some c → c.Agrees ∧ p.masChanList k = c ∧ l' k = c)
    (hdead : ∀ k, ruled k = none → Dead (p.masChanList k) ∧ Dead (l' k)) :
    (∀ k, SameUnlessDisabled (regComputePdevCurrentChanList p k)
        (regComputePdevCurrentChanList p' k)) ↔ Harmless ruled p p' := by
  constructor
  · intro h
    have hiff (k : Fin (numChannels b)) (c : RegulatoryChannel) (hk : ruled k = some c) :=
      (ruled_iff (hruled k c hk).1 (hruled k c hk).2.1 (hruled k c hk).2.2 hp').mp (h k)
    exact ⟨fun k c hk => (hiff k c hk).1, fun k c hk => (hiff k c hk).2.1,
      fun k c hk => (hiff k c hk).2.2⟩
  · intro h k
    cases hk : ruled k with
    | none =>
      apply (hdead k hk).1.same
      rw [hp']
      exact (hdead k hk).2
    | some c =>
      obtain ⟨hagrees, hl, hl'⟩ := hruled k c hk
      rw [ruled_iff hagrees hl hl' hp']
      exact ⟨h.range k c hk, h.width k c hk, h.srd k c hk⟩

theorem sameChannel_symm {c : RegulatoryChannel} (h : SameChannel c d) : SameChannel d c :=
  ⟨h.centerFreq.symm, h.chanNum.symm, h.minBw.symm, h.nolChan.symm, h.indoor.symm⟩

/-- What is read off a list is no more than the numbers, the frequencies and the smallest widths. -/
theorem Harmless.of_same
    {q q' : PdevPrivObj b} (h : Harmless ruled p p') (hq : q = { p with masChanList := l })
    (hq' : q' = { p' with masChanList := l' }) (hl : ∀ k, SameChannel (p.masChanList k) (l k))
    (hl' : ∀ k, SameChannel (p'.masChanList k) (l' k)) : Harmless ruled q q' := by
  have hrange {r s : PdevPrivObj b} {t : ChanList b} (hs : s = { r with masChanList := t })
      (ht : ∀ k, SameChannel (r.masChanList k) (t k)) (k : Fin (numChannels b)) :
      OutOfRange s k ↔ OutOfRange r k := by
    subst s
    simp only [OutOfRange, regChanInRange_congr ht]
  have hcut {r s : PdevPrivObj b} {t : ChanList b} (hs : s = { r with masChanList := t })
      (ht : ∀ k, SameChannel (r.masChanList k) (t k)) (k : Fin (numChannels b))
      (c : RegulatoryChannel) : cut s k c = cut r k c := by
    subst s
    simp only [cut, lowLimit_congr ht, highLimit_congr ht]
  have hsrd {r s : PdevPrivObj b} {t : ChanList b} (hs : s = { r with masChanList := t })
      (ht : ∀ k, SameChannel (r.masChanList k) (t k)) (chanNum : UInt8) :
      SrdPassive s.masChanList s chanNum ↔ SrdPassive r.masChanList r chanNum := by
    subst s
    exact SrdPassive.congr ht
  have hconfig (k : Fin (numChannels b)) (c : RegulatoryChannel) :
      (ExcludedElsewhere q k c ↔ ExcludedElsewhere p k c) ∧
        (IndoorPassive q c ↔ IndoorPassive p c) ∧ (LateOff q c ↔ LateOff p c) ∧
        (AlreadyPassive q c ↔ AlreadyPassive p c) := by
    subst q
    exact ⟨Iff.rfl, Iff.rfl, Iff.rfl, Iff.rfl⟩
  refine ⟨fun k c hk hex => ?_, fun k c hk hlive => ?_, fun k c hk hex hin hact => ?_⟩
  · rw [hrange hq hl, hrange hq' hl']
    exact h.range k c hk (mt (hconfig k c).1.mpr hex)
  · rw [hcut hq hl, hcut hq' hl']
    apply h.width k c hk
    rw [← (hconfig k c).1, ← (hconfig k c).2.1, ← (hconfig k c).2.2.1, ← hrange hq hl]
    exact hlive
  · rw [hsrd hq hl, hsrd hq' hl']
    exact h.srd k c hk (mt (hconfig k c).1.mpr hex) (mt (hrange hq hl k).mpr hin)
      (mt (hconfig k c).2.2.2.mpr hact)

end Lists

section Rules

def blankChannel (m : ChanMap) : RegulatoryChannel where
  centerFreq := m.centerFreq
  chanNum := m.chanNum
  state := .disable
  chanFlags := regulatoryChanDisabled
  txPower := 0
  minBw := 0
  maxBw := 0
  antGain := 0
  nolChan := false

/-- What the rules make of a channel, if one of them spans it. -/
def ruledBy (wide : Bool) (rules : List CurRegRule) (minRegBw : UInt16) (m : ChanMap) :
    Option RegulatoryChannel :=
  if m.chanNum = invalidChannelNum then none
  else
    let minBw := max minRegBw m.minBw
    (regFindRule rules m.centerFreq (bandwidths (min 20 m.maxBw) minBw)).map fun rule =>
      let c := regFillChannelInfo rule.1 minBw { blankChannel m with maxBw := rule.2 }
      if wide && decide (c.maxBw < 20) then c.disable else c

def CurRegulatoryInfo.ruled (info : CurRegulatoryInfo) (map : Fin (numChannels b) → ChanMap)
    (k : Fin (numChannels b)) : Option RegulatoryChannel :=
  if k ≤ max24GhzChannel then ruledBy true info.rules2g info.minBw2g.toUInt16 (map k)
  else ruledBy false info.rules5g info.minBw5g.toUInt16 (map k)

theorem populateChannel_reset (wide : Bool) (rules : List CurRegRule) (minRegBw : UInt16)
    (m : ChanMap) (c : RegulatoryChannel) :
    populateChannel wide rules minRegBw m (resetChannel false m c) =
      (ruledBy wide rules minRegBw m).getD (resetChannel false m c) := by
  unfold populateChannel ruledBy
  by_cases hinvalid : m.chanNum = invalidChannelNum
  · simp [hinvalid]
  · rw [if_neg hinvalid, if_neg hinvalid]
    dsimp only
    rw [show (resetChannel false m c).centerFreq = m.centerFreq from rfl]
    cases regFindRule rules m.centerFreq (bandwidths (min 20 m.maxBw) (max minRegBw m.minBw)) with
    | none => rfl
    | some rule =>
      have hfill : regFillChannelInfo rule.1 (max minRegBw m.minBw)
          { resetChannel false m c with maxBw := rule.2 } =
          regFillChannelInfo rule.1 (max minRegBw m.minBw)
            { blankChannel m with maxBw := rule.2 } := by
        simp only [regFillChannelInfo, markChannel]
        split_ifs <;> rfl
      rw [Option.map_some, Option.getD_some, ← hfill]
      rfl

theorem populateMasChanList_apply (info : CurRegulatoryInfo) (map : Fin (numChannels b) → ChanMap)
    (l : ChanList b) (k : Fin (numChannels b)) :
    populateMasChanList info map l k =
      if k ≤ max24GhzChannel then
        populateChannel true info.rules2g info.minBw2g.toUInt16 (map k) (l k)
      else populateChannel false info.rules5g info.minBw5g.toUInt16 (map k) (l k) := by
  have hnone (wide : Bool) (minRegBw : UInt16) (m : ChanMap) (c : RegulatoryChannel) :
      populateChannel wide [] minRegBw m c = c := by
    have hrule (freq : UInt32) (bws : List UInt16) : regFindRule [] freq bws = none := by
      simp [regFindRule]
    unfold populateChannel
    simp [hrule]
  have h2g : (if info.rules2g = [] then l else
      regPopulateBandChannels min24GhzChannel max24GhzChannel info.rules2g info.minBw2g.toUInt16
        map l) k =
      if k ≤ max24GhzChannel then
        populateChannel true info.rules2g info.minBw2g.toUInt16 (map k) (l k)
      else l k := by
    by_cases hrules : info.rules2g = []
    · simp [hrules, hnone]
    · simp [hrules, regPopulateBandChannels, min24GhzChannel]
  have hband : k.val < if b then 156 else 97 := k.isLt
  unfold populateMasChanList
  generalize (if info.rules2g = [] then l else regPopulateBandChannels min24GhzChannel
    max24GhzChannel info.rules2g info.minBw2g.toUInt16 map l) = l1 at h2g
  by_cases hrules : info.rules5g = []
  · rw [if_pos hrules, h2g, hrules, hnone]
  · rw [if_neg hrules, regPopulate6gBandChannels]
    by_cases hlow : k.val ≤ max24GhzChannel
    · rw [if_pos hlow] at h2g ⊢
      have hlow : k.val ≤ 13 := hlow
      split_ifs
      · simp only [regPopulateBandChannels]
        rw [if_neg (by simp only [min6GhzChannel]; omega),
          if_neg (by simp only [min49GhzChannel]; omega),
          if_neg (by simp only [min5GhzChannel]; omega), h2g]
      · simp only [regPopulateBandChannels]
        rw [if_neg (by simp only [min49GhzChannel]; omega),
          if_neg (by simp only [min5GhzChannel]; omega), h2g]
    · rw [if_neg hlow] at h2g ⊢
      have hhigh : ¬ k.val ≤ 13 := hlow
      split_ifs at hband ⊢ with hb
      · simp only [regPopulateBandChannels, min6GhzChannel, max6GhzChannel, min49GhzChannel,
          max49GhzChannel, min5GhzChannel, max5GhzChannel, min24GhzChannel, h2g]
        split_ifs <;> first | rfl | omega
      · simp only [regPopulateBandChannels, min49GhzChannel, max49GhzChannel, min5GhzChannel,
          max5GhzChannel, min24GhzChannel, h2g]
        split_ifs <;> first | rfl | omega

theorem dead_resetChannel (m : ChanMap) (c : RegulatoryChannel) :
    Dead (resetChannel false m c) := by
  refine ⟨?_, rfl, ?_⟩
  · change (regulatoryChanDisabled &&& regulatoryChanDisabled != 0) = true
    decide
  · change (regulatoryChanIndoorOnly &&& regulatoryChanDisabled != 0) = false
    decide

theorem markChannel_disabled {mark : BitVec 32} (h : regulatoryChanDisabled &&& mark = 0)
    (c : RegulatoryChannel) :
    (markChannel mark c).hasFlag regulatoryChanDisabled = c.hasFlag regulatoryChanDisabled := by
  simp only [hasFlag, markChannel]
  rw [or_and_of_disjoint h]

theorem regFillChannelInfo_live (r : CurRegRule) (minBw : UInt16) (c : RegulatoryChannel) :
    (regFillChannelInfo r minBw c).state ≠ .disable ∧
      (regFillChannelInfo r minBw c).hasFlag regulatoryChanDisabled = false := by
  have hclear : regulatoryChanDisabled &&& (c.chanFlags &&& ~~~regulatoryChanDisabled) = 0 := by
    apply BitVec.eq_of_getLsbD_eq
    intro i hi
    simp only [BitVec.getLsbD_and, BitVec.getLsbD_not]
    cases regulatoryChanDisabled.getLsbD i <;> simp
  have hmark (P : Prop) [Decidable P] (mark : BitVec 32) (hm : regulatoryChanDisabled &&& mark = 0)
      (d : RegulatoryChannel)
      (hd : d.state ≠ .disable ∧ d.hasFlag regulatoryChanDisabled = false) :
      (if P then markChannel mark d else d).state ≠ .disable ∧
        (if P then markChannel mark d else d).hasFlag regulatoryChanDisabled = false := by
    split_ifs
    · exact ⟨hd.1, (markChannel_disabled hm d).trans hd.2⟩
    · exact hd
  have hdfs (P : Prop) [Decidable P] (mark : BitVec 32) (hm : regulatoryChanDisabled &&& mark = 0)
      (d : RegulatoryChannel)
      (hd : d.state ≠ .disable ∧ d.hasFlag regulatoryChanDisabled = false) :
      (if P then { markChannel mark d with state := .dfs } else d).state ≠ .disable ∧
        (if P then { markChannel mark d with state := .dfs } else d).hasFlag
          regulatoryChanDisabled = false := by
    split_ifs
    · exact ⟨by simp, (markChannel_disabled hm d).trans hd.2⟩
    · exact hd
  have hlive := hmark (r.hasFlag regulatoryChanNoOfdm = true) regulatoryChanNoOfdm
    (by decide) _ (hmark (r.hasFlag regulatoryChanIndoorOnly = true)
      regulatoryChanIndoorOnly (by decide) _
      (hdfs (r.hasFlag regulatoryChanRadar = true) regulatoryChanRadar (by decide) _
        (hdfs (r.hasFlag regulatoryChanNoIr = true) regulatoryChanNoIr (by decide)
          { c with
            chanFlags := c.chanFlags &&& ~~~regulatoryChanDisabled
            txPower := r.regPower.toUInt32
            antGain := r.antGain
            state := .enable } ⟨by simp, by simp [hasFlag, hclear]⟩)))
  have hwidth (d : RegulatoryChannel)
      (hd : d.state ≠ .disable ∧ d.hasFlag regulatoryChanDisabled = false) :
      (if d.maxBw = 20 then { d with minBw := minBw, maxBw := r.maxBw }
          else { d with minBw := minBw }).state ≠ .disable ∧
        (if d.maxBw = 20 then { d with minBw := minBw, maxBw := r.maxBw }
          else { d with minBw := minBw }).hasFlag regulatoryChanDisabled = false := by
    split_ifs
    · exact hd
    · exact hd
  exact hwidth _ hlive

variable {c : RegulatoryChannel}

theorem ruledBy_agrees {wide : Bool} {rules : List CurRegRule} {minRegBw : UInt16} {m : ChanMap}
    (h : ruledBy wide rules minRegBw m = some c) : c.Agrees := by
  unfold ruledBy at h
  split_ifs at h
  simp only [Option.map_eq_some_iff] at h
  obtain ⟨rule, -, rfl⟩ := h
  obtain ⟨hstate, hflag⟩ := regFillChannelInfo_live rule.1 (max minRegBw m.minBw)
    { blankChannel m with maxBw := rule.2 }
  unfold Agrees
  split_ifs
  · simp
  · simp [hstate, hflag]

theorem ruled_agrees {info : CurRegulatoryInfo} {map : Fin (numChannels b) → ChanMap}
    {k : Fin (numChannels b)} (h : info.ruled map k = some c) :
    c.Agrees := by
  unfold CurRegulatoryInfo.ruled at h
  split_ifs at h
  · exact ruledBy_agrees h
  · exact ruledBy_agrees h

theorem populateMasChanList_reset (info : CurRegulatoryInfo) (map : Fin (numChannels b) → ChanMap)
    (l : ChanList b) (k : Fin (numChannels b)) :
    populateMasChanList info map (fun k => resetChannel false (map k) (l k)) k =
      (info.ruled map k).getD (resetChannel false (map k) (l k)) := by
  rw [populateMasChanList_apply]
  unfold CurRegulatoryInfo.ruled
  split_ifs
  · exact populateChannel_reset _ _ _ _ _
  · exact populateChannel_reset _ _ _ _ _

end Rules

namespace PsocPrivObj

section Report

variable {featureDsrc : Bool} {ops : TxOps} {info : CurRegulatoryInfo} {soc : PsocPrivObj b}

/-- The master list was built from the report. -/
structure Rebuilt (featureDsrc : Bool) (info : CurRegulatoryInfo) (soc soc' : PsocPrivObj b) :
    Prop where
  masChanList : ∀ k, soc'.masChanList k =
    (info.ruled (channelMap featureDsrc info.dfsRegion) k).getD
      (resetChannel false (channelMap featureDsrc info.dfsRegion k) (soc.masChanList k))
  dfsRegion : soc'.dfsRegion = info.dfsRegion
  regDmnPair : soc'.regDmnPair = info.regDmnPair

theorem settleCountry_frame (info : CurRegulatoryInfo) (soc : PsocPrivObj b) :
    (soc.settleCountry info).masChanList = soc.masChanList ∧
      (soc.settleCountry info).dfsRegion = soc.dfsRegion ∧
      (soc.settleCountry info).regDmnPair = soc.regDmnPair := by
  unfold settleCountry
  dsimp only
  split_ifs <;> exact ⟨rfl, rfl, rfl⟩

theorem takeOver_rebuilt (hnol : soc.retainNolAcrossRegdmnUpdate = false)
    (h : (soc.takeOver featureDsrc ops info).1 = .success) :
    Rebuilt featureDsrc info soc (soc.takeOver featureDsrc ops info).2 := by
  unfold takeOver at h ⊢
  dsimp only at h ⊢
  rw [hnol] at h ⊢
  by_cases hmany : maxRegRules < info.regRules5g.length + info.regRules2g.length
  · rw [if_pos hmany] at h
    cases h
  · rw [if_neg hmany] at h ⊢
    generalize (if soc.offloadEnabled = true then QdfStatus.success else ops.sendCtlInfo) = status
      at h ⊢
    cases status with
    | success =>
      obtain ⟨hlist, hregion, hpair⟩ := settleCountry_frame info
        { soc with
          masChanList := populateMasChanList info (channelMap featureDsrc info.dfsRegion)
            fun k => resetChannel false (channelMap featureDsrc info.dfsRegion k)
              (soc.masChanList k)
          dfsRegion := info.dfsRegion
          regDmnPair := info.regDmnPair
          chanListRecvd := true
          numPhy := info.numPhy
          curCountry := info.alpha2 }
      rw [hnol] at hlist hregion hpair
      refine ⟨fun k => ?_, hregion, hpair⟩
      rw [hlist]
      exact populateMasChanList_reset _ _ _ _
    | eFailure => cases h
    | eFault => cases h
    | eInval => cases h

theorem process_rebuilt (hnol : soc.retainNolAcrossRegdmnUpdate = false)
    (h : (soc.process featureDsrc ops info).1 = .success) :
    Rebuilt featureDsrc info soc (soc.process featureDsrc ops info).2 := by
  unfold process at h ⊢
  cases hcode : info.statusCode with
  | pass =>
    rw [hcode] at h
    exact takeOver_rebuilt hnol h
  | currentAlpha2NotFound =>
    rw [hcode] at h
    dsimp only at h ⊢
    split_ifs at h ⊢
    · have hnol' : { soc with
          newUserCtryPending := false
          new11dCtryPending := false
          worldCountryPending := true }.retainNolAcrossRegdmnUpdate = false := hnol
      obtain ⟨hlist, hregion, hpair⟩ := takeOver_rebuilt hnol' h
      exact ⟨hlist, hregion, hpair⟩
  | initAlpha2NotFound =>
    rw [hcode] at h
    cases h
  | changeNotAllowed =>
    rw [hcode] at h
    cases h
  | noMemory =>
    rw [hcode] at h
    cases h
  | fail =>
    rw [hcode] at h
    cases h

def KeepsCountry (ops : TxOps) (info : CurRegulatoryInfo) (soc : PsocPrivObj b) : Prop :=
  soc.regIgnoreDefaultCountry = true ∧ (soc.regSetCurrCountry ops info).1 = .success

theorem regSetCurrCountry_frame (ops : TxOps) (info : CurRegulatoryInfo) (soc : PsocPrivObj b) :
    (soc.regSetCurrCountry ops info).2.masChanList = soc.masChanList ∧
      (soc.regSetCurrCountry ops info).2.retainNolAcrossRegdmnUpdate =
        soc.retainNolAcrossRegdmnUpdate := by
  unfold regSetCurrCountry regResetCtryPendingHints
  dsimp only
  cases ops.setCountryCode <;> split_ifs <;> exact ⟨rfl, rfl⟩

theorem report_rebuilt (hnol : soc.retainNolAcrossRegdmnUpdate = false)
    (hkept : ¬ KeepsCountry ops info soc)
    (h : (soc.regProcessMasterChanList featureDsrc ops info).1 = .success) :
    Rebuilt featureDsrc info soc (soc.regProcessMasterChanList featureDsrc ops info).2 := by
  unfold regProcessMasterChanList at h ⊢
  by_cases hignore : soc.regIgnoreDefaultCountry = true
  · rw [if_pos hignore] at h ⊢
    obtain ⟨hlist, hretain⟩ := regSetCurrCountry_frame ops info soc
    have hset : (soc.regSetCurrCountry ops info).1 ≠ .success := fun hs => hkept ⟨hignore, hs⟩
    generalize soc.regSetCurrCountry ops info = answer at h hlist hretain hset
    obtain ⟨status, soc'⟩ := answer
    have hrebuilt (h : (soc'.process featureDsrc ops info).1 = .success) :
        Rebuilt featureDsrc info soc (soc'.process featureDsrc ops info).2 := by
      obtain ⟨hmas, hregion, hpair⟩ := process_rebuilt (hretain.trans hnol) h
      rw [hlist] at hmas
      exact ⟨hmas, hregion, hpair⟩
    cases status with
    | success => exact absurd rfl hset
    | eFailure => exact hrebuilt h
    | eFault => exact hrebuilt h
    | eInval => exact hrebuilt h
  · rw [if_neg hignore] at h ⊢
    exact process_rebuilt hnol h

end Report

end PsocPrivObj

section Histories

def leftOver (m : ChanMap) (c : RegulatoryChannel) : RegulatoryChannel :=
  { blankChannel m with minBw := c.minBw, maxBw := c.maxBw }

/-- What the limits of the range will be looked for in, given the master list before the report. -/
def foreseen (info : CurRegulatoryInfo) (map : Fin (numChannels b) → ChanMap) (l : ChanList b) :
    ChanList b :=
  fun k => (info.ruled map k).getD (leftOver (map k) (l k))

/-- The object of the radio with that list. -/
def ahead (B : Build) (info : CurRegulatoryInfo) (soc : PsocPrivObj b) (p : PdevPrivObj b) :
    PdevPrivObj b :=
  p.regPropagateMasChanListToPdev B { soc with
    masChanList := foreseen info (channelMap B.featureDsrc info.dfsRegion) soc.masChanList
    dfsRegion := info.dfsRegion
    regDmnPair := info.regDmnPair }

def inUse (B : Build) (p : PdevPrivObj b) (soc : PsocPrivObj b) : ChanList b :=
  regComputePdevCurrentChanList (p.regPropagateMasChanListToPdev B soc)

/-- The report is taken over, and marks of radar are not kept. -/
structure TakesOver (B : Build) (ops : TxOps) (info : CurRegulatoryInfo) (soc : PsocPrivObj b) :
    Prop where
  success : (soc.regProcessMasterChanList B.featureDsrc ops info).1 = .success
  notKept : ¬ soc.KeepsCountry ops info
  dropsNol : soc.retainNolAcrossRegdmnUpdate = false

variable {B : Build} {info : CurRegulatoryInfo}

variable {soc' : PsocPrivObj b}
variable {soc : PsocPrivObj b}

theorem propagate_eq (p : PdevPrivObj b)
    (h : PsocPrivObj.Rebuilt B.featureDsrc info soc soc') :
    p.regPropagateMasChanListToPdev B soc' =
      { ahead B info soc p with masChanList := soc'.masChanList } := by
  simp only [ahead, PdevPrivObj.regPropagateMasChanListToPdev, PdevPrivObj.regInitPdevMasChanList,
    h.dfsRegion, h.regDmnPair, PdevPrivObj.regModifyChanListForJapan]
  split_ifs <;> rfl

theorem ahead_masChanList (soc : PsocPrivObj b) (p : PdevPrivObj b) :
    (ahead B info soc p).masChanList =
      foreseen info (channelMap B.featureDsrc info.dfsRegion) soc.masChanList := by
  simp only [ahead, PdevPrivObj.regPropagateMasChanListToPdev, PdevPrivObj.regInitPdevMasChanList,
    PdevPrivObj.regModifyChanListForJapan]
  split_ifs <;> rfl

theorem ahead_eq (soc soc' : PsocPrivObj b) (p : PdevPrivObj b) :
    ahead B info soc' p =
      { ahead B info soc p with masChanList := (ahead B info soc' p).masChanList } := by
  simp only [ahead, PdevPrivObj.regPropagateMasChanListToPdev, PdevPrivObj.regInitPdevMasChanList,
    PdevPrivObj.regModifyChanListForJapan]
  split_ifs <;> rfl

theorem foreseen_same
    (h : PsocPrivObj.Rebuilt B.featureDsrc info soc soc') (k : Fin (numChannels b)) :
    SameChannel (foreseen info (channelMap B.featureDsrc info.dfsRegion) soc.masChanList k)
      (soc'.masChanList k) := by
  rw [h.masChanList, foreseen]
  cases info.ruled (channelMap B.featureDsrc info.dfsRegion) k with
  | none => exact ⟨rfl, rfl, rfl, rfl, rfl⟩
  | some c => exact .refl c

/-- Smallest widths that agree in the channels that no rule spans are harmless. -/
theorem harmless_of_minBw {soc soc' : PsocPrivObj b} (p : PdevPrivObj b)
    (h : ∀ k, info.ruled (channelMap B.featureDsrc info.dfsRegion) k = none →
      (soc'.masChanList k).minBw = (soc.masChanList k).minBw) :
    Harmless (info.ruled (channelMap B.featureDsrc info.dfsRegion)) (ahead B info soc p)
      (ahead B info soc' p) := by
  have hself : Harmless (info.ruled (channelMap B.featureDsrc info.dfsRegion))
      (ahead B info soc p) (ahead B info soc p) :=
    ⟨fun _ _ _ _ => Iff.rfl, fun _ _ _ _ => rfl, fun _ _ _ _ _ _ => Iff.rfl⟩
  refine hself.of_same rfl (ahead_eq soc soc' p) (fun _ => .refl _) fun k => ?_
  rw [ahead_masChanList, ahead_masChanList]
  unfold foreseen
  cases hk : info.ruled (channelMap B.featureDsrc info.dfsRegion) k with
  | none => exact ⟨rfl, rfl, h k hk, rfl, rfl⟩
  | some c => exact .refl c

/-- After two histories that end with the same report the lists in use agree in all channels that are
not disabled, exactly when the widths that the histories left in the channels that no rule spans make
no difference to the limits of the range. -/
theorem inUse_same_iff (B : Build) (p : PdevPrivObj b) (info : CurRegulatoryInfo)
    (ops ops' : TxOps) (es es' : List (Event b))
    (h : TakesOver B ops info (PsocPrivObj.after B.featureDsrc es))
    (h' : TakesOver B ops' info (PsocPrivObj.after B.featureDsrc es')) :
    (∀ k, SameUnlessDisabled
        (inUse B p (PsocPrivObj.after B.featureDsrc (es ++ [.report ops info])) k)
        (inUse B p (PsocPrivObj.after B.featureDsrc (es' ++ [.report ops' info])) k)) ↔
      Harmless (info.ruled (channelMap B.featureDsrc info.dfsRegion))
        (ahead B info (PsocPrivObj.after B.featureDsrc es) p)
        (ahead B info (PsocPrivObj.after B.featureDsrc es') p) := by
  have hlast (ops : TxOps) (es : List (Event b)) :
      PsocPrivObj.after B.featureDsrc (es ++ [.report ops info]) =
        ((PsocPrivObj.after B.featureDsrc es).regProcessMasterChanList B.featureDsrc ops info).2 := by
    simp only [PsocPrivObj.after, List.foldl_append, List.foldl_cons, List.foldl_nil,
      PsocPrivObj.step]
  rw [hlast, hlast]
  have hbuilt := PsocPrivObj.report_rebuilt h.dropsNol h.notKept h.success
  have hbuilt' := PsocPrivObj.report_rebuilt h'.dropsNol h'.notKept h'.success
  generalize PsocPrivObj.after B.featureDsrc es = soc at h hbuilt ⊢
  generalize PsocPrivObj.after B.featureDsrc es' = soc' at h' hbuilt' ⊢
  generalize (soc.regProcessMasterChanList B.featureDsrc ops info).2 = soc2 at hbuilt ⊢
  generalize (soc'.regProcessMasterChanList B.featureDsrc ops' info).2 = soc2' at hbuilt' ⊢
  have hsame (k : Fin (numChannels b)) :
      SameChannel ((ahead B info soc p).masChanList k) (soc2.masChanList k) := by
    rw [ahead_masChanList]
    exact foreseen_same hbuilt k
  have hsame' (k : Fin (numChannels b)) :
      SameChannel ((ahead B info soc' p).masChanList k) (soc2'.masChanList k) := by
    rw [ahead_masChanList]
    exact foreseen_same hbuilt' k
  have hq := propagate_eq p hbuilt
  have hq' := propagate_eq p hbuilt'
  have hconfig : ahead B info soc' p = _ := ahead_eq soc soc' p
  obtain ⟨r, hr⟩ : ∃ r, r = ahead B info soc p := ⟨_, rfl⟩
  obtain ⟨r', hr'⟩ : ∃ r', r' = ahead B info soc' p := ⟨_, rfl⟩
  rw [← hr] at hq hsame hconfig ⊢
  rw [← hr'] at hq' hsame' hconfig ⊢
  obtain ⟨q, hqdef⟩ : ∃ q, q = p.regPropagateMasChanListToPdev B soc2 := ⟨_, rfl⟩
  obtain ⟨q', hqdef'⟩ : ∃ q', q' = p.regPropagateMasChanListToPdev B soc2' := ⟨_, rfl⟩
  simp only [inUse]
  rw [← hqdef, ← hqdef']
  rw [← hqdef] at hq
  rw [← hqdef'] at hq'
  have hback {s t : PdevPrivObj b} {l : ChanList b} (ht : t = { s with masChanList := l }) :
      s = { t with masChanList := s.masChanList } ∧ t.masChanList = l := by
    subst t
    exact ⟨rfl, rfl⟩
  have hqq : q' = { q with masChanList := soc2'.masChanList } := by
    rw [hq', hq, hconfig]
  rw [harmless_iff hqq]
  · constructor
    · intro hharmless
      apply hharmless.of_same (hback hq).1 (hback hq').1
      · intro k
        rw [(hback hq).2]
        exact sameChannel_symm (hsame k)
      · intro k
        rw [(hback hq').2]
        exact sameChannel_symm (hsame' k)
    · intro hharmless
      exact hharmless.of_same hq hq' hsame hsame'
  · intro k c hk
    refine ⟨ruled_agrees hk, ?_, ?_⟩
    · rw [(hback hq).2, hbuilt.masChanList, hk, Option.getD_some]
    · rw [hbuilt'.masChanList, hk, Option.getD_some]
  · intro k hk
    constructor
    · rw [(hback hq).2, hbuilt.masChanList, hk, Option.getD_none]
      exact dead_resetChannel _ _
    · rw [hbuilt'.masChanList, hk, Option.getD_none]
      exact dead_resetChannel _ _

/-- A country with one rule, that reaches from a frequency up to channel 13. -/
def country (startFreq : UInt16) : CurRegulatoryInfo where
  statusCode := .pass
  numPhy := 1
  phyId := 0
  regDmnPair := 0
  alpha2 := (85, 83)
  dfsRegion := .fcc
  minBw2g := 20
  maxBw2g := 40
  minBw5g := 20
  maxBw5g := 160
  regRules2g := [⟨startFreq, 2482, 40, 20, 0, 0⟩]
  regRules5g := []

def answers : TxOps where
  pdevAttached := true
  setCountryCode := .success
  sendCtlInfo := .success

def plainBuild : Build where
  featureDsrc := false
  disableJpCh144 := false
  dmnId5gOf _ := none

def oneCountry : List (Event false) :=
  [.report answers (country 2402)]

theorem takesOver_oneCountry :
    TakesOver plainBuild answers (country 2407) (PsocPrivObj.after (b := false) false []) ∧
      TakesOver plainBuild answers (country 2407) (PsocPrivObj.after false oneCountry) := by
  have hkept (soc : PsocPrivObj false) (h : soc.regIgnoreDefaultCountry = false) :
      ¬ soc.KeepsCountry answers (country 2407) := by
    intro hk
    rw [hk.1] at h
    cases h
  exact ⟨⟨by decide +kernel, hkept _ (by decide +kernel), by decide +kernel⟩,
    ⟨by decide +kernel, hkept _ (by decide +kernel), by decide +kernel⟩⟩

theorem inUse_same_iff_oneCountry :
    (∀ k, SameUnlessDisabled
        (inUse plainBuild (indoorIn24Ghz true)
          (PsocPrivObj.after false ([] ++ [.report answers (country 2407)])) k)
        (inUse plainBuild (indoorIn24Ghz true)
          (PsocPrivObj.after false (oneCountry ++ [.report answers (country 2407)])) k)) ↔
      Harmless ((country 2407).ruled (channelMap false .fcc))
        (ahead plainBuild (country 2407) (PsocPrivObj.after false []) (indoorIn24Ghz true))
        (ahead plainBuild (country 2407) (PsocPrivObj.after false oneCountry)
          (indoorIn24Ghz true)) :=
  inUse_same_iff plainBuild (indoorIn24Ghz true) (country 2407) answers answers [] oneCountry
    takesOver_oneCountry.1 takesOver_oneCountry.2

/-- The radio starts at 2410 MHz. With no width channel 1 is the lower limit, and channel 2 is in
range. With the width of the first country channel 1 lies below the limit, and so does channel 2. -/
theorem not_inUse_same :
    TakesOver plainBuild answers (country 2407) (PsocPrivObj.after (b := false) false []) ∧
      TakesOver plainBuild answers (country 2407) (PsocPrivObj.after false oneCountry) ∧
      ¬ ∀ k, SameUnlessDisabled
        (inUse plainBuild { indoorIn24Ghz true with range2gLow := 2410 }
          (PsocPrivObj.after false ([] ++ [.report answers (country 2407)])) k)
        (inUse plainBuild { indoorIn24Ghz true with range2gLow := 2410 }
          (PsocPrivObj.after false (oneCountry ++ [.report answers (country 2407)])) k) := by
  refine ⟨takesOver_oneCountry.1, takesOver_oneCountry.2, fun h => ?_⟩
  have hstate := (h ⟨1, by decide⟩).1
  revert hstate
  decide +kernel

end Histories

end KernelModules.RegChannels
