import KernelModules.RegChannels

/-!
# What the channel filters exclude

A filter that restricts leaves a channel as it was, disables it, or makes it passive while it is not
disabled. Restrictions compose, so that a disabled channel stays disabled. All filters restrict but
the one for indoor channels, which asks for the indoor flag alone.
-/

namespace KernelModules.RegChannels

variable {b : Bool}

def ChannelState.Up : ChannelState → ChannelState → Prop
  | .disable, .dfs => True
  | .disable, .enable => True
  | .dfs, .enable => True
  | _, _ => False

instance : DecidableRel ChannelState.Up := fun s t => by
  cases s <;> cases t <;> unfold ChannelState.Up <;> infer_instance

namespace RegulatoryChannel

theorem or_and_of_disjoint {flag mark : BitVec 32} (h : flag &&& mark = 0) (x : BitVec 32) :
    flag &&& (x ||| mark) = flag &&& x := by
  apply BitVec.eq_of_getLsbD_eq
  intro i hi
  have hbit : (flag.getLsbD i && mark.getLsbD i) = false := by
    rw [← BitVec.getLsbD_and, h]
    exact BitVec.getLsbD_zero
  rw [BitVec.getLsbD_and, BitVec.getLsbD_and, BitVec.getLsbD_or]
  revert hbit
  cases flag.getLsbD i <;> cases mark.getLsbD i <;> simp

@[simp] theorem disable_state (c : RegulatoryChannel) : c.disable.state = .disable := rfl

@[simp] theorem makePassive_state (c : RegulatoryChannel) : c.makePassive.state = .dfs := rfl

@[simp] theorem disable_disabled (c : RegulatoryChannel) :
    c.disable.hasFlag regulatoryChanDisabled = true := by
  have hbit : (regulatoryChanDisabled &&& (c.chanFlags ||| regulatoryChanDisabled)).getLsbD 0 =
      true := by
    simp [regulatoryChanDisabled]
  simp only [hasFlag, disable, bne_iff_ne, ne_eq]
  intro hzero
  simp [hzero] at hbit

@[simp] theorem disable_indoor (c : RegulatoryChannel) :
    c.disable.hasFlag regulatoryChanIndoorOnly = c.hasFlag regulatoryChanIndoorOnly := by
  simp only [hasFlag, disable]
  rw [or_and_of_disjoint (by decide)]

@[simp] theorem makePassive_disabled (c : RegulatoryChannel) :
    c.makePassive.hasFlag regulatoryChanDisabled = c.hasFlag regulatoryChanDisabled := by
  simp only [hasFlag, makePassive]
  rw [or_and_of_disjoint (by decide)]

@[simp] theorem makePassive_indoor (c : RegulatoryChannel) :
    c.makePassive.hasFlag regulatoryChanIndoorOnly = c.hasFlag regulatoryChanIndoorOnly := by
  simp only [hasFlag, makePassive]
  rw [or_and_of_disjoint (by decide)]

def Agrees (c : RegulatoryChannel) : Prop :=
  c.state = .disable ↔ c.hasFlag regulatoryChanDisabled = true

/-- Nothing but the state, the flags, the power and the widest bandwidth has changed. -/
structure SameChannel (c d : RegulatoryChannel) : Prop where
  centerFreq : d.centerFreq = c.centerFreq
  chanNum : d.chanNum = c.chanNum
  minBw : d.minBw = c.minBw
  nolChan : d.nolChan = c.nolChan
  indoor : d.hasFlag regulatoryChanIndoorOnly = c.hasFlag regulatoryChanIndoorOnly

theorem SameChannel.refl (c : RegulatoryChannel) : SameChannel c c :=
  ⟨rfl, rfl, rfl, rfl, rfl⟩

variable {c d : RegulatoryChannel}

theorem SameChannel.trans {e : RegulatoryChannel} (hcd : SameChannel c d)
    (hde : SameChannel d e) : SameChannel c e :=
  ⟨hde.centerFreq.trans hcd.centerFreq, hde.chanNum.trans hcd.chanNum,
    hde.minBw.trans hcd.minBw, hde.nolChan.trans hcd.nolChan, hde.indoor.trans hcd.indoor⟩

theorem SameChannel.lowEdge (h : SameChannel c d) : d.lowEdge = c.lowEdge := by
  simp only [RegulatoryChannel.lowEdge, h.centerFreq, h.minBw]

theorem SameChannel.highEdge (h : SameChannel c d) : d.highEdge = c.highEdge := by
  simp only [RegulatoryChannel.highEdge, h.centerFreq, h.minBw]

structure Restricts (c d : RegulatoryChannel) : Prop where
  same : SameChannel c d
  state : (d.state = c.state ∧
      d.hasFlag regulatoryChanDisabled = c.hasFlag regulatoryChanDisabled) ∨
    (d.state = .disable ∧ d.hasFlag regulatoryChanDisabled = true) ∨
    (d.state = .dfs ∧ c.hasFlag regulatoryChanDisabled = false ∧
      d.hasFlag regulatoryChanDisabled = false)

theorem Restricts.refl (c : RegulatoryChannel) : Restricts c c :=
  ⟨SameChannel.refl c, .inl ⟨rfl, rfl⟩⟩

theorem Restricts.trans {e : RegulatoryChannel} (hcd : Restricts c d) (hde : Restricts d e) :
    Restricts c e := by
  refine ⟨hcd.same.trans hde.same, ?_⟩
  rcases hde.state with ⟨hstate, hflag⟩ | hoff | ⟨hstate, hlive, hflag⟩
  · rw [hstate, hflag]
    exact hcd.state
  · exact .inr (.inl hoff)
  · rcases hcd.state with ⟨-, hsame⟩ | ⟨-, hoff⟩ | ⟨-, hwas, -⟩
    · exact .inr (.inr ⟨hstate, hsame.symm.trans hlive, hflag⟩)
    · rw [hoff] at hlive
      cases hlive
    · exact .inr (.inr ⟨hstate, hwas, hflag⟩)

theorem restricts_disable (c : RegulatoryChannel) : Restricts c c.disable :=
  ⟨⟨rfl, rfl, rfl, rfl, disable_indoor c⟩, .inr (.inl ⟨rfl, disable_disabled c⟩)⟩

theorem restricts_makePassive
    (h : c.hasFlag regulatoryChanDisabled = false) : Restricts c c.makePassive :=
  ⟨⟨rfl, rfl, rfl, rfl, makePassive_indoor c⟩,
    .inr (.inr ⟨rfl, h, (makePassive_disabled c).trans h⟩)⟩

theorem restricts_disable_makePassive (c : RegulatoryChannel) : Restricts c c.makePassive.disable :=
  ⟨⟨rfl, rfl, rfl, rfl, (disable_indoor _).trans (makePassive_indoor c)⟩,
    .inr (.inl ⟨rfl, disable_disabled _⟩)⟩

theorem Restricts.agrees (h : Restricts c d) (hc : c.Agrees) : d.Agrees := by
  unfold Agrees at hc ⊢
  rcases h.state with ⟨hstate, hflag⟩ | ⟨hstate, hflag⟩ | ⟨hstate, -, hflag⟩
  · rw [hstate, hflag]
    exact hc
  · simp [hstate, hflag]
  · simp [hstate, hflag]

theorem Restricts.disabled (h : Restricts c d)
    (hc : c.hasFlag regulatoryChanDisabled = true) : d.hasFlag regulatoryChanDisabled = true := by
  rcases h.state with ⟨-, hflag⟩ | ⟨-, hflag⟩ | ⟨-, hlive, -⟩
  · rw [hflag, hc]
  · exact hflag
  · rw [hc] at hlive
    cases hlive

theorem Restricts.not_up (h : Restricts c d) (hc : c.Agrees) : ¬ c.state.Up d.state := by
  rcases h.state with ⟨hstate, -⟩ | ⟨hstate, -⟩ | ⟨hstate, hlive, -⟩
  · rw [hstate]
    cases c.state <;> exact id
  · rw [hstate]
    cases c.state <;> exact id
  · have hne : c.state ≠ .disable := by
      intro hoff
      rw [hc.mp hoff] at hlive
      cases hlive
    rw [hstate]
    cases hs : c.state with
    | disable => exact absurd hs hne
    | passive => exact id
    | dfs => exact id
    | enable => exact id
    | invalid => exact id

end RegulatoryChannel

open RegulatoryChannel

/-- Nothing that the limits read or that says what the channel may do has changed. -/
structure Tuned (c d : RegulatoryChannel) : Prop where
  same : SameChannel c d
  state : d.state = c.state
  flags : d.chanFlags = c.chanFlags

theorem Tuned.refl (c : RegulatoryChannel) : Tuned c c :=
  ⟨SameChannel.refl c, rfl, rfl⟩

variable {c d e : RegulatoryChannel} {P Q : Prop}

theorem Tuned.trans (hcd : Tuned c d) (hde : Tuned d e) : Tuned c e :=
  ⟨hcd.same.trans hde.same, hde.state.trans hcd.state, hde.flags.trans hcd.flags⟩

theorem Tuned.restricts (h : Tuned c d) : Restricts c d := by
  refine ⟨h.same, .inl ⟨h.state, ?_⟩⟩
  simp only [hasFlag, h.flags]

theorem limitBw_tuned (c : RegulatoryChannel) (room : UInt32) : Tuned c (limitBw c room) :=
  ⟨⟨rfl, rfl, rfl, rfl, rfl⟩, rfl, rfl⟩

theorem update_limitBw_tuned (l : ChanList b) (j : Fin (numChannels b)) (room : UInt32)
    (k : Fin (numChannels b)) : Tuned (l k) (Function.update l j (limitBw (l j) room) k) := by
  by_cases hkj : k = j
  · subst k
    simpa using limitBw_tuned (l j) room
  · simpa [hkj] using Tuned.refl (l k)

/-- The channel is disabled when `P` holds and is left alone when it does not. -/
structure Excludes (P : Prop) (c d : RegulatoryChannel) : Prop where
  restricts : Restricts c d
  off : P → d.hasFlag regulatoryChanDisabled = true
  tuned : ¬ P → Tuned c d

theorem Excludes.congr (h : Excludes P c d) (hpq : P ↔ Q) : Excludes Q c d :=
  ⟨h.restricts, fun hq => h.off (hpq.mpr hq), fun hq => h.tuned (mt hpq.mp hq)⟩

theorem Excludes.trans (hcd : Excludes P c d) (hde : Excludes Q d e) : Excludes (P ∨ Q) c e := by
  refine ⟨hcd.restricts.trans hde.restricts, ?_, ?_⟩
  · intro hpq
    rcases hpq with hp | hq
    · exact hde.restricts.disabled (hcd.off hp)
    · exact hde.off hq
  · intro hpq
    exact (hcd.tuned (mt Or.inl hpq)).trans (hde.tuned (mt Or.inr hpq))

theorem Excludes.trans_congr {R : Prop} (hcd : Excludes P c d)
    (hde : Excludes Q d e) (hqr : Tuned c d → (Q ↔ R)) : Excludes (P ∨ R) c e := by
  apply (hcd.trans hde).congr
  by_cases hp : P
  · simp [hp]
  · rw [hqr (hcd.tuned hp)]

theorem Excludes.disabled_iff (h : Excludes P c d) :
    d.hasFlag regulatoryChanDisabled = true ↔
      c.hasFlag regulatoryChanDisabled = true ∨ P := by
  constructor
  · intro hd
    by_cases hp : P
    · exact .inr hp
    · left
      simpa only [hasFlag, (h.tuned hp).flags] using hd
  · intro hcp
    rcases hcp with hc | hp
    · exact h.restricts.disabled hc
    · exact h.off hp

theorem Tuned.excludes (h : Tuned c d) (hp : ¬ P) : Excludes P c d :=
  ⟨h.restricts, fun h => absurd h hp, fun _ => h⟩

theorem disableWhere_excludes (c : Fin (numChannels b) → RegulatoryChannel → Bool)
    (l : ChanList b) (k : Fin (numChannels b)) :
    Excludes (c k (l k) = true) (l k) (disableWhere c l k) := by
  unfold disableWhere
  split_ifs with hc
  · exact ⟨restricts_disable _, fun _ => disable_disabled _, fun h => absurd hc h⟩
  · exact (Tuned.refl _).excludes hc

theorem Excludes.ite {h : Prop} [Decidable h] {f : ChanList b → ChanList b} {l : ChanList b}
    {k : Fin (numChannels b)} (hf : Excludes P (l k) (f l k)) :
    Excludes (h ∧ P) (l k) ((if h then f l else l) k) := by
  split_ifs with hh
  · exact hf.congr (by simp [hh])
  · exact (Tuned.refl _).excludes (by simp [hh])

section Limits

variable {l l' : ChanList b}

theorem lowLimit_congr (h : ∀ k, SameChannel (l k) (l' k)) (lowFreq : UInt32) :
    lowLimit l' lowFreq = lowLimit l lowFreq := by
  unfold lowLimit
  congr 1
  funext k
  rw [(h k).lowEdge]

theorem highLimit_congr (h : ∀ k, SameChannel (l k) (l' k)) (highFreq : UInt32) :
    highLimit l' highFreq = highLimit l highFreq := by
  unfold highLimit
  congr 1
  funext k
  rw [(h k).highEdge]

theorem regChanInRange_congr (h : ∀ k, SameChannel (l k) (l' k)) (low2g high2g low5g high5g : UInt32)
    (k : Fin (numChannels b)) :
    regChanInRange l' low2g high2g low5g high5g k =
      regChanInRange l low2g high2g low5g high5g k := by
  simp only [regChanInRange, lowLimit_congr h, highLimit_congr h]

theorem regChanToFreq_congr (h : ∀ k, SameChannel (l k) (l' k)) (p : PdevPrivObj b)
    (chanNum : UInt8) : regChanToFreq p l' chanNum = regChanToFreq p l chanNum := by
  have hfound : (fun k => decide ((l' k).chanNum = chanNum) &&
        regChanInRange l' p.range2gLow p.range2gHigh p.range5gLow p.range5gHigh k) =
      fun k => decide ((l k).chanNum = chanNum) &&
        regChanInRange l p.range2gLow p.range2gHigh p.range5gLow p.range5gHigh k := by
    funext k
    rw [(h k).chanNum, regChanInRange_congr h]
  unfold regChanToFreq
  rw [hfound]
  split_ifs
  · rfl
  · split
    · rfl
    · exact (h _).centerFreq

theorem regFindLowLimitChanEnum_spec (l : ChanList b) (lowFreq : UInt32) :
    (∀ k, Tuned (l k) ((regFindLowLimitChanEnum l lowFreq).1 k)) ∧
      (regFindLowLimitChanEnum l lowFreq).2 = lowLimit l lowFreq := by
  unfold regFindLowLimitChanEnum
  cases h : lowLimit l lowFreq with
  | none => exact ⟨fun k => .refl _, rfl⟩
  | some j =>
    dsimp only
    split_ifs
    · exact ⟨update_limitBw_tuned l j _, rfl⟩
    · exact ⟨fun k => .refl _, rfl⟩

theorem regFindHighLimitChanEnum_spec (l : ChanList b) (highFreq : UInt32) :
    (∀ k, Tuned (l k) ((regFindHighLimitChanEnum l highFreq).1 k)) ∧
      (regFindHighLimitChanEnum l highFreq).2 = highLimit l highFreq := by
  unfold regFindHighLimitChanEnum
  cases h : highLimit l highFreq with
  | none => exact ⟨fun k => .refl _, rfl⟩
  | some j =>
    dsimp only
    split_ifs
    · exact ⟨update_limitBw_tuned l j _, rfl⟩
    · exact ⟨fun k => .refl _, rfl⟩

theorem regModifyChanListForFreqRange_spec (l : ChanList b) (low2g high2g low5g high5g : UInt32) :
    ∃ l' : ChanList b, (∀ k, Tuned (l k) (l' k)) ∧ ∀ k,
      regModifyChanListForFreqRange l low2g high2g low5g high5g k =
        if regChanInRange l low2g high2g low5g high5g k then l' k else (l' k).disable := by
  obtain ⟨h1, hlow2g⟩ := regFindLowLimitChanEnum_spec l low2g
  generalize hfind1 : regFindLowLimitChanEnum l low2g = r1 at h1 hlow2g
  obtain ⟨h2, hlow5g⟩ := regFindLowLimitChanEnum_spec r1.1 low5g
  generalize hfind2 : regFindLowLimitChanEnum r1.1 low5g = r2 at h2 hlow5g
  obtain ⟨h3, hhigh2g⟩ := regFindHighLimitChanEnum_spec r2.1 high2g
  generalize hfind3 : regFindHighLimitChanEnum r2.1 high2g = r3 at h3 hhigh2g
  obtain ⟨h4, hhigh5g⟩ := regFindHighLimitChanEnum_spec r3.1 high5g
  generalize hfind4 : regFindHighLimitChanEnum r3.1 high5g = r4 at h4 hhigh5g
  have h12 (k : Fin (numChannels b)) : Tuned (l k) (r2.1 k) := (h1 k).trans (h2 k)
  have h13 (k : Fin (numChannels b)) : Tuned (l k) (r3.1 k) := (h12 k).trans (h3 k)
  refine ⟨r4.1, fun k => (h13 k).trans (h4 k), fun k => ?_⟩
  rw [lowLimit_congr fun k => (h1 k).same] at hlow5g
  rw [highLimit_congr fun k => (h12 k).same] at hhigh2g
  rw [highLimit_congr fun k => (h13 k).same] at hhigh5g
  have hrange : regChanInRange l low2g high2g low5g high5g k =
      (between r1.2 r3.2 k || between r2.2 r4.2 k) := by
    rw [hlow2g, hlow5g, hhigh2g, hhigh5g]
    rfl
  rw [hrange, regModifyChanListForFreqRange]
  simp only [hfind1, hfind2, hfind3, hfind4]

end Limits

section Excluding

variable (l : ChanList b) (k : Fin (numChannels b))

theorem regModifyChanListForFreqRange_excludes (low2g high2g low5g high5g : UInt32) :
    Excludes (regChanInRange l low2g high2g low5g high5g k = false) (l k)
      (regModifyChanListForFreqRange l low2g high2g low5g high5g k) := by
  obtain ⟨l', htuned, hspec⟩ := regModifyChanListForFreqRange_spec l low2g high2g low5g high5g
  rw [hspec]
  split_ifs with hin
  · exact (htuned k).excludes (by simp [hin])
  · refine ⟨(htuned k).restricts.trans (restricts_disable _), fun _ => disable_disabled _, ?_⟩
    intro hout
    simp [hin] at hout

theorem disableFromTo_excludes (first last : ℕ) :
    Excludes (first ≤ k ∧ k ≤ last) (l k) (disableFromTo first last l k) :=
  (disableWhere_excludes _ l k).congr (by simp)

theorem regModifyChanListForBand_excludes (band : BandInfo) :
    Excludes (band = .band2G ∧ min5GhzChannel ≤ k ∧ k ≤ max5GhzChannel ∨
        band = .band5G ∧ min24GhzChannel ≤ k ∧ k ≤ max24GhzChannel) (l k)
      (regModifyChanListForBand l band k) :=
  (disableFromTo_excludes l k min5GhzChannel max5GhzChannel).ite.trans
    (disableFromTo_excludes _ k min24GhzChannel max24GhzChannel).ite

theorem regRemoveUniiChanFromChanList_excludes {first last : ℕ}
    (h : (regIs5gEnum first && regIs5gEnum last) = true) :
    Excludes (first ≤ k ∧ k ≤ last) (l k) (regRemoveUniiChanFromChanList l first last k) := by
  unfold regRemoveUniiChanFromChanList
  rw [if_pos h]
  exact disableFromTo_excludes l k first last

theorem regModifyDisableChanListForUnii1AndUnii2a_excludes (bitmap : BitVec 8) :
    Excludes (regIsRegUniiBand1Set bitmap = true ∧ minUnii1BandChannel ≤ k ∧
          k ≤ maxUnii1BandChannel ∨
        regIsRegUniiBand2aSet bitmap = true ∧ minUnii2aBandChannel ≤ k ∧
          k ≤ maxUnii2aBandChannel) (l k)
      (regModifyDisableChanListForUnii1AndUnii2a l bitmap k) :=
  (regRemoveUniiChanFromChanList_excludes l k (by decide)).ite.trans
    (regRemoveUniiChanFromChanList_excludes _ k (by decide)).ite

theorem regModifyChanListForDfsChannels_excludes (dfsEnabled : Bool) :
    Excludes (dfsEnabled = false ∧ (l k).state = .dfs) (l k)
      (regModifyChanListForDfsChannels l dfsEnabled k) := by
  unfold regModifyChanListForDfsChannels
  cases dfsEnabled with
  | false =>
    exact (disableWhere_excludes (fun _ c => decide (c.state = .dfs)) l k).congr (by simp)
  | true => exact (Tuned.refl _).excludes (by simp)

theorem regModifyChanListForNolList_excludes :
    Excludes ((l k).nolChan = true) (l k) (regModifyChanListForNolList l k) :=
  disableWhere_excludes (fun _ c => c.nolChan) l k

theorem regModifyChanListForFccChannel_tuned (setFcc : Bool) :
    Tuned (l k) (regModifyChanListForFccChannel l setFcc k) := by
  unfold regModifyChanListForFccChannel
  split_ifs with hset
  · dsimp only
    split_ifs
    · exact ⟨⟨rfl, rfl, rfl, rfl, rfl⟩, rfl, rfl⟩
    · exact ⟨⟨rfl, rfl, rfl, rfl, rfl⟩, rfl, rfl⟩
    · exact .refl _
  · exact .refl _

theorem regModifyChanListForChan144_excludes (enChan144 : Bool) :
    Excludes (enChan144 = false ∧ (l k).centerFreq = chan144CentFreq) (l k)
      (regModifyChanListForChan144 l enChan144 k) := by
  unfold regModifyChanListForChan144
  cases enChan144 with
  | false =>
    exact (disableWhere_excludes (fun _ c => decide (c.centerFreq = chan144CentFreq)) l k).congr
      (by simp)
  | true => exact (Tuned.refl _).excludes (by simp)

theorem foldl_cached_excludes (cache : List RegulatoryChannel) :
    Excludes (∃ cached ∈ cache, cached.chanNum = (l k).chanNum) (l k)
      (cache.foldl (fun l cached =>
        disableWhere (fun _ c => decide (cached.chanNum = c.chanNum)) l) l k) := by
  induction cache generalizing l with
  | nil => exact (Tuned.refl _).excludes (by simp)
  | cons cached cache ih =>
    rw [List.foldl_cons]
    have hfirst := disableWhere_excludes (fun _ c => decide (cached.chanNum = c.chanNum)) l k
    apply (hfirst.trans (ih _)).congr
    simp [hfirst.restricts.same.chanNum]

theorem regModifyChanListForCachedChannels_excludes (p : PdevPrivObj b) :
    Excludes (p.disableCachedChannels = true ∧
        ∃ cached ∈ p.cacheDisableChanList, cached.chanNum = (l k).chanNum) (l k)
      (regModifyChanListForCachedChannels p l k) := by
  unfold regModifyChanListForCachedChannels
  split_ifs with hdisable
  · exact (foldl_cached_excludes l k p.cacheDisableChanList).congr (by simp [hdisable])
  · exact (Tuned.refl _).excludes (by simp [hdisable])

theorem isLiveSrdChan_makePassive (p : PdevPrivObj b) (j : Fin (numChannels b)) :
    isLiveSrdChan p (Function.update l j (l j).makePassive) k = isLiveSrdChan p l k := by
  have hsame (i : Fin (numChannels b)) :
      SameChannel (l i) (Function.update l j (l j).makePassive i) ∧
        (Function.update l j (l j).makePassive i).hasFlag regulatoryChanDisabled =
          (l i).hasFlag regulatoryChanDisabled := by
    by_cases hij : i = j
    · subst i
      simpa using ⟨rfl, rfl, rfl, rfl, makePassive_indoor (l j)⟩
    · simpa [hij] using SameChannel.refl (l i)
  generalize Function.update l j (l j).makePassive = l' at hsame
  have hfreq := regChanToFreq_congr fun i => (hsame i).1
  simp only [isLiveSrdChan, regIsEtsi13SrdChan, (hsame k).2, (hsame k).1.chanNum, hfreq]

theorem regModifyChanListForSrdChannels_restricts (p : PdevPrivObj b) :
    Restricts (l k) (regModifyChanListForSrdChannels p l k) := by
  unfold regModifyChanListForSrdChannels
  split_ifs
  · exact .refl _
  · exact .refl _
  · rw [Passes.inPlace_apply (fun l j k => isLiveSrdChan_makePassive l k p j)
      (List.nodup_finRange _)]
    split_ifs with hlive
    · apply restricts_makePassive
      have hlive := hlive.2
      simp only [isLiveSrdChan, Bool.and_eq_true, Bool.not_eq_true'] at hlive
      exact hlive.1
    · exact .refl _

end Excluding

section Sequence

variable (p : PdevPrivObj b)

/-- The filters before the one for indoor channels. -/
def filtersBeforeIndoor : List (ChanList b → ChanList b) :=
  [fun l => regModifyChanListForFreqRange l p.range2gLow p.range2gHigh p.range5gLow p.range5gHigh,
    fun l => regModifyChanListForBand l p.bandCapability,
    fun l => regModifyDisableChanListForUnii1AndUnii2a l p.unii5gBitmap,
    fun l => regModifyChanListForDfsChannels l p.dfsEnabled,
    regModifyChanListForNolList]

def filtersAfterIndoor : List (ChanList b → ChanList b) :=
  [fun l => regModifyChanListForFccChannel l p.setFccChannel,
    fun l => regModifyChanListForChan144 l p.enChan144,
    regModifyChanListForCachedChannels p,
    regModifyChanListForSrdChannels p]

def filters : List (ChanList b → ChanList b) :=
  filtersBeforeIndoor p ++ regModifyChanListForIndoorChannels p :: filtersAfterIndoor p

theorem regComputePdevCurrentChanList_eq :
    regComputePdevCurrentChanList p = Passes.runAll (filters p) p.masChanList := rfl

variable (k : Fin (numChannels b))

def OutOfRange : Prop :=
  regChanInRange p.masChanList p.range2gLow p.range2gHigh p.range5gLow p.range5gHigh k = false

def OutOfBand : Prop :=
  p.bandCapability = .band2G ∧ min5GhzChannel ≤ k ∧ k ≤ max5GhzChannel ∨
    p.bandCapability = .band5G ∧ min24GhzChannel ≤ k ∧ k ≤ max24GhzChannel

def InUniiRemoved : Prop :=
  regIsRegUniiBand1Set p.unii5gBitmap = true ∧ minUnii1BandChannel ≤ k ∧ k ≤ maxUnii1BandChannel ∨
    regIsRegUniiBand2aSet p.unii5gBitmap = true ∧ minUnii2aBandChannel ≤ k ∧
      k ≤ maxUnii2aBandChannel

/-- The master list has the channel disabled, or a filter that comes before the one for indoor
channels excludes it. -/
def ExcludedBeforeIndoor : Prop :=
  (p.masChanList k).hasFlag regulatoryChanDisabled = true ∨ OutOfRange p k ∨ OutOfBand p k ∨
    InUniiRemoved p k ∨ (p.dfsEnabled = false ∧ (p.masChanList k).state = .dfs) ∨
    (p.masChanList k).nolChan = true

/-- The master list has the channel disabled, or one of the filters excludes it. -/
def Excluded : Prop :=
  ExcludedBeforeIndoor p k ∨
    (p.forceSscDisableIndoorChannel = true ∧ p.sapState = true ∧
      (p.masChanList k).hasFlag regulatoryChanIndoorOnly = true) ∨
    (p.enChan144 = false ∧ (p.masChanList k).centerFreq = chan144CentFreq) ∨
    (p.disableCachedChannels = true ∧
      ∃ cached ∈ p.cacheDisableChanList, cached.chanNum = (p.masChanList k).chanNum)

end Sequence

def Coherent (l : ChanList b) : Prop :=
  ∀ k, (l k).Agrees

structure NeverReenables (p : PdevPrivObj b) : Prop where
  coherent : Coherent (regComputePdevCurrentChanList p)
  excluded : ∀ k, Excluded p k → (regComputePdevCurrentChanList p k).state = .disable
  down : Passes.Each (fun l l' => ∀ k, ¬ (l k).state.Up (l' k).state) (filters p) p.masChanList

/-- The filter for indoor channels has nothing to bring back: it leaves them as they are, it takes
them all out, or none of them is disabled when it comes to them. -/
def IndoorHarmless (p : PdevPrivObj b) : Prop :=
  p.indoorChanEnabled = true ∨
    (p.forceSscDisableIndoorChannel = true ∧ p.sapState = true) ∨
    ∀ k, (p.masChanList k).hasFlag regulatoryChanIndoorOnly = true → ¬ ExcludedBeforeIndoor p k

section Together

variable (p : PdevPrivObj b) (l : ChanList b) (k : Fin (numChannels b))

variable {f : ChanList b → ChanList b}

theorem restricts_of_mem_before (hf : f ∈ filtersBeforeIndoor p) : Restricts (l k) (f l k) := by
  simp only [filtersBeforeIndoor, List.mem_cons, List.not_mem_nil, or_false] at hf
  rcases hf with rfl | rfl | rfl | rfl | rfl
  · exact (regModifyChanListForFreqRange_excludes l k _ _ _ _).restricts
  · exact (regModifyChanListForBand_excludes l k _).restricts
  · exact (regModifyDisableChanListForUnii1AndUnii2a_excludes l k _).restricts
  · exact (regModifyChanListForDfsChannels_excludes l k _).restricts
  · exact (regModifyChanListForNolList_excludes l k).restricts

theorem restricts_of_mem_after (hf : f ∈ filtersAfterIndoor p) : Restricts (l k) (f l k) := by
  simp only [filtersAfterIndoor, List.mem_cons, List.not_mem_nil, or_false] at hf
  rcases hf with rfl | rfl | rfl | rfl
  · exact (regModifyChanListForFccChannel_tuned l k _).restricts
  · exact (regModifyChanListForChan144_excludes l k _).restricts
  · exact (regModifyChanListForCachedChannels_excludes l k p).restricts
  · exact regModifyChanListForSrdChannels_restricts l k p

def beforeIndoor : ChanList b :=
  Passes.runAll (filtersBeforeIndoor p) p.masChanList

theorem beforeIndoor_excludes :
    Excludes (OutOfRange p k ∨ OutOfBand p k ∨ InUniiRemoved p k ∨
        (p.dfsEnabled = false ∧ (p.masChanList k).state = .dfs) ∨
        (p.masChanList k).nolChan = true) (p.masChanList k) (beforeIndoor p k) := by
  have hrange := regModifyChanListForFreqRange_excludes p.masChanList k p.range2gLow p.range2gHigh
    p.range5gLow p.range5gHigh
  have hband := hrange.trans (regModifyChanListForBand_excludes _ k p.bandCapability)
  have hunii := hband.trans (regModifyDisableChanListForUnii1AndUnii2a_excludes _ k p.unii5gBitmap)
  have hdfs := hunii.trans_congr (R := p.dfsEnabled = false ∧ (p.masChanList k).state = .dfs)
    (regModifyChanListForDfsChannels_excludes _ k p.dfsEnabled) (fun h => by rw [h.state])
  have hnol := hdfs.trans_congr (R := (p.masChanList k).nolChan = true)
    (regModifyChanListForNolList_excludes _ k) (fun h => by rw [h.same.nolChan])
  apply hnol.congr
  simp only [OutOfRange, OutOfBand, InUniiRemoved, or_assoc]

theorem beforeIndoor_disabled :
    (beforeIndoor p k).hasFlag regulatoryChanDisabled = true ↔ ExcludedBeforeIndoor p k :=
  (beforeIndoor_excludes p k).disabled_iff

theorem indoor_restricts
    (h : p.indoorChanEnabled = true ∨
      (p.forceSscDisableIndoorChannel = true ∧ p.sapState = true) ∨
      ((l k).hasFlag regulatoryChanIndoorOnly = true →
        (l k).hasFlag regulatoryChanDisabled = false)) :
    Restricts (l k) (regModifyChanListForIndoorChannels p l k) := by
  unfold regModifyChanListForIndoorChannels disableWhere
  cases hindoor : (l k).hasFlag regulatoryChanIndoorOnly with
  | false =>
    cases p.indoorChanEnabled <;>
      cases p.forceSscDisableIndoorChannel && p.sapState <;> simpa [hindoor] using .refl _
  | true =>
    cases hforced : p.forceSscDisableIndoorChannel && p.sapState with
    | true =>
      cases p.indoorChanEnabled with
      | false => simpa [hindoor] using restricts_disable_makePassive (l k)
      | true => simpa [hindoor] using restricts_disable (l k)
    | false =>
      cases henabled : p.indoorChanEnabled with
      | false =>
        have hlive : (l k).hasFlag regulatoryChanDisabled = false := by
          rcases h with h | ⟨hforce, hsap⟩ | h
          · simp [henabled] at h
          · simp [hforce, hsap] at hforced
          · exact h hindoor
        simpa [hindoor] using restricts_makePassive hlive
      | true => simpa using Restricts.refl (l k)

theorem indoor_forced (hforce : p.forceSscDisableIndoorChannel = true) (hsap : p.sapState = true)
    (hindoor : (l k).hasFlag regulatoryChanIndoorOnly = true) :
    (regModifyChanListForIndoorChannels p l k).hasFlag regulatoryChanDisabled = true := by
  unfold regModifyChanListForIndoorChannels disableWhere
  cases p.indoorChanEnabled <;> simp [hforce, hsap, hindoor]

theorem indoor_bringsBack (hoff : p.indoorChanEnabled = false)
    (hforced : ¬ (p.forceSscDisableIndoorChannel = true ∧ p.sapState = true))
    (hindoor : (l k).hasFlag regulatoryChanIndoorOnly = true) :
    (regModifyChanListForIndoorChannels p l k).state = .dfs := by
  unfold regModifyChanListForIndoorChannels
  simp [hoff, hforced, hindoor]

end Together

section Main

variable {p : PdevPrivObj b}

theorem beforeIndoor_agrees (hmas : Coherent p.masChanList) : Coherent (beforeIndoor p) :=
  fun k => (beforeIndoor_excludes p k).restricts.agrees (hmas k)

theorem IndoorHarmless.restricts (h : IndoorHarmless p) (k : Fin (numChannels b)) :
    Restricts (beforeIndoor p k) (regModifyChanListForIndoorChannels p (beforeIndoor p) k) := by
  apply indoor_restricts
  rcases h with henabled | hforced | hclear
  · exact .inl henabled
  · exact .inr (.inl hforced)
  · refine .inr (.inr fun hindoor => ?_)
    have hsame := (beforeIndoor_excludes p k).restricts.same.indoor
    have hfree := hclear k (hsame.symm.trans hindoor)
    rw [← beforeIndoor_disabled] at hfree
    simpa using hfree

theorem disabled_of_afterIndoor {k : Fin (numChannels b)} (gs fs : List (ChanList b → ChanList b))
    (hsplit : filtersAfterIndoor p = gs ++ fs) {l : ChanList b}
    (h : (l k).hasFlag regulatoryChanDisabled = true) :
    (Passes.runAll fs l k).hasFlag regulatoryChanDisabled = true := by
  apply Passes.runAll_keeps (I := fun l : ChanList b => (l k).hasFlag regulatoryChanDisabled = true) _ h
  intro f hf l hl
  have hmem : f ∈ filtersAfterIndoor p := by
    rw [hsplit]
    exact List.mem_append_right _ hf
  exact (restricts_of_mem_after p l k hmem).disabled hl

theorem restricts_afterIndoor (fs gs : List (ChanList b → ChanList b))
    (hsplit : filtersAfterIndoor p = fs ++ gs) (l : ChanList b) (k : Fin (numChannels b)) :
    Restricts (l k) (Passes.runAll fs l k) := by
  apply Passes.runAll_keeps (I := fun l' : ChanList b => Restricts (l k) (l' k)) _ (.refl _)
  intro f hf l' hl'
  have hmem : f ∈ filtersAfterIndoor p := by
    rw [hsplit]
    exact List.mem_append_left _ hf
  exact hl'.trans (restricts_of_mem_after p l' k hmem)

theorem IndoorHarmless.disabled (h : IndoorHarmless p) {k : Fin (numChannels b)}
    (hout : Excluded p k) :
    (regComputePdevCurrentChanList p k).hasFlag regulatoryChanDisabled = true := by
  have hindoor := h.restricts k
  have hsame := (beforeIndoor_excludes p k).restricts.same.trans hindoor.same
  generalize hl : regModifyChanListForIndoorChannels p (beforeIndoor p) = l at hindoor hsame
  have hrun : regComputePdevCurrentChanList p = Passes.runAll (filtersAfterIndoor p) l := by
    rw [regComputePdevCurrentChanList_eq, filters, Passes.runAll_append, Passes.runAll_cons, ← hl]
    rfl
  rw [hrun]
  rcases hout with hbefore | ⟨hforce, hsap, hflag⟩ | hchan144 | hcached
  · apply disabled_of_afterIndoor [] (filtersAfterIndoor p) rfl
    exact hindoor.disabled ((beforeIndoor_disabled p k).mpr hbefore)
  · apply disabled_of_afterIndoor [] (filtersAfterIndoor p) rfl
    rw [← hl]
    apply indoor_forced p _ k hforce hsap
    rw [(beforeIndoor_excludes p k).restricts.same.indoor, hflag]
  · have hfcc := restricts_afterIndoor ((filtersAfterIndoor p).take 1)
      ((filtersAfterIndoor p).drop 1) rfl l k
    apply disabled_of_afterIndoor ((filtersAfterIndoor p).take 2) ((filtersAfterIndoor p).drop 2) rfl
    apply (regModifyChanListForChan144_excludes _ k p.enChan144).off
    rw [← hsame.centerFreq, ← hfcc.same.centerFreq] at hchan144
    exact hchan144
  · have hchan144 := restricts_afterIndoor ((filtersAfterIndoor p).take 2)
      ((filtersAfterIndoor p).drop 2) rfl l k
    apply disabled_of_afterIndoor ((filtersAfterIndoor p).take 3) ((filtersAfterIndoor p).drop 3) rfl
    apply (regModifyChanListForCachedChannels_excludes _ k p).off
    rw [← hsame.chanNum, ← hchan144.same.chanNum] at hcached
    exact hcached

theorem IndoorHarmless.agrees (h : IndoorHarmless p) (hmas : Coherent p.masChanList) :
    Coherent (regModifyChanListForIndoorChannels p (beforeIndoor p)) :=
  fun k => (h.restricts k).agrees (beforeIndoor_agrees hmas k)

theorem each_down {fs : List (ChanList b → ChanList b)} {l : ChanList b}
    (hfs : ∀ f ∈ fs, ∀ l k, Restricts (l k) (f l k)) (hl : Coherent l) :
    Passes.Each (fun l l' : ChanList b => ∀ k, ¬ (l k).state.Up (l' k).state) fs l := by
  apply Passes.each_of_keeps (I := Coherent) _ _ hl
  · intro f hf l hl k
    exact (hfs f hf l k).agrees (hl k)
  · intro f hf l hl k
    exact (hfs f hf l k).not_up (hl k)

theorem IndoorHarmless.neverReenables (h : IndoorHarmless p) (hmas : Coherent p.masChanList) :
    NeverReenables p := by
  have hcoherent : Coherent (regComputePdevCurrentChanList p) := fun k =>
    (restricts_afterIndoor _ _ (List.append_nil (filtersAfterIndoor p)).symm _ k).agrees
      (h.agrees hmas k)
  refine ⟨hcoherent, fun k hout => (hcoherent k).mpr (h.disabled hout), ?_⟩
  apply Passes.each_append.mpr
  refine ⟨each_down (fun f hf l k => restricts_of_mem_before p l k hf) hmas, fun k => ?_, ?_⟩
  · exact (h.restricts k).not_up (beforeIndoor_agrees hmas k)
  · exact each_down (fun f hf l k => restricts_of_mem_after p l k hf) (h.agrees hmas)

/-- The list in use never has a channel back that the master list or a filter took out, exactly when
the filter for indoor channels meets no disabled channel that it would make passive. -/
theorem neverReenables_iff (p : PdevPrivObj b) (hmas : Coherent p.masChanList) :
    NeverReenables p ↔ IndoorHarmless p := by
  constructor
  · intro h
    by_contra hharm
    simp only [IndoorHarmless, not_or, not_forall, not_not] at hharm
    obtain ⟨henabled, hforced, k, hindoor, hout⟩ := hharm
    have hflag := (beforeIndoor_excludes p k).restricts.same.indoor.trans hindoor
    have hback := indoor_bringsBack p (beforeIndoor p) k (by simpa using henabled) hforced hflag
    have hoff : (beforeIndoor p k).state = .disable :=
      (beforeIndoor_agrees hmas k).mpr ((beforeIndoor_disabled p k).mpr hout)
    have hdown := (Passes.each_append.mp h.down).2.1 k
    change ¬ (beforeIndoor p k).state.Up
      (regModifyChanListForIndoorChannels p (beforeIndoor p) k).state at hdown
    rw [hoff, hback] at hdown
    exact hdown trivial
  · intro h
    exact h.neverReenables hmas

/-- Every channel is for indoor use, and the radio is held to the 2.4 GHz band. -/
def indoorIn24Ghz (indoorChanEnabled : Bool) : PdevPrivObj false where
  masChanList k :=
    { centerFreq := if k.val < 56 then 2412 + 5 * UInt32.ofNat k else 4060 + 20 * UInt32.ofNat k
      chanNum := UInt8.ofNat k
      state := .enable
      chanFlags := regulatoryChanIndoorOnly
      txPower := 20
      minBw := 20
      maxBw := 20
      antGain := 0
      nolChan := false }
  cacheDisableChanList := []
  disableCachedChannels := false
  unii5gBitmap := 0
  range2gLow := 2312
  range2gHigh := 2732
  range5gLow := 4912
  range5gHigh := 6100
  dfsEnabled := true
  setFccChannel := false
  bandCapability := .band2G
  indoorChanEnabled := indoorChanEnabled
  enChan144 := true
  forceSscDisableIndoorChannel := false
  sapState := false
  dmnId5g := none
  enableSrdChanInMasterMode := some false
  regMin5GhzChNum := 36
  regMax5GhzChNum := 184

theorem indoorIn24Ghz_coherent (indoorChanEnabled : Bool) :
    Coherent (indoorIn24Ghz indoorChanEnabled).masChanList := by
  intro k
  have hflag : regulatoryChanDisabled &&& regulatoryChanIndoorOnly = 0 := by decide
  simp [Agrees, hasFlag, indoorIn24Ghz, hflag]

theorem neverReenables_iff_indoorIn24Ghz :
    Coherent (indoorIn24Ghz true).masChanList ∧
      (NeverReenables (indoorIn24Ghz true) ↔ IndoorHarmless (indoorIn24Ghz true)) :=
  ⟨indoorIn24Ghz_coherent true,
    neverReenables_iff (indoorIn24Ghz true) (indoorIn24Ghz_coherent true)⟩

/-- The band takes the first channel at 5 GHz out, and the filter for indoor channels makes it
passive. -/
theorem indoorIn24Ghz_reenables :
    Coherent (indoorIn24Ghz false).masChanList ∧ ¬ NeverReenables (indoorIn24Ghz false) := by
  refine ⟨indoorIn24Ghz_coherent false, fun h => ?_⟩
  have hband : OutOfBand (indoorIn24Ghz false) ⟨56, by decide⟩ := .inl ⟨rfl, by decide, by decide⟩
  have hoff := h.excluded ⟨56, by decide⟩ (.inl (.inr (.inr (.inl hband))))
  revert hoff
  decide +kernel

end Main

end KernelModules.RegChannels
