import KernelModules.RegChannels

/-!
# The maps of channels

Every region has its own map of channel numbers over the same frequencies. A frequency that a region
has no number for stays in the map.
-/

namespace KernelModules.RegChannels

inductive DfsReg where
  | uninit | fcc | etsi | mkk | cn | kr | mkkn | undef

structure ChanMap where
  centerFreq : UInt32
  chanNum : UInt8
  minBw : UInt16
  maxBw : UInt16

def invalidChannelNum : UInt8 := 0

def unnumbered (maxBw : UInt16) (centerFreq : UInt32) : ChanMap :=
  ⟨centerFreq, invalidChannelNum, 2, maxBw⟩

def numbered (entry : UInt32 × UInt8) : ChanMap :=
  ⟨entry.1, entry.2, 2, 160⟩

def chanMap24Ghz : List ChanMap :=
  [⟨2412, 1, 20, 40⟩, ⟨2417, 2, 20, 40⟩, ⟨2422, 3, 20, 40⟩, ⟨2427, 4, 20, 40⟩, ⟨2432, 5, 20, 40⟩,
    ⟨2437, 6, 20, 40⟩, ⟨2442, 7, 20, 40⟩, ⟨2447, 8, 20, 40⟩, ⟨2452, 9, 20, 40⟩,
    ⟨2457, 10, 20, 40⟩, ⟨2462, 11, 20, 40⟩, ⟨2467, 12, 20, 40⟩, ⟨2472, 13, 20, 40⟩,
    ⟨2484, 14, 20, 20⟩]

def low49Ghz : List UInt32 :=
  [4912, 4915, 4917, 4920, 4922, 4925, 4927, 4932, 4935, 4937, 4940]

def mid49Ghz : List UInt32 :=
  [4942, 4945, 4947, 4950, 4952, 4955, 4957, 4960, 4962, 4965, 4967, 4970, 4972, 4975, 4977, 4980,
    4982, 4985, 4987]

def high49Ghz : List UInt32 :=
  [5032, 5035, 5037, 5040, 5042, 5045, 5047, 5052, 5055, 5057, 5060, 5080]

def chanMap49GhzUs : List ChanMap :=
  low49Ghz.map (unnumbered 20) ++
    [⟨4942, 1, 5, 5⟩, ⟨4945, 11, 10, 10⟩, ⟨4947, 2, 5, 5⟩, ⟨4950, 20, 10, 20⟩, ⟨4952, 3, 5, 5⟩,
      ⟨4955, 21, 10, 20⟩, ⟨4957, 4, 5, 5⟩, ⟨4960, 22, 10, 20⟩, ⟨4962, 5, 5, 5⟩,
      ⟨4965, 23, 10, 20⟩, ⟨4967, 6, 5, 5⟩, ⟨4970, 24, 10, 20⟩, ⟨4972, 7, 5, 5⟩,
      ⟨4975, 25, 10, 20⟩, ⟨4977, 8, 5, 5⟩, ⟨4980, 26, 10, 20⟩, ⟨4982, 9, 5, 5⟩,
      ⟨4985, 19, 10, 10⟩, ⟨4987, 10, 5, 5⟩] ++
  high49Ghz.map (unnumbered 20)

def chanMap49GhzJp : List ChanMap :=
  [⟨4912, 182, 5, 5⟩, ⟨4915, 183, 10, 10⟩, ⟨4917, 183, 5, 5⟩, ⟨4920, 184, 10, 20⟩,
    ⟨4922, 184, 5, 5⟩, ⟨4925, 185, 10, 10⟩, ⟨4927, 185, 5, 5⟩, ⟨4932, 186, 5, 5⟩,
    ⟨4935, 187, 10, 10⟩, ⟨4937, 187, 5, 5⟩, ⟨4940, 188, 10, 20⟩, ⟨4942, 188, 5, 5⟩,
    ⟨4945, 189, 10, 10⟩, ⟨4947, 189, 5, 5⟩] ++
  [unnumbered 20 4950, unnumbered 20 4952, unnumbered 20 4955, unnumbered 20 4957,
    ⟨4960, 192, 20, 20⟩, unnumbered 20 4962, unnumbered 20 4965, unnumbered 20 4967,
    unnumbered 20 4970, unnumbered 20 4972, unnumbered 20 4975, unnumbered 20 4977,
    ⟨4980, 196, 20, 20⟩, unnumbered 20 4982, unnumbered 20 4985, unnumbered 20 4987] ++
  [⟨5032, 6, 5, 5⟩, ⟨5035, 7, 10, 10⟩, ⟨5037, 7, 5, 5⟩, ⟨5040, 8, 10, 20⟩, ⟨5042, 8, 5, 5⟩,
    ⟨5045, 9, 10, 10⟩, ⟨5047, 9, 5, 5⟩, ⟨5052, 10, 5, 5⟩, ⟨5055, 11, 10, 10⟩, ⟨5057, 11, 5, 5⟩,
    ⟨5060, 12, 20, 20⟩, ⟨5080, 16, 20, 20⟩]

def chanMap49GhzNone : List ChanMap :=
  (low49Ghz ++ mid49Ghz ++ high49Ghz).map (unnumbered 20)

def chanMap5Ghz : List ChanMap :=
  [(5180, 36), (5200, 40), (5220, 44), (5240, 48), (5260, 52), (5280, 56), (5300, 60), (5320, 64),
    (5500, 100), (5520, 104), (5540, 108), (5560, 112), (5580, 116), (5600, 120), (5620, 124),
    (5640, 128), (5660, 132), (5680, 136), (5700, 140), (5720, 144), (5745, 149), (5765, 153),
    (5785, 157), (5805, 161), (5825, 165), (5845, 169)].map numbered

def high5Ghz : List (UInt32 × UInt8) :=
  [(5850, 170), (5855, 171), (5860, 172), (5865, 173), (5870, 174), (5875, 175), (5880, 176),
    (5885, 177), (5890, 178), (5895, 179), (5900, 180), (5905, 181), (5910, 182), (5915, 183),
    (5920, 184)]

def isDsrc (chanNum : UInt8) : Bool :=
  decide (chanNum ∈ [170, 171, 172, 174])

def chanMap59Ghz (keeps : UInt8 → Bool) : List ChanMap :=
  high5Ghz.map fun entry => if keeps entry.2 then numbered entry else unnumbered 160 entry.1

def chanMap6Ghz : List ChanMap :=
  (List.range 59).map fun i => numbered (5945 + 20 * UInt32.ofNat i, 1 + 4 * UInt8.ofNat i)

def channelMapUs (featureDsrc : Bool) : List ChanMap :=
  chanMap24Ghz ++ chanMap49GhzUs ++ chanMap5Ghz ++
    chanMap59Ghz fun chanNum => featureDsrc || !isDsrc chanNum

def channelMapEu : List ChanMap :=
  chanMap24Ghz ++ chanMap49GhzNone ++ chanMap5Ghz ++ chanMap59Ghz fun chanNum => !isDsrc chanNum

def channelMapJp : List ChanMap :=
  chanMap24Ghz ++ chanMap49GhzJp ++ chanMap5Ghz ++ chanMap59Ghz fun _ => false

def channelMapGlobal : List ChanMap :=
  chanMap24Ghz ++ chanMap49GhzNone ++ chanMap5Ghz ++ chanMap59Ghz fun chanNum => chanNum == 173

def channelMapChina : List ChanMap :=
  chanMap24Ghz ++ chanMap49GhzNone ++ chanMap5Ghz ++ chanMap59Ghz fun _ => false

def regInitChannelMap (featureDsrc : Bool) : DfsReg → List ChanMap
  | .uninit | .undef => channelMapGlobal
  | .fcc => channelMapUs featureDsrc
  | .etsi | .kr => channelMapEu
  | .mkk | .mkkn => channelMapJp
  | .cn => channelMapChina

def channelEntries (featureDsrc b : Bool) (dfsRegion : DfsReg) : List ChanMap :=
  regInitChannelMap featureDsrc dfsRegion ++ if b then chanMap6Ghz else []

theorem length_channelEntries (featureDsrc b : Bool) (dfsRegion : DfsReg) :
    (channelEntries featureDsrc b dfsRegion).length = numChannels b := by
  cases dfsRegion <;> cases b <;> rfl

def channelMap {b : Bool} (featureDsrc : Bool) (dfsRegion : DfsReg) (k : Fin (numChannels b)) :
    ChanMap :=
  (channelEntries featureDsrc b dfsRegion).get
    (k.cast (length_channelEntries featureDsrc b dfsRegion).symm)

end KernelModules.RegChannels
