import KernelModules.RejectListSteps

/-!
# Making room in runs

In every run the entries have distinct BSSIDs and there is room for them. A call that meets a full
list takes out the oldest of the entries that are only in the lowest list that has such entries;
if every entry is in several lists, the call is refused and changes nothing more.
-/

namespace KernelModules.RejectList

def Env.Ready (env : Env) : Prop := env.attached ∧ env.lock = .success ∧ env.node
deriving Decidable

def RejectApInfo.Valid (ap : RejectApInfo) : Prop :=
  isMacaddrZero ap.bssid = false ∧ isMacaddrGroup ap.bssid = false ∧
    ap.rejectApType ≠ .driverBlacklist ∧ ap.rejectApType ≠ .driverMonitor
deriving Decidable

variable (clk : ℕ → Time) (cfg : BlmConfig)

def FullFor (ap : RejectApInfo) (db : RejectDb) : Prop :=
  (sweep clk cfg ap db.rejectApList db.tick).found = false ∧
    (sweep clk cfg ap db.rejectApList db.tick).list.length = maxBadApListSize
deriving Decidable

/-- The call succeeds and takes out one entry, the oldest of those only in the list of the type;
after that the list is sent, which only brings it up to date. -/
def EvictsOldest (env : Env) (ap : RejectApInfo) (db : RejectDb) (type : RejectApType) : Prop :=
  let s := sweep clk cfg ap db.rejectApList db.tick
  let r := blmAddBssidToRejectList clk cfg env ap db
  r.1 = .success ∧
    ∃ p ∈ scanned clk type s.list 0 s.tick,
      (∀ q ∈ scanned clk type s.list 0 s.tick, OlderThan cfg type p.2 q.2) ∧
      ∃ e n, e.bssid = ap.bssid ∧ e.cleared = false ∧
        Aged clk cfg n r.2.1.tick (s.list.eraseIdx p.1 ++ [e]) r.2.1.rejectApList

structure MakesRoom (env : Env) (ap : RejectApInfo) (db : RejectDb) : Prop where
  aged : Aged clk cfg db.tick (sweep clk cfg ap db.rejectApList db.tick).tick db.rejectApList
    (sweep clk cfg ap db.rejectApList db.tick).list
  evicts : ∀ type, Lowest type (sweep clk cfg ap db.rejectApList db.tick).list →
    (∀ p ∈ scanned clk type (sweep clk cfg ap db.rejectApList db.tick).list 0
      (sweep clk cfg ap db.rejectApList db.tick).tick, Told cfg type p.2.1 p.2.2) →
    EvictsOldest clk cfg env ap db type
  refuses : NoneOnlyIn removalOrder (sweep clk cfg ap db.rejectApList db.tick).list →
    blmAddBssidToRejectList clk cfg env ap db =
      (.eFailure, ⟨(sweep clk cfg ap db.rejectApList db.tick).list,
        (sweep clk cfg ap db.rejectApList db.tick).tick⟩, [])

variable {clk cfg} {env : Env} {ap : RejectApInfo} {db : RejectDb}

variable (clk cfg) in
theorem blmModifyEntry_flag (hv : ap.Valid) (n : ℕ) :
    (blmModifyEntry cfg ap clk n {}).1.bssid = ap.bssid ∧
      (blmModifyEntry cfg ap clk n {}).1.cleared = false := by
  obtain ⟨-, -, hblack, hmonitor⟩ := hv
  have hthresh : ¬ cfg.badBssidCounterThresh ≤ 1#8 := by
    have hrange := cfg.thresh_range
    intro hle
    have hle : cfg.badBssidCounterThresh.toNat ≤ 1 := hle
    omega
  unfold blmModifyEntry
  split
  · simp [blmHandleAvoidList, *, markAvoided, RejectAp.cleared]
  · simp [blmHandleAvoidList, *, markAvoided, RejectAp.cleared]
  · simp [blmHandleBlacklist, RejectAp.cleared]
  · simp [blmHandleRssiRejectList, RejectAp.cleared]
  · exact absurd (by assumption) hblack
  · exact absurd (by assumption) hmonitor

theorem blmAddBssidToRejectList_full (henv : env.Ready) (hv : ap.Valid)
    (hfull : FullFor clk cfg ap db) :
    blmAddBssidToRejectList clk cfg env ap db =
      match blmRemoveLowestDeltaEntry clk cfg (sweep clk cfg ap db.rejectApList db.tick).list
        (sweep clk cfg ap db.rejectApList db.tick).tick with
      | (none, n) => (.eFailure, ⟨(sweep clk cfg ap db.rejectApList db.tick).list, n⟩, [])
      | (some l, n) => insertEntry clk cfg env ap l n := by
  obtain ⟨hatt, hlock, -⟩ := henv
  obtain ⟨hzero, hgroup, -, -⟩ := hv
  obtain ⟨hfound, hlen⟩ := hfull
  rcases hroom : blmRemoveLowestDeltaEntry clk cfg (sweep clk cfg ap db.rejectApList db.tick).list
    (sweep clk cfg ap db.rejectApList db.tick).tick with ⟨_ | l, n⟩
  all_goals
    unfold blmAddBssidToRejectList makeRoom
    simp only [hatt, hzero, hgroup, hlock, hfound, hlen, hroom, Bool.not_true, Bool.false_eq_true,
      if_false, Bool.or_self, ne_eq, not_true_eq_false, if_true]

theorem insertEntry_ready (henv : env.Ready) (l : List RejectAp) (n : ℕ) :
    insertEntry clk cfg env ap l n =
      (.success, blmSendRejectApListToFw clk cfg env
        ⟨l ++ [(blmModifyEntry cfg ap clk n {}).1], (blmModifyEntry cfg ap clk n {}).2⟩) := by
  unfold insertEntry
  simp only [henv.2.2, Bool.not_true, Bool.false_eq_true, if_false]

theorem makesRoom (hclk : NonDecreasing clk) (h : db.InOrder clk) (henv : env.Ready)
    (hv : ap.Valid) (hfull : FullFor clk cfg ap db) : MakesRoom clk cfg env ap db := by
  have hadd := blmAddBssidToRejectList_full henv hv hfull
  obtain ⟨hle, haged, -⟩ := sweep_missed hfull.1
  have hfresh := (Tidy.aged hclk hle h haged).fresh
  refine ⟨haged, ?_, ?_⟩
  · intro type hlow htold
    unfold EvictsOldest
    generalize sweep clk cfg ap db.rejectApList db.tick = s at *
    have hscanned (p : ℕ × RejectAp × Time) (hp : p ∈ scanned clk type s.list 0 s.tick) :
        Fresh p.2.2 p.2.1 := by
      obtain ⟨j, m, hpj, hj, -, hm⟩ := mem_scanned hp
      have ht : p.2.2 = clk m := by rw [hpj]
      rw [ht]
      exact (hfresh p.2.1 (List.mem_of_getElem? hj)).mono (hclk _ _ hm)
    obtain ⟨p, hp, m, hremove, hold⟩ := blmRemoveLowestDeltaEntry_oldest hlow hscanned htold
    obtain ⟨hbssid, hflag⟩ := blmModifyEntry_flag clk cfg hv m
    obtain ⟨-, hsent⟩ := blmSendRejectApListToFw_aged clk cfg env
      ⟨s.list.eraseIdx p.1 ++ [(blmModifyEntry cfg ap clk m {}).1],
        (blmModifyEntry cfg ap clk m {}).2⟩
    rw [hadd, hremove]
    dsimp only
    rw [insertEntry_ready henv]
    exact ⟨rfl, p, hp, hold, _, _, hbssid, hflag, hsent⟩
  · intro hnone
    rw [hadd]
    unfold blmRemoveLowestDeltaEntry
    rw [tryDeleteInOrder_none hnone]

/-- In every run the list is in order, and a call that meets a full list makes room. -/
theorem oldest_of_lowest_makes_room (hclk : NonDecreasing clk) (es : List Event) :
    ((after clk cfg es).rejectApList.map RejectAp.bssid).Nodup ∧
      (after clk cfg es).rejectApList.length ≤ maxBadApListSize ∧
      ∀ env ap, env.Ready → ap.Valid → FullFor clk cfg ap (after clk cfg es) →
        MakesRoom clk cfg env ap (after clk cfg es) := by
  have hinv : (after clk cfg es).InOrder clk := after_inOrder hclk es
  refine ⟨hinv.nodup, hinv.length_le, ?_⟩
  intro env ap henv hv hfull
  exact makesRoom hclk hinv henv hv hfull

def defaultConfig : BlmConfig :=
  ⟨5, 10, 30, 3, by decide, by decide, by decide, by decide⟩

def shortClock (n : ℕ) : Time := BitVec.ofNat 64 (min n 100000)

theorem nonDecreasing_shortClock : NonDecreasing shortClock := by
  intro i j hij
  simp only [shortClock, BitVec.toNat_ofNat]
  omega

def suspendedEnv : Env := ⟨true, .success, true, true, true⟩

def request (i : ℕ) (type : RejectApType) (why : RejectApReason) : RejectApInfo :=
  ⟨BitVec.ofNat 48 i, { retryDelay := 60000 }, type, why, .addedByDriver⟩

def avoidOne (i : ℕ) : Event := .addBssid suspendedEnv (request i .driverAvoid .nudFailure)

def rejectOne (i : ℕ) : Event :=
  .addBssid suspendedEnv (request i .driverRssiReject .assocRejectOce)

def avoidAll : List Event := (List.range maxBadApListSize).map fun i => avoidOne (i + 1)

def avoidAndRejectAll : List Event :=
  (List.range maxBadApListSize).flatMap fun i => [avoidOne (i + 1), rejectOne (i + 1)]

theorem oldest_of_lowest_makes_room_avoidAll :
    EvictsOldest shortClock defaultConfig suspendedEnv (request 100 .driverAvoid .nudFailure)
      (after shortClock defaultConfig avoidAll) .driverAvoid :=
  ((oldest_of_lowest_makes_room nonDecreasing_shortClock avoidAll).2.2 suspendedEnv
    (request 100 .driverAvoid .nudFailure) (by decide) (by decide) (by decide +kernel)).evicts
    .driverAvoid
    ⟨[.driverMonitor], [.userspaceAvoid, .driverRssiReject, .driverBlacklist, .userspaceBlacklist],
      rfl, by unfold NoneOnlyIn; decide +kernel, by decide +kernel⟩
    (by decide +kernel)

/-- In every run no stamp of an entry lies ahead of the clock. -/
theorem stamps_behind_clock (hclk : NonDecreasing clk) (es : List Event) :
    ∀ e ∈ (after clk cfg es).rejectApList, Fresh (clk (after clk cfg es).tick) e :=
  (after_inOrder hclk es).fresh

theorem stamps_behind_clock_avoidAll :
    ∃ e ∈ (after shortClock defaultConfig avoidAll).rejectApList,
      Fresh (shortClock (after shortClock defaultConfig avoidAll).tick) e := by
  have hmem := List.head_mem (l := (after shortClock defaultConfig avoidAll).rejectApList)
    (by decide +kernel)
  exact ⟨_, hmem, stamps_behind_clock nonDecreasing_shortClock avoidAll _ hmem⟩

/-- The list is full, and none of its entries is in one list only: the call is refused. -/
theorem full_list_refuses :
    (after shortClock defaultConfig avoidAndRejectAll).rejectApList.length = maxBadApListSize ∧
      FullFor shortClock defaultConfig (request 100 .driverAvoid .nudFailure)
        (after shortClock defaultConfig avoidAndRejectAll) ∧
      (blmAddBssidToRejectList shortClock defaultConfig suspendedEnv
        (request 100 .driverAvoid .nudFailure)
        (after shortClock defaultConfig avoidAndRejectAll)).1 = .eFailure := by
  decide +kernel

end KernelModules.RejectList
