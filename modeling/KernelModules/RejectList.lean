import KernelModules.Machine
import Mathlib.Data.Int.Notation

/-!
# The blacklist manager's list of rejected access points

An entry carries six flags, and each of them runs out on its own. The flags are brought up to date
whenever the list is walked, and an entry that has none left is taken out. When the list is full, an
entry that is in one list only makes room; the lists are tried in a fixed order.

The clock is read again by every function. Its readings are numbered, and the number of those taken
so far is kept beside the list. What is done under the lock is one step.
-/

namespace KernelModules.RejectList

def maxBadApListSize : ℕ := 28

def pdevMaxNumBssidDisallowList : ℕ := 28

abbrev MacAddr := BitVec 48

def isMacaddrZero (a : MacAddr) : Bool := a == 0

def isMacaddrGroup (a : MacAddr) : Bool := a.getLsbD 40

abbrev Time := BitVec 64

def secondsToMs (t : Time) : Time := t * 1000

def minutesToMs (t : Time) : Time := secondsToMs t * 60

def rssiTimeoutValue : Time := 60

def maxBlTime : BitVec 32 := 255000

inductive QdfStatus where
  | success | eFailure | eInval | eFault | eEmpty | eResources
  deriving DecidableEq

inductive RejectApType where
  | userspaceAvoid | userspaceBlacklist | driverAvoid | driverBlacklist | driverRssiReject
  | driverMonitor
  deriving DecidableEq

inductive RejectApSource where
  /-- What zeroed memory holds. -/
  | unset
  | addedByDriver | addedByTarget

inductive RejectApReason where
  | unknown | nudFailure | staKickout | roamHoFailure | assocRejectPoorRssi | assocRejectOce
  | userspaceBl | userspaceAvoidList | btmDisassocImminent | btmBssTermination | btmMboRetry
  | reassocRssiReject | reassocNoMoreStas

inductive BssidAction where
  | nop | removeFromList | moveAtLast
  deriving DecidableEq

inductive ConnectionState where
  | connected | disconnected

/-- The settings, each in the range the ini file gives it. -/
structure BlmConfig where
  avoidListExipryTime : Time
  blackListExipryTime : Time
  badBssidCounterResetTime : Time
  badBssidCounterThresh : BitVec 8
  avoid_range : 1 ≤ avoidListExipryTime.toNat ∧ avoidListExipryTime.toNat ≤ 300
  black_range : 1 ≤ blackListExipryTime.toNat ∧ blackListExipryTime.toNat ≤ 600
  reset_range : 30 ≤ badBssidCounterResetTime.toNat ∧ badBssidCounterResetTime.toNat ≤ 60
  thresh_range : 2 ≤ badBssidCounterThresh.toNat ∧ badBssidCounterThresh.toNat ≤ 10

structure RssiDisallowParams where
  retryDelay : BitVec 32 := 0
  expectedRssi : ℤ := 0
  receivedTime : Time := 0
  originalTimeout : BitVec 32 := 0
  source : RejectApSource := .unset

structure ApTimestamp where
  userspaceAvoidTimestamp : Time := 0
  driverAvoidTimestamp : Time := 0
  userspaceBlacklistTimestamp : Time := 0
  driverBlacklistTimestamp : Time := 0
  rssiRejectTimestamp : Time := 0
  driverMonitorTimestamp : Time := 0

structure ReasonBits where
  nudFail : Bool := false
  staKickout : Bool := false
  hoFail : Bool := false
  poorRssi : Bool := false
  oceAssocReject : Bool := false
  blacklistUserspace : Bool := false
  avoidUserspace : Bool := false
  btmDisassocImminent : Bool := false
  btmBssTermination : Bool := false
  btmMboRetry : Bool := false
  reassocRssiReject : Bool := false
  noMoreStas : Bool := false

/-- An entry of the list. The defaults are those of zeroed memory. -/
structure RejectAp where
  bssid : MacAddr := 0
  rssiRejectParams : RssiDisallowParams := {}
  badBssidCounter : BitVec 8 := 0
  apTimestamp : ApTimestamp := {}
  userspaceBlacklist : Bool := false
  driverBlacklist : Bool := false
  userspaceAvoidlist : Bool := false
  driverAvoidlist : Bool := false
  rssiRejectList : Bool := false
  driverMonitorlist : Bool := false
  rejectApReason : ReasonBits := {}
  source : RejectApSource := .unset
  connectTimestamp : Time := 0

structure RejectApInfo where
  bssid : MacAddr
  rssiRejectParams : RssiDisallowParams
  rejectApType : RejectApType
  rejectReason : RejectApReason
  source : RejectApSource

structure RejectApConfigParams where
  bssid : MacAddr
  rejectApType : RejectApType
  rejectDuration : BitVec 32
  expectedRssi : ℤ
  rejectReason : RejectApReason := .unknown
  source : RejectApSource := .unset
  receivedTime : Time := 0
  originalTimeout : BitVec 32 := 0

structure ScanEntry where
  bssid : MacAddr
  rssiRaw : ℤ
  bssScore : ℕ

namespace RejectAp

def inBlacklist (e : RejectAp) : Bool :=
  e.userspaceBlacklist || e.driverBlacklist || e.rssiRejectList

def inAvoidlist (e : RejectAp) : Bool := e.userspaceAvoidlist || e.driverAvoidlist

def cleared (e : RejectAp) : Bool :=
  !(e.userspaceBlacklist || e.driverBlacklist || e.userspaceAvoidlist || e.driverAvoidlist ||
    e.rssiRejectList || e.driverMonitorlist)

def isOfType (e : RejectAp) : RejectApType → Bool
  | .userspaceAvoid => e.userspaceAvoidlist
  | .userspaceBlacklist => e.userspaceBlacklist
  | .driverAvoid => e.driverAvoidlist
  | .driverBlacklist => e.driverBlacklist
  | .driverRssiReject => e.rssiRejectList
  | .driverMonitor => e.driverMonitorlist

def presentOnlyInListType (e : RejectAp) : RejectApType → Bool
  | .userspaceAvoid =>
    e.userspaceAvoidlist && !(e.driverAvoidlist || e.driverMonitorlist || e.inBlacklist)
  | .userspaceBlacklist =>
    e.userspaceBlacklist &&
      !(e.inAvoidlist || e.driverMonitorlist || e.rssiRejectList || e.driverBlacklist)
  | .driverAvoid =>
    e.driverAvoidlist && !(e.userspaceAvoidlist || e.driverMonitorlist || e.inBlacklist)
  | .driverBlacklist =>
    e.driverBlacklist &&
      !(e.inAvoidlist || e.driverMonitorlist || e.rssiRejectList || e.userspaceBlacklist)
  | .driverRssiReject =>
    e.rssiRejectList &&
      !(e.inAvoidlist || e.driverMonitorlist || e.driverBlacklist || e.userspaceBlacklist)
  | .driverMonitor => e.driverMonitorlist && !(e.inAvoidlist || e.inBlacklist)

end RejectAp

section Entries

variable (cfg : BlmConfig)

def expireUserspaceAvoid (now : Time) (e : RejectAp) : RejectAp :=
  if e.userspaceAvoidlist ∧
      minutesToMs cfg.avoidListExipryTime ≤ now - e.apTimestamp.userspaceAvoidTimestamp then
    { e with
      userspaceAvoidlist := false
      rejectApReason := { e.rejectApReason with avoidUserspace := false }
      driverMonitorlist := true
      apTimestamp := { e.apTimestamp with driverMonitorTimestamp := now } }
  else e

def expireDriverAvoid (now : Time) (e : RejectAp) : RejectAp :=
  if e.driverAvoidlist ∧
      minutesToMs cfg.avoidListExipryTime ≤ now - e.apTimestamp.driverAvoidTimestamp then
    { e with
      driverAvoidlist := false
      rejectApReason :=
        { e.rejectApReason with nudFail := false, staKickout := false, hoFail := false }
      driverMonitorlist := true
      apTimestamp := { e.apTimestamp with driverMonitorTimestamp := now } }
  else e

def expireDriverBlacklist (now : Time) (e : RejectAp) : RejectAp :=
  if e.driverBlacklist ∧
      minutesToMs cfg.blackListExipryTime ≤ now - e.apTimestamp.driverBlacklistTimestamp then
    { e with
      driverBlacklist := false
      driverMonitorlist := true
      rejectApReason :=
        { e.rejectApReason with nudFail := false, staKickout := false, hoFail := false }
      apTimestamp := { e.apTimestamp with driverMonitorTimestamp := now } }
  else e

def ReasonBits.clearRssi (r : ReasonBits) : ReasonBits :=
  { r with
    poorRssi := false
    oceAssocReject := false
    btmBssTermination := false
    btmDisassocImminent := false
    btmMboRetry := false
    noMoreStas := false
    reassocRssiReject := false }

/-- The wait is over, or the access point is heard as loud as it asked for. -/
def expireRssiReject (scan : Option ScanEntry) (now : Time) (e : RejectAp) : RejectAp :=
  if e.rssiRejectList ∧
      (e.rssiRejectParams.retryDelay ≠ 0 ∧
          e.rssiRejectParams.retryDelay.setWidth 64 ≤ now - e.apTimestamp.rssiRejectTimestamp ∨
        ∃ s ∈ scan, e.rssiRejectParams.expectedRssi ≤ s.rssiRaw) then
    { e with rejectApReason := e.rejectApReason.clearRssi, rssiRejectList := false }
  else e

def blmUpdateApInfo (scan : Option ScanEntry) (now : Time) (e : RejectAp) : RejectAp :=
  expireRssiReject scan now
    (expireDriverBlacklist cfg now (expireDriverAvoid cfg now (expireUserspaceAvoid cfg now e)))

/-- What is done with an entry that has a flag left. -/
def actionOf (e : RejectAp) : BssidAction :=
  if e.rssiRejectList && !e.userspaceBlacklist && !e.driverBlacklist &&
      decide (maxBlTime < e.rssiRejectParams.originalTimeout) then
    if e.inAvoidlist then .moveAtLast else .nop
  else if e.inBlacklist then .removeFromList
  else if e.inAvoidlist then .moveAtLast
  else .nop

def blmPruneOldEntriesAndGetAction (scan : ScanEntry) (now : Time) (e : RejectAp) :
    Option RejectAp × BssidAction :=
  let e := blmUpdateApInfo cfg (some scan) now e
  if e.cleared then (none, .nop) else (some e, actionOf e)

def blmUpdateAvoidlistRejectReason (r : ReasonBits) (why : RejectApReason) : ReasonBits :=
  let r := { r with nudFail := false, staKickout := false, hoFail := false }
  match why with
  | .nudFailure => { r with nudFail := true }
  | .staKickout => { r with staKickout := true }
  | .roamHoFailure => { r with hoFail := true }
  | _ => r

def blmUpdateRssiRejectReason (r : ReasonBits) (why : RejectApReason) : ReasonBits :=
  let r := r.clearRssi
  match why with
  | .assocRejectPoorRssi => { r with poorRssi := true }
  | .assocRejectOce => { r with oceAssocReject := true }
  | .btmDisassocImminent => { r with btmDisassocImminent := true }
  | .btmBssTermination => { r with btmBssTermination := true }
  | .btmMboRetry => { r with btmMboRetry := true }
  | .reassocRssiReject => { r with reassocRssiReject := true }
  | .reassocNoMoreStas => { r with noMoreStas := true }
  | _ => r

/-- The flag, the reason and the time, as the two kinds of avoiding set them. -/
def markAvoided (ap : RejectApInfo) (now : Time) (e : RejectAp) : RejectAp :=
  match ap.rejectApType with
  | .userspaceAvoid =>
    { e with
      userspaceAvoidlist := true
      rejectApReason := { e.rejectApReason with avoidUserspace := true }
      apTimestamp := { e.apTimestamp with userspaceAvoidTimestamp := now } }
  | .driverAvoid =>
    { e with
      driverAvoidlist := true
      rejectApReason := blmUpdateAvoidlistRejectReason e.rejectApReason ap.rejectReason
      apTimestamp := { e.apTimestamp with driverAvoidTimestamp := now } }
  | _ => e

def clearAvoided (ap : RejectApInfo) (e : RejectAp) : RejectAp :=
  match ap.rejectApType with
  | .userspaceAvoid => { e with userspaceAvoidlist := false }
  | .driverAvoid => { e with driverAvoidlist := false }
  | _ => e

/-- The clock is read once, and once more unless the entry moves to the blacklist. -/
def blmHandleAvoidList (ap : RejectApInfo) (clk : ℕ → Time) (n : ℕ) (e : RejectAp) :
    RejectAp × ℕ :=
  let e := { markAvoided ap (clk n) e with
    source := ap.source
    bssid := ap.bssid
    driverMonitorlist := false
    badBssidCounter := e.badBssidCounter + 1 }
  if cfg.badBssidCounterThresh ≤ e.badBssidCounter then
    ({ clearAvoided ap e with
        driverBlacklist := true
        apTimestamp := { e.apTimestamp with driverBlacklistTimestamp := clk n } }, n + 1)
  else ({ e with connectTimestamp := clk (n + 1) }, n + 2)

def blmHandleBlacklist (ap : RejectApInfo) (clk : ℕ → Time) (n : ℕ) (e : RejectAp) :
    RejectAp × ℕ :=
  ({ e with
      bssid := ap.bssid
      userspaceBlacklist := true
      apTimestamp := { e.apTimestamp with userspaceBlacklistTimestamp := clk n }
      source := .addedByDriver
      rejectApReason := { e.rejectApReason with blacklistUserspace := true } }, n + 1)

def blmHandleRssiRejectList (ap : RejectApInfo) (clk : ℕ → Time) (n : ℕ) (e : RejectAp) :
    RejectAp × ℕ :=
  let e := if e.rssiRejectList then e else { e with bssid := ap.bssid, rssiRejectList := true }
  ({ e with
      apTimestamp := { e.apTimestamp with rssiRejectTimestamp := clk n }
      rssiRejectParams := ap.rssiRejectParams
      rejectApReason := blmUpdateRssiRejectReason e.rejectApReason ap.rejectReason }, n + 1)

def blmModifyEntry (ap : RejectApInfo) (clk : ℕ → Time) (n : ℕ) (e : RejectAp) : RejectAp × ℕ :=
  match ap.rejectApType with
  | .userspaceAvoid | .driverAvoid => blmHandleAvoidList cfg ap clk n e
  | .userspaceBlacklist => blmHandleBlacklist ap clk n e
  | .driverRssiReject => blmHandleRssiRejectList ap clk n e
  | .driverBlacklist | .driverMonitor => (e, n)

/-- The time left in the RSSI list, as a signed number of 32 bits that is cut off at zero. -/
def disallowedTime (now : Time) (e : RejectAp) : Time :=
  let limit : Time :=
    if e.rssiRejectParams.retryDelay = 0 then minutesToMs rssiTimeoutValue
    else e.rssiRejectParams.retryDelay.setWidth 64
  let left : BitVec 32 := (limit - (now - e.apTimestamp.rssiRejectTimestamp)).setWidth 32
  if left.toInt < 0 then 0 else left.setWidth 64

def blmGetDeltaOfBssid (type : RejectApType) (now : Time) (e : RejectAp) : Time :=
  match type with
  | .userspaceAvoid =>
    minutesToMs cfg.avoidListExipryTime - (now - e.apTimestamp.userspaceAvoidTimestamp)
  | .userspaceBlacklist => now - e.apTimestamp.userspaceBlacklistTimestamp
  | .driverAvoid =>
    minutesToMs cfg.avoidListExipryTime - (now - e.apTimestamp.driverAvoidTimestamp)
  | .driverBlacklist =>
    minutesToMs cfg.blackListExipryTime - (now - e.apTimestamp.driverBlacklistTimestamp)
  | .driverRssiReject => disallowedTime now e
  | .driverMonitor => now - e.apTimestamp.driverMonitorTimestamp

/-- An `oldest` of zero stands for no entry yet. -/
def blmIsOldestEntry (type : RejectApType) (cur oldest : Time) : Bool :=
  match type with
  | .driverRssiReject | .userspaceAvoid | .driverAvoid | .driverBlacklist =>
    oldest == 0 || decide (cur < oldest)
  | .userspaceBlacklist | .driverMonitor => decide (oldest < cur)

def blmGetRssiRejectReason (r : ReasonBits) : RejectApReason :=
  if r.poorRssi then .assocRejectPoorRssi
  else if r.oceAssocReject then .assocRejectOce
  else if r.btmBssTermination then .btmBssTermination
  else if r.btmDisassocImminent then .btmDisassocImminent
  else if r.btmMboRetry then .btmMboRetry
  else if r.noMoreStas then .reassocNoMoreStas
  else if r.reassocRssiReject then .reassocRssiReject
  else .unknown

def rejectParams (type : RejectApType) (now : Time) (e : RejectAp) : RejectApConfigParams :=
  let p : RejectApConfigParams :=
    { bssid := e.bssid
      rejectApType := type
      rejectDuration := (blmGetDeltaOfBssid cfg type now e).setWidth 32
      expectedRssi := e.rssiRejectParams.expectedRssi }
  if type = .driverRssiReject then
    { p with
      source := e.rssiRejectParams.source
      originalTimeout := e.rssiRejectParams.originalTimeout
      receivedTime := e.rssiRejectParams.receivedTime
      rejectReason := blmGetRssiRejectReason e.rejectApReason }
  else p

end Entries

/-- What the system gives a call: the objects, the lock, the memory. -/
structure Env where
  attached : Bool
  lock : QdfStatus
  suspended : Bool
  fwBuffer : Bool
  node : Bool

structure RejectDb where
  rejectApList : List RejectAp
  /-- The readings of the clock so far. -/
  tick : ℕ

inductive Output where
  | status (s : QdfStatus)
  | sent (ps : List RejectApConfigParams)
  | filled (ps : List RejectApConfigParams)
  | action (a : BssidAction)
  | scanList (ss : List ScanEntry)

section Calls

variable (clk : ℕ → Time) (cfg : BlmConfig)

structure Filled where
  list : List RejectAp
  params : List RejectApConfigParams
  tick : ℕ

def Filled.cons (e : RejectAp) (f : Filled) : Filled := { f with list := e :: f.list }

def blmFillRejectList (type : RejectApType) (max : ℕ) :
    List RejectAp → List RejectApConfigParams → ℕ → Filled
  | [], ps, n => ⟨[], ps, n⟩
  | e :: es, ps, n =>
    if ps.length = max then ⟨e :: es, ps, n⟩
    else
      let e := blmUpdateApInfo cfg none (clk n) e
      if e.cleared then blmFillRejectList type max es ps (n + 1)
      else if e.isOfType type then
        (blmFillRejectList type max es (ps ++ [rejectParams cfg type (clk (n + 1)) e])
          (n + 2)).cons e
      else (blmFillRejectList type max es ps (n + 1)).cons e

def fillOrder : List RejectApType :=
  [.userspaceBlacklist, .driverBlacklist, .driverRssiReject, .userspaceAvoid, .driverAvoid]

def fillTypes : List RejectApType → Filled → Filled
  | [], f => f
  | t :: ts, f =>
    fillTypes ts (blmFillRejectList clk cfg t pdevMaxNumBssidDisallowList f.list f.params f.tick)

def blmSendRejectApListToFw (env : Env) (db : RejectDb) : RejectDb × List Output :=
  if env.suspended || !env.fwBuffer then (db, [])
  else
    let f := fillTypes clk cfg fillOrder ⟨db.rejectApList, [], db.tick⟩
    (⟨f.list, f.tick⟩, [.sent f.params])

structure Swept where
  list : List RejectAp
  found : Bool
  tick : ℕ

def Swept.cons (e : RejectAp) (s : Swept) : Swept := { s with list := e :: s.list }

/-- The walk that brings the entries up to date, up to the one that is looked for. -/
def sweep (ap : RejectApInfo) : List RejectAp → ℕ → Swept
  | [], n => ⟨[], false, n⟩
  | e :: es, n =>
    let e := blmUpdateApInfo cfg none (clk n) e
    if e.cleared then sweep ap es (n + 1)
    else if e.bssid = ap.bssid then
      ⟨(blmModifyEntry cfg ap clk (n + 1) e).1 :: es, true,
        (blmModifyEntry cfg ap clk (n + 1) e).2⟩
    else (sweep ap es (n + 1)).cons e

/-- The position of the oldest entry so far, with its delta, and the readings of the clock. -/
structure Oldest where
  entry : Option ℕ
  delta : Time
  tick : ℕ

def oldestIn (type : RejectApType) : List RejectAp → ℕ → Oldest → Oldest
  | [], _, o => o
  | e :: es, i, o =>
    if e.presentOnlyInListType type then
      let delta := blmGetDeltaOfBssid cfg type (clk o.tick) e
      if blmIsOldestEntry type delta o.delta then
        oldestIn type es (i + 1) ⟨some i, delta, o.tick + 1⟩
      else oldestIn type es (i + 1) { o with tick := o.tick + 1 }
    else oldestIn type es (i + 1) o

def blmTryDeleteBssidInList (type : RejectApType) (l : List RejectAp) (n : ℕ) :
    Option (List RejectAp) × ℕ :=
  let o := oldestIn clk cfg type l 0 ⟨none, 0, n⟩
  (o.entry.map l.eraseIdx, o.tick)

def removalOrder : List RejectApType :=
  [.driverMonitor, .driverAvoid, .userspaceAvoid, .driverRssiReject, .driverBlacklist,
    .userspaceBlacklist]

def tryDeleteInOrder : List RejectApType → List RejectAp → ℕ → Option (List RejectAp) × ℕ
  | [], _, n => (none, n)
  | t :: ts, l, n =>
    match blmTryDeleteBssidInList clk cfg t l n with
    | (some l', n') => (some l', n')
    | (none, n') => tryDeleteInOrder ts l n'

def blmRemoveLowestDeltaEntry (l : List RejectAp) (n : ℕ) : Option (List RejectAp) × ℕ :=
  tryDeleteInOrder clk cfg removalOrder l n

def makeRoom (l : List RejectAp) (n : ℕ) : Option (List RejectAp) × ℕ :=
  if l.length = maxBadApListSize then blmRemoveLowestDeltaEntry clk cfg l n else (some l, n)

/-- The new entry, behind a list that has room for it. -/
def insertEntry (env : Env) (ap : RejectApInfo) (l : List RejectAp) (n : ℕ) :
    QdfStatus × RejectDb × List Output :=
  if !env.node then (.eFailure, ⟨l, n⟩, [])
  else
    let e := blmModifyEntry cfg ap clk n {}
    (.success, blmSendRejectApListToFw clk cfg env ⟨l ++ [e.1], e.2⟩)

def blmAddBssidToRejectList (env : Env) (ap : RejectApInfo) (db : RejectDb) :
    QdfStatus × RejectDb × List Output :=
  if !env.attached then (.eInval, db, [])
  else if isMacaddrZero ap.bssid || isMacaddrGroup ap.bssid then (.eInval, db, [])
  else if env.lock ≠ .success then (env.lock, db, [])
  else
    let s := sweep clk cfg ap db.rejectApList db.tick
    if s.found then (.success, blmSendRejectApListToFw clk cfg env ⟨s.list, s.tick⟩)
    else
      match makeRoom clk cfg s.list s.tick with
      | (none, n) => (.eFailure, ⟨s.list, n⟩, [])
      | (some l, n) => insertEntry clk cfg env ap l n

def clearUserspaceBlacklist (e : RejectAp) : Option RejectAp :=
  if e.presentOnlyInListType .userspaceBlacklist then none
  else if e.userspaceBlacklist then
    some { e with
      userspaceBlacklist := false
      rejectApReason := { e.rejectApReason with blacklistUserspace := false } }
  else some e

def blmClearUserspaceBlacklistInfo (env : Env) (db : RejectDb) : RejectDb :=
  if !env.attached || env.lock ≠ .success then db
  else { db with rejectApList := db.rejectApList.filterMap clearUserspaceBlacklist }

/-- The additions of one call, up to the first that fails. -/
def addBlacklisted : List (MacAddr × Env) → RejectDb → QdfStatus × RejectDb × List Output
  | [], db => (.success, db, [])
  | (a, env) :: as, db =>
    let r := blmAddBssidToRejectList clk cfg env
      ⟨a, {}, .userspaceBlacklist, .userspaceBl, .addedByDriver⟩ db
    if r.1 ≠ .success then (.eFailure, r.2)
    else
      let rs := addBlacklisted as r.2.1
      (rs.1, rs.2.1, r.2.2 ++ rs.2.2)

/-- `clear` and `send` are given to the two locks that are taken before the first addition. -/
def blmAddUserspaceBlackList (clear send : Env) (as : List (MacAddr × Env)) (db : RejectDb) :
    QdfStatus × RejectDb × List Output :=
  if !clear.attached then (.eInval, db, [])
  else
    let db := blmClearUserspaceBlacklistInfo clear db
    if send.lock ≠ .success then (send.lock, db, [])
    else
      let s := blmSendRejectApListToFw clk cfg send db
      let rs := addBlacklisted clk cfg as s.1
      (rs.1, rs.2.1, s.2 ++ rs.2.2)

def actOnBssid (scan : ScanEntry) : List RejectAp → ℕ → BssidAction × List RejectAp × ℕ
  | [], n => (.nop, [], n)
  | e :: es, n =>
    if e.bssid = scan.bssid then
      let r := blmPruneOldEntriesAndGetAction cfg scan (clk n) e
      (r.2, r.1.toList ++ es, n + 1)
    else
      let r := actOnBssid scan es n
      (r.1, e :: r.2.1, r.2.2)

def blmActionOnBssid (env : Env) (scan : ScanEntry) (db : RejectDb) : BssidAction × RejectDb :=
  if !env.attached || env.lock ≠ .success then (.nop, db)
  else
    let r := actOnBssid clk cfg scan db.rejectApList db.tick
    (r.1, ⟨r.2.1, r.2.2⟩)

/-- The entries that were in the scan list at first, each once; those moved to its end so far are
`moved`. -/
def filterScanList : List (ScanEntry × Env) → List ScanEntry → RejectDb →
    List ScanEntry × RejectDb
  | [], moved, db => (moved, db)
  | (s, env) :: ss, moved, db =>
    let r := blmActionOnBssid clk cfg env s db
    match r.1 with
    | .removeFromList => filterScanList ss moved r.2
    | .moveAtLast => filterScanList ss (moved ++ [{ s with bssScore := 0 }]) r.2
    | .nop =>
      let rs := filterScanList ss moved r.2
      (s :: rs.1, rs.2)

def blmFilterBssid (ss : List (ScanEntry × Env)) (db : RejectDb) :
    QdfStatus × List ScanEntry × RejectDb :=
  if ss = [] then (.eEmpty, [], db) else (.success, filterScanList clk cfg ss [] db)

def blmGetBssidRejectList (env : Env) (max : BitVec 8) (type : RejectApType) (db : RejectDb) :
    List RejectApConfigParams × RejectDb :=
  if !env.attached || env.lock ≠ .success then ([], db)
  else
    let f := blmFillRejectList clk cfg type max.toNat db.rejectApList [] db.tick
    (f.params, ⟨f.list, f.tick⟩)

def maxEntryTime (e : RejectAp) : Time :=
  if e.driverBlacklist then e.apTimestamp.driverBlacklistTimestamp
  else if e.driverAvoidlist ∧ e.connectTimestamp < e.apTimestamp.driverAvoidTimestamp then
    e.apTimestamp.driverAvoidTimestamp
  else e.connectTimestamp

def clearDriverLists (e : RejectAp) : RejectAp :=
  { e with
    driverAvoidlist := false
    driverBlacklist := false
    driverMonitorlist := false
    userspaceAvoidlist := false }

/-- The entry after the link came up or went down, and the readings of the clock. -/
def connectParams (con : ConnectionState) (n : ℕ) (e : RejectAp) : Option RejectAp × ℕ :=
  match con with
  | .connected => (some { e with connectTimestamp := clk n }, n + 1)
  | .disconnected =>
    let e := blmUpdateApInfo cfg none (clk n) e
    let age := clk (n + 1) - maxEntryTime e
    (if secondsToMs cfg.badBssidCounterResetTime < age then
        (if (clearDriverLists e).cleared then none else some (clearDriverLists e))
      else some e, n + 2)

structure Updated where
  list : List RejectAp
  removed : Bool
  tick : ℕ

def updateConnect (bssid : MacAddr) (con : ConnectionState) : List RejectAp → ℕ → Updated
  | [], n => ⟨[], false, n⟩
  | e :: es, n =>
    if e.bssid = bssid then
      let r := connectParams clk cfg con n e
      ⟨r.1.toList ++ es, r.1.isNone, r.2⟩
    else
      let u := updateConnect bssid con es n
      { u with list := e :: u.list }

def blmUpdateBssidConnectParams (env : Env) (bssid : MacAddr) (con : ConnectionState)
    (db : RejectDb) : RejectDb × List Output :=
  if !env.attached || env.lock ≠ .success then (db, [])
  else
    let u := updateConnect clk cfg bssid con db.rejectApList db.tick
    if u.removed then blmSendRejectApListToFw clk cfg env ⟨u.list, u.tick⟩
    else (⟨u.list, u.tick⟩, [])

def blmFlushRejectApList (env : Env) (db : RejectDb) : RejectDb :=
  if env.lock ≠ .success then db else { db with rejectApList := [] }

def blmUpdateRejectApListToFw (env : Env) (db : RejectDb) : RejectDb × List Output :=
  if !env.attached then (db, []) else blmSendRejectApListToFw clk cfg env db

end Calls

/-- The calls, and the parts of a call that are under a lock of their own. -/
inductive Event where
  | addBssid (env : Env) (ap : RejectApInfo)
  | clearUserspace (env : Env)
  | addUserspaceBlackList (clear send : Env) (as : List (MacAddr × Env))
  | actionOnBssid (env : Env) (scan : ScanEntry)
  | filterBssid (ss : List (ScanEntry × Env))
  | getRejectList (env : Env) (max : BitVec 8) (type : RejectApType)
  | updateConnectParams (env : Env) (bssid : MacAddr) (con : ConnectionState)
  | updateToFw (env : Env)
  | flush (env : Env)

def step (clk : ℕ → Time) (cfg : BlmConfig) (db : RejectDb) : Event → RejectDb × List Output
  | .addBssid env ap =>
    let r := blmAddBssidToRejectList clk cfg env ap db
    (r.2.1, r.2.2 ++ [.status r.1])
  | .clearUserspace env => (blmClearUserspaceBlacklistInfo env db, [])
  | .addUserspaceBlackList clear send as =>
    let r := blmAddUserspaceBlackList clk cfg clear send as db
    (r.2.1, r.2.2 ++ [.status r.1])
  | .actionOnBssid env scan =>
    let r := blmActionOnBssid clk cfg env scan db
    (r.2, [.action r.1])
  | .filterBssid ss =>
    let r := blmFilterBssid clk cfg ss db
    (r.2.2, [.scanList r.2.1, .status r.1])
  | .getRejectList env max type =>
    let r := blmGetBssidRejectList clk cfg env max type db
    (r.2, [.filled r.1])
  | .updateConnectParams env bssid con => blmUpdateBssidConnectParams clk cfg env bssid con db
  | .updateToFw env => blmUpdateRejectApListToFw clk cfg env db
  | .flush env => (blmFlushRejectApList env db, [])

def machine (clk : ℕ → Time) (cfg : BlmConfig) : Machine RejectDb Event Output := ⟨step clk cfg⟩

def init : RejectDb := ⟨[], 0⟩

def after (clk : ℕ → Time) (cfg : BlmConfig) (es : List Event) : RejectDb :=
  ((machine clk cfg).run init es).1

end KernelModules.RejectList
