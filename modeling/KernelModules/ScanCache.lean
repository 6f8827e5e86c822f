import KernelModules.ListCursor
import KernelModules.Machine

/-!
# The cache of scan entries

The entries are kept in lists, one for each hash of the BSSID. A node has one reference for as long
as its cookie is active, and one for each caller that reads it. Who iterates the cache holds the
node it stands at, and goes on to the next valid one; an entry is deleted in two steps, the cookie
first and the node with its last reference.

What is done under the lock is one step. The nodes are numbered as they are allocated, and the
comparisons of the entries' own data are left to the environment.
-/

namespace KernelModules.ScanCache

def scanHashSize : ℕ := 64

def maxScanCacheSize : ℕ := 300

def scanNodeActiveCookie : UInt32 := 0x1248F842

abbrev MacAddr := Fin 6 → UInt8

def scanGetHash (addr : MacAddr) : ℕ := (addr 5).toNat % scanHashSize

structure ScanEntry where
  bssid : MacAddr

structure ScanNode where
  entry : ScanEntry
  refCnt : ℕ
  cookie : UInt32

structure ScanDb where
  numEntries : ℕ
  scanHashTbl : ℕ → List ℕ
  node : ℕ → ScanNode
  /-- The nodes allocated so far. -/
  fresh : ℕ
  /-- The nodes freed so far. -/
  freed : List ℕ

namespace ScanDb

def hash (db : ScanDb) (n : ℕ) : ℕ := scanGetHash (db.node n).entry.bssid

def valid (db : ScanDb) (n : ℕ) : Bool := (db.node n).cookie == scanNodeActiveCookie

def setRefCnt (db : ScanDb) (n r : ℕ) : ScanDb :=
  { db with node := Function.update db.node n { db.node n with refCnt := r } }

def setCookie (db : ScanDb) (n : ℕ) (c : UInt32) : ScanDb :=
  { db with node := Function.update db.node n { db.node n with cookie := c } }

def setList (db : ScanDb) (i : ℕ) (l : List ℕ) : ScanDb :=
  { db with scanHashTbl := Function.update db.scanHashTbl i l }

end ScanDb

def delScanNode (db : ScanDb) (i n : ℕ) : ScanDb :=
  if db.scanHashTbl i = [] then db
  else { db.setList i ((db.scanHashTbl i).erase n) with freed := n :: db.freed }

def delScanNodeFromDb (db : ScanDb) (n : ℕ) : ScanDb :=
  { delScanNode db (db.hash n) n with numEntries := db.numEntries - 1 }

def scanEntryGetRef (db : ScanDb) (n : ℕ) : ScanDb := db.setRefCnt n ((db.node n).refCnt + 1)

def scanEntryPutRef (db : ScanDb) (n : ℕ) : ScanDb :=
  if (db.node n).refCnt = 0 then db
  else if (db.node n).refCnt - 1 = 0 then
    delScanNodeFromDb (db.setRefCnt n ((db.node n).refCnt - 1)) n
  else db.setRefCnt n ((db.node n).refCnt - 1)

def scanEntryDel (db : ScanDb) (n : ℕ) : ScanDb :=
  if (db.node n).cookie ≠ scanNodeActiveCookie then db
  else if (db.node n).refCnt = 0 then db
  else scanEntryPutRef (db.setCookie n 0) n

/-- The node is allocated for the entry and added before `dup`, or at the end. -/
def addScanNode (db : ScanDb) (e : ScanEntry) (dup : Option ℕ) : ScanDb :=
  let n := db.fresh
  let i := scanGetHash e.bssid
  let db₁ := { db with
    node := Function.update db.node n { entry := e, refCnt := 0, cookie := scanNodeActiveCookie }
    fresh := n + 1 }
  let db₂ := scanEntryGetRef db₁ n
  let db₃ := match dup with
    | none => db₂.setList i (db₂.scanHashTbl i ++ [n])
    | some d => db₂.setList i (ListCursor.insertBefore d n (db₂.scanHashTbl i))
  { db₃ with numEntries := db₃.numEntries + 1 }

def getNextValidNode (db : ScanDb) (i : ℕ) (cur : Option ℕ) : Option ℕ :=
  ListCursor.next db.valid (db.scanHashTbl i) cur

def getNextNode (db : ScanDb) (i : ℕ) (cur : Option ℕ) : ScanDb × Option ℕ :=
  let next := getNextValidNode db i cur
  let db₁ := match cur with
    | none => db
    | some c => scanEntryPutRef db c
  match next with
  | none => (db₁, none)
  | some n => (scanEntryGetRef db₁ n, some n)

/-- Who iterates all the lists: `ageOutEntries`, `flushScanEntries`, `filterValidChannel`,
`getResults`, `iterateDbAndCallFunc` and `updateRnrFromScanCache`. -/
inductive Walk
  | ageOut
  | flush
  | filterChannels
  | results
  | iterate
  | rnr

def Walk.deletes : Walk → Bool
  | .ageOut | .flush | .filterChannels => true
  | .results | .iterate | .rnr => false

def Walk.stops : Walk → Bool
  | .iterate => true
  | .ageOut | .flush | .filterChannels | .results | .rnr => false

inductive WalkPhase
  | size
  | body
  | next

def Walk.first : Walk → WalkPhase
  | .results => .size
  | .ageOut | .flush | .filterChannels | .iterate | .rnr => .body

inductive OldestPhase
  | compare
  | take
  | next

/-- The list that is iterated and the node of it that is held. -/
structure Cursor where
  hash : ℕ
  cur : Option ℕ

inductive Proc
  | walk (k : Walk) (c : Cursor) (ph : WalkPhase)
  | lookup (addr : MacAddr) (c : Cursor)
  | find (e : ScanEntry) (c : Cursor)
  | found (e : ScanEntry) (dup : Option ℕ)
  | oldest (e : ScanEntry) (dup old : Option ℕ) (c : Cursor) (ph : OldestPhase)
  | add (e : ScanEntry) (dup : Option ℕ)
  | done

inductive Call
  | walk (k : Walk)
  | updateMlmeInfo (addr : MacAddr)
  | addUpdateEntry (e : ScanEntry)

def Call.begin : Call → Proc
  | .walk k => .walk k ⟨0, none⟩ .body
  | .updateMlmeInfo addr => .lookup addr ⟨scanGetHash addr, none⟩
  | .addUpdateEntry e => .find e ⟨scanGetHash e.bssid, none⟩

/-- What one step of a caller leaves, and the node the iterator returned in it. -/
structure Turn where
  db : ScanDb
  proc : Proc
  ret : Option ℕ

def advance (db : ScanDb) (c : Cursor) (proc : Cursor → Proc) : Turn :=
  match getNextNode db c.hash c.cur with
  | (db', none) => ⟨db', proc ⟨c.hash + 1, none⟩, none⟩
  | (db', some n) => ⟨db', proc ⟨c.hash, some n⟩, some n⟩

def walkStep (db : ScanDb) (k : Walk) (c : Cursor) (ph : WalkPhase) (b : Bool) : Turn :=
  match c.cur, ph with
  | none, _ =>
    if c.hash < scanHashSize then advance db c (.walk k · k.first) else ⟨db, .done, none⟩
  | some _, .size =>
    if (db.scanHashTbl c.hash).length = 0 then ⟨db, .walk k ⟨c.hash + 1, none⟩ .body, none⟩
    else ⟨db, .walk k c .body, none⟩
  | some n, .body =>
    if k.deletes && b then ⟨scanEntryDel db n, .walk k c .next, none⟩
    else if k.stops && b then ⟨scanEntryPutRef db n, .done, none⟩
    else ⟨db, .walk k c .next, none⟩
  | some _, .next => advance db c (.walk k · .body)

/-- `updateScanMlmeInfo` and `scanUpdateMlmeByBssinfo`: the entry that matches is written to and
given back. -/
def lookupStep (db : ScanDb) (addr : MacAddr) (c : Cursor) (b : Bool) : Turn :=
  match c.cur with
  | none =>
    if c.hash = scanGetHash addr then advance db c (.lookup addr ·) else ⟨db, .done, none⟩
  | some n => if b then ⟨scanEntryPutRef db n, .done, none⟩ else advance db c (.lookup addr ·)

/-- `findDuplicate`: the reference to the entry that matches is kept. -/
def findStep (db : ScanDb) (e : ScanEntry) (c : Cursor) (b : Bool) : Turn :=
  match c.cur with
  | none =>
    if c.hash = scanGetHash e.bssid then advance db c (.find e ·) else ⟨db, .found e none, none⟩
  | some n => if b then ⟨db, .found e (some n), none⟩ else advance db c (.find e ·)

def foundStep (db : ScanDb) (e : ScanEntry) (dup : Option ℕ) : Turn :=
  if maxScanCacheSize ≤ db.numEntries then ⟨db, .oldest e dup none ⟨0, none⟩ .compare, none⟩
  else ⟨db, .add e dup, none⟩

/-- `flushOldestEntry`: the older one of two is given back before the other is taken. -/
def oldestStep (db : ScanDb) (e : ScanEntry) (dup old : Option ℕ) (c : Cursor) (ph : OldestPhase)
    (b : Bool) : Turn :=
  match c.cur, ph with
  | none, _ =>
    if c.hash < scanHashSize then advance db c (.oldest e dup old · .compare)
    else match old with
      | none => ⟨db, .add e dup, none⟩
      | some o => ⟨scanEntryPutRef (scanEntryDel db o) o, .add e dup, none⟩
  | some _, .compare =>
    match old with
    | none => ⟨db, .oldest e dup none c .take, none⟩
    | some o =>
      if b then ⟨scanEntryPutRef db o, .oldest e dup none c .take, none⟩
      else ⟨db, .oldest e dup old c .next, none⟩
  | some n, .take => ⟨scanEntryGetRef db n, .oldest e dup (some n) c .next, none⟩
  | some _, .next => advance db c (.oldest e dup old · .compare)

/-- The rest of `addUpdateEntry`, where `b` says that the allocation fails. -/
def addStep (db : ScanDb) (e : ScanEntry) (dup : Option ℕ) (b : Bool) : Turn :=
  match dup, b with
  | none, true => ⟨db, .done, none⟩
  | some d, true => ⟨scanEntryPutRef db d, .done, none⟩
  | none, false => ⟨addScanNode db e none, .done, none⟩
  | some d, false =>
    ⟨scanEntryPutRef (scanEntryDel (addScanNode db e (some d)) d) d, .done, none⟩

def procStep (db : ScanDb) (b : Bool) : Proc → Turn
  | .walk k c ph => walkStep db k c ph b
  | .lookup addr c => lookupStep db addr c b
  | .find e c => findStep db e c b
  | .found e dup => foundStep db e dup
  | .oldest e dup old c ph => oldestStep db e dup old c ph b
  | .add e dup => addStep db e dup b
  | .done => ⟨db, .done, none⟩

structure St where
  db : ScanDb
  procs : List Proc

inductive Event
  | call (k : Call)
  | step (t : ℕ) (b : Bool)

abbrev Ret := ℕ × ℕ

def St.step (s : St) : Event → St × List Ret
  | .call k => ({ s with procs := s.procs ++ [k.begin] }, [])
  | .step t b =>
    match s.procs[t]? with
    | none => (s, [])
    | some p =>
      let r := procStep s.db b p
      (⟨r.db, s.procs.set t r.proc⟩, r.ret.toList.map (t, ·))

def machine : Machine St Event Ret := ⟨St.step⟩

/-- `scmDbInit`. -/
def init : St where
  db := { numEntries := 0, scanHashTbl := fun _ => [], node := fun _ => ⟨⟨fun _ => 0⟩, 0, 0⟩,
          fresh := 0, freed := [] }
  procs := []

def Proc.holds : Proc → List ℕ
  | .walk _ c _ | .lookup _ c | .find _ c => c.cur.toList
  | .found _ dup | .add _ dup => dup.toList
  | .oldest _ dup old c _ => c.cur.toList ++ (old.toList ++ dup.toList)
  | .done => []

def Proc.cursor : Proc → Option Cursor
  | .walk _ c _ | .lookup _ c | .find _ c | .oldest _ _ _ c _ => some c
  | .found .. | .add .. | .done => none

def Proc.stage : Proc → ℕ
  | .walk .. | .lookup .. | .find .. => 0
  | .found .. => 1
  | .oldest .. => 2
  | .add .. => 3
  | .done => 4

end KernelModules.ScanCache
