import KernelModules.Ledger
import KernelModules.Machine

/-!
# The configuration stores of the WLAN driver

A store holds the values of one ini file and a count of its users. Every psoc begins on the global
store; one that is given a file of its own goes over to the store of that file, which is looked up
by its path before a new one is made. Calls run side by side. A call is one step up to each
operation on a count, each section under the lock of the list and each parse of a file.
-/

namespace KernelModules.Cfg

/-- How an ini item is handled: the value it gives to a field, or nothing, and then the store keeps
the one it has. -/
structure Meta (Field Val Str : Type*) where
  field : Field
  itemHandler : Str → Option Val

/-- The table of the items, what the ini files hold, the defaults, and what memory holds that has
just been allocated. -/
structure Env (Path Key Str Field Val : Type*) where
  lookupMeta : Key → Option (Meta Field Val Str)
  ini : Path → List (Key × Str)
  defaults : Field → Val
  zero : Field → Val

structure Store (Path Field Val : Type*) where
  path : Path
  users : ℤ
  values : Field → Val
  freed : Bool := false

inductive Psoc
  | detached
  | attached (store : ℕ)
  deriving DecidableEq

inductive Return (Path : Type*)
  | created (psoc : ℕ)
  | destroyed (psoc : ℕ)
  | parseFailed (psoc : ℕ) (path : Path)
  | parsed (psoc : ℕ) (path : Path)

inductive Call (Path : Type*)
  | returned
  | setPriv (psoc : ℕ)
  | storeGet (psoc : ℕ) (path : Path)
  | storeAlloc (psoc : ℕ) (path : Path)
  | parseToStore (psoc : ℕ) (path : Path) (store : ℕ)
  | setStore (psoc : ℕ) (path : Path) (store : ℕ)
  | storePut (store : ℕ) (ret : Return Path)
  | storeFree (store : ℕ) (ret : Return Path)

/-- The psoc with what it points to when a parse of it returns. -/
inductive Event (Path : Type*)
  | freed (store : ℕ)
  | parseFailed (psoc : ℕ) (path : Path) (ctx : Option Psoc)
  | parsed (psoc : ℕ) (path : Path) (ctx : Option Psoc)
  deriving DecidableEq

structure State (Path Field Val : Type*) where
  stores : ℕ → Option (Store Path Field Val)
  next : ℕ
  storesList : List ℕ
  psocs : List Psoc
  calls : List (Call Path)

inductive Input (Path : Type*)
  | psocCreate (nomem : Bool)
  | psocDestroy (psoc : ℕ)
  | psocParse (psoc : ℕ) (path : Path)
  /-- A call goes on; what it asks for is given or not. -/
  | goOn (call : ℕ) (ok : Bool)

/-- `__cfg_global_store` is the first store that has been made. -/
def globalStore : ℕ := 0

variable {Path Key Str Field Val : Type*} [DecidableEq Path] [DecidableEq Field]

def Env.itemHandler (env : Env Path Key Str Field Val) (values : Field → Val) (item : Key × Str) :
    Field → Val :=
  match env.lookupMeta item.1 with
  | none => values
  | some entry =>
    match entry.itemHandler item.2 with
    | none => values
    | some value => Function.update values entry.field value

def Env.parse (env : Env Path Key Str Field Val) (path : Path) (values : Field → Val) : Field → Val :=
  (env.ini path).foldl env.itemHandler values

namespace State

variable (env : Env Path Key Str Field Val) (s : State Path Field Val)

def setCall (i : ℕ) (call : Call Path) : State Path Field Val :=
  { s with calls := s.calls.set i call }

def putStore (x : ℕ) (store : Store Path Field Val) : State Path Field Val :=
  { s with stores := Function.update s.stores x (some store) }

def hasPath (path : Path) (x : ℕ) : Bool :=
  match s.stores x with
  | some store => store.path = path
  | none => false

def globalValues : Field → Val :=
  match s.stores globalStore with
  | some store => store.values
  | none => env.defaults

/-- The call returns. -/
def ret (i : ℕ) : Return Path → State Path Field Val × List (Event Path)
  | .created _ => (s.setCall i .returned, [])
  | .destroyed _ => (s.setCall i .returned, [])
  | .parseFailed psoc path => (s.setCall i .returned, [.parseFailed psoc path s.psocs[psoc]?])
  | .parsed psoc path => (s.setCall i .returned, [.parsed psoc path s.psocs[psoc]?])

/-- `cfg_store_get`, from the front of the list. -/
def storeGet (i psoc : ℕ) (path : Path) : State Path Field Val :=
  match s.storesList.find? (s.hasPath path) with
  | none => s.setCall i (.storeAlloc psoc path)
  | some x =>
    match s.stores x with
    | none => s
    | some store =>
      (s.putStore x { store with users := store.users + 1 }).setCall i (.setStore psoc path x)

/-- `cfg_store_alloc`; the values are those of fresh memory. -/
def storeAlloc (i psoc : ℕ) (path : Path) : State Path Field Val :=
  { s.putStore s.next { path := path, users := 1, values := env.zero } with
    next := s.next + 1
    storesList := s.storesList ++ [s.next] }.setCall i (.parseToStore psoc path s.next)

/-- The global values are inherited, and the file is parsed or cannot be read. -/
def parseToStore (i psoc : ℕ) (path : Path) (x : ℕ) (ok : Bool) : State Path Field Val :=
  match s.stores x with
  | none => s
  | some store =>
    if ok then
      (s.putStore x { store with values := env.parse path (s.globalValues env) }).setCall i
        (.setStore psoc path x)
    else
      (s.putStore x { store with values := s.globalValues env }).setCall i
        (.storePut x (.parseFailed psoc path))

/-- `psoc_ctx->store = store`, in front of the put of the global store. -/
def setStore (i psoc : ℕ) (path : Path) (x : ℕ) : State Path Field Val :=
  match s.psocs[psoc]? with
  | some (.attached _) =>
    { s with psocs := s.psocs.set psoc (.attached x) }.setCall i
      (.storePut globalStore (.parsed psoc path))
  -- The context has been freed.
  | _ => s.setCall i (.storePut globalStore (.parsed psoc path))

/-- `cfg_store_put`: the decrement. -/
def storePut (i x : ℕ) (ret : Return Path) : State Path Field Val × List (Event Path) :=
  match s.stores x with
  | none => (s, [])
  | some store =>
    let s := s.putStore x { store with users := store.users - 1 }
    if store.users - 1 = 0 then (s.setCall i (.storeFree x ret), []) else s.ret i ret

/-- `cfg_store_free`. -/
def storeFree (i x : ℕ) (ret : Return Path) : State Path Field Val × List (Event Path) :=
  match s.stores x with
  | none => (s, [])
  | some store =>
    let r := ({ s.putStore x { store with freed := true } with
      storesList := s.storesList.erase x }).ret i ret
    (r.1, .freed x :: r.2)

def goOn (i : ℕ) (ok : Bool) : Call Path → State Path Field Val × List (Event Path)
  | .returned => (s, [])
  | .setPriv psoc =>
    if ok then
      ({ s with psocs := s.psocs.set psoc (.attached globalStore) }.setCall i .returned, [])
    else (s.setCall i (.storePut globalStore (.created psoc)), [])
  | .storeGet psoc path => (s.storeGet i psoc path, [])
  | .storeAlloc psoc path =>
    if ok then (s.storeAlloc env i psoc path, []) else s.ret i (.parseFailed psoc path)
  | .parseToStore psoc path x => (s.parseToStore env i psoc path x ok, [])
  | .setStore psoc path x => (s.setStore i psoc path x, [])
  | .storePut x ret => s.storePut i x ret
  | .storeFree x ret => s.storeFree i x ret

/-- `cfg_on_psoc_create`, up to the attach of the context. -/
def psocCreate : State Path Field Val :=
  match s.stores globalStore with
  | none => s
  | some store =>
    { s.putStore globalStore { store with users := store.users + 1 } with
      psocs := s.psocs ++ [.detached]
      calls := s.calls ++ [.setPriv s.psocs.length] }

/-- `cfg_on_psoc_destroy`, up to the put. -/
def psocDestroy (psoc : ℕ) : State Path Field Val :=
  match s.psocs[psoc]? with
  | some (.attached x) =>
    { s with
      psocs := s.psocs.set psoc .detached
      calls := s.calls ++ [.storePut x (.destroyed psoc)] }
  | _ => s

/-- `cfg_psoc_parse`, up to the lookup: a psoc that has left the global store stays where it is. -/
def psocParse (psoc : ℕ) (path : Path) : State Path Field Val :=
  match s.psocs[psoc]? with
  | some (.attached x) =>
    if x = globalStore then { s with calls := s.calls ++ [.storeGet psoc path] } else s
  | _ => s

end State

variable (env : Env Path Key Str Field Val)

/-- Behind `cfg_parse`. -/
def parsed (path : Path) : State Path Field Val where
  stores := Function.update (fun _ => none) globalStore
    (some { path := path, users := 1, values := env.parse path env.defaults })
  next := globalStore + 1
  storesList := [globalStore]
  psocs := []
  calls := []

def step (s : State Path Field Val) :
    Input Path → State Path Field Val × List (Event Path)
  | .psocCreate nomem => (if nomem then s else s.psocCreate, [])
  | .psocDestroy psoc => (s.psocDestroy psoc, [])
  | .psocParse psoc path => (s.psocParse psoc path, [])
  | .goOn i ok =>
    match s.calls[i]? with
    | some call => s.goOn env i ok call
    | none => (s, [])

def machine : Machine (State Path Field Val) (Input Path) (Event Path) where
  step := step env

end KernelModules.Cfg
