import KernelModules.CrmWiring
import Mathlib.Tactic

/-!
# Sessions and their links

Links are kept in a pool that all sessions share. To create one, an entry of the pool is taken, a
handle is made for it, the devices are asked about themselves and told about the link, and a
worker is started. When a step fails, the ones before it are to be undone.

A handle that is passed as a session handle is one of a session or not known at all.
-/

namespace KernelModules.Crm.Sessions

open Function

/-- `MAXIMUM_LINKS_PER_SESSION`, and the size of the pool. -/
abbrev maxLinks : ℕ := 4

/-- `CAM_REQ_MGR_MAX_HANDLES_V2`, the size of the handle table. -/
abbrev maxHdls : ℕ := 128

abbrev eNoent : ℤ := -2
abbrev eNxio : ℤ := -6
abbrev eNomem : ℤ := -12
abbrev eNosr : ℤ := -63

inductive Version
  | v1
  | v2

/-- `CAM_REQ_MGR_MAX_HANDLES` and `CAM_REQ_MGR_MAX_HANDLES_V2`. -/
def Version.maxHandles : Version → ℕ
  | .v1 => 64
  | .v2 => 128

inductive HdlType
  | dev
  | session
  deriving DecidableEq

def HdlType.code : HdlType → ℤ
  | .dev => 1
  | .session => 2

inductive Priv
  | session (p : ℕ)
  | link (i : ℕ)
  | device

/-- An entry of the handle table that is active. `ops` is whether the operations of a device are
there, `get_dev_info` and `link_setup` among them. -/
structure Handle where
  sessionHdl : ℤ
  hdlValue : ℤ
  type : HdlType
  priv : Priv
  ops : Bool

/-- An entry of the pool. `devs` are the devices that are connected, and `workq` is whether there
is a worker. -/
structure PoolLink where
  linkHdl : ℤ := 0
  parent : Option ℕ := none
  syncLink : Option ℕ := none
  devs : List ℤ := []
  workq : Bool := false
  link : Link := { inQ := setupInQ }

structure Session where
  sessionHdl : ℤ := 0
  numLinks : ℕ := 0
  links : ℕ → Option ℕ := fun _ => none

/-- Sessions go by their addresses; `linked` are the devices that consider themselves linked. -/
structure Core where
  handles : ℕ → Option Handle
  isUsed : ℕ → Bool
  pool : ℕ → PoolLink
  sessions : ℕ → Session
  linked : ℤ → Bool

/-- `CAM_REQ_MGR_GET_HDL_IDX`. -/
def hdlIdx (hdl : ℤ) : ℕ := (hdl % 256).toNat

/-- `GET_DEV_HANDLE`; the random part is one byte. -/
def getDevHandle (rand : ℕ) (type : HdlType) (idx : ℕ) : ℤ :=
  (rand % 256 : ℕ) * 2 ^ 16 + type.code * 2 ^ 8 + idx

def freeHandleIndex (s : Core) : Option ℕ :=
  (List.range maxHdls).find? fun idx => (s.handles idx).isNone

def setHandle (s : Core) (idx : ℕ) (h : Option Handle) : Core :=
  { s with handles := update s.handles idx h }

/-- `cam_create_session_hdl` and `cam_create_device_hdl`. -/
def createHdl (s : Core) (rand : ℕ) (type : HdlType) (sessionHdl : ℤ) (priv : Priv) (ops : Bool) :
    Core × ℤ :=
  match freeHandleIndex s with
  | none => (s, eNosr)
  | some idx =>
    let hdl := getDevHandle rand type idx
    (setHandle s idx (some ⟨if type = .session then hdl else sessionHdl, hdl, type, priv, ops⟩), hdl)

def lookup (s : Core) (hdl : ℤ) : Option Handle :=
  if maxHdls ≤ hdlIdx hdl then none else (s.handles (hdlIdx hdl)).filter (·.hdlValue = hdl)

def Priv.sessionPtr : Priv → Option ℕ
  | .session p => some p
  | _ => none

def Priv.linkPtr : Priv → Option ℕ
  | .link i => some i
  | _ => none

/-- `cam_get_device_priv`, of a session and of a link. -/
def getSession (s : Core) (hdl : ℤ) : Option ℕ := (lookup s hdl).bind fun h => h.priv.sessionPtr

def getLink (s : Core) (hdl : ℤ) : Option ℕ := (lookup s hdl).bind fun h => h.priv.linkPtr

/-- `cam_get_device_ops`, as far as they are complete. -/
def hasOps (s : Core) (hdl : ℤ) : Bool := (lookup s hdl).any fun h => h.ops

def destroyHdl (s : Core) (hdl : ℤ) (type : HdlType) : Core × ℤ :=
  match lookup s hdl with
  | none => (s, eInval)
  | some h => if h.type = type then (setHandle s (hdlIdx hdl) none, 0) else (s, eInval)

def setPool (s : Core) (i : ℕ) (l : PoolLink) : Core := { s with pool := update s.pool i l }

def setSession (s : Core) (p : ℕ) (session : Session) : Core :=
  { s with sessions := update s.sessions p session }

def freeLinkIndex (s : Core) : Option ℕ := (List.range maxLinks).find? fun i => !s.isUsed i

def freeSessionIndex (session : Session) : Option ℕ :=
  (List.range maxLinks).find? fun j => (session.links j).isNone

/-- `inQ` is whether the input queue can be allocated. -/
def reserveLink (s : Core) (p : ℕ) (inQ : Bool) : Core × Option ℕ :=
  let session := s.sessions p
  if maxLinks ≤ session.numLinks then (s, none)
  else
    match freeLinkIndex s with
    | none => (s, none)
    | some i =>
      let s := setPool { s with isUsed := update s.isUsed i true } i {}
      if !inQ then (s, none)
      else
        let s := setPool s i { parent := some p }
        match freeSessionIndex session with
        | none => (s, none)
        | some j =>
          (setSession s p { session with
            links := update session.links j (some i)
            numLinks := session.numLinks + 1 }, some i)

def freeLink (s : Core) (i : ℕ) : Core :=
  setPool { s with isUsed := update s.isUsed i false } i {}

def clearSync (s : Core) (i : ℕ) (links : ℕ → Option ℕ) : Core :=
  match (s.pool i).syncLink with
  | none => s
  | some j =>
    if j ≠ i ∧ ∃ k < maxLinks, links k = some j then
      setPool s j { s.pool j with syncLink := none }
    else s

def unreserveLink (s : Core) (p i : ℕ) : Core :=
  let session := s.sessions p
  if session.numLinks = 0 then s
  else
    let s := clearSync s i session.links
    let s := setSession s p { session with
      links := fun k => if k < maxLinks ∧ session.links k = some i then none else session.links k
      numLinks := session.numLinks - 1 }
    freeLink s i

/-- What `get_dev_info` returns and tells. -/
structure DevReply where
  rc : ℤ := 0
  pDelay : ℤ := 0
  trigger : ℕ := 1

/-- Which allocations succeed, and how the devices answer. -/
structure Env where
  inQ : Bool := true
  rand : ℕ := 0
  subdevs : Bool := true
  devInfo : ℤ → DevReply := fun _ => {}
  pdTbl : PipelineDelay → Bool := fun _ => true
  accepts : ℤ → Bool := fun _ => true
  workq : Bool := true
  payload : Bool := true

structure LinkRequest where
  version : Version := .v1
  sessionHdl : ℤ
  devHdls : List ℤ

/-- The first loop over the devices. A delay out of range ends it with the return code of
`get_dev_info`, which may well be `0`. -/
def getDevInfos (s : Core) (env : Env) : List ℤ → Except ℤ (List DevInfo)
  | [] => .ok []
  | hdl :: hdls =>
    if hasOps s hdl = false then .error eNxio
    else
      let r := env.devInfo hdl
      if h : ¬ r.rc < 0 ∧ 0 ≤ r.pDelay ∧ r.pDelay < 3 then
        match getDevInfos s env hdls with
        | .ok infos => .ok (⟨hdl, ⟨r.pDelay.toNat, by omega⟩, r.trigger⟩ :: infos)
        | .error rc => .error rc
      else .error r.rc

/-- `link_setup` of a device, which may refuse; nobody looks at what it returns. -/
def linkSetup (env : Env) (enable : Bool) (linked : ℤ → Bool) (hdl : ℤ) : ℤ → Bool :=
  if env.accepts hdl then update linked hdl enable else linked

/-- The second loop over the devices; it ends when a table can not be allocated. -/
def connectDevices (env : Env) : List DevInfo → Link → (ℤ → Bool) → Option Link × (ℤ → Bool)
  | [], link, linked => (some link, linked)
  | info :: infos, link, linked =>
    if link.pdMask.testBit info.pDelay = false ∧ env.pdTbl info.pDelay = false then (none, linked)
    else connectDevices env infos (setupDevice link info) (linkSetup env true linked info.devHdl)

def destroyLinkInfo (s : Core) (i : ℕ) : Core :=
  setPool s i { s.pool i with devs := [], link := { inQ := setupInQ } }

def subscribeEvent (infos : List DevInfo) : ℕ := infos.foldl (fun m info => m ||| info.trigger) 0

/-- `__cam_req_mgr_setup_link_info`. -/
def setupPoolLink (s : Core) (i : ℕ) (req : LinkRequest) (env : Env) : Core × ℤ :=
  if req.version.maxHandles < req.devHdls.length then (s, ePerm)
  else
    match getDevInfos s env req.devHdls with
    | .error rc => (destroyLinkInfo s i, rc)
    | .ok infos =>
      let r := connectDevices env infos
        { inQ := setupInQ, subscribeEvent := subscribeEvent infos } s.linked
      let s := { s with linked := r.2 }
      match r.1 with
      | none => (destroyLinkInfo s i, eNxio)
      | some link =>
        (setPool s i { s.pool i with
          devs := infos.map (·.devHdl)
          link := tblSetAllSkipCnt link }, 0)

def linkHdlFail (s : Core) (p i : ℕ) : Core := unreserveLink s p i

def createSubdevFailed (s : Core) (p i : ℕ) : Core :=
  linkHdlFail (destroyHdl s (s.pool i).linkHdl .dev).1 p i

/-- `cam_req_mgr_link` and `cam_req_mgr_link_v2`. -/
def link (s : Core) (req : LinkRequest) (env : Env) : Core × ℤ :=
  if req.version.maxHandles < req.devHdls.length then (s, eInval)
  else
    match getSession s req.sessionHdl with
    | none => (s, eInval)
    | some p =>
      match reserveLink s p env.inQ with
      | (s, none) => (s, eInval)
      | (s, some i) =>
        let c := createHdl s env.rand .dev req.sessionHdl (.link i) false
        let s := setPool c.1 i { c.1.pool i with linkHdl := c.2 }
        if c.2 < 0 then (linkHdlFail s p i, c.2)
        else if !env.subdevs then (createSubdevFailed s p i, eNomem)
        else
          let r := setupPoolLink s i req env
          if r.2 < 0 then (createSubdevFailed r.1 p i, r.2)
          else
            let s := setPool r.1 i { r.1.pool i with
              link := { (r.1.pool i).link with state := .ready } }
            if !env.workq then (createSubdevFailed (destroyLinkInfo s i) p i, eNomem)
            else
              let s := setPool s i { s.pool i with workq := true }
              if !env.payload then
                let s := destroyLinkInfo s i
                (createSubdevFailed (setPool s i { s.pool i with workq := false }) p i, eNomem)
              else (s, 0)

/-- `__cam_req_mgr_unlink`. The devices are not told when the driver shuts down. -/
def unlinkDevices (s : Core) (i : ℕ) (shutdown : Bool) (env : Env) : Core × ℤ :=
  let s :=
    if shutdown then s
    else { s with linked := (s.pool i).devs.foldl (linkSetup env false) s.linked }
  let s := destroyLinkInfo (setPool s i { s.pool i with workq := false }) i
  let r := destroyHdl s (s.pool i).linkHdl .dev
  if r.2 < 0 then r else (setPool r.1 i { r.1.pool i with linkHdl := -1 }, r.2)

/-- `cam_req_mgr_unlink`. The link need not be one of the session. -/
def unlink (s : Core) (sessionHdl linkHdl : ℤ) (env : Env) : Core × ℤ :=
  match getSession s sessionHdl with
  | none => (s, eInval)
  | some p =>
    match getLink s linkHdl with
    | none => (s, eInval)
    | some i =>
      let r := unlinkDevices s i false env
      (unreserveLink r.1 p i, r.2)

/-- `p` is the address of the new session. -/
def createSession (s : Core) (p rand : ℕ) : Core × ℤ :=
  let r := createHdl s rand .session 0 (.session p) false
  if r.2 < 0 then r else (setSession r.1 p { sessionHdl := r.2 }, r.2)

def destroySession (s : Core) (sessionHdl : ℤ) (shutdown : Bool) (env : Env) : Core × ℤ :=
  match getSession s sessionHdl with
  | none => (s, eNoent)
  | some p =>
    let unlinkAt (s : Core) (j : ℕ) : Core :=
      match (s.sessions p).links j with
      | none => s
      | some i => freeLink (unlinkDevices s i shutdown env).1 i
    let s := if (s.sessions p).numLinks = 0 then s else (List.range maxLinks).foldl unlinkAt s
    destroyHdl s sessionHdl .session

def acquireDev (s : Core) (rand : ℕ) (sessionHdl : ℤ) (ops : Bool) : Core × ℤ :=
  createHdl s rand .dev sessionHdl .device ops

inductive Input
  | createSession (p rand : ℕ)
  | destroySession (sessionHdl : ℤ) (shutdown : Bool) (env : Env)
  | acquireDev (rand : ℕ) (sessionHdl : ℤ) (ops : Bool)
  | releaseDev (devHdl : ℤ)
  | link (req : LinkRequest) (env : Env)
  | unlink (sessionHdl linkHdl : ℤ) (env : Env)

def initial : Core where
  handles _ := none
  isUsed _ := false
  pool _ := {}
  sessions _ := {}
  linked _ := false

/-- Each call holds the lock of the core device; its output is its return code. -/
def machine : Machine Core Input ℤ where
  step s
    | .createSession p rand => ((createSession s p rand).1, [(createSession s p rand).2])
    | .destroySession sessionHdl shutdown env =>
      ((destroySession s sessionHdl shutdown env).1, [(destroySession s sessionHdl shutdown env).2])
    | .acquireDev rand sessionHdl ops =>
      ((acquireDev s rand sessionHdl ops).1, [(acquireDev s rand sessionHdl ops).2])
    | .releaseDev devHdl => ((destroyHdl s devHdl .dev).1, [(destroyHdl s devHdl .dev).2])
    | .link req env => ((link s req env).1, [(link s req env).2])
    | .unlink sessionHdl linkHdl env =>
      ((unlink s sessionHdl linkHdl env).1, [(unlink s sessionHdl linkHdl env).2])

/-- Nothing has changed but the contents of the pool. -/
structure SameOutside (s s' : Core) : Prop where
  isUsed : s'.isUsed = s.isUsed
  sessions : s'.sessions = s.sessions
  handles : s'.handles = s.handles
  linked : s'.linked = s.linked

/-- The devices that are told about the link: those before the first one whose table can not be
allocated. -/
def told (s : Core) (req : LinkRequest) (env : Env) : List DevInfo :=
  if freeHandleIndex s = none ∨ env.subdevs = false then []
  else
    match getDevInfos s env req.devHdls with
    | .ok infos => infos.takeWhile fun info => env.pdTbl info.pDelay
    | .error _ => []

/-- Some step fails after the link was reserved. -/
def SetupFails (s : Core) (req : LinkRequest) (env : Env) : Prop :=
  freeHandleIndex s = none ∨ env.subdevs = false ∨
    (∃ rc < 0, getDevInfos s env req.devHdls = .error rc) ∨
    (∃ infos, getDevInfos s env req.devHdls = .ok infos ∧
      ∃ info ∈ infos, env.pdTbl info.pDelay = false) ∨
    env.workq = false ∨ env.payload = false

/-- Once an entry of the pool has been taken, its queue can be allocated and the session has room
for it; and if a later step fails, the session has no other reference to that entry, and no device
has been told that was not linked before. -/
def Undoable (s : Core) (req : LinkRequest) (env : Env) : Prop :=
  ∀ p i, req.devHdls.length ≤ req.version.maxHandles → getSession s req.sessionHdl = some p →
    (s.sessions p).numLinks < maxLinks → freeLinkIndex s = some i →
    env.inQ = true ∧ freeSessionIndex (s.sessions p) ≠ none ∧
    (SetupFails s req env → (∀ k < maxLinks, (s.sessions p).links k ≠ some i) ∧
      ∀ info ∈ told s req env, env.accepts info.devHdl = true → s.linked info.devHdl = true)

variable {s t : Core} {p i j idx : ℕ} {req : LinkRequest} {env : Env}

theorem hdlIdx_getDevHandle (rand : ℕ) (type : HdlType) (h : idx < maxHdls) :
    hdlIdx (getDevHandle rand type idx) = idx := by
  have h : idx < 128 := h
  have hcode : type.code = 1 ∨ type.code = 2 := by cases type <;> simp [HdlType.code]
  unfold hdlIdx getDevHandle
  omega

theorem getDevHandle_pos (rand : ℕ) (type : HdlType) (idx : ℕ) :
    0 < getDevHandle rand type idx := by
  have hcode : type.code = 1 ∨ type.code = 2 := by cases type <;> simp [HdlType.code]
  unfold getDevHandle
  omega

theorem freeHandleIndex_some (h : freeHandleIndex s = some idx) :
    idx < maxHdls ∧ s.handles idx = none := by
  have hfree := List.find?_some h
  exact ⟨List.mem_range.mp (List.mem_of_find?_eq_some h), Option.isNone_iff_eq_none.mp hfree⟩

def withHandle (s : Core) (idx : ℕ) (req : LinkRequest) (env : Env) (i : ℕ) :
    ℕ → Option Handle :=
  update s.handles idx
    (some ⟨req.sessionHdl, getDevHandle env.rand .dev idx, .dev, .link i, false⟩)

theorem destroyHdl_new (hidx : freeHandleIndex s = some idx)
    (ht : t.handles = withHandle s idx req env i) :
    (destroyHdl t (getDevHandle env.rand .dev idx) .dev).1 = { t with handles := s.handles } := by
  obtain ⟨hlt, hnone⟩ := freeHandleIndex_some hidx
  have hfound : lookup t (getDevHandle env.rand .dev idx) =
      some ⟨req.sessionHdl, getDevHandle env.rand .dev idx, .dev, .link i, false⟩ := by
    unfold lookup
    rw [hdlIdx_getDevHandle _ _ hlt, if_neg (not_le.mpr hlt), ht, withHandle, update_self]
    exact Option.filter_some_pos (decide_eq_true rfl)
  unfold destroyHdl
  rw [hfound]
  dsimp only
  rw [if_pos rfl, hdlIdx_getDevHandle _ _ hlt, setHandle, ht, withHandle, update_idem,
    ← hnone, update_eq_self]

theorem hasOps_new (hidx : freeHandleIndex s = some idx)
    (ht : t.handles = withHandle s idx req env i) (hdl : ℤ) : hasOps t hdl = hasOps s hdl := by
  obtain ⟨-, hnone⟩ := freeHandleIndex_some hidx
  unfold hasOps lookup
  by_cases hmax : maxHdls ≤ hdlIdx hdl
  · rw [if_pos hmax, if_pos hmax]
  rw [if_neg hmax, if_neg hmax, ht, withHandle]
  by_cases hi : hdlIdx hdl = idx
  · rw [hi, update_self, hnone]
    by_cases hv : getDevHandle env.rand .dev idx = hdl
    · simp [Option.filter, hv]
    · simp [Option.filter, hv]
  · rw [update_of_ne hi]

theorem getDevInfos_congr (h : ∀ hdl, hasOps t hdl = hasOps s hdl) (hdls : List ℤ) :
    getDevInfos t env hdls = getDevInfos s env hdls := by
  induction hdls with
  | nil => rfl
  | cons hdl hdls ih => simp only [getDevInfos, h, ih]

theorem setupDevice_pdMask (link : Link) (info : DevInfo) :
    (setupDevice link info).pdMask =
      if link.pdMask.testBit info.pDelay then link.pdMask
      else link.pdMask ||| 1 <<< info.pDelay.val := by
  unfold setupDevice
  dsimp only
  split <;> rfl

theorem connectDevices_eq (env : Env) (infos : List DevInfo) (link : Link) (linked : ℤ → Bool)
    (hmask : ∀ pd : PipelineDelay, link.pdMask.testBit pd = true → env.pdTbl pd = true) :
    (connectDevices env infos link linked).2 =
        (infos.takeWhile fun info => env.pdTbl info.pDelay).foldl
          (fun linked info => linkSetup env true linked info.devHdl) linked ∧
      ((connectDevices env infos link linked).1 = none ↔
        ∃ info ∈ infos, env.pdTbl info.pDelay = false) := by
  induction infos generalizing link linked with
  | nil => simp [connectDevices]
  | cons info infos ih =>
    by_cases htbl : env.pdTbl info.pDelay = true
    · have hnext : ∀ pd : PipelineDelay, (setupDevice link info).pdMask.testBit pd = true →
          env.pdTbl pd = true := by
        intro pd hbit
        rw [setupDevice_pdMask] at hbit
        split at hbit
        · exact hmask pd hbit
        · rcases (testBit_or_bit ..).mp hbit with hbit | heq
          · exact hmask pd hbit
          · rwa [Fin.ext heq]
      obtain ⟨hlinked, hnone⟩ :=
        ih (setupDevice link info) (linkSetup env true linked info.devHdl) hnext
      have hgo : ¬ (link.pdMask.testBit info.pDelay = false ∧ env.pdTbl info.pDelay = false) := by
        simp [htbl]
      rw [connectDevices, if_neg hgo]
      refine ⟨?_, ?_⟩
      · rw [hlinked, List.takeWhile_cons, if_pos htbl, List.foldl_cons]
      · rw [hnone]
        simp [htbl]
    · have htbl : env.pdTbl info.pDelay = false := Bool.eq_false_iff.mpr htbl
      have hbit : link.pdMask.testBit info.pDelay = false := by
        by_contra hbit
        have := hmask info.pDelay (Bool.not_eq_false _ ▸ hbit)
        simp [htbl] at this
      rw [connectDevices, if_pos ⟨hbit, htbl⟩]
      simp [htbl]

theorem foldl_linkSetup_eq_iff (env : Env) (infos : List DevInfo) (linked : ℤ → Bool) :
    infos.foldl (fun linked info => linkSetup env true linked info.devHdl) linked = linked ↔
      ∀ info ∈ infos, env.accepts info.devHdl = true → linked info.devHdl = true := by
  have hfold : ∀ (infos : List DevInfo) (linked : ℤ → Bool) (hdl : ℤ),
      infos.foldl (fun linked info => linkSetup env true linked info.devHdl) linked hdl = true ↔
        linked hdl = true ∨ ∃ info ∈ infos, env.accepts info.devHdl = true ∧ info.devHdl = hdl := by
    intro infos
    induction infos with
    | nil => simp
    | cons info infos ih =>
      intro linked hdl
      have hone : linkSetup env true linked info.devHdl hdl = true ↔
          linked hdl = true ∨ (env.accepts info.devHdl = true ∧ info.devHdl = hdl) := by
        unfold linkSetup
        by_cases hacc : env.accepts info.devHdl = true
        · rw [if_pos hacc]
          by_cases heq : hdl = info.devHdl
          · simp [heq, hacc]
          · simp [heq, Ne.symm heq]
        · rw [if_neg hacc]
          simp [hacc]
      rw [List.foldl_cons, ih, hone]
      simp only [List.mem_cons, exists_eq_or_imp, or_assoc]
  constructor
  · intro heq info hinfo hacc
    rw [← heq, hfold]
    exact .inr ⟨info, hinfo, hacc, rfl⟩
  · intro hall
    funext hdl
    rw [Bool.eq_iff_iff, hfold]
    constructor
    · rintro (hl | ⟨info, hinfo, hacc, rfl⟩)
      · exact hl
      · exact hall info hinfo hacc
    · exact .inl

/-- Entry `i` of the pool has been taken for the session at `p`. -/
structure Taken (s t : Core) (p i : ℕ) : Prop where
  isUsed : t.isUsed = update s.isUsed i true
  sessions : ∃ j, freeSessionIndex (s.sessions p) = some j ∧
    t.sessions = update s.sessions p { s.sessions p with
      links := update (s.sessions p).links j (some i)
      numLinks := (s.sessions p).numLinks + 1 }
  syncLink : (t.pool i).syncLink = none

theorem freeLinkIndex_some (h : freeLinkIndex s = some i) : s.isUsed i = false := by
  have hfree := List.find?_some h
  simpa using hfree

theorem freeSessionIndex_some {session : Session} (h : freeSessionIndex session = some j) :
    j < maxLinks ∧ session.links j = none := by
  have hfree := List.find?_some h
  exact ⟨List.mem_range.mp (List.mem_of_find?_eq_some h), Option.isNone_iff_eq_none.mp hfree⟩

/-- Giving the entry back clears every reference to it that the session has, the old ones too. -/
theorem Taken.unreserveLink (h : Taken s t p i) (hi : freeLinkIndex s = some i) :
    (unreserveLink t p i).isUsed = s.isUsed ∧ (unreserveLink t p i).handles = t.handles ∧
      (unreserveLink t p i).linked = t.linked ∧
      ((unreserveLink t p i).sessions = s.sessions ↔
        ∀ k < maxLinks, (s.sessions p).links k ≠ some i) := by
  obtain ⟨j, hj, hsessions⟩ := h.sessions
  obtain ⟨hlt, hnone⟩ := freeSessionIndex_some hj
  have hp : t.sessions p = { s.sessions p with
      links := update (s.sessions p).links j (some i)
      numLinks := (s.sessions p).numLinks + 1 } := by rw [hsessions, update_self]
  have hsync : ∀ links, clearSync t i links = t := by
    intro links
    unfold clearSync
    rw [h.syncLink]
  have hnum : ¬ (t.sessions p).numLinks = 0 := by
    rw [hp]
    exact Nat.succ_ne_zero _
  unfold Sessions.unreserveLink
  rw [if_neg hnum, hsync]
  refine ⟨?_, rfl, rfl, ?_⟩
  · change update t.isUsed i false = s.isUsed
    rw [h.isUsed, update_idem, ← freeLinkIndex_some hi, update_eq_self]
  · change update t.sessions p _ = s.sessions ↔ _
    rw [hsessions, update_idem, update_self, update_eq_iff]
    constructor
    · rintro ⟨heq, -⟩ k hk hstale
      have hlinks := congrFun (congrArg Session.links heq) k
      dsimp only at hlinks
      have hkj : k ≠ j := by
        rintro rfl
        simp [hnone] at hstale
      simp [update_of_ne hkj, hk, hstale] at hlinks
    · intro hno
      refine ⟨?_, fun _ _ => rfl⟩
      have hlinks : (fun k => if k < maxLinks ∧
          update (s.sessions p).links j (some i) k = some i then none
          else update (s.sessions p).links j (some i) k) = (s.sessions p).links := by
        funext k
        by_cases hkj : k = j
        · rw [hkj, update_self, if_pos ⟨hlt, rfl⟩, hnone]
        · rw [update_of_ne hkj, if_neg]
          rintro ⟨hk, hstale⟩
          exact hno k hk hstale
      rw [hlinks, Nat.add_sub_cancel]

theorem sameOutside_unreserveLink (h : Taken s t p i) (hi : freeLinkIndex s = some i)
    (hh : t.handles = s.handles) :
    SameOutside s (unreserveLink t p i) ↔
      (∀ k < maxLinks, (s.sessions p).links k ≠ some i) ∧ t.linked = s.linked := by
  obtain ⟨hused, hhandles, hlinked, hsessions⟩ := h.unreserveLink hi
  constructor
  · intro hsame
    exact ⟨hsessions.mp hsame.sessions, hlinked.symm.trans hsame.linked⟩
  · rintro ⟨hno, hl⟩
    exact ⟨hused, hsessions.mpr hno, hhandles.trans hh, hlinked.trans hl⟩

structure Started (s t : Core) (p i idx : ℕ) (req : LinkRequest) (env : Env) : Prop
    extends Taken s t p i where
  handles : t.handles = withHandle s idx req env i
  linkHdl : (t.pool i).linkHdl = getDevHandle env.rand .dev idx

theorem Started.sameOutside (h : Started s t p i idx req env) (hi : freeLinkIndex s = some i)
    (hidx : freeHandleIndex s = some idx) :
    SameOutside s (createSubdevFailed t p i) ↔
      (∀ k < maxLinks, (s.sessions p).links k ≠ some i) ∧ t.linked = s.linked := by
  have htaken : Taken s { t with handles := s.handles } p i := ⟨h.isUsed, h.sessions, h.syncLink⟩
  unfold createSubdevFailed linkHdlFail
  rw [h.linkHdl, destroyHdl_new hidx h.handles]
  exact sameOutside_unreserveLink htaken hi rfl

theorem Started.setPool (h : Started s t p i idx req env) {l : PoolLink}
    (hsync : l.syncLink = none) (hl : l.linkHdl = (t.pool i).linkHdl) :
    Started s (setPool t i l) p i idx req env := by
  have hpool : (Sessions.setPool t i l).pool i = l := update_self ..
  refine ⟨⟨h.isUsed, h.sessions, ?_⟩, h.handles, ?_⟩
  · rw [hpool, hsync]
  · rw [hpool, hl, h.linkHdl]

theorem Started.destroyLinkInfo (h : Started s t p i idx req env) :
    Started s (destroyLinkInfo t i) p i idx req env := h.setPool h.syncLink rfl

def DevicesFail (s : Core) (req : LinkRequest) (env : Env) : Prop :=
  (∃ rc < 0, getDevInfos s env req.devHdls = .error rc) ∨
    ∃ infos, getDevInfos s env req.devHdls = .ok infos ∧
      ∃ info ∈ infos, env.pdTbl info.pDelay = false

theorem setupPoolLink_spec (h : Started s t p i idx req env)
    (hidx : freeHandleIndex s = some idx) (hsub : env.subdevs = true)
    (hlen : req.devHdls.length ≤ req.version.maxHandles) :
    Started s (setupPoolLink t i req env).1 p i idx req env ∧
      (setupPoolLink t i req env).1.linked = (told s req env).foldl
        (fun linked info => linkSetup env true linked info.devHdl) t.linked ∧
      ((setupPoolLink t i req env).2 < 0 ↔ DevicesFail s req env) := by
  have hask : getDevInfos t env req.devHdls = getDevInfos s env req.devHdls :=
    getDevInfos_congr (hasOps_new hidx h.handles) _
  unfold setupPoolLink told DevicesFail
  rw [if_neg (not_lt.mpr hlen), hask, if_neg (by simp [hidx, hsub])]
  cases hinfos : getDevInfos s env req.devHdls with
  | error rc =>
    refine ⟨h.destroyLinkInfo, rfl, ?_⟩
    simp
  | ok infos =>
    obtain ⟨hlinked, hnone⟩ := connectDevices_eq env infos
      { inQ := setupInQ, subscribeEvent := subscribeEvent infos } t.linked (by simp)
    have htold : Started s { t with linked := (connectDevices env infos
        { inQ := setupInQ, subscribeEvent := subscribeEvent infos } t.linked).2 } p i idx req env :=
      ⟨⟨h.isUsed, h.sessions, h.syncLink⟩, h.handles, h.linkHdl⟩
    dsimp only
    cases hc : (connectDevices env infos
        { inQ := setupInQ, subscribeEvent := subscribeEvent infos } t.linked).1 with
    | none =>
      refine ⟨htold.destroyLinkInfo, hlinked, ?_⟩
      have hfail := hnone.mp hc
      simpa [eNxio] using hfail
    | some l =>
      refine ⟨htold.setPool h.syncLink rfl, hlinked, ?_⟩
      have hfine : ¬ ∃ info ∈ infos, env.pdTbl info.pDelay = false := by
        rw [← hnone, hc]
        simp
      simpa using hfine

theorem reserveLink_taken (hnum : (s.sessions p).numLinks < maxLinks)
    (hi : freeLinkIndex s = some i) (hj : freeSessionIndex (s.sessions p) = some j) :
    ∃ t, reserveLink s p true = (t, some i) ∧ Taken s t p i ∧ t.handles = s.handles ∧
      t.linked = s.linked := by
  refine ⟨setSession (setPool (setPool
      { s with isUsed := update s.isUsed i true } i {}) i { parent := some p }) p
      { s.sessions p with
        links := update (s.sessions p).links j (some i)
        numLinks := (s.sessions p).numLinks + 1 }, ?_, ⟨rfl, ⟨j, hj, rfl⟩, ?_⟩, rfl, rfl⟩
  · unfold reserveLink
    rw [if_neg (not_le.mpr hnum), hi]
    dsimp only
    rw [if_neg (by simp), hj]
  · simp [setSession, setPool]

/-- The link with its handle. -/
def withLinkHdl (t : Core) (i idx : ℕ) (req : LinkRequest) (env : Env) : Core :=
  let c := setHandle t idx
    (some ⟨req.sessionHdl, getDevHandle env.rand .dev idx, .dev, .link i, false⟩)
  setPool c i { c.pool i with linkHdl := getDevHandle env.rand .dev idx }

theorem Taken.started (h : Taken s t p i) (hh : t.handles = s.handles) :
    Started s (withLinkHdl t i idx req env) p i idx req env := by
  refine ⟨⟨h.isUsed, h.sessions, ?_⟩, ?_, ?_⟩
  · simpa [withLinkHdl, setHandle, Sessions.setPool] using h.syncLink
  · change update t.handles idx _ = _
    rw [hh, withHandle]
  · simp [withLinkHdl, Sessions.setPool]

/-- Once the entry, the queue and the room in the session are there, a request fails exactly if one
of the steps that follow does; what is left then is a stale reference or a device that was told. -/
theorem link_reserved (hlen : req.devHdls.length ≤ req.version.maxHandles)
    (hp : getSession s req.sessionHdl = some p) (hnum : (s.sessions p).numLinks < maxLinks)
    (hi : freeLinkIndex s = some i) (hq : env.inQ = true)
    (hj : freeSessionIndex (s.sessions p) = some j) :
    ((link s req env).2 < 0 ↔ SetupFails s req env) ∧
      (SetupFails s req env → (SameOutside s (link s req env).1 ↔
        (∀ k < maxLinks, (s.sessions p).links k ≠ some i) ∧
          ∀ info ∈ told s req env, env.accepts info.devHdl = true → s.linked info.devHdl = true)) := by
  have hnosr : eNosr < 0 := by decide
  have hnomem : eNomem < 0 := by decide
  obtain ⟨t, hreserve, htaken, hth, htl⟩ := reserveLink_taken hnum hi hj
  have hfree : freeHandleIndex t = freeHandleIndex s := by
    unfold freeHandleIndex
    rw [hth]
  unfold link
  rw [if_neg (not_lt.mpr hlen), hp]
  dsimp only
  rw [hq, hreserve]
  dsimp only
  cases hidx : freeHandleIndex s with
  | none =>
    have hc : createHdl t env.rand .dev req.sessionHdl (.link i) false = (t, eNosr) := by
      unfold createHdl
      rw [hfree, hidx]
    have hfails : SetupFails s req env := .inl hidx
    have hset : Taken s (setPool t i { t.pool i with linkHdl := eNosr }) p i :=
      ⟨htaken.isUsed, htaken.sessions, by simpa [setPool] using htaken.syncLink⟩
    rw [hc]
    rw [if_pos hnosr]
    refine ⟨iff_of_true hnosr hfails, fun _ => ?_⟩
    rw [linkHdlFail, sameOutside_unreserveLink hset hi hth]
    simp [told, hidx, htl, setPool]
  | some idx =>
    have hc : createHdl t env.rand .dev req.sessionHdl (.link i) false =
        (setHandle t idx (some ⟨req.sessionHdl, getDevHandle env.rand .dev idx, .dev, .link i, false⟩),
          getDevHandle env.rand .dev idx) := by
      unfold createHdl
      rw [hfree, hidx]
      rfl
    have hpos : ¬ getDevHandle env.rand .dev idx < 0 := not_lt.mpr (getDevHandle_pos ..).le
    have hstart : Started s (withLinkHdl t i idx req env) p i idx req env := htaken.started hth
    have hul : (withLinkHdl t i idx req env).linked = s.linked := htl
    rw [hc]
    rw [if_neg hpos]
    obtain ⟨u, hu⟩ : ∃ u, withLinkHdl t i idx req env = u := ⟨_, rfl⟩
    rw [hu] at hstart hul
    unfold withLinkHdl at hu
    rw [hu]
    by_cases hsub : env.subdevs = true
    · obtain ⟨hset, hlinked, hrc⟩ := setupPoolLink_spec hstart hidx hsub hlen
      rw [hul] at hlinked
      have hundo : ∀ v, Started s v p i idx req env →
          v.linked = (setupPoolLink u i req env).1.linked →
          (SameOutside s (createSubdevFailed v p i) ↔
            (∀ k < maxLinks, (s.sessions p).links k ≠ some i) ∧
              ∀ info ∈ told s req env, env.accepts info.devHdl = true →
                s.linked info.devHdl = true) := by
        intro v hv hvl
        rw [hv.sameOutside hi hidx, hvl, hlinked, foldl_linkSetup_eq_iff]
      rw [if_neg (by simp [hsub])]
      by_cases hfail : (setupPoolLink u i req env).2 < 0
      · have hfails : SetupFails s req env := .inr (.inr ((or_assoc.mp (.inl (hrc.mp hfail)))))
        rw [if_pos hfail]
        exact ⟨iff_of_true hfail hfails, fun _ => hundo _ hset rfl⟩
      rw [if_neg hfail]
      have hready : Started s (setPool (setupPoolLink u i req env).1 i
          { (setupPoolLink u i req env).1.pool i with
            link := { ((setupPoolLink u i req env).1.pool i).link with state := .ready } })
          p i idx req env := hset.setPool hset.syncLink rfl
      by_cases hworkq : env.workq = true
      · rw [if_neg (by simp [hworkq])]
        by_cases hpayload : env.payload = true
        · rw [if_neg (by simp [hpayload])]
          have hfine : ¬ SetupFails s req env := by
            rintro (h | h | h | h | h | h)
            · simp [hidx] at h
            · simp [hsub] at h
            · exact hfail (hrc.mpr (.inl h))
            · exact hfail (hrc.mpr (.inr h))
            · simp [hworkq] at h
            · simp [hpayload] at h
          exact ⟨iff_of_false (by simp) hfine, fun h => absurd h hfine⟩
        · have hpayload : env.payload = false := Bool.eq_false_iff.mpr hpayload
          have hfails : SetupFails s req env := by simp [SetupFails, hpayload]
          rw [if_pos (by simp [hpayload])]
          refine ⟨iff_of_true hnomem hfails, fun _ => hundo _ (Started.setPool
            (Started.destroyLinkInfo (hready.setPool ?_ ?_)) ?_ rfl) rfl⟩
          · exact hready.syncLink
          · rfl
          · simpa [destroyLinkInfo, setPool] using hset.syncLink
      · have hworkq : env.workq = false := Bool.eq_false_iff.mpr hworkq
        have hfails : SetupFails s req env := by simp [SetupFails, hworkq]
        rw [if_pos (by simp [hworkq])]
        exact ⟨iff_of_true hnomem hfails, fun _ => hundo _ hready.destroyLinkInfo rfl⟩
    · have hsub : env.subdevs = false := Bool.eq_false_iff.mpr hsub
      have hfails : SetupFails s req env := .inr (.inl hsub)
      rw [if_pos (by simp [hsub])]
      refine ⟨iff_of_true hnomem hfails, fun _ => ?_⟩
      rw [hstart.sameOutside hi hidx]
      simp [told, hsub, hul]

/-- The links of the pool that are in use, the sessions, the handles and the devices that consider
themselves linked are as they were before a request that failed, exactly if it was undoable. -/
theorem link_atomic_iff (s : Core) (req : LinkRequest) (env : Env) :
    ((link s req env).2 < 0 → SameOutside s (link s req env).1) ↔ Undoable s req env := by
  have hsame : SameOutside s s := ⟨rfl, rfl, rfl, rfl⟩
  by_cases hlen : req.devHdls.length ≤ req.version.maxHandles
  swap
  · have hl : link s req env = (s, eInval) := by
      unfold link
      rw [if_pos (not_le.mp hlen)]
    rw [hl]
    exact iff_of_true (fun _ => hsame) fun p i h => absurd h hlen
  cases hp : getSession s req.sessionHdl with
  | none =>
    have hl : link s req env = (s, eInval) := by
      unfold link
      rw [if_neg (not_lt.mpr hlen), hp]
    rw [hl]
    exact iff_of_true (fun _ => hsame) fun p i _ h => by simp [hp] at h
  | some p =>
  have hrefused : ∀ t, reserveLink s p env.inQ = (t, none) → link s req env = (t, eInval) := by
    intro t ht
    unfold link
    rw [if_neg (not_lt.mpr hlen), hp]
    dsimp only
    rw [ht]
  by_cases hnum : (s.sessions p).numLinks < maxLinks
  swap
  · have hr : reserveLink s p env.inQ = (s, none) := by
      unfold reserveLink
      rw [if_pos (not_lt.mp hnum)]
    rw [hrefused s hr]
    refine iff_of_true (fun _ => hsame) fun q i _ hq h => ?_
    rw [hp, Option.some_inj] at hq
    exact absurd (hq ▸ h) hnum
  cases hi : freeLinkIndex s with
  | none =>
    have hr : reserveLink s p env.inQ = (s, none) := by
      unfold reserveLink
      rw [if_neg (not_le.mpr hnum), hi]
    rw [hrefused s hr]
    exact iff_of_true (fun _ => hsame) fun q i _ _ _ h => by simp [hi] at h
  | some i =>
  have hleak : ∀ t : Core, t.isUsed = update s.isUsed i true →
      reserveLink s p env.inQ = (t, none) →
      ¬ ((link s req env).2 < 0 → SameOutside s (link s req env).1) := by
    intro t ht hr hall
    rw [hrefused t hr] at hall
    have hused := congrFun (hall (show eInval < 0 by decide)).isUsed i
    rw [ht, update_self, freeLinkIndex_some hi] at hused
    exact Bool.noConfusion hused
  by_cases hq : env.inQ = true
  swap
  · have hq : env.inQ = false := Bool.eq_false_iff.mpr hq
    refine iff_of_false (hleak (setPool { s with isUsed := update s.isUsed i true } i {})
      rfl ?_) fun h => ?_
    · unfold reserveLink
      rw [if_neg (not_le.mpr hnum), hi]
      dsimp only
      rw [if_pos (by simp [hq])]
    · simp [(h p i hlen hp hnum hi).1] at hq
  cases hj : freeSessionIndex (s.sessions p) with
  | none =>
    refine iff_of_false (hleak (setPool (setPool
      { s with isUsed := update s.isUsed i true } i {}) i { parent := some p }) rfl ?_)
      fun h => (h p i hlen hp hnum hi).2.1 hj
    unfold reserveLink
    rw [if_neg (not_le.mpr hnum), hi]
    dsimp only
    rw [if_neg (by simp [hq]), hj]
  | some j =>
    obtain ⟨hfails, hsame⟩ := link_reserved hlen hp hnum hi hq hj
    rw [hfails]
    constructor
    · intro h q k _ hq' _ hk
      rw [hp, Option.some_inj] at hq'
      rw [hi, Option.some_inj] at hk
      subst hq' hk
      exact ⟨hq, by simp [hj], fun hf => (hsame hf).mp (h hf)⟩
    · intro h hf
      exact (hsame hf).mpr ((h p i hlen hp hnum hi).2.2 hf)

def Atomic (s : Core) : Input → Prop
  | .link req env => (link s req env).2 < 0 → SameOutside s (link s req env).1
  | _ => True

def StepUndoable (s : Core) : Input → Prop
  | .link req env => Undoable s req env
  | _ => True

theorem atomic_iff (s : Core) (i : Input) : Atomic s i ↔ StepUndoable s i := by
  cases i with
  | link req env => exact link_atomic_iff s req env
  | createSession => rfl
  | destroySession => rfl
  | acquireDev => rfl
  | releaseDev => rfl
  | unlink => rfl

/-- Every request for a link that fails in a run leaves nothing behind, exactly if every one of
them was undoable when it was made. -/
theorem runs_atomic_iff (is : List Input) :
    machine.Meets Atomic initial is ↔ machine.Meets StepUndoable initial is :=
  ⟨fun h => h.mono machine fun s i => (atomic_iff s i).mp,
    fun h => h.mono machine fun s i => (atomic_iff s i).mpr⟩

/-- A session with one device, and a request for its link that fails to start the worker, after
the device has been told. -/
def noWorker : List Input :=
  [.createSession 0 1, .acquireDev 2 (getDevHandle 1 .session 0) true,
    .link ⟨.v1, getDevHandle 1 .session 0, [getDevHandle 2 .dev 1]⟩ { workq := false }]

/-- The device still considers itself linked. -/
theorem device_left_linked : ¬ ∀ is : List Input, machine.Meets Atomic initial is := by
  intro hall
  obtain ⟨-, -, hlink, -⟩ := hall noWorker
  have hlinked := congrFun (hlink (by decide +kernel)).linked (getDevHandle 2 .dev 1)
  revert hlinked
  decide +kernel

end KernelModules.Crm.Sessions
