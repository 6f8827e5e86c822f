import KernelModules.CfgStoreCalls

/-!
# Runs of the configuration store

A store is lost when a lookup comes upon it after its last user has gone, and has wrong values when
a lookup comes upon it before it is filled. In every run in which no lookup does either, and in which
the calls on one psoc come one after another, each store lives just as long as it is used.
-/

namespace KernelModules.Cfg

open Function

variable {Path Key Str Field Val : Type*}

open Ledger (total)

section Parse

variable [DecidableEq Field] (env : Env Path Key Str Field Val)

theorem foldl_itemHandler (items : List (Key × Str)) (field : Field) :
    (∀ values, items.foldl env.itemHandler values field = values field) ∨
      ∃ value, ∀ values, items.foldl env.itemHandler values field = value := by
  induction items with
  | nil => exact Or.inl fun _ => rfl
  | cons item items ih =>
    rcases ih with hkeeps | ⟨value, hsets⟩
    · cases hlookup : env.lookupMeta item.1 with
      | none =>
        refine Or.inl fun values => ?_
        rw [List.foldl_cons, hkeeps, Env.itemHandler, hlookup]
      | some entry =>
        cases hitem : entry.itemHandler item.2 with
        | none =>
          refine Or.inl fun values => ?_
          rw [List.foldl_cons, hkeeps, Env.itemHandler, hlookup]
          simp only [hitem]
        | some value =>
          by_cases hfield : field = entry.field
          · refine Or.inr ⟨value, fun values => ?_⟩
            rw [List.foldl_cons, hkeeps, Env.itemHandler, hlookup]
            simp only [hitem, hfield, update_self]
          · refine Or.inl fun values => ?_
            rw [List.foldl_cons, hkeeps, Env.itemHandler, hlookup]
            simp only [hitem, update_of_ne hfield]
    · exact Or.inr ⟨value, fun values => hsets _⟩

theorem parse_parse (path : Path) (values : Field → Val) :
    env.parse path (env.parse path values) = env.parse path values := by
  funext field
  rcases foldl_itemHandler env (env.ini path) field with hkeeps | ⟨value, hsets⟩
  · exact hkeeps _
  · exact (hsets _).trans (hsets values).symm

end Parse

namespace State

variable {s s' : State Path Field Val} {x i p : ℕ} {call call' : Call Path} {path : Path}
  {store : Store Path Field Val} {ret : Return Path}

def flag (s : State Path Field Val) (x : ℕ) : ℕ :=
  match s.stores x with
  | some store => store.freed.toNat
  | none => 0

def EventOk (s : State Path Field Val) : Event Path → Prop
  | .freed _ => True
  | .parseFailed _ _ ctx => ctx = some (.attached globalStore)
  | .parsed _ path ctx => s.OnPath path ctx

variable [DecidableEq Path] [DecidableEq Field] {env : Env Path Key Str Field Val}

/-- What a step leaves: the books, the order of the calls, and every event true. -/
structure Keeps (env : Env Path Key Str Field Val) (s : State Path Field Val)
    (r : State Path Field Val × List (Event Path)) : Prop where
  books : r.1.Books env
  protocol : r.1.Protocol
  kept : s.Kept r.1
  values : r.1.globalValues env = s.globalValues env
  freed : ∀ x, s.flag x + r.2.count (.freed x) = r.1.flag x
  events : ∀ e ∈ r.2, r.1.EventOk e

theorem Keeps.of_stores (hbooks : s'.Books env) (hprotocol : s'.Protocol)
    (hstores : s'.stores = s.stores) (hpsocs : s.psocs.length ≤ s'.psocs.length) :
    s.Keeps env (s', []) where
  books := hbooks
  protocol := hprotocol
  kept := .of_eq hstores hpsocs
  values := by simp only [globalValues, hstores]
  freed x := by simp [flag, hstores]
  events e he := by cases he

theorem Keeps.self (hbooks : s.Books env) (hprotocol : s.Protocol) : s.Keeps env (s, []) :=
  .of_stores hbooks hprotocol rfl le_rfl

theorem Keeps.of_update {old : Store Path Field Val} (hbooks : s'.Books env)
    (hprotocol : s'.Protocol) (hx : s.stores x = some old)
    (hstores : s'.stores = update s.stores x (some store))
    (hpsocs : s.psocs.length ≤ s'.psocs.length) (hpath : store.path = old.path)
    (hfreed : store.freed = old.freed) (hvalues : x = globalStore → store.values = old.values) :
    s.Keeps env (s', []) where
  books := hbooks
  protocol := hprotocol
  kept :=
    { stores := by
        rw [hstores]
        exact (Kept.putStore store hx hpath).stores
      psocs := hpsocs }
  values := by
    unfold globalValues
    rw [hstores, update_apply]
    split_ifs with hglobal
    · rw [hglobal, hx]
      exact hvalues hglobal.symm
    · rfl
  freed y := by
    unfold flag
    rw [hstores, update_apply]
    split_ifs with hyx
    · rw [hyx, hx]
      simp [hfreed]
    · simp
  events e he := by cases he

omit [DecidableEq Field] in
theorem events_ret (hret : s.ReturnOk ret) :
    (∀ e ∈ (s.ret i ret).2, s.EventOk e) ∧ ∀ x, (s.ret i ret).2.count (.freed x) = 0 := by
  cases ret with
  | created p => simp [State.ret]
  | destroyed p => simp [State.ret]
  | parseFailed p path => simpa [State.ret, EventOk, ReturnOk] using hret
  | parsed p path => simpa [State.ret, EventOk, ReturnOk] using hret

theorem Keeps.returns_append {events : List (Event Path)}
    (h : s.Keeps env (s'.setCall i .returned, events)) (hret : s'.ReturnOk ret) :
    s.Keeps env ((s'.ret i ret).1, events ++ (s'.ret i ret).2) := by
  obtain ⟨hevents, hcount⟩ := events_ret (i := i) hret
  have hstate := ret_fst (s := s') (i := i) ret
  refine ⟨hstate ▸ h.books, hstate ▸ h.protocol, hstate ▸ h.kept, hstate ▸ h.values, fun x => ?_,
    fun e he => ?_⟩
  · rw [List.count_append, hcount, hstate]
    exact h.freed x
  · rw [hstate]
    rcases List.mem_append.mp he with hold | hnew
    · exact h.events e hold
    · have hevent := hevents e hnew
      cases e <;> exact hevent

theorem Keeps.returns (h : s.Keeps env (s'.setCall i .returned, [])) (hret : s'.ReturnOk ret) :
    s.Keeps env (s'.ret i ret) := by
  have hreturns := h.returns_append hret
  exact hreturns

theorem keeps_setPriv (hbooks : s.Books env) (h : s.Protocol)
    (hcall : s.calls[i]? = some (.setPriv p)) (ok : Bool) :
    s.Keeps env (s.goOn env i ok (.setPriv p)) := by
  have hpsoc : s.psocs[p]? = some .detached := h.ok i _ hcall
  simp only [State.goOn]
  split_ifs
  · refine .of_stores (hbooks.setPriv hcall hpsoc) (h.goOn hcall ?_ rfl (fun q hq => ?_)
      (fun q hq => by cases hq) trivial) rfl (List.length_set ..).ge
    · exact .of_eq rfl (List.length_set ..).ge
    · exact List.getElem?_set_ne fun heq : p = q => hq (heq ▸ rfl)
  · refine .of_stores (hbooks.goOn hcall (fun _ => rfl) (fun _ => rfl) fun _ => rfl)
      (h.goOn hcall (.of_eq rfl le_rfl) rfl (fun _ _ => rfl) (fun q hq => hq) ⟨?_, ?_⟩) rfl le_rfl
    · exact Option.isSome_iff_exists.mp hbooks.global
    · exact (List.getElem?_eq_some_iff.mp hpsoc).1

def settled (s : State Path Field Val) (x : ℕ) : Bool :=
  (s.stores x).any (fun store => store.users ≠ 0) && s.calls.all fun call => call.fills x = 0

omit [DecidableEq Path] in
theorem Books.of_settled (hbooks : s.Books env) (hx : s.stores x = some store)
    (hlist : x ∈ s.storesList) (hsettled : s.settled x = true) :
    s.holders x ≠ 0 ∧ s.filling x = 0 := by
  have hold := hbooks.stores x store hx
  rw [settled, hx, Bool.and_eq_true, List.all_eq_true] at hsettled
  have husers := hold.users (hold.listed.mp hlist)
  refine ⟨fun hzero => ?_, Ledger.total_eq_zero fun call hcall => ?_⟩
  · rw [hzero] at husers
    have hne : store.users ≠ 0 := by simpa using hsettled.1
    exact hne husers
  · simpa using hsettled.2 call hcall

theorem keeps_storeGet (hbooks : s.Books env) (h : s.Protocol)
    (hcall : s.calls[i]? = some (.storeGet p path))
    (hsettled : (s.storesList.find? (s.hasPath path)).all s.settled = true) :
    s.Keeps env (s.storeGet i p path, []) := by
  have hpsoc : s.psocs[p]? = some (.attached globalStore) := h.ok i _ hcall
  unfold State.storeGet
  split
  next =>
    exact .of_stores (hbooks.goOn hcall (fun _ => rfl) (fun _ => rfl) fun _ => rfl)
      (h.goOn hcall (.of_eq rfl le_rfl) rfl (fun _ _ => rfl) (fun q hq => hq) hpsoc) rfl le_rfl
  next x hfind =>
    have hlist : x ∈ s.storesList := List.mem_of_find?_eq_some hfind
    have hpath := List.find?_some hfind
    rw [hfind, Option.all_some] at hsettled
    split
    next => exact .self hbooks h
    next store hx =>
      obtain ⟨hused, hfull⟩ := hbooks.of_settled hx hlist hsettled
      have hpath : store.path = path := by simpa [hasPath, hx] using hpath
      refine .of_update (hbooks.storeGet hcall hx hused hfull) (h.goOn hcall ?_ rfl
        (fun _ _ => rfl) (fun q hq => hq) ⟨hpsoc, _, update_self .., hpath⟩) hx rfl le_rfl
        rfl rfl fun _ => rfl
      exact ⟨(Kept.putStore { store with users := store.users + 1 } hx rfl).stores, le_rfl⟩

theorem keeps_storeAlloc (hbooks : s.Books env) (h : s.Protocol)
    (hcall : s.calls[i]? = some (.storeAlloc p path)) (ok : Bool) :
    s.Keeps env (s.goOn env i ok (.storeAlloc p path)) := by
  have hpsoc : s.psocs[p]? = some (.attached globalStore) := h.ok i _ hcall
  simp only [State.goOn]
  split_ifs
  · have hnone := hbooks.fresh s.next le_rfl
    have hglobal : globalStore ≠ s.next := by
      intro heq
      have hsome := hbooks.global
      rw [heq, hnone] at hsome
      cases hsome
    have hkept : s.Kept (s.storeAlloc env i p path) := by
      refine ⟨fun y store hy => ⟨store, ?_, rfl⟩, le_rfl⟩
      have hne : y ≠ s.next := fun heq => by
        rw [heq, hnone] at hy
        cases hy
      exact (update_of_ne hne ..).trans hy
    refine ⟨hbooks.storeAlloc hcall, h.goOn hcall hkept rfl (fun _ _ => rfl) (fun q hq => hq)
      ⟨hpsoc, hglobal.symm, _, update_self .., rfl⟩, hkept, ?_, fun y => ?_,
      fun e he => by cases he⟩
    · simp [globalValues, State.storeAlloc, setCall, putStore, update_of_ne hglobal]
    · by_cases hy : y = s.next
      · simp [flag, State.storeAlloc, setCall, putStore, hy, hnone]
      · simp [flag, State.storeAlloc, setCall, putStore, update_of_ne hy]
  · refine Keeps.returns ?_ hpsoc
    exact .of_stores (hbooks.goOn hcall (fun _ => rfl) (fun _ => rfl) fun _ => rfl)
      (h.goOn hcall (.of_eq rfl le_rfl) rfl (fun _ _ => rfl) (fun q hq => by cases hq) trivial)
      rfl le_rfl

theorem keeps_parseToStore (hbooks : s.Books env) (h : s.Protocol)
    (hcall : s.calls[i]? = some (.parseToStore p path x)) (ok : Bool) :
    s.Keeps env (s.parseToStore env i p path x ok, []) := by
  obtain ⟨hpsoc, hne, store, hx, hpath⟩ := h.ok i _ hcall
  have hnew := hbooks.parseToStore hcall hx hne hpath ok
  revert hnew
  simp only [State.parseToStore, hx]
  split_ifs
  · intro hnew
    have hkept := Kept.putStore { store with values := env.parse path (s.globalValues env) } hx rfl
    refine .of_update hnew (h.goOn hcall ⟨hkept.stores, le_rfl⟩ rfl
      (fun _ _ => rfl) (fun q hq => hq) ⟨hpsoc, _, update_self .., hpath⟩) hx rfl le_rfl rfl
      rfl fun heq => absurd heq hne
  · intro hnew
    have hkept := Kept.putStore { store with values := s.globalValues env } hx rfl
    refine .of_update hnew (h.goOn hcall ⟨hkept.stores, le_rfl⟩ rfl
      (fun _ _ => rfl) (fun q hq => hq) ⟨⟨_, update_self ..⟩, hpsoc⟩) hx rfl le_rfl rfl
      rfl fun heq => absurd heq hne

theorem keeps_setStore (hbooks : s.Books env) (h : s.Protocol)
    (hcall : s.calls[i]? = some (.setStore p path x)) :
    s.Keeps env (s.setStore i p path x, []) := by
  obtain ⟨hpsoc, store, hx, hpath⟩ := h.ok i _ hcall
  have hnew := hbooks.setStore hcall hpsoc
  have hlt : p < s.psocs.length := (List.getElem?_eq_some_iff.mp hpsoc).1
  simp only [State.setStore, hpsoc] at hnew ⊢
  refine .of_stores hnew (h.goOn hcall (.of_eq rfl (List.length_set ..).ge) rfl (fun q hq => ?_)
    (fun q hq => hq) ⟨Option.isSome_iff_exists.mp hbooks.global, ?_⟩) rfl (List.length_set ..).ge
  · exact List.getElem?_set_ne fun heq : p = q => hq (heq ▸ rfl)
  · exact ⟨x, store, List.getElem?_set_self hlt, hx, hpath⟩

theorem keeps_storePut (hbooks : s.Books env) (h : s.Protocol)
    (hcall : s.calls[i]? = some (.storePut x ret)) : s.Keeps env (s.storePut i x ret) := by
  obtain ⟨⟨store, hx⟩, hret⟩ := h.ok i _ hcall
  have hnew := hbooks.storePut hcall hx
  have hkept : s.Kept (s.putStore x { store with users := store.users - 1 }) :=
    Kept.putStore _ hx rfl
  have hret' : (s.putStore x { store with users := store.users - 1 }).ReturnOk ret :=
    hret.of_kept hkept rfl
  revert hnew
  simp only [State.storePut, hx]
  split_ifs
  · intro hnew
    exact .of_update hnew (h.goOn hcall ⟨hkept.stores, le_rfl⟩ rfl (fun _ _ => rfl)
      (fun q hq => hq) ⟨⟨_, update_self ..⟩, hret'⟩) hx rfl le_rfl rfl rfl fun _ => rfl
  · intro hnew
    rw [ret_fst] at hnew
    refine Keeps.returns ?_ hret'
    exact .of_update hnew (h.goOn hcall ⟨hkept.stores, le_rfl⟩ rfl (fun _ _ => rfl)
      (fun q hq => by cases hq) trivial) hx rfl le_rfl rfl rfl fun _ => rfl

theorem keeps_storeFree (hbooks : s.Books env) (h : s.Protocol)
    (hcall : s.calls[i]? = some (.storeFree x ret)) : s.Keeps env (s.storeFree i x ret) := by
  obtain ⟨⟨store, hx⟩, hret⟩ := h.ok i _ hcall
  obtain ⟨-, -, hfreed⟩ := (hbooks.stores x store hx).of_frees hcall
  have hnew := hbooks.storeFree hcall hx
  have hkept : s.Kept (s.putStore x { store with freed := true }) := Kept.putStore _ hx rfl
  have hret' : (s.putStore x { store with freed := true }).ReturnOk ret := hret.of_kept hkept rfl
  simp only [State.storeFree, hx, ret_fst] at hnew
  simp only [State.storeFree, hx]
  have hfree : s.Keeps env (State.setCall { s.putStore x { store with freed := true } with
      storesList := s.storesList.erase x } i .returned, [.freed x]) := by
    refine ⟨hnew, h.goOn hcall ⟨hkept.stores, le_rfl⟩ rfl (fun _ _ => rfl)
      (fun q hq => by cases hq) trivial, ⟨hkept.stores, le_rfl⟩, ?_, fun y => ?_, fun e he => ?_⟩
    · by_cases hglobal : globalStore = x
      · subst hglobal
        simp [globalValues, setCall, putStore, hx]
      · simp [globalValues, setCall, putStore, update_of_ne hglobal]
    · by_cases hy : y = x
      · simp [flag, setCall, putStore, hy, hx, hfreed]
      · simp [flag, setCall, putStore, update_of_ne hy, Ne.symm hy]
    · rw [List.mem_singleton.mp he]
      trivial
  refine hfree.returns_append ?_
  cases ret <;> exact hret'

theorem keeps_psocCreate (hbooks : s.Books env) (h : s.Protocol) :
    s.Keeps env (s.psocCreate, []) := by
  have hnew := hbooks.psocCreate
  revert hnew
  unfold State.psocCreate
  split
  next => exact fun _ => .self hbooks h
  next store hx =>
    intro hnew
    have hkept := Kept.putStore { store with users := store.users + 1 } hx rfl
    have hlength : s.psocs.length ≤ (s.psocs ++ [Psoc.detached]).length := by simp
    refine .of_update hnew (h.begin (p := s.psocs.length) ⟨hkept.stores, hlength⟩ rfl ?_ rfl ?_ ?_)
      hx rfl hlength rfl rfl fun _ => rfl
    · intro call hcall hpsoc
      obtain ⟨j, hj⟩ := List.mem_iff_getElem?.mp hcall
      exact Nat.lt_irrefl _ ((h.ok j call hj).known hpsoc)
    · exact fun q hq _ => List.getElem?_append_left hq
    · simp [CallOk]

omit [DecidableEq Path] in
/-- A store that a psoc is on has been made. -/
theorem Books.attached (hbooks : s.Books env) (hpsoc : s.psocs[p]? = some (.attached x)) :
    s.holders x ≠ 0 ∧ ∃ store, s.stores x = some store := by
  have hused : s.holders x ≠ 0 := by
    have hle := Ledger.le_total (f := Psoc.uses x) (List.mem_of_getElem? hpsoc)
    rw [Psoc.uses, if_pos rfl] at hle
    rw [holders]
    omega
  refine ⟨hused, Option.ne_none_iff_exists'.mp fun hnone => hused (hbooks.unused x hnone).1⟩

theorem keeps_psocDestroy (hbooks : s.Books env) (h : s.Protocol)
    (hfree : ∀ call ∈ s.calls, call.psoc ≠ some p) : s.Keeps env (s.psocDestroy p, []) := by
  have hnew : (s.psocDestroy p).Books env := hbooks.psocDestroy
  revert hnew
  unfold State.psocDestroy
  split
  next x hpsoc =>
    intro hnew
    have hlt : p < s.psocs.length := (List.getElem?_eq_some_iff.mp hpsoc).1
    refine .of_stores hnew (h.begin (p := p) (.of_eq rfl (List.length_set ..).ge) rfl hfree rfl
      (fun q _ hq => List.getElem?_set_ne hq.symm) ⟨(hbooks.attached hpsoc).2, ?_⟩) rfl
      (List.length_set ..).ge
    exact hlt.trans_le (List.length_set ..).ge
  next => exact fun _ => .self hbooks h

theorem keeps_psocParse (hbooks : s.Books env) (h : s.Protocol)
    (hfree : ∀ call ∈ s.calls, call.psoc ≠ some p) : s.Keeps env (s.psocParse p path, []) := by
  have hnew : (s.psocParse p path).Books env := hbooks.psocParse
  revert hnew
  unfold State.psocParse
  split
  next x hpsoc =>
    split_ifs with hx
    · subst hx
      exact fun hnew => .of_stores hnew (h.begin (p := p) (.of_eq rfl le_rfl) rfl hfree rfl
        (fun _ _ _ => rfl) hpsoc) rfl le_rfl
    · exact fun _ => .self hbooks h
  next => exact fun _ => .self hbooks h

/-- No call begins on a psoc that another call is on, and no lookup comes upon a store whose last
user has gone or which is not filled. -/
def orderly (s : State Path Field Val) : Input Path → Bool
  | .psocCreate _ => true
  | .psocDestroy p | .psocParse p _ => s.calls.all fun call => call.psoc ≠ some p
  | .goOn i _ =>
    match s.calls[i]? with
    | some (.storeGet _ path) => (s.storesList.find? (s.hasPath path)).all s.settled
    | _ => true

theorem keeps_step (hbooks : s.Books env) (h : s.Protocol) (input : Input Path)
    (horderly : s.orderly input = true) : s.Keeps env (step env s input) := by
  cases input with
  | psocCreate nomem =>
    simp only [step]
    split_ifs
    · exact .self hbooks h
    · exact keeps_psocCreate hbooks h
  | psocDestroy p =>
    have hfree : ∀ call ∈ s.calls, call.psoc ≠ some p := by simpa [orderly] using horderly
    exact keeps_psocDestroy hbooks h hfree
  | psocParse p path =>
    have hfree : ∀ call ∈ s.calls, call.psoc ≠ some p := by simpa [orderly] using horderly
    exact keeps_psocParse hbooks h hfree
  | goOn i ok =>
    simp only [step]
    split
    next call hcall =>
      simp only [orderly, hcall] at horderly
      cases call with
      | returned => exact .self hbooks h
      | setPriv p => exact keeps_setPriv hbooks h hcall ok
      | storeGet p path => exact keeps_storeGet hbooks h hcall horderly
      | storeAlloc p path => exact keeps_storeAlloc hbooks h hcall ok
      | parseToStore p path x => exact keeps_parseToStore hbooks h hcall ok
      | setStore p path x => exact keeps_setStore hbooks h hcall
      | storePut x ret => exact keeps_storePut hbooks h hcall
      | storeFree x ret => exact keeps_storeFree hbooks h hcall
    next => exact .self hbooks h

omit [DecidableEq Path] in
theorem Books.parsed (path : Path) : (parsed env path).Books env := by
  have hholders (x : ℕ) : (Cfg.parsed env path).holders x = if globalStore = x then 1 else 0 := rfl
  have hvalues : (Cfg.parsed env path).globalValues env = env.parse path env.defaults := rfl
  refine ⟨fun x store hx => ?_, fun x hx => ?_, fun x hx => ?_, List.nodup_singleton _, rfl⟩
  · have hglobal : x = globalStore := by
      by_contra hne
      simp [Cfg.parsed, update_of_ne hne] at hx
    subst hglobal
    simp only [Cfg.parsed, update_self, Option.some.injEq] at hx
    subst hx
    exact
      { users := fun _ => rfl
        freed := rfl
        listed := by simp [Cfg.parsed]
        alone := fun hne => absurd rfl hne
        filled := fun _ _ => by rw [hvalues, parse_parse] }
  · have hne : x ≠ globalStore := fun heq => by simp [Cfg.parsed, heq] at hx
    refine ⟨(hholders x).trans (if_neg hne.symm), rfl, ?_⟩
    simpa [Cfg.parsed] using hne
  · simp [Cfg.parsed, update_of_ne (Nat.ne_of_gt hx)]

omit [DecidableEq Path] in
theorem Protocol.parsed (path : Path) : (Cfg.parsed env path).Protocol := by
  constructor
  · intro i call hcall
    simp [Cfg.parsed] at hcall
  · intro i j call call' p hcall
    simp [Cfg.parsed] at hcall

omit [DecidableEq Path] [DecidableEq Field] in
theorem EventOk.of_kept (h : s.Kept s') {e : Event Path} (he : s.EventOk e) : s'.EventOk e := by
  cases e with
  | freed x => trivial
  | parseFailed p path ctx => exact he
  | parsed p path ctx => exact OnPath.of_kept h he

structure Sound (env : Env Path Key Str Field Val) (globalPath : Path) (s : State Path Field Val)
    (events : List (Event Path)) : Prop where
  users : ∀ x store, s.stores x = some store → store.freed = false → store.users = s.holders x
  /-- What is used, and what a lookup may find, is not freed. -/
  live : ∀ x store, s.stores x = some store → s.holders x ≠ 0 ∨ x ∈ s.storesList →
    store.freed = false
  /-- A store is freed once, and it is freed or about to be freed just when it has no holder. -/
  once : ∀ x store, s.stores x = some store → events.count (.freed x) = store.freed.toNat ∧
    s.freeing x + store.freed.toNat = if s.holders x = 0 then 1 else 0
  failed : ∀ p path ctx, .parseFailed p path ctx ∈ events → ctx = some (.attached globalStore)
  global : s.globalValues env = env.parse globalPath env.defaults
  /-- A psoc that has been parsed is on a store with the global values, overridden by the file. -/
  parsed : ∀ p path ctx, .parsed p path ctx ∈ events → ∃ x store, ctx = some (.attached x) ∧
    s.stores x = some store ∧ ∀ q : ℕ, s.psocs[q]? = some (.attached x) →
      store.values = env.parse path (s.globalValues env)

omit [DecidableEq Path] in
/-- A store that a psoc is on is filled. -/
theorem Books.values_of_attached (hbooks : s.Books env) (hx : s.stores x = some store)
    (hpsoc : s.psocs[p]? = some (.attached x)) :
    store.values = env.parse store.path (s.globalValues env) := by
  have hold := hbooks.stores x store hx
  refine hold.filled ?_ (hbooks.attached hpsoc).1
  by_contra hfilling
  have hone := hold.alone hfilling
  have hle : s.filling x ≤ total (Call.uses x) s.calls :=
    List.sum_le_sum fun c _ => c.fills_le x
  have hpos := Ledger.le_total (f := Psoc.uses x) (List.mem_of_getElem? hpsoc)
  rw [Psoc.uses, if_pos rfl] at hpos
  rw [holders] at hone
  omega

theorem run_sound {globalPath : Path} {inputs : List (Input Path)}
    (horderly : (machine env).Meets (fun s input => s.orderly input = true)
      (Cfg.parsed env globalPath) inputs) :
    Sound env globalPath ((machine env).run (Cfg.parsed env globalPath) inputs).1
      ((machine env).run (Cfg.parsed env globalPath) inputs).2 := by
  have hflag (x : ℕ) : ([] : List (Event Path)).count (.freed x) =
      (Cfg.parsed env globalPath).flag x := by
    by_cases hx : x = globalStore
    · simp [flag, Cfg.parsed, hx]
    · simp [flag, Cfg.parsed, update_of_ne hx]
  obtain ⟨hbooks, -, hglobal, hfreed, hevents⟩ := (machine env).history_of_meets
    (I := fun (_ : List (Input Path)) events (s : State Path Field Val) => s.Books env ∧
      s.Protocol ∧ s.globalValues env = env.parse globalPath env.defaults ∧
      (∀ x, events.count (.freed x) = s.flag x) ∧ ∀ e ∈ events, s.EventOk e)
    (fun _ events s input h hinput => by
      have hkeeps := keeps_step h.1 h.2.1 input hinput
      refine ⟨hkeeps.books, hkeeps.protocol, hkeeps.values.trans h.2.2.1, fun x => ?_,
        fun e he => ?_⟩
      · rw [List.count_append, h.2.2.2.1 x]
        exact hkeeps.freed x
      · rcases List.mem_append.mp he with hold | hnew
        · exact EventOk.of_kept hkeeps.kept (h.2.2.2.2 e hold)
        · exact hkeeps.events e hnew)
    ⟨Books.parsed globalPath, Protocol.parsed globalPath, rfl, hflag, fun e he => by cases he⟩ horderly
  refine ⟨fun x store hx => (hbooks.stores x store hx).users, fun x store hx hlive => ?_,
    fun x store hx => ⟨?_, (hbooks.stores x store hx).freed⟩, fun p path ctx he => hevents _ he,
    hglobal, fun p path ctx he => ?_⟩
  · rcases hlive with hused | hlist
    · exact ((hbooks.stores x store hx).freed_eq hused).1
    · exact (hbooks.stores x store hx).listed.mp hlist
  · rw [hfreed, flag, hx]
  · obtain ⟨x, store, hctx, hx, hpath⟩ := hevents _ he
    exact ⟨x, store, hctx, hx, fun q hq => hpath ▸ hbooks.values_of_attached hx hq⟩

end State

def plain : Env Bool Unit Unit Unit Bool :=
  ⟨fun _ => none, fun _ => [], fun _ => true, fun _ => false⟩

def twoPsocs : List (Input Bool) :=
  [.psocCreate false, .goOn 0 true, .psocCreate false, .goOn 1 true, .psocParse 0 true,
    .goOn 2 true, .goOn 2 true, .goOn 2 true, .goOn 2 true, .goOn 2 true]

theorem run_sound_twoPsocs :
    State.Sound plain false ((machine plain).run (parsed plain false) twoPsocs).1
      ((machine plain).run (parsed plain false) twoPsocs).2 :=
  State.run_sound (by decide +kernel)

/-- The first psoc goes, and the second is parsed with the same path between the last put and the
free: it ends up on the freed store. -/
theorem not_sound_late : ¬ ∀ inputs : List (Input Bool),
    State.Sound plain false ((machine plain).run (parsed plain false) inputs).1
      ((machine plain).run (parsed plain false) inputs).2 := by
  intro hsound
  let inputs := twoPsocs ++
    [.psocDestroy 0, .psocParse 1 true, .goOn 3 true, .goOn 4 true, .goOn 3 true, .goOn 4 true]
  have hfreed : (((machine plain).run (parsed plain false) inputs).1.stores 1).map Store.freed =
      some true := by decide +kernel
  have hused : ((machine plain).run (parsed plain false) inputs).1.holders 1 ≠ 0 := by
    decide +kernel
  obtain ⟨store, hx, hfreed⟩ := Option.map_eq_some_iff.mp hfreed
  have hlive := (hsound inputs).live 1 store hx (Or.inl hused)
  rw [hfreed] at hlive
  cases hlive

end KernelModules.Cfg
