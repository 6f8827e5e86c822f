import KernelModules.CfgStore
import Mathlib.Data.List.Nodup

/-!
# The users of a store

A store is used by the global pointer, by the psocs that are on it and by the calls that hold a
reference. Each step of a call moves a reference, or takes or gives back one along with the count.
-/

namespace KernelModules.Cfg

open Function

open Ledger (total)

variable {Path Key Str Field Val : Type*}

def Psoc.uses (x : ℕ) : Psoc → ℕ
  | .attached y => if y = x then 1 else 0
  | .detached => 0

def Call.uses (x : ℕ) : Call Path → ℕ
  | .setPriv _ => if globalStore = x then 1 else 0
  | .parseToStore _ _ y | .setStore _ _ y | .storePut y _ => if y = x then 1 else 0
  | _ => 0

def Call.frees (x : ℕ) : Call Path → ℕ
  | .storeFree y _ => if y = x then 1 else 0
  | _ => 0

def Call.fills (x : ℕ) : Call Path → ℕ
  | .parseToStore _ _ y | .storePut y (.parseFailed ..) => if y = x then 1 else 0
  | _ => 0

def Return.psoc : Return Path → ℕ
  | .created p | .destroyed p | .parseFailed p _ | .parsed p _ => p

def Call.psoc : Call Path → Option ℕ
  | .returned => none
  | .setPriv p | .storeGet p _ | .storeAlloc p _ | .parseToStore p _ _ | .setStore p _ _ => some p
  | .storePut _ ret | .storeFree _ ret => some ret.psoc

theorem Call.fills_le (x : ℕ) (call : Call Path) : call.fills x ≤ call.uses x := by
  cases call with
  | storePut y ret => cases ret <;> simp [fills, uses]
  | _ => simp [fills, uses]

namespace State

variable (s : State Path Field Val) {s' : State Path Field Val} {x i : ℕ} {call call' : Call Path}

def holders (x : ℕ) : ℕ :=
  (if globalStore = x then 1 else 0) + total (Psoc.uses x) s.psocs + total (Call.uses x) s.calls

def freeing (x : ℕ) : ℕ := total (Call.frees x) s.calls

def filling (x : ℕ) : ℕ := total (Call.fills x) s.calls

variable {s}

theorem holders_setCall (hcall : s.calls[i]? = some call) (call' : Call Path) (x : ℕ) :
    (s.setCall i call').holders x + call.uses x = s.holders x + call'.uses x := by
  have := Ledger.total_set_add (f := Call.uses x) hcall call'
  simp only [holders, setCall]
  omega

theorem freeing_setCall (hcall : s.calls[i]? = some call) (call' : Call Path) (x : ℕ) :
    (s.setCall i call').freeing x + call.frees x = s.freeing x + call'.frees x :=
  Ledger.total_set_add hcall call'

theorem filling_setCall (hcall : s.calls[i]? = some call) (call' : Call Path) (x : ℕ) :
    (s.setCall i call').filling x + call.fills x = s.filling x + call'.fills x :=
  Ledger.total_set_add hcall call'

theorem numbers_putStore (hcall : s.calls[i]? = some call) (call' : Call Path) (y : ℕ)
    (store : Store Path Field Val) (x : ℕ) :
    ((s.putStore y store).setCall i call').holders x + call.uses x = s.holders x + call'.uses x ∧
      ((s.putStore y store).setCall i call').freeing x + call.frees x =
        s.freeing x + call'.frees x ∧
      ((s.putStore y store).setCall i call').filling x + call.fills x =
        s.filling x + call'.fills x :=
  have hcall' : (s.putStore y store).calls[i]? = some call := hcall
  ⟨holders_setCall hcall' call' x, freeing_setCall hcall' call' x, filling_setCall hcall' call' x⟩

theorem filling_le_holders : s.filling x ≤ s.holders x := by
  have hle : s.filling x ≤ total (Call.uses x) s.calls := List.sum_le_sum fun c _ => c.fills_le x
  rw [holders]
  omega

theorem filling_add_le (hcall : s.calls[i]? = some call) :
    s.filling x + call.uses x ≤ s.holders x + call.fills x := by
  have hle := Ledger.total_add_le (g := Call.fills x) hcall fun c => c.fills_le x
  simp only [filling, holders]
  omega

theorem holders_ne_zero (hcall : s.calls[i]? = some call) (huses : call.uses x ≠ 0) :
    s.holders x ≠ 0 := by
  have := Ledger.le_total (f := Call.uses x) (List.mem_of_getElem? hcall)
  rw [holders]
  omega

variable [DecidableEq Field] (env : Env Path Key Str Field Val)

structure StoreOk (s : State Path Field Val) (x : ℕ) (store : Store Path Field Val) : Prop where
  users : store.freed = false → store.users = s.holders x
  /-- It is freed, or about to be freed by one call, just when no one uses it. -/
  freed : s.freeing x + store.freed.toNat = if s.holders x = 0 then 1 else 0
  listed : x ∈ s.storesList ↔ store.freed = false
  alone : s.filling x ≠ 0 → s.holders x = 1
  filled : s.filling x = 0 → s.holders x ≠ 0 →
    store.values = env.parse store.path (s.globalValues env)

structure Books (s : State Path Field Val) : Prop where
  stores : ∀ x store, s.stores x = some store → s.StoreOk env x store
  unused : ∀ x, s.stores x = none → s.holders x = 0 ∧ s.freeing x = 0 ∧ x ∉ s.storesList
  fresh : ∀ x, s.next ≤ x → s.stores x = none
  nodup : s.storesList.Nodup
  global : (s.stores globalStore).isSome

variable {env}

theorem Books.transfer (h : s.Books env) (hstores : s'.stores = s.stores) (hnext : s'.next = s.next)
    (hlist : s'.storesList = s.storesList) (hholders : ∀ x, s'.holders x = s.holders x)
    (hfreeing : ∀ x, s'.freeing x = s.freeing x) (hfilling : ∀ x, s'.filling x = s.filling x) :
    s'.Books env where
  stores x store hx := by
    have hok := h.stores x store (hstores ▸ hx)
    have hvalues : s'.globalValues env = s.globalValues env := by simp only [globalValues, hstores]
    exact
      { users := by rw [hholders]; exact hok.users
        freed := by rw [hholders, hfreeing]; exact hok.freed
        listed := by rw [hlist]; exact hok.listed
        alone := by rw [hholders, hfilling]; exact hok.alone
        filled := by rw [hholders, hfilling, hvalues]; exact hok.filled }
  unused x hx := by
    rw [hholders, hfreeing, hlist]
    exact h.unused x (hstores ▸ hx)
  fresh x hx := by
    rw [hstores]
    exact h.fresh x (hnext ▸ hx)
  nodup := hlist ▸ h.nodup
  global := hstores ▸ h.global

theorem Books.update (h : s.Books env) {store : Store Path Field Val}
    (hstores : s'.stores = update s.stores x (some store))
    (hnext : ∀ y, s'.next ≤ y → s.next ≤ y ∧ y ≠ x)
    (hvalues : s'.globalValues env = s.globalValues env)
    (hother : ∀ y, y ≠ x → s'.holders y = s.holders y ∧ s'.freeing y = s.freeing y ∧
      s'.filling y = s.filling y ∧ (y ∈ s'.storesList ↔ y ∈ s.storesList))
    (hnodup : s'.storesList.Nodup) (hok : s'.StoreOk env x store) : s'.Books env where
  stores y store' hy := by
    by_cases hyx : y = x
    · rw [hstores, hyx, update_self] at hy
      cases hy
      exact hyx ▸ hok
    · obtain ⟨hholders, hfreeing, hfilling, hlist⟩ := hother y hyx
      rw [hstores, update_of_ne hyx] at hy
      have hold := h.stores y store' hy
      exact
        { users := by rw [hholders]; exact hold.users
          freed := by rw [hholders, hfreeing]; exact hold.freed
          listed := hlist.trans hold.listed
          alone := by rw [hholders, hfilling]; exact hold.alone
          filled := by rw [hholders, hfilling, hvalues]; exact hold.filled }
  unused y hy := by
    have hyx : y ≠ x := fun heq => by
      rw [hstores, heq, update_self] at hy
      cases hy
    obtain ⟨hholders, hfreeing, hfilling, hlist⟩ := hother y hyx
    rw [hstores, update_of_ne hyx] at hy
    rw [hholders, hfreeing, hlist]
    exact h.unused y hy
  fresh y hy := by
    obtain ⟨hle, hyx⟩ := hnext y hy
    rw [hstores, update_of_ne hyx]
    exact h.fresh y hle
  nodup := hnodup
  global := by
    rw [hstores, update_apply]
    split_ifs
    · rfl
    · exact h.global

theorem StoreOk.freed_eq {store : Store Path Field Val} (h : s.StoreOk env x store)
    (hne : s.holders x ≠ 0) : store.freed = false ∧ s.freeing x = 0 := by
  have hfreed := h.freed
  rw [if_neg hne] at hfreed
  refine ⟨?_, by omega⟩
  cases hflag : store.freed with
  | false => rfl
  | true => simp [hflag] at hfreed

/-- A call changes one store and goes on; the numbers are those of the store behind that. -/
theorem Books.change (h : s.Books env) (hcall : s.calls[i]? = some call) (call' : Call Path)
    {old store : Store Path Field Val} (hx : s.stores x = some old)
    (hvalues : x = globalStore → store.values = old.values)
    (hother : ∀ y, y ≠ x → call'.uses y = call.uses y ∧ call'.frees y = call.frees y ∧
      call'.fills y = call.fills y)
    (holders freeing filling : ℕ) (hholders : holders + call.uses x = s.holders x + call'.uses x)
    (hfreeing : freeing + call.frees x = s.freeing x + call'.frees x)
    (hfilling : filling + call.fills x = s.filling x + call'.fills x)
    (husers : store.freed = false → store.users = holders)
    (hfreed : freeing + store.freed.toNat = if holders = 0 then 1 else 0)
    (hflag : store.freed = old.freed) (halone : filling ≠ 0 → holders = 1)
    (hfilled : filling = 0 → holders ≠ 0 → store.values = env.parse store.path (s.globalValues env)) :
    ((s.putStore x store).setCall i call').Books env := by
  have hglobal : ((s.putStore x store).setCall i call').globalValues env = s.globalValues env := by
    by_cases hglobal : globalStore = x
    · subst hglobal
      simp [globalValues, setCall, putStore, hx, hvalues]
    · simp [globalValues, setCall, putStore, update_of_ne hglobal]
  refine h.update rfl (fun y hy => ⟨hy, fun heq => ?_⟩) hglobal (fun y hy => ?_) h.nodup ?_
  · have hnone := h.fresh y hy
    rw [heq, hx] at hnone
    cases hnone
  · obtain ⟨huses, hfrees, hfills⟩ := hother y hy
    obtain ⟨hholders, hfreeing, hfilling⟩ := numbers_putStore hcall call' x store y
    exact ⟨by omega, by omega, by omega, Iff.rfl⟩
  · obtain ⟨hholders', hfreeing', hfilling'⟩ := numbers_putStore hcall call' x store x
    have hholders : ((s.putStore x store).setCall i call').holders x = holders := by omega
    have hfreeing : ((s.putStore x store).setCall i call').freeing x = freeing := by omega
    have hfilling : ((s.putStore x store).setCall i call').filling x = filling := by omega
    exact
      { users := by rw [hholders]; exact husers
        freed := by rw [hholders, hfreeing]; exact hfreed
        listed := by rw [hflag]; exact (h.stores x old hx).listed
        alone := by rw [hholders, hfilling]; exact halone
        filled := by rw [hholders, hfilling, hglobal]; exact hfilled }

variable {psoc : ℕ} {path : Path} {store : Store Path Field Val}

theorem Books.storeGet (h : s.Books env) (hcall : s.calls[i]? = some (.storeGet psoc path))
    (hx : s.stores x = some store) (hused : s.holders x ≠ 0) (hfull : s.filling x = 0) :
    ((s.putStore x { store with users := store.users + 1 }).setCall i
      (.setStore psoc path x)).Books env := by
  have hold := h.stores x store hx
  obtain ⟨hfreed, hfree⟩ := hold.freed_eq hused
  refine h.change hcall (.setStore psoc path x) hx (fun _ => rfl) (fun y hy => ?_)
    (s.holders x + 1) 0 0 ?_ ?_ ?_ (fun _ => ?_) ?_ rfl
    (fun hne => absurd rfl hne) (fun _ _ => hold.filled hfull hused)
  · simp [Call.uses, Call.frees, Call.fills, hy.symm]
  · simp [Call.uses]
  · simp [Call.frees, hfree]
  · simp [Call.fills, hfull]
  · simp [hold.users hfreed]
  · simp [hfreed]

theorem StoreOk.of_fills (h : s.StoreOk env x store) (hcall : s.calls[i]? = some call)
    (hfills : call.fills x = 1) : s.filling x = 1 ∧ s.holders x = 1 := by
  have hpos : call.fills x ≤ s.filling x :=
    Ledger.le_total (f := Call.fills x) (List.mem_of_getElem? hcall)
  have hle : s.filling x ≤ s.holders x := filling_le_holders
  have halone := h.alone (by omega)
  omega

theorem Books.parseToStore (h : s.Books env)
    (hcall : s.calls[i]? = some (.parseToStore psoc path x)) (hx : s.stores x = some store)
    (hne : x ≠ globalStore) (hpath : store.path = path) (ok : Bool) :
    (s.parseToStore env i psoc path x ok).Books env := by
  have hold := h.stores x store hx
  obtain ⟨hfilling, hholders⟩ := hold.of_fills hcall (by simp [Call.fills])
  obtain ⟨hfreed, hfree⟩ := hold.freed_eq (by rw [hholders]; decide)
  have husers := hold.users hfreed
  rw [hholders] at husers
  simp only [State.parseToStore, hx]
  split_ifs
  · refine h.change hcall (.setStore psoc path x) hx (fun heq => absurd heq hne) (fun y hy => ?_)
      1 0 0 ?_ ?_ ?_ (fun _ => husers) ?_ rfl (fun hne => absurd rfl hne) (fun _ _ => ?_)
    · simp [Call.uses, Call.frees, Call.fills, hy.symm]
    · simp [Call.uses, hholders]
    · simp [Call.frees, hfree]
    · simp [Call.fills, hfilling]
    · simp [hfreed]
    · simp only [hpath]
  · refine h.change hcall (.storePut x (.parseFailed psoc path)) hx (fun heq => absurd heq hne)
      (fun y hy => ?_) 1 0 1 ?_ ?_ ?_ (fun _ => husers) ?_ rfl (fun _ => rfl) (fun hne => by cases hne)
    · simp [Call.uses, Call.frees, Call.fills]
    · simp [Call.uses, hholders]
    · simp [Call.frees, hfree]
    · simp [Call.fills, hfilling]
    · simp [hfreed]

omit [DecidableEq Field] in
theorem ret_fst (ret : Return Path) : (s.ret i ret).1 = s.setCall i .returned := by
  cases ret <;> rfl

variable {ret : Return Path}

/-- A reference is given back; the last one leaves the store to be freed. -/
theorem Books.storePut (h : s.Books env)
    (hcall : s.calls[i]? = some (.storePut x ret)) (hx : s.stores x = some store) :
    (s.storePut i x ret).1.Books env := by
  have hold := h.stores x store hx
  have huses : (Call.storePut x ret).uses x = 1 := by simp [Call.uses]
  have hused : s.holders x ≠ 0 := holders_ne_zero hcall (by rw [huses]; decide)
  obtain ⟨hfreed, hfree⟩ := hold.freed_eq hused
  have husers := hold.users hfreed
  have hbeside := filling_add_le (x := x) hcall
  have hpos : (Call.storePut x ret).fills x ≤ s.filling x :=
    Ledger.le_total (f := Call.fills x) (List.mem_of_getElem? hcall)
  have halone := hold.alone
  have hother (y : ℕ) (hy : y ≠ x) : (Call.storePut x ret).uses y = 0 ∧
      (Call.storePut x ret).frees y = 0 ∧ (Call.storePut x ret).fills y = 0 := by
    cases ret <;> simp [Call.uses, Call.frees, Call.fills, hy.symm]
  simp only [State.storePut, hx]
  split_ifs with hzero
  · refine h.change hcall (.storeFree x ret) hx (fun _ => rfl) (fun y hy => ?_) 0 1
      (s.filling x - (Call.storePut x ret).fills x) ?_ ?_ ?_ (fun _ => hzero) ?_ rfl
      (fun hne => ?_) (fun _ hne => absurd rfl hne)
    · obtain ⟨huses, hfrees, hfills⟩ := hother y hy
      rw [huses, hfrees, hfills]
      exact ⟨rfl, if_neg hy.symm, rfl⟩
    · rw [huses]
      change 0 + 1 = s.holders x + 0
      omega
    · simp [Call.frees, hfree]
    · exact Nat.sub_add_cancel hpos
    · simp [hfreed]
    · omega
  · rw [ret_fst]
    refine h.change hcall .returned hx (fun _ => rfl) (fun y hy => ?_) (s.holders x - 1) 0
      (s.filling x - (Call.storePut x ret).fills x) ?_ ?_ ?_ (fun _ => ?_) ?_ rfl
      (fun hne => ?_) (fun hfill hne => hold.filled ?_ hused)
    · obtain ⟨huses, hfrees, hfills⟩ := hother y hy
      rw [huses, hfrees, hfills]
      exact ⟨rfl, rfl, rfl⟩
    · rw [huses]
      exact Nat.sub_add_cancel (Nat.pos_of_ne_zero hused)
    · simp [Call.frees, hfree]
    · exact Nat.sub_add_cancel hpos
    · dsimp only
      omega
    · rw [if_neg (by omega)]
      simp [hfreed]
    · omega
    · omega

theorem Books.storeAlloc (h : s.Books env) (hcall : s.calls[i]? = some (.storeAlloc psoc path)) :
    (s.storeAlloc env i psoc path).Books env := by
  have hnone := h.fresh s.next le_rfl
  obtain ⟨hholders, hfreeing, hlist⟩ := h.unused s.next hnone
  have hfilling : s.filling s.next = 0 := Nat.le_zero.mp (filling_le_holders.trans hholders.le)
  have hglobal : globalStore ≠ s.next := by
    intro heq
    have := h.global
    rw [heq, hnone] at this
    cases this
  have hnumbers (y : ℕ) := numbers_putStore hcall (.parseToStore psoc path s.next) s.next
    { path := path, users := 1, values := env.zero } y
  refine h.update rfl (fun y hy => ⟨Nat.le_of_succ_le hy, (Nat.lt_of_succ_le hy).ne'⟩) ?_
    (fun y hy => ?_) ?_ ?_
  · simp [globalValues, State.storeAlloc, setCall, putStore, update_of_ne hglobal]
  · obtain ⟨h₁, h₂, h₃⟩ := hnumbers y
    simp only [Call.uses, Call.frees, Call.fills, if_neg hy.symm, Nat.add_zero] at h₁ h₂ h₃
    refine ⟨h₁, h₂, h₃, ?_⟩
    simp [State.storeAlloc, setCall, hy]
  · exact List.nodup_append.mpr ⟨h.nodup, List.nodup_singleton _, fun y hy z hz heq =>
      hlist (List.mem_singleton.mp hz ▸ heq ▸ hy)⟩
  · obtain ⟨h₁, h₂, h₃⟩ := hnumbers s.next
    simp only [Call.uses, Call.frees, Call.fills, if_true, Nat.add_zero, hholders, hfreeing,
      hfilling, Nat.zero_add] at h₁ h₂ h₃
    have hone : (s.storeAlloc env i psoc path).holders s.next = 1 := h₁
    have hzero : (s.storeAlloc env i psoc path).freeing s.next = 0 := h₂
    have hfill : (s.storeAlloc env i psoc path).filling s.next = 1 := h₃
    exact
      { users := fun _ => by rw [hone]; rfl
        freed := by rw [hone, hzero]; rfl
        listed := by simp [State.storeAlloc, setCall]
        alone := fun _ => hone
        filled := fun hno => by rw [hfill] at hno; cases hno }

theorem StoreOk.of_frees (h : s.StoreOk env x store)
    (hcall : s.calls[i]? = some (.storeFree x ret)) :
    s.holders x = 0 ∧ s.freeing x = 1 ∧ store.freed = false := by
  have hpos : 1 ≤ s.freeing x := by
    have hle := Ledger.le_total (f := Call.frees x) (List.mem_of_getElem? hcall)
    rw [Call.frees, if_pos rfl] at hle
    exact hle
  have hfreed := h.freed
  split_ifs at hfreed with hzero
  · refine ⟨hzero, by omega, ?_⟩
    cases hflag : store.freed with
    | false => rfl
    | true => rw [hflag, Bool.toNat_true] at hfreed; omega
  · omega

theorem Books.storeFree (h : s.Books env)
    (hcall : s.calls[i]? = some (.storeFree x ret)) (hx : s.stores x = some store) :
    (s.storeFree i x ret).1.Books env := by
  obtain ⟨hholders, hfreeing, hfreed⟩ := (h.stores x store hx).of_frees hcall
  have hfilling : s.filling x = 0 := Nat.le_zero.mp (filling_le_holders.trans hholders.le)
  have hnumbers (y : ℕ) := numbers_putStore hcall .returned x { store with freed := true } y
  simp only [State.storeFree, hx, ret_fst]
  refine h.update rfl (fun y hy => ⟨hy, fun heq => ?_⟩) ?_ (fun y hy => ?_) (h.nodup.erase x) ?_
  · have hnone := h.fresh y hy
    rw [heq, hx] at hnone
    cases hnone
  · by_cases hglobal : globalStore = x
    · subst hglobal
      simp [globalValues, setCall, putStore, hx]
    · simp [globalValues, setCall, putStore, update_of_ne hglobal]
  · obtain ⟨h₁, h₂, h₃⟩ := hnumbers y
    simp only [Call.uses, Call.frees, Call.fills, if_neg hy.symm, Nat.add_zero] at h₁ h₂ h₃
    exact ⟨h₁, h₂, h₃, List.mem_erase_of_ne hy⟩
  · obtain ⟨h₁, h₂, h₃⟩ := hnumbers x
    simp only [Call.uses, Call.frees, Call.fills, if_true, Nat.add_zero, hholders, hfreeing,
      hfilling] at h₁ h₂ h₃
    exact
      { users := fun hno => by cases hno
        freed := h₂.trans (if_pos h₁).symm
        listed := iff_of_false h.nodup.not_mem_erase (by simp)
        alone := fun hno => absurd h₃ hno
        filled := fun _ hno => absurd h₁ hno }

theorem Books.filling_global (h : s.Books env) : s.filling globalStore = 0 := by
  obtain ⟨store, hx⟩ := Option.isSome_iff_exists.mp h.global
  have halone := (h.stores globalStore store hx).alone
  have hle : s.filling globalStore ≤ total (Call.uses globalStore) s.calls :=
    List.sum_le_sum fun c _ => c.fills_le globalStore
  rw [holders, if_pos rfl] at halone
  omega

theorem Books.psocCreate (h : s.Books env) : s.psocCreate.Books env := by
  unfold State.psocCreate
  split
  next => exact h
  next store hx =>
    have hold := h.stores globalStore store hx
    have hused : s.holders globalStore ≠ 0 := by simp [holders]
    obtain ⟨hfreed, hfree⟩ := hold.freed_eq hused
    have huser (y : ℕ) : total (Call.uses y) (s.calls ++ [.setPriv s.psocs.length]) =
        total (Call.uses y) s.calls + if globalStore = y then 1 else 0 := Ledger.total_concat ..
    have hpsoc (y : ℕ) : total (Psoc.uses y) (s.psocs ++ [.detached]) =
        total (Psoc.uses y) s.psocs := Ledger.total_concat ..
    have hfrees (y : ℕ) : total (Call.frees y) (s.calls ++ [.setPriv s.psocs.length]) =
        total (Call.frees y) s.calls := Ledger.total_concat ..
    have hfills (y : ℕ) : total (Call.fills y) (s.calls ++ [.setPriv s.psocs.length]) =
        total (Call.fills y) s.calls := Ledger.total_concat ..
    have hglobal : State.globalValues env
        { s.putStore globalStore { store with users := store.users + 1 } with
          psocs := s.psocs ++ [.detached]
          calls := s.calls ++ [.setPriv s.psocs.length] } = s.globalValues env := by
      simp [globalValues, putStore, hx]
    refine h.update rfl (fun y hy => ⟨hy, fun heq => ?_⟩) hglobal (fun y hy => ?_) h.nodup ?_
    · have hnone := h.fresh y hy
      rw [heq, hx] at hnone
      cases hnone
    · refine ⟨?_, hfrees y, hfills y, Iff.rfl⟩
      simp only [holders, huser, hpsoc, if_neg hy.symm]
      rfl
    · have hone : State.holders { s.putStore globalStore { store with users := store.users + 1 } with
          psocs := s.psocs ++ [.detached]
          calls := s.calls ++ [.setPriv s.psocs.length] } globalStore = s.holders globalStore + 1 := by
        simp only [holders, huser, hpsoc, if_true]
        rfl
      exact
        { users := fun _ => by
            rw [hone, Nat.cast_add, ← hold.users hfreed]
            rfl
          freed := by
            rw [hone, if_neg (Nat.succ_ne_zero _)]
            exact (congrArg₂ (· + ·) (hfrees globalStore) rfl).trans (by
              rw [hfreed]
              exact hfree)
          listed := hold.listed
          alone := fun hno => absurd ((hfills globalStore).trans h.filling_global) hno
          filled := fun _ _ => (hold.filled h.filling_global hused).trans
            (congrArg (env.parse store.path) hglobal.symm) }

theorem Books.goOn (h : s.Books env) (hcall : s.calls[i]? = some call)
    (huses : ∀ x, call'.uses x = call.uses x) (hfrees : ∀ x, call'.frees x = call.frees x)
    (hfills : ∀ x, call'.fills x = call.fills x) : (s.setCall i call').Books env := by
  refine h.transfer rfl rfl rfl (fun x => ?_) (fun x => ?_) fun x => ?_
  · have hnumber := holders_setCall hcall call' x
    have := huses x
    omega
  · have hnumber := freeing_setCall hcall call' x
    have := hfrees x
    omega
  · have hnumber := filling_setCall hcall call' x
    have := hfills x
    omega

theorem Books.exchange (h : s.Books env) (hcall : s.calls[i]? = some call) {a b : Psoc}
    (hpsoc : s.psocs[psoc]? = some a)
    (huses : ∀ x, b.uses x + call'.uses x = a.uses x + call.uses x)
    (hfrees : ∀ x, call'.frees x = call.frees x) (hfills : ∀ x, call'.fills x = call.fills x) :
    ({ s with psocs := s.psocs.set psoc b }.setCall i call').Books env := by
  refine h.transfer rfl rfl rfl (fun x => ?_) (fun x => ?_) fun x => ?_
  · have hcalls := Ledger.total_set_add (f := Call.uses x) hcall call'
    have hpsocs := Ledger.total_set_add (f := Psoc.uses x) hpsoc b
    have := huses x
    simp only [holders, setCall]
    omega
  · have hnumber := freeing_setCall hcall call' x
    have := hfrees x
    change (s.setCall i call').freeing x = _
    omega
  · have hnumber := filling_setCall hcall call' x
    have := hfills x
    change (s.setCall i call').filling x = _
    omega

theorem Books.begin (h : s.Books env) {psocs : List Psoc}
    (huses : ∀ x, total (Psoc.uses x) psocs + call'.uses x = total (Psoc.uses x) s.psocs)
    (hfrees : ∀ x, call'.frees x = 0) (hfills : ∀ x, call'.fills x = 0) :
    State.Books env { s with psocs := psocs, calls := s.calls ++ [call'] } := by
  refine h.transfer rfl rfl rfl (fun x => ?_) (fun x => ?_) fun x => ?_
  · have := huses x
    simp only [holders, Ledger.total_concat]
    omega
  · simp only [freeing, Ledger.total_concat, hfrees, Nat.add_zero]
  · simp only [filling, Ledger.total_concat, hfills, Nat.add_zero]

theorem Books.setPriv (h : s.Books env) (hcall : s.calls[i]? = some (.setPriv psoc))
    (hpsoc : s.psocs[psoc]? = some .detached) :
    ({ s with psocs := s.psocs.set psoc (.attached globalStore) }.setCall i .returned).Books env :=
  h.exchange hcall hpsoc (fun _ => Nat.add_comm _ _) (fun _ => rfl) fun _ => rfl

theorem Books.setStore (h : s.Books env) (hcall : s.calls[i]? = some (.setStore psoc path x))
    (hpsoc : s.psocs[psoc]? = some (.attached globalStore)) :
    (s.setStore i psoc path x).Books env := by
  simp only [State.setStore, hpsoc]
  exact h.exchange hcall hpsoc (fun y => Nat.add_comm _ _) (fun _ => rfl) fun _ => rfl

theorem Books.psocDestroy (h : s.Books env) : (s.psocDestroy psoc).Books env := by
  unfold State.psocDestroy
  split
  next x hpsoc =>
    refine h.begin (fun y => ?_) (fun _ => rfl) fun _ => rfl
    have hpsocs := Ledger.total_set_add (f := Psoc.uses y) hpsoc .detached
    exact hpsocs
  next => exact h

theorem Books.psocParse (h : s.Books env) : (s.psocParse psoc path).Books env := by
  unfold State.psocParse
  split
  · split_ifs
    · exact h.begin (fun _ => rfl) (fun _ => rfl) fun _ => rfl
    · exact h
  · exact h

end State

end KernelModules.Cfg
