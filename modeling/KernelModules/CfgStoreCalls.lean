import KernelModules.CfgStoreUsers

/-!
# The calls on a psoc

As long as the calls on one psoc come one after another, each finds it as the last one left it: on
the global store when it is about to be given a store of its own, and on that store behind that.
-/

namespace KernelModules.Cfg

variable {Path Field Val : Type*}

namespace State

variable {s s' : State Path Field Val} {x i p : ℕ} {call call' : Call Path} {path : Path}
  {store : Store Path Field Val}

def OnPath (s : State Path Field Val) (path : Path) (ctx : Option Psoc) : Prop :=
  ∃ x store, ctx = some (.attached x) ∧ s.stores x = some store ∧ store.path = path

def ReturnOk (s : State Path Field Val) : Return Path → Prop
  | .created p | .destroyed p => p < s.psocs.length
  | .parseFailed p _ => s.psocs[p]? = some (.attached globalStore)
  | .parsed p path => s.OnPath path s.psocs[p]?

/-- What is so when the call is about to do this. -/
def CallOk (s : State Path Field Val) : Call Path → Prop
  | .returned => True
  | .setPriv p => s.psocs[p]? = some .detached
  | .storeGet p _ | .storeAlloc p _ => s.psocs[p]? = some (.attached globalStore)
  | .parseToStore p path x =>
    s.psocs[p]? = some (.attached globalStore) ∧ x ≠ globalStore ∧
      ∃ store, s.stores x = some store ∧ store.path = path
  | .setStore p path x =>
    s.psocs[p]? = some (.attached globalStore) ∧
      ∃ store, s.stores x = some store ∧ store.path = path
  | .storePut x ret | .storeFree x ret => (∃ store, s.stores x = some store) ∧ s.ReturnOk ret

structure Protocol (s : State Path Field Val) : Prop where
  ok : ∀ (i : ℕ) call, s.calls[i]? = some call → s.CallOk call
  /-- A psoc has one call under way at most. -/
  single : ∀ (i j : ℕ) call call' p, s.calls[i]? = some call → s.calls[j]? = some call' →
    call.psoc = some p → call'.psoc = some p → i = j

/-- Stores keep their path, and psocs stay. -/
structure Kept (s s' : State Path Field Val) : Prop where
  stores : ∀ x store, s.stores x = some store →
    ∃ store', s'.stores x = some store' ∧ store'.path = store.path
  psocs : s.psocs.length ≤ s'.psocs.length

theorem Kept.of_eq (hstores : s'.stores = s.stores) (hpsocs : s.psocs.length ≤ s'.psocs.length) :
    s.Kept s' :=
  ⟨fun _ store hx => ⟨store, hstores ▸ hx, rfl⟩, hpsocs⟩

theorem Kept.putStore (store : Store Path Field Val) {old : Store Path Field Val}
    (hx : s.stores x = some old)
    (hpath : store.path = old.path) : s.Kept (s.putStore x store) where
  stores y store' hy := by
    by_cases hyx : y = x
    · subst hyx
      rw [hx] at hy
      cases hy
      exact ⟨store, Function.update_self .., hpath⟩
    · exact ⟨store', (Function.update_of_ne hyx ..).trans hy, rfl⟩
  psocs := le_rfl

theorem OnPath.of_kept (h : s.Kept s') {ctx : Option Psoc} (hpath : s.OnPath path ctx) :
    s'.OnPath path ctx := by
  obtain ⟨x, store, hctx, hx, hpath⟩ := hpath
  obtain ⟨store', hx', hpath'⟩ := h.stores x store hx
  exact ⟨x, store', hctx, hx', hpath'.trans hpath⟩

theorem ReturnOk.of_kept (h : s.Kept s') {ret : Return Path} (hret : s.ReturnOk ret)
    (hpsoc : s'.psocs[ret.psoc]? = s.psocs[ret.psoc]?) : s'.ReturnOk ret := by
  cases ret with
  | created p => exact Nat.lt_of_lt_of_le hret h.psocs
  | destroyed p => exact Nat.lt_of_lt_of_le hret h.psocs
  | parseFailed p path => exact hpsoc.trans hret
  | parsed p path =>
    change s'.psocs[p]? = s.psocs[p]? at hpsoc
    change s'.OnPath path s'.psocs[p]?
    rw [hpsoc]
    exact OnPath.of_kept h hret

theorem CallOk.of_kept (h : s.Kept s') (hok : s.CallOk call)
    (hpsoc : ∀ p, call.psoc = some p → s'.psocs[p]? = s.psocs[p]?) : s'.CallOk call := by
  have hstore (x : ℕ) (path : Path) (hx : ∃ store, s.stores x = some store ∧ store.path = path) :
      ∃ store, s'.stores x = some store ∧ store.path = path := by
    obtain ⟨store, hx, hpath⟩ := hx
    obtain ⟨store', hx', hpath'⟩ := h.stores x store hx
    exact ⟨store', hx', hpath'.trans hpath⟩
  cases call with
  | returned => trivial
  | setPriv p => exact (hpsoc p rfl).trans hok
  | storeGet p path => exact (hpsoc p rfl).trans hok
  | storeAlloc p path => exact (hpsoc p rfl).trans hok
  | parseToStore p path x => exact ⟨(hpsoc p rfl).trans hok.1, hok.2.1, hstore x path hok.2.2⟩
  | setStore p path x => exact ⟨(hpsoc p rfl).trans hok.1, hstore x path hok.2⟩
  | storePut x ret =>
    obtain ⟨⟨store, hx⟩, hret⟩ := hok
    obtain ⟨store', hx', -⟩ := h.stores x store hx
    exact ⟨⟨store', hx'⟩, hret.of_kept h (hpsoc _ rfl)⟩
  | storeFree x ret =>
    obtain ⟨⟨store, hx⟩, hret⟩ := hok
    obtain ⟨store', hx', -⟩ := h.stores x store hx
    exact ⟨⟨store', hx'⟩, hret.of_kept h (hpsoc _ rfl)⟩

theorem CallOk.known (hok : s.CallOk call) (hp : call.psoc = some p) : p < s.psocs.length := by
  have hknown {a : Psoc} (h : s.psocs[p]? = some a) : p < s.psocs.length :=
    (List.getElem?_eq_some_iff.mp h).1
  have hreturn (ret : Return Path) (hret : s.ReturnOk ret) (hp : ret.psoc = p) :
      p < s.psocs.length := by
    subst hp
    cases ret with
    | created p => exact hret
    | destroyed p => exact hret
    | parseFailed p path => exact hknown hret
    | parsed p path =>
      obtain ⟨x, store, hctx, -⟩ := hret
      exact hknown hctx
  cases call with
  | returned => cases hp
  | setPriv q => cases hp; exact hknown hok
  | storeGet q path => cases hp; exact hknown hok
  | storeAlloc q path => cases hp; exact hknown hok
  | parseToStore q path x => cases hp; exact hknown hok.1
  | setStore q path x => cases hp; exact hknown hok.1
  | storePut x ret => exact hreturn ret hok.2 (Option.some.inj hp)
  | storeFree x ret => exact hreturn ret hok.2 (Option.some.inj hp)

theorem Protocol.goOn (h : s.Protocol) (hcall : s.calls[i]? = some call) (hkept : s.Kept s')
    (hcalls : s'.calls = s.calls.set i call')
    (hothers : ∀ p, call.psoc ≠ some p → s'.psocs[p]? = s.psocs[p]?)
    (hpsoc : ∀ p, call'.psoc = some p → call.psoc = some p) (hok : s'.CallOk call') :
    s'.Protocol := by
  have hlt : i < s.calls.length := (List.getElem?_eq_some_iff.mp hcall).1
  have hself : s'.calls[i]? = some call' := by rw [hcalls, List.getElem?_set_self hlt]
  have hne (j : ℕ) (hj : j ≠ i) : s'.calls[j]? = s.calls[j]? := by
    rw [hcalls, List.getElem?_set_ne hj.symm]
  -- What a call is about now, the call at its place was about before.
  have hbefore (j : ℕ) (c : Call Path) (p : ℕ) (hc : s'.calls[j]? = some c)
      (hp : c.psoc = some p) : ∃ d, s.calls[j]? = some d ∧ d.psoc = some p := by
    by_cases hj : j = i
    · subst hj
      rw [hself] at hc
      cases hc
      exact ⟨call, hcall, hpsoc p hp⟩
    · exact ⟨c, hne j hj ▸ hc, hp⟩
  constructor
  · intro j c hc
    by_cases hj : j = i
    · subst hj
      rw [hself] at hc
      cases hc
      exact hok
    · rw [hne j hj] at hc
      refine (h.ok j c hc).of_kept hkept fun p hp => hothers p fun hcp => ?_
      exact hj (h.single j i c call p hc hcall hp hcp)
  · intro j k c d p hc hd hcp hdp
    obtain ⟨c', hc', hcp'⟩ := hbefore j c p hc hcp
    obtain ⟨d', hd', hdp'⟩ := hbefore k d p hd hdp
    exact h.single j k c' d' p hc' hd' hcp' hdp'

theorem Protocol.begin (h : s.Protocol) (hkept : s.Kept s') (hcalls : s'.calls = s.calls ++ [call'])
    (hfree : ∀ call ∈ s.calls, call.psoc ≠ some p) (hpsoc : call'.psoc = some p)
    (hothers : ∀ q, q < s.psocs.length → q ≠ p → s'.psocs[q]? = s.psocs[q]?)
    (hok : s'.CallOk call') : s'.Protocol := by
  have hcases (j : ℕ) (c : Call Path) (hc : s'.calls[j]? = some c) :
      s.calls[j]? = some c ∨ j = s.calls.length ∧ c = call' := by
    rw [hcalls] at hc
    rcases Nat.lt_or_ge j s.calls.length with hj | hj
    · rw [List.getElem?_append_left hj] at hc
      exact Or.inl hc
    · rw [List.getElem?_append_right hj] at hc
      obtain ⟨hlt, heq⟩ := List.getElem?_eq_some_iff.mp hc
      rw [List.length_singleton] at hlt
      simp only [Nat.lt_one_iff.mp hlt, List.getElem_cons_zero] at heq
      exact Or.inr ⟨by omega, heq.symm⟩
  constructor
  · intro j c hc
    rcases hcases j c hc with hold | ⟨-, rfl⟩
    · have hokc := h.ok j c hold
      refine hokc.of_kept hkept fun q hq => hothers q (hokc.known hq) fun heq => ?_
      exact hfree c (List.mem_of_getElem? hold) (heq ▸ hq)
    · exact hok
  · intro j k c d q hc hd hcq hdq
    rcases hcases j c hc with holdc | ⟨rfl, rfl⟩
    · rcases hcases k d hd with holdd | ⟨rfl, rfl⟩
      · exact h.single j k c d q holdc holdd hcq hdq
      · rw [hpsoc] at hdq
        cases hdq
        exact absurd hcq (hfree c (List.mem_of_getElem? holdc))
    · rcases hcases k d hd with holdd | ⟨rfl, -⟩
      · rw [hpsoc] at hcq
        cases hcq
        exact absurd hdq (hfree d (List.mem_of_getElem? holdd))
      · rfl

end State

end KernelModules.Cfg
