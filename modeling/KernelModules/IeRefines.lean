import KernelModules.IeSafety

/-!
# The walk over an RSN element and the check of its bytes

The walk, which has a pointer and a count, comes to what `RsnIe.rsnieCheck` says of the list of the
bytes of the element.
-/

namespace KernelModules.IeWalk

open Bitmap RsnIe

variable {m : ℕ → UInt8} {s : Walk} {f : SuiteSet}

def Walk.rest (m : ℕ → UInt8) (s : Walk) : Bytes :=
  (List.range s.len.toNat).map fun i => m (s.frm + i)

def outcome (r : Bool × Walk) : Option CryptoParams := if r.1 then some r.2.params else none

namespace Walk

@[simp] theorem length_rest : (s.rest m).length = s.len.toNat := by simp [rest]

theorem rest_eq_nil_iff : s.rest m = [] ↔ s.len = 0 := by
  rw [← List.length_eq_zero_iff, length_rest, ← UInt8.toNat_inj]
  rfl

theorem rest_getD {i : ℕ} (hi : i < s.len.toNat) : (s.rest m).getD i 0 = m (s.frm + i) := by
  rw [List.getD_eq_getElem _ _ (by rwa [length_rest])]
  simp [rest]

theorem leRead2_rest (h : 2 ≤ s.len.toNat) : leRead2 (s.rest m) = leRead2At m s.frm := by
  rw [leRead2, rest_getD (by omega), rest_getD (by omega)]
  rfl

theorem leRead4_rest (h : 4 ≤ s.len.toNat) : leRead4 (s.rest m) = leRead4At m s.frm := by
  rw [leRead4, rest_getD (by omega), rest_getD (by omega), rest_getD (by omega),
    rest_getD (by omega)]
  rfl

theorem drop_rest {k : ℕ} (h : k ≤ s.len.toNat) : (s.rest m).drop k = (s.skip k).rest m := by
  rw [rest, rest, toNat_skip s h, ← List.map_drop, List.range_eq_range', List.drop_range',
    List.range_eq_range', List.range'_eq_map_range, List.range'_eq_map_range, List.map_map,
    List.map_map]
  apply List.map_congr_left
  intro i _
  have hpos : s.frm + (0 + k * 1 + i) = s.frm + k + (0 + i) := by omega
  exact congrArg m hpos

theorem rest_congr {s t : Walk} (hfrm : t.frm = s.frm) (hlen : t.len = s.len) :
    t.rest m = s.rest m := by
  rw [rest, hfrm, hlen, rest]

end Walk

def listOutcome (m : ℕ → UInt8) (f : SuiteSet) (r : Bool × Walk) : Option (Set32 × Bytes) :=
  if r.1 then some (f.get r.2.params, r.2.rest m) else none

theorem SuiteSet.put_get (f : SuiteSet) (p : CryptoParams) : f.put p (f.get p) = p := by
  cases f <;> rfl

theorem SuiteSet.put_put (f : SuiteSet) (p : CryptoParams) (set set' : Set32) :
    f.put (f.put p set) set' = f.put p set' := by
  cases f <;> rfl

theorem setSuites_params (T : Suites) (n : ℕ) (s : Walk) :
    (setSuites T m f n s).2.params = f.put s.params (f.get (setSuites T m f n s).2.params) := by
  induction n generalizing s with
  | zero => exact (f.put_get s.params).symm
  | succ n ih =>
    rw [setSuites, Walk.read4]
    dsimp only
    split
    · exact (f.put_get s.params).symm
    · exact (ih _).trans (f.put_put s.params _ _)

theorem setSuites_rest {n : ℕ} (hroom : n * 4 ≤ s.len.toNat) :
    RsnIe.setSuites (rsn.bit f) n (f.get s.params) (s.rest m) =
      listOutcome m f (setSuites rsn m f n s) := by
  induction n generalizing s with
  | zero => rfl
  | succ n ih =>
    have hread : 4 ≤ s.len.toNat := by omega
    rw [RsnIe.setSuites, Walk.leRead4_rest hread]
    cases hi : rsn.bit f (leRead4At m s.frm) with
    | none =>
      rw [setSuites, Walk.read4]
      dsimp only
      rw [if_pos (Suites.status_neg_iff.mpr hi)]
      rfl
    | some i =>
      have hnext := ih (s := s.behindSuite m f i) (by rw [Walk.toNat_behindSuite hread]; omega)
      have hget : f.get (s.behindSuite m f i).params = f.get s.params ||| bit 32 i :=
        (s.read4 m).2.set_get_self f (Suites.rsn_small _ _ i hi)
      have hrest : (s.behindSuite m f i).rest m = (s.rest m).drop 4 := by
        rw [Walk.drop_rest hread]
        exact Walk.rest_congr rfl rfl
      rw [hget, hrest] at hnext
      rw [setSuites_succ hi]
      exact hnext

theorem suiteList_rest (hroom : 2 ≤ s.len.toNat) :
    suiteList (rsn.bit f) f.dflt (f.get s.params) (s.rest m) = listOutcome m f (rsnList m s f) := by
  have hrest : (s.behind2 m).rest m = (s.rest m).drop 2 := by
    rw [Walk.drop_rest hroom]
    exact Walk.rest_congr rfl rfl
  have hfilter : ∀ r : Bool × Walk, (listOutcome m f r).filter (fun r => r.1 ≠ 0) =
      listOutcome m f (r.1 && f.get r.2.params != 0, r.2) := by
    rintro ⟨ok, t⟩
    cases ok with
    | false => rfl
    | true =>
      rw [listOutcome, listOutcome, if_pos rfl, Option.filter_some]
      by_cases hz : f.get t.params = 0 <;> simp [hz]
  rw [rsnList_eq, suiteList, Walk.leRead2_rest hroom, ← hrest]
  rw [← hfilter]
  congr 1
  by_cases hzero : leRead2At m s.frm = 0
  · have hget : f.get ((s.behind2 m).set f f.dflt).params = f.get s.params ||| bit 32 f.dflt :=
      (s.behind2 m).set_get_self f f.dflt_lt
    rw [if_pos hzero, if_neg (not_not.mpr hzero), listOutcome, if_pos rfl, hget]
    rfl
  rw [if_neg hzero, if_pos hzero, Walk.length_rest]
  by_cases hshort : (s.behind2 m).len.toNat < leRead2At m s.frm * 4
  · rw [if_pos hshort, if_pos hshort]
    rfl
  rw [if_neg hshort, if_neg hshort]
  exact setSuites_rest (s := s.behind2 m) (Nat.not_lt.mp hshort)

theorem rsnList_params : (rsnList m s f).2.params =
    f.put s.params (f.get (rsnList m s f).2.params) := by
  rw [rsnList, Walk.read2]
  dsimp only
  split
  · split
    · exact (f.put_get s.params).symm
    · exact setSuites_params ..
  · change f.put s.params _ = f.put s.params (f.get (f.put s.params _))
    rw [f.get_put]

theorem checkBip_rest : some (checkBip s.params (s.rest m)) = outcome (rsnBip m s) := by
  rw [checkBip, rsnBip]
  by_cases hend : s.len = 0 ∧ s.params.mfpEnabled = true
  · rw [if_pos hend, if_pos (hend.imp_left Walk.rest_eq_nil_iff.mpr)]
    rfl
  rw [if_neg hend, if_neg (fun hc => hend (hc.imp_left Walk.rest_eq_nil_iff.mp)), Walk.length_rest]
  split
  next hroom =>
    rw [Walk.leRead4_rest hroom]
    change _ = some (((s.read4 m).2.skip 4).set .mgmt (rsn.status .mgmt (leRead4At m s.frm))).params
    cases hi : rsn.bit .mgmt (leRead4At m s.frm) with
    | none =>
      have hnone : cipherBit (leRead4At m s.frm) = none := hi
      rw [hnone, Suites.status, hi]
      rfl
    | some i =>
      have hsome : cipherBit (leRead4At m s.frm) = some i := hi
      have hmod : ((i : ℤ) % 32).toNat = i := by
        have := Suites.rsn_small _ _ i hi
        omega
      rw [hsome, Suites.status_of_some hi, Walk.set, hmod]
      rfl
  next => rfl

theorem checkPmkid_rest : checkPmkid s.params (s.rest m) = outcome (rsnPmkid m s) := by
  rw [checkPmkid, rsnPmkid, Walk.length_rest]
  by_cases hroom : 2 ≤ s.len.toNat
  · have hrest : (s.rest m).drop 2 = (s.behind2 m).rest m := by
      rw [Walk.drop_rest hroom]
      exact Walk.rest_congr rfl rfl
    rw [if_pos hroom, if_pos hroom, Walk.leRead2_rest hroom, hrest]
    change _ = outcome (if leRead2At m s.frm ≠ 0 ∧ (s.behind2 m).len ≠ 0 then
        if leRead2At m s.frm * pmkidLen ≤ (s.behind2 m).len.toNat then
          rsnBip m ((s.behind2 m).skip (leRead2At m s.frm * pmkidLen))
        else (false, s.behind2 m)
      else if leRead2At m s.frm ≠ 0 ∧ (s.behind2 m).len = 0 then (false, s.behind2 m)
      else rsnBip m (s.behind2 m))
    simp only [ne_eq, Walk.rest_eq_nil_iff, Walk.length_rest]
    by_cases hcount : ¬ leRead2At m s.frm = 0 ∧ ¬ (s.behind2 m).len = 0
    · rw [if_pos hcount, if_pos hcount]
      split
      next hfits =>
        rw [Walk.drop_rest hfits]
        exact checkBip_rest
      next => rfl
    rw [if_neg hcount, if_neg hcount]
    by_cases hsome : ¬ leRead2At m s.frm = 0
    · have hend : (s.behind2 m).len = 0 := by tauto
      rw [if_pos hsome, if_pos ⟨hsome, hend⟩]
      rfl
    · rw [if_neg hsome, if_neg (fun hc => hsome hc.1)]
      exact checkBip_rest
  · rw [if_neg hroom, if_neg hroom]
    exact checkBip_rest

theorem checkCaps_rest : checkCaps s.params (s.rest m) = outcome (rsnCaps m s) := by
  rw [checkCaps, rsnCaps, Walk.length_rest]
  by_cases hroom : 2 ≤ s.len.toNat
  · rw [if_pos hroom, if_pos hroom, Walk.leRead2_rest hroom, Walk.drop_rest hroom]
    exact checkPmkid_rest (s := ((s.read2 m).2.setCaps (leRead2At m s.frm)).skip 2)
  rw [if_neg hroom, if_neg hroom]
  by_cases hend : s.len = 0
  · rw [if_neg (not_not.mpr (Walk.rest_eq_nil_iff.mpr hend)), if_neg (fun hc => hc.1 hend)]
    exact checkPmkid_rest
  · rw [if_pos (fun hc => hend (Walk.rest_eq_nil_iff.mp hc)), if_pos ⟨hend, by omega⟩]
    rfl

theorem list_rest {next : Walk → Bool × Walk} {check : CryptoParams → Bytes → Option CryptoParams}
    (hroom : 2 ≤ s.len.toNat) (hnext : ∀ t : Walk, check t.params (t.rest m) = outcome (next t)) :
    (match suiteList (rsn.bit f) f.dflt (f.get s.params) (s.rest m) with
      | none => none
      | some (set, frm) => check (f.put s.params set) frm) =
    outcome (match rsnList m s f with | (false, s) => (false, s) | (true, s) => next s) := by
  have hparams := rsnList_params (m := m) (s := s) (f := f)
  rw [suiteList_rest hroom]
  revert hparams
  rcases rsnList m s f with ⟨_ | _, t⟩
  · exact fun _ => rfl
  · intro hparams
    change check (f.put s.params (f.get t.params)) (t.rest m) = outcome (next t)
    rw [← hparams]
    exact hnext t

theorem checkKeyMgmt_rest : checkKeyMgmt s.params (s.rest m) = outcome (rsnKeyMgmt m s) := by
  rw [checkKeyMgmt, rsnKeyMgmt]
  simp only [Walk.rest_eq_nil_iff, Walk.length_rest]
  split
  · rfl
  · split
    · rfl
    next hroom =>
      exact list_rest (f := .keyMgmt) (Nat.not_lt.mp hroom) fun t => checkCaps_rest

theorem checkUcast_rest : checkUcast s.params (s.rest m) = outcome (rsnUcast m s) := by
  rw [checkUcast, rsnUcast]
  simp only [Walk.rest_eq_nil_iff, Walk.length_rest]
  split
  · rfl
  · split
    · rfl
    next hroom =>
      exact list_rest (f := .ucast) (Nat.not_lt.mp hroom) fun t => checkKeyMgmt_rest

theorem checkMcast_rest : checkMcast s.params (s.rest m) = outcome (rsnMcast m s) := by
  rw [checkMcast, rsnMcast]
  simp only [Walk.rest_eq_nil_iff, Walk.length_rest]
  split
  · rfl
  split
  · rfl
  next hroom =>
    rw [Nat.not_lt] at hroom
    rw [Walk.leRead4_rest hroom, Walk.drop_rest hroom]
    cases hi : rsn.bit .mcast (leRead4At m s.frm) with
    | none =>
      have hnone : cipherBit (leRead4At m s.frm) = none := hi
      rw [hnone, Walk.read4]
      rw [if_pos (Suites.status_neg_iff.mpr hi)]
      rfl
    | some i =>
      have hsome : cipherBit (leRead4At m s.frm) = some i := hi
      have hnn : ¬ rsn.status .mcast (leRead4At m s.frm) < 0 := by
        rw [Suites.status_neg_iff, hi]
        exact Option.some_ne_none i
      have hget : (s.behindSuite m .mcast i).params = setMcast s.params i := by
        have hmod : ((i : ℤ) % 32).toNat = i := by
          have := Suites.rsn_small _ _ i hi
          omega
        change SuiteSet.mcast.put s.params (_ ||| bit 32 ((i : ℤ) % 32).toNat) = _
        rw [hmod]
        rfl
      rw [hsome, Walk.read4]
      rw [if_neg hnn, Suites.status_of_some hi]
      change (if (setMcast s.params i).mcastcipherset = 0 then none else _) =
        outcome (if (s.behindSuite m .mcast i).params.mcastcipherset = 0 then _ else _)
      rw [hget, ← hget]
      split
      · rfl
      · exact checkUcast_rest (s := s.behindSuite m .mcast i)

theorem payload_rest (hfrm : s.frm = 2) (hlen : s.len = m 1) :
    payload ((List.range (2 + (m 1).toNat)).map m) = s.rest m := by
  have hcount : ((List.range (2 + (m 1).toNat)).map m).getD 1 0 = m 1 := by
    rw [List.getD_eq_getElem _ _ (by rw [List.length_map, List.length_range]; omega)]
    simp
  have hdrop : ((List.range (2 + (m 1).toNat)).map m).drop 2 = s.rest m := by
    rw [List.range_add, List.map_append, List.drop_left' (by simp), List.map_map, Walk.rest, hfrm,
      hlen]
    rfl
  rw [payload, hcount, hdrop, List.take_of_length_le (by rw [Walk.length_rest, hlen])]

theorem rsnieCheck_rest (m : ℕ → UInt8) (params : CryptoParams) :
    RsnIe.rsnieCheck ((List.range (2 + (m 1).toNat)).map m) = outcome (rsnieCheck m params) := by
  rw [RsnIe.rsnieCheck, rsnieCheck,
    payload_rest (s := { (Walk.start m CryptoParams.zero).setAuthmode authRsna with frm := 2 }) rfl rfl]
  rw [Walk.length_rest]
  change (if (m 1).toNat < 2 then none else _) = outcome (if (m 1).toNat < 2 then _ else _)
  by_cases hshort : (m 1).toNat < 2
  · rw [if_pos hshort, if_pos hshort]
    rfl
  rw [if_neg hshort, if_neg hshort]
  rw [Nat.not_lt] at hshort
  rw [Walk.leRead2_rest hshort, Walk.drop_rest hshort]
  change (if leRead2At m 2 ≠ rsnVersion then none else _) =
    outcome (if leRead2At m 2 ≠ rsnVersion then _ else _)
  by_cases hversion : leRead2At m 2 ≠ rsnVersion
  · rw [if_pos hversion, if_pos hversion]
    rfl
  rw [if_neg hversion, if_neg hversion]
  have hzero : ({ (Walk.start m CryptoParams.zero).setAuthmode authRsna with frm := 2 } : Walk).params =
      { CryptoParams.zero with authmodeset := bit 32 authRsna } := by
    have hor : (0 : Set32) ||| bit 32 authRsna = bit 32 authRsna := BitVec.zero_or
    change CryptoParams.mk (0 ||| bit 32 authRsna) 0 0 0 0 0 = _
    rw [hor]
    rfl
  have hmcast := checkMcast_rest (m := m)
    (s := Walk.behind2 m { (Walk.start m CryptoParams.zero).setAuthmode authRsna with frm := 2 })
  change checkMcast ({ (Walk.start m CryptoParams.zero).setAuthmode authRsna with
    frm := 2 } : Walk).params _ = _ at hmcast
  rw [hzero] at hmcast
  exact hmcast

end KernelModules.IeWalk
