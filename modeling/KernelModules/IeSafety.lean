import KernelModules.IeItems

/-!
# Which elements are checked safely

The check of a WPA element is safe for every element. That of an RSN element takes a group
management cipher it does not know and shifts by -1, and that of a WAPI element reads behind the
element when less than a suite is left for the group cipher.
-/

namespace KernelModules.IeWalk

open Bitmap RsnIe

variable {m : ℕ → UInt8} {e : ℕ} {s : Walk} {T : Suites} {f : SuiteSet}

namespace Walk

def behind2 (m : ℕ → UInt8) (s : Walk) : Walk := (s.read2 m).2.skip 2

def behindSuite (m : ℕ → UInt8) (f : SuiteSet) (i : ℕ) (s : Walk) : Walk :=
  ((s.read4 m).2.set f i).skip 4

theorem Inside.le (h : s.Inside e) {k : ℕ} (hk : k ≤ s.len.toNat) : s.frm + k ≤ e := by
  have := h.stop
  omega

theorem Inside.behind2 (h : s.Inside e) (hroom : 2 ≤ s.len.toNat) : (s.behind2 m).Inside e :=
  (h.read2 hroom).skip (k := 2) hroom

theorem toNat_behind2 (hroom : 2 ≤ s.len.toNat) :
    (s.behind2 m).len.toNat = s.len.toNat - 2 := toNat_skip _ (k := 2) hroom

theorem Inside.behindSuite (h : s.Inside e) (hroom : 4 ≤ s.len.toNat) (f : SuiteSet) (i : ℕ) :
    (s.behindSuite m f i).Inside e :=
  ((h.read4 hroom).set f (Int.natCast_nonneg i)).skip (k := 4) hroom

theorem toNat_behindSuite (hroom : 4 ≤ s.len.toNat) (f : SuiteSet) (i : ℕ) :
    (s.behindSuite m f i).len.toNat = s.len.toNat - 4 := toNat_skip _ (k := 4) hroom

theorem from_behindSuite {i : ℕ} (hT : T.Small) (hi : T.bit f (leRead4At m s.frm) = some i) :
    From T m [.suite f s.frm] s.params (s.behindSuite m f i).params :=
  (s.read4 m).2.from_set (x := .suite f s.frm) hi (hT f _ i hi)

end Walk

section Steps

variable {items : List Item} {cond : Prop} {n : ℕ} {k : Walk → Bool × Walk}

theorem judged_list (hT : T.Small) (h : s.Inside e) (hroom : n * 4 ≤ s.len.toNat)
    (hunknown : ¬ AllKnown T m f s.frm n → cond)
    (hk : AllKnown T m f s.frm n → ∀ t, BehindList T m e f n s t →
      Judged T m e items t.params cond (k t)) :
    Judged T m e (listItems f s.frm n ++ items) s.params cond
      (match setSuites T m f n s with | (false, s) => (false, s) | (true, s) => k s) := by
  by_cases hknown : AllKnown T m f s.frm n
  · obtain ⟨t, ht, hbehind⟩ := setSuites_known hT h hroom hknown
    rw [ht]
    apply (hk hknown t hbehind).prepend (hknown.items_known _) hbehind.bits Iff.rfl
    have := h.le hroom
    omega
  · obtain ⟨t, ht, hclean⟩ := setSuites_unknown h hroom hknown
    rw [ht]
    exact .reject hclean (hunknown hknown)

theorem judged_suite (hT : T.Small) (h : s.Inside e) (hroom : 4 ≤ s.len.toNat)
    (hunknown : T.bit f (leRead4At m s.frm) = none → cond)
    (hk : ∀ i, T.bit f (leRead4At m s.frm) = some i →
      Judged T m e items (s.behindSuite m f i).params cond (k (s.behindSuite m f i))) :
    Judged T m e (.suite f s.frm :: items) s.params cond
      (if T.status f (leRead4At m s.frm) < 0 then (false, (s.read4 m).2)
      else k (((s.read4 m).2.set f (T.status f (leRead4At m s.frm))).skip 4)) := by
  cases hi : T.bit f (leRead4At m s.frm) with
  | none =>
    rw [if_pos (Suites.status_neg_iff.mpr hi)]
    exact .reject (h.read4 hroom).toClean (hunknown hi)
  | some i =>
    have hnn : ¬ T.status f (leRead4At m s.frm) < 0 := by
      rw [Suites.status_neg_iff, hi]
      exact Option.some_ne_none i
    rw [if_neg hnn, Suites.status_of_some hi]
    apply (hk i hi).prepend (l := [.suite f s.frm]) _ (Walk.from_behindSuite hT hi) Iff.rfl
    intro x hx
    rw [List.mem_singleton.mp hx]
    exact ⟨h.le hroom, by rw [hi]; rfl⟩

end Steps

theorem start_clean (params : CryptoParams) (mode : ℕ) :
    ((Walk.start m params).setAuthmode mode).Clean (2 + (m 1).toNat) ∧
      From T m [] params ((Walk.start m params).setAuthmode mode).params := by
  have hstart : (Walk.start m params).Clean (2 + (m 1).toNat) := by
    refine ⟨?_, List.forall_mem_nil _⟩
    intro i hi
    rw [List.mem_singleton.mp hi]
    omega
  refine ⟨hstart.shift (w := mode) (Int.natCast_nonneg _) rfl rfl, ?_⟩
  intro f i hi
  cases f <;> exact .inl hi

section Wpa

theorem wpaCaps_judged (h : s.Inside e) : Judged wpa m e [] s.params True (wpaCaps m s) := by
  rw [wpaCaps]
  split
  next hroom =>
    have hread : (s.read2 m).2.Inside e := h.read2 hroom
    refine .accept ⟨hread.reads, hread.shifts⟩ trivial (List.forall_mem_nil _) ?_
    intro f i hi
    cases f <;> exact .inl hi
  next => exact .accept h.toClean trivial (List.forall_mem_nil _) From.refl

theorem wpaKeyMgmt_judged (h : s.Inside e) (hroom : 2 ≤ s.len.toNat) :
    Judged wpa m e (listItems .keyMgmt (s.frm + 2) (leRead2At m s.frm)) s.params True
      (wpaKeyMgmt m s) := by
  have hbehind : (s.behind2 m).Inside e := h.behind2 hroom
  have heq : wpaKeyMgmt m s =
      if (s.behind2 m).len.toNat < leRead2At m s.frm * 4 then (false, s.behind2 m)
      else match setSuites wpa m .keyMgmt (leRead2At m s.frm) (s.behind2 m) with
        | (false, s) => (false, s)
        | (true, s) => wpaCaps m s := rfl
  rw [heq]
  split
  · exact .reject hbehind.toClean trivial
  next hfits =>
    rw [← List.append_nil (listItems _ _ _)]
    exact judged_list Suites.wpa_small hbehind (Nat.not_lt.mp hfits) (fun _ => trivial)
      (fun _ t ht => wpaCaps_judged ht.inside)

theorem wpaUcast_judged (h : s.Inside e) (hroom : 2 ≤ s.len.toNat) :
    Judged wpa m e (listItems .ucast (s.frm + 2) (leRead2At m s.frm) ++
        listItems .keyMgmt (s.frm + 4 + 4 * leRead2At m s.frm)
          (leRead2At m (s.frm + 2 + 4 * leRead2At m s.frm)))
      s.params True (wpaUcast m s) := by
  have hbehind : (s.behind2 m).Inside e := h.behind2 hroom
  have heq : wpaUcast m s =
      if (s.behind2 m).len.toNat < leRead2At m s.frm * 4 + 2 then (false, s.behind2 m)
      else match setSuites wpa m .ucast (leRead2At m s.frm) (s.behind2 m) with
        | (false, s) => (false, s)
        | (true, s) => if s.params.ucastcipherset = 0 then (false, s) else wpaKeyMgmt m s := rfl
  rw [heq]
  split
  · exact .reject hbehind.toClean trivial
  next hfits =>
    rw [Nat.not_lt] at hfits
    refine judged_list Suites.wpa_small hbehind (by omega) (fun _ => trivial) fun _ t ht => ?_
    split
    · exact .reject ht.inside.toClean trivial
    · have hfrm : t.frm = s.frm + 2 + 4 * leRead2At m s.frm := ht.frm
      have hleft : 2 ≤ t.len.toNat := by
        have hstop := ht.inside.stop
        have hle := hbehind.le hfits
        change s.frm + 2 + _ ≤ e at hle
        omega
      have hrest := wpaKeyMgmt_judged (m := m) ht.inside hleft
      have hpos : t.frm + 2 = s.frm + 4 + 4 * leRead2At m s.frm := by omega
      rw [hpos, hfrm] at hrest
      exact hrest

theorem wpaMcast_judged (h : s.Inside e) (hroom : 6 ≤ s.len.toNat) :
    Judged wpa m e (.suite .mcast s.frm :: listItems .ucast (s.frm + 6) (leRead2At m (s.frm + 4)) ++
        listItems .keyMgmt (s.frm + 8 + 4 * leRead2At m (s.frm + 4))
          (leRead2At m (s.frm + 6 + 4 * leRead2At m (s.frm + 4))))
      s.params True (wpaMcast m s) := by
  refine judged_suite (k := wpaUcast m) Suites.wpa_small h (by omega) (fun _ => trivial) fun i hi => ?_
  have hroom' : 4 ≤ s.len.toNat := by omega
  apply wpaUcast_judged (s := s.behindSuite m .mcast i) (h.behindSuite hroom' .mcast i)
  rw [Walk.toNat_behindSuite hroom']
  omega

theorem wpaieCheck_safe (m : ℕ → UInt8) (params : CryptoParams) :
    Safe wpa m (2 + (m 1).toNat) (wpaItems m) params (wpaieCheck m params) := by
  obtain ⟨hclean, hbits⟩ := start_clean (T := wpa) (m := m) params authWpa
  have hjudged : Judged wpa m (2 + (m 1).toNat) (wpaItems m)
      ((Walk.start m params).setAuthmode authWpa).params True (wpaieCheck m params) := by
    rw [wpaieCheck]
    split
    · exact .reject hclean trivial
    next hlen =>
      rw [Nat.not_lt] at hlen
      change 14 ≤ (m 1).toNat at hlen
      have hsub : (m 1 - 4).toNat = (m 1).toNat - 4 :=
        UInt8.toNat_sub_of_le _ _ (UInt8.le_iff_toNat_le.mpr (by
          change 4 ≤ (m 1).toNat
          omega))
      have hinside : Walk.Inside (2 + (m 1).toNat) { (Walk.start m params).setAuthmode authWpa with
          frm := 6, len := m 1 - 4 } := by
        refine ⟨⟨hclean.reads, hclean.shifts⟩, ?_⟩
        change 6 + (m 1 - 4).toNat = _
        rw [hsub]
        omega
      have hroom : 2 ≤ (m 1 - 4).toNat := by omega
      change Judged _ _ _ _ _ _ (if leRead2At m 6 ≠ wpaVersion then (false, (Walk.read2 m _).2)
        else wpaMcast m (Walk.behind2 m _))
      split
      · exact .reject (hinside.read2 hroom).toClean trivial
      · apply wpaMcast_judged (hinside.behind2 hroom)
        rw [Walk.toNat_behind2 (by exact hroom), hsub]
        omega
  exact (hjudged.prepend (l := []) (List.forall_mem_nil _) hbits Iff.rfl).safe trivial

end Wpa

section Rsn

def BipKnown (m : ℕ → UInt8) (e o : ℕ) : Prop :=
  o + 4 ≤ e → (rsn.bit .mgmt (leRead4At m o)).isSome = true

theorem le_bipPos (m : ℕ → UInt8) (e o : ℕ) : o ≤ bipPos m e o := by
  rw [bipPos]
  split <;> omega

theorem bipKnown_of_lt {o : ℕ} (h : e < o + 4) : BipKnown m e o := fun hle => by omega

theorem bipItems_of_lt {o : ℕ} (h : e < o + 4) : bipItems e o = [.absent .mgmt] :=
  if_neg (by omega)

theorem rsnBip_judged (h : s.Inside e) :
    Judged rsn m e (bipItems e s.frm) s.params (BipKnown m e s.frm) (rsnBip m s) := by
  have hstop := h.stop
  have habsent : ∀ x ∈ [Item.absent .mgmt], x.Known rsn m e := by
    intro x hx
    rw [List.mem_singleton.mp hx]
    trivial
  rw [rsnBip]
  split
  next hend =>
    have hzero : s.len.toNat = 0 := by rw [hend.1]; rfl
    rw [bipItems_of_lt (by omega)]
    exact .accept (h.set .mgmt (Int.natCast_nonneg _)).toClean (bipKnown_of_lt (by omega)) habsent
      (s.from_set (x := .absent .mgmt) rfl (SuiteSet.dflt_lt .mgmt))
  next =>
    split
    next hroom =>
      have hin : s.frm + 4 ≤ e := h.le hroom
      have hread : ((s.read4 m).2.skip 4).Inside e := (h.read4 hroom).skip (k := 4) hroom
      change Judged _ _ _ _ _ _
        (true, ((s.read4 m).2.skip 4).set .mgmt (rsn.status .mgmt (leRead4At m s.frm)))
      rw [bipItems, if_pos hin]
      cases hi : rsn.bit .mgmt (leRead4At m s.frm) with
      | some i =>
        have hsome : (rsn.bit .mgmt (leRead4At m s.frm)).isSome = true := by rw [hi]; rfl
        rw [Suites.status_of_some hi]
        refine .accept (hread.set .mgmt (Int.natCast_nonneg i)).toClean (fun _ => hsome) ?_
          (Walk.from_set _ (x := .suite .mgmt s.frm) hi (Suites.rsn_small _ _ i hi))
        intro x hx
        rw [List.mem_singleton.mp hx]
        exact ⟨hin, hsome⟩
      | none =>
        have hbad : ¬ BipKnown m e s.frm := by
          intro hc
          have hsome := hc hin
          rw [hi] at hsome
          cases hsome
        refine ⟨fun hc => absurd hc hbad, fun hclean => ?_⟩
        have hneg := hclean.shifts _ (List.mem_append_right _ (List.mem_singleton_self _))
        exact absurd hneg (Int.not_le.mpr (Suites.status_neg_iff.mpr hi))
    next hshort =>
      rw [bipItems_of_lt (by omega)]
      exact .accept h.toClean (bipKnown_of_lt (by omega)) habsent From.refl

theorem rsnPmkid_judged (h : s.Inside e) :
    Judged rsn m e (bipItems e (bipPos m e s.frm)) s.params (BipKnown m e (bipPos m e s.frm))
      (rsnPmkid m s) := by
  have hstop := h.stop
  rw [rsnPmkid, bipPos]
  by_cases hroom : 2 ≤ s.len.toNat
  · have hbehind : (s.behind2 m).Inside e := h.behind2 hroom
    have hlen : (s.behind2 m).len.toNat = s.len.toNat - 2 := Walk.toNat_behind2 hroom
    rw [if_pos (h.le hroom), if_pos hroom]
    change Judged _ _ _ _ _ _ (if leRead2At m s.frm ≠ 0 ∧ (s.behind2 m).len ≠ 0 then
        if leRead2At m s.frm * pmkidLen ≤ (s.behind2 m).len.toNat then
          rsnBip m ((s.behind2 m).skip (leRead2At m s.frm * pmkidLen))
        else (false, s.behind2 m)
      else if leRead2At m s.frm ≠ 0 ∧ (s.behind2 m).len = 0 then (false, s.behind2 m)
      else rsnBip m (s.behind2 m))
    split
    · split
      next hfits => exact rsnBip_judged (hbehind.skip hfits)
      next hfits => exact .reject hbehind.toClean (bipKnown_of_lt (by omega))
    next hcount =>
      split
      next hshort =>
        have hzero : (s.behind2 m).len.toNat = 0 := by rw [hshort.2]; rfl
        have hpos : 0 < leRead2At m s.frm * pmkidLen :=
          Nat.mul_pos (Nat.pos_of_ne_zero hshort.1) (by decide)
        exact .reject hbehind.toClean (bipKnown_of_lt (by omega))
      next hshort =>
        have hzero : leRead2At m s.frm = 0 := by tauto
        rw [hzero, Nat.zero_mul, Nat.add_zero]
        exact rsnBip_judged hbehind
  · rw [if_neg (by omega), if_neg hroom]
    exact rsnBip_judged h

theorem rsnCaps_judged (h : s.Inside e) :
    Judged rsn m e (rsnCapsItems m e s.frm) s.params
      (BipKnown m e (bipPos m e (s.frm + 2))) (rsnCaps m s) := by
  have hstop := h.stop
  have hpos := le_bipPos m e (s.frm + 2)
  rw [rsnCaps, rsnCapsItems]
  split
  next hroom =>
    have hbehind : (s.behind2 m).Inside e := h.behind2 hroom
    have hcaps : (((s.read2 m).2.setCaps (leRead2At m s.frm)).skip 2).Inside e :=
      ⟨⟨hbehind.reads, hbehind.shifts⟩, hbehind.stop⟩
    refine Judged.prepend (l := []) (rsnPmkid_judged hcaps) (List.forall_mem_nil _) ?_ Iff.rfl
    intro f i hi
    cases f <;> exact .inl hi
  next hroom =>
    split
    next => exact .reject h.toClean (bipKnown_of_lt (by omega))
    next hend =>
      have hzero : s.len = 0 := by
        by_contra hne
        exact hend ⟨hne, by omega⟩
      have hlen : s.len.toNat = 0 := by rw [hzero]; rfl
      have hnear : bipPos m e s.frm = s.frm := if_neg (by omega)
      have hrest := rsnPmkid_judged (m := m) h
      rw [hnear, bipItems_of_lt (by omega)] at hrest
      rw [bipItems_of_lt (by omega)]
      exact hrest.prepend (l := []) (List.forall_mem_nil _) From.refl
        (iff_of_true (bipKnown_of_lt (by omega)) (bipKnown_of_lt (by omega)))

theorem rsnList_eq : rsnList m s f =
    let r := if leRead2At m s.frm ≠ 0 then
        if (s.behind2 m).len.toNat < leRead2At m s.frm * 4 then (false, s.behind2 m)
        else setSuites rsn m f (leRead2At m s.frm) (s.behind2 m)
      else (true, (s.behind2 m).set f f.dflt)
    (r.1 && f.get r.2.params != 0, r.2) := rfl

theorem rsnList_judged {rest : ℕ → List Item} {cond : Prop} {k : Walk → Bool × Walk}
    (h : s.Inside e) (hroom : 2 ≤ s.len.toNat)
    (hunknown : ¬ AllKnown rsn m f (s.frm + 2) (leRead2At m s.frm) → cond)
    (hshort : e < s.frm + 2 + 4 * leRead2At m s.frm → cond)
    (hk : ∀ t : Walk, t.Inside e → t.frm = s.frm + 2 + 4 * leRead2At m s.frm →
      AllKnown rsn m f (s.frm + 2) (leRead2At m s.frm) →
        Judged rsn m e (rest t.frm) t.params cond (k t)) :
    Judged rsn m e (rsnListItems m f rest s.frm) s.params cond
      (match rsnList m s f with | (false, s) => (false, s) | (true, s) => k s) := by
  have hstop := h.stop
  have hbehind : (s.behind2 m).Inside e := h.behind2 hroom
  have hlen : (s.behind2 m).len.toNat = s.len.toNat - 2 := Walk.toNat_behind2 hroom
  rw [rsnList_eq, rsnListItems]
  dsimp only
  by_cases hzero : leRead2At m s.frm = 0
  · have hset := hbehind.set f (Int.natCast_nonneg f.dflt)
    have hne : (f.get ((s.behind2 m).set f f.dflt).params != 0) = true :=
      bne_iff_ne.mpr (Walk.set_ne_zero _ f f.dflt_lt)
    have hrest := hk _ hset (by rw [hzero]; rfl)
      (fun j hj => absurd (hzero ▸ hj) (Nat.not_lt_zero j))
    rw [if_pos hzero, if_neg (not_not.mpr hzero), hne, Bool.and_self]
    refine hrest.prepend (l := [.absent f]) (List.forall_mem_singleton.mpr trivial) ?_ Iff.rfl
    exact Walk.from_set _ (x := .absent f) rfl f.dflt_lt
  rw [if_neg hzero, if_pos hzero]
  by_cases hfits : (s.behind2 m).len.toNat < leRead2At m s.frm * 4
  · rw [if_pos hfits, Bool.false_and]
    exact .reject hbehind.toClean (hshort (by omega))
  rw [if_neg hfits]
  rw [Nat.not_lt] at hfits
  by_cases hknown : AllKnown rsn m f (s.frm + 2) (leRead2At m s.frm)
  · obtain ⟨t, ht, hlist⟩ := setSuites_known Suites.rsn_small hbehind hfits hknown
    have hne : (f.get t.params != 0) = true :=
      bne_iff_ne.mpr fun hc => hzero (hlist.zero_iff.mp hc).1
    have hfrm : t.frm = s.frm + 2 + 4 * leRead2At m s.frm := hlist.frm
    have hrest := hk t hlist.inside hfrm hknown
    rw [hfrm] at hrest
    rw [ht, hne, Bool.and_self]
    exact hrest.prepend (hknown.items_known (by omega)) hlist.bits Iff.rfl
  · obtain ⟨t, ht, hclean⟩ := setSuites_unknown (T := rsn) hbehind hfits hknown
    rw [ht, Bool.false_and]
    exact .reject hclean (hunknown hknown)

def KeyMgmtCond (m : ℕ → UInt8) (e o : ℕ) : Prop :=
  AllKnown rsn m .keyMgmt (o + 2) (leRead2At m o) →
    BipKnown m e (bipPos m e (o + 2 + 4 * leRead2At m o + 2))

theorem keyMgmtCond_of_lt {o : ℕ} (h : e < o + 2 + 4 * leRead2At m o + 6) : KeyMgmtCond m e o := by
  intro _
  apply bipKnown_of_lt
  have := le_bipPos m e (o + 2 + 4 * leRead2At m o + 2)
  omega

theorem rsnKeyMgmt_judged (h : s.Inside e) :
    Judged rsn m e (rsnKeyMgmtItems m e s.frm) s.params (KeyMgmtCond m e s.frm)
      (rsnKeyMgmt m s) := by
  have hstop := h.stop
  rw [rsnKeyMgmt, rsnKeyMgmtItems]
  by_cases hend : s.len = 0
  · have hzero : s.len.toNat = 0 := by rw [hend]; rfl
    rw [if_pos hend, if_pos (by omega)]
    exact .accept (h.set .keyMgmt (Int.natCast_nonneg _)).toClean (keyMgmtCond_of_lt (by omega))
      (List.forall_mem_singleton.mpr trivial)
      (s.from_set (x := .absent .keyMgmt) rfl (SuiteSet.dflt_lt .keyMgmt))
  have hpos : s.len.toNat ≠ 0 := fun hc => hend (UInt8.toNat_inj.mp hc)
  rw [if_neg hend, if_neg (by omega)]
  split
  next hshort => exact .reject h.toClean (keyMgmtCond_of_lt (by omega))
  next hroom =>
    refine rsnList_judged h (by omega) (fun hno hall => absurd hall hno)
      (fun hlt => keyMgmtCond_of_lt (by omega)) fun t ht hfrm hknown => ?_
    obtain ⟨hsafe, hcond⟩ := rsnCaps_judged (m := m) ht
    rw [hfrm] at hsafe hcond ⊢
    exact ⟨fun hc => hsafe (hc hknown), fun hclean _ => hcond hclean⟩

def UcastCond (m : ℕ → UInt8) (e o : ℕ) : Prop :=
  AllKnown rsn m .ucast (o + 2) (leRead2At m o) →
    KeyMgmtCond m e (o + 2 + 4 * leRead2At m o)

theorem ucastCond_of_lt {o : ℕ} (h : e < o + 2 + 4 * leRead2At m o + 6) : UcastCond m e o :=
  fun _ => keyMgmtCond_of_lt (by omega)

theorem rsnUcast_judged (h : s.Inside e) :
    Judged rsn m e (rsnUcastItems m e s.frm) s.params (UcastCond m e s.frm)
      (rsnUcast m s) := by
  have hstop := h.stop
  rw [rsnUcast, rsnUcastItems]
  by_cases hend : s.len = 0
  · have hzero : s.len.toNat = 0 := by rw [hend]; rfl
    have hucast := h.set .ucast (Int.natCast_nonneg SuiteSet.ucast.dflt)
    have hbits := (s.from_set (T := rsn) (m := m) (x := .absent .ucast) rfl
      (SuiteSet.dflt_lt .ucast)).trans (Walk.from_set _ (x := .absent .keyMgmt) rfl
        (SuiteSet.dflt_lt .keyMgmt))
    rw [if_pos hend, if_pos (by omega)]
    refine .accept (hucast.set .keyMgmt (Int.natCast_nonneg _)).toClean
      (ucastCond_of_lt (by omega)) ?_ hbits
    exact List.forall_mem_cons.mpr ⟨trivial, List.forall_mem_singleton.mpr trivial⟩
  have hpos : s.len.toNat ≠ 0 := fun hc => hend (UInt8.toNat_inj.mp hc)
  rw [if_neg hend, if_neg (by omega)]
  split
  next hshort => exact .reject h.toClean (ucastCond_of_lt (by omega))
  next hroom =>
    refine rsnList_judged h (by omega) (fun hno hall => absurd hall hno)
      (fun hlt => ucastCond_of_lt (by omega)) fun t ht hfrm hknown => ?_
    obtain ⟨hsafe, hcond⟩ := rsnKeyMgmt_judged (m := m) ht
    rw [hfrm] at hsafe hcond ⊢
    exact ⟨fun hc => hsafe (hc hknown), fun hclean _ => hcond hclean⟩

def keyMgmtPos (m : ℕ → UInt8) : ℕ := 10 + 4 * leRead2At m 8

def mgmtPos (m : ℕ → UInt8) (e : ℕ) : ℕ :=
  bipPos m e (keyMgmtPos m + 2 + 4 * leRead2At m (keyMgmtPos m) + 2)

/-- The suites are known but for the group management cipher, which is in the element. -/
structure RsnUnknownMgmt (m : ℕ → UInt8) (e : ℕ) : Prop where
  version : leRead2At m 2 = rsnVersion
  mcast : (rsn.bit .mcast (leRead4At m 4)).isSome = true
  ucast : AllKnown rsn m .ucast 10 (leRead2At m 8)
  keyMgmt : AllKnown rsn m .keyMgmt (keyMgmtPos m + 2) (leRead2At m (keyMgmtPos m))
  mgmt_in : mgmtPos m e + 4 ≤ e
  mgmt : rsn.bit .mgmt (leRead4At m (mgmtPos m e)) = none

theorem not_rsnUnknownMgmt_iff : ¬ RsnUnknownMgmt m e ↔
    (leRead2At m 2 = rsnVersion → (rsn.bit .mcast (leRead4At m 4)).isSome = true →
      UcastCond m e 8) := by
  constructor
  · intro h hversion hmcast hucast hkey hin
    by_contra hnone
    exact h ⟨hversion, hmcast, hucast, hkey, hin, Option.not_isSome_iff_eq_none.mp hnone⟩
  · rintro h ⟨hversion, hmcast, hucast, hkey, hin, hnone⟩
    have hsome := h hversion hmcast hucast hkey hin
    change (rsn.bit .mgmt (leRead4At m (mgmtPos m e))).isSome = true at hsome
    rw [hnone] at hsome
    cases hsome

theorem rsnMcast_judged (h : s.Inside e) (hfrm : s.frm = 4) :
    Judged rsn m e (rsnItems m e) s.params
      ((rsn.bit .mcast (leRead4At m 4)).isSome = true → UcastCond m e 8) (rsnMcast m s) := by
  have hstop := h.stop
  rw [rsnMcast, rsnItems]
  by_cases hend : s.len = 0
  · have hzero : s.len.toNat = 0 := by rw [hend]; rfl
    have hmcast := h.set .mcast (Int.natCast_nonneg SuiteSet.mcast.dflt)
    have hucast := hmcast.set .ucast (Int.natCast_nonneg SuiteSet.ucast.dflt)
    have hbits := ((s.from_set (T := rsn) (m := m) (x := .absent .mcast) rfl
      (SuiteSet.dflt_lt .mcast)).trans (Walk.from_set _ (x := .absent .ucast) rfl
        (SuiteSet.dflt_lt .ucast))).trans (Walk.from_set _ (x := .absent .keyMgmt) rfl
          (SuiteSet.dflt_lt .keyMgmt))
    rw [if_pos hend, if_pos (by omega)]
    refine .accept (hucast.set .keyMgmt (Int.natCast_nonneg _)).toClean
      (fun _ => ucastCond_of_lt (by omega)) ?_ hbits
    exact List.forall_mem_cons.mpr
      ⟨trivial, List.forall_mem_cons.mpr ⟨trivial, List.forall_mem_singleton.mpr trivial⟩⟩
  have hpos : s.len.toNat ≠ 0 := fun hc => hend (UInt8.toNat_inj.mp hc)
  have hitem : Item.suite .mcast 4 = .suite .mcast s.frm := by rw [hfrm]
  have hsel : leRead4At m 4 = leRead4At m s.frm := by rw [hfrm]
  rw [if_neg hend, if_neg (by omega), hitem, hsel]
  split
  next hshort => exact .reject h.toClean (fun _ => ucastCond_of_lt (by omega))
  next hroom =>
    rw [Nat.not_lt] at hroom
    refine judged_suite (k := fun s => if s.params.mcastcipherset = 0 then (false, s)
      else rsnUcast m s) Suites.rsn_small h hroom ?_ fun i hi => ?_
    · intro hnone hsome
      rw [hnone] at hsome
      cases hsome
    · have hne : (s.behindSuite m .mcast i).params.mcastcipherset ≠ 0 :=
        Walk.set_ne_zero (s.read4 m).2 .mcast (Suites.rsn_small _ _ i hi)
      have hpos : (s.behindSuite m .mcast i).frm = 8 := by
        change s.frm + 4 = 8
        omega
      obtain ⟨hsafe, hcond⟩ := rsnUcast_judged (m := m) (h.behindSuite hroom .mcast i)
      rw [hpos] at hsafe hcond
      rw [if_neg hne]
      exact ⟨fun hc => hsafe (hc (by rw [hi]; rfl)), fun hclean _ => hcond hclean⟩

theorem rsnieCheck_safe_iff (m : ℕ → UInt8) (params : CryptoParams) :
    Safe rsn m (2 + (m 1).toNat) (rsnItems m (2 + (m 1).toNat)) CryptoParams.zero
        (rsnieCheck m params) ↔ ¬ RsnUnknownMgmt m (2 + (m 1).toNat) := by
  rw [not_rsnUnknownMgmt_iff]
  apply Judged.safe_iff
  obtain ⟨hclean, hbits⟩ := start_clean (T := rsn) (m := m) CryptoParams.zero authRsna
  have hshort : (m 1).toNat < 2 → UcastCond m (2 + (m 1).toNat) 8 := fun h =>
    ucastCond_of_lt (by omega)
  rw [rsnieCheck]
  split
  next hlen =>
    refine .reject ⟨?_, List.forall_mem_nil _⟩ fun _ _ => hshort hlen
    intro i hi
    rw [List.mem_singleton.mp hi]
    omega
  next hlen =>
    rw [Nat.not_lt] at hlen
    change 2 ≤ (m 1).toNat at hlen
    have hinside : Walk.Inside (2 + (m 1).toNat)
        { (Walk.start m CryptoParams.zero).setAuthmode authRsna with frm := 2 } :=
      ⟨⟨hclean.reads, hclean.shifts⟩, rfl⟩
    change Judged _ _ _ _ _ _ (if leRead2At m 2 ≠ rsnVersion then (false, (Walk.read2 m _).2)
      else rsnMcast m (Walk.behind2 m
        { (Walk.start m CryptoParams.zero).setAuthmode authRsna with frm := 2 }))
    split
    next hversion =>
      exact .reject (hinside.read2 hlen).toClean fun hc => absurd hc hversion
    next hversion =>
      rw [not_not] at hversion
      obtain ⟨hsafe, hcond⟩ := rsnMcast_judged (m := m) (hinside.behind2 hlen) rfl
      refine Judged.prepend (l := []) ⟨hsafe, hcond⟩ (List.forall_mem_nil _) hbits ?_
      exact ⟨fun hc => hc hversion, fun hc _ => hc⟩

end Rsn

section Wapi

theorem wapiMcast_judged (h : s.Inside e) (hroom : 2 ≤ s.len.toNat) :
    Judged wapi m e [.suite .mcast s.frm] s.params (s.frm + 4 ≤ e) (wapiMcast m s) := by
  have hstop := h.stop
  by_cases hin : 4 ≤ s.len.toNat
  · have hle : s.frm + 4 ≤ e := h.le hin
    refine judged_suite (k := fun s => (true, s)) Suites.wapi_small h hin (fun _ => hle) fun i _ => ?_
    exact .accept (h.behindSuite hin .mcast i).toClean hle (List.forall_mem_nil _) From.refl
  · refine ⟨fun hle => by omega, fun hclean => ?_⟩
    have hreads : s.frm + 3 ∈ (wapiMcast m s).2.reads := by
      rw [wapiMcast, Walk.read4]
      dsimp only
      split <;> simp [Walk.set, Walk.skip]
    have hlt := hclean.reads _ hreads
    omega

/-- From the pairwise ciphers on, all is taken, and less than a suite is left behind them. -/
structure WapiCut (m : ℕ → UInt8) (e o : ℕ) (params : CryptoParams) : Prop where
  ucast : AllKnown wapi m .ucast (o + 2) (leRead2At m o)
  some_ucast : leRead2At m o ≠ 0 ∨ params.ucastcipherset ≠ 0
  left : o + 2 + 4 * leRead2At m o + 2 ≤ e
  cut : e < o + 2 + 4 * leRead2At m o + 4

theorem wapiUcast_judged (h : s.Inside e) (hroom : 2 ≤ s.len.toNat) :
    Judged wapi m e (listItems .ucast (s.frm + 2) (leRead2At m s.frm) ++
        [.suite .mcast (s.frm + 2 + 4 * leRead2At m s.frm)])
      s.params (¬ WapiCut m e s.frm s.params) (wapiUcast m s) := by
  have hstop := h.stop
  have hbehind : (s.behind2 m).Inside e := h.behind2 hroom
  have hlen : (s.behind2 m).len.toNat = s.len.toNat - 2 := Walk.toNat_behind2 hroom
  have heq : wapiUcast m s =
      if (s.behind2 m).len.toNat < leRead2At m s.frm * 4 + 2 then (false, s.behind2 m)
      else match setSuites wapi m .ucast (leRead2At m s.frm) (s.behind2 m) with
        | (false, s) => (false, s)
        | (true, s) => if s.params.ucastcipherset = 0 then (false, s) else wapiMcast m s := rfl
  rw [heq]
  split
  next hshort =>
    refine .reject hbehind.toClean fun hcut => ?_
    have := hcut.left
    omega
  next hfits =>
    rw [Nat.not_lt] at hfits
    refine judged_list Suites.wapi_small hbehind (by omega) (fun hno hcut => hno hcut.ucast)
      fun hknown t ht => ?_
    have hfrm : t.frm = s.frm + 2 + 4 * leRead2At m s.frm := ht.frm
    have hzero : t.params.ucastcipherset = 0 ↔
        leRead2At m s.frm = 0 ∧ s.params.ucastcipherset = 0 := ht.zero_iff
    have htstop := ht.inside.stop
    split
    next hnone =>
      refine .reject ht.inside.toClean fun hcut => ?_
      obtain ⟨hn, hp⟩ := hzero.mp hnone
      exact hcut.some_ucast.elim (fun hc => hc hn) (fun hc => hc hp)
    next hsome =>
      have hmcast := wapiMcast_judged (m := m) ht.inside (by omega)
      rw [hfrm] at hmcast
      refine hmcast.prepend (l := []) (List.forall_mem_nil _) From.refl ?_
      constructor
      · intro hno
        by_contra hcut
        exact hno ⟨hknown, not_and_or.mp (fun hc => hsome (hzero.mpr hc)), by omega, by omega⟩
      · intro hle hcut
        have := hcut.cut
        omega

/-- The element is taken up to the group cipher, for which less than a suite is left. -/
structure WapiShort (m : ℕ → UInt8) (e : ℕ) (params : CryptoParams) : Prop where
  length : wapiIeLen + 2 ≤ e
  version : leRead2At m 2 = wapiVersion
  keyMgmt : AllKnown wapi m .keyMgmt 6 (leRead2At m 4)
  cut : WapiCut m e (6 + 4 * leRead2At m 4) params

theorem wapiKeyMgmt_judged (h : s.Inside e) (hroom : 2 ≤ s.len.toNat) (hfrm : s.frm = 4) :
    Judged wapi m e (wapiItems m) s.params
      (AllKnown wapi m .keyMgmt 6 (leRead2At m 4) →
        ¬ WapiCut m e (6 + 4 * leRead2At m 4) s.params) (wapiKeyMgmt m s) := by
  have hstop := h.stop
  have hbehind : (s.behind2 m).Inside e := h.behind2 hroom
  have hlen : (s.behind2 m).len.toNat = s.len.toNat - 2 := Walk.toNat_behind2 hroom
  have hpos : (s.behind2 m).frm = 6 := by
    change s.frm + 2 = 6
    omega
  have heq : wapiKeyMgmt m s =
      if (s.behind2 m).len.toNat < leRead2At m s.frm * 4 + 2 then (false, s.behind2 m)
      else match setSuites wapi m .keyMgmt (leRead2At m s.frm) (s.behind2 m) with
        | (false, s) => (false, s)
        | (true, s) => wapiUcast m s := rfl
  rw [heq, hfrm]
  split
  next hshort =>
    refine .reject hbehind.toClean fun _ hcut => ?_
    have := hcut.left
    omega
  next hfits =>
    rw [Nat.not_lt] at hfits
    have hlist : listItems .keyMgmt 6 (leRead2At m 4) =
        listItems .keyMgmt (s.behind2 m).frm (leRead2At m 4) := by rw [hpos]
    rw [wapiItems, List.append_assoc, hlist]
    refine judged_list Suites.wapi_small hbehind (by omega)
      (fun hno hall => absurd (by rwa [hpos]) hno) fun hknown t ht => ?_
    rw [hpos] at hknown
    have htfrm : t.frm = 6 + 4 * leRead2At m 4 := by rw [ht.frm, hpos]
    have htstop := ht.inside.stop
    have hsame : t.params.ucastcipherset = s.params.ucastcipherset := ht.other .ucast (by decide)
    have hrest := wapiUcast_judged (m := m) ht.inside (by omega)
    have hnext : 6 + 4 * leRead2At m 4 + 2 = 8 + 4 * leRead2At m 4 := by omega
    rw [htfrm, hnext] at hrest
    refine hrest.prepend (l := []) (List.forall_mem_nil _) From.refl ?_
    constructor
    · intro hno hcut
      exact hno hknown ⟨hcut.ucast, by rw [← hsame]; exact hcut.some_ucast, hcut.left, hcut.cut⟩
    · intro hno _ hcut
      exact hno ⟨hcut.ucast, by rw [hsame]; exact hcut.some_ucast, hcut.left, hcut.cut⟩

theorem wapiieCheck_safe_iff (m : ℕ → UInt8) (params : CryptoParams) :
    Safe wapi m (2 + (m 1).toNat) (wapiItems m) params (wapiieCheck m params) ↔
      ¬ WapiShort m (2 + (m 1).toNat) params := by
  apply Judged.safe_iff
  obtain ⟨hclean, hbits⟩ := start_clean (T := wapi) (m := m) params authWapi
  have hjudged : Judged wapi m (2 + (m 1).toNat) (wapiItems m)
      ((Walk.start m params).setAuthmode authWapi).params
      (¬ WapiShort m (2 + (m 1).toNat) params) (wapiieCheck m params) := by
    rw [wapiieCheck]
    split
    next hlen =>
      change (m 1).toNat < 20 at hlen
      refine .reject hclean fun hshort => ?_
      have hlength : 20 + 2 ≤ 2 + (m 1).toNat := hshort.length
      omega
    next hlen =>
      rw [Nat.not_lt] at hlen
      change 20 ≤ (m 1).toNat at hlen
      have hinside : Walk.Inside (2 + (m 1).toNat)
          { (Walk.start m params).setAuthmode authWapi with frm := 2 } :=
        ⟨⟨hclean.reads, hclean.shifts⟩, rfl⟩
      have hroom : 2 ≤ (m 1).toNat := by omega
      change Judged _ _ _ _ _ _ (if leRead2At m 2 ≠ wapiVersion then
          (false, Walk.behind2 m { (Walk.start m params).setAuthmode authWapi with frm := 2 })
        else wapiKeyMgmt m (Walk.behind2 m
          { (Walk.start m params).setAuthmode authWapi with frm := 2 }))
      split
      next hversion =>
        exact .reject (hinside.behind2 hroom).toClean fun hshort => hversion hshort.version
      next hversion =>
        rw [not_not] at hversion
        have hleft : 2 ≤ (Walk.behind2 m
            { (Walk.start m params).setAuthmode authWapi with frm := 2 }).len.toNat := by
          rw [Walk.toNat_behind2 (by exact hroom)]
          change 2 ≤ (m 1).toNat - 2
          omega
        have hrest := wapiKeyMgmt_judged (m := m) (hinside.behind2 hroom) hleft rfl
        refine hrest.prepend (l := []) (List.forall_mem_nil _) From.refl ?_
        constructor
        · intro hno hall hcut
          exact hno ⟨by change 20 + 2 ≤ _; omega, hversion, hall,
            ⟨hcut.ucast, hcut.some_ucast, hcut.left, hcut.cut⟩⟩
        · rintro hno ⟨-, -, hall, hcut⟩
          exact hno hall ⟨hcut.ucast, hcut.some_ucast, hcut.left, hcut.cut⟩
  exact hjudged.prepend (l := []) (List.forall_mem_nil _) hbits Iff.rfl

/-- A WAPI element of the least length that is taken, with one key management and two pairwise
ciphers. -/
def shortWapiIe : Bytes :=
  [68, 20, 1, 0, 1, 0, 0x00, 0x14, 0x72, 2, 2, 0, 0x00, 0x14, 0x72, 1, 0x00, 0x14, 0x72, 1, 0x00,
    0x14]

/-- The element ends at 22. -/
example : (wapiieCheck (shortWapiIe.getD · 0) CryptoParams.zero).2.reads.getLast? = some 23 := by
  decide +kernel

end Wapi

/-- The three checks, for every content of memory from the first byte of an element on. -/
theorem checks_safe_iff (m : ℕ → UInt8) (params : CryptoParams) :
    Safe wpa m (2 + (m 1).toNat) (wpaItems m) params (wpaieCheck m params) ∧
      (Safe rsn m (2 + (m 1).toNat) (rsnItems m (2 + (m 1).toNat)) CryptoParams.zero
          (rsnieCheck m params) ↔ ¬ RsnUnknownMgmt m (2 + (m 1).toNat)) ∧
      (Safe wapi m (2 + (m 1).toNat) (wapiItems m) params (wapiieCheck m params) ↔
        ¬ WapiShort m (2 + (m 1).toNat) params) :=
  ⟨wpaieCheck_safe m params, rsnieCheck_safe_iff m params, wapiieCheck_safe_iff m params⟩

/-- An RSN element with CCMP and PSK and, behind no PMKID, the suite 1 for the group management
cipher. -/
def unknownMgmtIe : Bytes :=
  [48, 26, 1, 0, 0x00, 0x0f, 0xac, 4, 1, 0, 0x00, 0x0f, 0xac, 4, 1, 0, 0x00, 0x0f, 0xac, 2, 0x80, 0,
    0, 0, 0x00, 0x0f, 0xac, 1]

theorem not_checks_safe : ¬ ∀ (m : ℕ → UInt8) (params : CryptoParams),
    Safe wpa m (2 + (m 1).toNat) (wpaItems m) params (wpaieCheck m params) ∧
      Safe rsn m (2 + (m 1).toNat) (rsnItems m (2 + (m 1).toNat)) CryptoParams.zero
        (rsnieCheck m params) ∧
      Safe wapi m (2 + (m 1).toNat) (wapiItems m) params (wapiieCheck m params) := by
  intro h
  have hshifts := (h (unknownMgmtIe.getD · 0) CryptoParams.zero).2.1.clean.shifts
  exact absurd (hshifts (-1) (by decide +kernel)) (by decide)

end KernelModules.IeWalk
