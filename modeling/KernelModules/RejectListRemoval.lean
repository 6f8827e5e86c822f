import KernelModules.BestScan
import KernelModules.RejectListAging
import Mathlib.Tactic

/-!
# Which entry makes room

The lists are tried from the least to the most important one. Within a list that is the only one
an entry is in, the time an entry has left, or its age, is read off the clock as the scan comes to
it. What the scan keeps is compared in milliseconds that are counted without bounds; this needs the
scan to tell every entry from none, that is, a time left or an age that is not zero.
-/

namespace KernelModules.RejectList

def byAge : RejectApType → Bool
  | .userspaceBlacklist | .driverMonitor => true
  | .userspaceAvoid | .driverAvoid | .driverBlacklist | .driverRssiReject => false

/-- How long an entry stays, in milliseconds. -/
def limit (cfg : BlmConfig) (type : RejectApType) (e : RejectAp) : ℕ :=
  match type with
  | .userspaceAvoid | .driverAvoid => 60000 * cfg.avoidListExipryTime.toNat
  | .driverBlacklist => 60000 * cfg.blackListExipryTime.toNat
  | .driverRssiReject =>
    if e.rssiRejectParams.retryDelay = 0 then 3600000 else e.rssiRejectParams.retryDelay.toNat
  | .userspaceBlacklist | .driverMonitor => 0

def age (type : RejectApType) (e : RejectAp) (now : Time) : ℤ := now.toNat - (e.stamp type).toNat

def remaining (cfg : BlmConfig) (type : RejectApType) (e : RejectAp) (now : Time) : ℤ :=
  limit cfg type e - age type e now

/-- What the scan is told is not 0, which it would take for no entry yet. A longer time than
`int32_t` holds comes out as 0. -/
def Told (cfg : BlmConfig) (type : RejectApType) (e : RejectAp) (now : Time) : Prop :=
  if byAge type then 0 < age type e now
  else 0 < remaining cfg type e now ∧
    (type = .driverRssiReject → remaining cfg type e now < 2 ^ 31)
deriving Decidable

def OlderThan (cfg : BlmConfig) (type : RejectApType) (a b : RejectAp × Time) : Prop :=
  if byAge type then age type b.1 b.2 ≤ age type a.1 a.2
  else remaining cfg type a.1 a.2 ≤ remaining cfg type b.1 b.2

def measure (cfg : BlmConfig) (type : RejectApType) (e : RejectAp) (now : Time) : ℤ :=
  if byAge type then age type e now else remaining cfg type e now

theorem Told.pos {cfg : BlmConfig} {type : RejectApType} {e : RejectAp} {now : Time}
    (h : Told cfg type e now) : 0 < measure cfg type e now := by
  unfold Told at h
  unfold measure
  split_ifs at h ⊢ with hb
  · exact h
  · exact h.1

section Deltas

variable {cfg : BlmConfig} {now : Time} {e : RejectAp}

theorem toNat_minutesToMs {t : Time} (h : t.toNat ≤ 600) :
    (minutesToMs t).toNat = 60000 * t.toNat := by
  have hms : (t * 1000 * 60).toNat = t.toNat * 1000 % 2 ^ 64 * 60 % 2 ^ 64 := by
    rw [BitVec.toNat_mul, BitVec.toNat_mul]
    rfl
  unfold minutesToMs secondsToMs
  omega

theorem toNat_age {stamp : Time} (h : stamp.toNat ≤ now.toNat) :
    ((now - stamp).toNat : ℤ) = now.toNat - stamp.toNat := by
  rw [BitVec.toNat_sub_of_le h]
  omega

theorem toNat_left (expiry : Time) {stamp : Time} (h : stamp.toNat ≤ now.toNat)
    (hleft : 0 < (expiry.toNat : ℤ) - (now.toNat - stamp.toNat)) :
    ((expiry - (now - stamp)).toNat : ℤ) = expiry.toNat - (now.toNat - stamp.toNat) := by
  have hage := toNat_age h
  have hle : (now - stamp).toNat ≤ expiry.toNat := by omega
  rw [BitVec.toNat_sub_of_le hle]
  omega

theorem toNat_disallowedTime (hf : Fresh now e) (h : Told cfg .driverRssiReject e now) :
    ((disallowedTime now e).toNat : ℤ) = remaining cfg .driverRssiReject e now := by
  obtain ⟨hpos, hlt⟩ := h
  have hlt := hlt rfl
  obtain ⟨expiry, hexpiry⟩ : ∃ x : Time, x = (if e.rssiRejectParams.retryDelay = 0 then
      minutesToMs rssiTimeoutValue else e.rssiRejectParams.retryDelay.setWidth 64) := ⟨_, rfl⟩
  have hlimit : expiry.toNat = limit cfg .driverRssiReject e := by
    rw [hexpiry]
    unfold limit
    split_ifs
    · rfl
    · simp only [BitVec.toNat_setWidth]
      omega
  have hleft := toNat_left expiry (hf .driverRssiReject)
    (by simp only [remaining, age] at hpos; omega)
  have hrem : remaining cfg .driverRssiReject e now =
      ((expiry - (now - e.apTimestamp.rssiRejectTimestamp)).toNat : ℤ) := by
    simp only [remaining, age]
    rw [← hlimit]
    exact hleft.symm
  unfold disallowedTime
  simp only [← hexpiry]
  rw [hrem] at hpos hlt ⊢
  generalize expiry - (now - e.apTimestamp.rssiRejectTimestamp) = d at *
  have hd : (d.setWidth 32).toNat = d.toNat := by
    simp only [BitVec.toNat_setWidth]
    omega
  have hint : (d.setWidth 32).toInt = d.toNat := by
    rw [BitVec.toInt_eq_toNat_of_lt (by omega), hd]
  rw [if_neg (by omega)]
  simp only [BitVec.toNat_setWidth, hd]
  omega

theorem toNat_blmGetDeltaOfBssid {type : RejectApType} (hf : Fresh now e)
    (h : Told cfg type e now) :
    ((blmGetDeltaOfBssid cfg type now e).toNat : ℤ) = measure cfg type e now := by
  have havoid := cfg.avoid_range
  have hblack := cfg.black_range
  have hpos := h.pos
  have hstamp := hf type
  cases type with
  | userspaceAvoid =>
    have hms := toNat_minutesToMs (t := cfg.avoidListExipryTime) (by omega)
    have hleft := toNat_left (minutesToMs cfg.avoidListExipryTime) hstamp
    simp only [measure, byAge, remaining, limit, age, ← hms] at hpos ⊢
    exact hleft hpos
  | driverAvoid =>
    have hms := toNat_minutesToMs (t := cfg.avoidListExipryTime) (by omega)
    have hleft := toNat_left (minutesToMs cfg.avoidListExipryTime) hstamp
    simp only [measure, byAge, remaining, limit, age, ← hms] at hpos ⊢
    exact hleft hpos
  | driverBlacklist =>
    have hms := toNat_minutesToMs (t := cfg.blackListExipryTime) (by omega)
    have hleft := toNat_left (minutesToMs cfg.blackListExipryTime) hstamp
    simp only [measure, byAge, remaining, limit, age, ← hms] at hpos ⊢
    exact hleft hpos
  | driverRssiReject => exact toNat_disallowedTime hf h
  | userspaceBlacklist => exact toNat_age hstamp
  | driverMonitor => exact toNat_age hstamp

end Deltas

section Scans

variable (clk : ℕ → Time) (cfg : BlmConfig)

/-- The entries that are in the list of the type only: the position of each, and the reading at
which the scan comes to it. -/
def scanned (type : RejectApType) : List RejectAp → ℕ → ℕ → List (ℕ × RejectAp × Time)
  | [], _, _ => []
  | e :: es, i, n =>
    if e.presentOnlyInListType type then (i, e, clk n) :: scanned type es (i + 1) (n + 1)
    else scanned type es (i + 1) n

variable {clk cfg} {type : RejectApType} {l : List RejectAp} {i n : ℕ}

theorem mem_scanned {p : ℕ × RejectAp × Time} (h : p ∈ scanned clk type l i n) :
    ∃ j m, p = (i + j, p.2.1, clk m) ∧ l[j]? = some p.2.1 ∧
      p.2.1.presentOnlyInListType type ∧ n ≤ m := by
  induction l generalizing i n with
  | nil => cases h
  | cons e es ih =>
    unfold scanned at h
    split_ifs at h with honly
    · rcases List.mem_cons.mp h with rfl | h
      · exact ⟨0, n, rfl, rfl, honly, le_refl n⟩
      · obtain ⟨j, m, hp, hj, ho, hm⟩ := ih h
        refine ⟨j + 1, m, ?_, hj, ho, by omega⟩
        rw [hp]
        simp only [Prod.mk.injEq, and_true]
        omega
    · obtain ⟨j, m, hp, hj, ho, hm⟩ := ih h
      refine ⟨j + 1, m, ?_, hj, ho, hm⟩
      rw [hp]
      simp only [Prod.mk.injEq, and_true]
      omega

theorem scanned_eq_nil_iff :
    scanned clk type l i n = [] ↔ ∀ e ∈ l, e.presentOnlyInListType type = false := by
  induction l generalizing i n with
  | nil => simp [scanned]
  | cons e es ih =>
    unfold scanned
    split_ifs with honly
    · simp [honly]
    · simp [honly, ih]

theorem oldestIn_eq (o : Oldest) :
    oldestIn clk cfg type l i o =
      let r := BestScan.scan (blmIsOldestEntry type) (o.entry, o.delta)
        ((scanned clk type l i o.tick).map fun p =>
          (p.1, blmGetDeltaOfBssid cfg type p.2.2 p.2.1))
      ⟨r.1, r.2, o.tick + (scanned clk type l i o.tick).length⟩ := by
  induction l generalizing i o with
  | nil => rfl
  | cons e es ih =>
    unfold oldestIn scanned
    split_ifs with honly
    · simp only [List.map_cons, List.length_cons, BestScan.scan]
      split_ifs with htakes
      · rw [ih]
        simp only [Oldest.mk.injEq, true_and]
        omega
      · rw [ih]
        simp only [Oldest.mk.injEq, true_and]
        omega
    · exact ih o

variable (clk cfg) in
/-- Whatever is taken out is an entry of the list. -/
theorem blmTryDeleteBssidInList_sublist (type : RejectApType) (l : List RejectAp) (n : ℕ) :
    n ≤ (blmTryDeleteBssidInList clk cfg type l n).2 ∧
      ∀ l', (blmTryDeleteBssidInList clk cfg type l n).1 = some l' →
        l'.Sublist l ∧ l'.length < l.length := by
  unfold blmTryDeleteBssidInList
  rw [oldestIn_eq]
  refine ⟨Nat.le_add_right _ _, ?_⟩
  intro l' hl'
  obtain ⟨j, hj, rfl⟩ := Option.map_eq_some_iff.mp hl'
  rcases BestScan.scan_mem hj with hnone | ⟨p, hp, rfl⟩
  · cases hnone
  · obtain ⟨q, hq, rfl⟩ := List.mem_map.mp hp
    obtain ⟨k, m, hqk, hk, -, -⟩ := mem_scanned hq
    have hlt : q.1 < l.length := by
      obtain ⟨hklt, -⟩ := List.getElem?_eq_some_iff.mp hk
      have hqi : q.1 = 0 + k := by rw [hqk]
      omega
    refine ⟨List.eraseIdx_sublist l q.1, ?_⟩
    rw [List.length_eraseIdx_of_lt hlt]
    omega

theorem blmTryDeleteBssidInList_none (h : scanned clk type l 0 n = []) :
    blmTryDeleteBssidInList clk cfg type l n = (none, n) := by
  unfold blmTryDeleteBssidInList
  rw [oldestIn_eq]
  simp [h, BestScan.scan]

def rank (type : RejectApType) (delta : Time) : ℤ := if byAge type then -delta.toNat else delta.toNat

theorem blmIsOldestEntry_follows (type : RejectApType) :
    BestScan.Follows (blmIsOldestEntry type) (rank type) fun d => 0 < d.toNat := by
  intro a b ha hb
  have hne : b ≠ 0 := by
    rintro rfl
    exact absurd hb (by decide)
  unfold rank
  cases type <;> simp only [blmIsOldestEntry, byAge, BitVec.lt_def, Bool.or_eq_true, beq_iff_eq,
    decide_eq_true_eq, Bool.or_eq_false_iff, decide_eq_false_iff_not, hne, false_or,
    Bool.false_eq_true, if_true, if_false] <;> omega

theorem blmIsOldestEntry_start {delta : Time} (h : 0 < delta.toNat) (type : RejectApType) :
    blmIsOldestEntry type delta 0 = true := by
  cases type <;> simp [blmIsOldestEntry, BitVec.lt_def, h]

theorem olderThan_of_rank {a b : RejectAp × Time} {da db : Time}
    (ha : (da.toNat : ℤ) = measure cfg type a.1 a.2)
    (hb : (db.toNat : ℤ) = measure cfg type b.1 b.2) (h : rank type da ≤ rank type db) :
    OlderThan cfg type a b := by
  unfold rank at h
  unfold measure at ha hb
  unfold OlderThan
  split_ifs at * <;> omega

theorem blmTryDeleteBssidInList_oldest (hne : scanned clk type l 0 n ≠ [])
    (hfresh : ∀ p ∈ scanned clk type l 0 n, Fresh p.2.2 p.2.1)
    (htold : ∀ p ∈ scanned clk type l 0 n, Told cfg type p.2.1 p.2.2) :
    ∃ p ∈ scanned clk type l 0 n, ∃ m,
      blmTryDeleteBssidInList clk cfg type l n = (some (l.eraseIdx p.1), m) ∧
        ∀ q ∈ scanned clk type l 0 n, OlderThan cfg type p.2 q.2 := by
  have hdelta (p : ℕ × RejectAp × Time) (hp : p ∈ scanned clk type l 0 n) :
      ((blmGetDeltaOfBssid cfg type p.2.2 p.2.1).toNat : ℤ) = measure cfg type p.2.1 p.2.2 :=
    toNat_blmGetDeltaOfBssid (hfresh p hp) (htold p hp)
  have hpos (p : ℕ × RejectAp × Time) (hp : p ∈ scanned clk type l 0 n) :
      0 < (blmGetDeltaOfBssid cfg type p.2.2 p.2.1).toNat := by
    have hmeasure := (htold p hp).pos
    have heq := hdelta p hp
    omega
  obtain ⟨r, hr, hscan, hbest⟩ := BestScan.scan_best
    ((scanned clk type l 0 n).map fun p => (p.1, blmGetDeltaOfBssid cfg type p.2.2 p.2.1))
    (z := 0) (by simpa using hne) (blmIsOldestEntry_follows type)
    (by
      intro q hq
      obtain ⟨p, hp, rfl⟩ := List.mem_map.mp hq
      exact hpos p hp)
    (by
      intro q hq
      obtain ⟨p, hp, rfl⟩ := List.mem_map.mp hq
      exact blmIsOldestEntry_start (hpos p hp) type)
  obtain ⟨p, hp, rfl⟩ := List.mem_map.mp hr
  refine ⟨p, hp, n + (scanned clk type l 0 n).length, ?_, ?_⟩
  · unfold blmTryDeleteBssidInList
    rw [oldestIn_eq]
    simp only [hscan, Option.map_some]
  · intro q hq
    exact olderThan_of_rank (hdelta p hp) (hdelta q hq)
      (hbest _ (List.mem_map.mpr ⟨q, hq, rfl⟩))

def NoneOnlyIn (ts : List RejectApType) (l : List RejectAp) : Prop :=
  ∀ t ∈ ts, ∀ e ∈ l, e.presentOnlyInListType t = false

/-- `type` is the first of the lists, in the order of removal, that some entry is only in. -/
def Lowest (type : RejectApType) (l : List RejectAp) : Prop :=
  ∃ as bs, removalOrder = as ++ type :: bs ∧ NoneOnlyIn as l ∧
    ∃ e ∈ l, e.presentOnlyInListType type = true

theorem tryDeleteInOrder_none {ts : List RejectApType} (h : NoneOnlyIn ts l) :
    tryDeleteInOrder clk cfg ts l n = (none, n) := by
  induction ts with
  | nil => rfl
  | cons t ts ih =>
    have hnone : blmTryDeleteBssidInList clk cfg t l n = (none, n) :=
      blmTryDeleteBssidInList_none
        (scanned_eq_nil_iff.mpr fun e he => h t List.mem_cons_self e he)
    unfold tryDeleteInOrder
    simp only [hnone]
    exact ih fun t' ht' => h t' (List.mem_cons_of_mem _ ht')

theorem tryDeleteInOrder_append {as ts : List RejectApType} (h : NoneOnlyIn as l) :
    tryDeleteInOrder clk cfg (as ++ ts) l n = tryDeleteInOrder clk cfg ts l n := by
  induction as with
  | nil => rfl
  | cons t as ih =>
    have hnone : blmTryDeleteBssidInList clk cfg t l n = (none, n) :=
      blmTryDeleteBssidInList_none
        (scanned_eq_nil_iff.mpr fun e he => h t List.mem_cons_self e he)
    rw [List.cons_append, tryDeleteInOrder]
    simp only [hnone]
    exact ih fun t' ht' => h t' (List.mem_cons_of_mem _ ht')

theorem tryDeleteInOrder_sublist (ts : List RejectApType) (l : List RejectAp) (n : ℕ) :
    n ≤ (tryDeleteInOrder clk cfg ts l n).2 ∧
      ∀ l', (tryDeleteInOrder clk cfg ts l n).1 = some l' →
        l'.Sublist l ∧ l'.length < l.length := by
  induction ts generalizing n with
  | nil => exact ⟨le_refl n, by simp [tryDeleteInOrder]⟩
  | cons t ts ih =>
    obtain ⟨hle, hsub⟩ := blmTryDeleteBssidInList_sublist clk cfg t l n
    unfold tryDeleteInOrder
    cases hr : blmTryDeleteBssidInList clk cfg t l n with
    | mk r m =>
      rw [hr] at hle hsub
      cases r with
      | some l'' => exact ⟨hle, hsub⟩
      | none =>
        obtain ⟨hle', hsub'⟩ := ih m
        exact ⟨le_trans hle hle', hsub'⟩

theorem blmRemoveLowestDeltaEntry_oldest (hlow : Lowest type l)
    (hfresh : ∀ p ∈ scanned clk type l 0 n, Fresh p.2.2 p.2.1)
    (htold : ∀ p ∈ scanned clk type l 0 n, Told cfg type p.2.1 p.2.2) :
    ∃ p ∈ scanned clk type l 0 n, ∃ m,
      blmRemoveLowestDeltaEntry clk cfg l n = (some (l.eraseIdx p.1), m) ∧
        ∀ q ∈ scanned clk type l 0 n, OlderThan cfg type p.2 q.2 := by
  obtain ⟨as, bs, horder, has, e, he, honly⟩ := hlow
  have hne : scanned clk type l 0 n ≠ [] := by
    intro hnil
    have hno := scanned_eq_nil_iff.mp hnil e he
    rw [honly] at hno
    cases hno
  obtain ⟨p, hp, m, htry, hold⟩ := blmTryDeleteBssidInList_oldest hne hfresh htold
  refine ⟨p, hp, m, ?_, hold⟩
  unfold blmRemoveLowestDeltaEntry
  rw [horder, tryDeleteInOrder_append has, tryDeleteInOrder]
  simp only [htry]

end Scans

end KernelModules.RejectList
