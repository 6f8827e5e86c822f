import KernelModules.RejectList
import KernelModules.Thinned
import Mathlib.Order.Nat
import Mathlib.Data.List.Nodup

/-!
# How the entries age

Bringing an entry up to date keeps its BSSID, stamps nothing with a time to come and revives no
entry that has lost its last flag. A walk over the list therefore thins it out: every entry that
stays is the one it was, up to date at some of the readings taken meanwhile, and every entry that
goes has lost its last flag at one of them.
-/

namespace KernelModules.RejectList

def NonDecreasing (clk : ℕ → Time) : Prop := ∀ i j, i ≤ j → (clk i).toNat ≤ (clk j).toNat

def RejectAp.stamp (e : RejectAp) : RejectApType → Time
  | .userspaceAvoid => e.apTimestamp.userspaceAvoidTimestamp
  | .userspaceBlacklist => e.apTimestamp.userspaceBlacklistTimestamp
  | .driverAvoid => e.apTimestamp.driverAvoidTimestamp
  | .driverBlacklist => e.apTimestamp.driverBlacklistTimestamp
  | .driverRssiReject => e.apTimestamp.rssiRejectTimestamp
  | .driverMonitor => e.apTimestamp.driverMonitorTimestamp

/-- No time of the entry is later than `now`. -/
def Fresh (now : Time) (e : RejectAp) : Prop := ∀ type, (e.stamp type).toNat ≤ now.toNat

variable {now : Time} {e : RejectAp} {l l' : List RejectAp}

theorem Fresh.mono {now' : Time} (h : Fresh now e) (hle : now.toNat ≤ now'.toNat) : Fresh now' e :=
  fun type => le_trans (h type) hle

theorem fresh_blank (now : Time) : Fresh now {} := by
  intro type
  cases type <;> exact Nat.zero_le _

structure Keeps (now : Time) (e e' : RejectAp) : Prop where
  bssid : e'.bssid = e.bssid
  cleared : e.cleared → e'.cleared
  fresh : Fresh now e → Fresh now e'

theorem Keeps.refl (now : Time) (e : RejectAp) : Keeps now e e := ⟨rfl, id, id⟩

theorem Keeps.trans {e' e'' : RejectAp} (h : Keeps now e e')
    (h' : Keeps now e' e'') : Keeps now e e'' :=
  ⟨h'.bssid.trans h.bssid, fun hc => h'.cleared (h.cleared hc), fun hf => h'.fresh (h.fresh hf)⟩

theorem Keeps.of_stamp {t : Time} {e' : RejectAp} {c : Prop} [Decidable c]
    (ht : t.toNat ≤ now.toNat) (hb : e'.bssid = e.bssid) (hc : c → e.cleared → e'.cleared)
    (hs : ∀ type, e'.stamp type = e.stamp type ∨ e'.stamp type = t) :
    Keeps now e (if c then e' else e) := by
  split_ifs with hif
  · refine ⟨hb, hc hif, fun hf type => ?_⟩
    rcases hs type with h | h
    · rw [h]
      exact hf type
    · rw [h]
      exact ht
  · exact Keeps.refl now e

section Entries

variable {cfg : BlmConfig} {now t : Time} {e : RejectAp}

theorem expireUserspaceAvoid_keeps (ht : t.toNat ≤ now.toNat) :
    Keeps now e (expireUserspaceAvoid cfg t e) := by
  refine Keeps.of_stamp ht rfl (fun h => by simp [RejectAp.cleared, h.1]) fun type => ?_
  cases type <;> simp [RejectAp.stamp]

theorem expireDriverAvoid_keeps (ht : t.toNat ≤ now.toNat) :
    Keeps now e (expireDriverAvoid cfg t e) := by
  refine Keeps.of_stamp ht rfl (fun h => by simp [RejectAp.cleared, h.1]) fun type => ?_
  cases type <;> simp [RejectAp.stamp]

theorem expireDriverBlacklist_keeps (ht : t.toNat ≤ now.toNat) :
    Keeps now e (expireDriverBlacklist cfg t e) := by
  refine Keeps.of_stamp ht rfl (fun h => by simp [RejectAp.cleared, h.1]) fun type => ?_
  cases type <;> simp [RejectAp.stamp]

variable {scan : Option ScanEntry}

theorem expireRssiReject_keeps (ht : t.toNat ≤ now.toNat) :
    Keeps now e (expireRssiReject scan t e) := by
  refine Keeps.of_stamp ht rfl (fun h => by simp [RejectAp.cleared, h.1]) fun type => ?_
  cases type <;> simp [RejectAp.stamp]

theorem blmUpdateApInfo_keeps (ht : t.toNat ≤ now.toNat) :
    Keeps now e (blmUpdateApInfo cfg scan t e) :=
  (expireUserspaceAvoid_keeps ht).trans <| (expireDriverAvoid_keeps ht).trans <|
    (expireDriverBlacklist_keeps ht).trans (expireRssiReject_keeps ht)

theorem clearUserspaceBlacklist_keeps {e' : RejectAp} (h : clearUserspaceBlacklist e = some e') :
    Keeps now e e' := by
  unfold clearUserspaceBlacklist at h
  split_ifs at h with honly hbit
  · rw [← Option.some.inj h]
    refine ⟨rfl, ?_, id⟩
    simp [RejectAp.cleared, hbit]
  · rw [← Option.some.inj h]
    exact Keeps.refl now e

theorem clearDriverLists_keeps : Keeps now e (clearDriverLists e) :=
  ⟨rfl, by simp +contextual [RejectAp.cleared, clearDriverLists], id⟩

theorem connectParams_keeps {clk : ℕ → Time} (hclk : NonDecreasing clk) {con : ConnectionState}
    {n m : ℕ} (hm : (connectParams clk cfg con n e).2 ≤ m) {e' : RejectAp}
    (h : (connectParams clk cfg con n e).1 = some e') : Keeps (clk m) e e' := by
  cases con with
  | connected =>
    rw [← Option.some.inj h]
    exact ⟨rfl, id, id⟩
  | disconnected =>
    simp only [connectParams] at h hm
    have hup : Keeps (clk m) e (blmUpdateApInfo cfg none (clk n) e) :=
      blmUpdateApInfo_keeps (hclk n m (by omega))
    split_ifs at h with hage hcl
    · rw [← Option.some.inj h]
      exact hup.trans clearDriverLists_keeps
    · rw [← Option.some.inj h]
      exact hup

end Entries

structure Tidy (now : Time) (l : List RejectAp) : Prop where
  nodup : (l.map RejectAp.bssid).Nodup
  length_le : l.length ≤ maxBadApListSize
  fresh : ∀ e ∈ l, Fresh now e
  /-- An entry without a BSSID has no flag either. -/
  zero : ∀ e ∈ l, e.bssid = 0 → e.cleared

theorem tidy_nil (now : Time) : Tidy now [] :=
  ⟨List.nodup_nil, Nat.zero_le _, by simp, by simp⟩

theorem Tidy.mono {now' : Time} (h : Tidy now l) (hle : now.toNat ≤ now'.toNat) : Tidy now' l :=
  ⟨h.nodup, h.length_le, fun e he => (h.fresh e he).mono hle, h.zero⟩

theorem Tidy.thinned {D : RejectAp → Prop}
    (h : Tidy now l) (ht : Thinned (Keeps now) D l l') : Tidy now l' := by
  have hsub : (l'.map RejectAp.bssid).Sublist (l.map RejectAp.bssid) :=
    ht.map_sublist fun _ _ hk => hk.bssid
  refine ⟨h.nodup.sublist hsub, le_trans ht.length_le h.length_le, ?_, ?_⟩
  · intro e he
    obtain ⟨a, ha, hk⟩ := ht.exists_of_mem he
    exact hk.fresh (h.fresh a ha)
  · intro e he hz
    obtain ⟨a, ha, hk⟩ := ht.exists_of_mem he
    exact hk.cleared (h.zero a ha (hk.bssid ▸ hz))

theorem Tidy.sublist (h : Tidy now l) (hs : l'.Sublist l) : Tidy now l' :=
  ⟨h.nodup.sublist (hs.map _), le_trans hs.length_le h.length_le,
    fun e he => h.fresh e (hs.mem he), fun e he => h.zero e (hs.mem he)⟩

section Aging

variable (clk : ℕ → Time) (cfg : BlmConfig)

/-- The entry brought up to date, any number of times, at readings from `n` on and before `m`. -/
def AgedTo (n m : ℕ) : RejectAp → RejectAp → Prop :=
  Relation.ReflTransGen fun e e' => ∃ k, n ≤ k ∧ k < m ∧ e' = blmUpdateApInfo cfg none (clk k) e

def Expired (n m : ℕ) (e : RejectAp) : Prop := ∃ e', AgedTo clk cfg n m e e' ∧ e'.cleared

def Aged (n m : ℕ) : List RejectAp → List RejectAp → Prop :=
  Thinned (AgedTo clk cfg n m) (Expired clk cfg n m)

variable {clk cfg} {n m k : ℕ} {e e' : RejectAp} {l l' l'' : List RejectAp}
variable {n' m' : ℕ}

theorem AgedTo.mono (h : AgedTo clk cfg n m e e') (hn : n' ≤ n) (hm : m ≤ m') :
    AgedTo clk cfg n' m' e e' := by
  induction h with
  | refl => exact Relation.ReflTransGen.refl
  | tail _ hstep ih =>
    obtain ⟨k, hk, hk', rfl⟩ := hstep
    exact ih.tail ⟨k, le_trans hn hk, lt_of_lt_of_le hk' hm, rfl⟩

theorem AgedTo.single (hn : n ≤ k) (hm : k < m) :
    AgedTo clk cfg n m e (blmUpdateApInfo cfg none (clk k) e) :=
  Relation.ReflTransGen.single ⟨k, hn, hm, rfl⟩

theorem Expired.mono (h : Expired clk cfg n m e) (hn : n' ≤ n) (hm : m ≤ m') :
    Expired clk cfg n' m' e := by
  obtain ⟨e', haged, hc⟩ := h
  exact ⟨e', haged.mono hn hm, hc⟩

theorem Aged.mono (h : Aged clk cfg n m l l') (hn : n' ≤ n) (hm : m ≤ m') :
    Aged clk cfg n' m' l l' :=
  Thinned.mono (fun _ _ h => h.mono hn hm) (fun _ h => h.mono hn hm) h

theorem Aged.refl (n m : ℕ) (l : List RejectAp) : Aged clk cfg n m l l :=
  Thinned.refl (fun _ => Relation.ReflTransGen.refl) l

theorem Aged.trans (h : Aged clk cfg n m l l') (h' : Aged clk cfg m k l' l'') (hnm : n ≤ m)
    (hmk : m ≤ k) : Aged clk cfg n k l l'' := by
  apply Thinned.trans ?_ ?_ ?_ h h'
  · intro a b c hab hbc
    exact (hab.mono (le_refl n) hmk).trans (hbc.mono hnm (le_refl k))
  · rintro a b hab ⟨b', hb, hc⟩
    exact ⟨b', (hab.mono (le_refl n) hmk).trans (hb.mono hnm (le_refl k)), hc⟩
  · intro a ha
    exact ha.mono (le_refl n) hmk

theorem AgedTo.keeps (hclk : NonDecreasing clk) (h : AgedTo clk cfg n m e e') :
    Keeps (clk m) e e' := by
  induction h with
  | refl => exact Keeps.refl _ _
  | tail _ hstep ih =>
    obtain ⟨k, -, hk, rfl⟩ := hstep
    exact ih.trans (blmUpdateApInfo_keeps (hclk k m (Nat.le_of_lt hk)))

theorem Tidy.aged (hclk : NonDecreasing clk) (hnm : n ≤ m) (h : Tidy (clk n) l)
    (ha : Aged clk cfg n m l l') : Tidy (clk m) l' :=
  (h.mono (hclk n m hnm)).thinned
    (Thinned.mono (fun _ _ hab => hab.keeps hclk) (fun _ hd => hd) ha)

variable (clk cfg) in
/-- One fill brings every entry it passes up to date. -/
theorem blmFillRejectList_aged (type : RejectApType) (max : ℕ) (l : List RejectAp)
    (ps : List RejectApConfigParams) (n : ℕ) :
    n ≤ (blmFillRejectList clk cfg type max l ps n).tick ∧
      Aged clk cfg n (blmFillRejectList clk cfg type max l ps n).tick l
        (blmFillRejectList clk cfg type max l ps n).list := by
  induction l generalizing ps n with
  | nil => exact ⟨le_refl n, .nil⟩
  | cons e es ih =>
    simp only [blmFillRejectList]
    split_ifs with hmax hc htype
    · exact ⟨le_refl n, Aged.refl _ _ _⟩
    · obtain ⟨hle, haged⟩ := ih ps (n + 1)
      refine ⟨by omega, .drop ⟨_, AgedTo.single (le_refl n) (by omega), hc⟩ ?_⟩
      exact haged.mono (by omega) (le_refl _)
    · obtain ⟨hle, haged⟩ := ih (ps ++ [rejectParams cfg type (clk (n + 1))
        (blmUpdateApInfo cfg none (clk n) e)]) (n + 2)
      refine ⟨?_, .keep (AgedTo.single (le_refl n) ?_) (haged.mono (by omega) (le_refl _))⟩
      · exact le_trans (Nat.le_add_right n 2) hle
      · exact lt_of_lt_of_le (by omega) hle
    · obtain ⟨hle, haged⟩ := ih ps (n + 1)
      refine ⟨?_, .keep (AgedTo.single (le_refl n) ?_) (haged.mono (by omega) (le_refl _))⟩
      · exact le_trans (Nat.le_succ n) hle
      · exact lt_of_lt_of_le (by omega) hle

theorem fillTypes_aged (ts : List RejectApType) (f : Filled) :
    f.tick ≤ (fillTypes clk cfg ts f).tick ∧
      Aged clk cfg f.tick (fillTypes clk cfg ts f).tick f.list (fillTypes clk cfg ts f).list := by
  induction ts generalizing f with
  | nil => exact ⟨le_refl _, Aged.refl _ _ _⟩
  | cons t ts ih =>
    obtain ⟨hle, haged⟩ := blmFillRejectList_aged clk cfg t
      pdevMaxNumBssidDisallowList f.list f.params f.tick
    obtain ⟨hle', haged'⟩ :=
      ih (blmFillRejectList clk cfg t pdevMaxNumBssidDisallowList f.list f.params f.tick)
    exact ⟨le_trans hle hle', haged.trans haged' hle hle'⟩

variable (clk cfg) in
theorem blmSendRejectApListToFw_aged (env : Env) (db : RejectDb) :
    db.tick ≤ (blmSendRejectApListToFw clk cfg env db).1.tick ∧
      Aged clk cfg db.tick (blmSendRejectApListToFw clk cfg env db).1.tick db.rejectApList
        (blmSendRejectApListToFw clk cfg env db).1.rejectApList := by
  unfold blmSendRejectApListToFw
  split_ifs
  · exact ⟨le_refl _, Aged.refl _ _ _⟩
  · exact fillTypes_aged fillOrder ⟨db.rejectApList, [], db.tick⟩

end Aging

end KernelModules.RejectList
