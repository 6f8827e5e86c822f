import KernelModules.RsnIe

/-!
# An RSN information element and the one built from it

What the check reads from an element is what its fields say, and what it reads from a built one is
what the builder wrote. The two differ where the element has a key management that the builder does
not know, or a group management cipher that is not for management frames.
-/

namespace KernelModules.RsnIe

open Bitmap List

variable {v i : ℕ}

theorem leRead2_addShort (h : v < 65536) (rest : Bytes) : leRead2 (addShort v ++ rest) = v := by
  change (UInt8.ofNat v).toNat + 256 * (UInt8.ofNat (v / 256)).toNat = v
  rw [UInt8.toNat_ofNat', UInt8.toNat_ofNat']
  omega

theorem leRead4_addSelector (h : v < 2 ^ 32) (rest : Bytes) :
    leRead4 (addSelector v ++ rest) = v := by
  change (UInt8.ofNat v).toNat + 256 * (UInt8.ofNat (v / 256)).toNat +
    65536 * (UInt8.ofNat (v / 65536)).toNat + 16777216 * (UInt8.ofNat (v / 16777216)).toNat = v
  rw [UInt8.toNat_ofNat', UInt8.toNat_ofNat', UInt8.toNat_ofNat', UInt8.toNat_ofNat']
  omega

theorem leRead2_lt (frm : Bytes) : leRead2 frm < 65536 := by
  have h0 := (frm.getD 0 0).toNat_lt
  have h1 := (frm.getD 1 0).toNat_lt
  unfold leRead2
  omega

theorem drop_addShort (v : ℕ) (rest : Bytes) : (addShort v ++ rest).drop 2 = rest := rfl

theorem length_flatMap_addSelector (ws : List ℕ) : (ws.flatMap addSelector).length = 4 * ws.length := by
  induction ws with
  | nil => rfl
  | cons w ws ih =>
    rw [flatMap_cons, length_append, ih, length_cons]
    change 4 + 4 * ws.length = 4 * (ws.length + 1)
    omega

def setBits (set : Set32) (l : List ℕ) : Set32 := l.foldl (fun s i => s ||| bit 32 i) set

theorem shows_setBits {set : Set32} {P : ℕ → Prop} {l : List ℕ} (h : Shows set P)
    (hl : ∀ i ∈ l, i < 32) : Shows (setBits set l) fun i => i ∈ l ∨ P i := by
  induction l generalizing set P with
  | nil => exact h.congr fun i => (or_iff_right not_mem_nil).symm
  | cons j l ih =>
    have hrest := ih (h.or_bit (hl j mem_cons_self))
      fun i hi => hl i (mem_cons_of_mem _ hi)
    apply hrest.congr
    intro i
    rw [mem_cons, or_left_comm, or_assoc]

theorem shows_setBits_zero {l : List ℕ} (hl : ∀ i ∈ l, i < 32) : Shows (setBits 0 l) (· ∈ l) :=
  (shows_setBits (Shows.zero fun _ => not_false) hl).congr fun _ => iff_of_eq (or_false _)

theorem has_iff (set : Set32) (i : ℕ) : has set i = true ↔ set.getLsbD i = true := by
  unfold has
  rw [decide_eq_true_iff, ne_eq, and_bit_eq_zero, Bool.not_eq_false]

theorem eq_of_shows {a b : Set32} (h : Shows a fun i => b.getLsbD i = true) : a = b := by
  apply BitVec.eq_of_getLsbD_eq
  intro i _
  exact Bool.eq_iff_iff.mpr (h i)

section Lists

variable {suiteBit : ℕ → Option ℕ} {dflt : ℕ}

variable {frm' : Bytes} {ws l : List ℕ}

theorem setSuites_eq_some {n : ℕ} {set set' : Set32} {frm : Bytes}
    (h : setSuites suiteBit n set frm = some (set', frm')) :
    frm' = frm.drop (4 * n) ∧
      ∃ l : List ℕ, (suites n frm).map suiteBit = l.map some ∧ set' = setBits set l := by
  induction n generalizing set frm with
  | zero =>
    obtain ⟨rfl, rfl⟩ := Prod.mk.inj (Option.some.inj h)
    exact ⟨rfl, [], rfl, rfl⟩
  | succ n ih =>
    unfold setSuites at h
    cases hw : suiteBit (leRead4 frm) with
    | none =>
      rw [hw] at h
      cases h
    | some w =>
      rw [hw] at h
      obtain ⟨hdrop, l, hl, hset⟩ := ih h
      refine ⟨?_, w :: l, ?_, hset⟩
      · rw [hdrop, drop_drop]
        congr 1
        omega
      · rw [suites, map_cons, hw, hl, map_cons]

theorem setSuites_emitted (hws : ∀ w ∈ ws, w < 2 ^ 32)
    (h : ws.map suiteBit = l.map some) (set : Set32) (rest : Bytes) :
    setSuites suiteBit ws.length set (ws.flatMap addSelector ++ rest) = some (setBits set l, rest) := by
  induction ws generalizing l set with
  | nil =>
    obtain rfl : l = [] := map_eq_nil_iff.mp h.symm
    rfl
  | cons w ws ih =>
    cases l with
    | nil => cases h
    | cons i l =>
      obtain ⟨hi, hl⟩ := cons.inj h
      have hread := leRead4_addSelector (hws w mem_cons_self)
        (ws.flatMap addSelector ++ rest)
      rw [flatMap_cons, append_assoc, length_cons, setSuites, hread, hi]
      exact ih (fun w hw => hws w (mem_cons_of_mem _ hw)) hl _

/-- The set is the default of an empty list, or made of the suites of the list. -/
def Listed (suiteBit : ℕ → Option ℕ) (dflt : ℕ) (frm : Bytes) (set : Set32) : Prop :=
  set ≠ 0 ∧ (leRead2 frm = 0 ∧ set = bit 32 dflt ∨
    ∃ l : List ℕ, (suites (leRead2 frm) (frm.drop 2)).map suiteBit = l.map some ∧ set = setBits 0 l)

theorem bit_ne_zero {i : ℕ} (hi : i < 32) : bit 32 i ≠ 0 := by
  intro h
  have hbit := getLsbD_bit (w := 32) i i
  rw [h] at hbit
  simp [hi] at hbit

theorem listed_nil (hdflt : dflt < 32) : Listed suiteBit dflt [] (0 ||| bit 32 dflt) := by
  have hzero : (0 : Set32) ||| bit 32 dflt = bit 32 dflt := BitVec.zero_or
  rw [hzero]
  exact ⟨bit_ne_zero hdflt, .inl ⟨rfl, rfl⟩⟩

theorem suiteList_eq_some {set : Set32} {frm : Bytes}
    (h : suiteList suiteBit dflt 0 frm = some (set, frm')) :
    frm' = afterSuites frm ∧ Listed suiteBit dflt frm set := by
  unfold suiteList at h
  obtain ⟨h, hset⟩ := Option.filter_eq_some_iff.mp h
  have hne : set ≠ 0 := of_decide_eq_true hset
  split at h
  · next hn =>
      obtain ⟨rfl, rfl⟩ := Prod.mk.inj (Option.some.inj h)
      refine ⟨?_, hne, .inl ⟨hn, BitVec.zero_or⟩⟩
      rw [afterSuites, hn]
  · split at h
    · cases h
    · obtain ⟨hdrop, hl⟩ := setSuites_eq_some h
      refine ⟨?_, hne, .inr hl⟩
      rw [hdrop, drop_drop, afterSuites]

theorem suiteList_emitted (hws : ∀ w ∈ ws, w < 2 ^ 32) (hlen : ws.length < 65536)
    (h : ws.map suiteBit = l.map some) (hl : ∀ i ∈ l, i < 32) (hdflt : dflt < 32) (rest : Bytes) :
    suiteList suiteBit dflt 0 (addShort ws.length ++ (ws.flatMap addSelector ++ rest)) =
      some (if ws = [] then bit 32 dflt else setBits 0 l, rest) := by
  unfold suiteList
  rw [leRead2_addShort hlen, drop_addShort]
  apply Option.filter_eq_some_iff.mpr
  cases ws with
  | nil =>
    have hzero : (0 : Set32) ||| bit 32 dflt = bit 32 dflt := BitVec.zero_or
    refine ⟨?_, decide_eq_true (bit_ne_zero hdflt)⟩
    rw [length_nil, if_pos rfl, if_pos rfl, hzero]
    rfl
  | cons w ws =>
    have hne : l ≠ [] := by
      rintro rfl
      cases h
    have hcount : (w :: ws).length ≠ 0 := Nat.succ_ne_zero _
    have hroom : ((w :: ws).flatMap addSelector ++ rest).length ≥ (w :: ws).length * 4 := by
      rw [length_append, length_flatMap_addSelector]
      omega
    rw [if_neg (cons_ne_nil w ws), if_neg hcount, if_neg (by omega)]
    refine ⟨setSuites_emitted hws h 0 rest, decide_eq_true fun hzero => ?_⟩
    obtain ⟨i, hi⟩ := exists_mem_of_ne_nil l hne
    exact ((shows_setBits_zero hl).eq_zero_iff.mp hzero) i hi

end Lists

theorem checkBip_fields (params : CryptoParams) (frm : Bytes) :
    (checkBip params frm).ucastcipherset = params.ucastcipherset ∧
      (checkBip params frm).mcastcipherset = params.mcastcipherset ∧
      (checkBip params frm).keyMgmt = params.keyMgmt ∧
      (checkBip params frm).rsnCaps = params.rsnCaps := by
  unfold checkBip
  split
  · exact ⟨rfl, rfl, rfl, rfl⟩
  · split
    · exact ⟨rfl, rfl, rfl, rfl⟩
    · exact ⟨rfl, rfl, rfl, rfl⟩

variable {params : CryptoParams} {w : ℕ}

theorem checkBip_nil (hcaps : params.rsnCaps = 0) : checkBip params [] = params := by
  have hmfp : params.mfpEnabled = false := by
    rw [CryptoParams.mfpEnabled, hcaps]
    rfl
  unfold checkBip
  rw [hmfp]
  rfl

variable {P : CryptoParams} {frm : Bytes}

theorem checkPmkid_eq_some
    (h : checkPmkid params frm = some P) : P = checkBip params (afterPmkids frm) := by
  unfold checkPmkid at h
  unfold afterPmkids
  split at h
  · dsimp only at h
    split at h
    · split at h
      · rw [if_pos ‹_›, ← drop_drop]
        exact (Option.some.inj h).symm
      · cases h
    · split at h
      · cases h
      · next hn =>
          rw [if_pos ‹_›, not_not.mp hn]
          exact (Option.some.inj h).symm
  · rw [if_neg ‹_›]
    exact (Option.some.inj h).symm

theorem checkCaps_eq_some (hcaps : params.rsnCaps = 0)
    (h : checkCaps params frm = some P) :
    P = checkBip { params with rsnCaps := leRead2 frm } (afterPmkids (frm.drop 2)) := by
  unfold checkCaps at h
  split at h
  · exact checkPmkid_eq_some h
  · split at h
    · cases h
    · next hnil =>
        have hnil := not_not.mp hnil
        rw [hnil] at h ⊢
        have hparams : { params with rsnCaps := leRead2 [] } = params := by
          rw [show leRead2 [] = params.rsnCaps from hcaps.symm]
        rw [hparams]
        exact checkPmkid_eq_some h

theorem checkKeyMgmt_eq_some (hkey : params.keyMgmt = 0)
    (hcaps : params.rsnCaps = 0) (h : checkKeyMgmt params frm = some P) :
    ∃ set, Listed keymgmtBit KeyMgmt.ieee8021x.type frm set ∧
      P = checkBip { params with keyMgmt := set, rsnCaps := leRead2 (afterSuites frm) }
        (afterPmkids ((afterSuites frm).drop 2)) := by
  unfold checkKeyMgmt at h
  split at h
  · next hnil =>
      rw [hnil]
      refine ⟨_, listed_nil (by decide), ?_⟩
      have hbip : checkBip (setKeyMgmtDefault params) [] = setKeyMgmtDefault params :=
        checkBip_nil hcaps
      rw [← Option.some.inj h, ← hbip]
      unfold setKeyMgmtDefault
      rw [hkey, hcaps]
      rfl
  · split at h
    · cases h
    · rw [hkey] at h
      cases hlist : suiteList keymgmtBit KeyMgmt.ieee8021x.type 0 frm with
      | none =>
        rw [hlist] at h
        cases h
      | some r =>
        obtain ⟨set, rest⟩ := r
        obtain ⟨hafter, hlisted⟩ := suiteList_eq_some hlist
        rw [hlist] at h
        have hcaps' : ({ params with keyMgmt := set } : CryptoParams).rsnCaps = 0 := hcaps
        rw [← hafter]
        exact ⟨set, hlisted, checkCaps_eq_some hcaps' h⟩

/-- Parameters of which the key management is not read yet. -/
structure Fresh (params : CryptoParams) : Prop where
  keyMgmt : params.keyMgmt = 0
  rsnCaps : params.rsnCaps = 0

theorem checkKeyMgmt_nil (params : CryptoParams) :
    checkKeyMgmt params [] = some (setKeyMgmtDefault params) := rfl

theorem checkUcast_eq_some (hfresh : Fresh params)
    (hucast : params.ucastcipherset = 0) (h : checkUcast params frm = some P) :
    ∃ ucast set, ucast ≠ 0 ∧ Listed keymgmtBit KeyMgmt.ieee8021x.type (afterSuites frm) set ∧
      P = checkBip { params with
          ucastcipherset := ucast, keyMgmt := set,
          rsnCaps := leRead2 (afterSuites (afterSuites frm)) }
        (afterPmkids ((afterSuites (afterSuites frm)).drop 2)) := by
  obtain ⟨hkey, hcaps⟩ := hfresh
  have hnext : ∃ ucast rest, ucast ≠ 0 ∧ rest = afterSuites frm ∧
      checkKeyMgmt { params with ucastcipherset := ucast } rest = some P := by
    unfold checkUcast at h
    split at h
    · next hnil =>
        have hne : (setUcastDefault params).ucastcipherset ≠ 0 := by
          have hdflt : (0 : Set32) ||| bit 32 Cipher.aesCcm.type ≠ 0 := by decide
          rw [setUcastDefault, hucast]
          exact hdflt
        refine ⟨_, [], hne, ?_, ?_⟩
        · rw [hnil]
          rfl
        · rw [checkKeyMgmt_nil]
          exact h
    · split at h
      · cases h
      · rw [hucast] at h
        cases hlist : suiteList cipherBit Cipher.aesCcm.type 0 frm with
        | none =>
          rw [hlist] at h
          cases h
        | some r =>
          obtain ⟨set, rest⟩ := r
          obtain ⟨hafter, hlisted⟩ := suiteList_eq_some hlist
          rw [hlist] at h
          exact ⟨set, rest, hlisted.1, hafter, h⟩
  obtain ⟨ucast, rest, hne, rfl, hcheck⟩ := hnext
  have hkey' : ({ params with ucastcipherset := ucast } : CryptoParams).keyMgmt = 0 := hkey
  obtain ⟨set, hlisted, hP⟩ := checkKeyMgmt_eq_some hkey' hcaps hcheck
  exact ⟨ucast, set, hne, hlisted, hP⟩

theorem checkUcast_nil (params : CryptoParams) :
    checkUcast params [] = some (setKeyMgmtDefault (setUcastDefault params)) := rfl

theorem cipherBit_eq_some (h : cipherBit w = some i) : ∃ c : Cipher, c.type = i := by
  obtain ⟨c, -, hc⟩ := Option.map_eq_some_iff.mp h
  exact ⟨c, hc⟩

theorem checkMcast_eq_some (hfresh : Fresh params)
    (hucast : params.ucastcipherset = 0) (hmcast : params.mcastcipherset = 0)
    (h : checkMcast params frm = some P) : ∃ (c : Cipher) (ucast set : Set32), ucast ≠ 0 ∧
      Listed keymgmtBit KeyMgmt.ieee8021x.type (afterSuites (frm.drop 4)) set ∧
      P = checkBip { params with
          mcastcipherset := bit 32 c.type, ucastcipherset := ucast, keyMgmt := set,
          rsnCaps := leRead2 (afterSuites (afterSuites (frm.drop 4))) }
        (afterPmkids ((afterSuites (afterSuites (frm.drop 4))).drop 2)) := by
  have hnext : ∃ c : Cipher, checkUcast (setMcast params c.type) (frm.drop 4) = some P := by
    unfold checkMcast at h
    split at h
    · next hnil =>
        refine ⟨.aesCcm, ?_⟩
        rw [hnil, drop_nil, checkUcast_nil]
        exact h
    · split at h
      · cases h
      · cases hw : cipherBit (leRead4 frm) with
        | none =>
          rw [hw] at h
          cases h
        | some w =>
          obtain ⟨c, rfl⟩ := cipherBit_eq_some hw
          rw [hw] at h
          dsimp only at h
          split at h
          · cases h
          · exact ⟨c, h⟩
  obtain ⟨c, hcheck⟩ := hnext
  have hfresh' : Fresh (setMcast params c.type) := ⟨hfresh.keyMgmt, hfresh.rsnCaps⟩
  obtain ⟨ucast, set, hne, hlisted, hP⟩ := checkUcast_eq_some hfresh' hucast hcheck
  have hbit : params.mcastcipherset ||| bit 32 c.type = bit 32 c.type := by
    rw [hmcast]
    exact BitVec.zero_or
  rw [setMcast, hbit] at hP
  exact ⟨c, ucast, set, hne, hlisted, hP⟩

theorem rsnieCheck_eq_some (h : rsnieCheck frm = some P) :
    ∃ (c : Cipher) (ucast set : Set32), ucast ≠ 0 ∧
      Listed keymgmtBit KeyMgmt.ieee8021x.type (keyMgmtField frm) set ∧
      P = checkBip ⟨bit 32 authRsna, ucast, bit 32 c.type, 0, set, leRead2 (capsField frm)⟩
        (bipField frm) := by
  unfold rsnieCheck at h
  dsimp only at h
  split at h
  · cases h
  · split at h
    · cases h
    · have hread := checkMcast_eq_some ⟨rfl, rfl⟩ rfl rfl h
      rw [drop_drop] at hread
      exact hread

section Built

variable {P : CryptoParams}

variable {c : Cipher}

theorem isSome_mcast (hin : InScope P) (hc : P.mcastcipherset = bit 32 c.type) :
    mcastOrder.find? (fun c => has P.mcastcipherset c.type) = some c := by
  have hmem : c ∈ mcastOrder := by
    have hbit : P.mcastcipherset.getLsbD c.type = true := by
      rw [hc, getLsbD_bit]
      cases c <;> rfl
    obtain ⟨c', hc', htype⟩ := hin.mcast _ hbit
    have heq : c' = c := by
      revert htype
      cases c' <;> cases c <;> decide
    exact heq ▸ hc'
  rw [hc]
  revert hmem
  cases c <;> decide

theorem cipherBits (l : List Cipher) :
    (l.map rsnCipherToSuite).map cipherBit = (l.map Cipher.type).map some := by
  rw [map_map, map_map]
  apply map_congr_left
  intro c _
  change (rsnSuiteToCipher (rsnCipherToSuite c)).map Cipher.type = some c.type
  rw [rsnSuiteToCipher_toSuite]
  rfl

theorem cipherSuite_lt (l : List Cipher) : ∀ w ∈ l.map rsnCipherToSuite, w < 2 ^ 32 := by
  intro w hw
  obtain ⟨c, -, rfl⟩ := mem_map.mp hw
  cases c <;> decide

theorem cipherType_lt (l : List Cipher) : ∀ i ∈ l.map Cipher.type, i < 32 := by
  intro i hi
  obtain ⟨c, -, rfl⟩ := mem_map.mp hi
  cases c <;> decide

def Written (l : List KeyMgmt) : Prop := ∀ k ∈ l, k ∈ KeyMgmt.cckm :: keyMgmtOrder

theorem written_builtKeyMgmts (P : CryptoParams) : Written (builtKeyMgmts P) := by
  intro k hk
  unfold builtKeyMgmts at hk
  split at hk
  · rw [mem_singleton.mp hk]
    exact mem_cons_self
  · exact mem_cons_of_mem _ (mem_of_mem_filter hk)

def keymgmtSuite (k : KeyMgmt) : ℕ := (rsnKeymgmtToSuite k).getD (2 ^ 32 - 1)

theorem keymgmtSuite_spec : ∀ k ∈ KeyMgmt.cckm :: keyMgmtOrder,
    keymgmtBit (keymgmtSuite k) = some k.type ∧ keymgmtSuite k < 2 ^ 32 ∧ k.type < 32 := by
  decide

theorem keymgmtBits {l : List KeyMgmt} (hl : Written l) :
    (l.map keymgmtSuite).map keymgmtBit = (l.map KeyMgmt.type).map some := by
  rw [map_map, map_map]
  apply map_congr_left
  intro k hk
  exact (keymgmtSuite_spec k (hl k hk)).1

theorem length_builtUcast (P : CryptoParams) : (builtUcast P).length ≤ 5 := length_filter_le ..

theorem length_builtMgmt (P : CryptoParams) : (builtMgmt P).length ≤ 4 := length_filter_le ..

theorem length_builtKeyMgmts (P : CryptoParams) : (builtKeyMgmts P).length ≤ 17 := by
  unfold builtKeyMgmts
  split
  · exact Nat.succ_le_succ (Nat.zero_le _)
  · exact length_filter_le ..

theorem length_addCiphers (l : List Cipher) : (addCiphers l).length = 4 * l.length := by
  rw [addCiphers, length_flatMap_addSelector, length_map]

theorem length_addKeyMgmts (l : List KeyMgmt) : (addKeyMgmts l).length = 4 * l.length := by
  rw [addKeyMgmts, length_flatMap_addSelector, length_map]

theorem length_builtTail (P : CryptoParams) (pmksa : Option Pmkid) :
    (builtTail P pmksa).length ≤ 34 := by
  have hmgmt := length_builtMgmt P
  unfold builtTail
  cases pmksa with
  | none =>
    split
    · rw [length_append, length_addCiphers]
      change 2 + _ ≤ 34
      omega
    · exact Nat.zero_le _
  | some pmkid =>
    have hpmkid : (addShort 1 ++ pmkid.toList).length = 18 := by
      rw [length_append, Vector.length_toList]
      rfl
    split
    · rw [length_append, length_addCiphers, hpmkid]
      omega
    · dsimp only
      omega

/-- The built element behind its length. -/
def builtBody (P : CryptoParams) (c : Cipher) (pmksa : Option Pmkid) : Bytes :=
  addShort rsnVersion ++ (addSelector (rsnCipherToSuite c) ++
    (addShort (builtUcast P).length ++ (addCiphers (builtUcast P) ++
      (addShort (builtKeyMgmts P).length ++ (addKeyMgmts (builtKeyMgmts P) ++
        (addShort P.rsnCaps ++ builtTail P pmksa))))))

theorem buildRsnie_eq (pmksa : Option Pmkid)
    (hc : mcastOrder.find? (fun c => has P.mcastcipherset c.type) = some c) :
    buildRsnie P pmksa = [UInt8.ofNat elemidRsn, UInt8.ofNat (builtBody P c pmksa).length] ++
      builtBody P c pmksa := by
  unfold buildRsnie builtBody
  rw [hc]
  simp only [Option.toList_some, addCiphers, map_cons, map_nil, flatMap_cons,
    flatMap_nil, append_nil, append_assoc]

theorem length_builtBody (P : CryptoParams) (c : Cipher) (pmksa : Option Pmkid) :
    (builtBody P c pmksa).length < 256 := by
  have hucast := length_builtUcast P
  have hkey := length_builtKeyMgmts P
  have htail := length_builtTail P pmksa
  have hshort : ∀ v, (addShort v).length = 2 := fun _ => rfl
  have hsel : ∀ v, (addSelector v).length = 4 := fun _ => rfl
  unfold builtBody
  simp only [length_append, hshort, hsel, length_addCiphers, length_addKeyMgmts]
  omega

theorem payload_append {frm : Bytes} (h : frm.length < 256) (id : UInt8) :
    payload ([id, UInt8.ofNat frm.length] ++ frm) = frm := by
  change frm.take (UInt8.ofNat frm.length).toNat = frm
  rw [UInt8.toNat_ofNat', Nat.mod_eq_of_lt h, take_length]

theorem checkPmkid_one (params : CryptoParams) (pmkid : Pmkid) (rest : Bytes) :
    checkPmkid params (addShort 1 ++ pmkid.toList ++ rest) = some (checkBip params rest) := by
  have hlen := pmkid.length_toList
  have hroom : 1 * pmkidLen ≤ (pmkid.toList ++ rest).length := by
    rw [length_append, hlen]
    exact Nat.le_add_right ..
  have hne : pmkid.toList ++ rest ≠ [] := by
    intro hnil
    rw [hnil] at hroom
    cases hroom
  have hdrop : (pmkid.toList ++ rest).drop (1 * pmkidLen) = rest := drop_left' hlen
  unfold checkPmkid
  rw [append_assoc, leRead2_addShort (by decide), drop_addShort]
  rw [if_pos (by rw [length_append]; exact Nat.le_add_right ..)]
  rw [if_pos ⟨Nat.one_ne_zero, hne⟩, if_pos hroom, hdrop]

def builtBip (P : CryptoParams) : Bytes := if P.mfpEnabled then addCiphers (builtMgmt P) else []

theorem checkPmkid_built (params P : CryptoParams) (pmksa : Option Pmkid) :
    checkPmkid params (builtTail P pmksa) = some (checkBip params (builtBip P)) := by
  unfold builtTail builtBip
  cases pmksa with
  | none =>
    split
    · unfold checkPmkid
      rw [leRead2_addShort (by decide), drop_addShort]
      rw [if_pos (by rw [length_append]; exact Nat.le_add_right ..)]
      rfl
    · rfl
  | some pmkid =>
    split
    · exact checkPmkid_one params pmkid _
    · have hone := checkPmkid_one params pmkid []
      rw [append_nil] at hone
      exact hone

theorem checkCaps_built (params : CryptoParams) (pmksa : Option Pmkid) (hcaps : P.rsnCaps < 65536) :
    checkCaps params (addShort P.rsnCaps ++ builtTail P pmksa) =
      some (checkBip { params with rsnCaps := P.rsnCaps } (builtBip P)) := by
  unfold checkCaps
  rw [leRead2_addShort hcaps, drop_addShort]
  rw [if_pos (by rw [length_append]; exact Nat.le_add_right ..)]
  exact checkPmkid_built _ P pmksa

def rebuiltKeyMgmt (P : CryptoParams) : Set32 :=
  if builtKeyMgmts P = [] then bit 32 KeyMgmt.ieee8021x.type
  else setBits 0 ((builtKeyMgmts P).map KeyMgmt.type)

theorem suiteList_keyMgmts (P : CryptoParams) (rest : Bytes) :
    suiteList keymgmtBit KeyMgmt.ieee8021x.type 0
        (addShort (builtKeyMgmts P).length ++ (addKeyMgmts (builtKeyMgmts P) ++ rest)) =
      some (rebuiltKeyMgmt P, rest) := by
  have hwritten := written_builtKeyMgmts P
  have hws : ∀ w ∈ (builtKeyMgmts P).map keymgmtSuite, w < 2 ^ 32 := by
    intro w hw
    obtain ⟨k, hk, rfl⟩ := mem_map.mp hw
    exact (keymgmtSuite_spec k (hwritten k hk)).2.1
  have hl : ∀ i ∈ (builtKeyMgmts P).map KeyMgmt.type, i < 32 := by
    intro i hi
    obtain ⟨k, hk, rfl⟩ := mem_map.mp hi
    exact (keymgmtSuite_spec k (hwritten k hk)).2.2
  have hlen : ((builtKeyMgmts P).map keymgmtSuite).length < 65536 := by
    have := length_builtKeyMgmts P
    rw [length_map]
    omega
  have hread := suiteList_emitted hws hlen (keymgmtBits hwritten) hl
    (show KeyMgmt.ieee8021x.type < 32 by decide) rest
  rw [length_map] at hread
  simp only [map_eq_nil_iff] at hread
  exact hread

theorem setBits_builtUcast (hin : InScope P) :
    setBits 0 ((builtUcast P).map Cipher.type) = P.ucastcipherset := by
  apply eq_of_shows
  apply (shows_setBits_zero (cipherType_lt _)).congr
  intro i
  rw [mem_map]
  constructor
  · rintro ⟨c, hc, rfl⟩
    exact (has_iff ..).mp (mem_filter.mp hc).2
  · intro hi
    obtain ⟨c, hc, rfl⟩ := hin.ucast i hi
    exact ⟨c, mem_filter.mpr ⟨hc, (has_iff ..).mpr hi⟩, rfl⟩

theorem builtUcast_ne_nil (hin : InScope P) (hne : P.ucastcipherset ≠ 0) : builtUcast P ≠ [] := by
  intro hnil
  apply hne
  rw [← setBits_builtUcast hin, hnil]
  rfl

theorem suiteList_ucast (hin : InScope P) (hne : P.ucastcipherset ≠ 0) (rest : Bytes) :
    suiteList cipherBit Cipher.aesCcm.type 0
        (addShort (builtUcast P).length ++ (addCiphers (builtUcast P) ++ rest)) =
      some (P.ucastcipherset, rest) := by
  have hlen : ((builtUcast P).map rsnCipherToSuite).length < 65536 := by
    have := length_builtUcast P
    rw [length_map]
    omega
  have hread := suiteList_emitted (cipherSuite_lt (builtUcast P)) hlen
    (cipherBits (builtUcast P)) (cipherType_lt (builtUcast P))
    (show Cipher.aesCcm.type < 32 by decide) rest
  rw [length_map, if_neg (mt map_eq_nil_iff.mp (builtUcast_ne_nil hin hne)),
    setBits_builtUcast hin] at hread
  exact hread

theorem addShort_append_ne_nil (v : ℕ) (rest : Bytes) : addShort v ++ rest ≠ [] :=
  cons_ne_nil _ _

theorem two_le_length (v : ℕ) (rest : Bytes) : ¬(addShort v ++ rest).length < 2 := by
  rw [length_append]
  change ¬2 + rest.length < 2
  omega

/-- A built element is accepted. -/
theorem rsnieCheck_built (hin : InScope P) (hc : P.mcastcipherset = bit 32 c.type)
    (hne : P.ucastcipherset ≠ 0) (hcaps : P.rsnCaps < 65536) (pmksa : Option Pmkid) :
    rsnieCheck (buildRsnie P pmksa) =
      some (checkBip ⟨bit 32 authRsna, P.ucastcipherset, bit 32 c.type, 0, rebuiltKeyMgmt P,
        P.rsnCaps⟩ (builtBip P)) := by
  have hkey : ∀ params : CryptoParams, params.keyMgmt = 0 →
      checkKeyMgmt params (addShort (builtKeyMgmts P).length ++ (addKeyMgmts (builtKeyMgmts P) ++
          (addShort P.rsnCaps ++ builtTail P pmksa))) =
        some (checkBip { params with keyMgmt := rebuiltKeyMgmt P, rsnCaps := P.rsnCaps }
          (builtBip P)) := by
    intro params hzero
    unfold checkKeyMgmt
    rw [if_neg (addShort_append_ne_nil _ _), if_neg (two_le_length _ _), hzero, suiteList_keyMgmts]
    exact checkCaps_built _ pmksa hcaps
  have hucast : ∀ params : CryptoParams, params.keyMgmt = 0 → params.ucastcipherset = 0 →
      checkUcast params (addShort (builtUcast P).length ++ (addCiphers (builtUcast P) ++
          (addShort (builtKeyMgmts P).length ++ (addKeyMgmts (builtKeyMgmts P) ++
            (addShort P.rsnCaps ++ builtTail P pmksa))))) =
        some (checkBip { params with
          ucastcipherset := P.ucastcipherset, keyMgmt := rebuiltKeyMgmt P, rsnCaps := P.rsnCaps }
          (builtBip P)) := by
    intro params hzero hzero'
    unfold checkUcast
    rw [if_neg (addShort_append_ne_nil _ _), if_neg (two_le_length _ _), hzero',
      suiteList_ucast hin hne]
    exact hkey _ hzero
  have hsel : ∀ (v : ℕ) (rest : Bytes), addSelector v ++ rest ≠ [] ∧
      ¬(addSelector v ++ rest).length < 4 := by
    intro v rest
    refine ⟨cons_ne_nil _ _, ?_⟩
    rw [length_append]
    change ¬4 + rest.length < 4
    omega
  have hbit : cipherBit (rsnCipherToSuite c) = some c.type := by
    cases c <;> rfl
  have hmcast : setMcast { CryptoParams.zero with authmodeset := bit 32 authRsna } c.type =
      ⟨bit 32 authRsna, 0, bit 32 c.type, 0, 0, 0⟩ :=
    congrArg (fun m => (⟨bit 32 authRsna, 0, m, 0, 0, 0⟩ : CryptoParams)) BitVec.zero_or
  have hlt : c.type < 32 ∧ rsnCipherToSuite c < 2 ^ 32 := by
    cases c <;> decide
  unfold rsnieCheck
  rw [buildRsnie_eq pmksa (isSome_mcast hin hc), payload_append (length_builtBody P c pmksa)]
  unfold builtBody
  rw [if_neg (two_le_length _ _), leRead2_addShort (by decide), drop_addShort,
    if_neg (not_not.mpr rfl)]
  unfold checkMcast
  rw [if_neg (hsel _ _).1, if_neg (hsel _ _).2, leRead4_addSelector hlt.2, hbit]
  dsimp only
  rw [hmcast, if_neg (bit_ne_zero hlt.1)]
  exact hucast _ rfl rfl

end Built

theorem mem_of_lookup {α : Type*} {l : List (ℕ × α)} {a : α} (h : l.lookup w = some a) :
    (w, a) ∈ l := by
  obtain ⟨l₁, l₂, rfl, -⟩ := lookup_eq_some_iff.mp h
  exact mem_append_right _ mem_cons_self

theorem keymgmtBit_eq_some (h : keymgmtBit w = some i) :
    ∃ p ∈ keymgmtSuites, p.1 = w ∧ p.2.type = i := by
  obtain ⟨k, hk, hi⟩ := Option.map_eq_some_iff.mp h
  exact ⟨(w, k), mem_of_lookup hk, rfl, hi⟩

theorem ftSuiteB384_of_type : ∀ p ∈ keymgmtSuites,
    p.2.type = KeyMgmt.ftIeee8021xSha384.type → p.1 = ftSuiteB384 := by decide

theorem mem_keyMgmtOrder : ∀ p ∈ keymgmtSuites, p.2.type ≠ KeyMgmt.ftIeee8021xSha384.type →
    p.2.type ≠ KeyMgmt.cckm.type → p.2 ∈ keyMgmtOrder := by decide

theorem keymgmtSuites_type_lt : ∀ p ∈ keymgmtSuites, p.2.type < 32 := by decide

section Listed

variable {frm : Bytes} {set : Set32}

variable {ws l : List ℕ}

theorem mem_iff_of_map {suiteBit : ℕ → Option ℕ} (h : ws.map suiteBit = l.map some)
    (i : ℕ) : i ∈ l ↔ ∃ w ∈ ws, suiteBit w = some i := by
  have hsome : some i ∈ ws.map suiteBit ↔ i ∈ l := by
    rw [h, mem_map]
    constructor
    · rintro ⟨j, hj, heq⟩
      exact Option.some.inj heq ▸ hj
    · intro hi
      exact ⟨i, hi, rfl⟩
  rw [← hsome, mem_map]

theorem shows_read (h : ws.map keymgmtBit = l.map some) :
    Shows (setBits 0 l) fun i => ∃ w ∈ ws, keymgmtBit w = some i := by
  have hl : ∀ i ∈ l, i < 32 := by
    intro i hi
    obtain ⟨w, -, hw⟩ := (mem_iff_of_map h i).mp hi
    obtain ⟨p, hp, -, rfl⟩ := keymgmtBit_eq_some hw
    exact keymgmtSuites_type_lt p hp
  exact (shows_setBits_zero hl).congr (mem_iff_of_map h)

theorem Listed.known (h : Listed keymgmtBit KeyMgmt.ieee8021x.type frm set) {i : ℕ}
    (hi : set.getLsbD i = true) : ∃ p ∈ keymgmtSuites, p.2.type = i := by
  rcases h.2 with ⟨-, rfl⟩ | ⟨l, hl, rfl⟩
  · rw [getLsbD_bit, Bool.and_eq_true] at hi
    exact ⟨(rsnSel 1, .ieee8021x), by decide, of_decide_eq_true hi.2⟩
  · obtain ⟨w, -, hw⟩ := (shows_read hl i).mp hi
    obtain ⟨p, hp, -, htype⟩ := keymgmtBit_eq_some hw
    exact ⟨p, hp, htype⟩

theorem Listed.ftSuiteB384_iff (h : Listed keymgmtBit KeyMgmt.ieee8021x.type frm set) :
    set.getLsbD KeyMgmt.ftIeee8021xSha384.type = true ↔
      ftSuiteB384 ∈ suites (leRead2 frm) (frm.drop 2) := by
  rcases h.2 with ⟨hzero, rfl⟩ | ⟨l, hl, rfl⟩
  · rw [hzero]
    exact iff_of_false (by decide) not_mem_nil
  · rw [shows_read hl]
    constructor
    · rintro ⟨w, hmem, hw⟩
      obtain ⟨p, hp, rfl, htype⟩ := keymgmtBit_eq_some hw
      exact ftSuiteB384_of_type p hp htype ▸ hmem
    · intro hmem
      exact ⟨ftSuiteB384, hmem, rfl⟩

theorem shows_built (h : Listed keymgmtBit KeyMgmt.ieee8021x.type frm set)
    (hcckm : ¬set.getLsbD KeyMgmt.cckm.type = true) :
    Shows (setBits 0 ((keyMgmtOrder.filter fun k => has set k.type).map KeyMgmt.type)) fun i =>
      set.getLsbD i = true ∧ i ≠ KeyMgmt.ftIeee8021xSha384.type := by
  have horder : ∀ k ∈ keyMgmtOrder, k.type < 32 ∧ k.type ≠ KeyMgmt.ftIeee8021xSha384.type := by decide
  have hl : ∀ i ∈ (keyMgmtOrder.filter fun k => has set k.type).map KeyMgmt.type, i < 32 := by
    intro i hi
    obtain ⟨k, hk, rfl⟩ := mem_map.mp hi
    exact (horder k (mem_of_mem_filter hk)).1
  apply (shows_setBits_zero hl).congr
  intro i
  rw [mem_map]
  constructor
  · rintro ⟨k, hk, rfl⟩
    obtain ⟨hmem, hhas⟩ := mem_filter.mp hk
    exact ⟨(has_iff ..).mp hhas, (horder k hmem).2⟩
  · rintro ⟨hi, hne⟩
    obtain ⟨p, hp, rfl⟩ := h.known hi
    have hmem := mem_keyMgmtOrder p hp hne fun heq => hcckm (heq ▸ hi)
    exact ⟨p.2, mem_filter.mpr ⟨hmem, (has_iff ..).mpr hi⟩, rfl⟩

theorem Listed.rebuilt_iff {P : CryptoParams} (hin : InScope P)
    (h : Listed keymgmtBit KeyMgmt.ieee8021x.type frm P.keyMgmt) :
    rebuiltKeyMgmt P = P.keyMgmt ↔ ftSuiteB384 ∉ suites (leRead2 frm) (frm.drop 2) := by
  rw [← h.ftSuiteB384_iff]
  unfold rebuiltKeyMgmt builtKeyMgmts
  by_cases hcckm : has P.keyMgmt KeyMgmt.cckm.type = true
  · have hset := hin.cckm ((has_iff ..).mp hcckm)
    have hone : setBits 0 [KeyMgmt.cckm.type] = bit 32 KeyMgmt.cckm.type := by decide
    rw [if_pos hcckm, if_neg (cons_ne_nil _ _), map_cons, map_nil, hone, hset]
    exact iff_of_true rfl (by decide)
  · rw [if_neg hcckm]
    generalize hbuilt : (keyMgmtOrder.filter fun k => has P.keyMgmt k.type) = built
    have hshows := shows_built h (mt (has_iff ..).mpr hcckm)
    rw [hbuilt] at hshows
    by_cases hlost : P.keyMgmt.getLsbD KeyMgmt.ftIeee8021xSha384.type = true
    · refine iff_of_false (fun heq => ?_) (not_not.mpr hlost)
      rw [← heq] at hlost
      split at hlost
      · revert hlost
        decide
      · exact ((hshows _).mp hlost).2 rfl
    · have hset : setBits 0 (built.map KeyMgmt.type) = P.keyMgmt := by
        apply eq_of_shows
        apply hshows.congr
        intro i
        apply and_iff_left_of_imp
        rintro hi rfl
        exact hlost hi
      have hne : built ≠ [] := by
        rintro rfl
        exact h.1 hset.symm
      rw [if_neg hne]
      exact iff_of_true hset hlost

end Listed

def bipSet (frm : Bytes) : Set32 :=
  if frm = [] then bit 32 Cipher.aesCmac.type
  else if 4 ≤ frm.length then bit 32 ((cipherBit (leRead4 frm)).getD 31)
  else 0

theorem checkBip_mgmt (hmfp : params.mfpEnabled = true)
    (hzero : params.mgmtcipherset = 0) (frm : Bytes) :
    (checkBip params frm).mgmtcipherset = bipSet frm := by
  unfold checkBip bipSet
  rw [hmfp, hzero]
  by_cases hnil : frm = []
  · rw [if_pos ⟨hnil, rfl⟩, if_pos hnil]
    exact BitVec.zero_or
  · rw [if_neg (fun h => hnil h.1), if_neg hnil]
    split
    · exact BitVec.zero_or
    · exact hzero

theorem bipSet_built_iff (frm : Bytes) :
    bipSet (addCiphers (mgmtOrder.filter fun c => has (bipSet frm) c.type)) = bipSet frm ↔
      frm = [] ∨ 4 ≤ frm.length ∧ (rsnSuiteToCipher (leRead4 frm)).any isMgmtCipher = true := by
  have hcipher : ∀ c : Cipher, bipSet (addCiphers (mgmtOrder.filter fun c' =>
      has (bit 32 c.type) c'.type)) = bit 32 c.type ↔ isMgmtCipher c = true := by
    intro c
    cases c <;> decide
  have hnone : ¬bipSet (addCiphers (mgmtOrder.filter fun c => has (bit 32 31) c.type)) =
      bit 32 31 := by decide
  by_cases hnil : frm = []
  · have hset : bipSet frm = bit 32 Cipher.aesCmac.type := if_pos hnil
    rw [hset]
    exact iff_of_true ((hcipher .aesCmac).mpr rfl) (.inl hnil)
  · by_cases hlen : 4 ≤ frm.length
    · have hset : bipSet frm = bit 32 ((cipherBit (leRead4 frm)).getD 31) := by
        rw [bipSet, if_neg hnil, if_pos hlen]
      rw [hset, or_iff_right hnil, and_iff_right hlen, cipherBit]
      cases hc : rsnSuiteToCipher (leRead4 frm) with
      | none => exact iff_of_false hnone Bool.false_ne_true
      | some c => exact hcipher c
    · have hset : bipSet frm = 0 := by
        rw [bipSet, if_neg hnil, if_neg hlen]
      rw [hset]
      apply iff_of_false
      · decide
      · rintro (h | h)
        · exact hnil h
        · exact hlen h.1

theorem checkBip_mgmt_built (P : CryptoParams) (c : Cipher) (hmfp : P.mfpEnabled = true) :
    (checkBip ⟨bit 32 authRsna, P.ucastcipherset, bit 32 c.type, 0, rebuiltKeyMgmt P, P.rsnCaps⟩
      (builtBip P)).mgmtcipherset =
        bipSet (addCiphers (mgmtOrder.filter fun c => has P.mgmtcipherset c.type)) := by
  have hmfp' : (⟨bit 32 authRsna, P.ucastcipherset, bit 32 c.type, 0, rebuiltKeyMgmt P,
      P.rsnCaps⟩ : CryptoParams).mfpEnabled = true := hmfp
  have hbip : builtBip P = addCiphers (mgmtOrder.filter fun c => has P.mgmtcipherset c.type) :=
    if_pos hmfp
  rw [checkBip_mgmt hmfp' rfl, hbip]

/-- The built element gives the parameters back exactly when the element that they were read from
has only what the builder knows. -/
theorem undone_iff_rebuildable {frm : Bytes} {P : CryptoParams} (h : rsnieCheck frm = some P)
    (hin : InScope P) (pmksa : Option Pmkid) : Undone P pmksa ↔ Rebuildable frm := by
  obtain ⟨c, ucast, set, hne, hlisted, hP⟩ := rsnieCheck_eq_some h
  obtain ⟨hucast, hmcast, hkey, hcaps⟩ := checkBip_fields
    ⟨bit 32 authRsna, ucast, bit 32 c.type, 0, set, leRead2 (capsField frm)⟩ (bipField frm)
  rw [← hP] at hucast hmcast hkey hcaps
  have hlength : ((buildRsnie P pmksa).getD 1 0).toNat + 2 = (buildRsnie P pmksa).length := by
    rw [buildRsnie_eq pmksa (isSome_mcast hin hmcast)]
    change (UInt8.ofNat (builtBody P c pmksa).length).toNat + 2 = (builtBody P c pmksa).length + 1 + 1
    rw [UInt8.toNat_ofNat', Nat.mod_eq_of_lt (length_builtBody P c pmksa)]
  have hne' : P.ucastcipherset ≠ 0 := by
    rw [hucast]
    exact hne
  have hcaps' : P.rsnCaps < 65536 := by
    rw [hcaps]
    exact leRead2_lt (capsField frm)
  have hlisted' : Listed keymgmtBit KeyMgmt.ieee8021x.type (keyMgmtField frm) P.keyMgmt := by
    rw [hkey]
    exact hlisted
  have hmfp : P.mfpEnabled = true ↔ leRead2 (capsField frm) &&& capMfpEnabled ≠ 0 := by
    rw [CryptoParams.mfpEnabled, hcaps, decide_eq_true_iff]
  have hmgmt : P.mfpEnabled = true → P.mgmtcipherset = bipSet (bipField frm) := by
    intro hon
    have hon' : (⟨bit 32 authRsna, ucast, bit 32 c.type, 0, set, leRead2 (capsField frm)⟩ :
        CryptoParams).mfpEnabled = true := decide_eq_true (hmfp.mp hon)
    rw [hP]
    exact checkBip_mgmt hon' rfl _
  have hbuilt := rsnieCheck_built hin hmcast hne' hcaps' pmksa
  obtain ⟨hucast', hmcast', hkey', hrsn'⟩ := checkBip_fields ⟨bit 32 authRsna, P.ucastcipherset,
    bit 32 c.type, 0, rebuiltKeyMgmt P, P.rsnCaps⟩ (builtBip P)
  have hbip := checkBip_mgmt_built P c
  generalize checkBip _ (builtBip P) = P' at hbuilt hucast' hmcast' hkey' hrsn' hbip
  constructor
  · rintro ⟨-, Q, hQ, -, -, hk, -, hg⟩
    obtain rfl : P' = Q := Option.some.inj (hbuilt.symm.trans hQ)
    refine ⟨(hlisted'.rebuilt_iff hin).mp (hkey'.symm.trans hk), fun hon => ?_⟩
    have hg' := hg (hmfp.mpr hon)
    rw [hbip (hmfp.mpr hon), hmgmt (hmfp.mpr hon)] at hg'
    exact (bipSet_built_iff (bipField frm)).mp hg'
  · intro hreb
    refine ⟨hlength, P', hbuilt, hmcast'.trans hmcast.symm, hucast',
      hkey'.trans ((hlisted'.rebuilt_iff hin).mpr hreb.keyMgmt), hrsn', fun hon => ?_⟩
    rw [hbip hon, hmgmt hon]
    exact (bipSet_built_iff (bipField frm)).mpr (hreb.bip (hmfp.mp hon))

def saeFrm : Bytes :=
  [48, 20, 1, 0, 0, 0x0f, 0xac, 4, 1, 0, 0, 0x0f, 0xac, 4, 1, 0, 0, 0x0f, 0xac, 8, 0xc0, 0]

def saeParams : CryptoParams :=
  ⟨bit 32 authRsna, bit 32 Cipher.aesCcm.type, bit 32 Cipher.aesCcm.type,
    bit 32 Cipher.aesCmac.type, bit 32 KeyMgmt.sae.type, 0xc0⟩

def ftSuiteB384Frm : Bytes :=
  [48, 20, 1, 0, 0, 0x0f, 0xac, 4, 1, 0, 0, 0x0f, 0xac, 4, 1, 0, 0, 0x0f, 0xac, 13, 0, 0]

def ftSuiteB384Params : CryptoParams :=
  ⟨bit 32 authRsna, bit 32 Cipher.aesCcm.type, bit 32 Cipher.aesCcm.type, 0,
    bit 32 KeyMgmt.ftIeee8021xSha384.type, 0⟩

theorem inScope_ccmp (hmcast : params.mcastcipherset = bit 32 Cipher.aesCcm.type)
    (hucast : params.ucastcipherset = bit 32 Cipher.aesCcm.type)
    (hcckm : params.keyMgmt.getLsbD KeyMgmt.cckm.type = false) : InScope params where
  mcast := by
    intro i hi
    rw [hmcast, getLsbD_bit, Bool.and_eq_true] at hi
    exact ⟨.aesCcm, by decide, of_decide_eq_true hi.2⟩
  ucast := by
    intro i hi
    rw [hucast, getLsbD_bit, Bool.and_eq_true] at hi
    exact ⟨.aesCcm, by decide, of_decide_eq_true hi.2⟩
  cckm := by
    rw [hcckm]
    intro h
    cases h

theorem saeFrm_undone : rsnieCheck saeFrm = some saeParams ∧ InScope saeParams ∧
    Undone saeParams none := by
  have hcheck : rsnieCheck saeFrm = some saeParams := by decide
  have hin : InScope saeParams := inScope_ccmp rfl rfl (by decide)
  have hreb : Rebuildable saeFrm := ⟨by decide, fun _ => .inl (by decide)⟩
  exact ⟨hcheck, hin, (undone_iff_rebuildable hcheck hin none).mpr hreb⟩

/-- The builder leaves the key management out, and the default is read instead. -/
theorem ftSuiteB384Frm_not_undone : rsnieCheck ftSuiteB384Frm = some ftSuiteB384Params ∧
    InScope ftSuiteB384Params ∧ ¬Undone ftSuiteB384Params none := by
  refine ⟨by decide, inScope_ccmp rfl rfl (by decide), ?_⟩
  rintro ⟨-, params', hread, -, -, hkey, -⟩
  have hbuilt : (rsnieCheck (buildRsnie ftSuiteB384Params none)).map CryptoParams.keyMgmt =
      some (bit 32 KeyMgmt.ieee8021x.type) := by decide
  rw [hread, Option.map_some, hkey] at hbuilt
  revert hbuilt
  decide

end KernelModules.RsnIe
