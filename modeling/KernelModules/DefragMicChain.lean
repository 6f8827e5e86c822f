import KernelModules.DefragMic
import Mathlib.Data.List.GetD
import Mathlib.Tactic.IntervalCases

/-!
# The MIC over a chain of buffers

Only the places at which the buffers end decide what comes of a chain. Where no block is cut into
three parts and the last bytes are together in one buffer, the result is the MIC of all the data.
-/

namespace KernelModules.DefragMic

open Michael (State absorb absorb_append padding)

theorem rotl_seventeen (x : UInt32) : rotl x 17 = Michael.rotl x 17 := by
  apply UInt32.eq_of_toBitVec_eq
  simp [rotl, Michael.rotl, BitVec.rotateLeft_def]

theorem rotl_three (x : UInt32) : rotl x 3 = Michael.rotl x 3 := by
  apply UInt32.eq_of_toBitVec_eq
  simp [rotl, Michael.rotl, BitVec.rotateLeft_def]

theorem rotr_two (x : UInt32) : rotr x 2 = Michael.rotr x 2 := by
  apply UInt32.eq_of_toBitVec_eq
  simp [rotr, Michael.rotr, BitVec.rotateRight_def]

theorem xswap_eq (x : UInt32) : xswap x = Michael.xswap x := by
  apply UInt32.eq_of_toBitVec_eq
  apply BitVec.eq_of_getLsbD_eq
  intro i hi
  simp only [Michael.xswap, BitVec.getLsbD_append, BitVec.getLsbD_extractLsb']
  interval_cases i <;> simp [xswap]

theorem getLe32Split_eq (b0 b1 b2 b3 : UInt8) :
    getLe32Split b0 b1 b2 b3 = Michael.word b0 b1 b2 b3 := by
  apply UInt32.eq_of_toBitVec_eq
  apply BitVec.eq_of_getLsbD_eq
  intro i hi
  simp only [Michael.word, BitVec.getLsbD_append]
  interval_cases i <;> simp [getLe32Split]

theorem michaelBlock_eq (s : State) : michaelBlock s = Michael.block s := by
  simp only [michaelBlock, Michael.block, rotl_seventeen, rotl_three, rotr_two, xswap_eq]

theorem michaelWord_eq (s : State) (b0 b1 b2 b3 : UInt8) :
    michaelWord s (getLe32Split b0 b1 b2 b3) = Michael.mix s (Michael.word b0 b1 b2 b3) := by
  rw [michaelWord, michaelBlock_eq, getLe32Split_eq, Michael.mix]

theorem words_eq (s : State) (bytes : List UInt8) : words s bytes = absorb s bytes := by
  fun_induction words s bytes with
  | case1 s b0 b1 b2 b3 bytes ih => rw [ih, michaelWord_eq, absorb]
  | case2 s bytes hshort => rw [absorb.eq_2 _ _ hshort]

variable {s : State} {data : List UInt8} {wbuf : Nbuf} {wbufs : List Nbuf}

variable {space e : ℕ} {wh more : List UInt8}

theorem collect_eq {dataLen : ℕ} (h : space ≤ data.length) :
    collect s data space dataLen =
      some (absorb s (data.take (4 * (space / 4))), data.drop (4 * (space / 4)), space % 4,
        dataLen - 4 * (space / 4)) := by
  fun_induction collect s data space dataLen with
  | case1 s b0 b1 b2 b3 data space dataLen hspace ih =>
    rw [ih (by simp only [List.length_cons] at h; omega)]
    obtain ⟨k, rfl⟩ : ∃ k, space = k + 4 := ⟨space - 4, by omega⟩
    have hblocks : 4 * ((k + 4) / 4) = 4 * (k / 4) + 4 := by omega
    rw [hblocks, Nat.add_sub_cancel, michaelWord_eq, Nat.add_mod_right]
    simp only [List.take_succ_cons, List.drop_succ_cons, absorb]
    congr 4
    omega
  | case2 s b0 b1 b2 b3 data space dataLen hspace =>
    rw [Nat.div_eq_of_lt (by omega), Nat.mod_eq_of_lt (by omega)]
    rfl
  | case3 s data space dataLen hdata hspace =>
    match data, hdata with
    | [], _ => simp at h; omega
    | [_], _ => simp at h; omega
    | [_, _], _ => simp at h; omega
    | [_, _, _], _ => simp at h; omega
    | b0 :: b1 :: b2 :: b3 :: data, hdata => exact (hdata b0 b1 b2 b3 data rfl).elim
  | case4 s data space dataLen hdata hspace =>
    rw [Nat.div_eq_of_lt (by omega), Nat.mod_eq_of_lt (by omega)]
    rfl

def finish (s : State) (data : List UInt8) : MicResult :=
  let s := absorb s (data ++ padding data.length)
  .done .ok (putLe32 s.l ++ putLe32 s.r)

theorem finish_append {bytes : List UInt8} (h : bytes.length % 4 = 0) :
    finish s (bytes ++ data) = finish (absorb s bytes) data := by
  have hpadding : padding (bytes ++ data).length = padding data.length := by
    rw [padding, padding, List.length_append, Nat.add_mod, h, Nat.zero_add, Nat.mod_mod]
  rw [finish, hpadding, List.append_assoc, absorb_append h, finish]

theorem lastBlock_eq {dataLen : ℕ} (h : dataLen < 4) :
    lastBlock s data dataLen =
      if dataLen ≤ data.length then finish s (data.take dataLen) else .beyond := by
  have hlast (b0 b1 b2 b3 : UInt8) :
      michaelBlock (michaelWord s (getLe32Split b0 b1 b2 b3)) =
        absorb s [b0, b1, b2, b3, 0, 0, 0, 0] := by
    rw [michaelBlock_eq, michaelWord_eq, ← Michael.mix_zero]
    rfl
  match dataLen, data, h with
  | 0, _, _ => simp only [lastBlock, hlast]; rfl
  | 1, [], _ => rfl
  | 1, b0 :: _, _ => simp only [lastBlock, hlast]; rfl
  | 2, [], _ => rfl
  | 2, [_], _ => rfl
  | 2, b0 :: b1 :: _, _ => simp only [lastBlock, hlast]; simp; rfl
  | 3, [], _ => rfl
  | 3, [_], _ => rfl
  | 3, [_, _], _ => rfl
  | 3, b0 :: b1 :: b2 :: _, _ => simp only [lastBlock, hlast]; rfl

def ends : ℕ → List Nbuf → List ℕ
  | space, [] => [space]
  | space, wbuf :: wbufs => space :: ends (space + wbuf.payload.length) wbufs

def SameBlock (dataLen e e' : ℕ) : Prop :=
  e % 4 ≠ 0 ∧ e' / 4 = e / 4 ∧ e / 4 < dataLen / 4
deriving Decidable

def Straddled (dataLen : ℕ) (es : List ℕ) : Prop :=
  ∃ e ∈ es.zip es.tail, SameBlock dataLen e.1 e.2

def Confined (dataLen : ℕ) (es : List ℕ) : Prop :=
  ∀ e ∈ es, e < 4 * (dataLen / 4) ∨ dataLen ≤ e
deriving Decidable

instance (dataLen : ℕ) (es : List ℕ) : Decidable (Straddled dataLen es) :=
  inferInstanceAs (Decidable (∃ e ∈ es.zip es.tail, SameBlock dataLen e.1 e.2))

theorem le_of_mem_ends (h : e ∈ ends space wbufs) : space ≤ e := by
  induction wbufs generalizing space with
  | nil => exact (List.mem_singleton.mp h).ge
  | cons wbuf wbufs ih =>
    rcases List.mem_cons.mp h with rfl | h
    · rfl
    · exact (Nat.le_add_right space wbuf.payload.length).trans (ih h)

theorem ends_add (space k : ℕ) : ends (space + k) wbufs = (ends space wbufs).map (· + k) := by
  induction wbufs generalizing space with
  | nil => rfl
  | cons wbuf wbufs ih =>
    rw [ends, ends, List.map_cons, ← ih, Nat.add_right_comm]

theorem straddled_cons {dataLen : ℕ} :
    Straddled dataLen (e :: ends space wbufs) ↔
      SameBlock dataLen e space ∨ Straddled dataLen (ends space wbufs) := by
  cases wbufs <;> simp [Straddled, ends]

theorem straddled_add (dataLen space k : ℕ) :
    Straddled (dataLen + 4 * k) (ends (space + 4 * k) wbufs) ↔
      Straddled dataLen (ends space wbufs) := by
  have hsame (e e' : ℕ) :
      SameBlock (dataLen + 4 * k) (e + 4 * k) (e' + 4 * k) ↔ SameBlock dataLen e e' := by
    simp only [SameBlock]
    omega
  simp only [Straddled, ends_add, ← List.map_tail, List.zip_map, List.mem_map,
    exists_exists_and_eq_and, Prod.map, hsame]

theorem confined_add (dataLen space k : ℕ) :
    Confined (dataLen + 4 * k) (ends (space + 4 * k) wbufs) ↔
      Confined dataLen (ends space wbufs) := by
  simp only [Confined, ends_add, List.forall_mem_map]
  refine forall₂_congr fun e _ => ?_
  omega

theorem ends_last (wbufs : List Nbuf) {dataLen : ℕ} (h : dataLen / 4 ≤ space / 4) :
    ¬ Straddled dataLen (ends space wbufs) ∧
      (Confined dataLen (ends space wbufs) ↔ dataLen ≤ space) := by
  refine ⟨?_, fun hconfined => ?_, fun hle e he => Or.inr (hle.trans (le_of_mem_ends he))⟩
  · rintro ⟨e, he, -, -, hshort⟩
    have hle := Nat.div_le_div_right (c := 4) (le_of_mem_ends (List.of_mem_zip he).1)
    exact (h.trans hle).not_gt hshort
  · have hmem : space ∈ ends space wbufs := by cases wbufs <;> exact List.mem_cons_self
    refine (hconfined space hmem).resolve_left fun hlt => ?_
    omega

theorem micLoop_last {dataLen : ℕ} (h : dataLen / 4 ≤ data.length / 4) :
    micLoop s data data.length dataLen wbufs =
      if dataLen ≤ data.length then finish s (data.take dataLen) else .beyond := by
  let space := if dataLen < data.length then dataLen else data.length
  have hspace : space ≤ data.length ∧ 4 * (space / 4) = 4 * (dataLen / 4) := by
    simp only [space]
    split_ifs <;> omega
  have hcollect : collect s data space dataLen = _ := collect_eq hspace.1
  rw [hspace.2] at hcollect
  have hrest : dataLen - 4 * (dataLen / 4) < 4 := by omega
  have hblock : micLoop s data data.length dataLen wbufs =
      lastBlock (absorb s (data.take (4 * (dataLen / 4)))) (data.drop (4 * (dataLen / 4)))
        (dataLen - 4 * (dataLen / 4)) := by
    cases wbufs <;> simp only [micLoop, space, hcollect, if_pos hrest]
  rw [hblock, lastBlock_eq hrest, List.length_drop]
  have hwhole : (data.take (4 * (dataLen / 4))).length % 4 = 0 := by
    rw [List.length_take_of_le (by omega), Nat.mul_mod_right]
  rw [← finish_append hwhole, ← List.take_add, Nat.add_sub_cancel' (Nat.mul_div_le dataLen 4)]
  congr 1
  refine propext ⟨fun hle => ?_, fun hle => ?_⟩ <;> omega

theorem collect_short {dataLen : ℕ} (h : data.length / 4 < dataLen / 4) :
    collect s data (if dataLen < data.length then dataLen else data.length) dataLen =
        some (absorb s (data.take (4 * (data.length / 4))), data.drop (4 * (data.length / 4)),
          data.length % 4, dataLen - 4 * (data.length / 4)) ∧
      ¬ dataLen - 4 * (data.length / 4) < 4 := by
  rw [if_neg (by omega), collect_eq le_rfl]
  exact ⟨rfl, by omega⟩

theorem micLoop_straddled {dataLen : ℕ}
    (h : SameBlock dataLen data.length (data.length + wbuf.payload.length)) :
    micLoop s data data.length dataLen (wbuf :: wbufs) = .done .err [] := by
  obtain ⟨hspace, hsame, hshort⟩ := h
  obtain ⟨hcollect, hlong⟩ := collect_short (s := s) hshort
  simp only [micLoop, hcollect]
  rw [if_neg hlong, if_pos hspace, if_pos (by omega)]

theorem micLoop_next {dataLen : ℕ} (hshort : data.length / 4 < dataLen / 4)
    (hsame : ¬ SameBlock dataLen data.length (data.length + wbuf.payload.length)) :
    micLoop s data data.length dataLen (wbuf :: wbufs) =
      micLoop (absorb s ((data ++ wbuf.payload).take (4 * ((data.length + 3) / 4))))
        ((data ++ wbuf.payload).drop (4 * ((data.length + 3) / 4)))
        ((data ++ wbuf.payload).drop (4 * ((data.length + 3) / 4))).length
        (dataLen - 4 * ((data.length + 3) / 4)) wbufs := by
  obtain ⟨hcollect, hlong⟩ := collect_short (s := s) hshort
  simp only [micLoop, hcollect]
  rw [if_neg hlong]
  obtain ⟨whole, tail, rfl, hwhole, htail⟩ : ∃ whole tail, data = whole ++ tail ∧
      whole.length = 4 * (data.length / 4) ∧ tail.length = data.length % 4 :=
    ⟨data.take (4 * (data.length / 4)), data.drop (4 * (data.length / 4)),
      (List.take_append_drop _ _).symm, List.length_take_of_le (Nat.mul_div_le _ 4), by
        rw [List.length_drop]; omega⟩
  rw [← hwhole, ← htail, List.take_left, List.drop_left]
  have hwords : whole.length % 4 = 0 := by rw [hwhole, Nat.mul_mod_right]
  have hroom : tail.length = 0 ∨ 4 ≤ tail.length + wbuf.payload.length := by
    simp only [SameBlock] at hsame
    omega
  have hcut : 4 * (((whole ++ tail).length + 3) / 4) = whole.length + 4 * ((tail.length + 3) / 4) := by
    rw [List.length_append]
    omega
  have htail4 : tail.length < 4 := htail ▸ Nat.mod_lt _ (by decide)
  rw [hcut, List.append_assoc, List.take_length_add_append, List.drop_length_add_append,
    absorb_append hwords, ← Nat.sub_sub]
  match tail, wbuf.payload, htail4, hroom with
  | [], _, _, _ => simp [absorb]
  | [b0], n0 :: n1 :: n2 :: _, _, _ => simp [absorb, michaelWord_eq]
  | [b0, b1], n0 :: n1 :: _, _, _ => simp [absorb, michaelWord_eq]
  | [b0, b1, b2], n0 :: _, _, _ => simp [absorb, michaelWord_eq]

/-- Every split of the data: an error, the MIC of all of it, or a read behind a buffer. -/
theorem micLoop_eq {dataLen : ℕ}
    (h : dataLen ≤ (data ++ wbufs.flatMap Nbuf.payload).length) :
    micLoop s data data.length dataLen wbufs =
      if Straddled dataLen (ends data.length wbufs) then .done .err []
      else if Confined dataLen (ends data.length wbufs) then
        finish s ((data ++ wbufs.flatMap Nbuf.payload).take dataLen)
      else .beyond := by
  induction wbufs generalizing s data dataLen with
  | nil =>
    rw [List.flatMap_nil, List.append_nil] at h ⊢
    obtain ⟨hstraddled, hconfined⟩ := ends_last [] (Nat.div_le_div_right (c := 4) h)
    rw [micLoop_last (Nat.div_le_div_right h), if_neg hstraddled, if_pos h,
      if_pos (hconfined.mpr h)]
  | cons wbuf wbufs ih =>
    rw [List.flatMap_cons, ← List.append_assoc] at h ⊢
    by_cases hlast : dataLen / 4 ≤ data.length / 4
    · obtain ⟨hstraddled, hconfined⟩ := ends_last (wbuf :: wbufs) hlast
      rw [micLoop_last hlast, if_neg hstraddled]
      by_cases hle : dataLen ≤ data.length
      · rw [if_pos hle, if_pos (hconfined.mpr hle), List.append_assoc,
          List.take_append_of_le_length hle]
      · rw [if_neg hle, if_neg (mt hconfined.mp hle)]
    by_cases hsame : SameBlock dataLen data.length (data.length + wbuf.payload.length)
    · rw [micLoop_straddled hsame, ends, if_pos (straddled_cons.mpr (Or.inl hsame))]
    -- What is left begins behind the words that are taken here.
    let cut := (data.length + 3) / 4
    let next := (data ++ wbuf.payload).drop (4 * cut)
    have hcut : 4 * cut ≤ data.length + wbuf.payload.length ∧ 4 * cut ≤ dataLen := by
      simp only [SameBlock, cut] at hsame ⊢
      omega
    have hfront : 4 * cut ≤ (data ++ wbuf.payload).length := by
      rw [List.length_append]
      exact hcut.1
    have hnext : data.length + wbuf.payload.length = next.length + 4 * cut := by
      rw [List.length_drop, List.length_append, Nat.sub_add_cancel hcut.1]
    have hdrop : next ++ wbufs.flatMap Nbuf.payload =
        (data ++ wbuf.payload ++ wbufs.flatMap Nbuf.payload).drop (4 * cut) := by
      rw [List.drop_append_of_le_length hfront]
    have htake : (data ++ wbuf.payload ++ wbufs.flatMap Nbuf.payload).take dataLen =
        (data ++ wbuf.payload).take (4 * cut) ++
          (next ++ wbufs.flatMap Nbuf.payload).take (dataLen - 4 * cut) := by
      have hwords : (data ++ wbuf.payload).take (4 * cut) =
          (data ++ wbuf.payload ++ wbufs.flatMap Nbuf.payload).take (4 * cut) :=
        (List.take_append_of_le_length hfront).symm
      rw [hdrop, hwords, ← List.take_add, Nat.add_sub_cancel' hcut.2]
    have hstraddled : Straddled dataLen (ends data.length (wbuf :: wbufs)) ↔
        Straddled (dataLen - 4 * cut) (ends next.length wbufs) := by
      rw [ends, straddled_cons, or_iff_right hsame, hnext,
        ← straddled_add (dataLen - 4 * cut) next.length cut, Nat.sub_add_cancel hcut.2]
    have hconfined : Confined dataLen (ends data.length (wbuf :: wbufs)) ↔
        Confined (dataLen - 4 * cut) (ends next.length wbufs) := by
      rw [ends, Confined, List.forall_mem_cons, and_iff_right (Or.inl (by omega)), hnext,
        ← confined_add (dataLen - 4 * cut) next.length cut, Nat.sub_add_cancel hcut.2]
      rfl
    have hlength : dataLen - 4 * cut ≤ (next ++ wbufs.flatMap Nbuf.payload).length := by
      rw [hdrop, List.length_drop]
      exact Nat.sub_le_sub_right h _
    rw [micLoop_next (Nat.lt_of_not_le hlast) hsame, ih hlength, htake, finish_append]
    · simp only [hstraddled, hconfined]
      rfl
    · rw [List.length_take_of_le hfront, Nat.mul_mod_right]

def joined (wbuf : Nbuf) (wbufs : List Nbuf) : Nbuf :=
  { wbuf with payload := wbuf.payload ++ wbufs.flatMap Nbuf.payload }

theorem field_append {offset n : ℕ} (h : offset + n ≤ wh.length) :
    field (wh ++ more) offset n = field wh offset n := by
  refine List.map_congr_left fun i hi => ?_
  exact List.getD_append _ _ _ _ (by have := List.mem_range.mp hi; omega)

theorem dir_eq_three {fc : UInt8} (h0 : fc &&& 0x03 ≠ 0x00) (h1 : fc &&& 0x03 ≠ 0x01)
    (h2 : fc &&& 0x03 ≠ 0x02) : fc &&& 0x03 = 0x03 := by
  have hle : (fc &&& 0x03).toNat ≤ 3 := by
    rw [UInt8.toNat_and]
    exact Nat.and_le_right
  rw [ne_eq, ← UInt8.toNat_inj] at h0 h1 h2
  rw [← UInt8.toNat_inj]
  change _ ≠ 0 at h0
  change _ ≠ 1 at h1
  change _ ≠ 2 at h2
  change _ = 3
  omega

theorem olRxDefragMichdr_append (h : michdrSize wh ≤ wh.length) :
    olRxDefragMichdr (wh ++ more) = olRxDefragMichdr wh := by
  have hsize : 22 ≤ wh.length := by
    refine le_trans ?_ h
    rw [michdrSize]
    split_ifs <;> decide
  have hfc0 : fc0 (wh ++ more) = fc0 wh := List.getD_append _ _ _ _ (by omega)
  have hfc1 : fc1 (wh ++ more) = fc1 wh := List.getD_append _ _ _ _ (by omega)
  have haddr1 : addr1 (wh ++ more) = addr1 wh := field_append (by omega)
  have haddr2 : addr2 (wh ++ more) = addr2 wh := field_append (by omega)
  have haddr3 : addr3 (wh ++ more) = addr3 wh := field_append (by omega)
  have haddr4 (hdir : fc1 wh &&& 0x03 = 0x03) : addr4 (wh ++ more) = addr4 wh := by
    rw [michdrSize, if_pos hdir] at h
    exact field_append h
  have hqos (hqos : fc0 wh &&& 0x80 ≠ 0) : qos0 (wh ++ more) = qos0 wh := by
    refine List.getD_append _ _ _ _ ?_
    rw [michdrSize, if_pos hqos] at h
    split_ifs at h <;> omega
  simp only [olRxDefragMichdr, hfc0, hfc1, haddr1, haddr2, haddr3]
  congr 1
  · split_ifs with hnods htods hfromds
    · rfl
    · rfl
    · rfl
    · rw [haddr4 (dir_eq_three hnods htods hfromds)]
  · split_ifs with hsubtype
    · rw [hqos hsubtype]
    · rfl

def michaelKey (key : Vector UInt8 8) : State :=
  ⟨Michael.word key[0] key[1] key[2] key[3], Michael.word key[4] key[5] key[6] key[7]⟩

variable (key : Vector UInt8 8) (off dataLen : UInt16)

theorem olRxDefragMic_eq (hoff : off.toNat ≤ wbuf.payload.length)
    (hdata : off.toNat + dataLen.toNat ≤ (joined wbuf wbufs).payload.length) :
    olRxDefragMic key wbuf wbufs off dataLen =
      let es := ends (wbuf.payload.length - off.toNat) wbufs
      if Straddled dataLen.toNat es then .done .err []
      else if Confined dataLen.toNat es then
        finish (absorb (michaelKey key) (olRxDefragMichdr wbuf.payload))
          (((joined wbuf wbufs).payload.drop off.toNat).take dataLen.toNat)
      else .beyond := by
  have hdrop : (joined wbuf wbufs).payload.drop off.toNat =
      wbuf.payload.drop off.toNat ++ wbufs.flatMap Nbuf.payload :=
    List.drop_append_of_le_length hoff
  have hroom : dataLen.toNat ≤ (wbuf.payload.drop off.toNat ++ wbufs.flatMap Nbuf.payload).length := by
    rw [← hdrop, List.length_drop]
    exact Nat.le_sub_of_add_le' hdata
  have hkey : State.mk (getLe32Split (key.toList.getD 0 0) (key.toList.getD 1 0)
        (key.toList.getD 2 0) (key.toList.getD 3 0))
      (getLe32Split (key.toList.getD 4 0) (key.toList.getD 5 0) (key.toList.getD 6 0)
        (key.toList.getD 7 0)) = michaelKey key := by
    simp [getLe32Split_eq, michaelKey]
  rw [olRxDefragMic, hdrop]
  simp only [hkey, words_eq]
  rw [← List.length_drop, micLoop_eq hroom]

theorem olRxDefragMic_joined
    (hdata : off.toNat + dataLen.toNat ≤ wbuf.payload.length) :
    olRxDefragMic key wbuf [] off dataLen =
      finish (absorb (michaelKey key) (olRxDefragMichdr wbuf.payload))
        ((wbuf.payload.drop off.toNat).take dataLen.toNat) := by
  have hjoined : joined wbuf [] = wbuf := by simp [joined]
  have hspace : dataLen.toNat ≤ wbuf.payload.length - off.toNat := Nat.le_sub_of_add_le' hdata
  obtain ⟨hstraddled, hconfined⟩ :=
    ends_last [] (Nat.div_le_div_right (c := 4) hspace)
  rw [olRxDefragMic_eq key off dataLen (Nat.le_of_add_right_le hdata) (hjoined.symm ▸ hdata)]
  simp only [if_neg hstraddled, if_pos (hconfined.mpr hspace), hjoined]

/-- The result over the chain is that over one buffer, or an error, and nothing behind a buffer has
been read. -/
def SplitFree (wbuf : Nbuf) (wbufs : List Nbuf) : Prop :=
  (olRxDefragMic key wbuf wbufs off dataLen =
      olRxDefragMic key (joined wbuf wbufs) [] off dataLen ∨
    olRxDefragMic key wbuf wbufs off dataLen = .done .err []) ∧
  olRxDefragMic key wbuf wbufs off dataLen ≠ .beyond
deriving Decidable

theorem splitFree_iff (hhdr : michdrSize wbuf.payload ≤ wbuf.payload.length)
    (hoff : off.toNat ≤ wbuf.payload.length)
    (hdata : off.toNat + dataLen.toNat ≤ (joined wbuf wbufs).payload.length) :
    SplitFree key off dataLen wbuf wbufs ↔
      Straddled dataLen.toNat (ends (wbuf.payload.length - off.toNat) wbufs) ∨
        Confined dataLen.toNat (ends (wbuf.payload.length - off.toNat) wbufs) := by
  have hchain := olRxDefragMic_eq key off dataLen hoff hdata
  have hsingle := olRxDefragMic_joined key off dataLen hdata
  have hmichdr : olRxDefragMichdr (joined wbuf wbufs).payload = olRxDefragMichdr wbuf.payload :=
    olRxDefragMichdr_append hhdr
  rw [hmichdr] at hsingle
  dsimp only at hchain
  rw [SplitFree, hchain, hsingle]
  split_ifs with hstraddled hconfined
  · simp [hstraddled]
  · simp [hconfined, finish]
  · simp [hstraddled, hconfined]

theorem splitFree_word : SplitFree (.replicate 8 7) 24 9
    ⟨[], .replicate 26 1⟩ [⟨[], .replicate 8 2⟩] :=
  (splitFree_iff (.replicate 8 7) 24 9 (by decide) (by decide) (by decide)).mpr
    (by decide)

/-- The header alone, and one byte of data in the next buffer. -/
theorem not_splitFree_header : ¬ ∀ (key : Vector UInt8 8) (off dataLen : UInt16) (wbuf : Nbuf)
    (wbufs : List Nbuf), michdrSize wbuf.payload ≤ wbuf.payload.length →
      off.toNat ≤ wbuf.payload.length →
      off.toNat + dataLen.toNat ≤ (joined wbuf wbufs).payload.length →
      SplitFree key off dataLen wbuf wbufs := by
  intro hfree
  exact absurd (hfree (.replicate 8 7) 24 1 ⟨[], .replicate 24 1⟩ [⟨[], [2]⟩] (by decide)
    (by decide) (by decide)) (by decide +kernel)

end KernelModules.DefragMic
