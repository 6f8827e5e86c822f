import KernelModules.DefragMicChain

/-!
# Taking the MIC off a frame

`ol_rx_frag_tkip_demic` compares the MIC of the data with the last bytes of the frame. The frame is
let through when they differ. The length of the data is cut to 16 bits on the way, and the priority
is read behind the third address, where a frame with four addresses has the fourth.
-/

namespace KernelModules.DefragMic

open Michael (State absorb absorb_append padding)

def demicData (msdu : Nbuf) (hdrlen : ℕ) : List UInt8 :=
  (msdu.payload.drop hdrlen).take (msdu.payload.length - (hdrlen + ieee80211WepMiclen))

def demicTail (msdu : Nbuf) : List UInt8 :=
  msdu.payload.drop (msdu.payload.length - ieee80211WepMiclen)

def toDs (wh : List UInt8) : Prop := fc1 wh &&& 0x01 ≠ 0
deriving Decidable

def fromDs (wh : List UInt8) : Prop := fc1 wh &&& 0x02 ≠ 0
deriving Decidable

def destination (wh : List UInt8) : List UInt8 := if toDs wh then addr3 wh else addr1 wh

def source (wh : List UInt8) : List UInt8 :=
  if fromDs wh then if toDs wh then addr4 wh else addr3 wh else addr2 wh

/-- The TID in a QoS control at that place. -/
def tidAt (wh : List UInt8) (offset : ℕ) : UInt8 :=
  if fc0 wh &&& 0x80 ≠ 0 then wh.getD offset 0 &&& 0x0f else 0

/-- The QoS control is behind the last address, as in `struct ieee80211_qosframe_addr4`. -/
def tid (wh : List UInt8) : UInt8 := tidAt wh (if toDs wh ∧ fromDs wh then 30 else 24)

/-- DA, SA, priority and 3 x 0. -/
def pseudoHeader (wh : List UInt8) (priority : UInt8) : List UInt8 :=
  destination wh ++ source wh ++ [priority, 0, 0, 0]

def michaelMic (key : Vector UInt8 8) (msdu : Nbuf) (priority : UInt8) (data : List UInt8) :
    List UInt8 :=
  let s := Michael.mac (michaelKey key) (pseudoHeader msdu.payload priority) data
  putLe32 s.l ++ putLe32 s.r

def demicked (msdu : Nbuf) : Nbuf :=
  { msdu with payload := msdu.payload.take (msdu.payload.length - ieee80211WepMiclen) }

variable (key : Vector UInt8 8) (msdu : Nbuf) (hdrlen : UInt16)

theorem length_field (wh : List UInt8) (offset n : ℕ) : (field wh offset n).length = n := by
  rw [field, List.length_map, List.length_range]

theorem length_olRxDefragMichdr (wh : List UInt8) : (olRxDefragMichdr wh).length = 16 := by
  simp only [olRxDefragMichdr, addr1, addr2, addr3, addr4]
  split_ifs <;> simp only [List.length_append, length_field, List.length_cons, List.length_nil]

theorem dir_eq (x : UInt8) : x &&& 0x03 =
    if x &&& 0x01 ≠ 0 then if x &&& 0x02 ≠ 0 then 0x03 else 0x01
    else if x &&& 0x02 ≠ 0 then 0x02 else 0x00 := by
  obtain ⟨x⟩ := x
  revert x
  decide

theorem olRxDefragMichdr_eq (wh : List UInt8) :
    olRxDefragMichdr wh = pseudoHeader wh (tidAt wh 24) := by
  rw [olRxDefragMichdr, dir_eq]
  by_cases hto : fc1 wh &&& 0x01 = 0 <;> by_cases hfrom : fc1 wh &&& 0x02 = 0 <;>
    simp [pseudoHeader, destination, source, toDs, fromDs, tidAt, qos0, hto, hfrom]

theorem finish_eq (data : List UInt8) :
    finish (absorb (michaelKey key) (olRxDefragMichdr msdu.payload)) data =
      .done .ok (michaelMic key msdu (tidAt msdu.payload 24) data) := by
  have hhdr : (olRxDefragMichdr msdu.payload).length % 4 = 0 := by
    rw [length_olRxDefragMichdr]
  rw [finish, michaelMic, ← olRxDefragMichdr_eq, Michael.mac, List.append_assoc, absorb_append hhdr]

variable {msdu hdrlen}

theorem olRxFragTkipDemic_eq
    (hlength : hdrlen.toNat + ieee80211WepMiclen ≤ msdu.payload.length) :
    olRxFragTkipDemic key msdu hdrlen =
      let data := demicData msdu hdrlen.toNat
      if demicTail msdu =
          michaelMic key msdu (tidAt msdu.payload 24) (data.take (data.length % 2 ^ 16)) then
        some (.err, msdu)
      else some (.ok, demicked msdu) := by
  obtain ⟨length, hlen⟩ : ∃ length,
      length = msdu.payload.length - (hdrlen.toNat + ieee80211WepMiclen) := ⟨_, rfl⟩
  have hcounted : (UInt16.ofNat length).toNat = length % 2 ^ 16 := UInt16.toNat_ofNat'
  have hmod : length % 2 ^ 16 ≤ length := Nat.mod_le _ _
  have hdata : (demicData msdu hdrlen.toNat).length = length := by
    rw [demicData, ← hlen, List.length_take_of_le]
    rw [List.length_drop]
    omega
  have hmic : olRxDefragMic key msdu [] hdrlen (UInt16.ofNat length) =
      .done .ok (michaelMic key msdu (tidAt msdu.payload 24)
        ((demicData msdu hdrlen.toNat).take (length % 2 ^ 16))) := by
    rw [olRxDefragMic_joined key _ _ (by rw [hcounted]; omega), finish_eq, hcounted, demicData,
      ← hlen, List.take_take, Nat.min_eq_left hmod]
  dsimp only
  rw [olRxFragTkipDemic, hdata, ← hlen]
  rw [hmic]
  exact if_congr eq_comm rfl rfl

/-- The frame is let through, without its MIC, if and only if its last bytes are the MIC of the data;
else it is an error, and the frame is as it was. -/
def Verifies (key : Vector UInt8 8) (msdu : Nbuf) (hdrlen : UInt16) : Prop :=
  olRxFragTkipDemic key msdu hdrlen =
    if demicTail msdu = michaelMic key msdu (tid msdu.payload) (demicData msdu hdrlen.toNat) then
      some (.ok, demicked msdu)
    else some (.err, msdu)
deriving Decidable

/-- The answer is right if and only if the last bytes are either the MIC or the one that is made, but
not both. These differ only if there is more data than 16 bits can count, or if there are four
addresses and the TID is not what is read at the place of the fourth. -/
theorem verifies_iff (hlength : hdrlen.toNat + ieee80211WepMiclen ≤ msdu.payload.length) :
    Verifies key msdu hdrlen ↔
      let wh := msdu.payload
      let data := demicData msdu hdrlen.toNat
      (2 ^ 16 ≤ data.length ∨ toDs wh ∧ fromDs wh ∧ tidAt wh 30 ≠ tidAt wh 24) ∧
        (demicTail msdu = michaelMic key msdu (tid wh) data ↔
          demicTail msdu ≠ michaelMic key msdu (tidAt wh 24) (data.take (data.length % 2 ^ 16))) := by
  have hdemic := olRxFragTkipDemic_eq key hlength
  dsimp only at hdemic ⊢
  rw [Verifies, hdemic]
  have hdiffer : some (Status.err, msdu) ≠ some (Status.ok, demicked msdu) := by simp
  by_cases hother : 2 ^ 16 ≤ (demicData msdu hdrlen.toNat).length ∨
      toDs msdu.payload ∧ fromDs msdu.payload ∧ tidAt msdu.payload 30 ≠ tidAt msdu.payload 24
  · rw [and_iff_right hother]
    split_ifs with hcut hall hall
    · exact iff_of_false hdiffer fun h => h.mp hall hcut
    · exact iff_of_true rfl (iff_of_false hall (not_not_intro hcut))
    · exact iff_of_true rfl (iff_of_true hall hcut)
    · exact iff_of_false hdiffer.symm fun h => hall (h.mpr hcut)
  · -- The MIC is the right one, and the answer is the wrong one.
    obtain ⟨hshort, hplace⟩ := not_or.mp hother
    have htid : tid msdu.payload = tidAt msdu.payload 24 := by
      unfold tid
      split_ifs with hfour
      · by_contra hne
        exact hplace ⟨hfour.1, hfour.2, hne⟩
      · rfl
    rw [Nat.mod_eq_of_lt (Nat.lt_of_not_le hshort), List.take_length, htid]
    refine iff_of_false ?_ fun h => hother h.1
    split_ifs
    · exact hdiffer
    · exact hdiffer.symm

/-- Two bytes of data with TID 0 and their MIC. The fourth address begins with 5. -/
def fourAddresses : Nbuf :=
  ⟨[], [0x88, 0x03] ++ .replicate 22 0 ++ [5, 0, 0, 0, 0, 0, 0, 0] ++ [1, 2] ++
    [29, 40, 67, 121, 10, 13, 224, 47]⟩

theorem fourAddresses_verifies : Verifies (.replicate 8 0) fourAddresses 32 :=
  (verifies_iff (.replicate 8 0) (by decide)).mpr (by decide +kernel)

/-- A header and eight wrong bytes are let through. -/
theorem not_verifies_zeros : ¬ ∀ (key : Vector UInt8 8) (msdu : Nbuf) (hdrlen : UInt16),
    hdrlen.toNat + ieee80211WepMiclen ≤ msdu.payload.length → Verifies key msdu hdrlen := by
  intro hverifies
  exact absurd (hverifies (.replicate 8 0) ⟨[], .replicate 32 0⟩ 24 (by decide))
    (by decide +kernel)

end KernelModules.DefragMic
