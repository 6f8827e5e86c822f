import KernelModules.Bip
import Mathlib.Data.List.GetD

/-!
# Which frames the receiver accepts

The comparison of the bytes from the lowest one on agrees with the order of the counts where they
are ordered alike in the lowest and in the highest byte in which they differ. A frame of the
sender passes every other check.
-/

namespace KernelModules.Bip

theorem memCmp_cons (x y : UInt8) (a b : Bytes) :
    memCmp (x :: a) (y :: b) = if x < y then .lt else if y < x then .gt else memCmp a b := rfl

theorem memCmp_append {a b : Bytes} (hab : a.length = b.length) (c d : Bytes) :
    memCmp (a ++ c) (b ++ d) = (memCmp a b).then (memCmp c d) := by
  induction a generalizing b with
  | nil =>
    cases b with
    | nil => rfl
    | cons y b => cases hab
  | cons x a ih =>
    cases b with
    | nil => cases hab
    | cons y b =>
      rw [List.cons_append, List.cons_append, memCmp_cons, memCmp_cons, ih (Nat.succ.inj hab)]
      split
      · rfl
      · split
        · rfl
        · rfl

theorem memCmp_singleton (x y : UInt8) : memCmp [x] [y] = compare x.toNat y.toNat := by
  rw [memCmp_cons]
  rcases Nat.lt_trichotomy x.toNat y.toNat with h | h | h
  · rw [if_pos (UInt8.lt_iff_toNat_lt.mpr h)]
    exact (Nat.compare_eq_lt.mpr h).symm
  · rw [if_neg (fun hlt => absurd (UInt8.lt_iff_toNat_lt.mp hlt) (by omega)),
      if_neg (fun hlt => absurd (UInt8.lt_iff_toNat_lt.mp hlt) (by omega))]
    exact (Nat.compare_eq_eq.mpr h).symm
  · rw [if_neg (fun hlt => absurd (UInt8.lt_iff_toNat_lt.mp hlt) (by omega)),
      if_pos (UInt8.lt_iff_toNat_lt.mpr h)]
    exact (Nat.compare_eq_gt.mpr h).symm

theorem leValue_cons (b : UInt8) (bs : Bytes) : leValue (b :: bs) = b.toNat + 256 * leValue bs := rfl

theorem memCmp_reverse {a b : Bytes} (hab : a.length = b.length) :
    memCmp a.reverse b.reverse = compare (leValue a) (leValue b) := by
  induction a generalizing b with
  | nil =>
    cases b with
    | nil => rfl
    | cons y b => cases hab
  | cons x a ih =>
    cases b with
    | nil => cases hab
    | cons y b =>
      have hlen : a.length = b.length := Nat.succ.inj hab
      rw [List.reverse_cons, List.reverse_cons,
        memCmp_append (by rw [List.length_reverse, List.length_reverse, hlen]), ih hlen,
        memCmp_singleton]
      have hx := x.toNat_lt
      have hy := y.toNat_lt
      rw [leValue_cons, leValue_cons]
      rcases Nat.lt_trichotomy (leValue a) (leValue b) with h | h | h
      · have hlt : x.toNat + 256 * leValue a < y.toNat + 256 * leValue b := by omega
        rw [Nat.compare_eq_lt.mpr h, Nat.compare_eq_lt.mpr hlt]
        rfl
      · rw [Nat.compare_eq_eq.mpr h, h]
        change compare x.toNat y.toNat = _
        rcases Nat.lt_trichotomy x.toNat y.toNat with h' | h' | h'
        · exact (Nat.compare_eq_lt.mpr h').trans (Nat.compare_eq_lt.mpr (by omega)).symm
        · exact (Nat.compare_eq_eq.mpr h').trans (Nat.compare_eq_eq.mpr (by omega)).symm
        · exact (Nat.compare_eq_gt.mpr h').trans (Nat.compare_eq_gt.mpr (by omega)).symm
      · have hgt : y.toNat + 256 * leValue b < x.toNat + 256 * leValue a := by omega
        rw [Nat.compare_eq_gt.mpr h, Nat.compare_eq_gt.mpr hgt]
        rfl

theorem OrderedAlike.memCmp_eq {a b : Vector UInt8 6} (h : OrderedAlike a b) :
    memCmp a.toList b.toList = compare (leValue a.toList) (leValue b.toList) := by
  have hlen : a.toList.length = b.toList.length := by
    rw [Vector.length_toList, Vector.length_toList]
  exact h.trans (memCmp_reverse hlen)

theorem OrderedAlike.gt_iff {a b : Vector UInt8 6} (h : OrderedAlike a b) :
    memCmp a.toList b.toList = .gt ↔ leValue b.toList < leValue a.toList := by
  rw [h.memCmp_eq]
  exact Nat.compare_eq_gt

theorem length_mmieHead (type : Cipher) (keyix : ℕ) (pn : Vector UInt8 6) :
    (mmieHead type keyix pn).length = 10 := by
  unfold mmieHead
  rw [List.length_append, Vector.length_toList]
  rfl

theorem length_mic {mac : Mac} {type : Cipher} {keyval frame data m : Bytes} {pn : Vector UInt8 6}
    (h : mic mac type keyval frame pn data = some m) : m.length = 16 := by
  cases type with
  | other => cases h
  | _ =>
    rw [← Option.some.inj h]
    exact Vector.length_toList ..

theorem micLen_le (type : Cipher) : micLen type ≤ 16 := by
  unfold micLen
  split <;> omega

section Header

variable (hdr : Vector UInt8 24) (rest : Bytes)

theorem aad_append : aad (hdr.toList ++ rest) = aad hdr.toList := by
  have hlen := hdr.length_toList
  unfold aad
  rw [List.getD_append _ _ _ _ (by omega), List.getD_append _ _ _ _ (by omega),
    List.drop_append_of_le_length (by omega),
    List.take_append_of_le_length (by rw [List.length_drop]; omega)]

theorem nonce_append (pn : Vector UInt8 6) : nonce (hdr.toList ++ rest) pn = nonce hdr.toList pn := by
  have hlen := hdr.length_toList
  unfold nonce
  rw [List.drop_append_of_le_length (by omega),
    List.take_append_of_le_length (by rw [List.length_drop]; omega)]

theorem drop_hdrLen : (hdr.toList ++ rest).drop hdrLen = rest := by
  have hlen : hdrLen = hdr.toList.length := hdr.length_toList.symm
  rw [hlen]
  exact List.drop_left

theorem mic_append (mac : Mac) (type : Cipher) (keyval : Bytes) (pn : Vector UInt8 6)
    (data : Bytes) :
    mic mac type keyval (hdr.toList ++ rest) pn data = mic mac type keyval hdr.toList pn data := by
  unfold mic
  rw [nonce_append]

theorem protectedData_append (type : Cipher) (body : Bytes) :
    protectedData type (hdr.toList ++ rest) body = protectedData type hdr.toList body := by
  unfold protectedData
  rw [aad_append]

end Header

/-- A frame that the sender makes of a management frame and a count. -/
structure Made (mac : Mac) (type : Cipher) (keyix : ℕ) (keyval : Bytes) where
  mgmt : Mgmt
  pn : Vector UInt8 6
  tag : Bytes
  eq_tag : mic mac type keyval (mgmt.hdr.toList ++ mgmt.body ++ mmieHead type keyix pn) pn
    (protectedData type (mgmt.hdr.toList ++ mgmt.body ++ mmieHead type keyix pn)
      ((mgmt.hdr.toList ++ mgmt.body ++ mmieHead type keyix pn).drop hdrLen)) = some tag

namespace Made

variable {mac : Mac} {type : Cipher} {keyix : ℕ} {keyval : Bytes}

def frame (f : Made mac type keyix keyval) : Bytes :=
  f.mgmt.hdr.toList ++ f.mgmt.body ++ mmieHead type keyix f.pn ++ f.tag.take (micLen type)

theorem frame_eq (f : Made mac type keyix keyval) : f.frame = f.mgmt.hdr.toList ++
    (f.mgmt.body ++ mmieHead type keyix f.pn ++ f.tag.take (micLen type)) := by
  unfold frame
  rw [List.append_assoc, List.append_assoc, List.append_assoc]

theorem length_tag (f : Made mac type keyix keyval) :
    (f.tag.take (micLen type)).length = micLen type := by
  rw [List.length_take, length_mic f.eq_tag]
  exact Nat.min_eq_left (micLen_le type)

theorem length_frame (f : Made mac type keyix keyval) :
    f.frame.length = 24 + f.mgmt.body.length + 10 + micLen type := by
  unfold frame
  simp only [List.length_append, Vector.length_toList, length_mmieHead, f.length_tag]

theorem mmieOf_eq (f : Made mac type keyix keyval) :
    mmieOf type f.frame = mmieHead type keyix f.pn ++ f.tag.take (micLen type) := by
  have hlen := f.length_frame
  have hdrop : f.frame.length - (10 + micLen type) = (f.mgmt.hdr.toList ++ f.mgmt.body).length := by
    rw [List.length_append, Vector.length_toList]
    omega
  unfold mmieOf
  rw [hdrop, frame, List.append_assoc]
  exact List.drop_left

theorem elementId_eq (f : Made mac type keyix keyval) :
    (mmieOf type f.frame).getD 0 0 = elemidMmie := by
  rw [f.mmieOf_eq]
  rfl

theorem keyIdOf_eq (f : Made mac type keyix keyval) (hkey : keyix < 2 ^ 16) :
    keyIdOf (mmieOf type f.frame) = keyix := by
  rw [f.mmieOf_eq]
  change (UInt8.ofNat keyix).toNat + 256 * (UInt8.ofNat (keyix / 256)).toNat = keyix
  rw [UInt8.toNat_ofNat', UInt8.toNat_ofNat']
  omega

theorem ipnOf_eq (f : Made mac type keyix keyval) : ipnOf (mmieOf type f.frame) = f.pn := by
  rw [f.mmieOf_eq]
  apply Vector.ext
  intro i hi
  unfold ipnOf
  rw [Vector.getElem_ofFn]
  change ((mmieHead type keyix f.pn).take 4 ++ (f.pn.toList ++ f.tag.take (micLen type))).getD
    (4 + i) 0 = f.pn[i]
  have hlen : i < f.pn.toList.length := by
    rw [Vector.length_toList]
    exact hi
  rw [List.getD_append_right _ _ _ _ (by change 4 ≤ 4 + i; omega)]
  change (f.pn.toList ++ f.tag.take (micLen type)).getD (4 + i - 4) 0 = f.pn[i]
  rw [Nat.add_sub_cancel_left, List.getD_append _ _ _ _ hlen, List.getD_eq_getElem _ _ hlen,
    Vector.getElem_toList]

theorem micMatches_eq (f : Made mac type keyix keyval) (hlen : f.frame.length < 2 ^ 16) :
    micMatches mac type keyval f.frame = true := by
  have hframe := f.length_frame
  have htag := f.length_tag
  have hmic := f.eq_tag
  rw [List.append_assoc, mic_append, protectedData_append, drop_hdrLen] at hmic
  have hbody : (f.frame.drop hdrLen).take (f.frame.length % 2 ^ 16 - hdrLen) =
      f.mgmt.body ++ mmieHead type keyix f.pn ++ f.tag.take (micLen type) := by
    have hlen' : f.frame.length % 2 ^ 16 - hdrLen = (f.frame.drop hdrLen).length := by
      rw [List.length_drop, Nat.mod_eq_of_lt hlen]
    rw [hlen', List.take_length, f.frame_eq, drop_hdrLen]
  have hcut : ∀ head : Bytes, (head ++ f.tag.take (micLen type)).take
      ((head ++ f.tag.take (micLen type)).length - micLen type) = head := fun head => by
    rw [List.length_append, htag, Nat.add_sub_cancel]
    exact List.take_left
  unfold micMatches
  dsimp only
  rw [hbody, hcut, f.ipnOf_eq, f.mmieOf_eq, f.frame_eq, mic_append, protectedData_append, hmic]
  apply decide_eq_true
  rw [List.drop_left' (length_mmieHead ..)]
  exact (List.take_of_length_le (Nat.le_of_eq htag)).symm

end Made

section Sides

variable {mac : Mac} {alloc : Bool} {priv : CompPriv}

theorem addMmie_cases (mac : Mac) (alloc : Bool) {key : Key} (mgmt : Mgmt)
    (hkey : priv.igtkKey priv.defIgtkTxKeyid = some key) :
    ∃ key', key'.keyix = key.keyix ∧ key'.keyval = key.keyval ∧
      ((addMmie mac alloc priv mgmt).2 = priv ∨
        (addMmie mac alloc priv mgmt).2 = priv.setKey priv.defIgtkTxKeyid key') ∧
      ∀ frame, (addMmie mac alloc priv mgmt).1 = some frame → priv.defIgtkTxKeyid < maxIgtkKeyidx ∧
        ∃ f : Made mac priv.igtkKeyType key.keyix key.keyval, frame = f.frame := by
  refine ⟨{ key with keytsc := incPn key.keytsc }, rfl, rfl, ?_⟩
  by_cases hid : maxIgtkKeyidx ≤ priv.defIgtkTxKeyid
  · rw [addMmie, if_pos hid]
    exact ⟨.inl rfl, fun frame hframe => by cases hframe⟩
  rw [addMmie, if_neg hid, hkey]
  dsimp only
  split
  · exact ⟨.inr rfl, fun frame hframe => by cases hframe⟩
  · refine ⟨?_, fun frame hframe => ⟨by omega, ?_⟩⟩
    · split
      · exact .inr rfl
      · exact .inr rfl
    · generalize hmic : mic mac _ key.keyval _ _ _ = tag at hframe
      cases tag with
      | none => cases hframe
      | some tag => exact ⟨⟨mgmt, incPn key.keytsc, tag, hmic⟩, (Option.some.inj hframe).symm⟩

structure Passes (mac : Mac) (alloc : Bool) (priv : CompPriv) (frame : Bytes) (key : Key) : Prop where
  length : hdrLen ≤ frame.length
  elementId : (mmieOf priv.igtkKeyType frame).getD 0 0 = elemidMmie
  keyid_ge : maxKeyidx ≤ keyIdOf (mmieOf priv.igtkKeyType frame)
  keyid_lt : keyIdOf (mmieOf priv.igtkKeyType frame) < maxKeyidx + maxIgtkKeyidx
  key_eq : priv.igtkKey (keyIdOf (mmieOf priv.igtkKeyType frame) - maxKeyidx) = some key
  fresh : memCmp (ipnOf (mmieOf priv.igtkKeyType frame)).toList key.keyrsc.toList = .gt
  allocated : alloc = true
  matching : micMatches mac priv.igtkKeyType key.keyval frame = true

theorem isMmieValid_passes {frame : Bytes} {key : Key} (h : Passes mac alloc priv frame key) :
    isMmieValid mac alloc priv frame =
      (true, priv.setKey (keyIdOf (mmieOf priv.igtkKeyType frame) - maxKeyidx)
        { key with keyrsc := ipnOf (mmieOf priv.igtkKeyType frame) }) := by
  obtain ⟨hlen, hid, hge, hlt, hkey, hfresh, halloc, hmatch⟩ := h
  unfold isMmieValid
  rw [if_neg (by omega), if_neg (not_not.mpr hid), if_neg (by omega), hkey]
  dsimp only
  rw [if_neg (not_not.mpr hfresh), if_neg (not_not.mpr halloc), if_neg (not_not.mpr hmatch)]

theorem isMmieValid_cases (mac : Mac) (alloc : Bool) (priv : CompPriv) (frame : Bytes) :
    isMmieValid mac alloc priv frame = (false, priv) ∨ ∃ key, Passes mac alloc priv frame key := by
  unfold isMmieValid
  dsimp only
  split
  · exact .inl rfl
  · split
    · exact .inl rfl
    · split
      · exact .inl rfl
      · split
        · exact .inl rfl
        · next hkey =>
            split
            · exact .inl rfl
            · split
              · exact .inl rfl
              · split
                · exact .inl rfl
                · exact .inr ⟨_, by omega, not_not.mp ‹_›, by omega, by omega, hkey,
                    not_not.mp ‹_›, not_not.mp ‹_›, not_not.mp ‹_›⟩

theorem passes_of_accepted {frame : Bytes} (h : (isMmieValid mac alloc priv frame).1 = true) :
    ∃ key, Passes mac alloc priv frame key := by
  rcases isMmieValid_cases mac alloc priv frame with hrej | hpass
  · rw [hrej] at h
    cases h
  · exact hpass

end Sides

/-- The key of both sides is in one slot; its keyrsc is the IPN accepted last. -/
structure Linked (mac : Mac) (type : Cipher) (keyid : ℕ) (keyval : Bytes) (s : Link) : Prop where
  sender_type : s.sender.igtkKeyType = type
  sender_keyid : s.sender.defIgtkTxKeyid = keyid
  sender_key : ∃ key, s.sender.igtkKey keyid = some key ∧ key.keyix = maxKeyidx + keyid ∧
    key.keyval = keyval
  receiver_type : s.receiver.igtkKeyType = type
  receiver_slot : ∃ key, s.receiver.igtkKey keyid = some key
  receiver_key : ∀ i key, s.receiver.igtkKey i = some key →
    i = keyid ∧ key.keyval = keyval ∧ leValue key.keyrsc.toList = s.accepted.headD 0
  produced : ∀ frame ∈ s.produced, keyid < maxIgtkKeyidx ∧
    ∃ f : Made mac type (maxKeyidx + keyid) keyval, frame = f.frame

section Runs

variable {mac : Mac} {type : Cipher} {keyid : ℕ} {keyval : Bytes}

theorem linked_start (keytsc keytsc' : Vector UInt8 6) :
    Linked mac type keyid keyval (Link.start type keyid keyval keytsc keytsc') where
  sender_type := rfl
  sender_keyid := rfl
  sender_key := ⟨_, if_pos rfl, rfl, rfl⟩
  receiver_type := rfl
  receiver_slot := ⟨_, if_pos rfl⟩
  receiver_key := by
    intro i key hkey
    change (if i = keyid then some _ else none) = some key at hkey
    split at hkey
    · obtain rfl := Option.some.inj hkey
      exact ⟨‹_›, rfl, rfl⟩
    · cases hkey
  produced := fun _ h => by cases h

variable {s : Link}

theorem linked_send (h : Linked mac type keyid keyval s) (mgmt : Mgmt) (alloc : Bool) :
    Linked mac type keyid keyval ((link mac).step s (.send mgmt alloc)).1 := by
  obtain ⟨key, hkey, hix, hval⟩ := h.sender_key
  have hslot : s.sender.igtkKey s.sender.defIgtkTxKeyid = some key := by
    rw [h.sender_keyid]
    exact hkey
  obtain ⟨key', hix', hval', hpriv, hmade⟩ := addMmie_cases mac alloc mgmt hslot
  have hside : ∀ sender, (sender = s.sender ∨ sender = s.sender.setKey s.sender.defIgtkTxKeyid key') →
      sender.igtkKeyType = type ∧ sender.defIgtkTxKeyid = keyid ∧ ∃ key,
        sender.igtkKey keyid = some key ∧ key.keyix = maxKeyidx + keyid ∧ key.keyval = keyval := by
    rintro sender (rfl | rfl)
    · exact ⟨h.sender_type, h.sender_keyid, h.sender_key⟩
    · exact ⟨h.sender_type, h.sender_keyid, key', if_pos h.sender_keyid.symm, hix'.trans hix,
        hval'.trans hval⟩
  rw [h.sender_type, h.sender_keyid, hix, hval] at hmade
  dsimp only [link]
  generalize addMmie mac alloc s.sender mgmt = r at hpriv hmade
  obtain ⟨htype, hkeyid, hkeys⟩ := hside r.2 hpriv
  rcases r with ⟨_ | frame, sender⟩
  · exact { h with sender_type := htype, sender_keyid := hkeyid, sender_key := hkeys }
  · refine { h with sender_type := htype, sender_keyid := hkeyid, sender_key := hkeys, produced := ?_ }
    intro frame' hframe'
    rcases List.mem_cons.mp hframe' with rfl | hmem
    · exact hmade _ rfl
    · exact h.produced _ hmem

theorem linked_arrive (h : Linked mac type keyid keyval s) (frame : Bytes) (alloc : Bool) :
    Linked mac type keyid keyval ((link mac).step s (.arrive frame alloc)).1 := by
  dsimp only [link]
  rcases isMmieValid_cases mac alloc s.receiver frame with hrej | ⟨key, hpass⟩
  · rw [hrej]
    exact { h with }
  · obtain ⟨hslot, hval, -⟩ := h.receiver_key _ _ hpass.key_eq
    rw [isMmieValid_passes hpass, hslot]
    refine { h with
      receiver_type := h.receiver_type
      receiver_slot := ⟨_, if_pos rfl⟩
      receiver_key := ?_ }
    intro i key' hkey'
    change (if i = keyid then some _ else s.receiver.igtkKey i) = some key' at hkey'
    split at hkey'
    · obtain rfl := Option.some.inj hkey'
      exact ⟨‹_›, hval, rfl⟩
    · exact absurd (h.receiver_key _ _ hkey').1 ‹_›

theorem linked_step (h : Linked mac type keyid keyval s) (e : Event) :
    Linked mac type keyid keyval ((link mac).step s e).1 := by
  cases e with
  | send mgmt alloc => exact linked_send h mgmt alloc
  | arrive frame alloc => exact linked_arrive h frame alloc

theorem passes_of_produced (h : Linked mac type keyid keyval s) {frame : Bytes} {alloc : Bool}
    (hplain : plain mac s (.arrive frame alloc)) (hmem : frame ∈ s.produced)
    (hfresh : s.accepted.headD 0 < ipnValue s.receiver.igtkKeyType frame) :
    ∃ key, Passes mac alloc s.receiver frame key := by
  obtain ⟨horder, hprod⟩ := hplain
  obtain ⟨hshort, halloc, -⟩ := hprod hmem
  obtain ⟨hkeyid, f, hframe⟩ := h.produced frame hmem
  obtain ⟨key, hkey⟩ := h.receiver_slot
  obtain ⟨-, hval, hlast⟩ := h.receiver_key _ _ hkey
  have hidx : maxKeyidx + keyid < 2 ^ 16 := by
    change keyid < 2 at hkeyid
    change 4 + keyid < 65536
    omega
  have hmatch := f.micMatches_eq (hframe ▸ hshort)
  have hix := f.keyIdOf_eq hidx
  have helem := f.elementId_eq
  have hlen := f.length_frame
  rw [← hframe, ← h.receiver_type] at hmatch hix helem
  rw [← hval] at hmatch
  have hslot : s.receiver.igtkKey (keyIdOf (mmieOf s.receiver.igtkKeyType frame) - maxKeyidx) =
      some key := by
    rw [hix, Nat.add_sub_cancel_left]
    exact hkey
  refine ⟨key, ?_, helem, ?_, ?_, hslot, ?_, halloc, hmatch⟩
  · rw [hframe, hlen, hdrLen]
    omega
  · omega
  · omega
  · rw [(horder key hslot halloc hmatch).gt_iff, hlast]
    exact hfresh

theorem judged_of_plain (h : Linked mac type keyid keyval s) {e : Event}
    (hplain : plain mac s e) : Judged mac s e := by
  cases e with
  | send mgmt alloc => trivial
  | arrive frame alloc =>
    refine ⟨fun hmem hnew => ?_, fun hold => ?_, fun hrej => ?_⟩
    · have hfresh : s.accepted.headD 0 < ipnValue s.receiver.igtkKeyType frame := by
        cases hacc : s.accepted with
        | nil => exact Nat.pos_of_ne_zero ((hplain.2 hmem).2.2 hacc)
        | cons n ns =>
          apply hnew
          rw [hacc]
          exact List.mem_cons_self
      obtain ⟨key, hpass⟩ := passes_of_produced h hplain hmem hfresh
      rw [isMmieValid_passes hpass]
    · by_contra hacc
      obtain ⟨key, hpass⟩ := passes_of_accepted (eq_true_of_ne_false hacc)
      have halike := hplain.1 key hpass.key_eq hpass.allocated hpass.matching
      have hgt := halike.gt_iff.mp hpass.fresh
      rw [(h.receiver_key _ _ hpass.key_eq).2.2] at hgt
      unfold ipnValue at hold
      omega
    · rcases isMmieValid_cases mac alloc s.receiver frame with heq | ⟨key, hpass⟩
      · rw [heq]
      · rw [isMmieValid_passes hpass] at hrej
        cases hrej

/-- While the counts that arrive are ordered alike in their lowest and in their highest differing
byte, frames of the sender are accepted in order and none is accepted again. -/
theorem judged_of_plain_run {keytsc keytsc' : Vector UInt8 6} {es : List Event}
    (hplain : (link mac).Meets (plain mac) (Link.start type keyid keyval keytsc keytsc') es) :
    (link mac).Meets (Judged mac) (Link.start type keyid keyval keytsc keytsc') es :=
  (link mac).meets_of_invariant (I := Linked mac type keyid keyval) (fun _ e h _ => linked_step h e)
    (fun _ _ h hplain => judged_of_plain h hplain) (linked_start keytsc keytsc') hplain

end Runs

def zeroMac : Mac := fun _ _ _ _ => .replicate 16 0

def emptyMgmt : Mgmt := ⟨.replicate 24 0, []⟩

def emptyFrame (pn : Bytes) : Bytes :=
  List.replicate 24 0 ++ [elemidMmie, 16, 4, 0] ++ pn ++ List.replicate 8 0

instance (mac : Mac) (s : Link) : ∀ e, Decidable (plain mac s e)
  | .send .. => inferInstanceAs (Decidable True)
  | .arrive .. => inferInstanceAs (Decidable (_ ∧ _))

theorem firstFrames_judged :
    (link zeroMac).Meets (Judged zeroMac) (Link.start .aesCmac 0 [] (.replicate 6 0) (.replicate 6 0))
      [.send emptyMgmt true, .arrive (emptyFrame [1, 0, 0, 0, 0, 0]) true, .send emptyMgmt true,
        .arrive (emptyFrame [1, 0, 0, 0, 0, 0]) true, .arrive (emptyFrame [2, 0, 0, 0, 0, 0]) true] :=
  judged_of_plain_run (by decide)

/-- The count 256 arrives after 255 and is rejected. -/
theorem carry_misjudged :
    ¬(link zeroMac).Meets (Judged zeroMac)
      (Link.start .aesCmac 0 [] ⟨#[254, 0, 0, 0, 0, 0], rfl⟩ (.replicate 6 0))
      [.send emptyMgmt true, .arrive (emptyFrame [255, 0, 0, 0, 0, 0]) true, .send emptyMgmt true,
        .arrive (emptyFrame [0, 1, 0, 0, 0, 0]) true] := by
  rintro ⟨-, -, -, ⟨hfresh, -⟩, -⟩
  have hnew := hfresh (by decide) (by decide)
  revert hnew
  decide

end KernelModules.Bip
