import KernelModules.Rising
import KernelModules.RxPn

/-!
# One call of the rx PN check

The MSDUs of a call are a chain of MPDUs. Its loop keeps the MPDUs whose packet numbers rise, links
them up, and frees the others.
-/

namespace KernelModules.RxPn

open Chains

variable {α : Type*}

inductive Cipher
  | pn24 | pn48

namespace Cipher

def entry : Cipher → RxPnEntry
  | pn24 => ⟨some .cmp24, 24⟩
  | pn48 => ⟨some .cmp48, 48⟩

def value (pn : HttRxPn) : Cipher → ℕ
  | pn24 => (pn.pn24 &&& 0xffffff).toNat
  | pn48 => (pn.pn48 &&& 0xffffffffffff).toNat

def last (cipher : Cipher) (peer : Peer) (tid : ℕ) : Option ℕ :=
  if peer.tidsLastPnValid tid then some (cipher.value (peer.tidsLastPn tid)) else none

theorem eval_cmp (cipher : Cipher) (newPn oldPn : HttRxPn) (isUnicast : Bool)
    (opmode : WlanOpMode) :
    (cipher.entry.cmp.any fun cmp => cmp.eval newPn oldPn isUnicast opmode) =
      decide (cipher.value newPn ≤ cipher.value oldPn) := by
  cases cipher with
  | pn24 => rfl
  | pn48 => rfl

end Cipher

/-- The MSDUs of an MPDU and the number that it is checked by, where it is encrypted. -/
structure Mpdu (α : Type*) where
  msdus : List α
  pn : Option ℕ

/-- What comes in with a call: MPDUs, one after the other in one chain, and their descriptors. -/
structure PnCall (α : Type*) where
  next : α → Option α
  desc : α → RxDesc
  mpdus : List (List α)
  ne_nil : mpdus ≠ []
  mpdu_ne_nil : ∀ m ∈ mpdus, m ≠ []
  nodup : mpdus.flatten.Nodup
  terminated : Terminated next mpdus.flatten
  completes : ∀ m ∈ mpdus, ∀ a ∈ m, (desc a).completesMpdu = true ↔ m.getLast? = some a

def mpduPn (cipher : Cipher) (desc : α → RxDesc) (msdu : α) : Option ℕ :=
  if (desc msdu).isEncrypted then some (cipher.value ((desc msdu).pn cipher.entry.len)) else none

def toMpdu (cipher : Cipher) (desc : α → RxDesc) (msdus : List α) : Mpdu α :=
  ⟨msdus, msdus.head?.bind (mpduPn cipher desc)⟩

/-- Neither the target nor the kind of network has the check left out, and the cipher has numbers of
its length. -/
structure InForce (pdev : Pdev) (vdev : Vdev) (peer : Peer) (mcast : Bool) (cipher : Cipher) :
    Prop where
  fwPnCheck : peer.fwPnCheck = false
  opmode : vdev.opmode ≠ .ibss
  entry : pdev.rxPn (peer.security mcast) = cipher.entry
  notWapi : peer.security mcast ≠ .wapi

/-- Where the loop has come to: the MSDUs in the list that goes out, and the last number. -/
structure Going (cipher : Cipher) (tid : ℕ) (peer : Peer) (next : α → Option α) (out : List α)
    (last : Option ℕ) (s : Check α) : Prop where
  chain : Segment s.next s.outListHead s.outListTail out
  frame : ∀ a ∉ out, s.next a = next a
  valid : s.peer.tidsLastPnValid tid = s.lastPnValid
  last : cipher.last s.peer tid = last
  fwPnCheck : s.peer.fwPnCheck = peer.fwPnCheck
  security : s.peer.security = peer.security

section Loop

variable {cipher : Cipher} {tid : ℕ} {peer : Peer} {next : α → Option α} {out m : List α}
  {last : Option ℕ} {s : Check α} {desc : α → RxDesc} {a b : α} {n : ℕ}

theorem toMpdu_pn (hhead : m.head? = some a) : (toMpdu cipher desc m).pn = mpduPn cipher desc a := by
  rw [toMpdu, hhead, Option.bind_some]

theorem mpduTail_eq (hlinked : Linked next m) (hhead : m.head? = some a)
    (hcompletes : ∀ b ∈ m, (desc b).completesMpdu = true ↔ m.getLast? = some b)
    (hnodup : m.Nodup) (hn : m.length ≤ n) : mpduTail next desc n a = m.getLast? := by
  induction m generalizing a n with
  | nil => cases hhead
  | cons c m ih =>
    obtain rfl : c = a := Option.some.inj hhead
    cases n with
    | zero => cases hn
    | succ n =>
      have hc := hcompletes c List.mem_cons_self
      cases m with
      | nil => rw [mpduTail, if_pos (hc.mpr rfl), List.getLast?_singleton]
      | cons d m =>
        obtain ⟨hcd, hlinked⟩ := linked_cons_cons.mp hlinked
        obtain ⟨hnot, hnodup⟩ := List.nodup_cons.mp hnodup
        rw [List.getLast?_cons_cons] at hc ⊢
        have hlast : ¬(desc c).completesMpdu = true := fun hcomplete =>
          hnot (List.mem_of_getLast? (hc.mp hcomplete))
        rw [mpduTail, if_neg hlast, hcd, Option.bind_some]
        refine ih hlinked rfl ?_ hnodup (Nat.le_of_succ_le_succ hn)
        intro e he
        rw [hcompletes e (List.mem_cons_of_mem c he), List.getLast?_cons_cons]

theorem Going.remember (h : Going cipher tid peer next out last s) (hvalid : s.lastPnValid = true)
    (newPn : HttRxPn) :
    Going cipher tid peer next out (some (cipher.value newPn)) (s.remember tid newPn) := by
  refine ⟨h.chain, h.frame, h.valid, ?_, h.fwPnCheck, h.security⟩
  have hpeer : s.peer.tidsLastPnValid tid = true := h.valid.trans hvalid
  have hself : (s.remember tid newPn).peer.tidsLastPn tid = newPn := Function.update_self ..
  rw [Cipher.last, hself]
  exact if_pos hpeer

theorem Going.add [DecidableEq α] (h : Going cipher tid peer next out last s) (hlinked : Linked s.next m)
    (hhead : m.head? = some a) (htail : m.getLast? = some b) (hnodup : (out ++ m).Nodup) :
    Going cipher tid peer next (out ++ m) last (s.addMpduToList a b) := by
  have hne : m ≠ [] := by
    rintro rfl
    cases hhead
  have hmpdu : Segment s.next (some a) (some b) m := ⟨hhead.symm, htail.symm, hlinked⟩
  unfold Check.addMpduToList
  cases hstart : s.outListHead with
  | none =>
    have hchain := h.chain
    rw [hstart] at hchain
    have hnil := hchain.eq_nil
    rw [hnil, List.nil_append]
    refine ⟨hmpdu, fun c _ => h.frame c ?_, h.valid, h.last, h.fwPnCheck, h.security⟩
    rw [hnil]
    exact List.not_mem_nil
  | some c =>
    have hchain := h.chain
    rw [hstart] at hchain
    refine ⟨?_, ?_, h.valid, h.last, h.fwPnCheck, h.security⟩
    · exact hchain.join hmpdu hchain.ne_nil hne hnodup
    · intro d hd
      rw [List.mem_append, not_or] at hd
      refine (setNext_of_notMem ?_).trans (h.frame d hd.1)
      rintro e he rfl
      rw [h.chain.tail_eq] at he
      exact hd.1 (List.mem_of_getLast? he)

theorem addMpduToList_freed [DecidableEq α] : (s.addMpduToList a b).freed = s.freed := by
  unfold Check.addMpduToList
  split <;> rfl

theorem addMpduToList_lastPnValid [DecidableEq α] :
    (s.addMpduToList a b).lastPnValid = s.lastPnValid := by
  unfold Check.addMpduToList
  split <;> rfl

def Check.validate (s : Check α) (tid : ℕ) : Check α :=
  if s.lastPnValid then s
  else
    { s with
      lastPnValid := true
      peer.tidsLastPnValid := Function.update s.peer.tidsLastPnValid tid true }

theorem validate_next : (s.validate tid).next = s.next := by
  unfold Check.validate
  split <;> rfl

theorem validate_freed : (s.validate tid).freed = s.freed := by
  unfold Check.validate
  split <;> rfl

theorem validate_lastPnValid : (s.validate tid).lastPnValid = true := by
  unfold Check.validate
  split_ifs with h
  · exact h
  · rfl

theorem Going.last_eq (h : Going cipher tid peer next out last s) :
    last = if s.lastPnValid then some (cipher.value (s.peer.tidsLastPn tid)) else none := by
  rw [← h.last, Cipher.last, h.valid]

theorem Going.validate (h : Going cipher tid peer next out last s) :
    Going cipher tid peer next out (some (cipher.value (s.peer.tidsLastPn tid)))
      (s.validate tid) := by
  unfold Check.validate
  split_ifs with hvalid
  · have hlast := h.last_eq
    rw [if_pos hvalid] at hlast
    rw [← hlast]
    exact h
  · have hself : Function.update s.peer.tidsLastPnValid tid true tid = true :=
      Function.update_self ..
    exact ⟨h.chain, h.frame, hself, if_pos hself, h.fwPnCheck, h.security⟩

variable [DecidableEq α] [Fintype α] {pdev : Pdev} {vdev : Vdev} {mcast : Bool}

theorem checkMpdu_of_encrypted (hforce : InForce pdev vdev peer mcast cipher)
    (hsecurity : s.peer.security = peer.security) (henc : (desc a).isEncrypted = true) :
    checkMpdu pdev vdev tid desc mcast s a b =
      if s.lastPnValid = true ∧ cipher.value ((desc a).pn cipher.entry.len) ≤
          cipher.value (s.peer.tidsLastPn tid) then
        (walkTo (s.validate tid).next (some b) (Fintype.card α) (some a)).map fun msdus =>
          { s.validate tid with freed := (s.validate tid).freed ++ msdus }
      else
        some (((s.validate tid).addMpduToList a b).remember tid
          ((desc a).pn cipher.entry.len)) := by
  have hentry : pdev.rxPn (s.peer.security mcast) = cipher.entry := by
    rw [hsecurity]
    exact hforce.entry
  have hnotWapi : ¬s.peer.security mcast = .wapi := by
    rw [hsecurity]
    exact hforce.notWapi
  unfold checkMpdu
  dsimp only
  rw [henc, hentry]
  cases hvalid : s.lastPnValid with
  | false => simp [Check.validate, hvalid, hnotWapi]
  | true => simp [Check.validate, hvalid, hnotWapi, cipher.eval_cmp]

theorem checkMpdu_of_passes (hforce : InForce pdev vdev peer mcast cipher)
    (h : Going cipher tid peer next out last s) (hlinked : Linked s.next m)
    (hhead : m.head? = some a) (htail : m.getLast? = some b) (hnodup : (out ++ m).Nodup)
    (hpass : Rising.Passes Mpdu.pn last (toMpdu cipher desc m)) :
    ∃ s', checkMpdu pdev vdev tid desc mcast s a b = some s' ∧
      Going cipher tid peer next (out ++ m) ((toMpdu cipher desc m).pn.or last) s' ∧
      s'.freed = s.freed := by
  rw [Rising.Passes, toMpdu_pn hhead, mpduPn] at hpass
  rw [toMpdu_pn hhead, mpduPn]
  cases henc : (desc a).isEncrypted with
  | false =>
    refine ⟨s.addMpduToList a b, ?_, ?_, addMpduToList_freed⟩
    · rw [checkMpdu, henc]
      rfl
    · rw [if_neg Bool.false_ne_true, Option.none_or]
      exact h.add hlinked hhead htail hnodup
  | true =>
    rw [henc, if_pos rfl] at hpass
    have hnew : ¬(s.lastPnValid = true ∧ cipher.value ((desc a).pn cipher.entry.len) ≤
        cipher.value (s.peer.tidsLastPn tid)) := by
      rintro ⟨hvalid, hle⟩
      have hlast := h.last_eq
      rw [if_pos hvalid] at hlast
      exact Nat.not_lt_of_le hle (hpass _ rfl _ hlast)
    have hnext : (s.validate tid).next = s.next := validate_next
    rw [← hnext] at hlinked
    have hadd := h.validate.add hlinked hhead htail hnodup
    refine ⟨_, (checkMpdu_of_encrypted hforce h.security henc).trans (if_neg hnew), ?_, ?_⟩
    · rw [if_pos rfl, Option.some_or]
      exact hadd.remember (addMpduToList_lastPnValid.trans validate_lastPnValid) _
    · exact addMpduToList_freed.trans validate_freed

theorem checkMpdu_of_not_passes (hforce : InForce pdev vdev peer mcast cipher)
    (h : Going cipher tid peer next out last s) (hlinked : Linked s.next m)
    (hhead : m.head? = some a) (htail : m.getLast? = some b) (hnodup : m.Nodup)
    (hreplay : ¬Rising.Passes Mpdu.pn last (toMpdu cipher desc m)) :
    ∃ s', checkMpdu pdev vdev tid desc mcast s a b = some s' ∧
      Going cipher tid peer next out last s' ∧ s'.freed = s.freed ++ m := by
  rw [Rising.Passes, toMpdu_pn hhead, mpduPn] at hreplay
  have henc : (desc a).isEncrypted = true := by
    by_contra hplain
    rw [if_neg hplain] at hreplay
    exact hreplay fun k hk => by cases hk
  rw [if_pos henc] at hreplay
  have hlast := h.last_eq
  have hreplayed : s.lastPnValid = true ∧ cipher.value ((desc a).pn cipher.entry.len) ≤
      cipher.value (s.peer.tidsLastPn tid) := by
    by_contra hnew
    apply hreplay
    intro k hk l hl
    obtain rfl := Option.some.inj hk
    rw [hlast] at hl
    split_ifs at hl with hvalid
    · obtain rfl := Option.some.inj hl
      exact Nat.lt_of_not_le fun hle => hnew ⟨hvalid, hle⟩
    · cases hl
  have hvalidate : s.validate tid = s := if_pos hreplayed.1
  have hne : m ≠ [] := by
    rintro rfl
    cases hhead
  have hwalk := walkTo_of_linked hlinked hne hnodup hnodup.length_le_card
  rw [hhead, htail] at hwalk
  refine ⟨{ s with freed := s.freed ++ m }, ?_, ?_, rfl⟩
  · rw [checkMpdu_of_encrypted hforce h.security henc, if_pos hreplayed, hvalidate, hwalk]
    rfl
  · exact ⟨h.chain, h.frame, h.valid, h.last, h.fwPnCheck, h.security⟩

/-- The loop keeps what a filter keeps that lets rising numbers pass. -/
theorem checkLoop_eq (hforce : InForce pdev vdev peer mcast cipher) {ms : List (List α)}
    (h : Going cipher tid peer next out last s) (hne : ∀ m ∈ ms, m ≠ [])
    (hterminated : Terminated next ms.flatten) (hnodup : (out ++ ms.flatten).Nodup)
    (hcompletes : ∀ m ∈ ms, ∀ b ∈ m, (desc b).completesMpdu = true ↔ m.getLast? = some b)
    (hn : ms.length ≤ n) :
    ∃ s', checkLoop pdev vdev tid desc mcast n ms.flatten.head? s = some s' ∧
      Going cipher tid peer next
        (out ++ (Rising.kept Mpdu.pn last (ms.map (toMpdu cipher desc))).flatMap Mpdu.msdus)
        (Rising.lastKey Mpdu.pn last (ms.map (toMpdu cipher desc))) s' ∧
      s'.freed = s.freed ++
        (Rising.rejected Mpdu.pn last (ms.map (toMpdu cipher desc))).flatMap Mpdu.msdus := by
  induction ms generalizing out last s n with
  | nil =>
    refine ⟨s, ?_, ?_, (List.append_nil s.freed).symm⟩
    · cases n <;> rfl
    · exact (List.append_nil out).symm ▸ h
  | cons m ms ih =>
    cases n with
    | zero => cases hn
    | succ n =>
      obtain ⟨a, ha⟩ := Option.ne_none_iff_exists'.mp
        (mt List.head?_eq_none_iff.mp (hne m List.mem_cons_self))
      obtain ⟨b, hb⟩ := Option.ne_none_iff_exists'.mp
        (mt List.getLast?_eq_none_iff.mp (hne m List.mem_cons_self))
      rw [List.flatten_cons] at hterminated hnodup ⊢
      obtain ⟨hlinked, hbehind, hterminated⟩ := hterminated.append
      obtain ⟨-, hmrest, hdisj⟩ := List.nodup_append.mp hnodup
      obtain ⟨hm, -, -⟩ := List.nodup_append.mp hmrest
      -- The links of what is still to be checked have not been written.
      have hsame : ∀ c ∈ m, s.next c = next c := fun c hc =>
        h.frame c fun hout => hdisj c hout c (List.mem_append_left _ hc) rfl
      have hlinked : Linked s.next m :=
        hlinked.congr fun c hc => hsame c (List.dropLast_subset _ hc)
      have hnext : s.next b = ms.flatten.head? := by
        rw [hsame b (List.mem_of_getLast? hb)]
        exact hbehind b hb
      have htail : mpduTail s.next desc (Fintype.card α) a = some b := by
        rw [mpduTail_eq hlinked ha (hcompletes m List.mem_cons_self) hm hm.length_le_card, hb]
      have hhead : (m ++ ms.flatten).head? = some a := by
        rw [List.head?_append, ha, Option.some_or]
      have hloop (s₁ : Check α) (hs₁ : checkMpdu pdev vdev tid desc mcast s a b = some s₁) :
          checkLoop pdev vdev tid desc mcast (n + 1) (some a) s =
            checkLoop pdev vdev tid desc mcast n ms.flatten.head? s₁ := by
        rw [checkLoop, htail, Option.bind_some, hnext, hs₁, Option.bind_some]
      have hne := fun m' hm' => hne m' (List.mem_cons_of_mem m hm')
      have hcompletes := fun m' hm' => hcompletes m' (List.mem_cons_of_mem m hm')
      rw [hhead, List.map_cons, Rising.kept, Rising.lastKey, Rising.rejected]
      split_ifs with hpass
      · have hout : (out ++ m).Nodup := by
          rw [← List.append_assoc] at hnodup
          exact (List.nodup_append.mp hnodup).1
        obtain ⟨s₁, hs₁, h₁, hfreed⟩ := checkMpdu_of_passes hforce h hlinked ha hb hout hpass
        rw [← List.append_assoc] at hnodup
        obtain ⟨s', hs', h', hfreed'⟩ := ih h₁ hne hterminated hnodup hcompletes
          (Nat.le_of_succ_le_succ hn)
        refine ⟨s', (hloop s₁ hs₁).trans hs', ?_, ?_⟩
        · rw [List.flatMap_cons, ← List.append_assoc]
          exact h'
        · rw [hfreed', hfreed]
      · obtain ⟨s₁, hs₁, h₁, hfreed⟩ := checkMpdu_of_not_passes hforce h hlinked ha hb hm hpass
        have hout : (out ++ ms.flatten).Nodup :=
          hnodup.sublist ((List.sublist_append_right m ms.flatten).append_left out)
        obtain ⟨s', hs', h', hfreed'⟩ := ih h₁ hne hterminated hout hcompletes
          (Nat.le_of_succ_le_succ hn)
        refine ⟨s', (hloop s₁ hs₁).trans hs', h', ?_⟩
        rw [hfreed', hfreed, List.flatMap_cons, List.append_assoc]
        rfl

end Loop

end KernelModules.RxPn
