import KernelModules.Machine
import KernelModules.RxPnLoop

/-!
# The rx PN check from call to call

The last number goes on from one call to the next. What is kept over a run of calls is what a filter
keeps of all their MPDUs, and its numbers rise.
-/

namespace KernelModules.RxPn

open Chains

variable {α : Type*} {cipher : Cipher} {tid : ℕ} {peer : Peer} {last : Option ℕ}

namespace PnCall

variable (call : PnCall α)

theorem flatten_ne_nil : call.mpdus.flatten ≠ [] := by
  intro hnil
  obtain ⟨m, hm⟩ := List.exists_mem_of_ne_nil _ call.ne_nil
  exact call.mpdu_ne_nil m hm (List.flatten_eq_nil_iff.mp hnil m hm)

def msduList : α :=
  call.mpdus.flatten.head call.flatten_ne_nil

def isMcast : Bool :=
  (call.desc call.msduList).isWlanMcast

def items (cipher : Cipher) : List (Mpdu α) :=
  call.mpdus.map (toMpdu cipher call.desc)

theorem nodup_items (cipher : Cipher) : ((call.items cipher).flatMap Mpdu.msdus).Nodup := by
  have hid : (call.items cipher).map Mpdu.msdus = call.mpdus := by
    rw [items, List.map_map]
    exact List.map_id call.mpdus
  rw [List.flatMap_def, hid]
  exact call.nodup

theorem length_mpdus_le : call.mpdus.length ≤ call.mpdus.flatten.length := by
  rw [List.length_flatten, ← List.length_map (f := List.length)]
  apply List.length_le_sum_of_one_le
  intro n hn
  obtain ⟨m, hm, rfl⟩ := List.mem_map.mp hn
  exact List.length_pos_of_ne_nil (call.mpdu_ne_nil m hm)

end PnCall

/-- The list that is returned is terminated and has the MSDUs of the MPDUs that are kept; those of the
others have been freed, each of them once. -/
structure Filtered (out : Outcome α) (kept rejected : List (Mpdu α)) : Prop where
  outList : out.outList = (kept.flatMap Mpdu.msdus).head?
  terminated : Terminated out.next (kept.flatMap Mpdu.msdus)
  freed : out.freed = rejected.flatMap Mpdu.msdus
  once : out.freed.Nodup

/-- What the filter keeps and rejects of each call. -/
def reference (cipher : Cipher) : Option ℕ → List (PnCall α) → List (List (Mpdu α) × List (Mpdu α))
  | _, [] => []
  | last, call :: calls =>
    (Rising.kept Mpdu.pn last (call.items cipher),
      Rising.rejected Mpdu.pn last (call.items cipher)) ::
    reference cipher (Rising.lastKey Mpdu.pn last (call.items cipher)) calls

theorem reference_kept (calls : List (PnCall α)) :
    (reference cipher last calls).flatMap Prod.fst =
      Rising.kept Mpdu.pn last (calls.flatMap fun call => call.items cipher) := by
  induction calls generalizing last with
  | nil => rfl
  | cons call calls ih =>
    rw [reference, List.flatMap_cons, List.flatMap_cons, Rising.kept_append, ih]

section Runs

variable [DecidableEq α] [Fintype α] {pdev : Pdev} {vdev : Vdev}

/-- There is no state any more when a chain has been followed without coming to its end. -/
def pnChecks (pdev : Pdev) (vdev : Vdev) (tid : ℕ) :
    Machine (Option Peer) (PnCall α) (Outcome α) where
  step
    | some peer, call =>
      match olRxPnCheckBase pdev vdev tid call.desc peer call.next call.msduList with
      | some (out, peer') => (some peer', [out])
      | none => (none, [])
    | none, _ => (none, [])

theorem InForce.of_same {peer' : Peer} {mcast : Bool} (h : InForce pdev vdev peer mcast cipher)
    (hfw : peer'.fwPnCheck = peer.fwPnCheck) (hsecurity : peer'.security = peer.security) :
    InForce pdev vdev peer' mcast cipher := by
  refine ⟨hfw.trans h.fwPnCheck, h.opmode, ?_, ?_⟩
  · rw [hsecurity]
    exact h.entry
  · rw [hsecurity]
    exact h.notWapi

variable (tid) in
/-- One call keeps what the filter keeps. -/
theorem olRxPnCheckBase_filtered (call : PnCall α)
    (hforce : InForce pdev vdev peer call.isMcast cipher) :
    ∃ out peer', olRxPnCheckBase pdev vdev tid call.desc peer call.next call.msduList =
        some (out, peer') ∧
      Filtered out (Rising.kept Mpdu.pn (cipher.last peer tid) (call.items cipher))
        (Rising.rejected Mpdu.pn (cipher.last peer tid) (call.items cipher)) ∧
      cipher.last peer' tid = Rising.lastKey Mpdu.pn (cipher.last peer tid) (call.items cipher) ∧
      peer'.fwPnCheck = peer.fwPnCheck ∧ peer'.security = peer.security := by
  have hstart : Going cipher tid peer call.next [] (cipher.last peer tid)
      ⟨call.next, none, none, peer.tidsLastPnValid tid, peer, []⟩ :=
    ⟨segment_nil, fun _ _ => rfl, rfl, rfl, rfl, rfl⟩
  have hlen : call.mpdus.length ≤ Fintype.card α :=
    call.length_mpdus_le.trans call.nodup.length_le_card
  obtain ⟨s, hs, hgoing, hfreed⟩ := checkLoop_eq hforce hstart call.mpdu_ne_nil call.terminated
    call.nodup call.completes hlen
  have hitems : call.mpdus.map (toMpdu cipher call.desc) = call.items cipher := rfl
  rw [List.nil_append, hitems] at hgoing hfreed
  have hkept : ((Rising.kept Mpdu.pn (cipher.last peer tid) (call.items cipher)).flatMap
      Mpdu.msdus).Nodup :=
    ((Rising.kept_sublist Mpdu.pn).flatMap _).nodup (call.nodup_items cipher)
  have hrejected : ((Rising.rejected Mpdu.pn (cipher.last peer tid) (call.items cipher)).flatMap
      Mpdu.msdus).Nodup :=
    ((Rising.rejected_sublist Mpdu.pn).flatMap _).nodup (call.nodup_items cipher)
  refine ⟨⟨s.outListHead, setNext s.next s.outListTail none, s.freed⟩, s.peer, ?_, ?_, hgoing.last,
    hgoing.fwPnCheck, hgoing.security⟩
  · have hhead : call.mpdus.flatten.head? = some call.msduList := List.head?_eq_some_head _
    have hlength : ¬(pdev.rxPn (peer.security call.isMcast)).len = 0 := by
      rw [hforce.entry]
      cases cipher with
      | pn24 => decide
      | pn48 => decide
    have hneither : ¬(peer.fwPnCheck = true ∨ vdev.opmode = .ibss) := by
      rw [hforce.fwPnCheck]
      exact not_or.mpr ⟨Bool.false_ne_true, hforce.opmode⟩
    rw [hhead] at hs
    rw [olRxPnCheckBase, if_neg hneither]
    exact (if_neg hlength).trans (congrArg (Option.map _) hs)
  · refine ⟨hgoing.chain.head_eq, ⟨?_, ?_⟩, hfreed, ?_⟩
    · rw [hgoing.chain.tail_eq]
      exact hgoing.chain.linked.setNext_last hkept none
    · intro a ha
      rw [hgoing.chain.tail_eq, ha]
      exact Function.update_self ..
    · exact hfreed ▸ hrejected

theorem pnChecks_step (call : PnCall α) {out : Outcome α} {peer' : Peer}
    (h : olRxPnCheckBase pdev vdev tid call.desc peer call.next call.msduList =
      some (out, peer')) :
    (pnChecks pdev vdev tid).step (some peer) call = (some peer', [out]) := by
  simp only [pnChecks, h]

variable (tid) in
/-- Each call keeps what the filter keeps, from the last number of the call before on. -/
theorem run_filtered {calls : List (PnCall α)}
    (hforce : ∀ call ∈ calls, InForce pdev vdev peer call.isMcast cipher) :
    (∃ peer', ((pnChecks pdev vdev tid).run (some peer) calls).1 = some peer') ∧
      List.Forall₂ (fun out p => Filtered out p.1 p.2)
        ((pnChecks pdev vdev tid).run (some peer) calls).2
        (reference cipher (cipher.last peer tid) calls) := by
  induction calls generalizing peer with
  | nil => exact ⟨⟨peer, rfl⟩, .nil⟩
  | cons call calls ih =>
    obtain ⟨out, peer₁, hcall, hout, hlast, hfw, hsecurity⟩ :=
      olRxPnCheckBase_filtered tid call (hforce call List.mem_cons_self)
    obtain ⟨hend, houts⟩ := ih fun call' hcall' =>
      (hforce call' (List.mem_cons_of_mem call hcall')).of_same hfw hsecurity
    rw [Machine.run_cons, pnChecks_step call hcall, reference, ← hlast]
    exact ⟨hend, .cons hout houts⟩

theorem pn_checks_filter {calls : List (PnCall α)}
    (hforce : ∀ call ∈ calls, InForce pdev vdev peer call.isMcast cipher) :
    (∃ peer', ((pnChecks pdev vdev tid).run (some peer) calls).1 = some peer') ∧
      List.Forall₂ (fun out p => Filtered out p.1 p.2)
        ((pnChecks pdev vdev tid).run (some peer) calls).2
        (reference cipher (cipher.last peer tid) calls) ∧
      ((cipher.last peer tid).toList ++
        ((reference cipher (cipher.last peer tid) calls).flatMap Prod.fst).filterMap
          Mpdu.pn).Pairwise (· < ·) := by
  obtain ⟨hend, houts⟩ := run_filtered tid hforce
  refine ⟨hend, houts, ?_⟩
  rw [reference_kept]
  exact Rising.pairwise_kept Mpdu.pn

end Runs

def ccmpPeer : Peer where
  fwPnCheck := false
  security _ := .aesCcmp
  tidsLastPn _ := ⟨0, 0⟩
  tidsLastPnValid _ := false
  tidsRekeyFlag _ := false

/-- Two MPDUs of one MSDU each, the second with a lower number. -/
def replayedCall : PnCall (Fin 2) where
  next a := if a = 0 then some 1 else none
  desc a :=
    { isWlanMcast := false
      completesMpdu := true
      isEncrypted := true
      pn := fun _ => if a = 0 then ⟨5, 0⟩ else ⟨4, 0⟩ }
  mpdus := [[0], [1]]
  ne_nil := by decide
  mpdu_ne_nil := by decide
  nodup := by decide
  terminated := ⟨linked_cons_cons.mpr ⟨rfl, linked_singleton 1⟩, by decide⟩
  completes := by decide

theorem replayedCall_inForce : InForce ⟨rxPnAttach⟩ ⟨.sta⟩ ccmpPeer replayedCall.isMcast .pn48 :=
  ⟨rfl, by decide, rfl, by decide⟩

theorem pn_checks_filter_replayedCall :
    (∃ peer', ((pnChecks ⟨rxPnAttach⟩ ⟨.sta⟩ 0).run (some ccmpPeer) [replayedCall]).1 =
        some peer') ∧
      List.Forall₂ (fun out p => Filtered out p.1 p.2)
        ((pnChecks ⟨rxPnAttach⟩ ⟨.sta⟩ 0).run (some ccmpPeer) [replayedCall]).2
        (reference .pn48 none [replayedCall]) ∧
      ((reference .pn48 none [replayedCall]).flatMap Prod.fst |>.filterMap
        Mpdu.pn).Pairwise (· < ·) :=
  pn_checks_filter (List.forall_mem_singleton.mpr replayedCall_inForce)

end KernelModules.RxPn
