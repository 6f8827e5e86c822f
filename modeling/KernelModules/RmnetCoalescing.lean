import KernelModules.RmnetSegments
import Mathlib.Tactic

/-!
# Coalescing is transparent per flow

The packets that arrived in a flow are the segments of what was delivered, followed by what the
flow nodes hold. An event keeps this as long as a packet meets the node of its flow, that node holds no
other flow, the fields nobody compares agree with those of the packet it goes behind, and the
lengths of headers fit the bytes in which a node notes them.
-/

namespace KernelModules.Rmnet

open Batching

def flowOf (x : Packet) : Tuple := x.1.flow

def Event.packet? : Event → Option Packet
  | .ingress p => some p.packet
  | _ => none

def arrived (es : List Event) : List Packet := es.filterMap Event.packet?

def Transparent (cfg : Config) (es : List Event) : Prop :=
  (∀ n ∈ ((machine cfg).run init es).1.nodes, n.pktList = []) →
    ∀ f, select flowOf f (handed ((machine cfg).run init es).2) = select flowOf f (arrived es)

variable (cfg : Config)

def Placed (s : State) (p : PktInfo) : Prop :=
  (∀ m ∈ s.nodes, ∀ q ∈ m.pktList, q.hdr.flow = p.hdr.flow →
    s.nodes.find? (found cfg p) = some m) ∧
  ∀ n ∈ s.nodes.find? (found cfg p), ∀ q ∈ n.pktList, q.hdr.flow = p.hdr.flow
deriving Decidable

def Agrees (s : State) (p : PktInfo) : Prop :=
  ∀ n ∈ s.nodes.find? (found cfg p), Merges cfg n p → Joins n p
deriving Decidable

/-- In the deag mode the headers of a packet that is kept, at the node where it is found or at a
new one, are short. -/
def Fits (s : State) (p : PktInfo) : Prop :=
  cfg.deagMode → Stays cfg ((s.nodes.find? (found cfg p)).getD (updateFlow (.fresh 0) p)) p →
    p.hdr.Short
deriving Decidable

def Noted (s : State) (mode : OptMode) : Prop :=
  ∀ n ∈ s.nodes, ∀ q ∈ n.pktList, ¬mode.optimizes q.hdr.trans.proto →
    n.transProto = q.hdr.trans.proto
deriving Decidable

def Undisturbed (s : State) : Event → Prop
  | .ingress p =>
    p.Described ∧
      (s.optMode.optimizes p.hdr.trans.proto → Placed cfg s p ∧ Agrees cfg s p ∧ Fits cfg s p)
  | .flushAll => True
  | .flushByHash _ => True
  | .setMode val => ∀ mode ∈ OptMode.parse val, Noted s mode

instance (s : State) (e : Event) : Decidable (Undisturbed cfg s e) := by
  cases e <;> unfold Undisturbed <;> infer_instance

structure State.InOrder (s : State) : Prop where
  nodes : ∀ n ∈ s.nodes, n.InOrder cfg
  apart : s.nodes.Pairwise (Apart FlowNode.packets flowOf)
  optimized : ∀ n ∈ s.nodes, ∀ x ∈ n.packets, s.optMode.optimizes x.1.trans.proto

def Moves (s : State) (new : List Packet) (r : State × List Delivered) : Prop :=
  ∀ f, held FlowNode.packets flowOf f s.nodes ++ select flowOf f new =
    select flowOf f (handed r.2) ++ held FlowNode.packets flowOf f r.1.nodes

theorem inOrder_init : init.InOrder cfg :=
  ⟨List.forall_mem_nil _, List.Pairwise.nil, List.forall_mem_nil _⟩

variable {cfg}

theorem handed_flatMap_flushed {ns : List FlowNode} (h : ∀ n ∈ ns, n.InOrder cfg) :
    handed (ns.flatMap (flushed cfg)) = ns.flatMap FlowNode.packets := by
  induction ns with
  | nil => rfl
  | cons n ns ih =>
    rw [List.flatMap_cons, handed_append, handed_flushed cfg (h n List.mem_cons_self),
      ih fun m hm => h m (List.mem_cons_of_mem _ hm), List.flatMap_cons]

theorem hashForEach_perm (nodes : List FlowNode) : (hashForEach cfg nodes).Perm nodes := by
  have hperm := flatMap_class_perm (fun n : FlowNode => (cfg.bucket n.hashValue).val) nodes 16
  have hall : nodes.filter (fun n => (cfg.bucket n.hashValue).val < 16) = nodes :=
    List.filter_eq_self.mpr fun n _ => decide_eq_true (cfg.bucket n.hashValue).isLt
  rw [hall] at hperm
  exact hperm

variable {s : State} {order : List FlowNode} {n : FlowNode} {p : PktInfo}

theorem flushWhere_moves (hs : s.InOrder cfg) (sel : FlowNode → Bool) (hperm : order.Perm s.nodes) :
    Moves s [] (flushWhere cfg sel order s) := by
  intro f
  have hnodes : ∀ n ∈ order.filter sel, n.InOrder cfg := fun n hn =>
    hs.nodes n (hperm.mem_iff.mp (List.mem_of_mem_filter hn))
  unfold flushWhere
  rw [handed_flatMap_flushed hnodes, select_nil, List.append_nil]
  exact held_release packets_emptied hperm hs.apart f

variable {sel : FlowNode → Bool} {out : List Delivered} {es : List Event}

theorem mem_flushWhere {m : FlowNode}
    (hm : m ∈ (flushWhere cfg sel order s).1.nodes) :
    m.pktList = [] ∨ m ∈ s.nodes ∧ sel m = false := by
  obtain ⟨n, hn, heq⟩ := List.mem_map.mp hm
  cases hsel : sel n with
  | true =>
    rw [if_pos hsel] at heq
    exact Or.inl (heq ▸ rfl)
  | false =>
    rw [if_neg (Bool.eq_false_iff.mp hsel)] at heq
    exact Or.inr (heq ▸ ⟨hn, hsel⟩)

theorem packets_of_nil (h : n.pktList = []) : n.packets = [] := by
  unfold FlowNode.packets
  rw [h, List.map_nil]

theorem flushWhere_inOrder
    (hnodes : ∀ n ∈ s.nodes, n.InOrder cfg) (hapart : s.nodes.Pairwise (Apart FlowNode.packets flowOf))
    (hopt : ∀ n ∈ s.nodes, sel n = false → ∀ x ∈ n.packets, s.optMode.optimizes x.1.trans.proto) :
    (flushWhere cfg sel order s).1.InOrder cfg := by
  constructor
  · intro m hm
    rcases mem_flushWhere hm with hnil | ⟨hmem, -⟩
    · exact inOrder_of_empty cfg hnil
    · exact hnodes m hmem
  · exact pairwise_release packets_emptied hapart
  · intro m hm x hx
    rcases mem_flushWhere hm with hnil | ⟨hmem, hsel⟩
    · rw [packets_of_nil hnil] at hx
      cases hx
    · exact hopt m hmem hsel x hx

theorem State.InOrder.flushWhere (hs : s.InOrder cfg) (sel : FlowNode → Bool)
    (order : List FlowNode) : (flushWhere cfg sel order s).1.InOrder cfg :=
  flushWhere_inOrder hs.nodes hs.apart fun n hn _ => hs.optimized n hn

theorem setOptMode_spec (hs : s.InOrder cfg) {val : List Char}
    (hnoted : ∀ mode ∈ OptMode.parse val, Noted s mode) :
    (setOptMode cfg val s).1.InOrder cfg ∧ Moves s [] (setOptMode cfg val s) := by
  unfold setOptMode
  cases hparse : OptMode.parse val with
  | none => exact ⟨hs, fun f => List.append_nil _⟩
  | some mode =>
    have hmode := hnoted mode hparse
    have hmoves : ∀ sel, Moves s [] (flushWhere cfg sel (hashForEach cfg s.nodes)
        { s with optMode := mode }) := fun sel =>
      flushWhere_moves hs sel (hashForEach_perm s.nodes)
    dsimp only
    by_cases hsame : s.optMode = mode
    · rw [if_pos hsame]
      subst hsame
      exact ⟨hs, fun f => List.append_nil _⟩
    · rw [if_neg hsame]
      have hprotocol : ∀ protocol, (∀ q : PktInfo, ¬mode.optimizes q.hdr.trans.proto →
          q.hdr.trans.proto = protocol) →
          (flushFlowNodesByProtocol cfg protocol { s with optMode := mode }).1.InOrder cfg := by
        intro protocol hother
        apply flushWhere_inOrder (s := { s with optMode := mode }) hs.nodes hs.apart
        intro n hn hsel x hx
        obtain ⟨q, hq, rfl⟩ := List.mem_map.mp hx
        by_contra hnot
        have hheld : n.pktList ≠ [] := List.ne_nil_of_mem hq
        have hproto := (hmode n hn q hq hnot).trans (hother q hnot)
        exact of_decide_eq_false hsel ⟨hheld, hproto⟩
      cases mode with
      | all => exact ⟨⟨hs.nodes, hs.apart, fun _ _ _ _ => rfl⟩, fun f => List.append_nil _⟩
      | tcp =>
        refine ⟨hprotocol ipprotoUdp fun q hnot => ?_, hmoves _⟩
        cases hq : q.hdr.trans with
        | tcp tp =>
          rw [hq] at hnot
          exact absurd rfl hnot
        | udp up => rfl
      | udp =>
        refine ⟨hprotocol ipprotoTcp fun q hnot => ?_, hmoves _⟩
        cases hq : q.hdr.trans with
        | tcp tp => rfl
        | udp up =>
          rw [hq] at hnot
          exact absurd rfl hnot
      | non =>
        refine ⟨flushWhere_inOrder (s := { s with optMode := .non }) hs.nodes hs.apart ?_,
          hmoves _⟩
        intro n hn hsel x hx
        have hnil : n.pktList = [] := by simpa using hsel
        rw [packets_of_nil hnil] at hx
        cases hx

variable (cfg) in
theorem handlePkt_cases (p : PktInfo) (nodes : List FlowNode) :
    (nodes.find? (found cfg p) = none ∧ handlePkt cfg p nodes = none) ∨
    ∃ as n bs, nodes = as ++ n :: bs ∧ (∀ m ∈ as, ¬found cfg p m) ∧ found cfg p n ∧
      nodes.find? (found cfg p) = some n ∧
      handlePkt cfg p nodes = some (as ++ (optNode cfg p n).1 :: bs, (optNode cfg p n).2) := by
  induction nodes with
  | nil => exact Or.inl ⟨rfl, rfl⟩
  | cons n ns ih =>
    unfold handlePkt
    by_cases hn : found cfg p n
    · rw [if_pos hn, List.find?_cons_of_pos hn]
      exact Or.inr ⟨[], n, ns, rfl, List.forall_mem_nil _, hn, rfl, rfl⟩
    · rw [if_neg hn, List.find?_cons_of_neg hn]
      rcases ih with ⟨hfind, heq⟩ | ⟨as, m, bs, hsplit, has, hm, hfind, heq⟩
      · rw [heq]
        exact Or.inl ⟨hfind, rfl⟩
      · rw [heq]
        refine Or.inr ⟨n :: as, m, bs, by rw [hsplit]; rfl, ?_, hm, hfind, rfl⟩
        intro a ha
        rcases List.mem_cons.mp ha with rfl | ha
        · exact hn
        · exact has a ha

theorem transProto_of_found (h : found cfg p n)
    (hheld : n.pktList ≠ []) : n.transProto = p.hdr.trans.proto := by
  have hid : identifyFlow cfg n p = true := (of_decide_eq_true h).2
  unfold identifyFlow at hid
  rw [if_neg fun hnil => hheld hnil.1] at hid
  by_contra hne
  rw [if_pos hne] at hid
  cases hid

/-- The packet meets the node at which it is found, and no other holds packets of its flow. -/
theorem replace_spec {s' : State} (as bs : List FlowNode)
    (hs : s.InOrder cfg) (hnodes : s.nodes = as ++ n :: bs)
    (hopt : s.optMode.optimizes p.hdr.trans.proto) (hdesc : p.Described) (hfound : found cfg p n)
    (hflow : ∀ q ∈ n.pktList, q.hdr.flow = p.hdr.flow)
    (hstays : cfg.deagMode → Stays cfg n p → p.hdr.Short) (hmerge : Merges cfg n p → Joins n p)
    (hothers : ∀ b ∈ as ++ bs, ∀ y ∈ b.packets, flowOf y ≠ flowOf p.packet)
    (hnodes' : s'.nodes = as ++ (optNode cfg p n).1 :: bs) (hmode : s'.optMode = s.optMode) :
    s'.InOrder cfg ∧ Moves s [p.packet] (s', (optNode cfg p n).2) := by
  have hmem : ∀ m ∈ as ++ n :: bs, m ∈ s.nodes := fun m hm => hnodes ▸ hm
  have hn : n ∈ s.nodes := hmem n (List.mem_append_right _ List.mem_cons_self)
  obtain ⟨hkept, hinOrder⟩ := optNode_spec (hs.nodes n hn) hdesc hflow
    (transProto_of_found hfound) hstays hmerge
  have hkey : ∀ y ∈ n.packets, flowOf y = flowOf p.packet := by
    intro y hy
    obtain ⟨q, hq, rfl⟩ := List.mem_map.mp hy
    exact hflow q hq
  have hsub : ∀ y ∈ (optNode cfg p n).1.packets, y ∈ n.packets ∨ y = p.packet := by
    intro y hy
    have hy' : y ∈ n.packets ++ [p.packet] := hkept ▸ List.mem_append_right _ hy
    rwa [List.mem_append, List.mem_singleton] at hy'
  have hkey' : ∀ y ∈ (optNode cfg p n).1.packets, flowOf y = flowOf p.packet := by
    intro y hy
    rcases hsub y hy with hy | rfl
    · exact hkey y hy
    · rfl
  have hcases : ∀ m ∈ s'.nodes, m = (optNode cfg p n).1 ∨ m ∈ s.nodes := by
    intro m hm
    rw [hnodes', List.mem_append, List.mem_cons] at hm
    rcases hm with hm | hm | hm
    · exact Or.inr (hmem m (List.mem_append_left _ hm))
    · exact Or.inl hm
    · exact Or.inr (hmem m (List.mem_append_right _ (List.mem_cons_of_mem _ hm)))
  refine ⟨⟨?_, ?_, ?_⟩, ?_⟩
  · intro m hm
    rcases hcases m hm with rfl | hm
    · exact hinOrder
    · exact hs.nodes m hm
  · rw [hnodes']
    exact pairwise_replace hkey' hothers (hnodes ▸ hs.apart)
  · intro m hm x hx
    rw [hmode]
    rcases hcases m hm with rfl | hm
    · rcases hsub x hx with hx | rfl
      · exact hs.optimized n hn x hx
      · exact hopt
    · exact hs.optimized m hm x hx
  · intro f
    rw [hnodes, hnodes']
    exact held_replace hkept hkey hothers f

variable (cfg) in
theorem getNewFlowIndex_spec {s : State} (hs : s.InOrder cfg) :
    (getNewFlowIndex cfg s).1.pktList = [] ∧ (getNewFlowIndex cfg s).2.1.InOrder cfg ∧
      (getNewFlowIndex cfg s).2.1.optMode = s.optMode ∧
      (∀ m ∈ (getNewFlowIndex cfg s).2.1.nodes, m ∈ s.nodes) ∧
      Moves s [] (getNewFlowIndex cfg s).2 := by
  unfold getNewFlowIndex
  by_cases hroom : s.nodes.length < numFlowNodes
  · rw [if_pos hroom]
    exact ⟨rfl, hs, rfl, fun m hm => hm, fun f => List.append_nil _⟩
  · rw [if_neg hroom]
    dsimp only
    cases hfind : s.nodes.find?
        fun n => n.index = s.flowRecycleCounter.toNat % numFlowNodes with
    | none =>
      exact ⟨rfl, ⟨hs.nodes, hs.apart, hs.optimized⟩, rfl, fun m hm => hm,
        fun f => List.append_nil _⟩
    | some n =>
      have hn : n ∈ s.nodes := List.mem_of_find?_eq_some hfind
      have hmem : ∀ m ∈ s.nodes.erase n, m ∈ s.nodes := fun m hm => List.mem_of_mem_erase hm
      have hperm := List.perm_cons_erase hn
      refine ⟨rfl, ⟨fun m hm => hs.nodes m (hmem m hm), hs.apart.sublist List.erase_sublist,
        fun m hm => hs.optimized m (hmem m hm)⟩, rfl, hmem, fun f => ?_⟩
      rw [held_perm hperm hs.apart, held_cons, select_nil, List.append_nil,
        handed_flushed cfg (hs.nodes n hn)]

theorem Moves.trans {s₁ s₂ : State} {new : List Packet} {out' : List Delivered}
    (h : Moves s [] (s₁, out)) (h' : Moves s₁ new (s₂, out')) : Moves s new (s₂, out ++ out') := by
  intro f
  have hf := h f
  have hf' := h' f
  rw [select_nil, List.append_nil] at hf
  rw [hf, List.append_assoc, hf', handed_append, select_append, List.append_assoc]

@[simp] theorem pktList_updateFlow (n : FlowNode) (p : PktInfo) :
    (updateFlow n p).pktList = n.pktList := by
  unfold updateFlow
  split
  all_goals rfl

@[simp] theorem hashValue_updateFlow (n : FlowNode) (p : PktInfo) :
    (updateFlow n p).hashValue = n.hashValue := by
  unfold updateFlow
  split
  all_goals rfl

/-- An empty node that was updated with the packet keeps it as any other such node does. -/
theorem stays_updateFlow {n m : FlowNode} (hn : n.pktList = []) (hm : m.pktList = []) :
    Stays cfg (updateFlow n p) p = Stays cfg (updateFlow m p) p := by
  unfold Stays updateFlow ipFlagFlush
  cases p.hdr.ip
  all_goals
    dsimp only
    rw [hn, hm]
    simp

variable (cfg) in
/-- The node that is added is empty, passes with its hash, and stands first in its bucket. -/
theorem addFlow_spec {s : State} (hs : s.InOrder cfg) (p : PktInfo) :
    ∃ n ns, (addFlow cfg s p).1.nodes = n :: ns ∧ n.pktList = [] ∧ found cfg p n ∧
      Stays cfg n p = Stays cfg (updateFlow (.fresh 0) p) p ∧ (∀ m ∈ ns, m ∈ s.nodes) ∧
      (addFlow cfg s p).1.optMode = s.optMode ∧ (addFlow cfg s p).1.InOrder cfg ∧
      Moves s [] (addFlow cfg s p) := by
  obtain ⟨hnil, hinOrder, hmode, hmem, hmoves⟩ := getNewFlowIndex_spec cfg hs
  generalize hnew : getNewFlowIndex cfg s = r at hnil hinOrder hmode hmem hmoves
  obtain ⟨n, s₁, out⟩ := r
  dsimp only at hnil hinOrder hmode hmem
  have hadd : addFlow cfg s p = ({ s₁ with
      nodes := updateFlow { n with hashValue := hashKey cfg p } p :: s₁.nodes }, out) := by
    unfold addFlow
    rw [hnew]
  have hempty : (updateFlow { n with hashValue := hashKey cfg p } p).pktList = [] := by
    rw [pktList_updateFlow]
    exact hnil
  have hnone : (updateFlow { n with hashValue := hashKey cfg p } p).packets = [] :=
    packets_of_nil hempty
  rw [hadd]
  refine ⟨_, _, rfl, hempty, ?_, stays_updateFlow hnil rfl, hmem, hmode, ⟨?_, ?_, ?_⟩, fun f => ?_⟩
  · unfold found identifyFlow
    rw [hempty, hashValue_updateFlow]
    simp
  · intro m hm
    rcases List.mem_cons.mp hm with rfl | hm
    · exact inOrder_of_empty cfg hempty
    · exact hinOrder.nodes m hm
  · exact List.pairwise_cons.mpr ⟨fun _ _ => apart_of_empty hnone, hinOrder.apart⟩
  · intro m hm x hx
    rcases List.mem_cons.mp hm with rfl | hm
    · rw [hnone] at hx
      cases hx
    · exact hinOrder.optimized m hm x hx
  · rw [held_cons, hnone, select_nil, List.nil_append]
    exact hmoves f

theorem others_of_placed {as bs : List FlowNode}
    (hs : s.InOrder cfg) (hplaced : Placed cfg s p) (hnodes : s.nodes = as ++ n :: bs)
    (has : ∀ m ∈ as, ¬found cfg p m) (hfound : found cfg p n)
    (hfind : s.nodes.find? (found cfg p) = some n) :
    ∀ b ∈ as ++ bs, ∀ y ∈ b.packets, flowOf y ≠ flowOf p.packet := by
  intro b hb y hy heq
  obtain ⟨q, hq, rfl⟩ := List.mem_map.mp hy
  have hmem : b ∈ s.nodes := by
    rw [hnodes]
    rcases List.mem_append.mp hb with hb | hb
    · exact List.mem_append_left _ hb
    · exact List.mem_append_right _ (List.mem_cons_of_mem _ hb)
  have hbn : n = b := Option.some.inj (hfind.symm.trans (hplaced.1 b hmem q hq heq))
  subst hbn
  rcases List.mem_append.mp hb with hb | hb
  · exact has n hb hfound
  · have hpair := hs.apart
    rw [hnodes] at hpair
    have hself := (List.pairwise_cons.mp (List.pairwise_append.mp hpair).2.1).1 n hb
    exact hself q.packet hy q.packet hy rfl

theorem optIngress_spec (hs : s.InOrder cfg)
    (hdesc : p.Described)
    (hcond : s.optMode.optimizes p.hdr.trans.proto → Placed cfg s p ∧ Agrees cfg s p ∧ Fits cfg s p) :
    (optIngress cfg s p).1.InOrder cfg ∧ Moves s [p.packet] (optIngress cfg s p) := by
  unfold optIngress
  by_cases hopt : s.optMode.optimizes p.hdr.trans.proto
  · obtain ⟨hplaced, hagrees, hfits⟩ := hcond hopt
    rw [if_pos hopt]
    rcases handlePkt_cases cfg p s.nodes with
      ⟨hfind, heq⟩ | ⟨as, n, bs, hnodes, has, hfound, hfind, heq⟩
    · rw [heq]
      obtain ⟨n, ns, hnodes, hempty, hfound, hnew, hmem, hmode, hadded, hmoves⟩ :=
        addFlow_spec cfg hs p
      generalize addFlow cfg s p = r at hnodes hmode hadded hmoves
      obtain ⟨s₁, out⟩ := r
      dsimp only at hnodes hmode hadded ⊢
      have hhandle : handlePkt cfg p s₁.nodes =
          some ((optNode cfg p n).1 :: ns, (optNode cfg p n).2) := by
        rw [hnodes]
        exact if_pos hfound
      rw [hhandle]
      have hothers : ∀ b ∈ [] ++ ns, ∀ y ∈ b.packets, flowOf y ≠ flowOf p.packet := by
        intro b hb y hy heq
        obtain ⟨q, hq, rfl⟩ := List.mem_map.mp hy
        have hsome := hplaced.1 b (hmem b hb) q hq heq
        rw [hfind] at hsome
        cases hsome
      have hflow : ∀ q ∈ n.pktList, q.hdr.flow = p.hdr.flow := by
        intro q hq
        rw [hempty] at hq
        cases hq
      have hmerge : Merges cfg n p → Joins n p := fun hmerges =>
        absurd hempty (merges_spec hmerges).1
      have hstays : cfg.deagMode → Stays cfg n p → p.hdr.Short := by
        unfold Fits at hfits
        rw [hfind] at hfits
        rwa [hnew]
      have hstep : ({ s₁ with nodes := (optNode cfg p n).1 :: ns } : State).InOrder cfg ∧
          Moves s₁ [p.packet] ({ s₁ with nodes := (optNode cfg p n).1 :: ns },
            (optNode cfg p n).2) :=
        replace_spec [] ns hadded hnodes (hmode ▸ hopt) hdesc hfound hflow hstays hmerge
          hothers rfl rfl
      exact ⟨hstep.1, hmoves.trans hstep.2⟩
    · rw [heq]
      have hstays : cfg.deagMode → Stays cfg n p → p.hdr.Short := by
        unfold Fits at hfits
        rwa [hfind] at hfits
      exact replace_spec as bs hs hnodes hopt hdesc hfound (hplaced.2 n hfind) hstays
        (hagrees n hfind) (others_of_placed hs hplaced hnodes has hfound hfind) rfl rfl
  · rw [if_neg hopt]
    refine ⟨hs, fun f => ?_⟩
    rw [handed_singleton, segments_flushCurrPkt cfg hdesc]
    by_cases hf : f = flowOf p.packet
    · have hnone : held FlowNode.packets flowOf f s.nodes = [] := by
        apply held_eq_nil
        intro n hn x hx heq
        have hproto : x.1.trans.proto = p.hdr.trans.proto := congrArg Tuple.proto (heq.trans hf)
        exact hopt (hproto ▸ hs.optimized n hn x hx)
      rw [hnone, List.nil_append, List.append_nil]
    · have hnone : select flowOf f [p.packet] = [] := by
        apply select_none
        intro x hx
        rw [List.mem_singleton.mp hx]
        exact Ne.symm hf
      rw [hnone, List.nil_append, List.append_nil]

theorem step_spec (hs : s.InOrder cfg) (e : Event) (hcond : Undisturbed cfg s e) :
    (step cfg s e).1.InOrder cfg ∧ Moves s (arrived [e]) (step cfg s e) := by
  cases e with
  | ingress p => exact optIngress_spec hs hcond.1 hcond.2
  | flushAll =>
    exact ⟨hs.flushWhere _ _, flushWhere_moves hs _ (hashForEach_perm s.nodes)⟩
  | flushByHash hashVal => exact ⟨hs.flushWhere _ _, flushWhere_moves hs _ (List.Perm.refl _)⟩
  | setMode val => exact setOptMode_spec hs hcond

variable (cfg) in
/-- What arrived is what was delivered and, behind it, what is still held. -/
structure Carried (es : List Event) (out : List Delivered) (s : State) : Prop where
  inOrder : s.InOrder cfg
  kept : ∀ f, select flowOf f (arrived es) =
    select flowOf f (handed out) ++ held FlowNode.packets flowOf f s.nodes

theorem carried_step (h : Carried cfg es out s)
    (e : Event) (hcond : Undisturbed cfg s e) :
    Carried cfg (es ++ [e]) (out ++ (step cfg s e).2) (step cfg s e).1 := by
  obtain ⟨hinOrder, hmoves⟩ := step_spec h.inOrder e hcond
  refine ⟨hinOrder, fun f => ?_⟩
  have harrived : arrived (es ++ [e]) = arrived es ++ arrived [e] := List.filterMap_append
  rw [harrived, select_append, h.kept f, List.append_assoc, hmoves f, handed_append,
    select_append, List.append_assoc]

theorem carried_run (hm : (machine cfg).Meets (Undisturbed cfg) init es) :
    Carried cfg es ((machine cfg).run init es).2 ((machine cfg).run init es).1 := by
  have hinit : Carried cfg [] [] init := ⟨inOrder_init cfg, fun _ => rfl⟩
  exact (machine cfg).history_of_meets (I := Carried cfg)
    (fun _ _ _ e h hcond => carried_step h e hcond) hinit hm

/-- In a run whose packets meet the node of their flow, and agree with what they go behind where
nothing is compared, coalescing is transparent. -/
theorem transparent_of_undisturbed (cfg : Config) {es : List Event}
    (hm : (machine cfg).Meets (Undisturbed cfg) init es) : Transparent cfg es := by
  intro hempty f
  have hnone : held FlowNode.packets flowOf f ((machine cfg).run init es).1.nodes = [] := by
    apply held_eq_nil
    intro n hn x hx
    rw [packets_of_nil (hempty n hn)] at hx
    cases hx
  have hkept := (carried_run hm).kept f
  rw [hnone, List.append_nil] at hkept
  exact hkept.symm

scoped instance neZero_sixteen : NeZero 16 := ⟨by decide⟩

def plainConfig : Config where
  hash t := t.source.toUInt32
  bucket h := Fin.ofNat 16 h.toNat
  deagMode := true
  tcpFlushLimit := 65000
  udpFlushLimit := 65000
  bytes h := List.replicate (h.ip.len + h.trans.len) 0
  length_bytes _ := List.length_replicate
  misread _ _ := false

/-- Segment `i` of a TCP flow, two bytes each. -/
def tcpSegment (i : ℕ) : PktInfo :=
  ⟨⟨.v4 ⟨0, UInt16.ofNat i, 0x4000, 64, 0x0a000001, 0x0a000002, []⟩,
    .tcp ⟨443, 40000, 1000 + UInt32.ofNat (2 * i), 77, 0, false, false, false, true, false, false,
      false, false, 512, 0, []⟩⟩, [UInt8.ofNat i, 0], ⟨0, none, false⟩⟩

def segmentRun : List Event :=
  [.ingress (tcpSegment 0), .ingress (tcpSegment 1), .ingress (tcpSegment 2), .flushAll]

theorem segmentRun_transparent :
    ((machine plainConfig).run init segmentRun).2.length = 1 ∧ Transparent plainConfig segmentRun :=
  ⟨by decide, transparent_of_undisturbed plainConfig (by decide)⟩

def hopDatagram (data : UInt8) : PktInfo :=
  ⟨⟨.v6 ⟨⟨0x60, 0, 0⟩, 64, ⟨1, 0, 0, 1⟩, ⟨1, 0, 0, 2⟩, [(0, [17, 0, 1, 4, 0, 0, 0, 0])]⟩,
    .udp ⟨443, 40000⟩⟩, [data], ⟨0, none, false⟩⟩

def hopRun : List Event := [.ingress (hopDatagram 1), .ingress (hopDatagram 2), .flushAll]

/-- The second datagram does not find the node of the first one, and leaves before it. -/
theorem hopRun_not_transparent :
    (∀ p ∈ [hopDatagram 1, hopDatagram 2], p.Described) ∧ ¬Transparent plainConfig hopRun := by
  refine ⟨by decide, fun h => ?_⟩
  have hflow := h (by decide) (hopDatagram 1).hdr.flow
  revert hflow
  decide

end KernelModules.Rmnet
