import KernelModules.SyncRows

/-!
# Group accounting

A group counts the children that have not been signaled yet. The count is kept beside two lists,
the children of the group and the parents of each child, which the calls change at both ends.

A signal takes the child off no list of the group: only the child forgets its parents. So the
two lists agree for the children that are still waited for, and a history of the run says where
the other ones went. A child that is destroyed before its signal leaves the count as it is.
-/

namespace KernelModules.CamSync

/-- The children of `g` that are active and still carry it in their list of parents. -/
def pending (s : SyncDevice) (g : ℤ) : ℕ :=
  (s.syncTable g).childrenList.countP fun c =>
    (s.syncTable c).state = .active ∧ g ∈ (s.syncTable c).parentsList

def LiveGroup (s : SyncDevice) (g : ℤ) : Prop :=
  (s.syncTable g).type = .group ∧ (s.syncTable g).state ≠ .invalid

/-- For each group since its merge: how many children were destroyed while they carried it, and
which ones were signaled. -/
structure History where
  lost : ℤ → ℕ := fun _ => 0
  released : ℤ → List ℤ := fun _ => []

def History.note (h : History) (s : SyncDevice) (i : Input) (r : SyncDevice × List Event) :
    History :=
  match i with
  | .merge _ _ =>
    { lost := fun g => if .object g ∈ r.2 then 0 else h.lost g
      released := fun g => if .object g ∈ r.2 then [] else h.released g }
  | .signal obj _ =>
    { h with released := fun g =>
        if g ∈ (s.syncTable obj).parentsList ∧ g ∉ (r.1.syncTable obj).parentsList then
          obj :: h.released g
        else h.released g }
  | .destroy obj =>
    { h with lost := fun g =>
        if g ∈ (s.syncTable obj).parentsList then h.lost g + 1 else h.lost g }
  | _ => h

/-- A row that lists `g` as a parent is an active child of the live group `g`. -/
structure Carries (s : SyncDevice) (c g : ℤ) : Prop where
  group : LiveGroup s g
  indv : (s.syncTable c).type = .indv
  active : (s.syncTable c).state = .active
  child : c ∈ (s.syncTable g).childrenList

structure Accounted (s : SyncDevice) (h : History) : Prop where
  zero : s.bitmap 0 = true
  free : ∀ k, s.bitmap k = false → (s.syncTable k).state = .invalid
  range : ∀ k, (s.syncTable k).state ≠ .invalid → 0 < k ∧ k < maxObjs
  carries : ∀ c g, g ∈ (s.syncTable c).parentsList → Carries s c g
  nodup_parents : ∀ c, (s.syncTable c).parentsList.Nodup
  nodup_children : ∀ g, (s.syncTable g).childrenList.Nodup
  children_pos : ∀ g, ∀ c ∈ (s.syncTable g).childrenList, 0 < c
  small : ∀ g, (s.syncTable g).state ≠ .invalid → (s.syncTable g).remaining < 2 ^ 32
  count : ∀ g, LiveGroup s g → (s.syncTable g).remaining = pending s g + h.lost g
  released : ∀ g, ∀ c ∈ (s.syncTable g).childrenList,
    g ∈ (s.syncTable c).parentsList ∨ c ∈ h.released g

namespace Accounted

variable {s : SyncDevice} {h : History}

theorem parents_eq_nil (hs : Accounted s h) {c : ℤ} (hc : (s.syncTable c).state ≠ .active) :
    (s.syncTable c).parentsList = [] :=
  List.eq_nil_iff_forall_not_mem.mpr fun g hg => hc (hs.carries c g hg).active

theorem notMem_parents (hs : Accounted s h) {g : ℤ} (hg : (s.syncTable g).state = .invalid)
    (c : ℤ) : g ∉ (s.syncTable c).parentsList := fun hm => (hs.carries c g hm).group.2 hg

end Accounted

variable {s : SyncDevice} {h : History} {obj : ℤ} {state : SyncState}

theorem pending_eq
    (hc : ∀ c g, g ∈ (s.syncTable c).parentsList → Carries s c g) (g : ℤ) :
    pending s g = (s.syncTable g).childrenList.countP fun c => g ∈ (s.syncTable c).parentsList :=
  List.countP_congr fun c _ => by
    simpa using fun hm => (hc c g hm).active

variable {s' : SyncDevice} {c g idx : ℤ} {objs : List ℤ}

theorem Carries.of_rows (h : Carries s c g)
    (hg : s'.syncTable g = s.syncTable g) (hc : s'.syncTable c = s.syncTable c) :
    Carries s' c g :=
  ⟨by rw [LiveGroup, hg]; exact h.group, by rw [hc]; exact h.indv, by rw [hc]; exact h.active,
    by rw [hg]; exact h.child⟩

structure SameLinks (s s' : SyncDevice) : Prop where
  bitmap : s'.bitmap = s.bitmap
  type : ∀ k, (s'.syncTable k).type = (s.syncTable k).type
  state : ∀ k, (s'.syncTable k).state = (s.syncTable k).state
  remaining : ∀ k, (s'.syncTable k).remaining = (s.syncTable k).remaining
  parents : ∀ k, (s'.syncTable k).parentsList = (s.syncTable k).parentsList
  children : ∀ k, (s'.syncTable k).childrenList = (s.syncTable k).childrenList

theorem SameLinks.refl (s : SyncDevice) : SameLinks s s :=
  ⟨rfl, fun _ => rfl, fun _ => rfl, fun _ => rfl, fun _ => rfl, fun _ => rfl⟩

theorem sameLinks_setRow (s : SyncDevice) (obj : ℤ) (row : Row)
    (hrow : row.type = (s.syncTable obj).type ∧ row.state = (s.syncTable obj).state ∧
      row.remaining = (s.syncTable obj).remaining ∧
      row.parentsList = (s.syncTable obj).parentsList ∧
      row.childrenList = (s.syncTable obj).childrenList) : SameLinks s (s.setRow obj row) := by
  obtain ⟨h₁, h₂, h₃, h₄, h₅⟩ := hrow
  constructor
  · rfl
  all_goals
    intro k
    rw [setRow_syncTable]
    by_cases hk : k = obj
    · rw [if_pos hk, hk]
      assumption
    · rw [if_neg hk]

theorem Accounted.of_sameLinks (hs : Accounted s h)
    (hsame : SameLinks s s') : Accounted s' h where
  zero := by rw [hsame.bitmap]; exact hs.zero
  free k hk := by rw [hsame.state]; exact hs.free k (by rwa [← hsame.bitmap])
  range k hk := hs.range k (by rwa [← hsame.state])
  carries c g hg := by
    have hc := hs.carries c g (by rwa [← hsame.parents])
    exact ⟨by rw [LiveGroup, hsame.type, hsame.state]; exact hc.group,
      by rw [hsame.type]; exact hc.indv, by rw [hsame.state]; exact hc.active,
      by rw [hsame.children]; exact hc.child⟩
  nodup_parents c := by rw [hsame.parents]; exact hs.nodup_parents c
  nodup_children g := by rw [hsame.children]; exact hs.nodup_children g
  children_pos g := by rw [hsame.children]; exact hs.children_pos g
  small g hg := by rw [hsame.remaining]; exact hs.small g (by rwa [← hsame.state])
  count g hg := by
    rw [LiveGroup, hsame.type, hsame.state] at hg
    simp only [pending, hsame.remaining, hsame.children, hsame.state, hsame.parents]
    exact hs.count g hg
  released g := by
    simp only [hsame.children, hsame.parents]
    exact hs.released g

/-- A row that is not in use takes new contents without links; the other rows stay. -/
theorem Accounted.of_blank (hs : Accounted s h)
    (hfree : (s.syncTable idx).state = .invalid) (hpos : 0 < idx) (hlt : idx < maxObjs)
    (hothers : ∀ k, k ≠ idx → s'.syncTable k = s.syncTable k)
    (hbitmap : ∀ k, k ≠ idx → s'.bitmap k = s.bitmap k)
    (hbit : s'.bitmap idx = false → (s'.syncTable idx).state = .invalid)
    (hparents : (s'.syncTable idx).parentsList = [])
    (hchildren : (s'.syncTable idx).childrenList = [])
    (hsmall : (s'.syncTable idx).state ≠ .invalid → (s'.syncTable idx).remaining < 2 ^ 32)
    (hgroup : ¬ LiveGroup s' idx) : Accounted s' h := by
  have hidx : ∀ k, (s.syncTable k).state ≠ .invalid → k ≠ idx := fun k hk h => hk (h ▸ hfree)
  have hpar : ∀ c, (s'.syncTable c).parentsList = (s.syncTable c).parentsList := fun c => by
    by_cases hc : c = idx
    · rw [hc, hparents, hs.parents_eq_nil (by simp [hfree])]
    · rw [hothers c hc]
  have hcarries : ∀ c g, g ∈ (s'.syncTable c).parentsList → Carries s' c g := fun c g hg => by
    rw [hpar] at hg
    have hc := hs.carries c g hg
    exact hc.of_rows (hothers g (hidx g hc.group.2))
      (hothers c (hidx c (by simp [hc.active])))
  constructor
  · rw [hbitmap 0 (by omega)]
    exact hs.zero
  · intro k hk
    by_cases hki : k = idx
    · rw [hki] at hk ⊢
      exact hbit hk
    · rw [hothers k hki]
      exact hs.free k (by rwa [← hbitmap k hki])
  · intro k hk
    by_cases hki : k = idx
    · rw [hki]
      exact ⟨hpos, hlt⟩
    · exact hs.range k (by rwa [← hothers k hki])
  · exact hcarries
  · intro c
    rw [hpar]
    exact hs.nodup_parents c
  · intro g
    by_cases hg : g = idx
    · rw [hg, hchildren]
      exact List.nodup_nil
    · rw [hothers g hg]
      exact hs.nodup_children g
  · intro g c hc
    by_cases hg : g = idx
    · rw [hg, hchildren] at hc
      exact absurd hc List.not_mem_nil
    · rw [hothers g hg] at hc
      exact hs.children_pos g c hc
  · intro g hlive
    by_cases hg : g = idx
    · rw [hg] at hlive ⊢
      exact hsmall hlive
    · rw [hothers g hg] at hlive ⊢
      exact hs.small g hlive
  · intro g hlive
    have hg : g ≠ idx := fun h => hgroup (h ▸ hlive)
    rw [LiveGroup, hothers g hg] at hlive
    rw [pending_eq hcarries, hothers g hg, hs.count g hlive, pending_eq hs.carries]
    simp only [hpar]
  · intro g c hc
    by_cases hg : g = idx
    · rw [hg, hchildren] at hc
      exact absurd hc List.not_mem_nil
    · rw [hothers g hg] at hc
      rw [hpar]
      exact hs.released g c hc

theorem History.note_object (h : History) {alloc : Alloc} (g : ℤ) :
    (h.note s (.merge objs alloc) (s', [.object idx, .returned .ok])).lost g =
        (if g = idx then 0 else h.lost g) ∧
      (h.note s (.merge objs alloc) (s', [.object idx, .returned .ok])).released g =
        if g = idx then [] else h.released g := by
  simp [History.note]

theorem mem_activeObjs : c ∈ activeObjs s objs ↔ c ∈ objs ∧ (s.syncTable c).state = .active := by
  simp [activeObjs]

theorem linkedRow_children (s : SyncDevice) (idx : ℤ) (objs : List ℤ) (k : ℤ) :
    (linkedRow s idx objs k).childrenList = (s.syncTable k).childrenList := by
  unfold linkedRow
  split <;> rfl

theorem linkedRow_remaining (s : SyncDevice) (idx : ℤ) (objs : List ℤ) (k : ℤ) :
    (linkedRow s idx objs k).remaining = (s.syncTable k).remaining := by
  unfold linkedRow
  split <;> rfl

theorem mem_linkedRow_parents {k : ℤ} :
    g ∈ (linkedRow s idx objs k).parentsList ↔
      g ∈ (s.syncTable k).parentsList ∨ g = idx ∧ k ∈ activeObjs s objs := by
  unfold linkedRow
  rw [mem_activeObjs]
  split
  · rename_i h
    simp [h]
  · rename_i h
    simp [h]

theorem groupRow_state (s : SyncDevice) (objs : List ℤ) : (groupRow s objs).state ≠ .invalid := by
  unfold groupRow
  split_ifs <;> simp

theorem Accounted.merged {s s' : SyncDevice} {h h' : History} {objs : List ℤ} {idx : ℤ}
    (hs : Accounted s h) (hf : Fresh s idx) (hnodup : objs.Nodup) (hidx : idx ∉ objs)
    (hrange : ∀ obj ∈ objs, 0 < obj ∧ obj < maxObjs) (hm : Merged s objs idx s')
    (hbitmap : s'.bitmap = (s.setBit idx true).bitmap)
    (hlost : ∀ g, h'.lost g = if g = idx then 0 else h.lost g)
    (hreleased : ∀ g, h'.released g = if g = idx then [] else h.released g) :
    Accounted s' h' := by
  have hfree := hs.free idx hf.free
  have hlive : ∀ k, (s.syncTable k).state ≠ .invalid → k ≠ idx := fun k hk h => hk (h ▸ hfree)
  have hactive : ∀ c ∈ activeObjs s objs, c ≠ idx := fun c hc h =>
    hidx (h ▸ (mem_activeObjs.mp hc).1)
  have hgroup : LiveGroup s' idx := by
    rw [LiveGroup, hm.group]
    exact ⟨rfl, groupRow_state s objs⟩
  have hpar : ∀ c g, g ∈ (s'.syncTable c).parentsList ↔
      g ∈ (s.syncTable c).parentsList ∨ g = idx ∧ c ∈ activeObjs s objs := by
    intro c g
    by_cases hc : c = idx
    · rw [hc, hm.group, hs.parents_eq_nil (by simp [hfree])]
      have : idx ∉ activeObjs s objs := fun h => hactive idx h rfl
      simp [groupRow, this]
    · rw [hm.others c hc, mem_linkedRow_parents]
  have hcarries : ∀ c g, g ∈ (s'.syncTable c).parentsList → Carries s' c g := by
    intro c g hg
    rcases (hpar c g).mp hg with hg | ⟨rfl, hc⟩
    · have hc := hs.carries c g hg
      have hgi := hlive g hc.group.2
      have hci := hlive c (by simp [hc.active])
      exact ⟨by rw [LiveGroup, hm.others g hgi, linkedRow_type, linkedRow_state]; exact hc.group,
        by rw [hm.others c hci, linkedRow_type]; exact hc.indv,
        by rw [hm.others c hci, linkedRow_state]; exact hc.active,
        by rw [hm.others g hgi, linkedRow_children]; exact hc.child⟩
    · have hci := hactive c hc
      obtain ⟨hobj, hstate⟩ := mem_activeObjs.mp hc
      exact ⟨hgroup, by rw [hm.others c hci, linkedRow_type]; exact (hm.mergeable c hobj).1,
        by rw [hm.others c hci, linkedRow_state]; exact hstate, by rw [hm.group]; exact hc⟩
  constructor
  · rw [hbitmap, setBit_bitmap, if_neg (by have := hf.pos; omega)]
    exact hs.zero
  · intro k hk
    rw [hbitmap, setBit_bitmap] at hk
    by_cases hki : k = idx
    · simp [hki] at hk
    · rw [if_neg hki] at hk
      rw [hm.others k hki, linkedRow_state]
      exact hs.free k hk
  · intro k hk
    by_cases hki : k = idx
    · rw [hki]
      exact ⟨hf.pos, hf.lt⟩
    · exact hs.range k (by rwa [← linkedRow_state s idx objs k, ← hm.others k hki])
  · exact hcarries
  · intro c
    by_cases hc : c = idx
    · rw [hc, hm.group]
      exact List.nodup_nil
    · rw [hm.others c hc]
      unfold linkedRow
      split
      · refine List.nodup_append.mpr ⟨hs.nodup_parents c, List.nodup_singleton idx, ?_⟩
        intro g hg k hk hgk
        rw [List.mem_singleton.mp hk] at hgk
        exact hs.notMem_parents hfree c (hgk ▸ hg)
      · exact hs.nodup_parents c
  · intro g
    by_cases hg : g = idx
    · rw [hg, hm.group]
      exact hnodup.filter _
    · rw [hm.others g hg, linkedRow_children]
      exact hs.nodup_children g
  · intro g c hc
    by_cases hg : g = idx
    · rw [hg, hm.group] at hc
      exact (hrange c (mem_activeObjs.mp hc).1).1
    · rw [hm.others g hg, linkedRow_children] at hc
      exact hs.children_pos g c hc
  · intro g hg
    by_cases hgi : g = idx
    · rw [hgi, hm.group]
      exact (List.length_filter_le _ _).trans_lt (length_lt_of_nodup hnodup hrange)
    · rw [hm.others g hgi, linkedRow_state] at hg
      rw [hm.others g hgi, linkedRow_remaining]
      exact hs.small g hg
  · intro g hg
    rw [pending_eq hcarries, hlost]
    by_cases hgi : g = idx
    · rw [if_pos hgi, hgi, hm.group, Nat.add_zero]
      refine (List.countP_eq_length.mpr fun c hc => ?_).symm
      simpa using (hpar c idx).mpr (Or.inr ⟨rfl, hc⟩)
    · rw [LiveGroup, hm.others g hgi, linkedRow_type, linkedRow_state] at hg
      rw [if_neg hgi, hm.others g hgi, linkedRow_remaining, linkedRow_children, hs.count g hg,
        pending_eq hs.carries]
      simp only [hpar, hgi, false_and, or_false]
  · intro g c hc
    rw [hreleased, hpar]
    by_cases hgi : g = idx
    · rw [hgi, hm.group] at hc
      exact Or.inl (Or.inr ⟨hgi, hc⟩)
    · rw [hm.others g hgi, linkedRow_children] at hc
      rw [if_neg hgi]
      exact (hs.released g c hc).imp_left Or.inl

theorem decr_lt (n : ℕ) : decr n < 2 ^ 32 := by
  unfold decr
  omega

theorem decr_of_pos {n : ℕ} (hpos : 0 < n) (hsmall : n < 2 ^ 32) : decr n = n - 1 := by
  unfold decr
  omega

theorem countP_of_leaves {l : List ℤ} {p q : ℤ → Bool} {a : ℤ} (hnodup : l.Nodup) (ha : a ∈ l)
    (hp : p a = true) (hq : q a = false) (heq : ∀ b ∈ l, b ≠ a → p b = q b) :
    l.countP p = l.countP q + 1 := by
  have hperm := List.perm_cons_erase ha
  rw [hperm.countP_eq p, hperm.countP_eq q, List.countP_cons_of_pos hp,
    List.countP_cons_of_neg (by simp [hq])]
  congr 1
  refine List.countP_congr fun b hb => ?_
  rw [heq b (List.mem_of_mem_erase hb) fun h => ?_]
  rw [h] at hb
  exact hnodup.not_mem_erase hb

namespace Row

variable (eventq : Bool) (status : SyncState) (row : Row)

@[simp] theorem parentSignaled_type : (row.parentSignaled eventq status).type = row.type := rfl

@[simp] theorem parentSignaled_state :
    (row.parentSignaled eventq status).state = row.joined status := rfl

@[simp] theorem parentSignaled_remaining :
    (row.parentSignaled eventq status).remaining = decr row.remaining := rfl

@[simp] theorem parentSignaled_parents :
    (row.parentSignaled eventq status).parentsList = row.parentsList := rfl

@[simp] theorem parentSignaled_children :
    (row.parentSignaled eventq status).childrenList = row.childrenList := rfl

theorem joined_ne_invalid {status : SyncState} (h : status ≠ .invalid) :
    row.joined status ≠ .invalid := by
  unfold joined
  split
  · simp
  · exact h

end Row

theorem Signals.ne_invalid {status : ℕ}
    (h : Signals s obj status state) : state ≠ .invalid ∧ state ≠ .active := by
  have := signaledStatus_isSignaled h.status
  constructor <;> (rintro rfl; exact absurd this (by decide))

theorem Accounted.parents_valid (hs : Accounted s h) :
    ∀ p ∈ (s.syncTable obj).parentsList, p ≠ obj ∧ (s.syncTable p).state ≠ .invalid := by
  intro p hp
  have hc := hs.carries obj p hp
  refine ⟨?_, hc.group.2⟩
  rintro rfl
  have htype := hc.group.1
  rw [hc.indv] at htype
  cases htype

section SignaledDevice

variable (s : SyncDevice) (obj k : ℤ) (state : SyncState)

theorem signaledDevice_self : (signaledDevice s obj state).syncTable obj =
    { (s.syncTable obj).selfSignaled s.eventq state with refCnt := 0 } := if_pos rfl

variable {s obj k}

theorem signaledDevice_parent (hne : k ≠ obj) (hk : k ∈ (s.syncTable obj).parentsList) :
    (signaledDevice s obj state).syncTable k =
      (s.syncTable k).parentSignaled s.eventq state := by
  simp only [signaledDevice, if_neg hne, if_pos hk]

theorem signaledDevice_other (hne : k ≠ obj) (hk : k ∉ (s.syncTable obj).parentsList) :
    (signaledDevice s obj state).syncTable k = s.syncTable k := by
  simp only [signaledDevice, if_neg hne, if_neg hk]

theorem signaledDevice_type :
    ((signaledDevice s obj state).syncTable k).type = (s.syncTable k).type := by
  by_cases hne : k = obj
  · rw [hne, signaledDevice_self]
    rfl
  · by_cases hk : k ∈ (s.syncTable obj).parentsList
    · rw [signaledDevice_parent state hne hk, Row.parentSignaled_type]
    · rw [signaledDevice_other state hne hk]

theorem signaledDevice_children :
    ((signaledDevice s obj state).syncTable k).childrenList = (s.syncTable k).childrenList := by
  by_cases hne : k = obj
  · rw [hne, signaledDevice_self]
    rfl
  · by_cases hk : k ∈ (s.syncTable obj).parentsList
    · rw [signaledDevice_parent state hne hk, Row.parentSignaled_children]
    · rw [signaledDevice_other state hne hk]

theorem signaledDevice_invalid (h : state ≠ .invalid)
    (hk : ((signaledDevice s obj state).syncTable k).state = .invalid) :
    (s.syncTable k).state = .invalid := by
  by_cases hne : k = obj
  · rw [hne, signaledDevice_self] at hk
    exact absurd hk h
  · by_cases hp : k ∈ (s.syncTable obj).parentsList
    · rw [signaledDevice_parent state hne hp, Row.parentSignaled_state] at hk
      exact absurd hk (Row.joined_ne_invalid _ h)
    · rwa [signaledDevice_other state hne hp] at hk

theorem signaledDevice_parents :
    ((signaledDevice s obj state).syncTable k).parentsList =
      if k = obj then [] else (s.syncTable k).parentsList := by
  by_cases hne : k = obj
  · rw [if_pos hne, hne, signaledDevice_self]
    rfl
  · rw [if_neg hne]
    by_cases hk : k ∈ (s.syncTable obj).parentsList
    · rw [signaledDevice_parent state hne hk, Row.parentSignaled_parents]
    · rw [signaledDevice_other state hne hk]

end SignaledDevice

theorem Accounted.notMem_of_indv (hs : Accounted s h)
    (hc : (s.syncTable c).type = .indv) (obj : ℤ) : c ∉ (s.syncTable obj).parentsList := fun hm => by
  have hgroup := (hs.carries obj c hm).group.1
  rw [hc] at hgroup
  cases hgroup

theorem Accounted.signaled {h' : History} {status : ℕ} (hs : Accounted s h)
    (hsig : Signals s obj status state)
    (hlost : h'.lost = h.lost)
    (hreleased : ∀ g, h'.released g =
      if g ∈ (s.syncTable obj).parentsList then obj :: h.released g else h.released g) :
    Accounted (signaledDevice s obj state) h' := by
  obtain ⟨hstate, hstate'⟩ := hsig.ne_invalid
  have hself := signaledDevice_self s obj state
  have hparent : ∀ k ∈ (s.syncTable obj).parentsList, (signaledDevice s obj state).syncTable k =
      (s.syncTable k).parentSignaled s.eventq state := fun k hk =>
    signaledDevice_parent state (hs.parents_valid k hk).1 hk
  have hother : ∀ k, k ≠ obj → k ∉ (s.syncTable obj).parentsList →
      (signaledDevice s obj state).syncTable k = s.syncTable k := fun k hne hk =>
    signaledDevice_other state hne hk
  have htype : ∀ k, ((signaledDevice s obj state).syncTable k).type = (s.syncTable k).type :=
    fun k => signaledDevice_type state
  have hchildren : ∀ k, ((signaledDevice s obj state).syncTable k).childrenList =
      (s.syncTable k).childrenList := fun k => signaledDevice_children state
  have hpar : ∀ c, ((signaledDevice s obj state).syncTable c).parentsList =
      if c = obj then [] else (s.syncTable c).parentsList := fun c => signaledDevice_parents state
  have hinvalid : ∀ k, ((signaledDevice s obj state).syncTable k).state = .invalid ↔
      (s.syncTable k).state = .invalid := by
    intro k
    by_cases hk : k = obj
    · rw [hk, hself]
      simp [Row.selfSignaled, hstate, hsig.active]
    · by_cases hk' : k ∈ (s.syncTable obj).parentsList
      · rw [hparent k hk', Row.parentSignaled_state]
        simp [Row.joined_ne_invalid _ hstate, (hs.parents_valid k hk').2]
      · rw [hother k hk hk']
  have hcarries : ∀ c g, g ∈ ((signaledDevice s obj state).syncTable c).parentsList →
      Carries (signaledDevice s obj state) c g := by
    intro c g hg
    rw [hpar] at hg
    by_cases hc : c = obj
    · rw [if_pos hc] at hg
      exact absurd hg List.not_mem_nil
    rw [if_neg hc] at hg
    have hcar := hs.carries c g hg
    have hc' := hs.notMem_of_indv hcar.indv obj
    refine ⟨⟨by rw [htype]; exact hcar.group.1, (hinvalid g).not.mpr hcar.group.2⟩,
      by rw [htype]; exact hcar.indv, by rw [hother c hc hc']; exact hcar.active,
      by rw [hchildren]; exact hcar.child⟩
  constructor
  · exact hs.zero
  · exact fun k hk => (hinvalid k).mpr (hs.free k hk)
  · exact fun k hk => hs.range k ((hinvalid k).not.mp hk)
  · exact hcarries
  · intro c
    rw [hpar]
    split
    · exact List.nodup_nil
    · exact hs.nodup_parents c
  · intro g
    rw [hchildren]
    exact hs.nodup_children g
  · intro g
    rw [hchildren]
    exact hs.children_pos g
  · intro g hg
    by_cases hgo : g = obj
    · rw [hgo, hself]
      exact hs.small obj (by simp [hsig.active])
    · by_cases hg' : g ∈ (s.syncTable obj).parentsList
      · rw [hparent g hg', Row.parentSignaled_remaining]
        exact decr_lt _
      · rw [hother g hgo hg']
        exact hs.small g ((hinvalid g).not.mp hg)
  · intro g hg
    have hg₀ : LiveGroup s g := ⟨by rw [← htype]; exact hg.1, (hinvalid g).not.mp hg.2⟩
    have hcount := hs.count g hg₀
    have hgo : g ≠ obj := by
      rintro rfl
      have := hg₀.1
      rw [hsig.type] at this
      cases this
    rw [pending_eq hcarries, hchildren, hlost]
    rw [pending_eq hs.carries] at hcount
    simp only [hpar]
    by_cases hg' : g ∈ (s.syncTable obj).parentsList
    · have hleaves := countP_of_leaves (p := fun c => g ∈ (s.syncTable c).parentsList)
        (q := fun c => g ∈ if c = obj then [] else (s.syncTable c).parentsList)
        (hs.nodup_children g) (hs.carries obj g hg').child (by simpa using hg') (by simp)
        (fun b _ hb => by simp [hb])
      rw [hparent g hg', Row.parentSignaled_remaining,
        decr_of_pos (by omega) (hs.small g hg₀.2)]
      omega
    · rw [hother g hgo hg', hcount]
      congr 1
      refine List.countP_congr fun c _ => ?_
      by_cases hc : c = obj
      · simp [hc, hg']
      · simp [hc]
  · intro g c hc
    rw [hchildren] at hc
    rw [hpar, hreleased]
    rcases hs.released g c hc with hmem | hmem
    · by_cases hco : c = obj
      · rw [hco] at hmem ⊢
        rw [if_pos hmem]
        exact Or.inr List.mem_cons_self
      · rw [if_neg hco]
        exact Or.inl hmem
    · right
      split
      · exact List.mem_cons_of_mem _ hmem
      · exact hmem

def destroyedDevice (s : SyncDevice) (obj : ℤ) : SyncDevice :=
  { s with
    syncTable := fun k => if k = obj then {} else unlinkedRow s obj k
    bitmap := Function.update s.bitmap obj false }

theorem Accounted.deinitObject (hs : Accounted s h)
    (hvalid : (s.syncTable obj).state ≠ .invalid) :
    deinitObject s obj = (destroyedDevice s obj, [.returned .ok]) :=
  deinitObject_eq (hs.range obj hvalid).1 (hs.range obj hvalid).2 hvalid (hs.nodup_children obj)
    (hs.nodup_parents obj) (hs.children_pos obj)
    (fun g hg => (hs.range g (hs.carries obj g hg).group.2).1)

theorem Accounted.destroyed {h' : History} (hs : Accounted s h)
    (hvalid : (s.syncTable obj).state ≠ .invalid) (hreleased : h'.released = h.released)
    (hlost : ∀ g, h'.lost g =
      if g ∈ (s.syncTable obj).parentsList then h.lost g + 1 else h.lost g) :
    Accounted (destroyedDevice s obj) h' := by
  have hself : (destroyedDevice s obj).syncTable obj = {} := if_pos rfl
  have hother : ∀ k, k ≠ obj → (destroyedDevice s obj).syncTable k = unlinkedRow s obj k :=
    fun k hk => if_neg hk
  have hbit : ∀ k, k ≠ obj → (destroyedDevice s obj).bitmap k = s.bitmap k := fun k hk => by
    simp [destroyedDevice, hk]
  have hpar : ∀ c g, g ∈ ((destroyedDevice s obj).syncTable c).parentsList ↔
      c ≠ obj ∧ g ≠ obj ∧ g ∈ (s.syncTable c).parentsList := by
    intro c g
    by_cases hc : c = obj
    · simp [hc, hself]
    rw [hother c hc]
    by_cases hmem : obj ∈ (s.syncTable c).parentsList
    · have hcar := hs.carries c obj hmem
      have hlinked : c ∈ (s.syncTable obj).childrenList ∧ (s.syncTable c).state ≠ .invalid :=
        ⟨hcar.child, by simp [hcar.active]⟩
      simp only [unlinkedRow, if_pos hlinked, (hs.nodup_parents c).mem_erase_iff]
      tauto
    · have herase : (unlinkedRow s obj c).parentsList = (s.syncTable c).parentsList := by
        simp only [unlinkedRow, List.erase_of_not_mem hmem, ite_self]
      rw [herase]
      refine ⟨fun hg => ⟨hc, fun h => hmem (h ▸ hg), hg⟩, fun hg => hg.2.2⟩
  have hchildren : ∀ g, g ≠ obj → ((destroyedDevice s obj).syncTable g).childrenList =
      if g ∈ (s.syncTable obj).parentsList then (s.syncTable g).childrenList.erase obj
      else (s.syncTable g).childrenList := by
    intro g hg
    rw [hother g hg]
    by_cases hmem : g ∈ (s.syncTable obj).parentsList
    · simp only [unlinkedRow, if_pos hmem,
        if_pos (And.intro hmem (hs.carries obj g hmem).group.2)]
    · simp [unlinkedRow, hmem]
  have hsub : ∀ g, g ≠ obj → ∀ c ∈ ((destroyedDevice s obj).syncTable g).childrenList,
      c ∈ (s.syncTable g).childrenList := by
    intro g hg c hc
    rw [hchildren g hg] at hc
    split at hc
    · exact List.mem_of_mem_erase hc
    · exact hc
  have hcarries : ∀ c g, g ∈ ((destroyedDevice s obj).syncTable c).parentsList →
      Carries (destroyedDevice s obj) c g := by
    intro c g hg
    obtain ⟨hc, hgo, hmem⟩ := (hpar c g).mp hg
    have hcar := hs.carries c g hmem
    refine ⟨by rw [LiveGroup, hother g hgo]; exact hcar.group, by rw [hother c hc]; exact hcar.indv,
      by rw [hother c hc]; exact hcar.active, ?_⟩
    rw [hchildren g hgo]
    split
    · exact (List.mem_erase_of_ne hc).mpr hcar.child
    · exact hcar.child
  constructor
  · rw [hbit 0 (by have := (hs.range obj hvalid).1; omega)]
    exact hs.zero
  · intro k hk
    by_cases hko : k = obj
    · rw [hko, hself]
    · rw [hother k hko]
      exact hs.free k (by rwa [← hbit k hko])
  · intro k hk
    by_cases hko : k = obj
    · rw [hko, hself] at hk
      exact absurd rfl hk
    · rw [hother k hko] at hk
      exact hs.range k hk
  · exact hcarries
  · intro c
    by_cases hc : c = obj
    · rw [hc, hself]
      exact List.nodup_nil
    · rw [hother c hc]
      simp only [unlinkedRow]
      split
      · exact (hs.nodup_parents c).erase _
      · exact hs.nodup_parents c
  · intro g
    by_cases hg : g = obj
    · rw [hg, hself]
      exact List.nodup_nil
    · rw [hchildren g hg]
      split
      · exact (hs.nodup_children g).erase _
      · exact hs.nodup_children g
  · intro g c hc
    by_cases hg : g = obj
    · rw [hg, hself] at hc
      exact absurd hc List.not_mem_nil
    · exact hs.children_pos g c (hsub g hg c hc)
  · intro g hg
    by_cases hgo : g = obj
    · rw [hgo, hself]
      decide
    · rw [hother g hgo] at hg ⊢
      exact hs.small g hg
  · intro g hg
    have hgo : g ≠ obj := by
      rintro rfl
      rw [LiveGroup, hself] at hg
      exact hg.2 rfl
    rw [LiveGroup, hother g hgo] at hg
    have hcount := hs.count g hg
    rw [pending_eq hs.carries] at hcount
    have hsame : ∀ c, c ≠ obj → (decide (g ∈ (s.syncTable c).parentsList) =
        decide (g ∈ ((destroyedDevice s obj).syncTable c).parentsList)) := fun c hc => by
      simp [hpar, hc, hgo]
    rw [pending_eq hcarries, hchildren g hgo, hlost, hother g hgo]
    change (s.syncTable g).remaining = _
    by_cases hmem : g ∈ (s.syncTable obj).parentsList
    · have hleaves := countP_of_leaves (hs.nodup_children g) (hs.carries obj g hmem).child
        (p := fun c => g ∈ (s.syncTable c).parentsList)
        (q := fun c => g ∈ ((destroyedDevice s obj).syncTable c).parentsList)
        (by simpa using hmem) (by simp [hself]) (fun b _ hb => hsame b hb)
      have hperm := (List.perm_cons_erase (hs.carries obj g hmem).child).countP_eq
        fun c => g ∈ ((destroyedDevice s obj).syncTable c).parentsList
      rw [List.countP_cons_of_neg (by simp [hself])] at hperm
      rw [if_pos hmem, if_pos hmem]
      omega
    · rw [if_neg hmem, if_neg hmem, hcount]
      congr 1
      refine List.countP_congr fun c _ => ?_
      by_cases hc : c = obj
      · simp [hc, hself, hmem]
      · rw [hsame c hc]
  · intro g c hc
    rw [hpar, hreleased]
    by_cases hgo : g = obj
    · rw [hgo, hself] at hc
      exact absurd hc List.not_mem_nil
    have hc₀ := hsub g hgo c hc
    rcases hs.released g c hc₀ with hmem | hmem
    · left
      refine ⟨?_, hgo, hmem⟩
      rintro rfl
      rw [hchildren g hgo, if_pos hmem] at hc
      exact (hs.nodup_children g).not_mem_erase hc
    · exact Or.inr hmem

theorem accounted_initial : Accounted initial {} where
  zero := rfl
  free _ _ := rfl
  range _ hk := absurd rfl hk
  carries _ _ hg := absurd hg List.not_mem_nil
  nodup_parents _ := List.nodup_nil
  nodup_children _ := List.nodup_nil
  children_pos _ _ hc := absurd hc List.not_mem_nil
  small _ hg := absurd rfl hg
  count _ hg := absurd rfl hg.2
  released _ _ hc := absurd hc List.not_mem_nil

theorem registerCallback_sameLinks (alloc : Bool) (s : SyncDevice) (cb : Callback) (obj : ℤ) :
    SameLinks s (registerCallback alloc s cb obj).1 := by
  unfold registerCallback
  dsimp only
  split_ifs
  · exact SameLinks.refl s
  · exact SameLinks.refl s
  · exact SameLinks.refl s
  · exact SameLinks.refl s
  · exact SameLinks.refl s
  · exact sameLinks_setRow s obj _ ⟨rfl, rfl, rfl, rfl, rfl⟩

theorem deregisterCallback_sameLinks (s : SyncDevice) (cb : Callback) (obj : ℤ) :
    SameLinks s (deregisterCallback s cb obj).1 := by
  unfold deregisterCallback
  dsimp only
  split_ifs
  · exact SameLinks.refl s
  · exact SameLinks.refl s
  · exact sameLinks_setRow s obj _ ⟨rfl, rfl, rfl, rfl, rfl⟩
  · exact sameLinks_setRow s obj _ ⟨rfl, rfl, rfl, rfl, rfl⟩

/-- A call that has nothing to do with groups or callbacks. -/
structure Apart (s : SyncDevice) (r : SyncDevice × List Event) : Prop where
  links : SameLinks s r.1
  callbacks : ∀ k, (r.1.syncTable k).callbackList = (s.syncTable k).callbackList
  events : ∀ via cb obj status, Event.callback via cb obj status ∉ r.2

theorem apart_refl (s : SyncDevice) (rc : Rc) : Apart s (s, [.returned rc]) :=
  ⟨SameLinks.refl s, fun _ => rfl, by simp⟩

theorem apart_setRow (s : SyncDevice) (obj : ℤ) (row : Row) (rc : Rc)
    (hrow : row.type = (s.syncTable obj).type ∧ row.state = (s.syncTable obj).state ∧
      row.remaining = (s.syncTable obj).remaining ∧
      row.parentsList = (s.syncTable obj).parentsList ∧
      row.childrenList = (s.syncTable obj).childrenList)
    (hcallbacks : row.callbackList = (s.syncTable obj).callbackList) :
    Apart s (s.setRow obj row, [.returned rc]) := by
  refine ⟨sameLinks_setRow s obj row hrow, fun k => ?_, by simp⟩
  rw [setRow_syncTable]
  by_cases hk : k = obj
  · rw [if_pos hk, hk, hcallbacks]
  · rw [if_neg hk]

theorem handleRegisterUserPayload_apart (alloc : Bool) (s : SyncDevice) (payload : Payload)
    (obj : ℤ) : Apart s (handleRegisterUserPayload alloc s payload obj) := by
  unfold handleRegisterUserPayload
  dsimp only
  split_ifs
  · exact apart_refl s _
  · exact apart_refl s _
  · exact apart_refl s _
  · exact ⟨SameLinks.refl s, fun _ => rfl, by simp⟩
  · exact apart_refl s _
  · exact apart_setRow s obj _ _ ⟨rfl, rfl, rfl, rfl, rfl⟩ rfl

theorem handleDeregisterUserPayload_apart (s : SyncDevice) (payload : Payload) (obj : ℤ) :
    Apart s (handleDeregisterUserPayload s payload obj) := by
  unfold handleDeregisterUserPayload
  dsimp only
  split_ifs
  · exact apart_refl s _
  · exact apart_refl s _
  · exact apart_setRow s obj _ _ ⟨rfl, rfl, rfl, rfl, rfl⟩ rfl

theorem getObjRef_apart (s : SyncDevice) (obj : ℤ) : Apart s (getObjRef s obj) := by
  unfold getObjRef
  dsimp only
  split_ifs
  · exact apart_refl s _
  · exact apart_refl s _
  · exact apart_setRow s obj _ _ ⟨rfl, rfl, rfl, rfl, rfl⟩ rfl

theorem putObjRef_apart (s : SyncDevice) (obj : ℤ) : Apart s (putObjRef s obj) := by
  unfold putObjRef
  split_ifs
  · exact apart_refl s _
  · exact apart_setRow s obj _ _ ⟨rfl, rfl, rfl, rfl, rfl⟩ rfl

theorem openDev_apart (fhOpen : Bool) (s : SyncDevice) : Apart s (openDev fhOpen s) := by
  unfold openDev
  split_ifs
  · exact apart_refl s _
  · exact ⟨⟨rfl, fun _ => rfl, fun _ => rfl, fun _ => rfl, fun _ => rfl, fun _ => rfl⟩,
      fun _ => rfl, by simp⟩
  · exact apart_refl s _

theorem accounted_step (s : SyncDevice) (h : History) (i : Input) (hs : Accounted s h) :
    Accounted (machine.step s i).1 (h.note s i (machine.step s i)) := by
  cases i with
  | create =>
    simp only [machine, History.note]
    rcases create_eq hs.zero with hc | ⟨idx, hf, hc⟩
    · rw [hc]
      exact hs
    · rw [hc]
      refine hs.of_blank (hs.free idx hf.free) hf.pos hf.lt (fun k hk => ?_) (fun k hk => ?_)
        (fun hbit => ?_) ?_ ?_ (fun _ => ?_) (fun hg => ?_)
      · simp [hk]
      · simp [hk]
      · simp at hbit
      · simp
      · simp
      · simp
      · simp [LiveGroup] at hg
  | merge objs alloc =>
    rcases merge_cases alloc hs.zero (fun k idx hidx => hs.notMem_parents (hs.free idx hidx) k)
      objs with ⟨rc, hc⟩ | ⟨idx, s', hf, hnodup, hidx, hrange, ⟨hm, hbit, hc⟩ | ⟨hu, hbit, hc⟩⟩
    · simp only [machine, hc, History.note]
      simpa using hs
    · simp only [machine, hc]
      exact hs.merged hf hnodup hidx hrange hm hbit (fun g => (h.note_object g).1)
        (fun g => (h.note_object g).2)
    · simp only [machine, hc, History.note]
      simp only [List.mem_singleton, reduceCtorEq, if_false]
      exact hs.of_blank (hs.free idx hf.free) hf.pos hf.lt hu.others
        (fun k _ => by rw [hbit]) (fun _ => hu.state) hu.parents hu.children
        (fun hstate => absurd hu.state hstate) (fun hg => hg.2 hu.state)
  | signal obj status =>
    have hkeep : ∀ r : SyncDevice × List Event,
        (r.1.syncTable obj).parentsList = (s.syncTable obj).parentsList →
          h.note s (.signal obj status) r = h := fun r hr => by
      simp [History.note, hr]
    rcases signal_cases s obj status with ⟨rc, hc⟩ | ⟨-, hc⟩ | ⟨state, hsig⟩
    · simp only [machine, hc]
      rw [hkeep (s, [.returned rc]) rfl]
      exact hs
    · simp only [machine, hc]
      rw [hkeep]
      · exact hs.of_sameLinks (sameLinks_setRow s obj _ ⟨rfl, rfl, rfl, rfl, rfl⟩)
      · rw [setRow_syncTable, if_pos rfl]
    · have hc := signal_eq hsig (hs.nodup_parents obj) hs.parents_valid
      simp only [machine, hc]
      refine hs.signaled hsig rfl (fun g => ?_)
      simp [History.note, signaledDevice, Row.selfSignaled]
  | destroy obj =>
    simp only [machine, destroy]
    by_cases hvalid : (s.syncTable obj).state = .invalid
    · rw [deinitObject_of_invalid (fun h => h.2.2 hvalid)]
      simp only [History.note, hs.parents_eq_nil (by rw [hvalid]; decide)]
      simpa using hs
    · rw [hs.deinitObject hvalid]
      exact hs.destroyed hvalid rfl (fun g => rfl)
  | registerCallback cb obj alloc => exact hs.of_sameLinks (registerCallback_sameLinks ..)
  | deregisterCallback cb obj => exact hs.of_sameLinks (deregisterCallback_sameLinks ..)
  | registerUserPayload payload obj alloc =>
    exact hs.of_sameLinks (handleRegisterUserPayload_apart ..).links
  | deregisterUserPayload payload obj =>
    exact hs.of_sameLinks (handleDeregisterUserPayload_apart ..).links
  | getObjRef obj => exact hs.of_sameLinks (getObjRef_apart ..).links
  | putObjRef obj => exact hs.of_sameLinks (putObjRef_apart ..).links
  | openDev fhOpen => exact hs.of_sameLinks (openDev_apart ..).links
  | release =>
    exact hs.of_sameLinks
      ⟨rfl, fun _ => rfl, fun _ => rfl, fun _ => rfl, fun _ => rfl, fun _ => rfl⟩
  | setTriggerCbWithoutSwitch b =>
    exact hs.of_sameLinks
      ⟨rfl, fun _ => rfl, fun _ => rfl, fun _ => rfl, fun _ => rfl, fun _ => rfl⟩

abbrev watched : Machine (SyncDevice × History) Input Event := machine.monitored History.note

theorem accounted_run (is : List Input) :
    Accounted (watched.run (initial, {}) is).1.1 (watched.run (initial, {}) is).1.2 :=
  watched.invariant (I := fun p => Accounted p.1 p.2)
    (fun p i hp => accounted_step p.1 p.2 i hp) is accounted_initial

theorem Accounted.remaining_pos (hs : Accounted s h)
    (hg : g ∈ (s.syncTable c).parentsList) : 0 < (s.syncTable g).remaining := by
  have hcar := hs.carries c g hg
  have hpending : 0 < pending s g := by
    rw [pending_eq hs.carries]
    exact List.countP_pos_iff.mpr ⟨c, hcar.child, by simpa using hg⟩
  rw [hs.count g hcar.group]
  omega

theorem accounted_reachable (is : List Input) : ∃ h, Accounted (machine.run initial is).1 h := by
  have hrun := (machine.monitored_run History.note (initial, {}) is).1
  exact ⟨_, hrun ▸ accounted_run is⟩

/-- A live group counts at least the children that are active and carry it, and exactly these when
none of its children was destroyed while it carried the group. An active row carries live groups of
which it is a child, others carry none; a child without its group was signaled since the merge. -/
theorem group_accounting (is : List Input) :
    let s := (watched.run (initial, {}) is).1.1
    let h := (watched.run (initial, {}) is).1.2
    (∀ g, LiveGroup s g → pending s g ≤ (s.syncTable g).remaining ∧
      (h.lost g = 0 → (s.syncTable g).remaining = pending s g ∧
        (0 < (s.syncTable g).remaining → ∃ c ∈ (s.syncTable g).childrenList,
          (s.syncTable c).state = .active ∧ g ∈ (s.syncTable c).parentsList))) ∧
    (∀ c g, g ∈ (s.syncTable c).parentsList → Carries s c g ∧ 0 < (s.syncTable g).remaining) ∧
    ∀ g, ∀ c ∈ (s.syncTable g).childrenList,
      g ∈ (s.syncTable c).parentsList ∨ c ∈ h.released g := by
  have hs := accounted_run is
  refine ⟨fun g hg => ?_, fun c g hg => ⟨hs.carries c g hg, hs.remaining_pos hg⟩, hs.released⟩
  have hcount := hs.count g hg
  refine ⟨by omega, fun hlost => ⟨by omega, fun hpos => ?_⟩⟩
  have hpending : 0 < pending (watched.run (initial, {}) is).1.1 g := by omega
  simpa using List.countP_pos_iff.mp hpending

/-- Two objects are merged and the first one is destroyed while active: the group goes on
counting it, and after the signal of the second one nothing can complete it. The second one
stays on the list of children but does not carry the group any more. -/
theorem group_accounting_fails :
    ¬ ∀ is : List Input,
      let s := (machine.run initial is).1
      ∀ g, LiveGroup s g → (s.syncTable g).remaining = pending s g ∧
        ∀ c, g ∈ (s.syncTable c).parentsList ↔ c ∈ (s.syncTable g).childrenList := by
  intro h
  have := (h [.create, .create, .merge [1, 2] {}, .destroy 1, .getObjRef 2, .signal 2 2] 3
    ⟨by decide, by decide⟩).1
  revert this
  decide

end KernelModules.CamSync
