import KernelModules.Sweep
import KernelModules.SyncTable

/-!
# What the calls do to the rows

Each call that touches more than one row runs a loop over a list of rows. Here every such loop is
given in closed form, row by row, under the conditions that hold in every reachable table: lists
without repetitions, and no row that refers to an invalid one.
-/

namespace KernelModules.CamSync

open Function

section Access

variable (s : SyncDevice) (obj k idx : ℤ) (row : Row) (b : Bool)

@[simp] theorem setRow_syncTable :
    (s.setRow obj row).syncTable k = if k = obj then row else s.syncTable k := by
  simp only [SyncDevice.setRow, update_apply]

@[simp] theorem setRow_bitmap : (s.setRow obj row).bitmap = s.bitmap := rfl

@[simp] theorem setRow_eventq : (s.setRow obj row).eventq = s.eventq := rfl

@[simp] theorem setBit_syncTable : (s.setBit idx b).syncTable = s.syncTable := rfl

@[simp] theorem setBit_bitmap : (s.setBit idx b).bitmap k = if k = idx then b else s.bitmap k := by
  simp only [SyncDevice.setBit, update_apply]

end Access

structure Fresh (s : SyncDevice) (idx : ℤ) : Prop where
  pos : 0 < idx
  lt : idx < maxObjs
  free : s.bitmap idx = false

theorem findFirstZeroBit_spec (bitmap : ℤ → Bool) (n : ℕ) (k : ℤ) :
    k ≤ findFirstZeroBit bitmap n k ∧ findFirstZeroBit bitmap n k ≤ k + n ∧
      (findFirstZeroBit bitmap n k < k + n → bitmap (findFirstZeroBit bitmap n k) = false) := by
  induction n generalizing k with
  | zero => simp [findFirstZeroBit]
  | succ n ih =>
    unfold findFirstZeroBit
    by_cases hk : bitmap k
    · rw [if_pos hk]
      obtain ⟨h₁, h₂, h₃⟩ := ih (k + 1)
      refine ⟨by omega, by push_cast; omega, fun h => h₃ (by push_cast at h; omega)⟩
    · rw [if_neg hk]
      exact ⟨by omega, by push_cast; omega, fun _ => by simpa using hk⟩

variable {s : SyncDevice} {idx obj : ℤ} {status : SyncState}

theorem fresh_findFirstZeroBit (h0 : s.bitmap 0 = true)
    (h : ¬ maxObjs ≤ findFirstZeroBit s.bitmap 1024 0) :
    Fresh s (findFirstZeroBit s.bitmap 1024 0) := by
  obtain ⟨h₁, -, h₃⟩ := findFirstZeroBit_spec s.bitmap 1024 0
  have hlt : findFirstZeroBit s.bitmap 1024 0 < 1024 := not_le.mp h
  have hfree := h₃ (by simpa using hlt)
  refine ⟨?_, hlt, hfree⟩
  rcases h₁.lt_or_eq with hpos | heq
  · exact hpos
  · rw [← heq, h0] at hfree
    cases hfree

theorem Fresh.initRow (h : Fresh s idx) (b : Bool) (type : SyncType) :
    initRow (s.setBit idx b) idx type =
      ((s.setBit idx b).setRow idx { type := type, state := .active }, .ok) := by
  unfold CamSync.initRow
  rw [if_neg]
  have := h.pos
  have := h.lt
  omega

theorem create_eq (h0 : s.bitmap 0 = true) :
    create s = (s, [.returned .eNomem]) ∨ ∃ idx, Fresh s idx ∧
      create s = ((s.setBit idx true).setRow idx { state := .active },
        [.object idx, .returned .ok]) := by
  unfold create
  by_cases hmax : maxObjs ≤ findFirstZeroBit s.bitmap 1024 0
  · exact Or.inl (if_pos hmax)
  · have hf := fresh_findFirstZeroBit h0 hmax
    refine Or.inr ⟨_, hf, ?_⟩
    rw [if_neg hmax]
    simp only [hf.initRow]

/-- A child after the loop over `objs` has linked it to `idx`, if it is among them and active. -/
def linkedRow (s : SyncDevice) (idx : ℤ) (objs : List ℤ) (k : ℤ) : Row :=
  if k ∈ objs ∧ (s.syncTable k).state = .active then
    { s.syncTable k with parentsList := (s.syncTable k).parentsList ++ [idx] }
  else s.syncTable k

def activeObjs (s : SyncDevice) (objs : List ℤ) : List ℤ :=
  objs.filter fun obj => (s.syncTable obj).state = .active

def AnyError (s : SyncDevice) (objs : List ℤ) : Prop :=
  ∃ obj ∈ objs, (s.syncTable obj).state = .signaledError
deriving Decidable

/-- The row of the group after the loop. -/
def mergedRow (s : SyncDevice) (objs : List ℤ) (row : Row) : Row :=
  { row with
    remaining := row.remaining + (activeObjs s objs).length
    childrenList := row.childrenList ++ activeObjs s objs
    state := if AnyError s objs then .signaledError else row.state }

def Mergeable (s : SyncDevice) (obj : ℤ) : Prop :=
  (s.syncTable obj).type = .indv ∧ (s.syncTable obj).state ≠ .invalid

theorem linkedRow_state (s : SyncDevice) (idx : ℤ) (objs : List ℤ) (k : ℤ) :
    (linkedRow s idx objs k).state = (s.syncTable k).state := by
  unfold linkedRow
  split <;> rfl

theorem linkedRow_type (s : SyncDevice) (idx : ℤ) (objs : List ℤ) (k : ℤ) :
    (linkedRow s idx objs k).type = (s.syncTable k).type := by
  unfold linkedRow
  split <;> rfl

variable {objs : List ℤ} {s' : SyncDevice} {alloc : Alloc} {rc : Rc}

theorem linkedRow_of_notMem {k : ℤ} (hk : k ∉ objs) :
    linkedRow s idx objs k = s.syncTable k := if_neg fun h => hk h.1

theorem activeObjs_congr (objs : List ℤ)
    (h : ∀ obj ∈ objs, (s'.syncTable obj).state = (s.syncTable obj).state) :
    activeObjs s' objs = activeObjs s objs :=
  List.filter_congr fun obj hobj => by rw [h obj hobj]

theorem anyError_congr (objs : List ℤ)
    (h : ∀ obj ∈ objs, (s'.syncTable obj).state = (s.syncTable obj).state) :
    AnyError s' objs ↔ AnyError s objs :=
  exists_congr fun obj => and_congr_right fun hobj => by rw [h obj hobj]

/-- The table after the loop over `objs` went through all of them. -/
structure Linking (idx : ℤ) (objs : List ℤ) (s s' : SyncDevice) : Prop where
  others : ∀ k, k ≠ idx → s'.syncTable k = linkedRow s idx objs k
  group : s'.syncTable idx = mergedRow s objs (s.syncTable idx)
  bitmap : s'.bitmap = s.bitmap
  eventq : s'.eventq = s.eventq

theorem Linking.nil (idx : ℤ) (s : SyncDevice) : Linking idx [] s s where
  others k _ := (linkedRow_of_notMem List.not_mem_nil).symm
  group := by simp [mergedRow, activeObjs, AnyError]
  bitmap := rfl
  eventq := rfl

theorem Linking.cons {idx obj : ℤ} {s s₁ s₂ : SyncDevice} (hobj : obj ∉ objs)
    (hidx : idx ∉ obj :: objs) (h₁ : Linking idx [obj] s s₁) (h₂ : Linking idx objs s₁ s₂) :
    Linking idx (obj :: objs) s s₂ := by
  have hsame : ∀ k, k ≠ idx → k ≠ obj → s₁.syncTable k = s.syncTable k := fun k hk hko => by
    rw [h₁.others k hk, linkedRow_of_notMem (by simpa using hko)]
  have hmem : ∀ k ∈ objs, k ≠ idx ∧ k ≠ obj := fun k hk =>
    ⟨fun h => hidx (h ▸ List.mem_cons_of_mem _ hk), fun h => hobj (h ▸ hk)⟩
  have hstate : ∀ k ∈ objs, (s₁.syncTable k).state = (s.syncTable k).state := fun k hk => by
    rw [hsame k (hmem k hk).1 (hmem k hk).2]
  refine ⟨fun k hk => ?_, ?_, h₂.bitmap.trans h₁.bitmap, h₂.eventq.trans h₁.eventq⟩
  · rw [h₂.others k hk]
    by_cases hko : k = obj
    · rw [hko, linkedRow_of_notMem hobj, h₁.others obj (hko ▸ hk)]
      simp [linkedRow]
    · simp [linkedRow, hsame k hk hko, hko]
  · rw [h₂.group, h₁.group]
    have happ : activeObjs s (obj :: objs) = activeObjs s [obj] ++ activeObjs s objs := by
      simp only [activeObjs, ← List.filter_append, List.singleton_append]
    have herr : AnyError s (obj :: objs) ↔ AnyError s [obj] ∨ AnyError s objs := by
      simp [AnyError]
    unfold mergedRow
    rw [activeObjs_congr _ hstate, happ]
    simp only [anyError_congr _ hstate, herr, List.length_append, List.append_assoc]
    by_cases he : AnyError s objs <;> by_cases he' : AnyError s [obj] <;> simp [he, he'] <;> omega

theorem mergedRow_singleton (s : SyncDevice) (obj : ℤ) (row : Row) :
    mergedRow s [obj] row =
      match (s.syncTable obj).state with
      | .signaledError => { row with state := .signaledError }
      | .active => { row with
          remaining := row.remaining + 1, childrenList := row.childrenList ++ [obj] }
      | _ => row := by
  unfold mergedRow activeObjs AnyError
  cases h : (s.syncTable obj).state <;> simp [h]

theorem linkChild_ok (hne : obj ≠ idx)
    (hroom : (s.syncTable idx).remaining + 1 < 2 ^ 32) (h : linkChild alloc idx s obj = (s', .ok)) :
    Linking idx [obj] s s' ∧ Mergeable s obj := by
  have hincr : incr (s.syncTable idx).remaining = (s.syncTable idx).remaining + 1 :=
    Nat.mod_eq_of_lt hroom
  have hothers : (s.syncTable obj).state ≠ .active → ∀ k, linkedRow s idx [obj] k = s.syncTable k := by
    intro hstate k
    refine if_neg fun hk => hstate ?_
    rw [← List.mem_singleton.mp hk.1]
    exact hk.2
  cases htype : (s.syncTable obj).type with
  | group => simp [linkChild, htype] at h
  | indv =>
    cases hstate : (s.syncTable obj).state with
    | invalid => simp [linkChild, hstate] at h
    | signaledError =>
      simp [linkChild, htype, hstate] at h
      subst h
      refine ⟨⟨fun k hk => ?_, ?_, rfl, rfl⟩, htype, by simp [hstate]⟩
      · rw [hothers (by simp [hstate]), setRow_syncTable, if_neg hk]
      · rw [mergedRow_singleton, hstate, setRow_syncTable, if_pos rfl]
    | signaledSuccess =>
      simp [linkChild, htype, hstate] at h
      subst h
      refine ⟨⟨fun k hk => ?_, ?_, rfl, rfl⟩, htype, by simp [hstate]⟩
      · rw [hothers (by simp [hstate])]
      · rw [mergedRow_singleton, hstate]
    | active =>
      simp only [linkChild, htype, hstate, hincr] at h
      cases hchild : alloc.childInfo obj <;> cases hparent : alloc.parentInfo obj <;>
        simp [hchild, hparent] at h
      subst h
      refine ⟨⟨fun k hk => ?_, ?_, rfl, rfl⟩, htype, by simp [hstate]⟩
      · by_cases hko : k = obj
        · simp [hko, hne, linkedRow, hstate]
        · simp [hk, hko, linkedRow]
      · simp [mergedRow_singleton, hstate, Ne.symm hne]

/-- Only the row `idx` may differ, and it has the same parents. -/
structure OnlyRow (idx : ℤ) (s s' : SyncDevice) : Prop where
  others : ∀ k, k ≠ idx → s'.syncTable k = s.syncTable k
  parents : (s'.syncTable idx).parentsList = (s.syncTable idx).parentsList
  bitmap : s'.bitmap = s.bitmap
  eventq : s'.eventq = s.eventq

theorem linkChild_err
    (hrc : rc ≠ .ok) (h : linkChild alloc idx s obj = (s', rc)) : OnlyRow idx s s' := by
  have hrefl : OnlyRow idx s s := ⟨fun _ _ => rfl, rfl, rfl, rfl⟩
  have hset : ∀ row : Row, row.parentsList = (s.syncTable idx).parentsList →
      OnlyRow idx s (s.setRow idx row) := fun row hrow =>
    ⟨fun k hk => by rw [setRow_syncTable, if_neg hk], by rw [setRow_syncTable, if_pos rfl, hrow],
      rfl, rfl⟩
  cases htype : (s.syncTable obj).type with
  | group =>
    simp [linkChild, htype] at h
    exact h.1 ▸ hrefl
  | indv =>
    cases hstate : (s.syncTable obj).state with
    | invalid =>
      simp [linkChild, hstate] at h
      exact h.1 ▸ hrefl
    | signaledError =>
      simp [linkChild, htype, hstate] at h
      exact absurd h.2.symm hrc
    | signaledSuccess =>
      simp [linkChild, htype, hstate] at h
      exact absurd h.2.symm hrc
    | active =>
      cases hchild : alloc.childInfo obj <;> cases hparent : alloc.parentInfo obj <;>
        simp [linkChild, htype, hstate, hchild, hparent] at h
      · exact h.1 ▸ hset _ rfl
      · exact h.1 ▸ hset _ rfl
      · exact h.1 ▸ hset _ rfl
      · exact absurd h.2.symm hrc

variable {seen seen' : List ℤ} {f : Row → Row} {state : SyncState}

theorem linkChildren_ok
    (hidx : idx ∉ objs) (hnodup : objs.Nodup)
    (hroom : (s.syncTable idx).remaining + objs.length < 2 ^ 32)
    (h : linkChildren alloc idx s seen objs = (s', seen', .ok)) :
    Linking idx objs s s' ∧ ∀ obj ∈ objs, Mergeable s obj := by
  induction objs generalizing s seen with
  | nil =>
    simp only [linkChildren, Prod.mk.injEq] at h
    obtain ⟨rfl, -⟩ := h
    exact ⟨Linking.nil idx s, fun obj hobj => absurd hobj List.not_mem_nil⟩
  | cons obj objs ih =>
    rw [List.nodup_cons] at hnodup
    rw [List.length_cons] at hroom
    have hne : obj ≠ idx := fun h => hidx (h ▸ List.mem_cons_self)
    unfold linkChildren at h
    cases hlink : linkChild alloc idx s obj with
    | mk s₁ rc =>
      rw [hlink] at h
      by_cases hrc : rc = .ok
      · subst rc
        obtain ⟨h₁, hobj⟩ := linkChild_ok hne (by omega) hlink
        have hrem : (s₁.syncTable idx).remaining ≤ (s.syncTable idx).remaining + 1 := by
          rw [h₁.group, mergedRow_singleton]
          cases (s.syncTable obj).state <;> simp
        obtain ⟨h₂, hrest⟩ := ih (fun h => hidx (List.mem_cons_of_mem _ h)) hnodup.2
          (by omega) h
        refine ⟨h₁.cons hnodup.1 hidx h₂, fun k hk => ?_⟩
        rcases List.mem_cons.mp hk with rfl | hk
        · exact hobj
        · have hkeep := hrest k hk
          rwa [Mergeable, h₁.others k (fun h => hidx (h ▸ List.mem_cons_of_mem _ hk)),
            linkedRow_state, linkedRow_type] at hkeep
      · cases rc <;> simp at hrc h

theorem linkChildren_err (hidx : idx ∉ objs) (hnodup : objs.Nodup)
    (hroom : (s.syncTable idx).remaining + objs.length < 2 ^ 32) (hrc : rc ≠ .ok)
    (h : linkChildren alloc idx s seen objs = (s', seen', rc)) :
    ∃ done s₁, done.Sublist objs ∧ seen' = done.reverse ++ seen ∧ Linking idx done s s₁ ∧
      OnlyRow idx s₁ s' := by
  induction objs generalizing s seen with
  | nil =>
    simp only [linkChildren, Prod.mk.injEq] at h
    exact absurd h.2.2.symm hrc
  | cons obj objs ih =>
    rw [List.nodup_cons] at hnodup
    rw [List.length_cons] at hroom
    have hne : obj ≠ idx := fun h => hidx (h ▸ List.mem_cons_self)
    unfold linkChildren at h
    cases hlink : linkChild alloc idx s obj with
    | mk s₁ rc₁ =>
      rw [hlink] at h
      by_cases hrc₁ : rc₁ = .ok
      · subst rc₁
        obtain ⟨h₁, -⟩ := linkChild_ok hne (by omega) hlink
        have hrem : (s₁.syncTable idx).remaining ≤ (s.syncTable idx).remaining + 1 := by
          rw [h₁.group, mergedRow_singleton]
          cases (s.syncTable obj).state <;> simp
        obtain ⟨done, s₂, hsub, hseen, h₂, honly⟩ :=
          ih (fun h => hidx (List.mem_cons_of_mem _ h)) hnodup.2 (by omega) h
        refine ⟨obj :: done, s₂, hsub.cons_cons obj, by simp [hseen], ?_, honly⟩
        exact h₁.cons (fun h => hnodup.1 (hsub.subset h))
          (fun h => hidx ((hsub.cons_cons obj).subset h)) h₂
      · have hstop : (s₁, seen, rc₁) = (s', seen', rc) := by
          cases rc₁ <;> first | exact absurd rfl hrc₁ | exact h
        simp only [Prod.mk.injEq] at hstop
        obtain ⟨rfl, rfl, rfl⟩ := hstop
        exact ⟨[], s, List.nil_sublist _, rfl, Linking.nil idx s, linkChild_err hrc hlink⟩

theorem foldl_setRow {visit : SyncDevice → ℤ → SyncDevice}
    (hvisit : ∀ s obj, visit s obj = s.setRow obj (f (s.syncTable obj)))
    (hnodup : objs.Nodup) (s : SyncDevice) :
    objs.foldl visit s = { s with
      syncTable := fun k => if k ∈ objs then f (s.syncTable k) else s.syncTable k } := by
  induction objs generalizing s with
  | nil => simp
  | cons obj objs ih =>
    rw [List.nodup_cons] at hnodup
    rw [List.foldl_cons, ih hnodup.2, hvisit]
    simp only [SyncDevice.mk.injEq, SyncDevice.setRow, and_true, update_apply]
    funext k
    by_cases hk : k = obj
    · rw [hk]
      simp [hnodup.1]
    · simp [hk]

theorem foldl_cleanParent (hnodup : objs.Nodup) (s : SyncDevice) :
    objs.foldl (cleanParent idx) s = { s with
      syncTable := fun k => if k ∈ objs then cleanupParentsList (s.syncTable k) .one idx
        else s.syncTable k } :=
  foldl_setRow (f := fun row => cleanupParentsList row .one idx) (fun _ _ => rfl) hnodup s

theorem foldl_cleanValid {clean : ℤ → SyncDevice → ℤ → SyncDevice}
    (hclean : ∀ s obj, clean idx s obj = s.setRow obj (f (s.syncTable obj)))
    (hnodup : objs.Nodup) (s : SyncDevice) :
    objs.foldl (cleanValid clean idx) s = { s with
      syncTable := fun k => if k ∈ objs ∧ (s.syncTable k).state ≠ .invalid then f (s.syncTable k)
        else s.syncTable k } := by
  rw [foldl_setRow (f := fun row => if row.state = .invalid then row else f row) ?_ hnodup]
  · congr 1
    funext k
    by_cases hk : k ∈ objs <;> by_cases hs : (s.syncTable k).state = .invalid <;> simp [hk, hs]
  · intro s obj
    unfold cleanValid
    by_cases hs : (s.syncTable obj).state = .invalid
    · simp [hs, SyncDevice.setRow]
    · simp [hs, hclean]

/-- The row of a group right after its merge. -/
def groupRow (s : SyncDevice) (objs : List ℤ) : Row where
  type := .group
  state :=
    if AnyError s objs then .signaledError
    else if activeObjs s objs = [] then .signaledSuccess
    else .active
  remaining := (activeObjs s objs).length
  childrenList := activeObjs s objs
  signaled := (activeObjs s objs).isEmpty

structure Merged (s : SyncDevice) (objs : List ℤ) (idx : ℤ) (s' : SyncDevice) : Prop where
  others : ∀ k, k ≠ idx → s'.syncTable k = linkedRow s idx objs k
  group : s'.syncTable idx = groupRow s objs
  eventq : s'.eventq = s.eventq
  mergeable : ∀ obj ∈ objs, Mergeable s obj

/-- After a merge that failed, only the row it tried is touched, and that one is blank again. -/
structure Unmerged (s : SyncDevice) (idx : ℤ) (s' : SyncDevice) : Prop where
  others : ∀ k, k ≠ idx → s'.syncTable k = s.syncTable k
  state : (s'.syncTable idx).state = .invalid
  parents : (s'.syncTable idx).parentsList = []
  children : (s'.syncTable idx).childrenList = []
  eventq : s'.eventq = s.eventq

theorem cleanup_linkedRow {k : ℤ}
    (hnew : idx ∉ (s.syncTable k).parentsList) :
    cleanupParentsList (linkedRow s idx objs k) .one idx = s.syncTable k := by
  unfold linkedRow cleanupParentsList cleanupList
  split
  · simp only [List.erase_append_right _ hnew, List.erase_cons_head, List.append_nil]
  · simp only [List.erase_of_not_mem hnew]

theorem mergedRow_blank {s₀ : SyncDevice}
    (hstate : ∀ obj ∈ objs, (s₀.syncTable obj).state = (s.syncTable obj).state) :
    mergedRow s₀ objs { type := .group, state := .active } =
      { type := .group
        state := if AnyError s objs then .signaledError else .active
        remaining := (activeObjs s objs).length
        childrenList := activeObjs s objs } := by
  unfold mergedRow
  rw [activeObjs_congr _ hstate]
  simp only [anyError_congr _ hstate, Nat.zero_add, List.nil_append]

theorem initGroupObject_spec
    (hfresh : Fresh s idx) (hidx : idx ∉ objs) (hnodup : objs.Nodup) (hlen : objs.length < 2 ^ 32)
    (hnew : ∀ k, idx ∉ (s.syncTable k).parentsList)
    (h : initGroupObject alloc (s.setBit idx true) idx objs = (s', rc)) :
    s'.bitmap = (s.setBit idx true).bitmap ∧
      if rc = .ok then Merged s objs idx s' else Unmerged s idx s' := by
  unfold initGroupObject at h
  rw [hfresh.initRow] at h
  dsimp only at h
  have hne : ∀ obj ∈ objs, obj ≠ idx := fun obj hobj h => hidx (h ▸ hobj)
  have hstate : ∀ obj ∈ objs, (((s.setBit idx true).setRow idx
      { type := .group, state := .active }).syncTable obj).state = (s.syncTable obj).state :=
    fun obj hobj => by rw [setRow_syncTable, if_neg (hne obj hobj), setBit_syncTable]
  generalize hs₀ : (s.setBit idx true).setRow idx { type := .group, state := .active } = s₀ at h hstate
  have hrow₀ : ∀ k, s₀.syncTable k =
      if k = idx then { type := .group, state := .active } else s.syncTable k := fun k => by
    rw [← hs₀, setRow_syncTable, setBit_syncTable]
  have hlinked : ∀ objs k, k ≠ idx → linkedRow s₀ idx objs k = linkedRow s idx objs k :=
    fun objs k hk => by rw [linkedRow, linkedRow, hrow₀, if_neg hk]
  have hbit₀ : s₀.bitmap = (s.setBit idx true).bitmap := by rw [← hs₀]; rfl
  have heventq₀ : s₀.eventq = s.eventq := by rw [← hs₀]; rfl
  have hroom : (s₀.syncTable idx).remaining + objs.length < 2 ^ 32 := by
    rw [hrow₀, if_pos rfl]
    simpa using hlen
  rcases hlink : linkChildren alloc idx s₀ [] objs with ⟨s₁, seen, rc₁⟩
  rw [hlink] at h
  by_cases hrc : rc₁ = .ok
  · subst rc₁
    obtain ⟨hl, hm⟩ := linkChildren_ok hidx hnodup hroom hlink
    have hgroup := hl.group
    rw [hrow₀, if_pos rfl, mergedRow_blank hstate] at hgroup
    have hmergeable : ∀ obj ∈ objs, Mergeable s obj := fun obj hobj => by
      have hobj' := hm obj hobj
      rwa [Mergeable, hrow₀, if_neg (hne obj hobj)] at hobj'
    have hothers : ∀ k, k ≠ idx → s₁.syncTable k = linkedRow s idx objs k := fun k hk =>
      (hl.others k hk).trans (hlinked objs k hk)
    dsimp only at h
    by_cases hrem : (s₁.syncTable idx).remaining = 0
    · rw [if_pos hrem, Prod.mk.injEq] at h
      obtain ⟨rfl, rfl⟩ := h
      have hnone : activeObjs s objs = [] := by simpa [hgroup] using hrem
      refine ⟨hl.bitmap.trans hbit₀, ?_⟩
      rw [if_pos rfl]
      refine ⟨fun k hk => ?_, ?_, hl.eventq.trans heventq₀, hmergeable⟩
      · rw [setRow_syncTable, if_neg hk, hothers k hk]
      · rw [setRow_syncTable, if_pos rfl, hgroup]
        by_cases he : AnyError s objs <;> simp [groupRow, hnone, he]
    · rw [if_neg hrem, Prod.mk.injEq] at h
      obtain ⟨rfl, rfl⟩ := h
      have hsome : activeObjs s objs ≠ [] := by simpa [hgroup] using hrem
      refine ⟨hl.bitmap.trans hbit₀, ?_⟩
      rw [if_pos rfl]
      refine ⟨hothers, ?_, hl.eventq.trans heventq₀, hmergeable⟩
      rw [hgroup]
      by_cases he : AnyError s objs <;> simp [groupRow, hsome, he]
  · obtain ⟨done, s₂, hsub, hseen, hl, honly⟩ := linkChildren_err hidx hnodup hroom hrc hlink
    rw [List.append_nil] at hseen
    have hseen_nodup : seen.Nodup := by
      rw [hseen, List.nodup_reverse]
      exact hnodup.sublist hsub
    have hidx_seen : idx ∉ seen := fun h => hidx (hsub.subset (by simpa [hseen] using h))
    have hfinal : (((seen.foldl (cleanParent idx)
        (s₁.setRow idx { s₁.syncTable idx with state := .invalid })).setRow idx
          (cleanupChildrenList ((seen.foldl (cleanParent idx)
            (s₁.setRow idx { s₁.syncTable idx with state := .invalid })).syncTable idx) .all 0)),
        rc₁) = (s', rc) := by
      cases rc₁ <;> first | exact absurd rfl hrc | exact h
    rw [foldl_cleanParent hseen_nodup, Prod.mk.injEq] at hfinal
    obtain ⟨rfl, rfl⟩ := hfinal
    refine ⟨(honly.bitmap.trans hl.bitmap).trans hbit₀, ?_⟩
    rw [if_neg hrc]
    refine ⟨fun k hk => ?_, ?_, ?_, ?_, (honly.eventq.trans hl.eventq).trans heventq₀⟩
    · rw [setRow_syncTable, if_neg hk]
      simp only [setRow_syncTable, if_neg hk]
      rw [honly.others k hk, hl.others k hk, hlinked done k hk]
      by_cases hk' : k ∈ done
      · rw [if_pos (by simpa [hseen] using hk'), cleanup_linkedRow (hnew k)]
      · rw [if_neg (by simpa [hseen] using hk'), linkedRow_of_notMem hk']
    · simp [cleanupChildrenList, hidx_seen]
    · simp [cleanupChildrenList, hidx_seen, honly.parents, hl.group, hrow₀, mergedRow]
    · simp [cleanupChildrenList, cleanupList]

theorem length_removeDuplicateArr_le (arr kept : List ℤ) :
    (arr.foldl (fun kept b => if b ∈ kept then kept else kept ++ [b]) kept).length ≤
      kept.length + arr.length := by
  induction arr generalizing kept with
  | nil => simp
  | cons b arr ih =>
    rw [List.foldl_cons, List.length_cons]
    refine (ih _).trans ?_
    split
    · omega
    · simp; omega

theorem nodup_of_removeDuplicateArr
    (h : (removeDuplicateArr objs).length = objs.length) : objs.Nodup := by
  have hfold : ∀ arr kept : List ℤ, kept.Nodup →
      (arr.foldl (fun kept b => if b ∈ kept then kept else kept ++ [b]) kept).length =
        kept.length + arr.length → (kept ++ arr).Nodup := by
    intro arr
    induction arr with
    | nil => simp
    | cons b arr ih =>
      intro kept hkept hlen
      rw [List.foldl_cons] at hlen
      by_cases hb : b ∈ kept
      · rw [if_pos hb, List.length_cons] at hlen
        have := length_removeDuplicateArr_le arr kept
        omega
      · rw [if_neg hb] at hlen
        have hnodup : (kept ++ [b]).Nodup := by
          rw [List.nodup_append]
          refine ⟨hkept, List.nodup_singleton b, fun a ha c hc hac => hb ?_⟩
          rwa [← List.mem_singleton.mp hc, ← hac]
        simpa using ih (kept ++ [b]) hnodup (by simpa [Nat.add_assoc, Nat.add_comm 1] using hlen)
  cases objs with
  | nil => exact List.nodup_nil
  | cons a arr =>
    have := hfold arr [a] (List.nodup_singleton a)
      (by simpa [removeDuplicateArr, Nat.add_comm 1] using h)
    simpa using this

theorem checkValid_ok (h : checkValid s obj = .ok) :
    0 < obj ∧ obj < maxObjs ∧ s.bitmap obj = true ∧ (s.syncTable obj).state ≠ .invalid := by
  unfold checkValid at h
  split_ifs at h with hrange hbit hstate
  exact ⟨by omega, by omega, by simpa using hbit, hstate⟩

theorem length_lt_of_nodup (hnodup : objs.Nodup)
    (hrange : ∀ obj ∈ objs, 0 < obj ∧ obj < maxObjs) : objs.length < 2 ^ 32 := by
  have hsub : objs.toFinset ⊆ Finset.Ioo 0 1024 := fun obj hobj => by
    rw [List.mem_toFinset] at hobj
    exact Finset.mem_Ioo.mpr (hrange obj hobj)
  have hcard := Finset.card_le_card hsub
  rw [List.toFinset_card_of_nodup hnodup, Int.card_Ioo] at hcard
  exact hcard.trans_lt (by decide)

/-- A merge is turned away, or it creates a group, or it gives its row up again. -/
theorem merge_cases (alloc : Alloc) (h0 : s.bitmap 0 = true)
    (hnew : ∀ k idx, s.bitmap idx = false → idx ∉ (s.syncTable k).parentsList) (objs : List ℤ) :
    (∃ rc, merge alloc s objs = (s, [.returned rc])) ∨
    ∃ idx s', Fresh s idx ∧ objs.Nodup ∧ idx ∉ objs ∧ (∀ obj ∈ objs, 0 < obj ∧ obj < maxObjs) ∧
      ((Merged s objs idx s' ∧ s'.bitmap = (s.setBit idx true).bitmap ∧
          merge alloc s objs = (s', [.object idx, .returned .ok])) ∨
        (Unmerged s idx s' ∧ s'.bitmap = s.bitmap ∧
          merge alloc s objs = (s', [.returned .eInval]))) := by
  unfold merge
  by_cases hone : objs.length ≤ 1
  · exact Or.inl ⟨_, if_pos hone⟩
  rw [if_neg hone]
  by_cases hdup : (removeDuplicateArr objs).length = objs.length
  swap
  · exact Or.inl ⟨_, if_pos hdup⟩
  rw [if_neg (not_not.mpr hdup)]
  by_cases hcheck : objs.any fun obj => checkValid s obj ≠ .ok
  · exact Or.inl ⟨_, if_pos hcheck⟩
  rw [if_neg hcheck]
  by_cases hmax : maxObjs ≤ findFirstZeroBit s.bitmap 1024 0
  · exact Or.inl ⟨_, if_pos hmax⟩
  rw [if_neg hmax]
  have hvalid : ∀ obj ∈ objs, checkValid s obj = .ok := by simpa using hcheck
  have hfresh := fresh_findFirstZeroBit h0 hmax
  generalize findFirstZeroBit s.bitmap 1024 0 = idx at hfresh ⊢
  have hnodup := nodup_of_removeDuplicateArr hdup
  have hidx : idx ∉ objs := fun h => by
    have hbit := (checkValid_ok (hvalid idx h)).2.2.1
    rw [hfresh.free] at hbit
    cases hbit
  have hrange : ∀ obj ∈ objs, 0 < obj ∧ obj < maxObjs := fun obj hobj =>
    have hobj := checkValid_ok (hvalid obj hobj)
    ⟨hobj.1, hobj.2.1⟩
  rcases hinit : initGroupObject alloc (s.setBit idx true) idx objs with ⟨s', rc⟩
  obtain ⟨hbitmap, hspec⟩ := initGroupObject_spec hfresh hidx hnodup
    (length_lt_of_nodup hnodup hrange) (fun k => hnew k idx hfresh.free) hinit
  refine Or.inr ?_
  by_cases hrc : rc = .ok
  · subst rc
    rw [if_pos rfl] at hspec
    exact ⟨idx, s', hfresh, hnodup, hidx, hrange, Or.inl ⟨hspec, hbitmap, rfl⟩⟩
  · rw [if_neg hrc] at hspec
    refine ⟨idx, s'.setBit idx false, hfresh, hnodup, hidx, hrange, Or.inr ⟨?_, ?_, ?_⟩⟩
    · exact ⟨hspec.others, hspec.state, hspec.parents, hspec.children, hspec.eventq⟩
    · funext k
      rw [setBit_bitmap, hbitmap, setBit_bitmap]
      by_cases hk : k = idx
      · rw [if_pos hk, hk, hfresh.free]
      · rw [if_neg hk, if_neg hk]
    · cases rc <;> first | exact absurd rfl hrc | rfl

theorem deinitObject_of_invalid
    (h : ¬ (0 < idx ∧ idx < maxObjs ∧ (s.syncTable idx).state ≠ .invalid)) :
    deinitObject s idx = (s, [.returned .eInval]) := by
  unfold deinitObject
  by_cases hrange : idx ≤ 0 ∨ maxObjs ≤ idx
  · exact if_pos hrange
  · rw [if_neg hrange, if_pos]
    by_contra hs
    exact h ⟨by omega, by omega, hs⟩

/-- A row after the row `idx` is destroyed. -/
def unlinkedRow (s : SyncDevice) (idx k : ℤ) : Row :=
  let row := s.syncTable k
  { row with
    parentsList := if k ∈ (s.syncTable idx).childrenList ∧ row.state ≠ .invalid
      then row.parentsList.erase idx else row.parentsList
    childrenList := if k ∈ (s.syncTable idx).parentsList ∧ row.state ≠ .invalid
      then row.childrenList.erase idx else row.childrenList }

theorem deinitObject_eq (hpos : 0 < idx) (hlt : idx < maxObjs)
    (hvalid : (s.syncTable idx).state ≠ .invalid)
    (hchildren : (s.syncTable idx).childrenList.Nodup)
    (hparents : (s.syncTable idx).parentsList.Nodup)
    (hcpos : ∀ k ∈ (s.syncTable idx).childrenList, 0 < k)
    (hppos : ∀ k ∈ (s.syncTable idx).parentsList, 0 < k) :
    deinitObject s idx = ({ s with
      syncTable := fun k => if k = idx then {} else unlinkedRow s idx k
      bitmap := update s.bitmap idx false }, [.returned .ok]) := by
  have hc : (s.syncTable idx).childrenList.filter (0 < ·) = (s.syncTable idx).childrenList :=
    List.filter_eq_self.mpr fun k hk => by simpa using hcpos k hk
  have hp : (s.syncTable idx).parentsList.filter (0 < ·) = (s.syncTable idx).parentsList :=
    List.filter_eq_self.mpr fun k hk => by simpa using hppos k hk
  unfold deinitObject
  dsimp only
  rw [if_neg (by omega), if_neg hvalid, hc, hp,
    foldl_cleanValid (f := fun row => cleanupParentsList row .one idx) (fun _ _ => rfl) hchildren,
    foldl_cleanValid (f := fun row => cleanupChildrenList row .one idx) (fun _ _ => rfl) hparents]
  simp only [SyncDevice.setRow, SyncDevice.setBit, Prod.mk.injEq, SyncDevice.mk.injEq, and_true]
  funext k
  by_cases hk : k = idx
  · simp [hk]
  · simp only [update_apply, hk, if_false, unlinkedRow]
    by_cases hs : (s.syncTable k).state = .invalid
    · simp only [hs, ne_eq, not_true_eq_false, and_false, if_false]
      rw [← hs]
    · by_cases hkc : k ∈ (s.syncTable idx).childrenList <;>
        by_cases hkp : k ∈ (s.syncTable idx).parentsList <;>
        simp [hs, hkc, hkp, cleanupParentsList, cleanupChildrenList, cleanupList]

def Row.dispatch (eventq : Bool) (row : Row) : Row :=
  { row with
    callbackList := []
    userPayloadList := if eventq then [] else row.userPayloadList
    signaled := true }

def Row.dispatched (eventq : Bool) (obj : ℤ) (status : SyncState) (row : Row) : List Event :=
  row.callbackList.map (fun cb => .callback .workq cb obj status) ++
    if eventq then row.userPayloadList.map (.userEvent obj status) else []

theorem dispatchSignaledCb_of_valid
    (h : (s.syncTable obj).state ≠ .invalid) :
    dispatchSignaledCb s obj status = (s.setRow obj ((s.syncTable obj).dispatch s.eventq),
      (s.syncTable obj).dispatched s.eventq obj status) := if_neg h

def Row.joined (status : SyncState) (row : Row) : SyncState :=
  if row.state = .signaledError then .signaledError else status

/-- A parent after one of its children was signaled. -/
def Row.parentSignaled (eventq : Bool) (status : SyncState) (row : Row) : Row :=
  { row with
    remaining := decr row.remaining
    state := row.joined status
    callbackList := if decr row.remaining = 0 then [] else row.callbackList
    userPayloadList :=
      if decr row.remaining = 0 ∧ eventq then [] else row.userPayloadList
    signaled := if decr row.remaining = 0 then true else row.signaled }

def Row.parentEvents (eventq : Bool) (obj : ℤ) (status : SyncState) (row : Row) : List Event :=
  if decr row.remaining = 0 then row.dispatched eventq obj (row.joined status) else []

theorem SyncDevice.setRow_setRow (s : SyncDevice) (obj : ℤ) (row row' : Row) :
    (s.setRow obj row).setRow obj row' = s.setRow obj row' := by
  simp [SyncDevice.setRow]

theorem signalParent_of_valid {es : List Event} {p : ℤ}
    (hstatus : status ≠ .invalid) (h : (s.syncTable p).state ≠ .invalid) :
    signalParent status (s, es) p =
      (s.setRow p ((s.syncTable p).parentSignaled s.eventq status),
        es ++ (s.syncTable p).parentEvents s.eventq p status) := by
  have hupdate : updateParentState
      { s.syncTable p with remaining := decr (s.syncTable p).remaining } status =
        ({ s.syncTable p with
          remaining := decr (s.syncTable p).remaining
          state := (s.syncTable p).joined status }, .ok) := by
    cases hs : (s.syncTable p).state <;> simp [updateParentState, Row.joined, hs] at h ⊢
  have hjoined : (s.syncTable p).joined status ≠ .invalid := by
    unfold Row.joined
    split
    · simp
    · exact hstatus
  unfold signalParent
  dsimp only at hupdate ⊢
  rw [hupdate]
  dsimp only
  by_cases hrem : decr (s.syncTable p).remaining = 0
  · rw [if_pos hrem, dispatchSignaledCb_of_valid (by simpa using hjoined)]
    simp [Row.parentSignaled, Row.parentEvents, hrem, SyncDevice.setRow_setRow, Row.dispatched,
      Row.dispatch]
  · rw [if_neg hrem]
    simp [Row.parentSignaled, Row.parentEvents, hrem]

theorem foldl_signalParent (hstatus : status ≠ .invalid) {ps : List ℤ}
    (hnodup : ps.Nodup) (hvalid : ∀ p ∈ ps, (s.syncTable p).state ≠ .invalid)
    (es : List Event) :
    ps.foldl (signalParent status) (s, es) =
      ({ s with syncTable := fun k =>
          if k ∈ ps then (s.syncTable k).parentSignaled s.eventq status else s.syncTable k },
        es ++ ps.flatMap fun p => (s.syncTable p).parentEvents s.eventq p status) := by
  induction ps generalizing s es with
  | nil => simp
  | cons p ps ih =>
    rw [List.nodup_cons] at hnodup
    have hne : ∀ k ∈ ps, k ≠ p := fun k hk h => hnodup.1 (h ▸ hk)
    rw [List.foldl_cons, signalParent_of_valid hstatus (hvalid p List.mem_cons_self),
      ih hnodup.2]
    · rw [Prod.mk.injEq]
      constructor
      · simp only [SyncDevice.mk.injEq, SyncDevice.setRow, and_true, update_apply]
        funext k
        by_cases hk : k = p
        · simp [hk, hnodup.1]
        · simp [hk]
      · rw [List.flatMap_cons, List.append_assoc, List.flatMap_congr fun k hk => ?_]
        rw [setRow_syncTable, if_neg (hne k hk), setRow_eventq]
    · intro k hk
      rw [setRow_syncTable, if_neg (hne k hk)]
      exact hvalid k (List.mem_cons_of_mem _ hk)

def Row.selfSignaled (eventq : Bool) (status : SyncState) (row : Row) : Row :=
  { row.dispatch eventq with state := status, parentsList := [] }

theorem signalRow_eq (hstatus : status ≠ .invalid)
    (hnodup : (s.syncTable obj).parentsList.Nodup)
    (hvalid : ∀ p ∈ (s.syncTable obj).parentsList, p ≠ obj ∧ (s.syncTable p).state ≠ .invalid) :
    signalRow s obj status =
      ({ s with syncTable := fun k =>
          if k = obj then (s.syncTable obj).selfSignaled s.eventq status
          else if k ∈ (s.syncTable obj).parentsList then
            (s.syncTable k).parentSignaled s.eventq status
          else s.syncTable k },
        (s.syncTable obj).dispatched s.eventq obj status ++
          (s.syncTable obj).parentsList.flatMap fun p =>
            (s.syncTable p).parentEvents s.eventq p status) := by
  unfold signalRow
  dsimp only
  rw [dispatchSignaledCb_of_valid (by simpa using hstatus)]
  simp only [SyncDevice.setRow_setRow, setRow_syncTable, if_true, setRow_eventq]
  simp only [Row.dispatch]
  rw [foldl_signalParent hstatus hnodup]
  · rw [Prod.mk.injEq]
    constructor
    · simp only [SyncDevice.mk.injEq, SyncDevice.setRow, and_true, update_apply]
      funext k
      by_cases hk : k = obj
      · have : obj ∉ (s.syncTable obj).parentsList := fun h => (hvalid obj h).1 rfl
        simp [hk, this, Row.selfSignaled, Row.dispatch]
      · simp [hk]
    · rw [List.flatMap_congr fun p hp => ?_]
      · rfl
      · rw [setRow_syncTable, if_neg (hvalid p hp).1, setRow_eventq]
  · intro p hp
    rw [setRow_syncTable, if_neg (hvalid p hp).1]
    exact (hvalid p hp).2

/-- A call that signals: the object is individual and active, and this was its last reference. -/
structure Signals (s : SyncDevice) (obj : ℤ) (status : ℕ) (state : SyncState) : Prop where
  pos : 0 < obj
  lt : obj < maxObjs
  type : (s.syncTable obj).type = .indv
  active : (s.syncTable obj).state = .active
  status : signaledStatus status = some state
  last : decr (s.syncTable obj).refCnt = 0

theorem signaledStatus_isSignaled {status : ℕ}
    (h : signaledStatus status = some state) : state.isSignaled = true := by
  unfold signaledStatus at h
  split_ifs at h <;> cases h <;> rfl

theorem signal_cases (s : SyncDevice) (obj : ℤ) (status : ℕ) :
    (∃ rc, signal s obj status = (s, [.returned rc])) ∨
    ((s.syncTable obj).type = .indv ∧ signal s obj status = (s.setRow obj { s.syncTable obj with
      refCnt := decr (s.syncTable obj).refCnt }, [.returned .ok])) ∨
    ∃ state, Signals s obj status state := by
  unfold signal
  dsimp only
  by_cases hrange : maxObjs ≤ obj ∨ obj ≤ 0
  · exact Or.inl ⟨_, if_pos hrange⟩
  rw [if_neg hrange]
  by_cases hinvalid : (s.syncTable obj).state = .invalid
  · exact Or.inl ⟨_, if_pos hinvalid⟩
  rw [if_neg hinvalid]
  cases htype : (s.syncTable obj).type with
  | group => exact Or.inl ⟨_, if_pos rfl⟩
  | indv =>
    rw [if_neg (by simp)]
    by_cases hactive : (s.syncTable obj).state = .active
    swap
    · exact Or.inl ⟨_, if_pos hactive⟩
    rw [if_neg (not_not.mpr hactive)]
    cases hstatus : signaledStatus status with
    | none => exact Or.inl ⟨_, rfl⟩
    | some state =>
      by_cases hlast : decr (s.syncTable obj).refCnt = 0
      · exact Or.inr (Or.inr ⟨state, by omega, by omega, htype, hactive, hstatus, hlast⟩)
      · exact Or.inr (Or.inl ⟨rfl, if_pos hlast⟩)

def signaledDevice (s : SyncDevice) (obj : ℤ) (state : SyncState) : SyncDevice :=
  { s with syncTable := fun k =>
      if k = obj then { (s.syncTable obj).selfSignaled s.eventq state with refCnt := 0 }
      else if k ∈ (s.syncTable obj).parentsList then
        (s.syncTable k).parentSignaled s.eventq state
      else s.syncTable k }

def signaledEvents (s : SyncDevice) (obj : ℤ) (state : SyncState) : List Event :=
  (s.syncTable obj).dispatched s.eventq obj state ++
    ((s.syncTable obj).parentsList.flatMap fun p =>
      (s.syncTable p).parentEvents s.eventq p state) ++ [.returned .ok]

theorem signal_eq {status : ℕ}
    (h : Signals s obj status state) (hnodup : (s.syncTable obj).parentsList.Nodup)
    (hvalid : ∀ p ∈ (s.syncTable obj).parentsList, p ≠ obj ∧ (s.syncTable p).state ≠ .invalid) :
    signal s obj status = (signaledDevice s obj state, signaledEvents s obj state) := by
  have hstate : state ≠ .invalid := by
    rintro rfl
    exact absurd (signaledStatus_isSignaled h.status) (by decide)
  have hpos := h.pos
  have hlt := h.lt
  have hself : ∀ row, (s.setRow obj row).syncTable obj = row := fun row => by simp
  have hrow : ∀ row, ∀ p ∈ (s.syncTable obj).parentsList,
      (s.setRow obj row).syncTable p = s.syncTable p := fun row p hp => by
    rw [setRow_syncTable, if_neg (hvalid p hp).1]
  unfold signal
  rw [if_neg (by omega), if_neg (by simp [h.active]), if_neg (by simp [h.type]),
    if_neg (not_not.mpr h.active), h.status]
  dsimp only
  rw [if_neg (not_not.mpr h.last), h.last, signalRow_eq hstate]
  · rw [hself]
    simp only [signaledDevice, signaledEvents, Prod.mk.injEq]
    constructor
    · simp only [SyncDevice.setRow, SyncDevice.mk.injEq, and_true, update_apply]
      funext k
      by_cases hk : k = obj
      · simp [hk, Row.selfSignaled, Row.dispatch]
      · simp [hk]
    · rw [List.flatMap_congr fun p hp => ?_]
      · rfl
      · rw [hrow _ p hp, setRow_eventq]
  · rw [hself]
    exact hnodup
  · rw [hself]
    intro p hp
    rw [hrow _ p hp]
    exact hvalid p hp

end KernelModules.CamSync
