import KernelModules.Bitmap
import KernelModules.Machine
import Mathlib.Tactic
import Mathlib.Order.CompletePartialOrder

/-!
# The flexible memory pools of the WLAN driver

A pool hands out items of one size. They lie in segments of 32 items, each with a bitmap of those
in use. A pool is defined with one segment that it always keeps; further ones are taken from the
system with a record in front, and given back when their last item is freed and enough are left.
-/

namespace KernelModules.FlexMem

open Bitmap

structure Segment where
  /-- Where the record lies. -/
  addr : ℕ
  dynamic : Bool
  usedBitmap : BitVec 32
  bytes : ℕ

structure Pool where
  segList : List Segment
  /-- `seg_list.count`. -/
  count : ℕ
  reductionLimit : UInt16
  itemSize : UInt16

/-- `sizeof(struct qdf_flex_mem_segment)`. -/
def sizeofSegment : ℕ := 32

/-- `DEFINE_QDF_FLEX_MEM_POOL`: the list begins with a segment that is not counted. -/
def definePool (head headBytes : ℕ) (sizeOfItem rmLimit : UInt16) : Pool where
  segList := [⟨head, false, 0, headBytes⟩]
  count := 0
  reductionLimit := rmLimit
  itemSize := sizeOfItem

def newSegment (addr : ℕ) : Segment := ⟨addr, true, 0, addr + sizeofSegment⟩

def Pool.insertBack (pool : Pool) (seg : Segment) : Pool :=
  { pool with segList := pool.segList ++ [seg], count := pool.count + 1 }

/-- `qdf_flex_mem_seg_alloc`, with the answer of `qdf_talloc`. -/
def Pool.segAlloc (pool : Pool) : Option ℕ → Pool
  | none => pool
  | some addr => pool.insertBack (newSegment addr)

def ffz (mask : BitVec 32) : Option ℕ := (List.range 32).find? fun i => !mask.getLsbD i

def Segment.flip (seg : Segment) (index : ℕ) : Segment :=
  { seg with usedBitmap := seg.usedBitmap ^^^ bit 32 index }

def allocLoop (itemSize : ℕ) : List Segment → Option (List Segment × ℕ)
  | [] => none
  | seg :: segs =>
    match ffz seg.usedBitmap with
    | some index => some (seg.flip index :: segs, seg.bytes + index * itemSize)
    | none => (allocLoop itemSize segs).map fun r => (seg :: r.1, r.2)

def Pool.alloc (pool : Pool) (talloc : Option ℕ) : Pool × Option ℕ :=
  match allocLoop pool.itemSize.toNat pool.segList with
  | some (segList, ptr) => ({ pool with segList }, some ptr)
  | none =>
    match talloc with
    | none => (pool, none)
    | some addr =>
      (pool.insertBack { newSegment addr with usedBitmap := 1 }, some (newSegment addr).bytes)

/-- The segments that are left and how many were given back; `reduce` says whether the pool has more
than it wants to keep. -/
def freeLoop (itemSize : ℕ) (reduce : Bool) (ptr : ℕ) : List Segment → List Segment × ℕ
  | [] => ([], 0)
  | seg :: segs =>
    -- The end of the segment is let through.
    if ptr < seg.bytes ∨ seg.bytes + itemSize * 32 < ptr then
      let r := freeLoop itemSize reduce ptr segs
      (seg :: r.1, r.2)
    else
      let seg' := seg.flip ((ptr - seg.bytes) / itemSize)
      if seg'.usedBitmap = 0 ∧ seg.dynamic ∧ reduce then (segs, 1) else (seg' :: segs, 0)

def Pool.free (pool : Pool) (ptr : ℕ) : Pool :=
  let r := freeLoop pool.itemSize.toNat (pool.reductionLimit.toNat < pool.count) ptr pool.segList
  { pool with segList := r.1, count := pool.count - r.2 }

/-- A pool with the items handed out and not yet freed. -/
structure State where
  pool : Pool
  live : List ℕ

inductive Input where
  /-- A turn of `qdf_flex_mem_init`. -/
  | segAlloc (talloc : Option ℕ)
  | alloc (talloc : Option ℕ)
  | free (ptr : ℕ)

def step (s : State) : Input → State × List (Option ℕ)
  | .segAlloc talloc => ({ s with pool := s.pool.segAlloc talloc }, [])
  | .alloc talloc =>
    let r := s.pool.alloc talloc
    (⟨r.1, r.2.toList ++ s.live⟩, [r.2])
  | .free ptr => (⟨s.pool.free ptr, s.live.erase ptr⟩, [])

def machine : Machine State Input (Option ℕ) := ⟨step⟩

def Segment.memory (n : ℕ) (seg : Segment) : Set ℕ :=
  Set.Ico (if seg.dynamic then seg.addr else seg.bytes) (seg.bytes + n * 32)

def Segment.slot (n : ℕ) (seg : Segment) (i : ℕ) : ℕ := seg.bytes + i * n

/-- What the system gives lies apart from the memory in use, and only live items are freed. -/
def Input.Legal (s : State) : Input → Prop
  | .segAlloc talloc | .alloc talloc => ∀ addr ∈ talloc, ∀ seg ∈ s.pool.segList,
      Disjoint ((newSegment addr).memory s.pool.itemSize.toNat) (seg.memory s.pool.itemSize.toNat)
  | .free ptr => ptr ∈ s.live

def Pool.Has (pool : Pool) (seg : Segment) : Prop := seg.bytes ∈ pool.segList.map (·.bytes)

def Regained (s : State) (p : ℕ) : Prop :=
  ∃ answers : List (Option ℕ), machine.Meets (fun s i => i.Legal s) s (answers.map .alloc) ∧
    (machine.run s (answers.map .alloc)).2.getLast? = some (some p)

structure Sound (s : State) : Prop where
  distinct : s.live.Pairwise fun p q =>
    Disjoint (Set.Ico p (p + s.pool.itemSize.toNat)) (Set.Ico q (q + s.pool.itemSize.toNat))
  slots : ∀ p ∈ s.live, ∃ seg ∈ s.pool.segList, ∃ i < 32, p = seg.slot s.pool.itemSize.toNat i
  bitmaps : ∀ seg ∈ s.pool.segList, ∀ i < 32,
    (seg.usedBitmap.getLsbD i = true ↔ seg.slot s.pool.itemSize.toNat i ∈ s.live)
  again : ∀ p ∈ s.live, Regained (step s (.free p)).1 p
  release : ∀ i : Input, i.Legal s → ∀ seg ∈ s.pool.segList,
    let s' := (step s i).1
    ¬s'.pool.Has seg → (∀ p ∈ s'.live, p ∉ seg.memory s.pool.itemSize.toNat) ∧
      s.pool.reductionLimit.toNat ≤ s'.pool.segList.length

variable {n : ℕ} {seg : Segment} {pre post : List Segment}

theorem ffz_some {mask : BitVec 32} {i : ℕ} (h : ffz mask = some i) :
    i < 32 ∧ mask.getLsbD i = false := by
  have hmem := List.mem_of_find?_eq_some h
  have hclear := List.find?_some h
  exact ⟨List.mem_range.mp hmem, by simpa using hclear⟩

theorem ffz_none {mask : BitVec 32} (h : ffz mask = none) {i : ℕ} (hi : i < 32) :
    mask.getLsbD i = true := by
  simpa using List.find?_eq_none.mp h i (List.mem_range.mpr hi)

theorem allocLoop_cases (n : ℕ) (segs : List Segment) :
    (allocLoop n segs = none ∧ ∀ seg ∈ segs, ffz seg.usedBitmap = none) ∨
      ∃ pre seg post index, segs = pre ++ seg :: post ∧ ffz seg.usedBitmap = some index ∧
        allocLoop n segs = some (pre ++ seg.flip index :: post, seg.slot n index) := by
  induction segs with
  | nil => exact Or.inl ⟨rfl, by simp⟩
  | cons seg segs ih =>
    cases hffz : ffz seg.usedBitmap with
    | some index =>
      exact Or.inr ⟨[], seg, segs, index, rfl, hffz, by simp [allocLoop, hffz, Segment.slot]⟩
    | none =>
      rcases ih with ⟨heq, hall⟩ | ⟨pre, t, post, index, rfl, ht, heq⟩
      · exact Or.inl ⟨by simp [allocLoop, hffz, heq], by simpa [hffz] using hall⟩
      · exact Or.inr ⟨seg :: pre, t, post, index, rfl, ht, by simp [allocLoop, hffz, heq]⟩

theorem freeLoop_eq (post : List Segment) (reduce : Bool) {ptr : ℕ}
    (hpre : ∀ t ∈ pre, ptr < t.bytes ∨ t.bytes + n * 32 < ptr)
    (hlow : seg.bytes ≤ ptr) (hhigh : ptr ≤ seg.bytes + n * 32) :
    freeLoop n reduce ptr (pre ++ seg :: post) =
      if (seg.flip ((ptr - seg.bytes) / n)).usedBitmap = 0 ∧ seg.dynamic ∧ reduce then
        (pre ++ post, 1)
      else (pre ++ seg.flip ((ptr - seg.bytes) / n) :: post, 0) := by
  induction pre with
  | nil =>
    rw [List.nil_append, freeLoop, if_neg (by omega)]
    rfl
  | cons t pre ih =>
    rw [List.cons_append, freeLoop, if_pos (hpre t List.mem_cons_self),
      ih fun t' ht' => hpre t' (List.mem_cons_of_mem _ ht')]
    split_ifs <;> rfl

end KernelModules.FlexMem
