import KernelModules.BitAreas
import KernelModules.Machine
import Mathlib.Order.CompletePartialOrder

/-!
# The scratch region of a camera context bank

`cam_smmu_init_scratch_map`, `cam_smmu_alloc_scratch_va` and `cam_smmu_free_scratch_va` hand out
ranges of the addresses of a region and take them back. The region is counted in units of `order`
pages, with a bit for each in a map that is made of whole words, and each range is followed by a
unit that guards it.

A page has 4096 bytes and a word 64 bits. `unsigned int` has 32 bits, `size_t` and `dma_addr_t`
have 64.
-/

namespace KernelModules.Smmu

open BitAreas

def einval : ℤ := -22
def enomem : ℤ := -12

structure ScratchMapping where
  bitmap : BitMap
  bits : ℕ
  order : ℕ
  base : ℕ

/-- `kzalloc` says whether the memory for the map is there. -/
def initScratchMap (kzalloc : Bool) (base size order : ℕ) : Except ℤ ScratchMapping :=
  let count := (size >>> (12 + order)) % 2 ^ 32
  let bitmapSize := (count + 63) / 64 * 8 % 2 ^ 32
  if count = 0 then .error einval
  else if kzalloc = false then .error enomem
  else .ok { bitmap := fun _ => false, bits := 8 * bitmapSize % 2 ^ 32, order, base }

def pageAlign (size : ℕ) : ℕ := (size + 4095) % 2 ^ 64 / 4096 * 4096

def fls64 (n : ℕ) : ℕ := if n = 0 then 0 else Nat.log2 n + 1

/-- The least power of two of pages that holds `size` bytes. -/
def getOrder (size : ℕ) : ℕ := if size = 0 then 52 else fls64 ((size - 1) >>> 12)

variable (find : BitMap → (size start nr mask : ℕ) → ℕ)

def allocScratchVa (mapping : ScratchMapping) (size : ℕ) : Except ℤ (ScratchMapping × ℕ) :=
  let order := getOrder size
  let count :=
    ((((pageAlign size >>> 12) + (1 <<< mapping.order) - 1) % 2 ^ 64) >>> mapping.order) % 2 ^ 32
  let count := (count + 1) % 2 ^ 32
  let align := if mapping.order < order then (1 <<< (order - mapping.order)) - 1 else 0
  let start := find mapping.bitmap mapping.bits 0 count align % 2 ^ 32
  if mapping.bits < start then .error enomem
  else .ok ({ mapping with bitmap := set mapping.bitmap ⟨start, count⟩ },
    (mapping.base + (start <<< (mapping.order + 12)) % 2 ^ 32) % 2 ^ 64)

def freeScratchVa (mapping : ScratchMapping) (addr size : ℕ) : Except ℤ ScratchMapping :=
  let start := (((addr + 2 ^ 64 - mapping.base) % 2 ^ 64) >>> (mapping.order + 12)) % 2 ^ 32
  let count := ((((size >>> 12) + (1 <<< mapping.order) - 1) % 2 ^ 64) >>> mapping.order) % 2 ^ 32
  if addr = 0 then .error einval
  else if mapping.bits < (start + count) % 2 ^ 32 then .error einval
  else .ok { mapping with bitmap := clear mapping.bitmap ⟨start, (count + 1) % 2 ^ 32⟩ }

structure Range where
  addr : ℕ
  len : ℕ
deriving DecidableEq

/-- The region with the ranges handed out and not yet freed. -/
structure Scratch where
  mapping : ScratchMapping
  handed : List Range

inductive Input where
  | alloc (len : ℕ)
  | free (r : Range)

/-- A range leaves the list of buffers also when it is refused. -/
def step (s : Scratch) : Input → Scratch
  | .alloc len =>
    match allocScratchVa find s.mapping len with
    | .ok (mapping, iova) => ⟨mapping, ⟨iova, len⟩ :: s.handed⟩
    | .error _ => s
  | .free r =>
    if r ∈ s.handed then
      match freeScratchVa s.mapping r.addr r.len with
      | .ok mapping => ⟨mapping, s.handed.erase r⟩
      | .error _ => { s with handed := s.handed.erase r }
    else s

def machine : Machine Scratch Input Empty where
  step s i := (step find s i, [])

def unit (order : ℕ) : ℕ := 2 ^ (order + 12)

def need (order len : ℕ) : ℕ := (len / 4096 + 2 ^ order - 1) / 2 ^ order + 1

def alignment (order len : ℕ) : ℕ := 2 ^ (getOrder len - order)

def extent (order addr len : ℕ) : Set ℕ := Set.Ico addr (addr + need order len * unit order)

def Range.bytes (order : ℕ) (r : Range) : Set ℕ := extent order r.addr r.len

def ScratchMapping.Available (mapping : ScratchMapping) (a : ℕ) : Prop :=
  mapping.bitmap ((a - mapping.base) / unit mapping.order) = false

/-- The region in a state, of which the next input meets a condition. -/
structure Sound (base size order : ℕ) (next : Input → Prop) (s : Scratch) : Prop where
  disjoint : s.handed.Pairwise fun r r' => Disjoint (r.bytes order) (r'.bytes order)
  inside : ∀ r ∈ s.handed, r.bytes order ⊆ Set.Ico base (base + size)
  available : ∀ a, base ≤ a → (s.mapping.Available a ↔ ∀ r ∈ s.handed, a ∉ r.bytes order)
  frees : ∀ r ∈ s.handed, next (.free r) →
    ∃ mapping, freeScratchVa s.mapping r.addr r.len = .ok mapping ∧
      ∀ a, base ≤ a → (mapping.Available a ↔ s.mapping.Available a ∨ a ∈ r.bytes order)
  fails : ∀ len e, next (.alloc len) → allocScratchVa find s.mapping len = .error e →
    ∀ a, extent order a len ⊆ Set.Ico base (base + size) →
      alignment order len * unit order ∣ a - base →
      ∃ r ∈ s.handed, ¬Disjoint (extent order a len) (r.bytes order)

def Input.Legal : Input → Prop
  | .alloc len => 0 < len ∧ 4096 ∣ len
  | .free _ => True

/-- No number that the allocation of a length computes is too large, and if there is a place for
the range at all there is one in the region and in the map. -/
structure Fits (base size order : ℕ) (s : Scratch) (len : ℕ) : Prop where
  pos : 0 < len
  pages : 4096 ∣ len
  shift : order < 20
  aligned : getOrder len ≤ order + 30
  short : s.mapping.bits < 2 ^ 31
  place : ∀ i, Area s.mapping.bitmap (max (size / unit order) s.mapping.bits) (need order len)
      (alignment order len) i →
    ∃ j, Area s.mapping.bitmap (min (size / unit order) s.mapping.bits) (need order len)
        (alignment order len) j ∧
      j * unit order < 2 ^ 32 ∧ base + (j + need order len) * unit order ≤ 2 ^ 64

def Careful (base size order : ℕ) (s : Scratch) : Input → Prop
  | .alloc len => Fits base size order s len
  | .free r => r ∈ s.handed → r.addr ≠ 0

end KernelModules.Smmu
