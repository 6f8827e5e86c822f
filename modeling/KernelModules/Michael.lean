import Mathlib.Data.Nat.Notation

/-!
# The Michael message integrity code

A message is taken in by words of four bytes, the low byte first, and each word is mixed into a
state of two words. The code of a message is the state behind its padding: a byte 0x5a and from four
to seven zeros, up to whole words.
-/

namespace Michael

structure State where
  l : UInt32
  r : UInt32

def rotl (x : UInt32) (n : ℕ) : UInt32 :=
  ⟨x.toBitVec.rotateLeft n⟩

def rotr (x : UInt32) (n : ℕ) : UInt32 :=
  ⟨x.toBitVec.rotateRight n⟩

def word (b₀ b₁ b₂ b₃ : UInt8) : UInt32 :=
  ⟨b₃.toBitVec ++ b₂.toBitVec ++ b₁.toBitVec ++ b₀.toBitVec⟩

def xswap (x : UInt32) : UInt32 :=
  ⟨x.toBitVec.extractLsb' 16 8 ++ x.toBitVec.extractLsb' 24 8 ++ x.toBitVec.extractLsb' 0 8 ++
    x.toBitVec.extractLsb' 8 8⟩

def block (s : State) : State :=
  let r := s.r ^^^ rotl s.l 17
  let l := s.l + r
  let r := r ^^^ xswap l
  let l := l + r
  let r := r ^^^ rotl l 3
  let l := l + r
  let r := r ^^^ rotr l 2
  let l := l + r
  ⟨l, r⟩

def mix (s : State) (w : UInt32) : State :=
  block { s with l := s.l ^^^ w }

def absorb : State → List UInt8 → State
  | s, b₀ :: b₁ :: b₂ :: b₃ :: bytes => absorb (mix s (word b₀ b₁ b₂ b₃)) bytes
  | s, _ => s

def padding (length : ℕ) : List UInt8 :=
  0x5a :: List.replicate (7 - length % 4) 0

def mac (key : State) (hdr data : List UInt8) : State :=
  absorb key (hdr ++ data ++ padding data.length)

variable {s : State} {bytes bytes' : List UInt8}

theorem mix_zero : mix s (word 0 0 0 0) = block s := by
  have hword : word 0 0 0 0 = 0 := rfl
  rw [mix, hword, UInt32.xor_zero]

theorem absorb_append (h : bytes.length % 4 = 0) :
    absorb s (bytes ++ bytes') = absorb (absorb s bytes) bytes' := by
  fun_induction absorb s bytes with
  | case1 s b₀ b₁ b₂ b₃ bytes ih =>
    apply ih
    rw [← h]
    exact (Nat.add_mod_right bytes.length 4).symm
  | case2 bytes s hshort =>
    match bytes, hshort with
    | [], _ => rfl
    | [_], _ => cases h
    | [_, _], _ => cases h
    | [_, _, _], _ => cases h
    | b₀ :: b₁ :: b₂ :: b₃ :: bytes, hshort => exact (hshort b₀ b₁ b₂ b₃ bytes rfl).elim

end Michael
