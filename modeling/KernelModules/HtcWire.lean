import Mathlib.Data.List.GetD
import Mathlib.Tactic

/-!
# HTC on the wire

A frame is a header of two words and a payload, whose end can be a trailer: records, each a header
of one word and a body. What the headers hold are bit fields of words.

Positions count bytes from the start of the frame.
-/

namespace KernelModules.HtcWire

abbrev Bytes := ℕ → UInt8

def word32 (mem : Bytes) (p : ℕ) : ℕ :=
  (mem p).toNat + 2 ^ 8 * (mem (p + 1)).toNat + 2 ^ 16 * (mem (p + 2)).toNat +
    2 ^ 24 * (mem (p + 3)).toNat

structure Field where
  offset : ℕ
  mask : ℕ
  lsb : ℕ

/-- `HTC_GET_FIELD`. -/
def getField (mem : Bytes) (addr : ℕ) (f : Field) : ℕ :=
  (word32 mem (addr + 4 * (f.offset >>> 2)) &&& f.mask) >>> f.lsb

/-- `SM`. -/
def sm (v : ℕ) (f : Field) : ℕ := (v <<< f.lsb) &&& f.mask

def bytesOfWord (word : ℕ) : List UInt8 :=
  [UInt8.ofNat word, UInt8.ofNat (word >>> 8), UInt8.ofNat (word >>> 16), UInt8.ofNat (word >>> 24)]

/-- `qdf_mem_copy`. -/
def copy (mem : Bytes) (p : ℕ) (bytes : List UInt8) : Bytes :=
  fun i => if p ≤ i ∧ i < p + bytes.length then bytes.getD (i - p) 0 else mem i

def bytesAt (mem : Bytes) (p : ℕ) : ℕ → List UInt8
  | 0 => []
  | n + 1 => mem p :: bytesAt mem (p + 1) n

namespace FrameHdr

def endpointID : Field := ⟨0x00000000, 0x000000ff, 0⟩

def flags : Field := ⟨0x00000000, 0x0000ff00, 8⟩

def payloadLen : Field := ⟨0x00000000, 0xffff0000, 16⟩

def controlBytes0 : Field := ⟨0x00000004, 0x000000ff, 0⟩

def controlBytes1 : Field := ⟨0x00000004, 0x0000ff00, 8⟩

def reserved : Field := ⟨0x00000004, 0xffff0000, 16⟩

end FrameHdr

namespace RecordHdr

def recordID : Field := ⟨0x00000000, 0x000000ff, 0⟩

def length : Field := ⟨0x00000000, 0x0000ff00, 8⟩

end RecordHdr

namespace CreditReport

def endpointID : Field := ⟨0x00000000, 0x000000ff, 0⟩

def credits : Field := ⟨0x00000000, 0x0000ff00, 8⟩

end CreditReport

/-- `HTC_UNKNOWN_MSG`. -/
def messageID : Field := ⟨0x00000000, 0x0000ffff, 0⟩

def hdrLength : ℕ := 8

def sizeofRecordHdr : ℕ := 4

def sizeofCreditReport : ℕ := 4

def flagsRecvTrailer : ℕ := 1 <<< 1

def recordCredits : ℕ := 1

def endpointMax : ℕ := 9

theorem word32_mod (mem : Bytes) (p : ℕ) : word32 mem p % 2 ^ 8 = (mem p).toNat := by
  have h := (mem p).toNat_lt
  unfold word32
  omega

theorem word32_shift_mod (mem : Bytes) (p : ℕ) :
    (word32 mem p >>> 8) % 2 ^ 8 = (mem (p + 1)).toNat := by
  have h := (mem p).toNat_lt
  have h' := (mem (p + 1)).toNat_lt
  rw [Nat.shiftRight_eq_div_pow]
  unfold word32
  omega

theorem getField_low (mem : Bytes) (p : ℕ) :
    getField mem p ⟨0x00000000, 0x000000ff, 0⟩ = (mem p).toNat := by
  unfold getField
  rw [← word32_mod, ← Nat.and_two_pow_sub_one_eq_mod]
  rfl

theorem getField_next (mem : Bytes) (p : ℕ) :
    getField mem p ⟨0x00000000, 0x0000ff00, 8⟩ = (mem (p + 1)).toNat := by
  unfold getField
  rw [← word32_shift_mod, ← Nat.and_two_pow_sub_one_eq_mod, Nat.shiftRight_and_distrib]
  rfl

@[simp] theorem length_bytesAt (mem : Bytes) (p n : ℕ) : (bytesAt mem p n).length = n := by
  induction n generalizing p with
  | zero => rfl
  | succ n ih => rw [bytesAt, List.length_cons, ih]

theorem bytesAt_add (mem : Bytes) (p m n : ℕ) :
    bytesAt mem p (m + n) = bytesAt mem p m ++ bytesAt mem (p + m) n := by
  induction m generalizing p with
  | zero => simp [bytesAt]
  | succ m ih => rw [Nat.succ_add, bytesAt, bytesAt, ih, List.cons_append, Nat.succ_add_eq_add_succ]

theorem bytesAt_eq_append {mem : Bytes} {p m n : ℕ} {l r : List UInt8} (hl : l.length = m)
    (h : bytesAt mem p (m + n) = l ++ r) : bytesAt mem p m = l ∧ bytesAt mem (p + m) n = r := by
  rw [bytesAt_add] at h
  exact List.append_inj h ((length_bytesAt mem p m).trans hl.symm)

theorem bytesAt_congr {mem mem' : Bytes} {p n : ℕ} (h : ∀ i, p ≤ i → i < p + n → mem i = mem' i) :
    bytesAt mem p n = bytesAt mem' p n := by
  induction n generalizing p with
  | zero => rfl
  | succ n ih =>
    rw [bytesAt, bytesAt, h p (Nat.le_refl p) (by omega),
      ih fun i hlo hhi => h i (by omega) (by omega)]

theorem bytesAt_copy_of_le {mem : Bytes} {p q n : ℕ} {bytes : List UInt8} (h : q + n ≤ p) :
    bytesAt (copy mem p bytes) q n = bytesAt mem q n := by
  apply bytesAt_congr
  intro i hlo hhi
  exact if_neg (by omega)

theorem getElem_bytesAt (mem : Bytes) (p n i : ℕ) (h : i < (bytesAt mem p n).length) :
    (bytesAt mem p n)[i] = mem (p + i) := by
  induction n generalizing p i with
  | zero => exact absurd h (Nat.not_lt_zero i)
  | succ n ih =>
    cases i with
    | zero => rfl
    | succ i =>
      simp only [bytesAt, List.getElem_cons_succ]
      rw [ih, Nat.succ_add_eq_add_succ]

theorem bytesAt_copy (mem : Bytes) (p : ℕ) (bytes : List UInt8) :
    bytesAt (copy mem p bytes) p bytes.length = bytes := by
  apply List.ext_getElem (length_bytesAt _ _ _)
  intro i hlen hi
  rw [getElem_bytesAt, copy, if_pos (by omega), Nat.add_sub_cancel_left,
    List.getD_eq_getElem _ _ hi]

theorem copy_copy (mem : Bytes) (p : ℕ) (a b : List UInt8) :
    copy (copy mem p a) (p + a.length) b = copy mem p (a ++ b) := by
  funext i
  simp only [copy, List.length_append]
  by_cases ha : p ≤ i ∧ i < p + a.length
  · rw [if_neg (by omega), if_pos ha, if_pos (by omega), List.getD_append _ _ _ _ (by omega)]
  by_cases hb : p + a.length ≤ i ∧ i < p + a.length + b.length
  · rw [if_pos hb, if_pos (by omega), List.getD_append_right _ _ _ _ (by omega), Nat.sub_sub]
  · rw [if_neg hb, if_neg ha, if_neg (by omega)]

theorem copy_nil (mem : Bytes) (p : ℕ) : copy mem p [] = mem := by
  funext i
  exact if_neg (by simp only [List.length_nil]; omega)

end KernelModules.HtcWire
