import Mathlib.Data.List.TakeWhile

/-!
# Strings of the WLAN driver framework

A string is the list of its bytes up to the terminating NUL. A parser takes bytes off the front of
a string, and hands on what is left.
-/

namespace KernelModules.Qdf

abbrev Str := List UInt8

/-- `QDF_STATUS_E_FAILURE` and `QDF_STATUS_E_RANGE`. -/
inductive Error
  | failure
  | range
  deriving DecidableEq

def isSpace (c : UInt8) : Bool := 9 ≤ c && c ≤ 13 || c == 32 || c == 160

def strLeftTrim (s : Str) : Str := s.dropWhile isSpace

def strRightTrim (s : Str) : Str := (s.reverse.dropWhile isSpace).reverse

def strTrim (s : Str) : Str := strLeftTrim (strRightTrim s)

def consumeChar (c : UInt8) : Str → Option Str
  | [] => none
  | c' :: rest => if c' = c then some rest else none

def hexDigit (c : UInt8) : Option ℕ :=
  if 48 ≤ c ∧ c ≤ 57 then some (c.toNat - 48)
  else if 97 ≤ c ∧ c ≤ 102 then some (c.toNat - 87)
  else if 65 ≤ c ∧ c ≤ 70 then some (c.toNat - 55)
  else none

def digit (c : UInt8) : ℕ := (hexDigit c).getD 0

def isHex (c : UInt8) : Bool := (hexDigit c).isSome

/-- The value of the digits, behind digits of value `v`. -/
def valueFrom (radix v : ℕ) (cs : Str) : ℕ := cs.foldl (fun v c => v * radix + digit c) v

def value (radix : ℕ) (cs : Str) : ℕ := valueFrom radix 0 cs

def Blank (s : Str) : Prop := ∀ c ∈ s, isSpace c = true

def Stops (p : UInt8 → Bool) (s : Str) : Prop := ∀ c ∈ s.head?, p c = false

variable {s t ws : Str} {c : UInt8} {p : UInt8 → Bool}

theorem dropWhile_append (hs : ∀ c ∈ s, p c = true) (ht : Stops p t) :
    (s ++ t).dropWhile p = t := by
  rw [List.dropWhile_append_of_pos hs]
  cases t with
  | nil => rfl
  | cons c t => exact List.dropWhile_cons_of_neg (by simp [ht c rfl])

theorem takeWhile_append (hs : ∀ c ∈ s, p c = true) (ht : Stops p t) :
    (s ++ t).takeWhile p = s := by
  rw [List.takeWhile_append_of_pos hs]
  cases t with
  | nil => exact List.append_nil s
  | cons c t => rw [List.takeWhile_cons_of_neg (by simp [ht c rfl]), List.append_nil]

theorem stops_dropWhile (p : UInt8 → Bool) (s : Str) : Stops p (s.dropWhile p) := fun c hc => by
  have hnot := List.head?_dropWhile_not p s
  rw [hc] at hnot
  simpa using hnot

theorem strLeftTrim_append (hws : Blank ws) (hs : Stops isSpace s) : strLeftTrim (ws ++ s) = s :=
  dropWhile_append hws hs

theorem strRightTrim_append (hc : isSpace c = false) (hws : Blank ws) :
    strRightTrim (s ++ c :: ws) = s ++ [c] := by
  rw [strRightTrim, List.reverse_append, List.reverse_cons, List.append_assoc,
    dropWhile_append (fun c hc => hws c (List.mem_reverse.mp hc)) (by rintro c' ⟨⟩; exact hc)]
  simp

theorem exists_strLeftTrim (s : Str) : ∃ ws, Blank ws ∧ s = ws ++ strLeftTrim s :=
  ⟨s.takeWhile isSpace, fun _ => List.mem_takeWhile_imp, List.takeWhile_append_dropWhile.symm⟩

theorem strLeftTrim_eq_nil : strLeftTrim s = [] ↔ Blank s := List.dropWhile_eq_nil_iff

theorem not_isSpace_of_isHex (h : isHex c = true) : isSpace c = false := by
  have hall : ∀ n : Fin 256, isHex ⟨⟨n⟩⟩ = true → isSpace ⟨⟨n⟩⟩ = false := by
    decide +kernel
  exact hall c.toFin h

theorem not_isHex_of_isSpace (h : isSpace c = true) : isHex c = false := by
  by_contra hhex
  simp [not_isSpace_of_isHex (Bool.not_eq_false _ ▸ hhex)] at h

theorem Blank.stops (h : Blank s) : Stops isHex s := fun c hc =>
  not_isHex_of_isSpace (h c (List.mem_of_mem_head? hc))

end KernelModules.Qdf
