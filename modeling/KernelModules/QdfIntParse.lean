import KernelModules.QdfStr
import Mathlib.Tactic

/-!
# The integers of the WLAN driver framework

An integer is spelled with a sign and, for radix 2, 8 or 16, a prefix. Its digits are added up in 64
bits, and a sum that falls is taken for an overflow. But a sum may also overflow and rise, and a
prefix may stand alone.
-/

namespace KernelModules.Qdf

def consumeRadix : Str → Option (ℕ × Str)
  | 48 :: 98 :: rest => some (2, rest)
  | 48 :: 111 :: rest => some (8, rest)
  | 48 :: 120 :: rest => some (16, rest)
  | c :: rest => if 48 ≤ c ∧ c ≤ 57 then some (10, c :: rest) else none
  | [] => none

def consumeSign (s : Str) : Bool × Str :=
  match consumeChar 45 s with
  | some rest => (true, rest)
  | none => (false, (consumeChar 43 s).getD s)

/-- The loop over the digits; `value` has 64 bits. -/
def digitLoop (radix : ℕ) : ℕ → Str → Except Error (ℕ × Str)
  | value, [] => .ok (value, [])
  | value, c :: rest =>
    match hexDigit c with
    | none => .ok (value, c :: rest)
    | some digit =>
      if radix ≤ digit then .error .failure
      else
        let nextValue := (value * radix + digit) % 2 ^ 64
        if nextValue < value then .error .range else digitLoop radix nextValue rest

/-- The value, whether it is to be negated, and what is left of the string. -/
def intParseLazy (intStr : Str) : Except Error (ℕ × Bool × Str) :=
  let r := consumeSign (strLeftTrim intStr)
  match consumeRadix r.2 with
  | none => .error .failure
  | some (radix, str) =>
    match digitLoop radix 0 str with
    | .error e => .error e
    | .ok (value, rest) => .ok (value, r.1, rest)

def intParse (intStr : Str) : Except Error (ℕ × Bool) :=
  match intParseLazy intStr with
  | .error e => .error e
  | .ok (value, negate, rest) =>
    if strLeftTrim rest = [] then .ok (value, negate) else .error .failure

def signed (bits v : ℕ) : ℤ := if v < 2 ^ (bits - 1) then v else v - 2 ^ bits

def toInt64 : ℕ × Bool → Except Error ℤ
  | (value, true) =>
    let signedValue := signed 64 ((2 ^ 64 - value) % 2 ^ 64)
    if 0 < signedValue then .error .range else .ok signedValue
  | (value, false) =>
    let signedValue := signed 64 value
    if signedValue < 0 then .error .range else .ok signedValue

def int64Parse (intStr : Str) : Except Error ℤ := intParse intStr >>= toInt64

def toUint64 : ℕ × Bool → Except Error ℤ
  | (_, true) => .error .range
  | (value, false) => .ok value

def uint64Parse (intStr : Str) : Except Error ℤ := intParse intStr >>= toUint64

def toInt32 (value : ℤ) : Except Error ℤ :=
  if signed 32 (value % 2 ^ 32).toNat ≠ value then .error .range else .ok value

def int32Parse (intStr : Str) : Except Error ℤ := int64Parse intStr >>= toInt32

def toUint32 (value : ℤ) : Except Error ℤ :=
  if value % 2 ^ 32 ≠ value then .error .range else .ok value

def uint32Parse (intStr : Str) : Except Error ℤ := uint64Parse intStr >>= toUint32

def Digits (radix : ℕ) (cs : Str) : Prop := ∀ c ∈ cs, ∃ d < radix, hexDigit c = some d

/-- The string is the digits behind a sign and the prefix of the radix, with blanks around. -/
def Reads (s : Str) (neg : Bool) (radix : ℕ) (cs : Str) : Prop :=
  ∃ ws sign pre ws', s = ws ++ (sign ++ (pre ++ (cs ++ ws'))) ∧ Blank ws ∧ Blank ws' ∧
    Digits radix cs ∧ (sign, neg) ∈ [([], false), ([43], false), ([45], true)] ∧
    (pre, radix) ∈ [([], 10), ([48, 98], 2), ([48, 111], 8), ([48, 120], 16)]

def Literal (s : Str) (neg : Bool) (radix : ℕ) (cs : Str) : Prop := Reads s neg radix cs ∧ cs ≠ []

def literalValue (neg : Bool) (radix : ℕ) (cs : Str) : ℤ :=
  if neg then -(value radix cs : ℤ) else value radix cs

/-- The parse is right about the string: it gives the value of a literal that fits, and nothing
else, and says so when a literal does not fit. -/
def Exact (parse : Str → Except Error ℤ) (lo hi : ℤ) (s : Str) : Prop :=
  (∀ v, parse s = .ok v ↔
    ∃ neg radix cs, Literal s neg radix cs ∧ v = literalValue neg radix cs ∧ lo ≤ v ∧ v ≤ hi) ∧
  ∀ neg radix cs, Literal s neg radix cs →
    ¬(lo ≤ literalValue neg radix cs ∧ literalValue neg radix cs ≤ hi) → parse s = .error .range

/-- The value of the digits so far, in 64 bits, falls at some digit; `v` is the exact value of the
digits in front. -/
def Falls (radix : ℕ) : ℕ → Str → Prop
  | _, [] => False
  | v, c :: cs =>
    (v * radix + digit c) % 2 ^ 64 < v % 2 ^ 64 ∨ Falls radix (v * radix + digit c) cs

def Unnoticed (radix : ℕ) (cs : Str) : Prop := 2 ^ 64 ≤ value radix cs ∧ ¬Falls radix 0 cs

def BarePrefix (s : Str) (neg : Bool) : Prop := ∃ radix, radix ≠ 10 ∧ Reads s neg radix []

def NegativeZero (s : Str) : Prop := ∃ radix cs, Literal s true radix cs ∧ value radix cs = 0

variable {radix v : ℕ} {cs s rest : Str} {neg : Bool}

theorem Digits.isHex (h : Digits radix cs) : ∀ c ∈ cs, isHex c = true := fun c hc => by
  obtain ⟨d, -, hd⟩ := h c hc
  simp [Qdf.isHex, hd]

theorem digitLoop_append {t : Str} (ht : Stops isHex t) :
    digitLoop radix v (s ++ t) = (digitLoop radix v s).map fun r => (r.1, r.2 ++ t) := by
  induction s generalizing v with
  | nil =>
    cases t with
    | nil => rfl
    | cons c t =>
      have hnone : hexDigit c = none := by simpa [isHex] using ht c rfl
      rw [List.nil_append]
      simp [digitLoop, hnone, Except.map]
  | cons c s ih =>
    rw [List.cons_append, digitLoop, digitLoop]
    cases hexDigit c with
    | none => rfl
    | some d =>
      dsimp only
      split_ifs
      · rfl
      · rfl
      · exact ih

open Classical in
theorem digitLoop_eq (hcs : Digits radix cs) (hrest : Stops Qdf.isHex rest) :
    digitLoop radix (v % 2 ^ 64) (cs ++ rest) =
      if Falls radix v cs then .error .range else .ok (valueFrom radix v cs % 2 ^ 64, rest) := by
  have hloop : digitLoop radix (v % 2 ^ 64) cs =
      if Falls radix v cs then .error .range else .ok (valueFrom radix v cs % 2 ^ 64, []) := by
    induction cs generalizing v with
    | nil =>
      rw [if_neg (by simp [Falls])]
      rfl
    | cons c cs ih =>
      obtain ⟨d, hlt, hd⟩ := hcs c List.mem_cons_self
      have hdigit : digit c = d := by simp [digit, hd]
      have hnext : (v % 2 ^ 64 * radix + d) % 2 ^ 64 = (v * radix + digit c) % 2 ^ 64 := by
        rw [hdigit, Nat.add_mod, Nat.mod_mul_mod, ← Nat.add_mod]
      rw [digitLoop, hd]
      dsimp only
      rw [if_neg (by omega), hnext]
      by_cases hfall : (v * radix + digit c) % 2 ^ 64 < v % 2 ^ 64
      · have hfalls : Falls radix v (c :: cs) := Or.inl hfall
        rw [if_pos hfall, if_pos hfalls]
      · rw [if_neg hfall, ih fun c hc => hcs c (List.mem_cons_of_mem _ hc)]
        simp only [Falls, hfall, false_or]
        rfl
  rw [digitLoop_append hrest, hloop]
  split_ifs <;> rfl

theorem digitLoop_ok {w : ℕ} (h : digitLoop radix v s = .ok (w, rest)) :
    ∃ cs, s = cs ++ rest ∧ Digits radix cs := by
  induction s generalizing v with
  | nil => cases h; exact ⟨[], rfl, by simp [Digits]⟩
  | cons c s ih =>
    rw [digitLoop] at h
    split at h
    · cases h
      exact ⟨[], rfl, by simp [Digits]⟩
    next d hd =>
      dsimp only at h
      split_ifs at h with hge hfall
      obtain ⟨cs, rfl, hcs⟩ := ih h
      refine ⟨c :: cs, rfl, fun c' hc' => ?_⟩
      rcases List.mem_cons.mp hc' with rfl | hc'
      · exact ⟨d, by omega, hd⟩
      · exact hcs c' hc'

theorem decimal_iff {c : UInt8} : (∃ d < 10, hexDigit c = some d) ↔ 48 ≤ c ∧ c ≤ 57 := by
  have hall : ∀ n : Fin 256, (∃ d < 10, hexDigit ⟨⟨n⟩⟩ = some d) ↔
    (48 : UInt8) ≤ ⟨⟨n⟩⟩ ∧ (⟨⟨n⟩⟩ : UInt8) ≤ 57 := by decide +kernel
  exact hall c.toFin

theorem consumeRadix_eq {c : UInt8} (h : c = 48 → ∀ d ∈ s.head?, d ≠ 98 ∧ d ≠ 111 ∧ d ≠ 120) :
    consumeRadix (c :: s) = if 48 ≤ c ∧ c ≤ 57 then some (10, c :: s) else none := by
  unfold consumeRadix
  split
  iterate 3 next heq =>
    cases heq
    simp at h
  · next heq =>
    cases heq
    rfl
  · next heq => cases heq

theorem consumeRadix_decimal {c : UInt8} (hcs : Digits 10 (c :: cs)) (hrest : Blank rest) :
    consumeRadix (c :: cs ++ rest) = some (10, c :: cs ++ rest) := by
  have hc := decimal_iff.mp (hcs c List.mem_cons_self)
  rw [List.cons_append, consumeRadix_eq (fun _ c' hc' => ?_), if_pos hc]
  have hkind : (∃ d < 10, hexDigit c' = some d) ∨ isSpace c' = true := by
    rcases List.mem_append.mp (List.mem_of_mem_head? hc') with hin | hin
    · exact Or.inl (hcs c' (List.mem_cons_of_mem _ hin))
    · exact Or.inr (hrest c' hin)
  refine ⟨?_, ?_, ?_⟩ <;> rintro rfl <;> revert hkind <;> decide

/-- What the code accepts: a radix of 10 has no prefix, so it needs a digit. -/
structure Accepts (s : Str) (neg : Bool) (radix : ℕ) (cs : Str) : Prop where
  reads : Reads s neg radix cs
  decimal : radix = 10 → cs ≠ []

theorem Literal.accepts (h : Literal s neg radix cs) : Accepts s neg radix cs := ⟨h.1, fun _ => h.2⟩

theorem Accepts.header (h : Accepts s neg radix cs) : ∃ ws', Blank ws' ∧ Digits radix cs ∧
    (consumeSign (strLeftTrim s)).1 = neg ∧
    consumeRadix (consumeSign (strLeftTrim s)).2 = some (radix, cs ++ ws') := by
  obtain ⟨⟨ws, sign, pre, ws', rfl, hws, hws', hcs, hsign, hpre⟩, hdecimal⟩ := h
  refine ⟨ws', hws', hcs, ?_⟩
  have hbody : ∃ c rest, pre ++ (cs ++ ws') = c :: rest ∧ 48 ≤ c ∧ c ≤ 57 ∧
      consumeRadix (c :: rest) = some (radix, cs ++ ws') := by
    simp only [List.mem_cons, Prod.mk.injEq, List.not_mem_nil, or_false] at hpre
    rcases hpre with ⟨rfl, rfl⟩ | ⟨rfl, rfl⟩ | ⟨rfl, rfl⟩ | ⟨rfl, rfl⟩
    · obtain ⟨c, cs, rfl⟩ := List.exists_cons_of_ne_nil (hdecimal rfl)
      have hc := decimal_iff.mp (hcs c List.mem_cons_self)
      exact ⟨c, cs ++ ws', rfl, hc.1, hc.2, consumeRadix_decimal hcs hws'⟩
    all_goals exact ⟨48, _, rfl, by decide, by decide, rfl⟩
  obtain ⟨c, rest, heq, hlow, hhigh, hradix⟩ := hbody
  have hspace : isSpace c = false :=
    not_isSpace_of_isHex (by
      obtain ⟨d, -, hd⟩ := decimal_iff.mpr ⟨hlow, hhigh⟩
      simp [isHex, hd])
  have h43 : c ≠ 43 := by rintro rfl; exact absurd hlow (by decide)
  have h45 : c ≠ 45 := by rintro rfl; exact absurd hlow (by decide)
  rw [heq]
  simp only [List.mem_cons, Prod.mk.injEq, List.not_mem_nil, or_false] at hsign
  rcases hsign with ⟨rfl, rfl⟩ | ⟨rfl, rfl⟩ | ⟨rfl, rfl⟩
  all_goals
    rw [strLeftTrim_append hws (by rintro c' ⟨⟩; first | exact hspace | rfl)]
    simp [consumeSign, consumeChar, h43, h45, hradix]

theorem Accepts.unique {neg' : Bool} {radix' : ℕ} {cs' : Str} (h : Accepts s neg radix cs)
    (h' : Accepts s neg' radix' cs') : neg' = neg ∧ radix' = radix ∧ cs' = cs := by
  obtain ⟨ws, hws, hcs, rfl, hradix⟩ := h.header
  obtain ⟨ws', hws', hcs', rfl, hradix'⟩ := h'.header
  rw [hradix] at hradix'
  obtain ⟨rfl, heq⟩ := Prod.mk.inj (Option.some.inj hradix')
  have htake := congrArg (List.takeWhile isHex) heq
  rw [takeWhile_append hcs.isHex hws.stops, takeWhile_append hcs'.isHex hws'.stops] at htake
  exact ⟨rfl, rfl, htake.symm⟩

open Classical in
theorem Accepts.intParse_eq (h : Accepts s neg radix cs) : intParse s =
    if Falls radix 0 cs then .error .range else .ok (value radix cs % 2 ^ 64, neg) := by
  obtain ⟨ws', hws', hcs, rfl, hradix⟩ := h.header
  have hloop := digitLoop_eq (v := 0) hcs hws'.stops
  rw [Nat.zero_mod] at hloop
  simp only [intParse, intParseLazy, hradix, hloop]
  split_ifs with hfall
  · rfl
  · simp [strLeftTrim_eq_nil.mpr hws', value]

theorem consumeSign_eq (s : Str) : ∃ sign, s = sign ++ (consumeSign s).2 ∧
    (sign, (consumeSign s).1) ∈ [([], false), (([43] : Str), false), ([45], true)] := by
  cases s with
  | nil => exact ⟨[], rfl, by simp [consumeSign, consumeChar]⟩
  | cons c s =>
    by_cases h45 : c = 45
    · exact ⟨[45], by simp [consumeSign, consumeChar, h45]⟩
    · by_cases h43 : c = 43
      · exact ⟨[43], by simp [consumeSign, consumeChar, h43]⟩
      · exact ⟨[], by simp [consumeSign, consumeChar, h43, h45]⟩

theorem consumeRadix_some (h : consumeRadix s = some (radix, rest)) : ∃ pre, s = pre ++ rest ∧
    (pre, radix) ∈ [([], 10), (([48, 98] : Str), 2), ([48, 111], 8), ([48, 120], 16)] ∧
    (radix = 10 → ∀ c ∈ rest.head?, isSpace c = false) ∧ (radix = 10 → rest ≠ []) := by
  unfold consumeRadix at h
  split at h
  · cases h; exact ⟨[48, 98], rfl, by simp, by simp, by simp⟩
  · cases h; exact ⟨[48, 111], rfl, by simp, by simp, by simp⟩
  · cases h; exact ⟨[48, 120], rfl, by simp, by simp, by simp⟩
  · split_ifs at h with hc
    cases h
    obtain ⟨d, -, hd⟩ := decimal_iff.mpr hc
    refine ⟨[], rfl, by simp, fun _ c' hc' => ?_, by simp⟩
    exact not_isSpace_of_isHex (by simp [isHex, ← Option.some.inj hc', hd])
  · cases h

theorem intParse_ok (h : intParse s = .ok (v, neg)) : ∃ radix cs, Accepts s neg radix cs := by
  obtain ⟨ws, hws, hs⟩ := exists_strLeftTrim s
  obtain ⟨sign, hsign, hmem⟩ := consumeSign_eq (strLeftTrim s)
  unfold intParse intParseLazy at h
  dsimp only at h
  split at h
  · cases h
  next heq =>
    split at heq
    · cases heq
    next radix t hradix =>
      split at heq
      · cases heq
      next rest hloop =>
        cases heq
        split_ifs at h with hblank
        cases h
        obtain ⟨pre, ht, hpre, hhead, hne⟩ := consumeRadix_some hradix
        obtain ⟨cs, rfl, hcs⟩ := digitLoop_ok hloop
        have hrest := strLeftTrim_eq_nil.mp hblank
        refine ⟨radix, cs, ⟨ws, sign, pre, _, ?_, hws, hrest, hcs, hmem, hpre⟩, ?_⟩
        · rw [← ht, ← hsign, ← hs]
        · rintro hten rfl
          obtain ⟨c, t, ht⟩ := List.exists_cons_of_ne_nil (hne hten)
          have hspace := hrest c (List.mem_of_mem_head? (congrArg List.head? ht))
          rw [hhead hten c (congrArg List.head? ht)] at hspace
          cases hspace

theorem le_valueFrom (hradix : 0 < radix) (cs : Str) : v ≤ valueFrom radix v cs := by
  induction cs generalizing v with
  | nil => exact le_rfl
  | cons c cs ih =>
    have hmul : v * 1 ≤ v * radix := Nat.mul_le_mul_left v hradix
    exact le_trans (by omega) (ih (v := v * radix + digit c))

theorem not_falls (hradix : 0 < radix) (hlt : valueFrom radix v cs < 2 ^ 64) :
    ¬Falls radix v cs := by
  induction cs generalizing v with
  | nil => exact id
  | cons c cs ih =>
    have hmul : v * 1 ≤ v * radix := Nat.mul_le_mul_left v hradix
    have hnext := le_valueFrom hradix (v := v * radix + digit c) cs
    have hlt' : valueFrom radix (v * radix + digit c) cs < 2 ^ 64 := hlt
    rintro (hfall | hfall)
    · rw [Nat.mod_eq_of_lt (by omega), Nat.mod_eq_of_lt (by omega)] at hfall
      omega
    · exact ih hlt' hfall

theorem le_mod_of_not_falls (hradix : radix ≤ 16) (hcs : Digits radix cs)
    (hv : v < 2 ^ 64 ∨ 2 ^ 60 ≤ v % 2 ^ 64) (hover : 2 ^ 64 ≤ valueFrom radix v cs)
    (hfalls : ¬Falls radix v cs) : 2 ^ 60 ≤ valueFrom radix v cs % 2 ^ 64 := by
  induction cs generalizing v with
  | nil =>
    have hge : 2 ^ 64 ≤ v := hover
    exact hv.resolve_left (by omega)
  | cons c cs ih =>
    obtain ⟨d, hlt, hd⟩ := hcs c List.mem_cons_self
    have hdigit : digit c = d := by simp [digit, hd]
    rw [Falls, not_or, not_lt] at hfalls
    refine ih (fun c hc => hcs c (List.mem_cons_of_mem _ hc)) ?_ hover hfalls.2
    rcases Nat.lt_or_ge (v * radix + digit c) (2 ^ 64) with hlt' | hge
    · exact Or.inl hlt'
    · have hmul : v * radix ≤ v * 16 := Nat.mul_le_mul_left v hradix
      have hbig : 2 ^ 60 ≤ v % 2 ^ 64 := by
        rcases hv with hv | hv
        · rw [Nat.mod_eq_of_lt hv]
          omega
        · exact hv
      exact Or.inr (hbig.trans hfalls.1)

theorem Reads.radix_le (h : Reads s neg radix cs) : 0 < radix ∧ radix ≤ 16 ∧ Digits radix cs := by
  obtain ⟨_, _, _, _, _, _, _, hcs, _, hpre⟩ := h
  simp only [List.mem_cons, Prod.mk.injEq, List.not_mem_nil, or_false] at hpre
  exact ⟨by omega, by omega, hcs⟩

variable {parse : Str → Except Error ℤ} {lo hi : ℤ}

theorem Literal.exact_iff (h : Literal s neg radix cs) : Exact parse lo hi s ↔
    parse s = if lo ≤ literalValue neg radix cs ∧ literalValue neg radix cs ≤ hi then
      .ok (literalValue neg radix cs) else .error .range := by
  constructor
  · rintro ⟨hok, hrange⟩
    split_ifs with hfit
    · exact (hok _).mpr ⟨neg, radix, cs, h, rfl, hfit⟩
    · exact hrange neg radix cs h hfit
  · intro heq
    have hone : ∀ {neg' radix' cs'}, Literal s neg' radix' cs' →
        literalValue neg' radix' cs' = literalValue neg radix cs := fun h' => by
      obtain ⟨rfl, rfl, rfl⟩ := h.accepts.unique h'.accepts
      rfl
    refine ⟨fun v => ?_, fun neg' radix' cs' h' hfit => ?_⟩
    · rw [heq]
      constructor
      · intro hv
        split_ifs at hv with hfit
        cases hv
        exact ⟨neg, radix, cs, h, rfl, hfit⟩
      · rintro ⟨neg', radix', cs', h', rfl, hfit⟩
        rw [hone h'] at hfit ⊢
        rw [if_pos hfit]
    · rw [heq, if_neg (hone h' ▸ hfit)]

/-- A parse that turns the value into its own type is exact unless it takes a bare prefix, or is
wrong about the 64 bits of a literal whose value did not fall. -/
theorem exact_iff {g : ℕ × Bool → Except Error ℤ} (hlo : -2 ^ 64 < lo) (hhi : hi < 2 ^ 64) :
    Exact (fun s => intParse s >>= g) lo hi s ↔
      (∀ neg, BarePrefix s neg → ∀ v, g (0, neg) ≠ .ok v) ∧
      ∀ neg radix cs, Literal s neg radix cs → ¬Falls radix 0 cs →
        g (value radix cs % 2 ^ 64, neg) =
          if lo ≤ literalValue neg radix cs ∧ literalValue neg radix cs ≤ hi then
            .ok (literalValue neg radix cs) else .error .range := by
  by_cases hex : ∃ neg radix cs, Accepts s neg radix cs
  · obtain ⟨neg, radix, cs, h⟩ := hex
    have hparse := h.intParse_eq
    have hone : ∀ {neg' radix' cs'}, Literal s neg' radix' cs' → cs' = cs := fun h' =>
      (h.unique h'.accepts).2.2
    by_cases hnil : cs = []
    · subst hnil
      have hbare : BarePrefix s neg := ⟨radix, fun hten => h.decimal hten rfl, h.reads⟩
      have hnone : ∀ neg' radix' cs', ¬Literal s neg' radix' cs' := fun _ _ _ h' => h'.2 (hone h')
      rw [if_neg (by simp [Falls])] at hparse
      have heq : (intParse s >>= g) = g (0, neg) := by rw [hparse]; rfl
      refine ⟨fun hE => ⟨fun neg' ⟨radix', hten, h'⟩ v hv => ?_, fun _ _ _ h' =>
        absurd h' (hnone _ _ _)⟩, fun hc => ⟨fun v => ?_, fun _ _ _ h' => absurd h' (hnone _ _ _)⟩⟩
      · obtain rfl := (h.unique ⟨h', fun heq => absurd heq hten⟩).1
        obtain ⟨_, _, _, h', -⟩ := (hE.1 v).mp (heq.trans hv)
        exact hnone _ _ _ h'
      · refine ⟨fun hv => absurd (heq.symm.trans hv) (hc.1 neg hbare v), ?_⟩
        rintro ⟨_, _, _, h', -⟩
        exact absurd h' (hnone _ _ _)
    · have hlit : Literal s neg radix cs := ⟨h.reads, hnil⟩
      rw [hlit.exact_iff]
      constructor
      · refine fun hE => ⟨fun neg' ⟨radix', hten, h'⟩ => ?_, fun neg' radix' cs' h' hfalls => ?_⟩
        · exact absurd (h.unique ⟨h', fun heq => absurd heq hten⟩).2.2.symm hnil
        · obtain ⟨rfl, rfl, rfl⟩ := h.unique h'.accepts
          rw [if_neg hfalls] at hparse
          rw [← hE, hparse]
          rfl
      · rintro ⟨-, hc⟩
        by_cases hfalls : Falls radix 0 cs
        · have hbig := mt (not_falls (v := 0) h.reads.radix_le.1) (not_not.mpr hfalls)
          rw [hparse, if_pos hfalls, if_neg]
          · rfl
          · change ¬value radix cs < 2 ^ 64 at hbig
            unfold literalValue
            split_ifs <;> omega
        · rw [← hc neg radix cs hlit hfalls, hparse, if_neg hfalls]
          rfl
  · have hnone : ∀ neg radix cs, ¬Accepts s neg radix cs :=
      fun neg radix cs h => hex ⟨neg, radix, cs, h⟩
    refine ⟨fun _ => ⟨fun neg ⟨radix, hten, h⟩ => ?_, fun _ _ _ h => ?_⟩, fun _ =>
      ⟨fun v => ⟨fun hv => ?_, fun ⟨_, _, _, h, _⟩ => ?_⟩, fun _ _ _ h => ?_⟩⟩
    · exact absurd ⟨h, fun heq => absurd heq hten⟩ (hnone neg radix [])
    · exact absurd h.accepts (hnone _ _ _)
    · cases hp : intParse s with
      | error e => simp [hp, bind, Except.bind] at hv
      | ok r =>
        obtain ⟨radix, cs, h⟩ := intParse_ok (v := r.1) hp
        exact absurd h (hnone _ _ _)
    · exact absurd h.accepts (hnone _ _ _)
    · exact absurd h.accepts (hnone _ _ _)

theorem toInt64_eq {r : ℕ} (hr : r < 2 ^ 64) (neg : Bool) : toInt64 (r, neg) =
    if r + (if neg then 0 else 1) ≤ 2 ^ 63 then .ok (if neg then -(r : ℤ) else r)
    else .error .range := by
  cases neg
  · simp only [toInt64, signed, Bool.false_eq_true, if_false]
    split_ifs <;> first | rfl | omega
  · simp only [toInt64, signed, if_true]
    split_ifs <;> first | rfl | omega | exact congrArg Except.ok (by omega)

theorem Literal.residue (h : Literal s neg radix cs) (hfalls : ¬Falls radix 0 cs) :
    value radix cs % 2 ^ 64 = value radix cs ∧ value radix cs < 2 ^ 64 ∨
      Unnoticed radix cs ∧ 2 ^ 60 ≤ value radix cs % 2 ^ 64 := by
  rcases Nat.lt_or_ge (value radix cs) (2 ^ 64) with hlt | hge
  · exact Or.inl ⟨Nat.mod_eq_of_lt hlt, hlt⟩
  · obtain ⟨-, hle, hcs⟩ := h.1.radix_le
    exact Or.inr ⟨⟨hge, hfalls⟩, le_mod_of_not_falls hle hcs (Or.inl (by decide)) hge hfalls⟩

theorem not_falls_of_lt (h : Literal s neg radix cs) (hlt : value radix cs < 2 ^ 64) :
    ¬Falls radix 0 cs := not_falls h.1.radix_le.1 hlt

theorem toInt32_eq (v : ℤ) :
    toInt32 v = if -2 ^ 31 ≤ v ∧ v ≤ 2 ^ 31 - 1 then .ok v else .error .range := by
  have hword : signed 32 (v % 2 ^ 32).toNat = v ↔ -2 ^ 31 ≤ v ∧ v ≤ 2 ^ 31 - 1 := by
    simp only [signed, Nat.reduceSub]
    split_ifs <;> omega
  unfold toInt32
  rw [ite_not]
  exact if_congr hword rfl rfl

theorem mod_lt : v % 2 ^ 64 < 2 ^ 64 := Nat.mod_lt v (by decide)

theorem bind_assoc (g : ℕ × Bool → Except Error ℤ) (k : ℤ → Except Error ℤ) (s : Str) :
    (intParse s >>= g) >>= k = intParse s >>= fun p => g p >>= k := by
  cases intParse s <;> rfl

theorem int32_exact_iff : Exact int32Parse (-2 ^ 31) (2 ^ 31 - 1) s ↔ ∀ neg, ¬BarePrefix s neg := by
  rw [show int32Parse = fun s => intParse s >>= fun p => toInt64 p >>= toInt32 from
    funext (bind_assoc _ _), exact_iff (by decide) (by decide)]
  refine ⟨fun hc neg hbare => hc.1 neg hbare 0 (by cases neg <;> decide), fun hc =>
    ⟨fun neg hbare => absurd hbare (hc neg), fun neg radix cs h hfalls => ?_⟩⟩
  have hres := h.residue hfalls
  unfold Unnoticed at hres
  rw [toInt64_eq mod_lt]
  cases neg
  all_goals
    simp only [literalValue, Bool.false_eq_true, if_false, if_true]
    split_ifs <;> simp only [bind, Except.bind, toInt32_eq] <;> (try split_ifs) <;>
      first | rfl | (exfalso; omega) | exact congrArg Except.ok (by omega)

theorem uint32_exact_iff :
    Exact uint32Parse 0 (2 ^ 32 - 1) s ↔ ¬BarePrefix s false ∧ ¬NegativeZero s := by
  rw [show uint32Parse = fun s => intParse s >>= fun p => toUint64 p >>= toUint32 from
    funext (bind_assoc _ _), exact_iff (by decide) (by decide)]
  refine ⟨fun hc => ⟨fun hbare => hc.1 false hbare 0 (by decide), ?_⟩, fun hc =>
    ⟨fun neg hbare => ?_, fun neg radix cs h hfalls => ?_⟩⟩
  · rintro ⟨radix, cs, h, hzero⟩
    have heq := hc.2 true radix cs h (not_falls_of_lt h (by omega))
    simp [literalValue, hzero, toUint64, bind, Except.bind] at heq
  · cases neg
    · exact absurd hbare hc.1
    · exact fun v => by simp [toUint64, bind, Except.bind]
  · have hres := h.residue hfalls
    unfold Unnoticed at hres
    cases neg
    · simp only [literalValue, Bool.false_eq_true, if_false, toUint64, toUint32, bind, Except.bind]
      split_ifs <;> first | rfl | omega | exact congrArg Except.ok (by omega)
    · have hzero : value radix cs ≠ 0 := fun hzero => hc.2 ⟨radix, cs, h, hzero⟩
      simp only [literalValue, if_true, toUint64, bind, Except.bind]
      rw [if_neg (by omega)]

theorem int64_exact_iff : Exact int64Parse (-2 ^ 63) (2 ^ 63 - 1) s ↔
    (∀ neg, ¬BarePrefix s neg) ∧ ∀ neg radix cs, Literal s neg radix cs → Unnoticed radix cs →
      2 ^ 63 < value radix cs % 2 ^ 64 + if neg then 0 else 1 := by
  rw [show int64Parse = fun s => intParse s >>= toInt64 from rfl,
    exact_iff (by decide) (by decide)]
  refine and_congr ⟨fun hc neg hbare => hc neg hbare 0 (by cases neg <;> decide),
    fun hc neg hbare => absurd hbare (hc neg)⟩
    (forall₄_congr fun neg radix cs h => ⟨fun hc hun => ?_, fun hc hfalls => ?_⟩)
  · have heq := hc hun.2
    have hbig := hun.1
    rw [toInt64_eq mod_lt] at heq
    cases neg
    all_goals
      simp only [literalValue, Bool.false_eq_true, if_false, if_true] at heq ⊢
      split_ifs at heq <;> omega
  · have hres : (value radix cs % 2 ^ 64 = value radix cs ∧ value radix cs < 2 ^ 64) ∨
        2 ^ 64 ≤ value radix cs ∧ 2 ^ 63 < value radix cs % 2 ^ 64 + if neg then 0 else 1 :=
      (h.residue hfalls).imp id fun hun => ⟨hun.1.1, hc hun.1⟩
    rw [toInt64_eq mod_lt]
    cases neg
    all_goals
      simp only [literalValue, Bool.false_eq_true, if_false, if_true] at hres ⊢
      split_ifs <;> first | rfl | (exfalso; omega) | exact congrArg Except.ok (by omega)

theorem uint64_exact_iff : Exact uint64Parse 0 (2 ^ 64 - 1) s ↔
    (¬BarePrefix s false ∧ ¬NegativeZero s) ∧
      ∀ radix cs, Literal s false radix cs → ¬Unnoticed radix cs := by
  rw [show uint64Parse = fun s => intParse s >>= toUint64 from rfl,
    exact_iff (by decide) (by decide)]
  refine ⟨fun hc => ⟨⟨fun hbare => hc.1 false hbare 0 rfl, ?_⟩, fun radix cs h hun => ?_⟩,
    fun hc => ⟨fun neg hbare => ?_, fun neg radix cs h hfalls => ?_⟩⟩
  · rintro ⟨radix, cs, h, hzero⟩
    have heq := hc.2 true radix cs h (not_falls_of_lt h (by omega))
    simp [literalValue, hzero, toUint64] at heq
  · have heq := hc.2 false radix cs h hun.2
    have hbig := hun.1
    simp only [literalValue, Bool.false_eq_true, if_false, toUint64] at heq
    rw [if_neg (by omega)] at heq
    cases heq
  · cases neg
    · exact absurd hbare hc.1.1
    · exact fun v => by simp [toUint64]
  · cases neg
    · have hres := (h.residue hfalls).resolve_right fun hun => hc.2 radix cs h hun.1
      simp only [literalValue, Bool.false_eq_true, if_false, toUint64]
      rw [hres.1, if_pos (by omega)]
    · have hzero : value radix cs ≠ 0 := fun hzero => hc.1.2 ⟨radix, cs, h, hzero⟩
      simp only [literalValue, if_true, toUint64]
      rw [if_neg (by omega)]

/-- The strings each parse is exact on. -/
theorem int_parse_exact_iff (s : Str) :
    (Exact int32Parse (-2 ^ 31) (2 ^ 31 - 1) s ↔ ∀ neg, ¬BarePrefix s neg) ∧
    (Exact uint32Parse 0 (2 ^ 32 - 1) s ↔ ¬BarePrefix s false ∧ ¬NegativeZero s) ∧
    (Exact int64Parse (-2 ^ 63) (2 ^ 63 - 1) s ↔ (∀ neg, ¬BarePrefix s neg) ∧
      ∀ neg radix cs, Literal s neg radix cs → Unnoticed radix cs →
        2 ^ 63 < value radix cs % 2 ^ 64 + if neg then 0 else 1) ∧
    (Exact uint64Parse 0 (2 ^ 64 - 1) s ↔ (¬BarePrefix s false ∧ ¬NegativeZero s) ∧
      ∀ radix cs, Literal s false radix cs → ¬Unnoticed radix cs) :=
  ⟨int32_exact_iff, uint32_exact_iff, int64_exact_iff, uint64_exact_iff⟩

/-- 0x1FFFFFFFFFFFFFFFF is taken for 2 ^ 64 - 1: its value overflows, and rises. -/
theorem uint64Parse_overflow : ¬∀ s, Exact uint64Parse 0 (2 ^ 64 - 1) s := by
  intro hall
  have hlit : Literal (48 :: 120 :: 49 :: List.replicate 16 70) false 16
      (49 :: List.replicate 16 70) :=
    ⟨⟨[], [], [48, 120], [], by simp, by simp [Blank], by simp [Blank],
      by simp [Digits, hexDigit], by simp, by simp⟩, by simp⟩
  have hrange := (hall _).2 _ _ _ hlit (by decide)
  exact absurd hrange (by decide)

end KernelModules.Qdf
